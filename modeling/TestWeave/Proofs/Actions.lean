import Mathlib.Data.List.Pairwise
import TestWeave.Proofs.Lines
import TestWeave.Proofs.Simultaneous

/-!
# Patches after any course of actions

Whatever is asked of a patch, in whatever order, its edits are the imports that were added and the
calls that were redirected. Calls of a file stand clear of each other, also where one is an
argument of another, so edits overlap only if one call is redirected twice.

* `Collected`: what a patch holds; `Collected.act`: what one action adds to it.
* `clear_callSites`: the calls of a file stand clear of each other; `sited_of_parse`: where they
  stand in its source.
* `emit_of_collected`: what becomes of the source.
* `emit_act`: the same for any course of actions.
-/

namespace TestWeave.Source

open TestWeave.Change

/-- The calls that are made on drivers: those of tests, and the one that runs the suite. -/
def SourceFile.callSites (file : SourceFile) : List CallSite :=
  file.tests.flatMap (·.subtests) ++ file.driver.toList.map (·.runCall)

end TestWeave.Source

namespace TestWeave.Change

open TestWeave.Source

/-! ### Actions -/

/-- A call that is to be sent through a function of a package. -/
structure Redirection where
  call : CallSite
  qualifier : String
  entry : String
  deriving DecidableEq, Repr

/-- The edit that redirects a call. -/
def Redirection.edit (r : Redirection) : Edit := callEdit r.qualifier (r.call, r.entry)

/-- What can be asked of a patch. -/
inductive Action
  | instrument (sdk : Instrumentation)
  | ensureImport (path preferred : String)
  | appendSuiteEntry (sdk : Instrumentation) (var : String)
  | redirectCall (r : Redirection)
  | emit
  deriving DecidableEq, Repr

namespace Action

/-- What an action leaves of a patch. -/
def apply (p : Patch) : Action → Patch
  | instrument sdk => (p.instrument sdk).2
  | ensureImport path preferred => (p.ensureImport path preferred).2
  | appendSuiteEntry sdk var => p.appendSuiteEntry sdk var
  | redirectCall r => p.redirectCall r.call r.qualifier r.entry
  | emit => p

/-- The calls that an action redirects, in the order of their edits. -/
def redirections (p : Patch) : Action → List Redirection
  | instrument sdk =>
    (Patch.targets p.file sdk).map fun (call, entry) =>
      ⟨call, (p.ensureImport sdk.importPath sdk.localName).1, entry⟩
  | redirectCall r => [r]
  | ensureImport .. | appendSuiteEntry .. | emit => []

/-- The suite entry that an action appends. -/
def entry? (p : Patch) : Action → Option String
  | appendSuiteEntry sdk var =>
    let (testing, p) := p.ensureImport Known.testingPackage Known.testingPackage
    let (os, p) := p.ensureImport Known.osPackage Known.osPackage
    let (qualifier, _) := p.ensureImport sdk.importPath sdk.localName
    some (Patch.suiteEntryText testing os qualifier sdk.suiteEntry var)
  | _ => none

end Action

/-- A patch after a course of actions. -/
def Patch.act (p : Patch) (as : List Action) : Patch := as.foldl Action.apply p

/-- The calls that a course of actions redirects, in the order in which it does. -/
def redirections (p : Patch) : List Action → List Redirection
  | [] => []
  | a :: as => a.redirections p ++ redirections (a.apply p) as

/-- The suite entries that a course of actions appends. -/
def entriesOf (p : Patch) : List Action → List String
  | [] => []
  | a :: as => (a.entry? p).toList ++ entriesOf (a.apply p) as

/-- The actions redirect calls of the file only. -/
def Owned (file : SourceFile) (as : List Action) : Prop :=
  ∀ r, Action.redirectCall r ∈ as → r.call ∈ file.callSites

/-! ### What a patch holds -/

/-- The edits of a patch: the added imports in the order in which they were added, and one edit for
each redirection. -/
structure Collected (file : SourceFile) (p : Patch) (rs : List Redirection) : Prop where
  file_eq : p.file = file
  imports : (p.addedImports.map (importEdit file.anchor)).Sublist p.edits
  edits : p.edits.Perm (p.addedImports.map (importEdit file.anchor) ++ rs.map Redirection.edit)

variable {file : SourceFile} {p : Patch} {rs rs' : List Redirection} {a : Action}
  {as as' : List Action}

theorem Collected.new (file : SourceFile) : Collected file (Patch.new file) [] :=
  ⟨rfl, .slnil, .nil⟩

theorem Collected.ensureImport (h : Collected file p rs) (path preferred : String) :
    Collected file (p.ensureImport path preferred).2 rs := by
  rcases ensureImport_spec p path preferred with ⟨name, -, he⟩ | ⟨-, he⟩
  · rw [he]
    exact h
  · rw [he]
    obtain ⟨hf, hi, hp⟩ := h
    refine ⟨hf, ?_, ?_⟩
    · rw [List.map_append, List.map_singleton, hf]
      exact hi.append_right _
    · rw [List.map_append, List.map_singleton, hf, List.append_assoc]
      refine (hp.append_right _).trans ?_
      rw [List.append_assoc]
      exact List.perm_append_comm.append_left _

theorem Collected.redirect (h : Collected file p rs) (more : List Redirection) :
    Collected file { p with edits := p.edits ++ more.map Redirection.edit } (rs ++ more) := by
  obtain ⟨hf, hi, hp⟩ := h
  refine ⟨hf, hi.trans (List.sublist_append_left ..), ?_⟩
  rw [List.map_append, ← List.append_assoc]
  exact hp.append_right _

/-- To instrument a patch is to add the import and one edit for each call. -/
theorem Collected.instrument (h : Collected file p rs) (sdk : Instrumentation) :
    Collected file (p.instrument sdk).2 (rs ++ (Action.instrument sdk).redirections p) := by
  have hmap : ((Action.instrument sdk).redirections p).map Redirection.edit =
      (Patch.targets p.file sdk).map (callEdit (p.ensureImport sdk.importPath sdk.localName).1) := by
    rw [Action.redirections, List.map_map]
    rfl
  unfold Patch.instrument
  cases ht : Patch.targets p.file sdk with
  | nil => simpa [Action.redirections, ht] using h
  | cons c calls =>
    have hredirect := (h.ensureImport sdk.importPath sdk.localName).redirect
      ((Action.instrument sdk).redirections p)
    rw [hmap, ht] at hredirect
    simp only [foldl_redirectCall]
    exact hredirect

/-- **What an action adds** to a patch. -/
theorem Collected.act_one (h : Collected file p rs) (a : Action) :
    Collected file (a.apply p) (rs ++ a.redirections p) := by
  cases a with
  | instrument sdk => exact h.instrument sdk
  | ensureImport path preferred =>
    rw [Action.redirections, List.append_nil]
    exact h.ensureImport path preferred
  | appendSuiteEntry sdk var =>
    rw [Action.redirections, List.append_nil, Action.apply, appendSuiteEntry_eq]
    obtain ⟨hf, hi, hp⟩ := ((h.ensureImport Known.testingPackage Known.testingPackage).ensureImport
      Known.osPackage Known.osPackage).ensureImport sdk.importPath sdk.localName
    exact ⟨hf, hi, hp⟩
  | redirectCall r => exact h.redirect [r]
  | emit =>
    rw [Action.redirections, List.append_nil]
    exact h

/-- A course of actions adds what its actions add. -/
theorem Collected.act (h : Collected file p rs) (as : List Action) :
    Collected file (p.act as) (rs ++ redirections p as) := by
  induction as generalizing p rs with
  | nil => simpa [Patch.act, redirections] using h
  | cons a as ih =>
    rw [redirections, ← List.append_assoc]
    exact ih (h.act_one a)

theorem appended_ensureImport (p : Patch) (path preferred : String) :
    (p.ensureImport path preferred).2.appended = p.appended := by
  rcases ensureImport_spec p path preferred with ⟨name, -, he⟩ | ⟨-, he⟩ <;> rw [he]

theorem appended_apply (p : Patch) (a : Action) :
    (a.apply p).appended = (a.entry? p).getD p.appended := by
  cases a with
  | instrument sdk =>
    rw [Action.apply, Patch.instrument]
    cases Patch.targets p.file sdk with
    | nil => rfl
    | cons c calls =>
      simp only [foldl_redirectCall]
      exact appended_ensureImport ..
  | ensureImport path preferred => exact appended_ensureImport ..
  | appendSuiteEntry sdk var => rfl
  | redirectCall r => rfl
  | emit => rfl

/-- Only the last suite entry stays. -/
theorem appended_act (p : Patch) (as : List Action) :
    (p.act as).appended = (entriesOf p as).getLast?.getD p.appended := by
  induction as generalizing p with
  | nil => rfl
  | cons a as ih =>
    have : (p.act (a :: as)).appended = ((a.apply p).act as).appended := rfl
    rw [this, ih, appended_apply, entriesOf, List.getLast?_append]
    cases (entriesOf (a.apply p) as).getLast? <;> cases a.entry? p <;> rfl

/-- Emitting leaves a patch as it is. -/
theorem act_filter_emit (p : Patch) (as : List Action) :
    p.act (as.filter (· ≠ .emit)) = p.act as := by
  induction as generalizing p with
  | nil => rfl
  | cons a as ih =>
    by_cases ha : a = .emit
    · subst ha
      exact ih p
    · rw [List.filter_cons_of_pos (by simpa using ha)]
      exact ih (a.apply p)

/-! ### Where calls stand -/

/-- The calls of a file are stretches of its source behind the place where imports are added, and
any two of them stand clear of each other. -/
structure Sited (file : SourceFile) : Prop where
  anchor : Spans 0 file.source.toList file.anchor.offset file.anchor.offset
  spans : ∀ c ∈ file.callSites, Spans 0 file.source.toList c.callee.start c.openParen.stop
  behind : ∀ c ∈ file.callSites,
    file.anchor.offset ≤ c.callee.start ∧ c.callee.start < c.openParen.stop
  clear : ∀ c ∈ file.callSites, ∀ c' ∈ file.callSites, c ≠ c' →
    c.openParen.stop ≤ c'.callee.start ∨ c'.openParen.stop ≤ c.callee.start

theorem map_targets (file : SourceFile) (sdk : Instrumentation) :
    (Patch.targets file sdk).map Prod.fst = file.callSites := by
  simp [Patch.targets, SourceFile.callSites, List.map_flatMap, Function.comp_def]

/-- Edits that cut a text replace stretches of it. -/
theorem Cuts.spans {breaks : Edit → Nat} {cursor : Nat} {rest : List Char} {es : List Edit}
    (h : Cuts breaks cursor rest es) : ∀ e ∈ es, Spans cursor rest e.start e.stop := by
  induction h with
  | nil => simp
  | @cons cursor kept removed rest e es hs ht _ _ ih =>
    refine List.forall_mem_cons.2 ⟨⟨kept, removed, rest, rfl, hs, ht⟩, fun e' he' => ?_⟩
    obtain ⟨kept', removed', behind, rfl, hs', ht'⟩ := ih e' he'
    refine ⟨kept ++ (removed ++ kept'), removed', behind, by simp, ?_, ht'⟩
    simp only [byteSize_append]
    omega

theorem Cuts.pairwise {breaks : Edit → Nat} {cursor : Nat} {rest : List Char} {es : List Edit}
    (h : Cuts breaks cursor rest es) : es.Pairwise fun a b => a.stop ≤ b.start := by
  induction h with
  | nil => exact .nil
  | cons _ _ _ h ih => exact List.pairwise_cons.2 ⟨fun e he => (h.bounds e he).1, ih⟩

/-- **The calls of a file** stand clear of each other, nested or not. -/
theorem clear_callSites {path : Path} {source : String}
    (h : SourceFile.parse path source = .ok file) : file.callSites.Pairwise fun c c' =>
      c.openParen.stop ≤ c'.callee.start ∨ c'.openParen.stop ≤ c.callee.start := by
  obtain ⟨head, segs, hl⟩ := exists_layout .default h
  have hcuts : Cuts _ 0 file.source.toList (inOrder file "" [] segs) := cuts_layout hl
  have hsites : (sitesOf segs).Pairwise fun a b => (callEdit "" a).Clear (callEdit "" b) :=
    (List.pairwise_map.1 hcuts.pairwise).imp Or.inl
  rw [← map_targets file .default, List.pairwise_map]
  exact hl.sites.pairwise hsites Or.symm

/-- **Where the calls of a file stand**: no two have anything in common, nested or not. -/
theorem sited_of_parse {path : Path} {source : String}
    (h : SourceFile.parse path source = .ok file) : Sited file := by
  obtain ⟨head, segs, hl⟩ := exists_layout .default h
  -- without a qualifier the edits of the layout are those of the calls
  have hcuts : Cuts _ 0 file.source.toList (inOrder file "" [] segs) := cuts_layout hl
  have hbehind := (editsOf_spec (q := "") hl.placed).1
  have hanchor : file.anchor.offset = (head.stop file.package).offset := by rw [hl.anchor]
  have hmem : ∀ c ∈ file.callSites, ∃ site ∈ sitesOf segs, site.1 = c := by
    intro c hc
    rw [← map_targets file .default] at hc
    obtain ⟨site, hsite, rfl⟩ := List.mem_map.1 hc
    exact ⟨site, hl.sites.symm.subset hsite, rfl⟩
  have hedit : ∀ site ∈ sitesOf segs, callEdit "" site ∈ editsOf "" segs :=
    fun site hsite => List.mem_map_of_mem hsite
  refine ⟨?_, ?_, ?_, ?_⟩
  · refine ⟨Piece.joined (head.pieces file.package), [], Piece.joined (piecesOf segs), ?_, ?_, rfl⟩
    · rw [hl.source, joined_append, List.nil_append]
    · rw [hanchor, offset_stop, Nat.zero_add]
  · intro c hc
    obtain ⟨site, hsite, rfl⟩ := hmem c hc
    exact hcuts.spans _ (hedit site hsite)
  · intro c hc
    obtain ⟨site, hsite, rfl⟩ := hmem c hc
    rw [hanchor]
    exact hbehind _ (hedit site hsite)
  · intro c hc c' hc' hne
    have : Std.Symm fun c c' : CallSite =>
        c.openParen.stop ≤ c'.callee.start ∨ c'.openParen.stop ≤ c.callee.start :=
      ⟨fun _ _ => Or.symm⟩
    exact (clear_callSites h).forall hc hc' hne

/-! ### What becomes of the source -/

/-- A text that is a source file. -/
def checked (path : Path) (text : String) : Except EmitError String :=
  match SourceFile.parse path text with
  | .ok _ => .ok text
  | .error cause => .error (.invalid cause)

/-- The source with imports put in at their place, in their order, and redirections made. -/
def substituted (file : SourceFile) (adds : List (String × String)) (rs : List Redirection) :
    String :=
  String.ofList (substitute (adds.map (importEdit file.anchor) ++ rs.map Redirection.edit) 0
    file.source.toList)

/-- Redirections of calls of the file stand clear of each other iff no call is redirected twice. -/
theorem clear_iff_nodup (hf : Sited file) (hr : ∀ r ∈ rs, r.call ∈ file.callSites) :
    (rs.map Redirection.edit).Pairwise Edit.Clear ↔ (rs.map (·.call)).Nodup := by
  rw [List.Nodup, List.pairwise_map, List.pairwise_map]
  constructor
  · refine fun h => h.imp_of_mem fun {r r'} ha _ hclear heq => ?_
    have hlt := (hf.behind r.call (hr r ha)).2
    have hclear : r.call.openParen.stop ≤ r'.call.callee.start ∨
      r'.call.openParen.stop ≤ r.call.callee.start := hclear
    rw [← heq] at hclear
    omega
  · exact fun h => h.imp_of_mem fun ha hb hne => hf.clear _ (hr _ ha) _ (hr _ hb) hne

theorem importEdit_start {adds : List (String × String)} {e : Edit}
    (he : e ∈ adds.map (importEdit file.anchor)) :
    e.start = file.anchor.offset ∧ e.stop = file.anchor.offset := by
  obtain ⟨added, -, rfl⟩ := List.mem_map.1 he
  exact ⟨rfl, rfl⟩

/-- **What a patch makes of the source**: if a call is redirected twice, nothing, and otherwise the
source with all that was collected put in at once. -/
theorem emit_of_collected (hf : Sited file) (h : Collected file p rs)
    (hr : ∀ r ∈ rs, r.call ∈ file.callSites) :
    ((∃ offset, p.emit = .error (.overlap file.path offset)) ↔ ¬(rs.map (·.call)).Nodup) ∧
      ((rs.map (·.call)).Nodup →
        p.emit = checked file.path (substituted file p.addedImports rs ++ p.appended)) := by
  have hfile := h.file_eq
  have hmade : (rs.map (·.call)).Nodup → applyEdits file.source.toList p.edits =
      .ok (substitute (p.addedImports.map (importEdit file.anchor) ++ rs.map Redirection.edit) 0
        file.source.toList) := by
    intro hnodup
    refine applyEdits_inserts h.edits h.imports (fun e => importEdit_start) ?_
      ((clear_iff_nodup hf hr).2 hnodup) ?_
    · intro e he
      obtain ⟨r, hmem, rfl⟩ := List.mem_map.1 he
      exact hf.behind _ (hr r hmem)
    · intro e he
      rcases List.mem_append.1 he with he | he
      · rw [(importEdit_start he).1, (importEdit_start he).2]
        exact hf.anchor
      · obtain ⟨r, hmem, rfl⟩ := List.mem_map.1 he
        exact hf.spans _ (hr r hmem)
  have hemit : (rs.map (·.call)).Nodup →
      p.emit = checked file.path (substituted file p.addedImports rs ++ p.appended) := by
    intro hnodup
    rw [Patch.emit, hfile, hmade hnodup]
    rfl
  refine ⟨⟨?_, fun hnot => ?_⟩, hemit⟩
  · rintro ⟨offset, hoverlap⟩ hnodup
    rw [hemit hnodup, checked] at hoverlap
    split at hoverlap <;> simp at hoverlap
  · -- edits that were made stand clear of each other, so no call was redirected twice
    have hw : ∀ e ∈ p.edits, e.start ≤ e.stop := by
      intro e he
      rcases List.mem_append.1 (h.edits.subset he) with he | he
      · rw [(importEdit_start he).1, (importEdit_start he).2]
      · obtain ⟨r, hmem, rfl⟩ := List.mem_map.1 he
        exact (hf.behind _ (hr r hmem)).2.le
    cases hout : applyEdits file.source.toList p.edits with
    | error offset =>
      refine ⟨offset, ?_⟩
      rw [Patch.emit, hfile, hout]
    | ok out =>
      have hclear := (applyEdits_ok_iff _ hw).1 ⟨out, hout⟩
      have hclear := (h.edits.pairwise_iff Edit.Clear.symm).1 hclear
      exact absurd ((clear_iff_nodup hf hr).1 (List.pairwise_append.1 hclear).2.1) hnot

/-- The source that is emitted. -/
theorem text_of_collected (hf : Sited file) (h : Collected file p rs)
    (hr : ∀ r ∈ rs, r.call ∈ file.callSites) {text : String} (hemit : p.emit = .ok text) :
    text = substituted file p.addedImports rs ++ p.appended := by
  obtain ⟨hoverlap, hmade⟩ := emit_of_collected hf h hr
  have hnodup : (rs.map (·.call)).Nodup := by
    by_contra hnot
    obtain ⟨offset, herror⟩ := hoverlap.2 hnot
    rw [herror] at hemit
    cases hemit
  have hchecked := (hmade hnodup).symm.trans hemit
  unfold checked at hchecked
  split at hchecked
  · exact (Except.ok.inj hchecked).symm
  · cases hchecked

/-- An instrumented file, with a suite entry or without, has its calls redirected. -/
theorem collected_prepared (file : SourceFile) (sdk : Instrumentation) (entry : Option String) :
    Collected file (prepared file sdk entry)
      ((Action.instrument sdk).redirections (.new file)) := by
  have hinstrument := (Collected.new file).act_one (.instrument sdk)
  rw [List.nil_append] at hinstrument
  cases entry with
  | none => exact hinstrument
  | some var =>
    have hentry := hinstrument.act_one (.appendSuiteEntry sdk var)
    rwa [show (Action.appendSuiteEntry sdk var).redirections _ = [] from rfl, List.append_nil]
      at hentry

/-- **What instrumentation makes of the source.** -/
theorem text_of_prepared {path : Path} {source text : String} {sdk : Instrumentation}
    {entry : Option String} (hf : SourceFile.parse path source = .ok file)
    (hemit : (prepared file sdk entry).emit = .ok text) :
    text = substituted file (prepared file sdk entry).addedImports
      ((Action.instrument sdk).redirections (.new file)) ++ (prepared file sdk entry).appended := by
  refine text_of_collected (sited_of_parse hf) (collected_prepared file sdk entry) ?_ hemit
  intro r hr
  rw [← map_targets file sdk]
  obtain ⟨site, hsite, rfl⟩ := List.mem_map.1 hr
  exact List.mem_map.2 ⟨site, hsite, rfl⟩

/-- What redirections put in does not depend on their order. -/
theorem substituted_perm (hf : Sited file) (hr : ∀ r ∈ rs, r.call ∈ file.callSites)
    (hn : (rs.map (·.call)).Nodup) (hp : rs.Perm rs') (adds : List (String × String)) :
    substituted file adds rs = substituted file adds rs' := by
  have hedits := hp.map Redirection.edit
  have hstart := start_ne_of_clear ((clear_iff_nodup hf hr).2 hn) fun e he => by
    obtain ⟨r, hmem, rfl⟩ := List.mem_map.1 he
    exact (hf.behind _ (hr r hmem)).2
  refine congrArg String.ofList (substitute_congr (fun n => ?_)
    (fun n => takesAway_perm (hedits.append_left _) n) _ _)
  rw [textsAt_append, textsAt_append, textsAt_perm hedits hstart]

/-- The calls that owned actions redirect are calls of the file. -/
theorem Owned.redirections (ho : Owned file as) (h : Collected file p rs) :
    ∀ r ∈ Change.redirections p as, r.call ∈ file.callSites := by
  induction as generalizing p rs with
  | nil => simp [Change.redirections]
  | cons a as ih =>
    intro r hr
    rw [Change.redirections, List.mem_append] at hr
    rcases hr with hr | hr
    · cases a with
      | instrument sdk =>
        rw [← map_targets file sdk, ← h.file_eq]
        obtain ⟨site, hsite, rfl⟩ := List.mem_map.1 hr
        exact List.mem_map.2 ⟨site, hsite, rfl⟩
      | redirectCall r' =>
        obtain rfl : r = r' := by simpa [Action.redirections] using hr
        exact ho r (by simp)
      | ensureImport | appendSuiteEntry | emit => simp [Action.redirections] at hr
    · exact ih (fun r hr => ho r (List.mem_cons_of_mem _ hr)) (h.act_one a) r hr

/-- **Emission is simultaneous substitution.** After any course of actions on its calls, a file is
emitted unless one of them was redirected twice: every redirected call has its new text, the added
imports stand at their place in the order in which they were added, all else is kept, and the last
suite entry stands at the end. The order of the redirections does not matter, and emitting leaves
the patch as it is. -/
theorem emit_act {path : Path} {source : String} (hf : SourceFile.parse path source = .ok file)
    (ho : Owned file as) :
    ((∃ offset, ((Patch.new file).act as).emit = .error (.overlap path offset)) ↔
      ¬((redirections (.new file) as).map (·.call)).Nodup) ∧
    (((redirections (.new file) as).map (·.call)).Nodup →
      ((Patch.new file).act as).emit = checked path
        (substituted file ((Patch.new file).act as).addedImports (redirections (.new file) as) ++
          (entriesOf (.new file) as).getLast?.getD "") ∧
      ∀ as', Owned file as' →
        (redirections (.new file) as').Perm (redirections (.new file) as) →
        ((Patch.new file).act as').addedImports = ((Patch.new file).act as).addedImports →
        (entriesOf (.new file) as').getLast? = (entriesOf (.new file) as).getLast? →
        ((Patch.new file).act as').emit = ((Patch.new file).act as).emit) ∧
    (Patch.new file).act (as.filter (· ≠ .emit)) = (Patch.new file).act as := by
  have hsited := sited_of_parse hf
  have hpath : file.path = path := (parse_eq_ok hf).1
  -- the same holds of a course that redirects in another order
  have hspec : ∀ as, Owned file as →
      ((∃ offset, ((Patch.new file).act as).emit = .error (.overlap path offset)) ↔
        ¬((redirections (.new file) as).map (·.call)).Nodup) ∧
      (((redirections (.new file) as).map (·.call)).Nodup →
        ((Patch.new file).act as).emit = checked path
          (substituted file ((Patch.new file).act as).addedImports (redirections (.new file) as) ++
            (entriesOf (.new file) as).getLast?.getD "")) := by
    intro as ho
    have hcollected := (Collected.new file).act as
    have hr := ho.redirections (Collected.new file)
    rw [List.nil_append] at hcollected
    have happended := appended_act (Patch.new file) as
    have h := emit_of_collected hsited hcollected hr
    rw [hpath, happended] at h
    exact h
  obtain ⟨hoverlap, hemit⟩ := hspec as ho
  refine ⟨hoverlap, fun hn => ⟨hemit hn, fun as' ho' hperm hadds hlast => ?_⟩,
    act_filter_emit _ _⟩
  have hn' := (hperm.map (·.call)).nodup_iff.2 hn
  have hr' := ho'.redirections (Collected.new file)
  rw [hemit hn, (hspec as' ho').2 hn', hadds, hlast, substituted_perm hsited hr' hn' hperm]

/-- A test with a call in the arguments of another one. -/
def nestedCalls : String :=
  "package p\n\nimport \"testing\"\n\nfunc TestA(t *testing.T) \x7b\n" ++
  "\tt.Run(\"a\", f(t.Run(\"b\", nil)))\n\x7d\n"

/-- Redirects every call of a file to a package that is added. -/
def redirectAll (file : SourceFile) : List Action :=
  .ensureImport "x/y" "y" :: file.callSites.map fun call => .redirectCall ⟨call, "y", "Run"⟩

theorem owned_redirectAll (file : SourceFile) : Owned file (redirectAll file) := by
  intro r hr
  simp only [redirectAll, List.mem_cons, List.mem_map, reduceCtorEq, false_or] at hr
  obtain ⟨call, hcall, he⟩ := hr
  cases he
  exact hcall

/-- The nested calls are redirected in whatever order, and neither of them twice. -/
theorem emit_act_of_nestedCalls : ∃ file,
    SourceFile.parse ⟨"a_test.go"⟩ nestedCalls = .ok file ∧ file.callSites.length = 2 ∧
    ((Patch.new file).act (redirectAll file)).emit = checked ⟨"a_test.go"⟩
      (substituted file ((Patch.new file).act (redirectAll file)).addedImports
        (redirections (.new file) (redirectAll file)) ++ "") ∧
    ((Patch.new file).act (redirectAll file).reverse).emit =
      ((Patch.new file).act (redirectAll file)).emit ∧
    ∃ offset, ((Patch.new file).act (redirectAll file ++ redirectAll file)).emit =
      .error (.overlap ⟨"a_test.go"⟩ offset) := by
  obtain ⟨file, hf, -, hlength, hn, hperm, hadds, hlast, hlast', hdouble⟩ := exists_parsed
    (by decide +kernel : (SourceFile.parse ⟨"a_test.go"⟩ nestedCalls).toOption.any (fun file =>
      file.callSites.length = 2 ∧
      ((redirections (.new file) (redirectAll file)).map (·.call)).Nodup ∧
      (redirections (.new file) (redirectAll file).reverse).Perm
        (redirections (.new file) (redirectAll file)) ∧
      ((Patch.new file).act (redirectAll file).reverse).addedImports =
        ((Patch.new file).act (redirectAll file)).addedImports ∧
      entriesOf (.new file) (redirectAll file) = [] ∧
      entriesOf (.new file) (redirectAll file).reverse = [] ∧
      ¬((redirections (.new file) (redirectAll file ++ redirectAll file)).map (·.call)).Nodup) =
        true)
  have ho := owned_redirectAll file
  have hreverse : Owned file (redirectAll file).reverse := fun r hr => ho r (List.mem_reverse.1 hr)
  have htwice : Owned file (redirectAll file ++ redirectAll file) := fun r hr =>
    (List.mem_append.1 hr).elim (ho r) (ho r)
  obtain ⟨hemit, horder⟩ := (emit_act hf ho).2.1 hn
  rw [hlast] at hemit
  exact ⟨file, hf, hlength, hemit, horder _ hreverse hperm hadds (by rw [hlast, hlast']),
    (emit_act hf htwice).1.2 hdouble⟩

end TestWeave.Change
