import TestWeave.Proofs.Actions
import TestWeave.Proofs.Scanned

/-!
# Stretches that can be cut out

Calls, their arguments and the place for imports are known by byte offsets into a source. A stretch
can be cut out only if both its ends are boundaries between characters of the source, and the first
does not stand behind the second.

* `slice?`: the characters of a stretch that can be cut out; `exists_slice_iff`: when it can.
* `standing_of_lex`: how tokens stand in their source.
* `CallSite.Placed`: how the parts of a call stand; `CallSite.ReadFrom.placed`: they do so if the call
  is read from tokens of the source.
* `weave?_eq`: edits are made by cutting stretches out of the source alone.
* `sliceable_of_parse`: whatever is cut out of the source of a file can be.
-/

namespace TestWeave

variable {α : Type} {sep : α → Bool} {r : α → α → Prop} {as : List α} {segments : List (List α)}

/-- **Between segments stands a separator**: if the elements of a list are ordered, it comes behind
those of the first segment and in front of those of the second. -/
theorem Splits.pairwise (hs : Splits sep as segments) (h : as.Pairwise r) :
    segments.Pairwise fun front back =>
      ∀ a ∈ front, ∀ b ∈ back, ∃ s ∈ as, sep s = true ∧ r a s ∧ r s b := by
  -- in front of what stands behind the first segment there is a separator
  suffices hboth : (segments.Pairwise fun front back =>
      ∀ a ∈ front, ∀ b ∈ back, ∃ s ∈ as, sep s = true ∧ r a s ∧ r s b) ∧
      ∀ back ∈ segments.tail, ∀ b ∈ back, ∃ s ∈ as, sep s = true ∧ r s b from hboth.1
  induction hs with
  | nil => simp
  | @sep a as segments ha hs ih =>
    obtain ⟨hfirst, hlater⟩ := List.pairwise_cons.1 h
    refine ⟨.cons (by simp) ?_, fun back hback b hb => ⟨a, by simp, ha, hfirst b ?_⟩⟩
    · exact (ih hlater).1.imp fun hp x hx b hb => List.exists_mem_cons_of_exists (hp x hx b hb)
    · exact (hs.sublist hback).subset hb
  | @other a as segment segments _ _ ih =>
    obtain ⟨hfirst, hlater⟩ := List.pairwise_cons.1 h
    obtain ⟨hpairs, htail⟩ := ih hlater
    obtain ⟨hhead, hsegments⟩ := List.pairwise_cons.1 hpairs
    refine ⟨.cons (fun back hback x hx b hb => ?_) ?_, fun back hback b hb =>
      List.exists_mem_cons_of_exists (htail back hback b hb)⟩
    · rcases List.mem_cons.1 hx with rfl | hx
      · obtain ⟨s, hs, hsep, hsb⟩ := htail back hback b hb
        exact ⟨s, List.mem_cons_of_mem _ hs, hsep, hfirst s hs, hsb⟩
      · exact List.exists_mem_cons_of_exists (hhead back hback x hx b hb)
    · exact hsegments.imp fun hp x hx b hb => List.exists_mem_cons_of_exists (hp x hx b hb)

end TestWeave

namespace TestWeave.Source

open TestWeave.Change

/-! ### Boundaries -/

/-- Whether a byte offset is one at which a character of a text begins, or its end. -/
def Boundary (text : List Char) (offset : Nat) : Prop :=
  ∃ front back, text = front ++ back ∧ offset = byteSize front

/-- The characters from byte `start` to byte `stop`, if both are boundaries and stand in this order. -/
def slice? (text : List Char) (start stop : Nat) : Option (List Char) :=
  let (front, back) := cutAt start text
  let (cs, _) := cutAt (stop - start) back
  if byteSize front = start ∧ start + byteSize cs = stop then some cs else none

variable {text cs : List Char} {start stop : Nat}

theorem slice?_eq_some_iff : slice? text start stop = some cs ↔
    ∃ front back, text = front ++ (cs ++ back) ∧ start = byteSize front ∧
      stop = start + byteSize cs := by
  constructor
  · intro h
    simp only [slice?] at h
    split at h
    · rename_i hends
      obtain rfl := Option.some.inj h
      refine ⟨(cutAt start text).1, (cutAt (stop - start) (cutAt start text).2).2, ?_,
        hends.1.symm, hends.2.symm⟩
      rw [cutAt_append, cutAt_append]
    · cases h
  · rintro ⟨front, back, rfl, rfl, rfl⟩
    simp [slice?, cutAt_byteSize]

/-- **What can be cut out**: what ends at boundaries that stand in order. -/
theorem exists_slice_iff : (∃ cs, slice? text start stop = some cs) ↔
    Boundary text start ∧ Boundary text stop ∧ start ≤ stop := by
  constructor
  · rintro ⟨cs, hcs⟩
    obtain ⟨front, back, rfl, rfl, rfl⟩ := slice?_eq_some_iff.1 hcs
    exact ⟨⟨front, cs ++ back, rfl, rfl⟩,
      ⟨front ++ cs, back, by simp, (byteSize_append ..).symm⟩, Nat.le_add_right ..⟩
  · rintro ⟨⟨front, back, rfl, rfl⟩, ⟨front', back', htext, rfl⟩, hle⟩
    obtain ⟨cs, rfl, rfl⟩ := exists_append_of_byteSize_le front front' htext hle
    exact ⟨cs, slice?_eq_some_iff.2 ⟨front, back', rfl, rfl, byteSize_append ..⟩⟩

/-- Nothing is cut through a character or behind the end of a text. -/
example : slice? ['é', 'x'] 0 1 = none ∧ slice? ['é', 'x'] 2 4 = none ∧
    slice? ['é', 'x'] 2 3 = some ['x'] := by decide

/-- The text of a stretch is what can be cut out there. -/
theorem textIn_of_slice {s : Span} {source : String}
    (h : slice? source.toList s.start s.stop = some cs) : s.textIn source = String.ofList cs := by
  simp only [slice?] at h
  split at h
  · rw [← Option.some.inj h]
    rfl
  · cases h

/-! ### Tokens -/

/-- How tokens stand in a text: each between two boundaries, and none in front of the end of one
before it. Those that are neither inserted nor the end of the file take up some of it. -/
structure Standing (text : List Char) (tokens : List Token) : Prop where
  boundaries : ∀ t ∈ tokens, Boundary text t.span.start ∧ Boundary text t.span.stop
  ordered : ∀ t ∈ tokens, t.span.start ≤ t.span.stop
  spelled : ∀ t ∈ tokens, t.isInserted = false → t.kind ≠ .eof → t.span.start < t.span.stop
  ascending : tokens.Pairwise fun a b => a.span.stop ≤ b.span.start

theorem standing_of_lex {source : String} {tokens : List Token} (h : lex source = .ok tokens) :
    Standing source.toList tokens := by
  obtain ⟨hscan, rfl⟩ := lex_eq_ok_iff.1 h
  have hrow := row_of_scan hscan
  have hstretch : ∀ t ∈ tokensFrom .origin false (scan source.toList).1, ∃ cs,
      slice? source.toList t.span.start t.span.stop = some cs := by
    intro t ht
    obtain ⟨before, stretch, after, htext, hspan⟩ := stretch_of_mem_tokensFrom ht
    rw [scan_text hscan] at htext
    refine ⟨stretch, slice?_eq_some_iff.2 ⟨before, after, htext, ?_, ?_⟩⟩
    · rw [hspan]
      exact offset_origin before
    · rw [hspan]
      rfl
  refine ⟨fun t ht => ?_, fun t ht => ?_, fun t ht hi he => ?_, ascending_tokensFrom ..⟩
  · obtain ⟨hstart, hstop, -⟩ := exists_slice_iff.1 (hstretch t ht)
    exact ⟨hstart, hstop⟩
  · exact (exists_slice_iff.1 (hstretch t ht)).2.2
  · obtain ⟨_, _, -, -, hstop, hread⟩ := spelled_of_mem_tokensFrom hrow ht hi he
    rw [hstop]
    exact Nat.lt_add_of_pos_right (byteSize_pos hread.text_ne_nil)

variable {tokens tokens' window inner : List Token} {t : Token} {arg : Span}

theorem Standing.sublist (h : Standing text tokens) (hs : tokens'.Sublist tokens) :
    Standing text tokens' where
  boundaries t ht := h.boundaries t (hs.subset ht)
  ordered t ht := h.ordered t (hs.subset ht)
  spelled t ht := h.spelled t (hs.subset ht)
  ascending := h.ascending.sublist hs

/-- A token that is neither a semicolon nor the end of the file takes up some of the text. -/
theorem Standing.start_lt_stop (h : Standing text tokens) (ht : t ∈ tokens)
    (hs : t.kind ≠ .operator .semi) (he : t.kind ≠ .eof) : t.span.start < t.span.stop :=
  h.spelled t ht (by simp [Token.isInserted, hs]) he

/-! ### Arguments -/

/-- The first of some tokens does not stand behind the last. -/
theorem Standing.head_le_getLast (h : Standing text tokens) {first last : Token}
    (hfirst : tokens.head? = some first) (hlast : tokens.getLast? = some last) :
    first.span.start ≤ last.span.stop := by
  obtain ⟨behind, rfl⟩ := List.head?_eq_some_iff.1 hfirst
  have hordered := h.ordered first (by simp)
  rw [List.getLast?_cons] at hlast
  cases hbehind : behind.getLast? with
  | none =>
    obtain rfl : first = last := by simpa [hbehind] using hlast
    exact hordered
  | some last' =>
    obtain rfl : last' = last := by simpa [hbehind] using hlast
    have hmem := List.mem_of_getLast? hbehind
    have hascending := (List.pairwise_cons.1 h.ascending).1 last' hmem
    have := h.ordered last' (by simp [hmem])
    omega

theorem stretch?_eq_some {s : Span} (h : stretch? tokens = some s) : ∃ first last,
    tokens.head? = some first ∧ tokens.getLast? = some last ∧ s = first.span.through last.span := by
  unfold stretch? at h
  split at h
  · rename_i first last hfirst hlast
    exact ⟨first, last, hfirst, hlast, (Option.some.inj h).symm⟩
  · cases h

/-- **An argument** begins with a token and ends with one that does not stand in front of it. -/
theorem Standing.exists_ends (h : Standing text inner) (ha : arg ∈ argStretches inner) :
    ∃ first ∈ inner, ∃ last ∈ inner, arg = first.span.through last.span ∧
      first.span.start ≤ last.span.stop := by
  obtain ⟨segment, hsegment, hstretch⟩ := List.mem_filterMap.1 ha
  obtain ⟨first, last, hfirst, hlast, harg⟩ := stretch?_eq_some hstretch
  have hsub := ((splits _ _).sublist hsegment).map Prod.fst
  rw [map_fst_withAround] at hsub
  exact ⟨first, hsub.subset (List.mem_of_head? hfirst), last,
    hsub.subset (List.mem_of_getLast? hlast), harg, (h.sublist hsub).head_le_getLast hfirst hlast⟩

/-- **Arguments stand one behind the other**, with a comma in between. -/
theorem Standing.ascending_argStretches (h : Standing text inner) :
    (argStretches inner).Pairwise fun a b => a.stop < b.start := by
  have hascending : (withAround [] inner).Pairwise fun p q => p.1.span.stop ≤ q.1.span.start := by
    have hmap := h.ascending
    rw [← map_fst_withAround [] inner, List.pairwise_map] at hmap
    exact hmap
  rw [argStretches, List.pairwise_filterMap]
  refine ((splits _ _).pairwise hascending).imp fun {front back} hcomma a ha b hb => ?_
  obtain ⟨-, last, -, hlast, rfl⟩ := stretch?_eq_some ha
  obtain ⟨first, -, hfirst, -, rfl⟩ := stretch?_eq_some hb
  obtain ⟨p, hp, rfl⟩ := List.mem_map.1 (List.mem_of_getLast? hlast)
  obtain ⟨q, hq, rfl⟩ := List.mem_map.1 (List.mem_of_head? hfirst)
  obtain ⟨⟨comma, around⟩, hmem, hsep, hbefore, hbehind⟩ := hcomma p hp q hq
  have hinner : comma ∈ inner := by
    rw [← map_fst_withAround [] inner]
    exact List.mem_map.2 ⟨_, hmem, rfl⟩
  have hkind : comma.kind = .operator .comma := by
    simpa using (Bool.and_eq_true_iff.1 hsep).2
  have hlt := h.start_lt_stop hinner (by simp [hkind]) (by simp [hkind])
  exact hbefore.trans_lt (hlt.trans_le hbehind)

/-! ### Calls -/

/-- The stretches of a call. -/
def CallSite.stretches (call : CallSite) : List Span :=
  call.callee :: call.openParen :: call.closeParen :: call.args

/-- **How the parts of a call stand** in a text: all between boundaries, the callee in front of the
parentheses, and the arguments one behind the other between these. -/
structure CallSite.Placed (call : CallSite) (text : List Char) : Prop where
  boundaries : ∀ s ∈ call.stretches, Boundary text s.start ∧ Boundary text s.stop
  callee : call.callee.start < call.callee.stop
  openParen : call.callee.stop ≤ call.openParen.start ∧ call.openParen.start < call.openParen.stop
  closeParen : call.openParen.stop ≤ call.closeParen.start ∧
    call.closeParen.start < call.closeParen.stop
  args : ∀ arg ∈ call.args, call.openParen.stop ≤ arg.start ∧ arg.start ≤ arg.stop ∧
    arg.stop ≤ call.closeParen.start
  ascending : call.args.Pairwise fun a b => a.stop < b.start

/-- **A call that is read from tokens** stands as they do. -/
theorem CallSite.ReadFrom.placed {call : CallSite} {receiver method : String}
    (h : call.ReadFrom receiver window) (ho : opensCall receiver method window = true)
    (hs : Standing text window) : call.Placed text := by
  obtain ⟨recv, dot, name, paren, inner, closing, rest, rfl, -, hclosing, rfl⟩ := h
  obtain ⟨_, _, _, _, _, heq, hrecv, hdot, hname, hparen⟩ := opensCall_iff.1 ho
  simp only [List.cons.injEq] at heq
  obtain ⟨rfl, rfl, rfl, rfl, -⟩ := heq
  -- the tokens of the window stand in their order, and each of these is spelled
  have hascending := hs.ascending
  simp only [List.pairwise_cons, List.pairwise_append, List.mem_cons, List.mem_append,
    forall_eq_or_imp] at hascending
  obtain ⟨⟨hrecvdot, -⟩, ⟨hdotname, -⟩, ⟨hnameparen, -⟩, hparens, -, -, hcloses⟩ := hascending
  have hrecvlt := hs.start_lt_stop (t := recv) (by simp) (by simp [hrecv]) (by simp [hrecv])
  have hdotle := hs.ordered dot (by simp)
  have hnamele := hs.ordered name (by simp)
  have hparenlt := hs.start_lt_stop (t := paren) (by simp) (by simp [hparen]) (by simp [hparen])
  have hclosinglt :=
    hs.start_lt_stop (t := closing) (by simp) (by simp [hclosing]) (by simp [hclosing])
  have hin : inner <:+: recv :: dot :: name :: paren :: (inner ++ closing :: rest) :=
    ⟨[recv, dot, name, paren], closing :: rest, by simp⟩
  have hinner := hs.sublist hin.sublist
  refine ⟨?_, ?_, ⟨hnameparen, hparenlt⟩, ⟨hparens closing (by simp), hclosinglt⟩, ?_,
    hinner.ascending_argStretches⟩
  · intro s hmem
    simp only [stretches, List.mem_cons] at hmem
    rcases hmem with rfl | rfl | rfl | harg
    · exact ⟨(hs.boundaries recv (by simp)).1, (hs.boundaries name (by simp)).2⟩
    · exact hs.boundaries paren (by simp)
    · exact hs.boundaries closing (by simp)
    · obtain ⟨first, hfirst, last, hlast, rfl, -⟩ := hinner.exists_ends harg
      exact ⟨(hinner.boundaries first hfirst).1, (hinner.boundaries last hlast).2⟩
  · change recv.span.start < name.span.stop
    omega
  · intro arg harg
    obtain ⟨first, hfirst, last, hlast, rfl, hle⟩ := hinner.exists_ends harg
    exact ⟨hparens first (.inl hfirst), hle, (hcloses last hlast).1⟩

variable {path : Path} {source : String} {file : SourceFile}

/-- The calls of a file stand in its source as calls do. -/
theorem placed_of_mem_callSites (hf : SourceFile.parse path source = .ok file) {call : CallSite}
    (hc : call ∈ file.callSites) : call.Placed source.toList := by
  obtain ⟨-, -, tokens, _, _, _, _, _, hlex, -⟩ := parse_eq_ok hf
  rw [← map_targets file .default] at hc
  obtain ⟨site, hsite, rfl⟩ := List.mem_map.1 hc
  obtain ⟨receiver, body, hcall, hproper, hbody⟩ := exists_body_of_mem_targets hf hlex hsite
  obtain ⟨front, window, hflatten, hopens, -, hread⟩ := exists_window_of_mem_calls hproper hcall
  refine hread.placed hopens ((standing_of_lex hlex).sublist ?_)
  exact (hflatten ▸ List.sublist_append_right front window).trans hbody.sublist

/-- The texts of the arguments, if all of them can be cut out. -/
def CallSite.argTexts? (call : CallSite) (source : String) : Option (List String) :=
  call.args.mapM fun arg => (slice? source.toList arg.start arg.stop).map String.ofList

theorem CallSite.Placed.argTexts? {call : CallSite} (h : call.Placed source.toList) :
    call.argTexts? source = some (call.argTexts source) := by
  have hslices : ∀ arg ∈ call.args, (slice? source.toList arg.start arg.stop).map String.ofList =
      some (arg.textIn source) := by
    intro arg harg
    obtain ⟨hstart, hstop⟩ := h.boundaries arg (by simp [stretches, harg])
    obtain ⟨cs, hcs⟩ := exists_slice_iff.2 ⟨hstart, hstop, (h.args arg harg).2.1⟩
    rw [hcs, textIn_of_slice hcs]
    rfl
  rw [CallSite.argTexts?, CallSite.argTexts]
  generalize call.args = args at hslices
  induction args with
  | nil => rfl
  | cons arg args ih =>
    obtain ⟨harg, hargs⟩ := List.forall_mem_cons.1 hslices
    rw [List.mapM_cons, harg, ih hargs]
    rfl

end TestWeave.Source

namespace TestWeave.Change

open TestWeave.Source

/-! ### Edits -/

/-- Makes edits by cutting stretches out of a source, each from where the edit in front of it ends.
The result is missing if one of them cannot be cut out. -/
def weave? (source : List Char) (cursor : Nat) : List Edit → Option (Except Nat (List Char))
  | [] => (slice? source cursor (byteSize source)).map .ok
  | e :: es =>
    if e.start < cursor then some (.error e.start)
    else do
      let kept ← slice? source cursor e.start
      let rest ← weave? source e.stop es
      return rest.map (kept ++ e.text.toList ++ ·)

/-- The changed source, made by cutting stretches out of the one there is. -/
def Patch.emit? (p : Patch) : Option (Except EmitError String) :=
  (weave? p.file.source.toList 0 (p.edits.mergeSort Edit.precedes)).map fun
    | .error offset => .error (.overlap p.file.path offset)
    | .ok cs => checked p.file.path (String.ofList cs ++ p.appended)

variable {source : List Char} {es : List Edit} {file : SourceFile} {p : Patch}
  {rs : List Redirection} {as : List Action}

theorem spans_iff {start stop : Nat} : Spans 0 source start stop ↔
    ∃ cs, slice? source start stop = some cs := by
  simp only [slice?_eq_some_iff, Spans, Nat.zero_add]
  constructor
  · rintro ⟨kept, removed, behind, h⟩
    exact ⟨removed, kept, behind, h⟩
  · rintro ⟨removed, kept, behind, h⟩
    exact ⟨kept, removed, behind, h⟩

/-- **Edits of stretches of a source** can be made by cutting it. -/
theorem weave?_eq {front rest : List Char} (hf : ∀ e ∈ es, Spans 0 (front ++ rest) e.start e.stop) :
    weave? (front ++ rest) (byteSize front) es = some (splice (byteSize front) rest es) := by
  induction es generalizing front rest with
  | nil =>
    have hslice : slice? (front ++ rest) (byteSize front) (byteSize (front ++ rest)) = some rest :=
      slice?_eq_some_iff.2 ⟨front, [], by simp, rfl, byteSize_append ..⟩
    rw [weave?, hslice]
    rfl
  | cons e es ih =>
    obtain ⟨he, hes⟩ := List.forall_mem_cons.1 hf
    rw [weave?, splice]
    split
    · rfl
    · rename_i hle
      obtain ⟨kept, removed, behind, rfl, hstart, hstop⟩ := he.behind (by omega)
      -- between the cursor and the edit stands a slice of the source
      have hslice : slice? (front ++ (kept ++ (removed ++ behind))) (byteSize front) e.start =
          some kept := slice?_eq_some_iff.2 ⟨front, removed ++ behind, rfl, rfl, by omega⟩
      have hsource : front ++ (kept ++ (removed ++ behind)) =
          (front ++ (kept ++ removed)) ++ behind := by simp
      have hcursor : e.stop = byteSize (front ++ (kept ++ removed)) := by
        simp only [byteSize_append]
        omega
      have hkept : cutAt (e.start - byteSize front) (kept ++ (removed ++ behind)) =
          (kept, removed ++ behind) := by
        rw [show e.start - byteSize front = byteSize kept by omega, cutAt_byteSize]
      have hremoved : cutAt (e.stop - e.start) (removed ++ behind) = (removed, behind) := by
        rw [show e.stop - e.start = byteSize removed by omega, cutAt_byteSize]
      rw [hsource] at hes
      simp only [hslice, hkept, hremoved]
      rw [hsource, hcursor, ih hes]
      rfl

/-- **Emission never cuts anything else**: what the changed source is made from can be cut out of the
source there is. -/
theorem emit?_of_collected (hf : Sited file) (h : Collected file p rs)
    (hr : ∀ r ∈ rs, r.call ∈ file.callSites) : p.emit? = some p.emit := by
  have hspans : ∀ e ∈ p.edits.mergeSort Edit.precedes,
      Spans 0 ([] ++ p.file.source.toList) e.start e.stop := by
    intro e he
    rw [h.file_eq]
    rcases List.mem_append.1 (h.edits.subset ((List.mergeSort_perm _ _).subset he)) with he | he
    · rw [(importEdit_start he).1, (importEdit_start he).2]
      exact hf.anchor
    · obtain ⟨r, hmem, rfl⟩ := List.mem_map.1 he
      exact hf.spans _ (hr r hmem)
  have hweave := weave?_eq hspans
  rw [Patch.emit?, Patch.emit, applyEdits]
  simp only [List.nil_append, byteSize] at hweave
  rw [hweave]
  cases splice 0 p.file.source.toList (p.edits.mergeSort Edit.precedes) <;> rfl

/-- **What is cut out of the source of a file can be.** The anchor, and all stretches of its calls, stand
between boundaries of characters, the parts of a call in their order, and the calls behind the anchor
and clear of each other. So the texts of all arguments can be had, and what any course of actions on the
file emits. -/
theorem sliceable_of_parse {path : Path} {source : String}
    (hf : SourceFile.parse path source = .ok file) :
    Boundary source.toList file.anchor.offset ∧
    (∀ call ∈ file.callSites, call.Placed source.toList ∧
      file.anchor.offset ≤ call.callee.start ∧
      call.argTexts? source = some (call.argTexts source)) ∧
    (file.callSites.Pairwise fun c c' =>
      c.openParen.stop ≤ c'.callee.start ∨ c'.openParen.stop ≤ c.callee.start) ∧
    ∀ as, Owned file as →
      ((Patch.new file).act as).emit? = some ((Patch.new file).act as).emit := by
  have hsited := sited_of_parse hf
  obtain ⟨-, hsource, -⟩ := parse_eq_ok hf
  refine ⟨?_, fun call hc => ?_, clear_callSites hf, fun as ho => ?_⟩
  · rw [← hsource]
    exact (exists_slice_iff.1 (spans_iff.1 hsited.anchor)).1
  · have hplaced := placed_of_mem_callSites hf hc
    exact ⟨hplaced, (hsited.behind call hc).1, hplaced.argTexts?⟩
  · have hcollected := (Collected.new file).act as
    exact emit?_of_collected hsited hcollected (ho.redirections (Collected.new file))

/-- A call in the arguments of another one, where the end of a line ends an argument, and a driver that
is run without arguments. -/
def accented : String :=
  "package p; import \"testing\"\n\nfunc TestA(t *testing.T) \x7b\n" ++
  "\tt.Run(\"é\", f(t.Run(x\n), 1),)\n\x7d\n\nfunc main() \x7b m.Run( /* ü */ ) \x7d\n"

theorem sliceable_of_accented : ∃ file, SourceFile.parse ⟨"a_test.go"⟩ accented = .ok file ∧
    file.callSites.map (·.argTexts accented) = [["\"é\"", "f(t.Run(x\n), 1)"], ["x\n"], []] ∧
    (∀ call ∈ file.callSites, call.Placed accented.toList ∧
      call.argTexts? accented = some (call.argTexts accented)) ∧
    ((Patch.new file).act (redirectAll file)).emit? =
      some ((Patch.new file).act (redirectAll file)).emit := by
  obtain ⟨file, hf, -, htexts⟩ := exists_parsed
    (by decide +kernel : (SourceFile.parse ⟨"a_test.go"⟩ accented).toOption.any (fun file =>
      file.callSites.map (·.argTexts accented) =
        [["\"é\"", "f(t.Run(x\n), 1)"], ["x\n"], []]) = true)
  obtain ⟨-, hcalls, -, hemit⟩ := sliceable_of_parse hf
  exact ⟨file, hf, htexts, fun call hc => ⟨(hcalls call hc).1, (hcalls call hc).2.2⟩,
    hemit _ (owned_redirectAll file)⟩

end TestWeave.Change
