import TestWeave.Proofs.Moves
import TestWeave.Proofs.Names

/-!
# The lines of a changed source

Imports are added on the line of the package clause, and a redirected call is written on one line.
So the tokens that an edit does not replace stay on their lines, unless a call that is redirected is
spelled on several lines: its line breaks are dropped, and what follows moves up.

* `line_moved`: on which line a token of the source stands in the changed one.
* `lines_kept_iff`: all of them stay on their lines exactly if no call has a line break between its
  receiver and its parenthesis.
-/

namespace TestWeave.Change

open TestWeave.Source TestWeave.Text

/-- The line of a text on which an offset lies. -/
def lineAt (text : String) (offset : Nat) : Nat :=
  (Place.origin.after (cutAt offset text.toList).1).line

/-- A token of `source` stands in `text` as it was spelled, at the offset to which edits move it and
on the line on which it stood. -/
structure KeptIn (source text : String) (edits : List Edit) (t : Token) : Prop where
  spelled : (Span.mk (moved edits t.span.start)
    (moved edits t.span.start + (t.span.stop - t.span.start)) 0 0).textIn text =
      t.span.textIn source
  line : lineAt text (moved edits t.span.start) = t.span.line

/-- Whether a token is no part of the stretch that the edit of a call replaces. -/
def Outside (call : CallSite) (t : Token) : Prop :=
  t.span.stop ≤ call.callee.start ∨ call.openParen.stop ≤ t.span.start

/-! ### The line breaks that edits remove -/

/-- The line breaks that an edit removes. -/
def breaksIn (source : String) (e : Edit) : Nat :=
  ((Span.mk e.start e.stop 0 0).textIn source).toList.count '\n'

theorem textIn_of_append {source : String} (as bs cs : List Char)
    (h : source.toList = as ++ (bs ++ cs)) (start stop line column : Nat) (hs : start = byteSize as)
    (ht : stop = byteSize as + byteSize bs) :
    (Span.mk start stop line column).textIn source = String.ofList bs := by
  rw [Span.textIn, hs, ht, h, cutAt_byteSize, Nat.add_sub_cancel_left, cutAt_byteSize]

theorem line_after (here : Place) (cs : List Char) :
    (here.after cs).line = here.line + cs.count '\n' := by
  induction cs generalizing here with
  | nil => rfl
  | cons c cs ih =>
    rw [Place.after_cons, ih, Place.next]
    split
    · rename_i hc
      simp only [hc, List.count_cons_self]
      omega
    · rename_i hc
      rw [List.count_cons_of_ne hc]

/-- What stands in front of all edits is cut off by none. -/
theorem Cuts.keep {breaks : Edit → Nat} {cursor : Nat} {cs rest : List Char} {es : List Edit}
    (h : Cuts breaks (cursor + byteSize cs) rest es) : Cuts breaks cursor (cs ++ rest) es := by
  generalize hn : cursor + byteSize cs = n at h
  cases h with
  | nil => exact .nil
  | @cons _ kept removed rest e es hs ht hb h =>
    rw [← List.append_assoc]
    refine .cons ?_ ht hb h
    rw [byteSize_append, hs]
    omega

theorem Cuts.inserts {breaks : Edit → Nat} {cursor : Nat} {rest : List Char}
    {inserts es : List Edit} (hi : ∀ e ∈ inserts, e.start = cursor ∧ e.stop = cursor)
    (hb : ∀ e ∈ inserts, breaks e = 0) (h : Cuts breaks cursor rest es) :
    Cuts breaks cursor rest (inserts ++ es) := by
  induction inserts with
  | nil => exact h
  | cons e inserts ih =>
    obtain ⟨h1, h2⟩ := hi e (by simp)
    have ih := ih (fun e he => hi e (by simp [he])) fun e he => hb e (by simp [he])
    change Cuts breaks cursor ([] ++ ([] ++ rest)) (e :: (inserts ++ es))
    exact .cons h1 (by rw [h1, h2]; rfl) (hb e (by simp)) (by rwa [h2])

variable {file : SourceFile} {sdk : Instrumentation} {q : String} {p : Patch}
  {adds : List (String × String)} {head : Head} {segs : List Segment}

/-- The edits of segments cut their text. -/
theorem cuts_segments {here : Place} {around : List Delimiter} {source : String}
    (front : List Char) (hp : Placed here around segs)
    (hs : source.toList = front ++ Piece.joined (piecesOf segs))
    (hf : here.offset = byteSize front) :
    Cuts (breaksIn source) here.offset (Piece.joined (piecesOf segs)) (editsOf q segs) := by
  induction segs generalizing here around front with
  | nil => exact .nil
  | cons s segs ih =>
    cases s with
    | plain p =>
      have hoff := Place.offset_after here p.text
      have := ih (front ++ p.text) hp.2 (by rw [hs]; simp)
        (by rw [byteSize_append, hoff, hf])
      rw [hoff] at this
      exact this.keep
    -- an edit goes from the end of the lead to the end of the window
    | window w =>
      obtain ⟨hat, -, -, hp⟩ := hp
      have hedit := callEdit_window (q := q) hat
      have hoff := Place.offset_after here w.leadText
      have hoff' := Place.offset_after (here.after w.leadText) w.replaced
      rw [piecesOf_window, joined_append, joined_pieces] at hs ⊢
      rw [joined_pieces, Place.after_append] at hp
      have := ih (front ++ (w.leadText ++ w.replaced)) hp (by rw [hs]; simp)
        (by rw [hoff', hoff, byteSize_append, byteSize_append, hf]; omega)
      change Cuts _ _ _ (callEdit q (w.call, w.entry) :: editsOf q segs)
      rw [List.append_assoc, hedit]
      refine .cons hoff rfl ?_ (by rwa [hoff'] at this)
      rw [breaksIn, textIn_of_append (front ++ w.leadText) w.replaced
        (Piece.joined (piecesOf segs)) (by rw [hs]; simp), String.toList_ofList]
      · rw [hoff, byteSize_append, hf]
      · rw [hoff, byteSize_append, hf]

theorem perm_inOrder (hl : Layout file sdk head segs) (hs : Shape file sdk q adds p) :
    p.edits.Perm (inOrder file q adds segs) := by
  rw [← mergeSort_layout hl hs]
  exact (List.mergeSort_perm ..).symm

theorem cuts_layout (hl : Layout file sdk head segs) :
    Cuts (breaksIn file.source) 0 file.source.toList (inOrder file q adds segs) := by
  have hoffset := offset_stop head file.package
  have hs := hl.source
  rw [joined_append] at hs
  have hcuts := cuts_segments (q := q) _ hl.placed hs hoffset
  rw [hs]
  refine Cuts.keep ?_
  rw [Nat.zero_add, ← hoffset]
  refine Cuts.inserts ?_ ?_ hcuts
  · exact fun e => importEdit_offset hl
  · intro e he
    obtain ⟨a, -, rfl⟩ := List.mem_map.1 he
    simp [breaksIn, importEdit, Span.textIn]

/-! ### Tokens -/

/-- A token outside the calls is outside all edits, since imports are added between two pieces. -/
theorem outside_edits (hl : Layout file sdk head segs) (hs : Shape file sdk q adds p)
    {t : Token} {tokens : List Token} (hlex : lex file.source = .ok tokens) (ht : t ∈ tokens)
    (hout : ∀ c ∈ Patch.targets file sdk, Outside c.1 t) :
    ∀ e ∈ p.edits, t.span.stop ≤ e.start ∨ e.stop ≤ t.span.start := by
  intro e hm
  rcases hs.mem_edits.1 hm with ⟨a, ha, rfl⟩ | ⟨c, hc, rfl⟩
  · obtain ⟨-, rfl⟩ := lex_eq_ok_iff.1 hlex
    rw [hl.source, scan_joined hl.row] at ht
    rw [importEdit, hl.anchor]
    exact boundary_of_mem_tokensFrom ht
  · exact hout c hc

/-- **Where a token stands in the changed source**: as it was spelled, and higher by the line breaks
that edits in front of it remove. -/
theorem line_moved (hl : Layout file sdk head segs) (hs : Shape file sdk q adds p)
    (hb : ∀ e ∈ p.edits, '\n' ∉ e.text.toList) {out : List Char}
    (ho : applyEdits file.source.toList p.edits = .ok out) (appended : String) {t : Token}
    {tokens : List Token} (hlex : lex file.source = .ok tokens) (ht : t ∈ tokens)
    (houtside : ∀ e ∈ p.edits, t.span.stop ≤ e.start ∨ e.stop ≤ t.span.start) :
    (Span.mk (moved p.edits t.span.start)
      (moved p.edits t.span.start + (t.span.stop - t.span.start)) 0 0).textIn
        (String.ofList out ++ appended) = t.span.textIn file.source ∧
      lineAt (String.ofList out ++ appended) (moved p.edits t.span.start) +
        sumBefore (breaksIn file.source) p.edits t.span.start = t.span.line := by
  have hperm := perm_inOrder hl hs
  obtain ⟨hscan, rfl⟩ := lex_eq_ok_iff.1 hlex
  obtain ⟨before, stretch, after, hj, hspan⟩ := stretch_of_mem_tokensFrom ht
  rw [scan_text hscan] at hj
  have hstart : t.span.start = byteSize before := by
    rw [hspan, Place.spanTo, Place.offset_after]
    simp [Place.origin]
  have hstop : t.span.stop = byteSize before + byteSize stretch := by
    rw [hspan, Place.spanTo, Place.offset_after]
    simp [Place.origin]
  have hline : t.span.line = 1 + before.count '\n' := by
    rw [hspan, Place.spanTo, line_after]
    rfl
  -- the stretch in the changed source
  obtain ⟨before', after', hsplice, hbytes, hlines⟩ := (cuts_layout hl).stretch hj fun e he => by
    rw [Nat.zero_add, ← hstop, ← hstart]
    exact (houtside e (hperm.symm.subset he)).symm
  rw [applyEdits, mergeSort_layout hl hs, hsplice] at ho
  obtain rfl : before' ++ (stretch ++ after') = out := by simpa using ho
  rw [Nat.zero_add, ← hstart] at hbytes hlines
  rw [← sumBefore_perm _ hperm, ← sumBefore_perm _ hperm] at hbytes hlines
  have hzero : sumBefore (fun e => e.text.toList.count '\n') p.edits t.span.start = 0 :=
    (sumBefore_eq_zero_iff _).2 fun e he _ => List.count_eq_zero.2 (hb e he)
  have hmoved : moved p.edits t.span.start = byteSize before' := by
    rw [moved]
    omega
  have htext : (String.ofList (before' ++ (stretch ++ after')) ++ appended).toList =
      before' ++ (stretch ++ (after' ++ appended.toList)) := by
    simp
  constructor
  · have hspelled : t.span.textIn file.source = String.ofList stretch :=
      textIn_of_append before stretch after hj t.span.start t.span.stop t.span.line t.span.column
        hstart hstop
    rw [hspelled, hmoved]
    exact textIn_of_append before' stretch _ htext _ _ _ _ rfl (by omega)
  · rw [hmoved, lineAt, htext, cutAt_byteSize, line_after, hline]
    simp only [Place.origin]
    omega

/-! ### The edits of a prepared patch hold no line breaks -/

theorem not_mem_break_of_isName {name : String} (h : IsName name) : '\n' ∉ name.toList := by
  intro hm
  have := h.forall_mem _ hm
  exact absurd this (by decide)

theorem not_mem_break_of_needed {sdk : Instrumentation} (hl : IsName sdk.localName)
    (hp : '\n' ∉ sdk.importPath.toList) {n : String × String} (hn : n ∈ needed sdk) :
    '\n' ∉ n.1.toList ∧ '\n' ∉ n.2.toList := by
  simp only [needed, List.mem_cons, List.not_mem_nil, or_false] at hn
  rcases hn with rfl | rfl | rfl
  · exact ⟨hp, not_mem_break_of_isName hl⟩
  all_goals decide

theorem not_mem_break_of_added {sdk : Instrumentation} (hl : IsName sdk.localName)
    (hp : '\n' ∉ sdk.importPath.toList) (anchor : ImportAnchor) {a n : String × String}
    (hn : n ∈ needed sdk) (ha : a.1 = n.1) (hc : IsChoice n.2 a.2) :
    '\n' ∉ (importEdit anchor a).text.toList := by
  obtain ⟨h1, h2⟩ := not_mem_break_of_needed hl hp hn
  have hname : ∀ c ∈ a.2.toList, c ≠ '\n' := by
    refine forall_mem_numbered hc (fun c hm => ?_) fun c hd => ?_
    · rintro rfl
      exact h2 hm
    · rintro rfl
      exact absurd hd (by decide)
  have hname : '\n' ∉ a.2.toList := fun hm => hname _ hm rfl
  rw [← ha] at h1
  simp only [importEdit, Patch.importText]
  split <;> simp [toString, h1, hname]

theorem not_mem_break_of_call {q : String} {call : CallSite} {entry : String}
    (hq : '\n' ∉ q.toList) (he : IsName entry) (hr : IsName call.receiver) :
    '\n' ∉ (callEdit q (call, entry)).text.toList := by
  have h1 := not_mem_break_of_isName he
  have h2 := not_mem_break_of_isName hr
  rw [callEdit, callText_toList, calleeText]
  split <;> simp [hq, h1, h2]

/-- No edit of an instrumented file brings a line break with it. -/
theorem not_mem_break_of_mem_edits {path : Path} {source : String}
    (hf : SourceFile.parse path source = .ok file) (hn : Named sdk)
    (hp : '\n' ∉ sdk.importPath.toList) (hl : Layout file sdk head segs) (entry : Option String) :
    ∀ e ∈ (prepared file sdk entry).edits, '\n' ∉ e.text.toList := by
  obtain ⟨adds, hs, hadds⟩ := shape_prepared file sdk entry
  intro e hm
  rcases hs.mem_edits.1 hm with ⟨a, ha, rfl⟩ | ⟨c, hc, rfl⟩
  · obtain ⟨n, hneeded, hadded⟩ := hadds a ha
    exact not_mem_break_of_added hn.localName hp file.anchor hneeded hadded.path hadded.name
  · have hq : ∀ c ∈ (qualifier file sdk).toList, c ≠ '\n' := by
      refine forall_mem_qualifier hf (fun c hc => ?_) hn.localName fun c hc _ => ?_
      · rintro rfl
        exact absurd hc (by decide)
      · rintro rfl
        exact hp hc
    exact not_mem_break_of_call (fun hm => hq _ hm rfl) (hn.entry hc)
      (name_of_receiver hl.row_segs (hl.sites.symm.subset hc))

/-- **Lines survive**, exactly if every redirected call is spelled on one line up to its
parenthesis: only then does every token outside the replaced stretches stand on its line. -/
theorem lines_kept_iff {path : Path} {source text : String} {file : SourceFile}
    {tokens : List Token} {sdk : Instrumentation} (hf : SourceFile.parse path source = .ok file)
    (hlex : lex source = .ok tokens) (hn : Named sdk) (hp : '\n' ∉ sdk.importPath.toList)
    (entry : Option String) (he : (prepared file sdk entry).emit = .ok text) :
    (∀ t ∈ tokens, (∀ c ∈ Patch.targets file sdk, Outside c.1 t) →
      KeptIn source text (prepared file sdk entry).edits t) ↔
    ∀ c ∈ Patch.targets file sdk,
      '\n' ∉ ((c.1.callee.through c.1.openParen).textIn source).toList := by
  obtain ⟨-, hsource, -⟩ := parse_eq_ok hf
  obtain ⟨head, segs, hl⟩ := exists_layout sdk hf
  obtain ⟨_, hs, -⟩ := shape_prepared file sdk entry
  obtain ⟨out, ho, rfl, -⟩ := emit_eq_ok_iff.1 he
  rw [hs.file_eq] at ho
  subst hsource
  have hbreaks := not_mem_break_of_mem_edits hf hn hp hl entry
  have houtside := fun t ht => outside_edits hl hs hlex (t := t) ht
  constructor
  · -- the end of the file has moved by all line breaks that are dropped
    intro hkept c hc hm
    obtain ⟨hscan, rfl⟩ := lex_eq_ok_iff.1 hlex
    obtain ⟨t, ht, hspan⟩ := end_mem_tokensFrom .origin false (scan file.source.toList).1
    rw [scan_text hscan] at hspan
    have hstart : t.span.start = byteSize file.source.toList := by
      rw [hspan, Place.spanTo, Place.offset_after]
      simp [Place.origin]
    have hstop : ∀ e ∈ (prepared file sdk entry).edits, e.stop ≤ t.span.start := by
      intro e he
      have := (cuts_layout hl).bounds e ((perm_inOrder hl hs).subset he)
      omega
    have hout : ∀ c ∈ Patch.targets file sdk, Outside c.1 t :=
      fun c hc => .inr (hstop _ (hs.mem_edits.2 (.inr ⟨c, hc, rfl⟩)))
    obtain ⟨-, hline⟩ := line_moved hl hs hbreaks ho
      (prepared file sdk entry).appended hlex ht (houtside t ht hout)
    have hzero : sumBefore (breaksIn file.source) (prepared file sdk entry).edits t.span.start = 0 := by
      have := (hkept t ht hout).line
      omega
    have hedit : callEdit (qualifier file sdk) c ∈ (prepared file sdk entry).edits :=
      hs.mem_edits.2 (.inr ⟨c, hc, rfl⟩)
    have := (sumBefore_eq_zero_iff _).1 hzero _ hedit (hstop _ hedit)
    exact List.count_eq_zero.1 this hm
  · intro hc t ht hout
    obtain ⟨hspelled, hline⟩ := line_moved hl hs hbreaks ho
      (prepared file sdk entry).appended hlex ht (houtside t ht hout)
    refine ⟨hspelled, ?_⟩
    have : sumBefore (breaksIn file.source) (prepared file sdk entry).edits t.span.start = 0 := by
      rw [sumBefore_eq_zero_iff]
      intro e he _
      rcases hs.mem_edits.1 he with ⟨a, -, rfl⟩ | ⟨c, hmem, rfl⟩
      · simp [breaksIn, importEdit, Span.textIn]
      · exact List.count_eq_zero.2 (hc c hmem)
    omega

/-- A test with a subtest whose call is spelled on two lines. -/
def splitCall : String :=
  "package p\n\nimport \"testing\"\n\nfunc TestA(t *testing.T) \x7b\n\tt.\n\t\tRun(\"a\", nil)\n\x7d\n"

theorem lines_not_kept_of_splitCall :
    ∃ file tokens text, SourceFile.parse ⟨"a_test.go"⟩ splitCall = .ok file ∧
      lex splitCall = .ok tokens ∧ (prepared file .default none).emit = .ok text ∧
      ∃ t ∈ tokens, (∀ c ∈ Patch.targets file .default, Outside c.1 t) ∧
        ¬KeptIn splitCall text (prepared file .default none).edits t := by
  obtain ⟨file, hf, -, hsorted, hemit, hbreak⟩ := exists_parsed
    (by decide +kernel : (SourceFile.parse ⟨"a_test.go"⟩ splitCall).toOption.any (fun file =>
      (prepared file .default none).edits.Pairwise (fun a b => a.precedes b = true) ∧
      (splice 0 (prepared file .default none).file.source.toList
          (prepared file .default none).edits).toOption.any (fun out =>
        (SourceFile.parse (prepared file .default none).file.path
          (String.ofList out ++ (prepared file .default none).appended)).isOk) = true ∧
      ¬∀ c ∈ Patch.targets file .default,
        '\n' ∉ ((c.1.callee.through c.1.openParen).textIn splitCall).toList) = true)
  obtain ⟨-, -, tokens, -, -, -, -, -, hlex, -⟩ := parse_eq_ok hf
  obtain ⟨text, ht⟩ := emit_of_sorted hsorted hemit
  have hkept := lines_kept_iff hf hlex named_default (by decide) none ht
  refine ⟨file, tokens, text, hf, hlex, ht, ?_⟩
  -- if each of them were kept, no call would be spelled on two lines
  by_contra hall
  refine hbreak (hkept.1 fun t ht hout => ?_)
  by_contra hk
  exact hall ⟨t, ht, hout, hk⟩

end TestWeave.Change
