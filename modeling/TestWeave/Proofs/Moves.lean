import Mathlib.Algebra.GroupWithZero.Nat
import TestWeave.Proofs.Splice

/-!
# Where edits move a text

What stands between edits stands in the edited text too, behind what the edits in front of it
insert and without what they remove.

* `moved`: the offset to which edits move an offset.
* `Cuts.stretch`: a stretch that no edit touches stands at its moved offset, on a line that differs
  by the line breaks which edits in front of it insert or remove.
-/

namespace TestWeave.Change

open TestWeave.Source

/-- The sum of `f` over the edits that end at or in front of an offset. -/
def sumBefore (f : Edit → Nat) (edits : List Edit) (offset : Nat) : Nat :=
  ((edits.filter (·.stop ≤ offset)).map f).sum

/-- The bytes that an edit inserts. -/
def Edit.inserted (e : Edit) : Nat := byteSize e.text.toList

/-- The bytes that an edit removes. -/
def Edit.removed (e : Edit) : Nat := e.stop - e.start

/-- Where edits move an offset that none of them removes. -/
def moved (edits : List Edit) (offset : Nat) : Nat :=
  offset + sumBefore Edit.inserted edits offset - sumBefore Edit.removed edits offset

theorem sumBefore_perm (f : Edit → Nat) {es es' : List Edit} (h : es.Perm es') (offset : Nat) :
    sumBefore f es offset = sumBefore f es' offset :=
  List.Perm.sum_nat ((h.filter _).map f)

theorem sumBefore_cons_of_le (f : Edit → Nat) {e : Edit} {offset : Nat} (h : e.stop ≤ offset)
    (es : List Edit) : sumBefore f (e :: es) offset = f e + sumBefore f es offset := by
  simp [sumBefore, h]

theorem sumBefore_eq_zero_iff (f : Edit → Nat) {es : List Edit} {offset : Nat} :
    sumBefore f es offset = 0 ↔ ∀ e ∈ es, e.stop ≤ offset → f e = 0 := by
  induction es with
  | nil => simp [sumBefore]
  | cons e es ih =>
    rw [List.forall_mem_cons, ← ih]
    by_cases h : e.stop ≤ offset
    · rw [sumBefore_cons_of_le f h]
      simp only [h, forall_const]
      omega
    · simp [sumBefore, h]

/-- Edits behind an offset count nothing. -/
theorem sumBefore_eq_zero (f : Edit → Nat) {es : List Edit} {offset : Nat}
    (h : ∀ e ∈ es, offset < e.stop) : sumBefore f es offset = 0 :=
  (sumBefore_eq_zero_iff f).2 fun e he hle => absurd (h e he) (by omega)

/-- The edits cut a text that begins at byte `cursor` between characters, one behind the other;
`breaks` counts the line breaks that each of them removes. -/
inductive Cuts (breaks : Edit → Nat) : Nat → List Char → List Edit → Prop
  | nil {cursor rest} : Cuts breaks cursor rest []
  | cons {cursor kept removed rest e es} : e.start = cursor + byteSize kept →
      e.stop = e.start + byteSize removed → breaks e = removed.count '\n' →
      Cuts breaks e.stop rest es → Cuts breaks cursor (kept ++ (removed ++ rest)) (e :: es)

variable {breaks : Edit → Nat} {cursor : Nat} {rest : List Char} {es : List Edit}

theorem Cuts.bounds (h : Cuts breaks cursor rest es) :
    ∀ e ∈ es, cursor ≤ e.start ∧ e.start ≤ e.stop ∧ e.stop ≤ cursor + byteSize rest := by
  induction h with
  | nil => simp
  | cons hs ht _ _ ih =>
    simp only [byteSize_append]
    refine List.forall_mem_cons.2 ⟨by omega, fun e he => ?_⟩
    have := ih e he
    omega

theorem splice_cut {kept removed : List Char} {e : Edit} (hs : e.start = cursor + byteSize kept)
    (ht : e.stop = e.start + byteSize removed) (h : ∀ e' ∈ es, e.stop ≤ e'.start) :
    splice cursor (kept ++ (removed ++ rest)) (e :: es) =
      (splice e.stop rest es).map fun out => kept ++ (e.text.toList ++ out) := by
  obtain ⟨start, stop, text⟩ := e
  simp only at hs ht h
  have hbehind : ∀ e ∈ ⟨start, stop, text⟩ :: es, cursor + byteSize kept ≤ e.start := by
    refine List.forall_mem_cons.2 ⟨hs.ge, fun e he => ?_⟩
    have := h e he
    omega
  rw [splice_keep hbehind, ht, hs, splice_replace, except_map_map]

/-- Edits that cut a text can be made. -/
theorem Cuts.splice (h : Cuts breaks cursor rest es) : ∃ out, splice cursor rest es = .ok out := by
  induction h with
  | nil => exact ⟨_, rfl⟩
  | cons hs ht _ h ih =>
    obtain ⟨out, ho⟩ := ih
    exact ⟨_, by rw [splice_cut hs ht (fun e he => (h.bounds e he).1), ho]; rfl⟩

/-- Of two fronts of one text the shorter begins the longer. -/
theorem exists_append_of_byteSize_le (as cs : List Char) {bs ds : List Char}
    (h : as ++ bs = cs ++ ds) (hle : byteSize as ≤ byteSize cs) : ∃ u, cs = as ++ u ∧ bs = u ++ ds := by
  rcases List.append_eq_append_iff.1 h with ⟨u, hu, hb⟩ | ⟨u, rfl, rfl⟩
  · exact ⟨u, hu, hb⟩
  · cases u with
    | nil => exact ⟨[], by simp, by simp⟩
    | cons c u =>
      have := Char.utf8Size_pos c
      rw [byteSize_append, byteSize] at hle
      omega

/-- **A stretch that no edit touches** stands in the edited text, at its moved offset and on the line
that the edits in front of it move it to. -/
theorem Cuts.stretch (h : Cuts breaks cursor rest es) {before stretch after : List Char}
    (hr : rest = before ++ (stretch ++ after))
    (ho : ∀ e ∈ es, e.stop ≤ cursor + byteSize before ∨
      cursor + byteSize before + byteSize stretch ≤ e.start) :
    ∃ before' after', Change.splice cursor rest es = .ok (before' ++ (stretch ++ after')) ∧
      byteSize before' + sumBefore Edit.removed es (cursor + byteSize before) =
        byteSize before + sumBefore Edit.inserted es (cursor + byteSize before) ∧
      before'.count '\n' + sumBefore breaks es (cursor + byteSize before) =
        before.count '\n' +
          sumBefore (fun e => e.text.toList.count '\n') es (cursor + byteSize before) := by
  induction h generalizing before with
  | nil => exact ⟨before, after, by rw [hr]; rfl, rfl, rfl⟩
  | @cons cursor kept removed rest e es hs ht hb h ih =>
    obtain ⟨he, ho⟩ := List.forall_mem_cons.1 ho
    by_cases hle : e.stop ≤ cursor + byteSize before
    · -- the edit stands in front of the stretch
      obtain ⟨u, rfl, hu⟩ := exists_append_of_byteSize_le (kept ++ removed) before
        (by rw [List.append_assoc]; exact hr) (by rw [byteSize_append]; omega)
      have hcursor : cursor + byteSize (kept ++ removed ++ u) = e.stop + byteSize u := by
        rw [byteSize_append, byteSize_append]
        omega
      rw [hcursor] at ho hle ⊢
      obtain ⟨before', after', hsplice, hbytes, hlines⟩ := ih hu ho
      refine ⟨kept ++ (e.text.toList ++ before'), after', ?_, ?_, ?_⟩
      · rw [splice_cut hs ht (fun e he => (h.bounds e he).1), hsplice]
        simp [Except.map]
      · rw [sumBefore_cons_of_le _ hle, sumBefore_cons_of_le _ hle]
        simp only [byteSize_append, Edit.removed, Edit.inserted]
        omega
      · rw [sumBefore_cons_of_le _ hle, sumBefore_cons_of_le _ hle, hb]
        simp only [List.count_append]
        omega
    · -- the edit and all others stand behind it
      have hlater : ∀ e' ∈ e :: es, cursor + byteSize before < e'.stop := by
        refine List.forall_mem_cons.2 ⟨by omega, fun e' he' => ?_⟩
        have := h.bounds e' he'
        omega
      obtain ⟨u, hu, hrest⟩ := exists_append_of_byteSize_le (before ++ stretch) kept
        (by rw [List.append_assoc]; exact hr.symm) (by rw [byteSize_append]; omega)
      obtain ⟨out, hout⟩ := h.splice
      refine ⟨before, u ++ (e.text.toList ++ out), ?_, ?_, ?_⟩
      · rw [splice_cut hs ht (fun e he => (h.bounds e he).1), hout, hu]
        simp [Except.map]
      · rw [sumBefore_eq_zero _ hlater, sumBefore_eq_zero _ hlater]
      · rw [sumBefore_eq_zero _ hlater, sumBefore_eq_zero _ hlater]

end TestWeave.Change
