import TestWeave.Source.Place

/-!
# Edits of a text

An `Edit` puts a text in the place of a stretch of a source, given by byte offsets. `splice` makes
edits that are in order and do not overlap; `applyEdits` puts them in order first.

* `splice_ok_iff`: edits in order can be made iff none begins before the one in front of it ends.
-/

namespace TestWeave.Change

open TestWeave.Source

/-- Puts `text` in the place of the bytes from `start` to `stop`. -/
structure Edit where
  start : Nat
  stop : Nat
  text : String
  deriving DecidableEq, Repr

/-- Whether `a` may be made before `b`: it begins first, or both begin together and it ends no
later. -/
def Edit.precedes (a b : Edit) : Bool :=
  a.start < b.start || (a.start == b.start && a.stop ≤ b.stop)

/-- Makes edits on the rest of a source that begins at byte `cursor`; fails with the offset of the
first edit that begins before the one in front of it ends. -/
def splice (cursor : Nat) (rest : List Char) : List Edit → Except Nat (List Char)
  | [] => .ok rest
  | e :: es =>
    if e.start < cursor then .error e.start
    else
      let (kept, tail) := cutAt (e.start - cursor) rest
      let (_, tail) := cutAt (e.stop - e.start) tail
      (splice e.stop tail es).map (kept ++ e.text.toList ++ ·)

/-- Whether edits follow each other without overlap, from byte `cursor` on. -/
def Disjoint (cursor : Nat) : List Edit → Prop
  | [] => True
  | e :: es => cursor ≤ e.start ∧ Disjoint e.stop es

theorem splice_ok_iff (cursor : Nat) (rest : List Char) (es : List Edit) :
    (∃ out, splice cursor rest es = .ok out) ↔ Disjoint cursor es := by
  induction es generalizing cursor rest with
  | nil => simp [splice, Disjoint]
  | cons e es ih =>
    unfold splice Disjoint
    split
    · constructor
      · rintro ⟨_, h⟩; simp at h
      · rintro ⟨h, -⟩; omega
    · rename_i hc
      rw [← ih e.stop (cutAt (e.stop - e.start) (cutAt (e.start - cursor) rest).2).2]
      simp only [show cursor ≤ e.start by omega, true_and]
      cases splice e.stop (cutAt (e.stop - e.start) (cutAt (e.start - cursor) rest).2).2 es <;>
        simp [Except.map]

/-- Makes edits on a source, in the order of the stretches they replace. -/
def applyEdits (source : List Char) (edits : List Edit) : Except Nat (List Char) :=
  splice 0 source (edits.mergeSort Edit.precedes)

end TestWeave.Change
