/-!
# Classes of characters given by ranges

A class of characters is stored as the list of its ranges of code points, each range with its
first and last member, in ascending order.

* `CharRanges.has_iff`: a character is in the class iff some listed range holds its code point.
-/

namespace TestWeave.Text

/-- Ranges of code points, each given by its first and last member. -/
abbrev CharRanges := List (Nat × Nat)

/-- Whether the code point of `c` lies in one of the ranges. -/
def CharRanges.has (ranges : CharRanges) (c : Char) : Bool :=
  ranges.any fun r => r.1 ≤ c.toNat && c.toNat ≤ r.2

theorem CharRanges.has_iff {ranges : CharRanges} {c : Char} :
    ranges.has c = true ↔ ∃ r ∈ ranges, r.1 ≤ c.toNat ∧ c.toNat ≤ r.2 := by
  simp [CharRanges.has]

end TestWeave.Text
