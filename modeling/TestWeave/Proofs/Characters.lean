import Mathlib.Data.List.TakeWhile
import TestWeave.Source.Lex

/-!
# The classes of characters that the scanner tells apart

* `not_isIdentPart_of_mem_marks`: blanks, quotes and operators are no part of a word.
* `isDigit_of_isIdentStart`: what begins a word begins no number.
* `isIdentPart_of_isNumberChar`: but for the dot, numbers are spelled with the characters of words.
* `not_isNumberChar_of_mem_marks`: no mark but the dot stands in a number.
-/

namespace TestWeave.Source

open TestWeave.Text

/-- The characters that spacing, quotes and operators are spelled with. -/
def marks : List Char :=
  [' ', '\t', '\r', '\uFEFF', '\n', '"', '\x60', '\'', '(', ')', '[', ']', '\x7b', '\x7d', ',', ';',
    ':', '.', '+', '-', '*', '/', '%', '&', '|', '^', '<', '>', '=', '!', '~']

theorem not_isIdentPart_of_mem_marks {c : Char} (h : c ∈ marks) : isIdentPart c = false := by
  have hall : marks.all (fun c => !isIdentPart c) = true := by decide +kernel
  simpa using List.all_eq_true.1 hall c h

theorem not_isIdentStart_of_mem_marks {c : Char} (h : c ∈ marks) : isIdentStart c = false := by
  by_contra hc
  have := isIdentPart_of_isIdentStart (eq_true_of_ne_false hc)
  rw [not_isIdentPart_of_mem_marks h] at this
  exact Bool.false_ne_true this

/-- A character that words are spelled with is not a mark. -/
theorem not_mem_marks_of_isIdentPart {c : Char} (h : isIdentPart c = true) : c ∉ marks :=
  fun hm => Bool.false_ne_true ((not_isIdentPart_of_mem_marks hm).symm.trans h)

theorem toNat_lt_of_isAlphanum {c : Char} (h : c.isAlphanum = true) : c.toNat < 128 := by
  have h : ((decide (c.val ≥ 65 ∧ c.val ≤ 90) || decide (c.val ≥ 97) && decide (c.val ≤ 122)) ||
      decide (c.val ≥ 48) && decide (c.val ≤ 57)) = true := h
  simp only [Bool.or_eq_true, Bool.and_eq_true, decide_eq_true_eq, ge_iff_le,
    UInt32.le_iff_toNat_le] at h
  change ((65 ≤ c.toNat ∧ c.toNat ≤ 90) ∨ (97 ≤ c.toNat ∧ c.toNat ≤ 122)) ∨
    (48 ≤ c.toNat ∧ c.toNat ≤ 57) at h
  omega

theorem isIdentPart_of_isAlphanum {c : Char} (h : c.isAlphanum = true) : isIdentPart c = true := by
  have hc := toNat_lt_of_isAlphanum h
  simp only [Char.isAlphanum, Bool.or_eq_true] at h
  simp only [isIdentPart, isAlphabetic, isNumeric, hc, if_true]
  rcases h with h | h <;> simp [h]

/-- What begins a word begins no number. -/
theorem isDigit_of_isIdentStart {c : Char} (h : isIdentStart c = true) : c.isDigit = false := by
  by_contra hd
  have hd : c.isDigit = true := eq_true_of_ne_false hd
  have hc : c.toNat < 128 := toNat_lt_of_isAlphanum (by simp [Char.isAlphanum, hd])
  have ascii : ∀ n < 128, (Char.ofNat n).isDigit = true → isIdentStart (Char.ofNat n) = false := by
    decide
  have := ascii c.toNat hc
  rw [Char.ofNat_toNat] at this
  rw [this hd] at h
  exact Bool.false_ne_true h

theorem isNumberChar_of_isDigit {c : Char} (h : c.isDigit = true) : isNumberChar c = true := by
  simp [isNumberChar, Char.isAlphanum, h]

/-- But for the dot, numbers are spelled with the characters of words. -/
theorem isIdentPart_of_isNumberChar {c : Char} (h : isNumberChar c = true) (hd : c ≠ '.') :
    isIdentPart c = true := by
  simp only [isNumberChar, Bool.or_eq_true, beq_iff_eq, hd, or_false] at h
  rcases h with h | rfl
  · exact isIdentPart_of_isAlphanum h
  · decide

theorem not_isNumberChar_of_mem_marks {c : Char} (h : c ∈ marks) (hd : c ≠ '.') :
    isNumberChar c = false := by
  by_contra hc
  exact not_mem_marks_of_isIdentPart
    (isIdentPart_of_isNumberChar (eq_true_of_ne_false hc) hd) h

theorem mem_marks_of_isSpacing {c : Char} (h : isSpacing c = true) : c ∈ marks := by
  simp only [isSpacing, Bool.or_eq_true, beq_iff_eq] at h
  rcases h with ((rfl | rfl) | rfl) | rfl <;> decide

end TestWeave.Source
