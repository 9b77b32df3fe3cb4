import TestWeave.Proofs.Operators

/-!
# Rows of pieces

A row of pieces stands in a text as it is scanned if each of its pieces reads where it stands.

* `scan_row`: such a row is scanned piece by piece, and then what follows it.
* `row_of_scan`: what is scanned is such a row.
* `Row.replace`: what follows a row can be replaced if only the last piece still ends there.
-/

namespace TestWeave.Source

open TestWeave.Text

/-- Every piece of the row reads, where `rest` follows the row. -/
def Row : List Piece → List Char → Prop
  | [], _ => True
  | p :: ps, rest => Reads p (Piece.joined ps ++ rest) ∧ Row ps rest

@[simp] theorem joined_nil : Piece.joined [] = [] := rfl

@[simp] theorem joined_cons (p : Piece) (ps : List Piece) :
    Piece.joined (p :: ps) = p.text ++ Piece.joined ps := rfl

@[simp] theorem joined_append (ps qs : List Piece) :
    Piece.joined (ps ++ qs) = Piece.joined ps ++ Piece.joined qs := by
  simp [Piece.joined]

theorem Reads.text_ne_nil {p : Piece} {rest : List Char} (h : Reads p rest) : p.text ≠ [] := by
  obtain ⟨c, t, ht, -⟩ := readPiece_of_reads h
  simp [ht]

theorem row_append {ps qs : List Piece} {rest : List Char} :
    Row (ps ++ qs) rest ↔ Row ps (Piece.joined qs ++ rest) ∧ Row qs rest := by
  induction ps with
  | nil => simp [Row]
  | cons p ps ih => simp [Row, ih, and_assoc]

theorem scan_cons_of_reads {p : Piece} {rest : List Char} (h : Reads p rest) :
    scan (p.text ++ rest) = (p :: (scan rest).1, (scan rest).2) := by
  obtain ⟨c, t, ht, hr⟩ := readPiece_of_reads h
  rw [ht, List.cons_append, scan]
  split
  · rename_i hf; rw [hr] at hf; simp at hf
  · rename_i q r hq
    rw [hr] at hq
    simp only [Except.ok.injEq, Prod.mk.injEq] at hq
    obtain ⟨rfl, rfl⟩ := hq
    rfl

/-- **A row is scanned back**, and then what follows it. -/
theorem scan_row {ps : List Piece} {rest : List Char} (h : Row ps rest) :
    scan (Piece.joined ps ++ rest) = (ps ++ (scan rest).1, (scan rest).2) := by
  induction ps with
  | nil => rfl
  | cons p ps ih =>
    rw [joined_cons, List.append_assoc, scan_cons_of_reads h.1, ih h.2]
    rfl

/-- **What is scanned is a row.** -/
theorem row_of_scan {cs : List Char} (h : (scan cs).2 = none) : Row (scan cs).1 [] := by
  fun_induction scan cs with
  | case1 => trivial
  | case2 => simp at h
  | case3 c cs p rest hp pieces fault hs ih =>
    simp only [hs] at ih
    have ht : Piece.joined (scan rest).1 = rest := scan_text (by rw [hs]; exact h)
    rw [hs] at ht
    refine ⟨?_, ih h⟩
    rw [List.append_nil, ht]
    exact reads_of_readPiece hp

/-- Up to a fault, too, what is scanned is a row. -/
theorem scan_spec (cs : List Char) :
    ∃ rest, Piece.joined (scan cs).1 ++ rest = cs ∧ Row (scan cs).1 rest := by
  fun_induction scan cs with
  | case1 => exact ⟨[], rfl, trivial⟩
  | case2 c cs => exact ⟨c :: cs, rfl, trivial⟩
  | case3 c cs p rest hp pieces fault hs ih =>
    simp only [hs] at ih
    obtain ⟨rest', htext, hrow⟩ := ih
    obtain ⟨hcut, hreads⟩ := readPiece_iff.1 hp
    refine ⟨rest', ?_, ?_, hrow⟩
    · rw [joined_cons, List.append_assoc, htext, hcut]
    · rwa [htext]

/-- A row and nothing behind it is all that is scanned. -/
theorem scan_joined {ps : List Piece} (h : Row ps []) : scan (Piece.joined ps) = (ps, none) := by
  have := scan_row h
  rw [List.append_nil] at this
  rw [this, scan]
  simp

/-- The first characters of what follows decide whether a piece ends there. -/
theorem Reads.congr {p : Piece} {rest rest' : List Char} (h : Reads p rest)
    (hh : rest'.head? = rest.head?)
    (hd : rest.head? = some '.' → rest'.tail.head? = some '.' → rest.tail.head? = some '.') :
    Reads p rest' := by
  cases h with
  | blank hc => exact .blank hc
  | lineBreak => exact .lineBreak
  | lineComment hb hr => exact .lineComment hb (by rwa [hh])
  | comment hb => exact .comment hb
  | word hw hr => exact .word hw (by rwa [hh])
  | number hb hn hr => exact .number hb hn (by rwa [hh])
  | string hq => exact .string hq
  | rawString hb => exact .rawString hb
  | rune ht hq => exact .rune ht hq
  | operator ho => exact .operator (ho.congr hh hd)

/-- **What follows a row can be replaced**, if its last piece still ends there and two dots do not
become three. -/
theorem Row.replace {ps : List Piece} {rest rest' : List Char} (h : Row ps rest)
    (hl : ∀ p ∈ ps.getLast?, Reads p rest')
    (hd : ∀ p ∈ ps.getLast?, p.text = ['.'] → rest'.head? = some '.' → rest.head? = some '.') :
    Row ps rest' := by
  induction ps with
  | nil => trivial
  | cons p ps ih =>
    cases ps with
    | nil => exact ⟨by simpa using hl p rfl, trivial⟩
    | cons q ps =>
      have hl' : ∀ r ∈ (q :: ps).getLast?, Reads r rest' := by
        rwa [List.getLast?_cons_cons] at hl
      rw [List.getLast?_cons_cons] at hd
      refine ⟨h.1.congr ?_ ?_, ih h.2 hl' hd⟩
      all_goals
        obtain ⟨c, t, ht⟩ := List.exists_cons_of_ne_nil h.2.1.text_ne_nil
      · simp [ht]
      · -- the text changes at once behind a dot only if the dot is the last piece
        intro hc
        obtain rfl : c = '.' := by simpa [ht] using hc
        cases t with
        | cons d t => simp [ht]
        | nil =>
          cases ps with
          | nil => simpa [ht] using hd q rfl ht
          | cons r ps =>
            obtain ⟨d, u, hu⟩ := List.exists_cons_of_ne_nil h.2.2.1.text_ne_nil
            simp [ht, hu]

/-- The same for a row whose last piece is known. -/
theorem Row.replace_last {ps : List Piece} {p : Piece} {rest rest' : List Char}
    (h : Row (ps ++ [p]) rest) (hl : Reads p rest')
    (hd : p.text = ['.'] → rest'.head? = some '.' → rest.head? = some '.') :
    Row (ps ++ [p]) rest' := by
  refine h.replace ?_ ?_ <;> rw [List.getLast?_concat] <;> rintro _ ⟨⟩
  · exact hl
  · exact hd

end TestWeave.Source
