import TestWeave.Proofs.Additions

/-!
# Scanning a changed source

The changed source is the head of the source, the added imports, the new pieces of its segments and
what is appended. Each part ends where the next one begins.

* `row_changed`: if every window is legible, these pieces are a row.
* `legible_of_changed`: a changed source that is scanned has only legible windows.
-/

namespace TestWeave.Source

open TestWeave.Text TestWeave.Change

/-- What ends at the end of a text ends at a line break. -/
theorem Row.before_break {ps : List Piece} {rest : List Char} (h : Row ps [])
    (hr : ∀ c ∈ rest.head?, c = '\n') : Row ps rest := by
  refine h.replace ?_ fun p _ _ hdot => ?_
  · intro p hp
    obtain ⟨front, rfl⟩ : ∃ front, ps = front ++ [p] := List.getLast?_eq_some_iff.1 hp
    have hread : Reads p [] := (row_append.1 h).2.1
    cases rest with
    | nil => exact hread
    | cons c rest =>
      obtain rfl : c = '\n' := hr c rfl
      by_cases hline : ∃ body, p = .lineComment body
      · obtain ⟨body, rfl⟩ := hline
        cases hread with
        | lineComment hb _ => exact .lineComment hb (by simp)
      · exact hread.before_mark (by decide) (by decide) fun body he => hline ⟨body, he⟩
  · exact absurd (hr _ hdot) (by decide)

/-- No word goes on behind a name. -/
theorem Reads.ident_ends {name : String} {rest : List Char}
    (h : Reads (.token (.ident name)) rest) : ∀ c ∈ rest.head?, isIdentPart c = false := by
  generalize hp : Piece.token (.ident name) = p at h
  cases h with
  | word _ hr => exact hr
  | _ => simp at hp

variable {file : SourceFile} {sdk : Instrumentation} {q : String} {head : Head}
  {segs : List Segment} {adds : List (String × String)} {rest : List Char}

/-- The head ends at what stands for itself, or where no word goes on. -/
theorem Head.row_replace {package : String} {rest' : List Char}
    (h : Row (head.pieces package) rest)
    (hr : head.semi = none → ∀ c ∈ rest'.head?, isIdentPart c = false) :
    Row (head.pieces package) rest' := by
  cases hs : head.semi with
  | some gap =>
    have hpieces : head.pieces package =
        (head.clause package ++ gap) ++ [.token (.operator .semi)] := by
      simp [Head.pieces, Head.closing, hs]
    rw [hpieces] at h ⊢
    exact h.replace_last (reads_semi _) (by simp [Piece.text, TokenKind.text, Operator.spelling])
  | none =>
    have hpieces : head.pieces package =
        (head.before ++ .token (.keyword .kwPackage) :: head.gap) ++ [.token (.ident package)] := by
      simp [Head.pieces, Head.clause, Head.closing, hs]
    rw [hpieces] at h ⊢
    have hread := (row_append.1 h).2.1
    obtain ⟨hname, hkeyword⟩ := hread.of_ident
    refine h.replace_last (reads_ident hname hkeyword (hr hs)) fun htext => ?_
    cases hread.eq_dot htext

/-- No window stands at the top of a source. -/
theorem Placed.not_bare {here : Place} (h : Placed here [] segs) : startsBare segs = false := by
  cases segs with
  | nil => rfl
  | cons s segs =>
    cases s with
    | plain p => rfl
    | window w => exact absurd h.2.1 List.not_mem_nil

/-- The head ends where an added import begins: with a semicolon, if the clause has none. -/
theorem Layout.row_head (hl : Layout file sdk head segs)
    (hr : head.semi = none → rest.head? = some ';') : Row (head.pieces file.package) rest := by
  refine Head.row_replace (row_append.1 hl.row).1 fun hs => ?_
  rw [hr hs]
  rintro _ ⟨⟩
  exact not_isIdentPart_of_mem_marks (by decide)

/-- **In front of the segments** the head and the added imports are a row. -/
theorem row_front (hl : Layout file sdk head segs) (ha : ∀ a ∈ adds, Addable a)
    (hr : ∀ c ∈ rest.head?, c = '\n') :
    Row (head.pieces file.package ++ importsPieces head.semi.isSome adds)
      (freshText q segs ++ rest) := by
  refine row_append.2 ⟨?_, row_imports _ ha _⟩
  cases adds with
  | cons a adds => exact hl.row_head fun hs => by rw [hs]; rfl
  | nil =>
    refine Head.row_replace (row_append.1 hl.row).1 fun hs => ?_
    have hsegs := hl.row_segs.before_break hr
    change ∀ c ∈ (freshText q segs ++ rest).head?, isIdentPart c = false
    rw [head?_freshText hl.placed.not_bare hsegs]
    have hbreak := hl.row.before_break hr
    rw [Head.pieces, Head.clause, Head.closing, hs] at hbreak
    simp only [List.append_nil, List.append_assoc] at hbreak
    rw [row_append] at hbreak
    have hname := (row_append.1 hbreak.2).2.1
    exact hname.ident_ends

theorem explicitSemi_eq (hl : Layout file sdk head segs) :
    file.anchor.explicitSemi = head.semi.isSome := by
  rw [hl.anchor]

/-- **The pieces of a changed source** are a row, if its windows are legible. -/
theorem row_changed (hl : Layout file sdk head segs) (ha : ∀ a ∈ adds, Addable a)
    (hq : ∀ c ∈ q.toList, isPathChar c = true)
    (he : ∀ s ∈ sitesOf segs, IsName s.2) (hg : Legible q segs)
    (hr : ∀ c ∈ rest.head?, c = '\n') :
    Row (head.pieces file.package ++ importsPieces head.semi.isSome adds ++ freshOf q segs) rest := by
  have hfresh := row_fresh hq (fun s hs => (he s hs).forall_mem) hl.placed
    (hl.row_segs.before_break hr) hg
  refine row_append.2 ⟨?_, hfresh⟩
  rw [joined_freshOf hg]
  exact row_front hl ha hr

/-- The text of a changed source, as far as the edits make it. -/
theorem joined_changed (hl : Layout file sdk head segs) (hg : Legible q segs) :
    Piece.joined (head.pieces file.package ++ importsPieces head.semi.isSome adds ++
      freshOf q segs) =
    Piece.joined (head.pieces file.package) ++ importsText file.anchor adds ++ freshText q segs := by
  rw [joined_append, joined_append, joined_freshOf hg, ← explicitSemi_eq hl, joined_importsPieces]

/-- **A changed source that is scanned** has only legible windows, and what is appended to it is
scanned too. -/
theorem legible_of_changed (hl : Layout file sdk head segs) (ha : ∀ a ∈ adds, Addable a)
    (hq : ∀ c ∈ q.toList, isPathChar c = true)
    (he : ∀ s ∈ sitesOf segs, IsName s.2) (hr : ∀ c ∈ rest.head?, c = '\n')
    (h : (scan (Piece.joined (head.pieces file.package) ++ importsText file.anchor adds ++
      freshText q segs ++ rest)).2 = none) :
    Legible q segs ∧ (scan rest).2 = none := by
  have hfront := row_front (q := q) hl ha hr
  rw [← joined_importsPieces, explicitSemi_eq hl, ← joined_append, List.append_assoc,
    scan_row hfront] at h
  exact legible_of_scan hq (fun s hs => (he s hs).forall_mem) hl.placed
    (hl.row_segs.before_break hr) h

end TestWeave.Source
