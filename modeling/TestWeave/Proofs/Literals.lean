import TestWeave.Proofs.Numerals
import TestWeave.Proofs.Parts
import TestWeave.Proofs.Quoting

/-!
# Literals that spell import paths

A literal that quotes a path ends at its own last quote, whatever stands behind it: between double
quotes no quote of the path is bare, and no backslash of it takes the last quote along.

* `Quotes.reads`: such a literal is read as one piece.
* `lex_of_reads`: a token that is read behind other pieces, with the stretch that it covers.
* `imported_of_quotes`: the literal is one token, and an import with it imports the path that was
  quoted.
-/

namespace TestWeave.Source

variable {path literal : String} {front : List Piece} {rest : List Char}

/-! ### Where the literal ends -/

/-- An escaped text is cut off at the quote behind it. -/
theorem quotedBody_escaped {cs : List Char} (h : '\n' ∉ cs) (rest : List Char) :
    quotedBody '"' (cs.flatMap escaped ++ '"' :: rest) =
      (cs.flatMap escaped ++ ['"'], some rest) := by
  induction cs with
  | nil =>
    rw [List.flatMap_nil, List.nil_append, quotedBody_cons, if_neg (by decide), if_pos rfl]
    rfl
  | cons c cs ih =>
    obtain ⟨hc, hcs⟩ := not_or.1 (List.mem_cons.not.1 h)
    have hbody := ih hcs
    rw [List.flatMap_cons]
    by_cases hpair : c = '"' ∨ c = '\\'
    · -- the backslash in front takes the character along
      have htwo : escaped c = ['\\', c] := if_pos hpair
      rw [htwo]
      simp only [List.cons_append, List.nil_append]
      rw [quotedBody_cons, if_neg (by decide), if_neg (by decide), if_pos rfl]
      simp only [if_neg (Ne.symm hc), hbody]
    · have hone : escaped c = [c] := if_neg hpair
      obtain ⟨hquote, hslash⟩ := not_or.1 hpair
      rw [hone, List.singleton_append, List.cons_append, quotedBody_cons, if_neg (Ne.symm hc),
        if_neg hquote, if_neg hslash, hbody, List.cons_append]

/-- **A literal that quotes a path** is read as one piece, if a path that goes over a line end is
spelled between back quotes. -/
theorem Quotes.reads (h : Quotes path literal)
    (hline : '\n' ∈ path.toList → literal.toList.head? = some '\x60') (rest : List Char) :
    Reads (.token (.literal .string literal)) rest := by
  cases h with
  | interpreted =>
    have hone : '\n' ∉ path.toList := fun hmem => by
      have hhead := hline hmem
      rw [String.toList_ofList, List.head?_cons] at hhead
      exact absurd hhead (by decide)
    exact .string (quotedBody_escaped hone [])
  | raw hraw => exact .rawString hraw

/-- **A token that is read behind other pieces** is a token of the whole text, if nothing is wrong
with what follows it. -/
theorem lex_of_reads (kind : TokenKind) (hfront : Row front (kind.text.toList ++ rest))
    (h : Reads (.token kind) rest) (hrest : (scan rest).2 = none) :
    ∃ before after, lex (String.ofList (Piece.joined front ++ (kind.text.toList ++ rest))) =
      .ok (before ++ ⟨kind, (Place.origin.after (Piece.joined front)).spanTo
        (byteSize (Piece.joined front) + byteSize kind.text.toList)⟩ :: after) := by
  have hscan : scan (Piece.joined front ++ (kind.text.toList ++ rest)) =
      (front ++ .token kind :: (scan rest).1, none) := by
    have hone : scan (kind.text.toList ++ rest) = (.token kind :: (scan rest).1, (scan rest).2) :=
      scan_cons_of_reads h
    rw [scan_row hfront, hone, hrest]
  have hstop : ((Place.origin.after (Piece.joined front)).after kind.text.toList).offset =
      byteSize (Piece.joined front) + byteSize kind.text.toList := by
    rw [Place.offset_after, Place.offset_after]
    exact congrArg (· + _) (Nat.zero_add _)
  obtain ⟨before, armed, htokens⟩ :=
    tokensFrom_append .origin false front (.token kind :: (scan rest).1)
  rw [tokensFrom_token, hstop] at htokens
  exact ⟨before, _, lex_eq_ok_iff.2
    ⟨by rw [String.toList_ofList, hscan], by rw [String.toList_ofList, hscan, htokens]⟩⟩

/-! ### What is imported -/

/-- The path of an import is the one that was quoted. -/
theorem importPath_of_quotes (h : Quotes path literal) (hpath : path ≠ "") (span : Span) :
    importPath (.leaf ⟨.literal .string literal, span⟩) = .ok path :=
  importPath_eq_ok_iff.2 ⟨literal, span, rfl, unquote_of_quotes h, hpath⟩

/-- **A quoted path is imported.** A literal that quotes a path is one token, from its first quote to
its last one, wherever the scanner comes to it and whatever follows; alone it is all there is before
the end of the line. An import that is built from it imports the path that was quoted. -/
theorem imported_of_quotes (h : Quotes path literal) (hpath : path ≠ "")
    (hline : '\n' ∈ path.toList → literal.toList.head? = some '\x60') :
    (∃ semi eof, semi.kind = .operator .semi ∧ eof.kind = .eof ∧
      lex literal = .ok [⟨.literal .string literal, ⟨0, byteSize literal.toList, 1, 1⟩⟩, semi, eof]) ∧
    (∀ front rest, Row front (literal.toList ++ rest) →
      scan (Piece.joined front ++ (literal.toList ++ rest)) =
        (front ++ .token (.literal .string literal) :: (scan rest).1, (scan rest).2) ∧
      ((scan rest).2 = none → ∃ before after,
        lex (String.ofList (Piece.joined front ++ (literal.toList ++ rest))) =
          .ok (before ++ ⟨.literal .string literal, (Place.origin.after (Piece.joined front)).spanTo
            (byteSize (Piece.joined front) + byteSize literal.toList)⟩ :: after))) ∧
    (∀ span, importSpec [.leaf ⟨.literal .string literal, span⟩] =
      .ok ⟨none, path, span.position⟩) ∧
    ∀ span t name, importName t = .ok name →
      importSpec [t, .leaf ⟨.literal .string literal, span⟩] =
        .ok ⟨some name, path, t.span.position⟩ := by
  have hreads := h.reads hline
  refine ⟨?_, fun front rest hfront => ⟨?_, fun hrest => ?_⟩, fun span => ?_,
    fun span t name hname => ?_⟩
  · have hscan : scan literal.toList = ([.token (.literal .string literal)], none) := by
      have halone := scan_cons_of_reads (hreads [])
      rwa [List.append_nil, scan] at halone
    have hstop : (Place.origin.after literal.toList).offset = byteSize literal.toList := by
      rw [Place.offset_after]
      exact Nat.zero_add _
    -- behind a literal the end of the file inserts a semicolon
    let final := Place.origin.after literal.toList
    refine ⟨insertedSemi final, ⟨.eof, final.spanTo final.offset⟩, rfl, rfl,
      lex_eq_ok_iff.2 ⟨by rw [hscan], ?_⟩⟩
    rw [hscan, tokensFrom_token, ← hstop]
    rfl
  · have hone : scan (literal.toList ++ rest) =
        (.token (.literal .string literal) :: (scan rest).1, (scan rest).2) :=
      scan_cons_of_reads (hreads rest)
    rw [scan_row hfront, hone]
  · exact lex_of_reads (.literal .string literal) hfront (hreads rest) hrest
  · exact importSpec_eq_ok_iff.2 (.bare (importPath_of_quotes h hpath span))
  · exact importSpec_eq_ok_iff.2 (.named hname (importPath_of_quotes h hpath span))

/-- A path with backslashes in a row, in front of a quote and at its end. -/
def slashedPath : String := "\\\"\\\\b\\"

/-- The path between double quotes. -/
def slashedLiteral : String := "\"\\\\\\\"\\\\\\\\b\\\\\""

/-- An import of the path, and a quote behind it. -/
def slashedSource : String := "import m " ++ slashedLiteral ++ "// \""

theorem imported_of_slashed : slashedPath ≠ "" ∧ Quotes slashedPath slashedLiteral ∧
    (∃ before after, lex slashedSource =
      .ok (before ++ ⟨.literal .string slashedLiteral, ⟨9, 22, 1, 10⟩⟩ :: after)) ∧
    importSpec [.leaf ⟨.ident "m", ⟨7, 8, 1, 8⟩⟩,
      .leaf ⟨.literal .string slashedLiteral, ⟨9, 22, 1, 10⟩⟩] =
        .ok ⟨some "m", slashedPath, ⟨1, 8⟩⟩ := by
  have hne : slashedPath ≠ "" := by decide
  have hquotes : Quotes slashedPath slashedLiteral := Quotes.interpreted
  have hscan : scan slashedSource.toList =
      ([.token (.keyword .kwImport), .blank ' ', .token (.ident "m"), .blank ' '] ++
        [.token (.literal .string slashedLiteral), .lineComment [' ', '"']], none) := by
    decide +kernel
  have hrow := row_of_scan (congrArg Prod.snd hscan)
  rw [hscan] at hrow
  obtain ⟨-, hplaced, -, hnamed⟩ := imported_of_quotes hquotes hne fun hmem => absurd hmem (by decide)
  exact ⟨hne, hquotes, (hplaced _ _ (row_append.1 hrow).1).2 (by decide +kernel),
    hnamed _ _ _ rfl⟩

end TestWeave.Source
