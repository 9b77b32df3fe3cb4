import TestWeave.Proofs.Splice

/-!
# The layout of a source file

In front of the place where imports are added stands the package clause, behind it the segments of
the source. `Layout` says so of a file that parses.

* `exists_layout`: a file that parses has a layout.
-/

namespace TestWeave.Source

open TestWeave.Text TestWeave.Change

/-- The pieces of a source up to the place where imports are added. -/
structure Head where
  before : List Piece
  gap : List Piece
  /-- What stands between the package name and the semicolon, if one is spelled. -/
  semi : Option (List Piece)

namespace Head

/-- The pieces up to the package name, and the name. -/
def clause (h : Head) (package : String) : List Piece :=
  h.before ++ .token (.keyword .kwPackage) :: h.gap ++ [.token (.ident package)]

/-- The semicolon, with what stands in front of it. -/
def closing (h : Head) : List Piece :=
  match h.semi with
  | none => []
  | some gap => gap ++ [.token (.operator .semi)]

/-- The pieces of the head. -/
def pieces (h : Head) (package : String) : List Piece := h.clause package ++ h.closing

/-- Where the head ends. -/
def stop (h : Head) (package : String) : Place :=
  Place.origin.after (Piece.joined (h.pieces package))

end Head

/-- The source of a file is a head, and then segments whose windows are the calls that are
changed. -/
structure Layout (file : SourceFile) (sdk : Instrumentation) (head : Head) (segs : List Segment) :
    Prop where
  source : file.source.toList = Piece.joined (head.pieces file.package ++ piecesOf segs)
  row : Row (head.pieces file.package ++ piecesOf segs) []
  before : Blank head.before
  gap : Blank head.gap
  semi : ∀ gap ∈ head.semi, Inline gap
  anchor : file.anchor = ⟨(head.stop file.package).offset, head.semi.isSome⟩
  placed : Placed (head.stop file.package) [] segs
  free : Free false segs
  sites : (sitesOf segs).Perm (Patch.targets file sdk)
  tokens : ∃ keyword name semi rest,
    lex file.source = .ok (keyword :: name :: semi :: rest) ∧
    semi.kind = .operator .semi ∧
    tokensFrom (head.stop file.package) head.semi.isNone (piecesOf segs) =
      if head.semi.isNone then semi :: rest else rest

/-- Where a semicolon is read, it is spelled there or stands for a line break. -/
theorem Opens.semi_cases {here : Place} {armed : Bool} {ps : List Piece} {t : Token}
    {ts : List Token} (h : Opens here armed ps t ts) (hs : t.kind = .operator .semi) :
    (∃ others rest, (armed = true → Inline others) ∧
      ps = others ++ .token (.operator .semi) :: rest ∧ t.span.isEmpty = false ∧
      t.span.stop = (here.after (Piece.joined (others ++ [.token (.operator .semi)]))).offset ∧
      ts = tokensFrom (here.after (Piece.joined (others ++ [.token (.operator .semi)]))) false rest) ∨
    armed = true ∧ t.span.isEmpty = true := by
  cases h with
  | @spelled others kind rest ho hn hp =>
    obtain rfl : kind = .operator .semi := hs
    refine .inl ⟨others, rest, fun ha p hm => ⟨ho p hm, hn ha p hm⟩, hp, ?_, ?_, ?_⟩
    · have := Place.offset_after (here.after (Piece.joined others)) [';']
      have hpos := Char.utf8Size_pos ';'
      simp only [Span.isEmpty, Place.spanTo, beq_eq_false_iff_ne]
      change (here.after (Piece.joined others)).offset ≠
        ((here.after (Piece.joined others)).after [';']).offset
      rw [this]
      simp only [byteSize]
      omega
    · simp [Place.spanTo, Place.after_append, Piece.text]
    · simp [Place.after_append, Piece.text, TokenKind.endsStatement]
  | inserted _ ha => exact .inr ⟨ha, by simp [insertedSemi, Place.spanTo, Span.isEmpty]⟩
  | ended => simp at hs

/-- The package clause at the head of a row of pieces. -/
theorem exists_head {ps : List Piece} {keyword name semi : Token} {rest : List Token}
    {package : String} (ht : tokensFrom .origin false ps = keyword :: name :: semi :: rest)
    (hk : keyword.kind = .keyword .kwPackage) (hn : name.kind = .ident package)
    (hs : semi.kind = .operator .semi) :
    ∃ (head : Head) (ps' : List Piece), ps = head.pieces package ++ ps' ∧
      Blank head.before ∧ Blank head.gap ∧ (∀ gap ∈ head.semi, Inline gap) ∧
      semi.span.isEmpty = head.semi.isNone ∧
      (if semi.span.isEmpty then name.span.stop else semi.span.stop) =
        (head.stop package).offset ∧
      tokensFrom (head.stop package) head.semi.isNone ps' =
        if head.semi.isNone then semi :: rest else rest := by
  obtain ⟨before, ps₁, hb, -, rfl, -, ht⟩ := (opens_of_tokensFrom ht).spelled_of_kind
    (by simp [hk]) (by simp [hk])
  obtain ⟨gap, ps₂, hg, -, rfl, hspan, ht⟩ := (opens_of_tokensFrom ht.symm).spelled_of_kind
    (by simp [hn]) (by simp [hn])
  rw [hk, hn] at *
  -- the place behind the package name
  have hplace : ∀ place : Place, (place.after (Piece.joined (before ++
      [.token (.keyword .kwPackage)]))).after (Piece.joined (gap ++ [.token (.ident package)])) =
        place.after (Piece.joined (Head.clause ⟨before, gap, none⟩ package)) := by
    intro place
    rw [← Place.after_append, ← joined_append]
    simp [Head.clause]
  rw [hplace] at ht hspan
  rcases (opens_of_tokensFrom ht.symm).semi_cases hs with
    ⟨others, rest', hi, rfl, he, hstop, ht'⟩ | ⟨-, he⟩
  · refine ⟨⟨before, gap, some others⟩, rest', ?_, hb, hg, ?_, he, ?_, ?_⟩
    · simp [Head.pieces, Head.clause, Head.closing]
    · rintro _ ⟨⟩
      exact hi rfl
    · rw [he, if_neg Bool.false_ne_true, hstop]
      simp [Head.stop, Head.pieces, Head.clause, Head.closing, Place.after_append]
    · simp only [Option.isNone_some, Bool.false_eq_true, if_false]
      rw [ht']
      simp [Head.stop, Head.pieces, Head.clause, Head.closing, Place.after_append]
  · refine ⟨⟨before, gap, none⟩, ps₂, ?_, hb, hg, by simp, he, ?_, ?_⟩
    · simp [Head.pieces, Head.clause, Head.closing]
    · rw [he, if_pos rfl, hspan]
      simp [Head.stop, Head.pieces, Head.closing, Place.spanTo]
    · simp only [Option.isNone_none, if_true]
      rw [ht]
      simp [Head.stop, Head.pieces, Head.closing, TokenKind.endsStatement]

/-- **A file that parses has a layout.** -/
theorem exists_layout {path : Path} {source : String} {file : SourceFile} (sdk : Instrumentation)
    (h : SourceFile.parse path source = .ok file) : ∃ head segs, Layout file sdk head segs := by
  obtain ⟨-, hsource, -⟩ := parse_eq_ok h
  obtain ⟨keyword, name, semi, rest, sites, hlex, hclause, hperm, hmarked⟩ := marked_targets sdk h
  rw [← hsource] at hlex
  obtain ⟨hscan, htokens⟩ := lex_eq_ok_iff.1 hlex
  have hrow := row_of_scan hscan
  have htext := scan_text hscan
  obtain ⟨head, ps, hps, hb, hg, hsemi, he, hstop, ht⟩ := exists_head htokens.symm
    hclause.keyword_kind hclause.name_kind hclause.semi_kind
  -- the semicolon of the clause is part of the head where it is spelled
  have hmarked : Marked [] false (if head.semi.isNone then semi :: rest else rest) sites := by
    split
    · exact hmarked false
    · cases hmarked false with
      | skip h =>
        rw [hclause.semi_kind] at h
        exact h
      | site _ hw =>
        have := hw.recv_kind
        rw [hclause.semi_kind] at this
        simp at this
  obtain ⟨segs, hcut⟩ := exists_segments hmarked ht nofun
  rw [hps] at hrow htext
  refine ⟨head, segs, ?_, ?_, hb, hg, hsemi, ?_, hcut.placed, hcut.free, ?_, keyword, name, semi,
    rest, hlex, hclause.semi_kind, ?_⟩
  · rw [hcut.pieces, htext]
  · rw [hcut.pieces]
    exact hrow
  · rw [hclause.anchor, ← hstop, he]
    cases head.semi <;> rfl
  · rw [hcut.sites]
    exact hperm
  · rw [hcut.pieces]
    exact ht

end TestWeave.Source
