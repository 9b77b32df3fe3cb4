import TestWeave.Proofs.Tiling

/-!
# Where semicolons are inserted

A line may end a statement without a semicolon. The lexer inserts it then: behind a token that may
stand at the end of a statement, if a line break follows before the next token, and at the end of
the file.

* `MayEnd`: the tokens that may stand at the end of a statement.
* `Terminated`: between which tokens a semicolon is inserted.
* `tokensFrom_others`, `count_inserted`: how many semicolons a gap inserts, and how many are inserted
  in front of the next token that is not.
* `terminated_of_lex`: the lexer inserts them where they belong, and nowhere else.
-/

namespace TestWeave.Source

open TestWeave.Text

/-- The tokens that may stand at the end of a statement. -/
inductive MayEnd : TokenKind → Prop
  | ident (name : String) : MayEnd (.ident name)
  | literal (kind : LiteralKind) (text : String) : MayEnd (.literal kind text)
  | keyword {word : Keyword} : word ∈ [.kwBreak, .kwContinue, .kwFallthrough, .kwReturn] →
      MayEnd (.keyword word)
  | operator {op : Operator} : op ∈ [.inc, .dec, .rparen, .rbracket, .rbrace] →
      MayEnd (.operator op)

theorem endsStatement_iff {kind : TokenKind} : kind.endsStatement = true ↔ MayEnd kind := by
  constructor
  · intro h
    unfold TokenKind.endsStatement at h
    split at h
    · exact .ident _
    · exact .literal _ _
    all_goals first
      | exact .keyword (by decide)
      | exact .operator (by decide)
      | exact absurd h Bool.false_ne_true
  · intro h
    cases h with
    | ident | literal => rfl
    | @keyword word h => revert h; cases word <;> decide
    | @operator op h => revert h; cases op <;> decide

/-- **Semicolons are inserted where statements end.** Of two tokens that are not inserted, with only
inserted ones in between, `a` is the one in front. -/
structure Terminated (source : String) (tokens : List Token) : Prop where
  /-- None is inserted in front of the first token. -/
  first : ∀ t ∈ tokens.head?, t.isInserted = false
  /-- One is inserted behind a token that may end a statement, if there is a line break between it and
  the next one (in the gap, so by itself or within a comment) or the next one is the end of the
  file. -/
  between : ∀ front a semis b back, tokens = front ++ a :: (semis ++ b :: back) →
    a.isInserted = false → b.isInserted = false → (∀ t ∈ semis, t.isInserted = true) →
    ∃ gap rest, Covers source a.span.stop b.span.start gap rest ∧ Gap gap rest ∧
      semis.length ≤ 1 ∧ (semis ≠ [] ↔ MayEnd a.kind ∧ ('\n' ∈ gap ∨ b.kind = .eof))

/-- **A gap holds a line break** exactly if one of its pieces ends the line. -/
theorem mem_break_iff {others : List Piece} {rest : List Char}
    (ho : ∀ p ∈ others, p.isToken = false) (h : Row others rest) :
    '\n' ∈ Piece.joined others ↔ others.any Piece.breaksLine = true := by
  induction others with
  | nil => simp
  | cons p others ih =>
    obtain ⟨hp, ho⟩ := List.forall_mem_cons.1 ho
    have hpiece : '\n' ∈ p.text ↔ p.breaksLine = true := by
      have hread := h.1
      cases p with
      | blank c =>
        cases hread with
        | blank hc =>
          have hne : c ≠ '\n' := by rintro rfl; exact absurd hc (by decide)
          simp [Piece.text, Piece.breaksLine, hne.symm]
      | lineBreak => simp [Piece.text, Piece.breaksLine]
      | lineComment body =>
        cases hread with
        | lineComment hb => simp [Piece.text, Piece.breaksLine, hb]
      | comment body => simp [Piece.text, Piece.breaksLine]
      | token => simp [Piece.isToken] at hp
    rw [joined_cons, List.mem_append, hpiece, ih ho h.2, List.any_cons, Bool.or_eq_true]

/-- A token that the source spells is not inserted. -/
theorem isInserted_of_reads {here : Place} {kind : TokenKind} {rest : List Char}
    (h : Reads (.token kind) rest) :
    (Token.mk kind (here.spanTo (here.after kind.text.toList).offset)).isInserted = false := by
  have hpos : 0 < byteSize kind.text.toList := byteSize_pos h.text_ne_nil
  have hoffset := Place.offset_after here kind.text.toList
  simp only [Token.isInserted, Span.isEmpty, Place.spanTo, Bool.and_eq_false_iff, beq_eq_false_iff_ne]
  right
  omega

variable {here : Place} {armed : Bool} {ps : List Piece} {semis back : List Token} {b : Token}

/-- Tokens that begin with inserted ones do so in one way only. -/
theorem inserted_unique {semis' back' : List Token} {b' : Token}
    (h : semis ++ b :: back = semis' ++ b' :: back') (hs : ∀ t ∈ semis, t.isInserted = true)
    (hs' : ∀ t ∈ semis', t.isInserted = true) (hb : b.isInserted = false)
    (hb' : b'.isInserted = false) : semis = semis' ∧ b = b' := by
  induction semis generalizing semis' with
  | nil =>
    cases semis' with
    | nil => exact ⟨rfl, (List.cons.inj h).1⟩
    | cons s semis' =>
      obtain ⟨rfl, -⟩ := List.cons.inj h
      simp [hb] at hs'
  | cons s semis ih =>
    cases semis' with
    | nil =>
      obtain ⟨rfl, -⟩ := List.cons.inj h
      simp [hb'] at hs
    | cons s' semis' =>
      obtain ⟨rfl, htail⟩ := List.cons.inj h
      obtain ⟨rfl, rfl⟩ := ih htail (List.forall_mem_cons.1 hs).2 (List.forall_mem_cons.1 hs').2
      exact ⟨rfl, rfl⟩

/-- **A gap** inserts one semicolon, if a statement may end in front of it and one of its pieces ends
the line. Behind it no statement may end then, so the end of the file inserts none. -/
theorem tokensFrom_others {others : List Piece} (ho : ∀ p ∈ others, p.isToken = false)
    (here : Place) (armed : Bool) (rest : List Piece) :
    ∃ semis, tokensFrom here armed (others ++ rest) = semis ++ tokensFrom
        (here.after (Piece.joined others)) (armed && !others.any Piece.breaksLine) rest ∧
      (∀ t ∈ semis, t.isInserted = true) ∧
      semis.length = if armed && others.any Piece.breaksLine then 1 else 0 := by
  induction others generalizing here armed with
  | nil => exact ⟨[], by simp, by simp, by simp⟩
  | cons p others ih =>
    obtain ⟨hp, ho⟩ := List.forall_mem_cons.1 ho
    rw [List.cons_append, tokensFrom_other _ _ hp, joined_cons, Place.after_append, List.any_cons]
    split
    · rename_i hbreak
      obtain ⟨rfl, hbreaks⟩ := Bool.and_eq_true_iff.1 hbreak
      obtain ⟨semis, htokens, hs, hcount⟩ := ih ho (here.after p.text) false
      refine ⟨insertedSemi (here.after p.text) :: semis, ?_,
        List.forall_mem_cons.2 ⟨isInserted_insertedSemi _, hs⟩, ?_⟩
      · simp [htokens, hbreaks]
      · simpa [hbreaks] using hcount
    · rename_i hbreak
      -- nothing is inserted at this piece, so it does not count
      have hsame : (armed && (p.breaksLine || others.any Piece.breaksLine)) =
          (armed && others.any Piece.breaksLine) := by
        cases armed <;> simp_all
      obtain ⟨semis, htokens, hs, hcount⟩ := ih ho (here.after p.text) armed
      refine ⟨semis, ?_, hs, by rw [hsame, hcount]⟩
      cases armed <;> simp_all

/-- **How many semicolons are inserted** in front of the next token that is not: one if a statement
may end where the row begins and there is a line break or the end of the file before that token, and
none otherwise. -/
theorem count_inserted (hrow : Row ps [])
    (h : tokensFrom here armed ps = semis ++ b :: back)
    (hs : ∀ t ∈ semis, t.isInserted = true) (hb : b.isInserted = false) :
    ∃ others rest, ps = others ++ rest ∧ (∀ p ∈ others, p.isToken = false) ∧
      b.span.start = (here.after (Piece.joined others)).offset ∧
      semis.length = if armed && (others.any Piece.breaksLine || b.kind == .eof) then 1 else 0 := by
  obtain ⟨others, rest, rfl, ho, hrest⟩ : ∃ others rest, ps = others ++ rest ∧
      (∀ p ∈ others, p.isToken = false) ∧ ∀ p ∈ rest.head?, p.isToken = true := by
    refine ⟨ps.takeWhile (!·.isToken), ps.dropWhile (!·.isToken),
      List.takeWhile_append_dropWhile.symm, fun p hp => ?_, fun p hp => ?_⟩
    · simpa using List.mem_takeWhile_imp hp
    · simpa using eq_false_of_mem_head?_dropWhile hp
  obtain ⟨gapSemis, htokens, hgap, hcount⟩ := tokensFrom_others ho here armed rest
  refine ⟨others, rest, rfl, ho, ?_⟩
  rw [htokens] at h
  cases rest with
  | nil =>
    -- the end of the file inserts one where the gap has not
    have hend : ∀ t ∈ gapSemis ++ if (armed && !others.any Piece.breaksLine) = true then
        [insertedSemi (here.after (Piece.joined others))] else [], t.isInserted = true := by
      intro t ht
      rcases List.mem_append.1 ht with ht | ht
      · exact hgap t ht
      · obtain ⟨-, ht⟩ := List.mem_ite_nil_right.1 ht
        rw [List.mem_singleton.1 ht]
        exact isInserted_insertedSemi _
    rw [tokensFrom, ← List.append_assoc] at h
    obtain ⟨rfl, rfl⟩ := inserted_unique h.symm hs hend hb rfl
    refine ⟨rfl, ?_⟩
    rw [List.length_append, hcount]
    cases armed <;> cases others.any Piece.breaksLine <;> rfl
  | cons p rest =>
    obtain ⟨kind, rfl⟩ | hp := p.token_or
    · have hread := (row_append.1 hrow).2.1
      rw [tokensFrom_token] at h
      obtain ⟨rfl, rfl⟩ := inserted_unique h.symm hs hgap hb (isInserted_of_reads hread)
      refine ⟨rfl, ?_⟩
      simp [hcount, hread.longest.1]
    · simp [hp] at hrest

/-- **Semicolons are inserted where statements end**, and nowhere else. -/
theorem terminated_of_lex {source : String} {tokens : List Token} (h : lex source = .ok tokens) :
    Terminated source tokens := by
  obtain ⟨hscan, rfl⟩ := lex_eq_ok_iff.1 h
  have hrow := row_of_scan hscan
  have htext := scan_text hscan
  generalize (scan source.toList).1 = ps at hrow htext
  refine ⟨fun t ht => ?_, ?_⟩
  · obtain ⟨back, hback⟩ := List.head?_eq_some_iff.1 ht
    -- the first token is spelled, or there is none but the end of the file
    cases opens_of_tokensFrom hback with
    | @spelled others kind rest _ _ hps =>
      subst hps
      exact isInserted_of_reads (row_append.1 hrow).2.1
    | inserted _ ha => exact absurd ha Bool.false_ne_true
    | ended => rfl
  · intro front a semis b back hsplit ha hb hs
    obtain ⟨ps₁, ps₂, rfl, hstop, hbehind⟩ := behind_of_tokensFrom hsplit (by simp)
    obtain ⟨others, rest, rfl, ho, hstart, hcount⟩ :=
      count_inserted (row_append.1 hrow).2 hbehind.symm hs hb
    have hothers := (row_append.1 (row_append.1 hrow).2).1
    rw [List.append_nil] at hothers
    rw [← Place.after_append, offset_origin, byteSize_append] at hstart
    rw [offset_origin] at hstop
    refine ⟨Piece.joined others, Piece.joined rest, ⟨Piece.joined ps₁, ?_, hstop, ?_⟩,
      gap_of_row ho hothers, ?_, ?_⟩
    · rw [← htext, joined_append, joined_append]
    · rw [hstart, hstop]
    · rw [hcount]
      split <;> omega
    · rw [mem_break_iff ho hothers, ← endsStatement_iff, ← List.length_pos_iff, hcount,
        ← beq_iff_eq (a := b.kind), ← Bool.or_eq_true, ← Bool.and_eq_true]
      split <;> simp [*]

/-- A statement that a comment ends, and one that goes on behind a comment. -/
def commented : String := "x /* 1\n2 */ y + // 3\nreturn"

theorem terminated_of_commented : ∃ tokens, lex commented = .ok tokens ∧ tokens.map Token.kind =
    [.ident "x", .operator .semi, .ident "y", .operator .plus, .keyword .kwReturn,
      .operator .semi, .eof] ∧ Terminated commented tokens :=
  exists_tokens (by decide +kernel) fun _ => terminated_of_lex

end TestWeave.Source
