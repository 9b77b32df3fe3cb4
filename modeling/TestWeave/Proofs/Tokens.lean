import TestWeave.Proofs.Rows

/-!
# The tokens of a row of pieces

`tokensFrom` is the lexer as one function on pieces, with the semicolon at the end of the file and
the end itself among the tokens. `kindsFrom` forgets the places.

* `lex_eq_ok_iff`: what the lexer gives.
* `stretch_of_mem_tokensFrom`, `boundary_of_mem_tokensFrom`: tokens cover stretches of pieces.
* `opens_of_tokensFrom`: how the first token of a row comes about.
-/

namespace TestWeave.Source

open TestWeave.Text

/-- Whether a piece is a token. -/
def Piece.isToken : Piece → Bool
  | .token _ => true
  | _ => false

theorem Piece.token_or (p : Piece) : (∃ kind, p = .token kind) ∨ p.isToken = false := by
  cases p <;> simp [isToken]

/-- The tokens of a row of pieces up to the end of the file. -/
def tokensFrom (here : Place) (armed : Bool) : List Piece → List Token
  | [] => (if armed then [insertedSemi here] else []) ++ [⟨.eof, here.spanTo here.offset⟩]
  | p :: ps =>
    let next := here.after p.text
    match p with
    | .token kind => ⟨kind, here.spanTo next.offset⟩ :: tokensFrom next kind.endsStatement ps
    | p =>
      if armed && p.breaksLine then insertedSemi next :: tokensFrom next false ps
      else tokensFrom next armed ps

/-- The kinds of the tokens of a row of pieces up to the end of the file. -/
def kindsFrom (armed : Bool) : List Piece → List TokenKind
  | [] => (if armed then [.operator .semi] else []) ++ [.eof]
  | p :: ps =>
    match p with
    | .token kind => kind :: kindsFrom kind.endsStatement ps
    | p =>
      if armed && p.breaksLine then .operator .semi :: kindsFrom false ps else kindsFrom armed ps

theorem tokensFrom_token (here : Place) (armed : Bool) (kind : TokenKind) (ps : List Piece) :
    tokensFrom here armed (.token kind :: ps) =
      ⟨kind, here.spanTo (here.after kind.text.toList).offset⟩ ::
        tokensFrom (here.after kind.text.toList) kind.endsStatement ps := rfl

theorem tokensFrom_other (here : Place) (armed : Bool) {p : Piece} (hp : p.isToken = false)
    (ps : List Piece) : tokensFrom here armed (p :: ps) =
      if armed && p.breaksLine then
        insertedSemi (here.after p.text) :: tokensFrom (here.after p.text) false ps
      else tokensFrom (here.after p.text) armed ps := by
  cases p <;> first | rfl | simp [Piece.isToken] at hp

theorem kindsFrom_token (armed : Bool) (kind : TokenKind) (ps : List Piece) :
    kindsFrom armed (.token kind :: ps) = kind :: kindsFrom kind.endsStatement ps := rfl

theorem kindsFrom_other (armed : Bool) {p : Piece} (hp : p.isToken = false) (ps : List Piece) :
    kindsFrom armed (p :: ps) =
      if armed && p.breaksLine then .operator .semi :: kindsFrom false ps
      else kindsFrom armed ps := by
  cases p <;> first | rfl | simp [Piece.isToken] at hp

theorem kinds_tokensFrom (here : Place) (armed : Bool) (ps : List Piece) :
    (tokensFrom here armed ps).map Token.kind = kindsFrom armed ps := by
  induction ps generalizing here armed with
  | nil => cases armed <;> rfl
  | cons p ps ih =>
    rcases p.token_or with ⟨kind, rfl⟩ | hp
    · rw [tokensFrom_token, kindsFrom_token, List.map_cons, ih]
    · rw [tokensFrom_other _ _ hp, kindsFrom_other _ hp]
      split
      · rw [List.map_cons, ih]
        rfl
      · exact ih ..

theorem placeTokens_tokensFrom (here : Place) (armed : Bool) (ps : List Piece) :
    (placeTokens here armed ps).1 ++
        ((if (placeTokens here armed ps).2.2 then [insertedSemi (placeTokens here armed ps).2.1]
          else []) ++
        [⟨.eof, (placeTokens here armed ps).2.1.spanTo (placeTokens here armed ps).2.1.offset⟩]) =
      tokensFrom here armed ps := by
  induction ps generalizing here armed with
  | nil => rfl
  | cons p ps ih =>
    cases p with
    | token kind =>
      rw [tokensFrom_token, ← ih]
      rfl
    | _ =>
      rw [tokensFrom_other _ _ rfl]
      simp only [placeTokens]
      split
      · rw [← ih]
        rfl
      · rw [← ih]

/-- **What the lexer gives**: the tokens of the pieces, if all of the text is pieces. -/
theorem lex_eq_ok_iff {source : String} {tokens : List Token} :
    lex source = .ok tokens ↔
      (scan source.toList).2 = none ∧ tokens = tokensFrom .origin false (scan source.toList).1 := by
  have h := placeTokens_tokensFrom .origin false (scan source.toList).1
  rw [← List.append_assoc] at h
  rw [← h]
  unfold lex
  rcases scan source.toList with ⟨pieces, fault⟩
  cases fault with
  | some f => exact ⟨nofun, fun h => nomatch h.1⟩
  | none =>
    simp only [Except.ok.injEq, true_and]
    exact eq_comm

/-- The kinds that the lexer gives, where all of the text is pieces. -/
theorem lex_of_scan {source : String} {pieces : List Piece}
    (h : scan source.toList = (pieces, none)) :
    ∃ tokens, lex source = .ok tokens ∧ tokens.map Token.kind = kindsFrom false pieces :=
  ⟨_, lex_eq_ok_iff.2 ⟨by rw [h], rfl⟩, by rw [h, kinds_tokensFrom]⟩

/-! ### Where tokens stand -/

theorem tokensFrom_ne_nil (here : Place) (armed : Bool) (ps : List Piece) :
    tokensFrom here armed ps ≠ [] := by
  induction ps generalizing here armed with
  | nil => simp [tokensFrom]
  | cons p ps ih =>
    rcases p.token_or with ⟨kind, rfl⟩ | hp
    · simp [tokensFrom_token]
    · rw [tokensFrom_other _ _ hp]
      split
      · simp
      · exact ih _ _

/-- A token covers a stretch of the source. -/
theorem stretch_of_mem_tokensFrom {here : Place} {armed : Bool} {ps : List Piece} {t : Token}
    (h : t ∈ tokensFrom here armed ps) :
    ∃ before stretch after, Piece.joined ps = before ++ (stretch ++ after) ∧
      t.span = (here.after before).spanTo ((here.after before).offset + byteSize stretch) := by
  induction ps generalizing here armed with
  | nil =>
    refine ⟨[], [], [], rfl, ?_⟩
    simp only [tokensFrom, List.mem_append, List.mem_ite_nil_right, List.mem_singleton] at h
    rcases h with ⟨-, rfl⟩ | rfl <;> rfl
  | cons p ps ih =>
    -- a token behind the first piece covers a stretch behind it
    have later : ∀ {armed : Bool}, t ∈ tokensFrom (here.after p.text) armed ps →
        ∃ before stretch after, Piece.joined (p :: ps) = before ++ (stretch ++ after) ∧
          t.span = (here.after before).spanTo ((here.after before).offset + byteSize stretch) := by
      intro armed h
      obtain ⟨before, stretch, after, hj, hspan⟩ := ih h
      refine ⟨p.text ++ before, stretch, after, by simp [hj], ?_⟩
      rw [hspan, Place.after_append]
    rcases p.token_or with ⟨kind, rfl⟩ | hp
    · rw [tokensFrom_token, List.mem_cons] at h
      rcases h with rfl | h
      · refine ⟨[], kind.text.toList, Piece.joined ps, by simp [Piece.text], ?_⟩
        rw [Place.offset_after]
        rfl
      · exact later h
    · rw [tokensFrom_other _ _ hp] at h
      split at h
      · rcases List.mem_cons.1 h with rfl | h
        · refine ⟨p.text, [], Piece.joined ps, by simp, rfl⟩
        · exact later h
      · exact later h

/-- The end of the file is a token. -/
theorem end_mem_tokensFrom (here : Place) (armed : Bool) (ps : List Piece) :
    ∃ t ∈ tokensFrom here armed ps,
      t.span = (here.after (Piece.joined ps)).spanTo (here.after (Piece.joined ps)).offset := by
  induction ps generalizing here armed with
  | nil => exact ⟨⟨.eof, here.spanTo here.offset⟩, by simp [tokensFrom], rfl⟩
  | cons p ps ih =>
    rw [joined_cons, Place.after_append]
    rcases p.token_or with ⟨kind, rfl⟩ | hp
    · obtain ⟨t, ht, hspan⟩ := ih (here.after kind.text.toList) kind.endsStatement
      exact ⟨t, by rw [tokensFrom_token]; simp [ht], hspan⟩
    · rw [tokensFrom_other _ _ hp]
      split
      · obtain ⟨t, ht, hspan⟩ := ih (here.after p.text) false
        exact ⟨t, by simp [ht], hspan⟩
      · exact ih _ _

/-- No token reaches over the end of a row of pieces. -/
theorem boundary_of_mem_tokensFrom {here : Place} {armed : Bool} {ps rest : List Piece} {t : Token}
    (h : t ∈ tokensFrom here armed (ps ++ rest)) :
    t.span.stop ≤ (here.after (Piece.joined ps)).offset ∨
      (here.after (Piece.joined ps)).offset ≤ t.span.start := by
  induction ps generalizing here armed with
  | nil =>
    obtain ⟨before, stretch, after, -, hspan⟩ := stretch_of_mem_tokensFrom h
    right
    rw [joined_nil, Place.after_nil, hspan]
    change here.offset ≤ (here.after before).offset
    rw [Place.offset_after]
    exact Nat.le_add_right ..
  | cons p ps ih =>
    rw [joined_cons, Place.after_append]
    rw [List.cons_append] at h
    rcases p.token_or with ⟨kind, rfl⟩ | hp
    · rw [tokensFrom_token, List.mem_cons] at h
      rcases h with rfl | h
      · left
        rw [Place.offset_after _ (Piece.joined ps)]
        exact Nat.le_add_right ..
      · exact ih h
    · -- an inserted semicolon stands where its line breaks
      rw [tokensFrom_other _ _ hp] at h
      split at h
      · rcases List.mem_cons.1 h with rfl | h
        · left
          rw [Place.offset_after _ (Piece.joined ps)]
          exact Nat.le_add_right ..
        · exact ih h
      · exact ih h

/-! ### The first token -/

/-- How the first token of a row comes about: it stands in the row, or a line break or the end of
the file stands for it, or it is the end of the file. -/
inductive Opens (here : Place) (armed : Bool) (ps : List Piece) : Token → List Token → Prop
  | spelled {others kind rest} : (∀ p ∈ others, p.isToken = false) →
      (armed = true → ∀ p ∈ others, p.breaksLine = false) →
      ps = others ++ .token kind :: rest →
      Opens here armed ps
        ⟨kind, (here.after (Piece.joined others)).spanTo
          ((here.after (Piece.joined others)).after kind.text.toList).offset⟩
        (tokensFrom ((here.after (Piece.joined others)).after kind.text.toList)
          kind.endsStatement rest)
  | inserted {others rest} : (∀ p ∈ others, p.isToken = false) → armed = true →
      ps = others ++ rest →
      Opens here armed ps (insertedSemi (here.after (Piece.joined others)))
        (tokensFrom (here.after (Piece.joined others)) false rest)
  | ended {span} : (∀ p ∈ ps, p.isToken = false) → armed = false →
      Opens here armed ps ⟨.eof, span⟩ []

/-- The pieces in front of the first token can be put in front of the row. -/
theorem Opens.cons {here : Place} {armed : Bool} {p : Piece} {ps : List Piece} {t : Token}
    {ts : List Token} (hp : p.isToken = false) (hb : armed = true → p.breaksLine = false)
    (h : Opens (here.after p.text) armed ps t ts) : Opens here armed (p :: ps) t ts := by
  cases h with
  | @spelled others kind rest ho hn he =>
    have ho : ∀ q ∈ p :: others, q.isToken = false := by simpa [hp] using ho
    have hn : armed = true → ∀ q ∈ p :: others, q.breaksLine = false := by
      simpa using fun ha => ⟨hb ha, hn ha⟩
    simpa only [joined_cons, Place.after_append] using
      Opens.spelled ho hn (by rw [he, List.cons_append])
  | @inserted others rest ho ha he =>
    have ho : ∀ q ∈ p :: others, q.isToken = false := by simpa [hp] using ho
    simpa only [joined_cons, Place.after_append] using
      Opens.inserted ho ha (by rw [he, List.cons_append])
  | ended ho ha => exact .ended (by simpa [hp] using ho) ha

theorem opens_of_tokensFrom {here : Place} {armed : Bool} {ps : List Piece} {t : Token}
    {ts : List Token} (h : tokensFrom here armed ps = t :: ts) : Opens here armed ps t ts := by
  have none_before : ∀ p ∈ ([] : List Piece), p.isToken = false := by simp
  induction ps generalizing here with
  | nil =>
    cases armed with
    | true =>
      obtain ⟨rfl, rfl⟩ := List.cons.inj h
      exact .inserted none_before rfl rfl
    | false =>
      obtain ⟨rfl, rfl⟩ := List.cons.inj h
      exact .ended (by simp) rfl
  | cons p ps ih =>
    rcases p.token_or with ⟨kind, rfl⟩ | hp
    · obtain ⟨rfl, rfl⟩ := List.cons.inj h
      exact .spelled none_before (by simp) rfl
    · rw [tokensFrom_other _ _ hp] at h
      split at h
      · rename_i hb
        obtain ⟨ha, -⟩ := Bool.and_eq_true_iff.1 hb
        obtain ⟨rfl, rfl⟩ := List.cons.inj h
        have one : ∀ q ∈ [p], q.isToken = false := by simpa using hp
        simpa using Opens.inserted one ha (List.singleton_append).symm
      · rename_i hb
        refine (ih h).cons hp fun ha => ?_
        simpa [ha] using hb

end TestWeave.Source
