import Mathlib.Data.List.Infix
import TestWeave.Proofs.Tokens

/-!
# The tokens of a source tile it

Every character of a source belongs to a token or to a gap between two tokens. Each token is read as
far as it goes, and a gap holds blanks, line breaks and comments only.

* `Gap`: what may stand between tokens; `Tiling`: what it means that tokens tile a source.
* `behind_of_tokensFrom`: what follows a token is lexed from where it ends.
* `tiling_of_lex`: the tokens that the lexer gives tile the source.
-/

namespace TestWeave.Source

open TestWeave.Text

/-! ### Tokens and gaps -/

/-- Whether a token is a semicolon that the source does not spell. -/
def Token.isInserted (t : Token) : Bool := t.kind == .operator .semi && t.span.isEmpty

theorem isInserted_insertedSemi (here : Place) : (insertedSemi here).isInserted = true := by
  simp [Token.isInserted, insertedSemi, Place.spanTo, Span.isEmpty]

/-- The characters `cs` stand in a source from byte `start` to byte `stop`, in front of `rest`. -/
def Covers (source : String) (start stop : Nat) (cs rest : List Char) : Prop :=
  ∃ before, source.toList = before ++ (cs ++ rest) ∧ start = byteSize before ∧
    stop = start + byteSize cs

/-- What may stand between two tokens, where `rest` follows: blanks, line breaks, comments that the
end of the line closes, and comments that the first closing bracket closes. -/
inductive Gap : List Char → List Char → Prop
  | nil {rest} : Gap [] rest
  | blank {c cs rest} : c ∈ [' ', '\t', '\r', '\uFEFF', '\n'] → Gap cs rest → Gap (c :: cs) rest
  | lineComment {body cs rest} : '\n' ∉ body → (∀ c ∈ (cs ++ rest).head?, c = '\n') →
      Gap cs rest → Gap ('/' :: '/' :: (body ++ cs)) rest
  | comment {body cs rest} : ¬['*', '/'] <:+: body → Gap cs rest →
      Gap ('/' :: '*' :: (body ++ '*' :: '/' :: cs)) rest

/-- No longer token could have been read where `rest` follows: a word cannot be extended, and there
is no operator that is longer. -/
def TokenKind.Longest : TokenKind → List Char → Prop
  | .ident _, rest | .keyword _, rest => ∀ c ∈ rest.head?, isIdentPart c = false
  | .operator op, rest => ∀ o : Operator, o.spelling.toList <+: op.spelling.toList ++ rest →
      o.spelling.toList.length ≤ op.spelling.toList.length
  | _, _ => True

/-- **The tokens tile the source.** -/
structure Tiling (source : String) (tokens : List Token) : Prop where
  /-- No token begins before one in front of it has ended. -/
  ascending : tokens.Pairwise fun a b => a.span.stop ≤ b.span.start
  ordered : ∀ t ∈ tokens, t.span.start ≤ t.span.stop
  /-- A token that is neither inserted nor the end of the file stands in the source as it is spelled,
  and as long as it can be. -/
  spelled : ∀ t ∈ tokens, t.isInserted = false → t.kind ≠ .eof → t.span.start < t.span.stop ∧
    ∃ rest, Covers source t.span.start t.span.stop t.kind.text.toList rest ∧ t.kind.Longest rest
  /-- In front of the first token there is a gap. -/
  first : ∀ t ∈ tokens.head?, ∃ gap rest, Covers source 0 t.span.start gap rest ∧ Gap gap rest
  /-- Between consecutive tokens there is a gap. -/
  between : ∀ front a b back, tokens = front ++ a :: b :: back →
    ∃ gap rest, Covers source a.span.stop b.span.start gap rest ∧ Gap gap rest
  /-- The end of the file is the last token and no other, and stands at the end of the source. -/
  last : ∃ front eof, tokens = front ++ [eof] ∧ eof.kind = .eof ∧ (∀ t ∈ front, t.kind ≠ .eof) ∧
    eof.span.start = byteSize source.toList ∧ eof.span.stop = byteSize source.toList

theorem byteSize_pos {cs : List Char} (h : cs ≠ []) : 0 < byteSize cs := by
  obtain ⟨c, cs, rfl⟩ := List.exists_cons_of_ne_nil h
  have := Char.utf8Size_pos c
  rw [byteSize]
  omega

/-- A comment ends at the first closing bracket. -/
theorem exists_commentBody (front rest : List Char) :
    ∃ body rest', commentBody (front ++ '*' :: '/' :: rest) = some (body, rest') ∧
      body.length ≤ front.length := by
  induction front with
  | nil => exact ⟨[], rest, rfl, le_rfl⟩
  | cons c front ih =>
    obtain ⟨body, rest', hbody, hle⟩ := ih
    rw [List.cons_append, commentBody.eq_def]
    split
    · simp at *
    · exact ⟨[], _, rfl, Nat.zero_le _⟩
    · rename_i heq
      obtain ⟨rfl, rfl⟩ := List.cons.inj heq
      rw [hbody]
      exact ⟨c :: body, rest', rfl, Nat.succ_le_succ hle⟩

theorem not_infix_of_commentBody {body : List Char}
    (h : commentBody (body ++ ['*', '/']) = some (body, [])) : ¬['*', '/'] <:+: body := by
  rintro ⟨front, back, rfl⟩
  obtain ⟨body, rest, hbody, hle⟩ := exists_commentBody front (back ++ ['*', '/'])
  rw [show front ++ ['*', '/'] ++ back ++ ['*', '/'] =
    front ++ '*' :: '/' :: (back ++ ['*', '/']) by simp, hbody] at h
  obtain ⟨rfl, -⟩ := Prod.mk.inj (Option.some.inj h)
  simp only [List.length_append, List.length_cons, List.length_nil] at hle
  omega

/-- **Pieces that are no tokens make a gap.** -/
theorem gap_of_row {others : List Piece} {rest : List Char} (ho : ∀ p ∈ others, p.isToken = false)
    (h : Row others rest) : Gap (Piece.joined others) rest := by
  induction others with
  | nil => exact .nil
  | cons p others ih =>
    obtain ⟨hp, ho⟩ := List.forall_mem_cons.1 ho
    have hgap := ih ho h.2
    have hread := h.1
    cases p with
    | blank c =>
      cases hread with
      | blank hc =>
        simp only [isSpacing, Bool.or_eq_true, beq_iff_eq] at hc
        refine .blank ?_ hgap
        simp only [List.mem_cons]
        tauto
    | lineBreak => exact .blank (by simp) hgap
    | lineComment body =>
      cases hread with
      | lineComment hb hr => exact .lineComment hb hr hgap
    | comment body =>
      cases hread with
      | comment hb =>
        have := Gap.comment (not_infix_of_commentBody hb) hgap
        simpa [Piece.text] using this
    | token => simp [Piece.isToken] at hp

/-- **A token is read as far as it goes.** -/
theorem Reads.longest {kind : TokenKind} {rest : List Char} (h : Reads (.token kind) rest) :
    kind ≠ .eof ∧ kind.Longest rest := by
  generalize hp : Piece.token kind = p at h
  cases h with
  | @word w _ hw hr =>
    obtain rfl := Piece.token.inj hp
    unfold wordKind
    split <;> exact ⟨by simp, hr⟩
  | @operator op _ ho =>
    obtain rfl := Piece.token.inj hp
    exact ⟨by simp, (Operator.longestIn_eq_some_iff.1 ho.longest).2⟩
  | blank | lineBreak | lineComment | comment => simp at hp
  | _ =>
    obtain rfl := Piece.token.inj hp
    exact ⟨by simp, trivial⟩

/-! ### From token to token -/

variable {here : Place} {armed : Bool} {ps : List Piece} {front back : List Token} {a t : Token}

/-- **What follows a token** is lexed from where the token ends. -/
theorem behind_of_tokensFrom (h : tokensFrom here armed ps = front ++ a :: back) (hb : back ≠ []) :
    ∃ ps₁ ps₂, ps = ps₁ ++ ps₂ ∧ a.span.stop = (here.after (Piece.joined ps₁)).offset ∧
      back = tokensFrom (here.after (Piece.joined ps₁)) a.kind.endsStatement ps₂ := by
  induction ps generalizing here armed front with
  | nil =>
    -- a semicolon at the end of the file is the only token here with one behind it
    have hlength := congrArg List.length h
    have hpos := List.length_pos_iff.2 hb
    rw [List.length_append, List.length_cons] at hlength
    cases armed with
    | false =>
      have : (tokensFrom here false []).length = 1 := rfl
      omega
    | true =>
      have : (tokensFrom here true []).length = 2 := rfl
      obtain rfl : front = [] := List.length_eq_zero_iff.1 (by omega)
      obtain ⟨rfl, rfl⟩ := List.cons.inj h
      exact ⟨[], [], rfl, rfl, rfl⟩
  | cons p ps ih =>
    -- behind the first token the claim is that of the pieces behind the first
    have later : ∀ {armed : Bool} {front : List Token},
        tokensFrom (here.after p.text) armed ps = front ++ a :: back →
        ∃ ps₁ ps₂, p :: ps = ps₁ ++ ps₂ ∧ a.span.stop = (here.after (Piece.joined ps₁)).offset ∧
          back = tokensFrom (here.after (Piece.joined ps₁)) a.kind.endsStatement ps₂ := by
      intro armed front h
      obtain ⟨ps₁, ps₂, rfl, hstop, hback⟩ := ih h
      refine ⟨p :: ps₁, ps₂, rfl, ?_⟩
      rw [joined_cons, Place.after_append]
      exact ⟨hstop, hback⟩
    rcases p.token_or with ⟨kind, rfl⟩ | hp
    · rw [tokensFrom_token] at h
      cases front with
      | nil =>
        obtain ⟨rfl, rfl⟩ := List.cons.inj h
        exact ⟨[.token kind], ps, rfl, by simp [Piece.text, Place.spanTo], by simp [Piece.text]⟩
      | cons s front => exact later (List.cons.inj h).2
    · rw [tokensFrom_other _ _ hp] at h
      split at h
      · cases front with
        | nil =>
          obtain ⟨rfl, rfl⟩ := List.cons.inj h
          exact ⟨[p], ps, rfl, by simp [insertedSemi, Place.spanTo], by simp [insertedSemi]; rfl⟩
        | cons s front => exact later (List.cons.inj h).2
      · exact later h

/-- A token that is neither inserted nor the end of the file is one of the pieces. -/
theorem spelled_of_mem_tokensFrom (hrow : Row ps []) (h : t ∈ tokensFrom here armed ps)
    (hi : t.isInserted = false) (he : t.kind ≠ .eof) :
    ∃ before rest, Piece.joined ps = before ++ (t.kind.text.toList ++ rest) ∧
      t.span.start = (here.after before).offset ∧
      t.span.stop = t.span.start + byteSize t.kind.text.toList ∧ Reads (.token t.kind) rest := by
  -- the pieces in front of the token add up to `before`
  induction ps generalizing here armed with
  | nil =>
    simp only [tokensFrom, List.mem_append, List.mem_ite_nil_right, List.mem_singleton] at h
    rcases h with ⟨-, rfl⟩ | rfl
    · simp [isInserted_insertedSemi] at hi
    · exact absurd rfl he
  | cons p ps ih =>
    have later : ∀ {armed : Bool}, t ∈ tokensFrom (here.after p.text) armed ps →
        ∃ before rest, Piece.joined (p :: ps) = before ++ (t.kind.text.toList ++ rest) ∧
          t.span.start = (here.after before).offset ∧
          t.span.stop = t.span.start + byteSize t.kind.text.toList ∧
          Reads (.token t.kind) rest := by
      intro armed h
      obtain ⟨before, rest, hj, hstart, hstop, hread⟩ := ih hrow.2 h
      refine ⟨p.text ++ before, rest, by simp [hj], ?_, hstop, hread⟩
      rw [Place.after_append]
      exact hstart
    rcases p.token_or with ⟨kind, rfl⟩ | hp
    · rw [tokensFrom_token, List.mem_cons] at h
      rcases h with rfl | h
      · have hread := hrow.1
        rw [List.append_nil] at hread
        exact ⟨[], Piece.joined ps, rfl, rfl, Place.offset_after .., hread⟩
      · exact later h
    · rw [tokensFrom_other _ _ hp] at h
      split at h
      · rcases List.mem_cons.1 h with rfl | h
        · simp [isInserted_insertedSemi] at hi
        · exact later h
      · exact later h

/-- The end of the file is the last token and no other. -/
theorem exists_last_tokensFrom (hrow : Row ps []) (here : Place) (armed : Bool) :
    ∃ front, tokensFrom here armed ps = front ++ [⟨.eof, (here.after (Piece.joined ps)).spanTo
      (here.after (Piece.joined ps)).offset⟩] ∧ ∀ t ∈ front, t.kind ≠ .eof := by
  induction ps generalizing here armed with
  | nil =>
    refine ⟨if armed then [insertedSemi here] else [], rfl, fun t ht => ?_⟩
    obtain ⟨-, ht⟩ := List.mem_ite_nil_right.1 ht
    rw [List.mem_singleton.1 ht]
    simp [insertedSemi]
  | cons p ps ih =>
    rw [joined_cons, Place.after_append]
    rcases p.token_or with ⟨kind, rfl⟩ | hp
    · obtain ⟨front, hfront, hkinds⟩ := ih hrow.2 (here.after kind.text.toList) kind.endsStatement
      rw [tokensFrom_token, hfront]
      exact ⟨_ :: front, rfl, List.forall_mem_cons.2 ⟨hrow.1.longest.1, hkinds⟩⟩
    · rw [tokensFrom_other _ _ hp]
      split
      · obtain ⟨front, hfront, hkinds⟩ := ih hrow.2 (here.after p.text) false
        rw [hfront]
        exact ⟨_ :: front, rfl, List.forall_mem_cons.2 ⟨by simp [insertedSemi], hkinds⟩⟩
      · exact ih hrow.2 _ _

/-- **In front of the first token** of a row there is a gap. -/
theorem gap_of_tokensFrom (hrow : Row ps []) (h : tokensFrom here armed ps = t :: back) :
    ∃ gap rest, Piece.joined ps = gap ++ rest ∧ Gap gap rest ∧
      t.span.start = here.offset + byteSize gap := by
  cases opens_of_tokensFrom h with
  | @spelled others kind rest ho hn hps =>
    subst hps
    rw [row_append, List.append_nil] at hrow
    exact ⟨_, _, joined_append .., gap_of_row ho hrow.1, Place.offset_after ..⟩
  | @inserted others rest ho ha hps =>
    subst hps
    rw [row_append, List.append_nil] at hrow
    exact ⟨_, _, joined_append .., gap_of_row ho hrow.1, Place.offset_after ..⟩
  | ended ho ha =>
    -- no token is left but the end of the file, so the whole row is the gap
    obtain ⟨front, hfront, -⟩ := exists_last_tokensFrom hrow here armed
    rw [h] at hfront
    have hlast := congrArg List.getLast? hfront
    rw [List.getLast?_singleton, List.getLast?_concat] at hlast
    refine ⟨Piece.joined ps, [], (List.append_nil _).symm, gap_of_row ho hrow, ?_⟩
    rw [Option.some.inj hlast]
    exact Place.offset_after ..

/-- Tokens stand one behind the other. -/
theorem ascending_tokensFrom (here : Place) (armed : Bool) (ps : List Piece) :
    (tokensFrom here armed ps).Pairwise fun a b => a.span.stop ≤ b.span.start := by
  -- no token of a row begins in front of the row
  have behind : ∀ {here : Place} {armed : Bool} {ps : List Piece},
      ∀ b ∈ tokensFrom here armed ps, here.offset ≤ b.span.start := by
    intro here armed ps b hb
    obtain ⟨before, stretch, after, -, hspan⟩ := stretch_of_mem_tokensFrom hb
    rw [hspan]
    change here.offset ≤ (here.after before).offset
    rw [Place.offset_after]
    exact Nat.le_add_right ..
  induction ps generalizing here armed with
  | nil => cases armed <;> simp [tokensFrom, insertedSemi, Place.spanTo]
  | cons p ps ih =>
    rcases p.token_or with ⟨kind, rfl⟩ | hp
    · rw [tokensFrom_token]
      exact List.pairwise_cons.2 ⟨behind, ih ..⟩
    · rw [tokensFrom_other _ _ hp]
      split
      · exact List.pairwise_cons.2 ⟨behind, ih ..⟩
      · exact ih ..

/-- The offset of a place is the number of bytes in front of it. -/
theorem offset_origin (cs : List Char) : (Place.origin.after cs).offset = byteSize cs := by
  rw [Place.offset_after]
  exact Nat.zero_add _

/-- **The tokens that the lexer gives tile the source.** -/
theorem tiling_of_lex {source : String} {tokens : List Token} (h : lex source = .ok tokens) :
    Tiling source tokens := by
  obtain ⟨hscan, rfl⟩ := lex_eq_ok_iff.1 h
  have hrow := row_of_scan hscan
  have htext := scan_text hscan
  generalize (scan source.toList).1 = ps at hrow htext
  refine ⟨ascending_tokensFrom .., ?_, ?_, ?_, ?_, ?_⟩
  · intro t ht
    obtain ⟨before, stretch, after, -, hspan⟩ := stretch_of_mem_tokensFrom ht
    rw [hspan]
    exact Nat.le_add_right ..
  · intro t ht hi he
    obtain ⟨before, rest, hj, hstart, hstop, hread⟩ := spelled_of_mem_tokensFrom hrow ht hi he
    have hpos := byteSize_pos hread.text_ne_nil
    rw [offset_origin] at hstart
    refine ⟨?_, rest, ⟨before, htext.symm.trans hj, hstart, hstop⟩, hread.longest.2⟩
    rw [hstop]
    exact Nat.lt_add_of_pos_right hpos
  · intro t ht
    obtain ⟨back, hback⟩ := List.head?_eq_some_iff.1 ht
    obtain ⟨gap, rest, hj, hgap, hstart⟩ := gap_of_tokensFrom hrow hback
    exact ⟨gap, rest, ⟨[], htext.symm.trans hj, rfl, hstart⟩, hgap⟩
  · intro front a b back hsplit
    obtain ⟨ps₁, ps₂, rfl, hstop, hback⟩ := behind_of_tokensFrom hsplit (List.cons_ne_nil b back)
    rw [row_append] at hrow
    obtain ⟨gap, rest, hj, hgap, hstart⟩ := gap_of_tokensFrom hrow.2 hback.symm
    rw [offset_origin] at hstop
    refine ⟨gap, rest, ⟨Piece.joined ps₁, ?_, hstop, ?_⟩, hgap⟩
    · rw [← htext, joined_append, hj]
    · rw [hstart, offset_origin, hstop]
  · obtain ⟨front, hfront, hkinds⟩ := exists_last_tokensFrom hrow .origin false
    refine ⟨front, _, hfront, rfl, hkinds, ?_⟩
    rw [htext]
    exact ⟨offset_origin _, offset_origin _⟩

theorem exists_tokens {source : String} {kinds : List TokenKind} {P : List Token → Prop}
    (h : (lex source).toOption.map (·.map Token.kind) = some kinds)
    (hp : ∀ tokens, lex source = .ok tokens → P tokens) :
    ∃ tokens, lex source = .ok tokens ∧ tokens.map Token.kind = kinds ∧ P tokens := by
  cases hlex : lex source with
  | error => rw [hlex] at h; exact absurd h nofun
  | ok tokens =>
    rw [hlex] at h
    exact ⟨tokens, rfl, Option.some.inj h, hp tokens hlex⟩

/-- A comment with a line break, the longest operator, a number with a sign in it, and a comment at
the end of the file. -/
def dense : String := "x/* 1\n2 */&^=0x1p-2 // end"

theorem tiling_of_dense : ∃ tokens, lex dense = .ok tokens ∧ tokens.map Token.kind =
    [.ident "x", .operator .semi, .operator .andNotAssign, .literal .float "0x1p-2",
      .operator .semi, .eof] ∧ Tiling dense tokens :=
  exists_tokens (by decide +kernel) fun _ => tiling_of_lex

end TestWeave.Source
