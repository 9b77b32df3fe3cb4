import TestWeave.Proofs.Positions

/-!
# The lexer, call by call

The lexer gives one token at each call and stops behind the end of the file. A call may pass no
character at all, as the one that ends the last statement does, so what shrinks from call to call is
the rest of the source, counted twice, together with the semicolons that are still to come.

* `Lexer.next`: one call, and `Lexer.load`: what it takes away from.
* `Lexer.gives_next`: a call gives the first of the tokens that are still to come.
* `Lexer.Ends`: how many calls there are, and what comes of them.
* `ends_of_source`: there are at most twice as many as characters and one more, and together they
  give what lexing the source gives.
-/

namespace TestWeave.Source

/-! ### One call -/

/-- The lexer between two calls. -/
structure Lexer where
  rest : List Char
  here : Place
  /-- Whether a line break would end a statement. -/
  armed : Bool
  /-- Whether a line break has ended one, and the semicolon for it is still to come. -/
  pending : Bool

namespace Lexer

/-- In front of a source. -/
def start (source : String) : Lexer := ⟨source.toList, .origin, false, false⟩

/-- Behind a blank, a line break or a comment, where `rest` follows. -/
def pass (l : Lexer) (p : Piece) (rest : List Char) : Lexer where
  rest
  here := l.here.after p.text
  armed := l.armed && !p.breaksLine
  pending := l.pending || (l.armed && p.breaksLine)

/-- One call: the next token, or what is wrong with the source in front of it. Blanks, line breaks
and comments are passed, up to the first that ends a statement. -/
def next (l : Lexer) : Except Diagnostic (Token × Lexer) :=
  if l.pending then .ok (insertedSemi l.here, { l with pending := false })
  else match _ : l.rest with
    | [] =>
      if l.armed then .ok (insertedSemi l.here, { l with armed := false })
      else .ok (⟨.eof, l.here.spanTo l.here.offset⟩, l)
    | c :: cs =>
      match _ : readPiece c cs with
      | .error f =>
        .error ⟨f.error.message, some (l.here.spanTo (l.here.offset + byteSize f.text))⟩
      | .ok (.token kind, rest) =>
        let behind := l.here.after kind.text.toList
        .ok (⟨kind, l.here.spanTo behind.offset⟩, ⟨rest, behind, kind.endsStatement, false⟩)
      | .ok (p, rest) => (l.pass p rest).next
termination_by l.rest.length
decreasing_by
  rw [‹l.rest = _›]
  exact readPiece_length (by assumption)

/-- What each call that gives another token takes away from. -/
def load (l : Lexer) : Nat := 2 * l.rest.length + l.armed.toNat + l.pending.toNat

end Lexer

/-! ### The tokens that are still to come -/

/-- What lexing the rest of a source gives, from a place on. -/
def lexFrom (here : Place) (armed : Bool) (cs : List Char) : Except Diagnostic (List Token) :=
  let fault := here.after (Piece.joined (scan cs).1)
  match (scan cs).2 with
  | some f => .error ⟨f.error.message, some (fault.spanTo (fault.offset + byteSize f.text))⟩
  | none => .ok (tokensFrom here armed (scan cs).1)

theorem lex_eq_lexFrom (source : String) : lex source = lexFrom .origin false source.toList := by
  have hplace := place_placeTokens .origin false (scan source.toList).1
  cases hfault : (scan source.toList).2 with
  | none =>
    rw [lex_eq_ok_iff.2 ⟨hfault, rfl⟩]
    simp only [lexFrom, hfault]
  | some f => simp only [lex, lexFrom, hfault, ← hplace]

section

variable {here : Place} {armed : Bool} {c : Char} {cs rest : List Char} {p : Piece}
  {kind : TokenKind} {f : Fault}

theorem scan_of_readPiece (h : readPiece c cs = .ok (p, rest)) :
    scan (c :: cs) = (p :: (scan rest).1, (scan rest).2) := by
  rw [scan]
  split <;> simp_all

theorem lexFrom_nil (here : Place) (armed : Bool) :
    lexFrom here armed [] = .ok (tokensFrom here armed []) := by
  simp [lexFrom, scan]

theorem lexFrom_fault (h : readPiece c cs = .error f) : lexFrom here armed (c :: cs) =
    .error ⟨f.error.message, some (here.spanTo (here.offset + byteSize f.text))⟩ := by
  have hscan : scan (c :: cs) = ([], some f) := by
    rw [scan]
    split <;> simp_all
  simp [lexFrom, hscan]

theorem lexFrom_token (h : readPiece c cs = .ok (.token kind, rest)) :
    lexFrom here armed (c :: cs) =
      (lexFrom (here.after kind.text.toList) kind.endsStatement rest).map
        (⟨kind, here.spanTo (here.after kind.text.toList).offset⟩ :: ·) := by
  simp only [lexFrom, scan_of_readPiece h, joined_cons, Piece.text, Place.after_append]
  cases (scan rest).2 <;> rfl

theorem lexFrom_other (h : readPiece c cs = .ok (p, rest)) (hp : p.isToken = false) :
    lexFrom here armed (c :: cs) =
      if armed && p.breaksLine then
        (lexFrom (here.after p.text) false rest).map (insertedSemi (here.after p.text) :: ·)
      else lexFrom (here.after p.text) armed rest := by
  simp only [lexFrom, scan_of_readPiece h, joined_cons, Place.after_append,
    tokensFrom_other _ _ hp]
  by_cases hends : (armed && p.breaksLine) = true
  · simp only [if_pos hends]
    cases (scan rest).2 <;> rfl
  · simp only [if_neg hends]

end

namespace Lexer

variable {l l' : Lexer} {d : Diagnostic} {t : Token} {calls calls' : Nat}
  {result result' : Except Diagnostic (List Token)} {tokens : List Token}

/-- What is still to come, a semicolon that is pending included. -/
def remaining (l : Lexer) : Except Diagnostic (List Token) :=
  if l.pending then (lexFrom l.here l.armed l.rest).map (insertedSemi l.here :: ·)
  else lexFrom l.here l.armed l.rest

theorem remaining_start (source : String) : (start source).remaining = lex source :=
  (lex_eq_lexFrom source).symm

/-- Behind a piece that is no token the same is still to come. -/
theorem remaining_pass {c : Char} {cs rest : List Char} {p : Piece} (hl : l.rest = c :: cs)
    (hpending : l.pending = false) (h : readPiece c cs = .ok (p, rest)) (hp : p.isToken = false) :
    (l.pass p rest).remaining = l.remaining := by
  simp only [remaining, pass, hpending, hl, lexFrom_other h hp, Bool.false_or]
  cases l.armed <;> cases p.breaksLine <;> rfl

/-- Passing a piece takes away from the load. -/
theorem load_pass {c : Char} {cs rest : List Char} {p : Piece} (hl : l.rest = c :: cs)
    (h : readPiece c cs = .ok (p, rest)) : (l.pass p rest).load < l.load := by
  have hlength := readPiece_length h
  rw [← hl] at hlength
  simp only [load, pass]
  cases l.armed <;> cases l.pending <;> cases p.breaksLine <;> simp <;> omega

/-- What a call may give: the fault that is still to come, the end of the file if nothing else is, or
the first of the tokens, and then it takes away from the load. -/
inductive Gives (l : Lexer) : Except Diagnostic (Token × Lexer) → Prop
  | fault {d : Diagnostic} : l.remaining = .error d → Gives l (.error d)
  | last {t : Token} {l' : Lexer} : t.kind = .eof → l.remaining = .ok [t] → Gives l (.ok (t, l'))
  | more {t : Token} {l' : Lexer} : t.kind ≠ .eof → l.remaining = l'.remaining.map (t :: ·) →
      l'.load < l.load → Gives l (.ok (t, l'))

theorem Gives.of_pass {c : Char} {cs rest : List Char} {p : Piece}
    {r : Except Diagnostic (Token × Lexer)} (hl : l.rest = c :: cs) (hpending : l.pending = false)
    (h : readPiece c cs = .ok (p, rest)) (hp : p.isToken = false) (hg : (l.pass p rest).Gives r) :
    l.Gives r := by
  have hremaining := remaining_pass hl hpending h hp
  cases hg with
  | fault hf => exact .fault (hremaining ▸ hf)
  | last ht hf => exact .last ht (hremaining ▸ hf)
  | more ht hf hload => exact .more ht (hremaining ▸ hf) (hload.trans (load_pass hl h))

/-- **What a call gives.** -/
theorem gives_next (l : Lexer) : l.Gives l.next := by
  -- one case for each way of `next` to go on; only blanks and comments are passed over
  fun_induction next l with
  | case1 l hpending =>
    refine .more nofun ?_ ?_
    · simp [remaining, hpending]
    · simp [load, hpending]
  | case2 l hpending hl harmed =>
    refine .more nofun ?_ ?_
    · simp [remaining, hpending, hl, harmed, lexFrom_nil, tokensFrom, Except.map]
    · simp [load, hl, harmed]
  | case3 l hpending hl harmed =>
    refine .last rfl ?_
    simp [remaining, hpending, hl, harmed, lexFrom_nil, tokensFrom]
  | case4 l hpending c cs hl f hf =>
    refine .fault ?_
    simp [remaining, hpending, hl, lexFrom_fault hf]
  | case5 l hpending c cs hl kind rest hr behind =>
    have hlength := readPiece_length hr
    refine .more (reads_of_readPiece hr).longest.1 ?_ ?_
    · simp [remaining, hpending, hl, lexFrom_token hr, behind]
    · rw [← hl] at hlength
      simp only [load]
      cases kind.endsStatement <;> simp <;> omega
  | case6 l hpending c cs hl p rest hp hr ih =>
    have hp : p.isToken = false := by
      cases p with
      | token kind => exact absurd rfl (hp kind)
      | _ => rfl
    exact ih.of_pass hl (by simpa using hpending) hr hp

/-! ### All calls -/

/-- How often the lexer is called until it meets a fault or the end of the file, and what it has given
then. -/
inductive Ends : Lexer → Nat → Except Diagnostic (List Token) → Prop
  | fault {l : Lexer} {d : Diagnostic} : l.next = .error d → Ends l 1 (.error d)
  | last {l l' : Lexer} {t : Token} : l.next = .ok (t, l') → t.kind = .eof → Ends l 1 (.ok [t])
  | more {l l' : Lexer} {t : Token} {calls : Nat} {result : Except Diagnostic (List Token)} :
      l.next = .ok (t, l') → t.kind ≠ .eof → Ends l' calls result →
      Ends l (calls + 1) (result.map (t :: ·))

/-- The lexer ends in one way only. -/
theorem Ends.unique (h : l.Ends calls result) (h' : l.Ends calls' result') :
    calls = calls' ∧ result = result' := by
  induction h generalizing calls' result' with
  | fault hn =>
    cases h' with
    | fault hn' => simp_all
    | last hn' => simp_all
    | more hn' => simp_all
  | last hn ht =>
    cases h' with
    | fault hn' => simp_all
    | last hn' => simp_all
    | more hn' ht' => simp_all
  | more hn ht _ ih =>
    cases h' with
    | fault hn' => simp_all
    | last hn' ht' => simp_all
    | more hn' _ h' =>
      obtain ⟨rfl, rfl⟩ := Prod.mk.inj (Except.ok.inj (hn.symm.trans hn'))
      obtain ⟨rfl, rfl⟩ := ih h'
      exact ⟨rfl, rfl⟩

/-- Every call gives one token. -/
theorem Ends.length (h : l.Ends calls result) (hr : result = .ok tokens) : tokens.length = calls := by
  induction h generalizing tokens with
  | fault => cases hr
  | last =>
    obtain rfl := Except.ok.inj hr
    rfl
  | @more _ _ _ _ result _ _ _ ih =>
    cases result with
    | error => cases hr
    | ok later =>
      obtain rfl := Except.ok.inj hr
      rw [List.length_cons, ih rfl]

/-- **The lexer ends**, and has given then what was still to come. -/
theorem exists_ends (l : Lexer) : ∃ calls ≤ l.load + 1, l.Ends calls l.remaining := by
  generalize hn : l.next = r
  have hg := l.gives_next
  rw [hn] at hg
  cases hg with
  | fault hf => exact ⟨1, Nat.le_add_left .., hf ▸ .fault hn⟩
  | last ht hf => exact ⟨1, Nat.le_add_left .., hf ▸ .last hn ht⟩
  | @more t l' ht hf hload =>
    obtain ⟨calls, hle, hends⟩ := exists_ends l'
    exact ⟨calls + 1, by omega, hf ▸ .more hn ht hends⟩
termination_by l.load

end Lexer

/-- **The lexer always stops.** Called again and again from the beginning of a source, malformed or
not, it ends in one way only, after at most twice as many calls as the source has characters and one
more, and has given then what lexing the source gives: a diagnostic, or one token for each call. -/
theorem ends_of_source (source : String) :
    ∃ calls ≤ 2 * source.length + 1,
      (∀ calls' result, (Lexer.start source).Ends calls' result ↔
        calls' = calls ∧ result = lex source) ∧
      ∀ tokens, lex source = .ok tokens → tokens.length = calls := by
  obtain ⟨calls, hle, hends⟩ := (Lexer.start source).exists_ends
  rw [Lexer.remaining_start] at hends
  refine ⟨calls, ?_, fun calls' result => ⟨fun h => h.unique hends, ?_⟩, fun tokens => hends.length⟩
  · simpa [Lexer.load, Lexer.start, String.length_toList] using hle
  · rintro ⟨rfl, rfl⟩
    exact hends

/-- A word on a line of its own, and a comment that is not closed. -/
def openComment : String := "x\n/* y"

theorem ends_of_openComment : ∃ d, lex openComment = .error d ∧
    ∃ calls ≤ 13, (Lexer.start openComment).Ends calls (.error d) := by
  have hfault : (lex openComment).toOption = none := by decide +kernel
  cases hlex : lex openComment with
  | ok tokens =>
    rw [hlex] at hfault
    cases hfault
  | error d =>
    obtain ⟨calls, hle, hends, -⟩ := ends_of_source openComment
    exact ⟨d, rfl, calls, hle, (hends _ _).2 ⟨rfl, hlex.symm⟩⟩

end TestWeave.Source
