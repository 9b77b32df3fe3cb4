import TestWeave.Proofs.Redirect

/-!
# Token lists with redirected calls

The tokens of a changed source are those of the source, but for the first four tokens of each call
that is redirected. `Recast` says so token by token: a list is copied or a call is replaced, and the
calls that are replaced are listed in the order in which they stand.

* `recast_segments`: the tokens of a source and those of its new pieces.
* `exists_recast`: the same said of a source whose calls stand apart.
-/

namespace TestWeave.Source

open TestWeave.Text TestWeave.Change

/-- The kinds of a token list in which the calls `sites` are redirected. `around` lists the groups
that are open in front of it, and `selected` says whether a dot stands there. Behind the receiver
that is passed stands `more`: a comma, a semicolon that a line break inserts, or nothing. -/
inductive Recast (q : String) : List Delimiter → Bool → List Token → List TokenKind →
    List (CallSite × String) → Prop
  | nil {around selected} : Recast q around selected [] [] []
  | copy {around selected token tokens kinds sites} :
      Recast q (token.kind.stack around) (token.kind == .operator .dot) tokens kinds sites →
      Recast q around selected (token :: tokens) (token.kind :: kinds) sites
  | call {around recv dot name paren tokens kinds more call entry sites} :
      Delimiter.brace ∈ around → Called call recv dot name paren →
      (∀ kind ∈ more, kind = .operator .comma ∨ kind = .operator .semi) →
      (more = [] → ∀ t ∈ tokens.head?, t.kind = .operator .rparen ∨ t.kind = .operator .comma) →
      Recast q (.paren :: around) false tokens kinds sites →
      Recast q around false (recv :: dot :: name :: paren :: tokens)
        (calleeKinds q entry ++ .operator .lparen :: .ident call.receiver :: (more ++ kinds))
        ((call, entry) :: sites)

/-- A token is copied at the top of a source, and where it is no name. -/
theorem Recast.copied {q : String} {around : List Delimiter} {selected : Bool} {token : Token}
    {tokens : List Token} {ks : List TokenKind} {sites : List (CallSite × String)}
    (h : Recast q around selected (token :: tokens) ks sites)
    (ht : .brace ∉ around ∨ ∀ name, token.kind ≠ .ident name) :
    ∃ ks', ks = token.kind :: ks' ∧
      Recast q (token.kind.stack around) (token.kind == .operator .dot) tokens ks' sites := by
  generalize hall : token :: tokens = all at h
  cases h with
  | nil => simp at hall
  | copy h =>
    obtain ⟨rfl, rfl⟩ := List.cons.inj hall
    exact ⟨_, rfl, h⟩
  | call hb hc =>
    obtain ⟨rfl, -⟩ := List.cons.inj hall
    rcases ht with ht | ht
    · exact absurd hb ht
    · exact absurd hc.recv_kind (ht _)

/-- Where no token is left, nothing is. -/
theorem Recast.nil_inv {q : String} {around : List Delimiter} {selected : Bool}
    {ks : List TokenKind} {sites : List (CallSite × String)}
    (h : Recast q around selected [] ks sites) : ks = [] ∧ sites = [] := by
  cases h
  exact ⟨rfl, rfl⟩

section

variable {q : String} {segs : List Segment} {around : List Delimiter} {here : Place}

/-! ### What is behind a call -/

/-- What closes a call without arguments is the next token. -/
theorem Closes.next (h : Closes segs) (here : Place) :
    ∀ t ∈ (tokensFrom here false (piecesOf segs)).head?,
      t.kind = .operator .rparen ∨ t.kind = .operator .comma := by
  induction segs generalizing here with
  | nil => exact h.elim
  | cons s segs ih =>
    cases s with
    | window w => exact h.elim
    | plain p =>
      rw [piecesOf_plain]
      rcases p.token_or with ⟨kind, rfl⟩ | ht
      · rw [tokensFrom_token]
        rintro _ ⟨⟩
        exact h
      · have hcloses : Closes segs := by
          cases p <;> first | exact h | simp [Piece.isToken] at ht
        rw [tokensFrom_other _ _ ht, Bool.false_and, if_neg Bool.false_ne_true]
        exact ih hcloses _

/-- Behind a receiver that is passed alone, at most a semicolon is inserted. -/
theorem Closes.inserts (h : Closes segs) : ∃ more,
    kindsFrom true (freshOf q segs) = more ++ kindsFrom false (freshOf q segs) ∧
      ∀ kind ∈ more, kind = .operator .comma ∨ kind = .operator .semi := by
  induction segs with
  | nil => exact h.elim
  | cons s segs ih =>
    cases s with
    | window w => exact h.elim
    | plain p =>
      rw [freshOf_plain]
      rcases p.token_or with ⟨kind, rfl⟩ | ht
      · exact ⟨[], rfl, by simp⟩
      · have hcloses : Closes segs := by
          cases p <;> first | exact h | simp [Piece.isToken] at ht
        rw [kindsFrom_other _ ht, kindsFrom_other _ ht, Bool.true_and, Bool.false_and,
          if_neg Bool.false_ne_true]
        split
        · exact ⟨[.operator .semi], rfl, by simp⟩
        · exact ih hcloses

/-! ### Segments -/

/-- Whether the lead of each window and its new callee are scanned one after the other. -/
def Clear (q : String) (segs : List Segment) : Prop :=
  ∀ w, .window w ∈ segs → scan (w.region q) = (w.lead.toList ++ calleePieces q w.entry, none)

theorem Clear.tail {s : Segment} (h : Clear q (s :: segs)) : Clear q segs :=
  fun w hw => h w (List.mem_cons_of_mem _ hw)

theorem Clear.legible (h : Clear q segs) : Legible q segs := by
  intro w hw
  rw [h w hw]

/-- The tokens that stand in the place of a window without its lead. -/
theorem Recast.callee {w : Window} {sites : List (CallSite × String)}
    (hq : ∀ c ∈ q.toList, isSoft c = true) (hb : .brace ∈ around) (h₁ : Inline w.gap₁)
    (h₂ : Blank w.gap₂) (h₃ : Inline w.gap₃) (hstart : here.offset = w.call.callee.start)
    (hclose : w.call.args = [] → Closes segs) (armed armed' : Bool)
    (h : Recast q (.paren :: around) false
      (tokensFrom (here.after (Piece.joined (w.callee ++ [.token (.operator .lparen)]))) false
        (piecesOf segs)) (kindsFrom false (freshOf q segs)) sites) :
    Recast q around false
      (tokensFrom here armed (w.callee ++ .token (.operator .lparen) :: piecesOf segs))
      (kindsFrom armed' (calleePieces q w.entry ++ (w.passing ++ freshOf q segs)))
      ((w.call, w.entry) :: sites) := by
  obtain ⟨recv, dot, name, paren, hcalled, htokens⟩ :=
    tokensFrom_callee h₁ h₂ h₃ hstart armed (piecesOf segs)
  have hcallee : calleePieces q w.entry = (calleeKinds q w.entry).map Piece.token := by
    simp [calleePieces, calleeKinds, scan_soft hq]
  obtain ⟨armed₁, hkinds⟩ := kindsFrom_tokens (calleeKinds q w.entry) armed'
    (w.passing ++ freshOf q segs)
  rw [htokens, hcallee, hkinds]
  -- behind the receiver a semicolon may be inserted, or a comma stands in front of the arguments
  cases hargs : w.call.args with
  | nil =>
    have hcloses := hclose hargs
    obtain ⟨more, hmore, hkind⟩ := hcloses.inserts (q := q)
    have hpassing : kindsFrom armed₁ (w.passing ++ freshOf q segs) = .operator .lparen ::
        .ident w.call.receiver :: (more ++ kindsFrom false (freshOf q segs)) := by
      rw [← hmore]
      simp [Window.passing, hargs, kindsFrom_token, TokenKind.endsStatement]
    rw [hpassing]
    exact .call hb hcalled hkind (fun _ => hcloses.next _) h
  | cons a args =>
    have hpassing : kindsFrom armed₁ (w.passing ++ freshOf q segs) = .operator .lparen ::
        .ident w.call.receiver :: ([.operator .comma] ++ kindsFrom false (freshOf q segs)) := by
      have hblank : kindsFrom false (.blank ' ' :: freshOf q segs) =
        kindsFrom false (freshOf q segs) := kindsFrom_other false rfl _
      simp [Window.passing, hargs, kindsFrom_token, TokenKind.endsStatement, hblank]
    rw [hpassing]
    exact .call hb hcalled (by simp) (by simp) h

/-- **The tokens of a window** stand in its place, behind its lead. -/
theorem Recast.window {w : Window} (hq : ∀ c ∈ q.toList, isSoft c = true) {selected : Bool}
    (hat : w.At here) (hb : .brace ∈ around) (hclose : w.call.args = [] → Closes segs)
    (hfree : w.lead = none → selected = false)
    (hregion : scan (w.region q) = (w.lead.toList ++ calleePieces q w.entry, none)) (armed : Bool)
    (h : Recast q (.paren :: around) false
      (tokensFrom (here.after (Piece.joined w.pieces)) false (piecesOf segs))
      (kindsFrom false (freshOf q segs)) (sitesOf segs)) :
    Recast q around selected (tokensFrom here armed (piecesOf (.window w :: segs)))
      (kindsFrom armed (freshOf q (.window w :: segs))) (sitesOf (.window w :: segs)) := by
  have hstart := hat.start
  rw [piecesOf_window, freshOf_window, sitesOf_window, Window.fresh, hregion, List.append_assoc,
    List.append_assoc]
  cases hl : w.lead with
  | none =>
    rw [hl] at hstart
    have hsel := hfree hl
    subst hsel
    have hpieces : w.pieces = w.callee ++ [.token (.operator .lparen)] := by
      simp [Window.pieces, hl]
    rw [hpieces] at h ⊢
    rw [List.append_assoc]
    exact Recast.callee hq hb hat.gap₁ hat.gap₂ hat.gap₃ hstart.symm hclose _ _ h
  | some l =>
    -- the lead is a token of its own, no dot and no delimiter
    rw [hl] at hstart
    have hsticky := hat.lead l (by rw [hl]; rfl)
    obtain ⟨kind, rfl⟩ := exists_token_of_isSticky hsticky
    have hstack : kind.stack around = around := stack_of_isSticky hsticky around
    have hdot : (kind == .operator .dot) = false := by
      by_contra hd
      obtain rfl : kind = .operator .dot := by simpa using hd
      exact Bool.false_ne_true hsticky
    have hpieces : w.pieces = .token kind :: (w.callee ++ [.token (.operator .lparen)]) := by
      simp [Window.pieces, hl]
    rw [hpieces, joined_cons, Place.after_append] at h
    rw [hpieces, List.cons_append, List.append_assoc, tokensFrom_token]
    refine .copy ?_
    rw [hstack, hdot]
    refine Recast.callee hq hb hat.gap₁ hat.gap₂ hat.gap₃ ?_ hclose _ _ h
    simpa [Piece.text] using hstart.symm

/-- **A plain piece** is copied with the tokens that it makes. -/
theorem Recast.plain {p : Piece} {selected armed : Bool} (hfree : Free selected (.plain p :: segs))
    (ha : selected = true → armed = false)
    (ih : ∀ {selected armed : Bool}, Free selected segs → (selected = true → armed = false) →
      Recast q (p.stack around) selected (tokensFrom (here.after p.text) armed (piecesOf segs))
        (kindsFrom armed (freshOf q segs)) (sitesOf segs)) :
    Recast q around selected (tokensFrom here armed (piecesOf (.plain p :: segs)))
      (kindsFrom armed (freshOf q (.plain p :: segs))) (sitesOf (.plain p :: segs)) := by
  rw [piecesOf_plain, freshOf_plain, sitesOf_plain]
  rcases p.token_or with ⟨kind, rfl⟩ | ht
  · rw [tokensFrom_token, kindsFrom_token]
    refine .copy (ih hfree fun hd => ?_)
    obtain rfl : kind = .operator .dot := by simpa using hd
    rfl
  · rw [Free, selects_of_not_isToken ht] at hfree
    rw [stack_of_not_isToken ht] at ih
    rw [tokensFrom_other _ _ ht, kindsFrom_other _ ht]
    split
    · rename_i hbreak
      -- behind a dot no line break ends a statement
      have hsel : selected = false := by
        by_contra hs
        rw [ha (eq_true_of_ne_false hs)] at hbreak
        exact Bool.false_ne_true hbreak
      subst hsel
      exact .copy (ih hfree nofun)
    · exact ih hfree ha

/-- **The tokens of a source and those of its new pieces**, if its windows are clear. -/
theorem recast_segments (hq : ∀ c ∈ q.toList, isSoft c = true) {selected armed : Bool}
    (hp : Placed here around segs) (hf : Free selected segs) (hc : Clear q segs)
    (ha : selected = true → armed = false) :
    Recast q around selected (tokensFrom here armed (piecesOf segs))
      (kindsFrom armed (freshOf q segs)) (sitesOf segs) := by
  induction segs generalizing here around selected armed with
  | nil =>
    cases armed with
    | false => exact .copy .nil
    | true => exact .copy (.copy .nil)
  | cons s segs ih =>
    cases s with
    | plain p => exact .plain hf ha fun hf ha => ih hp.2 hf hc.tail ha
    | window w =>
      obtain ⟨hat, hb, hclose, hp⟩ := hp
      exact .window hq hat hb hclose hf.1 (hc w List.mem_cons_self) armed
        (ih hp hf.2 hc.tail fun _ => rfl)

end

/-! ### Sources -/

variable {file : SourceFile} {sdk : Instrumentation} {q : String} {head : Head}
  {segs : List Segment}

/-- **The tokens behind the package clause**, of a source and of its new pieces. -/
theorem exists_recast (hl : Layout file sdk head segs) (hq : ∀ c ∈ q.toList, isSoft c = true)
    (hc : Clear q segs) : ∃ keyword name semi rest ks, lex file.source =
        .ok (keyword :: name :: semi :: rest) ∧
      Recast q [] false rest ks (sitesOf segs) ∧
      kindsFrom head.semi.isNone (freshOf q segs) = head.semiKinds ++ ks := by
  obtain ⟨keyword, name, semi, rest, hlex, hsemi, htokens⟩ := hl.tokens
  have hrecast := recast_segments hq hl.placed hl.free hc
    (nofun : false = true → head.semi.isNone = false)
  rw [htokens] at hrecast
  refine ⟨keyword, name, semi, rest, ?_⟩
  cases hs : head.semi.isNone with
  | false =>
    rw [hs, if_neg Bool.false_ne_true] at hrecast
    exact ⟨_, hlex, hrecast, by rw [Head.semiKinds, hs]; rfl⟩
  | true =>
    -- the semicolon of the package clause comes first in both
    rw [hs, if_pos rfl] at hrecast
    obtain ⟨ks, hks, h⟩ := hrecast.copied (.inl List.not_mem_nil)
    rw [hsemi] at h hks
    exact ⟨ks, hlex, h, by rw [hks, Head.semiKinds, hs]; rfl⟩

end TestWeave.Source
