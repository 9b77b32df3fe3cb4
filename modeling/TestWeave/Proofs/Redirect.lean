import TestWeave.Proofs.Emission

/-!
# The tokens of redirected calls

`redirected` says on the tokens of a source what it is to redirect its calls. The tokens of the
changed source are these exactly if every new callee stands apart from what is in front of it, and
no call without arguments has a line break behind its parenthesis.

* `redirected_segments`: the redirected tokens of a source, segment by segment.
* `kindsFrom_fresh_iff`: the tokens of the new pieces are the redirected ones.
* `redirected_iff`: the same said of the source alone.
-/

namespace TestWeave.Source

/-! ### The tokens of a call -/

/-- The first four tokens of a call, as far as they show which call it is. -/
structure Called (call : CallSite) (recv dot name paren : Token) : Prop where
  recv_kind : recv.kind = .ident call.receiver
  dot_kind : dot.kind = .operator .dot
  name_kind : name.kind = .ident Known.runMethod
  paren_kind : paren.kind = .operator .lparen
  start : recv.span.start = call.callee.start

/-- The tokens of a callee and its parenthesis. -/
theorem tokensFrom_callee {w : Window} {here : Place} (h₁ : Inline w.gap₁) (h₂ : Blank w.gap₂)
    (h₃ : Inline w.gap₃) (hstart : here.offset = w.call.callee.start) (armed : Bool)
    (rest : List Piece) : ∃ recv dot name paren, Called w.call recv dot name paren ∧
      tokensFrom here armed (w.callee ++ .token (.operator .lparen) :: rest) =
        recv :: dot :: name :: paren :: tokensFrom
          (here.after (Piece.joined (w.callee ++ [.token (.operator .lparen)]))) false rest := by
  have hpieces : w.callee ++ .token (.operator .lparen) :: rest =
      .token (.ident w.call.receiver) :: (w.gap₁ ++ .token (.operator .dot) ::
        (w.gap₂ ++ .token (.ident Known.runMethod) ::
          (w.gap₃ ++ .token (.operator .lparen) :: rest))) := by
    simp [Window.callee]
  -- a dot ends no statement
  have hdot : (TokenKind.operator .dot).endsStatement = true → Inline w.gap₂ :=
    fun h => absurd h (by decide)
  have hhere : here.after (Piece.joined (w.callee ++ [.token (.operator .lparen)])) =
      ((((((here.after w.call.receiver.toList).after (Piece.joined w.gap₁)).after
        (TokenKind.operator .dot).text.toList).after (Piece.joined w.gap₂)).after
        Known.runMethod.toList).after (Piece.joined w.gap₃)).after
        (TokenKind.operator .lparen).text.toList := by
    simp [Window.callee, Place.after_append, Piece.text, TokenKind.text]
  rw [hpieces, hhere, tokensFrom_token, tokensFrom_gap h₁.blank (fun _ => h₁),
    tokensFrom_token, tokensFrom_gap h₂ hdot, tokensFrom_token,
    tokensFrom_gap h₃.blank (fun _ => h₃), tokensFrom_token]
  have hcalled : ∀ stop s₁ s₂ s₃, Called w.call ⟨.ident w.call.receiver, here.spanTo stop⟩
      ⟨.operator .dot, s₁⟩ ⟨.ident Known.runMethod, s₂⟩ ⟨.operator .lparen, s₃⟩ :=
    fun _ _ _ _ => ⟨rfl, rfl, rfl, rfl, hstart⟩
  exact ⟨_, _, _, _, hcalled _ _ _ _, rfl⟩

end TestWeave.Source

namespace TestWeave.Change

open TestWeave.Source TestWeave.Text

/-- The tokens of a new callee. -/
def calleeKinds (q entry : String) : List TokenKind :=
  textKinds q.toList ++ [.operator .dot, .ident entry]

/-- The tokens that a redirected call has in the place of its first four. -/
def openKinds (q : String) (c : CallSite × String) : List TokenKind :=
  calleeKinds q c.2 ++ .operator .lparen :: .ident c.1.receiver ::
    if c.1.args.isEmpty then [] else [.operator .comma]

/-- Whether a call begins at a token. -/
def beginsAt (t : Token) (c : CallSite × String) : Bool :=
  t.kind == .ident c.1.receiver && t.span.start == c.1.callee.start

/-- The tokens of a source whose calls are redirected. The first argument counts the tokens of a
call that are still to be passed over. -/
def redirected (q : String) (calls : List (CallSite × String)) :
    Nat → List Token → List TokenKind
  | _, [] => []
  | n + 1, _ :: ts => redirected q calls n ts
  | 0, t :: ts =>
    match calls.find? (beginsAt t) with
    | some c => openKinds q c ++ redirected q calls 3 ts
    | none => t.kind :: redirected q calls 0 ts

/-- The tokens that a changed source should have: those of the package clause, of the added imports,
and of the source with its calls redirected. -/
def changedKinds (file : SourceFile) (sdk : Instrumentation) (tokens : List Token) :
    List TokenKind :=
  (tokens.take 3).map Token.kind ++
    ((prepared file sdk none).addedImports.flatMap importKinds ++
      redirected (qualifier file sdk) (Patch.targets file sdk) 0 (tokens.drop 3))

section

variable {q : String} {calls : List (CallSite × String)} {segs : List Segment}

/-! ### The redirected tokens of segments -/

/-- The redirected tokens of a list of segments. -/
def redirectedFrom (q : String) (armed : Bool) : List Segment → List TokenKind
  | [] => kindsFrom armed []
  | .plain (.token kind) :: segs => kind :: redirectedFrom q kind.endsStatement segs
  | .plain p :: segs =>
    if armed && p.breaksLine then .operator .semi :: redirectedFrom q false segs
    else redirectedFrom q armed segs
  | .window w :: segs =>
    w.lead.toList.filterMap Piece.kind? ++ openKinds q (w.call, w.entry) ++
      redirectedFrom q false segs

theorem redirectedFrom_other (armed : Bool) {p : Piece} (hp : p.isToken = false) :
    redirectedFrom q armed (.plain p :: segs) =
      if armed && p.breaksLine then .operator .semi :: redirectedFrom q false segs
      else redirectedFrom q armed segs := by
  cases p <;> first | rfl | simp [Piece.isToken] at hp

theorem redirected_cons_of_not {t : Token} {ts : List Token}
    (h : ∀ c ∈ calls, beginsAt t c = false) :
    redirected q calls 0 (t :: ts) = t.kind :: redirected q calls 0 ts := by
  have hnone : calls.find? (beginsAt t) = none :=
    List.find?_eq_none.2 fun c hc => by simp [h c hc]
  rw [redirected, hnone]

/-- No call begins at a token that is no name. -/
theorem not_beginsAt_of_kind {t : Token} (h : ∀ name, t.kind ≠ .ident name)
    (c : CallSite × String) : beginsAt t c = false := by
  simp [beginsAt, h]

theorem redirected_one {c : CallSite × String} {t : Token} {ts : List Token} (hc : c ∈ calls)
    (ht : beginsAt t c = true) (h : ∀ d ∈ calls, beginsAt t d = true → d = c) :
    redirected q calls 0 (t :: ts) = openKinds q c ++ redirected q calls 3 ts := by
  have hsome : calls.find? (beginsAt t) = some c := by
    cases hd : calls.find? (beginsAt t) with
    | none => exact absurd ht (List.find?_eq_none.1 hd c hc)
    | some d =>
      rw [h d (List.mem_of_find?_eq_some hd) (List.find?_some hd)]
  rw [redirected, hsome]

/-- A call that stands in segments begins behind the place where they stand. -/
theorem le_start_of_mem {here : Place} {around : List Delimiter} (h : Placed here around segs)
    {c : CallSite × String} (hc : c ∈ sitesOf segs) : here.offset ≤ c.1.callee.start :=
  ((editsOf_spec (q := "") h).1 (callEdit "" c) (List.mem_map_of_mem hc)).1

/-- The tokens of a call are replaced together, if it begins at its receiver and no other one. -/
theorem redirected_callee {w : Window} {here : Place} (h₁ : Inline w.gap₁) (h₂ : Blank w.gap₂)
    (h₃ : Inline w.gap₃) (hstart : here.offset = w.call.callee.start)
    (hc : (w.call, w.entry) ∈ calls)
    (h : ∀ d ∈ calls, d.1.callee.start = w.call.callee.start → d = (w.call, w.entry))
    (armed : Bool) (rest : List Piece) :
    redirected q calls 0 (tokensFrom here armed (w.callee ++ .token (.operator .lparen) :: rest)) =
      openKinds q (w.call, w.entry) ++ redirected q calls 0
        (tokensFrom (here.after (Piece.joined (w.callee ++ [.token (.operator .lparen)])))
          false rest) := by
  obtain ⟨recv, dot, name, paren, hcalled, htokens⟩ :=
    tokensFrom_callee h₁ h₂ h₃ hstart armed rest
  rw [htokens, redirected_one hc]
  · rfl
  · simp [beginsAt, hcalled.recv_kind, hcalled.start]
  · intro d hd hb
    simp only [beginsAt, Bool.and_eq_true, beq_iff_eq] at hb
    exact h d hd (hb.2.symm.trans hcalled.start)

/-- **The redirected tokens of a window**, if its call begins at its receiver and no other one. -/
theorem redirected_window {w : Window} {here : Place} (hat : w.At here)
    (hc : (w.call, w.entry) ∈ calls)
    (h : ∀ d ∈ calls, d.1.callee.start = w.call.callee.start → d = (w.call, w.entry))
    (armed : Bool) (rest : List Piece) :
    redirected q calls 0 (tokensFrom here armed (w.pieces ++ rest)) =
      w.lead.toList.filterMap Piece.kind? ++ openKinds q (w.call, w.entry) ++
        redirected q calls 0 (tokensFrom (here.after (Piece.joined w.pieces)) false rest) := by
  have hcallee := fun (here : Place) (armed : Bool) (hstart : here.offset = w.call.callee.start) =>
    redirected_callee (q := q) hat.gap₁ hat.gap₂ hat.gap₃ hstart hc h armed rest
  have hstart := hat.start
  cases hl : w.lead with
  | none =>
    rw [hl] at hstart
    simpa [Window.pieces, hl] using hcallee here armed hstart.symm
  | some l =>
    -- a sticky token is no name
    rw [hl] at hstart
    have hsticky := hat.lead l (by rw [hl]; rfl)
    obtain ⟨kind, rfl⟩ := exists_token_of_isSticky hsticky
    have hkind : ∀ name, kind ≠ .ident name := by
      rintro name rfl
      exact Bool.false_ne_true hsticky
    have hbehind : (here.after kind.text.toList).offset = w.call.callee.start := by
      rw [hstart]
      simp [Piece.text]
    have hpieces : w.pieces ++ rest =
        .token kind :: (w.callee ++ .token (.operator .lparen) :: rest) := by
      simp [Window.pieces, hl]
    have hhere : here.after (Piece.joined w.pieces) = (here.after kind.text.toList).after
        (Piece.joined (w.callee ++ [.token (.operator .lparen)])) := by
      rw [← Place.after_append]
      simp [Window.pieces, hl, Piece.text]
    rw [hpieces, tokensFrom_token, redirected_cons_of_not, hcallee _ _ hbehind, hhere]
    · rfl
    · exact fun c _ => not_beginsAt_of_kind hkind c

/-- The end of the file is copied, and a semicolon in front of it. -/
theorem redirected_ended (q : String) (calls : List (CallSite × String)) (here : Place)
    (armed : Bool) : redirected q calls 0 (tokensFrom here armed []) = redirectedFrom q armed [] := by
  have hend : ∀ span, redirected q calls 0 [⟨.eof, span⟩] = [.eof] := fun span =>
    redirected_cons_of_not fun c _ => not_beginsAt_of_kind (by simp) c
  cases armed with
  | false => exact hend _
  | true =>
    refine (redirected_cons_of_not fun c _ => not_beginsAt_of_kind (by simp [insertedSemi]) c).trans ?_
    exact congrArg _ (hend _)

/-- A piece is copied if no call begins where it stands. -/
theorem redirected_plain {p : Piece} {here : Place}
    (h : ∀ c ∈ calls, c.1.callee.start ≠ here.offset)
    (ih : ∀ armed, redirected q calls 0 (tokensFrom (here.after p.text) armed (piecesOf segs)) =
      redirectedFrom q armed segs) (armed : Bool) :
    redirected q calls 0 (tokensFrom here armed (piecesOf (.plain p :: segs))) =
      redirectedFrom q armed (.plain p :: segs) := by
  rw [piecesOf_plain]
  rcases p.token_or with ⟨kind, rfl⟩ | ht
  · rw [tokensFrom_token, redirected_cons_of_not]
    · exact congrArg _ (ih _)
    · intro c hc
      simp [beginsAt, Place.spanTo, (h c hc).symm]
  · rw [tokensFrom_other _ _ ht, redirectedFrom_other _ ht]
    split
    · rw [redirected_cons_of_not fun c _ => not_beginsAt_of_kind (by simp [insertedSemi]) c]
      exact congrArg _ (ih _)
    · exact ih _

/-- **The redirected tokens of segments**, if the calls are theirs and those in front of them. -/
theorem redirected_segments {here : Place} {around : List Delimiter} {rest : List Char}
    (hp : Placed here around segs) (hr : Row (piecesOf segs) rest)
    (hmem : ∀ c ∈ sitesOf segs, c ∈ calls)
    (hcalls : ∀ c ∈ calls, c.1.callee.start < here.offset ∨ c ∈ sitesOf segs) (armed : Bool) :
    redirected q calls 0 (tokensFrom here armed (piecesOf segs)) = redirectedFrom q armed segs := by
  induction segs generalizing here around armed with
  | nil => exact redirected_ended ..
  | cons s segs ih =>
    cases s with
    | plain p =>
      -- the next call stands behind this piece
      have hpos : 0 < byteSize p.text := by
        obtain ⟨c, t, ht⟩ := List.exists_cons_of_ne_nil hr.1.text_ne_nil
        have := Char.utf8Size_pos c
        rw [ht, byteSize]
        omega
      have hoff := Place.offset_after here p.text
      have hlater := fun c => le_start_of_mem (c := c) hp.2
      refine redirected_plain (fun c hc => ?_) (ih hp.2 hr.2 hmem fun c hc => ?_) armed
      · rcases hcalls c hc with h | h
        · omega
        · have := hlater c h
          omega
      · exact (hcalls c hc).imp_left fun h => by omega
    | window w =>
      have hfirst : here.offset ≤ w.call.callee.start :=
        le_start_of_mem (c := (w.call, w.entry)) hp (by simp)
      obtain ⟨hat, -, -, hp⟩ := hp
      -- the calls that are left stand behind this window
      have hbehind : w.call.callee.start < (here.after (Piece.joined w.pieces)).offset := by
        have := byteSize_replaced_pos w
        rw [hat.start, joined_pieces, Place.after_append, Place.offset_after _ w.replaced]
        exact Nat.lt_add_of_pos_right this
      have hlater := fun c => le_start_of_mem (c := c) hp
      rw [piecesOf_window, redirected_window hat (hmem _ (by simp))]
      · rw [ih hp (row_append.1 hr).2 fun c hc => hmem c (by simp [hc])]
        · rfl
        · intro c hc
          rcases hcalls c hc with h | h
          · exact .inl (by omega)
          · rw [sitesOf_window, List.mem_cons] at h
            exact h.imp_left fun h => by rw [h]; exact hbehind
      · intro d hd hstart
        rcases hcalls d hd with h | h
        · omega
        · rw [sitesOf_window, List.mem_cons] at h
          refine h.resolve_right fun h => ?_
          have := hlater d h
          omega

/-! ### The tokens of the new pieces -/

/-- Whether the new callees are scanned as they should be, and no line ends between the parenthesis
of a call without arguments and the token behind it. -/
def Sound (q : String) : List Segment → Prop
  | [] => True
  | .plain _ :: segs => Sound q segs
  | .window w :: segs =>
    (scan (w.region q)).1 = w.lead.toList ++ calleePieces q w.entry ∧
      (w.call.args = [] →
        ∀ p ∈ (piecesOf segs).takeWhile (!·.isToken), p.breaksLine = false) ∧
      Sound q segs

theorem sound_iff : Sound q segs ↔ ∀ front w behind, segs = front ++ .window w :: behind →
    (scan (w.region q)).1 = w.lead.toList ++ calleePieces q w.entry ∧
      (w.call.args = [] →
        ∀ p ∈ (piecesOf behind).takeWhile (!·.isToken), p.breaksLine = false) := by
  induction segs with
  | nil => simp [Sound]
  | cons s segs ih =>
    have later : (∀ front w behind, s :: segs = front ++ .window w :: behind →
          (scan (w.region q)).1 = w.lead.toList ++ calleePieces q w.entry ∧
            (w.call.args = [] →
              ∀ p ∈ (piecesOf behind).takeWhile (!·.isToken), p.breaksLine = false)) →
        Sound q segs :=
      fun h => ih.2 fun front w behind hs => h (s :: front) w behind (by rw [hs, List.cons_append])
    constructor
    · intro h front w behind hs
      cases front with
      | nil =>
        obtain ⟨rfl, rfl⟩ := List.cons.inj hs
        exact ⟨h.1, h.2.1⟩
      | cons s' front =>
        refine ih.1 ?_ front w behind (List.cons.inj hs).2
        cases s with
        | plain p => exact h
        | window w => exact h.2.2
    · intro h
      cases s with
      | plain p => exact later h
      | window w =>
        obtain ⟨hregion, hbreaks⟩ := h [] w segs rfl
        exact ⟨hregion, hbreaks, later h⟩

/-- Two lists are the same if they are so in front of a first mark and behind it. -/
theorem append_mark_inj {α : Type} {a : α} {front front' behind behind' : List α}
    (h : a ∉ front) (h' : a ∉ front') :
    front ++ a :: behind = front' ++ a :: behind' ↔ front = front' ∧ behind = behind' := by
  induction front generalizing front' with
  | nil =>
    cases front' with
    | nil => simp
    | cons b front' => simp_all
  | cons b front ih =>
    cases front' with
    | nil => simp_all [eq_comm]
    | cons c front' =>
      have ih := ih (fun hm => h (by simp [hm])) fun hm : a ∈ front' => h' (by simp [hm])
      simp [ih, and_assoc]

/-- Behind a parenthesis of a call without arguments the next token is no semicolon. -/
theorem redirectedFrom_closes (h : Closes segs) :
    ∃ kind ks, redirectedFrom q false segs = kind :: ks ∧ kind ≠ .operator .semi := by
  induction segs with
  | nil => exact h.elim
  | cons s segs ih =>
    cases s with
    | window w => exact h.elim
    | plain p =>
      rcases p.token_or with ⟨kind, rfl⟩ | ht
      · refine ⟨kind, _, rfl, ?_⟩
        have hk : kind = .operator .rparen ∨ kind = .operator .comma := h
        rcases hk with rfl | rfl <;> simp
      · have hcloses : Closes segs := by
          cases p <;> first | exact h | simp [Piece.isToken] at ht
        rw [redirectedFrom_other _ ht, Bool.false_and, if_neg Bool.false_ne_true]
        exact ih hcloses

/-- **Behind a receiver that is passed alone** a line break inserts a semicolon. -/
theorem kindsFrom_closes (h : Closes segs) :
    kindsFrom true (freshOf q segs) = redirectedFrom q false segs ↔
      (∀ p ∈ (piecesOf segs).takeWhile (!·.isToken), p.breaksLine = false) ∧
        kindsFrom false (freshOf q segs) = redirectedFrom q false segs := by
  induction segs with
  | nil => exact h.elim
  | cons s segs ih =>
    cases s with
    | window w => exact h.elim
    | plain p =>
      rw [freshOf_plain, piecesOf_plain]
      rcases p.token_or with ⟨kind, rfl⟩ | ht
      · rw [List.takeWhile_cons_of_neg (by simp [Piece.isToken])]
        simp [kindsFrom_token]
      · have hcloses : Closes segs := by
          cases p <;> first | exact h | simp [Piece.isToken] at ht
        rw [List.takeWhile_cons_of_pos (by simp [ht]), kindsFrom_other _ ht, kindsFrom_other _ ht,
          redirectedFrom_other _ ht, List.forall_mem_cons, Bool.true_and, Bool.false_and,
          if_neg Bool.false_ne_true, if_neg Bool.false_ne_true]
        cases hb : p.breaksLine with
        | false =>
          rw [if_neg Bool.false_ne_true, ih hcloses]
          simp
        | true =>
          -- the semicolon stands in front of what closes the call
          obtain ⟨kind, ks, hks, hne⟩ := redirectedFrom_closes (q := q) hcloses
          rw [if_pos rfl, hks]
          simp [hne.symm]

/-- The pieces of a window's region are those of the new callee behind the lead if its tokens are. -/
theorem region_iff {w : Window} (hs : ∀ c ∈ w.region q, isSoft c = true)
    (hq : ∀ c ∈ q.toList, isSoft c = true) (hl : ∀ p ∈ w.lead, p.isSticky = true) :
    textKinds (w.region q) = w.lead.toList.filterMap Piece.kind? ++ calleeKinds q w.entry ↔
      (scan (w.region q)).1 = w.lead.toList ++ calleePieces q w.entry := by
  have hlead : w.lead.toList = (w.lead.toList.filterMap Piece.kind?).map Piece.token := by
    cases h : w.lead with
    | none => rfl
    | some l =>
      have hsticky := hl l (by rw [h]; rfl)
      cases l <;> first | rfl | exact absurd hsticky Bool.false_ne_true
  have hcallee : calleePieces q w.entry = (calleeKinds q w.entry).map Piece.token := by
    simp [calleePieces, calleeKinds, scan_soft hq]
  have hinj : Function.Injective (List.map Piece.token) :=
    List.map_injective_iff.2 fun _ _ h => by simpa using h
  rw [scan_soft hs, hcallee]
  conv_rhs => rw [hlead, ← List.map_append]
  exact hinj.eq_iff.symm

theorem lparen_not_mem {ks : List TokenKind} (h : ∀ kind ∈ ks, kind.isPlain = true) :
    .operator .lparen ∉ ks := fun hm => absurd (h _ hm) (by decide)

theorem plain_of_mem_calleeKinds {entry : String} (hq : ∀ c ∈ q.toList, isSoft c = true) :
    ∀ kind ∈ calleeKinds q entry, kind.isPlain = true := by
  intro kind hk
  rcases List.mem_append.1 hk with hk | hk
  · exact plain_of_mem_textKinds hq kind hk
  · have : kind = .operator .dot ∨ kind = .ident entry := by simpa using hk
    rcases this with rfl | rfl <;> rfl

theorem plain_of_mem_lead {l : Option Piece} (h : ∀ p ∈ l, p.isSticky = true) :
    ∀ kind ∈ l.toList.filterMap Piece.kind?, kind.isPlain = true := by
  intro kind hk
  obtain ⟨p, hp, hkind⟩ := List.mem_filterMap.1 hk
  cases p <;> simp [Piece.kind?] at hkind
  subst hkind
  exact allPlain_of_lead h _ hp

/-- The tokens of a window in its new pieces. -/
theorem kindsFrom_window {w : Window} (hsoft : ∀ c ∈ w.region q, isSoft c = true) (armed : Bool) :
    kindsFrom armed (freshOf q (.window w :: segs)) =
      textKinds (w.region q) ++ .operator .lparen :: .ident w.call.receiver ::
        if w.call.args.isEmpty then kindsFrom true (freshOf q segs)
        else .operator .comma :: kindsFrom false (freshOf q segs) := by
  obtain ⟨armed', hfront⟩ := kindsFrom_tokens (textKinds (w.region q)) armed
    (.token (.operator .lparen) :: (w.receiver ++ freshOf q segs))
  rw [freshOf_window, Window.fresh, w.passing_eq, List.append_assoc, List.cons_append,
    scan_soft hsoft, hfront, kindsFrom_token, Window.receiver]
  split <;> rfl

theorem redirectedFrom_window (q : String) (w : Window) (segs : List Segment) (armed : Bool) :
    redirectedFrom q armed (.window w :: segs) =
      (w.lead.toList.filterMap Piece.kind? ++ calleeKinds q w.entry) ++
        .operator .lparen :: .ident w.call.receiver ::
          if w.call.args.isEmpty then redirectedFrom q false segs
          else .operator .comma :: redirectedFrom q false segs := by
  rw [redirectedFrom, openKinds]
  split <;> simp

/-- **The tokens of the new pieces** are the redirected ones if the segments are sound. -/
theorem kindsFrom_fresh_iff (hq : ∀ c ∈ q.toList, isPathChar c = true)
    (he : ∀ s ∈ sitesOf segs, IsName s.2) {here : Place} {around : List Delimiter}
    (hp : Placed here around segs) {rest : List Char} (hr : Row (piecesOf segs) rest)
    (armed : Bool) :
    kindsFrom armed (freshOf q segs) = redirectedFrom q armed segs ↔ Sound q segs := by
  induction segs generalizing here around armed with
  | nil => simp [redirectedFrom, Sound]
  | cons s segs ih =>
    cases s with
    | plain p =>
      have ih := ih he hp.2 hr.2
      rw [freshOf_plain]
      rcases p.token_or with ⟨kind, rfl⟩ | ht
      · rw [kindsFrom_token, redirectedFrom, List.cons_inj_right, ih]
        rfl
      · rw [kindsFrom_other _ ht, redirectedFrom_other _ ht]
        split
        · rw [List.cons_inj_right, ih]
          rfl
        · rw [ih]
          rfl
    | window w =>
      obtain ⟨hat, -, hcloses, hp⟩ := hp
      rw [piecesOf_window, row_append] at hr
      have hname : IsName w.entry := he (w.call, w.entry) (by simp)
      have hsoft := isSoft_of_mem_region hq hname.forall_mem hat hr.1
      have hqsoft : ∀ c ∈ q.toList, isSoft c = true := fun c hc =>
        isSoft_of_isPathChar (hq c hc)
      have ih := ih (fun s hs => he s (by simp [hs])) hp hr.2
      -- no parenthesis stands in front of that of the call, so both rows are cut there
      have hmark : .operator .lparen ∉ w.lead.toList.filterMap Piece.kind? ++
          calleeKinds q w.entry := by
        refine lparen_not_mem fun kind hk => ?_
        rcases List.mem_append.1 hk with hk | hk
        · exact plain_of_mem_lead hat.lead kind hk
        · exact plain_of_mem_calleeKinds hqsoft kind hk
      rw [kindsFrom_window hsoft, redirectedFrom_window,
        append_mark_inj (lparen_not_mem (plain_of_mem_textKinds hsoft)) hmark,
        region_iff hsoft hqsoft hat.lead, List.cons_inj_right, Sound]
      refine and_congr_right fun _ => ?_
      cases hargs : w.call.args with
      | nil =>
        rw [List.isEmpty_nil, if_pos rfl, if_pos rfl, kindsFrom_closes (hcloses hargs), ih]
        simp
      | cons a args =>
        rw [List.isEmpty_cons, if_neg Bool.false_ne_true, if_neg Bool.false_ne_true,
          List.cons_inj_right, ih]
        simp

end

/-! ### Sources -/

variable {path : Path} {source : String} {file : SourceFile} {sdk : Instrumentation}
  {head : Head} {segs : List Segment}

/-- Calls that stand apart and are unbroken are legible and sound. -/
theorem apart_iff_sound (hf : SourceFile.parse path source = .ok file) (hn : Named sdk)
    (hp : PlainPath sdk.importPath) (hl : Layout file sdk head segs) :
    (∀ c ∈ Patch.targets file sdk, Apart source (qualifier file sdk) c ∧ Unbroken source c) ↔
      Legible (qualifier file sdk) segs ∧ Sound (qualifier file sdk) segs := by
  have hq := pathChar_of_qualifier hf hn hp
  obtain ⟨-, rfl, -⟩ := parse_eq_ok hf
  have hname : ∀ {front : List Segment} {w : Window} {behind : List Segment},
      segs = front ++ .window w :: behind → (w.call, w.entry) ∈ sitesOf segs := by
    rintro front w behind rfl
    exact mem_sitesOf.2 ⟨w, by simp, rfl⟩
  constructor
  · intro h
    -- each call is a window of the layout, and what is asked of it is asked of its window
    have hwindow : ∀ front w behind, segs = front ++ .window w :: behind →
        scan (w.region (qualifier file sdk)) =
          (w.lead.toList ++ calleePieces (qualifier file sdk) w.entry, none) ∧
        (w.call.args = [] →
          ∀ p ∈ (piecesOf behind).takeWhile (!·.isToken), p.breaksLine = false) := by
      intro front w behind hs
      obtain ⟨hapart, hunbroken⟩ := h _ (hl.sites.subset (hname hs))
      have hentry : IsName w.entry := name_of_entry hn hl _ (hname hs)
      subst hs
      exact ⟨(hl.apart_iff hq hentry).1 hapart, hl.unbroken_iff.1 hunbroken⟩
    refine ⟨fun w hw => ?_, sound_iff.2 fun front w behind hs => ?_⟩
    · obtain ⟨front, behind, hs⟩ := List.append_of_mem hw
      rw [(hwindow front w behind hs).1]
    · obtain ⟨hregion, hbreaks⟩ := hwindow front w behind hs
      exact ⟨by rw [hregion], hbreaks⟩
  · rintro ⟨hlegible, hsound⟩ c hc
    obtain ⟨w, hw, rfl⟩ := mem_sitesOf.1 (hl.sites.symm.subset hc)
    obtain ⟨front, behind, hs⟩ := List.append_of_mem hw
    obtain ⟨hregion, hbreaks⟩ := sound_iff.1 hsound front w behind hs
    have hentry : IsName w.entry := name_of_entry hn hl _ (hname hs)
    have hfault := hlegible w hw
    subst hs
    exact ⟨(hl.apart_iff hq hentry).2 (Prod.ext hregion hfault), hl.unbroken_iff.2 hbreaks⟩

/-- The tokens of a source behind its package clause, with its calls redirected. -/
theorem changedKinds_eq (hf : SourceFile.parse path source = .ok file)
    (hl : Layout file sdk head segs) {tokens : List Token} (hlex : lex source = .ok tokens)
    {ks : List TokenKind} (hkinds : tokens.map Token.kind = clauseKinds file.package ++ ks) :
    ∃ ks', redirectedFrom (qualifier file sdk) head.semi.isNone segs = head.semiKinds ++ ks' ∧
      changedKinds file sdk tokens = clauseKinds file.package ++
        ((prepared file sdk none).addedImports.flatMap importKinds ++ ks') := by
  obtain ⟨-, hsource, -⟩ := parse_eq_ok hf
  obtain ⟨keyword, name, semi, rest, hlex', hsemi, htokens⟩ := hl.tokens
  rw [hsource, hlex] at hlex'
  obtain rfl : tokens = keyword :: name :: semi :: rest := by simpa using hlex'
  have hredirected := redirected_segments (q := qualifier file sdk) hl.placed hl.row_segs
    hl.sites.subset (fun c hc => .inr (hl.sites.symm.subset hc)) head.semi.isNone
  refine ⟨redirected (qualifier file sdk) (Patch.targets file sdk) 0 rest, ?_, ?_⟩
  · rw [← hredirected, htokens, Head.semiKinds]
    split
    · rw [redirected_cons_of_not, hsemi]
      · rfl
      · exact fun c _ => not_beginsAt_of_kind (by simp [hsemi]) c
    · rfl
  · have hclause := congrArg (List.take 3) hkinds
    rw [List.take_append_of_le_length (by simp [clauseKinds])] at hclause
    rw [changedKinds, List.map_take, hclause]
    rfl

/-- **The tokens of a changed source.** It is there, and its tokens are those of the source with its
calls redirected and the added imports behind the package clause, exactly if every new callee stands
apart from what is in front of it and every call without arguments is unbroken. -/
theorem redirected_iff {path : Path} {source : String} {file : SourceFile} {sdk : Instrumentation}
    (hf : SourceFile.parse path source = .ok file) (hn : Named sdk)
    (hp : PlainPath sdk.importPath) :
    ∃ tokens, lex source = .ok tokens ∧
      ((∃ text tokens', (prepared file sdk none).emit = .ok text ∧ lex text = .ok tokens' ∧
          tokens'.map Token.kind = changedKinds file sdk tokens) ↔
        ∀ c ∈ Patch.targets file sdk,
          Apart source (qualifier file sdk) c ∧ Unbroken source c) := by
  obtain ⟨head, segs, hl⟩ := exists_layout sdk hf
  have hq := pathChar_of_qualifier hf hn hp
  have hnames := name_of_entry hn hl
  have he : Suited file none := nofun
  obtain ⟨-, hsource, tokens, _, _, _, _, _, hlex, -⟩ := parse_eq_ok hf
  refine ⟨tokens, hlex, ?_⟩
  rw [apart_iff_sound hf hn hp hl]
  -- the tokens of a legible patch are those that are asked for if it is sound
  have hmade : Legible (qualifier file sdk) segs → ∃ text tokens',
      (prepared file sdk none).emit = .ok text ∧ lex text = .ok tokens' ∧
        (tokens'.map Token.kind = changedKinds file sdk tokens ↔
          Sound (qualifier file sdk) segs) := by
    intro hlegible
    obtain ⟨text, _, _, _, hemit, hscan, -⟩ := emit_of_legible hf hn hp he hl hlegible nofun
    obtain ⟨tokens₁, ks, ks', hlex₁, hkinds, -, -, hfresh, -⟩ := exists_woven hl hq hnames hlegible
    rw [hsource, hlex] at hlex₁
    obtain rfl : tokens = tokens₁ := by simpa using hlex₁
    rw [tailPieces, List.append_nil] at hscan
    obtain ⟨tokens', hlex', hkinds'⟩ := lex_of_scan hscan
    rw [kinds_changed file.package hl.before hl.gap hl.semi _ hfresh] at hkinds'
    obtain ⟨ks'', hredirected, hchanged⟩ := changedKinds_eq hf hl hlex hkinds
    refine ⟨text, tokens', hemit, hlex', ?_⟩
    rw [hkinds', hchanged, List.append_cancel_left_eq, List.append_cancel_left_eq,
      ← kindsFrom_fresh_iff hq hnames hl.placed hl.row_segs head.semi.isNone, hfresh,
      hredirected, List.append_cancel_left_eq]
  constructor
  · rintro ⟨text, tokens', hemit, hlex', hkinds⟩
    have hlegible := (legible_of_emit hf hn hp he hl hemit).1
    obtain ⟨text₁, tokens₁, hemit₁, hlex₁, hiff⟩ := hmade hlegible
    rw [hemit] at hemit₁
    obtain rfl : text = text₁ := by simpa using hemit₁
    rw [hlex'] at hlex₁
    obtain rfl : tokens' = tokens₁ := by simpa using hlex₁
    exact ⟨hlegible, hiff.1 hkinds⟩
  · rintro ⟨hlegible, hsound⟩
    obtain ⟨text, tokens', hemit, hlex', hiff⟩ := hmade hlegible
    exact ⟨text, tokens', hemit, hlex', hiff.2 hsound⟩

/-- A call without arguments whose parentheses stand on two lines. -/
def brokenCall : String :=
  "package p\n\nimport \"testing\"\n\nfunc TestMain(m *testing.M) \x7b\n\tm.Run(\n\t)\n\x7d\n"

/-- The line break behind the receiver that is passed inserts a semicolon. -/
theorem not_redirected_of_brokenCall :
    ∃ file tokens, SourceFile.parse ⟨"a_test.go"⟩ brokenCall = .ok file ∧ Named .default ∧
      PlainPath Instrumentation.default.importPath ∧ lex brokenCall = .ok tokens ∧
      ¬∃ text tokens', (prepared file .default none).emit = .ok text ∧ lex text = .ok tokens' ∧
        tokens'.map Token.kind = changedKinds file .default tokens := by
  obtain ⟨file, hf, -, hbroken⟩ := exists_parsed
    (by decide +kernel : (SourceFile.parse ⟨"a_test.go"⟩ brokenCall).toOption.any (fun file =>
      ¬∀ c ∈ Patch.targets file .default,
        Apart brokenCall (qualifier file .default) c ∧ Unbroken brokenCall c) = true)
  obtain ⟨tokens, hlex, hiff⟩ := redirected_iff hf named_default plainPath_default
  exact ⟨file, tokens, hf, named_default, plainPath_default, hlex, fun h => hbroken (hiff.1 h)⟩

end TestWeave.Change
