import TestWeave.Proofs.Woven

/-!
# The tokens of a changed source

Behind the package clause stand the tokens of the added imports, then those of the new pieces, and
at the end those of a suite entry.

* `kinds_changed`: the tokens up to the end of the segments.
* `kindsFrom_break`: what is appended on a line of its own adds its tokens in front of the end.
-/

namespace TestWeave.Source

open TestWeave.Text TestWeave.Change

/-! ### Pieces without tokens -/

/-- Pieces without tokens are passed over, unless a line break ends a statement among them. -/
theorem tokensFrom_gap {ps : List Piece} (hb : Blank ps) {armed : Bool}
    (hi : armed = true → Inline ps) (here : Place) (rest : List Piece) :
    tokensFrom here armed (ps ++ rest) =
      tokensFrom (here.after (Piece.joined ps)) armed rest := by
  induction ps generalizing here with
  | nil => simp
  | cons p ps ih =>
    obtain ⟨hp, hps⟩ := List.forall_mem_cons.1 hb
    have ih := ih hps (fun ha q hq => hi ha q (List.mem_cons_of_mem _ hq)) (here.after p.text)
    have hnot : (armed && p.breaksLine) = false := by
      cases armed with
      | false => rfl
      | true => exact (hi rfl p List.mem_cons_self).2
    rw [List.cons_append, tokensFrom_other _ _ hp, hnot, if_neg Bool.false_ne_true, ih,
      joined_cons, Place.after_append]

theorem kindsFrom_gap {ps : List Piece} (hb : Blank ps) {armed : Bool}
    (hi : armed = true → Inline ps) (rest : List Piece) :
    kindsFrom armed (ps ++ rest) = kindsFrom armed rest := by
  rw [← kinds_tokensFrom .origin, tokensFrom_gap hb hi, kinds_tokensFrom]

/-! ### The package clause and the imports -/

/-- The tokens of the package clause. -/
def clauseKinds (package : String) : List TokenKind :=
  [.keyword .kwPackage, .ident package, .operator .semi]

/-- The tokens of an added import, a path and a name. -/
def importKinds (a : String × String) : List TokenKind :=
  [.keyword .kwImport, .ident a.2, pathLiteral a.1, .operator .semi]

/-- The semicolon of the package clause, if the source does not spell it. -/
def Head.semiKinds (head : Head) : List TokenKind :=
  if head.semi.isNone then [.operator .semi] else []

theorem kindsFrom_importPieces (explicitSemi : Bool) (a : String × String) (rest : List Piece) :
    kindsFrom (!explicitSemi) (importPieces explicitSemi a ++ rest) =
      (if explicitSemi then importKinds a
        else .operator .semi :: (importKinds a).dropLast) ++ kindsFrom (!explicitSemi) rest := by
  cases explicitSemi <;> rfl

theorem kindsFrom_importsPieces (explicitSemi : Bool) (adds : List (String × String))
    (rest : List Piece) :
    kindsFrom (!explicitSemi) (importsPieces explicitSemi adds ++ rest) =
      (adds.flatMap fun a => if explicitSemi then importKinds a
        else .operator .semi :: (importKinds a).dropLast) ++ kindsFrom (!explicitSemi) rest := by
  induction adds with
  | nil => rfl
  | cons a adds ih =>
    rw [importsPieces, List.flatMap_cons, List.append_assoc, kindsFrom_importPieces]
    rw [importsPieces] at ih
    rw [ih, List.flatMap_cons, List.append_assoc]

/-- A semicolon behind imports that begin with one: it ends each of them. -/
theorem flatMap_rotate (adds : List (String × String)) (ks : List TokenKind) :
    (adds.flatMap fun a => .operator .semi :: (importKinds a).dropLast) ++ .operator .semi :: ks =
      .operator .semi :: (adds.flatMap importKinds ++ ks) := by
  induction adds with
  | nil => rfl
  | cons a adds ih =>
    rw [List.flatMap_cons, List.flatMap_cons, List.append_assoc, ih]
    rfl

theorem kindsFrom_head {head : Head} (package : String) (hb : Blank head.before)
    (hg : Blank head.gap) (hs : ∀ gap ∈ head.semi, Inline gap) (rest : List Piece) :
    kindsFrom false (head.pieces package ++ rest) =
      .keyword .kwPackage :: .ident package ::
        ((if head.semi.isSome then [.operator .semi] else []) ++
          kindsFrom head.semi.isNone rest) := by
  have hpieces : head.pieces package ++ rest =
      head.before ++ (.token (.keyword .kwPackage) :: (head.gap ++
        (.token (.ident package) :: (head.closing ++ rest)))) := by
    simp [Head.pieces, Head.clause]
  rw [hpieces, kindsFrom_gap hb (by simp), kindsFrom_token]
  change _ :: kindsFrom false _ = _
  rw [kindsFrom_gap hg (by simp), kindsFrom_token]
  change _ :: _ :: kindsFrom true _ = _
  cases hsemi : head.semi with
  | none => simp [Head.closing, hsemi]
  | some gap =>
    have hclosing : head.closing ++ rest = gap ++ (.token (.operator .semi) :: rest) := by
      simp [Head.closing, hsemi]
    have hinline := hs gap (by rw [hsemi]; rfl)
    rw [hclosing, kindsFrom_gap hinline.blank (fun _ => hinline), kindsFrom_token]
    rfl

/-- **The tokens of a changed source** up to the end of its segments: those of the package clause,
of the added imports and of what follows. -/
theorem kinds_changed {head : Head} (package : String) (hb : Blank head.before)
    (hg : Blank head.gap) (hs : ∀ gap ∈ head.semi, Inline gap) (adds : List (String × String))
    {rest : List Piece} {ks : List TokenKind}
    (hr : kindsFrom head.semi.isNone rest = head.semiKinds ++ ks) :
    kindsFrom false (head.pieces package ++ importsPieces head.semi.isSome adds ++ rest) =
      clauseKinds package ++ (adds.flatMap importKinds ++ ks) := by
  rw [List.append_assoc, kindsFrom_head package hb hg hs]
  cases hsemi : head.semi with
  -- a semicolon that is not spelled is inserted at the line break in front of each import
  | none =>
    have himports := kindsFrom_importsPieces false adds rest
    rw [Head.semiKinds, hsemi] at hr
    simp only [Option.isNone_none, if_true, List.singleton_append] at hr
    simp only [Bool.not_false, Bool.false_eq_true, if_false] at himports
    simp only [Option.isSome_none, Option.isNone_none, Bool.false_eq_true, if_false,
      List.nil_append]
    rw [himports, hr, flatMap_rotate]
    rfl
  | some gap =>
    have himports := kindsFrom_importsPieces true adds rest
    rw [Head.semiKinds, hsemi] at hr
    simp only [Option.isNone_some, Bool.false_eq_true, if_false, List.nil_append] at hr
    simp only [Bool.not_true, if_true] at himports
    simp only [Option.isSome_some, Option.isNone_some, if_true]
    rw [himports, hr]
    rfl

/-! ### The end of the source -/

/-- **What is appended on a line of its own** adds its tokens in front of the end of the file. -/
theorem kindsFrom_break {ps : List Piece} {rest : List Char} (h : Row ps rest) (armed : Bool) :
    ∃ ks, kindsFrom armed ps = ks ++ [.eof] ∧ (∀ kind ∈ ks, kind ≠ .eof) ∧
      ∀ more, kindsFrom armed (ps ++ .lineBreak :: more) = ks ++ kindsFrom false more := by
  induction ps generalizing armed with
  | nil =>
    refine ⟨if armed then [.operator .semi] else [], rfl, ?_, fun more => ?_⟩
    · cases armed <;> simp
    · cases armed <;> rfl
  | cons p ps ih =>
    rcases p.token_or with ⟨kind, rfl⟩ | ht
    · obtain ⟨ks, he, hk, hm⟩ := ih h.2 kind.endsStatement
      refine ⟨kind :: ks, by rw [kindsFrom_token, he]; rfl, ?_, fun more => ?_⟩
      · refine List.forall_mem_cons.2 ⟨?_, hk⟩
        -- a piece has a text, and the end of the file has none
        rintro rfl
        exact h.1.text_ne_nil rfl
      · rw [List.cons_append, kindsFrom_token, hm]
        rfl
    · by_cases hb : (armed && p.breaksLine) = true
      · obtain ⟨ks, he, hk, hm⟩ := ih h.2 false
        refine ⟨.operator .semi :: ks, ?_, List.forall_mem_cons.2 ⟨by simp, hk⟩, fun more => ?_⟩
        · rw [kindsFrom_other _ ht, if_pos hb, he]
          rfl
        · rw [List.cons_append, kindsFrom_other _ ht, if_pos hb, hm]
          rfl
      · obtain ⟨ks, he, hk, hm⟩ := ih h.2 armed
        refine ⟨ks, ?_, hk, fun more => ?_⟩
        · rw [kindsFrom_other _ ht, if_neg hb, he]
        · rw [List.cons_append, kindsFrom_other _ ht, if_neg hb, hm]

/-! ### The suite entry -/

/-- The token of a piece. -/
def Piece.kind? : Piece → Option TokenKind
  | .token kind => some kind
  | _ => none

/-- The tokens of a text that is made of tokens alone. -/
def textKinds (s : List Char) : List TokenKind := (scan s).1.filterMap Piece.kind?

/-- The pieces of a soft text are its tokens. -/
theorem scan_soft {s : List Char} (hs : ∀ c ∈ s, isSoft c = true) :
    (scan s).1 = (textKinds s).map Piece.token := by
  have hplain := plain_of_soft hs
  unfold textKinds
  generalize (scan s).1 = ps at hplain
  induction ps with
  | nil => rfl
  | cons p ps ih =>
    obtain ⟨⟨kind, rfl, -⟩, hps⟩ := List.forall_mem_cons.1 hplain
    exact congrArg (Piece.token kind :: ·) (ih hps)

theorem plain_of_mem_textKinds {s : List Char} (hs : ∀ c ∈ s, isSoft c = true) :
    ∀ kind ∈ textKinds s, kind.isPlain = true := by
  intro kind hk
  refine allPlain_of_soft hs kind ?_
  rw [scan_soft hs]
  exact List.mem_map_of_mem hk

/-- Tokens in front of pieces. -/
theorem kindsFrom_tokens (kinds : List TokenKind) (armed : Bool) (rest : List Piece) :
    ∃ armed', kindsFrom armed (kinds.map Piece.token ++ rest) = kinds ++ kindsFrom armed' rest := by
  induction kinds generalizing armed with
  | nil => exact ⟨armed, rfl⟩
  | cons kind kinds ih =>
    obtain ⟨armed', ih⟩ := ih kind.endsStatement
    refine ⟨armed', ?_⟩
    rw [List.map_cons, List.cons_append, kindsFrom_token, ih, List.cons_append]

end TestWeave.Source
