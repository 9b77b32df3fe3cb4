import TestWeave.Proofs.Characters

/-!
# What is read at the head of a text

`Reads p rest` says, without the scanner, that the piece `p` is spelled as it should be and ends
where `rest` begins: a word where no character of a word follows, a number where nothing follows
that would go on with it, an operator where no longer one begins.

* `readPiece_iff`: the scanner cuts a piece off a text exactly if it reads so.
-/

namespace TestWeave.Source

open TestWeave.Text

/-- Whether a number whose last character is `last` goes on with `c`. -/
def goesOn (hex : Bool) (last c : Char) : Bool :=
  isNumberChar c || ((c == '+' || c == '-') && isExponentMark hex last)

/-- Whether an operator ends where `rest` begins. -/
structure Operator.EndsBefore (op : Operator) (rest : List Char) : Prop where
  longest : Operator.longestIn (op.spelling.toList ++ rest) = some op
  noComment : op = .slash → ∀ c ∈ rest.head?, c ≠ '/' ∧ c ≠ '*'
  noNumber : op = .dot → ∀ c ∈ rest.head?, c.isDigit = false

/-- The piece is spelled as it should be and ends where `rest` begins. -/
inductive Reads : Piece → List Char → Prop
  | blank {c rest} : isSpacing c = true → Reads (.blank c) rest
  | lineBreak {rest} : Reads .lineBreak rest
  | lineComment {body rest} : '\n' ∉ body → (∀ c ∈ rest.head?, c = '\n') →
      Reads (.lineComment body) rest
  | comment {body rest} : commentBody (body ++ ['*', '/']) = some (body, []) →
      Reads (.comment body) rest
  | word {w rest} : isIdentifier w = true → (∀ c ∈ rest.head?, isIdentPart c = false) →
      Reads (.token (wordKind w)) rest
  | number {c t rest} : beginsNumber c t = true → numberBody (isHex (c :: t)) c t = (t, []) →
      (∀ d ∈ rest.head?, goesOn (isHex (c :: t)) (t.getLastD c) d = false) →
      Reads (.token (.literal (numberKind (c :: t)) (String.ofList (c :: t)))) rest
  | string {t rest} : quotedBody '"' t = (t, some []) →
      Reads (.token (.literal .string (String.ofList ('"' :: t)))) rest
  | rawString {body rest} : '\x60' ∉ body →
      Reads (.token (.literal .string (String.ofList ('\x60' :: body ++ ['\x60'])))) rest
  | rune {t rest} : t.head? ≠ some '\'' → quotedBody '\'' t = (t, some []) →
      Reads (.token (.literal .rune (String.ofList ('\'' :: t)))) rest
  | operator {op rest} : op.EndsBefore rest → Reads (.token (.operator op)) rest

theorem Operator.mem_all (op : Operator) : op ∈ Operator.all := by cases op <;> decide

/-! ### Bodies that end themselves -/

theorem commentBody_self {cs body rest : List Char} (h : commentBody cs = some (body, rest)) :
    ∀ rest', commentBody (body ++ '*' :: '/' :: rest') = some (body, rest') := by
  fun_induction commentBody cs generalizing body with
  | case1 => simp at h
  | case2 => simp_all [commentBody]
  | case3 c cs hc ih =>
    intro rest'
    obtain ⟨⟨body', rest''⟩, hr, he⟩ := Option.map_eq_some_iff.1 h
    simp only [Prod.mk.injEq] at he
    obtain ⟨rfl, rfl⟩ := he
    have happ := commentBody_append hr
    rw [List.cons_append, commentBody, ih hr rest']
    · rfl
    · intro r h1 h2
      -- a star and a slash at the head would have ended the body
      cases body' with
      | nil => simp at h2
      | cons d body' =>
        simp only [List.cons_append, List.cons.injEq] at h2 happ
        exact hc _ h1 (by rw [← happ, h2.1])

theorem quotedBody_cons (quote c : Char) (cs : List Char) :
    quotedBody quote (c :: cs) =
      if c = '\n' then ([], none)
      else if c = quote then ([c], some cs)
      else if c = '\\' then
        match cs with
        | [] => ([c], none)
        | d :: ds =>
          if d = '\n' then ([c], none)
          else (c :: d :: (quotedBody quote ds).1, (quotedBody quote ds).2)
      else (c :: (quotedBody quote cs).1, (quotedBody quote cs).2) := by
  rewrite [quotedBody.eq_def]
  rfl

theorem quotedBody_self {quote : Char} {cs t rest : List Char}
    (h : quotedBody quote cs = (t, some rest)) :
    ∀ rest', quotedBody quote (t ++ rest') = (t, some rest') := by
  fun_induction quotedBody quote cs generalizing t with
  | case1 => simp at h
  | case2 => simp at h
  | case3 => intro rest'; obtain ⟨rfl, -⟩ := Prod.mk.inj h; simp_all [quotedBody_cons]
  | case4 => simp at h
  | case5 => simp at h
  | case6 => intro rest'; obtain ⟨rfl, h⟩ := Prod.mk.inj h; simp_all [quotedBody_cons]
  | case7 => intro rest'; obtain ⟨rfl, h⟩ := Prod.mk.inj h; simp_all [quotedBody_cons]

theorem numberBody_ends {hex : Bool} {last : Char} {cs t rest : List Char}
    (h : numberBody hex last cs = (t, rest)) :
    ∀ d ∈ rest.head?, goesOn hex (t.getLastD last) d = false := by
  fun_induction numberBody hex last cs generalizing t with
  | case1 => simp_all
  | case2 last c cs hc text rest' hb ih =>
    obtain ⟨rfl, rfl⟩ := Prod.mk.inj h
    rw [List.getLastD_cons]
    exact ih hb
  | case3 last c cs hc =>
    obtain ⟨rfl, rfl⟩ := Prod.mk.inj h
    simpa [goesOn] using hc

theorem numberBody_self {hex : Bool} {last : Char} {cs t rest : List Char}
    (h : numberBody hex last cs = (t, rest)) :
    ∀ rest', (∀ d ∈ rest'.head?, goesOn hex (t.getLastD last) d = false) →
      numberBody hex last (t ++ rest') = (t, rest') := by
  fun_induction numberBody hex last cs generalizing t with
  | case1 =>
    obtain ⟨rfl, -⟩ := Prod.mk.inj h
    intro rest' hr
    cases rest' with
    | nil => rfl
    | cons d rest' => simp_all [numberBody, goesOn]
  | case2 last c cs hc text rest'' hb ih =>
    obtain ⟨rfl, rfl⟩ := Prod.mk.inj h
    intro rest' hr
    rw [List.getLastD_cons] at hr
    simp [numberBody, hc, ih hb rest' hr]
  | case3 last c cs hc =>
    obtain ⟨rfl, -⟩ := Prod.mk.inj h
    intro rest' hr
    cases rest' with
    | nil => rfl
    | cons d rest' => simp_all [numberBody, goesOn]

/-! ### The scanner reads what is there -/

/-- What `goesOn` turns down is no character of numbers. -/
theorem not_isNumberChar_of_goesOn {hex : Bool} {last c : Char} (h : goesOn hex last c = false) :
    isNumberChar c = false := by
  simp only [goesOn, Bool.or_eq_false_iff] at h
  exact h.1

/-- The base of a number is seen in its own characters. -/
theorem isHex_append {c : Char} {t rest : List Char}
    (h : ∀ d ∈ rest.head?, isNumberChar d = false) :
    isHex (c :: (t ++ rest)) = isHex (c :: t) := by
  cases t with
  | cons d t => by_cases hc : c = '0' <;> simp [isHex, hc]
  | nil =>
    cases rest with
    | nil => rfl
    | cons d rest =>
      have hd := h d rfl
      have h1 : d ≠ 'x' := by rintro rfl; exact absurd hd (by decide)
      have h2 : d ≠ 'X' := by rintro rfl; exact absurd hd (by decide)
      by_cases hc : c = '0' <;> simp [isHex, hc, h1, h2]

theorem reads_number {c : Char} {cs t rest : List Char} (hb : beginsNumber c cs = true)
    (hn : numberBody (isHex (c :: cs)) c cs = (t, rest)) :
    Reads (.token (.literal (numberKind (c :: t)) (String.ofList (c :: t)))) rest := by
  have happ : t ++ rest = cs := by
    have := numberBody_append (isHex (c :: cs)) c cs
    rwa [hn] at this
  subst happ
  have hends := numberBody_ends hn
  have hx := isHex_append (c := c) (t := t) fun d hd => not_isNumberChar_of_goesOn (hends d hd)
  rw [hx] at hends hn
  refine .number ?_ ?_ hends
  · -- a dot alone would have gone on with the digit behind it
    simp only [beginsNumber, Bool.or_eq_true, Bool.and_eq_true, beq_iff_eq] at hb ⊢
    rcases hb with hb | ⟨rfl, hb⟩
    · exact .inl hb
    · cases t with
      | cons d t => exact .inr ⟨rfl, by simpa using hb⟩
      | nil =>
        cases rest with
        | nil => simp at hb
        | cons d rest =>
          have hd : d.isDigit = true := by simpa using hb
          have := hends d rfl
          simp [goesOn, isNumberChar_of_isDigit hd] at this
  · have := numberBody_self hn []
    simpa using this

theorem reads_word {c : Char} {cs : List Char} (hc : isIdentStart c = true) :
    Reads (.token (wordKind (String.ofList (c :: cs.takeWhile isIdentPart))))
      (cs.dropWhile isIdentPart) := by
  refine .word ?_ fun d hd => eq_false_of_mem_head?_dropWhile hd
  simp only [isIdentifier, String.toList_ofList, hc, Bool.true_and, List.all_eq_true]
  exact fun d hd => List.mem_takeWhile_imp hd

theorem reads_of_readPiece {c : Char} {cs rest : List Char} {p : Piece}
    (h : readPiece c cs = .ok (p, rest)) : Reads p rest := by
  cases cutOff_of_readPiece h with
  | blank hc => exact .blank hc
  | lineBreak => exact .lineBreak
  | @lineComment ds =>
    refine .lineComment (fun hm => ?_) fun d hd => ?_
    · simpa using List.mem_takeWhile_imp hm
    · simpa using eq_false_of_mem_head?_dropWhile hd
  | comment _ _ hbody => exact .comment (commentBody_self hbody [])
  | word hc => exact reads_word hc
  | number hb hn => exact reads_number hb hn
  | string _ hq => exact .string (by simpa using quotedBody_self hq [])
  | rawString => exact .rawString fun hm => by simpa using List.mem_takeWhile_imp hm
  | rune _ hhead hq =>
    refine .rune (fun ht => hhead ?_) (by simpa using quotedBody_self hq [])
    rw [← quotedBody_append hq, List.head?_append, ht]
    rfl
  | @operator op hline hblock hnumber hop =>
    have happ := Operator.longestIn_append hop
    refine .operator ⟨by rw [happ]; exact hop, ?_, ?_⟩
    · rintro rfl d hd
      change '/' :: cs = c :: cs at happ
      change cs.head? = some d at hd
      obtain ⟨rfl, -⟩ := List.cons.inj happ
      constructor
      · rintro rfl; exact hline ⟨rfl, hd⟩
      · rintro rfl; exact hblock ⟨rfl, hd⟩
    · rintro rfl d hd
      change '.' :: cs = c :: cs at happ
      change cs.head? = some d at hd
      obtain ⟨rfl, -⟩ := List.cons.inj happ
      simpa [beginsNumber, hd] using hnumber

/-- The characters of an operator are marks. -/
theorem Operator.mem_marks (op : Operator) {c : Char} (h : c ∈ op.spelling.toList) : c ∈ marks := by
  have hall : ∀ o ∈ Operator.all, o.spelling.toList.all marks.contains = true := by decide
  simpa using List.all_eq_true.1 (hall op (Operator.mem_all op)) c h

/-- No operator begins like spacing, a line break or a quoted literal. -/
theorem Operator.plain (op : Operator) {c : Char} (h : c ∈ op.spelling.toList) :
    isSpacing c = false ∧ c ≠ '\n' ∧ c ≠ '"' ∧ c ≠ '\x60' ∧ c ≠ '\'' := by
  have hall : ∀ o ∈ Operator.all, o.spelling.toList.all
      (fun c => !isSpacing c && !(['\n', '"', '\x60', '\''].contains c)) = true := by decide
  simpa using List.all_eq_true.1 (hall op (Operator.mem_all op)) c h

theorem Operator.eq_of_slash (op : Operator) (h : op.spelling.toList.head? = some '/') :
    op = .slash ∨ op = .slashAssign := by
  have : ∀ o ∈ Operator.all, o.spelling.toList.head? = some '/' → o = .slash ∨ o = .slashAssign := by
    decide
  exact this op (Operator.mem_all op) h

theorem Operator.eq_of_dot (op : Operator) (h : op.spelling.toList.head? = some '.') :
    op = .dot ∨ op = .ellipsis := by
  have : ∀ o ∈ Operator.all, o.spelling.toList.head? = some '.' → o = .dot ∨ o = .ellipsis := by
    decide
  exact this op (Operator.mem_all op) h

theorem readPiece_mark {c : Char} {cs : List Char} (hs : isSpacing c = false) (hn : c ≠ '\n')
    (hl : ¬(c = '/' ∧ cs.head? = some '/')) (hb : ¬(c = '/' ∧ cs.head? = some '*'))
    (hm : c ∈ marks) (hd : beginsNumber c cs = false) :
    readPiece c cs =
      if c = '"' then readQuoted .string .stringOpen '"' cs
      else if c = '\x60' then
        match cs.dropWhile (· != '\x60') with
        | _ :: rest =>
          .ok (.token (.literal .string
            (String.ofList ('\x60' :: cs.takeWhile (· != '\x60') ++ ['\x60']))), rest)
        | [] => .error ⟨.rawStringOpen, c :: cs⟩
      else if c = '\'' then
        if cs.head? = some '\'' then .error ⟨.runeEmpty, ['\'', '\'']⟩
        else readQuoted .rune .runeOpen '\'' cs
      else
        match Operator.longestIn (c :: cs) with
        | some op => .ok (.token (.operator op), (c :: cs).drop op.spelling.length)
        | none => .error ⟨.invalidChar c, [c]⟩ := by
  have hi := not_isIdentStart_of_mem_marks hm
  unfold readPiece
  rewrite [if_neg (by simp [hs]), if_neg hn, if_neg hl, if_neg hb, if_neg (by simp [hi]),
    if_neg (by simp [hd])]
  rfl

theorem readPiece_word {c : Char} {cs : List Char} (h : isIdentStart c = true) :
    readPiece c cs = .ok (.token (wordKind (String.ofList (c :: cs.takeWhile isIdentPart))),
      cs.dropWhile isIdentPart) := by
  have hm : c ∉ marks := not_mem_marks_of_isIdentPart (isIdentPart_of_isIdentStart h)
  have hs : isSpacing c = false := by
    by_contra hc
    exact hm (mem_marks_of_isSpacing (eq_true_of_ne_false hc))
  have hn : c ≠ '\n' := by rintro rfl; exact hm (by decide)
  have hl : c ≠ '/' := by rintro rfl; exact hm (by decide)
  unfold readPiece
  rw [if_neg (by simp [hs]), if_neg hn, if_neg (by simp [hl]), if_neg (by simp [hl]), if_pos h]

theorem readPiece_number {c : Char} {cs : List Char} (h : beginsNumber c cs = true) :
    readPiece c cs = .ok (.token (.literal (numberKind (c :: (numberBody (isHex (c :: cs)) c cs).1))
        (String.ofList (c :: (numberBody (isHex (c :: cs)) c cs).1))),
      (numberBody (isHex (c :: cs)) c cs).2) := by
  have hc : c.isDigit = true ∨ c = '.' := by
    simp only [beginsNumber, Bool.or_eq_true, Bool.and_eq_true, beq_iff_eq] at h
    exact h.imp id And.left
  have hi : isIdentStart c = false := by
    by_contra hi
    have hi := eq_true_of_ne_false hi
    rcases hc with hc | rfl
    · exact absurd (isDigit_of_isIdentStart hi) (by simp [hc])
    · exact absurd hi (by decide)
  -- no spacing, line break or slash is a digit or a dot
  have ne : ∀ d, d.isDigit = false → d ≠ '.' → c ≠ d := by
    rintro d h1 h2 rfl
    exact hc.elim (by simp [h1]) h2
  have hs : isSpacing c = false := by
    simp [isSpacing, ne ' ' rfl (by decide), ne '\t' rfl (by decide), ne '\r' rfl (by decide),
      ne '\uFEFF' rfl (by decide)]
  have hl := ne '/' rfl (by decide)
  unfold readPiece
  rw [if_neg (by simp [hs]), if_neg (ne '\n' rfl (by decide)), if_neg (by simp [hl]),
    if_neg (by simp [hl]), if_neg (by simp [hi]), if_pos h]

/-- An operator that ends where `rest` begins opens no comment. -/
theorem Operator.EndsBefore.not_comment {op : Operator} {c d : Char} {t rest : List Char}
    (h : op.EndsBefore rest) (hop : op.spelling.toList = c :: t) (hd : d = '/' ∨ d = '*') :
    ¬(c = '/' ∧ (t ++ rest).head? = some d) := by
  rintro ⟨rfl, hr⟩
  rcases op.eq_of_slash (by simp [hop]) with rfl | rfl
  · obtain rfl : t = [] := by simpa [Operator.spelling] using hop.symm
    have := h.noComment rfl d hr
    exact hd.elim this.1 this.2
  · obtain rfl : t = ['='] := by simpa [Operator.spelling] using hop.symm
    simp at hr
    rcases hd with rfl | rfl <;> simp at hr

/-- An operator that ends where `rest` begins is not read as a number. -/
theorem Operator.EndsBefore.not_number {op : Operator} {c : Char} {t rest : List Char}
    (h : op.EndsBefore rest) (hop : op.spelling.toList = c :: t) :
    beginsNumber c (t ++ rest) = false := by
  have hc : c.isDigit = false := by
    by_contra hc
    have hmark : c ∈ marks := op.mem_marks (by simp [hop])
    exact not_mem_marks_of_isIdentPart (isIdentPart_of_isAlphanum
      (by simp [Char.isAlphanum, eq_true_of_ne_false hc])) hmark
  by_cases hdot : c = '.'
  · subst hdot
    rcases op.eq_of_dot (by simp [hop]) with rfl | rfl
    · obtain rfl : t = [] := by simpa [Operator.spelling] using hop.symm
      cases rest with
      | nil => rfl
      | cons d rest => simp [beginsNumber, h.noNumber rfl d rfl]
    · obtain rfl : t = ['.', '.'] := by simpa [Operator.spelling] using hop.symm
      rfl
  · simp [beginsNumber, hc, hdot]

theorem readPiece_operator {op : Operator} {c : Char} {t rest : List Char}
    (h : op.EndsBefore rest) (hop : op.spelling.toList = c :: t) :
    readPiece c (t ++ rest) = .ok (.token (.operator op), rest) := by
  have hm : c ∈ op.spelling.toList := by simp [hop]
  obtain ⟨hs, hn, h1, h2, h3⟩ := op.plain hm
  have hlongest := h.longest
  rw [hop, List.cons_append] at hlongest
  have hdrop : (c :: (t ++ rest)).drop op.spelling.length = rest := by
    rw [← List.cons_append, ← hop, ← String.length_toList, List.drop_left]
  rw [readPiece_mark hs hn (h.not_comment hop (.inl rfl)) (h.not_comment hop (.inr rfl))
    (op.mem_marks hm) (h.not_number hop), if_neg h1, if_neg h2, if_neg h3, hlongest]
  change Except.ok (_, (c :: (t ++ rest)).drop op.spelling.length) = _
  rw [hdrop]

theorem readPiece_of_reads {p : Piece} {rest : List Char} (h : Reads p rest) :
    ∃ c t, p.text = c :: t ∧ readPiece c (t ++ rest) = .ok (p, rest) := by
  -- each kind of piece is found by its first character, and ends where what follows says
  cases h with
  | @blank c _ hc => exact ⟨c, [], rfl, by simp [readPiece, hc]⟩
  | lineBreak => exact ⟨'\n', [], rfl, rfl⟩
  | @lineComment body _ hb hr =>
    refine ⟨'/', '/' :: body, rfl, ?_⟩
    have hb : ∀ d ∈ body, (d != '\n') = true := fun d hd =>
      bne_iff_ne.2 (ne_of_mem_of_not_mem hd hb)
    have hr : ∀ d ∈ rest.head?, (d != '\n') = false := fun d hd => by simpa using hr d hd
    obtain ⟨h1, h2⟩ := takeWhile_of_ends hb hr
    change Except.ok (Piece.lineComment ((body ++ rest).takeWhile (· != '\n')),
      (body ++ rest).dropWhile (· != '\n')) = _
    rw [h1, h2]
  | @comment body _ hb =>
    refine ⟨'/', '*' :: body ++ ['*', '/'], rfl, ?_⟩
    have hs : isSpacing '/' = false := by decide
    simp [readPiece, hs, commentBody_self hb rest]
  | @word w _ hw hr =>
    unfold isIdentifier at hw
    split at hw
    · simp at hw
    rename_i c t ht
    simp only [Bool.and_eq_true, List.all_eq_true] at hw
    obtain ⟨h1, h2⟩ := takeWhile_of_ends hw.2 hr
    refine ⟨c, t, by simp [Piece.text, wordKind_text, ht], ?_⟩
    rw [readPiece_word hw.1, h1, h2, ← ht, String.ofList_toList]
  | @number c t _ hb hn hr =>
    refine ⟨c, t, by simp [Piece.text, TokenKind.text], ?_⟩
    have hx := isHex_append (c := c) (t := t) fun d hd => not_isNumberChar_of_goesOn (hr d hd)
    have hb' : beginsNumber c (t ++ rest) = true := by
      simp only [beginsNumber, Bool.or_eq_true, Bool.and_eq_true] at hb ⊢
      refine hb.imp id (And.imp id fun h => ?_)
      cases t with
      | nil => simp at h
      | cons d t => simpa using h
    rw [readPiece_number hb', hx, numberBody_self hn rest hr]
  | @string t _ hq =>
    refine ⟨'"', t, by simp [Piece.text, TokenKind.text], ?_⟩
    rw [readPiece_mark rfl (by decide) (by simp) (by simp) (by decide) rfl, if_pos rfl,
      readQuoted, quotedBody_self hq rest]
  | @rawString body _ hb =>
    refine ⟨'\x60', body ++ ['\x60'], by simp [Piece.text, TokenKind.text], ?_⟩
    have hb : ∀ d ∈ body, (d != '\x60') = true := fun d hd =>
      bne_iff_ne.2 (ne_of_mem_of_not_mem hd hb)
    have hr : ∀ d ∈ ('\x60' :: rest).head?, (d != '\x60') = false := by simp
    obtain ⟨h1, h2⟩ := takeWhile_of_ends hb hr
    rw [List.append_assoc, List.singleton_append, readPiece_mark rfl (by decide) (by simp)
      (by simp) (by decide) rfl, if_neg (by decide), if_pos rfl, h1, h2]
  | @rune t _ ht hq =>
    refine ⟨'\'', t, by simp [Piece.text, TokenKind.text], ?_⟩
    have ht : (t ++ rest).head? ≠ some '\'' := by
      cases t with
      | nil => simp [quotedBody] at hq
      | cons d t => simpa using ht
    rw [readPiece_mark rfl (by decide) (by simp) (by simp) (by decide) rfl, if_neg (by decide),
      if_neg (by decide), if_pos rfl, if_neg ht, readQuoted, quotedBody_self hq rest]
  | @operator op _ ho =>
    obtain ⟨c, t, hop⟩ := List.exists_cons_of_ne_nil
      (show op.spelling.toList ≠ [] by simpa using op.spelling_ne_empty)
    exact ⟨c, t, by simpa [Piece.text, TokenKind.text] using hop, readPiece_operator ho hop⟩

theorem readPiece_iff {c : Char} {cs rest : List Char} {p : Piece} :
    readPiece c cs = .ok (p, rest) ↔ c :: cs = p.text ++ rest ∧ Reads p rest := by
  constructor
  · intro h
    obtain ⟨t, ht, rfl⟩ := readPiece_text h
    exact ⟨by simp [ht], reads_of_readPiece h⟩
  · rintro ⟨h, hp⟩
    obtain ⟨d, t, ht, hr⟩ := readPiece_of_reads hp
    rw [ht, List.cons_append, List.cons.injEq] at h
    obtain ⟨rfl, rfl⟩ := h
    exact hr

end TestWeave.Source
