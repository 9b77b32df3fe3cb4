import TestWeave.Proofs.Forest
import TestWeave.Proofs.Rows

/-!
# Texts of names, numbers and paths

A called function is spelled `qualifier.entry`. The qualifier may be the last part of any import
path, so such a text is soft: it is made of the characters of words and of a few operators. It is
followed by a parenthesis, and may stand directly behind a number or a sign.

* `Reads.exists_token_of_soft`: soft pieces are tokens, and none of them is a delimiter.
* `scan_soft_append`, `scan_append_fault`: up to a parenthesis a soft text is scanned as if it stood
  alone.
* `Reads.before_soft`: a piece in front of a word ends in front of a soft text too, unless it is
  sticky.
-/

namespace TestWeave.Source

open TestWeave.Text

/-- The characters of words, numbers and import paths, the slash apart, and of what may stand in
front of them without a blank. -/
def isSoft (c : Char) : Bool := isIdentPart c || ['.', '-', '~', '+', '<'].contains c

/-- Whether a piece may run into a soft text behind it: a number, a minus or a less-than sign. -/
def Piece.isSticky : Piece → Bool
  | .token (.literal .string _) | .token (.literal .rune _) => false
  | .token (.literal _ _) => true
  | .token (.operator .minus) | .token (.operator .lt) => true
  | _ => false

theorem isSoft_of_isIdentPart {c : Char} (h : isIdentPart c = true) : isSoft c = true := by
  simp [isSoft, h]

theorem isSoft_of_isNumberChar {c : Char} (h : isNumberChar c = true) : isSoft c = true := by
  by_cases hd : c = '.'
  · simp [isSoft, hd]
  · exact isSoft_of_isIdentPart (isIdentPart_of_isNumberChar h hd)

/-- Soft characters are told from marks by a finite check. -/
theorem not_isSoft_of_mem_marks {c : Char} (h : c ∈ marks) (hc : c ∉ ['.', '-', '~', '+', '<']) :
    isSoft c = false := by
  simp only [isSoft, not_isIdentPart_of_mem_marks h, Bool.false_or]
  simpa using hc

theorem paren_ne_of_isSoft {c : Char} (h : isSoft c = true) : c ≠ '(' := by
  rintro rfl
  rw [not_isSoft_of_mem_marks (by decide) (by decide)] at h
  exact Bool.false_ne_true h

theorem numberKind_ne (cs : List Char) : numberKind cs ≠ .string ∧ numberKind cs ≠ .rune := by
  simp only [numberKind]
  split
  · simp
  split
  · simp
  split
  · split <;> simp
  split
  · simp
  split <;> simp

theorem isSticky_number (cs : List Char) (s : String) :
    (Piece.token (.literal (numberKind cs) s)).isSticky = true := by
  have := numberKind_ne cs
  cases h : numberKind cs <;> simp_all [Piece.isSticky]

/-! ### Pieces of soft texts -/

/-- Operators that begin softly hold no parenthesis. -/
theorem Operator.paren_notMem_of_soft (op : Operator)
    (h : ∀ c ∈ op.spelling.toList.head?, isSoft c = true) : '(' ∉ op.spelling.toList := by
  have : ∀ o ∈ Operator.all, '(' ∈ o.spelling.toList → o.spelling.toList.head? = some '(' := by
    decide
  intro hm
  exact paren_ne_of_isSoft (h _ (this op op.mem_all hm)) rfl

theorem isSoft_of_goesOn {hex : Bool} {last c : Char} (h : goesOn hex last c = true) :
    isSoft c = true := by
  simp only [goesOn, Bool.or_eq_true, Bool.and_eq_true, beq_iff_eq] at h
  rcases h with h | ⟨rfl | rfl, -⟩
  · exact isSoft_of_isNumberChar h
  · decide
  · decide

theorem isSoft_of_mem_numberBody (hex : Bool) (last : Char) (cs : List Char) :
    ∀ c ∈ (numberBody hex last cs).1, isSoft c = true := by
  fun_induction numberBody hex last cs with
  | case1 => simp
  | case2 last c cs hc text rest hb ih =>
    rw [hb] at ih
    simp only [List.mem_cons, forall_eq_or_imp]
    exact ⟨isSoft_of_goesOn hc, ih⟩
  | case3 => simp

theorem isSoft_of_mem_number {c : Char} {t : List Char} (hb : beginsNumber c t = true)
    (hn : numberBody (isHex (c :: t)) c t = (t, [])) : ∀ d ∈ c :: t, isSoft d = true := by
  have ht := isSoft_of_mem_numberBody (isHex (c :: t)) c t
  rw [hn] at ht
  simp only [List.mem_cons, forall_eq_or_imp]
  refine ⟨?_, ht⟩
  simp only [beginsNumber, Bool.or_eq_true, Bool.and_eq_true, beq_iff_eq] at hb
  rcases hb with hb | ⟨rfl, -⟩
  · exact isSoft_of_isNumberChar (isNumberChar_of_isDigit hb)
  · decide

theorem isSoft_of_mem_word {w : String} (hw : isIdentifier w = true) :
    ∀ c ∈ w.toList, isIdentPart c = true := by
  unfold isIdentifier at hw
  split at hw
  · simp at hw
  · rename_i c cs hc
    simp only [Bool.and_eq_true, List.all_eq_true] at hw
    rw [hc]
    simp only [List.mem_cons, forall_eq_or_imp]
    exact ⟨isIdentPart_of_isIdentStart hw.1, hw.2⟩

/-- A piece that begins softly holds no parenthesis. -/
theorem Reads.paren_notMem_of_soft {p : Piece} {rest : List Char} (h : Reads p rest)
    (hs : ∀ c ∈ p.text.head?, isSoft c = true) : '(' ∉ p.text := by
  have hard : ∀ c ∈ marks, c ∉ ['.', '-', '~', '+', '<'] → ¬isSoft c = true := fun c h1 h2 => by
    simp [not_isSoft_of_mem_marks h1 h2]
  cases h with
  | @blank c _ hc =>
    have : ∀ d, isSpacing d = true → d ∉ ['.', '-', '~', '+', '<'] := by
      intro d hd hm
      simp only [List.mem_cons, List.not_mem_nil, or_false] at hm
      rcases hm with rfl | rfl | rfl | rfl | rfl <;> exact absurd hd (by decide)
    exact absurd (hs c rfl) (hard c (mem_marks_of_isSpacing hc) (this c hc))
  | lineBreak => exact absurd (hs '\n' rfl) (hard _ (by decide) (by decide))
  | lineComment => exact absurd (hs '/' rfl) (hard _ (by decide) (by decide))
  | comment => exact absurd (hs '/' rfl) (hard _ (by decide) (by decide))
  | @word w _ hw _ =>
    simp only [Piece.text, wordKind_text]
    exact fun hm => paren_ne_of_isSoft (isSoft_of_isIdentPart (isSoft_of_mem_word hw _ hm)) rfl
  | @number c t _ hb hn _ =>
    simp only [Piece.text, TokenKind.text, String.toList_ofList]
    exact fun hm => paren_ne_of_isSoft (isSoft_of_mem_number hb hn _ hm) rfl
  | string =>
    exact absurd (hs '"' (by simp [Piece.text, TokenKind.text])) (hard _ (by decide) (by decide))
  | rawString =>
    exact absurd (hs '\x60' (by simp [Piece.text, TokenKind.text])) (hard _ (by decide) (by decide))
  | rune =>
    exact absurd (hs '\'' (by simp [Piece.text, TokenKind.text])) (hard _ (by decide) (by decide))
  | @operator op => exact op.paren_notMem_of_soft hs

theorem isPlain_wordKind (w : String) : (wordKind w).isPlain = true := by
  unfold wordKind
  split <;> rfl

/-- Soft pieces are tokens, and none of them is a delimiter. -/
theorem Reads.exists_token_of_soft {p : Piece} {rest : List Char} (h : Reads p rest)
    (hs : ∀ c ∈ p.text, isSoft c = true) : ∃ kind, p = .token kind ∧ kind.isPlain = true := by
  have hard : ∀ c ∈ marks, c ∉ ['.', '-', '~', '+', '<'] → ¬isSoft c = true := fun c h1 h2 => by
    simp [not_isSoft_of_mem_marks h1 h2]
  cases h with
  | @blank c _ hc =>
    simp only [isSpacing, Bool.or_eq_true, beq_iff_eq] at hc
    have := hs c (by simp [Piece.text])
    rcases hc with ((rfl | rfl) | rfl) | rfl <;> exact absurd this (hard _ (by decide) (by decide))
  | lineBreak => exact absurd (hs '\n' (by simp [Piece.text])) (hard _ (by decide) (by decide))
  | lineComment => exact absurd (hs '/' (by simp [Piece.text])) (hard _ (by decide) (by decide))
  | comment => exact absurd (hs '/' (by simp [Piece.text])) (hard _ (by decide) (by decide))
  | word => exact ⟨_, rfl, isPlain_wordKind _⟩
  | number => exact ⟨_, rfl, rfl⟩
  | string => exact ⟨_, rfl, rfl⟩
  | rawString => exact ⟨_, rfl, rfl⟩
  | rune => exact ⟨_, rfl, rfl⟩
  | @operator op =>
    refine ⟨_, rfl, ?_⟩
    have hall : ∀ o ∈ Operator.all, (TokenKind.operator o).isPlain = true ∨
        o.spelling.toList.any ['(', ')', '[', ']', '\x7b', '\x7d'].contains = true := by
      decide
    rcases hall op op.mem_all with h | h
    · exact h
    · obtain ⟨c, hc, hm⟩ := List.any_eq_true.1 h
      rw [List.contains_iff_mem] at hm
      refine absurd (hs c hc) (hard c (op.mem_marks hc) ?_)
      intro hm'
      simp only [List.mem_cons, List.not_mem_nil, or_false] at hm hm'
      rcases hm' with rfl | rfl | rfl | rfl | rfl <;> simp at hm

/-! ### What may follow a piece -/

/-- At the end of a text every piece ends. -/
theorem Reads.at_end {p : Piece} {rest : List Char} (h : Reads p rest) : Reads p [] := by
  cases h with
  | blank hc => exact .blank hc
  | lineBreak => exact .lineBreak
  | lineComment hb _ => exact .lineComment hb (by simp)
  | comment hb => exact .comment hb
  | word hw _ => exact .word hw (by simp)
  | number hb hn _ => exact .number hb hn (by simp)
  | string hq => exact .string hq
  | rawString hb => exact .rawString hb
  | rune ht hq => exact .rune ht hq
  | operator _ => exact .operator (.of_head (by simp) (by simp))

/-- A piece other than a comment ends where a mark stands that goes on with no operator. -/
theorem Reads.before_mark {p : Piece} {rest rest' : List Char} {c : Char} (h : Reads p rest)
    (hc : c ∈ marks) (ht : c ∉ Operator.tails) (hl : ∀ body, p ≠ .lineComment body) :
    Reads p (c :: rest') := by
  have hd : c ≠ '.' := by rintro rfl; exact ht (by decide)
  cases h with
  | blank hc => exact .blank hc
  | lineBreak => exact .lineBreak
  | lineComment => exact absurd rfl (hl _)
  | comment hb => exact .comment hb
  | word hw _ => exact .word hw (by simpa using not_isIdentPart_of_mem_marks hc)
  | number hb hn _ =>
    refine .number hb hn ?_
    have h1 : c ≠ '+' := by rintro rfl; exact ht (by decide)
    have h2 : c ≠ '-' := by rintro rfl; exact ht (by decide)
    simp [goesOn, not_isNumberChar_of_mem_marks hc hd, h1, h2]
  | string hq => exact .string hq
  | rawString hb => exact .rawString hb
  | rune ht hq => exact .rune ht hq
  | operator _ =>
    refine .operator (.of_head (by simpa using ht) fun _ => ?_)
    have : c.isDigit = false := by
      by_contra hn
      have := not_isNumberChar_of_mem_marks hc hd
      rw [isNumberChar_of_isDigit (eq_true_of_ne_false hn)] at this
      exact Bool.false_ne_true this.symm
    simpa using this

/-- **In front of a soft text.** A piece that ends where a word begins ends where any text of names
and paths begins, unless it is sticky or a dot. -/
theorem Reads.before_soft {p : Piece} {c d : Char} {rest rest' : List Char}
    (h : Reads p (c :: rest)) (hc : isIdentStart c = true) (hs : p.isSticky = false)
    (hp : p ≠ .token (.operator .dot)) (hd : isIdentPart d = true ∨ d ∈ ['.', '-', '~']) :
    Reads p (d :: rest') := by
  have hcm : c ∉ marks := not_mem_marks_of_isIdentPart (isIdentPart_of_isIdentStart hc)
  cases h with
  | blank hc => exact .blank hc
  | lineBreak => exact .lineBreak
  | lineComment _ hr =>
    obtain rfl : c = '\n' := by simpa using hr
    exact absurd (by decide) hcm
  | comment hb => exact .comment hb
  | @word w _ _ hr =>
    have hr : isIdentPart c = false := by simpa using hr
    rw [isIdentPart_of_isIdentStart hc] at hr
    exact absurd hr.symm Bool.false_ne_true
  | number => exact absurd hs (by simp [isSticky_number])
  | string hq => exact .string hq
  | rawString hb => exact .rawString hb
  | rune ht hq => exact .rune ht hq
  | @operator op =>
    refine .operator (.of_soft ?_ ?_ ?_ ?_)
    · rintro rfl; exact absurd hs (by decide)
    · rintro rfl; exact absurd hs (by decide)
    · rintro rfl; exact hp rfl
    · rcases hd with hd | hd
      · refine .inl fun ht => not_mem_marks_of_isIdentPart hd ?_
        exact Operator.mem_marks_of_mem_tails ht
      · simp only [List.mem_cons, List.not_mem_nil, or_false] at hd
        rcases hd with rfl | rfl | rfl
        · exact .inr (.inr rfl)
        · exact .inr (.inl rfl)
        · exact .inl (by decide)

/-- Brackets, the comma and the semicolon stand for themselves, whatever follows. -/
theorem Reads.of_alone {op : Operator} {rest : List Char}
    (h : ∀ o ∈ Operator.all, op.spelling.toList.head? = o.spelling.toList.head? → o = op)
    (hs : op ≠ .slash) (hd : op ≠ .dot) : Reads (.token (.operator op)) rest := by
  refine .operator ⟨?_, fun h => absurd h hs, fun h => absurd h hd⟩
  rw [Operator.longestIn_append_of_head, Operator.longestIn_self]
  rintro c - o ho
  have hne : op.spelling.toList ≠ [] := by simpa using op.spelling_ne_empty
  obtain ⟨d, t, ht⟩ := List.exists_cons_of_ne_nil hne
  have hh : op.spelling.toList.head? = o.spelling.toList.head? := by
    obtain ⟨s, hs⟩ := ho
    rw [← hs, ht]
    rfl
  rw [h o o.mem_all hh] at ho
  have := ho.length_le
  rw [List.length_append, List.length_singleton] at this
  omega

/-! ### Scanning a soft text -/

/-- The pieces of a soft text end where a parenthesis follows. -/
theorem row_soft {s rest : List Char} (hs : ∀ c ∈ s, isSoft c = true) (h : (scan s).2 = none) :
    Row (scan s).1 ('(' :: rest) := by
  have ht := scan_text h
  refine (row_of_scan h).replace ?_ fun p _ _ hp => by simp at hp
  intro p hp
  have hm : p ∈ (scan s).1 := List.mem_of_getLast? hp
  have hsp : ∀ c ∈ p.text, isSoft c = true := by
    intro c hc
    refine hs c ?_
    rw [← ht]
    exact List.mem_flatMap.2 ⟨p, hm, hc⟩
  obtain ⟨as, bs, hab⟩ := List.append_of_mem hm
  have hrow := row_of_scan h
  rw [hab, row_append] at hrow
  refine Reads.before_mark hrow.2.1 (by decide) (by decide) ?_
  rintro body rfl
  obtain ⟨kind, hk, -⟩ := hrow.2.1.exists_token_of_soft hsp
  exact Piece.noConfusion hk

/-- **A soft text up to a parenthesis** is scanned as if it stood alone. -/
theorem scan_soft_append {s rest : List Char} (hs : ∀ c ∈ s, isSoft c = true)
    (h : (scan s).2 = none) :
    scan (s ++ '(' :: rest) = ((scan s).1 ++ (scan ('(' :: rest)).1, (scan ('(' :: rest)).2) := by
  have hr : Row (scan s).1 ('(' :: rest) := row_soft hs h
  have := scan_row hr
  rwa [scan_text h] at this

/-- Where a parenthesis follows a soft text, the first piece lies within the text, and it reads the
same without the parenthesis. -/
theorem Row.first_soft {s rest : List Char} {p : Piece} {ps : List Piece} (hs : ∀ c ∈ s, isSoft c = true)
    (hne : s ≠ []) (hrow : Row (p :: ps) []) (ht : Piece.joined (p :: ps) = s ++ '(' :: rest) :
    ∃ s', s = p.text ++ s' ∧ Piece.joined ps = s' ++ '(' :: rest ∧ Reads p s' := by
  obtain ⟨c, s, rfl⟩ := List.exists_cons_of_ne_nil hne
  obtain ⟨d, t, hp⟩ := List.exists_cons_of_ne_nil hrow.1.text_ne_nil
  rw [joined_cons] at ht
  have hd : d = c := by
    rw [hp] at ht
    exact (List.cons.inj ht).1
  have hparen : '(' ∉ p.text := hrow.1.paren_notMem_of_soft (by
    rw [hp, hd]; simpa using hs c (by simp))
  obtain ⟨s', hs', hps⟩ : ∃ s', c :: s = p.text ++ s' ∧ Piece.joined ps = s' ++ '(' :: rest := by
    rcases List.append_eq_append_iff.1 ht with ⟨s', hs', hps⟩ | ⟨bs, hp', hbs⟩
    · exact ⟨s', hs', hps⟩
    · cases bs with
      | nil => exact ⟨[], by simpa using hp'.symm, by simpa using hbs.symm⟩
      | cons b bs =>
        have hb : b = '(' := (List.cons.inj hbs).1.symm
        exact absurd (by rw [hp', hb]; simp) hparen
  refine ⟨s', hs', hps, ?_⟩
  have hread := hrow.1
  rw [hps, List.append_nil] at hread
  cases s' with
  | nil => exact hread.at_end
  | cons e s' =>
    refine hread.congr rfl ?_
    rintro - hdot
    cases s' with
    | nil => simp at hdot
    | cons f s' => simpa using hdot

/-- **A fault in a soft text stays** where a parenthesis follows. -/
theorem scan_append_fault {s rest : List Char} (hs : ∀ c ∈ s, isSoft c = true)
    (h : (scan (s ++ '(' :: rest)).2 = none) : (scan s).2 = none := by
  -- induction on the length of `s`, a piece at a time
  generalize hn : s.length = n
  induction n using Nat.strong_induction_on generalizing s with
  | _ n ih =>
    by_cases hne : s = []
    · rw [hne]
      simp [scan]
    have hrow := row_of_scan h
    have htext := scan_text h
    cases hps : (scan (s ++ '(' :: rest)).1 with
    | nil => rw [hps] at htext; simp at htext
    | cons p ps =>
      rw [hps] at hrow htext
      obtain ⟨s', rfl, hps', hread⟩ := hrow.first_soft hs hne htext
      have hlen : s'.length < n := by
        have := List.length_pos_iff.2 hread.text_ne_nil
        rw [List.length_append] at hn
        omega
      rw [scan_cons_of_reads hread]
      refine ih _ hlen (fun d hd => hs d (List.mem_append_right _ hd)) ?_ rfl
      have hrest := scan_cons_of_reads hrow.1
      rw [List.append_nil, ← joined_cons, htext] at hrest
      rw [hrest, hps'] at h
      exact h

end TestWeave.Source
