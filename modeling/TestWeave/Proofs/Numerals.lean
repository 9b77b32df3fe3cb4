import TestWeave.Proofs.Tokens

/-!
# The numbers of the language

The scanner reads a number as one run of characters, and tells its kind by the letters in it. The
grammar of numbers is finer: it knows the digits of each base, where underscores may stand, and which
exponent belongs to which base.

* `IntNumeral`, `FloatNumeral`, `Numeral`: the numbers, by the grammar.
* `Numeral.goesOn`: each of them is one run of characters.
* `numberKind_int`, `numberKind_float`: its letters tell the kind.
* `token_of_numeral`: each of them is read whole, with its kind, wherever it stands.
-/

namespace TestWeave.Source

open TestWeave.Text

/-! ### The grammar -/

/-- The digits of base two. -/
def binaryDigits : List Char := ['0', '1']

/-- The digits of base eight. -/
def octalDigits : List Char := binaryDigits ++ ['2', '3', '4', '5', '6', '7']

/-- The digits of base ten. -/
def decimalDigits : List Char := octalDigits ++ ['8', '9']

/-- The digits of base sixteen. -/
def hexDigits : List Char :=
  decimalDigits ++ ['a', 'b', 'c', 'd', 'e', 'f', 'A', 'B', 'C', 'D', 'E', 'F']

/-- One or more of some digits, with at most one underscore between two of them. -/
inductive Digits (digits : List Char) : List Char → Prop
  | last {d} : d ∈ digits → Digits digits [d]
  | next {d cs} : d ∈ digits → Digits digits cs → Digits digits (d :: cs)
  | spaced {d cs} : d ∈ digits → Digits digits cs → Digits digits (d :: '_' :: cs)

/-- Digits behind the mark of their base. An underscore may stand between the two. -/
inductive MarkedDigits (digits : List Char) : List Char → Prop
  | plain {cs} : Digits digits cs → MarkedDigits digits cs
  | spaced {cs} : Digits digits cs → MarkedDigits digits ('_' :: cs)

/-- The integers. -/
inductive IntNumeral : List Char → Prop
  | zero : IntNumeral ['0']
  | decimal {d cs} : d ≠ '0' → Digits decimalDigits (d :: cs) → IntNumeral (d :: cs)
  | binary {m cs} : m ∈ ['b', 'B'] → MarkedDigits binaryDigits cs → IntNumeral ('0' :: m :: cs)
  | octal {m cs} : m ∈ ['o', 'O'] → MarkedDigits octalDigits cs → IntNumeral ('0' :: m :: cs)
  /-- Octal as it was written before it had a mark of its own. -/
  | oldOctal {cs} : MarkedDigits octalDigits cs → IntNumeral ('0' :: cs)
  | hex {m cs} : m ∈ ['x', 'X'] → MarkedDigits hexDigits cs → IntNumeral ('0' :: m :: cs)

/-- An exponent behind one of some marks. -/
inductive Exponent (marks : List Char) : List Char → Prop
  | unsigned {m cs} : m ∈ marks → Digits decimalDigits cs → Exponent marks (m :: cs)
  | signed {m s cs} : m ∈ marks → s ∈ ['+', '-'] → Digits decimalDigits cs →
      Exponent marks (m :: s :: cs)

/-- What stands in front of the exponent of base sixteen. -/
inductive HexMantissa : List Char → Prop
  | pointed {whole fraction} : MarkedDigits hexDigits whole →
      fraction = [] ∨ Digits hexDigits fraction → HexMantissa (whole ++ '.' :: fraction)
  | whole {cs} : MarkedDigits hexDigits cs → HexMantissa cs
  | fraction {cs} : Digits hexDigits cs → HexMantissa ('.' :: cs)

/-- The numbers of base ten with a floating point. -/
inductive DecimalFloat : List Char → Prop
  | pointed {whole fraction exponent} : Digits decimalDigits whole →
      fraction = [] ∨ Digits decimalDigits fraction →
      exponent = [] ∨ Exponent ['e', 'E'] exponent →
      DecimalFloat (whole ++ '.' :: (fraction ++ exponent))
  | scaled {whole exponent} : Digits decimalDigits whole → Exponent ['e', 'E'] exponent →
      DecimalFloat (whole ++ exponent)
  | fraction {fraction exponent} : Digits decimalDigits fraction →
      exponent = [] ∨ Exponent ['e', 'E'] exponent → DecimalFloat ('.' :: (fraction ++ exponent))

/-- The numbers with a floating point. -/
inductive FloatNumeral : List Char → Prop
  | decimal {cs} : DecimalFloat cs → FloatNumeral cs
  | hex {m mantissa exponent} : m ∈ ['x', 'X'] → HexMantissa mantissa →
      Exponent ['p', 'P'] exponent → FloatNumeral ('0' :: m :: (mantissa ++ exponent))

/-- The numbers. One that is imaginary ends in a letter of its own, and the digits in front of it are
decimal even if they begin with a zero. -/
inductive Numeral : List Char → Prop
  | int {cs} : IntNumeral cs → Numeral cs
  | float {cs} : FloatNumeral cs → Numeral cs
  | imaginary {cs} : Digits decimalDigits cs ∨ IntNumeral cs ∨ FloatNumeral cs →
      Numeral (cs ++ ['i'])

/-- The kind of a number. -/
inductive KindOf (cs : List Char) : LiteralKind → Prop
  | imaginary : cs.getLast? = some 'i' → KindOf cs .imaginary
  | float : cs.getLast? ≠ some 'i' → FloatNumeral cs → KindOf cs .float
  | int : cs.getLast? ≠ some 'i' → ¬FloatNumeral cs → KindOf cs .int

/-! ### The characters of numbers -/

variable {cs ds digits marks : List Char} {hex : Bool} {last m : Char}

/-- What holds of the characters of a list is found by looking at these, and not at all there are. -/
theorem forall_of_all {p : Char → Prop} [DecidablePred p] (h : cs.all (fun c => p c) = true) :
    ∀ c ∈ cs, p c := by
  simpa using h

/-- The characters of numbers in base ten. -/
def decimalChars : List Char := decimalDigits ++ ['_', '.', 'e', 'E', '+', '-']

/-- The characters behind the mark of base sixteen. -/
def hexChars : List Char := hexDigits ++ ['_', '.', 'p', 'P', '+', '-']

theorem Digits.forall_mem (h : Digits digits cs) : ∀ c ∈ cs, c ∈ '_' :: digits := by
  induction h with
  | last hd => simpa using .inr hd
  | next hd _ ih => exact List.forall_mem_cons.2 ⟨List.mem_cons_of_mem _ hd, ih⟩
  | spaced hd _ ih =>
    exact List.forall_mem_cons.2 ⟨List.mem_cons_of_mem _ hd,
      List.forall_mem_cons.2 ⟨List.mem_cons_self, ih⟩⟩

theorem MarkedDigits.forall_mem (h : MarkedDigits digits cs) : ∀ c ∈ cs, c ∈ '_' :: digits := by
  cases h with
  | plain h => exact h.forall_mem
  | spaced h => exact List.forall_mem_cons.2 ⟨List.mem_cons_self, h.forall_mem⟩

theorem Digits.exists_head (h : Digits digits cs) : ∃ d t, cs = d :: t ∧ d ∈ digits := by
  cases h with
  | last hd | next hd _ | spaced hd _ => exact ⟨_, _, rfl, hd⟩

/-- The mark of an exponent is one of its characters. -/
theorem Exponent.exists_mark (h : Exponent marks cs) : ∃ m ∈ marks, m ∈ cs := by
  cases h with
  | unsigned hm _ | signed hm _ _ => exact ⟨_, hm, List.mem_cons_self⟩

theorem Exponent.forall_mem (h : Exponent marks cs) :
    ∀ c ∈ cs, c ∈ marks ++ ['+', '-'] ++ '_' :: decimalDigits := by
  have hdigits : ∀ {cs}, Digits decimalDigits cs →
      ∀ c ∈ cs, c ∈ marks ++ ['+', '-'] ++ '_' :: decimalDigits :=
    fun h c hc => List.mem_append_right _ (h.forall_mem c hc)
  cases h with
  | unsigned hm h => exact List.forall_mem_cons.2 ⟨by simp [hm], hdigits h⟩
  | signed hm hs h =>
    have hs := List.mem_append_right marks hs
    exact List.forall_mem_cons.2 ⟨by simp [hm],
      List.forall_mem_cons.2 ⟨List.mem_append_left _ hs, hdigits h⟩⟩

theorem HexMantissa.forall_mem (h : HexMantissa cs) : ∀ c ∈ cs, c ∈ hexChars := by
  have hsub : '_' :: hexDigits ⊆ hexChars := by decide
  have hdot : '.' ∈ hexChars := by decide
  cases h with
  | @pointed whole fraction hw hf =>
    have hf : ∀ c ∈ fraction, c ∈ hexChars := by
      rcases hf with rfl | hf
      · simp
      · exact fun c hc => hsub (hf.forall_mem c hc)
    exact List.forall_mem_append.2 ⟨fun c hc => hsub (hw.forall_mem c hc),
      List.forall_mem_cons.2 ⟨hdot, hf⟩⟩
  | whole h => exact fun c hc => hsub (h.forall_mem c hc)
  | fraction h => exact List.forall_mem_cons.2 ⟨hdot, fun c hc => hsub (h.forall_mem c hc)⟩

/-! ### One run of characters -/

/-- Whether a number whose last character is `last` goes on with all of some characters. -/
def GoesOn (hex : Bool) : Char → List Char → Prop
  | _, [] => True
  | last, c :: cs => goesOn hex last c = true ∧ GoesOn hex c cs

theorem GoesOn.numberBody_eq (h : GoesOn hex last cs) : numberBody hex last cs = (cs, []) := by
  induction cs generalizing last with
  | nil => rfl
  | cons c cs ih =>
    obtain ⟨hc, h⟩ := h
    unfold goesOn at hc
    simp [numberBody, hc, ih h]

theorem goesOn_append : GoesOn hex last (cs ++ ds) ↔
    GoesOn hex last cs ∧ GoesOn hex (cs.getLastD last) ds := by
  induction cs generalizing last with
  | nil => simp [GoesOn]
  | cons c cs ih => rw [List.cons_append, GoesOn, ih, ← and_assoc, ← GoesOn, List.getLastD_cons]

theorem goesOn_of_forall (h : ∀ c ∈ cs, isNumberChar c = true) (last : Char) :
    GoesOn hex last cs := by
  induction cs generalizing last with
  | nil => trivial
  | cons c cs ih =>
    obtain ⟨hc, h⟩ := List.forall_mem_cons.1 h
    exact ⟨by simp [goesOn, hc], ih h c⟩

theorem isNumberChar_of_mem_digits :
    ∀ c ∈ '_' :: '.' :: hexDigits ++ ['b', 'B', 'o', 'O', 'x', 'X'], isNumberChar c = true :=
  forall_of_all (by decide)

theorem Digits.goesOn (h : Digits decimalDigits cs) (last : Char) : GoesOn hex last cs := by
  have hsub : '_' :: decimalDigits ⊆ '_' :: '.' :: hexDigits ++ ['b', 'B', 'o', 'O', 'x', 'X'] := by
    decide
  exact goesOn_of_forall (fun c hc => isNumberChar_of_mem_digits c (hsub (h.forall_mem c hc))) last

/-- A sign goes on with a number behind the exponent mark of its base. -/
theorem Exponent.goesOn (h : Exponent marks cs)
    (hmarks : ∀ m ∈ marks, isNumberChar m = true ∧ isExponentMark hex m = true) (last : Char) :
    GoesOn hex last cs := by
  cases h with
  | @unsigned m _ hm h => exact ⟨by simp [Source.goesOn, (hmarks m hm).1], h.goesOn m⟩
  | @signed m s _ hm hs h =>
    have hsign : (s == '+' || s == '-') = true := by simpa using hs
    exact ⟨by simp [Source.goesOn, (hmarks m hm).1],
      by simp [Source.goesOn, hsign, (hmarks m hm).2], h.goesOn s⟩

theorem DecimalFloat.goesOn (h : DecimalFloat cs) (last : Char) : GoesOn false last cs := by
  have hexponent : ∀ {cs}, cs = [] ∨ Exponent ['e', 'E'] cs → ∀ last, GoesOn false last cs := by
    rintro cs (rfl | h) last
    · trivial
    · exact h.goesOn (forall_of_all (by decide)) last
  cases h with
  | pointed hw hf he =>
    refine goesOn_append.2 ⟨hw.goesOn _, rfl, goesOn_append.2 ⟨?_, hexponent he _⟩⟩
    rcases hf with rfl | hf
    · trivial
    · exact hf.goesOn _
  | scaled hw he => exact goesOn_append.2 ⟨hw.goesOn _, hexponent (.inr he) _⟩
  | fraction hf he => exact ⟨rfl, goesOn_append.2 ⟨hf.goesOn _, hexponent he _⟩⟩

/-- A number of base ten has the characters of that base, a point or an exponent among them. -/
theorem DecimalFloat.chars (h : DecimalFloat cs) :
    (∀ c ∈ cs, c ∈ decimalChars) ∧ ∃ m ∈ ['.', 'e', 'E'], m ∈ cs := by
  have hsub : '_' :: decimalDigits ⊆ decimalChars := by decide
  have hsub' : ['e', 'E'] ++ ['+', '-'] ++ '_' :: decimalDigits ⊆ decimalChars := by decide
  have hdot : '.' ∈ decimalChars := by decide
  have hdigits : ∀ {cs}, Digits decimalDigits cs → ∀ c ∈ cs, c ∈ decimalChars :=
    fun h c hc => hsub (h.forall_mem c hc)
  have hexponent : ∀ {cs}, cs = [] ∨ Exponent ['e', 'E'] cs → ∀ c ∈ cs, c ∈ decimalChars := by
    rintro cs (rfl | h)
    · simp
    · exact fun c hc => hsub' (h.forall_mem c hc)
  cases h with
  | @pointed _ fraction _ hw hf he =>
    have hf : ∀ c ∈ fraction, c ∈ decimalChars := by
      rcases hf with rfl | hf
      · simp
      · exact hdigits hf
    refine ⟨List.forall_mem_append.2 ⟨hdigits hw, List.forall_mem_cons.2 ⟨hdot, ?_⟩⟩,
      '.', by simp, by simp⟩
    exact List.forall_mem_append.2 ⟨hf, hexponent he⟩
  | scaled hw he =>
    obtain ⟨m, hm, hmem⟩ := he.exists_mark
    exact ⟨List.forall_mem_append.2 ⟨hdigits hw, hexponent (.inr he)⟩,
      m, List.mem_cons_of_mem _ hm, List.mem_append_right _ hmem⟩
  | fraction hf he =>
    exact ⟨List.forall_mem_cons.2 ⟨hdot, List.forall_mem_append.2 ⟨hdigits hf, hexponent he⟩⟩,
      '.', by simp, by simp⟩

theorem isHex_of_decimal (h : ∀ c ∈ cs, c ∈ decimalChars) : isHex cs = false := by
  have hchars : ∀ c ∈ decimalChars, c ≠ 'x' ∧ c ≠ 'X' :=
    forall_of_all (by decide)
  unfold isHex
  split
  · rename_i x cs
    obtain ⟨h1, h2⟩ := hchars x (h x (by simp))
    simp [h1, h2]
  · rfl

theorem isHex_of_mark (hm : m ∈ ['x', 'X']) (cs : List Char) : isHex ('0' :: m :: cs) = true := by
  simpa [isHex] using hm

/-- The letter of imaginary numbers marks no base. -/
theorem isHex_imaginary (cs : List Char) : isHex (cs ++ ['i']) = isHex cs := by
  match cs with
  | [] => rfl
  | [c] => by_cases hc : c = '0' <;> simp [isHex, hc]
  | c :: d :: cs => by_cases hc : c = '0' <;> simp [isHex, hc]

/-- Integers are spelled with the characters of digits, behind a mark or not. -/
theorem IntNumeral.isNumberChar (h : IntNumeral cs) : ∀ c ∈ cs, isNumberChar c = true := by
  have hdigits : ∀ {digits cs : List Char}, '_' :: digits ⊆ '_' :: hexDigits →
      (∀ c ∈ cs, c ∈ '_' :: digits) → ∀ c ∈ cs, Source.isNumberChar c = true := by
    intro digits cs hsub h c hc
    refine isNumberChar_of_mem_digits c (List.mem_append_left _ ?_)
    exact (List.cons_subset_cons _ (List.subset_cons_self ..)) (hsub (h c hc))
  have hmark : ∀ {marks cs : List Char} {m : Char}, marks ⊆ ['b', 'B', 'o', 'O', 'x', 'X'] →
      m ∈ marks → (∀ c ∈ cs, Source.isNumberChar c = true) →
      ∀ c ∈ '0' :: m :: cs, Source.isNumberChar c = true := by
    intro marks cs m hsub hm h
    exact List.forall_mem_cons.2 ⟨by decide, List.forall_mem_cons.2
      ⟨isNumberChar_of_mem_digits m (List.mem_append_right _ (hsub hm)), h⟩⟩
  cases h with
  | zero => exact forall_of_all (by decide)
  | decimal _ h => exact hdigits (by decide) h.forall_mem
  | binary hm h => exact hmark (by decide) hm (hdigits (by decide) h.forall_mem)
  | octal hm h => exact hmark (by decide) hm (hdigits (by decide) h.forall_mem)
  | oldOctal h => exact List.forall_mem_cons.2 ⟨by decide, hdigits (by decide) h.forall_mem⟩
  | hex hm h => exact hmark (by decide) hm (hdigits (by decide) h.forall_mem)

theorem FloatNumeral.goesOn (h : FloatNumeral cs) (last : Char) : GoesOn (isHex cs) last cs := by
  cases h with
  | decimal h =>
    rw [isHex_of_decimal h.chars.1]
    exact h.goesOn last
  | @hex m mantissa exponent hm hmantissa he =>
    rw [isHex_of_mark hm]
    have hnumber : ∀ c ∈ '0' :: ['x', 'X'], isNumberChar c = true :=
      forall_of_all (by decide)
    have hm := hnumber m (List.mem_cons_of_mem _ hm)
    refine ⟨rfl, by simp [Source.goesOn, hm],
      goesOn_append.2 ⟨?_, he.goesOn (forall_of_all (by decide)) _⟩⟩
    -- no sign stands in front of the exponent
    have hsub : '_' :: hexDigits ⊆ '_' :: '.' :: hexDigits ++ ['b', 'B', 'o', 'O', 'x', 'X'] := by
      decide
    have hdigits : ∀ {cs : List Char}, (∀ c ∈ cs, c ∈ '_' :: hexDigits) →
        ∀ last, GoesOn true last cs :=
      fun h => goesOn_of_forall fun c hc => isNumberChar_of_mem_digits c (hsub (h c hc))
    cases hmantissa with
    | pointed hw hf =>
      refine goesOn_append.2 ⟨hdigits hw.forall_mem _, rfl, ?_⟩
      rcases hf with rfl | hf
      · trivial
      · exact hdigits hf.forall_mem _
    | whole h => exact hdigits h.forall_mem _
    | fraction h => exact ⟨rfl, hdigits h.forall_mem _⟩

/-- **A number is one run of characters.** -/
theorem Numeral.goesOn (h : Numeral cs) (last : Char) : GoesOn (isHex cs) last cs := by
  cases h with
  | int h => exact goesOn_of_forall h.isNumberChar last
  | float h => exact h.goesOn last
  | imaginary h =>
    refine goesOn_append.2 ⟨?_, rfl, trivial⟩
    rw [isHex_imaginary]
    rcases h with h | h | h
    · exact h.goesOn last
    · exact goesOn_of_forall h.isNumberChar last
    · exact h.goesOn last

/-- A number begins with a digit, or with a point and a digit. -/
theorem Numeral.begins (h : Numeral cs) : ∃ c t, cs = c :: t ∧ beginsNumber c t = true := by
  have hdigit : ∀ d ∈ decimalDigits, d.isDigit = true := forall_of_all (by decide)
  -- each numeral begins with a digit, or with a dot and a digit
  have hdigits : ∀ {cs}, Digits decimalDigits cs →
      ∀ rest, ∃ c t, cs ++ rest = c :: t ∧ beginsNumber c t = true := by
    intro cs h rest
    obtain ⟨d, t, rfl, hd⟩ := h.exists_head
    exact ⟨d, t ++ rest, rfl, by simp [beginsNumber, hdigit d hd]⟩
  have hint : ∀ {cs}, IntNumeral cs →
      ∀ rest, ∃ c t, cs ++ rest = c :: t ∧ beginsNumber c t = true := by
    intro cs h rest
    cases h with
    | decimal _ h => exact hdigits h rest
    | _ => exact ⟨'0', _, rfl, rfl⟩
  have hfloat : ∀ {cs}, FloatNumeral cs →
      ∀ rest, ∃ c t, cs ++ rest = c :: t ∧ beginsNumber c t = true := by
    intro cs h rest
    cases h with
    | decimal h =>
      cases h with
      | pointed hw _ _ => rw [List.append_assoc]; exact hdigits hw _
      | scaled hw _ => rw [List.append_assoc]; exact hdigits hw _
      | fraction hf _ =>
        obtain ⟨d, t, rfl, hd⟩ := hf.exists_head
        exact ⟨'.', _, rfl, by simp [beginsNumber, hdigit d hd]⟩
    | hex => exact ⟨'0', _, rfl, rfl⟩
  cases h with
  | int h => simpa using hint h []
  | float h => simpa using hfloat h []
  | imaginary h =>
    rcases h with h | h | h
    · exact hdigits h _
    · exact hint h _
    · exact hfloat h _

/-! ### The kind -/

/-- A text without the letter of imaginary numbers is an integer or has a floating point. -/
theorem numberKind_of_forall (h : ∀ c ∈ cs, c.toLower ≠ 'i') :
    numberKind cs =
      if (cs.map Char.toLower).contains '.' then .float
      else if isHex cs then if (cs.map Char.toLower).contains 'p' then .float else .int
      else if ['0', 'b'].isPrefixOf (cs.map Char.toLower) ||
          ['0', 'o'].isPrefixOf (cs.map Char.toLower) then .int
      else if (cs.map Char.toLower).contains 'e' then .float
      else .int := by
  have hlast : (cs.map Char.toLower).getLast? ≠ some 'i' := by
    intro hlast
    obtain ⟨c, hc, hi⟩ := List.mem_map.1 (List.mem_of_getLast? hlast)
    exact h c hc hi
  unfold numberKind
  simp only
  rw [if_neg hlast]

theorem not_contains_lower {low : Char} (h : ∀ c ∈ cs, c.toLower ≠ low) :
    (cs.map Char.toLower).contains low = false := by
  simpa using h

theorem not_prefix_lower {low : Char} (h : ∀ c ∈ cs, c.toLower ≠ low) :
    ['0', low].isPrefixOf (cs.map Char.toLower) = false := by
  rw [← Bool.not_eq_true, List.isPrefixOf_iff_prefix]
  intro hp
  obtain ⟨c, hc, hlow⟩ := List.mem_map.1 (hp.subset (List.mem_cons_of_mem _ List.mem_cons_self))
  exact h c hc hlow

/-- Digits, in front of which the mark of base two or eight may stand, are an integer. -/
theorem numberKind_digits (h : ∀ c ∈ cs, c ∈ '_' :: decimalDigits ++ ['b', 'B', 'o', 'O']) :
    numberKind cs = .int := by
  have hlow : ∀ c ∈ '_' :: decimalDigits ++ ['b', 'B', 'o', 'O'],
      c.toLower ≠ 'i' ∧ c.toLower ≠ '.' ∧ c.toLower ≠ 'e' ∧ c ≠ 'x' ∧ c ≠ 'X' :=
    forall_of_all (by decide)
  have hhex : isHex cs = false := by
    unfold isHex
    split
    · rename_i x cs
      obtain ⟨-, -, -, h1, h2⟩ := hlow x (h x (by simp))
      simp [h1, h2]
    · rfl
  have hdot := not_contains_lower fun c hc => (hlow c (h c hc)).2.1
  have hexponent := not_contains_lower fun c hc => (hlow c (h c hc)).2.2.1
  rw [numberKind_of_forall fun c hc => (hlow c (h c hc)).1, hdot, hhex, hexponent]
  simp

/-- Characters of base ten with a point or an exponent have a floating point. -/
theorem numberKind_decimal (h : ∀ c ∈ cs, c ∈ decimalChars) (hm : ∃ m ∈ ['.', 'e', 'E'], m ∈ cs) :
    numberKind cs = .float := by
  have hlow : ∀ c ∈ decimalChars, c.toLower ≠ 'i' ∧ c.toLower ≠ 'b' ∧ c.toLower ≠ 'o' :=
    forall_of_all (by decide)
  have hbinary := not_prefix_lower fun c hc => (hlow c (h c hc)).2.1
  have hoctal := not_prefix_lower fun c hc => (hlow c (h c hc)).2.2
  have hmark : ∀ m ∈ ['.', 'e', 'E'], m.toLower = '.' ∨ m.toLower = 'e' := forall_of_all (by decide)
  rw [numberKind_of_forall fun c hc => (hlow c (h c hc)).1, isHex_of_decimal h, hbinary, hoctal]
  obtain ⟨m, hm, hmem⟩ := hm
  rcases hmark m hm with hm | hm
  · have hdot : (cs.map Char.toLower).contains '.' = true := by simpa using ⟨m, hmem, hm⟩
    rw [hdot]
    rfl
  · have hexponent : (cs.map Char.toLower).contains 'e' = true := by simpa using ⟨m, hmem, hm⟩
    rw [hexponent]
    split <;> rfl

/-- Behind the mark of base sixteen an exponent tells that there is a floating point. -/
theorem numberKind_hexFloat (hm : m ∈ ['x', 'X']) (h : ∀ c ∈ cs, c ∈ hexChars)
    (hp : ∃ p ∈ ['p', 'P'], p ∈ cs) : numberKind ('0' :: m :: cs) = .float := by
  have hlow : ∀ c ∈ ['0', 'x', 'X'] ++ hexChars, c.toLower ≠ 'i' := forall_of_all (by decide)
  have hmark : ∀ m ∈ ['x', 'X'], m ∈ ['0', 'x', 'X'] ++ hexChars := forall_of_all (by decide)
  have hall : ∀ c ∈ '0' :: m :: cs, c ∈ ['0', 'x', 'X'] ++ hexChars :=
    List.forall_mem_cons.2 ⟨by simp, List.forall_mem_cons.2 ⟨hmark m hm,
      fun c hc => List.mem_append_right _ (h c hc)⟩⟩
  have hexponent : (('0' :: m :: cs).map Char.toLower).contains 'p' = true := by
    have hpow : ∀ p ∈ ['p', 'P'], p.toLower = 'p' := forall_of_all (by decide)
    obtain ⟨p, hp, hmem⟩ := hp
    rw [List.contains_iff_mem, ← hpow p hp]
    exact List.mem_map_of_mem (by simp [hmem])
  rw [numberKind_of_forall fun c hc => hlow c (hall c hc), isHex_of_mark hm, hexponent]
  split <;> rfl

theorem numberKind_hexInt (hm : m ∈ ['x', 'X']) (h : ∀ c ∈ cs, c ∈ '_' :: hexDigits) :
    numberKind ('0' :: m :: cs) = .int := by
  have hlow : ∀ c ∈ ['0', 'x', 'X'] ++ '_' :: hexDigits,
      c.toLower ≠ 'i' ∧ c.toLower ≠ '.' ∧ c.toLower ≠ 'p' := forall_of_all (by decide)
  have hmark : ∀ m ∈ ['x', 'X'], m ∈ ['0', 'x', 'X'] ++ '_' :: hexDigits :=
    forall_of_all (by decide)
  have hall : ∀ c ∈ '0' :: m :: cs, c ∈ ['0', 'x', 'X'] ++ '_' :: hexDigits :=
    List.forall_mem_cons.2 ⟨by simp, List.forall_mem_cons.2 ⟨hmark m hm,
      fun c hc => List.mem_append_right _ (h c hc)⟩⟩
  have hdot := not_contains_lower fun c hc => (hlow c (hall c hc)).2.1
  have hexponent := not_contains_lower fun c hc => (hlow c (hall c hc)).2.2
  rw [numberKind_of_forall fun c hc => (hlow c (hall c hc)).1, hdot, isHex_of_mark hm, hexponent]
  rfl

theorem numberKind_int (h : IntNumeral cs) : numberKind cs = .int := by
  have hdigits : ∀ {digits cs : List Char}, '_' :: digits ⊆ '_' :: decimalDigits →
      (∀ c ∈ cs, c ∈ '_' :: digits) →
        ∀ c ∈ cs, c ∈ '_' :: decimalDigits ++ ['b', 'B', 'o', 'O'] :=
    fun hsub h c hc => List.mem_append_left _ (hsub (h c hc))
  have hmark : ∀ m ∈ ['b', 'B'] ++ ['o', 'O'],
      m ∈ '_' :: decimalDigits ++ ['b', 'B', 'o', 'O'] := forall_of_all (by decide)
  have hzero : '0' ∈ '_' :: decimalDigits ++ ['b', 'B', 'o', 'O'] := by decide
  cases h with
  | zero => decide
  | decimal _ h => exact numberKind_digits (hdigits (List.Subset.refl _) h.forall_mem)
  | binary hm h =>
    exact numberKind_digits (List.forall_mem_cons.2 ⟨hzero, List.forall_mem_cons.2
      ⟨hmark _ (List.mem_append_left _ hm), hdigits (by decide) h.forall_mem⟩⟩)
  | octal hm h =>
    exact numberKind_digits (List.forall_mem_cons.2 ⟨hzero, List.forall_mem_cons.2
      ⟨hmark _ (List.mem_append_right _ hm), hdigits (by decide) h.forall_mem⟩⟩)
  | oldOctal h =>
    exact numberKind_digits (List.forall_mem_cons.2 ⟨hzero, hdigits (by decide) h.forall_mem⟩)
  | hex hm h => exact numberKind_hexInt hm h.forall_mem

theorem numberKind_float (h : FloatNumeral cs) : numberKind cs = .float := by
  cases h with
  | decimal h => exact numberKind_decimal h.chars.1 h.chars.2
  | hex hm hmantissa he =>
    have hsub : ['p', 'P'] ++ ['+', '-'] ++ '_' :: decimalDigits ⊆ hexChars := by decide
    obtain ⟨p, hp, hmem⟩ := he.exists_mark
    exact numberKind_hexFloat hm (List.forall_mem_append.2 ⟨hmantissa.forall_mem,
      fun c hc => hsub (he.forall_mem c hc)⟩) ⟨p, hp, List.mem_append_right _ hmem⟩

theorem numberKind_imaginary (cs : List Char) : numberKind (cs ++ ['i']) = .imaginary := by
  have hlow : 'i'.toLower = 'i' := by decide
  simp [numberKind, hlow]

/-- A number ends in the letter of imaginary ones only if it is one. -/
theorem getLast?_ne_of_kind (h : numberKind cs ≠ .imaginary) : cs.getLast? ≠ some 'i' := by
  intro hlast
  obtain ⟨front, rfl⟩ := List.getLast?_eq_some_iff.1 hlast
  exact h (numberKind_imaginary front)

/-- **The letters of a number tell its kind.** -/
theorem Numeral.kindOf (h : Numeral cs) : KindOf cs (numberKind cs) := by
  cases h with
  | int h =>
    have hkind := numberKind_int h
    rw [hkind]
    refine .int (getLast?_ne_of_kind (by simp [hkind])) fun hf => ?_
    rw [numberKind_float hf] at hkind
    cases hkind
  | float h =>
    have hkind := numberKind_float h
    rw [hkind]
    exact .float (getLast?_ne_of_kind (by simp [hkind])) h
  | imaginary =>
    rw [numberKind_imaginary]
    exact .imaginary (by simp)

/-! ### Where a number ends -/

/-- Some characters end in one of `ends`. -/
def EndsIn (ends cs : List Char) : Prop := ∃ d ∈ ends, cs.getLast? = some d

theorem EndsIn.mono {ends ends' : List Char} (h : EndsIn ends cs) (hsub : ends ⊆ ends') :
    EndsIn ends' cs := by
  obtain ⟨d, hd, hlast⟩ := h
  exact ⟨d, hsub hd, hlast⟩

theorem EndsIn.append_left {ends : List Char} (h : EndsIn ends ds) (cs : List Char) :
    EndsIn ends (cs ++ ds) := by
  obtain ⟨d, hd, hlast⟩ := h
  exact ⟨d, hd, by rw [List.getLast?_append, hlast, Option.some_or]⟩

theorem Digits.endsIn (h : Digits digits cs) : EndsIn digits cs := by
  induction h with
  | last hd => exact ⟨_, hd, rfl⟩
  | @next d _ _ _ ih => exact ih.append_left [d]
  | @spaced d _ _ _ ih => exact ih.append_left [d, '_']

theorem MarkedDigits.endsIn (h : MarkedDigits digits cs) : EndsIn digits cs := by
  cases h with
  | plain h => exact h.endsIn
  | spaced h => exact h.endsIn.append_left ['_']

theorem Exponent.endsIn (h : Exponent marks cs) : EndsIn decimalDigits cs := by
  cases h with
  | @unsigned m _ _ h => exact h.endsIn.append_left [m]
  | @signed m s _ _ _ h => exact h.endsIn.append_left [m, s]

theorem DecimalFloat.endsIn (h : DecimalFloat cs) : EndsIn ('.' :: decimalDigits) cs := by
  have hsub : decimalDigits ⊆ '.' :: decimalDigits := List.subset_cons_self ..
  cases h with
  | @pointed whole fraction exponent _ hf he =>
    refine EndsIn.append_left ?_ whole
    rcases he with rfl | he
    · rcases hf with rfl | hf
      · exact ⟨'.', List.mem_cons_self, rfl⟩
      · rw [List.append_nil]
        exact (hf.endsIn.append_left ['.']).mono hsub
    · exact (he.endsIn.append_left ('.' :: fraction)).mono hsub
  | @scaled whole _ _ he => exact (he.endsIn.append_left whole).mono hsub
  | @fraction fraction exponent hf he =>
    rcases he with rfl | he
    · rw [List.append_nil]
      exact (hf.endsIn.append_left ['.']).mono hsub
    · exact (he.endsIn.append_left ('.' :: fraction)).mono hsub

/-- No number ends in the exponent mark of its base. -/
theorem Numeral.ends (h : Numeral cs) :
    ∃ d, cs.getLast? = some d ∧ isExponentMark (isHex cs) d = false := by
  have hall : ∀ hex, ∀ d ∈ '.' :: 'i' :: decimalDigits, isExponentMark hex d = false :=
    fun hex => by cases hex <;> exact forall_of_all (by decide)
  have hhex : ∀ d ∈ hexDigits, isExponentMark true d = false := forall_of_all (by decide)
  -- no digit below ten marks an exponent, whatever the base
  have hdecimal : ∀ {ends}, ends ⊆ '.' :: 'i' :: decimalDigits → EndsIn ends cs →
      ∃ d, cs.getLast? = some d ∧ isExponentMark (isHex cs) d = false := by
    rintro ends hsub ⟨d, hd, hlast⟩
    exact ⟨d, hlast, hall _ d (hsub hd)⟩
  cases h with
  | int h =>
    cases h with
    | zero => exact hdecimal (List.Subset.refl _) ⟨'0', by decide, rfl⟩
    | decimal _ h => exact hdecimal (by decide) h.endsIn
    | @binary m _ _ h => exact hdecimal (by decide) (h.endsIn.append_left ['0', m])
    | @octal m _ _ h => exact hdecimal (by decide) (h.endsIn.append_left ['0', m])
    | oldOctal h => exact hdecimal (by decide) (h.endsIn.append_left ['0'])
    | @hex m _ hm h =>
      obtain ⟨d, hd, hlast⟩ := h.endsIn.append_left ['0', m]
      exact ⟨d, hlast, by rw [isHex_of_mark hm]; exact hhex d hd⟩
  | float h =>
    cases h with
    | decimal h => exact hdecimal (by decide) h.endsIn
    | @hex m mantissa _ _ _ he =>
      exact hdecimal (by decide) (he.endsIn.append_left ('0' :: m :: mantissa))
  | @imaginary cs _ => exact ⟨'i', by simp, hall _ 'i' (by decide)⟩

/-- **A number is read whole** if no letter, digit, underscore or point follows it. -/
theorem Numeral.reads (h : Numeral cs) {rest : List Char}
    (hr : ∀ c ∈ rest.head?, c.isAlphanum = false ∧ c ≠ '_' ∧ c ≠ '.') :
    Reads (.token (.literal (numberKind cs) (String.ofList cs))) rest := by
  obtain ⟨d, hlast, hd⟩ := h.ends
  obtain ⟨c, t, rfl, hb⟩ := h.begins
  rw [List.getLast?_cons, Option.some.injEq] at hlast
  refine .number hb (h.goesOn c).2.numberBody_eq fun e he => ?_
  obtain ⟨h1, h2, h3⟩ := hr e he
  simp [Source.goesOn, isNumberChar, h1, h2, h3, hlast, hd]

/-- The tokens of a row are those of a front part of it and those of the rest. -/
theorem tokensFrom_append (here : Place) (armed : Bool) (ps qs : List Piece) :
    ∃ before armed', tokensFrom here armed (ps ++ qs) =
      before ++ tokensFrom (here.after (Piece.joined ps)) armed' qs := by
  induction ps generalizing here armed with
  | nil => exact ⟨[], armed, rfl⟩
  | cons p ps ih =>
    rw [List.cons_append, joined_cons, Place.after_append]
    rcases p.token_or with ⟨kind, rfl⟩ | hp
    · obtain ⟨before, armed', htokens⟩ := ih (here.after kind.text.toList) kind.endsStatement
      rw [tokensFrom_token, htokens]
      exact ⟨_ :: before, armed', rfl⟩
    · rw [tokensFrom_other _ _ hp]
      split
      · obtain ⟨before, armed', htokens⟩ := ih (here.after p.text) false
        rw [htokens]
        exact ⟨_ :: before, armed', rfl⟩
      · exact ih ..

/-- **Every number is read as one token** with its kind, where the scanner comes to it behind other
pieces and no letter, digit, underscore or point follows. -/
theorem token_of_numeral (h : Numeral cs) {front : List Piece} {rest : List Char}
    (hfront : Row front (cs ++ rest))
    (hr : ∀ c ∈ rest.head?, c.isAlphanum = false ∧ c ≠ '_' ∧ c ≠ '.') :
    ∃ kind, KindOf cs kind ∧
      scan (Piece.joined front ++ (cs ++ rest)) =
        (front ++ .token (.literal kind (String.ofList cs)) :: (scan rest).1, (scan rest).2) ∧
      ∀ tokens, lex (String.ofList (Piece.joined front ++ (cs ++ rest))) = .ok tokens →
        ∃ token ∈ tokens, token.kind = .literal kind (String.ofList cs) ∧
          token.span.start = byteSize (Piece.joined front) ∧
          token.span.stop = token.span.start + byteSize cs := by
  have hnumber := h.reads hr
  have hcs : (Piece.token (.literal (numberKind cs) (String.ofList cs))).text = cs :=
    String.toList_ofList
  have hscan : scan (Piece.joined front ++ (cs ++ rest)) =
      (front ++ .token (.literal (numberKind cs) (String.ofList cs)) :: (scan rest).1,
        (scan rest).2) := by
    have hbehind := scan_cons_of_reads hnumber
    rw [hcs] at hbehind
    rw [scan_row hfront, hbehind]
  refine ⟨numberKind cs, h.kindOf, hscan, fun tokens hlex => ?_⟩
  obtain ⟨-, rfl⟩ := lex_eq_ok_iff.1 hlex
  rw [String.toList_ofList, hscan]
  obtain ⟨before, armed, htokens⟩ := tokensFrom_append .origin false front
    (.token (.literal (numberKind cs) (String.ofList cs)) :: (scan rest).1)
  rw [htokens, tokensFrom_token]
  refine ⟨_, List.mem_append_right _ List.mem_cons_self, rfl, ?_, ?_⟩
  · change (Place.origin.after _).offset = _
    rw [Place.offset_after]
    exact Nat.zero_add _
  · change (Place.after _ (String.ofList cs).toList).offset = _
    rw [String.toList_ofList, Place.offset_after]
    rfl

/-- A number of base sixteen with all its parts, and a sign right behind it. -/
def signedSource : String := "x = 0x_1F.8p-2i+1"

theorem token_of_hexNumeral : Numeral "0x_1F.8p-2i".toList ∧
    ∃ tokens, lex signedSource = .ok tokens ∧
      ∃ token ∈ tokens, token.kind = .literal .imaginary "0x_1F.8p-2i" ∧
        token.span.start = 4 ∧ token.span.stop = 15 := by
  have hwhole : MarkedDigits hexDigits ['_', '1', 'F'] :=
    .spaced (.next (by decide) (.last (by decide)))
  have hmantissa : HexMantissa ['_', '1', 'F', '.', '8'] :=
    HexMantissa.pointed hwhole (.inr (.last (by decide)))
  have hexponent : Exponent ['p', 'P'] ['p', '-', '2'] :=
    .signed (by decide) (by decide) (.last (by decide))
  have hfloat : FloatNumeral "0x_1F.8p-2".toList := FloatNumeral.hex (by decide) hmantissa hexponent
  have hnumber : Numeral "0x_1F.8p-2i".toList := Numeral.imaginary (.inr (.inr hfloat))
  have hscan : scan signedSource.toList = ([.token (.ident "x"), .blank ' ',
      .token (.operator .assign), .blank ' '] ++ [.token (.literal .imaginary "0x_1F.8p-2i"),
      .token (.operator .plus), .token (.literal .int "1")], none) := by
    decide +kernel
  have hrow := row_of_scan (congrArg Prod.snd hscan)
  rw [hscan] at hrow
  obtain ⟨kind, hkind, -, htokens⟩ := token_of_numeral hnumber (row_append.1 hrow).1
    (by rintro _ ⟨⟩; decide)
  obtain rfl : kind = .imaginary := by
    cases hkind with
    | imaginary => rfl
    | float h | int h => exact absurd rfl h
  obtain ⟨tokens, hlex, -⟩ := lex_of_scan hscan
  obtain ⟨token, hmem, hliteral, hstart, hstop⟩ := htokens tokens hlex
  exact ⟨hnumber, tokens, hlex, token, hmem, hliteral, hstart, by rw [hstop, hstart]; decide⟩

end TestWeave.Source
