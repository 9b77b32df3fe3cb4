import TestWeave.Source.Import

/-!
# Quoted paths

An import path is spelled between double quotes, with a backslash before each quote and each
backslash in it, or as it is between back quotes.

* `Quotes`: how a path is spelled.
* `unquote_of_quotes`: the path is read back, however many backslashes stand in a row.
-/

namespace TestWeave.Source

/-- How a character is spelled between double quotes. -/
def escaped (c : Char) : List Char := if c = '"' ∨ c = '\\' then ['\\', c] else [c]

/-- The string literals that spell a path. -/
inductive Quotes (path : String) : String → Prop
  | interpreted : Quotes path (String.ofList ('"' :: (path.toList.flatMap escaped ++ ['"'])))
  | raw : '\x60' ∉ path.toList →
      Quotes path (String.ofList ('\x60' :: (path.toList ++ ['\x60'])))

variable {a b c : Char} {cs : List Char}

/-- A character that begins no pair stays. -/
theorem dropBefore_cons (h : c = a → cs.head? ≠ some b) :
    dropBefore a b (c :: cs) = c :: dropBefore a b cs := by
  cases cs with
  | nil => rfl
  | cons d cs =>
    rw [dropBefore, if_neg]
    rintro ⟨hc, rfl⟩
    exact h hc rfl

theorem dropBefore_pair : dropBefore a b (a :: b :: cs) = b :: dropBefore a b cs := by
  rw [dropBefore, if_pos ⟨rfl, rfl⟩]

/-- An escaped text does not begin with a quote. -/
theorem head?_escaped (cs : List Char) : (cs.flatMap escaped).head? ≠ some '"' := by
  cases cs with
  | nil => simp
  | cons c cs =>
    unfold escaped
    by_cases h : c = '"' ∨ c = '\\'
    · simp [h]
    · simpa [h] using fun hc => h (.inl hc)

/-- How a character is spelled where quotes are no longer escaped. -/
def halfEscaped (c : Char) : List Char := if c = '\\' then ['\\', '\\'] else [c]

/-- **Reading the quotes** leaves the backslashes escaped. -/
theorem dropBefore_escaped (cs : List Char) :
    dropBefore '\\' '"' (cs.flatMap escaped) = cs.flatMap halfEscaped := by
  induction cs with
  | nil => rfl
  | cons c cs ih =>
    rw [List.flatMap_cons, List.flatMap_cons]
    by_cases hquote : c = '"'
    · subst hquote
      have hpair : escaped '"' = ['\\', '"'] := by decide
      have hone : halfEscaped '"' = ['"'] := by decide
      rw [hpair, hone, List.cons_append, List.cons_append, List.nil_append, dropBefore_pair, ih]
      rfl
    by_cases hslash : c = '\\'
    · -- neither backslash stands in front of a quote: the next character is escaped, too
      subst hslash
      have hpair : escaped '\\' = ['\\', '\\'] := by decide
      have htwo : halfEscaped '\\' = ['\\', '\\'] := by decide
      rw [hpair, htwo, List.cons_append, List.cons_append, List.nil_append,
        dropBefore_cons (by simp), dropBefore_cons fun _ => head?_escaped cs, ih]
      rfl
    · have hone : escaped c = [c] := by simp [escaped, hquote, hslash]
      have hone' : halfEscaped c = [c] := by simp [halfEscaped, hslash]
      rw [hone, hone', List.singleton_append, dropBefore_cons fun h => absurd h hslash, ih]
      rfl

/-- **Reading the backslashes** then gives the text. -/
theorem dropBefore_halfEscaped (cs : List Char) :
    dropBefore '\\' '\\' (cs.flatMap halfEscaped) = cs := by
  induction cs with
  | nil => rfl
  | cons c cs ih =>
    rw [List.flatMap_cons]
    by_cases hslash : c = '\\'
    · subst hslash
      have htwo : halfEscaped '\\' = ['\\', '\\'] := by decide
      rw [htwo, List.cons_append, List.cons_append, List.nil_append, dropBefore_pair, ih]
    · have hone : halfEscaped c = [c] := by simp [halfEscaped, hslash]
      rw [hone, List.singleton_append, dropBefore_cons fun h => absurd h hslash, ih]

theorem between?_quoted (quote : Char) (cs : List Char) :
    between? quote (quote :: (cs ++ [quote])) = some cs := by
  simp [between?]

/-- Between double quotes two kinds of pairs are read as one character. -/
theorem unquote_interpreted (cs : List Char) :
    unquote (String.ofList ('"' :: (cs ++ ['"']))) =
      String.ofList (dropBefore '\\' '\\' (dropBefore '\\' '"' cs)) := by
  have hraw : between? '\x60' ('"' :: (cs ++ ['"'])) = none := by simp [between?]
  rw [unquote, String.toList_ofList, hraw, between?_quoted]
  rfl

/-- **A quoted path** is unquoted to what was quoted. -/
theorem unquote_of_quotes {path literal : String} (h : Quotes path literal) :
    unquote literal = path := by
  cases h with
  | interpreted =>
    rw [unquote_interpreted, dropBefore_escaped, dropBefore_halfEscaped, String.ofList_toList]
  | raw _ =>
    rw [unquote, String.toList_ofList, between?_quoted]
    exact String.ofList_toList

end TestWeave.Source
