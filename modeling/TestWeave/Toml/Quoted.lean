/-!
# Quoted texts

A text stands between double quotes, with escapes, or between single quotes, without. Three quotes
begin a text that may go over several lines: a line end right behind them does not count, and up to
two quotes may stand right before the three that close it.

* `readQuoted`: the text that a character list begins with, and what follows it.
-/

namespace TestWeave.Toml

/-- Whether a character may stand in texts and comments: any but the control characters; of them
only the tab. -/
def isPlain (c : Char) : Bool := c == '\t' || (0x20 ≤ c.toNat && c.toNat != 0x7F)

/-- The value of a digit in bases up to 16. -/
def digitValue? (c : Char) : Option Nat :=
  if '0' ≤ c ∧ c ≤ '9' then some (c.toNat - '0'.toNat)
  else if 'a' ≤ c ∧ c ≤ 'f' then some (c.toNat - 'a'.toNat + 10)
  else if 'A' ≤ c ∧ c ≤ 'F' then some (c.toNat - 'A'.toNat + 10)
  else none

/-- The number that digits spell in a base. -/
def numberOf? (base : Nat) (digits : List Char) : Option Nat :=
  digits.foldlM (fun n c => do
    let d ← digitValue? c
    if d < base then some (base * n + d) else none) 0

/-! ### Escapes -/

/-- The character whose number is spelled by the next `count` digits. -/
def readCode (count : Nat) (cs : List Char) : Option (Char × List Char) :=
  if cs.length < count then none
  else do
    let code ← numberOf? 16 (cs.take count)
    if code.isValidChar then some (Char.ofNat code, cs.drop count) else none

/-- The character of an escape whose backslash has been read. -/
def readEscape : List Char → Option (Char × List Char)
  | 'b' :: cs => some ('\x08', cs)
  | 't' :: cs => some ('\t', cs)
  | 'n' :: cs => some ('\n', cs)
  | 'f' :: cs => some ('\x0c', cs)
  | 'r' :: cs => some ('\r', cs)
  | 'e' :: cs => some ('\x1b', cs)
  | '"' :: cs => some ('"', cs)
  | '\\' :: cs => some ('\\', cs)
  | 'x' :: cs => readCode 2 cs
  | 'u' :: cs => readCode 4 cs
  | 'U' :: cs => readCode 8 cs
  | _ => none

theorem readCode_length {count : Nat} {cs rest : List Char} {c : Char}
    (h : readCode count cs = some (c, rest)) : rest.length ≤ cs.length := by
  simp only [readCode] at h
  split at h
  · simp at h
  · obtain ⟨code, -, h⟩ := Option.bind_eq_some_iff.1 h
    split at h
    · simp only [Option.some.injEq, Prod.mk.injEq] at h
      simp [← h.2]
    · simp at h

theorem readEscape_length {cs rest : List Char} {c : Char}
    (h : readEscape cs = some (c, rest)) : rest.length < cs.length := by
  unfold readEscape at h
  split at h <;> first
    | (simp only [Option.some.injEq, Prod.mk.injEq] at h; simp [← h.2])
    | exact Nat.lt_succ_of_le (readCode_length h)
    | simp at h

/-- Drops blanks and line ends. -/
def dropSpace : List Char → List Char
  | ' ' :: cs | '\t' :: cs | '\n' :: cs | '\r' :: '\n' :: cs => dropSpace cs
  | cs => cs

/-- What follows a backslash at the end of a line: the text goes on at the next character that is
neither blank nor line end. -/
def continued? (cs : List Char) : Option (List Char) :=
  match cs.dropWhile fun c => c == ' ' || c == '\t' with
  | '\n' :: _ | '\r' :: '\n' :: _ => some (dropSpace cs)
  | _ => none

theorem dropSpace_length (cs : List Char) : (dropSpace cs).length ≤ cs.length := by
  fun_induction dropSpace cs <;> simp_all <;> omega

theorem continued?_length {cs rest : List Char} (h : continued? cs = some rest) :
    rest.length ≤ cs.length := by
  simp only [continued?] at h
  split at h <;> simp only [Option.some.injEq, reduceCtorEq] at h
  all_goals exact h ▸ dropSpace_length cs

/-! ### Texts -/

/-- The quotes that close a text over several lines, as far as they belong to the text, and what
follows them. -/
def closing? (quote : Char) (cs : List Char) : Option (List Char × List Char) :=
  let count := min 5 (cs.takeWhile (· == quote)).length
  if count < 3 then none else some (List.replicate (count - 3) quote, cs.drop count)

/-- The rest of a text between double quotes. -/
def readBasic (long : Bool) (cs : List Char) : Option (List Char × List Char) :=
  match cs with
  | [] => none
  | '"' :: rest =>
    if long then
      match closing? '"' cs with
      | some closed => some closed
      | none => add '"' (readBasic long rest)
    else some ([], rest)
  | '\\' :: rest =>
    match h : if long then continued? rest else none with
    | some rest' =>
      have : rest'.length ≤ rest.length := by
        split at h
        · exact continued?_length h
        · simp at h
      readBasic long rest'
    | none =>
      match h : readEscape rest with
      | some (c, rest') =>
        have := readEscape_length h
        add c (readBasic long rest')
      | none => none
  | '\r' :: '\n' :: rest =>
    if long then add '\r' (add '\n' (readBasic long rest)) else none
  | c :: rest =>
    if isPlain c || long && c == '\n' then add c (readBasic long rest) else none
termination_by cs.length
where
  /-- Puts a character before a text that was read. -/
  add (c : Char) : Option (List Char × List Char) → Option (List Char × List Char)
    | some (text, rest) => some (c :: text, rest)
    | none => none

/-- The rest of a text between single quotes. -/
def readLiteral (long : Bool) : List Char → Option (List Char × List Char)
  | [] => none
  | '\'' :: rest =>
    if long then
      match closing? '\'' ('\'' :: rest) with
      | some closed => some closed
      | none => readBasic.add '\'' (readLiteral long rest)
    else some ([], rest)
  | '\r' :: '\n' :: rest =>
    if long then readBasic.add '\r' (readBasic.add '\n' (readLiteral long rest)) else none
  | c :: rest =>
    if isPlain c || long && c == '\n' then readBasic.add c (readLiteral long rest) else none

/-- Drops a line end. -/
def dropLineEnd : List Char → List Char
  | '\n' :: cs | '\r' :: '\n' :: cs => cs
  | cs => cs

/-- The text on one line that a character list begins with. -/
def readShort : List Char → Option (List Char × List Char)
  | '"' :: cs => readBasic false cs
  | '\'' :: cs => readLiteral false cs
  | _ => none

/-- The text that a character list begins with. -/
def readQuoted (cs : List Char) : Option (List Char × List Char) :=
  match cs with
  | '"' :: '"' :: '"' :: rest => readBasic true (dropLineEnd rest)
  | '\'' :: '\'' :: '\'' :: rest => readLiteral true (dropLineEnd rest)
  | cs => readShort cs

end TestWeave.Toml
