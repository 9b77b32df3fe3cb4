import TestWeave.Split
import TestWeave.Toml.Quoted
import TestWeave.Toml.Value

/-!
# Numbers, times and truth values

* `integer?`, `decimal?`: the number that a text spells.
* `isMoment`: whether a text is a date, a time of day, or both.
* `scalar?`: the value of a text without quotes.
-/

namespace TestWeave.Toml

/-! ### Numbers -/

/-- The digits of a run in which underscores may stand, one at a time, between digits. -/
def digits? (isDigit : Char → Bool) (cs : List Char) : Option (List Char) :=
  let parts := splitWhere (· == '_') cs
  if parts.all fun p => !p.isEmpty && p.all isDigit then some parts.flatten else none

/-- The number of a run of digits in a base. -/
def natural? (base : Nat) (cs : List Char) : Option Nat := do
  numberOf? base (← digits? (fun c => (digitValue? c).isSome) cs)

/-- Digits of which the first is zero only if it is the only one. -/
def leading? (cs : List Char) : Option (List Char) := do
  let ds ← digits? Char.isDigit cs
  if ds.length > 1 && ds.head? == some '0' then none else some ds

/-- Whether a number is negative, and what follows its sign. -/
def splitSign : List Char → Bool × List Char
  | '+' :: cs => (false, cs)
  | '-' :: cs => (true, cs)
  | cs => (false, cs)

/-- The integer that a text spells. -/
def integer? (cs : List Char) : Option Int :=
  match cs with
  | '0' :: 'x' :: ds => (natural? 16 ds).map Int.ofNat
  | '0' :: 'o' :: ds => (natural? 8 ds).map Int.ofNat
  | '0' :: 'b' :: ds => (natural? 2 ds).map Int.ofNat
  | cs => do
    let (negative, cs) := splitSign cs
    let n ← numberOf? 10 (← leading? cs)
    return if negative then -n else n

/-- The power of ten behind the letter of an exponent. -/
def exponent? (cs : List Char) : Option Int := do
  let (negative, cs) := splitSign cs
  let n ← numberOf? 10 (← digits? Char.isDigit cs)
  return if negative then -n else n

/-- The number with a point or an exponent that a text spells. -/
def decimal? (cs : List Char) : Option Decimal := do
  let isMark (c : Char) : Bool := c == 'e' || c == 'E'
  let (_, unsigned) := splitSign cs
  let mantissa := unsigned.takeWhile (!isMark ·)
  let exponent ← match unsigned.dropWhile (!isMark ·) with
    | [] => some none
    | _ :: e => (exponent? e).map some
  match splitWhere (· == '.') mantissa, exponent with
  | [whole], some e =>
    let ds ← leading? whole
    return ⟨← numberOf? 10 ds, e⟩
  | [whole, fraction], e =>
    let ds ← leading? whole
    let fs ← digits? Char.isDigit fraction
    return ⟨← numberOf? 10 (ds ++ fs), e.getD 0 - fs.length⟩
  | _, _ => none

/-! ### Times -/

/-- A number of exactly `count` digits. -/
def fixed? (count : Nat) (cs : List Char) : Option (Nat × List Char) :=
  let ds := cs.takeWhile Char.isDigit
  if ds.length = count then (numberOf? 10 ds).map fun n => (n, cs.drop count) else none

/-- Whether a year has a leap day. -/
def isLeapYear (year : Nat) : Bool := year % 4 == 0 && (year % 100 != 0 || year % 400 == 0)

/-- The count of days of a month. -/
def monthLength (year month : Nat) : Nat :=
  match month with
  | 2 => if isLeapYear year then 29 else 28
  | 4 | 6 | 9 | 11 => 30
  | _ => 31

/-- What follows a given character. -/
def after (c : Char) : List Char → Option (List Char)
  | d :: cs => if c = d then some cs else none
  | [] => none

/-- What follows a date. -/
def afterDate (cs : List Char) : Option (List Char) := do
  let (year, cs) ← fixed? 4 cs
  let (month, cs) ← fixed? 2 (← after '-' cs)
  let (day, cs) ← fixed? 2 (← after '-' cs)
  if 1 ≤ month ∧ month ≤ 12 ∧ 1 ≤ day ∧ day ≤ monthLength year month then some cs else none

/-- What follows hours and minutes. -/
def afterMinutes (cs : List Char) : Option (List Char) := do
  let (hour, cs) ← fixed? 2 cs
  let (minute, cs) ← fixed? 2 (← after ':' cs)
  if hour ≤ 23 ∧ minute ≤ 59 then some cs else none

/-- What follows a fraction of a second, if there is one. -/
def afterFraction (cs : List Char) : Option (List Char) :=
  match cs with
  | '.' :: cs =>
    if cs.head?.any Char.isDigit then some (cs.dropWhile Char.isDigit) else none
  | cs => some cs

/-- What follows a time of day. Seconds may be left out; there are 61 of them when one leaps. -/
def afterTime (cs : List Char) : Option (List Char) := do
  match ← afterMinutes cs with
  | ':' :: cs =>
    let (second, cs) ← fixed? 2 cs
    if second ≤ 60 then afterFraction cs else none
  | cs => some cs

/-- Whether a text is the distance of a time zone, or empty. -/
def isOffset : List Char → Bool
  | [] | ['Z'] | ['z'] => true
  | '+' :: cs | '-' :: cs => afterMinutes cs == some []
  | _ => false

/-- Whether a text is a date, a time of day, or both. -/
def isMoment (cs : List Char) : Bool :=
  match afterDate cs with
  | some [] => true
  | some (sep :: time) =>
    "Tt ".toList.contains sep && (afterTime time).any isOffset
  | none => afterTime cs == some []

/-! ### Scalars -/

/-- The value of a text without quotes. -/
def scalar? (cs : List Char) : Option Value :=
  let s := String.ofList cs
  if s = "true" then some (.boolean true)
  else if s = "false" then some (.boolean false)
  else if ["inf", "nan"].contains (String.ofList (splitSign cs).2) then some (.special s)
  else if isMoment cs then some (.moment s)
  else match integer? cs with
    | some n => some (.integer n)
    | none => (decimal? cs).map .decimal

/-- The characters of texts without quotes. -/
def isScalarChar (c : Char) : Bool := c.isAlphanum || "+-_.:".toList.contains c

/-- The value without quotes that a character list begins with. A blank between a date and the time
of day belongs to it. -/
def readScalar (cs : List Char) : Option (Value × List Char) :=
  let word := cs.takeWhile isScalarChar
  let rest := cs.dropWhile isScalarChar
  match rest with
  | ' ' :: next :: more =>
    if afterDate word == some [] && next.isDigit then
      let time := (next :: more).takeWhile isScalarChar
      (scalar? (word ++ ' ' :: time)).map fun v => (v, (next :: more).dropWhile isScalarChar)
    else (scalar? word).map fun v => (v, rest)
  | rest => (scalar? word).map fun v => (v, rest)

end TestWeave.Toml
