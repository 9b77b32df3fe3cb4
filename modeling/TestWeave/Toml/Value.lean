import TestWeave.Toml.Decimal

/-!
# Values of TOML documents

Numbers and times are kept as far as they have to be told apart; tables keep how they came to be,
as that decides what may still be added to them.

* `Value`: texts, numbers, times, lists and tables.
* `Value.inRange`: whether every number in a value is one that readers of numbers can take.
-/

namespace TestWeave.Toml

/-- How a table came to be. -/
inductive Origin
  /-- By a header of its own. -/
  | header
  /-- By a header of a table in it. -/
  | passed
  /-- By a dotted key. -/
  | dotted
  /-- Between braces, where it is complete. -/
  | inline
  deriving DecidableEq, Repr

/-- A value. -/
inductive Value
  | text (s : String)
  | integer (n : Int)
  | decimal (d : Decimal)
  /-- An infinity, or not a number. -/
  | special (name : String)
  | boolean (b : Bool)
  /-- A date, a time of day, or both, as written. -/
  | moment (text : String)
  /-- Values in brackets, or tables that headers add to. -/
  | list (growing : Bool) (items : List Value)
  | table (origin : Origin) (entries : List (String × Value))
  deriving Repr

/-- The entries of a table, in the order they came. -/
abbrev Entries := List (String × Value)

namespace Entries

/-- The value of a key. -/
def find? (entries : Entries) (key : String) : Option Value :=
  (List.find? (fun e => e.1 == key) entries).map (·.2)

/-- The entries with another value for a key that they have. -/
def put (entries : Entries) (key : String) (value : Value) : Entries :=
  entries.map fun e => if e.1 == key then (key, value) else e

end Entries

/-- The integers that fit into 128 bits, with or without sign. -/
def integerInRange (n : Int) : Bool := -(Nat.pow 2 127 : Nat) ≤ n && n < (Nat.pow 2 128 : Nat)

mutual

/-- Whether every number in a value can be taken. -/
def Value.inRange : Value → Bool
  | .integer n => integerInRange n
  | .decimal d => d.isFinite
  | .list _ items => itemsInRange items
  | .table _ entries => entriesInRange entries
  | _ => true

/-- Whether every number in a list can be taken. -/
def itemsInRange : List Value → Bool
  | [] => true
  | v :: vs => v.inRange && itemsInRange vs

/-- Whether every number in the entries of a table can be taken. -/
def entriesInRange : List (String × Value) → Bool
  | [] => true
  | (_, v) :: es => v.inRange && entriesInRange es

end

end TestWeave.Toml
