import TestWeave.Host.Shell.Word

/-!
# Arithmetic of shell scripts

* `arith?`: the value of an expression with integers, names, parentheses, the four operations,
  remainders and comparisons.
-/

namespace TestWeave.Host.Shell

/-- The operators by rank, those that bind loosest first; a longer spelling comes before a shorter
one that begins it. -/
def arithOperators : List (List String) :=
  [["==", "!="], ["<=", ">=", "<", ">"], ["+", "-"], ["*", "/", "%"]]

/-- Whether a comparison holds, as a number. -/
def truth (b : Bool) : Int := if b then 1 else 0

/-- What an operator makes of two numbers. There is no quotient by zero. -/
def operate (op : String) (a b : Int) : Option Int :=
  match op with
  | "==" => some (truth (a == b))
  | "!=" => some (truth (a != b))
  | "<=" => some (truth (a ≤ b))
  | ">=" => some (truth (a ≥ b))
  | "<" => some (truth (a < b))
  | ">" => some (truth (a > b))
  | "+" => some (a + b)
  | "-" => some (a - b)
  | "*" => some (a * b)
  | "/" => if b = 0 then none else some (a.tdiv b)
  | "%" => if b = 0 then none else some (a.tmod b)
  | _ => none

/-- An operator of some, and what follows it. -/
def readOperator (ops : List String) (cs : List Char) : Option (String × List Char) :=
  (ops.find? fun op => op.toList.isPrefixOf cs).map fun op => (op, cs.drop op.length)

mutual

/-- An expression whose operators are of the given ranks. -/
def readExpr (value : String → Int) (ranks : List (List String)) :
    Nat → List Char → Option (Int × List Char)
  | 0, _ => none
  | fuel + 1, cs =>
    match ranks with
    | [] => readOperand value fuel (dropBlanks cs)
    | ops :: ranks => do
      let (a, rest) ← readExpr value ranks fuel cs
      readExprRest value ops ranks fuel a (dropBlanks rest)

/-- What follows the first operand of a rank. -/
def readExprRest (value : String → Int) (ops : List String) (ranks : List (List String)) :
    Nat → Int → List Char → Option (Int × List Char)
  | 0, _, _ => none
  | fuel + 1, a, cs =>
    match readOperator ops cs with
    | none => some (a, cs)
    | some (op, rest) => do
      let (b, rest) ← readExpr value ranks fuel rest
      readExprRest value ops ranks fuel (← operate op a b) (dropBlanks rest)

/-- A number, a name, or an expression in parentheses. -/
def readOperand (value : String → Int) : Nat → List Char → Option (Int × List Char)
  | 0, _ => none
  | fuel + 1, cs =>
    match cs with
    | '-' :: rest => (readOperand value fuel (dropBlanks rest)).map fun (a, r) => (-a, r)
    | '+' :: rest => readOperand value fuel (dropBlanks rest)
    | '!' :: rest =>
      (readOperand value fuel (dropBlanks rest)).map fun (a, r) => (truth (a == 0), r)
    | '(' :: rest => do
      let (a, rest) ← readExpr value arithOperators fuel rest
      match dropBlanks rest with
      | ')' :: rest => return (a, rest)
      | _ => none
    | '$' :: rest => readOperand value fuel rest
    | cs =>
      match cs.takeWhile isNameChar with
      | [] => none
      | word =>
        let word := String.ofList word
        let rest := cs.dropWhile isNameChar
        match word.toNat? with
        | some n => some (n, rest)
        | none => some (value word, rest)

end

/-- The value of an expression over the values of names. -/
def arith? (value : String → Int) (cs : List Char) : Option Int :=
  match readExpr value arithOperators (10 * cs.length + 10) cs with
  | some (a, rest) => if (dropBlanks rest).isEmpty then some a else none
  | none => none

end TestWeave.Host.Shell
