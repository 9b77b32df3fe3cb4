import TestWeave.Host.Shell.Script

/-!
# Words of shell scripts

* `readWord`: the parts of the word that a text begins with.
-/

namespace TestWeave.Host.Shell

/-- Characters that end a word. -/
def endsWord (c : Char) : Bool := " \t\r\n;&|()<>".toList.contains c

/-- Drops blanks. -/
def dropBlanks (cs : List Char) : List Char :=
  cs.dropWhile fun c => c == ' ' || c == '\t' || c == '\n'

/-- Characters that a variable's name begins with. -/
def isNameStart (c : Char) : Bool := c.isAlpha || c == '_'

/-- Characters of a variable's name. -/
def isNameChar (c : Char) : Bool := c.isAlphanum || c == '_'

/-- Cuts off what stands before the parenthesis that closes a substitution. -/
def untilParen (depth : Nat) : List Char → Option (List Char × List Char)
  | [] => none
  | c :: cs =>
    if c = ')' then
      match depth with
      | 0 => some ([], cs)
      | depth + 1 => (untilParen depth cs).map fun (a, b) => (c :: a, b)
    else (untilParen (if c = '(' then depth + 1 else depth) cs).map fun (a, b) => (c :: a, b)

/-- Cuts off what stands before a character. -/
def until? (stop : Char) (cs : List Char) : Option (List Char × List Char) :=
  match cs.dropWhile (· != stop) with
  | _ :: rest => some (cs.takeWhile (· != stop), rest)
  | [] => none

/-- What stands for a parameter whose name is followed by these characters. -/
def paramUse : List Char → ParamUse
  | ':' :: '-' :: other => .orElse true other
  | '-' :: other => .orElse false other
  | ':' :: '=' :: other => .orAssign true other
  | '=' :: other => .orAssign false other
  | ':' :: '+' :: other => .ifSet true other
  | '+' :: other => .ifSet false other
  | '%' :: '%' :: pattern => .cutTail true pattern
  | '%' :: pattern => .cutTail false pattern
  | '#' :: '#' :: pattern => .cutHead true pattern
  | '#' :: pattern => .cutHead false pattern
  | _ => .value

/-- The parameter between braces. -/
def bracedParam (quoted : Bool) (inner : List Char) : Part :=
  match inner with
  | '#' :: c :: cs => .param (String.ofList (c :: cs)) .length quoted
  | inner =>
    let name := if inner.head?.any isNameStart then inner.takeWhile isNameChar else inner.take 1
    .param (String.ofList name) (paramUse (inner.drop name.length)) quoted

/-- The part that a dollar sign begins. -/
def readDollar (quoted : Bool) (cs : List Char) : Option (Part × List Char) :=
  match cs with
  | '(' :: '(' :: cs => do
    let (inner, rest) ← untilParen 0 cs
    match rest with
    | ')' :: rest => return (.number inner quoted, rest)
    | _ => none
  | '(' :: cs => (untilParen 0 cs).map fun (inner, rest) => (.output inner quoted, rest)
  | '\x7b' :: cs =>
    (until? '\x7d' cs).map fun (inner, rest) => (bracedParam quoted inner, rest)
  | c :: rest =>
    if isNameStart c then
      some (.param (String.ofList (cs.takeWhile isNameChar)) .value quoted,
        cs.dropWhile isNameChar)
    else if c.isDigit || "@*#?$!-".toList.contains c then
      some (.param c.toString .value quoted, rest)
    else some (.text ['$'] quoted, c :: rest)
  | [] => some (.text ['$'] quoted, [])

/-- The substitution that a backquote begins. -/
def readBackquote (quoted : Bool) (cs : List Char) : Option (Part × List Char) :=
  (until? '\x60' cs).map fun (inner, rest) => (.output inner quoted, rest)

/-- The parts between double quotes. -/
def readDouble : Nat → List Char → Option (List Part × List Char)
  | 0, _ => none
  | fuel + 1, cs =>
    match cs with
    | [] => none
    | '"' :: rest => some ([], rest)
    | '\\' :: '\n' :: rest => readDouble fuel rest
    | '\\' :: c :: rest =>
      let chars := if "$\x60\"\\".toList.contains c then [c] else ['\\', c]
      (readDouble fuel rest).map fun (ps, r) => (.text chars true :: ps, r)
    | '$' :: rest => do
      let (p, rest) ← readDollar true rest
      let (ps, rest) ← readDouble fuel rest
      return (p :: ps, rest)
    | '\x60' :: rest => do
      let (p, rest) ← readBackquote true rest
      let (ps, rest) ← readDouble fuel rest
      return (p :: ps, rest)
    | c :: rest => (readDouble fuel rest).map fun (ps, r) => (.text [c] true :: ps, r)

/-- The parts of a word. -/
def readWord : Nat → List Char → Option (List Part × List Char)
  | 0, _ => none
  | fuel + 1, cs =>
    match cs with
    | [] => some ([], [])
    | '\'' :: rest => do
      let (inner, rest) ← until? '\'' rest
      let (ps, r) ← readWord fuel rest
      return (.text inner true :: ps, r)
    | '"' :: '"' :: rest => do
      let (ps, r) ← readWord fuel rest
      return (.text [] true :: ps, r)
    | '"' :: rest => do
      let (inner, rest) ← readDouble fuel rest
      let (ps, r) ← readWord fuel rest
      return (inner ++ ps, r)
    | '\\' :: '\n' :: rest => readWord fuel rest
    | '\\' :: c :: rest => do
      let (ps, r) ← readWord fuel rest
      return (.text [c] true :: ps, r)
    | '$' :: rest => do
      let (p, rest) ← readDollar false rest
      let (ps, r) ← readWord fuel rest
      return (p :: ps, r)
    | '\x60' :: rest => do
      let (p, rest) ← readBackquote false rest
      let (ps, r) ← readWord fuel rest
      return (p :: ps, r)
    | c :: rest =>
      if endsWord c then some ([], c :: rest)
      else do
        let (ps, r) ← readWord fuel rest
        return (.text [c] false :: ps, r)

end TestWeave.Host.Shell
