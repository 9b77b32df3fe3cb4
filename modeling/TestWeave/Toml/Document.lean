import TestWeave.Toml.Assemble
import TestWeave.Toml.Scalar

/-!
# TOML documents

* `readValue`: the value that a character list begins with.
* `readStatements`: the statements of a document, one per line.
* `Document.read`: the table that a document describes.
-/

namespace TestWeave.Toml

/-! ### Blanks and comments -/

/-- Drops blanks. -/
def dropBlanks (cs : List Char) : List Char := cs.dropWhile fun c => c == ' ' || c == '\t'

/-- What follows a comment, if one begins here. -/
def dropComment : List Char → List Char
  | '#' :: cs => cs.dropWhile isPlain
  | cs => cs

/-- What follows a line end, which may be the end of the document. -/
def afterLineEnd : List Char → Option (List Char)
  | [] => some []
  | '\n' :: cs | '\r' :: '\n' :: cs => some cs
  | _ => none

/-- What follows the rest of a line on which nothing but blanks and a comment is left. -/
def afterLine (cs : List Char) : Option (List Char) :=
  afterLineEnd (dropComment (dropBlanks cs))

/-- Drops blanks, comments and line ends. -/
def dropGap : Nat → List Char → List Char
  | 0, cs => cs
  | fuel + 1, cs =>
    match dropComment (dropBlanks cs) with
    | '\n' :: cs | '\r' :: '\n' :: cs => dropGap fuel cs
    | cs => cs

/-! ### Keys -/

/-- The characters of keys without quotes. -/
def isKeyChar (c : Char) : Bool := c.isAlphanum || c == '_' || c == '-'

/-- A key. -/
def readKey (cs : List Char) : Option (String × List Char) :=
  match cs.takeWhile isKeyChar with
  | [] => (readShort cs).map fun (key, rest) => (String.ofList key, rest)
  | key => some (String.ofList key, cs.dropWhile isKeyChar)

/-- Keys with points between them. -/
def readKeys : Nat → List Char → Option (KeyPath × List Char)
  | 0, _ => none
  | fuel + 1, cs => do
    let (key, rest) ← readKey (dropBlanks cs)
    match dropBlanks rest with
    | '.' :: rest =>
      let (path, rest) ← readKeys fuel rest
      return (⟨key :: path.above, path.last⟩, rest)
    | rest => return (⟨[], key⟩, rest)

/-- The path of a key, and what follows it and the blanks around it. -/
def readPath (cs : List Char) : Option (KeyPath × List Char) := readKeys cs.length cs

/-! ### Values -/

/-- How deep brackets and braces may nest. -/
def depthLimit : Nat := 80

mutual

/-- A value, in which brackets may nest `depth` deep. The first argument bounds the steps. -/
def readValueIn (depth : Nat) : Nat → List Char → Option (Value × List Char)
  | 0, _ => none
  | fuel + 1, cs =>
    match cs with
    | '"' :: _ | '\'' :: _ =>
      (readQuoted cs).map fun (text, rest) => (.text (String.ofList text), rest)
    | '[' :: rest =>
      if depth = 0 then none
      else do
        let (items, rest) ← readItems (depth - 1) fuel rest
        return (.list false items, rest)
    | '\x7b' :: rest =>
      if depth = 0 then none
      else do
        let (entries, rest) ← readEntries (depth - 1) fuel rest
        return (← inlineTable? entries, rest)
    | cs => readScalar cs

/-- The values of a list, up to the bracket that closes it. A comma may stand behind the last. -/
def readItems (depth : Nat) : Nat → List Char → Option (List Value × List Char)
  | 0, _ => none
  | fuel + 1, cs =>
    match dropGap cs.length cs with
    | ']' :: rest => some ([], rest)
    | cs => do
      let (value, rest) ← readValueIn depth fuel cs
      match dropGap rest.length rest with
      | ',' :: rest =>
        let (values, rest) ← readItems depth fuel rest
        return (value :: values, rest)
      | ']' :: rest => return ([value], rest)
      | _ => none

/-- The entries of a table, up to the brace that closes it. A comma may stand behind the last. -/
def readEntries (depth : Nat) : Nat → List Char → Option (List (KeyPath × Value) × List Char)
  | 0, _ => none
  | fuel + 1, cs =>
    match dropGap cs.length cs with
    | '\x7d' :: rest => some ([], rest)
    | cs => do
      let (path, rest) ← readPath cs
      let (value, rest) ← readValueIn depth fuel (dropBlanks (← after '=' rest))
      match dropGap rest.length rest with
      | ',' :: rest =>
        let (entries, rest) ← readEntries depth fuel rest
        return ((path, value) :: entries, rest)
      | '\x7d' :: rest => return ([(path, value)], rest)
      | _ => none

end

/-- The value that a character list begins with. -/
def readValue (cs : List Char) : Option (Value × List Char) :=
  readValueIn depthLimit (2 * cs.length + 1) cs

/-! ### Statements -/

/-- A statement. -/
def readStatement (cs : List Char) : Option (Statement × List Char) :=
  match cs with
  | '[' :: '[' :: cs => do
    let (path, rest) ← readPath cs
    return (.element path, ← after ']' (← after ']' rest))
  | '[' :: cs => do
    let (path, rest) ← readPath cs
    return (.table path, ← after ']' rest)
  | cs => do
    let (path, rest) ← readPath cs
    let (value, rest) ← readValue (dropBlanks (← after '=' rest))
    return (.entry path value, rest)

/-- The statements of a document, each of which ends its line. -/
def readStatements : Nat → List Char → Option (List Statement)
  | 0, _ => none
  | fuel + 1, cs =>
    match dropBlanks (dropGap cs.length cs) with
    | [] => some []
    | cs => do
      let (s, rest) ← readStatement cs
      let ss ← readStatements fuel (← afterLine rest)
      return s :: ss

/-- The table that a document describes. A byte order mark may begin it. -/
def Document.read (text : String) : Option Entries := do
  let cs := match text.toList with
    | '\uFEFF' :: cs => cs
    | cs => cs
  Document.ofStatements (← readStatements (cs.length + 1) cs)

end TestWeave.Toml
