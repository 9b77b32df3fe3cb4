import TestWeave.Toml.Value

/-!
# Putting tables together

A document is a list of statements, each of which adds something to the table of the whole. A table
can be written only once: headers may complete what longer headers implied, and dotted keys may
complete what dotted keys implied, but nothing may be added to what is complete.

* `updateAt`: changes the table at a path.
* `addEntry`: adds a value under a dotted key.
* `Document.ofStatements`: the table of a list of statements.
-/

namespace TestWeave.Toml

/-- A key with the keys that lead to it. -/
structure KeyPath where
  above : List String
  last : String
  deriving DecidableEq, Repr

/-- All keys, from the outermost one. -/
def KeyPath.keys (p : KeyPath) : List String := p.above ++ [p.last]

/-- Part of a document. -/
inductive Statement
  /-- Begins a table. -/
  | table (path : KeyPath)
  /-- Begins one more table of a list. -/
  | element (path : KeyPath)
  /-- Gives a key a value, in the table that was begun last. -/
  | entry (path : KeyPath) (value : Value)
  deriving Repr

/-- What is done to a table: its new origin and entries, unless that is not allowed. -/
abbrev TableChange := Origin → Entries → Option (Origin × Entries)

/-- Changes the table at a path. Tables that are not there are made. A path through a list goes on
in its last table, and no path goes on in a table between braces. A dotted key stays out of tables
with headers of their own. -/
def updateAt (dotted : Bool) (change : TableChange) : List String → TableChange
  | [], origin, entries => change origin entries
  | key :: keys, origin, entries =>
    match entries.find? key with
    | none => do
      let (o, es) ← updateAt dotted change keys (if dotted then .dotted else .passed) []
      return (origin, entries ++ [(key, .table o es)])
    | some (.table o es) =>
      if o = .inline ∨ (dotted = true ∧ o = .header) then none
      else do
        let (o, es) ← updateAt dotted change keys o es
        return (origin, entries.put key (.table o es))
    | some (.list true items) =>
      match items.getLast? with
      | some (.table o es) => do
        let (o, es) ← updateAt dotted change keys o es
        return (origin, entries.put key (.list true (items.dropLast ++ [.table o es])))
      | _ => none
    | some _ => none

/-- Adds a value under a key. What a dotted key is added to was made by dotted keys. -/
def addEntry (path : KeyPath) (value : Value) : TableChange :=
  updateAt true (fun origin entries =>
    if path.above.isEmpty ∨ origin = .dotted then
      match entries.find? path.last with
      | none => some (origin, entries ++ [(path.last, value)])
      | some _ => none
    else none) path.above

/-- Begins a table. -/
def openTable (path : KeyPath) : TableChange :=
  updateAt false (fun origin entries =>
    match entries.find? path.last with
    | none => some (origin, entries ++ [(path.last, .table .header [])])
    | some (.table .passed es) => some (origin, entries.put path.last (.table .header es))
    | some _ => none) path.above

/-- Begins one more table of a list. -/
def openElement (path : KeyPath) : TableChange :=
  updateAt false (fun origin entries =>
    match entries.find? path.last with
    | none => some (origin, entries ++ [(path.last, .list true [.table .header []])])
    | some (.list true items) =>
      some (origin, entries.put path.last (.list true (items ++ [.table .header []])))
    | some _ => none) path.above

/-- The table between braces of a list of keys and values. -/
def inlineTable? (entries : List (KeyPath × Value)) : Option Value := do
  let (_, entries) ← entries.foldlM (fun (origin, es) (path, value) =>
    addEntry path value origin es) (Origin.inline, ([] : Entries))
  return .table .inline entries

/-- Carries out statements in turn. `here` leads to the table that was begun last. -/
def carryOut (here : List String) (origin : Origin) (entries : Entries) :
    List Statement → Option Entries
  | [] => some entries
  | .table path :: ss => do
    let (origin, entries) ← openTable path origin entries
    carryOut path.keys origin entries ss
  | .element path :: ss => do
    let (origin, entries) ← openElement path origin entries
    carryOut path.keys origin entries ss
  | .entry path value :: ss => do
    let (origin, entries) ← updateAt false (addEntry path value) here origin entries
    carryOut here origin entries ss

/-- The table of a list of statements. -/
def Document.ofStatements (ss : List Statement) : Option Entries := carryOut [] .header [] ss

end TestWeave.Toml
