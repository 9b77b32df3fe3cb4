import TestWeave.Source.Tree
import TestWeave.Text.Blank

/-!
# Declarations, the package clause and imports

The trees of a source are split into declarations at the semicolons of the top level. The first
one names the package; imports follow.

* `splitDecls`: the declarations of a source.
* `packageClause`: the package name, and the place where an import can be added without moving a
  line.
* `importSpecs`: the imports of one import declaration.
-/

namespace TestWeave.Source

/-- A declaration, with the semicolon that ends it. It has at least one tree. -/
structure Decl where
  head : Tree
  tail : List Tree
  terminator : Token

/-- An import of a package. -/
structure ImportSpec where
  /-- The name, the dot or the underscore that stands before the path. -/
  name : Option String
  path : String
  position : Position
  deriving DecidableEq, Repr

/-- The name by which the imported package is referred to. Imports with a dot or an underscore
give none; without a name of its own, an import takes the last part of its path. -/
def ImportSpec.localName? (spec : ImportSpec) : Option String :=
  match spec.name with
  | some name => if name = "_" ∨ name = "." then none else some name
  | none => some (String.ofList (spec.path.toList.reverse.takeWhile (· != '/')).reverse)

/-- Where imports are added: right behind the package clause, on its line. -/
structure ImportAnchor where
  offset : Nat
  /-- Whether the clause ends with a semicolon that the source spells. -/
  explicitSemi : Bool
  deriving DecidableEq, Repr

/-- Splits trees into declarations. `current` holds the trees of the declaration being read, last
one first. -/
def splitDeclsFrom (current : List Tree) : List Tree → Except Diagnostic (List Decl)
  | [] =>
    match current with
    | [] => .ok []
    | last :: _ => .error ⟨"unexpected end of file, expected ';'", some last.span⟩
  | t :: ts =>
    match t with
    | .leaf ⟨.operator .semi, span⟩ =>
      match current.reverse with
      | [] => .error ⟨"unexpected semicolon", some span⟩
      | head :: tail =>
        (splitDeclsFrom [] ts).map (⟨head, tail, ⟨.operator .semi, span⟩⟩ :: ·)
    | t => splitDeclsFrom (t :: current) ts

/-- The declarations of a source. -/
def splitDecls (trees : List Tree) : Except Diagnostic (List Decl) := splitDeclsFrom [] trees

/-- The package name and the anchor for imports. -/
def packageClause (d : Decl) : Except Diagnostic (String × ImportAnchor) :=
  match d.head.isKeyword .kwPackage, d.tail with
  | true, [name] =>
    match name.ident? with
    | none => .error ⟨"expected package name", some name.span⟩
    | some package =>
      let semi := d.terminator.span
      if semi.isEmpty then .ok (package, ⟨name.span.stop, false⟩)
      else .ok (package, ⟨semi.stop, true⟩)
  | _, _ => .error ⟨"expected 'package' clause", some d.head.span⟩

/-- Replaces each pair of the characters `a` and `b`, from left to right, by `b`. -/
def dropBefore (a b : Char) : List Char → List Char
  | [] => []
  | [c] => [c]
  | c :: d :: cs => if c = a ∧ d = b then b :: dropBefore a b cs else c :: dropBefore a b (d :: cs)

/-- What stands between a character and the same character at the end. -/
def between? (quote : Char) : List Char → Option (List Char)
  | [] => none
  | c :: cs => if c = quote ∧ cs.getLast? = some quote then some cs.dropLast else none

/-- The path that a string literal spells. In an interpreted string the escaped quotes are read
before the escaped backslashes. -/
def unquote (literal : String) : String :=
  match between? '\x60' literal.toList with
  | some raw => String.ofList raw
  | none =>
    let inner := (between? '"' literal.toList).getD literal.toList
    String.ofList (dropBefore '\\' '\\' (dropBefore '\\' '"' inner))

/-- The name before an import path. -/
def importName (t : Tree) : Except Diagnostic String :=
  if t.isOperator .dot then .ok "."
  else match t.ident? with
    | some name => .ok name
    | none => .error ⟨"expected import name", some t.span⟩

/-- The path of an import. -/
def importPath (t : Tree) : Except Diagnostic String :=
  match t with
  | .leaf ⟨.literal .string text, span⟩ =>
    let path := unquote text
    if path.isEmpty then .error ⟨"invalid import path", some span⟩ else .ok path
  | t => .error ⟨"expected import path", some t.span⟩

/-- One import of an import declaration. -/
def importSpec : List Tree → Except Diagnostic ImportSpec
  | [path] => do return ⟨none, ← importPath path, path.span.position⟩
  | [name, path] => do
    let local_ ← importName name
    return ⟨some local_, ← importPath path, name.span.position⟩
  | spec => .error ⟨"expected import path", spec.head?.map Tree.span⟩

/-- The imports of a declaration, where `trees` follow the keyword. -/
def importSpecs (trees : List Tree) : Except Diagnostic (List ImportSpec) :=
  let group := match trees with
    | [t] => t.group? .paren
    | _ => none
  match group with
  | some g => ((Tree.splitOn .semi g.trees).filter (!·.isEmpty)).mapM importSpec
  | none => do return [← importSpec trees]

end TestWeave.Source
