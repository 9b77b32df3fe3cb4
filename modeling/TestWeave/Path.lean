import TestWeave.Split

/-!
# Paths

A path is kept as it was written. Two spellings name the same path when they have the same
components: empty components and dots inside a path do not count, a dot at the head of a relative
path does, and two dots are a component like any other.

* `Path.components`: what a path is compared by.
* `Path.join`, `Path.parent?`, `Path.fileStem?`, `Path.extension?`: paths taken apart and put
  together.
-/

namespace TestWeave

/-- A path, as written. -/
structure Path where
  text : String
  deriving DecidableEq, Repr, Inhabited

namespace Path

/-- One step of a path. The order of the constructors is the order of paths. -/
inductive Component
  | root
  | here
  | up
  | name (text : String)
  deriving DecidableEq, Repr

namespace Component

/-- The place of the kind of a component among the kinds. -/
def rank : Component → Nat
  | .root => 0
  | .here => 1
  | .up => 2
  | .name _ => 3

/-- Components of different kinds by kind, names by their characters. -/
def cmp : Component → Component → Ordering
  | .name s, .name t => compare s t
  | a, b => compare a.rank b.rank

end Component

/-- What a path begins with before its names: the slash of an absolute path, the dot of a relative
one that is spelled with it. -/
def lead : List Char → List Char × List Char
  | '/' :: body => (['/'], body)
  | ['.'] => (['.'], [])
  | '.' :: '/' :: body => (['.'], '/' :: body)
  | body => ([], body)

/-- Whether a segment between slashes says nothing. -/
def isIdle (segment : List Char) : Bool := segment.isEmpty || segment == ['.']

/-- The component that a segment spells. -/
def componentOf (segment : List Char) : Component :=
  if segment == ['.', '.'] then .up else .name (String.ofList segment)

/-- The segments of a text between slashes. -/
def segments (body : List Char) : List (List Char) := splitWhere (· == '/') body

/-- What a path is compared by. -/
def components (p : Path) : List Component :=
  let (head, body) := lead p.text.toList
  let first := match head with
    | ['/'] => [Component.root]
    | ['.'] => [Component.here]
    | _ => []
  first ++ ((segments body).filter (!isIdle ·)).map componentOf

/-- Whether two spellings name one path. -/
def same (p q : Path) : Bool := p.components == q.components

/-- Lexicographic order of component lists. -/
def cmpComponents : List Component → List Component → Ordering
  | [], [] => .eq
  | [], _ :: _ => .lt
  | _ :: _, [] => .gt
  | a :: as, b :: bs => (a.cmp b).then (cmpComponents as bs)

/-- Paths are ordered by their components. -/
def cmp (p q : Path) : Ordering := cmpComponents p.components q.components

/-- Whether a path begins at the root. -/
def isAbsolute (p : Path) : Bool := p.text.toList.head? == some '/'

/-- The path `q` as seen from `p`. -/
def join (p q : Path) : Path :=
  if q.isAbsolute || p.text.isEmpty then q
  else if p.text.toList.getLast? = some '/' then ⟨p.text ++ q.text⟩
  else ⟨p.text ++ "/" ++ q.text⟩

/-- The last component, if it is a name. -/
def fileName? (p : Path) : Option String :=
  match p.components.getLast? with
  | some (.name s) => some s
  | _ => none

/-- A file name before and after its last dot; a dot at its head does not count. -/
def splitExtension (name : String) : String × Option String :=
  let cs := name.toList
  let after := (cs.reverse.takeWhile (· != '.')).reverse
  let before := (cs.reverse.dropWhile (· != '.')).reverse.dropLast
  if before.isEmpty then (name, none) else (String.ofList before, some (String.ofList after))

/-- The file name without its extension. -/
def fileStem? (p : Path) : Option String := p.fileName?.map fun name => (splitExtension name).1

/-- What follows the last dot of the file name. -/
def extension? (p : Path) : Option String := p.fileName?.bind fun name => (splitExtension name).2

/-- Segments joined by slashes. -/
def joinSegments : List (List Char) → List Char
  | [] => []
  | [s] => s
  | s :: ss => s ++ '/' :: joinSegments ss

/-- Segments without the idle ones at the end. -/
def trimIdle (ss : List (List Char)) : List (List Char) :=
  (ss.reverse.dropWhile isIdle).reverse

/-- The path without its last component. -/
def parent? (p : Path) : Option Path :=
  let (head, body) := lead p.text.toList
  match trimIdle (segments body) with
  | [] => if head == ['.'] then some ⟨""⟩ else none
  | ss => some ⟨String.ofList (head ++ joinSegments (trimIdle ss.dropLast))⟩

/-- Whether the components of `base` begin those of `p`. -/
def startsWith (p base : Path) : Bool := base.components.isPrefixOf p.components

end Path

end TestWeave
