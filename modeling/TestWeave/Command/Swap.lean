import TestWeave.Command.Line
import TestWeave.SortedMap

/-!
# Swapping source files

* `swapSources`: puts changed files in the place of those they were made from.
-/

namespace TestWeave

/-- A map from paths to paths, in the order of its keys. -/
abbrev PathMap := List (Path × Path)

namespace PathMap

/-- The value of a path, however it is spelled. -/
def find? (m : PathMap) (p : Path) : Option Path := SortedMap.find? Path.cmp p m

/-- Whether a map has a path. -/
def contains (m : PathMap) (p : Path) : Bool := SortedMap.contains Path.cmp p m

/-- The map with a value for a path. -/
def insert (m : PathMap) (p q : Path) : PathMap := SortedMap.insert Path.cmp p q m

end PathMap

namespace Command

/-- The replacements that a map asks for, one per source file that it has. -/
def swaps (mapping : PathMap) (c : CommandLine) : List (String × String) :=
  c.sources.filterMap fun (path, _) => (mapping.find? ⟨path⟩).map fun new => (path, new.text)

/-- Makes the replacements in turn and counts those that found their file. -/
def swapSources (mapping : PathMap) (c : CommandLine) : Nat × CommandLine :=
  (swaps mapping c).foldl (fun (n, c) (old, new) =>
    match c.replaceSource? old new with
    | some c => (n + 1, c)
    | none => (n, c)) (0, c)

end Command

end TestWeave
