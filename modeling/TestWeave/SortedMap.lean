/-!
# Sorted association lists

A map is the list of its entries in ascending order of their keys, under a comparison that is
given with each operation. Keys that compare equal are one key: writing to it keeps the key that
is there and replaces the value.
-/

namespace TestWeave.SortedMap

variable {κ ν : Type}

/-- The value of a key. -/
def find? (cmp : κ → κ → Ordering) (k : κ) (m : List (κ × ν)) : Option ν :=
  (m.find? fun e => cmp k e.1 == .eq).map (·.2)

/-- Whether a map has a key. -/
def contains (cmp : κ → κ → Ordering) (k : κ) (m : List (κ × ν)) : Bool :=
  (find? cmp k m).isSome

/-- The map with a value for a key. -/
def insert (cmp : κ → κ → Ordering) (k : κ) (v : ν) : List (κ × ν) → List (κ × ν)
  | [] => [(k, v)]
  | e :: m =>
    match cmp k e.1 with
    | .lt => (k, v) :: e :: m
    | .eq => (e.1, v) :: m
    | .gt => e :: insert cmp k v m

/-- The map with a value for a key that it did not have; a key that it had keeps its value. -/
def insertNew (cmp : κ → κ → Ordering) (k : κ) (v : ν) (m : List (κ × ν)) : List (κ × ν) :=
  if contains cmp k m then m else insert cmp k v m

/-- The map of a list of entries, written in turn. -/
def ofList (cmp : κ → κ → Ordering) (es : List (κ × ν)) : List (κ × ν) :=
  es.foldl (fun m e => insert cmp e.1 e.2 m) []

end TestWeave.SortedMap
