import TestWeave.Host.IoError
import TestWeave.Path
import TestWeave.Text.Utf8

/-!
# Files and directories

A `Disk` is a tree of files and directories, together with the directory that relative paths start
from. Operations resolve a path name by name, as an operating system does, and fail for the same
causes in the same order.

What does not follow from the files that are there is left to the `System` of the disk: which names
are drawn for temporary files, and which writes fail though there is a place to write to.

* `Disk.readText`, `Disk.isDirectory`: what is there.
* `Disk.write`: a write that gets through; `Disk.save`: one that may fail at any time.
* `Disk.createTemp`: a new file under a name that was free.
-/

namespace TestWeave.Host

/-- The names that lead from the root to a file or directory. -/
abbrev Location := List String

/-- A file with its content, or a directory. -/
inductive Node
  | directory
  | file (content : ByteArray) (executable : Bool)

/-- Files are equal if their bytes and their modes are. -/
instance : DecidableEq Node
  | .directory, .directory => isTrue rfl
  | .directory, .file .. => isFalse nofun
  | .file .., .directory => isFalse nofun
  | .file ⟨bytes⟩ executable, .file ⟨others⟩ isExecutable =>
    if h : bytes = others ∧ executable = isExecutable then isTrue (by rw [h.1, h.2])
    else isFalse (by grind)

/-- How a write fails that could have been made: before the file is opened, or when it has been
emptied and some bytes have been written. -/
structure Trouble where
  cause : IoError
  /-- The number of bytes that were written; `none` if the file was not opened. -/
  written : Option Nat
  deriving DecidableEq, Repr

/-- What happens that does not follow from the files there are. It may be anything at all, and
something else whenever a file has changed. -/
structure System where
  /-- The number that stands in the `k`-th name that is tried for a temporary file. -/
  draw : List (Location × Node) → Nat → Nat := fun _ k => k
  /-- What gets in the way of writing a content to a location. -/
  trouble : List (Location × Node) → Location → ByteArray → Option Trouble := fun _ _ _ => none

/-- A tree of files and directories, the directory that relative paths start from, and the system
that they are used through. -/
structure Disk where
  /-- Everything but the root, by location. -/
  nodes : List (Location × Node)
  /-- The working directory. -/
  cwd : Location
  system : System := {}

namespace Disk

/-! ### Locations -/

/-- What is at a location. The root is always there. -/
def get? (d : Disk) (loc : Location) : Option Node :=
  if loc.isEmpty then some .directory else (d.nodes.find? (·.1 == loc)).map (·.2)

/-- The disk with a node at a location. -/
def set (d : Disk) (loc : Location) (node : Node) : Disk :=
  { d with nodes := (loc, node) :: d.nodes.filter (·.1 != loc) }

/-- The disk without a location and all below it. -/
def remove (d : Disk) (loc : Location) : Disk :=
  { d with nodes := d.nodes.filter fun e => !loc.isPrefixOf e.1 }

/-- The names in a directory. -/
def namesIn (d : Disk) (loc : Location) : List String :=
  d.nodes.filterMap fun e => if e.1.dropLast == loc then e.1.getLast? else none

@[simp] theorem get?_set_self (d : Disk) {loc : Location} (node : Node) (h : loc ≠ []) :
    (d.set loc node).get? loc = some node := by
  simp [get?, set, h]

theorem get?_set_ne (d : Disk) {loc loc' : Location} (node : Node) (h : loc' ≠ loc) :
    (d.set loc node).get? loc' = d.get? loc' := by
  unfold get? set
  split
  · rfl
  · have hb : (loc == loc') = false := by simpa using fun e => h e.symm
    simp only [List.find?_cons, hb, List.find?_filter]
    congr 2
    funext e
    by_cases he : e.1 = loc' <;> simp [he, h]

/-! ### Paths -/

/-- The longest name that a directory can hold, in bytes. -/
def nameLimit : Nat := 255

/-- The longest path that can be resolved, in bytes. -/
def pathLimit : Nat := 4095

/-- Walks from a location along names. Every name is looked up in a directory that is there; the
last one need not be. -/
def walk (d : Disk) (here : Location) : List String → Except IoError Location
  | [] => .ok here
  | name :: names =>
    match d.get? here with
    | none => .error .notFound
    | some (.file _ _) => .error .notDirectory
    | some .directory =>
      if name = "." then walk d here names
      else if name = ".." then walk d here.dropLast names
      else if nameLimit < name.utf8ByteSize then .error .nameTooLong
      else walk d (here ++ [name]) names

/-- The names of a path. -/
def namesOf (p : Path) : List String :=
  ((Path.segments p.text.toList).filter (!·.isEmpty)).map String.ofList

/-- Whether a path is spelled with a slash at its end, so that it can only name a directory. -/
def endsWithSlash (p : Path) : Bool := p.text.toList.getLast? == some '/'

/-- The location that a path names. -/
def resolve (d : Disk) (p : Path) : Except IoError Location :=
  if p.text.isEmpty then .error .notFound
  else if p.text.toList.contains '\x00' then .error .nulInPath
  else if pathLimit < p.text.utf8ByteSize then .error .nameTooLong
  else walk d (if p.isAbsolute then [] else d.cwd) (namesOf p)

/-- What a path names. -/
def lookup (d : Disk) (p : Path) : Except IoError Node := do
  let loc ← d.resolve p
  match d.get? loc with
  | none => throw .notFound
  | some (.file content executable) =>
    if endsWithSlash p then throw .notDirectory else return .file content executable
  | some .directory => return .directory

/-- Whether a path names something. -/
def exists? (d : Disk) (p : Path) : Bool := (d.lookup p).isOk

/-- Whether a path names a directory. -/
def isDirectory (d : Disk) (p : Path) : Bool :=
  match d.lookup p with
  | .ok .directory => true
  | _ => false

/-- Whether a path names a file. -/
def isFile (d : Disk) (p : Path) : Bool :=
  match d.lookup p with
  | .ok (.file _ _) => true
  | _ => false

/-- The bytes of a file. -/
def read (d : Disk) (p : Path) : Except IoError ByteArray := do
  match ← d.lookup p with
  | .file content _ => return content
  | .directory => throw .isDirectory

/-- The text of a file. -/
def readText (d : Disk) (p : Path) : Except IoError String := do
  match Text.Utf8.decode? (← d.read p) with
  | some s => return s
  | none => throw .notText

/-- Where a file can be written: its location, and what is in it. -/
def openForWriting (d : Disk) (p : Path) : Except IoError (Location × ByteArray × Bool) := do
  let loc ← d.resolve p
  if endsWithSlash p then throw .isDirectory
  match d.get? loc with
  | some .directory => throw .isDirectory
  | some (.file content executable) => return (loc, content, executable)
  | none => return (loc, ByteArray.empty, false)

/-- Gives a file a content, if nothing gets in the way; the file is made if it is not there. -/
def write (d : Disk) (p : Path) (content : ByteArray) : Except IoError Disk := do
  let (loc, _, executable) ← d.openForWriting p
  return d.set loc (.file content executable)

/-- Empties the file at a location and writes a content to it. Of a write that fails midway the first
bytes are left. -/
def put (d : Disk) (loc : Location) (executable : Bool) (content : ByteArray) :
    Except IoError Unit × Disk :=
  match d.system.trouble d.nodes loc content with
  | none => (.ok (), d.set loc (.file content executable))
  | some ⟨cause, none⟩ => (.error cause, d)
  | some ⟨cause, some count⟩ =>
    (.error cause, d.set loc (.file (content.extract 0 count) executable))

/-- Gives a file a content, which may fail at any time; the file is made if it is not there. -/
def save (d : Disk) (p : Path) (content : ByteArray) : Except IoError Unit × Disk :=
  match d.openForWriting p with
  | .error e => (.error e, d)
  | .ok (loc, _, executable) => d.put loc executable content

/-- Makes an empty file if it is not there. -/
def touch (d : Disk) (p : Path) : Except IoError Disk := do
  let (loc, content, executable) ← d.openForWriting p
  return d.set loc (.file content executable)

/-- Makes a directory and those above it, as far as they are not there. -/
def makeDirectories (d : Disk) (here : Location) : List String → Except IoError Disk
  | [] => .ok d
  | name :: names =>
    if name = "." then makeDirectories d here names
    else if name = ".." then makeDirectories d here.dropLast names
    else
      let loc := here ++ [name]
      match d.get? loc with
      | some .directory => makeDirectories d loc names
      | some (.file _ _) => .error (if names.isEmpty then .exists else .notDirectory)
      | none =>
        if nameLimit < name.utf8ByteSize then .error .nameTooLong
        else makeDirectories (d.set loc .directory) loc names

/-- Makes the directory that a path names. -/
def makePath (d : Disk) (p : Path) : Except IoError Disk :=
  if p.text.isEmpty then .error .notFound
  else makeDirectories d (if p.isAbsolute then [] else d.cwd) (namesOf p)

/-- Removes a directory with all in it. -/
def removeDirectory (d : Disk) (p : Path) : Except IoError Disk := do
  match ← d.lookup p with
  | .file _ _ => throw .notDirectory
  | .directory => return d.remove (← d.resolve p)

/-- The path of a location. -/
def pathOf (loc : Location) : Path := ⟨"/" ++ String.intercalate "/" loc⟩

/-- The path of the working directory. -/
def cwdPath (d : Disk) : Path := pathOf d.cwd

/-! ### Temporary files -/

/-- The digits of numbered names. -/
def tempDigits : List Char :=
  "0123456789abcdefghijklmnopqrstuvwxyzABCDEFGHIJKLMNOPQRSTUVWXYZ".toList

/-- A number as a given count of letters and digits. -/
def tempMark (k : Nat) : Nat → List Char
  | 0 => []
  | count + 1 => tempMark (k / 62) count ++ [(tempDigits[k % 62]?).getD '0']

/-- A name for a temporary file, with a number in it. -/
def tempName (before after : String) (k : Nat) : String :=
  before ++ String.ofList (tempMark k 6) ++ after

/-- How many names are tried for a temporary file. -/
def tempTries : Nat := 65536

/-- The first of the names that are drawn, from the `k`-th one on, under which there is nothing. -/
def freeName (d : Disk) (dir : Path) (before after : String) (k : Nat) :
    Nat → Except IoError (Path × Location)
  | 0 => .error .exists
  | tries + 1 =>
    let path := dir.join ⟨tempName before after (d.system.draw d.nodes k)⟩
    match d.resolve path with
    | .error e => .error e
    | .ok loc =>
      match d.get? loc with
      | none => .ok (path, loc)
      | some _ => freeName d dir before after (k + 1) tries

/-- The disk without a file. -/
def erase (d : Disk) (loc : Location) : Disk := { d with nodes := d.nodes.filter (·.1 != loc) }

/-- Creates a file under a new name in a directory, writes a content to it and keeps it. If that
fails the file is removed. Its path is absolute. -/
def createTemp (d : Disk) (dir : Path) (before after : String) (content : ByteArray) :
    Except IoError Path × Disk :=
  match d.freeName (d.cwdPath.join dir) before after 0 tempTries with
  | .error e => (.error e, d)
  | .ok (path, loc) =>
    match d.put loc false content with
    | (.error e, d) => (.error e, d.erase loc)
    | (.ok (), d) => (.ok path, d)

end Disk

end TestWeave.Host
