import TestWeave.Host.Disk
import TestWeave.Text.Blank

/-!
# Build sessions

The commands of one build share a record of the units that have been given a suite entry: a file
with one unit per line. Who reads it to decide and then writes it holds a lock on a second file.

* `Session.lock`, `Session.enter`: begin a section that reads, decides and writes.
* `Guard.record`: records a unit.
-/

namespace TestWeave.Build

open TestWeave.Host

/-- Why the record could not be used. -/
inductive SessionError
  | lock (path : Path) (cause : IoError)
  | read (path : Path) (cause : IoError)
  | write (path : Path) (cause : IoError)
  deriving DecidableEq, Repr

/-- The text of an error. -/
def SessionError.message : SessionError → String
  | .lock path cause => s!"failed to lock build session {path.text}: {cause.message}"
  | .read path cause => s!"failed to read build session {path.text}: {cause.message}"
  | .write path cause => s!"failed to write build session {path.text}: {cause.message}"

/-- The record of one build, and the file that is locked to use it. -/
structure Session where
  path : Path
  lockPath : Path
  deriving DecidableEq, Repr

/-- A build identifier as part of a file name. -/
def sanitize (buildId : String) : String :=
  String.ofList (buildId.toList.map fun c =>
    if c.isAlphanum || c == '-' || c == '_' || c == '.' then c else '_')

/-- The units that a record lists. -/
def unitsOf (text : String) : List String :=
  ((Text.lines text).map Text.trim).filter (!·.isEmpty)

/-- The record of a list of units. -/
def recordText (units : List String) : String := String.intercalate "\n" units ++ "\n"

/-- A section over a record: what was read at its beginning, and what was recorded since. -/
structure Guard where
  session : Session
  /-- Whether the lock is held; without it, others may write the record meanwhile. -/
  locked : Bool
  units : List String
  deriving DecidableEq, Repr

namespace Session

/-- The session of a build, with its files in a directory. -/
def new (dir : Path) (buildId : String) : Session :=
  let name := ".test_main_packages_" ++ sanitize buildId
  ⟨dir.join ⟨name⟩, dir.join ⟨name ++ ".lock"⟩⟩

/-- The units recorded so far. A record that is not there lists none. -/
def readUnits (s : Session) (d : Disk) : Except SessionError (List String) :=
  match d.readText s.path with
  | .ok text => .ok (unitsOf text)
  | .error .notFound => .ok []
  | .error e => .error (.read s.path e)

/-- Takes the lock and reads the record. The file of the lock stays. -/
def lock (s : Session) (d : Disk) : Except SessionError Guard × Disk :=
  match d.touch s.lockPath with
  | .error e => (.error (.lock s.lockPath e), d)
  | .ok d => ((s.readUnits d).map fun units => ⟨s, true, units⟩, d)

/-- Takes the lock and reads the record. If that fails, goes on without the lock; a record that
cannot be read then counts as empty. -/
def enter (s : Session) (d : Disk) : Guard × Disk :=
  match s.lock d with
  | (.ok guard, d) => (guard, d)
  | (.error _, d) =>
    (⟨s, false, match s.readUnits d with
      | .ok units => units
      | .error _ => []⟩, d)

end Session

namespace Guard

/-- Whether a unit is recorded. -/
def contains (g : Guard) (unit : String) : Bool := g.units.contains unit

/-- Records a unit and writes the record, unless the unit is recorded. The guard has the unit even
if the record could not be written, of which then anything may be left. -/
def record (g : Guard) (unit : String) (d : Disk) : Except SessionError Unit × Guard × Disk :=
  if g.contains unit then (.ok (), g, d)
  else
    let g := { g with units := g.units ++ [unit] }
    match d.save g.session.path (recordText g.units).toUTF8 with
    | (.ok (), d) => (.ok (), g, d)
    | (.error e, d) => (.error (.write g.session.path e), g, d)

end Guard

end TestWeave.Build
