import TestWeave.Build.Session
import TestWeave.Command.Swap
import TestWeave.Change.Patch

/-!
# Planning a build step

The files of one build step that share a package name make up a unit. `Step.plan` decides what is
changed in each unit and writes the changed files: calls of tests are sent through the
instrumentation, and a unit without suite entry is given one, unless the unit it tests or is tested
by has it.

* `Step.defers`: whether the suite entry is left to the sibling unit.
* `Step.planUnit`: the decision for one unit, within a section over the session record.
-/

namespace TestWeave.Build

open TestWeave.Source TestWeave.Change TestWeave.Host

/-- The files of a step that share a package name. -/
structure TestUnit where
  name : String
  files : List SourceFile
  deriving DecidableEq, Repr

namespace TestUnit

/-- Whether some file has a suite entry. -/
def hasSuiteEntry (u : TestUnit) : Bool := u.files.any (·.hasSuiteEntry)

/-- Whether the tests stand outside the package they test. -/
def isExternal (u : TestUnit) : Bool := Text.endsWith Known.externalSuffix u.name

end TestUnit

/-- What the plan of one build step depends on. -/
structure Step where
  buildId : String
  sdk : Instrumentation
  tempDir : Path
  sessionDir : Path
  units : List TestUnit
  deriving DecidableEq, Repr

/-- Adds a file to the unit of its package. Units and files keep the order in which they came. -/
def addToUnits (file : SourceFile) : List TestUnit → List TestUnit
  | [] => [⟨file.package, [file]⟩]
  | u :: us =>
    if u.name = file.package then { u with files := u.files ++ [file] } :: us
    else u :: addToUnits file us

/-- The path that positions in a changed file refer to: that of the file it was made from, from the
root. -/
def sourcePath (d : Disk) (path : Path) : Path :=
  if path.isAbsolute then path else d.cwdPath.join path

/-- The byte order mark, which may only stand at the very beginning. -/
def byteOrderMark : String := "\uFEFF"

/-- The text of a changed file: a line that names the file it was made from, and then the
changed source. -/
def tempText (d : Disk) (path : Path) (source : String) : String :=
  s!"//line {(sourcePath d path).text}:1\n{(Text.dropLead byteOrderMark source).getD source}"

/-- Writes a changed file under a new name, made from the name of the file it came from. -/
def writeTemp (d : Disk) (tempDir path : Path) (source : String) : Except IoError Path × Disk :=
  let stem := path.fileStem?.getD ""
  let extension := (path.extension?.map ("." ++ ·)).getD ""
  d.createTemp tempDir (stem ++ "_") ("_" ++ extension) (tempText d path source).toUTF8

/-- Writes the file that a patch makes; `none` if it makes no source or that cannot be written. -/
def emitTemp (d : Disk) (tempDir : Path) (p : Patch) : Option Path × Disk :=
  match p.emit with
  | .error _ => (none, d)
  | .ok source =>
    match writeTemp d tempDir p.file.path source with
    | (.error _, d) => (none, d)
    | (.ok temp, d) => (some temp, d)

namespace Step

/-- A step without files. Session files are in the directory for temporary files. -/
def new (buildId : String) (sdk : Instrumentation) (tempDir : Path) : Step :=
  ⟨buildId, sdk, tempDir, tempDir, []⟩

/-- The step with session files in another directory. -/
def withSessionDir (s : Step) (dir : Path) : Step := { s with sessionDir := dir }

/-- The step with one more file. -/
def addFile (s : Step) (file : SourceFile) : Step := { s with units := addToUnits file s.units }

/-- The session of the build. -/
def session (s : Step) : Session := .new s.sessionDir s.buildId

/-- The changes to the calls of a file. A file that imports the instrumentation under its own name
is left alone. -/
def instrumentFile (s : Step) (file : SourceFile) : Patch :=
  let p := Patch.new file
  if file.importsInstrumentation s.sdk then p else (p.instrument s.sdk).2

/-- Whether the suite entry of a unit is left to its sibling: a unit of external tests leaves it to
the package under test if that is recorded, and a package leaves it to its external tests if they
are recorded or part of this step. -/
def defers (s : Step) (unit : String) (recorded : List String) : Bool :=
  match Text.dropTail Known.externalSuffix unit with
  | some base => recorded.contains base
  | none =>
    let sibling := unit ++ Known.externalSuffix
    s.units.any (·.name == sibling) || recorded.contains sibling

/-- Whether a suite entry can be added to a file. -/
def canHost (s : Step) (file : SourceFile) : Bool :=
  !file.importsInstrumentation s.sdk && (file.localName? Known.testingPackage).isSome

/-- Writes the first file that can have a suite entry with one, and gives its path. -/
def writeHost (s : Step) (d : Disk) (result : PathMap) :
    List Patch → Option PathMap × Disk
  | [] => (none, d)
  | p :: ps =>
    if s.canHost p.file then
      match emitTemp d s.tempDir (p.appendSuiteEntry s.sdk Known.driverName) with
      | (some temp, d) => (some (result.insert p.file.path temp), d)
      | (none, d) => writeHost s d result ps
    else writeHost s d result ps

/-- The section over the session record: gives the unit a suite entry if it has to have one, and
records that. -/
def synthesize (s : Step) (unit : TestUnit) (patches : List Patch) (result : PathMap)
    (d : Disk) : PathMap × Disk :=
  let (guard, d) := s.session.enter d
  if s.defers unit.name guard.units then (result, d)
  else match s.writeHost d result patches with
    | (none, d) => (result, d)
    | (some result, d) =>
      let (_, _, d) := guard.record unit.name d
      (result, d)

/-- Writes the changed files that are not written yet. -/
def writeChanged (s : Step) (result : PathMap) (d : Disk) : List Patch → PathMap × Disk
  | [] => (result, d)
  | p :: ps =>
    if p.isEmpty || result.contains p.file.path then writeChanged s result d ps
    else match emitTemp d s.tempDir p with
      | (some temp, d) => writeChanged s (result.insert p.file.path temp) d ps
      | (none, d) => writeChanged s result d ps

/-- Decides what is changed in a unit and writes it. -/
def planUnit (s : Step) (unit : TestUnit) (result : PathMap) (d : Disk) : PathMap × Disk :=
  let patches := unit.files.map s.instrumentFile
  let (result, d) :=
    if unit.hasSuiteEntry then (result, d) else s.synthesize unit patches result d
  s.writeChanged result d patches

/-- Decides what is changed and writes it: for every file that is changed, where the changed file
is. -/
def plan (s : Step) (d : Disk) : PathMap × Disk :=
  s.units.foldl (fun (result, d) unit => s.planUnit unit result d) ([], d)

end Step

end TestWeave.Build
