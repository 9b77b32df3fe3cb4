import TestWeave.Change.Edit
import TestWeave.Source.File

/-!
# Changes to a source file

A `Patch` collects changes to a file without touching it: calls that are sent through the
instrumentation, imports that these need, and a suite entry at the end of the file.

* `Patch.instrument`: sends every call of a test through the instrumentation.
* `Patch.ensureImport`: a name by which the file can refer to a package.
* `Patch.appendSuiteEntry`: adds a function that runs the suite.
* `Patch.emit`: the changed source, checked to be one.
-/

namespace TestWeave.Change

open TestWeave.Source

/-- Changes to a file that are not made yet. -/
structure Patch where
  file : SourceFile
  edits : List Edit
  /-- The paths and local names of the imports that are to be added. -/
  addedImports : List (String × String)
  /-- What is to be added at the end. -/
  appended : String
  deriving DecidableEq, Repr

/-- Why changes cannot be made. -/
inductive EmitError
  | overlap (path : Path) (offset : Nat)
  | invalid (cause : ParseError)
  deriving DecidableEq, Repr

/-- The text of an error. -/
def EmitError.message : EmitError → String
  | .overlap path offset => s!"overlapping edits in {path.text} at byte {offset}"
  | .invalid cause => s!"rewritten source does not parse: {cause.message}"

/-- The `k`-th choice of a name: the preferred one, then that name with a number. -/
def numbered (preferred : String) : Nat → String
  | 0 => preferred
  | k + 1 => preferred ++ toString (k + 1)

/-- The first choice of a name that is not taken. There is one among the first `taken.length + 1`,
as the choices differ from each other. -/
def freeName (preferred : String) (taken : List String) : String :=
  (((List.range (taken.length + 1)).map (numbered preferred)).find? (!taken.contains ·)).getD
    preferred

namespace Patch

/-- No changes to a file. -/
def new (file : SourceFile) : Patch := ⟨file, [], [], ""⟩

/-- Whether nothing is to be changed. -/
def isEmpty (p : Patch) : Bool := p.edits.isEmpty && p.appended.isEmpty

/-- The names bound by imports, by declarations at package scope, and by added imports. -/
def takenNames (p : Patch) : List String :=
  p.file.imports.filterMap ImportSpec.localName? ++ p.file.declarations ++ p.addedImports.map (·.2)

/-- The name by which a path is imported, in the file or by an import to be added. -/
def importedName? (p : Patch) (path : String) : Option String :=
  (p.file.localName? path).or ((p.addedImports.find? (·.1 == path)).map (·.2))

/-- The text of an import to be added behind the package clause. -/
def importText (anchor : ImportAnchor) (name path : String) : String :=
  if anchor.explicitSemi then s!" import {name} \"{path}\";" else s!"; import {name} \"{path}\""

/-- A name for the package of a path: that of an import there is, or else of one that is added,
under the preferred name if it is free. -/
def ensureImport (p : Patch) (path preferred : String) : String × Patch :=
  match p.importedName? path with
  | some name => (name, p)
  | none =>
    let name := freeName preferred p.takenNames
    let anchor := p.file.anchor
    (name, { p with
      edits := p.edits ++ [⟨anchor.offset, anchor.offset, importText anchor name path⟩]
      addedImports := p.addedImports ++ [(path, name)] })

/-- What stands in the place of `receiver.method(`. -/
def callText (call : CallSite) (qualifier entry : String) : String :=
  let comma := if call.args.isEmpty then "" else ", "
  s!"{qualifier}.{entry}({call.receiver}{comma}"

/-- Turns `receiver.method(arguments)` into `qualifier.entry(receiver, arguments)`. -/
def redirectCall (p : Patch) (call : CallSite) (qualifier entry : String) : Patch :=
  { p with
    edits := p.edits ++ [⟨call.callee.start, call.openParen.stop, callText call qualifier entry⟩] }

/-- The calls of a file that instrumentation changes, each with its new entry. -/
def targets (file : SourceFile) (sdk : Instrumentation) : List (CallSite × String) :=
  file.tests.flatMap (fun test =>
    test.subtests.map fun call =>
      (call, if test.isSuiteEntry then sdk.suiteEntry else sdk.subtestEntry)) ++
  file.driver.toList.map fun driver => (driver.runCall, sdk.suiteEntry)

/-- Sends every call of a test and of the driver through the instrumentation, and counts them. -/
def instrument (p : Patch) (sdk : Instrumentation) : Nat × Patch :=
  match targets p.file sdk with
  | [] => (0, p)
  | calls =>
    let (qualifier, p) := p.ensureImport sdk.importPath sdk.localName
    (calls.length, calls.foldl (fun p (call, entry) => p.redirectCall call qualifier entry) p)

/-- The source of a suite entry with a driver named `var`. -/
def suiteEntryText (testing os qualifier run var : String) : String :=
  s!"\n\nfunc {Known.suiteEntry}({var} *{testing}.M) \x7b\n\t" ++
  s!"{os}.{Known.exitFunction}({qualifier}.{run}({var}))\n\x7d\n"

/-- Adds a suite entry with a driver named `var` at the end of the file. -/
def appendSuiteEntry (p : Patch) (sdk : Instrumentation) (var : String) : Patch :=
  let (testing, p) := p.ensureImport Known.testingPackage Known.testingPackage
  let (os, p) := p.ensureImport Known.osPackage Known.osPackage
  let (qualifier, p) := p.ensureImport sdk.importPath sdk.localName
  { p with appended := suiteEntryText testing os qualifier sdk.suiteEntry var }

/-- The source with the changes made. It must parse, as what it came from did. -/
def emit (p : Patch) : Except EmitError String :=
  match applyEdits p.file.source.toList p.edits with
  | .error offset => .error (.overlap p.file.path offset)
  | .ok cs =>
    let text := String.ofList cs ++ p.appended
    match SourceFile.parse p.file.path text with
    | .ok _ => .ok text
    | .error cause => .error (.invalid cause)

end Patch

end TestWeave.Change
