import TestWeave.Build.WorkTree
import TestWeave.Command.Line
import TestWeave.Sdk.BuildCache
import TestWeave.Sdk.Locator
import TestWeave.Source.Read

/-!
# Registering the instrumentation

The compiler and the linker find the instrumentation only if their import configuration lists it.
An `Injector` extends a copy of the configuration of a command and makes the command use the copy.

* `Injector.injectCompile`: for a compiler that is given a file with the import.
* `Injector.injectLink`: for a linker that makes a test binary.
-/

namespace TestWeave.Build

open TestWeave.Command TestWeave.Host TestWeave.Sdk TestWeave.Source

/-- Why the instrumentation could not be registered. -/
inductive InjectError
  | read (path : Path) (cause : IoError)
  | write (cause : IoError)
  | missingImportCfg
  | build (cause : SdkError)
  deriving DecidableEq, Repr

/-- The text of an error. -/
def InjectError.message : InjectError → String
  | .read path cause => s!"failed to read importcfg {path.text}: {cause.message}"
  | .write cause => s!"failed to write importcfg copy: {cause.message}"
  | .missingImportCfg => "command has no -importcfg flag"
  | .build cause => s!"failed to build SDK archives: {cause.message}"

/-- Where the archives of the instrumentation and of all that it is built from come from. -/
abbrev ArtifactSource := Disk → Except InjectError PackageMap × Disk

/-- The archives in a work directory. -/
def workArchives (d : Disk) (work : Path) (importPath : String) : Except InjectError PackageMap :=
  match collectArchives d work importPath with
  | .ok archives => .ok archives
  | .error (file, e) => .error (.read file e)

/-- Archives from a build of the instrumentation, which is found and built when they are asked
for. -/
def sdkBuild (locator : Locator) (importPath : String) (launch : Launcher) : ArtifactSource :=
  fun d =>
    match locator.locate launch d with
    | (.error e, d) => (.error (.build e), d)
    | (.ok location, d) =>
      match BuildCache.goBuild ⟨location.path, "go"⟩ launch [] d with
      | (.error e, d) => (.error (.build e), d)
      | (.ok work, d) => (workArchives d work importPath, d)

/-- What the import configurations of commands are extended with, and where copies are put. -/
structure Injector where
  sdk : Instrumentation
  source : ArtifactSource
  tempDir : Path
  /-- The packages that the configuration of a linker lists if it makes a test binary. -/
  required : List String

namespace Injector

/-- An injector for binaries that contain the testing package. -/
def new (sdk : Instrumentation) (source : ArtifactSource) (tempDir : Path) : Injector :=
  ⟨sdk, source, tempDir, [Known.testingPackage]⟩

/-- Makes a command use a copy of its configuration that lists every archive; says whether there
was one to add. -/
def extend (i : Injector) (c : CommandLine) (cfg : ImportCfg) (d : Disk) :
    Except InjectError Bool × CommandLine × Disk :=
  match i.source d with
  | (.error e, d) => (.error e, c, d)
  | (.ok archives, d) =>
    match cfg.addAll archives with
    | (0, _) => (.ok false, c, d)
    | (_ + 1, cfg) =>
      match d.createTemp i.tempDir "importcfg_" "" cfg.render.toUTF8 with
      | (.error e, d) => (.error (.write e), c, d)
      | (.ok copy, d) => (.ok true, c.setFlag "importcfg" copy.text, d)

/-- Whether a file parses and imports the instrumentation. -/
def usesSdk (i : Injector) (d : Disk) (path : String) : Bool :=
  match SourceFile.read d ⟨path⟩ with
  | .ok file => file.importsPath i.sdk.importPath
  | .error _ => false

/-- Registers the instrumentation with a compiler, if a file that it is given imports it. -/
def injectCompile (i : Injector) (c : CommandLine) (d : Disk) :
    Except InjectError Bool × CommandLine × Disk :=
  if c.candidates.any (i.usesSdk d) then
    match c.importcfg? with
    | none => (.error .missingImportCfg, c, d)
    | some path =>
      match ImportCfg.read d ⟨path⟩ with
      | .error e => (.error (.read ⟨path⟩ e), c, d)
      | .ok cfg => i.extend c cfg d
  else (.ok false, c, d)

/-- Registers the instrumentation with a linker, if it makes a test binary. -/
def injectLink (i : Injector) (c : CommandLine) (d : Disk) :
    Except InjectError Bool × CommandLine × Disk :=
  match c.importcfg? with
  | none => (.ok false, c, d)
  | some path =>
    match ImportCfg.read d ⟨path⟩ with
    | .error e => (.error (.read ⟨path⟩ e), c, d)
    | .ok cfg => if i.required.all cfg.contains then i.extend c cfg d else (.ok false, c, d)

end Injector

end TestWeave.Build
