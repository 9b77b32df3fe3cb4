import TestWeave.Build.Inject
import TestWeave.Build.Plan

/-!
# One command of a build

* `Processor.processCompile`: instruments the tests of a compile command, puts the changed files in
  their place, and registers the instrumentation.
* `Processor.processLink`: registers the instrumentation with a link command.
-/

namespace TestWeave.Build

open TestWeave.Command TestWeave.Host TestWeave.Source

/-- What the commands of a build are changed with. -/
structure Processor where
  sdk : Instrumentation
  injector : Injector
  tempDir : Path
  sessionDir : Path

namespace Processor

/-- A processor with session files in the directory for temporary files. -/
def new (sdk : Instrumentation) (injector : Injector) (tempDir : Path) : Processor :=
  ⟨sdk, injector, tempDir, tempDir⟩

/-- The build step of a command: the files among its candidates that parse. -/
def step (p : Processor) (c : CommandLine) (d : Disk) : Step :=
  let empty := (Step.new (c.buildId?.getD "") p.sdk p.tempDir).withSessionDir p.sessionDir
  c.candidates.foldl (fun s path =>
    match SourceFile.read d ⟨path⟩ with
    | .ok file => s.addFile file
    | .error _ => s) empty

/-- Plans, swaps and registers. A step without files has nothing planned, and a plan without
files swaps none. -/
def processCompile (p : Processor) (c : CommandLine) (d : Disk) :
    Except InjectError PathMap × CommandLine × Disk :=
  let (result, d) := (p.step c d).plan d
  let (_, c) := swapSources result c
  match p.injector.injectCompile c d with
  | (.error e, c, d) => (.error e, c, d)
  | (.ok _, c, d) => (.ok result, c, d)

/-- Registers the instrumentation with a linker; says whether the command was changed. -/
def processLink (p : Processor) (c : CommandLine) (d : Disk) :
    Except InjectError Bool × CommandLine × Disk :=
  p.injector.injectLink c d

end Processor

/-- The text of an error of a command. -/
def processMessage (e : InjectError) : String := s!"package injection failed: {e.message}"

end TestWeave.Build
