import TestWeave.Host.IoError
import TestWeave.Path

/-!
# Errors of fetching and building the instrumentation
-/

namespace TestWeave.Sdk

open TestWeave.Host

/-- Why the instrumentation could not be had. -/
inductive SdkError
  | launch (program : String) (cause : IoError)
  /-- A program ran and failed; it has no exit code if a signal ended it. -/
  | failed (program : String) (code : Option Int) (output : String)
  | missingWorkDir (output : String)
  | missingPackage (path : Path)
  deriving DecidableEq, Repr

/-- An exit code that may be absent, as errors show it. -/
def codeText : Option Int → String
  | some code => s!"Some({code})"
  | none => "None"

/-- The text of an error. -/
def SdkError.message : SdkError → String
  | .launch program cause => s!"failed to launch {program}: {cause.message}"
  | .failed program code output =>
    s!"{program} failed with exit code {codeText code}:\n{output}"
  | .missingWorkDir output => s!"go build did not report a WORK directory:\n{output}"
  | .missingPackage path => s!"SDK package folder {path.text} is missing after checkout"

end TestWeave.Sdk
