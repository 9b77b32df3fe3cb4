import TestWeave.Command.Line
import TestWeave.Host.IoError

/-!
# Commands of the toolchain

* `ToolKind.detect`: which tool a command line calls.
* `Command.classify?`: a command from the words it was started with.
* `CommandError`: why a command failed, and the exit code that stands for it.
-/

namespace TestWeave.Command

/-- The tools that matter. -/
inductive ToolKind
  | compile | link | other
  deriving DecidableEq, Repr

/-- Which tool a path names. A command that asks for the version of its tool must reach it as it
is, so it counts as none of ours. -/
def ToolKind.detect (tool : Path) (args : List String) : ToolKind :=
  if args.any fun a => a == "-V" || Text.startsWith "-V=" a then .other
  else
    let name := tool.fileName?.getD ""
    match (Text.dropTail ".exe" name).getD name with
    | "compile" => .compile
    | "link" => .link
    | _ => .other

/-- A command. The arguments of tools that do not matter have no roles. -/
inductive ToolCommand
  | compile (line : CommandLine)
  | link (line : CommandLine)
  | other (tool : Path) (args : List String)
  deriving DecidableEq, Repr

/-- Why a command failed. -/
inductive CommandError
  | empty
  | launch (tool : Path) (cause : Host.IoError)
  /-- The tool ran and failed; it has no exit code if a signal ended it. -/
  | failed (tool : Path) (code : Option Int)
  deriving DecidableEq, Repr

namespace CommandError

/-- The text of an error. -/
def message : CommandError → String
  | .empty => "empty toolchain command line"
  | .launch tool cause => s!"failed to launch '{tool.text}': {cause.message}"
  | .failed tool (some code) => s!"'{tool.text}' failed with exit code {code}"
  | .failed tool none => s!"'{tool.text}' failed with no exit code (terminated by signal)"

/-- The exit code that stands for an error: that of the tool if it had one. -/
def exitCode : CommandError → Int
  | .failed _ (some code) => code
  | _ => 1

end CommandError

namespace ToolCommand

/-- The command of a list of words, the first of which is the tool. -/
def classify? : List String → Except CommandError ToolCommand
  | [] => .error .empty
  | tool :: args =>
    match ToolKind.detect ⟨tool⟩ args with
    | .compile => .ok (.compile (.compile ⟨tool⟩ args))
    | .link => .ok (.link (.link ⟨tool⟩ args))
    | .other => .ok (.other ⟨tool⟩ args)

/-- Which tool a command calls. -/
def kind : ToolCommand → ToolKind
  | .compile _ => .compile
  | .link _ => .link
  | .other _ _ => .other

/-- The tool. -/
def tool : ToolCommand → Path
  | .compile line | .link line => line.tool
  | .other tool _ => tool

/-- The arguments as they stand. -/
def args : ToolCommand → List String
  | .compile line | .link line => line.args
  | .other _ args => args

end ToolCommand

/-- The exit code of a run, and the error text to show, if any. A tool that failed has said why
itself. -/
def exitCode : Except CommandError Unit → Int × Option String
  | .ok () => (0, none)
  | .error e =>
    match e with
    | .failed _ _ => (e.exitCode, none)
    | e => (e.exitCode, some e.message)

end TestWeave.Command
