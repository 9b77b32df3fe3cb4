import TestWeave.Command.Tool
import TestWeave.Host.Launch

/-!
# Running the commands of the toolchain

* `ToolCommand.run`: runs the tool of a command with its arguments as they stand.
-/

namespace TestWeave.Command

open TestWeave.Host

/-- What came of running a command. -/
structure Ran where
  outcome : Except CommandError Unit
  stdout : ByteArray
  stderr : ByteArray

/-- Runs a command. The tool prints to where the program itself prints. -/
def ToolCommand.run (c : ToolCommand) (launch : Launcher) (d : Disk) : Ran × Disk :=
  match launch ⟨c.tool.text, c.args, none⟩ d with
  | (.error e, d) => (⟨.error (.launch c.tool e), ByteArray.empty, ByteArray.empty⟩, d)
  | (.ok f, d) =>
    let outcome := if f.succeeded then .ok () else .error (.failed c.tool f.code)
    (⟨outcome, f.stdout, f.stderr⟩, d)

end TestWeave.Command
