import TestWeave.Cli.Footprint
import TestWeave.Host.Shell.Run

/-!
# The command line program

Copies what a run looks at from the system to a `Disk`, runs the program on it, and copies what
has changed back. Tools are run as far as they are shell scripts.
-/

namespace TestWeave.Cli

open TestWeave.Host

/-- What was found out about the system. -/
structure Survey where
  disk : Disk
  /-- The paths that were looked at. -/
  seen : List Path

/-- Puts a node on a disk, in directories that are made for it. -/
def place (d : Disk) (p : Path) (node : Node) : Disk :=
  let made := match p.parent? with
    | some dir => (d.makePath dir).toOption.getD d
    | none => d
  match made.resolve p with
  | .ok loc => if loc.isEmpty then made else made.set loc node
  | .error _ => d

/-- Looks at a path of the system. -/
def look (s : Survey) (p : Path) : IO Survey := do
  let seen := p :: s.seen
  match ← (IO.FS.readBinFile p.text).toBaseIO with
  | .ok bytes => return ⟨place s.disk p (.file bytes true), seen⟩
  | .error (.noFileOrDirectory ..) => return ⟨s.disk, seen⟩
  | .error _ => return ⟨(s.disk.makePath p).toOption.getD s.disk, seen⟩

/-- Looks at what a run looks at, until nothing new shows. -/
partial def survey (i : Invocation) (s : Survey) : IO Survey := do
  let fresh := (footprint i s.disk).filter fun p => !p.text.isEmpty && !s.seen.contains p
  if fresh.isEmpty then return s
  survey i (← fresh.foldlM look s)

/-- Copies what a run has changed to the system. -/
def copyBack (before after : Disk) : IO Unit := do
  for (loc, node) in after.nodes.reverse do
    if before.get? loc != some node then
      let path := (Disk.pathOf loc).text
      match node with
      | .directory => IO.FS.createDirAll path
      | .file content _ => IO.FS.writeBinFile path content

/-- The variables of the environment that count. -/
def environment : IO Environment := do
  let values ← variableNames.mapM fun name => do return (← IO.getEnv name).map fun v => (name, v)
  return values.filterMap id

end TestWeave.Cli

open TestWeave TestWeave.Cli TestWeave.Host in
/-- Runs the program with the arguments and the environment it was started with. -/
def main (args : List String) : IO UInt32 := do
  let env ← environment
  let cwd := Disk.namesOf ⟨toString (← IO.currentDir)⟩
  let stamp := toString (← IO.monoMsNow)
  let start ← look ⟨{ nodes := [], cwd := cwd }, []⟩ (Disk.pathOf cwd)
  let i : Invocation := ⟨args, env, stamp⟩
  let found ← survey i start
  let (output, disk) := Program.run i (Shell.scripts env) found.disk
  copyBack found.disk disk
  (← IO.getStdout).write output.stdout
  (← IO.getStderr).write output.stderr
  return output.code.toNat.toUInt32
