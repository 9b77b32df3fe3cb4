import TestWeave.Host.Shell.Print
import TestWeave.Host.Shell.State
import TestWeave.Split
import TestWeave.Text.Blank

/-!
# Programs that scripts start

* `systemProgram?`: what the programs do that every system has.
* `findProgram`: the program of a name.
-/

namespace TestWeave.Host.Shell

/-- The text of a cause in complaints of programs. -/
def plainCause : IoError → String
  | .notFound => "No such file or directory"
  | .isDirectory => "Is a directory"
  | .notDirectory => "Not a directory"
  | .exists => "File exists"
  | _ => "Permission denied"

/-- Removes a file, or a directory if that is asked for. -/
def removeAt (recursive : Bool) (d : Disk) (p : Path) : Except IoError Disk := do
  match ← d.lookup p with
  | .directory => if recursive then d.removeDirectory p else throw .isDirectory
  | .file _ _ => return d.remove (← d.resolve p)

/-- Where a file goes that is copied to a path: into it if it is a directory. -/
def targetOf (d : Disk) (source target : Path) : Path :=
  if d.isDirectory target then target.join ⟨source.fileName?.getD ""⟩ else target

/-- Copies a file. -/
def copyFile (d : Disk) (source target : Path) : Except IoError Disk := do
  d.write (targetOf d source target) (← d.read source)

/-- Programs that every system has, by their last names. -/
def systemProgram? (path name : String) (args : List String) (s : State) : Option State :=
  let options := args.filter (Text.startsWith "-")
  let operands := args.filter (!Text.startsWith "-" ·)
  let has (option : String) : Bool := options.any (Text.contains option)
  let each (complaint : String → IoError → Option String)
      (f : Disk → Path → Except IoError Disk) (paths : List String) : State :=
    paths.foldl (fun s p => match f s.disk ⟨p⟩ with
      | .ok disk => { s with disk }
      | .error e =>
        match complaint p e with
        | some text => (s.complain s!"{path}: {text}").withStatus 1
        | none => s) (s.withStatus 0)
  match name with
  | "mkdir" =>
    some (each (fun p e => some s!"cannot create directory '{p}': {plainCause e}")
      (fun d p => if !has "p" && d.exists? p then .error .exists else d.makePath p) operands)
  | "touch" =>
    some (each (fun p e => some s!"cannot touch '{p}': {plainCause e}") Disk.touch operands)
  | "rm" =>
    some (each (fun p e =>
        if has "f" && e == .notFound then none else some s!"cannot remove '{p}': {plainCause e}")
      (removeAt (has "r")) operands)
  | "rmdir" =>
    some (each (fun p e => some s!"failed to remove '{p}': {plainCause e}")
      Disk.removeDirectory operands)
  | "chmod" =>
    let marks (mode : String) (d : Disk) (p : Path) : Except IoError Disk := do
      match ← d.lookup p with
      | .file content _ =>
        return d.set (← d.resolve p) (.file content (Text.contains "x" mode || mode == "755"))
      | .directory => return d
    some (each (fun p e => some s!"cannot access '{p}': {plainCause e}")
      (marks (args.headD "")) args.tail)
  | "cp" | "mv" =>
    match operands with
    | [source, target] =>
      let move (d : Disk) (p : Path) : Except IoError Disk := do
        let d ← copyFile d p ⟨target⟩
        if name = "mv" then removeAt false d p else return d
      some (each (fun p e => some s!"cannot stat '{p}': {plainCause e}") move [source])
    | _ => some (s.withStatus 1)
  | "cat" =>
    if operands.isEmpty then some ((s.print s.input).withStatus 0)
    else some (operands.foldl (fun s p => match s.disk.read ⟨p⟩ with
      | .ok bytes => s.print bytes
      | .error e => (s.complain s!"{path}: {p}: {plainCause e}").withStatus 1) (s.withStatus 0))
  | "echo" => some ((s.print (String.intercalate " " args ++ "\n").toUTF8).withStatus 0)
  | "printf" => some ((s.print (formatBytes (args.headD "") args.tail)).withStatus 0)
  | "true" | "sleep" => some (s.withStatus 0)
  | "false" => some (s.withStatus 1)
  | _ => none

/-- The directories of the programs that every system has. -/
def systemDirs : List String := ["/bin/", "/usr/bin/"]

/-- What a program file is. -/
inductive Program
  | system (name : String)
  | script (path : String) (content : ByteArray)

/-- The program at a path, if it can be started. -/
def programAt (d : Disk) (path : String) : Except IoError Program :=
  match systemDirs.findSome? fun dir => Text.dropLead dir path with
  | some name => .ok (.system name)
  | none =>
    match d.lookup ⟨path⟩ with
    | .error e => .error e
    | .ok .directory => .error .denied
    | .ok (.file content executable) =>
      if !executable then .error .denied
      else if Text.startsWith "#!" (Text.Utf8.decodeLossy content) then .ok (.script path content)
      else .error .badFormat

/-- The program of a name: that at the path it is, or the first in the directories of `PATH`. -/
def findProgram (d : Disk) (env : Environment) (name : String) : Except IoError Program :=
  if name.isEmpty then .error .notFound
  else if name.toList.contains '/' then programAt d name
  else
    let dirs := (splitWhere (· == ':') ((env.get? "PATH").getD "/bin:/usr/bin").toList).map
      String.ofList
    let tries := dirs.map fun dir => programAt d (if dir.isEmpty then name else dir ++ "/" ++ name)
    match tries.find? (·.isOk) with
    | some found => found
    | none =>
      if tries.any fun t => match t with
        | .error .denied => true
        | _ => false
      then .error .denied else .error .notFound

end TestWeave.Host.Shell
