import TestWeave.Host.Launch

/-!
# The state of a running script

* `State`: the disk, the variables, the streams and the status of a script.
* `Flow`: how a part of a script ended.
-/

namespace TestWeave.Host.Shell

/-- Where a stream of a program goes. -/
inductive Sink
  | stdout
  | stderr
  | file (loc : Location)
  deriving DecidableEq

/-- What a running script has. -/
structure State where
  disk : Disk
  vars : Environment
  /-- The path the script was started by. -/
  name : String
  args : List String
  /-- The line of the command that runs. -/
  line : Nat
  status : Int
  input : ByteArray
  out : ByteArray
  err : ByteArray
  stream1 : Sink
  stream2 : Sink
  /-- Whether a command that fails ends the script. -/
  strict : Bool
  /-- Whether a failure is asked about, so that it ends nothing. -/
  guarded : Bool

/-- How a part of a script ended. -/
inductive Flow
  | next
  | exited
  | killed
  /-- Leaves the loop. -/
  | broke
  /-- Leaves the round of the loop. -/
  | skipped
  deriving DecidableEq

/-- The process number that scripts see. -/
def ownPid : String := "4242"

namespace State

/-- The state at the start of a script. -/
def initial (disk : Disk) (env : Environment) (name : String) (args : List String)
    (input : ByteArray) : State where
  disk
  vars := ("PWD", disk.cwdPath.text) :: env.filter (·.1 != "PWD")
  name
  args
  line := 1
  status := 0
  input
  out := ByteArray.empty
  err := ByteArray.empty
  stream1 := .stdout
  stream2 := .stderr
  strict := false
  guarded := false

/-- Sends bytes where a stream goes. -/
def emit (s : State) (stream : Nat) (bytes : ByteArray) : State :=
  match if stream = 2 then s.stream2 else s.stream1 with
  | .stdout => { s with out := s.out ++ bytes }
  | .stderr => { s with err := s.err ++ bytes }
  | .file loc =>
    match s.disk.get? loc with
    | some (.file content executable) =>
      { s with disk := s.disk.set loc (.file (content ++ bytes) executable) }
    | _ => s

/-- Prints bytes. -/
def print (s : State) (bytes : ByteArray) : State := s.emit 1 bytes

/-- Prints a complaint. -/
def complain (s : State) (text : String) : State := s.emit 2 (text ++ "\n").toUTF8

/-- Prints a complaint of the shell about the line that runs. -/
def complainHere (s : State) (text : String) : State := s.complain s!"{s.name}: {s.line}: {text}"

/-- Sets the status that the last command ended with. -/
def withStatus (s : State) (status : Int) : State := { s with status }

/-- Gives a variable a value. -/
def assign (s : State) (name value : String) : State :=
  { s with vars := (name, value) :: s.vars.filter (·.1 != name) }

/-- The value of a parameter, if it has one. -/
def param? (s : State) (name : String) : Option String :=
  match name with
  | "#" => some (toString s.args.length)
  | "?" => some (toString s.status)
  | "$" => some ownPid
  | "0" => some s.name
  | "@" | "*" => if s.args.isEmpty then none else some (String.intercalate " " s.args)
  | "!" | "-" => some ""
  | name =>
    match name.toNat? with
    | some n => s.args[n - 1]?
    | none => s.vars.get? name

/-- The number that is the value of a name. -/
def number (s : State) (name : String) : Int := ((s.param? name).bind String.toInt?).getD 0

/-- Takes over what a script did to the outside, but none of its variables. -/
def after (s t : State) : State :=
  { s with
    disk := { t.disk with cwd := s.disk.cwd }
    out := t.out
    err := t.err
    status := t.status
    input := t.input }

end State

end TestWeave.Host.Shell
