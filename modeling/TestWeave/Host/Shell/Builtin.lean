import TestWeave.Host.Shell.Print
import TestWeave.Host.Shell.State
import TestWeave.Host.Shell.Word
import TestWeave.Text.Blank

/-!
# Built-in commands

* `builtin?`: what a command does that the shell knows itself.
-/

namespace TestWeave.Host.Shell

/-- Whether a test holds; `none` if it is none. -/
def test? (d : Disk) (args : List String) : Option Bool :=
  match args with
  | [] => some false
  | [a] => some (!a.isEmpty)
  | ["!", a] => some a.isEmpty
  | ["-n", a] => some (!a.isEmpty)
  | ["-z", a] => some a.isEmpty
  | ["-e", a] => some (d.exists? ⟨a⟩)
  | ["-f", a] => some (d.isFile ⟨a⟩)
  | ["-d", a] => some (d.isDirectory ⟨a⟩)
  | ["-r", a] | ["-w", a] => some (d.exists? ⟨a⟩)
  | ["-x", a] => some (match d.lookup ⟨a⟩ with
    | .ok (.file _ executable) => executable
    | .ok .directory => true
    | .error _ => false)
  | ["-s", a] => some (match d.lookup ⟨a⟩ with
    | .ok (.file content _) => content.size != 0
    | .ok .directory => true
    | .error _ => false)
  | ["!", op, a] => (test? d [op, a]).map (!·)
  | [a, "=", b] => some (a == b)
  | [a, "!=", b] => some (a != b)
  | [a, op, b] => do
    let x ← a.toInt?
    let y ← b.toInt?
    match op with
    | "-eq" => some (x == y)
    | "-ne" => some (x != y)
    | "-lt" => some (x < y)
    | "-le" => some (x ≤ y)
    | "-gt" => some (x > y)
    | "-ge" => some (x ≥ y)
    | _ => none
  | ["!", a, op, b] => (test? d [a, op, b]).map (!·)
  | [a, op, b, "-a", c, op', d'] => do return (← test? d [a, op, b]) && (← test? d [c, op', d'])
  | [a, op, b, "-o", c, op', d'] => do return (← test? d [a, op, b]) || (← test? d [c, op', d'])
  | _ => none

/-- Reads a line of the input into variables; the last one takes what is left. -/
def readLine (names : List String) (s : State) : State :=
  let text := (Text.Utf8.decodeLossy s.input).toList
  let line := text.takeWhile (· != '\n')
  let rest := text.dropWhile (· != '\n')
  let s := { s with input := (String.ofList rest.tail).toUTF8 }
  let s := assignFields names line s
  s.withStatus (if rest.isEmpty then 1 else 0)
where
  /-- Gives variables the fields of a line. -/
  assignFields : List String → List Char → State → State
    | [], _, s => s
    | [name], line, s => s.assign name (String.ofList (trimmed line))
    | name :: names, line, s =>
      let field := (dropBlanks line).takeWhile fun c => c != ' ' && c != '\t'
      assignFields names ((dropBlanks line).drop field.length)
        (s.assign name (String.ofList field))
  /-- A line without the blanks at its ends. -/
  trimmed (line : List Char) : List Char := (dropBlanks (dropBlanks line).reverse).reverse

/-- The commands that the shell knows itself. -/
def builtin? (args : List String) (s : State) : Option (Flow × State) :=
  let done (s : State) (ok : Bool) : Option (Flow × State) :=
    some (.next, s.withStatus (if ok then 0 else 1))
  match args with
  | ":" :: _ | "true" :: _ => done s true
  | "false" :: _ => done s false
  | "echo" :: args => done (s.print (echoBytes args)) true
  | "printf" :: format :: args => done (s.print (formatBytes format args)) true
  | ["pwd"] => done (s.print (s.disk.cwdPath.text ++ "\n").toUTF8) true
  | ["cd", dir] =>
    match s.disk.isDirectory ⟨dir⟩, s.disk.resolve ⟨dir⟩ with
    | true, .ok loc =>
      let s := { s with disk := { s.disk with cwd := loc } }
      done (s.assign "PWD" s.disk.cwdPath.text) true
    | _, _ => some (.next, (s.complainHere s!"cd: can't cd to {dir}").withStatus 2)
  | "exit" :: code | "return" :: code =>
    match code with
    | [] => some (.exited, s)
    | code :: _ =>
      match code.toNat? with
      | some n => some (.exited, s.withStatus (n % 256))
      | none => some (.exited, (s.complainHere s!"exit: Illegal number: {code}").withStatus 2)
  | "kill" :: args => if args.getLast? == some ownPid then some (.killed, s) else done s false
  | "shift" :: count =>
    let n := ((count.head?.bind String.toNat?).getD 1)
    if n ≤ s.args.length then done { s with args := s.args.drop n } true
    else some (.exited, (s.complainHere "shift: can't shift that many").withStatus 2)
  | "break" :: _ => some (.broke, s.withStatus 0)
  | "continue" :: _ => some (.skipped, s.withStatus 0)
  | "read" :: names => some (.next, readLine (names.filter (· != "-r")) s)
  | "export" :: names =>
    done (names.foldl (fun s n => match Text.splitOnce '=' n with
      | some (name, value) => s.assign name value
      | none => s) s) true
  | "unset" :: names => done { s with vars := s.vars.filter fun v => !names.contains v.1 } true
  | "set" :: "--" :: args => done { s with args } true
  | "set" :: options =>
    let switched (sign : String) : Bool :=
      options.any fun o => Text.startsWith sign o && Text.contains "e" o
    done { s with strict := switched "-" || s.strict && !switched "+" } true
  | "umask" :: _ | "trap" :: _ | "wait" :: _ => done s true
  | "[" :: rest | "test" :: rest =>
    let operands := if args.head? == some "[" then rest.dropLast else rest
    match test? s.disk operands with
    | some holds => done s holds
    | none => some (.next, s.withStatus 2)
  | _ => none

end TestWeave.Host.Shell
