import TestWeave.Host.Shell.Builtin
import TestWeave.Host.Shell.Expand
import TestWeave.Host.Shell.Program
import TestWeave.Host.Shell.Read

/-!
# Running shell scripts

* `run`: runs a script on a disk, with a bound on the number of steps.
* `scripts`: the launcher for programs that are shell scripts.
-/

namespace TestWeave.Host.Shell

/-- Opens the files of redirections and sends the streams there. -/
def redirect (substitute : Substitute) (s : State) : List Redirect → Except State State
  | [] => .ok s
  | .input source :: rs =>
    let (source, s) := expandOne substitute s source
    match s.disk.read ⟨source⟩ with
    | .error e =>
      let why := if e = .notFound then "No such file" else plainCause e
      .error ((s.complainHere s!"cannot open {source}: {why}").withStatus 2)
    | .ok input => redirect substitute { s with input } rs
  | .copy stream source :: rs =>
    let sink := if source = 2 then s.stream2 else s.stream1
    redirect substitute
      (if stream = 2 then { s with stream2 := sink } else { s with stream1 := sink }) rs
  | .file stream append target :: rs =>
    let (target, s) := expandOne substitute s target
    match s.disk.openForWriting ⟨target⟩ with
    | .error e =>
      let why := if e = .notFound then "Directory nonexistent" else plainCause e
      .error ((s.complainHere s!"cannot create {target}: {why}").withStatus 2)
    | .ok (loc, content, executable) =>
      let content := if append then content else ByteArray.empty
      let s := { s with disk := s.disk.set loc (.file content executable) }
      redirect substitute
        (if stream = 2 then { s with stream2 := .file loc } else { s with stream1 := .file loc })
        rs

/-- Ends the script after a failure, if failures do that here. -/
def settle (flow : Flow) (s : State) : Flow × State :=
  if flow = .next ∧ s.status ≠ 0 ∧ s.strict = true ∧ s.guarded = false then (.exited, s)
  else (flow, s)

/-- What is left of how a part ended where another script or process ends too. -/
def Flow.contained : Flow → Flow
  | .killed => .killed
  | _ => .next

/-- Runs a script. The number bounds how deep commands, loops and scripts may nest. -/
def run : Nat → Script → State → Flow × State
  | 0, _, s => (.killed, s)
  | fuel + 1, script, s =>
    /- runs a script that was read from a text -/
    let runText (line : Nat) (source : List Char) (s : State) : Flow × State :=
      match Script.read? line source with
      | some inner => run fuel inner s
      | none => (.exited, s.withStatus 2)
    /- what a script prints that stands for a part of a word -/
    let substitute : Substitute := fun source s =>
      let (_, t) := runText s.line source { s with out := ByteArray.empty, stream1 := .stdout }
      (Text.Utf8.decodeLossy t.out, { s.after t with out := s.out })
    /- runs with streams redirected and puts them back -/
    let within (rs : List Redirect) (s : State) (body : State → Flow × State) : Flow × State :=
      match redirect substitute s rs with
      | .error t => (.next, { t with stream1 := s.stream1, stream2 := s.stream2 })
      | .ok t =>
        let (flow, u) := body t
        let input := if rs.any fun r => match r with
            | .input _ => true
            | _ => false
          then s.input else u.input
        (flow, { u with stream1 := s.stream1, stream2 := s.stream2, input })
    /- runs what is asked about -/
    let ask (test : Script) (s : State) : Flow × State :=
      let (flow, t) := run fuel test { s with guarded := true }
      (flow, { t with guarded := s.guarded })
    /- starts a program -/
    let start (words : List String) (who : String) (s : State) (env : State) : Flow × State :=
      let program := words.headD ""
      match findProgram s.disk s.vars program with
      | .ok (.system name) =>
        match systemProgram? program name words.tail s with
        | some s => (.next, s)
        | none => (.next, (s.complainHere s!"{who}{program}: not found").withStatus 127)
      | .ok (.script path content) =>
        let fresh := { env with
          name := path
          args := words.tail
          line := 1
          status := 0
          strict := false
          guarded := false }
        let (flow, t) := runText 1 (Text.Utf8.decodeLossy content).toList fresh
        (.next, (s.after t).withStatus (if flow = .killed then 137 else t.status))
      | .error .denied =>
        (.next, (s.complainHere s!"{who}{program}: Permission denied").withStatus 126)
      | .error _ => (.next, (s.complainHere s!"{who}{program}: not found").withStatus 127)
    match script with
    | .skip => (.next, s)
    | .seq a b =>
      match run fuel a s with
      | (.next, s) => run fuel b s
      | ended => ended
    | .both a b =>
      match ask a s with
      | (.next, s) => if s.status = 0 then run fuel b s else (.next, s)
      | ended => ended
    | .either a b =>
      match ask a s with
      | (.next, s) => if s.status = 0 then (.next, s) else run fuel b s
      | ended => ended
    | .negate a =>
      let (flow, s) := ask a s
      (flow, s.withStatus (if s.status = 0 then 1 else 0))
    | .pipe a b =>
      let (_, t) := run fuel a { s with out := ByteArray.empty, stream1 := .stdout }
      let (flow, u) := run fuel b
        { s.after t with out := s.out, input := t.out }
      (flow.contained, { s.after u with input := s.input })
    | .cond c yes no =>
      match ask c s with
      | (.next, s) => if s.status = 0 then run fuel yes s else run fuel no (s.withStatus 0)
      | ended => ended
    | .loop untilSuccess c body =>
      match ask c s with
      | (.next, s) =>
        if (s.status == 0) != untilSuccess then
          match run fuel body s with
          | (.next, s) | (.skipped, s) => run fuel script s
          | (.broke, s) => (.next, s)
          | ended => ended
        else (.next, s.withStatus 0)
      | ended => ended
    | .each name words body =>
      let (values, s) := match words with
        | some words => expandAll substitute s words
        | none => (s.args, s)
      let (flow, s) := values.foldl (fun (flow, s) value =>
        match flow with
        | .next | .skipped => run fuel body (s.assign name value)
        | flow => (flow, s)) (.next, s.withStatus 0)
      (if flow = .broke ∨ flow = .skipped then .next else flow, s)
    | .choose subject branches =>
      let (value, s) := expandOne substitute s subject
      run fuel branches (s.assign " choice" value)
    | .branch patterns body rest =>
      let value := (s.vars.get? " choice").getD ""
      let (patterns, s) := patterns.foldl (fun (ps, s) p =>
        let (p, s) := expandOne substitute s p
        (ps ++ [p], s)) (([] : List String), s)
      if patterns.any fun p => fits p.toList value.toList then run fuel body (s.withStatus 0)
      else run fuel rest s
    | .group body rs => within rs s (run fuel body)
    | .subshell body rs =>
      let (flow, s) := within rs s fun s =>
        let (flow, t) := run fuel body s
        (flow.contained, s.after t)
      settle flow s
    | .command line assigns words rs =>
      let s := { s with line }
      let (args, s) := expandAll substitute s words
      let assigned (s : State) : State := assigns.foldl (fun s (name, value) =>
        let (value, s) := expandOne substitute s value
        s.assign name value) s
      let (flow, s) := match args with
        | [] => within rs (assigned (s.withStatus 0)) fun s => (.next, s)
        | "exec" :: program :: args =>
          let (_, s) := within rs s fun s => start (program :: args) "exec: " s (assigned s)
          (.exited, s)
        | args =>
          within rs s fun s =>
            match builtin? args s with
            | some result => result
            | none => start args "" s (assigned s)
      settle flow s

/-- The bound on nested steps of a program. -/
def stepLimit : Nat := 10000

/-- Starts programs that are shell scripts, with the given variables. -/
def scripts (env : Environment) : Launcher := fun l d =>
  if (l.program :: l.args ++ (l.dir.map (·.text)).toList).any (·.toList.contains '\x00') then
    (.error .nulInArgument, d)
  else
    let place : Except IoError Location := match l.dir with
      | none => .ok d.cwd
      | some dir => do
        match ← d.lookup dir with
        | .directory => d.resolve dir
        | .file _ _ => throw .notDirectory
    match place with
    | .error e => (.error e, d)
    | .ok cwd =>
      let there := { d with cwd }
      let start (name : String) : State := .initial there env name l.args ByteArray.empty
      let finish (flow : Flow) (s : State) : Except IoError Finished × Disk :=
        (.ok ⟨if flow = Flow.killed then none else some s.status, s.out, s.err⟩,
          { s.disk with cwd := d.cwd })
      match findProgram there env l.program with
      | .error e => (.error e, d)
      | .ok (.system name) =>
        match systemProgram? l.program name l.args (start l.program) with
        | some s => finish .next s
        | none => (.error .notFound, d)
      | .ok (.script path content) =>
        match Script.read? 1 (Text.Utf8.decodeLossy content).toList with
        | none => finish .next ((start path).withStatus 2)
        | some script =>
          let (flow, s) := run stepLimit script (start path)
          finish flow s

end TestWeave.Host.Shell
