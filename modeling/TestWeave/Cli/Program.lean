import TestWeave.Build.Process
import TestWeave.Cli.Request
import TestWeave.Command.Run
import TestWeave.Config.Load

/-!
# The program

* `Program.run`: what the program prints, how it ends and what it does to the disk.
-/

namespace TestWeave.Cli

open TestWeave.Build TestWeave.Command TestWeave.Config TestWeave.Host TestWeave.Sdk

/-- How the program is started. -/
structure Invocation where
  args : List String
  env : Environment
  /-- Tells the log file of one run from those of others. -/
  stamp : String

/-- What the program prints and how it ends. -/
structure Output where
  code : Int
  stdout : ByteArray
  stderr : ByteArray

/-- The name and version of the program. -/
def versionText : String := "testinject 0.1.0\n"

/-- How the program is called. -/
def usageText : String := "Usage: testinject [TOOL ARGS]...\n"

/-- What the argument of the program is. -/
def argumentText : String :=
  "Toolchain command to wrap: the real tool path followed by its arguments\n"

/-- What the program says about itself in a few lines. -/
def shortHelp : String := String.join [
  "go test -toolexec wrapper that routes tests and subtests through a tracing SDK\n\n",
  usageText,
  "\nArguments:\n",
  "  [TOOL ARGS]...  ", argumentText,
  "\nOptions:\n",
  "  -h, --help     Print help (see more with '--help')\n",
  "  -V, --version  Print version\n"]

/-- What the program says about itself at length. -/
def longHelp : String := String.join [
  "Run as `go test -toolexec=testinject ./...`. ",
  "Without a tool command, locates (or downloads) the SDK and prints where it is.\n\n",
  usageText,
  "\nArguments:\n",
  "  [TOOL ARGS]...\n          ", argumentText,
  "\nOptions:\n",
  "  -h, --help\n          Print help (see a summary with '-h')\n\n",
  "  -V, --version\n          Print version\n"]

namespace Output

/-- Prints a text and ends well. -/
def say (text : String) : Output := ⟨0, text.toUTF8, ByteArray.empty⟩

/-- Complains and ends with an exit code. -/
def complain (code : Int) (text : String) : Output := ⟨code, ByteArray.empty, text.toUTF8⟩

/-- Says why the program itself failed: what it was about to do, and the causes, the outermost
first. -/
def failure (doing : String) (causes : List String) : Output :=
  complain 1 ("testinject: " ++ String.intercalate ": " (doing :: causes) ++ "\n")

/-- Puts complaints before the others. -/
def warned (text : String) (o : Output) : Output := { o with stderr := text.toUTF8 ++ o.stderr }

end Output

/-! ### Causes -/

/-- The texts of an error and of what caused it. -/
def configCauses (e : ConfigError) : List String :=
  match e with
  | .read _ cause => [e.message, cause.message]
  | _ => [e.message]

/-- The texts of an error and of what caused it. -/
def sdkCauses (e : SdkError) : List String :=
  match e with
  | .launch _ cause => [e.message, cause.message]
  | _ => [e.message]

/-- The texts of an error and of what caused it. -/
def injectCauses (e : InjectError) : List String :=
  match e with
  | .read _ cause | .write cause => [e.message, cause.message]
  | .missingImportCfg => [e.message]
  | .build cause => e.message :: sdkCauses cause

/-! ### Parts of a run -/

/-- The directory for temporary files. -/
def tempDir (env : Environment) : Path := ⟨(env.get? "TMPDIR").getD "/tmp"⟩

/-- Where the instrumentation is looked for. -/
def locatorOf (s : SdkSettings) (tempDir : Path) : Locator where
  configured := s.path
  tempDir
  repository := s.repository
  revision := s.revision

/-- Begins the log, if one is asked for. A log that cannot be begun is complained about, and the
run goes on. -/
def beginLog (s : LoggingSettings) (stamp : String) (d : Disk) : String × Disk :=
  match s.file with
  | none => ("", d)
  | some base =>
    let path := s!"{base.text}.{stamp}"
    match d.write ⟨path⟩ ByteArray.empty with
    | .ok d => ("", d)
    | .error _ => (s!"testinject: failed to create log file: {path}\n", d)

/-- Finds the instrumentation, or fetches it, and says where it is. -/
def reportSdk (l : Locator) (launch : Launcher) (d : Disk) : Output × Disk :=
  match l.locate launch d with
  | (.ok (.found p), d) => (.say s!"SDK found at: {p.text}\n", d)
  | (.ok (.fetched p), d) => (.say s!"SDK downloaded to: {p.text}\n", d)
  | (.error e, d) => (.failure "failed to locate the SDK" (sdkCauses e), d)

/-- Runs a command. The program ends as the tool does. -/
def runTool (c : ToolCommand) (launch : Launcher) (d : Disk) : Output × Disk :=
  let (ran, d) := c.run launch d
  let (code, complaint) := exitCode ran.outcome
  let complaint := (complaint.map fun text => s!"testinject: {text}\n").getD ""
  (⟨code, ran.stdout, ran.stderr ++ complaint.toUTF8⟩, d)

/-- Says that a command could not be instrumented. -/
def notInstrumented (tool : String) (e : InjectError) : Output :=
  .failure s!"failed to instrument {tool} command" (processMessage e :: injectCauses e)

/-- Instruments a command and runs it. -/
def runCommand (p : Processor) (c : ToolCommand) (launch : Launcher) (d : Disk) : Output × Disk :=
  match c with
  | .compile line =>
    match p.processCompile line d with
    | (.ok _, line, d) => runTool (.compile line) launch d
    | (.error e, _, d) => (notInstrumented "compile" e, d)
  | .link line =>
    match p.processLink line d with
    | (.ok _, line, d) => runTool (.link line) launch d
    | (.error e, _, d) => (notInstrumented "link" e, d)
  | other => runTool other launch d

/-- Carries out the command of a tool under settings. -/
def runWords (s : Settings) (env : Environment) (words : List String) (launch : Launcher)
    (d : Disk) : Output × Disk :=
  let temp := tempDir env
  let locator := locatorOf s.sdk temp
  match ToolCommand.classify? words with
  | .error _ => reportSdk locator launch d
  | .ok c =>
    let sdk := s.sdk.instrumentation
    let injector := Injector.new sdk (sdkBuild locator s.sdk.importPath launch) temp
    runCommand (Processor.new sdk injector temp) c launch d

namespace Program

/-- Runs the program. -/
def run (i : Invocation) (launch : Launcher) (d : Disk) : Output × Disk :=
  match Request.read i.args with
  | .version => (.say versionText, d)
  | .help long => (.say (if long then longHelp else shortHelp), d)
  | .unexpectedValue option value =>
    (.complain 2 (s!"error: unexpected value '{value}' for '{option}' found; " ++
      s!"no more were expected\n\n{usageText}\nFor more information, try '--help'.\n"), d)
  | .command words =>
    match load i.env d with
    | .error e => (.failure "failed to load configuration" (configCauses e), d)
    | .ok s =>
      let (complaint, d) := beginLog s.logging i.stamp d
      let (o, d) := runWords s i.env words launch d
      (o.warned complaint, d)

end Program

end TestWeave.Cli
