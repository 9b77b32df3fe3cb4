import TestWeave.Cli.Program
import TestWeave.Split

/-!
# What a run looks at

A run works on a `Disk`, which has to hold what the run looks at. `footprint` lists the paths that
count, as far as they are known from what the disk holds already: a settings file names checkouts,
a key file names a work directory, and the configurations in it name each other.
-/

namespace TestWeave.Cli

open TestWeave.Build TestWeave.Command TestWeave.Config TestWeave.Host TestWeave.Sdk

/-- The environment variables that count. -/
def variableNames : List String :=
  ["HOME", "PATH", "TMPDIR", "XDG_CONFIG_HOME", settingsVariable, checkoutVariable, logVariable]

/-- Where a program may be. -/
def programPaths (env : Environment) (name : String) : List Path :=
  if name.toList.contains '/' then [⟨name⟩]
  else (splitWhere (· == ':') ((env.get? "PATH").getD "").toList).map fun dir =>
    Path.join ⟨String.ofList dir⟩ ⟨name⟩

/-- The paths that arguments may name. -/
def namedPaths (words : List String) : List Path :=
  words.flatMap fun w => ⟨w⟩ :: ((Text.splitOnce '=' w).toList.map fun (_, value) => ⟨value⟩)

/-- The session files of a command. -/
def sessionPaths (env : Environment) (words : List String) : List Path :=
  match ToolCommand.classify? words with
  | .ok (.compile line) =>
    let s := Session.new (tempDir env) (line.buildId?.getD "")
    [s.path, s.lockPath]
  | _ => []

/-- The checkouts that are looked at, and what a build has left in them. -/
def checkoutPaths (s : Settings) (env : Environment) (d : Disk) : List Path :=
  let locator := locatorOf s.sdk (tempDir env)
  (locator.candidates.map (·.join packageDir)).flatMap fun dir =>
    let key := BuildCache.keyPath ⟨dir, "go"⟩ (BuildCache.buildArgs [])
    let work := match d.readText key with
      | .ok text => [Path.mk (Text.trim text)]
      | .error _ => []
    [dir, key] ++ work.flatMap fun work =>
      [work, (work.join rootPackageDir).join ⟨importcfgName⟩]

/-- The paths that count for a run. -/
def footprint (i : Invocation) (d : Disk) : List Path :=
  let words := match Request.read i.args with
    | .command words => words
    | _ => []
  let checkouts := match load i.env d with
    | .ok s => checkoutPaths s i.env d
    | .error _ => []
  [settingsPath i.env, tempDir i.env] ++ namedPaths words ++
    ((words.head?.toList ++ ["git", "go"]).flatMap (programPaths i.env)) ++
    sessionPaths i.env words ++ checkouts ++ (mentionedDirs d).map (·.join ⟨importcfgName⟩)

end TestWeave.Cli
