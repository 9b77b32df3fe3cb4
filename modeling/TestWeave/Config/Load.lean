import TestWeave.Config.Settings
import TestWeave.Host.Launch
import TestWeave.Toml.Document

/-!
# Loading settings

* `settingsPath`: where the settings file is, from the environment.
* `loadFrom`: the settings of a file; those where nothing is configured if it is not there.
* `load`: the settings of the settings file, with what the environment sets.
-/

namespace TestWeave.Config

open TestWeave.Host

/-- The variable that names the settings file. -/
def settingsVariable : String := "TESTINJECT_CONFIG"

/-- The variable that names a checkout of the instrumentation. -/
def checkoutVariable : String := "TESTINJECT_SDK_PATH"

/-- The variable that names the log file. -/
def logVariable : String := "TESTINJECT_LOG"

/-- The home directory where the environment names none. -/
def fallbackHome : String := "/root"

/-- Why settings could not be loaded. -/
inductive ConfigError
  | read (path : Path) (cause : IoError)
  | malformed (path : Path)
  | invalid (reason : InvalidSettings)
  deriving DecidableEq, Repr

/-- The text of an error. -/
def ConfigError.message : ConfigError → String
  | .read path cause => s!"Failed to read config file '{path.text}': {cause.message}"
  | .malformed path => s!"Failed to parse config file '{path.text}'"
  | .invalid reason => s!"Config validation failed: {reason.message}"

/-- The directory of settings files: as the environment says, if it says so by an absolute path,
or else in the home directory. -/
def settingsDir (env : Environment) : Path :=
  match ((env.get? "XDG_CONFIG_HOME").map Path.mk).filter (·.isAbsolute) with
  | some dir => dir
  | none => Path.join ⟨(env.nonempty? "HOME").getD fallbackHome⟩ ⟨".config"⟩

/-- The settings file. -/
def settingsPath (env : Environment) : Path :=
  match env.get? settingsVariable with
  | some path => ⟨path⟩
  | none => ((settingsDir env).join ⟨"testinject"⟩).join ⟨"config.toml"⟩

/-- The settings that a text describes, if they can be used. -/
def readSettings (path : Path) (text : String) : Except ConfigError Settings :=
  match (Toml.Document.read text).bind Settings.ofEntries? with
  | none => .error (.malformed path)
  | some s =>
    match s.validate with
    | .ok () => .ok s
    | .error reason => .error (.invalid reason)

/-- The settings of a file. -/
def loadFrom (d : Disk) (path : Path) : Except ConfigError Settings :=
  if d.exists? path then
    match d.readText path with
    | .ok text => readSettings path text
    | .error e => .error (.read path e)
  else .ok .default

/-- What the environment sets counts more than what a file says. -/
def Settings.override (s : Settings) (env : Environment) : Settings where
  sdk := { s.sdk with path := ((env.nonempty? checkoutVariable).map Path.mk).or s.sdk.path }
  logging := { s.logging with file := ((env.nonempty? logVariable).map Path.mk).or s.logging.file }

/-- The settings of the program. -/
def load (env : Environment) (d : Disk) : Except ConfigError Settings :=
  (loadFrom d (settingsPath env)).map (·.override env)

end TestWeave.Config
