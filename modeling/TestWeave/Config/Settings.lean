import TestWeave.Path
import TestWeave.Source.Instrumentation
import TestWeave.Text.Blank
import TestWeave.Text.Letter
import TestWeave.Toml.Value

/-!
# Settings

* `Settings.default`: the settings where nothing is configured.
* `Settings.ofEntries?`: the settings that a document describes.
* `Settings.validate`: refuses settings that no file could be instrumented with.
-/

namespace TestWeave.Config

open TestWeave.Toml

/-- Where the instrumentation comes from and how files import it. -/
structure SdkSettings where
  importPath : String
  importName : String
  /-- A checkout there is. -/
  path : Option Path
  repository : String
  revision : String
  deriving DecidableEq, Repr

/-- Where a log is written, and what goes into it. -/
structure LoggingSettings where
  /-- Begins the name of the log file; without it there is no log. -/
  file : Option Path
  filter : String
  deriving DecidableEq, Repr

/-- The settings of the program. -/
structure Settings where
  sdk : SdkSettings
  logging : LoggingSettings
  deriving DecidableEq, Repr

/-- The settings of the instrumentation where nothing is configured. -/
def SdkSettings.default : SdkSettings where
  importPath := Instrumentation.default.importPath
  importName := Instrumentation.default.localName
  path := none
  repository := "https://github.com/DataDog/dd-sdk-go-testing.git"
  revision := "tony/rd-autoinstrument"

/-- The settings of the log where nothing is configured. -/
def LoggingSettings.default : LoggingSettings where
  file := none
  filter := "info"

/-- The settings where nothing is configured. -/
def Settings.default : Settings := ⟨.default, .default⟩

/-- The instrumentation that files are sent through. -/
def SdkSettings.instrumentation (s : SdkSettings) : Instrumentation :=
  { Instrumentation.default with importPath := s.importPath, localName := s.importName }

/-! ### From documents -/

/-- The values of named fields. A table gives them by name; what else it has is passed over, but
its numbers have to be in range. A list gives them in order. -/
def fields? (names : List String) : Value → Option (List (Option Value))
  | .table _ entries =>
    if entriesInRange (entries.filter fun e => !names.contains e.1) then
      some (names.map (Entries.find? entries))
    else none
  | .list _ items => some ((List.range names.length).map (items[·]?))
  | _ => none

/-- A field that holds a text, or else has a default. -/
def textField (orElse : String) : Option Value → Option String
  | none => some orElse
  | some (.text s) => some s
  | some _ => none

/-- A field that holds a path, if it is there. -/
def pathField : Option Value → Option (Option Path)
  | none => some none
  | some (.text s) => some (some ⟨s⟩)
  | some _ => none

/-- The settings of the instrumentation that a value describes. -/
def SdkSettings.ofValue? : Option Value → Option SdkSettings
  | none => some .default
  | some v => do
    match ← fields? ["import_path", "import_name", "path", "repository", "revision"] v with
    | [importPath, importName, path, repository, revision] =>
      let d := SdkSettings.default
      return {
        importPath := ← textField d.importPath importPath
        importName := ← textField d.importName importName
        path := ← pathField path
        repository := ← textField d.repository repository
        revision := ← textField d.revision revision }
    | _ => none

/-- The settings of the log that a value describes. -/
def LoggingSettings.ofValue? : Option Value → Option LoggingSettings
  | none => some .default
  | some v => do
    match ← fields? ["file", "filter"] v with
    | [file, filter] =>
      return {
        file := ← pathField file
        filter := ← textField LoggingSettings.default.filter filter }
    | _ => none

/-- The settings that a document describes. -/
def Settings.ofEntries? (entries : Entries) : Option Settings := do
  match ← fields? ["sdk", "logging"] (.table .header entries) with
  | [sdk, logging] =>
    return { sdk := ← SdkSettings.ofValue? sdk, logging := ← LoggingSettings.ofValue? logging }
  | _ => none

/-! ### Validation -/

/-- Why settings cannot be used. -/
inductive InvalidSettings
  | emptyImportPath
  | badImportName (name : String)
  deriving DecidableEq, Repr

/-- The text of a reason. -/
def InvalidSettings.message : InvalidSettings → String
  | .emptyImportPath => "sdk.import_path must not be empty"
  | .badImportName name => s!"sdk.import_name '{name}' is not a valid Go identifier"

/-- Whether an import can be given a name. -/
def isImportName (name : String) : Bool := Text.isIdentifier name && name != "_"

/-- Refuses settings with an import path that is blank or an import name that is none. -/
def Settings.validate (s : Settings) : Except InvalidSettings Unit :=
  if (Text.trim s.sdk.importPath).isEmpty then .error .emptyImportPath
  else if isImportName s.sdk.importName then .ok ()
  else .error (.badImportName s.sdk.importName)

end TestWeave.Config
