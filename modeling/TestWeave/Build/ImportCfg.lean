import TestWeave.Host.Disk
import TestWeave.SortedMap
import TestWeave.Text.Blank

/-!
# Import configurations

The compiler and the linker are told where the archive of an imported package is by a file with a
line `packagefile <package>=<archive>` for each. Other lines are kept and mean nothing here.

* `ImportCfg.parse`, `ImportCfg.render`: the configuration of a text, and its text.
* `ImportCfg.add?`: lists a package that is not listed yet.
-/

namespace TestWeave.Build

open TestWeave.Host

/-- Packages and their archives, in the order of the packages. -/
abbrev PackageMap := List (String × Path)

namespace PackageMap

/-- The archive of a package. -/
def find? (m : PackageMap) (package : String) : Option Path :=
  SortedMap.find? (compare : String → String → Ordering) package m

/-- Whether a package has an archive. -/
def contains (m : PackageMap) (package : String) : Bool :=
  SortedMap.contains (compare : String → String → Ordering) package m

/-- The map with an archive for a package. -/
def insert (m : PackageMap) (package : String) (archive : Path) : PackageMap :=
  SortedMap.insert (compare : String → String → Ordering) package archive m

/-- The map with an archive for a package that had none. -/
def insertNew (m : PackageMap) (package : String) (archive : Path) : PackageMap :=
  SortedMap.insertNew (compare : String → String → Ordering) package archive m

end PackageMap

/-- An import configuration: its lines, and the packages that they list. -/
structure ImportCfg where
  lines : List String
  packages : PackageMap
  deriving DecidableEq, Repr

/-- The word that begins a line that lists a package. -/
def packageWord : String := "packagefile"

/-- The package that a line lists, and its archive. -/
def packageLine? (line : String) : Option (String × String) := do
  let rest ← Text.dropLead packageWord (Text.trim line)
  let first ← rest.toList.head?
  guard (Text.isBlank first)
  let (package, archive) ← Text.splitOnce '=' (Text.trimStart rest)
  return (Text.trim package, Text.trim archive)

namespace ImportCfg

/-- The packages that lines list; of two lines for one package the later counts. -/
def packagesOf (lines : List String) : PackageMap :=
  (lines.filterMap packageLine?).foldl (fun m (package, archive) => m.insert package ⟨archive⟩) []

/-- The configuration of a text. -/
def parse (text : String) : ImportCfg := ⟨Text.lines text, packagesOf (Text.lines text)⟩

/-- The text of a configuration. -/
def render (cfg : ImportCfg) : String := String.join (cfg.lines.map (· ++ "\n"))

/-- Whether a package is listed. -/
def contains (cfg : ImportCfg) (package : String) : Bool := cfg.packages.contains package

/-- The archive of a package. -/
def archive? (cfg : ImportCfg) (package : String) : Option Path := cfg.packages.find? package

/-- Lists a package; `none` if it is listed. -/
def add? (cfg : ImportCfg) (package : String) (archive : Path) : Option ImportCfg :=
  if cfg.contains package then none
  else some {
    lines := cfg.lines ++ [s!"{packageWord} {package}={archive.text}"]
    packages := cfg.packages.insert package archive }

/-- Lists the packages that are not listed yet, and counts them. -/
def addAll (cfg : ImportCfg) (archives : PackageMap) : Nat × ImportCfg :=
  archives.foldl (fun (n, cfg) (package, archive) =>
    match cfg.add? package archive with
    | some cfg => (n + 1, cfg)
    | none => (n, cfg)) (0, cfg)

/-- The configuration of a file. -/
def read (d : Disk) (path : Path) : Except IoError ImportCfg := do
  return parse (← d.readText path)

end ImportCfg

end TestWeave.Build
