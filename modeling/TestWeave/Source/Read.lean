import TestWeave.Host.Disk
import TestWeave.Source.File

/-!
# Source files on a disk

* `SourceFile.read`: reads and parses the file at a path.
-/

namespace TestWeave.Source

/-- Reads and parses the source file at a path. -/
def SourceFile.read (d : Host.Disk) (path : Path) : Except ParseError SourceFile :=
  match d.readText path with
  | .error e => .error (.unreadable path e)
  | .ok source => SourceFile.parse path source

end TestWeave.Source
