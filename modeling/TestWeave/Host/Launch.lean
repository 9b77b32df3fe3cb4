import TestWeave.Host.Disk

/-!
# Running programs

A `Launcher` says what happens when a program is started: whether it can be, what it prints, how
it ends, and what it does to the disk. Everything that runs programs takes the launcher as an
argument, so that what is proved of it holds whatever the programs do.
-/

namespace TestWeave.Host

/-- A program to start. -/
structure Launch where
  program : String
  args : List String
  /-- The directory it is started in, if not the working directory. -/
  dir : Option Path

/-- A program that ran to its end. -/
structure Finished where
  /-- The exit code; a program that a signal ended has none. -/
  code : Option Int
  stdout : ByteArray
  stderr : ByteArray

/-- Whether a program says that it did its work. -/
def Finished.succeeded (f : Finished) : Bool := f.code == some 0

/-- What happens when a program is started on a disk. -/
abbrev Launcher := Launch → Disk → Except IoError Finished × Disk

/-- The variables that a program is started with. -/
abbrev Environment := List (String × String)

/-- The value of a variable. -/
def Environment.get? (env : Environment) (name : String) : Option String :=
  (env.find? (·.1 == name)).map (·.2)

/-- The value of a variable that is set to something. -/
def Environment.nonempty? (env : Environment) (name : String) : Option String :=
  (env.get? name).filter (!·.isEmpty)

end TestWeave.Host
