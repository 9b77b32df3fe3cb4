import TestWeave.Command.Role
import TestWeave.Path

/-!
# Command lines

A command line is a tool and its arguments. The roles that these had when the line was read are kept
in a list of their own, and every change edits one list or both.

* `CommandLine.flagValue?`: the value of a flag; the last occurrence counts.
* `CommandLine.setFlag`: gives a flag a value.
* `CommandLine.replaceSource?`: puts another file in the place of a source file.
-/

namespace TestWeave.Command

/-- A tool and its arguments, with their roles beside them. -/
structure CommandLine where
  tool : Path
  args : List String
  roles : List Role
  deriving DecidableEq, Repr

/-- Whether an argument of the role carries the value of a flag, and if so, whether the flag is written
in the same argument. -/
def Role.carries? (name : String) : Role → Option Bool
  | .value other => if other = name then some false else none
  | .inlineFlag other => if other = name then some true else none
  | _ => none

/-- Whether a word carries the value of a flag. -/
def Word.carries (name : String) (w : Word) : Bool := (w.role.carries? name).isSome

/-- The value that a word carries. -/
def Word.carried (w : Word) : Option String :=
  match w.role with
  | .inlineFlag _ => (splitFlag w.text).bind (·.2)
  | _ => some w.text

/-- Whether a word is a source file. -/
def Word.isSource (w : Word) : Bool :=
  match w.role with
  | .source _ => true
  | _ => false

/-- Whether a word is the source file of a name. -/
def Word.isFile (text : String) (w : Word) : Bool := w.isSource && w.text == text

namespace CommandLine

/-- Reads the arguments of a tool. -/
def read (tool : Path) (args : List String) (registry : List FlagDef) : CommandLine :=
  ⟨tool, args, (classify registry args).1.map (·.role)⟩

/-- The command line of a compiler. -/
def compile (tool : Path) (args : List String) : CommandLine := read tool args compileFlags

/-- The command line of a linker. -/
def link (tool : Path) (args : List String) : CommandLine := read tool args linkFlags

/-- The arguments with their roles, as far as there are both. -/
def words (c : CommandLine) : List Word := c.args.zipWith Word.mk c.roles

/-- The value of a flag. The last word that can carry it counts, even if it has come to carry
none. -/
def flagValue? (c : CommandLine) (name : String) : Option String :=
  ((c.words.filter (·.carries name)).getLast?).bind Word.carried

/-- The place of the last argument that carries the value of a flag, and whether the flag is written
there too. -/
def lastCarrier? (c : CommandLine) (name : String) : Option (Nat × Bool) :=
  c.roles.zipIdx.reverse.findSome? fun (role, i) => (role.carries? name).map (i, ·)

/-- Gives a flag a value: in the last argument that carries one, or else by a flag of its own behind
the other flags. -/
def setFlag (c : CommandLine) (name value : String) : CommandLine :=
  match c.lastCarrier? name with
  | some (i, false) => { c with args := c.args.set i value }
  | some (i, true) => { c with args := c.args.set i s!"-{name}={value}" }
  | none =>
    let i := c.roles.findIdx (!·.isFlagPart)
    { c with
      args := (c.args.insertIdx i ("-" ++ name)).insertIdx (i + 1) value
      roles := (c.roles.insertIdx i (.flag name)).insertIdx (i + 1) (.value name) }

/-- Adds an operand at the end. -/
def append (c : CommandLine) (arg : String) : CommandLine :=
  { c with args := c.args ++ [arg], roles := c.roles ++ [.operand arg] }

/-- Puts a text in the place of an argument, whatever its role; `none` if there is no such
argument. -/
def setArg? (c : CommandLine) (index : Nat) (value : String) : Option CommandLine :=
  if index < c.args.length then some { c with args := c.args.set index value } else none

/-- The source files. -/
def sources (c : CommandLine) : List (String × SourceKind) :=
  c.words.filterMap fun w =>
    match w.role with
    | .source kind => some (w.text, kind)
    | _ => none

/-- The source files that are instrumented. -/
def candidates (c : CommandLine) : List String :=
  (c.sources.filter (·.2.isCandidate)).map (·.1)

/-- The operands that are no source files. -/
def archives (c : CommandLine) : List String :=
  (c.words.filter (·.role == .positional)).map (·.text)

/-- Puts a file in the place of the first source file of a name, which keeps its role; `none` if
there is no such file. -/
def replaceSource? (c : CommandLine) (old new : String) : Option CommandLine :=
  (c.words.findIdx? (·.isFile old)).map fun i => { c with args := c.args.set i new }

/-- The identifier of the build that the command belongs to. -/
def buildId? (c : CommandLine) : Option String := c.flagValue? "buildid"

/-- Where the output goes. -/
def output? (c : CommandLine) : Option String := c.flagValue? "o"

/-- The import path of the package that is compiled. -/
def package? (c : CommandLine) : Option String := c.flagValue? "p"

/-- The file that says where imported packages are. -/
def importcfg? (c : CommandLine) : Option String := c.flagValue? "importcfg"

end CommandLine

end TestWeave.Command
