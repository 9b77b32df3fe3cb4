import TestWeave.Command.Flag

/-!
# Roles of arguments

Flags come first. Flag parsing ends at two dashes or at the first argument that is no flag; what
follows are operands: source files and others.

* `classify`: the arguments of a command line, each with its role, and what is wrong with them.
-/

namespace TestWeave.Command

/-- What a source file is for, by its name. -/
inductive SourceKind
  | ordinary
  /-- A file of tests. -/
  | test
  /-- The file of the program that runs the tests of a package. -/
  | driver
  deriving DecidableEq, Repr

/-- The kind of the source file at a path. -/
def SourceKind.of (path : String) : SourceKind :=
  if Text.contains "_testmain.go" path then .driver
  else if Text.endsWith "_test.go" path then .test
  else .ordinary

/-- Whether files of a kind are instrumented. -/
def SourceKind.isCandidate : SourceKind → Bool
  | .ordinary => false
  | .test | .driver => true

/-- The part an argument has in a command line. -/
inductive Role
  /-- A flag without inline value. -/
  | flag (name : String)
  /-- The value of the flag before it. -/
  | value (flag : String)
  /-- A flag and its value in one argument. -/
  | inlineFlag (name : String)
  /-- Two dashes, which end the flags. -/
  | terminator
  | source (kind : SourceKind)
  | positional
  deriving DecidableEq, Repr

namespace Role

/-- The role of an argument behind the flags. -/
def operand (arg : String) : Role :=
  if Text.endsWith ".go" arg then .source (SourceKind.of arg) else .positional

/-- Whether the role belongs to the flags. -/
def isFlagPart : Role → Bool
  | .flag _ | .value _ | .inlineFlag _ => true
  | _ => false

end Role

/-- An argument and its role. -/
structure Word where
  text : String
  role : Role
  deriving DecidableEq, Repr

/-- An argument behind the flags. -/
def Word.operand (arg : String) : Word := ⟨arg, .operand arg⟩

/-- The warning about a flag without the value it needs. -/
def missingValue (name : String) (d : FlagDef) : String :=
  s!"-{name} ({d.description}): missing required value"

/-- Gives every argument its role. A flag that needs a value takes the next argument, whatever it
looks like. -/
def classify (registry : List FlagDef) : List String → List Word × List String
  | [] => ([], [])
  | arg :: args =>
    if arg = "--" then (⟨arg, .terminator⟩ :: args.map Word.operand, [])
    else match splitFlag arg with
      | none => (.operand arg :: args.map Word.operand, [])
      | some (name, some _) =>
        let (words, warnings) := classify registry args
        (⟨arg, .inlineFlag name⟩ :: words, warnings)
      | some (name, none) =>
        match (lookup registry name).filter (·.needsValue) with
        | none =>
          let (words, warnings) := classify registry args
          (⟨arg, .flag name⟩ :: words, warnings)
        | some d =>
          match args with
          | [] => ([⟨arg, .flag name⟩], [missingValue name d])
          | value :: args =>
            let (words, warnings) := classify registry args
            (⟨arg, .flag name⟩ :: ⟨value, .value name⟩ :: words, warnings)

/-- Classifying changes no argument. -/
theorem classify_text (registry : List FlagDef) (args : List String) :
    (classify registry args).1.map Word.text = args := by
  have h : ∀ args : List String, (args.map Word.operand).map Word.text = args := by
    intro args
    simp [Function.comp_def, Word.operand]
  fun_induction classify registry args <;> simp_all [Word.operand]

end TestWeave.Command
