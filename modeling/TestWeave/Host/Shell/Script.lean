/-!
# Shell scripts

Tools may be given as shell scripts. A `Script` is the meaning of such a text as far as it is
needed for tools: commands with redirections, lists, conditions, loops and choices.
-/

namespace TestWeave.Host.Shell

/-- What stands for a parameter in a word. `emptyToo` says that an empty value counts as none. -/
inductive ParamUse
  | value
  /-- The value, or another text if there is none. -/
  | orElse (emptyToo : Bool) (other : List Char)
  /-- The value, or another text, which becomes the value, if there is none. -/
  | orAssign (emptyToo : Bool) (other : List Char)
  /-- Another text if there is a value. -/
  | ifSet (emptyToo : Bool) (other : List Char)
  /-- The count of characters. -/
  | length
  /-- The value without the shortest or longest tail that fits a pattern. -/
  | cutTail (longest : Bool) (pattern : List Char)
  /-- The value without the shortest or longest head that fits a pattern. -/
  | cutHead (longest : Bool) (pattern : List Char)
  deriving Repr, Inhabited

/-- A part of a word. What is quoted is not split into fields. -/
inductive Part
  | text (chars : List Char) (quoted : Bool)
  | param (name : String) (use : ParamUse) (quoted : Bool)
  /-- What a script prints. -/
  | output (source : List Char) (quoted : Bool)
  /-- The value of an arithmetic expression. -/
  | number (expression : List Char) (quoted : Bool)
  deriving Repr, Inhabited

/-- A word: its parts, one after the other. -/
abbrev ShellWord := List Part

/-- Where a stream goes to or comes from. -/
inductive Redirect
  | file (stream : Nat) (append : Bool) (target : ShellWord)
  | copy (stream source : Nat)
  | input (source : ShellWord)
  deriving Repr

/-- A script. -/
inductive Script
  | skip
  | command (line : Nat) (assigns : List (String × ShellWord)) (words : List ShellWord)
      (redirects : List Redirect)
  | seq (first second : Script)
  | both (first second : Script)
  | either (first second : Script)
  | negate (body : Script)
  | pipe (first second : Script)
  | cond (test yes no : Script)
  /-- Runs the body as long as the test succeeds, or as long as it fails. -/
  | loop (untilSuccess : Bool) (test body : Script)
  /-- Runs the body for each word, or for each argument. -/
  | each (name : String) (words : Option (List ShellWord)) (body : Script)
  /-- Runs the first branch with a pattern that fits. -/
  | choose (subject : ShellWord) (branches : Script)
  | branch (patterns : List ShellWord) (body rest : Script)
  | group (body : Script) (redirects : List Redirect)
  | subshell (body : Script) (redirects : List Redirect)
  deriving Repr, Inhabited

end TestWeave.Host.Shell
