import TestWeave.Source.Place
import TestWeave.Text.Blank

/-!
# Diagnostics

A `Diagnostic` says what is wrong with a source and, where it can, on which stretch. `excerpt`
shows it the way compilers do: the position, the message, the line, and a caret under the
character.
-/

namespace TestWeave.Source

/-- A fault of a source text, with the stretch it was found at. -/
structure Diagnostic where
  message : String
  span : Option Span
  deriving DecidableEq, Repr

namespace Diagnostic

/-- The position of the fault; line and column are zero when it has none. -/
def position (d : Diagnostic) : Position :=
  match d.span with
  | some s => s.position
  | none => ⟨0, 0⟩

/-- The message with the line it is about, and a caret under the column. -/
def excerpt (d : Diagnostic) (source : String) : String :=
  match d.span with
  | none => "error: " ++ d.message
  | some s =>
    let line := ((Text.lines source)[s.line - 1]?).getD ""
    let indent := String.ofList (List.replicate (s.column - 1) ' ')
    s!"error:{s.line}:{s.column}: {d.message}\n  {line}\n  {indent}^"

end Diagnostic

end TestWeave.Source
