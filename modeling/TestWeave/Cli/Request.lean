import TestWeave.Text.Blank

/-!
# Requests

The program has two options of its own. They count only in the first place: from the first other
argument on, all arguments are the command of a tool.

* `Request.read`: what is asked for by the arguments of the program.
-/

namespace TestWeave.Cli

/-- What is asked for. -/
inductive Request
  | version
  | help (long : Bool)
  /-- An option that takes no value was given one. -/
  | unexpectedValue (option value : String)
  /-- To run a command; none asks where the instrumentation is. -/
  | command (words : List String)
  deriving DecidableEq, Repr

/-- The request of a long option. -/
def longOption? (body : String) : Option Request :=
  let (name, value) := match Text.splitOnce '=' body with
    | some (name, value) => (name, some value)
    | none => (body, none)
  let known := match name with
    | "version" => some Request.version
    | "help" => some (Request.help true)
    | _ => none
  match known, value with
  | some _, some value => some (.unexpectedValue ("--" ++ name) value)
  | known, _ => known

/-- The request of a group of short options: that of the first, if all are known. -/
def shortOptions? (body : List Char) : Option Request :=
  if body.all fun c => c == 'V' || c == 'h' then
    match body with
    | 'V' :: _ => some .version
    | 'h' :: _ => some (.help false)
    | _ => none
  else none

/-- The request of an option in the first place. -/
def option? (arg : String) : Option Request :=
  match Text.dropLead "--" arg with
  | some body => longOption? body
  | none => (Text.dropLead "-" arg).bind fun body => shortOptions? body.toList

/-- What is asked for by arguments. Two dashes in the first place say that no option follows. -/
def Request.read : List String → Request
  | [] => .command []
  | "--" :: words => .command words
  | arg :: words => (option? arg).getD (.command (arg :: words))

end TestWeave.Cli
