import TestWeave.Source.Import
import TestWeave.Source.Instrumentation

/-!
# Calls of a method on a named receiver

* `calls`: the calls `receiver.method(…)` in a list of trees, at every depth, outer calls before
  the calls in their arguments.
* `driverBinding?`: the name that the suite driver of a program is bound to.
-/

namespace TestWeave.Source

/-- A call `receiver.method(arguments)`. -/
structure CallSite where
  receiver : String
  /-- From the receiver through the method name. -/
  callee : Span
  openParen : Span
  closeParen : Span
  /-- One stretch per argument. -/
  args : List Span
  deriving DecidableEq, Repr

/-- The texts of the arguments. -/
def CallSite.argTexts (call : CallSite) (source : String) : List String :=
  call.args.map (·.textIn source)

/-- The stretch of a list of trees, if there are any. -/
def spanOf? : List Tree → Option Span
  | [] => none
  | first :: rest => some (match rest.getLast? with
    | none => first.span
    | some last => first.span.through last.span)

/-- The call that begins a list of trees. -/
def callAt (receiver method : String) : List Tree → Option CallSite
  | recv :: dot :: name :: args :: _ =>
    match args.group? .paren with
    | some g =>
      if recv.isIdent receiver && dot.isOperator .dot && name.isIdent method then
        some {
          receiver
          callee := recv.span.through name.span
          openParen := g.opening
          closeParen := g.closing
          args := (Tree.splitOn .comma g.trees).filterMap spanOf? }
      else none
    | none => none
  | _ => none

mutual

/-- The calls inside a tree. -/
def callsWithin (receiver method : String) : Tree → List CallSite
  | .leaf _ => []
  | .group _ _ _ trees => callsFrom receiver method false trees

/-- The calls in a list of trees. `selected` says whether a dot stands before the list: then its
first tree selects from something else and is no receiver. -/
def callsFrom (receiver method : String) (selected : Bool) : List Tree → List CallSite
  | [] => []
  | t :: ts =>
    let here := if selected then none else callAt receiver method (t :: ts)
    here.toList ++ callsWithin receiver method t ++
      callsFrom receiver method (t.isOperator .dot) ts

end

/-- The calls of `method` on `receiver` in a list of trees. The receiver is known by its name
alone. -/
def calls (receiver method : String) (trees : List Tree) : List CallSite :=
  callsFrom receiver method false trees

/-- The name bound at the head of a list of trees, in `name := testing.MainStart`. -/
def bindingAt (testing : List String) : List Tree → Option String
  | var :: define :: package :: dot :: function :: _ =>
    if define.isOperator .define && package.ident?.any testing.contains && dot.isOperator .dot &&
        function.isIdent Known.mainStart then
      var.ident?
    else none
  | _ => none

mutual

/-- The first name that is bound to a suite driver inside a tree. -/
def bindingWithin? (testing : List String) : Tree → Option String
  | .leaf _ => none
  | .group _ _ _ trees => driverBinding? testing trees

/-- The first name that a list of trees binds to a suite driver, at any depth. `testing` lists the
names of the testing package. -/
def driverBinding? (testing : List String) : List Tree → Option String
  | [] => none
  | t :: ts =>
    (bindingAt testing (t :: ts)).or
      ((bindingWithin? testing t).or (driverBinding? testing ts))

end

end TestWeave.Source
