import TestWeave.Source.Call

/-!
# Functions, their parameters, and the names a declaration binds

* `functionDecl`: a function declaration, taken apart.
* `params`: the parameters of a function, each with the type of its group.
* `declaredNames`: the names that a `var`, `const` or `type` declaration binds.
-/

namespace TestWeave.Source

/-- A function declaration. -/
structure FunctionDecl where
  name : String
  keyword : Span
  hasReceiver : Bool
  params : List Tree
  body : Option Group

/-- The body of a function, in the trees behind its parameters. The braces of a result type that
is spelled out are no body. -/
def functionBody : List Tree → Except Diagnostic (Option Group)
  | [] => .ok none
  | t :: ts =>
    if t.isKeyword .kwStruct || t.isKeyword .kwInterface then
      match ts with
      | u :: us => if (u.group? .brace).isSome then functionBody us else functionBody (u :: us)
      | [] => .ok none
    else match t.group? .brace with
      | none => functionBody ts
      | some g =>
        match ts with
        | [] => .ok (some g)
        | u :: _ => .error ⟨"unexpected tokens after function body", some u.span⟩

/-- The rest of a list behind a group, and whether it began with one. -/
def skipGroup (delim : Delimiter) : List Tree → Bool × List Tree
  | t :: ts => if (t.group? delim).isSome then (true, ts) else (false, t :: ts)
  | [] => (false, [])

/-- A function declaration, where `trees` follow the keyword. -/
def functionDecl (keyword : Span) (trees : List Tree) : Except Diagnostic FunctionDecl :=
  let (hasReceiver, trees) := skipGroup .paren trees
  match trees with
  | [] => .error ⟨"expected function name", some keyword⟩
  | t :: ts =>
    match t.ident? with
    | none => .error ⟨"expected function name", some keyword⟩
    | some name =>
      let before := match ts with
        | u :: _ => if (u.group? .bracket).isSome then u else t
        | [] => t
      let (_, ts) := skipGroup .bracket ts
      match ts with
      | [] => .error ⟨"expected '(' after function name " ++ name, some before.span⟩
      | u :: us =>
        match u.group? .paren with
        | none => .error ⟨"expected '(' after function name " ++ name, some before.span⟩
        | some g => do
          return ⟨name, keyword, hasReceiver, g.trees, ← functionBody us⟩

/-! ### Parameters -/

/-- The type of a parameter, as far as it matters. -/
inductive ParamType
  /-- A pointer to a type of another package. -/
  | pointer (package name : String)
  | other
  deriving DecidableEq, Repr

/-- A parameter; it has no name where the list names types alone. -/
structure Param where
  name : Option String
  type : ParamType
  deriving DecidableEq, Repr

/-- The type that a list of trees spells. -/
def paramType : List Tree → ParamType
  | [star, package, dot, name] =>
    if star.isOperator .star && dot.isOperator .dot then
      match package.ident?, name.ident? with
      | some p, some n => .pointer p n
      | _, _ => .other
    else .other
  | _ => .other

/-- Whether a segment of a parameter list is a name with its type, unlike a type alone such as
`pkg.T` or `List[int]`. -/
def isNamed : List Tree → Bool
  | first :: second :: rest =>
    first.ident?.isSome && !second.isOperator .dot &&
      !(rest.isEmpty && (second.group? .bracket).isSome)
  | _ => false

/-- Parameters of a list with names. `pending` holds the names that still wait for the type of
their group. -/
def namedParams (pending : List String) : List (List Tree) → List Param
  | [] => []
  | segment :: segments =>
    match segment with
    | [] => namedParams pending segments
    | t :: ts =>
      match t.ident?, ts with
      | some name, [] => namedParams (pending ++ [name]) segments
      | name?, ts =>
        let type := paramType ts
        pending.map (fun name => ⟨some name, type⟩) ++ ⟨name?, type⟩ :: namedParams [] segments

/-- The parameters of a list. -/
def params (trees : List Tree) : List Param :=
  let segments := (Tree.splitOn .comma trees).filter (!·.isEmpty)
  if segments.any isNamed then namedParams [] segments
  else segments.map fun segment => ⟨none, paramType segment⟩

/-- The name of a test context or a suite driver among the parameters, and whether it is a suite
driver. -/
def contextParam? (testing : List String) (ps : List Param) : Option (String × Bool) :=
  ps.findSome? fun p =>
    match p.name, p.type with
    | some name, .pointer package type =>
      if testing.contains package then
        if type = Known.contextType then some (name, false)
        else if type = Known.driverType then some (name, true)
        else none
      else none
    | _, _ => none

/-! ### Names bound by other declarations -/

/-- The names at the head of a specification, up to the first that no comma follows. -/
def specNames : List Tree → List String
  | [] => []
  | [t] => named t
  | t :: u :: us =>
    if t.ident?.isSome && u.isOperator .comma then named t ++ specNames us else named t
where
  /-- The name that a tree binds; an underscore binds none. -/
  named (t : Tree) : List String := (t.ident?.filter (· != "_")).toList

/-- The names that the specifications behind `var`, `const` or `type` bind. -/
def declaredNames (trees : List Tree) : List String :=
  let group := match trees with
    | [t] => t.group? .paren
    | _ => none
  match group with
  | some g => (Tree.splitOn .semi g.trees).flatMap specNames
  | none => specNames trees

end TestWeave.Source
