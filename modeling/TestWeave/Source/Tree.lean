import TestWeave.Source.Diagnostic
import TestWeave.Source.Token
import TestWeave.Split

/-!
# Token trees

Parentheses, brackets and braces group the tokens of a source into trees. What stands inside a
group is kept as it is; nothing below needs to know which statements a body holds.

* `Tree.build`: the trees of a token list, if its delimiters are properly nested.
* `Tree.flattenAll`: the tokens of a list of trees.
-/

namespace TestWeave.Source

/-- The kinds of delimiters that group tokens. -/
inductive Delimiter
  | paren | bracket | brace
  deriving DecidableEq, Repr

namespace Delimiter

/-- The operator that opens a group. -/
def opening : Delimiter → Operator
  | .paren => .lparen
  | .bracket => .lbracket
  | .brace => .lbrace

/-- The operator that closes a group. -/
def closing : Delimiter → Operator
  | .paren => .rparen
  | .bracket => .rbracket
  | .brace => .rbrace

end Delimiter

/-- The delimiter that a token opens. -/
def TokenKind.opens? : TokenKind → Option Delimiter
  | .operator .lparen => some .paren
  | .operator .lbracket => some .bracket
  | .operator .lbrace => some .brace
  | _ => none

/-- The delimiter that a token closes. -/
def TokenKind.closes? : TokenKind → Option Delimiter
  | .operator .rparen => some .paren
  | .operator .rbracket => some .bracket
  | .operator .rbrace => some .brace
  | _ => none

/-- A token, or a group of trees between two delimiters. -/
inductive Tree
  | leaf (token : Token)
  | group (delim : Delimiter) (opening closing : Span) (trees : List Tree)
  deriving Repr

/-- What stands between two delimiters, and where these stand. -/
structure Group where
  opening : Span
  closing : Span
  trees : List Tree

namespace Tree

/-- The stretch from the first to the last token of a tree. -/
def span : Tree → Span
  | .leaf token => token.span
  | .group _ opening closing _ => opening.through closing

/-- The name, if the tree is an identifier. -/
def ident? : Tree → Option String
  | .leaf ⟨.ident name, _⟩ => some name
  | _ => none

/-- Whether the tree is the identifier `name`. -/
def isIdent (name : String) (t : Tree) : Bool := t.ident? == some name

/-- Whether the tree is the operator `op`. -/
def isOperator (op : Operator) : Tree → Bool
  | .leaf ⟨.operator o, _⟩ => o == op
  | _ => false

/-- Whether the tree is the keyword `word`. -/
def isKeyword (word : Keyword) : Tree → Bool
  | .leaf ⟨.keyword k, _⟩ => k == word
  | _ => false

/-- The group, if the tree is one between delimiters of kind `delim`. -/
def group? (delim : Delimiter) : Tree → Option Group
  | .group d opening closing trees => if d = delim then some ⟨opening, closing, trees⟩ else none
  | .leaf _ => none

/-- The segments of a tree list between the operators `op` of its own level. -/
def splitOn (op : Operator) (trees : List Tree) : List (List Tree) :=
  splitWhere (isOperator op) trees

mutual

/-- The tokens of a tree. -/
def flatten : Tree → List Token
  | .leaf token => [token]
  | .group delim opening closing trees =>
    ⟨.operator delim.opening, opening⟩ :: flattenAll trees ++ [⟨.operator delim.closing, closing⟩]

/-- The tokens of a list of trees. -/
def flattenAll : List Tree → List Token
  | [] => []
  | t :: ts => flatten t ++ flattenAll ts

end

/-- A group that is still open: its delimiter, where it opened, and the trees before it at the
level around it, last one first. -/
structure Frame where
  delim : Delimiter
  opening : Span
  before : List Tree

/-- Reads tokens into trees. `done` holds the trees of the current level, last one first, and
`frames` the groups around it, innermost first. -/
def grow (done : List Tree) (frames : List Frame) : List Token → Except Diagnostic (List Tree)
  | [] => finish
  | token :: tokens =>
    if token.kind = .eof then finish
    else match token.kind.opens?, token.kind.closes? with
      | some delim, _ => grow [] (⟨delim, token.span, done⟩ :: frames) tokens
      | none, some delim =>
        match frames with
        | [] =>
          .error ⟨"unexpected closing delimiter without matching " ++ delim.opening.spelling,
            some token.span⟩
        | frame :: frames =>
          if frame.delim = delim then
            let closed := .group delim frame.opening token.span done.reverse
            grow (closed :: frame.before) frames tokens
          else
            .error ⟨"mismatched delimiter: " ++ frame.delim.opening.spelling ++
              " closed by wrong bracket", some token.span⟩
      | none, none => grow (.leaf token :: done) frames tokens
where
  /-- The trees of a finished list; no group may be open. -/
  finish : Except Diagnostic (List Tree) :=
    match frames with
    | [] => .ok done.reverse
    | frame :: _ => .error ⟨"unclosed " ++ frame.delim.opening.spelling, some frame.opening⟩

/-- The trees of a token list up to the end of the file. -/
def build (tokens : List Token) : Except Diagnostic (List Tree) := grow [] [] tokens

end Tree

end TestWeave.Source
