import TestWeave.Source.Place

/-!
# Tokens

What a Go source is made of: identifiers, keywords, literals, operators and the end of the file.
Each kind knows how it is spelled.

* `Operator.all`: every operator, the longer spellings first, so that the first one that fits a
  text is the longest one that does.
* `TokenKind.endsStatement`: the tokens after which a line break ends a statement.
-/

namespace TestWeave.Source

/-- The words that are not identifiers. -/
inductive Keyword
  | kwBreak | kwCase | kwChan | kwConst | kwContinue | kwDefault | kwDefer | kwElse
  | kwFallthrough | kwFor | kwFunc | kwGo | kwGoto | kwIf | kwImport | kwInterface | kwMap
  | kwPackage | kwRange | kwReturn | kwSelect | kwStruct | kwSwitch | kwType | kwVar
  deriving DecidableEq, Repr

namespace Keyword

/-- Every keyword. -/
def all : List Keyword := [
  .kwBreak, .kwCase, .kwChan, .kwConst, .kwContinue, .kwDefault, .kwDefer, .kwElse,
  .kwFallthrough, .kwFor, .kwFunc, .kwGo, .kwGoto, .kwIf, .kwImport, .kwInterface, .kwMap,
  .kwPackage, .kwRange, .kwReturn, .kwSelect, .kwStruct, .kwSwitch, .kwType, .kwVar]

/-- How a keyword is spelled. -/
def spelling : Keyword → String
  | .kwBreak => "break"
  | .kwCase => "case"
  | .kwChan => "chan"
  | .kwConst => "const"
  | .kwContinue => "continue"
  | .kwDefault => "default"
  | .kwDefer => "defer"
  | .kwElse => "else"
  | .kwFallthrough => "fallthrough"
  | .kwFor => "for"
  | .kwFunc => "func"
  | .kwGo => "go"
  | .kwGoto => "goto"
  | .kwIf => "if"
  | .kwImport => "import"
  | .kwInterface => "interface"
  | .kwMap => "map"
  | .kwPackage => "package"
  | .kwRange => "range"
  | .kwReturn => "return"
  | .kwSelect => "select"
  | .kwStruct => "struct"
  | .kwSwitch => "switch"
  | .kwType => "type"
  | .kwVar => "var"

/-- The keyword that a word is, if it is one. -/
def ofWord? (word : String) : Option Keyword := all.find? (·.spelling == word)

end Keyword

/-- The operators and the marks of punctuation. -/
inductive Operator
  | shlAssign | shrAssign | andNotAssign | ellipsis | andAnd | orOr | arrow | inc | dec | eqEq
  | notEq | lte | gte | define | plusAssign | minusAssign | starAssign | slashAssign
  | percentAssign | ampAssign | pipeAssign | caretAssign | shl | shr | andNot | lparen | rparen
  | lbrace | rbrace | lbracket | rbracket | comma | semi | colon | dot | plus | minus | star
  | slash | percent | amp | pipe | caret | lt | gt | assign | bang | tilde
  deriving DecidableEq, Repr

namespace Operator

/-- Every operator, those with longer spellings first. -/
def all : List Operator := [
  .shlAssign, .shrAssign, .andNotAssign, .ellipsis, .andAnd, .orOr, .arrow, .inc, .dec, .eqEq,
  .notEq, .lte, .gte, .define, .plusAssign, .minusAssign, .starAssign, .slashAssign,
  .percentAssign, .ampAssign, .pipeAssign, .caretAssign, .shl, .shr, .andNot, .lparen, .rparen,
  .lbrace, .rbrace, .lbracket, .rbracket, .comma, .semi, .colon, .dot, .plus, .minus, .star,
  .slash, .percent, .amp, .pipe, .caret, .lt, .gt, .assign, .bang, .tilde]

/-- How an operator is spelled. -/
def spelling : Operator → String
  | .shlAssign => "<<="
  | .shrAssign => ">>="
  | .andNotAssign => "&^="
  | .ellipsis => "..."
  | .andAnd => "&&"
  | .orOr => "||"
  | .arrow => "<-"
  | .inc => "++"
  | .dec => "--"
  | .eqEq => "=="
  | .notEq => "!="
  | .lte => "<="
  | .gte => ">="
  | .define => ":="
  | .plusAssign => "+="
  | .minusAssign => "-="
  | .starAssign => "*="
  | .slashAssign => "/="
  | .percentAssign => "%="
  | .ampAssign => "&="
  | .pipeAssign => "|="
  | .caretAssign => "^="
  | .shl => "<<"
  | .shr => ">>"
  | .andNot => "&^"
  | .lparen => "("
  | .rparen => ")"
  | .lbrace => "\x7b"
  | .rbrace => "\x7d"
  | .lbracket => "["
  | .rbracket => "]"
  | .comma => ","
  | .semi => ";"
  | .colon => ":"
  | .dot => "."
  | .plus => "+"
  | .minus => "-"
  | .star => "*"
  | .slash => "/"
  | .percent => "%"
  | .amp => "&"
  | .pipe => "|"
  | .caret => "^"
  | .lt => "<"
  | .gt => ">"
  | .assign => "="
  | .bang => "!"
  | .tilde => "~"

/-- The longest operator that a text begins with. -/
def longestIn (cs : List Char) : Option Operator :=
  all.find? fun op => op.spelling.toList.isPrefixOf cs

end Operator

/-- The kinds of literals. -/
inductive LiteralKind
  | int | float | imaginary | rune | string
  deriving DecidableEq, Repr

/-- A token without its place. -/
inductive TokenKind
  | ident (name : String)
  | keyword (word : Keyword)
  | literal (kind : LiteralKind) (text : String)
  | operator (op : Operator)
  | eof
  deriving DecidableEq, Repr

namespace TokenKind

/-- The source text of a token. -/
def text : TokenKind → String
  | .ident name => name
  | .keyword word => word.spelling
  | .literal _ text => text
  | .operator op => op.spelling
  | .eof => ""

/-- Whether a line break right after the token ends a statement. -/
def endsStatement : TokenKind → Bool
  | .ident _ | .literal _ _ => true
  | .keyword .kwReturn | .keyword .kwBreak | .keyword .kwContinue
  | .keyword .kwFallthrough => true
  | .operator .rparen | .operator .rbracket | .operator .rbrace
  | .operator .inc | .operator .dec => true
  | _ => false

end TokenKind

/-- A token and the stretch of the source that it covers; one that the source does not spell, such
as the end of the file, covers an empty stretch. -/
structure Token where
  kind : TokenKind
  span : Span
  deriving DecidableEq, Repr

end TestWeave.Source
