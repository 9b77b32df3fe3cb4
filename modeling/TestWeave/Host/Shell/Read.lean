import TestWeave.Host.Shell.Word

/-!
# Reading shell scripts

* `Script.read?`: the script of a text, unless the text is none.
-/

namespace TestWeave.Host.Shell

/-! ### Tokens -/

/-- A word, an operator, a redirection, or a line end. -/
inductive ScriptToken
  | word (parts : ShellWord) (line : Nat)
  | op (text : String)
  | redirect (stream : Option Nat) (text : String)
  | newline
  deriving Repr, Inhabited

/-- The operators, longer ones first. -/
def operatorTexts : List String := ["&&", "||", ";;", ";", "&", "|", "(", ")"]

/-- The operators of redirections, longer ones first. -/
def redirectTexts : List String := [">>", ">&", "<&", ">|", ">", "<"]

/-- The first of some texts that a character list begins with. -/
def leadIn? (texts : List String) (cs : List Char) : Option (String × List Char) :=
  (texts.find? fun t => t.toList.isPrefixOf cs).map fun t => (t, cs.drop t.length)

/-- The tokens of a text that begins on a line. -/
def tokensFrom (line : Nat) : Nat → List Char → Option (List ScriptToken)
  | 0, _ => none
  | fuel + 1, cs =>
    match cs with
    | [] => some []
    | '\n' :: rest => (tokensFrom (line + 1) fuel rest).map (.newline :: ·)
    | '\\' :: '\n' :: rest => tokensFrom (line + 1) fuel rest
    | '#' :: rest => tokensFrom line fuel (rest.dropWhile (· != '\n'))
    | c :: rest =>
      if c = ' ' ∨ c = '\t' ∨ c = '\r' then tokensFrom line fuel rest
      else
        let digits := cs.takeWhile Char.isDigit
        match leadIn? redirectTexts (cs.drop digits.length) with
        | some (t, rest) =>
          let stream := if digits.isEmpty then none else (String.ofList digits).toNat?
          (tokensFrom line fuel rest).map (.redirect stream t :: ·)
        | none =>
          match leadIn? operatorTexts cs with
          | some (t, rest) => (tokensFrom line fuel rest).map (.op t :: ·)
          | none => do
            let (parts, rest) ← readWord (cs.length + 1) cs
            let breaks := (cs.take (cs.length - rest.length)).count '\n'
            (tokensFrom (line + breaks) fuel rest).map (.word parts line :: ·)

/-- The text of a word without quotes and parameters. -/
def plainText? (w : ShellWord) : Option String :=
  (w.mapM plainChars?).map fun css => String.ofList css.flatten
where
  /-- The characters of a part that is neither quoted nor a parameter. -/
  plainChars? : Part → Option (List Char)
    | .text cs false => some cs
    | _ => none

/-- Whether a token is a word that is spelled so. -/
def ScriptToken.isWord (text : String) : ScriptToken → Bool
  | .word parts _ => plainText? parts == some text
  | _ => false

/-- Whether a token is an operator. -/
def ScriptToken.isOp (text : String) : ScriptToken → Bool
  | .op t => t == text
  | _ => false

/-! ### Scripts -/

/-- The words that end a list of commands. -/
def closingWords : List String := ["then", "else", "elif", "fi", "do", "done", "esac", "\x7d"]

/-- Whether a list of commands ends before a token. -/
def ScriptToken.closes (t : ScriptToken) : Bool :=
  t.isOp ")" || t.isOp ";;" || closingWords.any t.isWord

/-- The tokens behind leading line ends. -/
def dropNewlines (ts : List ScriptToken) : List ScriptToken :=
  ts.dropWhile fun
    | .newline => true
    | _ => false

/-- The rest behind a token that has to be there. -/
def expect (isIt : ScriptToken → Bool) : List ScriptToken → Option (List ScriptToken)
  | t :: ts => if isIt t then some ts else none
  | [] => none

/-- A word that gives a variable a value. -/
def assignment? (w : ShellWord) : Option (String × ShellWord) :=
  let isName : Part → Option Char := fun
    | .text [c] false => some c
    | _ => none
  let name := (w.map isName).takeWhile fun c => c.any isNameChar
  match w.drop name.length with
  | .text ['='] false :: value =>
    let chars := name.filterMap id
    if chars.head?.any isNameStart then some (String.ofList chars, value) else none
  | _ => none

/-- The redirections at the head of a token list. -/
def readRedirects : List ScriptToken → List Redirect × List ScriptToken
  | .redirect stream op :: .word parts line :: ts =>
    let redirect := redirectOf stream op parts
    match redirect with
    | none => ([], .redirect stream op :: .word parts line :: ts)
    | some r =>
      let (rs, rest) := readRedirects ts
      (r :: rs, rest)
  | ts => ([], ts)
where
  /-- The redirection of an operator. -/
  redirectOf (stream : Option Nat) (op : String) (parts : ShellWord) : Option Redirect :=
    match op with
    | ">" | ">|" => some (.file (stream.getD 1) false parts)
    | ">>" => some (.file (stream.getD 1) true parts)
    | "<" => some (.input parts)
    | _ => (plainText? parts).bind fun t => t.toNat?.map fun n => .copy (stream.getD 1) n

/-- The words and redirections of a simple command. -/
def readSimple : Nat → List ScriptToken → List ShellWord × List Redirect × List ScriptToken
  | 0, ts => ([], [], ts)
  | fuel + 1, ts =>
    match ts with
    | .word parts _ :: rest =>
      let (ws, rs, rest) := readSimple fuel rest
      (parts :: ws, rs, rest)
    | .redirect _ _ :: _ =>
      match readRedirects ts with
      | ([], ts) => ([], [], ts)
      | (rs, rest) =>
        let (ws, rs', rest) := readSimple fuel rest
        (ws, rs ++ rs', rest)
    | ts => ([], [], ts)

/-- The patterns of a branch, up to the parenthesis behind them. -/
def readPatterns : List ScriptToken → Option (List ShellWord × List ScriptToken)
  | .word parts _ :: .op "|" :: ts => (readPatterns ts).map fun (ps, r) => (parts :: ps, r)
  | .word parts _ :: .op ")" :: ts => some ([parts], ts)
  | _ => none

mutual

/-- A list of commands. -/
def readList : Nat → List ScriptToken → Option (Script × List ScriptToken)
  | 0, _ => none
  | fuel + 1, ts =>
    match dropNewlines ts with
    | [] => some (.skip, [])
    | t :: rest =>
      if t.closes then some (.skip, t :: rest)
      else do
        let (first, rest) ← readAndOr fuel (t :: rest)
        match rest with
        | .newline :: rest | .op ";" :: rest | .op "&" :: rest =>
          let (second, rest) ← readList fuel rest
          return (.seq first second, rest)
        | rest => return (first, rest)

/-- Pipelines joined by `&&` and `||`. -/
def readAndOr : Nat → List ScriptToken → Option (Script × List ScriptToken)
  | 0, _ => none
  | fuel + 1, ts => do
    let (first, rest) ← readPipe fuel ts
    readAndOrRest fuel first rest

/-- What follows the first pipeline. -/
def readAndOrRest : Nat → Script → List ScriptToken → Option (Script × List ScriptToken)
  | 0, _, _ => none
  | fuel + 1, first, ts =>
    match ts with
    | .op "&&" :: rest => do
      let (second, rest) ← readPipe fuel (dropNewlines rest)
      readAndOrRest fuel (.both first second) rest
    | .op "||" :: rest => do
      let (second, rest) ← readPipe fuel (dropNewlines rest)
      readAndOrRest fuel (.either first second) rest
    | ts => some (first, ts)

/-- A pipeline. -/
def readPipe : Nat → List ScriptToken → Option (Script × List ScriptToken)
  | 0, _ => none
  | fuel + 1, ts =>
    match ts with
    | t :: rest =>
      if t.isWord "!" then (readPipe fuel rest).map fun (s, r) => (.negate s, r)
      else do
        let (first, rest) ← readCommand fuel (t :: rest)
        match rest with
        | .op "|" :: rest => do
          let (second, rest) ← readPipe fuel (dropNewlines rest)
          return (.pipe first second, rest)
        | rest => return (first, rest)
    | [] => none

/-- The rest of a condition behind `if` or `elif`. -/
def readCond : Nat → List ScriptToken → Option (Script × List ScriptToken)
  | 0, _ => none
  | fuel + 1, ts => do
    let (test, rest) ← readList fuel ts
    let rest ← expect (·.isWord "then") rest
    let (yes, rest) ← readList fuel rest
    match rest with
    | t :: rest =>
      if t.isWord "fi" then return (.cond test yes .skip, rest)
      else if t.isWord "elif" then
        let (no, rest) ← readCond fuel rest
        return (.cond test yes no, rest)
      else if t.isWord "else" then
        let (no, rest) ← readList fuel rest
        return (.cond test yes no, ← expect (·.isWord "fi") rest)
      else none
    | [] => none

/-- The branches of a choice. -/
def readBranches : Nat → List ScriptToken → Option (Script × List ScriptToken)
  | 0, _ => none
  | fuel + 1, ts =>
    match dropNewlines ts with
    | t :: rest =>
      if t.isWord "esac" then some (.skip, rest)
      else do
        let start := if t.isOp "(" then rest else t :: rest
        let (patterns, rest) ← readPatterns start
        let (body, rest) ← readList fuel rest
        let rest := match rest with
          | .op ";;" :: rest => rest
          | rest => rest
        let (more, rest) ← readBranches fuel rest
        return (.branch patterns body more, rest)
    | [] => none

/-- The body of a loop. -/
def readBody : Nat → List ScriptToken → Option (Script × List ScriptToken)
  | 0, _ => none
  | fuel + 1, ts => do
    let rest ← expect (·.isWord "do") (dropNewlines ts)
    let (body, rest) ← readList fuel rest
    return (body, ← expect (·.isWord "done") rest)

/-- A command, simple or not. -/
def readCommand : Nat → List ScriptToken → Option (Script × List ScriptToken)
  | 0, _ => none
  | fuel + 1, ts =>
    let redirected (body : Script) (rest : List ScriptToken) : Script × List ScriptToken :=
      match readRedirects rest with
      | ([], rest) => (body, rest)
      | (rs, rest) => (.group body rs, rest)
    match ts with
    | [] => none
    | t :: rest =>
      if t.isOp "(" then do
        let (body, rest) ← readList fuel rest
        let rest ← expect (·.isOp ")") rest
        let (rs, rest) := readRedirects rest
        return (.subshell body rs, rest)
      else if t.isWord "\x7b" then do
        let (body, rest) ← readList fuel rest
        return redirected body (← expect (·.isWord "\x7d") rest)
      else if t.isWord "if" then do
        let (body, rest) ← readCond fuel rest
        return redirected body rest
      else if t.isWord "while" || t.isWord "until" then do
        let (test, rest) ← readList fuel rest
        let (body, rest) ← readBody fuel rest
        return redirected (.loop (t.isWord "until") test body) rest
      else if t.isWord "for" then
        match rest with
        | .word name _ :: rest => do
          let name ← plainText? name
          match dropNewlines rest with
          | u :: after =>
            if u.isWord "in" then
              let (words, _, after) := readSimple fuel after
              let after := match after with
                | .op ";" :: after => after
                | after => after
              let (body, rest) ← readBody fuel after
              return redirected (.each name (some words) body) rest
            else
              let after := if u.isOp ";" then after else u :: after
              let (body, rest) ← readBody fuel after
              return redirected (.each name none body) rest
          | [] => none
        | _ => none
      else if t.isWord "case" then
        match rest with
        | .word subject _ :: rest => do
          let rest ← expect (·.isWord "in") (dropNewlines rest)
          let (branches, rest) ← readBranches fuel rest
          return redirected (.choose subject branches) rest
        | _ => none
      else
        let line := match t with
          | .word _ line => line
          | _ => 0
        match readSimple (ts.length + 1) ts with
        | ([], [], _) => none
        | (words, rs, rest) =>
          let assigns := (words.map assignment?).takeWhile Option.isSome
          some (.command line (assigns.filterMap id) (words.drop assigns.length) rs, rest)

end

/-- The script of a text that begins on a line. -/
def Script.read? (line : Nat) (cs : List Char) : Option Script := do
  let ts ← tokensFrom line (cs.length + 1) cs
  match ← readList (20 * ts.length + 20) ts with
  | (s, []) => return s
  | _ => none

end TestWeave.Host.Shell
