import TestWeave.Source.Token
import TestWeave.Text.Letter
import TestWeave.Text.Printable

/-!
# Pieces of a source

A source is a row of pieces: blanks, line breaks, comments and tokens. `scan` cuts them off one
after the other and stops at the first stretch that begins no piece.

* `Piece.text`: the characters of a piece.
* `CutOff`: what one step of the scanner can cut off, case by case.
* `readPiece_text`: a piece and what follows it are the text it was cut from.
* `scan_text`: the pieces, one after the other, are the part of the source before the fault, and
  the whole source if there is none.
-/

namespace TestWeave.Source

open TestWeave.Text

/-- A stretch of source that is read as one. -/
inductive Piece
  /-- A space, a tab, a carriage return or a byte order mark. -/
  | blank (c : Char)
  | lineBreak
  /-- Two slashes and the characters after them up to the end of the line. -/
  | lineComment (body : List Char)
  /-- A comment between brackets of a slash and a star. -/
  | comment (body : List Char)
  | token (kind : TokenKind)
  deriving DecidableEq, Repr

/-- The characters of a piece. -/
def Piece.text : Piece → List Char
  | .blank c => [c]
  | .lineBreak => ['\n']
  | .lineComment body => '/' :: '/' :: body
  | .comment body => '/' :: '*' :: body ++ ['*', '/']
  | .token kind => kind.text.toList

/-- Why no piece begins here. -/
inductive ScanError
  | commentOpen
  | stringOpen
  | rawStringOpen
  | runeOpen
  | runeEmpty
  | invalidChar (c : Char)
  deriving DecidableEq, Repr

/-- What a diagnostic says about the fault. -/
def ScanError.message : ScanError → String
  | .commentOpen => "comment not terminated"
  | .stringOpen => "string literal not terminated"
  | .rawStringOpen => "raw string literal not terminated"
  | .runeOpen => "rune literal not terminated"
  | .runeEmpty => "empty rune literal"
  | .invalidChar c => "invalid character " ++ quoted c

/-- A fault and the characters that were read when it showed. -/
structure Fault where
  error : ScanError
  text : List Char
  deriving DecidableEq, Repr

/-- Blanks that separate tokens and mean nothing else. -/
def isSpacing (c : Char) : Bool := c == ' ' || c == '\t' || c == '\r' || c == '\uFEFF'

/-- Cuts the body of a comment off at its closing bracket. -/
def commentBody : List Char → Option (List Char × List Char)
  | [] => none
  | '*' :: '/' :: rest => some ([], rest)
  | c :: cs => (commentBody cs).map fun (body, rest) => (c :: body, rest)

/-- Cuts a literal off at its closing quote, which belongs to the part before the cut. A backslash
takes the character after it along. The rest is missing if the line ends before the quote. -/
def quotedBody (quote : Char) : List Char → List Char × Option (List Char)
  | [] => ([], none)
  | c :: cs =>
    if c = '\n' then ([], none)
    else if c = quote then ([c], some cs)
    else if c = '\\' then
      match cs with
      | [] => ([c], none)
      | d :: ds =>
        if d = '\n' then ([c], none)
        else
          let (text, rest) := quotedBody quote ds
          (c :: d :: text, rest)
    else
      let (text, rest) := quotedBody quote cs
      (c :: text, rest)

/-- Whether a character may stand anywhere in a number. -/
def isNumberChar (c : Char) : Bool := c.isAlphanum || c == '_' || c == '.'

/-- Whether a sign after `c` belongs to the number. -/
def isExponentMark (hex : Bool) (c : Char) : Bool :=
  if hex then c == 'p' || c == 'P' else c == 'e' || c == 'E'

/-- Cuts a number off where it ends; `last` is its last character so far. -/
def numberBody (hex : Bool) (last : Char) : List Char → List Char × List Char
  | [] => ([], [])
  | c :: cs =>
    if isNumberChar c || ((c == '+' || c == '-') && isExponentMark hex last) then
      let (text, rest) := numberBody hex c cs
      (c :: text, rest)
    else ([], c :: cs)

/-- Whether a number begins with the mark of base sixteen. -/
def isHex : List Char → Bool
  | '0' :: x :: _ => x == 'x' || x == 'X'
  | _ => false

/-- The kind of a number, by its letters. -/
def numberKind (text : List Char) : LiteralKind :=
  let lower := text.map Char.toLower
  if lower.getLast? = some 'i' then .imaginary
  else if lower.contains '.' then .float
  else if isHex text then if lower.contains 'p' then .float else .int
  else if ['0', 'b'].isPrefixOf lower || ['0', 'o'].isPrefixOf lower then .int
  else if lower.contains 'e' then .float
  else .int

/-- A word is a keyword or an identifier. -/
def wordKind (word : String) : TokenKind :=
  match Keyword.ofWord? word with
  | some k => .keyword k
  | none => .ident word

/-- Whether a number begins with `c`, where `cs` follows. -/
def beginsNumber (c : Char) (cs : List Char) : Bool :=
  c.isDigit || (c == '.' && cs.head?.any Char.isDigit)

/-- The token of a literal between quotes, or the fault if it is not closed. -/
def readQuoted (kind : LiteralKind) (error : ScanError) (quote : Char) (cs : List Char) :
    Except Fault (Piece × List Char) :=
  match quotedBody quote cs with
  | (text, some rest) => .ok (.token (.literal kind (String.ofList (quote :: text))), rest)
  | (text, none) => .error ⟨error, quote :: text⟩

/-- Cuts the first piece off the source `c :: cs`. -/
def readPiece (c : Char) (cs : List Char) : Except Fault (Piece × List Char) :=
  if isSpacing c then .ok (.blank c, cs)
  else if c = '\n' then .ok (.lineBreak, cs)
  else if c = '/' ∧ cs.head? = some '/' then
    .ok (.lineComment (cs.tail.takeWhile (· != '\n')), cs.tail.dropWhile (· != '\n'))
  else if c = '/' ∧ cs.head? = some '*' then
    match commentBody cs.tail with
    | some (body, rest) => .ok (.comment body, rest)
    | none => .error ⟨.commentOpen, c :: cs⟩
  else if isIdentStart c then
    .ok (.token (wordKind (String.ofList (c :: cs.takeWhile isIdentPart))),
      cs.dropWhile isIdentPart)
  else if beginsNumber c cs then
    let (text, rest) := numberBody (isHex (c :: cs)) c cs
    .ok (.token (.literal (numberKind (c :: text)) (String.ofList (c :: text))), rest)
  else if c = '"' then readQuoted .string .stringOpen '"' cs
  else if c = '\x60' then
    match cs.dropWhile (· != '\x60') with
    | _ :: rest =>
      .ok (.token (.literal .string
        (String.ofList ('\x60' :: cs.takeWhile (· != '\x60') ++ ['\x60']))), rest)
    | [] => .error ⟨.rawStringOpen, c :: cs⟩
  else if c = '\'' then
    if cs.head? = some '\'' then .error ⟨.runeEmpty, ['\'', '\'']⟩
    else readQuoted .rune .runeOpen '\'' cs
  else
    match Operator.longestIn (c :: cs) with
    | some op => .ok (.token (.operator op), (c :: cs).drop op.spelling.length)
    | none => .error ⟨.invalidChar c, [c]⟩

/-! ### Nothing is lost -/

theorem commentBody_append {cs body rest : List Char} (h : commentBody cs = some (body, rest)) :
    body ++ '*' :: '/' :: rest = cs := by
  fun_induction commentBody cs generalizing body with
  | case1 => simp at h
  | case2 => simp_all
  | case3 c cs _ ih =>
    obtain ⟨⟨body', rest'⟩, hr, he⟩ := Option.map_eq_some_iff.1 h
    simp only [Prod.mk.injEq] at he
    obtain ⟨rfl, rfl⟩ := he
    simp [ih hr]

theorem quotedBody_append {quote : Char} {cs text rest : List Char}
    (h : quotedBody quote cs = (text, some rest)) : text ++ rest = cs := by
  fun_induction quotedBody quote cs generalizing text with
  | case1 => simp at h
  | case2 => simp at h
  | case3 => obtain ⟨rfl, h⟩ := Prod.mk.inj h; simp_all
  | case4 => simp at h
  | case5 => simp at h
  | case6 => obtain ⟨rfl, h⟩ := Prod.mk.inj h; simp_all
  | case7 => obtain ⟨rfl, h⟩ := Prod.mk.inj h; simp_all

theorem numberBody_append (hex : Bool) (last : Char) (cs : List Char) :
    (numberBody hex last cs).1 ++ (numberBody hex last cs).2 = cs := by
  fun_induction numberBody hex last cs <;> simp_all

theorem wordKind_text (word : String) : (wordKind word).text = word := by
  unfold wordKind
  split
  · rename_i k h
    have := List.find?_some h
    simpa [TokenKind.text] using this
  · rfl

theorem Operator.longestIn_append {cs : List Char} {op : Operator}
    (h : Operator.longestIn cs = some op) :
    op.spelling.toList ++ cs.drop op.spelling.length = cs := by
  have hp := List.find?_some h
  obtain ⟨t, rfl⟩ := List.isPrefixOf_iff_prefix.1 hp
  simp [← String.length_toList]

theorem readQuoted_eq_ok {kind : LiteralKind} {error : ScanError} {quote : Char}
    {cs rest : List Char} {p : Piece} (h : readQuoted kind error quote cs = .ok (p, rest)) :
    ∃ text, p = .token (.literal kind (String.ofList (quote :: text))) ∧
      quotedBody quote cs = (text, some rest) := by
  unfold readQuoted at h
  split at h
  · rename_i text rest' hq
    cases h
    exact ⟨text, rfl, hq⟩
  · cases h

theorem Operator.spelling_ne_empty (op : Operator) : op.spelling ≠ "" := by
  cases op <;> simp [Operator.spelling]

/-- What is cut off the source `c :: cs`: a piece, and what follows it. -/
inductive CutOff (c : Char) (cs : List Char) : Piece → List Char → Prop
  | blank : isSpacing c = true → CutOff c cs (.blank c) cs
  | lineBreak : c = '\n' → CutOff c cs .lineBreak cs
  | lineComment {ds} : c = '/' → cs = '/' :: ds →
      CutOff c cs (.lineComment (ds.takeWhile (· != '\n'))) (ds.dropWhile (· != '\n'))
  | comment {ds body rest} : c = '/' → cs = '*' :: ds → commentBody ds = some (body, rest) →
      CutOff c cs (.comment body) rest
  | word : isIdentStart c = true →
      CutOff c cs (.token (wordKind (String.ofList (c :: cs.takeWhile isIdentPart))))
        (cs.dropWhile isIdentPart)
  | number {text rest} : beginsNumber c cs = true →
      numberBody (isHex (c :: cs)) c cs = (text, rest) →
      CutOff c cs (.token (.literal (numberKind (c :: text)) (String.ofList (c :: text)))) rest
  | string {text rest} : c = '"' → quotedBody '"' cs = (text, some rest) →
      CutOff c cs (.token (.literal .string (String.ofList ('"' :: text)))) rest
  | rawString {rest} : c = '\x60' → cs.dropWhile (· != '\x60') = '\x60' :: rest →
      CutOff c cs (.token (.literal .string
        (String.ofList ('\x60' :: cs.takeWhile (· != '\x60') ++ ['\x60'])))) rest
  | rune {text rest} : c = '\'' → cs.head? ≠ some '\'' → quotedBody '\'' cs = (text, some rest) →
      CutOff c cs (.token (.literal .rune (String.ofList ('\'' :: text)))) rest
  | operator {op} : ¬(c = '/' ∧ cs.head? = some '/') → ¬(c = '/' ∧ cs.head? = some '*') →
      beginsNumber c cs = false → Operator.longestIn (c :: cs) = some op →
      CutOff c cs (.token (.operator op)) ((c :: cs).drop op.spelling.length)

/-- **What the scanner can do** in one step. -/
theorem cutOff_of_readPiece {c : Char} {cs rest : List Char} {p : Piece}
    (h : readPiece c cs = .ok (p, rest)) : CutOff c cs p rest := by
  unfold readPiece at h
  split at h
  · cases h
    exact .blank ‹_›
  split at h
  · cases h
    exact .lineBreak ‹_›
  split at h
  · rename_i hline
    obtain ⟨hc, hcs⟩ := hline
    obtain ⟨ds, rfl⟩ := List.head?_eq_some_iff.1 hcs
    cases h
    exact .lineComment hc rfl
  split at h
  · rename_i hblock
    obtain ⟨hc, hcs⟩ := hblock
    obtain ⟨ds, rfl⟩ := List.head?_eq_some_iff.1 hcs
    split at h
    · rename_i hbody
      cases h
      exact .comment hc rfl hbody
    · cases h
  split at h
  · cases h
    exact .word ‹_›
  split at h
  · cases h
    exact .number ‹_› rfl
  split at h
  · obtain ⟨text, rfl, hquoted⟩ := readQuoted_eq_ok h
    exact .string ‹_› hquoted
  split at h
  · split at h
    · rename_i d rest' hrest
      cases h
      -- what the body stops at is the closing quote
      obtain rfl : d = '\x60' := by
        have := List.head?_dropWhile_not (fun x => x != '\x60') cs
        simp_all
      exact .rawString ‹_› hrest
    · cases h
  split at h
  · split at h
    · cases h
    · obtain ⟨text, rfl, hquoted⟩ := readQuoted_eq_ok h
      exact .rune ‹_› ‹_› hquoted
  rename_i hline hblock _ hnumber _ _ _
  split at h
  · rename_i hop
    cases h
    exact .operator hline hblock (by simpa using hnumber) hop
  · cases h

/-- **Nothing is lost.** A piece begins with the first character of the source it was cut from,
and its other characters and what follows it are the rest of that source. -/
theorem readPiece_text {c : Char} {cs rest : List Char} {p : Piece}
    (h : readPiece c cs = .ok (p, rest)) : ∃ t, p.text = c :: t ∧ t ++ rest = cs := by
  cases cutOff_of_readPiece h with
  | blank => exact ⟨[], rfl, rfl⟩
  | lineBreak hc => exact ⟨[], by rw [hc]; rfl, rfl⟩
  | @lineComment ds hc hcs =>
    subst hc hcs
    exact ⟨_, rfl, by simp [List.takeWhile_append_dropWhile]⟩
  | @comment ds body rest hc hcs hbody =>
    subst hc hcs
    exact ⟨_, rfl, by simpa using commentBody_append hbody⟩
  | word =>
    exact ⟨cs.takeWhile isIdentPart, by simp [Piece.text, wordKind_text],
      List.takeWhile_append_dropWhile⟩
  | @number text rest _ hn =>
    refine ⟨text, by simp [Piece.text, TokenKind.text], ?_⟩
    have happ := numberBody_append (isHex (c :: cs)) c cs
    rwa [hn] at happ
  | string hc hq => exact ⟨_, by simp [Piece.text, TokenKind.text, hc], quotedBody_append hq⟩
  | @rawString rest hc hrest =>
    refine ⟨cs.takeWhile (· != '\x60') ++ ['\x60'], by simp [Piece.text, TokenKind.text, hc], ?_⟩
    have happ := List.takeWhile_append_dropWhile (p := fun x => x != '\x60') (l := cs)
    rw [hrest] at happ
    simpa using happ
  | rune hc _ hq => exact ⟨_, by simp [Piece.text, TokenKind.text, hc], quotedBody_append hq⟩
  | @operator op _ _ _ hop =>
    have happ := Operator.longestIn_append hop
    obtain ⟨d, t, ht⟩ := List.exists_cons_of_ne_nil
      (show op.spelling.toList ≠ [] by simpa using op.spelling_ne_empty)
    rw [ht, List.cons_append, List.cons.injEq] at happ
    exact ⟨t, by rw [Piece.text, TokenKind.text, ht, happ.1], happ.2⟩

theorem readPiece_length {c : Char} {cs rest : List Char} {p : Piece}
    (h : readPiece c cs = .ok (p, rest)) : rest.length < (c :: cs).length := by
  obtain ⟨t, -, rfl⟩ := readPiece_text h
  simp only [List.length_cons, List.length_append]
  omega

/-! ### The row of pieces -/

/-- The pieces of a source up to its end or the first fault. -/
def scan (cs : List Char) : List Piece × Option Fault :=
  match cs with
  | [] => ([], none)
  | c :: cs =>
    match _ : readPiece c cs with
    | .error fault => ([], some fault)
    | .ok (p, rest) =>
      let (pieces, fault) := scan rest
      (p :: pieces, fault)
termination_by cs.length
decreasing_by exact readPiece_length (by assumption)

/-- The text of a row of pieces. -/
def Piece.joined (pieces : List Piece) : List Char := pieces.flatMap Piece.text

/-- **The pieces are the source.** -/
theorem scan_text {cs : List Char} (h : (scan cs).2 = none) : Piece.joined (scan cs).1 = cs := by
  fun_induction scan cs with
  | case1 => rfl
  | case2 => simp at h
  | case3 c cs p rest hp pieces fault hs ih =>
    obtain ⟨t, ht, hr⟩ := readPiece_text hp
    simp only [hs] at ih
    simp [Piece.joined, ht] at ih ⊢
    rw [ih h, hr]

end TestWeave.Source
