import TestWeave.Source.Diagnostic
import TestWeave.Source.Piece

/-!
# The tokens of a source

`lex` gives every token of a source its place and inserts the semicolons that line breaks stand
for: after a token that may end a statement, the first line break (or comment with a line break
in it) ends the statement, and so does the end of the file. An inserted semicolon covers nothing
and stands right behind what called for it.
-/

namespace TestWeave.Source

/-- Whether a piece ends the line it begins on. -/
def Piece.breaksLine : Piece → Bool
  | .lineBreak => true
  | .comment body => body.contains '\n'
  | _ => false

/-- A semicolon that the source does not spell. -/
def insertedSemi (here : Place) : Token := ⟨.operator .semi, here.spanTo here.offset⟩

/-- The tokens of a row of pieces that begins at `here`, the place behind the row, and whether a
line break there would end a statement. `armed` says so of the beginning of the row. -/
def placeTokens (here : Place) (armed : Bool) : List Piece → List Token × Place × Bool
  | [] => ([], here, armed)
  | p :: ps =>
    let next := here.after p.text
    match p with
    | .token kind =>
      let (tokens, final) := placeTokens next kind.endsStatement ps
      (⟨kind, here.spanTo next.offset⟩ :: tokens, final)
    | p =>
      if armed && p.breaksLine then
        let (tokens, final) := placeTokens next false ps
        (insertedSemi next :: tokens, final)
      else placeTokens next armed ps

/-- The tokens of a source, the end of the file among them, or what is wrong with it. -/
def lex (source : String) : Except Diagnostic (List Token) :=
  let (pieces, fault) := scan source.toList
  let (tokens, here, armed) := placeTokens .origin false pieces
  match fault with
  | some f => .error ⟨f.error.message, some (here.spanTo (here.offset + byteSize f.text))⟩
  | none =>
    let closing := if armed then [insertedSemi here] else []
    .ok (tokens ++ closing ++ [⟨.eof, here.spanTo here.offset⟩])

end TestWeave.Source
