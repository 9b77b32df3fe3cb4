/-!
# Places and stretches of a source text

A `Place` is a point of a text: its byte offset, its line and its column, where lines and columns
count from one and a column counts characters. A `Span` is a stretch: two byte offsets, and the
line and column of the first.

* `Place.after_append`: walking over two texts in turn is walking over the two as one.
* `Place.offset_after`: the offset grows by the size of what was walked over.
-/

namespace TestWeave.Source

/-- A line and a column, both counted from one. -/
structure Position where
  line : Nat
  column : Nat
  deriving DecidableEq, Repr, Inhabited

/-- A point of a text. -/
structure Place where
  offset : Nat
  line : Nat
  column : Nat
  deriving DecidableEq, Repr

/-- A stretch of a text, with the line and column where it starts. -/
structure Span where
  start : Nat
  stop : Nat
  line : Nat
  column : Nat
  deriving DecidableEq, Repr, Inhabited

/-- The number of bytes that encode a character list. -/
def byteSize : List Char → Nat
  | [] => 0
  | c :: cs => c.utf8Size + byteSize cs

theorem byteSize_append (cs ds : List Char) : byteSize (cs ++ ds) = byteSize cs + byteSize ds := by
  induction cs with
  | nil => simp [byteSize]
  | cons c cs ih => simp only [List.cons_append, byteSize, ih]; omega

namespace Place

/-- Where every text begins. -/
def origin : Place := ⟨0, 1, 1⟩

/-- The place behind one character. -/
def next (p : Place) (c : Char) : Place :=
  if c = '\n' then ⟨p.offset + c.utf8Size, p.line + 1, 1⟩
  else ⟨p.offset + c.utf8Size, p.line, p.column + 1⟩

/-- The place behind a character list. -/
def after (p : Place) (cs : List Char) : Place := cs.foldl next p

@[simp] theorem after_nil (p : Place) : p.after [] = p := rfl

@[simp] theorem after_cons (p : Place) (c : Char) (cs : List Char) :
    p.after (c :: cs) = (p.next c).after cs := rfl

theorem after_append (p : Place) (cs ds : List Char) :
    p.after (cs ++ ds) = (p.after cs).after ds := by
  simp [after]

theorem offset_next (p : Place) (c : Char) : (p.next c).offset = p.offset + c.utf8Size := by
  unfold next; split <;> rfl

theorem offset_after (p : Place) (cs : List Char) :
    (p.after cs).offset = p.offset + byteSize cs := by
  induction cs generalizing p with
  | nil => simp [byteSize]
  | cons c cs ih => simp [ih, offset_next, byteSize]; omega

/-- The stretch from `p` to the byte offset `stop`. -/
def spanTo (p : Place) (stop : Nat) : Span := ⟨p.offset, stop, p.line, p.column⟩

end Place

namespace Span

/-- The position where a stretch starts. -/
def position (s : Span) : Position := ⟨s.line, s.column⟩

/-- The stretch from the start of `s` to the end of `t`. -/
def through (s t : Span) : Span := { s with stop := t.stop }

/-- Whether the stretch covers nothing. -/
def isEmpty (s : Span) : Bool := s.start == s.stop

end Span

/-- Cuts a character list at a byte offset: what lies before it, and the rest. -/
def cutAt : Nat → List Char → List Char × List Char
  | _, [] => ([], [])
  | n, c :: cs =>
    if n < c.utf8Size then ([], c :: cs)
    else
      let (before, rest) := cutAt (n - c.utf8Size) cs
      (c :: before, rest)

@[simp] theorem cutAt_zero (cs : List Char) : cutAt 0 cs = ([], cs) := by
  cases cs with
  | nil => rfl
  | cons c cs => simp [cutAt, Char.utf8Size_pos]

/-- Nothing is lost by a cut. -/
theorem cutAt_append (n : Nat) (cs : List Char) : (cutAt n cs).1 ++ (cutAt n cs).2 = cs := by
  fun_induction cutAt n cs with
  | case1 => rfl
  | case2 => rfl
  | case3 n c cs _ before rest h ih => simp_all

theorem cutAt_add (cs ds : List Char) (n : Nat) :
    cutAt (byteSize cs + n) (cs ++ ds) = (cs ++ (cutAt n ds).1, (cutAt n ds).2) := by
  induction cs with
  | nil => simp [byteSize]
  | cons c cs ih =>
    have h : byteSize (c :: cs) + n = c.utf8Size + (byteSize cs + n) := by
      simp only [byteSize]
      omega
    simp [cutAt, h, ih]

/-- A cut behind a first part finds that part. -/
theorem cutAt_byteSize (cs ds : List Char) : cutAt (byteSize cs) (cs ++ ds) = (cs, ds) := by
  simpa using cutAt_add cs ds 0

/-- The text of a stretch of a source. -/
def Span.textIn (s : Span) (source : String) : String :=
  String.ofList (cutAt (s.stop - s.start) (cutAt s.start source.toList).2).1

end TestWeave.Source
