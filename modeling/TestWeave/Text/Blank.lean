import TestWeave.Split
import TestWeave.Text.CharRange

/-!
# Blanks, trimming and lines

* `isBlank`: the Unicode property `White_Space`.
* `trim`: the text without the blanks at its ends.
* `lines`: the lines of a text. A line ends at a line feed, and a carriage return right before it
  belongs to the line end; after the last line feed a line follows only if it is not empty.
-/

namespace TestWeave.Text

/-- The characters with the Unicode property `White_Space`. -/
def blankRanges : CharRanges := [
  (0x9, 0xD), (0x20, 0x20), (0x85, 0x85), (0xA0, 0xA0), (0x1680, 0x1680), (0x2000, 0x200A),
  (0x2028, 0x2029), (0x202F, 0x202F), (0x205F, 0x205F), (0x3000, 0x3000)]

/-- Whether `c` has the Unicode property `White_Space`. -/
def isBlank (c : Char) : Bool := blankRanges.has c

/-- The text without leading blanks. -/
def trimStart (s : String) : String := String.ofList (s.toList.dropWhile isBlank)

/-- The text without trailing blanks. -/
def trimEnd (s : String) : String :=
  String.ofList (s.toList.reverse.dropWhile isBlank).reverse

/-- The text without the blanks at its ends. -/
def trim (s : String) : String := trimEnd (trimStart s)

/-- A line without the carriage return that its line end left behind. -/
def dropReturn (line : List Char) : List Char :=
  if line.getLast? = some '\r' then line.dropLast else line

/-- The lines of a character list: every piece but the last was ended by a line feed. -/
def charLines (cs : List Char) : List (List Char) :=
  let pieces := splitWhere (· == '\n') cs
  let ended := pieces.dropLast.map dropReturn
  match pieces.getLast? with
  | none | some [] => ended
  | some last => ended ++ [last]

/-- The lines of a text, without their line ends. -/
def lines (s : String) : List String := (charLines s.toList).map String.ofList

/-- The text before the first occurrence of a character, and the text after it. -/
def splitOnce (sep : Char) (s : String) : Option (String × String) :=
  let before := s.toList.takeWhile (· != sep)
  match s.toList.dropWhile (· != sep) with
  | [] => none
  | _ :: after => some (String.ofList before, String.ofList after)

theorem splitOnce_eq_some {sep : Char} {s : String} {before after : List Char}
    (h : s.toList = before ++ sep :: after) (hb : sep ∉ before) :
    splitOnce sep s = some (String.ofList before, String.ofList after) := by
  have hall : ∀ c ∈ before, (c != sep) = true := by
    intro c hc
    rw [bne_iff_ne]
    rintro rfl
    exact hb hc
  rw [splitOnce, h, List.takeWhile_append_of_pos hall, List.dropWhile_append_of_pos hall]
  simp

/-- What follows `lead` at the head of a character list. -/
def afterLead : List Char → List Char → Option (List Char)
  | [], cs => some cs
  | _ :: _, [] => none
  | l :: lead, c :: cs => if l = c then afterLead lead cs else none

theorem afterLead_eq_some_iff {lead cs rest : List Char} :
    afterLead lead cs = some rest ↔ cs = lead ++ rest := by
  fun_induction afterLead lead cs <;> grind

/-- What follows `lead` at the head of `s`. -/
def dropLead (lead s : String) : Option String :=
  (afterLead lead.toList s.toList).map String.ofList

/-- Whether `s` begins with `lead`. -/
def startsWith (lead s : String) : Bool := lead.toList.isPrefixOf s.toList

/-- Whether `s` ends with `tail`. -/
def endsWith (tail s : String) : Bool := tail.toList.isSuffixOf s.toList

/-- What precedes `tail` at the end of `s`. -/
def dropTail (tail s : String) : Option String :=
  (afterLead tail.toList.reverse s.toList.reverse).map fun r => String.ofList r.reverse

/-- Whether `part` occurs in a character list. -/
def occursIn (part : List Char) : List Char → Bool
  | [] => part.isEmpty
  | c :: cs => part.isPrefixOf (c :: cs) || occursIn part cs

/-- Whether `part` occurs in `s`. -/
def contains (part s : String) : Bool := occursIn part.toList s.toList

end TestWeave.Text
