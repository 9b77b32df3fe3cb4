/-!
# Reading bytes as text

* `decode?`: the text whose encoding the bytes are, if there is one.
* `decodeLossy`: a text for any bytes. Each longest run of bytes that begins an encoding but does
  not finish it, and each byte that begins none, becomes one replacement character.
* `decode?_toUTF8`: what was encoded is read back.
-/

namespace TestWeave.Text.Utf8

/-- The text whose UTF-8 encoding the bytes are. -/
def decode? (bytes : ByteArray) : Option String := String.fromUTF8? bytes

theorem decode?_toUTF8 (s : String) : decode? s.toUTF8 = some s := by
  unfold decode? String.fromUTF8?
  rw [String.toUTF8_eq_toByteArray, dif_pos s.isValidUTF8]
  rfl

/-- Stands for bytes that encode nothing. -/
def replacement : Char := '\uFFFD'

/-- Whether a byte continues an encoding. -/
def continues (b : UInt8) : Bool := 0x80 ≤ b && b ≤ 0xBF

/-- Whether `c` may follow the lead byte `b` of an encoding of two or more bytes. -/
def follows (b c : UInt8) : Bool :=
  if b < 0xC2 || 0xF4 < b then false
  else if b == 0xE0 then 0xA0 ≤ c && c ≤ 0xBF
  else if b == 0xED then 0x80 ≤ c && c ≤ 0x9F
  else if b == 0xF0 then 0x90 ≤ c && c ≤ 0xBF
  else if b == 0xF4 then 0x80 ≤ c && c ≤ 0x8F
  else continues c

/-- The character whose code point has the given groups of bits, most significant first. -/
def ofGroups (lead : Nat) (tail : List UInt8) : Char :=
  Char.ofNat (tail.foldl (fun n b => n * 64 + b.toNat % 64) lead)

/-- The characters of a byte list, with a replacement for what encodes nothing. -/
def lossyChars : List UInt8 → List Char
  | [] => []
  | [b] => [if b < 0x80 then Char.ofNat b.toNat else replacement]
  | b :: c :: rest =>
    if b < 0x80 then Char.ofNat b.toNat :: lossyChars (c :: rest)
    else if !follows b c then replacement :: lossyChars (c :: rest)
    else if b < 0xE0 then ofGroups (b.toNat % 32) [c] :: lossyChars rest
    else match rest with
      | [] => [replacement]
      | d :: rest =>
        if !continues d then replacement :: lossyChars (d :: rest)
        else if b < 0xF0 then ofGroups (b.toNat % 16) [c, d] :: lossyChars rest
        else match rest with
          | [] => [replacement]
          | e :: rest =>
            if continues e then ofGroups (b.toNat % 8) [c, d, e] :: lossyChars rest
            else replacement :: lossyChars (e :: rest)
termination_by bytes => bytes.length

/-- A text for any bytes: the one they encode, or one with replacements. -/
def decodeLossy (bytes : ByteArray) : String :=
  match decode? bytes with
  | some s => s
  | none => String.ofList (lossyChars bytes.toList)

end TestWeave.Text.Utf8
