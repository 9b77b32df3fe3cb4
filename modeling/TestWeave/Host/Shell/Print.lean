/-!
# What shell scripts print

* `echoBytes`, `formatBytes`: what the two printing commands print.
-/

namespace TestWeave.Host.Shell

/-- The digits of an octal number. -/
def isOctal (c : Char) : Bool := '0' ≤ c && c ≤ '7'

/-- The number that octal digits spell. -/
def octalValue (digits : List Char) : Nat :=
  digits.foldl (fun n c => 8 * n + (c.toNat - '0'.toNat)) 0

/-- The character that an escaped letter stands for. -/
def escapedChar? : Char → Option Char
  | 'n' => some '\n'
  | 't' => some '\t'
  | 'r' => some '\r'
  | 'a' => some '\x07'
  | 'b' => some '\x08'
  | 'f' => some '\x0c'
  | 'v' => some '\x0b'
  | '\\' => some '\\'
  | _ => none

/-- The bytes of an escape whose backslash has been read, and what follows it. Up to three octal
digits stand for a byte; an unknown escape stands for itself. -/
def readEscape (cs : List Char) : ByteArray × List Char :=
  let digits := (cs.take 3).takeWhile isOctal
  if digits.isEmpty then
    match cs with
    | [] => ("\\".toUTF8, [])
    | c :: rest =>
      match escapedChar? c with
      | some char => (char.toString.toUTF8, rest)
      | none => ("\\".toUTF8 ++ c.toString.toUTF8, rest)
  else (⟨#[(octalValue digits).toUInt8]⟩, cs.drop digits.length)

/-- The bytes of a text with escapes, and whether output stops there. A zero may stand before the
octal digits of a byte. -/
def unescape : Nat → List Char → ByteArray × Bool
  | 0, _ | _, [] => (ByteArray.empty, false)
  | fuel + 1, c :: rest =>
    if c = '\\' then
      match rest with
      | 'c' :: _ => (ByteArray.empty, true)
      | rest =>
        let rest := match rest with
          | '0' :: d :: more => if isOctal d then d :: more else rest
          | rest => rest
        let (here, rest) := readEscape rest
        let (bytes, stop) := unescape fuel rest
        (here ++ bytes, stop)
    else
      let (bytes, stop) := unescape fuel rest
      (c.toString.toUTF8 ++ bytes, stop)

/-- The line that `echo` prints. -/
def echoBytes (args : List String) : ByteArray :=
  let (feed, args) := match args with
    | "-n" :: args => (false, args)
    | args => (true, args)
  let line := (String.intercalate " " args).toList
  let (bytes, stop) := unescape line.length line
  if feed && !stop then bytes ++ "\n".toUTF8 else bytes

/-- A text with blanks or zeros before it, or blanks behind it, up to a width. -/
def pad (flags : List Char) (width : Nat) (text : List Char) : List Char :=
  let fill := width - text.length
  if flags.contains '-' then text ++ List.replicate fill ' '
  else List.replicate fill (if flags.contains '0' then '0' else ' ') ++ text

/-- The bytes of a directive with its argument. -/
def directive (flags : List Char) (width : Nat) (kind : Char) (arg : String) : ByteArray :=
  let number := arg.toInt?.getD 0
  let show_ (text : List Char) : ByteArray := (String.ofList (pad flags width text)).toUTF8
  match kind with
  | 'd' | 'i' => show_ (toString number).toList
  | 'u' => show_ (toString number.toNat).toList
  | 'x' => show_ (Nat.toDigits 16 number.toNat)
  | 'o' => show_ (Nat.toDigits 8 number.toNat)
  | 'c' => show_ (arg.toList.take 1)
  | 'b' => (unescape arg.length arg.toList).1
  | _ => show_ arg.toList

/-- Writes a format once, and gives the arguments that are left. -/
def formatOnce : Nat → List Char → List String → ByteArray × List String
  | 0, _, args | _, [], args => (ByteArray.empty, args)
  | fuel + 1, c :: f, args =>
    let (here, f, args) : ByteArray × List Char × List String :=
      if c = '\\' then
        let (bytes, f) := readEscape f
        (bytes, f, args)
      else if c = '%' then
        match f with
        | '%' :: f => ("%".toUTF8, f, args)
        | f =>
          let flags := f.takeWhile fun c => "-0+ #".toList.contains c
          let f := f.drop flags.length
          let width := f.takeWhile Char.isDigit
          match f.drop width.length with
          | [] => ("%".toUTF8, [], args)
          | kind :: f =>
            let width := ((String.ofList width).toNat?).getD 0
            (directive flags width kind (args.headD ""), f, args.tail)
      else (c.toString.toUTF8, f, args)
    let (bytes, args) := formatOnce fuel f args
    (here ++ bytes, args)

/-- Writes a format until no argument is left. -/
def formatAll (format : List Char) : Nat → List String → ByteArray
  | 0, _ => ByteArray.empty
  | fuel + 1, args =>
    let (bytes, rest) := formatOnce format.length format args
    if rest.isEmpty || rest.length == args.length then bytes
    else bytes ++ formatAll format fuel rest

/-- What `printf` prints. -/
def formatBytes (format : String) (args : List String) : ByteArray :=
  formatAll format.toList (args.length + 1) args

end TestWeave.Host.Shell
