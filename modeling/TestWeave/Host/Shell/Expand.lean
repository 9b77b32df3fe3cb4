import TestWeave.Host.Shell.Arith
import TestWeave.Host.Shell.State
import TestWeave.Host.Shell.Word

/-!
# Expanding words

The words of a command stand for texts: parameters are replaced by their values, substitutions by
what they print, and what was not quoted is split into fields.

* `expandAll`: the fields of words.
* `expandOne`: the text of a word that is not split.
-/

namespace TestWeave.Host.Shell

/-- Whether a text fits a pattern with stars and question marks. -/
def fits : List Char → List Char → Bool
  | [], cs => cs.isEmpty
  | '*' :: ps, [] => fits ps []
  | '*' :: ps, c :: cs => fits ps (c :: cs) || fits ('*' :: ps) cs
  | '?' :: ps, _ :: cs => fits ps cs
  | _ :: _, [] => false
  | p :: ps, c :: cs => p == c && fits ps cs
termination_by ps cs => ps.length + cs.length

/-- What is left of a text without a head that fits a pattern. -/
def cutHead (longest : Bool) (pattern text : List Char) : List Char :=
  let sizes := List.range (text.length + 1)
  let sizes := if longest then sizes.reverse else sizes
  match sizes.find? fun n => fits pattern (text.take n) with
  | some n => text.drop n
  | none => text

/-- What is left of a text without a tail that fits a pattern. -/
def cutTail (longest : Bool) (pattern text : List Char) : List Char :=
  let sizes := List.range (text.length + 1)
  let sizes := if longest then sizes else sizes.reverse
  match sizes.find? fun n => fits pattern (text.drop n) with
  | some n => text.take n
  | none => text

/-- A piece of an expanded word. -/
inductive Fragment
  | quoted (text : List Char)
  | loose (text : List Char)
  /-- A new field begins here, whatever stands around. -/
  | border

/-- The fields of fragments; `current` holds the field that is being read. -/
def fieldsOf (current : Option (List Char)) : List Fragment → List (List Char)
  | [] => current.toList
  | .border :: fs => current.toList ++ fieldsOf none fs
  | .quoted text :: fs => fieldsOf (some (current.getD [] ++ text)) fs
  | .loose text :: fs =>
    let (finished, current) := text.foldl (fun (finished, current) c =>
      if c = ' ' ∨ c = '\t' ∨ c = '\n' then (finished ++ Option.toList current, none)
      else (finished, some (current.getD [] ++ [c]))) (([] : List (List Char)), current)
    finished ++ fieldsOf current fs

/-- What a substitution prints, and the state behind it. -/
abbrev Substitute := List Char → State → String × State

/-- The text without line feeds at its end. -/
def dropFeeds (s : String) : List Char :=
  (s.toList.reverse.dropWhile (· == '\n')).reverse

/-- What stands for a parameter. -/
def useParam (s : State) (name : String) (use : ParamUse) : List Char × State :=
  let value := ((s.param? name).getD "").toList
  let isSet (emptyToo : Bool) : Bool := (s.param? name).any fun v => !(emptyToo && v.isEmpty)
  match use with
  | .value => (value, s)
  | .orElse emptyToo other => (if isSet emptyToo then value else other, s)
  | .orAssign emptyToo other =>
    if isSet emptyToo then (value, s) else (other, s.assign name (String.ofList other))
  | .ifSet emptyToo other => (if isSet emptyToo then other else [], s)
  | .length => ((toString value.length).toList, s)
  | .cutTail longest pattern => (cutTail longest pattern value, s)
  | .cutHead longest pattern => (cutHead longest pattern value, s)

/-- The fragment of a text. -/
def fragmentOf (quoted : Bool) (text : List Char) : Fragment :=
  if quoted then .quoted text else .loose text

/-- The fragments of a word. -/
def fragments (substitute : Substitute) (s : State) : ShellWord → List Fragment × State
  | [] => ([], s)
  | part :: parts =>
    let (here, s) : List Fragment × State := match part with
      | .text cs _ => ([.quoted cs], s)
      | .param "@" .value true =>
        (((s.args.map fun a => [Fragment.quoted a.toList]).intersperse [.border]).flatten, s)
      | .param name use quoted =>
        let (text, s) := useParam s name use
        ([fragmentOf quoted text], s)
      | .output source quoted =>
        let (text, s) := substitute source s
        ([fragmentOf quoted (dropFeeds text)], s)
      | .number expression quoted =>
        let n := (arith? s.number expression).getD 0
        ([fragmentOf quoted (toString n).toList], s)
    let (rest, s) := fragments substitute s parts
    (here ++ rest, s)

/-- The fields of words. -/
def expandAll (substitute : Substitute) (s : State) : List ShellWord → List String × State
  | [] => ([], s)
  | w :: ws =>
    let (fs, s) := fragments substitute s w
    let (rest, s) := expandAll substitute s ws
    ((fieldsOf none fs).map String.ofList ++ rest, s)

/-- The text of a word that is not split. -/
def expandOne (substitute : Substitute) (s : State) (w : ShellWord) : String × State :=
  let (fs, s) := fragments substitute s w
  (String.ofList (fs.flatMap fun
    | .quoted t | .loose t => t
    | .border => [' ']), s)

end TestWeave.Host.Shell
