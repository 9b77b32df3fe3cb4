import TestWeave.Command.Line

/-!
# Arguments and their roles

The arguments of a command line and their roles are kept in two lists. A command line that was read
has a role for each argument, and so it is one list of words; each change to the two lists is a change
to this one.

* `CommandLine.Paired`: there is a role for each argument; `paired_read`.
* `CommandLine.ofWords`: the two lists of a list of words.
* `setFlag_ofWords`, `append_ofWords`, `replaceSource?_ofWords`, `setArg?_ofWords`: what a change to
  the two lists does to the words.
-/

namespace TestWeave.Command

variable {α : Type} {pick : α → Bool} {f : α → α} {as as' : List α}

/-! ### Words that are changed -/

/-- Changes the last element that a test picks out, if there is one. -/
def modifyLast? {α : Type} (pick : α → Bool) (f : α → α) : List α → Option (List α)
  | [] => none
  | a :: as =>
    match modifyLast? pick f as with
    | some as' => some (a :: as')
    | none => if pick a then some (f a :: as) else none

/-- Changes the first element that a test picks out, if there is one. -/
def modifyFirst? {α : Type} (pick : α → Bool) (f : α → α) : List α → Option (List α)
  | [] => none
  | a :: as => if pick a then some (f a :: as) else (modifyFirst? pick f as).map (a :: ·)

theorem modifyFirst?_eq_none : modifyFirst? pick f as = none ↔ ∀ a ∈ as, pick a = false := by
  induction as with
  | nil => simp [modifyFirst?]
  | cons a as ih =>
    rw [modifyFirst?, List.forall_mem_cons]
    cases ha : pick a <;> simp [ih]

/-- The first element that is picked is changed, and no other. -/
theorem modifyFirst?_eq_some (h : modifyFirst? pick f as = some as') :
    ∃ front a back, as = front ++ a :: back ∧ as' = front ++ f a :: back ∧ pick a = true ∧
      ∀ b ∈ front, pick b = false := by
  induction as generalizing as' with
  | nil => simp [modifyFirst?] at h
  | cons a as ih =>
    rw [modifyFirst?] at h
    split at h
    · rename_i ha
      obtain rfl := Option.some.inj h
      exact ⟨[], a, as, rfl, rfl, ha, by simp⟩
    · rename_i ha
      obtain ⟨rest, hrest, rfl⟩ := Option.map_eq_some_iff.1 h
      obtain ⟨front, b, back, rfl, rfl, hb, hfront⟩ := ih hrest
      exact ⟨a :: front, b, back, rfl, rfl, hb, List.forall_mem_cons.2 ⟨by simpa using ha, hfront⟩⟩

theorem modifyLast?_eq_none : modifyLast? pick f as = none ↔ ∀ a ∈ as, pick a = false := by
  induction as with
  | nil => simp [modifyLast?]
  | cons a as ih =>
    rw [modifyLast?, List.forall_mem_cons]
    cases hrest : modifyLast? pick f as with
    | some rest =>
      have hsome : ¬∀ b ∈ as, pick b = false := by
        rw [← ih, hrest]
        simp
      simp [hsome]
    | none =>
      have hnone := ih.1 hrest
      cases pick a with
      | true => simp
      | false => simpa using hnone

/-- The last element that is picked is changed, and no other. -/
theorem modifyLast?_eq_some (h : modifyLast? pick f as = some as') :
    ∃ front a back, as = front ++ a :: back ∧ as' = front ++ f a :: back ∧ pick a = true ∧
      ∀ b ∈ back, pick b = false := by
  induction as generalizing as' with
  | nil => simp [modifyLast?] at h
  | cons a as ih =>
    rw [modifyLast?] at h
    cases hrest : modifyLast? pick f as with
    | some rest =>
      rw [hrest] at h
      obtain rfl := Option.some.inj h
      obtain ⟨front, b, back, rfl, rfl, hb, hback⟩ := ih hrest
      exact ⟨a :: front, b, back, rfl, rfl, hb, hback⟩
    | none =>
      rw [hrest] at h
      simp only at h
      split at h
      · rename_i ha
        obtain rfl := Option.some.inj h
        exact ⟨[], a, as, rfl, rfl, ha, modifyLast?_eq_none.1 hrest⟩
      · simp at h

/-- An element is put in where the front ends. -/
theorem insertIdx_append (front back : List α) (a : α) :
    (front ++ back).insertIdx front.length a = front ++ a :: back := by
  induction front with
  | nil => rfl
  | cons b front ih => rw [List.cons_append, List.length_cons, List.insertIdx_succ_cons, ih]; rfl

/-- Two elements, one put in after the other. -/
theorem insertIdx_insertIdx_append (front back : List α) (a b : α) :
    ((front ++ back).insertIdx front.length a).insertIdx (front.length + 1) b =
      front ++ a :: b :: back := by
  have hsecond := insertIdx_append (front ++ [a]) back b
  rw [List.length_append, List.length_singleton, List.append_assoc, List.append_assoc] at hsecond
  rw [insertIdx_append]
  exact hsecond

/-! ### Command lines of words -/

variable {c : CommandLine} {tool : Path} {ws front back : List Word} {w : Word}
  {name value old new : String}

/-- There is a role for each argument. So it is in a command line that is read, and no change upsets
it. -/
def CommandLine.Paired (c : CommandLine) : Prop := c.roles.length = c.args.length

/-- The arguments and the roles of some words, for a tool. -/
def CommandLine.ofWords (tool : Path) (ws : List Word) : CommandLine :=
  ⟨tool, ws.map (·.text), ws.map (·.role)⟩

@[simp] theorem tool_ofWords : (CommandLine.ofWords tool ws).tool = tool := rfl

@[simp] theorem args_ofWords : (CommandLine.ofWords tool ws).args = ws.map (·.text) := rfl

@[simp] theorem roles_ofWords : (CommandLine.ofWords tool ws).roles = ws.map (·.role) := rfl

@[simp] theorem words_ofWords : (CommandLine.ofWords tool ws).words = ws := by
  simp [CommandLine.words, List.zipWith_map]

theorem paired_ofWords (tool : Path) (ws : List Word) : (CommandLine.ofWords tool ws).Paired := by
  simp [CommandLine.Paired]

namespace CommandLine.Paired

theorem args_eq (h : c.Paired) : c.words.map (·.text) = c.args := by
  rw [words, ← List.map_uncurry_zip_eq_zipWith, List.map_map]
  exact List.map_fst_zip (Nat.le_of_eq h.symm)

theorem roles_eq (h : c.Paired) : c.words.map (·.role) = c.roles := by
  rw [words, ← List.map_uncurry_zip_eq_zipWith, List.map_map]
  exact List.map_snd_zip (Nat.le_of_eq h)

/-- **A command line with a role for each argument** is that of its words. -/
theorem eq_ofWords (h : c.Paired) : c = ofWords c.tool c.words := by
  rw [ofWords, h.args_eq, h.roles_eq]

theorem exists_words (h : c.Paired) : ∃ tool ws, c = ofWords tool ws := ⟨_, _, h.eq_ofWords⟩

end CommandLine.Paired

/-- **A command line that is read** has a role for each argument, as reading neither drops an argument
nor takes one for two. -/
theorem paired_read (tool : Path) (args : List String) (registry : List FlagDef) :
    (CommandLine.read tool args registry).Paired := by
  have hlength := congrArg List.length (classify_text registry args)
  rw [List.length_map] at hlength
  rw [CommandLine.Paired, CommandLine.read, List.length_map, hlength]

/-- **The words that are read** are those of the command line. -/
theorem read_eq_ofWords (tool : Path) (args : List String) (registry : List FlagDef) :
    CommandLine.read tool args registry = .ofWords tool (classify registry args).1 := by
  rw [CommandLine.ofWords, classify_text, CommandLine.read]

/-! ### Changes -/

/-- The last word that carries a value is found in the roles alone. -/
theorem lastCarrier?_ofWords {inline : Bool} (hw : w.role.carries? name = some inline)
    (hback : ∀ v ∈ back, v.carries name = false) :
    (CommandLine.ofWords tool (front ++ w :: back)).lastCarrier? name =
      some (front.length, inline) := by
  have hnone : ((back.map (·.role)).zipIdx (front.length + 1)).reverse.findSome?
      (fun p => (p.1.carries? name).map (p.2, ·)) = none := by
    rw [List.findSome?_eq_none_iff]
    rintro ⟨role, i⟩ hmem
    obtain ⟨v, hv, rfl⟩ := List.mem_map.1 (List.fst_mem_of_mem_zipIdx (List.mem_reverse.1 hmem))
    simpa [Word.carries] using hback v hv
  unfold CommandLine.lastCarrier?
  simp [List.zipIdx_append, hnone, hw]

theorem lastCarrier?_eq_none (tool : Path) (h : ∀ w ∈ ws, w.carries name = false) :
    (CommandLine.ofWords tool ws).lastCarrier? name = none := by
  unfold CommandLine.lastCarrier?
  rw [List.findSome?_eq_none_iff]
  rintro ⟨role, i⟩ hmem
  obtain ⟨v, hv, rfl⟩ := List.mem_map.1 (List.fst_mem_of_mem_zipIdx (List.mem_reverse.1 hmem))
  simpa [Word.carries] using h v hv

/-- A word that carries the value of a flag, with another value. -/
def Word.withValue (name value : String) (w : Word) : Word :=
  match w.role with
  | .inlineFlag _ => { w with text := s!"-{name}={value}" }
  | _ => { w with text := value }

@[simp] theorem role_withValue (name value : String) (w : Word) :
    (w.withValue name value).role = w.role := by
  unfold Word.withValue
  split <;> rfl

/-- The words of a command line of which a flag is given a value. -/
def setFlagWords (name value : String) (ws : List Word) : List Word :=
  (modifyLast? (·.carries name) (·.withValue name value) ws).getD
    (ws.takeWhile (·.role.isFlagPart) ++
      ⟨"-" ++ name, .flag name⟩ :: ⟨value, .value name⟩ :: ws.dropWhile (·.role.isFlagPart))

/-- **Giving a flag a value**, on words. -/
theorem setFlag_ofWords (tool : Path) (name value : String) (ws : List Word) :
    (CommandLine.ofWords tool ws).setFlag name value = .ofWords tool (setFlagWords name value ws) := by
  cases h : modifyLast? (·.carries name) (·.withValue name value) ws with
  | some ws' =>
    obtain ⟨front, w, back, rfl, rfl, hcarries, hback⟩ := modifyLast?_eq_some h
    obtain ⟨inline, hinline⟩ := Option.isSome_iff_exists.1 hcarries
    rw [CommandLine.setFlag, lastCarrier?_ofWords hinline hback, setFlagWords, h, Option.getD_some]
    -- how the value is written is a matter of the role
    cases hrole : w.role with
    | inlineFlag =>
      obtain rfl : inline = true := by simp_all [Role.carries?]
      simp [CommandLine.ofWords, Word.withValue, hrole]
    | value =>
      obtain rfl : inline = false := by simp_all [Role.carries?]
      simp [CommandLine.ofWords, Word.withValue, hrole]
    | flag | terminator | source | positional => simp [hrole, Role.carries?] at hinline
  | none =>
    have hnone := lastCarrier?_eq_none tool (modifyLast?_eq_none.1 h)
    rw [CommandLine.setFlag, hnone, setFlagWords, h, Option.getD_none]
    -- the flag and its value are put in where the flags end
    have hplace : (ws.map (·.role)).findIdx (!·.isFlagPart) =
        (ws.takeWhile (·.role.isFlagPart)).length := by
      rw [List.findIdx_map, List.takeWhile_eq_take_findIdx_not, List.length_take_of_le
        List.findIdx_le_length]
      rfl
    have hws := List.takeWhile_append_dropWhile (p := fun w : Word => w.role.isFlagPart) (l := ws)
    generalize ws.takeWhile (·.role.isFlagPart) = front at hplace hws ⊢
    generalize ws.dropWhile (·.role.isFlagPart) = back at hws ⊢
    subst hws
    have hargs := insertIdx_insertIdx_append (front.map (·.text)) (back.map (·.text)) ("-" ++ name)
      value
    have hroles := insertIdx_insertIdx_append (front.map (·.role)) (back.map (·.role)) (.flag name)
      (.value name)
    rw [List.length_map, ← List.map_append] at hargs hroles
    simp only [roles_ofWords, args_ofWords, tool_ofWords, hplace, hargs, hroles]
    simp [CommandLine.ofWords]

@[simp] theorem tool_setFlag (c : CommandLine) (name value : String) :
    (c.setFlag name value).tool = c.tool := by
  unfold CommandLine.setFlag
  split <;> rfl

/-- **Adding an operand**, on words. -/
theorem append_ofWords (tool : Path) (arg : String) (ws : List Word) :
    (CommandLine.ofWords tool ws).append arg = .ofWords tool (ws ++ [.operand arg]) := by
  simp [CommandLine.append, CommandLine.ofWords, Word.operand]

theorem Word.isFile_iff {text : String} :
    w.isFile text = true ↔ w.isSource = true ∧ w.text = text := by
  simp [Word.isFile]

/-- **Swapping a source file**, on words. -/
theorem replaceSource?_ofWords (tool : Path) (old new : String) (ws : List Word) :
    (CommandLine.ofWords tool ws).replaceSource? old new =
      (modifyFirst? (Word.isFile old) ({ · with text := new }) ws).map (.ofWords tool) := by
  cases h : modifyFirst? (Word.isFile old) ({ · with text := new }) ws with
  | some ws' =>
    obtain ⟨front, w, back, rfl, rfl, hfile, hfront⟩ := modifyFirst?_eq_some h
    have hplace : (front ++ w :: back).findIdx? (Word.isFile old) = some front.length := by
      have hnone : front.findIdx? (Word.isFile old) = none := List.findIdx?_eq_none_iff.2 hfront
      rw [List.findIdx?_append, hnone, List.findIdx?_cons, hfile]
      simp
    rw [CommandLine.replaceSource?, words_ofWords, hplace]
    simp [CommandLine.ofWords]
  | none =>
    have hnone := List.findIdx?_eq_none_iff.2 (modifyFirst?_eq_none.1 h)
    rw [CommandLine.replaceSource?, words_ofWords, hnone]
    rfl

/-- **Another text for an argument**, on words. -/
theorem setArg?_ofWords (tool : Path) (index : Nat) (value : String) (ws : List Word) :
    (CommandLine.ofWords tool ws).setArg? index value =
      if index < ws.length then
        some (.ofWords tool (ws.modify index ({ · with text := value }))) else none := by
  have hmodify : ∀ (ws : List Word) (index : Nat),
      (ws.modify index ({ · with text := value })).map (·.text) =
          (ws.map (·.text)).set index value ∧
        (ws.modify index ({ · with text := value })).map (·.role) = ws.map (·.role) := by
    intro ws
    induction ws with
    | nil => simp
    | cons w ws ih =>
      intro index
      cases index with
      | zero => simp
      | succ index => simp [ih index]
  simp [CommandLine.setArg?, CommandLine.ofWords, hmodify]

/-! ### What no change upsets -/

namespace CommandLine.Paired

variable {c' : CommandLine}

theorem setFlag (h : c.Paired) (name value : String) : (c.setFlag name value).Paired := by
  obtain ⟨tool, ws, rfl⟩ := h.exists_words
  rw [setFlag_ofWords]
  exact paired_ofWords ..

theorem append (h : c.Paired) (arg : String) : (c.append arg).Paired := by
  obtain ⟨tool, ws, rfl⟩ := h.exists_words
  rw [append_ofWords]
  exact paired_ofWords ..

theorem replaceSource (h : c.Paired) (hc : c.replaceSource? old new = some c') : c'.Paired := by
  obtain ⟨tool, ws, rfl⟩ := h.exists_words
  rw [replaceSource?_ofWords] at hc
  obtain ⟨ws', -, rfl⟩ := Option.map_eq_some_iff.1 hc
  exact paired_ofWords ..

theorem setArg {index : Nat} (h : c.Paired) (hc : c.setArg? index value = some c') : c'.Paired := by
  obtain ⟨tool, ws, rfl⟩ := h.exists_words
  rw [setArg?_ofWords] at hc
  split at hc
  · obtain rfl := Option.some.inj hc
    exact paired_ofWords ..
  · simp at hc

end CommandLine.Paired

end TestWeave.Command
