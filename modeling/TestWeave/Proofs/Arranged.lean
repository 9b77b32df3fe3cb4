import TestWeave.Proofs.Swapping

/-!
# The order of the words of a command line

Flags come first, each value right behind its flag; then a terminator, if there is one, and the
operands. A command line is read in this order, and no change to it upsets the order.

* `Arranged`: roles in this order; `arranged_read`: those of a command line that is read.
* `paired_apply`, `arranged_apply`, `operands_apply`: what one change keeps.
* `aligned_of_mutations`: what a series of changes keeps.
-/

namespace TestWeave.Command

/-- Whether the role is that of an operand, a source file or another. -/
def Role.isOperand : Role → Bool
  | .source _ | .positional => true
  | _ => false

/-- Roles in the order of a command line: flags, of which some have a value behind them, at most one
terminator, and operands. -/
inductive Arranged : List Role → Prop
  | operands {rs} : (∀ r ∈ rs, r.isOperand = true) → Arranged rs
  | terminator {rs} : (∀ r ∈ rs, r.isOperand = true) → Arranged (.terminator :: rs)
  | flag {name rs} : Arranged rs → Arranged (.flag name :: rs)
  | valued {name rs} : Arranged rs → Arranged (.flag name :: .value name :: rs)
  | inlineFlag {name rs} : Arranged rs → Arranged (.inlineFlag name :: rs)

variable {rs : List Role} {r : Role} {name : String}

/-! ### What the order says -/

theorem Role.isOperand_operand (arg : String) : (Role.operand arg).isOperand = true := by
  unfold operand
  split <;> rfl

/-- Operands are no part of the flags, and none is a terminator. -/
theorem Role.of_isOperand (h : r.isOperand = true) : r.isFlagPart = false ∧ r ≠ .terminator := by
  cases r <;> simp_all [isOperand, isFlagPart]

namespace Arranged

/-- A value stands right behind the flag that it belongs to. -/
theorem value_follows (h : Arranged rs) {i : Nat} (hi : rs[i]? = some (.value name)) :
    ∃ j, i = j + 1 ∧ rs[j]? = some (.flag name) := by
  have none_of_operands : ∀ {rs : List Role} {i : Nat}, (∀ r ∈ rs, r.isOperand = true) →
      rs[i]? ≠ some (.value name) := by
    intro rs i ho hi
    exact Bool.false_ne_true (ho _ (List.mem_of_getElem? hi))
  induction h generalizing i with
  | operands ho => exact absurd hi (none_of_operands ho)
  | terminator ho =>
    cases i with
    | zero => simp at hi
    | succ i =>
      rw [List.getElem?_cons_succ] at hi
      exact absurd hi (none_of_operands ho)
  | flag _ ih | inlineFlag _ ih =>
    cases i with
    | zero => simp at hi
    | succ i =>
      obtain ⟨j, rfl, hj⟩ := ih hi
      exact ⟨j + 1, rfl, hj⟩
  | valued _ ih =>
    -- the flag and its value are the first two words
    match i with
    | 0 => simp at hi
    | 1 =>
      obtain rfl : _ = name := by simpa using hi
      exact ⟨0, rfl, rfl⟩
    | i + 2 =>
      obtain ⟨j, rfl, hj⟩ := ih hi
      exact ⟨j + 2, rfl, hj⟩

/-- Behind a word that is no part of the flags, no word is. -/
theorem flags_first (h : Arranged rs) :
    rs.Pairwise fun r r' => r.isFlagPart = false → r'.isFlagPart = false := by
  -- nothing is asked of what follows a flag
  have begins : ∀ {r : Role} {rs : List Role}, r.isFlagPart = true →
      ∀ r' ∈ rs, r.isFlagPart = false → r'.isFlagPart = false :=
    fun hr _ _ hflag => Bool.noConfusion (hr.symm.trans hflag)
  induction h with
  | operands ho =>
    exact List.pairwise_of_forall_mem_list fun _ _ r' hr' _ => (Role.of_isOperand (ho r' hr')).1
  | terminator ho =>
    refine .cons (fun r' hr' _ => (Role.of_isOperand (ho r' hr')).1) ?_
    exact List.pairwise_of_forall_mem_list fun _ _ r' hr' _ => (Role.of_isOperand (ho r' hr')).1
  | flag _ ih | inlineFlag _ ih => exact .cons (begins rfl) ih
  | valued _ ih => exact .cons (begins rfl) (.cons (begins rfl) ih)

theorem count_terminator_le (h : Arranged rs) : rs.count .terminator ≤ 1 := by
  have count_operands : ∀ {rs : List Role}, (∀ r ∈ rs, r.isOperand = true) →
      rs.count .terminator = 0 := by
    intro rs ho
    exact List.count_eq_zero.2 fun hm => (Role.of_isOperand (ho _ hm)).2 rfl
  induction h with
  | operands ho => simp [count_operands ho]
  | terminator ho => simp [count_operands ho]
  | flag _ ih | valued _ ih | inlineFlag _ ih => simpa using ih

/-! ### What keeps the order -/

/-- An operand may follow at the end. -/
theorem concat (h : Arranged rs) (hr : r.isOperand = true) : Arranged (rs ++ [r]) := by
  have all : ∀ {rs : List Role}, (∀ r ∈ rs, r.isOperand = true) →
      ∀ r' ∈ rs ++ [r], r'.isOperand = true := by
    intro rs ho r' hr'
    rcases List.mem_append.1 hr' with hr' | hr'
    · exact ho r' hr'
    · rwa [List.mem_singleton.1 hr']
  induction h with
  | operands ho => exact .operands (all ho)
  | terminator ho => exact .terminator (all ho)
  | flag _ ih => exact .flag ih
  | valued _ ih => exact .valued ih
  | inlineFlag _ ih => exact .inlineFlag ih

/-- A flag and its value may stand behind the other flags. -/
theorem insert (h : Arranged rs) (name : String) :
    Arranged (rs.takeWhile Role.isFlagPart ++
      .flag name :: .value name :: rs.dropWhile Role.isFlagPart) := by
  induction h with
  | @operands rs ho =>
    have hhead : ∀ r ∈ rs, ¬r.isFlagPart = true := fun r hr => by
      simp [(Role.of_isOperand (ho r hr)).1]
    have hnone : rs.takeWhile Role.isFlagPart = [] ∧ rs.dropWhile Role.isFlagPart = rs := by
      cases rs with
      | nil => exact ⟨rfl, rfl⟩
      | cons r rs =>
        have := hhead r (by simp)
        exact ⟨List.takeWhile_cons_of_neg this, List.dropWhile_cons_of_neg this⟩
    rw [hnone.1, hnone.2]
    exact .valued (.operands ho)
  | terminator ho => exact .valued (.terminator ho)
  | flag _ ih => exact .flag ih
  | valued _ ih => exact .valued ih
  | inlineFlag _ ih => exact .inlineFlag ih

end Arranged

theorem arranged_classify (registry : List FlagDef) (args : List String) :
    Arranged ((classify registry args).1.map Word.role) := by
  have operands : ∀ args : List String,
      ∀ r ∈ (args.map Word.operand).map Word.role, r.isOperand = true := by
    intro args r hr
    obtain ⟨w, hw, rfl⟩ := List.mem_map.1 hr
    obtain ⟨arg, -, rfl⟩ := List.mem_map.1 hw
    exact Role.isOperand_operand arg
  fun_induction classify registry args with
  | case1 => exact .operands (by simp)
  | case2 args => exact .terminator (operands args)
  | case3 arg args => exact .operands (operands (arg :: args))
  | case4 arg args _ name value _ words warnings hrec ih =>
    rw [hrec] at ih
    exact .inlineFlag ih
  | case5 arg args _ name _ _ words warnings hrec ih =>
    rw [hrec] at ih
    exact .flag ih
  | case6 arg _ name _ d _ => exact .flag (.operands (by simp))
  | case7 arg _ name _ d _ value args words warnings hrec ih =>
    rw [hrec] at ih
    exact .valued ih

/-- **Reading** arranges a command line. -/
theorem arranged_read (tool : Path) (args : List String) (registry : List FlagDef) :
    Arranged (CommandLine.read tool args registry).roles := arranged_classify registry args

/-! ### Changes -/

/-- A change to a command line. -/
inductive Mutation
  | setFlag (name value : String)
  | append (arg : String)
  | replaceSource (old new : String)
  /-- Another text for an argument, whatever its role. -/
  | setArg (index : Nat) (text : String)

namespace Mutation

/-- The command line after a change, which changes nothing if it does not find its word. -/
def apply (c : CommandLine) : Mutation → CommandLine
  | .setFlag name value => c.setFlag name value
  | .append arg => c.append arg
  | .replaceSource old new => (c.replaceSource? old new).getD c
  | .setArg index text => (c.setArg? index text).getD c

/-- The operand that a change adds. -/
def added : Mutation → List Word
  | .append arg => [.operand arg]
  | .setFlag .. | .replaceSource .. | .setArg .. => []

/-- The texts that a change may give to an operand that is there. -/
def texts : Mutation → List String
  | .replaceSource _ new => [new]
  | .setArg _ text => [text]
  | .setFlag .. | .append .. => []

end Mutation

/-- The operands of a command line. -/
def CommandLine.operands (c : CommandLine) : List Word := c.words.filter (·.role.isOperand)

/-- A word and what has become of it: its role is the same, and so is its text, unless that is one of
`texts`. -/
def Word.Stays (texts : List String) (w w' : Word) : Prop :=
  w'.role = w.role ∧ (w'.text = w.text ∨ w'.text ∈ texts)

variable {texts texts' : List String} {ws ws' : List Word} {w w₁ w' : Word} {c c' : CommandLine}

theorem Word.Stays.refl (w : Word) : w.Stays texts w := ⟨rfl, .inl rfl⟩

theorem Word.Stays.mono (h : w.Stays texts w') (ht : texts ⊆ texts') : w.Stays texts' w' :=
  ⟨h.1, h.2.imp_right fun hm => ht hm⟩

theorem Word.Stays.trans (h : w.Stays texts w₁) (h' : w₁.Stays texts w') : w.Stays texts w' := by
  obtain ⟨hrole, htext⟩ := h
  obtain ⟨hrole', htext'⟩ := h'
  refine ⟨hrole'.trans hrole, ?_⟩
  rcases htext' with htext' | htext'
  · rwa [htext']
  · exact .inr htext'

/-- The words of two command lines, one made from the other without adding any. -/
def AllStay (texts : List String) : List Word → List Word → Prop := List.Forall₂ (Word.Stays texts)

theorem AllStay.refl (ws : List Word) : AllStay texts ws ws := by
  induction ws with
  | nil => exact .nil
  | cons w ws ih => exact .cons (.refl w) ih

theorem AllStay.mono (h : AllStay texts ws ws') (ht : texts ⊆ texts') : AllStay texts' ws ws' :=
  h.imp fun _ _ hw => hw.mono ht

theorem AllStay.trans {ws₁ : List Word} (h : AllStay texts ws ws₁) (h' : AllStay texts ws₁ ws') :
    AllStay texts ws ws' := forall₂_trans h h' fun _ _ _ => Word.Stays.trans

theorem AllStay.roles (h : AllStay texts ws ws') : ws'.map Word.role = ws.map Word.role := by
  induction h with
  | nil => rfl
  | cons hw _ ih => rw [List.map_cons, List.map_cons, hw.1, ih]

/-- As roles stay, operands do. -/
theorem AllStay.operands (h : AllStay texts ws ws') :
    AllStay texts (ws.filter (·.role.isOperand)) (ws'.filter (·.role.isOperand)) := by
  induction h with
  | nil => exact .nil
  | cons hw _ ih =>
    rw [List.filter_cons, List.filter_cons, hw.1]
    split
    · exact .cons hw ih
    · exact ih

/-! ### What one change keeps -/

/-- A word that carries the value of a flag is no operand, whatever that value is. -/
theorem Word.not_isOperand_of_carries {name : String} (h : w.carries name = true) :
    w.role.isOperand = false := by
  rcases carries_iff.1 h with h | h <;> rw [h] <;> rfl

theorem allStay_replaceSource {old new : String} (hp : c.Paired)
    (h : c.replaceSource? old new = some c') : AllStay [new] c.words c'.words := by
  have hnew : (· ∈ [new]) new := List.mem_singleton_self new
  have hswapped : Swapped (· ∈ [new]) c.words c'.words := swapped_replaceSource hp h hnew
  refine List.Forall₂.imp ?_ hswapped
  rintro w w' (rfl | ⟨-, hrole, htext⟩)
  · exact .refl _
  · exact ⟨hrole, .inr htext⟩

theorem allStay_modify (ws : List Word) (index : Nat) (text : String) :
    AllStay [text] ws (ws.modify index fun w => { w with text }) := by
  induction ws generalizing index with
  | nil => simpa using AllStay.refl []
  | cons w ws ih =>
    cases index with
    | zero => exact .cons ⟨rfl, .inr (by simp)⟩ (AllStay.refl ws)
    | succ index => exact .cons (.refl w) (ih index)

theorem allStay_setArg {index : Nat} {text : String} (hp : c.Paired)
    (h : c.setArg? index text = some c') : AllStay [text] c.words c'.words := by
  obtain ⟨tool, ws, rfl⟩ := hp.exists_words
  rw [setArg?_ofWords] at h
  split at h
  · obtain rfl := Option.some.inj h
    rw [words_ofWords, words_ofWords]
    exact allStay_modify ws index text
  · simp at h

/-- A flag that is given a value leaves the operands as they are, and the roles, unless a flag and a
value are put behind the other flags. -/
theorem setFlag_spec (hp : c.Paired) (name value : String) :
    (c.setFlag name value).operands = c.operands ∧
      ((c.setFlag name value).roles = c.roles ∨
        (c.setFlag name value).roles = c.roles.takeWhile Role.isFlagPart ++
          .flag name :: .value name :: c.roles.dropWhile Role.isFlagPart) := by
  rw [CommandLine.operands, CommandLine.operands, ← hp.roles_eq]
  rcases setFlag_cases hp name value with ⟨front, w, back, hwords, hcarries, -, hset⟩ | ⟨-, hset⟩
  · have hnot := Word.not_isOperand_of_carries hcarries
    refine ⟨?_, .inl ?_⟩
    · simp [hset, hwords, hnot]
    · simp [hset, hwords]
  · rw [hset, words_ofWords, roles_ofWords]
    refine ⟨?_, .inr ?_⟩
    · rw [List.filter_append, List.filter_cons_of_neg (by simp [Role.isOperand]),
        List.filter_cons_of_neg (by simp [Role.isOperand]), ← List.filter_append,
        List.takeWhile_append_dropWhile]
    · simp [List.takeWhile_map, List.dropWhile_map, Function.comp_def]

/-- **One change** keeps a role for each argument. -/
theorem paired_apply (hp : c.Paired) (m : Mutation) : (m.apply c).Paired := by
  cases m with
  | setFlag name value => exact hp.setFlag name value
  | append arg => exact hp.append arg
  | replaceSource old new =>
    rw [Mutation.apply]
    cases hc : c.replaceSource? old new with
    | none => exact hp
    | some c' => exact hp.replaceSource hc
  | setArg index text =>
    rw [Mutation.apply]
    cases hc : c.setArg? index text with
    | none => exact hp
    | some c' => exact hp.setArg hc

/-- **What one change makes of the roles**: nothing, or there is an operand at the end, or a flag and
its value stand behind the other flags. -/
theorem roles_apply (hp : c.Paired) (m : Mutation) :
    (m.apply c).roles = c.roles ∨ (∃ arg, (m.apply c).roles = c.roles ++ [.operand arg]) ∨
      ∃ name, (m.apply c).roles = c.roles.takeWhile Role.isFlagPart ++
        .flag name :: .value name :: c.roles.dropWhile Role.isFlagPart := by
  cases m with
  | setFlag name value => exact (setFlag_spec hp name value).2.imp_right fun h => .inr ⟨name, h⟩
  | append arg => exact .inr (.inl ⟨arg, rfl⟩)
  | replaceSource old new =>
    rw [Mutation.apply]
    cases hc : c.replaceSource? old new with
    | none => exact .inl rfl
    | some c' =>
      have hroles := (allStay_replaceSource hp hc).roles
      rw [hp.roles_eq, (hp.replaceSource hc).roles_eq] at hroles
      exact .inl hroles
  | setArg index text =>
    rw [Mutation.apply]
    cases hc : c.setArg? index text with
    | none => exact .inl rfl
    | some c' =>
      have hroles := (allStay_setArg hp hc).roles
      rw [hp.roles_eq, (hp.setArg hc).roles_eq] at hroles
      exact .inl hroles

/-- **One change** keeps the order of the roles. -/
theorem arranged_apply (hp : c.Paired) (h : Arranged c.roles) (m : Mutation) :
    Arranged (m.apply c).roles := by
  rcases roles_apply hp m with hroles | ⟨arg, hroles⟩ | ⟨name, hroles⟩
  · exact hroles ▸ h
  · exact hroles ▸ h.concat (Role.isOperand_operand arg)
  · exact hroles ▸ h.insert name

/-- **One change** keeps the operands, in their order, and may add one at the end. -/
theorem operands_apply (hp : c.Paired) (m : Mutation) :
    AllStay m.texts (c.operands ++ m.added) (m.apply c).operands := by
  cases m with
  | setFlag name value =>
    rw [Mutation.added, List.append_nil, Mutation.apply, (setFlag_spec hp name value).1]
    exact .refl _
  | append arg =>
    have hoperands : (c.append arg).operands = c.operands ++ [.operand arg] := by
      obtain ⟨tool, ws, rfl⟩ := hp.exists_words
      rw [append_ofWords]
      simp [CommandLine.operands, Word.operand, Role.isOperand_operand]
    rw [Mutation.apply, hoperands]
    exact .refl _
  | replaceSource old new =>
    rw [Mutation.added, List.append_nil, Mutation.apply]
    cases hc : c.replaceSource? old new with
    | none => exact .refl _
    | some c' => exact (allStay_replaceSource hp hc).operands
  | setArg index text =>
    rw [Mutation.added, List.append_nil, Mutation.apply]
    cases hc : c.setArg? index text with
    | none => exact .refl _
    | some c' => exact (allStay_setArg hp hc).operands

/-! ### What a series of changes keeps -/

theorem paired_foldl (hp : c.Paired) (ms : List Mutation) : (ms.foldl Mutation.apply c).Paired := by
  induction ms generalizing c with
  | nil => exact hp
  | cons m ms ih => exact ih (paired_apply hp m)

theorem arranged_foldl (hp : c.Paired) (h : Arranged c.roles) (ms : List Mutation) :
    Arranged (ms.foldl Mutation.apply c).roles := by
  induction ms generalizing c with
  | nil => exact h
  | cons m ms ih => exact ih (paired_apply hp m) (arranged_apply hp h m)

theorem operands_foldl (hp : c.Paired) (ms : List Mutation) :
    AllStay (ms.flatMap Mutation.texts) (c.operands ++ ms.flatMap Mutation.added)
      (ms.foldl Mutation.apply c).operands := by
  induction ms generalizing c with
  | nil => simpa using AllStay.refl c.operands
  | cons m ms ih =>
    rw [List.flatMap_cons, List.flatMap_cons, ← List.append_assoc, List.foldl_cons]
    have hone := (operands_apply hp m).mono (List.subset_append_left _ (ms.flatMap Mutation.texts))
    have hrest := (ih (paired_apply hp m)).mono (List.subset_append_right m.texts _)
    exact AllStay.trans (List.rel_append hone (AllStay.refl _)) hrest

/-- What holds of the words of a command line at any time. -/
structure CommandLine.Aligned (c : CommandLine) : Prop where
  /-- There is a role for each argument. -/
  length_eq : c.roles.length = c.args.length
  /-- A value stands right behind the flag that it belongs to. -/
  value_follows : ∀ i name, c.roles[i]? = some (.value name) →
    ∃ j, i = j + 1 ∧ c.roles[j]? = some (.flag name)
  /-- Behind a word that is no part of the flags, no word is. -/
  flags_first : c.roles.Pairwise fun r r' => r.isFlagPart = false → r'.isFlagPart = false
  one_terminator : c.roles.count .terminator ≤ 1

theorem Arranged.aligned (h : Arranged c.roles) (hp : c.Paired) : c.Aligned where
  length_eq := hp
  value_follows _ _ hi := h.value_follows hi
  flags_first := h.flags_first
  one_terminator := h.count_terminator_le

/-- **A command line that is changed** stays aligned. Its operands are those it was read with, in
their order and with their roles, and those that were appended; only replacing and editing give an
operand another text. -/
theorem aligned_of_mutations (tool : Path) (args : List String) (registry : List FlagDef)
    (ms : List Mutation) :
    (ms.foldl Mutation.apply (CommandLine.read tool args registry)).Aligned ∧
      AllStay (ms.flatMap Mutation.texts)
        ((CommandLine.read tool args registry).operands ++ ms.flatMap Mutation.added)
        (ms.foldl Mutation.apply (CommandLine.read tool args registry)).operands := by
  have hp := paired_read tool args registry
  have harranged := arranged_foldl hp (arranged_read tool args registry) ms
  exact ⟨harranged.aligned (paired_foldl hp ms), operands_foldl hp ms⟩

end TestWeave.Command
