import TestWeave.Proofs.Arranged

/-!
# Flags that are given values

A flag is given a value in the last word that carries one, or else by two words of its own. Its value
is read back from there, and nothing else is read from words that belong to the flag.

* `agree_setFlag`: the words that do not belong to the flag; what is read from them alone.
* `inlineFlag_foldl`, `no_equals_of_read`: the flags that are written with their values in them.
* `given_of_mutations`: what is changed on a command line by a flag that is given a value.
-/

namespace TestWeave.Command

open Text

variable {c c' : CommandLine} {registry : List FlagDef} {args : List String} {w : Word}
  {name other arg value : String}

/-! ### The words that are changed -/

/-- Whether a word is that of the flag or carries its value. -/
def Word.belongs (name : String) (w : Word) : Bool := w.role == .flag name || w.carries name

/-- Command lines that have the same words, apart from those that belong to the flag. -/
def CommandLine.Agree (name : String) (c c' : CommandLine) : Prop :=
  c'.words.filter (!·.belongs name) = c.words.filter (!·.belongs name)

theorem agree_setFlag (hp : c.Paired) (name value : String) :
    c.Agree name (c.setFlag name value) := by
  rw [CommandLine.Agree]
  rcases setFlag_cases hp name value with ⟨front, w, back, hwords, hcarries, -, hset⟩ | ⟨-, hset⟩
  · have hcarries' := (carries_withValue name value w).trans hcarries
    simp [hwords, hset, Word.belongs, hcarries, hcarries']
  · -- the two new words belong to the flag; the others stand around them as they stood
    rw [hset, words_ofWords, List.filter_append, List.filter_cons_of_neg (by simp [Word.belongs]),
      List.filter_cons_of_neg (by simp [Word.belongs, Word.carries, Role.carries?]),
      ← List.filter_append, List.takeWhile_append_dropWhile]

/-! ### What is read from the other words -/

theorem Word.not_belongs_of_carries (h : w.carries other = true) (hne : other ≠ name) :
    w.belongs name = false := by
  rcases carries_iff.1 h with h | h <;> simp [belongs, carries, Role.carries?, h, hne]

/-- A role that no word of a flag has. -/
theorem Word.not_belongs_of_role (h : w.role.isFlagPart = false) : w.belongs name = false := by
  cases hrole : w.role <;> simp_all [belongs, carries, Role.carries?, Role.isFlagPart]

namespace CommandLine.Agree

/-- Words that do not belong to the flag are found in the same places. -/
theorem filter_eq (h : c.Agree name c') {pick : Word → Bool}
    (hpick : ∀ w, pick w = true → w.belongs name = false) :
    c'.words.filter pick = c.words.filter pick := by
  have hboth : ∀ w, (pick w && !w.belongs name) = pick w := by
    intro w
    cases hw : pick w with
    | false => rfl
    | true => simp [hpick w hw]
  have hfilter := congrArg (List.filter pick) h
  simpa only [List.filter_filter, hboth] using hfilter

theorem flagValue?_eq (h : c.Agree name c') (hne : other ≠ name) :
    c'.flagValue? other = c.flagValue? other := by
  rw [flagValue?, flagValue?, h.filter_eq fun w hw => Word.not_belongs_of_carries hw hne]

theorem archives_eq (h : c.Agree name c') : c'.archives = c.archives := by
  rw [archives, archives, h.filter_eq fun w hw => Word.not_belongs_of_role ?_]
  rw [beq_iff_eq.1 hw]
  rfl

theorem sources_eq (h : c.Agree name c') : c'.sources = c.sources := by
  have hfilter : c'.words.filter Word.isSource = c.words.filter Word.isSource := by
    refine h.filter_eq fun w hw => Word.not_belongs_of_role ?_
    unfold Word.isSource at hw
    cases hrole : w.role <;> simp_all [Role.isFlagPart]
  -- the source files are read from the words that are source files
  have hread : ∀ c : CommandLine,
      c.sources = (CommandLine.ofWords c.tool (c.words.filter Word.isSource)).sources := by
    intro c
    rw [sources, sources, words_ofWords, List.filterMap_filter]
    refine List.filterMap_congr fun w _ => ?_
    cases hrole : w.role <;> simp [Word.isSource, hrole]
  rw [hread c', hread c, hfilter]
  rfl

end CommandLine.Agree

/-! ### Flags with their values in them -/

theorem not_inlineFlag_of_operand (name arg : String) : Role.inlineFlag name ≠ .operand arg := by
  intro h
  have hoperand := Role.isOperand_operand arg
  rw [← h] at hoperand
  simp [Role.isOperand] at hoperand

/-- **No change** writes a flag with its value in one word. -/
theorem inlineFlag_apply {m : Mutation} (hp : c.Paired)
    (h : Role.inlineFlag name ∈ (m.apply c).roles) : Role.inlineFlag name ∈ c.roles := by
  rcases roles_apply hp m with hroles | ⟨arg, hroles⟩ | ⟨flag, hroles⟩
  · rwa [hroles] at h
  · rw [hroles, List.mem_append, List.mem_singleton] at h
    exact h.resolve_right (not_inlineFlag_of_operand name arg)
  · rw [← List.takeWhile_append_dropWhile (p := Role.isFlagPart) (l := c.roles), List.mem_append]
    simpa [hroles] using h

theorem inlineFlag_foldl {ms : List Mutation} (hp : c.Paired)
    (h : Role.inlineFlag name ∈ (ms.foldl Mutation.apply c).roles) :
    Role.inlineFlag name ∈ c.roles := by
  induction ms generalizing c with
  | nil => exact h
  | cons m ms ih => exact inlineFlag_apply hp (ih (paired_apply hp m) h)

/-- An argument is split at its first equals sign, so there is none in the name. -/
theorem no_equals_of_splitFlag (h : splitFlag arg = some (name, some value)) :
    '=' ∉ name.toList := by
  unfold splitFlag at h
  split at h
  · simp at h
  · rename_i body _
    split at h
    · simp at h
    · split at h
      · rename_i before after honce
        obtain ⟨rfl, rfl⟩ : before = name ∧ after = value := by simpa using h
        unfold splitOnce at honce
        split at honce
        · simp at honce
        · obtain ⟨rfl, -⟩ : String.ofList (body.toList.takeWhile (· != '=')) = before ∧ _ := by
            simpa using honce
          intro hmem
          rw [String.toList_ofList] at hmem
          simpa using List.mem_takeWhile_imp hmem
      · simp at h

theorem no_equals_of_classify
    (h : Role.inlineFlag name ∈ (classify registry args).1.map Word.role) :
    '=' ∉ name.toList := by
  have operands : ∀ args : List String,
      Role.inlineFlag name ∉ (args.map Word.operand).map Word.role := by
    intro args hm
    obtain ⟨w, hw, hrole⟩ := List.mem_map.1 hm
    obtain ⟨arg, -, rfl⟩ := List.mem_map.1 hw
    exact not_inlineFlag_of_operand name arg hrole.symm
  -- the induction is on the words, by what each of them is read as
  fun_induction classify registry args with
  | case1 => simp at h
  | case2 args => exact absurd h (by simpa using operands args)
  | case3 arg args => exact absurd h (operands (arg :: args))
  | case4 arg args _ flag value hsplit words warnings hrec ih =>
    rw [hrec] at ih
    rw [List.map_cons, List.mem_cons] at h
    rcases h with h | h
    · exact Role.inlineFlag.inj h ▸ no_equals_of_splitFlag hsplit
    · exact ih h
  | case5 arg args _ flag _ _ words warnings hrec ih =>
    rw [hrec] at ih
    exact ih (by simpa using h)
  | case6 => simp at h
  | case7 arg _ flag _ d _ value args words warnings hrec ih =>
    rw [hrec] at ih
    exact ih (by simpa using h)

/-- **No flag that is read** with its value in it has an equals sign in its name. -/
theorem no_equals_of_read {tool : Path}
    (h : Role.inlineFlag name ∈ (CommandLine.read tool args registry).roles) :
    '=' ∉ name.toList := no_equals_of_classify h

/-! ### A flag that is given a value -/

/-- A command line of which a flag was given a value: the value can be read, and apart from the words
that say so, nothing is changed. -/
structure Given (name value : String) (c c' : CommandLine) : Prop where
  tool_eq : c'.tool = c.tool
  value_eq : c'.flagValue? name = some value
  others_eq : ∀ other, other ≠ name → c'.flagValue? other = c.flagValue? other
  sources_eq : c'.sources = c.sources
  archives_eq : c'.archives = c.archives
  /-- One argument at most is another, or two stand next to each other that were not there. -/
  args_eq : (∃ i text, c'.args = c.args.set i text) ∨
    ∃ front back, c.args = front ++ back ∧ c'.args = front ++ ("-" ++ name) :: value :: back

theorem args_setFlag (hp : c.Paired) (name value : String) :
    (∃ i text, (c.setFlag name value).args = c.args.set i text) ∨
      ∃ front back, c.args = front ++ back ∧
        (c.setFlag name value).args = front ++ ("-" ++ name) :: value :: back := by
  rw [← hp.args_eq]
  rcases setFlag_cases hp name value with ⟨front, w, back, hwords, -, -, hset⟩ | ⟨-, hset⟩
  · refine .inl ⟨front.length, (w.withValue name value).text, ?_⟩
    simp [hset, hwords]
  · refine .inr ⟨(c.words.takeWhile (·.role.isFlagPart)).map Word.text,
      (c.words.dropWhile (·.role.isFlagPart)).map Word.text, ?_, ?_⟩
    · rw [← List.map_append, List.takeWhile_append_dropWhile]
    · simp [hset]

/-- **Giving a flag a value** changes nothing else. The value can be read back where the flag does not
stand with its value in a word that would be split elsewhere. -/
theorem given_setFlag (hp : c.Paired) (value : String)
    (h : Role.inlineFlag name ∈ c.roles → '=' ∉ name.toList) :
    Given name value c (c.setFlag name value) where
  tool_eq := tool_setFlag c name value
  value_eq := flagValue?_setFlag hp value h
  others_eq _ hne := (agree_setFlag hp name value).flagValue?_eq hne
  sources_eq := (agree_setFlag hp name value).sources_eq
  archives_eq := (agree_setFlag hp name value).archives_eq
  args_eq := args_setFlag hp name value

/-- **A flag can be given any value** on every command line, whatever was changed after it was read
and whatever the name of the flag is. -/
theorem given_of_mutations (tool : Path) (args : List String) (registry : List FlagDef)
    (ms : List Mutation) (name value : String) :
    Given name value (ms.foldl Mutation.apply (.read tool args registry))
      ((ms.foldl Mutation.apply (.read tool args registry)).setFlag name value) :=
  given_setFlag (paired_foldl (paired_read tool args registry) ms) value fun h =>
    no_equals_of_read (inlineFlag_foldl (paired_read tool args registry) h)

-- the name of the flag is a dash; with its value in the same word it is spelled and split anew
example : ((CommandLine.compile ⟨"compile"⟩ ["---=old", "a.go"]).setFlag "-" "new").args =
    ["--=new", "a.go"] := by decide

end TestWeave.Command
