import TestWeave.Proofs.Arranged

/-!
# Command lines that are read again

What a tool is given in the end are the arguments alone. It gives each of them the role that it has
in the command line, although this was changed word by word and not read again.

* `Faithful`: words with the roles that reading gives them; `faithful_classify`,
  `Faithful.classify`: these are the words that are read.
* `Faithful.setFlag`, `Faithful.append`: what one change keeps.
* `read_of_mutations`: what a series of changes keeps.
-/

namespace TestWeave.Command

open Text

/-- Whether a flag takes the next argument for its value, as far as a registry knows. -/
def takesValue (registry : List FlagDef) (name : String) : Bool :=
  (lookup registry name).any (·.needsValue)

/-- Words with the roles that reading gives them. No flag misses its value. -/
inductive Faithful (registry : List FlagDef) : List Word → Prop
  | nil : Faithful registry []
  | terminator (args : List String) :
      Faithful registry (⟨"--", .terminator⟩ :: args.map Word.operand)
  | operand {arg} (args : List String) : arg ≠ "--" → splitFlag arg = none →
      Faithful registry (.operand arg :: args.map Word.operand)
  | inlineFlag {arg name value ws} : splitFlag arg = some (name, some value) →
      Faithful registry ws → Faithful registry (⟨arg, .inlineFlag name⟩ :: ws)
  | switch {arg name ws} : splitFlag arg = some (name, none) → takesValue registry name = false →
      Faithful registry ws → Faithful registry (⟨arg, .flag name⟩ :: ws)
  | valued {arg name value ws} : splitFlag arg = some (name, none) →
      takesValue registry name = true → Faithful registry ws →
      Faithful registry (⟨arg, .flag name⟩ :: ⟨value, .value name⟩ :: ws)

variable {registry : List FlagDef} {ws front back : List Word} {w : Word} {c : CommandLine}
  {name arg : String}

/-! ### Reading -/

theorem ne_terminator_of_splitFlag {flag : String × Option String}
    (h : splitFlag arg = some flag) : arg ≠ "--" := by
  rintro rfl
  exact absurd h (by rw [show splitFlag "--" = none by decide]; simp)

/-- **What is read** without a warning is faithful. -/
theorem faithful_classify {args : List String} (h : (classify registry args).2 = []) :
    Faithful registry (classify registry args).1 := by
  fun_induction classify registry args with
  | case1 => exact .nil
  | case2 args => exact .terminator args
  | case3 arg args hne hsplit => exact .operand args hne hsplit
  | case4 arg args _ name value hsplit words warnings hrec ih =>
    rw [hrec] at ih
    exact .inlineFlag hsplit (ih h)
  | case5 arg args _ name hsplit hlookup words warnings hrec ih =>
    rw [hrec] at ih
    refine .switch hsplit ?_ (ih h)
    rw [takesValue, Option.any_eq_false]
    simpa [Option.filter_eq_none_iff] using hlookup
  | case6 => simp at h
  | case7 arg _ name hsplit d hlookup value args words warnings hrec ih =>
    rw [hrec] at ih
    refine .valued hsplit ?_ (ih h)
    obtain ⟨hfound, hneeds⟩ := Option.filter_eq_some_iff.1 hlookup
    rw [takesValue, hfound]
    exact hneeds

/-- **Faithful words** are read from their arguments again, without a warning. -/
theorem Faithful.classify (h : Faithful registry ws) :
    classify registry (ws.map Word.text) = (ws, []) := by
  have operands : ∀ args : List String, (args.map Word.operand).map Word.text = args := by
    intro args
    simp [Function.comp_def, Word.operand]
  -- each word is read as it is known to be, since what it carries follows from its text
  induction h with
  | nil => rfl
  | terminator args => rw [List.map_cons, operands, Command.classify, if_pos rfl]
  | operand args hne hsplit =>
    rw [List.map_cons, operands, Word.operand, Command.classify, if_neg hne, hsplit]
    rfl
  | inlineFlag hsplit _ ih =>
    rw [List.map_cons, Command.classify, if_neg (ne_terminator_of_splitFlag hsplit), hsplit, ih]
  | @switch arg name ws hsplit htakes _ ih =>
    rw [List.map_cons, Command.classify, if_neg (ne_terminator_of_splitFlag hsplit), hsplit]
    have hlookup : (lookup registry name).filter (·.needsValue) = none := by
      rw [takesValue, Option.any_eq_false] at htakes
      simpa [Option.filter_eq_none_iff] using htakes
    simp only [hlookup, ih]
  | @valued arg name value ws hsplit htakes _ ih =>
    rw [List.map_cons, List.map_cons, Command.classify,
      if_neg (ne_terminator_of_splitFlag hsplit), hsplit]
    obtain ⟨d, hfound, hneeds⟩ : ∃ d, lookup registry name = some d ∧ d.needsValue = true := by
      simpa [takesValue, Option.any_eq_true] using htakes
    have hlookup : (lookup registry name).filter (·.needsValue) = some d := by
      rw [hfound, Option.filter_some, if_pos hneeds]
    simp only [hlookup, ih]

/-! ### Flags as they are written -/

/-- A flag whose name does not begin with a dash is split behind the dash that is written. -/
theorem splitFlag_dash {body : String} (hne : body ≠ "") (hd : body.toList.head? ≠ some '-') :
    splitFlag ("-" ++ body) = match splitOnce '=' body with
      | some (name, value) => some (name, some value)
      | none => some (body, none) := by
  have hlist : ("-" ++ body).toList = '-' :: body.toList := by simp
  have hlong : dropLead "--" ("-" ++ body) = none := by
    rw [dropLead, Option.map_eq_none_iff, Option.eq_none_iff_forall_not_mem]
    intro rest hrest
    have hdashes := hlist.symm.trans (afterLead_eq_some_iff.1 hrest)
    obtain ⟨-, htail⟩ := List.cons.inj (hdashes : _ = '-' :: '-' :: rest)
    exact hd (by rw [htail]; rfl)
  have hshort : dropLead "-" ("-" ++ body) = some body := by
    have hlead : ("-" ++ body).toList = "-".toList ++ body.toList := hlist
    rw [dropLead, afterLead_eq_some_iff.2 hlead, Option.map_some, String.ofList_toList]
  have hbody : body.isEmpty = false := String.isEmpty_eq_false_iff.2 hne
  rw [splitFlag, hlong, hshort]
  cases h : splitOnce '=' body <;> simp [hbody, h]

/-- Names by which a flag can be written: neither is their end mistaken nor their beginning. -/
structure FlagName (name : String) : Prop where
  nonempty : name ≠ ""
  no_equals : '=' ∉ name.toList
  no_dash : name.toList.head? ≠ some '-'

theorem FlagName.splitFlag_alone (h : FlagName name) : splitFlag ("-" ++ name) = some (name, none) := by
  have honce : splitOnce '=' name = none := by
    have hall : ∀ c ∈ name.toList, (c != '=') = true := by
      intro c hc
      rw [bne_iff_ne]
      rintro rfl
      exact h.no_equals hc
    rw [splitOnce, List.dropWhile_eq_nil_iff.2 hall]
  rw [splitFlag_dash h.nonempty h.no_dash, honce]

theorem FlagName.splitFlag_inline (h : FlagName name) (value : String) :
    splitFlag s!"-{name}={value}" = some (name, some value) := by
  have htext : s!"-{name}={value}" = "-" ++ (name ++ "=" ++ value) := by
    rw [← String.toList_inj]
    simp [ToString.toString]
  have hlist : (name ++ "=" ++ value).toList = name.toList ++ '=' :: value.toList := by simp
  have hne : name ++ "=" ++ value ≠ "" := by
    intro he
    rw [he] at hlist
    simp at hlist
  have hdash : (name ++ "=" ++ value).toList.head? ≠ some '-' := by
    obtain ⟨c, cs, hname⟩ := List.exists_cons_of_ne_nil (by simpa using h.nonempty : name.toList ≠ [])
    have := h.no_dash
    rw [hlist, hname] at *
    exact this
  rw [htext, splitFlag_dash hne hdash, splitOnce_eq_some hlist h.no_equals]
  simp

/-! ### What one change keeps -/

theorem not_carries_of_operands {args : List String} (h : w ∈ args.map Word.operand) :
    w.carries name = false := by
  obtain ⟨arg, -, rfl⟩ := List.mem_map.1 h
  by_contra hc
  have := Word.not_isOperand_of_carries (eq_true_of_ne_false hc)
  rw [Word.operand, Role.isOperand_operand] at this
  exact Bool.false_ne_true this.symm

/-- A word that carries the value of a flag may carry another. -/
theorem Faithful.withValue (h : Faithful registry (front ++ w :: back)) (hn : FlagName name)
    (hw : w.carries name = true) (value : String) :
    Faithful registry (front ++ w.withValue name value :: back) := by
  generalize hws : front ++ w :: back = ws at h
  have hmem : w ∈ ws := by simp [← hws]
  induction h generalizing front with
  | nil => simp at hws
  | terminator args =>
    rcases List.mem_cons.1 hmem with rfl | hm
    · exact absurd hw (by simp [Word.carries_iff])
    · exact absurd hw (Bool.eq_false_iff.1 (not_carries_of_operands hm))
  | @operand arg args =>
    have hmem : w ∈ (arg :: args).map Word.operand := hmem
    exact absurd hw (Bool.eq_false_iff.1 (not_carries_of_operands hmem))
  | inlineFlag hsplit hrest ih =>
    cases front with
    | nil =>
      obtain ⟨rfl, rfl⟩ := List.cons.inj hws
      obtain rfl : _ = name := by simpa [Word.carries_iff] using hw
      exact .inlineFlag (hn.splitFlag_inline value) hrest
    | cons _ front =>
      obtain ⟨rfl, rfl⟩ := List.cons.inj hws
      exact .inlineFlag hsplit (ih rfl (by simp))
  | switch hsplit htakes hrest ih =>
    cases front with
    | nil =>
      obtain ⟨rfl, -⟩ := List.cons.inj hws
      exact absurd hw (by simp [Word.carries_iff])
    | cons _ front =>
      obtain ⟨rfl, rfl⟩ := List.cons.inj hws
      exact .switch hsplit htakes (ih rfl (by simp))
  | valued hsplit htakes hrest ih =>
    -- the flag carries nothing, so that it is its value or a word behind both
    cases front with
    | nil =>
      obtain ⟨rfl, -⟩ := List.cons.inj hws
      exact absurd hw (by simp [Word.carries_iff])
    | cons _ front =>
      obtain ⟨rfl, htail⟩ := List.cons.inj hws
      cases front with
      | nil =>
        obtain ⟨rfl, rfl⟩ := List.cons.inj htail
        exact .valued hsplit htakes hrest
      | cons _ front =>
        obtain ⟨rfl, rfl⟩ := List.cons.inj htail
        exact .valued hsplit htakes (ih rfl (by simp))

/-- A flag and its value may stand behind the other flags. -/
theorem Faithful.insert (h : Faithful registry ws) (hn : FlagName name)
    (ht : takesValue registry name = true) (value : String) :
    Faithful registry (ws.takeWhile (·.role.isFlagPart) ++
      ⟨"-" ++ name, .flag name⟩ :: ⟨value, .value name⟩ :: ws.dropWhile (·.role.isFlagPart)) := by
  induction h with
  | nil => exact .valued hn.splitFlag_alone ht .nil
  | terminator args => exact .valued hn.splitFlag_alone ht (.terminator args)
  | @operand arg args hne hsplit =>
    have hoperand : (Word.operand arg).role.isFlagPart = false :=
      (Role.of_isOperand (Role.isOperand_operand arg)).1
    rw [List.takeWhile_cons_of_neg (by simp [hoperand]),
      List.dropWhile_cons_of_neg (by simp [hoperand])]
    exact .valued hn.splitFlag_alone ht (.operand args hne hsplit)
  | inlineFlag hsplit _ ih => exact .inlineFlag hsplit ih
  | switch hsplit htakes _ ih => exact .switch hsplit htakes ih
  | valued hsplit htakes _ ih => exact .valued hsplit htakes ih

/-- **A flag that is given a value** is read with it. -/
theorem Faithful.setFlag (h : Faithful registry c.words) (hp : c.Paired) (hn : FlagName name)
    (ht : takesValue registry name = true) (value : String) :
    Faithful registry (c.setFlag name value).words := by
  rcases setFlag_cases hp name value with ⟨front, w, back, hwords, hcarries, -, hset⟩ | ⟨-, hset⟩
  · rw [hset, words_ofWords]
    exact (hwords ▸ h).withValue hn hcarries value
  · rw [hset, words_ofWords]
    exact h.insert hn ht value

/-- **An operand that is added** is read as one, where the flags have ended before. -/
theorem Faithful.concat (h : Faithful registry ws)
    (hended : ∃ w ∈ ws, w.role.isFlagPart = false) (arg : String) :
    Faithful registry (ws ++ [.operand arg]) := by
  have operands : ∀ args : List String,
      args.map Word.operand ++ [.operand arg] = (args ++ [arg]).map Word.operand := by
    intro args
    simp
  induction h with
  | nil => simp at hended
  | terminator args =>
    rw [List.cons_append, operands]
    exact .terminator _
  | operand args hne hsplit =>
    rw [List.cons_append, operands]
    exact .operand _ hne hsplit
  | inlineFlag hsplit _ ih => exact .inlineFlag hsplit (ih (by simpa [Role.isFlagPart] using hended))
  | switch hsplit htakes _ ih =>
    exact .switch hsplit htakes (ih (by simpa [Role.isFlagPart] using hended))
  | valued hsplit htakes _ ih =>
    exact .valued hsplit htakes (ih (by simpa [Role.isFlagPart] using hended))

theorem Faithful.append (h : Faithful registry c.words) (hp : c.Paired)
    (hended : ∃ r ∈ c.roles, r.isFlagPart = false) (arg : String) :
    Faithful registry (c.append arg).words := by
  obtain ⟨tool, ws, rfl⟩ := hp.exists_words
  rw [words_ofWords] at h
  rw [append_ofWords, words_ofWords]
  exact h.concat (by simpa using hended) arg

/-! ### What a series of changes keeps -/

/-- Changes that can be told from the arguments they lead to: a value for a flag that is known to
take one, and an operand where the flags have ended. -/
def Mutation.Legible (registry : List FlagDef) (c : CommandLine) : Mutation → Prop
  | .setFlag name _ => takesValue registry name = true ∧ FlagName name
  | .append _ => ∃ r ∈ c.roles, r.isFlagPart = false
  | .replaceSource .. | .setArg .. => False

/-- One such change to a command line. -/
inductive Revised (registry : List FlagDef) (c : CommandLine) : CommandLine → Prop
  | apply (m : Mutation) : m.Legible registry c → Revised registry c (m.apply c)

/-- A command line of a tool, whose roles are those that reading gives its arguments. -/
structure Legible (registry : List FlagDef) (tool : Path) (c : CommandLine) : Prop where
  tool_eq : c.tool = tool
  paired : c.Paired
  faithful : Faithful registry c.words

theorem legible_read (tool : Path) {args : List String} (h : (classify registry args).2 = []) :
    Legible registry tool (.read tool args registry) where
  tool_eq := rfl
  paired := paired_read tool args registry
  faithful := by
    rw [read_eq_ofWords, words_ofWords]
    exact faithful_classify h

/-- **One change** keeps words faithful. -/
theorem Revised.legible {tool : Path} {c' : CommandLine} (h : Revised registry c c')
    (hc : Legible registry tool c) : Legible registry tool c' := by
  obtain ⟨m, hm⟩ := h
  refine ⟨?_, paired_apply hc.paired m, ?_⟩
  · cases m with
    | setFlag name value => exact (tool_setFlag c name value).trans hc.tool_eq
    | append arg => exact hc.tool_eq
    | replaceSource | setArg => exact hm.elim
  · cases m with
    | setFlag name value => exact hc.faithful.setFlag hc.paired hm.2 hm.1 value
    | append arg => exact hc.faithful.append hc.paired hm arg
    | replaceSource | setArg => exact hm.elim

/-- **Changing a command line agrees with reading it again.** Let a command line be read without a
warning, then be changed in any order by giving values to flags that take one and by adding operands
behind the end of the flags. At any time, reading its arguments gives this very command line, and no
warning. -/
theorem read_of_revisions (tool : Path) {args : List String} {registry : List FlagDef}
    (hw : (classify registry args).2 = []) {c : CommandLine}
    (h : Relation.ReflTransGen (Revised registry) (.read tool args registry) c) :
    CommandLine.read tool c.args registry = c ∧ (classify registry c.args).2 = [] := by
  have hc : Legible registry tool c := by
    induction h with
    | refl => exact legible_read tool hw
    | tail _ hstep ih => exact hstep.legible ih
  obtain ⟨rfl, hp, hfaithful⟩ := hc
  have hread := hfaithful.classify
  rw [hp.args_eq] at hread
  refine ⟨?_, by rw [hread]⟩
  rw [read_eq_ofWords, hread, ← hp.eq_ofWords]

/-- The arguments of a command with a flag in either form, and two dashes in front of its file. -/
def mixedArgs : List String := ["-p", "-main", "--importcfg=old", "-pack", "--", "a_test.go"]

theorem read_of_three_revisions : (classify compileFlags mixedArgs).2 = [] ∧ ∃ c : CommandLine,
    Relation.ReflTransGen (Revised compileFlags) (.read ⟨"compile"⟩ mixedArgs compileFlags) c ∧
    c.args = ["-p", "-main", "-importcfg=new=cfg", "-pack", "-buildid", "--", "--", "a_test.go",
      "-std"] ∧
    CommandLine.read ⟨"compile"⟩ c.args compileFlags = c ∧ (classify compileFlags c.args).2 = [] := by
  have hread : (classify compileFlags mixedArgs).2 = [] := by decide +kernel
  have hname : ∀ c : CommandLine, ∀ name ∈ ["importcfg", "buildid"], ∀ value,
      Revised compileFlags c (c.setFlag name value) := by
    intro c name hn value
    have hknown : takesValue compileFlags name = true ∧ FlagName name := by
      rcases List.mem_pair.1 hn with rfl | rfl
      · exact ⟨by decide, by decide, by decide, by decide⟩
      · exact ⟨by decide, by decide, by decide, by decide⟩
    exact .apply (.setFlag name value) hknown
  let start : CommandLine := .read ⟨"compile"⟩ mixedArgs compileFlags
  let changed := (start.setFlag "importcfg" "new=cfg").setFlag "buildid" "--"
  have hended : Revised compileFlags changed (changed.append "-std") :=
    .apply (.append "-std") ⟨.terminator, by decide +kernel, rfl⟩
  have hrun : Relation.ReflTransGen (Revised compileFlags) start (changed.append "-std") :=
    ((Relation.ReflTransGen.single (hname _ _ (by simp) _)).tail (hname _ _ (by simp) _)).tail hended
  exact ⟨hread, _, hrun, by decide +kernel, read_of_revisions ⟨"compile"⟩ hread hrun⟩

end TestWeave.Command
