import TestWeave.Proofs.Registered

/-!
# What a compile command keeps

A compile command that is processed has changed files in the place of those they were made from, and
the copy of its import configuration in the place of the configuration. All else is kept, whether the
command could be processed or not.

* `swapSources_of_unshadowed`: what swapping makes of each word, where none is taken for another.
* `setFlag_of_flagValue?`: a flag that has a value is given another in the last word that carries it.
* `registers_injectCompile`: registering changes no word but that of the import configuration.
* `kept_of_processCompile`: what is kept of a command by all that is done with it.
* `fresh_of_relative`: names of changed files are paths from the root.
-/

namespace TestWeave

/-- A path behind one from the root is one from the root. -/
theorem Path.isAbsolute_join {p : Path} (h : p.isAbsolute = true) (q : Path) :
    (p.join q).isAbsolute = true := by
  unfold Path.isAbsolute at h
  cases hp : p.text.toList with
  | nil => simp [hp] at h
  | cons a as =>
    have hne : p.text.isEmpty = false := by
      rw [String.isEmpty_eq_false_iff]
      intro hempty
      simp [hempty] at hp
    unfold Path.join
    split
    · rename_i hq
      simpa [hne] using hq
    · split <;> simpa [Path.isAbsolute, hp] using h

namespace Command

variable {mapping : PathMap} {c c' : CommandLine} {w w' : Word}

/-! ### Source files -/

/-- The word with the file that a map puts in its place. -/
def Word.swappedBy (mapping : PathMap) (w : Word) : Word :=
  match w.swap? mapping with
  | some replacement => { w with text := replacement.text }
  | none => w

theorem Word.swappedBy_of_some {replacement : Path} (h : w.swap? mapping = some replacement) :
    w.swappedBy mapping = { w with text := replacement.text } := by
  rw [swappedBy, h]

theorem Word.swappedBy_of_none (h : w.swap? mapping = none) : w.swappedBy mapping = w := by
  rw [swappedBy, h]

@[simp] theorem Word.role_swappedBy (mapping : PathMap) (w : Word) :
    (w.swappedBy mapping).role = w.role := by
  unfold swappedBy
  split <;> rfl

/-- A word whose new file has the name that a later word has. The swap of the later one finds this
word in its place, unless there is nothing to swap. -/
def Word.Shadows (mapping : PathMap) (w v : Word) : Prop :=
  (∃ new ∈ w.swap? mapping, new.text = v.text) ∧ ∃ new ∈ v.swap? mapping, new.text ≠ v.text

instance (mapping : PathMap) (w v : Word) : Decidable (w.Shadows mapping v) :=
  inferInstanceAs (Decidable (_ ∧ _))

/-- A word that a map has swapped is found by the swap of a later word only if it shadows it. -/
theorem Word.isFile_swappedBy {new : Path} (h : w.swap? mapping = some new) (hn : new.text ≠ w.text)
    {v : Word} (hv : ¬v.Shadows mapping w) : (v.swappedBy mapping).isFile w.text = false := by
  rw [← Bool.not_eq_true, Word.isFile_iff]
  rintro ⟨hsource, htext⟩
  cases hswap : v.swap? mapping with
  | some other =>
    rw [swappedBy_of_some hswap] at htext
    exact hv ⟨⟨other, hswap, htext⟩, new, h, hn⟩
  | none =>
    rw [swappedBy_of_none hswap] at hsource htext
    rw [Word.swap?_eq_some.2 ⟨hsource, htext ▸ (Word.swap?_eq_some.1 h).2⟩] at hswap
    simp at hswap

theorem modifyFirst?_append {α : Type} {pick : α → Bool} {f : α → α} {front : List α} {a : α}
    (back : List α) (hf : ∀ b ∈ front, pick b = false) (ha : pick a = true) :
    modifyFirst? pick f (front ++ a :: back) = some (front ++ f a :: back) := by
  induction front with
  | nil => rw [List.nil_append, modifyFirst?, if_pos ha, List.nil_append]
  | cons b front ih =>
    obtain ⟨hb, hf⟩ := List.forall_mem_cons.1 hf
    rw [List.cons_append, modifyFirst?, hb, if_neg Bool.false_ne_true, ih hf]
    rfl

/-- One swap changes at most one word, a source file under the old name. -/
theorem swapNext_cases (hp : c.Paired) (swap : String × String) :
    swapNext c swap = c ∨ ∃ front w back, c.words = front ++ w :: back ∧
      w.isFile swap.1 = true ∧
        swapNext c swap = .ofWords c.tool (front ++ { w with text := swap.2 } :: back) := by
  obtain ⟨tool, ws, rfl⟩ := hp.exists_words
  rw [swapNext, replaceSource?_ofWords]
  cases h : modifyFirst? (Word.isFile swap.1) ({ · with text := swap.2 }) ws with
  | none => exact .inl rfl
  | some ws' =>
    obtain ⟨front, w, back, rfl, rfl, hw, -⟩ := modifyFirst?_eq_some h
    exact .inr ⟨front, w, back, words_ofWords, hw, rfl⟩

/-- A file that makes room for itself stays. -/
theorem swapNext_self (hp : c.Paired) (text : String) : swapNext c (text, text) = c := by
  rcases swapNext_cases hp (text, text) with hsame | ⟨front, w, back, hc, hw, hnext⟩
  · exact hsame
  · obtain rfl : w.text = text := (Word.isFile_iff.1 hw).2
    rw [hnext, ← hc, ← hp.eq_ofWords]

/-- The swap of a word changes that word, where none in front of it has come to have its name. -/
theorem swapNext_append {new : Path} (h : w.swap? mapping = some new) {front : List Word}
    (hf : new.text ≠ w.text → ∀ v ∈ front, v.isFile w.text = false) (back : List Word) (tool : Path) :
    swapNext (.ofWords tool (front ++ w :: back)) (w.text, new.text) =
      .ofWords tool (front ++ w.swappedBy mapping :: back) := by
  rw [Word.swappedBy_of_some h]
  by_cases hn : new.text = w.text
  · rw [hn, swapNext_self (paired_ofWords ..)]
  · have hself : w.isFile w.text = true := Word.isFile_iff.2 ⟨(Word.swap?_eq_some.1 h).1, rfl⟩
    rw [swapNext, replaceSource?_ofWords, modifyFirst?_append back (hf hn) hself]
    rfl

/-- **The swaps of some words**, behind words that were swapped before and in front of words that are
left as they are, if no word shadows a later one. -/
theorem foldl_swapNext (front : List Word) {mid : List Word}
    (h : (front ++ mid).Pairwise fun w v => ¬w.Shadows mapping v) (back : List Word) (tool : Path) :
    (swaps mapping (.ofWords tool mid)).foldl swapNext
        (.ofWords tool (front.map (Word.swappedBy mapping) ++ (mid ++ back))) =
      .ofWords tool ((front ++ mid).map (Word.swappedBy mapping) ++ back) := by
  induction mid generalizing front with
  | nil => simp [swaps, CommandLine.sources]
  | cons w mid ih =>
    have hfront : ∀ v ∈ front, ¬v.Shadows mapping w :=
      fun v hv => (List.pairwise_append.1 h).2.2 v hv w (by simp)
    rw [← List.singleton_append, ← List.append_assoc] at h
    have hnext : ((w.swap? mapping).map fun new => (w.text, new.text)).toList.foldl swapNext
        (.ofWords tool (front.map (Word.swappedBy mapping) ++ w :: (mid ++ back))) =
          .ofWords tool ((front ++ [w]).map (Word.swappedBy mapping) ++ (mid ++ back)) := by
      cases hw : w.swap? mapping with
      | none => simp [Word.swappedBy_of_none hw]
      | some new =>
        refine (swapNext_append hw (fun hn v hv => ?_) (mid ++ back) tool).trans (by simp)
        obtain ⟨u, hu, rfl⟩ := List.mem_map.1 hv
        exact Word.isFile_swappedBy hw hn (hfront u hu)
    rw [swaps_cons, List.foldl_append, List.cons_append, hnext, ih _ h, List.append_assoc,
      List.singleton_append]

/-- The command line with the files that a map puts in the place of its words. -/
def CommandLine.swappedBy (mapping : PathMap) (c : CommandLine) : CommandLine :=
  .ofWords c.tool (c.words.map (Word.swappedBy mapping))

theorem CommandLine.roles_swappedBy (mapping : PathMap) (hp : c.Paired) :
    (c.swappedBy mapping).roles = c.roles := by
  rw [swappedBy, roles_ofWords, List.map_map, ← hp.roles_eq]
  simp [Function.comp_def]

/-- **Swapping** gives every word that a map has its new file, and no other word another text, where
no word shadows a later one. -/
theorem swapSources_of_unshadowed (hp : c.Paired)
    (h : c.words.Pairwise fun w v => ¬w.Shadows mapping v) :
    (swapSources mapping c).2 = c.swappedBy mapping := by
  obtain ⟨tool, ws, rfl⟩ := hp.exists_words
  rw [words_ofWords] at h
  have hall := foldl_swapNext [] h [] tool
  rw [List.map_nil, List.nil_append, List.append_nil, List.nil_append, List.append_nil] at hall
  rw [swapSources_eq, hall, CommandLine.swappedBy, words_ofWords, tool_ofWords]

/-- No word shadows another where no word has the name of a new file. -/
theorem swapSources_of_fresh (hp : c.Paired) (hf : ∀ e ∈ mapping, e.2.text ∉ c.args) :
    (swapSources mapping c).2 = c.swappedBy mapping := by
  refine swapSources_of_unshadowed hp (List.pairwise_of_forall_mem_list fun w _ v hv => ?_)
  rintro ⟨⟨new, hnew, htext⟩, -⟩
  obtain ⟨e, he, rfl⟩ := PathMap.mem_of_find? (Word.swap?_eq_some.1 hnew).2
  rw [← hp.args_eq] at hf
  exact hf e he (List.mem_map.2 ⟨v, hv, htext.symm⟩)

/-! ### Flags -/

theorem getElem?_roles (hp : c.Paired) (i : Nat) : c.roles[i]? = c.words[i]?.map (·.role) := by
  rw [← hp.roles_eq, List.getElem?_map]

/-- The word at the index carries the value of the flag, and no word behind it does. -/
structure CommandLine.LastCarrier (c : CommandLine) (name : String) (i : Nat) : Prop where
  carries : ∃ w, c.words[i]? = some w ∧ w.carries name = true
  last : ∀ j w, i < j → c.words[j]? = some w → w.carries name = false

/-- Which words carry a flag is a matter of their roles. -/
theorem exists_word_of_roles (hp : c.Paired) (hp' : c'.Paired) (h : c'.roles = c.roles) {i : Nat}
    (hw : c'.words[i]? = some w') : ∃ w, c.words[i]? = some w ∧ w'.role = w.role := by
  have hi := congrArg (·[i]?) h
  simp only [getElem?_roles hp, getElem?_roles hp', hw, Option.map_some] at hi
  obtain ⟨w, hw, hrole⟩ := Option.map_eq_some_iff.1 hi.symm
  exact ⟨w, hw, hrole.symm⟩

theorem CommandLine.LastCarrier.of_roles {name : String} {i : Nat} (hp : c.Paired) (hp' : c'.Paired)
    (h : c.LastCarrier name i) (hr : c'.roles = c.roles) : c'.LastCarrier name i where
  carries := by
    obtain ⟨w, hw, hcarries⟩ := h.carries
    obtain ⟨w', hw', hrole⟩ := exists_word_of_roles hp' hp hr.symm hw
    exact ⟨w', hw', (carries_congr hrole.symm).trans hcarries⟩
  last := by
    intro j w' hj hw'
    obtain ⟨w, hw, hrole⟩ := exists_word_of_roles hp hp' hr hw'
    exact (carries_congr hrole).trans (h.last j w hj hw)

/-- **A flag that has a value** is given another one in the last word that carries it. -/
theorem setFlag_of_flagValue? {name text : String} (hp : c.Paired) (value : String)
    (h : c.flagValue? name = some text) : ∃ i, c.LastCarrier name i ∧
      c.setFlag name value = .ofWords c.tool (c.words.modify i (·.withValue name value)) := by
  rcases setFlag_cases hp name value with ⟨front, w, back, hwords, hcarries, hback, hset⟩ |
    ⟨hnone, -⟩
  · refine ⟨front.length, ⟨⟨w, by simp [hwords], hcarries⟩, fun j v hj hv => ?_⟩, ?_⟩
    · obtain ⟨k, rfl⟩ := Nat.exists_eq_add_of_lt hj
      rw [hwords, List.getElem?_append_right (by omega), Nat.add_assoc, Nat.add_sub_cancel_left,
        List.getElem?_cons_succ] at hv
      exact hback v (List.mem_of_getElem? hv)
    · have hlength : front.length < (front ++ w :: back).length := by simp
      simp [hset, hwords, List.modify_eq_take_cons_drop hlength]
  · have hnil : c.words.filter (·.carries name) = [] := by
      rw [List.filter_eq_nil_iff]
      exact fun w hw => Bool.eq_false_iff.1 (hnone w hw)
    rw [CommandLine.flagValue?, hnil] at h
    simp at h

end Command

namespace Build

open TestWeave.Command TestWeave.Host

variable {p : Processor} {i : Injector} {c c' : CommandLine} {d d' : Disk} {mapping : PathMap}

/-! ### Registering the instrumentation -/

/-- What registering makes of a command: it is kept as it is, or the last word that carries its
configuration is given a copy, which counts as success. -/
inductive Registers (c : CommandLine) : Except InjectError Bool → CommandLine → Prop
  | kept (added : Except InjectError Bool) : Registers c added c
  | given {k : Nat} (copy : String) : c.LastCarrier "importcfg" k →
      Registers c (.ok true) (.ofWords c.tool (c.words.modify k (·.withValue "importcfg" copy)))

theorem registers_extend {text : String} (hp : c.Paired) (h : c.importcfg? = some text) (i : Injector)
    (cfg : ImportCfg) (d : Disk) : Registers c (i.extend c cfg d).1 (i.extend c cfg d).2.1 := by
  have hextension := extension_extend i c cfg d
  generalize i.extend c cfg d = result at hextension
  cases hextension with
  | unknown | complete | unwritten => exact .kept _
  | @copied _ _ _ copy =>
    obtain ⟨k, hlast, hset⟩ := setFlag_of_flagValue? hp copy.text h
    rw [hset]
    exact .given copy.text hlast

/-- **Registering changes one word at most**, on every way out. -/
theorem registers_injectCompile (i : Injector) (hp : c.Paired) (d : Disk) :
    Registers c (i.injectCompile c d).1 (i.injectCompile c d).2.1 := by
  unfold Injector.injectCompile
  split
  · split
    · exact .kept _
    · rename_i text hflag
      split
      · exact .kept _
      · exact registers_extend hp hflag i _ d
  · exact .kept _

theorem Registers.tool {added : Except InjectError Bool} (h : Registers c added c') :
    c'.tool = c.tool := by
  cases h <;> rfl

/-- A word of a command that was registered. -/
theorem Registers.word {added : Except InjectError Bool} (h : Registers c added c') {i : Nat}
    {w : Word} (hw : c.words[i]? = some w) : c'.words[i]? = some w ∨
      added = .ok true ∧ c.LastCarrier "importcfg" i ∧
        ∃ copy, c'.words[i]? = some (w.withValue "importcfg" copy) := by
  cases h with
  | kept => exact .inl hw
  | @given k copy hlast =>
    rw [words_ofWords, List.getElem?_modify, hw]
    by_cases hk : k = i
    · subst hk
      exact .inr ⟨rfl, hlast, copy, by simp⟩
    · exact .inl (by simp [hk])

theorem Registers.paired {added : Except InjectError Bool} (h : Registers c added c')
    (hp : c.Paired) : c'.Paired := by
  cases h with
  | kept => exact hp
  | given => exact paired_ofWords ..

theorem Registers.roles {added : Except InjectError Bool} (h : Registers c added c')
    (hp : c.Paired) : c'.roles = c.roles := by
  refine List.ext_getElem? fun i => ?_
  rw [getElem?_roles hp, getElem?_roles (h.paired hp)]
  cases hw : c.words[i]? with
  | some w =>
    rcases h.word hw with hw' | ⟨-, -, copy, hw'⟩ <;> simp [hw']
  | none =>
    cases h with
    | kept => rw [hw]
    | given => simp [List.getElem?_modify, hw]

/-! ### Commands that are processed -/

/-- A word of a command, and the word in its place once the command is processed with a plan: the
same, if it is no source file that the plan has changed; the changed file, if it is; or the copy of
the import configuration, if the word may be given it. -/
inductive Processed (mapping : PathMap) (configures : Prop) (w : Word) : Word → Prop
  | same : (w.isSource = true → mapping.find? ⟨w.text⟩ = none) → Processed mapping configures w w
  | swapped {temp : Path} : w.isSource = true → mapping.find? ⟨w.text⟩ = some temp →
      Processed mapping configures w { w with text := temp.text }
  | given (copy : String) : configures →
      Processed mapping configures w (w.withValue "importcfg" copy)

/-- **What a command keeps** when it is processed with a plan: the tool, the number of arguments,
their roles, and every argument that is neither a changed source file nor the last that carries the
configuration of imports. -/
structure Kept (mapping : PathMap) (outcome : Except InjectError PathMap) (c c' : CommandLine) :
    Prop where
  tool : c'.tool = c.tool
  count : c'.args.length = c.args.length
  roles : c'.roles = c.roles
  word : ∀ (i : Nat) (w w' : Word), c.words[i]? = some w → c'.words[i]? = some w' →
    Processed mapping (c.LastCarrier "importcfg" i) w w'
  planned : ∀ result, outcome = .ok result → result = mapping
  /-- Where nothing had to be changed, every source file is kept. -/
  unchanged : outcome = .ok [] → ∀ (i : Nat) (w : Word), c.words[i]? = some w →
    w.isSource = true → c'.words[i]? = some w
  /-- Where the instrumentation could not be registered, the import configuration is kept. -/
  failed : ∀ e, outcome = .error e → ∀ (i : Nat) (w : Word), c.words[i]? = some w →
    w.carries "importcfg" = true → c'.words[i]? = some w

theorem processed_swappedBy (mapping : PathMap) (configures : Prop) (w : Word) :
    Processed mapping configures w (w.swappedBy mapping) := by
  cases h : w.swap? mapping with
  | some temp =>
    obtain ⟨hsource, hfind⟩ := Word.swap?_eq_some.1 h
    rw [Word.swappedBy_of_some h]
    exact .swapped hsource hfind
  | none =>
    rw [Word.swappedBy_of_none h]
    refine .same fun hsource => ?_
    rwa [Word.swap?, if_pos hsource] at h

/-- Words that carry the value of a flag are not swapped. -/
theorem swappedBy_of_carries {name : String} {w : Word} (h : w.carries name = true) :
    w.swappedBy mapping = w := by
  refine Word.swappedBy_of_none ?_
  rw [Word.swap?, if_neg]
  intro hsource
  rw [not_carries_of_isSource hsource] at h
  simp at h

/-- A word of a command that was swapped and then registered. The word that is given a copy carries
a flag, so it was not swapped before. -/
theorem Registers.word_of_swapped {added : Except InjectError Bool} (hp : c.Paired)
    (h : Registers (c.swappedBy mapping) added c') {i : Nat} {w : Word} (hw : c.words[i]? = some w) :
    c'.words[i]? = some (w.swappedBy mapping) ∨ added = .ok true ∧
      c.LastCarrier "importcfg" i ∧ w.carries "importcfg" = true ∧
        ∃ copy, c'.words[i]? = some (w.withValue "importcfg" copy) := by
  have hswapped : (c.swappedBy mapping).words[i]? = some (w.swappedBy mapping) := by
    rw [CommandLine.swappedBy, words_ofWords, List.getElem?_map, hw, Option.map_some]
  rcases h.word hswapped with hw' | ⟨hadded, hlast, copy, hw'⟩
  · exact .inl hw'
  · have hlast : c.LastCarrier "importcfg" i :=
      hlast.of_roles (paired_ofWords ..) hp (CommandLine.roles_swappedBy mapping hp).symm
    obtain ⟨v, hv, hcarries⟩ := hlast.carries
    obtain rfl : w = v := Option.some.inj (hw.symm.trans hv)
    rw [swappedBy_of_carries hcarries] at hw'
    exact .inr ⟨hadded, hlast, hcarries, copy, hw'⟩

/-- What is kept by a command that was swapped and then registered. -/
theorem Registers.kept_of_swapped {added : Except InjectError Bool} (hp : c.Paired)
    (h : Registers (c.swappedBy mapping) added c') :
    Kept mapping (added.map fun _ => mapping) c c' where
  tool := h.tool
  count := by
    have hroles := (h.roles (paired_ofWords ..)).trans (CommandLine.roles_swappedBy mapping hp)
    have hp' : c'.Paired := h.paired (paired_ofWords ..)
    rw [← hp', hroles, hp]
  roles := (h.roles (paired_ofWords ..)).trans (CommandLine.roles_swappedBy mapping hp)
  word := by
    intro i w w' hw hw'
    rcases h.word_of_swapped hp hw with hsame | ⟨-, hlast, -, copy, hgiven⟩
    · obtain rfl := Option.some.inj (hw'.symm.trans hsame)
      exact processed_swappedBy mapping _ w
    · obtain rfl := Option.some.inj (hw'.symm.trans hgiven)
      exact .given copy hlast
  planned := by
    intro result hresult
    cases added with
    | error => simp [Except.map] at hresult
    | ok => exact (Except.ok.inj hresult).symm
  unchanged := by
    intro hresult i w hw hsource
    rcases h.word_of_swapped hp hw with hsame | ⟨-, -, hcarries, -⟩
    · cases added with
      | error => simp [Except.map] at hresult
      | ok =>
        obtain rfl : mapping = [] := Except.ok.inj hresult
        rw [hsame, Word.swappedBy_of_none]
        rw [Word.swap?, if_pos hsource]
        rfl
    · -- a source file is no word that carries a flag
      rw [not_carries_of_isSource hsource] at hcarries
      simp at hcarries
  failed := by
    intro e herror i w hw hcarries
    rcases h.word_of_swapped hp hw with hsame | ⟨rfl, -⟩
    · rw [hsame, swappedBy_of_carries hcarries]
    · simp [Except.map] at herror

/-- **Processing a compile command changes nothing else**, whether it succeeds or not, if no argument
has the name of a new file. -/
theorem kept_of_processCompile {outcome : Except InjectError PathMap} (hp : c.Paired)
    (hf : ∀ e ∈ ((p.step c d).plan d).1, e.2.text ∉ c.args)
    (h : p.processCompile c d = (outcome, c', d')) :
    Kept ((p.step c d).plan d).1 outcome c c' := by
  obtain ⟨added, hinject, rfl⟩ := processCompile_iff.1 h
  have hregisters := registers_injectCompile p.injector
    (paired_swapSources ((p.step c d).plan d).1 hp) ((p.step c d).plan d).2
  rw [hinject, swapSources_of_fresh hp hf] at hregisters
  exact hregisters.kept_of_swapped hp

/-! ### Fresh names -/

theorem isAbsolute_tempPath (d : Disk) (dir path : Path) (k : Nat) :
    (tempPath d dir path k).isAbsolute = true := by
  have hcwd : d.cwdPath.isAbsolute = true := by
    simp [Disk.cwdPath, Disk.pathOf, Path.isAbsolute]
  exact Path.isAbsolute_join (Path.isAbsolute_join hcwd dir) _

/-- **The names of changed files are fresh** on a command line without paths from the root. -/
theorem fresh_of_relative (h : ∀ text ∈ c.args, (Path.mk text).isAbsolute = false) :
    ∀ e ∈ ((p.step c d).plan d).1, e.2.text ∉ c.args := by
  intro e he harg
  have hplanned := (keeps_planned (p.step c d) d).plan (n := 0) ⟨.refl _ d, by simp, by simp⟩
  obtain ⟨_, _, file, _, _, _, _, _, _, hmade⟩ := hplanned.written e he
  obtain ⟨k, hname⟩ := hmade.name
  have habsolute := isAbsolute_tempPath d (p.step c d).tempDir file.path k
  rw [← hname, h _ harg] at habsolute
  simp at habsolute

theorem kept_of_one_test : ∃ outcome c' d',
    smallProcessor.processCompile compileTest testDisk = (outcome, c', d') ∧
      Kept ((smallProcessor.step compileTest testDisk).plan testDisk).1 outcome compileTest c' := by
  have hfresh := fresh_of_relative (p := smallProcessor) (d := testDisk)
    (show ∀ text ∈ compileTest.args, (Path.mk text).isAbsolute = false by decide)
  exact ⟨_, _, _, rfl, kept_of_processCompile (paired_read ..) hfresh rfl⟩

end Build

end TestWeave
