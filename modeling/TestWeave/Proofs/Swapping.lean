import TestWeave.Command.Swap
import TestWeave.Proofs.Names
import TestWeave.Proofs.Paired
import TestWeave.Proofs.Related

/-!
# Command lines whose source files are swapped

Changed files take the places of those they were made from, and take over their roles. Nothing else
of a command line changes, so its flags have the values they had.

* `Swapped`: what swapping does to the words of a command line; `swapped_swapSources`.
* `exists_candidate_swapSources`: a source file that is swapped makes room for a changed file.
* `setFlag_cases`: the words of a command line of which a flag was given a value.
* `flagValue?_setFlag`: the value of a flag that was given one.
-/

namespace TestWeave

/-! ### Paths as keys -/

theorem Path.Component.cmp_eq_iff {a b : Path.Component} : a.cmp b = .eq ↔ a = b := by
  cases a with
  | name s =>
    cases b with
    | name t =>
      rw [Path.Component.cmp, Std.LawfulEqCmp.compare_eq_iff_eq, Path.Component.name.injEq]
    | root | here | up => simp [Path.Component.cmp, Path.Component.rank, compare, compareOfLessAndEq]
  | root | here | up =>
    cases b <;> simp [Path.Component.cmp, Path.Component.rank, compare, compareOfLessAndEq]

theorem Path.cmpComponents_eq_iff {as bs : List Path.Component} :
    Path.cmpComponents as bs = .eq ↔ as = bs := by
  induction as generalizing bs with
  | nil => cases bs <;> simp [Path.cmpComponents]
  | cons a as ih =>
    cases bs with
    | nil => simp [Path.cmpComponents]
    | cons b bs =>
      rw [Path.cmpComponents, Ordering.then_eq_eq, Path.Component.cmp_eq_iff, ih,
        List.cons.injEq]

/-- Paths compare equal if they have the same components. -/
theorem Path.cmp_eq_iff {p q : Path} : p.cmp q = .eq ↔ p.components = q.components :=
  Path.cmpComponents_eq_iff

theorem PathMap.contains_iff {m : PathMap} {p : Path} :
    m.contains p = true ↔ ∃ e ∈ m, p.components = e.1.components := by
  rw [PathMap.contains, SortedMap.contains, SortedMap.find?, Option.isSome_map, List.find?_isSome]
  simp [Path.cmp_eq_iff]

/-- A key of a map has a value. -/
theorem PathMap.exists_find? {m : PathMap} {e : Path × Path} (h : e ∈ m) :
    ∃ e' ∈ m, m.find? e.1 = some e'.2 := by
  have hsome : (List.find? (fun e' : Path × Path => Path.cmp e.1 e'.1 == .eq) m).isSome := by
    rw [List.find?_isSome]
    exact ⟨e, h, by rw [Path.cmp_eq_iff.2 rfl]; rfl⟩
  obtain ⟨e', he'⟩ := Option.isSome_iff_exists.1 hsome
  refine ⟨e', List.mem_of_find?_eq_some he', ?_⟩
  rw [PathMap.find?, SortedMap.find?, he']
  rfl

theorem PathMap.mem_of_find? {m : PathMap} {p q : Path} (h : m.find? p = some q) :
    ∃ e ∈ m, e.2 = q := by
  obtain ⟨e, he, rfl⟩ := Option.map_eq_some_iff.1 h
  exact ⟨e, List.mem_of_find?_eq_some he, rfl⟩

namespace Command

open Text

/-! ### Source files -/

/-- A word, and the word in its place after swapping: the same, or one of the new files in the place
of a source file. -/
def Word.Becomes (new : String → Prop) (w w' : Word) : Prop :=
  w' = w ∨ w.isSource = true ∧ w'.role = w.role ∧ new w'.text

/-- The words of two command lines, one made from the other by swapping. -/
def Swapped (new : String → Prop) : List Word → List Word → Prop :=
  List.Forall₂ (Word.Becomes new)

variable {new : String → Prop} {ws ws' : List Word} {w w' w₁ : Word} {text old replacement : String}
  {c : CommandLine}

instance : Std.Refl (Word.Becomes new) := ⟨fun _ => .inl rfl⟩

theorem Word.Becomes.trans (h : w.Becomes new w₁) (h' : w₁.Becomes new w') :
    w.Becomes new w' := by
  rcases h' with rfl | ⟨hsource, hrole, hnew⟩
  · exact h
  · rcases h with rfl | ⟨hsource₁, hrole₁, -⟩
    · exact .inr ⟨hsource, hrole, hnew⟩
    · exact .inr ⟨hsource₁, hrole.trans hrole₁, hnew⟩

theorem Swapped.refl (ws : List Word) : Swapped new ws ws := List.forall₂_refl ws

theorem Swapped.trans {ws₁ : List Word} (h : Swapped new ws ws₁) (h' : Swapped new ws₁ ws') :
    Swapped new ws ws' := forall₂_trans h h' fun _ _ _ => Word.Becomes.trans

/-- **One replacement** swaps one word. -/
theorem swapped_replaceSource {c c' : CommandLine} (hp : c.Paired)
    (h : c.replaceSource? old replacement = some c') (hn : new replacement) :
    Swapped new c.words c'.words := by
  obtain ⟨tool, ws, rfl⟩ := hp.exists_words
  rw [replaceSource?_ofWords] at h
  obtain ⟨ws', hw, rfl⟩ := Option.map_eq_some_iff.1 h
  obtain ⟨front, a, back, rfl, rfl, ha, -⟩ := modifyFirst?_eq_some hw
  have ha : a.Becomes new { a with text := replacement } :=
    .inr ⟨(Word.isFile_iff.1 ha).1, rfl, hn⟩
  rw [words_ofWords, words_ofWords]
  exact List.rel_append (List.forall₂_refl front) (.cons ha (List.forall₂_refl back))

/-- How often a name is that of a source file, after a replacement by another name. -/
theorem countP_replaceSource {c : CommandLine} (hp : c.Paired) (h : replacement ≠ text) :
    ((c.replaceSource? old replacement).getD c).words.countP (Word.isFile text) =
      c.words.countP (Word.isFile text) - if old = text then 1 else 0 := by
  obtain ⟨tool, ws, rfl⟩ := hp.exists_words
  rw [replaceSource?_ofWords]
  cases hw : modifyFirst? (Word.isFile old) ({ · with text := replacement }) ws with
  | none =>
    -- nothing is replaced where no source file has the name
    split
    · rename_i he
      have hzero : ws.countP (Word.isFile text) = 0 := by
        rw [List.countP_eq_zero, ← he]
        intro w hm
        exact Bool.eq_false_iff.1 (modifyFirst?_eq_none.1 hw w hm)
      simp [hzero]
    · rfl
  | some ws' =>
    obtain ⟨front, a, back, rfl, rfl, ha, -⟩ := modifyFirst?_eq_some hw
    have hnew : Word.isFile text { a with text := replacement } = false := by
      simp [Word.isFile, h]
    obtain ⟨hsource, hold⟩ := Word.isFile_iff.1 ha
    have ha : Word.isFile text a = decide (old = text) := by
      rw [Word.isFile, hsource, hold, Bool.true_and, beq_eq_decide]
    simp only [Option.map_some, Option.getD_some, words_ofWords, List.countP_append,
      List.countP_cons, hnew, ha]
    by_cases he : old = text <;> simp [he]

/-! ### All source files -/

/-- One swap of a series, on the line that those before it have made. -/
def swapNext (c : CommandLine) (swap : String × String) : CommandLine :=
  (c.replaceSource? swap.1 swap.2).getD c

theorem swapSources_eq (mapping : PathMap) (c : CommandLine) :
    (swapSources mapping c).2 = (swaps mapping c).foldl swapNext c := by
  unfold swapSources
  -- the count of the swaps that were made does not matter for the line
  generalize swaps mapping c = list
  generalize 0 = n
  induction list generalizing n c with
  | nil => rfl
  | cons swap list ih =>
    rw [List.foldl_cons, List.foldl_cons, swapNext]
    cases hr : c.replaceSource? swap.1 swap.2 with
    | none => simpa only [hr, Option.getD_none] using ih c n
    | some c' => simpa only [hr, Option.getD_some] using ih c' (n + 1)

theorem paired_swapNext (hp : c.Paired) (swap : String × String) : (swapNext c swap).Paired := by
  rw [swapNext]
  cases hr : c.replaceSource? swap.1 swap.2 with
  | none => exact hp
  | some c' => exact hp.replaceSource hr

theorem paired_swapSources (mapping : PathMap) (hp : c.Paired) : (swapSources mapping c).2.Paired := by
  rw [swapSources_eq]
  exact List.foldlRecOn _ swapNext hp fun c hp swap _ => paired_swapNext hp swap

theorem swapped_foldl {list : List (String × String)} (hp : c.Paired)
    (hn : ∀ swap ∈ list, new swap.2) : Swapped new c.words (list.foldl swapNext c).words := by
  induction list generalizing c with
  | nil => exact .refl _
  | cons swap list ih =>
    obtain ⟨hswap, hn⟩ := List.forall_mem_cons.1 hn
    rw [List.foldl_cons]
    refine Swapped.trans ?_ (ih (paired_swapNext hp swap) hn)
    rw [swapNext]
    cases hr : c.replaceSource? swap.1 swap.2 with
    | none => exact .refl _
    | some c' => exact swapped_replaceSource hp hr hswap

theorem countP_foldl {list : List (String × String)} (hp : c.Paired)
    (h : ∀ swap ∈ list, swap.2 ≠ text) : (list.foldl swapNext c).words.countP (Word.isFile text) =
      c.words.countP (Word.isFile text) - list.countP (·.1 == text) := by
  induction list generalizing c with
  | nil => rfl
  | cons swap list ih =>
    obtain ⟨hswap, hlist⟩ := List.forall_mem_cons.1 h
    rw [List.foldl_cons, ih (paired_swapNext hp swap) hlist, swapNext, countP_replaceSource hp hswap,
      List.countP_cons]
    by_cases he : swap.1 = text
    · simp only [he, if_true, beq_self_eq_true]
      omega
    · simp [he]

theorem mem_swaps {mapping : PathMap} {c : CommandLine} {swap : String × String}
    (h : swap ∈ swaps mapping c) : ∃ e ∈ mapping, e.2.text = swap.2 := by
  obtain ⟨source, -, hs⟩ := List.mem_filterMap.1 h
  obtain ⟨replacement, hfind, rfl⟩ := Option.map_eq_some_iff.1 hs
  obtain ⟨e, he, rfl⟩ := PathMap.mem_of_find? hfind
  exact ⟨e, he, rfl⟩

/-- The file that a map puts in the place of a word. -/
def Word.swap? (mapping : PathMap) (w : Word) : Option Path :=
  if w.isSource then mapping.find? ⟨w.text⟩ else none

theorem Word.swap?_eq_some {mapping : PathMap} {replacement : Path} :
    w.swap? mapping = some replacement ↔
      w.isSource = true ∧ mapping.find? ⟨w.text⟩ = some replacement := by
  unfold Word.swap?
  split <;> simp [*]

theorem swaps_cons (mapping : PathMap) (tool : Path) (w : Word) (ws : List Word) :
    swaps mapping (.ofWords tool (w :: ws)) =
      ((w.swap? mapping).map fun replacement => (w.text, replacement.text)).toList ++
        swaps mapping (.ofWords tool ws) := by
  unfold swaps CommandLine.sources Word.swap?
  rw [words_ofWords, words_ofWords]
  cases hrole : w.role with
  | source kind =>
    have hsource : w.isSource = true := by rw [Word.isSource, hrole]
    rw [if_pos hsource, List.filterMap_cons_some (b := (w.text, kind)) (by simp only [hrole]),
      List.filterMap_cons]
    cases hfind : mapping.find? ⟨w.text⟩ <;> simp [hfind]
  | flag | value | inlineFlag | terminator | positional =>
    have hsource : w.isSource = false := by rw [Word.isSource, hrole]
    rw [hsource, List.filterMap_cons_none (by simp only [hrole])]
    rfl

/-- There is one swap for each source file under a name that the map has. -/
theorem countP_swaps {mapping : PathMap} {replacement : Path}
    (h : mapping.find? ⟨text⟩ = some replacement) (hp : c.Paired) :
    (swaps mapping c).countP (·.1 == text) = c.words.countP (Word.isFile text) := by
  obtain ⟨tool, ws, rfl⟩ := hp.exists_words
  rw [words_ofWords]
  induction ws with
  | nil => rfl
  | cons w ws ih =>
    rw [swaps_cons, List.countP_append, ih (paired_ofWords ..), List.countP_cons, Nat.add_comm,
      Nat.add_left_cancel_iff]
    cases hswap : w.swap? mapping with
    | some other =>
      have hsource := (Word.swap?_eq_some.1 hswap).1
      simp [Word.isFile, hsource, List.countP_cons]
    | none =>
      have hnot : w.isFile text = false := by
        rw [← Bool.not_eq_true, Word.isFile_iff]
        rintro ⟨hsource, rfl⟩
        rw [Word.swap?_eq_some.2 ⟨hsource, h⟩] at hswap
        simp at hswap
      simp [hnot]

/-- **Swapping changes source files only**, each into one of the new files. -/
theorem swapped_swapSources (mapping : PathMap) (hp : c.Paired) :
    Swapped (fun text => ∃ e ∈ mapping, e.2.text = text) c.words
      (swapSources mapping c).2.words := by
  rw [swapSources_eq]
  exact swapped_foldl hp fun swap hs => mem_swaps hs

theorem mem_candidates_iff : text ∈ c.candidates ↔
    ∃ kind : SourceKind, kind.isCandidate = true ∧ ⟨text, .source kind⟩ ∈ c.words := by
  unfold CommandLine.candidates CommandLine.sources
  simp only [List.mem_map, List.mem_filter, List.mem_filterMap, Prod.exists]
  constructor
  · rintro ⟨text, kind, ⟨⟨w, hm, hw⟩, hk⟩, rfl⟩
    obtain ⟨wtext, role⟩ := w
    cases role with
    | source wkind =>
      obtain ⟨rfl, rfl⟩ : wtext = text ∧ wkind = kind := by simpa using hw
      exact ⟨wkind, hk, hm⟩
    | flag | value | inlineFlag | terminator | positional => simp at hw
  · rintro ⟨kind, hk, hm⟩
    exact ⟨text, kind, ⟨⟨_, hm, rfl⟩, hk⟩, rfl⟩

/-- **A candidate that is swapped** makes room for one of the new files, which is a candidate then
whatever its name. -/
theorem exists_candidate_swapSources {mapping : PathMap} {e : Path × Path} (hp : c.Paired)
    (he : e ∈ mapping) (ht : e.1.text ∈ c.candidates) (hne : ∀ e' ∈ mapping, e'.2.text ≠ e.1.text) :
    ∃ e' ∈ mapping, e'.2.text ∈ (swapSources mapping c).2.candidates := by
  obtain ⟨kind, hk, hm⟩ := mem_candidates_iff.1 ht
  obtain ⟨found, -, hfind⟩ := PathMap.exists_find? he
  -- no source file has the old name any more
  have hnone : (swapSources mapping c).2.words.countP (Word.isFile e.1.text) = 0 := by
    rw [swapSources_eq, countP_foldl hp fun swap hs => ?_, countP_swaps hfind hp, Nat.sub_self]
    obtain ⟨e', he', hswap⟩ := mem_swaps hs
    exact hswap ▸ hne e' he'
  obtain ⟨w', hm', hbecomes⟩ := exists_of_mem_left (swapped_swapSources mapping hp) hm
  rcases hbecomes with rfl | ⟨-, hrole, e', he', htext⟩
  · have := List.countP_eq_zero.1 hnone _ hm'
    simp [Word.isFile, Word.isSource] at this
  · refine ⟨e', he', mem_candidates_iff.2 ⟨kind, hk, ?_⟩⟩
    rw [htext]
    have hrole : w'.role = .source kind := hrole
    rwa [← hrole]

/-! ### Flags -/

theorem Word.carries_iff {name : String} :
    w.carries name = true ↔ w.role = .value name ∨ w.role = .inlineFlag name := by
  obtain ⟨text, role⟩ := w
  cases role <;> simp [carries, Role.carries?]

theorem carries_congr {name : String} (h : w'.role = w.role) : w'.carries name = w.carries name := by
  rw [Word.carries, Word.carries, h]

theorem not_carries_of_isSource {name : String} (h : w.isSource = true) : w.carries name = false := by
  unfold Word.isSource at h
  cases hrole : w.role with
  | source kind => rw [Word.carries, hrole]; rfl
  | flag | value | inlineFlag | terminator | positional => rw [hrole] at h; simp at h

/-- **Swapping leaves the flags as they are.** -/
theorem flagValue?_swapSources (mapping : PathMap) (hp : c.Paired) (name : String) :
    (swapSources mapping c).2.flagValue? name = c.flagValue? name := by
  have hfilter : (swapSources mapping c).2.words.filter (·.carries name) =
      c.words.filter (·.carries name) := by
    have hall := swapped_swapSources mapping hp
    generalize (swapSources mapping c).2.words = ws' at hall
    generalize c.words = ws at hall
    induction hall with
    | nil => rfl
    | @cons w w' ws ws' hw _ ih =>
      rcases hw with rfl | ⟨hsource, hrole, -⟩
      · rw [List.filter_cons, List.filter_cons, ih]
      · have hnot : w.carries name = false := not_carries_of_isSource hsource
        have hnot' : w'.carries name = false := (carries_congr hrole).trans hnot
        rw [List.filter_cons_of_neg (Bool.eq_false_iff.1 hnot'),
          List.filter_cons_of_neg (Bool.eq_false_iff.1 hnot), ih]
  rw [CommandLine.flagValue?, hfilter, CommandLine.flagValue?]

/-- A flag that is written with a value has it. -/
theorem splitFlag_inline {name : String} (value : String) (h : '=' ∉ name.toList) :
    (splitFlag s!"-{name}={value}").bind (·.2) = some value := by
  have htext : s!"-{name}={value}".toList = '-' :: (name.toList ++ '=' :: value.toList) := by
    simp [ToString.toString]
  generalize s!"-{name}={value}" = text at htext
  obtain ⟨body, before, hbody, hlist, hbefore⟩ : ∃ (body : String) (before : List Char),
      (dropLead "--" text).or (dropLead "-" text) = some body ∧
        body.toList = before ++ '=' :: value.toList ∧ '=' ∉ before := by
    cases hlong : dropLead "--" text with
    | some body =>
      -- the name begins with a dash itself
      obtain ⟨rest, hrest, rfl⟩ := Option.map_eq_some_iff.1 hlong
      have hdash := (htext.symm.trans (afterLead_eq_some_iff.1 hrest) : _ = '-' :: '-' :: rest)
      cases hname : name.toList with
      | nil => simp [hname] at hdash
      | cons c before =>
        rw [hname] at h hdash
        obtain ⟨-, rfl⟩ : c = '-' ∧ before ++ '=' :: value.toList = rest := by simpa using hdash
        exact ⟨_, before, rfl, String.toList_ofList, fun hm => h (List.mem_cons_of_mem _ hm)⟩
    | none =>
      have hshort : dropLead "-" text = some (String.ofList (name.toList ++ '=' :: value.toList)) := by
        rw [dropLead, afterLead_eq_some_iff.2 htext]
        rfl
      exact ⟨_, name.toList, hshort, String.toList_ofList, h⟩
  have hne : body.isEmpty = false := by
    rw [String.isEmpty_eq_false_iff]
    rintro rfl
    simp at hlist
  rw [splitFlag, hbody]
  simp only [hne, splitOnce_eq_some hlist hbefore]
  simp

theorem carries_withValue (name value : String) (w : Word) :
    (w.withValue name value).carries name = w.carries name :=
  carries_congr (role_withValue name value w)

/-- A word that carries a value has the one that it is given. One that begins with the name of the
flag is split behind it, so that name must have no equals sign. -/
theorem carried_withValue {name : String} (value : String) {w : Word}
    (h : w.role = .inlineFlag name → '=' ∉ name.toList) (hw : w.carries name = true) :
    (w.withValue name value).carried = some value := by
  obtain ⟨text, role⟩ := w
  rcases Word.carries_iff.1 hw with rfl | rfl
  · rfl
  · exact splitFlag_inline value (h rfl)

/-- The value of a flag is that of the last word that carries one. -/
theorem flagValue?_append {name : String} {front back : List Word} {w : Word}
    (hc : c.words = front ++ w :: back) (hw : w.carries name = true)
    (hb : ∀ w ∈ back, w.carries name = false) : c.flagValue? name = w.carried := by
  have hnone : back.filter (·.carries name) = [] := by
    rw [List.filter_eq_nil_iff]
    exact fun w hm => Bool.eq_false_iff.1 (hb w hm)
  rw [CommandLine.flagValue?, hc, List.filter_append, List.filter_cons_of_pos hw, hnone,
    List.getLast?_concat, Option.bind_some]

/-- **A flag is given a value** in the last word that carries one, or else by two new words behind
the other flags. -/
theorem setFlag_cases (hp : c.Paired) (name value : String) :
    (∃ front w back, c.words = front ++ w :: back ∧ w.carries name = true ∧
      (∀ v ∈ back, v.carries name = false) ∧
      c.setFlag name value = .ofWords c.tool (front ++ w.withValue name value :: back)) ∨
    (∀ w ∈ c.words, w.carries name = false) ∧
      c.setFlag name value = .ofWords c.tool (c.words.takeWhile (·.role.isFlagPart) ++
        ⟨"-" ++ name, .flag name⟩ :: ⟨value, .value name⟩ ::
          c.words.dropWhile (·.role.isFlagPart)) := by
  obtain ⟨tool, ws, rfl⟩ := hp.exists_words
  rw [setFlag_ofWords, setFlagWords, words_ofWords, tool_ofWords]
  cases h : modifyLast? (·.carries name) (·.withValue name value) ws with
  | some ws' =>
    obtain ⟨front, w, back, hwords, rfl, hcarries, hback⟩ := modifyLast?_eq_some h
    exact .inl ⟨front, w, back, hwords, hcarries, hback, rfl⟩
  | none => exact .inr ⟨modifyLast?_eq_none.1 h, rfl⟩

/-- **A flag that is given a value** has it. -/
theorem flagValue?_setFlag {name : String} (hp : c.Paired) (value : String)
    (h : .inlineFlag name ∈ c.roles → '=' ∉ name.toList) :
    (c.setFlag name value).flagValue? name = some value := by
  rcases setFlag_cases hp name value with ⟨front, w, back, hwords, hcarries, hback, hset⟩ |
    ⟨hnone, hset⟩
  · rw [hset, flagValue?_append words_ofWords ((carries_withValue name value w).trans hcarries)
      hback]
    refine carried_withValue value (fun hrole => h ?_) hcarries
    rw [← hp.roles_eq, hwords, ← hrole]
    simp
  · rw [hset, flagValue?_append (words_ofWords.trans (List.append_cons ..))
      (by simp [Word.carries, Role.carries?]) fun w hm => ?_]
    · rfl
    · exact hnone w ((List.dropWhile_sublist _).subset hm)

end Command

end TestWeave
