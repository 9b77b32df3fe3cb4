import TestWeave.Proofs.Growth

/-!
# Paths that are spelled differently

Two spellings with the same components lead to the same place, as long as something follows them:
empty segments and dots inside a path are steps that lead nowhere else.

* `Path.isAbsolute_eq`, `Disk.namesOf_filter`: what a walk needs of a path, read off its components.
* `Disk.placeOf`: where the names of a path lead, however long it is spelled.
* `Disk.placeOf_join_congr`: a name in a directory has the same place for all spellings of the
  directory.
-/

namespace TestWeave

namespace Path

variable {p q : Path}

/-! ### Components -/

/-- The name that a component is looked up by. -/
def Component.lookup? : Component → Option String
  | .root | .here => none
  | .up => some ".."
  | .name s => some s

theorem lookup?_componentOf (segment : List Char) :
    (componentOf segment).lookup? = some (String.ofList segment) := by
  unfold componentOf
  split
  · rename_i h
    rw [beq_iff_eq.1 h]
    rfl
  · rfl

/-- The segments of a text that say something. -/
def spoken (cs : List Char) : List (List Char) := (segments cs).filter (!isIdle ·)

theorem spoken_slash (cs : List Char) : spoken ('/' :: cs) = spoken cs := rfl

theorem spoken_dot (cs : List Char) : spoken ('.' :: '/' :: cs) = spoken cs := by
  have hsplit : segments (['.'] ++ '/' :: cs) = ['.'] :: segments cs :=
    splitWhere_append_cons cs (by simp) rfl
  rw [spoken, ← List.singleton_append, hsplit]
  rfl

/-- What a path begins with is no segment that says something. -/
theorem spoken_lead (cs : List Char) : spoken (lead cs).2 = spoken cs := by
  fun_cases lead cs with
  | case1 body => exact (spoken_slash body).symm
  | case2 => rfl
  | case3 body => rw [spoken_slash, spoken_dot]
  | case4 => rfl

/-- The component that a path begins with, if that is no name. -/
def origin : List Char → List Component
  | ['/'] => [.root]
  | ['.'] => [.here]
  | _ => []

theorem components_eq (p : Path) : p.components =
    origin (lead p.text.toList).1 ++ (spoken p.text.toList).map componentOf := by
  rw [← spoken_lead]
  rfl

theorem lookup?_components (p : Path) :
    p.components.filterMap Component.lookup? = (spoken p.text.toList).map String.ofList := by
  have horigin : ∀ head, (origin head).filterMap Component.lookup? = [] := by
    intro head
    unfold origin
    split <;> rfl
  have hfun : Component.lookup? ∘ componentOf = some ∘ String.ofList := funext lookup?_componentOf
  rw [components_eq, List.filterMap_append, horigin, List.nil_append, List.filterMap_map, hfun,
    List.filterMap_eq_map]

/-- Whether a path begins at the root can be told from its components. -/
theorem isAbsolute_eq (p : Path) : p.isAbsolute = (p.components.head? == some .root) := by
  have hnames : ∀ ss : List (List Char), ((ss.map componentOf).head? == some .root) = false := by
    intro ss
    cases ss with
    | nil => rfl
    | cons s ss =>
      rw [List.map_cons, List.head?_cons, componentOf]
      split <;> rfl
  rw [isAbsolute, components_eq]
  generalize p.text.toList = cs
  fun_cases lead cs with
  | case1 body => rfl
  | case2 => rfl
  | case3 body => rfl
  | case4 _ hslash =>
    have hnone : origin [] = [] := rfl
    rw [hnone, List.nil_append, hnames, beq_eq_false_iff_ne]
    intro h
    obtain ⟨body, hbody⟩ := List.head?_eq_some_iff.1 h
    exact hslash body hbody

theorem same_iff : p.same q = true ↔ p.components = q.components := beq_iff_eq

end Path

namespace Host.Disk

variable {d : Disk} {p q dir : Path} {here loc : Location} {name : String}

/-! ### Names -/

/-- The names of a path without the dots are those of its components. -/
theorem namesOf_filter (p : Path) :
    (namesOf p).filter (· != ".") = p.components.filterMap Path.Component.lookup? := by
  rw [Path.lookup?_components, namesOf, List.filter_map, List.filter_filter, Path.spoken]
  congr 2
  funext segment
  by_cases h : segment = ['.']
  · subst h
    rfl
  · have hne : String.ofList segment ≠ "." := fun he => h (by simpa using congrArg String.toList he)
    simp [Path.isIdle, bne, beq_eq_false_iff_ne.2 h, beq_eq_false_iff_ne.2 hne]

/-- A slash at the end adds no name. -/
theorem namesOf_slash (text : String) : namesOf ⟨text ++ "/"⟩ = namesOf ⟨text⟩ := by
  have hsplit : Path.segments (text ++ "/").toList = Path.segments text.toList ++ [[]] := by
    rw [String.toList_append]
    exact splitWhere_append_sep text.toList [] rfl
  rw [namesOf, hsplit, List.filter_append, List.map_append, namesOf]
  simp

theorem namesOf_join (dir : Path) (hn : Plain name) :
    namesOf (dir.join ⟨name⟩) = namesOf dir ++ [name] := by
  rw [Path.join, hn.not_absolute, Bool.false_or]
  split
  · rename_i hempty
    obtain ⟨text⟩ := dir
    obtain rfl : text = "" := by simpa using hempty
    have := namesOf_lead (.inl rfl) hn
    rwa [String.empty_append] at this
  split
  · rename_i hslash
    exact namesOf_lead (.inr (List.getLast?_eq_some_iff.1 hslash)) hn
  · have hlead : (dir.text ++ "/").toList = dir.text.toList ++ ['/'] := String.toList_append
    rw [namesOf_lead (.inr ⟨_, hlead⟩) hn, namesOf_slash]

theorem isAbsolute_join_plain (dir : Path) (hn : Plain name) :
    (dir.join ⟨name⟩).isAbsolute = dir.isAbsolute := by
  rw [Path.join, hn.not_absolute, Bool.false_or]
  split
  · rename_i hempty
    obtain ⟨text⟩ := dir
    obtain rfl : text = "" := by simpa using hempty
    exact hn.not_absolute
  split
  · exact isAbsolute_lead hn
  · rename_i hempty _
    rw [isAbsolute_lead hn, Path.isAbsolute, Path.isAbsolute, String.toList_append]
    cases h : dir.text.toList with
    | nil => exact absurd (by simpa using h) hempty
    | cons c cs => rfl

/-! ### Places -/

/-- Where the names of a path lead, however long it is spelled. -/
def placeOf (d : Disk) (p : Path) : Except IoError Location :=
  d.walk (if p.isAbsolute then [] else d.cwd) (namesOf p)

/-- A path that can be resolved is resolved to its place. -/
theorem placeOf_of_resolve (h : d.resolve p = .ok loc) : d.placeOf p = .ok loc :=
  (resolve_eq_ok_iff.1 h).2.2.2

/-- Where no name can be looked up, all names fail alike. -/
theorem walk_of_not_directory (h : d.get? here ≠ some .directory) (name name' : String)
    (names names' : List String) : d.walk here (name :: names) = d.walk here (name' :: names') := by
  rw [walk, walk]
  split
  · rfl
  · rfl
  · contradiction

/-- Dots in front of a name lead nowhere else. -/
theorem walk_filter (here : Location) (names : List String) (last : String) :
    d.walk here (names.filter (· != ".") ++ [last]) = d.walk here (names ++ [last]) := by
  induction names generalizing here with
  | nil => rfl
  | cons name names ih =>
    by_cases hdir : d.get? here = some .directory
    · rw [List.cons_append, walk_of_directory _ _ hdir]
      by_cases hdot : name = "."
      · rw [List.filter_cons_of_neg (by simp [hdot]), if_pos hdot]
        exact ih here
      · rw [List.filter_cons_of_pos (by simpa using hdot), List.cons_append,
          walk_of_directory _ _ hdir, if_neg hdot, if_neg hdot, ih, ih]
    · obtain ⟨first, rest, hrest⟩ :=
        List.exists_cons_of_ne_nil (l := (name :: names).filter (· != ".") ++ [last]) (by simp)
      rw [hrest, List.cons_append]
      exact walk_of_not_directory hdir ..

/-- **A name in a directory** has the same place for all spellings of the directory. -/
theorem placeOf_join_congr (hn : Plain name) (h : p.components = q.components) :
    d.placeOf (p.join ⟨name⟩) = d.placeOf (q.join ⟨name⟩) := by
  rw [placeOf, placeOf, namesOf_join _ hn, namesOf_join _ hn, isAbsolute_join_plain _ hn,
    isAbsolute_join_plain _ hn, Path.isAbsolute_eq, Path.isAbsolute_eq q, h, ← walk_filter,
    ← walk_filter _ (namesOf q), namesOf_filter, namesOf_filter, h]

/-- What is read at one place is one text. -/
theorem readText_of_place {text text' : String} (h : d.readText p = .ok text)
    (h' : d.readText q = .ok text') (hp : d.placeOf p = d.placeOf q) : text = text' := by
  obtain ⟨loc, content, executable, hr, hg, -, hd⟩ := readText_eq_ok_iff.1 h
  obtain ⟨loc', content', executable', hr', hg', -, hd'⟩ := readText_eq_ok_iff.1 h'
  rw [placeOf_of_resolve hr, placeOf_of_resolve hr'] at hp
  obtain rfl := Except.ok.inj hp
  obtain ⟨rfl, -⟩ := Node.file.inj (Option.some.inj (hg.symm.trans hg'))
  exact Option.some.inj (hd.symm.trans hd')

end Host.Disk

end TestWeave
