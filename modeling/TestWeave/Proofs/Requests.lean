import Mathlib.Data.List.Dedup
import TestWeave.Proofs.Imported

/-!
# Requests for names of packages

A patch is asked for names of packages, one after the other. A package that is not imported under a
name is given the first choice of the preferred name that nothing else has, and it keeps that name.

* `Search`: the search for a name, try by try; `exists_search`: when it ends.
* `importedName?_of_answer`: a name that was given stays.
* `localName?_of_supplied`: the source with the imports calls packages what the patch calls them.
* `answered`: all of this for any requests.
-/

namespace TestWeave.Change

open TestWeave.Source TestWeave.Text

/-! ### The search for a name -/

/-- The search for a name that is not taken, from the `k`-th choice on: it ends with `name` after
`n` tries. -/
inductive Search (preferred : String) (taken : List String) : Nat → String → Nat → Prop
  | free {k} : numbered preferred k ∉ taken → Search preferred taken k (numbered preferred k) 1
  | next {k name n} : numbered preferred k ∈ taken → Search preferred taken (k + 1) name n →
      Search preferred taken k name (n + 1)

/-- The free name is the first choice that is not taken. -/
theorem exists_freeName (preferred : String) (taken : List String) :
    ∃ k, freeName preferred taken = numbered preferred k ∧ numbered preferred k ∉ taken ∧
      ∀ j < k, numbered preferred j ∈ taken := by
  have hfree := freeName_not_mem preferred taken
  unfold freeName at hfree ⊢
  rw [List.find?_map] at hfree ⊢
  cases h : (List.range (taken.length + 1)).find? ((!taken.contains ·) ∘ numbered preferred) with
  | none =>
    -- the preferred name would be taken
    rw [h] at hfree
    have hzero : preferred ∈ taken := by
      have := List.find?_eq_none.1 h 0 (by simp)
      simp only [Function.comp_apply, numbered, Bool.not_eq_true', Bool.not_eq_false] at this
      simpa using this
    exact absurd hzero hfree
  | some k =>
    obtain ⟨hk, -, hbefore⟩ := List.find?_range_eq_some.1 h
    refine ⟨k, rfl, by simpa using hk, fun j hj => ?_⟩
    simpa using hbefore j hj

/-- **The search ends** with the free name, after one try more than there are names that are taken
at most. -/
theorem exists_search (preferred : String) (taken : List String) :
    ∃ n ≤ taken.dedup.length + 1, Search preferred taken 0 (freeName preferred taken) n := by
  obtain ⟨k, heq, hfree, hbefore⟩ := exists_freeName preferred taken
  -- the choices in front of it are different names that are taken
  have hk : k ≤ taken.dedup.length := by
    have hnodup : ((List.range k).map (numbered preferred)).Nodup :=
      List.Nodup.map (fun _ _ => numbered_inj) List.nodup_range
    have hsub : (List.range k).map (numbered preferred) ⊆ taken.dedup := by
      intro name hname
      obtain ⟨j, hj, rfl⟩ := List.mem_map.1 hname
      exact List.mem_dedup.2 (hbefore j (List.mem_range.1 hj))
    have := (List.subperm_of_subset hnodup hsub).length_le
    simpa using this
  have hsearch : ∀ i ≤ k, Search preferred taken (k - i) (numbered preferred k) (i + 1) := by
    intro i
    induction i with
    | zero => exact fun _ => .free hfree
    | succ i ih =>
      intro hi
      have hnext := ih (by omega)
      rw [show k - i = k - (i + 1) + 1 by omega] at hnext
      exact .next (hbefore _ (by omega)) hnext
  have hall := hsearch k (le_refl k)
  rw [Nat.sub_self] at hall
  exact ⟨k + 1, by omega, by rwa [heq]⟩

theorem not_mem_takenNames {p : Patch} {name : String} : name ∉ p.takenNames ↔
    name ∉ p.file.imports.filterMap ImportSpec.localName? ∧ name ∉ p.file.declarations ∧
      name ∉ p.addedImports.map (·.2) := by
  rw [Patch.takenNames, List.mem_append, List.mem_append, not_or, not_or, and_assoc]

/-! ### Requests -/

/-- A patch after requests, each of them a path and the name that is preferred for it. -/
def Patch.require (p : Patch) (qs : List (String × String)) : Patch :=
  qs.foldl (fun p q => (p.ensureImport q.1 q.2).2) p

/-- The paths that are asked for, each with the name that is given. -/
def Patch.answers (p : Patch) : List (String × String) → List (String × String)
  | [] => []
  | q :: qs => (q.1, (p.ensureImport q.1 q.2).1) :: (p.ensureImport q.1 q.2).2.answers qs

variable {file : SourceFile} {p : Patch} {q : String × String} {qs : List (String × String)}

/-- A name by which a path is imported stays, whatever else is asked for. -/
theorem importedName?_kept {path name : String} (h : p.importedName? path = some name)
    (other preferred : String) :
    (p.ensureImport other preferred).2.importedName? path = some name := by
  rcases ensureImport_spec p other preferred with ⟨name', -, he⟩ | ⟨-, he⟩
  · rw [he]
    exact h
  · rw [he]
    rcases Option.or_eq_some_iff.1 h with hlocal | ⟨hnone, hadded⟩
    · simp [Patch.importedName?, hlocal]
    · obtain ⟨added, hfind, rfl⟩ := Option.map_eq_some_iff.1 hadded
      simp [Patch.importedName?, hnone, List.find?_append, hfind]

theorem importedName?_require {path name : String} (h : p.importedName? path = some name)
    (qs : List (String × String)) : (p.require qs).importedName? path = some name := by
  induction qs generalizing p with
  | nil => exact h
  | cons q qs ih => exact ih (importedName?_kept h q.1 q.2)

/-- **A name that was given** is the one by which the path is imported in the end. -/
theorem importedName?_of_answer {a : String × String} (h : a ∈ p.answers qs) :
    (p.require qs).importedName? a.1 = some a.2 := by
  induction qs generalizing p with
  | nil => simp [Patch.answers] at h
  | cons q qs ih =>
    rcases List.mem_cons.1 h with rfl | h
    · exact importedName?_require (importedName?_ensureImport p q.1 q.2) qs
    · exact ih h

/-! ### The imports of requests -/

/-- A path that can be spelled, and a name to prefer for it. -/
structure Requestable (q : String × String) : Prop where
  nonempty : q.1 ≠ ""
  path : ∀ c ∈ q.1.toList, c ≠ '"' ∧ c ≠ '\\' ∧ c ≠ '\n'
  name : IsName q.2
  blank : q.2 ≠ "_"

instance (q : String × String) : Decidable (Requestable q) :=
  decidable_of_iff
    (q.1 ≠ "" ∧ (q.1.toList.all fun c => c != '"' && c != '\\' && c != '\n') = true ∧ IsName q.2 ∧
      q.2 ≠ "_")
    ⟨fun ⟨h1, h2, h3, h4⟩ => ⟨h1, by simpa [and_assoc] using h2, h3, h4⟩,
      fun ⟨h1, h2, h3, h4⟩ => ⟨h1, by simpa [and_assoc] using h2, h3, h4⟩⟩

theorem Requestable.spelled (h : Requestable q) : Spelled q.1 where
  quote hm := (h.path _ hm).1 rfl
  line hm := (h.path _ hm).2.2 rfl
  pair hi := (h.path '\\' (hi.subset (by simp))).2.1 rfl
  last hl := (h.path '\\' (List.mem_of_getLast? hl)).2.1 rfl

/-- What requests leave of a patch: imports of paths that the file has no name for, under names that
can stand there. -/
structure Supplied (file : SourceFile) (p : Patch) : Prop where
  file_eq : p.file = file
  edits : p.edits = p.addedImports.map (importEdit file.anchor)
  appended : p.appended = ""
  addable : ∀ a ∈ p.addedImports, Addable a ∧ a.2 ≠ "_"
  missing : ∀ a ∈ p.addedImports, file.localName? a.1 = none

theorem Supplied.new (file : SourceFile) : Supplied file (Patch.new file) :=
  ⟨rfl, rfl, rfl, by simp [Patch.new], by simp [Patch.new]⟩

theorem Supplied.ensureImport (h : Supplied file p) (hq : Requestable q) :
    Supplied file (p.ensureImport q.1 q.2).2 := by
  rcases ensureImport_spec p q.1 q.2 with ⟨name, -, he⟩ | ⟨hnone, he⟩
  · rw [he]
    exact h
  · rw [he]
    obtain ⟨hfile, hedits, happended, haddable, hmissing⟩ := h
    have hlocal := localName?_of_importedName? hnone
    have hchoice := isChoice_freeName q.2 p.takenNames
    rw [hfile] at hlocal
    refine ⟨hfile, ?_, happended, ?_, ?_⟩
    · simp [hedits, hfile]
    · refine List.forall_mem_append.2 ⟨haddable, List.forall_mem_singleton.2 ⟨?_, ?_⟩⟩
      · exact ⟨hq.name.choice hchoice, hq.spelled, hq.nonempty⟩
      · exact ne_blank_of_choice hq.blank hchoice
    · exact List.forall_mem_append.2 ⟨hmissing, List.forall_mem_singleton.2 hlocal⟩

theorem Supplied.require (h : Supplied file p) (hq : ∀ q ∈ qs, Requestable q) :
    Supplied file (p.require qs) := by
  induction qs generalizing p with
  | nil => exact h
  | cons q qs ih =>
    obtain ⟨hhead, htail⟩ := List.forall_mem_cons.1 hq
    exact ih (h.ensureImport hhead) htail

/-! ### What packages are called -/

theorem localName?_eq_head? (file : SourceFile) (path : String) : file.localName? path =
    ((file.imports.filter (·.path == path)).filterMap ImportSpec.localName?).head? := by
  rw [SourceFile.localName?, List.head?_filterMap]

/-- Added imports give the names under which they were added. -/
theorem head?_localNames {adds : List (String × String)}
    (h : ∀ a ∈ adds, Addable a ∧ a.2 ≠ "_") (path : String) :
    (((adds.map importSpecOf).filter (·.path == path)).filterMap ImportSpec.localName?).head? =
      (adds.find? (·.1 == path)).map (·.2) := by
  induction adds with
  | nil => rfl
  | cons a adds ih =>
    obtain ⟨⟨ha, hblank⟩, h⟩ := List.forall_mem_cons.1 h
    have hdot : a.2 ≠ "." := by
      intro heq
      have := heq ▸ ha.name.1
      exact absurd this (by decide)
    have hlocal : (importSpecOf a).localName? = some a.2 := by
      simp [ImportSpec.localName?, importSpecOf, hblank, hdot]
    by_cases hpath : a.1 = path
    · have hspec : ((importSpecOf a).path == path) = true := by simpa [importSpecOf] using hpath
      rw [List.map_cons, List.filter_cons, if_pos hspec, List.filterMap_cons_some hlocal,
        List.head?_cons, List.find?_cons_of_pos (by simpa using hpath)]
      rfl
    · have hspec : ¬((importSpecOf a).path == path) = true := by simpa [importSpecOf] using hpath
      rw [List.map_cons, List.filter_cons, if_neg hspec, ih h,
        List.find?_cons_of_neg (by simpa using hpath)]

/-- **A source with added imports** calls every package what the patch calls it. -/
theorem localName?_of_supplied (h : Supplied file p) {file' : SourceFile}
    (hi : file'.outline.imports =
      p.addedImports.map (fun a => (some a.2, a.1)) ++ file.outline.imports) (path : String) :
    file'.localName? path = p.importedName? path := by
  have houtlines : file'.imports.map ImportSpec.outline =
      (p.addedImports.map importSpecOf ++ file.imports).map ImportSpec.outline := by
    rw [List.map_append, List.map_map]
    exact hi
  rw [localName?_eq_head?, localNames_congr houtlines, List.filter_append, List.filterMap_append,
    List.head?_append, head?_localNames h.addable, ← localName?_eq_head?, Patch.importedName?,
    h.file_eq]
  cases hfind : p.addedImports.find? (·.1 == path) with
  | none => simp
  | some a =>
    -- an import is added only of a path that the file has no name for
    have hpath : a.1 = path := by simpa using List.find?_some hfind
    have hmissing := h.missing a (List.mem_of_find?_eq_some hfind)
    rw [hpath] at hmissing
    simp [hmissing]

/-! ### What is given -/

/-- **Requests for names of packages**, of which each path can be spelled and each preferred name is
one: every request ends after one try more at most than there are names that are taken; a name that
is new is neither that of an import nor of a declaration nor that of a request before; a path is
given one name; and in the source with the imports that is the name of the path. -/
theorem answered {path : Path} {source : String} (hf : SourceFile.parse path source = .ok file)
    (hq : ∀ q ∈ qs, Requestable q) :
    (∀ front q back, qs = front ++ q :: back →
      let p := (Patch.new file).require front
      let answer := p.ensureImport q.1 q.2
      (p.importedName? q.1 = some answer.1 ∧ answer.2 = p) ∨
      (p.importedName? q.1 = none ∧
        answer.2.addedImports = p.addedImports ++ [(q.1, answer.1)] ∧
        (∃ n ≤ p.takenNames.dedup.length + 1, Search q.2 p.takenNames 0 answer.1 n) ∧
        answer.1 ∉ file.imports.filterMap ImportSpec.localName? ∧
        answer.1 ∉ file.declarations ∧ answer.1 ∉ p.addedImports.map (·.2))) ∧
    (∀ a ∈ (Patch.new file).answers qs, ∀ b ∈ (Patch.new file).answers qs,
      a.1 = b.1 → a.2 = b.2) ∧
    ∃ text file', ((Patch.new file).require qs).emit = .ok text ∧
      SourceFile.parse path text = .ok file' ∧
      ∀ a ∈ (Patch.new file).answers qs, file'.localName? a.1 = some a.2 := by
  refine ⟨fun front q back hsplit => ?_, fun a ha b hb heq => ?_, ?_⟩
  · have hfront : ∀ q ∈ front, Requestable q := fun q hm => hq q (by simp [hsplit, hm])
    have hfile := ((Supplied.new file).require hfront).file_eq
    have hfree := freeName_not_mem q.2 ((Patch.new file).require front).takenNames
    simp only
    -- a request is met by an import that is there, or by one that is added
    rcases ensureImport_spec ((Patch.new file).require front) q.1 q.2 with
      ⟨name, hname, he⟩ | ⟨hnone, he⟩
    · rw [he]
      exact .inl ⟨hname, rfl⟩
    · rw [he]
      rw [not_mem_takenNames, hfile] at hfree
      exact .inr ⟨hnone, rfl, exists_search _ _, hfree⟩
  · have ha := importedName?_of_answer ha
    rw [heq, importedName?_of_answer hb] at ha
    exact (Option.some.inj ha).symm
  · have hsupplied := (Supplied.new file).require hq
    obtain ⟨head, segs, hl⟩ := exists_layout .default hf
    obtain ⟨hpath, -⟩ := parse_eq_ok hf
    obtain ⟨file', hparse, himports⟩ := parse_withImports _ hf hl fun a ha =>
      (hsupplied.addable a ha).1
    refine ⟨_, file', (emit_of_imports _ hl hsupplied.file_eq hsupplied.edits hsupplied.appended
      _).2 ⟨rfl, file', by rw [hpath, hparse]⟩, hparse, fun a ha => ?_⟩
    rw [localName?_of_supplied hsupplied himports, importedName?_of_answer ha]

/-- A source that imports a package under a dot, and in which the name of another package and its
first variant are taken. -/
def crowdedSource : String :=
  "package p\n\nimport . \"x/y\"\nimport os \"z\"\n\nvar os1 = 1\n"

/-- The first name that is free is given, the next one to the next package, and the first one again
to the first package. -/
theorem answered_of_crowdedSource : ∃ file text file',
    SourceFile.parse ⟨"a_test.go"⟩ crowdedSource = .ok file ∧
    (Patch.new file).answers [("x/y", "os"), ("os", "os"), ("x/y", "y")] =
      [("x/y", "os2"), ("os", "os3"), ("x/y", "os2")] ∧
    ((Patch.new file).require [("x/y", "os"), ("os", "os"), ("x/y", "y")]).emit = .ok text ∧
    SourceFile.parse ⟨"a_test.go"⟩ text = .ok file' ∧
    file'.localName? "x/y" = some "os2" ∧ file'.localName? "os" = some "os3" := by
  obtain ⟨file, hf, -, hanswers⟩ := exists_parsed
    (by decide +kernel : (SourceFile.parse ⟨"a_test.go"⟩ crowdedSource).toOption.any (fun file =>
      (Patch.new file).answers [("x/y", "os"), ("os", "os"), ("x/y", "y")] =
        [("x/y", "os2"), ("os", "os3"), ("x/y", "os2")]) = true)
  have hq : ∀ q ∈ [("x/y", "os"), ("os", "os"), ("x/y", "y")], Requestable q := by decide
  obtain ⟨-, -, text, file', hemit, hparse, hnames⟩ := answered hf hq
  rw [hanswers] at hnames
  exact ⟨file, text, file', hf, hanswers, hemit, hparse, hnames ("x/y", "os2") (by simp),
    hnames ("os", "os3") (by simp)⟩

end TestWeave.Change
