import TestWeave.Proofs.Actions
import TestWeave.Proofs.Registered
import TestWeave.Proofs.Repeated

/-!
# What a plan comes to

Where the directories of a step work, its plan writes one file for each unit that is given a suite
entry, and one for each file with calls that can be redirected. Nothing else is written, and the
record of the session has the units that were given a suite entry.

* `Step.writtenIn`, `Step.writtenFrom`: the files that are written, each with its suite entry.
* `Step.Filled`: the result has those files and no others; `Filled.planUnit`, `Filled.planAll`: this
  is kept in the course of a plan.
* `Step.Redirected`, `Step.IsHost`: which files these are, said of the sources.
* `planned_iff`: all of this for a whole plan.
-/

namespace TestWeave.Build

open TestWeave.Change TestWeave.Host TestWeave.Source TestWeave.Text

/-! ### The files that are written -/

/-- Whether a file can have the suite entry of its unit: one can be added, and the changed source is
there. -/
def Step.hostsEntry (s : Step) (file : SourceFile) : Bool :=
  s.canHost file && (prepared file s.sdk (some Known.driverName)).emit.isOk

/-- The first file of a unit that can have its suite entry. -/
def Step.host? (s : Step) (unit : TestUnit) : Option SourceFile := unit.files.find? s.hostsEntry

/-- Whether the calls of a file are redirected by themselves: there are some, and the changed source
is there. -/
def Step.redirects (s : Step) (file : SourceFile) : Bool :=
  !(s.instrumentFile file).isEmpty && (prepared file s.sdk none).emit.isOk

/-- The files whose calls are redirected by themselves, which the host of a unit is not. -/
def Step.rewrites (s : Step) (host : Option SourceFile) (files : List SourceFile) :
    List (SourceFile × Option String) :=
  (files.filter fun file => s.redirects file && host != some file).map (·, none)

/-- The file of a unit that is written with a suite entry, if the unit is given one. -/
def Step.entryFile? (s : Step) (unit : TestUnit) (given : Bool) : Option SourceFile :=
  if given then s.host? unit else none

/-- The files of a unit that are written, each with the driver of its suite entry. -/
def Step.writtenIn (s : Step) (unit : TestUnit) (given : Bool) :
    List (SourceFile × Option String) :=
  (s.entryFile? unit given).toList.map (·, some Known.driverName) ++
    s.rewrites (s.entryFile? unit given) unit.files

/-- The files of a list of units that are written, each by the plan of its unit. -/
def Step.writtenFrom (s : Step) : List TestUnit → PathMap × Disk → List (SourceFile × Option String)
  | [], _ => []
  | unit :: units, (result, d) =>
    s.writtenIn unit (s.gives unit result d) ++ s.writtenFrom units (s.planUnit unit result d)

/-- The files that a plan writes. -/
def Step.output (s : Step) (d : Disk) : List (SourceFile × Option String) :=
  s.writtenFrom s.units ([], d)

variable {s : Step} {d d' d₀ : Disk} {result : PathMap} {temp : Path} {file : SourceFile}
  {files : List SourceFile} {entry : Option String} {unit : TestUnit} {recorded units : List String}
  {made : List (SourceFile × Option String)} {n : Nat}

theorem hostsEntry_iff : s.hostsEntry file = true ↔ s.Hosts file := by
  rw [Step.hostsEntry, Bool.and_eq_true, isOk_iff, Step.Hosts]

theorem entryFile?_eq_some {given : Bool} :
    s.entryFile? unit given = some file ↔ given = true ∧ s.host? unit = some file := by
  cases given <;> simp [Step.entryFile?]

theorem mem_writtenIn {given : Bool} : (file, entry) ∈ s.writtenIn unit given ↔
    (entry = some Known.driverName ∧ given = true ∧ s.host? unit = some file) ∨
      (entry = none ∧ file ∈ unit.files ∧ s.redirects file = true ∧
        ¬(given = true ∧ s.host? unit = some file)) := by
  rw [Step.writtenIn, Step.rewrites, List.mem_append, List.mem_map, List.mem_map,
    ← entryFile?_eq_some]
  refine or_congr ?_ ?_
  · constructor
    · rintro ⟨host, hmem, he⟩
      obtain ⟨rfl, rfl⟩ := Prod.mk.inj he
      exact ⟨rfl, Option.mem_toList.1 hmem⟩
    · rintro ⟨rfl, h⟩
      exact ⟨file, Option.mem_toList.2 h, rfl⟩
  · constructor
    · rintro ⟨file', hmem, he⟩
      obtain ⟨rfl, rfl⟩ := Prod.mk.inj he
      simpa [and_assoc] using hmem
    · rintro ⟨rfl, h⟩
      exact ⟨file, by simpa [and_assoc] using h, rfl⟩

/-- The files that are written are files of the unit. -/
theorem file_of_mem_writtenIn {given : Bool} {m : SourceFile × Option String}
    (h : m ∈ s.writtenIn unit given) : m.1 ∈ unit.files := by
  rcases mem_writtenIn.1 h with ⟨-, -, hhost⟩ | ⟨-, hfile, -⟩
  · exact List.mem_of_find?_eq_some hhost
  · exact hfile

/-! ### What the result has -/

/-- **The result of a plan** has the files that were written, and no others. -/
structure Step.Filled (s : Step) (d₀ : Disk) (made : List (SourceFile × Option String))
    (result : PathMap) (d : Disk) : Prop where
  grown : Disk.Grown (s.AtRecord d₀) d₀ d
  key : ∀ path : Path, result.contains path = true ↔
    ∃ m ∈ made, path.components = m.1.path.components
  written : ∀ m ∈ made, ∃ temp text loc, result.find? m.1.path = some temp ∧
    s.Made d₀ d temp m.1 m.2 text loc

theorem Step.Filled.grow (h : s.Filled d₀ made result d) (hg : Disk.Grown (s.AtRecord d) d d') :
    s.Filled d₀ made result d' where
  grown := h.grown.trans (atRecord_grown h.grown hg)
  key := h.key
  written m hm := by
    obtain ⟨temp, text, loc, hfind, hmade⟩ := h.written m hm
    exact ⟨temp, text, loc, hfind, hmade.grown h.grown hg⟩

theorem find?_insert_path (m : PathMap) (k v k' : Path) : (m.insert k v).find? k' =
    if k'.components = k.components then some v else m.find? k' :=
  SortedMap.find?_insert_of_eq (f := Path.components) (fun _ _ => Path.cmp_eq_iff) k v m k'

theorem contains_insert_path (m : PathMap) (k v k' : Path) : (m.insert k v).contains k' = true ↔
    k'.components = k.components ∨ m.contains k' = true := by
  change ((m.insert k v).find? k').isSome = true ↔ _ ∨ (m.find? k').isSome = true
  rw [find?_insert_path]
  by_cases h : k'.components = k.components <;> simp [h]

/-- One more file. -/
theorem Step.Filled.emitTemp (h : s.Filled d₀ made result d)
    (hnew : ∀ m ∈ made, m.1.path.components ≠ file.path.components)
    (hemit : Build.emitTemp d s.tempDir (prepared file s.sdk entry) = (some temp, d')) :
    s.Filled d₀ (made ++ [(file, entry)]) (result.insert file.path temp) d' := by
  have hgrown := h.grow (grown_emitTemp hemit)
  refine ⟨hgrown.grown, fun path => ?_, fun m hm => ?_⟩
  · rw [contains_insert_path, h.key, or_comm]
    simp [or_and_right, exists_or]
  · rcases List.mem_append.1 hm with hm | hm
    · obtain ⟨temp', text, loc, hfind, hmade⟩ := hgrown.written m hm
      refine ⟨temp', text, loc, ?_, hmade⟩
      rw [find?_insert_path, if_neg (hnew m hm)]
      exact hfind
    · obtain rfl := List.mem_singleton.1 hm
      obtain ⟨text, loc, hmade⟩ := made_of_emitTemp h.grown hemit
      refine ⟨temp, text, loc, ?_, hmade⟩
      rw [find?_insert_path, if_pos rfl]

/-! ### The files of a unit -/

/-- Whether a changed file is written, in the middle of a plan. -/
theorem Step.Underway.isSome_emitTemp (hw : s.Works d₀) (h : s.Underway d₀ recorded (n + 1) d)
    (hu : unit ∈ s.units) (hf : file ∈ unit.files) (entry : Option String) :
    (Build.emitTemp d s.tempDir (prepared file s.sdk entry)).1.isSome =
      (prepared file s.sdk entry).emit.isOk := by
  have hsome : (Build.emitTemp d s.tempDir (prepared file s.sdk entry)).1.isSome = true ↔ _ :=
    Build.isSome_emitTemp (h.grown.reliable.2 hw.reliable) (h.room.mono (by omega))
  rw [file_prepared] at hsome
  rw [Bool.eq_iff_iff, hsome, isOk_iff]
  refine and_iff_left ?_
  obtain ⟨loc, hr⟩ := hw.temp unit hu file hf
  rw [← tempPath_grown h.grown] at hr
  exact ⟨loc, (h.grown.resolve _ _).2 hr⟩

/-- A unit that is given a suite entry has a file that can have it. -/
theorem exists_host?_of_gives (h : s.gives unit result d = true) :
    ∃ host, s.host? unit = some host := by
  obtain ⟨g, d₁, result', d₂, -, -, -, hwritten, -⟩ := writeHost_of_gives h
  obtain ⟨file, hf, hc, temp, hemit, -⟩ := writeHost_eq_some hwritten
  obtain ⟨text, -, -, hemit, -⟩ := emitTemp_eq_some hemit
  exact Option.isSome_iff_exists.1
    (List.find?_isSome.2 ⟨file, hf, hostsEntry_iff.2 ⟨hc, text, hemit⟩⟩)

/-- **The file that is given a suite entry** is the first that can have it. -/
theorem host_of_writeHost (hw : s.Works d₀) (h : s.Underway d₀ recorded (n + 1) d)
    (hu : unit ∈ s.units) (hsub : files ⊆ unit.files) {result' : PathMap}
    (hwritten : s.writeHost d result (files.map s.instrumentFile) = (some result', d')) :
    ∃ host temp, files.find? s.hostsEntry = some host ∧
      emitTemp d s.tempDir (prepared host s.sdk (some Known.driverName)) = (some temp, d') ∧
      result' = result.insert host.path temp := by
  induction files with
  | nil => cases hwritten
  | cons file files ih =>
    obtain ⟨hfile, hfiles⟩ := List.cons_subset.1 hsub
    have hsome := h.isSome_emitTemp hw hu hfile (some Known.driverName)
    rw [List.map_cons, Step.writeHost, file_instrumentFile] at hwritten
    rw [List.find?_cons, Step.hostsEntry, ← hsome]
    by_cases hc : s.canHost file = true
    · rw [if_pos hc, appendSuiteEntry_instrumentFile hc] at hwritten
      rw [hc, Bool.true_and]
      rcases he : emitTemp d s.tempDir (prepared file s.sdk (some Known.driverName)) with
        ⟨_ | temp, d₁⟩
      · rw [he] at hwritten
        obtain rfl := emitTemp_eq_none he
        exact ih hfiles hwritten
      · rw [he] at hwritten
        obtain ⟨rfl, rfl⟩ : result.insert file.path temp = result' ∧ d₁ = d' := by
          simpa using hwritten
        exact ⟨file, temp, rfl, he, rfl⟩
    · rw [if_neg hc] at hwritten
      rw [eq_false_of_ne_true hc, Bool.false_and]
      exact ih hfiles hwritten

/-- Files with different paths. -/
def DistinctPaths (files : List SourceFile) : Prop :=
  (files.map fun file => file.path.components).Nodup

/-- **One file whose calls may be redirected.** If it is the host, it is there already. -/
theorem Step.Filled.writeNext (hw : s.Works d₀) (hU : s.Underway d₀ recorded (n + 1) d)
    (hu : unit ∈ s.units) (hf : file ∈ unit.files) (h : s.Filled d₀ made result d)
    {host : Option SourceFile}
    (hhost : (∃ m ∈ made, file.path.components = m.1.path.components) ↔ host = some file)
    (ps : List Patch) :
    ∃ result' d', s.writeChanged result d (s.instrumentFile file :: ps) =
        s.writeChanged result' d' ps ∧
      s.Filled d₀ (made ++ s.rewrites host [file]) result' d' ∧ s.Underway d₀ recorded n d' := by
  have hcontains : result.contains file.path = true ↔ host = some file :=
    (h.key file.path).trans hhost
  have hsome := hU.isSome_emitTemp hw hu hf none
  rw [Step.writeChanged, file_instrumentFile]
  -- a file without calls is skipped, and so is the host, which is written already
  by_cases hskip : ((s.instrumentFile file).isEmpty || result.contains file.path) = true
  · have hnone : s.rewrites host [file] = [] := by
      rw [Bool.or_eq_true, hcontains] at hskip
      rcases hskip with hempty | rfl
      · simp [Step.rewrites, Step.redirects, hempty]
      · simp [Step.rewrites]
    rw [if_pos hskip, hnone, List.append_nil]
    exact ⟨result, d, rfl, h, hU.spend 1⟩
  · rw [if_neg hskip]
    rw [Bool.or_eq_true, hcontains, not_or] at hskip
    obtain ⟨hchanged, hother⟩ := hskip
    have hchanged := eq_false_of_ne_true hchanged
    have hredirects : s.redirects file =
        (Build.emitTemp d s.tempDir (prepared file s.sdk none)).1.isSome := by
      rw [Step.redirects, hchanged, hsome]
      rfl
    rw [instrumentFile_of_foreign (foreign_of_changed hchanged)]
    rcases he : Build.emitTemp d s.tempDir (prepared file s.sdk none) with ⟨_ | temp, d'⟩
    · have hnone : s.rewrites host [file] = [] := by simp [Step.rewrites, hredirects, he]
      obtain rfl := emitTemp_eq_none he
      rw [hnone, List.append_nil]
      exact ⟨result, _, rfl, h, hU.spend 1⟩
    · have hone : s.rewrites host [file] = [(file, none)] := by
        simp [Step.rewrites, hredirects, he, hother]
      have hnew : ∀ m ∈ made, m.1.path.components ≠ file.path.components :=
        fun m hm heq => hother (hhost.1 ⟨m, hm, heq.symm⟩)
      have hmem : (prepared file s.sdk none).file ∈ unit.files := by rwa [file_prepared]
      rw [hone]
      exact ⟨_, d', rfl, h.emitTemp hnew he, (hU.emitTemp hw hu hmem he).1⟩

/-- **The files whose calls are redirected** are written, but for the host, which is there. -/
theorem Step.Filled.writeChanged (hw : s.Works d₀)
    (hU : s.Underway d₀ recorded (n + files.length) d) (hu : unit ∈ s.units)
    (hsub : files ⊆ unit.files) (hdistinct : DistinctPaths files)
    (h : s.Filled d₀ made result d) {host : Option SourceFile}
    (hhost : ∀ file ∈ files,
      (∃ m ∈ made, file.path.components = m.1.path.components) ↔ host = some file) :
    s.Filled d₀ (made ++ s.rewrites host files)
      (s.writeChanged result d (files.map s.instrumentFile)).1
      (s.writeChanged result d (files.map s.instrumentFile)).2 := by
  induction files generalizing made result d with
  | nil =>
    rw [Step.rewrites, List.filter_nil, List.map_nil, List.append_nil]
    exact h
  | cons file files ih =>
    obtain ⟨hfile, hfiles⟩ := List.cons_subset.1 hsub
    obtain ⟨hne, hdistinct⟩ := List.nodup_cons.1 hdistinct
    obtain ⟨hthis, hhost⟩ := List.forall_mem_cons.1 hhost
    obtain ⟨result', d', hnext, hfilled, hU'⟩ :=
      h.writeNext (n := n + files.length) hw hU hu hfile hthis (files.map s.instrumentFile)
    -- the path of the file that may have been written is that of none behind it
    have hhost' : ∀ f ∈ files, (∃ m ∈ made ++ s.rewrites host [file],
        f.path.components = m.1.path.components) ↔ host = some f := by
      intro f hf
      have hlast : ¬∃ m ∈ s.rewrites host [file], f.path.components = m.1.path.components := by
        rintro ⟨m, hm, heq⟩
        obtain ⟨file', hfile', rfl⟩ := List.mem_map.1 hm
        obtain rfl := List.mem_singleton.1 (List.mem_of_mem_filter hfile')
        exact hne (List.mem_map.2 ⟨f, hf, heq⟩)
      rw [← hhost f hf]
      simp only [List.mem_append, or_and_right, exists_or, or_iff_left hlast]
    have hrewrites : s.rewrites host (file :: files) =
        s.rewrites host [file] ++ s.rewrites host files := by
      rw [Step.rewrites, Step.rewrites, Step.rewrites, ← List.map_append, ← List.filter_append,
        List.singleton_append]
    rw [List.map_cons, hnext, hrewrites, ← List.append_assoc]
    exact ih hU' hfiles hdistinct hfilled hhost'

/-! ### The units of a plan -/

/-- **What a unit is given**: its suite entry is written and the unit recorded, or nothing is. What
is left to do is to redirect the calls of its files. -/
theorem Step.Filled.give (hw : s.Works d₀) (hU : s.Underway d₀ recorded (n + unit.cost) d)
    (hu : unit ∈ s.units) (hl : Listed unit.name)
    (hnew : ∀ file ∈ unit.files, ∀ m ∈ made, m.1.path.components ≠ file.path.components)
    (h : s.Filled d₀ made result d) :
    ∃ result' d', s.planUnit unit result d =
        s.writeChanged result' d' (unit.files.map s.instrumentFile) ∧
      s.Filled d₀ (made ++ (s.entryFile? unit (s.gives unit result d)).toList.map
        (·, some Known.driverName)) result' d' ∧
      s.Underway d₀ recorded (n + unit.files.length) d' := by
  have hU : s.Underway d₀ recorded (n + unit.files.length + 1 + 1 + 1) d := by
    have hcost : n + unit.cost = n + unit.files.length + 1 + 1 + 1 := by
      rw [TestUnit.cost]
      omega
    rwa [hcost] at hU
  obtain ⟨units, d₁, he, -, hread₁, hentered⟩ := hU.enter hw
  obtain ⟨hgrown, -⟩ := grown_of_enter he (s.AtRecord d)
  cases hg : s.gives unit result d with
  | false =>
    refine ⟨result, _, planUnit_of_not_gives hg, ?_⟩
    rw [he]
    simp only [Step.entryFile?, Bool.false_eq_true, if_false, Option.toList_none, List.map_nil,
      List.append_nil]
    -- the section over the record is entered only for a unit without a suite entry
    cases unit.hasSuiteEntry with
    | true => exact ⟨h, hU.spend 3⟩
    | false => exact ⟨h.grow hgrown, hentered.spend 2⟩
  | true =>
    obtain ⟨g, d₂, result', d₃, he', hsuite, hdefers, hwritten, hplan⟩ := writeHost_of_gives hg
    obtain ⟨rfl, rfl⟩ := Prod.mk.inj (he.symm.trans he')
    obtain ⟨host, temp, hhost, hemit, rfl⟩ :=
      host_of_writeHost hw hentered hu (List.Subset.refl _) hwritten
    have hmem := List.mem_of_find?_eq_some hhost
    have hfile : (prepared host s.sdk (some Known.driverName)).file ∈ unit.files := by
      rwa [file_prepared]
    obtain ⟨hU₄, hread₄⟩ := hentered.emitTemp hw hu hfile hemit
    have hfilled := ((h.grow hgrown).emitTemp (hnew host hmem) hemit).grow
      (grown_recordUnit (g := ⟨s.session, true, units⟩) rfl unit.name)
    refine ⟨_, _, hplan, ?_, hU₄.recordUnit hw hu hl hsuite (hread₄.trans hread₁) hdefers⟩
    rw [Step.entryFile?, if_pos rfl, Step.host?, hhost]
    exact hfilled

/-- **The files of a unit** are written. -/
theorem Step.Filled.planUnit (hw : s.Works d₀) (hU : s.Underway d₀ recorded (n + unit.cost) d)
    (hu : unit ∈ s.units) (hl : Listed unit.name) (hdistinct : DistinctPaths unit.files)
    (hnew : ∀ file ∈ unit.files, ∀ m ∈ made, m.1.path.components ≠ file.path.components)
    (h : s.Filled d₀ made result d) :
    s.Filled d₀ (made ++ s.writtenIn unit (s.gives unit result d))
      (s.planUnit unit result d).1 (s.planUnit unit result d).2 := by
  obtain ⟨result', d', hplan, hfilled, hU'⟩ := h.give hw hU hu hl hnew
  -- of the files of the unit only the host is written already
  have hhost : ∀ file ∈ unit.files,
      (∃ m ∈ made ++ (s.entryFile? unit (s.gives unit result d)).toList.map
        (·, some Known.driverName), file.path.components = m.1.path.components) ↔
      s.entryFile? unit (s.gives unit result d) = some file := by
    intro file hf
    have hmade : ¬∃ m ∈ made, file.path.components = m.1.path.components := by
      rintro ⟨m, hm, heq⟩
      exact hnew file hf m hm heq.symm
    simp only [List.mem_append, or_and_right, exists_or, or_iff_right hmade]
    cases hentry : s.entryFile? unit (s.gives unit result d) with
    | none => simp
    | some host =>
      have hmem := List.mem_of_find?_eq_some (entryFile?_eq_some.1 hentry).2
      simp only [Option.toList_some, List.map_cons, List.map_nil, List.mem_singleton,
        exists_eq_left, Option.some.injEq]
      exact ⟨fun heq => List.inj_on_of_nodup_map hdistinct hmem hf heq.symm, fun heq => by rw [heq]⟩
  have hwritten := hfilled.writeChanged hw hU' hu (List.Subset.refl _) hdistinct hhost
  rw [hplan]
  rwa [List.append_assoc] at hwritten

/-- The files of a list of units that are written, by the units that are given a suite entry. -/
theorem mem_writtenFrom {rest : List TestUnit} {start : PathMap × Disk}
    {m : SourceFile × Option String} (hnodup : (rest.map TestUnit.name).Nodup) :
    m ∈ s.writtenFrom rest start ↔
      ∃ unit ∈ rest, m ∈ s.writtenIn unit (decide (unit.name ∈ s.givenFrom rest start)) := by
  induction rest generalizing start with
  | nil => simp [Step.writtenFrom]
  | cons first rest ih =>
    obtain ⟨result, d⟩ := start
    rw [List.map_cons, List.nodup_cons] at hnodup
    -- the units that are left have other names
    have hfirst : decide (first.name ∈ s.givenFrom (first :: rest) (result, d)) =
        s.gives first result d := by
      have hlater : first.name ∉ s.givenFrom rest (s.planUnit first result d) :=
        fun hm => hnodup.1 ((givenFrom_subset ..).subset hm)
      rw [Step.givenFrom, Bool.eq_iff_iff, decide_eq_true_iff, List.mem_append, or_iff_left hlater]
      cases s.gives first result d <;> simp
    have hrest : ∀ unit ∈ rest, decide (unit.name ∈ s.givenFrom (first :: rest) (result, d)) =
        decide (unit.name ∈ s.givenFrom rest (s.planUnit first result d)) := by
      intro unit hu
      have hne : unit.name ≠ first.name := fun he => hnodup.1 (he ▸ List.mem_map_of_mem hu)
      rw [Step.givenFrom, decide_eq_decide, List.mem_append, or_iff_right]
      split <;> simp [hne]
    rw [Step.writtenFrom, List.mem_append, ih hnodup.2, List.exists_mem_cons_iff, hfirst]
    refine or_congr_right (exists_congr fun unit => and_congr_right fun hu => ?_)
    rw [hrest unit hu]

/-- **A plan writes the files of its units**, one unit after the other. -/
theorem Step.Filled.planAll (hw : s.Works d₀) (hl : ∀ unit ∈ s.units, Listed unit.name)
    {rest : List TestUnit} (hsub : rest ⊆ s.units) (hnodup : (rest.map TestUnit.name).Nodup)
    (hdistinct : DistinctPaths (rest.flatMap (·.files)))
    (hU : s.Underway d₀ recorded (n + (rest.map TestUnit.cost).sum) d)
    (hnew : ∀ file ∈ rest.flatMap (·.files), ∀ m ∈ made,
      m.1.path.components ≠ file.path.components)
    (h : s.Filled d₀ made result d) :
    s.Filled d₀ (made ++ s.writtenFrom rest (result, d))
      (s.planAll rest (result, d)).1 (s.planAll rest (result, d)).2 := by
  induction rest generalizing made result d with
  | nil =>
    rw [Step.writtenFrom, List.append_nil]
    exact h
  | cons unit rest ih =>
    obtain ⟨hunit, hrest⟩ := List.cons_subset.1 hsub
    rw [List.map_cons, List.nodup_cons] at hnodup
    rw [DistinctPaths, List.flatMap_cons, List.map_append, List.nodup_append] at hdistinct
    obtain ⟨hhere, hthere, hapart⟩ := hdistinct
    rw [List.flatMap_cons, List.forall_mem_append] at hnew
    rw [sum_cost_cons] at hU
    have hfilled := h.planUnit hw hU hunit (hl unit hunit) hhere hnew.1
    have hU' : s.Underway d₀ recorded (n + (rest.map TestUnit.cost).sum)
        (s.planUnit unit result d).2 := (keeps_underway hw hl recorded).planUnit hunit hU
    -- no file of the units that are left is written by this one
    have hnew' : ∀ file ∈ rest.flatMap (·.files),
        ∀ m ∈ made ++ s.writtenIn unit (s.gives unit result d),
          m.1.path.components ≠ file.path.components := by
      intro file hf
      refine List.forall_mem_append.2 ⟨hnew.2 file hf, fun m hm => ?_⟩
      exact hapart _ (List.mem_map_of_mem (file_of_mem_writtenIn hm)) _ (List.mem_map_of_mem hf)
    have hall := ih hrest hnodup.2 hthere hU' hnew' hfilled
    rwa [List.append_assoc] at hall

/-- **The result of a whole plan.** -/
theorem filled_plan (hb : Built s) (hw : s.Works d) (hr : s.session.readUnits d = .ok recorded)
    (hdistinct : DistinctPaths (s.units.flatMap (·.files))) :
    s.Filled d (s.output d) (s.plan d).1 (s.plan d).2 := by
  have h := hw.underway hr
  rw [← Nat.zero_add (s.units.map TestUnit.cost).sum] at h
  have hstart : s.Filled d [] [] d := ⟨.refl _ d, by simp [PathMap.contains_iff], by simp⟩
  exact hstart.planAll hw hb.listed (List.Subset.refl _) hb.nodup hdistinct h (by simp)

theorem mem_output (hb : Built s) {m : SourceFile × Option String} : m ∈ s.output d ↔
    ∃ unit ∈ s.units, m ∈ s.writtenIn unit (decide (unit.name ∈ s.given d)) :=
  mem_writtenFrom hb.nodup

theorem file_of_mem_output {m : SourceFile × Option String} (hb : Built s) (h : m ∈ s.output d) :
    ∃ unit ∈ s.units, m.1 ∈ unit.files := by
  obtain ⟨unit, hu, hm⟩ := (mem_output hb).1 h
  exact ⟨unit, hu, file_of_mem_writtenIn hm⟩

/-! ### Said of the sources -/

/-- Whether the calls of a file are redirected: it has some and does not import the instrumentation
under its own name, and every new callee can be scanned behind what stands in front of its call. -/
def Step.Redirected (s : Step) (file : SourceFile) : Prop :=
  file.importsInstrumentation s.sdk = false ∧ file.callSites ≠ [] ∧
    ∀ c ∈ Patch.targets file s.sdk, Readable file.source (qualifier file s.sdk) c

/-- Whether a file can have the suite entry of its unit: it imports the testing package under a name
and not the instrumentation under its own, and every new callee can be scanned behind what stands in
front of its call, that of the suite entry by itself. -/
def Step.Carries (s : Step) (file : SourceFile) : Prop :=
  s.canHost file = true ∧
    (∀ c ∈ Patch.targets file s.sdk, Readable file.source (qualifier file s.sdk) c) ∧
    (scan (openText (entryQualifier file s.sdk) s.sdk.suiteEntry)).2 = none

/-- **The host of a unit**: the first of its files that can have the suite entry. -/
def Step.IsHost (s : Step) (unit : TestUnit) (file : SourceFile) : Prop :=
  ∃ front behind, unit.files = front ++ file :: behind ∧ s.Carries file ∧
    ∀ file' ∈ front, ¬s.Carries file'

theorem Step.IsHost.mem (h : s.IsHost unit file) : file ∈ unit.files := by
  obtain ⟨front, behind, hfiles, -⟩ := h
  simp [hfiles]

theorem Step.IsHost.carries (h : s.IsHost unit file) : s.Carries file := by
  obtain ⟨front, behind, -, hfile, -⟩ := h
  exact hfile

theorem carries_iff (hf : SourceFile.parse file.path file.source = .ok file) (hn : Named s.sdk)
    (hp : PlainPath s.sdk.importPath) : s.hostsEntry file = true ↔ s.Carries file := by
  rw [hostsEntry_iff, hosts_iff hf hn hp, Step.Carries]

theorem redirects_iff (hf : SourceFile.parse file.path file.source = .ok file) (hn : Named s.sdk)
    (hp : PlainPath s.sdk.importPath) : s.redirects file = true ↔ s.Redirected file := by
  have hcalls : file.callSites ≠ [] ↔ ¬Patch.targets file s.sdk = [] := by
    rw [← map_targets file s.sdk, ne_eq, List.map_eq_nil_iff]
  have hemits : (∃ text, (prepared file s.sdk none).emit = .ok text) ↔ _ := emits_iff hf hn hp nofun
  rw [Step.redirects, Bool.and_eq_true, isOk_iff, hemits, Bool.not_eq_true', ← Bool.not_eq_true,
    isEmpty_instrumentFile, not_or, Bool.not_eq_true, Step.Redirected, hcalls, and_assoc]
  simp

section

variable (hb : Built s) (hn : Named s.sdk) (hp : PlainPath s.sdk.importPath)

include hb hn hp

theorem host?_eq_some_iff (hu : unit ∈ s.units) :
    s.host? unit = some file ↔ s.IsHost unit file := by
  have hcarries : ∀ file ∈ unit.files, (s.hostsEntry file = true ↔ s.Carries file) :=
    fun file hf => carries_iff (hb.parsed unit hu file hf) hn hp
  rw [Step.host?, List.find?_eq_some_iff_append]
  constructor
  · rintro ⟨hfile, front, behind, hfiles, hfront⟩
    refine ⟨front, behind, hfiles, (hcarries file (by simp [hfiles])).1 hfile,
      fun file' hf hc => ?_⟩
    have hnot := hfront file' hf
    rw [(hcarries file' (by simp [hfiles, hf])).2 hc] at hnot
    exact Bool.false_ne_true hnot
  · rintro ⟨front, behind, hfiles, hfile, hfront⟩
    refine ⟨(hcarries file (by simp [hfiles])).2 hfile, front, behind, hfiles, fun file' hf => ?_⟩
    rw [Bool.not_eq_true', ← Bool.not_eq_true, hcarries file' (by simp [hfiles, hf])]
    exact hfront file' hf

/-- **What a plan writes**: the hosts of the units that are given a suite entry with it, and the
other files whose calls are redirected without. -/
theorem mem_output_iff : (file, entry) ∈ s.output d ↔ ∃ unit ∈ s.units,
    (entry = some Known.driverName ∧ unit.name ∈ s.given d ∧ s.IsHost unit file) ∨
      (entry = none ∧ file ∈ unit.files ∧ s.Redirected file ∧
        ¬(unit.name ∈ s.given d ∧ s.IsHost unit file)) := by
  rw [mem_output hb]
  refine exists_congr fun unit => and_congr_right fun hu => ?_
  rw [mem_writtenIn, host?_eq_some_iff hb hn hp hu, decide_eq_true_iff]
  refine or_congr_right (and_congr_right fun _ => and_congr_right fun hf => ?_)
  rw [redirects_iff (hb.parsed unit hu file hf) hn hp]

/-- A unit that is given a suite entry has a host. -/
theorem exists_host_of_given (hu : unit ∈ s.units) (h : unit.name ∈ s.given d) :
    ∃ file, s.IsHost unit file := by
  obtain ⟨unit', hu', hname, result, d', hgives⟩ := gives_of_givenFrom h
  obtain rfl := List.inj_on_of_nodup_map hb.nodup hu' hu hname
  obtain ⟨host, hhost⟩ := exists_host?_of_gives hgives
  exact ⟨host, (host?_eq_some_iff hb hn hp hu).1 hhost⟩

end

/-- **The keys of the result** are the paths of the files that were written. -/
theorem mem_keys_iff (hb : Built s) (hdistinct : DistinctPaths (s.units.flatMap (·.files)))
    (h : s.Filled d (s.output d) (s.plan d).1 (s.plan d).2) {path : Path} :
    path ∈ (s.plan d).1.map Prod.fst ↔ ∃ m ∈ s.output d, m.1.path = path := by
  have hplanned := (keeps_planned s d).plan (n := 0) ⟨.refl _ d, by simp, by simp⟩
  -- a key and a file with the same components are spelled alike
  have hspelled : ∀ e ∈ (s.plan d).1, ∀ m ∈ s.output d, e.1.components = m.1.path.components →
      m.1.path = e.1 := by
    intro e he m hm hsame
    obtain ⟨unit, hu, file, hf, hpath⟩ := hplanned.key e he
    obtain ⟨unit', hu', hf'⟩ := file_of_mem_output hb hm
    rw [hpath] at hsame ⊢
    rw [List.inj_on_of_nodup_map hdistinct (List.mem_flatMap.2 ⟨unit, hu, hf⟩)
      (List.mem_flatMap.2 ⟨unit', hu', hf'⟩) hsame]
  constructor
  · intro hpath
    obtain ⟨e, he, rfl⟩ := List.mem_map.1 hpath
    obtain ⟨m, hm, hsame⟩ := (h.key e.1).1 (PathMap.contains_iff.2 ⟨e, he, rfl⟩)
    exact ⟨m, hm, hspelled e he m hm hsame⟩
  · rintro ⟨m, hm, rfl⟩
    obtain ⟨e, he, hsame⟩ := PathMap.contains_iff.1 ((h.key m.1.path).2 ⟨m, hm, rfl⟩)
    exact List.mem_map.2 ⟨e, he, (hspelled e he m hm hsame.symm).symm⟩

/-- **A file that a plan rewrites**: where the changed file is, what it says, and what this
declares. With a suite entry that is one more at the end, and without none. -/
structure Step.Rewritten (s : Step) (d : Disk) (file : SourceFile) (entry : Option String)
    (temp : Path) (text : String) : Prop where
  key : (s.plan d).1.find? file.path = some temp
  read : (s.plan d).2.readText temp = .ok (tempText d file.path text)
  text_eq : text = substituted file (prepared file s.sdk entry).addedImports
    ((Action.instrument s.sdk).redirections (.new file)) ++ (prepared file s.sdk entry).appended
  outline : ∃ file', SourceFile.parse file.path text = .ok file' ∧
    file'.outline = file.outline.extended (prepared file s.sdk entry).addedImports entry

theorem rewritten_of_mem_output (hb : Built s) (hw : s.Works d) (hn : Named s.sdk)
    (hp : PlainPath s.sdk.importPath) (ht : s.sdk.importPath ≠ Known.testingPackage)
    (h : s.Filled d (s.output d) (s.plan d).1 (s.plan d).2) (he : Suited file entry)
    (hm : (file, entry) ∈ s.output d) : ∃ temp text, s.Rewritten d file entry temp text := by
  obtain ⟨unit, hu, hf⟩ := file_of_mem_output hb hm
  obtain ⟨temp, text, loc, hkey, hmade⟩ := h.written _ hm
  obtain ⟨-, hread⟩ := hmade.read (hmade.not_record hw.apart hu hf)
  have hparse := hb.parsed unit hu file hf
  exact ⟨temp, text, hkey, hread, text_of_prepared hparse hmade.emit,
    outline_of_emit hparse hn hp ht he hmade.emit⟩

/-- **What a plan comes to**, where directories work and paths are different. Its keys are the paths
of the files whose calls are redirected and of one host for each unit that is given a suite entry,
where a file counts only if its new callees can be scanned. A host has its calls redirected and a
suite entry, every other file has its calls redirected and gains none, and the record has the units
that were given one behind those that it had. -/
theorem planned_iff (hb : Built s) (hw : s.Works d) (hr : s.session.readUnits d = .ok recorded)
    (hn : Named s.sdk) (hp : PlainPath s.sdk.importPath)
    (ht : s.sdk.importPath ≠ Known.testingPackage)
    (hdistinct : DistinctPaths (s.units.flatMap (·.files))) :
    (∀ path, path ∈ (s.plan d).1.map Prod.fst ↔ ∃ unit ∈ s.units, ∃ file ∈ unit.files,
      file.path = path ∧ (s.Redirected file ∨ unit.name ∈ s.given d ∧ s.IsHost unit file)) ∧
    (∀ unit ∈ s.units, unit.name ∈ s.given d → ∃ file, s.IsHost unit file) ∧
    (∀ unit ∈ s.units, ∀ file ∈ unit.files,
      (unit.name ∈ s.given d ∧ s.IsHost unit file →
        ∃ temp text, s.Rewritten d file (some Known.driverName) temp text) ∧
      (s.Redirected file ∧ ¬(unit.name ∈ s.given d ∧ s.IsHost unit file) →
        ∃ temp text, s.Rewritten d file none temp text)) ∧
    s.session.readUnits (s.plan d).2 = .ok (recorded ++ (s.given d).filter (· ∉ recorded)) := by
  have hfilled := filled_plan hb hw hr hdistinct
  refine ⟨fun path => ?_, fun unit => exists_host_of_given hb hn hp, fun unit hu file hf => ?_,
    readUnits_plan hb hw hr⟩
  · rw [mem_keys_iff hb hdistinct hfilled]
    constructor
    · rintro ⟨⟨file, entry⟩, hm, rfl⟩
      obtain ⟨unit, hu, ⟨-, hg, hhost⟩ | ⟨-, hf, hfile, -⟩⟩ := (mem_output_iff hb hn hp).1 hm
      · exact ⟨unit, hu, file, hhost.mem, rfl, .inr ⟨hg, hhost⟩⟩
      · exact ⟨unit, hu, file, hf, rfl, .inl hfile⟩
    · rintro ⟨unit, hu, file, hf, rfl, hcase⟩
      -- the host is in the output once, with its suite entry
      by_cases hhost : unit.name ∈ s.given d ∧ s.IsHost unit file
      · exact ⟨_, (mem_output_iff hb hn hp).2 ⟨unit, hu, .inl ⟨rfl, hhost⟩⟩, rfl⟩
      · exact ⟨_, (mem_output_iff hb hn hp).2
          ⟨unit, hu, .inr ⟨rfl, hf, hcase.resolve_right hhost, hhost⟩⟩, rfl⟩
  · constructor
    · rintro ⟨hg, hhost⟩
      exact rewritten_of_mem_output hb hw hn hp ht hfilled (suited_driver hhost.carries.1)
        ((mem_output_iff hb hn hp).2 ⟨unit, hu, .inl ⟨rfl, hg, hhost⟩⟩)
    · rintro ⟨hfile, hnot⟩
      exact rewritten_of_mem_output hb hw hn hp ht hfilled nofun
        ((mem_output_iff hb hn hp).2 ⟨unit, hu, .inr ⟨rfl, hf, hfile, hnot⟩⟩)

/-- The step of a file whose only call stands directly behind a number. -/
def fusedStep (file : SourceFile) : Step := (Step.new "b" fusing ⟨"/tmp"⟩).addFile file

theorem not_planned_of_fusedCall : ∃ file, SourceFile.parse ⟨"a_test.go"⟩ fusedCall = .ok file ∧
    file.callSites ≠ [] ∧ (fusedStep file).canHost file = true ∧ file.hasSuiteEntry = false ∧
    ⟨"a_test.go"⟩ ∉ ((fusedStep file).plan bareDisk).1.map Prod.fst ∧
    (fusedStep file).given bareDisk = [] := by
  have hparsed : ∃ file, SourceFile.parse ⟨"a_test.go"⟩ fusedCall = .ok file ∧
      file.path = ⟨"a_test.go"⟩ ∧ file.callSites ≠ [] ∧ (fusedStep file).canHost file = true ∧
      file.hasSuiteEntry = false ∧
      ¬∀ c ∈ Patch.targets file fusing, Readable file.source (qualifier file fusing) c :=
    exists_parsed (by decide +kernel)
  obtain ⟨file, hf, hpath, hcalls, hcan, hsuite, hunreadable⟩ := hparsed
  have hn : Named fusing := ⟨by decide +kernel, by decide, by decide⟩
  have ht : fusing.importPath ≠ Known.testingPackage := by decide
  have hunits : (fusedStep file).units = [⟨file.package, [file]⟩] := rfl
  have hw : (fusedStep file).Works bareDisk := by
    refine works_bareDisk rfl rfl ?_ ?_
    · rw [hunits]
      simp [hpath]
    · rw [hunits]
      simp [TestUnit.cost]
  have hdistinct : DistinctPaths ((fusedStep file).units.flatMap (·.files)) := by
    rw [hunits]
    exact List.nodup_singleton _
  obtain ⟨hkeys, hhost, -⟩ := planned_iff (.addFile hf (.new ..)) hw readUnits_bareDisk hn
    plainPath_default ht hdistinct
  -- the only file can neither be rewritten nor be a host
  have hnone : ∀ unit ∈ (fusedStep file).units, ∀ file' ∈ unit.files,
      ¬(fusedStep file).Redirected file' ∧ ¬(fusedStep file).IsHost unit file' := by
    rw [hunits]
    simp only [List.mem_singleton, forall_eq]
    exact ⟨fun h => hunreadable h.2.2, fun h => hunreadable h.carries.2.1⟩
  refine ⟨file, hf, hcalls, hcan, hsuite, fun hm => ?_, ?_⟩
  · obtain ⟨unit, hu, file', hf', -, hcase⟩ := (hkeys _).1 hm
    obtain ⟨hredirected, hnohost⟩ := hnone unit hu file' hf'
    exact hcase.elim hredirected fun h => hnohost h.2
  · refine List.eq_nil_iff_forall_not_mem.2 fun name hm => ?_
    obtain ⟨unit, hu, rfl⟩ := List.mem_map.1 ((givenFrom_subset ..).subset hm)
    obtain ⟨file', hfile'⟩ := hhost unit hu hm
    exact (hnone unit hu file' hfile'.mem).2 hfile'

end TestWeave.Build
