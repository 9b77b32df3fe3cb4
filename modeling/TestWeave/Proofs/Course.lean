import TestWeave.Proofs.Growth
import TestWeave.Proofs.Ownership

/-!
# The course of a plan

A plan goes from unit to unit, and within a unit from file to file. What every single thing that it
does keeps holds of the whole plan.

* `Step.Keeps`: what is kept by all that a plan does; `Step.Keeps.plan`: so it is by the plan.
* `Step.Works`: the directories of a step can be used; `Step.Underway`: what holds in the middle of
  its plan then.
* `Step.Made`: a changed file that was written; `Step.Made.grown`: it stays as it is.
-/

namespace TestWeave.Build

open TestWeave.Change TestWeave.Host TestWeave.Source

/-! ### Temporary files -/

/-- A file name stands between slashes. -/
theorem not_slash_of_fileName? {p : Path} {name : String} (h : p.fileName? = some name) :
    '/' ∉ name.toList := by
  unfold Path.fileName? at h
  split at h
  · rename_i s hlast
    obtain rfl : s = name := by simpa using h
    have hmem := List.mem_of_getLast? hlast
    unfold Path.components at hmem
    generalize Path.lead p.text.toList = split at hmem
    obtain ⟨head, body⟩ := split
    simp only [List.mem_append] at hmem
    rcases hmem with hmem | hmem
    · split at hmem <;> simp at hmem
    · obtain ⟨segment, hsegment, hname⟩ := List.mem_map.1 hmem
      unfold Path.componentOf at hname
      split at hname
      · simp at hname
      · obtain rfl : String.ofList segment = s := by simpa using hname
        rw [String.toList_ofList]
        intro hc
        simpa using (splits _ _).not_sep (List.mem_of_mem_filter hsegment) _ hc
  · simp at h

theorem splitExtension_subset (name : String) :
    (Path.splitExtension name).1.toList ⊆ name.toList ∧
      ∀ extension ∈ (Path.splitExtension name).2, extension.toList ⊆ name.toList := by
  unfold Path.splitExtension
  simp only
  split
  · exact ⟨List.Subset.refl _, by simp⟩
  · refine ⟨?_, ?_⟩
    · intro c hc
      rw [String.toList_ofList] at hc
      have := (List.dropWhile_sublist _).subset
        (List.mem_reverse.1 ((List.dropLast_sublist _).subset hc))
      exact List.mem_reverse.1 this
    · rintro _ ⟨⟩ c hc
      rw [String.toList_ofList, List.mem_reverse] at hc
      exact List.mem_reverse.1 ((List.takeWhile_sublist _).subset hc)

/-- The names of temporary files stand for one file of their directory. -/
theorem plain_tempName (path : Path) (k : Nat) :
    Disk.Plain (Disk.tempName (path.fileStem?.getD "" ++ "_")
      ("_" ++ (path.extension?.map ("." ++ ·)).getD "") k) := by
  refine Disk.plain_numbered (fun hc => ?_) (fun hc => ?_) k
  · rw [String.toList_append, List.mem_append] at hc
    rcases hc with hc | hc
    · unfold Path.fileStem? at hc
      cases hn : path.fileName? with
      | none => simp [hn] at hc
      | some name =>
        rw [hn] at hc
        exact not_slash_of_fileName? hn ((splitExtension_subset name).1 hc)
    · exact absurd hc (by decide)
  · rw [String.toList_append, List.mem_append] at hc
    rcases hc with hc | hc
    · exact absurd hc (by decide)
    · unfold Path.extension? at hc
      cases hn : path.fileName? with
      | none => simp [hn] at hc
      | some name =>
        cases he : (Path.splitExtension name).2 with
        | none => simp [hn, he] at hc
        | some extension =>
          have hc : '/' = '.' ∨ '/' ∈ extension.toList := by simpa [hn, he] using hc
          refine not_slash_of_fileName? hn ((splitExtension_subset name).2 _ he ?_)
          exact hc.resolve_left (by decide)

/-- The `k`-th name for the temporary file of a source. -/
def tempPath (d : Disk) (tempDir path : Path) (k : Nat) : Path :=
  (d.cwdPath.join tempDir).join ⟨Disk.tempName (path.fileStem?.getD "" ++ "_")
    ("_" ++ (path.extension?.map ("." ++ ·)).getD "") k⟩

theorem tempPath_grown {P : Location → Prop} {d d' : Disk} (h : Disk.Grown P d d')
    (tempDir path : Path) (k : Nat) : tempPath d' tempDir path k = tempPath d tempDir path k := by
  rw [tempPath, tempPath, h.cwdPath]

variable {s : Step} {d d' d₁ : Disk} {result : PathMap} {tempDir temp : Path} {p : Patch}

/-- **A changed file that is written**: where it is, and what it says. -/
theorem emitTemp_eq_some (h : emitTemp d tempDir p = (some temp, d')) :
    ∃ source k loc, p.emit = .ok source ∧ temp = tempPath d tempDir p.file.path k ∧
      d.resolve temp = .ok loc ∧ d.get? loc = none ∧
      d' = d.set loc (.file (tempText d p.file.path source).toUTF8 false) ∧
      d'.readText temp = .ok (tempText d p.file.path source) := by
  unfold emitTemp at h
  cases hemit : p.emit with
  | error => rw [hemit] at h; cases h
  | ok source =>
    rcases hw : writeTemp d tempDir p.file.path source with ⟨_ | written, t⟩
    · simp only [hemit, hw] at h
      cases h
    · simp only [hemit, hw] at h
      obtain ⟨rfl, rfl⟩ : written = temp ∧ t = d' := by simpa using h
      rw [writeTemp] at hw
      obtain ⟨k, loc, htemp, hr, hg, hd⟩ := Disk.createTemp_eq_ok hw
      exact ⟨source, k, loc, rfl, htemp, hr, hg, hd,
        Disk.readText_createTemp (plain_tempName p.file.path) hw⟩

/-- Of a changed file that is not written nothing is left. -/
theorem emitTemp_eq_none (h : emitTemp d tempDir p = (none, d')) : d' = d := by
  unfold emitTemp at h
  cases hemit : p.emit with
  | error => rw [hemit] at h; exact (Prod.mk.inj h).2.symm
  | ok source =>
    rcases hw : writeTemp d tempDir p.file.path source with ⟨_ | written, t⟩
    · simp only [hemit, hw] at h
      rw [← (Prod.mk.inj h).2]
      exact Disk.createTemp_eq_error hw
    · simp only [hemit, hw] at h
      cases h

/-- A changed file can be written while there is room for it and writes get through. -/
theorem exists_emitTemp {source : String} {loc : Location} (hd : d.Reliable)
    (he : p.emit = .ok source) (hr : d.resolve (tempPath d tempDir p.file.path 0) = .ok loc)
    (hroom : d.Room tempDir 1) : ∃ temp d', emitTemp d tempDir p = (some temp, d') := by
  rw [tempPath] at hr
  have hcreate := Disk.exists_createTemp (tempText d p.file.path source).toUTF8 hd
    (plain_tempName p.file.path) hr hroom
  obtain ⟨temp, d', hw⟩ := hcreate
  refine ⟨temp, d', ?_⟩
  rw [emitTemp, he]
  simp only [writeTemp, hw]

/-- Whether a changed file is written, while there is room for it and writes get through. -/
theorem isSome_emitTemp (hd : d.Reliable) (hroom : d.Room tempDir 1) :
    (emitTemp d tempDir p).1.isSome = true ↔ (∃ source, p.emit = .ok source) ∧
      ∃ loc, d.resolve (tempPath d tempDir p.file.path 0) = .ok loc := by
  constructor
  · intro hsome
    obtain ⟨temp, hwritten⟩ := Option.isSome_iff_exists.1 hsome
    obtain ⟨source, k, loc, hemit, rfl, hr, -⟩ := emitTemp_eq_some (Prod.ext hwritten rfl)
    exact ⟨⟨source, hemit⟩, _, Disk.resolve_tempName (plain_tempName p.file.path) hr 0⟩
  · rintro ⟨⟨source, hemit⟩, loc, hr⟩
    obtain ⟨temp, d', hwritten⟩ := exists_emitTemp hd hemit hr hroom
    rw [hwritten]
    rfl

/-! ### What a plan does -/

theorem canHost_eq_true {file : SourceFile} : s.canHost file = true ↔
    file.importsInstrumentation s.sdk = false ∧
      (file.localName? Known.testingPackage).isSome = true := by
  simp [Step.canHost]

theorem instrumentFile_of_foreign {file : SourceFile}
    (h : file.importsInstrumentation s.sdk = false) :
    s.instrumentFile file = prepared file s.sdk none := by
  rw [Step.instrumentFile, h]
  rfl

theorem file_instrumentFile (s : Step) (file : SourceFile) :
    (s.instrumentFile file).file = file := by
  cases h : file.importsInstrumentation s.sdk with
  | true => rw [Step.instrumentFile, h]; rfl
  | false => rw [instrumentFile_of_foreign h, file_prepared]

/-- A patch that changes something is that of a file which does not import the instrumentation
under its own name. -/
theorem foreign_of_changed {file : SourceFile} (h : (s.instrumentFile file).isEmpty = false) :
    file.importsInstrumentation s.sdk = false := by
  by_contra hi
  rw [Step.instrumentFile, eq_true_of_ne_false hi] at h
  exact Bool.false_ne_true h.symm

theorem appendSuiteEntry_instrumentFile {file : SourceFile} (h : s.canHost file = true) :
    (s.instrumentFile file).appendSuiteEntry s.sdk Known.driverName =
      prepared file s.sdk (some Known.driverName) := by
  rw [instrumentFile_of_foreign (canHost_eq_true.1 h).1]
  rfl

/-- **The file that is given a suite entry.** -/
theorem writeHost_eq_some {files : List SourceFile} {result' : PathMap}
    (h : s.writeHost d result (files.map s.instrumentFile) = (some result', d')) :
    ∃ file ∈ files, s.canHost file = true ∧ ∃ temp,
      emitTemp d s.tempDir (prepared file s.sdk (some Known.driverName)) = (some temp, d') ∧
      result' = result.insert file.path temp := by
  induction files with
  | nil => simp [Step.writeHost] at h
  | cons file files ih =>
    -- a file that cannot have the suite entry is passed over, and so is one that cannot be written
    have hrest : s.writeHost d result (files.map s.instrumentFile) = (some result', d') →
        ∃ file' ∈ file :: files, s.canHost file' = true ∧ ∃ temp,
          emitTemp d s.tempDir (prepared file' s.sdk (some Known.driverName)) = (some temp, d') ∧
          result' = result.insert file'.path temp := by
      intro h
      obtain ⟨file', hmem, hrest⟩ := ih h
      exact ⟨file', List.mem_cons_of_mem _ hmem, hrest⟩
    rw [List.map_cons, Step.writeHost, file_instrumentFile] at h
    by_cases hc : s.canHost file = true
    · rw [if_pos hc, appendSuiteEntry_instrumentFile hc] at h
      rcases he : emitTemp d s.tempDir (prepared file s.sdk (some Known.driverName)) with
        ⟨_ | temp, t⟩
      · rw [he] at h
        obtain rfl := emitTemp_eq_none he
        exact hrest h
      · rw [he] at h
        obtain ⟨rfl, rfl⟩ : result.insert file.path temp = result' ∧ t = d' := by simpa using h
        exact ⟨file, by simp, hc, temp, he, rfl⟩
    · rw [if_neg hc] at h
      exact hrest h

/-- Where no file is given a suite entry nothing is written. -/
theorem writeHost_eq_none {files : List SourceFile}
    (h : s.writeHost d result (files.map s.instrumentFile) = (none, d')) : d' = d := by
  induction files with
  | nil => exact (Prod.mk.inj h).2.symm
  | cons file files ih =>
    rw [List.map_cons, Step.writeHost, file_instrumentFile] at h
    by_cases hc : s.canHost file = true
    · rw [if_pos hc] at h
      rcases he : emitTemp d s.tempDir
          ((s.instrumentFile file).appendSuiteEntry s.sdk Known.driverName) with ⟨_ | temp, t⟩
      · rw [he] at h
        obtain rfl := emitTemp_eq_none he
        exact ih h
      · rw [he] at h
        cases h
    · rw [if_neg hc] at h
      exact ih h

/-- **What is kept when the calls of files are redirected.** The number says how many files may still
be written. -/
structure Step.KeepsRedirected (s : Step) (I : Nat → PathMap → Disk → Prop) : Prop where
  spend : ∀ {n result d}, I (n + 1) result d → I n result d
  redirect : ∀ {n result d unit file temp d'}, unit ∈ s.units → file ∈ unit.files →
    file.importsInstrumentation s.sdk = false → (prepared file s.sdk none).isEmpty = false →
    emitTemp d s.tempDir (prepared file s.sdk none) = (some temp, d') →
    I (n + 1) result d → I n (result.insert file.path temp) d'

/-- **What is kept by all that a plan does.** -/
structure Step.Keeps (s : Step) (I : Nat → PathMap → Disk → Prop) : Prop
    extends s.KeepsRedirected I where
  enter : ∀ {n result d}, I (n + 1) result d → I n result (s.session.enter d).2
  /-- A unit is given a suite entry and recorded. -/
  host : ∀ {n result d d₁ g unit file temp d'}, unit ∈ s.units → unit.hasSuiteEntry = false →
    s.session.enter d = (g, d₁) → s.defers unit.name g.units = false → file ∈ unit.files →
    s.canHost file = true →
    emitTemp d₁ s.tempDir (prepared file s.sdk (some Known.driverName)) = (some temp, d') →
    I (n + 3) result d → I n (result.insert file.path temp) (g.record unit.name d').2.2

/-- How many files the plan of a unit may write. -/
def TestUnit.cost (unit : TestUnit) : Nat := unit.files.length + 3

theorem sum_cost_cons (n : Nat) (unit : TestUnit) (units : List TestUnit) :
    n + ((unit :: units).map TestUnit.cost).sum =
      n + (units.map TestUnit.cost).sum + unit.cost := by
  rw [List.map_cons, List.sum_cons]
  omega

section

variable {I : Nat → PathMap → Disk → Prop} {n : Nat} {unit : TestUnit}

theorem Step.Keeps.spendAll (h : s.Keeps I) (m : Nat) (hI : I (n + m) result d) :
    I n result d := by
  induction m with
  | zero => exact hI
  | succ m ih => exact ih (h.spend hI)

/-- A section over the record, as far as it is entered. -/
theorem synthesize_cases (s : Step) (unit : TestUnit) (result : PathMap) (d : Disk) :
    ∃ g d₁, s.session.enter d = (g, d₁) ∧
      ((s.defers unit.name g.units = true ∨
          s.writeHost d₁ result (unit.files.map s.instrumentFile) = (none, d₁)) ∧
        s.synthesize unit (unit.files.map s.instrumentFile) result d = (result, d₁) ∨
      s.defers unit.name g.units = false ∧ ∃ result' d₂,
        s.writeHost d₁ result (unit.files.map s.instrumentFile) = (some result', d₂) ∧
        s.synthesize unit (unit.files.map s.instrumentFile) result d =
          (result', (g.record unit.name d₂).2.2)) := by
  rcases he : s.session.enter d with ⟨g, d₁⟩
  refine ⟨g, d₁, rfl, ?_⟩
  unfold Step.synthesize
  simp only [he]
  cases hd : s.defers unit.name g.units with
  | true => exact .inl ⟨.inl rfl, rfl⟩
  | false =>
    rcases hw : s.writeHost d₁ result (unit.files.map s.instrumentFile) with ⟨_ | result', d₂⟩
    · obtain rfl := writeHost_eq_none hw
      exact .inl ⟨.inr rfl, rfl⟩
    · exact .inr ⟨rfl, result', d₂, rfl, rfl⟩

theorem Step.Keeps.synthesize (h : s.Keeps I) (hu : unit ∈ s.units)
    (hsuite : unit.hasSuiteEntry = false) (hI : I (n + 3) result d) :
    I n (s.synthesize unit (unit.files.map s.instrumentFile) result d).1
      (s.synthesize unit (unit.files.map s.instrumentFile) result d).2 := by
  obtain ⟨g, d₁, he, ⟨-, hs⟩ | ⟨hd, result', d₂, hw, hs⟩⟩ := synthesize_cases s unit result d
  · have hentered := h.enter hI
    rw [he] at hentered
    rw [hs]
    exact h.spendAll 2 hentered
  · -- the suite entry is written and recorded in one section
    obtain ⟨file, hmem, hc, temp, hemit, rfl⟩ := writeHost_eq_some hw
    rw [hs]
    exact h.host hu hsuite he hd hmem hc hemit hI

theorem Step.KeepsRedirected.writeChanged (h : s.KeepsRedirected I) (hu : unit ∈ s.units)
    {files : List SourceFile}
    (hsub : files ⊆ unit.files) (hI : I (n + files.length) result d) :
    I n (s.writeChanged result d (files.map s.instrumentFile)).1
      (s.writeChanged result d (files.map s.instrumentFile)).2 := by
  induction files generalizing result d with
  | nil => exact hI
  | cons file files ih =>
    obtain ⟨hfile, hfiles⟩ := List.cons_subset.1 hsub
    have hI : I (n + files.length + 1) result d := by
      have : n + (file :: files).length = n + files.length + 1 := by
        rw [List.length_cons]
        omega
      rwa [this] at hI
    rw [List.map_cons, Step.writeChanged, file_instrumentFile]
    -- a step is spent whether or not the file is written
    by_cases hskip : ((s.instrumentFile file).isEmpty || result.contains file.path) = true
    · rw [if_pos hskip]
      exact ih hfiles (h.spend hI)
    · rw [if_neg hskip]
      have hchanged : (s.instrumentFile file).isEmpty = false := by
        by_contra he
        simp [eq_true_of_ne_false he] at hskip
      have hforeign := foreign_of_changed hchanged
      rw [instrumentFile_of_foreign hforeign] at hchanged ⊢
      rcases he : emitTemp d s.tempDir (prepared file s.sdk none) with ⟨_ | temp, t⟩
      · obtain rfl := emitTemp_eq_none he
        exact ih hfiles (h.spend hI)
      · exact ih hfiles (h.redirect hu hfile hforeign hchanged he hI)

theorem planUnit_of_entry (h : unit.hasSuiteEntry = true) : s.planUnit unit result d =
    s.writeChanged result d (unit.files.map s.instrumentFile) := by
  simp [Step.planUnit, h]

theorem planUnit_of_no_entry (h : unit.hasSuiteEntry = false) : s.planUnit unit result d =
    s.writeChanged (s.synthesize unit (unit.files.map s.instrumentFile) result d).1
      (s.synthesize unit (unit.files.map s.instrumentFile) result d).2
      (unit.files.map s.instrumentFile) := by
  simp [Step.planUnit, h]

theorem Step.Keeps.planUnit (h : s.Keeps I) (hu : unit ∈ s.units)
    (hI : I (n + unit.cost) result d) :
    I n (s.planUnit unit result d).1 (s.planUnit unit result d).2 := by
  have hcost : n + unit.cost = n + unit.files.length + 3 := by
    rw [TestUnit.cost]
    omega
  rw [hcost] at hI
  cases hsuite : unit.hasSuiteEntry with
  | true =>
    rw [planUnit_of_entry hsuite]
    exact h.toKeepsRedirected.writeChanged hu (List.Subset.refl _) (h.spendAll 3 hI)
  | false =>
    rw [planUnit_of_no_entry hsuite]
    exact h.toKeepsRedirected.writeChanged hu (List.Subset.refl _) (h.synthesize hu hsuite hI)

theorem Step.Keeps.planAll (h : s.Keeps I) {units : List TestUnit} (hu : units ⊆ s.units)
    (hI : I (n + (units.map TestUnit.cost).sum) result d) :
    I n (s.planAll units (result, d)).1 (s.planAll units (result, d)).2 := by
  induction units generalizing result d with
  | nil => exact hI
  | cons unit units ih =>
    obtain ⟨hunit, hunits⟩ := List.cons_subset.1 hu
    rw [sum_cost_cons] at hI
    exact ih hunits (h.planUnit hunit hI)

/-- **What all that a plan does keeps, the plan keeps.** -/
theorem Step.Keeps.plan (h : s.Keeps I) (hI : I (n + (s.units.map TestUnit.cost).sum) [] d) :
    I n (s.plan d).1 (s.plan d).2 := h.planAll (List.Subset.refl _) hI

end

/-! ### Disks that grow -/

/-- Where the record of the session is. -/
def Step.AtRecord (s : Step) (d : Disk) (loc : Location) : Prop :=
  d.resolve s.session.path = .ok loc

theorem grown_lock (P : Location → Prop) (session : Session) (d : Disk) :
    Disk.Grown P d (session.lock d).2 :=
  Session.lock_disk (.refl P d) fun _ ht => Disk.grown_touch ht

theorem grown_enter (P : Location → Prop) (session : Session) (d : Disk) :
    Disk.Grown P d (session.enter d).2 :=
  session.enter_snd d ▸ grown_lock P session d

theorem grown_record {P : Location → Prop} {g : Guard}
    (hp : ∀ loc, d.resolve g.session.path = .ok loc → P loc) (unit : String) :
    Disk.Grown P d (g.record unit d).2.2 :=
  g.record_disk unit (.refl P d) fun _ _ hw => Disk.grown_write hw hp

theorem grown_emitTemp {P : Location → Prop} (h : emitTemp d tempDir p = (some temp, d')) :
    Disk.Grown P d d' := by
  obtain ⟨source, k, loc, -, -, -, hg, rfl, -⟩ := emitTemp_eq_some h
  exact .set_of_free hg

/-- What a section that is entered leaves as it is. -/
theorem grown_of_enter {session : Session} {g : Guard} (h : session.enter d = (g, d'))
    (P : Location → Prop) : Disk.Grown P d d' ∧ g.session = session := by
  have hgrown := grown_enter P session d
  rw [h] at hgrown
  exact ⟨hgrown, (units_of_enter h).1⟩

theorem grown_recordUnit {g : Guard} (h : g.session = s.session) (unit : String) :
    Disk.Grown (s.AtRecord d) d (g.record unit d).2.2 :=
  grown_record (fun loc hr => by rwa [h] at hr) unit

/-- The place of the record stays the same. -/
theorem atRecord_grown {d₀ : Disk} (hd : Disk.Grown (s.AtRecord d₀) d₀ d)
    (hg : Disk.Grown (s.AtRecord d) d d') : Disk.Grown (s.AtRecord d₀) d d' :=
  hg.mono fun loc => (hd.resolve s.session.path loc).1

/-- **A plan adds files**, and rewrites none but the record. -/
theorem keeps_grown (s : Step) (d₀ : Disk) :
    s.Keeps fun _ _ d => Disk.Grown (s.AtRecord d₀) d₀ d where
  spend h := h
  enter h := h.trans (grown_enter _ s.session _)
  host := by
    intro n result d d₁ g unit file temp d' _ _ he _ _ _ hemit h
    obtain ⟨hentered, hsession⟩ := grown_of_enter he (s.AtRecord d₀)
    have hwritten := (h.trans hentered).trans (grown_emitTemp hemit)
    exact hwritten.trans (atRecord_grown hwritten (grown_recordUnit hsession unit.name))
  redirect := by
    intro n result d unit file temp d' _ _ _ _ hemit h
    exact h.trans (grown_emitTemp hemit)

theorem grown_plan (s : Step) (d : Disk) : Disk.Grown (s.AtRecord d) d (s.plan d).2 :=
  (keeps_grown s d).plan (n := 0) (.refl _ d)

/-- No name for a temporary file is that of the record. -/
def Step.Apart (s : Step) (d : Disk) : Prop :=
  ∀ unit ∈ s.units, ∀ file ∈ unit.files, ∀ k loc,
    d.resolve (tempPath d s.tempDir file.path k) = .ok loc → ¬s.AtRecord d loc

/-! ### Room -/

section

variable {dir : Path} {n : Nat}

theorem room_emitTemp (hr : d.Room dir (n + 1)) (h : emitTemp d tempDir p = (some temp, d')) :
    d'.Room dir n := by
  obtain ⟨source, k, loc, -, -, -, hg, rfl, -⟩ := emitTemp_eq_some h
  exact hr.set (by simp [hg])

theorem room_enter (hr : d.Room dir (n + 1)) (session : Session) :
    (session.enter d).2.Room dir n := by
  rw [Session.enter_snd]
  exact Session.lock_disk (hr.mono (Nat.le_succ n)) fun _ ht => hr.touch ht

theorem room_record (hr : d.Room dir (n + 1)) (g : Guard) (unit : String) :
    (g.record unit d).2.2.Room dir n :=
  g.record_disk unit (hr.mono (Nat.le_succ n)) fun _ _ hw => hr.write hw

/-- What a plan does takes no more room than the files that it may write. -/
theorem keeps_room (s : Step) (dir : Path) (m : Nat) :
    s.Keeps fun n _ d => d.Room dir (m + n) where
  spend h := h.mono (Nat.le_succ _)
  enter h := room_enter h s.session
  host := by
    intro n result d d₁ g unit file temp d' _ _ he _ _ _ hemit h
    have hentered : (s.session.enter d).2.Room dir (m + n + 1 + 1) := room_enter h s.session
    rw [he] at hentered
    exact room_record (room_emitTemp hentered hemit) g unit.name
  redirect := by
    intro n result d unit file temp d' _ _ _ _ hemit h
    exact room_emitTemp h hemit

/-- **A plan leaves the room** that it does not take. -/
theorem room_plan (s : Step) (h : d.Room dir (n + (s.units.map TestUnit.cost).sum)) :
    (s.plan d).2.Room dir n :=
  (keeps_room s dir n).plan (n := 0) (by rwa [Nat.zero_add])

end

/-! ### Changed files -/

theorem tempText_grown {P : Location → Prop} (h : Disk.Grown P d d') (path : Path)
    (source : String) : tempText d' path source = tempText d path source := by
  rw [tempText, tempText, sourcePath, sourcePath, h.cwdPath]

/-- **A changed file that was written**: what it was made from, and what it says. What stands at the
place of the record may have been written over. -/
structure Step.Made (s : Step) (d₀ d : Disk) (temp : Path) (file : SourceFile)
    (entry : Option String) (text : String) (loc : Location) : Prop where
  emit : (prepared file s.sdk entry).emit = .ok text
  name : ∃ k, temp = tempPath d₀ s.tempDir file.path k
  place : d₀.resolve temp = .ok loc
  read : ¬s.AtRecord d₀ loc →
    d₀.get? loc = none ∧ d.readText temp = .ok (tempText d₀ file.path text)

section

variable {d₀ : Disk} {file : SourceFile} {entry : Option String} {text : String} {loc : Location}

theorem Step.Made.grown (h : s.Made d₀ d temp file entry text loc)
    (hd : Disk.Grown (s.AtRecord d₀) d₀ d) (hg : Disk.Grown (s.AtRecord d) d d') :
    s.Made d₀ d' temp file entry text loc := by
  refine { h with read := fun hnot => ?_ }
  obtain ⟨hfree, hread⟩ := h.read hnot
  refine ⟨hfree, hg.readText hread fun loc' hr hat => hnot ?_⟩
  obtain rfl : loc' = loc := Except.ok.inj (hr.symm.trans ((hd.resolve temp loc).2 h.place))
  exact (hd.resolve _ _).1 hat

theorem made_of_emitTemp (hd : Disk.Grown (s.AtRecord d₀) d₀ d)
    (h : emitTemp d s.tempDir (prepared file s.sdk entry) = (some temp, d')) :
    ∃ text loc, s.Made d₀ d' temp file entry text loc := by
  obtain ⟨text, k, loc, hemit, htemp, hr, hfree, -, hread⟩ := emitTemp_eq_some h
  rw [file_prepared, tempText_grown hd] at hread
  rw [file_prepared, tempPath_grown hd] at htemp
  refine ⟨text, loc, hemit, ⟨k, htemp⟩, (hd.resolve _ _).1 hr, fun hnot => ⟨?_, hread⟩⟩
  by_contra hnode
  obtain ⟨node, hnode⟩ := Option.ne_none_iff_exists'.1 hnode
  rw [hd.file loc node hnode hnot] at hfree
  simp at hfree

/-- Where no name is that of the record, nothing is written in its place. -/
theorem Step.Made.not_record (h : s.Made d₀ d temp file entry text loc) (ha : s.Apart d₀)
    {unit : TestUnit} (hu : unit ∈ s.units) (hf : file ∈ unit.files) : ¬s.AtRecord d₀ loc := by
  obtain ⟨k, rfl⟩ := h.name
  exact ha unit hu file hf k loc h.place

end

/-! ### Directories that work -/

/-- **The directories of a step work**: writes get through, the file of the lock can be opened,
temporary files can be made for all files, and there is room for them. -/
structure Step.Works (s : Step) (d : Disk) : Prop where
  reliable : d.Reliable
  lock : d.Writable s.session.lockPath
  temp : ∀ unit ∈ s.units, ∀ file ∈ unit.files,
    ∃ loc, d.resolve (tempPath d s.tempDir file.path 0) = .ok loc
  room : d.Room s.tempDir (s.units.map TestUnit.cost).sum
  apart : s.Apart d

/-- What holds in the middle of a plan that began on the disk `d₀` with a record of `recorded`, if
`n` more files may be written. -/
structure Step.Underway (s : Step) (d₀ : Disk) (recorded : List String) (n : Nat) (d : Disk) :
    Prop where
  grown : Disk.Grown (s.AtRecord d₀) d₀ d
  room : d.Room s.tempDir n
  record : ∃ units, s.session.readUnits d = .ok units ∧ recorded ⊆ units ∧
    ∀ u ∈ units, u ∈ recorded ∨ ∃ v ∈ s.units, v.name = u ∧ v.hasSuiteEntry = false ∧
      s.defers u recorded = false

/-- What is deferred stays so when more is recorded. -/
theorem defers_mono {unit : String} {recorded units : List String} (hsub : recorded ⊆ units)
    (h : s.defers unit units = false) : s.defers unit recorded = false := by
  unfold Step.defers at h ⊢
  split at h
  · simp only [List.contains_eq_mem, decide_eq_false_iff_not] at h ⊢
    exact fun hm => h (hsub hm)
  · simp only [List.contains_eq_mem, Bool.or_eq_false_iff, decide_eq_false_iff_not] at h ⊢
    exact ⟨h.1, fun hm => h.2 (hsub hm)⟩

/-- A record that can be read is no directory. -/
theorem not_directory_of_readUnits {session : Session} {units : List String} {loc : Location}
    (h : session.readUnits d = .ok units) (hr : d.resolve session.path = .ok loc) :
    d.get? loc ≠ some .directory := by
  intro hdir
  have hread : d.readText session.path = .error .isDirectory := by
    unfold Disk.readText Disk.read Disk.lookup
    rw [hr]
    simp only [bind, Except.bind, hdir]
    rfl
  rw [Session.readUnits, hread] at h
  simp at h

section

variable {d₀ : Disk} {recorded : List String} {n : Nat} {unit : TestUnit}

/-- Where the record is, when the directories work. -/
theorem Step.Works.exists_record (hw : s.Works d₀) : ∃ loc, s.AtRecord d₀ loc := by
  obtain ⟨loc, hr, -⟩ := hw.lock
  obtain ⟨found, hfound, -⟩ := resolve_record hr
  exact ⟨found, hfound⟩

theorem Step.Underway.spend (m : Nat) (h : s.Underway d₀ recorded (n + m) d) :
    s.Underway d₀ recorded n d := by
  obtain ⟨hgrown, hroom, hrecord⟩ := h
  exact ⟨hgrown, hroom.mono (Nat.le_add_right n m), hrecord⟩

/-- **The section over the record is entered** with what is recorded. -/
theorem Step.Underway.enter (hw : s.Works d₀) (h : s.Underway d₀ recorded (n + 1) d) :
    ∃ units d', s.session.enter d = (⟨s.session, true, units⟩, d') ∧
      s.session.readUnits d = .ok units ∧ s.session.readUnits d' = .ok units ∧
      s.Underway d₀ recorded n d' := by
  obtain ⟨hgrown, hroom, units, hread, hunits⟩ := h
  obtain ⟨d', ht⟩ := Disk.exists_touch (hgrown.writable.2 hw.lock)
  have hread' : s.session.readUnits d' = .ok units := (readUnits_touch ht).trans hread
  refine ⟨units, d', ?_, hread, hread', hgrown.trans (Disk.grown_touch ht), hroom.touch ht, units,
    hread', hunits⟩
  rw [Session.enter_of_touch ht, Session.guardAt, hread']

/-- **A temporary file that is written** leaves the record as it is. -/
theorem Step.Underway.emitTemp (hw : s.Works d₀) (h : s.Underway d₀ recorded (n + 1) d)
    (hu : unit ∈ s.units) (hf : p.file ∈ unit.files)
    (he : emitTemp d s.tempDir p = (some temp, d')) :
    s.Underway d₀ recorded n d' ∧ s.session.readUnits d' = s.session.readUnits d := by
  obtain ⟨hgrown, hroom, units, hread, hunits⟩ := h
  obtain ⟨source, k, loc, -, htemp, hr, hg, rfl, -⟩ := emitTemp_eq_some he
  obtain ⟨found, hfound⟩ := hw.exists_record
  have hdir : d.get? loc ≠ some .directory := by simp [hg]
  have htemp₀ : d₀.resolve (tempPath d₀ s.tempDir p.file.path k) = .ok loc := by
    rw [← tempPath_grown hgrown, ← htemp]
    exact (hgrown.resolve temp loc).1 hr
  -- no name for a temporary file leads to the record, so that it is read as before
  have hne : found ≠ loc := by
    rintro rfl
    exact hw.apart unit hu p.file hf k found htemp₀ hfound
  have hkeep : ∀ node, s.session.readUnits (d.set loc node) = s.session.readUnits d := by
    intro node
    exact readUnits_congr (Disk.readText_set ((hgrown.resolve _ _).2 hfound) hdir hne)
  exact ⟨⟨hgrown.trans (.set_of_free hg), hroom.set hdir, units, (hkeep _).trans hread, hunits⟩,
    hkeep _⟩

/-- **Redirected calls** leave the record as it is. -/
theorem Step.Underway.writeChanged (hw : s.Works d₀)
    (h : s.Underway d₀ recorded (n + unit.files.length) d) (hu : unit ∈ s.units) :
    s.Underway d₀ recorded n (s.writeChanged result d (unit.files.map s.instrumentFile)).2 ∧
      s.session.readUnits (s.writeChanged result d (unit.files.map s.instrumentFile)).2 =
        s.session.readUnits d := by
  have hkeeps : s.KeepsRedirected fun n _ d' =>
      s.Underway d₀ recorded n d' ∧ s.session.readUnits d' = s.session.readUnits d := {
    spend := fun h => ⟨h.1.spend 1, h.2⟩
    redirect := by
      intro n result d' unit file temp d'' hu hf _ _ hemit h
      rw [← file_prepared file s.sdk none] at hf
      obtain ⟨hwritten, hread⟩ := h.1.emitTemp hw hu hf hemit
      exact ⟨hwritten, hread.trans h.2⟩ }
  exact hkeeps.writeChanged hu (List.Subset.refl _) ⟨h, rfl⟩

/-- **A unit is recorded**, unless the record lists it already. -/
theorem Step.Underway.exists_record (hw : s.Works d₀) (h : s.Underway d₀ recorded n d)
    (hl : Listed unit.name) {units : List String} (hread : s.session.readUnits d = .ok units) :
    ∃ g' d', (⟨s.session, true, units⟩ : Guard).record unit.name d = (.ok (), g', d') ∧
      s.session.readUnits d' =
        .ok (if unit.name ∈ units then units else units ++ [unit.name]) := by
  by_cases hm : unit.name ∈ units
  · refine ⟨_, d, Guard.outcome_iff.1 (.known hm), ?_⟩
    rw [if_pos hm]
    exact hread
  · obtain ⟨found, hfound⟩ := hw.exists_record
    have hfound' := (h.grown.resolve _ _).2 hfound
    have hplain := plain_sessionName s.buildId "" (by simp)
    rw [String.append_empty] at hplain
    have hwritable : d.Writable s.session.path :=
      ⟨found, hfound', Disk.endsWithSlash_join _ hplain, not_directory_of_readUnits hread hfound'⟩
    obtain ⟨d', hwrite⟩ := Disk.exists_write hwritable (recordText (units ++ [unit.name])).toUTF8
    have hrecord := (⟨s.session, true, units⟩ : Guard).record_of_save hm
      ((h.grown.reliable.2 hw.reliable).save_eq hwrite)
    have hc : ¬(⟨s.session, true, units⟩ : Guard).contains unit.name = true := by
      simpa [Guard.contains] using hm
    have hread' : s.session.readUnits d' = _ := readUnits_of_record rfl hread hl hrecord
    rw [if_neg hc] at hread'
    refine ⟨_, d', hrecord, ?_⟩
    rw [if_neg hm]
    exact hread'

/-- What is in the record when a unit was recorded. -/
theorem Step.Underway.readUnits_record (hw : s.Works d₀) (h : s.Underway d₀ recorded n d)
    (hl : Listed unit.name) {units : List String} (hread : s.session.readUnits d = .ok units) :
    s.session.readUnits ((⟨s.session, true, units⟩ : Guard).record unit.name d).2.2 =
      .ok (if unit.name ∈ units then units else units ++ [unit.name]) := by
  obtain ⟨g', d', hrecord, hread'⟩ := h.exists_record hw hl hread
  rw [hrecord]
  exact hread'

/-- **A unit that is recorded** is one more in the record. -/
theorem Step.Underway.recordUnit (hw : s.Works d₀) (h : s.Underway d₀ recorded (n + 1) d)
    (hu : unit ∈ s.units) (hl : Listed unit.name) (hsuite : unit.hasSuiteEntry = false)
    {units : List String} (hread : s.session.readUnits d = .ok units)
    (hdefers : s.defers unit.name units = false) :
    s.Underway d₀ recorded n
      ((⟨s.session, true, units⟩ : Guard).record unit.name d).2.2 := by
  have hrecord := h.readUnits_record hw hl hread
  obtain ⟨hgrown, hroom, units', hread', hsub, hunits⟩ := h
  obtain rfl : units' = units := Except.ok.inj (hread'.symm.trans hread)
  refine ⟨hgrown.trans (atRecord_grown hgrown (grown_recordUnit rfl unit.name)),
    room_record hroom _ _, _, hrecord, ?_, fun u hm => ?_⟩
  · split
    · exact hsub
    · exact List.subset_append_of_subset_left _ hsub
  · split at hm
    · exact hunits u hm
    · rcases List.mem_append.1 hm with hm | hm
      · exact hunits u hm
      · obtain rfl := List.mem_singleton.1 hm
        exact .inr ⟨unit, hu, rfl, hsuite, defers_mono hsub hdefers⟩

/-- **All that a plan does** keeps what holds in the middle of it. -/
theorem keeps_underway (hw : s.Works d₀) (hl : ∀ unit ∈ s.units, Listed unit.name)
    (recorded : List String) : s.Keeps fun n _ d => s.Underway d₀ recorded n d where
  spend h := h.spend 1
  enter h := by
    obtain ⟨units, d', he, -, -, hentered⟩ := h.enter hw
    rw [he]
    exact hentered
  host := by
    intro n result d d₁ g unit file temp d' hu hsuite he hd hf _ hemit h
    obtain ⟨units, d₂, he', -, hread, hentered⟩ := h.enter hw
    obtain ⟨rfl, rfl⟩ := Prod.mk.inj (he'.symm.trans he)
    rw [← file_prepared file s.sdk (some Known.driverName)] at hf
    obtain ⟨hwritten, hkeep⟩ := hentered.emitTemp hw hu hf hemit
    exact hwritten.recordUnit hw hu (hl unit hu) hsuite (hkeep.trans hread) hd
  redirect := by
    intro n result d unit file temp d' hu hf _ _ hemit h
    rw [← file_prepared file s.sdk none] at hf
    exact (h.emitTemp hw hu hf hemit).1

theorem Step.Works.underway (hw : s.Works d) (hr : s.session.readUnits d = .ok recorded) :
    s.Underway d recorded (s.units.map TestUnit.cost).sum d :=
  ⟨.refl _ d, hw.room, recorded, hr, List.Subset.refl _, fun _ => .inl⟩

/-- Directories that work go on to do so while there is room. -/
theorem Step.Works.grown {P : Location → Prop} (h : s.Works d) (hg : Disk.Grown P d d')
    (hroom : d'.Room s.tempDir (s.units.map TestUnit.cost).sum) : s.Works d' where
  reliable := hg.reliable.2 h.reliable
  lock := hg.writable.2 h.lock
  temp := by
    intro unit hu file hf
    obtain ⟨loc, hr⟩ := h.temp unit hu file hf
    rw [← tempPath_grown hg] at hr
    exact ⟨loc, (hg.resolve _ _).2 hr⟩
  room := hroom
  apart := by
    intro unit hu file hf k loc hr hat
    rw [tempPath_grown hg] at hr
    exact h.apart unit hu file hf k loc ((hg.resolve _ _).1 hr) ((hg.resolve _ _).1 hat)

/-- A path that ends in a plain name leads to what has this name. -/
theorem getLast?_of_resolve {dir : Path} {name : String} (hn : Disk.Plain name) {loc : Location}
    (h : d.resolve (dir.join ⟨name⟩) = .ok loc) : loc.getLast? = some name := by
  obtain ⟨parent, -, rfl⟩ := Disk.resolve_join hn hn id le_rfl h
  simp

/-- The names for temporary files are apart from that of the record if none begins with a dot. -/
theorem apart_of_head (h : ∀ unit ∈ s.units, ∀ file ∈ unit.files,
    (file.path.fileStem?.getD "" ++ "_").toList.head? ≠ some '.') (d : Disk) : s.Apart d := by
  intro unit hu file hf k loc hr hat
  have hplain := plain_sessionName s.buildId "" (by simp)
  rw [String.append_empty] at hplain
  have hname := getLast?_of_resolve (plain_tempName file.path k) hr
  rw [getLast?_of_resolve hplain hat] at hname
  have hname := Option.some.inj hname
  refine h unit hu file hf ?_
  have hne : file.path.fileStem?.getD "" ++ "_" ≠ "" := by simp
  generalize file.path.fileStem?.getD "" ++ "_" = before at hname hne
  obtain ⟨c, cs, hlead⟩ := List.exists_cons_of_ne_nil (by simpa using hne : before.toList ≠ [])
  have hhead := congrArg (fun name : String => name.toList.head?) hname
  simp only [Disk.tempName, String.toList_append, hlead] at hhead ⊢
  simpa using hhead.symm

end

end TestWeave.Build
