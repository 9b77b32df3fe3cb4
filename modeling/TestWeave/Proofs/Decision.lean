import TestWeave.Proofs.Course

/-!
# Which units a plan gives a suite entry

Where the directories of a step work, the plan of a unit comes down to a decision: the unit is given
a suite entry if it has none, if it does not leave it to its sibling, and if one of its files can
have it.

* `Step.given`: the units that a plan gives a suite entry; `mem_given_iff`: which these are.
* `readUnits_plan`: what a plan records.
* `written_of_given`, `planUnit_of_not_gives`: what is written in either case.
-/

namespace TestWeave.Build

open TestWeave.Change TestWeave.Host TestWeave.Source TestWeave.Text

/-- Whether a suite entry can be added to a file, and the changed source is there. -/
def Step.Hosts (s : Step) (file : SourceFile) : Prop :=
  s.canHost file = true ∧ ∃ text, (prepared file s.sdk (some Known.driverName)).emit = .ok text

/-- Whether the plan of a unit gives it a suite entry. -/
def Step.gives (s : Step) (unit : TestUnit) (result : PathMap) (d : Disk) : Bool :=
  let (guard, d) := s.session.enter d
  !unit.hasSuiteEntry && !s.defers unit.name guard.units &&
    (s.writeHost d result (unit.files.map s.instrumentFile)).1.isSome

/-- The units of a list that are given a suite entry, each by its plan. -/
def Step.givenFrom (s : Step) : List TestUnit → PathMap × Disk → List String
  | [], _ => []
  | unit :: units, (result, d) =>
    (if s.gives unit result d then [unit.name] else []) ++
      s.givenFrom units (s.planUnit unit result d)

/-- **The units that a plan gives a suite entry.** -/
def Step.given (s : Step) (d : Disk) : List String := s.givenFrom s.units ([], d)

variable {s : Step} {d d' d₀ : Disk} {recorded units : List String} {result : PathMap}
  {unit : TestUnit} {n : Nat}

/-! ### Siblings -/

theorem dropTail_eq_some {tail name base : String} :
    dropTail tail name = some base ↔ name = base ++ tail := by
  constructor
  · intro h
    obtain ⟨rest, hrest, rfl⟩ := Option.map_eq_some_iff.1 h
    have hlist := congrArg List.reverse (afterLead_eq_some_iff.1 hrest)
    rw [List.reverse_reverse, List.reverse_append, List.reverse_reverse] at hlist
    rw [← String.toList_inj, hlist, String.toList_append, String.toList_ofList]
  · rintro rfl
    exact dropTail_append tail base

theorem defers_plain (s : Step) {x : String} (hx : endsWith Known.externalSuffix x = false)
    (recorded : List String) : s.defers x recorded = true ↔
      (∃ unit ∈ s.units, unit.name = x ++ Known.externalSuffix) ∨
        x ++ Known.externalSuffix ∈ recorded := by
  rw [Step.defers, dropTail_of_not_endsWith hx]
  simp

theorem defers_suffixed (s : Step) (x : String) (recorded : List String) :
    s.defers (x ++ Known.externalSuffix) recorded = true ↔ x ∈ recorded := by
  rw [Step.defers, dropTail_append]
  simp

theorem ne_suffixed (x : String) : x ++ Known.externalSuffix ≠ x := by
  intro he
  have hlength := congrArg String.length he
  simp [Known.externalSuffix] at hlength

/-- The package that external tests belong to, if it is part of the step, is not external itself. -/
def Step.Flat (s : Step) (unit : TestUnit) : Prop :=
  ∀ v ∈ s.units, unit.name = v.name ++ Known.externalSuffix →
    endsWith Known.externalSuffix v.name = false

theorem flat_of_plain (s : Step) (h : endsWith Known.externalSuffix unit.name = false) :
    s.Flat unit := by
  intro v _ hname
  rw [hname] at h
  have htrue : endsWith Known.externalSuffix (v.name ++ Known.externalSuffix) = true := by
    rw [endsWith, List.isSuffixOf_iff_suffix, String.toList_append]
    exact List.suffix_append ..
  exact (Bool.false_ne_true (h.symm.trans htrue)).elim

theorem flat_of_suffixed (s : Step) {x : String} (hn : unit.name = x ++ Known.externalSuffix)
    (hx : endsWith Known.externalSuffix x = false) : s.Flat unit := by
  intro v _ hname
  have hbase : dropTail Known.externalSuffix unit.name = some v.name := dropTail_eq_some.2 hname
  rw [hn, dropTail_append] at hbase
  rw [← Option.some.inj hbase]
  exact hx

/-- **What is recorded in the middle of a plan** does not change a decision. -/
theorem Step.Underway.defers_eq (h : s.Underway d₀ recorded n d)
    (hread : s.session.readUnits d = .ok units) (hu : unit ∈ s.units) (hflat : s.Flat unit) :
    s.defers unit.name units = s.defers unit.name recorded := by
  obtain ⟨-, -, units', hread', hsub, hunits⟩ := h
  obtain rfl : units' = units := Except.ok.inj (hread'.symm.trans hread)
  cases hd : s.defers unit.name recorded with
  | true =>
    by_contra hne
    have := defers_mono hsub (eq_false_of_ne_true hne)
    rw [hd] at this
    exact Bool.false_ne_true this.symm
  | false =>
    by_contra hne
    have hne := eq_true_of_ne_false hne
    cases hsuffix : endsWith Known.externalSuffix unit.name with
    | false =>
      -- the external tests have been recorded meanwhile, so they are part of the step
      have hnot := hd
      rw [← Bool.not_eq_true, defers_plain s hsuffix, not_or] at hnot
      rcases (defers_plain s hsuffix _).1 hne with hstep | hm
      · exact hnot.1 hstep
      · rcases hunits _ hm with hm | ⟨v, hv, hname, -⟩
        · exact hnot.2 hm
        · exact hnot.1 ⟨v, hv, hname⟩
    | true =>
      obtain ⟨x, hx⟩ : ∃ x, unit.name = x ++ Known.externalSuffix := by
        rw [endsWith, List.isSuffixOf_iff_suffix] at hsuffix
        obtain ⟨front, hfront⟩ := hsuffix
        exact ⟨String.ofList front, by rw [← String.toList_inj, ← hfront]; simp⟩
      have hnot := hd
      rw [hx, ← Bool.not_eq_true, defers_suffixed] at hnot
      rw [hx, defers_suffixed] at hne
      rcases hunits _ hne with hm | ⟨v, hv, rfl, -, hfalse⟩
      · exact hnot hm
      · -- the package leaves its suite entry to the external tests, which are part of the step
        have hplain := (defers_plain s (hflat v hv hx) recorded).2 (.inl ⟨unit, hu, hx⟩)
        rw [hplain] at hfalse
        exact Bool.false_ne_true hfalse.symm

/-! ### The decision -/

/-- A suite entry is written exactly if a file can have it and there is a place to write it. -/
theorem isSome_writeHost_iff (hd : d.Reliable) (hroom : d.Room s.tempDir 1)
    {files : List SourceFile} :
    (s.writeHost d result (files.map s.instrumentFile)).1.isSome = true ↔
      ∃ file ∈ files, s.Hosts file ∧ ∃ loc, d.resolve (tempPath d s.tempDir file.path 0) = .ok loc := by
  induction files with
  | nil => simp [Step.writeHost]
  | cons file files ih =>
    have hwritten : (emitTemp d s.tempDir (prepared file s.sdk (some Known.driverName))).1.isSome =
        true ↔ _ := isSome_emitTemp hd hroom
    rw [file_prepared] at hwritten
    rw [List.map_cons, Step.writeHost, file_instrumentFile, List.exists_mem_cons_iff, ← ih]
    by_cases hc : s.canHost file = true
    · rw [if_pos hc, appendSuiteEntry_instrumentFile hc, Step.Hosts, and_assoc, ← hwritten]
      rcases he : emitTemp d s.tempDir (prepared file s.sdk (some Known.driverName)) with
        ⟨_ | temp, d'⟩
      · obtain rfl := emitTemp_eq_none he
        simp
      · simp [hc]
    · simp [Step.Hosts, hc]

/-- In the middle of a plan there is always a place. -/
theorem isSome_writeHost (hw : s.Works d₀) (h : s.Underway d₀ recorded (n + 1) d)
    (hu : unit ∈ s.units) {files : List SourceFile} (hsub : files ⊆ unit.files) :
    (s.writeHost d result (files.map s.instrumentFile)).1.isSome = true ↔
      ∃ file ∈ files, s.Hosts file := by
  rw [isSome_writeHost_iff (h.grown.reliable.2 hw.reliable) (h.room.mono (by omega))]
  refine exists_congr fun file => and_congr_right fun hmem => and_iff_left ?_
  obtain ⟨loc, hr⟩ := hw.temp unit hu file (hsub hmem)
  rw [← tempPath_grown h.grown] at hr
  exact ⟨loc, (h.grown.resolve _ _).2 hr⟩

/-- What the decision for a unit depends on, once the section is entered. -/
theorem gives_of_enter {g : Guard} (he : s.session.enter d = (g, d')) :
    s.gives unit result d = true ↔ unit.hasSuiteEntry = false ∧
      s.defers unit.name g.units = false ∧
      (s.writeHost d' result (unit.files.map s.instrumentFile)).1.isSome = true := by
  unfold Step.gives
  rw [he]
  simp only [Bool.and_eq_true, Bool.not_eq_true', and_assoc]

/-- **The decision for a unit**, made in the middle of a plan by what was recorded at its
beginning. -/
theorem gives_iff (hw : s.Works d₀) (h : s.Underway d₀ recorded (n + unit.cost) d)
    (hu : unit ∈ s.units) (hflat : s.Flat unit) :
    s.gives unit result d = true ↔ unit.hasSuiteEntry = false ∧
      s.defers unit.name recorded = false ∧ ∃ file ∈ unit.files, s.Hosts file := by
  have h : s.Underway d₀ recorded (n + unit.files.length + 1 + 1 + 1) d := by
    have hcost : n + unit.cost = n + unit.files.length + 1 + 1 + 1 := by
      rw [TestUnit.cost]
      omega
    rwa [hcost] at h
  obtain ⟨units, d', he, hread, hread', hentered⟩ := h.enter hw
  have hhost : (s.writeHost d' result (unit.files.map s.instrumentFile)).1.isSome = true ↔
      ∃ file ∈ unit.files, s.Hosts file :=
    isSome_writeHost hw hentered hu (List.Subset.refl _)
  have hdefers := h.defers_eq hread hu hflat
  rw [gives_of_enter he, hdefers, hhost]

theorem givenFrom_subset (s : Step) (units : List TestUnit) (start : PathMap × Disk) :
    (s.givenFrom units start).Sublist (units.map TestUnit.name) := by
  induction units generalizing start with
  | nil => exact List.Sublist.refl _
  | cons unit units ih =>
    rw [Step.givenFrom, List.map_cons]
    split
    · exact (ih _).cons_cons unit.name
    · exact (ih _).cons unit.name

theorem mem_givenFrom_iff (hw : s.Works d₀) (hl : ∀ unit ∈ s.units, Listed unit.name)
    {units : List TestUnit} (hsub : units ⊆ s.units)
    (hnodup : (units.map TestUnit.name).Nodup)
    (h : s.Underway d₀ recorded (n + (units.map TestUnit.cost).sum) d) (hu : unit ∈ units)
    (hflat : s.Flat unit) :
    unit.name ∈ s.givenFrom units (result, d) ↔ unit.hasSuiteEntry = false ∧
      s.defers unit.name recorded = false ∧ ∃ file ∈ unit.files, s.Hosts file := by
  -- each unit may use up its cost, so that there is room left for those behind it
  induction units generalizing result d with
  | nil => simp at hu
  | cons first units ih =>
    obtain ⟨hfirst, hunits⟩ := List.cons_subset.1 hsub
    rw [List.map_cons, List.nodup_cons] at hnodup
    rw [sum_cost_cons] at h
    rw [Step.givenFrom, List.mem_append]
    rcases List.mem_cons.1 hu with rfl | hu
    · -- the units that are left have other names
      have hlater : unit.name ∉ s.givenFrom units (s.planUnit unit result d) :=
        fun hm => hnodup.1 ((givenFrom_subset ..).subset hm)
      rw [or_iff_left hlater, ← gives_iff hw h hfirst hflat]
      cases s.gives unit result d <;> simp
    · have hne : unit.name ≠ first.name := by
        intro he
        exact hnodup.1 (he ▸ List.mem_map_of_mem hu)
      have hnow : unit.name ∉ if s.gives first result d = true then [first.name] else [] := by
        split <;> simp [hne]
      rw [or_iff_right hnow]
      exact ih hunits hnodup.2 ((keeps_underway hw hl recorded).planUnit hfirst h) hu

/-- The units of a step that was built file by file have different names. -/
theorem names_addToUnits (file : SourceFile) (units : List TestUnit) :
    (addToUnits file units).map TestUnit.name =
      if file.package ∈ units.map TestUnit.name then units.map TestUnit.name
      else units.map TestUnit.name ++ [file.package] := by
  induction units with
  | nil => rfl
  | cons unit units ih =>
    rw [addToUnits]
    by_cases hn : unit.name = file.package
    · simp [hn]
    · have hne : file.package ≠ unit.name := fun he => hn he.symm
      rw [if_neg hn, List.map_cons, ih]
      by_cases hm : file.package ∈ units.map TestUnit.name <;> simp [hm, hne]

theorem Built.nodup (h : Built s) : (s.units.map TestUnit.name).Nodup := by
  induction h with
  | new => exact List.nodup_nil
  | withSessionDir _ _ ih => exact ih
  | @addFile s _ _ file _ _ ih =>
    rw [Step.addFile, names_addToUnits]
    split
    · exact ih
    · rename_i hm
      rw [← List.concat_eq_append]
      exact ih.concat hm

theorem Built.listed (h : Built s) : ∀ unit ∈ s.units, Listed unit.name :=
  fun unit hu => listed_of_isName (h.isName unit hu)

/-- **Which units a plan gives a suite entry**: those that have none, that do not leave it to their
sibling, and one of whose files can have it. -/
theorem mem_given_iff (hb : Built s) (hw : s.Works d) (hr : s.session.readUnits d = .ok recorded)
    (hu : unit ∈ s.units) (hflat : s.Flat unit) :
    unit.name ∈ s.given d ↔ unit.hasSuiteEntry = false ∧
      s.defers unit.name recorded = false ∧ ∃ file ∈ unit.files, s.Hosts file := by
  have h := hw.underway hr
  rw [← Nat.zero_add (s.units.map TestUnit.cost).sum] at h
  exact mem_givenFrom_iff hw hb.listed (List.Subset.refl _) hb.nodup h hu hflat

/-! ### What is written -/

/-- A unit that is given a suite entry has it written, and is recorded before the rest is. -/
theorem writeHost_of_gives (h : s.gives unit result d = true) :
    ∃ g d₁ result' d₂, s.session.enter d = (g, d₁) ∧ unit.hasSuiteEntry = false ∧
      s.defers unit.name g.units = false ∧
      s.writeHost d₁ result (unit.files.map s.instrumentFile) = (some result', d₂) ∧
      s.planUnit unit result d = s.writeChanged result' (g.record unit.name d₂).2.2
        (unit.files.map s.instrumentFile) := by
  obtain ⟨g, d₁, he, hcases⟩ := synthesize_cases s unit result d
  obtain ⟨hsuite, hdefers, hsome⟩ := (gives_of_enter he).1 h
  rcases hcases with ⟨hd | hnone, -⟩ | ⟨-, result', d₂, hw, hs⟩
  · exact (Bool.false_ne_true (hdefers.symm.trans hd)).elim
  · rw [hnone] at hsome
    simp at hsome
  · refine ⟨g, d₁, result', d₂, he, hsuite, hdefers, hw, ?_⟩
    rw [planUnit_of_no_entry hsuite, hs]

/-- A unit that is given a suite entry has one of its files written with it. -/
theorem planUnit_of_gives (h : s.gives unit result d = true) :
    ∃ g d₁ temp d₂, ∃ file ∈ unit.files, s.session.enter d = (g, d₁) ∧
      emitTemp d₁ s.tempDir (prepared file s.sdk (some Known.driverName)) = (some temp, d₂) ∧
      s.planUnit unit result d = s.writeChanged (result.insert file.path temp)
        (g.record unit.name d₂).2.2 (unit.files.map s.instrumentFile) := by
  obtain ⟨g, d₁, result', d₂, he, -, -, hw, hplan⟩ := writeHost_of_gives h
  obtain ⟨file, hmem, -, temp, hemit, rfl⟩ := writeHost_eq_some hw
  exact ⟨g, d₁, temp, d₂, file, hmem, he, hemit, hplan⟩

/-- **A unit that is not given a suite entry** has its calls redirected and nothing else. -/
theorem planUnit_of_not_gives (h : s.gives unit result d = false) :
    s.planUnit unit result d = s.writeChanged result
      (if unit.hasSuiteEntry = true then d else (s.session.enter d).2)
      (unit.files.map s.instrumentFile) := by
  obtain ⟨g, d₁, he, hcases⟩ := synthesize_cases s unit result d
  cases hsuite : unit.hasSuiteEntry with
  | true => rw [planUnit_of_entry hsuite, if_pos rfl]
  | false =>
    rw [planUnit_of_no_entry hsuite, if_neg Bool.false_ne_true, he]
    rcases hcases with ⟨-, hs⟩ | ⟨hdefers, result', d₂, hw, -⟩
    · rw [hs]
    · have hgives := (gives_of_enter he).2 ⟨hsuite, hdefers, by rw [hw]; rfl⟩
      rw [h] at hgives
      cases hgives

/-- What is given a suite entry is given it by the plan of its unit. -/
theorem gives_of_givenFrom {rest : List TestUnit} {name : String}
    (h : name ∈ s.givenFrom rest (result, d)) :
    ∃ unit ∈ rest, unit.name = name ∧ ∃ result d, s.gives unit result d = true := by
  induction rest generalizing result d with
  | nil => simp [Step.givenFrom] at h
  | cons unit rest ih =>
    rw [Step.givenFrom, List.mem_append] at h
    rcases h with h | h
    · split at h
      · rename_i hgives
        exact ⟨unit, by simp, (List.mem_singleton.1 h).symm, result, d, hgives⟩
      · simp at h
    · obtain ⟨unit', hu, hrest⟩ := ih h
      exact ⟨unit', List.mem_cons_of_mem _ hu, hrest⟩

/-! ### What is recorded -/

/-- **What the plan of a unit records**: the unit, if it is given a suite entry. -/
theorem Step.Underway.readUnits_planUnit (hw : s.Works d₀)
    (h : s.Underway d₀ recorded (n + unit.cost) d) (hu : unit ∈ s.units) (hl : Listed unit.name)
    (hread : s.session.readUnits d = .ok units) :
    s.session.readUnits (s.planUnit unit result d).2 =
      .ok (if s.gives unit result d = true ∧ unit.name ∉ units then units ++ [unit.name]
        else units) := by
  have h : s.Underway d₀ recorded (n + unit.files.length + 1 + 1 + 1) d := by
    have hcost : n + unit.cost = n + unit.files.length + 1 + 1 + 1 := by
      rw [TestUnit.cost]
      omega
    rwa [hcost] at h
  obtain ⟨units', d₁, he, hsame, hread₁, hentered⟩ := h.enter hw
  obtain rfl : units' = units := Except.ok.inj (hsame.symm.trans hread)
  cases hg : s.gives unit result d with
  | false =>
    rw [planUnit_of_not_gives hg, he]
    simp only [Bool.false_eq_true, false_and, if_false]
    -- the section over the record is entered only for a unit without a suite entry
    cases unit.hasSuiteEntry with
    | true => exact ((h.spend 3).writeChanged hw hu).2.trans hread
    | false => exact ((hentered.spend 2).writeChanged hw hu).2.trans hread₁
  | true =>
    obtain ⟨g, d₂, result', d₃, he', hsuite, hdefers, hwritten, hplan⟩ := writeHost_of_gives hg
    obtain ⟨rfl, rfl⟩ := Prod.mk.inj (he.symm.trans he')
    obtain ⟨host, hmem, -, temp, hemit, rfl⟩ := writeHost_eq_some hwritten
    rw [← file_prepared host s.sdk (some Known.driverName)] at hmem
    obtain ⟨hU, hread₃⟩ := hentered.emitTemp hw hu hmem hemit
    have hread₃ := hread₃.trans hread₁
    have hrecorded : s.Underway d₀ recorded (n + unit.files.length) _ :=
      hU.recordUnit hw hu hl hsuite hread₃ hdefers
    rw [hplan, (hrecorded.writeChanged hw hu).2, hU.readUnits_record hw hl hread₃]
    by_cases hm : unit.name ∈ units' <;> simp [hm]

/-- What is recorded for one unit, and then for those behind it, which have other names. -/
theorem record_append {given : Bool} {name : String} {later : List String} (h : name ∉ later) :
    let now := if given = true ∧ name ∉ units then units ++ [name] else units
    now ++ later.filter (· ∉ now) =
      units ++ ((if given = true then [name] else []) ++ later).filter (· ∉ units) := by
  simp only
  by_cases hnew : given = true ∧ name ∉ units
  · have hfilter : later.filter (· ∉ units ++ [name]) = later.filter (· ∉ units) := by
      refine List.filter_congr fun other hother => ?_
      have hne : other ≠ name := fun he => h (he ▸ hother)
      simp [hne]
    rw [if_pos hnew, if_pos hnew.1, hfilter, List.append_assoc, List.singleton_append,
      List.singleton_append, List.filter_cons_of_pos (by simpa using hnew.2)]
  · rw [if_neg hnew, List.filter_append]
    cases given <;> simp_all

/-- **What a plan records**, unit by unit. -/
theorem readUnits_planAll (hw : s.Works d₀) (hl : ∀ unit ∈ s.units, Listed unit.name)
    {rest : List TestUnit} (hsub : rest ⊆ s.units) (hnodup : (rest.map TestUnit.name).Nodup)
    (h : s.Underway d₀ recorded (n + (rest.map TestUnit.cost).sum) d)
    (hread : s.session.readUnits d = .ok units) :
    s.session.readUnits (s.planAll rest (result, d)).2 =
      .ok (units ++ (s.givenFrom rest (result, d)).filter (· ∉ units)) := by
  induction rest generalizing result d units with
  | nil =>
    rw [Step.givenFrom, List.filter_nil, List.append_nil]
    exact hread
  | cons unit rest ih =>
    obtain ⟨hunit, hrest⟩ := List.cons_subset.1 hsub
    rw [List.map_cons, List.nodup_cons] at hnodup
    rw [sum_cost_cons] at h
    have hnow : s.session.readUnits (s.planUnit unit result d).2 = .ok _ :=
      h.readUnits_planUnit hw hunit (hl unit hunit) hread
    have hU : s.Underway d₀ recorded (n + (rest.map TestUnit.cost).sum)
        (s.planUnit unit result d).2 := (keeps_underway hw hl recorded).planUnit hunit h
    have hlater : s.session.readUnits (s.planAll rest (s.planUnit unit result d)).2 = .ok _ :=
      ih hrest hnodup.2 hU hnow
    -- the units that are left have other names
    have hnew : unit.name ∉ s.givenFrom rest (s.planUnit unit result d) :=
      fun hm => hnodup.1 ((givenFrom_subset ..).subset hm)
    rw [Step.givenFrom]
    exact hlater.trans (congrArg Except.ok (record_append hnew))

/-- **The record after a plan** has the units that were given a suite entry behind those that it
had. -/
theorem readUnits_plan (hb : Built s) (hw : s.Works d) (hr : s.session.readUnits d = .ok recorded) :
    s.session.readUnits (s.plan d).2 = .ok (recorded ++ (s.given d).filter (· ∉ recorded)) := by
  have h := hw.underway hr
  rw [← Nat.zero_add (s.units.map TestUnit.cost).sum] at h
  exact readUnits_planAll hw hb.listed (List.Subset.refl _) hb.nodup h hr

/-! ### Suite entries that are written -/

theorem written_of_givenFrom (ha : s.Apart d₀) {units : List TestUnit} (hsub : units ⊆ s.units)
    (h : Disk.Grown (s.AtRecord d₀) d₀ d) {name : String}
    (hm : name ∈ s.givenFrom units (result, d)) :
    ∃ unit ∈ units, unit.name = name ∧ ∃ file ∈ unit.files, ∃ text temp loc,
      (prepared file s.sdk (some Known.driverName)).emit = .ok text ∧
      d₀.resolve temp = .ok loc ∧ d₀.get? loc = none ∧
      (s.planAll units (result, d)).2.readText temp = .ok (tempText d₀ file.path text) := by
  induction units generalizing result d with
  | nil => simp [Step.givenFrom] at hm
  | cons unit units ih =>
    obtain ⟨hunit, hunits⟩ := List.cons_subset.1 hsub
    rw [Step.givenFrom, List.mem_append] at hm
    rcases hm with hm | hm
    · split at hm
      · rename_i hgives
        obtain rfl : name = unit.name := by simpa using hm
        obtain ⟨g, d₁, temp, d₂, file, hmem, he, hemit, hplan⟩ := planUnit_of_gives hgives
        obtain ⟨hentered, hsession⟩ := grown_of_enter he (s.AtRecord d₀)
        have h₁ := h.trans hentered
        obtain ⟨text, loc, hmade⟩ := made_of_emitTemp h₁ hemit
        -- what the plan does from here on leaves the new file as it is
        have hkeeps := keeps_grown s d₂
        have hrecorded : Disk.Grown (s.AtRecord d₂) d₂ (g.record unit.name d₂).2.2 :=
          grown_recordUnit hsession unit.name
        have hchanged : Disk.Grown (s.AtRecord d₂) d₂ (s.planUnit unit result d).2 := by
          rw [hplan]
          exact hkeeps.writeChanged (n := 0) hunit (List.Subset.refl _) hrecorded
        have hrest : Disk.Grown (s.AtRecord d₂) d₂ (s.planAll units (s.planUnit unit result d)).2 :=
          hkeeps.planAll (n := 0) hunits hchanged
        have hmade := hmade.grown (h₁.trans (grown_emitTemp hemit)) hrest
        obtain ⟨hfree, hread⟩ := hmade.read (hmade.not_record ha hunit hmem)
        exact ⟨unit, by simp, rfl, file, hmem, text, temp, loc, hmade.emit, hmade.place, hfree, hread⟩
      · simp at hm
    · obtain ⟨unit', hmem, hrest⟩ := ih hunits ((keeps_grown s d₀).planUnit (n := 0) hunit h) hm
      exact ⟨unit', List.mem_cons_of_mem _ hmem, hrest⟩

/-- **A unit that is given a suite entry** has a new file with it, made from one of its files. -/
theorem written_of_given (ha : s.Apart d) {name : String} (h : name ∈ s.given d) :
    ∃ unit ∈ s.units, unit.name = name ∧ ∃ file ∈ unit.files, ∃ text temp loc,
      (prepared file s.sdk (some Known.driverName)).emit = .ok text ∧
      d.resolve temp = .ok loc ∧ d.get? loc = none ∧
      (s.plan d).2.readText temp = .ok (tempText d file.path text) :=
  written_of_givenFrom ha (List.Subset.refl _) (.refl _ d) h

/-! ### Files that can have a suite entry -/

theorem suited_driver {file : SourceFile} (h : s.canHost file = true) :
    Suited file (some Known.driverName) := by
  rintro _ ⟨⟩
  exact ⟨by decide, (canHost_eq_true.1 h).2⟩

/-- **Which files can have a suite entry**: those that import the testing package under a name and
not the instrumentation under its own, and where every new callee can be scanned. -/
theorem hosts_iff {path : Path} {source : String} {file : SourceFile}
    (hf : SourceFile.parse path source = .ok file) (hn : Named s.sdk)
    (hp : PlainPath s.sdk.importPath) : s.Hosts file ↔ s.canHost file = true ∧
      (∀ c ∈ Patch.targets file s.sdk, Readable source (qualifier file s.sdk) c) ∧
      (scan (openText (entryQualifier file s.sdk) s.sdk.suiteEntry)).2 = none := by
  refine and_congr_right fun hc => ?_
  rw [emits_iff hf hn hp (suited_driver hc)]
  simp only [Option.isSome_some, forall_const]

/-! ### Small steps -/

/-- A step with two files. -/
def twoFiles (file file' : SourceFile) : Step := (oneFile file).addFile file'

theorem units_twoFiles {file file' : SourceFile} (h : file.package ≠ file'.package) :
    (twoFiles file file').units = [⟨file.package, [file]⟩, ⟨file'.package, [file']⟩] := by
  simp [twoFiles, oneFile, Step.addFile, Step.new, addToUnits, h]

/-- The directories of small steps work on a bare disk. -/
theorem works_bareDisk (hs : s.session = .new ⟨"/tmp"⟩ "b") (ht : s.tempDir = ⟨"/tmp"⟩)
    (hp : ∀ unit ∈ s.units, ∀ file ∈ unit.files,
      file.path = ⟨"a_test.go"⟩ ∨ file.path = ⟨"b_test.go"⟩)
    (hroom : (s.units.map TestUnit.cost).sum ≤ 8) : s.Works bareDisk where
  reliable := reliable_bareDisk
  lock := by
    rw [hs]
    exact ⟨["tmp", ".test_main_packages_b.lock"], rfl, rfl, by decide⟩
  temp unit hu file hf := by
    rw [ht]
    rcases hp unit hu file hf with h | h
    · rw [h]
      exact ⟨["tmp", "a_test_000000_.go"], rfl⟩
    · rw [h]
      exact ⟨["tmp", "b_test_000000_.go"], rfl⟩
  room := room_bareDisk (hroom.trans_lt (by decide))
  apart := by
    refine apart_of_head (fun unit hu file hf => ?_) bareDisk
    rcases hp unit hu file hf with h | h
    · rw [h]
      decide
    · rw [h]
      decide

/-- A file without calls to redirect that can be given a suite entry. -/
def Hostable (file : SourceFile) : Prop :=
  file.importsInstrumentation .default = false ∧
    (file.localName? Known.testingPackage).isSome = true ∧ Patch.targets file .default = [] ∧
    (scan (openText (entryQualifier file .default) Instrumentation.default.suiteEntry)).2 = none

instance : DecidablePred Hostable := fun _ => inferInstanceAs (Decidable (_ ∧ _))

theorem Hostable.hosts {path : Path} {source : String} {file : SourceFile} (h : Hostable file)
    (hf : SourceFile.parse path source = .ok file) (hs : s.sdk = .default) : s.Hosts file := by
  obtain ⟨hforeign, hlocal, htargets, hentry⟩ := h
  have hn : Named s.sdk := hs ▸ named_default
  have hp : PlainPath s.sdk.importPath := hs ▸ plainPath_default
  rw [hosts_iff hf hn hp, canHost_eq_true, hs]
  exact ⟨⟨hforeign, hlocal⟩, by simp [htargets], hentry⟩

theorem cost_oneFile (file : SourceFile) : ((oneFile file).units.map TestUnit.cost).sum = 4 := rfl

theorem works_oneFile {file : SourceFile}
    (hp : file.path = ⟨"a_test.go"⟩ ∨ file.path = ⟨"b_test.go"⟩) :
    (oneFile file).Works bareDisk := by
  refine works_bareDisk rfl rfl ?_ ?_
  · rw [units_oneFile]
    simpa using hp
  · rw [cost_oneFile]
    decide

/-- A step with two files of different packages, on a bare disk. -/
theorem works_twoFiles {file file' : SourceFile} (hne : file.package ≠ file'.package)
    (hp : file.path = ⟨"a_test.go"⟩) (hp' : file'.path = ⟨"b_test.go"⟩) :
    (twoFiles file file').Works bareDisk := by
  refine works_bareDisk rfl rfl ?_ ?_
  · rw [units_twoFiles hne]
    simp [hp, hp']
  · rw [units_twoFiles hne]
    simp [TestUnit.cost]

theorem readUnits_bareDisk : (Session.new ⟨"/tmp"⟩ "b").readUnits bareDisk = .ok [] := rfl

theorem exists_oneTest : ∃ file, SourceFile.parse ⟨"a_test.go"⟩ (oneTest "p") = .ok file ∧
    file.path = ⟨"a_test.go"⟩ ∧ file.package = "p" ∧ file.hasSuiteEntry = false ∧ Hostable file :=
  exists_parsed (by decide +kernel)

theorem exists_externalTest : ∃ file,
    SourceFile.parse ⟨"b_test.go"⟩ (oneTest "p_test") = .ok file ∧ file.path = ⟨"b_test.go"⟩ ∧
    file.package = "p" ++ Known.externalSuffix ∧ file.hasSuiteEntry = false ∧ Hostable file :=
  exists_parsed (by decide +kernel)

/-- A package with one file that can have a suite entry is given one. -/
theorem given_oneFile {path : Path} {source : String} {file : SourceFile}
    (hf : SourceFile.parse path source = .ok file) (hw : (oneFile file).Works d)
    (hr : (oneFile file).session.readUnits d = .ok [])
    (hx : endsWith Known.externalSuffix file.package = false) (hsuite : file.hasSuiteEntry = false)
    (hhost : Hostable file) : (oneFile file).given d = [file.package] := by
  have hmem : file.package ∈ (oneFile file).given d := by
    refine (mem_given_iff (built_oneFile hf) hw hr (mem_units_oneFile file)
      (flat_of_plain _ hx)).2 ⟨?_, ?_, file, by simp, hhost.hosts hf rfl⟩
    · simpa [TestUnit.hasSuiteEntry] using hsuite
    · rw [← Bool.not_eq_true, defers_plain _ hx, units_oneFile]
      simpa using (ne_suffixed file.package).symm
  have hsub : ((oneFile file).given d).Sublist [file.package] := givenFrom_subset ..
  rcases List.sublist_singleton.1 hsub with hnone | hone
  · rw [hnone] at hmem
    exact absurd hmem List.not_mem_nil
  · exact hone

end TestWeave.Build
