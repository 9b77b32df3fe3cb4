import TestWeave.Proofs.Outcome
import TestWeave.Proofs.Turns

/-!
# Packages in another order

The units of a step are planned one after the other, each with what those before it have recorded. It
does not matter in which order they come, as long as the files of each package stand as they did: the
decisions for two siblings depend on what was recorded before the plan and on what is part of the
step.

* `units_withFiles`: the units of a list of files, in closed form; `Reordered.units`: in another order
  they are the same units.
* `mem_given_perm`, `mem_output_perm`: what is given and written for the same units.
* `planned_alike`: the plans of two orders.
-/

namespace TestWeave.Build

open TestWeave.Change TestWeave.Host TestWeave.Source TestWeave.Text

/-- The files in an order in which those of each package stand as they did. -/
def Reordered (files files' : List SourceFile) : Prop :=
  ∀ package, files.filter (·.package = package) = files'.filter (·.package = package)

/-- The step with more files. -/
def Step.withFiles (s : Step) (files : List SourceFile) : Step := files.foldl Step.addFile s

variable {s : Step} {files files' : List SourceFile} {us : List TestUnit} {unit : TestUnit} {d : Disk}
  {recorded : List String}

/-! ### Units of files -/

theorem Reordered.perm (h : Reordered files files') : files.Perm files' := by
  rw [List.perm_iff_count]
  intro file
  have hcount := congrArg (List.count file) (h file.package)
  rwa [List.count_filter (by simp), List.count_filter (by simp)] at hcount

theorem withFiles_eq (s : Step) (files : List SourceFile) :
    s.withFiles files = { s with units := (s.withFiles files).units } := by
  induction files using List.reverseRecOn with
  | nil => rfl
  | append_singleton files file ih =>
    have happend : s.withFiles (files ++ [file]) = (s.withFiles files).addFile file :=
      List.foldl_append
    rw [happend, Step.addFile, ih]

theorem addToUnits_map (file : SourceFile) (group : String → List SourceFile) {names : List String}
    (h : names.Nodup) :
    addToUnits file (names.map fun name => ⟨name, group name⟩) =
      if file.package ∈ names then names.map fun name =>
        ⟨name, if file.package = name then group name ++ [file] else group name⟩
      else (names.map fun name => ⟨name, group name⟩) ++ [⟨file.package, [file]⟩] := by
  induction names with
  | nil => rfl
  | cons name names ih =>
    obtain ⟨hnot, hnames⟩ := List.nodup_cons.1 h
    rw [List.map_cons, addToUnits]
    by_cases hname : name = file.package
    · subst hname
      have hrest : ∀ other ∈ names, file.package ≠ other := fun other ho he => hnot (he ▸ ho)
      rw [if_pos rfl, if_pos List.mem_cons_self, List.map_cons, if_pos rfl]
      refine congrArg _ (List.map_congr_left fun other ho => ?_)
      rw [if_neg (hrest other ho)]
    · have hname' : file.package ≠ name := fun he => hname he.symm
      rw [if_neg hname, ih hnames]
      by_cases hmem : file.package ∈ names <;> simp [hmem, hname']

/-- **The units of a list of files**: one for each package, in the order in which the packages came,
with the files of the package. -/
theorem units_withFiles (h : s.units = []) (files : List SourceFile) :
    (s.withFiles files).units = (files.map (·.package)).eraseDups.map fun name =>
      ⟨name, files.filter (·.package = name)⟩ := by
  induction files using List.reverseRecOn with
  | nil => exact h
  | append_singleton files file ih =>
    have happend : (s.withFiles (files ++ [file])).units =
        addToUnits file (s.withFiles files).units := by
      rw [Step.withFiles, List.foldl_append]
      rfl
    have hfilter : ∀ name, (files ++ [file]).filter (·.package = name) =
        if file.package = name then files.filter (·.package = name) ++ [file]
        else files.filter (·.package = name) := by
      intro name
      rw [List.filter_append]
      by_cases hname : file.package = name <;> simp [hname]
    rw [happend, ih, addToUnits_map _ _ (nodup_eraseDups _), List.map_append, List.map_singleton,
      eraseDups_concat]
    simp only [List.mem_eraseDups, hfilter]
    split
    · rfl
    · rename_i hnew
      rw [List.map_append, List.map_singleton, if_pos rfl]
      -- no file of the package has come before
      have hnone : files.filter (·.package = file.package) = [] := by
        simpa [List.filter_eq_nil_iff] using hnew
      rw [hnone, List.nil_append]
      refine congrArg (· ++ _) (List.map_congr_left fun name hname => ?_)
      rw [if_neg]
      rintro rfl
      exact hnew (by simpa using hname)

/-- **In another order** the units are the same. -/
theorem Reordered.units (h : Reordered files files') (hs : s.units = []) :
    (s.withFiles files).units.Perm (s.withFiles files').units := by
  have hgroup : (fun name => (⟨name, files.filter (·.package = name)⟩ : TestUnit)) =
      fun name => ⟨name, files'.filter (·.package = name)⟩ := by
    funext name
    rw [h name]
  rw [units_withFiles hs, units_withFiles hs, hgroup]
  refine ((List.perm_ext_iff_of_nodup (nodup_eraseDups _) (nodup_eraseDups _)).2 fun name => ?_).map _
  rw [List.mem_eraseDups, List.mem_eraseDups]
  exact (h.perm.map _).mem_iff

theorem files_addToUnits (file : SourceFile) (us : List TestUnit) :
    ((addToUnits file us).flatMap (·.files)).Perm (us.flatMap (·.files) ++ [file]) := by
  induction us with
  | nil => simp [addToUnits]
  | cons unit us ih =>
    rw [addToUnits]
    split
    · simp only [List.flatMap_cons, List.append_assoc]
      exact List.perm_append_comm.append_left _
    · simp only [List.flatMap_cons, List.append_assoc]
      exact ih.append_left _

/-- A package is not external to an external one if no name says so. -/
theorem flat_withFiles (hs : s.units = [])
    (h : ∀ file ∈ files, endsWith "_test_test" file.package = false)
    (hu : unit ∈ (s.withFiles files).units) : (s.withFiles files).Flat unit := by
  intro v _ hname
  rw [units_withFiles hs] at hu
  obtain ⟨name, hmem, rfl⟩ := List.mem_map.1 hu
  obtain ⟨file, hfile, rfl⟩ := List.mem_map.1 (List.mem_eraseDups.1 hmem)
  by_contra hends
  obtain ⟨front, hfront⟩ := List.isSuffixOf_iff_suffix.1 (eq_true_of_ne_false hends)
  have htwice : endsWith "_test_test" file.package = true := by
    refine List.isSuffixOf_iff_suffix.2 ⟨front, ?_⟩
    have hpackage : file.package = v.name ++ Known.externalSuffix := hname
    rw [hpackage, String.toList_append, ← hfront, List.append_assoc]
    rfl
  exact Bool.false_ne_true ((h file hfile).symm.trans htwice)

/-- The units of files have these files. -/
theorem files_withFiles (hs : s.units = []) (files : List SourceFile) :
    ((s.withFiles files).units.flatMap (·.files)).Perm files := by
  induction files using List.reverseRecOn with
  | nil => simp [Step.withFiles, hs]
  | append_singleton files file ih =>
    rw [Step.withFiles, List.foldl_append]
    exact (files_addToUnits file _).trans (ih.append_right _)

theorem built_withFiles (hb : Built s)
    (hf : ∀ file ∈ files, SourceFile.parse file.path file.source = .ok file) :
    Built (s.withFiles files) := by
  induction files using List.reverseRecOn with
  | nil => exact hb
  | append_singleton files file ih =>
    rw [Step.withFiles, List.foldl_append]
    exact .addFile (hf file (by simp)) (ih fun f hmem => hf f (List.mem_append_left _ hmem))

/-! ### Steps with the same units -/

/-- A step that can be planned on a disk with a record of units: its directories work, its paths are
different, and no package is part of it that would be external to an external one. -/
structure Step.Plannable (s : Step) (d : Disk) (recorded : List String) : Prop where
  built : Built s
  works : s.Works d
  read : s.session.readUnits d = .ok recorded
  flat : ∀ unit ∈ s.units, s.Flat unit
  distinct : DistinctPaths (s.units.flatMap (·.files))

theorem defers_perm (hp : s.units.Perm us) (name : String) (recorded : List String) :
    ({ s with units := us } : Step).defers name recorded = s.defers name recorded := by
  have hany : ∀ p : TestUnit → Bool, us.any p = s.units.any p := fun p => hp.symm.any_eq
  unfold Step.defers
  simp only [hany]

/-- **In another order** a step can be planned as well. -/
theorem Step.Plannable.perm (h : s.Plannable d recorded) (hp : s.units.Perm us)
    (hb : Built { s with units := us }) :
    ({ s with units := us } : Step).Plannable d recorded where
  built := hb
  works := {
    reliable := h.works.reliable
    lock := h.works.lock
    temp := fun unit hu => h.works.temp unit (hp.mem_iff.2 hu)
    room := by
      have hcost : (us.map TestUnit.cost).sum = (s.units.map TestUnit.cost).sum :=
        (hp.map _).sum_nat.symm
      rw [hcost]
      exact h.works.room
    apart := fun unit hu => h.works.apart unit (hp.mem_iff.2 hu) }
  read := h.read
  flat := fun unit hu v hv => h.flat unit (hp.mem_iff.2 hu) v (hp.mem_iff.2 hv)
  distinct := ((hp.flatMap_right _).map _).nodup_iff.1 h.distinct

/-- **The same units** are given a suite entry. -/
theorem mem_given_perm (h : s.Plannable d recorded) (hp : s.units.Perm us)
    (hb : Built { s with units := us }) (hu : unit ∈ s.units) :
    unit.name ∈ ({ s with units := us } : Step).given d ↔ unit.name ∈ s.given d := by
  have h' := h.perm hp hb
  have hu' : unit ∈ us := hp.mem_iff.1 hu
  rw [mem_given_iff h.built h.works h.read hu (h.flat unit hu),
    mem_given_iff h'.built h'.works h'.read hu' (h'.flat unit hu'), defers_perm hp]
  rfl

/-- **The same files** are written, each with the same suite entry or none. -/
theorem mem_output_perm (h : s.Plannable d recorded) (hp : s.units.Perm us)
    (hb : Built { s with units := us }) {m : SourceFile × Option String} :
    m ∈ ({ s with units := us } : Step).output d ↔ m ∈ s.output d := by
  rw [mem_output hb, mem_output h.built]
  refine exists_congr fun unit =>
    (and_congr_left' hp.symm.mem_iff).trans (and_congr_right fun hu => ?_)
  rw [decide_eq_decide.2 (mem_given_perm h hp hb hu)]
  rfl

/-! ### Plans that come to the same -/

/-- **Plans that come to the same**: the same paths are rewritten, to the same texts, the same units
are given a suite entry, in the same files, and the same units are recorded. -/
structure SamePlan (s s' : Step) (d : Disk) : Prop where
  keys : ∀ path, path ∈ (s.plan d).1.map Prod.fst ↔ path ∈ (s'.plan d).1.map Prod.fst
  texts : ∀ path ∈ (s.plan d).1.map Prod.fst, ∃ temp temp' text,
    (s.plan d).1.find? path = some temp ∧ (s.plan d).2.readText temp = .ok text ∧
    (s'.plan d).1.find? path = some temp' ∧ (s'.plan d).2.readText temp' = .ok text
  given : ∀ name, name ∈ s.given d ↔ name ∈ s'.given d
  hosts : ∀ file, (file, some Known.driverName) ∈ s.output d ↔
    (file, some Known.driverName) ∈ s'.output d
  recorded : ∃ units units', s.session.readUnits (s.plan d).2 = .ok units ∧
    s'.session.readUnits (s'.plan d).2 = .ok units' ∧ units.Perm units'

/-- A file that is written can be read. -/
theorem Step.Plannable.read_written (h : s.Plannable d recorded) {m : SourceFile × Option String}
    (hm : m ∈ s.output d) : ∃ temp source, (s.plan d).1.find? m.1.path = some temp ∧
      (prepared m.1 s.sdk m.2).emit = .ok source ∧
      (s.plan d).2.readText temp = .ok (tempText d m.1.path source) := by
  have hfilled := filled_plan h.built h.works h.read h.distinct
  obtain ⟨temp, source, loc, hfind, hmade⟩ := hfilled.written m hm
  obtain ⟨unit, hu, hf⟩ := file_of_mem_output h.built hm
  exact ⟨temp, source, hfind, hmade.emit, (hmade.read (hmade.not_record h.works.apart hu hf)).2⟩

theorem Step.Plannable.mem_keys (h : s.Plannable d recorded) {path : Path} :
    path ∈ (s.plan d).1.map Prod.fst ↔ ∃ m ∈ s.output d, m.1.path = path :=
  mem_keys_iff h.built h.distinct (filled_plan h.built h.works h.read h.distinct)

/-- **The same units** in another order come to the same plan. -/
theorem samePlan_of_perm (h : s.Plannable d recorded) (hp : s.units.Perm us)
    (hb : Built { s with units := us }) : SamePlan s { s with units := us } d := by
  have h' := h.perm hp hb
  have houtput := fun m => mem_output_perm h hp hb (m := m)
  have hgiven : ∀ name, name ∈ s.given d ↔ name ∈ ({ s with units := us } : Step).given d := by
    intro name
    by_cases hname : name ∈ s.units.map TestUnit.name
    · obtain ⟨unit, hu, rfl⟩ := List.mem_map.1 hname
      exact (mem_given_perm h hp hb hu).symm
    · have hname' : name ∉ us.map TestUnit.name := fun hm => hname ((hp.map _).mem_iff.2 hm)
      exact iff_of_false (fun hm => hname ((givenFrom_subset ..).subset hm))
        fun hm => hname' ((givenFrom_subset ..).subset hm)
  refine ⟨fun path => ?_, fun path hpath => ?_, hgiven, fun file => (houtput _).symm, ?_⟩
  · rw [h.mem_keys, h'.mem_keys]
    exact exists_congr fun m => and_congr_left' (houtput m).symm
  · obtain ⟨m, hm, rfl⟩ := h.mem_keys.1 hpath
    obtain ⟨temp, source, hfind, hemit, hread⟩ := h.read_written hm
    obtain ⟨temp', source', hfind', hemit', hread'⟩ := h'.read_written ((houtput m).2 hm)
    obtain rfl : source = source' := Except.ok.inj (hemit.symm.trans hemit')
    exact ⟨temp, temp', _, hfind, hread, hfind', hread'⟩
  · refine ⟨_, _, readUnits_plan h.built h.works h.read,
      readUnits_plan h'.built h'.works h'.read, ?_⟩
    -- no unit is given a suite entry twice, so the two records have the same names
    have hnodup : (s.given d).Nodup := (givenFrom_subset ..).nodup h.built.nodup
    have hnodup' : (({ s with units := us } : Step).given d).Nodup :=
      (givenFrom_subset ..).nodup hb.nodup
    exact (((List.perm_ext_iff_of_nodup hnodup hnodup').2 hgiven).filter _).append_left _

/-- **The order of packages does not matter.** Files that have been parsed, with different paths and
in packages of which none ends in `_test_test`, come to the same plan in every order in which those
of each package stand as they did: where the directories of the step work, the same paths are
rewritten to the same texts, the same files are given a suite entry, and the same units are recorded,
whatever was recorded before. -/
theorem planned_alike {buildId : String} {sdk : Instrumentation} {tempDir dir : Path}
    (hf : ∀ file ∈ files, SourceFile.parse file.path file.source = .ok file)
    (hdistinct : DistinctPaths files)
    (hflat : ∀ file ∈ files, endsWith "_test_test" file.package = false)
    (h : Reordered files files')
    (hs : s = (Step.new buildId sdk tempDir).withSessionDir dir)
    (hr : (s.withFiles files).session.readUnits d = .ok recorded)
    (hw : (s.withFiles files).Works d) :
    SamePlan (s.withFiles files) (s.withFiles files') d := by
  have hb : Built s := hs ▸ .withSessionDir dir (.new ..)
  have hnil : s.units = [] := hs ▸ rfl
  have hf' : ∀ file ∈ files', SourceFile.parse file.path file.source = .ok file :=
    fun file hfile => hf file (h.perm.mem_iff.2 hfile)
  have hbuilt' := built_withFiles hb hf'
  -- the two steps differ in the order of their units only
  have hsame : s.withFiles files' =
      { s.withFiles files with units := (s.withFiles files').units } := by
    rw [withFiles_eq s files, withFiles_eq s files']
  rw [hsame] at hbuilt' ⊢
  exact samePlan_of_perm ⟨built_withFiles hb hf, hw, hr, fun _ => flat_withFiles hnil hflat,
    ((files_withFiles hnil files).map _).nodup_iff.2 hdistinct⟩ (h.units hnil) hbuilt'

theorem planned_alike_of_siblings : ∃ file file',
    SourceFile.parse ⟨"a_test.go"⟩ (oneTest "p") = .ok file ∧
    SourceFile.parse ⟨"b_test.go"⟩ (oneTest "p_test") = .ok file' ∧
    SamePlan (twoFiles file file') (twoFiles file' file) bareDisk := by
  obtain ⟨file, hf, hpath, hpackage, -⟩ := exists_oneTest
  obtain ⟨file', hf', hpath', hpackage', -⟩ := exists_externalTest
  have hne : file.package ≠ file'.package := by
    rw [hpackage, hpackage']
    decide
  refine ⟨file, file', hf, hf', ?_⟩
  have hparsed : ∀ f ∈ [file, file'], SourceFile.parse f.path f.source = .ok f := by
    simp only [List.mem_cons, List.not_mem_nil, or_false, forall_eq_or_imp, forall_eq]
    obtain ⟨-, hsource, -⟩ := parse_eq_ok hf
    obtain ⟨-, hsource', -⟩ := parse_eq_ok hf'
    rw [hpath, hpath', hsource, hsource']
    exact ⟨hf, hf'⟩
  have hdistinct : DistinctPaths [file, file'] := by
    simp only [DistinctPaths, List.map_cons, List.map_nil, hpath, hpath']
    decide
  have hflat : ∀ f ∈ [file, file'], endsWith "_test_test" f.package = false := by
    simp only [List.mem_cons, List.not_mem_nil, or_false, forall_eq_or_imp, forall_eq, hpackage,
      hpackage']
    decide
  have horder : Reordered [file, file'] [file', file] := by
    intro package
    by_cases hfirst : file.package = package
    · subst hfirst
      simp [hne.symm]
    · simp [List.filter_cons, hfirst]
  have hstep : Step.new "b" .default ⟨"/tmp"⟩ =
      (Step.new "b" .default ⟨"/tmp"⟩).withSessionDir ⟨"/tmp"⟩ := rfl
  exact planned_alike hparsed hdistinct hflat horder hstep readUnits_bareDisk
    (works_twoFiles hne hpath hpath')

end TestWeave.Build
