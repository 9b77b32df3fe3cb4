import TestWeave.Build.Process
import TestWeave.Proofs.Entries
import TestWeave.Proofs.Header
import TestWeave.Proofs.Listing
import TestWeave.Proofs.Swapping

/-!
# Changed files and the instrumentation they import

A compile command whose files were changed is given the changed files, and its import configuration
lists the instrumentation that these import.

* `keeps_planned`: a changed file that is written in the course of a plan stays as it was written.
* `keeps_lists`: a configuration lists the same packages in the course of a plan, even one that is
  kept in the place of the record.
* `injectCompile_spec`: the configuration of a command that uses the instrumentation.
* `registered_of_processCompile`: the same said of all that is done with a compile command.
-/

namespace TestWeave.Build

open TestWeave.Change TestWeave.Command TestWeave.Host TestWeave.Source TestWeave.Text

variable {s : Step} {d d' d₀ : Disk} {temp path : Path} {file : SourceFile} {entry : Option String}
  {result : PathMap}

/-! ### What is written -/

/-- **A changed file that was written**, made from a file of the step that had to be changed. -/
def Step.Written (s : Step) (d₀ d : Disk) (temp : Path) : Prop :=
  ∃ unit ∈ s.units, ∃ file ∈ unit.files, ∃ entry text loc, Suited file entry ∧
    (entry = none → (prepared file s.sdk none).isEmpty = false) ∧
    s.Made d₀ d temp file entry text loc

theorem Step.Written.grown (h : s.Written d₀ d temp) (hd : Disk.Grown (s.AtRecord d₀) d₀ d)
    (hg : Disk.Grown (s.AtRecord d) d d') : s.Written d₀ d' temp := by
  obtain ⟨unit, hu, file, hf, entry, text, loc, he, hchanged, hmade⟩ := h
  exact ⟨unit, hu, file, hf, entry, text, loc, he, hchanged, hmade.grown hd hg⟩

/-- Where no name is that of the record, nothing is written in its place. -/
theorem Step.Written.not_record (h : s.Written d₀ d temp) (ha : s.Apart d₀) :
    d₀.resolve temp ≠ d₀.resolve s.session.path := by
  obtain ⟨unit, hu, file, hf, entry, text, loc, -, -, hmade⟩ := h
  exact fun hsame => hmade.not_record ha hu hf (hsame.symm.trans hmade.place)

/-- **What a plan has come to**: for paths of files of the step, where the changed files are. -/
structure Step.Planned (s : Step) (d₀ : Disk) (result : PathMap) (d : Disk) : Prop where
  grown : Disk.Grown (s.AtRecord d₀) d₀ d
  key : ∀ e ∈ result, ∃ unit ∈ s.units, ∃ file ∈ unit.files, e.1 = file.path
  written : ∀ e ∈ result, s.Written d₀ d e.2

theorem Step.Planned.grow (h : s.Planned d₀ result d) (hg : Disk.Grown (s.AtRecord d) d d') :
    s.Planned d₀ result d' where
  grown := h.grown.trans (atRecord_grown h.grown hg)
  key := h.key
  written e he := (h.written e he).grown h.grown hg

/-- One more changed file. -/
theorem Step.Planned.emitTemp (h : s.Planned d₀ result d) {unit : TestUnit} (hu : unit ∈ s.units)
    (hf : file ∈ unit.files) (he : Suited file entry)
    (hchanged : entry = none → (prepared file s.sdk none).isEmpty = false)
    (hemit : Build.emitTemp d s.tempDir (prepared file s.sdk entry) = (some temp, d')) :
    s.Planned d₀ (result.insert file.path temp) d' := by
  have hgrown := h.grow (grown_emitTemp hemit)
  refine ⟨hgrown.grown, fun e hm => ?_, fun e hm => ?_⟩
  · rcases (SortedMap.mem_insert hm).1 with hkey | ⟨e', hm', hkey⟩
    · exact ⟨unit, hu, file, hf, hkey⟩
    · rw [← hkey]
      exact h.key e' hm'
  · rcases (SortedMap.mem_insert hm).2 with hvalue | ⟨e', hm', hvalue⟩
    · obtain ⟨text, loc, hmade⟩ := made_of_emitTemp h.grown hemit
      rw [hvalue]
      exact ⟨unit, hu, file, hf, entry, text, loc, he, hchanged, hmade⟩
    · rw [← hvalue]
      exact hgrown.written e' hm'

/-- **All that a plan does** leaves what was written as it is. -/
theorem keeps_planned (s : Step) (d₀ : Disk) : s.Keeps fun _ result d => s.Planned d₀ result d where
  spend h := h
  enter h := h.grow (grown_enter _ s.session _)
  host := by
    intro n result d d₁ g unit file temp d' hu _ he _ hf hc hemit h
    obtain ⟨hentered, hsession⟩ := grown_of_enter he (s.AtRecord d)
    have hwritten := (h.grow hentered).emitTemp hu hf (suited_driver hc) (by simp) hemit
    exact hwritten.grow (grown_recordUnit hsession unit.name)
  redirect := by
    intro n result d unit file temp d' hu hf _ hchanged hemit h
    exact h.emitTemp hu hf (by simp [Suited]) (fun _ => hchanged) hemit

/-! ### What is changed -/

theorem isEmpty_insert (m : PathMap) (k v : Path) : (m.insert k v).isEmpty = false := by
  unfold PathMap.insert
  cases m with
  | nil => rfl
  | cons e m =>
    unfold SortedMap.insert
    split <;> rfl

/-- What is changed stays in the result of a plan. -/
theorem keeps_changed (s : Step) : s.Keeps fun _ result _ => result.isEmpty = false where
  spend h := h
  enter h := h
  host := by
    intros
    exact isEmpty_insert ..
  redirect := by
    intros
    exact isEmpty_insert ..

theorem changed_of_givenFrom {units : List TestUnit} (hsub : units ⊆ s.units) {name : String}
    (hm : name ∈ s.givenFrom units (result, d)) : (s.planAll units (result, d)).1.isEmpty = false := by
  induction units generalizing result d with
  | nil => simp [Step.givenFrom] at hm
  | cons unit units ih =>
    obtain ⟨hunit, hunits⟩ := List.cons_subset.1 hsub
    rw [Step.givenFrom, List.mem_append] at hm
    rcases hm with hm | hm
    · split at hm
      · rename_i hgives
        obtain ⟨g, d₁, temp, d₂, file, -, -, -, hplan⟩ := planUnit_of_gives hgives
        have hchanged : (s.planUnit unit result d).1.isEmpty = false := by
          rw [hplan]
          exact (keeps_changed s).writeChanged (n := 0) (d := (g.record unit.name d₂).2.2) hunit
            (List.Subset.refl _) (isEmpty_insert ..)
        exact (keeps_changed s).planAll (n := 0) (d := (s.planUnit unit result d).2) hunits hchanged
      · simp at hm
    · exact ih hunits hm

/-- **A plan that gives a unit a suite entry** changes a file. -/
theorem changed_of_given {name : String} (h : name ∈ s.given d) : (s.plan d).1.isEmpty = false :=
  changed_of_givenFrom (List.Subset.refl _) h

/-! ### Configurations in the course of a plan -/

/-- What is recorded is what was read when the section was entered. -/
theorem units_enter {session : Session} {g : Guard} {units : List String}
    (he : session.enter d = (g, d')) (hr : session.readUnits d' = .ok units) : g.units = units := by
  rw [(units_of_enter he).2, Session.listing, hr]
  rfl

/-- **What is recorded leaves the packages of a configuration as they are**, even if the configuration
is the record itself and the record is written as a whole. -/
theorem packages_record {g : Guard} {text unit : String} (hr : d.readText path = .ok text)
    (hd : d.Reliable ∨ d.resolve g.session.path ≠ d.resolve path) (hu : IsName unit)
    (hg : d.resolve g.session.path = d.resolve path → g.units = unitsOf text) :
    ∃ text', (g.record unit d).2.2.readText path = .ok text' ∧
      (ImportCfg.parse text').packages = (ImportCfg.parse text).packages := by
  have hgrown : Disk.Grown (fun loc => d.resolve g.session.path = .ok loc) d
      (g.record unit d).2.2 := grown_record (fun _ h => h) unit
  by_cases hsame : d.resolve g.session.path = d.resolve path
  · have hd := hd.resolve_right (not_not_intro hsame)
    rcases hrecord : g.record unit d with ⟨result, g', d'⟩
    rw [hrecord] at hgrown
    cases Guard.outcome_iff.2 hrecord with
    | known => exact ⟨text, hr, rfl⟩
    | failed _ hsave =>
      rw [hd.save_eq_error hsave]
      exact ⟨text, hr, rfl⟩
    | saved _ hsave =>
      -- the configuration is written over by a record that keeps its lines
      obtain ⟨loc, -, -, hpath, -, hs, -⟩ := Disk.readText_eq_ok_iff.1 hr
      have hpath' := (hgrown.resolve path loc).2 hpath
      have hsession' := (hgrown.resolve g.session.path loc).2 (hsame.trans hpath)
      have hread := Disk.readText_write (Disk.save_eq_ok hsave).2
      refine ⟨_, Disk.readText_of_same hread (hpath'.trans hsession'.symm) hs, ?_⟩
      rw [hg hsame, packages_parse_recordText (fun u => listed_of_mem_unitsOf) hu, packages_parse]
  · exact ⟨text, hgrown.readText hr fun loc hpath hsession => hsame (hsession.trans hpath.symm), rfl⟩

/-- What is at a path is not torn in the course of a plan: writes get through, or it is not the
record. -/
def Step.Intact (s : Step) (path : Path) (d : Disk) : Prop :=
  d.Reliable ∨ ∀ loc, d.resolve path = .ok loc → ¬s.AtRecord d loc

theorem Step.Intact.grown {P : Location → Prop} (h : s.Intact path d) (hg : Disk.Grown P d d') :
    s.Intact path d' := by
  refine h.imp hg.reliable.2 fun hnot loc hr hat => ?_
  exact hnot loc ((hg.resolve _ _).1 hr) ((hg.resolve _ _).1 hat)

/-- A configuration at a path lists the packages. -/
def Lists (path : Path) (packages : PackageMap) (d : Disk) : Prop :=
  ∃ text, d.readText path = .ok text ∧ (ImportCfg.parse text).packages = packages

theorem Lists.grown {packages : PackageMap} (h : Lists path packages d)
    (hg : Disk.Grown (fun _ => False) d d') : Lists path packages d' := by
  obtain ⟨text, hr, hp⟩ := h
  exact ⟨text, hg.readText hr fun _ _ => not_false, hp⟩

/-- **All that a plan does** leaves the packages of a configuration as they are. -/
theorem keeps_lists (hb : Built s) (path : Path) (packages : PackageMap) :
    s.Keeps fun _ _ d => s.Intact path d ∧ Lists path packages d where
  spend h := h
  enter h :=
    ⟨h.1.grown (grown_enter (fun _ => False) s.session _), h.2.grown (grown_enter _ s.session _)⟩
  host := by
    rintro n result d d₁ g unit file temp d' hu - he - - - hemit ⟨hintact, text, hr, rfl⟩
    obtain ⟨hentered, hsession⟩ := grown_of_enter he fun _ => False
    have hr₁ := hentered.readText hr fun _ _ => not_false
    have hemitted := grown_emitTemp (P := fun _ => False) hemit
    have hr' := hemitted.readText hr₁ fun _ _ => not_false
    have hintact' := (hintact.grown hentered).grown hemitted
    obtain ⟨loc, -, -, hpath, -⟩ := Disk.readText_eq_ok_iff.1 hr₁
    have hpath' := (hemitted.resolve _ _).2 hpath
    refine ⟨hintact'.grown (grown_recordUnit hsession unit.name), ?_⟩
    refine packages_record hr' (hintact'.imp_right fun hnot hsame => ?_) (hb.isName unit hu)
      fun hsame => units_enter he ?_
    · exact hnot loc hpath' (by rw [Step.AtRecord, ← hsession, hsame, hpath'])
    · -- the record could be read by the path of the configuration
      have hrecord : d₁.resolve s.session.path = .ok loc := by
        rw [← hsession]
        exact (hemitted.resolve _ _).1 (hsame.trans hpath')
      have hplain := plain_sessionName s.buildId "" (by simp)
      rw [String.append_empty] at hplain
      have hread := Disk.readText_of_same hr₁ (hrecord.trans hpath.symm)
        (Disk.endsWithSlash_join _ hplain)
      rw [Session.readUnits, hread]
  redirect := by
    intro n result d unit file temp d' _ _ _ _ hemit h
    exact ⟨h.1.grown (grown_emitTemp (P := fun _ => False) hemit), h.2.grown (grown_emitTemp hemit)⟩

/-! ### Registering the instrumentation -/

section

variable {i : Injector} {c c' : CommandLine} {archives : PackageMap} {cfg : ImportCfg} {b : Bool}
  {text : String} {loc : Location}

/-- **The copy of a configuration** can be read once it is written. It lists what was listed, and
every archive that was not. -/
theorem listed_of_createTemp {dir copy : Path} (hl : ∀ e ∈ archives, Listable e.1 e.2.text)
    (hr : ImportCfg.read d ⟨text⟩ = .ok cfg)
    (hw : d.createTemp dir "importcfg_" "" (cfg.addAll archives).2.render.toUTF8 = (.ok copy, d')) :
    ∃ text', d'.readText copy = .ok text' ∧ ∀ package,
      (ImportCfg.parse text').archive? package =
        (cfg.archive? package).or (archives.find? package) := by
  obtain ⟨source, -, rfl⟩ := read_eq_ok.1 hr
  obtain ⟨hfaithful, -, harchive⟩ := addAll_spec hl (faithful_parse source)
  refine ⟨_, Disk.readText_createTemp (Disk.plain_numbered (by decide) (by decide)) hw,
    fun package => ?_⟩
  rw [← harchive, ImportCfg.archive?, packages_parse_render hfaithful, ImportCfg.archive?]

/-- **What extending a configuration comes to**: it is not known what to register, all of it is listed
already, a copy cannot be written, or the command is given one. -/
inductive Injector.Extension (i : Injector) (c : CommandLine) (cfg : ImportCfg) (d : Disk) :
    Except InjectError Bool × CommandLine × Disk → Prop
  | unknown {e : InjectError} {d₁ : Disk} : i.source d = (.error e, d₁) →
      i.Extension c cfg d (.error e, c, d₁)
  | complete {archives : PackageMap} {d₁ : Disk} : i.source d = (.ok archives, d₁) →
      (cfg.addAll archives).1 = 0 → i.Extension c cfg d (.ok false, c, d₁)
  | unwritten {archives : PackageMap} {d₁ : Disk} {e : IoError} : i.source d = (.ok archives, d₁) →
      d₁.createTemp i.tempDir "importcfg_" "" (cfg.addAll archives).2.render.toUTF8 =
        (.error e, d₁) →
      i.Extension c cfg d (.error (.write e), c, d₁)
  | copied {archives : PackageMap} {d₁ d₂ : Disk} {copy : Path} :
      i.source d = (.ok archives, d₁) →
      d₁.createTemp i.tempDir "importcfg_" "" (cfg.addAll archives).2.render.toUTF8 =
        (.ok copy, d₂) →
      i.Extension c cfg d (.ok true, c.setFlag "importcfg" copy.text, d₂)

theorem extension_extend (i : Injector) (c : CommandLine) (cfg : ImportCfg) (d : Disk) :
    i.Extension c cfg d (i.extend c cfg d) := by
  unfold Injector.extend
  split
  · rename_i e d₁ hsource
    exact .unknown hsource
  · rename_i archives d₁ hsource
    split
    · rename_i hadd
      exact .complete hsource (by rw [hadd])
    · rename_i cfg' hadd
      obtain rfl : (cfg.addAll archives).2 = cfg' := by rw [hadd]
      split
      · rename_i e d₂ hw
        obtain rfl := Disk.createTemp_eq_error hw
        exact .unwritten hsource hw
      · rename_i copy d₂ hw
        exact .copied hsource hw

/-- **A configuration that is extended**: the command uses one that lists what it listed, and every
archive that is not listed yet. -/
theorem extend_spec (hp : c.Paired) (hs : ∀ d, i.source d = (.ok archives, d))
    (hl : ∀ e ∈ archives, Listable e.1 e.2.text) (hc : c.importcfg? = some text)
    (hr : ImportCfg.read d ⟨text⟩ = .ok cfg) (h : i.extend c cfg d = (.ok b, c', d')) :
    Disk.Grown (fun _ => False) d d' ∧ ∃ text' cfg', c'.importcfg? = some text' ∧
      ImportCfg.read d' ⟨text'⟩ = .ok cfg' ∧
      ∀ package, cfg'.archive? package = (cfg.archive? package).or (archives.find? package) := by
  have hextension := extension_extend i c cfg d
  rw [h] at hextension
  cases hextension with
  | complete hsource hadd =>
    -- all archives are listed already: the command keeps its configuration
    obtain ⟨rfl, rfl⟩ : archives = _ ∧ d = d' := by simpa using (hs d).symm.trans hsource
    obtain ⟨source, -, rfl⟩ := read_eq_ok.1 hr
    obtain ⟨-, hsame, harchive⟩ := addAll_spec hl (faithful_parse source)
    rw [hsame hadd] at harchive
    exact ⟨.refl _ d, text, _, hc, hr, harchive⟩
  | @copied _ d₁ _ copy hsource hw =>
    obtain ⟨rfl, rfl⟩ : archives = _ ∧ d = d₁ := by simpa using (hs d).symm.trans hsource
    obtain ⟨text', hread, harchive⟩ := listed_of_createTemp hl hr hw
    exact ⟨Disk.grown_createTemp hw, copy.text, .parse text',
      flagValue?_setFlag hp copy.text fun _ => by decide, read_eq_ok.2 ⟨text', hread, rfl⟩, harchive⟩

/-- **A compile command that uses the instrumentation** is given a configuration that lists it. -/
theorem injectCompile_spec (hp : c.Paired) (hs : ∀ d, i.source d = (.ok archives, d))
    (hl : ∀ e ∈ archives, Listable e.1 e.2.text) (hu : c.candidates.any (i.usesSdk d) = true)
    (h : i.injectCompile c d = (.ok b, c', d')) :
    ∃ text cfg, c.importcfg? = some text ∧ ImportCfg.read d ⟨text⟩ = .ok cfg ∧
      Disk.Grown (fun _ => False) d d' ∧ ∃ text' cfg', c'.importcfg? = some text' ∧
        ImportCfg.read d' ⟨text'⟩ = .ok cfg' ∧
        ∀ package, cfg'.archive? package = (cfg.archive? package).or (archives.find? package) := by
  unfold Injector.injectCompile at h
  rw [if_pos hu] at h
  cases hc : c.importcfg? with
  | none => rw [hc] at h; simp at h
  | some text =>
    rw [hc] at h
    simp only at h
    cases hr : ImportCfg.read d ⟨text⟩ with
    | error => rw [hr] at h; simp at h
    | ok cfg =>
      rw [hr] at h
      exact ⟨text, cfg, rfl, hr, extend_spec hp hs hl hc hr h⟩

/-- **A configuration can be extended** where there is room for a copy and writes get through. -/
theorem exists_extend (hd : d.Reliable) (hs : ∀ d, i.source d = (.ok archives, d)) (c : CommandLine)
    (cfg : ImportCfg)
    (hcopy : d.resolve ((d.cwdPath.join i.tempDir).join ⟨Disk.tempName "importcfg_" "" 0⟩) =
      .ok loc) (hroom : d.Room i.tempDir 1) :
    ∃ c' d', i.extend c cfg d = (.ok ((cfg.addAll archives).1 != 0), c', d') := by
  unfold Injector.extend
  simp only [hs]
  rcases cfg.addAll archives with ⟨_ | count, cfg'⟩
  · exact ⟨c, d, rfl⟩
  · obtain ⟨copy, d', hw⟩ := Disk.exists_createTemp cfg'.render.toUTF8 hd
      (Disk.plain_numbered (by decide) (by decide)) hcopy hroom
    simp only [hw]
    exact ⟨_, _, rfl⟩

/-- **A command is registered** if its configuration can be read and a copy can be written. -/
theorem exists_injectCompile (hd : d.Reliable) (hs : ∀ d, i.source d = (.ok archives, d))
    (hc : c.importcfg? = some text) (hr : ImportCfg.read d ⟨text⟩ = .ok cfg)
    (hcopy : d.resolve ((d.cwdPath.join i.tempDir).join ⟨Disk.tempName "importcfg_" "" 0⟩) =
      .ok loc) (hroom : d.Room i.tempDir 1) :
    ∃ b c' d', i.injectCompile c d = (.ok b, c', d') := by
  unfold Injector.injectCompile
  split
  · obtain ⟨c', d', h⟩ := exists_extend hd hs c cfg hcopy hroom
    exact ⟨_, c', d', by simpa only [hc, hr] using h⟩
  · exact ⟨_, _, _, rfl⟩

end

/-! ### The files of a command -/

section

variable {p : Processor} {c c' : CommandLine}

/-- A step whose files are candidates of a command. -/
structure Processor.Gathers (p : Processor) (c : CommandLine) (d : Disk) (s : Step) : Prop where
  built : Built s
  sdk : s.sdk = p.sdk
  read : ∀ unit ∈ s.units, ∀ file ∈ unit.files,
    ∃ text ∈ c.candidates, SourceFile.read d ⟨text⟩ = .ok file

theorem read_source_eq_ok : SourceFile.read d path = .ok file ↔
    ∃ source, d.readText path = .ok source ∧ SourceFile.parse path source = .ok file := by
  unfold SourceFile.read
  cases d.readText path <;> simp

/-- One more file, if it can be read. -/
def addSource (d : Disk) (s : Step) (text : String) : Step :=
  match SourceFile.read d ⟨text⟩ with
  | .ok file => s.addFile file
  | .error _ => s

theorem step_eq (p : Processor) (c : CommandLine) (d : Disk) : p.step c d =
    c.candidates.foldl (addSource d)
      ((Step.new (c.buildId?.getD "") p.sdk p.tempDir).withSessionDir p.sessionDir) := rfl

theorem Processor.Gathers.addSource (h : p.Gathers c d s) {text : String}
    (ht : text ∈ c.candidates) : p.Gathers c d (addSource d s text) := by
  unfold Build.addSource
  cases hr : SourceFile.read d ⟨text⟩ with
  | error => exact h
  | ok file =>
    obtain ⟨source, -, hf⟩ := read_source_eq_ok.1 hr
    have hread : ∀ unit ∈ addToUnits file s.units, ∀ f ∈ unit.files,
        ∃ text ∈ c.candidates, SourceFile.read d ⟨text⟩ = .ok f :=
      forall_addToUnits (P := fun _ f => ∃ text ∈ c.candidates, SourceFile.read d ⟨text⟩ = .ok f)
        ⟨text, ht, hr⟩ h.read
    exact ⟨.addFile hf h.built, h.sdk, hread⟩

/-- **The step of a command** has files of the command only. -/
theorem gathers_step (p : Processor) (c : CommandLine) (d : Disk) :
    p.Gathers c d (p.step c d) := by
  rw [step_eq]
  have hstart : p.Gathers c d
      ((Step.new (c.buildId?.getD "") p.sdk p.tempDir).withSessionDir p.sessionDir) :=
    ⟨.withSessionDir _ (.new ..), rfl, fun _ hu => absurd hu List.not_mem_nil⟩
  exact List.foldlRecOn c.candidates (addSource d) hstart fun s h text ht => h.addSource ht

/-! ### Changed files of a command -/

/-- What was written at another place than that of the record is a new file. -/
theorem Step.Written.exists_free (h : s.Written d₀ d temp)
    (hr : d₀.resolve temp ≠ d₀.resolve s.session.path) :
    ∃ loc, d₀.resolve temp = .ok loc ∧ d₀.get? loc = none := by
  obtain ⟨unit, hu, file, hf, entry, text, loc, -, -, hmade⟩ := h
  exact ⟨loc, hmade.place, (hmade.read fun hat => hr (hmade.place.trans hat.symm)).1⟩

/-- **A changed file imports the instrumentation.** -/
theorem Step.Written.importsPath (h : s.Written d₀ d temp) (hb : Built s) (hn : Named s.sdk)
    (hp : PlainPath s.sdk.importPath)
    (hlines : ∀ unit ∈ s.units, ∀ file ∈ unit.files,
      '\n' ∉ (sourcePath d₀ file.path).text.toList)
    (hr : d₀.resolve temp ≠ d₀.resolve s.session.path) :
    ∃ file, SourceFile.read d temp = .ok file ∧ file.importsPath s.sdk.importPath = true := by
  obtain ⟨unit, hu, file, hf, entry, text, loc, hsuited, hchanged, hmade⟩ := h
  obtain ⟨-, hread⟩ := hmade.read fun hat => hr (hmade.place.trans hat.symm)
  obtain ⟨changed, hparse, himports⟩ := importsPath_of_emit (hb.parsed unit hu file hf) hn hp
    hsuited hchanged hmade.emit
  obtain ⟨file', hparse', houtline⟩ : ∃ file', SourceFile.parse temp (tempText d₀ file.path text) =
      .ok file' ∧ file'.outline = changed.outline := parse_tempText (hlines unit hu file hf) hparse
  refine ⟨file', read_source_eq_ok.2 ⟨_, hread, hparse'⟩, ?_⟩
  rwa [importsPath_eq_any, houtline, ← importsPath_eq_any]

theorem Processor.Gathers.candidate (h : p.Gathers c d s) {unit : TestUnit} (hu : unit ∈ s.units)
    (hf : file ∈ unit.files) :
    file.path.text ∈ c.candidates ∧ ∃ source, d.readText file.path = .ok source := by
  obtain ⟨text, htext, hread⟩ := h.read unit hu file hf
  obtain ⟨source, hsource, hparse⟩ := read_source_eq_ok.1 hread
  rw [(parse_eq_ok hparse).1]
  exact ⟨htext, source, hsource⟩

/-- **Some changed file has taken a place on the command line**, if there is any. -/
theorem exists_placed (hp : c.Paired) (hg : p.Gathers c d s) (h : s.Planned d result d')
    (hne : result ≠ [])
    (hr : ∀ e ∈ result, d.resolve e.2 ≠ d.resolve s.session.path) :
    ∃ e ∈ result, e.2.text ∈ (swapSources result c).2.candidates := by
  obtain ⟨e, he⟩ := List.exists_mem_of_ne_nil _ hne
  obtain ⟨unit, hu, file, hf, hkey⟩ := h.key e he
  obtain ⟨hcandidate, source, hsource⟩ := hg.candidate hu hf
  rw [← hkey] at hcandidate hsource
  refine exists_candidate_swapSources hp he hcandidate fun e' he' hsame => ?_
  -- a changed file is new, and the file of a candidate was there
  have hsame : e'.2 = e.1 := congrArg Path.mk hsame
  obtain ⟨loc, hloc, hfree⟩ := (h.written e' he').exists_free (hr e' he')
  obtain ⟨loc', _, _, hloc', hget, -⟩ := Disk.readText_eq_ok_iff.1 hsource
  rw [hsame, hloc'] at hloc
  rw [Except.ok.inj hloc, hfree] at hget
  simp at hget

/-- **A command that is processed**, stage by stage: what is registered for the command with the
changed files is what comes out. -/
theorem processCompile_iff {outcome : Except InjectError PathMap} :
    p.processCompile c d = (outcome, c', d') ↔
      ∃ added, p.injector.injectCompile (swapSources ((p.step c d).plan d).1 c).2
          ((p.step c d).plan d).2 = (added, c', d') ∧
        outcome = added.map fun _ => ((p.step c d).plan d).1 := by
  unfold Processor.processCompile
  rcases hplan : (p.step c d).plan d with ⟨result₁, d₁⟩
  rcases hinject : p.injector.injectCompile (swapSources result₁ c).2 d₁ with ⟨added, c₂, d₂⟩
  simp only [hinject, Prod.mk.injEq]
  cases added <;> grind [Except.map]

theorem processCompile_eq_ok : p.processCompile c d = (.ok result, c', d') ↔
    ∃ d₁ b, (p.step c d).plan d = (result, d₁) ∧
      p.injector.injectCompile (swapSources result c).2 d₁ = (.ok b, c', d') := by
  rw [processCompile_iff]
  constructor
  · rintro ⟨added, hinject, hresult⟩
    cases added with
    | error => simp [Except.map] at hresult
    | ok b =>
      obtain rfl := Except.ok.inj hresult
      exact ⟨_, b, rfl, hinject⟩
  · rintro ⟨d₁, b, hplan, hinject⟩
    rw [hplan]
    exact ⟨.ok b, hinject, rfl⟩

/-- **No changed file is compiled without the instrumentation being registered.** If a compile command
is processed and some file was changed, then every changed file parses and imports the
instrumentation, and the configuration that the command is left with lists every archive of the
instrumentation, and what the configuration that it came with lists, under the archives that it lists
there. No name of a changed file may lead to the place of the record, where the file would be written
over, and if writes may fail the configuration must not be the record. -/
theorem registered_of_processCompile {archives : PackageMap} (hc : c.Paired) (hn : Named p.sdk)
    (hp : PlainPath p.sdk.importPath) (hi : p.injector.sdk = p.sdk)
    (hs : ∀ d, p.injector.source d = (.ok archives, d))
    (hl : ∀ e ∈ archives, Listable e.1 e.2.text)
    (hb : ∀ text ∈ c.candidates, '\n' ∉ (sourcePath d ⟨text⟩).text.toList)
    (ha : (p.step c d).Apart d) (h : p.processCompile c d = (.ok result, c', d'))
    (hne : result ≠ []) :
    (∀ e ∈ result, ∃ file, SourceFile.read d' e.2 = .ok file ∧
      file.importsPath p.sdk.importPath = true) ∧
    ∃ text cfg, c'.importcfg? = some text ∧ ImportCfg.read d' ⟨text⟩ = .ok cfg ∧
      (∀ e ∈ archives, cfg.contains e.1 = true) ∧
      ∀ original cfg₀, c.importcfg? = some original → (p.step c d).Intact ⟨original⟩ d →
        ImportCfg.read d ⟨original⟩ = .ok cfg₀ → ∀ package archive,
          cfg₀.archive? package = some archive → cfg.archive? package = some archive := by
  have hg := gathers_step p c d
  have hplanned := (keeps_planned (p.step c d) d).plan (n := 0) ⟨.refl _ d, by simp, by simp⟩
  have hlists : ∀ path packages, (p.step c d).Intact path d → Lists path packages d →
      Lists path packages ((p.step c d).plan d).2 := fun path packages hintact hlists =>
    ((keeps_lists hg.built path packages).plan (n := 0) ⟨hintact, hlists⟩).2
  obtain ⟨d₁, b, hplan, hinject⟩ := processCompile_eq_ok.1 h
  rw [hplan] at hplanned hlists
  have hr : ∀ e ∈ result, d.resolve e.2 ≠ d.resolve (p.step c d).session.path :=
    fun e he => (hplanned.written e he).not_record ha
  have himports : ∀ d₂, (∀ e ∈ result, (p.step c d).Written d d₂ e.2) → ∀ e ∈ result, ∃ file,
      SourceFile.read d₂ e.2 = .ok file ∧ file.importsPath p.sdk.importPath = true := by
    intro d₂ hwritten e he
    have hsdk := hg.sdk
    rw [← hsdk] at hn hp ⊢
    exact (hwritten e he).importsPath hg.built hn hp
      (fun unit hu file hf => hb _ (hg.candidate hu hf).1) (hr e he)
  -- the command uses the instrumentation once a changed file is on it
  have huse : (swapSources result c).2.candidates.any (p.injector.usesSdk d₁) = true := by
    obtain ⟨e, he, hplaced⟩ := exists_placed hc hg hplanned hne hr
    obtain ⟨file, hread, himport⟩ := himports d₁ hplanned.written e he
    refine List.any_eq_true.2 ⟨e.2.text, hplaced, ?_⟩
    rw [Injector.usesSdk, hread, hi]
    exact himport
  obtain ⟨text₁, cfg₁, hcfg₁, hread₁, hgrown, text, cfg, hcfg, hread, harchive⟩ :=
    injectCompile_spec (paired_swapSources _ hc) hs hl huse hinject
  have hwritten := (hplanned.grow (hgrown.mono fun _ => False.elim)).written
  refine ⟨himports d' hwritten, text, cfg, hcfg, hread, fun e he => ?_, ?_⟩
  · have hcontains : cfg.contains e.1 = (cfg.archive? e.1).isSome := rfl
    rw [hcontains, harchive, Option.isSome_or, isSome_find?_of_mem he, Bool.or_true]
  · intro original cfg₀ horiginal hintact hread₀ package archive hlisted
    -- swapping and planning have left the configuration of the command as it was
    rw [CommandLine.importcfg?, flagValue?_swapSources _ hc] at hcfg₁
    obtain rfl : original = text₁ := Option.some.inj (horiginal.symm.trans hcfg₁)
    obtain ⟨source₀, hsource₀, rfl⟩ := read_eq_ok.1 hread₀
    obtain ⟨source₁, hsource₁, hsame⟩ := hlists _ _ hintact ⟨source₀, hsource₀, rfl⟩
    obtain ⟨source₁', hsource₁', rfl⟩ := read_eq_ok.1 hread₁
    obtain rfl : source₁ = source₁' := Except.ok.inj (hsource₁.symm.trans hsource₁')
    rw [harchive, ImportCfg.archive?, hsame, ← ImportCfg.archive?, hlisted, Option.some_or]

/-- The archive of the instrumentation. -/
def sdkArchive : PackageMap := [(Instrumentation.default.importPath, ⟨"/work/b002/_pkg_.a"⟩)]

/-- A processor for which the instrumentation has been built. -/
def smallProcessor : Processor :=
  .new .default (.new .default (fun d => (.ok sdkArchive, d)) ⟨"/tmp"⟩) ⟨"/tmp"⟩

/-- A compile command for a package with one test. -/
def compileTest : CommandLine :=
  .compile ⟨"compile"⟩ ["-buildid", "b", "-importcfg", "importcfg", "a_test.go"]

/-- A disk with a test, and with a configuration that lists the testing package. -/
def testDisk : Disk :=
  (bareDisk.set ["a_test.go"] (.file (oneTest "p").toUTF8 false)).set ["importcfg"]
    (.file "packagefile testing=/testing.a\n".toUTF8 false)

theorem grown_testDisk : Disk.Grown (fun _ => False) bareDisk testDisk := by
  refine .trans (.set_of_free (d := bareDisk) rfl) (.set_of_free ?_)
  rw [Disk.get?_set_ne _ _ (by decide)]
  rfl

theorem room_testDisk {dir : Path} {n : Nat} (hn : n + 2 < Disk.tempTries) :
    testDisk.Room dir n := by
  have hfirst : bareDisk.get? ["a_test.go"] ≠ some .directory := by simp [bareDisk, Disk.get?]
  refine ((room_bareDisk hn).set hfirst).set ?_
  · rw [Disk.get?_set_ne _ _ (by decide)]
    simp [bareDisk, Disk.get?]

theorem readUnits_testDisk : (Session.new ⟨"/tmp"⟩ "b").readUnits testDisk = .ok [] := by
  decide

theorem readText_testDisk :
    testDisk.readText ⟨"importcfg"⟩ = .ok "packagefile testing=/testing.a\n" := by
  have hplace : testDisk.resolve ⟨"importcfg"⟩ = .ok ["importcfg"] := rfl
  exact Disk.readText_of_file hplace rfl rfl

/-- The place of a copy of the configuration. -/
theorem resolve_copy_testDisk : testDisk.resolve ((testDisk.cwdPath.join ⟨"/tmp"⟩).join
    ⟨Disk.tempName "importcfg_" "" 0⟩) = .ok ["tmp", "importcfg_000000"] := by
  decide

theorem listable_sdkArchive : ∀ e ∈ sdkArchive, Listable e.1 e.2.text := by
  simp only [sdkArchive, List.mem_singleton, forall_eq]
  exact ⟨by decide, by decide, by decide, by decide, by decide⟩

theorem registered_of_one_test : ∃ result c' d',
    smallProcessor.processCompile compileTest testDisk = (.ok result, c', d') ∧ result ≠ [] ∧
    (∀ e ∈ result, ∃ file, SourceFile.read d' e.2 = .ok file ∧
      file.importsPath smallProcessor.sdk.importPath = true) ∧
    ∃ text cfg, c'.importcfg? = some text ∧ ImportCfg.read d' ⟨text⟩ = .ok cfg ∧
      (∀ e ∈ sdkArchive, cfg.contains e.1 = true) ∧
      ∀ original cfg₀, compileTest.importcfg? = some original →
        (smallProcessor.step compileTest testDisk).Intact ⟨original⟩ testDisk →
        ImportCfg.read testDisk ⟨original⟩ = .ok cfg₀ → ∀ package archive,
          cfg₀.archive? package = some archive → cfg.archive? package = some archive := by
  obtain ⟨file, hf, hpath, hpackage, hsuite, hhost⟩ := exists_oneTest
  have hcandidates : compileTest.candidates = ["a_test.go"] := by decide
  have hid : compileTest.buildId? = some "b" := by decide
  have hplace : testDisk.resolve ⟨"a_test.go"⟩ = .ok ["a_test.go"] := rfl
  have hread := read_source_eq_ok.2 ⟨_, Disk.readText_of_file hplace rfl rfl, hf⟩
  have hstep : smallProcessor.step compileTest testDisk = oneFile file := by
    rw [Processor.step, hid, hcandidates]
    simp only [List.foldl_cons, List.foldl_nil, hread]
    rfl
  have hb := built_oneFile hf
  have hw : (oneFile file).Works testDisk :=
    (works_oneFile (.inl hpath)).grown grown_testDisk (room_testDisk (by rw [cost_oneFile]; decide))
  have hr : (oneFile file).session.readUnits testDisk = .ok [] := readUnits_testDisk
  -- the package is given a suite entry, so the file is changed
  have hplain : endsWith Known.externalSuffix file.package = false := by
    rw [hpackage]
    decide
  have hgiven : file.package ∈ (oneFile file).given testDisk := by
    rw [given_oneFile hf hw hr hplain hsuite hhost]
    exact List.mem_singleton_self _
  have hchanged := changed_of_given hgiven
  have hplanned := (keeps_planned (oneFile file) testDisk).plan (n := 0)
    ⟨.refl _ testDisk, by simp, by simp⟩
  -- the configuration can still be read, and there is room for a copy
  obtain ⟨text, htext, -⟩ :=
    ((keeps_lists hb ⟨"importcfg"⟩ _).plan (n := 0) ⟨.inl hw.reliable, _, readText_testDisk, rfl⟩).2
  have hroom : ((oneFile file).plan testDisk).2.Room smallProcessor.injector.tempDir 1 :=
    room_plan _ (room_testDisk (by rw [cost_oneFile]; decide))
  have hcopy := resolve_copy_testDisk
  rw [← hplanned.grown.cwdPath, ← hplanned.grown.resolve] at hcopy
  have hpaired : compileTest.Paired := paired_read ..
  have hflag : compileTest.importcfg? = some "importcfg" := by decide
  rw [CommandLine.importcfg?, ← flagValue?_swapSources ((oneFile file).plan testDisk).1 hpaired]
    at hflag
  obtain ⟨b, c', d', hinject⟩ := exists_injectCompile (i := smallProcessor.injector)
    (hplanned.grown.reliable.2 hw.reliable) (fun _ => rfl) hflag (read_eq_ok.2 ⟨text, htext, rfl⟩)
    hcopy hroom
  have hapart := hw.apart
  rw [← hstep] at hinject hchanged hapart
  have hprocess := processCompile_eq_ok.2 ⟨_, b, rfl, hinject⟩
  have hne : ((smallProcessor.step compileTest testDisk).plan testDisk).1 ≠ [] := by
    rintro hnil
    simp [hnil] at hchanged
  have hbreakless : ∀ text ∈ compileTest.candidates,
      '\n' ∉ (sourcePath testDisk ⟨text⟩).text.toList := by
    simp only [hcandidates, List.mem_singleton, forall_eq]
    decide
  exact ⟨_, c', d', hprocess, hne, registered_of_processCompile hpaired named_default
    plainPath_default rfl (fun _ => rfl) listable_sdkArchive hbreakless hapart hprocess hne⟩

end

end TestWeave.Build
