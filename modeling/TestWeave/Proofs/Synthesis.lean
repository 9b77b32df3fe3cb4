import TestWeave.Proofs.Carried
import TestWeave.Proofs.Outcome

/-!
# Suite entries that plans add

What a plan decides shows in what it leaves. A unit that is given a suite entry is recorded, and one
of its files is written with the entry; no file of any other unit is.

* `tempText_ne`: a changed source with a suite entry is told from one without.
* `Step.AddsEntry`: a file that a plan writes with a suite entry; `addsEntry_iff`: which these are.
* `Step.GivesEntryIff`: what a plan leaves of a unit, given a suite entry just under a condition.
* `given_iff_no_entry`: a unit without sibling.
* `given_of_siblings`: a package and its external tests in one step.
-/

namespace TestWeave.Change

open TestWeave.Source

variable {file : SourceFile} {sdk : Instrumentation} {es es' : List Edit}

/-! ### Changed sources with a suite entry -/

/-- Texts that are longer at every place make a text that is not shorter. -/
theorem length_substitute_le
    (ht : ∀ offset, (textsAt es offset).length ≤ (textsAt es' offset).length)
    (hr : ∀ offset, takesAway es offset = takesAway es' offset) (here : Nat) (cs : List Char) :
    (substitute es here cs).length ≤ (substitute es' here cs).length := by
  induction cs generalizing here with
  | nil => exact ht here
  | cons c cs ih =>
    have hhere := ht here
    have hrest := ih (here + c.utf8Size)
    rw [substitute, substitute, hr]
    simp only [List.length_append]
    omega

/-- Imports take nothing away. -/
theorem takesAway_imports (adds : List (String × String)) (offset : Nat) :
    takesAway (adds.map (importEdit file.anchor)) offset = false := by
  rw [takesAway, List.any_eq_false]
  intro e he
  obtain ⟨hstart, hstop⟩ := importEdit_start he
  rw [hstart, hstop]
  simp

theorem length_substituted_le (file : SourceFile) (adds more : List (String × String))
    (rs : List Redirection) :
    (substituted file adds rs).length ≤ (substituted file (adds ++ more) rs).length := by
  rw [substituted, substituted, String.length_ofList, String.length_ofList]
  refine length_substitute_le (fun offset => ?_) (fun offset => ?_) 0 _
  · simp only [List.map_append, textsAt_append, List.length_append]
    omega
  · have happend : ∀ es es' : List Edit,
        takesAway (es ++ es') offset = (takesAway es offset || takesAway es' offset) :=
      fun _ _ => List.any_append
    rw [happend, happend, takesAway_imports, takesAway_imports]

/-- A suite entry comes with imports behind those that are added without it. -/
theorem exists_addedImports (file : SourceFile) (sdk : Instrumentation) (var : String) :
    ∃ more, (prepared file sdk (some var)).addedImports =
      (prepared file sdk none).addedImports ++ more := by
  obtain ⟨adds, h, -, -⟩ := shape_instrument file sdk
  obtain ⟨more₁, h₁, -⟩ := h.ensureImport Known.testingPackage Known.testingPackage
  obtain ⟨more₂, h₂, -⟩ := h₁.ensureImport Known.osPackage Known.osPackage
  obtain ⟨more₃, h₃, -⟩ := h₂.ensureImport sdk.importPath sdk.localName
  refine ⟨more₁ ++ more₂ ++ more₃, ?_⟩
  rw [prepared_some, appendSuiteEntry_eq, h.added_eq, ← List.append_assoc, ← List.append_assoc]
  exact h₃.added_eq

/-- **A suite entry makes a changed source longer**, by more than one character. -/
theorem length_lt_of_entry {path : Path} {source plain entry var : String}
    (hf : SourceFile.parse path source = .ok file)
    (hplain : (prepared file sdk none).emit = .ok plain)
    (hentry : (prepared file sdk (some var)).emit = .ok entry) : plain.length + 1 < entry.length := by
  obtain ⟨more, hmore⟩ := exists_addedImports file sdk var
  obtain ⟨-, -, happended, -⟩ := shape_instrument file sdk
  rw [text_of_prepared hf hplain, text_of_prepared hf hentry, happended, hmore, String.append_empty,
    String.length_append]
  have hle := length_substituted_le file (prepared file sdk none).addedImports more
    ((Action.instrument sdk).redirections (.new file))
  have htext : 2 ≤ (prepared file sdk (some var)).appended.length := by
    rw [prepared_some, appendSuiteEntry_eq]
    have hlead : ("\n\nfunc " : String).length = 7 := by decide
    simp only [Patch.suiteEntryText, ToString.toString, String.length_append, hlead]
    omega
  omega

end TestWeave.Change

namespace TestWeave.Build

open TestWeave.Change TestWeave.Host TestWeave.Source TestWeave.Text

variable {s : Step} {d : Disk} {unit : TestUnit} {file file' : SourceFile} {recorded : List String}

/-- **Changed files of different lengths** are told apart, with the mark that is left out. -/
theorem tempText_ne {plain entry : String} (h : plain.length + 1 < entry.length) (d : Disk)
    (path : Path) : tempText d path plain ≠ tempText d path entry := by
  intro he
  obtain ⟨out, hplain, htemp⟩ := exists_unmarked d path plain
  obtain ⟨out', hentry, htemp'⟩ := exists_unmarked d path entry
  rw [he] at htemp
  obtain rfl : out = out' := List.append_cancel_left (htemp.symm.trans htemp')
  have hmark : (leadingMark entry).length ≤ 1 := by
    rcases leadingMark_cases entry with hm | hm <;> rw [hm] <;> simp
  rw [← String.length_toList, ← String.length_toList, hplain, hentry, List.length_append,
    List.length_append] at h
  omega

/-! ### Files that a plan writes with a suite entry -/

/-- **A file that a plan writes with a suite entry**: the file that the result has in its place is
the source with its calls redirected and a suite entry at its end. -/
def Step.AddsEntry (s : Step) (d : Disk) (file : SourceFile) : Prop :=
  ∃ temp text, (s.plan d).1.find? file.path = some temp ∧
    (prepared file s.sdk (some Known.driverName)).emit = .ok text ∧
    (s.plan d).2.readText temp = .ok (tempText d file.path text)

theorem addsEntry_iff (hb : Built s) (hw : s.Works d) (hr : s.session.readUnits d = .ok recorded)
    (hdistinct : DistinctPaths (s.units.flatMap (·.files))) (hu : unit ∈ s.units)
    (hf : file ∈ unit.files) :
    s.AddsEntry d file ↔ unit.name ∈ s.given d ∧ s.host? unit = some file := by
  have hfilled := filled_plan hb hw hr hdistinct
  constructor
  · rintro ⟨temp, text, hfind, hemit, hread⟩
    have hcontains : (s.plan d).1.contains file.path = true := by
      change ((s.plan d).1.find? file.path).isSome = true
      rw [hfind]
      rfl
    obtain ⟨⟨other, entry⟩, hm, hpath⟩ := (hfilled.key file.path).1 hcontains
    obtain ⟨unit', hu', hm'⟩ := (mem_output hb).1 hm
    have hf' := file_of_mem_writtenIn hm'
    obtain rfl : file = other := List.inj_on_of_nodup_map hdistinct
      (List.mem_flatMap.2 ⟨unit, hu, hf⟩) (List.mem_flatMap.2 ⟨unit', hu', hf'⟩) hpath
    have hname : unit'.name = unit.name :=
      (hb.package_eq unit' hu' file hf').symm.trans (hb.package_eq unit hu file hf)
    obtain rfl := List.inj_on_of_nodup_map hb.nodup hu' hu hname
    rcases mem_writtenIn.1 hm' with ⟨-, hgiven, hhost⟩ | ⟨rfl, -⟩
    · exact ⟨of_decide_eq_true hgiven, hhost⟩
    · -- without a suite entry the changed file would be shorter
      obtain ⟨temp', plain, loc, hfind', hmade⟩ := hfilled.written _ hm
      obtain rfl := Option.some.inj (hfind.symm.trans hfind')
      obtain ⟨-, hread'⟩ := hmade.read (hmade.not_record hw.apart hu hf)
      have hlength := length_lt_of_entry (hb.parsed unit' hu file hf) hmade.emit hemit
      exact (tempText_ne hlength d file.path (Except.ok.inj (hread'.symm.trans hread))).elim
  · rintro ⟨hgiven, hhost⟩
    have hm : (file, some Known.driverName) ∈ s.output d :=
      (mem_output hb).2 ⟨unit, hu, mem_writtenIn.2 (.inl ⟨rfl, decide_eq_true hgiven, hhost⟩)⟩
    obtain ⟨temp, text, loc, hfind, hmade⟩ := hfilled.written _ hm
    exact ⟨temp, text, hfind, hmade.emit, (hmade.read (hmade.not_record hw.apart hu hf)).2⟩

/-- **What a plan leaves of a unit that it gives a suite entry** if a condition holds, and only
then. -/
structure Step.GivesEntryIff (s : Step) (d : Disk) (unit : TestUnit) (C : Prop) : Prop where
  /-- The unit is recorded. -/
  recorded : ∃ before after, s.session.readUnits d = .ok before ∧
    s.session.readUnits (s.plan d).2 = .ok after ∧ (unit.name ∈ after ↔ unit.name ∈ before ∨ C)
  /-- There is a new file, made from one of its files with a suite entry. -/
  made : C → ∃ file ∈ unit.files, ∃ text temp loc,
    (prepared file s.sdk (some Known.driverName)).emit = .ok text ∧
    d.resolve temp = .ok loc ∧ d.get? loc = none ∧
    (s.plan d).2.readText temp = .ok (tempText d file.path text)
  /-- Where paths are different, the result has it in the place of that file. -/
  added : DistinctPaths (s.units.flatMap (·.files)) → ((∃ file ∈ unit.files, s.AddsEntry d file) ↔ C)
  /-- No second file of the unit is written with a suite entry. -/
  unique : DistinctPaths (s.units.flatMap (·.files)) → ∀ file ∈ unit.files, ∀ file' ∈ unit.files,
    s.AddsEntry d file → s.AddsEntry d file' → file = file'

theorem givesEntryIff_of_given (hb : Built s) (hw : s.Works d)
    (hr : s.session.readUnits d = .ok recorded) (hu : unit ∈ s.units) {C : Prop}
    (h : unit.name ∈ s.given d ↔ C) : s.GivesEntryIff d unit C where
  recorded := by
    refine ⟨recorded, _, hr, readUnits_plan hb hw hr, ?_⟩
    rw [← h]
    by_cases hm : unit.name ∈ recorded <;> simp [hm]
  made hc := by
    obtain ⟨unit', hu', hname, hwritten⟩ := written_of_given hw.apart (h.2 hc)
    obtain rfl := List.inj_on_of_nodup_map hb.nodup hu' hu hname
    exact hwritten
  added hdistinct := by
    rw [← h]
    constructor
    · rintro ⟨file, hf, hentry⟩
      exact ((addsEntry_iff hb hw hr hdistinct hu hf).1 hentry).1
    · intro hgiven
      obtain ⟨unit', hu', hname, result, d', hgives⟩ := gives_of_givenFrom hgiven
      obtain rfl := List.inj_on_of_nodup_map hb.nodup hu' hu hname
      obtain ⟨host, hhost⟩ := exists_host?_of_gives hgives
      have hf := List.mem_of_find?_eq_some hhost
      exact ⟨host, hf, (addsEntry_iff hb hw hr hdistinct hu hf).2 ⟨hgiven, hhost⟩⟩
  unique hdistinct file hf file' hf' hentry hentry' := by
    have hhost := ((addsEntry_iff hb hw hr hdistinct hu hf).1 hentry).2
    have hhost' := ((addsEntry_iff hb hw hr hdistinct hu hf').1 hentry').2
    exact Option.some.inj (hhost.symm.trans hhost')

/-- What the record lists when it has been planned. -/
theorem Step.GivesEntryIff.mem_record {C : Prop} {after : List String}
    (h : s.GivesEntryIff d unit C) (hr : s.session.readUnits d = .ok recorded)
    (hafter : s.session.readUnits (s.plan d).2 = .ok after) :
    unit.name ∈ after ↔ unit.name ∈ recorded ∨ C := by
  obtain ⟨before, units, hbefore, hunits, hiff⟩ := h.recorded
  obtain rfl : recorded = before := Except.ok.inj (hr.symm.trans hbefore)
  obtain rfl : after = units := Except.ok.inj (hafter.symm.trans hunits)
  exact hiff

theorem distinct_oneFile (file : SourceFile) :
    DistinctPaths ((oneFile file).units.flatMap (·.files)) := by
  rw [units_oneFile]
  exact List.nodup_singleton _

/-! ### A unit without sibling -/

/-- **When a unit without sibling is given a suite entry**: exactly if one of its files can have it,
and none of its functions counts as one. A method `TestMain` counts as well as a function; a `TestMain`
whose parameter has no name does not. -/
theorem given_iff_no_entry (hb : Built s) (hw : s.Works d) (hr : s.session.readUnits d = .ok [])
    (hu : unit ∈ s.units) (hsibling : ∀ v ∈ s.units, v.name ≠ unit.name ++ Known.externalSuffix ∧
      unit.name ≠ v.name ++ Known.externalSuffix) :
    s.GivesEntryIff d unit ((∃ file ∈ unit.files, s.Hosts file) ∧
      ∀ file ∈ unit.files, ∀ f ∈ functionsOf file.source,
        f.isEntry (testingNames file.imports) = false) := by
  have hflat : s.Flat unit := fun v hv hname => absurd hname (hsibling v hv).2
  have hdefers : s.defers unit.name [] = false := by
    unfold Step.defers
    split
    · rfl
    · simp only [List.contains_nil, Bool.or_false, List.any_eq_false, beq_iff_eq]
      exact fun v hv => (hsibling v hv).1
  refine givesEntryIff_of_given hb hw hr hu ?_
  rw [mem_given_iff hb hw hr hu hflat, hasSuiteEntry_eq_false_iff hb hu]
  constructor
  · rintro ⟨hentries, -, hhost⟩
    exact ⟨hhost, hentries⟩
  · rintro ⟨hhost, hentries⟩
    exact ⟨hentries, hdefers, hhost⟩

/-- A source whose only `TestMain` is a method. -/
def methodEntry : String :=
  "package p\n\nimport \"testing\"\n\n" ++
    "type S struct\x7b\x7d\n\nfunc (S) TestMain(m *testing.M) \x7b\x7d\n"

theorem not_given_of_method : ∃ file, SourceFile.parse ⟨"a_test.go"⟩ methodEntry = .ok file ∧
    (oneFile file).Hosts file ∧ (∀ f ∈ functionsOf methodEntry, f.hasReceiver = true) ∧
    ¬(oneFile file).AddsEntry bareDisk file ∧
    ∃ units, (oneFile file).session.readUnits ((oneFile file).plan bareDisk).2 = .ok units ∧
      file.package ∉ units := by
  obtain ⟨file, hf, hpath, hhost, hentries⟩ := exists_parsed
    (by decide +kernel : (SourceFile.parse ⟨"a_test.go"⟩ methodEntry).toOption.any
      (fun file => Hostable file ∧
        ∃ f ∈ functionsOf methodEntry, f.isEntry (testingNames file.imports) = true) = true)
  have hmethods : ∀ f ∈ functionsOf methodEntry, f.hasReceiver = true := by decide +kernel
  have hr : (oneFile file).session.readUnits bareDisk = .ok [] := readUnits_bareDisk
  have hsibling : ∀ v ∈ (oneFile file).units,
      v.name ≠ file.package ++ Known.externalSuffix ∧
        file.package ≠ v.name ++ Known.externalSuffix := by
    rw [units_oneFile]
    simpa using (ne_suffixed file.package).symm
  have hw : (oneFile file).Works bareDisk := works_oneFile (.inl hpath)
  have hgives := given_iff_no_entry (built_oneFile hf) hw hr (mem_units_oneFile file) hsibling
  -- the method counts as a suite entry
  have hnot : ¬((∃ file' ∈ [file], (oneFile file).Hosts file') ∧ ∀ file' ∈ [file],
      ∀ f ∈ functionsOf file'.source, f.isEntry (testingNames file'.imports) = false) := by
    rintro ⟨-, hnone⟩
    obtain ⟨f, hm, hentry⟩ := hentries
    rw [← (parse_eq_ok hf).2.1] at hm
    have hfalse := hnone file (by simp) f hm
    exact Bool.false_ne_true (hfalse.symm.trans hentry)
  refine ⟨file, hf, hhost.hosts hf rfl, hmethods, fun hadds => ?_, ?_⟩
  · exact hnot ((hgives.added (distinct_oneFile file)).1 ⟨file, by simp, hadds⟩)
  · have hafter := readUnits_plan (built_oneFile hf) hw hr
    exact ⟨_, hafter, fun hm =>
      hnot (((hgives.mem_record hr hafter).1 hm).resolve_left List.not_mem_nil)⟩

/-! ### A package and its external tests -/

/-- **Two siblings in one step.** The package leaves the suite entry to its external tests before it
is known whether these can have it, and is never given one itself. The external tests are given it
exactly if one of their files can have it; so there is one suite entry for the two of them, or
none. -/
theorem given_of_siblings (hb : Built s) (hw : s.Works d) (hr : s.session.readUnits d = .ok [])
    {x : String} (hx : endsWith Known.externalSuffix x = false) {plain external : TestUnit}
    (hp : plain ∈ s.units) (hpn : plain.name = x) (he : external ∈ s.units)
    (hen : external.name = x ++ Known.externalSuffix) (hsuite : external.hasSuiteEntry = false) :
    s.GivesEntryIff d plain False ∧
    s.GivesEntryIff d external (∃ file ∈ external.files, s.Hosts file) ∧
    (DistinctPaths (s.units.flatMap (·.files)) →
      ((∃! file, (file ∈ plain.files ∨ file ∈ external.files) ∧ s.AddsEntry d file) ↔
        ∃ file ∈ external.files, s.Hosts file)) := by
  have hplain : plain.name ∈ s.given d ↔ False := by
    rw [mem_given_iff hb hw hr hp (flat_of_plain s (hpn ▸ hx)), iff_false, hpn]
    rintro ⟨-, hdefers, -⟩
    have hleft := (defers_plain s hx []).2 (.inl ⟨external, he, hen⟩)
    exact Bool.false_ne_true (hdefers.symm.trans hleft)
  have hexternal : external.name ∈ s.given d ↔ ∃ file ∈ external.files, s.Hosts file := by
    rw [mem_given_iff hb hw hr he (flat_of_suffixed s hen hx), hen]
    have hdefers : s.defers (x ++ Known.externalSuffix) [] = false := by
      rw [← Bool.not_eq_true, defers_suffixed]
      exact List.not_mem_nil
    simp [hsuite, hdefers]
  have hpgives := givesEntryIff_of_given hb hw hr hp hplain
  have hegives := givesEntryIff_of_given hb hw hr he hexternal
  refine ⟨hpgives, hegives, fun hdistinct => ?_⟩
  have hnone : ∀ file ∈ plain.files, ¬s.AddsEntry d file :=
    fun file hf hadds => (hpgives.added hdistinct).1 ⟨file, hf, hadds⟩
  rw [← hegives.added hdistinct]
  constructor
  · rintro ⟨file, ⟨hf | hf, hadds⟩, -⟩
    · exact (hnone file hf hadds).elim
    · exact ⟨file, hf, hadds⟩
  · rintro ⟨file, hf, hadds⟩
    refine ⟨file, ⟨.inr hf, hadds⟩, ?_⟩
    rintro other ⟨hother | hother, hadds'⟩
    · exact (hnone other hother hadds').elim
    · exact hegives.unique hdistinct other hother file hf hadds' hadds

/-- A package with a test, whose external tests do not import the testing package. -/
theorem not_given_of_testless_sibling : ∃ file file' : SourceFile, ∃ s : Step,
    SourceFile.parse ⟨"a_test.go"⟩ (oneTest "p") = .ok file ∧
    SourceFile.parse ⟨"b_test.go"⟩ "package p_test\n" = .ok file' ∧ s = twoFiles file file' ∧
    (∀ unit ∈ s.units, unit.hasSuiteEntry = false) ∧ s.Hosts file ∧
    ¬s.AddsEntry bareDisk file ∧ ¬s.AddsEntry bareDisk file' ∧
    ∃ units, s.session.readUnits (s.plan bareDisk).2 = .ok units ∧
      "p" ∉ units ∧ "p" ++ Known.externalSuffix ∉ units := by
  obtain ⟨file, hf, hpath, hpackage, hsuite, hhost⟩ := exists_oneTest
  obtain ⟨file', hf', hpath', hpackage', hsuite', hlocal'⟩ := exists_parsed
    (by decide +kernel : (SourceFile.parse ⟨"b_test.go"⟩ "package p_test\n").toOption.any
      (fun file => file.package = "p" ++ Known.externalSuffix ∧ file.hasSuiteEntry = false ∧
        file.localName? Known.testingPackage = none) = true)
  have hne : file.package ≠ file'.package := by
    rw [hpackage, hpackage']
    decide
  have hb : Built (twoFiles file file') := .addFile hf' (.addFile hf (.new ..))
  have hunits := units_twoFiles hne
  rw [hpackage, hpackage'] at hunits
  have hr : (twoFiles file file').session.readUnits bareDisk = .ok [] := readUnits_bareDisk
  have hmem : (⟨"p", [file]⟩ : TestUnit) ∈ (twoFiles file file').units := by simp [hunits]
  have hmem' : (⟨"p" ++ Known.externalSuffix, [file']⟩ : TestUnit) ∈
      (twoFiles file file').units := by simp [hunits]
  have hdistinct : DistinctPaths ((twoFiles file file').units.flatMap (·.files)) := by
    rw [hunits, DistinctPaths]
    simp only [List.flatMap_cons, List.flatMap_nil, List.append_nil, List.singleton_append,
      List.map_cons, List.map_nil, hpath, hpath']
    decide
  have hw : (twoFiles file file').Works bareDisk := works_twoFiles hne hpath hpath'
  obtain ⟨hplain, hexternal, -⟩ := given_of_siblings hb hw hr
    (by decide : endsWith Known.externalSuffix "p" = false) hmem rfl hmem' rfl
    (by simpa [TestUnit.hasSuiteEntry] using hsuite')
  have hnone : ¬∃ f ∈ [file'], (twoFiles file file').Hosts f := by
    rintro ⟨host, hm, hcan, -⟩
    obtain rfl := List.mem_singleton.1 hm
    have hsome := (canHost_eq_true.1 hcan).2
    rw [hlocal'] at hsome
    exact Bool.false_ne_true hsome
  have hafter := readUnits_plan hb hw hr
  refine ⟨file, file', _, hf, hf', rfl, ?_, hhost.hosts hf rfl, fun hadds => ?_, fun hadds => ?_,
    _, hafter, fun hm => ?_, fun hm => ?_⟩
  · rw [hunits]
    simpa [TestUnit.hasSuiteEntry] using ⟨hsuite, hsuite'⟩
  · exact (hplain.added hdistinct).1 ⟨file, by simp, hadds⟩
  · exact hnone ((hexternal.added hdistinct).1 ⟨file', by simp, hadds⟩)
  · exact ((hplain.mem_record hr hafter).1 hm).resolve_left List.not_mem_nil
  · exact hnone (((hexternal.mem_record hr hafter).1 hm).resolve_left List.not_mem_nil)

end TestWeave.Build
