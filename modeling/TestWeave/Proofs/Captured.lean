import TestWeave.Proofs.Actions
import TestWeave.Proofs.Requests

/-!
# Names that are captured

A redirected call stands where the context of its test is bound, and the calls of a suite entry
stand where its driver is bound. Names of packages are chosen with regard to imports and
declarations alone, so one of them may be bound there as well: the call then goes to what is bound.

* `fst_ensureImport_eq_iff`: when a request gives a certain name.
* `Captured`: when the name of a package is one that is bound where it stands.
* `captured_iff`: which redirected calls are captured, and which suite entries.
-/

namespace TestWeave.Change

open TestWeave.Source TestWeave.Text

variable {p : Patch} {path preferred other name : String} {taken : List String}

/-! ### Which name is given -/

/-- The first choice of a preferred name that is not taken. -/
def FirstFree (preferred : String) (taken : List String) (name : String) : Prop :=
  ∃ k, name = numbered preferred k ∧ name ∉ taken ∧ ∀ j < k, numbered preferred j ∈ taken

theorem freeName_eq_iff : freeName preferred taken = name ↔ FirstFree preferred taken name := by
  obtain ⟨k, heq, hfree, hbefore⟩ := exists_freeName preferred taken
  rw [heq]
  constructor
  · rintro rfl
    exact ⟨k, rfl, hfree, hbefore⟩
  · rintro ⟨k', rfl, hfree', hbefore'⟩
    rcases Nat.lt_trichotomy k k' with hlt | rfl | hlt
    · exact absurd (hbefore' k hlt) hfree
    · rfl
    · exact absurd (hbefore k' hlt) hfree'

/-- **When a request gives a certain name**: the path is imported under it, or under none and the
name is the first choice that is free. -/
theorem fst_ensureImport_eq_iff : (p.ensureImport path preferred).1 = name ↔
    p.importedName? path = some name ∨
      p.importedName? path = none ∧ FirstFree preferred p.takenNames name := by
  rcases ensureImport_spec p path preferred with ⟨name', hname, he⟩ | ⟨hnone, he⟩
  · rw [he, hname]
    simp
  · rw [he, hnone, ← freeName_eq_iff]
    simp

/-- A name without digits is free only if it is the preferred one. -/
theorem firstFree_iff (hd : ∀ c ∈ name.toList, c.isDigit = false) :
    FirstFree preferred taken name ↔ preferred = name ∧ name ∉ taken := by
  constructor
  · rintro ⟨k, hk, hfree, -⟩
    rcases eq_or_digit_of_choice ⟨k, hk⟩ with rfl | ⟨c, hc, hdigit⟩
    · exact ⟨rfl, hfree⟩
    · rw [hd c hc] at hdigit
      exact absurd hdigit Bool.false_ne_true
  · rintro ⟨rfl, hfree⟩
    exact ⟨0, rfl, hfree, fun j hj => absurd hj (Nat.not_lt_zero j)⟩

/-- One request leaves the names of other paths as they are. -/
theorem importedName?_other (hne : path ≠ other) :
    (p.ensureImport other preferred).2.importedName? path = p.importedName? path := by
  rcases ensureImport_spec p other preferred with ⟨name, -, he⟩ | ⟨-, he⟩
  · rw [he]
  · have hbeq : (other == path) = false := beq_eq_false_iff_ne.2 hne.symm
    rw [he]
    simp [Patch.importedName?, List.find?_append, hbeq]

/-- One request takes no name but a choice of the preferred one. -/
theorem mem_takenNames_ensureImport (hd : ∀ c ∈ name.toList, c.isDigit = false)
    (hne : preferred ≠ name) :
    name ∈ (p.ensureImport path preferred).2.takenNames ↔ name ∈ p.takenNames := by
  rcases ensureImport_spec p path preferred with ⟨name', -, he⟩ | ⟨-, he⟩
  · rw [he]
  · have hother : name ≠ freeName preferred p.takenNames := by
      intro heq
      rcases eq_or_digit_of_choice (isChoice_freeName preferred p.takenNames) with h | ⟨c, hc, h⟩
      · exact hne (h.symm.trans heq.symm)
      · rw [← heq] at hc
        rw [hd c hc] at h
        exact absurd h Bool.false_ne_true
    have hiff : name ∈ (p.addedImports ++ [(path, freeName preferred p.takenNames)]).map (·.2) ↔
        name ∈ p.addedImports.map (·.2) := by
      simp [hother]
    rw [he]
    simp only [Patch.takenNames, List.mem_append] at hiff ⊢
    rw [hiff]

/-! ### Calls and suite entries -/

/-- A call in a test goes through a name that is bound there, to the context of the test. -/
def Captured (file : SourceFile) (r : Redirection) : Prop :=
  ∃ test ∈ file.tests, r.call ∈ test.subtests ∧ r.qualifier = test.contextName

/-- The names that a suite entry has for the packages it needs: that of the drivers, that of the
system, and that of the instrumentation. -/
def Patch.entryNames (p : Patch) (sdk : Instrumentation) : String × String × String :=
  let testing := p.ensureImport Known.testingPackage Known.testingPackage
  let os := testing.2.ensureImport Known.osPackage Known.osPackage
  (testing.1, os.1, (os.2.ensureImport sdk.importPath sdk.localName).1)

theorem appended_appendSuiteEntry (p : Patch) (sdk : Instrumentation) (var : String) :
    (p.appendSuiteEntry sdk var).appended = Patch.suiteEntryText (p.entryNames sdk).1
      (p.entryNames sdk).2.1 (p.entryNames sdk).2.2 sdk.suiteEntry var := rfl

/-- A redirected call goes through the name that the request gives. -/
theorem mem_redirections_instrument {sdk : Instrumentation} {r : Redirection} :
    r ∈ (Action.instrument sdk).redirections p ↔
      (r.call, r.entry) ∈ Patch.targets p.file sdk ∧
        r.qualifier = (p.ensureImport sdk.importPath sdk.localName).1 := by
  rw [Action.redirections, List.mem_map]
  constructor
  · rintro ⟨site, hsite, rfl⟩
    exact ⟨hsite, rfl⟩
  · rintro ⟨hsite, hq⟩
    exact ⟨_, hsite, by rw [← hq]⟩

/-- The calls of tests are redirected. -/
theorem exists_redirection (sdk : Instrumentation) {test : TestFunction} {call : CallSite}
    (ht : test ∈ p.file.tests) (hc : call ∈ test.subtests) :
    ∃ r ∈ (Action.instrument sdk).redirections p, r.call = call := by
  have hmem : call ∈ p.file.callSites :=
    List.mem_append_left _ (List.mem_flatMap.2 ⟨test, ht, hc⟩)
  rw [← map_targets p.file sdk] at hmem
  obtain ⟨site, hsite, rfl⟩ := List.mem_map.1 hmem
  exact ⟨⟨site.1, _, site.2⟩, mem_redirections_instrument.2 ⟨hsite, rfl⟩, rfl⟩

theorem digitless_driverName : ∀ c ∈ Known.driverName.toList, c.isDigit = false := by
  intro c hc
  obtain rfl : c = 'm' := by simpa [Known.driverName] using hc
  rfl

/-- The name for the system is that of the driver only if the package is imported under it. -/
theorem entryNames_os_iff (sdk : Instrumentation) : (p.entryNames sdk).2.1 = Known.driverName ↔
    p.importedName? Known.osPackage = some Known.driverName := by
  have hpreferred : Known.osPackage ≠ Known.driverName := by decide
  rw [Patch.entryNames, fst_ensureImport_eq_iff, firstFree_iff digitless_driverName,
    importedName?_other (by decide)]
  simp [hpreferred]

/-- The name for the instrumentation is that of the driver if the package is imported under it, or if
it is to be added under it and nothing else has that name. -/
theorem entryNames_sdk_iff (sdk : Instrumentation) : (p.entryNames sdk).2.2 = Known.driverName ↔
    p.importedName? sdk.importPath = some Known.driverName ∨
      p.importedName? sdk.importPath = none ∧ sdk.importPath ≠ Known.testingPackage ∧
        sdk.importPath ≠ Known.osPackage ∧ sdk.localName = Known.driverName ∧
        Known.driverName ∉ p.takenNames := by
  have htesting : Known.testingPackage ≠ Known.driverName := by decide
  have hos : Known.osPackage ≠ Known.driverName := by decide
  have hne : Known.testingPackage ≠ Known.osPackage := by decide
  -- a package that a suite entry needs anyway keeps the name that it has by then
  have hneeded : ∀ {q : Patch} {package : String}, package ≠ Known.driverName →
      ((q.ensureImport package package).2.importedName? package = some Known.driverName ↔
        q.importedName? package = some Known.driverName) := by
    intro q package hp
    rw [importedName?_ensureImport, Option.some_inj, fst_ensureImport_eq_iff,
      firstFree_iff digitless_driverName]
    simp [hp]
  have hsome : ∀ (q : Patch) (package : String),
      (q.ensureImport package package).2.importedName? package ≠ none := by
    intro q package
    rw [importedName?_ensureImport]
    exact Option.some_ne_none _
  rw [Patch.entryNames, fst_ensureImport_eq_iff, firstFree_iff digitless_driverName,
    mem_takenNames_ensureImport digitless_driverName hos,
    mem_takenNames_ensureImport digitless_driverName htesting]
  by_cases hpath : sdk.importPath = Known.testingPackage
  · rw [hpath, importedName?_other hne, hneeded htesting]
    simp [hsome]
  by_cases hpath' : sdk.importPath = Known.osPackage
  · rw [hpath', hneeded hos, importedName?_other hne.symm]
    simp [hsome]
  · rw [importedName?_other hpath', importedName?_other hpath]
    simp [hpath, hpath']

/-- **Which names are captured.** Redirected calls go through the name under which the
instrumentation is imported then. A call in a test is captured exactly if the file imports the
instrumentation under the name of the context, or does not import it and that name is the first
choice of the preferred one. In a suite entry the name for the system is captured exactly if the
file imports that package under the name of the driver, and the name for the instrumentation if the
file imports it so or if the driver has the preferred name and nothing else does. -/
theorem captured_iff (p : Patch) (sdk : Instrumentation) :
    (∀ r ∈ (Action.instrument sdk).redirections p,
      (p.instrument sdk).2.importedName? sdk.importPath = some r.qualifier) ∧
    ((∃ r ∈ (Action.instrument sdk).redirections p, Captured p.file r) ↔
      ∃ test ∈ p.file.tests, test.subtests ≠ [] ∧
        (p.importedName? sdk.importPath = some test.contextName ∨
          p.importedName? sdk.importPath = none ∧
            FirstFree sdk.localName p.takenNames test.contextName)) ∧
    ((p.appendSuiteEntry sdk Known.driverName).appended =
        Patch.suiteEntryText (p.entryNames sdk).1 (p.entryNames sdk).2.1 (p.entryNames sdk).2.2
          sdk.suiteEntry Known.driverName ∧
      (p.appendSuiteEntry sdk Known.driverName).importedName? Known.osPackage =
        some (p.entryNames sdk).2.1 ∧
      (p.appendSuiteEntry sdk Known.driverName).importedName? sdk.importPath =
        some (p.entryNames sdk).2.2) ∧
    ((p.entryNames sdk).2.1 = Known.driverName ↔
      p.importedName? Known.osPackage = some Known.driverName) ∧
    ((p.entryNames sdk).2.2 = Known.driverName ↔
      p.importedName? sdk.importPath = some Known.driverName ∨
        p.importedName? sdk.importPath = none ∧ sdk.importPath ≠ Known.testingPackage ∧
          sdk.importPath ≠ Known.osPackage ∧ sdk.localName = Known.driverName ∧
          Known.driverName ∉ p.takenNames) := by
  refine ⟨fun r hr => ?_, ?_, ⟨appended_appendSuiteEntry p sdk Known.driverName, ?_, ?_⟩,
    entryNames_os_iff sdk, entryNames_sdk_iff sdk⟩
  · -- where there is something to redirect, the import is added
    obtain ⟨hsite, hq⟩ := mem_redirections_instrument.1 hr
    obtain ⟨call, calls, ht⟩ := List.exists_cons_of_ne_nil (List.ne_nil_of_mem hsite)
    rw [Patch.instrument, ht, hq]
    simp only [foldl_redirectCall]
    exact importedName?_ensureImport p sdk.importPath sdk.localName
  · constructor
    · rintro ⟨r, hr, test, htest, hcall, hname⟩
      have hq := (mem_redirections_instrument.1 hr).2
      exact ⟨test, htest, List.ne_nil_of_mem hcall,
        fst_ensureImport_eq_iff.1 (hq.symm.trans hname)⟩
    · rintro ⟨test, htest, hne, hgiven⟩
      obtain ⟨call, hcall⟩ := List.exists_mem_of_ne_nil _ hne
      obtain ⟨r, hr, rfl⟩ := exists_redirection sdk htest hcall
      have hq := (mem_redirections_instrument.1 hr).2
      exact ⟨r, hr, test, htest, hcall, hq.trans (fst_ensureImport_eq_iff.2 hgiven)⟩
  · rw [appendSuiteEntry_eq, importedName?_append]
    exact importedName?_kept (importedName?_ensureImport _ _ _) sdk.importPath sdk.localName
  · rw [appendSuiteEntry_eq, importedName?_append]
    exact importedName?_ensureImport _ _ _

/-- A source in which the context of a test has the name that is preferred for the instrumentation,
and the system is imported under the name of the driver. -/
def capturingSource : String :=
  "package p\n\nimport m \"os\"\nimport \"testing\"\n\nfunc TestA(ddtesting *testing.T) \x7b\n" ++
  "\tddtesting.Run(\"a\", nil)\n\x7d\n"

/-- The call goes through the context of its test, and so does the exit through the driver. -/
theorem captured_of_capturingSource : ∃ file,
    SourceFile.parse ⟨"x_test.go"⟩ capturingSource = .ok file ∧
    (∃ r ∈ (Action.instrument .default).redirections (.new file), Captured file r) ∧
    ((Patch.new file).entryNames .default).2.1 = Known.driverName := by
  obtain ⟨file, hf, -, hsdk, hos, htaken, htests⟩ := exists_parsed
    (by decide +kernel : (SourceFile.parse ⟨"x_test.go"⟩ capturingSource).toOption.any (fun file =>
      (Patch.new file).importedName? Instrumentation.default.importPath = none ∧
      (Patch.new file).importedName? Known.osPackage = some Known.driverName ∧
      Instrumentation.default.localName ∉ (Patch.new file).takenNames ∧
      ∃ test ∈ file.tests, test.subtests ≠ [] ∧
        test.contextName = Instrumentation.default.localName) = true)
  obtain ⟨test, htest, hne, hname⟩ := htests
  obtain ⟨-, hcalls, -, hexit, -⟩ := captured_iff (.new file) .default
  refine ⟨file, hf, hcalls.2 ⟨test, htest, hne, .inr ⟨hsdk, ?_⟩⟩, hexit.2 hos⟩
  rw [hname]
  exact ⟨0, rfl, htaken, fun j hj => absurd hj (Nat.not_lt_zero j)⟩

end TestWeave.Change
