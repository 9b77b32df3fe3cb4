import TestWeave.Proofs.Synthesis

/-!
# Suite entries that are written by hand

The commands of a build plan their units one after the other. A unit that has a suite entry of its
own is never recorded, so that the commands that come later do not know of it.

* `Series`: commands one after the other; `Series.record`: what they leave in the record.
* `given_beside_entry`: when the sibling of a unit with a suite entry is given one.
-/

namespace TestWeave.Build

open TestWeave.Change TestWeave.Host TestWeave.Source TestWeave.Text

/-- Commands of one build, one after the other, that share a session. Wherever the unit `owner` is
part of a command it has a suite entry. Between two commands the disk may change, but not what is
read from the record. -/
inductive Series (session : Session) (owner : String) : Disk → Disk → Prop
  | refl {d} : Series session owner d d
  | plan {d d₁} {s : Step} : Series session owner d d₁ → Built s → s.session = session →
      s.Works d₁ → (∀ unit ∈ s.units, unit.name = owner → unit.hasSuiteEntry = true) →
      Series session owner d (s.plan d₁).2
  | other {d d₁ d₂} : Series session owner d d₁ →
      session.readUnits d₂ = session.readUnits d₁ → Series session owner d d₂

variable {session : Session} {owner : String} {s : Step} {d d₀ : Disk} {recorded : List String}

/-- **A unit with a suite entry of its own** is never recorded. -/
theorem Series.record (h : Series session owner d₀ d)
    (hr : session.readUnits d₀ = .ok recorded) (hnot : owner ∉ recorded) :
    ∃ units, session.readUnits d = .ok units ∧ owner ∉ units := by
  induction h with
  | refl => exact ⟨recorded, hr, hnot⟩
  | plan _ hb hs hw hsuite ih =>
    obtain ⟨units, hread, hnot⟩ := ih
    subst hs
    refine ⟨_, readUnits_plan hb hw hread, fun hm => ?_⟩
    rcases List.mem_append.1 hm with hm | hm
    · exact hnot hm
    · obtain ⟨unit, hu, hname, result, d', hgives⟩ :=
        gives_of_givenFrom (List.mem_of_mem_filter hm)
      obtain ⟨-, -, -, -, -, hfalse, -⟩ := writeHost_of_gives hgives
      exact Bool.false_ne_true (hfalse.symm.trans (hsuite unit hu hname))
  | other _ hkeep ih =>
    obtain ⟨units, hread, hnot⟩ := ih
    exact ⟨units, hkeep.trans hread, hnot⟩

/-- **The sibling of a unit with a suite entry.** Of a package and its external tests let `owner` be
the one that has a suite entry of its own, and `unit` the other. At any time in the build, `unit` is
given a suite entry exactly if it has none and one of its files can have it, unless it is the package
and its external tests are part of the same command. -/
theorem given_beside_entry (h : Series session owner d₀ d)
    (hr : session.readUnits d₀ = .ok recorded) (hnot : owner ∉ recorded) (hb : Built s)
    (hs : s.session = session) (hw : s.Works d) {x : String}
    (hx : endsWith Known.externalSuffix x = false) {unit : TestUnit} (hu : unit ∈ s.units)
    (hpair : unit.name = x ∧ owner = x ++ Known.externalSuffix ∨
      unit.name = x ++ Known.externalSuffix ∧ owner = x) :
    s.GivesEntryIff d unit (unit.hasSuiteEntry = false ∧ (∃ file ∈ unit.files, s.Hosts file) ∧
      ¬(unit.name = x ∧ ∃ v ∈ s.units, v.name = owner)) := by
  obtain ⟨units, hread, hnot⟩ := h.record hr hnot
  rw [← hs] at hread
  refine givesEntryIff_of_given hb hw hread hu ?_
  -- the package looks at its own command and at the record, its external tests at the record alone
  rcases hpair with ⟨hname, rfl⟩ | ⟨hname, rfl⟩
  · have hdefers : s.defers unit.name units = false ↔
        ¬∃ v ∈ s.units, v.name = x ++ Known.externalSuffix := by
      rw [← Bool.not_eq_true, hname, defers_plain s hx, or_iff_left hnot]
    rw [mem_given_iff hb hw hread hu (flat_of_plain s (hname ▸ hx)), hdefers]
    constructor
    · rintro ⟨hsuite, hstep, hhost⟩
      exact ⟨hsuite, hhost, fun hboth => hstep hboth.2⟩
    · rintro ⟨hsuite, hhost, hstep⟩
      exact ⟨hsuite, fun hsibling => hstep ⟨hname, hsibling⟩, hhost⟩
  · have hdefers : s.defers unit.name units = false := by
      rw [← Bool.not_eq_true, hname, defers_suffixed]
      exact hnot
    have hother : unit.name ≠ owner := by
      rw [hname]
      exact ne_suffixed owner
    rw [mem_given_iff hb hw hread hu (flat_of_suffixed s hname hx)]
    constructor
    · rintro ⟨hsuite, -, hhost⟩
      exact ⟨hsuite, hhost, fun hboth => hother hboth.1⟩
    · rintro ⟨hsuite, hhost, -⟩
      exact ⟨hsuite, hdefers, hhost⟩

/-- The source of a package with a suite entry that is written by hand. -/
def handWritten : String :=
  "package p\n\nimport \"testing\"\n\nfunc TestMain(m *testing.M) \x7b\x7d\n"

/-- The plan for a file with a suite entry and without calls to redirect changes nothing. -/
theorem plan_oneFile {file : SourceFile} (hsuite : file.hasSuiteEntry = true)
    (ht : Patch.targets file .default = []) (d : Disk) : (oneFile file).plan d = ([], d) := by
  have hpatch : (oneFile file).instrumentFile file = Patch.new file := by
    have htargets : Patch.targets (Patch.new file).file (oneFile file).sdk = [] := ht
    simp only [Step.instrumentFile, Patch.instrument, htargets, ite_self]
  have hunit : TestUnit.hasSuiteEntry ⟨file.package, [file]⟩ = true := by
    simpa [TestUnit.hasSuiteEntry] using hsuite
  have hplan : (oneFile file).plan d =
      (oneFile file).planUnit ⟨file.package, [file]⟩ [] d := rfl
  rw [hplan, planUnit_of_entry hunit, List.map_singleton, hpatch]
  rfl

theorem given_beside_handWritten : ∃ file file',
    SourceFile.parse ⟨"a_test.go"⟩ handWritten = .ok file ∧
    SourceFile.parse ⟨"b_test.go"⟩ (oneTest "p_test") = .ok file' ∧
    (oneFile file).units = [⟨"p", [file]⟩] ∧ file.hasSuiteEntry = true ∧
    (oneFile file').AddsEntry ((oneFile file).plan bareDisk).2 file' := by
  obtain ⟨file, hf, hpath, hpackage, hsuite, htargets⟩ := exists_parsed
    (by decide +kernel : (SourceFile.parse ⟨"a_test.go"⟩ handWritten).toOption.any
      (fun file => file.package = "p" ∧ file.hasSuiteEntry = true ∧
        Patch.targets file .default = []) = true)
  obtain ⟨file', hf', hpath', hpackage', hsuite', hhost'⟩ := exists_externalTest
  have hunits := units_oneFile file
  rw [hpackage] at hunits
  have hb := built_oneFile hf
  have hb' := built_oneFile hf'
  have howner : ∀ unit ∈ (oneFile file).units, unit.name = "p" → unit.hasSuiteEntry = true := by
    rw [hunits]
    simpa [TestUnit.hasSuiteEntry] using hsuite
  -- the first build records nothing, as its suite entry is written by hand
  have hseries : Series (.new ⟨"/tmp"⟩ "b") "p" bareDisk ((oneFile file).plan bareDisk).2 :=
    .plan .refl hb rfl (works_oneFile (.inl hpath)) howner
  have hw : (oneFile file').Works ((oneFile file).plan bareDisk).2 := by
    rw [plan_oneFile hsuite htargets]
    exact works_oneFile (.inr hpath')
  have hmem := mem_units_oneFile file'
  have hx : endsWith Known.externalSuffix "p" = false := by decide
  have hsession : (oneFile file').session = .new ⟨"/tmp"⟩ "b" := rfl
  have hsdk : (oneFile file').sdk = .default := rfl
  have hunit : TestUnit.hasSuiteEntry ⟨file'.package, [file']⟩ = false := by
    simpa [TestUnit.hasSuiteEntry] using hsuite'
  have hother : file'.package ≠ "p" := by
    rw [hpackage']
    exact ne_suffixed "p"
  have hgives := given_beside_entry hseries readUnits_bareDisk List.not_mem_nil hb' hsession hw hx
    hmem (.inr ⟨hpackage', rfl⟩)
  obtain ⟨host, hmember, hadds⟩ := (hgives.added (distinct_oneFile file')).2
    ⟨hunit, ⟨file', by simp, hhost'.hosts hf' hsdk⟩, fun hboth => hother hboth.1⟩
  obtain rfl := List.mem_singleton.1 hmember
  exact ⟨file, host, hf, hf', hunits, hsuite, hadds⟩

end TestWeave.Build
