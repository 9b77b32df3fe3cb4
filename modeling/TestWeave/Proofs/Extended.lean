import TestWeave.Proofs.Untouched

/-!
# Commands that are given a configuration of their own

A command to which nothing is registered is as it was, and so is the disk. Where something is, the
command uses a copy of its configuration that lists all there is to register, so that nothing is left
for a second time.

* `Injector.Injects`: what a way to register archives does; `injects_injectCompile`,
  `injects_injectLink`.
* `Extends`: a command that uses a copy of its configuration; `extends_of_extend`.
* `registering_of_injects`: nothing is changed, or the configuration is extended, and that only once.
-/

namespace TestWeave.Build

open TestWeave.Command TestWeave.Host

variable {i : Injector} {answer : Except InjectError PackageMap} {archives : PackageMap}
  {cfg : ImportCfg} {c c' : CommandLine} {d d' : Disk} {copy : Path} {text : String}

/-! ### Ways to register archives -/

/-- What may register archives with a command. -/
abbrev Injection := CommandLine → Disk → Except InjectError Bool × CommandLine × Disk

/-- **A way of an injector to register its archives**: a configuration that can be read is extended or
left, and without one nothing is registered. -/
structure Injector.Injects (i : Injector) (inject : Injection) : Prop where
  unread : ∀ c d, (∀ text cfg, c.importcfg? = some text → ImportCfg.read d ⟨text⟩ ≠ .ok cfg) →
    ∃ result, result ≠ .ok true ∧ inject c d = (result, c, d)
  read : ∀ c d text cfg, c.importcfg? = some text → ImportCfg.read d ⟨text⟩ = .ok cfg →
    inject c d = (.ok false, c, d) ∨ inject c d = i.extend c cfg d

theorem injects_injectCompile (i : Injector) : i.Injects i.injectCompile where
  unread c d h := by
    unfold Injector.injectCompile
    split
    · cases hc : c.importcfg? with
      | none => exact ⟨_, by simp, rfl⟩
      | some text =>
        cases hr : ImportCfg.read d ⟨text⟩ with
        | error e => exact ⟨.error (.read ⟨text⟩ e), by simp, by simp only [hr]⟩
        | ok cfg => exact absurd hr (h text cfg hc)
    · exact ⟨_, by simp, rfl⟩
  read c d text cfg hc hr := by
    unfold Injector.injectCompile
    split
    · simp [hc, hr]
    · exact .inl rfl

theorem injects_injectLink (i : Injector) : i.Injects i.injectLink where
  unread c d h := by
    unfold Injector.injectLink
    cases hc : c.importcfg? with
    | none => exact ⟨_, by simp, rfl⟩
    | some text =>
      cases hr : ImportCfg.read d ⟨text⟩ with
      | error e => exact ⟨.error (.read ⟨text⟩ e), by simp, by simp only [hr]⟩
      | ok cfg => exact absurd hr (h text cfg hc)
  read c d text cfg hc hr := by
    unfold Injector.injectLink
    simp only [hc, hr]
    split
    · exact .inr rfl
    · exact .inl rfl

/-! ### Configurations that are extended -/

/-- Nothing is added to a configuration that lists all there is to add. -/
theorem addAll_of_listed (h : ∀ e ∈ archives, (cfg.archive? e.1).isSome = true) :
    cfg.addAll archives = (0, cfg) := by
  rw [addAll_eq]
  induction archives with
  | nil => rfl
  | cons e archives ih =>
    obtain ⟨he, harchives⟩ := List.forall_mem_cons.1 h
    have hnext : ImportCfg.addNext (0, cfg) e = (0, cfg) := by
      rw [ImportCfg.addNext, add?_eq_none.2 he]
    rw [List.foldl_cons, hnext, ih harchives]

/-- **A configuration is extended** by a copy, or else all is as it was. -/
theorem extend_cases (hs : ∀ d, i.source d = (answer, d)) (c : CommandLine) (cfg : ImportCfg)
    (d : Disk) : (∃ result, result ≠ .ok true ∧ i.extend c cfg d = (result, c, d)) ∨
      ∃ archives copy d', answer = .ok archives ∧
        d.createTemp i.tempDir "importcfg_" "" (cfg.addAll archives).2.render.toUTF8 =
          (.ok copy, d') ∧
        i.extend c cfg d = (.ok true, c.setFlag "importcfg" copy.text, d') := by
  have hextension := extension_extend i c cfg d
  generalize i.extend c cfg d = result at hextension ⊢
  cases hextension with
  | unknown hsource | complete hsource | unwritten hsource =>
    obtain ⟨-, rfl⟩ := Prod.mk.inj ((hs d).symm.trans hsource)
    exact .inl ⟨_, by simp, rfl⟩
  | copied hsource hw =>
    obtain ⟨rfl, rfl⟩ := Prod.mk.inj ((hs d).symm.trans hsource)
    exact .inr ⟨_, _, _, rfl, hw, rfl⟩

/-- **A command that was given a copy of its configuration**, which lists archives that it may not
have listed before. -/
structure Extends (archives : PackageMap) (copy : Path) (c : CommandLine) (d : Disk)
    (c' : CommandLine) (d' : Disk) : Prop where
  /-- The last value of the flag is the copy, and nothing else on the command line is changed. -/
  changed : ∃ k, c.LastCarrier "importcfg" k ∧
    c' = .ofWords c.tool (c.words.modify k (·.withValue "importcfg" copy.text))
  used : c'.importcfg? = some copy.text
  /-- The copy is a new file, and nothing else on the disk is changed. -/
  written : ∃ loc content, d.resolve copy = .ok loc ∧ d.get? loc = none ∧
    d' = d.set loc (.file content false)
  /-- Each package has the archive that the original has for it, which can still be read there, or
  else the one that was to be registered. -/
  listed : ∃ original text text', c.importcfg? = some original ∧
    d.readText ⟨original⟩ = .ok text ∧ d'.readText ⟨original⟩ = .ok text ∧
    d'.readText copy = .ok text' ∧
    ∀ package, (ImportCfg.parse text').archive? package =
      ((ImportCfg.parse text).archive? package).or (archives.find? package)

theorem extends_of_extend (hs : ∀ d, i.source d = (answer, d))
    (hl : ∀ archives, answer = .ok archives → ∀ e ∈ archives, Listable e.1 e.2.text)
    (hc : c.importcfg? = some text) (hr : ImportCfg.read d ⟨text⟩ = .ok cfg)
    (h : i.extend c cfg d = (.ok true, c', d')) :
    ∃ archives copy, answer = .ok archives ∧ (c.Paired → Extends archives copy c d c' d') := by
  rcases extend_cases hs c cfg d with ⟨result, hresult, hkept⟩ |
    ⟨archives, copy, d₁, hanswer, hw, hextend⟩
  · exact absurd (congrArg Prod.fst (hkept.symm.trans h)) hresult
  · obtain ⟨rfl, rfl⟩ : c.setFlag "importcfg" copy.text = c' ∧ d₁ = d' := by
      simpa using hextend.symm.trans h
    obtain ⟨text', hcopy, harchive⟩ := listed_of_createTemp (hl archives hanswer) hr hw
    obtain ⟨source, hsource, rfl⟩ := read_eq_ok.1 hr
    obtain ⟨-, loc, -, hloc, hfree, hd'⟩ := Disk.createTemp_eq_ok hw
    have hkept := (Disk.grown_createTemp (P := fun _ => False) hw).readText hsource
      fun _ _ => not_false
    refine ⟨archives, copy, hanswer, fun hp => ?_⟩
    obtain ⟨k, hlast, hset⟩ := setFlag_of_flagValue? hp copy.text hc
    exact ⟨⟨k, hlast, hset⟩,
      flagValue?_setFlag hp copy.text fun _ => by decide, ⟨loc, _, hloc, hfree, hd'⟩,
      text, source, text', hc, hsource, hkept, hcopy, harchive⟩

/-- **A copy lists all** that was to be registered, so that it is not extended again. -/
theorem Extends.extend (h : Extends archives copy c d c' d')
    (hs : ∀ d, i.source d = (.ok archives, d)) :
    ∃ cfg, ImportCfg.read d' copy = .ok cfg ∧ i.extend c' cfg d' = (.ok false, c', d') := by
  obtain ⟨_, text, text', -, -, -, hcopy, harchive⟩ := h.listed
  have hall : ∀ e ∈ archives, ((ImportCfg.parse text').archive? e.1).isSome = true := by
    intro e he
    rw [harchive, Option.isSome_or, isSome_find?_of_mem he, Bool.or_true]
  refine ⟨_, read_eq_ok.2 ⟨text', hcopy, rfl⟩, ?_⟩
  unfold Injector.extend
  simp only [hs, addAll_of_listed hall]

/-- **What may register archives** leaves all as it is, or the command uses a copy. -/
theorem Injector.Injects.cases {inject : Injection} (hi : i.Injects inject)
    (hs : ∀ d, i.source d = (answer, d))
    (hl : ∀ archives, answer = .ok archives → ∀ e ∈ archives, Listable e.1 e.2.text)
    (c : CommandLine) (d : Disk) :
    (∃ result, result ≠ .ok true ∧ inject c d = (result, c, d)) ∨
      ∃ archives copy c' d', answer = .ok archives ∧ inject c d = (.ok true, c', d') ∧
        (c.Paired → Extends archives copy c d c' d') := by
  by_cases hread : ∃ text cfg, c.importcfg? = some text ∧ ImportCfg.read d ⟨text⟩ = .ok cfg
  · obtain ⟨text, cfg, hc, hr⟩ := hread
    rcases hi.read c d text cfg hc hr with hskip | hextend
    · exact .inl ⟨_, by simp, hskip⟩
    · rcases extend_cases hs c cfg d with ⟨result, hresult, hkept⟩ | ⟨_, copy, d', -, -, htrue⟩
      · exact .inl ⟨result, hresult, hextend.trans hkept⟩
      · obtain ⟨archives, copy', hanswer, hextends⟩ := extends_of_extend hs hl hc hr htrue
        exact .inr ⟨archives, copy', _, _, hanswer, hextend.trans htrue, hextends⟩
  · exact .inl (hi.unread c d fun text cfg hc hr => hread ⟨text, cfg, hc, hr⟩)

/-! ### Registering -/

/-- **Registering archives** changes nothing, or gives the command a configuration that lists them; a
second time, there is nothing left to be done. -/
structure Registering (answer : Except InjectError PackageMap) (inject : Injection) : Prop where
  kept : ∀ c d result c' d', inject c d = (result, c', d') → result ≠ .ok true → c' = c ∧ d' = d
  extended : ∀ c d c' d', c.Paired → inject c d = (.ok true, c', d') →
    ∃ archives copy, answer = .ok archives ∧ Extends archives copy c d c' d'
  once : ∀ c d b c' d', c.Paired → inject c d = (.ok b, c', d') → inject c' d' = (.ok false, c', d')

theorem registering_of_injects {inject : Injection} (hi : i.Injects inject)
    (hs : ∀ d, i.source d = (answer, d))
    (hl : ∀ archives, answer = .ok archives → ∀ e ∈ archives, Listable e.1 e.2.text) :
    Registering answer inject := by
  have kept : ∀ c d result c' d', inject c d = (result, c', d') → result ≠ .ok true →
      c' = c ∧ d' = d := by
    intro c d result c' d' h hresult
    rcases hi.cases hs hl c d with ⟨_, -, hkept⟩ | ⟨_, _, _, _, -, htrue, -⟩
    · obtain ⟨-, rfl, rfl⟩ : _ ∧ c = c' ∧ d = d' := by simpa using hkept.symm.trans h
      exact ⟨rfl, rfl⟩
    · exact absurd (congrArg Prod.fst (h.symm.trans htrue)) hresult
  have extended : ∀ c d c' d', c.Paired → inject c d = (.ok true, c', d') →
      ∃ archives copy, answer = .ok archives ∧ Extends archives copy c d c' d' := by
    intro c d c' d' hp h
    rcases hi.cases hs hl c d with ⟨result, hresult, hkept⟩ |
      ⟨archives, copy, _, _, hanswer, htrue, hextends⟩
    · exact absurd (congrArg Prod.fst (hkept.symm.trans h)) hresult
    · obtain ⟨rfl, rfl⟩ : _ = c' ∧ _ = d' := by simpa using htrue.symm.trans h
      exact ⟨archives, copy, hanswer, hextends hp⟩
  refine ⟨kept, extended, fun c d b c' d' hp h => ?_⟩
  cases b with
  | false =>
    obtain ⟨rfl, rfl⟩ := kept c d _ c' d' h (by simp)
    exact h
  | true =>
    obtain ⟨archives, copy, rfl, hextends⟩ := extended c d c' d' hp h
    obtain ⟨cfg, hr, hextend⟩ := hextends.extend hs
    rcases hi.read c' d' copy.text cfg hextends.used hr with hskip | hread
    · exact hskip
    · exact hread.trans hextend

/-- **Compilers and linkers are given archives** in full or not at all, and only once. What an
injector registers is the same whenever it is asked for, or it fails to be found; none of it breaks
the lines of a configuration. -/
theorem registering_of_source (i : Injector) (hs : ∀ d, i.source d = (answer, d))
    (hl : ∀ archives, answer = .ok archives → ∀ e ∈ archives, Listable e.1 e.2.text) :
    Registering answer i.injectCompile ∧ Registering answer i.injectLink :=
  ⟨registering_of_injects (injects_injectCompile i) hs hl,
    registering_of_injects (injects_injectLink i) hs hl⟩

/-! ### Two commands of a build -/

theorem injectCompile_of_uses (hu : c.candidates.any (i.usesSdk d) = true)
    (hc : c.importcfg? = some text) (hr : ImportCfg.read d ⟨text⟩ = .ok cfg) :
    i.injectCompile c d = i.extend c cfg d := by
  unfold Injector.injectCompile
  simp only [hu, hc, hr, if_true]

theorem injectLink_of_required (hc : c.importcfg? = some text)
    (hr : ImportCfg.read d ⟨text⟩ = .ok cfg) (hrequired : i.required.all cfg.contains = true) :
    i.injectLink c d = i.extend c cfg d := by
  unfold Injector.injectLink
  simp only [hc, hr, hrequired, if_true]

/-- **A command is given a copy** if there is anything to register and room for a file. -/
theorem exists_copy {loc : Location} (hd : d.Reliable) (hs : ∀ d, i.source d = (.ok archives, d))
    (c : CommandLine) (hadd : (cfg.addAll archives).1 ≠ 0)
    (hcopy : d.resolve ((d.cwdPath.join i.tempDir).join ⟨Disk.tempName "importcfg_" "" 0⟩) =
      .ok loc) (hroom : d.Room i.tempDir 1) :
    ∃ c' d', i.extend c cfg d = (.ok true, c', d') := by
  obtain ⟨c', d', h⟩ := exists_extend hd hs c cfg hcopy hroom
  rw [bne_iff_ne.2 hadd] at h
  exact ⟨c', d', h⟩

/-- A command that links a test binary. -/
def linkTest : CommandLine := .link ⟨"link"⟩ ["-importcfg=importcfg", "main.a"]

/-- A disk with a test that imports the instrumentation. -/
def importingDisk : Disk :=
  testDisk.set ["a_test.go"] (.file (("package p\n\nimport _ \"" ++
    Instrumentation.default.importPath ++ "\"\n").toUTF8) false)

theorem registering_of_testBuild :
    let i := smallProcessor.injector
    (∃ c d copy, i.injectCompile compileTest importingDisk = (.ok true, c, d) ∧
      Extends sdkArchive copy compileTest importingDisk c d ∧
      i.injectCompile c d = (.ok false, c, d)) ∧
    ∃ c d copy, i.injectLink linkTest importingDisk = (.ok true, c, d) ∧
      Extends sdkArchive copy linkTest importingDisk c d ∧
      i.injectLink c d = (.ok false, c, d) := by
  intro i
  have hlistable : ∀ archives, (Except.ok sdkArchive : Except InjectError PackageMap) =
      .ok archives → ∀ e ∈ archives, Listable e.1 e.2.text := by
    rintro _ ⟨⟩
    exact listable_sdkArchive
  obtain ⟨hcompile, hlink⟩ := registering_of_source i (fun _ => rfl) hlistable
  have hread : ImportCfg.read importingDisk ⟨"importcfg"⟩ =
      .ok (.parse "packagefile testing=/testing.a\n") :=
    read_eq_ok.2 ⟨_, Disk.readText_of_file
      (by decide : importingDisk.resolve ⟨"importcfg"⟩ = .ok ["importcfg"]) rfl rfl, rfl⟩
  have hroom : importingDisk.Room i.tempDir 1 :=
    (room_testDisk (by decide)).set (by decide)
  have hextend : ∀ c, ∃ c' d', i.extend c (.parse "packagefile testing=/testing.a\n") importingDisk =
      (.ok true, c', d') := fun c =>
    exists_copy (fun _ _ _ => rfl) (fun _ => rfl) c (by decide +kernel)
      (by decide : importingDisk.resolve _ = .ok ["tmp", "importcfg_000000"]) hroom
  have huses : compileTest.candidates.any (i.usesSdk importingDisk) = true := by decide +kernel
  constructor
  · obtain ⟨c, d, h⟩ := hextend compileTest
    rw [← injectCompile_of_uses huses (by decide) hread] at h
    obtain ⟨_, copy, ⟨⟩, hextends⟩ := hcompile.extended _ _ _ _ (paired_read ..) h
    exact ⟨c, d, copy, h, hextends, hcompile.once _ _ _ _ _ (paired_read ..) h⟩
  · obtain ⟨c, d, h⟩ := hextend linkTest
    rw [← injectLink_of_required (by decide) hread (by decide +kernel)] at h
    obtain ⟨_, copy, ⟨⟩, hextends⟩ := hlink.extended _ _ _ _ (paired_read ..) h
    exact ⟨c, d, copy, h, hextends, hlink.once _ _ _ _ _ (paired_read ..) h⟩

end TestWeave.Build
