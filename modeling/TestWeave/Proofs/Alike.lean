import TestWeave.Proofs.Decision

/-!
# Disks that are alike for a session

Two disks are alike for the session of a build if they have the same directories and the same files
under the names of the session. Whatever else tells them apart, the session goes on alike on both of
them, and so does a plan; what is done in other sessions leaves a disk alike to what it was.

* `Disk.Alike`: disks with the same files at some places.
* `lock_alike`, `enter_alike`, `record_alike`, `plan_alike`: what is done in a session on two disks
  that are alike.
* `alike_lock`, `alike_record`, `alike_plan`: what is done in another session.
-/

namespace TestWeave.Host.Disk

variable {Q : Location → Prop} {d d' d₁ d₂ : Disk} {p : Path} {loc : Location}
  {content : ByteArray} {executable : Bool}

/-- Disks with the same directories, and with the same files at the places `Q`. -/
structure Alike (Q : Location → Prop) (d d' : Disk) : Prop where
  cwd : d'.cwd = d.cwd
  system : d'.system = d.system
  directory : ∀ loc, d'.get? loc = some .directory ↔ d.get? loc = some .directory
  file : ∀ loc, Q loc → d'.get? loc = d.get? loc

theorem Alike.refl (Q : Location → Prop) (d : Disk) : Alike Q d d :=
  ⟨rfl, rfl, fun _ => Iff.rfl, fun _ _ => rfl⟩

theorem Alike.symm (h : Alike Q d d') : Alike Q d' d :=
  ⟨h.cwd.symm, h.system.symm, fun loc => (h.directory loc).symm, fun loc hq => (h.file loc hq).symm⟩

theorem Alike.trans (h : Alike Q d d₁) (h' : Alike Q d₁ d₂) : Alike Q d d₂ :=
  ⟨h'.cwd.trans h.cwd, h'.system.trans h.system,
    fun loc => (h'.directory loc).trans (h.directory loc),
    fun loc hq => (h'.file loc hq).trans (h.file loc hq)⟩

/-- As far as paths are concerned, such disks are as good as grown. -/
theorem Alike.grown (h : Alike Q d d') : Grown (fun _ => True) d d' :=
  ⟨h.cwd, h.system, h.directory, fun _ _ _ hnot => absurd trivial hnot⟩

/-- A file that is written elsewhere. -/
theorem Alike.set (hd : d.get? loc ≠ some .directory) (hq : ¬Q loc) :
    Alike Q d (d.set loc (.file content executable)) := by
  have hgrown : Grown (· = loc) d (d.set loc (.file content executable)) := .set hd (.inl rfl)
  refine ⟨rfl, rfl, hgrown.directory, fun other ho => get?_set_ne d _ ?_⟩
  rintro rfl
  exact hq ho

/-- A file that is written on both disks. -/
theorem Alike.set_both (h : Alike Q d d') (hd : d.get? loc ≠ some .directory) :
    Alike Q (d.set loc (.file content executable)) (d'.set loc (.file content executable)) := by
  have hd' : d'.get? loc ≠ some .directory := fun hdir => hd ((h.directory loc).1 hdir)
  have hne : loc ≠ [] := by
    rintro rfl
    exact hd rfl
  have hgrown : Grown (· = loc) d (d.set loc (.file content executable)) := .set hd (.inl rfl)
  have hgrown' : Grown (· = loc) d' (d'.set loc (.file content executable)) := .set hd' (.inl rfl)
  refine ⟨h.cwd, h.system, fun other => ?_, fun other ho => ?_⟩
  · rw [hgrown.directory, hgrown'.directory, h.directory]
  · by_cases hloc : other = loc
    · subst hloc
      rw [get?_set_self d _ hne, get?_set_self d' _ hne]
    · rw [get?_set_ne d _ hloc, get?_set_ne d' _ hloc, h.file other ho]

theorem Alike.readText (h : Alike Q d d') (hr : d.resolve p = .ok loc) (hq : Q loc) :
    d'.readText p = d.readText p :=
  readText_congr hr ((h.grown.resolve p loc).2 hr) (h.file loc hq)

theorem Alike.lookup (h : Alike Q d d') (hr : d.resolve p = .ok loc) (hq : Q loc) :
    d'.lookup p = d.lookup p :=
  lookup_congr hr ((h.grown.resolve p loc).2 hr) (h.file loc hq)

theorem Alike.openForWriting (h : Alike Q d d') (hr : d.resolve p = .ok loc) (hq : Q loc) :
    d'.openForWriting p = d.openForWriting p := by
  unfold Disk.openForWriting
  rw [hr, (h.grown.resolve p loc).2 hr]
  simp only [bind, Except.bind, h.file loc hq]

/-- A file that is opened on both disks is written on both. -/
theorem Alike.opened (h : Alike Q d d') (hr : d.resolve p = .ok loc) (hq : Q loc) :
    (∃ e, d.openForWriting p = .error e ∧ d'.openForWriting p = .error e) ∨
      ∃ found old executable, d.openForWriting p = .ok (found, old, executable) ∧
        d'.openForWriting p = .ok (found, old, executable) ∧ ∀ content,
          Alike Q (d.set found (.file content executable)) (d'.set found (.file content executable)) := by
  rw [h.openForWriting hr hq]
  cases ho : d.openForWriting p with
  | error e => exact .inl ⟨e, rfl, rfl⟩
  | ok opened =>
    obtain ⟨found, old, executable⟩ := opened
    obtain ⟨-, -, hd⟩ := openForWriting_eq_ok ho
    exact .inr ⟨found, old, executable, rfl, rfl,
      fun content => h.set_both fun hdir => by simpa using hd _ hdir⟩

theorem Alike.touch (h : Alike Q d d') (hr : d.resolve p = .ok loc) (hq : Q loc) :
    (∃ e, d.touch p = .error e ∧ d'.touch p = .error e) ∨
      ∃ t t', d.touch p = .ok t ∧ d'.touch p = .ok t' ∧ Alike Q t t' := by
  unfold Disk.touch
  rcases h.opened hr hq with ⟨e, ho, ho'⟩ | ⟨found, old, executable, ho, ho', hset⟩
  · rw [ho, ho']
    exact .inl ⟨e, rfl, rfl⟩
  · rw [ho, ho']
    exact .inr ⟨_, _, rfl, rfl, hset _⟩

theorem Alike.save (h : Alike Q d d') (hd : d.Reliable) (hr : d.resolve p = .ok loc) (hq : Q loc)
    (content : ByteArray) : (d'.save p content).1 = (d.save p content).1 ∧
      Alike Q (d.save p content).2 (d'.save p content).2 := by
  have hd' : d'.Reliable := h.grown.reliable.2 hd
  unfold Disk.save
  rcases h.opened hr hq with ⟨e, ho, ho'⟩ | ⟨found, old, executable, ho, ho', hset⟩
  · rw [ho, ho']
    exact ⟨rfl, h⟩
  · rw [ho, ho']
    simp only [put, hd d.nodes, hd' d'.nodes, true_and]
    exact hset content

theorem alike_touch (h : d.touch p = .ok d') (hq : ∀ loc, d.resolve p = .ok loc → ¬Q loc) :
    Alike Q d d' := by
  obtain ⟨loc, content, executable, hr, hd, rfl⟩ := touch_eq_ok h
  exact .set (fun hdir => by simpa using hd _ hdir) (hq loc hr)

theorem alike_write (h : d.write p content = .ok d')
    (hq : ∀ loc, d.resolve p = .ok loc → ¬Q loc) : Alike Q d d' := by
  obtain ⟨loc, executable, hr, -, hd, rfl⟩ := write_eq_ok h
  exact .set hd (hq loc hr)

end TestWeave.Host.Disk

namespace TestWeave.Build

open TestWeave.Change TestWeave.Host TestWeave.Source

variable {Q : Location → Prop} {d d' : Disk} {session : Session} {g : Guard} {s : Step}

/-! ### In the session -/

/-- The files of the session are at places of `Q`. -/
structure Session.Within (session : Session) (Q : Location → Prop) (d : Disk) : Prop where
  record : ∃ loc, d.resolve session.path = .ok loc ∧ Q loc
  lock : ∃ loc, d.resolve session.lockPath = .ok loc ∧ Q loc

theorem Session.Within.grown {P : Location → Prop} (h : session.Within Q d)
    (hg : Disk.Grown P d d') : session.Within Q d' := by
  obtain ⟨⟨loc, hr, hq⟩, loc', hr', hq'⟩ := h
  exact ⟨⟨loc, (hg.resolve _ _).2 hr, hq⟩, loc', (hg.resolve _ _).2 hr', hq'⟩

theorem readUnits_alike (h : Disk.Alike Q d d') (hw : session.Within Q d) :
    session.readUnits d' = session.readUnits d := by
  obtain ⟨loc, hr, hq⟩ := hw.record
  exact readUnits_congr (h.readText hr hq)

/-- **The lock is taken** with the same outcome on both disks. -/
theorem lock_alike (h : Disk.Alike Q d d') (hw : session.Within Q d) :
    (session.lock d').1 = (session.lock d).1 ∧
      Disk.Alike Q (session.lock d).2 (session.lock d').2 := by
  obtain ⟨loc, hr, hq⟩ := hw.lock
  unfold Session.lock
  rcases h.touch hr hq with ⟨e, ht, ht'⟩ | ⟨t, t', ht, ht', ha⟩
  · rw [ht, ht']
    exact ⟨rfl, h⟩
  · have hgrown : Disk.Grown (fun _ => True) d t := Disk.grown_touch ht
    rw [ht, ht']
    refine ⟨?_, ha⟩
    simp only [readUnits_alike ha (hw.grown hgrown)]

theorem enter_alike (h : Disk.Alike Q d d') (hw : session.Within Q d) :
    (session.enter d').1 = (session.enter d).1 ∧
      Disk.Alike Q (session.enter d).2 (session.enter d').2 := by
  obtain ⟨houtcome, ha⟩ := lock_alike h hw
  have hread := readUnits_alike ha (hw.grown (grown_lock (fun _ => True) session d))
  unfold Session.enter
  rcases hl : session.lock d with ⟨outcome, t⟩
  rcases hl' : session.lock d' with ⟨outcome', t'⟩
  rw [hl, hl'] at houtcome ha hread
  obtain rfl : outcome' = outcome := houtcome
  cases outcome' with
  | ok guard => exact ⟨rfl, ha⟩
  | error => exact ⟨by simp only [hread], ha⟩

/-- **A unit is recorded** with the same outcome on both disks. -/
theorem record_alike (h : Disk.Alike Q d d') (hd : d.Reliable) (hw : session.Within Q d)
    (hg : g.session = session) (unit : String) :
    (g.record unit d').1 = (g.record unit d).1 ∧ (g.record unit d').2.1 = (g.record unit d).2.1 ∧
      Disk.Alike Q (g.record unit d).2.2 (g.record unit d').2.2 := by
  obtain ⟨loc, hr, hq⟩ := hw.record
  rw [← hg] at hr
  unfold Guard.record
  split
  · exact ⟨rfl, rfl, h⟩
  · obtain ⟨houtcome, ha⟩ := h.save hd hr hq (recordText (g.units ++ [unit])).toUTF8
    rcases hs : d.save g.session.path (recordText (g.units ++ [unit])).toUTF8 with ⟨outcome, t⟩
    rcases hs' : d'.save g.session.path (recordText (g.units ++ [unit])).toUTF8 with ⟨outcome', t'⟩
    rw [hs, hs'] at houtcome ha
    obtain rfl : outcome' = outcome := houtcome
    cases outcome' <;> simp only [hs, hs', true_and] <;> exact ha

/-! ### In another session -/

/-- The files of the session are at no place of `Q`. -/
structure Session.Outside (session : Session) (Q : Location → Prop) (d : Disk) : Prop where
  record : ∀ loc, d.resolve session.path = .ok loc → ¬Q loc
  lock : ∀ loc, d.resolve session.lockPath = .ok loc → ¬Q loc

theorem alike_lock (h : session.Outside Q d) : Disk.Alike Q d (session.lock d).2 :=
  Session.lock_disk (.refl Q d) fun _ ht => Disk.alike_touch ht h.lock

theorem alike_enter (h : session.Outside Q d) : Disk.Alike Q d (session.enter d).2 :=
  session.enter_snd d ▸ alike_lock h

theorem alike_record (h : session.Outside Q d) (hg : g.session = session) (unit : String) :
    Disk.Alike Q d (g.record unit d).2.2 :=
  g.record_disk unit (.refl Q d) fun _ _ hw => Disk.alike_write hw (hg ▸ h.record)

/-! ### Temporary files -/

/-- The name of a temporary file for a source. -/
def tempNameOf (path : Path) (k : Nat) : String :=
  Disk.tempName (path.fileStem?.getD "" ++ "_") ("_" ++ (path.extension?.map ("." ++ ·)).getD "") k

/-- The temporary files for a source are at no place of `Q`. -/
def Clear (Q : Location → Prop) (file : SourceFile) : Prop :=
  ∀ k loc, loc.getLast? = some (tempNameOf file.path k) → ¬Q loc

theorem alike_emitTemp {tempDir temp : Path} {p : Patch} (hc : Clear Q p.file)
    (h : emitTemp d tempDir p = (some temp, d')) : Disk.Alike Q d d' := by
  obtain ⟨source, k, loc, -, rfl, hr, hg, rfl, -⟩ := emitTemp_eq_some h
  have hname := getLast?_of_resolve (plain_tempName p.file.path k) hr
  exact .set (by simp [hg]) (hc k loc hname)

/-! ### Plans -/

/-- **The plan of another session.** -/
theorem alike_plan (hs : ∀ d, s.session.Outside Q d)
    (hc : ∀ unit ∈ s.units, ∀ file ∈ unit.files, Clear Q file) (d : Disk) :
    Disk.Alike Q d (s.plan d).2 := by
  have hkeeps : s.Keeps fun _ _ d' => Disk.Alike Q d d' :=
    { spend := fun h => h
      enter := fun h => h.trans (alike_enter (hs _))
      host := by
        intro n result d' d₁ g unit file temp d₂ hu _ he _ hf _ hemit h
        have hentered := alike_enter (hs d')
        rw [he] at hentered
        have hsession := (grown_of_enter he fun _ => True).2
        have hclear : Clear Q (prepared file s.sdk (some Known.driverName)).file := by
          rw [file_prepared]
          exact hc unit hu file hf
        exact ((h.trans hentered).trans (alike_emitTemp hclear hemit)).trans
          (alike_record (hs d₂) hsession unit.name)
      redirect := by
        intro n result d' unit file temp d₂ hu hf _ _ hemit h
        have hclear : Clear Q (prepared file s.sdk none).file := by
          rw [file_prepared]
          exact hc unit hu file hf
        exact h.trans (alike_emitTemp hclear hemit) }
  exact hkeeps.plan (n := 0) (.refl Q d)

theorem alike_writeChanged {files : List SourceFile} (hc : ∀ file ∈ files, Clear Q file)
    (result : PathMap) (d : Disk) :
    Disk.Alike Q d (s.writeChanged result d (files.map s.instrumentFile)).2 := by
  induction files generalizing result d with
  | nil => exact .refl Q d
  | cons file files ih =>
    obtain ⟨hfile, hfiles⟩ := List.forall_mem_cons.1 hc
    rw [List.map_cons, Step.writeChanged]
    split
    · exact ih hfiles _ _
    · rcases hemit : emitTemp d s.tempDir (s.instrumentFile file) with ⟨_ | temp, d'⟩
      · obtain rfl := emitTemp_eq_none hemit
        exact ih hfiles _ _
      · rw [← file_instrumentFile s file] at hfile
        exact (alike_emitTemp hfile hemit).trans (ih hfiles _ _)

/-- Whether a unit is given a suite entry, on two disks that are alike and have room. -/
theorem isSome_writeHost_alike (h : Disk.Alike Q d d') (hd : d.Reliable)
    (hroom : d.Room s.tempDir 1) (hroom' : d'.Room s.tempDir 1) (result result' : PathMap)
    (files : List SourceFile) :
    (s.writeHost d' result' (files.map s.instrumentFile)).1.isSome =
      (s.writeHost d result (files.map s.instrumentFile)).1.isSome := by
  rw [Bool.eq_iff_iff, isSome_writeHost_iff hd hroom,
    isSome_writeHost_iff (h.grown.reliable.2 hd) hroom']
  simp only [tempPath_grown h.grown, h.grown.resolve]

/-- **The plan of a unit** gives it a suite entry on both disks or on none. -/
theorem planUnit_alike (h : Disk.Alike Q d d') (hd : d.Reliable) (hw : s.session.Within Q d)
    {unit : TestUnit} (hc : ∀ file ∈ unit.files, Clear Q file) (hroom : d.Room s.tempDir 2)
    (hroom' : d'.Room s.tempDir 2) (result result' : PathMap) :
    s.gives unit result' d' = s.gives unit result d ∧
      Disk.Alike Q (s.planUnit unit result d).2 (s.planUnit unit result' d').2 := by
  obtain ⟨hguard, hentered⟩ := enter_alike h hw
  have hd₁ := (grown_enter (fun _ => True) s.session d).reliable.2 hd
  have hhost := isSome_writeHost_alike (s := s) hentered hd₁ (room_enter hroom s.session)
    (room_enter hroom' s.session) result result' unit.files
  have hgives : s.gives unit result' d' = s.gives unit result d := by
    unfold Step.gives
    simp only [hguard, hhost]
  refine ⟨hgives, ?_⟩
  -- what is written apart from the section leaves both disks as they were
  have hrest : ∀ {result₁ result₂ d₁ d₂}, Disk.Alike Q d₁ d₂ →
      Disk.Alike Q (s.writeChanged result₁ d₁ (unit.files.map s.instrumentFile)).2
        (s.writeChanged result₂ d₂ (unit.files.map s.instrumentFile)).2 := fun ha =>
    ((alike_writeChanged hc _ _).symm.trans ha).trans (alike_writeChanged hc _ _)
  cases hg : s.gives unit result d with
  | false =>
    rw [planUnit_of_not_gives hg, planUnit_of_not_gives (hgives.trans hg)]
    refine hrest ?_
    split
    · exact h
    · exact hentered
  | true =>
    obtain ⟨g, d₁, temp, d₂, file, hmem, he, hemit, hplan⟩ := planUnit_of_gives hg
    obtain ⟨g', d₁', temp', d₂', file', hmem', he', hemit', hplan'⟩ :=
      planUnit_of_gives (hgives.trans hg)
    rw [he, he'] at hguard hentered
    obtain rfl : g' = g := hguard
    have hclear : ∀ file ∈ unit.files,
        Clear Q (prepared file s.sdk (some Known.driverName)).file := by
      intro file hmem
      rw [file_prepared]
      exact hc file hmem
    obtain ⟨hgrown, hsession⟩ := grown_of_enter he fun _ => True
    have hwritten := ((alike_emitTemp (hclear file hmem) hemit).symm.trans hentered).trans
      (alike_emitTemp (hclear file' hmem') hemit')
    have hgrown₂ := hgrown.trans (grown_emitTemp hemit)
    rw [hplan, hplan']
    exact hrest (record_alike hwritten (hgrown₂.reliable.2 hd) (hw.grown hgrown₂) hsession
      unit.name).2.2

theorem givenFrom_alike (h : Disk.Alike Q d d') (hd : d.Reliable) (hw : s.session.Within Q d)
    {units : List TestUnit} (hsub : units ⊆ s.units)
    (hc : ∀ unit ∈ units, ∀ file ∈ unit.files, Clear Q file)
    (hroom : d.Room s.tempDir (units.map TestUnit.cost).sum)
    (hroom' : d'.Room s.tempDir (units.map TestUnit.cost).sum) (result result' : PathMap) :
    s.givenFrom units (result', d') = s.givenFrom units (result, d) ∧
      Disk.Alike Q (s.planAll units (result, d)).2 (s.planAll units (result', d')).2 := by
  induction units generalizing result result' d d' with
  | nil => exact ⟨rfl, h⟩
  | cons unit units ih =>
    obtain ⟨hunit, hunits⟩ := List.cons_subset.1 hsub
    obtain ⟨hclear, hclears⟩ := List.forall_mem_cons.1 hc
    rw [List.map_cons, List.sum_cons, Nat.add_comm] at hroom hroom'
    have hcost : 2 ≤ (units.map TestUnit.cost).sum + unit.cost := by
      rw [TestUnit.cost]
      omega
    obtain ⟨hgives, ha⟩ := planUnit_alike h hd hw hclear (hroom.mono hcost) (hroom'.mono hcost)
      result result'
    -- each unit may use up its cost, so that there is room left for those behind it
    have hkeeps := keeps_room s s.tempDir (units.map TestUnit.cost).sum
    rw [← Nat.zero_add unit.cost] at hroom hroom'
    have hgrown : Disk.Grown _ d (s.planUnit unit result d).2 :=
      (keeps_grown s d).planUnit (n := 0) hunit (.refl _ d)
    obtain ⟨hrest, hplan⟩ := ih ha (hgrown.reliable.2 hd) (hw.grown hgrown) hunits hclears
      (hkeeps.planUnit hunit hroom) (hkeeps.planUnit hunit hroom')
      (s.planUnit unit result d).1 (s.planUnit unit result' d').1
    exact ⟨by rw [Step.givenFrom, Step.givenFrom, hgives, hrest], hplan⟩

/-- **The plan of the session** gives the same units a suite entry on both disks. -/
theorem plan_alike (h : Disk.Alike Q d d') (hd : d.Reliable) (hw : s.session.Within Q d)
    (hc : ∀ unit ∈ s.units, ∀ file ∈ unit.files, Clear Q file)
    (hroom : d.Room s.tempDir (s.units.map TestUnit.cost).sum)
    (hroom' : d'.Room s.tempDir (s.units.map TestUnit.cost).sum) :
    s.given d' = s.given d ∧ Disk.Alike Q (s.plan d).2 (s.plan d').2 :=
  givenFrom_alike h hd hw (List.Subset.refl _) hc hroom hroom' [] []

end TestWeave.Build
