import TestWeave.Proofs.KeyFiles
import TestWeave.Proofs.Record

/-!
# Builds that are used again

A build is used again as long as its work directory is there: the key file names the work directory
of the latest build, whatever else becomes of the builds and of their directories. A program that is
started in between may fail in any way, and what fails leaves the key file as it was.

* `BuildCache.Launches`, `BuildCache.Reuses`: whether a call starts the program or uses a build again.
* `BuildCache.launches_iff`: which of the two it does.
* `BuildCache.History`: calls and whatever happens between them; `History.recorded?_eq`: what the key
  file names after them.
* `BuildCache.Meanwhile.reuses`: a build is used again until its directory goes.
* `BuildCache.coherent_of_history`: all of it together.
-/

namespace TestWeave

open TestWeave.Host

namespace Sdk.BuildCache

/-! ### Calls -/

/-- How the program is started for a build. -/
def launchOf (c : BuildCache) (extra : List String) : Launch :=
  ⟨c.go, buildArgs extra, some c.dir⟩

/-- The key file of a build. -/
def keyFile (c : BuildCache) (extra : List String) : Path := c.keyPath (buildArgs extra)

/-- The work directory that the key file names, whether it is there or not. -/
def recorded? (c : BuildCache) (extra : List String) (d : Disk) : Option Path :=
  (d.readText (c.keyFile extra)).toOption.map fun text => ⟨Text.trim text⟩

/-- A call starts the program: if that cannot be done, it fails for the same cause, and leaves the
disk as that has. -/
def Launches (c : BuildCache) (extra : List String) (d : Disk) : Prop :=
  ∀ launch e d', launch (c.launchOf extra) d = (.error e, d') →
    c.goBuild launch extra d = (.error (.launch c.go e), d')

/-- A call starts nothing: whatever the program would do, the answer is the directory, and nothing
changes. -/
def Reuses (c : BuildCache) (extra : List String) (d : Disk) (w : Path) : Prop :=
  ∀ launch, c.goBuild launch extra d = (.ok w, d)

/-- A program that leaves the key file alone, where nothing gets in the way of writing it when the
program has run. -/
structure Spares (c : BuildCache) (extra : List String) (launch : Launcher) (d : Disk) : Prop where
  kept : (launch (c.launchOf extra) d).2.lookup (c.keyFile extra) = d.lookup (c.keyFile extra)
  savable : (launch (c.launchOf extra) d).2.Savable (c.keyFile extra)

/-- **Calls of a build**, each with a program that does whatever it does, and anything else that
leaves the key file alone. `last` is the directory of the latest build, or what the key file named
before the first one. -/
inductive History (c : BuildCache) (extra : List String) (d₀ : Disk) : Option Path → Disk → Prop
  | start : History c extra d₀ (c.recorded? extra d₀) d₀
  | built {last d launch w d'} : History c extra d₀ last d → c.Launches extra d →
      c.Spares extra launch d → c.goBuild launch extra d = (.ok w, d') →
      History c extra d₀ (some w) d'
  | failed {last d launch e d'} : History c extra d₀ last d → c.Spares extra launch d →
      c.goBuild launch extra d = (.error e, d') → History c extra d₀ last d'
  | reused {last d w} (launch : Launcher) : History c extra d₀ last d → c.Reuses extra d w →
      History c extra d₀ last (c.goBuild launch extra d).2
  | elsewhere {last d d'} : History c extra d₀ last d →
      d'.lookup (c.keyFile extra) = d.lookup (c.keyFile extra) → History c extra d₀ last d'

/-- What happens while a work directory is there and the key file is not changed: calls, with any
programs at all, and anything that others do. -/
inductive Meanwhile (c : BuildCache) (extra : List String) (w : Path) (d₀ : Disk) : Disk → Prop
  | start : d₀.isDirectory w = true → Meanwhile c extra w d₀ d₀
  | call {d} (launch : Launcher) : Meanwhile c extra w d₀ d →
      Meanwhile c extra w d₀ (c.goBuild launch extra d).2
  | elsewhere {d d'} : Meanwhile c extra w d₀ d →
      d'.lookup (c.keyFile extra) = d.lookup (c.keyFile extra) → d'.isDirectory w = true →
      Meanwhile c extra w d₀ d'

variable {c : BuildCache} {extra args : List String} {launch : Launcher} {d d' d₀ : Disk}
  {w : Path} {last : Option Path} {e : SdkError}

/-! ### What a call does -/

theorem cachedWorkDir?_eq (c : BuildCache) (extra : List String) (d : Disk) :
    cachedWorkDir? d (c.keyFile extra) = (c.recorded? extra d).filter (d.isDirectory ·) := by
  unfold cachedWorkDir? recorded?
  cases d.readText (c.keyFile extra) with
  | error => rfl
  | ok text => rfl

/-- A build whose directory is there is used again. -/
theorem reuses_of_recorded (hr : c.recorded? extra d = some w) (hw : d.isDirectory w = true) :
    c.Reuses extra d w := by
  intro launch
  have hcached : cachedWorkDir? d (c.keyPath (buildArgs extra)) = some w := by
    rw [← keyFile, cachedWorkDir?_eq, hr, Option.filter_some, if_pos hw]
  unfold goBuild
  simp only
  rw [hcached]

/-- A build whose directory is gone is made anew. -/
theorem goBuild_of_gone (h : ∀ w, c.recorded? extra d = some w → d.isDirectory w = false)
    (launch : Launcher) : c.goBuild launch extra d = c.runBuild launch (buildArgs extra) d := by
  have hcached : cachedWorkDir? d (c.keyPath (buildArgs extra)) = none := by
    rw [← keyFile, cachedWorkDir?_eq, Option.filter_eq_none_iff]
    exact fun w hw => by simp [h w hw]
  unfold goBuild
  simp only
  rw [hcached]

/-- **When the program is started**: whenever the directory that is recorded is not there. -/
theorem launches_iff :
    c.Launches extra d ↔ ∀ w, c.recorded? extra d = some w → d.isDirectory w = false := by
  constructor
  · intro h w hr
    by_contra hw
    have hreuses := reuses_of_recorded hr (eq_true_of_ne_false hw)
    have hfails := h (fun _ d => (.error .notFound, d)) _ _ rfl
    rw [hreuses] at hfails
    cases congrArg Prod.fst hfails
  · intro h launch e d' hl
    rw [goBuild_of_gone h, runBuild, ← launchOf, hl]

theorem goBuild_of_launches (h : c.Launches extra d) (launch : Launcher) :
    c.goBuild launch extra d = c.runBuild launch (buildArgs extra) d :=
  goBuild_of_gone (launches_iff.1 h) launch

/-- A call does one or the other. -/
theorem reuses_or_launches (c : BuildCache) (extra : List String) (d : Disk) :
    (∃ w, (c.recorded? extra d = some w ∧ d.isDirectory w = true) ∧ c.Reuses extra d w) ∨
      c.Launches extra d := by
  by_cases h : ∃ w, c.recorded? extra d = some w ∧ d.isDirectory w = true
  · obtain ⟨w, hr, hw⟩ := h
    exact .inl ⟨w, ⟨hr, hw⟩, reuses_of_recorded hr hw⟩
  · refine .inr (launches_iff.2 fun w hr => ?_)
    by_contra hw
    exact h ⟨w, hr, eq_true_of_ne_false hw⟩

/-- **When a build is used again**: whenever the directory that is recorded is there. -/
theorem reuses_iff : c.Reuses extra d w ↔ c.recorded? extra d = some w ∧ d.isDirectory w = true := by
  constructor
  · intro h
    have hanswer := h fun _ d => (.error .notFound, d)
    rcases reuses_or_launches c extra d with ⟨found, hfound, hreuses⟩ | hl
    · rw [hreuses] at hanswer
      obtain rfl := Except.ok.inj (congrArg Prod.fst hanswer)
      exact hfound
    · rw [hl _ _ _ rfl] at hanswer
      cases congrArg Prod.fst hanswer
  · rintro ⟨hr, hw⟩
    exact reuses_of_recorded hr hw

/-- **What a build comes to**: it fails and leaves the disk as the program does, or its directory is
written down. -/
theorem runBuild_cases (c : BuildCache) (launch : Launcher) (args : List String) (d : Disk) :
    (∃ e, c.runBuild launch args d = (.error e, (launch ⟨c.go, args, some c.dir⟩ d).2)) ∨
      ∃ w, Text.trim w.text = w.text ∧ c.runBuild launch args d =
        (.ok w, writeKey (launch ⟨c.go, args, some c.dir⟩ d).2 (c.keyPath args) w) := by
  unfold runBuild
  rcases launch ⟨c.go, args, some c.dir⟩ d with ⟨outcome, d₁⟩
  cases outcome with
  | error => exact .inl ⟨_, rfl⟩
  | ok out =>
    dsimp only
    split
    · split
      · exact .inl ⟨_, rfl⟩
      · rename_i found hfound
        obtain ⟨line, -, hline⟩ := List.exists_of_findSome?_eq_some hfound
        obtain ⟨dir, -, rfl⟩ := Option.map_eq_some_iff.1 hline
        exact .inr ⟨_, Text.trim_trim dir, rfl⟩
    · exact .inl ⟨_, rfl⟩

theorem runBuild_eq_error (h : c.runBuild launch args d = (.error e, d')) :
    d' = (launch ⟨c.go, args, some c.dir⟩ d).2 := by
  rcases c.runBuild_cases launch args d with ⟨e', hrun⟩ | ⟨w, -, hrun⟩
  · exact (congrArg Prod.snd (hrun.symm.trans h)).symm
  · cases congrArg Prod.fst (hrun.symm.trans h)

theorem runBuild_eq_ok (h : c.runBuild launch args d = (.ok w, d')) :
    Text.trim w.text = w.text ∧
      d' = writeKey (launch ⟨c.go, args, some c.dir⟩ d).2 (c.keyPath args) w := by
  rcases c.runBuild_cases launch args d with ⟨e, hrun⟩ | ⟨found, htrim, hrun⟩
  · cases congrArg Prod.fst (hrun.symm.trans h)
  · obtain ⟨hfound, hdisk⟩ := Prod.mk.inj (hrun.symm.trans h)
    obtain rfl := Except.ok.inj hfound
    exact ⟨htrim, hdisk.symm⟩

/-- **A call that fails** leaves the disk as the program does. -/
theorem goBuild_eq_error (h : c.goBuild launch extra d = (.error e, d')) :
    d' = (launch (c.launchOf extra) d).2 := by
  rcases reuses_or_launches c extra d with ⟨w, -, hw⟩ | hl
  · rw [hw] at h
    cases congrArg Prod.fst h
  · rw [goBuild_of_launches hl] at h
    exact runBuild_eq_error h

/-- **A call that starts the program** and succeeds names a directory without blanks at its ends, and
writes it down. -/
theorem goBuild_eq_ok (hl : c.Launches extra d) (h : c.goBuild launch extra d = (.ok w, d')) :
    Text.trim w.text = w.text ∧
      d' = writeKey (launch (c.launchOf extra) d).2 (c.keyFile extra) w := by
  rw [goBuild_of_launches hl] at h
  exact runBuild_eq_ok h

/-! ### The key file -/

/-- What the key file names depends on nothing but the file. -/
theorem recorded?_congr (h : d'.lookup (c.keyFile extra) = d.lookup (c.keyFile extra)) :
    c.recorded? extra d' = c.recorded? extra d := by
  unfold recorded? Disk.readText Disk.read
  rw [h]

theorem recorded?_of_free {loc : Location} (hr : d.resolve (c.keyFile extra) = .ok loc)
    (h : d.get? loc = none) : c.recorded? extra d = none := by
  have hfail : d.readText (c.keyFile extra) = .error .notFound := by
    unfold Disk.readText Disk.read Disk.lookup
    rw [hr]
    simp only [bind, Except.bind, h]
    rfl
  rw [recorded?, hfail]
  rfl

/-- What is written down is what the key file names. -/
theorem recorded?_writeKey (hd : d.Savable (c.keyFile extra)) (hw : Text.trim w.text = w.text) :
    c.recorded? extra (writeKey d (c.keyFile extra) w) = some w := by
  have hread : (writeKey d (c.keyFile extra) w).readText (c.keyFile extra) = .ok w.text :=
    Disk.readText_write (hd.write_eq _)
  simp only [recorded?, hread, Except.toOption, Option.map_some, hw]

/-- **A build that was made** is the one that the key file names. -/
theorem recorded?_of_built (hl : c.Launches extra d) (hs : c.Spares extra launch d)
    (h : c.goBuild launch extra d = (.ok w, d')) : c.recorded? extra d' = some w := by
  obtain ⟨hw, hd⟩ := goBuild_eq_ok hl h
  rw [hd]
  exact recorded?_writeKey hs.savable hw

/-! ### A small cache -/

/-- A cache that has built nothing yet. -/
def emptyCacheDisk : Disk := { nodes := [(["c"], .directory), (["tmp"], .directory)], cwd := [] }

/-- The cache in one of its directories. -/
def smallCache : BuildCache := ⟨⟨"/c"⟩, "go"⟩

/-- What a build prints. -/
def buildOutput : ByteArray := "go: downloading x\nWORK=/tmp/w \n".toUTF8

/-- A program that makes the work directory and prints its name. -/
def workingGo : Launcher := fun _ d =>
  (.ok ⟨some 0, ByteArray.empty, buildOutput⟩, d.set ["tmp", "w"] .directory)

/-- The disk when it has been built. -/
def builtDisk (extra : List String) (d : Disk) : Disk :=
  (d.set ["tmp", "w"] .directory).set ["c", keyName (buildArgs extra)]
    (.file "/tmp/w".toUTF8 false)

theorem resolve_smallCache (hc : d.get? ["c"] = some .directory) (extra : List String) :
    d.resolve (smallCache.keyFile extra) = .ok ["c", keyName (buildArgs extra)] := by
  have hplain := plain_keyName (buildArgs extra)
  have hsize := utf8ByteSize_keyName (buildArgs extra)
  have hlead : ("/c/" : String).toList = ['/', 'c'] ++ ['/'] := rfl
  have hpath : smallCache.keyFile extra = ⟨"/c/" ++ keyName (buildArgs extra)⟩ := by
    rw [keyFile, keyPath_eq, Path.join, hplain.not_absolute]
    rfl
  have hwalk : d.walk [] (["c"] ++ [keyName (buildArgs extra)]) =
      .ok ["c", keyName (buildArgs extra)] := by
    have hone : d.walk [] ["c"] = .ok ["c"] :=
      (Disk.walk_name (by decide) (by decide)).2 ⟨rfl, by decide, rfl⟩
    rw [Disk.walk_append, hone]
    exact (Disk.walk_name hplain.here hplain.up).2 ⟨hc, by rw [hsize]; decide, rfl⟩
  rw [hpath]
  refine Disk.resolve_eq_ok_iff.2 ⟨by simp, by simpa using nul_notMem_keyName _, ?_, ?_⟩
  · rw [String.utf8ByteSize_append, hsize]
    decide
  · rw [Disk.namesOf_lead (.inr ⟨_, hlead⟩) hplain, Disk.isAbsolute_lead hplain]
    exact hwalk

/-- The work directory is made elsewhere. -/
theorem get?_of_worked (d : Disk) (name : Location) :
    (d.set ["tmp", "w"] .directory).get? ("c" :: name) = d.get? ("c" :: name) :=
  Disk.get?_set_ne d _ (by simp)

theorem spares_workingGo (hd : d.Reliable) (extra : List String)
    (hc : d.get? ["c"] = some .directory)
    (hk : d.get? ["c", keyName (buildArgs extra)] ≠ some .directory) :
    smallCache.Spares extra workingGo d := by
  have hr := resolve_smallCache hc extra
  have hr' := resolve_smallCache ((get?_of_worked d []).trans hc) extra
  have hwritable : (d.set ["tmp", "w"] .directory).Writable (smallCache.keyFile extra) :=
    ⟨_, hr', endsWithSlash_keyPath _ _,
      (congrArg (· ≠ some Node.directory) (get?_of_worked d _)).mpr hk⟩
  exact ⟨Disk.lookup_congr hr hr' (get?_of_worked d _), hwritable.savable hd⟩

theorem smallBuild (hd : d.Reliable) (extra : List String) (hc : d.get? ["c"] = some .directory)
    (hk : d.get? ["c", keyName (buildArgs extra)] = none) :
    smallCache.Launches extra d ∧
      smallCache.goBuild workingGo extra d = (.ok ⟨"/tmp/w"⟩, builtDisk extra d) := by
  have hr := resolve_smallCache hc extra
  have hlaunches : smallCache.Launches extra d := launches_iff.2 fun w hw => by
    rw [recorded?_of_free hr hk] at hw
    cases hw
  have hwork : workDirIn? (Text.Utf8.decodeLossy ByteArray.empty ++
      Text.Utf8.decodeLossy buildOutput) = some ⟨"/tmp/w"⟩ := by decide +kernel
  have hd' : (d.set ["tmp", "w"] .directory).Reliable := hd
  have hwrite : (d.set ["tmp", "w"] .directory).write (smallCache.keyPath (buildArgs extra))
      "/tmp/w".toUTF8 = .ok (builtDisk extra d) := by
    have hresolve := resolve_smallCache ((get?_of_worked d []).trans hc) extra
    rw [keyFile] at hresolve
    unfold Disk.write Disk.openForWriting
    rw [hresolve]
    simp only [bind, Except.bind, endsWithSlash_keyPath, get?_of_worked, hk]
    rfl
  refine ⟨hlaunches, ?_⟩
  rw [goBuild_of_launches hlaunches, runBuild]
  simp only [workingGo, Finished.succeeded, hwork, writeKey, hd'.save_eq hwrite]
  rfl

/-! ### Sequences of calls -/

/-- **The key file names the latest build.** -/
theorem History.recorded?_eq (h : c.History extra d₀ last d) : c.recorded? extra d = last := by
  induction h with
  | start => rfl
  | built _ hl hs hb => exact recorded?_of_built hl hs hb
  | failed _ hs hb ih =>
    obtain rfl := goBuild_eq_error hb
    rw [recorded?_congr hs.kept, ih]
  | reused launch _ hw ih =>
    rw [hw launch]
    exact ih
  | elsewhere _ hk ih => rw [recorded?_congr hk, ih]

/-- **A build is used again** until its directory goes: no call in between starts the program, so
none writes the key file. -/
theorem Meanwhile.reuses (h : c.Meanwhile extra w d₀ d) (hr : c.recorded? extra d₀ = some w) :
    c.recorded? extra d = some w ∧ d.isDirectory w = true ∧ c.Reuses extra d w := by
  have hkept : c.recorded? extra d = some w ∧ d.isDirectory w = true := by
    induction h with
    | start hw => exact ⟨hr, hw⟩
    | call launch _ ih =>
      have hsame := reuses_of_recorded ih.1 ih.2 launch
      rw [hsame]
      exact ih
    | elsewhere _ hk hw ih => exact ⟨(recorded?_congr hk).trans ih.1, hw⟩
  exact ⟨hkept.1, hkept.2, reuses_of_recorded hkept.1 hkept.2⟩

/-- **Builds are kept.** After any calls the key file names the latest build. A call then starts the
program just if the directory that is named is not there. If it fails, the key file is as it was. If
it starts the program and succeeds, every later call has the same answer and starts nothing, as long
as the directory is there and nobody changes the key file. -/
theorem coherent_of_history (h : c.History extra d₀ last d) (hs : c.Spares extra launch d) :
    c.recorded? extra d = last ∧
    (c.Launches extra d ↔ ∀ w, last = some w → d.isDirectory w = false) ∧
    (∀ e d', c.goBuild launch extra d = (.error e, d') →
      d'.lookup (c.keyFile extra) = d.lookup (c.keyFile extra)) ∧
    ∀ w d', c.Launches extra d → c.goBuild launch extra d = (.ok w, d') →
      ∀ d'', c.Meanwhile extra w d' d'' → c.Reuses extra d'' w := by
  have hlast := h.recorded?_eq
  refine ⟨hlast, ?_, fun e d' hfail => ?_, fun w d' hl hok d'' hmeanwhile => ?_⟩
  · rw [launches_iff, hlast]
  · obtain rfl := goBuild_eq_error hfail
    exact hs.kept
  · exact (hmeanwhile.reuses (recorded?_of_built hl hs hok)).2.2

theorem coherent_of_removed : ∃ d₁ d₂,
    smallCache.goBuild workingGo ["./..."] emptyCacheDisk = (.ok ⟨"/tmp/w"⟩, d₁) ∧
    smallCache.Reuses ["./..."] d₁ ⟨"/tmp/w"⟩ ∧ d₁.removeDirectory ⟨"/tmp/w"⟩ = .ok d₂ ∧
    smallCache.recorded? ["./..."] d₂ = some ⟨"/tmp/w"⟩ ∧ smallCache.Launches ["./..."] d₂ := by
  obtain ⟨hlaunches, hbuild⟩ := smallBuild (d := emptyCacheDisk) (fun _ _ _ => rfl) ["./..."] rfl (by
    simp [emptyCacheDisk, Disk.get?])
  have hspares := spares_workingGo (d := emptyCacheDisk) (fun _ _ _ => rfl) ["./..."] rfl (by
    simp [emptyCacheDisk, Disk.get?])
  generalize hd₁ : builtDisk ["./..."] emptyCacheDisk = d₁ at hbuild
  -- only the work directory is removed, and the key file stays
  let d₂ := d₁.remove ["tmp", "w"]
  have hnodes : ∀ name, d₂.get? ("c" :: name) = d₁.get? ("c" :: name) := fun name =>
    Disk.get?_remove rfl
  have hreliable : d₂.Reliable := fun _ _ _ => by
    simp only [d₂]
    rw [← hd₁]
    rfl
  have hfile : d₁.get? ["c", keyName (buildArgs ["./..."])] = some (.file "/tmp/w".toUTF8 false) := by
    rw [← hd₁]
    exact Disk.get?_set_self _ _ (by simp)
  have hdir : d₁.get? ["c"] = some .directory := by
    rw [← hd₁]
    rfl
  have hwork : d₁.resolve ⟨"/tmp/w"⟩ = .ok ["tmp", "w"] := by
    rw [← hd₁]
    rfl
  have hthere : d₁.lookup ⟨"/tmp/w"⟩ = .ok .directory := by
    rw [← hd₁]
    rfl
  have hgone : d₂.isDirectory ⟨"/tmp/w"⟩ = false := by
    simp only [d₂]
    rw [← hd₁]
    rfl
  have hkept : d₂.lookup (smallCache.keyFile ["./..."]) = d₁.lookup (smallCache.keyFile ["./..."]) :=
    Disk.lookup_congr (resolve_smallCache hdir _) (resolve_smallCache ((hnodes []).trans hdir) _)
      (hnodes _)
  obtain ⟨-, -, -, hreuses⟩ := coherent_of_history .start hspares
  obtain ⟨hnamed, hagain, -⟩ :=
    coherent_of_history (.elsewhere (.built .start hlaunches hspares hbuild) hkept)
      (spares_workingGo hreliable ["./..."] ((hnodes []).trans hdir) (by simp [hnodes, hfile]))
  refine ⟨d₁, d₂, hbuild, hreuses _ _ hlaunches hbuild _ (.start ?_), ?_, hnamed,
    hagain.2 fun w hw => ?_⟩
  · rw [Disk.isDirectory, hthere]
  · unfold Disk.removeDirectory
    rw [hthere, hwork]
    rfl
  · obtain rfl := Option.some.inj hw
    exact hgone

end Sdk.BuildCache

end TestWeave
