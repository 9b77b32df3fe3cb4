import TestWeave.Proofs.Overlap

/-!
# Records that fail

A section has a unit from the first call that records it, and the call writes the record only then.
If that fails, be it before anything is written or midway, the section has the unit all the same, and
a later call for it succeeds without writing anything. The next write that gets through takes along
what was missed.

* `Ledger.note`: what a call leaves of the units that were written and of those that were missed.
* `Calls`: calls for a section, any of which may fail; `Ledger.Kept.record` and `Calls.kept` say what
  they keep, and `exists_calls` that they may fail in any order.
* `recorded_iff_not_missed`: what a failed call changes, and which calls can be believed.
-/

namespace TestWeave.Build

open TestWeave.Host TestWeave.Text

/-! ### Calls and their outcomes -/

/-- What is known of a section and its record: the units that were read or written last, those for
which calls have failed since, and what the record lists. -/
structure Ledger where
  written : List String
  missed : List String
  listed : List String

/-- The units that a section has. -/
def Ledger.units (l : Ledger) : List String := l.written ++ l.missed

/-- Before the first call. -/
def Ledger.start (units : List String) : Ledger := ⟨units, [], units⟩

/-- The units that a content lists; none if it is no text. -/
def listedIn (content : ByteArray) : List String :=
  ((Utf8.decode? content).map unitsOf).getD []

/-- A call for a unit that is known does nothing. Any other one writes all units, or misses its own;
then the record lists what it did before, or what the first bytes of the new one do. -/
def Ledger.note (l : Ledger) (unit : String) (trouble : Option Trouble) : Ledger :=
  if unit ∈ l.units then l
  else match trouble with
    | none => .start (l.units ++ [unit])
    | some ⟨_, none⟩ => { l with missed := l.missed ++ [unit] }
    | some ⟨_, some count⟩ =>
      { l with
        missed := l.missed ++ [unit]
        listed := listedIn ((recordText (l.units ++ [unit])).toUTF8.extract 0 count) }

/-- What gets in the way of recording a unit. -/
def Guard.trouble? (g : Guard) (unit : String) (d : Disk) : Option Trouble :=
  d.trouble? g.session.path (recordText (g.units ++ [unit])).toUTF8

/-- **Calls that record units** in a section. In between anything may happen that leaves what the
record lists. -/
inductive Calls (g₀ : Guard) (d₀ : Disk) : Ledger → Guard → Disk → Prop
  | start : Calls g₀ d₀ (.start g₀.units) g₀ d₀
  | record {l g d unit outcome g' d'} : Calls g₀ d₀ l g d → Listed unit →
      g.record unit d = (outcome, g', d') → Calls g₀ d₀ (l.note unit (g.trouble? unit d)) g' d'
  | elsewhere {l g d d'} : Calls g₀ d₀ l g d →
      g₀.session.listing d' = g₀.session.listing d → Calls g₀ d₀ l g d'

variable {g₀ g g' : Guard} {d₀ d d' : Disk} {l : Ledger} {session : Session} {unit : String}
  {outcome : Except SessionError Unit}

/-! ### What the record lists -/

theorem listed_of_mem_listing (h : unit ∈ session.listing d) : Listed unit := by
  unfold Session.listing at h
  cases hr : session.readUnits d with
  | error => simp [hr, Except.toOption] at h
  | ok units => exact listed_of_readUnits hr unit (by simpa [hr, Except.toOption] using h)

/-- **What was written into a record** is what it lists. -/
theorem listing_of_write {content : ByteArray} (h : d.write session.path content = .ok d') :
    session.listing d' = listedIn content := by
  unfold Session.listing Session.readUnits listedIn
  rw [Disk.readText_of_write h]
  cases Utf8.decode? content <;> rfl

theorem listedIn_recordText {units : List String} (h : ∀ u ∈ units, Listed u) :
    listedIn (recordText units).toUTF8 = units := by
  rw [listedIn, Utf8.decode?_toUTF8, Option.map_some, unitsOf_recordText h, Option.getD_some]

/-! ### What calls keep -/

/-- What calls keep: the section has what was written and what was missed, and only the former is
sure to be listed. -/
structure Ledger.Kept (l : Ledger) (session : Session) (g : Guard) (d : Disk) : Prop where
  session_eq : g.session = session
  units : g.units = l.units
  listing : session.listing d = l.listed
  disjoint : l.written.Disjoint l.missed
  listed : ∀ u ∈ g.units, Listed u

/-- **One call.** -/
theorem Ledger.Kept.record (h : l.Kept session g d) (hu : Listed unit)
    (hr : g.record unit d = (outcome, g', d')) :
    (l.note unit (g.trouble? unit d)).Kept session g' d' := by
  obtain ⟨rfl, hunits, hlisting, hdisjoint, hlisted⟩ := h
  have hconcat := listed_concat hlisted hu
  unfold Ledger.note
  rw [← hunits]
  cases Guard.outcome_iff.2 hr with
  | known hmem =>
    rw [if_pos hmem]
    exact ⟨rfl, hunits, hlisting, hdisjoint, hlisted⟩
  | saved hnot hsave =>
    obtain ⟨hnone, hw⟩ := Disk.save_eq_ok hsave
    have hlast := listing_of_write hw
    rw [listedIn_recordText hconcat] at hlast
    simp only [if_neg hnot, Guard.trouble?, hnone]
    exact ⟨rfl, by simp [Ledger.start, Ledger.units], hlast, List.disjoint_nil_right _, hconcat⟩
  | failed hnot hsave =>
    obtain ⟨trouble, hsome, hsaving⟩ := Disk.save_eq_error hsave
    have hmissed : l.written.Disjoint (l.missed ++ [unit]) := by
      rw [hunits, Ledger.units, List.mem_append, not_or] at hnot
      simpa [List.disjoint_append_right, hdisjoint] using hnot.1
    simp only [if_neg hnot, Guard.trouble?, hsome]
    cases hsaving with
    | refused => exact ⟨rfl, by simp [hunits, Ledger.units], hlisting, hmissed, hconcat⟩
    | torn hw => exact ⟨rfl, by simp [hunits, Ledger.units], listing_of_write hw, hmissed, hconcat⟩

/-- **All the calls.** -/
theorem Calls.kept (h : Calls g₀ d₀ l g d) (hg : g₀.units = g₀.session.listing d₀) :
    l.Kept g₀.session g d := by
  induction h with
  | start =>
    refine ⟨rfl, (List.append_nil _).symm, hg.symm, List.disjoint_nil_right _, fun u hu => ?_⟩
    rw [hg] at hu
    exact listed_of_mem_listing hu
  | record _ hu hr ih => exact ih.record hu hr
  | elsewhere _ hsame ih => exact { ih with listing := hsame.trans ih.listing }

/-- A disk on which every write to a file that can be opened meets the same trouble. -/
def troubled (d : Disk) (trouble : Option Trouble) : Disk :=
  { d with system := { d.system with trouble := fun _ _ _ => trouble } }

theorem resolve_troubled (d : Disk) (trouble : Option Trouble) (p : Path) :
    (troubled d trouble).resolve p = d.resolve p := by
  have hwalk : ∀ names here, (troubled d trouble).walk here names = d.walk here names := by
    intro names
    induction names with
    | nil => exact fun _ => rfl
    | cons name names ih =>
      intro here
      simp only [Disk.walk, ih]
      rfl
  unfold Disk.resolve
  rw [hwalk]
  rfl

theorem listing_troubled (session : Session) (d : Disk) (trouble : Option Trouble) :
    session.listing (troubled d trouble) = session.listing d := by
  unfold Session.listing Session.readUnits Disk.readText Disk.read Disk.lookup
  rw [resolve_troubled]
  rfl

/-- **Calls may fail in any order** and at any point, where the record can be opened. -/
theorem exists_calls (hw : d₀.Writable g₀.session.path) {calls : List (String × Option Trouble)}
    (hcalls : ∀ c ∈ calls, Listed c.1) :
    ∃ g d, Calls g₀ d₀ (calls.foldl (fun l c => l.note c.1 c.2) (.start g₀.units)) g d := by
  suffices h : ∃ g d, Calls g₀ d₀ (calls.foldl (fun l c => l.note c.1 c.2) (.start g₀.units)) g d ∧
      g.session = g₀.session ∧ d.Writable g.session.path by
    obtain ⟨g, d, h, -⟩ := h
    exact ⟨g, d, h⟩
  induction calls using List.reverseRecOn with
  | nil => exact ⟨g₀, d₀, .start, rfl, hw⟩
  | append_singleton calls c ih =>
    obtain ⟨g, d, h, hs, hd⟩ := ih fun c' hc => hcalls c' (List.mem_append_left _ hc)
    -- the disk fails just as the call does
    have hsame := listing_troubled g₀.session d c.2
    have hopen : (troubled d c.2).Writable g.session.path := by
      obtain ⟨loc, hr, hs, hdir⟩ := hd
      exact ⟨loc, (resolve_troubled d c.2 _).trans hr, hs, hdir⟩
    obtain ⟨loc, content, executable, ho⟩ := Disk.openForWriting_of_writable hopen
    have htrouble : g.trouble? c.1 (troubled d c.2) = c.2 := by
      rw [Guard.trouble?, Disk.trouble?, ho]
      rfl
    have hcall := (h.elsewhere hsame).record (hcalls c (by simp)) rfl
    have hgrown : Disk.Grown (fun _ => True) (troubled d c.2) (g.record c.1 (troubled d c.2)).2.2 :=
      g.record_disk c.1 (.refl ..) fun _ _ hw => Disk.grown_write hw fun _ _ => trivial
    have hsession := session_record g c.1 (troubled d c.2)
    rw [htrouble] at hcall
    refine ⟨_, _, ?_, hsession.trans hs, hsession.symm ▸ hgrown.writable.2 hopen⟩
    rw [List.foldl_append]
    exact hcall

/-- **What becomes of a record that fails.** A call that fails always leaves its unit in the section,
behind those that were there, and only that is new; the record is as it was, or has the first bytes
of what was to be written. If a section has begun with what was recorded, then after any calls, each
of which may have failed at any point, it has what was written last and the units for which calls
have failed since. A call that succeeds has its unit in the record unless the unit was known and is
not listed; where no write was torn, that is unless it was missed. Calls may fail in any order. -/
theorem recorded_iff_not_missed (h : g.record unit d = (outcome, g', d')) :
    (∀ e, outcome = .error e → g.contains unit = false ∧ g'.units = g.units ++ [unit] ∧
      (∀ u, g'.contains u = true ↔ g.contains u = true ∨ u = unit) ∧
      (d' = d ∨ ∃ count,
        d.write g.session.path ((recordText g'.units).toUTF8.extract 0 count) = .ok d')) ∧
    (∀ g₀ d₀ l, g₀.units = g₀.session.listing d₀ → Calls g₀ d₀ l g d →
      g.units = l.written ++ l.missed ∧ g₀.session.listing d = l.listed ∧
      (outcome = .ok () → Listed unit →
        (unit ∈ g₀.session.listing d' ↔ (unit ∈ l.written ++ l.missed → unit ∈ l.listed)) ∧
        (l.listed = l.written → (unit ∈ g₀.session.listing d' ↔ unit ∉ l.missed)))) ∧
    ∀ (g₀ : Guard) (d₀ : Disk) (calls : List (String × Option Trouble)),
      d₀.Writable g₀.session.path → (∀ c ∈ calls, Listed c.1) →
      ∃ g d, Calls g₀ d₀ (calls.foldl (fun l c => l.note c.1 c.2) (.start g₀.units)) g d := by
  refine ⟨?_, ?_, fun g₀ d₀ calls hw hcalls => exists_calls hw hcalls⟩
  · rintro e rfl
    obtain ⟨hnot, rfl, trouble, -, hsaving⟩ := Guard.record_eq_error h
    refine ⟨by simpa [Guard.contains] using hnot, rfl, fun u => by simp [Guard.contains], ?_⟩
    cases hsaving with
    | refused => exact .inl rfl
    | torn hw => exact .inr ⟨_, hw⟩
  · intro g₀ d₀ l hg hcalls
    have hkept := hcalls.kept hg
    refine ⟨hkept.units, hkept.listing, ?_⟩
    rintro rfl hu
    have hiff : unit ∈ g₀.session.listing d' ↔ (unit ∈ l.units → unit ∈ l.listed) := by
      rw [(hkept.record hu h).listing]
      unfold Ledger.note
      rw [← hkept.units]
      rcases Guard.outcome_iff.2 h with hmem | ⟨hnot, hsave⟩
      · simp [hmem]
      · simp only [if_neg hnot, Guard.trouble?, (Disk.save_eq_ok hsave).1, Ledger.start]
        simp [hnot]
    refine ⟨hiff, fun hsame => ?_⟩
    have hdisjoint := @hkept.disjoint unit
    rw [hiff, Ledger.units, List.mem_append, hsame]
    tauto

/-- A disk with a directory where a record belongs. -/
def blockedDisk : Disk := bareDisk.set ["tmp", ".test_main_packages_b"] .directory

theorem missed_of_directory : ∃ g d g₁ e,
    (Session.new ⟨"/tmp"⟩ "b").enter blockedDisk = (g, d) ∧ g.contains "p" = false ∧
    g.record "p" d = (.error e, g₁, d) ∧ g₁.contains "p" = true ∧
    g₁.record "p" d = (.ok (), g₁, d) ∧ "p" ∉ (Session.new ⟨"/tmp"⟩ "b").listing d := by
  let d := blockedDisk.set ["tmp", ".test_main_packages_b.lock"] (.file ByteArray.empty false)
  let g : Guard := ⟨.new ⟨"/tmp"⟩ "b", false, []⟩
  have htouch : blockedDisk.touch (Session.new ⟨"/tmp"⟩ "b").lockPath = .ok d := rfl
  have hread : (Session.new ⟨"/tmp"⟩ "b").readUnits d =
      .error (.read (Session.new ⟨"/tmp"⟩ "b").path .isDirectory) := rfl
  have henter : (Session.new ⟨"/tmp"⟩ "b").enter blockedDisk = (g, d) := by
    rw [Session.enter_of_touch htouch, Session.guardAt, hread]
  have hsave : ∀ content,
      d.save (Session.new ⟨"/tmp"⟩ "b").path content = (.error .isDirectory, d) := fun _ => rfl
  have hfail : g.record "p" d = (.error (.write (Session.new ⟨"/tmp"⟩ "b").path .isDirectory),
      { g with units := ["p"] }, d) :=
    Guard.outcome_iff.1 (.failed List.not_mem_nil (hsave _))
  have hrepeat : { g with units := ["p"] }.record "p" d = (.ok (), { g with units := ["p"] }, d) := rfl
  have hlisted : Listed "p" := listed_of_isName (by decide)
  obtain ⟨hnew, -, hcontains, -⟩ := (recorded_iff_not_missed hfail).1 _ rfl
  -- the call that fails is all that has happened
  have htrouble : ∀ content, d.trouble? (Session.new ⟨"/tmp"⟩ "b").path content =
      some ⟨.isDirectory, none⟩ := fun _ => rfl
  have hcourse : Calls g d ⟨[], ["p"], []⟩ { g with units := ["p"] } d := by
    have hcall := Calls.record .start hlisted hfail
    rwa [Guard.trouble?, htrouble] at hcall
  obtain ⟨-, -, hlisting⟩ :=
    (recorded_iff_not_missed hrepeat).2.1 g d _ (units_of_enter henter).2 hcourse
  exact ⟨g, d, _, _, henter, hnew, hfail, (hcontains "p").2 (.inr rfl), hrepeat, fun hin =>
    absurd (((hlisting rfl hlisted).2 rfl).1 hin) (by simp)⟩

end TestWeave.Build
