import TestWeave.Proofs.Record

/-!
# Sections over a record

A section begins with opening the file of the lock, and has what the record lists then. Recording a
unit in it either finds the unit known, writes the record, or fails to, and nothing else.

* `Session.guardAt`, `Session.listing`: what a section begins with.
* `Session.enter_of_touch`, `Session.enter_of_touch_error`, `units_of_enter`: how sections begin.
* `Guard.Outcome`: what recording a unit comes to; `Guard.outcome_iff`: it comes to nothing else.
* `readUnits_record`: what is read after a unit was recorded.
-/

namespace TestWeave.Build

open TestWeave.Host TestWeave.Text

variable {session : Session} {d d' : Disk} {g g' : Guard} {unit : String} {units : List String}

/-! ### What is read -/

theorem listed_of_readUnits (h : session.readUnits d = .ok units) : ∀ u ∈ units, Listed u := by
  unfold Session.readUnits at h
  split at h
  · obtain rfl := Except.ok.inj h
    exact fun u => listed_of_mem_unitsOf
  · obtain rfl := Except.ok.inj h
    simp
  · simp at h

/-- A record that is written lists just what its section has. -/
theorem readUnits_of_write (hw : d.write session.path (recordText units).toUTF8 = .ok d')
    (hu : ∀ u ∈ units, Listed u) : session.readUnits d' = .ok units := by
  rw [Session.readUnits, Disk.readText_write hw]
  simp only [unitsOf_recordText hu]

/-! ### How sections begin -/

/-- The guard of a section that begins now. -/
def Session.guardAt (session : Session) (d : Disk) : Guard :=
  match session.readUnits d with
  | .ok units => ⟨session, true, units⟩
  | .error _ => ⟨session, false, []⟩

/-- What a section begins with: the units that are listed, or none if the record cannot be read. -/
def Session.listing (session : Session) (d : Disk) : List String :=
  (session.readUnits d).toOption.getD []

/-- Opening the file of the lock is all that happens to the disk. -/
theorem Session.lock_snd (session : Session) (d : Disk) :
    (session.lock d).2 = (d.touch session.lockPath).toOption.getD d := by
  unfold Session.lock
  cases d.touch session.lockPath <;> rfl

/-- What holds of a disk and of what it becomes with the file of the lock holds when a section has
begun. -/
theorem Session.lock_disk {R : Disk → Prop} (same : R d)
    (touched : ∀ t, d.touch session.lockPath = .ok t → R t) : R (session.lock d).2 := by
  rw [lock_snd]
  cases ht : d.touch session.lockPath with
  | error => exact same
  | ok t => exact touched t ht

theorem Session.enter_snd (session : Session) (d : Disk) :
    (session.enter d).2 = (session.lock d).2 := by
  unfold Session.enter
  rcases session.lock d with ⟨outcome, t⟩
  cases outcome <;> rfl

/-- A section that is begun with the lock has what can be read then. -/
theorem Session.lock_eq_ok (h : session.lock d = (.ok g, d')) :
    d.touch session.lockPath = .ok d' ∧
      ∃ units, session.readUnits d' = .ok units ∧ g = ⟨session, true, units⟩ := by
  unfold Session.lock at h
  split at h
  · cases h
  · rename_i t ht
    obtain ⟨hread, rfl⟩ := Prod.mk.inj h
    obtain ⟨units, hunits, rfl⟩ := map_eq_ok hread
    exact ⟨ht, units, hunits, rfl⟩

theorem Session.enter_of_touch (h : d.touch session.lockPath = .ok d') :
    session.enter d = (session.guardAt d', d') := by
  unfold Session.enter Session.lock Session.guardAt
  rw [h]
  cases hr : session.readUnits d' <;> simp [Except.map, hr]

/-- Without the lock a command goes on with the record as it reads. -/
theorem Session.enter_of_touch_error {e : IoError} (h : d.touch session.lockPath = .error e) :
    session.enter d = (⟨session, false, session.listing d⟩, d) := by
  unfold Session.enter Session.lock Session.listing
  rw [h]
  cases hr : session.readUnits d <;> simp only [hr] <;> rfl

/-- **A section that is entered** begins with what is listed, with the lock or without. -/
theorem units_of_enter (h : session.enter d = (g, d')) :
    g.session = session ∧ g.units = session.listing d' := by
  cases ht : d.touch session.lockPath with
  | error e =>
    obtain ⟨rfl, rfl⟩ := Prod.mk.inj ((Session.enter_of_touch_error ht).symm.trans h)
    exact ⟨rfl, rfl⟩
  | ok t =>
    obtain ⟨rfl, rfl⟩ := Prod.mk.inj ((Session.enter_of_touch ht).symm.trans h)
    unfold Session.guardAt Session.listing
    cases session.readUnits t <;> exact ⟨rfl, rfl⟩

/-- **A section that is entered with the lock** has the record as it is. -/
theorem Session.enter_of_locked (h : session.enter d = (g, d')) (hl : g.locked = true) :
    g.session = session ∧ session.readUnits d' = .ok g.units ∧
      d.touch session.lockPath = .ok d' := by
  cases ht : d.touch session.lockPath with
  | error e =>
    obtain ⟨rfl, -⟩ := Prod.mk.inj ((enter_of_touch_error ht).symm.trans h)
    cases hl
  | ok t =>
    obtain ⟨rfl, rfl⟩ := Prod.mk.inj ((enter_of_touch ht).symm.trans h)
    unfold guardAt at hl ⊢
    cases hr : session.readUnits t with
    | error =>
      rw [hr] at hl
      cases hl
    | ok units => exact ⟨rfl, rfl, rfl⟩

/-! ### What recording comes to -/

/-- **What recording a unit comes to**: it is known and nothing is done, or the section has it and the
record is written, or the section has it and the record could not be written. -/
inductive Guard.Outcome (g : Guard) (unit : String) (d : Disk) :
    Except SessionError Unit → Guard → Disk → Prop
  | known : unit ∈ g.units → g.Outcome unit d (.ok ()) g d
  | saved {t} : unit ∉ g.units →
      d.save g.session.path (recordText (g.units ++ [unit])).toUTF8 = (.ok (), t) →
      g.Outcome unit d (.ok ()) { g with units := g.units ++ [unit] } t
  | failed {e t} : unit ∉ g.units →
      d.save g.session.path (recordText (g.units ++ [unit])).toUTF8 = (.error e, t) →
      g.Outcome unit d (.error (.write g.session.path e)) { g with units := g.units ++ [unit] } t

theorem Guard.outcome_iff {result : Except SessionError Unit} :
    g.Outcome unit d result g' d' ↔ g.record unit d = (result, g', d') := by
  unfold record contains
  constructor
  · intro h
    cases h with
    | known hu => rw [if_pos (by simpa using hu)]
    | saved hu hw =>
      rw [if_neg (by simpa using hu)]
      simp only [hw]
    | failed hu hw =>
      rw [if_neg (by simpa using hu)]
      simp only [hw]
  · intro h
    -- `record` asks first whether the unit is known, and then whether it could be written
    by_cases hu : unit ∈ g.units
    · rw [if_pos (by simpa using hu)] at h
      cases h
      exact .known hu
    · rw [if_neg (by simpa using hu)] at h
      dsimp only at h
      split at h
      · rename_i hw
        cases h
        exact .saved hu hw
      · rename_i hw
        cases h
        exact .failed hu hw

/-- What holds of a disk, and of it with anything written in place of the record, holds when a unit
was recorded. -/
theorem Guard.record_disk {R : Disk → Prop} (g : Guard) (unit : String) (same : R d)
    (written : ∀ bytes t, d.write g.session.path bytes = .ok t → R t) :
    R (g.record unit d).2.2 := by
  have hsaved : R (d.save g.session.path (recordText (g.units ++ [unit])).toUTF8).2 :=
    Disk.save_disk same written
  rcases hrecord : g.record unit d with ⟨result, g', d'⟩
  cases outcome_iff.2 hrecord with
  | known => exact same
  | saved _ hw | failed _ hw => rwa [hw] at hsaved

/-- The ways to succeed in recording. -/
theorem Guard.record_eq_ok (h : g.record unit d = (.ok (), g', d')) :
    (unit ∈ g.units ∧ g' = g ∧ d' = d) ∨
      (unit ∉ g.units ∧ g' = { g with units := g.units ++ [unit] } ∧
        d.write g.session.path (recordText (g.units ++ [unit])).toUTF8 = .ok d') := by
  cases outcome_iff.2 h with
  | known hu => exact .inl ⟨hu, rfl, rfl⟩
  | saved hu hw => exact .inr ⟨hu, rfl, (Disk.save_eq_ok hw).2⟩

/-- **To fail in recording** changes the section all the same, and leaves the record as it was or with
the first bytes of what was to be written. -/
theorem Guard.record_eq_error {e : SessionError} (h : g.record unit d = (.error e, g', d')) :
    unit ∉ g.units ∧ g' = { g with units := g.units ++ [unit] } ∧
      ∃ trouble, d.trouble? g.session.path (recordText (g.units ++ [unit])).toUTF8 = some trouble ∧
        d.Saving g.session.path (recordText (g.units ++ [unit])).toUTF8 (some trouble) d' := by
  cases outcome_iff.2 h with
  | failed hu hw => exact ⟨hu, rfl, Disk.save_eq_error hw⟩

theorem Guard.record_of_save (hu : unit ∉ g.units)
    (hw : d.save g.session.path (recordText (g.units ++ [unit])).toUTF8 = (.ok (), d')) :
    g.record unit d = (.ok (), { g with units := g.units ++ [unit] }, d') :=
  outcome_iff.1 (.saved hu hw)

theorem Guard.record_units (h : g.record unit d = (.ok (), g', d')) :
    g'.session = g.session ∧ g.units ⊆ g'.units ∧ unit ∈ g'.units ∧
      ∀ u ∈ g'.units, u ∈ g.units ∨ u = unit := by
  rcases record_eq_ok h with ⟨hu, rfl, -⟩ | ⟨-, rfl, -⟩
  · exact ⟨rfl, List.Subset.refl _, hu, fun u hm => .inl hm⟩
  · exact ⟨rfl, List.subset_append_left .., by simp, fun u hm => by simpa using hm⟩

theorem session_record (g : Guard) (unit : String) (d : Disk) :
    (g.record unit d).2.1.session = g.session := by
  rcases h : g.record unit d with ⟨result, g', d'⟩
  cases Guard.outcome_iff.2 h <;> rfl

/-- **What is recorded** is read later, behind what was recorded before. -/
theorem readUnits_of_record (hg : g.session = session) (hr : session.readUnits d = .ok g.units)
    (hu : Listed unit) (h : g.record unit d = (.ok (), g', d')) :
    session.readUnits d' =
      .ok (if g.contains unit = true then g.units else g.units ++ [unit]) := by
  subst hg
  rcases Guard.record_eq_ok h with ⟨hknown, rfl, rfl⟩ | ⟨hnew, rfl, hw⟩
  · rw [if_pos (by simpa [Guard.contains] using hknown), hr]
  · rw [if_neg (by simpa [Guard.contains] using hnew),
      readUnits_of_write hw (listed_concat (listed_of_readUnits hr) hu)]

theorem readUnits_record (hg : g.session = session) (hr : session.readUnits d = .ok g.units)
    (hu : Listed unit) (h : g.record unit d = (.ok (), g', d')) :
    ∃ units, session.readUnits d' = .ok units ∧ g.units ⊆ units ∧ unit ∈ units := by
  refine ⟨_, readUnits_of_record hg hr hu h, ?_⟩
  by_cases hc : g.contains unit = true
  · rw [if_pos hc]
    exact ⟨List.Subset.refl _, by simpa [Guard.contains] using hc⟩
  · rw [if_neg hc]
    exact ⟨List.subset_append_left .., by simp⟩

end TestWeave.Build
