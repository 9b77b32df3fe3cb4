import TestWeave.Proofs.Separate

/-!
# Sections in turn

Commands that hold the lock use the record of a build one after the other. What each of them reads
when it enters is what the others have recorded, and the record keeps the order in which the units
were recorded first.

* `added`: the units that are new, each once.
* `InTurn`: a course of sections that do not overlap. `InTurn.listed` says what the record lists at
  any moment of it, and what the open section has.
* `InTurn.exists_enter`, `InTurn.exists_record`: nothing stops the course; `exists_inTurn`: any
  sections can be taken in turn.
* `recorded_inTurn`: all of this.
-/

namespace TestWeave.Build

open TestWeave.Host

/-! ### Lists without repetitions -/

theorem eraseDups_concat {α : Type} [DecidableEq α] (as : List α) (a : α) :
    (as ++ [a]).eraseDups = if a ∈ as then as.eraseDups else as.eraseDups ++ [a] := by
  rw [List.eraseDups_append]
  by_cases h : a ∈ as <;> simp [h, List.removeAll, List.eraseDups_cons]

theorem nodup_eraseDups {α : Type} [DecidableEq α] (as : List α) : as.eraseDups.Nodup := by
  induction as using List.reverseRecOn with
  | nil => exact List.nodup_nil
  | append_singleton as a ih =>
    rw [eraseDups_concat]
    split
    · exact ih
    · rename_i h
      rw [← List.concat_eq_append]
      exact ih.concat (by simpa using h)

/-! ### Units that are new -/

/-- Of the units that were recorded those that had not been listed, in the order in which they were
recorded first. -/
def added (units₀ units : List String) : List String := (units.filter (· ∉ units₀)).eraseDups

/-- **One more unit** is put at the end, unless it is there. -/
theorem added_append (units₀ units : List String) (unit : String) :
    units₀ ++ added units₀ (units ++ [unit]) =
      if unit ∈ units₀ ++ added units₀ units then units₀ ++ added units₀ units
      else units₀ ++ added units₀ units ++ [unit] := by
  unfold added
  rw [List.filter_append]
  by_cases hlisted : unit ∈ units₀
  · simp [hlisted]
  · rw [List.filter_cons_of_pos (by simpa using hlisted), List.filter_nil, eraseDups_concat]
    by_cases hrecorded : unit ∈ units <;> simp [hlisted, hrecorded]

/-! ### The course -/

/-- **Sections in turn.** From a disk on, sections over a session are entered with the lock, units are
recorded in them, and each ends before the next one begins; meanwhile other files are written. The
indices are the units in the order of the calls, the section that is open, and the disk. -/
inductive InTurn (session : Session) (d₀ : Disk) : List String → Option Guard → Disk → Prop
  | start : InTurn session d₀ [] none d₀
  | enter {units d g d'} : InTurn session d₀ units none d → session.lock d = (.ok g, d') →
      InTurn session d₀ units (some g) d'
  | record {units d g unit g' d'} : InTurn session d₀ units (some g) d → Listed unit →
      g.record unit d = (.ok (), g', d') → InTurn session d₀ (units ++ [unit]) (some g') d'
  | release {units d g} : InTurn session d₀ units (some g) d → InTurn session d₀ units none d
  | elsewhere {units opened d d'} : InTurn session d₀ units opened d →
      Disk.Grown (fun _ => True) d d' → session.readUnits d' = session.readUnits d →
      InTurn session d₀ units opened d'

variable {dir : Path} {buildId : String} {units₀ us : List String} {d₀ d d' : Disk} {g : Guard}
  {opened : Option Guard}

/-- **At any moment** the record lists what it did at first and then what was added, and the open
section has just that. -/
theorem InTurn.listed (h : InTurn (.new dir buildId) d₀ us opened d)
    (h₀ : (Session.new dir buildId).readUnits d₀ = .ok units₀) :
    (Session.new dir buildId).readUnits d = .ok (units₀ ++ added units₀ us) ∧
      ∀ g ∈ opened, g.session = .new dir buildId ∧ g.units = units₀ ++ added units₀ us := by
  induction h with
  | start => exact ⟨by simpa [added] using h₀, fun g hg => by cases hg⟩
  | enter _ hlock ih =>
    obtain ⟨htouch, units', hread, rfl⟩ := Session.lock_eq_ok hlock
    have hsame := (readUnits_touch htouch).trans ih.1
    refine ⟨hsame, ?_⟩
    rintro _ ⟨⟩
    exact ⟨rfl, Except.ok.inj (hread.symm.trans hsame)⟩
  | @record units d g unit g' d' _ hlisted hrecord ih =>
    obtain ⟨hread, hopen⟩ := ih
    obtain ⟨hsession, hunits⟩ := hopen g rfl
    rw [← hunits] at hread
    have hread' := readUnits_of_record hsession hread hlisted hrecord
    rw [added_append, ← hunits]
    -- a unit that is known is not written once more
    rcases Guard.record_eq_ok hrecord with ⟨hmem, rfl, rfl⟩ | ⟨hnot, rfl, -⟩
    · rw [if_pos hmem]
      refine ⟨hread, ?_⟩
      rintro _ ⟨⟩
      exact ⟨hsession, rfl⟩
    · rw [if_neg hnot]
      rw [if_neg (by simpa [Guard.contains] using hnot)] at hread'
      refine ⟨hread', ?_⟩
      rintro _ ⟨⟩
      exact ⟨hsession, rfl⟩
  | release _ ih => exact ⟨ih.1, fun g hg => by cases hg⟩
  | elsewhere _ _ hsame ih => exact ⟨hsame.trans ih.1, ih.2⟩

/-- What is done in turn only adds files, or rewrites them. -/
theorem InTurn.grown (h : InTurn (.new dir buildId) d₀ us opened d) :
    Disk.Grown (fun _ => True) d₀ d := by
  induction h with
  | start => exact .refl ..
  | @enter _ d g d' _ hlock ih =>
    have hgrown := grown_lock (fun _ => True) (.new dir buildId) d
    rw [hlock] at hgrown
    exact ih.trans hgrown
  | @record _ d g unit g' d' _ _ hrecord ih =>
    have hgrown : Disk.Grown (fun _ => True) d (g.record unit d).2.2 :=
      grown_record (fun _ _ => trivial) unit
    rw [hrecord] at hgrown
    exact ih.trans hgrown
  | release _ ih => exact ih
  | elsewhere _ hgrown _ ih => exact ih.trans hgrown

/-! ### Going on -/

/-- The next section can be entered. -/
theorem InTurn.exists_enter (h : InTurn (.new dir buildId) d₀ us none d)
    (h₀ : (Session.new dir buildId).Ready d₀) :
    ∃ g d', (Session.new dir buildId).lock d = (.ok g, d') := by
  obtain ⟨hw, units₀, hread⟩ := h₀
  obtain ⟨t, hlock, -⟩ := exists_lock (h.grown.writable.2 hw) (h.listed hread).1
  exact ⟨_, t, hlock⟩

/-- In an open section every unit can be recorded. -/
theorem InTurn.exists_record (h : InTurn (.new dir buildId) d₀ us (some g) d)
    (hd : d₀.Reliable) (h₀ : (Session.new dir buildId).Ready d₀) (unit : String) :
    ∃ g' d', g.record unit d = (.ok (), g', d') := by
  obtain ⟨hw, units₀, hread⟩ := h₀
  obtain ⟨hnow, hopen⟩ := h.listed hread
  by_cases hmem : unit ∈ g.units
  · exact ⟨g, d, by simp [Guard.record, Guard.contains, hmem]⟩
  · obtain ⟨d', hsave⟩ := exists_saveRecord (h.grown.reliable.2 hd) (h.grown.writable.2 hw) hnow
      (recordText (g.units ++ [unit])).toUTF8
    rw [← (hopen g rfl).1] at hsave
    exact ⟨_, d', Guard.record_of_save hmem hsave⟩

/-- **Any sections** can be taken in turn, each for the units of one of the lists. -/
theorem exists_inTurn (hd : d₀.Reliable) (h₀ : (Session.new dir buildId).Ready d₀)
    {turns : List (List String)} (hturns : ∀ turn ∈ turns, ∀ u ∈ turn, Listed u) :
    ∃ d, InTurn (.new dir buildId) d₀ turns.flatten none d := by
  have hrecords : ∀ turn : List String, (∀ u ∈ turn, Listed u) → ∀ {us g d},
      InTurn (.new dir buildId) d₀ us (some g) d →
      ∃ g' d', InTurn (.new dir buildId) d₀ (us ++ turn) (some g') d' := by
    intro turn
    induction turn with
    | nil => exact fun _ {us g d} h => ⟨g, d, by rwa [List.append_nil]⟩
    | cons unit turn ih =>
      intro hlisted us g d h
      obtain ⟨hunit, hrest⟩ := List.forall_mem_cons.1 hlisted
      obtain ⟨g', d', hrecord⟩ := h.exists_record hd h₀ unit
      obtain ⟨g'', d'', hall⟩ := ih hrest (h.record hunit hrecord)
      exact ⟨g'', d'', by rwa [List.append_assoc] at hall⟩
  induction turns using List.reverseRecOn with
  | nil => exact ⟨d₀, .start⟩
  | append_singleton turns turn ih =>
    obtain ⟨d, h⟩ := ih fun t ht => hturns t (List.mem_append_left _ ht)
    obtain ⟨g, d', hlock⟩ := h.exists_enter h₀
    obtain ⟨g', d'', hall⟩ := hrecords turn (hturns turn (by simp)) (h.enter hlock)
    exact ⟨d'', by simpa using hall.release⟩

/-- **Units are read back by every later section.** At any moment of a course of sections in turn the
record lists what it did at first, and behind it the units that were new, each once and in the order
in which they were recorded first. An open section has what the record lists. If the file of the lock
can be written at first and writes get through, nothing stops the course: the next section can be
entered, and in an open one every unit can be recorded. -/
theorem recorded_inTurn (h₀ : (Session.new dir buildId).readUnits d₀ = .ok units₀)
    (h : InTurn (.new dir buildId) d₀ us opened d) :
    (Session.new dir buildId).readUnits d = .ok (units₀ ++ added units₀ us) ∧
    (∀ g ∈ opened, (Session.new dir buildId).readUnits d = .ok g.units) ∧
    (d₀.Writable (Session.new dir buildId).lockPath → d₀.Reliable →
      (opened = none → ∃ g d', (Session.new dir buildId).lock d = (.ok g, d')) ∧
      ∀ g ∈ opened, ∀ unit, ∃ g' d', g.record unit d = (.ok (), g', d')) := by
  obtain ⟨hread, hopen⟩ := h.listed h₀
  refine ⟨hread, fun g hg => hread.trans (congrArg _ (hopen g hg).2.symm), fun hw hd => ⟨?_, ?_⟩⟩
  · rintro rfl
    exact h.exists_enter ⟨hw, units₀, h₀⟩
  · rintro g ⟨⟩
    exact h.exists_record hd ⟨hw, units₀, h₀⟩

/-- A disk with a record that was not written by a section. -/
def handwrittenDisk : Disk :=
  bareDisk.set ["tmp", ".test_main_packages_b"] (.file "  p \r\n\nq".toUTF8 false)

theorem recorded_inTurn_of_handwritten : ∃ d,
    InTurn (.new ⟨"/tmp"⟩ "b") handwrittenDisk ["r", "p", "s", "r"] none d ∧
    (Session.new ⟨"/tmp"⟩ "b").readUnits d = .ok ["p", "q", "r", "s"] := by
  have hplace : handwrittenDisk.resolve (Session.new ⟨"/tmp"⟩ "b").path =
      .ok ["tmp", ".test_main_packages_b"] := by decide +kernel
  have htext := Disk.readText_of_file hplace (by decide +kernel)
    (Disk.get?_set_self bareDisk _ (by decide))
  have hunits : unitsOf "  p \r\n\nq" = ["p", "q"] := by decide +kernel
  have hread : (Session.new ⟨"/tmp"⟩ "b").readUnits handwrittenDisk = .ok ["p", "q"] := by
    rw [Session.readUnits, htext, ← hunits]
  have hready : (Session.new ⟨"/tmp"⟩ "b").Ready handwrittenDisk :=
    ⟨⟨["tmp", ".test_main_packages_b.lock"], by decide +kernel, by decide +kernel,
      by decide +kernel⟩, _, hread⟩
  -- the first section records two units, and the second one two
  obtain ⟨d, hcourse⟩ : ∃ d, InTurn (.new ⟨"/tmp"⟩ "b") handwrittenDisk
      [["r", "p"], ["s", "r"]].flatten none d := by
    refine exists_inTurn (fun _ _ _ => rfl) hready ?_
    simp only [List.mem_cons, List.not_mem_nil, or_false, forall_eq_or_imp, forall_eq]
    exact ⟨⟨listed_of_isName (by decide), listed_of_isName (by decide)⟩,
      listed_of_isName (by decide), listed_of_isName (by decide)⟩
  exact ⟨d, hcourse, (recorded_inTurn hread hcourse).1.trans (by decide)⟩

end TestWeave.Build
