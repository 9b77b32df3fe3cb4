import Mathlib.Data.Set.Finite.Basic
import TestWeave.Proofs.Growth
import TestWeave.Proofs.Ownership

/-!
# Sections that overlap

The commands of a build enter sections over its record, record units in them and leave, each
whenever it likes. A command that cannot lock goes on with the record as it reads, so its section may
overlap with others. It writes back what it has read, and with it takes away what was recorded
meanwhile.

* `Sections.Move`: the steps of the commands. `Tracked.move`, `Exclusive.move` and
  `Established.move` say what they keep, `exists_lost` what one of them can destroy.
* `recorded_forever_iff`: which units stay recorded.
-/

namespace TestWeave.Build

open Relation TestWeave.Host TestWeave.Source TestWeave.Text

/-! ### Sections -/

/-- Commands that use one record. -/
structure Sections (ι : Type) where
  disk : Disk
  /-- The command that holds the lock. -/
  holder : Option ι
  /-- The sections that are open. -/
  guards : ι → Option Guard

namespace Sections

/-- Before the first command enters. -/
def start {ι : Type} (d : Disk) : Sections ι := ⟨d, none, fun _ => none⟩

variable {ι : Type} [DecidableEq ι]

/-- A command records a unit and succeeds. -/
def Records (i : ι) (unit : String) (w w' : Sections ι) : Prop :=
  ∃ g g' d, w.guards i = some g ∧ g.record unit w.disk = (.ok (), g', d) ∧
    w' = ⟨d, w.holder, Function.update w.guards i (some g')⟩

/-- The steps of the commands. Reads, writes and records succeed; locking may fail for those that
are `unlocked`. -/
inductive Move (session : Session) (unlocked : ι → Prop) : Sections ι → Sections ι → Prop
  | enter {w i g d} : w.guards i = none → w.holder = none → session.enter w.disk = (g, d) →
      g.locked = true →
      Move session unlocked w ⟨d, some i, Function.update w.guards i (some g)⟩
  | goOn {w i units} : unlocked i → w.guards i = none → session.readUnits w.disk = .ok units →
      Move session unlocked w
        ⟨w.disk, w.holder, Function.update w.guards i (some ⟨session, false, units⟩)⟩
  | record {w w' i unit} : Listed unit → Records i unit w w' → Move session unlocked w w'
  | release {w i g} : w.guards i = some g →
      Move session unlocked w
        ⟨w.disk, if g.locked then none else w.holder, Function.update w.guards i none⟩

/-- What the commands can come to. -/
def Leads (session : Session) (unlocked : ι → Prop) : Sections ι → Sections ι → Prop :=
  ReflTransGen (Move session unlocked)

end Sections

variable {ι : Type} [DecidableEq ι] {session : Session} {unlocked : ι → Prop} {w w' : Sections ι}
  {d d' : Disk} {dir : Path} {buildId unit : String} {units : List String} {g g' : Guard} {i j : ι}

/-! ### What is read and written -/

/-- A record with a unit can be written. -/
theorem Recorded.exists_write (h : Recorded session d unit) (content : ByteArray) :
    ∃ d', d.write session.path content = .ok d' := by
  obtain ⟨units, hread, hu⟩ := h
  refine Disk.exists_write ?_ content
  unfold Session.readUnits at hread
  split at hread
  · rename_i text htext
    obtain ⟨loc, _, _, hr, hg, hs, -⟩ := Disk.readText_eq_ok_iff.1 htext
    exact ⟨loc, hr, hs, by simp [hg]⟩
  · obtain rfl := Except.ok.inj hread
    exact absurd hu List.not_mem_nil
  · simp at hread

/-- The steps of the commands only add files, or rewrite them. -/
theorem Sections.Move.grown (h : Sections.Move session unlocked w w') :
    Disk.Grown (fun _ => True) w.disk w'.disk := by
  cases h with
  | enter hi hfree he hl => exact Disk.grown_touch (Session.enter_of_locked he hl).2.2
  | goOn => exact .refl ..
  | @record _ i unit hu hr =>
    obtain ⟨g, g', d', hi, hrecord, rfl⟩ := hr
    have hgrown : Disk.Grown (fun _ => True) w.disk (g.record unit w.disk).2.2 :=
      g.record_disk unit (.refl ..) fun _ _ hw => Disk.grown_write hw fun _ _ => trivial
    rwa [hrecord] at hgrown
  | release => exact .refl ..

theorem Sections.Leads.grown (h : Sections.Leads session unlocked w w') :
    Disk.Grown (fun _ => True) w.disk w'.disk := by
  induction h with
  | refl => exact .refl ..
  | tail _ hm ih => exact ih.trans hm.grown

/-- There is always a unit that has not been recorded. -/
theorem exists_listed_notMem (units : List String) : ∃ unit, Listed unit ∧ unit ∉ units := by
  have hinj : Function.Injective fun n => String.ofList (List.replicate (n + 1) 'x') := by
    intro m n h
    have hlength := congrArg String.length h
    simpa using hlength
  obtain ⟨_, ⟨n, rfl⟩, hn⟩ := (Set.infinite_range_of_injective hinj).exists_notMem_finset
    units.toFinset
  have hx : ∀ c ∈ List.replicate (n + 1) 'x', isIdentPart c = true := by
    intro c hc
    rw [List.eq_of_mem_replicate hc]
    decide
  refine ⟨_, ⟨fun he => ?_, fun c hc => ?_, fun c hc => ?_, fun hc => ?_⟩, by simpa using hn⟩
  · simpa using congrArg String.length he
  all_goals rw [String.toList_ofList] at hc
  · exact not_isBlank_of_isIdentPart (hx c (List.mem_of_mem_head? hc))
  · exact not_isBlank_of_isIdentPart (hx c (List.mem_of_mem_getLast? hc))
  · exact absurd (List.eq_of_mem_replicate hc) (by decide)

/-! ### What every step keeps -/

/-- What holds of all open sections still holds when that of one command changes. -/
theorem forall_mem_update {guards : ι → Option Guard} {after : Option Guard}
    {holds : ι → Guard → Prop} (hafter : ∀ g ∈ after, holds i g)
    (h : ∀ j ≠ i, ∀ g ∈ guards j, holds j g) :
    ∀ j, ∀ g ∈ Function.update guards i after j, holds j g := by
  intro j g hg
  by_cases hj : j = i
  · subst hj
    rw [Function.update_self] at hg
    exact hafter g hg
  · rw [Function.update_of_ne hj] at hg
    exact h j hj g hg

/-- The open sections are over the record, and have units that can be written into it. -/
structure Tracked (session : Session) (w : Sections ι) : Prop where
  session : ∀ i, ∀ g ∈ w.guards i, g.session = session
  listed : ∀ i, ∀ g ∈ w.guards i, ∀ u ∈ g.units, Listed u

omit [DecidableEq ι] in
theorem tracked_start (session : Session) (d : Disk) : Tracked session (.start d : Sections ι) :=
  ⟨fun _ _ hg => by simp [Sections.start] at hg, fun _ _ hg => by simp [Sections.start] at hg⟩

theorem Tracked.move (h : Tracked (.new dir buildId) w)
    (hm : Sections.Move (.new dir buildId) unlocked w w') : Tracked (.new dir buildId) w' := by
  have update : ∀ {i d holder} {after : Option Guard},
      (∀ g ∈ after, g.session = .new dir buildId ∧ ∀ u ∈ g.units, Listed u) →
      Tracked (.new dir buildId) ⟨d, holder, Function.update w.guards i after⟩ := fun hafter =>
    ⟨forall_mem_update (fun g hg => (hafter g hg).1) fun j _ => h.session j,
      forall_mem_update (fun g hg => (hafter g hg).2) fun j _ => h.listed j⟩
  cases hm with
  | enter hi hfree he hl =>
    obtain ⟨hs, hr, -⟩ := Session.enter_of_locked he hl
    refine update ?_
    rintro g ⟨⟩
    exact ⟨hs, listed_of_readUnits hr⟩
  | goOn hu hi hr =>
    refine update ?_
    rintro g ⟨⟩
    exact ⟨rfl, listed_of_readUnits hr⟩
  | @record _ i unit hu hr =>
    obtain ⟨_, _, _, hi, hrecord, rfl⟩ := hr
    obtain ⟨hs, -, -, hnew⟩ := Guard.record_units hrecord
    refine update ?_
    rintro g ⟨⟩
    refine ⟨hs.trans (h.session i _ hi), fun u hm => ?_⟩
    rcases hnew u hm with hm | rfl
    · exact h.listed i _ hi u hm
    · exact hu
  | release hi =>
    refine update ?_
    rintro g ⟨⟩

theorem Tracked.leads (h : Tracked (.new dir buildId) w)
    (hw : Sections.Leads (.new dir buildId) unlocked w w') : Tracked (.new dir buildId) w' := by
  induction hw with
  | refl => exact h
  | tail _ hm ih => exact ih.move hm

/-! ### Sections with the lock -/

/-- There is one open section at most, and it has the record as it is. -/
def Exclusive (session : Session) (w : Sections ι) : Prop :=
  ∀ i, ∀ g ∈ w.guards i, g.locked = true ∧ w.holder = some i ∧
    session.readUnits w.disk = .ok g.units

omit [DecidableEq ι] in
theorem Exclusive.eq (h : Exclusive session w) (hi : g ∈ w.guards i) (hj : g' ∈ w.guards j) :
    i = j :=
  Option.some.inj ((h i g hi).2.1.symm.trans (h j g' hj).2.1)

theorem Exclusive.move (h : Exclusive (.new dir buildId) w) (ht : Tracked (.new dir buildId) w)
    (hlock : ∀ i, ¬unlocked i) (hm : Sections.Move (.new dir buildId) unlocked w w') :
    Exclusive (.new dir buildId) w' := by
  cases hm with
  | enter hi hfree he hl =>
    obtain ⟨-, hr, -⟩ := Session.enter_of_locked he hl
    refine forall_mem_update ?_ fun j _ g hg => ?_
    · rintro _ ⟨⟩
      exact ⟨hl, rfl, hr⟩
    · -- the lock was free
      have hheld := (h j g hg).2.1
      rw [hfree] at hheld
      cases hheld
  | goOn hu => exact absurd hu (hlock _)
  | @record _ i unit hu hr =>
    obtain ⟨g, g', d', hi, hrecord, rfl⟩ := hr
    refine forall_mem_update ?_ fun j hj g₁ hg₁ => absurd (h.eq hg₁ hi) hj
    rintro _ ⟨⟩
    obtain ⟨hl, hheld, hread⟩ := h i g hi
    have hread' := readUnits_of_record (ht.session i g hi) hread hu hrecord
    rcases Guard.record_eq_ok hrecord with ⟨-, rfl, rfl⟩ | ⟨hnot, rfl, -⟩
    · exact ⟨hl, hheld, hread⟩
    · rw [if_neg (by simpa [Guard.contains] using hnot)] at hread'
      exact ⟨hl, hheld, hread'⟩
  | release hi =>
    refine forall_mem_update ?_ fun j hj g hg => absurd (h.eq hg hi) hj
    rintro g ⟨⟩

/-! ### Units that stay -/

/-- The unit is recorded, and every open section has it. -/
structure Established (session : Session) (unit : String) (w : Sections ι) : Prop where
  recorded : Recorded session w.disk unit
  known : ∀ i, ∀ g ∈ w.guards i, unit ∈ g.units

/-- **A unit that every open section has** stays recorded, whatever step is next. -/
theorem Established.move (h : Established (.new dir buildId) unit w)
    (ht : Tracked (.new dir buildId) w) (hm : Sections.Move (.new dir buildId) unlocked w w') :
    Established (.new dir buildId) unit w' := by
  obtain ⟨units, hread, hunit⟩ := h.recorded
  have update : ∀ {i d holder} {after : Option Guard}, Recorded (.new dir buildId) d unit →
      (∀ g ∈ after, unit ∈ g.units) →
      Established (.new dir buildId) unit ⟨d, holder, Function.update w.guards i after⟩ :=
    fun hd hafter => ⟨hd, forall_mem_update hafter fun j _ => h.known j⟩
  cases hm with
  | enter hi hfree he hl =>
    obtain ⟨-, hr, htouch⟩ := Session.enter_of_locked he hl
    have hkept := h.recorded.congr (readUnits_touch htouch)
    refine update hkept ?_
    rintro g ⟨⟩
    exact hkept.mem hr
  | goOn hu hi hr =>
    refine update h.recorded ?_
    rintro g ⟨⟩
    exact h.recorded.mem hr
  | @record _ i new hnew hr =>
    obtain ⟨g, g', d', hi, hrecord, rfl⟩ := hr
    obtain ⟨-, hsub, -⟩ := Guard.record_units hrecord
    have hknown := h.known i g hi
    refine update ?_ ?_
    · rcases Guard.record_eq_ok hrecord with ⟨-, -, rfl⟩ | ⟨-, -, hw⟩
      · exact h.recorded
      · rw [ht.session i g hi] at hw
        exact ⟨_, readUnits_of_write hw (listed_concat (ht.listed i g hi) hnew),
          List.mem_append_left _ hknown⟩
    · rintro g ⟨⟩
      exact hsub hknown
  | release hi =>
    refine update h.recorded ?_
    rintro g ⟨⟩

theorem Established.leads (h : Established (.new dir buildId) unit w)
    (ht : Tracked (.new dir buildId) w) (hw : Sections.Leads (.new dir buildId) unlocked w w') :
    Established (.new dir buildId) unit w' := by
  induction hw with
  | refl => exact h
  | tail hw hm ih => exact ih.move (ht.leads hw) hm

/-- **A unit that one open section does not have** is lost as soon as something else is recorded
there. -/
theorem exists_lost (hreliable : w.disk.Reliable) (ht : Tracked session w)
    (hd : Recorded session w.disk unit) (hj : g ∈ w.guards j) (hnot : unit ∉ g.units) :
    ∃ w', Sections.Move session unlocked w w' ∧ ¬Recorded session w'.disk unit := by
  obtain ⟨new, hnew, hfresh⟩ := exists_listed_notMem (unit :: g.units)
  obtain ⟨hne, hfresh⟩ := not_or.1 (fun h => hfresh (List.mem_cons.2 h))
  obtain ⟨d', hw⟩ := hd.exists_write (recordText (g.units ++ [new])).toUTF8
  have hs := ht.session j g hj
  have hrecord := Guard.record_of_save hfresh (hs ▸ hreliable.save_eq hw)
  refine ⟨_, .record hnew ⟨g, _, d', hj, hrecord, rfl⟩, ?_⟩
  rintro ⟨units, hread, hunit⟩
  rw [readUnits_of_write hw (listed_concat (ht.listed j g hj) hnew)] at hread
  obtain rfl := Except.ok.inj hread
  rcases List.mem_append.1 hunit with hm | hm
  · exact hnot hm
  · exact hne (List.mem_singleton.1 hm).symm

/-- **Which units stay recorded.** A command has recorded a unit and was told so, in the middle of
any run in which locking may fail for some and writes get through. The unit stays recorded, whatever
the commands do next, just if it is in the record and every section that is open by then has it; and
so it is if locking fails for nobody. -/
theorem recorded_forever_iff {w₀ : Sections ι} (hreliable : d.Reliable)
    (h : Sections.Leads (.new dir buildId) unlocked (.start d) w₀) (hu : Listed unit)
    (hr : Sections.Records i unit w₀ w) :
    ((∀ w', Sections.Leads (.new dir buildId) unlocked w w' →
        Recorded (.new dir buildId) w'.disk unit) ↔
      Recorded (.new dir buildId) w.disk unit ∧ ∀ j, ∀ g ∈ w.guards j, unit ∈ g.units) ∧
    ((∀ j, ¬unlocked j) → ∀ w', Sections.Leads (.new dir buildId) unlocked w w' →
      Recorded (.new dir buildId) w'.disk unit) := by
  have hmove : Sections.Move (.new dir buildId) unlocked w₀ w := .record hu hr
  have hleads := h.tail hmove
  have ht := (tracked_start _ d).leads hleads
  refine ⟨⟨fun hforever => ?_, fun ⟨hd, hknown⟩ w' hw => ?_⟩, fun hlock w' hw => ?_⟩
  · have hd := hforever w .refl
    refine ⟨hd, fun j g hg => ?_⟩
    by_contra hnot
    obtain ⟨w', hm, hlost⟩ : ∃ w', Sections.Move (.new dir buildId) unlocked w w' ∧
        ¬Recorded (.new dir buildId) w'.disk unit :=
      exists_lost ((Sections.Leads.grown hleads).reliable.2 hreliable) ht hd hg hnot
    exact hlost (hforever w' (.single hm))
  · exact (Established.leads ⟨hd, hknown⟩ ht hw).recorded
  · have hexclusive : Exclusive (.new dir buildId) w := by
      have : ∀ {v}, Sections.Leads (.new dir buildId) unlocked (.start d) v →
          Exclusive (.new dir buildId) v := by
        intro v hv
        induction hv with
        | refl => exact fun _ _ hg => by simp [Sections.start] at hg
        | tail hv hm ih => exact ih.move ((tracked_start _ d).leads hv) hlock hm
      exact this hleads
    -- the command that has recorded the unit is the only one inside
    obtain ⟨g, g', d', hi, hrecord, rfl⟩ := hr
    have hself : g' ∈ Function.update w₀.guards i (some g') i := by simp
    obtain ⟨-, hheld, hread⟩ := hexclusive i g' hself
    have hunit := (Guard.record_units hrecord).2.2.1
    refine (Established.leads ⟨⟨_, hread, hunit⟩, fun j g'' hg => ?_⟩ ht hw).recorded
    have hother := (hexclusive j g'' hg).2.2
    rw [hread] at hother
    rwa [← Except.ok.inj hother]

theorem lost_of_two_unlocked :
    ∃ w₀ w : Sections Bool,
      Sections.Leads (.new ⟨"/tmp"⟩ "b") (fun _ => True) (.start bareDisk) w₀ ∧
      Listed "p" ∧ Sections.Records false "p" w₀ w ∧
      (Session.new ⟨"/tmp"⟩ "b").readUnits w.disk = .ok ["p"] ∧
      ∃ w', Sections.Leads (.new ⟨"/tmp"⟩ "b") (fun _ => True) w w' ∧
        ¬Recorded (.new ⟨"/tmp"⟩ "b") w'.disk "p" := by
  -- both have read the record before one of them writes it
  let guard : Guard := ⟨.new ⟨"/tmp"⟩ "b", false, []⟩
  have hread : (Session.new ⟨"/tmp"⟩ "b").readUnits bareDisk = .ok [] := rfl
  have hfirst : Sections.Move (.new ⟨"/tmp"⟩ "b") (fun _ => True) (.start bareDisk) _ :=
    .goOn (i := false) trivial rfl hread
  have hsecond : Sections.Move (.new ⟨"/tmp"⟩ "b") (fun _ => True) _ _ :=
    .goOn (w := ⟨bareDisk, none, Function.update (fun _ => none) false (some guard)⟩) (i := true)
      trivial rfl hread
  have hleads := (ReflTransGen.single hfirst).tail hsecond
  have hlisted : Listed "p" := listed_of_isName (by decide)
  obtain ⟨d, hw⟩ : ∃ d, bareDisk.write (Session.new ⟨"/tmp"⟩ "b").path
      (recordText ["p"]).toUTF8 = .ok d :=
    Disk.exists_write ⟨["tmp", ".test_main_packages_b"], rfl, by decide +kernel, by decide +kernel⟩ _
  have hrecord : guard.record "p" bareDisk = (.ok (), { guard with units := ["p"] }, d) :=
    Guard.record_of_save List.not_mem_nil (reliable_bareDisk.save_eq hw)
  have hrecords : Sections.Records false "p"
      ⟨bareDisk, none, Function.update (Function.update (fun _ => none) false (some guard)) true
        (some guard)⟩ _ := ⟨guard, _, _, rfl, hrecord, rfl⟩
  refine ⟨_, _, hleads, hlisted, hrecords, readUnits_of_write hw (by simpa using hlisted), ?_⟩
  by_contra hnone
  have hforever := (recorded_forever_iff reliable_bareDisk hleads hlisted hrecords).1.1 fun w' hw => by
    by_contra hlost
    exact hnone ⟨w', hw, hlost⟩
  exact absurd (hforever.2 true guard rfl) List.not_mem_nil

end TestWeave.Build
