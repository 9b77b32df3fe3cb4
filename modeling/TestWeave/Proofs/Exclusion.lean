import TestWeave.Proofs.Decision

/-!
# One suite entry for siblings

However the steps of the commands of a build fall, a package and its external tests are never both
given a suite entry. A command that nobody gets in the way of comes to the end of its plan.

* `Planner.given`: the units that a command gives a suite entry; `given_of_alone`: if it is by itself,
  these are the units of its plan.
* `suiteEntry_exclusive`: commands side by side.
* `alone_planUnit`, `exists_alone`: a command by itself gets to the end of its plan.
* `World.Reachable.alone`: what a command does by itself it may do among others.
-/

namespace TestWeave.Build

open TestWeave.Change TestWeave.Host TestWeave.Source TestWeave.Text

variable {s : Step} {d d' d₀ : Disk} {unit : TestUnit} {rest : List TestUnit} {result : PathMap}
  {made recorded : List String} {p p' : Planner} {n : Nat}

/-! ### The units that a command gives a suite entry -/

/-- Whether a suite entry is given to a unit once the section for it is entered. -/
def Step.settles (s : Step) (unit : TestUnit) (guard : Guard) (result : PathMap) (d : Disk) : Bool :=
  !s.defers unit.name guard.units &&
    (s.writeHost d result (unit.files.map s.instrumentFile)).1.isSome

/-- Whether a suite entry is still to be given to a unit. -/
def Step.awaits (s : Step) (unit : TestUnit) (result : PathMap) (d : Disk) : Phase → Bool
  | .idle => s.gives unit result d
  | .waiting | .locked => s.settles unit (s.session.guardAt d) result d
  | .entered guard => s.settles unit guard result d
  | .hosting _ => (s.writeHost d result (unit.files.map s.instrumentFile)).1.isSome
  | .recording _ | .leaving | .finishing => false

/-- The units that a command has given a suite entry, and those that it will if nobody else does
anything. -/
def Planner.given (s : Step) (p : Planner) (d : Disk) : List String :=
  p.made.reverse ++
    match p.todo with
    | [] => []
    | unit :: rest =>
      let (result, d') := s.remainder unit p.result d p.phase
      (if s.awaits unit p.result d p.phase then [unit.name] else []) ++
        s.givenFrom rest (s.writeChanged result d' (unit.files.map s.instrumentFile))

theorem given_idle (s : Step) (todo : List TestUnit) (result : PathMap) (made : List String)
    (d : Disk) :
    Planner.given s ⟨todo, .idle, result, made⟩ d = made.reverse ++ s.givenFrom todo (result, d) := by
  cases todo with
  | nil => rfl
  | cons unit rest => rfl

theorem gives_of_touch (hsuite : unit.hasSuiteEntry = false)
    (h : d.touch s.session.lockPath = .ok d') :
    s.gives unit result d = s.settles unit (s.session.guardAt d') result d' := by
  unfold Step.gives Step.settles
  rw [Session.enter_of_touch h, hsuite]
  rfl

/-- What is given is told by what is left of the section and by whether a suite entry is given in
it. -/
theorem given_congr {result' : PathMap} {phase phase' : Phase}
    (hr : s.remainder unit result' d' phase' = s.remainder unit result d phase)
    (ha : s.awaits unit result' d' phase' = s.awaits unit result d phase) :
    Planner.given s ⟨unit :: rest, phase', result', made⟩ d' =
      Planner.given s ⟨unit :: rest, phase, result, made⟩ d := by
  simp only [Planner.given, hr, ha]

/-- **A step of a command** leaves to be given what is left of it. -/
theorem given_advance {use : LockUse} (h : Advance s use p d p' d') :
    p'.given s d' = p.given s d := by
  cases h with
  | skip hu => exact given_congr (by simp [Step.remainder, hu]) (by simp [Step.awaits, Step.gives, hu])
  | touch hu ht =>
    exact given_congr (by simp [Step.remainder, hu, Step.synthesize_of_touch ht])
      (gives_of_touch hu ht).symm
  | acquire | release => rfl
  | read hr =>
    exact given_congr (by simp [Step.remainder, Session.guardAt, hr])
      (by simp [Step.awaits, Session.guardAt, hr])
  | defer hd =>
    exact given_congr (by simp [Step.remainder, Step.settle, hd])
      (by simp [Step.awaits, Step.settles, hd])
  | decide hd =>
    exact given_congr (by simp [Step.remainder, Step.settle, hd])
      (by simp [Step.awaits, Step.settles, hd])
  | write hw => simp [Planner.given, Step.remainder, Step.awaits, Step.host, hw]
  | refuse hw =>
    exact given_congr (by simp [Step.remainder, Step.host, hw]) (by simp [Step.awaits, hw])
  | record hr => exact given_congr (by simp [Step.remainder, hr]) rfl
  | finish hf =>
    rw [given_idle]
    simp [Planner.given, Step.remainder, Step.awaits, hf]

/-- **A command by itself** gives a suite entry to the units of its plan. -/
theorem given_of_alone (h : Alone s (Planner.start s, d) (p, d')) (hp : p.todo = []) :
    p.made.reverse = s.given d := by
  have hrun : ∀ {a b}, Alone s a b → b.1.given s b.2 = a.1.given s a.2 := by
    intro a b h
    induction h with
    | refl => rfl
    | tail _ hstep ih =>
      obtain ⟨use, hstep⟩ := hstep
      exact (given_advance hstep).trans ih
  have hgiven := hrun h
  rw [Planner.start, given_idle, Planner.given, hp, List.append_nil] at hgiven
  exact hgiven

/-! ### Commands side by side -/

/-- **One suite entry for a package and its external tests.** The commands of a build share one
session and take their steps in any order; whatever the record lists at the beginning, a package and
its external tests are never both given a suite entry. A command that comes to its end by itself has
carried out its plan, and has given a suite entry to the units of the plan. -/
theorem suiteEntry_exclusive {ι : Type} [DecidableEq ι] {session : Session} {steps : ι → Step}
    (hb : ∀ i, Built (steps i)) (hs : ∀ i, (steps i).session = session) (d : Disk) :
    (∀ w, World.Reachable session steps d w → ∀ x, endsWith Known.externalSuffix x = false →
      ∀ i j, ¬(x ∈ (w.planners i).made ∧ x ++ Known.externalSuffix ∈ (w.planners j).made)) ∧
    ∀ i p d', Alone (steps i) (.start (steps i), d) (p, d') → p.todo = [] →
      (p.result, d') = (steps i).plan d ∧ p.made.reverse = (steps i).given d := by
  refine ⟨fun w h x hx i j => ?_, fun i p d' h hp => ⟨plan_of_alone h hp, given_of_alone h hp⟩⟩
  have horder : Orderly steps w := by
    induction h with
    | refl => exact orderly_start hb d
    | tail _ hm ih => exact ih.move hs hm
  exact fun ⟨hi, hj⟩ => horder.exclusive x hx i j hi hj

/-! ### Commands that come to their end -/

theorem Alone.step {a : Planner × Disk} {use : LockUse} (h : Alone s a (p, d))
    (ha : Advance s use p d p' d') : Alone s a (p', d') := h.tail ⟨use, ha⟩

/-- What is left of a unit behind its section. -/
theorem Alone.finish {a : Planner × Disk}
    (h : Alone s a (⟨unit :: rest, .finishing, result, made⟩, d)) (hw : s.Works d₀)
    (hU : s.Underway d₀ recorded (n + unit.files.length) d) (hu : unit ∈ s.units) :
    Alone s a (⟨rest, .idle, (s.writeChanged result d (unit.files.map s.instrumentFile)).1, made⟩,
      (s.writeChanged result d (unit.files.map s.instrumentFile)).2) :=
  h.step (.finish rfl (hU.writeChanged hw hu).2)

/-- **A command by itself gets through a unit**, and has done what the plan of the unit does. -/
theorem alone_planUnit (rest : List TestUnit) (hw : s.Works d₀)
    (h : s.Underway d₀ recorded (n + unit.cost) d) (hu : unit ∈ s.units) (hl : Listed unit.name) :
    ∃ made', Alone s (⟨unit :: rest, .idle, result, made⟩, d)
      (⟨rest, .idle, (s.planUnit unit result d).1, made'⟩, (s.planUnit unit result d).2) := by
  have h : s.Underway d₀ recorded (n + unit.files.length + 1 + 1 + 1) d := by
    have hcost : n + unit.cost = n + unit.files.length + 1 + 1 + 1 := by
      rw [TestUnit.cost]
      omega
    rwa [hcost] at h
  have hstart : Alone s (⟨unit :: rest, .idle, result, made⟩, d)
      (⟨unit :: rest, .idle, result, made⟩, d) := .refl
  cases hsuite : unit.hasSuiteEntry with
  | true =>
    rw [planUnit_of_entry hsuite]
    exact ⟨made, (hstart.step (.skip hsuite)).finish hw (h.spend 3) hu⟩
  | false =>
    obtain ⟨units, d₁, he, -, hread, hentered⟩ := h.enter hw
    obtain ⟨d₁', ht⟩ := Disk.exists_touch (h.grown.writable.2 hw.lock)
    obtain ⟨-, rfl⟩ := Prod.mk.inj ((Session.enter_of_touch ht).symm.trans he)
    have hinside := ((hstart.step (.touch hsuite ht)).step .acquire).step (.read hread)
    obtain ⟨g, d₂, he', hcases⟩ := synthesize_cases s unit result d
    obtain ⟨rfl, rfl⟩ := Prod.mk.inj (he.symm.trans he')
    rw [planUnit_of_no_entry hsuite]
    cases hd : s.defers unit.name units with
    | true =>
      rcases hcases with ⟨-, hs⟩ | ⟨hnot, -⟩
      · rw [hs]
        exact ⟨made, ((hinside.step (.defer hd)).step .release).finish hw (hentered.spend 2) hu⟩
      · exact (Bool.false_ne_true (hnot.symm.trans hd)).elim
    | false =>
      have hhosting := hinside.step (.decide hd)
      rcases hcases with ⟨hd' | hnone, hs⟩ | ⟨-, result', d₃, hwritten, hs⟩
      · exact (Bool.false_ne_true (hd.symm.trans hd')).elim
      · rw [hs]
        exact ⟨made, ((hhosting.step (.refuse hnone rfl)).step .release).finish hw
          (hentered.spend 2) hu⟩
      · obtain ⟨host, hmem, -, temp, hemit, rfl⟩ := writeHost_eq_some hwritten
        rw [← file_prepared host s.sdk (some Known.driverName)] at hmem
        obtain ⟨hU, hkept⟩ := hentered.emitTemp hw hu hmem hemit
        have hread₃ := hkept.trans hread
        obtain ⟨guard', d', hrecord, -⟩ := hU.exists_record hw hl hread₃
        have hrecorded : s.Underway d₀ recorded (n + unit.files.length) _ :=
          hU.recordUnit hw hu hl hsuite hread₃ hd
        rw [hrecord] at hrecorded
        rw [hs, hrecord]
        have hleft := ((hhosting.step (.write hwritten hkept)).step (.record hrecord)).step .release
        exact ⟨unit.name :: made, hleft.finish hw hrecorded hu⟩

theorem alone_planAll (hw : s.Works d₀) (hl : ∀ unit ∈ s.units, Listed unit.name)
    {units : List TestUnit} (hsub : units ⊆ s.units)
    (h : s.Underway d₀ recorded (n + (units.map TestUnit.cost).sum) d) :
    ∃ result' made' d', Alone s (⟨units, .idle, result, made⟩, d)
      (⟨[], .idle, result', made'⟩, d') := by
  induction units generalizing result made d with
  | nil => exact ⟨result, made, d, .refl⟩
  | cons unit units ih =>
    obtain ⟨hunit, hunits⟩ := List.cons_subset.1 hsub
    rw [sum_cost_cons] at h
    obtain ⟨made₁, hnow⟩ := alone_planUnit units hw h hunit (hl unit hunit)
    obtain ⟨result', made', d', hlater⟩ := ih hunits ((keeps_underway hw hl recorded).planUnit hunit h)
    exact ⟨result', made', d', hnow.trans hlater⟩

/-- **A command by itself gets to the end of its plan** where its directories work and the record can
be read. -/
theorem exists_alone (hb : Built s) (hw : s.Works d) (hr : s.session.readUnits d = .ok recorded) :
    ∃ result made d', Alone s (.start s, d) (⟨[], .idle, result, made⟩, d') := by
  have h := hw.underway hr
  rw [← Nat.zero_add (s.units.map TestUnit.cost).sum] at h
  exact alone_planAll hw hb.listed (List.Subset.refl _) h

section

variable {ι : Type} [DecidableEq ι] {session : Session} {steps : ι → Step} {w : World ι} {i : ι}

/-- Who holds the lock if nobody but the command `i` can. -/
def Planner.holder (p : Planner) (i : ι) : Option ι := if p.phase.isInside then some i else none

omit [DecidableEq ι] in
/-- **A command takes and frees the lock** as its sections begin and end. -/
theorem Advance.allows {use : LockUse} (h : Advance s use p d p' d') (i : ι) :
    use.Allows i (p.holder i) (p'.holder i) := by
  cases h with
  | acquire => exact ⟨rfl, rfl⟩
  | _ => rfl

/-- **What a command does by itself** it may do among others, while none of them is inside a
section. -/
theorem World.Reachable.alone (h : World.Reachable session steps d w) (hfree : w.holder = none)
    (hidle : (w.planners i).phase = .idle) {b : Planner × Disk}
    (ha : Alone (steps i) (w.planners i, w.disk) b) :
    World.Reachable session steps d ⟨b.2, b.1.holder i, Function.update w.planners i b.1⟩ := by
  induction ha with
  | refl =>
    have hholder : (w.planners i).holder i = w.holder := by
      rw [Planner.holder, hidle, hfree]
      rfl
    rw [Function.update_eq_self, hholder]
    exact h
  | @tail b c _ hstep ih =>
    obtain ⟨use, hstep⟩ := hstep
    have hadvance : Advance (steps i) use (Function.update w.planners i b.1 i) b.2 c.1 c.2 := by
      rwa [Function.update_self]
    have hmove : World.Move session steps ⟨b.2, b.1.holder i, Function.update w.planners i b.1⟩
        ⟨c.2, c.1.holder i, Function.update (Function.update w.planners i b.1) i c.1⟩ :=
      .plan hadvance (hstep.allows i)
    rw [Function.update_idem] at hmove
    exact ih.tail hmove

end

/-! ### Two commands -/

/-- A package and its external tests, each planned by a command that comes to its end: the second
leaves the suite entry to the first. -/
theorem exclusive_of_siblings :
    ∃ (steps : Bool → Step) (w : World Bool), (∀ i, Built (steps i)) ∧
      (∀ i, (steps i).session = .new ⟨"/tmp"⟩ "b") ∧
      World.Reachable (.new ⟨"/tmp"⟩ "b") steps bareDisk w ∧ (∀ i, (w.planners i).todo = []) ∧
      (∃ file file', (steps false).units = [⟨"p", [file]⟩] ∧
        (steps true).units = [⟨"p" ++ Known.externalSuffix, [file']⟩] ∧
        (steps false).Hosts file ∧ (steps true).Hosts file') ∧
      (w.planners false).made = ["p"] ∧ (w.planners true).made = [] := by
  obtain ⟨file, hf, hpath, hpackage, hsuite, hhost⟩ := exists_oneTest
  obtain ⟨file', hf', hpath', hpackage', -, hhost'⟩ := exists_externalTest
  let steps : Bool → Step := fun i => if i then oneFile file' else oneFile file
  have hb : ∀ i, Built (steps i) := by
    rintro (_ | _)
    · exact built_oneFile hf
    · exact built_oneFile hf'
  have hs : ∀ i, (steps i).session = .new ⟨"/tmp"⟩ "b" := by
    rintro (_ | _) <;> rfl
  obtain ⟨hexclusive, hplan⟩ := suiteEntry_exclusive hb hs bareDisk
  have hw : (oneFile file).Works bareDisk := works_oneFile (.inl hpath)
  have hx : endsWith Known.externalSuffix "p" = false := by decide
  -- the first command comes to its end and has given the package a suite entry
  obtain ⟨result, made, d₁, hfirst⟩ := exists_alone (hb false) hw readUnits_bareDisk
  obtain ⟨hresult, hmade⟩ := hplan false _ d₁ hfirst rfl
  have hgiven : (steps false).given bareDisk = ["p"] := by
    rw [← hpackage]
    exact given_oneFile hf hw readUnits_bareDisk (hpackage ▸ hx) hsuite hhost
  obtain rfl : made = ["p"] := by simpa using hmade.trans hgiven
  have hmid := World.Reachable.alone (.refl : World.Reachable (.new ⟨"/tmp"⟩ "b") steps bareDisk
    (.start steps bareDisk)) rfl rfl hfirst
  -- on what it leaves, the second command comes to its end as well
  obtain rfl : d₁ = ((oneFile file).plan bareDisk).2 := congrArg Prod.snd hresult
  have hw' : (oneFile file').Works ((oneFile file).plan bareDisk).2 := by
    refine (works_oneFile (.inr hpath')).grown (grown_plan _ _) (room_plan _ (room_bareDisk ?_))
    rw [cost_oneFile, cost_oneFile]
    decide
  obtain ⟨result', made', d₂, hsecond⟩ :=
    exists_alone (hb true) hw' (readUnits_plan (built_oneFile hf) hw readUnits_bareDisk)
  have hend := World.Reachable.alone hmid rfl rfl hsecond
  refine ⟨steps, _, hb, hs, hend, ?_, ⟨file, file', ?_, ?_, hhost.hosts hf rfl,
    hhost'.hosts hf' rfl⟩, rfl, ?_⟩
  · rintro (_ | _) <;> rfl
  · rw [← hpackage]
    rfl
  · rw [← hpackage']
    rfl
  · -- it could have given a suite entry to the external tests only, which would then have two
    refine List.eq_nil_iff_forall_not_mem.2 fun name hm => ?_
    have hmade' : made'.reverse = (oneFile file').given _ := given_of_alone hsecond rfl
    have hname : name ∈ (oneFile file').given _ := hmade' ▸ List.mem_reverse.2 hm
    obtain rfl : name = file'.package := List.mem_singleton.1 ((givenFrom_subset ..).subset hname)
    rw [hpackage'] at hm
    exact hexclusive _ hend "p" hx false true ⟨List.mem_singleton_self _, hm⟩

end TestWeave.Build
