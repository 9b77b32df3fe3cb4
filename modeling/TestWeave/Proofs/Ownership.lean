import TestWeave.Proofs.Emission
import TestWeave.Proofs.Growth
import TestWeave.Proofs.Guards

/-!
# Who owns a suite entry

The commands of one build plan their units side by side, and each of them takes its steps whenever
it likes. Between the steps of one command others may take theirs, and files may change.

* `Advance`: the steps of one command; `plan_of_alone`: a command by itself carries out its plan.
* `Settled`: what holds of every command at every time; `Settled.advance`, `Settled.other`: the
  steps of the command itself and those of others keep it.
* `Orderly.move`: commands that share a record keep out of each other's way.
-/

namespace TestWeave.Build

open TestWeave.Change TestWeave.Host TestWeave.Source TestWeave.Text

/-! ### Commands -/

/-- Where a command stands in its plan for the first of the units that are left. -/
inductive Phase
  | idle
  /-- The file of the lock is open. -/
  | waiting
  | locked
  | entered (guard : Guard)
  /-- The suite entry is not left to the sibling. -/
  | hosting (guard : Guard)
  /-- The file with the suite entry is written. -/
  | recording (guard : Guard)
  | leaving
  /-- The lock is free again. -/
  | finishing

/-- A command in the middle of its plan. -/
structure Planner where
  todo : List TestUnit
  phase : Phase
  result : PathMap
  /-- The units that it has given a suite entry. -/
  made : List String

/-- A command at the beginning of its plan. -/
def Planner.start (s : Step) : Planner := ⟨s.units, .idle, [], []⟩

/-- What a step does with the lock. -/
inductive LockUse
  | keeps
  | takes
  | frees

/-- The steps of a command. Locks, reads and records succeed, and nothing but a record changes what
is read from the record. -/
inductive Advance (s : Step) : LockUse → Planner → Disk → Planner → Disk → Prop
  | skip {unit rest result made d} : unit.hasSuiteEntry = true →
      Advance s .keeps ⟨unit :: rest, .idle, result, made⟩ d
        ⟨unit :: rest, .finishing, result, made⟩ d
  | touch {unit rest result made d d'} : unit.hasSuiteEntry = false →
      d.touch s.session.lockPath = .ok d' →
      Advance s .keeps ⟨unit :: rest, .idle, result, made⟩ d
        ⟨unit :: rest, .waiting, result, made⟩ d'
  | acquire {unit rest result made d} :
      Advance s .takes ⟨unit :: rest, .waiting, result, made⟩ d
        ⟨unit :: rest, .locked, result, made⟩ d
  | read {unit rest result made d units} : s.session.readUnits d = .ok units →
      Advance s .keeps ⟨unit :: rest, .locked, result, made⟩ d
        ⟨unit :: rest, .entered ⟨s.session, true, units⟩, result, made⟩ d
  | defer {unit rest guard result made d} : s.defers unit.name guard.units = true →
      Advance s .keeps ⟨unit :: rest, .entered guard, result, made⟩ d
        ⟨unit :: rest, .leaving, result, made⟩ d
  | decide {unit rest guard result made d} : s.defers unit.name guard.units = false →
      Advance s .keeps ⟨unit :: rest, .entered guard, result, made⟩ d
        ⟨unit :: rest, .hosting guard, result, made⟩ d
  | write {unit rest guard result result' made d d'} :
      s.writeHost d result (unit.files.map s.instrumentFile) = (some result', d') →
      s.session.readUnits d' = s.session.readUnits d →
      Advance s .keeps ⟨unit :: rest, .hosting guard, result, made⟩ d
        ⟨unit :: rest, .recording guard, result', unit.name :: made⟩ d'
  | refuse {unit rest guard result made d d'} :
      s.writeHost d result (unit.files.map s.instrumentFile) = (none, d') →
      s.session.readUnits d' = s.session.readUnits d →
      Advance s .keeps ⟨unit :: rest, .hosting guard, result, made⟩ d
        ⟨unit :: rest, .leaving, result, made⟩ d'
  | record {unit rest guard guard' result made d d'} :
      guard.record unit.name d = (.ok (), guard', d') →
      Advance s .keeps ⟨unit :: rest, .recording guard, result, made⟩ d
        ⟨unit :: rest, .leaving, result, made⟩ d'
  | release {unit rest result made d} :
      Advance s .frees ⟨unit :: rest, .leaving, result, made⟩ d
        ⟨unit :: rest, .finishing, result, made⟩ d
  | finish {unit rest result result' made d d'} :
      s.writeChanged result d (unit.files.map s.instrumentFile) = (result', d') →
      s.session.readUnits d' = s.session.readUnits d →
      Advance s .keeps ⟨unit :: rest, .finishing, result, made⟩ d
        ⟨rest, .idle, result', made⟩ d'

/-! ### A command by itself -/

/-- The section for a unit that has to have a suite entry. -/
def Step.host (s : Step) (unit : TestUnit) (guard : Guard) (result : PathMap) (d : Disk) :
    PathMap × Disk :=
  match s.writeHost d result (unit.files.map s.instrumentFile) with
  | (none, d) => (result, d)
  | (some result, d) => (result, (guard.record unit.name d).2.2)

/-- The section for a unit once it is entered. -/
def Step.settle (s : Step) (unit : TestUnit) (guard : Guard) (result : PathMap) (d : Disk) :
    PathMap × Disk :=
  if s.defers unit.name guard.units then (result, d) else s.host unit guard result d

/-- What is left of the section for a unit. -/
def Step.remainder (s : Step) (unit : TestUnit) (result : PathMap) (d : Disk) :
    Phase → PathMap × Disk
  | .idle =>
    if unit.hasSuiteEntry then (result, d)
    else s.synthesize unit (unit.files.map s.instrumentFile) result d
  | .waiting | .locked => s.settle unit (s.session.guardAt d) result d
  | .entered guard => s.settle unit guard result d
  | .hosting guard => s.host unit guard result d
  | .recording guard => (result, (guard.record unit.name d).2.2)
  | .leaving | .finishing => (result, d)

/-- The plan for a list of units. -/
def Step.planAll (s : Step) (units : List TestUnit) (start : PathMap × Disk) : PathMap × Disk :=
  units.foldl (fun (result, d) unit => s.planUnit unit result d) start

/-- What comes of the plan if nobody else does anything. -/
def Planner.outcome (s : Step) (p : Planner) (d : Disk) : PathMap × Disk :=
  match p.todo with
  | [] => (p.result, d)
  | unit :: rest =>
    let (result, d) := s.remainder unit p.result d p.phase
    s.planAll rest (s.writeChanged result d (unit.files.map s.instrumentFile))

theorem Step.synthesize_of_touch {s : Step} {unit : TestUnit} {result : PathMap} {d d' : Disk}
    (h : d.touch s.session.lockPath = .ok d') :
    s.synthesize unit (unit.files.map s.instrumentFile) result d =
      s.settle unit (s.session.guardAt d') result d' := by
  unfold Step.synthesize Step.settle Step.host
  cases hd : s.defers unit.name (s.session.guardAt d').units with
  | true => simp only [Session.enter_of_touch h, hd, if_true]
  | false =>
    rcases hw : s.writeHost d' result (unit.files.map s.instrumentFile) with ⟨_ | result', d₂⟩
    · simp only [Session.enter_of_touch h, hd, hw, Bool.false_eq_true, if_false]
    · -- the pair that the record gives is taken apart in two ways
      rcases hrecord : (s.session.guardAt d').record unit.name d₂ with ⟨outcome, guard, d₃⟩
      simp only [Session.enter_of_touch h, hd, hw, hrecord, Bool.false_eq_true, if_false]

theorem outcome_start (s : Step) (d : Disk) : (Planner.start s).outcome s d = s.plan d := by
  unfold Planner.outcome Planner.start Step.plan
  cases h : s.units with
  | nil => rfl
  | cons unit rest => rfl

theorem outcome_idle (s : Step) (todo : List TestUnit) (result : PathMap) (made : List String)
    (d : Disk) : Planner.outcome s ⟨todo, .idle, result, made⟩ d = s.planAll todo (result, d) := by
  cases todo with
  | nil => rfl
  | cons unit rest => rfl

/-- **A step of a command** leaves to be done what is left of its plan. -/
theorem outcome_advance {s : Step} {use : LockUse} {p p' : Planner} {d d' : Disk}
    (h : Advance s use p d p' d') : p'.outcome s d' = p.outcome s d := by
  cases h with
  | skip hu => simp [Planner.outcome, Step.remainder, hu]
  | touch hu ht => simp [Planner.outcome, Step.remainder, hu, Step.synthesize_of_touch ht]
  | acquire => rfl
  | read hr => simp [Planner.outcome, Step.remainder, Session.guardAt, hr]
  | defer hd => simp [Planner.outcome, Step.remainder, Step.settle, hd]
  | decide hd => simp [Planner.outcome, Step.remainder, Step.settle, hd]
  | write hw => simp [Planner.outcome, Step.remainder, Step.host, hw]
  | refuse hw => simp [Planner.outcome, Step.remainder, Step.host, hw]
  | record hr => simp [Planner.outcome, Step.remainder, hr]
  | release => rfl
  | finish hf =>
    rw [outcome_idle]
    simp [Planner.outcome, Step.remainder, hf]

/-- A run of one command by itself. -/
def Alone (s : Step) : Planner × Disk → Planner × Disk → Prop :=
  Relation.ReflTransGen fun a b => ∃ use, Advance s use a.1 a.2 b.1 b.2

/-- **A command by itself** carries out its plan. -/
theorem plan_of_alone {s : Step} {p : Planner} {d d' : Disk}
    (h : Alone s (Planner.start s, d) (p, d')) (hp : p.todo = []) :
    (p.result, d') = s.plan d := by
  have hrun : ∀ {a b}, Alone s a b → b.1.outcome s b.2 = a.1.outcome s a.2 := by
    intro a b h
    induction h with
    | refl => rfl
    | tail _ hstep ih =>
      obtain ⟨use, hstep⟩ := hstep
      exact (outcome_advance hstep).trans ih
  have houtcome := hrun h
  rw [outcome_start, Planner.outcome, hp] at houtcome
  exact houtcome

/-! ### Siblings -/

theorem dropTail_append (tail s : String) : dropTail tail (s ++ tail) = some s := by
  have hrest : afterLead tail.toList.reverse (s ++ tail).toList.reverse = some s.toList.reverse :=
    afterLead_eq_some_iff.2 (by rw [String.toList_append, List.reverse_append])
  rw [dropTail, hrest]
  simp

theorem dropTail_of_not_endsWith {tail s : String} (h : endsWith tail s = false) :
    dropTail tail s = none := by
  rw [dropTail, Option.map_eq_none_iff, Option.eq_none_iff_forall_not_mem]
  intro rest hrest
  have hlist := afterLead_eq_some_iff.1 hrest
  refine Bool.false_ne_true (h.symm.trans ?_)
  rw [endsWith, List.isSuffixOf_iff_suffix]
  refine ⟨rest.reverse, ?_⟩
  rw [← List.reverse_reverse tail.toList, ← List.reverse_append, ← hlist, List.reverse_reverse]

/-- External tests leave the suite entry to the package under test. -/
theorem defers_external (s : Step) {unit : String} {recorded : List String} (h : unit ∈ recorded) :
    s.defers (unit ++ Known.externalSuffix) recorded = true := by
  rw [Step.defers, dropTail_append]
  simpa using h

/-- A package leaves the suite entry to its external tests. -/
theorem defers_internal (s : Step) {unit : String} {recorded : List String}
    (hu : endsWith Known.externalSuffix unit = false)
    (h : unit ++ Known.externalSuffix ∈ recorded) : s.defers unit recorded = true := by
  rw [Step.defers, dropTail_of_not_endsWith hu]
  simp [h]

/-- A step whose files have been parsed. -/
inductive Built : Step → Prop
  | new (buildId : String) (sdk : Instrumentation) (tempDir : Path) : Built (.new buildId sdk tempDir)
  | withSessionDir {s : Step} (dir : Path) : Built s → Built (s.withSessionDir dir)
  | addFile {s : Step} {path : Path} {source : String} {file : SourceFile} :
      SourceFile.parse path source = .ok file → Built s → Built (s.addFile file)

theorem isName_package {path : Path} {source : String} {file : SourceFile}
    (h : SourceFile.parse path source = .ok file) : IsName file.package := by
  obtain ⟨keyword, name, semi, rest, -, hlex, hclause, -⟩ := marked_targets .default h
  exact name_of_mem_lex hlex (by simp) hclause.name_kind

theorem mem_addToUnits {file : SourceFile} {units : List TestUnit} {u : TestUnit}
    (h : u ∈ addToUnits file units) : u.name = file.package ∨ ∃ v ∈ units, v.name = u.name := by
  induction units with
  | nil =>
    obtain rfl : u = ⟨file.package, [file]⟩ := by simpa [addToUnits] using h
    exact .inl rfl
  | cons v units ih =>
    rw [addToUnits] at h
    split at h
    · rename_i hv
      rcases List.mem_cons.1 h with rfl | h
      · exact .inl hv
      · exact .inr ⟨u, by simp [h], rfl⟩
    · rcases List.mem_cons.1 h with rfl | h
      · exact .inr ⟨u, by simp, rfl⟩
      · exact (ih h).imp_right fun ⟨v, hv, hn⟩ => ⟨v, by simp [hv], hn⟩

/-- The units of a step are named after packages. -/
theorem Built.isName {s : Step} (h : Built s) : ∀ u ∈ s.units, IsName u.name := by
  induction h with
  | new => exact fun _ hu => absurd hu List.not_mem_nil
  | withSessionDir _ _ ih => exact ih
  | addFile hf _ ih =>
    intro u hu
    rcases mem_addToUnits hu with hn | ⟨v, hv, hn⟩
    · rw [hn]
      exact isName_package hf
    · rw [← hn]
      exact ih v hv

/-! ### Commands side by side -/

/-- Whether the command is inside a section. -/
def Phase.isInside : Phase → Bool
  | .idle | .waiting | .finishing => false
  | _ => true

/-- The guard of the section, once it is entered and until the unit is recorded. -/
def Phase.guard? : Phase → Option Guard
  | .entered guard | .hosting guard | .recording guard => some guard
  | _ => none

/-- The unit that has a suite entry but is not recorded yet. -/
def Planner.pending? (p : Planner) : Option String :=
  match p.phase with
  | .recording _ => p.todo.head?.map (·.name)
  | _ => none

/-- Whether a unit is recorded. -/
def Recorded (session : Session) (d : Disk) (unit : String) : Prop :=
  ∃ units, session.readUnits d = .ok units ∧ unit ∈ units

/-- Whether the lock is held after a step. -/
def LockUse.after (held : Bool) : LockUse → Bool
  | .keeps => held
  | .takes => true
  | .frees => false

/-- What holds of a command at every time. -/
structure Settled (s : Step) (d : Disk) (held : Bool) (p : Planner) : Prop where
  named : ∀ u ∈ p.todo, IsName u.name
  inside : p.phase.isInside = held
  guard : ∀ g ∈ p.phase.guard?, g.session = s.session ∧ s.session.readUnits d = .ok g.units
  decided : ∀ g, p.phase = .hosting g → ∀ u ∈ p.todo.head?, s.defers u.name g.units = false
  recorded : ∀ unit ∈ p.made, Recorded s.session d unit ∨ unit ∈ p.pending?

theorem settled_start {s : Step} (h : Built s) (d : Disk) : Settled s d false (.start s) :=
  ⟨h.isName, rfl, by simp [Planner.start, Phase.guard?], by simp [Planner.start],
    by simp [Planner.start]⟩

/-- Outside of its sections a command leaves the record as it is. -/
theorem Advance.readUnits {s : Step} {use : LockUse} {p p' : Planner} {d d' : Disk}
    (h : Advance s use p d p' d') (hp : p.phase.isInside = false) :
    s.session.readUnits d' = s.session.readUnits d := by
  cases h with
  | touch _ ht => exact readUnits_touch ht
  | finish _ hk => exact hk
  | skip => rfl
  | acquire => rfl
  | _ => exact absurd hp (by simp [Phase.isInside])

theorem Recorded.congr {session : Session} {d d' : Disk} {unit : String}
    (hk : session.readUnits d' = session.readUnits d) (h : Recorded session d unit) :
    Recorded session d' unit := by
  unfold Recorded
  rwa [hk]

/-- What is recorded stays so. -/
theorem Recorded.advance {s : Step} {use : LockUse} {p p' : Planner} {d d' : Disk} {held : Bool}
    {unit : String} (hs : Settled s d held p) (h : Advance s use p d p' d')
    (hr : Recorded s.session d unit) : Recorded s.session d' unit := by
  cases h with
  | touch _ ht => exact hr.congr (readUnits_touch ht)
  | write _ hk | refuse _ hk | finish _ hk => exact hr.congr hk
  | @record u rest g _ _ _ _ _ hrecord =>
    obtain ⟨hg, hread⟩ := hs.guard g rfl
    obtain ⟨units, hunits, hsub, -⟩ := readUnits_record hg hread
      (listed_of_isName (hs.named u (by simp))) hrecord
    obtain ⟨units', hunits', hm⟩ := hr
    rw [hread] at hunits'
    obtain rfl := Except.ok.inj hunits'
    exact ⟨units, hunits, hsub hm⟩
  | _ => exact hr

/-- Where units are read, what is recorded is among them. -/
theorem Recorded.mem {session : Session} {d : Disk} {unit : String} {units : List String}
    (h : Recorded session d unit) (hr : session.readUnits d = .ok units) : unit ∈ units := by
  obtain ⟨units', hunits, hm⟩ := h
  rw [hr] at hunits
  obtain rfl := Except.ok.inj hunits
  exact hm

/-- **A step of the command itself** keeps what holds of it. -/
theorem Settled.advance {s : Step} {use : LockUse} {p p' : Planner} {d d' : Disk} {held : Bool}
    (hs : Settled s d held p) (h : Advance s use p d p' d') :
    Settled s d' (use.after held) p' := by
  have hstays : ∀ unit, Recorded s.session d unit → Recorded s.session d' unit :=
    fun _ => Recorded.advance hs h
  obtain ⟨hnamed, hinside, hguard, hdecided, hrecorded⟩ := hs
  cases h with
  | skip | touch =>
    exact ⟨hnamed, hinside, nofun, nofun, fun u hu => (hrecorded u hu).imp_left (hstays u)⟩
  | acquire | release => exact ⟨hnamed, rfl, nofun, nofun, hrecorded⟩
  | read hr =>
    refine ⟨hnamed, hinside, ?_, nofun, hrecorded⟩
    rintro _ ⟨⟩
    exact ⟨rfl, hr⟩
  | defer | refuse =>
    exact ⟨hnamed, hinside, nofun, nofun, fun u hu => (hrecorded u hu).imp_left (hstays u)⟩
  | decide hd =>
    refine ⟨hnamed, hinside, hguard, ?_, hrecorded⟩
    rintro _ ⟨⟩ _ ⟨⟩
    exact hd
  | write hw hk =>
    refine ⟨hnamed, hinside, ?_, nofun, ?_⟩
    · rintro g ⟨⟩
      rw [hk]
      exact hguard _ rfl
    · -- the unit that has been given a suite entry is still to be recorded
      intro u hu
      rcases List.mem_cons.1 hu with rfl | hu
      · exact .inr rfl
      · exact (hrecorded u hu).imp (hstays u) nofun
  | record hr =>
    refine ⟨hnamed, hinside, nofun, nofun, fun u hu => .inl ?_⟩
    rcases hrecorded u hu with h | h
    · exact hstays u h
    · obtain rfl : _ = u := by simpa [Planner.pending?] using h
      obtain ⟨hg, hread⟩ := hguard _ rfl
      obtain ⟨units, hunits, -, hm⟩ := readUnits_record hg hread
        (listed_of_isName (hnamed _ (by simp))) hr
      exact ⟨units, hunits, hm⟩
  | finish hf hk =>
    exact ⟨fun u hu => hnamed u (by simp [hu]), hinside, nofun, nofun,
      fun u hu => (hrecorded u hu).imp_left (hstays u)⟩

/-- **The steps of others** keep it: while it holds the lock they leave the record as it is. -/
theorem Settled.other {s : Step} {p : Planner} {d d' : Disk} {held : Bool}
    (hs : Settled s d held p)
    (hk : held = true → s.session.readUnits d' = s.session.readUnits d)
    (hstays : ∀ unit, Recorded s.session d unit → Recorded s.session d' unit) :
    Settled s d' held p := by
  refine ⟨hs.named, hs.inside, fun g hg => ?_, hs.decided,
    fun u hu => (hs.recorded u hu).imp_left (hstays u)⟩
  have hheld : held = true := by
    rw [← hs.inside]
    revert hg
    cases p.phase <;> simp [Phase.guard?, Phase.isInside]
  rw [hk hheld]
  exact hs.guard g hg

/-- A unit that is given a suite entry was not left to its sibling. -/
theorem Advance.made {s : Step} {use : LockUse} {p p' : Planner} {d d' : Disk}
    (h : Advance s use p d p' d') :
    p'.made = p.made ∨
      ∃ unit g, p.phase = .hosting g ∧ unit ∈ p.todo.head? ∧ p'.made = unit.name :: p.made := by
  cases h with
  | @write unit _ g => exact .inr ⟨unit, g, rfl, rfl, rfl⟩
  | _ => exact .inl rfl

/-- The commands of a build, the lock and the files. -/
structure World (ι : Type) where
  disk : Disk
  /-- Who holds the lock. -/
  holder : Option ι
  planners : ι → Planner

section

variable {ι : Type} [DecidableEq ι]

/-- Whether `i` may do so with the lock, and who holds it then. -/
def LockUse.Allows (i : ι) : LockUse → Option ι → Option ι → Prop
  | .keeps, holder, holder' => holder' = holder
  | .takes, holder, holder' => holder = none ∧ holder' = some i
  | .frees, _, holder' => holder' = none

/-- The commands of a build at the beginning of their plans. -/
def World.start (steps : ι → Step) (d : Disk) : World ι := ⟨d, none, fun i => .start (steps i)⟩

/-- A step of one of the commands, or a change of files that leaves the record as it is. -/
inductive World.Move (session : Session) (steps : ι → Step) : World ι → World ι → Prop
  | plan {w i use p d holder} : Advance (steps i) use (w.planners i) w.disk p d →
      use.Allows i w.holder holder → Move session steps w ⟨d, holder, Function.update w.planners i p⟩
  | other {w : World ι} {d} : session.readUnits d = session.readUnits w.disk →
      Move session steps w { w with disk := d }

/-- What the commands of a build may come to, in any order of their steps. -/
def World.Reachable (session : Session) (steps : ι → Step) (d : Disk) : World ι → Prop :=
  Relation.ReflTransGen (World.Move session steps) (.start steps d)

/-- What holds of all commands at every time. -/
structure Orderly (steps : ι → Step) (w : World ι) : Prop where
  settled : ∀ i, Settled (steps i) w.disk (w.holder == some i) (w.planners i)
  exclusive : ∀ x, endsWith Known.externalSuffix x = false → ∀ i j,
    x ∈ (w.planners i).made → x ++ Known.externalSuffix ∉ (w.planners j).made

variable {session : Session} {steps : ι → Step} {w w' : World ι}

/-- **What has been given a suite entry is recorded** when one of the commands is about to give
one. -/
theorem Orderly.mem_units (h : Orderly steps w) (hs : ∀ i, (steps i).session = session) {i j : ι}
    {g : Guard} (hi : (w.planners i).phase = .hosting g) {unit : String}
    (hj : unit ∈ (w.planners j).made) : unit ∈ g.units := by
  have hread := ((h.settled i).guard g (by rw [hi]; rfl)).2
  rw [hs] at hread
  have hheld : w.holder = some i := by
    have := (h.settled i).inside
    rw [hi] at this
    simpa [Phase.isInside] using this.symm
  rcases (h.settled j).recorded unit hj with hr | hp
  · rw [hs] at hr
    exact hr.mem hread
  · -- another command that is still to record holds the lock
    cases hphase : (w.planners j).phase with
    | recording g' =>
      have := (h.settled j).inside
      rw [hphase, hheld] at this
      obtain rfl : i = j := by simpa [Phase.isInside] using this
      rw [hi] at hphase
      exact Phase.noConfusion hphase
    | _ => simp [Planner.pending?, hphase] at hp

/-- A suite entry that is given now is not given to the sibling. -/
theorem Orderly.exclusive_cons (h : Orderly steps w) (hs : ∀ i, (steps i).session = session) {i : ι}
    {g : Guard} {unit : TestUnit} (hi : (w.planners i).phase = .hosting g)
    (hu : unit ∈ (w.planners i).todo.head?) {x : String}
    (hx : endsWith Known.externalSuffix x = false) (j : ι) :
    (unit.name = x → x ++ Known.externalSuffix ∉ (w.planners j).made) ∧
      (unit.name = x ++ Known.externalSuffix → x ∉ (w.planners j).made) := by
  have hdecided := (h.settled i).decided g hi unit hu
  refine ⟨fun hn hj => ?_, fun hn hj => ?_⟩
  · rw [hn, defers_internal _ hx (h.mem_units hs hi hj)] at hdecided
    exact Bool.false_ne_true hdecided.symm
  · rw [hn, defers_external _ (h.mem_units hs hi hj)] at hdecided
    exact Bool.false_ne_true hdecided.symm

/-- The lock is freed by the command that is inside its section. -/
theorem Advance.inside_of_frees {s : Step} {p p' : Planner} {d d' : Disk}
    (h : Advance s .frees p d p' d') : p.phase.isInside = true := by
  cases h
  rfl

/-- Who holds the lock after a step, seen from the command that took it. -/
theorem LockUse.Allows.after {i : ι} {use : LockUse} {holder holder' : Option ι}
    (h : use.Allows i holder holder') : use.after (holder == some i) = (holder' == some i) := by
  cases use with
  | keeps =>
    obtain rfl : holder' = holder := h
    rfl
  | takes =>
    obtain ⟨-, rfl⟩ := h
    simp [LockUse.after]
  | frees =>
    obtain rfl : holder' = none := h
    rfl

/-- Who holds the lock after a step, seen from another command. -/
theorem LockUse.Allows.other {i j : ι} (hij : j ≠ i) {use : LockUse} {holder holder' : Option ι}
    (h : use.Allows i holder holder') (hf : use = .frees → holder = some i) :
    (holder' == some j) = (holder == some j) := by
  cases use with
  | keeps =>
    obtain rfl : holder' = holder := h
    rfl
  | takes =>
    obtain ⟨rfl, rfl⟩ := h
    simpa using hij.symm
  | frees =>
    obtain rfl : holder' = none := h
    rw [hf rfl]
    simpa using hij.symm

/-- What is given after a step was given before it, or by the command that takes it. -/
theorem made_update {i : ι} {use : LockUse} {p : Planner} {d : Disk}
    (ha : Advance (steps i) use (w.planners i) w.disk p d) (k : ι) {x : String}
    (hx : x ∈ (Function.update w.planners i p k).made) : x ∈ (w.planners k).made ∨
      ∃ unit g, (w.planners i).phase = .hosting g ∧ unit ∈ (w.planners i).todo.head? ∧
        unit.name = x := by
  by_cases hk : k = i
  · subst hk
    rw [Function.update_self] at hx
    rcases ha.made with hm | ⟨unit, g, hphase, hhead, hm⟩
    · exact .inl (hm ▸ hx)
    · rw [hm] at hx
      rcases List.mem_cons.1 hx with rfl | hx
      · exact .inr ⟨unit, g, hphase, hhead, rfl⟩
      · exact .inl hx
  · rw [Function.update_of_ne hk] at hx
    exact .inl hx

/-- **A step gives no sibling** of what was given a suite entry another one. -/
theorem Orderly.exclusive_advance (h : Orderly steps w) (hs : ∀ i, (steps i).session = session)
    {i : ι} {use : LockUse} {p : Planner} {d : Disk}
    (ha : Advance (steps i) use (w.planners i) w.disk p d) {x : String}
    (hx : endsWith Known.externalSuffix x = false) {a b : ι}
    (hmade : x ∈ (Function.update w.planners i p a).made) :
    x ++ Known.externalSuffix ∉ (Function.update w.planners i p b).made := by
  intro hmade'
  rcases made_update ha a hmade with hold | ⟨unit, g, hphase, hhead, hname⟩
  · rcases made_update ha b hmade' with hold' | ⟨unit, g, hphase, hhead, hname⟩
    · exact h.exclusive x hx a b hold hold'
    · exact (h.exclusive_cons hs hphase hhead hx a).2 hname hold
  · rcases made_update ha b hmade' with hold' | ⟨unit', g', hphase', hhead', hname'⟩
    · exact (h.exclusive_cons hs hphase hhead hx b).1 hname hold'
    · -- one step gives one suite entry
      rw [Option.mem_def] at hhead hhead'
      rw [hhead] at hhead'
      obtain rfl := Option.some.inj hhead'
      rw [hname] at hname'
      have := congrArg String.length hname'
      simp [Known.externalSuffix] at this

/-- **Every step** keeps the commands in order. -/
theorem Orderly.move (h : Orderly steps w) (hs : ∀ i, (steps i).session = session)
    (hm : World.Move session steps w w') : Orderly steps w' := by
  cases hm with
  | @other d hk =>
    have hkeep : ∀ i, (steps i).session.readUnits d = (steps i).session.readUnits w.disk := by
      intro i
      rw [hs i]
      exact hk
    exact ⟨fun i => (h.settled i).other (fun _ => hkeep i) fun u hr => hr.congr (hkeep i),
      h.exclusive⟩
  | @plan i use p d holder ha hallow =>
    have hi := h.settled i
    have hfrees : use = .frees → w.holder = some i := by
      rintro rfl
      have := hi.inside
      rw [ha.inside_of_frees] at this
      simpa using this.symm
    refine ⟨fun j => ?_, fun x hx a b => h.exclusive_advance hs ha hx⟩
    by_cases hij : j = i
    · subst hij
      have := hi.advance ha
      rw [hallow.after] at this
      simpa using this
    · have hj := h.settled j
      simp only [Function.update_of_ne hij, hallow.other hij hfrees]
      refine hj.other (fun hheld => ?_) fun u hr => ?_
      · -- while `j` holds the lock, `i` is not inside
        have hinside := hi.inside
        rw [beq_iff_eq.1 hheld] at hinside
        rw [hs j, ← hs i]
        exact ha.readUnits (hinside.trans (by simpa using hij))
      · rw [hs j, ← hs i] at hr ⊢
        exact hr.advance hi ha

theorem orderly_start (hb : ∀ i, Built (steps i)) (d : Disk) : Orderly steps (.start steps d) :=
  ⟨fun i => settled_start (hb i) d, fun _ _ _ _ => by simp [World.start, Planner.start]⟩

end

/-! ### Small steps -/

theorem file_prepared (file : SourceFile) (sdk : Instrumentation) (entry : Option String) :
    (prepared file sdk entry).file = file := by
  obtain ⟨adds, hs, -⟩ := shape_prepared file sdk entry
  exact hs.file_eq

/-- The source of a package with one test. -/
def oneTest (package : String) : String :=
  "package " ++ package ++ "\n\nimport \"testing\"\n\nfunc TestA(t *testing.T) \x7b\x7d\n"

/-- A step with one file. -/
def oneFile (file : SourceFile) : Step := (Step.new "b" .default ⟨"/tmp"⟩).addFile file

theorem units_oneFile (file : SourceFile) : (oneFile file).units = [⟨file.package, [file]⟩] := rfl

theorem mem_units_oneFile (file : SourceFile) :
    (⟨file.package, [file]⟩ : TestUnit) ∈ (oneFile file).units := by
  rw [units_oneFile]
  exact List.mem_singleton_self _

theorem built_oneFile {path : Path} {source : String} {file : SourceFile}
    (hf : SourceFile.parse path source = .ok file) : Built (oneFile file) :=
  .addFile hf (.new ..)

/-- A disk with nothing but a directory for temporary files. -/
def bareDisk : Disk := { nodes := [(["tmp"], .directory)], cwd := [] }

theorem reliable_bareDisk : bareDisk.Reliable := fun _ _ _ => rfl

/-- Every directory of a bare disk has room. -/
theorem room_bareDisk {dir : Path} {n : Nat} (hn : n < Disk.tempTries) : bareDisk.Room dir n := by
  intro name loc _ _
  have hnames : (bareDisk.namesIn loc.dropLast).length ≤ 1 := List.length_filterMap_le ..
  exact Disk.offers_default rfl (by omega)

end TestWeave.Build
