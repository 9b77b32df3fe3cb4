import TestWeave.Proofs.Alike
import TestWeave.Proofs.Overlap

/-!
# Sessions of different builds

Build identifiers are squeezed into file names. Where the names of the files of two builds do not
collide, what is done under one identifier cannot be told under the other: it gets the answers, and
finds the file of its lock, as if nothing else had been done. Where they collide, this is not so.

* `Separate`: the names do not collide; `separate_iff_paths`: neither do the paths.
* `Use.answer_alike`, `Use.alike_other`: what is done under the identifier itself and under another
  one; `run_alike`: a whole course of both.
* `unaffected_iff_separate`: when builds keep out of each other's way.
-/

namespace TestWeave.Build

open TestWeave.Change TestWeave.Host TestWeave.Source

/-! ### Names -/

/-- The names of the files of a session. -/
def sessionNames (buildId : String) : List String :=
  [".test_main_packages_" ++ sanitize buildId, ".test_main_packages_" ++ sanitize buildId ++ ".lock"]

/-- The places that have the name of a file of the session. -/
def Belongs (buildId : String) (loc : Location) : Prop :=
  ∃ name ∈ sessionNames buildId, loc.getLast? = some name

/-- The file names of two builds do not collide. -/
structure Separate (a b : String) : Prop where
  record : sanitize a ≠ sanitize b
  lock : sanitize a ≠ sanitize b ++ ".lock"
  other : sanitize b ≠ sanitize a ++ ".lock"

variable {a b id : String} {dir : Path} {d d' : Disk} {loc : Location}

theorem Separate.symm (h : Separate a b) : Separate b a := ⟨h.record.symm, h.other, h.lock⟩

theorem plain_recordName (buildId : String) :
    Disk.Plain (".test_main_packages_" ++ sanitize buildId) := by
  have := plain_sessionName buildId "" (by simp)
  rwa [String.append_empty] at this

theorem plain_lockName (buildId : String) :
    Disk.Plain (".test_main_packages_" ++ sanitize buildId ++ ".lock") :=
  plain_sessionName buildId ".lock" (by decide)

theorem Separate.notMem (h : Separate a b) : ∀ name ∈ sessionNames a, name ∉ sessionNames b := by
  intro name ha hb
  simp only [sessionNames, List.mem_cons, List.not_mem_nil, or_false] at ha hb
  rcases ha with rfl | rfl <;> rcases hb with hb | hb
  · exact h.record ((String.append_right_inj _).1 hb)
  · rw [String.append_assoc] at hb
    exact h.lock ((String.append_right_inj _).1 hb)
  · rw [String.append_assoc] at hb
    exact h.other ((String.append_right_inj _).1 hb).symm
  · exact h.record ((String.append_right_inj _).1 ((String.append_left_inj _).1 hb))

/-- **Names that do not collide** are those of paths that do not. -/
theorem separate_iff_paths (dir : Path) (a b : String) : Separate a b ↔
    (Session.new dir a).path ≠ (Session.new dir b).path ∧
      (Session.new dir a).path ≠ (Session.new dir b).lockPath ∧
      (Session.new dir b).path ≠ (Session.new dir a).lockPath := by
  have hrecord := Disk.join_inj dir (plain_recordName a) (plain_recordName b)
  have hlock := Disk.join_inj dir (plain_recordName a) (plain_lockName b)
  have hother := Disk.join_inj dir (plain_recordName b) (plain_lockName a)
  rw [String.append_right_inj] at hrecord
  rw [String.append_assoc, String.append_right_inj, ← String.append_assoc] at hlock hother
  simp only [Session.new, ne_eq, hrecord, hlock, hother]
  constructor
  · intro h
    exact ⟨h.record, h.lock, h.other⟩
  · rintro ⟨hrecord, hlock, hother⟩
    exact ⟨hrecord, hlock, hother⟩

/-! ### Places -/

theorem getLast?_record (h : d.resolve (Session.new dir b).path = .ok loc) :
    loc.getLast? = some (".test_main_packages_" ++ sanitize b) := by
  simp only [Session.new] at h
  exact getLast?_of_resolve (plain_recordName b) h

theorem getLast?_lock (h : d.resolve (Session.new dir b).lockPath = .ok loc) :
    loc.getLast? = some (".test_main_packages_" ++ sanitize b ++ ".lock") := by
  simp only [Session.new] at h
  exact getLast?_of_resolve (plain_lockName b) h

theorem within_belongs (h : d.resolve (Session.new dir b).lockPath = .ok loc) :
    (Session.new dir b).Within (Belongs b) d := by
  obtain ⟨found, hfound, -⟩ := resolve_record h
  exact ⟨⟨found, hfound, _, List.mem_cons_self, getLast?_record hfound⟩,
    loc, h, _, by simp [sessionNames], getLast?_lock h⟩

theorem Separate.outside (h : Separate a b) (dir : Path) (d : Disk) :
    (Session.new dir a).Outside (Belongs b) d := by
  refine ⟨fun loc hr => ?_, fun loc hr => ?_⟩ <;> rintro ⟨name, hname, hlast⟩
  · rw [getLast?_record hr] at hlast
    obtain rfl := Option.some.inj hlast
    exact h.notMem _ List.mem_cons_self hname
  · rw [getLast?_lock hr] at hlast
    obtain rfl := Option.some.inj hlast
    exact h.notMem _ (by simp [sessionNames]) hname

/-- Sources whose names do not begin with a dot are clear of all sessions. -/
theorem clear_of_head {file : SourceFile}
    (h : (file.path.fileStem?.getD "" ++ "_").toList.head? ≠ some '.') (buildId : String) :
    Clear (Belongs buildId) file := by
  rintro k loc hloc ⟨name, hname, hlast⟩
  rw [hloc] at hlast
  obtain rfl := Option.some.inj hlast
  refine h ?_
  have hdot : (tempNameOf file.path k).toList.head? = some '.' := by
    simp only [sessionNames, List.mem_cons, List.not_mem_nil, or_false] at hname
    rcases hname with hname | hname <;> rw [hname] <;> simp
  have hne : file.path.fileStem?.getD "" ++ "_" ≠ "" := by simp
  unfold tempNameOf at hdot
  generalize file.path.fileStem?.getD "" ++ "_" = before at hdot hne
  obtain ⟨c, cs, hlead⟩ := List.exists_cons_of_ne_nil (by simpa using hne : before.toList ≠ [])
  simpa [Disk.tempName, hlead] using hdot

/-! ### What is done under build identifiers -/

/-- What is done under a build identifier. -/
inductive Use
  | read
  | lock
  | record (unit : String)
  | release
  | plan (sdk : Instrumentation) (tempDir : Path) (units : List TestUnit)

/-- The answer to it. -/
inductive Answer
  | nothing
  | units (units : Except SessionError (List String))
  | recorded (outcome : Except SessionError Unit)
  /-- The units that a plan gives a suite entry. -/
  | given (units : List String)

/-- A disk, and the section that is open under each build identifier. -/
structure Desk where
  disk : Disk
  guards : String → Option Guard

/-- A disk without open sections. -/
def Desk.start (d : Disk) : Desk := ⟨d, fun _ => none⟩

namespace Use

/-- Does something under a build identifier. -/
def apply (dir : Path) (buildId : String) : Use → Desk → Answer × Desk
  | .read, w => (.units ((Session.new dir buildId).readUnits w.disk), w)
  | .lock, w =>
    let taken := (Session.new dir buildId).lock w.disk
    (.units (taken.1.map (·.units)),
      ⟨taken.2, Function.update w.guards buildId taken.1.toOption⟩)
  | .record unit, w =>
    match w.guards buildId with
    | none => (.nothing, w)
    | some g =>
      let recorded := g.record unit w.disk
      (.recorded recorded.1,
        ⟨recorded.2.2, Function.update w.guards buildId (some recorded.2.1)⟩)
  | .release, w => (.nothing, ⟨w.disk, Function.update w.guards buildId none⟩)
  | .plan sdk tempDir units, w =>
    let s : Step := ⟨buildId, sdk, tempDir, dir, units⟩
    (.given (s.given w.disk), ⟨(s.plan w.disk).2, w.guards⟩)

/-- How many files it may write. -/
def cost : Use → Nat
  | .read | .release => 0
  | .lock | .record _ => 1
  | .plan _ _ units => (units.map TestUnit.cost).sum

/-- There is room for `n` files where it writes temporary ones. -/
def Room (d : Disk) (n : Nat) : Use → Prop
  | .plan _ tempDir _ => d.Room tempDir n
  | _ => True

/-- No temporary file that it writes has the name of a file of the session. -/
def Clear (buildId : String) : Use → Prop
  | .plan _ _ units => ∀ unit ∈ units, ∀ file ∈ unit.files, Build.Clear (Belongs buildId) file
  | _ => True

end Use

/-- Does one thing after the other, and gives the answers. -/
def run (dir : Path) : List (String × Use) → Desk → List (String × Answer) × Desk
  | [], w => ([], w)
  | (buildId, use) :: uses, w =>
    let done := use.apply dir buildId w
    let rest := run dir uses done.2
    ((buildId, done.1) :: rest.1, rest.2)

/-- The open sections are over the sessions of their builds. -/
def Desk.Tracked (dir : Path) (w : Desk) : Prop :=
  ∀ id, ∀ g ∈ w.guards id, g.session = .new dir id

/-- Desks that are alike for a build. -/
structure Desk.Alike (buildId : String) (w w' : Desk) : Prop where
  disk : Disk.Alike (Belongs buildId) w.disk w'.disk
  guard : w'.guards buildId = w.guards buildId

variable {use : Use} {uses : List (String × Use)} {w w' : Desk}

theorem Desk.Alike.of {guards guards' : String → Option Guard}
    (hd : Disk.Alike (Belongs b) d d') (hg : guards' b = guards b) :
    Desk.Alike b ⟨d, guards⟩ ⟨d', guards'⟩ := ⟨hd, hg⟩

theorem session_lock {session : Session} {g : Guard} (h : (session.lock d).1 = .ok g) :
    g.session = session := by
  obtain ⟨-, units, -, rfl⟩ := Session.lock_eq_ok (Prod.ext h rfl)
  rfl

theorem Desk.Tracked.apply (h : w.Tracked dir) (id : String) (use : Use) :
    (use.apply dir id w).2.Tracked dir := by
  have update : ∀ {d} {after : Option Guard}, (∀ g ∈ after, g.session = .new dir id) →
      Desk.Tracked dir ⟨d, Function.update w.guards id after⟩ := fun hafter =>
    forall_mem_update hafter fun other _ => h other
  cases use with
  | read => exact h
  | lock =>
    refine update fun g hg => session_lock (d := w.disk) ?_
    rcases hl : (Session.new dir id).lock w.disk with ⟨outcome, d⟩
    rw [hl] at hg
    cases outcome with
    | error => simp [Except.toOption] at hg
    | ok => exact congrArg Except.ok (Option.some.inj hg)
  | record unit =>
    rw [Use.apply]
    split
    · exact h
    · rename_i g hg
      refine update ?_
      rintro _ ⟨⟩
      rw [session_record]
      exact h id g hg
  | release =>
    refine update ?_
    rintro _ ⟨⟩
  | plan => exact h

/-- It takes no more room than the files that it may write. -/
theorem Use.room_apply (use : Use) (dir : Path) (id : String) {tempDir : Path} {n : Nat}
    (h : w.disk.Room tempDir (n + use.cost)) :
    (use.apply dir id w).2.disk.Room tempDir n := by
  cases use with
  | read => exact h
  | lock =>
    simp only [Use.apply]
    exact Session.enter_snd _ _ ▸ room_enter h _
  | record unit =>
    rw [Use.apply]
    split
    · exact h.mono (Nat.le_succ n)
    · exact room_record h _ unit
  | release => exact h
  | plan sdk planDir units =>
    simp only [Use.apply]
    exact room_plan ⟨id, sdk, planDir, dir, units⟩ h

theorem Use.Room.mono {m n : Nat} (h : use.Room d n) (hmn : m ≤ n) : use.Room d m := by
  cases use with
  | plan => exact Disk.Room.mono h hmn
  | _ => trivial

theorem Use.Room.apply {use other : Use} {n : Nat} (h : use.Room w.disk (n + other.cost))
    (dir : Path) (id : String) : use.Room (other.apply dir id w).2.disk n := by
  cases use with
  | plan => exact other.room_apply dir id h
  | _ => trivial

/-- It only adds files, or rewrites them. -/
theorem Use.grown_apply (use : Use) (dir : Path) (id : String) (w : Desk) :
    Disk.Grown (fun _ => True) w.disk (use.apply dir id w).2.disk := by
  cases use with
  | read => exact .refl _ _
  | lock =>
    simp only [Use.apply]
    exact grown_lock ..
  | record unit =>
    rw [Use.apply]
    split
    · exact .refl _ _
    · exact grown_record (fun _ _ => trivial) unit
  | release => exact .refl _ _
  | plan sdk tempDir units =>
    simp only [Use.apply]
    exact (grown_plan ⟨id, sdk, tempDir, dir, units⟩ w.disk).mono fun _ _ => trivial

/-- **What is done under another identifier** leaves the desk as it was. -/
theorem Use.alike_other (hs : Separate id b) (ht : w.Tracked dir) (hc : use.Clear b) :
    Desk.Alike b w (use.apply dir id w).2 := by
  have hne : b ≠ id := by
    rintro rfl
    exact hs.record rfl
  have hguards : ∀ after : Option Guard, Function.update w.guards id after b = w.guards b :=
    fun after => Function.update_of_ne hne after w.guards
  cases use with
  | read => exact ⟨.refl _ _, rfl⟩
  | lock =>
    simp only [Use.apply]
    exact .of (alike_lock (hs.outside dir _)) (hguards _)
  | record unit =>
    rw [Use.apply]
    split
    · exact ⟨.refl _ _, rfl⟩
    · rename_i g hg
      exact .of (alike_record (hs.outside dir _) (ht id g hg) unit) (hguards _)
  | release => exact ⟨.refl _ _, hguards _⟩
  | plan sdk tempDir units =>
    simp only [Use.apply]
    exact .of (alike_plan (s := ⟨id, sdk, tempDir, dir, units⟩) (hs.outside dir) hc w.disk) rfl

/-- **What is done under the identifier itself** has the same answer on desks that are alike, and
leaves them alike. -/
theorem Use.answer_alike (h : Desk.Alike b w w') (hd : w.disk.Reliable)
    (hw : (Session.new dir b).Within (Belongs b) w.disk) (ht : w.Tracked dir) (hc : use.Clear b)
    (hroom : use.Room w.disk use.cost) (hroom' : use.Room w'.disk use.cost) :
    (use.apply dir b w').1 = (use.apply dir b w).1 ∧
      Desk.Alike b (use.apply dir b w).2 (use.apply dir b w').2 := by
  -- each use reads only what belongs to its own build, which the two desks have in common
  cases use with
  | read => exact ⟨congrArg Answer.units (readUnits_alike h.disk hw), h⟩
  | lock =>
    obtain ⟨houtcome, ha⟩ := lock_alike h.disk hw
    simp only [Use.apply, houtcome, true_and]
    exact .of ha (by simp)
  | record unit =>
    simp only [Use.apply, h.guard]
    cases hg : w.guards b with
    | none => exact ⟨rfl, h⟩
    | some g =>
      obtain ⟨houtcome, hguard, ha⟩ := record_alike h.disk hd hw (ht b g hg) unit
      simp only [houtcome, hguard, true_and]
      exact .of ha (by simp)
  | release => exact ⟨rfl, h.disk, by simp [Use.apply]⟩
  | plan sdk tempDir units =>
    obtain ⟨hgiven, ha⟩ :=
      plan_alike (s := ⟨b, sdk, tempDir, dir, units⟩) h.disk hd hw hc hroom hroom'
    exact ⟨congrArg Answer.given hgiven, .of ha h.guard⟩

/-! ### A course of both -/

/-- How many files may be written in all. -/
def costOf (uses : List (String × Use)) : Nat := (uses.map (·.2.cost)).sum

/-- **A whole course** has the answers under one identifier, and leaves its files, as if nothing had
been done under others. -/
theorem run_alike (h : Desk.Alike b w w') (hd : w.disk.Reliable)
    (hw : (Session.new dir b).Within (Belongs b) w.disk) (ht : w.Tracked dir)
    (hid : ∀ u ∈ uses, u.1 = b ∨ Separate u.1 b) (hc : ∀ u ∈ uses, u.2.Clear b)
    (hroom : ∀ u ∈ uses, u.2.Room w.disk (costOf uses))
    (hroom' : ∀ u ∈ uses, u.2.Room w'.disk (costOf uses)) :
    (run dir uses w).1.filter (·.1 = b) = (run dir (uses.filter (·.1 = b)) w').1 ∧
      Desk.Alike b (run dir uses w).2 (run dir (uses.filter (·.1 = b)) w').2 := by
  induction uses generalizing w w' with
  | nil => exact ⟨rfl, h⟩
  | cons u uses ih =>
    obtain ⟨id, use⟩ := u
    obtain ⟨hid : id = b ∨ Separate id b, hids⟩ := List.forall_mem_cons.1 hid
    obtain ⟨hc : use.Clear b, hcs⟩ := List.forall_mem_cons.1 hc
    have hcost : costOf ((id, use) :: uses) = costOf uses + use.cost := by simp [costOf, Nat.add_comm]
    rw [hcost] at hroom hroom'
    obtain ⟨hnow, hrooms⟩ := List.forall_mem_cons.1 hroom
    obtain ⟨hnow', hrooms'⟩ := List.forall_mem_cons.1 hroom'
    have ht' := ht.apply id use
    have hgrown := use.grown_apply dir id w
    have hd' := hgrown.reliable.2 hd
    have hw' := hw.grown hgrown
    have hafter : ∀ u ∈ uses, u.2.Room (use.apply dir id w).2.disk (costOf uses) :=
      fun u hu => (hrooms u hu).apply dir id
    by_cases hb : id = b
    · subst hb
      obtain ⟨hanswer, ha⟩ := Use.answer_alike h hd hw ht hc (hnow.mono (Nat.le_add_left ..))
        (hnow'.mono (Nat.le_add_left ..))
      obtain ⟨hrest, hdesk⟩ := ih ha hd' hw' ht' hids hcs hafter
        fun u hu => (hrooms' u hu).apply dir id
      simp only [run, List.filter_cons_of_pos, decide_true, hanswer, hrest]
      exact ⟨trivial, hdesk⟩
    · -- the use of another build leaves what belongs to this one, and is left out of the second run
      have ha := Use.alike_other (hid.resolve_left hb) ht hc
      have hback : Desk.Alike b (use.apply dir id w).2 w' :=
        ⟨ha.disk.symm.trans h.disk, h.guard.trans ha.guard.symm⟩
      obtain ⟨hrest, hdesk⟩ := ih hback hd' hw' ht' hids hcs hafter
        fun u hu => (hrooms' u hu).mono (Nat.le_add_right ..)
      simp only [run, hb, decide_false, Bool.false_eq_true, not_false_eq_true,
        List.filter_cons_of_neg, hrest]
      exact ⟨trivial, hdesk⟩

/-- What the commands of one build see of a course is what they would see by themselves: the answers
and the file of the lock. -/
def Unaffected (dir : Path) (d : Disk) (uses : List (String × Use)) (buildId : String) : Prop :=
  let all := run dir uses (.start d)
  let own := run dir (uses.filter (·.1 = buildId)) (.start d)
  all.1.filter (·.1 = buildId) = own.1 ∧
    all.2.disk.lookup (Session.new dir buildId).lockPath =
      own.2.disk.lookup (Session.new dir buildId).lockPath

/-- A course of two builds, with room for its temporary files. -/
structure Course (a b : String) (d : Disk) (uses : List (String × Use)) : Prop where
  builds : ∀ u ∈ uses, u.1 = a ∨ u.1 = b
  clear : ∀ u ∈ uses, u.2.Clear a ∧ u.2.Clear b
  room : ∀ u ∈ uses, u.2.Room d (costOf uses)

/-- The session can be used. -/
structure Session.Ready (session : Session) (d : Disk) : Prop where
  lock : d.Writable session.lockPath
  record : ∃ units, session.readUnits d = .ok units

theorem Course.symm (h : Course a b d uses) : Course b a d uses :=
  ⟨fun u hu => (h.builds u hu).symm, fun u hu => (h.clear u hu).symm, h.room⟩

theorem Separate.unaffected (h : Separate a b) (hd : d.Reliable) (hb : (Session.new dir b).Ready d)
    (hc : Course a b d uses) : Unaffected dir d uses b := by
  obtain ⟨loc, hr, -, -⟩ := hb.lock
  have hw := within_belongs hr
  have ht : (Desk.start d).Tracked dir := fun _ _ hg => by simp [Desk.start] at hg
  have hids : ∀ u ∈ uses, u.1 = b ∨ Separate u.1 b := by
    intro u hu
    rcases hc.builds u hu with rfl | rfl
    · exact .inr h
    · exact .inl rfl
  obtain ⟨hanswers, hdesk⟩ := run_alike (w := .start d) ⟨.refl _ d, rfl⟩ hd hw ht hids
    (fun u hu => (hc.clear u hu).2) hc.room hc.room
  have hgrown : ∀ uses w, Disk.Grown (fun _ => True) w.disk (run dir uses w).2.disk := by
    intro uses
    induction uses with
    | nil => exact fun w => .refl _ _
    | cons u uses ih => exact fun w => (u.2.grown_apply dir u.1 w).trans (ih _)
  obtain ⟨found, hfound, hq⟩ := (hw.grown (hgrown uses (.start d))).lock
  exact ⟨hanswers, (hdesk.disk.lookup hfound hq).symm⟩

/-! ### Names that collide -/

theorem run_append (dir : Path) (uses uses' : List (String × Use)) (w : Desk) :
    run dir (uses ++ uses') w =
      ((run dir uses w).1 ++ (run dir uses' (run dir uses w).2).1,
        (run dir uses' (run dir uses w).2).2) := by
  induction uses generalizing w with
  | nil => rfl
  | cons u uses ih => simp only [List.cons_append, run, ih]

/-- Files that are the same hold the same record. -/
theorem readUnits_of_lookup {session : Session}
    (h : d'.lookup session.path = d.lookup session.path) :
    session.readUnits d' = session.readUnits d := by
  apply readUnits_congr
  unfold Disk.readText Disk.read
  rw [h]

/-- A session that can be used can be locked. -/
theorem exists_lock {units : List String} (h : d.Writable (Session.new dir b).lockPath)
    (hr : (Session.new dir b).readUnits d = .ok units) : ∃ t,
      (Session.new dir b).lock d = (.ok ⟨.new dir b, true, units⟩, t) ∧
      (Session.new dir b).readUnits t = .ok units ∧ t.Writable (Session.new dir b).lockPath := by
  obtain ⟨t, ht⟩ := Disk.exists_touch h
  have hr' := (readUnits_touch ht).trans hr
  have hgrown : Disk.Grown (fun _ => True) d t := Disk.grown_touch ht
  refine ⟨t, ?_, hr', hgrown.writable.2 h⟩
  unfold Session.lock
  rw [ht]
  simp only [hr', Except.map]

/-- Its record can be written. -/
theorem exists_saveRecord {units : List String} (hd : d.Reliable)
    (h : d.Writable (Session.new dir b).lockPath)
    (hr : (Session.new dir b).readUnits d = .ok units) (content : ByteArray) :
    ∃ d', d.save (Session.new dir b).path content = (.ok (), d') := by
  obtain ⟨loc, hloc, -⟩ := resolve_record h.choose_spec.1
  exact Disk.exists_save ⟨loc, hloc, Disk.endsWithSlash_join _ (plain_recordName b),
    not_directory_of_readUnits hr hloc⟩ hd content

/-- Something new can be recorded under an identifier. -/
theorem exists_recorded {buildId : String} (hd : d.Reliable)
    (h : (Session.new dir buildId).Ready d) :
    ∃ new units, ∃ answers w, new ∉ units ∧ (Session.new dir buildId).readUnits d = .ok units ∧
      run dir [(buildId, .lock), (buildId, .record new)] (.start d) = (answers, w) ∧
      (∀ answer ∈ answers, answer.1 = buildId) ∧
      (Session.new dir buildId).readUnits w.disk = .ok (units ++ [new]) := by
  obtain ⟨units, hread⟩ := h.record
  obtain ⟨new, hnew, hnot⟩ := exists_listed_notMem units
  obtain ⟨t, hlock, hread', hwritable⟩ := exists_lock h.lock hread
  have hgrown := grown_lock (fun _ => True) (.new dir buildId) d
  rw [hlock] at hgrown
  obtain ⟨d', hw⟩ := exists_saveRecord (hgrown.reliable.2 hd) hwritable hread'
    (recordText (units ++ [new])).toUTF8
  have hlisted := listed_concat (listed_of_readUnits hread) hnew
  have hrecord := Guard.record_of_save (g := ⟨.new dir buildId, true, units⟩) hnot hw
  refine ⟨new, units, _, _, hnot, hread, rfl, ?_, ?_⟩
  · simp [run]
  · simp only [run, Use.apply, Desk.start, hlock, Except.toOption, Function.update_self, hrecord]
    exact readUnits_of_write (Disk.save_eq_ok hw).2 hlisted

/-- **Where names collide**, what is recorded under one identifier is seen under the other. -/
theorem exists_affected (hne : a ≠ b) (hd : d.Reliable) (ha : (Session.new dir a).Ready d)
    (hcollide : sanitize a = sanitize b ∨ sanitize a = sanitize b ++ ".lock") :
    ∃ uses, Course a b d uses ∧ ¬Unaffected dir d uses b := by
  obtain ⟨new, units, answers, w, hnot, hread, hrun, hlabels, hread'⟩ := exists_recorded hd ha
  have hother : answers.filter (·.1 = b) = [] := by
    rw [List.filter_eq_nil_iff]
    intro answer hm
    simpa [hlabels answer hm] using hne
  have hgrown : units ++ [new] ≠ units := by simp
  rcases hcollide with hsame | hsame
  · -- the two share a record, which the other one reads
    have hsession : Session.new dir b = Session.new dir a := by
      rw [Session.new, Session.new, hsame]
    refine ⟨[(a, .lock), (a, .record new)] ++ [(b, .read)], ⟨?_, ?_, ?_⟩, ?_⟩
    · simp
    · simp [Use.Clear]
    · simp [Use.Room]
    · rintro ⟨hanswers, -⟩
      rw [run_append, hrun, List.filter_append, hother] at hanswers
      simp [run, Use.apply, Desk.start, hne, hsession, hread, hread'] at hanswers
  · -- the record of the one is the file of the lock of the other
    have hpath : (Session.new dir b).lockPath = (Session.new dir a).path := by
      simp only [Session.new, hsame, String.append_assoc]
    refine ⟨[(a, .lock), (a, .record new)], ⟨?_, ?_, ?_⟩, ?_⟩
    · simp
    · simp [Use.Clear]
    · simp [Use.Room]
    · rintro ⟨-, hlookup⟩
      have hown : [(a, Use.lock), (a, Use.record new)].filter (·.1 = b) = [] := by simp [hne]
      rw [hrun, hown, hpath] at hlookup
      have hkept := readUnits_of_lookup hlookup
      rw [hread', run, Desk.start, hread] at hkept
      exact hgrown (Except.ok.inj hkept)

/-- **When builds keep out of each other's way.** For two build identifiers, with sessions in one
directory that can be used and writes that get through, the names of the sessions do not collide just
if neither record is the record or the file of the lock of the other, and just if in every course of
both each gets the answers, and finds the file of its lock, as if the other had done nothing. -/
theorem unaffected_iff_separate (hne : a ≠ b) (hd : d.Reliable)
    (ha : (Session.new dir a).Ready d) (hb : (Session.new dir b).Ready d) :
    (Separate a b ↔ (Session.new dir a).path ≠ (Session.new dir b).path ∧
      (Session.new dir a).path ≠ (Session.new dir b).lockPath ∧
      (Session.new dir b).path ≠ (Session.new dir a).lockPath) ∧
    ((∀ uses, Course a b d uses → Unaffected dir d uses a ∧ Unaffected dir d uses b) ↔
      Separate a b) := by
  refine ⟨separate_iff_paths dir a b, fun h => ⟨fun hsame => ?_, fun hsame => ?_, fun hsame => ?_⟩,
    fun h uses hc => ⟨h.symm.unaffected hd ha hc.symm, h.unaffected hd hb hc⟩⟩
  · obtain ⟨uses, hc, hnot⟩ := exists_affected hne hd ha (.inl hsame)
    exact hnot (h uses hc).2
  · obtain ⟨uses, hc, hnot⟩ := exists_affected hne hd ha (.inr hsame)
    exact hnot (h uses hc).2
  · obtain ⟨uses, hc, hnot⟩ := exists_affected hne.symm hd hb (.inr hsame)
    exact hnot (h uses hc.symm).1

/-- The plan of one file. -/
def planOf (package : String) (file : SourceFile) : Use :=
  .plan .default ⟨"/tmp"⟩ [⟨package, [file]⟩]

theorem affected_of_slash :
    (∃ uses, Course "a/b" "a_b" bareDisk uses ∧
      ¬(Unaffected ⟨"/tmp"⟩ bareDisk uses "a/b" ∧ Unaffected ⟨"/tmp"⟩ bareDisk uses "a_b")) ∧
    ∃ file file', SourceFile.parse ⟨"a_test.go"⟩ (oneTest "p") = .ok file ∧
      SourceFile.parse ⟨"b_test.go"⟩ (oneTest "p_test") = .ok file' ∧
      Unaffected ⟨"/tmp"⟩ bareDisk [("a/b", planOf "p" file), ("c", planOf "p_test" file')] "c" := by
  have hslash : (Session.new ⟨"/tmp"⟩ "a/b").Ready bareDisk :=
    ⟨⟨["tmp", ".test_main_packages_a_b.lock"], rfl, rfl, by decide⟩, [], rfl⟩
  have hline : (Session.new ⟨"/tmp"⟩ "a_b").Ready bareDisk :=
    ⟨⟨["tmp", ".test_main_packages_a_b.lock"], rfl, rfl, by decide⟩, [], rfl⟩
  have hletter : (Session.new ⟨"/tmp"⟩ "c").Ready bareDisk :=
    ⟨⟨["tmp", ".test_main_packages_c.lock"], rfl, rfl, by decide⟩, [], rfl⟩
  constructor
  · -- the two names stand for one record, since a slash is written as an underscore
    by_contra hnone
    have hseparate := (unaffected_iff_separate (by decide) reliable_bareDisk hslash hline).2.1
      fun uses hc => by
        by_contra hnot
        exact hnone ⟨uses, hc, hnot⟩
    exact hseparate.record (by decide +kernel)
  · obtain ⟨file, hf, hpath, -⟩ := exists_oneTest
    obtain ⟨file', hf', hpath', -⟩ := exists_externalTest
    have hclear : ∀ buildId, Clear (Belongs buildId) file ∧ Clear (Belongs buildId) file' :=
      fun buildId => ⟨clear_of_head (by rw [hpath]; decide) buildId,
        clear_of_head (by rw [hpath']; decide) buildId⟩
    have hcourse : Course "a/b" "c" bareDisk
        [("a/b", planOf "p" file), ("c", planOf "p_test" file')] := by
      have hcost : costOf [("a/b", planOf "p" file), ("c", planOf "p_test" file')] = 8 := rfl
      refine ⟨by simp, by simp [planOf, Use.Clear, hclear], ?_⟩
      rw [hcost]
      simpa [planOf, Use.Room] using room_bareDisk (by decide)
    have hseparate : Separate "a/b" "c" :=
      ⟨by decide +kernel, by decide +kernel, by decide +kernel⟩
    exact ⟨file, file', hf, hf',
      ((unaffected_iff_separate (by decide) reliable_bareDisk hslash hletter).2.2 hseparate _
        hcourse).2⟩

end TestWeave.Build
