import Mathlib.Data.Finset.Card
import Mathlib.Data.List.Nodup
import Mathlib.Tactic.NormNum
import TestWeave.Proofs.Files

/-!
# Disks that grow

A plan only adds files: directories stay as they are, and so does every file but the one that is
rewritten. What paths lead to and what is read from the other files is then as before, and there is
always a name left for one more temporary file.

* `Grown`: what a run that only adds files keeps.
* `Room`: more names are tried for a temporary file than there are in its directory;
  `exists_createTemp`: while that is so one can be made.
* `plain_numbered`: the names of temporary files.
-/

namespace TestWeave.Host.Disk

variable {P : Location → Prop} {d d' d₁ d₂ : Disk} {p : Path} {here loc : Location}

/-- What a run keeps that adds files, and rewrites those at `P` only. -/
structure Grown (P : Location → Prop) (d d' : Disk) : Prop where
  cwd : d'.cwd = d.cwd
  system : d'.system = d.system
  directory : ∀ loc, d'.get? loc = some .directory ↔ d.get? loc = some .directory
  file : ∀ loc node, d.get? loc = some node → ¬P loc → d'.get? loc = some node

/-- A file can be written at the path. -/
def Writable (d : Disk) (p : Path) : Prop :=
  ∃ loc, d.resolve p = .ok loc ∧ endsWithSlash p = false ∧ d.get? loc ≠ some .directory

/-! ### Growth -/

theorem Grown.refl (P : Location → Prop) (d : Disk) : Grown P d d :=
  ⟨rfl, rfl, fun _ => Iff.rfl, fun _ _ h _ => h⟩

theorem Grown.trans (h : Grown P d d₁) (h' : Grown P d₁ d₂) : Grown P d d₂ :=
  ⟨h'.cwd.trans h.cwd, h'.system.trans h.system, fun loc => (h'.directory loc).trans (h.directory loc),
    fun loc node hn hp => h'.file loc node (h.file loc node hn hp) hp⟩

theorem Grown.mono {Q : Location → Prop} (h : Grown P d d') (hpq : ∀ loc, P loc → Q loc) :
    Grown Q d d' :=
  ⟨h.cwd, h.system, h.directory, fun loc node hn hq => h.file loc node hn fun hp => hq (hpq loc hp)⟩

/-- Writing a file makes a disk grow. -/
theorem Grown.set {content : ByteArray} {executable : Bool} (hd : d.get? loc ≠ some .directory)
    (hp : P loc ∨ ∀ node, d.get? loc = some node → node = .file content executable) :
    Grown P d (d.set loc (.file content executable)) := by
  have hne : loc ≠ [] := by
    rintro rfl
    exact hd rfl
  refine ⟨rfl, rfl, fun other => ?_, fun other node hn hnot => ?_⟩
  · by_cases ho : other = loc
    · subst ho
      rw [get?_set_self d _ hne]
      simpa using hd
    · rw [get?_set_ne d _ ho]
  · by_cases ho : other = loc
    · subst ho
      have hsame := hp.resolve_left hnot node hn
      rw [get?_set_self d _ hne, hsame]
    · rw [get?_set_ne d _ ho]
      exact hn

/-- So does a new file. -/
theorem Grown.set_of_free {content : ByteArray} {executable : Bool} (h : d.get? loc = none) :
    Grown P d (d.set loc (.file content executable)) :=
  .set (fun hdir => by simp [h] at hdir) (.inr fun node hn => by simp [h] at hn)

/-- A path leads to the same place on a disk that has grown. -/
theorem Grown.walk (h : Grown P d d') (here : Location) (names : List String) (loc : Location) :
    d'.walk here names = .ok loc ↔ d.walk here names = .ok loc := by
  induction names generalizing here with
  | nil => exact Iff.rfl
  | cons name names ih =>
    by_cases hdir : d.get? here = some .directory
    · rw [walk_of_directory _ _ hdir, walk_of_directory _ _ ((h.directory here).2 hdir)]
      split
      · exact ih _
      split
      · exact ih _
      split
      · simp
      · exact ih _
    · have hdir' : d'.get? here ≠ some .directory := fun hd => hdir ((h.directory here).1 hd)
      exact ⟨fun hw => absurd (directory_of_walk hw) hdir',
        fun hw => absurd (directory_of_walk hw) hdir⟩

theorem Grown.resolve (h : Grown P d d') (p : Path) (loc : Location) :
    d'.resolve p = .ok loc ↔ d.resolve p = .ok loc := by
  rw [resolve_eq_ok_iff, resolve_eq_ok_iff, h.cwd, h.walk]

theorem Grown.writable (h : Grown P d d') : d'.Writable p ↔ d.Writable p := by
  unfold Writable
  simp only [h.resolve, ne_eq, h.directory]

theorem Grown.reliable (h : Grown P d d') : d'.Reliable ↔ d.Reliable := by
  rw [Reliable, Reliable, h.system]

theorem Grown.cwdPath (h : Grown P d d') : d'.cwdPath = d.cwdPath := by
  rw [Disk.cwdPath, Disk.cwdPath, h.cwd]

theorem readText_of_file {text : String} {executable : Bool} (hr : d.resolve p = .ok loc)
    (hs : endsWithSlash p = false) (hg : d.get? loc = some (.file text.toUTF8 executable)) :
    d.readText p = .ok text :=
  readText_eq_ok_iff.2 ⟨loc, _, executable, hr, hg, hs, Text.Utf8.decode?_toUTF8 text⟩

/-- A file is read alike by all paths that lead to it. -/
theorem readText_of_same {other : Path} {text : String} (h : d.readText p = .ok text)
    (ho : d.resolve other = d.resolve p) (hs : endsWithSlash other = false) :
    d.readText other = .ok text := by
  obtain ⟨loc, content, executable, hr, hg, -, hd⟩ := readText_eq_ok_iff.1 h
  exact readText_eq_ok_iff.2 ⟨loc, content, executable, ho.trans hr, hg, hs, hd⟩

/-- **A file that is not rewritten** is read as before. -/
theorem Grown.readText (h : Grown P d d') {text : String} (hr : d.readText p = .ok text)
    (hp : ∀ loc, d.resolve p = .ok loc → ¬P loc) : d'.readText p = .ok text := by
  obtain ⟨loc, content, executable, hresolve, hget, -, -⟩ := readText_eq_ok_iff.1 hr
  have hkept := h.file loc _ hget (hp loc hresolve)
  rw [readText_congr hresolve ((h.resolve p loc).2 hresolve) (hkept.trans hget.symm), hr]

/-! ### Files that are opened -/

theorem openForWriting_of_writable (h : d.Writable p) :
    ∃ loc content executable, d.openForWriting p = .ok (loc, content, executable) := by
  obtain ⟨loc, hr, hs, hd⟩ := h
  unfold openForWriting
  rw [hr]
  simp only [bind, Except.bind, hs, Bool.false_eq_true, if_false, pure, Except.pure]
  split
  · contradiction
  · exact ⟨_, _, _, rfl⟩
  · exact ⟨_, _, _, rfl⟩

theorem exists_touch (h : d.Writable p) : ∃ d', d.touch p = .ok d' := by
  obtain ⟨loc, content, executable, ho⟩ := openForWriting_of_writable h
  unfold touch
  rw [ho]
  exact ⟨_, rfl⟩

theorem exists_write (h : d.Writable p) (content : ByteArray) :
    ∃ d', d.write p content = .ok d' := by
  obtain ⟨loc, old, executable, ho⟩ := openForWriting_of_writable h
  unfold write
  rw [ho]
  exact ⟨_, rfl⟩

theorem exists_save (h : d.Writable p) (hd : d.Reliable) (content : ByteArray) :
    ∃ d', d.save p content = (.ok (), d') := by
  obtain ⟨d', hw⟩ := exists_write h content
  exact ⟨d', hd.save_eq hw⟩

/-- Nothing gets in the way of a write at the path. -/
def Savable (d : Disk) (p : Path) : Prop := ∀ content, d.trouble? p content = none

theorem Writable.savable (h : d.Writable p) (hd : d.Reliable) : d.Savable p := by
  intro content
  obtain ⟨loc, old, executable, ho⟩ := openForWriting_of_writable h
  rw [trouble?, ho]
  exact hd ..

theorem Savable.write_eq (h : d.Savable p) (content : ByteArray) :
    d.write p content = .ok (d.save p content).2 := by
  have hsaving := saving_save d p content
  rw [h content] at hsaving
  generalize (d.save p content).2 = t at hsaving ⊢
  cases hsaving with
  | whole hw => exact hw

/-- Opening a file adds it at most. -/
theorem grown_touch (h : d.touch p = .ok d') : Grown P d d' := by
  obtain ⟨loc, content, executable, -, hd, rfl⟩ := touch_eq_ok h
  exact .set (fun hdir => by simpa using hd _ hdir) (.inr hd)

theorem grown_write {content : ByteArray} (h : d.write p content = .ok d')
    (hp : ∀ loc, d.resolve p = .ok loc → P loc) : Grown P d d' := by
  obtain ⟨loc, executable, hr, -, hd, rfl⟩ := write_eq_ok h
  exact .set hd (.inl (hp loc hr))

/-! ### The names in a directory -/

/-- Writing a file adds one name at most. -/
theorem length_namesIn_set (d : Disk) (loc : Location) (node : Node) (dir : Location) :
    ((d.set loc node).namesIn dir).length ≤ (d.namesIn dir).length + 1 := by
  have hkept : ((d.nodes.filter (·.1 != loc)).filterMap fun e =>
      if e.1.dropLast == dir then e.1.getLast? else none).length ≤ (d.namesIn dir).length :=
    (List.filter_sublist.filterMap _).length_le
  rw [namesIn, set, List.filterMap_cons]
  split
  · exact hkept.trans (Nat.le_succ _)
  · exact Nat.succ_le_succ hkept

/-- What is at a location is one of the nodes. -/
theorem mem_nodes (hne : loc ≠ []) (h : d.get? loc ≠ none) : loc ∈ d.nodes.map (·.1) := by
  unfold get? at h
  rw [if_neg (by simpa using hne)] at h
  cases hf : d.nodes.find? (·.1 == loc) with
  | none => simp [hf] at h
  | some e =>
    have he : e.1 = loc := by simpa using List.find?_some hf
    exact he ▸ List.mem_map_of_mem (List.mem_of_find?_eq_some hf)

/-- What is in a directory is there under its name. -/
theorem mem_namesIn {dir : Location} {name : String} (h : d.get? (dir ++ [name]) ≠ none) :
    name ∈ d.namesIn dir := by
  obtain ⟨e, he, hloc⟩ := List.mem_map.1 (mem_nodes (by simp) h)
  exact List.mem_filterMap.2 ⟨e, he, by simp [hloc]⟩

/-! ### Temporary names -/

theorem length_tempMark (k count : Nat) : (tempMark k count).length = count := by
  induction count generalizing k with
  | zero => rfl
  | succ count ih => simp [tempMark, ih]

/-- The digits of numbers. -/
theorem mem_tempDigits (k : Nat) : (tempDigits[k % 62]?).getD '0' ∈ tempDigits := by
  have hlt : k % 62 < tempDigits.length := Nat.mod_lt _ (by decide)
  rw [List.getElem?_eq_getElem hlt]
  exact List.getElem_mem hlt

theorem mem_tempMark {c : Char} {k count : Nat} (h : c ∈ tempMark k count) : c ∈ tempDigits := by
  induction count generalizing k with
  | zero => simp [tempMark] at h
  | succ count ih =>
    rw [tempMark, List.mem_append, List.mem_singleton] at h
    rcases h with h | rfl
    · exact ih h
    · exact mem_tempDigits k

/-- Different numbers are spelled differently, while there are digits enough. -/
theorem tempMark_inj {k k' count : Nat} (hk : k < 62 ^ count) (hk' : k' < 62 ^ count)
    (h : tempMark k count = tempMark k' count) : k = k' := by
  induction count generalizing k k' with
  | zero =>
    have : (62 : Nat) ^ 0 = 1 := rfl
    omega
  | succ count ih =>
    rw [tempMark, tempMark] at h
    obtain ⟨hlead, hlast⟩ := List.append_inj h (by rw [length_tempMark, length_tempMark])
    rw [Nat.pow_succ] at hk hk'
    have hdiv := ih (by omega) (by omega) hlead
    have hlt : k % 62 < tempDigits.length := Nat.mod_lt _ (by decide)
    have hlt' : k' % 62 < tempDigits.length := Nat.mod_lt _ (by decide)
    have hnodup : tempDigits.Nodup := by decide
    rw [List.getElem?_eq_getElem hlt, List.getElem?_eq_getElem hlt'] at hlast
    have hmod : k % 62 = k' % 62 := hnodup.getElem_inj_iff.1 (List.cons.inj hlast).1
    omega

theorem tempDigits_spec : ∀ c ∈ tempDigits, c.utf8Size = 1 ∧ c ≠ '/' ∧ c ≠ '\x00' := by
  have hall : tempDigits.all (fun c => c.utf8Size == 1 && c != '/' && c != '\x00') = true := by
    decide +kernel
  intro c hc
  simpa [and_assoc] using List.all_eq_true.1 hall c hc

/-- A text of characters of one byte has as many bytes as characters. -/
theorem utf8ByteSize_ofList {cs : List Char} (h : ∀ c ∈ cs, c.utf8Size = 1) :
    (String.ofList cs).utf8ByteSize = cs.length := by
  induction cs with
  | nil => rfl
  | cons c cs ih =>
    obtain ⟨hc, hcs⟩ := List.forall_mem_cons.1 h
    rw [String.ofList_cons, String.utf8ByteSize_append, String.utf8ByteSize_singleton, ih hcs, hc,
      List.length_cons]
    omega

/-- All numbered names have one size. -/
theorem utf8ByteSize_tempName (before after : String) (k : Nat) :
    (tempName before after k).utf8ByteSize = before.utf8ByteSize + 6 + after.utf8ByteSize := by
  rw [tempName, String.utf8ByteSize_append, String.utf8ByteSize_append,
    utf8ByteSize_ofList fun c hc => (tempDigits_spec c (mem_tempMark hc)).1, length_tempMark]

theorem mem_tempName {before after : String} {k : Nat} {c : Char}
    (h : c ∈ (tempName before after k).toList) :
    c ∈ before.toList ∨ c ∈ tempDigits ∨ c ∈ after.toList := by
  simp only [tempName, String.toList_append, String.toList_ofList, List.mem_append] at h
  rcases h with (h | h) | h
  · exact .inl h
  · exact .inr (.inl (mem_tempMark h))
  · exact .inr (.inr h)

/-- Names between slashes with a number in the middle. -/
theorem plain_numbered {before after : String} (hb : '/' ∉ before.toList) (ha : '/' ∉ after.toList)
    (k : Nat) : Plain (tempName before after k) := by
  have hslash : ∀ c ∈ (tempName before after k).toList, c ≠ '/' := by
    rintro c hc rfl
    rcases mem_tempName hc with hc | hc | hc
    · exact hb hc
    · exact (tempDigits_spec _ hc).2.1 rfl
    · exact ha hc
  have hsize := utf8ByteSize_tempName before after k
  refine ⟨?_, hslash, fun hs => ?_, fun hs => ?_⟩
  · cases hname : (tempName before after k).toList with
    | nil =>
      have hempty : tempName before after k = "" := by simpa using hname
      rw [hempty] at hsize
      simp at hsize
      omega
    | cons c cs => exact ⟨c, cs, rfl, hslash c (by simp [hname])⟩
  · rw [hs, show ".".utf8ByteSize = 1 from rfl] at hsize
    omega
  · rw [hs, show "..".utf8ByteSize = 2 from rfl] at hsize
    omega

/-- Different names in a directory have different paths. -/
theorem join_inj (dir : Path) {name other : String} (hn : Plain name) (ho : Plain other) :
    dir.join ⟨name⟩ = dir.join ⟨other⟩ ↔ name = other := by
  obtain ⟨lead, -, hjoin⟩ := exists_lead dir
  rw [hjoin _ hn.not_absolute, hjoin _ ho.not_absolute, Path.mk.injEq, String.append_right_inj]

theorem endsWithSlash_join (dir : Path) {name : String} (h : Plain name) :
    endsWithSlash (dir.join ⟨name⟩) = false := by
  obtain ⟨lead, -, hjoin⟩ := exists_lead dir
  obtain ⟨c, cs, hname, -⟩ := h.lead
  have hne : name.toList ≠ [] := by simp [hname]
  rw [hjoin _ h.not_absolute, endsWithSlash, String.toList_append, List.getLast?_append,
    List.getLast?_eq_some_getLast hne]
  simpa using h.slash _ (List.getLast_mem hne)

/-! ### Room for temporary files -/

/-- So many different names at least are among those that are tried for a temporary file, whatever
files there are. -/
def Offers (d : Disk) (n : Nat) : Prop :=
  ∀ nodes, n ≤ ((List.range tempTries).map fun k =>
    tempMark (d.system.draw nodes k) 6).toFinset.card

/-- **There is room for `n` more files** in a directory: that many names are tried besides those that
are taken. -/
def Room (d : Disk) (dir : Path) (n : Nat) : Prop :=
  ∀ name loc, Plain name → d.resolve ((d.cwdPath.join dir).join ⟨name⟩) = .ok loc →
    d.Offers ((d.namesIn loc.dropLast).length + n)

/-- Names that are numbered one after the other are different. -/
theorem offers_default {n : Nat} (h : d.system = {}) (hn : n ≤ tempTries) : d.Offers n := by
  intro nodes
  have hnodup : ((List.range tempTries).map fun k => tempMark k 6).Nodup := by
    have hpow : tempTries < 62 ^ 6 := by norm_num [tempTries]
    refine List.Nodup.map_on (fun k hk k' hk' he => ?_) List.nodup_range
    exact tempMark_inj ((List.mem_range.1 hk).trans hpow) ((List.mem_range.1 hk').trans hpow) he
  rw [h, List.toFinset_card_of_nodup hnodup, List.length_map, List.length_range]
  exact hn

section

variable {dir : Path} {m n : Nat}

theorem Room.mono (h : d.Room dir n) (hmn : m ≤ n) : d.Room dir m :=
  fun name loc hname hr nodes => (Nat.add_le_add_left hmn _).trans (h name loc hname hr nodes)

/-- There is as much less room as names have been added. -/
theorem Room.grown (h : d.Room dir (n + m)) (hg : Grown P d d')
    (hnames : ∀ loc, (d'.namesIn loc).length ≤ (d.namesIn loc).length + m) : d'.Room dir n := by
  intro name loc hname hr nodes
  rw [hg.cwdPath, hg.resolve] at hr
  have hroom := h name loc hname hr nodes
  have hlength := hnames loc.dropLast
  rw [hg.system]
  omega

/-- A file takes one place at most. -/
theorem Room.set {content : ByteArray} {executable : Bool} (h : d.Room dir (n + 1))
    (hd : d.get? loc ≠ some .directory) : (d.set loc (.file content executable)).Room dir n :=
  h.grown (.set (P := fun _ => True) hd (.inl trivial)) fun _ => length_namesIn_set ..

theorem Room.touch (h : d.Room dir (n + 1)) (ht : d.touch p = .ok d') : d'.Room dir n := by
  obtain ⟨loc, content, executable, -, hd, rfl⟩ := touch_eq_ok ht
  exact h.set fun hdir => by simpa using hd _ hdir

theorem Room.write {content : ByteArray} (h : d.Room dir (n + 1)) (hw : d.write p content = .ok d') :
    d'.Room dir n := by
  obtain ⟨loc, executable, -, -, hd, rfl⟩ := write_eq_ok hw
  exact h.set hd

end

/-! ### Temporary files -/

theorem freeName_eq_ok {dir path : Path} {before after : String} {k tries : Nat}
    (h : d.freeName dir before after k tries = .ok (path, loc)) :
    ∃ k, path = dir.join ⟨tempName before after k⟩ ∧ d.resolve path = .ok loc ∧
      d.get? loc = none := by
  induction tries generalizing k with
  | zero => simp [freeName] at h
  | succ tries ih =>
    rw [freeName] at h
    split at h
    · simp at h
    · rename_i found hr
      split at h
      · rename_i hfree
        obtain ⟨rfl, rfl⟩ : dir.join ⟨tempName before after (d.system.draw d.nodes k)⟩ = path ∧
            found = loc := by simpa using h
        exact ⟨_, rfl, hr, hfree⟩
      · exact ih h

theorem exists_freeName {dir : Path} {before after : String} {place : Nat → Location}
    (hr : ∀ k, d.resolve (dir.join ⟨tempName before after k⟩) = .ok (place k)) {k tries : Nat}
    (hfree : ∃ k', k ≤ k' ∧ k' < k + tries ∧ d.get? (place (d.system.draw d.nodes k')) = none) :
    ∃ path loc, d.freeName dir before after k tries = .ok (path, loc) := by
  induction tries generalizing k with
  | zero =>
    obtain ⟨k', hlow, hhigh, -⟩ := hfree
    omega
  | succ tries ih =>
    rw [freeName]
    simp only [hr]
    cases hg : d.get? (place (d.system.draw d.nodes k)) with
    | none => exact ⟨_, _, rfl⟩
    | some node =>
      obtain ⟨k', hlow, hhigh, hnone⟩ := hfree
      have hne : k' ≠ k := by
        rintro rfl
        simp [hg] at hnone
      exact ih ⟨k', by omega, by omega, hnone⟩

/-- A file that is removed again leaves the disk as it was. -/
theorem erase_of_free (h : d.get? loc = none) : d.erase loc = d := by
  have hnone : ∀ e ∈ d.nodes, e.1 ≠ loc := by
    rintro e he rfl
    have hne : e.1 ≠ [] := by
      intro hroot
      rw [hroot] at h
      cases h
    unfold get? at h
    rw [if_neg (by simpa using hne), Option.map_eq_none_iff] at h
    exact List.find?_eq_none.1 h e he (by simp)
  have hfilter : d.nodes.filter (·.1 != loc) = d.nodes :=
    List.filter_eq_self.2 fun e he => by simpa using hnone e he
  rw [erase, hfilter]

theorem erase_set (d : Disk) (loc : Location) (node : Node) :
    (d.set loc node).erase loc = d.erase loc := by
  simp [erase, set]

section

variable {dir path : Path} {before after : String} {content : ByteArray}

/-- **A temporary file is made** at a place that was free. -/
theorem createTemp_eq_ok (h : d.createTemp dir before after content = (.ok path, d')) :
    ∃ k loc, path = (d.cwdPath.join dir).join ⟨tempName before after k⟩ ∧
      d.resolve path = .ok loc ∧ d.get? loc = none ∧ d' = d.set loc (.file content false) := by
  unfold createTemp at h
  cases hn : d.freeName (d.cwdPath.join dir) before after 0 tempTries with
  | error e => simp [hn] at h
  | ok free =>
    obtain ⟨found, loc⟩ := free
    obtain ⟨k, hpath, hr, hfree⟩ := freeName_eq_ok hn
    simp only [hn] at h
    rcases put_cases d loc false content with hp | ⟨cause, hp | ⟨count, hp⟩⟩ <;> simp only [hp] at h
    · cases h
      exact ⟨k, loc, hpath, hr, hfree, rfl⟩
    · cases h
    · cases h

/-- **Of a temporary file that cannot be made** nothing is left. -/
theorem createTemp_eq_error {e : IoError}
    (h : d.createTemp dir before after content = (.error e, d')) : d' = d := by
  unfold createTemp at h
  cases hn : d.freeName (d.cwdPath.join dir) before after 0 tempTries with
  | error e =>
    rw [hn] at h
    exact (Prod.mk.inj h).2.symm
  | ok free =>
    obtain ⟨found, loc⟩ := free
    obtain ⟨k, -, -, hfree⟩ := freeName_eq_ok hn
    simp only [hn] at h
    rcases put_cases d loc false content with hp | ⟨cause, hp | ⟨count, hp⟩⟩ <;> simp only [hp] at h
    · cases h
    · rw [← (Prod.mk.inj h).2, erase_of_free hfree]
    · rw [← (Prod.mk.inj h).2, erase_set, erase_of_free hfree]

theorem grown_createTemp (h : d.createTemp dir before after content = (.ok path, d')) :
    Grown P d d' := by
  obtain ⟨k, loc, -, -, hg, rfl⟩ := createTemp_eq_ok h
  exact .set_of_free hg

/-- **What a temporary file says** is read from it. -/
theorem readText_createTemp {text : String} (hplain : ∀ k, Plain (tempName before after k))
    (h : d.createTemp dir before after text.toUTF8 = (.ok path, d')) :
    d'.readText path = .ok text := by
  obtain ⟨k, loc, hpath, hr, hg, rfl⟩ := createTemp_eq_ok h
  have hdir : d.get? loc ≠ some .directory := by simp [hg]
  have hne : loc ≠ [] := by
    rintro rfl
    exact hdir rfl
  refine readText_of_file (resolve_set hdir hr) ?_ (get?_set_self d _ hne)
  rw [hpath]
  exact endsWithSlash_join _ (hplain k)

end

/-- Where one name for a temporary file leads somewhere, all of them lead next to it. -/
theorem resolve_tempName {dir : Path} {before after : String}
    (hplain : ∀ k, Plain (tempName before after k)) {k : Nat}
    (hr : d.resolve (dir.join ⟨tempName before after k⟩) = .ok loc) (k' : Nat) :
    d.resolve (dir.join ⟨tempName before after k'⟩) =
      .ok (loc.dropLast ++ [tempName before after k']) := by
  have hnul : '\x00' ∈ (tempName before after k').toList →
      '\x00' ∈ (tempName before after k).toList := by
    intro hc
    simp only [tempName, String.toList_append, String.toList_ofList, List.mem_append]
    rcases mem_tempName hc with hc | hc | hc
    · exact .inl (.inl hc)
    · exact absurd rfl (tempDigits_spec _ hc).2.2
    · exact .inr hc
  have hsize : (tempName before after k').utf8ByteSize ≤ (tempName before after k).utf8ByteSize := by
    rw [utf8ByteSize_tempName, utf8ByteSize_tempName]
  obtain ⟨parent, hfound, rfl⟩ := resolve_join (hplain k') (hplain k) hnul hsize hr
  simpa using hfound

/-- **There is a name left** for a temporary file while there is room. -/
theorem exists_unused {before after : String} {n : Nat} {parent : Location}
    (h : d.Offers ((d.namesIn parent).length + (n + 1))) :
    ∃ k < tempTries, d.get? (parent ++ [tempName before after (d.system.draw d.nodes k)]) = none := by
  -- if every name were taken, there would be as many names in the directory
  by_contra hall
  simp only [not_exists, not_and] at hall
  let marks := ((List.range tempTries).map fun k => tempMark (d.system.draw d.nodes k) 6).toFinset
  let name := fun mark : List Char => before ++ String.ofList mark ++ after
  have hinj : Function.Injective name := by
    intro mark mark' he
    have hlist := congrArg String.toList he
    simp only [name, String.toList_append, String.toList_ofList] at hlist
    exact List.append_cancel_left (List.append_cancel_right hlist)
  have hsub : marks.image name ⊆ (d.namesIn parent).toFinset := by
    intro other hother
    obtain ⟨mark, hmark, rfl⟩ := Finset.mem_image.1 hother
    obtain ⟨k, hk, rfl⟩ := List.mem_map.1 (List.mem_toFinset.1 hmark)
    exact List.mem_toFinset.2 (mem_namesIn (hall k (List.mem_range.1 hk)))
  have hcard := (Finset.card_le_card hsub).trans (d.namesIn parent).toFinset_card_le
  rw [Finset.card_image_of_injective _ hinj] at hcard
  have hoffers : (d.namesIn parent).length + (n + 1) ≤ marks.card := h d.nodes
  omega

/-- **A temporary file can be made** while there is room for it and writes get through. -/
theorem exists_createTemp {dir : Path} {before after : String} (content : ByteArray)
    (hd : d.Reliable) (hplain : ∀ k, Plain (tempName before after k))
    (hr : d.resolve ((d.cwdPath.join dir).join ⟨tempName before after 0⟩) = .ok loc)
    (hroom : d.Room dir 1) :
    ∃ path d', d.createTemp dir before after content = (.ok path, d') := by
  obtain ⟨k, hk, hfree⟩ : ∃ k < tempTries,
      d.get? (loc.dropLast ++ [tempName before after (d.system.draw d.nodes k)]) = none :=
    exists_unused (n := 0) (hroom _ loc (hplain 0) hr)
  obtain ⟨path, place, hname⟩ : ∃ path place,
      d.freeName (d.cwdPath.join dir) before after 0 tempTries = .ok (path, place) :=
    exists_freeName (resolve_tempName hplain hr) ⟨k, Nat.zero_le k, by omega, hfree⟩
  unfold createTemp
  simp only [hname, put, hd d.nodes]
  exact ⟨_, _, rfl⟩

end TestWeave.Host.Disk
