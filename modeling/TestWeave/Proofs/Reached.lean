import Mathlib.Logic.Relation
import Mathlib.Order.WellFounded
import TestWeave.Build.WorkTree
import TestWeave.Proofs.Listing
import TestWeave.Proofs.Respelled

/-!
# What a walk through a work directory finds

Configurations may refer to each other in circles, to directories that are not there, and to one
directory in many spellings. The walk ends all the same, and what it has found then is what can be
reached at all.

* `Walk.Visit`: one visit; `Walk.Visit.descends`: there are only so many of them.
* `exists_run`: the visits in turn come to what `collectFrom` says.
* `Walk.Charted`: what holds all the way; `Walk.Charted.visit`: each visit keeps it, and at the end
  `Walk.Charted.everywhere` follows from it.
* `collected_iff_reachable`: the packages that are found.
-/

namespace TestWeave.Build

open Relation TestWeave.Host

/-! ### Directories and what they list -/

/-- Where the import configuration of a directory is. -/
def importcfgOf (dir : Path) : Path := dir.join ⟨importcfgName⟩

/-- The import configuration of a directory lists an archive for a package. Of two lines for one
package the later counts. -/
def ListedIn (d : Disk) (dir : Path) (package : String) (archive : Path) : Prop :=
  ∃ cfg, ImportCfg.read d (importcfgOf dir) = .ok cfg ∧ (package, archive) ∈ cfg.packages

/-- The directories that can be reached: that of the package that was asked for, and from each the
directories below `work` with an archive that its import configuration lists. -/
inductive Reachable (d : Disk) (work : Path) : Path → Prop
  | root : Reachable d work (work.join rootPackageDir)
  | archive {dir package archive parent} : Reachable d work dir → ListedIn d dir package archive →
      archive.parent? = some parent → parent.startsWith work = true → Reachable d work parent

/-- There is a file in the place of the path, even if the path is too long to come to it. -/
def HoldsFile (d : Disk) (p : Path) : Prop :=
  ∃ loc content executable, d.placeOf p = .ok loc ∧ d.get? loc = some (.file content executable)

/-! ### Visits -/

/-- A walk in the middle: where it has been, where it may still go, the next one first, and the
archives that it has found. -/
structure Walk where
  visited : List Path
  pending : List Path
  archives : PackageMap

/-- A walk at its beginning. -/
def Walk.start (work : Path) (importPath : String) : Walk :=
  ⟨[], [work.join rootPackageDir],
    [(importPath, (work.join rootPackageDir).join archiveName)]⟩

/-- The directories below `work` that a configuration refers to. -/
def subdirs (work : Path) (cfg : ImportCfg) : List Path := (archiveDirs cfg).filter (·.startsWith work)

/-- The archives that were found, and those of a configuration for the other packages. -/
def PackageMap.merge (archives : PackageMap) (cfg : ImportCfg) : PackageMap :=
  cfg.packages.foldl (fun m (package, archive) => m.insertNew package archive) archives

/-- Whether the walk has been to a directory, however it was spelled. -/
def Walk.saw (visited : List Path) (dir : Path) : Bool := visited.any dir.same

/-- **One visit.** What was put on the list last is visited first. -/
inductive Walk.Visit (d : Disk) (work : Path) : Walk → Walk → Prop
  | again {visited dir pending archives} : saw visited dir = true →
      Visit d work ⟨visited, dir :: pending, archives⟩ ⟨visited, pending, archives⟩
  | bare {visited dir pending archives} : saw visited dir = false →
      d.isFile (importcfgOf dir) = false →
      Visit d work ⟨visited, dir :: pending, archives⟩ ⟨dir :: visited, pending, archives⟩
  | read {visited dir pending archives cfg} : saw visited dir = false →
      d.isFile (importcfgOf dir) = true → ImportCfg.read d (importcfgOf dir) = .ok cfg →
      Visit d work ⟨visited, dir :: pending, archives⟩
        ⟨dir :: visited, (subdirs work cfg).reverse ++ pending, archives.merge cfg⟩

variable {d : Disk} {work dir p q : Path} {importPath package : String} {archive : Path}
  {w w' : Walk} {all visited pending : List Path} {archives : PackageMap} {cfg : ImportCfg}

/-! ### There are only so many -/

theorem plain_importcfgName : Disk.Plain importcfgName :=
  ⟨⟨'i', "mportcfg".toList, rfl, by decide⟩, by simp [importcfgName], by decide, by decide⟩

/-- A configuration that can be read refers to directories that are mentioned on the disk. -/
theorem archiveDirs_subset (h : ImportCfg.read d (importcfgOf dir) = .ok cfg) :
    archiveDirs cfg ⊆ mentionedDirs d := by
  obtain ⟨text, htext, rfl⟩ := read_eq_ok.1 h
  obtain ⟨loc, content, executable, hr, hg, -, hd⟩ := Disk.readText_eq_ok_iff.1 htext
  obtain ⟨parent, -, rfl⟩ :=
    Disk.resolve_join plain_importcfgName plain_importcfgName id le_rfl hr
  have hnode : (parent ++ [importcfgName], Node.file content executable) ∈ d.nodes := by
    unfold Disk.get? at hg
    rw [if_neg (by simp), Option.map_eq_some_iff] at hg
    obtain ⟨e, he, hnode⟩ := hg
    have hloc : e.1 = parent ++ [importcfgName] := by simpa using List.find?_some he
    rw [← hloc, ← hnode]
    exact List.mem_of_find?_eq_some he
  intro sub hsub
  refine List.mem_flatMap.2 ⟨_, hnode, ?_⟩
  simpa [hd] using hsub

/-- The directories of a list that the walk has not been to. -/
def Walk.unseen (all : List Path) (w : Walk) : List Path := all.filter fun q => !saw w.visited q

/-- Wherever the walk may still go is on the list. -/
def Walk.Known (all : List Path) (w : Walk) : Prop := ∀ dir ∈ w.pending, ∃ q ∈ all, dir.same q = true

theorem saw_congr (h : p.components = q.components) (visited : List Path) :
    Walk.saw visited p = Walk.saw visited q := by
  unfold Walk.saw Path.same
  rw [h]

/-- A directory on the list is not seen if it is among those that are not. -/
theorem any_unseen (h : ∃ q ∈ all, dir.same q = true) :
    (w.unseen all).any dir.same = !Walk.saw w.visited dir := by
  rw [Bool.eq_iff_iff, List.any_eq_true]
  constructor
  · rintro ⟨q, hq, hsame⟩
    rw [saw_congr (Path.same_iff.1 hsame)]
    exact (List.mem_filter.1 hq).2
  · intro hnot
    obtain ⟨q, hq, hsame⟩ := h
    rw [saw_congr (Path.same_iff.1 hsame)] at hnot
    exact ⟨q, List.mem_filter.2 ⟨hq, hnot⟩, hsame⟩

theorem unseen_cons (all : List Path) (w : Walk) (dir : Path) (pending : List Path)
    (archives : PackageMap) :
    (⟨dir :: w.visited, pending, archives⟩ : Walk).unseen all =
      (w.unseen all).filter (!dir.same ·) := by
  unfold Walk.unseen Walk.saw
  rw [List.filter_filter]
  refine List.filter_congr fun q _ => ?_
  have hsymm : q.same dir = dir.same q := Bool.beq_comm
  rw [List.any_cons, Bool.not_or, hsymm]

theorem Walk.Visit.known (h : Walk.Visit d work w w') (hsub : mentionedDirs d ⊆ all)
    (hk : w.Known all) : w'.Known all := by
  cases h with
  | again => exact fun dir hdir => hk dir (List.mem_cons_of_mem _ hdir)
  | bare => exact fun dir hdir => hk dir (List.mem_cons_of_mem _ hdir)
  | read _ _ hread =>
    intro dir hdir
    rcases List.mem_append.1 hdir with hdir | hdir
    · have hmem := List.mem_of_mem_filter (List.mem_reverse.1 hdir)
      exact ⟨dir, hsub (archiveDirs_subset hread hmem), Path.same_iff.2 rfl⟩
    · exact hk dir (List.mem_cons_of_mem _ hdir)

/-- The directories that are left: those it has not been to, and those it may still go to. -/
def Walk.left (all : List Path) (w : Walk) : Nat × Nat := ((w.unseen all).length, w.pending.length)

/-- **Each visit** leaves fewer directories, or as many and a shorter list. -/
theorem Walk.Visit.descends (h : Walk.Visit d work w w') (hk : w.Known all) :
    Prod.Lex (· < ·) (· < ·) (w'.left all) (w.left all) := by
  have hfewer : ∀ {visited dir pending archives pending' archives'},
      saw visited dir = false → (⟨visited, dir :: pending, archives⟩ : Walk).Known all →
      Prod.Lex (· < ·) (· < ·) ((⟨dir :: visited, pending', archives'⟩ : Walk).left all)
        ((⟨visited, dir :: pending, archives⟩ : Walk).left all) := by
    intro visited dir pending archives pending' archives' hnew hk
    refine .left _ _ ?_
    have hany := any_unseen (w := ⟨visited, dir :: pending, archives⟩) (hk dir (by simp))
    rw [hnew] at hany
    obtain ⟨q, hq, hsame⟩ := List.any_eq_true.1 hany
    have hunseen := unseen_cons all ⟨visited, dir :: pending, archives⟩ dir pending' archives'
    rw [hunseen]
    exact List.length_filter_lt_length_iff_exists.2 ⟨q, hq, by simp [hsame]⟩
  cases h with
  | again => exact .right _ (Nat.lt_succ_self _)
  | bare hnew => exact hfewer hnew hk
  | read hnew => exact hfewer hnew hk

/-! ### The visits in turn -/

theorem isFile_of_read (h : ImportCfg.read d (importcfgOf dir) = .ok cfg) :
    d.isFile (importcfgOf dir) = true := by
  obtain ⟨text, htext, -⟩ := read_eq_ok.1 h
  obtain ⟨loc, content, executable, hr, hg, hs, -⟩ := Disk.readText_eq_ok_iff.1 htext
  rw [Disk.isFile, Disk.lookup_eq_ok_iff.2 ⟨loc, hr, hg, by simp [hs]⟩]

theorem holdsFile_of_isFile (h : d.isFile p = true) : HoldsFile d p := by
  unfold Disk.isFile at h
  split at h
  · rename_i content executable hlookup
    obtain ⟨loc, hr, hg, -⟩ := Disk.lookup_eq_ok_iff.1 hlookup
    exact ⟨loc, content, executable, Disk.placeOf_of_resolve hr, hg⟩
  · cases h

/-- **A visit** leads to what the walk would have come to. -/
theorem collectFrom_visit (h : Walk.Visit d work w w') (hk : w.Known all) :
    collectFrom d work (w.unseen all) w.pending w.archives =
      collectFrom d work (w'.unseen all) w'.pending w'.archives := by
  -- the measure of `collectFrom` guards each call, so one equation is unfolded for each visit
  cases h with
  | @again visited dir pending archives hsaw =>
    have hany := any_unseen (w := ⟨visited, dir :: pending, archives⟩) (hk dir (by simp))
    rw [hsaw, Bool.not_true] at hany
    rw [collectFrom, dif_neg (by rw [hany]; exact Bool.false_ne_true)]
    rfl
  | @bare visited dir pending archives hnew hfile =>
    have hany := any_unseen (w := ⟨visited, dir :: pending, archives⟩) (hk dir (by simp))
    rw [hnew, Bool.not_false] at hany
    have hunseen := unseen_cons all ⟨visited, dir :: pending, archives⟩ dir pending archives
    unfold importcfgOf at hfile
    rw [collectFrom, dif_pos hany, hunseen]
    simp only [hfile, Bool.not_false, if_true]
  | @read visited dir pending archives cfg hnew hfile hread =>
    have hany := any_unseen (w := ⟨visited, dir :: pending, archives⟩) (hk dir (by simp))
    rw [hnew, Bool.not_false] at hany
    have hunseen := unseen_cons all ⟨visited, dir :: pending, archives⟩ dir
      ((subdirs work cfg).reverse ++ pending) (archives.merge cfg)
    unfold importcfgOf at hfile hread
    rw [collectFrom, dif_pos hany, hunseen]
    simp only [hfile, hread, Bool.not_true, Bool.false_eq_true, if_false]
    rfl

/-- The configuration that the walk would read next cannot be read. -/
def Walk.Stuck (d : Disk) (w : Walk) (dir : Path) (e : IoError) : Prop :=
  w.pending.head? = some dir ∧ saw w.visited dir = false ∧ d.isFile (importcfgOf dir) = true ∧
    ImportCfg.read d (importcfgOf dir) = .error e

/-- A walk that is not at its end goes on, unless a configuration cannot be read. -/
theorem exists_visit (d : Disk) (work : Path) (h : w.pending ≠ []) :
    (∃ w', Walk.Visit d work w w') ∨ ∃ dir e, w.Stuck d dir e := by
  obtain ⟨visited, pending, archives⟩ := w
  obtain ⟨dir, pending, rfl⟩ := List.exists_cons_of_ne_nil h
  cases hsaw : Walk.saw visited dir with
  | true => exact .inl ⟨_, .again hsaw⟩
  | false =>
    cases hfile : d.isFile (importcfgOf dir) with
    | false => exact .inl ⟨_, .bare hsaw hfile⟩
    | true =>
      cases hread : ImportCfg.read d (importcfgOf dir) with
      | error e => exact .inr ⟨dir, e, rfl, hsaw, hfile, hread⟩
      | ok cfg => exact .inl ⟨_, .read hsaw hfile hread⟩

/-- **The visits in turn** come to an end, and to what is collected. -/
theorem exists_run (hsub : mentionedDirs d ⊆ all) (work : Path) {w : Walk} (hk : w.Known all) :
    ∃ w', ReflTransGen (Walk.Visit d work) w w' ∧
      ((w'.pending = [] ∧
          collectFrom d work (w.unseen all) w.pending w.archives = .ok w'.archives) ∨
        ∃ dir e, w'.Stuck d dir e) := by
  have hwf : WellFounded (Prod.Lex (· < · : ℕ → ℕ → Prop) (· < · : ℕ → ℕ → Prop)) :=
    IsWellFounded.wf
  induction hleft : w.left all using hwf.induction generalizing w with
  | _ left ih =>
    subst hleft
    by_cases hend : w.pending = []
    · refine ⟨w, .refl, .inl ⟨hend, ?_⟩⟩
      rw [hend, collectFrom]
    · rcases exists_visit d work hend with ⟨w₁, hvisit⟩ | hstuck
      · obtain ⟨w', hrun, hout⟩ := ih _ (hvisit.descends hk) (hvisit.known hsub hk) rfl
        rw [← collectFrom_visit hvisit hk] at hout
        exact ⟨w', .head hvisit hrun, hout⟩
      · exact ⟨w, .refl, .inr hstuck⟩

/-! ### What the walk knows -/

theorem find?_insertNew (m : PackageMap) (k : String) (v : Path) (package : String) :
    (m.insertNew k v).find? package =
      (m.find? package).or (if package = k then some v else none) := by
  have hinsert : (m.insert k v).find? package = if package = k then some v else m.find? package :=
    SortedMap.find?_insert (fun _ _ => compare_package) ..
  have hnew : m.insertNew k v = if (m.find? k).isSome then m else m.insert k v := rfl
  rw [hnew]
  by_cases hp : package = k
  · subst hp
    cases hf : m.find? package with
    | none => simp [hinsert]
    | some archive => simp [hf]
  · split <;> simp [hinsert, hp]

/-- **The first archive of a package counts.** -/
theorem find?_merge (archives : PackageMap) (cfg : ImportCfg) (package : String) :
    (archives.merge cfg).find? package =
      (archives.find? package).or (cfg.packages.find? package) := by
  unfold PackageMap.merge
  generalize cfg.packages = packages
  induction packages generalizing archives with
  | nil => exact Option.or_none.symm
  | cons e packages ih =>
    rw [List.foldl_cons, ih, find?_insertNew, find?_cons, Option.or_assoc]
    split <;> rfl

/-- The walk has been to the directory or may still go there, however it was spelled. -/
def Walk.Covers (w : Walk) (p : Path) : Prop :=
  ∃ v ∈ w.visited ++ w.pending, p.components = v.components

theorem Walk.Visit.covers (h : Walk.Visit d work w w') (hp : w.Covers p) : w'.Covers p := by
  obtain ⟨v, hv, hsame⟩ := hp
  cases h with
  | again hsaw =>
    simp only [List.mem_append, List.mem_cons] at hv
    rcases hv with hv | rfl | hv
    · exact ⟨v, List.mem_append_left _ hv, hsame⟩
    · obtain ⟨v', hv', hsame'⟩ := List.any_eq_true.1 hsaw
      exact ⟨v', List.mem_append_left _ hv', hsame.trans (Path.same_iff.1 hsame')⟩
    · exact ⟨v, List.mem_append_right _ hv, hsame⟩
  | bare => exact ⟨v, by simpa [or_left_comm] using hv, hsame⟩
  | read =>
    refine ⟨v, ?_, hsame⟩
    simp only [List.mem_append, List.mem_cons] at hv ⊢
    tauto

/-- **What holds all the way**: the walk only goes to directories that can be reached, what it has
found is listed there, and nothing that is listed where it has been was left out. -/
structure Walk.Charted (d : Disk) (work : Path) (importPath : String) (w : Walk) : Prop where
  reached : ∀ dir ∈ w.visited ++ w.pending, Reachable d work dir
  root : w.Covers (work.join rootPackageDir)
  own : w.archives.find? importPath = some ((work.join rootPackageDir).join archiveName)
  listed : ∀ package archive, w.archives.find? package = some archive →
    package = importPath ∨ ∃ dir, Reachable d work dir ∧ ListedIn d dir package archive
  closed : ∀ v ∈ w.visited, ∀ package archive, ListedIn d v package archive →
    w.archives.contains package = true ∧
      ∀ sub, archive.parent? = some sub → sub.startsWith work = true → w.Covers sub

theorem charted_start (d : Disk) (work : Path) (importPath : String) :
    (Walk.start work importPath).Charted d work importPath where
  reached := by
    intro dir hdir
    obtain rfl : dir = work.join rootPackageDir := by simpa [Walk.start] using hdir
    exact .root
  root := ⟨_, by simp [Walk.start], rfl⟩
  own := by rw [Walk.start, find?_cons, if_pos rfl]
  listed := by
    intro package archive h
    rw [Walk.start, find?_cons] at h
    split at h
    · rename_i hp
      exact .inl hp
    · cases h
  closed := fun v hv => absurd hv List.not_mem_nil

theorem mem_of_find? (h : archives.find? package = some archive) : (package, archive) ∈ archives := by
  obtain ⟨e, he, rfl⟩ := Option.map_eq_some_iff.1 h
  have hkey : compare package e.1 = .eq := by simpa using List.find?_some he
  obtain rfl := compare_package.1 hkey
  exact List.mem_of_find?_eq_some he

/-- Where a visit leads to can be reached. -/
theorem Walk.Visit.reached (h : Walk.Visit d work w w')
    (hr : ∀ dir ∈ w.visited ++ w.pending, Reachable d work dir) :
    ∀ dir ∈ w'.visited ++ w'.pending, Reachable d work dir := by
  intro p hp
  cases h with
  | again =>
    refine hr p ?_
    simp only [List.mem_append, List.mem_cons] at hp ⊢
    tauto
  | bare => exact hr p (by simpa [or_left_comm] using hp)
  | @read visited dir pending archives cfg _ _ hread =>
    have hdir : Reachable d work dir := hr dir (by simp)
    simp only [List.mem_append, List.mem_cons, List.mem_reverse] at hp
    rcases hp with (rfl | hp) | hp | hp
    · exact hdir
    · exact hr p (by simp [hp])
    · obtain ⟨hmem, hwork⟩ := List.mem_filter.1 hp
      obtain ⟨e, he, hparent⟩ := List.mem_filterMap.1 hmem
      exact .archive hdir ⟨cfg, hread, he⟩ hparent hwork
    · exact hr p (by simp [hp])

/-- What was found is kept. -/
theorem Walk.Visit.find? (h : Walk.Visit d work w w')
    (hf : w.archives.find? package = some archive) : w'.archives.find? package = some archive := by
  cases h with
  | again | bare => exact hf
  | read =>
    rw [find?_merge, hf]
    rfl

theorem contains_eq_isSome (archives : PackageMap) (package : String) :
    archives.contains package = (archives.find? package).isSome := rfl

/-- What a visit finds is listed in the directory. -/
theorem Walk.Visit.listed (h : Walk.Visit d work w w')
    (hr : ∀ dir ∈ w.visited ++ w.pending, Reachable d work dir)
    (hf : w'.archives.find? package = some archive) : w.archives.find? package = some archive ∨
      ∃ dir, Reachable d work dir ∧ ListedIn d dir package archive := by
  cases h with
  | again | bare => exact .inl hf
  | @read visited dir pending archives cfg _ _ hread =>
    rw [find?_merge, Option.or_eq_some_iff] at hf
    rcases hf with hf | ⟨-, hf⟩
    · exact .inl hf
    · exact .inr ⟨dir, hr dir (by simp), cfg, hread, mem_of_find? hf⟩

/-- Nothing that is listed in the directory is left out. -/
theorem Walk.Visit.closed (h : Walk.Visit d work w w') (hp : p ∈ w'.visited) :
    p ∈ w.visited ∨ ∀ package archive, ListedIn d p package archive →
      w'.archives.contains package = true ∧
        ∀ sub, archive.parent? = some sub → sub.startsWith work = true → w'.Covers sub := by
  cases h with
  | again => exact .inl hp
  | bare _ hfile =>
    rcases List.mem_cons.1 hp with rfl | hp
    · -- there is nothing to read in the directory
      refine .inr ?_
      rintro package archive ⟨cfg, hread, -⟩
      exact absurd (isFile_of_read hread) (by rw [hfile]; exact Bool.false_ne_true)
    · exact .inl hp
  | @read visited dir pending archives cfg _ _ hread =>
    rcases List.mem_cons.1 hp with rfl | hp
    · refine .inr ?_
      rintro package archive ⟨cfg', hread', hmem⟩
      obtain rfl := Except.ok.inj (hread.symm.trans hread')
      refine ⟨?_, fun sub hparent hwork => ?_⟩
      · rw [contains_eq_isSome, find?_merge, Option.isSome_or, isSome_find?_of_mem hmem,
          Bool.or_true]
      · have hsub : sub ∈ subdirs work cfg :=
          List.mem_filter.2 ⟨List.mem_filterMap.2 ⟨_, hmem, hparent⟩, hwork⟩
        exact ⟨sub, by simp [hsub], rfl⟩
    · exact .inl hp

/-- **Each visit** keeps what holds all the way. -/
theorem Walk.Charted.visit (h : w.Charted d work importPath) (hv : Walk.Visit d work w w') :
    w'.Charted d work importPath where
  reached := hv.reached h.reached
  root := hv.covers h.root
  own := hv.find? h.own
  listed package archive hf := (hv.listed h.reached hf).elim (h.listed package archive) .inr
  closed v hv' := by
    rcases hv.closed hv' with hold | hnew
    · intro package archive hin
      obtain ⟨hfound, hsub⟩ := h.closed v hold package archive hin
      rw [contains_eq_isSome] at hfound ⊢
      obtain ⟨archive', hfound⟩ := Option.isSome_iff_exists.1 hfound
      exact ⟨by rw [hv.find? hfound]; rfl,
        fun sub hparent hwork => hv.covers (hsub sub hparent hwork)⟩
    · exact hnew

theorem Walk.Charted.run (h : w.Charted d work importPath)
    (hw : ReflTransGen (Walk.Visit d work) w w') : w'.Charted d work importPath := by
  induction hw with
  | refl => exact h
  | tail _ hv ih => exact ih.visit hv

/-! ### The end of the walk -/

/-- The import configurations that can be met can be read. This is about files in their places: a
directory is visited under the first spelling of it, and if that is too long to be opened, the file
is not read under a shorter one either. -/
def AllReadable (d : Disk) (work : Path) : Prop :=
  ∀ dir, Reachable d work dir → HoldsFile d (importcfgOf dir) →
    ∃ cfg, ImportCfg.read d (importcfgOf dir) = .ok cfg

/-- Two spellings of a directory list the same, if both can be read. -/
theorem ListedIn.respell (h : ListedIn d p package archive) (hsame : p.components = q.components)
    (hq : HoldsFile d (importcfgOf q) → ∃ cfg, ImportCfg.read d (importcfgOf q) = .ok cfg) :
    ListedIn d q package archive := by
  obtain ⟨cfg, hread, hmem⟩ := h
  obtain ⟨text, htext, rfl⟩ := read_eq_ok.1 hread
  obtain ⟨loc, content, executable, hr, hg, -⟩ := Disk.readText_eq_ok_iff.1 htext
  have hplace : d.placeOf (importcfgOf p) = d.placeOf (importcfgOf q) :=
    Disk.placeOf_join_congr plain_importcfgName hsame
  have hthere := Disk.placeOf_of_resolve hr
  rw [hplace] at hthere
  obtain ⟨cfg', hread'⟩ := hq ⟨loc, content, executable, hthere, hg⟩
  obtain ⟨text', htext', rfl⟩ := read_eq_ok.1 hread'
  rw [Disk.readText_of_place htext htext' hplace] at hmem
  exact ⟨_, hread', hmem⟩

/-- **At its end the walk has been everywhere** that can be reached. -/
theorem Walk.Charted.everywhere (h : w.Charted d work importPath) (hend : w.pending = [])
    (hr : AllReadable d work) (hdir : Reachable d work dir) :
    ∃ v ∈ w.visited, dir.components = v.components := by
  have hvisited : ∀ p, w.Covers p → ∃ v ∈ w.visited, p.components = v.components := by
    rintro p ⟨v, hv, hsame⟩
    rw [hend, List.append_nil] at hv
    exact ⟨v, hv, hsame⟩
  induction hdir with
  | root => exact hvisited _ h.root
  | archive _ hin hparent hwork ih =>
    obtain ⟨v, hv, hsame⟩ := ih
    have hv' := h.reached v (List.mem_append_left _ hv)
    exact hvisited _ ((h.closed v hv _ _ (hin.respell hsame (hr v hv'))).2 _ hparent hwork)

/-- **The packages that it has found then.** -/
theorem Walk.Charted.contains_iff (h : w.Charted d work importPath) (hend : w.pending = [])
    (hr : AllReadable d work) : w.archives.contains package = true ↔ package = importPath ∨
      ∃ dir archive, Reachable d work dir ∧ ListedIn d dir package archive := by
  constructor
  · intro hc
    obtain ⟨archive, hfind⟩ := Option.isSome_iff_exists.1 hc
    exact (h.listed package archive hfind).imp_right
      fun ⟨dir, hdir, hin⟩ => ⟨dir, archive, hdir, hin⟩
  · rintro (rfl | ⟨dir, archive, hdir, hin⟩)
    · exact Option.isSome_iff_exists.2 ⟨_, h.own⟩
    · obtain ⟨v, hv, hsame⟩ := h.everywhere hend hr hdir
      have hv' := h.reached v (List.mem_append_left _ hv)
      exact (h.closed v hv _ _ (hin.respell hsame (hr v hv'))).1

/-- The walk stops at a file only, and those can be read. -/
theorem Walk.Charted.not_stuck (h : w.Charted d work importPath) (hr : AllReadable d work)
    {e : IoError} : ¬w.Stuck d dir e := by
  rintro ⟨hhead, -, hfile, herror⟩
  have hdir := h.reached dir (List.mem_append_right _ (List.mem_of_mem_head? hhead))
  obtain ⟨cfg, hread⟩ := hr dir hdir (holdsFile_of_isFile hfile)
  cases hread.symm.trans herror

theorem known_start (d : Disk) (work : Path) (importPath : String) :
    (Walk.start work importPath).Known (work.join rootPackageDir :: mentionedDirs d) := by
  intro dir hdir
  exact ⟨dir, by simpa [Walk.start] using Or.inl hdir, Path.same_iff.2 rfl⟩

/-- **No walk goes on for ever.** -/
theorem not_exists_endless (hsub : mentionedDirs d ⊆ all) (hk : w.Known all) :
    ¬∃ walk : ℕ → Walk, walk 0 = w ∧ ∀ n, Walk.Visit d work (walk n) (walk (n + 1)) := by
  rintro ⟨walk, rfl, hvisit⟩
  have hall : ∀ n, (walk n).Known all := by
    intro n
    induction n with
    | zero => exact hk
    | succ n ih => exact (hvisit n).known hsub ih
  obtain ⟨n, hn⟩ := WellFounded.not_rel_apply_succ
    (r := Prod.Lex (· < · : ℕ → ℕ → Prop) (· < · : ℕ → ℕ → Prop)) fun n => (walk n).left all
  exact hn ((hvisit n).descends (hall n))

/-- **What is found in a work directory.** The walk ends, whatever the configurations refer to. If
those that it meets can be read, the packages that are found are the one that was asked for and all
that are listed in a directory that can be reached. The archive of the former is that of the first
directory, and the archive of any other is one that such a directory lists for it. -/
theorem collected_iff_reachable (d : Disk) (work : Path) (importPath : String) :
    (¬∃ walk : ℕ → Walk, walk 0 = .start work importPath ∧
      ∀ n, Walk.Visit d work (walk n) (walk (n + 1))) ∧
    (AllReadable d work → ∃ visited archives,
      ReflTransGen (Walk.Visit d work) (.start work importPath) ⟨visited, [], archives⟩ ∧
      collectArchives d work importPath = .ok archives ∧
      (∀ package, archives.contains package = true ↔ package = importPath ∨
        ∃ dir archive, Reachable d work dir ∧ ListedIn d dir package archive) ∧
      archives.find? importPath = some ((work.join rootPackageDir).join archiveName) ∧
      ∀ package archive, package ≠ importPath → archives.find? package = some archive →
        ∃ dir, Reachable d work dir ∧ ListedIn d dir package archive) := by
  have hsub : mentionedDirs d ⊆ work.join rootPackageDir :: mentionedDirs d :=
    List.subset_cons_self ..
  have hknown := known_start d work importPath
  refine ⟨not_exists_endless hsub hknown, fun hr => ?_⟩
  obtain ⟨⟨visited, pending, archives⟩, hrun, hout⟩ := exists_run hsub work hknown
  have hcharted := (charted_start d work importPath).run hrun
  rcases hout with ⟨hend, hcollect⟩ | ⟨dir, e, hstuck⟩
  · obtain rfl : pending = [] := hend
    -- at the beginning it has been nowhere
    have hunseen : (Walk.start work importPath).unseen
        (work.join rootPackageDir :: mentionedDirs d) = work.join rootPackageDir :: mentionedDirs d :=
      List.filter_eq_self.2 fun _ _ => rfl
    rw [hunseen] at hcollect
    exact ⟨visited, archives, hrun, hcollect, fun package => hcharted.contains_iff rfl hr,
      hcharted.own,
      fun package archive hne hfind => (hcharted.listed package archive hfind).resolve_left hne⟩
  · exact absurd hstuck (hcharted.not_stuck hr)

/-- What the first of two packages is built from, and what the second is. -/
def firstCfg : String := "packagefile dep=/w/b002/_pkg_.a\n"

@[inherit_doc firstCfg]
def secondCfg : String := "packagefile sdk=/w/./b001/_pkg_.a\npackagefile fmt=/go/fmt.a\n"

/-- A work directory with two configurations that refer to each other. -/
def circularDisk : Disk where
  nodes := [(["w"], .directory), (["w", "b001"], .directory), (["w", "b002"], .directory),
    (["w", "b001", "importcfg"], .file firstCfg.toUTF8 false),
    (["w", "b002", "importcfg"], .file secondCfg.toUTF8 false)]
  cwd := []

theorem packages_firstCfg :
    (ImportCfg.parse firstCfg).packages = [("dep", ⟨"/w/b002/_pkg_.a"⟩)] := by
  decide +kernel

theorem packages_secondCfg : (ImportCfg.parse secondCfg).packages =
    [("fmt", ⟨"/go/fmt.a"⟩), ("sdk", ⟨"/w/./b001/_pkg_.a"⟩)] := by
  decide +kernel

/-- The second package is seen from the first, and the first from the second. -/
theorem read_circularDisk (h : dir = ⟨"/w/b001"⟩ ∨ dir = ⟨"/w/b002"⟩ ∨ dir = ⟨"/w/./b001"⟩) :
    ImportCfg.read circularDisk (importcfgOf dir) =
      .ok (.parse (if dir = ⟨"/w/b002"⟩ then secondCfg else firstCfg)) := by
  have hfirst : circularDisk.get? ["w", "b001", "importcfg"] = some (.file firstCfg.toUTF8 false) :=
    rfl
  have hsecond : circularDisk.get? ["w", "b002", "importcfg"] = some (.file secondCfg.toUTF8 false) :=
    rfl
  rcases h with rfl | rfl | rfl
  · rw [if_neg (by decide)]
    exact read_eq_ok.2 ⟨_, Disk.readText_of_file (by decide) (by decide) hfirst, rfl⟩
  · rw [if_pos rfl]
    exact read_eq_ok.2 ⟨_, Disk.readText_of_file (by decide) (by decide) hsecond, rfl⟩
  · rw [if_neg (by decide)]
    exact read_eq_ok.2 ⟨_, Disk.readText_of_file (by decide) (by decide) hfirst, rfl⟩

theorem reachable_circularDisk (h : Reachable circularDisk ⟨"/w"⟩ dir) :
    dir = ⟨"/w/b001"⟩ ∨ dir = ⟨"/w/b002"⟩ ∨ dir = ⟨"/w/./b001"⟩ := by
  induction h with
  | root => exact .inl (by decide)
  | @archive dir package archive parent _ hin hparent hwork ih =>
    obtain ⟨cfg, hread, hmem⟩ := hin
    obtain rfl := Except.ok.inj ((read_circularDisk ih).symm.trans hread)
    split at hmem
    · rw [packages_secondCfg] at hmem
      rcases List.mem_cons.1 hmem with hmem | hmem
      · -- the archive is not in the work directory
        obtain ⟨rfl, rfl⟩ := Prod.ext_iff.1 hmem
        have hgo : Path.parent? ⟨"/go/fmt.a"⟩ = some ⟨"/go"⟩ := by decide
        obtain rfl : (⟨"/go"⟩ : Path) = parent := Option.some.inj (hgo.symm.trans hparent)
        exact absurd hwork (by decide)
      · obtain ⟨rfl, rfl⟩ := Prod.ext_iff.1 (List.mem_singleton.1 hmem)
        have hback : Path.parent? ⟨"/w/./b001/_pkg_.a"⟩ = some ⟨"/w/./b001"⟩ := by decide
        exact .inr (.inr (Option.some.inj (hparent.symm.trans hback)))
    · rw [packages_firstCfg] at hmem
      obtain ⟨rfl, rfl⟩ := Prod.ext_iff.1 (List.mem_singleton.1 hmem)
      have hdep : Path.parent? ⟨"/w/b002/_pkg_.a"⟩ = some ⟨"/w/b002"⟩ := by decide
      exact .inr (.inl (Option.some.inj (hparent.symm.trans hdep)))

theorem collected_in_a_circle : AllReadable circularDisk ⟨"/w"⟩ ∧ ∃ archives,
    collectArchives circularDisk ⟨"/w"⟩ "sdk" = .ok archives ∧
    (∀ package ∈ ["sdk", "dep", "fmt"], archives.contains package = true) ∧
    archives.find? "sdk" = some ⟨"/w/b001/_pkg_.a"⟩ := by
  have hreadable : AllReadable circularDisk ⟨"/w"⟩ :=
    fun dir hdir _ => ⟨_, read_circularDisk (reachable_circularDisk hdir)⟩
  obtain ⟨-, archives, -, hcollect, hcontains, hown, -⟩ :=
    (collected_iff_reachable circularDisk ⟨"/w"⟩ "sdk").2 hreadable
  refine ⟨hreadable, archives, hcollect, fun package hpackage => (hcontains package).2 ?_, hown⟩
  -- the two directories list archives in each other
  have hfirst : Reachable circularDisk ⟨"/w"⟩ ⟨"/w/b001"⟩ := .root
  have hdep : ListedIn circularDisk ⟨"/w/b001"⟩ "dep" ⟨"/w/b002/_pkg_.a"⟩ := by
    refine ⟨_, read_circularDisk (.inl rfl), ?_⟩
    rw [if_neg (by decide), packages_firstCfg]
    exact List.mem_singleton_self _
  have hsecond : Reachable circularDisk ⟨"/w"⟩ ⟨"/w/b002"⟩ :=
    .archive hfirst hdep (by decide) (by decide)
  have hfmt : ListedIn circularDisk ⟨"/w/b002"⟩ "fmt" ⟨"/go/fmt.a"⟩ := by
    refine ⟨_, read_circularDisk (.inr (.inl rfl)), ?_⟩
    rw [if_pos rfl, packages_secondCfg]
    exact List.mem_cons_self
  simp only [List.mem_cons, List.not_mem_nil, or_false] at hpackage
  rcases hpackage with rfl | rfl | rfl
  · exact .inl rfl
  · exact .inr ⟨_, _, hfirst, hdep⟩
  · exact .inr ⟨_, _, hsecond, hfmt⟩

end TestWeave.Build
