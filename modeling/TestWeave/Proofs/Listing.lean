import TestWeave.Build.ImportCfg
import TestWeave.Proofs.Record

/-!
# Import configurations that are written and read

A configuration that is written lists what it listed, and the packages that were added to it.

* `SortedMap.find?_insert`, `SortedMap.mem_insert`: maps that are written to.
* `packages_parse_render`: the packages of a configuration that is read back.
* `packages_parse_recordText`: a record of units, read as a configuration.
* `addAll_spec`: the archives of a configuration that packages were added to.
-/

namespace TestWeave.SortedMap

variable {κ ν : Type} {cmp : κ → κ → Ordering}

/-- What a key has in a map where a key was written, if keys compare equal that agree in `f`. -/
theorem find?_insert_of_eq {α : Type} [DecidableEq α] {f : κ → α}
    (hcmp : ∀ a b, cmp a b = .eq ↔ f a = f b) (k : κ) (v : ν) (m : List (κ × ν)) (k' : κ) :
    find? cmp k' (insert cmp k v m) = if f k' = f k then some v else find? cmp k' m := by
  have hbeq : ∀ a b, (cmp a b == .eq) = decide (f a = f b) := by
    intro a b
    rw [beq_eq_decide]
    exact decide_eq_decide.2 (hcmp a b)
  induction m with
  | nil =>
    by_cases hk : f k' = f k <;> simp [insert, find?, hbeq, hk]
  | cons e m ih =>
    unfold find? at ih ⊢
    unfold insert
    cases hc : cmp k e.1 with
    | lt =>
      by_cases hk : f k' = f k <;> simp [hbeq, hk]
    | eq =>
      have hkey := (hcmp _ _).1 hc
      by_cases hk : f k' = f e.1 <;> simp [hbeq, hk, hkey]
    | gt =>
      -- the key is written further behind
      have hne : f k ≠ f e.1 := by
        intro he
        rw [(hcmp _ _).2 he] at hc
        simp at hc
      by_cases he : f k' = f e.1
      · have hk : f k' ≠ f k := fun hk => hne (hk.symm.trans he)
        simp [hbeq, he, hne.symm]
      · simpa [hbeq, he] using ih

/-- What a key has in a map where a key was written, if only equal keys compare equal. -/
theorem find?_insert [DecidableEq κ] (hcmp : ∀ a b, cmp a b = .eq ↔ a = b) (k : κ) (v : ν)
    (m : List (κ × ν)) (k' : κ) :
    find? cmp k' (insert cmp k v m) = if k' = k then some v else find? cmp k' m :=
  find?_insert_of_eq (f := id) hcmp k v m k'

/-- The keys and the values of a map where a key was written. -/
theorem mem_insert {k : κ} {v : ν} {m : List (κ × ν)} {e : κ × ν} (h : e ∈ insert cmp k v m) :
    (e.1 = k ∨ ∃ e' ∈ m, e'.1 = e.1) ∧ (e.2 = v ∨ ∃ e' ∈ m, e'.2 = e.2) := by
  induction m with
  | nil =>
    obtain rfl : e = (k, v) := by simpa [insert] using h
    exact ⟨.inl rfl, .inl rfl⟩
  | cons e' m ih =>
    have hold : e ∈ e' :: m → (e.1 = k ∨ ∃ e'' ∈ e' :: m, e''.1 = e.1) ∧
        (e.2 = v ∨ ∃ e'' ∈ e' :: m, e''.2 = e.2) :=
      fun he => ⟨.inr ⟨e, he, rfl⟩, .inr ⟨e, he, rfl⟩⟩
    unfold insert at h
    split at h
    · rcases List.mem_cons.1 h with rfl | h
      · exact ⟨.inl rfl, .inl rfl⟩
      · exact hold h
    · rcases List.mem_cons.1 h with rfl | h
      · exact ⟨.inr ⟨e', by simp, rfl⟩, .inl rfl⟩
      · exact hold (List.mem_cons_of_mem _ h)
    · rcases List.mem_cons.1 h with rfl | h
      · exact hold (by simp)
      · obtain ⟨hkey, hvalue⟩ := ih h
        exact ⟨hkey.imp_right fun ⟨e'', hm, he⟩ => ⟨e'', List.mem_cons_of_mem _ hm, he⟩,
          hvalue.imp_right fun ⟨e'', hm, he⟩ => ⟨e'', List.mem_cons_of_mem _ hm, he⟩⟩

end TestWeave.SortedMap

namespace TestWeave.Build

open TestWeave.Host TestWeave.Source TestWeave.Text

/-! ### Lines -/

/-- A blank at the end of a text does not count. -/
theorem trim_concat (cs : List Char) {c : Char} (h : isBlank c = true) :
    trim (String.ofList (cs ++ [c])) = trim (String.ofList cs) := by
  rw [← String.toList_inj, toList_trim, toList_trim, String.toList_ofList, String.toList_ofList,
    List.dropWhile_append]
  split
  · rename_i hempty
    have hnil : cs.dropWhile isBlank = [] := by simpa using hempty
    rw [hnil, List.dropWhile_cons_of_pos h]
    rfl
  · exact List.rdropWhile_concat_pos _ _ _ h

theorem trim_dropReturn (line : List Char) :
    trim (String.ofList (dropReturn line)) = trim (String.ofList line) := by
  unfold dropReturn
  split
  · rename_i hlast
    obtain ⟨cs, rfl⟩ := List.getLast?_eq_some_iff.1 hlast
    rw [List.dropLast_concat, trim_concat cs (by decide)]
  · rfl

/-- The package of a line does not depend on the blanks at its ends. -/
theorem packageLine?_congr {line line' : String} (h : trim line = trim line') :
    packageLine? line = packageLine? line' := by
  rw [packageLine?, packageLine?, h]

/-- A line without anything but blanks lists no package. -/
theorem packageLine?_blank {line : String} (h : trim line = "") : packageLine? line = none := by
  rw [packageLine?, h]
  rfl

/-- A package and its archive that a line can list. -/
structure Listable (package archive : String) : Prop where
  trim_package : trim package = package
  trim_archive : trim archive = archive
  no_equals : '=' ∉ package.toList
  package_breakless : '\n' ∉ package.toList
  archive_breakless : '\n' ∉ archive.toList

/-- The ends of a text without blanks there. -/
theorem ends_of_trim {s : String} (h : trim s = s) :
    (∀ c ∈ s.toList.head?, isBlank c = false) ∧ ∀ c ∈ s.toList.getLast?, isBlank c = false :=
  h ▸ ends_trim s

/-- The line that lists a package. -/
def listing (package archive : String) : String := s!"{packageWord} {package}={archive}"

theorem toList_listing (package archive : String) : (listing package archive).toList =
    packageWord.toList ++ ' ' :: (package.toList ++ '=' :: archive.toList) := by
  simp [listing, ToString.toString]

theorem listed_listing {package archive : String} (h : Listable package archive) :
    Listed (listing package archive) := by
  have hlist := toList_listing package archive
  refine ⟨fun hempty => ?_, fun c hc => ?_, fun c hc => ?_, fun hc => ?_⟩
  · rw [hempty] at hlist
    simp [packageWord] at hlist
  · rw [hlist] at hc
    obtain rfl : 'p' = c := by simpa [packageWord] using hc
    decide
  · -- where the archive is empty, the line ends with the sign in front of it
    rw [hlist, List.getLast?_append, List.getLast?_cons, List.getLast?_append] at hc
    cases harchive : archive.toList.getLast? with
    | none =>
      have hnil : archive.toList = [] := by simpa using harchive
      obtain rfl : '=' = c := by simpa [hnil] using hc
      decide
    | some last =>
      have hlast : ('=' :: archive.toList).getLast? = some last := by
        rw [List.getLast?_cons, harchive]
        rfl
      obtain rfl : last = c := by simpa [hlast] using hc
      exact (ends_of_trim h.trim_archive).2 last harchive
  · rw [hlist] at hc
    simp only [List.mem_append, List.mem_cons] at hc
    rcases hc with hc | hc | hc | hc | hc
    · exact absurd hc (by decide)
    · exact absurd hc (by decide)
    · exact h.package_breakless hc
    · exact absurd hc (by decide)
    · exact h.archive_breakless hc

/-- **The package of a line** that lists one. -/
theorem packageLine?_listing {package archive : String} (h : Listable package archive) :
    packageLine? (listing package archive) = some (package, archive) := by
  have hrest : dropLead packageWord (listing package archive) =
      some (String.ofList (' ' :: (package.toList ++ '=' :: archive.toList))) := by
    rw [dropLead, afterLead_eq_some_iff.2 (toList_listing package archive)]
    rfl
  have hstart : trimStart (String.ofList (' ' :: (package.toList ++ '=' :: archive.toList))) =
      String.ofList (package.toList ++ '=' :: archive.toList) := by
    have hhead : ∀ c ∈ (package.toList ++ '=' :: archive.toList).head?, isBlank c = false := by
      intro c hc
      cases hp : package.toList with
      | nil =>
        obtain rfl : '=' = c := by simpa [hp] using hc
        decide
      | cons c' cs =>
        obtain rfl : c' = c := by simpa [hp] using hc
        exact (ends_of_trim h.trim_package).1 c' (by rw [hp]; rfl)
    rw [trimStart, String.toList_ofList, List.dropWhile_cons_of_pos (by decide)]
    cases hp : package.toList ++ '=' :: archive.toList with
    | nil => rfl
    | cons c cs =>
      rw [List.dropWhile_cons_of_neg]
      simpa using hhead c (by rw [hp]; rfl)
  have hsplit : splitOnce '=' (String.ofList (package.toList ++ '=' :: archive.toList)) =
      some (package, archive) := by
    have hlist : (String.ofList (package.toList ++ '=' :: archive.toList)).toList =
        package.toList ++ '=' :: archive.toList := String.toList_ofList
    rw [splitOnce_eq_some hlist h.no_equals, String.ofList_toList, String.ofList_toList]
  have hhead : (String.ofList (' ' :: (package.toList ++ '=' :: archive.toList))).toList.head? =
      some ' ' := by
    rw [String.toList_ofList]
    rfl
  have hblank : isBlank ' ' = true := by decide
  -- the parts stay as they are spelled
  generalize String.ofList (' ' :: (package.toList ++ '=' :: archive.toList)) = rest
    at hrest hstart hhead
  generalize String.ofList (package.toList ++ '=' :: archive.toList) = body at hstart hsplit
  unfold packageLine?
  rw [(listed_listing h).trim_eq, hrest]
  simp [hhead, hblank, hstart, hsplit, h.trim_package, h.trim_archive, guard]

/-! ### Configurations -/

theorem compare_package {a b : String} : compare a b = .eq ↔ a = b :=
  ⟨Std.LawfulEqOrd.eq_of_compare, fun h => h ▸ Std.ReflOrd.compare_self⟩

/-- A configuration whose packages are those of its lines, none of which is broken. -/
structure ImportCfg.Faithful (cfg : ImportCfg) : Prop where
  packages : cfg.packages = ImportCfg.packagesOf cfg.lines
  breakless : ∀ line ∈ cfg.lines, '\n' ∉ line.toList

theorem faithful_parse (text : String) : (ImportCfg.parse text).Faithful :=
  ⟨rfl, fun _ => breakless_of_mem_lines⟩

theorem packagesOf_append (lines : List String) {line package archive : String}
    (h : packageLine? line = some (package, archive)) :
    ImportCfg.packagesOf (lines ++ [line]) =
      (ImportCfg.packagesOf lines).insert package ⟨archive⟩ := by
  unfold ImportCfg.packagesOf
  rw [List.filterMap_append, List.foldl_append]
  simp [h]

theorem read_eq_ok {d : Disk} {path : Path} {cfg : ImportCfg} : ImportCfg.read d path = .ok cfg ↔
    ∃ text, d.readText path = .ok text ∧ ImportCfg.parse text = cfg := by
  unfold ImportCfg.read
  cases d.readText path <;> simp [bind, Except.bind, pure, Except.pure]

/-- What lists packages lists them under any line ends. -/
theorem packagesOf_congr {lines lines' : List String}
    (h : lines.map packageLine? = lines'.map packageLine?) :
    ImportCfg.packagesOf lines = ImportCfg.packagesOf lines' := by
  have hmap : lines.filterMap packageLine? = lines'.filterMap packageLine? := by
    have hid : ∀ ls : List String, ls.filterMap packageLine? = (ls.map packageLine?).filterMap id := by
      intro ls
      rw [List.filterMap_map]
      rfl
    rw [hid, hid, h]
  rw [ImportCfg.packagesOf, hmap, ImportCfg.packagesOf]

/-- The lines of a configuration that is written. -/
theorem lines_render {cfg : ImportCfg} (h : ∀ line ∈ cfg.lines, '\n' ∉ line.toList) :
    lines cfg.render = cfg.lines.map fun line => String.ofList (dropReturn line.toList) := by
  have htext : cfg.render.toList =
      (cfg.lines.map String.toList).flatMap fun p => p ++ ['\n'] := by
    unfold ImportCfg.render
    generalize cfg.lines = ls
    induction ls with
    | nil => rfl
    | cons line ls ih => simp [ih]
  have hpieces : ∀ p ∈ cfg.lines.map String.toList, '\n' ∉ p := by
    intro p hp
    obtain ⟨line, hline, rfl⟩ := List.mem_map.1 hp
    exact h line hline
  rw [lines, charLines, htext, splitWhere_lines hpieces]
  simp

/-- **A configuration that is written** lists its packages when it is read. -/
theorem packages_parse_render {cfg : ImportCfg} (h : cfg.Faithful) :
    (ImportCfg.parse cfg.render).packages = cfg.packages := by
  rw [h.packages, ImportCfg.parse, lines_render h.breakless]
  refine packagesOf_congr ?_
  rw [List.map_map]
  refine List.map_congr_left fun line _ => packageLine?_congr ?_
  rw [trim_dropReturn, String.ofList_toList]

/-- A line that is trimmed, or left out where nothing is left of it, lists the same packages. -/
theorem filterMap_packageLine?_trim (ls : List String) :
    ((ls.map trim).filter (!·.isEmpty)).filterMap packageLine? = ls.filterMap packageLine? := by
  induction ls with
  | nil => rfl
  | cons line ls ih =>
    rw [List.map_cons]
    by_cases hempty : trim line = ""
    · rw [List.filterMap_cons_none (packageLine?_blank hempty),
        List.filter_cons_of_neg (by simp [hempty]), ih]
    · rw [List.filter_cons_of_pos (by simpa using hempty), List.filterMap_cons,
        List.filterMap_cons, packageLine?_congr (trim_trim line), ih]

/-- The lines of a record list what the lines of its text list. -/
theorem packages_parse (text : String) :
    (ImportCfg.parse text).packages = ImportCfg.packagesOf (unitsOf text) := by
  rw [ImportCfg.parse, ImportCfg.packagesOf, ImportCfg.packagesOf, unitsOf,
    filterMap_packageLine?_trim]

/-- The name of a unit lists no package. -/
theorem packageLine?_of_isName {unit : String} (h : IsName unit) : packageLine? unit = none := by
  rw [packageLine?, (listed_of_isName h).trim_eq]
  cases hd : dropLead packageWord unit with
  | none => rfl
  | some rest =>
    obtain ⟨cs, hcs, rfl⟩ := Option.map_eq_some_iff.1 hd
    have hunit := afterLead_eq_some_iff.1 hcs
    cases cs with
    | nil => rfl
    | cons c cs =>
      have hpart : isIdentPart c = true := h.forall_mem c (by rw [hunit]; simp)
      simp [not_isBlank_of_isIdentPart hpart, guard]

/-- **A unit that is recorded** leaves the packages of the record as they are. -/
theorem packages_parse_recordText {units : List String} {unit : String}
    (hl : ∀ u ∈ units, Listed u) (hu : IsName unit) :
    (ImportCfg.parse (recordText (units ++ [unit]))).packages = ImportCfg.packagesOf units := by
  have hall := listed_concat hl (listed_of_isName hu)
  rw [packages_parse, unitsOf_recordText hall, ImportCfg.packagesOf, List.filterMap_append,
    List.filterMap_cons_none (packageLine?_of_isName hu), List.filterMap_nil, List.append_nil,
    ImportCfg.packagesOf]

/-- **A package that is added** is listed, and all others are as before. -/
theorem add?_spec {cfg cfg' : ImportCfg} {package : String} {archive : Path}
    (hl : Listable package archive.text) (h : cfg.add? package archive = some cfg') :
    (cfg.Faithful → cfg'.Faithful) ∧ ∀ other,
      cfg'.archive? other = if other = package then some archive else cfg.archive? other := by
  unfold ImportCfg.add? at h
  split at h
  · simp at h
  · obtain rfl := Option.some.inj h
    refine ⟨fun hf => ⟨?_, fun line hline => ?_⟩, fun other => ?_⟩
    · rw [hf.packages]
      exact (packagesOf_append cfg.lines (packageLine?_listing hl)).symm
    · rcases List.mem_append.1 hline with hline | hline
      · exact hf.breakless line hline
      · rw [List.mem_singleton.1 hline]
        exact (listed_listing hl).breakless
    · exact SortedMap.find?_insert (fun _ _ => compare_package) ..

/-- A package that is listed has an archive. -/
theorem isSome_find?_of_mem {archives : PackageMap} {e : String × Path} (h : e ∈ archives) :
    (archives.find? e.1).isSome = true := by
  unfold PackageMap.find? SortedMap.find?
  rw [Option.isSome_map, List.find?_isSome]
  exact ⟨e, h, by simp⟩

theorem find?_cons (e : String × Path) (archives : PackageMap) (package : String) :
    PackageMap.find? (e :: archives) package =
      if package = e.1 then some e.2 else PackageMap.find? archives package := by
  have hbeq : (compare package e.1 == .eq) = decide (package = e.1) := by
    rw [beq_eq_decide]
    exact decide_eq_decide.2 compare_package
  unfold PackageMap.find? SortedMap.find?
  rw [List.find?_cons, hbeq]
  by_cases h : package = e.1 <;> simp [h]

theorem add?_eq_none {cfg : ImportCfg} {package : String} {archive : Path} :
    cfg.add? package archive = none ↔ (cfg.archive? package).isSome = true := by
  have hcontains : cfg.contains package = (cfg.archive? package).isSome := rfl
  rw [ImportCfg.add?, hcontains]
  split <;> simp_all

/-- One more package, if it is not listed yet, and one more in the count then. -/
def ImportCfg.addNext (start : Nat × ImportCfg) (e : String × Path) : Nat × ImportCfg :=
  match start.2.add? e.1 e.2 with
  | some cfg => (start.1 + 1, cfg)
  | none => start

theorem addAll_eq (cfg : ImportCfg) (archives : PackageMap) :
    cfg.addAll archives = archives.foldl ImportCfg.addNext (0, cfg) := rfl

theorem foldl_addNext_spec {archives : PackageMap} (hl : ∀ e ∈ archives, Listable e.1 e.2.text)
    (n : Nat) {cfg : ImportCfg} (hf : cfg.Faithful) :
    (archives.foldl ImportCfg.addNext (n, cfg)).2.Faithful ∧
      n ≤ (archives.foldl ImportCfg.addNext (n, cfg)).1 ∧
      ((archives.foldl ImportCfg.addNext (n, cfg)).1 = n →
        (archives.foldl ImportCfg.addNext (n, cfg)).2 = cfg) ∧
      ∀ package, (archives.foldl ImportCfg.addNext (n, cfg)).2.archive? package =
        (cfg.archive? package).or (archives.find? package) := by
  -- the count never goes down, so that it is the same at the end only if nothing was added
  induction archives generalizing n cfg with
  | nil => exact ⟨hf, le_rfl, fun _ => rfl, fun package => Option.or_none.symm⟩
  | cons e archives ih =>
    obtain ⟨he, hl⟩ := List.forall_mem_cons.1 hl
    rw [List.foldl_cons]
    cases hadd : cfg.add? e.1 e.2 with
    | none =>
      have hnext : ImportCfg.addNext (n, cfg) e = (n, cfg) := by
        simp only [ImportCfg.addNext, hadd]
      obtain ⟨listed, hlisted⟩ := Option.isSome_iff_exists.1 (add?_eq_none.1 hadd)
      obtain ⟨hfaithful, hle, hsame, harchive⟩ := ih hl n hf
      rw [hnext]
      refine ⟨hfaithful, hle, hsame, fun package => ?_⟩
      rw [harchive, find?_cons]
      by_cases hp : package = e.1
      · rw [hp, hlisted, Option.some_or, Option.some_or]
      · rw [if_neg hp]
    | some cfg' =>
      have hnext : ImportCfg.addNext (n, cfg) e = (n + 1, cfg') := by
        simp only [ImportCfg.addNext, hadd]
      have hmissing : cfg.archive? e.1 = none := by
        rw [← Option.not_isSome_iff_eq_none, ← @add?_eq_none cfg e.1 e.2, hadd]
        simp
      obtain ⟨hfaithful', hnew⟩ := add?_spec he hadd
      obtain ⟨hfaithful, hle, -, harchive⟩ := ih hl (n + 1) (hfaithful' hf)
      rw [hnext]
      refine ⟨hfaithful, Nat.le_of_succ_le hle, fun hn => ?_, fun package => ?_⟩
      · rw [hn] at hle
        exact absurd hle (Nat.not_succ_le_self n)
      · rw [harchive, hnew, find?_cons]
        by_cases hp : package = e.1
        · rw [if_pos hp, if_pos hp, hp, hmissing]
          rfl
        · rw [if_neg hp, if_neg hp]

/-- **Packages that are added** are listed, and those that were listed keep their archives. -/
theorem addAll_spec {cfg : ImportCfg} {archives : PackageMap}
    (hl : ∀ e ∈ archives, Listable e.1 e.2.text) (hf : cfg.Faithful) :
    (cfg.addAll archives).2.Faithful ∧
      ((cfg.addAll archives).1 = 0 → (cfg.addAll archives).2 = cfg) ∧
      ∀ package, (cfg.addAll archives).2.archive? package =
        (cfg.archive? package).or (archives.find? package) := by
  rw [addAll_eq]
  obtain ⟨hfaithful, -, hsame, harchive⟩ := foldl_addNext_spec hl 0 hf
  exact ⟨hfaithful, hsame, harchive⟩

end TestWeave.Build
