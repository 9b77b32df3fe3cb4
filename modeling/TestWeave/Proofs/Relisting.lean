import TestWeave.Proofs.Listing

/-!
# Import configurations that are extended

A configuration keeps its packages in two ways: in its lines, and in a map beside them. Of two lines
for one package the later counts, and of two additions the earlier one; a line counts before any
addition.

* `archive?_parse`: the archive of a package in the configuration of a text.
* `lines_addAll`: the lines of a configuration that packages were added to.
* `relisted_of_adds`: lines and map agree, also when the configuration is written and read again.
-/

namespace TestWeave.Build

open TestWeave.Text

/-- The archive in the last line of a text that lists a package. -/
def lastListed (text package : String) : Option Path :=
  ((((lines text).filterMap packageLine?).filter (·.1 == package)).getLast?).map fun e => ⟨e.2⟩

/-- The archive that a package is first added with. -/
def firstAdded (adds : List (String × Path)) (package : String) : Option Path :=
  (adds.find? (·.1 == package)).map (·.2)

namespace ImportCfg

/-- The additions of a series that find their package not listed yet. -/
def additions (cfg : ImportCfg) : List (String × Path) → List (String × Path)
  | [] => []
  | e :: adds =>
    match cfg.add? e.1 e.2 with
    | some cfg => e :: cfg.additions adds
    | none => cfg.additions adds

end ImportCfg

variable {text : String} {cfg : ImportCfg} {adds : List (String × Path)}

/-! ### The map -/

/-- In a map that is written to in turn, the last value of a key counts. -/
theorem find?_foldl_insert (es : List (String × String)) (m : PackageMap) (package : String) :
    (es.foldl (fun m (package, archive) => m.insert package ⟨archive⟩) m : PackageMap).find? package =
      (((es.filter (·.1 == package)).getLast?).map fun e => (⟨e.2⟩ : Path)).or (m.find? package) := by
  induction es generalizing m with
  | nil => rfl
  | cons e es ih =>
    have hone : (m.insert e.1 ⟨e.2⟩).find? package =
        if package = e.1 then some ⟨e.2⟩ else m.find? package :=
      SortedMap.find?_insert (fun _ _ => compare_package) ..
    rw [List.foldl_cons, ih, hone, List.filter_cons]
    by_cases he : e.1 = package
    · rw [if_pos he.symm, if_pos (beq_iff_eq.2 he), List.getLast?_cons]
      cases (es.filter (·.1 == package)).getLast? <;> rfl
    · rw [if_neg (Ne.symm he), if_neg (by simpa using he)]

/-- **The last line that lists a package** says where its archive is. -/
theorem archive?_parse (text package : String) :
    (ImportCfg.parse text).archive? package = lastListed text package := by
  rw [lastListed, ← Option.or_none (o := Option.map _ _)]
  exact find?_foldl_insert _ [] package

theorem find?_eq_firstAdded (adds : List (String × Path)) (package : String) :
    PackageMap.find? adds package = firstAdded adds package := by
  induction adds with
  | nil => rfl
  | cons e adds ih =>
    rw [find?_cons, ih, firstAdded, firstAdded, List.find?_cons]
    by_cases he : e.1 = package
    · rw [if_pos he.symm, beq_iff_eq.2 he]
      rfl
    · rw [if_neg (Ne.symm he), beq_eq_false_iff_ne.2 he]

/-! ### The lines -/

/-- Each addition that finds its package not listed puts a line behind the others, and counts. -/
theorem foldl_addNext_lines (adds : List (String × Path)) (n : Nat) (cfg : ImportCfg) :
    (adds.foldl ImportCfg.addNext (n, cfg)).1 = n + (cfg.additions adds).length ∧
      (adds.foldl ImportCfg.addNext (n, cfg)).2.lines =
        cfg.lines ++ (cfg.additions adds).map fun e => listing e.1 e.2.text := by
  induction adds generalizing n cfg with
  | nil => simp [ImportCfg.additions]
  | cons e adds ih =>
    rw [List.foldl_cons, ImportCfg.addNext, ImportCfg.additions]
    cases hadd : cfg.add? e.1 e.2 with
    | none => exact ih n cfg
    | some cfg' =>
      have hlines : cfg'.lines = cfg.lines ++ [listing e.1 e.2.text] := by
        unfold ImportCfg.add? at hadd
        split at hadd
        · simp at hadd
        · obtain rfl := Option.some.inj hadd
          rfl
      obtain ⟨hcount, hrest⟩ := ih (n + 1) cfg'
      refine ⟨?_, ?_⟩
      · rw [hcount, List.length_cons, Nat.add_assoc, Nat.add_comm 1]
      · rw [hrest, hlines, List.map_cons, List.append_assoc, List.singleton_append]

/-- **The lines of an extended configuration** are those it had and one for each addition that was
made. -/
theorem lines_addAll (cfg : ImportCfg) (adds : List (String × Path)) :
    (cfg.addAll adds).2.lines =
      cfg.lines ++ (cfg.additions adds).map fun e => listing e.1 e.2.text := by
  rw [addAll_eq]
  exact (foldl_addNext_lines adds 0 cfg).2

theorem mem_of_mem_additions {e : String × Path} (h : e ∈ cfg.additions adds) : e ∈ adds := by
  induction adds generalizing cfg with
  | nil => simp [ImportCfg.additions] at h
  | cons e' adds ih =>
    rw [ImportCfg.additions] at h
    split at h
    · rcases List.mem_cons.1 h with rfl | h
      · exact List.mem_cons_self
      · exact List.mem_cons_of_mem _ (ih h)
    · exact List.mem_cons_of_mem _ (ih h)

/-- A line that lists a package ends in no carriage return. -/
theorem dropReturn_listing {package archive : String} (h : Listable package archive) :
    String.ofList (dropReturn (listing package archive).toList) = listing package archive := by
  have hlast : (listing package archive).toList.getLast? ≠ some '\r' := by
    intro hlast
    exact absurd ((listed_listing h).last '\r' hlast) (by decide)
  rw [dropReturn, if_neg hlast, String.ofList_toList]

/-! ### Writing and reading -/

/-- What becomes of the configuration of a text to which packages are added in turn. -/
structure Relisted (text : String) (adds : List (String × Path)) (cfg : ImportCfg) : Prop where
  /-- The map is that of the configuration that is written and read again. -/
  packages_eq : (ImportCfg.parse cfg.render).packages = cfg.packages
  /-- The last line of the text counts for a package, or else the first addition. -/
  archive_eq : ∀ package,
    cfg.archive? package = (lastListed text package).or (firstAdded adds package)
  /-- The lines of the text stand in front, and one line for each addition that was made behind
  them. -/
  render_eq : cfg.render = String.join ((lines text ++
    ((ImportCfg.parse text).additions adds).map fun e => listing e.1 e.2.text).map (· ++ "\n"))
  /-- They are read again without the carriage return that a last line may have had. -/
  lines_eq : lines cfg.render = (lines text).map (fun line => String.ofList (dropReturn line.toList)) ++
    ((ImportCfg.parse text).additions adds).map fun e => listing e.1 e.2.text

/-- **An extended configuration** says the same in its lines and in its map, and goes on doing so
when it is written and read again. -/
theorem relisted_of_adds (text : String) {adds : List (String × Path)}
    (h : ∀ e ∈ adds, Listable e.1 e.2.text) :
    Relisted text adds ((ImportCfg.parse text).addAll adds).2 := by
  obtain ⟨hfaithful, -, harchive⟩ := addAll_spec h (faithful_parse text)
  have hlines := lines_addAll (ImportCfg.parse text) adds
  refine ⟨packages_parse_render hfaithful, fun package => ?_, ?_, ?_⟩
  · rw [harchive, archive?_parse, find?_eq_firstAdded]
  · rw [ImportCfg.render, hlines]
    rfl
  · rw [lines_render hfaithful.breakless, hlines, List.map_append, List.map_map]
    have hadded : ∀ e ∈ (ImportCfg.parse text).additions adds,
        String.ofList (dropReturn (listing e.1 e.2.text).toList) = listing e.1 e.2.text :=
      fun e he => dropReturn_listing (h e (mem_of_mem_additions he))
    exact congrArg _ (List.map_congr_left hadded)

/-- A configuration with a comment, a package that is listed twice, and no line end at its end. -/
def mixedConfig : String :=
  "# config\r\npackagefile fmt=/a.a\npackagefile fmt = /b.a \nimportmap x=y\r"

/-- Additions of a package that is listed, and of one package twice. -/
def mixedAdds : List (String × Path) :=
  [("fmt", ⟨"/c.a"⟩), ("sdk", ⟨"/s.a"⟩), ("sdk", ⟨"/t.a"⟩)]

theorem relisted_of_mixed : (∀ e ∈ mixedAdds, Listable e.1 e.2.text) ∧
    Relisted mixedConfig mixedAdds ((ImportCfg.parse mixedConfig).addAll mixedAdds).2 ∧
    ((ImportCfg.parse mixedConfig).addAll mixedAdds).2.packages =
      [("fmt", ⟨"/b.a"⟩), ("sdk", ⟨"/s.a"⟩)] := by
  have h : ∀ e ∈ mixedAdds, Listable e.1 e.2.text := by
    intro e he
    constructor <;> revert e <;> decide +kernel
  exact ⟨h, relisted_of_adds mixedConfig h, by decide +kernel⟩

end TestWeave.Build
