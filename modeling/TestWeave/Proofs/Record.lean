import Mathlib.Data.List.DropRight
import TestWeave.Build.Plan
import TestWeave.Proofs.Files
import TestWeave.Proofs.Names

/-!
# The record of a build

What the commands of a build write into the record of its session is what they read from it later,
and opening the file of the lock leaves the record as it is.

* `Text.ends_trim`, `Text.trim_eq_self`: what trimming leaves, and which texts it leaves alone.
* `unitsOf_recordText`: the units of a record that was written.
* `readUnits_touch`: what opening the file of the lock leaves as it is.
-/

namespace TestWeave.Text

/-! ### Trimming -/

theorem toList_trim (s : String) :
    (trim s).toList = (s.toList.dropWhile isBlank).rdropWhile isBlank := by
  simp [trim, trimEnd, trimStart, List.rdropWhile]

/-- **A text that was trimmed** has no blanks at its ends. -/
theorem ends_trim (s : String) :
    (∀ c ∈ (trim s).toList.head?, isBlank c = false) ∧
      ∀ c ∈ (trim s).toList.getLast?, isBlank c = false := by
  rw [toList_trim]
  constructor
  · intro c hc
    -- trimming at the end leaves the first character, unless it leaves none
    obtain ⟨rest, hrest⟩ := List.rdropWhile_prefix isBlank (s.toList.dropWhile isBlank)
    have hfirst : c ∈ (s.toList.dropWhile isBlank).head? := by
      rw [← hrest, List.head?_append, Option.mem_def.1 hc]
      rfl
    exact eq_false_of_mem_head?_dropWhile hfirst
  · intro c hc
    have hne : (s.toList.dropWhile isBlank).rdropWhile isBlank ≠ [] := by
      intro hnil
      simp [hnil] at hc
    rw [List.getLast?_eq_some_getLast hne] at hc
    obtain rfl := Option.some.inj hc
    simpa using List.rdropWhile_last_not isBlank _ hne

/-- A text without blanks at its ends stays as it is. -/
theorem trim_eq_self {s : String} (hhead : ∀ c ∈ s.toList.head?, isBlank c = false)
    (hlast : ∀ c ∈ s.toList.getLast?, isBlank c = false) : trim s = s := by
  rw [← String.toList_inj, toList_trim]
  have hstart : s.toList.dropWhile isBlank = s.toList := by
    cases hs : s.toList with
    | nil => rfl
    | cons c cs => rw [List.dropWhile_cons_of_neg (by simp [hhead c (by rw [hs]; rfl)])]
  rw [hstart, List.rdropWhile_eq_self_iff]
  intro hne
  simp [hlast _ (List.getLast?_eq_some_getLast hne)]

/-- Trimming a text twice is trimming it once. -/
theorem trim_trim (s : String) : trim (trim s) = trim s :=
  trim_eq_self (ends_trim s).1 (ends_trim s).2

end TestWeave.Text

namespace TestWeave.Build

open TestWeave.Host TestWeave.Source TestWeave.Text

/-! ### Lines -/

theorem not_isBlank_of_isIdentPart {c : Char} (h : isIdentPart c = true) : isBlank c = false := by
  by_contra hb
  obtain ⟨r, hr, hlow, hhigh⟩ := CharRanges.has_iff.1 (eq_true_of_ne_false hb)
  have hall : ∀ r ∈ blankRanges, ∀ n ∈ List.range' r.1 (r.2 + 1 - r.1),
      isIdentPart (Char.ofNat n) = false := by
    decide +kernel
  have := hall r hr c.toNat (List.mem_range'_1.2 ⟨hlow, by omega⟩)
  rw [Char.ofNat_toNat, h] at this
  exact Bool.false_ne_true this.symm

/-- A unit that is a line of a record: without blanks at its ends, and without a line break. -/
structure Listed (unit : String) : Prop where
  nonempty : unit ≠ ""
  head : ∀ c ∈ unit.toList.head?, isBlank c = false
  last : ∀ c ∈ unit.toList.getLast?, isBlank c = false
  breakless : '\n' ∉ unit.toList

theorem listed_of_isName {unit : String} (h : IsName unit) : Listed unit := by
  have hpart := h.forall_mem
  refine ⟨?_, fun c hc => ?_, fun c hc => ?_, fun hc => ?_⟩
  · rintro rfl
    exact absurd h.1 (by decide)
  · exact not_isBlank_of_isIdentPart (hpart c (List.mem_of_mem_head? hc))
  · exact not_isBlank_of_isIdentPart (hpart c (List.mem_of_mem_getLast? hc))
  · have := not_isBlank_of_isIdentPart (hpart _ hc)
    exact absurd this (by decide)

theorem Listed.trim_eq {unit : String} (h : Listed unit) : trim unit = unit :=
  trim_eq_self h.head h.last

/-- What is left of a line without the blanks at its ends. -/
theorem listed_trim {line : String} (hn : '\n' ∉ line.toList) (h : trim line ≠ "") :
    Listed (trim line) := by
  obtain ⟨hhead, hlast⟩ := ends_trim line
  refine ⟨h, hhead, hlast, fun hc => hn ?_⟩
  rw [toList_trim] at hc
  exact (List.dropWhile_sublist _).subset ((List.rdropWhile_prefix _ _).subset hc)

/-- One more unit. -/
theorem listed_concat {units : List String} {unit : String} (h : ∀ u ∈ units, Listed u)
    (hu : Listed unit) : ∀ u ∈ units ++ [unit], Listed u := by
  intro u hm
  rcases List.mem_append.1 hm with hm | hm
  · exact h u hm
  · rwa [List.mem_singleton.1 hm]

theorem breakless_of_mem_lines {text line : String} (h : line ∈ lines text) :
    '\n' ∉ line.toList := by
  obtain ⟨cs, hcs, rfl⟩ := List.mem_map.1 h
  rw [String.toList_ofList]
  -- a line is one of the pieces between the line breaks, perhaps without its last character
  have hpiece : ∃ piece ∈ splitWhere (· == '\n') text.toList, cs ⊆ piece := by
    have hended : cs ∈ (splitWhere (· == '\n') text.toList).dropLast.map dropReturn →
        ∃ piece ∈ splitWhere (· == '\n') text.toList, cs ⊆ piece := by
      intro hc
      obtain ⟨piece, hp, rfl⟩ := List.mem_map.1 hc
      refine ⟨piece, (List.dropLast_sublist _).subset hp, ?_⟩
      unfold dropReturn
      split
      · exact (List.dropLast_sublist _).subset
      · exact List.Subset.refl _
    unfold charLines at hcs
    simp only at hcs
    split at hcs
    · exact hended hcs
    · exact hended hcs
    · rename_i last _ hlast
      rcases List.mem_append.1 hcs with hc | hc
      · exact hended hc
      · obtain rfl : cs = last := by simpa using hc
        exact ⟨cs, List.mem_of_mem_getLast? hlast, List.Subset.refl _⟩
  obtain ⟨piece, hp, hsub⟩ := hpiece
  intro hn
  simpa using (splits _ _).not_sep hp _ (hsub hn)

/-- **The units that are read** from a record can be written into one. -/
theorem listed_of_mem_unitsOf {text unit : String} (h : unit ∈ unitsOf text) : Listed unit := by
  obtain ⟨hmem, hne⟩ := List.mem_filter.1 h
  obtain ⟨line, hline, rfl⟩ := List.mem_map.1 hmem
  exact listed_trim (breakless_of_mem_lines hline) (by simpa using hne)

theorem toList_recordText {units : List String} (h : units ≠ []) :
    (recordText units).toList = units.flatMap fun u => u.toList ++ ['\n'] := by
  induction units with
  | nil => exact absurd rfl h
  | cons u us ih =>
    by_cases hus : us = []
    · subst hus
      simp [recordText]
    · have ih := ih hus
      rw [recordText, String.toList_append] at ih
      rw [recordText, String.intercalate_cons_of_ne_nil hus, String.toList_append,
        String.toList_append, String.toList_append, List.append_assoc, ih, List.flatMap_cons]
      rfl

theorem splitWhere_lines {pieces : List (List Char)} (h : ∀ p ∈ pieces, '\n' ∉ p) :
    splitWhere (· == '\n') (pieces.flatMap fun p => p ++ ['\n']) = pieces ++ [[]] := by
  induction pieces with
  | nil => rfl
  | cons p pieces ih =>
    obtain ⟨hp, hps⟩ := List.forall_mem_cons.1 h
    have hsep : ∀ c ∈ p, (c == '\n') = false := by
      intro c hc
      rw [beq_eq_false_iff_ne]
      rintro rfl
      exact hp hc
    rw [List.flatMap_cons, List.append_assoc, List.singleton_append,
      splitWhere_append_cons _ hsep rfl, ih hps, List.cons_append]

/-- **The units of a record that was written.** -/
theorem unitsOf_recordText {units : List String} (h : ∀ u ∈ units, Listed u) :
    unitsOf (recordText units) = units := by
  by_cases hne : units = []
  · subst hne
    decide
  have hlines : lines (recordText units) = units := by
    have hpieces : ∀ p ∈ units.map String.toList, '\n' ∉ p := by
      intro p hp
      obtain ⟨u, hu, rfl⟩ := List.mem_map.1 hp
      exact (h u hu).breakless
    have hreturn : (units.map String.toList).map dropReturn = units.map String.toList := by
      rw [List.map_map]
      refine List.map_congr_left fun u hu => ?_
      -- a carriage return is a blank
      refine if_neg fun hc => ?_
      exact absurd ((h u hu).last _ hc) (by decide)
    have htext : (recordText units).toList =
        (units.map String.toList).flatMap fun p => p ++ ['\n'] := by
      rw [toList_recordText hne, List.flatMap_map]
    rw [lines, charLines, htext, splitWhere_lines hpieces]
    simp only [List.dropLast_concat, List.getLast?_concat, hreturn]
    simp
  have htrim : units.map trim = units := by
    conv_rhs => rw [← List.map_id units]
    exact List.map_congr_left fun u hu => (h u hu).trim_eq
  rw [unitsOf, hlines, htrim, List.filter_eq_self]
  intro u hu
  simpa using (h u hu).nonempty

/-! ### Sessions -/

variable {d d' : Disk} {dir : Path} {buildId : String} {session : Session}

/-- The names of the files of a session. -/
theorem plain_sessionName (buildId suffix : String) (h : '/' ∉ suffix.toList) :
    Disk.Plain (".test_main_packages_" ++ sanitize buildId ++ suffix) := by
  have hlist : (".test_main_packages_" ++ sanitize buildId ++ suffix).toList =
      '.' :: 't' :: ("est_main_packages_".toList ++ (sanitize buildId).toList ++
        suffix.toList) := by
    simp
  refine ⟨⟨_, _, hlist, by decide⟩, fun c hc => ?_, fun hs => ?_, fun hs => ?_⟩
  · rw [String.toList_append, String.toList_append, List.mem_append, List.mem_append] at hc
    rcases hc with (hc | hc) | hc
    · rintro rfl
      exact absurd hc (by decide)
    · rw [sanitize, String.toList_ofList] at hc
      obtain ⟨b, -, rfl⟩ := List.mem_map.1 hc
      split
      · rename_i hb
        rintro rfl
        exact absurd hb (by decide)
      · decide
    · rintro rfl
      exact h hc
  · rw [hs] at hlist
    simp at hlist
  · rw [hs] at hlist
    simp at hlist

/-- The record stands next to the file of the lock. -/
theorem resolve_record {loc : Location}
    (h : d.resolve (Session.new dir buildId).lockPath = .ok loc) :
    ∃ found, d.resolve (Session.new dir buildId).path = .ok found ∧ found ≠ loc := by
  simp only [Session.new] at h ⊢
  have hname := plain_sessionName buildId "" (by simp)
  rw [String.append_empty] at hname
  have hlock := plain_sessionName buildId ".lock" (by decide)
  obtain ⟨parent, hpath, hother⟩ := Disk.resolve_join hname hlock
    (fun hc => by rw [String.toList_append]; exact List.mem_append_left _ hc)
    (by simp only [String.utf8ByteSize_append]; omega) h
  refine ⟨_, hpath, ?_⟩
  rw [hother]
  intro he
  have hlist := congrArg String.length (List.cons.inj (List.append_cancel_left he)).1
  simp at hlist

theorem readUnits_congr (h : d'.readText session.path = d.readText session.path) :
    session.readUnits d' = session.readUnits d := by
  rw [Session.readUnits, Session.readUnits, h]

/-- **Opening the file of the lock** leaves the record as it is. -/
theorem readUnits_touch
    (h : d.touch (Session.new dir buildId).lockPath = .ok d') :
    (Session.new dir buildId).readUnits d' = (Session.new dir buildId).readUnits d := by
  obtain ⟨loc, _, _, hloc, -⟩ := Disk.touch_eq_ok h
  obtain ⟨found, hpath, hne⟩ := resolve_record hloc
  exact readUnits_congr (Disk.readText_touch h hpath hloc hne)

end TestWeave.Build
