import TestWeave.Proofs.Growth
import TestWeave.Sdk.Locator

/-!
# Checkouts that are left behind

A fetch clones the repository and checks the configured revision out. A later search knows a
checkout by its package folder, and nothing else: if a step of a fetch fails when the folder is there
already, what is left behind is found, and taken for a checkout of the revision.

* `Locator.fetch_cases`: what a fetch comes to.
* `Locator.Calls`: searches, one after the other; `Calls.same`: which folders are there after them.
* `Locator.found_iff_left_behind`: when a fetch that failed is taken for one that did not.
-/

namespace TestWeave

open TestWeave.Host

/-- What a directory is. -/
theorem Host.Disk.isDirectory_iff {d : Disk} {p : Path} : d.isDirectory p = true ↔
    ∃ loc, d.resolve p = .ok loc ∧ d.get? loc = some .directory := by
  have hlookup : d.isDirectory p = true ↔ d.lookup p = .ok .directory := by
    unfold isDirectory
    split <;> simp_all
  simp [hlookup, lookup_eq_ok_iff]

/-- A disk that grows has the directories that it had. -/
theorem Host.Disk.Grown.isDirectory {P : Location → Prop} {d d' : Disk} (h : Grown P d d')
    (p : Path) : d'.isDirectory p = d.isDirectory p := by
  rw [Bool.eq_iff_iff, isDirectory_iff, isDirectory_iff]
  simp only [h.resolve, h.directory]

namespace Sdk.Locator

/-- The package folder of the checkout that is made. -/
def package (l : Locator) : Path := l.checkout.join packageDir

/-- The first step of a fetch. -/
def clone (l : Locator) (launch : Launcher) (d : Disk) : Except SdkError Unit × Disk :=
  git launch l.tempDir ["clone", l.repository, l.checkout.text] d

/-- The other step of a fetch. -/
def checkOut (l : Locator) (launch : Launcher) (d : Disk) : Except SdkError Unit × Disk :=
  git launch l.checkout ["checkout", l.revision] d

/-- Both steps succeeded. -/
def CheckedOut (l : Locator) (launch : Launcher) (d d' : Disk) : Prop :=
  ∃ d₁, l.clone launch d = (.ok (), d₁) ∧ l.checkOut launch d₁ = (.ok (), d')

/-- A step failed. -/
def Interrupted (l : Locator) (launch : Launcher) (d : Disk) (e : SdkError) (d' : Disk) : Prop :=
  l.clone launch d = (.error e, d') ∨
    ∃ d₁, l.clone launch d = (.ok (), d₁) ∧ l.checkOut launch d₁ = (.error e, d')

/-- No other checkout is found before the one that is made. -/
def Vacant (l : Locator) (d : Disk) : Prop :=
  ∀ root, l.configured = some root → d.isDirectory (root.join packageDir) = true →
    root.join packageDir = l.package

/-- **Searches**, each with a program that does whatever it does, and anything else that leaves the
package folders alone. The latest fetch is kept: its program, and the disk that it began with. -/
inductive Calls (l : Locator) (d₀ : Disk) : Option (Launcher × Disk) → Disk → Prop
  | start : Calls l d₀ none d₀
  | found {latest d p} (launch : Launcher) : Calls l d₀ latest d → l.found? d = some p →
      Calls l d₀ latest (l.locate launch d).2
  | fetched {latest d} (launch : Launcher) : Calls l d₀ latest d → l.found? d = none →
      Calls l d₀ (some (launch, l.takeLock d)) (l.locate launch d).2
  | elsewhere {latest d d'} : Calls l d₀ latest d →
      (∀ root ∈ l.candidates,
        d'.isDirectory (root.join packageDir) = d.isDirectory (root.join packageDir)) →
      Calls l d₀ latest d'

/-- The disk that the latest fetch left. -/
def leftBy (l : Locator) (d₀ : Disk) : Option (Launcher × Disk) → Disk
  | none => d₀
  | some (launch, d) => (l.fetch launch d).2

variable {l : Locator} {launch git₀ : Launcher} {d d' d₀ before : Disk} {p : Path}
  {latest : Option (Launcher × Disk)}

/-! ### One search -/

theorem isDirectory_takeLock (l : Locator) (d : Disk) (p : Path) :
    (l.takeLock d).isDirectory p = d.isDirectory p := by
  unfold takeLock
  cases htouch : d.touch (l.tempDir.join lockFile) with
  | error => rfl
  | ok d₁ => exact (Disk.grown_touch (P := fun _ => False) htouch).isDirectory p

theorem found?_congr (h : ∀ root ∈ l.candidates,
    d'.isDirectory (root.join packageDir) = d.isDirectory (root.join packageDir)) :
    l.found? d' = l.found? d := by
  have hsame : ∀ p ∈ l.candidates.map (·.join packageDir), d'.isDirectory p = d.isDirectory p := by
    intro p hp
    obtain ⟨root, hroot, rfl⟩ := List.mem_map.1 hp
    exact h root hroot
  rw [found?, found?, ← List.head?_filter, ← List.head?_filter, List.filter_congr hsame]

theorem locate_of_found (h : l.found? d = some p) (launch : Launcher) :
    l.locate launch d = (.ok (.found p), l.takeLock d) := by
  have hfound : l.found? (l.takeLock d) = some p := by
    rw [found?_congr fun root _ => isDirectory_takeLock l d _, h]
  simp only [locate, hfound]

theorem locate_of_none (h : l.found? d = none) (launch : Launcher) :
    l.locate launch d = l.fetch launch (l.takeLock d) := by
  have hfound : l.found? (l.takeLock d) = none := by
    rw [found?_congr fun root _ => isDirectory_takeLock l d _, h]
  simp only [locate, hfound]

theorem found?_eq_package_iff :
    l.found? d = some l.package ↔ d.isDirectory l.package = true ∧ l.Vacant d := by
  have hcandidates : l.found? d = (l.configured.toList.map (·.join packageDir) ++ [l.package]).find?
      d.isDirectory := by
    rw [found?, candidates, List.map_append]
    rfl
  rw [hcandidates, Vacant]
  cases l.configured with
  | none => cases hdir : d.isDirectory l.package <;> simp [hdir]
  | some root =>
    cases hroot : d.isDirectory (root.join packageDir) with
    | true =>
      -- the configured checkout comes first, and may be the one that is made
      have hfirst : ([root.join packageDir] ++ [l.package]).find? d.isDirectory =
          some (root.join packageDir) := by simp [hroot]
      simp only [Option.toList_some, List.map_cons, List.map_nil, hfirst, Option.some.injEq]
      constructor
      · intro heq
        rw [← heq]
        exact ⟨hroot, fun _ hother _ => by rw [hother]⟩
      · rintro ⟨-, hvacant⟩
        exact hvacant root rfl hroot
    | false => cases hdir : d.isDirectory l.package <;> simp [hroot, hdir]

/-- **What a fetch comes to.** -/
theorem fetch_cases (l : Locator) (launch : Launcher) (d : Disk) :
    (∃ e d', l.Interrupted launch d e d' ∧ l.fetch launch d = (.error e, d')) ∨
    ∃ d', l.CheckedOut launch d d' ∧
      (d'.isDirectory l.package = true ∧ l.fetch launch d = (.ok (.fetched l.package), d') ∨
        d'.isDirectory l.package = false ∧
          l.fetch launch d = (.error (.missingPackage l.package), d')) := by
  -- a fetch ends at the first command that fails, or with the question whether the package is there
  unfold fetch
  rw [← clone]
  cases hclone : l.clone launch d with
  | mk cloned d₁ =>
    cases cloned with
    | error e => exact .inl ⟨e, d₁, .inl hclone, rfl⟩
    | ok =>
      cases hdone : l.checkOut launch d₁ with
      | mk done d' =>
        simp only
        rw [← checkOut, hdone]
        cases done with
        | error e => exact .inl ⟨e, d', .inr ⟨d₁, hclone, hdone⟩, rfl⟩
        | ok =>
          refine .inr ⟨d', ⟨d₁, hclone, hdone⟩, ?_⟩
          simp only
          rw [← package]
          cases hdir : d'.isDirectory l.package with
          | true => exact .inl ⟨rfl, rfl⟩
          | false => exact .inr ⟨rfl, rfl⟩

theorem fetch_eq_error {e : SdkError} (h : l.fetch launch d = (.error e, d')) :
    l.Interrupted launch d e d' ∨ d'.isDirectory l.package = false := by
  rcases fetch_cases l launch d with ⟨e', left, hi, hf⟩ | ⟨left, -, ⟨-, hf⟩ | ⟨hdir, hf⟩⟩
  · obtain ⟨he, rfl⟩ := Prod.mk.inj (h.symm.trans hf)
    obtain rfl := Except.error.inj he
    exact .inl hi
  · cases congrArg Prod.fst (h.symm.trans hf)
  · obtain ⟨-, rfl⟩ := Prod.mk.inj (h.symm.trans hf)
    exact .inr hdir

theorem fetch_eq_ok {loc : SdkLocation} (h : l.fetch launch d = (.ok loc, d')) :
    loc = .fetched l.package ∧ l.CheckedOut launch d d' := by
  rcases fetch_cases l launch d with ⟨e, left, -, hf⟩ | ⟨left, hc, ⟨-, hf⟩ | ⟨-, hf⟩⟩
  · cases congrArg Prod.fst (h.symm.trans hf)
  · obtain ⟨hloc, rfl⟩ := Prod.mk.inj (h.symm.trans hf)
    exact ⟨Except.ok.inj hloc, hc⟩
  · cases congrArg Prod.fst (h.symm.trans hf)

/-! ### Searches one after the other -/

/-- **The folders that are there** are those that the latest fetch left. -/
theorem Calls.same (h : l.Calls d₀ latest d) : ∀ root ∈ l.candidates,
    d.isDirectory (root.join packageDir) =
      (l.leftBy d₀ latest).isDirectory (root.join packageDir) := by
  induction h with
  | start => exact fun _ _ => rfl
  | found launch _ hf ih =>
    intro root hroot
    rw [locate_of_found hf, isDirectory_takeLock, ih root hroot]
  | fetched launch _ hf =>
    intro root _
    rw [locate_of_none hf, leftBy]
  | elsewhere _ hsame ih => exact fun root hroot => (hsame root hroot).trans (ih root hroot)

/-- **The checkout that is made is found** if it has its folder by then and no other one comes
first. -/
theorem Calls.found_iff (h : l.Calls d₀ latest d) (launch : Launcher) :
    (l.locate launch d).1 = .ok (.found l.package) ↔
      (l.leftBy d₀ latest).isDirectory l.package = true ∧ l.Vacant (l.leftBy d₀ latest) := by
  rw [← found?_eq_package_iff, ← found?_congr h.same]
  cases hf : l.found? d with
  | none =>
    rw [locate_of_none hf]
    rcases fetch_cases l launch (l.takeLock d) with
        ⟨e, d', -, hfetch⟩ | ⟨d', -, ⟨-, hfetch⟩ | ⟨-, hfetch⟩⟩ <;>
      simp [hfetch]
  | some p =>
    rw [locate_of_found hf]
    simp

/-- **When a fetch that failed is taken for one that did not.** If the latest fetch failed, later
searches find its checkout just if it was a step that failed, not the look for the folder, the step
left the folder behind, and no other checkout comes first. If it succeeded, the revision was checked
out, as it is whenever a search says that it fetched. -/
theorem found_iff_left_behind (h : l.Calls d₀ (some (git₀, before)) d) (launch : Launcher) :
    (∀ e left, l.fetch git₀ before = (.error e, left) →
      ((l.locate launch d).1 = .ok (.found l.package) ↔
        l.Interrupted git₀ before e left ∧ left.isDirectory l.package = true ∧ l.Vacant left)) ∧
    (∀ loc left, l.fetch git₀ before = (.ok loc, left) →
      loc = .fetched l.package ∧ l.CheckedOut git₀ before left) ∧
    ∀ p d', l.locate launch d = (.ok (.fetched p), d') →
      p = l.package ∧ l.CheckedOut launch (l.takeLock d) d' := by
  refine ⟨fun e left hfail => ?_, fun loc left hok => fetch_eq_ok hok, fun p d' hlocate => ?_⟩
  · have hfound := h.found_iff launch
    rw [leftBy, hfail] at hfound
    rw [hfound]
    constructor
    · rintro ⟨hdir, hvacant⟩
      -- the look for the folder did not fail, as the folder is there
      rcases fetch_eq_error hfail with hi | hno
      · exact ⟨hi, hdir, hvacant⟩
      · rw [hdir] at hno
        cases hno
    · exact fun hleft => hleft.2
  · cases hf : l.found? d with
    | none =>
      rw [locate_of_none hf] at hlocate
      obtain ⟨hp, hc⟩ := fetch_eq_ok hlocate
      exact ⟨SdkLocation.fetched.inj hp, hc⟩
    | some found =>
      rw [locate_of_found hf] at hlocate
      cases congrArg Prod.fst hlocate

/-- A search for a revision that there is not. -/
def badRevision : Locator := ⟨none, ⟨"/tmp"⟩, "repository", "v9"⟩

/-- A program that clones and knows no revision. -/
def cloningGit : Launcher := fun launch d =>
  if launch.args.head? = some "clone" then
    (.ok ⟨some 0, ByteArray.empty, ByteArray.empty⟩,
      (d.set ["tmp", "dd-sdk-go-testing"] .directory).set
        ["tmp", "dd-sdk-go-testing", "autoinstrument"] .directory)
  else (.ok ⟨some 1, ByteArray.empty, "bad revision\n".toUTF8⟩, d)

theorem left_behind_of_badRevision : ∃ e d,
    badRevision.locate cloningGit { nodes := [(["tmp"], .directory)], cwd := [] } = (.error e, d) ∧
    ∀ launch, (badRevision.locate launch d).1 =
      .ok (.found ⟨"/tmp/dd-sdk-go-testing/autoinstrument"⟩) := by
  let before := badRevision.takeLock { nodes := [(["tmp"], .directory)], cwd := [] }
  let left := (badRevision.fetch cloningGit before).2
  have hnone : badRevision.found? { nodes := [(["tmp"], .directory)], cwd := [] } = none := rfl
  have hfetch : badRevision.fetch cloningGit before = (.error (.failed "git checkout v9" (some 1)
      (Text.Utf8.decodeLossy "bad revision\n".toUTF8)), left) := rfl
  have hclone : (badRevision.clone cloningGit before).1 = .ok () := rfl
  have hstep : badRevision.Interrupted cloningGit before (.failed "git checkout v9" (some 1)
      (Text.Utf8.decodeLossy "bad revision\n".toUTF8)) left := .inr ⟨_, Prod.ext hclone rfl, rfl⟩
  have hfound := fun launch =>
    (found_iff_left_behind (.fetched cloningGit .start hnone) launch).1 _ left hfetch
  refine ⟨_, left, (locate_of_none hnone cloningGit).trans hfetch, fun launch => ?_⟩
  have hlater := (hfound launch).2 ⟨hstep, rfl, fun _ hother => nomatch hother⟩
  rw [locate_of_none hnone] at hlater
  exact hlater

end Sdk.Locator

end TestWeave
