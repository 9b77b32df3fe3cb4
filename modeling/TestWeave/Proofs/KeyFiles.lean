import TestWeave.Proofs.Growth
import TestWeave.Sdk.BuildCache

/-!
# Names of key files

A key file is named by a digest, so all key files of a directory lie side by side in it, under names
of one size.

* `utf8ByteSize_hexDigest`, `mem_hexDigest`: how a digest is spelled.
* `resolve_keyPath`: where one key file can be, any other can be, next to it.
-/

namespace TestWeave.Digest.Sha256

/-- The digits that digests are spelled with. -/
def digitChars : List Char := "0123456789abcdef".toList

theorem length_hexDigits (n count : Nat) : (hexDigits n count).length = count := by
  induction count generalizing n with
  | zero => rfl
  | succ count ih => rw [hexDigits, List.length_append, ih, List.length_singleton]

theorem mem_hexDigits {n count : Nat} {c : Char} (h : c ∈ hexDigits n count) : c ∈ digitChars := by
  induction count generalizing n with
  | zero => simp [hexDigits] at h
  | succ count ih =>
    rw [hexDigits, List.mem_append, List.mem_singleton] at h
    rcases h with h | rfl
    · exact ih h
    · have hall : ∀ k < 16, Nat.digitChar k ∈ digitChars := by decide
      exact hall _ (Nat.mod_lt n (by decide))

/-- They are among the digits of numbered names. -/
theorem digitChars_spec : ∀ c ∈ digitChars, c.utf8Size = 1 ∧ c ≠ '/' ∧ c ≠ '\x00' := by
  have hall : digitChars.all (Host.Disk.tempDigits.contains ·) = true := by decide +kernel
  intro c hc
  exact Host.Disk.tempDigits_spec c (List.contains_iff_mem.1 (List.all_eq_true.1 hall c hc))

theorem mem_hexDigest {message : ByteArray} {c : Char} (h : c ∈ (hexDigest message).toList) :
    c ∈ digitChars := by
  rw [hexDigest, String.toList_ofList] at h
  obtain ⟨w, -, hc⟩ := List.mem_flatMap.1 h
  exact mem_hexDigits hc

theorem utf8ByteSize_hexDigest (message : ByteArray) : (hexDigest message).utf8ByteSize = 64 := by
  have hsize : ∀ c ∈ (hexDigest message).toList, c.utf8Size = 1 := fun c hc =>
    (digitChars_spec c (mem_hexDigest hc)).1
  rw [hexDigest, String.toList_ofList] at hsize
  rw [hexDigest, Host.Disk.utf8ByteSize_ofList hsize]
  simp only [List.length_flatMap, length_hexDigits]
  rfl

end TestWeave.Digest.Sha256

namespace TestWeave.Sdk.BuildCache

open TestWeave.Digest TestWeave.Host

variable {c : BuildCache} {args : List String} {d : Disk} {loc : Location}

/-- The name of the key file of a build with given arguments. -/
def keyName (args : List String) : String :=
  "." ++ Sha256.hexDigest (String.intercalate "|" args).toUTF8 ++ ".build"

theorem keyPath_eq (c : BuildCache) (args : List String) :
    c.keyPath args = c.dir.join ⟨keyName args⟩ := rfl

theorem toList_keyName (args : List String) : (keyName args).toList =
    '.' :: ((Sha256.hexDigest (String.intercalate "|" args).toUTF8).toList ++ ".build".toList) := by
  rw [keyName, String.toList_append, String.toList_append]
  rfl

theorem utf8ByteSize_keyName (args : List String) : (keyName args).utf8ByteSize = 71 := by
  rw [keyName, String.utf8ByteSize_append, String.utf8ByteSize_append,
    Sha256.utf8ByteSize_hexDigest]
  rfl

/-- A character of the name that no digest has is one of the dot in front or of the ending. -/
theorem mem_keyName {ch : Char} (h : ch ∈ (keyName args).toList) :
    ch ∈ Sha256.digitChars ∨ ch ∈ '.' :: ".build".toList := by
  rw [toList_keyName, List.mem_cons, List.mem_append] at h
  rcases h with h | h | h
  · exact .inr (List.mem_cons.2 (.inl h))
  · exact .inl (Sha256.mem_hexDigest h)
  · exact .inr (List.mem_cons_of_mem _ h)

theorem plain_keyName (args : List String) : Disk.Plain (keyName args) := by
  have hsize := utf8ByteSize_keyName args
  refine ⟨⟨'.', _, toList_keyName args, by decide⟩, fun ch hch => ?_, fun hs => ?_, fun hs => ?_⟩
  · rcases mem_keyName hch with h | h
    · exact (Sha256.digitChars_spec ch h).2.1
    · rintro rfl
      exact absurd h (by decide)
  · rw [hs] at hsize
    exact absurd hsize (by decide)
  · rw [hs] at hsize
    exact absurd hsize (by decide)

theorem nul_notMem_keyName (args : List String) : '\x00' ∉ (keyName args).toList := fun h => by
  rcases mem_keyName h with h | h
  · exact (Sha256.digitChars_spec _ h).2.2 rfl
  · exact absurd h (by decide)

theorem endsWithSlash_keyPath (c : BuildCache) (args : List String) :
    Disk.endsWithSlash (c.keyPath args) = false := by
  rw [keyPath_eq]
  exact Disk.endsWithSlash_join _ (plain_keyName args)

/-- **Key files lie side by side.** Where the key file of one list of arguments can be, in the same
directory the one of any other list can be. -/
theorem resolve_keyPath (h : d.resolve (c.keyPath args) = .ok loc) : ∃ parent,
    loc = parent ++ [keyName args] ∧
      ∀ other, d.resolve (c.keyPath other) = .ok (parent ++ [keyName other]) := by
  have hsize : ∀ a b : List String, (keyName a).utf8ByteSize ≤ (keyName b).utf8ByteSize :=
    fun a b => by rw [utf8ByteSize_keyName, utf8ByteSize_keyName]
  rw [keyPath_eq] at h
  obtain ⟨parent, -, hloc⟩ := Disk.resolve_join (plain_keyName args) (plain_keyName args) id
    (hsize args args) h
  refine ⟨parent, hloc, fun other => ?_⟩
  obtain ⟨parent', hr, hloc'⟩ := Disk.resolve_join (plain_keyName other) (plain_keyName args)
    (fun hnul => absurd hnul (nul_notMem_keyName other)) (hsize other args) h
  obtain rfl : parent = parent' := List.append_inj_left' (hloc.symm.trans hloc') rfl
  rw [keyPath_eq, hr]

end TestWeave.Sdk.BuildCache
