import TestWeave.Proofs.Alike
import TestWeave.Proofs.Builds

/-!
# Builds that share a key file

The arguments of a build are joined by bars, and a digest is taken of that. A bar in an argument
looks like the end of the argument, so builds share a key file, and with it the work directory, just
if the same pieces stand between the bars. The digest is taken to tell the joined arguments apart.

* `pieces`: what is left of arguments that are joined; `joined_eq_iff`.
* `keyPath_eq_iff`: when two lists of arguments have one key file.
* `Course`: calls of any builds; `Course.recorded?_eq`: what each key file names after them.
* `shared_iff_pieces`: all of it together.
-/

namespace TestWeave

open TestWeave.Host

/-- Different messages with one digest. -/
def Digest.Sha256.Collides (m m' : ByteArray) : Prop := m ≠ m' ∧ hexDigest m = hexDigest m'

namespace Sdk.BuildCache

open TestWeave.Digest

/-- What the digest of a list of arguments is taken of. -/
def joined (args : List String) : String := String.intercalate "|" args

/-- What is left of arguments that are joined: the pieces between bars, one argument after the other.
No argument is joined as an empty one is. -/
def pieces : List String → List (List Char)
  | [] => [[]]
  | arg :: args => (arg :: args).flatMap (·.toList.splitOn '|')

/-- No two of the lists are joined to texts that collide. -/
def Apart (S : Set (List String)) : Prop :=
  ∀ a ∈ S, ∀ b ∈ S, ¬Sha256.Collides (joined a).toUTF8 (joined b).toUTF8

/-- A program that leaves all key files alone. -/
def Keeps (c : BuildCache) (x : List String) (launch : Launcher) (d : Disk) : Prop :=
  ∀ y, (launch (c.launchOf x) d).2.lookup (c.keyFile y) = d.lookup (c.keyFile y)

/-- **Calls of any builds**, each with a program that leaves the key files alone, and anything else
that does. A key file is written or left as it is. The builds that were made and written down are
listed, the latest first. -/
inductive Course (c : BuildCache) (d₀ : Disk) : List (List String × Path) → Disk → Prop
  | start : Course c d₀ [] d₀
  | built {made d launch x w d'} : Course c d₀ made d → c.Launches x d → c.Keeps x launch d →
      (launch (c.launchOf x) d).2.Savable (c.keyFile x) → c.goBuild launch x d = (.ok w, d') →
      Course c d₀ ((x, w) :: made) d'
  | unwritten {made d launch x w d' e} : Course c d₀ made d → c.Launches x d → c.Keeps x launch d →
      (launch (c.launchOf x) d).2.trouble? (c.keyFile x) w.text.toUTF8 = some ⟨e, none⟩ →
      c.goBuild launch x d = (.ok w, d') → Course c d₀ made d'
  | failed {made d launch x e d'} : Course c d₀ made d → c.Keeps x launch d →
      c.goBuild launch x d = (.error e, d') → Course c d₀ made d'
  | reused {made d x w} (launch : Launcher) : Course c d₀ made d → c.Reuses x d w →
      Course c d₀ made (c.goBuild launch x d).2
  | elsewhere {made d d'} : Course c d₀ made d →
      (∀ y, d'.lookup (c.keyFile y) = d.lookup (c.keyFile y)) → Course c d₀ made d'

/-- The directory of the latest build that cannot be told from the given one. -/
def latest (made : List (List String × Path)) (x : List String) : Option Path :=
  (made.find? fun build => pieces (buildArgs build.1) == pieces (buildArgs x)).map (·.2)

variable {c : BuildCache} {a b args other x y : List String} {launch : Launcher} {d d' d₀ : Disk}
  {w : Path} {made : List (List String × Path)} {S : Set (List String)}

/-! ### Joined arguments -/

theorem splitOn_joined (args : List String) : (joined args).toList.splitOn '|' = pieces args := by
  cases args with
  | nil => rfl
  | cons arg args =>
    induction args generalizing arg with
    | nil => simp [joined, pieces]
    | cons next args ih =>
      have hbar : (joined (arg :: next :: args)).toList =
          arg.toList ++ '|' :: (joined (next :: args)).toList := by
        simp [joined]
      have hrest := ih next
      rw [List.splitOn] at hrest
      rw [hbar, List.splitOn, List.splitOnP_append_cons _ _ (by simp), hrest]
      rfl

/-- **What is told apart**: arguments are joined to one text just if the pieces are the same. -/
theorem joined_eq_iff : joined a = joined b ↔ pieces a = pieces b := by
  rw [← splitOn_joined, ← splitOn_joined]
  constructor
  · intro h
    rw [h]
  · intro h
    -- joining the pieces again gives the text back
    have hback := congrArg (['|'].intercalate ·) h
    simpa only [List.intercalate_splitOn, String.toList_inj] using hback

/-- Arguments without a bar are pieces themselves. -/
theorem pieces_of_barless (hargs : args ≠ []) (hbar : ∀ s ∈ args, '|' ∉ s.toList) :
    pieces args = args.map String.toList := by
  obtain ⟨arg, rest, rfl⟩ := List.exists_cons_of_ne_nil hargs
  rw [pieces, List.map_eq_flatMap]
  refine List.flatMap_congr fun s hs => List.splitOnP_eq_singleton fun ch hch => ?_
  simpa using fun heq : ch = '|' => hbar s hs (heq ▸ hch)

/-- **Arguments without a bar** are told apart. -/
theorem pieces_inj_of_barless (ha : a ≠ []) (hb : b ≠ []) (hbar : ∀ s ∈ a ++ b, '|' ∉ s.toList) :
    pieces a = pieces b ↔ a = b := by
  rw [pieces_of_barless ha fun s hs => hbar s (List.mem_append_left _ hs),
    pieces_of_barless hb fun s hs => hbar s (List.mem_append_right _ hs)]
  exact List.map_inj_right fun s t => String.toList_inj.1

/-! ### Key files -/

theorem keyName_eq_iff (h : ¬Sha256.Collides (joined a).toUTF8 (joined b).toUTF8) :
    keyName a = keyName b ↔ pieces a = pieces b := by
  rw [keyName, keyName, String.append_left_inj, String.append_right_inj, ← joined_eq_iff]
  constructor
  · intro hdigest
    by_contra hne
    exact h ⟨fun hbytes => hne (String.toByteArray_inj.1 hbytes), hdigest⟩
  · intro hjoined
    unfold joined at hjoined
    rw [hjoined]

/-- **When two lists of arguments have one key file.** -/
theorem keyPath_eq_iff (h : ¬Sha256.Collides (joined a).toUTF8 (joined b).toUTF8) (c : BuildCache) :
    c.keyPath a = c.keyPath b ↔ pieces a = pieces b := by
  rw [keyPath_eq, keyPath_eq, Disk.join_inj _ (plain_keyName a) (plain_keyName b), keyName_eq_iff h]

/-- A key file that is written is no other one. -/
theorem lookup_writeKey (hne : keyName args ≠ keyName other) (d : Disk) (w : Path) :
    (writeKey d (c.keyPath args) w).lookup (c.keyPath other) = d.lookup (c.keyPath other) := by
  refine Disk.save_disk (R := fun t => t.lookup (c.keyPath other) = d.lookup (c.keyPath other)) rfl
    fun bytes t hwrite => ?_
  obtain ⟨loc, -, hr, -⟩ := Disk.write_eq_ok hwrite
  obtain ⟨parent, rfl, hothers⟩ := resolve_keyPath hr
  have halike : Disk.Alike (· = parent ++ [keyName other]) d t :=
    Disk.alike_write hwrite fun found hfound heq => by
      obtain rfl := Except.ok.inj (hr.symm.trans hfound)
      exact hne (by simpa using heq)
  exact halike.lookup (hothers other) rfl

/-! ### Calls of any builds -/

/-- What is not written down leaves the key files alone. -/
theorem writeKey_of_refused {e : IoError}
    (h : d.trouble? (c.keyFile x) w.text.toUTF8 = some ⟨e, none⟩) :
    writeKey d (c.keyFile x) w = d := by
  have hsaving := Disk.saving_save d (c.keyFile x) w.text.toUTF8
  rw [h] at hsaving
  unfold writeKey
  generalize (d.save (c.keyFile x) w.text.toUTF8).2 = t at hsaving ⊢
  cases hsaving
  rfl

theorem latest_nil (x : List String) : latest [] x = none := rfl

theorem latest_of_same (h : pieces (buildArgs y) = pieces (buildArgs x)) :
    latest ((y, w) :: made) x = some w := by
  rw [latest, List.find?_cons_of_pos (by simpa using h), Option.map_some]

theorem latest_of_other (h : pieces (buildArgs y) ≠ pieces (buildArgs x)) :
    latest ((y, w) :: made) x = latest made x := by
  rw [latest, latest, List.find?_cons_of_neg (by simpa using h)]

/-- **Each key file names the latest build** of those that cannot be told apart, or what it named
before any of them. -/
theorem Course.recorded?_eq (h : c.Course d₀ made d) (hS : Apart S)
    (hmade : ∀ build ∈ made, buildArgs build.1 ∈ S) (hx : buildArgs x ∈ S) :
    c.recorded? x d = (latest made x).or (c.recorded? x d₀) := by
  induction h with
  | start => rw [latest_nil, Option.none_or]
  | @built made d launch y w d' _ hl hkeeps hsavable hb ih =>
    obtain ⟨hy, hmade⟩ := List.forall_mem_cons.1 hmade
    by_cases hp : pieces (buildArgs y) = pieces (buildArgs x)
    · -- the key file that was written is that of `x`
      have hfile : c.keyFile x = c.keyFile y := ((keyPath_eq_iff (hS _ hy _ hx) c).2 hp).symm
      have hnamed := recorded?_of_built hl ⟨hkeeps y, hsavable⟩ hb
      rw [recorded?, ← hfile] at hnamed
      rw [recorded?, hnamed, latest_of_same hp, Option.some_or]
    · -- another file was written
      have hne : keyName (buildArgs y) ≠ keyName (buildArgs x) :=
        fun heq => hp ((keyName_eq_iff (hS _ hy _ hx)).1 heq)
      obtain ⟨-, hd⟩ := goBuild_eq_ok hl hb
      have hkept : d'.lookup (c.keyFile x) = d.lookup (c.keyFile x) := by
        rw [hd]
        exact (lookup_writeKey hne _ _).trans (hkeeps x)
      rw [recorded?_congr hkept, ih hmade, latest_of_other hp]
  | unwritten _ hl hkeeps hrefused hb ih =>
    obtain ⟨-, hd⟩ := goBuild_eq_ok hl hb
    rw [hd, writeKey_of_refused hrefused]
    exact (recorded?_congr (hkeeps x)).trans (ih hmade)
  | failed _ hkeeps hb ih =>
    obtain rfl := goBuild_eq_error hb
    exact (recorded?_congr (hkeeps x)).trans (ih hmade)
  | reused launch _ hw ih =>
    rw [hw launch]
    exact ih hmade
  | elsewhere _ hkept ih => exact (recorded?_congr (hkept x)).trans (ih hmade)

/-! ### Bars -/

theorem keeps_workingGo (hd : d.Reliable) (x : List String) (hc : d.get? ["c"] = some .directory)
    (hk : ∀ y, d.get? ["c", keyName (buildArgs y)] ≠ some .directory) :
    smallCache.Keeps x workingGo d := fun y => by
  have hkept := (spares_workingGo hd y hc (hk y)).kept
  simp only [workingGo] at hkept ⊢
  exact hkept

theorem apart_of_bar :
    Apart {args | joined args = "build|-work|-a|a|b" ∨ joined args = "build|-work|-a|c"} := by
  have hdigests : Sha256.hexDigest "build|-work|-a|a|b".toUTF8 ≠
      Sha256.hexDigest "build|-work|-a|c".toUTF8 := by decide +kernel
  rintro a (ha | ha) b (hb | hb) ⟨hne, heq⟩ <;> rw [ha, hb] at hne heq
  · exact hne rfl
  · exact hdigests heq
  · exact hdigests heq.symm
  · exact hne rfl

/-- **Which builds share a work directory.** As far as digests tell apart what they are taken of, two
lists of arguments have one key file just if they have the same pieces, and else two files of one
directory; without bars that is just if they are the same. After any calls a build uses again the
directory of the latest build with the same pieces, which need not have the same arguments, or what
was there before. -/
theorem shared_iff_pieces (hS : Apart S) (c : BuildCache) :
    (∀ a ∈ S, ∀ b ∈ S, (c.keyPath a = c.keyPath b ↔ pieces a = pieces b) ∧
      ∀ (d : Disk) loc, d.resolve (c.keyPath a) = .ok loc → ∃ parent, loc = parent ++ [keyName a] ∧
        d.resolve (c.keyPath b) = .ok (parent ++ [keyName b]) ∧
        (keyName a = keyName b ↔ pieces a = pieces b)) ∧
    (∀ a ∈ S, ∀ b ∈ S, a ≠ [] → b ≠ [] → (∀ s ∈ a ++ b, '|' ∉ s.toList) →
      (c.keyPath a = c.keyPath b ↔ a = b)) ∧
    ∀ d₀ made d, c.Course d₀ made d → (∀ build ∈ made, buildArgs build.1 ∈ S) →
      ∀ x w, buildArgs x ∈ S → (c.Reuses x d w ↔
        (latest made x).or (c.recorded? x d₀) = some w ∧ d.isDirectory w = true) := by
  refine ⟨fun a ha b hb => ⟨keyPath_eq_iff (hS a ha b hb) c, fun d loc hr => ?_⟩,
    fun a ha b hb hna hnb hbar => ?_, fun d₀ made d hcourse hmade x w hx => ?_⟩
  · obtain ⟨parent, hloc, hothers⟩ := resolve_keyPath hr
    exact ⟨parent, hloc, hothers b, keyName_eq_iff (hS a ha b hb)⟩
  · rw [keyPath_eq_iff (hS a ha b hb), pieces_inj_of_barless hna hnb hbar]
  · rw [reuses_iff, hcourse.recorded?_eq hS hmade hx]

theorem shared_of_bar : ∃ d,
    smallCache.goBuild workingGo ["a|b"] emptyCacheDisk = (.ok ⟨"/tmp/w"⟩, d) ∧
    smallCache.Reuses ["a", "b"] d ⟨"/tmp/w"⟩ ∧ smallCache.Launches ["c"] d := by
  have hfree : ∀ args, emptyCacheDisk.get? ["c", keyName args] = none := by
    simp [emptyCacheDisk, Disk.get?]
  have hreliable : emptyCacheDisk.Reliable := fun _ _ _ => rfl
  have hspares := spares_workingGo hreliable ["a|b"] rfl (by simp [hfree])
  have hkeeps := keeps_workingGo hreliable ["a|b"] rfl fun y => by simp [hfree]
  have hnothing : smallCache.recorded? ["c"] emptyCacheDisk = none :=
    recorded?_of_free (resolve_smallCache rfl ["c"]) (hfree _)
  obtain ⟨hlaunches, hbuild⟩ := smallBuild hreliable ["a|b"] rfl (hfree _)
  have hwork : (builtDisk ["a|b"] emptyCacheDisk).isDirectory ⟨"/tmp/w"⟩ = true := rfl
  generalize hd : builtDisk ["a|b"] emptyCacheDisk = d at hbuild hwork
  have hcourse : smallCache.Course emptyCacheDisk [(["a|b"], ⟨"/tmp/w"⟩)] d :=
    .built .start hlaunches hkeeps hspares.savable hbuild
  have hreuses := (shared_iff_pieces apart_of_bar smallCache).2.2 _ _ _ hcourse
    (List.forall_mem_singleton.2 (.inl (by decide)))
  refine ⟨d, hbuild, (hreuses ["a", "b"] _ (.inl (by decide))).2 ⟨?_, hwork⟩, ?_⟩
  · rw [latest_of_same (by decide), Option.some_or]
  · rcases reuses_or_launches smallCache ["c"] d with ⟨w, -, hw⟩ | hl
    · have hnamed := ((hreuses ["c"] w (.inr (by decide))).1 hw).1
      rw [latest_of_other (by decide), latest_nil, hnothing] at hnamed
      cases hnamed
    · exact hl

end Sdk.BuildCache

end TestWeave
