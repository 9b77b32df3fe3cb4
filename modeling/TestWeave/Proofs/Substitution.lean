import TestWeave.Proofs.Untouched

/-!
# Swapping as substitution

Source files are swapped one after another, each time the first that has the old name. This gives
each of them the file that the map has for it, unless a file that was put in its place has the name
of a later one: that one is not swapped then, and the earlier one is swapped twice.

* `fst_swapSources`: every swap finds a source file, the right one or not.
* `follows_swapSources`: words that the map does not have are kept, and all roles.
* `mismatches_foldl`: a swap sets at most one word right.
* `substituted_iff`: when every word is given its own file.
-/

namespace TestWeave.Command

variable {α : Type} {pick : α → Bool} {f : α → α} {mapping : PathMap} {c c' : CommandLine}
  {ws ws' front back : List Word} {w w₁ w' : Word} {swap : String × String}

/-! ### The count -/

/-- One swap of a series, with the count of those that found their file. -/
def countNext (s : Nat × CommandLine) (swap : String × String) : Nat × CommandLine :=
  match s.2.replaceSource? swap.1 swap.2 with
  | some c => (s.1 + 1, c)
  | none => s

/-- The first element that is picked is found whatever follows. -/
theorem modifyFirst?_append_of_some {as as' : List α} (h : modifyFirst? pick f as = some as')
    (bs : List α) : modifyFirst? pick f (as ++ bs) = some (as' ++ bs) := by
  obtain ⟨front, a, back, rfl, rfl, ha, hfront⟩ := modifyFirst?_eq_some h
  have happend := modifyFirst?_append (f := f) (back ++ bs) hfront ha
  simpa using happend

/-- **Each swap finds a file**, as none before it has changed a word behind its own. -/
theorem fst_foldl_countNext (mapping : PathMap) (front back : List Word) (tool : Path) (n : Nat) :
    ((swaps mapping (.ofWords tool back)).foldl countNext (n, .ofWords tool (front ++ back))).1 =
      n + back.countP fun w => (w.swap? mapping).isSome := by
  induction back generalizing front n with
  | nil => rfl
  | cons w back ih =>
    rw [swaps_cons, List.foldl_append, List.countP_cons]
    cases hw : w.swap? mapping with
    | none =>
      have := ih (front ++ [w]) n
      simpa [hw] using this
    | some new =>
      -- the word has its old name still, if no word in front of it has that name
      obtain ⟨front', hreplace⟩ : ∃ front',
          (CommandLine.ofWords tool (front ++ w :: back)).replaceSource? w.text new.text =
            some (.ofWords tool (front' ++ back)) := by
        have hself : w.isFile w.text = true := Word.isFile_iff.2 ⟨(Word.swap?_eq_some.1 hw).1, rfl⟩
        cases hfirst : modifyFirst? (Word.isFile w.text) ({ · with text := new.text })
            (front ++ [w]) with
        | none => exact absurd hself (Bool.eq_false_iff.1 (modifyFirst?_eq_none.1 hfirst w (by simp)))
        | some front' =>
          refine ⟨front', ?_⟩
          rw [replaceSource?_ofWords, List.append_cons, modifyFirst?_append_of_some hfirst]
          rfl
      have hnext : countNext (n, .ofWords tool (front ++ w :: back)) (w.text, new.text) =
          (n + 1, .ofWords tool (front' ++ back)) := by rw [countNext, hreplace]
      simp only [Option.map_some, Option.toList_some, List.foldl_cons, List.foldl_nil, hnext, ih,
        Option.isSome_some, if_true]
      omega

/-- **The count** is that of the source files that the map has. -/
theorem fst_swapSources (mapping : PathMap) (hp : c.Paired) :
    (swapSources mapping c).1 = c.words.countP fun w => (w.swap? mapping).isSome := by
  have hcount := fst_foldl_countNext mapping [] c.words c.tool 0
  rwa [List.nil_append, ← hp.eq_ofWords, Nat.zero_add] at hcount

/-! ### Words that the map does not have -/

/-- A word, and the word in its place after swapping: the same, or one with the same role in the place
of a source file that the map has. -/
def Word.Follows (mapping : PathMap) (w w' : Word) : Prop :=
  w' = w ∨ (w.swap? mapping).isSome = true ∧ w'.role = w.role

theorem Word.Follows.trans (h : w.Follows mapping w₁) (h' : w₁.Follows mapping w') :
    w.Follows mapping w' := by
  rcases h with rfl | ⟨hkey, hrole⟩
  · exact h'
  · refine .inr ⟨hkey, ?_⟩
    rcases h' with rfl | ⟨-, hrole'⟩
    · exact hrole
    · exact hrole'.trans hrole

/-- The words of two command lines, one made from the other by swapping files that the map has. -/
def AllFollow (mapping : PathMap) : List Word → List Word → Prop := List.Forall₂ (Word.Follows mapping)

instance : Std.Refl (Word.Follows mapping) := ⟨fun _ => .inl rfl⟩

theorem AllFollow.refl (ws : List Word) : AllFollow mapping ws ws := List.forall₂_refl ws

theorem isSome_find?_of_mem_swaps (h : swap ∈ swaps mapping c) :
    (mapping.find? ⟨swap.1⟩).isSome = true := by
  obtain ⟨source, -, hs⟩ := List.mem_filterMap.1 h
  obtain ⟨replacement, hfind, rfl⟩ := Option.map_eq_some_iff.1 hs
  rw [hfind]
  rfl

theorem follows_foldl {list : List (String × String)}
    (hp : c.Paired) (h : ∀ swap ∈ list, (mapping.find? ⟨swap.1⟩).isSome = true) :
    (list.foldl swapNext c).tool = c.tool ∧
      AllFollow mapping c.words (list.foldl swapNext c).words := by
  induction list generalizing c with
  | nil => exact ⟨rfl, .refl _⟩
  | cons swap list ih =>
    obtain ⟨hswap, hlist⟩ := List.forall_mem_cons.1 h
    have hone : (swapNext c swap).tool = c.tool ∧
        AllFollow mapping c.words (swapNext c swap).words := by
      rcases swapNext_cases hp swap with hsame | ⟨front, w, back, hc, hw, hnext⟩
      · rw [hsame]
        exact ⟨rfl, .refl _⟩
      · obtain ⟨hsource, htext⟩ := Word.isFile_iff.1 hw
        have hkey : (w.swap? mapping).isSome = true := by
          rwa [Word.swap?, if_pos hsource, htext]
        rw [hnext, hc, words_ofWords]
        have hback : AllFollow mapping back back := .refl back
        exact ⟨rfl, List.rel_append (AllFollow.refl front) (.cons (.inr ⟨hkey, rfl⟩) hback)⟩
    obtain ⟨htool, hwords⟩ := ih (paired_swapNext hp swap) hlist
    exact ⟨htool.trans hone.1, forall₂_trans hone.2 hwords fun _ _ _ => Word.Follows.trans⟩

/-- **Swapping keeps** the tool, the roles, and every word that the map does not have. -/
theorem follows_swapSources (mapping : PathMap) (hp : c.Paired) :
    (swapSources mapping c).2.tool = c.tool ∧
      AllFollow mapping c.words (swapSources mapping c).2.words := by
  rw [swapSources_eq]
  exact follows_foldl hp fun _ hs => isSome_find?_of_mem_swaps hs

/-! ### Words that are not what they are to become -/

/-- How many words are not those in their places on another list. -/
def mismatches (ws target : List Word) : Nat := (ws.zip target).countP fun p => p.1 ≠ p.2

theorem mismatches_self (ws : List Word) : mismatches ws ws = 0 := by
  induction ws with
  | nil => rfl
  | cons w ws ih => simpa [mismatches] using ih

theorem mismatches_append {target target' : List Word} (h : ws.length = target.length) :
    mismatches (ws ++ ws') (target ++ target') = mismatches ws target + mismatches ws' target' := by
  rw [mismatches, List.zip_append h, List.countP_append]
  rfl

theorem mismatches_cons (w w' : Word) (ws ws' : List Word) :
    mismatches (w :: ws) (w' :: ws') = mismatches ws ws' + if w = w' then 0 else 1 := by
  rw [mismatches, List.zip_cons_cons, List.countP_cons]
  simp [mismatches]

/-- A word that is changed is one mismatch at most. -/
theorem mismatches_le_of_one (front back : List Word) (w w' : Word) (target : List Word) :
    mismatches (front ++ w :: back) target ≤ mismatches (front ++ w' :: back) target + 1 := by
  induction front generalizing target with
  | nil =>
    cases target with
    | nil => simp [mismatches]
    | cons t target =>
      rw [List.nil_append, List.nil_append, mismatches_cons, mismatches_cons]
      split <;> split <;> omega
  | cons v front ih =>
    cases target with
    | nil => simp [mismatches]
    | cons t target =>
      have := ih target
      rw [List.cons_append, List.cons_append, mismatches_cons, mismatches_cons]
      omega

theorem mismatches_swapNext (hp : c.Paired) (swap : String × String) (target : List Word) :
    mismatches c.words target ≤
      mismatches (swapNext c swap).words target + if swap.1 = swap.2 then 0 else 1 := by
  by_cases hsame : swap.1 = swap.2
  · have hkept := swapNext_self hp swap.1
    rw [if_pos hsame, Nat.add_zero, show swap = (swap.1, swap.1) from Prod.ext rfl hsame.symm, hkept]
  · rw [if_neg hsame]
    rcases swapNext_cases hp swap with hkept | ⟨front, w, back, hc, -, hnext⟩
    · rw [hkept]
      exact Nat.le_succ _
    · rw [hnext, hc, words_ofWords]
      exact mismatches_le_of_one ..

/-- **A series of swaps** sets no more words right than it has swaps, those not counted that swap a
file for itself. -/
theorem mismatches_foldl (list : List (String × String)) (hp : c.Paired) (target : List Word) :
    mismatches c.words target ≤ mismatches (list.foldl swapNext c).words target +
      list.countP fun swap => swap.1 ≠ swap.2 := by
  induction list generalizing c with
  | nil => exact Nat.le_refl _
  | cons swap list ih =>
    have hone := mismatches_swapNext hp swap target
    have hrest := ih (paired_swapNext hp swap)
    have hcount : (swap :: list).countP (fun swap => swap.1 ≠ swap.2) =
        list.countP (fun swap => swap.1 ≠ swap.2) + if swap.1 = swap.2 then 0 else 1 := by
      rw [List.countP_cons]
      simp
    rw [List.foldl_cons, hcount]
    omega

/-- As many swaps are made of words as there are words that are to be changed. -/
theorem countP_swaps_ne (mapping : PathMap) (tool : Path) (ws : List Word) :
    (swaps mapping (.ofWords tool ws)).countP (fun swap => swap.1 ≠ swap.2) =
      mismatches ws (ws.map (Word.swappedBy mapping)) := by
  induction ws with
  | nil => rfl
  | cons w ws ih =>
    rw [swaps_cons, List.countP_append, ih, List.map_cons, mismatches_cons, Nat.add_comm,
      Nat.add_left_cancel_iff]
    cases hw : w.swap? mapping with
    | none => simp [Word.swappedBy_of_none hw]
    | some new =>
      have hiff : w = w.swappedBy mapping ↔ w.text = new.text := by
        obtain ⟨text, role⟩ := w
        simp [Word.swappedBy_of_some hw]
      by_cases hsame : w.text = new.text <;> simp [hiff, hsame]

/-! ### When every word is given its own file -/

theorem swaps_append (mapping : PathMap) (tool : Path) (ws ws' : List Word) :
    swaps mapping (.ofWords tool (ws ++ ws')) =
      swaps mapping (.ofWords tool ws) ++ swaps mapping (.ofWords tool ws') := by
  simp [swaps, CommandLine.sources]

/-- The first element that another in front of it is related to. -/
theorem exists_first_of_not_pairwise {r : α → α → Prop} {as : List α}
    (h : ¬as.Pairwise fun a b => ¬r a b) : ∃ front a back, as = front ++ a :: back ∧
      (front.Pairwise fun a b => ¬r a b) ∧ ∃ b ∈ front, r b a := by
  induction as using List.reverseRecOn with
  | nil => simp at h
  | append_singleton as a ih =>
    by_cases has : as.Pairwise fun a b => ¬r a b
    · refine ⟨as, a, [], rfl, has, ?_⟩
      by_contra hnone
      push Not at hnone
      exact h (List.pairwise_append.2 ⟨has, List.pairwise_singleton .., by simpa using hnone⟩)
    · obtain ⟨front, b, back, rfl, hfront, hb⟩ := ih has
      exact ⟨front, b, back ++ [a], by simp, hfront, hb⟩

/-- **The swap of a word that is shadowed** leaves it as it is and undoes the swap of another. -/
theorem mismatches_of_shadowed {front : List Word} {u : Word} (hu : u ∈ front)
    (h : u.Shadows mapping w) (back : List Word) (tool : Path) : ∃ new, w.swap? mapping = some new ∧
      mismatches back (back.map (Word.swappedBy mapping)) + 2 ≤
        mismatches (swapNext (.ofWords tool (front.map (Word.swappedBy mapping) ++ w :: back))
          (w.text, new.text)).words ((front ++ w :: back).map (Word.swappedBy mapping)) := by
  obtain ⟨⟨other, hother, htext⟩, new, hw, hne⟩ := h
  refine ⟨new, hw, ?_⟩
  have hfound : (u.swappedBy mapping).isFile w.text = true := by
    rw [Word.swappedBy_of_some hother]
    exact Word.isFile_iff.2 ⟨(Word.swap?_eq_some.1 hother).1, htext⟩
  cases hfirst : modifyFirst? (Word.isFile w.text) ({ · with text := new.text })
      (front.map (Word.swappedBy mapping)) with
  | none =>
    have hnone := modifyFirst?_eq_none.1 hfirst _ (List.mem_map_of_mem hu)
    exact absurd hfound (Bool.eq_false_iff.1 hnone)
  | some front' =>
    have hnext : swapNext (.ofWords tool (front.map (Word.swappedBy mapping) ++ w :: back))
        (w.text, new.text) = .ofWords tool (front' ++ w :: back) := by
      rw [swapNext, replaceSource?_ofWords, modifyFirst?_append_of_some hfirst]
      rfl
    obtain ⟨fs, v, bs, hfront, rfl, hv, -⟩ := modifyFirst?_eq_some hfirst
    -- the word that was found had its new file already
    have hundone : ({ v with text := new.text } : Word) ≠ v := by
      intro hsame
      exact hne ((congrArg Word.text hsame).trans (Word.isFile_iff.1 hv).2)
    have hleft : w ≠ w.swappedBy mapping := by
      rw [Word.swappedBy_of_some hw]
      exact fun hsame => hne (congrArg Word.text hsame).symm
    rw [hnext, words_ofWords, List.map_append, hfront, mismatches_append (by simp),
      mismatches_append rfl, mismatches_self, List.map_cons, mismatches_cons, mismatches_cons, mismatches_self,
      if_neg hundone, if_neg hleft]
    omega

/-- **Where a word is shadowed**, not every word is given its own file: what the first that is shadowed
leaves wrong is more than what the swaps of the words behind it can set right. -/
theorem unshadowed_of_swapped (hp : c.Paired) (h : (swapSources mapping c).2 = c.swappedBy mapping) :
    c.words.Pairwise fun w v => ¬w.Shadows mapping v := by
  by_contra hnot
  obtain ⟨front, w, back, hwords, hfront, u, hu, hshadows⟩ := exists_first_of_not_pairwise hnot
  obtain ⟨tool, ws, rfl⟩ := hp.exists_words
  obtain rfl : ws = front ++ w :: back := by rwa [words_ofWords] at hwords
  obtain ⟨new, hw, hmore⟩ := mismatches_of_shadowed hu hshadows back tool
  have hbefore := foldl_swapNext [] hfront (w :: back) tool
  rw [List.map_nil, List.nil_append, List.nil_append] at hbefore
  have hafter := mismatches_foldl (swaps mapping (.ofWords tool back))
    (paired_swapNext (paired_ofWords tool (front.map (Word.swappedBy mapping) ++ w :: back))
      (w.text, new.text)) ((front ++ w :: back).map (Word.swappedBy mapping))
  rw [swapSources_eq, swaps_append, swaps_cons, hw, List.foldl_append, hbefore] at h
  have hwords := congrArg CommandLine.words h
  simp only [Option.map_some, Option.toList_some, List.singleton_append, List.foldl_cons,
    CommandLine.swappedBy, words_ofWords] at hwords
  rw [hwords, mismatches_self, countP_swaps_ne] at hafter
  omega

/-- **Swapping.** The count is that of the source files that the map has. The tool is kept, and so
are the roles and every word that the map does not have. Every word that it has is given the file that
the map has for it, if and only if no word shadows a later one. -/
theorem substituted_iff (mapping : PathMap) (hp : c.Paired) :
    (swapSources mapping c).1 = c.words.countP (fun w => (w.swap? mapping).isSome) ∧
      (swapSources mapping c).2.tool = c.tool ∧
      AllFollow mapping c.words (swapSources mapping c).2.words ∧
      ((swapSources mapping c).2 = c.swappedBy mapping ↔
        c.words.Pairwise fun w v => ¬w.Shadows mapping v) :=
  ⟨fst_swapSources mapping hp, (follows_swapSources mapping hp).1,
    (follows_swapSources mapping hp).2, unshadowed_of_swapped hp, swapSources_of_unshadowed hp⟩

/-- Two files, and a map from each to the next in a chain. -/
def chain : PathMap := [(⟨"a_test.go"⟩, ⟨"b_test.go"⟩), (⟨"b_test.go"⟩, ⟨"c_test.go"⟩)]

theorem not_substituted_of_chain :
    (swapSources chain (.compile ⟨"compile"⟩ ["a_test.go", "b_test.go"])).2 ≠
      (CommandLine.compile ⟨"compile"⟩ ["a_test.go", "b_test.go"]).swappedBy chain :=
  (substituted_iff chain (paired_read ..)).2.2.2.not.2 (by decide +kernel)

end TestWeave.Command
