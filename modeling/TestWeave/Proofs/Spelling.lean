import Mathlib.Data.List.Infix
import TestWeave.Proofs.Quoting
import TestWeave.Proofs.Reading

/-!
# Paths that are put between quotes as they are

A path with nothing escaped in it stands for itself between double quotes only if no character of it
ends the literal, and if it loses no backslash when it is read.

* `Spelled`: such a path.
* `Spelled.quotedBody`, `Spelled.unquote`: it is cut off as one literal and read back.
* `spelled_of_unquote`: no other path is.
-/

namespace TestWeave.Source

/-- A path that stands for itself between double quotes. -/
structure Spelled (path : String) : Prop where
  quote : '"' ∉ path.toList
  line : '\n' ∉ path.toList
  /-- No two backslashes stand in a row. -/
  pair : ¬['\\', '\\'] <:+: path.toList
  last : path.toList.getLast? ≠ some '\\'

instance (path : String) : Decidable (Spelled path) :=
  decidable_of_iff
    ('"' ∉ path.toList ∧ '\n' ∉ path.toList ∧ ¬['\\', '\\'] <:+: path.toList ∧
      path.toList.getLast? ≠ some '\\')
    ⟨fun ⟨h1, h2, h3, h4⟩ => ⟨h1, h2, h3, h4⟩, fun ⟨h1, h2, h3, h4⟩ => ⟨h1, h2, h3, h4⟩⟩

variable {a b c : Char} {cs : List Char}

/-! ### Pairs that are read as one character -/

theorem not_infix_tail {p : List Char} (h : ¬p <:+: c :: cs) : ¬p <:+: cs :=
  fun hi => h (hi.trans (List.suffix_cons c cs).isInfix)

/-- A text without pairs stays. -/
theorem dropBefore_eq_self (h : ¬[a, b] <:+: cs) : dropBefore a b cs = cs := by
  fun_induction dropBefore a b cs with
  | case1 => rfl
  | case2 => rfl
  | case3 c d cs hpair ih =>
    obtain ⟨rfl, rfl⟩ := hpair
    exact absurd ⟨[], cs, rfl⟩ h
  | case4 c d cs hpair ih => rw [ih (not_infix_tail h)]

theorem length_dropBefore_le (a b : Char) (cs : List Char) :
    (dropBefore a b cs).length ≤ cs.length := by
  fun_induction dropBefore a b cs with
  | case1 => exact Nat.le_refl _
  | case2 => exact Nat.le_refl _
  | case3 c d cs hpair ih =>
    simp only [List.length_cons]
    omega
  | case4 c d cs hpair ih => simpa using ih

/-- A text that loses no character has no pairs. -/
theorem not_infix_of_length (h : (dropBefore a b cs).length = cs.length) : ¬[a, b] <:+: cs := by
  fun_induction dropBefore a b cs with
  | case1 => simp
  | case2 c =>
    intro hi
    simpa using hi.length_le
  | case3 c d cs hpair ih =>
    have := length_dropBefore_le a b cs
    simp only [List.length_cons] at h
    omega
  | case4 c d cs hpair ih =>
    intro hi
    rcases List.infix_cons_iff.1 hi with hp | hi
    · simp only [List.cons_prefix_cons, List.nil_prefix, and_true] at hp
      exact hpair ⟨hp.1.symm, hp.2.symm⟩
    · exact ih (by simpa using h) hi

/-- Characters that begin no pair are kept. -/
theorem count_dropBefore (h : c ≠ a) (b : Char) (cs : List Char) :
    (dropBefore a b cs).count c = cs.count c := by
  fun_induction dropBefore a b cs with
  | case1 => rfl
  | case2 => rfl
  | case3 d e cs hpair ih =>
    obtain ⟨rfl, rfl⟩ := hpair
    rw [List.count_cons, ih, List.count_cons_of_ne h.symm, List.count_cons]
  | case4 d e cs hpair ih => rw [List.count_cons, ih, ← List.count_cons]

/-! ### Where a literal ends -/

theorem getLast?_cons_ne_iff :
    (c :: cs).getLast? ≠ some a ↔ (cs = [] → c ≠ a) ∧ cs.getLast? ≠ some a := by
  cases cs with
  | nil => simp
  | cons d cs => simp [List.getLast?_cons_cons]

/-- A text without quotes and line breaks ends at the quote behind it, if that is not escaped. -/
theorem quotedBody_closed {cs : List Char} (hq : '"' ∉ cs) (hn : '\n' ∉ cs)
    (hl : cs.getLast? ≠ some '\\') (rest : List Char) :
    quotedBody '"' (cs ++ '"' :: rest) = (cs ++ ['"'], some rest) := by
  match cs with
  | [] => rw [List.nil_append, quotedBody_cons, if_neg (by decide), if_pos rfl, List.nil_append]
  | c :: cs =>
    obtain ⟨hqc, hqs⟩ := not_or.1 (List.mem_cons.not.1 hq)
    obtain ⟨hnc, hns⟩ := not_or.1 (List.mem_cons.not.1 hn)
    rw [List.cons_append, quotedBody_cons, if_neg (Ne.symm hnc), if_neg (Ne.symm hqc)]
    by_cases hc : c = '\\'
    · -- the character behind a backslash is passed over with it
      obtain ⟨d, ds, rfl⟩ : ∃ d ds, cs = d :: ds :=
        List.exists_cons_of_ne_nil fun h => hl (by simp [h, hc])
      have hd : d ≠ '\n' := fun h => hns (by simp [h])
      have hlast := (getLast?_cons_ne_iff.1 (getLast?_cons_ne_iff.1 hl).2).2
      have ih := quotedBody_closed (fun h => hqs (List.mem_cons_of_mem _ h))
        (fun h => hns (List.mem_cons_of_mem _ h)) hlast rest
      rw [if_pos hc, List.cons_append]
      simp only [if_neg hd, ih, List.cons_append]
    · have hlast := (getLast?_cons_ne_iff.1 hl).2
      rw [if_neg hc, quotedBody_closed hqs hns hlast rest, List.cons_append]

/-- What is cut off ends with the quote. -/
theorem quotedBody_last {quote : Char} {cs text rest : List Char}
    (h : quotedBody quote cs = (text, some rest)) : ∃ inner, text = inner ++ [quote] := by
  induction cs using quotedBody.induct quote generalizing text with
  | case1 => simp [quotedBody] at h
  | case2 cs => simp [quotedBody_cons] at h
  | case3 cs hn =>
    rw [quotedBody_cons, if_neg hn, if_pos rfl] at h
    exact ⟨[], (Prod.mk.inj h).1.symm⟩
  | case4 hn hq => simp [quotedBody_cons, hn, hq] at h
  | case5 cs hn hq => simp [quotedBody_cons, hn, hq] at h
  | case6 d ds hd _ _ _ hn hq ih =>
    rw [quotedBody_cons, if_neg hn, if_neg hq, if_pos rfl] at h
    simp only [if_neg hd, Prod.mk.injEq] at h
    have hcut : quotedBody quote ds = ((quotedBody quote ds).1, some rest) := Prod.ext rfl h.2
    obtain ⟨inner, hi⟩ := ih hcut
    exact ⟨'\\' :: d :: inner, by rw [← h.1, hi]; rfl⟩
  | case7 c cs hn hq hc _ _ _ ih =>
    rw [quotedBody_cons, if_neg hn, if_neg hq, if_neg hc, Prod.mk.injEq] at h
    have hcut : quotedBody quote cs = ((quotedBody quote cs).1, some rest) := Prod.ext rfl h.2
    obtain ⟨inner, hi⟩ := ih hcut
    exact ⟨c :: inner, by rw [← h.1, hi]; rfl⟩

/-- **A text without pairs** that ends at the quote behind it has no quote and no line break, and no
backslash at its end. -/
theorem closed_of_quotedBody {cs rest : List Char} (hs : ¬['\\', '"'] <:+: cs)
    (hp : ¬['\\', '\\'] <:+: cs)
    (h : quotedBody '"' (cs ++ '"' :: rest) = (cs ++ ['"'], some rest)) :
    '"' ∉ cs ∧ '\n' ∉ cs ∧ cs.getLast? ≠ some '\\' := by
  match cs with
  | [] => simp
  | c :: cs =>
    rw [List.cons_append, List.cons_append, quotedBody_cons] at h
    by_cases hn : c = '\n'
    · simp [hn] at h
    by_cases hq : c = '"'
    · simp [hq] at h
    rw [if_neg hn, if_neg hq] at h
    by_cases hc : c = '\\'
    · subst hc
      rw [if_pos rfl] at h
      cases cs with
      | nil =>
        -- the quote is passed over, and another would have to follow
        have hbody : (quotedBody '"' rest).1 = [] ∧ (quotedBody '"' rest).2 = some rest := by
          simpa using h
        obtain ⟨inner, hi⟩ := quotedBody_last (Prod.ext hbody.1 hbody.2)
        simp at hi
      | cons d ds =>
        have hd : d ≠ '\n' := by
          rintro rfl
          simp at h
        simp only [List.cons_append, if_neg hd, Prod.mk.injEq, List.cons.injEq, true_and] at h
        have hdq : d ≠ '"' := by
          rintro rfl
          exact hs ⟨[], ds, rfl⟩
        have hdb : d ≠ '\\' := by
          rintro rfl
          exact hp ⟨[], ds, rfl⟩
        obtain ⟨h1, h2, h3⟩ := closed_of_quotedBody (not_infix_tail (not_infix_tail hs))
          (not_infix_tail (not_infix_tail hp)) (Prod.ext h.1 h.2)
        have hlast := getLast?_cons_ne_iff.2 ⟨fun _ => hdb, h3⟩
        exact ⟨by simp [h1, hdq.symm], by simp [h2, hd.symm],
          getLast?_cons_ne_iff.2 ⟨fun h => absurd h (List.cons_ne_nil d ds), hlast⟩⟩
    · rw [if_neg hc] at h
      simp only [Prod.mk.injEq, List.cons.injEq, true_and] at h
      obtain ⟨h1, h2, h3⟩ := closed_of_quotedBody (not_infix_tail hs) (not_infix_tail hp)
        (Prod.ext h.1 h.2)
      exact ⟨by simp [h1, Ne.symm hq], by simp [h2, Ne.symm hn],
        getLast?_cons_ne_iff.2 ⟨fun _ => hc, h3⟩⟩

/-! ### Paths -/

/-- The literal that spells a path, without its first quote. -/
theorem Spelled.quotedBody {path : String} (h : Spelled path) (rest : List Char) :
    quotedBody '"' (path.toList ++ '"' :: rest) = (path.toList ++ ['"'], some rest) :=
  quotedBody_closed h.quote h.line h.last rest

/-- **Such a path is read back.** -/
theorem Spelled.unquote {path : String} (h : Spelled path) :
    unquote (String.ofList ('"' :: (path.toList ++ ['"']))) = path := by
  have hquote : ¬['\\', '"'] <:+: path.toList := fun hi =>
    h.quote (hi.subset (List.mem_cons_of_mem _ (List.mem_singleton_self _)))
  rw [unquote_interpreted, dropBefore_eq_self hquote, dropBefore_eq_self h.pair,
    String.ofList_toList]

/-- **No other path is read back**: whatever literal is cut off where it is put, it is not read as the
path. -/
theorem spelled_of_unquote {path : String} {body rest rest' : List Char}
    (hb : Source.quotedBody '"' (path.toList ++ '"' :: rest) = (body, some rest'))
    (hu : Source.unquote (String.ofList ('"' :: body)) = path) : Spelled path := by
  obtain ⟨inner, rfl⟩ := quotedBody_last hb
  rw [unquote_interpreted] at hu
  have hread : dropBefore '\\' '\\' (dropBefore '\\' '"' inner) = path.toList := by
    rw [← hu, String.toList_ofList]
  have hone := length_dropBefore_le '\\' '"' inner
  have htwo := length_dropBefore_le '\\' '\\' (dropBefore '\\' '"' inner)
  rw [hread] at htwo
  -- the literal is neither shorter than the path nor longer: it would have one quote more
  have hinner : inner = path.toList ∧ rest' = rest := by
    have happ := quotedBody_append hb
    rw [List.append_assoc, List.singleton_append] at happ
    rcases List.append_eq_append_iff.1 happ with ⟨more, hpath, hmore⟩ | ⟨more, hpath, hmore⟩
    · cases more with
      | nil => simp_all
      | cons c more =>
        have := congrArg List.length hpath
        simp only [List.length_append, List.length_cons] at this
        omega
    · cases more with
      | nil => simp_all
      | cons c more =>
        obtain ⟨rfl, -⟩ := List.cons.inj hmore
        have hcount : path.toList.count '"' = inner.count '"' := by
          rw [← hread, count_dropBefore (by decide), count_dropBefore (by decide)]
        rw [hpath, List.count_append, List.count_cons_self] at hcount
        omega
  obtain ⟨rfl, rfl⟩ := hinner
  have hquote : ¬['\\', '"'] <:+: path.toList := not_infix_of_length (by omega)
  rw [dropBefore_eq_self hquote] at hread
  have hpair := not_infix_of_length (congrArg List.length hread)
  obtain ⟨h1, h2, h3⟩ := closed_of_quotedBody hquote hpair hb
  exact ⟨h1, h2, hpair, h3⟩

/-- A backslash stands for itself where nothing is made of it. -/
example : Spelled "a\\b" ∧ ¬Spelled "a\\\\b" ∧ ¬Spelled "a\\" := by decide

end TestWeave.Source
