import TestWeave.Proofs.Reading

/-!
# Operators, the longest first

* `Operator.longestIn_eq_some_iff`: the operator that is found begins the text, and none that
  begins the text is longer.
* `Operator.longestIn_append_of_head`: what cannot go on with an operator does not change which is found.
* `Operator.EndsBefore.of_head`, `Operator.EndsBefore.congr`: an operator ends where a character
  follows that goes on with none, and what follows counts by its first two characters.
-/

namespace TestWeave.Source

open TestWeave.Text

namespace Operator

/-- The characters that operators are continued with. -/
def tails : List Char := ['=', '&', '|', '-', '+', '.', '<', '>', '^', '/', '*']

theorem mem_tails (op : Operator) {c : Char} (h : c ∈ op.spelling.toList.tail) : c ∈ tails := by
  have hall : ∀ o ∈ all, o.spelling.toList.tail.all tails.contains = true := by decide
  simpa using List.all_eq_true.1 (hall op op.mem_all) c h

theorem mem_marks_of_mem_tails {c : Char} (h : c ∈ tails) : c ∈ marks := by
  have hall : tails.all marks.contains = true := by decide
  simpa using List.all_eq_true.1 hall c h

theorem spelling_inj {a b : Operator} (h : a.spelling.toList = b.spelling.toList) : a = b := by
  have : ∀ a ∈ all, ∀ b ∈ all, a.spelling.toList = b.spelling.toList → a = b := by decide
  exact this a a.mem_all b b.mem_all h

theorem all_pairwise : all.Pairwise fun a b => b.spelling.toList.length ≤ a.spelling.toList.length := by
  decide

/-- **The longest operator.** The one found begins the text, and none that begins the text is
longer. -/
theorem longestIn_eq_some_iff {cs : List Char} {op : Operator} :
    longestIn cs = some op ↔ op.spelling.toList <+: cs ∧
      ∀ o : Operator, o.spelling.toList <+: cs →
        o.spelling.toList.length ≤ op.spelling.toList.length := by
  have sorted := all_pairwise
  constructor
  · intro h
    obtain ⟨hp, as, bs, hall, has⟩ := List.find?_eq_some_iff_append.1 h
    refine ⟨List.isPrefixOf_iff_prefix.1 hp, fun o ho => ?_⟩
    have hm := o.mem_all
    rw [hall, List.pairwise_append, List.pairwise_cons] at sorted
    rw [hall, List.mem_append, List.mem_cons] at hm
    rcases hm with hm | rfl | hm
    · have := has o hm
      simp [List.isPrefixOf_iff_prefix.2 ho] at this
    · exact le_rfl
    · exact sorted.2.1.1 o hm
  · rintro ⟨hp, hmax⟩
    have hsome : (longestIn cs).isSome := by
      rw [longestIn, List.find?_isSome]
      exact ⟨op, op.mem_all, List.isPrefixOf_iff_prefix.2 hp⟩
    obtain ⟨o, ho⟩ := Option.isSome_iff_exists.1 hsome
    rw [ho]
    obtain ⟨hop, as, bs, hall, has⟩ := List.find?_eq_some_iff_append.1 ho
    have hop := List.isPrefixOf_iff_prefix.1 hop
    have hle := hmax o hop
    have hm := op.mem_all
    rw [hall, List.pairwise_append, List.pairwise_cons] at sorted
    rw [hall, List.mem_append, List.mem_cons] at hm
    -- the one found is no shorter either, so both are the same head of the text
    have hge : op.spelling.toList.length ≤ o.spelling.toList.length := by
      rcases hm with hm | rfl | hm
      · have := has op hm
        simp [List.isPrefixOf_iff_prefix.2 hp] at this
      · exact le_rfl
      · exact sorted.2.1.1 op hm
    have := (List.prefix_of_prefix_length_le hop hp hle).eq_of_length (by omega)
    rw [spelling_inj this]

theorem longestIn_self (op : Operator) : longestIn op.spelling.toList = some op := by
  rw [longestIn_eq_some_iff]
  exact ⟨List.prefix_rfl, fun o ho => ho.length_le⟩

/-- An operator that begins `s ++ rest` begins `s`, if it does not go on with `rest`. -/
theorem prefix_of_append {o : Operator} {s rest : List Char}
    (hr : ∀ c ∈ rest.head?, ¬s ++ [c] <+: o.spelling.toList)
    (h : o.spelling.toList <+: s ++ rest) : o.spelling.toList <+: s := by
  obtain ⟨t, ht⟩ := h
  rcases List.append_eq_append_iff.1 ht with ⟨as, rfl, -⟩ | ⟨bs, hbs, rfl⟩
  · exact List.prefix_append _ _
  · cases bs with
    | nil => exact ⟨[], by simp [hbs]⟩
    | cons c bs => exact absurd ⟨bs, by simp [hbs]⟩ (hr c rfl)

/-- No operator goes on with a character that is not among `tails`. -/
theorem not_prefix_of_notMem_tails {s : List Char} {c : Char} (hs : s ≠ []) (hc : c ∉ tails)
    (o : Operator) : ¬s ++ [c] <+: o.spelling.toList := by
  rintro ⟨t, ht⟩
  obtain ⟨d, s, rfl⟩ := List.exists_cons_of_ne_nil hs
  exact hc (mem_tails o (by simp [← ht]))

theorem longestIn_append_of_head {s rest : List Char}
    (hr : ∀ c ∈ rest.head?, ∀ o : Operator, ¬s ++ [c] <+: o.spelling.toList) :
    longestIn (s ++ rest) = longestIn s := by
  refine Option.ext fun op => ?_
  rw [longestIn_eq_some_iff, longestIn_eq_some_iff]
  constructor
  · rintro ⟨h, hmax⟩
    exact ⟨prefix_of_append (fun c hc => hr c hc op) h,
      fun o ho => hmax o (ho.trans (List.prefix_append s rest))⟩
  · rintro ⟨h, hmax⟩
    exact ⟨h.trans (List.prefix_append s rest),
      fun o ho => hmax o (prefix_of_append (fun c hc => hr c hc o) ho)⟩

/-- An operator ends where a character follows that goes on with none. -/
theorem EndsBefore.of_head {op : Operator} {rest : List Char} (hr : ∀ c ∈ rest.head?, c ∉ tails)
    (hd : op = .dot → ∀ c ∈ rest.head?, c.isDigit = false) : op.EndsBefore rest where
  longest := by
    rw [longestIn_append_of_head, longestIn_self]
    exact fun c hc => not_prefix_of_notMem_tails (by simpa using op.spelling_ne_empty) (hr c hc)
  noComment := by
    rintro - c hc
    constructor <;> rintro rfl <;> exact hr _ hc (by decide)
  noNumber := hd

/-- The minus sign and the mark of less are the operators that go on with what a name from the end
of an import path may begin with, apart from the dot. -/
theorem EndsBefore.of_soft {op : Operator} {c : Char} {rest : List Char}
    (hm : op ≠ .minus) (hl : op ≠ .lt) (hd : op ≠ .dot) (hc : c ∉ tails ∨ c = '-' ∨ c = '.') :
    op.EndsBefore (c :: rest) where
  longest := by
    -- of all operators only these three go on with a minus sign or a dot
    have plain : ∀ a ∈ all, a ≠ .minus → a ≠ .lt → a ≠ .dot → ∀ o ∈ all,
        (a.spelling.toList ++ ['-']).isPrefixOf o.spelling.toList = false ∧
          (a.spelling.toList ++ ['.']).isPrefixOf o.spelling.toList = false := by decide
    rw [longestIn_append_of_head, longestIn_self]
    intro d hd' o ho
    obtain rfl : c = d := by simpa using hd'
    have := plain op op.mem_all hm hl hd o o.mem_all
    rcases hc with hc | rfl | rfl
    · exact not_prefix_of_notMem_tails (by simpa using op.spelling_ne_empty) hc o ho
    · rw [List.isPrefixOf_iff_prefix.2 ho] at this
      simp at this
    · rw [List.isPrefixOf_iff_prefix.2 ho] at this
      simp at this
  noComment := by
    rintro - d hd'
    obtain rfl : c = d := by simpa using hd'
    constructor
    · rintro rfl
      exact absurd hc (by decide)
    · rintro rfl
      exact absurd hc (by decide)
  noNumber := fun h => absurd h hd

/-- Of an operator that goes on with a character, the one with just this character more is an operator
too, the three dots apart. -/
theorem goes_on {op o : Operator} {c : Char} {t : List Char}
    (h : op.spelling.toList ++ c :: t = o.spelling.toList) :
    (∃ m : Operator, m.spelling.toList = op.spelling.toList ++ [c]) ∨
      op = .dot ∧ o = .ellipsis := by
  have : ∀ op ∈ all, ∀ o ∈ all, op.spelling.toList.isPrefixOf o.spelling.toList = true →
      op.spelling.toList.length < o.spelling.toList.length →
      (∃ m ∈ all, m.spelling.toList = o.spelling.toList.take (op.spelling.toList.length + 1)) ∨
        op = .dot ∧ o = .ellipsis := by
    decide
  refine (this op op.mem_all o o.mem_all (List.isPrefixOf_iff_prefix.2 ⟨_, h⟩) ?_).imp_left ?_
  · rw [← h, List.length_append, List.length_cons]
    omega
  · rintro ⟨m, -, hm⟩
    refine ⟨m, hm.trans ?_⟩
    rw [← h, List.take_length_add_append]
    rfl

/-- What follows an operator counts by its first character, and behind a dot by its first two. -/
theorem EndsBefore.congr {op : Operator} {rest rest' : List Char} (h : op.EndsBefore rest)
    (hh : rest'.head? = rest.head?)
    (hd : rest.head? = some '.' → rest'.tail.head? = some '.' → rest.tail.head? = some '.') :
    op.EndsBefore rest' where
  longest := by
    have hl := h.longest
    rw [longestIn_eq_some_iff] at hl ⊢
    refine ⟨List.prefix_append _ _, fun o ho => ?_⟩
    by_contra hlt
    obtain ⟨t, ht⟩ : op.spelling.toList <+: o.spelling.toList :=
      List.prefix_of_prefix_length_le (List.prefix_append _ _) ho (by omega)
    obtain ⟨c, t, rfl⟩ : ∃ c t', t = c :: t' := by
      refine List.exists_cons_of_ne_nil ?_
      rintro rfl
      rw [List.append_nil] at ht
      exact hlt (by rw [ht])
    obtain ⟨s, rfl⟩ : c :: t <+: rest' := by rwa [← ht, List.prefix_append_right_inj] at ho
    obtain ⟨r, rfl⟩ := List.head?_eq_some_iff.1 hh.symm
    rcases goes_on ht with ⟨m, hm⟩ | ⟨rfl, rfl⟩
    · -- one character more would have been read before `rest` too
      have hmore := hl.2 m (by rw [hm, List.prefix_append_right_inj]; exact ⟨r, rfl⟩)
      rw [hm, List.length_append, List.length_singleton] at hmore
      omega
    · -- a third dot would have been read there too
      obtain ⟨rfl, rfl⟩ : c = '.' ∧ t = ['.'] := by simpa [Operator.spelling] using ht
      obtain ⟨r, rfl⟩ := List.head?_eq_some_iff.1 (hd rfl rfl)
      exact absurd (hl.2 .ellipsis ⟨r, rfl⟩) (by decide)
  noComment := by rw [hh]; exact h.noComment
  noNumber := by rw [hh]; exact h.noNumber

end Operator

end TestWeave.Source
