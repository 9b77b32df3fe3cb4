import TestWeave.Proofs.Moves

/-!
# Edits made all at once

Edits are made one after another, from left to right. `substitute` says what becomes of a text if
they are made all at once: every offset is read in the text as it was, and at each of them the
edits that begin there put their texts.

* `applyEdits_ok_iff`: edits can be made iff any two of them stand clear of each other.
* `splice_eq_substitute`: edits in order make what they make all at once.
* `applyEdits_inserts`: so do insertions at one offset, with edits behind them in any order.
-/

namespace TestWeave.Change

open TestWeave.Source

/-! ### What edits make all at once -/

/-- The texts of the edits that begin at an offset, in the order of the list. -/
def textsAt (edits : List Edit) (offset : Nat) : List Char :=
  (edits.filter (·.start == offset)).flatMap (·.text.toList)

/-- Whether an edit takes away what stands at an offset. -/
def takesAway (edits : List Edit) (offset : Nat) : Bool :=
  edits.any fun e => e.start ≤ offset && offset < e.stop

/-- A text that begins at byte `here` after edits that are made all at once. -/
def substitute (edits : List Edit) (here : Nat) : List Char → List Char
  | [] => textsAt edits here
  | c :: cs =>
    textsAt edits here ++ (if takesAway edits here then [] else [c]) ++
      substitute edits (here + c.utf8Size) cs

variable {edits es es' : List Edit} {e : Edit} {here cursor : Nat} {kept removed rest : List Char}

theorem textsAt_append (es es' : List Edit) (offset : Nat) :
    textsAt (es ++ es') offset = textsAt es offset ++ textsAt es' offset := by
  simp [textsAt]

theorem textsAt_cons (e : Edit) (es : List Edit) (offset : Nat) :
    textsAt (e :: es) offset =
      (if e.start = offset then e.text.toList else []) ++ textsAt es offset := by
  by_cases h : e.start = offset <;> simp [textsAt, h]

theorem textsAt_eq_nil {offset : Nat} (h : ∀ e ∈ es, e.start ≠ offset) :
    textsAt es offset = [] := by
  have : es.filter (·.start == offset) = [] := by simpa using h
  rw [textsAt, this]
  rfl

theorem takesAway_cons (e : Edit) (es : List Edit) (offset : Nat) :
    takesAway (e :: es) offset =
      ((e.start ≤ offset && offset < e.stop) || takesAway es offset) := rfl

theorem takesAway_eq_false {offset : Nat} (h : ∀ e ∈ es, offset < e.start) :
    takesAway es offset = false := by
  rw [takesAway, List.any_eq_false]
  intro e he
  have := h e he
  simp only [Bool.and_eq_true, decide_eq_true_eq]
  omega

/-- What edits make all at once depends only on what they do at each offset. -/
theorem substitute_congr (ht : ∀ offset, textsAt es offset = textsAt es' offset)
    (hr : ∀ offset, takesAway es offset = takesAway es' offset) (here : Nat) (rest : List Char) :
    substitute es here rest = substitute es' here rest := by
  induction rest generalizing here with
  | nil => exact ht here
  | cons c cs ih => rw [substitute, substitute, ht, hr, ih]

/-- An edit in front of a text does nothing to it. -/
theorem substitute_passed (hs : e.start < here) (ht : e.stop ≤ here) :
    substitute (e :: es) here rest = substitute es here rest := by
  have htexts : ∀ n, here ≤ n → textsAt (e :: es) n = textsAt es n := by
    intro n hn
    rw [textsAt_cons, if_neg (by omega)]
    rfl
  have htakes : ∀ n, here ≤ n → takesAway (e :: es) n = takesAway es n := by
    intro n hn
    have : (decide (n < e.stop)) = false := decide_eq_false (by omega)
    rw [takesAway_cons, this, Bool.and_false, Bool.false_or]
  induction rest generalizing here with
  | nil => exact htexts here (le_refl here)
  | cons c cs ih =>
    rw [substitute, substitute, htexts here (le_refl here), htakes here (le_refl here)]
    rw [ih (by omega) (by omega) (fun n hn => htexts n (by omega)) fun n hn =>
      htakes n (by omega)]

/-- What stands in front of all edits is kept. -/
theorem substitute_keep (h : ∀ e ∈ es, here + byteSize kept ≤ e.start) :
    substitute es here (kept ++ rest) = kept ++ substitute es (here + byteSize kept) rest := by
  induction kept generalizing here with
  | nil => simp [byteSize]
  | cons c cs ih =>
    have hc := Char.utf8Size_pos c
    simp only [byteSize] at h ⊢
    have htexts : textsAt es here = [] := textsAt_eq_nil fun e he => by
      have := h e he
      omega
    have htakes : takesAway es here = false := takesAway_eq_false fun e he => by
      have := h e he
      omega
    rw [List.cons_append, substitute, htexts, htakes, ih fun e he => by
      have := h e he
      omega]
    simp [Nat.add_assoc]

/-- What an edit takes away is passed over, if no other edit begins in it. -/
theorem substitute_skip (hs : e.start < here) (ht : here + byteSize removed ≤ e.stop)
    (h : ∀ e' ∈ es, here + byteSize removed ≤ e'.start) :
    substitute (e :: es) here (removed ++ rest) =
      substitute (e :: es) (here + byteSize removed) rest := by
  induction removed generalizing here with
  | nil => simp [byteSize]
  | cons c cs ih =>
    have hc := Char.utf8Size_pos c
    simp only [byteSize] at ht h ⊢
    have htexts : textsAt (e :: es) here = [] := by
      refine textsAt_eq_nil (List.forall_mem_cons.2 ⟨by omega, fun e' he' => ?_⟩)
      have := h e' he'
      omega
    have htakes : takesAway (e :: es) here = true := by
      simp only [takesAway_cons, Bool.or_eq_true, Bool.and_eq_true, decide_eq_true_eq]
      exact .inl ⟨by omega, by omega⟩
    rw [List.cons_append, substitute, htexts, htakes, ih (by omega) (by omega) fun e' he' => by
      have := h e' he'
      omega]
    simp [Nat.add_assoc]

/-- An edit puts its text in the place of what it takes away. -/
theorem substitute_replace (hs : e.start = here) (ht : e.stop = here + byteSize removed)
    (h : ∀ e' ∈ es, e.stop ≤ e'.start) :
    substitute (e :: es) here (removed ++ rest) = e.text.toList ++ substitute es e.stop rest := by
  cases removed with
  | nil =>
    -- an insertion: other edits may begin at the same offset
    have hstop : e.stop = here := by simpa [byteSize] using ht
    rw [List.nil_append, hstop]
    cases rest with
    | nil => rw [substitute, substitute, textsAt_cons, if_pos hs]
    | cons c cs =>
      have hc := Char.utf8Size_pos c
      have htakes : takesAway (e :: es) here = takesAway es here := by
        have : (decide (here < e.stop)) = false := decide_eq_false (by omega)
        rw [takesAway_cons, this, Bool.and_false, Bool.false_or]
      rw [substitute, substitute, textsAt_cons, if_pos hs, htakes,
        substitute_passed (by omega) (by omega)]
      simp
  | cons c cs =>
    have hc := Char.utf8Size_pos c
    simp only [byteSize] at ht
    have htexts : textsAt es here = [] := textsAt_eq_nil fun e' he' => by
      have := h e' he'
      omega
    have htakes : takesAway (e :: es) here = true := by
      simp only [takesAway_cons, Bool.or_eq_true, Bool.and_eq_true, decide_eq_true_eq]
      exact .inl ⟨by omega, by omega⟩
    have hstop : here + c.utf8Size + byteSize cs = e.stop := by omega
    rw [List.cons_append, substitute, textsAt_cons, if_pos hs, htexts, htakes,
      substitute_skip (by omega) (by omega) fun e' he' => by
        have := h e' he'
        omega,
      hstop, substitute_passed (by omega) (le_refl _)]
    simp

/-! ### Edits that stand clear of each other -/

/-- Whether two edits replace stretches that have nothing in common. -/
def Edit.Clear (a b : Edit) : Prop := a.stop ≤ b.start ∨ b.stop ≤ a.start

theorem Edit.Clear.symm {a b : Edit} (h : a.Clear b) : b.Clear a := Or.symm h

/-- Edits follow each other if each of them ends before those behind it begin. -/
theorem disjoint_iff (hw : ∀ e ∈ es, e.start ≤ e.stop) :
    Disjoint cursor es ↔
      (∀ e ∈ es, cursor ≤ e.start) ∧ es.Pairwise fun a b => a.stop ≤ b.start := by
  induction es generalizing cursor with
  | nil => simp [Disjoint]
  | cons e es ih =>
    obtain ⟨he, hw⟩ := List.forall_mem_cons.1 hw
    rw [Disjoint, ih hw, List.forall_mem_cons, List.pairwise_cons]
    constructor
    · rintro ⟨hc, hstop, hp⟩
      refine ⟨⟨hc, fun e' he' => ?_⟩, hstop, hp⟩
      have := hstop e' he'
      omega
    · rintro ⟨⟨hc, -⟩, hstop, hp⟩
      exact ⟨hc, hstop, hp⟩

/-- Of two edits that stand clear of each other, the one that may be made first ends first. -/
theorem Edit.Clear.stop_le {a b : Edit} (h : a.Clear b) (hp : a.precedes b = true)
    (hb : b.start ≤ b.stop) : a.stop ≤ b.start := by
  rw [precedes_iff] at hp
  rcases h with h | h <;> omega

/-- Edits that are in order follow each other if any two of them stand clear of each other. -/
theorem disjoint_mergeSort_iff (hw : ∀ e ∈ edits, e.start ≤ e.stop) :
    Disjoint 0 (edits.mergeSort Edit.precedes) ↔ edits.Pairwise Edit.Clear := by
  have hperm := List.mergeSort_perm edits Edit.precedes
  have hw' : ∀ e ∈ edits.mergeSort Edit.precedes, e.start ≤ e.stop :=
    fun e he => hw e (hperm.subset he)
  rw [disjoint_iff hw', ← hperm.pairwise_iff Edit.Clear.symm]
  constructor
  · rintro ⟨-, hp⟩
    exact hp.imp Or.inl
  · intro hclear
    have hsorted := List.pairwise_mergeSort precedes_trans precedes_total edits
    refine ⟨fun e _ => Nat.zero_le _, ?_⟩
    exact (hclear.and hsorted).imp_of_mem fun _ hb h => h.1.stop_le h.2 (hw' _ hb)

/-- **Edits can be made** iff any two of them stand clear of each other. -/
theorem applyEdits_ok_iff (source : List Char) (hw : ∀ e ∈ edits, e.start ≤ e.stop) :
    (∃ out, applyEdits source edits = .ok out) ↔ edits.Pairwise Edit.Clear := by
  rw [applyEdits, splice_ok_iff, disjoint_mergeSort_iff hw]

/-! ### What edits make one after another -/

/-- The bytes from `start` to `stop` are characters of a text that begins at byte `cursor`. -/
def Spans (cursor : Nat) (rest : List Char) (start stop : Nat) : Prop :=
  ∃ kept removed behind, rest = kept ++ (removed ++ behind) ∧ start = cursor + byteSize kept ∧
    stop = start + byteSize removed

theorem Spans.le {start stop : Nat} (h : Spans cursor rest start stop) : start ≤ stop := by
  obtain ⟨kept, removed, behind, -, -, rfl⟩ := h
  omega

/-- What stands behind a front of a text is characters of the rest of it. -/
theorem Spans.behind {start stop : Nat} {front : List Char}
    (h : Spans cursor (front ++ rest) start stop) (hs : cursor + byteSize front ≤ start) :
    Spans (cursor + byteSize front) rest start stop := by
  obtain ⟨kept, removed, behind, hr, hstart, hstop⟩ := h
  obtain ⟨u, rfl, hu⟩ := exists_append_of_byteSize_le front kept hr (by omega)
  rw [byteSize_append] at hstart
  exact ⟨u, removed, behind, hu, by omega, hstop⟩

/-- **Edits in order** make one after another what they make all at once. -/
theorem splice_eq_substitute (hd : Disjoint cursor es)
    (hf : ∀ e ∈ es, Spans cursor rest e.start e.stop) :
    splice cursor rest es = .ok (substitute es cursor rest) := by
  induction es generalizing cursor rest with
  | nil =>
    have : substitute [] cursor (rest ++ []) = rest ++ substitute [] (cursor + byteSize rest) [] :=
      substitute_keep (by simp)
    rw [List.append_nil] at this
    rw [splice, this]
    simp [substitute, textsAt]
  | cons e es ih =>
    obtain ⟨⟨kept, removed, behind, rfl, hs, ht⟩, hf⟩ := List.forall_mem_cons.1 hf
    have hstop : cursor + byteSize (kept ++ removed) = e.stop := by
      rw [byteSize_append]
      omega
    -- the edits that are left stand behind this one
    have hbehind : ∀ e' ∈ es, e.stop ≤ e'.start :=
      ((disjoint_iff fun e he => (hf e he).le).1 hd.2).1
    have hrest : ∀ e' ∈ es, Spans e.stop behind e'.start e'.stop := by
      intro e' he'
      have h := hf e' he'
      rw [← List.append_assoc] at h
      rw [← hstop]
      exact h.behind (by rw [hstop]; exact hbehind e' he')
    have hkeep : ∀ e' ∈ e :: es, cursor + byteSize kept ≤ e'.start := by
      refine List.forall_mem_cons.2 ⟨hs.ge, fun e' he' => ?_⟩
      have := hbehind e' he'
      omega
    rw [splice_cut hs ht hbehind, ih hd.2 hrest, substitute_keep hkeep,
      substitute_replace hs (by omega) hbehind]
    rfl

/-! ### Insertions at one offset -/

/-- Of edits that take something away and stand clear of each other, no two begin at one offset. -/
theorem start_ne_of_clear {calls : List Edit} (hc : calls.Pairwise Edit.Clear)
    (hw : ∀ e ∈ calls, e.start < e.stop) : calls.Pairwise fun a b => a.start ≠ b.start := by
  refine hc.imp_of_mem fun ha hb h => ?_
  have := hw _ ha
  have := hw _ hb
  rcases h with h | h <;> omega

/-- The order of edits that stand clear of each other does not matter, if each takes something
away. -/
theorem textsAt_perm {calls calls' : List Edit} (hp : calls.Perm calls')
    (hc : calls.Pairwise fun a b => a.start ≠ b.start) (offset : Nat) :
    textsAt calls offset = textsAt calls' offset := by
  have hne := hp.pairwise hc fun h => Ne.symm h
  have heq : calls.filter (·.start == offset) = calls'.filter (·.start == offset) := by
    refine (hp.filter _).eq_of_pairwise ?_ (hc.filter _) (hne.filter _)
    intro a b ha hb hab
    simp only [List.mem_filter, beq_iff_eq] at ha hb
    exact absurd (ha.2.trans hb.2.symm) hab
  rw [textsAt, textsAt, heq]

theorem takesAway_perm (hp : es.Perm es') (offset : Nat) :
    takesAway es offset = takesAway es' offset := hp.any_eq

/-- **Insertions at one offset and edits behind them**, in whatever order these were collected,
make what they make all at once. -/
theorem applyEdits_inserts {inserts calls : List Edit} {offset : Nat} {source : List Char}
    (hp : edits.Perm (inserts ++ calls)) (hsub : inserts.Sublist edits)
    (hi : ∀ e ∈ inserts, e.start = offset ∧ e.stop = offset)
    (hb : ∀ e ∈ calls, offset ≤ e.start ∧ e.start < e.stop) (hc : calls.Pairwise Edit.Clear)
    (hf : ∀ e ∈ inserts ++ calls, Spans 0 source e.start e.stop) :
    applyEdits source edits = .ok (substitute (inserts ++ calls) 0 source) := by
  have hclear : (inserts ++ calls).Pairwise Edit.Clear := by
    refine List.pairwise_append.2 ⟨?_, hc, fun a ha b hb' => ?_⟩
    · refine List.pairwise_of_forall_mem_list fun a ha b hb => .inl ?_
      rw [(hi a ha).2, (hi b hb).1]
    · exact .inl (by rw [(hi a ha).2]; exact (hb b hb').1)
  have hstart := start_ne_of_clear hc fun e he => (hb e he).2
  have hcalls := List.mergeSort_perm calls Edit.precedes
  -- in order, the insertions come first, as they were collected
  have hsorted : edits.mergeSort Edit.precedes = inserts ++ calls.mergeSort Edit.precedes := by
    refine eq_append_of_pairwise (List.pairwise_mergeSort precedes_trans precedes_total _)
      ((List.mergeSort_perm _ _).trans (hp.trans (hcalls.symm.append_left _))) ?_ ?_
      (List.pairwise_mergeSort precedes_trans precedes_total _) ?_
    · refine List.sublist_mergeSort precedes_trans precedes_total ?_ hsub
      refine List.pairwise_of_forall_mem_list fun a ha b hb => ?_
      rw [precedes_iff, (hi a ha).1, (hi a ha).2, (hi b hb).1, (hi b hb).2]
      omega
    · intro a ha b hb' hle
      have := hb b (hcalls.subset hb')
      rw [precedes_iff, (hi a ha).1, (hi a ha).2] at hle
      omega
    · have hnodup : (calls.map Edit.start).Nodup := by
        rw [List.Nodup, List.pairwise_map]
        exact hstart
      intro a ha b hb' hab hba
      rw [precedes_iff] at hab hba
      exact List.inj_on_of_nodup_map hnodup (hcalls.subset ha) (hcalls.subset hb') (by omega)
  have hperm := hcalls.append_left inserts
  have hd : Disjoint 0 (edits.mergeSort Edit.precedes) := by
    rw [disjoint_mergeSort_iff fun e he => (hf e (hp.subset he)).le]
    exact hp.symm.pairwise hclear Edit.Clear.symm
  rw [applyEdits, splice_eq_substitute hd fun e he =>
    hf e (hp.subset ((List.mergeSort_perm _ _).subset he)), hsorted]
  refine congrArg Except.ok (substitute_congr (fun n => ?_) (fun n => takesAway_perm hperm n) _ _)
  rw [textsAt_append, textsAt_append, textsAt_perm hcalls.symm hstart]

end TestWeave.Change
