import TestWeave.Proofs.Related

/-!
# Steps that may fail

What is known of steps that were taken one after the other when it is known how they ended.

* `bind_eq_ok`, `bind_eq_error`, `map_eq_ok`: a step behind another.
* `mapM_eq_ok_iff`: a step for each element of a list.
* `mapM_eq_error`: where such a row of steps fails.
-/

namespace TestWeave

variable {ε α β γ : Type} {f : α → Except ε β} {as as' : List α} {bs bs' : List β}

theorem bind_eq_ok {x : Except ε α} {b : β} (h : x >>= f = .ok b) : ∃ a, x = .ok a ∧ f a = .ok b := by
  cases x with
  | error e => cases h
  | ok a => exact ⟨a, rfl, h⟩

theorem bind_eq_error {x : Except ε α} {e : ε} (h : x >>= f = .error e) :
    x = .error e ∨ ∃ a, x = .ok a ∧ f a = .error e := by
  cases x with
  | error e' => exact .inl (Except.error.inj h ▸ rfl)
  | ok a => exact .inr ⟨a, rfl, h⟩

theorem map_eq_ok {x : Except ε α} {g : α → β} {b : β} (h : x.map g = .ok b) :
    ∃ a, x = .ok a ∧ g a = b := by
  cases x with
  | error e => cases h
  | ok a => exact ⟨a, rfl, Except.ok.inj h⟩

theorem isOk_iff {x : Except ε α} : x.isOk = true ↔ ∃ a, x = .ok a := by
  cases x <;> simp [Except.isOk, Except.toBool]

/-- **Steps over a list** succeed if each of them does. -/
theorem mapM_eq_ok_iff : as.mapM f = .ok bs ↔ List.Forall₂ (fun a b => f a = .ok b) as bs := by
  constructor
  · intro h
    induction as generalizing bs with
    | nil =>
      obtain rfl := Except.ok.inj h
      exact .nil
    | cons a as ih =>
      rw [List.mapM_cons] at h
      obtain ⟨b, hb, h⟩ := bind_eq_ok h
      obtain ⟨bs, hbs, h⟩ := bind_eq_ok h
      obtain rfl := Except.ok.inj h
      exact .cons hb (ih hbs)
  · intro h
    induction h with
    | nil => rfl
    | cons hb _ ih =>
      rw [List.mapM_cons, hb, ih]
      rfl

theorem mapM_cons_eq_ok {a : α} (h : (a :: as).mapM f = .ok bs) :
    ∃ b bs', f a = .ok b ∧ as.mapM f = .ok bs' ∧ bs = b :: bs' := by
  cases mapM_eq_ok_iff.1 h with
  | cons hb hbs => exact ⟨_, _, hb, mapM_eq_ok_iff.2 hbs, rfl⟩

theorem mapM_append_ok (ha : as.mapM f = .ok bs) (hb : as'.mapM f = .ok bs') :
    (as ++ as').mapM f = .ok (bs ++ bs') := by
  rw [List.mapM_append, ha, hb]
  rfl

theorem mapM_ok {g : α → β} (h : ∀ a ∈ as, f a = .ok (g a)) : as.mapM f = .ok (as.map g) := by
  rw [mapM_eq_ok_iff, List.forall₂_map_right_iff, List.forall₂_same]
  exact h

/-- If each of some steps gives the moved result on what is moved, all of them do. -/
theorem mapM_moved {f' : α → Except ε β} {s : α → α} {v : β → β}
    (h : ∀ a b, f a = .ok b → f' (s a) = .ok (v b)) (hm : as.mapM f = .ok bs) :
    (as.map s).mapM f' = .ok (bs.map v) := by
  rw [mapM_eq_ok_iff, List.forall₂_map_left_iff, List.forall₂_map_right_iff]
  exact (mapM_eq_ok_iff.1 hm).imp h

theorem mem_of_mapM (h : as.mapM f = .ok bs) {b : β} (hb : b ∈ bs) : ∃ a ∈ as, f a = .ok b :=
  exists_of_mem_right (mapM_eq_ok_iff.1 h) hb

theorem exists_of_mapM (h : as.mapM f = .ok bs) {a : α} (ha : a ∈ as) : ∃ b ∈ bs, f a = .ok b :=
  exists_of_mem_left (mapM_eq_ok_iff.1 h) ha

/-- Where a step of many fails, those in front of it have not. -/
theorem mapM_eq_error {e : ε} (h : as.mapM f = .error e) : ∃ front a back bs,
    as = front ++ a :: back ∧ front.mapM f = .ok bs ∧ f a = .error e := by
  induction as with
  | nil => cases h
  | cons a as ih =>
    rw [List.mapM_cons] at h
    rcases bind_eq_error h with ha | ⟨b, hb, h⟩
    · exact ⟨[], a, as, [], rfl, rfl, ha⟩
    · rcases bind_eq_error h with has | ⟨bs, -, h⟩
      · obtain ⟨front, a', back, bs, rfl, hfront, ha'⟩ := ih has
        exact ⟨a :: front, a', back, b :: bs, rfl,
          mapM_eq_ok_iff.2 (.cons hb (mapM_eq_ok_iff.1 hfront)), ha'⟩
      · cases h

/-- If none of the steps fails, they all have results. -/
theorem exists_mapM (h : ∀ a ∈ as, ∃ b, f a = .ok b) : ∃ bs, as.mapM f = .ok bs := by
  cases hm : as.mapM f with
  | ok bs => exact ⟨bs, rfl⟩
  | error e =>
    obtain ⟨front, a, back, -, rfl, -, ha⟩ := mapM_eq_error hm
    obtain ⟨b, hb⟩ := h a (by simp)
    rw [hb] at ha
    cases ha

end TestWeave
