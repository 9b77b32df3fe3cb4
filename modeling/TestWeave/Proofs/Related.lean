import Mathlib.Data.List.Forall2

/-!
# Lists that are related element by element

* `forall₂_trans`: two steps from one list to another are one.
* `exists_of_mem_left`, `exists_of_mem_right`: the element in the same place of the other list.
* `pairwise_of_forall₂`: what holds of the elements of a list in their order.
-/

namespace TestWeave

variable {α β : Type} {r : α → β → Prop} {as : List α} {bs : List β}

theorem forall₂_trans {r : α → α → Prop} {as bs cs : List α} (h : List.Forall₂ r as bs)
    (h' : List.Forall₂ r bs cs) (htrans : ∀ a b c, r a b → r b c → r a c) :
    List.Forall₂ r as cs := by
  induction h generalizing cs with
  | nil => exact h'
  | cons hab _ ih =>
    obtain ⟨c, cs, hbc, hrest, rfl⟩ := List.forall₂_cons_left_iff.1 h'
    exact .cons (htrans _ _ _ hab hbc) (ih hrest)

theorem exists_of_mem_left (h : List.Forall₂ r as bs) {a : α} (ha : a ∈ as) : ∃ b ∈ bs, r a b := by
  induction h with
  | nil => simp at ha
  | cons hab _ ih =>
    rcases List.mem_cons.1 ha with rfl | ha
    · exact ⟨_, by simp, hab⟩
    · obtain ⟨b, hb, hab⟩ := ih ha
      exact ⟨b, List.mem_cons_of_mem _ hb, hab⟩

theorem exists_of_mem_right (h : List.Forall₂ r as bs) {b : β} (hb : b ∈ bs) : ∃ a ∈ as, r a b :=
  exists_of_mem_left (r := fun b a => r a b) h.flip hb

/-- What holds of any two elements in their order holds of those that are related to them. -/
theorem pairwise_of_forall₂ {p : α → α → Prop} {q : β → β → Prop} (h : List.Forall₂ r as bs)
    (hq : bs.Pairwise q) (hp : ∀ a b a' b', r a b → r a' b' → q b b' → p a a') : as.Pairwise p := by
  rw [List.pairwise_iff_getElem] at hq ⊢
  obtain ⟨hlength, hget⟩ := List.forall₂_iff_get.1 h
  intro i j hi hj hij
  exact hp _ _ _ _ (hget i hi (hlength ▸ hi)) (hget j hj (hlength ▸ hj)) (hq i j _ _ hij)

end TestWeave
