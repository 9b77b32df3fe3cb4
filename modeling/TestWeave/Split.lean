/-!
# Splitting a list at separators

* `splitWhere`: the segments between the elements that a test picks out; there is one more
  segment than there are separators, and segments may be empty.
* `Splits`: the same said from the first element on; `splits_iff`: it says the same. What holds of
  segments is proved by induction on it.
* `splitWhere_append_sep`: what stands on either side of a separator is split for itself.
* `Splits.sublist`, `Splits.not_sep`: a segment is some of the elements, and no separator.
* `takeWhile_of_ends`, `eq_false_of_mem_head?_dropWhile`: the longest stretch on which a test holds.
-/

namespace TestWeave

variable {α β : Type} {sep : α → Bool} {as segment : List α} {segments : List (List α)}

/-- The segments between the elements of which `sep` holds. -/
def splitWhere (sep : α → Bool) : List α → List (List α)
  | [] => [[]]
  | a :: as =>
    if sep a then [] :: splitWhere sep as
    else match splitWhere sep as with
      | [] => [[a]]
      | segment :: segments => (a :: segment) :: segments

theorem splitWhere_ne_nil (sep : α → Bool) (as : List α) : splitWhere sep as ≠ [] := by
  cases as with
  | nil => simp [splitWhere]
  | cons a as =>
    unfold splitWhere
    split
    · simp
    · split <;> simp

/-- The segments of a list, from its first element on. -/
inductive Splits (sep : α → Bool) : List α → List (List α) → Prop
  | nil : Splits sep [] [[]]
  | sep {a as segments} : sep a = true → Splits sep as segments →
      Splits sep (a :: as) ([] :: segments)
  | other {a as segment segments} : sep a = false → Splits sep as (segment :: segments) →
      Splits sep (a :: as) ((a :: segment) :: segments)

theorem splits (sep : α → Bool) (as : List α) : Splits sep as (splitWhere sep as) := by
  induction as with
  | nil => exact .nil
  | cons a as ih =>
    rw [splitWhere]
    split
    · rename_i ha
      exact .sep ha ih
    · rename_i ha
      split
      · rename_i hnil
        exact absurd hnil (splitWhere_ne_nil sep as)
      · rename_i hsegments
        exact .other (by simpa using ha) (hsegments ▸ ih)

theorem splits_iff : Splits sep as segments ↔ splitWhere sep as = segments := by
  constructor
  · intro h
    induction h with
    | nil => rfl
    | sep ha _ ih => rw [splitWhere, if_pos ha, ih]
    | other ha _ ih => simp [splitWhere, ha, ih]
  · rintro rfl
    exact splits sep as

/-- A list without separators is one segment. -/
theorem splitWhere_of_forall (h : ∀ a ∈ as, sep a = false) : splitWhere sep as = [as] := by
  induction as with
  | nil => rfl
  | cons a as ih =>
    simp only [List.mem_cons, forall_eq_or_imp] at h
    simp [splitWhere, h.1, ih h.2]

/-- What stands on either side of a separator is split for itself. -/
theorem splitWhere_append_sep (as : List α) {s : α} (bs : List α) (hs : sep s = true) :
    splitWhere sep (as ++ s :: bs) = splitWhere sep as ++ splitWhere sep bs := by
  rw [← splits_iff]
  have h := splits sep as
  generalize splitWhere sep as = segments at h
  induction h with
  | nil => exact .sep hs (splits sep bs)
  | sep ha _ ih => exact .sep ha ih
  | other ha _ ih => exact .other ha ih

/-- The first separator ends the first segment. -/
theorem splitWhere_append_cons {s : α} (bs : List α) (h : ∀ a ∈ as, sep a = false)
    (hs : sep s = true) : splitWhere sep (as ++ s :: bs) = as :: splitWhere sep bs := by
  rw [splitWhere_append_sep as bs hs, splitWhere_of_forall h, List.singleton_append]

/-- Elements that no separator is mapped to or from. -/
theorem splitWhere_map (f : α → β) {sep' : β → Bool} (h : ∀ a, sep' (f a) = sep a) (as : List α) :
    splitWhere sep' (as.map f) = (splitWhere sep as).map (List.map f) := by
  rw [← splits_iff]
  have hs := splits sep as
  generalize splitWhere sep as = segments at hs
  induction hs with
  | nil => exact .nil
  | sep ha _ ih => exact .sep ((h _).trans ha) ih
  | other ha _ ih => exact .other ((h _).trans ha) ih

/-- A segment is some of the elements, in their order. -/
theorem Splits.sublist (hs : Splits sep as segments) (h : segment ∈ segments) :
    segment.Sublist as := by
  induction hs generalizing segment with
  | nil => simp_all
  | sep _ _ ih =>
    rcases List.mem_cons.1 h with rfl | h
    · exact List.nil_sublist _
    · exact (ih h).cons _
  | other _ _ ih =>
    rcases List.mem_cons.1 h with rfl | h
    · exact (ih List.mem_cons_self).cons_cons _
    · exact (ih (List.mem_cons_of_mem _ h)).cons _

theorem mem_of_mem_splitWhere {a : α} (hs : segment ∈ splitWhere sep as) (ha : a ∈ segment) :
    a ∈ as :=
  ((splits sep as).sublist hs).subset ha

/-- No separator is in a segment. -/
theorem Splits.not_sep (hs : Splits sep as segments) (h : segment ∈ segments) :
    ∀ a ∈ segment, sep a = false := by
  induction hs generalizing segment with
  | nil => simp_all
  | sep _ _ ih =>
    rcases List.mem_cons.1 h with rfl | h
    · simp
    · exact ih h
  | other ha _ ih =>
    rcases List.mem_cons.1 h with rfl | h
    · simpa [ha] using ih List.mem_cons_self
    · exact ih (List.mem_cons_of_mem _ h)

/-- What begins with a failure adds nothing to the longest stretch on which a test holds. -/
theorem takeWhile_append_of_head {q : α → Bool} {bs : List α} (h : ∀ b ∈ bs.head?, q b = false)
    (as : List α) :
    (as ++ bs).takeWhile q = as.takeWhile q ∧ (as ++ bs).dropWhile q = as.dropWhile q ++ bs := by
  induction as with
  | nil =>
    cases bs with
    | nil => simp
    | cons b bs => simp [h b rfl]
  | cons a as ih =>
    rw [List.cons_append, List.takeWhile_cons, List.takeWhile_cons, List.dropWhile_cons,
      List.dropWhile_cons]
    split
    · exact ⟨by rw [ih.1], ih.2⟩
    · exact ⟨rfl, rfl⟩

/-- A stretch on which a test holds, taken off where it fails. -/
theorem takeWhile_of_ends {q : α → Bool} {bs : List α} (ht : ∀ a ∈ as, q a = true)
    (hr : ∀ b ∈ bs.head?, q b = false) :
    (as ++ bs).takeWhile q = as ∧ (as ++ bs).dropWhile q = bs := by
  rw [List.takeWhile_append_of_pos ht, List.dropWhile_append_of_pos ht]
  cases bs with
  | nil => simp
  | cons b bs => simp [hr b rfl]

/-- What follows the longest stretch on which a test holds begins with a failure. -/
theorem eq_false_of_mem_head?_dropWhile {q : α → Bool} {a : α}
    (h : a ∈ (as.dropWhile q).head?) : q a = false := by
  have hfirst := List.head?_dropWhile_not q as
  rwa [Option.mem_def.1 h] at hfirst

end TestWeave
