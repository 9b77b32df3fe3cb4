import Mathlib.Data.List.Nodup
import TestWeave.Proofs.Reprint

/-!
# Making the edits

The edits of a patch are insertions at one offset, behind the package clause, and one edit for each
call. In order they are the insertions as they came and then the calls as they stand.

* `mergeSort_edits`: the order in which edits are made.
* `emit_eq_ok_iff`: when a patch is made, and what comes of it.
* `emit_of_sorted`: edits that are in order are made as they stand.
* `splice_segments`: what the edits of calls make of segments.
-/

namespace TestWeave.Change

open TestWeave.Source

/-! ### The order of edits -/

theorem precedes_iff {a b : Edit} :
    a.precedes b = true ↔ a.start < b.start ∨ a.start = b.start ∧ a.stop ≤ b.stop := by
  simp [Edit.precedes]

theorem precedes_trans (a b c : Edit) (h : a.precedes b = true) (h' : b.precedes c = true) :
    a.precedes c = true := by
  rw [precedes_iff] at *
  omega

theorem precedes_total (a b : Edit) : (a.precedes b || b.precedes a) = true := by
  rw [Bool.or_eq_true, precedes_iff, precedes_iff]
  omega

/-- A list in order is its front and its back, if none of the back may stand before one of the
front, the front is in the list in its order, and the order says all about the back. -/
theorem eq_append_of_pairwise {α : Type} {le : α → α → Prop} {l front back : List α}
    (hs : l.Pairwise le) (hp : l.Perm (front ++ back)) (hf : front.Sublist l)
    (hlt : ∀ a ∈ front, ∀ b ∈ back, ¬le b a) (hb : back.Pairwise le)
    (anti : ∀ a ∈ back, ∀ b ∈ back, le a b → le b a → a = b) : l = front ++ back := by
  induction front generalizing l with
  | nil =>
    exact hp.eq_of_pairwise (fun a b ha hb => anti a (hp.subset ha) b hb) hs hb
  | cons a front ih =>
    cases l with
    | nil => simp at hf
    | cons x l =>
      obtain ⟨hx, hl⟩ := List.pairwise_cons.1 hs
      cases hf with
      | cons_cons _ hf =>
        have := ih hl (List.Perm.cons_inv hp) hf fun c hc => hlt c (by simp [hc])
        rw [List.cons_append, ← this]
      | cons _ hf =>
        -- the first element would be one of the back, in front of `a`
        obtain ⟨rest, hr⟩ := hf.exists_perm_append
        have hxr : (x :: rest).Perm back := by
          have := (hr.cons x).symm.trans hp
          rw [← List.perm_append_left_iff (a :: front)]
          exact List.perm_middle.trans this
        exact absurd (hx a (hf.subset (by simp))) (hlt a (by simp) x (hxr.subset (by simp)))

/-- **The order of edits**: insertions at one offset stay in the order in which they came, and the
edits behind them are put in the order in which they begin. -/
theorem mergeSort_edits {offset : Nat} {inserts₁ inserts₂ calls sorted : List Edit}
    (hi : ∀ e ∈ inserts₁ ++ inserts₂, e.start = offset ∧ e.stop = offset)
    (hc : ∀ e ∈ sorted, offset ≤ e.start ∧ offset < e.stop)
    (hs : sorted.Pairwise fun a b => a.start < b.start) (hp : sorted.Perm calls) :
    (inserts₁ ++ (calls ++ inserts₂)).mergeSort Edit.precedes =
      inserts₁ ++ inserts₂ ++ sorted := by
  refine eq_append_of_pairwise (List.pairwise_mergeSort precedes_trans precedes_total _) ?_ ?_ ?_
    (hs.imp fun h => precedes_iff.2 (.inl h)) ?_
  · refine (List.mergeSort_perm _ _).trans ?_
    rw [List.append_assoc]
    exact (List.perm_append_comm.trans (hp.symm.append_left _)).append_left _
  · refine List.sublist_mergeSort precedes_trans precedes_total ?_
      ((List.sublist_append_right ..).append_left _)
    refine List.pairwise_of_forall_mem_list fun a ha b hb => ?_
    rw [precedes_iff, (hi a ha).1, (hi a ha).2, (hi b hb).1, (hi b hb).2]
    omega
  · intro a ha b hb hle
    rw [precedes_iff, (hi a ha).1, (hi a ha).2] at hle
    have := hc b hb
    omega
  · have hnodup : (sorted.map Edit.start).Nodup := by
      rw [List.Nodup, List.pairwise_map]
      exact hs.imp fun h => Nat.ne_of_lt h
    intro a ha b hb hab hba
    rw [precedes_iff] at hab hba
    exact List.inj_on_of_nodup_map hnodup ha hb (by omega)

/-- **A patch is made** if its edits can be and what comes of them parses. -/
theorem emit_eq_ok_iff {p : Patch} {text : String} : p.emit = .ok text ↔
    ∃ out, applyEdits p.file.source.toList p.edits = .ok out ∧
      text = String.ofList out ++ p.appended ∧
      ∃ file, SourceFile.parse p.file.path text = .ok file := by
  unfold Patch.emit
  constructor
  · intro h
    split at h
    · cases h
    · rename_i out hout
      dsimp only at h
      split at h
      · rename_i file hfile
        obtain rfl := Except.ok.inj h
        exact ⟨out, hout, rfl, file, hfile⟩
      · cases h
  · rintro ⟨out, hout, rfl, file, hfile⟩
    simp only [hout, hfile]

/-- Edits that are in order are made as they are. -/
theorem emit_of_sorted {p : Patch} (hs : p.edits.Pairwise fun a b => a.precedes b = true)
    (h : (splice 0 p.file.source.toList p.edits).toOption.any (fun out =>
      (SourceFile.parse p.file.path (String.ofList out ++ p.appended)).isOk) = true) :
    ∃ text, p.emit = .ok text := by
  cases hsp : splice 0 p.file.source.toList p.edits with
  | error => simp [hsp, Except.toOption] at h
  | ok out =>
    cases hp : SourceFile.parse p.file.path (String.ofList out ++ p.appended) with
    | error => simp [hsp, hp, Except.toOption, Except.isOk, Except.toBool] at h
    | ok file =>
      refine ⟨_, emit_eq_ok_iff.2 ⟨out, ?_, rfl, file, hp⟩⟩
      rw [applyEdits, List.mergeSort_of_pairwise hs, hsp]

/-! ### What edits make of a text -/

theorem except_map_map {α β γ ε : Type} (x : Except ε α) (f : α → β) (g : β → γ) :
    (x.map f).map g = x.map fun a => g (f a) := by
  cases x <;> rfl

/-- What stands in front of the edits is kept. -/
theorem splice_keep {cursor : Nat} {cs rest : List Char} {es : List Edit}
    (h : ∀ e ∈ es, cursor + byteSize cs ≤ e.start) :
    splice cursor (cs ++ rest) es = (splice (cursor + byteSize cs) rest es).map (cs ++ ·) := by
  cases es with
  | nil => rfl
  | cons e es =>
    have he := h e (by simp)
    have hsub : e.start - cursor = byteSize cs + (e.start - (cursor + byteSize cs)) := by omega
    rw [splice, splice, if_neg (by omega), if_neg (by omega), hsub, cutAt_add]
    simp only [except_map_map, List.append_assoc]

theorem splice_insert (cursor : Nat) (rest : List Char) (text : String) (es : List Edit) :
    splice cursor rest (⟨cursor, cursor, text⟩ :: es) =
      (splice cursor rest es).map (text.toList ++ ·) := by
  simp [splice]

theorem splice_inserts {cursor : Nat} {rest : List Char} {inserts es : List Edit}
    (hi : ∀ e ∈ inserts, e.start = cursor ∧ e.stop = cursor) :
    splice cursor rest (inserts ++ es) =
      (splice cursor rest es).map (inserts.flatMap (·.text.toList) ++ ·) := by
  induction inserts with
  | nil => cases h : splice cursor rest es <;> simp [Except.map, h]
  | cons e inserts ih =>
    have he : e = ⟨cursor, cursor, e.text⟩ := by
      obtain ⟨h1, h2⟩ := hi e (by simp)
      cases e
      simp only at h1 h2
      rw [h1, h2]
    rw [List.cons_append, he, splice_insert, ih fun e he => hi e (by simp [he]), except_map_map]
    simp

theorem splice_replace {cursor : Nat} {cs rest : List Char} {text : String} {es : List Edit} :
    splice cursor (cs ++ rest) (⟨cursor, cursor + byteSize cs, text⟩ :: es) =
      (splice (cursor + byteSize cs) rest es).map (text.toList ++ ·) := by
  simp [splice, cutAt_byteSize]

/-! ### The edits of segments -/

/-- The edit that redirects a call. -/
def callEdit (q : String) (site : CallSite × String) : Edit :=
  ⟨site.1.callee.start, site.1.openParen.stop, Patch.callText site.1 q site.2⟩

/-- The edits that redirect the calls of segments. -/
def editsOf (q : String) (segs : List Segment) : List Edit := (sitesOf segs).map (callEdit q)

variable {q : String} {segs : List Segment} {here : Place} {around : List Delimiter}

/-- The edit of a window replaces its text. -/
theorem callEdit_window {w : Window} (h : w.At here) :
    callEdit q (w.call, w.entry) =
      ⟨(here.after w.leadText).offset, (here.after w.leadText).offset + byteSize w.replaced,
        Patch.callText w.call q w.entry⟩ := by
  have hs := h.start
  have ho : w.call.openParen.stop = (here.after (Piece.joined w.pieces)).offset := by
    rw [h.openParen]
    rfl
  rw [joined_pieces, Place.after_append, Place.offset_after] at ho
  rw [callEdit, hs, ho]
  rfl

theorem byteSize_replaced_pos (w : Window) : 0 < byteSize w.replaced := by
  simp only [Window.replaced, joined_append, byteSize_append]
  have := Char.utf8Size_pos '('
  simp only [joined_cons, joined_nil, Piece.text, TokenKind.text, Operator.spelling,
    List.append_nil]
  change 0 < _ + ('('.utf8Size + 0)
  omega

/-- The edits of segments begin behind them, one after the other. -/
theorem editsOf_spec (h : Placed here around segs) :
    (∀ e ∈ editsOf q segs, here.offset ≤ e.start ∧ e.start < e.stop) ∧
      (editsOf q segs).Pairwise fun a b => a.start < b.start := by
  induction segs generalizing here around with
  | nil => simp [editsOf]
  | cons s segs ih =>
    cases s with
    | plain p =>
      obtain ⟨h1, h2⟩ := ih h.2
      rw [Place.offset_after] at h1
      refine ⟨fun e he => ?_, h2⟩
      have := h1 e he
      omega
    | window w =>
      obtain ⟨hat, -, -, hp⟩ := h
      obtain ⟨h1, h2⟩ := ih hp
      have hpos := byteSize_replaced_pos w
      have hedit := callEdit_window (q := q) hat
      rw [joined_pieces, Place.after_append, Place.offset_after] at h1
      have hoff := Place.offset_after here w.leadText
      simp only [editsOf, sitesOf_window, List.map_cons] at h1 h2 ⊢
      refine ⟨List.forall_mem_cons.2 ⟨?_, fun e he => ?_⟩, List.pairwise_cons.2 ⟨fun e he => ?_, h2⟩⟩
      · rw [hedit]
        simp only
        omega
      · have := h1 e he
        omega
      · have := h1 e he
        rw [hedit]
        simp only
        omega

/-- **The edits of calls** put the new text in the place of the old one. -/
theorem splice_segments (h : Placed here around segs) :
    splice here.offset (Piece.joined (piecesOf segs)) (editsOf q segs) = .ok (freshText q segs) := by
  induction segs generalizing here around with
  | nil => rfl
  | cons s segs ih =>
    cases s with
    | plain p =>
      have hoff := Place.offset_after here p.text
      have hlater := (editsOf_spec (q := q) h.2).1
      change splice here.offset (Piece.joined (p :: piecesOf segs)) (editsOf q segs) = _
      rw [joined_cons, splice_keep, ← hoff, ih h.2]
      · rfl
      · intro e he
        rw [← hoff]
        exact (hlater e he).1
    | window w =>
      obtain ⟨hat, -, -, hp⟩ := h
      have hedit := callEdit_window (q := q) hat
      have hoff := Place.offset_after here w.leadText
      have hoff' := Place.offset_after (here.after w.leadText) w.replaced
      have hlater := (editsOf_spec (q := q) hp).1
      have ih := ih hp
      rw [joined_pieces, Place.after_append] at ih hlater
      change splice here.offset (Piece.joined (w.pieces ++ piecesOf segs))
        (callEdit q (w.call, w.entry) :: editsOf q segs) = _
      rw [joined_append, joined_pieces, List.append_assoc, splice_keep, ← hoff, hedit,
        splice_replace, ← hoff', ih, except_map_map]
      · simp only [Except.map, freshText_window, Window.region, joined_passing]
        rw [callText_toList]
        simp
      · refine List.forall_mem_cons.2 ⟨?_, fun e he => ?_⟩
        · rw [hedit, ← hoff]
        · have := (hlater e he).1
          rw [← hoff]
          omega

end TestWeave.Change
