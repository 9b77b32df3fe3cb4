import TestWeave.Proofs.Rescan

/-!
# What stands around a redirected call

The new callee of a call stands directly behind what stood in front of its receiver, and the
receiver stands directly in front of what stood behind its parenthesis. `Readable`, `Apart` and
`Unbroken` say of the source alone what may go wrong there.

* `readable_iff`, `apart_iff`, `unbroken_iff`: what they mean for the windows of a layout.
-/

namespace TestWeave.Source

open TestWeave.Text TestWeave.Change

/-- The source in front of the receiver of a call. -/
def CallSite.front (call : CallSite) (source : String) : List Char :=
  (cutAt call.callee.start source.toList).1

/-- The source behind the opening parenthesis of a call. -/
def CallSite.behind (call : CallSite) (source : String) : List Char :=
  (cutAt call.openParen.stop source.toList).2

/-- The new callee of a call, up to its parenthesis. -/
def openText (q entry : String) : List Char := calleeText q entry ++ ['(']

/-- The pieces of a new callee: those of the qualifier, a dot and the entry. -/
def calleePieces (q entry : String) : List Piece :=
  (scan q.toList).1 ++ [.token (.operator .dot), .token (.ident entry)]

/-- The source in front of a call can be scanned with the new callee behind it. -/
def Readable (source q : String) (c : CallSite × String) : Prop :=
  (scan (c.1.front source ++ openText q c.2)).2 = none

/-- Nothing runs into anything else: what stands in front of a call is scanned as it is alone, and
behind it the qualifier, a dot, the entry and the parenthesis. -/
def Apart (source q : String) (c : CallSite × String) : Prop :=
  scan (c.1.front source ++ openText q c.2) = ((scan (c.1.front source)).1 ++
    (calleePieces q c.2 ++ [.token (.operator .lparen)]), none)

/-- No line ends between the parenthesis of a call without arguments and the token behind it. -/
def Unbroken (source : String) (c : CallSite × String) : Prop :=
  c.1.args = [] → ∀ p ∈ (scan (c.1.behind source)).1.takeWhile (!·.isToken), p.breaksLine = false

instance (source q : String) (c : CallSite × String) : Decidable (Readable source q c) :=
  inferInstanceAs (Decidable (_ = _))

instance (source q : String) (c : CallSite × String) : Decidable (Apart source q c) :=
  inferInstanceAs (Decidable (_ = _))

instance (source : String) (c : CallSite × String) : Decidable (Unbroken source c) :=
  inferInstanceAs (Decidable (_ → _))

/-! ### Rows and their ends -/

theorem Row.at_end {ps : List Piece} {rest : List Char} (h : Row ps rest) : Row ps [] := by
  refine h.replace ?_ fun p _ _ hp => by simp at hp
  intro p hp
  obtain ⟨front, rfl⟩ := List.getLast?_eq_some_iff.1 hp
  exact (row_append.1 h).2.1.at_end

/-- Two characters of what follows a piece decide whether it ends there. -/
theorem Reads.congr_append {p : Piece} {s rest : List Char} (hs : 2 ≤ s.length)
    (h : Reads p (s ++ rest)) (rest' : List Char) : Reads p (s ++ rest') := by
  match s, hs with
  | c :: d :: s, _ => exact h.congr rfl fun _ hd => by simpa using hd

theorem scan_paren : scan ['('] = ([.token (.operator .lparen)], none) := by decide +kernel

/-! ### Windows -/

/-- Segments stand behind those in front of them. -/
theorem Placed.behind {here : Place} {around : List Delimiter} {segs segs' : List Segment}
    (h : Placed here around (segs ++ segs')) :
    ∃ around', Placed (here.after (Piece.joined (piecesOf segs))) around' segs' := by
  induction segs generalizing here around with
  | nil => exact ⟨around, h⟩
  | cons s segs ih =>
    cases s with
    | plain p =>
      obtain ⟨around', h⟩ := ih h.2
      exact ⟨around', by rwa [piecesOf_plain, joined_cons, Place.after_append]⟩
    | window w =>
      obtain ⟨around', h⟩ := ih h.2.2.2
      exact ⟨around', by rwa [piecesOf_window, joined_append, Place.after_append]⟩

@[simp] theorem piecesOf_append (segs segs' : List Segment) :
    piecesOf (segs ++ segs') = piecesOf segs ++ piecesOf segs' := by
  simp [piecesOf]

theorem mem_sitesOf {segs : List Segment} {c : CallSite × String} :
    c ∈ sitesOf segs ↔ ∃ w, .window w ∈ segs ∧ c = (w.call, w.entry) := by
  simp only [sitesOf, List.mem_filterMap]
  constructor
  · rintro ⟨s, hs, hc⟩
    cases s with
    | plain p => simp [Segment.site?] at hc
    | window w => exact ⟨w, hs, by simpa [Segment.site?] using hc.symm⟩
  · rintro ⟨w, hw, rfl⟩
    exact ⟨.window w, hw, rfl⟩

variable {file : SourceFile} {sdk : Instrumentation} {q : String} {head : Head}
  {front behind : List Segment} {w : Window}

/-- The pieces in front of a window, its lead apart. -/
def Head.upTo (head : Head) (package : String) (front : List Segment) : List Piece :=
  head.pieces package ++ piecesOf front

theorem Layout.source_window (hl : Layout file sdk head (front ++ .window w :: behind)) :
    file.source.toList = Piece.joined (head.upTo file.package front) ++ (w.leadText ++
      (w.replaced ++ Piece.joined (piecesOf behind))) := by
  rw [hl.source, Head.upTo, piecesOf_append, piecesOf_window]
  simp [joined_pieces]

/-- Where a window stands, its lead included. -/
theorem Layout.window_at (hl : Layout file sdk head (front ++ .window w :: behind)) :
    ∃ around, Placed (Place.origin.after (Piece.joined (head.upTo file.package front))) around
      (.window w :: behind) := by
  obtain ⟨around, h⟩ := hl.placed.behind
  refine ⟨around, ?_⟩
  rw [Head.upTo, joined_append, Place.after_append]
  exact h

theorem Layout.front_eq (hl : Layout file sdk head (front ++ .window w :: behind)) :
    w.call.front file.source = Piece.joined (head.upTo file.package front) ++ w.leadText := by
  obtain ⟨around, hat, -⟩ := hl.window_at
  have hstart : w.call.callee.start =
      byteSize (Piece.joined (head.upTo file.package front) ++ w.leadText) := by
    have hoffset := hat.start
    rw [← Place.after_append, Place.offset_after] at hoffset
    simpa [Place.origin, Window.leadText] using hoffset
  rw [CallSite.front, hl.source_window, hstart, ← List.append_assoc, cutAt_byteSize]

theorem Layout.behind_eq (hl : Layout file sdk head (front ++ .window w :: behind)) :
    w.call.behind file.source = Piece.joined (piecesOf behind) := by
  obtain ⟨around, hat, -⟩ := hl.window_at
  have hstop : w.call.openParen.stop =
      byteSize (Piece.joined (head.upTo file.package front) ++ (w.leadText ++ w.replaced)) := by
    have hoffset : w.call.openParen.stop = ((Place.origin.after
        (Piece.joined (head.upTo file.package front))).after (Piece.joined w.pieces)).offset := by
      rw [hat.openParen]
      rfl
    rw [joined_pieces, ← Place.after_append, Place.offset_after] at hoffset
    simpa [Place.origin] using hoffset
  have hsource := hl.source_window
  rw [← List.append_assoc w.leadText, ← List.append_assoc] at hsource
  rw [CallSite.behind, hsource, hstop, cutAt_byteSize]

/-- The lead and the new callee are at least two characters. -/
theorem two_le_region (q : String) {w : Window} (he : IsName w.entry) :
    2 ≤ (w.region q).length := by
  obtain ⟨c, t, hct, -⟩ := isIdentifier_cons he.1
  simp only [Window.region, calleeText, List.length_append, List.length_cons, hct]
  omega

/-- **In front of a window** the pieces of the source end where its lead and the new callee begin. -/
theorem Layout.row_upTo (hl : Layout file sdk head (front ++ .window w :: behind))
    (hq : ∀ c ∈ q.toList, isPathChar c = true) (he : IsName w.entry) (rest : List Char) :
    Row (head.upTo file.package front) (w.region q ++ rest) := by
  have hrow := hl.row
  rw [piecesOf_append, ← List.append_assoc] at hrow
  have hbefore : Row (head.upTo file.package front) _ := (row_append.1 hrow).1
  rcases List.eq_nil_or_concat front with rfl | ⟨front, s, rfl⟩
  · exact absurd hl.placed.2.1 List.not_mem_nil
  · rw [List.concat_eq_append] at hl hbefore ⊢
    cases s with
    | plain p =>
      have hlast : head.upTo file.package (front ++ [.plain p]) =
          head.upTo file.package front ++ [p] := by
        rw [Head.upTo, piecesOf_append, ← List.append_assoc]
        rfl
      have hplaced := hl.placed
      rw [List.append_assoc, List.singleton_append] at hplaced
      obtain ⟨around, hplaced⟩ := hplaced.behind
      have hsegs := hl.row_segs
      rw [List.append_assoc, List.singleton_append, piecesOf_append, row_append] at hsegs
      have hread := reads_freshText hq hplaced hsegs.2
      rw [freshText_window, List.append_assoc] at hread
      rw [hlast] at hbefore ⊢
      refine hbefore.replace_last (hread.congr_append (two_le_region q he) rest) ?_
      intro hdot hhead
      -- behind a dot a lead stands, in both texts
      have hp := hread.eq_dot hdot
      have hbare : startsBare (.window w :: behind) = false := by
        by_contra hs
        exact (hplaced.1 (eq_true_of_ne_false hs)).2 hp
      obtain ⟨l, hlead⟩ := Option.isSome_iff_exists.1 (by simpa [startsBare] using hbare)
      have hl' : Row (piecesOf (.window w :: behind)) [] := hsegs.2.2
      rw [piecesOf_window, Window.pieces, hlead] at hl'
      obtain ⟨c, t, ht⟩ := List.exists_cons_of_ne_nil hl'.1.text_ne_nil
      simp only [Window.region, Window.leadText, hlead, Option.toList_some, joined_cons, ht,
        List.cons_append, List.head?_cons] at hhead
      simp [Window.pieces, hlead, ht, hhead]
    | window w' =>
      have hlast : head.upTo file.package (front ++ [.window w']) =
          head.upTo file.package front ++ w'.lead.toList ++ w'.callee ++
            [.token (.operator .lparen)] := by
        simp [Head.upTo, piecesOf_append, piecesOf_window, Window.pieces]
      rw [hlast] at hbefore ⊢
      refine hbefore.replace_last (Reads.of_alone (by decide) (by decide) (by decide)) ?_
      intro hdot
      simp [Piece.text, TokenKind.text, Operator.spelling] at hdot

/-- The source up to a window, its lead included, is scanned as it stands. -/
theorem Layout.scan_front (hl : Layout file sdk head (front ++ .window w :: behind)) :
    scan (w.call.front file.source) = (head.upTo file.package front ++ w.lead.toList, none) := by
  have hrow := hl.row
  rw [piecesOf_append, piecesOf_window, Window.pieces, List.append_assoc, List.append_assoc,
    ← List.append_assoc, ← List.append_assoc] at hrow
  have hfront : Row (head.upTo file.package front ++ w.lead.toList) _ := (row_append.1 hrow).1
  have := scan_joined hfront.at_end
  rwa [joined_append, ← Window.leadText, ← hl.front_eq] at this

/-- The source up to a window, with the new callee behind it. -/
theorem Layout.scan_open (hl : Layout file sdk head (front ++ .window w :: behind))
    (hq : ∀ c ∈ q.toList, isPathChar c = true) (he : IsName w.entry) :
    scan (w.call.front file.source ++ openText q w.entry) =
      (head.upTo file.package front ++ (scan (w.region q ++ ['('])).1,
        (scan (w.region q ++ ['('])).2) := by
  rw [hl.front_eq, List.append_assoc, openText, ← List.append_assoc w.leadText]
  exact scan_row (hl.row_upTo hq he ['('])

/-- The lead of a window and the new callee are soft. -/
theorem Layout.soft_region (hl : Layout file sdk head (front ++ .window w :: behind))
    (hq : ∀ c ∈ q.toList, isPathChar c = true) (he : IsName w.entry) :
    ∀ c ∈ w.region q, isSoft c = true := by
  obtain ⟨around, hat, -⟩ := hl.window_at
  have hrow := hl.row_segs
  rw [piecesOf_append, row_append, piecesOf_window, row_append] at hrow
  exact isSoft_of_mem_region hq he.forall_mem hat hrow.2.1

theorem scan_open_of_none {s : List Char} (hs : ∀ c ∈ s, isSoft c = true)
    (h : (scan s).2 = none) :
    scan (s ++ ['(']) = ((scan s).1 ++ [.token (.operator .lparen)], none) := by
  rw [scan_soft_append hs h, scan_paren]

/-- **Readable windows** are legible. -/
theorem Layout.readable_iff (hl : Layout file sdk head (front ++ .window w :: behind))
    (hq : ∀ c ∈ q.toList, isPathChar c = true) (he : IsName w.entry) :
    Readable file.source q (w.call, w.entry) ↔ (scan (w.region q)).2 = none := by
  have hsoft := hl.soft_region hq he
  rw [Readable, hl.scan_open hq he]
  constructor
  · exact scan_append_fault hsoft
  · intro h
    rw [scan_open_of_none hsoft h]

/-- **Where a call stands apart**, the new callee is scanned behind the lead as it should be. -/
theorem Layout.apart_iff (hl : Layout file sdk head (front ++ .window w :: behind))
    (hq : ∀ c ∈ q.toList, isPathChar c = true) (he : IsName w.entry) :
    Apart file.source q (w.call, w.entry) ↔
      scan (w.region q) = (w.lead.toList ++ calleePieces q w.entry, none) := by
  have hsoft := hl.soft_region hq he
  rw [Apart, hl.scan_open hq he, hl.scan_front]
  simp only [Prod.mk.injEq, List.append_assoc, List.append_right_inj]
  constructor
  · rintro ⟨hpieces, hfault⟩
    have hregion := scan_append_fault hsoft hfault
    rw [scan_open_of_none hsoft hregion, ← List.append_assoc] at hpieces
    rw [← List.append_cancel_right hpieces, ← hregion]
  · intro h
    have hregion : (scan (w.region q)).2 = none := by rw [h]
    rw [scan_open_of_none hsoft hregion, h]
    simp

/-- **Unbroken calls** have no line break in front of the token behind the parenthesis. -/
theorem Layout.unbroken_iff (hl : Layout file sdk head (front ++ .window w :: behind)) :
    Unbroken file.source (w.call, w.entry) ↔ (w.call.args = [] →
      ∀ p ∈ (piecesOf behind).takeWhile (!·.isToken), p.breaksLine = false) := by
  have hrow := hl.row_segs
  rw [piecesOf_append, row_append, piecesOf_window, row_append] at hrow
  rw [Unbroken, hl.behind_eq, scan_joined hrow.2.2]

end TestWeave.Source
