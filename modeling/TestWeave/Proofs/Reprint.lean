import TestWeave.Proofs.Segments

/-!
# Scanning a source with redirected calls

In the place of each call stands `qualifier.entry(receiver`. The qualifier and the entry may run
into a sticky piece in front of them; everything else is scanned as it was.

* `row_fresh`: if every window is legible, the new pieces are a row.
* `legible_of_scan`: a new source that is scanned has only legible windows.
-/

namespace TestWeave.Source

open TestWeave.Text TestWeave.Change

/-- The characters of the last part of an import path. -/
def isPathChar (c : Char) : Bool := isIdentPart c || ['.', '-', '~'].contains c

/-- How the new callee of a call is spelled. -/
def calleeText (qualifier entry : String) : List Char := qualifier.toList ++ '.' :: entry.toList

namespace Window

/-- The text of the lead. -/
def leadText (w : Window) : List Char := Piece.joined w.lead.toList

/-- The text that an edit replaces. -/
def replaced (w : Window) : List Char := Piece.joined (w.callee ++ [.token (.operator .lparen)])

/-- The lead and the new callee: what may run into each other. -/
def region (q : String) (w : Window) : List Char := w.leadText ++ calleeText q w.entry

/-- The new pieces between the callee and the arguments. -/
def passing (w : Window) : List Piece :=
  [.token (.operator .lparen), .token (.ident w.call.receiver)] ++
    if w.call.args.isEmpty then [] else [.token (.operator .comma), .blank ' ']

/-- The new pieces of a window. -/
def fresh (q : String) (w : Window) : List Piece := (scan (w.region q)).1 ++ w.passing

end Window

/-- The new pieces of a segment. -/
def Segment.fresh (q : String) : Segment → List Piece
  | .plain p => [p]
  | .window w => w.fresh q

/-- The new text of a segment. -/
def Segment.freshText (q : String) : Segment → List Char
  | .plain p => p.text
  | .window w => w.leadText ++ (Patch.callText w.call q w.entry).toList

/-- The new pieces of a list of segments. -/
def freshOf (q : String) (segs : List Segment) : List Piece := segs.flatMap (Segment.fresh q)

/-- The new text of a list of segments. -/
def freshText (q : String) (segs : List Segment) : List Char := segs.flatMap (Segment.freshText q)

/-- Whether what stands in the places of the calls can be scanned. -/
def Legible (q : String) (segs : List Segment) : Prop :=
  ∀ w, .window w ∈ segs → (scan (w.region q)).2 = none

section

variable {q : String} {segs : List Segment}

@[simp] theorem freshOf_nil : freshOf q [] = [] := rfl

@[simp] theorem freshOf_plain (p : Piece) : freshOf q (.plain p :: segs) = p :: freshOf q segs := rfl

@[simp] theorem freshOf_window (w : Window) :
    freshOf q (.window w :: segs) = w.fresh q ++ freshOf q segs := rfl

@[simp] theorem freshText_nil : freshText q [] = [] := rfl

@[simp] theorem freshText_plain (p : Piece) :
    freshText q (.plain p :: segs) = p.text ++ freshText q segs := rfl

theorem joined_pieces (w : Window) : Piece.joined w.pieces = w.leadText ++ w.replaced := by
  simp [Window.pieces, Window.leadText, Window.replaced]

theorem joined_passing (w : Window) :
    Piece.joined w.passing = '(' :: w.call.receiver.toList ++
      if w.call.args.isEmpty then [] else [',', ' '] := by
  unfold Window.passing
  split <;> simp [Piece.text, TokenKind.text, Operator.spelling]

theorem callText_toList (call : CallSite) (qualifier entry : String) :
    (Patch.callText call qualifier entry).toList = calleeText qualifier entry ++
      '(' :: call.receiver.toList ++ if call.args.isEmpty then [] else [',', ' '] := by
  unfold Patch.callText calleeText
  split <;> simp [toString]

@[simp] theorem freshText_window (w : Window) :
    freshText q (.window w :: segs) =
      w.region q ++ (Piece.joined w.passing ++ freshText q segs) := by
  change w.leadText ++ (Patch.callText w.call q w.entry).toList ++ freshText q segs = _
  rw [callText_toList, joined_passing, Window.region]
  simp

/-- The new pieces are the new text, where that can be scanned. -/
theorem joined_freshOf (h : Legible q segs) : Piece.joined (freshOf q segs) = freshText q segs := by
  induction segs with
  | nil => rfl
  | cons s segs ih =>
    have ih := ih fun w hw => h w (List.mem_cons_of_mem _ hw)
    cases s with
    | plain p => simp [ih]
    | window w =>
      have hw := scan_text (h w (by simp))
      simp [Window.fresh, ih, hw]

/-! ### Sticky pieces and dots -/

theorem Reads.isSoft_of_isSticky {p : Piece} {rest : List Char} (h : Reads p rest)
    (hs : p.isSticky = true) : ∀ c ∈ p.text, isSoft c = true := by
  cases h with
  | blank | lineBreak | lineComment | comment | string | rawString | rune =>
    exact absurd hs Bool.false_ne_true
  | @word w _ =>
    unfold wordKind at hs
    split at hs <;> exact absurd hs Bool.false_ne_true
  | number hb hn _ =>
    simpa [Piece.text, TokenKind.text] using isSoft_of_mem_number hb hn
  | @operator op =>
    have : op = .minus ∨ op = .lt := by
      cases op <;> first | exact .inl rfl | exact .inr rfl | exact absurd hs Bool.false_ne_true
    rcases this with rfl | rfl <;> simp [Piece.text, TokenKind.text, Operator.spelling, isSoft]

theorem Reads.eq_dot {p : Piece} {rest : List Char} (h : Reads p rest) (ht : p.text = ['.']) :
    p = .token (.operator .dot) := by
  cases h with
  | @blank c _ hc =>
    obtain rfl : c = '.' := by simpa [Piece.text] using ht
    exact absurd hc (by decide)
  | lineBreak | lineComment | comment => simp [Piece.text] at ht
  | @word w _ hw =>
    simp only [Piece.text, wordKind_text] at ht
    have := isSoft_of_mem_word hw '.' (by simp [ht])
    exact absurd this (by decide)
  | @number c t _ hb =>
    obtain ⟨rfl, rfl⟩ : c = '.' ∧ t = [] := by simpa [Piece.text, TokenKind.text] using ht
    exact absurd hb (by decide)
  | string | rawString | rune => simp [Piece.text, TokenKind.text] at ht
  | @operator op =>
    have : op.spelling.toList = Operator.dot.spelling.toList := ht
    rw [Operator.spelling_inj this]

theorem wordKind_eq_ident_iff {word name : String} :
    wordKind word = .ident name ↔ word = name ∧ Keyword.ofWord? word = none := by
  unfold wordKind
  cases Keyword.ofWord? word <;> simp

theorem Reads.of_ident {name : String} {rest : List Char} (h : Reads (.token (.ident name)) rest) :
    isIdentifier name = true ∧ Keyword.ofWord? name = none := by
  generalize hp : Piece.token (.ident name) = p at h
  cases h with
  | @word w _ hw =>
    obtain ⟨rfl, hk⟩ := wordKind_eq_ident_iff.1 (Piece.token.inj hp).symm
    exact ⟨hw, hk⟩
  | _ => simp at hp

/-- An identifier is read as a word. -/
theorem reads_ident {name : String} {rest : List Char} (hn : isIdentifier name = true)
    (hk : Keyword.ofWord? name = none) (hr : ∀ c ∈ rest.head?, isIdentPart c = false) :
    Reads (.token (.ident name)) rest := by
  have : wordKind name = .ident name := by simp [wordKind, hk]
  rw [← this]
  exact .word hn hr

theorem isIdentifier_cons {name : String} (h : isIdentifier name = true) :
    ∃ c t, name.toList = c :: t ∧ isIdentStart c = true ∧ ∀ d ∈ t, isIdentPart d = true := by
  unfold isIdentifier at h
  split at h
  · simp at h
  · rename_i c t hc
    simp only [Bool.and_eq_true, List.all_eq_true] at h
    exact ⟨c, t, hc, h⟩

/-! ### In front of segments -/

/-- The first characters of what is put in the place of segments are the same, unless a window
without lead begins them. -/
theorem head?_freshText {rest : List Char} (hb : startsBare segs = false)
    (hr : Row (piecesOf segs) rest) :
    (freshText q segs ++ rest).head? = (Piece.joined (piecesOf segs) ++ rest).head? := by
  cases segs with
  | nil => rfl
  | cons s segs =>
    cases s with
    | plain p =>
      obtain ⟨c, t, ht⟩ := List.exists_cons_of_ne_nil hr.1.text_ne_nil
      simp [ht]
    | window w =>
      obtain ⟨l, hl⟩ := Option.isSome_iff_exists.1 (by simpa [startsBare] using hb)
      rw [piecesOf_window, Window.pieces, hl] at hr
      obtain ⟨c, t, ht⟩ := List.exists_cons_of_ne_nil hr.1.text_ne_nil
      simp [Window.region, Window.leadText, Window.pieces, hl, ht]

/-- A dot in front is followed by what followed it. -/
theorem tail_freshText {here : Place} {around : List Delimiter} {rest : List Char}
    (hp : Placed here around segs) (hb : startsBare segs = false) (hr : Row (piecesOf segs) rest)
    (hd : (Piece.joined (piecesOf segs) ++ rest).head? = some '.') :
    (freshText q segs ++ rest).tail.head? = (Piece.joined (piecesOf segs) ++ rest).tail.head? := by
  cases segs with
  | nil => rfl
  | cons s segs =>
    cases s with
    | plain p =>
      obtain ⟨c, t, ht⟩ := List.exists_cons_of_ne_nil hr.1.text_ne_nil
      cases t with
      | cons d t => simp [ht]
      | nil =>
        -- a dot is a piece of its own here, and no bare window follows it
        obtain rfl : c = '.' := by simpa [ht] using hd
        obtain rfl := hr.1.eq_dot ht
        have hbare : startsBare segs = false := by
          by_contra hs
          exact (hp.1 (eq_true_of_ne_false hs)).2 rfl
        simpa [ht] using head?_freshText hbare hr.2
    | window w =>
      obtain ⟨l, hl⟩ := Option.isSome_iff_exists.1 (by simpa [startsBare] using hb)
      rw [piecesOf_window, Window.pieces, hl] at hr
      obtain ⟨c, t, ht⟩ := List.exists_cons_of_ne_nil hr.1.text_ne_nil
      cases t with
      | cons d t => simp [Window.region, Window.leadText, Window.pieces, hl, ht]
      | nil =>
        obtain rfl : c = '.' := by simpa [Window.pieces, hl, ht] using hd
        obtain rfl := hr.1.eq_dot ht
        exact absurd (hp.1.lead _ hl) Bool.false_ne_true

/-- **In front of segments** a piece ends where it ended, whatever is put in their place. -/
theorem reads_freshText {here : Place} {around : List Delimiter} {p : Piece} {rest : List Char}
    (hq : ∀ c ∈ q.toList, isPathChar c = true) (hp : Placed here around (.plain p :: segs))
    (hr : Row (piecesOf (.plain p :: segs)) rest) : Reads p (freshText q segs ++ rest) := by
  rw [piecesOf_plain] at hr
  obtain ⟨hreads, hrow⟩ := hr
  -- a window with a lead begins with it as before; a bare one begins with the new callee
  by_cases hb : startsBare segs = false
  · refine hreads.congr (head?_freshText hb hrow) fun hd hd' => ?_
    rwa [← tail_freshText (q := q) hp.2 hb hrow hd]
  · obtain ⟨hs, hdot⟩ := hp.1 (eq_true_of_ne_false hb)
    cases segs with
    | nil => exact absurd rfl hb
    | cons s segs =>
      cases s with
      | plain => exact absurd rfl hb
      | window w =>
        have hl : w.lead = none := by simpa [startsBare] using hb
        rw [piecesOf_window, Window.pieces, hl] at hrow
        obtain ⟨c, t, hct, hc, -⟩ := isIdentifier_cons hrow.1.of_ident.1
        have hfirst : Piece.joined (piecesOf (.window w :: segs)) ++ rest =
            c :: (t ++ (Piece.joined (w.gap₁ ++ .token (.operator .dot) :: w.gap₂ ++
              .token (.ident Known.runMethod) :: w.gap₃ ++ [.token (.operator .lparen)]) ++
              Piece.joined (piecesOf segs) ++ rest)) := by
          simp [Window.pieces, Window.callee, hl, Piece.text, TokenKind.text, hct]
        rw [hfirst] at hreads
        obtain ⟨d, u, hdu, hd⟩ : ∃ d u, calleeText q w.entry = d :: u ∧
            (isIdentPart d = true ∨ d ∈ ['.', '-', '~']) := by
          unfold calleeText
          cases hql : q.toList with
          | nil => exact ⟨'.', _, rfl, .inr (by simp)⟩
          | cons d u =>
            refine ⟨d, _, rfl, ?_⟩
            simpa [isPathChar] using hq d (by simp [hql])
        rw [freshText_window, Window.region, Window.leadText, hl, Option.toList_none, joined_nil,
          List.nil_append, hdu]
        exact hreads.before_soft hc hs hdot hd

/-! ### Windows -/

/-- What stands between tokens begins with a mark. -/
theorem Reads.head_mem_marks {p : Piece} {rest : List Char} (h : Reads p rest)
    (hp : p.isToken = false) : ∀ c ∈ p.text.head?, c ∈ marks := by
  cases h with
  | blank hc =>
    rintro _ ⟨⟩
    exact mem_marks_of_isSpacing hc
  | lineBreak | lineComment | comment =>
    rintro _ ⟨⟩
    decide
  | _ => exact absurd hp (by simp [Piece.isToken])

/-- No word goes on with what stands in front of a closing parenthesis or a comma. -/
theorem Closes.head {rest : List Char} (hc : Closes segs) (hr : Row (piecesOf segs) rest) :
    ∀ c ∈ (freshText q segs ++ rest).head?, isIdentPart c = false := by
  cases segs with
  | nil => exact hc.elim
  | cons s segs =>
    cases s with
    | window w => exact hc.elim
    | plain p =>
      intro c hm
      refine not_isIdentPart_of_mem_marks ?_
      rw [piecesOf_plain] at hr
      obtain ⟨d, t, ht⟩ := List.exists_cons_of_ne_nil hr.1.text_ne_nil
      obtain rfl : d = c := by simpa [ht] using hm
      by_cases hp : p.isToken = false
      · exact hr.1.head_mem_marks hp d (by simp [ht])
      · cases p with
        | token kind =>
          rcases hc with rfl | rfl
          · obtain ⟨rfl, -⟩ : ')' = d ∧ [] = t := List.cons.inj ht
            decide
          · obtain ⟨rfl, -⟩ : ',' = d ∧ [] = t := List.cons.inj ht
            decide
        | _ => exact absurd rfl hp

/-- The receiver as an argument, and the comma behind it. -/
theorem row_passing {w : Window} {rest : List Char}
    (hw : isIdentifier w.call.receiver = true ∧ Keyword.ofWord? w.call.receiver = none)
    (hr : w.call.args = [] → ∀ c ∈ rest.head?, isIdentPart c = false) : Row w.passing rest := by
  have hparen : ∀ rest, Reads (.token (.operator .lparen)) rest := fun _ =>
    Reads.of_alone (by decide) (by decide) (by decide)
  have hcomma : ∀ rest, Reads (.token (.operator .comma)) rest := fun _ =>
    Reads.of_alone (by decide) (by decide) (by decide)
  unfold Window.passing
  split
  · rename_i ha
    exact ⟨hparen _, reads_ident hw.1 hw.2 (hr (List.isEmpty_iff.1 ha)), trivial⟩
  · refine ⟨hparen _, reads_ident hw.1 hw.2 ?_, hcomma _, .blank rfl, trivial⟩
    rintro _ ⟨⟩
    decide

theorem isSoft_of_isPathChar {c : Char} (h : isPathChar c = true) : isSoft c = true := by
  simp only [isPathChar, Bool.or_eq_true, List.contains_iff_mem, List.mem_cons,
    List.not_mem_nil, or_false] at h
  rcases h with h | rfl | rfl | rfl
  · exact isSoft_of_isIdentPart h
  all_goals decide

/-- The text of a callee is soft. -/
theorem isSoft_of_mem_calleeText {q entry : String} (hq : ∀ c ∈ q.toList, isPathChar c = true)
    (he : ∀ c ∈ entry.toList, isIdentPart c = true) : ∀ c ∈ calleeText q entry, isSoft c = true := by
  intro c hc
  simp only [calleeText, List.mem_append, List.mem_cons] at hc
  rcases hc with hc | rfl | hc
  · exact isSoft_of_isPathChar (hq c hc)
  · decide
  · exact isSoft_of_isIdentPart (he c hc)

/-- The lead and the callee are soft. -/
theorem isSoft_of_mem_region {w : Window} {here : Place} {rest : List Char}
    (hq : ∀ c ∈ q.toList, isPathChar c = true) (he : ∀ c ∈ w.entry.toList, isIdentPart c = true)
    (hw : w.At here) (hr : Row w.pieces rest) : ∀ c ∈ w.region q, isSoft c = true := by
  intro c hc
  rw [Window.region, List.mem_append] at hc
  rcases hc with hc | hc
  · cases hl : w.lead with
    | none => simp [Window.leadText, hl] at hc
    | some l =>
      rw [Window.pieces, hl] at hr
      refine hr.1.isSoft_of_isSticky (hw.lead l hl) c ?_
      simpa [Window.leadText, hl] using hc
  · exact isSoft_of_mem_calleeText hq he c hc

/-- The receiver of a window is an identifier. -/
theorem receiver_of_row {w : Window} {rest : List Char} (hr : Row w.pieces rest) :
    isIdentifier w.call.receiver = true ∧ Keyword.ofWord? w.call.receiver = none := by
  rw [Window.pieces, Window.callee, List.append_assoc, row_append] at hr
  exact hr.2.1.of_ident

/-- **The new pieces are a row**, if the windows are legible. -/
theorem row_fresh {here : Place} {around : List Delimiter} {rest : List Char}
    (hq : ∀ c ∈ q.toList, isPathChar c = true)
    (he : ∀ s ∈ sitesOf segs, ∀ c ∈ s.2.toList, isIdentPart c = true)
    (hp : Placed here around segs) (hr : Row (piecesOf segs) rest) (hl : Legible q segs) :
    Row (freshOf q segs) rest := by
  induction segs generalizing here around with
  | nil => trivial
  | cons s segs ih =>
    have hl' : Legible q segs := fun w hw => hl w (List.mem_cons_of_mem _ hw)
    cases s with
    | plain p =>
      have := reads_freshText hq hp hr
      rw [← joined_freshOf hl'] at this
      exact ⟨this, ih he hp.2 hr.2 hl'⟩
    | window w =>
      obtain ⟨hat, -, hcl, hp'⟩ := hp
      rw [piecesOf_window, row_append] at hr
      have hw := receiver_of_row hr.1
      have hsoft := isSoft_of_mem_region hq (he (w.call, w.entry) (by simp)) hat hr.1
      -- the new callee is a row by itself, and what is passed follows it
      rw [freshOf_window, Window.fresh, row_append, row_append]
      refine ⟨⟨?_, row_passing hw fun ha => ?_⟩,
        ih (fun s hs => he s (by simp [hs])) hp' hr.2 hl'⟩
      · rw [joined_passing]
        exact row_soft hsoft (hl w (by simp))
      · rw [joined_freshOf hl']
        exact (hcl ha).head hr.2

/-- **A new source that is scanned** has only legible windows. -/
theorem legible_of_scan {here : Place} {around : List Delimiter} {rest : List Char}
    (hq : ∀ c ∈ q.toList, isPathChar c = true)
    (he : ∀ s ∈ sitesOf segs, ∀ c ∈ s.2.toList, isIdentPart c = true)
    (hp : Placed here around segs) (hr : Row (piecesOf segs) rest)
    (h : (scan (freshText q segs ++ rest)).2 = none) :
    Legible q segs ∧ (scan rest).2 = none := by
  induction segs generalizing here around with
  | nil => exact ⟨by simp [Legible], h⟩
  | cons s segs ih =>
    cases s with
    | plain p =>
      rw [freshText_plain, List.append_assoc, scan_cons_of_reads (reads_freshText hq hp hr)] at h
      obtain ⟨hl, hrest⟩ := ih he hp.2 hr.2 h
      exact ⟨fun w hw => hl w (by simpa using hw), hrest⟩
    | window w =>
      obtain ⟨hat, -, hcl, hp'⟩ := hp
      rw [piecesOf_window, row_append] at hr
      have hsoft := isSoft_of_mem_region hq (he (w.call, w.entry) (by simp)) hat hr.1
      rw [freshText_window, List.append_assoc, List.append_assoc] at h
      have hpassing : Row w.passing (freshText q segs ++ rest) :=
        row_passing (receiver_of_row hr.1) fun ha => (hcl ha).head hr.2
      -- a fault in the new callee would be one of the whole text
      have hw : (scan (w.region q)).2 = none := by
        rw [joined_passing] at h
        exact scan_append_fault hsoft h
      have hfirst : Row (scan (w.region q)).1 (Piece.joined w.passing ++ (freshText q segs ++ rest)) := by
        rw [joined_passing]
        exact row_soft hsoft hw
      have hboth := scan_row (row_append.2 ⟨hfirst, hpassing⟩)
      rw [joined_append, scan_text hw, List.append_assoc] at hboth
      rw [hboth] at h
      obtain ⟨hl, hrest⟩ := ih (fun s hs => he s (by simp [hs])) hp' hr.2 h
      refine ⟨fun v hv => ?_, hrest⟩
      rcases List.mem_cons.1 hv with hv | hv
      · cases hv
        exact hw
      · exact hl v hv

end

end TestWeave.Source
