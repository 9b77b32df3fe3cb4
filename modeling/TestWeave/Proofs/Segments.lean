import TestWeave.Proofs.Soft
import TestWeave.Proofs.Tokens
import TestWeave.Proofs.Windows

/-!
# The segments of a source

A source is a row of pieces and windows. A window is a call from its receiver up to the opening
parenthesis, together with a sticky piece that stands directly in front of it.

* `Placed`: the calls of the windows are those of the places where the windows stand.
* `Free`: no window selects from something else.
* `exists_segments`: a source whose tokens are marked has such segments.
-/

namespace TestWeave.Source

/-- A call as it stands in a source. The gaps hold what stands between its tokens. -/
structure Window where
  /-- The sticky piece directly in front, if there is one. -/
  lead : Option Piece
  gap₁ : List Piece
  gap₂ : List Piece
  gap₃ : List Piece
  call : CallSite
  entry : String

/-- The pieces of a call in front of its parenthesis. -/
def Window.callee (w : Window) : List Piece :=
  .token (.ident w.call.receiver) :: w.gap₁ ++ .token (.operator .dot) :: w.gap₂ ++
    .token (.ident Known.runMethod) :: w.gap₃

/-- The pieces of a window. -/
def Window.pieces (w : Window) : List Piece :=
  w.lead.toList ++ w.callee ++ [.token (.operator .lparen)]

/-- A piece, or a window. -/
inductive Segment
  | plain (p : Piece)
  | window (w : Window)

namespace Segment

/-- The pieces of a segment. -/
def pieces : Segment → List Piece
  | .plain p => [p]
  | .window w => w.pieces

/-- The call of a window, with its new entry. -/
def site? : Segment → Option (CallSite × String)
  | .plain _ => none
  | .window w => some (w.call, w.entry)

end Segment

/-- The pieces of a list of segments. -/
def piecesOf (segs : List Segment) : List Piece := segs.flatMap Segment.pieces

/-- The calls of a list of segments. -/
def sitesOf (segs : List Segment) : List (CallSite × String) := segs.filterMap Segment.site?

@[simp] theorem piecesOf_nil : piecesOf [] = [] := rfl

@[simp] theorem piecesOf_plain (p : Piece) (segs : List Segment) :
    piecesOf (.plain p :: segs) = p :: piecesOf segs := rfl

@[simp] theorem piecesOf_window (w : Window) (segs : List Segment) :
    piecesOf (.window w :: segs) = w.pieces ++ piecesOf segs := rfl

@[simp] theorem sitesOf_nil : sitesOf [] = [] := rfl

@[simp] theorem sitesOf_plain (p : Piece) (segs : List Segment) :
    sitesOf (.plain p :: segs) = sitesOf segs := rfl

@[simp] theorem sitesOf_window (w : Window) (segs : List Segment) :
    sitesOf (.window w :: segs) = (w.call, w.entry) :: sitesOf segs := rfl

/-- Pieces without tokens. -/
def Blank (ps : List Piece) : Prop := ∀ p ∈ ps, p.isToken = false

/-- Pieces without tokens and without line breaks. -/
def Inline (ps : List Piece) : Prop := ∀ p ∈ ps, p.isToken = false ∧ p.breaksLine = false

theorem Inline.blank {ps : List Piece} (h : Inline ps) : Blank ps := fun p hp => (h p hp).1

/-- The window stands at `here`, lead included. -/
structure Window.At (w : Window) (here : Place) : Prop where
  lead : ∀ p ∈ w.lead, p.isSticky = true
  gap₁ : Inline w.gap₁
  gap₂ : Blank w.gap₂
  gap₃ : Inline w.gap₃
  start : w.call.callee.start = (here.after (Piece.joined w.lead.toList)).offset
  openParen : w.call.openParen =
    (here.after (Piece.joined (w.lead.toList ++ w.callee))).spanTo
      (here.after (Piece.joined w.pieces)).offset

/-- Whether a window without lead begins the segments. -/
def startsBare : List Segment → Bool
  | .window w :: _ => w.lead.isNone
  | _ => false

/-- Whether the first token behind is a closing parenthesis or a comma. -/
def Closes : List Segment → Prop
  | .plain (.token kind) :: _ => kind = .operator .rparen ∨ kind = .operator .comma
  | .plain _ :: segs => Closes segs
  | _ => False

/-- The groups that are open behind a piece. -/
def Piece.stack : Piece → List Delimiter → List Delimiter
  | .token kind, around => kind.stack around
  | _, around => around

/-- The segments stand at `here`, inside the groups `around`. No sticky piece and no dot stands
directly in front of a window without lead, and windows stand inside braces. -/
def Placed (here : Place) (around : List Delimiter) : List Segment → Prop
  | [] => True
  | .plain p :: segs =>
    (startsBare segs = true → p.isSticky = false ∧ p ≠ .token (.operator .dot)) ∧
      Placed (here.after p.text) (p.stack around) segs
  | .window w :: segs =>
    w.At here ∧ .brace ∈ around ∧ (w.call.args = [] → Closes segs) ∧
      Placed (here.after (Piece.joined w.pieces)) (.paren :: around) segs

/-- Whether a dot stands in front of what follows a piece. -/
def Piece.selects (selected : Bool) : Piece → Bool
  | .token kind => kind == .operator .dot
  | _ => selected

/-- Behind no dot stands the receiver of a window, whatever blanks are between them. `selected` says
whether a dot stands in front of the segments. -/
def Free (selected : Bool) : List Segment → Prop
  | [] => True
  | .plain p :: segs => Free (p.selects selected) segs
  | .window w :: segs => (w.lead = none → selected = false) ∧ Free false segs

/-! ### Pieces in front of segments -/

/-- Puts a piece in front of segments; a sticky one becomes the lead of a window. -/
def absorb (p : Piece) : List Segment → List Segment
  | .window w :: segs =>
    if p.isSticky ∧ w.lead = none then .window { w with lead := some p } :: segs
    else .plain p :: .window w :: segs
  | segs => .plain p :: segs

theorem absorb_of_not_sticky {p : Piece} (hp : p.isSticky = false) (segs : List Segment) :
    absorb p segs = .plain p :: segs := by
  unfold absorb
  split
  · simp [hp]
  · rfl

/-- A sticky piece becomes the lead of a window, or nothing special happens. -/
theorem absorb_cases (p : Piece) (segs : List Segment) :
    (∃ w rest, segs = .window w :: rest ∧ p.isSticky = true ∧ w.lead = none ∧
      absorb p segs = .window { w with lead := some p } :: rest) ∨
    (absorb p segs = .plain p :: segs ∧ (startsBare segs = true → p.isSticky = false)) := by
  unfold absorb
  split
  · rename_i w rest
    split
    · rename_i h
      exact .inl ⟨w, rest, rfl, h.1, h.2, rfl⟩
    · rename_i h
      refine .inr ⟨rfl, fun hw => ?_⟩
      by_contra hp
      exact h ⟨eq_true_of_ne_false hp, by simpa [startsBare] using hw⟩
  · rename_i h
    refine .inr ⟨rfl, fun hw => ?_⟩
    cases segs with
    | nil => simp [startsBare] at hw
    | cons s segs =>
      cases s with
      | plain => simp [startsBare] at hw
      | window w => exact absurd rfl (h w segs)

@[simp] theorem piecesOf_absorb (p : Piece) (segs : List Segment) :
    piecesOf (absorb p segs) = p :: piecesOf segs := by
  rcases absorb_cases p segs with ⟨w, rest, rfl, -, hw, h⟩ | ⟨h, -⟩
  · rw [h]
    simp [Window.pieces, Window.callee, hw]
  · rw [h, piecesOf_plain]

@[simp] theorem sitesOf_absorb (p : Piece) (segs : List Segment) :
    sitesOf (absorb p segs) = sitesOf segs := by
  rcases absorb_cases p segs with ⟨w, rest, rfl, -, -, h⟩ | ⟨h, -⟩ <;> rw [h] <;> rfl

@[simp] theorem startsBare_absorb (p : Piece) (segs : List Segment) :
    startsBare (absorb p segs) = false := by
  rcases absorb_cases p segs with ⟨w, rest, rfl, -, -, h⟩ | ⟨h, -⟩ <;> rw [h] <;> rfl

theorem exists_token_of_isSticky {p : Piece} (hp : p.isSticky = true) : ∃ kind, p = .token kind := by
  cases p <;> simp [Piece.isSticky] at hp ⊢

theorem isSticky_of_not_isToken {p : Piece} (hp : p.isToken = false) : p.isSticky = false := by
  cases p <;> first | rfl | simp [Piece.isToken] at hp

theorem stack_of_not_isToken {p : Piece} (hp : p.isToken = false) (around : List Delimiter) :
    p.stack around = around := by
  cases p <;> first | rfl | simp [Piece.isToken] at hp

theorem selects_of_not_isToken {p : Piece} (hp : p.isToken = false) (selected : Bool) :
    p.selects selected = selected := by
  cases p <;> first | rfl | simp [Piece.isToken] at hp

theorem stack_of_isSticky {p : Piece} (hp : p.isSticky = true) (around : List Delimiter) :
    p.stack around = around := by
  unfold Piece.isSticky at hp
  split at hp <;> first | rfl | simp at hp

theorem Placed.absorb {here : Place} {around : List Delimiter} {p : Piece} {segs : List Segment}
    (h : Placed (here.after p.text) (p.stack around) segs)
    (hd : p = .token (.operator .dot) → startsBare segs = false) :
    Placed here around (Source.absorb p segs) := by
  rcases absorb_cases p segs with ⟨w, rest, rfl, hp, hw, he⟩ | ⟨he, hp⟩
  · rw [he]
    obtain ⟨hat, hb, hc, hr⟩ := h
    rw [stack_of_isSticky hp] at hb hr
    have hpieces : ∀ ps, here.after (p.text ++ ps) = (here.after p.text).after ps :=
      fun ps => here.after_append p.text ps
    refine ⟨⟨by simpa using hp, hat.gap₁, hat.gap₂, hat.gap₃, ?_, ?_⟩, hb, hc, ?_⟩
    · simpa [hw] using hat.start
    · have := hat.openParen
      simp only [Window.pieces, Window.callee, hw, Option.toList_none, List.nil_append] at this
      simpa [Window.pieces, Window.callee, hpieces] using this
    · simp only [Window.pieces, Window.callee, hw, Option.toList_none, List.nil_append] at hr
      simpa [Window.pieces, Window.callee, hpieces] using hr
  · rw [he]
    refine ⟨fun hs => ⟨hp hs, fun hdot => ?_⟩, h⟩
    rw [hd hdot] at hs
    exact Bool.false_ne_true hs

theorem Free.absorb {selected : Bool} {p : Piece} {segs : List Segment}
    (h : Free (p.selects selected) segs) : Free selected (Source.absorb p segs) := by
  rcases absorb_cases p segs with ⟨w, rest, rfl, -, -, he⟩ | ⟨he, -⟩
  · rw [he]
    exact ⟨nofun, h.2⟩
  · rw [he]
    exact h

theorem Closes.absorb {p : Piece} {segs : List Segment} (hp : p.isToken = false)
    (h : Closes segs) : Closes (Source.absorb p segs) := by
  rw [absorb_of_not_sticky (isSticky_of_not_isToken hp)]
  cases p <;> first | exact h | simp [Piece.isToken] at hp

/-- Puts a row of pieces in front of segments. -/
def absorbAll (ps : List Piece) (segs : List Segment) : List Segment := ps.foldr absorb segs

@[simp] theorem piecesOf_absorbAll (ps : List Piece) (segs : List Segment) :
    piecesOf (absorbAll ps segs) = ps ++ piecesOf segs := by
  induction ps with
  | nil => rfl
  | cons p ps ih => simpa [absorbAll] using ih

@[simp] theorem sitesOf_absorbAll (ps : List Piece) (segs : List Segment) :
    sitesOf (absorbAll ps segs) = sitesOf segs := by
  induction ps with
  | nil => rfl
  | cons p ps ih => simpa [absorbAll] using ih

theorem Placed.absorbAll {here : Place} {around : List Delimiter} {ps : List Piece}
    {segs : List Segment} (hb : Blank ps)
    (h : Placed (here.after (Piece.joined ps)) around segs) :
    Placed here around (Source.absorbAll ps segs) := by
  induction ps generalizing here with
  | nil => exact h
  | cons p ps ih =>
    obtain ⟨hp, hps⟩ := List.forall_mem_cons.1 hb
    refine Placed.absorb ?_ ?_
    · rw [stack_of_not_isToken hp]
      refine ih hps ?_
      rwa [← Place.after_append, ← joined_cons]
    · rintro rfl
      simp [Piece.isToken] at hp

theorem Free.absorbAll {selected : Bool} {ps : List Piece} {segs : List Segment} (hb : Blank ps)
    (h : Free selected segs) : Free selected (Source.absorbAll ps segs) := by
  induction ps with
  | nil => exact h
  | cons p ps ih =>
    obtain ⟨hp, hps⟩ := List.forall_mem_cons.1 hb
    refine Free.absorb ?_
    rw [selects_of_not_isToken hp]
    exact ih hps

theorem Closes.absorbAll {ps : List Piece} {segs : List Segment} (hb : Blank ps)
    (h : Closes segs) : Closes (Source.absorbAll ps segs) := by
  induction ps with
  | nil => exact h
  | cons p ps ih =>
    obtain ⟨hp, hps⟩ := List.forall_mem_cons.1 hb
    exact Closes.absorb hp (ih hps)

/-! ### Cutting a source into segments -/

/-- A token that is neither a semicolon nor the end of the file stands in the source. -/
theorem Opens.spelled_of_kind {here : Place} {armed : Bool} {ps : List Piece} {t : Token}
    {ts : List Token} (h : Opens here armed ps t ts) (hs : t.kind ≠ .operator .semi)
    (he : t.kind ≠ .eof) :
    ∃ others rest, Blank others ∧ (armed = true → Inline others) ∧
      ps = others ++ .token t.kind :: rest ∧
      t.span = (here.after (Piece.joined others)).spanTo
        (here.after (Piece.joined (others ++ [.token t.kind]))).offset ∧
      ts = tokensFrom (here.after (Piece.joined (others ++ [.token t.kind])))
        t.kind.endsStatement rest := by
  cases h with
  | @spelled others kind rest ho hn hp =>
    refine ⟨others, rest, ho, fun ha p hm => ⟨ho p hm, hn ha p hm⟩, hp, ?_, ?_⟩ <;>
      simp [Place.after_append, Piece.text]
  | inserted => exact absurd rfl hs
  | ended => exact absurd rfl he

/-- Behind a call that is marked, its tokens are passed over. -/
theorem Marked.behind {around : List Delimiter} {call : CallSite} {recv dot name paren : Token}
    {rest : List Token} {sites : List (CallSite × String)} (hw : WindowAt call recv dot name paren)
    (h : Marked around false (dot :: name :: paren :: rest) sites) :
    Marked (.paren :: around) false rest sites := by
  obtain ⟨-, hd, hn, hp, -, -⟩ := hw
  cases h with
  | site _ hw' => rw [hw'.recv_kind] at hd; simp at hd
  | skip h =>
    rw [hd] at h
    cases h with
    | skip h =>
      rw [hn] at h
      cases h with
      | site _ hw' => rw [hw'.recv_kind] at hp; simp at hp
      | skip h => rwa [hp] at h

theorem startsBare_absorbAll (ps : List Piece) {segs : List Segment}
    (h : startsBare segs = false) : startsBare (absorbAll ps segs) = false := by
  cases ps with
  | nil => exact h
  | cons p ps => exact startsBare_absorb ..

/-- What is asked of segments that make up marked tokens. -/
structure Cut (here : Place) (around : List Delimiter) (selected : Bool) (tokens : List Token)
    (sites : List (CallSite × String)) (ps : List Piece) (segs : List Segment) : Prop where
  pieces : piecesOf segs = ps
  sites : sitesOf segs = sites
  placed : Placed here around segs
  bare : selected = true → startsBare segs = false
  free : Free selected segs
  closes : ∀ t ∈ tokens.head?, t.kind = .operator .rparen ∨ t.kind = .operator .comma → Closes segs

section

variable {here : Place} {around : List Delimiter} {selected armed : Bool} {tokens ts : List Token}
  {sites : List (CallSite × String)} {others rest ps : List Piece} {segs : List Segment}

/-- In front of a token that is spelled, its piece is put in front of the segments. -/
theorem Cut.spelled {kind : TokenKind} {span : Span} (ho : Blank others)
    (h : Cut ((here.after (Piece.joined others)).after kind.text.toList) (kind.stack around)
      (kind == .operator .dot) ts sites rest segs) :
    Cut here around selected (⟨kind, span⟩ :: ts) sites (others ++ .token kind :: rest)
      (absorbAll others (absorb (.token kind) segs)) where
  pieces := by simp [h.pieces]
  sites := by simp [h.sites]
  placed := by
    refine Placed.absorbAll ho (Placed.absorb h.placed fun hd => ?_)
    obtain rfl : kind = .operator .dot := by simpa using hd
    exact h.bare rfl
  bare _ := startsBare_absorbAll others (startsBare_absorb ..)
  free := Free.absorbAll ho (Free.absorb h.free)
  closes := by
    rintro _ ⟨⟩ hk
    refine Closes.absorbAll ho ?_
    simp only at hk
    rw [absorb_of_not_sticky (by rcases hk with rfl | rfl <;> rfl)]
    exact hk

/-- In front of a semicolon that is not spelled, there are only blanks. -/
theorem Cut.inserted (ho : Blank others)
    (h : Cut (here.after (Piece.joined others)) around false ts sites rest segs) :
    Cut here around false (insertedSemi (here.after (Piece.joined others)) :: ts) sites
      (others ++ rest) (absorbAll others segs) where
  pieces := by simp [h.pieces]
  sites := by simp [h.sites]
  placed := Placed.absorbAll ho h.placed
  bare := nofun
  free := Free.absorbAll ho h.free
  closes := by
    rintro _ ⟨⟩ hk
    simp [insertedSemi] at hk

/-- So it is at the end of the file. -/
theorem Cut.ended {span : Span} (ho : Blank ps) :
    Cut here around selected [⟨.eof, span⟩] [] ps (absorbAll ps []) where
  pieces := by simp
  sites := by simp
  placed := Placed.absorbAll ho trivial
  bare _ := startsBare_absorbAll ps rfl
  free := Free.absorbAll ho trivial
  closes := by
    rintro _ ⟨⟩ hk
    simp at hk

/-- **The pieces of a call that is marked**, up to its parenthesis, are those of a window. -/
theorem Cut.site {call : CallSite} {entry : String} {recv dot name paren next : Token}
    (hb : .brace ∈ around) (hw : WindowAt call recv dot name paren)
    (hargs : call.args = [] → next.kind = .operator .rparen ∨ next.kind = .operator .comma)
    (ht : tokensFrom here armed ps = recv :: dot :: name :: paren :: next :: ts)
    (ih : ∀ {here : Place} {armed : Bool} {rest : List Piece},
      tokensFrom here armed rest = next :: ts →
      ∃ segs, Cut here (.paren :: around) false (next :: ts) sites rest segs) :
    ∃ segs, Cut here around false (recv :: dot :: name :: paren :: next :: ts)
      ((call, entry) :: sites) ps segs := by
  -- the four tokens, one after the other
  obtain ⟨others, ps₁, ho, -, rfl, hspan, ht⟩ := (opens_of_tokensFrom ht).spelled_of_kind
    (by simp [hw.recv_kind]) (by simp [hw.recv_kind])
  obtain ⟨gap₁, ps₂, -, hg₁, rfl, -, ht⟩ := (opens_of_tokensFrom ht.symm).spelled_of_kind
    (by simp [hw.dot_kind]) (by simp [hw.dot_kind])
  obtain ⟨gap₂, ps₃, hg₂, -, rfl, -, ht⟩ := (opens_of_tokensFrom ht.symm).spelled_of_kind
    (by simp [hw.name_kind]) (by simp [hw.name_kind])
  obtain ⟨gap₃, ps₄, -, hg₃, rfl, hparen, ht⟩ := (opens_of_tokensFrom ht.symm).spelled_of_kind
    (by simp [hw.paren_kind]) (by simp [hw.paren_kind])
  rw [hw.recv_kind, hw.dot_kind, hw.name_kind, hw.paren_kind] at *
  obtain ⟨segs, hc⟩ := ih ht.symm
  refine ⟨absorbAll others (.window ⟨none, gap₁, gap₂, gap₃, call, entry⟩ :: segs), ?_, ?_,
    Placed.absorbAll ho ⟨⟨by simp, hg₁ rfl, hg₂, hg₃ rfl, ?_, ?_⟩, hb, ?_, ?_⟩, nofun,
    Free.absorbAll ho ⟨fun _ => rfl, hc.free⟩, ?_⟩
  · simp [Window.pieces, Window.callee, hc.pieces]
  · simp [hc.sites]
  · rw [hw.callee]
    simp [Span.through, hspan, Place.spanTo]
  · rw [hw.openParen, hparen]
    simp [Window.pieces, Window.callee, Place.after_append]
  · exact fun ha => hc.closes next rfl (hargs ha)
  · simpa [Window.pieces, Window.callee, Place.after_append] using hc.placed
  · rintro _ ⟨⟩ hk
    rw [hw.recv_kind] at hk
    simp at hk

/-- **A source whose tokens are marked** has segments whose windows are the marked calls. -/
theorem exists_segments (h : Marked around selected tokens sites)
    (ht : tokensFrom here armed ps = tokens) (hs : selected = true → armed = false) :
    ∃ segs, Cut here around selected tokens sites ps segs := by
  -- induction on the number of tokens, as a call takes four of them at once
  generalize hn : tokens.length = n
  induction n using Nat.strong_induction_on
    generalizing around selected tokens sites here armed ps with
  | _ n ih =>
    cases h with
    | nil => exact absurd ht (tokensFrom_ne_nil _ _ _)
    | @skip _ _ t ts _ h =>
      have hlt : ts.length < n := by simp at hn; omega
      cases opens_of_tokensFrom ht with
      | @spelled others kind rest ho _ hp =>
        have hdot : (kind == .operator .dot) = true → kind.endsStatement = false := by
          intro hd
          obtain rfl : kind = .operator .dot := by simpa using hd
          rfl
        obtain ⟨segs, hc⟩ := ih _ hlt h rfl hdot rfl
        exact ⟨_, hp ▸ hc.spelled ho⟩
      | @inserted others rest ho ha hp =>
        have hfree : selected = false := by
          by_contra hsel
          rw [hs (eq_true_of_ne_false hsel)] at ha
          exact Bool.false_ne_true ha
        obtain ⟨segs, hc⟩ := ih _ hlt h rfl (fun _ => rfl) rfl
        subst hfree
        exact ⟨_, hp ▸ hc.inserted ho⟩
      | ended ho ha =>
        cases h
        exact ⟨_, .ended ho⟩
    | @site _ recv dot name paren next rest call entry sites hb hw hargs hm =>
      have hlt : (next :: rest).length < n := by simp at hn ⊢; omega
      -- a place behind a parenthesis is behind no dot
      exact Cut.site hb hw hargs ht fun ht => ih _ hlt (hm.behind hw) ht nofun rfl

end

end TestWeave.Source
