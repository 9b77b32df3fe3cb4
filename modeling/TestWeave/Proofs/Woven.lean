import TestWeave.Proofs.Sketch
import TestWeave.Proofs.Rescan

/-!
# Token lists that differ between braces

What redirected calls change stands between braces, and no delimiter is changed. Two such token
lists are read into trees of one sketch.

* `Woven`: the token kinds of two sources, one of which has other plain tokens between braces.
* `woven_fresh`: the tokens of a source and those of its new pieces.
* `Woven.grow`: woven token lists have trees of one sketch.
* `ofTokens_of_kinds`: what a file declares depends on the kinds of its tokens alone.
-/

namespace TestWeave.Source

open TestWeave.Text TestWeave.Change

/-- The kinds of two token lists inside the groups `around`; between braces either of them may have
plain tokens that the other one has not. -/
inductive Woven : List Delimiter → List TokenKind → List TokenKind → Prop
  | nil {around} : Woven around [] []
  | both {around kind ks ks'} : Woven (kind.stack around) ks ks' →
      Woven around (kind :: ks) (kind :: ks')
  | left {around kind ks ks'} : kind.isPlain = true → .brace ∈ around → Woven around ks ks' →
      Woven around (kind :: ks) ks'
  | right {around kind ks ks'} : kind.isPlain = true → .brace ∈ around → Woven around ks ks' →
      Woven around ks (kind :: ks')

theorem Woven.refl (around : List Delimiter) (ks : List TokenKind) : Woven around ks ks := by
  induction ks generalizing around with
  | nil => exact .nil
  | cons kind ks ih => exact .both (ih _)

theorem Woven.symm {around : List Delimiter} {ks ks' : List TokenKind} (h : Woven around ks ks') :
    Woven around ks' ks := by
  induction h with
  | nil => exact .nil
  | both _ ih => exact .both ih
  | left hk hb _ ih => exact .right hk hb ih
  | right hk hb _ ih => exact .left hk hb ih

/-- At the top of a source both lists have the same next token. -/
theorem Woven.top {kind : TokenKind} {ks ks' : List TokenKind} (h : Woven [] (kind :: ks) ks') :
    ∃ ks'', ks' = kind :: ks'' ∧ Woven (kind.stack []) ks ks'' := by
  cases h with
  | both h => exact ⟨_, rfl, h⟩
  | left _ hb => exact absurd hb List.not_mem_nil
  | right _ hb => exact absurd hb List.not_mem_nil

/-! ### The tokens of a changed source -/

/-- Pieces whose tokens are plain. -/
def AllPlain (ps : List Piece) : Prop := ∀ kind, .token kind ∈ ps → kind.isPlain = true

theorem AllPlain.tail {p : Piece} {ps : List Piece} (h : AllPlain (p :: ps)) : AllPlain ps :=
  fun kind hk => h kind (List.mem_cons_of_mem _ hk)

theorem AllPlain.append {ps qs : List Piece} (hp : AllPlain ps) (hq : AllPlain qs) :
    AllPlain (ps ++ qs) := by
  intro kind hk
  rcases List.mem_append.1 hk with hk | hk
  · exact hp kind hk
  · exact hq kind hk

theorem allPlain_of_blank {ps : List Piece} (h : Blank ps) : AllPlain ps := by
  intro kind hk
  exact absurd (h _ hk) (by simp [Piece.isToken])

theorem allPlain_of_lead {l : Option Piece} (h : ∀ p ∈ l, p.isSticky = true) :
    AllPlain l.toList := by
  intro kind hk
  have hs := h (.token kind) (by simpa using hk)
  cases kind with
  | literal => rfl
  | operator op => cases op <;> first | rfl | exact absurd hs Bool.false_ne_true
  | _ => exact absurd hs Bool.false_ne_true

/-- The pieces of a soft text are plain tokens. -/
theorem plain_of_soft {s : List Char} (hs : ∀ c ∈ s, isSoft c = true) :
    ∀ p ∈ (scan s).1, ∃ kind, p = .token kind ∧ kind.isPlain = true := by
  intro p hp
  obtain ⟨rest, htext, hrow⟩ := scan_spec s
  have hsoft : ∀ c ∈ p.text, isSoft c = true := by
    intro c hc
    refine hs c ?_
    rw [← htext]
    exact List.mem_append_left _ (List.mem_flatMap.2 ⟨p, hp, hc⟩)
  obtain ⟨front, behind, hsplit⟩ := List.append_of_mem hp
  rw [hsplit, row_append] at hrow
  exact hrow.2.1.exists_token_of_soft hsoft

theorem allPlain_of_soft {s : List Char} (hs : ∀ c ∈ s, isSoft c = true) :
    AllPlain (scan s).1 := by
  intro kind hk
  obtain ⟨kind', hkind, hp⟩ := plain_of_soft hs _ hk
  obtain rfl : kind = kind' := by simpa using hkind
  exact hp

variable {around : List Delimiter}

/-- Plain pieces in front of the first list change nothing between braces. -/
theorem Woven.pieces_left {ps rest : List Piece} {ks : List TokenKind} (hp : AllPlain ps)
    (hb : .brace ∈ around) (h : ∀ armed, Woven around (kindsFrom armed rest) ks) (armed : Bool) :
    Woven around (kindsFrom armed (ps ++ rest)) ks := by
  induction ps generalizing armed with
  | nil => exact h armed
  | cons p ps ih =>
    rw [List.cons_append]
    rcases p.token_or with ⟨kind, rfl⟩ | ht
    · rw [kindsFrom_token]
      exact .left (hp kind (by simp)) hb (ih hp.tail _)
    · rw [kindsFrom_other _ ht]
      split
      · exact .left rfl hb (ih hp.tail _)
      · exact ih hp.tail _

/-- So do plain pieces in front of the second list. -/
theorem Woven.pieces_right {ps rest : List Piece} {ks : List TokenKind} (hp : AllPlain ps)
    (hb : .brace ∈ around) (h : ∀ armed, Woven around ks (kindsFrom armed rest)) (armed : Bool) :
    Woven around ks (kindsFrom armed (ps ++ rest)) :=
  (Woven.pieces_left hp hb (fun armed => (h armed).symm) armed).symm

/-- One and the same piece in front of both lists. Between braces a line break may end a statement
in one of them alone. -/
theorem Woven.piece {p : Piece} {rest rest' : List Piece} {armed armed' : Bool}
    (ha : armed = armed' ∨ .brace ∈ around)
    (h : ∀ armed armed', armed = armed' ∨ .brace ∈ p.stack around →
      Woven (p.stack around) (kindsFrom armed rest) (kindsFrom armed' rest')) :
    Woven around (kindsFrom armed (p :: rest)) (kindsFrom armed' (p :: rest')) := by
  rcases p.token_or with ⟨kind, rfl⟩ | ht
  · rw [kindsFrom_token, kindsFrom_token]
    exact .both (h _ _ (.inl rfl))
  · rw [stack_of_not_isToken ht] at h
    rw [kindsFrom_other _ ht, kindsFrom_other _ ht]
    -- where a line ends, only what is armed is given a semicolon
    cases hb : p.breaksLine with
    | false => simpa using h armed armed' ha
    | true =>
      cases armed with
      | false =>
        cases armed' with
        | false => simpa using h false false (.inl rfl)
        | true =>
          have hbrace : .brace ∈ around := by simpa using ha
          simpa using Woven.right rfl hbrace (h false false (.inl rfl))
      | true =>
        cases armed' with
        | false =>
          have hbrace : .brace ∈ around := by simpa using ha
          simpa using Woven.left rfl hbrace (h false false (.inl rfl))
        | true =>
          have := h false false (.inl rfl)
          have hboth : Woven around (.operator .semi :: kindsFrom false rest)
              (.operator .semi :: kindsFrom false rest') := .both this
          simpa using hboth

variable {q : String} {segs : List Segment}

theorem Window.allPlain_callee {w : Window} {here : Place} (h : w.At here) :
    AllPlain w.callee := by
  have one : ∀ kind : TokenKind, kind.isPlain = true → AllPlain [.token kind] := by
    intro kind hk kind' hm
    obtain rfl : kind' = kind := by simpa using hm
    exact hk
  have hgap₁ := allPlain_of_blank h.gap₁.blank
  have hgap₂ := allPlain_of_blank h.gap₂
  have hgap₃ := allPlain_of_blank h.gap₃.blank
  have hpieces : w.callee = [.token (.ident w.call.receiver)] ++ (w.gap₁ ++
      ([.token (.operator .dot)] ++ (w.gap₂ ++ ([.token (.ident Known.runMethod)] ++ w.gap₃)))) := by
    simp [Window.callee]
  rw [hpieces]
  exact (one _ rfl).append (hgap₁.append ((one _ rfl).append (hgap₂.append
    ((one _ rfl).append hgap₃))))

/-- What is passed besides the arguments. -/
def Window.receiver (w : Window) : List Piece :=
  .token (.ident w.call.receiver) ::
    if w.call.args.isEmpty then [] else [.token (.operator .comma), .blank ' ']

theorem Window.passing_eq (w : Window) : w.passing = .token (.operator .lparen) :: w.receiver := by
  simp [Window.passing, Window.receiver]

theorem Window.allPlain_receiver (w : Window) : AllPlain w.receiver := by
  intro kind hk
  unfold Window.receiver at hk
  split at hk
  · obtain rfl : kind = .ident w.call.receiver := by simpa using hk
    rfl
  · have : kind = .ident w.call.receiver ∨ kind = .operator .comma := by simpa using hk
    rcases this with rfl | rfl <;> rfl

/-- **The tokens of a source and those of its new pieces** differ between braces. -/
theorem woven_fresh (hq : ∀ c ∈ q.toList, isPathChar c = true)
    (he : ∀ s ∈ sitesOf segs, IsName s.2) {here : Place} (hp : Placed here around segs)
    {rest : List Char} (hr : Row (piecesOf segs) rest) (hl : Legible q segs) :
    ∀ {armed armed' : Bool}, armed = armed' ∨ .brace ∈ around →
      Woven around (kindsFrom armed (piecesOf segs)) (kindsFrom armed' (freshOf q segs)) := by
  -- induction on the segments; the flags differ only behind a receiver that is passed alone
  induction segs generalizing here around with
  | nil =>
    intro armed armed' ha
    have hend : Woven around [TokenKind.eof] [.eof] := .both .nil
    cases armed with
    | false =>
      cases armed' with
      | false => exact hend
      | true => exact .right rfl (by simpa using ha) hend
    | true =>
      cases armed' with
      | false => exact .left rfl (by simpa using ha) hend
      | true => exact .both hend
  | cons s segs ih =>
    intro armed armed' ha
    have hl' : Legible q segs := fun w hw => hl w (List.mem_cons_of_mem _ hw)
    cases s with
    | plain p => exact Woven.piece ha fun _ _ ha => ih he hp.2 hr.2 hl' ha
    | window w =>
      obtain ⟨hat, hb, -, hp'⟩ := hp
      rw [piecesOf_window, row_append] at hr
      have hsoft := isSoft_of_mem_region hq (he (w.call, w.entry) (by simp)).forall_mem hat hr.1
      have hregion := allPlain_of_soft hsoft
      have hcallee := (allPlain_of_lead hat.lead).append (Window.allPlain_callee hat)
      have hinner : ∀ armed armed', Woven (.paren :: around) (kindsFrom armed (piecesOf segs))
          (kindsFrom armed' (freshOf q segs)) := fun _ _ =>
        ih (fun s hs => he s (by simp [hs])) hp' hr.2 hl' (.inr (by simp [hb]))
      rw [piecesOf_window, freshOf_window, Window.pieces, Window.fresh, w.passing_eq,
        List.append_assoc (w.lead.toList ++ w.callee), List.append_assoc (scan (w.region q)).1]
      refine Woven.pieces_left hcallee hb (fun _ => ?_) _
      refine Woven.pieces_right hregion hb (fun _ => ?_) _
      rw [List.singleton_append, List.cons_append, kindsFrom_token, kindsFrom_token]
      refine .both ?_
      exact Woven.pieces_right w.allPlain_receiver (by simp [hb])
        (hinner _) _

/-! ### The trees of woven token lists -/

namespace Tree

/-- Two readers that stand at the same place: the same groups are open, and what they have read
has the same sketch where no brace is open. At the top they began with `base` and `base'`. -/
inductive Alike (base base' : List Tree) :
    List Delimiter → List Tree → List Frame → List Tree → List Frame → Prop
  | top {ts done done'} : done.map sketch = ts ++ base → done'.map sketch = ts ++ base' →
      Alike base base' [] done [] done' []
  | inner {around frame frame' frames frames' done done'} : frame.delim = frame'.delim →
      (.brace ∉ frame.delim :: around → done.map sketch = done'.map sketch) →
      Alike base base' around frame.before frames frame'.before frames' →
      Alike base base' (frame.delim :: around) done (frame :: frames) done' (frame' :: frames')

variable {base base' done done' trees : List Tree} {frames frames' : List Frame}

/-- Both readers read a tree; between braces it may be any. -/
theorem Alike.push {t t' : Tree} (ht : .brace ∉ around → t.sketch = t'.sketch)
    (h : Alike base base' around done frames done' frames') :
    Alike base base' around (t :: done) frames (t' :: done') frames' := by
  cases h with
  | @top ts _ _ h h' =>
    have ht := ht List.not_mem_nil
    have hd : (t :: done).map sketch = (t.sketch :: ts) ++ base := by simp [h]
    exact .top hd (by simp [h', ht])
  | inner hd h hr => exact .inner hd (fun hb => by simp [h hb, ht hb]) hr

/-- Between braces one of the readers may read a tree alone. -/
theorem Alike.push_left {t : Tree} (hb : .brace ∈ around)
    (h : Alike base base' around done frames done' frames') :
    Alike base base' around (t :: done) frames done' frames' := by
  cases h with
  | top => exact absurd hb List.not_mem_nil
  | inner hd _ hr => exact .inner hd (fun hb' => absurd hb hb') hr

theorem Alike.push_right {t : Tree} (hb : .brace ∈ around)
    (h : Alike base base' around done frames done' frames') :
    Alike base base' around done frames (t :: done') frames' := by
  cases h with
  | top => exact absurd hb List.not_mem_nil
  | inner hd _ hr => exact .inner hd (fun hb' => absurd hb hb') hr

/-- Where one reader reads a token, the other one can read a token of the same kind. -/
theorem Alike.grows {token token' : Token} {done₁ : List Tree} {frames₁ : List Frame}
    (hk : token.kind = token'.kind) (hg : Grows done frames token done₁ frames₁)
    (h : Alike base base' around done frames done' frames') :
    ∃ done₁' frames₁', Grows done' frames' token' done₁' frames₁' ∧
      Alike base base' (token.kind.stack around) done₁ frames₁ done₁' frames₁' := by
  obtain ⟨kind', span'⟩ := token'
  simp only at hk
  subst hk
  cases hg with
  | leaf hp =>
    refine ⟨_, _, .leaf hp, ?_⟩
    rw [TokenKind.stack_of_isPlain hp]
    exact h.push fun _ => by simp
  | @opening _ delim span =>
    refine ⟨_, _, .opening, ?_⟩
    rw [TokenKind.stack_opening]
    have hd : (Frame.mk delim span done).delim = (Frame.mk delim span' done').delim := rfl
    exact .inner hd (fun _ => rfl) h
  | @closing frame _ span =>
    cases h with
    | @inner _ _ frame' _ frames' _ _ hd hs hr =>
      have hgrows : Grows done' (frame' :: frames')
          ⟨.operator frame'.delim.closing, span'⟩
          (.group frame'.delim frame'.opening span' done'.reverse :: frame'.before) frames' :=
        .closing
      rw [← hd] at hgrows
      refine ⟨_, _, hgrows, ?_⟩
      rw [TokenKind.stack_closing]
      refine hr.push fun hb => ?_
      rw [List.tail_cons] at hb
      rw [sketch_group, sketch_group]
      -- what stands in braces may differ; other groups have the same sketch
      by_cases hbrace : frame.delim = .brace
      · rw [if_pos hbrace, if_pos hbrace]
      · have := hs (by simp [hb, Ne.symm hbrace])
        rw [if_neg hbrace, if_neg hbrace, List.map_reverse, List.map_reverse, this]

end Tree

open Source.Tree

/-- **Woven token lists** have trees of one sketch, behind what stood in front of them. -/
theorem Woven.grow {base base' done done' trees : List Tree} {frames frames' : List Frame}
    {ks ks' : List TokenKind} (h : Woven around ks ks') {tokens tokens' : List Token}
    (ht : tokens.map Token.kind = ks) (ht' : tokens'.map Token.kind = ks')
    (ha : Alike base base' around done frames done' frames')
    (hg : Tree.grow done frames tokens = .ok trees) :
    ∃ trees' ts, Tree.grow done' frames' tokens' = .ok trees' ∧
      trees.map sketch = base.reverse ++ ts ∧ trees'.map sketch = base'.reverse ++ ts := by
  -- where both readers have come to the end of the file
  have finished : ∀ {around : List Delimiter} {done done' : List Tree} {frames frames' : List Frame}
      {trees : List Tree}, Alike base base' around done frames done' frames' →
      grow.finish done frames = .ok trees →
      ∃ trees' ts, grow.finish done' frames' = .ok trees' ∧
        trees.map sketch = base.reverse ++ ts ∧ trees'.map sketch = base'.reverse ++ ts := by
    intro around done done' frames frames' trees ha hf
    obtain ⟨rfl, rfl⟩ := finish_eq_ok hf
    cases ha with
    | @top ts _ _ h h' =>
      exact ⟨done'.reverse, ts.reverse, rfl, by simp [List.map_reverse, h],
        by simp [List.map_reverse, h']⟩
  induction h generalizing done done' frames frames' tokens tokens' with
  | nil =>
    obtain rfl : tokens = [] := by simpa using ht
    obtain rfl : tokens' = [] := by simpa using ht'
    exact finished ha (by simpa [Tree.grow] using hg)
  | both h ih =>
    obtain ⟨token, tokens, rfl, rfl, hts⟩ := List.map_eq_cons_iff.1 ht
    obtain ⟨token', tokens', rfl, hk, hts'⟩ := List.map_eq_cons_iff.1 ht'
    rcases grow_cons_ok hg with ⟨he, rfl, rfl⟩ | ⟨done₁, frames₁, hstep, hg⟩
    · rw [Tree.grow_cons, if_pos (by rw [hk, he])]
      exact finished ha rfl
    · obtain ⟨done₁', frames₁', hstep', ha⟩ := ha.grows hk.symm hstep
      rw [hstep'.grow_cons]
      exact ih hts hts' ha hg
  | left hp hb h ih =>
    obtain ⟨token, tokens, rfl, rfl, hts⟩ := List.map_eq_cons_iff.1 ht
    have hstep : Grows done frames token (.leaf token :: done) frames := .leaf hp
    rw [hstep.grow_cons] at hg
    exact ih hts ht' (ha.push_left hb) hg
  | right hp hb h ih =>
    obtain ⟨token', tokens', rfl, rfl, hts'⟩ := List.map_eq_cons_iff.1 ht'
    have hstep : Grows done' frames' token' (.leaf token' :: done') frames' := .leaf hp
    rw [hstep.grow_cons]
    exact ih ht hts' (ha.push_right hb) hg

/-- **Tokens of the same kinds** have parts of one outline. -/
theorem ofTokens_of_kinds {tokens tokens' : List Token} {parts : FileParts}
    (h : FileParts.ofTokens tokens = .ok parts)
    (hk : tokens'.map Token.kind = tokens.map Token.kind) :
    ∃ parts', FileParts.ofTokens tokens' = .ok parts' ∧ parts'.outline = parts.outline := by
  obtain ⟨trees, hbuild, h⟩ := bind_eq_ok h
  obtain ⟨decls, hdecls, h⟩ := bind_eq_ok h
  -- trees of one sketch
  have hwoven := Woven.refl [] (tokens.map Token.kind)
  have halike : Tree.Alike [] [] [] [] [] [] [] :=
    .top (List.append_nil _).symm (List.append_nil _).symm
  obtain ⟨trees', ts, hbuild', hsketch, hsketch'⟩ := hwoven.grow rfl hk halike hbuild
  rw [← hsketch'] at hsketch
  -- declarations of one sketch
  have hsplit := splitDecls_sketch trees
  have hsplit' := splitDecls_sketch trees'
  rw [hsketch, hdecls, view_ok] at hsplit
  rw [hsplit] at hsplit'
  obtain ⟨decls', hdecls', hsame⟩ := view_eq_some hsplit'.symm
  -- parts of one outline
  have hparts := ofDecls_sketch decls
  have hparts' := ofDecls_sketch decls'
  rw [hsame, hparts, h, view_ok] at hparts'
  obtain ⟨parts', hof, houtline⟩ := view_eq_some hparts'.symm
  refine ⟨parts', ?_, houtline⟩
  have hbuild' : Tree.build tokens' = .ok trees' := hbuild'
  have hdecls' : splitDecls trees' = .ok decls' := hdecls'
  simp only [FileParts.ofTokens, hbuild', hdecls', hof, bind, Except.bind]

end TestWeave.Source
