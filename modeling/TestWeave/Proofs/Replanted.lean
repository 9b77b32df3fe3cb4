import TestWeave.Proofs.Recast

/-!
# Trees with redirected calls

The trees of a changed source are those of the source, but for the calls that are redirected:
the trees of the new callee stand in front of the arguments, and the receiver is the first of them.

* `Replanted`: the trees of a source and those of a source with redirected calls.
* `Recast.replanted`, `Recast.replanted_whole`: token lists with redirected calls have such trees.
* `Replanted.sketch`: outside of braces nothing is changed.
* `Replanted.append_inv`: trees with redirected calls, part by part.
* `Replanted.located`: where the redirected calls stand.
-/

namespace TestWeave.Source

open TestWeave.Change

/-- Two lists of trees inside the groups `around`, the second one with the calls `sites` redirected.
`selected` says whether a dot stands in front of them. -/
inductive Replanted (q : String) : List Delimiter → Bool → List Tree → List Tree →
    List (CallSite × String) → Prop
  | nil {around selected} : Replanted q around selected [] [] []
  | leaf {around selected token token' ts ts' sites} : token'.kind = token.kind →
      Replanted q around (token.kind == .operator .dot) ts ts' sites →
      Replanted q around selected (.leaf token :: ts) (.leaf token' :: ts') sites
  | group {around selected delim opening closing opening' closing' us us' ts ts' inner sites} :
      Replanted q (delim :: around) false us us' inner →
      Replanted q around false ts ts' sites →
      Replanted q around selected (.group delim opening closing us :: ts)
        (.group delim opening' closing' us' :: ts') (inner ++ sites)
  | call {around recv dot name paren opening closing opening' closing' call entry us us' ts ts'}
      {inner sites} {callee more : List Token} {passed : Token} :
      Delimiter.brace ∈ around → Called call recv dot name paren →
      callee.map Token.kind = calleeKinds q entry → passed.kind = .ident call.receiver →
      (∀ t ∈ more, t.kind = .operator .comma ∨ t.kind = .operator .semi) →
      (more = [] → ∀ u ∈ us.head?, u.isOperator .comma = true) →
      Replanted q (.paren :: around) false us us' inner →
      Replanted q around false ts ts' sites →
      Replanted q around false
        (.leaf recv :: .leaf dot :: .leaf name :: .group .paren opening closing us :: ts)
        (callee.map Tree.leaf ++ .group .paren opening' closing'
          (.leaf passed :: (more.map Tree.leaf ++ us')) :: ts')
        ((call, entry) :: (inner ++ sites))

variable {q : String} {around : List Delimiter} {selected : Bool} {ts ts' : List Tree}
  {sites : List (CallSite × String)}

/-! ### From tokens to trees -/

/-- A delimiter is copied. -/
theorem Recast.opening {delim : Delimiter} {span : Span} {tokens : List Token}
    {kinds : List TokenKind}
    (h : Recast q around selected (⟨.operator delim.opening, span⟩ :: tokens) kinds sites) :
    ∃ kinds', kinds = .operator delim.opening :: kinds' ∧
      Recast q (delim :: around) false tokens kinds' sites := by
  obtain ⟨kinds', rfl, h₁⟩ := h.copied (.inr (by simp))
  simp only [TokenKind.stack_opening, Delimiter.opening_beq_dot] at h₁
  exact ⟨kinds', rfl, h₁⟩

theorem Recast.closing {delim : Delimiter} {span : Span} {tokens : List Token}
    {kinds : List TokenKind} (h : Recast q (delim :: around) selected
      (⟨.operator delim.closing, span⟩ :: tokens) kinds sites) :
    ∃ kinds', kinds = .operator delim.closing :: kinds' ∧
      Recast q around false tokens kinds' sites := by
  obtain ⟨kinds', rfl, h₁⟩ := h.copied (.inr (by simp))
  simp only [TokenKind.stack_closing, List.tail_cons, Delimiter.closing_beq_dot] at h₁
  exact ⟨kinds', rfl, h₁⟩

/-- The tokens of a group, from those between its delimiters. -/
theorem flatten_group_of_kinds {delim : Delimiter} {opening closing : Token}
    (ho : opening.kind = .operator delim.opening) (hc : closing.kind = .operator delim.closing)
    (us : List Tree) : (Tree.group delim opening.span closing.span us).flatten =
      opening :: (Tree.flattenAll us ++ [closing]) := by
  obtain ⟨_, opening⟩ := opening
  obtain ⟨_, closing⟩ := closing
  simp only at ho hc
  simp [ho, hc]

/-- What follows the parenthesis of a call without arguments. -/
theorem comma_of_next {us : List Tree} {closing : Span} {rest : List Token}
    (hu : ∀ u ∈ us, u.Proper)
    (h : ∀ t ∈ (Tree.flattenAll us ++ ⟨.operator .rparen, closing⟩ :: rest).head?,
      t.kind = .operator .rparen ∨ t.kind = .operator .comma) :
    ∀ u ∈ us.head?, u.isOperator .comma = true := by
  cases us with
  | nil => simp
  | cons u us =>
    rintro _ ⟨⟩
    rw [Tree.flattenAll_cons] at h
    cases u with
    | leaf t =>
      cases hu _ List.mem_cons_self with
      | leaf hp =>
        rw [Tree.flatten_leaf] at h
        rcases h t rfl with hk | hk
        · rw [hk] at hp
          exact absurd hp (by decide)
        · rw [isOperator_leaf, hk]
          rfl
    | group delim opening closing inner =>
      rw [Tree.flatten_group] at h
      rcases h _ rfl with hk | hk <;> cases delim <;> simp [Delimiter.opening] at hk

/-- Token lists with redirected calls have trees with redirected calls, if they begin with trees of
fewer than `n` tokens. -/
def Replants (q : String) (n : Nat) : Prop :=
  ∀ {us : List Tree} {rest tokens' : List Token} {around : List Delimiter} {selected : Bool}
    {sites : List (CallSite × String)}, (∀ u ∈ us, u.Proper) → Stops rest →
    (Tree.flattenAll us).length < n →
    Recast q around selected (Tree.flattenAll us ++ rest) (tokens'.map Token.kind) sites →
    ∃ us' rest' inner sites' selected', tokens' = Tree.flattenAll us' ++ rest' ∧
      Replanted q around selected us us' inner ∧
      Recast q around selected' rest (rest'.map Token.kind) sites' ∧ sites = inner ++ sites'

section

variable {n : Nat} {us inner : List Tree} {rest tokens tokens' : List Token} {delim : Delimiter}
  {closing : Span}

/-- The trees between two delimiters, and then those behind the closing one. -/
theorem Replants.between (ih : Replants q n) (hin : ∀ u ∈ inner, u.Proper)
    (hus : ∀ u ∈ us, u.Proper) (hr : Stops rest) (hlt : (Tree.flattenAll inner).length < n)
    (hlt' : (Tree.flattenAll us).length < n)
    (h : Recast q (delim :: around) false (Tree.flattenAll inner ++
      ⟨.operator delim.closing, closing⟩ :: (Tree.flattenAll us ++ rest))
      (tokens'.map Token.kind) sites) :
    ∃ inner' close' us' rest' sites₁ sites₂ sites' selected', tokens' =
        Tree.flattenAll inner' ++ close' :: (Tree.flattenAll us' ++ rest') ∧
      close'.kind = .operator delim.closing ∧
      Replanted q (delim :: around) false inner inner' sites₁ ∧
      Replanted q around false us us' sites₂ ∧
      Recast q around selected' rest (rest'.map Token.kind) sites' ∧
      sites = sites₁ ++ (sites₂ ++ sites') := by
  obtain ⟨inner', rest₁, sites₁, _, _, rfl, hinner, h₁, rfl⟩ := ih hin (stops_closing _ _ _) hlt h
  obtain ⟨ks, hks, h₂⟩ := h₁.closing
  obtain ⟨close', rest₁, rfl, hclose, rfl⟩ := List.map_eq_cons_iff.1 hks
  obtain ⟨us', rest', sites₂, sites', _, rfl, hout, h₃, rfl⟩ := ih hus hr hlt' h₂
  exact ⟨inner', close', us', rest', sites₁, sites₂, sites', _, rfl, hclose, hinner, hout, h₃, rfl⟩

/-- A group is copied, with what is between its delimiters. -/
theorem Replants.group (ih : Replants q n) {opening : Span} (hin : ∀ u ∈ inner, u.Proper)
    (hus : ∀ u ∈ us, u.Proper) (hr : Stops rest)
    (hlt : (Tree.flattenAll (.group delim opening closing inner :: us)).length ≤ n)
    (h : Recast q around selected
      (Tree.flattenAll (.group delim opening closing inner :: us) ++ rest)
      (tokens'.map Token.kind) sites) :
    ∃ us' rest' inner' sites' selected', tokens' = Tree.flattenAll us' ++ rest' ∧
      Replanted q around selected (.group delim opening closing inner :: us) us' inner' ∧
      Recast q around selected' rest (rest'.map Token.kind) sites' ∧ sites = inner' ++ sites' := by
  rw [Tree.flattenAll_cons, Tree.flatten_group] at hlt h
  simp only [List.cons_append, List.append_assoc, List.nil_append, List.length_cons,
    List.length_append] at hlt h
  obtain ⟨ks, hks, h₁⟩ := h.opening
  obtain ⟨open', tokens', rfl, hopen, rfl⟩ := List.map_eq_cons_iff.1 hks
  obtain ⟨inner', close', us', rest', sites₁, sites₂, sites', _, rfl, hclose, hinner, hout, h₂,
    rfl⟩ := ih.between hin hus hr (by omega) (by omega) h₁
  refine ⟨.group delim open'.span close'.span inner' :: us', rest', sites₁ ++ sites₂, sites', _, ?_,
    .group hinner hout, h₂, by simp⟩
  rw [Tree.flattenAll_cons, flatten_group_of_kinds hopen hclose]
  simp

/-- A token is copied, or it is the first of a call that is redirected. -/
theorem Replants.leaf (ih : Replants q n) {token : Token} (hp : token.kind.isPlain = true)
    (hus : ∀ u ∈ us, u.Proper) (hr : Stops rest)
    (hlt : (Tree.flattenAll (.leaf token :: us)).length ≤ n)
    (h : Recast q around selected (Tree.flattenAll (.leaf token :: us) ++ rest)
      (tokens'.map Token.kind) sites) :
    ∃ us' rest' inner sites' selected', tokens' = Tree.flattenAll us' ++ rest' ∧
      Replanted q around selected (.leaf token :: us) us' inner ∧
      Recast q around selected' rest (rest'.map Token.kind) sites' ∧ sites = inner ++ sites' := by
  rw [Tree.flattenAll_cons, Tree.flatten_leaf] at hlt h
  simp only [List.length_cons, List.cons_append, List.nil_append] at hlt h
  generalize hks : tokens'.map Token.kind = ks at h
  generalize htokens : Tree.flattenAll us ++ rest = tokens at h
  cases h with
  | copy h =>
    obtain ⟨token', tokens', rfl, hkind, rfl⟩ := List.map_eq_cons_iff.1 hks
    rw [TokenKind.stack_of_isPlain hp, ← htokens] at h
    obtain ⟨us', rest', inner, sites', _, rfl, hreplanted, h₁, rfl⟩ := ih hus hr (by omega) h
    exact ⟨.leaf token' :: us', rest', inner, sites', _, by simp, .leaf hkind hreplanted, h₁, rfl⟩
  | @call _ _ dot name paren tokens kinds more call entry sites hb hc hmore hnext h =>
    obtain ⟨closing, inner, us₃, rfl, hin, hus₃, rfl⟩ :=
      trees_of_call hus hr hc.dot_kind hc.name_kind hc.paren_kind htokens
    simp only [Tree.flattenAll_cons, Tree.flatten_leaf, Tree.flatten_group, List.length_append,
      List.length_cons] at hlt
    -- the tokens of the new callee, the parenthesis, the receiver and what is behind it
    obtain ⟨callee, front, rfl, hcallee, hfront⟩ := List.map_eq_append_iff.1 hks
    obtain ⟨open', front, rfl, hopen, hfront⟩ := List.map_eq_cons_iff.1 hfront
    obtain ⟨passed, front, rfl, hpassed, hfront⟩ := List.map_eq_cons_iff.1 hfront
    obtain ⟨more', tokens', rfl, rfl, rfl⟩ := List.map_eq_append_iff.1 hfront
    obtain ⟨inner', close', us', rest', sites₁, sites₂, sites', _, rfl, hclose, hinner, hout, h₁,
      rfl⟩ := ih.between hin hus₃ hr (by omega) (by omega) h
    refine ⟨callee.map Tree.leaf ++ .group .paren open'.span close'.span
        (.leaf passed :: (more'.map Tree.leaf ++ inner')) :: us', rest',
      (call, entry) :: (sites₁ ++ sites₂), sites', _, ?_,
      .call hb hc hcallee hpassed (fun t ht => hmore _ (List.mem_map_of_mem ht))
        (fun hnil => comma_of_next hin (hnext (by rw [hnil]; rfl))) hinner hout,
      h₁, by simp⟩
    rw [Tree.flattenAll_append, Tree.flattenAll_cons, flatten_group_of_kinds hopen hclose]
    simp

/-- Each of the trees goes on with fewer tokens, as a call takes three trees and a group at once. -/
theorem replants (q : String) (n : Nat) : Replants q n := by
  induction n with
  | zero => exact fun _ _ hlt => absurd hlt (Nat.not_lt_zero _)
  | succ n ih =>
    intro us rest tokens' around selected sites hus hr hlt h
    cases us with
    | nil => exact ⟨[], tokens', [], sites, selected, rfl, .nil, h, rfl⟩
    | cons u us =>
      obtain ⟨hp, hps⟩ := List.forall_mem_cons.1 hus
      cases hp with
      | group hin => exact ih.group hin hps hr (Nat.le_of_lt_succ hlt) h
      | leaf hplain => exact ih.leaf hplain hps hr (Nat.le_of_lt_succ hlt) h

/-- **Token lists with redirected calls** have trees with redirected calls. -/
theorem Recast.replanted (hu : ∀ u ∈ us, u.Proper) (hr : Stops rest)
    (h : Recast q around selected (Tree.flattenAll us ++ rest) (tokens'.map Token.kind) sites) :
    ∃ us' rest' inner sites' selected', tokens' = Tree.flattenAll us' ++ rest' ∧
      Replanted q around selected us us' inner ∧
      Recast q around selected' rest (rest'.map Token.kind) sites' ∧ sites = inner ++ sites' :=
  replants q _ hu hr (Nat.lt_succ_self _) h

/-- So it is for a whole source, which ends with the end of the file. -/
theorem Recast.replanted_whole {last : Token} (hu : ∀ u ∈ us, u.Proper) (hl : last.kind = .eof)
    (h : Recast q [] selected (Tree.flattenAll us ++ [last]) (tokens'.map Token.kind) sites) :
    ∃ us' last', tokens' = Tree.flattenAll us' ++ [last'] ∧ last'.kind = .eof ∧
      Replanted q [] selected us us' sites := by
  have hstops : Stops [last] := by
    rintro _ ⟨⟩
    rw [hl]
    exact ⟨rfl, rfl⟩
  obtain ⟨us', back, inner, more, _, rfl, hreplanted, hback, rfl⟩ := h.replanted hu hstops
  obtain ⟨ks, hks, hend⟩ := hback.copied (.inl List.not_mem_nil)
  obtain ⟨last', back, rfl, hlast, rfl⟩ := List.map_eq_cons_iff.1 hks
  obtain ⟨hnone, rfl⟩ := hend.nil_inv
  obtain rfl := List.map_eq_nil_iff.1 hnone
  exact ⟨us', last', rfl, hlast.trans hl, by rwa [List.append_nil]⟩

end

/-! ### What is kept -/

/-- The trees of redirected calls are proper. -/
theorem Replanted.proper (hq : ∀ c ∈ q.toList, isSoft c = true)
    (h : Replanted q around selected ts ts' sites) (ht : ∀ t ∈ ts, t.Proper) :
    ∀ t ∈ ts', t.Proper := by
  induction h with
  | nil => exact ht
  | leaf hk _ ih =>
    obtain ⟨hp, hps⟩ := List.forall_mem_cons.1 ht
    refine List.forall_mem_cons.2 ⟨.leaf ?_, ih hps⟩
    cases hp with
    | leaf hp => rwa [hk]
  | group _ _ ihin ih =>
    obtain ⟨hp, hps⟩ := List.forall_mem_cons.1 ht
    cases hp with
    | group hp => exact List.forall_mem_cons.2 ⟨.group (ihin hp), ih hps⟩
  | @call _ _ _ _ _ _ _ _ _ call entry us us' ts ts' _ _ callee more passed _ _ hcallee hpassed
      hmore _ _ _ ihin ih =>
    -- what is new besides the group are leaves, and none of them is a delimiter
    have hleaves : ∀ tokens : List Token, (∀ t ∈ tokens, t.kind.isPlain = true) →
        ∀ u ∈ tokens.map Tree.leaf, u.Proper := by
      intro tokens hplain u hu
      obtain ⟨token, hm, rfl⟩ := List.mem_map.1 hu
      exact .leaf (hplain token hm)
    simp only [List.forall_mem_cons] at ht
    obtain ⟨-, -, -, hgroup, hafter⟩ := ht
    cases hgroup with
    | group hus =>
    refine List.forall_mem_append.2 ⟨hleaves callee fun t hm => ?_, List.forall_mem_cons.2
      ⟨.group (List.forall_mem_cons.2 ⟨.leaf ?_, List.forall_mem_append.2
        ⟨hleaves more fun t hm => ?_, ihin hus⟩⟩), ih hafter⟩⟩
    · exact plain_of_mem_calleeKinds hq _ (hcallee ▸ List.mem_map_of_mem hm)
    · rw [hpassed]
      rfl
    · rcases hmore t hm with hk | hk <;> rw [hk] <;> rfl

/-- **Outside of braces nothing is changed.** -/
theorem Replanted.sketch (h : Replanted q around selected ts ts' sites)
    (hb : .brace ∉ around) : ts'.map Tree.sketch = ts.map Tree.sketch := by
  induction h with
  | nil => rfl
  | leaf hk _ ih => simp [hk, ih hb]
  | @group around _ delim _ _ _ _ _ _ _ _ _ _ _ _ ihin ih =>
    rw [List.map_cons, List.map_cons, Tree.sketch_group, Tree.sketch_group, ih hb]
    by_cases hd : delim = .brace
    · rw [if_pos hd, if_pos hd]
    · rw [if_neg hd, if_neg hd, ihin (by simp [Ne.symm hd, hb])]
  | call hbrace => exact absurd hbrace hb

/-- **Trees with redirected calls, part by part.** -/
theorem Replanted.append_inv {as bs : List Tree}
    (h : Replanted q around selected (as ++ bs) ts' sites) (hb : .brace ∉ around) :
    ∃ as' bs' sites₁ sites₂ selected', ts' = as' ++ bs' ∧
      Replanted q around selected as as' sites₁ ∧ Replanted q around selected' bs bs' sites₂ ∧
      sites = sites₁ ++ sites₂ := by
  induction as generalizing selected ts' sites with
  | nil => exact ⟨[], ts', [], sites, selected, rfl, .nil, h, rfl⟩
  | cons a as ih =>
    rw [List.cons_append] at h
    generalize hall : as ++ bs = all at h
    cases h with
    | call hbrace => exact absurd hbrace hb
    | leaf hk h =>
      subst hall
      obtain ⟨as', bs', sites₁, sites₂, _, rfl, ha, hbs, rfl⟩ := ih h
      exact ⟨_, bs', sites₁, sites₂, _, rfl, .leaf hk ha, hbs, rfl⟩
    | group hin h =>
      subst hall
      obtain ⟨as', bs', sites₁, sites₂, _, rfl, ha, hbs, rfl⟩ := ih h
      exact ⟨_, bs', _, sites₂, _, rfl, .group hin ha, hbs, by simp⟩

/-- **Where the redirected calls stand**: each begins at a token of its receiver. -/
theorem Replanted.located (h : Replanted q around selected ts ts' sites) :
    ∀ s ∈ sites, ∃ t ∈ Tree.flattenAll ts, t.kind = .ident s.1.receiver ∧
      t.span.start = s.1.callee.start := by
  induction h with
  | nil => simp
  | leaf _ _ ih =>
    intro s hs
    obtain ⟨t, ht, h⟩ := ih s hs
    exact ⟨t, by simp [ht], h⟩
  | group _ _ ihin ih =>
    intro s hs
    rcases List.mem_append.1 hs with hs | hs
    · obtain ⟨t, ht, h⟩ := ihin s hs
      exact ⟨t, by simp [ht], h⟩
    · obtain ⟨t, ht, h⟩ := ih s hs
      exact ⟨t, by simp [ht], h⟩
  | call _ hc _ _ _ _ _ _ ihin ih =>
    intro s hs
    rcases List.mem_cons.1 hs with rfl | hs
    · exact ⟨_, by simp, hc.recv_kind, hc.start⟩
    · rcases List.mem_append.1 hs with hs | hs
      · obtain ⟨t, ht, h⟩ := ihin s hs
        exact ⟨t, by simp [ht], h⟩
      · obtain ⟨t, ht, h⟩ := ih s hs
        exact ⟨t, by simp [ht], h⟩

end TestWeave.Source
