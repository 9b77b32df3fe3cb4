import TestWeave.Proofs.Nesting
import TestWeave.Source.Call

/-!
# The arguments of a call in its tokens

The arguments of a call stand between the commas of a group, which are told from the commas of the
groups inside it by the groups that are open around them.

* `withAround`: tokens, each with the groups that are open in front of it.
* `argStretches`: the stretches of the arguments, from the tokens alone.
* `argStretches_flattenAll`: those of the trees in a group.
-/

namespace TestWeave

variable {α β : Type} {sep : α → Bool} {sep' : β → Bool}

/-- Elements that are no separators belong to the first segment of what follows. -/
theorem splitWhere_append_of_forall {as : List α} (h : ∀ a ∈ as, sep a = false) {bs segment : List α}
    {segments : List (List α)} (hb : splitWhere sep bs = segment :: segments) :
    splitWhere sep (as ++ bs) = (as ++ segment) :: segments := by
  induction as with
  | nil => exact hb
  | cons a as ih =>
    obtain ⟨ha, has⟩ := List.forall_mem_cons.1 h
    rw [List.cons_append, splitWhere, ha, ih has]
    rfl

/-- **Segments of what elements stand for**: a separator stands for one, and no other element has one
in what it stands for. -/
theorem splitWhere_flatMap {f : α → List β} {as : List α}
    (hsep : ∀ a ∈ as, sep a = true → ∃ b, f a = [b] ∧ sep' b = true)
    (hother : ∀ a ∈ as, sep a = false → ∀ b ∈ f a, sep' b = false) :
    splitWhere sep' (as.flatMap f) = (splitWhere sep as).map (List.flatMap f) := by
  induction as with
  | nil => rfl
  | cons a as ih =>
    obtain ⟨ha, has⟩ := List.forall_mem_cons.1 hsep
    obtain ⟨ha', has'⟩ := List.forall_mem_cons.1 hother
    have ih := ih has has'
    rw [List.flatMap_cons, splitWhere]
    cases hs : sep a with
    | true =>
      obtain ⟨b, hb, hsb⟩ := ha hs
      rw [hb, List.singleton_append, splitWhere, hsb, ih]
      rfl
    | false =>
      cases hrest : splitWhere sep as with
      | nil => exact absurd hrest (splitWhere_ne_nil sep as)
      | cons segment segments =>
        rw [hrest] at ih
        exact splitWhere_append_of_forall (ha' hs) ih

end TestWeave

namespace TestWeave.Source

variable {around : List Delimiter} {token : Token} {tokens : List Token} {t : Tree} {ts : List Tree}

/-! ### Groups around tokens -/

/-- Tokens, each with the groups that are open in front of it. -/
def withAround (around : List Delimiter) : List Token → List (Token × List Delimiter)
  | [] => []
  | token :: tokens => (token, around) :: withAround (token.kind.stack around) tokens

@[simp] theorem map_fst_withAround (around : List Delimiter) (tokens : List Token) :
    (withAround around tokens).map Prod.fst = tokens := by
  induction tokens generalizing around with
  | nil => rfl
  | cons token tokens ih => rw [withAround, List.map_cons, ih]

/-- If each of some trees leaves the groups around it as they were, all of them do. -/
theorem withAround_of_flatten (around : List Delimiter) (rest : List Token)
    (h : ∀ t ∈ ts, ∀ rest, withAround around (t.flatten ++ rest) =
      withAround around t.flatten ++ withAround around rest) :
    withAround around (Tree.flattenAll ts ++ rest) =
      ts.flatMap (fun t => withAround around t.flatten) ++ withAround around rest := by
  induction ts with
  | nil => rw [Tree.flattenAll_nil, List.nil_append, List.flatMap_nil, List.nil_append]
  | cons t ts ih =>
    obtain ⟨ht, hts⟩ := List.forall_mem_cons.1 h
    rw [Tree.flattenAll_cons, List.append_assoc, ht, ih hts, List.flatMap_cons, List.append_assoc]

/-- **A tree leaves the groups around it** as they were. -/
theorem withAround_flatten (ht : t.Proper) (around : List Delimiter) (rest : List Token) :
    withAround around (t.flatten ++ rest) =
      withAround around t.flatten ++ withAround around rest := by
  induction ht generalizing around rest with
  | @leaf token hk =>
    rw [Tree.flatten_leaf, List.singleton_append, withAround, withAround,
      TokenKind.stack_of_isPlain hk]
    rfl
  | @group delim opening closing trees ht ih =>
    have inside : ∀ rest : List Token, withAround (delim :: around) (Tree.flattenAll trees ++ rest) =
        trees.flatMap (fun t => withAround (delim :: around) t.flatten) ++
          withAround (delim :: around) rest :=
      fun rest => withAround_of_flatten _ rest fun t ht rest => ih t ht _ rest
    rw [Tree.flatten_group, List.cons_append, List.append_assoc, List.singleton_append, withAround,
      withAround, TokenKind.stack_opening, inside, inside, withAround, withAround,
      TokenKind.stack_closing, List.tail_cons]
    simp [withAround]

theorem withAround_flattenAll (ht : ∀ t ∈ ts, t.Proper) (around : List Delimiter) :
    withAround around (Tree.flattenAll ts) = ts.flatMap fun t => withAround around t.flatten := by
  have hall := withAround_of_flatten around []
    fun t h rest => withAround_flatten (ht t h) around rest
  simpa [withAround] using hall

/-- The tokens of a group in which those of its trees have the group around them. -/
theorem withAround_group {delim : Delimiter} {opening closing : Span} (ht : ∀ t ∈ ts, t.Proper)
    (around : List Delimiter) :
    withAround around (Tree.group delim opening closing ts).flatten =
      (⟨.operator delim.opening, opening⟩, around) ::
        (ts.flatMap (fun t => withAround (delim :: around) t.flatten) ++
          [(⟨.operator delim.closing, closing⟩, delim :: around)]) := by
  have inside := withAround_of_flatten (delim :: around) [⟨.operator delim.closing, closing⟩]
    fun t h rest => withAround_flatten (ht t h) _ rest
  rw [Tree.flatten_group, withAround, TokenKind.stack_opening, inside]
  rfl

/-- The groups around a tree are around its tokens. -/
theorem suffix_of_mem_withAround (ht : t.Proper) {p : Token × List Delimiter}
    (hp : p ∈ withAround around t.flatten) : around <:+ p.2 := by
  induction ht generalizing around with
  | leaf hk =>
    obtain rfl : p = (_, around) := by simpa [withAround] using hp
    exact List.suffix_refl _
  | @group delim opening closing trees ht ih =>
    rw [withAround_group ht, List.mem_cons, List.mem_append, List.mem_singleton] at hp
    have hinner : around <:+ delim :: around := List.suffix_cons ..
    rcases hp with rfl | hp | rfl
    · exact List.suffix_refl _
    · obtain ⟨t, ht, hp⟩ := List.mem_flatMap.1 hp
      exact hinner.trans (ih t ht hp)
    · exact hinner

/-! ### Commas -/

/-- Whether a token is a comma around which no group is open. -/
def isOwnComma (p : Token × List Delimiter) : Bool := p.2.isEmpty && p.1.kind == .operator .comma

theorem isOwnComma_of_leaf (token : Token) : (Tree.leaf token).isOperator .comma =
    isOwnComma (token, []) := by
  obtain ⟨kind, span⟩ := token
  cases kind with
  | operator o => by_cases h : o = .comma <;> simp [Tree.isOperator, isOwnComma, h]
  | ident | keyword | literal | eof => rfl

/-- No token of a group is a comma around which no group is open. -/
theorem not_isOwnComma_of_group {delim : Delimiter} {opening closing : Span}
    (ht : ∀ t ∈ ts, t.Proper) {p : Token × List Delimiter}
    (hp : p ∈ withAround [] (Tree.group delim opening closing ts).flatten) : isOwnComma p = false := by
  rw [withAround_group ht, List.mem_cons, List.mem_append, List.mem_singleton] at hp
  rcases hp with rfl | hp | rfl
  · cases delim <;> rfl
  · obtain ⟨t, hmem, hp⟩ := List.mem_flatMap.1 hp
    have hne : p.2 ≠ [] := (suffix_of_mem_withAround (ht t hmem) hp).ne_nil (by simp)
    rw [isOwnComma, List.isEmpty_eq_false_iff.2 hne, Bool.false_and]
  · rfl

/-! ### Arguments -/

/-- The stretch from the first of some tokens to the last. -/
def stretch? (tokens : List Token) : Option Span :=
  match tokens.head?, tokens.getLast? with
  | some first, some last => some (first.span.through last.span)
  | _, _ => none

/-- The stretches between the commas around which no group is open, where there is anything between
them. -/
def argStretches (tokens : List Token) : List Span :=
  (splitWhere isOwnComma (withAround [] tokens)).filterMap fun segment =>
    stretch? (segment.map Prod.fst)

/-- The first and the last token of a tree are those of its stretch. -/
theorem exists_ends (t : Tree) : ∃ first last, t.flatten.head? = some first ∧
    t.flatten.getLast? = some last ∧ t.span = first.span.through last.span := by
  cases t with
  | leaf token => exact ⟨token, token, by simp, by simp, rfl⟩
  | group delim opening closing trees =>
    refine ⟨⟨.operator delim.opening, opening⟩, ⟨.operator delim.closing, closing⟩, by simp, ?_, rfl⟩
    rw [Tree.flatten_group, ← List.cons_append, List.getLast?_concat]

/-- **The stretch of trees** is that of their tokens. -/
theorem spanOf?_eq (ts : List Tree) : spanOf? ts = stretch? (ts.flatMap Tree.flatten) := by
  cases ts with
  | nil => rfl
  | cons t ts =>
    obtain ⟨first, last, hfirst, hlast, hspan⟩ := exists_ends t
    have hhead : ((t :: ts).flatMap Tree.flatten).head? = some first := by
      rw [List.flatMap_cons, List.head?_append, hfirst, Option.some_or]
    rcases List.eq_nil_or_concat ts with rfl | ⟨front, u, hconcat⟩
    · rw [stretch?, hhead]
      simp [spanOf?, hlast, hspan]
    · obtain rfl : ts = front ++ [u] := by simpa using hconcat
      obtain ⟨first', last', hfirst', hlast', hspan'⟩ := exists_ends u
      have hend : ((t :: (front ++ [u])).flatMap Tree.flatten).getLast? = some last' := by
        rw [← List.cons_append, List.flatMap_append, List.flatMap_singleton, List.getLast?_append,
          hlast', Option.some_or]
      rw [stretch?, hhead, hend]
      simp [spanOf?, hspan, hspan', Span.through]

/-- **The arguments of a call** are found in its tokens. -/
theorem argStretches_flattenAll (ht : ∀ t ∈ ts, t.Proper) :
    argStretches (Tree.flattenAll ts) = (Tree.splitOn .comma ts).filterMap spanOf? := by
  have hsplit : splitWhere isOwnComma (withAround [] (Tree.flattenAll ts)) =
      (Tree.splitOn .comma ts).map (List.flatMap fun t => withAround [] t.flatten) := by
    rw [withAround_flattenAll ht]
    refine splitWhere_flatMap (fun t hmem hcomma => ?_) fun t hmem hcomma p hp => ?_
    · cases t with
      | leaf token =>
        rw [isOwnComma_of_leaf] at hcomma
        exact ⟨(token, []), by simp [withAround], hcomma⟩
      | group => simp [Tree.isOperator] at hcomma
    · cases ht t hmem with
      | @leaf token hk =>
        obtain rfl : p = (token, []) := by simpa [withAround] using hp
        rwa [← isOwnComma_of_leaf]
      | group hts => exact not_isOwnComma_of_group hts hp
  have hstretch : ∀ segment : List Tree,
      stretch? ((segment.flatMap fun t => withAround [] t.flatten).map Prod.fst) = spanOf? segment := by
    intro segment
    rw [spanOf?_eq, List.map_flatMap]
    simp only [map_fst_withAround]
  rw [argStretches, hsplit, List.filterMap_map]
  exact congrArg (List.filterMap · _) (funext hstretch)

end TestWeave.Source
