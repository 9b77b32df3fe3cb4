import TestWeave.Proofs.Forest

/-!
# Trees and tokens

The trees of a token list and the list itself say the same.

* `Nested`: the delimiters of a token list are properly nested and matched by kind.
* `build_eq_ok_iff`: the trees of a token list are the proper ones that hold its tokens.
* `nested_iff`: a token list is nested if some proper trees hold its tokens.
* `trees_of_tokens`: which tokens have trees, and that nothing is lost either way.
-/

namespace TestWeave.Source

/-- The delimiters among the tokens are properly nested, and each group is closed by the delimiter
of its kind. -/
inductive Nested : List Token → Prop
  | nil : Nested []
  | plain {token : Token} {tokens : List Token} :
      token.kind.isPlain = true → Nested tokens → Nested (token :: tokens)
  | group (delim : Delimiter) {opening closing : Token} {inner tokens : List Token} :
      opening.kind = .operator delim.opening → closing.kind = .operator delim.closing →
      Nested inner → Nested tokens → Nested (opening :: (inner ++ closing :: tokens))

namespace Tree

/-- If the tokens of each of the trees can stand in front of nested ones, those of all are nested. -/
theorem nested_of_flatten {trees : List Tree}
    (h : ∀ t ∈ trees, ∀ rest, Nested rest → Nested (t.flatten ++ rest)) :
    Nested (flattenAll trees) := by
  induction trees with
  | nil => simpa using Nested.nil
  | cons t trees ih =>
    obtain ⟨ht, hts⟩ := List.forall_mem_cons.1 h
    rw [flattenAll_cons]
    exact ht _ (ih hts)

theorem Proper.nested_append {t : Tree} (h : Proper t) {rest : List Token} (hr : Nested rest) :
    Nested (t.flatten ++ rest) := by
  induction h generalizing rest with
  | leaf hk =>
    rw [flatten_leaf]
    exact .plain hk hr
  | @group delim opening closing trees _ ih =>
    -- the children stand in front of one another, and nothing stands behind the last
    have hinner : Nested (flattenAll trees) := nested_of_flatten fun t ht rest => ih t ht
    rw [flatten_group, List.cons_append, List.append_assoc, List.singleton_append]
    exact .group delim rfl rfl hinner hr

/-- Nested tokens are those of proper trees. -/
theorem nested_iff {tokens : List Token} :
    Nested tokens ↔ ∃ trees, (∀ t ∈ trees, Proper t) ∧ flattenAll trees = tokens := by
  constructor
  · intro h
    induction h with
    | nil => exact ⟨[], by simp, flattenAll_nil⟩
    | @plain token tokens hk _ ih =>
      obtain ⟨trees, hp, rfl⟩ := ih
      exact ⟨.leaf token :: trees, List.forall_mem_cons.2 ⟨.leaf hk, hp⟩, by simp⟩
    | @group delim opening closing inner tokens hopen hclose _ _ ihinner ih =>
      obtain ⟨trees, hp, rfl⟩ := ih
      obtain ⟨children, hc, rfl⟩ := ihinner
      refine ⟨.group delim opening.span closing.span children :: trees,
        List.forall_mem_cons.2 ⟨.group hc, hp⟩, ?_⟩
      -- the two tokens of the group are made again from their spans, as their kinds are known
      rw [flattenAll_cons, flatten_group, ← hopen, ← hclose]
      simp
  · rintro ⟨trees, hp, rfl⟩
    exact nested_of_flatten fun t ht rest => (hp t ht).nested_append

/-- The tokens of proper trees, and the end of the file, are built into these trees. -/
theorem build_flattenAll {last : Token} (hl : last.kind = .eof) {trees : List Tree}
    (hp : ∀ t ∈ trees, Proper t) : build (flattenAll trees ++ [last]) = .ok trees := by
  rw [build, grow_flattenAll hp, grow_cons, if_pos hl, grow.finish]
  simp

/-- **The trees of a token list** are the proper ones that hold its tokens. -/
theorem build_eq_ok_iff {tokens : List Token} {last : Token} {trees : List Tree}
    (hl : last.kind = .eof) (hk : ∀ token ∈ tokens, token.kind ≠ .eof) :
    build (tokens ++ [last]) = .ok trees ↔
      (∀ t ∈ trees, Proper t) ∧ flattenAll trees = tokens := by
  constructor
  · intro h
    have hfirst : ∀ token ∈ tokens, (token.kind != .eof) = true := by simpa using hk
    refine ⟨proper_of_build h, ?_⟩
    rw [flattenAll_of_build h, List.takeWhile_append_of_pos hfirst]
    simp [hl]
  · rintro ⟨hp, rfl⟩
    exact build_flattenAll hl hp

/-- **Trees and tokens say the same.** The trees of a token list can be built exactly where its
delimiters are nested, they hold its tokens, and the tokens of proper trees give these trees. -/
theorem trees_of_tokens {last : Token} (hl : last.kind = .eof) :
    (∀ tokens : List Token, (∀ token ∈ tokens, token.kind ≠ .eof) →
      ((∃ trees, build (tokens ++ [last]) = .ok trees) ↔ Nested tokens) ∧
      ∀ trees, build (tokens ++ [last]) = .ok trees → flattenAll trees = tokens) ∧
    ∀ trees : List Tree, (∀ t ∈ trees, Proper t) →
      build (flattenAll trees ++ [last]) = .ok trees := by
  refine ⟨fun tokens hk => ⟨?_, fun trees h => ((build_eq_ok_iff hl hk).1 h).2⟩,
    fun trees hp => build_flattenAll hl hp⟩
  rw [nested_iff]
  exact exists_congr fun trees => build_eq_ok_iff hl hk

/-- The tokens of `f(a[1])`, with the delimiters that close its groups. -/
def callTokens (inner outer : Operator) : List Token :=
  [⟨.ident "f", ⟨0, 1, 1, 1⟩⟩, ⟨.operator .lparen, ⟨1, 2, 1, 2⟩⟩, ⟨.ident "a", ⟨2, 3, 1, 3⟩⟩,
    ⟨.operator .lbracket, ⟨3, 4, 1, 4⟩⟩, ⟨.literal .int "1", ⟨4, 5, 1, 5⟩⟩,
    ⟨.operator inner, ⟨5, 6, 1, 6⟩⟩, ⟨.operator outer, ⟨6, 7, 1, 7⟩⟩]

theorem trees_of_callTokens : Nested (callTokens .rbracket .rparen) ∧
    ¬ Nested (callTokens .rparen .rbracket) ∧
    ∃ trees, build (callTokens .rbracket .rparen ++ [⟨.eof, ⟨7, 7, 1, 8⟩⟩]) = .ok trees ∧
      trees.length = 2 ∧ flattenAll trees = callTokens .rbracket .rparen := by
  have hlast : (Token.mk .eof ⟨7, 7, 1, 8⟩).kind = .eof := rfl
  obtain ⟨htokens, -⟩ := trees_of_tokens hlast
  obtain ⟨hnested, hkept⟩ := htokens (callTokens .rbracket .rparen) (by decide)
  obtain ⟨hcrossed, -⟩ := htokens (callTokens .rparen .rbracket) (by decide)
  refine ⟨hnested.1 ⟨_, rfl⟩, fun h => ?_, _, rfl, rfl, hkept _ rfl⟩
  obtain ⟨trees, herror⟩ := hcrossed.2 h
  cases herror

end Tree

end TestWeave.Source
