import Mathlib.Data.List.TakeWhile
import TestWeave.Source.Tree

/-!
# The trees of a token list

* `Tree.Proper`: the delimiters of a tree are those of its groups.
* `flattenAll_of_build`: the trees hold the tokens, up to the end of the file.
* `proper_of_build`: the trees of a token list are proper.
* `grow_append`: where a list of tokens has been read, reading goes on behind its trees.
* `grow_flattenAll`: the tokens of proper trees are read as these trees.
* `eq_leaf_of_flattenAll`, `eq_group_of_flattenAll`: the first tree, by the first token.
-/

namespace TestWeave.Source

/-- A token that neither opens nor closes a group, and not the end of the file. -/
def TokenKind.isPlain (kind : TokenKind) : Bool :=
  kind.opens?.isNone && kind.closes?.isNone && kind != .eof

theorem TokenKind.isPlain_iff {kind : TokenKind} :
    kind.isPlain = true ↔ kind.opens? = none ∧ kind.closes? = none ∧ kind ≠ .eof := by
  simp [isPlain, and_assoc]

@[simp] theorem Delimiter.opens?_opening (delim : Delimiter) :
    (TokenKind.operator delim.opening).opens? = some delim := by cases delim <;> rfl

@[simp] theorem Delimiter.opens?_closing (delim : Delimiter) :
    (TokenKind.operator delim.closing).opens? = none := by cases delim <;> rfl

@[simp] theorem Delimiter.closes?_closing (delim : Delimiter) :
    (TokenKind.operator delim.closing).closes? = some delim := by cases delim <;> rfl

@[simp] theorem Delimiter.opening_beq_dot (delim : Delimiter) :
    (TokenKind.operator delim.opening == .operator .dot) = false := by cases delim <;> rfl

@[simp] theorem Delimiter.closing_beq_dot (delim : Delimiter) :
    (TokenKind.operator delim.closing == .operator .dot) = false := by cases delim <;> rfl

theorem TokenKind.eq_of_opens? {kind : TokenKind} {delim : Delimiter}
    (h : kind.opens? = some delim) : kind = .operator delim.opening := by
  unfold TokenKind.opens? at h
  split at h <;> simp at h <;> subst h <;> rfl

theorem TokenKind.eq_of_closes? {kind : TokenKind} {delim : Delimiter}
    (h : kind.closes? = some delim) : kind = .operator delim.closing := by
  unfold TokenKind.closes? at h
  split at h <;> simp at h <;> subst h <;> rfl

/-- The groups that are open behind a token, innermost first. -/
def TokenKind.stack (kind : TokenKind) (around : List Delimiter) : List Delimiter :=
  match kind.opens?, kind.closes? with
  | some delim, _ => delim :: around
  | none, some _ => around.tail
  | none, none => around

@[simp] theorem TokenKind.stack_of_isPlain {kind : TokenKind} (h : kind.isPlain = true)
    (around : List Delimiter) : kind.stack around = around := by
  obtain ⟨h1, h2, -⟩ := TokenKind.isPlain_iff.1 h
  simp [stack, h1, h2]

@[simp] theorem TokenKind.stack_opening (delim : Delimiter) (around : List Delimiter) :
    (TokenKind.operator delim.opening).stack around = delim :: around := by
  simp [stack]

@[simp] theorem TokenKind.stack_closing (delim : Delimiter) (around : List Delimiter) :
    (TokenKind.operator delim.closing).stack around = around.tail := by
  simp [stack]

namespace Tree

/-- The delimiters of the tree are those of its groups. -/
inductive Proper : Tree → Prop
  | leaf {token : Token} : token.kind.isPlain = true → Proper (.leaf token)
  | group {delim : Delimiter} {opening closing : Span} {trees : List Tree} :
      (∀ t ∈ trees, Proper t) → Proper (.group delim opening closing trees)

@[simp] theorem flattenAll_nil : flattenAll [] = [] := by simp [flattenAll]

@[simp] theorem flattenAll_cons (t : Tree) (ts : List Tree) :
    flattenAll (t :: ts) = t.flatten ++ flattenAll ts := by simp [flattenAll]

@[simp] theorem flattenAll_append (ts us : List Tree) :
    flattenAll (ts ++ us) = flattenAll ts ++ flattenAll us := by
  induction ts with
  | nil => simp
  | cons t ts ih => simp [ih]

@[simp] theorem flatten_leaf (token : Token) : (leaf token).flatten = [token] := by simp [flatten]

@[simp] theorem flatten_group (delim : Delimiter) (opening closing : Span) (trees : List Tree) :
    (group delim opening closing trees).flatten = ⟨.operator delim.opening, opening⟩ ::
      (flattenAll trees ++ [⟨.operator delim.closing, closing⟩]) := by
  simp [flatten]

@[simp] theorem flattenAll_map_leaf (tokens : List Token) :
    flattenAll (tokens.map leaf) = tokens := by
  induction tokens with
  | nil => simp
  | cons token tokens ih => simp [ih]

/-- The tokens that have been read into open groups and the trees of the innermost level. -/
def held (done : List Tree) : List Frame → List Token
  | [] => flattenAll done.reverse
  | frame :: frames =>
    held frame.before frames ++ ⟨.operator frame.delim.opening, frame.opening⟩ ::
      flattenAll done.reverse

theorem held_cons (t : Tree) (done : List Tree) (frames : List Frame) :
    held (t :: done) frames = held done frames ++ t.flatten := by
  cases frames <;> simp [held]

theorem grow_cons (done : List Tree) (frames : List Frame) (token : Token) (tokens : List Token) :
    grow done frames (token :: tokens) =
      if token.kind = .eof then grow.finish done frames
      else match token.kind.opens?, token.kind.closes? with
        | some delim, _ => grow [] (⟨delim, token.span, done⟩ :: frames) tokens
        | none, some delim =>
          match frames with
          | [] =>
            .error ⟨"unexpected closing delimiter without matching " ++ delim.opening.spelling,
              some token.span⟩
          | frame :: frames =>
            if frame.delim = delim then
              grow (.group delim frame.opening token.span done.reverse :: frame.before) frames tokens
            else
              .error ⟨"mismatched delimiter: " ++ frame.delim.opening.spelling ++
                " closed by wrong bracket", some token.span⟩
        | none, none => grow (.leaf token :: done) frames tokens :=
  rfl

theorem finish_eq_ok {done : List Tree} {frames : List Frame} {trees : List Tree}
    (h : grow.finish done frames = .ok trees) : frames = [] ∧ trees = done.reverse := by
  unfold grow.finish at h
  split at h
  · exact ⟨rfl, by simpa using h.symm⟩
  · simp at h

/-! ### One token -/

/-- How a token that is read changes the trees of the innermost level and the open groups. -/
inductive Grows : List Tree → List Frame → Token → List Tree → List Frame → Prop
  | leaf {done frames token} : token.kind.isPlain = true →
      Grows done frames token (.leaf token :: done) frames
  | opening {done frames delim span} :
      Grows done frames ⟨.operator (Delimiter.opening delim), span⟩ []
        (⟨delim, span, done⟩ :: frames)
  | closing {done frame frames span} :
      Grows done (frame :: frames) ⟨.operator (Delimiter.closing frame.delim), span⟩
        (.group frame.delim frame.opening span done.reverse :: frame.before) frames

/-- Where trees are read, either the end of the file has come or a token is read. -/
theorem grow_cons_ok {done : List Tree} {frames : List Frame} {token : Token} {tokens : List Token}
    {trees : List Tree} (h : grow done frames (token :: tokens) = .ok trees) :
    (token.kind = .eof ∧ frames = [] ∧ trees = done.reverse) ∨
      ∃ done' frames', Grows done frames token done' frames' ∧
        grow done' frames' tokens = .ok trees := by
  rw [grow_cons] at h
  split at h
  · rename_i heof
    exact .inl ⟨heof, finish_eq_ok h⟩
  · rename_i heof
    obtain ⟨kind, span⟩ := token
    split at h
    · rename_i delim hopen
      obtain rfl := TokenKind.eq_of_opens? hopen
      exact .inr ⟨_, _, .opening, h⟩
    · rename_i delim _ hclose
      split at h
      · simp at h
      · rename_i frame frames
        split at h
        · rename_i hd
          obtain rfl := TokenKind.eq_of_closes? hclose
          subst hd
          exact .inr ⟨_, _, .closing, h⟩
        · simp at h
    · rename_i hopen hclose
      exact .inr ⟨_, _, .leaf (TokenKind.isPlain_iff.2 ⟨hopen, hclose, heof⟩), h⟩

theorem Grows.grow_cons {done done' : List Tree} {frames frames' : List Frame} {token : Token}
    (h : Grows done frames token done' frames') (tokens : List Token) :
    grow done frames (token :: tokens) = grow done' frames' tokens := by
  rw [Tree.grow_cons]
  cases h with
  | leaf hp =>
    obtain ⟨h1, h2, h3⟩ := TokenKind.isPlain_iff.1 hp
    simp [h1, h2, h3]
  | @opening _ _ delim => simp
  | @closing _ frame => simp

theorem Grows.kind_ne_eof {done done' : List Tree} {frames frames' : List Frame} {token : Token}
    (h : Grows done frames token done' frames') : token.kind ≠ .eof := by
  cases h with
  | leaf hp => exact (TokenKind.isPlain_iff.1 hp).2.2
  | opening => simp
  | closing => simp

theorem Grows.held {done done' : List Tree} {frames frames' : List Frame} {token : Token}
    (h : Grows done frames token done' frames') :
    held done' frames' = held done frames ++ [token] := by
  cases h with
  | leaf => rw [held_cons, flatten_leaf]
  | opening => simp [Tree.held]
  | closing =>
    rw [held_cons, flatten_group]
    simp [Tree.held]

/-! ### All tokens -/

/-- **Nothing is lost.** The trees hold what was held, and then the tokens up to the end of the
file. -/
theorem flattenAll_of_grow {done : List Tree} {frames : List Frame} {tokens : List Token}
    {trees : List Tree} (h : grow done frames tokens = .ok trees) :
    flattenAll trees = held done frames ++ tokens.takeWhile (·.kind != .eof) := by
  induction tokens generalizing done frames with
  | nil =>
    obtain ⟨rfl, rfl⟩ := finish_eq_ok (by simpa [grow] using h)
    simp [held]
  | cons token tokens ih =>
    rcases grow_cons_ok h with ⟨heof, rfl, rfl⟩ | ⟨done', frames', hg, h⟩
    · simp [heof, held]
    · rw [ih h, hg.held]
      simp [hg.kind_ne_eof]

theorem flattenAll_of_build {tokens : List Token} {trees : List Tree}
    (h : build tokens = .ok trees) :
    flattenAll trees = tokens.takeWhile (·.kind != .eof) := by
  simpa [held] using flattenAll_of_grow h

/-- Whether the trees of the innermost level and those before the open groups are proper. -/
def AllProper (done : List Tree) (frames : List Frame) : Prop :=
  (∀ t ∈ done, Proper t) ∧ ∀ frame ∈ frames, ∀ t ∈ frame.before, Proper t

theorem Grows.allProper {done done' : List Tree} {frames frames' : List Frame} {token : Token}
    (h : Grows done frames token done' frames') (hp : AllProper done frames) :
    AllProper done' frames' := by
  obtain ⟨hd, hf⟩ := hp
  cases h with
  | leaf hk => exact ⟨List.forall_mem_cons.2 ⟨.leaf hk, hd⟩, hf⟩
  | opening => exact ⟨by simp, List.forall_mem_cons.2 ⟨hd, hf⟩⟩
  | closing =>
    obtain ⟨hb, hf⟩ := List.forall_mem_cons.1 hf
    exact ⟨List.forall_mem_cons.2 ⟨.group (by simpa using hd), hb⟩, hf⟩

theorem proper_of_grow {done : List Tree} {frames : List Frame} {tokens : List Token}
    {trees : List Tree} (h : grow done frames tokens = .ok trees) (hp : AllProper done frames) :
    ∀ t ∈ trees, Proper t := by
  induction tokens generalizing done frames with
  | nil =>
    obtain ⟨rfl, rfl⟩ := finish_eq_ok (by simpa [grow] using h)
    simpa using hp.1
  | cons token tokens ih =>
    rcases grow_cons_ok h with ⟨-, rfl, rfl⟩ | ⟨done', frames', hg, h⟩
    · simpa using hp.1
    · exact ih h (hg.allProper hp)

/-- The trees of a token list are proper. -/
theorem proper_of_build {tokens : List Token} {trees : List Tree}
    (h : build tokens = .ok trees) : ∀ t ∈ trees, Proper t :=
  proper_of_grow h ⟨by simp, by simp⟩

/-- **Reading goes on** behind the trees that have been read. -/
theorem grow_append {done : List Tree} {frames : List Frame} {tokens rest : List Token}
    {last : Token} {trees : List Tree} (hl : last.kind = .eof)
    (hk : ∀ token ∈ tokens, token.kind ≠ .eof)
    (h : grow done frames (tokens ++ [last]) = .ok trees) :
    grow done frames (tokens ++ rest) = grow trees.reverse [] rest := by
  induction tokens generalizing done frames with
  | nil =>
    rcases grow_cons_ok h with ⟨-, rfl, rfl⟩ | ⟨_, _, hg, -⟩
    · simp
    · exact absurd hl hg.kind_ne_eof
  | cons token tokens ih =>
    obtain ⟨ht, hk⟩ := List.forall_mem_cons.1 hk
    rcases grow_cons_ok h with ⟨he, -⟩ | ⟨done', frames', hg, h⟩
    · exact absurd he ht
    · rw [List.cons_append, hg.grow_cons, ih hk h]

/-! ### The tokens of trees -/

/-- If each of the trees is read from its tokens, all are read one after the other. -/
theorem grow_flattenAll_of_flatten {trees : List Tree}
    (h : ∀ t ∈ trees, ∀ done frames rest,
      grow done frames (t.flatten ++ rest) = grow (t :: done) frames rest)
    (done : List Tree) (frames : List Frame) (rest : List Token) :
    grow done frames (flattenAll trees ++ rest) = grow (trees.reverse ++ done) frames rest := by
  induction trees generalizing done with
  | nil => simp
  | cons t trees ih =>
    obtain ⟨ht, hts⟩ := List.forall_mem_cons.1 h
    rw [flattenAll_cons, List.append_assoc, ht, ih hts, List.reverse_cons, List.append_assoc,
      List.singleton_append]

/-- **The tokens of a proper tree** are read as this tree, whatever is open around it. -/
theorem Proper.grow_flatten {t : Tree} (h : Proper t) (done : List Tree) (frames : List Frame)
    (rest : List Token) :
    grow done frames (t.flatten ++ rest) = grow (t :: done) frames rest := by
  induction h generalizing done frames rest with
  | leaf hk =>
    have hleaf : Grows done frames _ (.leaf _ :: done) frames := .leaf hk
    rw [flatten_leaf, List.singleton_append, hleaf.grow_cons]
  | @group delim opening closing trees _ ih =>
    -- the children are read at a level of their own, which is empty where the group opens
    have hopen : Grows done frames ⟨.operator delim.opening, opening⟩ []
        (⟨delim, opening, done⟩ :: frames) := .opening
    have hclose : Grows (trees.reverse ++ []) (⟨delim, opening, done⟩ :: frames)
        ⟨.operator delim.closing, closing⟩ _ frames := .closing
    rw [flatten_group, List.cons_append, List.append_assoc, hopen.grow_cons,
      grow_flattenAll_of_flatten ih, List.singleton_append, hclose.grow_cons]
    simp

/-- **The tokens of proper trees** are read as these trees. -/
theorem grow_flattenAll {trees : List Tree} (h : ∀ t ∈ trees, Proper t) (done : List Tree)
    (frames : List Frame) (rest : List Token) :
    grow done frames (flattenAll trees ++ rest) = grow (trees.reverse ++ done) frames rest :=
  grow_flattenAll_of_flatten (fun t ht => (h t ht).grow_flatten) done frames rest

end Tree

/-! ### The first tree -/

/-- What stands behind trees of one level: a closing delimiter, or the end of the file. -/
def Stops (rest : List Token) : Prop :=
  ∀ t ∈ rest.head?, t.kind.isPlain = false ∧ t.kind.opens? = none

theorem stops_closing (delim : Delimiter) (span : Span) (rest : List Token) :
    Stops (⟨.operator delim.closing, span⟩ :: rest) := by
  rintro _ ⟨⟩
  exact ⟨by simp [TokenKind.isPlain], by simp⟩

variable {us : List Tree} {rest tokens : List Token} {t : Token}

/-- A plain token in front of the tokens of proper trees is the first of these trees. -/
theorem eq_leaf_of_flattenAll (hu : ∀ u ∈ us, u.Proper) (hr : Stops rest)
    (ht : t.kind.isPlain = true) (h : Tree.flattenAll us ++ rest = t :: tokens) :
    ∃ us', us = .leaf t :: us' ∧ (∀ u ∈ us', u.Proper) ∧ Tree.flattenAll us' ++ rest = tokens := by
  cases us with
  | nil =>
    rw [Tree.flattenAll_nil, List.nil_append] at h
    have hplain := (hr t (by rw [h]; rfl)).1
    rw [ht] at hplain
    exact absurd hplain.symm Bool.false_ne_true
  | cons u us =>
    obtain ⟨-, hus⟩ := List.forall_mem_cons.1 hu
    rw [Tree.flattenAll_cons] at h
    cases u with
    | leaf token =>
      rw [Tree.flatten_leaf] at h
      obtain ⟨rfl, rfl⟩ := List.cons.inj h
      exact ⟨us, rfl, hus, rfl⟩
    | group delim opening closing inner =>
      rw [Tree.flatten_group] at h
      obtain ⟨rfl, -⟩ := List.cons.inj h
      have hopen := (TokenKind.isPlain_iff.1 ht).1
      simp at hopen

/-- So is an opening delimiter the begin of a group. -/
theorem eq_group_of_flattenAll {delim : Delimiter} (hu : ∀ u ∈ us, u.Proper) (hr : Stops rest)
    (ht : t.kind = .operator delim.opening) (h : Tree.flattenAll us ++ rest = t :: tokens) :
    ∃ closing inner us', us = .group delim t.span closing inner :: us' ∧
      (∀ u ∈ inner, u.Proper) ∧ (∀ u ∈ us', u.Proper) ∧ Tree.flattenAll inner ++
        (⟨.operator delim.closing, closing⟩ :: (Tree.flattenAll us' ++ rest)) = tokens := by
  have hopen : t.kind.opens? = some delim := by simp [ht]
  cases us with
  | nil =>
    rw [Tree.flattenAll_nil, List.nil_append] at h
    have hnone := (hr t (by rw [h]; rfl)).2
    rw [hnone] at hopen
    simp at hopen
  | cons u us =>
    obtain ⟨hproper, hus⟩ := List.forall_mem_cons.1 hu
    rw [Tree.flattenAll_cons] at h
    cases hproper with
    | leaf hp =>
      rw [Tree.flatten_leaf] at h
      obtain ⟨rfl, -⟩ := List.cons.inj h
      rw [(TokenKind.isPlain_iff.1 hp).1] at hopen
      simp at hopen
    | @group d opening closing inner hinner =>
      rw [Tree.flatten_group, List.cons_append] at h
      obtain ⟨rfl, rfl⟩ := List.cons.inj h
      obtain rfl : d = delim := by simpa using hopen
      exact ⟨closing, inner, us, rfl, hinner, hus, by simp⟩

end TestWeave.Source
