import TestWeave.Proofs.Shapes

/-!
# Parameter lists

A parameter list names its parameters or gives types alone, and which of the two it is has to be told
from its segments: in `a, b T` and in `A, B` some segments are spelled alike, and so are the beginnings
of `x [3]int` and of `List[int]`.

* `TypeShape`, `ParamList`: types and parameter lists, by the grammar.
* `isNamed_bare`, `isNamed_named`: what tells the two kinds of lists apart.
* `params_trees`: the parameters of a list are those that it spells.
* `params_of_list`: so they are wherever the list stands, and the first context among them is that of
  a test.
-/

namespace TestWeave.Source

/-! ### The grammar -/

/-- Which way values go through a channel. -/
inductive Direction
  | both | sending | receiving

/-- A type. Between its delimiters may stand any balanced tokens: the arguments of a generic type, the
length of an array, the fields of a struct, the elements of an interface, parameters and results. -/
inductive TypeShape
  | name (name : String) (args : Option Balanced)
  | qualified (package name : String) (args : Option Balanced)
  | pointer (base : TypeShape)
  | slice (element : TypeShape)
  | array (length : Balanced) (element : TypeShape)
  | map (key value : TypeShape)
  | channel (direction : Direction) (element : TypeShape)
  /-- A function without results, or with results between parentheses. -/
  | function (params : Balanced) (results : Option Balanced)
  | functionTo (params : Balanced) (result : TypeShape)
  | struct (fields : Balanced)
  | interface (elements : Balanced)
  | parenthesized (inner : TypeShape)

/-- A keyword without a place. -/
def reserved (word : Keyword) : Tree := .leaf ⟨.keyword word, default⟩

/-- The trees in front of the element type of a channel. -/
def Direction.trees : Direction → List Tree
  | both => [reserved .kwChan]
  | sending => [reserved .kwChan, mark .arrow]
  | receiving => [mark .arrow, reserved .kwChan]

/-- The trees of a type. -/
def TypeShape.trees : TypeShape → List Tree
  | name n args => word n :: args.toList.map (·.within .bracket)
  | qualified package n args =>
    word package :: mark .dot :: word n :: args.toList.map (·.within .bracket)
  | pointer base => mark .star :: base.trees
  | slice element => enclosed .bracket [] :: element.trees
  | array length element => length.within .bracket :: element.trees
  | map key value => reserved .kwMap :: enclosed .bracket key.trees :: value.trees
  | channel direction element => direction.trees ++ element.trees
  | function params results =>
    reserved .kwFunc :: params.within .paren :: results.toList.map (·.within .paren)
  | functionTo params result => reserved .kwFunc :: params.within .paren :: result.trees
  | struct fields => [reserved .kwStruct, fields.within .brace]
  | interface elements => [reserved .kwInterface, elements.within .brace]
  | parenthesized inner => [enclosed .paren inner.trees]

/-- What a parameter takes: one value of a type, or any number of them. -/
structure TypeUse where
  variadic : Bool
  type : TypeShape

/-- The trees of what a parameter takes. -/
def TypeUse.trees (use : TypeUse) : List Tree :=
  (if use.variadic then [mark .ellipsis] else []) ++ use.type.trees

/-- Some names that share a type. -/
structure NameGroup where
  others : List String
  last : String
  use : TypeUse

/-- The segments of a group: every name but the last one stands alone. -/
def NameGroup.segments (g : NameGroup) : List (List Tree) :=
  g.others.map (fun name => [word name]) ++ [word g.last :: g.use.trees]

/-- A parameter list. A comma may stand behind the last parameter. -/
inductive ParamList
  | named (groups : List NameGroup) (trailing : Bool)
  | bare (uses : List TypeUse) (trailing : Bool)

/-- Segments with commas between them. -/
def commaSeparated (trailing : Bool) : List (List Tree) → List Tree
  | [] => []
  | [segment] => segment ++ if trailing then [mark .comma] else []
  | segment :: segments => segment ++ mark .comma :: commaSeparated trailing segments

/-- The trees of a parameter list. -/
def ParamList.trees : ParamList → List Tree
  | named groups trailing => commaSeparated trailing (groups.flatMap NameGroup.segments)
  | bare uses trailing => commaSeparated trailing (uses.map TypeUse.trees)

/-- The kinds of the tokens of a parameter list. -/
def ParamList.kinds (list : ParamList) : List TokenKind :=
  (Tree.flattenAll list.trees).map Token.kind

/-- The parameters that a list spells: each with its name, if it has one, and with what it takes. -/
def ParamList.entries : ParamList → List (Option String × TypeUse)
  | named groups _ => groups.flatMap fun g => (g.others ++ [g.last]).map fun name => (some name, g.use)
  | bare uses _ => uses.map fun use => (none, use)

/-- A pointer to a type of another package. -/
def TypeUse.pointerTo (package name : String) : TypeUse :=
  ⟨false, .pointer (.qualified package name none)⟩

/-! ### The trees of types -/

/-- A tree as it may stand in a type. -/
structure Tree.InType (t : Tree) : Prop where
  proper : t.Proper
  comma : t.isOperator .comma = false

theorem inType_word (name : String) : (word name).InType := ⟨.leaf rfl, rfl⟩

theorem inType_reserved (word : Keyword) : (reserved word).InType := ⟨.leaf rfl, rfl⟩

theorem inType_mark {op : Operator} (hp : (TokenKind.operator op).isPlain = true)
    (hc : op ≠ .comma) : (mark op).InType := ⟨.leaf hp, by simpa [mark, Tree.isOperator] using hc⟩

theorem Balanced.inType (b : Balanced) (delim : Delimiter) : (b.within delim).InType :=
  ⟨.group b.proper, rfl⟩

theorem Balanced.inType_toList (b : Option Balanced) (delim : Delimiter) :
    ∀ t ∈ b.toList.map (·.within delim), t.InType := by
  intro t ht
  obtain ⟨b, -, rfl⟩ := List.mem_map.1 ht
  exact b.inType delim

theorem inType_enclosed {trees : List Tree} (h : ∀ t ∈ trees, t.InType) (delim : Delimiter) :
    (enclosed delim trees).InType := ⟨.group fun t ht => (h t ht).proper, rfl⟩

theorem Direction.inType (d : Direction) : ∀ t ∈ d.trees, t.InType := by
  have harrow : (mark .arrow).InType := inType_mark rfl (by decide)
  have hchan := inType_reserved .kwChan
  cases d <;> simp [trees, harrow, hchan]

theorem TypeShape.inType (type : TypeShape) : ∀ t ∈ type.trees, t.InType := by
  induction type with
  | name n args => exact List.forall_mem_cons.2 ⟨inType_word n, Balanced.inType_toList args _⟩
  | qualified package n args =>
    exact List.forall_mem_cons.2 ⟨inType_word package, List.forall_mem_cons.2
      ⟨inType_mark rfl (by decide), List.forall_mem_cons.2
        ⟨inType_word n, Balanced.inType_toList args _⟩⟩⟩
  | pointer base ih => exact List.forall_mem_cons.2 ⟨inType_mark rfl (by decide), ih⟩
  | slice element ih => exact List.forall_mem_cons.2 ⟨inType_enclosed (by simp) _, ih⟩
  | array length element ih => exact List.forall_mem_cons.2 ⟨length.inType _, ih⟩
  | map key value ihkey ihvalue =>
    exact List.forall_mem_cons.2 ⟨inType_reserved _, List.forall_mem_cons.2
      ⟨inType_enclosed ihkey _, ihvalue⟩⟩
  | channel direction element ih => exact List.forall_mem_append.2 ⟨direction.inType, ih⟩
  | function params results =>
    exact List.forall_mem_cons.2 ⟨inType_reserved _, List.forall_mem_cons.2
      ⟨params.inType _, Balanced.inType_toList results _⟩⟩
  | functionTo params result ih =>
    exact List.forall_mem_cons.2 ⟨inType_reserved _, List.forall_mem_cons.2
      ⟨params.inType _, ih⟩⟩
  | struct fields =>
    exact List.forall_mem_cons.2 ⟨inType_reserved _, List.forall_mem_singleton.2 (fields.inType _)⟩
  | interface elements =>
    exact List.forall_mem_cons.2 ⟨inType_reserved _, List.forall_mem_singleton.2 (elements.inType _)⟩
  | parenthesized inner ih => exact List.forall_mem_singleton.2 (inType_enclosed ih _)

theorem TypeUse.inType (use : TypeUse) : ∀ t ∈ use.trees, t.InType := by
  refine List.forall_mem_append.2 ⟨?_, use.type.inType⟩
  split
  · exact List.forall_mem_singleton.2 (inType_mark rfl (by decide))
  · simp

/-- How a type begins: by a name behind which stands a dot, arguments or nothing, or by a tree that is
no name and no dot, and that is not the whole type if it is a pair of brackets. -/
theorem TypeShape.begins (type : TypeShape) :
    (∃ name args, type = .name name args) ∨ (∃ package name args, type = .qualified package name args) ∨
      ∃ t ts, type.trees = t :: ts ∧ t.ident? = none ∧ t.isOperator .dot = false ∧
        ((t.group? .bracket).isSome = true → ts ≠ []) := by
  have hne : ∀ type : TypeShape, type.trees ≠ [] := by
    intro type
    cases type with
    | channel direction element => cases direction <;> simp [trees, Direction.trees]
    | _ => simp [trees]
  cases type with
  | name n args => exact .inl ⟨n, args, rfl⟩
  | qualified package n args => exact .inr (.inl ⟨package, n, args, rfl⟩)
  | slice element | array _ element =>
    exact .inr (.inr ⟨_, _, rfl, rfl, rfl, fun _ => hne element⟩)
  | channel direction element =>
    cases direction <;> exact .inr (.inr ⟨_, _, rfl, rfl, rfl, fun h => by cases h⟩)
  | _ => exact .inr (.inr ⟨_, _, rfl, rfl, rfl, fun h => by cases h⟩)

theorem TypeUse.trees_ne_nil (use : TypeUse) : use.trees ≠ [] := by
  rcases use.type.begins with ⟨_, args, h⟩ | ⟨_, _, args, h⟩ | ⟨t, ts, h, -⟩ <;>
    simp [TypeUse.trees, TypeShape.trees, h]

/-! ### What tells names from types -/

theorem isNamed_of_not_ident {t : Tree} (h : t.ident? = none) (ts : List Tree) :
    isNamed (t :: ts) = false := by
  cases ts <;> simp [isNamed, h]

/-- A type alone is not taken for a name with a type. -/
theorem isNamed_bare (use : TypeUse) : isNamed use.trees = false := by
  obtain ⟨variadic, type⟩ := use
  cases variadic with
  | true => exact isNamed_of_not_ident rfl _
  | false =>
    change isNamed type.trees = false
    rcases type.begins with ⟨name, args, rfl⟩ | ⟨package, name, args, rfl⟩ | ⟨t, ts, ht, hident, -⟩
    · cases args <;> rfl
    · rfl
    · rw [ht]
      exact isNamed_of_not_ident hident ts

/-- A name with a type is taken for one: no type begins with a dot, and none is a pair of brackets. -/
theorem isNamed_named (name : String) (use : TypeUse) : isNamed (word name :: use.trees) = true := by
  obtain ⟨variadic, type⟩ := use
  cases variadic with
  | true => simp [isNamed, TypeUse.trees, word, mark, Tree.ident?, Tree.isOperator, Tree.group?]
  | false =>
    change isNamed (word name :: type.trees) = true
    rcases type.begins with ⟨_, args, rfl⟩ | ⟨_, _, args, rfl⟩ | ⟨t, ts, ht, -, hdot, hbracket⟩
    · simp [isNamed, TypeShape.trees, word, Tree.ident?, Tree.isOperator, Tree.group?]
    · simp [isNamed, TypeShape.trees, word, Tree.ident?, Tree.isOperator, Tree.group?]
    · rw [ht]
      cases ts with
      | nil =>
        have hgroup : (t.group? .bracket).isSome = false :=
          Bool.eq_false_iff.2 fun h => hbracket h rfl
        simp [isNamed, word, Tree.ident?, hdot, hgroup]
      | cons u us => simp [isNamed, word, Tree.ident?, hdot]

/-! ### The types of parameters -/

theorem paramType_eq_pointer {ts : List Tree} {package name : String} :
    paramType ts = .pointer package name ↔ ∃ star p dot n, ts = [star, p, dot, n] ∧
      star.isOperator .star = true ∧ p.ident? = some package ∧ dot.isOperator .dot = true ∧
        n.ident? = some name := by
  constructor
  · intro h
    unfold paramType at h
    split at h
    · split at h
      · rename_i hmarks
        obtain ⟨hstar, hdot⟩ := Bool.and_eq_true_iff.1 hmarks
        split at h
        · rename_i hp hn
          obtain ⟨rfl, rfl⟩ := ParamType.pointer.inj h
          exact ⟨_, _, _, _, rfl, hstar, hp, hdot, hn⟩
        · cases h
      · cases h
    · cases h
  · rintro ⟨star, p, dot, n, rfl, hstar, hp, hdot, hn⟩
    simp [paramType, hstar, hdot, hp, hn]

/-- Only a pointer begins with a star. -/
theorem TypeShape.pointer_of_star {type : TypeShape} {t : Tree} {ts : List Tree}
    (h : type.trees = t :: ts) (hs : t.isOperator .star = true) :
    ∃ base, type = .pointer base ∧ base.trees = ts := by
  cases type with
  | pointer base => exact ⟨base, rfl, (List.cons.inj h).2⟩
  | channel direction element =>
    cases direction <;>
    · obtain ⟨rfl, -⟩ := List.cons.inj h
      exact absurd hs Bool.false_ne_true
  | _ =>
    obtain ⟨rfl, -⟩ := List.cons.inj h
    exact absurd hs Bool.false_ne_true

/-- **A pointer to a type of another package** is told from every other type. -/
theorem paramType_use {use : TypeUse} {package name : String} :
    paramType use.trees = .pointer package name ↔ use = .pointerTo package name := by
  constructor
  · intro h
    obtain ⟨star, p, dot, n, htrees, hstar, hp, hdot, hn⟩ := paramType_eq_pointer.1 h
    obtain ⟨variadic, type⟩ := use
    cases variadic with
    | true =>
      obtain rfl : mark .ellipsis = star := (List.cons.inj htrees).1
      exact absurd hstar Bool.false_ne_true
    | false =>
      have htype : type.trees = [star, p, dot, n] := htrees
      obtain ⟨base, rfl, hbase⟩ := TypeShape.pointer_of_star htype hstar
      -- behind the star stand a name, a dot and a name, so the base has no arguments
      rcases base.begins with ⟨_, args, rfl⟩ | ⟨_, _, args, rfl⟩ | ⟨t, ts, ht, hident, -⟩
      · cases args <;> simp [TypeShape.trees] at hbase
      · cases args with
        | some _ => simp [TypeShape.trees] at hbase
        | none =>
          simp only [TypeShape.trees, Option.toList_none, List.map_nil, List.cons.injEq] at hbase
          obtain ⟨rfl, -, rfl, -⟩ := hbase
          obtain rfl := Option.some.inj hp
          obtain rfl := Option.some.inj hn
          rfl
      · obtain rfl : t = p := (List.cons.inj (ht.symm.trans hbase)).1
        rw [hident] at hp
        cases hp
  · rintro rfl
    rfl

/-- What a spelled parameter is read as. -/
def readEntry (entry : Option String × TypeUse) : Param := ⟨entry.1, paramType entry.2.trees⟩

/-! ### Segments -/

theorem splitOn_commaSeparated {trailing : Bool} {segments : List (List Tree)}
    (h : ∀ segment ∈ segments, segment ≠ [] ∧ ∀ t ∈ segment, t.isOperator .comma = false) :
    (Tree.splitOn .comma (commaSeparated trailing segments)).filter (!·.isEmpty) = segments := by
  have hmark : (mark .comma).isOperator .comma = true := rfl
  unfold Tree.splitOn
  fun_induction commaSeparated trailing segments with
  | case1 => rfl
  | case2 segment =>
    obtain ⟨hne, hsegment⟩ := h segment List.mem_cons_self
    cases trailing with
    | true =>
      rw [if_pos rfl, splitWhere_append_cons [] hsegment hmark]
      simp [splitWhere, hne]
    | false =>
      rw [if_neg Bool.false_ne_true, List.append_nil, splitWhere_of_forall hsegment]
      simp [hne]
  | case3 segment segments _ ih =>
    obtain ⟨⟨hne, hsegment⟩, hsegments⟩ := List.forall_mem_cons.1 h
    rw [splitWhere_append_cons _ hsegment hmark, List.filter_cons, ih hsegments]
    simp [hne]

/-- A group is read as its names, each with the type of the group. -/
theorem namedParams_segments (g : NameGroup) (segments : List (List Tree)) :
    namedParams [] (g.segments ++ segments) =
      (g.others ++ [g.last]).map (fun name => readEntry (some name, g.use)) ++
        namedParams [] segments := by
  obtain ⟨others, last, use⟩ := g
  -- names that stand alone are kept until the type comes
  have hpending : ∀ pending others : List String,
      namedParams pending (others.map (fun name => [word name]) ++
          ([word last :: use.trees] ++ segments)) =
        namedParams (pending ++ others) ([word last :: use.trees] ++ segments) := by
    intro pending others
    induction others generalizing pending with
    | nil => rw [List.map_nil, List.nil_append, List.append_nil]
    | cons name others ih =>
      rw [List.map_cons, List.cons_append]
      change namedParams (pending ++ [name]) _ = _
      rw [ih, List.append_assoc, List.singleton_append]
  have htype : namedParams others ([word last :: use.trees] ++ segments) =
      others.map (fun name => readEntry (some name, use)) ++
        readEntry (some last, use) :: namedParams [] segments := by
    obtain ⟨t, ts, ht⟩ := List.exists_cons_of_ne_nil use.trees_ne_nil
    rw [List.singleton_append, ht]
    simp only [readEntry, ht]
    rfl
  rw [NameGroup.segments, List.append_assoc, hpending, List.nil_append, htype]
  simp

theorem namedParams_groups (groups : List NameGroup) :
    namedParams [] (groups.flatMap NameGroup.segments) =
      groups.flatMap fun g => (g.others ++ [g.last]).map fun name => readEntry (some name, g.use) := by
  induction groups with
  | nil => rfl
  | cons g groups ih => rw [List.flatMap_cons, List.flatMap_cons, namedParams_segments, ih]

/-- The segments of a parameter list. -/
def ParamList.segments : ParamList → List (List Tree)
  | named groups _ => groups.flatMap NameGroup.segments
  | bare uses _ => uses.map TypeUse.trees

theorem ParamList.segments_sound (list : ParamList) :
    ∀ segment ∈ list.segments, segment ≠ [] ∧ ∀ t ∈ segment, t.InType := by
  intro segment hs
  cases list with
  | named groups _ =>
    obtain ⟨g, -, hs⟩ := List.mem_flatMap.1 hs
    rcases List.mem_append.1 hs with hs | hs
    · obtain ⟨name, -, rfl⟩ := List.mem_map.1 hs
      exact ⟨by simp, List.forall_mem_singleton.2 (inType_word name)⟩
    · obtain rfl := List.mem_singleton.1 hs
      exact ⟨by simp, List.forall_mem_cons.2 ⟨inType_word _, g.use.inType⟩⟩
  | bare uses _ =>
    obtain ⟨use, -, rfl⟩ := List.mem_map.1 hs
    exact ⟨use.trees_ne_nil, use.inType⟩

/-- **The parameters of a list** are those that it spells. -/
theorem params_trees (list : ParamList) : params list.trees = list.entries.map readEntry := by
  have hsegments : (Tree.splitOn .comma list.trees).filter (!·.isEmpty) = list.segments := by
    have hsound := fun segment hs => (list.segments_sound segment hs).imp_right
      fun h t ht => (h t ht).comma
    cases list with
    | named groups trailing => exact splitOn_commaSeparated hsound
    | bare uses trailing => exact splitOn_commaSeparated hsound
  simp only [params, hsegments]
  -- types alone are told from names with types by any segment that is named
  cases list with
  | bare uses trailing =>
    have hbare : (uses.map TypeUse.trees).any isNamed = false := by
      simp [isNamed_bare]
    simp only [ParamList.segments, ParamList.entries, hbare, Bool.false_eq_true, if_false,
      List.map_map]
    rfl
  | named groups trailing =>
    simp only [ParamList.segments, ParamList.entries, List.map_flatMap, List.map_map]
    cases groups with
    | nil => rfl
    | cons g groups =>
      have hnamed : ((g :: groups).flatMap NameGroup.segments).any isNamed = true := by
        simp [NameGroup.segments, isNamed_named]
      rw [if_pos hnamed]
      exact namedParams_groups _

/-! ### Wherever the list stands -/

theorem commaSeparated_proper {trailing : Bool} {segments : List (List Tree)}
    (h : ∀ segment ∈ segments, ∀ t ∈ segment, t.Proper) :
    ∀ t ∈ commaSeparated trailing segments, t.Proper := by
  have hcomma : (mark .comma).Proper := .leaf rfl
  fun_induction commaSeparated trailing segments with
  | case1 => simp
  | case2 segment =>
    refine List.forall_mem_append.2 ⟨h segment List.mem_cons_self, ?_⟩
    split <;> simp [hcomma]
  | case3 segment segments _ ih =>
    obtain ⟨hsegment, hsegments⟩ := List.forall_mem_cons.1 h
    exact List.forall_mem_append.2 ⟨hsegment, List.forall_mem_cons.2 ⟨hcomma, ih hsegments⟩⟩

theorem ParamList.proper (list : ParamList) : ∀ t ∈ list.trees, t.Proper := by
  have hsound := fun segment hs t ht => ((list.segments_sound segment hs).2 t ht).proper
  cases list with
  | named groups trailing => exact commaSeparated_proper hsound
  | bare uses trailing => exact commaSeparated_proper hsound

/-- Tokens of the kinds of proper trees are built into trees of the same sketches. -/
theorem exists_build_of_kinds {trees : List Tree} (hp : ∀ t ∈ trees, t.Proper) {tokens : List Token}
    (hk : tokens.map Token.kind = (Tree.flattenAll trees).map Token.kind ++ [.eof]) :
    ∃ trees', Tree.build tokens = .ok trees' ∧
      trees'.map Tree.sketch = trees.map Tree.sketch := by
  have hlast : (Token.mk .eof default).kind = .eof := rfl
  have halike : Tree.Alike [] [] [] [] [] [] [] :=
    .top (List.append_nil _).symm (List.append_nil _).symm
  have hkinds : tokens.map Token.kind =
      (Tree.flattenAll trees ++ [Token.mk .eof default]).map Token.kind := by
    rw [hk, List.map_append]
    rfl
  obtain ⟨trees', ts, hbuild, hsketch, hsketch'⟩ :=
    (Woven.refl [] _).grow rfl hkinds halike (Tree.build_flattenAll hlast hp)
  exact ⟨trees', hbuild, hsketch'.trans hsketch.symm⟩

/-- Trees whose tokens are of the same kinds have the same sketches. -/
theorem sketch_of_kinds {trees trees' : List Tree} (hp : ∀ t ∈ trees, t.Proper)
    (hp' : ∀ t ∈ trees', t.Proper)
    (hk : (Tree.flattenAll trees').map Token.kind = (Tree.flattenAll trees).map Token.kind) :
    trees'.map Tree.sketch = trees.map Tree.sketch := by
  have hlast : (Token.mk .eof default).kind = .eof := rfl
  have hkinds : (Tree.flattenAll trees' ++ [Token.mk .eof default]).map Token.kind =
      (Tree.flattenAll trees).map Token.kind ++ [.eof] := by
    rw [List.map_append, hk]
    rfl
  obtain ⟨trees'', hbuild, hsketch⟩ := exists_build_of_kinds hp hkinds
  obtain rfl : trees' = trees'' :=
    Except.ok.inj ((Tree.build_flattenAll hlast hp').symm.trans hbuild)
  exact hsketch

/-- A parameter says what was spelled: its name, and that it takes a pointer to a type of another
package exactly if that was spelled. -/
structure Param.Says (param : Param) (entry : Option String × TypeUse) : Prop where
  name : param.name = entry.1
  pointer : ∀ package name, param.type = .pointer package name ↔ entry.2 = .pointerTo package name

theorem says_readEntry (entry : Option String × TypeUse) : (readEntry entry).Says entry :=
  ⟨rfl, fun _ _ => paramType_use⟩

/-! ### Contexts -/

/-- What is spelled is a parameter of the name `name` that takes a test context, or a suite driver if
`isSuite` says so. -/
def IsContext (testing : List String) (entry : Option String × TypeUse) (name : String)
    (isSuite : Bool) : Prop :=
  ∃ package ∈ testing, entry =
    (some name, .pointerTo package (if isSuite then Known.driverType else Known.contextType))

/-- The first context that is spelled has the name `name`. -/
def FirstContext (testing : List String) (entries : List (Option String × TypeUse)) (name : String)
    (isSuite : Bool) : Prop :=
  ∃ front entry back, entries = front ++ entry :: back ∧ IsContext testing entry name isSuite ∧
    ∀ other ∈ front, ∀ name isSuite, ¬ IsContext testing other name isSuite

/-- The name of a parameter that is a context, and whether it is a suite driver. -/
def contextOf? (testing : List String) (param : Param) : Option (String × Bool) :=
  contextParam? testing [param]

theorem contextParam?_eq_findSome? (testing : List String) (ps : List Param) :
    contextParam? testing ps = ps.findSome? (contextOf? testing) := by
  unfold contextOf? contextParam?
  congr 1
  funext param
  rw [List.findSome?_singleton]

theorem contextOf?_eq_some {testing : List String} {param : Param} {name : String}
    {isSuite : Bool} : contextOf? testing param = some (name, isSuite) ↔
      ∃ package ∈ testing, param.name = some name ∧ param.type =
        .pointer package (if isSuite then Known.driverType else Known.contextType) := by
  have hdiffer : Known.driverType ≠ Known.contextType := by decide
  obtain ⟨param_name, type⟩ := param
  cases param_name with
  | none => simp [contextOf?, contextParam?]
  | some own =>
    cases type with
    | other => simp [contextOf?, contextParam?]
    | pointer package type =>
      simp only [contextOf?, contextParam?, List.findSome?_singleton, List.contains_iff_mem,
        Option.some.injEq, ParamType.pointer.injEq]
      by_cases hm : package ∈ testing
      · by_cases hc : type = Known.contextType
        · cases isSuite <;> simp_all [eq_comm]
        · by_cases hd : type = Known.driverType
          · cases isSuite <;> simp_all [eq_comm]
          · cases isSuite <;> simp [hm, hc, hd]
      · simp only [hm, if_false, reduceCtorEq, false_iff]
        rintro ⟨package', hm', -, rfl, -⟩
        exact hm hm'

theorem contextOf?_of_read {testing : List String} {param : Param}
    {entry : Option String × TypeUse} (h : param.Says entry) {name : String} {isSuite : Bool} :
    contextOf? testing param = some (name, isSuite) ↔ IsContext testing entry name isSuite := by
  rw [contextOf?_eq_some]
  refine exists_congr fun package => and_congr_right fun _ => ?_
  rw [h.name, h.pointer, ← Prod.mk.injEq]

/-- **The context** among parameters is the first that is spelled. -/
theorem contextParam?_of_read {testing : List String} {ps : List Param}
    {entries : List (Option String × TypeUse)} (h : List.Forall₂ Param.Says ps entries)
    {name : String} {isSuite : Bool} :
    contextParam? testing ps = some (name, isSuite) ↔ FirstContext testing entries name isSuite := by
  rw [contextParam?_eq_findSome?]
  -- the first entry that is a context decides, and all in front of it are none
  induction h with
  | nil => simp [FirstContext]
  | @cons param entry ps entries hread _ ih =>
    rw [List.findSome?_cons]
    cases hc : contextOf? testing param with
    | some found =>
      obtain ⟨own, kind⟩ := found
      have hentry := (contextOf?_of_read hread).1 hc
      constructor
      · intro heq
        obtain ⟨rfl, rfl⟩ := Prod.mk.inj (Option.some.inj heq)
        exact ⟨[], entry, entries, rfl, hentry, by simp⟩
      · rintro ⟨front, first, back, heq, hfirst, hnone⟩
        cases front with
        | nil =>
          obtain ⟨rfl, -⟩ := List.cons.inj heq
          exact hc.symm.trans ((contextOf?_of_read hread).2 hfirst)
        | cons other front =>
          obtain ⟨rfl, -⟩ := List.cons.inj heq
          exact absurd hentry (hnone _ List.mem_cons_self _ _)
    | none =>
      have hentry : ∀ name isSuite, ¬ IsContext testing entry name isSuite := by
        intro name isSuite h
        rw [(contextOf?_of_read hread).2 h] at hc
        cases hc
      rw [ih]
      constructor
      · rintro ⟨front, first, back, rfl, hfirst, hnone⟩
        exact ⟨entry :: front, first, back, rfl, hfirst, List.forall_mem_cons.2 ⟨hentry, hnone⟩⟩
      · rintro ⟨front, first, back, heq, hfirst, hnone⟩
        cases front with
        | nil =>
          obtain ⟨rfl, -⟩ := List.cons.inj heq
          exact absurd hfirst (hentry _ _)
        | cons other front =>
          obtain ⟨rfl, rfl⟩ := List.cons.inj heq
          exact ⟨front, first, back, rfl, hfirst, (List.forall_mem_cons.1 hnone).2⟩

theorem testFunction?_context {testing : List String} {f : FunctionDecl} {name : String}
    {isSuite : Bool} :
    (∃ test, testFunction? testing f = some test ∧ test.contextName = name ∧
        test.isSuiteEntry = isSuite) ↔
      Text.startsWith Known.testLead f.name = true ∧ f.body.isSome = true ∧
        contextParam? testing (params f.params) = some (name, isSuite) := by
  unfold testFunction?
  split
  · rename_i hname
    split
    · rename_i body context kind hbody hcontext
      simp [hname, hbody, hcontext]
    · rename_i hnone
      constructor
      · rintro ⟨_, h, -⟩
        cases h
      · rintro ⟨-, hbody, hcontext⟩
        obtain ⟨body, hbody⟩ := Option.isSome_iff_exists.1 hbody
        exact (hnone body name isSuite hbody hcontext).elim
  · rename_i hname
    simp [hname]

/-- **Parameter lists are read as they are spelled**, wherever they stand: one parameter for each name,
with the type of its group, or one without a name for each type. The context of a test is the first
parameter that is spelled as one. -/
theorem params_of_list (list : ParamList) {trees : List Tree} (hp : ∀ t ∈ trees, t.Proper)
    (hk : (Tree.flattenAll trees).map Token.kind = list.kinds) :
    List.Forall₂ Param.Says (params trees) list.entries ∧
      ∀ (testing : List String) (f : FunctionDecl), f.params = trees → ∀ name isSuite,
        (∃ test, testFunction? testing f = some test ∧ test.contextName = name ∧
            test.isSuiteEntry = isSuite) ↔
          Text.startsWith Known.testLead f.name = true ∧ f.body.isSome = true ∧
            FirstContext testing list.entries name isSuite := by
  have hparams : params trees = list.entries.map readEntry := by
    rw [← params_trees, ← params_sketch, ← params_sketch list.trees,
      sketch_of_kinds list.proper hp hk]
  have hread : List.Forall₂ Param.Says (params trees) list.entries := by
    rw [hparams, List.forall₂_map_left_iff]
    exact List.forall₂_same.2 fun entry _ => says_readEntry entry
  refine ⟨hread, ?_⟩
  rintro testing f rfl name isSuite
  rw [testFunction?_context, contextParam?_of_read hread]

/-- Parameters of which the fourth one is a context. -/
def contextParams : String := "_, x [3]int, a, t *testing.T, rest ...*testing.M,"

/-- The list that `contextParams` spells. -/
def contextList : ParamList := .named
  [⟨["_"], "x", ⟨false, .array (.ofKinds [.literal .int "3"] (by decide)) (.name "int" none)⟩⟩,
    ⟨["a"], "t", .pointerTo "testing" "T"⟩,
    ⟨[], "rest", ⟨true, .pointer (.qualified "testing" "M" none)⟩⟩] true

theorem params_of_contextList : ∃ tokens trees, lex contextParams = .ok tokens ∧
    Tree.build tokens = .ok trees ∧
    List.Forall₂ Param.Says (params trees) contextList.entries ∧
    (params trees).map Param.name = ["_", "x", "a", "t", "rest"].map some ∧
    ∃ test, testFunction? ["testing"] ⟨"TestAll", default, false, trees, some ⟨default, default, []⟩⟩ =
      some test ∧ test.contextName = "a" ∧ test.isSuiteEntry = false := by
  have hlex : (lex contextParams).toOption.map (·.map Token.kind) =
      some (contextList.kinds ++ [.eof]) := by decide +kernel
  obtain ⟨tokens, htokens, hkinds, -⟩ := exists_tokens hlex fun _ h => h
  obtain ⟨trees, hbuild, -⟩ := exists_build_of_kinds contextList.proper hkinds
  have hk : (Tree.flattenAll trees).map Token.kind = contextList.kinds := by
    rw [Tree.flattenAll_of_build hbuild]
    refine (List.takeWhile_map (p := (· != TokenKind.eof))).symm.trans ?_
    rw [hkinds]
    decide +kernel
  obtain ⟨hread, hcontext⟩ := params_of_list contextList (Tree.proper_of_build hbuild) hk
  have hnames : (params trees).map Param.name = contextList.entries.map Prod.fst := by
    rw [← List.forall₂_eq_eq_eq, List.forall₂_map_left_iff, List.forall₂_map_right_iff]
    exact hread.imp fun _ _ h => h.name
  refine ⟨tokens, trees, htokens, hbuild, hread, hnames, ?_⟩
  have hlead : Text.startsWith Known.testLead "TestAll" = true := by decide
  refine (hcontext ["testing"] ⟨"TestAll", default, false, trees, some ⟨default, default, []⟩⟩ rfl
    "a" false).2 ⟨hlead, rfl, ?_⟩
  have hfront : ∀ other ∈ contextList.entries.take 2, ∀ name isSuite,
      ¬ IsContext ["testing"] other name isSuite := by
    rintro other hother name isSuite ⟨package, -, rfl⟩
    simp [contextList, ParamList.entries, TypeUse.pointerTo] at hother
  exact ⟨contextList.entries.take 2, _, contextList.entries.drop 3, rfl,
    ⟨"testing", List.mem_singleton_self _, rfl⟩, hfront⟩

end TestWeave.Source
