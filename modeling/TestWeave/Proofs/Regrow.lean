import TestWeave.Proofs.Declared

/-!
# The declarations of a changed source

A changed source has the trees of the source, with the leaves of the added imports behind the
package clause and the trees of a suite entry at the end.

* `build_front`, `build_tail`: what is read in front of and behind woven tokens.
* `splitDecls_changed`: the declarations that these trees make up.
-/

namespace TestWeave.Source

open TestWeave.Text TestWeave.Change

/-! ### In front -/

theorem grow_plain {pre : List Token} (h : ∀ token ∈ pre, token.kind.isPlain = true)
    (done : List Tree) (frames : List Tree.Frame) (rest : List Token) :
    Tree.grow done frames (pre ++ rest) =
      Tree.grow ((pre.map Tree.leaf).reverse ++ done) frames rest := by
  have hleaves : ∀ t ∈ pre.map Tree.leaf, t.Proper := by
    intro t ht
    obtain ⟨token, htoken, rfl⟩ := List.mem_map.1 ht
    exact .leaf (h token htoken)
  rw [← Tree.grow_flattenAll hleaves, Tree.flattenAll_map_leaf]

theorem sketch_leaf_map (tokens : List Token) :
    (tokens.map Tree.leaf).map Tree.sketch = leaves (tokens.map Token.kind) := by
  simp [leaves]

/-- **In front of woven tokens** plain ones may be exchanged. -/
theorem build_front {pre pre' rest rest' : List Token} {trees : List Tree}
    (hp : ∀ token ∈ pre, token.kind.isPlain = true)
    (hp' : ∀ token ∈ pre', token.kind.isPlain = true)
    (hw : Woven [] (rest.map Token.kind) (rest'.map Token.kind))
    (hb : Tree.build (pre ++ rest) = .ok trees) :
    ∃ trees' ts, Tree.build (pre' ++ rest') = .ok trees' ∧
      trees.map Tree.sketch = leaves (pre.map Token.kind) ++ ts ∧
      trees'.map Tree.sketch = leaves (pre'.map Token.kind) ++ ts := by
  rw [Tree.build, grow_plain hp, List.append_nil] at hb
  have hfront : ∀ tokens : List Token, (tokens.map Tree.leaf).reverse.map Tree.sketch =
      [] ++ (leaves (tokens.map Token.kind)).reverse := by
    intro tokens
    rw [List.map_reverse, sketch_leaf_map, List.nil_append]
  have halike := Tree.Alike.top (hfront pre) (hfront pre')
  obtain ⟨trees', ts, hb', hs, hs'⟩ := hw.grow rfl rfl halike hb
  rw [List.reverse_reverse] at hs hs'
  refine ⟨trees', ts, ?_, hs, hs'⟩
  rw [Tree.build, grow_plain hp', List.append_nil]
  exact hb'

/-! ### Behind -/

/-- The tokens of a suite entry whose callee has the tokens `callee`. -/
def entryKinds (testing os var : String) (callee : List TokenKind) : List TokenKind :=
  [.keyword .kwFunc, .ident Known.suiteEntry, .operator .lparen, .ident var, .operator .star,
    .ident testing, .operator .dot, .ident Known.driverType, .operator .rparen, .operator .lbrace,
    .ident os, .operator .dot, .ident Known.exitFunction, .operator .lparen] ++ (callee ++
    [.operator .lparen, .ident var, .operator .rparen, .operator .rparen, .operator .semi,
      .operator .rbrace, .operator .semi, .eof])

/-- The same without the plain tokens of its body. -/
def entryFrame (testing var : String) : List TokenKind :=
  [.keyword .kwFunc, .ident Known.suiteEntry, .operator .lparen, .ident var, .operator .star,
    .ident testing, .operator .dot, .ident Known.driverType, .operator .rparen, .operator .lbrace,
    .operator .lparen, .operator .lparen, .operator .rparen, .operator .rparen,
    .operator .rbrace, .operator .semi, .eof]

theorem Woven.rights {around : List Delimiter} {ks ks' more : List TokenKind}
    (hp : ∀ kind ∈ more, kind.isPlain = true) (hb : .brace ∈ around) (h : Woven around ks ks') :
    Woven around ks (more ++ ks') := by
  induction more with
  | nil => exact h
  | cons kind more ih =>
    obtain ⟨hk, hs⟩ := List.forall_mem_cons.1 hp
    exact .right hk hb (ih hs)

/-- The body of a suite entry stands between braces. -/
theorem woven_entry (testing os var : String) {callee : List TokenKind}
    (h : ∀ kind ∈ callee, kind.isPlain = true) :
    Woven [] (entryFrame testing var) (entryKinds testing os var callee) := by
  have hbody : Woven [.paren, .brace]
      [.operator .lparen, .operator .rparen, .operator .rparen, .operator .rbrace, .operator .semi,
        .eof]
      (callee ++ [.operator .lparen, .ident var, .operator .rparen, .operator .rparen,
        .operator .semi, .operator .rbrace, .operator .semi, .eof]) :=
    Woven.rights h (by decide) (.both (.right rfl (by decide) (.both (.both (.right rfl (by decide)
      (.both (.both (.both .nil))))))))
  have hopen : Woven [.brace]
      [.operator .lparen, .operator .lparen, .operator .rparen, .operator .rparen,
        .operator .rbrace, .operator .semi, .eof]
      ([.ident os, .operator .dot, .ident Known.exitFunction, .operator .lparen] ++ (callee ++
        [.operator .lparen, .ident var, .operator .rparen, .operator .rparen, .operator .semi,
          .operator .rbrace, .operator .semi, .eof])) :=
    .right rfl (by decide) (.right rfl (by decide) (.right rfl (by decide) (.both hbody)))
  exact .both (.both (.both (.both (.both (.both (.both (.both (.both (.both hopen)))))))))

/-- The trees of these tokens: the body holds two calls. -/
def entryTrees (testing var : String) : List Tree :=
  [.leaf ⟨.keyword .kwFunc, default⟩, .leaf ⟨.ident Known.suiteEntry, default⟩,
    .group .paren default default
      (leaves [.ident var, .operator .star, .ident testing, .operator .dot,
        .ident Known.driverType]),
    .group .brace default default [.group .paren default default [.group .paren default default []]],
    .leaf ⟨.operator .semi, default⟩]

/-- What may stand behind the last declaration of a source: nothing, or a suite entry. -/
def tailKinds (entry : Option String) (testing os : String) (callee : List TokenKind) :
    List TokenKind :=
  match entry with
  | none => [.eof]
  | some var => entryKinds testing os var callee

/-- **Behind the trees of a source** those of a suite entry are read. -/
theorem build_tail {tokens tail : List Token} {last : Token} {trees : List Tree}
    (hl : last.kind = .eof) (hk : ∀ token ∈ tokens, token.kind ≠ .eof)
    (hb : Tree.build (tokens ++ [last]) = .ok trees) {entry : Option String} {testing os : String}
    {callee : List TokenKind} (hc : ∀ kind ∈ callee, kind.isPlain = true)
    (ht : tail.map Token.kind = tailKinds entry testing os callee) :
    ∃ trees', Tree.build (tokens ++ tail) = .ok trees' ∧ trees'.map Tree.sketch =
      trees.map Tree.sketch ++ (entry.toList.map (entryDecl testing)).flatMap Decl.trees := by
  have happend : Tree.build (tokens ++ tail) = Tree.grow trees.reverse [] tail :=
    Tree.grow_append hl hk hb
  rw [happend]
  cases entry with
  | none =>
    obtain ⟨token, tail, rfl, hkind, -⟩ := List.map_eq_cons_iff.1 ht
    refine ⟨trees, ?_, by simp⟩
    rw [Tree.grow_cons, if_pos hkind, Tree.grow.finish, List.reverse_reverse]
  | some var =>
    -- the tokens without those of the body are read first
    have hframe : Tree.grow trees.reverse []
        ((entryFrame testing var).map fun kind => ⟨kind, default⟩) =
          .ok (trees ++ entryTrees testing var) := by
      have : trees ++ entryTrees testing var =
          ((entryTrees testing var).reverse ++ trees.reverse).reverse := by simp
      rw [this]
      rfl
    have hsame : trees.reverse.map Tree.sketch = [] ++ trees.reverse.map Tree.sketch := rfl
    have hkinds : ((entryFrame testing var).map fun kind => Token.mk kind default).map Token.kind =
        entryFrame testing var := by
      rw [List.map_map]
      exact List.map_id' _
    obtain ⟨trees', ts, hgrow, hs, hs'⟩ :=
      (woven_entry testing os var hc).grow hkinds ht (.top hsame hsame) hframe
    refine ⟨trees', hgrow, ?_⟩
    have hsketch : (entryTrees testing var).map Tree.sketch = (entryDecl testing var).trees := by
      simp [entryTrees, entryDecl, Decl.trees, leaves, Tree.sketch_group]
    rw [List.map_reverse, List.reverse_reverse, List.map_append, List.append_cancel_left_eq] at hs
    rw [List.map_reverse, List.reverse_reverse] at hs'
    rw [hs', ← hs, hsketch]
    simp

/-! ### Declarations -/

theorem leaves_append (ks ks' : List TokenKind) : leaves (ks ++ ks') = leaves ks ++ leaves ks' :=
  List.map_append

theorem leaves_imports (adds : List (String × String)) :
    leaves (adds.flatMap importKinds) = (adds.map importDecl).flatMap Decl.trees := by
  induction adds with
  | nil => rfl
  | cons a adds ih =>
    rw [List.flatMap_cons, leaves_append, ih]
    rfl

/-- The package clause in the trees of a source. -/
theorem splitDecls_clause {package : String} {trees ts : List Tree} {clause : Decl}
    {decls : List Decl} (h : splitDecls trees = .ok (clause :: decls))
    (hs : trees.map Tree.sketch = leaves (clauseKinds package) ++ ts) :
    clause.sketch = clauseDecl package ∧ splitDecls ts = .ok (decls.map Decl.sketch) := by
  have hview := splitDecls_sketch trees
  rw [h, view_ok, hs] at hview
  change view id (splitDecls ((clauseDecl package).trees ++ ts)) = _ at hview
  rw [splitDecls_decl (stands_clauseDecl package)] at hview
  cases hts : splitDecls ts with
  | error e =>
    rw [hts] at hview
    simp [Except.map] at hview
  | ok ds =>
    rw [hts] at hview
    have hlist : clauseDecl package :: ds = (clause :: decls).map Decl.sketch := by
      simpa [Except.map] using hview
    obtain ⟨h1, h2⟩ := List.cons.inj hlist
    exact ⟨h1.symm, by rw [h2]⟩

/-- **The declarations of a changed source**: those of the source, with the added imports behind the
package clause and a suite entry at the end. -/
theorem splitDecls_changed {package testing : String} {trees trees' ts : List Tree} {clause : Decl}
    {decls : List Decl} {adds : List (String × String)} {entry : Option String}
    (h : splitDecls trees = .ok (clause :: decls))
    (hs : trees.map Tree.sketch = leaves (clauseKinds package) ++ ts)
    (hs' : trees'.map Tree.sketch = leaves (clauseKinds package ++ adds.flatMap importKinds) ++ ts ++
      (entry.toList.map (entryDecl testing)).flatMap Decl.trees) :
    ∃ decls', splitDecls trees' = .ok decls' ∧ decls'.map Decl.sketch =
      clause.sketch :: (adds.map importDecl ++ decls.map Decl.sketch ++
        entry.toList.map (entryDecl testing)) := by
  obtain ⟨hclause, hts⟩ := splitDecls_clause h hs
  have himports : ∀ d ∈ adds.map importDecl, d.Stands := by
    intro d hd
    obtain ⟨a, -, rfl⟩ := List.mem_map.1 hd
    exact stands_importDecl a
  have hentry : ∀ d ∈ entry.toList.map (entryDecl testing), d.Stands := by
    intro d hd
    obtain ⟨var, -, rfl⟩ := List.mem_map.1 hd
    exact stands_entryDecl testing var
  have hview := splitDecls_sketch trees'
  rw [hs', leaves_append, leaves_imports, List.append_assoc, List.append_assoc] at hview
  change view id (splitDecls ((clauseDecl package).trees ++ _)) = _ at hview
  rw [splitDecls_decl (stands_clauseDecl package), splitDecls_decls himports,
    splitDecls_append hts, splitDecls_eq_ok_iff.2 ⟨rfl, hentry⟩] at hview
  obtain ⟨decls', hd, hm⟩ := view_eq_some hview.symm
  refine ⟨decls', hd, ?_⟩
  rw [hclause, hm]
  simp

end TestWeave.Source
