import Mathlib.Data.List.Perm.Basic
import TestWeave.Proofs.Attempts
import TestWeave.Proofs.Forest
import TestWeave.Source.File

/-!
# What a source file is read from

* `splitDecls_eq_ok_iff`: the declarations of a source are those that its trees are made of.
* `functionDecl_eq_ok_iff`: the parts of a function, in their order.
* `body_of_functionDecl`: the body of a function is the last tree of its declaration.
* `importSpecs_eq_ok_iff`: the imports of a declaration, each for itself or all in parentheses.
* `item_eq_ok_iff`: what a function adds to a file, and what other declarations add.
* `parse_eq_ok`: the tokens, trees and declarations of a source that parses.
* `PartsOf.ofDecls`: the parts of a source, from its clause, its imports and its items.
-/

namespace TestWeave.Source

/-! ### Trees that are known -/

theorem ident?_eq_some {t : Tree} {name : String} (h : t.ident? = some name) :
    ∃ span, t = .leaf ⟨.ident name, span⟩ := by
  unfold Tree.ident? at h
  split at h
  · simp only [Option.some.injEq] at h
    subst h
    exact ⟨_, rfl⟩
  · simp at h

theorem isIdent_eq_true {t : Tree} {name : String} (h : t.isIdent name = true) :
    ∃ span, t = .leaf ⟨.ident name, span⟩ :=
  ident?_eq_some (by simpa [Tree.isIdent] using h)

theorem isOperator_eq_true {t : Tree} {op : Operator} (h : t.isOperator op = true) :
    ∃ span, t = .leaf ⟨.operator op, span⟩ := by
  unfold Tree.isOperator at h
  split at h
  · simp only [beq_iff_eq] at h
    subst h
    exact ⟨_, rfl⟩
  · simp at h

theorem isKeyword_eq_true {t : Tree} {word : Keyword} (h : t.isKeyword word = true) :
    ∃ span, t = .leaf ⟨.keyword word, span⟩ := by
  unfold Tree.isKeyword at h
  split at h
  · simp only [beq_iff_eq] at h
    subst h
    exact ⟨_, rfl⟩
  · simp at h

theorem group?_eq_some {t : Tree} {delim : Delimiter} {g : Group} (h : t.group? delim = some g) :
    t = .group delim g.opening g.closing g.trees := by
  unfold Tree.group? at h
  split at h
  · split at h
    · rename_i hd
      simp only [Option.some.injEq] at h
      subst hd h
      rfl
    · simp at h
  · simp at h

/-! ### Declarations -/

/-- The trees of a declaration, with the semicolon that ends it. -/
def Decl.trees (d : Decl) : List Tree := d.head :: d.tail ++ [.leaf d.terminator]

/-- The tokens of a declaration. -/
def Decl.tokens (d : Decl) : List Token :=
  d.head.flatten ++ Tree.flattenAll d.tail ++ [d.terminator]

/-- The delimiters of a declaration are those of its groups, and a semicolon ends it. -/
structure Decl.Proper (d : Decl) : Prop where
  trees : ∀ t ∈ d.head :: d.tail, t.Proper
  terminator : d.terminator.kind = .operator .semi

/-- A declaration as it stands in the trees of a source. -/
structure Decl.Stands (d : Decl) : Prop where
  plain : ∀ t ∈ d.head :: d.tail, t.isOperator .semi = false
  terminator : d.terminator.kind = .operator .semi

theorem Decl.Stands.isOperator_terminator {d : Decl} (h : d.Stands) :
    (Tree.leaf d.terminator).isOperator .semi = true := by
  obtain ⟨head, tail, kind, span⟩ := d
  obtain rfl : kind = .operator .semi := h.terminator
  rfl

theorem flattenAll_decls (ds : List Decl) :
    Tree.flattenAll (ds.flatMap Decl.trees) = ds.flatMap Decl.tokens := by
  induction ds with
  | nil => rfl
  | cons d ds ih => simp [Tree.flattenAll_append, ih, Decl.trees, Decl.tokens]

theorem splitDeclsFrom_plain {ts : List Tree} (ht : ∀ t ∈ ts, t.isOperator .semi = false)
    (current rest : List Tree) :
    splitDeclsFrom current (ts ++ rest) = splitDeclsFrom (ts.reverse ++ current) rest := by
  induction ts generalizing current with
  | nil => rfl
  | cons t ts ih =>
    obtain ⟨h, hs⟩ := List.forall_mem_cons.1 ht
    have hne : ∀ span, t = .leaf ⟨.operator .semi, span⟩ → False := by
      rintro span rfl
      simp [Tree.isOperator] at h
    rw [List.cons_append, splitDeclsFrom.eq_4 _ _ _ hne, ih hs]
    simp

/-- **A declaration in front of others** is split off. -/
theorem splitDecls_decl {d : Decl} (h : d.Stands) (rest : List Tree) :
    splitDecls (d.trees ++ rest) = (splitDecls rest).map (d :: ·) := by
  obtain ⟨head, tail, kind, span⟩ := d
  obtain rfl : kind = .operator .semi := h.terminator
  rw [splitDecls, Decl.trees, List.append_assoc, splitDeclsFrom_plain h.plain, List.append_nil,
    List.singleton_append, splitDeclsFrom, List.reverse_reverse]
  rfl

theorem splitDecls_decls {ds : List Decl} (h : ∀ d ∈ ds, d.Stands) (rest : List Tree) :
    splitDecls (ds.flatMap Decl.trees ++ rest) = (splitDecls rest).map (ds ++ ·) := by
  induction ds with
  | nil => cases h : splitDecls rest <;> simp [Except.map, h]
  | cons d ds ih =>
    obtain ⟨hd, hds⟩ := List.forall_mem_cons.1 h
    rw [List.flatMap_cons, List.append_assoc, splitDecls_decl hd, ih hds]
    cases splitDecls rest <;> rfl

/-- What is split off stands in the trees, behind those that are held. -/
theorem stands_of_splitDeclsFrom {current trees : List Tree} {ds : List Decl}
    (hc : ∀ t ∈ current, t.isOperator .semi = false) (h : splitDeclsFrom current trees = .ok ds) :
    current.reverse ++ trees = ds.flatMap Decl.trees ∧ ∀ d ∈ ds, d.Stands := by
  fun_induction splitDeclsFrom current trees generalizing ds with
  | case1 =>
    obtain rfl := Except.ok.inj h
    simp
  | case2 => cases h
  | case3 => cases h
  | case4 current ts span head tail hr ih =>
    obtain ⟨ds, hs, rfl⟩ := map_eq_ok h
    obtain ⟨htrees, hstands⟩ := ih (by simp) hs
    refine ⟨?_, List.forall_mem_cons.2 ⟨⟨fun t ht => hc t ?_, rfl⟩, hstands⟩⟩
    · rw [hr, List.flatMap_cons, ← htrees]
      simp [Decl.trees]
    · rw [← List.mem_reverse, hr]
      exact ht
  | case5 current ts t hne ih =>
    have ht : t.isOperator .semi = false := by
      by_contra ht
      obtain ⟨span, rfl⟩ := isOperator_eq_true (eq_true_of_ne_false ht)
      exact hne span rfl
    simpa using ih (List.forall_mem_cons.2 ⟨ht, hc⟩) h

variable {trees : List Tree} {ds : List Decl}

/-- **The declarations of a source** are those that its trees are made of. -/
theorem splitDecls_eq_ok_iff :
    splitDecls trees = .ok ds ↔ trees = ds.flatMap Decl.trees ∧ ∀ d ∈ ds, d.Stands := by
  constructor
  · exact stands_of_splitDeclsFrom (by simp)
  · rintro ⟨rfl, hstands⟩
    have hsplit := splitDecls_decls hstands []
    rw [List.append_nil] at hsplit
    rw [hsplit]
    simp [splitDecls, splitDeclsFrom, Except.map]

/-- **Declarations behind others** are split off behind them. -/
theorem splitDecls_append (h : splitDecls trees = .ok ds) (rest : List Tree) :
    splitDecls (trees ++ rest) = (splitDecls rest).map (ds ++ ·) := by
  obtain ⟨rfl, hstands⟩ := splitDecls_eq_ok_iff.1 h
  exact splitDecls_decls hstands rest

theorem tokens_of_splitDecls (h : splitDecls trees = .ok ds) :
    Tree.flattenAll trees = ds.flatMap Decl.tokens := by
  rw [(splitDecls_eq_ok_iff.1 h).1, flattenAll_decls]

theorem proper_of_splitDecls (h : splitDecls trees = .ok ds) (ht : ∀ t ∈ trees, t.Proper) :
    ∀ d ∈ ds, d.Proper := by
  obtain ⟨rfl, hstands⟩ := splitDecls_eq_ok_iff.1 h
  exact fun d hd => ⟨fun t hm => ht t (List.mem_flatMap.2 ⟨d, hd, List.mem_append_left _ hm⟩),
    (hstands d hd).terminator⟩

/-- Trees that are mapped one by one, semicolons to semicolons, are those of the mapped
declarations. -/
theorem splitDecls_map {f : Tree → Tree} {g : Decl → Decl}
    (hf : ∀ t, (f t).isOperator .semi = t.isOperator .semi)
    (hg : ∀ d, (g d).trees = d.trees.map f) (h : splitDecls trees = .ok ds) :
    splitDecls (trees.map f) = .ok (ds.map g) := by
  obtain ⟨rfl, hstands⟩ := splitDecls_eq_ok_iff.1 h
  refine splitDecls_eq_ok_iff.2 ⟨?_, List.forall_mem_map.2 fun d hd => ?_⟩
  · rw [List.map_flatMap, List.flatMap_map]
    simp only [hg]
  · have htrees := hg d
    rw [Decl.trees, Decl.trees, List.map_append] at htrees
    obtain ⟨hfront, hlast⟩ := List.append_inj' htrees rfl
    constructor
    · rw [hfront]
      exact List.forall_mem_map.2 fun t ht => (hf t).trans ((hstands d hd).plain t ht)
    · have hsemi : (Tree.leaf (g d).terminator).isOperator .semi = true := by
        rw [List.singleton_inj.1 hlast, hf, (hstands d hd).isOperator_terminator]
      obtain ⟨span, hspan⟩ := isOperator_eq_true hsemi
      rw [Tree.leaf.inj hspan]

/-! ### Functions -/

/-- The body of a function is the last of its trees. -/
theorem functionBody_eq_some {trees : List Tree} {g : Group}
    (h : functionBody trees = .ok (some g)) :
    ∃ before, trees = before ++ [.group .brace g.opening g.closing g.trees] := by
  fun_induction functionBody trees with
  | case1 => simp at h
  | case2 t _ u us _ ih =>
    obtain ⟨before, rfl⟩ := ih h
    exact ⟨t :: u :: before, rfl⟩
  | case3 t _ u us _ ih =>
    obtain ⟨before, hb⟩ := ih h
    exact ⟨t :: before, by rw [hb, List.cons_append]⟩
  | case4 => simp at h
  | case5 t ts _ _ ih =>
    obtain ⟨before, rfl⟩ := ih h
    exact ⟨t :: before, rfl⟩
  | case6 t _ g' hg =>
    simp only [Except.ok.injEq, Option.some.injEq] at h
    subst h
    exact ⟨[], by rw [List.nil_append, ← group?_eq_some hg]⟩
  | case7 => simp at h

theorem skipGroup_append (delim : Delimiter) (trees : List Tree) :
    ∃ before, trees = before ++ (skipGroup delim trees).2 := by
  unfold skipGroup
  split
  · rename_i t ts
    split
    · exact ⟨[t], rfl⟩
    · exact ⟨[], rfl⟩
  · exact ⟨[], rfl⟩

/-- What a function is read from, behind its keyword: its receiver, its name, its type parameters,
its parameters, and what comes before its body. -/
inductive FunctionOf (keyword : Span) (trees : List Tree) : FunctionDecl → Prop
  | intro {hasReceiver generic : Bool} {t u : Tree} {ts us : List Tree} {name : String} {g : Group}
      {body : Option Group} : skipGroup .paren trees = (hasReceiver, t :: ts) →
      t.ident? = some name → skipGroup .bracket ts = (generic, u :: us) →
      u.group? .paren = some g → functionBody us = .ok body →
      FunctionOf keyword trees ⟨name, keyword, hasReceiver, g.trees, body⟩

theorem functionDecl_eq_ok_iff {keyword : Span} {trees : List Tree} {f : FunctionDecl} :
    functionDecl keyword trees = .ok f ↔ FunctionOf keyword trees f := by
  constructor
  · intro h
    unfold functionDecl at h
    cases hr : skipGroup .paren trees with
    | mk hasReceiver ts =>
    rw [hr] at h
    cases ts with
    | nil => cases h
    | cons t ts =>
    cases hn : t.ident? with
    | none => simp [hn] at h
    | some name =>
    simp only [hn] at h
    cases ht : skipGroup .bracket ts with
    | mk generic us =>
    rw [ht] at h
    cases us with
    | nil => cases h
    | cons u us =>
    cases hp : u.group? .paren with
    | none => simp [hp] at h
    | some g =>
    simp only [hp] at h
    obtain ⟨body, hbody, h⟩ := bind_eq_ok h
    obtain rfl := Except.ok.inj h
    exact .intro hr hn ht hp hbody
  · rintro ⟨hr, hn, ht, hp, hbody⟩
    simp only [functionDecl, hr, hn, ht, hp, hbody]
    rfl

theorem body_of_functionDecl {keyword : Span} {trees : List Tree} {f : FunctionDecl} {g : Group}
    (h : functionDecl keyword trees = .ok f) (hg : f.body = some g) :
    ∃ before, trees = before ++ [.group .brace g.opening g.closing g.trees] := by
  obtain @⟨_, _, t, u, ts, us, _, _, _, hreceiver, -, htypes, -, hbody⟩ :=
    functionDecl_eq_ok_iff.1 h
  obtain rfl := hg
  obtain ⟨b1, h1⟩ := skipGroup_append .paren trees
  obtain ⟨b2, h2⟩ := skipGroup_append .bracket ts
  obtain ⟨b3, h3⟩ := functionBody_eq_some hbody
  rw [hreceiver] at h1
  rw [htypes] at h2
  exact ⟨b1 ++ t :: b2 ++ u :: b3, by rw [h1, h2, h3]; simp⟩

/-! ### The package clause -/

/-- The package clause is a keyword and a name. -/
theorem packageClause_eq_ok_iff {d : Decl} {package : String} {anchor : ImportAnchor} :
    packageClause d = .ok (package, anchor) ↔
      ∃ s1 s2, d.head = .leaf ⟨.keyword .kwPackage, s1⟩ ∧ d.tail = [.leaf ⟨.ident package, s2⟩] ∧
        anchor = if d.terminator.span.isEmpty then ⟨s2.stop, false⟩
          else ⟨d.terminator.span.stop, true⟩ := by
  constructor
  · intro h
    unfold packageClause at h
    split at h
    · rename_i name hk ht
      obtain ⟨s1, hs1⟩ := isKeyword_eq_true hk
      cases hn : name.ident? with
      | none => simp [hn] at h
      | some own =>
        obtain ⟨s2, rfl⟩ := ident?_eq_some hn
        simp only [hn, ← apply_ite Except.ok, ← apply_ite (Prod.mk own)] at h
        obtain ⟨rfl, rfl⟩ := Prod.mk.inj (Except.ok.inj h)
        exact ⟨s1, s2, hs1, ht, rfl⟩
    · cases h
  · rintro ⟨s1, s2, hhead, htail, rfl⟩
    simp only [packageClause, hhead, htail, Tree.isKeyword, Tree.ident?, beq_self_eq_true]
    split <;> rfl

/-! ### Imports -/

theorem importName_eq_ok_iff {t : Tree} {name : String} :
    importName t = .ok name ↔ t.isOperator .dot = true ∧ name = "." ∨ t.ident? = some name := by
  by_cases hdot : t.isOperator .dot = true
  · obtain ⟨span, rfl⟩ := isOperator_eq_true hdot
    simp [importName, Tree.isOperator, Tree.ident?, eq_comm]
  · rw [importName, if_neg hdot]
    cases t.ident? <;> simp [hdot]

theorem importPath_eq_ok_iff {t : Tree} {path : String} : importPath t = .ok path ↔
    ∃ text span, t = .leaf ⟨.literal .string text, span⟩ ∧ unquote text = path ∧ path ≠ "" := by
  constructor
  · intro h
    unfold importPath at h
    split at h
    · simp only at h
      split at h
      · cases h
      · rename_i hne
        obtain rfl := Except.ok.inj h
        exact ⟨_, _, rfl, rfl, by simpa using hne⟩
    · cases h
  · rintro ⟨text, span, rfl, rfl, hne⟩
    rw [importPath, if_neg (by simpa using hne)]

/-- What the trees of an import are read as. -/
inductive SpecOf : List Tree → ImportSpec → Prop
  | bare {t : Tree} {path : String} : importPath t = .ok path →
      SpecOf [t] ⟨none, path, t.span.position⟩
  | named {n t : Tree} {name path : String} : importName n = .ok name → importPath t = .ok path →
      SpecOf [n, t] ⟨some name, path, n.span.position⟩

theorem importSpec_eq_ok_iff {ts : List Tree} {spec : ImportSpec} :
    importSpec ts = .ok spec ↔ SpecOf ts spec := by
  constructor
  · intro h
    unfold importSpec at h
    split at h
    · obtain ⟨path, hpath, h⟩ := bind_eq_ok h
      obtain rfl := Except.ok.inj h
      exact .bare hpath
    · obtain ⟨name, hname, h⟩ := bind_eq_ok h
      obtain ⟨path, hpath, h⟩ := bind_eq_ok h
      obtain rfl := Except.ok.inj h
      exact .named hname hpath
    · cases h
  · rintro (hpath | ⟨hname, hpath⟩)
    · rw [importSpec, hpath]
      rfl
    · rw [importSpec, hname, hpath]
      rfl

/-- What is behind the keyword of an import declaration, and what it is read as. -/
inductive SpecsOf : List Tree → List ImportSpec → Prop
  | listed {t : Tree} {g : Group} {specs : List ImportSpec} : t.group? .paren = some g →
      ((Tree.splitOn .semi g.trees).filter (!·.isEmpty)).mapM importSpec = .ok specs → SpecsOf [t] specs
  | alone {ts : List Tree} {spec : ImportSpec} : (∀ t, ts = [t] → t.group? .paren = none) →
      SpecOf ts spec → SpecsOf ts [spec]

theorem importSpecs_eq_ok_iff {ts : List Tree} {specs : List ImportSpec} :
    importSpecs ts = .ok specs ↔ SpecsOf ts specs := by
  have one : ∀ {ts : List Tree} {specs : List ImportSpec},
      (do return [← importSpec ts]) = (.ok specs : Except Diagnostic (List ImportSpec)) ↔
        ∃ spec, SpecOf ts spec ∧ specs = [spec] := by
    intro ts specs
    constructor
    · intro h
      obtain ⟨spec, hspec, h⟩ := bind_eq_ok h
      obtain rfl := Except.ok.inj h
      exact ⟨spec, importSpec_eq_ok_iff.1 hspec, rfl⟩
    · rintro ⟨spec, hspec, rfl⟩
      rw [importSpec_eq_ok_iff.2 hspec]
      rfl
  constructor
  · intro h
    match ts with
    | [] | _ :: _ :: _ =>
      obtain ⟨spec, hspec, rfl⟩ := one.1 h
      exact .alone nofun hspec
    | [t] =>
      rw [importSpecs] at h
      cases hg : t.group? .paren with
      | none =>
        simp only [hg] at h
        obtain ⟨spec, hspec, rfl⟩ := one.1 h
        exact .alone (by rintro _ ⟨⟩; exact hg) hspec
      | some g =>
        simp only [hg] at h
        exact .listed hg h
  · rintro (⟨hg, h⟩ | @⟨ts, spec, hgroup, hspec⟩)
    · simp only [importSpecs, hg, h]
    · match ts, hgroup with
      | [], _ | _ :: _ :: _, _ => exact one.2 ⟨spec, hspec, rfl⟩
      | [t], hgroup =>
        simp only [importSpecs, hgroup t rfl]
        exact one.2 ⟨spec, hspec, rfl⟩

/-! ### What a declaration adds -/

/-- Whether a function is the entry point of a program. -/
def FunctionDecl.isMain (f : FunctionDecl) : Bool := f.name == Known.mainFunction && !f.hasReceiver

/-- A test is not the entry point of a program. -/
theorem FunctionDecl.isMain_of_test {f : FunctionDecl}
    (h : Text.startsWith Known.testLead f.name = true) : f.isMain = false := by
  rw [isMain, Bool.and_eq_false_iff]
  refine .inl (beq_eq_false_iff_ne.2 fun hname => ?_)
  rw [hname] at h
  exact absurd h (by decide)

/-- The suite that a function runs. -/
def FunctionDecl.driver? (testing : List String) (f : FunctionDecl) : Option DriverEntry :=
  if f.isMain then driverEntry? testing f else none

/-- What a function adds to the parts of its file. -/
def FunctionDecl.item (testing : List String) (f : FunctionDecl) : Item where
  names := if f.hasReceiver then [] else [f.name]
  test := testFunction? testing f
  isMain := f.isMain
  driver := f.driver? testing

/-- What a declaration adds to the parts of its file. -/
inductive ItemOf (testing : List String) (d : Decl) : Item → Prop
  | function {f : FunctionDecl} : d.head.isKeyword .kwFunc = true →
      functionDecl d.head.span d.tail = .ok f → ItemOf testing d (f.item testing)
  | binding {binder : Keyword} : binder ∈ [.kwVar, .kwConst, .kwType] →
      d.head.isKeyword binder = true → d.tail ≠ [] →
      ItemOf testing d ⟨declaredNames d.tail, none, false, none⟩

theorem item_eq_ok_iff {testing : List String} {d : Decl} {it : Item} :
    item testing d = .ok it ↔ ItemOf testing d it := by
  constructor
  · intro h
    unfold item at h
    split at h
    · cases h
    split at h
    · rename_i hfunc
      obtain ⟨f, hf, h⟩ := bind_eq_ok h
      obtain rfl := Except.ok.inj h
      exact .function hfunc hf
    split at h
    · rename_i hbinder
      obtain rfl := Except.ok.inj h
      simp only [Bool.and_eq_true, Bool.or_eq_true, Bool.not_eq_true', List.isEmpty_eq_false_iff]
        at hbinder
      obtain ⟨(hk | hk) | hk, hne⟩ := hbinder
      · exact .binding (by simp) hk hne
      · exact .binding (by simp) hk hne
      · exact .binding (by simp) hk hne
    · cases h
  · rintro (⟨hk, hf⟩ | ⟨hbinder, hk, hne⟩)
    · obtain ⟨span, hhead⟩ := isKeyword_eq_true hk
      rw [hhead] at hf
      simp only [item, hhead, Tree.isKeyword, hf]
      rfl
    · obtain ⟨span, hhead⟩ := isKeyword_eq_true hk
      simp only [List.mem_cons, List.not_mem_nil, or_false] at hbinder
      obtain rfl | rfl | rfl := hbinder <;> simp [item, hhead, Tree.isKeyword, hne]

/-! ### Files -/

/-- Whether a declaration is an import. -/
def Decl.isImport (d : Decl) : Bool := d.head.isKeyword .kwImport

/-- What is behind the parts of a file: its clause, its imports and the other declarations. -/
structure PartsOf (clause : Decl) (decls : List Decl) (parts : FileParts)
    (specs : List (List ImportSpec)) (its : List Item) : Prop where
  clause_eq : packageClause clause = .ok (parts.package, parts.anchor)
  specs_eq : (decls.takeWhile Decl.isImport).mapM (fun d => importSpecs d.tail) = .ok specs
  imports_eq : parts.imports = specs.flatten
  its_eq : (decls.dropWhile Decl.isImport).mapM (item (testingNames parts.imports)) = .ok its
  tests_eq : parts.tests = its.filterMap (·.test)
  driver_eq : parts.driver = its.findSome? (·.driver)
  definesMain_eq : parts.definesMain = its.any (·.isMain)
  declarations_eq : parts.declarations = its.flatMap (·.names)

theorem ofDecls_eq_ok {decls : List Decl} {parts : FileParts}
    (h : FileParts.ofDecls decls = .ok parts) :
    ∃ clause rest specs its, decls = clause :: rest ∧ PartsOf clause rest parts specs its := by
  cases decls with
  | nil => simp [FileParts.ofDecls] at h
  | cons clause rest =>
    rw [FileParts.ofDecls] at h
    obtain ⟨⟨package, anchor⟩, hc, h⟩ := bind_eq_ok h
    obtain ⟨specs, hs, h⟩ := bind_eq_ok h
    obtain ⟨its, hi, h⟩ := bind_eq_ok h
    simp only [pure, Except.pure, Except.ok.injEq] at h
    subst h
    exact ⟨clause, rest, specs, its, rfl, hc, hs, rfl, hi, rfl, rfl, rfl, rfl⟩

theorem PartsOf.ofDecls {clause : Decl} {rest : List Decl} {parts : FileParts}
    {specs : List (List ImportSpec)} {its : List Item} (h : PartsOf clause rest parts specs its) :
    FileParts.ofDecls (clause :: rest) = .ok parts := by
  obtain ⟨hc, hs, h1, hi, h2, h3, h4, h5⟩ := h
  obtain ⟨package, imports, anchor, tests, driver, definesMain, declarations⟩ := parts
  simp only at hc h1 hi h2 h3 h4 h5
  subst h1 h2 h3 h4 h5
  unfold Decl.isImport at hs hi
  simp only [FileParts.ofDecls, hc, hs, hi, bind, Except.bind, pure, Except.pure]

/-- A source file is the parts of its source, with the source and where it comes from. -/
theorem parse_iff_ofText {path : Path} {source : String} {file : SourceFile} :
    SourceFile.parse path source = .ok file ↔
      FileParts.ofText source = .ok file.toFileParts ∧ file.path = path ∧ file.source = source := by
  unfold SourceFile.parse
  cases FileParts.ofText source with
  | ok parts =>
    rw [Except.ok.injEq, Except.ok.injEq]
    constructor
    · rintro rfl
      exact ⟨rfl, rfl, rfl⟩
    · rintro ⟨rfl, rfl, rfl⟩
      rfl
  | error => simp

/-- What is behind a source file: its tokens, their trees and its declarations. -/
theorem parse_eq_ok {path : Path} {source : String} {file : SourceFile}
    (h : SourceFile.parse path source = .ok file) :
    file.path = path ∧ file.source = source ∧ ∃ tokens trees clause decls specs its,
      lex source = .ok tokens ∧ Tree.build tokens = .ok trees ∧
      splitDecls trees = .ok (clause :: decls) ∧
      PartsOf clause decls file.toFileParts specs its := by
  obtain ⟨hparts, hpath, hsource⟩ := parse_iff_ofText.1 h
  obtain ⟨tokens, hl, hparts⟩ := bind_eq_ok hparts
  obtain ⟨trees, ht, hparts⟩ := bind_eq_ok hparts
  obtain ⟨decls, hd, hparts⟩ := bind_eq_ok hparts
  obtain ⟨clause, rest, specs, its, rfl, hp⟩ := ofDecls_eq_ok hparts
  exact ⟨hpath, hsource, tokens, trees, clause, rest, specs, its, hl, ht, hd, hp⟩

/-- A source that parses, as far as it can be tested. -/
theorem exists_parsed {path : Path} {source : String} {P : SourceFile → Prop} [DecidablePred P]
    (h : (SourceFile.parse path source).toOption.any (fun file => P file) = true) :
    ∃ file, SourceFile.parse path source = .ok file ∧ file.path = path ∧ P file := by
  cases hf : SourceFile.parse path source with
  | error => rw [hf] at h; exact absurd h Bool.false_ne_true
  | ok file =>
    rw [hf] at h
    exact ⟨file, rfl, (parse_eq_ok hf).1, of_decide_eq_true h⟩

end TestWeave.Source
