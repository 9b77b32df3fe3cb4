import TestWeave.Proofs.Parts

/-!
# What the model of a file depends on

A sketch of a tree has no places, and nothing between its braces. What a file declares is read from
the sketches of its trees: bodies of functions do not count.

* `Tree.sketch`: the sketch of a tree.
* `params_sketch`, `declaredNames_sketch`, `functionDecl_sketch`, `importSpecs_sketch`: what is read
  from sketches.
* `item_sketch`: the outline of a declaration is that of its sketch.
-/

namespace TestWeave.Source

namespace Tree

mutual

/-- A tree without places and without what stands between braces. -/
def sketch : Tree → Tree
  | .leaf token => .leaf ⟨token.kind, default⟩
  | .group delim _ _ trees =>
    .group delim default default (if delim = .brace then [] else sketchAll trees)

/-- The sketches of a list of trees. -/
def sketchAll : List Tree → List Tree
  | [] => []
  | t :: ts => sketch t :: sketchAll ts

end

@[simp] theorem sketchAll_eq_map (ts : List Tree) : sketchAll ts = ts.map sketch := by
  induction ts with
  | nil => simp [sketchAll]
  | cons t ts ih => simp [sketchAll, ih]

@[simp] theorem sketch_leaf (token : Token) : (leaf token).sketch = .leaf ⟨token.kind, default⟩ := by
  simp [sketch]

theorem sketch_group (delim : Delimiter) (opening closing : Span) (trees : List Tree) :
    (group delim opening closing trees).sketch =
      .group delim default default (if delim = .brace then [] else trees.map sketch) := by
  simp [sketch]

@[simp] theorem ident?_sketch (t : Tree) : t.sketch.ident? = t.ident? := by
  cases t with
  | leaf token =>
    rw [sketch_leaf]
    rcases token with ⟨kind, span⟩
    cases kind <;> rfl
  | group => rw [sketch_group]; rfl

@[simp] theorem isIdent_sketch (name : String) (t : Tree) :
    t.sketch.isIdent name = t.isIdent name := by
  rw [isIdent, ident?_sketch, isIdent]

@[simp] theorem isOperator_sketch (op : Operator) (t : Tree) :
    t.sketch.isOperator op = t.isOperator op := by
  cases t with
  | leaf token =>
    rw [sketch_leaf]
    rcases token with ⟨kind, span⟩
    cases kind <;> rfl
  | group => rw [sketch_group]; rfl

@[simp] theorem isKeyword_sketch (word : Keyword) (t : Tree) :
    t.sketch.isKeyword word = t.isKeyword word := by
  cases t with
  | leaf token =>
    rw [sketch_leaf]
    rcases token with ⟨kind, span⟩
    cases kind <;> rfl
  | group => rw [sketch_group]; rfl

/-- The groups of sketches. -/
theorem group?_sketch (delim : Delimiter) (t : Tree) :
    t.sketch.group? delim = (t.group? delim).map fun g =>
      ⟨default, default, if delim = .brace then [] else g.trees.map sketch⟩ := by
  cases t with
  | leaf token => rw [sketch_leaf]; rfl
  | group d opening closing trees =>
    rw [sketch_group, group?, group?]
    by_cases h : d = delim <;> simp [h]

@[simp] theorem isSome_group?_sketch (delim : Delimiter) (t : Tree) :
    (t.sketch.group? delim).isSome = (t.group? delim).isSome := by
  rw [group?_sketch, Option.isSome_map]

end Tree

open Source.Tree

/-! ### Splitting -/

theorem splitOn_sketch (op : Operator) (ts : List Tree) :
    splitOn op (ts.map sketch) = (splitOn op ts).map (List.map sketch) :=
  splitWhere_map sketch (isOperator_sketch op) ts

theorem filter_sketch (segments : List (List Tree)) :
    (segments.map (List.map sketch)).filter (!·.isEmpty) =
      (segments.filter (!·.isEmpty)).map (List.map sketch) := by
  rw [List.filter_map]
  congr 1
  refine List.filter_congr fun segment _ => ?_
  cases segment <;> rfl

/-! ### Parameters and names -/

theorem paramType_sketch (ts : List Tree) : paramType (ts.map sketch) = paramType ts := by
  match ts with
  | [] | [_] | [_, _] | [_, _, _] | _ :: _ :: _ :: _ :: _ :: _ => rfl
  | [star, package, dot, name] => simp [paramType]

theorem isNamed_sketch (ts : List Tree) : isNamed (ts.map sketch) = isNamed ts := by
  match ts with
  | [] | [_] => rfl
  | first :: second :: rest => simp [isNamed]

theorem namedParams_sketch (pending : List String) (segments : List (List Tree)) :
    namedParams pending (segments.map (List.map sketch)) = namedParams pending segments := by
  induction segments generalizing pending with
  | nil => rfl
  | cons segment segments ih =>
    cases segment with
    | nil => exact ih pending
    | cons t ts =>
      cases ts with
      | nil => cases h : t.ident? <;> simp [namedParams, h, ih, paramType]
      | cons u us =>
        have htype := paramType_sketch (u :: us)
        rw [List.map_cons] at htype
        simp only [List.map_cons, namedParams, ident?_sketch, ih]
        cases t.ident? <;> simp only [htype]

/-- **Parameters** are read from sketches. -/
theorem params_sketch (ts : List Tree) : params (ts.map sketch) = params ts := by
  have hnamed : ∀ segments : List (List Tree),
      (segments.map (List.map sketch)).any isNamed = segments.any isNamed := by
    intro segments
    rw [List.any_map]
    congr 1
    funext segment
    exact isNamed_sketch segment
  simp only [params, splitOn_sketch, filter_sketch, hnamed, namedParams_sketch, List.map_map]
  congr 2
  funext segment
  simp [paramType_sketch]

theorem specNames_sketch (ts : List Tree) : specNames (ts.map sketch) = specNames ts := by
  have hnamed : ∀ t : Tree, specNames.named t.sketch = specNames.named t := by
    intro t
    simp [specNames.named]
  fun_induction specNames ts with
  | case1 => rfl
  | case2 t => simp [specNames, hnamed]
  | case3 t u us h ih => simp_all [specNames]
  | case4 t u us h => simp_all [specNames]

/-- **The names of a declaration** are read from sketches. -/
theorem declaredNames_sketch (ts : List Tree) :
    declaredNames (ts.map sketch) = declaredNames ts := by
  have hgroup : ∀ trees : List Tree, (splitOn .semi (trees.map sketch)).flatMap specNames =
      (splitOn .semi trees).flatMap specNames := by
    intro trees
    rw [splitOn_sketch, List.flatMap_map]
    congr 1
    funext segment
    exact specNames_sketch segment
  match ts with
  | [] => rfl
  | [t] =>
    have ht := specNames_sketch [t]
    rw [List.map_cons, List.map_nil] at ht
    simp only [declaredNames, List.map_cons, List.map_nil, group?_sketch]
    cases h : t.group? .paren with
    | none => simpa using ht
    | some g => simpa using hgroup g.trees
  | t :: u :: us => exact specNames_sketch (t :: u :: us)

/-! ### What is got -/

/-- What is seen of a result, if there is one. -/
def view {ε α β : Type} (v : α → β) (x : Except ε α) : Option β := x.toOption.map v

section

variable {ε α β γ δ : Type}

@[simp] theorem view_ok (v : α → β) (a : α) : view v (.ok a : Except ε α) = some (v a) := rfl

@[simp] theorem view_error (v : α → β) (e : ε) : view v (.error e : Except ε α) = none := rfl

theorem view_eq_some {v : α → β} {x : Except ε α} {b : β} (h : view v x = some b) :
    ∃ a, x = .ok a ∧ v a = b := by
  cases x with
  | error e => simp at h
  | ok a => exact ⟨a, rfl, by simpa using h⟩

/-- What is seen of two steps, where the first ones are seen alike and the others go on alike. -/
theorem view_bind {u : α → γ} {v : β → δ} {x y : Except ε α} {f g : α → Except ε β}
    (h : view u x = view u y) (hf : ∀ a b, u a = u b → view v (f a) = view v (g b)) :
    view v (x >>= f) = view v (y >>= g) := by
  cases x with
  | error e =>
    cases y with
    | error e' => rfl
    | ok b => simp at h
  | ok a =>
    cases y with
    | error e' => simp at h
    | ok b => exact hf a b (by simpa using h)

theorem view_mapM {v : β → δ} {f g : α → Except ε β} {s : α → α}
    (h : ∀ a, view v (f (s a)) = view v (g a)) (as : List α) :
    view (List.map v) ((as.map s).mapM f) = view (List.map v) (as.mapM g) := by
  induction as with
  | nil => rfl
  | cons a as ih =>
    rw [List.map_cons, List.mapM_cons, List.mapM_cons]
    refine view_bind (h a) fun b b' hb => view_bind ih fun bs bs' hbs => ?_
    simp [pure, Except.pure, hb, hbs]

end

/-! ### Functions -/

theorem functionBody_sketch (ts : List Tree) :
    view Option.isSome (functionBody (ts.map sketch)) = view Option.isSome (functionBody ts) := by
  fun_induction functionBody ts with
  | case1 => rfl
  | case2 t h u us hu ih => simpa [functionBody, h, hu] using ih
  | case3 t h u us hu ih => simpa [functionBody, h, hu] using ih
  | case4 t h => simp [functionBody, h]
  | case5 t ts h hg ih =>
    rw [List.map_cons, functionBody.eq_def]
    simpa [h, group?_sketch, hg] using ih
  | case6 t h g hg => simp [functionBody, h, group?_sketch, hg]
  | case7 t h g hg u us => simp [functionBody, h, group?_sketch, hg]

theorem skipGroup_sketch (delim : Delimiter) (ts : List Tree) :
    skipGroup delim (ts.map sketch) =
      ((skipGroup delim ts).1, (skipGroup delim ts).2.map sketch) := by
  cases ts with
  | nil => rfl
  | cons t ts =>
    simp only [List.map_cons, skipGroup, isSome_group?_sketch]
    split <;> rfl

/-- What is known of a function without its body and without places. -/
def FunctionDecl.outline (f : FunctionDecl) : String × Bool × List Param × Bool :=
  (f.name, f.hasReceiver, Source.params f.params, f.body.isSome)

/-- **Functions** are read from sketches. -/
theorem functionDecl_sketch (k k' : Span) (ts : List Tree) :
    view FunctionDecl.outline (functionDecl k' (ts.map sketch)) =
      view FunctionDecl.outline (functionDecl k ts) := by
  unfold functionDecl
  rw [skipGroup_sketch]
  rcases skipGroup .paren ts with ⟨hasReceiver, ts⟩
  cases ts with
  | nil => rfl
  | cons t ts =>
    simp only [List.map_cons, ident?_sketch]
    cases t.ident? with
    | none => rfl
    | some name =>
      simp only [skipGroup_sketch]
      rcases skipGroup .bracket ts with ⟨generic, us⟩
      cases us with
      | nil => rfl
      | cons u us =>
        simp only [List.map_cons, group?_sketch]
        cases u.group? .paren with
        | none => rfl
        | some g =>
          refine view_bind (functionBody_sketch us) fun body body' hb => ?_
          simp [pure, Except.pure, FunctionDecl.outline, hb, params_sketch]

/-! ### Imports -/

/-- What is known of an import without its place. -/
def ImportSpec.outline (spec : ImportSpec) : Option String × String := (spec.name, spec.path)

theorem importPath_sketch (t : Tree) : view id (importPath t.sketch) = view id (importPath t) := by
  cases t with
  | leaf token =>
    rw [sketch_leaf]
    rcases token with ⟨kind, span⟩
    cases kind with
    | literal kind text =>
      cases kind with
      | string =>
        simp only [importPath]
        split <;> rfl
      | _ => rfl
    | _ => rfl
  | group => rw [sketch_group]; rfl

theorem importName_sketch (t : Tree) : view id (importName t.sketch) = view id (importName t) := by
  simp only [importName, isOperator_sketch, ident?_sketch]
  split
  · rfl
  · cases t.ident? <;> rfl

theorem importSpec_sketch (ts : List Tree) :
    view ImportSpec.outline (importSpec (ts.map sketch)) =
      view ImportSpec.outline (importSpec ts) := by
  match ts with
  | [] | _ :: _ :: _ :: _ => rfl
  | [path] =>
    refine view_bind (importPath_sketch path) fun a b h => ?_
    obtain rfl : a = b := h
    rfl
  | [name, path] =>
    refine view_bind (importName_sketch name) fun a b h => ?_
    obtain rfl : a = b := h
    refine view_bind (importPath_sketch path) fun c d h => ?_
    obtain rfl : c = d := h
    rfl

/-- **Imports** are read from sketches. -/
theorem importSpecs_sketch (ts : List Tree) :
    view (List.map ImportSpec.outline) (importSpecs (ts.map sketch)) =
      view (List.map ImportSpec.outline) (importSpecs ts) := by
  have one : ∀ ts : List Tree,
      view (List.map ImportSpec.outline) (do return [← importSpec (ts.map sketch)]) =
        view (List.map ImportSpec.outline) (do return [← importSpec ts]) := by
    intro ts
    refine view_bind (importSpec_sketch ts) fun a b h => ?_
    simp [pure, Except.pure, h]
  match ts with
  | [] | _ :: _ :: _ => exact one _
  | [t] =>
    simp only [importSpecs, List.map_cons, List.map_nil, group?_sketch]
    cases t.group? .paren with
    | none => exact one [t]
    | some g =>
      simp only [Option.map_some, reduceCtorEq, if_false, splitOn_sketch, filter_sketch]
      exact view_mapM importSpec_sketch _

/-! ### Declarations -/

/-- The sketch of a declaration. -/
def Decl.sketch (d : Decl) : Decl :=
  ⟨d.head.sketch, d.tail.map Tree.sketch, ⟨d.terminator.kind, default⟩⟩

/-- What is known of a test without its body and without places. -/
def TestFunction.outline (t : TestFunction) : String × String × Bool :=
  (t.name, t.contextName, t.isSuiteEntry)

/-- What is known of a declaration without its body and without places. -/
def Item.outline (it : Item) : List String × Option (String × String × Bool) × Bool :=
  (it.names, it.test.map TestFunction.outline, it.isMain)

theorem testFunction?_outline (testing : List String) {f f' : FunctionDecl}
    (h : f.outline = f'.outline) :
    (testFunction? testing f).map TestFunction.outline =
      (testFunction? testing f').map TestFunction.outline := by
  simp only [FunctionDecl.outline, Prod.mk.injEq] at h
  obtain ⟨hname, -, hparams, hbody⟩ := h
  simp only [testFunction?, hname, hparams]
  split
  · cases hb : f.body with
    | none =>
      have : f'.body = none := by simpa [hb] using hbody.symm
      rw [this]
    | some g =>
      obtain ⟨g', hg'⟩ := Option.isSome_iff_exists.1 (by simpa [hb] using hbody.symm)
      rw [hg']
      cases contextParam? testing (params f'.params) <;> rfl
  · rfl

/-- **A declaration** is read from its sketch. -/
theorem item_sketch (testing : List String) (d : Decl) :
    view Item.outline (item testing d.sketch) = view Item.outline (item testing d) := by
  unfold item
  simp only [Decl.sketch, isKeyword_sketch, declaredNames_sketch, List.isEmpty_map]
  split
  · rfl
  split
  · refine view_bind (functionDecl_sketch d.head.span d.head.sketch.span d.tail)
      fun f f' h => ?_
    have htest := testFunction?_outline testing h
    simp only [FunctionDecl.outline, Prod.mk.injEq] at h
    obtain ⟨hname, hreceiver, -⟩ := h
    simp [pure, Except.pure, Item.outline, htest, hname, hreceiver]
  split
  · rfl
  · rfl

theorem packageClause_sketch (d : Decl) :
    view Prod.fst (packageClause d.sketch) = view Prod.fst (packageClause d) := by
  obtain ⟨head, tail, terminator⟩ := d
  simp only [packageClause, Decl.sketch, isKeyword_sketch]
  cases head.isKeyword .kwPackage with
  | false => rfl
  | true =>
    rcases tail with - | ⟨name, - | ⟨other, tail⟩⟩
    · rfl
    · simp only [List.map_cons, List.map_nil, ident?_sketch]
      cases name.ident? with
      | none => rfl
      | some package =>
        have both : ∀ (empty : Bool) (a b : ImportAnchor),
            view Prod.fst (if empty then .ok (package, a) else .ok (package, b) :
              Except Diagnostic (String × ImportAnchor)) = some package := by
          intro empty a b
          cases empty <;> rfl
        exact (both ..).trans (both ..).symm
    · rfl

theorem Decl.trees_sketch (d : Decl) : d.sketch.trees = d.trees.map Tree.sketch := by
  simp [Decl.trees, Decl.sketch]

theorem Decl.stands_sketch {d : Decl} : d.sketch.Stands ↔ d.Stands := by
  have hplain : (∀ t ∈ d.sketch.head :: d.sketch.tail, t.isOperator .semi = false) ↔
      ∀ t ∈ d.head :: d.tail, t.isOperator .semi = false := by
    simp [Decl.sketch]
  exact ⟨fun h => ⟨hplain.1 h.plain, h.terminator⟩, fun h => ⟨hplain.2 h.plain, h.terminator⟩⟩

theorem stands_of_sketch {ds ds' : List Decl} (h : ds'.map Decl.sketch = ds.map Decl.sketch)
    (hd : ∀ d ∈ ds, d.Stands) : ∀ d ∈ ds', d.Stands := by
  have hsketches : ∀ d ∈ ds'.map Decl.sketch, d.Stands := by
    rw [h]
    exact List.forall_mem_map.2 fun d hm => Decl.stands_sketch.2 (hd d hm)
  exact fun d hm => Decl.stands_sketch.1 (List.forall_mem_map.1 hsketches d hm)

/-- Trees with the sketches of a declaration's trees are those of a declaration. -/
theorem exists_decl_of_sketch {d : Decl} {ts : List Tree} (h : ts.map Tree.sketch = d.trees) :
    ∃ d' : Decl, ts = d'.trees ∧ d'.sketch = d := by
  rw [Decl.trees, List.cons_append] at h
  obtain ⟨head, ts, rfl, hhead, h⟩ := List.map_eq_cons_iff.1 h
  obtain ⟨tail, last, rfl, htail, h⟩ := List.map_eq_append_iff.1 h
  obtain ⟨t, last, rfl, ht, h⟩ := List.map_eq_cons_iff.1 h
  obtain rfl := List.map_eq_nil_iff.1 h
  cases t with
  | group => rw [Tree.sketch_group] at ht; cases ht
  | leaf terminator =>
    rw [Tree.sketch_leaf] at ht
    refine ⟨⟨head, tail, terminator⟩, rfl, ?_⟩
    rw [Decl.sketch, hhead, htail, Tree.leaf.inj ht]

theorem exists_decls_of_sketch {ds : List Decl} {ts : List Tree}
    (h : ts.map Tree.sketch = ds.flatMap Decl.trees) :
    ∃ ds' : List Decl, ts = ds'.flatMap Decl.trees ∧ ds'.map Decl.sketch = ds := by
  induction ds generalizing ts with
  | nil =>
    obtain rfl : ts = [] := by simpa using h
    exact ⟨[], rfl, rfl⟩
  | cons d ds ih =>
    rw [List.flatMap_cons] at h
    obtain ⟨ts, more, rfl, hts, hmore⟩ := List.map_eq_append_iff.1 h
    obtain ⟨d', rfl, rfl⟩ := exists_decl_of_sketch hts
    obtain ⟨ds', rfl, rfl⟩ := ih hmore
    exact ⟨d' :: ds', rfl, rfl⟩

/-- **What the sketches of trees declare** are the sketches of what the trees declare. -/
theorem splitDecls_sketch (trees : List Tree) :
    view id (splitDecls (trees.map Tree.sketch)) = view (List.map Decl.sketch) (splitDecls trees) := by
  cases htrees : splitDecls trees with
  | ok ds =>
    rw [splitDecls_map (Tree.isOperator_sketch .semi) Decl.trees_sketch htrees]
    rfl
  | error e =>
    cases hsketch : splitDecls (trees.map Tree.sketch) with
    | error e' => rfl
    | ok ds =>
      -- trees whose sketches are split can be split themselves
      obtain ⟨hds, hstands⟩ := splitDecls_eq_ok_iff.1 hsketch
      obtain ⟨ds', rfl, rfl⟩ := exists_decls_of_sketch hds
      have hsplit := splitDecls_eq_ok_iff.2
        ⟨rfl, fun d hd => Decl.stands_sketch.1 (List.forall_mem_map.1 hstands d hd)⟩
      rw [hsplit] at htrees
      cases htrees

/-! ### Files -/

/-- What is known of a file without places and bodies. -/
structure Outline where
  package : String
  /-- The names and paths of the imports. -/
  imports : List (Option String × String)
  declarations : List String
  definesMain : Bool
  /-- The name and the context of each test, and whether it is a suite entry. -/
  tests : List (String × String × Bool)
  deriving DecidableEq, Repr

/-- The outline of a file. -/
def FileParts.outline (f : FileParts) : Outline where
  package := f.package
  imports := f.imports.map ImportSpec.outline
  declarations := f.declarations
  definesMain := f.definesMain
  tests := f.tests.map TestFunction.outline

theorem localName?_congr {a b : ImportSpec} (h : a.outline = b.outline) :
    a.localName? = b.localName? := by
  simp only [ImportSpec.outline, Prod.mk.injEq] at h
  rw [ImportSpec.localName?, ImportSpec.localName?, h.1, h.2]

/-- The local names of the imports of a path are seen in their outlines. -/
theorem localNames_congr {as bs : List ImportSpec}
    (h : as.map ImportSpec.outline = bs.map ImportSpec.outline) (path : String) :
    (as.filter (·.path == path)).filterMap ImportSpec.localName? =
      (bs.filter (·.path == path)).filterMap ImportSpec.localName? := by
  induction as generalizing bs with
  | nil =>
    obtain rfl : bs = [] := by simpa using h.symm
    rfl
  | cons a as ih =>
    cases bs with
    | nil => simp at h
    | cons b bs =>
      obtain ⟨hab, h⟩ := List.cons.inj h
      have hpath : a.path = b.path := (Prod.mk.inj hab).2
      rw [List.filter_cons, List.filter_cons, hpath]
      split
      · rw [List.filterMap_cons, List.filterMap_cons, localName?_congr hab, ih h]
      · exact ih h

theorem testingNames_congr {as bs : List ImportSpec}
    (h : as.map ImportSpec.outline = bs.map ImportSpec.outline) :
    testingNames as = testingNames bs := by
  rw [testingNames, localNames_congr h, testingNames]

theorem isImport_sketch (ds : List Decl) :
    (ds.map Decl.sketch).takeWhile Decl.isImport = (ds.takeWhile Decl.isImport).map Decl.sketch ∧
      (ds.map Decl.sketch).dropWhile Decl.isImport =
        (ds.dropWhile Decl.isImport).map Decl.sketch := by
  have h : Decl.isImport ∘ Decl.sketch = Decl.isImport := by
    funext d
    exact isKeyword_sketch ..
  rw [List.takeWhile_map, List.dropWhile_map, h]
  exact ⟨rfl, rfl⟩

/-- **The outline of a file** is that of the sketches of its declarations. -/
theorem ofDecls_sketch (ds : List Decl) :
    view FileParts.outline (FileParts.ofDecls (ds.map Decl.sketch)) =
      view FileParts.outline (FileParts.ofDecls ds) := by
  cases ds with
  | nil => rfl
  | cons clause ds =>
    obtain ⟨htake, hdrop⟩ := isImport_sketch ds
    unfold Decl.isImport at htake hdrop
    simp only [List.map_cons, FileParts.ofDecls, htake, hdrop]
    refine view_bind (packageClause_sketch clause) ?_
    rintro ⟨package, anchor⟩ ⟨package', anchor'⟩ hp
    obtain rfl : package = package' := hp
    have hspecs : ∀ d : Decl, view (List.map ImportSpec.outline) (importSpecs d.sketch.tail) =
        view (List.map ImportSpec.outline) (importSpecs d.tail) := fun d => importSpecs_sketch d.tail
    refine view_bind (view_mapM hspecs _) fun specs specs' hs => ?_
    -- the items are read with the names that the imports give
    have himports : specs.flatten.map ImportSpec.outline =
        specs'.flatten.map ImportSpec.outline := by
      rw [List.map_flatten, List.map_flatten, hs]
    rw [testingNames_congr himports]
    refine view_bind (view_mapM (item_sketch _) _) fun its its' hi => ?_
    have hnames : ∀ its : List Item,
        its.flatMap (·.names) = (its.map Item.outline).flatMap (·.1) := by
      intro its
      rw [List.flatMap_map]
      rfl
    have htests : ∀ its : List Item, (its.filterMap (·.test)).map TestFunction.outline =
        (its.map Item.outline).filterMap (·.2.1) := by
      intro its
      rw [List.map_filterMap, List.filterMap_map]
      rfl
    have hmain : ∀ its : List Item, its.any (·.isMain) = (its.map Item.outline).any (·.2.2) := by
      intro its
      rw [List.any_map]
      rfl
    simp [pure, Except.pure, FileParts.outline, hnames, htests, hmain, hi, himports]

end TestWeave.Source
