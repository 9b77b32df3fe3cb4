import TestWeave.Proofs.Sketch

/-!
# Sources on other lines

What a source declares is read from its tokens. If these stand one line lower, and all of them the same
number of bytes further on, then so does all that is read from them, and nothing else is changed.

* `Shift`: how the places of a source are moved; `FileParts.lowered`: what becomes of its parts.
* `build_lowered`, `calls_lowered`, `functionDecl_lowered`, `importSpecs_lowered`: each step of reading
  a source.
* `ofTokens_lowered`: the parts of a source that stands one line lower.
-/

namespace TestWeave.Source

/-! ### Moved places -/

/-- How the places of a source are moved, besides one line downwards: by a number of bytes, and on the
first line by a number of columns to the left. -/
structure Shift where
  bytes : Nat
  columns : Nat

section

variable (m : Shift)

/-- A position, one line lower. -/
def Position.lowered (p : Position) : Position :=
  ⟨p.line + 1, if p.line = 1 then p.column - m.columns else p.column⟩

/-- A stretch, one line lower. -/
def Span.lowered (s : Span) : Span :=
  ⟨s.start + m.bytes, s.stop + m.bytes, (s.position.lowered m).line, (s.position.lowered m).column⟩

/-- A token, one line lower. -/
def Token.lowered (t : Token) : Token := ⟨t.kind, t.span.lowered m⟩

mutual

/-- A tree, one line lower. -/
def Tree.lowered : Tree → Tree
  | .leaf token => .leaf (token.lowered m)
  | .group delim opening closing trees =>
    .group delim (opening.lowered m) (closing.lowered m) (loweredAll trees)

/-- A list of trees, one line lower. -/
def Tree.loweredAll : List Tree → List Tree
  | [] => []
  | t :: ts => Tree.lowered t :: loweredAll ts

end

/-- A group, one line lower. -/
def Group.lowered (g : Group) : Group :=
  ⟨g.opening.lowered m, g.closing.lowered m, g.trees.map (Tree.lowered m)⟩

/-- A group that is open, one line lower. -/
def Tree.Frame.lowered (frame : Tree.Frame) : Tree.Frame :=
  ⟨frame.delim, frame.opening.lowered m, frame.before.map (Tree.lowered m)⟩

/-- A declaration, one line lower. -/
def Decl.lowered (d : Decl) : Decl :=
  ⟨d.head.lowered m, d.tail.map (Tree.lowered m), d.terminator.lowered m⟩

/-- An import, one line lower. -/
def ImportSpec.lowered (spec : ImportSpec) : ImportSpec :=
  { spec with position := spec.position.lowered m }

/-- The place for imports, one line lower. -/
def ImportAnchor.lowered (anchor : ImportAnchor) : ImportAnchor :=
  { anchor with offset := anchor.offset + m.bytes }

/-- A function, one line lower. -/
def FunctionDecl.lowered (f : FunctionDecl) : FunctionDecl :=
  { f with
    keyword := f.keyword.lowered m
    params := f.params.map (Tree.lowered m)
    body := f.body.map (Group.lowered m) }

/-- A call, one line lower. -/
def CallSite.lowered (call : CallSite) : CallSite :=
  { call with
    callee := call.callee.lowered m
    openParen := call.openParen.lowered m
    closeParen := call.closeParen.lowered m
    args := call.args.map (Span.lowered m) }

/-- A test, one line lower. -/
def TestFunction.lowered (test : TestFunction) : TestFunction :=
  { test with
    start := test.start.lowered m
    stop := test.stop.lowered m
    subtests := test.subtests.map (CallSite.lowered m) }

/-- An entry point, one line lower. -/
def DriverEntry.lowered (driver : DriverEntry) : DriverEntry :=
  { driver with runCall := driver.runCall.lowered m }

/-- What a declaration adds to the parts of a file, one line lower. -/
def Item.lowered (it : Item) : Item :=
  { it with
    test := it.test.map (TestFunction.lowered m)
    driver := it.driver.map (DriverEntry.lowered m) }

/-- The parts of a file, one line lower: the same but for their places. -/
def FileParts.lowered (parts : FileParts) : FileParts :=
  { parts with
    imports := parts.imports.map (ImportSpec.lowered m)
    anchor := parts.anchor.lowered m
    tests := parts.tests.map (TestFunction.lowered m)
    driver := parts.driver.map (DriverEntry.lowered m) }

end

variable {m : Shift}

/-! ### Trees -/

@[simp] theorem isEmpty_lowered (s : Span) : (s.lowered m).isEmpty = s.isEmpty := by
  simp [Span.isEmpty, Span.lowered]

theorem through_lowered (s t : Span) :
    (s.through t).lowered m = (s.lowered m).through (t.lowered m) := rfl

namespace Tree

@[simp] theorem loweredAll_eq_map (ts : List Tree) : loweredAll m ts = ts.map (lowered m) := by
  induction ts with
  | nil => simp [loweredAll]
  | cons t ts ih => simp [loweredAll, ih]

@[simp] theorem lowered_leaf (token : Token) : (leaf token).lowered m = .leaf (token.lowered m) := by
  simp [lowered]

@[simp] theorem lowered_group (delim : Delimiter) (opening closing : Span) (trees : List Tree) :
    (group delim opening closing trees).lowered m =
      .group delim (opening.lowered m) (closing.lowered m) (trees.map (lowered m)) := by
  simp [lowered]

@[simp] theorem span_lowered (t : Tree) : (t.lowered m).span = t.span.lowered m := by
  cases t <;> simp [span, Token.lowered, through_lowered]

@[simp] theorem ident?_lowered (t : Tree) : (t.lowered m).ident? = t.ident? := by
  cases t with
  | leaf token =>
    rcases token with ⟨kind, span⟩
    cases kind <;> simp [ident?, Token.lowered]
  | group => simp [ident?]

@[simp] theorem isIdent_lowered (name : String) (t : Tree) :
    (t.lowered m).isIdent name = t.isIdent name := by
  rw [isIdent, ident?_lowered, isIdent]

@[simp] theorem isOperator_lowered (op : Operator) (t : Tree) :
    (t.lowered m).isOperator op = t.isOperator op := by
  cases t with
  | leaf token =>
    rcases token with ⟨kind, span⟩
    cases kind <;> simp [isOperator, Token.lowered]
  | group => simp [isOperator]

@[simp] theorem isKeyword_lowered (word : Keyword) (t : Tree) :
    (t.lowered m).isKeyword word = t.isKeyword word := by
  cases t with
  | leaf token =>
    rcases token with ⟨kind, span⟩
    cases kind <;> simp [isKeyword, Token.lowered]
  | group => simp [isKeyword]

@[simp] theorem group?_lowered (delim : Delimiter) (t : Tree) :
    (t.lowered m).group? delim = (t.group? delim).map (Group.lowered m) := by
  cases t with
  | leaf token => simp [group?]
  | group d opening closing trees =>
    rw [lowered_group, group?, group?]
    split <;> rfl

mutual

theorem sketch_lowered (t : Tree) : (t.lowered m).sketch = t.sketch := by
  match t with
  | .leaf token => simp [Token.lowered]
  | .group delim opening closing trees =>
    rw [lowered_group, sketch_group, sketch_group, sketch_map_lowered]

/-- Sketches do not show where trees stand. -/
theorem sketch_map_lowered (ts : List Tree) : (ts.map (lowered m)).map sketch = ts.map sketch := by
  match ts with
  | [] => rfl
  | t :: ts =>
    rw [List.map_cons, List.map_cons, List.map_cons, sketch_lowered t, sketch_map_lowered ts]

end

theorem splitOn_lowered (op : Operator) (ts : List Tree) :
    splitOn op (ts.map (lowered m)) = (splitOn op ts).map (List.map (lowered m)) :=
  splitWhere_map (lowered m) (isOperator_lowered op) ts

/-- Where a token is read, a token one line lower is read likewise. -/
theorem Grows.lowered {done done' : List Tree} {frames frames' : List Frame} {token : Token}
    (h : Grows done frames token done' frames') :
    Grows (done.map (Tree.lowered m)) (frames.map (Frame.lowered m)) (token.lowered m)
      (done'.map (Tree.lowered m)) (frames'.map (Frame.lowered m)) := by
  cases h with
  | leaf hp =>
    rw [List.map_cons, lowered_leaf]
    exact .leaf hp
  | opening => exact .opening
  | @closing frame frames span =>
    rw [List.map_cons, List.map_cons, lowered_group, List.map_reverse]
    exact @Grows.closing _ (frame.lowered m) _ _

theorem grow_lowered {done trees : List Tree} {frames : List Frame} {tokens : List Token}
    (h : grow done frames tokens = .ok trees) :
    grow (done.map (lowered m)) (frames.map (Frame.lowered m)) (tokens.map (Token.lowered m)) =
      .ok (trees.map (lowered m)) := by
  induction tokens generalizing done frames with
  | nil =>
    obtain ⟨rfl, rfl⟩ := finish_eq_ok h
    rw [List.map_reverse]
    rfl
  | cons token tokens ih =>
    rw [List.map_cons]
    rcases grow_cons_ok h with ⟨heof, rfl, rfl⟩ | ⟨done', frames', hg, h⟩
    · have heof : (token.lowered m).kind = .eof := heof
      rw [grow_cons, if_pos heof, List.map_reverse]
      rfl
    · rw [hg.lowered.grow_cons]
      exact ih h

/-- **Trees** stand where their tokens stand. -/
theorem build_lowered {tokens : List Token} {trees : List Tree} (h : build tokens = .ok trees) :
    build (tokens.map (Token.lowered m)) = .ok (trees.map (lowered m)) := grow_lowered h

end Tree

open Source.Tree

/-! ### Calls -/

theorem spanOf?_lowered (ts : List Tree) :
    spanOf? (ts.map (lowered m)) = (spanOf? ts).map (Span.lowered m) := by
  cases ts with
  | nil => rfl
  | cons t ts =>
    rw [List.map_cons, spanOf?, spanOf?, List.getLast?_map]
    cases ts.getLast? <;> simp [through_lowered]

theorem callAt_lowered (receiver method : String) (ts : List Tree) :
    callAt receiver method (ts.map (lowered m)) =
      (callAt receiver method ts).map (CallSite.lowered m) := by
  match ts with
  | [] | [_] | [_, _] | [_, _, _] => rfl
  | recv :: dot :: name :: args :: rest =>
    simp only [List.map_cons, callAt, group?_lowered, isIdent_lowered, isOperator_lowered,
      span_lowered]
    cases args.group? .paren with
    | none => rfl
    | some g =>
      simp only [Option.map_some]
      split
      · simp [CallSite.lowered, Group.lowered, through_lowered, splitOn_lowered, List.filterMap_map,
          List.map_filterMap, spanOf?_lowered]
      · rfl

mutual

theorem callsWithin_lowered (receiver method : String) (t : Tree) :
    callsWithin receiver method (t.lowered m) =
      (callsWithin receiver method t).map (CallSite.lowered m) := by
  match t with
  | .leaf token => simp [callsWithin]
  | .group delim opening closing trees =>
    rw [lowered_group, callsWithin, callsWithin, callsFrom_lowered]

theorem callsFrom_lowered (receiver method : String) (selected : Bool) (ts : List Tree) :
    callsFrom receiver method selected (ts.map (lowered m)) =
      (callsFrom receiver method selected ts).map (CallSite.lowered m) := by
  match ts with
  | [] => rfl
  | t :: ts =>
    have hhere := callAt_lowered (m := m) receiver method (t :: ts)
    rw [List.map_cons] at hhere ⊢
    rw [callsFrom, callsFrom, hhere, callsWithin_lowered receiver method t, isOperator_lowered,
      callsFrom_lowered receiver method _ ts, List.map_append, List.map_append]
    cases selected
    · cases callAt receiver method (t :: ts) <;> rfl
    · rfl

end

/-- **Calls** stand where their trees stand. -/
theorem calls_lowered (receiver method : String) (ts : List Tree) :
    calls receiver method (ts.map (lowered m)) =
      (calls receiver method ts).map (CallSite.lowered m) :=
  callsFrom_lowered receiver method false ts

theorem bindingAt_lowered (testing : List String) (ts : List Tree) :
    bindingAt testing (ts.map (lowered m)) = bindingAt testing ts := by
  match ts with
  | [] | [_] | [_, _] | [_, _, _] | [_, _, _, _] => rfl
  | var :: define :: package :: dot :: function :: rest => simp [bindingAt]

mutual

theorem bindingWithin?_lowered (testing : List String) (t : Tree) :
    bindingWithin? testing (t.lowered m) = bindingWithin? testing t := by
  match t with
  | .leaf token => simp [bindingWithin?]
  | .group delim opening closing trees =>
    rw [lowered_group, bindingWithin?, bindingWithin?, driverBinding?_lowered]

theorem driverBinding?_lowered (testing : List String) (ts : List Tree) :
    driverBinding? testing (ts.map (lowered m)) = driverBinding? testing ts := by
  match ts with
  | [] => rfl
  | t :: ts =>
    have hhere := bindingAt_lowered (m := m) testing (t :: ts)
    rw [List.map_cons] at hhere ⊢
    rw [driverBinding?, driverBinding?, hhere, bindingWithin?_lowered testing t,
      driverBinding?_lowered testing ts]

end

/-! ### Functions -/

theorem params_lowered (ts : List Tree) : params (ts.map (lowered m)) = params ts := by
  rw [← params_sketch, sketch_map_lowered, params_sketch]

theorem declaredNames_lowered (ts : List Tree) :
    declaredNames (ts.map (lowered m)) = declaredNames ts := by
  rw [← declaredNames_sketch, sketch_map_lowered, declaredNames_sketch]

theorem functionBody_lowered {ts : List Tree} {body : Option Group}
    (h : functionBody ts = .ok body) :
    functionBody (ts.map (lowered m)) = .ok (body.map (Group.lowered m)) := by
  fun_induction functionBody ts with
  | case1 =>
    obtain rfl := Except.ok.inj h
    rfl
  | case2 t ht u us hu ih =>
    rw [List.map_cons, List.map_cons, functionBody]
    simpa [ht, hu] using ih h
  | case3 t ht u us hu ih =>
    rw [List.map_cons, List.map_cons, functionBody]
    simpa [ht, hu] using ih h
  | case4 t ht =>
    obtain rfl := Except.ok.inj h
    simp [functionBody, ht]
  | case5 t ts ht hg ih =>
    rw [List.map_cons, functionBody.eq_def]
    simpa [ht, hg] using ih h
  | case6 t ht g hg =>
    obtain rfl := Except.ok.inj h
    simp [functionBody, ht, hg]
  | case7 => cases h

theorem skipGroup_lowered {delim : Delimiter} {ts rest : List Tree} {found : Bool}
    (h : skipGroup delim ts = (found, rest)) :
    skipGroup delim (ts.map (lowered m)) = (found, rest.map (lowered m)) := by
  cases ts with
  | nil =>
    obtain ⟨rfl, rfl⟩ := Prod.mk.inj h
    rfl
  | cons t ts =>
    simp only [List.map_cons, skipGroup, group?_lowered, Option.isSome_map] at h ⊢
    split at h
    all_goals
      obtain ⟨rfl, rfl⟩ := Prod.mk.inj h
      simp [*]

/-- **Functions** stand where their trees stand. -/
theorem functionDecl_lowered {keyword : Span} {ts : List Tree} {f : FunctionDecl}
    (h : functionDecl keyword ts = .ok f) :
    functionDecl (keyword.lowered m) (ts.map (lowered m)) = .ok (f.lowered m) := by
  obtain @⟨_, _, t, u, _, _, name, g, _, hreceiver, hname, htypes, hparams, hbody⟩ :=
    functionDecl_eq_ok_iff.1 h
  have hname : (t.lowered m).ident? = some name := by rwa [ident?_lowered]
  have hparams : (u.lowered m).group? .paren = some (g.lowered m) := by
    rw [group?_lowered, hparams]
    rfl
  exact functionDecl_eq_ok_iff.2 (.intro (skipGroup_lowered hreceiver) hname
    (skipGroup_lowered htypes) hparams (functionBody_lowered hbody))

theorem testFunction?_lowered (testing : List String) (f : FunctionDecl) :
    testFunction? testing (f.lowered m) =
      (testFunction? testing f).map (TestFunction.lowered m) := by
  simp only [testFunction?, FunctionDecl.lowered, params_lowered]
  split
  · cases f.body with
    | none => rfl
    | some body =>
      cases contextParam? testing (params f.params) with
      | none => rfl
      | some context =>
        obtain ⟨name, isSuite⟩ := context
        simp only [Option.map_some, TestFunction.lowered, Group.lowered, calls_lowered]
        rfl
  · rfl

theorem driverEntry?_lowered (testing : List String) (f : FunctionDecl) :
    driverEntry? testing (f.lowered m) = ( driverEntry? testing f).map (DriverEntry.lowered m) := by
  unfold driverEntry?
  rw [FunctionDecl.lowered]
  cases f.body with
  | none => rfl
  | some body =>
    simp only [Option.map_some, Group.lowered, driverBinding?_lowered, calls_lowered, List.head?_map,
      Option.map_map]
    rfl

/-! ### Imports -/

theorem importPath_lowered {t : Tree} {path : String} (h : importPath t = .ok path) :
    importPath (t.lowered m) = .ok path := by
  obtain ⟨text, span, rfl, hpath⟩ := importPath_eq_ok_iff.1 h
  exact importPath_eq_ok_iff.2 ⟨text, span.lowered m, by rw [lowered_leaf, Token.lowered], hpath⟩

theorem importName_lowered {t : Tree} {name : String} (h : importName t = .ok name) :
    importName (t.lowered m) = .ok name := by
  rw [importName_eq_ok_iff] at h ⊢
  rwa [isOperator_lowered, ident?_lowered]

theorem importSpec_lowered {ts : List Tree} {spec : ImportSpec} (h : SpecOf ts spec) :
    SpecOf (ts.map (lowered m)) (spec.lowered m) := by
  cases h with
  | @bare t path hpath =>
    have := SpecOf.bare (importPath_lowered (m := m) hpath)
    rwa [span_lowered] at this
  | @named n t name path hname hpath =>
    have := SpecOf.named (importName_lowered (m := m) hname) (importPath_lowered (m := m) hpath)
    rwa [span_lowered] at this

/-- **Imports** stand where their trees stand. -/
theorem importSpecs_lowered {ts : List Tree} {specs : List ImportSpec}
    (h : importSpecs ts = .ok specs) :
    importSpecs (ts.map (lowered m)) = .ok (specs.map (ImportSpec.lowered m)) := by
  refine importSpecs_eq_ok_iff.2 ?_
  cases importSpecs_eq_ok_iff.1 h with
  | @listed t g specs hg hspecs =>
    have hfilter : (splitOn .semi (g.trees.map (lowered m))).filter (!·.isEmpty) =
        ((splitOn .semi g.trees).filter (!·.isEmpty)).map (List.map (lowered m)) := by
      rw [splitOn_lowered, List.filter_map]
      congr 2
      funext segment
      cases segment <;> rfl
    refine .listed (by rw [group?_lowered, hg]; rfl) ?_
    simp only [Group.lowered, hfilter]
    exact mapM_moved (fun _ _ h => importSpec_eq_ok_iff.2
      (importSpec_lowered (importSpec_eq_ok_iff.1 h))) hspecs
  | @alone ts spec hgroup hspec =>
    refine .alone ?_ (importSpec_lowered hspec)
    intro t ht
    obtain ⟨u, rfl, rfl⟩ := List.map_eq_singleton_iff.1 ht
    rw [group?_lowered, hgroup u rfl]
    rfl

/-! ### Declarations -/

theorem splitDecls_lowered {trees : List Tree} {decls : List Decl}
    (h : splitDecls trees = .ok decls) :
    splitDecls (trees.map (lowered m)) = .ok (decls.map (Decl.lowered m)) :=
  splitDecls_map (isOperator_lowered .semi) (fun d => by simp [Decl.trees, Decl.lowered]) h

theorem packageClause_lowered {d : Decl} {package : String} {anchor : ImportAnchor}
    (h : packageClause d = .ok (package, anchor)) :
    packageClause (d.lowered m) = .ok (package, anchor.lowered m) := by
  obtain ⟨s1, s2, hhead, htail, rfl⟩ := packageClause_eq_ok_iff.1 h
  refine packageClause_eq_ok_iff.2 ⟨s1.lowered m, s2.lowered m, ?_, ?_, ?_⟩
  · rw [Decl.lowered, hhead, lowered_leaf, Token.lowered]
  · rw [Decl.lowered, htail, List.map_singleton, lowered_leaf, Token.lowered]
  · simp only [Decl.lowered, Token.lowered, isEmpty_lowered]
    split <;> rfl

/-- **A declaration** is read one line lower. -/
theorem item_lowered {testing : List String} {d : Decl} {it : Item}
    (h : item testing d = .ok it) : item testing (d.lowered m) = .ok (it.lowered m) := by
  cases item_eq_ok_iff.1 h with
  | @function f hk hf =>
    have hitem : (f.lowered m).item testing = (f.item testing).lowered m := by
      simp only [FunctionDecl.item, FunctionDecl.driver?, Item.lowered, testFunction?_lowered,
        driverEntry?_lowered, apply_ite (Option.map (DriverEntry.lowered m))]
      rfl
    rw [← hitem]
    refine item_eq_ok_iff.2 (.function ?_ ?_)
    · rw [Decl.lowered, isKeyword_lowered, hk]
    · rw [Decl.lowered, span_lowered]
      exact functionDecl_lowered hf
  | binding hbinder hk hne =>
    have hnames : declaredNames (d.lowered m).tail = declaredNames d.tail := by
      rw [Decl.lowered, declaredNames_lowered]
    rw [Item.lowered, ← hnames]
    refine item_eq_ok_iff.2 (.binding hbinder ?_ (by simpa [Decl.lowered] using hne))
    rw [Decl.lowered, isKeyword_lowered, hk]

theorem outline_lowered (specs : List ImportSpec) :
    (specs.map (ImportSpec.lowered m)).map ImportSpec.outline = specs.map ImportSpec.outline := by
  rw [List.map_map]
  rfl

theorem isImport_lowered (ds : List Decl) :
    (ds.map (Decl.lowered m)).takeWhile Decl.isImport =
        (ds.takeWhile Decl.isImport).map (Decl.lowered m) ∧
      (ds.map (Decl.lowered m)).dropWhile Decl.isImport =
        (ds.dropWhile Decl.isImport).map (Decl.lowered m) := by
  have h : Decl.isImport ∘ Decl.lowered m = Decl.isImport := by
    funext d
    exact isKeyword_lowered ..
  rw [List.takeWhile_map, List.dropWhile_map, h]
  exact ⟨rfl, rfl⟩

/-- **The parts of a file** stand where its declarations stand. -/
theorem PartsOf.lowered {clause : Decl} {decls : List Decl} {parts : FileParts}
    {specs : List (List ImportSpec)} {its : List Item} (h : PartsOf clause decls parts specs its) :
    PartsOf (clause.lowered m) (decls.map (Decl.lowered m)) (parts.lowered m)
      (specs.map (List.map (ImportSpec.lowered m))) (its.map (Item.lowered m)) := by
  obtain ⟨htake, hdrop⟩ := isImport_lowered (m := m) decls
  have htesting : testingNames (parts.lowered m).imports = testingNames parts.imports :=
    testingNames_congr (outline_lowered _)
  refine ⟨packageClause_lowered h.clause_eq, ?_, ?_, ?_, ?_, ?_, ?_, ?_⟩
  · have himports : ∀ (d : Decl) specs, importSpecs d.tail = .ok specs →
        importSpecs (d.lowered m).tail = .ok (specs.map (ImportSpec.lowered m)) :=
      fun _ _ => importSpecs_lowered
    rw [htake]
    exact mapM_moved himports h.specs_eq
  · rw [← List.map_flatten, ← h.imports_eq]
    rfl
  · rw [hdrop, htesting]
    exact mapM_moved (fun _ _ => item_lowered) h.its_eq
  · rw [List.filterMap_map, FileParts.lowered, h.tests_eq, List.map_filterMap]
    rfl
  · rw [List.findSome?_map, FileParts.lowered, h.driver_eq, List.map_findSome?]
    rfl
  · rw [List.any_map]
    exact h.definesMain_eq
  · rw [List.flatMap_map]
    exact h.declarations_eq

/-- **A source one line lower** has the same parts, one line lower. -/
theorem ofTokens_lowered {tokens : List Token} {parts : FileParts}
    (h : FileParts.ofTokens tokens = .ok parts) :
    FileParts.ofTokens (tokens.map (Token.lowered m)) = .ok (parts.lowered m) := by
  obtain ⟨trees, hbuild, h⟩ := bind_eq_ok h
  obtain ⟨decls, hsplit, h⟩ := bind_eq_ok h
  obtain ⟨clause, rest, specs, its, rfl, hparts⟩ := ofDecls_eq_ok h
  have hsplit' : splitDecls (trees.map (lowered m)) = .ok ((clause :: rest).map (Decl.lowered m)) :=
    splitDecls_lowered hsplit
  simp only [FileParts.ofTokens, build_lowered hbuild, hsplit', bind, Except.bind]
  exact hparts.lowered.ofDecls

end TestWeave.Source
