import TestWeave.Proofs.Nesting
import TestWeave.Proofs.Remaining
import TestWeave.Proofs.Watched

/-!
# The calls that are left in a file

The declarations of a changed source are those of the source, with redirected calls in the bodies of
functions, behind the imports that are added. So the calls that instrumentation still looks at can
be counted: function by function, declaration by declaration, and for the whole file.

* `count_function`, `count_decl`, `count_decls`: the calls that are left in a function and in
  declarations.
* `exists_changed`: the calls that are left in a changed source.
-/

namespace TestWeave.Source

open TestWeave.Text TestWeave.Change

variable {q : String} {selected : Bool} {testing : List String} {sites : List (CallSite × String)}

/-! ### Functions -/

/-- The calls on one receiver depend on the outline of a function and the driver that it binds. -/
theorem receiver?_congr {f f' : FunctionDecl} {trees trees' : List Tree}
    (ho : f'.outline = f.outline)
    (hb : driverBinding? testing trees' = driverBinding? testing trees) :
    f'.receiver? testing trees' = f.receiver? testing trees := by
  simp only [FunctionDecl.outline, Prod.mk.injEq] at ho
  obtain ⟨hname, hreceiver, hparams, -⟩ := ho
  rw [FunctionDecl.receiver?, FunctionDecl.receiver?, FunctionDecl.isMain, FunctionDecl.isMain,
    hname, hreceiver, hparams, hb]

/-- **The calls that are left in a function** whose redirected calls are among those that
instrumentation looks at. -/
theorem count_function {f f' : FunctionDecl} {g g' : Group} (hq : textKinds q.toList ≠ [])
    (ho : f'.outline = f.outline) (hg : f.body = some g) (hg' : f'.body = some g')
    (h : Replanted q [.brace] false g.trees g'.trees sites)
    (hw : ∀ s ∈ sites, s.1 ∈ f.watched testing) (hs : Startless q sites) :
    (f'.watched testing).length + sites.length =
      (f.watched testing).length + (sites.filter (recalls q)).length := by
  have hb : driverBinding? testing g'.trees = driverBinding? testing g.trees :=
    h.driverBinding hq hs
  have hr := receiver?_congr ho hb
  have hreceiver : ∀ s ∈ sites, f.receiver? testing g.trees = some s.1.receiver := fun s hm =>
    (located_of_mem_watched hg (hw s hm)).1
  rw [watched_eq hg, watched_eq hg', hr]
  cases hf : f.receiver? testing g.trees with
  -- without a receiver nothing is watched, so nothing was redirected
  | none =>
    have hnil : sites = [] := List.eq_nil_iff_forall_not_mem.2 fun s hm => by
      have := hreceiver s hm
      rw [hf] at this
      cases this
    rw [hnil]
    rfl
  | some receiver =>
    refine h.count hq fun s hm => ?_
    have := hreceiver s hm
    rw [hf] at this
    exact (Option.some.inj this).symm

/-! ### Declarations -/

/-- The outline of a function is seen in the sketch of its declaration. -/
theorem function?_outline {d d' : Decl} (h : d'.sketch = d.sketch) :
    d'.function?.map FunctionDecl.outline = d.function?.map FunctionDecl.outline := by
  have hone : ∀ d : Decl, d.sketch.function?.map FunctionDecl.outline =
      d.function?.map FunctionDecl.outline := by
    intro d
    unfold Decl.function?
    rw [Decl.sketch, Tree.isKeyword_sketch]
    split
    · exact functionDecl_sketch ..
    · rfl
  rw [← hone d', h, hone]

/-- The body of the function that a declaration declares. -/
def Decl.body? (d : Decl) : Option Group := d.function?.bind (·.body)

theorem isSome_body? {d d' : Decl} (h : d'.sketch = d.sketch) :
    d'.body?.isSome = d.body?.isSome := by
  have ho := function?_outline h
  unfold Decl.body?
  cases hf : d.function? with
  | none =>
    rw [hf] at ho
    rw [Option.map_eq_none_iff.1 ho]
  | some f =>
    rw [hf] at ho
    obtain ⟨f', hf', ho⟩ := Option.map_eq_some_iff.1 ho
    rw [hf']
    exact congrArg (fun o => o.2.2.2) ho

theorem watched_of_bodiless {d : Decl} (h : d.body? = none) : d.watched testing = [] := by
  unfold Decl.body? at h
  unfold Decl.watched
  cases hf : d.function? with
  | none => rfl
  | some f =>
    rw [hf] at h
    simp [watched_of_no_body h]

/-- The trees of a function with a body: the body stands in front of the terminator. -/
theorem trees_of_body? {d : Decl} {g : Group} (h : d.body? = some g) : ∃ f before,
    d.function? = some f ∧ f.body = some g ∧
      d.trees = before ++ [.group .brace g.opening g.closing g.trees, .leaf d.terminator] := by
  obtain ⟨f, hf, hg⟩ := Option.bind_eq_some_iff.1 h
  obtain ⟨-, hfunction⟩ := function?_eq_some hf
  obtain ⟨before, hbefore⟩ := body_of_functionDecl hfunction hg
  exact ⟨f, d.head :: before, hf, hg, by simp [Decl.trees, hbefore]⟩

theorem watched_of_function? {d : Decl} {f : FunctionDecl} (h : d.function? = some f) :
    d.watched testing = f.watched testing := by
  rw [Decl.watched, h]
  simp

/-- Where all redirected calls stand in a body, they are those of the body. -/
theorem Replanted.body_inv {before before' us us' : List Tree} {o c o' c' : Span}
    {last last' : Token} (h : Replanted q [] selected
      (before ++ [.group .brace o c us, .leaf last]) (before' ++ [.group .brace o' c' us', .leaf last'])
      sites)
    (hfront : ∀ s ∈ sites, ¬ s.1.BeginsIn (Tree.flattenAll before)) :
    Replanted q [.brace] false us us' sites := by
  obtain ⟨front, back, sites₁, sites₂, _, hsplit, hbefore, hback, rfl⟩ :=
    h.append_inv List.not_mem_nil
  have hnil : sites₁ = [] := List.eq_nil_iff_forall_not_mem.2 fun s hm =>
    hfront s (List.mem_append_left _ hm) (hbefore.located s hm)
  subst hnil
  cases hback with
  | group hin hrest =>
  cases hrest with
  | leaf _ hrest =>
  generalize (last.kind == .operator .dot) = selected at hrest
  cases hrest
  obtain ⟨-, hbody⟩ := List.append_inj' hsplit rfl
  obtain ⟨hbody, -⟩ := List.cons.inj hbody
  obtain ⟨-, -, -, rfl⟩ := Tree.group.inj hbody
  rwa [List.append_nil, List.nil_append]

/-- **The calls that are left in a declaration.** -/
theorem count_decl {d d' : Decl} (hq : textKinds q.toList ≠ []) (hd : d'.sketch = d.sketch)
    (h : Replanted q [] selected d.trees d'.trees sites)
    (hdistinct : Distinct (Tree.flattenAll d.trees))
    (hw : ∀ s ∈ sites, s.1 ∈ d.watched testing) (hs : Startless q sites) :
    (d'.watched testing).length + sites.length =
      (d.watched testing).length + (sites.filter (recalls q)).length := by
  have hsome := isSome_body? hd
  cases hg : d.body? with
  | none =>
    have hg' : d'.body? = none := by
      rw [hg] at hsome
      exact Option.not_isSome_iff_eq_none.1 (by simp [hsome])
    have hnil : sites = [] := List.eq_nil_iff_forall_not_mem.2 fun s hm => by
      have := hw s hm
      rw [watched_of_bodiless hg] at this
      cases this
    rw [watched_of_bodiless hg, watched_of_bodiless hg', hnil]
    rfl
  | some g =>
    rw [hg] at hsome
    obtain ⟨g', hg'⟩ := Option.isSome_iff_exists.1 hsome
    obtain ⟨f, before, hf, hfg, htrees⟩ := trees_of_body? hg
    obtain ⟨f', before', hf', hfg', htrees'⟩ := trees_of_body? hg'
    have ho : f'.outline = f.outline := by
      have := function?_outline hd
      rw [hf, hf'] at this
      exact Option.some.inj this
    rw [watched_of_function? hf] at hw
    rw [watched_of_function? hf, watched_of_function? hf']
    rw [htrees] at h hdistinct
    rw [htrees'] at h
    refine count_function hq ho hfg hfg' (h.body_inv fun s hm hbefore => ?_) hw hs
    -- a call of the body begins in the body only
    rw [Tree.flattenAll_append] at hdistinct
    obtain ⟨-, hbody⟩ := located_of_mem_watched hfg (hw s hm)
    refine hdistinct.not_beginsIn hbefore (hbody.mono fun t ht => ?_)
    simp [ht]

theorem beginsIn_of_mem_decls {ds : List Decl} {c : CallSite}
    (h : c ∈ ds.flatMap (Decl.watched testing)) :
    c.BeginsIn (Tree.flattenAll (ds.flatMap Decl.trees)) := by
  obtain ⟨d, hd, hc⟩ := List.mem_flatMap.1 h
  obtain ⟨front, back, rfl⟩ := List.append_of_mem hd
  refine (beginsIn_of_mem_watched hc).mono fun t ht => ?_
  simp [Tree.flattenAll_append, ht]

/-- **The calls that are left in declarations.** -/
theorem count_decls {ds : List Decl} {ts' : List Tree} (hq : textKinds q.toList ≠ [])
    (h : Replanted q [] selected (ds.flatMap Decl.trees) ts' sites)
    (hd : Distinct (Tree.flattenAll (ds.flatMap Decl.trees)))
    (hw : ∀ s ∈ sites, s.1 ∈ ds.flatMap (Decl.watched testing)) (hs : Startless q sites) :
    ∃ ds' : List Decl, ts' = ds'.flatMap Decl.trees ∧ ds'.map Decl.sketch = ds.map Decl.sketch ∧
      (ds'.flatMap (Decl.watched testing)).length + sites.length =
        (ds.flatMap (Decl.watched testing)).length + (sites.filter (recalls q)).length := by
  induction ds generalizing selected ts' sites with
  | nil =>
    cases h
    exact ⟨[], rfl, rfl, rfl⟩
  | cons d ds ih =>
    rw [List.flatMap_cons] at h hd
    obtain ⟨front', back', sites₁, sites₂, _, rfl, hfront, hback, rfl⟩ :=
      h.append_inv List.not_mem_nil
    rw [Tree.flattenAll_append] at hd
    obtain ⟨hd₁, hd₂, -⟩ := List.pairwise_append.1 hd
    obtain ⟨hw₁, hw₂⟩ := List.forall_mem_append.1 hw
    obtain ⟨hs₁, hs₂⟩ := hs.append
    -- a call stands in the declaration that it was found in
    have hhere : ∀ s ∈ sites₁, s.1 ∈ d.watched testing := fun s hm =>
      (List.mem_append.1 (hw₁ s hm)).resolve_right fun hother =>
        hd.not_beginsIn (hfront.located s hm) (beginsIn_of_mem_decls hother)
    have hlater : ∀ s ∈ sites₂, s.1 ∈ ds.flatMap (Decl.watched testing) := fun s hm =>
      (List.mem_append.1 (hw₂ s hm)).resolve_left fun hother =>
        hd.not_beginsIn (beginsIn_of_mem_watched hother) (hback.located s hm)
    obtain ⟨d', rfl, hsketch⟩ := exists_decl_of_sketch
      ((hfront.sketch List.not_mem_nil).trans d.trees_sketch.symm)
    have hcount := count_decl hq hsketch hfront hd₁ hhere hs₁
    obtain ⟨ds', rfl, hsketches, hcounts⟩ := ih hback hd₂ hlater hs₂
    refine ⟨d' :: ds', rfl, by rw [List.map_cons, List.map_cons, hsketch, hsketches], ?_⟩
    simp only [List.flatMap_cons, List.length_append, List.filter_append]
    omega

/-! ### Files -/

variable {path : Path} {source : String} {file : SourceFile} {sdk : Instrumentation} {head : Head}
  {segs : List Segment}

/-- **The tokens of a source behind its package clause** are those of its declarations. -/
theorem exists_declared (hf : SourceFile.parse path source = .ok file) {keyword name semi : Token}
    {rest : List Token} (hlex : lex source = .ok (keyword :: name :: semi :: rest)) :
    ∃ (ds : List Decl) (last : Token), functionsOf source = ds.filterMap Decl.function? ∧
      last.kind = .eof ∧ rest = Tree.flattenAll (ds.flatMap Decl.trees) ++ [last] ∧
      (∀ t ∈ ds.flatMap Decl.trees, t.Proper) ∧ ∀ d ∈ ds, d.Stands := by
  obtain ⟨-, -, tokens, trees, clause, ds, specs, its, hlex', hbuild, hdecls, hp⟩ := parse_eq_ok hf
  rw [hlex] at hlex'
  obtain rfl := Except.ok.inj hlex'
  obtain ⟨htrees, hstands⟩ := splitDecls_eq_ok_iff.1 hdecls
  have hproper := Tree.proper_of_build hbuild
  have hflat := tokens_of_splitDecls hdecls
  obtain ⟨s₁, s₂, hhead, htail, -⟩ := packageClause_eq_ok_iff.1 hp.clause_eq
  -- the end of the file is the last token
  obtain ⟨hscan, htokens⟩ := lex_eq_ok_iff.1 hlex
  obtain ⟨front, hlast, hne⟩ := exists_last_tokensFrom (row_of_scan hscan) .origin false
  rw [← htokens] at hlast
  have hbuild' := hbuild
  rw [hlast] at hbuild'
  obtain ⟨-, hfront⟩ := (Tree.build_eq_ok_iff rfl hne).1 hbuild'
  rw [hfront] at hflat
  have hclause : clause.tokens = [⟨.keyword .kwPackage, s₁⟩, ⟨.ident file.package, s₂⟩,
      clause.terminator] := by
    simp [Decl.tokens, hhead, htail]
  rw [hflat, List.flatMap_cons, hclause] at hlast
  obtain ⟨-, -, -, hrest⟩ : _ ∧ _ ∧ _ ∧ _ := by simpa using hlast
  refine ⟨ds, _, functionsOf_eq hlex hbuild hdecls, rfl, by rw [flattenAll_decls, hrest],
    fun t ht => hproper t ?_, (List.forall_mem_cons.1 hstands).2⟩
  rw [htrees, List.flatMap_cons]
  exact List.mem_append_right _ ht

/-- **The functions of a source** whose declarations stand behind the package clause and added
imports. -/
theorem functionsOf_added {text package : String} {adds : List (String × String)}
    {front : List Token} {last : Token} {ds : List Decl}
    (hlex : lex text = .ok (front ++ (Tree.flattenAll (ds.flatMap Decl.trees) ++ [last])))
    (hfront : front.map Token.kind = clauseKinds package ++ adds.flatMap importKinds)
    (hlast : last.kind = .eof) (hp : ∀ t ∈ ds.flatMap Decl.trees, t.Proper)
    (hd : ∀ d ∈ ds, d.Stands) : functionsOf text = ds.filterMap Decl.function? := by
  have hleaves : ∀ t ∈ front.map Tree.leaf, t.Proper := by
    intro t ht
    obtain ⟨token, hm, rfl⟩ := List.mem_map.1 ht
    exact .leaf (plain_of_clauseKinds package adds _ (hfront ▸ List.mem_map_of_mem hm))
  have hbuild := Tree.build_flattenAll hlast (List.forall_mem_append.2 ⟨hleaves, hp⟩)
  rw [Tree.flattenAll_append, Tree.flattenAll_map_leaf, List.append_assoc] at hbuild
  -- the package clause and the imports are known by their sketches
  have himports : splitDecls (leaves (clauseKinds package ++ adds.flatMap importKinds)) =
      .ok (clauseDecl package :: adds.map importDecl) := by
    rw [splitDecls_eq_ok_iff, leaves_append, leaves_imports]
    refine ⟨rfl, List.forall_mem_cons.2 ⟨stands_clauseDecl package, fun d hd => ?_⟩⟩
    obtain ⟨a, -, rfl⟩ := List.mem_map.1 hd
    exact stands_importDecl a
  have hview := splitDecls_sketch (front.map Tree.leaf)
  rw [sketch_leaf_map, hfront, himports, view_ok] at hview
  obtain ⟨all, hall, hsketch⟩ := view_eq_some hview.symm
  obtain ⟨clause, imports, rfl, -, hsketch⟩ := List.map_eq_cons_iff.1 hsketch
  have hdecls : splitDecls (front.map Tree.leaf ++ ds.flatMap Decl.trees) =
      .ok (clause :: (imports ++ ds)) := by
    rw [splitDecls_append hall, splitDecls_eq_ok_iff.2 ⟨rfl, hd⟩]
    rfl
  have hnone : imports.filterMap Decl.function? = [] := by
    refine List.filterMap_eq_nil_iff.2 fun d hd => function?_of_isImport ?_
    have hm := List.mem_map_of_mem (f := Decl.sketch) hd
    rw [hsketch] at hm
    obtain ⟨a, -, ha⟩ := List.mem_map.1 hm
    rw [Decl.isImport, ← Tree.isKeyword_sketch]
    exact congrArg (fun d => Tree.isKeyword .kwImport (Decl.head d)) ha.symm
  rw [functionsOf_eq hlex hbuild hdecls, List.filterMap_append, hnone, List.nil_append]

/-- The calls of the functions of declarations are those of the declarations. -/
theorem flatMap_watched (ds : List Decl) :
    (ds.filterMap Decl.function?).flatMap (FunctionDecl.watched testing) =
      ds.flatMap (Decl.watched testing) := by
  rw [List.filterMap_eq_flatMap_toList, List.flatMap_assoc]
  rfl

/-- The testing package keeps its names where other packages are added to the imports. -/
theorem testingNames_extended {file' : SourceFile} {adds : List (String × String)}
    (h : file'.outline = file.outline.extended adds none)
    (ha : ∀ a ∈ adds, a.1 ≠ Known.testingPackage) :
    testingNames file'.imports = testingNames file.imports := by
  have himports : file'.imports.map ImportSpec.outline =
      (adds.map importSpecOf ++ file.imports).map ImportSpec.outline := by
    have := congrArg Outline.imports h
    simp only [FileParts.outline, Outline.extended] at this
    rw [this, List.map_append, List.map_map]
    rfl
  rw [testingNames_congr himports, testingNames_added ha]

/-- **The calls that are left in a changed source.** A file whose windows are clear is changed, and
the changed source has the calls that were passed over, and each new callee that is such a call
itself. -/
theorem exists_changed (hf : SourceFile.parse path source = .ok file) (hn : Named sdk)
    (hp : PlainPath sdk.importPath)
    (ht : file.localName? sdk.importPath = none → sdk.importPath ≠ Known.testingPackage)
    (hl : Layout file sdk head segs) (hc : Clear (qualifier file sdk) segs)
    (hq : textKinds (qualifier file sdk).toList ≠ [])
    (hs : Startless (qualifier file sdk) (Patch.targets file sdk)) :
    ∃ text file', (prepared file sdk none).emit = .ok text ∧
      SourceFile.parse path text = .ok file' ∧
      file'.outline = file.outline.extended (prepared file sdk none).addedImports none ∧
      file'.watched.length + (Patch.targets file sdk).length = file.watched.length +
        ((Patch.targets file sdk).filter (recalls (qualifier file sdk))).length := by
  have hsoft : ∀ c ∈ (qualifier file sdk).toList, isSoft c = true := fun c hm =>
    isSoft_of_isPathChar (pathChar_of_qualifier hf hn hp c hm)
  obtain ⟨adds, hshape, -, hadds⟩ := shape_instrument file sdk
  have hne : ∀ a ∈ adds, a.1 ≠ Known.testingPackage := by
    intro a ha
    rw [(hadds a ha).path]
    exact ht (hadds a ha).missing
  obtain ⟨text, file', testing, os, hemit, hscan, hparse, -, houtline⟩ :=
    emit_spec hf hn hp (nofun : Suited file none) hl hc.legible nofun
  rw [hshape.added_eq] at hscan houtline ⊢
  have houtline := houtline hne
  refine ⟨text, file', hemit, hparse, houtline, ?_⟩
  obtain ⟨-, hsource, -⟩ := parse_eq_ok hf
  obtain ⟨-, htext, -⟩ := parse_eq_ok hparse
  -- the tokens of both sources, behind the package clause and the imports
  obtain ⟨keyword, name, semi, rest, ks, hlex, hrecast, hfresh⟩ := exists_recast hl hsoft hc
  rw [hsource] at hlex
  rw [tailPieces, List.append_nil] at hscan
  obtain ⟨tokens', hlex', hkinds⟩ := lex_of_scan hscan
  rw [kinds_changed file.package hl.before hl.gap hl.semi adds hfresh,
    ← List.append_assoc] at hkinds
  obtain ⟨front, rest', rfl, hfront, rfl⟩ := List.map_eq_append_iff.1 hkinds
  -- their declarations
  obtain ⟨ds, last, hfunctions, hlast, rfl, hproper, hstands⟩ := exists_declared hf hlex
  obtain ⟨us', last', rfl, hlast', hreplanted⟩ := hrecast.replanted_whole hproper hlast
  -- the calls that are redirected stand where they were found
  have hold : file.watched = ds.flatMap (Decl.watched (testingNames file.imports)) := by
    rw [SourceFile.watched, hsource, hfunctions, flatMap_watched]
  have hdistinct : Distinct (Tree.flattenAll (ds.flatMap Decl.trees)) := by
    have hall := distinct_of_lex hlex
    simp only [Distinct, List.pairwise_cons, List.pairwise_append] at hall
    exact hall.2.2.2.1
  have hfound : ∀ s ∈ sitesOf segs, s.1 ∈ ds.flatMap (Decl.watched (testingNames file.imports)) :=
    fun s hm => hold ▸ mem_watched_of_targets hf (hl.sites.subset hm)
  obtain ⟨ds', rfl, hsketch, hcount⟩ := count_decls hq hreplanted hdistinct hfound
    fun s hm => hs s (hl.sites.subset hm)
  have hnew : file'.watched = ds'.flatMap (Decl.watched (testingNames file.imports)) := by
    rw [SourceFile.watched, htext, testingNames_extended houtline hne,
      functionsOf_added hlex' hfront hlast' (hreplanted.proper hsoft hproper)
        (stands_of_sketch hsketch hstands), flatMap_watched]
  rw [hold, hnew, ← hl.sites.length_eq, ← (hl.sites.filter _).length_eq]
  exact hcount

end TestWeave.Source
