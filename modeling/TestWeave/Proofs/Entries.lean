import TestWeave.Proofs.Decision

/-!
# What counts as a suite entry

Whether a file has a suite entry is read off the functions that it declares: a `main` without
receiver, or a function or method `TestMain` with a body and a named parameter that is a pointer to
one of the testing package's types.

* `functionsOf`: the functions of a source; `FunctionDecl.isEntry`: which of them count.
* `hasSuiteEntry_eq`: a file has a suite entry if one of its functions counts.
* `hasSuiteEntry_eq_false_iff`: so has a unit.
-/

namespace TestWeave.Source

/-- The declarations of a source behind its package clause. -/
def declsOf (source : String) : List Decl :=
  match lex source >>= Tree.build >>= splitDecls with
  | .ok (_ :: decls) => decls
  | _ => []

/-- The function or method that a declaration declares. -/
def Decl.function? (d : Decl) : Option FunctionDecl :=
  if d.head.isKeyword .kwFunc then (functionDecl d.head.span d.tail).toOption else none

/-- **The functions and methods that a source declares.** -/
def functionsOf (source : String) : List FunctionDecl :=
  (declsOf source).filterMap Decl.function?

theorem functionsOf_eq {source : String} {tokens : List Token} {trees : List Tree} {clause : Decl}
    {decls : List Decl} (hlex : lex source = .ok tokens) (hbuild : Tree.build tokens = .ok trees)
    (hdecls : splitDecls trees = .ok (clause :: decls)) :
    functionsOf source = decls.filterMap Decl.function? := by
  simp only [functionsOf, declsOf, hlex, hbuild, hdecls, bind, Except.bind]

/-- Whether a function counts as a suite entry, in a file that refers to the testing package by the
names `testing`. -/
def FunctionDecl.isEntry (testing : List String) (f : FunctionDecl) : Bool :=
  (f.name == Known.mainFunction && !f.hasReceiver) ||
    (f.name == Known.suiteEntry && f.body.isSome &&
      (contextParam? testing (Source.params f.params)).isSome)

/-- What a declaration adds to the suite entries of its file. -/
def Item.isEntry (it : Item) : Bool :=
  it.isMain || it.driver.isSome || it.test.any (·.name == Known.suiteEntry)

theorem any_testFunction? (testing : List String) (f : FunctionDecl) :
    (testFunction? testing f).any (·.name == Known.suiteEntry) =
      (f.name == Known.suiteEntry && f.body.isSome &&
        (contextParam? testing (params f.params)).isSome) := by
  unfold testFunction?
  -- a function under the name of a suite entry has the name of a test
  by_cases hname : f.name = Known.suiteEntry
  · have hlead : Text.startsWith Known.testLead f.name = true := by
      rw [hname]
      decide
    rw [if_pos hlead]
    cases hbody : f.body with
    | none => simp
    | some body =>
      cases hparam : contextParam? testing (params f.params) with
      | none => simp
      | some param => simp [hname]
  · have hne : (f.name == Known.suiteEntry) = false := by simpa using hname
    rw [hne]
    split
    · split <;> simp [hne]
    · rfl

/-- What a declaration adds to a file is read from its function. -/
theorem item_function {testing : List String} {d : Decl} {it : Item}
    (h : item testing d = .ok it) :
    it.test = d.function?.bind (testFunction? testing) ∧
      it.isMain = d.function?.any FunctionDecl.isMain ∧
      it.driver = d.function?.bind (FunctionDecl.driver? testing) := by
  unfold Decl.function?
  cases item_eq_ok_iff.1 h with
  | function hk hf =>
    rw [if_pos hk, hf]
    exact ⟨rfl, rfl, rfl⟩
  | binding hbinder hk =>
    have hfunc : d.head.isKeyword .kwFunc = false := by
      obtain ⟨span, hhead⟩ := isKeyword_eq_true hk
      rw [hhead]
      simp only [List.mem_cons, List.not_mem_nil, or_false] at hbinder
      obtain rfl | rfl | rfl := hbinder <;> rfl
    rw [hfunc, if_neg Bool.false_ne_true]
    exact ⟨rfl, rfl, rfl⟩

/-- What an item adds is what the function of its declaration counts as. -/
theorem isEntry_item {testing : List String} {d : Decl} {it : Item}
    (h : item testing d = .ok it) : it.isEntry = d.function?.any (·.isEntry testing) := by
  obtain ⟨htest, hmain, hdriver⟩ := item_function h
  rw [Item.isEntry, htest, hmain, hdriver]
  cases d.function? with
  | none => rfl
  | some f =>
    -- a suite is run in an entry point only, which counts anyway
    have hdriver : (f.isMain || (f.driver? testing).isSome) = f.isMain := by
      unfold FunctionDecl.driver?
      cases f.isMain <;> simp
    rw [Option.any_some, Option.bind_some, Option.bind_some, hdriver, any_testFunction?]
    rfl

theorem isEntry_items {testing : List String} {decls : List Decl} {its : List Item}
    (h : decls.mapM (item testing) = .ok its) :
    its.any Item.isEntry = (decls.filterMap Decl.function?).any (·.isEntry testing) := by
  induction decls generalizing its with
  | nil =>
    obtain rfl : its = [] := by simpa [pure, Except.pure] using h.symm
    rfl
  | cons d decls ih =>
    obtain ⟨it, its, hit, hits, rfl⟩ := mapM_cons_eq_ok h
    rw [List.any_cons, ih hits, isEntry_item hit, List.filterMap_cons]
    cases d.function? <;> rfl

/-- An import declares no function. -/
theorem function?_of_isImport {d : Decl} (h : d.isImport = true) : d.function? = none := by
  obtain ⟨span, hspan⟩ := isKeyword_eq_true h
  rw [Decl.function?, hspan]
  rfl

/-- Functions are declared behind the imports. -/
theorem filterMap_dropImports (decls : List Decl) :
    (decls.dropWhile Decl.isImport).filterMap Decl.function? = decls.filterMap Decl.function? := by
  have himports : (decls.takeWhile Decl.isImport).filterMap Decl.function? = [] :=
    List.filterMap_eq_nil_iff.2 fun d hd => function?_of_isImport (List.mem_takeWhile_imp hd)
  conv_rhs => rw [← List.takeWhile_append_dropWhile (p := Decl.isImport) (l := decls),
    List.filterMap_append, himports, List.nil_append]

/-- The suite entries of a file are those of its items. -/
theorem isEntry_parts (its : List Item) : (its.any (·.isMain) ||
      (its.findSome? (·.driver)).isSome ||
      (its.filterMap (·.test)).any (·.name == Known.suiteEntry)) = its.any Item.isEntry := by
  induction its with
  | nil => rfl
  | cons it its ih =>
    simp only [List.any_cons, ← ih, Item.isEntry, List.findSome?_cons, List.filterMap_cons]
    cases hdriver : it.driver with
    | none =>
      cases htest : it.test with
      | none => cases it.isMain <;> simp
      | some test => cases it.isMain <;> simp [Bool.or_assoc, Bool.or_left_comm]
    | some driver => simp

/-- **A file has a suite entry** if one of its functions counts as one. -/
theorem hasSuiteEntry_eq {path : Path} {source : String} {file : SourceFile}
    (hf : SourceFile.parse path source = .ok file) : file.hasSuiteEntry =
      (functionsOf source).any (·.isEntry (testingNames file.imports)) := by
  obtain ⟨-, -, tokens, trees, clause, decls, specs, its, hlex, hbuild, hdecls, hp⟩ :=
    parse_eq_ok hf
  rw [functionsOf_eq hlex hbuild hdecls, ← filterMap_dropImports, ← isEntry_items hp.its_eq,
    SourceFile.hasSuiteEntry, hp.definesMain_eq, hp.driver_eq, hp.tests_eq, isEntry_parts]

end TestWeave.Source

namespace TestWeave.Build

open TestWeave.Change TestWeave.Host TestWeave.Source TestWeave.Text

variable {s : Step} {d : Disk} {unit : TestUnit}

/-- What holds of the files of units, each with the name of its unit, holds with one more file. -/
theorem forall_addToUnits {P : String → SourceFile → Prop} {file : SourceFile}
    {units : List TestUnit} (hfile : P file.package file)
    (h : ∀ unit ∈ units, ∀ f ∈ unit.files, P unit.name f) :
    ∀ unit ∈ addToUnits file units, ∀ f ∈ unit.files, P unit.name f := by
  induction units with
  | nil => simpa [addToUnits] using hfile
  | cons first units ih =>
    obtain ⟨hfirst, hunits⟩ := List.forall_mem_cons.1 h
    rw [addToUnits]
    split
    · rename_i hname
      refine List.forall_mem_cons.2 ⟨fun f hf => ?_, hunits⟩
      rcases List.mem_append.1 hf with hf | hf
      · exact hfirst f hf
      · rw [List.mem_singleton.1 hf, hname]
        exact hfile
    · exact List.forall_mem_cons.2 ⟨hfirst, ih hunits⟩

/-- The files of a step have been parsed. -/
theorem Built.parsed (h : Built s) : ∀ unit ∈ s.units, ∀ file ∈ unit.files,
    SourceFile.parse file.path file.source = .ok file := by
  induction h with
  | new => exact fun _ hu => absurd hu List.not_mem_nil
  | withSessionDir _ _ ih => exact ih
  | addFile hf _ ih =>
    refine forall_addToUnits (P := fun _ file => SourceFile.parse file.path file.source = .ok file)
      ?_ ih
    obtain ⟨hpath, hsource, -⟩ := parse_eq_ok hf
    rwa [hpath, hsource]

/-- Each file is in the unit of its package. -/
theorem Built.package_eq (h : Built s) : ∀ unit ∈ s.units, ∀ file ∈ unit.files,
    file.package = unit.name := by
  induction h with
  | new => exact fun _ hu => absurd hu List.not_mem_nil
  | withSessionDir _ _ ih => exact ih
  | addFile _ _ ih => exact forall_addToUnits (P := fun name file => file.package = name) rfl ih

/-- A unit has no suite entry if none of its functions counts as one. -/
theorem hasSuiteEntry_eq_false_iff (hb : Built s) (hu : unit ∈ s.units) :
    unit.hasSuiteEntry = false ↔ ∀ file ∈ unit.files, ∀ f ∈ functionsOf file.source,
      f.isEntry (testingNames file.imports) = false := by
  rw [TestUnit.hasSuiteEntry, List.any_eq_false]
  refine forall₂_congr fun file hfile => ?_
  rw [hasSuiteEntry_eq (hb.parsed unit hu file hfile), Bool.not_eq_true, List.any_eq_false]
  simp only [Bool.not_eq_true]

end TestWeave.Build
