import TestWeave.Proofs.Kinds

/-!
# Declarations that a patch adds

An added import is a declaration behind the package clause, and a suite entry is one behind all
others. The model of a file gains an import for each, and a test.

* `importSpecs_importDecl`, `item_entryDecl`: what the new declarations say.
* `PartsOf.around`: the parts of a file with imports in front and declarations behind.
* `exists_extended`: the outline of a file with the added declarations.
-/

namespace TestWeave.Source

open TestWeave.Text TestWeave.Change

/-! ### The new declarations -/

/-- Plain trees without places. -/
def leaves (kinds : List TokenKind) : List Tree := kinds.map fun kind => .leaf ⟨kind, default⟩

/-- The package clause. -/
def clauseDecl (package : String) : Decl :=
  ⟨.leaf ⟨.keyword .kwPackage, default⟩, leaves [.ident package], ⟨.operator .semi, default⟩⟩

/-- The declaration of an added import, a path and a name. -/
def importDecl (a : String × String) : Decl :=
  ⟨.leaf ⟨.keyword .kwImport, default⟩, leaves [.ident a.2, pathLiteral a.1],
    ⟨.operator .semi, default⟩⟩

/-- The declaration of a suite entry with a driver `var`. -/
def entryDecl (testing var : String) : Decl :=
  ⟨.leaf ⟨.keyword .kwFunc, default⟩,
    [.leaf ⟨.ident Known.suiteEntry, default⟩,
      .group .paren default default
        (leaves [.ident var, .operator .star, .ident testing, .operator .dot,
          .ident Known.driverType]),
      .group .brace default default []],
    ⟨.operator .semi, default⟩⟩

theorem stands_clauseDecl (package : String) : (clauseDecl package).Stands :=
  ⟨by simp [clauseDecl, leaves, Tree.isOperator], rfl⟩

theorem stands_importDecl (a : String × String) : (importDecl a).Stands :=
  ⟨by simp [importDecl, leaves, pathLiteral, Tree.isOperator], rfl⟩

theorem stands_entryDecl (testing var : String) : (entryDecl testing var).Stands :=
  ⟨by simp [entryDecl, Tree.isOperator], rfl⟩

/-! ### What the new declarations say -/

/-- The import that a declaration adds. -/
def importSpecOf (a : String × String) : ImportSpec := ⟨some a.2, a.1, (default : Span).position⟩

/-- **An added import** says its name and its path. -/
theorem importSpecs_importDecl {a : String × String} (h : Addable a) :
    importSpecs (importDecl a).tail = .ok [importSpecOf a] := by
  have hpath : importPath (.leaf ⟨pathLiteral a.1, default⟩) = .ok a.1 :=
    importPath_eq_ok_iff.2 ⟨_, default, rfl, h.path.unquote, h.nonempty⟩
  exact importSpecs_eq_ok_iff.2 (.alone nofun (.named (importName_eq_ok_iff.2 (.inr rfl)) hpath))

/-- The test that a suite entry is. -/
def entryTest (var : String) : TestFunction :=
  ⟨Known.suiteEntry, var, true, (default : Span).position, (default : Span).position, []⟩

/-- **A suite entry** is a test with a driver. -/
theorem item_entryDecl {testing : List String} {t : String} (ht : t ∈ testing) (var : String) :
    item testing (entryDecl t var) =
      .ok ⟨[Known.suiteEntry], some (entryTest var), false, none⟩ := by
  have hparams : params (leaves [.ident var, .operator .star, .ident t, .operator .dot,
      .ident Known.driverType]) = [⟨some var, .pointer t Known.driverType⟩] := rfl
  have hcontext : contextParam? testing [⟨some var, .pointer t Known.driverType⟩] =
      some (var, true) := by
    simp [contextParam?, ht, Known.driverType, Known.contextType]
  have hfunction : functionDecl default (entryDecl t var).tail =
      .ok ⟨Known.suiteEntry, default, false,
        leaves [.ident var, .operator .star, .ident t, .operator .dot, .ident Known.driverType],
        some ⟨default, default, []⟩⟩ := rfl
  have htest : Text.startsWith Known.testLead Known.suiteEntry = true := by decide
  have hitem : ItemOf testing (entryDecl t var) _ := .function rfl hfunction
  rw [item_eq_ok_iff.2 hitem, FunctionDecl.item, FunctionDecl.driver?, FunctionDecl.isMain_of_test htest]
  simp only [testFunction?, htest, if_true, hparams, hcontext]
  rfl

/-! ### The outline -/

/-- The outline of a file with added imports and, with a name, a suite entry with a driver of that
name. -/
def Outline.extended (o : Outline) (adds : List (String × String)) (entry : Option String) :
    Outline where
  package := o.package
  imports := adds.map (fun a => (some a.2, a.1)) ++ o.imports
  declarations := o.declarations ++ entry.toList.map fun _ => Known.suiteEntry
  definesMain := o.definesMain
  tests := o.tests ++ entry.toList.map fun var => (Known.suiteEntry, var, true)

/-- The testing package keeps its names where other packages are imported. -/
theorem testingNames_added {adds : List (String × String)} (h : ∀ a ∈ adds, a.1 ≠ Known.testingPackage)
    (imports : List ImportSpec) :
    testingNames (adds.map importSpecOf ++ imports) = testingNames imports := by
  have hnone : (adds.map importSpecOf).filter (·.path == Known.testingPackage) = [] := by
    rw [List.filter_eq_nil_iff]
    intro spec hspec
    obtain ⟨a, ha, rfl⟩ := List.mem_map.1 hspec
    simpa [importSpecOf] using h a ha
  rw [testingNames, List.filter_append, hnone, List.nil_append, testingNames]

/-- A name that the testing package is imported under is one of its names. -/
theorem mem_testingNames {file : SourceFile} {t : String}
    (h : file.localName? Known.testingPackage = some t) : t ∈ testingNames file.imports := by
  obtain ⟨spec, hs, hl⟩ := List.exists_of_findSome?_eq_some h
  have hmem : t ∈ (file.imports.filter (·.path == Known.testingPackage)).filterMap
      ImportSpec.localName? := List.mem_filterMap.2 ⟨spec, hs, hl⟩
  unfold testingNames
  split
  · rename_i hnil
    rw [hnil] at hmem
    exact absurd hmem List.not_mem_nil
  · exact hmem

/-- The item of a suite entry. -/
def entryItem (var : String) : Item := ⟨[Known.suiteEntry], some (entryTest var), false, none⟩

theorem importSpecs_importDecls {adds : List (String × String)} (h : ∀ a ∈ adds, Addable a) :
    (adds.map importDecl).mapM (fun d => importSpecs d.tail) =
      .ok (adds.map fun a => [importSpecOf a]) := by
  rw [List.mapM_map]
  exact mapM_ok fun a hm => importSpecs_importDecl (h a hm)

theorem isImport_importDecls (adds : List (String × String)) :
    ∀ d ∈ adds.map importDecl, d.isImport = true := by
  intro d hd
  obtain ⟨a, -, rfl⟩ := List.mem_map.1 hd
  rfl

theorem items_entryDecls {testing : List String} {t : String} (entry : Option String)
    (h : t ∈ testing ∨ entry = none) :
    (entry.toList.map (entryDecl t)).mapM (item testing) = .ok (entry.toList.map entryItem) := by
  rw [List.mapM_map]
  refine mapM_ok fun var hvar => item_entryDecl (h.resolve_right ?_) var
  rintro rfl
  simp at hvar

theorem not_isImport_entryDecls (t : String) (entry : Option String) :
    ∀ d ∈ (entry.toList.map (entryDecl t)).head?, d.isImport = false := by
  cases entry with
  | none => simp
  | some var =>
    rintro _ ⟨⟩
    rfl

/-- Whether declarations can be read does not depend on the names of the testing package. -/
theorem exists_items {testing : List String} {ds : List Decl} {its : List Item}
    (h : ds.mapM (item testing) = .ok its) (testing' : List String) :
    ∃ its', ds.mapM (item testing') = .ok its' := by
  have hread : ∀ d ∈ ds, ∃ it, item testing' d = .ok it := by
    intro d hd
    obtain ⟨it, -, hit⟩ := exists_of_mapM h hd
    cases item_eq_ok_iff.1 hit with
    | function hk hf => exact ⟨_, item_eq_ok_iff.2 (.function hk hf)⟩
    | binding hbinder hk hne => exact ⟨_, item_eq_ok_iff.2 (.binding hbinder hk hne)⟩
  exact exists_mapM hread

/-- **Declarations around others**: imports in front of them, and none behind. -/
theorem PartsOf.around {clause : Decl} {front rest behind : List Decl} {parts : FileParts}
    {specs specs' : List (List ImportSpec)} {its its' ents : List Item}
    (h : PartsOf clause rest parts specs its) (hfront : ∀ d ∈ front, d.isImport = true)
    (hbehind : ∀ d ∈ behind.head?, d.isImport = false)
    (hspecs : front.mapM (fun d => importSpecs d.tail) = .ok specs')
    (hits : (rest.dropWhile Decl.isImport).mapM
      (item (testingNames (specs'.flatten ++ parts.imports))) = .ok its')
    (hents : behind.mapM (item (testingNames (specs'.flatten ++ parts.imports))) = .ok ents) :
    PartsOf clause (front ++ rest ++ behind)
      { package := parts.package
        imports := specs'.flatten ++ parts.imports
        anchor := parts.anchor
        tests := (its' ++ ents).filterMap (·.test)
        driver := (its' ++ ents).findSome? (·.driver)
        definesMain := (its' ++ ents).any (·.isMain)
        declarations := (its' ++ ents).flatMap (·.names) }
      (specs' ++ specs) (its' ++ ents) := by
  obtain ⟨htake, hdrop⟩ := takeWhile_append_of_head hbehind (front ++ rest)
  rw [List.takeWhile_append_of_pos hfront] at htake
  rw [List.dropWhile_append_of_pos hfront] at hdrop
  refine ⟨h.clause_eq, ?_, ?_, ?_, rfl, rfl, rfl, rfl⟩
  · rw [htake]
    exact mapM_append_ok hspecs h.specs_eq
  · rw [List.flatten_append, h.imports_eq]
  · rw [hdrop]
    exact mapM_append_ok hits hents

/-- **An extended file.** Imports behind the package clause and a suite entry at the end can be read,
and the imports are among those of the file; if none of them is of the testing package, they leave
everything else as it was. -/
theorem exists_extended {file : SourceFile} {clause : Decl} {decls : List Decl}
    (hd : FileParts.ofDecls (clause :: decls) = .ok file.toFileParts)
    {adds : List (String × String)} (ha : ∀ a ∈ adds, Addable a) {entry : Option String} {t : String}
    (he : entry.isSome = true → file.localName? Known.testingPackage = some t) :
    ∃ parts, FileParts.ofDecls (clause.sketch :: (adds.map importDecl ++ decls.map Decl.sketch ++
        entry.toList.map (entryDecl t))) = .ok parts ∧
      parts.outline.imports = (file.outline.extended adds entry).imports ∧
      ((∀ a ∈ adds, a.1 ≠ Known.testingPackage) →
        parts.outline = file.outline.extended adds entry) := by
  have hsketch := ofDecls_sketch (clause :: decls)
  rw [hd, view_ok, List.map_cons] at hsketch
  obtain ⟨parts, hparts, houtline⟩ := view_eq_some hsketch
  obtain ⟨_, _, specs, its, hcons, hp⟩ := ofDecls_eq_ok hparts
  obtain ⟨rfl, rfl⟩ := List.cons.inj hcons
  -- the added declarations, and the items under the names of the testing package
  have hspecs := importSpecs_importDecls ha
  have hflat : (adds.map fun a => [importSpecOf a]).flatten = adds.map importSpecOf := by
    rw [← List.flatMap_def, List.map_eq_flatMap]
  obtain ⟨its', hits'⟩ := exists_items hp.its_eq
    (testingNames ((adds.map fun a => [importSpecOf a]).flatten ++ parts.imports))
  have hself : t ∈ [t] := List.mem_cons_self
  obtain ⟨ents, hents⟩ := exists_items (items_entryDecls entry (.inl hself))
    (testingNames ((adds.map fun a => [importSpecOf a]).flatten ++ parts.imports))
  have hext := hp.around (isImport_importDecls adds) (not_isImport_entryDecls t entry) hspecs
    hits' hents
  rw [hflat] at hext hits' hents
  refine ⟨_, hext.ofDecls, ?_, fun hne => ?_⟩
  · rw [← houtline]
    simp [FileParts.outline, Outline.extended, importSpecOf, ImportSpec.outline]
  -- the testing package keeps its names, and so the items are those that they were
  have hmem : t ∈ testingNames parts.imports ∨ entry = none := by
    rw [testingNames_congr (congrArg Outline.imports houtline : parts.imports.map _ = _)]
    cases entry with
    | none => exact .inr rfl
    | some var => exact .inl (mem_testingNames (he rfl))
  rw [testingNames_added hne] at hits' hents
  obtain rfl : its' = its := Except.ok.inj (hits'.symm.trans hp.its_eq)
  obtain rfl : ents = entry.toList.map entryItem :=
    Except.ok.inj (hents.symm.trans (items_entryDecls entry hmem))
  rw [← houtline]
  cases entry <;>
    simp [FileParts.outline, Outline.extended, hp.tests_eq, hp.declarations_eq, hp.definesMain_eq,
      entryItem, entryTest, TestFunction.outline, importSpecOf, ImportSpec.outline]

end TestWeave.Source
