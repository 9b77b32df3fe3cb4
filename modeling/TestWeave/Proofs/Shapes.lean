import TestWeave.Proofs.Declared
import TestWeave.Proofs.Nesting
import TestWeave.Proofs.Tiling
import TestWeave.Proofs.Woven

/-!
# The shapes of source files

A source file is a package clause, imports and declarations, each ended by a semicolon. What stands
between delimiters, types, initialisers and bodies may be any balanced tokens that keep to the level
they stand at: semicolons there end something else, and at the level of a result type braces follow
`struct` and `interface` alone.

* `FileShape`: a file as it is written.
* `functionDecl_shape`, `declaredNames_shape`, `importSpecs_shape`: what its declarations say.
* `parts_of_shape`: the parts of every such file are those that were written.
-/

namespace TestWeave.Source

/-! ### Balanced tokens -/

/-- Balanced tokens, as the trees that they form. -/
structure Balanced where
  trees : List Tree
  proper : ∀ t ∈ trees, t.Proper

/-- A type or an initialiser: balanced tokens without a semicolon of their own level. -/
structure Phrase extends Balanced where
  plain : ∀ t ∈ trees, t.isOperator .semi = false

/-- Trees that hold no body: each group in braces is that of a spelled out type. -/
inductive Bodiless : List Tree → Prop
  | nil : Bodiless []
  | spelled {t u : Tree} {ts : List Tree} : t.isKeyword .kwStruct ∨ t.isKeyword .kwInterface →
      (u.group? .brace).isSome = true → Bodiless ts → Bodiless (t :: u :: ts)
  | other {t : Tree} {ts : List Tree} : t.isKeyword .kwStruct = false →
      t.isKeyword .kwInterface = false → t.group? .brace = none → Bodiless ts → Bodiless (t :: ts)

/-- An operator without a place. -/
def mark (op : Operator) : Tree := .leaf ⟨.operator op, default⟩

/-- An identifier without a place. -/
def word (name : String) : Tree := .leaf ⟨.ident name, default⟩

/-- Trees between delimiters without places. -/
def enclosed (delim : Delimiter) (trees : List Tree) : Tree := .group delim default default trees

namespace Balanced

/-- Balanced tokens between delimiters. -/
def within (b : Balanced) (delim : Delimiter) : Tree := enclosed delim b.trees

end Balanced

/-! ### Specifications -/

/-- The specifications of a declaration: one alone, or some between parentheses, of which the last
one may go without its semicolon. -/
inductive Grouped (α : Type)
  | alone (spec : α)
  | listed (ended : List α) (last : Option α)

namespace Grouped

variable {α : Type}

/-- The specifications. -/
def specs : Grouped α → List α
  | alone spec => [spec]
  | listed ended last => ended ++ last.toList

/-- The trees of the specifications, where `spell` gives those of one. -/
def trees (spell : α → List Tree) : Grouped α → List Tree
  | alone spec => spell spec
  | listed ended last =>
    [enclosed .paren (ended.flatMap (fun spec => spell spec ++ [mark .semi]) ++
      last.toList.flatMap spell)]

end Grouped

/-- An import: its name, which may be a dot or an underscore, and the literal of its path. -/
structure ImportShape where
  name : Option String
  literal : String
  nonempty : unquote literal ≠ ""

/-- The trees of an import. -/
def ImportShape.trees (s : ImportShape) : List Tree :=
  s.name.toList.map (fun name => if name = "." then mark .dot else word name) ++
    [.leaf ⟨.literal .string s.literal, default⟩]

/-- A specification behind `var`, `const` or `type`: its names, and the type and the initialisers
behind them. -/
structure BindingShape where
  first : String
  others : List String
  rest : Phrase
  noComma : ∀ t ∈ rest.trees.head?, t.isOperator .comma = false

namespace BindingShape

/-- The names in front of a type or an initialiser. -/
def names (s : BindingShape) : List String := s.first :: s.others

/-- The trees of a specification. -/
def trees (s : BindingShape) : List Tree :=
  word s.first :: (s.others.flatMap fun name => [mark .comma, word name]) ++ s.rest.trees

end BindingShape

/-! ### Declarations -/

/-- A function. -/
structure FunctionShape where
  receiver : Option Balanced
  name : String
  typeParams : Option Balanced
  params : Balanced
  result : Phrase
  bodiless : Bodiless result.trees
  body : Option Balanced

/-- The trees of a function, behind its keyword. -/
def FunctionShape.trees (f : FunctionShape) : List Tree :=
  f.receiver.toList.map (·.within .paren) ++ word f.name ::
    (f.typeParams.toList.map (·.within .bracket) ++ f.params.within .paren ::
      (f.result.trees ++ f.body.toList.map (·.within .brace)))

/-- The keywords that names are bound with. -/
inductive Binder
  | var | const | type

/-- The keyword of a binder. -/
def Binder.keyword : Binder → Keyword
  | .var => .kwVar
  | .const => .kwConst
  | .type => .kwType

/-- A declaration. -/
inductive DeclShape
  | function (f : FunctionShape)
  | binding (binder : Binder) (specs : Grouped BindingShape)

/-- A declaration from its keyword and the trees behind it. -/
def declOf (keyword : Keyword) (trees : List Tree) : Decl :=
  ⟨.leaf ⟨.keyword keyword, default⟩, trees, ⟨.operator .semi, default⟩⟩

namespace DeclShape

/-- The declaration as it stands in a file. -/
def decl : DeclShape → Decl
  | function f => declOf .kwFunc f.trees
  | binding binder specs => declOf binder.keyword (specs.trees BindingShape.trees)

/-- The names that a declaration binds at package scope. -/
def names : DeclShape → List String
  | function f => if f.receiver.isSome then [] else [f.name]
  | binding _ specs => (specs.specs.flatMap BindingShape.names).filter (· != "_")

end DeclShape

/-- A source file. -/
structure FileShape where
  package : String
  imports : List (Grouped ImportShape)
  decls : List DeclShape

namespace FileShape

/-- The declarations of a file, those of its package and its imports among them. -/
def sections (file : FileShape) : List Decl :=
  clauseDecl file.package ::
    (file.imports.map (fun i => declOf .kwImport (i.trees ImportShape.trees)) ++
      file.decls.map DeclShape.decl)

/-- The kinds of the tokens of a file. -/
def kinds (file : FileShape) : List TokenKind :=
  (Tree.flattenAll (file.sections.flatMap Decl.trees)).map Token.kind ++ [.eof]

end FileShape

/-! ### The declarations of a file stand in its trees -/

/-- A tree as it may stand in a declaration. -/
structure Tree.Fits (t : Tree) : Prop where
  proper : t.Proper
  plain : t.isOperator .semi = false

theorem fits_word (name : String) : (word name).Fits := ⟨.leaf rfl, rfl⟩

theorem Balanced.fits_within (b : Balanced) (delim : Delimiter) : (b.within delim).Fits :=
  ⟨.group b.proper, rfl⟩

theorem Phrase.fits (p : Phrase) : ∀ t ∈ p.trees, t.Fits :=
  fun t ht => ⟨p.proper t ht, p.plain t ht⟩

theorem BindingShape.fits (s : BindingShape) : ∀ t ∈ s.trees, t.Fits := by
  intro t ht
  simp only [BindingShape.trees, List.mem_append, List.mem_cons, List.mem_flatMap,
    List.not_mem_nil, or_false] at ht
  rcases ht with (rfl | ⟨name, -, rfl | rfl⟩) | ht
  · exact fits_word _
  · exact ⟨.leaf rfl, rfl⟩
  · exact fits_word _
  · exact s.rest.fits t ht

theorem ImportShape.fits (s : ImportShape) : ∀ t ∈ s.trees, t.Fits := by
  intro t ht
  simp only [ImportShape.trees, List.mem_append, List.mem_map, List.mem_singleton] at ht
  rcases ht with ⟨name, -, rfl⟩ | rfl
  · split
    · exact ⟨.leaf rfl, rfl⟩
    · exact fits_word _
  · exact ⟨.leaf rfl, rfl⟩

theorem Grouped.fits {α : Type} {spell : α → List Tree} (h : ∀ a, ∀ t ∈ spell a, t.Fits)
    (specs : Grouped α) : ∀ t ∈ specs.trees spell, t.Fits := by
  cases specs with
  | alone s => exact h s
  | listed ended last =>
    intro t ht
    obtain rfl := List.mem_singleton.1 ht
    refine ⟨.group fun u hu => ?_, rfl⟩
    simp only [List.mem_append, List.mem_flatMap, List.mem_singleton] at hu
    rcases hu with ⟨a, -, hu | rfl⟩ | ⟨a, -, hu⟩
    · exact (h a u hu).proper
    · exact .leaf rfl
    · exact (h a u hu).proper

theorem FunctionShape.fits (f : FunctionShape) : ∀ t ∈ f.trees, t.Fits := by
  intro t ht
  simp only [FunctionShape.trees, List.mem_append, List.mem_cons, List.mem_map] at ht
  rcases ht with ⟨b, -, rfl⟩ | rfl | ⟨b, -, rfl⟩ | rfl | ht | ⟨b, -, rfl⟩
  · exact b.fits_within _
  · exact fits_word _
  · exact b.fits_within _
  · exact f.params.fits_within _
  · exact f.result.fits t ht
  · exact b.fits_within _

/-- A declaration of trees that fit stands in a source and is proper. -/
theorem declOf_sound (keyword : Keyword) {trees : List Tree} (h : ∀ t ∈ trees, t.Fits) :
    (declOf keyword trees).Stands ∧ (declOf keyword trees).Proper := by
  have hall : ∀ t ∈ (declOf keyword trees).head :: (declOf keyword trees).tail, t.Fits :=
    List.forall_mem_cons.2 ⟨⟨.leaf rfl, rfl⟩, h⟩
  exact ⟨⟨fun t ht => (hall t ht).plain, rfl⟩, ⟨fun t ht => (hall t ht).proper, rfl⟩⟩

theorem FileShape.sections_sound (file : FileShape) :
    ∀ d ∈ file.sections, d.Stands ∧ d.Proper := by
  intro d hd
  simp only [FileShape.sections, List.mem_cons, List.mem_append, List.mem_map] at hd
  rcases hd with rfl | ⟨i, -, rfl⟩ | ⟨d, -, rfl⟩
  · exact declOf_sound .kwPackage (List.forall_mem_singleton.2 (fits_word _))
  · exact declOf_sound .kwImport (i.fits ImportShape.fits)
  · cases d with
    | function f => exact declOf_sound .kwFunc f.fits
    | binding binder specs => exact declOf_sound binder.keyword (specs.fits BindingShape.fits)

/-! ### What functions say -/

/-- Behind a type the body is still to come. -/
theorem functionBody_append {ts us : List Tree} (h : Bodiless ts) :
    functionBody (ts ++ us) = functionBody us := by
  induction h with
  | nil => rfl
  | @spelled t u ts ht hu _ ih =>
    have hword : (t.isKeyword .kwStruct || t.isKeyword .kwInterface) = true := by
      simpa using ht
    rw [List.cons_append, List.cons_append, functionBody, if_pos hword, if_pos hu, ih]
  | @other t ts hstruct hinterface hgroup _ ih =>
    rw [List.cons_append, functionBody.eq_def]
    simp only [hstruct, hinterface, hgroup, Bool.or_self, Bool.false_eq_true, if_false, ih]

/-- The group of a body. -/
def Balanced.group (b : Balanced) : Group := ⟨default, default, b.trees⟩

/-- What a function is read as. -/
def FunctionShape.read (f : FunctionShape) (keyword : Span) : FunctionDecl :=
  ⟨f.name, keyword, f.receiver.isSome, f.params.trees, f.body.map Balanced.group⟩

theorem skipGroup_within (delim : Delimiter) (b : Option Balanced) {t : Tree} {ts : List Tree}
    (ht : t.group? delim = none) :
    skipGroup delim (b.toList.map (·.within delim) ++ t :: ts) = (b.isSome, t :: ts) := by
  cases b with
  | none => simp [skipGroup, ht]
  | some b => simp [skipGroup, Balanced.within, enclosed, Tree.group?]

/-- **A function** is read with its receiver, its parameters and its body. -/
theorem functionDecl_shape (f : FunctionShape) (keyword : Span) :
    functionDecl keyword f.trees = .ok (f.read keyword) := by
  have hbody : functionBody (f.result.trees ++ f.body.toList.map (·.within .brace)) =
      .ok (f.body.map Balanced.group) := by
    rw [functionBody_append f.bodiless]
    cases f.body with
    | none => rfl
    | some b => rfl
  have hparams : (f.params.within .paren).group? .paren = some f.params.group := rfl
  rw [functionDecl_eq_ok_iff, FunctionShape.trees]
  exact .intro (skipGroup_within .paren f.receiver rfl) rfl
    (skipGroup_within .bracket f.typeParams rfl) hparams hbody

/-! ### What specifications say -/

/-- Specifications between parentheses are split at the semicolons that end them. -/
theorem splitOn_listed {α : Type} {spell : α → List Tree}
    (h : ∀ a, ∀ t ∈ spell a, t.Fits) (ended : List α) (last : Option α) :
    Tree.splitOn .semi (ended.flatMap (fun spec => spell spec ++ [mark .semi]) ++
      last.toList.flatMap spell) = ended.map spell ++ [last.toList.flatMap spell] := by
  induction ended with
  | nil =>
    refine splitWhere_of_forall fun t ht => ?_
    obtain ⟨a, -, ht⟩ := List.mem_flatMap.1 ht
    exact (h a t ht).plain
  | cons a ended ih =>
    have hmark : (mark .semi).isOperator .semi = true := rfl
    have hsplit := splitWhere_append_cons
      (ended.flatMap (fun spec => spell spec ++ [mark .semi]) ++ last.toList.flatMap spell)
      (fun t ht => (h a t ht).plain) hmark
    simp only [List.flatMap_cons, List.append_assoc, List.cons_append, List.nil_append] at hsplit ⊢
    rw [Tree.splitOn, hsplit, List.map_cons, List.cons_append]
    exact congrArg (spell a :: ·) ih

theorem named_word (name : String) : specNames.named (word name) = [name].filter (· != "_") := by
  by_cases h : name = "_" <;> simp [specNames.named, word, Tree.ident?, h]

/-- **The names of a specification** are those in front of its type or initialiser. -/
theorem specNames_shape (s : BindingShape) : specNames s.trees = s.names.filter (· != "_") := by
  obtain ⟨first, others, rest, hcomma⟩ := s
  simp only [BindingShape.trees, BindingShape.names]
  induction others generalizing first with
  | nil =>
    rw [List.flatMap_nil, ← named_word]
    cases htrees : rest.trees with
    | nil => rfl
    | cons u us =>
      have hu : u.isOperator .comma = false := hcomma u (by simp [htrees])
      simp [specNames, hu]
  | cons name others ih =>
    have hcons : (first :: name :: others).filter (· != "_") =
        specNames.named (word first) ++ (name :: others).filter (· != "_") := by
      rw [named_word, ← List.filter_append, List.singleton_append]
    rw [hcons, ← ih]
    simp [specNames, word, mark, Tree.ident?, Tree.isOperator]

theorem declaredNames_cons {t : Tree} {ts : List Tree} (h : t.group? .paren = none) :
    declaredNames (t :: ts) = specNames (t :: ts) := by
  cases ts with
  | nil => simp [declaredNames, h]
  | cons u us => rfl

/-- **A declaration binds** the names of all its specifications, in order. -/
theorem declaredNames_shape (specs : Grouped BindingShape) :
    declaredNames (specs.trees BindingShape.trees) =
      (specs.specs.flatMap BindingShape.names).filter (· != "_") := by
  rw [List.filter_flatMap]
  cases specs with
  | alone s =>
    simp only [Grouped.trees, Grouped.specs, List.flatMap_singleton]
    rw [← specNames_shape]
    exact declaredNames_cons rfl
  | listed ended last =>
    have hnames : declaredNames ((Grouped.listed ended last).trees BindingShape.trees) =
        (ended.map BindingShape.trees ++ [last.toList.flatMap BindingShape.trees]).flatMap
          specNames := by
      rw [← splitOn_listed BindingShape.fits]
      rfl
    simp only [hnames, Grouped.specs, List.flatMap_append, List.flatMap_map, specNames_shape,
      List.flatMap_singleton]
    cases last with
    | none => rfl
    | some s => simp [specNames_shape]

/-! ### What imports say -/

/-- What an import is read as. -/
def ImportShape.read (s : ImportShape) : ImportSpec :=
  ⟨s.name, unquote s.literal, (default : Span).position⟩

/-- **An import** is read with its name and its path. -/
theorem importSpec_shape (s : ImportShape) : SpecOf s.trees s.read := by
  obtain ⟨name, literal, hne⟩ := s
  have hpath : importPath (.leaf ⟨.literal .string literal, default⟩) = .ok (unquote literal) :=
    importPath_eq_ok_iff.2 ⟨literal, default, rfl, rfl, by simpa using hne⟩
  cases name with
  | none => exact .bare hpath
  | some name =>
    have hname : importName (if name = "." then mark .dot else word name) = .ok name := by
      by_cases h : name = "."
      · rw [if_pos h]
        exact importName_eq_ok_iff.2 (.inl ⟨rfl, h⟩)
      · rw [if_neg h]
        exact importName_eq_ok_iff.2 (.inr rfl)
    have hspan : (if name = "." then mark .dot else word name).span = default := by
      split <;> rfl
    have := SpecOf.named hname hpath
    rwa [hspan] at this

/-- **An import declaration** is read as all its imports, in order. -/
theorem importSpecs_shape (i : Grouped ImportShape) :
    importSpecs (i.trees ImportShape.trees) = .ok (i.specs.map ImportShape.read) := by
  cases i with
  | alone s =>
    have hgroup : ∀ t, s.trees = [t] → t.group? .paren = none := by
      intro t ht
      have hlast : t = .leaf ⟨.literal .string s.literal, default⟩ := by
        have := congrArg List.getLast? ht
        simpa [ImportShape.trees] using this.symm
      rw [hlast]
      rfl
    exact importSpecs_eq_ok_iff.2 (.alone hgroup (importSpec_shape s))
  | listed ended last =>
    have hfilter : (ended.map ImportShape.trees ++ [last.toList.flatMap ImportShape.trees]).filter
        (!·.isEmpty) = (ended ++ last.toList).map ImportShape.trees := by
      have hne : ∀ s : ImportShape, s.trees ≠ [] := by simp [ImportShape.trees]
      rw [List.filter_append, List.map_append,
        List.filter_eq_self.2 (by simp [hne])]
      cases last with
      | none => rfl
      | some s => simp [hne]
    have hspecs : importSpecs ((Grouped.listed ended last).trees ImportShape.trees) =
        ((ended.map ImportShape.trees ++ [last.toList.flatMap ImportShape.trees]).filter
          (!·.isEmpty)).mapM importSpec := by
      rw [← splitOn_listed ImportShape.fits]
      rfl
    rw [hspecs, hfilter, List.mapM_map]
    exact mapM_ok fun s _ => importSpec_eq_ok_iff.2 (importSpec_shape s)

/-! ### What declarations say -/

/-- What a declaration adds to the parts of a file. -/
def DeclShape.read (testing : List String) : DeclShape → Item
  | function f =>
    { names := if f.receiver.isSome then [] else [f.name]
      test := testFunction? testing (f.read default)
      isMain := f.name == Known.mainFunction && !f.receiver.isSome
      driver := if f.name == Known.mainFunction && !f.receiver.isSome then
        driverEntry? testing (f.read default) else none }
  | binding _ specs =>
    ⟨(specs.specs.flatMap BindingShape.names).filter (· != "_"), none, false, none⟩

/-- **A declaration** is read as it was written. -/
theorem item_shape (testing : List String) (d : DeclShape) :
    item testing d.decl = .ok (d.read testing) := by
  cases d with
  | function f =>
    have hfunction : functionDecl (declOf .kwFunc f.trees).head.span f.trees =
        .ok (f.read default) := functionDecl_shape f default
    exact item_eq_ok_iff.2 (.function rfl hfunction)
  | binding binder specs =>
    have hne : specs.trees BindingShape.trees ≠ [] := by
      cases specs with
      | alone s => simp [Grouped.trees, BindingShape.trees]
      | listed => exact List.cons_ne_nil _ _
    have hbinder : binder.keyword ∈ [Keyword.kwVar, .kwConst, .kwType] := by
      cases binder <;> decide
    have hhead : (DeclShape.binding binder specs).decl.head.isKeyword binder.keyword = true := by
      simp [DeclShape.decl, declOf, Tree.isKeyword]
    rw [DeclShape.read, ← declaredNames_shape]
    exact item_eq_ok_iff.2 (.binding hbinder hhead hne)

/-! ### Files -/

/-- The parts of a file, as it was written. -/
def FileShape.read (file : FileShape) : FileParts :=
  let imports := file.imports.flatMap fun i => i.specs.map ImportShape.read
  let items := file.decls.map (DeclShape.read (testingNames imports))
  { package := file.package
    imports
    anchor := ⟨default, false⟩
    tests := items.filterMap (·.test)
    driver := items.findSome? (·.driver)
    definesMain := items.any (·.isMain)
    declarations := items.flatMap (·.names) }

theorem DeclShape.isImport_decl (d : DeclShape) : d.decl.isImport = false := by
  cases d with
  | function f => rfl
  | binding binder specs => cases binder <;> rfl

/-- The declarations of a file are read as they were written. -/
theorem ofDecls_sections (file : FileShape) : FileParts.ofDecls file.sections = .ok file.read := by
  have hall : ∀ d ∈ file.imports.map (fun i => declOf .kwImport (i.trees ImportShape.trees)),
      d.isImport = true := by
    intro d hd
    obtain ⟨i, -, rfl⟩ := List.mem_map.1 hd
    rfl
  have hlast : ∀ d ∈ (file.decls.map DeclShape.decl).head?, d.isImport = false := by
    intro d hd
    obtain ⟨shape, -, rfl⟩ := List.mem_map.1 (List.mem_of_mem_head? hd)
    exact shape.isImport_decl
  obtain ⟨htake, hdrop⟩ := takeWhile_append_of_head hlast
    (file.imports.map fun i => declOf .kwImport (i.trees ImportShape.trees))
  rw [List.takeWhile_eq_self_iff.2 hall] at htake
  rw [List.dropWhile_eq_nil_iff.2 hall, List.nil_append] at hdrop
  have hparts : PartsOf (clauseDecl file.package)
      (file.imports.map (fun i => declOf .kwImport (i.trees ImportShape.trees)) ++
        file.decls.map DeclShape.decl) file.read
      (file.imports.map fun i => i.specs.map ImportShape.read)
      (file.decls.map (DeclShape.read (testingNames file.read.imports))) := by
    refine ⟨rfl, ?_, List.flatMap_def .., ?_, rfl, rfl, rfl, rfl⟩
    · rw [htake, List.mapM_map]
      exact mapM_ok fun i _ => importSpecs_shape i
    · rw [hdrop, List.mapM_map]
      exact mapM_ok fun d _ => item_shape _ d
  exact hparts.ofDecls

/-- The tokens of a file are read as it was written. -/
theorem ofTokens_sections (file : FileShape) :
    FileParts.ofTokens (Tree.flattenAll (file.sections.flatMap Decl.trees) ++ [⟨.eof, default⟩]) =
      .ok file.read := by
  have hproper : ∀ t ∈ file.sections.flatMap Decl.trees, t.Proper := by
    intro t ht
    obtain ⟨d, hd, ht⟩ := List.mem_flatMap.1 ht
    obtain ⟨-, hd⟩ := file.sections_sound d hd
    rw [Decl.trees, List.mem_append, List.mem_singleton] at ht
    rcases ht with ht | rfl
    · exact hd.trees t ht
    · exact .leaf (by rw [hd.terminator]; rfl)
  have hlast : (Token.mk .eof default).kind = .eof := rfl
  have hbuild := Tree.build_flattenAll hlast hproper
  have hdecls : splitDecls (file.sections.flatMap Decl.trees) = .ok file.sections :=
    splitDecls_eq_ok_iff.2 ⟨rfl, fun d hd => (file.sections_sound d hd).1⟩
  rw [FileParts.ofTokens, hbuild]
  simp only [bind, Except.bind, hdecls]
  exact ofDecls_sections file

/-- An import says what was written: its name, and the path that its literal is unquoted to, which
is the path that was quoted. -/
structure ImportSpec.Says (spec : ImportSpec) (shape : ImportShape) : Prop where
  name : spec.name = shape.name
  path : spec.path = unquote shape.literal
  quoted : ∀ path, Quotes path shape.literal → spec.path = path

/-- **Files of every shape** are read as they were written. -/
theorem parts_of_shape (file : FileShape) {tokens : List Token}
    (h : tokens.map Token.kind = file.kinds) :
    ∃ parts, FileParts.ofTokens tokens = .ok parts ∧
      parts.package = file.package ∧
      List.Forall₂ ImportSpec.Says parts.imports (file.imports.flatMap Grouped.specs) ∧
      parts.declarations = file.decls.flatMap DeclShape.names ∧
      (parts.definesMain = true ↔ ∃ f, .function f ∈ file.decls ∧ f.receiver = none ∧
        f.name = Known.mainFunction) := by
  have hkinds : tokens.map Token.kind =
      (Tree.flattenAll (file.sections.flatMap Decl.trees) ++
        [Token.mk .eof default]).map Token.kind := by
    rw [h, FileShape.kinds, List.map_append]
    rfl
  -- what the parts say depends on the kinds of the tokens alone
  obtain ⟨parts, hparts, houtline⟩ := ofTokens_of_kinds (ofTokens_sections file) hkinds
  refine ⟨parts, hparts, congrArg Outline.package houtline, ?_, ?_, ?_⟩
  · have himports : parts.imports.map ImportSpec.outline =
        (file.imports.flatMap Grouped.specs).map fun s => s.read.outline := by
      rw [List.map_flatMap]
      refine (congrArg Outline.imports houtline).trans ?_
      simp [FileParts.outline, FileShape.read, List.map_flatMap, Function.comp_def]
    have hall : List.Forall₂ (fun spec (s : ImportShape) => spec.outline = s.read.outline)
        parts.imports (file.imports.flatMap Grouped.specs) := by
      rw [← List.forall₂_eq_eq_eq, List.forall₂_map_left_iff, List.forall₂_map_right_iff] at himports
      exact himports
    refine hall.imp fun spec s hs => ?_
    obtain ⟨hname, hpath⟩ := Prod.mk.inj hs
    exact ⟨hname, hpath, fun path hq => hpath.trans (unquote_of_quotes hq)⟩
  · refine (congrArg Outline.declarations houtline).trans ?_
    have hnames : ∀ testing (d : DeclShape), (d.read testing).names = d.names := by
      rintro testing (f | ⟨binder, specs⟩) <;> rfl
    simp [FileParts.outline, FileShape.read, List.flatMap_map, hnames]
  · have hmain : parts.definesMain = file.read.definesMain := congrArg Outline.definesMain houtline
    rw [hmain, FileShape.read, List.any_map, List.any_eq_true]
    constructor
    · rintro ⟨f | ⟨binder, specs⟩, hd, hf⟩
      · have hboth : f.name = Known.mainFunction ∧ f.receiver = none := by
          simpa [DeclShape.read] using hf
        exact ⟨f, hd, hboth.2, hboth.1⟩
      · exact absurd hf Bool.false_ne_true
    · rintro ⟨f, hd, hreceiver, hname⟩
      exact ⟨.function f, hd, by simp [DeclShape.read, hreceiver, hname]⟩

/-- A source with a result type that is spelled out, and with a method by the name of an entry. -/
def shapedSource : String :=
  "package p\nimport ( . \"strings\"; _ \x60embed\x60 )\nvar x, _ = 1\n" ++
    "func F[V any](v V) struct\x7ba int\x7d \x7b return v; \x7d\nfunc (t T) main() \x7b\x7d\n"

/-- Plain tokens, balanced as they are. -/
def Balanced.ofKinds (kinds : List TokenKind) (h : ∀ kind ∈ kinds, kind.isPlain = true) :
    Balanced where
  trees := leaves kinds
  proper t ht := by
    obtain ⟨kind, hkind, rfl⟩ := List.mem_map.1 ht
    exact .leaf (h kind hkind)

/-- The shape of `shapedSource`. -/
def shapedFile : FileShape where
  package := "p"
  imports := [.listed [⟨some ".", "\"strings\"", by decide⟩]
    (some ⟨some "_", "\x60embed\x60", by decide⟩)]
  decls := [
    .binding .var (.alone
      { first := "x", others := ["_"]
        rest := ⟨.ofKinds [.operator .assign, .literal .int "1"] (by decide), by decide⟩
        noComma := by decide }),
    .function
      { receiver := none, name := "F"
        typeParams := some (.ofKinds [.ident "V", .ident "any"] (by decide))
        params := .ofKinds [.ident "v", .ident "V"] (by decide)
        result := {
          trees := [.leaf ⟨.keyword .kwStruct, default⟩,
            enclosed .brace (leaves [.ident "a", .ident "int"])]
          proper := List.forall_mem_cons.2 ⟨.leaf rfl, List.forall_mem_singleton.2
            (.group (Balanced.ofKinds [.ident "a", .ident "int"] (by decide)).proper)⟩
          plain := by decide }
        bodiless := .spelled (.inl rfl) rfl .nil
        body := some (.ofKinds [.keyword .kwReturn, .ident "v", .operator .semi] (by decide)) },
    .function
      { receiver := some (.ofKinds [.ident "t", .ident "T"] (by decide)), name := "main"
        typeParams := none, params := .ofKinds [] nofun
        result := ⟨.ofKinds [] nofun, nofun⟩
        bodiless := .nil
        body := some (.ofKinds [] nofun) }]

theorem parts_of_shapedSource : ∃ tokens parts, lex shapedSource = .ok tokens ∧
    FileParts.ofTokens tokens = .ok parts ∧ parts.package = "p" ∧
    List.Forall₂ ImportSpec.Says parts.imports (shapedFile.imports.flatMap Grouped.specs) ∧
    parts.declarations = ["x", "F"] ∧ parts.definesMain = false := by
  have hlex : (lex shapedSource).toOption.map (·.map Token.kind) = some shapedFile.kinds := by
    decide +kernel
  obtain ⟨tokens, htokens, hkinds, -⟩ := exists_tokens hlex fun _ h => h
  obtain ⟨parts, hparts, hpackage, himports, hnames, hmain⟩ := parts_of_shape shapedFile hkinds
  refine ⟨tokens, parts, htokens, hparts, hpackage, himports, hnames, ?_⟩
  rw [Bool.eq_false_iff, ne_eq, hmain]
  rintro ⟨f, hf, hreceiver, hname⟩
  simp only [shapedFile, List.mem_cons, reduceCtorEq, DeclShape.function.injEq, List.not_mem_nil,
    or_false, false_or] at hf
  obtain rfl | rfl := hf
  · exact absurd hname (by decide)
  · cases hreceiver

end TestWeave.Source
