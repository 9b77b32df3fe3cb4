import TestWeave.Host.IoError
import TestWeave.Path
import TestWeave.Source.Function
import TestWeave.Source.Lex

/-!
# Source files

What a source file declares, as far as tests are concerned: its package, its imports, the tests
with their subtests, and the driver that runs a suite.

* `FileParts.ofTokens`: the parts of a source from its tokens.
* `SourceFile.parse`: a source file from its text.
-/

namespace TestWeave.Source

/-- A function whose name begins as that of a test does and that has a test context or a suite
driver among its parameters. -/
structure TestFunction where
  name : String
  /-- The name of the context or driver. -/
  contextName : String
  /-- Whether the parameter is a suite driver. -/
  isSuiteEntry : Bool
  start : Position
  stop : Position
  subtests : List CallSite
  deriving DecidableEq, Repr

/-- The entry point of a program that runs a suite, and the call that runs it. -/
structure DriverEntry where
  function : String
  runCall : CallSite
  deriving DecidableEq, Repr

/-- What a source declares. -/
structure FileParts where
  package : String
  imports : List ImportSpec
  anchor : ImportAnchor
  tests : List TestFunction
  driver : Option DriverEntry
  /-- Whether a function `main` without receiver is declared. -/
  definesMain : Bool
  /-- The names bound at package scope. -/
  declarations : List String
  deriving DecidableEq, Repr

/-- What one declaration behind the imports adds to the parts of a file. -/
structure Item where
  names : List String
  test : Option TestFunction
  isMain : Bool
  driver : Option DriverEntry

/-- The names that the testing package is referred to by. A file that does not import it is read as
if it were imported under its own name. -/
def testingNames (imports : List ImportSpec) : List String :=
  match (imports.filter (·.path == Known.testingPackage)).filterMap ImportSpec.localName? with
  | [] => [Known.testingPackage]
  | names => names

/-- The test that a function declares. -/
def testFunction? (testing : List String) (f : FunctionDecl) : Option TestFunction :=
  if Text.startsWith Known.testLead f.name then
    match f.body, contextParam? testing (params f.params) with
    | some body, some (context, isSuiteEntry) =>
      some {
        name := f.name
        contextName := context
        isSuiteEntry
        start := f.keyword.position
        stop := body.closing.position
        subtests := calls context Known.runMethod body.trees }
    | _, _ => none
  else none

/-- The suite that a function `main` runs. -/
def driverEntry? (testing : List String) (f : FunctionDecl) : Option DriverEntry :=
  match f.body with
  | none => none
  | some body =>
    let driver := (driverBinding? testing body.trees).getD Known.driverName
    (calls driver Known.runMethod body.trees).head?.map fun call => ⟨f.name, call⟩

/-- A declaration behind the imports. -/
def item (testing : List String) (d : Decl) : Except Diagnostic Item :=
  if d.head.isKeyword .kwImport then
    .error ⟨"imports must appear before other declarations", some d.head.span⟩
  else if d.head.isKeyword .kwFunc then do
    let f ← functionDecl d.head.span d.tail
    let isMain := f.name == Known.mainFunction && !f.hasReceiver
    return {
      names := if f.hasReceiver then [] else [f.name]
      test := testFunction? testing f
      isMain
      driver := if isMain then driverEntry? testing f else none }
  else if (d.head.isKeyword .kwVar || d.head.isKeyword .kwConst || d.head.isKeyword .kwType) &&
      !d.tail.isEmpty then
    .ok ⟨declaredNames d.tail, none, false, none⟩
  else .error ⟨"non-declaration statement outside function body", some d.head.span⟩

namespace FileParts

/-- The parts of a source from its declarations. -/
def ofDecls : List Decl → Except Diagnostic FileParts
  | [] => .error ⟨"expected 'package', found EOF", none⟩
  | clause :: decls => do
    let (package, anchor) ← packageClause clause
    let isImport := fun d : Decl => d.head.isKeyword .kwImport
    let imports := (← (decls.takeWhile isImport).mapM fun d => importSpecs d.tail).flatten
    let items ← (decls.dropWhile isImport).mapM (item (testingNames imports))
    return {
      package
      imports
      anchor
      tests := items.filterMap (·.test)
      driver := items.findSome? (·.driver)
      definesMain := items.any (·.isMain)
      declarations := items.flatMap (·.names) }

/-- The parts of a source from its tokens. -/
def ofTokens (tokens : List Token) : Except Diagnostic FileParts := do
  ofDecls (← splitDecls (← Tree.build tokens))

/-- The parts of a source from its text. -/
def ofText (source : String) : Except Diagnostic FileParts := do ofTokens (← lex source)

end FileParts

/-- A source file: where it is, what it says and what that declares. -/
structure SourceFile extends FileParts where
  path : Path
  source : String
  deriving DecidableEq, Repr

/-- Why a source file could not be had. -/
inductive ParseError
  | unreadable (path : Path) (cause : Host.IoError)
  | malformed (path : Path) (source : String) (diagnostic : Diagnostic)
  deriving DecidableEq, Repr

/-- The text of a parse error. -/
def ParseError.message : ParseError → String
  | .unreadable path cause => s!"failed to read {path.text}: {cause.message}"
  | .malformed path source d =>
    s!"{path.text}:{d.position.line}:{d.position.column}: {d.message}\n{d.excerpt source}"

namespace SourceFile

/-- Reads the source text of the file at `path`. -/
def parse (path : Path) (source : String) : Except ParseError SourceFile :=
  match FileParts.ofText source with
  | .ok parts => .ok { parts with path, source }
  | .error d => .error (.malformed path source d)

/-- The name by which a file refers to the package of an import path. -/
def localName? (f : SourceFile) (path : String) : Option String :=
  (f.imports.filter (·.path == path)).findSome? ImportSpec.localName?

/-- Whether a file binds a name at package scope. -/
def declares (f : SourceFile) (name : String) : Bool := f.declarations.contains name

/-- Whether a file imports a path, under any name. -/
def importsPath (f : SourceFile) (path : String) : Bool := f.imports.any (·.path == path)

/-- Whether a file spells an import of the instrumentation under its own name. -/
def importsInstrumentation (f : SourceFile) (sdk : Instrumentation) : Bool :=
  f.imports.any fun spec => spec.path == sdk.importPath && spec.name == some sdk.localName

/-- Whether the package of a file has an entry for its suite in this file: a test by the name of
suite entries, or the entry point of a program, which runs the suite itself. -/
def hasSuiteEntry (f : SourceFile) : Bool :=
  f.definesMain || f.driver.isSome || f.tests.any (·.name == Known.suiteEntry)

/-- The first test of a name. -/
def test? (f : SourceFile) (name : String) : Option TestFunction :=
  f.tests.find? (·.name == name)

/-- The number of calls that instrumentation changes. -/
def callSiteCount (f : SourceFile) : Nat :=
  (f.tests.flatMap (·.subtests)).length + if f.driver.isSome then 1 else 0

end SourceFile

end TestWeave.Source
