import TestWeave.Proofs.Entries
import TestWeave.Proofs.Tiling

/-!
# The calls that instrumentation looks at

In the functions of a source instrumentation looks for the calls that run subtests, and in a `main`
for those that run a suite. It redirects all of the former, and the first of the latter.

* `FunctionDecl.watched`: the calls of a function that it looks at.
* `tests_eq_functions`, `calls_targets`: the tests, the driver and the targets of a file.
* `targets_eq_nil_iff`: nothing is redirected where there is no call to look at.
* `located_of_mem_watched`, `Distinct.not_beginsIn`: each of these calls begins in the body of its
  function, and nowhere else.
* `exists_body_of_mem_targets`: the targets of a file are calls in stretches of its tokens.
-/

namespace TestWeave.Source

open TestWeave.Change TestWeave.Text

/-! ### Functions -/

/-- The calls with which a test runs its subtests. -/
def FunctionDecl.testCalls (testing : List String) (f : FunctionDecl) : List CallSite :=
  (testFunction? testing f).toList.flatMap (·.subtests)

/-- The calls with which the entry point of a program runs a suite. -/
def FunctionDecl.runCalls (testing : List String) (f : FunctionDecl) : List CallSite :=
  match f.body with
  | some g =>
    if f.isMain then
      calls ((driverBinding? testing g.trees).getD Known.driverName) Known.runMethod g.trees
    else []
  | none => []

/-- The calls of a function that instrumentation looks at. -/
def FunctionDecl.watched (testing : List String) (f : FunctionDecl) : List CallSite :=
  f.testCalls testing ++ f.runCalls testing

/-- The receiver of these calls, where `trees` are the body of the function. -/
def FunctionDecl.receiver? (testing : List String) (f : FunctionDecl) (trees : List Tree) :
    Option String :=
  if startsWith Known.testLead f.name then
    (contextParam? testing (Source.params f.params)).map Prod.fst
  else if f.isMain then some ((driverBinding? testing trees).getD Known.driverName)
  else none

variable {testing : List String} {f : FunctionDecl}

theorem watched_of_no_body (h : f.body = none) : f.watched testing = [] := by
  simp [FunctionDecl.watched, FunctionDecl.testCalls, FunctionDecl.runCalls, testFunction?, h]

/-- **The calls of a function** are those on one receiver in its body. -/
theorem watched_eq {g : Group} (h : f.body = some g) :
    f.watched testing = match f.receiver? testing g.trees with
      | some receiver => calls receiver Known.runMethod g.trees
      | none => [] := by
  unfold FunctionDecl.watched FunctionDecl.testCalls FunctionDecl.runCalls FunctionDecl.receiver?
    testFunction?
  rw [h]
  split
  · rename_i hlead
    rw [FunctionDecl.isMain_of_test hlead]
    cases contextParam? testing (params f.params) with
    | none => rfl
    | some context => simp
  · simp only [Option.toList_none, List.flatMap_nil, List.nil_append]
    split <;> rfl

theorem driver?_eq (testing : List String) (f : FunctionDecl) :
    f.driver? testing = (f.runCalls testing).head?.map (⟨f.name, ·⟩) := by
  unfold FunctionDecl.driver? FunctionDecl.runCalls driverEntry?
  cases f.body with
  | none => split <;> rfl
  | some g => split <;> rfl

/-! ### Files -/

theorem items_functions {decls : List Decl} {its : List Item}
    (h : decls.mapM (item testing) = .ok its) :
    its.filterMap (·.test) = (decls.filterMap Decl.function?).filterMap (testFunction? testing) ∧
      its.findSome? (·.driver) =
        (decls.filterMap Decl.function?).findSome? (FunctionDecl.driver? testing) := by
  induction decls generalizing its with
  | nil =>
    obtain rfl : its = [] := by simpa [pure, Except.pure] using h.symm
    exact ⟨rfl, rfl⟩
  | cons d decls ih =>
    obtain ⟨it, its, hit, hits, rfl⟩ := mapM_cons_eq_ok h
    obtain ⟨htest, -, hdriver⟩ := item_function hit
    obtain ⟨htests, hdrivers⟩ := ih hits
    rw [List.filterMap_cons, List.findSome?_cons, htest, hdriver, htests, hdrivers]
    cases hf : d.function? with
    | none =>
      rw [List.filterMap_cons_none hf]
      exact ⟨rfl, rfl⟩
    | some f =>
      rw [List.filterMap_cons_some hf, List.filterMap_cons, List.findSome?_cons]
      exact ⟨rfl, rfl⟩

variable {path : Path} {source : String} {file : SourceFile}

/-- **The tests and the driver of a file** are those of its functions. -/
theorem tests_eq_functions (hf : SourceFile.parse path source = .ok file) :
    file.tests = (functionsOf source).filterMap (testFunction? (testingNames file.imports)) ∧
      file.driver =
        (functionsOf source).findSome? (FunctionDecl.driver? (testingNames file.imports)) := by
  obtain ⟨-, -, tokens, trees, clause, decls, specs, its, hlex, hbuild, hdecls, hp⟩ :=
    parse_eq_ok hf
  rw [functionsOf_eq hlex hbuild hdecls, ← filterMap_dropImports, hp.tests_eq, hp.driver_eq]
  exact items_functions hp.its_eq

/-- The calls of a file that run a suite. -/
def SourceFile.runCalls (file : SourceFile) : List CallSite :=
  (functionsOf file.source).flatMap (FunctionDecl.runCalls (testingNames file.imports))

/-- The calls of a file that instrumentation looks at. -/
def SourceFile.watched (file : SourceFile) : List CallSite :=
  (functionsOf file.source).flatMap (FunctionDecl.watched (testingNames file.imports))

/-- The calls of a file that run subtests. -/
def SourceFile.testCalls (file : SourceFile) : List CallSite :=
  (functionsOf file.source).flatMap (FunctionDecl.testCalls (testingNames file.imports))

theorem watched_perm (file : SourceFile) :
    file.watched.Perm (file.testCalls ++ file.runCalls) :=
  (List.flatMap_append_perm ..).symm

theorem findSome?_take {α β γ : Type} (calls : α → List β) (entry : α → β → γ) (call : γ → β)
    (hcall : ∀ a b, call (entry a b) = b) (as : List α) :
    (as.findSome? fun a => (calls a).head?.map (entry a)).toList.map call =
      (as.flatMap calls).take 1 := by
  induction as with
  | nil => rfl
  | cons a as ih =>
    rw [List.findSome?_cons, List.flatMap_cons]
    cases calls a with
    | nil => exact ih
    | cons b bs => simp [hcall]

/-- **The calls that are redirected**: all that run subtests, and the first that runs a suite. -/
theorem calls_targets (hf : SourceFile.parse path source = .ok file) (sdk : Instrumentation) :
    (Patch.targets file sdk).map Prod.fst = file.testCalls ++ file.runCalls.take 1 := by
  obtain ⟨-, hsource, -⟩ := parse_eq_ok hf
  obtain ⟨htests, hdriver⟩ := tests_eq_functions hf
  have hfun : FunctionDecl.driver? (testingNames file.imports) =
      fun f => (f.runCalls (testingNames file.imports)).head?.map (⟨f.name, ·⟩) :=
    funext (driver?_eq _)
  have hfirst := findSome?_take (FunctionDecl.runCalls (testingNames file.imports))
    (fun f call => DriverEntry.mk f.name call) DriverEntry.runCall (fun _ _ => rfl)
    (functionsOf source)
  rw [← hfun, ← hdriver] at hfirst
  rw [Patch.targets, List.map_append, List.map_map, SourceFile.runCalls, hsource, ← hfirst,
    List.map_flatMap, SourceFile.testCalls, hsource, htests,
    List.filterMap_eq_flatMap_toList, List.flatMap_assoc]
  simp only [List.map_map, Function.comp_def, List.map_id']
  rfl

theorem length_targets (hf : SourceFile.parse path source = .ok file) (sdk : Instrumentation) :
    (Patch.targets file sdk).length = file.testCalls.length + min 1 file.runCalls.length := by
  rw [← List.length_map (f := Prod.fst), calls_targets hf, List.length_append, List.length_take]

theorem mem_watched_of_targets (hf : SourceFile.parse path source = .ok file)
    {sdk : Instrumentation} {s : CallSite × String} (hs : s ∈ Patch.targets file sdk) :
    s.1 ∈ file.watched := by
  have hmem := List.mem_map_of_mem (f := Prod.fst) hs
  rw [calls_targets hf] at hmem
  refine (watched_perm file).symm.subset ?_
  rcases List.mem_append.1 hmem with h | h
  · exact List.mem_append_left _ h
  · exact List.mem_append_right _ (List.mem_of_mem_take h)

/-- Nothing is redirected where there is no call to look at. -/
theorem targets_eq_nil_iff (hf : SourceFile.parse path source = .ok file) (sdk : Instrumentation) :
    Patch.targets file sdk = [] ↔ file.watched = [] := by
  have hlength := length_targets hf sdk
  have hperm := (watched_perm file).length_eq
  rw [List.length_append] at hperm
  rw [← List.length_eq_zero_iff, ← List.length_eq_zero_iff, hlength, hperm]
  omega

/-! ### Where calls stand -/

/-- Whether a call begins at one of the tokens, its receiver. -/
def CallSite.BeginsIn (c : CallSite) (tokens : List Token) : Prop :=
  ∃ t ∈ tokens, t.kind = .ident c.receiver ∧ t.span.start = c.callee.start

theorem CallSite.BeginsIn.mono {c : CallSite} {tokens tokens' : List Token}
    (h : c.BeginsIn tokens) (hsub : tokens ⊆ tokens') : c.BeginsIn tokens' := by
  obtain ⟨t, ht, h⟩ := h
  exact ⟨t, hsub ht, h⟩

/-- Whether every token begins behind the names in front of it. -/
def Distinct (tokens : List Token) : Prop :=
  tokens.Pairwise fun a b => ∀ name, a.kind = .ident name → a.span.start < b.span.start

theorem distinct_of_lex {tokens : List Token} (h : lex source = .ok tokens) : Distinct tokens := by
  obtain ⟨hscan, rfl⟩ := lex_eq_ok_iff.1 h
  have hrow := row_of_scan hscan
  refine (ascending_tokensFrom ..).imp_of_mem fun {a b} ha _ hab name hname => ?_
  have hinserted : a.isInserted = false := by simp [Token.isInserted, hname]
  obtain ⟨_, _, -, -, hstop, hread⟩ := spelled_of_mem_tokensFrom hrow ha hinserted (by simp [hname])
  have hpos : 0 < byteSize a.kind.text.toList := byteSize_pos hread.text_ne_nil
  omega

/-- A call begins at one place only. -/
theorem Distinct.not_beginsIn {as bs : List Token} (h : Distinct (as ++ bs)) {c : CallSite}
    (ha : c.BeginsIn as) : ¬ c.BeginsIn bs := by
  rintro ⟨b, hb, -, hstart'⟩
  obtain ⟨a, ha, hkind, hstart⟩ := ha
  have hlt := (List.pairwise_append.1 h).2.2 a ha b hb _ hkind
  omega

mutual

theorem located_of_mem_callsWithin {receiver method : String} {c : CallSite} {t : Tree}
    (h : c ∈ callsWithin receiver method t) : c.receiver = receiver ∧ c.BeginsIn t.flatten := by
  match t, h with
  | .group delim opening closing trees, h =>
    obtain ⟨hreceiver, hbegins⟩ := located_of_mem_callsFrom h
    refine ⟨hreceiver, hbegins.mono ?_⟩
    rw [Tree.flatten_group]
    exact fun t ht => by simp [ht]

/-- **Where the calls of trees stand**: each begins at a token of its receiver. -/
theorem located_of_mem_callsFrom {receiver method : String} {c : CallSite} {selected : Bool}
    {ts : List Tree} (h : c ∈ callsFrom receiver method selected ts) :
    c.receiver = receiver ∧ c.BeginsIn (Tree.flattenAll ts) := by
  match ts, h with
  | t :: ts, h =>
    rw [callsFrom, List.mem_append, List.mem_append] at h
    rw [Tree.flattenAll_cons]
    rcases h with (h | h) | h
    · cases selected with
      | true => exact absurd h List.not_mem_nil
      | false =>
        obtain ⟨recv, dot, name, opening, closing, inner, us, he, hreceiver, hkind, -, -, hcallee,
          -⟩ := callAt_eq_some (by simpa using h)
        obtain ⟨rfl, rfl⟩ := List.cons.inj he
        exact ⟨hreceiver, recv, by simp, by rw [hkind, hreceiver], by rw [hcallee]; rfl⟩
    · obtain ⟨hreceiver, hbegins⟩ := located_of_mem_callsWithin h
      exact ⟨hreceiver, hbegins.mono (List.subset_append_left ..)⟩
    · obtain ⟨hreceiver, hbegins⟩ := located_of_mem_callsFrom h
      exact ⟨hreceiver, hbegins.mono (List.subset_append_right ..)⟩

end

/-- The calls of a declaration that instrumentation looks at. -/
def Decl.watched (testing : List String) (d : Decl) : List CallSite :=
  d.function?.toList.flatMap (FunctionDecl.watched testing)

/-- **The calls of a function** begin in its body. -/
theorem located_of_mem_watched {g : Group} {c : CallSite} (hg : f.body = some g)
    (h : c ∈ f.watched testing) : f.receiver? testing g.trees = some c.receiver ∧
      c.BeginsIn (Tree.flattenAll g.trees) := by
  rw [watched_eq hg] at h
  cases hr : f.receiver? testing g.trees with
  | none =>
    rw [hr] at h
    exact absurd h List.not_mem_nil
  | some receiver =>
    rw [hr] at h
    obtain ⟨rfl, hbegins⟩ := located_of_mem_callsFrom h
    exact ⟨rfl, hbegins⟩

theorem function?_eq_some {d : Decl} (h : d.function? = some f) :
    d.head.isKeyword .kwFunc = true ∧ functionDecl d.head.span d.tail = .ok f := by
  unfold Decl.function? at h
  split at h
  · rename_i hfunc
    refine ⟨hfunc, ?_⟩
    cases hd : functionDecl d.head.span d.tail with
    | error e => rw [hd] at h; cases h
    | ok f' =>
      rw [hd] at h
      obtain rfl := Option.some.inj h
      rfl
  · cases h

/-- The calls of a declaration are calls on one receiver in the body of its function, the last of its
trees. -/
theorem exists_body_of_mem_watched {d : Decl} {c : CallSite} (h : c ∈ d.watched testing) :
    ∃ (receiver : String) (before : List Tree) (g : Group),
      c ∈ calls receiver Known.runMethod g.trees ∧
      d.tail = before ++ [.group .brace g.opening g.closing g.trees] := by
  obtain ⟨f, hf, hc⟩ := List.mem_flatMap.1 h
  obtain ⟨-, hfunction⟩ := function?_eq_some (Option.mem_toList.1 hf)
  cases hg : f.body with
  | none =>
    rw [watched_of_no_body hg] at hc
    exact absurd hc List.not_mem_nil
  | some g =>
    obtain ⟨before, hbefore⟩ := body_of_functionDecl hfunction hg
    rw [watched_eq hg] at hc
    split at hc
    · exact ⟨_, before, g, hc, hbefore⟩
    · exact absurd hc List.not_mem_nil

/-- The calls of a declaration begin in it. -/
theorem beginsIn_of_mem_watched {d : Decl} {c : CallSite} (h : c ∈ d.watched testing) :
    c.BeginsIn (Tree.flattenAll d.trees) := by
  obtain ⟨receiver, before, g, hc, hbefore⟩ := exists_body_of_mem_watched h
  refine (located_of_mem_callsFrom hc).2.mono fun t ht => ?_
  rw [Decl.trees, hbefore]
  simp [ht]

/-- **The calls of a file** are calls on one receiver in a stretch of its tokens. -/
theorem exists_body_of_mem_targets {tokens : List Token}
    (hf : SourceFile.parse path source = .ok file) (hl : lex source = .ok tokens)
    {sdk : Instrumentation} {site : CallSite × String} (hs : site ∈ Patch.targets file sdk) :
    ∃ receiver body, site.1 ∈ calls receiver Known.runMethod body ∧ (∀ t ∈ body, t.Proper) ∧
      Tree.flattenAll body <:+: tokens := by
  obtain ⟨-, hsource, tokens', trees, clause, decls, -, -, hlex, hbuild, hdecls, -⟩ := parse_eq_ok hf
  obtain rfl : tokens = tokens' := Except.ok.inj (hl.symm.trans hlex)
  have hwatched := mem_watched_of_targets hf hs
  rw [SourceFile.watched, hsource, functionsOf_eq hlex hbuild hdecls] at hwatched
  obtain ⟨f, hf, hwatched⟩ := List.mem_flatMap.1 hwatched
  obtain ⟨d, hd, hdf⟩ := List.mem_filterMap.1 hf
  have hcall : site.1 ∈ d.watched (testingNames file.imports) :=
    List.mem_flatMap.2 ⟨f, Option.mem_toList.2 hdf, hwatched⟩
  obtain ⟨receiver, before, g, hc, hbefore⟩ := exists_body_of_mem_watched hcall
  have hd := List.mem_cons_of_mem clause hd
  refine ⟨receiver, g.trees, hc, ?_, ?_⟩
  · have hproper := (proper_of_splitDecls hdecls (Tree.proper_of_build hbuild) d hd).trees
    cases hproper (.group .brace g.opening g.closing g.trees) (by simp [hbefore]) with
    | group hg => exact hg
  · have htokens := tokens_of_splitDecls hdecls
    rw [Tree.flattenAll_of_build hbuild] at htokens
    -- the body is part of its declaration, and that of the file
    have hbody : Tree.flattenAll g.trees <:+: d.tokens :=
      ⟨d.head.flatten ++ (Tree.flattenAll before ++ [⟨.operator .lbrace, g.opening⟩]),
        [⟨.operator .rbrace, g.closing⟩, d.terminator],
        by simp [Decl.tokens, hbefore, Delimiter.opening, Delimiter.closing]⟩
    have hdecl : d.tokens <:+: (clause :: decls).flatMap Decl.tokens := by
      obtain ⟨front, behind, hsplit⟩ := List.append_of_mem hd
      exact ⟨front.flatMap Decl.tokens, behind.flatMap Decl.tokens, by simp [hsplit]⟩
    rw [← htokens] at hdecl
    exact hbody.trans (hdecl.trans (List.takeWhile_prefix _).isInfix)

end TestWeave.Source
