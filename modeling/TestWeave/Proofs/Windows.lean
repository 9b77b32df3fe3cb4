import TestWeave.Change.Patch
import TestWeave.Proofs.Parts

/-!
# Calls in a token list

`Marked` says that a token list holds certain calls, in order: each is the window of four tokens
`receiver . Run (`, inside braces and with no dot in front.

* `Marked.calls`: the calls that are found in trees are marked in their tokens.
* `Marked.sublist`: marks can be left out.
* `marked_targets`: the calls of a file that instrumentation changes, in the order in which they
  stand, are marked in its tokens behind the package clause.
-/

namespace TestWeave.Source

/-- The four tokens of a call up to its arguments. -/
structure WindowAt (call : CallSite) (recv dot name paren : Token) : Prop where
  recv_kind : recv.kind = .ident call.receiver
  dot_kind : dot.kind = .operator .dot
  name_kind : name.kind = .ident Known.runMethod
  paren_kind : paren.kind = .operator .lparen
  callee : call.callee = recv.span.through name.span
  openParen : call.openParen = paren.span

/-- The token list holds the calls `sites`, each with its new entry. `around` lists the groups that
are open in front of it, and `selected` says whether a dot stands there. -/
inductive Marked : List Delimiter → Bool → List Token → List (CallSite × String) → Prop
  | nil {around selected} : Marked around selected [] []
  | skip {around selected token tokens sites} :
      Marked (token.kind.stack around) (token.kind == .operator .dot) tokens sites →
      Marked around selected (token :: tokens) sites
  | site {around recv dot name paren next rest call entry sites} :
      Delimiter.brace ∈ around → WindowAt call recv dot name paren →
      (call.args = [] → next.kind = .operator .rparen ∨ next.kind = .operator .comma) →
      Marked around false (dot :: name :: paren :: next :: rest) sites →
      Marked around false (recv :: dot :: name :: paren :: next :: rest) ((call, entry) :: sites)

/-- The calls of a declaration that instrumentation may change, each with its new entry. -/
def Item.sites (it : Item) (sdk : Instrumentation) : List (CallSite × String) :=
  (it.test.toList.flatMap fun test =>
    test.subtests.map fun call =>
      (call, if test.isSuiteEntry then sdk.suiteEntry else sdk.subtestEntry)) ++
  it.driver.toList.map fun driver => (driver.runCall, sdk.suiteEntry)

variable {around : List Delimiter} {selected : Bool} {tokens rest : List Token}
  {sites : List (CallSite × String)}

theorem isOperator_leaf (op : Operator) (token : Token) :
    (Tree.leaf token).isOperator op = (token.kind == .operator op) := by
  rcases token with ⟨kind, span⟩
  cases kind with
  | operator o => by_cases h : o = op <;> simp [Tree.isOperator, h]
  | _ => rfl

namespace Marked

/-- A list without marks. -/
theorem none (around : List Delimiter) (selected : Bool) (tokens : List Token) :
    Marked around selected tokens [] := by
  induction tokens generalizing around selected with
  | nil => exact .nil
  | cons token tokens ih => exact .skip (ih ..)

theorem stack_recv {call : CallSite} {recv dot name paren : Token}
    (h : WindowAt call recv dot name paren) (around : List Delimiter) :
    recv.kind.stack around = around ∧ (recv.kind == .operator .dot) = false := by
  rw [h.recv_kind]
  exact ⟨rfl, rfl⟩

/-- **Marks can be left out.** -/
theorem sublist {sites' : List (CallSite × String)} (h : Marked around selected tokens sites)
    (hs : sites'.Sublist sites) : Marked around selected tokens sites' := by
  induction h generalizing sites' with
  | nil =>
    rw [List.sublist_nil.1 hs]
    exact .nil
  | skip _ ih => exact .skip (ih hs)
  | @site around recv _ _ _ _ _ call entry sites hb hw ha h ih =>
    cases hs with
    | cons _ hs =>
      obtain ⟨h1, h2⟩ := stack_recv hw around
      refine .skip ?_
      rw [h1, h2]
      exact ih hs
    | cons_cons _ hs => exact .site hb hw ha (ih hs)

/-! ### The tokens of trees -/

/-- In front of marked tokens, a proper tree stands without marks. -/
theorem skip_tree {t : Tree} (ht : t.Proper) (h : Marked around (t.isOperator .dot) rest sites) :
    Marked around selected (t.flatten ++ rest) sites := by
  induction ht generalizing around selected rest with
  | @leaf token hk =>
    rw [Tree.flatten_leaf, List.singleton_append]
    refine .skip ?_
    rwa [TokenKind.stack_of_isPlain hk, ← isOperator_leaf]
  | @group delim opening closing trees ht ih =>
    rw [Tree.flatten_group, List.cons_append, List.append_assoc]
    refine .skip ?_
    rw [TokenKind.stack_opening]
    have hclose : ∀ d, Marked (delim :: around) d
        ([⟨.operator delim.closing, closing⟩] ++ rest) sites := by
      intro d
      refine .skip ?_
      rw [TokenKind.stack_closing, Delimiter.closing_beq_dot]
      exact h
    -- the trees one after the other, whatever the flag behind the last one
    have all : ∀ d, Marked (delim :: around) d (Tree.flattenAll trees ++
        ([⟨.operator delim.closing, closing⟩] ++ rest)) sites := by
      clear h
      induction trees with
      | nil => simpa using hclose
      | cons t ts iht =>
        intro d
        rw [Tree.flattenAll_cons, List.append_assoc]
        exact ih t (by simp) (iht (fun u hu => ht u (by simp [hu]))
          (fun u hu => ih u (by simp [hu])) _)
    exact all _

theorem skip_trees {ts : List Tree} (ht : ∀ t ∈ ts, t.Proper)
    (h : ∀ d, Marked around d rest sites) (selected : Bool) :
    Marked around selected (Tree.flattenAll ts ++ rest) sites := by
  induction ts generalizing selected with
  | nil => simpa using h selected
  | cons t ts ih =>
    rw [Tree.flattenAll_cons, List.append_assoc]
    exact skip_tree (ht t (by simp)) (ih (fun u hu => ht u (by simp [hu])) _)

end Marked

/-! ### Calls -/

/-- The tokens of a call are leaves and the group of its arguments. -/
theorem trees_of_call {method : String} {us : List Tree} {rest tokens : List Token}
    {dot name paren : Token} (hus : ∀ u ∈ us, u.Proper) (hr : Stops rest)
    (hdot : dot.kind = .operator .dot) (hname : name.kind = .ident method)
    (hparen : paren.kind = .operator .lparen)
    (h : Tree.flattenAll us ++ rest = dot :: name :: paren :: tokens) :
    ∃ closing inner us', us =
        .leaf dot :: .leaf name :: .group .paren paren.span closing inner :: us' ∧
      (∀ u ∈ inner, u.Proper) ∧ (∀ u ∈ us', u.Proper) ∧ Tree.flattenAll inner ++
        (⟨.operator (Delimiter.closing .paren), closing⟩ :: (Tree.flattenAll us' ++ rest)) =
          tokens := by
  obtain ⟨us₁, rfl, hus₁, h₁⟩ := eq_leaf_of_flattenAll hus hr (by rw [hdot]; rfl) h
  obtain ⟨us₂, rfl, hus₂, h₂⟩ := eq_leaf_of_flattenAll hus₁ hr (by rw [hname]; rfl) h₁
  have hopens : paren.kind = .operator (Delimiter.opening .paren) := hparen
  obtain ⟨closing, inner, us₃, rfl, hinner, hus₃, h₃⟩ := eq_group_of_flattenAll hus₂ hr hopens h₂
  exact ⟨closing, inner, us₃, rfl, hinner, hus₃, h₃⟩

/-- Without arguments, a call holds nothing or begins with a comma. -/
theorem head_of_no_args {trees : List Tree} (h : (Tree.splitOn .comma trees).filterMap spanOf? = []) :
    ∀ t ∈ trees.head?, t.isOperator .comma = true := by
  cases trees with
  | nil => simp
  | cons t ts =>
    rintro _ ⟨⟩
    by_contra hc
    simp only [Tree.splitOn, splitWhere, hc, if_false] at h
    split at h <;> simp [spanOf?] at h

/-- The call that begins a list of trees begins their tokens too. -/
theorem callAt_eq_some {receiver method : String} {trees : List Tree} {call : CallSite}
    (h : callAt receiver method trees = some call) :
    ∃ recv dot name opening closing inner rest,
      trees = .leaf recv :: .leaf dot :: .leaf name :: .group .paren opening closing inner :: rest ∧
      call.receiver = receiver ∧ recv.kind = .ident receiver ∧ dot.kind = .operator .dot ∧
      name.kind = .ident method ∧ call.callee = recv.span.through name.span ∧
      call.openParen = opening ∧
      call.args = (Tree.splitOn .comma inner).filterMap spanOf? := by
  unfold callAt at h
  split at h
  · rename_i recv dot name args rest
    split at h
    · rename_i g hg
      split at h
      · rename_i hc
        simp only [Bool.and_eq_true] at hc
        obtain ⟨s1, rfl⟩ := isIdent_eq_true hc.1.1
        obtain ⟨s2, rfl⟩ := isOperator_eq_true hc.1.2
        obtain ⟨s3, rfl⟩ := isIdent_eq_true hc.2
        simp only [Option.some.injEq] at h
        subst h
        exact ⟨_, _, _, _, _, _, _, by rw [← group?_eq_some hg], rfl, rfl, rfl, rfl, rfl, rfl, rfl⟩
      · simp at h
    · simp at h
  · simp at h

/-- Behind an opening parenthesis stands the first token of what it holds. -/
theorem exists_argument (opening closing : Span) (inner us : List Tree) (rest : List Token) :
    ∃ next tokens, Tree.flattenAll (.group .paren opening closing inner :: us) ++ rest =
        ⟨.operator .lparen, opening⟩ :: next :: tokens ∧
      ((Tree.splitOn .comma inner).filterMap spanOf? = [] →
        next.kind = .operator .rparen ∨ next.kind = .operator .comma) := by
  cases inner with
  | nil =>
    exact ⟨⟨.operator .rparen, closing⟩, Tree.flattenAll us ++ rest,
      by simp [Delimiter.opening, Delimiter.closing], fun _ => .inl rfl⟩
  | cons u inner =>
    obtain ⟨next, tokens, hu⟩ : ∃ next tokens, u.flatten = next :: tokens := by
      cases u with
      | leaf token => exact ⟨token, [], Tree.flatten_leaf token⟩
      | group delim opening closing trees => exact ⟨_, _, Tree.flatten_group ..⟩
    refine ⟨next, tokens ++ Tree.flattenAll inner ++ ⟨.operator .rparen, closing⟩ ::
      Tree.flattenAll us ++ rest, by simp [hu, Delimiter.opening, Delimiter.closing], ?_⟩
    intro hargs
    obtain ⟨span, rfl⟩ := isOperator_eq_true (head_of_no_args hargs u rfl)
    rw [Tree.flatten_leaf] at hu
    obtain ⟨rfl, -⟩ := List.cons.inj hu
    exact .inr rfl

/-- **The call that begins trees** is marked in their tokens, and its receiver holds no call. -/
theorem Marked.call {receiver entry : String} {call : CallSite} {t : Tree} {ts : List Tree}
    (h : callAt receiver Known.runMethod (t :: ts) = some call) (hb : Delimiter.brace ∈ around)
    (hlater : Marked around (t.isOperator .dot) (Tree.flattenAll ts ++ rest) sites) :
    callsWithin receiver Known.runMethod t = [] ∧
      Marked around false (t.flatten ++ (Tree.flattenAll ts ++ rest)) ((call, entry) :: sites) := by
  obtain ⟨recv, dot, name, opening, closing, inner, us, htrees, hreceiver, hrecv, hdot, hname,
    hcallee, hopen, hargs⟩ := callAt_eq_some h
  obtain ⟨rfl, rfl⟩ := List.cons.inj htrees
  have hwindow : WindowAt call recv dot name ⟨.operator .lparen, opening⟩ :=
    ⟨by rw [hreceiver, hrecv], hdot, hname, rfl, hcallee, hopen⟩
  obtain ⟨next, tokens, htokens, hnext⟩ := exists_argument opening closing inner us rest
  have hselected : (Tree.leaf recv).isOperator .dot = false := by
    cases recv with
    | mk kind span =>
      subst hrecv
      rfl
  rw [hselected] at hlater
  rw [Tree.flattenAll_cons, Tree.flattenAll_cons, Tree.flatten_leaf, Tree.flatten_leaf,
    List.append_assoc, List.append_assoc, htokens] at hlater ⊢
  exact ⟨by rw [callsWithin], .site hb hwindow (fun hnone => hnext (hargs ▸ hnone)) hlater⟩

mutual

theorem Marked.callsWithin {around : List Delimiter} (selected : Bool) {rest : List Token}
    {sites : List (CallSite × String)} (receiver entry : String) {t : Tree} (ht : t.Proper)
    (hb : Delimiter.brace ∈ around) (h : Marked around (t.isOperator .dot) rest sites) :
    Marked around selected (t.flatten ++ rest)
      ((callsWithin receiver Known.runMethod t).map (·, entry) ++ sites) := by
  match t, ht, h with
  | .leaf token, ht, h =>
    rw [Source.callsWithin]
    exact skip_tree ht h
  | .group delim opening closing trees, .group ht, h =>
    rw [Source.callsWithin, Tree.flatten_group, List.cons_append, List.append_assoc]
    refine .skip ?_
    rw [TokenKind.stack_opening, Delimiter.opening_beq_dot]
    refine Marked.calls false receiver entry ht (by simp [hb]) fun d => ?_
    refine .skip ?_
    rw [TokenKind.stack_closing, Delimiter.closing_beq_dot]
    exact h

/-- **The calls that are found in trees** are marked in their tokens. -/
theorem Marked.calls {around : List Delimiter} (selected : Bool) {rest : List Token}
    {sites : List (CallSite × String)} (receiver entry : String) {ts : List Tree}
    (ht : ∀ t ∈ ts, t.Proper) (hb : Delimiter.brace ∈ around)
    (h : ∀ d, Marked around d rest sites) :
    Marked around selected (Tree.flattenAll ts ++ rest)
      ((callsFrom receiver Known.runMethod selected ts).map (·, entry) ++ sites) := by
  match ts, ht with
  | [], _ =>
    rw [callsFrom]
    exact h selected
  | t :: ts, ht =>
    obtain ⟨hp, hps⟩ := List.forall_mem_cons.1 ht
    have later := Marked.calls (t.isOperator .dot) receiver entry hps hb h
    have inside := Marked.callsWithin selected receiver entry hp hb later
    rw [callsFrom, Tree.flattenAll_cons, List.append_assoc]
    simp only [List.map_append, List.append_assoc]
    cases selected with
    | true => exact inside
    | false =>
      rw [if_neg Bool.false_ne_true]
      cases hcall : callAt receiver Known.runMethod (t :: ts) with
      | none => exact inside
      | some call =>
        obtain ⟨hnone, hmarked⟩ := Marked.call hcall hb later
        rw [hnone]
        exact hmarked

end

/-! ### Files -/

/-- The calls of a function are among those of one receiver in its body. -/
theorem sites_of_function (testing : List String) (f : FunctionDecl) (sdk : Instrumentation) :
    (f.item testing).sites sdk = [] ∨ ∃ g receiver entry, f.body = some g ∧
      ((f.item testing).sites sdk).Sublist
        ((calls receiver Known.runMethod g.trees).map (·, entry)) := by
  simp only [FunctionDecl.item, FunctionDecl.driver?, Item.sites]
  cases hb : f.body with
  | none =>
    left
    have htest : testFunction? testing f = none := by simp [testFunction?, hb]
    have hdriver : driverEntry? testing f = none := by simp [hb, driverEntry?]
    simp [htest, hdriver]
  | some g =>
    -- a test is no entry point, so one of the two lists is empty
    by_cases hlead : Text.startsWith Known.testLead f.name = true
    · have hmain := FunctionDecl.isMain_of_test hlead
      cases hc : contextParam? testing (params f.params) with
      | none => exact .inl (by simp [testFunction?, hlead, hb, hc, hmain])
      | some c =>
        obtain ⟨context, isSuiteEntry⟩ := c
        exact .inr ⟨g, context, if isSuiteEntry then sdk.suiteEntry else sdk.subtestEntry, rfl,
          by simp [testFunction?, hlead, hb, hc, hmain]⟩
    · have htest : testFunction? testing f = none := by simp [testFunction?, hlead]
      cases f.isMain with
      | false => exact .inl (by simp [htest])
      | true =>
        refine .inr ⟨g, (driverBinding? testing g.trees).getD Known.driverName, sdk.suiteEntry,
          rfl, ?_⟩
        simp only [htest, driverEntry?, hb]
        cases calls ((driverBinding? testing g.trees).getD Known.driverName) Known.runMethod
            g.trees <;> simp

theorem Marked.terminator {d : Decl} (hd : d.Proper) (hr : ∀ s, Marked [] s rest sites)
    (selected : Bool) : Marked [] selected ([d.terminator] ++ rest) sites := by
  refine .skip ?_
  rw [hd.terminator]
  exact hr _

/-- In front of marked tokens, a declaration stands without marks. -/
theorem Marked.skip_decl {d : Decl} (hd : d.Proper) (hr : ∀ s, Marked [] s rest sites)
    (selected : Bool) : Marked [] selected (d.tokens ++ rest) sites := by
  have := skip_trees hd.trees (Marked.terminator hd hr) selected
  rwa [Tree.flattenAll_cons, ← List.append_assoc] at this

theorem Marked.skip_decls {decls : List Decl} (hd : ∀ d ∈ decls, d.Proper)
    (hr : ∀ s, Marked [] s rest sites) (selected : Bool) :
    Marked [] selected (decls.flatMap Decl.tokens ++ rest) sites := by
  induction decls generalizing selected with
  | nil => exact hr _
  | cons d decls ih =>
    obtain ⟨h1, h2⟩ := List.forall_mem_cons.1 hd
    rw [List.flatMap_cons, List.append_assoc]
    exact skip_decl h1 (ih h2) selected

/-- The calls in the body of a function are marked in the tokens of its declaration. -/
theorem Marked.body {d : Decl} {keyword : Span} {f : FunctionDecl} {g : Group}
    (hf : functionDecl keyword d.tail = .ok f) (hg : f.body = some g) (hd : d.Proper)
    (hr : ∀ s, Marked [] s rest sites) (receiver entry : String) (selected : Bool) :
    Marked [] selected (d.tokens ++ rest)
      ((Source.calls receiver Known.runMethod g.trees).map (·, entry) ++ sites) := by
  obtain ⟨before, hbefore⟩ := body_of_functionDecl hf hg
  have htrees := hd.trees
  rw [hbefore, ← List.cons_append] at htrees
  obtain ⟨hfront, hbody⟩ := List.forall_mem_append.1 htrees
  have hproper : ∀ t ∈ g.trees, t.Proper := by
    cases hbody _ (List.mem_singleton_self _) with
    | group h => exact h
  have hmarked : ∀ s, Marked [] s
      (Tree.flattenAll [.group .brace g.opening g.closing g.trees] ++ ([d.terminator] ++ rest))
      ((Source.calls receiver Known.runMethod g.trees).map (·, entry) ++ sites) := by
    intro s
    rw [Tree.flattenAll_cons, Tree.flatten_group, Tree.flattenAll_nil, List.append_nil,
      List.cons_append, List.append_assoc]
    refine .skip ?_
    refine Marked.calls _ receiver entry hproper (by simp [Delimiter.opening, TokenKind.stack,
      TokenKind.opens?]) fun s => ?_
    exact .skip (terminator hd hr _)
  have := skip_trees hfront hmarked selected
  rw [Decl.tokens, hbefore]
  simpa using this

/-- The calls of a declaration are marked in its tokens. -/
theorem Marked.item {testing : List String} {d : Decl} {it : Item} (sdk : Instrumentation)
    (h : Source.item testing d = .ok it) (hd : d.Proper) (hr : ∀ d, Marked [] d rest sites)
    (selected : Bool) : Marked [] selected (d.tokens ++ rest) (it.sites sdk ++ sites) := by
  cases item_eq_ok_iff.1 h with
  | @function f _ hf =>
    obtain hnone | ⟨g, receiver, entry, hg, hsites⟩ := sites_of_function testing f sdk
    · rw [hnone]
      exact skip_decl hd hr selected
    · exact (Marked.body hf hg hd hr receiver entry selected).sublist (hsites.append_right sites)
  | binding => exact skip_decl hd hr selected

theorem Marked.items {testing : List String} {decls : List Decl} {its : List Item}
    (sdk : Instrumentation) (h : decls.mapM (Source.item testing) = .ok its)
    (hd : ∀ d ∈ decls, d.Proper) (hr : ∀ s, Marked [] s rest sites) (selected : Bool) :
    Marked [] selected (decls.flatMap Decl.tokens ++ rest)
      (its.flatMap (·.sites sdk) ++ sites) := by
  induction decls generalizing its selected with
  | nil =>
    obtain rfl : its = [] := by simpa [pure, Except.pure] using h.symm
    exact hr _
  | cons d decls ih =>
    obtain ⟨h1, h2⟩ := List.forall_mem_cons.1 hd
    obtain ⟨it, its', hi, hs, rfl⟩ := mapM_cons_eq_ok h
    rw [List.flatMap_cons, List.flatMap_cons, List.append_assoc, List.append_assoc]
    exact Marked.item sdk hi h1 (ih hs h2) selected

theorem toList_findSome?_sublist {α β : Type} (f : α → Option β) (l : List α) :
    (l.findSome? f).toList.Sublist (l.filterMap f) := by
  rw [← List.head?_filterMap]
  cases l.filterMap f with
  | nil => simp
  | cons b bs => simp

/-- The calls that are changed are among those of the declarations. -/
theorem targets_subperm {file : SourceFile} {its : List Item} (sdk : Instrumentation)
    (ht : file.tests = its.filterMap (·.test)) (hd : file.driver = its.findSome? (·.driver)) :
    (Change.Patch.targets file sdk).Subperm (its.flatMap (·.sites sdk)) := by
  have hall : (its.flatMap (·.sites sdk)).Perm _ := (List.flatMap_append_perm its _ _).symm
  refine hall.subperm_left.2 ?_
  rw [Change.Patch.targets, ht, hd, List.filterMap_eq_flatMap_toList, List.flatMap_assoc]
  have := (toList_findSome?_sublist (·.driver) its).map fun d => (d.runCall, sdk.suiteEntry)
  rw [List.filterMap_eq_flatMap_toList, List.map_flatMap] at this
  exact (this.append_left _).subperm

/-- The first three tokens of a source: the package clause and the semicolon that ends it. -/
structure ClauseTokens (file : SourceFile) (keyword name semi : Token) : Prop where
  keyword_kind : keyword.kind = .keyword .kwPackage
  name_kind : name.kind = .ident file.package
  semi_kind : semi.kind = .operator .semi
  anchor : file.anchor =
    if semi.span.isEmpty then ⟨name.span.stop, false⟩ else ⟨semi.span.stop, true⟩

/-- **The calls that are changed** are marked behind the package clause, in the order in which they
stand. -/
theorem marked_targets {path : Path} {source : String} {file : SourceFile} (sdk : Instrumentation)
    (h : SourceFile.parse path source = .ok file) :
    ∃ keyword name semi rest sites, lex source = .ok (keyword :: name :: semi :: rest) ∧
      ClauseTokens file keyword name semi ∧ sites.Perm (Change.Patch.targets file sdk) ∧
      ∀ s, Marked [] s (semi :: rest) sites := by
  obtain ⟨-, -, tokens, trees, clause, decls, specs, its, hl, ht, hd, hp⟩ := parse_eq_ok h
  have hflat := tokens_of_splitDecls hd
  have hproper := proper_of_splitDecls hd (Tree.proper_of_build ht)
  rw [Tree.flattenAll_of_build ht] at hflat
  have htokens := List.takeWhile_append_dropWhile (p := fun t : Token => t.kind != .eof)
    (l := tokens)
  rw [hflat] at htokens
  obtain ⟨s1, s2, hhead, htail, hanchor⟩ := packageClause_eq_ok_iff.1 hp.clause_eq
  obtain ⟨hc, hds⟩ := List.forall_mem_cons.1 hproper
  -- the declarations behind the clause: imports first
  have himports : ∀ d ∈ decls.takeWhile Decl.isImport, d.Proper :=
    fun d h => hds d ((List.takeWhile_sublist _).subset h)
  have hitems : ∀ d ∈ decls.dropWhile Decl.isImport, d.Proper :=
    fun d h => hds d ((List.dropWhile_sublist _).subset h)
  have hmarked := Marked.skip_decls himports
    (Marked.items sdk hp.its_eq hitems fun s => Marked.none [] s
      (tokens.dropWhile fun t => t.kind != .eof))
  rw [← List.append_assoc, ← List.flatMap_append, List.takeWhile_append_dropWhile] at hmarked
  have hclause : clause.tokens = [⟨.keyword .kwPackage, s1⟩, ⟨.ident file.package, s2⟩,
      clause.terminator] := by
    simp [Decl.tokens, hhead, htail]
  obtain ⟨sites, hperm, hsub⟩ := targets_subperm sdk hp.tests_eq hp.driver_eq
  have htokens : tokens = ⟨.keyword .kwPackage, s1⟩ :: ⟨.ident file.package, s2⟩ ::
      clause.terminator :: (decls.flatMap Decl.tokens ++
        tokens.dropWhile fun t => t.kind != .eof) := by
    conv_lhs => rw [← htokens, List.flatMap_cons, hclause]
    rfl
  rw [htokens] at hl
  refine ⟨_, _, _, _, sites, hl, ⟨rfl, rfl, hc.terminator, hanchor⟩, hperm, fun s => ?_⟩
  refine (Marked.terminator hc hmarked s).sublist ?_
  simpa using hsub

end TestWeave.Source
