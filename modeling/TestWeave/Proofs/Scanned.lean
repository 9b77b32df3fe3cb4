import TestWeave.Proofs.Arguments
import TestWeave.Proofs.Related
import TestWeave.Proofs.Watched

/-!
# Calls as a scan finds them

Calls are collected by a walk over trees that looks at neighbours on one level only. A scan of the
tokens, which knows nothing of levels, finds the same calls in the same order.

* `windows`: where four tokens begin a call and no dot stands in front; `mem_windows_iff`.
* `CallSite.ReadFrom`: the call that begins at some tokens, with its arguments.
* `CallSite.ReadFrom.unique`: tokens determine the call that begins there.
* `exists_windows`, `forall₂_windows`: the calls that are collected from trees and the windows in
  their tokens.
* `calls_scanned`: the calls are read from the windows, one from each, and begin one behind the other.
-/

namespace TestWeave.Source

variable {receiver method : String} {selected : Bool} {token : Token} {tokens window : List Token}
  {rest : List Token} {ts : List Tree} {call : CallSite}

/-! ### Windows -/

/-- Whether tokens begin with `receiver . method (`. -/
def opensCall (receiver method : String) : List Token → Bool
  | recv :: dot :: name :: paren :: _ =>
    recv.kind == .ident receiver && dot.kind == .operator .dot && name.kind == .ident method &&
      paren.kind == .operator .lparen
  | _ => false

/-- The tokens from each place on at which a call begins. `selected` says whether a dot stands in front
of the first. -/
def windows (receiver method : String) (selected : Bool) : List Token → List (List Token)
  | [] => []
  | token :: tokens =>
    let later := windows receiver method (token.kind == .operator .dot) tokens
    if !selected && opensCall receiver method (token :: tokens) then (token :: tokens) :: later
    else later

theorem opensCall_iff : opensCall receiver method tokens = true ↔
    ∃ recv dot name paren rest, tokens = recv :: dot :: name :: paren :: rest ∧
      recv.kind = .ident receiver ∧ dot.kind = .operator .dot ∧ name.kind = .ident method ∧
        paren.kind = .operator .lparen := by
  constructor
  · intro h
    unfold opensCall at h
    split at h
    · simp only [Bool.and_eq_true, beq_iff_eq] at h
      obtain ⟨⟨⟨hrecv, hdot⟩, hname⟩, hparen⟩ := h
      exact ⟨_, _, _, _, _, rfl, hrecv, hdot, hname, hparen⟩
    · simp at h
  · rintro ⟨recv, dot, name, paren, rest, rfl, hrecv, hdot, hname, hparen⟩
    simp [opensCall, hrecv, hdot, hname, hparen]

/-- **Where the windows are**: behind all that can stand in front of a call, which ends in no dot. -/
theorem mem_windows_iff : window ∈ windows receiver method selected tokens ↔
    opensCall receiver method window = true ∧ ∃ front, tokens = front ++ window ∧
      ((front.getLast?.map (·.kind == .operator .dot)).getD selected) = false := by
  induction tokens generalizing selected with
  | nil =>
    simp only [windows, List.not_mem_nil, false_iff, not_and]
    rintro hopens ⟨front, hfront, -⟩
    obtain rfl : window = [] := (List.append_eq_nil_iff.1 hfront.symm).2
    simp [opensCall] at hopens
  | cons token tokens ih =>
    -- a token more in front of another leaves the last one as it is
    have hlast : ∀ front : List Token,
        ((token :: front).getLast?.map (·.kind == .operator .dot)).getD selected =
          (front.getLast?.map (·.kind == .operator .dot)).getD (token.kind == .operator .dot) := by
      intro front
      rw [List.getLast?_cons]
      cases front.getLast? <;> rfl
    have hlater : (∃ front, tokens = front ++ window ∧
        (front.getLast?.map (·.kind == .operator .dot)).getD (token.kind == .operator .dot) = false) ↔
          ∃ front, token :: tokens = (token :: front) ++ window ∧
            ((token :: front).getLast?.map (·.kind == .operator .dot)).getD selected = false := by
      simp only [hlast, List.cons_append, List.cons.injEq, true_and]
    have hmem : window ∈ windows receiver method selected (token :: tokens) ↔
        (selected = false ∧ opensCall receiver method window = true ∧ token :: tokens = window) ∨
          window ∈ windows receiver method (token.kind == .operator .dot) tokens := by
      rw [windows]
      split
      · rename_i hbegins
        obtain ⟨hselected, hopens⟩ := Bool.and_eq_true_iff.1 hbegins
        rw [List.mem_cons, or_congr_left]
        constructor
        · rintro rfl
          exact ⟨by simpa using hselected, hopens, rfl⟩
        · rintro ⟨-, -, rfl⟩
          rfl
      · rename_i hbegins
        rw [or_iff_right]
        rintro ⟨rfl, hopens, rfl⟩
        exact hbegins (by simp [hopens])
    rw [hmem, ih, hlater]
    constructor
    · rintro (⟨hselected, hopens, rfl⟩ | ⟨hopens, front, hfront, hdot⟩)
      · exact ⟨hopens, [], rfl, hselected⟩
      · exact ⟨hopens, token :: front, hfront, hdot⟩
    · rintro ⟨hopens, front, hfront, hdot⟩
      cases front with
      | nil => exact .inl ⟨hdot, hopens, hfront⟩
      | cons first front =>
        obtain rfl : token = first := (List.cons.inj hfront).1
        exact .inr ⟨hopens, front, hfront, hdot⟩

/-- No call begins at a token that is no name. -/
theorem windows_cons_of_not_ident (h : ∀ name, token.kind ≠ .ident name) (selected : Bool)
    (tokens : List Token) : windows receiver method selected (token :: tokens) =
      windows receiver method (token.kind == .operator .dot) tokens := by
  have hopens : opensCall receiver method (token :: tokens) = false := by
    rw [← Bool.not_eq_true, opensCall_iff]
    rintro ⟨recv, dot, name, paren, rest, heq, hrecv, -⟩
    exact h receiver ((List.cons.inj heq).1 ▸ hrecv)
  rw [windows, hopens, Bool.and_false]
  rfl

/-- No call begins at a delimiter, and none is a dot. -/
theorem windows_delimiter {op : Operator} (h : (TokenKind.operator op == .operator .dot) = false)
    (span : Span) (selected : Bool) (tokens : List Token) :
    windows receiver method selected (⟨.operator op, span⟩ :: tokens) =
      windows receiver method false tokens := by
  rw [windows_cons_of_not_ident (by simp), h]

/-! ### Calls -/

/-- **A call and the tokens that it begins.** Its parenthesis is closed by the token behind nested ones,
and these hold its arguments. -/
def CallSite.ReadFrom (receiver : String) (call : CallSite) (tokens : List Token) : Prop :=
  ∃ recv dot name paren inner closing rest,
    tokens = recv :: dot :: name :: paren :: (inner ++ closing :: rest) ∧
    Nested inner ∧ closing.kind = .operator .rparen ∧
    call = {
      receiver
      callee := recv.span.through name.span
      openParen := paren.span
      closeParen := closing.span
      args := argStretches inner }

/-- Nested tokens end where the delimiter around them is closed. -/
theorem Nested.eq_of_append {inner inner' after after' : List Token} {closing closing' : Token}
    (h : Nested inner) (h' : Nested inner') (hc : closing.kind.closes?.isSome = true)
    (hc' : closing'.kind.closes?.isSome = true)
    (he : inner ++ closing :: after = inner' ++ closing' :: after') :
    inner = inner' ∧ closing = closing' ∧ after = after' := by
  have plain_ne : ∀ {a b : Token}, a.kind.isPlain = true → b.kind.closes?.isSome = true → a ≠ b := by
    rintro a _ ha hb rfl
    rw [(TokenKind.isPlain_iff.1 ha).2.1] at hb
    simp at hb
  have opening_ne : ∀ {delim : Delimiter} {a b : Token}, a.kind = .operator delim.opening →
      b.kind.isPlain = true ∨ b.kind.closes?.isSome = true → a ≠ b := by
    rintro delim a _ ha hb rfl
    rw [ha] at hb
    cases delim <;> simp [Delimiter.opening, TokenKind.isPlain, TokenKind.opens?,
      TokenKind.closes?] at hb
  induction h generalizing inner' closing closing' after after' with
  | nil =>
    cases h' with
    | nil => simpa using he
    | plain hk _ => exact absurd (List.cons.inj he).1.symm (plain_ne hk hc)
    | group _ ho _ _ _ => exact absurd (List.cons.inj he).1.symm (opening_ne ho (.inr hc))
  | plain hk _ ih =>
    cases h' with
    | nil => exact absurd (List.cons.inj he).1 (plain_ne hk hc')
    | plain _ h' =>
      obtain ⟨hfirst, hlater⟩ := List.cons.inj he
      obtain ⟨htokens, hrest⟩ := ih h' hc hc' hlater
      exact ⟨by rw [hfirst, htokens], hrest⟩
    | group _ ho _ _ _ => exact absurd (List.cons.inj he).1.symm (opening_ne ho (.inl hk))
  | group _ ho hclose _ _ ihinner ih =>
    cases h' with
    | nil => exact absurd (List.cons.inj he).1 (opening_ne ho (.inr hc'))
    | plain hk _ => exact absurd (List.cons.inj he).1 (opening_ne ho (.inl hk))
    | group _ _ hclose' hinner' htokens' =>
      -- the groups end in the same place, and so do the tokens behind them
      obtain ⟨hfirst, hlater⟩ := List.cons.inj he
      rw [List.append_eq, List.append_eq, List.append_assoc, List.append_assoc] at hlater
      obtain ⟨hinner, hclosing, hbehind⟩ :=
        ihinner hinner' (by rw [hclose]; simp) (by rw [hclose']; simp) hlater
      obtain ⟨htokens, hrest⟩ := ih htokens' hc hc' hbehind
      exact ⟨by rw [hfirst, hinner, hclosing, htokens], hrest⟩

/-- **A call is told by its tokens.** -/
theorem CallSite.ReadFrom.unique {call' : CallSite} (h : call.ReadFrom receiver tokens)
    (h' : call'.ReadFrom receiver tokens) : call = call' := by
  obtain ⟨recv, dot, name, paren, inner, closing, rest, rfl, hinner, hclosing, rfl⟩ := h
  obtain ⟨recv', dot', name', paren', inner', closing', rest', heq, hinner', hclosing', rfl⟩ := h'
  simp only [List.cons.injEq] at heq
  obtain ⟨rfl, rfl, rfl, rfl, heq⟩ := heq
  obtain ⟨rfl, rfl, -⟩ := hinner.eq_of_append hinner' (by rw [hclosing]; rfl)
    (by rw [hclosing']; rfl) heq
  rfl

theorem Stops.windows_eq (h : Stops rest) (selected selected' : Bool) :
    windows receiver method selected rest = windows receiver method selected' rest := by
  cases rest with
  | nil => rfl
  | cons token rest =>
    have hident : ∀ name, token.kind ≠ .ident name := by
      intro name hkind
      have hplain := (h token rfl).1
      rw [hkind] at hplain
      exact absurd hplain (by simp [TokenKind.isPlain, TokenKind.opens?, TokenKind.closes?])
    rw [windows_cons_of_not_ident hident, windows_cons_of_not_ident hident]

/-- The call that begins some trees, where these begin as calls do. -/
theorem callAt_cons {recv dot name : Token} {opening closing : Span} {inner us : List Tree}
    (hrecv : recv.kind = .ident receiver) (hdot : dot.kind = .operator .dot)
    (hname : name.kind = .ident method) :
    callAt receiver method
      (.leaf recv :: .leaf dot :: .leaf name :: .group .paren opening closing inner :: us) = some {
        receiver
        callee := recv.span.through name.span
        openParen := opening
        closeParen := closing
        args := (Tree.splitOn .comma inner).filterMap spanOf? } := by
  obtain ⟨_, _⟩ := recv
  obtain ⟨_, _⟩ := dot
  obtain ⟨_, _⟩ := name
  subst hrecv hdot hname
  simp [callAt, Tree.group?, Tree.isIdent, Tree.ident?, Tree.isOperator, Tree.span]

/-- **A call begins some trees** exactly where it begins their tokens. -/
theorem callAt_of_windows (receiver method : String) {t : Tree} (ht : ∀ u ∈ t :: ts, u.Proper)
    (hr : Stops rest) :
    match callAt receiver method (t :: ts) with
    | some call => opensCall receiver method (Tree.flattenAll (t :: ts) ++ rest) = true ∧
        call.ReadFrom receiver (Tree.flattenAll (t :: ts) ++ rest)
    | none => opensCall receiver method (Tree.flattenAll (t :: ts) ++ rest) = false := by
  -- four tokens as they begin a call are three leaves and a group
  have trees : opensCall receiver method (Tree.flattenAll (t :: ts) ++ rest) = true →
      ∃ recv dot name opening closing inner us, t :: ts =
        .leaf recv :: .leaf dot :: .leaf name :: .group .paren opening closing inner :: us ∧
          recv.kind = .ident receiver ∧ dot.kind = .operator .dot ∧ name.kind = .ident method := by
    intro hopens
    obtain ⟨recv, dot, name, paren, after, heq, hrecv, hdot, hname, hparen⟩ := opensCall_iff.1 hopens
    obtain ⟨us, hus, hp, heq⟩ := eq_leaf_of_flattenAll ht hr (by rw [hrecv]; rfl) heq
    obtain ⟨closing, inner, us, rfl, -⟩ := trees_of_call hp hr hdot hname hparen heq
    exact ⟨recv, dot, name, paren.span, closing, inner, us, hus, hrecv, hdot, hname⟩
  cases hcall : callAt receiver method (t :: ts) with
  | none =>
    rw [← Bool.not_eq_true]
    intro hopens
    obtain ⟨_, _, _, _, _, _, _, heq, hrecv, hdot, hname⟩ := trees hopens
    rw [heq, callAt_cons hrecv hdot hname] at hcall
    simp at hcall
  | some call =>
    obtain ⟨recv, dot, name, opening, closing, inner, us, heq, -, hrecv, hdot, hname, -⟩ :=
      callAt_eq_some hcall
    rw [heq, callAt_cons hrecv hdot hname] at hcall
    obtain rfl := Option.some.inj hcall
    have hinner : ∀ u ∈ inner, u.Proper := by
      rw [heq] at ht
      cases ht (.group .paren opening closing inner) (by simp) with
      | group hinner => exact hinner
    have hflat : Tree.flattenAll (t :: ts) ++ rest =
        recv :: dot :: name :: ⟨.operator .lparen, opening⟩ :: (Tree.flattenAll inner ++
          ⟨.operator .rparen, closing⟩ :: (Tree.flattenAll us ++ rest)) := by
      simp [heq, Delimiter.opening, Delimiter.closing]
    rw [hflat]
    refine ⟨opensCall_iff.2 ⟨recv, dot, name, _, _, rfl, hrecv, hdot, hname, rfl⟩, recv, dot, name, _,
      Tree.flattenAll inner, _, _, rfl, Tree.nested_iff.2 ⟨inner, hinner, rfl⟩, rfl, ?_⟩
    rw [argStretches_flattenAll hinner]

/-- **The calls that are collected from trees** are those that begin at the windows in their tokens, in
the same order. What stands behind the trees adds its own. -/
theorem exists_windows (receiver method : String) {ts : List Tree} (ht : ∀ t ∈ ts, t.Proper)
    (selected : Bool) {rest : List Token} (hr : Stops rest) :
    ∃ found, (∀ behind, windows receiver method selected (Tree.flattenAll ts ++ rest) =
        found ++ windows receiver method behind rest) ∧
      List.Forall₂ (CallSite.ReadFrom receiver) (callsFrom receiver method selected ts) found := by
  match ts, ht with
  | [], _ => exact ⟨[], fun behind => by simpa using hr.windows_eq selected behind, .nil⟩
  | .leaf token :: ts, ht =>
    obtain ⟨later, hlater, hcalls⟩ := exists_windows receiver method (List.forall_mem_cons.1 ht).2
      ((Tree.leaf token).isOperator .dot) hr
    have hhere := callAt_of_windows receiver method ht hr
    rw [isOperator_leaf] at hlater
    rw [callsFrom, callsWithin, List.append_nil]
    rw [Tree.flattenAll_cons, Tree.flatten_leaf, List.singleton_append, List.cons_append] at hhere ⊢
    cases selected with
    | true => exact ⟨later, fun behind => by simp [windows, hlater behind], by simpa using hcalls⟩
    | false =>
      cases hcall : callAt receiver method (.leaf token :: ts) with
      | none =>
        rw [hcall] at hhere
        exact ⟨later, fun behind => by simp [windows, hlater behind, hhere], by simpa using hcalls⟩
      | some call =>
        rw [hcall] at hhere
        refine ⟨_ :: later, fun behind => ?_, .cons hhere.2 hcalls⟩
        simp [windows, hlater behind, hhere.1]
  | .group delim opening closing trees :: ts, ht =>
    obtain ⟨hp, hps⟩ := List.forall_mem_cons.1 ht
    have htrees : ∀ t ∈ trees, t.Proper := by
      cases hp with
      | group htrees => exact htrees
    obtain ⟨later, hlater, hcalls⟩ := exists_windows receiver method hps false hr
    obtain ⟨inside, hinside, hcalls'⟩ := exists_windows receiver method htrees false
      (stops_closing delim closing (Tree.flattenAll ts ++ rest))
    -- a call begins with a name, not with a group
    have hnone : callAt receiver method (.group delim opening closing trees :: ts) = none := by
      rw [Option.eq_none_iff_forall_ne_some]
      intro call hcall
      obtain ⟨_, _, _, _, _, _, _, heq, -⟩ := callAt_eq_some hcall
      simp at heq
    refine ⟨inside ++ later, fun behind => ?_, ?_⟩
    · rw [Tree.flattenAll_cons, Tree.flatten_group, List.cons_append, List.cons_append,
        List.append_assoc, List.append_assoc, List.singleton_append,
        windows_delimiter delim.opening_beq_dot, hinside false,
        windows_delimiter delim.closing_beq_dot, hlater behind, List.append_assoc]
    · rw [callsFrom, callsWithin, hnone, ite_self]
      exact List.rel_append hcalls' hcalls

/-! ### The tokens of a source -/

/-- A call begins at the first token of its window. -/
theorem CallSite.ReadFrom.exists_head (h : call.ReadFrom receiver window) :
    ∃ recv, window.head? = some recv ∧ call.callee.start = recv.span.start := by
  obtain ⟨recv, dot, name, paren, inner, closing, rest, rfl, -, -, rfl⟩ := h
  exact ⟨recv, rfl, rfl⟩

/-- Windows begin one after the other, as the names that they begin with do. -/
theorem pairwise_windows (h : Distinct tokens) (receiver method : String) (selected : Bool) :
    (windows receiver method selected tokens).Pairwise fun window later =>
      ∀ a ∈ window.head?, ∀ b ∈ later.head?, a.span.start < b.span.start := by
  induction tokens generalizing selected with
  | nil => exact .nil
  | cons token tokens ih =>
    obtain ⟨hfirst, htokens⟩ := List.pairwise_cons.1 h
    have hlater := ih htokens (token.kind == .operator .dot)
    rw [windows]
    split
    · rename_i hopens
      refine .cons (fun later hmem => ?_) hlater
      obtain ⟨recv, _, _, _, _, heq, hrecv, -⟩ :=
        opensCall_iff.1 (Bool.and_eq_true_iff.1 hopens).2
      obtain ⟨hopens', front, rfl, -⟩ := mem_windows_iff.1 hmem
      obtain ⟨recv', _, _, _, _, rfl, -⟩ := opensCall_iff.1 hopens'
      rintro _ ⟨⟩ _ ⟨⟩
      exact hfirst recv' (by simp) receiver ((List.cons.inj heq).1 ▸ hrecv)
    · exact hlater

/-- The calls of trees, in the order of the windows in their tokens. -/
theorem forall₂_windows {body : List Tree} (hproper : ∀ t ∈ body, t.Proper)
    (receiver method : String) :
    List.Forall₂ (CallSite.ReadFrom receiver) (calls receiver method body)
      (windows receiver method false (Tree.flattenAll body)) := by
  have hnil : Stops [] := by
    rintro _ ⟨⟩
  obtain ⟨found, hfound, hcalls⟩ := exists_windows receiver method hproper false hnil
  have hfound := hfound false
  rw [windows, List.append_nil, List.append_nil] at hfound
  rwa [hfound]

/-- A call of trees is read from four tokens of theirs. -/
theorem exists_window_of_mem_calls {body : List Tree} (hproper : ∀ t ∈ body, t.Proper)
    (hc : call ∈ calls receiver method body) : ∃ front window,
      Tree.flattenAll body = front ++ window ∧ opensCall receiver method window = true ∧
        (∀ token ∈ front.getLast?, token.kind ≠ .operator .dot) ∧
        call.ReadFrom receiver window := by
  obtain ⟨window, hmem, hread⟩ := exists_of_mem_left (forall₂_windows hproper receiver method) hc
  obtain ⟨hopens, front, hfront, hdot⟩ := mem_windows_iff.1 hmem
  refine ⟨front, window, hfront, hopens, ?_, hread⟩
  cases hlast : front.getLast? <;> simp_all

/-- **A walk over trees finds what a scan of tokens finds.** The calls of a method on a receiver are
those that are read from four tokens `receiver . method (` with no dot in front. There is one for each
place where such tokens stand, in the order of these places, and in a source they begin one behind the
other. -/
theorem calls_scanned {body : List Tree} (hproper : ∀ t ∈ body, t.Proper)
    (receiver method : String) :
    List.Forall₂ (CallSite.ReadFrom receiver) (calls receiver method body)
        (windows receiver method false (Tree.flattenAll body)) ∧
      (∀ call, call ∈ calls receiver method body ↔ ∃ front window,
        Tree.flattenAll body = front ++ window ∧ opensCall receiver method window = true ∧
          (∀ token ∈ front.getLast?, token.kind ≠ .operator .dot) ∧ call.ReadFrom receiver window) ∧
      ∀ source tokens, lex source = .ok tokens → Tree.flattenAll body <:+: tokens →
        (calls receiver method body).Pairwise fun c c' => c.callee.start < c'.callee.start := by
  have hcalls := forall₂_windows hproper receiver method
  refine ⟨hcalls, fun call => ⟨exists_window_of_mem_calls hproper, ?_⟩,
    fun source tokens hlex hin => ?_⟩
  · rintro ⟨front, window, hfront, hopens, hdot, hread⟩
    have hmem : window ∈ windows receiver method false (Tree.flattenAll body) := by
      refine mem_windows_iff.2 ⟨hopens, front, hfront, ?_⟩
      cases hlast : front.getLast? <;> simp_all
    obtain ⟨call', hcall, hread'⟩ := exists_of_mem_right hcalls hmem
    rwa [hread.unique hread']
  · -- windows stand in the order of their first tokens, and so do the calls
    have hdistinct : Distinct (Tree.flattenAll body) := (distinct_of_lex hlex).sublist hin.sublist
    refine pairwise_of_forall₂ hcalls (pairwise_windows hdistinct receiver method false) ?_
    intro c window c' window' hread hread' hlt
    obtain ⟨recv, hhead, hstart⟩ := hread.exists_head
    obtain ⟨recv', hhead', hstart'⟩ := hread'.exists_head
    rw [hstart, hstart']
    exact hlt recv hhead recv' hhead'

theorem toOption_eq_some {ε α : Type} {x : Except ε α} {a : α} : x.toOption = some a ↔ x = .ok a := by
  cases x <;> simp [Except.toOption]

/-- A call with calls in its arguments and a comment among its tokens, and one of something else. -/
def scannedSource : String :=
  "x.t.Run(0)\nt.Run(a[1, 2], func(u T) \x7b t /* u */ .\n Run((t.Run()),) \x7d, )\n"

theorem calls_scanned_of_nested : ∃ tokens body, lex scannedSource = .ok tokens ∧
    (∀ t ∈ body, t.Proper) ∧ Tree.flattenAll body <:+: tokens ∧
    (calls "t" "Run" body).map (·.argTexts scannedSource) =
      [["a[1, 2]", "func(u T) \x7b t /* u */ .\n Run((t.Run()),) \x7d"], ["(t.Run())"], []] ∧
    List.Forall₂ (CallSite.ReadFrom "t") (calls "t" "Run" body)
      (windows "t" "Run" false (Tree.flattenAll body)) ∧
    (calls "t" "Run" body).Pairwise fun c c' => c.callee.start < c'.callee.start := by
  have hcomputed : (((lex scannedSource).toOption.bind fun tokens =>
      (Tree.build tokens).toOption).map fun body =>
        (calls "t" "Run" body).map (·.argTexts scannedSource)) =
      some [["a[1, 2]", "func(u T) \x7b t /* u */ .\n Run((t.Run()),) \x7d"], ["(t.Run())"], []] := by
    decide +kernel
  obtain ⟨body, hbody, hcomputed⟩ := Option.map_eq_some_iff.1 hcomputed
  obtain ⟨tokens, hlex, hbuild⟩ := Option.bind_eq_some_iff.1 hbody
  rw [toOption_eq_some] at hlex hbuild
  have hin : Tree.flattenAll body <:+: tokens := by
    rw [Tree.flattenAll_of_build hbuild]
    exact (List.takeWhile_prefix _).isInfix
  have hproper := Tree.proper_of_build hbuild
  obtain ⟨hcalls, -, hascending⟩ := calls_scanned hproper "t" "Run"
  exact ⟨tokens, body, hlex, hproper, hin, hcomputed, hcalls, hascending _ _ hlex hin⟩

end TestWeave.Source
