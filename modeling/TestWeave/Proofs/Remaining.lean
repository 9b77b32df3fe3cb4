import TestWeave.Proofs.Replanted

/-!
# The calls that are left

When the calls of a method on a receiver have been redirected, those that are left are the ones that
were passed over, and each new callee that is such a call itself.

* `endsCall`: whether tokens in front of a parenthesis end in a call.
* `Replanted.count`: the number of calls that are left.
* `Replanted.driverBinding`: a suite driver keeps the name that it is bound to.
-/

namespace TestWeave.Source

open TestWeave.Change

variable {receiver method q : String} {around : List Delimiter} {selected : Bool}
  {ts ts' : List Tree} {sites : List (CallSite × String)}

/-! ### One tree -/

/-- Whether trees begin with what follows the receiver of a call. -/
def follows (method : String) : List Tree → Bool
  | dot :: name :: args :: _ =>
    dot.isOperator .dot && name.isIdent method && (args.group? .paren).isSome
  | _ => false

theorem isSome_callAt (receiver method : String) (t : Tree) (ts : List Tree) :
    (callAt receiver method (t :: ts)).isSome = (t.isIdent receiver && follows method ts) := by
  match ts with
  | [] | [_] | [_, _] => simp [callAt, follows]
  | dot :: name :: args :: rest =>
    simp only [callAt, follows]
    cases args.group? .paren with
    | none => simp
    | some g =>
      simp only [Option.isSome_some, Bool.and_true, ← Bool.and_assoc]
      split
      · rename_i h
        rw [h]
        rfl
      · rename_i h
        rw [eq_false_of_ne_true h]
        rfl

/-- **The number of calls in trees**, by the first of them. -/
theorem length_callsFrom_cons (receiver method : String) (selected : Bool) (t : Tree)
    (ts : List Tree) : (callsFrom receiver method selected (t :: ts)).length =
      (if !selected && (t.isIdent receiver && follows method ts) then 1 else 0) +
        (callsWithin receiver method t).length +
        (callsFrom receiver method (t.isOperator .dot) ts).length := by
  have hone : ∀ o : Option CallSite, o.toList.length = if o.isSome then 1 else 0 := by
    intro o
    cases o <;> rfl
  rw [callsFrom, List.length_append, List.length_append, hone]
  cases selected with
  | true => rfl
  | false =>
    rw [if_neg Bool.false_ne_true, isSome_callAt]
    rfl

theorem length_callsFrom_group (receiver method : String) (selected : Bool) (delim : Delimiter)
    (opening closing : Span) (us ts : List Tree) :
    (callsFrom receiver method selected (.group delim opening closing us :: ts)).length =
      (callsFrom receiver method false us).length +
        (callsFrom receiver method false ts).length := by
  have hident : (Tree.group delim opening closing us).isIdent receiver = false := rfl
  rw [length_callsFrom_cons, hident, Bool.false_and, Bool.and_false, if_neg Bool.false_ne_true,
    Nat.zero_add, callsWithin]
  rfl

/-! ### Leaves in front of a parenthesis -/

/-- Whether tokens in front of a parenthesis end in a call of `method` on `receiver`. `selected`
says whether a dot stands in front of them. -/
def endsCall (receiver method : String) (selected : Bool) : List TokenKind → Bool
  | [] => false
  | kind :: kinds =>
    if kinds = [.operator .dot, .ident method] then !selected && kind == .ident receiver
    else endsCall receiver method (kind == .operator .dot) kinds

theorem isIdent_leaf (name : String) (token : Token) :
    (Tree.leaf token).isIdent name = (token.kind == .ident name) := by
  rcases token with ⟨kind, span⟩
  cases kind with
  | ident n => by_cases h : n = name <;> simp [Tree.isIdent, Tree.ident?, h]
  | _ => rfl

/-- The name of a leaf depends on the kind of its token alone. -/
theorem ident?_leaf {token token' : Token} (h : token'.kind = token.kind) :
    (Tree.leaf token').ident? = (Tree.leaf token).ident? := by
  rw [← Tree.ident?_sketch, ← Tree.ident?_sketch (.leaf token), Tree.sketch_leaf,
    Tree.sketch_leaf, h]

/-- What follows a receiver are a dot, the name of the method and a parenthesis. -/
theorem follows_leaves (tokens : List Token) (opening closing : Span) (us ts : List Tree) :
    follows method (tokens.map Tree.leaf ++ .group .paren opening closing us :: ts) =
      decide (tokens.map Token.kind = [.operator .dot, .ident method]) := by
  match tokens with
  | [] => cases ts with
    | nil => rfl
    | cons t ts => cases ts <;> simp [follows, Tree.isOperator]
  | [a] => cases ts <;> simp [follows, Tree.isIdent, Tree.ident?]
  | [a, b] =>
    simp [follows, isOperator_leaf, isIdent_leaf, Tree.group?, beq_eq_decide]
  | a :: b :: c :: tokens => simp [follows, Tree.group?]

/-- **The calls in leaves and a group behind them.** -/
theorem length_callsFrom_leaves (tokens : List Token) (selected : Bool) (opening closing : Span)
    (us ts : List Tree) : (callsFrom receiver method selected
        (tokens.map Tree.leaf ++ .group .paren opening closing us :: ts)).length =
      (if endsCall receiver method selected (tokens.map Token.kind) then 1 else 0) +
        ((callsFrom receiver method false us).length +
          (callsFrom receiver method false ts).length) := by
  induction tokens generalizing selected with
  | nil =>
    rw [List.map_nil, List.nil_append, length_callsFrom_group]
    simp [endsCall]
  | cons token tokens ih =>
    rw [List.map_cons, List.cons_append, length_callsFrom_cons, follows_leaves, isIdent_leaf,
      isOperator_leaf, callsWithin, List.length_nil, ih, List.map_cons, endsCall]
    by_cases h : tokens.map Token.kind = [.operator .dot, .ident method]
    · -- no call begins behind its receiver
      have hnone : endsCall receiver method (token.kind == .operator .dot)
          [.operator .dot, .ident method] = false := by
        simp [endsCall]
      rw [if_pos h, h, hnone]
      simp
    · rw [if_neg h]
      simp [h]

/-- Whether the new callee of a call is a call of the same method on the same receiver. -/
def recalls (q : String) (c : CallSite × String) : Bool :=
  endsCall c.1.receiver Known.runMethod false (calleeKinds q c.2)

/-! ### What is passed in front of the arguments -/

theorem follows_cons_of_not {t : Tree} (h : t.isOperator .dot = false) (ts : List Tree) :
    follows method (t :: ts) = false := by
  match ts with
  | [] | [_] | _ :: _ :: _ => simp [follows, h]

theorem follows_cons_cons_of_not {u : Tree} (h : u.isIdent method = false) (t : Tree)
    (ts : List Tree) : follows method (t :: u :: ts) = false := by
  cases ts <;> simp [follows, h]

theorem follows_of_head (h : ∀ t ∈ ts.head?, t.isOperator .dot = false) :
    follows method ts = false := by
  cases ts with
  | nil => rfl
  | cons t ts => exact follows_cons_of_not (h t rfl) ts

/-- Behind a receiver that is passed stands a comma or a semicolon. -/
theorem head_passed {more : List Token} {op : Operator}
    (hm : ∀ t ∈ more, t.kind = .operator .comma ∨ t.kind = .operator .semi)
    (hu : more = [] → ∀ u ∈ ts.head?, u.isOperator .comma = true)
    (hcomma : op ≠ .comma) (hsemi : op ≠ .semi) :
    ∀ t ∈ (more.map Tree.leaf ++ ts).head?, t.isOperator op = false := by
  cases more with
  | nil =>
    intro u hmem
    obtain ⟨span, rfl⟩ := isOperator_eq_true (hu rfl u hmem)
    rw [isOperator_leaf]
    simpa using hcomma.symm
  | cons t more =>
    rintro _ ⟨⟩
    rw [isOperator_leaf]
    rcases hm t List.mem_cons_self with h | h <;> rw [h]
    · simpa using hcomma.symm
    · simpa using hsemi.symm

theorem length_callsFrom_passed {passed : Token} {name : String} {more : List Token}
    (hp : passed.kind = .ident name)
    (hm : ∀ t ∈ more, t.kind = .operator .comma ∨ t.kind = .operator .semi)
    (hu : more = [] → ∀ u ∈ ts.head?, u.isOperator .comma = true) :
    (callsFrom receiver method false (.leaf passed :: (more.map Tree.leaf ++ ts))).length =
      (callsFrom receiver method false ts).length := by
  have hmore : (callsFrom receiver method false (more.map Tree.leaf ++ ts)).length =
      (callsFrom receiver method false ts).length := by
    clear hu
    induction more with
    | nil => rfl
    | cons t more ih =>
      obtain ⟨ht, hm⟩ := List.forall_mem_cons.1 hm
      have hident : (t.kind == .ident receiver) = false := by
        rcases ht with h | h <;> rw [h] <;> rfl
      have hdot : (t.kind == .operator .dot) = false := by
        rcases ht with h | h <;> rw [h] <;> rfl
      rw [List.map_cons, List.cons_append, length_callsFrom_cons, isIdent_leaf, isOperator_leaf,
        hident, hdot, callsWithin, ih hm]
      simp
  have hdot : (TokenKind.ident name == .operator .dot) = false := rfl
  rw [length_callsFrom_cons, follows_of_head (head_passed hm hu (by decide) (by decide)),
    isOperator_leaf, hp, hdot, callsWithin,
    Bool.and_false, Bool.and_false, if_neg Bool.false_ne_true, List.length_nil, hmore]
  simp

/-- A comma that begins the arguments still begins them. -/
theorem Replanted.head_comma (h : Replanted q around selected ts ts' sites)
    (hc : ∀ t ∈ ts.head?, t.isOperator .comma = true) :
    ∀ t ∈ ts'.head?, t.isOperator .comma = true := by
  cases h with
  | nil => exact hc
  | leaf hk =>
    have := hc _ rfl
    rintro _ ⟨⟩
    rwa [isOperator_leaf, hk, ← isOperator_leaf]
  | group => exact absurd (hc _ rfl) Bool.false_ne_true
  | call _ hcalled =>
    have := hc _ rfl
    rw [isOperator_leaf, hcalled.recv_kind] at this
    exact absurd this (by simp)

/-! ### Counting -/

/-- A new callee has at least three tokens. -/
theorem exists_callee {callee : List Token} {entry : String} (hq : textKinds q.toList ≠ [])
    (h : callee.map Token.kind = calleeKinds q entry) :
    ∃ a b c rest, callee = a :: b :: c :: rest := by
  have hlen := congrArg List.length h
  obtain ⟨k, ks, hks⟩ := List.exists_cons_of_ne_nil hq
  rw [calleeKinds, hks] at hlen
  rcases callee with _ | ⟨a, _ | ⟨b, _ | ⟨c, rest⟩⟩⟩
  · simp at hlen
  · simp at hlen
  · simp at hlen
  · exact ⟨a, b, c, rest, rfl⟩

/-- **What follows a receiver** that is no call of its own still does. -/
theorem Replanted.follows (hq : textKinds q.toList ≠ [])
    (h : Replanted q around selected ts ts' sites) :
    Source.follows method ts' = Source.follows method ts := by
  cases h with
  | nil => rfl
  | group => rw [follows_cons_of_not rfl, follows_cons_of_not rfl]
  | call _ hc hcallee =>
    -- the third tree of the new callee is no group
    obtain ⟨a, b, c, rest, rfl⟩ := exists_callee hq hcallee
    rw [follows_cons_of_not (by rw [isOperator_leaf, hc.recv_kind]; rfl)]
    simp [Source.follows, Tree.group?]
  | @leaf _ _ token token' _ _ _ hk h =>
    by_cases hd : token.kind = .operator .dot
    · rw [hd] at h hk
      -- no call is redirected behind a dot
      cases h with
      | nil => rfl
      | group => rw [follows_cons_cons_of_not rfl, follows_cons_cons_of_not rfl]
      | @leaf _ _ second _ _ _ _ hk₁ h =>
        generalize (second.kind == .operator .dot) = selected at h
        cases h with
        | nil => rfl
        | leaf => simp [Source.follows, Tree.group?]
        | @group _ _ delim =>
          by_cases hdelim : delim = .paren <;>
            simp [Source.follows, isOperator_leaf, isIdent_leaf, Tree.group?, hd, hk, hk₁, hdelim]
        | call _ _ hcallee =>
          obtain ⟨a, b, c, rest, rfl⟩ := exists_callee hq hcallee
          simp [Source.follows, Tree.group?]
    · have hnot : (token.kind == .operator .dot) = false := by simpa using hd
      rw [follows_cons_of_not (by rw [isOperator_leaf, hk, hnot]),
        follows_cons_of_not (by rw [isOperator_leaf, hnot])]

/-- **The calls that are left.** Of the calls on a receiver those that are redirected are left out,
but for each new callee that is such a call itself. -/
theorem Replanted.count (hq : textKinds q.toList ≠ [])
    (h : Replanted q around selected ts ts' sites) (hr : ∀ s ∈ sites, s.1.receiver = receiver) :
    (callsFrom receiver Known.runMethod selected ts').length + sites.length =
      (callsFrom receiver Known.runMethod selected ts).length +
        (sites.filter (recalls q)).length := by
  induction h with
  | nil => rfl
  | leaf hk h ih =>
    have ih := ih hr
    rw [length_callsFrom_cons, length_callsFrom_cons, h.follows hq, isIdent_leaf, isIdent_leaf,
      isOperator_leaf, isOperator_leaf, hk, callsWithin, callsWithin]
    omega
  | group hin h ihin ih =>
    obtain ⟨hr₁, hr₂⟩ := List.forall_mem_append.1 hr
    have ihin := ihin hr₁
    have ih := ih hr₂
    rw [length_callsFrom_group, length_callsFrom_group, List.filter_append, List.length_append,
      List.length_append]
    omega
  | @call _ recv dot name paren opening closing _ _ call entry us us' ts ts' inner sites callee more
      passed hb hc hcallee hpassed hmore hnext hin h ihin ih =>
    obtain ⟨hreceiver, hr⟩ := List.forall_mem_cons.1 hr
    obtain ⟨hr₁, hr₂⟩ := List.forall_mem_append.1 hr
    have ihin := ihin hr₁
    have ih := ih hr₂
    -- the call that was there
    have hold : (callsFrom receiver Known.runMethod false
        ([recv, dot, name].map Tree.leaf ++ .group .paren opening closing us :: ts)).length = _ :=
      length_callsFrom_leaves [recv, dot, name] false opening closing us ts
    have hends : endsCall receiver Known.runMethod false
        ([recv, dot, name].map Token.kind) = true := by
      simp [endsCall, hc.recv_kind, hc.dot_kind, hc.name_kind, ← hreceiver]
    rw [hends, if_pos rfl] at hold
    simp only [List.map_cons, List.map_nil, List.cons_append, List.nil_append] at hold
    have hrecalls : endsCall receiver Known.runMethod false (callee.map Token.kind) =
        recalls q (call, entry) := by
      rw [hcallee, recalls, hreceiver]
    have hpassing : (callsFrom receiver Known.runMethod false
        (.leaf passed :: (more.map Tree.leaf ++ us'))).length = _ :=
      length_callsFrom_passed hpassed hmore fun hnil => hin.head_comma (hnext hnil)
    rw [length_callsFrom_leaves, hold, hpassing, hrecalls, List.filter_cons, List.filter_append]
    cases recalls q (call, entry) <;> simp <;> omega

/-! ### The driver of a suite -/

/-- Whether trees begin with what follows a name that is bound to a suite driver. -/
def binds (testing : List String) : List Tree → Bool
  | define :: package :: dot :: function :: _ =>
    define.isOperator .define && package.ident?.any testing.contains && dot.isOperator .dot &&
      function.isIdent Known.mainStart
  | _ => false

theorem bindingAt_cons (testing : List String) (t : Tree) (ts : List Tree) :
    bindingAt testing (t :: ts) = if binds testing ts then t.ident? else none := by
  match ts with
  | [] | [_] | [_, _] | [_, _, _] | _ :: _ :: _ :: _ :: _ => rfl

theorem driverBinding?_cons (testing : List String) (t : Tree) (ts : List Tree) :
    driverBinding? testing (t :: ts) = (if binds testing ts then t.ident? else none).or
      ((bindingWithin? testing t).or (driverBinding? testing ts)) := by
  rw [driverBinding?, bindingAt_cons]

theorem driverBinding?_group (testing : List String) (delim : Delimiter) (opening closing : Span)
    (us ts : List Tree) : driverBinding? testing (.group delim opening closing us :: ts) =
      (driverBinding? testing us).or (driverBinding? testing ts) := by
  rw [driverBinding?_cons, bindingWithin?]
  split <;> rfl

variable {testing : List String}

theorem binds_cons_of_not {t : Tree} (h : t.isOperator .define = false) (ts : List Tree) :
    binds testing (t :: ts) = false := by
  match ts with
  | [] | [_] | [_, _] | _ :: _ :: _ :: _ => simp [binds, h]

theorem binds_of_head (h : ∀ t ∈ ts.head?, t.isOperator .define = false) :
    binds testing ts = false := by
  cases ts with
  | nil => rfl
  | cons t ts => exact binds_cons_of_not (h t rfl) ts

theorem binds_of_second {b : Tree} (h : b.ident? = none) (a : Tree) (ts : List Tree) :
    binds testing (a :: b :: ts) = false := by
  match ts with
  | [] | [_] | _ :: _ :: _ => simp [binds, h]

theorem binds_of_third {c : Tree} (h : c.isOperator .dot = false) (a b : Tree) (ts : List Tree) :
    binds testing (a :: b :: c :: ts) = false := by
  cases ts <;> simp [binds, h]

/-- Where the fourth tree is not the function, nothing is bound. -/
theorem binds_of_fourth {d : Tree} (h : d.isIdent Known.mainStart = false) (a b c : Tree)
    (ts : List Tree) : binds testing (a :: b :: c :: d :: ts) = false := by
  simp [binds, h]

/-- Leaves without a definition bind no driver. -/
theorem driverBinding?_leaves {tokens : List Token}
    (h : ∀ t ∈ tokens, t.kind ≠ .operator .define)
    (hts : ∀ t ∈ ts.head?, t.isOperator .define = false) :
    driverBinding? testing (tokens.map Tree.leaf ++ ts) = driverBinding? testing ts := by
  induction tokens with
  | nil => rfl
  | cons token tokens ih =>
    obtain ⟨-, h⟩ := List.forall_mem_cons.1 h
    have hnone : binds testing (tokens.map Tree.leaf ++ ts) = false := by
      refine binds_of_head ?_
      cases tokens with
      | nil => exact hts
      | cons t tokens =>
        rintro _ ⟨⟩
        rw [isOperator_leaf]
        simpa using h t List.mem_cons_self
    rw [List.map_cons, List.cons_append, driverBinding?_cons, hnone, if_neg Bool.false_ne_true,
      bindingWithin?, ih h]
    rfl

/-- A receiver that is passed is bound to no driver. -/
theorem driverBinding?_passed {passed : Token} {more : List Token}
    (hm : ∀ t ∈ more, t.kind = .operator .comma ∨ t.kind = .operator .semi)
    (hu : more = [] → ∀ u ∈ ts.head?, u.isOperator .comma = true) :
    driverBinding? testing (.leaf passed :: (more.map Tree.leaf ++ ts)) =
      driverBinding? testing ts := by
  have hbinds : binds testing (more.map Tree.leaf ++ ts) = false :=
    binds_of_head (head_passed hm hu (by decide) (by decide))
  have hmore : driverBinding? testing (more.map Tree.leaf ++ ts) = driverBinding? testing ts := by
    clear hbinds hu
    induction more with
    | nil => rfl
    | cons t more ih =>
      obtain ⟨ht, hm⟩ := List.forall_mem_cons.1 hm
      have hident : (Tree.leaf t).ident? = none := by
        rcases ht with h | h <;> rw [← Tree.ident?_sketch, Tree.sketch_leaf, h] <;> rfl
      rw [List.map_cons, List.cons_append, driverBinding?_cons, hident, bindingWithin?, ih hm]
      split <;> rfl
  rw [driverBinding?_cons, hbinds, if_neg Bool.false_ne_true, bindingWithin?, hmore]
  rfl

/-- Whether no new callee can be taken for what makes a suite driver. -/
def Startless (q : String) (sites : List (CallSite × String)) : Prop :=
  ∀ s ∈ sites, .operator .define ∉ calleeKinds q s.2 ∧ .ident Known.mainStart ∉ calleeKinds q s.2

theorem Startless.append {sites sites' : List (CallSite × String)}
    (h : Startless q (sites ++ sites')) : Startless q sites ∧ Startless q sites' :=
  List.forall_mem_append.1 h

/-- **What follows a name** that is bound to a driver still does. -/
theorem Replanted.binds (hq : textKinds q.toList ≠ [])
    (h : Replanted q around selected ts ts' sites) (hs : Startless q sites) :
    Source.binds testing ts' = Source.binds testing ts := by
  have hstart : ∀ {callee : List Token} {entry : String},
      callee.map Token.kind = calleeKinds q entry →
      .ident Known.mainStart ∉ calleeKinds q entry →
      ∀ t ∈ callee, (Tree.leaf t).isIdent Known.mainStart = false := by
    intro callee entry hcallee hnot t ht
    rw [isIdent_leaf, beq_eq_false_iff_ne]
    intro hk
    exact hnot (hcallee ▸ hk ▸ List.mem_map_of_mem ht)
  cases h with
  | nil => rfl
  | group => rw [binds_cons_of_not rfl, binds_cons_of_not rfl]
  | call _ hc hcallee =>
    obtain ⟨a, b, c, rest, rfl⟩ := exists_callee hq hcallee
    have hdefine := (hs _ List.mem_cons_self).1
    rw [← hcallee] at hdefine
    have ha : (Tree.leaf a).isOperator .define = false := by
      rw [isOperator_leaf, beq_eq_false_iff_ne]
      rintro hk
      exact hdefine (by simp [hk])
    rw [binds_cons_of_not (by rw [isOperator_leaf, hc.recv_kind]; rfl), List.map_cons,
      List.cons_append, binds_cons_of_not ha]
  | @leaf _ _ token token' _ _ _ hk h =>
    by_cases hd : token.kind = .operator .define
    · rw [hd] at h
      -- the name of the package, the dot and the function
      cases h with
      | nil => rfl
      | group => rw [binds_of_second rfl, binds_of_second rfl]
      | call _ hc hcallee =>
        obtain ⟨a, b, c, rest, rfl⟩ := exists_callee hq hcallee
        have hnew := hstart hcallee (hs _ List.mem_cons_self).2 c (by simp)
        have hold : (Known.runMethod == Known.mainStart) = false := by decide
        rw [List.map_cons, List.map_cons, List.map_cons, List.cons_append, List.cons_append,
          List.cons_append, binds_of_fourth hnew,
          binds_of_fourth (by rw [isIdent_leaf, hc.name_kind]; exact hold)]
      | @leaf _ _ package _ _ _ _ hk₁ h =>
        generalize (package.kind == .operator .dot) = selected at h
        cases h with
        | nil => rfl
        | group => rw [binds_of_third rfl, binds_of_third rfl]
        | call _ hc hcallee =>
          obtain ⟨a, b, c, rest, rfl⟩ := exists_callee hq hcallee
          have hnew := hstart hcallee (hs _ List.mem_cons_self).2 b (by simp)
          rw [List.map_cons, List.map_cons, List.cons_append, List.cons_append,
            binds_of_fourth hnew, binds_of_third (by rw [isOperator_leaf, hc.recv_kind]; rfl)]
        | @leaf _ _ dot _ _ _ _ hk₂ h =>
          by_cases hdot : dot.kind = .operator .dot
          · rw [hdot] at h
            cases h with
            | nil => rfl
            | group => rw [binds_of_fourth rfl, binds_of_fourth rfl]
            | leaf hk₃ => simp [Source.binds, isOperator_leaf, isIdent_leaf,
                ident?_leaf hk₁, hk, hk₂, hk₃]
          · have hnot : (dot.kind == .operator .dot) = false := by simpa using hdot
            rw [binds_of_third (by rw [isOperator_leaf, hk₂, hnot]),
              binds_of_third (by rw [isOperator_leaf, hnot])]
    · have hnot : (token.kind == .operator .define) = false := by simpa using hd
      rw [binds_cons_of_not (by rw [isOperator_leaf, hk, hnot]),
        binds_cons_of_not (by rw [isOperator_leaf, hnot])]

/-- **A suite driver keeps its name.** -/
theorem Replanted.driverBinding (hq : textKinds q.toList ≠ [])
    (h : Replanted q around selected ts ts' sites) (hs : Startless q sites) :
    driverBinding? testing ts' = driverBinding? testing ts := by
  induction h with
  | nil => rfl
  | leaf hk h ih =>
    rw [driverBinding?_cons, driverBinding?_cons, h.binds hq hs, ih hs, ident?_leaf hk,
      bindingWithin?, bindingWithin?]
  | group _ _ ihin ih =>
    obtain ⟨hs₁, hs₂⟩ := hs.append
    rw [driverBinding?_group, driverBinding?_group, ihin hs₁, ih hs₂]
  | @call _ recv dot name paren opening closing _ _ call entry us us' ts ts' inner sites callee more
      passed _ hc hcallee hpassed hmore hnext hin _ ihin ih =>
    obtain ⟨hs₀, hs⟩ := List.forall_mem_cons.1 hs
    obtain ⟨hs₁, hs₂⟩ := Startless.append hs
    -- neither the old callee nor the new one defines a name
    have hold : ∀ t ∈ [recv, dot, name], t.kind ≠ .operator .define := by
      simp [hc.recv_kind, hc.dot_kind, hc.name_kind]
    have hnew : ∀ t ∈ callee, t.kind ≠ .operator .define := by
      intro t ht hk
      exact hs₀.1 (hcallee ▸ hk ▸ List.mem_map_of_mem ht)
    have hgroup : ∀ (o c : Span) (us ts : List Tree),
        ∀ t ∈ (Tree.group .paren o c us :: ts).head?, t.isOperator .define = false := by
      rintro o c us ts _ ⟨⟩
      rfl
    have hfront : driverBinding? testing
        ([recv, dot, name].map Tree.leaf ++ .group .paren opening closing us :: ts) = _ :=
      driverBinding?_leaves hold (hgroup opening closing us ts)
    simp only [List.map_cons, List.map_nil, List.cons_append, List.nil_append] at hfront
    rw [hfront, driverBinding?_leaves hnew (hgroup _ _ _ _), driverBinding?_group,
      driverBinding?_group, driverBinding?_passed hmore fun hnil => hin.head_comma (hnext hnil),
      ihin hs₁, ih hs₂]

end TestWeave.Source
