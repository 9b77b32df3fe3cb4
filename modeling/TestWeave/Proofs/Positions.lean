import TestWeave.Proofs.Lines
import TestWeave.Proofs.Tiling

/-!
# Positions

Lines and columns are counted along the source, over line breaks in comments and raw strings and over
characters of several bytes. A diagnostic takes its position from the tokens, and shows the line.

* `Span.TrueIn`: a stretch has the position of the place in the source where it begins.
* `charLines_getD`: the line that is shown is that of the place.
* `ofDecls_error`: which faults of declarations have no position.
* `shown_iff`: every token has a true position, and every fault shows one, but for an import without
  anything behind its keyword.
-/

namespace TestWeave.Source

open TestWeave.Text TestWeave.Change

/-! ### True positions -/

/-- The characters behind the last line break. -/
def lastLine (cs : List Char) : List Char := (cs.reverse.takeWhile (· != '\n')).reverse

theorem lastLine_concat (cs : List Char) (c : Char) :
    lastLine (cs ++ [c]) = if c = '\n' then [] else lastLine cs ++ [c] := by
  by_cases h : c = '\n' <;> simp [lastLine, h]

theorem column_after (cs : List Char) :
    (Place.origin.after cs).column = (lastLine cs).length + 1 := by
  induction cs using List.reverseRecOn with
  | nil => rfl
  | append_singleton cs c ih =>
    rw [Place.after_append, lastLine_concat, Place.after_cons, Place.after_nil, Place.next]
    split
    · rfl
    · rw [List.length_append, List.length_singleton, ← ih]

/-- A stretch begins behind the characters `before`: its line is one more than the number of line
breaks among them, and its column one more than the number of characters behind the last of these. -/
structure Span.Behind (s : Span) (before : List Char) : Prop where
  start : s.start = byteSize before
  line : s.line = before.count '\n' + 1
  column : s.column = (lastLine before).length + 1

theorem behind_spanTo (before : List Char) (stop : Nat) :
    ((Place.origin.after before).spanTo stop).Behind before where
  start := by
    rw [Place.spanTo, Place.offset_after]
    exact Nat.zero_add _
  line := by
    rw [Place.spanTo, line_after]
    exact Nat.add_comm ..
  column := column_after before

/-- A stretch begins between two characters of a source, or at one of its ends, and has the position of
that place. -/
def Span.TrueIn (source : String) (s : Span) : Prop :=
  ∃ before, before <+: source.toList ∧ s.Behind before

variable {source : String}

theorem Span.TrueIn.through {s : Span} (h : s.TrueIn source) (t : Span) :
    (s.through t).TrueIn source := by
  obtain ⟨before, hp, hb⟩ := h
  exact ⟨before, hp, hb.start, hb.line, hb.column⟩

/-- **Every token has a true position.** -/
theorem true_of_mem_lex {tokens : List Token} (h : lex source = .ok tokens) :
    ∀ t ∈ tokens, t.span.TrueIn source := by
  intro t ht
  obtain ⟨hscan, rfl⟩ := lex_eq_ok_iff.1 h
  obtain ⟨before, stretch, after, hj, hspan⟩ := stretch_of_mem_tokensFrom ht
  rw [scan_text hscan] at hj
  exact ⟨before, ⟨_, hj.symm⟩, hspan ▸ behind_spanTo ..⟩

/-! ### Lines -/

/-- The line that a place lies on, where `before` stands in front of it and `after` behind it. A
carriage return right before a line break belongs to the break. -/
def lineOf (before after : List Char) : List Char :=
  if '\n' ∈ after then dropReturn (lastLine before ++ after.takeWhile (· != '\n'))
  else lastLine before ++ after.takeWhile (· != '\n')

theorem lastLine_cons (c : Char) (cs : List Char) :
    lastLine (c :: cs) = if '\n' ∈ c :: cs then lastLine cs else c :: lastLine cs := by
  induction cs using List.reverseRecOn with
  | nil =>
    by_cases h : c = '\n'
    · simp [lastLine, h]
    · simp [lastLine, h, Ne.symm h]
  | append_singleton cs d ih =>
    have hmem : '\n' ∈ c :: cs ++ [d] ↔ '\n' ∈ c :: cs ∨ d = '\n' := by simp [eq_comm, or_assoc]
    simp only [← List.cons_append, lastLine_concat, ih, hmem]
    by_cases hd : d = '\n'
    · simp [hd]
    · by_cases hm : '\n' ∈ c :: cs
      · simp only [hd, hm, if_true, if_false, true_or]
      · simp only [hd, hm, if_false, or_self, List.cons_append]

theorem length_splitWhere (cs : List Char) :
    (splitWhere (· == '\n') cs).length = cs.count '\n' + 1 := by
  have h := splits (· == '\n') cs
  generalize splitWhere (· == '\n') cs = segments at h
  induction h with
  | nil => rfl
  | sep hc _ ih => simp_all
  | other hc _ ih => simp_all

theorem head?_splitWhere (cs : List Char) :
    (splitWhere (· == '\n') cs).head? = some (cs.takeWhile (· != '\n')) := by
  have h := splits (· == '\n') cs
  generalize splitWhere (· == '\n') cs = segments at h
  induction h with
  | nil => rfl
  | sep hc _ _ => simp_all
  | other hc _ ih => simp_all

/-- The segment that a place lies in. -/
theorem splitWhere_getElem? (before after : List Char) :
    (splitWhere (· == '\n') (before ++ after))[before.count '\n']? =
      some (lastLine before ++ after.takeWhile (· != '\n')) := by
  induction before with
  | nil => rw [List.count_nil, ← List.head?_eq_getElem?]; exact head?_splitWhere after
  | cons c before ih =>
    rw [List.cons_append, splitWhere, lastLine_cons]
    by_cases hc : c = '\n'
    · simpa [hc] using ih
    · obtain ⟨segment, segments, hs⟩ :=
        List.exists_cons_of_ne_nil (splitWhere_ne_nil (· == '\n') (before ++ after))
      rw [hs] at ih ⊢
      rw [List.count_cons_of_ne hc]
      by_cases hm : '\n' ∈ before
      · obtain ⟨n, hn⟩ := Nat.exists_eq_add_of_lt (List.count_pos_iff.2 hm)
        rw [Nat.zero_add] at hn
        rw [hn] at ih ⊢
        simpa [hc, hm] using ih
      · rw [List.count_eq_zero.2 hm] at ih ⊢
        simpa [hc, hm, Ne.symm hc] using ih

/-- The lines of a text are its segments: those that a line break ends without the carriage return in
front of it. -/
theorem charLines_getD (cs : List Char) (k : Nat) {segment : List Char}
    (h : (splitWhere (· == '\n') cs)[k]? = some segment) :
    ((charLines cs)[k]?).getD [] =
      if k + 1 < (splitWhere (· == '\n') cs).length then dropReturn segment else segment := by
  obtain ⟨ended, last, hl⟩ : ∃ ended last, splitWhere (· == '\n') cs = ended ++ [last] :=
    ⟨_, _, (List.dropLast_append_getLast (splitWhere_ne_nil _ cs)).symm⟩
  have hlines : charLines cs =
      ended.map dropReturn ++ if last = [] then [] else [last] := by
    simp only [charLines, hl, List.dropLast_concat, List.getLast?_concat]
    cases last <;> simp
  have hlength : (splitWhere (· == '\n') cs).length = ended.length + 1 := by simp [hl]
  rw [hlines, hlength]
  rw [hl] at h
  by_cases hk : k < ended.length
  · rw [List.getElem?_append_left hk] at h
    rw [List.getElem?_append_left (by simpa using hk), List.getElem?_map, h, if_pos (by omega)]
    rfl
  · obtain rfl : k = ended.length := by
      have := (List.getElem?_eq_some_iff.1 h).1
      rw [List.length_append, List.length_singleton] at this
      omega
    obtain rfl : last = segment := by simpa using h
    rw [List.getElem?_append_right (by simp), if_neg (Nat.lt_irrefl _)]
    by_cases hlast : last = [] <;> simp [hlast]

/-- **The line that is shown** is that of the place. -/
theorem lines_getD {before after : List Char} (h : source.toList = before ++ after) :
    ((Text.lines source)[before.count '\n']?).getD "" = String.ofList (lineOf before after) := by
  have hline : ((charLines source.toList)[before.count '\n']?).getD [] = lineOf before after := by
    rw [h, charLines_getD _ _ (splitWhere_getElem? before after), length_splitWhere,
      List.count_append, lineOf]
    have hcount : before.count '\n' + 1 < before.count '\n' + after.count '\n' + 1 ↔
        '\n' ∈ after := by
      rw [← List.count_pos_iff]
      omega
    simp only [hcount]
  rw [← hline, Text.lines, List.getElem?_map]
  cases (charLines source.toList)[before.count '\n']? <;> rfl

/-! ### Faults of tokens -/

/-- A diagnostic is about a stretch with a true position. -/
def Diagnostic.TrueIn (source : String) (d : Diagnostic) : Prop :=
  ∃ s, d.span = some s ∧ s.TrueIn source

/-- Tokens with true positions. -/
def AllTrue (source : String) (tokens : List Token) : Prop := ∀ t ∈ tokens, t.span.TrueIn source

theorem place_placeTokens (here : Place) (armed : Bool) (ps : List Piece) :
    (placeTokens here armed ps).2.1 = here.after (Piece.joined ps) := by
  induction ps generalizing here armed with
  | nil => rfl
  | cons p ps ih =>
    rw [joined_cons, Place.after_append]
    cases p with
    | token kind => exact ih ..
    | _ =>
      simp only [placeTokens]
      split <;> exact ih ..

theorem lex_error {d : Diagnostic} (h : lex source = .error d) : d.TrueIn source := by
  obtain ⟨rest, htext, -⟩ := scan_spec source.toList
  have hplace := place_placeTokens .origin false (scan source.toList).1
  unfold lex at h
  rcases hs : scan source.toList with ⟨pieces, fault⟩
  rw [hs] at h htext hplace
  cases fault with
  | none => cases h
  | some f =>
    obtain rfl := Except.error.inj h
    refine ⟨_, rfl, Piece.joined pieces, ⟨rest, htext⟩, ?_⟩
    exact hplace ▸ behind_spanTo ..

namespace Tree

/-- A fault of delimiters is found at one of the tokens. -/
theorem grow_error {done : List Tree} {frames : List Frame} {tokens : List Token} {d : Diagnostic}
    (hf : ∀ frame ∈ frames, frame.opening.TrueIn source) (ht : AllTrue source tokens)
    (h : grow done frames tokens = .error d) : d.TrueIn source := by
  have hfinish : ∀ {done : List Tree} {frames : List Frame} {d : Diagnostic},
      (∀ frame ∈ frames, frame.opening.TrueIn source) → grow.finish done frames = .error d →
      d.TrueIn source := by
    intro done frames d hf h
    cases frames with
    | nil => cases h
    | cons frame frames =>
      obtain rfl := Except.error.inj h
      exact ⟨_, rfl, hf frame List.mem_cons_self⟩
  induction tokens generalizing done frames with
  | nil => exact hfinish hf h
  | cons token tokens ih =>
    obtain ⟨htoken, ht⟩ := List.forall_mem_cons.1 ht
    rw [grow_cons] at h
    split at h
    · exact hfinish hf h
    · split at h
      · exact ih (List.forall_mem_cons.2 ⟨htoken, hf⟩) ht h
      · split at h
        · obtain rfl := Except.error.inj h
          exact ⟨_, rfl, htoken⟩
        · split at h
          · exact ih (List.forall_mem_cons.1 hf).2 ht h
          · obtain rfl := Except.error.inj h
            exact ⟨_, rfl, htoken⟩
      · exact ih hf ht h

/-- A tree begins at its first token. -/
theorem span_true {t : Tree} (h : AllTrue source t.flatten) : t.span.TrueIn source := by
  cases t with
  | leaf token => exact h token (by simp)
  | group delim opening closing trees =>
    exact (h ⟨.operator delim.opening, opening⟩ (by simp)).through closing

end Tree

theorem allTrue_flattenAll {trees : List Tree} :
    AllTrue source (Tree.flattenAll trees) ↔ ∀ t ∈ trees, AllTrue source t.flatten := by
  induction trees with
  | nil => simp [AllTrue]
  | cons t trees ih =>
    rw [List.forall_mem_cons, ← ih, Tree.flattenAll_cons]
    exact List.forall_mem_append

/-! ### Faults of declarations -/

theorem splitDeclsFrom_error {current trees : List Tree} {d : Diagnostic}
    (hc : ∀ t ∈ current, AllTrue source t.flatten) (ht : ∀ t ∈ trees, AllTrue source t.flatten)
    (h : splitDeclsFrom current trees = .error d) : d.TrueIn source := by
  fun_induction splitDeclsFrom current trees with
  | case1 => cases h
  | case2 last rest =>
    obtain rfl := Except.error.inj h
    exact ⟨_, rfl, Tree.span_true (hc _ List.mem_cons_self)⟩
  | case3 =>
    obtain rfl := Except.error.inj h
    exact ⟨_, rfl, Tree.span_true (ht _ List.mem_cons_self)⟩
  | case4 current ts span head tail hr ih =>
    cases hs : splitDeclsFrom [] ts with
    | ok ds => rw [hs] at h; cases h
    | error e =>
      rw [hs] at h
      obtain rfl := Except.error.inj h
      exact ih (by simp) (List.forall_mem_cons.1 ht).2 hs
  | case5 current t ts _ ih =>
    obtain ⟨ht, hts⟩ := List.forall_mem_cons.1 ht
    exact ih (List.forall_mem_cons.2 ⟨ht, hc⟩) hts h

/-- The tokens of a declaration have true positions. -/
structure Decl.TrueIn (source : String) (d : Decl) : Prop where
  head : AllTrue source d.head.flatten
  tail : ∀ t ∈ d.tail, AllTrue source t.flatten

theorem true_of_splitDecls {trees : List Tree} {decls : List Decl}
    (ht : AllTrue source (Tree.flattenAll trees)) (h : splitDecls trees = .ok decls) :
    ∀ d ∈ decls, d.TrueIn source := by
  intro d hd
  have htokens : AllTrue source (decls.flatMap Decl.tokens) := by
    rw [← tokens_of_splitDecls h]
    exact ht
  have hall : AllTrue source d.tokens := fun t ht => htokens t (List.mem_flatMap.2 ⟨d, hd, ht⟩)
  rw [Decl.tokens] at hall
  obtain ⟨hall, -⟩ := List.forall_mem_append.1 hall
  obtain ⟨hhead, htail⟩ := List.forall_mem_append.1 hall
  exact ⟨hhead, allTrue_flattenAll.1 htail⟩

variable {d : Diagnostic}

theorem packageClause_error {clause : Decl} (hc : clause.TrueIn source)
    (h : packageClause clause = .error d) : d.TrueIn source := by
  unfold packageClause at h
  split at h
  · rename_i name _ htail
    split at h
    · obtain rfl := Except.error.inj h
      exact ⟨_, rfl, Tree.span_true (hc.tail name (by simp [htail]))⟩
    · simp only at h
      split at h <;> cases h
  · obtain rfl := Except.error.inj h
    exact ⟨_, rfl, Tree.span_true hc.head⟩

theorem importPath_error {t : Tree} (ht : AllTrue source t.flatten) (h : importPath t = .error d) :
    d.TrueIn source := by
  have hspan := Tree.span_true ht
  unfold importPath at h
  split at h
  · simp only at h
    split at h
    · obtain rfl := Except.error.inj h
      exact ⟨_, rfl, hspan⟩
    · cases h
  · obtain rfl := Except.error.inj h
    exact ⟨_, rfl, hspan⟩

theorem importName_error {t : Tree} (ht : AllTrue source t.flatten) (h : importName t = .error d) :
    d.TrueIn source := by
  unfold importName at h
  split at h
  · cases h
  · split at h
    · cases h
    · obtain rfl := Except.error.inj h
      exact ⟨_, rfl, Tree.span_true ht⟩

theorem importSpec_error {trees : List Tree} (ht : ∀ t ∈ trees, AllTrue source t.flatten)
    (hne : trees ≠ []) (h : importSpec trees = .error d) : d.TrueIn source := by
  match trees with
  | [] => exact absurd rfl hne
  | [path] =>
    rcases bind_eq_error h with h | ⟨_, -, h⟩
    · exact importPath_error (ht path (by simp)) h
    · cases h
  | [name, path] =>
    rcases bind_eq_error h with h | ⟨_, -, h⟩
    · exact importName_error (ht name (by simp)) h
    · rcases bind_eq_error h with h | ⟨_, -, h⟩
      · exact importPath_error (ht path (by simp)) h
      · cases h
  | first :: _ :: _ :: _ =>
    obtain rfl := Except.error.inj h
    exact ⟨_, rfl, Tree.span_true (ht first (by simp))⟩

theorem importSpecs_error {trees : List Tree} (ht : ∀ t ∈ trees, AllTrue source t.flatten)
    (hne : trees ≠ []) (h : importSpecs trees = .error d) : d.TrueIn source := by
  unfold importSpecs at h
  simp only at h
  split at h
  · rename_i g hg
    obtain ⟨t, rfl, hg⟩ : ∃ t, trees = [t] ∧ t.group? .paren = some g := by
      split at hg
      · exact ⟨_, rfl, hg⟩
      · cases hg
    obtain ⟨front, spec, back, -, hsplit, -, h⟩ := mapM_eq_error h
    have hspec : spec ∈ (Tree.splitOn .semi g.trees).filter (!·.isEmpty) := by simp [hsplit]
    obtain ⟨hmem, hspec⟩ := List.mem_filter.1 hspec
    refine importSpec_error (fun u hu => ?_) (by simpa using hspec) h
    have hu : u ∈ g.trees := mem_of_mem_splitWhere hmem hu
    have hgroup := ht t List.mem_cons_self
    rw [group?_eq_some hg, Tree.flatten_group] at hgroup
    have hinner := (List.forall_mem_append.1 (List.forall_mem_cons.1 hgroup).2).1
    exact allTrue_flattenAll.1 hinner u hu
  · rcases bind_eq_error h with h | ⟨_, -, h⟩
    · exact importSpec_error ht hne h
    · cases h

theorem functionBody_error {trees : List Tree} (ht : ∀ t ∈ trees, AllTrue source t.flatten)
    (h : functionBody trees = .error d) : d.TrueIn source := by
  fun_induction functionBody trees with
  | case1 => cases h
  | case2 t _ u us _ ih => exact ih (fun v hv => ht v (by simp [hv])) h
  | case3 t _ u us _ ih => exact ih (fun v hv => ht v (List.mem_cons_of_mem _ hv)) h
  | case4 => cases h
  | case5 t ts _ _ ih => exact ih (fun v hv => ht v (List.mem_cons_of_mem _ hv)) h
  | case6 => cases h
  | case7 t _ g _ u us =>
    obtain rfl := Except.error.inj h
    exact ⟨_, rfl, Tree.span_true (ht u (by simp))⟩

theorem functionDecl_error {keyword : Span} {trees : List Tree} (hk : keyword.TrueIn source)
    (ht : ∀ t ∈ trees, AllTrue source t.flatten) (h : functionDecl keyword trees = .error d) :
    d.TrueIn source := by
  obtain ⟨b1, h1⟩ := skipGroup_append .paren trees
  unfold functionDecl at h
  split at h
  rename_i hasReceiver rest hr
  rw [hr] at h1
  have hrest : ∀ t ∈ rest, AllTrue source t.flatten := fun t hm => ht t (by simp [h1, hm])
  split at h
  · obtain rfl := Except.error.inj h
    exact ⟨_, rfl, hk⟩
  · rename_i t ts
    have hts := (List.forall_mem_cons.1 hrest).2
    split at h
    · obtain rfl := Except.error.inj h
      exact ⟨_, rfl, hk⟩
    · obtain ⟨b2, h2⟩ := skipGroup_append .bracket ts
      -- in front of the parameters stands the name, or the type parameters
      have hbefore : ∀ before ∈ t :: ts, before.span.TrueIn source :=
        fun before hm => Tree.span_true (hrest before hm)
      have hmem : ∀ u : Tree, u ∈ ts → (if (u.group? .bracket).isSome then u else t) ∈ t :: ts := by
        intro u hu
        split
        · exact List.mem_cons_of_mem _ hu
        · exact List.mem_cons_self
      simp only at h
      split at h
      · obtain rfl := Except.error.inj h
        refine ⟨_, rfl, hbefore _ ?_⟩
        split
        · exact hmem _ List.mem_cons_self
        · exact List.mem_cons_self
      · rename_i u us hu
        split at h
        · obtain rfl := Except.error.inj h
          refine ⟨_, rfl, hbefore _ ?_⟩
          split
          · exact hmem _ List.mem_cons_self
          · exact List.mem_cons_self
        · rcases bind_eq_error h with h | ⟨_, -, h⟩
          · rw [hu] at h2
            exact functionBody_error (fun v hv => hts v (by simp [h2, hv])) h
          · cases h

theorem item_error {testing : List String} {decl : Decl} (hd : decl.TrueIn source)
    (h : item testing decl = .error d) : d.TrueIn source := by
  have hhead := Tree.span_true hd.head
  unfold item at h
  split at h
  · obtain rfl := Except.error.inj h
    exact ⟨_, rfl, hhead⟩
  · split at h
    · rcases bind_eq_error h with h | ⟨_, -, h⟩
      · exact functionDecl_error hhead hd.tail h
      · cases h
    · split at h
      · cases h
      · obtain rfl := Except.error.inj h
        exact ⟨_, rfl, hhead⟩

/-! ### Faults of sources -/

/-- The first declaration that cannot be read is an import without anything behind its keyword. -/
def BareImport (decls : List Decl) : Prop :=
  ∃ clause front bare back named specs, decls = clause :: (front ++ bare :: back) ∧
    packageClause clause = .ok named ∧ (∀ d ∈ front, d.isImport = true) ∧
    front.mapM (fun d => importSpecs d.tail) = .ok specs ∧ bare.isImport = true ∧ bare.tail = []

/-- Declarations are read one after the other: the package, the imports, and the other ones. -/
theorem ofDecls_cons_error {clause : Decl} {decls : List Decl}
    (h : FileParts.ofDecls (clause :: decls) = .error d) :
    packageClause clause = .error d ∨ ∃ named, packageClause clause = .ok named ∧
      ((decls.takeWhile Decl.isImport).mapM (fun d => importSpecs d.tail) = .error d ∨
        ∃ testing, (decls.dropWhile Decl.isImport).mapM (item testing) = .error d) := by
  rw [FileParts.ofDecls] at h
  rcases bind_eq_error h with h | ⟨named, hnamed, h⟩
  · exact .inl h
  · refine .inr ⟨named, hnamed, ?_⟩
    rcases bind_eq_error h with h | ⟨specs, -, h⟩
    · exact .inl h
    · rcases bind_eq_error h with h | ⟨_, -, h⟩
      · exact .inr ⟨_, h⟩
      · cases h

/-- **Which faults of declarations have no position**: that of an import without anything behind its
keyword, and that there are no declarations. -/
theorem ofDecls_error {decls : List Decl} (hd : ∀ decl ∈ decls, decl.TrueIn source)
    (hne : decls ≠ []) (h : FileParts.ofDecls decls = .error d) :
    d.TrueIn source ∨ BareImport decls := by
  obtain ⟨clause, decls, rfl⟩ := List.exists_cons_of_ne_nil hne
  obtain ⟨hclause, hdecls⟩ := List.forall_mem_cons.1 hd
  rcases ofDecls_cons_error h with h | ⟨named, hnamed, h | ⟨testing, h⟩⟩
  · exact .inl (packageClause_error hclause h)
  · obtain ⟨front, bare, back, specs, hsplit, hfront, h⟩ := mapM_eq_error h
    have himport : ∀ decl ∈ front ++ bare :: back, decl.isImport = true := by
      rw [← hsplit]
      exact fun decl hm => List.mem_takeWhile_imp hm
    have hbare : bare ∈ decls := (List.takeWhile_prefix _).subset (by rw [hsplit]; simp)
    by_cases htail : bare.tail = []
    · have happend : front ++ bare :: (back ++ decls.dropWhile Decl.isImport) = decls := by
        rw [← List.cons_append, ← List.append_assoc, ← hsplit, List.takeWhile_append_dropWhile]
      refine .inr ⟨clause, front, bare, _, named, specs, by rw [happend], hnamed, ?_, hfront,
        himport bare (by simp), htail⟩
      exact fun decl hm => himport decl (by simp [hm])
    · exact .inl (importSpecs_error (hdecls bare hbare).tail htail h)
  · obtain ⟨front, decl, back, _, hsplit, -, h⟩ := mapM_eq_error h
    have hmem : decl ∈ decls := (List.dropWhile_suffix _).subset (by rw [hsplit]; simp)
    exact .inl (item_error (hdecls decl hmem) h)

theorem ofDecls_of_bareImport {decls : List Decl} (h : BareImport decls) :
    FileParts.ofDecls decls = .error ⟨"expected import path", none⟩ := by
  obtain ⟨clause, front, bare, back, ⟨package, anchor⟩, specs, rfl, hclause, hfront, hspecs, hbare,
    htail⟩ := h
  have htake : (front ++ bare :: back).takeWhile Decl.isImport =
      front ++ bare :: back.takeWhile Decl.isImport := by
    rw [List.takeWhile_append_of_pos hfront, List.takeWhile_cons_of_pos hbare]
  have hfault : importSpecs bare.tail = .error ⟨"expected import path", none⟩ := by
    rw [htail]
    rfl
  have hall : ((front ++ bare :: back).takeWhile Decl.isImport).mapM
      (fun d => importSpecs d.tail) = .error ⟨"expected import path", none⟩ := by
    rw [htake, List.mapM_append, hspecs, List.mapM_cons, hfault]
    rfl
  unfold Decl.isImport at hall
  simp only [FileParts.ofDecls, hclause, hall, bind, Except.bind]

/-- A source whose first fault is an import without anything behind its keyword. -/
def BareImportIn (source : String) : Prop :=
  ∃ tokens trees decls, lex source = .ok tokens ∧ Tree.build tokens = .ok trees ∧
    splitDecls trees = .ok decls ∧ BareImport decls

/-- A diagnostic shows a fault: it has the position of a place in the source, and its excerpt is the
line of that place with a caret under the place. -/
def Diagnostic.ShownIn (source : String) (d : Diagnostic) : Prop :=
  ∃ s before after, d.span = some s ∧ source.toList = before ++ after ∧ s.Behind before ∧
    d.position = s.position ∧
    let line := String.ofList (lineOf before after)
    let indent := String.ofList (List.replicate (lastLine before).length ' ')
    d.excerpt source = s!"error:{s.line}:{s.column}: {d.message}\n  {line}\n  {indent}^"

theorem Diagnostic.TrueIn.shown (h : d.TrueIn source) : d.ShownIn source := by
  obtain ⟨s, hs, before, ⟨after, happ⟩, hb⟩ := h
  refine ⟨s, before, after, hs, happ.symm, hb, by rw [Diagnostic.position, hs], ?_⟩
  have hline := lines_getD happ.symm
  unfold Diagnostic.excerpt
  rw [hs]
  simp only [hb.line, hb.column, Nat.add_sub_cancel, hline]

theorem Diagnostic.ShownIn.span_ne_none (h : d.ShownIn source) : d.span ≠ none := by
  obtain ⟨s, _, _, hs, -⟩ := h
  simp [hs]

/-- Where a source has a token, the first of its tokens is not the end of the file. -/
theorem exists_token_of_scan {tokens : List Token} (h : lex source = .ok tokens)
    (ht : ∃ kind, .token kind ∈ (scan source.toList).1) :
    ∃ t ts, tokens = t :: ts ∧ t.kind ≠ .eof := by
  obtain ⟨hscan, rfl⟩ := lex_eq_ok_iff.1 h
  obtain ⟨kind, hkind⟩ := ht
  obtain ⟨t, ts, htokens⟩ :=
    List.exists_cons_of_ne_nil (tokensFrom_ne_nil .origin false (scan source.toList).1)
  refine ⟨t, ts, htokens, ?_⟩
  have hrow := row_of_scan hscan
  cases opens_of_tokensFrom htokens with
  | @spelled others first rest _ _ hps =>
    rw [hps, row_append] at hrow
    exact hrow.2.1.longest.1
  | inserted => exact TokenKind.noConfusion
  | ended hothers => exact absurd (hothers _ hkind) (by simp [Piece.isToken])

/-- A fault of a source that has a token has a true position, or is that of an import without anything
behind its keyword. -/
theorem ofText_error (ht : ∃ kind, .token kind ∈ (scan source.toList).1)
    (h : FileParts.ofText source = .error d) : d.TrueIn source ∨ BareImportIn source := by
  rcases bind_eq_error h with h | ⟨tokens, hlex, h⟩
  · exact .inl (lex_error h)
  have htrue : AllTrue source tokens := true_of_mem_lex hlex
  rcases bind_eq_error h with h | ⟨trees, hbuild, h⟩
  · exact .inl (Tree.grow_error (by simp) htrue h)
  have hflatten := Tree.flattenAll_of_build hbuild
  have htrees : AllTrue source (Tree.flattenAll trees) := by
    rw [hflatten]
    exact fun t hm => htrue t ((List.takeWhile_prefix _).subset hm)
  rcases bind_eq_error h with h | ⟨decls, hsplit, h⟩
  · exact .inl (splitDeclsFrom_error (by simp) (allTrue_flattenAll.1 htrees) h)
  have hne : decls ≠ [] := by
    rintro rfl
    obtain ⟨t, ts, rfl, heof⟩ := exists_token_of_scan hlex ht
    have hempty := (tokens_of_splitDecls hsplit).symm.trans hflatten
    simp [heof] at hempty
  exact (ofDecls_error (true_of_splitDecls htrees hsplit) hne h).imp_right
    fun hbare => ⟨tokens, trees, decls, hlex, hbuild, hsplit, hbare⟩

/-- Such an import is a fault without a position. -/
theorem ofText_of_bareImport (h : BareImportIn source) :
    FileParts.ofText source = .error ⟨"expected import path", none⟩ := by
  obtain ⟨tokens, trees, decls, hlex, hbuild, hsplit, hbare⟩ := h
  simp only [FileParts.ofText, FileParts.ofTokens, hlex, hbuild, hsplit,
    ofDecls_of_bareImport hbare, bind, Except.bind]

theorem parse_eq_malformed {path : Path} : SourceFile.parse path source =
    .error (.malformed path source d) ↔ FileParts.ofText source = .error d := by
  unfold SourceFile.parse
  split
  · rename_i hparts
    simp [hparts]
  · rename_i hfault
    simp [hfault]

/-- **Every position is true, and every fault shows one**, but for an import without anything behind
its keyword, in a source that has a token. -/
theorem shown_iff (source : String) :
    (∀ tokens, lex source = .ok tokens → ∀ t ∈ tokens, t.span.TrueIn source) ∧
      ∀ path d, SourceFile.parse path source = .error (.malformed path source d) →
        (∃ kind, .token kind ∈ (scan source.toList).1) →
        (d.ShownIn source ↔ ¬ BareImportIn source) := by
  refine ⟨fun tokens => true_of_mem_lex, fun path d hparse ht => ?_⟩
  have hfault := parse_eq_malformed.1 hparse
  constructor
  · intro hshown hbare
    rw [ofText_of_bareImport hbare] at hfault
    obtain rfl := Except.error.inj hfault
    exact hshown.span_ne_none rfl
  · intro hbare
    exact ((ofText_error ht hfault).resolve_right hbare).shown

/-- A source with an import that has nothing behind its keyword. -/
def bareImport : String := "package p\n\nimport;\n"

theorem bareImportIn_bareImport : BareImportIn bareImport := by
  have hlex : (lex bareImport).toOption = some [⟨.keyword .kwPackage, ⟨0, 7, 1, 1⟩⟩,
      ⟨.ident "p", ⟨8, 9, 1, 9⟩⟩, ⟨.operator .semi, ⟨10, 10, 2, 1⟩⟩,
      ⟨.keyword .kwImport, ⟨11, 17, 3, 1⟩⟩, ⟨.operator .semi, ⟨17, 18, 3, 7⟩⟩,
      ⟨.eof, ⟨19, 19, 4, 1⟩⟩] := by decide +kernel
  cases htokens : lex bareImport with
  | error => rw [htokens] at hlex; cases hlex
  | ok tokens =>
    rw [htokens] at hlex
    obtain rfl := Option.some.inj hlex
    exact ⟨_, _, _, htokens, rfl, rfl, _, [], _, [], ("p", ⟨9, false⟩), [], rfl, rfl, by simp, rfl,
      rfl, rfl⟩

theorem not_shown_of_bareImport : ∃ d, SourceFile.parse ⟨"a_test.go"⟩ bareImport =
    .error (.malformed ⟨"a_test.go"⟩ bareImport d) ∧
    (∃ kind, .token kind ∈ (scan bareImport.toList).1) ∧ ¬ d.ShownIn bareImport := by
  have htoken : ∃ kind, .token kind ∈ (scan bareImport.toList).1 :=
    ⟨.keyword .kwPackage, by decide +kernel⟩
  have hfault := ofText_of_bareImport bareImportIn_bareImport
  have hparse : SourceFile.parse ⟨"a_test.go"⟩ bareImport = _ := parse_eq_malformed.2 hfault
  exact ⟨_, hparse, htoken, fun hshown =>
    ((shown_iff bareImport).2 _ _ hparse htoken).1 hshown bareImportIn_bareImport⟩

end TestWeave.Source
