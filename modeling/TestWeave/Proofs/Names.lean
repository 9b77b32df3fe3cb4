import TestWeave.Proofs.Prepared

/-!
# Names in a source

* `name_of_mem_lex`: the identifiers of a source are words.
* `name_of_import`: so are the names of its imports, the dot apart.
* `forall_mem_qualifier`: the characters of the name that instrumented calls go through.
-/

namespace TestWeave.Source

open TestWeave.Text TestWeave.Change

/-- Spelled as an identifier, and no keyword. -/
def IsName (s : String) : Prop := isIdentifier s = true ∧ Keyword.ofWord? s = none

instance (s : String) : Decidable (IsName s) := inferInstanceAs (Decidable (_ ∧ _))

/-! ### Identifiers -/

theorem name_of_mem_tokensFrom {here : Place} {armed : Bool} {ps : List Piece} {rest : List Char}
    (hr : Row ps rest) {t : Token} (ht : t ∈ tokensFrom here armed ps) {name : String}
    (hk : t.kind = .ident name) : IsName name := by
  induction ps generalizing here armed with
  | nil =>
    simp only [tokensFrom, List.mem_append, List.mem_ite_nil_right, List.mem_singleton] at ht
    rcases ht with ⟨-, rfl⟩ | rfl <;> simp [insertedSemi] at hk
  | cons p ps ih =>
    rcases p.token_or with ⟨kind, rfl⟩ | hp
    · rw [tokensFrom_token, List.mem_cons] at ht
      rcases ht with rfl | ht
      · obtain rfl : kind = .ident name := hk
        exact hr.1.of_ident
      · exact ih hr.2 ht
    · rw [tokensFrom_other _ _ hp] at ht
      split at ht
      · rcases List.mem_cons.1 ht with rfl | ht
        · simp [insertedSemi] at hk
        · exact ih hr.2 ht
      · exact ih hr.2 ht

/-- **The identifiers of a source** are words and no keywords. -/
theorem name_of_mem_lex {source : String} {tokens : List Token} (h : lex source = .ok tokens)
    {t : Token} (ht : t ∈ tokens) {name : String} (hk : t.kind = .ident name) : IsName name := by
  obtain ⟨hs, rfl⟩ := lex_eq_ok_iff.1 h
  exact name_of_mem_tokensFrom (row_of_scan hs) ht hk

/-- The tokens of a tree are among those of a list that it is in. -/
theorem flatten_subset {t : Tree} {trees : List Tree} (h : t ∈ trees) :
    t.flatten ⊆ Tree.flattenAll trees := by
  induction trees with
  | nil => simp at h
  | cons u us ih =>
    rw [Tree.flattenAll_cons]
    rcases List.mem_cons.1 h with rfl | h
    · exact List.subset_append_left ..
    · exact List.Subset.trans (ih h) (List.subset_append_right ..)

/-! ### Imports -/

theorem importSpec_name {trees : List Tree} {spec : ImportSpec} (h : SpecOf trees spec)
    {name : String} (hn : spec.name = some name) :
    name = "." ∨ ∃ t ∈ trees, t.ident? = some name := by
  cases h with
  | bare => cases hn
  | @named n t own path hname =>
    obtain rfl : own = name := Option.some.inj hn
    rcases importName_eq_ok_iff.1 hname with ⟨-, hdot⟩ | hi
    · exact .inl hdot
    · exact .inr ⟨n, by simp, hi⟩

/-- The name of an import is a dot or an identifier of its declaration. -/
theorem importSpecs_name {trees : List Tree} {specs : List ImportSpec}
    (h : importSpecs trees = .ok specs) {spec : ImportSpec} (hs : spec ∈ specs) {name : String}
    (hn : spec.name = some name) :
    name = "." ∨ ∃ t ∈ Tree.flattenAll trees, t.kind = .ident name := by
  have leaf : ∀ {us : List Tree}, (∃ t ∈ us, t.ident? = some name) →
      ∃ t ∈ Tree.flattenAll us, t.kind = .ident name := by
    rintro us ⟨t, ht, hi⟩
    obtain ⟨span, rfl⟩ := ident?_eq_some hi
    exact ⟨⟨.ident name, span⟩, flatten_subset ht (by simp), rfl⟩
  cases importSpecs_eq_ok_iff.1 h with
  | @listed t g _ hg hspecs =>
    obtain ⟨segment, hm, hf⟩ := mem_of_mapM hspecs hs
    refine (importSpec_name (importSpec_eq_ok_iff.1 hf) hn).imp id fun ⟨u, hu, hi⟩ => ?_
    obtain ⟨token, htoken, hk⟩ :=
      leaf ⟨u, mem_of_mem_splitWhere (List.mem_of_mem_filter hm) hu, hi⟩
    refine ⟨token, ?_, hk⟩
    rw [group?_eq_some hg]
    simp [htoken]
  | alone _ hspec =>
    obtain rfl := List.mem_singleton.1 hs
    exact (importSpec_name hspec hn).imp id leaf

/-- **The names of imports** are dots or names. -/
theorem name_of_import {path : Path} {source : String} {file : SourceFile}
    (h : SourceFile.parse path source = .ok file) {spec : ImportSpec} (hs : spec ∈ file.imports)
    {name : String} (hn : spec.name = some name) : name = "." ∨ IsName name := by
  obtain ⟨-, -, tokens, trees, clause, decls, specs, its, hl, ht, hd, hp⟩ := parse_eq_ok h
  rw [hp.imports_eq, List.mem_flatten] at hs
  obtain ⟨l, hl', hs⟩ := hs
  obtain ⟨d, hd', hf⟩ := mem_of_mapM hp.specs_eq hl'
  refine (importSpecs_name hf hs hn).imp id fun ⟨t, ht', hk⟩ => ?_
  refine name_of_mem_lex hl ?_ hk
  have hflat := tokens_of_splitDecls hd
  rw [Tree.flattenAll_of_build ht] at hflat
  refine (List.takeWhile_sublist fun t : Token => t.kind != .eof).subset ?_
  rw [hflat, List.mem_flatMap]
  refine ⟨d, List.mem_cons_of_mem _ ((List.takeWhile_sublist _).subset hd'), ?_⟩
  simp [Decl.tokens, ht']

/-! ### The characters of names -/

/-- The name by which a file refers to a path is a name, or the last part of the path. -/
theorem localName?_cases {path : Path} {source : String} {file : SourceFile}
    (h : SourceFile.parse path source = .ok file) {importPath name : String}
    (hn : file.localName? importPath = some name) :
    IsName name ∨ name = String.ofList (importPath.toList.reverse.takeWhile (· != '/')).reverse := by
  obtain ⟨spec, hs, hl⟩ := List.exists_of_findSome?_eq_some hn
  obtain ⟨hmem, hpath⟩ := List.mem_filter.1 hs
  unfold ImportSpec.localName? at hl
  split at hl
  · rename_i name' hname
    split at hl
    · simp at hl
    · rename_i hne
      obtain rfl : name' = name := by simpa using hl
      rcases name_of_import h hmem hname with rfl | hw
      · simp at hne
      · exact .inl hw
  · right
    have hpath : spec.path = importPath := by simpa using hpath
    rw [← hpath]
    simpa using hl.symm

theorem forall_mem_numbered {P : Char → Prop} {preferred name : String}
    (h : IsChoice preferred name) (hp : ∀ c ∈ preferred.toList, P c)
    (hd : ∀ c, c.isDigit = true → P c) : ∀ c ∈ name.toList, P c := by
  obtain ⟨k, rfl⟩ := h
  cases k with
  | zero => exact hp
  | succ k =>
    intro c hc
    rw [numbered, String.toList_append, List.mem_append] at hc
    rcases hc with hc | hc
    · exact hp c hc
    · refine hd c ?_
      have hc : c ∈ Nat.toDigits 10 (k + 1) := by simpa using hc
      exact Nat.isDigit_of_mem_toDigits (by omega) (by omega) hc

theorem isIdentPart_of_isDigit {c : Char} (h : c.isDigit = true) : isIdentPart c = true :=
  isIdentPart_of_isAlphanum (by simp [Char.isAlphanum, h])

theorem IsName.forall_mem {name : String} (h : IsName name) :
    ∀ c ∈ name.toList, isIdentPart c = true := isSoft_of_mem_word h.1

/-- **The characters of the qualifier** are those of words and of the import path. -/
theorem forall_mem_qualifier {path : Path} {source : String} {file : SourceFile}
    (h : SourceFile.parse path source = .ok file) {sdk : Instrumentation} {P : Char → Prop}
    (hw : ∀ c, isIdentPart c = true → P c) (hl : IsName sdk.localName)
    (hp : ∀ c ∈ sdk.importPath.toList, c ≠ '/' → P c) :
    ∀ c ∈ (qualifier file sdk).toList, P c := by
  rcases ensureImport_spec (Patch.new file) sdk.importPath sdk.localName with
    ⟨name, hn, he⟩ | ⟨-, he⟩
  · rw [qualifier, he]
    have hn : file.localName? sdk.importPath = some name := by
      simpa [Patch.importedName?, Patch.new] using hn
    rcases localName?_cases h hn with hname | rfl
    · exact fun c hc => hw c (hname.forall_mem c hc)
    · intro c hc
      rw [String.toList_ofList, List.mem_reverse] at hc
      refine hp c ?_ ?_
      · exact List.mem_reverse.1 ((List.takeWhile_sublist _).subset hc)
      · simpa using List.mem_takeWhile_imp hc
  · rw [qualifier, he]
    exact forall_mem_numbered (isChoice_freeName ..) (fun c hc => hw c (hl.forall_mem c hc))
      fun c hc => hw c (isIdentPart_of_isDigit hc)

/-! ### The names of redirected calls -/

/-- The name under which an instrumentation is imported and its entries are names. -/
structure Named (sdk : Instrumentation) : Prop where
  localName : IsName sdk.localName
  subtestEntry : IsName sdk.subtestEntry
  suiteEntry : IsName sdk.suiteEntry

theorem named_default : Named .default :=
  ⟨by decide, by decide, by decide⟩

theorem Named.entry {sdk : Instrumentation} (h : Named sdk) {file : SourceFile}
    {site : CallSite × String} (hs : site ∈ Patch.targets file sdk) : IsName site.2 := by
  simp only [Patch.targets, List.mem_append, List.mem_flatMap, List.mem_map] at hs
  rcases hs with ⟨test, -, call, -, rfl⟩ | ⟨driver, -, rfl⟩
  · simp only
    split
    · exact h.suiteEntry
    · exact h.subtestEntry
  · exact h.suiteEntry

/-- The receivers of windows are names. -/
theorem name_of_receiver {segs : List Segment} {rest : List Char} (hr : Row (piecesOf segs) rest)
    {site : CallSite × String} (hs : site ∈ sitesOf segs) : IsName site.1.receiver := by
  induction segs with
  | nil => simp at hs
  | cons s segs ih =>
    cases s with
    | plain p => exact ih hr.2 hs
    | window w =>
      rw [piecesOf_window, row_append] at hr
      rcases List.mem_cons.1 hs with rfl | hs
      · exact receiver_of_row hr.1
      · exact ih hr.2 hs

theorem Layout.row_segs {file : SourceFile} {sdk : Instrumentation} {head : Head}
    {segs : List Segment} (hl : Layout file sdk head segs) : Row (piecesOf segs) [] :=
  (row_append.1 hl.row).2

end TestWeave.Source
