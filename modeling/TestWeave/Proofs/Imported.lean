import TestWeave.Config.Settings
import TestWeave.Proofs.Remodel

/-!
# The import of configured names

Settings are accepted if their import path is not blank and their import name is spelled as an
identifier. An import of that path under that name is put into a source as it stands.

* `freeName_not_mem`: the name of an added import is not taken.
* `emit_of_imports`: imports alone are made if the source with them parses.
* `parse_withImports`: a source with more imports that can be spelled has those imports.
* `exists_first`: what the first import of such a source is, if it parses.
* `imported_iff`: accepted settings give that import exactly if the name is no keyword and the path is
  spelled.
-/

namespace TestWeave.Change

open TestWeave.Text TestWeave.Source TestWeave.Config

/-! ### Free names -/

theorem numbered_inj {preferred : String} {j k : Nat}
    (h : numbered preferred j = numbered preferred k) : j = k := by
  have hne : ∀ n : Nat, preferred ≠ numbered preferred (n + 1) := by
    intro n hn
    have hlist := congrArg String.toList hn
    rw [numbered, String.toList_append, List.self_eq_append_right] at hlist
    simp at hlist
  cases j with
  | zero =>
    cases k with
    | zero => rfl
    | succ k => exact absurd h (hne k)
  | succ j =>
    cases k with
    | zero => exact absurd h.symm (hne j)
    | succ k =>
      have hlist := congrArg String.toList h
      rw [numbered, numbered, String.toList_append, String.toList_append,
        List.append_cancel_left_eq] at hlist
      have hnumber := congrArg (fun digits => Nat.ofDigitChars 10 digits 0) hlist
      simpa [Nat.toString_eq_ofList_toDigits] using hnumber

/-- **A free name is free**: one of the choices is, as there is one more of them than taken names. -/
theorem freeName_not_mem (preferred : String) (taken : List String) :
    freeName preferred taken ∉ taken := by
  unfold freeName
  cases h : ((List.range (taken.length + 1)).map (numbered preferred)).find?
      (!taken.contains ·) with
  | some name => simpa using List.find?_some h
  | none =>
    have hnodup : ((List.range (taken.length + 1)).map (numbered preferred)).Nodup :=
      List.Nodup.map (fun _ _ => numbered_inj) List.nodup_range
    have hsub : (List.range (taken.length + 1)).map (numbered preferred) ⊆ taken := by
      intro name hname
      simpa using List.find?_eq_none.1 h name hname
    have := (List.subperm_of_subset hnodup hsub).length_le
    simp only [List.length_map, List.length_range] at this
    omega

/-! ### A source with one more import -/

/-- The patch that adds one import, a path and a name. -/
def adding (file : SourceFile) (a : String × String) : Patch :=
  { Patch.new file with edits := [importEdit file.anchor a], addedImports := [a] }

/-- The import that a file needs of a path that it does not import under a name. -/
theorem ensureImport_new {file : SourceFile} {path : String} (hm : file.localName? path = none)
    (preferred : String) :
    ∃ name, (Patch.new file).ensureImport path preferred = (name, adding file (path, name)) ∧
      IsChoice preferred name ∧ name ∉ file.imports.filterMap ImportSpec.localName? := by
  rcases ensureImport_spec (Patch.new file) path preferred with ⟨name, hname, -⟩ | ⟨-, he⟩
  · have hnone : (Patch.new file).importedName? path = none := by
      simp [Patch.importedName?, Patch.new, hm]
    rw [hnone] at hname
    simp at hname
  · refine ⟨_, he, isChoice_freeName .., fun hmem => ?_⟩
    refine freeName_not_mem preferred (Patch.new file).takenNames ?_
    simp only [Patch.takenNames, List.mem_append]
    exact .inl (.inl hmem)

variable {file : SourceFile} {sdk : Instrumentation} {head : Head} {segs : List Segment}
  {a : String × String}

/-- The source of a file with more imports. -/
def withImports (file : SourceFile) (head : Head) (segs : List Segment)
    (adds : List (String × String)) : String :=
  String.ofList (Piece.joined (head.pieces file.package) ++
    (importsText file.anchor adds ++ Piece.joined (piecesOf segs)))

/-- The source of a file with one more import. -/
def withImport (file : SourceFile) (head : Head) (segs : List Segment) (a : String × String) :
    String :=
  String.ofList (Piece.joined (head.pieces file.package) ++
    (importsText file.anchor [a] ++ Piece.joined (piecesOf segs)))

/-- **Added imports are made** if the source with them parses. -/
theorem emit_of_imports (adds : List (String × String)) (hl : Layout file sdk head segs) {p : Patch}
    (hfile : p.file = file) (hedits : p.edits = adds.map (importEdit file.anchor))
    (happended : p.appended = "") (text : String) :
    p.emit = .ok text ↔ text = withImports file head segs adds ∧
      ∃ file', SourceFile.parse file.path text = .ok file' := by
  have hoffset : ∀ e ∈ adds.map (importEdit file.anchor),
      e.start = (head.stop file.package).offset ∧ e.stop = (head.stop file.package).offset :=
    fun e he => importEdit_offset hl he
  have hsorted : (adds.map (importEdit file.anchor)).Pairwise fun a b => a.precedes b = true := by
    refine List.pairwise_of_forall_mem_list fun a ha b hb => ?_
    rw [precedes_iff, (hoffset a ha).1, (hoffset a ha).2, (hoffset b hb).1, (hoffset b hb).2]
    omega
  have happly : applyEdits file.source.toList p.edits =
      .ok (withImports file head segs adds).toList := by
    rw [hedits, applyEdits, List.mergeSort_of_pairwise hsorted, hl.source, joined_append,
      splice_keep]
    · rw [Nat.zero_add, ← offset_stop, ← List.append_nil (adds.map _), splice_inserts hoffset,
        splice]
      simp [Except.map, withImports, importsText, importEdit, List.flatMap_map]
    · intro e he
      rw [(hoffset e he).1, offset_stop, Nat.zero_add]
  rw [emit_eq_ok_iff, hfile, happended, happly]
  simp [String.ofList_toList]

/-- **An added import is made** if the source with it parses. -/
theorem emit_adding (hl : Layout file sdk head segs) (a : String × String) (text : String) :
    (adding file a).emit = .ok text ↔ text = withImport file head segs a ∧
      ∃ file', SourceFile.parse file.path text = .ok file' :=
  emit_of_imports [a] hl rfl rfl rfl text

/-! ### What can be spelled -/

/-- **A source with more imports** that can be spelled has those imports, in front of its own. -/
theorem parse_withImports {path : Path} {source : String} (adds : List (String × String))
    (hf : SourceFile.parse path source = .ok file) (hl : Layout file sdk head segs)
    (hadds : ∀ a ∈ adds, Addable a) :
    ∃ file', SourceFile.parse path (withImports file head segs adds) = .ok file' ∧
      file'.outline.imports = adds.map (fun a => (some a.2, a.1)) ++ file.outline.imports := by
  obtain ⟨-, hsource, -⟩ := parse_eq_ok hf
  obtain ⟨tokens, ks, hlex, hkinds, hold⟩ := hl.kinds
  rw [hsource] at hlex
  -- the tokens of the source end with the end of the file, behind the semicolon of its clause
  obtain ⟨ks', rfl, heof⟩ : ∃ ks', ks = ks' ++ [.eof] ∧ ∀ kind ∈ ks', kind ≠ .eof := by
    obtain ⟨more, hmore, heof, -⟩ := kindsFrom_break hl.row_segs head.semi.isNone
    rw [hold, Head.semiKinds] at hmore
    split at hmore
    · cases more with
      | nil => simp at hmore
      | cons kind more =>
        obtain ⟨-, hks⟩ := List.cons.inj hmore
        exact ⟨more, hks, fun kind hk => heof kind (List.mem_cons_of_mem _ hk)⟩
    · exact ⟨more, hmore, heof⟩
  have hrow : Row (head.pieces file.package ++ importsPieces head.semi.isSome adds ++
      piecesOf segs) [] := by
    refine row_append.2 ⟨row_append.2 ⟨?_, row_imports _ hadds _⟩, hl.row_segs⟩
    cases adds with
    | nil => exact (row_append.1 hl.row).1
    | cons a adds => exact hl.row_head fun hs => by rw [hs]; rfl
  have htext : (withImports file head segs adds).toList =
      Piece.joined (head.pieces file.package ++ importsPieces head.semi.isSome adds ++
        piecesOf segs) := by
    rw [withImports, String.toList_ofList, ← joined_importsPieces, explicitSemi_eq hl]
    simp
  obtain ⟨tokens', hlex', hkinds'⟩ := lex_of_scan (by rw [htext, scan_joined hrow])
  have hnew : tokens'.map Token.kind = clauseKinds file.package ++
      (adds.flatMap importKinds ++ (ks' ++ tailKinds none "" "" [])) := by
    rw [hkinds', kinds_changed file.package hl.before hl.gap hl.semi adds hold, tailKinds]
  obtain ⟨file', hparse, himports, -⟩ :=
    parse_of_woven hf hlex hkinds (.refl _ _) heof hadds (by simp) (by simp) hlex' hnew
  exact ⟨file', hparse, himports⟩

/-- **A source with one more import** that can be spelled has that import, in front of its own. -/
theorem parse_withImport {path : Path} {source : String}
    (hf : SourceFile.parse path source = .ok file) (hl : Layout file sdk head segs)
    (ha : Addable a) :
    ∃ file', SourceFile.parse path (withImport file head segs a) = .ok file' ∧
      file'.outline.imports = (some a.2, a.1) :: file.outline.imports :=
  parse_withImports [a] hf hl (by simpa using ha)

/-! ### What is read -/

/-- The pieces of an added import in front of its path. -/
def importLead (explicitSemi : Bool) (name : String) : List Piece :=
  (if explicitSemi then [.blank ' '] else [.token (.operator .semi), .blank ' ']) ++
    [.token (.keyword .kwImport), .blank ' ', .token (wordKind name), .blank ' ']

theorem importText_toList (anchor : ImportAnchor) (name path : String) :
    (Patch.importText anchor name path).toList =
      Piece.joined (importLead anchor.explicitSemi name) ++
        '"' :: (path.toList ++ '"' :: if anchor.explicitSemi then [';'] else []) := by
  have hword : (Piece.token (wordKind name)).text = name.toList :=
    congrArg String.toList (wordKind_text name)
  unfold Patch.importText importLead
  split <;> simp only [joined_append, joined_cons, hword] <;>
    simp [Piece.text, TokenKind.text, Keyword.spelling, Operator.spelling, toString]

theorem row_importLead (explicitSemi : Bool) {name : String} (hn : isIdentifier name = true)
    (rest : List Char) : Row (importLead explicitSemi name) rest := by
  have hspace : ∀ c ∈ [' '].head?, isIdentPart c = false := by
    simp [not_isIdentPart_of_mem_marks (show ' ' ∈ marks by decide)]
  have hword : Row [.token (.keyword .kwImport), .blank ' ', .token (wordKind name), .blank ' ']
      rest := ⟨reads_keyword _ hspace, .blank rfl, .word hn hspace, .blank rfl, trivial⟩
  unfold importLead
  refine row_append.2 ⟨?_, hword⟩
  split
  · exact ⟨.blank rfl, trivial⟩
  · exact ⟨reads_semi _, .blank rfl, trivial⟩

/-- A quote begins a literal, if the text can be scanned. -/
theorem scan_quote {cs : List Char} (h : (scan ('"' :: cs)).2 = none) :
    ∃ body rest, quotedBody '"' cs = (body, some rest) ∧
      (scan ('"' :: cs)).1 =
        .token (.literal .string (String.ofList ('"' :: body))) :: (scan rest).1 := by
  have hread : readPiece '"' cs = readQuoted .string .stringOpen '"' cs :=
    readPiece_mark (by decide) (by decide) (by simp) (by simp) (by decide) rfl
  cases hq : quotedBody '"' cs with
  | mk body rest? =>
    cases rest? with
    | some rest =>
      refine ⟨body, rest, rfl, ?_⟩
      have hself : quotedBody '"' body = (body, some []) := by simpa using quotedBody_self hq []
      have hreads : Reads (.token (.literal .string (String.ofList ('"' :: body)))) rest :=
        .string hself
      have hscan := scan_cons_of_reads hreads
      have htext : (Piece.token (.literal .string (String.ofList ('"' :: body)))).text ++ rest =
          '"' :: cs := by
        simp [Piece.text, TokenKind.text, quotedBody_append hq]
      rw [← htext, hscan]
    -- without a second quote the scan has failed
    | none =>
      rw [scan] at h
      split at h
      · simp at h
      · rename_i hp
        rw [hread, readQuoted, hq] at hp
        simp at hp

/-- The first declaration goes as far as there are no semicolons at least. -/
theorem splitDecls_first {t : Tree} {front rest : List Tree} {ds : List Decl}
    (hfront : ∀ u ∈ front, u.isOperator .semi = false)
    (h : splitDecls (t :: (front ++ rest)) = .ok ds) :
    ∃ d ds', ds = d :: ds' ∧ d.head = t ∧ front <+: d.tail := by
  obtain ⟨htrees, hstands⟩ := splitDecls_eq_ok_iff.1 h
  cases ds with
  | nil => simp at htrees
  | cons d ds =>
    rw [List.flatMap_cons, Decl.trees, List.append_assoc, List.cons_append, List.cons.injEq,
      List.append_eq_append_iff] at htrees
    obtain ⟨hhead, ⟨more, htail, -⟩ | ⟨more, hmore, hsemi⟩⟩ := htrees
    · exact ⟨d, ds, rfl, hhead.symm, more, htail.symm⟩
    · cases more with
      | nil => exact ⟨d, ds, rfl, hhead.symm, by simp [hmore]⟩
      | cons u more =>
        -- the semicolon that ends the declaration would be one of these trees
        obtain ⟨rfl, -⟩ := List.cons.inj hsemi
        have hplain := hfront (.leaf d.terminator) (by simp [hmore])
        rw [(hstands d List.mem_cons_self).isOperator_terminator] at hplain
        cases hplain

/-- An import that begins with a word and a literal is of the path that the literal quotes, and the
word is its name. -/
theorem importSpecs_word {word text : String} {s₁ s₂ : Span} {trees : List Tree}
    {specs : List ImportSpec}
    (h : importSpecs (.leaf ⟨wordKind word, s₁⟩ :: .leaf ⟨.literal .string text, s₂⟩ :: trees) =
      .ok specs) :
    Keyword.ofWord? word = none ∧ specs.map ImportSpec.outline = [(some word, unquote text)] := by
  cases importSpecs_eq_ok_iff.1 h with
  | alone _ hspec =>
    cases hspec with
    | @named _ _ own _ hname hpath =>
      obtain ⟨_, _, ⟨⟩, rfl, -⟩ := importPath_eq_ok_iff.1 hpath
      unfold wordKind at hname
      cases hw : Keyword.ofWord? word with
      | some k =>
        -- a keyword is no name of an import
        rw [hw] at hname
        rcases importName_eq_ok_iff.1 hname with ⟨hdot, -⟩ | hi
        · cases hdot
        · cases hi
      | none =>
        rw [hw] at hname
        rcases importName_eq_ok_iff.1 hname with ⟨hdot, -⟩ | hi
        · cases hdot
        · obtain rfl : word = own := Option.some.inj hi
          exact ⟨rfl, rfl⟩

/-- The tokens of an added import, up to its path. -/
theorem kindsFrom_importLead (explicitSemi : Bool) (name : String) (kind : TokenKind)
    (rest : List Piece) :
    kindsFrom (!explicitSemi) (importLead explicitSemi name ++ .token kind :: rest) =
      (if explicitSemi then [] else [.operator .semi]) ++
        (.keyword .kwImport :: wordKind name :: kind :: kindsFrom kind.endsStatement rest) := by
  have hblank : ∀ armed ps, kindsFrom armed (.blank ' ' :: ps) = kindsFrom armed ps := by
    intro armed ps
    rw [kindsFrom_other _ rfl, Piece.breaksLine, Bool.and_false, if_neg Bool.false_ne_true]
    all_goals simp
  cases explicitSemi <;> simp [importLead, kindsFrom_token, hblank]

/-- The tokens of a source with one more import, up to the path of that import. -/
theorem kinds_withImport (hl : Layout file sdk head segs) (hn : isIdentifier a.2 = true)
    {tokens : List Token} (hlex : lex (withImport file head segs a) = .ok tokens) :
    ∃ body rest rest' more, quotedBody '"' (a.1.toList ++ '"' :: rest) = (body, some rest') ∧
      tokens.map Token.kind = clauseKinds file.package ++ ([.keyword .kwImport, wordKind a.2,
        .literal .string (String.ofList ('"' :: body))] ++ more) := by
  obtain ⟨hscan, rfl⟩ := lex_eq_ok_iff.1 hlex
  obtain ⟨rest, htext⟩ : ∃ rest, (withImport file head segs a).toList =
      Piece.joined (head.pieces file.package ++ importLead head.semi.isSome a.2) ++
        '"' :: (a.1.toList ++ '"' :: rest) := by
    refine ⟨(if head.semi.isSome then [';'] else []) ++ Piece.joined (piecesOf segs), ?_⟩
    rw [withImport, String.toList_ofList, importsText, List.flatMap_singleton, importText_toList,
      explicitSemi_eq hl]
    simp
  have hrow : ∀ rest, Row (head.pieces file.package ++ importLead head.semi.isSome a.2) rest :=
    fun rest => row_append.2 ⟨hl.row_head fun hs => by rw [hs]; rfl, row_importLead _ hn _⟩
  rw [htext, scan_row (hrow _)] at hscan ⊢
  obtain ⟨body, rest', hbody, hpieces⟩ := scan_quote hscan
  refine ⟨body, rest, rest', kindsFrom true (scan rest').1, hbody, ?_⟩
  have harmed : head.semi.isNone = !head.semi.isSome := by cases head.semi <;> rfl
  rw [kinds_tokensFrom, hpieces, List.append_assoc,
    kindsFrom_head file.package hl.before hl.gap hl.semi, harmed, kindsFrom_importLead]
  cases head.semi <;> rfl

/-- **The first import of a source with one more import**, if that parses: its name is the one that
was put there, and its path is read from a literal that begins where the path was put. -/
theorem exists_first (hl : Layout file sdk head segs) (hn : isIdentifier a.2 = true) {path : Path}
    {file' : SourceFile} (h : SourceFile.parse path (withImport file head segs a) = .ok file') :
    ∃ body rest rest' imports,
      quotedBody '"' (a.1.toList ++ '"' :: rest) = (body, some rest') ∧
      Keyword.ofWord? a.2 = none ∧
      file'.outline.imports = (some a.2, unquote (String.ofList ('"' :: body))) :: imports := by
  obtain ⟨-, -, tokens, trees, clause, decls, specs, its, hlex, hb, hd, hp⟩ := parse_eq_ok h
  obtain ⟨body, rest, rest', more, hbody, hkinds⟩ := kinds_withImport hl hn hlex
  refine ⟨body, rest, rest', ?_⟩
  -- the trees of the tokens that were put there stand behind the package clause
  rw [← List.append_assoc] at hkinds
  obtain ⟨pre, post, rfl, hpre, -⟩ := List.map_eq_append_iff.1 hkinds
  have hplain : ∀ token ∈ pre, token.kind.isPlain = true := by
    intro token hm
    have hk := hpre ▸ List.mem_map_of_mem hm
    simp only [clauseKinds, List.mem_append, List.mem_cons, List.not_mem_nil, or_false] at hk
    rcases hk with (hk | hk | hk) | hk | hk | hk
    all_goals rw [hk]
    case inr.inr.inl => exact isPlain_wordKind a.2
    all_goals rfl
  obtain ⟨_, ts, -, hsketch, -⟩ := build_front hplain hplain (.refl _ _) hb
  rw [hpre, leaves_append, List.append_assoc] at hsketch
  obtain ⟨-, hsplit⟩ := splitDecls_clause hd hsketch
  have hnosemi : ∀ t ∈ leaves [wordKind a.2,
      .literal .string (String.ofList ('"' :: body))], t.isOperator .semi = false := by
    have hword : (Tree.leaf ⟨wordKind a.2, default⟩).isOperator .semi = false := by
      unfold wordKind
      split <;> rfl
    simpa [leaves, Tree.isOperator] using hword
  obtain ⟨d, ds, hds, hhead, trees', htail⟩ := splitDecls_first hnosemi hsplit
  -- so that declaration is an import
  have hview := ofDecls_sketch (clause :: decls)
  rw [hp.ofDecls, view_ok, List.map_cons, hds] at hview
  obtain ⟨parts, hparts, houtline⟩ := view_eq_some hview
  obtain ⟨_, _, specs', its', hcons, hp'⟩ := ofDecls_eq_ok hparts
  obtain ⟨rfl, rfl⟩ := List.cons.inj hcons
  have himport : d.isImport = true := by
    rw [Decl.isImport, hhead]
    rfl
  have hspecs := hp'.specs_eq
  rw [List.takeWhile_cons_of_pos himport] at hspecs
  obtain ⟨spec, rest'', hspec, -, rfl⟩ := mapM_cons_eq_ok hspecs
  rw [← htail] at hspec
  obtain ⟨hword, hspec⟩ := importSpecs_word hspec
  refine ⟨rest''.flatten.map ImportSpec.outline, hbody, hword, ?_⟩
  rw [← houtline]
  change parts.imports.map ImportSpec.outline = _
  rw [hp'.imports_eq, List.flatten_cons, List.map_append, hspec]
  rfl

/-! ### Accepted settings -/

theorem validate_eq_ok {s : Settings} (h : s.validate = .ok ()) :
    s.sdk.importPath ≠ "" ∧ isIdentifier s.sdk.importName = true ∧ s.sdk.importName ≠ "_" := by
  unfold Settings.validate at h
  split at h
  · simp at h
  · rename_i hpath
    split at h
    · rename_i hname
      simp only [isImportName, Bool.and_eq_true, bne_iff_ne] at hname
      refine ⟨?_, hname⟩
      intro hempty
      rw [hempty] at hpath
      exact hpath (by decide)
    · simp at h

theorem ne_blank_of_choice {preferred name : String} (h : preferred ≠ "_")
    (hc : IsChoice preferred name) : name ≠ "_" := by
  rintro rfl
  rcases eq_or_digit_of_choice hc with heq | ⟨c, hm, hd⟩
  · exact h heq.symm
  · obtain rfl : c = '_' := by simpa using hm
    exact absurd hd (by decide)

/-- A word is read as one token. -/
theorem lex_word {word : String} (h : isIdentifier word = true) :
    ∃ tokens, lex word = .ok tokens ∧
      tokens.map Token.kind = wordKind word :: kindsFrom (wordKind word).endsStatement [] := by
  have hrow : Row [.token (wordKind word)] [] := ⟨.word h (by simp), trivial⟩
  have htext : Piece.joined [.token (wordKind word)] = word.toList := by
    simp [Piece.text, wordKind_text]
  have hscan := scan_joined hrow
  rw [htext] at hscan
  exact lex_of_scan hscan

/-- **Accepted settings** give a file the import that they name exactly if the name that is taken is no
keyword and the path stands for itself between double quotes. A name that is no keyword, which is one
that is read as one identifier, gives none. -/
theorem imported_iff {s : Settings} (hs : s.validate = .ok ()) {path : Path} {source : String}
    {file : SourceFile} (hf : SourceFile.parse path source = .ok file)
    (hm : file.localName? s.sdk.importPath = none) :
    let added := (Patch.new file).ensureImport s.sdk.importPath s.sdk.importName
    ((∃ text file', added.2.emit = .ok text ∧ SourceFile.parse path text = .ok file' ∧
        file'.outline.imports.Perm
          ((some added.1, s.sdk.importPath) :: file.outline.imports)) ↔
      Keyword.ofWord? added.1 = none ∧ Spelled s.sdk.importPath) ∧
    (Keyword.ofWord? s.sdk.importName = none → Keyword.ofWord? added.1 = none) ∧
    ((∃ tokens, lex s.sdk.importName = .ok tokens ∧
        tokens.map Token.kind = [.ident s.sdk.importName, .operator .semi, .eof]) ↔
      Keyword.ofWord? s.sdk.importName = none) := by
  obtain ⟨hne, hname, hblank⟩ := validate_eq_ok hs
  obtain ⟨name, hadded, hchoice, hfree⟩ := ensureImport_new hm s.sdk.importName
  have hident := isIdentifier_choice hname hchoice
  rw [hadded]
  obtain ⟨hpath, -⟩ := parse_eq_ok hf
  obtain ⟨head, segs, hl⟩ := exists_layout s.sdk.instrumentation hf
  refine ⟨⟨?_, ?_⟩, ?_, ?_⟩
  · rintro ⟨text, file', hemit, hparse, hperm⟩
    obtain ⟨rfl, -⟩ := (emit_adding hl _ text).1 hemit
    obtain ⟨body, rest, rest', imports, hbody, hword, himports⟩ := exists_first hl hident hparse
    refine ⟨hword, ?_⟩
    -- the file has no import under that name
    rw [himports] at hperm
    rcases List.mem_cons.1 (hperm.subset List.mem_cons_self) with heq | hold
    · exact spelled_of_unquote hbody (Prod.mk.inj heq).2
    obtain ⟨spec, hspec, hout⟩ := List.mem_map.1 hold
    have hsome : spec.name = some name := (Prod.mk.inj hout).1
    have hdot : name ≠ "." := by
      rintro rfl
      exact absurd hident (by decide)
    have hlocal : spec.localName? = some name := by
      simp [ImportSpec.localName?, hsome, hdot, ne_blank_of_choice hblank hchoice]
    exact absurd (List.mem_filterMap.2 ⟨spec, hspec, hlocal⟩) hfree
  · rintro ⟨hword, hspelled⟩
    obtain ⟨file', hparse, himports⟩ := parse_withImport (a := (s.sdk.importPath, name)) hf hl
      ⟨⟨hident, hword⟩, hspelled, hne⟩
    refine ⟨_, file', (emit_adding hl _ _).2 ⟨rfl, file', ?_⟩, hparse, ?_⟩
    · rw [hpath]
      exact hparse
    · rw [himports]
  · intro hword
    exact (IsName.choice ⟨hname, hword⟩ hchoice).2
  · obtain ⟨tokens, hlex, hkinds⟩ := lex_word hname
    constructor
    · rintro ⟨tokens', hlex', hkinds'⟩
      rw [hlex] at hlex'
      obtain rfl : tokens = tokens' := by simpa using hlex'
      rw [hkinds] at hkinds'
      exact (wordKind_eq_ident_iff.1 (List.cons.inj hkinds').1).2
    · intro hword
      refine ⟨tokens, hlex, ?_⟩
      rw [hkinds, wordKind_eq_ident_iff.2 ⟨rfl, hword⟩]
      rfl

/-- Settings with a keyword for the name of the import. -/
def keywordSettings : Settings :=
  { Settings.default with sdk := { SdkSettings.default with importName := "func" } }

theorem not_imported_of_keyword :
    ∃ file, keywordSettings.validate = .ok () ∧
      SourceFile.parse ⟨"a_test.go"⟩ "package p\n" = .ok file ∧
      file.localName? keywordSettings.sdk.importPath = none ∧
      let added := (Patch.new file).ensureImport keywordSettings.sdk.importPath
        keywordSettings.sdk.importName
      (¬∃ text file', added.2.emit = .ok text ∧
        SourceFile.parse ⟨"a_test.go"⟩ text = .ok file' ∧
        file'.outline.imports.Perm
          ((some added.1, keywordSettings.sdk.importPath) :: file.outline.imports)) ∧
      ¬∃ tokens, lex keywordSettings.sdk.importName = .ok tokens ∧
        tokens.map Token.kind = [.ident keywordSettings.sdk.importName, .operator .semi, .eof] := by
  have hvalid : keywordSettings.validate = .ok () := by decide +kernel
  obtain ⟨file, hf, -, hmissing, hname⟩ : ∃ file,
      SourceFile.parse ⟨"a_test.go"⟩ "package p\n" = .ok file ∧ file.path = ⟨"a_test.go"⟩ ∧
      file.localName? keywordSettings.sdk.importPath = none ∧
      ((Patch.new file).ensureImport keywordSettings.sdk.importPath
        keywordSettings.sdk.importName).1 = "func" := exists_parsed (by decide +kernel)
  obtain ⟨himport, -, hlex⟩ := imported_iff hvalid hf hmissing
  refine ⟨file, hvalid, hf, hmissing, fun h => ?_, fun h => ?_⟩
  · have hword := (himport.1 h).1
    rw [hname] at hword
    exact absurd hword (by decide)
  · exact absurd (hlex.1 h) (by decide)

end TestWeave.Change
