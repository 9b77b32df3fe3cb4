import TestWeave.Proofs.Ownership

/-!
# The text of a changed file

A changed file begins with a comment that names the file it was made from, and a byte order mark is
left out. Neither counts for what the file declares.

* `parse_of_kinds`: the outline of a source depends on the kinds of its tokens alone.
* `parse_tempText`: a changed file has the outline of the changed source.
* `importedName?_prepared`: a patch that changes something leaves the instrumentation imported.
* `importsPath_of_emit`: so the changed source imports it.
-/

namespace TestWeave.Source

open TestWeave.Text TestWeave.Change

/-- **Sources with tokens of the same kinds** have one outline. -/
theorem parse_of_kinds {path path' : Path} {source source' : String} {file : SourceFile}
    {tokens tokens' : List Token} (hf : SourceFile.parse path source = .ok file)
    (hl : lex source = .ok tokens) (hl' : lex source' = .ok tokens')
    (hk : tokens'.map Token.kind = tokens.map Token.kind) :
    ∃ file', SourceFile.parse path' source' = .ok file' ∧ file'.outline = file.outline := by
  obtain ⟨tokens₁, hlex, hparts⟩ := bind_eq_ok (parse_iff_ofText.1 hf).1
  obtain rfl : tokens = tokens₁ := Except.ok.inj (hl.symm.trans hlex)
  obtain ⟨parts', hparts', houtline⟩ := ofTokens_of_kinds hparts hk
  refine ⟨{ parts' with path := path', source := source' }, ?_, houtline⟩
  refine parse_iff_ofText.2 ⟨?_, rfl, rfl⟩
  simp only [FileParts.ofText, hl', hparts', bind, Except.bind]

/-- A comment on a line of its own, in front of a source. -/
theorem scan_commented {body : List Char} (hb : '\n' ∉ body) (cs : List Char) :
    scan ('/' :: '/' :: body ++ '\n' :: cs) =
      (.lineComment body :: .lineBreak :: (scan cs).1, (scan cs).2) := by
  have hcomment : Reads (.lineComment body) ('\n' :: cs) :=
    .lineComment hb (by simp)
  have hbreak : Reads .lineBreak cs := .lineBreak
  have hrest := scan_cons_of_reads hbreak
  have hall := scan_cons_of_reads hcomment
  rw [show '\n' :: cs = Piece.lineBreak.text ++ cs from rfl, hrest] at hall
  exact hall

/-- A byte order mark at the head of a source is a blank. -/
theorem scan_marked (cs : List Char) :
    scan ('\uFEFF' :: cs) = (.blank '\uFEFF' :: (scan cs).1, (scan cs).2) := by
  have hblank : Reads (.blank '\uFEFF') cs := .blank (by decide)
  exact scan_cons_of_reads hblank

end TestWeave.Source

namespace TestWeave.Build

open TestWeave.Source TestWeave.Text TestWeave.Host TestWeave.Change

/-- A source without its byte order mark. -/
theorem scan_unmarked (source : String) :
    (scan source.toList).2 = (scan ((dropLead byteOrderMark source).getD source).toList).2 ∧
      kindsFrom false (scan source.toList).1 =
        kindsFrom false (scan ((dropLead byteOrderMark source).getD source).toList).1 := by
  cases hd : dropLead byteOrderMark source with
  | none => exact ⟨rfl, rfl⟩
  | some rest =>
    obtain ⟨cs, hcs, rfl⟩ := Option.map_eq_some_iff.1 hd
    have hsource : source.toList = '\uFEFF' :: cs := afterLead_eq_some_iff.1 hcs
    rw [hsource, scan_marked, Option.getD_some, String.toList_ofList]
    exact ⟨rfl, rfl⟩

/-- **What a changed file declares** is what the changed source declares. -/
theorem parse_tempText {d : Disk} {path path' path₁ : Path} {source : String} {file : SourceFile}
    (hb : '\n' ∉ (sourcePath d path).text.toList)
    (hf : SourceFile.parse path' source = .ok file) :
    ∃ file', SourceFile.parse path₁ (tempText d path source) = .ok file' ∧
      file'.outline = file.outline := by
  obtain ⟨-, -, tokens, _, _, _, _, _, hlex, -⟩ := parse_eq_ok hf
  obtain ⟨hscan, htokens⟩ := lex_eq_ok_iff.1 hlex
  obtain ⟨hfault, hkinds⟩ := scan_unmarked source
  have hbody : '\n' ∉ "line ".toList ++ (sourcePath d path).text.toList ++ ":1".toList := by
    simpa using hb
  have htext : (tempText d path source).toList = '/' :: '/' ::
      ("line ".toList ++ (sourcePath d path).text.toList ++ ":1".toList) ++ '\n' ::
        ((dropLead byteOrderMark source).getD source).toList := by
    simp [tempText, ToString.toString]
  have hnew := scan_commented hbody ((dropLead byteOrderMark source).getD source).toList
  rw [← htext, ← hfault, hscan] at hnew
  obtain ⟨tokens', hlex', hkinds'⟩ := lex_of_scan hnew
  refine parse_of_kinds hf hlex hlex' ?_
  rw [hkinds', htokens, kinds_tokensFrom, hkinds]
  rfl

/-! ### The import of the instrumentation -/

section

variable {file : SourceFile} {sdk : Instrumentation} {p : Patch}

/-- Redirected calls leave the imports as they are. -/
theorem importedName?_redirect (calls : List (CallSite × String)) (p : Patch) (q path : String) :
    (calls.foldl (fun p (call, entry) => p.redirectCall call q entry) p).importedName? path =
      p.importedName? path := by
  rw [foldl_redirectCall]
  rfl

/-- **A patch that changes something** leaves the instrumentation imported. -/
theorem importedName?_prepared (entry : Option String)
    (h : entry = none → (prepared file sdk none).isEmpty = false) :
    ((prepared file sdk entry).importedName? sdk.importPath).isSome = true := by
  cases entry with
  | none =>
    have hne := h rfl
    unfold prepared Patch.instrument at hne ⊢
    cases ht : Patch.targets (Patch.new file).file sdk with
    | nil =>
      rw [ht] at hne
      simp [Patch.isEmpty, Patch.new] at hne
    | cons call calls =>
      simp only
      rw [importedName?_redirect, importedName?_ensureImport]
      rfl
  | some var =>
    rw [prepared_some, appendSuiteEntry_eq]
    simp only
    rw [importedName?_append, importedName?_ensureImport]
    rfl

theorem importsPath_eq_any (parts : SourceFile) (path : String) :
    parts.importsPath path = parts.outline.imports.any (·.2 == path) := by
  rw [SourceFile.importsPath, FileParts.outline, List.any_map]
  rfl

/-- **The changed source** imports the instrumentation. -/
theorem importsPath_of_emit {path : Path} {source text : String}
    (hf : SourceFile.parse path source = .ok file) (hn : Named sdk) (hp : PlainPath sdk.importPath)
    {entry : Option String} (he : Suited file entry)
    (hchanged : entry = none → (prepared file sdk none).isEmpty = false)
    (hemit : (prepared file sdk entry).emit = .ok text) :
    ∃ file', SourceFile.parse path text = .ok file' ∧ file'.importsPath sdk.importPath = true := by
  obtain ⟨head, segs, hl⟩ := exists_layout sdk hf
  obtain ⟨hlegible, hentry⟩ := legible_of_emit hf hn hp he hl hemit
  obtain ⟨text', file', -, -, hemit', -, hparse, himports, -⟩ :=
    emit_spec hf hn hp he hl hlegible hentry
  obtain rfl : text = text' := Except.ok.inj (hemit.symm.trans hemit')
  refine ⟨file', hparse, ?_⟩
  rw [importsPath_eq_any, himports, Outline.extended, List.any_append]
  obtain ⟨name, hname⟩ := Option.isSome_iff_exists.1 (importedName?_prepared entry hchanged)
  rw [Patch.importedName?, file_prepared] at hname
  -- the name that calls go through is of an import that was there, or of one that was added
  rcases Option.or_eq_some_iff.1 hname with hlocal | ⟨-, hadded⟩
  · obtain ⟨spec, hs, -⟩ := List.exists_of_findSome?_eq_some hlocal
    obtain ⟨hmem, hpath⟩ := List.mem_filter.1 hs
    have hany : file.outline.imports.any (·.2 == sdk.importPath) = true := by
      rw [← importsPath_eq_any, SourceFile.importsPath, List.any_eq_true]
      exact ⟨spec, hmem, hpath⟩
    rw [hany, Bool.or_true]
  · obtain ⟨added, hfind, -⟩ := Option.map_eq_some_iff.1 hadded
    have hany : ((prepared file sdk entry).addedImports.map fun a => (some a.2, a.1)).any
        (·.2 == sdk.importPath) = true := by
      rw [List.any_map, List.any_eq_true]
      exact ⟨added, List.mem_of_find?_eq_some hfind, by simpa using List.find?_some hfind⟩
    rw [hany, Bool.true_or]

end

end TestWeave.Build
