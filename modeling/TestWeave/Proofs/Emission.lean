import TestWeave.Proofs.Remodel

/-!
# Which prepared patches can be made

The edits of a prepared patch never overlap, so that the changed source is there. It parses exactly
if every new callee can be scanned where it stands; then its outline is that of the source, with
what the patch adds.

* `emit_of_legible`, `legible_of_emit`: a patch whose windows are legible, and one that is made.
* `emits_iff`, `outline_of_emit`: when a patch is made, and what it makes.
* `remodeled_iff`: the same said of the source alone.
-/

namespace TestWeave.Change

open TestWeave.Source TestWeave.Text

variable {path : Path} {source : String} {file : SourceFile} {sdk : Instrumentation} {q : String}
  {p : Patch} {adds : List (String × String)} {head : Head} {segs : List Segment}

/-! ### Names of packages -/

/-- What holds of the names that an import may have holds of the name that is found for it. -/
theorem forall_ensureImport (hs : Shape file sdk q adds p) {P : String → Prop}
    {importPath preferred : String} (hfile : ∀ n, file.localName? importPath = some n → P n)
    (hadds : ∀ a ∈ adds, P a.2) (hchoice : ∀ n, IsChoice preferred n → P n) :
    P (p.ensureImport importPath preferred).1 := by
  rcases ensureImport_spec p importPath preferred with ⟨name, hname, he⟩ | ⟨-, he⟩
  · rw [he]
    rw [Patch.importedName?, hs.file_eq, hs.added_eq] at hname
    rcases Option.or_eq_some_iff.1 hname with hname | ⟨-, hname⟩
    · exact hfile name hname
    · obtain ⟨a, ha, rfl⟩ := Option.map_eq_some_iff.1 hname
      exact hadds a (List.mem_of_find?_eq_some ha)
  · rw [he]
    exact hchoice _ (isChoice_freeName ..)

/-- A path whose last part is a name is referred to by a name. -/
theorem name_of_localName? (hf : SourceFile.parse path source = .ok file) {importPath name : String}
    (hp : IsName (String.ofList (importPath.toList.reverse.takeWhile (· != '/')).reverse))
    (h : file.localName? importPath = some name) : IsName name := by
  rcases localName?_cases hf h with hname | rfl
  · exact hname
  · exact hp

theorem isPathChar_of_isIdentPart {c : Char} (h : isIdentPart c = true) : isPathChar c = true := by
  simp [isPathChar, h]

/-- The qualifier is spelled with the characters of paths. -/
theorem pathChar_of_qualifier (hf : SourceFile.parse path source = .ok file) (hn : Named sdk)
    (hp : PlainPath sdk.importPath) : ∀ c ∈ (qualifier file sdk).toList, isPathChar c = true := by
  refine forall_mem_qualifier hf (fun c => isPathChar_of_isIdentPart) hn.localName fun c hc hne => ?_
  exact (hp.2 c hc).resolve_right hne

/-! ### Suite entries -/

/-- The name that a suite entry runs the suite through. -/
def entryQualifier (file : SourceFile) (sdk : Instrumentation) : String :=
  let testing := (prepared file sdk none).ensureImport Known.testingPackage Known.testingPackage
  let os := testing.2.ensureImport Known.osPackage Known.osPackage
  (os.2.ensureImport sdk.importPath sdk.localName).1

theorem name_testing : IsName Known.testingPackage := by decide

theorem name_os : IsName Known.osPackage := by decide

/-- Added imports have names, whatever is added under a name. -/
theorem Shape.names (h : Shape file sdk q adds p) (hadds : ∀ a ∈ adds, IsName a.2)
    (importPath : String) {preferred : String} (hname : IsName preferred) :
    ∃ adds', Shape file sdk q adds' (p.ensureImport importPath preferred).2 ∧
      ∀ a ∈ adds', IsName a.2 := by
  obtain ⟨more, hs, hmore⟩ := h.ensureImport importPath preferred
  refine ⟨adds ++ more, hs, fun a ha => ?_⟩
  rcases List.mem_append.1 ha with ha | ha
  · exact hadds a ha
  · exact hname.choice (hmore a ha).name

theorem shape_names (file : SourceFile) (hn : Named sdk) :
    ∃ adds, Shape file sdk (qualifier file sdk) adds (prepared file sdk none) ∧
      ∀ a ∈ adds, IsName a.2 := by
  obtain ⟨adds, hs, -, hadds⟩ := shape_instrument file sdk
  exact ⟨adds, hs, fun a ha => hn.localName.choice (hadds a ha).name⟩

/-- **The name that the suite is run through** is spelled with the characters of paths. -/
theorem pathChar_of_entryQualifier (hf : SourceFile.parse path source = .ok file) (hn : Named sdk)
    (hp : PlainPath sdk.importPath) :
    ∀ c ∈ (entryQualifier file sdk).toList, isPathChar c = true := by
  have hname : ∀ n : String, IsName n → ∀ c ∈ n.toList, isPathChar c = true :=
    fun n hname c hc => isPathChar_of_isIdentPart (hname.forall_mem c hc)
  have hsdk : ∀ n, file.localName? sdk.importPath = some n → ∀ c ∈ n.toList, isPathChar c = true := by
    intro n hlocal
    rcases localName?_cases hf hlocal with h | rfl
    · exact hname n h
    · intro c hc
      rw [String.toList_ofList, List.mem_reverse] at hc
      have hmem := List.mem_reverse.1 ((List.takeWhile_sublist _).subset hc)
      exact (hp.2 c hmem).resolve_right (by simpa using List.mem_takeWhile_imp hc)
  obtain ⟨adds, hs, hadds⟩ := shape_names file hn
  obtain ⟨adds₁, hs₁, hadds₁⟩ := hs.names hadds Known.testingPackage name_testing
  obtain ⟨adds₂, hs₂, hadds₂⟩ := hs₁.names hadds₁ Known.osPackage name_os
  exact forall_ensureImport hs₂ hsdk (fun a ha => hname _ (hadds₂ a ha))
    fun n h => hname n (hn.localName.choice h)

/-- **The text of a suite entry**, in a file that imports the testing package under a name. -/
theorem exists_entry (hf : SourceFile.parse path source = .ok file) (hn : Named sdk)
    {testing : String} (ht : file.localName? Known.testingPackage = some testing) (var : String) :
    ∃ os, (prepared file sdk (some var)).appended =
        Patch.suiteEntryText testing os (entryQualifier file sdk) sdk.suiteEntry var ∧
      IsName testing ∧ IsName os := by
  obtain ⟨adds, hs, hadds⟩ := shape_names file hn
  obtain ⟨adds₁, hs₁, hadds₁⟩ := hs.names hadds Known.testingPackage name_testing
  have hone : ((prepared file sdk none).ensureImport Known.testingPackage
      Known.testingPackage).1 = testing := by
    have hname : (prepared file sdk none).importedName? Known.testingPackage = some testing := by
      rw [Patch.importedName?, hs.file_eq, ht]
      rfl
    rw [Patch.ensureImport, hname]
  have hos : IsName (((prepared file sdk none).ensureImport Known.testingPackage
      Known.testingPackage).2.ensureImport Known.osPackage Known.osPackage).1 :=
    forall_ensureImport hs₁ (fun n h => name_of_localName? hf (by decide) h) hadds₁
      fun n h => name_os.choice h
  refine ⟨_, ?_, name_of_localName? hf (by decide) ht, hos⟩
  rw [prepared_some, appendSuiteEntry_eq, entryQualifier, ← hone]

/-- Whether a suite entry can be added to a file: with a name for the driver, where the testing
package has one. -/
def Suited (file : SourceFile) (entry : Option String) : Prop :=
  ∀ var ∈ entry, IsName var ∧ (file.localName? Known.testingPackage).isSome = true

/-- **The imports of a prepared patch** can be spelled. The testing package is none of them, unless it
is the package that calls go through. -/
theorem shape_addable (hn : Named sdk) (hp : PlainPath sdk.importPath) {entry : Option String}
    (he : Suited file entry) :
    ∃ adds, Shape file sdk (qualifier file sdk) adds (prepared file sdk entry) ∧
      (∀ a ∈ adds, Addable a) ∧
      (sdk.importPath ≠ Known.testingPackage → ∀ a ∈ adds, a.1 ≠ Known.testingPackage) := by
  cases entry with
  | none =>
    obtain ⟨adds, hs, -, hadds⟩ := shape_instrument file sdk
    refine ⟨adds, hs, fun a ha => addable_of_needed hn hp (by simp [needed]) (hadds a ha), ?_⟩
    intro ht a ha
    rw [(hadds a ha).path]
    exact ht
  | some var =>
    obtain ⟨adds, hs, hadds⟩ := shape_prepared file sdk (some var)
    refine ⟨adds, hs, fun a ha => ?_, fun _ a ha hpath => ?_⟩
    · obtain ⟨n, hneeded, hadded⟩ := hadds a ha
      exact addable_of_needed hn hp hneeded hadded
    · obtain ⟨n, -, hadded⟩ := hadds a ha
      have hsome := (he var rfl).2
      rw [← hpath, hadded.path, hadded.missing] at hsome
      exact absurd hsome Bool.false_ne_true

/-! ### The changed source -/

/-- Whether the callee of a suite entry can be scanned. -/
def EntryLegible (file : SourceFile) (sdk : Instrumentation) (entry : Option String) : Prop :=
  entry.isSome = true → (scan (calleeText (entryQualifier file sdk) sdk.suiteEntry)).2 = none

/-- What is appended to a source, and how it is scanned. -/
theorem appended_spec (hf : SourceFile.parse path source = .ok file) (hn : Named sdk)
    (hp : PlainPath sdk.importPath) {entry : Option String} (he : Suited file entry) :
    ∃ testing os, (entry.isSome = true → file.localName? Known.testingPackage = some testing) ∧
      (∀ c ∈ (prepared file sdk entry).appended.toList.head?, c = '\n') ∧
      (EntryLegible file sdk entry →
        scan (prepared file sdk entry).appended.toList =
          (tailPieces entry testing os (entryQualifier file sdk) sdk.suiteEntry, none)) ∧
      ((scan (prepared file sdk entry).appended.toList).2 = none → EntryLegible file sdk entry) := by
  cases entry with
  | none =>
    obtain ⟨adds, -, happended, -⟩ := shape_instrument file sdk
    refine ⟨"", "", by simp, ?_, fun _ => ?_, fun _ h => by simp at h⟩
    · simp [happended]
    · rw [happended, tailPieces, String.toList_empty, scan]
  | some var =>
    obtain ⟨hvar, hsome⟩ := he var rfl
    obtain ⟨testing, ht⟩ := Option.isSome_iff_exists.1 hsome
    obtain ⟨os, happended, htesting, hos⟩ := exists_entry hf hn ht var
    have hq := pathChar_of_entryQualifier hf hn hp
    refine ⟨testing, os, fun _ => ht, ?_, fun h => ?_, fun h _ => ?_⟩
    · rw [happended, suiteEntryText_toList]
      rintro _ ⟨⟩
      rfl
    · rw [happended]
      exact scan_suiteEntry htesting hos hvar hq hn.suiteEntry (h rfl)
    · rw [happended] at h
      exact callee_of_scan htesting hos hvar hq hn.suiteEntry h

theorem name_of_entry (hn : Named sdk) (hl : Layout file sdk head segs) :
    ∀ s ∈ sitesOf segs, IsName s.2 := fun _ hs => hn.entry (hl.sites.subset hs)

/-- **Legible windows.** A patch whose windows are legible is made, and the changed source has the
outline of the source, with what the patch adds. -/
theorem emit_spec (hf : SourceFile.parse path source = .ok file) (hn : Named sdk)
    (hp : PlainPath sdk.importPath) {entry : Option String} (he : Suited file entry)
    (hl : Layout file sdk head segs)
    (hg : Legible (qualifier file sdk) segs) (hentry : EntryLegible file sdk entry) :
    ∃ text file' testing os, (prepared file sdk entry).emit = .ok text ∧
      scan text.toList = (head.pieces file.package ++
        importsPieces head.semi.isSome (prepared file sdk entry).addedImports ++
        freshOf (qualifier file sdk) segs ++
        tailPieces entry testing os (entryQualifier file sdk) sdk.suiteEntry, none) ∧
      SourceFile.parse path text = .ok file' ∧
      file'.outline.imports =
        (file.outline.extended (prepared file sdk entry).addedImports entry).imports ∧
      ((∀ a ∈ (prepared file sdk entry).addedImports, a.1 ≠ Known.testingPackage) →
        file'.outline = file.outline.extended (prepared file sdk entry).addedImports entry) := by
  obtain ⟨adds, hs, hadds, -⟩ := shape_addable hn hp he
  obtain ⟨testing, os, htesting, hbreak, hscan, -⟩ := appended_spec hf hn hp he
  have hq := pathChar_of_qualifier hf hn hp
  have hnames := name_of_entry hn hl
  have hrow := row_changed hl hadds hq hnames hg hbreak
  have hout := applyEdits_layout hl hs
  have htext : scan (String.ofList (Piece.joined (head.pieces file.package) ++
      importsText file.anchor adds ++ freshText (qualifier file sdk) segs) ++
        (prepared file sdk entry).appended).toList =
      (head.pieces file.package ++ importsPieces head.semi.isSome adds ++
        freshOf (qualifier file sdk) segs ++
        tailPieces entry testing os (entryQualifier file sdk) sdk.suiteEntry, none) := by
    rw [String.toList_append, String.toList_ofList, ← joined_changed hl hg, scan_row hrow,
      hscan hentry]
  have hcallee := isSoft_of_mem_calleeText (pathChar_of_entryQualifier hf hn hp)
    hn.suiteEntry.forall_mem
  obtain ⟨file', hparse, himports, houtline⟩ := parse_changed hf hl hq hnames hg hadds htesting hcallee htext
  obtain ⟨hpath, -⟩ := parse_eq_ok hf
  rw [hs.added_eq]
  refine ⟨_, file', testing, os, emit_eq_ok_iff.2 ⟨_, ?_, rfl, file', ?_⟩, htext, hparse, himports,
    houtline⟩
  · rw [hs.file_eq, hout]
  · rw [hs.file_eq, hpath, hparse]

theorem emit_of_legible (hf : SourceFile.parse path source = .ok file) (hn : Named sdk)
    (hp : PlainPath sdk.importPath) {entry : Option String} (he : Suited file entry)
    (hl : Layout file sdk head segs)
    (hg : Legible (qualifier file sdk) segs) (hentry : EntryLegible file sdk entry) :
    ∃ text file' testing os, (prepared file sdk entry).emit = .ok text ∧
      scan text.toList = (head.pieces file.package ++
        importsPieces head.semi.isSome (prepared file sdk entry).addedImports ++
        freshOf (qualifier file sdk) segs ++
        tailPieces entry testing os (entryQualifier file sdk) sdk.suiteEntry, none) ∧
      SourceFile.parse path text = .ok file' ∧
      (sdk.importPath ≠ Known.testingPackage →
        file'.outline = file.outline.extended (prepared file sdk entry).addedImports entry) := by
  obtain ⟨text, file', testing, os, hemit, hscan, hparse, -, houtline⟩ :=
    emit_spec hf hn hp he hl hg hentry
  obtain ⟨adds, hs, -, hne⟩ := shape_addable hn hp he
  rw [← hs.added_eq] at hne
  exact ⟨text, file', testing, os, hemit, hscan, hparse, fun ht => houtline (hne ht)⟩

/-- **A patch that is made** has legible windows. -/
theorem legible_of_emit (hf : SourceFile.parse path source = .ok file) (hn : Named sdk)
    (hp : PlainPath sdk.importPath) {entry : Option String} (he : Suited file entry)
    (hl : Layout file sdk head segs) {text : String} (hemit : (prepared file sdk entry).emit = .ok text) :
    Legible (qualifier file sdk) segs ∧ EntryLegible file sdk entry := by
  obtain ⟨adds, hs, hadds, -⟩ := shape_addable hn hp he
  obtain ⟨testing, os, -, hbreak, -, hentry⟩ := appended_spec hf hn hp he
  have hout := applyEdits_layout hl hs
  obtain ⟨out, hout', rfl, file', hparse⟩ := emit_eq_ok_iff.1 hemit
  rw [hs.file_eq, hout] at hout'
  obtain rfl := Except.ok.inj hout'
  -- what parses has been scanned
  obtain ⟨-, -, tokens, _, _, _, _, _, hlex, -⟩ := parse_eq_ok hparse
  obtain ⟨hscan, -⟩ := lex_eq_ok_iff.1 hlex
  rw [String.toList_append, String.toList_ofList] at hscan
  obtain ⟨hlegible, happended⟩ := legible_of_changed hl hadds
    (pathChar_of_qualifier hf hn hp) (name_of_entry hn hl) hbreak hscan
  exact ⟨hlegible, hentry happended⟩

/-- **Edits never overlap.** -/
theorem emit_ne_overlap (hf : SourceFile.parse path source = .ok file) (entry : Option String)
    (path' : Path) (offset : Nat) :
    (prepared file sdk entry).emit ≠ .error (.overlap path' offset) := by
  obtain ⟨head, segs, hl⟩ := exists_layout sdk hf
  obtain ⟨adds, hs, -⟩ := shape_prepared file sdk entry
  have hout := applyEdits_layout hl hs
  intro hemit
  unfold Patch.emit at hemit
  rw [hs.file_eq, hout] at hemit
  simp only at hemit
  split at hemit <;> simp at hemit

/-- Legible windows are readable calls. -/
theorem readable_iff_legible (hf : SourceFile.parse path source = .ok file) (hn : Named sdk)
    (hp : PlainPath sdk.importPath) (hl : Layout file sdk head segs) :
    (∀ c ∈ Patch.targets file sdk, Readable source (qualifier file sdk) c) ↔
      Legible (qualifier file sdk) segs := by
  have hq := pathChar_of_qualifier hf hn hp
  obtain ⟨-, hsource, -⟩ := parse_eq_ok hf
  constructor
  · intro h w hw
    obtain ⟨front, behind, rfl⟩ := List.append_of_mem hw
    have hmem : (w.call, w.entry) ∈ sitesOf (front ++ .window w :: behind) :=
      mem_sitesOf.2 ⟨w, hw, rfl⟩
    have hc := h _ (hl.sites.subset hmem)
    rw [← hsource] at hc
    exact (hl.readable_iff hq (name_of_entry hn hl _ hmem)).1 hc
  · intro h c hc
    have hmem := hl.sites.symm.subset hc
    obtain ⟨w, hw, rfl⟩ := mem_sitesOf.1 hmem
    obtain ⟨front, behind, rfl⟩ := List.append_of_mem hw
    rw [← hsource]
    exact (hl.readable_iff hq (name_of_entry hn hl _ hmem)).2 (h w hw)

theorem entryLegible_iff (hf : SourceFile.parse path source = .ok file) (hn : Named sdk)
    (hp : PlainPath sdk.importPath) (entry : Option String) :
    EntryLegible file sdk entry ↔ (entry.isSome = true →
      (scan (openText (entryQualifier file sdk) sdk.suiteEntry)).2 = none) := by
  have hsoft := isSoft_of_mem_calleeText (pathChar_of_entryQualifier hf hn hp)
    hn.suiteEntry.forall_mem
  rw [EntryLegible, openText]
  refine imp_congr_right fun _ => ⟨fun h => ?_, scan_append_fault hsoft⟩
  rw [scan_open_of_none hsoft h]

/-- **When a prepared patch is made**: if every new callee can be scanned behind what stands in front
of its call, and that of the suite entry by itself. -/
theorem emits_iff (hf : SourceFile.parse path source = .ok file) (hn : Named sdk)
    (hp : PlainPath sdk.importPath) {entry : Option String} (he : Suited file entry) :
    (∃ text, (prepared file sdk entry).emit = .ok text) ↔
      (∀ c ∈ Patch.targets file sdk, Readable source (qualifier file sdk) c) ∧
        (entry.isSome = true →
          (scan (openText (entryQualifier file sdk) sdk.suiteEntry)).2 = none) := by
  obtain ⟨head, segs, hl⟩ := exists_layout sdk hf
  rw [readable_iff_legible hf hn hp hl, ← entryLegible_iff hf hn hp]
  constructor
  · rintro ⟨text, hemit⟩
    exact legible_of_emit hf hn hp he hl hemit
  · rintro ⟨hlegible, hentry⟩
    obtain ⟨text, -, -, -, hemit, -⟩ := emit_of_legible hf hn hp he hl hlegible hentry
    exact ⟨text, hemit⟩

/-- **The outline of a patch that is made.** -/
theorem outline_of_emit (hf : SourceFile.parse path source = .ok file) (hn : Named sdk)
    (hp : PlainPath sdk.importPath) (ht : sdk.importPath ≠ Known.testingPackage)
    {entry : Option String} (he : Suited file entry) {text : String}
    (hemit : (prepared file sdk entry).emit = .ok text) :
    ∃ file', SourceFile.parse path text = .ok file' ∧
      file'.outline = file.outline.extended (prepared file sdk entry).addedImports entry := by
  obtain ⟨head, segs, hl⟩ := exists_layout sdk hf
  obtain ⟨hlegible, hentry⟩ := legible_of_emit hf hn hp he hl hemit
  obtain ⟨text', file', -, -, hemit', -, hparse, houtline⟩ :=
    emit_of_legible hf hn hp he hl hlegible hentry
  obtain rfl : text' = text := Except.ok.inj (hemit'.symm.trans hemit)
  exact ⟨file', hparse, houtline ht⟩

/-- **The model of a changed source.** Edits never overlap. The changed source parses, and declares
what the source declares with what the patch adds, exactly if every new callee can be scanned behind
what stands in front of its call, and that of the suite entry by itself. -/
theorem remodeled_iff {path : Path} {source : String} {file : SourceFile} {sdk : Instrumentation}
    (hf : SourceFile.parse path source = .ok file) (hn : Named sdk)
    (hp : PlainPath sdk.importPath) (ht : sdk.importPath ≠ Known.testingPackage)
    {entry : Option String} (he : Suited file entry) :
    (∀ path' offset, (prepared file sdk entry).emit ≠ .error (.overlap path' offset)) ∧
    ((∃ text file', (prepared file sdk entry).emit = .ok text ∧
        SourceFile.parse path text = .ok file' ∧
        file'.outline = file.outline.extended (prepared file sdk entry).addedImports entry) ↔
      (∀ c ∈ Patch.targets file sdk, Readable source (qualifier file sdk) c) ∧
        (entry.isSome = true →
          (scan (openText (entryQualifier file sdk) sdk.suiteEntry)).2 = none)) := by
  obtain ⟨head, segs, hl⟩ := exists_layout sdk hf
  refine ⟨emit_ne_overlap hf entry, ?_⟩
  rw [readable_iff_legible hf hn hp hl, ← entryLegible_iff hf hn hp]
  constructor
  · rintro ⟨text, file', hemit, -⟩
    exact legible_of_emit hf hn hp he hl hemit
  · rintro ⟨hlegible, hentry⟩
    obtain ⟨text, file', testing, os, hemit, -, hparse, houtline⟩ :=
      emit_of_legible hf hn hp he hl hlegible hentry
    exact ⟨text, file', hemit, hparse, houtline ht⟩

/-- A call directly behind a number. -/
def fusedCall : String :=
  "package p\n\nimport \"testing\"\n\nfunc TestA(é *testing.T) \x7b\n\t1é.Run(\"a\", nil)\n\x7d\n"

/-- An instrumentation whose name may run into a number, and leaves a digit that begins nothing. -/
def fusing : Instrumentation := { Instrumentation.default with localName := "d٣" }

theorem not_remodeled_of_fusedCall :
    ∃ file, SourceFile.parse ⟨"a_test.go"⟩ fusedCall = .ok file ∧ Named fusing ∧
      PlainPath fusing.importPath ∧ fusing.importPath ≠ Known.testingPackage ∧ Suited file none ∧
      ¬∃ text file', (prepared file fusing none).emit = .ok text ∧
        SourceFile.parse ⟨"a_test.go"⟩ text = .ok file' ∧
        file'.outline = file.outline.extended (prepared file fusing none).addedImports none := by
  obtain ⟨file, hf, -, hunreadable⟩ := exists_parsed
    (by decide +kernel : (SourceFile.parse ⟨"a_test.go"⟩ fusedCall).toOption.any (fun file =>
      ¬∀ c ∈ Patch.targets file fusing, Readable fusedCall (qualifier file fusing) c) = true)
  have hn : Named fusing := ⟨by decide +kernel, by decide, by decide⟩
  have ht : fusing.importPath ≠ Known.testingPackage := by decide
  have he : Suited file none := nofun
  refine ⟨file, hf, hn, plainPath_default, ht, he, fun h => hunreadable ?_⟩
  exact ((remodeled_iff hf hn plainPath_default ht he).2.1 h).1

end TestWeave.Change
