import TestWeave.Proofs.Settled

/-!
# Instrumenting a file again

An instrumented file is left alone the second time if the import that was added has the preferred
name. A file that refers to the instrumentation by another name, or that has its import already, is
looked at again, and is changed again exactly if a call is left in it.

* `importsInstrumentation_extended`: what a changed file imports.
* `isEmpty_instrumentFile`: when a file is left alone.
* `settled_iff`: when an instrumented file is left alone.
-/

namespace TestWeave.Change

open TestWeave.Source TestWeave.Text

variable {path : Path} {source : String} {file file' : SourceFile} {sdk : Instrumentation}
  {q : String} {head : Head} {segs : List Segment}

/-! ### New callees -/

/-- Where the calls stand apart, the windows are clear. -/
theorem clear_of_apart (hf : SourceFile.parse path source = .ok file) (hn : Named sdk)
    (hp : PlainPath sdk.importPath) (hl : Layout file sdk head segs)
    (ha : ∀ c ∈ Patch.targets file sdk, Apart source (qualifier file sdk) c) :
    Clear (qualifier file sdk) segs := by
  intro w hw
  obtain ⟨-, hsource, -⟩ := parse_eq_ok hf
  have hmem := mem_sitesOf.2 ⟨w, hw, rfl⟩
  have hapart := ha _ (hl.sites.subset hmem)
  obtain ⟨front, behind, rfl⟩ := List.append_of_mem hw
  rw [← hsource] at hapart
  exact (hl.apart_iff (pathChar_of_qualifier hf hn hp) (name_of_entry hn hl _ hmem)).1 hapart

/-- The tokens of a soft text are soft. -/
theorem soft_of_mem_textKinds {s : List Char} (hs : ∀ c ∈ s, isSoft c = true) {kind : TokenKind}
    (hk : kind ∈ textKinds s) : ∀ c ∈ kind.text.toList, isSoft c = true := by
  intro c hc
  obtain ⟨rest, htext, -⟩ := scan_spec s
  have hpiece : .token kind ∈ (scan s).1 := by
    rw [scan_soft hs]
    exact List.mem_map_of_mem hk
  refine hs c ?_
  rw [← htext]
  exact List.mem_append_left _ (List.mem_flatMap.2 ⟨_, hpiece, hc⟩)

/-- No new callee defines a name. -/
theorem define_not_mem_calleeKinds (hq : ∀ c ∈ q.toList, isSoft c = true) (entry : String) :
    .operator .define ∉ calleeKinds q entry := by
  intro h
  rcases List.mem_append.1 h with h | h
  · have hsoft := soft_of_mem_textKinds hq h ':' (by decide)
    rw [not_isSoft_of_mem_marks (by decide) (by decide)] at hsoft
    exact Bool.false_ne_true hsoft
  · simp at h

/-- A qualifier that is spelled in a clear window has tokens. -/
theorem textKinds_ne_nil {w : Window} (hs : ∀ c ∈ q.toList, isSoft c = true) (hq : q ≠ "")
    (hw : scan (w.region q) = (w.lead.toList ++ calleePieces q w.entry, none)) :
    textKinds q.toList ≠ [] := by
  intro hnil
  have hnone : (scan (w.region q)).2 = none := by rw [hw]
  have htext := scan_text hnone
  have hscan : (scan q.toList).1 = [] := by
    rw [scan_soft hs, hnil]
    rfl
  rw [hw, calleePieces, hscan, Window.region, calleeText] at htext
  have hjoined : w.leadText ++ '.' :: w.entry.toList =
      w.leadText ++ (q.toList ++ '.' :: w.entry.toList) := by
    rw [← htext, Window.leadText]
    simp [Piece.text, TokenKind.text, Operator.spelling]
  have hlength := congrArg List.length hjoined
  rw [List.length_append, List.length_append, List.length_append] at hlength
  exact hq (String.toList_eq_nil_iff.1 (List.length_eq_zero_iff.1 (by omega)))

/-! ### Patches -/

theorem prepared_eq (ht : Patch.targets file sdk ≠ []) : prepared file sdk none =
    (Patch.targets file sdk).foldl
      (fun p (call, entry) => p.redirectCall call (qualifier file sdk) entry)
      ((Patch.new file).ensureImport sdk.importPath sdk.localName).2 := by
  have hnew : Patch.targets (Patch.new file).file sdk = Patch.targets file sdk := rfl
  change ((Patch.new file).instrument sdk).2 = _
  rw [Patch.instrument, hnew]
  split
  · rename_i hnil
    exact absurd hnil ht
  · rfl

/-- A patch is empty where no call is redirected. -/
theorem isEmpty_prepared (file : SourceFile) (sdk : Instrumentation) :
    (prepared file sdk none).isEmpty = (Patch.targets file sdk).isEmpty := by
  cases ht : Patch.targets file sdk with
  | nil =>
    have hnew : Patch.targets (Patch.new file).file sdk = [] := ht
    change ((Patch.new file).instrument sdk).2.isEmpty = true
    rw [Patch.instrument, hnew]
    rfl
  | cons c calls =>
    obtain ⟨adds, hs, -⟩ := shape_instrument file sdk
    obtain ⟨adds₁, adds₂, -, hedits⟩ := hs.edits
    simp [Patch.isEmpty, hedits, ht]

/-- **The import that a patch adds**: none where the file has one, and else one for the
qualifier. -/
theorem addedImports_prepared (ht : Patch.targets file sdk ≠ []) :
    (file.localName? sdk.importPath ≠ none ∧ (prepared file sdk none).addedImports = []) ∨
      file.localName? sdk.importPath = none ∧
        (prepared file sdk none).addedImports = [(sdk.importPath, qualifier file sdk)] := by
  rw [prepared_eq ht, foldl_redirectCall, qualifier]
  rcases ensureImport_spec (Patch.new file) sdk.importPath sdk.localName with
    ⟨name, hname, h⟩ | ⟨hname, h⟩
  · refine .inl ⟨fun hnone => ?_, by rw [h]; rfl⟩
    rw [Patch.importedName?, Patch.new, hnone] at hname
    cases hname
  · exact .inr ⟨localName?_of_importedName? hname, by rw [h]; rfl⟩

/-- **What a changed file imports**: the instrumentation under its own name, if the file did or if
it is added under that name. -/
theorem importsInstrumentation_extended {adds : List (String × String)} {entry : Option String}
    (h : file'.outline = file.outline.extended adds entry) : file'.importsInstrumentation sdk =
      (adds.contains (sdk.importPath, sdk.localName) || file.importsInstrumentation sdk) := by
  have hone : ∀ file : SourceFile, file.importsInstrumentation sdk =
      (file.outline.imports.any fun i => i.2 == sdk.importPath && i.1 == some sdk.localName) := by
    intro file
    rw [FileParts.outline, List.any_map]
    rfl
  rw [hone, hone, h, Outline.extended, List.any_append, List.any_map, List.contains_eq_any_beq]
  congr 2
  funext a
  rw [Bool.eq_iff_iff]
  simp only [Function.comp_apply, Bool.and_eq_true, beq_iff_eq, Option.some.injEq, Prod.ext_iff]
  exact and_congr eq_comm eq_comm

end TestWeave.Change

namespace TestWeave.Build

open TestWeave.Change TestWeave.Source TestWeave.Text

variable {s : Step} {path : Path} {source : String} {file : SourceFile}

/-- **When a file is left alone**: if it imports the instrumentation under its own name, or has no
call to redirect. -/
theorem isEmpty_instrumentFile : (s.instrumentFile file).isEmpty = true ↔
    file.importsInstrumentation s.sdk = true ∨ Patch.targets file s.sdk = [] := by
  cases h : file.importsInstrumentation s.sdk with
  | true => simp [Step.instrumentFile, h, Patch.isEmpty, Patch.new]
  | false => simp [instrumentFile_of_foreign h, isEmpty_prepared]

/-- **When an instrumented file is left alone.** A file that is changed, with new callees that stand
apart and make no suite driver, gives a source that parses. It is left alone the second time exactly
if the import was added under the preferred name, or if no call is left: no new callee is a call on
its receiver again, and at most one call of the file ran a suite, as only the first is redirected. -/
theorem settled_iff (hf : SourceFile.parse path source = .ok file) (hn : Named s.sdk)
    (hp : PlainPath s.sdk.importPath)
    (ht : file.localName? s.sdk.importPath = none → s.sdk.importPath ≠ Known.testingPackage)
    (hq : qualifier file s.sdk ≠ "")
    (ha : ∀ c ∈ Patch.targets file s.sdk, Apart source (qualifier file s.sdk) c ∧
      .ident Known.mainStart ∉ calleeKinds (qualifier file s.sdk) c.2)
    (hchanged : (s.instrumentFile file).isEmpty = false) :
    ∃ text file', (s.instrumentFile file).emit = .ok text ∧
      SourceFile.parse path text = .ok file' ∧
      ((s.instrumentFile file').isEmpty = true ↔
        (file.localName? s.sdk.importPath = none ∧ qualifier file s.sdk = s.sdk.localName) ∨
        ((∀ c ∈ Patch.targets file s.sdk, recalls (qualifier file s.sdk) c = false) ∧
          file.runCalls.length ≤ 1)) := by
  have hforeign := foreign_of_changed hchanged
  rw [instrumentFile_of_foreign hforeign] at hchanged ⊢
  have hne : Patch.targets file s.sdk ≠ [] := by
    rintro hnil
    rw [isEmpty_prepared, hnil] at hchanged
    exact absurd hchanged (by decide)
  -- the windows of the calls are clear
  obtain ⟨head, segs, hl⟩ := exists_layout s.sdk hf
  have hclear := clear_of_apart hf hn hp hl fun c hc => (ha c hc).1
  have hsoft : ∀ c ∈ (qualifier file s.sdk).toList, isSoft c = true := fun c hm =>
    isSoft_of_isPathChar (pathChar_of_qualifier hf hn hp c hm)
  have hkinds : textKinds (qualifier file s.sdk).toList ≠ [] := by
    obtain ⟨c, hc⟩ := List.exists_mem_of_ne_nil _ hne
    obtain ⟨w, hw, -⟩ := mem_sitesOf.1 (hl.sites.symm.subset hc)
    exact textKinds_ne_nil hsoft hq (hclear w hw)
  have hstart : Startless (qualifier file s.sdk) (Patch.targets file s.sdk) := fun c hc =>
    ⟨define_not_mem_calleeKinds hsoft _, (ha c hc).2⟩
  obtain ⟨text, file', hemit, hparse, houtline, hcount⟩ :=
    exists_changed hf hn hp ht hl hclear hkinds hstart
  refine ⟨text, file', hemit, hparse, ?_⟩
  rw [isEmpty_instrumentFile, targets_eq_nil_iff hparse]
  refine or_congr ?_ ?_
  · -- the import under the preferred name
    rw [importsInstrumentation_extended houtline, hforeign, Bool.or_false]
    rcases addedImports_prepared hne with ⟨hlocal, hadds⟩ | ⟨hlocal, hadds⟩
    · simp [hadds, hlocal]
    · simp [hadds, hlocal, eq_comm]
  · -- the calls that are left
    have hwatched := (watched_perm file).length_eq
    rw [List.length_append] at hwatched
    rw [length_targets hf] at hcount
    have hrecalls : (∀ c ∈ Patch.targets file s.sdk, recalls (qualifier file s.sdk) c = false) ↔
        ((Patch.targets file s.sdk).filter (recalls (qualifier file s.sdk))).length = 0 := by
      rw [List.length_eq_zero_iff, List.filter_eq_nil_iff]
      simp only [Bool.not_eq_true]
    rw [hrecalls, ← List.length_eq_zero_iff]
    omega

/-- A program whose package has a name of its own for the preferred one, and that runs its suite
twice. -/
def twoRuns : String :=
  "package main\n\nimport \"testing\"\n\nfunc ddtesting() \x7b\x7d\n\nfunc main() \x7b\n" ++
  "\tm := testing.MainStart(nil, nil, nil, nil, nil)\n\tm.Run()\n\tm.Run()\n\x7d\n"

/-- The second run is redirected the second time. -/
theorem not_settled_of_twoRuns : ∃ file text file',
    SourceFile.parse ⟨"a.go"⟩ twoRuns = .ok file ∧
    ((oneFile file).instrumentFile file).isEmpty = false ∧
    ((oneFile file).instrumentFile file).emit = .ok text ∧
    SourceFile.parse ⟨"a.go"⟩ text = .ok file' ∧
    ((oneFile file).instrumentFile file').isEmpty = false := by
  obtain ⟨file, hf, -, hlocal, hq, hname, ha, hchanged, hruns⟩ := exists_parsed
    (by decide +kernel : (SourceFile.parse ⟨"a.go"⟩ twoRuns).toOption.any (fun file =>
      file.localName? Instrumentation.default.importPath = none ∧
      qualifier file .default ≠ "" ∧
      qualifier file .default ≠ Instrumentation.default.localName ∧
      (∀ c ∈ Patch.targets file .default, Apart twoRuns (qualifier file .default) c ∧
        .ident Known.mainStart ∉ calleeKinds (qualifier file .default) c.2) ∧
      ((oneFile file).instrumentFile file).isEmpty = false ∧
      ¬ file.runCalls.length ≤ 1) = true)
  have htesting : Instrumentation.default.importPath ≠ Known.testingPackage := by decide
  obtain ⟨text, file', hemit, hparse, hiff⟩ := settled_iff (s := oneFile file) hf named_default
    plainPath_default (fun _ => htesting) hq ha hchanged
  refine ⟨file, text, file', hf, hchanged, hemit, hparse, eq_false_of_ne_true fun hempty => ?_⟩
  rcases hiff.1 hempty with ⟨-, h⟩ | ⟨-, h⟩
  · exact hname h
  · exact hruns h

end TestWeave.Build
