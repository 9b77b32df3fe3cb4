import TestWeave.Proofs.Layout

/-!
# Patches that instrument a file

`prepared` is the patch of a file whose calls are redirected, alone or followed by a suite entry.

* `shape_prepared`: the edits of such a patch.
* `applyEdits_layout`: what they make of the source; they never overlap.
-/

namespace TestWeave.Change

open TestWeave.Source

/-- The patch that instruments a file; with a name, it has a suite entry with a driver of that
name. -/
def prepared (file : SourceFile) (sdk : Instrumentation) : Option String → Patch
  | none => ((Patch.new file).instrument sdk).2
  | some var => ((Patch.new file).instrument sdk).2.appendSuiteEntry sdk var

/-- The name that the calls of an instrumented file go through. -/
def qualifier (file : SourceFile) (sdk : Instrumentation) : String :=
  ((Patch.new file).ensureImport sdk.importPath sdk.localName).1

/-- The edit that adds an import. -/
def importEdit (anchor : ImportAnchor) (added : String × String) : Edit :=
  ⟨anchor.offset, anchor.offset, Patch.importText anchor added.2 added.1⟩

/-- The names that added imports choose from: `preferred`, alone or with a number. -/
def IsChoice (preferred name : String) : Prop := ∃ k, name = numbered preferred k

theorem isChoice_freeName (preferred : String) (taken : List String) :
    IsChoice preferred (freeName preferred taken) := by
  unfold freeName
  cases h : ((List.range (taken.length + 1)).map (numbered preferred)).find?
      (!taken.contains ·) with
  | none => exact ⟨0, rfl⟩
  | some name =>
    obtain ⟨k, -, rfl⟩ := List.mem_map.1 (List.mem_of_find?_eq_some h)
    exact ⟨k, rfl⟩

/-- An import added for a path that no import of the file gives a name: the path and the name it
prefers are `n`. -/
structure Added (file : SourceFile) (n a : String × String) : Prop where
  path : a.1 = n.1
  name : IsChoice n.2 a.2
  missing : file.localName? n.1 = none

theorem localName?_of_importedName? {p : Patch} {path : String}
    (h : p.importedName? path = none) : p.file.localName? path = none := by
  rw [Patch.importedName?, Option.or_eq_none_iff] at h
  exact h.1

/-- **What an import that is needed adds**: nothing, or one import under a name of its choice. -/
theorem ensureImport_spec (p : Patch) (path preferred : String) :
    (∃ name, p.importedName? path = some name ∧ p.ensureImport path preferred = (name, p)) ∨
    p.importedName? path = none ∧ p.ensureImport path preferred =
      (freeName preferred p.takenNames,
        { p with
          edits := p.edits ++ [importEdit p.file.anchor (path, freeName preferred p.takenNames)]
          addedImports := p.addedImports ++ [(path, freeName preferred p.takenNames)] }) := by
  unfold Patch.ensureImport
  cases p.importedName? path with
  | none => exact .inr ⟨rfl, rfl⟩
  | some name => exact .inl ⟨name, rfl, rfl⟩

/-- What is appended leaves the imports as they are. -/
theorem importedName?_append (p : Patch) (text path : String) :
    { p with appended := text }.importedName? path = p.importedName? path := rfl

/-- **A path that was asked for** is imported under the name that was given. -/
theorem importedName?_ensureImport (p : Patch) (path preferred : String) :
    (p.ensureImport path preferred).2.importedName? path =
      some (p.ensureImport path preferred).1 := by
  rcases ensureImport_spec p path preferred with ⟨name, hname, he⟩ | ⟨hnone, he⟩
  · rw [he, hname]
  · rw [he]
    rw [Patch.importedName?, Option.or_eq_none_iff, Option.map_eq_none_iff] at hnone
    simp [Patch.importedName?, List.find?_append, hnone]

/-- The edits of a patch: added imports in the order in which they were added, and one edit for
each call. -/
structure Shape (file : SourceFile) (sdk : Instrumentation) (q : String)
    (adds : List (String × String)) (p : Patch) : Prop where
  file_eq : p.file = file
  added_eq : p.addedImports = adds
  edits : ∃ adds₁ adds₂, adds = adds₁ ++ adds₂ ∧
    p.edits = adds₁.map (importEdit file.anchor) ++
      ((Patch.targets file sdk).map (callEdit q) ++ adds₂.map (importEdit file.anchor))

variable {file : SourceFile} {sdk : Instrumentation} {q : String} {p : Patch}
  {adds : List (String × String)}

theorem foldl_redirectCall (calls : List (CallSite × String)) (p : Patch) :
    calls.foldl (fun p (call, entry) => p.redirectCall call q entry) p =
      { p with edits := p.edits ++ calls.map (callEdit q) } := by
  induction calls generalizing p with
  | nil => simp
  | cons c calls ih =>
    rw [List.foldl_cons, ih]
    simp [Patch.redirectCall, callEdit]

theorem shape_instrument (file : SourceFile) (sdk : Instrumentation) :
    ∃ adds, Shape file sdk (qualifier file sdk) adds (prepared file sdk none) ∧
      (prepared file sdk none).appended = "" ∧
      ∀ a ∈ adds, Added file (sdk.importPath, sdk.localName) a := by
  unfold prepared Patch.instrument
  cases ht : Patch.targets (Patch.new file).file sdk with
  | nil =>
    exact ⟨[], ⟨rfl, rfl, [], [], rfl, by rw [show Patch.targets file sdk = [] from ht]; rfl⟩,
      rfl, by simp⟩
  | cons c calls =>
    have ht : Patch.targets file sdk = c :: calls := ht
    simp only [qualifier]
    -- the import is there already, or it is added under a name that is free
    rcases ensureImport_spec (Patch.new file) sdk.importPath sdk.localName with
      ⟨name, -, h⟩ | ⟨hnone, h⟩
    · rw [h]
      refine ⟨[], ⟨?_, ?_, [], [], rfl, ?_⟩, ?_, by simp⟩
      all_goals rw [foldl_redirectCall]
      · rfl
      · rfl
      · simp [ht, Patch.new]
      · rfl
    · rw [h]
      refine ⟨_, ⟨?_, rfl, _, [], (List.append_nil _).symm, ?_⟩, ?_, ?_⟩
      · rw [foldl_redirectCall]
        rfl
      · rw [foldl_redirectCall]
        simp [ht, Patch.new]
      · rw [foldl_redirectCall]
        rfl
      · rw [foldl_redirectCall]
        rintro a ha
        obtain rfl : a = (sdk.importPath, freeName sdk.localName (Patch.new file).takenNames) := by
          simpa [Patch.new] using ha
        exact ⟨rfl, isChoice_freeName .., localName?_of_importedName? hnone⟩

/-- One more import leaves the edits in shape. -/
theorem Shape.ensureImport (h : Shape file sdk q adds p) (path preferred : String) :
    ∃ more, Shape file sdk q (adds ++ more) (p.ensureImport path preferred).2 ∧
      ∀ a ∈ more, Added file (path, preferred) a := by
  rcases ensureImport_spec p path preferred with ⟨name, -, he⟩ | ⟨hnone, he⟩
  · rw [he]
    exact ⟨[], by simpa using h, by simp⟩
  · obtain ⟨hf, ha, adds₁, adds₂, hadds, hedits⟩ := h
    have hmissing := localName?_of_importedName? hnone
    rw [hf] at hmissing
    rw [he]
    refine ⟨[(path, freeName preferred p.takenNames)], ⟨hf, by rw [ha], adds₁,
      adds₂ ++ [(path, freeName preferred p.takenNames)], ?_, ?_⟩, ?_⟩
    · rw [hadds, List.append_assoc]
    · rw [hedits, hf]
      simp
    · rintro a ha
      obtain rfl : a = (path, freeName preferred p.takenNames) := by simpa using ha
      exact ⟨rfl, isChoice_freeName .., hmissing⟩

theorem Shape.append (h : Shape file sdk q adds p) (text : String) :
    Shape file sdk q adds { p with appended := text } := ⟨h.file_eq, h.added_eq, h.edits⟩

theorem appendSuiteEntry_eq (p : Patch) (sdk : Instrumentation) (var : String) :
    p.appendSuiteEntry sdk var =
      let testing := p.ensureImport Known.testingPackage Known.testingPackage
      let os := testing.2.ensureImport Known.osPackage Known.osPackage
      let run := os.2.ensureImport sdk.importPath sdk.localName
      { run.2 with appended := Patch.suiteEntryText testing.1 os.1 run.1 sdk.suiteEntry var } := rfl

theorem prepared_some (file : SourceFile) (sdk : Instrumentation) (var : String) :
    prepared file sdk (some var) = (prepared file sdk none).appendSuiteEntry sdk var := rfl

/-- The imports that a prepared patch may add, each with the name it prefers. -/
def needed (sdk : Instrumentation) : List (String × String) :=
  [(sdk.importPath, sdk.localName), (Known.testingPackage, Known.testingPackage),
    (Known.osPackage, Known.osPackage)]

/-- **The shape of a prepared patch.** -/
theorem shape_prepared (file : SourceFile) (sdk : Instrumentation) (entry : Option String) :
    ∃ adds, Shape file sdk (qualifier file sdk) adds (prepared file sdk entry) ∧
      ∀ a ∈ adds, ∃ n ∈ needed sdk, Added file n a := by
  obtain ⟨adds, h, -, ha⟩ := shape_instrument file sdk
  have hsdk : ∀ a ∈ adds, ∃ n ∈ needed sdk, Added file n a :=
    fun a h => ⟨(sdk.importPath, sdk.localName), by simp [needed], ha a h⟩
  cases entry with
  | none => exact ⟨adds, h, hsdk⟩
  | some var =>
    obtain ⟨more₁, h₁, ha₁⟩ := h.ensureImport Known.testingPackage Known.testingPackage
    obtain ⟨more₂, h₂, ha₂⟩ := h₁.ensureImport Known.osPackage Known.osPackage
    obtain ⟨more₃, h₃, ha₃⟩ := h₂.ensureImport sdk.importPath sdk.localName
    refine ⟨adds ++ more₁ ++ more₂ ++ more₃, ?_, fun a ha => ?_⟩
    · rw [prepared_some, appendSuiteEntry_eq]
      exact h₃.append _
    · simp only [List.mem_append] at ha
      rcases ha with ((ha | ha) | ha) | ha
      · exact hsdk a ha
      · exact ⟨(Known.testingPackage, Known.testingPackage), by simp [needed], ha₁ a ha⟩
      · exact ⟨(Known.osPackage, Known.osPackage), by simp [needed], ha₂ a ha⟩
      · exact ⟨(sdk.importPath, sdk.localName), by simp [needed], ha₃ a ha⟩

/-! ### The new source -/

/-- The text of added imports. -/
def importsText (anchor : ImportAnchor) (adds : List (String × String)) : List Char :=
  adds.flatMap fun a => (Patch.importText anchor a.2 a.1).toList

variable {head : Head} {segs : List Segment}

theorem offset_stop (head : Head) (package : String) :
    (head.stop package).offset = byteSize (Piece.joined (head.pieces package)) := by
  rw [Head.stop, Place.offset_after]
  simp [Place.origin]

/-- The edits of a patch in the order in which they are made. -/
def inOrder (file : SourceFile) (q : String) (adds : List (String × String))
    (segs : List Segment) : List Edit :=
  adds.map (importEdit file.anchor) ++ editsOf q segs

theorem importEdit_offset (hl : Layout file sdk head segs) {e : Edit}
    (he : e ∈ adds.map (importEdit file.anchor)) :
    e.start = (head.stop file.package).offset ∧ e.stop = (head.stop file.package).offset := by
  obtain ⟨a, -, rfl⟩ := List.mem_map.1 he
  rw [importEdit, hl.anchor]
  exact ⟨rfl, rfl⟩

theorem mergeSort_layout (hl : Layout file sdk head segs) (hs : Shape file sdk q adds p) :
    p.edits.mergeSort Edit.precedes = inOrder file q adds segs := by
  obtain ⟨hbounds, hsorted⟩ := editsOf_spec (q := q) hl.placed
  obtain ⟨-, -, adds₁, adds₂, hadds, hedits⟩ := hs
  have hcalls : (editsOf q segs).Perm ((Patch.targets file sdk).map (callEdit q)) :=
    hl.sites.map _
  rw [hedits, mergeSort_edits ?_ ?_ hsorted hcalls, inOrder, hadds, List.map_append]
  · exact (head.stop file.package).offset
  · rw [← List.map_append, ← hadds]
    exact fun e => importEdit_offset hl
  · intro e he
    have := hbounds e he
    omega

theorem Shape.mem_edits (hs : Shape file sdk q adds p) {e : Edit} :
    e ∈ p.edits ↔ (∃ a ∈ adds, importEdit file.anchor a = e) ∨
      ∃ c ∈ Patch.targets file sdk, callEdit q c = e := by
  obtain ⟨-, -, adds₁, adds₂, rfl, hedits⟩ := hs
  rw [hedits]
  simp only [List.mem_append, List.mem_map, or_and_right, exists_or]
  exact (or_congr_right or_comm).trans or_assoc.symm

/-- **What the edits make of a source**: its head, the added imports, and then the new text of its
segments. -/
theorem applyEdits_layout (hl : Layout file sdk head segs) (hs : Shape file sdk q adds p) :
    applyEdits file.source.toList p.edits =
      .ok (Piece.joined (head.pieces file.package) ++ importsText file.anchor adds ++
        freshText q segs) := by
  rw [applyEdits, mergeSort_layout hl hs, inOrder, hl.source, joined_append, splice_keep]
  · rw [Nat.zero_add, ← offset_stop, splice_inserts fun e => importEdit_offset hl,
      splice_segments hl.placed, except_map_map]
    simp [Except.map, importsText, importEdit, List.flatMap_map]
  · intro e he
    rw [Nat.zero_add, ← offset_stop]
    rcases List.mem_append.1 he with he | he
    · rw [(importEdit_offset hl he).1]
    · exact ((editsOf_spec hl.placed).1 e he).1

end TestWeave.Change
