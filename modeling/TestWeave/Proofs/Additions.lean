import TestWeave.Proofs.Names
import TestWeave.Proofs.Spelling

/-!
# What a patch adds to a source

An added import is spelled with a semicolon, so that it ends where it stands. A suite entry is a
function behind the last line of the source.

* `row_imports`: added imports are a row, whatever follows.
* `scan_suiteEntry`, `callee_of_scan`: a suite entry can be scanned if its callee can, and only
  then.
* `addable_of_needed`: the imports that a patch needs can be spelled.
-/

namespace TestWeave.Source

open TestWeave.Text TestWeave.Change

/-! ### Names with numbers -/

/-- A keyword holds no digit. -/
theorem ofWord?_of_digit {w : String} {c : Char} (hc : c ∈ w.toList) (hd : c.isDigit = true) :
    Keyword.ofWord? w = none := by
  have letters : ∀ k ∈ Keyword.all, k.spelling.toList.all (!·.isDigit) = true := by decide
  cases h : Keyword.ofWord? w with
  | none => rfl
  | some k =>
    have hw : k.spelling = w := by simpa using List.find?_some h
    rw [← hw] at hc
    have hk := List.all_eq_true.1 (letters k (by cases k <;> decide)) c hc
    simp [hd] at hk

/-- A choice of a name is that name, or it holds a digit. -/
theorem eq_or_digit_of_choice {preferred name : String} (h : IsChoice preferred name) :
    name = preferred ∨ ∃ c ∈ name.toList, c.isDigit = true := by
  obtain ⟨k, rfl⟩ := h
  cases k with
  | zero => exact .inl rfl
  | succ k =>
    have hne : (Nat.toDigits 10 (k + 1)) ≠ [] := Nat.toDigits_ne_nil
    obtain ⟨d, ds, hds⟩ := List.exists_cons_of_ne_nil hne
    have hd : d ∈ Nat.toDigits 10 (k + 1) := by rw [hds]; simp
    refine .inr ⟨d, ?_, Nat.isDigit_of_mem_toDigits (by omega) (by omega) hd⟩
    rw [numbered, String.toList_append, List.mem_append]
    right
    simpa using hd

theorem isIdentifier_choice {preferred name : String} (h : isIdentifier preferred = true)
    (hc : IsChoice preferred name) : isIdentifier name = true := by
  obtain ⟨c, t, ht, hs, hparts⟩ := isIdentifier_cons h
  have hall : ∀ d ∈ preferred.toList, isIdentPart d = true := by
    rw [ht]
    exact List.forall_mem_cons.2 ⟨isIdentPart_of_isIdentStart hs, hparts⟩
  have hname := forall_mem_numbered hc hall fun d hd => isIdentPart_of_isDigit hd
  obtain ⟨t', ht'⟩ : ∃ t', name.toList = c :: t' := by
    obtain ⟨k, rfl⟩ := hc
    cases k with
    | zero => exact ⟨t, ht⟩
    | succ k => exact ⟨_, by rw [numbered, String.toList_append, ht, List.cons_append]⟩
  rw [isIdentifier, ht']
  simp only [hs, Bool.true_and, List.all_eq_true]
  rw [ht'] at hname
  exact fun d hd => hname d (List.mem_cons_of_mem _ hd)

/-- **A name with a number** is a name. -/
theorem IsName.choice {preferred name : String} (h : IsName preferred)
    (hc : IsChoice preferred name) : IsName name := by
  refine ⟨isIdentifier_choice h.1 hc, ?_⟩
  rcases eq_or_digit_of_choice hc with rfl | ⟨c, hm, hd⟩
  · exact h.2
  · exact ofWord?_of_digit hm hd

/-! ### Imports -/

/-- The literal that spells an import path. -/
def pathLiteral (path : String) : TokenKind :=
  .literal .string (String.ofList ('"' :: (path.toList ++ ['"'])))

/-- The pieces of an added import, a path and a name. -/
def importPieces (explicitSemi : Bool) (a : String × String) : List Piece :=
  let spec := [.token (.keyword .kwImport), .blank ' ', .token (.ident a.2), .blank ' ',
    .token (pathLiteral a.1)]
  if explicitSemi then .blank ' ' :: (spec ++ [.token (.operator .semi)])
  else .token (.operator .semi) :: .blank ' ' :: spec

/-- An import whose path is a literal as it stands, and whose name is one. -/
structure Addable (a : String × String) : Prop where
  name : IsName a.2
  path : Spelled a.1
  nonempty : a.1 ≠ ""

theorem joined_importPieces (anchor : ImportAnchor) (a : String × String) :
    Piece.joined (importPieces anchor.explicitSemi a) =
      (Patch.importText anchor a.2 a.1).toList := by
  unfold importPieces Patch.importText
  split <;> simp [Piece.text, TokenKind.text, pathLiteral, Keyword.spelling, Operator.spelling,
    toString]

theorem reads_semi (rest : List Char) : Reads (.token (.operator .semi)) rest :=
  Reads.of_alone (by decide) (by decide) (by decide)

theorem reads_keyword (k : Keyword) {rest : List Char} (hr : ∀ c ∈ rest.head?, isIdentPart c = false) :
    Reads (.token (.keyword k)) rest := by
  have : wordKind k.spelling = .keyword k := by cases k <;> decide
  rw [← this]
  exact .word (by cases k <;> decide) hr

/-- **An added import is a row**, whatever follows. -/
theorem row_importPieces (explicitSemi : Bool) {a : String × String} (h : Addable a)
    (rest : List Char) : Row (importPieces explicitSemi a) rest := by
  have hspace : ∀ rest, Reads (.blank ' ') rest := fun _ => .blank rfl
  have hpath : ∀ rest, Reads (.token (pathLiteral a.1)) rest := fun _ =>
    .string (h.path.quotedBody [])
  have himport : ∀ rest, Reads (.token (.keyword .kwImport)) (' ' :: rest) := fun _ =>
    reads_keyword _ (by simp [not_isIdentPart_of_mem_marks (show ' ' ∈ marks by decide)])
  have hname : ∀ rest, Reads (.token (.ident a.2)) (' ' :: rest) := fun _ =>
    reads_ident h.name.1 h.name.2
      (by simp [not_isIdentPart_of_mem_marks (show ' ' ∈ marks by decide)])
  unfold importPieces
  split
  · exact ⟨hspace _, himport _, hspace _, hname _, hspace _, hpath _, reads_semi _, trivial⟩
  · exact ⟨reads_semi _, hspace _, himport _, hspace _, hname _, hspace _, hpath _, trivial⟩

/-- The pieces of added imports. -/
def importsPieces (explicitSemi : Bool) (adds : List (String × String)) : List Piece :=
  adds.flatMap (importPieces explicitSemi)

theorem joined_importsPieces (anchor : ImportAnchor) (adds : List (String × String)) :
    Piece.joined (importsPieces anchor.explicitSemi adds) = importsText anchor adds := by
  induction adds with
  | nil => rfl
  | cons a adds ih =>
    rw [importsPieces, List.flatMap_cons, joined_append, joined_importPieces]
    rw [importsPieces] at ih
    rw [ih, importsText, importsText, List.flatMap_cons]

theorem row_imports (explicitSemi : Bool) {adds : List (String × String)}
    (h : ∀ a ∈ adds, Addable a) (rest : List Char) : Row (importsPieces explicitSemi adds) rest := by
  induction adds with
  | nil => trivial
  | cons a adds ih =>
    obtain ⟨ha, has⟩ := List.forall_mem_cons.1 h
    rw [importsPieces, List.flatMap_cons, row_append]
    exact ⟨row_importPieces _ ha _, ih has⟩

/-! ### The suite entry -/

/-- The pieces of a suite entry in front of the callee that runs the suite. -/
def entryFront (testing os var : String) : List Piece :=
  [.lineBreak, .lineBreak, .token (.keyword .kwFunc), .blank ' ',
    .token (.ident Known.suiteEntry), .token (.operator .lparen), .token (.ident var), .blank ' ',
    .token (.operator .star), .token (.ident testing), .token (.operator .dot),
    .token (.ident Known.driverType), .token (.operator .rparen), .blank ' ',
    .token (.operator .lbrace), .lineBreak, .blank '\t', .token (.ident os),
    .token (.operator .dot), .token (.ident Known.exitFunction), .token (.operator .lparen)]

/-- The pieces of a suite entry behind that callee. -/
def entryBack (var : String) : List Piece :=
  [.token (.operator .lparen), .token (.ident var), .token (.operator .rparen),
    .token (.operator .rparen), .lineBreak, .token (.operator .rbrace), .lineBreak]

theorem suiteEntryText_toList (testing os q run var : String) :
    (Patch.suiteEntryText testing os q run var).toList =
      Piece.joined (entryFront testing os var) ++
        (calleeText q run ++ Piece.joined (entryBack var)) := by
  simp [Patch.suiteEntryText, entryFront, entryBack, calleeText, Piece.text, TokenKind.text,
    Keyword.spelling, Operator.spelling, Known.suiteEntry, Known.driverType, Known.exitFunction,
    toString]

/-- A name ends where a mark stands. -/
theorem reads_name {name : String} (h : IsName name) {c : Char} (hc : c ∈ marks)
    (rest : List Char) : Reads (.token (.ident name)) (c :: rest) :=
  reads_ident h.1 h.2 (by simpa using not_isIdentPart_of_mem_marks hc)

theorem row_entryFront {testing os var : String} (ht : IsName testing) (ho : IsName os)
    (hv : IsName var) (rest : List Char) : Row (entryFront testing os var) rest := by
  have halone : ∀ op : Operator, op ∈ [Operator.lparen, .rparen, .lbrace] → ∀ rest,
      Reads (.token (.operator op)) rest := by
    intro op hop rest
    simp only [List.mem_cons, List.not_mem_nil, or_false] at hop
    rcases hop with rfl | rfl | rfl
    all_goals exact Reads.of_alone (by decide) (by decide) (by decide)
  -- a star and a dot end where a letter stands
  have hletter : ∀ op : Operator, ∀ c, isIdentStart c = true → ∀ rest,
      Reads (.token (.operator op)) (c :: rest) := by
    intro op c hc rest
    have hm := not_mem_marks_of_isIdentPart (isIdentPart_of_isIdentStart hc)
    refine .operator (.of_head ?_ fun _ => ?_)
    · rintro _ ⟨⟩ htail
      exact hm (Operator.mem_marks_of_mem_tails htail)
    · rintro _ ⟨⟩
      exact isDigit_of_isIdentStart hc
  obtain ⟨c, t, hct, hc, -⟩ := isIdentifier_cons ht.1
  have hstar : ∀ rest, Reads (.token (.operator .star))
      ((Piece.token (.ident testing)).text ++ rest) := by
    intro rest
    simp only [Piece.text, TokenKind.text, hct, List.cons_append]
    exact hletter _ c hc _
  refine ⟨.lineBreak, .lineBreak, ?_, .blank rfl, ?_, ?_, ?_, .blank rfl, ?_, ?_, ?_, ?_, ?_,
    .blank rfl, ?_, .lineBreak, .blank rfl, ?_, ?_, ?_, ?_, trivial⟩
  · refine reads_keyword _ ?_
    rintro _ ⟨⟩
    decide
  · exact reads_name (by decide) (by decide) _
  · exact halone _ (by decide) _
  · exact reads_name hv (by decide) _
  · rw [joined_cons, List.append_assoc]
    exact hstar _
  · exact reads_name ht (by decide) _
  · exact hletter _ 'M' (by decide) _
  · exact reads_name (by decide) (by decide) _
  · exact halone _ (by decide) _
  · exact halone _ (by decide) _
  · exact reads_name ho (by decide) _
  · exact hletter _ 'E' (by decide) _
  · exact reads_name (by decide) (by decide) _
  · exact halone _ (by decide) _

theorem row_entryBack {var : String} (hv : IsName var) : Row (entryBack var) [] := by
  have halone : ∀ op : Operator, op ∈ [Operator.lparen, .rparen, .rbrace] → ∀ rest,
      Reads (.token (.operator op)) rest := by
    intro op hop rest
    simp only [List.mem_cons, List.not_mem_nil, or_false] at hop
    rcases hop with rfl | rfl | rfl
    all_goals exact Reads.of_alone (by decide) (by decide) (by decide)
  exact ⟨halone _ (by decide) _, reads_name hv (by decide) _, halone _ (by decide) _,
    halone _ (by decide) _, .lineBreak, halone _ (by decide) _, .lineBreak, trivial⟩

theorem joined_entryBack (var : String) :
    ∃ rest, Piece.joined (entryBack var) = '(' :: rest := ⟨_, rfl⟩

/-- **A suite entry is scanned** if its callee is. -/
theorem scan_suiteEntry {testing os q run var : String} (ht : IsName testing) (ho : IsName os)
    (hv : IsName var) (hq : ∀ c ∈ q.toList, isPathChar c = true) (hr : IsName run)
    (h : (scan (calleeText q run)).2 = none) :
    scan (Patch.suiteEntryText testing os q run var).toList =
      (entryFront testing os var ++ ((scan (calleeText q run)).1 ++ entryBack var), none) := by
  obtain ⟨rest, hrest⟩ := joined_entryBack var
  have hsoft := isSoft_of_mem_calleeText hq hr.forall_mem
  have hrow : Row (entryFront testing os var ++ ((scan (calleeText q run)).1 ++ entryBack var)) [] := by
    refine row_append.2 ⟨row_entryFront ht ho hv _, row_append.2 ⟨?_, row_entryBack hv⟩⟩
    rw [List.append_nil, hrest]
    exact row_soft hsoft h
  have := scan_joined hrow
  rwa [joined_append, joined_append, scan_text h, ← suiteEntryText_toList] at this

/-- The callee of a suite entry that is scanned can be scanned. -/
theorem callee_of_scan {testing os q run var : String} (ht : IsName testing) (ho : IsName os)
    (hv : IsName var) (hq : ∀ c ∈ q.toList, isPathChar c = true) (hr : IsName run)
    (h : (scan (Patch.suiteEntryText testing os q run var).toList).2 = none) :
    (scan (calleeText q run)).2 = none := by
  obtain ⟨rest, hrest⟩ := joined_entryBack var
  rw [suiteEntryText_toList, scan_row (row_entryFront ht ho hv _), hrest] at h
  exact scan_append_fault (isSoft_of_mem_calleeText hq hr.forall_mem) h

/-! ### The imports of a prepared patch -/

/-- Whether an import path is made of letters, digits and a few marks. -/
def PlainPath (path : String) : Prop :=
  path ≠ "" ∧ ∀ c ∈ path.toList, isPathChar c = true ∨ c = '/'

instance (path : String) : Decidable (PlainPath path) :=
  decidable_of_iff
    (path ≠ "" ∧ path.toList.all (fun c => isPathChar c || c == '/') = true) (by simp [PlainPath])

theorem PlainPath.spelled {path : String} (h : PlainPath path) : Spelled path := by
  have hplain : ∀ c ∈ ['"', '\\', '\n'], c ∉ path.toList := by
    intro c hc hm
    simp only [List.mem_cons, List.not_mem_nil, or_false] at hc
    rcases hc with rfl | rfl | rfl
    all_goals exact absurd (h.2 _ hm) (by decide)
  have hslash : '\\' ∉ path.toList := hplain _ (by simp)
  exact ⟨hplain _ (by simp), hplain _ (by simp), fun hi => hslash (hi.subset (by simp)),
    fun hl => hslash (List.mem_of_getLast? hl)⟩

theorem plainPath_default : PlainPath Instrumentation.default.importPath := by
  decide

/-- **The imports that a prepared patch adds** can be spelled. -/
theorem addable_of_needed {sdk : Instrumentation} (hn : Named sdk) (hp : PlainPath sdk.importPath)
    {file : SourceFile} {a n : String × String} (hm : n ∈ needed sdk) (ha : Added file n a) :
    Addable a := by
  have hneeded : IsName n.2 ∧ PlainPath n.1 := by
    simp only [needed, List.mem_cons, List.not_mem_nil, or_false] at hm
    rcases hm with rfl | rfl | rfl
    · exact ⟨hn.localName, hp⟩
    · exact ⟨by decide, by decide⟩
    · exact ⟨by decide, by decide⟩
  obtain ⟨hname, hpath⟩ := hneeded
  exact ⟨hname.choice ha.name, by rw [ha.path]; exact hpath.spelled, by rw [ha.path]; exact hpath.1⟩

end TestWeave.Source
