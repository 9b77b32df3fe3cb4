import TestWeave.Proofs.Actions
import TestWeave.Proofs.Arguments
import TestWeave.Proofs.Course
import TestWeave.Proofs.Header
import TestWeave.Proofs.Lowered
import TestWeave.Proofs.Watched

/-!
# What a changed file carries

A changed file is a line that names the file it was made from, and then the changed source without its
byte order mark. So every token of that source stands one line lower, with the same text, and the file
declares the same.

* `tokensFrom_lowered`: tokens behind a place that is moved are moved with it.
* `begins_of_mem_callSites`: the arguments of calls begin at tokens.
* `lex_tempText`, `textIn_tempText`: the tokens of a changed file, and their texts.
* `head_of_emit`: no edit touches the first character of a source.
* `Carries`: what a changed file has of an emitted text; `tempText_of_emit`: it has all of it.
-/

namespace TestWeave.Source

open TestWeave.Change

/-! ### Tokens one line lower -/

section

variable {m : Shift} {here : Place}

/-- A place, one line lower. -/
def Place.lowered (m : Shift) (p : Place) : Place :=
  ⟨p.offset + m.bytes, p.line + 1, if p.line = 1 then p.column - m.columns else p.column⟩

/-- A place whose column, if it is on the first line, can be moved to the left. -/
def Place.Movable (m : Shift) (p : Place) : Prop :=
  1 ≤ p.line ∧ (p.line = 1 → m.columns ≤ p.column)

theorem next_lowered (h : here.Movable m) (c : Char) :
    (here.lowered m).next c = (here.next c).lowered m ∧ (here.next c).Movable m := by
  obtain ⟨hline, hcolumn⟩ := h
  unfold Place.next
  split
  · refine ⟨?_, Nat.le_add_left .., fun hfirst => ?_⟩
    · have hlower : here.line + 1 ≠ 1 := by omega
      simp only [Place.lowered, if_neg hlower, Place.mk.injEq, and_true]
      omega
    · simp only at hfirst
      omega
  · refine ⟨?_, hline, fun hfirst => (hcolumn hfirst).trans (Nat.le_succ _)⟩
    by_cases hfirst : here.line = 1
    · have := hcolumn hfirst
      simp only [Place.lowered, hfirst, if_true, Place.mk.injEq, true_and]
      omega
    · simp only [Place.lowered, if_neg hfirst, Place.mk.injEq, and_true]
      omega

theorem after_lowered (h : here.Movable m) (cs : List Char) :
    (here.lowered m).after cs = (here.after cs).lowered m ∧ (here.after cs).Movable m := by
  induction cs generalizing here with
  | nil => exact ⟨rfl, h⟩
  | cons c cs ih =>
    obtain ⟨hnext, hmovable⟩ := next_lowered h c
    rw [Place.after_cons, Place.after_cons, hnext]
    exact ih hmovable

theorem insertedSemi_lowered (here : Place) :
    insertedSemi (here.lowered m) = (insertedSemi here).lowered m := rfl

/-- **Tokens behind a place** are moved with it. -/
theorem tokensFrom_lowered (h : here.Movable m) (armed : Bool) (ps : List Piece) :
    tokensFrom (here.lowered m) armed ps =
      (tokensFrom here armed ps).map (Token.lowered m) := by
  induction ps generalizing here armed with
  | nil => cases armed <;> rfl
  | cons p ps ih =>
    obtain ⟨hafter, hmovable⟩ := after_lowered h p.text
    rcases p.token_or with ⟨kind, rfl⟩ | hp
    · have hlater := ih hmovable kind.endsStatement
      rw [Piece.text] at hafter hlater
      rw [tokensFrom_token, tokensFrom_token, List.map_cons, hafter, hlater]
      rfl
    · rw [tokensFrom_other _ _ hp, tokensFrom_other _ _ hp, hafter]
      split
      · rw [List.map_cons, insertedSemi_lowered, ih hmovable]
      · exact ih hmovable armed

end

/-- Behind a text on one line and its break begins the next line. -/
theorem after_line (here : Place) {cs : List Char} (h : '\n' ∉ cs) :
    here.after (cs ++ ['\n']) = ⟨here.offset + byteSize (cs ++ ['\n']), here.line + 1, 1⟩ := by
  have hline : (here.after cs).line = here.line := by
    rw [line_after, List.count_eq_zero_of_not_mem h, Nat.add_zero]
  rw [Place.after_append, Place.after_cons, Place.after_nil, Place.next, if_pos rfl, hline,
    Place.offset_after, byteSize_append, Nat.add_assoc]
  rfl

/-! ### Where arguments begin -/

/-- Whether a stretch begins at one of the tokens. -/
def Span.BeginsIn (s : Span) (tokens : List Token) : Prop :=
  ∃ t ∈ tokens, t.span.start = s.start

theorem Span.BeginsIn.mono {s : Span} {tokens tokens' : List Token} (h : s.BeginsIn tokens)
    (hsub : tokens ⊆ tokens') : s.BeginsIn tokens' := by
  obtain ⟨t, ht, hstart⟩ := h
  exact ⟨t, hsub ht, hstart⟩

/-- The stretch of trees begins at a token of theirs. -/
theorem begins_of_spanOf? {ts : List Tree} {s : Span} (h : spanOf? ts = some s) :
    s.BeginsIn (ts.flatMap Tree.flatten) := by
  rw [spanOf?_eq, stretch?] at h
  split at h
  · rename_i first last hfirst hlast
    obtain rfl := Option.some.inj h
    exact ⟨first, List.mem_of_mem_head? hfirst, rfl⟩
  · cases h

mutual

theorem begins_of_mem_callsWithin {receiver method : String} {c : CallSite} {t : Tree}
    (h : c ∈ callsWithin receiver method t) : ∀ arg ∈ c.args, arg.BeginsIn t.flatten := by
  match t, h with
  | .group delim opening closing trees, h =>
    intro arg harg
    refine (begins_of_mem_callsFrom h arg harg).mono ?_
    rw [Tree.flatten_group]
    exact fun t ht => by simp [ht]

/-- **The arguments of calls** begin at tokens. -/
theorem begins_of_mem_callsFrom {receiver method : String} {c : CallSite} {selected : Bool}
    {ts : List Tree} (h : c ∈ callsFrom receiver method selected ts) :
    ∀ arg ∈ c.args, arg.BeginsIn (Tree.flattenAll ts) := by
  match ts, h with
  | t :: ts, h =>
    intro arg harg
    rw [callsFrom, List.mem_append, List.mem_append] at h
    rw [Tree.flattenAll_cons]
    rcases h with (h | h) | h
    · cases selected with
      | true => exact absurd h List.not_mem_nil
      | false =>
        obtain ⟨recv, dot, name, opening, closing, inner, us, he, -, -, -, -, -, -, hargs⟩ :=
          callAt_eq_some (by simpa using h)
        obtain ⟨segment, hsegment, hspan⟩ := List.mem_filterMap.1 (hargs ▸ harg)
        rw [← Tree.flattenAll_cons, he]
        refine (begins_of_spanOf? hspan).mono fun t ht => ?_
        obtain ⟨u, hu, ht⟩ := List.mem_flatMap.1 ht
        have hinner := flatten_subset (mem_of_mem_splitWhere hsegment hu) ht
        simp [hinner]
    · exact (begins_of_mem_callsWithin h arg harg).mono (List.subset_append_left ..)
    · exact (begins_of_mem_callsFrom h arg harg).mono (List.subset_append_right ..)

end

/-- **The arguments of the calls of a file** begin at tokens. -/
theorem begins_of_mem_callSites {path : Path} {source : String} {file : SourceFile}
    {tokens : List Token} (hf : SourceFile.parse path source = .ok file)
    (hl : lex source = .ok tokens) {c : CallSite} (hc : c ∈ file.callSites) :
    ∀ arg ∈ c.args, arg.BeginsIn tokens := by
  rw [← map_targets file .default] at hc
  obtain ⟨site, hsite, rfl⟩ := List.mem_map.1 hc
  obtain ⟨receiver, body, hcall, -, hbody⟩ := exists_body_of_mem_targets hf hl hsite
  exact fun arg harg => (begins_of_mem_callsFrom hcall arg harg).mono hbody.subset

end TestWeave.Source

namespace TestWeave.Build

open TestWeave.Source TestWeave.Text TestWeave.Host TestWeave.Change

variable {d : Disk} {path : Path} {text : String} {tokens : List Token} {file : SourceFile}

/-! ### The text of a changed file -/

/-- The comment that a changed file begins with, without its slashes. -/
def directive (d : Disk) (path : Path) : String := s!"line {(sourcePath d path).text}:1"

/-- The line that a changed file begins with. -/
def header (d : Disk) (path : Path) : List Char :=
  '/' :: '/' :: (directive d path).toList ++ ['\n']

/-- The byte order mark that leads a text, if one does. -/
def leadingMark (text : String) : List Char :=
  if text.toList.head? = some '\uFEFF' then ['\uFEFF'] else []

/-- How the places of an emitted text are moved: the header comes in front, and the mark is gone. -/
def headed (d : Disk) (path : Path) (text : String) : Shift where
  bytes := byteSize (header d path) - byteSize (leadingMark text)
  columns := (leadingMark text).length

theorem not_mem_directive (hb : '\n' ∉ (sourcePath d path).text.toList) :
    '\n' ∉ (directive d path).toList := by
  simpa [directive, ToString.toString] using hb

theorem leadingMark_cases (text : String) :
    leadingMark text = ['\uFEFF'] ∨ leadingMark text = [] := by
  unfold leadingMark
  split
  · exact .inl rfl
  · exact .inr rfl

/-- **The text of a changed file** is the header and what stands behind the mark. -/
theorem exists_unmarked (d : Disk) (path : Path) (text : String) :
    ∃ out, text.toList = leadingMark text ++ out ∧
      (tempText d path text).toList = header d path ++ out := by
  have htemp : (tempText d path text).toList =
      header d path ++ ((dropLead byteOrderMark text).getD text).toList := by
    simp [tempText, header, directive, ToString.toString]
  unfold leadingMark
  cases hd : dropLead byteOrderMark text with
  | none =>
    rw [hd, Option.getD_none] at htemp
    refine ⟨text.toList, ?_, htemp⟩
    rw [if_neg, List.nil_append]
    intro hhead
    obtain ⟨cs, hcs⟩ := List.head?_eq_some_iff.1 hhead
    have hlead : afterLead byteOrderMark.toList text.toList = some cs :=
      afterLead_eq_some_iff.2 hcs
    rw [dropLead, hlead] at hd
    cases hd
  | some rest =>
    rw [hd, Option.getD_some] at htemp
    obtain ⟨cs, hcs, rfl⟩ := Option.map_eq_some_iff.1 hd
    have hmarked : text.toList = '\uFEFF' :: cs := afterLead_eq_some_iff.1 hcs
    rw [String.toList_ofList] at htemp
    exact ⟨cs, by simp [hmarked], htemp⟩

theorem byteSize_leadingMark_le (d : Disk) (path : Path) (text : String) :
    byteSize (leadingMark text) ≤ byteSize (header d path) := by
  have hmark : byteSize (leadingMark text) ≤ 3 := by
    rcases leadingMark_cases text with h | h <;> rw [h] <;> decide
  have hlead : byteSize ['/', '/', 'l', 'i', 'n', 'e', ' '] = 7 := by decide
  have hheader : header d path = ['/', '/', 'l', 'i', 'n', 'e', ' '] ++
      ((sourcePath d path).text.toList ++ [':', '1', '\n']) := by
    simp [header, directive, ToString.toString]
  rw [hheader, byteSize_append, hlead]
  omega

/-- Behind the header and behind the mark is the same place, one line lower. -/
theorem after_header (hb : '\n' ∉ (sourcePath d path).text.toList) (text : String) :
    Place.origin.after (header d path) =
        (Place.origin.after (leadingMark text)).lowered (headed d path text) ∧
      (Place.origin.after (leadingMark text)).Movable (headed d path text) := by
  have hle := byteSize_leadingMark_le d path text
  have hmark : Place.origin.after (leadingMark text) =
      ⟨byteSize (leadingMark text), 1, 1 + (leadingMark text).length⟩ := by
    rcases leadingMark_cases text with h | h <;> rw [h] <;> rfl
  have hheader : Place.origin.after (header d path) = ⟨byteSize (header d path), 2, 1⟩ := by
    have hline : '\n' ∉ '/' :: '/' :: (directive d path).toList := by simpa using not_mem_directive hb
    have hafter := after_line .origin hline
    rw [show Place.origin.offset = 0 from rfl, Nat.zero_add] at hafter
    exact hafter
  rw [hheader, hmark]
  refine ⟨?_, le_refl 1, fun _ => Nat.le_add_left ..⟩
  simp only [Place.lowered, headed, if_true, Place.mk.injEq, true_and]
  omega

/-- **The tokens of a changed file** are those of the emitted text, one line lower. None of these
begins in front of the end of the mark. -/
theorem lex_tempText (hb : '\n' ∉ (sourcePath d path).text.toList) (hl : lex text = .ok tokens) :
    lex (tempText d path text) = .ok (tokens.map (Token.lowered (headed d path text))) ∧
      ∀ t ∈ tokens, byteSize (leadingMark text) ≤ t.span.start := by
  obtain ⟨out, htext, htemp⟩ := exists_unmarked d path text
  obtain ⟨hscan, rfl⟩ := lex_eq_ok_iff.1 hl
  obtain ⟨hplace, hmovable⟩ := after_header hb text
  -- the mark is a blank, and no line break in front of the first token ends a statement
  have hmarked : (scan text.toList).2 = (scan out).2 ∧ tokensFrom .origin false (scan text.toList).1 =
      tokensFrom (Place.origin.after (leadingMark text)) false (scan out).1 := by
    rw [htext]
    rcases leadingMark_cases text with h | h <;> rw [h]
    · rw [List.singleton_append, scan_marked]
      exact ⟨rfl, tokensFrom_other _ _ rfl _⟩
    · exact ⟨rfl, rfl⟩
  have hheaded : (scan (tempText d path text).toList).2 = (scan out).2 ∧
      tokensFrom .origin false (scan (tempText d path text).toList).1 =
        tokensFrom (Place.origin.after (header d path)) false (scan out).1 := by
    rw [htemp, header, List.append_assoc, List.singleton_append, scan_commented (not_mem_directive hb)]
    refine ⟨rfl, ?_⟩
    rw [tokensFrom_other _ _ rfl, tokensFrom_other _ _ rfl, ← Place.after_append]
    rfl
  rw [hmarked.2]
  refine ⟨lex_eq_ok_iff.2 ⟨?_, ?_⟩, fun t ht => ?_⟩
  · rw [hheaded.1, ← hmarked.1, hscan]
  · rw [hheaded.2, hplace, tokensFrom_lowered hmovable]
  · obtain ⟨before, stretch, after, -, hspan⟩ := stretch_of_mem_tokensFrom ht
    have hstart : t.span.start = byteSize (leadingMark text) + byteSize before := by
      rw [hspan, Place.spanTo, Place.offset_after, offset_origin]
    omega

/-- A stretch behind the mark has the same text in the changed file. -/
theorem textIn_tempText {s : Span} (hs : byteSize (leadingMark text) ≤ s.start) :
    (s.lowered (headed d path text)).textIn (tempText d path text) = s.textIn text := by
  obtain ⟨out, htext, htemp⟩ := exists_unmarked d path text
  have hle := byteSize_leadingMark_le d path text
  obtain ⟨k, hk⟩ := Nat.exists_eq_add_of_le hs
  have hstart : (s.lowered (headed d path text)).start = byteSize (header d path) + k := by
    simp only [Span.lowered, headed]
    omega
  have hlength : (s.lowered (headed d path text)).stop - (s.lowered (headed d path text)).start =
      s.stop - s.start := Nat.add_sub_add_right ..
  rw [Span.textIn, Span.textIn, hlength, hstart, hk, htext, htemp, cutAt_add, cutAt_add]

/-! ### The head of a source -/

/-- **No edit touches the first character** of a source: all are made behind its package clause. -/
theorem head_of_emit {source : String} {as : List Action}
    (hf : SourceFile.parse path source = .ok file) (ho : Owned file as)
    (hemit : ((Patch.new file).act as).emit = .ok text) :
    text.toList.head? = source.toList.head? := by
  have hcollected := (Collected.new file).act as
  rw [List.nil_append] at hcollected
  have hr := ho.redirections (Collected.new file)
  have hsited := sited_of_parse hf
  have htext := text_of_collected hsited hcollected hr hemit
  obtain ⟨head, segs, hl⟩ := exists_layout .default hf
  obtain ⟨-, rfl, -⟩ := parse_eq_ok hf
  have hsource : file.source.toList =
      Piece.joined (head.pieces file.package) ++ Piece.joined (piecesOf segs) := by
    rw [hl.source, joined_append]
  have hne : Piece.joined (head.pieces file.package) ≠ [] := by
    have hkeyword : TokenKind.text (.keyword .kwPackage) ≠ "" := by decide
    simp [Head.pieces, Head.clause, Piece.text, hkeyword]
  -- no edit begins in front of the end of the package clause
  have hbehind : ∀ e ∈ ((Patch.new file).act as).addedImports.map (importEdit file.anchor) ++
      (redirections (.new file) as).map Redirection.edit,
      0 + byteSize (Piece.joined (head.pieces file.package)) ≤ e.start := by
    have hoffset : file.anchor.offset = byteSize (Piece.joined (head.pieces file.package)) := by
      rw [hl.anchor, offset_stop]
    intro e he
    rw [Nat.zero_add, ← hoffset]
    rcases List.mem_append.1 he with he | he
    · exact (importEdit_start he).1.ge
    · obtain ⟨r, hmem, rfl⟩ := List.mem_map.1 he
      exact (hsited.behind _ (hr r hmem)).1
  rw [htext, hsource, substituted, String.toList_append, String.toList_ofList, hsource,
    substitute_keep hbehind, List.append_assoc, List.head?_append_of_ne_nil _ hne,
    List.head?_append_of_ne_nil _ hne]

/-! ### All that a changed file carries -/

/-- What a changed file has of the text `emitted`, with its places moved by `m`: each of its tokens,
and all that it declares. -/
structure Carries (m : Shift) (path : Path) (emitted changed : String) : Prop where
  tokens : ∃ tokens, lex emitted = .ok tokens ∧ lex changed = .ok (tokens.map (Token.lowered m)) ∧
    ∀ t ∈ tokens, (t.span.lowered m).textIn changed = t.span.textIn emitted
  parts : ∃ file, SourceFile.parse path emitted = .ok file ∧
    (∀ temp, SourceFile.parse temp changed =
      .ok { file.toFileParts.lowered m with path := temp, source := changed }) ∧
    ∀ call ∈ file.callSites, (call.lowered m).argTexts changed = call.argTexts emitted

theorem ofTokens_of_parse (hf : SourceFile.parse path text = .ok file) (hl : lex text = .ok tokens) :
    FileParts.ofTokens tokens = .ok file.toFileParts := by
  obtain ⟨tokens', hlex, hparts⟩ := bind_eq_ok (parse_iff_ofText.1 hf).1
  obtain rfl : tokens = tokens' := Except.ok.inj (hl.symm.trans hlex)
  exact hparts

/-- **A changed file carries** any text that is a source file. -/
theorem carries_tempText (hb : '\n' ∉ (sourcePath d path).text.toList)
    (hf : SourceFile.parse path text = .ok file) :
    Carries (headed d path text) path text (tempText d path text) := by
  obtain ⟨-, -, tokens, -, -, -, -, -, hlex, -⟩ := parse_eq_ok hf
  obtain ⟨htemp, hstart⟩ := lex_tempText hb hlex
  refine ⟨⟨tokens, hlex, htemp, fun t ht => textIn_tempText (hstart t ht)⟩,
    ⟨file, hf, fun temp => ?_, fun call hcall => ?_⟩⟩
  · have hparts := ofTokens_lowered (m := headed d path text) (ofTokens_of_parse hf hlex)
    refine parse_iff_ofText.2 ⟨?_, rfl, rfl⟩
    simp only [FileParts.ofText, htemp, hparts, bind, Except.bind]
  · simp only [CallSite.argTexts, CallSite.lowered, List.map_map]
    refine List.map_congr_left fun arg harg => textIn_tempText ?_
    obtain ⟨t, ht, hbegins⟩ := begins_of_mem_callSites hf hlex hcall arg harg
    exact hbegins ▸ hstart t ht

/-- **What is written for a changed source.** Whatever was asked of a file, the text that is written
carries the one that is emitted, one line lower, without the byte order mark that led the source. The
path that the header names must have no line break. -/
theorem tempText_of_emit {source : String} {as : List Action}
    (hf : SourceFile.parse path source = .ok file) (hb : '\n' ∉ (sourcePath d path).text.toList)
    (ho : Owned file as) (hemit : ((Patch.new file).act as).emit = .ok text) :
    Carries (headed d path text) path text (tempText d path text) ∧
      (∃ out, text.toList = leadingMark source ++ out ∧
        (tempText d path text).toList = header d path ++ out) ∧
      ∀ tempDir temp d', emitTemp d tempDir ((Patch.new file).act as) = (some temp, d') →
        d'.readText temp = .ok (tempText d path text) := by
  have hpath : ((Patch.new file).act as).file.path = path := by
    rw [((Collected.new file).act as).file_eq, (parse_eq_ok hf).1]
  refine ⟨?_, ?_, fun tempDir temp d' hwritten => ?_⟩
  · obtain ⟨-, -, -, file', hparse⟩ := emit_eq_ok_iff.1 hemit
    rw [hpath] at hparse
    exact carries_tempText hb hparse
  · have hmark : leadingMark source = leadingMark text := by
      rw [leadingMark, leadingMark, head_of_emit hf ho hemit]
    rw [hmark]
    exact exists_unmarked d path text
  · obtain ⟨text', k, loc, hemit', -, -, -, -, hread⟩ := emitTemp_eq_some hwritten
    obtain rfl : text = text' := Except.ok.inj (hemit.symm.trans hemit')
    rw [hpath] at hread
    exact hread

/-- A source with a byte order mark, and a subtest. -/
def markedSource : String :=
  "\uFEFFpackage p\n\nimport \"testing\"\n\nfunc TestA(t *testing.T) \x7b\n\tt.Run(\"a\", nil)\n\x7d\n"

/-- A disk without files, in a working directory. -/
def workDisk : Disk := { nodes := [], cwd := ["w"] }

theorem tempText_of_markedSource : ∃ file text,
    SourceFile.parse ⟨"a_test.go"⟩ markedSource = .ok file ∧
    (Patch.targets file .default).length = 1 ∧
    ((Patch.new file).act [.instrument .default]).emit = .ok text ∧
    Carries (headed workDisk ⟨"a_test.go"⟩ text) ⟨"a_test.go"⟩ text
      (tempText workDisk ⟨"a_test.go"⟩ text) ∧
    ∃ out, text.toList = '\uFEFF' :: out ∧ (tempText workDisk ⟨"a_test.go"⟩ text).toList =
      "//line /w/a_test.go:1\n".toList ++ out := by
  obtain ⟨file, hf, -, htargets, hsorted, hmade⟩ := exists_parsed
    (by decide +kernel : (SourceFile.parse ⟨"a_test.go"⟩ markedSource).toOption.any (fun file =>
      (Patch.targets file .default).length = 1 ∧
      ((Patch.new file).act [.instrument .default]).edits.Pairwise
        (fun a b => a.precedes b = true) ∧
      (splice 0 ((Patch.new file).act [.instrument .default]).file.source.toList
          ((Patch.new file).act [.instrument .default]).edits).toOption.any (fun out =>
        (SourceFile.parse ((Patch.new file).act [.instrument .default]).file.path (String.ofList out ++
          ((Patch.new file).act [.instrument .default]).appended)).isOk) = true) = true)
  obtain ⟨text, hemit⟩ := emit_of_sorted hsorted hmade
  have ho : Owned file [.instrument .default] := fun r hr => by simp at hr
  obtain ⟨hcarries, ⟨out, htext, htemp⟩, -⟩ := tempText_of_emit (d := workDisk) hf
    (by decide +kernel) ho hemit
  exact ⟨file, text, hf, htargets, hemit, hcarries, out, htext, htemp⟩

end TestWeave.Build
