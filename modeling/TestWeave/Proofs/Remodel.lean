import TestWeave.Proofs.Regrow
import TestWeave.Proofs.Sites

/-!
# The model of a changed source

A source that parses still parses when it has been changed and can be scanned, and declares the
same: the added imports stand in front of its own, and a suite entry is one more test at the end.

* `exists_woven`: the tokens of the source and of its new pieces.
* `parse_of_woven`: the outline of a source with woven tokens.
* `parse_changed`: the outline of a changed source that can be scanned.
-/

namespace TestWeave.Source

open TestWeave.Text TestWeave.Change

variable {file : SourceFile} {sdk : Instrumentation} {q : String} {head : Head}
  {segs : List Segment} {adds : List (String × String)}

/-! ### The tokens -/

/-- The tokens of a source: those of its package clause, and those of its segments. -/
theorem Layout.kinds (hl : Layout file sdk head segs) :
    ∃ tokens ks, lex file.source = .ok tokens ∧
      tokens.map Token.kind = clauseKinds file.package ++ ks ∧
      kindsFrom head.semi.isNone (piecesOf segs) = head.semiKinds ++ ks := by
  obtain ⟨keyword, name, semi, rest, hlex, hsemi, htokens⟩ := hl.tokens
  have hold : kindsFrom head.semi.isNone (piecesOf segs) =
      head.semiKinds ++ rest.map Token.kind := by
    rw [← kinds_tokensFrom (head.stop file.package), htokens, Head.semiKinds]
    cases head.semi.isNone <;> simp [hsemi]
  refine ⟨_, _, hlex, ?_, hold⟩
  obtain ⟨-, heq⟩ := lex_eq_ok_iff.1 hlex
  rw [heq, kinds_tokensFrom, hl.source, scan_joined hl.row]
  have := kinds_changed file.package hl.before hl.gap hl.semi [] hold
  rwa [importsPieces, List.flatMap_nil, List.append_nil] at this

/-- **The tokens behind the package clause**, of the source and of its new pieces. -/
theorem exists_woven (hl : Layout file sdk head segs) (hq : ∀ c ∈ q.toList, isPathChar c = true)
    (he : ∀ s ∈ sitesOf segs, IsName s.2) (hg : Legible q segs) :
    ∃ tokens ks ks', lex file.source = .ok tokens ∧
      tokens.map Token.kind = clauseKinds file.package ++ ks ∧ Woven [] ks (ks' ++ [.eof]) ∧
      (∀ kind ∈ ks', kind ≠ .eof) ∧
      kindsFrom head.semi.isNone (freshOf q segs) = head.semiKinds ++ (ks' ++ [.eof]) ∧
      ∀ more, kindsFrom head.semi.isNone (freshOf q segs ++ .lineBreak :: more) =
        head.semiKinds ++ (ks' ++ kindsFrom false more) := by
  obtain ⟨tokens, rest, hlex, hkinds, hold⟩ := hl.kinds
  have hwoven := woven_fresh hq he hl.placed hl.row_segs hg (.inl (rfl : head.semi.isNone = _))
  have hfresh := row_fresh hq (fun s hs => (he s hs).forall_mem) hl.placed hl.row_segs hg
  obtain ⟨ks, hend, heof, hmore⟩ := kindsFrom_break hfresh head.semi.isNone
  rw [hold, hend] at hwoven
  -- the semicolon of the package clause comes first in both
  cases hs : head.semi.isNone with
  | false =>
    have hnone : head.semiKinds = [] := by rw [Head.semiKinds, hs]; rfl
    rw [hnone] at hwoven ⊢
    rw [hs] at hend hmore
    exact ⟨_, _, ks, hlex, hkinds, hwoven, heof, hend, hmore⟩
  | true =>
    have hone : head.semiKinds = [.operator .semi] := by rw [Head.semiKinds, hs]; rfl
    rw [hone] at hwoven ⊢
    rw [hs] at hend hmore
    obtain ⟨ks'', hks, hwoven⟩ := hwoven.top
    cases ks with
    | nil => simp at hks
    | cons kind ks =>
      obtain ⟨rfl, rfl⟩ : kind = .operator .semi ∧ ks'' = ks ++ [.eof] := by
        simpa [eq_comm] using hks
      refine ⟨_, _, ks, hlex, hkinds, hwoven, fun kind hk => heof kind (by simp [hk]), hend, ?_⟩
      exact hmore

/-- The pieces of what is appended. -/
def tailPieces (entry : Option String) (testing os q run : String) : List Piece :=
  match entry with
  | none => []
  | some var => entryFront testing os var ++ ((scan (calleeText q run)).1 ++ entryBack var)

/-- The tokens of a suite entry, behind its first line break. -/
theorem kinds_entry (testing os var : String) {s : List Char} (hs : ∀ c ∈ s, isSoft c = true) :
    kindsFrom false ((entryFront testing os var).tail ++ ((scan s).1 ++ entryBack var)) =
      entryKinds testing os var (textKinds s) := by
  obtain ⟨armed, hsoft⟩ := kindsFrom_tokens (textKinds s) false (entryBack var)
  rw [← scan_soft hs] at hsoft
  have hfront : ∀ rest, kindsFrom false ((entryFront testing os var).tail ++ rest) =
      [.keyword .kwFunc, .ident Known.suiteEntry, .operator .lparen, .ident var, .operator .star,
        .ident testing, .operator .dot, .ident Known.driverType, .operator .rparen,
        .operator .lbrace, .ident os, .operator .dot, .ident Known.exitFunction,
        .operator .lparen] ++ kindsFrom false rest := fun _ => rfl
  rw [hfront, hsoft, entryKinds]
  rfl

/-! ### The outline -/

theorem plain_of_clauseKinds (package : String) (adds : List (String × String)) :
    ∀ kind ∈ clauseKinds package ++ adds.flatMap importKinds, kind.isPlain = true := by
  intro kind hk
  simp only [clauseKinds, importKinds, List.mem_append, List.mem_cons, List.mem_flatMap,
    List.not_mem_nil, or_false] at hk
  rcases hk with (rfl | rfl | rfl) | ⟨a, -, rfl | rfl | rfl | rfl⟩ <;> rfl

/-- **The outline of a source with woven tokens**: those of the source and of the new text differ by
what is added behind the package clause, by plain tokens in bodies, and by a suite entry. -/
theorem parse_of_woven {path : Path} {source : String}
    (hf : SourceFile.parse path source = .ok file) {tokens : List Token} {ks ks' : List TokenKind}
    (hlex : lex source = .ok tokens)
    (hkinds : tokens.map Token.kind = clauseKinds file.package ++ ks)
    (hwoven : Woven [] ks (ks' ++ [.eof])) (heof : ∀ kind ∈ ks', kind ≠ .eof)
    (ha : ∀ a ∈ adds, Addable a) {entry : Option String} {testing os : String}
    {callee : List TokenKind}
    (ht : entry.isSome = true → file.localName? Known.testingPackage = some testing)
    (hc : ∀ kind ∈ callee, kind.isPlain = true) {text : String} {tokens' : List Token}
    (hlex' : lex text = .ok tokens')
    (hkinds' : tokens'.map Token.kind = clauseKinds file.package ++
      (adds.flatMap importKinds ++ (ks' ++ tailKinds entry testing os callee))) :
    ∃ file', SourceFile.parse path text = .ok file' ∧
      file'.outline.imports = (file.outline.extended adds entry).imports ∧
      ((∀ a ∈ adds, a.1 ≠ Known.testingPackage) →
        file'.outline = file.outline.extended adds entry) := by
  obtain ⟨-, -, tokens₁, trees, clause, decls, specs, its, hlex₁, hb, hd, hp⟩ := parse_eq_ok hf
  rw [hlex] at hlex₁
  obtain rfl : tokens = tokens₁ := by simpa using hlex₁
  obtain ⟨pre, rest, rfl, hpre, rfl⟩ := List.map_eq_append_iff.1 hkinds
  rw [← List.append_assoc, ← List.append_assoc] at hkinds'
  obtain ⟨front', tail, rfl, hfront', htail⟩ := List.map_eq_append_iff.1 hkinds'
  obtain ⟨pre', rest', rfl, hpre', rfl⟩ := List.map_eq_append_iff.1 hfront'
  have hplain : ∀ token ∈ pre', token.kind.isPlain = true := fun token hm =>
    plain_of_clauseKinds _ adds _ (hpre' ▸ List.mem_map_of_mem hm)
  have hplain' : ∀ token ∈ pre, token.kind.isPlain = true := fun token hm =>
    plain_of_clauseKinds _ [] _ (by
      rw [List.flatMap_nil, List.append_nil, ← hpre]
      exact List.mem_map_of_mem hm)
  -- the trees, without and with the suite entry
  have hlast : (rest' ++ [Token.mk .eof default]).map Token.kind = rest'.map Token.kind ++ [.eof] := by
    simp
  rw [← hlast] at hwoven
  obtain ⟨trees₁, ts, hb₁, hs₀, hs₁⟩ := build_front hplain' hplain hwoven hb
  rw [← List.append_assoc] at hb₁
  have hne : ∀ token ∈ pre' ++ rest', token.kind ≠ .eof := by
    intro token hm
    rcases List.mem_append.1 hm with hm | hm
    · exact (TokenKind.isPlain_iff.1 (hplain token hm)).2.2
    · exact heof _ (List.mem_map_of_mem hm)
  obtain ⟨trees₂, hb₂, hs₂⟩ := build_tail rfl hne hb₁ hc htail
  rw [hs₁, hpre'] at hs₂
  rw [hpre] at hs₀
  obtain ⟨decls', hd', hsketch⟩ := splitDecls_changed hd hs₀ hs₂
  -- the outline
  obtain ⟨parts₀, hparts₀, himports, houtline⟩ := exists_extended hp.ofDecls ha ht
  have hview := ofDecls_sketch decls'
  rw [hsketch, hparts₀, view_ok] at hview
  obtain ⟨parts, hparts, hsame⟩ := view_eq_some hview.symm
  refine ⟨{ parts with path, source := text }, ?_,
    (congrArg Outline.imports hsame).trans himports, fun hne => hsame.trans (houtline hne)⟩
  refine parse_iff_ofText.2 ⟨?_, rfl, rfl⟩
  simp only [FileParts.ofText, FileParts.ofTokens, hlex', hb₂, hd', hparts, bind, Except.bind]

/-- **The outline of a changed source** that can be scanned: that of the source with the added
imports and the suite entry. -/
theorem parse_changed {path : Path} {source : String} (hf : SourceFile.parse path source = .ok file)
    (hl : Layout file sdk head segs) (hq : ∀ c ∈ q.toList, isPathChar c = true)
    (he : ∀ s ∈ sitesOf segs, IsName s.2) (hg : Legible q segs)
    (ha : ∀ a ∈ adds, Addable a) {entry : Option String}
    {testing os callee run : String}
    (ht : entry.isSome = true → file.localName? Known.testingPackage = some testing)
    (hc : ∀ c ∈ calleeText callee run, isSoft c = true)
    {text : String}
    (hscan : scan text.toList = (head.pieces file.package ++
      importsPieces head.semi.isSome adds ++ freshOf q segs ++
        tailPieces entry testing os callee run, none)) :
    ∃ file', SourceFile.parse path text = .ok file' ∧
      file'.outline.imports = (file.outline.extended adds entry).imports ∧
      ((∀ a ∈ adds, a.1 ≠ Known.testingPackage) →
        file'.outline = file.outline.extended adds entry) := by
  obtain ⟨-, hsource, -⟩ := parse_eq_ok hf
  obtain ⟨tokens, ks, ks', hlex, hkinds, hwoven, heof, hfresh, hmore⟩ := exists_woven hl hq he hg
  rw [hsource] at hlex
  -- the tokens of the new text
  obtain ⟨tokens', hlex', hkinds'⟩ := lex_of_scan hscan
  have hnew : kindsFrom head.semi.isNone
      (freshOf q segs ++ tailPieces entry testing os callee run) = head.semiKinds ++
        (ks' ++ tailKinds entry testing os (textKinds (calleeText callee run))) := by
    cases entry with
    | none =>
      rw [tailPieces, List.append_nil]
      exact hfresh
    | some var =>
      have := hmore ((entryFront testing os var).tail ++
        ((scan (calleeText callee run)).1 ++ entryBack var))
      rwa [kinds_entry testing os var hc] at this
  rw [List.append_assoc _ (freshOf q segs),
    kinds_changed file.package hl.before hl.gap hl.semi adds hnew] at hkinds'
  exact parse_of_woven hf hlex hkinds hwoven heof ha ht (plain_of_mem_textKinds hc) hlex' hkinds'

end TestWeave.Source
