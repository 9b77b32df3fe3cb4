import TestWeave.Host.Disk
import TestWeave.Proofs.Attempts

/-!
# Files that are written and opened

A path leads to the same place after a file has been written, and to another place than the path of
another name in the same directory.

* `lookup_eq_ok_iff`, `readText_eq_ok_iff`: what is found, and what is read.
* `readText_write`, `readText_touch`: what is read from files that were written or opened.
* `Saving`: what a write that may fail comes to.
* `resolve_join`: two names in one directory.
-/

namespace TestWeave

namespace Host.Disk

variable {d d' : Disk} {p : Path} {here loc loc' : Location}

/-! ### Walks -/

/-- Names are looked up in directories only. -/
theorem directory_of_walk {name : String} {names : List String}
    (h : d.walk here (name :: names) = .ok loc) : d.get? here = some .directory := by
  unfold walk at h
  split at h
  · simp at h
  · simp at h
  · assumption

theorem walk_of_directory (name : String) (names : List String)
    (h : d.get? here = some .directory) :
    d.walk here (name :: names) =
      if name = "." then d.walk here names
      else if name = ".." then d.walk here.dropLast names
      else if nameLimit < name.utf8ByteSize then .error .nameTooLong
      else d.walk (here ++ [name]) names := by
  rw [walk, h]

theorem walk_append (here : Location) (names names' : List String) :
    d.walk here (names ++ names') = d.walk here names >>= fun h => d.walk h names' := by
  induction names generalizing here with
  | nil => rfl
  | cons name names ih =>
    by_cases h : d.get? here = some .directory
    · rw [List.cons_append, walk_of_directory _ _ h, walk_of_directory _ _ h]
      split
      · exact ih _
      split
      · exact ih _
      split
      · rfl
      · exact ih _
    · rw [List.cons_append, walk, walk]
      split
      · rfl
      · rfl
      · contradiction

/-- The last name of a path is looked up in a directory. -/
theorem walk_name {name : String} (h : name ≠ ".") (h' : name ≠ "..") :
    d.walk here [name] = .ok loc ↔
      d.get? here = some .directory ∧ name.utf8ByteSize ≤ nameLimit ∧ loc = here ++ [name] := by
  constructor
  · intro hw
    have hd := directory_of_walk hw
    rw [walk_of_directory _ _ hd, if_neg h, if_neg h'] at hw
    split at hw
    · simp at hw
    · obtain rfl : here ++ [name] = loc := by simpa [walk] using hw
      exact ⟨hd, by omega, rfl⟩
  · rintro ⟨hd, hlimit, rfl⟩
    rw [walk_of_directory _ _ hd, if_neg h, if_neg h', if_neg (by omega), walk]

/-- What is no directory can be replaced without changing where names lead. -/
theorem walk_set {names : List String} {node : Node} (hd : d.get? loc' ≠ some .directory)
    (h : d.walk here names = .ok loc) : (d.set loc' node).walk here names = .ok loc := by
  induction names generalizing here with
  | nil => exact h
  | cons name names ih =>
    have hdir := directory_of_walk h
    -- the walk goes through directories only, and none of them is replaced
    have hne : here ≠ loc' := by
      rintro rfl
      exact hd hdir
    rw [walk_of_directory _ _ hdir] at h
    rw [walk_of_directory _ _ ((get?_set_ne d node hne).trans hdir)]
    by_cases hhere : name = "."
    · rw [if_pos hhere] at h ⊢
      exact ih h
    rw [if_neg hhere] at h ⊢
    by_cases hup : name = ".."
    · rw [if_pos hup] at h ⊢
      exact ih h
    rw [if_neg hup] at h ⊢
    by_cases hlimit : nameLimit < name.utf8ByteSize
    · rw [if_pos hlimit] at h
      simp at h
    · rw [if_neg hlimit] at h ⊢
      exact ih h

/-! ### Files -/

theorem resolve_eq_ok_iff : d.resolve p = .ok loc ↔
    p.text.isEmpty = false ∧ p.text.toList.contains '\x00' = false ∧
      p.text.utf8ByteSize ≤ pathLimit ∧
      d.walk (if p.isAbsolute then [] else d.cwd) (namesOf p) = .ok loc := by
  unfold resolve
  cases p.text.isEmpty with
  | true => simp
  | false =>
    cases p.text.toList.contains '\x00' with
    | true => simp
    | false =>
      rw [if_neg Bool.false_ne_true, if_neg Bool.false_ne_true]
      by_cases hlimit : pathLimit < p.text.utf8ByteSize
      · simp [hlimit, Nat.not_le.2 hlimit]
      · simp [hlimit, Nat.not_lt.1 hlimit]

theorem resolve_set {node : Node} (hd : d.get? loc' ≠ some .directory)
    (h : d.resolve p = .ok loc) : (d.set loc' node).resolve p = .ok loc := by
  obtain ⟨hempty, hnul, hlimit, hwalk⟩ := resolve_eq_ok_iff.1 h
  exact resolve_eq_ok_iff.2 ⟨hempty, hnul, hlimit, walk_set hd hwalk⟩

/-! ### What is found -/

/-- **What a path names** is at its location; a path with a slash at its end names no file. -/
theorem lookup_eq_ok_iff {node : Node} : d.lookup p = .ok node ↔ ∃ loc, d.resolve p = .ok loc ∧
    d.get? loc = some node ∧ (endsWithSlash p = true → node = .directory) := by
  unfold lookup
  cases d.resolve p with
  | error => simp [bind, Except.bind]
  | ok loc =>
    simp only [bind, Except.bind, Except.ok.injEq, exists_eq_left']
    cases d.get? loc with
    | none => simp [throw, throwThe, MonadExceptOf.throw]
    | some found =>
      cases found with
      | directory =>
        simp only [pure, Except.pure, Except.ok.injEq, Option.some.injEq]
        exact ⟨fun h => ⟨h, fun _ => h.symm⟩, fun h => h.1⟩
      | file content executable =>
        cases endsWithSlash p with
        | false => simp [pure, Except.pure]
        | true =>
          simp only [if_true, throw, throwThe, MonadExceptOf.throw, reduceCtorEq, false_iff]
          rintro ⟨heq, hdir⟩
          rw [hdir trivial] at heq
          cases heq

/-- What is found depends on what the path leads to and on what is there. -/
theorem lookup_congr (hr : d.resolve p = .ok loc) (hr' : d'.resolve p = .ok loc)
    (hg : d'.get? loc = d.get? loc) : d'.lookup p = d.lookup p := by
  unfold lookup
  rw [hr, hr']
  simp only [bind, Except.bind, hg]

/-- **A text that can be read** is that of a file. -/
theorem readText_eq_ok_iff {text : String} : d.readText p = .ok text ↔
    ∃ loc content executable, d.resolve p = .ok loc ∧
      d.get? loc = some (.file content executable) ∧ endsWithSlash p = false ∧
      Text.Utf8.decode? content = some text := by
  unfold readText read
  constructor
  · intro h
    obtain ⟨bytes, hread, h⟩ := bind_eq_ok h
    obtain ⟨node, hlookup, hread⟩ := bind_eq_ok hread
    obtain ⟨loc, hr, hg, hslash⟩ := lookup_eq_ok_iff.1 hlookup
    cases node with
    | directory => cases hread
    | file content executable =>
      obtain rfl := Except.ok.inj hread
      split at h
      · rename_i decoded hdecode
        obtain rfl := Except.ok.inj h
        exact ⟨loc, content, executable, hr, hg, by simpa using hslash, hdecode⟩
      · cases h
  · rintro ⟨loc, content, executable, hr, hg, hs, hdecode⟩
    rw [lookup_eq_ok_iff.2 ⟨loc, hr, hg, by simp [hs]⟩]
    simp only [bind, Except.bind, pure, Except.pure, hdecode]

theorem readText_congr (hr : d.resolve p = .ok loc) (hr' : d'.resolve p = .ok loc)
    (hg : d'.get? loc = d.get? loc) : d'.readText p = d.readText p := by
  unfold readText read
  rw [lookup_congr hr hr' hg]

/-! ### Files that are opened -/

/-- A file that is opened keeps what is in it. -/
theorem openForWriting_eq_ok {content : ByteArray} {executable : Bool}
    (h : d.openForWriting p = .ok (loc, content, executable)) :
    d.resolve p = .ok loc ∧ endsWithSlash p = false ∧
      ∀ node, d.get? loc = some node → node = .file content executable := by
  obtain ⟨found, hr, h⟩ := bind_eq_ok h
  cases hs : endsWithSlash p with
  | true => rw [hs] at h; cases h
  | false =>
    rw [hs, if_neg Bool.false_ne_true] at h
    simp only [pure, Except.pure] at h
    split at h
    · cases h
    · rename_i hg
      cases h
      exact ⟨hr, rfl, fun node hn => Option.some.inj (hn.symm.trans hg)⟩
    · rename_i hg
      cases h
      exact ⟨hr, rfl, fun node hn => by simp [hg] at hn⟩

theorem touch_eq_ok (h : d.touch p = .ok d') :
    ∃ loc content executable, d.resolve p = .ok loc ∧
      (∀ node, d.get? loc = some node → node = .file content executable) ∧
      d' = d.set loc (.file content executable) := by
  obtain ⟨⟨loc, content, executable⟩, ho, h⟩ := bind_eq_ok h
  obtain ⟨hr, -, hd⟩ := openForWriting_eq_ok ho
  exact ⟨loc, content, executable, hr, hd, (Except.ok.inj h).symm⟩

theorem write_eq_ok {content : ByteArray} (h : d.write p content = .ok d') :
    ∃ loc executable, d.resolve p = .ok loc ∧ endsWithSlash p = false ∧
      d.get? loc ≠ some .directory ∧ d' = d.set loc (.file content executable) := by
  obtain ⟨⟨loc, old, executable⟩, ho, h⟩ := bind_eq_ok h
  obtain ⟨hr, hs, hd⟩ := openForWriting_eq_ok ho
  exact ⟨loc, executable, hr, hs, fun hdir => by simpa using hd _ hdir, (Except.ok.inj h).symm⟩

/-- **What was written is read**, if it is a text. -/
theorem readText_of_write {content : ByteArray} (h : d.write p content = .ok d') :
    d'.readText p = match Text.Utf8.decode? content with
      | some text => .ok text
      | none => .error .notText := by
  obtain ⟨loc, executable, hr, hs, hd, rfl⟩ := write_eq_ok h
  have hne : loc ≠ [] := by
    rintro rfl
    exact hd rfl
  unfold readText read
  rw [lookup_eq_ok_iff.2 ⟨loc, resolve_set hd hr, get?_set_self d _ hne, by simp [hs]⟩]
  rfl

theorem readText_write {text : String} (h : d.write p text.toUTF8 = .ok d') :
    d'.readText p = .ok text := by
  rw [readText_of_write h, Text.Utf8.decode?_toUTF8]

/-- What stands elsewhere is read as before. -/
theorem readText_set {node : Node} (hr : d.resolve p = .ok loc) (hd : d.get? loc' ≠ some .directory)
    (hne : loc ≠ loc') : (d.set loc' node).readText p = d.readText p :=
  readText_congr hr (resolve_set hd hr) (get?_set_ne d _ hne)

/-- What is removed is not what stands elsewhere. -/
theorem get?_remove (h : loc.isPrefixOf loc' = false) : (d.remove loc).get? loc' = d.get? loc' := by
  unfold get? remove
  split
  · rfl
  · rw [List.find?_filter]
    congr 2
    funext e
    by_cases he : e.1 = loc'
    · simp [he, h]
    · simp [he]

/-- A file that another path leads to can be opened without changing what is read. -/
theorem readText_touch {other : Path} (h : d.touch other = .ok d') (hr : d.resolve p = .ok loc)
    (ho : d.resolve other = .ok loc') (hne : loc ≠ loc') : d'.readText p = d.readText p := by
  obtain ⟨found, content, executable, hr', hd, rfl⟩ := touch_eq_ok h
  obtain rfl : loc' = found := by simpa [ho] using hr'
  exact readText_set hr (fun hdir => by simpa using hd _ hdir) hne

/-! ### Writes that may fail -/

/-- Every write gets through that finds a place to write to. -/
def Reliable (d : Disk) : Prop := ∀ nodes loc content, d.system.trouble nodes loc content = none

/-- What gets in the way of a write, be it at the path or later on. -/
def trouble? (d : Disk) (p : Path) (content : ByteArray) : Option Trouble :=
  match d.openForWriting p with
  | .error e => some ⟨e, none⟩
  | .ok (loc, _, _) => d.system.trouble d.nodes loc content

/-- What is left of a write to a file that could be opened. -/
theorem put_cases (d : Disk) (loc : Location) (executable : Bool) (content : ByteArray) :
    d.put loc executable content = (.ok (), d.set loc (.file content executable)) ∨
      ∃ e, d.put loc executable content = (.error e, d) ∨ ∃ count, d.put loc executable content =
        (.error e, d.set loc (.file (content.extract 0 count) executable)) := by
  unfold put
  rcases d.system.trouble d.nodes loc content with _ | ⟨cause, _ | count⟩
  · exact .inl rfl
  · exact .inr ⟨cause, .inl rfl⟩
  · exact .inr ⟨cause, .inr ⟨count, rfl⟩⟩

/-- **What saving a content comes to**: it is written, or nothing is, or its first bytes are. -/
inductive Saving (d : Disk) (p : Path) (content : ByteArray) : Option Trouble → Disk → Prop
  | whole {t} : d.write p content = .ok t → d.Saving p content none t
  | refused {e} : d.Saving p content (some ⟨e, none⟩) d
  | torn {e count t} : d.write p (content.extract 0 count) = .ok t →
      d.Saving p content (some ⟨e, some count⟩) t

theorem saving_save (d : Disk) (p : Path) (content : ByteArray) :
    d.Saving p content (d.trouble? p content) (d.save p content).2 := by
  unfold save trouble?
  cases ho : d.openForWriting p with
  | error e => exact .refused
  | ok opened =>
    obtain ⟨loc, old, executable⟩ := opened
    have hwrite : ∀ bytes, d.write p bytes = .ok (d.set loc (.file bytes executable)) := by
      intro bytes
      rw [write, ho]
      rfl
    simp only [put]
    rcases d.system.trouble d.nodes loc content with _ | ⟨cause, _ | count⟩
    · exact .whole (hwrite content)
    · exact .refused
    · exact .torn (hwrite _)

theorem save_fst (d : Disk) (p : Path) (content : ByteArray) : (d.save p content).1 =
    match d.trouble? p content with
    | none => .ok ()
    | some trouble => .error trouble.cause := by
  unfold save trouble?
  cases d.openForWriting p with
  | error e => rfl
  | ok opened =>
    simp only [put]
    rcases d.system.trouble d.nodes opened.1 content with _ | ⟨cause, _ | count⟩ <;> rfl

/-- What was saved is written. -/
theorem save_eq_ok {content : ByteArray} (h : d.save p content = (.ok (), d')) :
    d.trouble? p content = none ∧ d.write p content = .ok d' := by
  have hfst := save_fst d p content
  have hsaving := saving_save d p content
  rw [h] at hfst hsaving
  cases ht : d.trouble? p content with
  | none =>
    rw [ht] at hsaving
    cases hsaving with
    | whole hw => exact ⟨rfl, hw⟩
  | some trouble =>
    rw [ht] at hfst
    cases hfst

/-- What could not be saved is left out, but for its first bytes. -/
theorem save_eq_error {content : ByteArray} {e : IoError} (h : d.save p content = (.error e, d')) :
    ∃ trouble, d.trouble? p content = some trouble ∧ d.Saving p content (some trouble) d' := by
  have hfst := save_fst d p content
  have hsaving := saving_save d p content
  rw [h] at hfst hsaving
  cases ht : d.trouble? p content with
  | none =>
    rw [ht] at hfst
    cases hfst
  | some trouble => exact ⟨trouble, rfl, ht ▸ hsaving⟩

/-- What holds of a disk, and of it with anything written to a file, holds when that was tried. -/
theorem save_disk {R : Disk → Prop} {content : ByteArray} (same : R d)
    (written : ∀ bytes t, d.write p bytes = .ok t → R t) : R (d.save p content).2 := by
  have hsaving := saving_save d p content
  generalize d.trouble? p content = trouble at hsaving
  generalize (d.save p content).2 = t at hsaving ⊢
  cases hsaving with
  | whole hw => exact written _ _ hw
  | refused => exact same
  | torn hw => exact written _ _ hw

theorem Reliable.save_eq (hd : d.Reliable) {content : ByteArray} (h : d.write p content = .ok d') :
    d.save p content = (.ok (), d') := by
  obtain ⟨⟨loc, old, executable⟩, ho, h⟩ := bind_eq_ok h
  obtain rfl := Except.ok.inj h
  unfold save
  rw [ho]
  simp only [put, hd d.nodes loc content]

/-- Where writes get through, nothing is left of one that finds no place. -/
theorem Reliable.save_eq_error (hd : d.Reliable) {content : ByteArray} {e : IoError}
    (h : d.save p content = (.error e, d')) : d' = d := by
  unfold save at h
  cases ho : d.openForWriting p with
  | error =>
    rw [ho] at h
    exact (Prod.mk.inj h).2.symm
  | ok opened =>
    rw [ho] at h
    simp only [put, hd d.nodes] at h
    cases h

/-! ### Names in a directory -/

/-- A name behind what ends in a slash, or behind nothing. -/
theorem exists_lead (dir : Path) : ∃ lead : String,
    (lead = "" ∨ ∃ body, lead.toList = body ++ ['/']) ∧
      ∀ name : Path, name.isAbsolute = false → dir.join name = ⟨lead ++ name.text⟩ := by
  by_cases hempty : dir.text.isEmpty = true
  · refine ⟨"", .inl rfl, fun name hn => ?_⟩
    rw [Path.join, hempty, Bool.or_true, if_pos rfl, String.empty_append]
  have hempty := eq_false_of_ne_true hempty
  by_cases hslash : dir.text.toList.getLast? = some '/'
  · obtain ⟨body, hbody⟩ := List.getLast?_eq_some_iff.1 hslash
    refine ⟨dir.text, .inr ⟨body, hbody⟩, fun name hn => ?_⟩
    rw [Path.join, hempty, hn, Bool.or_false, if_neg Bool.false_ne_true, if_pos hslash]
  · refine ⟨dir.text ++ "/", .inr ⟨dir.text.toList, by simp⟩, fun name hn => ?_⟩
    rw [Path.join, hempty, hn, Bool.or_false, if_neg Bool.false_ne_true, if_neg hslash]

/-- A name that stands for one file of a directory. -/
structure Plain (name : String) : Prop where
  lead : ∃ c cs, name.toList = c :: cs ∧ c ≠ '/'
  slash : ∀ c ∈ name.toList, c ≠ '/'
  here : name ≠ "."
  up : name ≠ ".."

theorem Plain.not_absolute {name : String} (h : Plain name) :
    (Path.mk name).isAbsolute = false := by
  obtain ⟨c, cs, hname, hc⟩ := h.lead
  simp [Path.isAbsolute, hname, hc]

theorem namesOf_lead {lead : String} (hl : lead = "" ∨ ∃ body, lead.toList = body ++ ['/'])
    {name : String} (hn : Plain name) : namesOf ⟨lead ++ name⟩ = namesOf ⟨lead⟩ ++ [name] := by
  obtain ⟨c, cs, hname, -⟩ := hn.lead
  have hone : Path.segments name.toList = [name.toList] :=
    splitWhere_of_forall fun c hc => by simpa using hn.slash c hc
  have hnames : ((Path.segments name.toList).filter (!·.isEmpty)).map String.ofList = [name] := by
    rw [hone, List.filter_cons_of_pos (by simp [hname])]
    simp
  rcases hl with rfl | ⟨body, hbody⟩
  · rw [String.empty_append]
    exact hnames
  · have hsplit : Path.segments (lead ++ name).toList =
        Path.segments body ++ Path.segments name.toList := by
      rw [String.toList_append, hbody, List.append_assoc]
      exact splitWhere_append_sep body name.toList rfl
    have hlead : Path.segments lead.toList = Path.segments body ++ [[]] := by
      rw [hbody]
      exact splitWhere_append_sep body [] rfl
    rw [namesOf, hsplit, List.filter_append, List.map_append, hnames, namesOf, hlead]
    simp

theorem isAbsolute_lead {lead : String} {name : String} (hn : Plain name) :
    (Path.mk (lead ++ name)).isAbsolute = (Path.mk lead).isAbsolute := by
  have hname := hn.not_absolute
  unfold Path.isAbsolute at hname ⊢
  rw [String.toList_append]
  cases h : lead.toList with
  | nil => simpa using hname
  | cons => rfl

/-- **Two names in one directory**: where one of them is found, one that is no longer is found next
to it. -/
theorem resolve_join {dir : Path} {name other : String} (hn : Plain name) (ho : Plain other)
    (hsub : '\x00' ∈ name.toList → '\x00' ∈ other.toList)
    (hsize : name.utf8ByteSize ≤ other.utf8ByteSize)
    (h : d.resolve (dir.join ⟨other⟩) = .ok loc') :
    ∃ parent, d.resolve (dir.join ⟨name⟩) = .ok (parent ++ [name]) ∧ loc' = parent ++ [other] := by
  obtain ⟨lead, hlead, hjoin⟩ := exists_lead dir
  rw [hjoin _ ho.not_absolute] at h
  rw [hjoin _ hn.not_absolute]
  obtain ⟨-, hnul, hlimit, hwalk⟩ := resolve_eq_ok_iff.1 h
  rw [isAbsolute_lead ho, namesOf_lead hlead ho, walk_append] at hwalk
  cases hp : d.walk (if (Path.mk lead).isAbsolute then [] else d.cwd) (namesOf ⟨lead⟩) with
  | error => rw [hp] at hwalk; cases hwalk
  | ok parent =>
    rw [hp] at hwalk
    obtain ⟨hdir, hlast, rfl⟩ := (walk_name ho.here ho.up).1 hwalk
    refine ⟨parent, resolve_eq_ok_iff.2 ⟨?_, ?_, ?_, ?_⟩, rfl⟩
    · obtain ⟨c, cs, hname, -⟩ := hn.lead
      have hne : name ≠ "" := by
        rintro rfl
        simp at hname
      simp [hne]
    · simp only [String.toList_append, List.contains_eq_mem, List.mem_append,
        decide_eq_false_iff_not, not_or] at hnul ⊢
      exact ⟨hnul.1, fun hm => hnul.2 (hsub hm)⟩
    · simp only [String.utf8ByteSize_append] at hlimit ⊢
      omega
    · rw [isAbsolute_lead hn, namesOf_lead hlead hn, walk_append, hp]
      exact (walk_name hn.here hn.up).2 ⟨hdir, by omega, rfl⟩

end Host.Disk

end TestWeave
