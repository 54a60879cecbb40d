import HathRs.GalleryListings
import HathRs.TransitionRuns

/-!
# Which galleries are accepted

A text that the parser accepts has each header once in front of its list, and its list takes
each page once. Every gallery of that kind can be written down: the headers in any order, the
files in any order and empty lines among them are read back to the same gallery.
-/

namespace HathRs.GalleryListings
open TextParsing FileIds MachineArithmetic TransitionRuns

/-! ## Titles -/

/-- A field that whitespace ends. -/
def Word (t : Text) : Prop := t ≠ [] ∧ ∀ c ∈ t, isWhitespace c = false

theorem splitWhitespaceFrom_append {w : Text} (h : ∀ c ∈ w, isWhitespace c = false)
    (current rest : Text) :
    splitWhitespaceFrom current (w ++ rest) = splitWhitespaceFrom (current ++ w) rest := by
  induction w generalizing current with
  | nil => rw [List.nil_append, List.append_nil]
  | cons c w ih =>
    rw [List.cons_append, splitWhitespaceFrom, h c List.mem_cons_self]
    simp only [Bool.false_eq_true, if_false]
    rw [ih (fun d hd => h d (List.mem_cons_of_mem _ hd)), List.append_assoc]
    rfl

/-- The words have no whitespace, and their characters come from the text. -/
theorem word_of_mem_splitWhitespaceFrom {current t w : Text}
    (h : ∀ c ∈ current, isWhitespace c = false) (hw : w ∈ splitWhitespaceFrom current t) :
    Word w ∧ ∀ c ∈ w, c ∈ current ∨ c ∈ t := by
  induction t generalizing current with
  | nil =>
    rw [splitWhitespaceFrom] at hw
    split_ifs at hw with hnil
    · cases hw
    · obtain rfl := List.mem_singleton.mp hw
      exact ⟨⟨hnil, h⟩, fun c hc => .inl hc⟩
  | cons c t ih =>
    have htail : ∀ {d : Char} {current : Text}, d ∈ current ∨ d ∈ t → d ∈ current ∨ d ∈ c :: t :=
      fun hd => hd.imp_right (List.mem_cons_of_mem _)
    rw [splitWhitespaceFrom] at hw
    split_ifs at hw with hspace hnil
    · obtain ⟨hword, hchars⟩ := ih (by exact nofun) hw
      exact ⟨hword, fun d hd => .inr ((htail (hchars d hd)).resolve_left List.not_mem_nil)⟩
    · rcases List.mem_cons.mp hw with rfl | hrest
      · exact ⟨⟨hnil, h⟩, fun d hd => .inl hd⟩
      · obtain ⟨hword, hchars⟩ := ih (by exact nofun) hrest
        exact ⟨hword, fun d hd => .inr ((htail (hchars d hd)).resolve_left List.not_mem_nil)⟩
    · have hnext : ∀ d ∈ current ++ [c], isWhitespace d = false := by
        intro d hd
        rcases List.mem_append.mp hd with hold | hnew
        · exact h d hold
        · rw [List.mem_singleton.mp hnew]
          exact Bool.not_eq_true _ ▸ hspace
      obtain ⟨hword, hchars⟩ := ih hnext hw
      refine ⟨hword, fun d hd => ?_⟩
      rcases hchars d hd with hfront | hback
      · rcases List.mem_append.mp hfront with hold | hnew
        · exact .inl hold
        · rw [List.mem_singleton.mp hnew]
          exact .inr List.mem_cons_self
      · exact .inr (List.mem_cons_of_mem _ hback)

theorem splitWhitespace_intercalate {ws : List Text} (h : ∀ w ∈ ws, Word w) :
    splitWhitespace ([' '].intercalate ws) = ws := by
  induction ws with
  | nil => rfl
  | cons w ws ih =>
    obtain ⟨hne, hchars⟩ := h w List.mem_cons_self
    cases ws with
    | nil =>
      rw [List.intercalate_singleton, splitWhitespace, ← List.append_nil w,
        splitWhitespaceFrom_append hchars]
      simp [splitWhitespaceFrom, hne]
    | cons next rest =>
      have hrest := ih fun v hv => h v (List.mem_cons_of_mem _ hv)
      rw [splitWhitespace] at hrest
      have hspace : isWhitespace ' ' = true := by decide
      rw [List.intercalate_cons_cons, splitWhitespace, List.append_assoc,
        splitWhitespaceFrom_append hchars, List.nil_append, List.singleton_append,
        splitWhitespaceFrom, if_pos hspace, if_neg hne, hrest]

theorem mem_intercalate {ws : List Text} {c : Char} (h : c ∈ [' '].intercalate ws) :
    c = ' ' ∨ ∃ w ∈ ws, c ∈ w := by
  induction ws with
  | nil => cases h
  | cons w ws ih =>
    cases ws with
    | nil =>
      rw [List.intercalate_singleton] at h
      exact .inr ⟨w, List.mem_cons_self, h⟩
    | cons next rest =>
      rw [List.intercalate_cons_cons] at h
      rcases List.mem_append.mp h with hfront | hback
      · rcases List.mem_append.mp hfront with hw | hspace
        · exact .inr ⟨w, List.mem_cons_self, hw⟩
        · exact .inl (List.mem_singleton.mp hspace)
      · refine (ih hback).imp_right ?_
        rintro ⟨v, hv, hc⟩
        exact ⟨v, List.mem_cons_of_mem _ hv, hc⟩

theorem mem_sanitizeTitle {value : Text} {c : Char} (h : c ∈ sanitizeTitle value) :
    c = ' ' ∨ (isWhitespace c = false ∧ isReservedInTitle c = false) := by
  refine (mem_intercalate h).imp_right ?_
  rintro ⟨w, hw, hc⟩
  obtain ⟨hword, hchars⟩ := word_of_mem_splitWhitespaceFrom (by exact nofun) hw
  have hin := (hchars c hc).resolve_left List.not_mem_nil
  exact ⟨hword.2 c hc, by simpa using (List.mem_filter.mp hin).2⟩

/-- What is left of a title is left as it is. -/
theorem sanitizeTitle_sanitizeTitle (value : Text) :
    sanitizeTitle (sanitizeTitle value) = sanitizeTitle value := by
  have hkept : (sanitizeTitle value).filter (fun c => !isReservedInTitle c) = sanitizeTitle value := by
    refine List.filter_eq_self.mpr fun c hc => ?_
    rcases mem_sanitizeTitle hc with rfl | ⟨-, hfree⟩
    · decide
    · rw [hfree]
      rfl
  rw [sanitizeTitle, hkept, sanitizeTitle, splitWhitespace_intercalate]
  exact fun w hw => (word_of_mem_splitWhitespaceFrom (by exact nofun) hw).1

/-! ## Well-formed galleries -/

/-- The checks that a listed file has passed. -/
structure GalleryFile.Safe (f : GalleryFile) : Prop where
  fileindex : 0 < f.fileindex
  xres : validXres f.xres = true
  filetype : safeFiletype f.filetype = true
  filename : safeFileComponent f.filename = true

structure WellFormed (m : GalleryMetadata) : Prop where
  gid : 0 < m.gid
  minxres : validXres m.minxres = true
  title : sanitizeTitle m.title = m.title
  count : 1 ≤ m.files.length ∧ m.files.length ≤ maxGalleryFiles
  pages : ∀ (i : ℕ) (f : GalleryFile), m.files[i]? = some f → f.page.toNat = i + 1
  safe : ∀ f ∈ m.files, f.Safe
  distinct : ∀ (i j : ℕ) (f g : GalleryFile), m.files[i]? = some f → m.files[j]? = some g →
    f.target = g.target → i = j

/-- The key of a header line. -/
def keyOf (line : Text) : Option Text := (splitOnce ' ' line).map Prod.fst

def fileListMark : Text := "FILELIST".toList

def informationMark : Text := "INFORMATION".toList

/-- In front of the list each header key stands on one line, nothing but empty lines is left, and
the file count is the number of files. -/
def HeadersOnce (raw : Text) (m : GalleryMetadata) : Prop :=
  ∃ header rest, lines raw = header ++ fileListMark :: rest ∧ fileListMark ∉ header ∧
    ((header.filter (· ≠ [])).map keyOf).Perm
      [some "GID".toList, some "FILECOUNT".toList, some "MINXRES".toList, some "TITLE".toList] ∧
    ∃ line ∈ header, ∃ value, splitOnce ' ' line = some ("FILECOUNT".toList, value) ∧
      parseU32 value = some (UInt32.ofNat m.files.length)

/-! ## What is read so far -/

/-- The keys of the headers that have a value. -/
def present (s : ParserState) : List (Option Text) :=
  (s.gid.map fun _ => some "GID".toList).toList ++
    (s.filecount.map fun _ => some "FILECOUNT".toList).toList ++
    (s.minxres.map fun _ => some "MINXRES".toList).toList ++
    (s.title.map fun _ => some "TITLE".toList).toList

structure HeaderRead (header : List Text) (s : ParserState) : Prop where
  noList : fileListMark ∉ header
  keys : ((header.filter (· ≠ [])).map keyOf).Perm (present s)
  gid : ∀ gid ∈ s.gid, 0 < gid
  minxres : ∀ minxres ∈ s.minxres, validXres minxres = true
  title : ∀ title ∈ s.title, sanitizeTitle title = title
  count : ∀ count ∈ s.filecount, 1 ≤ count ∧ count ≤ maxGalleryFiles ∧
    ∃ line ∈ header, ∃ value, splitOnce ' ' line = some ("FILECOUNT".toList, value) ∧
      parseU32 value = some (UInt32.ofNat count)

/-- The list has a place for each page, and a file in its place. -/
structure ListRead (s : ParserState) : Prop where
  length : s.filecount = some s.files.length
  pages : ∀ (i : ℕ) (f : GalleryFile), s.files[i]? = some (some f) → f.page.toNat = i + 1
  safe : ∀ (i : ℕ) (f : GalleryFile), s.files[i]? = some (some f) → f.Safe

def ReadUpTo (done : List Text) (s : ParserState) : Prop :=
  if s.state = .header then HeaderRead done s
  else ∃ header rest, done = header ++ fileListMark :: rest ∧ HeaderRead header s ∧ ListRead s

section Reading

variable {s next : ParserState} {header done : List Text} {line key value : Text}

theorem parsePositive_eq_ok {field : String} {n : UInt32} (h : parsePositive value field = .ok n) :
    parseU32 value = some n ∧ 0 < n := by
  rw [parsePositive] at h
  split at h
  · rename_i m hm
    cases h
    simpa using Option.filter_eq_some_iff.mp hm
  · cases h

theorem safe_of_parseFileLine {file : GalleryFile} (h : parseFileLine line = .ok file) :
    file.Safe := by
  obtain ⟨⟨fields, rest⟩, -, h⟩ := bind_eq_ok h
  obtain ⟨page, -, h⟩ := bind_eq_ok h
  obtain ⟨fileindex, hindex, h⟩ := bind_eq_ok h
  simp only at h
  split_ifs at h with hsafe
  obtain ⟨hash, -, h⟩ := bind_eq_ok h
  cases h
  simp only [Bool.or_eq_true, not_or, Bool.not_eq_true, Bool.not_eq_false'] at hsafe
  exact ⟨(parsePositive_eq_ok hindex).2, hsafe.1.1, hsafe.2, hsafe.1.2⟩

/-- An empty line says nothing. -/
theorem HeaderRead.blank (h : HeaderRead header s) : HeaderRead (header ++ [[]]) s where
  noList := by
    rw [List.mem_append, not_or]
    exact ⟨h.noList, by decide⟩
  keys := by
    rw [List.filter_append]
    simpa using h.keys
  gid := h.gid
  minxres := h.minxres
  title := h.title
  count := by
    intro count hc
    obtain ⟨hpos, hmax, line, hin, hvalue⟩ := h.count count hc
    exact ⟨hpos, hmax, line, List.mem_append_left _ hin, hvalue⟩

theorem keys_append (hne : line ≠ []) (hsplit : splitOnce ' ' line = some (key, value)) :
    ((header ++ [line]).filter (· ≠ [])).map keyOf =
      (header.filter (· ≠ [])).map keyOf ++ [some key] := by
  rw [List.filter_append, List.map_append]
  simp [hne, keyOf, hsplit]

/-- The new header is among the keys that are present. -/
theorem HeaderRead.append (h : HeaderRead header s) (hne : line ≠ [])
    (hline : line ≠ fileListMark) (hsplit : splitOnce ' ' line = some (key, value))
    (hkeys : (present s ++ [some key]).Perm (present next))
    (hgid : ∀ gid ∈ next.gid, 0 < gid)
    (hminxres : ∀ minxres ∈ next.minxres, validXres minxres = true)
    (htitle : ∀ title ∈ next.title, sanitizeTitle title = title)
    (hcount : ∀ count ∈ next.filecount, count ∈ s.filecount ∨
      (key = "FILECOUNT".toList ∧ 1 ≤ count ∧ count ≤ maxGalleryFiles ∧
        parseU32 value = some (UInt32.ofNat count))) :
    HeaderRead (header ++ [line]) next where
  noList := by
    rw [List.mem_append, not_or, List.mem_singleton]
    exact ⟨h.noList, hline.symm⟩
  keys := by
    rw [keys_append hne hsplit]
    exact (h.keys.append_right _).trans hkeys
  gid := hgid
  minxres := hminxres
  title := htitle
  count := by
    intro count hc
    rcases hcount count hc with hold | ⟨rfl, hpos, hmax, hvalue⟩
    · obtain ⟨hpos, hmax, line', hin, hvalue⟩ := h.count count hold
      exact ⟨hpos, hmax, line', List.mem_append_left _ hin, hvalue⟩
    · exact ⟨hpos, hmax, line, List.mem_append_right _ List.mem_cons_self, value, hsplit, hvalue⟩

theorem perm_insert_key (front back : List (Option Text)) (key : Option Text) :
    (front ++ back ++ [key]).Perm (front ++ key :: back) := by
  rw [List.append_assoc]
  exact (List.perm_append_singleton key back).append_left front

theorem HeaderRead.field (h : HeaderRead header s) (hne : line ≠ []) (hline : line ≠ fileListMark)
    (hsplit : splitOnce ' ' line = some (key, value)) (hs : headerField s key value = .ok next) :
    next.state = s.state ∧ HeaderRead (header ++ [line]) next := by
  rw [headerField] at hs
  by_cases hgid : key = "GID".toList ∧ s.gid = none
  · rw [if_pos hgid] at hs
    obtain ⟨gid, hvalue, hs⟩ := bind_eq_ok hs
    cases hs
    refine ⟨rfl, h.append hne hline hsplit ?_ ?_ h.minxres h.title fun count hc => .inl hc⟩
    · simpa [present, hgid.1, hgid.2] using perm_insert_key [] (present s) (some "GID".toList)
    · intro gid' hg
      cases hg
      exact (parsePositive_eq_ok hvalue).2
  rw [if_neg hgid] at hs
  by_cases hcount : key = "FILECOUNT".toList ∧ s.filecount = none
  · rw [if_pos hcount] at hs
    obtain ⟨count, hvalue, hs⟩ := bind_eq_ok hs
    split_ifs at hs with hmax
    cases hs
    obtain ⟨hparse, hpos⟩ := parsePositive_eq_ok hvalue
    refine ⟨rfl, h.append hne hline hsplit ?_ h.gid h.minxres h.title fun count' hc => ?_⟩
    · simpa [present, hcount.1, hcount.2] using
        perm_insert_key (s.gid.map fun _ => some "GID".toList).toList
          ((s.minxres.map fun _ => some "MINXRES".toList).toList ++
            (s.title.map fun _ => some "TITLE".toList).toList) (some "FILECOUNT".toList)
    · cases hc
      refine .inr ⟨hcount.1, UInt32.lt_iff_toNat_lt.mp hpos, Nat.not_lt.mp hmax, ?_⟩
      rw [UInt32.ofNat_toNat]
      exact hparse
  rw [if_neg hcount] at hs
  by_cases hxres : key = "MINXRES".toList ∧ s.minxres = none ∧ validXres value = true
  · rw [if_pos hxres] at hs
    cases hs
    refine ⟨rfl, h.append hne hline hsplit ?_ h.gid ?_ h.title fun count hc => .inl hc⟩
    · simp only [present, hxres.1, hxres.2.1, Option.map_none, Option.map_some,
        Option.toList_none, Option.toList_some, List.append_nil, List.append_assoc]
      refine List.Perm.append_left _ (List.Perm.append_left _ ?_)
      exact List.perm_append_comm
    · intro minxres hm
      cases hm
      exact hxres.2.2
  rw [if_neg hxres] at hs
  by_cases htitle : key = "TITLE".toList ∧ s.title = none
  · rw [if_pos htitle] at hs
    cases hs
    refine ⟨rfl, h.append hne hline hsplit ?_ h.gid h.minxres ?_ fun count hc => .inl hc⟩
    · simp only [present, htitle.1, htitle.2, Option.map_none, Option.map_some, Option.toList_none,
        Option.toList_some, List.append_nil]
      exact List.Perm.refl _
    · intro title ht
      cases ht
      exact sanitizeTitle_sanitizeTitle value
  · rw [if_neg htitle] at hs
    cases hs

theorem HeaderRead.congr (h : HeaderRead header s) (hgid : next.gid = s.gid)
    (hcount : next.filecount = s.filecount) (hminxres : next.minxres = s.minxres)
    (htitle : next.title = s.title) : HeaderRead header next where
  noList := h.noList
  keys := by
    have hkeys := h.keys
    rwa [present, ← hgid, ← hcount, ← hminxres, ← htitle] at hkeys
  gid := hgid ▸ h.gid
  minxres := hminxres ▸ h.minxres
  title := htitle ▸ h.title
  count := hcount ▸ h.count

theorem ReadUpTo.headerLine (h : HeaderRead done s) (hstate : s.state = .header)
    (hs : headerLine s line = .ok next) : ReadUpTo (done ++ [line]) next := by
  rw [GalleryListings.headerLine] at hs
  by_cases hne : line.isEmpty
  · rw [if_pos hne] at hs
    cases hs
    rw [List.isEmpty_iff] at hne
    rw [ReadUpTo, if_pos hstate, hne]
    exact h.blank
  rw [if_neg hne] at hs
  rw [List.isEmpty_iff] at hne
  by_cases hlist : line = "FILELIST".toList
  · rw [if_pos hlist] at hs
    cases hcount : s.filecount with
    | none =>
      rw [hcount] at hs
      cases hs
    | some count =>
      rw [hcount] at hs
      cases hs
      have hnone : ∀ (i : ℕ) (f : GalleryFile),
          (List.replicate count (none : Option GalleryFile))[i]? ≠ some (some f) := by
        intro i f hget
        cases List.eq_of_mem_replicate (List.mem_of_getElem? hget)
      rw [ReadUpTo, if_neg (by simp)]
      refine ⟨done, [], by rw [hlist]; rfl, h.congr rfl hcount.symm rfl rfl, ?_, ?_, ?_⟩
      · rw [List.length_replicate]
      · exact fun i f hget => absurd hget (hnone i f)
      · exact fun i f hget => absurd hget (hnone i f)
  rw [if_neg hlist] at hs
  cases hsplit : splitOnce ' ' line with
  | none =>
    rw [hsplit] at hs
    cases hs
  | some pair =>
    rw [hsplit] at hs
    obtain ⟨hkept, hread⟩ := h.field hne hlist hsplit hs
    rw [ReadUpTo, if_pos (hkept.trans hstate)]
    exact hread

theorem ListRead.listFile (h : ListRead s) {count : ℕ} {entry : GalleryFile} (hsafe : entry.Safe)
    (hs : listFile s count entry = .ok next) : ListRead next := by
  simp only [GalleryListings.listFile] at hs
  split_ifs at hs with hpage hname hplace
  cases hs
  have hpos : entry.page.toNat ≠ 0 := fun hzero => hpage (.inl (UInt32.toNat_inj.mp hzero))
  have hcases : ∀ (i : ℕ) (f : GalleryFile),
      (s.files.set (entry.page.toNat - 1) (some entry))[i]? = some (some f) →
      (i = entry.page.toNat - 1 ∧ f = entry) ∨ s.files[i]? = some (some f) := by
    intro i f hget
    rw [List.getElem?_set] at hget
    split_ifs at hget with heq
    · cases hget
      exact .inl ⟨heq.symm, rfl⟩
    · exact .inr hget
  refine ⟨by rw [List.length_set]; exact h.length, fun i f hget => ?_, fun i f hget => ?_⟩
  · rcases hcases i f hget with ⟨rfl, rfl⟩ | hold
    · omega
    · exact h.pages i f hold
  · rcases hcases i f hget with ⟨rfl, rfl⟩ | hold
    · exact hsafe
    · exact h.safe i f hold

/-- An entry changes neither the headers nor the section. -/
theorem listFile_frame {count : ℕ} {entry : GalleryFile} (hs : listFile s count entry = .ok next) :
    next.state = s.state ∧ next.gid = s.gid ∧ next.filecount = s.filecount ∧
      next.minxres = s.minxres ∧ next.title = s.title := by
  simp only [GalleryListings.listFile] at hs
  split_ifs at hs
  cases hs
  exact ⟨rfl, rfl, rfl, rfl, rfl⟩

theorem readUpTo_rest {rest : List Text} (hdone : done = header ++ fileListMark :: rest)
    (hheader : HeaderRead header s) (hlist : ListRead s) (hstate : s.state ≠ .header) :
    ReadUpTo (done ++ [line]) s := by
  rw [ReadUpTo, if_neg hstate]
  exact ⟨header, rest ++ [line], by rw [hdone]; simp, hheader, hlist⟩

theorem ReadUpTo.parseLine (h : ReadUpTo done s) (hs : parseLine s line = .ok next) :
    ReadUpTo (done ++ [line]) next := by
  rw [GalleryListings.parseLine] at hs
  cases hstate : s.state with
  | header =>
    rw [hstate] at hs
    rw [ReadUpTo, if_pos hstate] at h
    exact ReadUpTo.headerLine h hstate hs
  | information =>
    rw [hstate] at hs
    cases hs
    rw [ReadUpTo, if_neg (by simp [hstate])] at h
    obtain ⟨header, rest, hdone, hheader, hlist⟩ := h
    exact readUpTo_rest hdone (hheader.congr rfl rfl rfl rfl)
      ⟨hlist.length, hlist.pages, hlist.safe⟩ (by simp)
  | fileList =>
    rw [hstate] at hs
    rw [ReadUpTo, if_neg (by simp [hstate])] at h
    obtain ⟨header, rest, hdone, hheader, hlist⟩ := h
    simp only [fileListLine] at hs
    by_cases hne : line.isEmpty
    · rw [if_pos hne] at hs
      cases hs
      exact readUpTo_rest hdone hheader hlist (by simp [hstate])
    rw [if_neg hne] at hs
    by_cases hmark : line = "INFORMATION".toList
    · rw [if_pos hmark] at hs
      cases hs
      exact readUpTo_rest hdone (hheader.congr rfl rfl rfl rfl)
        ⟨hlist.length, hlist.pages, hlist.safe⟩ (by simp)
    rw [if_neg hmark] at hs
    obtain ⟨entry, hentry, hs⟩ := bind_eq_ok hs
    rw [hlist.length] at hs
    obtain ⟨hsame, hgid, hcount, hminxres, htitle⟩ := listFile_frame hs
    refine readUpTo_rest hdone (hheader.congr hgid hcount hminxres htitle)
      (hlist.listFile (safe_of_parseFileLine hentry) hs) ?_
    simp [hsame, hstate]

theorem readUpTo_of_run {raw : Text} (h : (lines raw).foldlM GalleryListings.parseLine .initial = .ok s) :
    ReadUpTo (lines raw) s := by
  refine foldlM_invariant ReadUpTo (fun done line _ s next _ hinv hs => hinv.parseLine hs) ?_ h
  rw [ReadUpTo, if_pos (show ParserState.initial.state = .header from rfl)]
  exact ⟨List.not_mem_nil, List.Perm.refl _, nofun, nofun, nofun, nofun⟩

/-- What is accepted is well formed. -/
theorem wellFormed_of_parse {raw : Text} {m : GalleryMetadata}
    (h : parseGalleryMetadata raw = .ok m) : WellFormed m ∧ HeadersOnce raw m := by
  have hnames := (accepted_names h).2
  obtain ⟨s, hs, h⟩ := bind_eq_ok h
  have hread := readUpTo_of_run hs
  rw [finish] at h
  cases hgid : s.gid with
  | none => rw [hgid] at h; cases h
  | some gid =>
  cases hminxres : s.minxres with
  | none => rw [hgid, hminxres] at h; cases h
  | some minxres =>
  cases htitle : s.title with
  | none => rw [hgid, hminxres, htitle] at h; cases h
  | some title =>
  cases hcount : s.filecount with
  | none => rw [hgid, hminxres, htitle, hcount] at h; cases h
  | some count =>
  rw [hgid, hminxres, htitle, hcount] at h
  simp only [required, bind, Except.bind] at h
  split_ifs at h with hstate hfull
  cases h
  rw [ReadUpTo, if_neg (by rw [not_not.mp hstate]; exact nofun)] at hread
  obtain ⟨header, rest, hlines, hheader, hlist⟩ := hread
  have hslots := map_some_filterMap (Bool.eq_false_iff.mpr (not_or.mp hfull).2)
  have hlen : (s.files.filterMap id).length = count := by
    rw [← List.length_map some, hslots]
    exact not_not.mp (not_or.mp hfull).1
  have hget : ∀ (i : ℕ) (f : GalleryFile), (s.files.filterMap id)[i]? = some f →
      s.files[i]? = some (some f) := by
    intro i f hf
    rw [← hslots, List.getElem?_map, hf]
    rfl
  obtain ⟨hpos, hmax, line, hin, value, hvalue⟩ := hheader.count count hcount
  refine ⟨⟨hheader.gid gid hgid, hheader.minxres minxres hminxres,
    hheader.title title htitle, by
    rw [hlen]
    exact ⟨hpos, hmax⟩, fun i f hf => hlist.pages i f (hget i f hf), ?_, hnames⟩,
    header, rest, hlines, hheader.noList, ?_, line, hin, value, ?_⟩
  · intro f hf
    obtain ⟨i, hi⟩ := List.mem_iff_getElem?.mp hf
    exact hlist.safe i f (hget i f hi)
  · have hkeys := hheader.keys
    rw [present, hgid, hcount, hminxres, htitle] at hkeys
    exact hkeys
  · rw [hlen]
    exact hvalue

end Reading

/-! ## Writing a gallery down -/

/-- Each line with its line feed. -/
def unlines (ls : List Text) : Text := ls.flatMap fun line => line ++ ['\n']

def hashField : Option Sha1Hash → Text
  | none => "unknown".toList
  | some hash => hash.text

theorem hashField_some (hash : Sha1Hash) : hashField (some hash) = hash.text := rfl

def fileLine (f : GalleryFile) : Text :=
  decimal f.page.toNat ++ ' ' :: (decimal f.fileindex.toNat ++ ' ' :: (f.xres ++
    ' ' :: (hashField f.expectedSha1 ++ ' ' :: (f.filetype ++ ' ' :: f.filename))))

def gidLine (m : GalleryMetadata) : Text := "GID".toList ++ ' ' :: decimal m.gid.toNat

def filecountLine (m : GalleryMetadata) : Text :=
  "FILECOUNT".toList ++ ' ' :: decimal m.files.length

def minxresLine (m : GalleryMetadata) : Text := "MINXRES".toList ++ ' ' :: m.minxres

def titleLine (m : GalleryMetadata) : Text := "TITLE".toList ++ ' ' :: m.title

def headerLines (m : GalleryMetadata) : List Text :=
  [gidLine m, filecountLine m, minxresLine m, titleLine m]

/-- The file names can stand at the end of a line. -/
def Renderable (m : GalleryMetadata) : Prop :=
  ∀ f ∈ m.files, trimStart f.filename = f.filename ∧ '\n' ∉ f.filename ∧
    f.filename.getLast? ≠ some '\r'

/-- The texts of a gallery: the header lines and the file lines in some order, with empty lines
among them, and behind the last mark any text. -/
def render (headers files : List Text) (information : Text) : Text :=
  unlines (headers ++ fileListMark :: (files ++ [informationMark])) ++ information

/-! ## Fields -/

theorem word_of_isAlphanum {t : Text} (hne : t ≠ []) (h : ∀ c ∈ t, c.isAlphanum = true) : Word t :=
  ⟨hne, fun c hc => isWhitespace_of_isAlphanum (h c hc)⟩

theorem word_decimal (n : ℕ) : Word (decimal n) :=
  word_of_isAlphanum (decimal_ne_nil n) fun _ hc => isAlphanum_of_isDigit (isDigit_of_mem_decimal hc)

theorem word_of_validXres {t : Text} (h : validXres t = true) : Word t := by
  simp only [validXres, Bool.or_eq_true, beq_iff_eq, Bool.and_eq_true, Bool.not_eq_true',
    List.all_eq_true] at h
  rcases h with rfl | ⟨hne, hdigits⟩
  · exact word_of_isAlphanum (by decide) (List.all_eq_true.mp (by decide))
  · exact word_of_isAlphanum (by simpa using hne) fun c hc => isAlphanum_of_isDigit (hdigits c hc)

theorem word_of_safeFiletype {t : Text} (h : safeFiletype t = true) : Word t := by
  simp only [safeFiletype, Bool.and_eq_true, Bool.not_eq_true', List.all_eq_true] at h
  exact word_of_isAlphanum (by simpa using h.1.1) h.2

theorem word_hashField (hash : Option Sha1Hash) : Word (hashField hash) := by
  cases hash with
  | none => exact word_of_isAlphanum (by decide) (List.all_eq_true.mp (by decide))
  | some hash =>
    refine word_of_isAlphanum ?_ fun c hc => ?_
    · intro hnil
      have hlen := hash.length_text
      rw [show hash.text = [] from hnil] at hlen
      cases hlen
    · exact isAlphanum_of_isLowerHexChar (hash.lowerHex c hc)

theorem takeFields_space (n : ℕ) (rest : Text) :
    takeFields (n + 1) (' ' :: rest) = takeFields (n + 1) rest := rfl

/-- A field is taken up to the space behind it. -/
theorem takeFields_word {t : Text} (h : Word t) (n : ℕ) (rest : Text) :
    takeFields (n + 1) (t ++ ' ' :: rest) =
      (takeFields n (' ' :: rest)).map fun (fields, rest) => (t :: fields, rest) := by
  have htrim : trimStart (t ++ ' ' :: rest) = t ++ ' ' :: rest := by
    obtain ⟨c, t, rfl⟩ := List.exists_cons_of_ne_nil h.1
    have hc := h.2 c List.mem_cons_self
    simp [trimStart, hc]
  have htake : (t ++ ' ' :: rest).takeWhile (!isWhitespace ·) = t := by
    rw [List.takeWhile_append_of_pos fun c hc => by rw [h.2 c hc]; rfl]
    exact List.append_nil t
  have hdrop : (t ++ ' ' :: rest).dropWhile (!isWhitespace ·) = ' ' :: rest := by
    rw [List.dropWhile_append_of_pos fun c hc => by rw [h.2 c hc]; rfl]
    rfl
  simp only [takeFields, htrim, htake, hdrop]
  rfl

theorem parsePositive_decimal {n : UInt32} (h : 0 < n) (field : String) :
    parsePositive (decimal n.toNat) field = .ok n := by
  have hfilter : (some n).filter (0 < ·) = some n := by
    rw [Option.filter_some, if_pos (decide_eq_true h)]
  rw [parsePositive, parseU32_decimal, hfilter]

theorem parseSha1_hashField (hash : Option Sha1Hash) : parseSha1 (hashField hash) = .ok hash := by
  cases hash with
  | none => rfl
  | some hash =>
    have hne : hash.text ≠ "unknown".toList := by
      intro heq
      have hlen : "unknown".toList.length = 40 := heq ▸ hash.length_text
      exact absurd hlen (by decide)
    rw [hashField_some, parseSha1, if_neg hne, hash.new_text]

/-- A file is read back from its line. -/
theorem parseFileLine_fileLine {f : GalleryFile} (hsafe : f.Safe) (hpage : 0 < f.page)
    (hname : trimStart f.filename = f.filename) : parseFileLine (fileLine f) = .ok f := by
  have hfields : takeFields 5 (fileLine f) = .ok ([decimal f.page.toNat,
      decimal f.fileindex.toNat, f.xres, hashField f.expectedSha1, f.filetype],
      ' ' :: f.filename) := by
    rw [fileLine, takeFields_word (word_decimal _), takeFields_space,
      takeFields_word (word_decimal _), takeFields_space,
      takeFields_word (word_of_validXres hsafe.xres), takeFields_space,
      takeFields_word (word_hashField _), takeFields_space,
      takeFields_word (word_of_safeFiletype hsafe.filetype)]
    rfl
  have htrim : trimStart (' ' :: f.filename) = f.filename := hname
  simp [parseFileLine, hfields, htrim, parsePositive_decimal hpage,
    parsePositive_decimal hsafe.fileindex, hsafe.xres, hsafe.filename, hsafe.filetype,
    parseSha1_hashField, bind, Except.bind]

/-! ## Lines -/

/-- A line that ends with its line feed. -/
def OneLine (t : Text) : Prop := '\n' ∉ t ∧ t.getLast? ≠ some '\r'

theorem lines_unlines {ls : List Text} (h : ∀ line ∈ ls, OneLine line) (rest : Text) :
    lines (unlines ls ++ rest) = ls ++ lines rest := by
  induction ls with
  | nil => rfl
  | cons line ls ih =>
    have hline := h line List.mem_cons_self
    rw [unlines, List.flatMap_cons, List.append_assoc, List.append_assoc, List.singleton_append,
      lines_cons_of_getLast hline.1 hline.2, List.cons_append]
    exact congrArg _ (ih fun l hl => h l (List.mem_cons_of_mem _ hl))

theorem OneLine.append {s t : Text} (hs : '\n' ∉ s) (ht : OneLine t) (hne : t ≠ []) :
    OneLine (s ++ t) := by
  refine ⟨?_, ?_⟩
  · rw [List.mem_append, not_or]
    exact ⟨hs, ht.1⟩
  · rw [List.getLast?_append_of_ne_nil s hne]
    exact ht.2

theorem oneLine_nil : OneLine [] := ⟨List.not_mem_nil, by exact nofun⟩

/-- A text with no whitespace but spaces is one line. -/
theorem oneLine_of_spaces {t : Text} (h : ∀ c ∈ t, isWhitespace c = true → c = ' ') : OneLine t := by
  refine ⟨fun hin => ?_, fun hlast => ?_⟩
  · exact absurd (h _ hin (by decide)) (by decide)
  · exact absurd (h _ (List.mem_of_getLast? hlast) (by decide)) (by decide)

theorem Word.oneLine {t : Text} (h : Word t) : OneLine t :=
  oneLine_of_spaces fun c hc hspace => absurd hspace (by rw [h.2 c hc]; exact Bool.false_ne_true)

theorem oneLine_space {t : Text} (h : OneLine t) : OneLine (' ' :: t) := by
  cases t with
  | nil => exact ⟨by decide, by decide⟩
  | cons c t => exact OneLine.append (by decide : '\n' ∉ [' ']) h (List.cons_ne_nil c t)

theorem Word.append_space {s t : Text} (hs : Word s) (ht : OneLine t) : OneLine (s ++ ' ' :: t) :=
  OneLine.append hs.oneLine.1 (oneLine_space ht) (List.cons_ne_nil _ _)

theorem word_key {key : Text} (h : key ≠ [] ∧ key.all Char.isAlphanum = true) : Word key :=
  word_of_isAlphanum h.1 (List.all_eq_true.mp h.2)

theorem oneLine_title (value : Text) : OneLine (sanitizeTitle value) := by
  refine oneLine_of_spaces fun c hc hspace => ?_
  rcases mem_sanitizeTitle hc with heq | ⟨hno, -⟩
  · exact heq
  · rw [hno] at hspace
    cases hspace

theorem oneLine_headerLine {m : GalleryMetadata} (hm : WellFormed m) {line : Text}
    (h : line ∈ headerLines m) : OneLine line := by
  simp only [headerLines, List.mem_cons, List.not_mem_nil, or_false] at h
  rcases h with rfl | rfl | rfl | rfl
  · exact (word_key (by decide)).append_space (word_decimal _).oneLine
  · exact (word_key (by decide)).append_space (word_decimal _).oneLine
  · exact (word_key (by decide)).append_space (word_of_validXres hm.minxres).oneLine
  · exact (word_key (by decide)).append_space (hm.title ▸ oneLine_title m.title)

theorem oneLine_fileLine {f : GalleryFile} (hsafe : f.Safe) (hname : OneLine f.filename) :
    OneLine (fileLine f) :=
  (word_decimal _).append_space ((word_decimal _).append_space
    ((word_of_validXres hsafe.xres).append_space ((word_hashField _).append_space
      ((word_of_safeFiletype hsafe.filetype).append_space hname))))

/-! ## Reading the headers back -/

/-- A value that is known once its line has been read. -/
def slot {α : Type} (done : List Text) (key : Text) (value : α) : Option α :=
  if some key ∈ done.map keyOf then some value else none

def headerState (m : GalleryMetadata) (done : List Text) : ParserState :=
  { ParserState.initial with
    gid := slot done "GID".toList m.gid
    filecount := slot done "FILECOUNT".toList m.files.length
    minxres := slot done "MINXRES".toList m.minxres
    title := slot done "TITLE".toList m.title }

section Headers

variable {m : GalleryMetadata} {done : List Text} {line key other text : Text} {α : Type} {value : α}

theorem slot_append (h : keyOf line = some other) :
    slot (done ++ [line]) key value = if key = other then some value else slot done key value := by
  rw [slot, slot, List.map_append, List.map_singleton, h]
  by_cases hkey : key = other
  · rw [if_pos hkey, if_pos (by rw [hkey]; simp)]
  · rw [if_neg hkey]
    simp [hkey]

theorem slot_blank : slot (done ++ [[]]) key value = slot done key value := by
  rw [slot, slot, List.map_append, List.map_singleton, show keyOf [] = none from rfl]
  by_cases hin : some key ∈ done.map keyOf
  · rw [if_pos hin, if_pos (List.mem_append_left _ hin)]
  · rw [if_neg hin, if_neg]
    intro hnew
    rcases List.mem_append.mp hnew with hold | hnone
    · exact hin hold
    · cases List.mem_singleton.mp hnone

theorem slot_eq_none (h : some key ∉ done.map keyOf) : slot done key value = none := if_neg h

theorem headerLine_of_split {s : ParserState} (h : splitOnce ' ' line = some (key, text)) :
    headerLine s line = headerField s key text := by
  have hne : ¬line.isEmpty = true := by
    rw [List.isEmpty_iff]
    rintro rfl
    cases h
  have hmark : line ≠ "FILELIST".toList := by
    rintro rfl
    rw [splitOnce_eq_none (by decide)] at h
    cases h
  rw [GalleryListings.headerLine, if_neg hne, if_neg hmark, h]

theorem splitOnce_gidLine (m : GalleryMetadata) :
    splitOnce ' ' (gidLine m) = some ("GID".toList, decimal m.gid.toNat) :=
  splitOnce_append (by decide) _

theorem splitOnce_filecountLine (m : GalleryMetadata) :
    splitOnce ' ' (filecountLine m) = some ("FILECOUNT".toList, decimal m.files.length) :=
  splitOnce_append (by decide) _

theorem splitOnce_minxresLine (m : GalleryMetadata) :
    splitOnce ' ' (minxresLine m) = some ("MINXRES".toList, m.minxres) :=
  splitOnce_append (by decide) _

theorem splitOnce_titleLine (m : GalleryMetadata) :
    splitOnce ' ' (titleLine m) = some ("TITLE".toList, m.title) :=
  splitOnce_append (by decide) _

theorem keyOf_gidLine (m : GalleryMetadata) : keyOf (gidLine m) = some "GID".toList :=
  congrArg (Option.map Prod.fst) (splitOnce_gidLine m)

theorem keyOf_filecountLine (m : GalleryMetadata) :
    keyOf (filecountLine m) = some "FILECOUNT".toList :=
  congrArg (Option.map Prod.fst) (splitOnce_filecountLine m)

theorem keyOf_minxresLine (m : GalleryMetadata) : keyOf (minxresLine m) = some "MINXRES".toList :=
  congrArg (Option.map Prod.fst) (splitOnce_minxresLine m)

theorem keyOf_titleLine (m : GalleryMetadata) : keyOf (titleLine m) = some "TITLE".toList :=
  congrArg (Option.map Prod.fst) (splitOnce_titleLine m)

theorem headerLine_gid (h : some "GID".toList ∉ done.map keyOf) (hm : WellFormed m) :
    headerLine (headerState m done) (gidLine m) = .ok (headerState m (done ++ [gidLine m])) := by
  rw [headerLine_of_split (splitOnce_gidLine m), headerField, if_pos ⟨rfl, slot_eq_none h⟩,
    parsePositive_decimal hm.gid]
  simp [headerState, slot_append (keyOf_gidLine m), bind, Except.bind]

theorem headerLine_filecount (h : some "FILECOUNT".toList ∉ done.map keyOf) (hm : WellFormed m) :
    headerLine (headerState m done) (filecountLine m) =
      .ok (headerState m (done ++ [filecountLine m])) := by
  have hsmall : m.files.length < 2 ^ 32 := lt_of_le_of_lt hm.count.2 (by decide)
  have hnat : (UInt32.ofNat m.files.length).toNat = m.files.length := UInt32.toNat_ofNat_of_lt' hsmall
  have hpos : 0 < UInt32.ofNat m.files.length := by
    rw [UInt32.lt_iff_toNat_lt, hnat]
    exact hm.count.1
  have hparse := parsePositive_decimal hpos "filecount"
  rw [hnat] at hparse
  rw [headerLine_of_split (splitOnce_filecountLine m), headerField,
    if_neg (fun hc => absurd hc.1 (by decide)), if_pos ⟨rfl, slot_eq_none h⟩, hparse]
  simp [headerState, slot_append (keyOf_filecountLine m), bind, Except.bind, hnat, hm.count.2]

theorem headerLine_minxres (h : some "MINXRES".toList ∉ done.map keyOf) (hm : WellFormed m) :
    headerLine (headerState m done) (minxresLine m) =
      .ok (headerState m (done ++ [minxresLine m])) := by
  rw [headerLine_of_split (splitOnce_minxresLine m), headerField,
    if_neg (fun hc => absurd hc.1 (by decide)), if_neg (fun hc => absurd hc.1 (by decide)),
    if_pos ⟨rfl, slot_eq_none h, hm.minxres⟩]
  simp [headerState, slot_append (keyOf_minxresLine m)]

theorem headerLine_title (h : some "TITLE".toList ∉ done.map keyOf) (hm : WellFormed m) :
    headerLine (headerState m done) (titleLine m) =
      .ok (headerState m (done ++ [titleLine m])) := by
  rw [headerLine_of_split (splitOnce_titleLine m), headerField, if_neg (fun hc => absurd hc.1 (by decide)),
    if_neg (fun hc => absurd hc.1 (by decide)), if_neg (fun hc => absurd hc.1 (by decide)),
    if_pos ⟨rfl, slot_eq_none h⟩, hm.title]
  simp [headerState, slot_append (keyOf_titleLine m)]

theorem headerLine_blank {s : ParserState} : headerLine s [] = .ok s := rfl

theorem keys_headerLines (m : GalleryMetadata) : (headerLines m).map keyOf =
    [some "GID".toList, some "FILECOUNT".toList, some "MINXRES".toList, some "TITLE".toList] := by
  rw [headerLines, List.map_cons, List.map_cons, List.map_cons, List.map_cons, keyOf_gidLine,
    keyOf_filecountLine, keyOf_minxresLine, keyOf_titleLine]
  rfl

/-- No key comes twice, so a line that is not empty has a new one. -/
theorem key_notMem {headers rest : List Text}
    (hperm : (headers.filter (· ≠ [])).Perm (headerLines m)) (hsplit : headers = done ++ line :: rest)
    (hne : line ≠ []) (hkey : keyOf line = some key) : some key ∉ done.map keyOf := by
  have hnodup : ((headers.filter (· ≠ [])).map keyOf).Nodup := by
    rw [(hperm.map keyOf).nodup_iff, keys_headerLines]
    decide
  rw [hsplit, List.filter_append, List.filter_cons_of_pos (by simpa using hne), List.map_append,
    List.map_cons, hkey] at hnodup
  have hnew := notMem_of_nodup hnodup
  intro hin
  obtain ⟨old, hold, heq⟩ := List.mem_map.mp hin
  refine hnew (List.mem_map.mpr ⟨old, List.mem_filter.mpr ⟨hold, ?_⟩, heq⟩)
  rw [decide_eq_true_eq]
  rintro rfl
  cases heq

theorem headers_read (hm : WellFormed m) {headers : List Text}
    (hperm : (headers.filter (· ≠ [])).Perm (headerLines m)) :
    headers.foldlM parseLine .initial = .ok (headerState m headers) := by
  have hrun : ∃ s, headers.foldlM parseLine .initial = .ok s ∧ s = headerState m headers := by
    refine foldlM_succeeds (fun done s => s = headerState m done) ?_ rfl
    rintro done line rest s hsplit rfl
    refine ⟨_, ?_, rfl⟩
    rw [parseLine]
    by_cases hne : line = []
    · rw [hne]
      simp only [headerState, slot_blank]
      exact headerLine_blank
    have hline : line ∈ headerLines m := by
      refine hperm.mem_iff.mp (List.mem_filter.mpr ⟨?_, decide_eq_true hne⟩)
      rw [hsplit]
      exact List.mem_append_right _ List.mem_cons_self
    have hnew : ∀ key, keyOf line = some key → some key ∉ done.map keyOf :=
      fun key hkey => key_notMem hperm hsplit hne hkey
    simp only [headerLines, List.mem_cons, List.not_mem_nil, or_false] at hline
    rcases hline with rfl | rfl | rfl | rfl
    · exact headerLine_gid (hnew _ (keyOf_gidLine m)) hm
    · exact headerLine_filecount (hnew _ (keyOf_filecountLine m)) hm
    · exact headerLine_minxres (hnew _ (keyOf_minxresLine m)) hm
    · exact headerLine_title (hnew _ (keyOf_titleLine m)) hm
  obtain ⟨s, hs, rfl⟩ := hrun
  exact hs

end Headers

/-! ## Reading the files back -/

def listState (m : GalleryMetadata) (done : List Text) (names : List Text) : ParserState where
  state := .fileList
  gid := some m.gid
  filecount := some m.files.length
  minxres := some m.minxres
  title := some m.title
  files := m.files.map fun f => if fileLine f ∈ done then some f else none
  filenames := names
  information := []

/-- The names are those of files whose lines were read. -/
def ListedNames (m : GalleryMetadata) (done : List Text) (names : List Text) : Prop :=
  ∀ name ∈ names, ∃ f ∈ m.files, fileLine f ∈ done ∧ f.target = name

section Files

variable {m : GalleryMetadata} {done names : List Text} {line : Text} {f g : GalleryFile} {i j : ℕ}

theorem slot_eq_some {headers : List Text} {α : Type} {value : α} {key : Text}
    (hperm : (headers.filter (· ≠ [])).Perm (headerLines m))
    (hkey : some key ∈ (headerLines m).map keyOf) : slot headers key value = some value := by
  refine if_pos ?_
  obtain ⟨line, hline, hkey⟩ := List.mem_map.mp hkey
  exact List.mem_map.mpr ⟨line, (List.mem_filter.mp (hperm.mem_iff.mpr hline)).1, hkey⟩

theorem fileListMark_read {headers : List Text}
    (hperm : (headers.filter (· ≠ [])).Perm (headerLines m)) :
    parseLine (headerState m headers) fileListMark = .ok (listState m [] []) := by
  have hstate : headerState m headers = { ParserState.initial with
      gid := some m.gid, filecount := some m.files.length, minxres := some m.minxres,
      title := some m.title } := by
    rw [headerState, slot_eq_some hperm (by rw [keys_headerLines]; decide),
      slot_eq_some hperm (by rw [keys_headerLines]; decide),
      slot_eq_some hperm (by rw [keys_headerLines]; decide),
      slot_eq_some hperm (by rw [keys_headerLines]; decide)]
  have hfiles : (m.files.map fun f => if fileLine f ∈ ([] : List Text) then some f else none) =
      List.replicate m.files.length none := by
    simp [List.map_const']
  rw [hstate, listState, hfiles, parseLine]
  exact (if_neg (by decide)).trans (if_pos rfl)

theorem WellFormed.parseFileLine_eq (hm : WellFormed m) (hr : Renderable m) (hf : f ∈ m.files) :
    parseFileLine (fileLine f) = .ok f := by
  obtain ⟨i, hi⟩ := List.mem_iff_getElem?.mp hf
  refine parseFileLine_fileLine (hm.safe f hf) ?_ (hr f hf).1
  rw [UInt32.lt_iff_toNat_lt, hm.pages i f hi]
  exact Nat.succ_pos i

/-- The line of a file tells which file it is. -/
theorem WellFormed.fileLine_inj (hm : WellFormed m) (hr : Renderable m) (hf : f ∈ m.files)
    (hg : g ∈ m.files) (h : fileLine f = fileLine g) : f = g := by
  have heq := hm.parseFileLine_eq hr hf
  rw [h, hm.parseFileLine_eq hr hg] at heq
  exact (Except.ok.inj heq).symm

theorem WellFormed.nodup (hm : WellFormed m) (hr : Renderable m) :
    (m.files.map fileLine).Nodup := by
  refine List.Nodup.map_on (fun f hf g hg h => hm.fileLine_inj hr hf hg h) ?_
  rw [List.nodup_iff_getElem?_ne_getElem?]
  intro i j hij hj heq
  have hi : m.files[i]? = some (m.files.get ⟨i, hij.trans hj⟩) := List.getElem?_eq_getElem _
  have hpage := hm.pages i _ hi
  rw [heq] at hi
  have hpage' := hm.pages j _ hi
  omega

theorem ne_of_parseFileLine {message : String} (hm : WellFormed m) (hr : Renderable m)
    (hf : f ∈ m.files) (h : parseFileLine line = .error message) : fileLine f ≠ line := by
  rintro rfl
  rw [hm.parseFileLine_eq hr hf] at h
  cases h

theorem fileLine_ne_nil (f : GalleryFile) : fileLine f ≠ [] :=
  List.append_ne_nil_of_left_ne_nil (decimal_ne_nil _) _

theorem listState_blank : listState m (done ++ [[]]) names = listState m done names := by
  simp only [listState, List.mem_append, List.mem_singleton, fileLine_ne_nil, or_false]

/-- A new file takes its place. -/
theorem set_files (hm : WellFormed m) (hr : Renderable m) (hi : m.files[i]? = some f) :
    (listState m done names).files.set i (some f) = (listState m (done ++ [fileLine f]) names).files := by
  refine List.ext_getElem? fun j => ?_
  simp only [listState, List.getElem?_set, List.getElem?_map, List.length_map]
  by_cases hij : i = j
  · obtain rfl := hij
    have hlt : i < m.files.length := (List.getElem?_eq_some_iff.mp hi).1
    rw [if_pos rfl, if_pos hlt, hi, Option.map_some,
      if_pos (List.mem_append_right _ List.mem_cons_self)]
  · rw [if_neg hij]
    cases hj : m.files[j]? with
    | none => rfl
    | some g =>
      have hne : fileLine g ≠ fileLine f := by
        intro h
        obtain rfl := hm.fileLine_inj hr (List.mem_of_getElem? hj) (List.mem_of_getElem? hi) h
        have := hm.pages i g hi
        have := hm.pages j g hj
        omega
      simp [hne]

theorem listFile_read (hm : WellFormed m) (hr : Renderable m) (hf : f ∈ m.files)
    (hnew : fileLine f ∉ done) (hnames : ListedNames m done names) :
    listFile (listState m done names) m.files.length f =
      .ok (listState m (done ++ [fileLine f]) (f.target :: names)) := by
  obtain ⟨i, hi⟩ := List.mem_iff_getElem?.mp hf
  have hpage := hm.pages i f hi
  have hlt : i < m.files.length := (List.getElem?_eq_some_iff.mp hi).1
  have hrange : ¬(f.page = 0 ∨ f.page.toNat > m.files.length) := by
    rintro (hzero | hbig)
    · rw [hzero] at hpage
      exact absurd hpage (by simp)
    · omega
  have htarget : f.target ∉ (listState m done names).filenames := by
    intro hin
    obtain ⟨g, hg, hline, heq⟩ := hnames _ hin
    obtain ⟨j, hj⟩ := List.mem_iff_getElem?.mp hg
    obtain rfl := hm.distinct j i g f hj hi heq
    cases hi.symm.trans hj
    exact hnew hline
  have hempty : ¬((listState m done names).files[f.page.toNat - 1]?).any Option.isSome = true := by
    rw [hpage, Nat.add_sub_cancel]
    simp [listState, hi, hnew]
  simp only [listFile]
  rw [if_neg hrange, if_neg htarget, if_neg hempty, hpage, Nat.add_sub_cancel, set_files hm hr hi]
  rfl

theorem fileLine_read (hm : WellFormed m) (hr : Renderable m) (hf : f ∈ m.files)
    (hnew : fileLine f ∉ done) (hnames : ListedNames m done names) :
    parseLine (listState m done names) (fileLine f) =
      .ok (listState m (done ++ [fileLine f]) (f.target :: names)) := by
  have hmark : fileLine f ≠ "INFORMATION".toList := ne_of_parseFileLine hm hr hf rfl
  have hne : ¬(fileLine f).isEmpty = true := by
    rw [List.isEmpty_iff]
    exact fileLine_ne_nil f
  rw [parseLine, show (listState m done names).state = .fileList from rfl]
  simp only [fileListLine]
  rw [if_neg hne, if_neg hmark, hm.parseFileLine_eq hr hf]
  exact listFile_read hm hr hf hnew hnames

theorem files_read (hm : WellFormed m) (hr : Renderable m) {files : List Text}
    (hperm : (files.filter (· ≠ [])).Perm (m.files.map fileLine)) :
    ∃ names, files.foldlM parseLine (listState m [] []) = .ok (listState m files names) := by
  have hrun : ∃ s, files.foldlM parseLine (listState m [] []) = .ok s ∧
      ∃ names, s = listState m files names ∧ ListedNames m files names := by
    refine foldlM_succeeds (fun done s => ∃ names, s = listState m done names ∧
      ListedNames m done names) ?_ ⟨[], rfl, by exact nofun⟩
    rintro done line rest s hsplit ⟨names, rfl, hnames⟩
    have hkept : ∀ {done' : List Text}, (∀ l ∈ done, l ∈ done') → ListedNames m done' names := by
      intro done' hsub name hname
      obtain ⟨f, hf, hline, heq⟩ := hnames name hname
      exact ⟨f, hf, hsub _ hline, heq⟩
    by_cases hne : line = []
    · obtain rfl := hne
      exact ⟨listState m done names, rfl, names, listState_blank.symm,
        hkept fun l hl => List.mem_append_left _ hl⟩
    have hline : line ∈ m.files.map fileLine := by
      refine hperm.mem_iff.mp (List.mem_filter.mpr ⟨?_, decide_eq_true hne⟩)
      rw [hsplit]
      exact List.mem_append_right _ List.mem_cons_self
    obtain ⟨f, hf, rfl⟩ := List.mem_map.mp hline
    have hnew : fileLine f ∉ done := by
      have hnodup := hperm.nodup_iff.mpr (hm.nodup hr)
      rw [hsplit, List.filter_append, List.filter_cons_of_pos (by simpa using hne)] at hnodup
      exact fun hin => notMem_of_nodup hnodup (List.mem_filter.mpr ⟨hin, decide_eq_true hne⟩)
    refine ⟨_, fileLine_read hm hr hf hnew hnames, f.target :: names, rfl, ?_⟩
    intro name hname
    rcases List.mem_cons.mp hname with rfl | hold
    · exact ⟨f, hf, List.mem_append_right _ List.mem_cons_self, rfl⟩
    · exact hkept (fun l hl => List.mem_append_left _ hl) name hold
  obtain ⟨s, hs, names, rfl, -⟩ := hrun
  exact ⟨names, hs⟩

theorem informationMark_read : parseLine (listState m done names) informationMark =
    .ok { listState m done names with state := .information } := by
  rw [parseLine, show (listState m done names).state = .fileList from rfl]
  exact (if_neg (by decide)).trans (if_pos rfl)

theorem information_read {s : ParserState} (h : s.state = .information) (ls : List Text) :
    ls.foldlM parseLine s = .ok { s with information := s.information ++ unlines ls } := by
  induction ls generalizing s with
  | nil =>
    rw [unlines, List.flatMap_nil, List.append_nil]
    rfl
  | cons line ls ih =>
    have hline : parseLine s line = .ok { s with information := s.information ++ line ++ ['\n'] } := by
      rw [parseLine, h]
    rw [foldlM_cons_ok hline]
    refine (ih (by exact h)).trans ?_
    simp only [unlines, List.flatMap_cons, List.append_assoc]

theorem files_complete {files : List Text} (hperm : (files.filter (· ≠ [])).Perm (m.files.map fileLine)) :
    (listState m files names).files = m.files.map some := by
  refine List.map_congr_left fun f hf => if_pos ?_
  exact (List.mem_filter.mp (hperm.mem_iff.mpr (List.mem_map_of_mem hf))).1

end Files

theorem finish_complete {s : ParserState} {gid : UInt32} {minxres title : Text}
    {files : List GalleryFile} (hfiles : s.files = files.map some)
    (hcount : s.filecount = some files.length) (hstate : s.state = .information)
    (hgid : s.gid = some gid) (hminxres : s.minxres = some minxres) (htitle : s.title = some title) :
    finish s = .ok { gid, minxres, title, information := s.information, files } := by
  have hfull : ¬(s.files.length ≠ files.length ∨ s.files.any Option.isNone = true) := by
    rw [hfiles, List.length_map]
    simp
  have hkept : s.files.filterMap id = files := by
    rw [hfiles, List.filterMap_map]
    exact List.filterMap_some
  simp only [finish, hgid, hminxres, htitle, hcount, required, bind, Except.bind]
  rw [if_neg (not_not.mpr hstate), if_neg hfull, hkept]

/-- What was written down is read back. -/
theorem parse_render {m : GalleryMetadata} (hm : WellFormed m) (hr : Renderable m)
    {headers files : List Text} {information : Text}
    (hheaders : (headers.filter (· ≠ [])).Perm (headerLines m))
    (hfiles : (files.filter (· ≠ [])).Perm (m.files.map fileLine))
    (hinformation : m.information = unlines (lines information)) :
    parseGalleryMetadata (render headers files information) = .ok m := by
  have hone : ∀ line ∈ headers ++ fileListMark :: (files ++ [informationMark]), OneLine line := by
    intro line hline
    by_cases hne : line = []
    · rw [hne]
      exact oneLine_nil
    rcases List.mem_append.mp hline with hheader | hline
    · exact oneLine_headerLine hm
        (hheaders.mem_iff.mp (List.mem_filter.mpr ⟨hheader, decide_eq_true hne⟩))
    rcases List.mem_cons.mp hline with rfl | hline
    · exact (word_key (by decide)).oneLine
    rcases List.mem_append.mp hline with hfile | hmark
    · have hin := hfiles.mem_iff.mp (List.mem_filter.mpr ⟨hfile, decide_eq_true hne⟩)
      obtain ⟨f, hf, rfl⟩ := List.mem_map.mp hin
      exact oneLine_fileLine (hm.safe f hf) (hr f hf).2
    · rw [List.mem_singleton.mp hmark]
      exact (word_key (by decide)).oneLine
  obtain ⟨names, hnames⟩ := files_read hm hr hfiles
  have hrun : (lines (render headers files information)).foldlM parseLine .initial =
      .ok { listState m files names with
        state := .information, information := unlines (lines information) } := by
    rw [render, lines_unlines hone, List.append_assoc, foldlM_append_ok (headers_read hm hheaders),
      List.cons_append, foldlM_cons_ok (fileListMark_read hheaders), List.append_assoc,
      foldlM_append_ok hnames, List.singleton_append, foldlM_cons_ok informationMark_read,
      information_read rfl]
    rfl
  have hcomplete : (listState m files names).files = m.files.map some := files_complete hfiles
  rw [← hinformation] at hrun
  rw [parseGalleryMetadata, hrun]
  exact finish_complete (s := { listState m files names with
    state := .information, information := m.information }) hcomplete rfl rfl rfl rfl rfl

/-- What is accepted is well formed, and every well-formed gallery is accepted in whatever order
it is written down. -/
theorem accepts_exactly_wellFormed :
    (∀ (raw : Text) (m : GalleryMetadata), parseGalleryMetadata raw = .ok m →
      WellFormed m ∧ HeadersOnce raw m) ∧
    ∀ (m : GalleryMetadata) (headers files : List Text) (information : Text), WellFormed m →
      Renderable m → (headers.filter (· ≠ [])).Perm (headerLines m) →
      (files.filter (· ≠ [])).Perm (m.files.map fileLine) →
      m.information = unlines (lines information) →
      parseGalleryMetadata (render headers files information) = .ok m :=
  ⟨fun _ _ h => wellFormed_of_parse h,
    fun _ _ _ _ hm hr hheaders hfiles hinformation => parse_render hm hr hheaders hfiles hinformation⟩

def twoPages : GalleryMetadata where
  gid := 7
  minxres := "780".toList
  title := "Two pages".toList
  information := "by hand\n".toList
  files := [⟨1, 12, "780".toList, none, "jpg".toList, "front".toList⟩,
    ⟨2, 9, "org".toList, none, "png".toList, "back side".toList⟩]

theorem wellFormed_twoPages : WellFormed twoPages where
  gid := by decide
  minxres := by decide
  title := by decide
  count := by decide
  pages := by
    intro i f hf
    match i with
    | 0 => cases hf; rfl
    | 1 => cases hf; rfl
    | i + 2 => cases hf
  safe := by
    intro f hf
    simp only [twoPages, List.mem_cons, List.not_mem_nil, or_false] at hf
    rcases hf with rfl | rfl
    · exact ⟨by decide, by decide, by decide, by decide⟩
    · exact ⟨by decide, by decide, by decide, by decide⟩
  distinct := by
    intro i j f g hi hj heq
    match i, j with
    | 0, 0 => rfl
    | 1, 1 => rfl
    | 0, 1 => cases hi; cases hj; exact absurd heq (by decide)
    | 1, 0 => cases hi; cases hj; exact absurd heq (by decide)
    | i + 2, _ => cases hi
    | _, j + 2 => cases hj

theorem renderable_twoPages : Renderable twoPages := by
  intro f hf
  simp only [twoPages, List.mem_cons, List.not_mem_nil, or_false] at hf
  rcases hf with rfl | rfl
  · exact ⟨by decide, by decide, by decide⟩
  · exact ⟨by decide, by decide, by decide⟩

/-- The headers and the files in another order, with empty lines and no line feed at the end. -/
theorem twoPages_read_back : parseGalleryMetadata (render
    [titleLine twoPages, [], minxresLine twoPages, filecountLine twoPages, gidLine twoPages]
    ([] :: (twoPages.files.map fileLine).reverse) "by hand".toList) = .ok twoPages := by
  refine accepts_exactly_wellFormed.2 _ _ _ _ wellFormed_twoPages renderable_twoPages ?_ ?_ ?_
  · exact List.reverse_perm (headerLines twoPages)
  · exact List.reverse_perm (twoPages.files.map fileLine)
  · rfl

end HathRs.GalleryListings
