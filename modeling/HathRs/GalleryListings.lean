import HathRs.FileIds

/-!
# Gallery metadata

The server describes a gallery by header lines, a list of files and a text. The parser
accepts each header once, takes every page exactly once, and refuses file names that are not
safe or that come twice.
-/

namespace HathRs.GalleryListings
open TextParsing FileIds MachineArithmetic

/-! ## Texts -/

/-- `char::is_whitespace` -/
def isWhitespace (c : Char) : Bool :=
  let n := c.toNat
  (9 ≤ n && n ≤ 13) || n == 0x20 || n == 0x85 || n == 0xA0 || n == 0x1680 ||
    (0x2000 ≤ n && n ≤ 0x200A) || n == 0x2028 || n == 0x2029 || n == 0x202F || n == 0x205F ||
    n == 0x3000

theorem isWhitespace_of_isAlphanum {c : Char} (h : c.isAlphanum = true) : isWhitespace c = false := by
  have hle : ∀ {a b : Char}, a ≤ b → a.toNat ≤ b.toNat :=
    fun hab => UInt32.le_iff_toNat_le.mp (Char.le_def.mp hab)
  have hrange : (48 ≤ c.toNat ∧ c.toNat ≤ 57) ∨ (65 ≤ c.toNat ∧ c.toNat ≤ 90) ∨
      (97 ≤ c.toNat ∧ c.toNat ≤ 122) := by
    simp only [Char.isAlphanum, Char.isAlpha, Char.isUpper, Char.isLower, Char.isDigit,
      Bool.or_eq_true, Bool.and_eq_true, decide_eq_true_eq] at h
    rcases h with (⟨h, h'⟩ | ⟨h, h'⟩) | ⟨h, h'⟩
    · exact .inr (.inl ⟨UInt32.le_iff_toNat_le.mp h, UInt32.le_iff_toNat_le.mp h'⟩)
    · exact .inr (.inr ⟨UInt32.le_iff_toNat_le.mp h, UInt32.le_iff_toNat_le.mp h'⟩)
    · exact .inl ⟨UInt32.le_iff_toNat_le.mp h, UInt32.le_iff_toNat_le.mp h'⟩
  simp only [isWhitespace, Bool.or_eq_false_iff, Bool.and_eq_false_iff, decide_eq_false_iff_not,
    beq_eq_false_iff_ne]
  omega

theorem isAlphanum_of_isDigit {c : Char} (h : c.isDigit = true) : c.isAlphanum = true := by
  rw [Char.isAlphanum, h, Bool.or_true]

private theorem isAlphanum_ofNat : ∀ n < 128, Digests.isLowerHexChar (Char.ofNat n) = true →
    (Char.ofNat n).isAlphanum = true := by
  decide

theorem isAlphanum_of_isLowerHexChar {c : Char} (h : Digests.isLowerHexChar c = true) :
    c.isAlphanum = true := by
  have hlt : c.toNat < 128 := by
    simp only [Digests.isLowerHexChar, Bool.or_eq_true, Bool.and_eq_true, decide_eq_true_eq] at h
    omega
  have hchar := isAlphanum_ofNat c.toNat hlt
  rw [Char.ofNat_toNat] at hchar
  exact hchar h

def trimStart (t : Text) : Text := t.dropWhile isWhitespace

/-- The words after an already collected beginning of the current one. -/
def splitWhitespaceFrom (current : Text) : Text → List Text
  | [] => if current = [] then [] else [current]
  | c :: cs =>
    if isWhitespace c then
      if current = [] then splitWhitespaceFrom [] cs else current :: splitWhitespaceFrom [] cs
    else splitWhitespaceFrom (current ++ [c]) cs

def splitWhitespace (t : Text) : List Text := splitWhitespaceFrom [] t

def parsePositive (value : Text) (field : String) : Except String UInt32 :=
  match (parseU32 value).filter (0 < ·) with
  | some n => .ok n
  | none => .error ("invalid " ++ field)

def validXres (value : Text) : Bool :=
  value == "org".toList || (!value.isEmpty && value.all Char.isDigit)

def isReservedInTitle (c : Char) : Bool := "*\"\\/<>:|?".toList.contains c

def sanitizeTitle (value : Text) : Text :=
  [' '].intercalate (splitWhitespace (value.filter fun c => !isReservedInTitle c))

def reservedNames : List Text :=
  ["CON", "PRN", "AUX", "NUL", "COM1", "COM2", "COM3", "COM4", "COM5", "COM6", "COM7", "COM8", "COM9",
    "LPT1", "LPT2", "LPT3", "LPT4", "LPT5", "LPT6", "LPT7", "LPT8", "LPT9"].map String.toList

def safeFileComponent (value : Text) : Bool :=
  if value.isEmpty || value == ['.'] || value == ['.', '.'] ||
      value.getLast?.any (fun c => c == '.' || c == ' ') ||
      value.any (fun c => c == '/' || c == '\\' || c == ':' || c == '\x00') then false
  else
    let base := (value.takeWhile (· != '.')).map Char.toUpper
    !reservedNames.contains base

def safeFiletype (value : Text) : Bool :=
  !value.isEmpty && (utf8 value).length ≤ 16 && value.all Char.isAlphanum

/-! ## The file list -/

structure GalleryFile where
  page : UInt32
  fileindex : UInt32
  xres : Text
  expectedSha1 : Option Sha1Hash
  filetype : Text
  filename : Text
  deriving DecidableEq

/-- The name of the file in the gallery's directory. -/
def GalleryFile.target (file : GalleryFile) : Text := file.filename ++ '.' :: file.filetype

/-- The next fields of a line, each with whitespace before and after it, and the rest. -/
def takeFields : ℕ → Text → Except String (List Text × Text)
  | 0, rest => .ok ([], rest)
  | n + 1, rest =>
    let rest := trimStart rest
    let field := rest.takeWhile (!isWhitespace ·)
    let rest := rest.dropWhile (!isWhitespace ·)
    if rest.isEmpty then .error "truncated gallery file entry"
    else (takeFields n rest).map fun (fields, rest) => (field :: fields, rest)

def parseSha1 (field : Text) : Except String (Option Sha1Hash) :=
  if field = "unknown".toList then .ok none
  else
    match Sha1Hash.new field with
    | some hash => .ok (some hash)
    | none => .error "invalid gallery SHA-1"

def parseFileLine (line : Text) : Except String GalleryFile := do
  let (fields, rest) ← takeFields 5 line
  let filename := trimStart rest
  let page ← parsePositive (fields.getD 0 []) "page"
  let fileindex ← parsePositive (fields.getD 1 []) "fileindex"
  let xres := fields.getD 2 []
  let filetype := fields.getD 4 []
  if !validXres xres || !safeFileComponent filename || !safeFiletype filetype then
    .error "unsafe gallery file entry"
  else do
    let expectedSha1 ← parseSha1 (fields.getD 3 [])
    .ok { page, fileindex, xres, expectedSha1, filetype, filename }

/-! ## The parser -/

structure GalleryMetadata where
  gid : UInt32
  minxres : Text
  title : Text
  information : Text
  files : List GalleryFile

def maxGalleryFiles : ℕ := 10000

inductive Section where
  | header
  | fileList
  | information
  deriving DecidableEq

/-- `filenames` are the names listed so far, and `files` has a place for each page. -/
structure ParserState where
  state : Section
  gid : Option UInt32
  filecount : Option ℕ
  minxres : Option Text
  title : Option Text
  files : List (Option GalleryFile)
  filenames : List Text
  information : Text

def ParserState.initial : ParserState := ⟨.header, none, none, none, none, [], [], []⟩

def headerField (s : ParserState) (key value : Text) : Except String ParserState :=
  if key = "GID".toList ∧ s.gid = none then do
    let gid ← parsePositive value "gid"
    .ok { s with gid := some gid }
  else if key = "FILECOUNT".toList ∧ s.filecount = none then do
    let count ← parsePositive value "filecount"
    if count.toNat > maxGalleryFiles then .error "gallery filecount exceeds limit"
    else .ok { s with filecount := some count.toNat }
  else if key = "MINXRES".toList ∧ s.minxres = none ∧ validXres value = true then
    .ok { s with minxres := some value }
  else if key = "TITLE".toList ∧ s.title = none then
    .ok { s with title := some (sanitizeTitle value) }
  else .error ("invalid gallery header key: " ++ String.ofList key)

def headerLine (s : ParserState) (line : Text) : Except String ParserState :=
  if line.isEmpty then .ok s
  else if line = "FILELIST".toList then
    match s.filecount with
    | none => .error "FILELIST before FILECOUNT"
    | some count => .ok { s with files := List.replicate count none, state := .fileList }
  else
    match splitOnce ' ' line with
    | none => .error "invalid gallery header line"
    | some (key, value) => headerField s key value

/-- The entry takes the place of its page. -/
def listFile (s : ParserState) (count : ℕ) (entry : GalleryFile) : Except String ParserState :=
  if entry.page = 0 ∨ entry.page.toNat > count then .error "gallery page is out of range"
  else if entry.target ∈ s.filenames then .error "gallery contains duplicate output filename"
  else
    let place := entry.page.toNat - 1
    if (s.files[place]?).any Option.isSome then .error "gallery contains duplicate page"
    else .ok { s with
      files := s.files.set place (some entry)
      filenames := entry.target :: s.filenames }

def fileListLine (s : ParserState) (line : Text) : Except String ParserState :=
  if line.isEmpty then .ok s
  else if line = "INFORMATION".toList then .ok { s with state := .information }
  else do
    let entry ← parseFileLine line
    match s.filecount with
    | none => .error "FILELIST requires FILECOUNT"
    | some count => listFile s count entry

def parseLine (s : ParserState) (line : Text) : Except String ParserState :=
  match s.state with
  | .header => headerLine s line
  | .fileList => fileListLine s line
  | .information => .ok { s with information := s.information ++ line ++ ['\n'] }

def required {α : Type} (value : Option α) (message : String) : Except String α :=
  match value with
  | some a => .ok a
  | none => .error message

def finish (s : ParserState) : Except String GalleryMetadata := do
  let gid ← required s.gid "gallery has no gid"
  let minxres ← required s.minxres "gallery has no minxres"
  let title ← required s.title "gallery has no title"
  let filecount ← required s.filecount "gallery has no filecount"
  if s.state ≠ .information then .error "gallery has no INFORMATION section"
  else if s.files.length ≠ filecount ∨ s.files.any Option.isNone then
    .error "gallery file list is incomplete"
  else .ok { gid, minxres, title, information := s.information, files := s.files.filterMap id }

def parseGalleryMetadata (raw : Text) : Except String GalleryMetadata := do
  let s ← (lines raw).foldlM parseLine .initial
  finish s

/-! ## What is accepted -/

/-- A name that stays inside the directory it is joined to. -/
def PlainName (name : Text) : Prop :=
  name ≠ [] ∧ '/' ∉ name ∧ name ≠ ['.'] ∧ name ≠ ['.', '.']

/-- The listed files have plain names, and no two of them the same. -/
structure Sound (s : ParserState) : Prop where
  plain : ∀ (i : ℕ) (f : GalleryFile), s.files[i]? = some (some f) → PlainName f.target
  listed : ∀ (i : ℕ) (f : GalleryFile), s.files[i]? = some (some f) → f.target ∈ s.filenames
  distinct : ∀ (i j : ℕ) (f g : GalleryFile), s.files[i]? = some (some f) →
    s.files[j]? = some (some g) → f.target = g.target → i = j

section Accepted

variable {s next : ParserState}

theorem slash_notMem_of_isAlphanum {t : Text} (h : t.all Char.isAlphanum = true) : '/' ∉ t :=
  fun hmem => absurd (List.all_eq_true.mp h _ hmem) (by decide)

theorem plainName_target {file : GalleryFile} (hname : safeFileComponent file.filename = true)
    (htype : safeFiletype file.filetype = true) : PlainName file.target := by
  simp only [safeFileComponent] at hname
  split_ifs at hname with hunsafe
  simp only [safeFiletype, Bool.and_eq_true] at htype
  obtain ⟨⟨htype, -⟩, halnum⟩ := htype
  simp only [Bool.or_eq_true, not_or, Bool.not_eq_true] at hunsafe
  obtain ⟨⟨⟨⟨hne, -⟩, -⟩, -⟩, hchars⟩ := hunsafe
  have hlong : 3 ≤ file.target.length := by
    have h₁ : file.filename ≠ [] := by simpa using hne
    have h₂ : file.filetype ≠ [] := by simpa using htype
    have := List.length_pos_iff.mpr h₁
    have := List.length_pos_iff.mpr h₂
    simp only [GalleryFile.target, List.length_append, List.length_cons]
    omega
  refine ⟨?_, ?_, ?_, ?_⟩
  · rintro heq
    simp [heq] at hlong
  · intro hmem
    rcases List.mem_append.mp hmem with hleft | hright
    · exact absurd (List.any_eq_false.mp hchars _ hleft) (by decide)
    · rcases List.mem_cons.mp hright with hdot | hext
      · exact absurd hdot (by decide)
      · exact slash_notMem_of_isAlphanum halnum hext
  · rintro heq
    simp [heq] at hlong
  · rintro heq
    simp [heq] at hlong

theorem plainName_of_parseFileLine {line : Text} {file : GalleryFile}
    (h : parseFileLine line = .ok file) : PlainName file.target := by
  obtain ⟨⟨fields, rest⟩, -, h⟩ := bind_eq_ok h
  obtain ⟨page, -, h⟩ := bind_eq_ok h
  obtain ⟨fileindex, -, h⟩ := bind_eq_ok h
  simp only at h
  split_ifs at h with hsafe
  obtain ⟨hash, -, h⟩ := bind_eq_ok h
  cases h
  simp only [Bool.or_eq_true, not_or, Bool.not_eq_true, Bool.not_eq_false'] at hsafe
  exact plainName_target hsafe.1.2 hsafe.2

theorem Sound.listFile (h : Sound s) {count : ℕ} {entry : GalleryFile} (hplain : PlainName entry.target)
    (hs : listFile s count entry = .ok next) : Sound next := by
  simp only [GalleryListings.listFile] at hs
  split_ifs at hs with hpage hname hplace
  cases hs
  have hcases : ∀ (i : ℕ) (f : GalleryFile),
      (s.files.set (entry.page.toNat - 1) (some entry))[i]? = some (some f) →
      (i = entry.page.toNat - 1 ∧ f = entry) ∨
        (i ≠ entry.page.toNat - 1 ∧ s.files[i]? = some (some f)) := by
    intro i f hget
    rw [List.getElem?_set] at hget
    split_ifs at hget with heq
    · cases hget
      exact .inl ⟨heq.symm, rfl⟩
    · exact .inr ⟨Ne.symm heq, hget⟩
  refine ⟨fun i f hget => ?_, fun i f hget => ?_, fun i j f g hi hj heq => ?_⟩
  · rcases hcases i f hget with ⟨-, rfl⟩ | ⟨-, hold⟩
    · exact hplain
    · exact h.plain i f hold
  · rcases hcases i f hget with ⟨-, rfl⟩ | ⟨-, hold⟩
    · exact List.mem_cons_self
    · exact List.mem_cons_of_mem _ (h.listed i f hold)
  · rcases hcases i f hi with ⟨rfl, rfl⟩ | ⟨-, hold⟩
    · rcases hcases j g hj with ⟨rfl, -⟩ | ⟨-, hold'⟩
      · rfl
      · exact absurd (heq ▸ h.listed j g hold') hname
    · rcases hcases j g hj with ⟨rfl, rfl⟩ | ⟨-, hold'⟩
      · exact absurd (heq ▸ h.listed i f hold) hname
      · exact h.distinct i j f g hold hold' heq

/-- A header leaves the list of files alone. -/
theorem headerField_files {key value : Text} (hs : headerField s key value = .ok next) :
    next.files = s.files ∧ next.filenames = s.filenames := by
  simp only [headerField] at hs
  split_ifs at hs
  · obtain ⟨gid, -, hs⟩ := bind_eq_ok hs
    cases hs
    exact ⟨rfl, rfl⟩
  · obtain ⟨count, -, hs⟩ := bind_eq_ok hs
    split_ifs at hs
    cases hs
    exact ⟨rfl, rfl⟩
  · cases hs
    exact ⟨rfl, rfl⟩
  · cases hs
    exact ⟨rfl, rfl⟩

theorem Sound.congr (h : Sound s) (hfiles : next.files = s.files)
    (hnames : next.filenames = s.filenames) : Sound next := by
  obtain ⟨hplain, hlisted, hdistinct⟩ := h
  rw [← hfiles] at hplain hlisted hdistinct
  rw [← hnames] at hlisted
  exact ⟨hplain, hlisted, hdistinct⟩

theorem Sound.headerLine (h : Sound s) {line : Text} (hs : headerLine s line = .ok next) :
    Sound next := by
  simp only [GalleryListings.headerLine] at hs
  split_ifs at hs
  · cases hs
    exact h
  · cases hcount : s.filecount with
    | none =>
      rw [hcount] at hs
      cases hs
    | some count =>
      rw [hcount] at hs
      cases hs
      have hnone : ∀ (i : ℕ) (f : GalleryFile), (List.replicate count none)[i]? ≠ some (some f) := by
        intro i f hget
        cases List.eq_of_mem_replicate (List.mem_of_getElem? hget)
      exact ⟨fun i f hget => absurd hget (hnone i f), fun i f hget => absurd hget (hnone i f),
        fun i j f g hi => absurd hi (hnone i f)⟩
  · cases hsplit : splitOnce ' ' line with
    | none =>
      rw [hsplit] at hs
      cases hs
    | some pair =>
      rw [hsplit] at hs
      obtain ⟨hfiles, hnames⟩ := headerField_files hs
      exact h.congr hfiles hnames

theorem Sound.fileListLine (h : Sound s) {line : Text} (hs : fileListLine s line = .ok next) :
    Sound next := by
  simp only [GalleryListings.fileListLine] at hs
  split_ifs at hs
  · cases hs
    exact h
  · cases hs
    exact h.congr rfl rfl
  · obtain ⟨entry, hentry, hs⟩ := bind_eq_ok hs
    cases hcount : s.filecount with
    | none =>
      rw [hcount] at hs
      cases hs
    | some count =>
      rw [hcount] at hs
      exact h.listFile (plainName_of_parseFileLine hentry) hs

theorem Sound.parseLine (h : Sound s) {line : Text} (hs : parseLine s line = .ok next) :
    Sound next := by
  simp only [GalleryListings.parseLine] at hs
  cases hstate : s.state with
  | header =>
    rw [hstate] at hs
    exact h.headerLine hs
  | fileList =>
    rw [hstate] at hs
    exact h.fileListLine hs
  | information =>
    rw [hstate] at hs
    cases hs
    exact h.congr rfl rfl

theorem sound_initial : Sound .initial := by
  refine ⟨fun i f hget => ?_, fun i f hget => ?_, fun i j f g hget => ?_⟩ <;>
    simp [ParserState.initial] at hget

theorem Sound.foldlM (h : Sound s) {ls : List Text}
    (hs : ls.foldlM GalleryListings.parseLine s = .ok next) : Sound next := by
  induction ls generalizing s with
  | nil =>
    cases hs
    exact h
  | cons line ls ih =>
    obtain ⟨mid, hmid, hs⟩ := bind_eq_ok hs
    exact ih (h.parseLine hmid) hs

/-- Every place of the list is taken. -/
theorem map_some_filterMap {slots : List (Option GalleryFile)} (h : slots.any Option.isNone = false) :
    (slots.filterMap id).map some = slots := by
  induction slots with
  | nil => rfl
  | cons slot slots ih =>
    rw [List.any_cons, Bool.or_eq_false_iff] at h
    cases slot with
    | none => cases h.1
    | some f => exact congrArg (some f :: ·) (ih h.2)

/-- The files of an accepted gallery have plain names, and no two of them the same. -/
theorem accepted_names {raw : Text} {metadata : GalleryMetadata}
    (h : parseGalleryMetadata raw = .ok metadata) :
    (∀ f ∈ metadata.files, PlainName f.target) ∧
      ∀ (i j : ℕ) (f g : GalleryFile), metadata.files[i]? = some f → metadata.files[j]? = some g →
        f.target = g.target → i = j := by
  obtain ⟨s, hs, h⟩ := bind_eq_ok h
  have hsound : Sound s := sound_initial.foldlM hs
  obtain ⟨gid, -, h⟩ := bind_eq_ok h
  obtain ⟨minxres, -, h⟩ := bind_eq_ok h
  obtain ⟨title, -, h⟩ := bind_eq_ok h
  obtain ⟨filecount, -, h⟩ := bind_eq_ok h
  split_ifs at h with hstate hfull
  cases h
  have hslots := map_some_filterMap (Bool.eq_false_iff.mpr (not_or.mp hfull).2)
  have hget : ∀ (i : ℕ) (f : GalleryFile), (s.files.filterMap id)[i]? = some f →
      s.files[i]? = some (some f) := by
    intro i f hf
    rw [← hslots, List.getElem?_map, hf]
    rfl
  refine ⟨fun f hf => ?_, fun i j f g hi hj => hsound.distinct i j f g (hget i f hi) (hget j g hj)⟩
  obtain ⟨i, hi⟩ := List.mem_iff_getElem?.mp hf
  exact hsound.plain i f (hget i f hi)

end Accepted

end HathRs.GalleryListings
