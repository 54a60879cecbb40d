import HathRs.LruState

/-!
# The canonical form of a file id

An id can be written in several ways: with zeros in front of its numbers, and with a resolution
whose width is zero. Parsing it and printing the file gives one form, which names the same file
in the cache. The digits of the two patterns are those of every script; the integer parser takes
the ASCII ones only, so nothing depends on which others there are.
-/

namespace HathRs.CanonicalIds
open TextParsing FileIds

/-! ## Digits of other scripts -/

/-- The class `\d`: the ASCII digits and others, none of them a sign. -/
structure DigitClass where
  isDigit : Char → Bool
  ascii : ∀ c : Char, c.isDigit = true → isDigit c = true
  hyphen : isDigit '-' = false
  plus : isDigit '+' = false

def isDigitsOf (digits : DigitClass) (most : ℕ) (t : Text) : Bool :=
  1 ≤ t.length && t.length ≤ most && t.all digits.isDigit

/-- The patterns `FILEID_WITH_RES` and `FILEID_WITHOUT_RES` with this class of digits. -/
def isValidFileid (digits : DigitClass) (s : Text) : Bool :=
  match s.splitOn '-' with
  | [hash, size, ext] => isHashText hash && isDigitsOf digits 10 size && extensions.contains ext
  | [hash, size, xres, yres, ext] =>
    isHashText hash && isDigitsOf digits 10 size && isDigitsOf digits 5 xres &&
      isDigitsOf digits 5 yres && extensions.contains ext
  | _ => false

def fromFileid (digits : DigitClass) (fileid : Text) : Option HVFile :=
  if !isValidFileid digits fileid then none
  else
    match fileid.splitOn '-' with
    | [hash, size, ext] => do
      return ⟨← Sha1Hash.new hash, ← parseU32 size, 0, 0, FileType.fromExt ext⟩
    | [hash, size, xres, yres, ext] => do
      return ⟨← Sha1Hash.new hash, ← parseU32 size, ← parseU32 xres, ← parseU32 yres,
        FileType.fromExt ext⟩
    | _ => none

variable {digits : DigitClass} {s s' : Text} {hv hv' : HVFile}

/-- A text that is read as a number has ASCII digits only, but for a plus sign. -/
theorem all_isDigit_of_parseU32 {t : Text} {n : UInt32} (h : parseU32 t = some n) :
    (unsignedDigits t).all Char.isDigit = true := by
  obtain ⟨m, hm, -⟩ := Option.map_eq_some_iff.mp h
  simp only [parseUnsigned] at hm
  split_ifs at hm with hbad
  simp only [Bool.or_eq_true, decide_eq_true_eq, Bool.not_eq_eq_eq_not, Bool.not_true, not_or,
    Bool.not_eq_false] at hbad
  exact hbad.2

theorem isDigitsOf_of_parseU32 {t : Text} {n : UInt32} (h : parseU32 t = some n) (most : ℕ) :
    isDigitsOf digits most t = isDigits most t := by
  have hall := all_isDigit_of_parseU32 h
  have hsame : t.all digits.isDigit = t.all Char.isDigit := by
    cases t with
    | nil => rfl
    | cons c t =>
      by_cases hc : c = '+'
      · subst hc
        simp only [List.all_cons, digits.plus, Bool.false_and]
        rfl
      · have hunsigned : unsignedDigits (c :: t) = c :: t := by simp [unsignedDigits, hc]
        rw [hunsigned] at hall
        rw [hall]
        exact List.all_eq_true.mpr fun d hd => digits.ascii d (List.all_eq_true.mp hall d hd)
  rw [isDigitsOf, isDigits, hsame]

/-- Which other digits there are does not matter. -/
theorem fromFileid_eq (digits : DigitClass) (s : Text) : fromFileid digits s = FileIds.fromFileid s := by
  unfold fromFileid FileIds.fromFileid isValidFileid FileIds.isValidFileid
  rcases s.splitOn '-' with
    _ | ⟨hash, _ | ⟨size, _ | ⟨third, _ | ⟨fourth, _ | ⟨fifth, _ | ⟨_, _⟩⟩⟩⟩⟩⟩
  · rfl
  · rfl
  · rfl
  · cases hsize : parseU32 size with
    | none => simp [hsize]
    | some n => simp only [isDigitsOf_of_parseU32 hsize, hsize]
  · rfl
  · cases hsize : parseU32 size with
    | none => simp [hsize]
    | some n =>
      cases hx : parseU32 third with
      | none => simp [hx]
      | some x =>
        cases hy : parseU32 fourth with
        | none => simp [hy]
        | some y =>
          simp only [isDigitsOf_of_parseU32 hsize, isDigitsOf_of_parseU32 hx,
            isDigitsOf_of_parseU32 hy, hsize, hx, hy]
  · rfl

/-! ## The canonical id -/

/-- What two files have in common when they print the same id. -/
structure SameFile (hv hv' : HVFile) : Prop where
  hash : hv.hash = hv'.hash
  size : hv.size = hv'.size
  fileType : hv.fileType = hv'.fileType
  resolution : 0 < hv.xres ∨ 0 < hv'.xres → hv.xres = hv'.xres ∧ hv.yres = hv'.yres

theorem SameFile.fileid_eq (h : SameFile hv hv') : hv.fileid = hv'.fileid := by
  unfold HVFile.fileid
  by_cases hx : 0 < hv.xres
  · obtain ⟨hxres, hyres⟩ := h.resolution (.inl hx)
    rw [if_pos hx, if_pos (hxres ▸ hx), h.hash, h.size, h.fileType, hxres, hyres]
  · by_cases hx' : 0 < hv'.xres
    · obtain ⟨hxres, -⟩ := h.resolution (.inr hx')
      exact absurd (hxres ▸ hx') hx
    · rw [if_neg hx, if_neg hx', h.hash, h.size, h.fileType]

/-- Parsing one printed id gives one file, so equal ids come from the same file. -/
theorem sameFile_of_fileid_eq (hp : hv.Parsed) (hp' : hv'.Parsed) (h : hv.fileid = hv'.fileid) :
    SameFile hv hv' := by
  have hparse := congrArg FileIds.fromFileid h
  rw [hp.fromFileid_fileid, hp'.fromFileid_fileid, Option.some.injEq] at hparse
  split_ifs at hparse with hx hx' hx'
  · obtain rfl := hparse
    exact ⟨rfl, rfl, rfl, fun _ => ⟨rfl, rfl⟩⟩
  · have hzero : hv.xres = 0 := congrArg HVFile.xres hparse
    exact absurd hx (by rw [hzero]; exact UInt32.lt_irrefl 0)
  · have hzero : 0 = hv'.xres := congrArg HVFile.xres hparse
    exact absurd hx' (by rw [← hzero]; exact UInt32.lt_irrefl 0)
  · obtain ⟨hhash, hsize, -, -, htype⟩ := HVFile.mk.inj hparse
    exact ⟨hhash, hsize, htype, fun hpos => absurd hpos (not_or.mpr ⟨hx, hx'⟩)⟩

theorem take_fileid (hv : HVFile) {k : ℕ} (hk : k ≤ 40) : hv.fileid.take k = hv.hash.text.take k := by
  obtain ⟨tail, htail⟩ := hv.exists_fileid_eq
  rw [htail, List.take_append_of_le_length (by rw [hv.hash.length_text]; exact hk)]

theorem text_of_new {t : Text} {hash : Sha1Hash} (ht : isHashText t = true)
    (h : Sha1Hash.new t = some hash) : hash.text = t := by
  simp only [isHashText, Bool.and_eq_true, decide_eq_true_eq, List.all_eq_true] at ht
  have hnew := Sha1Hash.new_text ⟨t, ht.1, ht.2⟩
  rw [h, Option.some.injEq] at hnew
  rw [hnew]

/-- An accepted id starts with the hash of its file, in the characters of the file. -/
theorem exists_eq_append (h : FileIds.fromFileid s = some hv) :
    ∃ tail, s = hv.hash.text ++ '-' :: tail := by
  obtain ⟨hash, second, rest, hsplit, hhash, hnew⟩ : ∃ hash second rest,
      s.splitOn '-' = hash :: second :: rest ∧ isHashText hash = true ∧
        Sha1Hash.new hash = some hv.hash := by
    rcases fromFileid_cases h with ⟨hash, size, ext, hsplit, hhash, -, -, hnew, -⟩ |
      ⟨hash, size, xres, yres, ext, hsplit, hhash, -, -, -, -, hnew, -⟩
    · exact ⟨hash, size, [ext], hsplit, hhash, hnew⟩
    · exact ⟨hash, size, [xres, yres, ext], hsplit, hhash, hnew⟩
  have hjoin : ['-'].intercalate (s.splitOn '-') = s := List.intercalate_splitOn '-'
  refine ⟨['-'].intercalate (second :: rest), ?_⟩
  rw [text_of_new hhash hnew, ← hjoin, hsplit]
  simp [List.intercalate]

/-- Every accepted id has a printed form that is accepted too and stands for the same file: it has
the characters of the hash in common with the id, names the file in the cache, and tells files
apart by everything that an id can tell. -/
theorem fileid_canonical (digits : DigitClass) (s : Text) (hv : HVFile)
    (h : fromFileid digits s = some hv) :
    (∃ hv', fromFileid digits hv.fileid = some hv' ∧ hv'.fileid = hv.fileid ∧ hv'.hash = hv.hash ∧
      hv'.size = hv.size ∧ hv'.fileType = hv.fileType ∧ hv'.cachePath = hv.cachePath ∧
      hv'.staticRange = hv.staticRange) ∧
    hv.fileid.take 40 = s.take 40 ∧ LruState.slot hv.fileid = LruState.slot s ∧
    hv.staticRange = s.take 4 ∧
    hv.cachePath = [hv.fileid.take 2, (hv.fileid.take 4).drop 2, hv.fileid] ∧
    ∀ s' hv', fromFileid digits s' = some hv' →
      (hv.fileid = hv'.fileid ↔
        hv.hash = hv'.hash ∧ hv.size = hv'.size ∧ hv.fileType = hv'.fileType ∧
          (0 < hv.xres ∨ 0 < hv'.xres → hv.xres = hv'.xres ∧ hv.yres = hv'.yres)) := by
  rw [fromFileid_eq] at h
  have hparsed := parsed_of_fromFileid h
  obtain ⟨tail, htail⟩ := exists_eq_append h
  have hlength := hv.hash.length_text
  have htake : ∀ k ≤ 40, s.take k = hv.hash.text.take k := fun k hk => by
    rw [htail, List.take_append_of_le_length (hlength ▸ hk)]
  refine ⟨?_, ?_, ?_, ?_, ?_, ?_⟩
  · obtain ⟨hv', hparse, hprint⟩ := hparsed.exists_fromFileid
    have hsame := sameFile_of_fileid_eq (parsed_of_fromFileid hparse) hparsed hprint
    refine ⟨hv', (fromFileid_eq digits _).trans hparse, hprint, hsame.hash, hsame.size,
      hsame.fileType, ?_, ?_⟩
    · rw [HVFile.cachePath, HVFile.cachePath, hprint, hsame.hash]
    · rw [HVFile.staticRange, HVFile.staticRange, hsame.hash]
  · rw [take_fileid hv le_rfl, htake 40 le_rfl]
  · rw [LruState.slot_fileid, htail, LruState.slot_append]
  · rw [htake 4 (by omega)]
    rfl
  · rw [take_fileid hv (by omega), take_fileid hv (by omega)]
    rfl
  · intro s' hv' h'
    rw [fromFileid_eq] at h'
    constructor
    · intro hprint
      have hsame := sameFile_of_fileid_eq hparsed (parsed_of_fromFileid h') hprint
      exact ⟨hsame.hash, hsame.size, hsame.fileType, hsame.resolution⟩
    · rintro ⟨hhash, hsize, htype, hresolution⟩
      exact SameFile.fileid_eq ⟨hhash, hsize, htype, hresolution⟩

/-- The ASCII digits and the Arabic-Indic ones. -/
def arabicDigits : DigitClass where
  isDigit c := c.isDigit || (0x660 ≤ c.toNat && c.toNat ≤ 0x669)
  ascii c h := by rw [h, Bool.true_or]
  hyphen := by decide
  plus := by decide

/-- The id of the sample file with a zero in front of its size and a width of zero. -/
def paddedId : Text := "a94a8fe5ccb19ba61c4c0873d391e987982fbbd3-04-0-7-png".toList

theorem paddedId_canonical :
    ∃ hv, fromFileid arabicDigits paddedId = some hv ∧ hv.fileid = sampleId ∧
      fromFileid arabicDigits sampleId = some sampleFile ∧
      hv.fileid.take 40 = paddedId.take 40 ∧ hv.cachePath = sampleFile.cachePath := by
  have hparse : fromFileid arabicDigits paddedId = some ⟨sampleHash, 4, 0, 7, .png⟩ := by decide
  have hsample : fromFileid arabicDigits sampleId = some sampleFile := by decide
  obtain ⟨⟨hv', hprinted, -, -, -, -, hpath, -⟩, hprefix, -⟩ :=
    fileid_canonical arabicDigits paddedId ⟨sampleHash, 4, 0, 7, .png⟩ hparse
  have hid : HVFile.fileid ⟨sampleHash, 4, 0, 7, .png⟩ = sampleId := by decide
  rw [hid, hsample, Option.some.injEq] at hprinted
  exact ⟨_, hparse, hid, hsample, hprefix, hprinted ▸ hpath.symm⟩

end HathRs.CanonicalIds
