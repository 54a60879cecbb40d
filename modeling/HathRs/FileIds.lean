import HathRs.Digests
import HathRs.MachineArithmetic

/-!
# File ids

A cached file is named by its id: the SHA-1 of its content, its size, optionally its
resolution, and its type. `fromFileid` parses an id and `fileid` prints the canonical
one, which is also the file name in the cache. The printed id determines the hash and
the size, so a cache path belongs to one hash and one size.
-/

namespace HathRs.FileIds
open TextParsing Digests MachineArithmetic

/-- A SHA-1 in forty lowercase hexadecimal characters. -/
structure Sha1Hash where
  text : Text
  length_text : text.length = 40
  lowerHex : ∀ c ∈ text, isLowerHexChar c = true
  deriving DecidableEq

def isAsciiHexdigit (c : Char) : Bool := (hexValue c).isSome

private theorem isLowerHexChar_toLower_ofNat : ∀ n < 128,
    isAsciiHexdigit (Char.ofNat n) = true → isLowerHexChar (Char.ofNat n).toLower = true := by
  decide

theorem toNat_lt_of_isAsciiHexdigit {c : Char} (h : isAsciiHexdigit c = true) : c.toNat < 128 := by
  have hle : ∀ {d : Char}, c ≤ d → c.toNat ≤ d.toNat :=
    fun hd => UInt32.le_iff_toNat_le.mp (Char.le_def.mp hd)
  simp only [isAsciiHexdigit, hexValue] at h
  split_ifs at h with h₁ h₂ h₃
  · exact lt_of_le_of_lt (hle h₁.2) (by decide)
  · exact lt_of_le_of_lt (hle h₂.2) (by decide)
  · exact lt_of_le_of_lt (hle h₃.2) (by decide)
  · cases h

theorem isLowerHexChar_toLower {c : Char} (h : isAsciiHexdigit c = true) :
    isLowerHexChar c.toLower = true := by
  have hc : Char.ofNat c.toNat = c := Char.ofNat_toNat c
  have hlower := isLowerHexChar_toLower_ofNat c.toNat (toNat_lt_of_isAsciiHexdigit h)
  rw [hc] at hlower
  exact hlower h

/-- `Sha1Hash::new` -/
def Sha1Hash.new (s : Text) : Option Sha1Hash :=
  if h : s.length = 40 ∧ s.all isAsciiHexdigit = true then
    some ⟨s.map Char.toLower, by simp [h.1], by
      intro c hc
      obtain ⟨d, hd, rfl⟩ := List.mem_map.mp hc
      exact isLowerHexChar_toLower (List.all_eq_true.mp h.2 d hd)⟩
  else none

inductive FileType where
  | jpeg
  | png
  | gif
  | mp4
  | webm
  | webp
  | avif
  | jxl
  | other (ext : Text)
  deriving DecidableEq

namespace FileType

/-- `FileType::from_ext` -/
def fromExt (ext : Text) : FileType :=
  let lower := ext.map Char.toLower
  if lower = "jpg".toList ∨ lower = "jpeg".toList then .jpeg
  else if lower = "png".toList then .png
  else if lower = "gif".toList then .gif
  else if lower = "mp4".toList then .mp4
  else if lower = "wbm".toList ∨ lower = "webm".toList then .webm
  else if lower = "wbp".toList ∨ lower = "webp".toList then .webp
  else if lower = "avf".toList ∨ lower = "avif".toList then .avif
  else if lower = "jxl".toList then .jxl
  else .other lower

def asExt : FileType → Text
  | .jpeg => "jpg".toList
  | .png => "png".toList
  | .gif => "gif".toList
  | .mp4 => "mp4".toList
  | .webm => "wbm".toList
  | .webp => "wbp".toList
  | .avif => "avf".toList
  | .jxl => "jxl".toList
  | .other ext => ext

end FileType

/-- The alternatives of the two patterns. -/
def extensions : List Text :=
  ["jpg".toList, "png".toList, "gif".toList, "mp4".toList, "wbm".toList, "wbp".toList,
    "avf".toList, "jxl".toList]

structure HVFile where
  hash : Sha1Hash
  size : UInt32
  xres : UInt32
  yres : UInt32
  fileType : FileType
  deriving DecidableEq

/-- `\d{1,n}`. The pattern also matches decimal digits of other scripts, which the integer
parser rejects afterwards, so only ASCII digits lead to a file. -/
def isDigits (most : ℕ) (t : Text) : Bool := 1 ≤ t.length && t.length ≤ most && t.all Char.isDigit

/-- `[a-f0-9]{40}` -/
def isHashText (t : Text) : Bool := t.length = 40 && t.all isLowerHexChar

/-- The patterns `FILEID_WITH_RES` and `FILEID_WITHOUT_RES`: no part can hold a hyphen, so
they are matched on the parts between hyphens. -/
def isValidFileid (s : Text) : Bool :=
  match s.splitOn '-' with
  | [hash, size, ext] => isHashText hash && isDigits 10 size && extensions.contains ext
  | [hash, size, xres, yres, ext] =>
    isHashText hash && isDigits 10 size && isDigits 5 xres && isDigits 5 yres &&
      extensions.contains ext
  | _ => false

def fromFileid (fileid : Text) : Option HVFile :=
  if !isValidFileid fileid then none
  else
    match fileid.splitOn '-' with
    | [hash, size, ext] => do
      return ⟨← Sha1Hash.new hash, ← parseU32 size, 0, 0, FileType.fromExt ext⟩
    | [hash, size, xres, yres, ext] => do
      return ⟨← Sha1Hash.new hash, ← parseU32 size, ← parseU32 xres, ← parseU32 yres,
        FileType.fromExt ext⟩
    | _ => none

namespace HVFile

/-- The canonical id, stored as `fileid_cache` when the value is built. -/
def fileid (hv : HVFile) : Text :=
  if 0 < hv.xres then
    hv.hash.text ++ '-' :: (decimal hv.size.toNat ++ '-' :: (decimal hv.xres.toNat ++
      '-' :: (decimal hv.yres.toNat ++ '-' :: hv.fileType.asExt)))
  else hv.hash.text ++ '-' :: (decimal hv.size.toNat ++ '-' :: hv.fileType.asExt)

/-- The path below the cache directory. -/
def cachePath (hv : HVFile) : List Text :=
  [hv.hash.text.take 2, (hv.hash.text.take 4).drop 2, hv.fileid]

def staticRange (hv : HVFile) : Text := hv.hash.text.take 4

end HVFile

/-! ## What an id determines -/

theorem Sha1Hash.ascii (hash : Sha1Hash) : Ascii hash.text := by
  intro c hc
  have h := hash.lowerHex c hc
  simp only [isLowerHexChar, Bool.or_eq_true, Bool.and_eq_true, decide_eq_true_eq] at h
  omega

theorem Sha1Hash.ext {a b : Sha1Hash} (h : a.text = b.text) : a = b := by
  cases a
  cases b
  cases h
  rfl

/-- Both printed forms start with the hash and the size. -/
theorem HVFile.exists_fileid_eq (hv : HVFile) :
    ∃ tail, hv.fileid = hv.hash.text ++ '-' :: (decimal hv.size.toNat ++ '-' :: tail) := by
  by_cases h : 0 < hv.xres
  · exact ⟨_, if_pos h⟩
  · exact ⟨_, if_neg h⟩

theorem decimal_size_inj {n m : UInt32} (h : decimal n.toNat = decimal m.toNat) : n = m := by
  have hparse := congrArg parseU32 h
  rw [parseU32_decimal, parseU32_decimal] at hparse
  exact Option.some.inj hparse

/-- Files with the same printed id have the same hash and the same size. -/
theorem HVFile.hash_size_of_fileid_eq {hv hv' : HVFile} (h : hv.fileid = hv'.fileid) :
    hv.hash = hv'.hash ∧ hv.size = hv'.size := by
  obtain ⟨tail, ht⟩ := hv.exists_fileid_eq
  obtain ⟨tail', ht'⟩ := hv'.exists_fileid_eq
  rw [ht, ht'] at h
  obtain ⟨hhash, hrest⟩ := List.append_inj h (by rw [hv.hash.length_text, hv'.hash.length_text])
  have hdash : ∀ n, '-' ∉ decimal n := fun n hmem => ne_of_mem_decimal hmem (by decide) rfl
  have hsplit := congrArg (splitOnce '-') (List.cons.inj hrest).2
  rw [splitOnce_append (hdash _), splitOnce_append (hdash _)] at hsplit
  exact ⟨Sha1Hash.ext hhash, decimal_size_inj (congrArg Prod.fst (Option.some.inj hsplit))⟩

/-- A cache path belongs to one file id. -/
theorem HVFile.fileid_of_cachePath_eq {hv hv' : HVFile} (h : hv.cachePath = hv'.cachePath) :
    hv.fileid = hv'.fileid := by
  simp only [cachePath, List.cons.injEq] at h
  exact h.2.2.1

theorem HVFile.staticRange_of_cachePath_eq {hv hv' : HVFile} (h : hv.cachePath = hv'.cachePath) :
    hv.staticRange = hv'.staticRange := by
  rw [staticRange, staticRange, (hash_size_of_fileid_eq (fileid_of_cachePath_eq h)).1]

/-- Cut in two, the static range gives the directories of the cache path. -/
theorem HVFile.byteSlice_staticRange (hv : HVFile) :
    byteSlice hv.staticRange 0 2 = .ok (hv.hash.text.take 2) ∧
      byteSlice hv.staticRange 2 4 = .ok ((hv.hash.text.take 4).drop 2) := by
  have hascii : Ascii hv.staticRange := fun c hc => hv.hash.ascii c (List.mem_of_mem_take hc)
  have hlen : hv.staticRange.length = 4 := by
    rw [staticRange, List.length_take, hv.hash.length_text]
    rfl
  have hfront := byteSlice_append hascii [] (Nat.zero_le 2) (by omega)
  have hback := byteSlice_append hascii [] (show 2 ≤ 4 by omega) (by omega)
  rw [List.append_nil] at hfront hback
  refine ⟨?_, ?_⟩
  · rw [hfront, staticRange, List.take_take]
    rfl
  · rw [hback, List.take_of_length_le (Nat.le_of_eq hlen), staticRange]

/-! ## The canonical id -/

/-- What parsing promises beyond the types of the fields. -/
structure HVFile.Parsed (hv : HVFile) : Prop where
  xres_lt : hv.xres.toNat < 10 ^ 5
  yres_lt : hv.yres.toNat < 10 ^ 5
  fileType : FileType.fromExt hv.fileType.asExt = hv.fileType
  ext : hv.fileType.asExt ∈ extensions

private theorem fromExt_of_extension : ∀ ext ∈ extensions,
    FileType.fromExt (FileType.fromExt ext).asExt = FileType.fromExt ext ∧
      (FileType.fromExt ext).asExt ∈ extensions := by
  decide

theorem isDigits_decimal {n k : ℕ} (hk : 0 < k) (h : n < 10 ^ k) : isDigits k (decimal n) = true := by
  have hpos : 1 ≤ (decimal n).length := List.length_pos_iff.mpr (decimal_ne_nil n)
  have hle : (decimal n).length ≤ k := (Nat.length_toDigits_le_iff (by omega) hk).mpr h
  simp only [isDigits, Bool.and_eq_true, decide_eq_true_eq, List.all_eq_true]
  exact ⟨⟨hpos, hle⟩, fun _ hc => isDigit_of_mem_decimal hc⟩

theorem length_le_of_isDigits {t : Text} {k : ℕ} (h : isDigits k t = true) : t.length ≤ k := by
  simp only [isDigits, Bool.and_eq_true, decide_eq_true_eq] at h
  exact h.1.2

/-- The two shapes of an accepted id. -/
theorem fromFileid_cases {id : Text} {hv : HVFile} (h : fromFileid id = some hv) :
    (∃ hash size ext, id.splitOn '-' = [hash, size, ext] ∧ isHashText hash = true ∧
      isDigits 10 size = true ∧ ext ∈ extensions ∧ Sha1Hash.new hash = some hv.hash ∧
      parseU32 size = some hv.size ∧ hv.xres = 0 ∧ hv.yres = 0 ∧
      hv.fileType = FileType.fromExt ext) ∨
    ∃ hash size xres yres ext, id.splitOn '-' = [hash, size, xres, yres, ext] ∧
      isHashText hash = true ∧ isDigits 10 size = true ∧ isDigits 5 xres = true ∧
      isDigits 5 yres = true ∧ ext ∈ extensions ∧ Sha1Hash.new hash = some hv.hash ∧
      parseU32 size = some hv.size ∧ parseU32 xres = some hv.xres ∧ parseU32 yres = some hv.yres ∧
      hv.fileType = FileType.fromExt ext := by
  have hvalid : isValidFileid id = true := by
    by_contra hnot
    simp [fromFileid, hnot] at h
  simp only [fromFileid, hvalid, Bool.not_true, Bool.false_eq_true, if_false] at h
  rw [isValidFileid] at hvalid
  generalize id.splitOn '-' = parts at h hvalid
  rcases parts with _ | ⟨hash, _ | ⟨size, _ | ⟨third, _ | ⟨fourth, _ | ⟨fifth,
      _ | ⟨_, _⟩⟩⟩⟩⟩⟩ <;>
    simp only [reduceCtorEq, Bool.and_eq_true, List.contains_iff_mem, bind, pure,
      Option.bind_eq_some_iff, Option.some.injEq] at h hvalid
  · obtain ⟨⟨hhash, hsize⟩, hext⟩ := hvalid
    obtain ⟨sha, hsha, n, hn, rfl⟩ := h
    exact .inl ⟨hash, size, third, rfl, hhash, hsize, hext, hsha, hn, rfl, rfl, rfl⟩
  · obtain ⟨⟨⟨⟨hhash, hsize⟩, hxd⟩, hyd⟩, hext⟩ := hvalid
    obtain ⟨sha, hsha, n, hn, x, hx, y, hy, rfl⟩ := h
    exact .inr ⟨hash, size, third, fourth, fifth, rfl, hhash, hsize, hxd, hyd, hext, hsha, hn, hx,
      hy, rfl⟩

theorem parsed_of_fromFileid {id : Text} {hv : HVFile} (h : fromFileid id = some hv) : hv.Parsed := by
  rcases fromFileid_cases h with ⟨hash, size, ext, -, -, -, hext, -, -, hx, hy, htype⟩ |
    ⟨hash, size, xres, yres, ext, -, -, -, hxd, hyd, hext, -, -, hx, hy, htype⟩
  · obtain ⟨hfrom, hmem⟩ := fromExt_of_extension ext hext
    exact ⟨by rw [hx]; decide, by rw [hy]; decide, by rw [htype, hfrom], by rw [htype]; exact hmem⟩
  · obtain ⟨hfrom, hmem⟩ := fromExt_of_extension ext hext
    exact ⟨parseU32_lt hx (length_le_of_isDigits hxd), parseU32_lt hy (length_le_of_isDigits hyd),
      by rw [htype, hfrom], by rw [htype]; exact hmem⟩

private theorem lowerHex_ofNat : ∀ n < 128, isLowerHexChar (Char.ofNat n) = true →
    isAsciiHexdigit (Char.ofNat n) = true ∧ (Char.ofNat n).toLower = Char.ofNat n := by
  decide

theorem Sha1Hash.new_text (hash : Sha1Hash) : Sha1Hash.new hash.text = some hash := by
  have hchar : ∀ c ∈ hash.text, isAsciiHexdigit c = true ∧ c.toLower = c := by
    intro c hc
    have hlower := lowerHex_ofNat c.toNat (hash.ascii c hc)
    rw [Char.ofNat_toNat] at hlower
    exact hlower (hash.lowerHex c hc)
  have hmap : hash.text.map Char.toLower = hash.text := by
    conv_rhs => rw [← List.map_id hash.text]
    exact List.map_congr_left fun c hc => (hchar c hc).2
  rw [Sha1Hash.new, dif_pos ⟨hash.length_text, List.all_eq_true.mpr fun c hc => (hchar c hc).1⟩]
  exact congrArg some (Sha1Hash.ext hmap)

theorem Sha1Hash.isHashText_text (hash : Sha1Hash) : isHashText hash.text = true := by
  simp only [isHashText, hash.length_text, decide_true, Bool.true_and, List.all_eq_true]
  exact hash.lowerHex

/-- Every part of a printed id is free of hyphens. -/
private theorem hyphen_notMem_extensions : ∀ ext ∈ extensions, '-' ∉ ext := by decide

theorem Sha1Hash.hyphen_notMem (hash : Sha1Hash) : '-' ∉ hash.text := fun h =>
  absurd (hash.lowerHex _ h) (by decide)

/-- The printed id is accepted again, and only a height without a width is lost. -/
theorem HVFile.Parsed.fromFileid_fileid {hv : HVFile} (h : hv.Parsed) :
    fromFileid hv.fileid =
      some (if 0 < hv.xres then hv else { hv with xres := 0, yres := 0 }) := by
  have hdash : ∀ n, '-' ∉ decimal n := fun n hmem => ne_of_mem_decimal hmem (by decide) rfl
  have hext := hyphen_notMem_extensions _ h.ext
  have hsize : isDigits 10 (decimal hv.size.toNat) = true :=
    isDigits_decimal (by omega) (lt_trans hv.size.toNat_lt (by decide))
  by_cases hx : 0 < hv.xres
  · have hsplit : hv.fileid.splitOn '-' = [hv.hash.text, decimal hv.size.toNat,
        decimal hv.xres.toNat, decimal hv.yres.toNat, hv.fileType.asExt] := by
      rw [fileid, if_pos hx, List.splitOn_append_cons_self_of_not_mem hv.hash.hyphen_notMem,
        List.splitOn_append_cons_self_of_not_mem (hdash _),
        List.splitOn_append_cons_self_of_not_mem (hdash _),
        List.splitOn_append_cons_self_of_not_mem (hdash _), List.splitOn_eq_singleton hext]
    simp [fromFileid, isValidFileid, hsplit, hv.hash.isHashText_text, hsize,
      isDigits_decimal (by omega) h.xres_lt, isDigits_decimal (by omega) h.yres_lt, h.ext,
      hv.hash.new_text, parseU32_decimal, h.fileType, hx]
  · have hsplit : hv.fileid.splitOn '-' =
        [hv.hash.text, decimal hv.size.toNat, hv.fileType.asExt] := by
      rw [fileid, if_neg hx, List.splitOn_append_cons_self_of_not_mem hv.hash.hyphen_notMem,
        List.splitOn_append_cons_self_of_not_mem (hdash _), List.splitOn_eq_singleton hext]
    simp [fromFileid, isValidFileid, hsplit, hv.hash.isHashText_text, hsize, h.ext,
      hv.hash.new_text, parseU32_decimal, h.fileType, hx]

/-- The file that is parsed from a printed id prints the same id. -/
theorem HVFile.Parsed.exists_fromFileid {hv : HVFile} (h : hv.Parsed) :
    ∃ hv', fromFileid hv.fileid = some hv' ∧ hv'.fileid = hv.fileid := by
  refine ⟨_, h.fromFileid_fileid, ?_⟩
  by_cases hx : 0 < hv.xres
  · rw [if_pos hx]
  · rw [if_neg hx, fileid, fileid, if_neg (UInt32.lt_irrefl 0), if_neg hx]

/-! The file with the four bytes `test`. -/

def sampleHash : Sha1Hash :=
  ⟨"a94a8fe5ccb19ba61c4c0873d391e987982fbbd3".toList, by decide, List.all_eq_true.mp (by decide)⟩

def sampleFile : HVFile := ⟨sampleHash, 4, 0, 0, .png⟩

def sampleId : Text := "a94a8fe5ccb19ba61c4c0873d391e987982fbbd3-4-png".toList

theorem fromFileid_sampleId : fromFileid sampleId = some sampleFile := by decide

end HathRs.FileIds
