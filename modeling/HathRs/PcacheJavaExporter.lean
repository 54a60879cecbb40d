import HathRs.Digests
import HathRs.HpcacheProtocol

/-!
# The Java exporter of the legacy cache files

Java integers are their two's complement bit patterns: an `int` is a `UInt32`, a
`long` a `UInt64` and a `short` a `UInt16`, with the top bit as sign. The checks
come first and produce the accepted state; the writer then emits it through a
big-endian output stream after reversing the bytes of every word. Its output is
the reference encoding, byte for byte.
-/

namespace HathRs.PcacheJavaExporter
open ByteWords TextParsing HashMaps Digests HpcacheProtocol

/-- What deserialization can return under the class filter. -/
inductive JavaObject where
  | string (value : Text)
  | long (value : UInt64)
  | shorts (values : List UInt16)
  | hashtable (entries : List (JavaObject × JavaObject))
  | other

/-- The parts of the Java runtime the exporter calls: the value of a decimal digit
character, SHA-1, and `ObjectInputStream.readObject` under the class filter. -/
structure Runtime where
  digit : Char → Option ℕ
  sha1 : Bytes → Sha1Digest
  readObject : Bytes → Option JavaObject

/-- The data directory: the lines of `pcache_info` and the bytes of the other files. -/
structure DataDir where
  info : List Text
  ages : Bytes
  lru : Bytes

/-- Everything the writer needs, after all checks. -/
structure ExportState where
  cacheCount : UInt32
  cacheSize : UInt64
  lruClearPointer : UInt32
  ages : HashMap Text UInt64
  lru : List UInt16

/-- The state the stream stands for. -/
def ExportState.toLegacy (s : ExportState) : LegacyCacheState :=
  ⟨s.cacheCount, s.cacheSize, s.lruClearPointer.toUInt64, s.ages, s.lru⟩

/-- Throws an `IOException` with this message unless the condition holds. -/
def require (p : Prop) [Decidable p] (message : String) : Except String Unit :=
  if p then pure () else throw message

def readInfoLines (result : HashMap Text Text) : List Text → Except String (HashMap Text Text)
  | [] => pure result
  | line :: rest =>
    match splitOnce '=' line with
    | none => throw "invalid pcache_info"
    | some (key, value) => do
      require (key ≠ [] ∧ key ∉ result) "invalid pcache_info"
      readInfoLines (result.insert key value) rest

def requiredKeys : List String :=
  ["cacheCount", "cacheSize", "lruClearPointer", "agesHash", "lruHash"]

def readInfo (lines : List Text) : Except String (HashMap Text Text) := do
  let result ← readInfoLines ∅ lines
  requiredKeys.forM (fun key => require (key.toList ∈ result) ("pcache_info missing " ++ key))
  return result

/-- The field's text; every field that is asked for has been required above. -/
def getField (info : HashMap Text Text) (field : String) : Text :=
  (info.lookup field.toList).getD []

/-- `Integer.parseInt` for 32 bits, `Long.parseLong` for 64. -/
def parseSigned (digit : Char → Option ℕ) (bits : ℕ) (t : Text) : Option ℤ :=
  let (negative, digits) := match t with
    | '-' :: ds => (true, ds)
    | '+' :: ds => (false, ds)
    | ds => (false, ds)
  if digits = [] then none
  else do
    let n : ℕ ← digits.foldlM (fun acc c => (digit c).map (fun d => 10 * acc + d)) 0
    let v : ℤ := if negative then -(n : ℤ) else n
    if -2 ^ (bits - 1) ≤ v ∧ v < 2 ^ (bits - 1) then some v else none

def parseNonNegative (digit : Char → Option ℕ) (bits : ℕ) (value : Text) (field : String) :
    Except String ℕ :=
  match parseSigned digit bits value with
  | some v => if v < 0 then throw ("invalid " ++ field) else pure v.toNat
  | none => throw ("invalid " ++ field)

def parseNonNegativeInt (digit : Char → Option ℕ) (value : Text) (field : String) :
    Except String UInt32 := do
  return UInt32.ofNat (← parseNonNegative digit 32 value field)

def parseNonNegativeLong (digit : Char → Option ℕ) (value : Text) (field : String) :
    Except String UInt64 := do
  return UInt64.ofNat (← parseNonNegative digit 64 value field)

/-- The expected text must match `[0-9a-f]{40}` before it is compared. -/
def verifySha1 (sha1 : Bytes → Sha1Digest) (name : String) (data : Bytes) (expected : Text) :
    Except String Unit := do
  require (expected.length = 40 ∧ expected.all isLowerHexChar) ("invalid SHA-1 for " ++ name)
  require (expected = sha1Bytes sha1 data) ("SHA-1 mismatch for " ++ name)

/-- A `long` is negative when its top bit is set. -/
def isNegativeLong (v : UInt64) : Bool := 2 ^ 63 ≤ v.toNat

def readAgesEntries (result : HashMap Text UInt64) :
    List (JavaObject × JavaObject) → Except String (HashMap Text UInt64)
  | [] => pure result
  | (.string range, .long timestamp) :: rest => do
    require (LowerHexRange range ∧ isNegativeLong timestamp = false ∧ range ∉ result)
      "pcache_ages has an invalid range entry"
    readAgesEntries (result.insert range timestamp) rest
  | _ :: _ => throw "pcache_ages has an unsupported entry type"

def readAges (object : Option JavaObject) : Except String (HashMap Text UInt64) :=
  match object with
  | some (.hashtable entries) => do
    let result ← readAgesEntries ∅ entries
    require (len result ≤ 65536) "pcache_ages has too many ranges"
    return result
  | _ => throw "pcache_ages is not a Hashtable"

def readLru (object : Option JavaObject) : Except String (List UInt16) :=
  match object with
  | some (.shorts values) => do
    require (values.length = HpcacheProtocol.lruCacheSize) "pcache_lru has an invalid length"
    return values
  | _ => throw "pcache_lru has an invalid length"

/-- The checks of `export`, in their order. -/
def exportState (java : Runtime) (dir : DataDir) : Except String ExportState := do
  let info ← readInfo dir.info
  let cacheCount ← parseNonNegativeInt java.digit (getField info "cacheCount") "cacheCount"
  let cacheSize ← parseNonNegativeLong java.digit (getField info "cacheSize") "cacheSize"
  let lruClearPointer ←
    parseNonNegativeInt java.digit (getField info "lruClearPointer") "lruClearPointer"
  require (lruClearPointer.toNat < HpcacheProtocol.lruCacheSize) "invalid lruClearPointer"
  verifySha1 java.sha1 "pcache_ages" dir.ages (getField info "agesHash")
  verifySha1 java.sha1 "pcache_lru" dir.lru (getField info "lruHash")
  let ages ← readAges (java.readObject dir.ages)
  let lru ← readLru (java.readObject dir.lru)
  return ⟨cacheCount, cacheSize, lruClearPointer, ages, lru⟩

/-- `reverseBytes` on a word of `w` bytes. -/
def reverseBytes (w v : ℕ) : ℕ := ofBeBytes (beBytes w v).reverse

/-- The output stream writes words most significant byte first. -/
def writeLE (w v : ℕ) : Bytes := beBytes w (reverseBytes w v)

def writeShortLE (value : UInt32) : Bytes := writeLE 2 value.toUInt16.toNat

def writeIntLE (value : UInt32) : Bytes := writeLE 4 value.toNat

def writeLongLE (value : UInt64) : Bytes := writeLE 8 value.toNat

/-- The bytes of a range of ASCII characters. -/
def writeRange (e : Entry Text UInt64) : Bytes :=
  writeShortLE (UInt32.ofNat (utf8 e.1).length) ++ utf8 e.1 ++ writeLongLE e.2

/-- `value & 0xffff` of a sign-extended short is the short's bit pattern. -/
def writeLruValue (value : UInt16) : Bytes := writeShortLE (value.toInt16.toInt32.toUInt32 &&& 0xffff)

def writeFields (s : ExportState) (order : List (Entry Text UInt64)) : Bytes :=
  utf8 "HATHPC01".toList ++ writeShortLE 1 ++ writeIntLE s.cacheCount ++ writeLongLE s.cacheSize ++
    writeIntLE s.lruClearPointer ++ writeIntLE (UInt32.ofNat order.length) ++
    order.flatMap writeRange ++ writeIntLE (UInt32.ofNat s.lru.length) ++ s.lru.flatMap writeLruValue

def writeExport (sha256 : Bytes → Vector UInt8 32) (s : ExportState)
    (order : List (Entry Text UInt64)) : Bytes :=
  writeFields s order ++ (sha256 (writeFields s order)).toList

/-! ## The writer emits the reference encoding -/

theorem writeLE_eq (w v : ℕ) : writeLE w v = leBytes w v := beBytes_ofBeBytes_reverse w v

theorem writeShortLE_eq (value : UInt32) : writeShortLE value = leBytes 2 value.toUInt16.toNat :=
  writeLE_eq _ _

/-- Masking a sign-extended short recovers its bits. -/
private theorem mask_signExtend (v : BitVec 16) :
    ((v.signExtend 32) &&& 0xffff#32).setWidth 16 = v := by
  have hm : (0xffff#32).setWidth 16 = BitVec.allOnes 16 := by decide
  rw [BitVec.setWidth_and, hm, BitVec.and_allOnes]
  apply BitVec.eq_of_getElem_eq
  intro i hi
  simp [BitVec.getElem_setWidth, BitVec.getLsbD_signExtend, hi]
  omega

theorem writeLruValue_eq (value : UInt16) : writeLruValue value = leBytes 2 value.toNat := by
  have hv : (value.toInt16.toInt32.toUInt32 &&& 0xffff).toUInt16 = value :=
    UInt16.toBitVec_inj.mp (mask_signExtend value.toBitVec)
  rw [writeLruValue, writeShortLE_eq, hv]

theorem writeRange_eq {e : Entry Text UInt64} (h : LowerHexRange e.1) :
    writeRange e = encodeRange e := by
  rw [writeRange, encodeRange, writeShortLE_eq, h.length_utf8, writeLongLE, writeLE_eq]
  rfl

/-- On a bounded state the writer agrees with the reference encoder on every field. -/
theorem writeFields_eq {s : ExportState} (hs : Bounded s.toLegacy)
    {order : List (Entry Text UInt64)} (ho : Iterates order s.ages) :
    writeFields s order = encodeFields s.toLegacy order := by
  have hranges : order.flatMap writeRange = order.flatMap encodeRange := by
    rw [List.flatMap_def, List.flatMap_def]
    congr 1
    exact List.map_congr_left (fun e he => writeRange_eq (hs.order_hex ho e he))
  have hn : (UInt32.ofNat order.length).toNat = order.length :=
    UInt32.toNat_ofNat_of_lt' (lt_of_le_of_lt (ho.length_eq ▸ hs.ranges_le) (by decide))
  have hl : (UInt32.ofNat s.lru.length).toNat = s.lru.length :=
    UInt32.toNat_ofNat_of_lt' (by
      rw [show s.lru.length = HpcacheProtocol.lruCacheSize from hs.table_length]
      decide)
  have htable : s.lru.flatMap writeLruValue = encodeTable s.lru := by
    rw [encodeTable, show writeLruValue = fun v => leBytes 2 v.toNat from funext writeLruValue_eq]
  simp only [writeFields, encodeFields, writeShortLE_eq, writeIntLE, writeLongLE, writeLE_eq, hn, hl,
    hranges, htable]
  rfl

theorem writeExport_eq (sha256 : Bytes → Vector UInt8 32) {s : ExportState}
    (hs : Bounded s.toLegacy) {order : List (Entry Text UInt64)} (ho : Iterates order s.ages) :
    writeExport sha256 s order = encodeHpcacheV1ForTest sha256 s.toLegacy order := by
  rw [writeExport, encodeHpcacheV1ForTest, writeFields_eq hs ho]

/-! ## The checks guarantee the format's bounds -/

theorem bind_ok_iff {α β : Type} {x : Except String α} {f : α → Except String β} {b : β} :
    (x >>= f) = .ok b ↔ ∃ a, x = .ok a ∧ f a = .ok b := by
  cases x <;> simp [bind, Except.bind]

theorem require_ok_iff {p : Prop} [Decidable p] {message : String} {u : Unit} :
    require p message = .ok u ↔ p := by
  by_cases h : p <;> simp [require, h, pure, Except.pure, throw, throwThe, MonadExceptOf.throw]

theorem readAgesEntries_hex {entries : List (JavaObject × JavaObject)}
    {result ages : HashMap Text UInt64} (hr : ∀ range ∈ result, LowerHexRange range)
    (h : readAgesEntries result entries = .ok ages) : ∀ range ∈ ages, LowerHexRange range := by
  induction entries generalizing result with
  | nil => cases h; exact hr
  | cons e rest ih =>
    obtain ⟨key, value⟩ := e
    cases key with
    | string range =>
      cases value with
      | long timestamp =>
        obtain ⟨_, hreq, hrest⟩ := bind_ok_iff.mp h
        obtain ⟨hhex, -, -⟩ := require_ok_iff.mp hreq
        refine ih ?_ hrest
        intro r hmem
        rcases Finmap.mem_insert.mp hmem with rfl | hmem
        · exact hhex
        · exact hr r hmem
      | _ => cases h
    | _ => cases h

theorem readAges_ok {object : Option JavaObject} {ages : HashMap Text UInt64}
    (h : readAges object = .ok ages) :
    len ages ≤ maxStaticRanges ∧ ∀ range ∈ ages, LowerHexRange range := by
  unfold readAges at h
  split at h
  · obtain ⟨result, hread, hrest⟩ := bind_ok_iff.mp h
    obtain ⟨_, hreq, hret⟩ := bind_ok_iff.mp hrest
    cases hret
    exact ⟨require_ok_iff.mp hreq,
      readAgesEntries_hex (fun _ hm => absurd hm Finmap.notMem_empty) hread⟩
  · cases h

theorem readLru_ok {object : Option JavaObject} {lru : List UInt16}
    (h : readLru object = .ok lru) : lru.length = HpcacheProtocol.lruCacheSize := by
  unfold readLru at h
  split at h
  · obtain ⟨_, hreq, hret⟩ := bind_ok_iff.mp h
    cases hret
    exact require_ok_iff.mp hreq
  · cases h

theorem readLru_shorts {values : List UInt16} (h : values.length = HpcacheProtocol.lruCacheSize) :
    readLru (some (.shorts values)) = .ok values := by
  simp [readLru, require, h, bind, Except.bind, pure, Except.pure]

/-- Every state the exporter accepts is within the bounds of the format. -/
theorem exportState_bounded {java : Runtime} {dir : DataDir} {s : ExportState}
    (h : exportState java dir = .ok s) : Bounded s.toLegacy := by
  simp only [exportState, bind_ok_iff, require_ok_iff] at h
  obtain ⟨info, -, count, -, size, -, ptr, -, -, hptr, -, -, -, -, ages, hages, lru, hlru, hret⟩ := h
  cases hret
  obtain ⟨hle, hhex⟩ := readAges_ok hages
  exact ⟨hptr, hle, hhex, readLru_ok hlru⟩

/-- Both encoders round-trip through the decoder in every iteration order of the
ranges, and the decoder accepts nothing but encodings of bounded states. -/
theorem hpcache_codec_round_trip (sha256 : Bytes → Vector UInt8 32) :
    (∀ s order, Bounded s → Iterates order s.staticRangeAges →
      read sha256 (encodeHpcacheV1ForTest sha256 s order) = .ok s) ∧
    (∀ java dir s order, exportState java dir = .ok s → Iterates order s.ages →
      read sha256 (writeExport sha256 s order) = .ok s.toLegacy) ∧
    (∀ b s, read sha256 b = .ok s → Bounded s ∧ ∃ order, Iterates order s.staticRangeAges ∧
      b = encodeHpcacheV1ForTest sha256 s order) := by
  refine ⟨?_, ?_, ?_⟩
  · intro s order hs ho
    exact (read_ok_iff sha256).mpr ⟨hs, order, ho, rfl⟩
  · intro java dir s order hs ho
    have hb := exportState_bounded hs
    rw [writeExport_eq sha256 hb ho]
    exact (read_ok_iff sha256).mpr ⟨hb, order, ho, rfl⟩
  · intro b s h
    exact (read_ok_iff sha256).mp h

/-- One range, an all-zero table, and small counters. -/
def sampleExport : ExportState :=
  ⟨7, 99, 17, Finmap.singleton "a3f0".toList 1700000000000, List.replicate HpcacheProtocol.lruCacheSize 0⟩

/-- ASCII digits, a fixed digest, and the two objects of the sample directory. -/
def sampleRuntime : Runtime where
  digit c := if c.isDigit then some (c.toNat - 48) else none
  sha1 _ := Vector.replicate 20 0
  readObject
    | [] => some (.hashtable [(.string "a3f0".toList, .long 1700000000000)])
    | _ => some (.shorts (List.replicate HpcacheProtocol.lruCacheSize 0))

def sampleDir : DataDir where
  info := ["cacheCount=7".toList, "cacheSize=99".toList, "lruClearPointer=17".toList,
    "agesHash=".toList ++ List.replicate 40 '0', "lruHash=".toList ++ List.replicate 40 '0']
  ages := []
  lru := [0]

theorem sampleDir_exports : exportState sampleRuntime sampleDir = .ok sampleExport := by
  simp only [exportState, bind_ok_iff, require_ok_iff]
  -- The table is compared by its length lemma: evaluating a million entries is out of the question.
  exact ⟨_, rfl, 7, by decide, 99, by decide, 17, by decide, (), by decide, (), by decide, (),
    by decide, _, rfl, _, readLru_shorts List.length_replicate, rfl⟩

theorem hpcache_codec_round_trip_sample :
    read (fun _ => Vector.replicate 32 0) (writeExport (fun _ => Vector.replicate 32 0) sampleExport
      [⟨"a3f0".toList, 1700000000000⟩]) = .ok sampleExport.toLegacy ∧
    read (fun _ => Vector.replicate 32 0) (encodeHpcacheV1ForTest (fun _ => Vector.replicate 32 0)
      sampleExport.toLegacy [⟨"a3f0".toList, 1700000000000⟩]) = .ok sampleExport.toLegacy ∧
    Bounded sampleExport.toLegacy := by
  obtain ⟨hrust, hjava, hconverse⟩ := hpcache_codec_round_trip (fun _ => Vector.replicate 32 0)
  have hread := hjava sampleRuntime sampleDir sampleExport [⟨"a3f0".toList, 1700000000000⟩]
    sampleDir_exports rfl
  have hbounded := (hconverse _ _ hread).1
  exact ⟨hread, hrust _ _ hbounded rfl, hbounded⟩

end HathRs.PcacheJavaExporter
