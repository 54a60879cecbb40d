import HathRs.HashMaps
import HathRs.TextParsing

/-!
# The HPCACHE/1 stream: decoder and reference encoder

The decoder reads fixed-width little-endian fields through a reader that hashes
every byte it consumes, then compares the trailing digest and refuses any byte
after it. `read_ok_iff` determines its accepted streams completely: they are the
encodings of the bounded states, in any iteration order of the range map. SHA-256
is an arbitrary function to 32 bytes.
-/

namespace HathRs.HpcacheProtocol
open ByteWords TextParsing HashMaps

def lruCacheSize : ℕ := 1048576

def magic : Bytes := utf8 "HATHPC01".toList

def version : UInt16 := 1

def maxStaticRanges : ℕ := 65536

structure LegacyCacheState where
  cacheCount : UInt32
  cacheSize : UInt64
  lruClearPointer : UInt64
  staticRangeAges : HashMap Text UInt64
  lruCacheTable : List UInt16

/-- `io` is the reader's own failure, of which a byte string only has the early end.
The rejected range is kept as its four bytes. -/
inductive ProtocolError where
  | io
  | magic
  | version (found : UInt16)
  | invalidValue (field : String) (value : ℕ)
  | invalidRange (range : Bytes)
  | duplicateRange (range : Text)
  | digestMismatch
  | trailingData
  deriving DecidableEq

/-- The unread input and the bytes absorbed by the running digest. -/
structure DigestReader where
  input : Bytes
  digest : Bytes

abbrev ReadM := StateT DigestReader (Except ProtocolError)

def readExact (n : ℕ) : ReadM Bytes := fun r =>
  if r.input.length < n then .error .io
  else .ok (r.input.take n, ⟨r.input.drop n, r.digest ++ r.input.take n⟩)

/-- The little-endian word in the next `w` bytes. -/
def readWord (w : ℕ) : ReadM ℕ := do return ofLeBytes (← readExact w)

def readU16 : ReadM UInt16 := do return UInt16.ofNat (← readWord 2)

def readU32 : ReadM UInt32 := do return UInt32.ofNat (← readWord 4)

def readU64 : ReadM UInt64 := do return UInt64.ofNat (← readWord 8)

def ensure (p : Prop) [Decidable p] (e : ProtocolError) : ReadM Unit :=
  if p then pure () else throw e

/-- `byte.is_ascii_digit() || matches!(byte, b'a'..=b'f')` -/
def isLowerHexByte (b : UInt8) : Bool :=
  (48 ≤ b.toNat && b.toNat ≤ 57) || (97 ≤ b.toNat && b.toNat ≤ 102)

/-- The text of ASCII bytes. -/
def asciiText (bs : Bytes) : Text := bs.map (fun b => Char.ofNat b.toNat)

/-- One length-prefixed range and its age. -/
def readRange : ReadM (Entry Text UInt64) := do
  let rangeLength ← readU16
  ensure (rangeLength = 4) (.invalidValue "static range length" rangeLength.toNat)
  let rangeBytes ← readExact 4
  ensure (rangeBytes.all isLowerHexByte) (.invalidRange rangeBytes)
  let oldestModifiedMs ← readU64
  return ⟨asciiText rangeBytes, oldestModifiedMs⟩

/-- The loop `for _ in 0..range_count`, over the map built so far. -/
def readRanges : ℕ → HashMap Text UInt64 → ReadM (HashMap Text UInt64)
  | 0, ages => pure ages
  | n + 1, ages => do
    let entry ← readRange
    ensure (entry.1 ∉ ages) (.duplicateRange entry.1)
    readRanges n (ages.insert entry.1 entry.2)

/-- The loop `for _ in 0..LRU_CACHE_SIZE`. -/
def readTable : ℕ → ReadM (List UInt16)
  | 0 => pure []
  | n + 1 => do
    let value ← readU16
    let rest ← readTable n
    return value :: rest

/-- Every field in front of the trailing digest. -/
def readFields : ReadM LegacyCacheState := do
  let found ← readExact magic.length
  ensure (found = magic) .magic
  let v ← readU16
  ensure (v = version) (.version v)
  let cacheCount ← readU32
  let cacheSize ← readU64
  let lruClearPointer ← readU32
  ensure (lruClearPointer.toNat < lruCacheSize)
    (.invalidValue "lru_clear_pointer" lruClearPointer.toNat)
  let rangeCount ← readU32
  ensure (rangeCount.toNat ≤ maxStaticRanges) (.invalidValue "static_range_count" rangeCount.toNat)
  let staticRangeAges ← readRanges rangeCount.toNat ∅
  let lruLength ← readU32
  ensure (lruLength.toNat = lruCacheSize) (.invalidValue "lru_length" lruLength.toNat)
  let lruCacheTable ← readTable lruCacheSize
  return ⟨cacheCount, cacheSize, lruClearPointer.toUInt64, staticRangeAges, lruCacheTable⟩

variable (sha256 : Bytes → Vector UInt8 32)

def read (input : Bytes) : Except ProtocolError LegacyCacheState :=
  match readFields ⟨input, []⟩ with
  | .error e => .error e
  | .ok (state, reader) =>
    if reader.input.length < 32 then .error .io
    else if reader.input.take 32 ≠ (sha256 reader.digest).toList then .error .digestMismatch
    else if reader.input.drop 32 ≠ [] then .error .trailingData
    else .ok state

def encodeRange (e : Entry Text UInt64) : Bytes :=
  leBytes 2 (utf8 e.1).length ++ utf8 e.1 ++ leBytes 8 e.2.toNat

def encodeTable (table : List UInt16) : Bytes := table.flatMap (fun v => leBytes 2 v.toNat)

/-- Everything the digest covers, with the ranges in the order they are iterated. -/
def encodeFields (state : LegacyCacheState) (order : List (Entry Text UInt64)) : Bytes :=
  magic ++ leBytes 2 version.toNat ++ leBytes 4 state.cacheCount.toNat ++
    leBytes 8 state.cacheSize.toNat ++ leBytes 4 state.lruClearPointer.toNat ++
    leBytes 4 order.length ++ order.flatMap encodeRange ++
    leBytes 4 state.lruCacheTable.length ++ encodeTable state.lruCacheTable

def encodeHpcacheV1ForTest (state : LegacyCacheState) (order : List (Entry Text UInt64)) : Bytes :=
  encodeFields state order ++ (sha256 (encodeFields state order)).toList

/-! ## What each read accepts -/

/-- Between the two reader states exactly `bs` was read and absorbed. -/
def Consumes (r : DigestReader) (bs : Bytes) (r' : DigestReader) : Prop :=
  r.input = bs ++ r'.input ∧ r'.digest = r.digest ++ bs

theorem consumes_nil_iff {r r' : DigestReader} : Consumes r [] r' ↔ r = r' := by
  cases r; cases r'
  simp [Consumes, eq_comm]

theorem consumes_append_iff {r r'' : DigestReader} {bs cs : Bytes} :
    Consumes r (bs ++ cs) r'' ↔ ∃ r', Consumes r bs r' ∧ Consumes r' cs r'' := by
  constructor
  · rintro ⟨hi, hd⟩
    exact ⟨⟨cs ++ r''.input, r.digest ++ bs⟩, ⟨by simpa using hi, rfl⟩, rfl, by simpa using hd⟩
  · rintro ⟨r', ⟨hi, hd⟩, hi', hd'⟩
    exact ⟨by rw [hi, hi', List.append_assoc], by rw [hd', hd, List.append_assoc]⟩

theorem bind_ok_iff {α β : Type} {x : ReadM α} {f : α → ReadM β} {r r'' : DigestReader} {b : β} :
    (x >>= f) r = .ok (b, r'') ↔ ∃ a r', x r = .ok (a, r') ∧ f a r' = .ok (b, r'') := by
  simp only [bind, StateT.bind, Except.bind]
  cases x r with
  | error e => simp
  | ok p => exact ⟨fun h => ⟨p.1, p.2, rfl, h⟩, by rintro ⟨a, r', h, h'⟩; cases h; exact h'⟩

theorem pure_ok_iff {α : Type} {a b : α} {r r' : DigestReader} :
    (pure a : ReadM α) r = .ok (b, r') ↔ b = a ∧ r = r' := by
  simp [pure, StateT.pure, Except.pure, eq_comm]

theorem ensure_ok_iff {p : Prop} [Decidable p] {e : ProtocolError} {u : Unit} {r r' : DigestReader} :
    ensure p e r = .ok (u, r') ↔ p ∧ r = r' := by
  by_cases h : p
  · simp [ensure, h, pure_ok_iff]
  · simp [ensure, h, throw, throwThe, MonadExceptOf.throw, StateT.lift, bind, Except.bind]

theorem readExact_ok_iff {n : ℕ} {bs : Bytes} {r r' : DigestReader} :
    readExact n r = .ok (bs, r') ↔ bs.length = n ∧ Consumes r bs r' := by
  by_cases h : r.input.length < n
  · simp only [readExact, h, if_true, reduceCtorEq, false_iff, not_and]
    rintro hlen ⟨hi, -⟩
    rw [hi, List.length_append] at h
    omega
  · simp only [readExact, h, if_false, Except.ok.injEq, Prod.mk.injEq]
    constructor
    · rintro ⟨rfl, rfl⟩
      exact ⟨by simp; omega, by simp, rfl⟩
    · rintro ⟨rfl, hi, hd⟩
      cases r'
      simp_all

theorem readWord_ok_iff {w n : ℕ} {r r' : DigestReader} :
    readWord w r = .ok (n, r') ↔ n < 256 ^ w ∧ Consumes r (leBytes w n) r' := by
  simp only [readWord, bind_ok_iff, readExact_ok_iff, pure_ok_iff]
  constructor
  · rintro ⟨bs, r₁, ⟨rfl, hc⟩, rfl, rfl⟩
    rw [leBytes_ofLeBytes]
    exact ⟨ofLeBytes_lt bs, hc⟩
  · rintro ⟨hlt, hc⟩
    exact ⟨_, r', ⟨length_leBytes _ _, hc⟩, (ofLeBytes_leBytes_of_lt hlt).symm, rfl⟩

theorem readU16_ok_iff {v : UInt16} {r r' : DigestReader} :
    readU16 r = .ok (v, r') ↔ Consumes r (leBytes 2 v.toNat) r' := by
  simp only [readU16, bind_ok_iff, readWord_ok_iff, pure_ok_iff]
  constructor
  · rintro ⟨n, r₁, ⟨hn, hc⟩, rfl, rfl⟩
    rwa [UInt16.toNat_ofNat_of_lt' hn]
  · intro hc
    exact ⟨v.toNat, r', ⟨v.toNat_lt, hc⟩, by simp, rfl⟩

theorem readU32_ok_iff {v : UInt32} {r r' : DigestReader} :
    readU32 r = .ok (v, r') ↔ Consumes r (leBytes 4 v.toNat) r' := by
  simp only [readU32, bind_ok_iff, readWord_ok_iff, pure_ok_iff]
  constructor
  · rintro ⟨n, r₁, ⟨hn, hc⟩, rfl, rfl⟩
    rwa [UInt32.toNat_ofNat_of_lt' hn]
  · intro hc
    exact ⟨v.toNat, r', ⟨v.toNat_lt, hc⟩, by simp, rfl⟩

theorem readU64_ok_iff {v : UInt64} {r r' : DigestReader} :
    readU64 r = .ok (v, r') ↔ Consumes r (leBytes 8 v.toNat) r' := by
  simp only [readU64, bind_ok_iff, readWord_ok_iff, pure_ok_iff]
  constructor
  · rintro ⟨n, r₁, ⟨hn, hc⟩, rfl, rfl⟩
    rwa [UInt64.toNat_ofNat_of_lt' hn]
  · intro hc
    exact ⟨v.toNat, r', ⟨v.toNat_lt, hc⟩, by simp, rfl⟩

/-! ## Ranges as bytes and as text -/

/-- Four characters out of `0`-`9` and `a`-`f`. -/
def LowerHexRange (range : Text) : Prop :=
  range.length = 4 ∧ ∀ c ∈ range, isLowerHexByte (UInt8.ofNat c.toNat) = true ∧ c.toNat < 128

instance (range : Text) : Decidable (LowerHexRange range) :=
  @instDecidableAnd _ _ inferInstance (List.decidableBAll _ range)

theorem isLowerHexByte_lt {b : UInt8} (h : isLowerHexByte b = true) : b.toNat < 128 := by
  simp only [isLowerHexByte, Bool.or_eq_true, Bool.and_eq_true, decide_eq_true_eq] at h
  omega

theorem toNat_ofNat_byte (b : UInt8) : (Char.ofNat b.toNat).toNat = b.toNat := by
  have hb := b.toNat_lt
  have hv : b.toNat.isValidChar := Or.inl (by omega)
  rw [Char.ofNat, dif_pos hv]
  rfl

theorem utf8_asciiText {bs : Bytes} (h : bs.all isLowerHexByte = true) : utf8 (asciiText bs) = bs := by
  have hb : ∀ b ∈ bs, b.toNat < 128 := fun b hb => isLowerHexByte_lt (List.all_eq_true.mp h b hb)
  have ha : Ascii (asciiText bs) := by
    intro c hc
    obtain ⟨b, hmem, rfl⟩ := List.mem_map.mp hc
    rw [toNat_ofNat_byte]
    exact hb b hmem
  rw [utf8_ascii ha, asciiText, List.map_map]
  conv_rhs => rw [← List.map_id bs]
  apply List.map_congr_left
  intro b _
  simp [toNat_ofNat_byte]

theorem lowerHexRange_asciiText {bs : Bytes} (hlen : bs.length = 4)
    (h : bs.all isLowerHexByte = true) : LowerHexRange (asciiText bs) := by
  refine ⟨by simp [asciiText, hlen], ?_⟩
  intro c hc
  obtain ⟨b, hmem, rfl⟩ := List.mem_map.mp hc
  have hb := List.all_eq_true.mp h b hmem
  rw [toNat_ofNat_byte, UInt8.ofNat_toNat]
  exact ⟨hb, isLowerHexByte_lt hb⟩

theorem LowerHexRange.ascii {range : Text} (h : LowerHexRange range) : Ascii range :=
  fun c hc => (h.2 c hc).2

theorem LowerHexRange.length_utf8 {range : Text} (h : LowerHexRange range) :
    (utf8 range).length = 4 := by
  rw [length_utf8_ascii h.ascii, h.1]

theorem LowerHexRange.all_utf8 {range : Text} (h : LowerHexRange range) :
    (utf8 range).all isLowerHexByte = true := by
  rw [utf8_ascii h.ascii, List.all_map, List.all_eq_true]
  exact fun c hc => (h.2 c hc).1

theorem LowerHexRange.asciiText_utf8 {range : Text} (h : LowerHexRange range) :
    asciiText (utf8 range) = range := by
  rw [utf8_ascii h.ascii, asciiText, List.map_map]
  conv_rhs => rw [← List.map_id range]
  apply List.map_congr_left
  intro c hc
  have hlt := (h.2 c hc).2
  have hbyte : (UInt8.ofNat c.toNat).toNat = c.toNat := by simp; omega
  simp [hbyte]

/-! ## Loops and fields -/

theorem readRange_ok_iff {e : Entry Text UInt64} {r r' : DigestReader} :
    readRange r = .ok (e, r') ↔ LowerHexRange e.1 ∧ Consumes r (encodeRange e) r' := by
  simp only [readRange, bind_ok_iff, ensure_ok_iff, pure_ok_iff, readU16_ok_iff, readExact_ok_iff,
    readU64_ok_iff]
  constructor
  · rintro ⟨_, r₁, hc₁, -, _, ⟨rfl, rfl⟩, bs, r₂, ⟨hlen, hc₂⟩, -, _, ⟨hall, rfl⟩,
      age, r₃, hc₃, rfl, rfl⟩
    refine ⟨lowerHexRange_asciiText hlen hall, ?_⟩
    simp only [encodeRange, utf8_asciiText hall, hlen]
    exact consumes_append_iff.mpr ⟨_, consumes_append_iff.mpr ⟨_, hc₁, hc₂⟩, hc₃⟩
  · rintro ⟨hrange, hc⟩
    simp only [encodeRange, hrange.length_utf8] at hc
    obtain ⟨r₂, hc, hc₃⟩ := consumes_append_iff.mp hc
    obtain ⟨r₁, hc₁, hc₂⟩ := consumes_append_iff.mp hc
    exact ⟨4, r₁, hc₁, (), r₁, ⟨rfl, rfl⟩, utf8 e.1, r₂, ⟨hrange.length_utf8, hc₂⟩, (), r₂,
      ⟨hrange.all_utf8, rfl⟩, e.2, r', hc₃, by rw [hrange.asciiText_utf8], rfl⟩

/-- The range loop accepts exactly the encodings of fresh entries and inserts them. -/
theorem readRanges_ok_iff {n : ℕ} {ages ages' : HashMap Text UInt64} {r r' : DigestReader} :
    readRanges n ages r = .ok (ages', r') ↔
      ∃ order : List (Entry Text UInt64), order.length = n ∧ (∀ e ∈ order, LowerHexRange e.1) ∧
        Fresh ages order ∧ ages' = insertAll ages order ∧
        Consumes r (order.flatMap encodeRange) r' := by
  induction n generalizing ages r with
  | zero =>
    simp only [readRanges, pure_ok_iff, List.length_eq_zero_iff]
    constructor
    · rintro ⟨rfl, rfl⟩
      exact ⟨[], rfl, by simp, trivial, rfl, consumes_nil_iff.mpr rfl⟩
    · rintro ⟨_, rfl, -, -, rfl, hc⟩
      exact ⟨rfl, consumes_nil_iff.mp hc⟩
  | succ n ih =>
    simp only [readRanges, bind_ok_iff, ensure_ok_iff, readRange_ok_iff, ih]
    constructor
    · rintro ⟨e, r₁, ⟨he, hc₁⟩, -, _, ⟨hnew, rfl⟩, es, rfl, hes, hfresh, rfl, hc₂⟩
      refine ⟨e :: es, rfl, ?_, ⟨hnew, hfresh⟩, rfl, consumes_append_iff.mpr ⟨_, hc₁, hc₂⟩⟩
      simpa using ⟨he, hes⟩
    · rintro ⟨order, hlen, hall, hfresh, rfl, hc⟩
      cases order with
      | nil => simp at hlen
      | cons e es =>
        obtain ⟨he, hes⟩ := List.forall_mem_cons.mp hall
        obtain ⟨r₁, hc₁, hc₂⟩ := consumes_append_iff.mp hc
        exact ⟨e, r₁, ⟨he, hc₁⟩, (), r₁, ⟨hfresh.1, rfl⟩, es, by simpa using hlen, hes, hfresh.2,
          rfl, hc₂⟩

theorem readTable_ok_iff {n : ℕ} {table : List UInt16} {r r' : DigestReader} :
    readTable n r = .ok (table, r') ↔ table.length = n ∧ Consumes r (encodeTable table) r' := by
  induction n generalizing table r r' with
  | zero =>
    simp only [readTable, pure_ok_iff, List.length_eq_zero_iff]
    constructor
    · rintro ⟨rfl, rfl⟩
      exact ⟨rfl, consumes_nil_iff.mpr rfl⟩
    · rintro ⟨rfl, hc⟩
      exact ⟨rfl, consumes_nil_iff.mp hc⟩
  | succ n ih =>
    simp only [readTable, bind_ok_iff, pure_ok_iff, readU16_ok_iff, ih]
    constructor
    · rintro ⟨v, r₁, hc₁, vs, r₂, ⟨rfl, hc₂⟩, rfl, rfl⟩
      exact ⟨rfl, consumes_append_iff.mpr ⟨_, hc₁, hc₂⟩⟩
    · rintro ⟨hlen, hc⟩
      cases table with
      | nil => simp at hlen
      | cons v vs =>
        obtain ⟨r₁, hc₁, hc₂⟩ := consumes_append_iff.mp hc
        exact ⟨v, r₁, hc₁, vs, r', ⟨by simpa using hlen, hc₂⟩, rfl, rfl⟩

/-- The states of the format: every bound the decoder checks. -/
structure Bounded (s : LegacyCacheState) : Prop where
  pointer_lt : s.lruClearPointer.toNat < lruCacheSize
  ranges_le : len s.staticRangeAges ≤ maxStaticRanges
  ranges_hex : ∀ range ∈ s.staticRangeAges, LowerHexRange range
  table_length : s.lruCacheTable.length = lruCacheSize

theorem Bounded.order_hex {s : LegacyCacheState} (h : Bounded s) {order : List (Entry Text UInt64)}
    (ho : Iterates order s.staticRangeAges) : ∀ e ∈ order, LowerHexRange e.1 := by
  intro e he
  exact h.ranges_hex e.1 ((ho.mem_keys e.1).mpr (List.mem_map_of_mem he))

theorem readFields_ok_iff {s : LegacyCacheState} {r r' : DigestReader} :
    readFields r = .ok (s, r') ↔
      Bounded s ∧ ∃ order, Iterates order s.staticRangeAges ∧ Consumes r (encodeFields s order) r' := by
  simp only [readFields, bind_ok_iff, ensure_ok_iff, pure_ok_iff, readU16_ok_iff, readU32_ok_iff,
    readU64_ok_iff, readExact_ok_iff, readRanges_ok_iff, readTable_ok_iff]
  constructor
  · rintro ⟨m, r₁, ⟨-, hm⟩, -, _, ⟨rfl, rfl⟩, v, r₂, hv, -, _, ⟨rfl, rfl⟩, count, r₃, hcount,
      size, r₄, hsize, ptr, r₅, hptr, -, _, ⟨hptrlt, rfl⟩, n, r₆, hn, -, _, ⟨hnle, rfl⟩, ages, r₇,
      ⟨order, hlen, hhex, hfresh, rfl, hranges⟩, l, r₈, hl, -, _, ⟨hleq, rfl⟩, table, r₉,
      ⟨htlen, htable⟩, rfl, rfl⟩
    have hiter := hfresh.iterates
    have hptr64 : ptr.toUInt64.toNat = ptr.toNat := UInt32.toNat_toUInt64 ptr
    refine ⟨⟨by rwa [hptr64], ?_, ?_, htlen⟩, order, hiter, ?_⟩
    · rw [← hiter.length_eq, hlen]
      exact hnle
    · intro range hrange
      obtain ⟨e, he, rfl⟩ := List.mem_map.mp ((hiter.mem_keys range).mp hrange)
      exact hhex e he
    · simp only [encodeFields, hlen, htlen, ← hleq, hptr64]
      simp only [consumes_append_iff]
      exact ⟨_, ⟨_, ⟨_, ⟨_, ⟨_, ⟨_, ⟨_, ⟨_, hm, hv⟩, hcount⟩, hsize⟩, hptr⟩, hn⟩,
        hranges⟩, hl⟩, htable⟩
  · rintro ⟨hs, order, hiter, hc⟩
    simp only [encodeFields, consumes_append_iff] at hc
    obtain ⟨r₈, ⟨r₇, ⟨r₆, ⟨r₅, ⟨r₄, ⟨r₃, ⟨r₂, ⟨r₁, hm, hv⟩, hcount⟩,
      hsize⟩, hptr⟩, hn⟩, hranges⟩, hl⟩, htable⟩ := hc
    have hptr32 : (UInt32.ofNat s.lruClearPointer.toNat).toNat = s.lruClearPointer.toNat :=
      UInt32.toNat_ofNat_of_lt' (lt_trans hs.pointer_lt (by decide))
    have hle : order.length ≤ maxStaticRanges := hiter.length_eq ▸ hs.ranges_le
    have hn32 : (UInt32.ofNat order.length).toNat = order.length :=
      UInt32.toNat_ofNat_of_lt' (lt_of_le_of_lt hle (by decide))
    have hl32 : (UInt32.ofNat s.lruCacheTable.length).toNat = s.lruCacheTable.length :=
      UInt32.toNat_ofNat_of_lt' (by rw [hs.table_length]; decide)
    refine ⟨magic, r₁, ⟨rfl, hm⟩, (), r₁, ⟨rfl, rfl⟩, version, r₂, hv, (), r₂, ⟨rfl, rfl⟩,
      s.cacheCount, r₃, hcount, s.cacheSize, r₄, hsize, UInt32.ofNat s.lruClearPointer.toNat, r₅,
      by rwa [hptr32], (), r₅, ⟨by rw [hptr32]; exact hs.pointer_lt, rfl⟩,
      UInt32.ofNat order.length, r₆, by rwa [hn32], (), r₆, ⟨by rwa [hn32], rfl⟩,
      s.staticRangeAges, r₇, ⟨order, by rw [hn32], hs.order_hex hiter, hiter.fresh,
        hiter.insertAll_eq.symm, hranges⟩,
      UInt32.ofNat s.lruCacheTable.length, r₈, by rwa [hl32], (), r₈,
      ⟨by rw [hl32, hs.table_length], rfl⟩, s.lruCacheTable, r', ⟨hs.table_length, htable⟩, ?_, rfl⟩
    have hptr64 : (UInt32.ofNat s.lruClearPointer.toNat).toUInt64 = s.lruClearPointer :=
      UInt64.toNat_inj.mp (by rw [UInt32.toNat_toUInt64, hptr32])
    rw [hptr64]

/-- The accepted streams are exactly the encodings of bounded states, under some
order of the ranges, and the decoded state is the encoded one. -/
theorem read_ok_iff {b : Bytes} {s : LegacyCacheState} :
    read sha256 b = .ok s ↔
      Bounded s ∧ ∃ order, Iterates order s.staticRangeAges ∧
        b = encodeHpcacheV1ForTest sha256 s order := by
  constructor
  · intro h
    simp only [read] at h
    split at h
    · contradiction
    · rename_i state reader hf
      split_ifs at h with hlen hdigest htrail
      cases h
      obtain ⟨hs, order, hiter, hi, hd⟩ := readFields_ok_iff.mp hf
      refine ⟨hs, order, hiter, ?_⟩
      simp only [List.nil_append] at hd
      rw [hd] at hdigest
      have hsplit := List.take_append_drop 32 reader.input
      rw [not_not.mp hdigest, not_not.mp htrail, List.append_nil] at hsplit
      rw [encodeHpcacheV1ForTest, hsplit]
      exact hi
  · rintro ⟨hs, order, hiter, rfl⟩
    have hf : readFields ⟨encodeHpcacheV1ForTest sha256 s order, []⟩ =
        .ok (s, ⟨(sha256 (encodeFields s order)).toList, encodeFields s order⟩) :=
      readFields_ok_iff.mpr ⟨hs, order, hiter, rfl, rfl⟩
    have htake : (sha256 (encodeFields s order)).toList.take 32 = (sha256 (encodeFields s order)).toList :=
      List.take_of_length_le (by simp)
    have hdrop : (sha256 (encodeFields s order)).toList.drop 32 = [] :=
      List.drop_of_length_le (by simp)
    simp [read, hf, htake, hdrop]

end HathRs.HpcacheProtocol
