import HathRs.FileIds
import HathRs.MachineArithmetic

/-!
# The table of recently accessed files

Every file id selects one bit of a table of 16-bit words: five hexadecimal digits of
its hash pick the word and the next one the bit. A clearing pointer sweeps over the
table, seventeen words at a time. The table is a boxed slice, so its length is fixed
when it is built.
-/

namespace HathRs
open TextParsing FileIds MachineArithmetic

def lruCacheSize : ℕ := 1048576

structure LruState where
  lruCacheTable : List UInt16
  lruClearPointer : UInt64
  length_table : lruCacheTable.length = lruCacheSize

namespace LruState

def new : LruState where
  lruCacheTable := List.replicate lruCacheSize 0
  lruClearPointer := 0
  length_table := List.length_replicate

/-- The word and the bit of a file id that is long enough. -/
def slot (fileid : Text) : Except Panic (ℕ × UInt16) := do
  let index ← byteSlice fileid 4 9
  let bit ← byteSlice fileid 9 10
  let arrayIndex := (parseHex (2 ^ 64) index).getD 0
  let bitMask := 1 <<< UInt16.ofNat ((parseHex (2 ^ 16) bit).getD 0)
  return (arrayIndex, bitMask)

/-- Sets the bit of a file and tells whether it was clear. -/
def markRecentlyAccessed (lru : LruState) (fileid : Text) : Except Panic (Bool × LruState) :=
  if (utf8 fileid).length < 10 then .ok (false, lru)
  else do
    let (arrayIndex, bitMask) ← slot fileid
    match lru.lruCacheTable[arrayIndex]? with
    | none => .error .sliceIndex
    | some word =>
      if word &&& bitMask ≠ 0 then return (false, lru)
      else
        return (true, { lru with
          lruCacheTable := lru.lruCacheTable.set arrayIndex (word ||| bitMask)
          length_table := by rw [List.length_set, lru.length_table] })

/-- `table[start..stop].fill(0)` -/
def fillZero (table : List UInt16) (start stop : ℕ) : List UInt16 :=
  table.take start ++ List.replicate (stop - start) 0 ++ table.drop stop

theorem length_fillZero {table : List UInt16} {start stop : ℕ} (h : start ≤ stop)
    (hs : stop ≤ table.length) : (fillZero table start stop).length = table.length := by
  simp [fillZero]
  omega

def cycle (build : Build) (lru : LruState) : Except Panic LruState := do
  let advanced ← addU64 build lru.lruClearPointer 17
  let clearUntil := min advanced.toNat lruCacheSize
  if h : lru.lruClearPointer.toNat ≤ clearUntil ∧ clearUntil ≤ lru.lruCacheTable.length then
    return {
      lruCacheTable := fillZero lru.lruCacheTable lru.lruClearPointer.toNat clearUntil
      lruClearPointer := if lruCacheSize ≤ clearUntil then 0 else UInt64.ofNat clearUntil
      length_table := by rw [length_fillZero h.1 h.2, lru.length_table] }
  else .error .sliceIndex

/-! ## No index is out of range -/

/-- The two slices of an id are inside its hash. -/
theorem slot_append (hash : Sha1Hash) (tail : Text) :
    slot (hash.text ++ tail) = .ok ((parseHex (2 ^ 64) ((hash.text.take 9).drop 4)).getD 0,
      1 <<< UInt16.ofNat ((parseHex (2 ^ 16) ((hash.text.take 10).drop 9)).getD 0)) := by
  have hlen := hash.length_text
  rw [slot, byteSlice_append hash.ascii _ (by omega) (by omega),
    byteSlice_append hash.ascii _ (by omega) (by omega)]
  rfl

theorem slot_fileid (hv : HVFile) :
    slot hv.fileid = .ok ((parseHex (2 ^ 64) ((hv.hash.text.take 9).drop 4)).getD 0,
      1 <<< UInt16.ofNat ((parseHex (2 ^ 16) ((hv.hash.text.take 10).drop 9)).getD 0)) := by
  obtain ⟨tail, ht⟩ := hv.exists_fileid_eq
  rw [ht, slot_append]

theorem slot_fileid_lt {hv : HVFile} {arrayIndex : ℕ} {bitMask : UInt16}
    (h : slot hv.fileid = .ok (arrayIndex, bitMask)) : arrayIndex < lruCacheSize := by
  rw [slot_fileid] at h
  cases h
  have hlen : ((hv.hash.text.take 9).drop 4).length = 5 := by simp [hv.hash.length_text]
  cases hp : parseHex (2 ^ 64) ((hv.hash.text.take 9).drop 4) with
  | none => simp [lruCacheSize]
  | some n =>
    have hn := parseHex_lt hp
    rw [hlen] at hn
    simpa [lruCacheSize] using hn

/-- Marking a cached file always succeeds and leaves the clearing pointer alone. -/
theorem markRecentlyAccessed_fileid (lru : LruState) (hv : HVFile) :
    ∃ marked lru', lru.markRecentlyAccessed hv.fileid = .ok (marked, lru') ∧
      lru'.lruClearPointer = lru.lruClearPointer := by
  simp only [markRecentlyAccessed]
  split_ifs with hshort
  · exact ⟨false, lru, rfl, rfl⟩
  · obtain ⟨⟨arrayIndex, bitMask⟩, hslot⟩ : ∃ p, slot hv.fileid = .ok p := ⟨_, slot_fileid hv⟩
    have hlt : arrayIndex < lru.lruCacheTable.length := lru.length_table ▸ slot_fileid_lt hslot
    simp only [hslot, List.getElem?_eq_getElem hlt, bind, Except.bind]
    split_ifs with hbit
    · exact ⟨false, lru, rfl, rfl⟩
    · exact ⟨true, _, rfl, rfl⟩

/-! ## The bits that are set -/

def bitSet (lru : LruState) (arrayIndex bit : ℕ) : Prop :=
  lru.lruCacheTable.getD arrayIndex 0 &&& (1 <<< UInt16.ofNat bit) ≠ 0

/-- The bit that a file selects. -/
def mapsTo (hv : HVFile) (arrayIndex bit : ℕ) : Prop :=
  slot hv.fileid = .ok (arrayIndex, 1 <<< UInt16.ofNat bit)

private theorem oneBit_and : ∀ i < 16, ∀ j < 16,
    ((1 : UInt16) <<< UInt16.ofNat i &&& 1 <<< UInt16.ofNat j ≠ 0 ↔ i = j) ∧
      ((1 : UInt16) <<< UInt16.ofNat i = 1 <<< UInt16.ofNat j ↔ i = j) := by
  decide

theorem exists_mapsTo (hv : HVFile) : ∃ arrayIndex bit, bit < 16 ∧ mapsTo hv arrayIndex bit := by
  refine ⟨_, (parseHex (2 ^ 16) ((hv.hash.text.take 10).drop 9)).getD 0, ?_, slot_fileid hv⟩
  have hlen : ((hv.hash.text.take 10).drop 9).length = 1 := by simp [hv.hash.length_text]
  cases hp : parseHex (2 ^ 16) ((hv.hash.text.take 10).drop 9) with
  | none => simp
  | some n =>
    have hn := parseHex_lt hp
    rw [hlen] at hn
    simpa using hn

theorem mapsTo_iff {hv : HVFile} {i d : ℕ} (h : mapsTo hv i d) (hd : d < 16) {arrayIndex bit : ℕ}
    (hbit : bit < 16) : mapsTo hv arrayIndex bit ↔ i = arrayIndex ∧ d = bit := by
  rw [mapsTo] at h
  rw [mapsTo, h]
  simp only [Except.ok.injEq, Prod.mk.injEq, (oneBit_and d hd bit hbit).2]

theorem or_and_ne_zero (word mask bit : UInt16) :
    (word ||| mask) &&& bit ≠ 0 ↔ word &&& bit ≠ 0 ∨ mask &&& bit ≠ 0 := by
  have hdist : (word ||| mask) &&& bit = word &&& bit ||| mask &&& bit := by
    rw [← UInt16.toBitVec_inj]
    exact BitVec.and_or_distrib_right
  rw [hdist, ← not_and_or, not_iff_not]
  exact UInt16.or_eq_zero_iff

/-- The word of a file is looked up and its bit set. -/
theorem markRecentlyAccessed_eq {lru : LruState} {hv : HVFile} {i d : ℕ} (hmap : mapsTo hv i d)
    (hlt : i < lru.lruCacheTable.length) :
    lru.markRecentlyAccessed hv.fileid =
      if lru.lruCacheTable[i] &&& (1 <<< UInt16.ofNat d) ≠ 0 then .ok (false, lru)
      else .ok (true, { lru with
        lruCacheTable := lru.lruCacheTable.set i (lru.lruCacheTable[i] ||| 1 <<< UInt16.ofNat d)
        length_table := by rw [List.length_set, lru.length_table] }) := by
  have hlong : ¬ (utf8 hv.fileid).length < 10 := by
    obtain ⟨tail, ht⟩ := hv.exists_fileid_eq
    rw [ht, utf8_append, List.length_append, length_utf8_ascii hv.hash.ascii, hv.hash.length_text]
    omega
  rw [mapsTo] at hmap
  simp only [markRecentlyAccessed, if_neg hlong, hmap, bind, Except.bind,
    List.getElem?_eq_getElem hlt]
  rfl

/-- Marking a file sets its bit and leaves every other bit as it was. -/
theorem bitSet_markRecentlyAccessed {lru lru' : LruState} {hv : HVFile} {marked : Bool}
    (h : lru.markRecentlyAccessed hv.fileid = .ok (marked, lru')) {arrayIndex bit : ℕ}
    (hbit : bit < 16) :
    lru'.bitSet arrayIndex bit ↔ lru.bitSet arrayIndex bit ∨ mapsTo hv arrayIndex bit := by
  obtain ⟨i, d, hd, hmap⟩ := exists_mapsTo hv
  rw [mapsTo_iff hmap hd hbit]
  have hlt : i < lru.lruCacheTable.length := lru.length_table ▸ slot_fileid_lt hmap
  rw [markRecentlyAccessed_eq hmap hlt] at h
  split_ifs at h with hset
  · obtain ⟨-, rfl⟩ := Prod.mk.inj (Except.ok.inj h)
    refine ⟨.inl, ?_⟩
    rintro (h | ⟨rfl, rfl⟩)
    · exact h
    · rw [bitSet, List.getD_eq_getElem _ _ hlt]
      exact hset
  · obtain ⟨-, rfl⟩ := Prod.mk.inj (Except.ok.inj h)
    by_cases hi : i = arrayIndex
    · subst hi
      simp only [bitSet, List.getD_eq_getElem?_getD, List.getElem?_set_self hlt, Option.getD_some,
        List.getElem?_eq_getElem hlt, or_and_ne_zero, (oneBit_and d hd bit hbit).1, true_and]
    · simp only [bitSet, List.getD_eq_getElem?_getD, List.getElem?_set_ne hi, hi, false_and, or_false]

theorem not_bitSet_new (arrayIndex bit : ℕ) : ¬ new.bitSet arrayIndex bit := by
  have hzero : new.lruCacheTable.getD arrayIndex 0 = 0 := List.getElem?_getD_replicate_default_eq ..
  rw [bitSet, hzero, ne_eq, not_not]
  exact UInt16.zero_and

/-- Where the pointer goes. -/
def nextPointer (p : ℕ) : ℕ := if lruCacheSize ≤ p + 17 then 0 else p + 17

theorem nextPointer_lt (p : ℕ) : nextPointer p < lruCacheSize := by
  unfold nextPointer
  split_ifs
  · decide
  · omega

/-- Below the table's length a cycle clears its words and moves on. -/
theorem cycle_eq (build : Build) {lru : LruState} (h : lru.lruClearPointer.toNat < lruCacheSize) :
    ∃ lru', lru.cycle build = .ok lru' ∧
      lru'.lruClearPointer.toNat = nextPointer lru.lruClearPointer.toNat ∧
      lru'.lruCacheTable = fillZero lru.lruCacheTable lru.lruClearPointer.toNat
        (min (lru.lruClearPointer.toNat + 17) lruCacheSize) := by
  have hsize : lruCacheSize = 1048576 := rfl
  have hstep : (17 : UInt64).toNat = 17 := rfl
  have hfits : lru.lruClearPointer.toNat + (17 : UInt64).toNat < 2 ^ 64 := by omega
  obtain ⟨hadd, hsum⟩ := addU64_of_lt build hfits
  rw [hstep] at hsum
  have hle : lru.lruClearPointer.toNat ≤ min (lru.lruClearPointer + 17).toNat lruCacheSize ∧
      min (lru.lruClearPointer + 17).toNat lruCacheSize ≤ lru.lruCacheTable.length := by
    rw [lru.length_table, hsum]
    omega
  simp only [cycle, hadd, bind, Except.bind, dif_pos hle]
  refine ⟨_, rfl, ?_, by simp only [hsum]⟩
  simp only [nextPointer, hsum]
  split_ifs with hwrap hend hend
  · rfl
  · omega
  · omega
  · have hlt : min (lru.lruClearPointer.toNat + 17) lruCacheSize < lruCacheSize := by omega
    rw [UInt64.toNat_ofNat_of_lt' (lt_trans hlt (by decide))]
    omega

theorem cycle_of_lt (build : Build) {lru : LruState} (h : lru.lruClearPointer.toNat < lruCacheSize) :
    ∃ lru', lru.cycle build = .ok lru' ∧ lru'.lruClearPointer.toNat < lruCacheSize := by
  obtain ⟨lru', hok, hpointer, -⟩ := cycle_eq build h
  exact ⟨lru', hok, hpointer ▸ nextPointer_lt _⟩

/-- Beyond the table's length the slice to clear has its bounds out of order. -/
theorem cycle_of_gt {build : Build} {lru : LruState} (h : lruCacheSize < lru.lruClearPointer.toNat)
    (hfits : lru.lruClearPointer.toNat + 17 < 2 ^ 64) : lru.cycle build = .error .sliceIndex := by
  have hlt : lru.lruClearPointer.toNat + (17 : UInt64).toNat < 2 ^ 64 := hfits
  have hadd := (addU64_of_lt build hlt).1
  have hnot : ¬ (lru.lruClearPointer.toNat ≤ min (lru.lruClearPointer + 17).toNat lruCacheSize ∧
      min (lru.lruClearPointer + 17).toNat lruCacheSize ≤ lru.lruCacheTable.length) := by
    omega
  simp only [cycle, hadd, bind, Except.bind, dif_neg hnot]

end LruState
end HathRs
