import HathRs.BincodeFormat
import HathRs.CrashFiles
import HathRs.Digests

/-!
# The persistent cache snapshot: save, clear and load

A snapshot is three files of the data directory. `pcache_info` is written last and
names the digests of the other two, so it is the marker that publishes them.
`tryLoad_of_snapshot` reads a complete snapshot back, in any iteration order of the
range ages.
-/

namespace HathRs.PersistentCache
open TextParsing HashMaps Digests CrashFiles BincodeFormat

def formatVersion : UInt32 := 1

structure PersistentCacheState where
  cacheCount : UInt32
  cacheSize : UInt64
  lruClearPointer : UInt64
  staticRangeAges : HashMap Text UInt64
  lruCacheTable : List UInt16

/-- The components of a path below the data directory. -/
abbrev DataPath := List Text

def pcacheInfo : DataPath := ["pcache_info".toList]

def pcacheAges : DataPath := ["pcache_ages".toList]

def pcacheLru : DataPath := ["pcache_lru".toList]

variable (bincode : Bincode) (sha1 : Bytes → Sha1Digest)

/-! ## Saving and clearing -/

def infoText (state : PersistentCacheState) (agesHash lruHash : Text) : Text :=
  "formatVersion=".toList ++ decimal formatVersion.toNat ++
    "\ncacheCount=".toList ++ decimal state.cacheCount.toNat ++
    "\ncacheSize=".toList ++ decimal state.cacheSize.toNat ++
    "\nlruClearPointer=".toList ++ decimal state.lruClearPointer.toNat ++
    "\nagesHash=".toList ++ agesHash ++ "\nlruHash=".toList ++ lruHash

/-- What the three files hold once a snapshot is complete. -/
structure Snapshot where
  ages : Bytes
  lru : Bytes
  info : Bytes

/-- The three files of the data directory hold the snapshot. -/
structure Snapshot.StoredOn (snap : Snapshot) (disk : Disk DataPath) : Prop where
  ages : disk pcacheAges = some snap.ages
  lru : disk pcacheLru = some snap.lru
  info : disk pcacheInfo = some snap.info

/-- The bytes that `save` writes, with the map iterated in the given order. -/
def snapshot (state : PersistentCacheState) (order : List (Entry Text UInt64)) : Option Snapshot := do
  let agesData ← bincode.serializeAges order
  let lruData ← bincode.serializeTable state.lruCacheTable
  let info := infoText state (sha1Bytes sha1 agesData) (sha1Bytes sha1 lruData)
  return ⟨agesData, lruData, utf8 info⟩

/-- An error that follows the given operations. -/
def failAfter (result : Disk DataPath × Outcome) : Disk DataPath × Outcome :=
  (result.1, if result.2 = .crashed then .crashed else .failed)

def save (state : PersistentCacheState) (order : List (Entry Text UInt64)) (faults : List Fault)
    (disk : Disk DataPath) : Disk DataPath × Outcome :=
  match bincode.serializeAges order with
  | none => failAfter (runOps disk faults [.remove pcacheInfo])
  | some agesData =>
    match bincode.serializeTable state.lruCacheTable with
    | none => failAfter (runOps disk faults [.remove pcacheInfo, .write pcacheAges agesData])
    | some lruData =>
      let agesHash := sha1Bytes sha1 agesData
      let lruHash := sha1Bytes sha1 lruData
      runOps disk faults
        [.remove pcacheInfo, .write pcacheAges agesData, .write pcacheLru lruData,
          .write pcacheInfo (utf8 (infoText state agesHash lruHash))]

def clear (faults : List Fault) (disk : Disk DataPath) : Disk DataPath × Outcome :=
  runOps disk faults [.remove pcacheInfo, .remove pcacheAges, .remove pcacheLru]

/-! ## Loading -/

/-- The local variables of the parser loop. -/
structure InfoFields where
  infoChecksum : UInt32 := 0
  agesHash : Option Text := none
  lruHash : Option Text := none
  cacheCount : UInt32 := 0
  cacheSize : UInt64 := 0
  lruClearPointer : UInt64 := 0
  formatVersion : Option UInt32 := none

def InfoFields.set (fields : InfoFields) (key value : Text) : Option InfoFields :=
  if key = "formatVersion".toList then do
    return { fields with formatVersion := some (← parseU32 value) }
  else if key = "cacheCount".toList then do
    return { fields with
      cacheCount := ← parseU32 value, infoChecksum := fields.infoChecksum ||| 1 }
  else if key = "cacheSize".toList then do
    return { fields with
      cacheSize := ← parseU64 value, infoChecksum := fields.infoChecksum ||| 2 }
  else if key = "lruClearPointer".toList then do
    return { fields with
      lruClearPointer := ← parseU64 value, infoChecksum := fields.infoChecksum ||| 4 }
  else if key = "agesHash".toList then
    some { fields with agesHash := some value, infoChecksum := fields.infoChecksum ||| 8 }
  else if key = "lruHash".toList then
    some { fields with lruHash := some value, infoChecksum := fields.infoChecksum ||| 16 }
  else some fields

/-- One turn of `for line in info_content.lines()`. -/
def readInfoLine (fields : InfoFields) (line : Text) : Option InfoFields :=
  match splitOnce '=' line with
  | none => some fields
  | some (key, value) => fields.set key value

def readInfoLines (fields : InfoFields) (ls : List Text) : Option InfoFields :=
  ls.foldlM readInfoLine fields

def readObject {α : Type} (deserialize : Bytes → Option α) (disk : Disk DataPath) (file : DataPath)
    (expectedHash : Text) : Option α := do
  let data ← disk file
  if sha1Bytes sha1 data ≠ expectedHash then none
  else deserialize data

def tryLoad (disk : Disk DataPath) : Option PersistentCacheState := do
  let raw ← disk pcacheInfo
  let infoContent ← fromUtf8 raw
  let fields ← readInfoLines {} (lines infoContent)
  if fields.infoChecksum ≠ 31 then none
  else if fields.formatVersion.any (· ≠ formatVersion) then none
  else
    let agesHash ← fields.agesHash
    let lruHash ← fields.lruHash
    let staticRangeAges ← readObject sha1 bincode.deserializeAges disk pcacheAges agesHash
    let lruCacheTable ← readObject sha1 bincode.deserializeTable disk pcacheLru lruHash
    return ⟨fields.cacheCount, fields.cacheSize, fields.lruClearPointer, staticRangeAges,
      lruCacheTable⟩

/-! ## The marker's lines -/

def infoLine (key : String) (value : Text) : Text := key.toList ++ '=' :: value

/-- The lines in front of the last one. -/
def frontLines (state : PersistentCacheState) (agesHash : Text) : List Text :=
  [infoLine "formatVersion" (decimal formatVersion.toNat),
    infoLine "cacheCount" (decimal state.cacheCount.toNat),
    infoLine "cacheSize" (decimal state.cacheSize.toNat),
    infoLine "lruClearPointer" (decimal state.lruClearPointer.toNat),
    infoLine "agesHash" agesHash]

private theorem joinLines_infoLines (version count size pointer agesHash lruHash : Text) :
    "formatVersion=".toList ++ version ++ "\ncacheCount=".toList ++ count ++
        "\ncacheSize=".toList ++ size ++ "\nlruClearPointer=".toList ++ pointer ++
        "\nagesHash=".toList ++ agesHash ++ "\nlruHash=".toList ++ lruHash =
      joinLines [infoLine "formatVersion" version, infoLine "cacheCount" count,
        infoLine "cacheSize" size, infoLine "lruClearPointer" pointer,
        infoLine "agesHash" agesHash, infoLine "lruHash" lruHash] := by
  simp [joinLines, infoLine]

theorem infoText_eq (state : PersistentCacheState) (agesHash lruHash : Text) :
    infoText state agesHash lruHash =
      joinLines (frontLines state agesHash ++ [infoLine "lruHash" lruHash]) := by
  exact joinLines_infoLines ..

/-- A value that can stand on a line of the marker. -/
def Printable (value : Text) : Prop := Ascii value ∧ '\n' ∉ value ∧ '\r' ∉ value

instance (value : Text) : Decidable (Printable value) := inferInstanceAs (Decidable (_ ∧ _))

theorem printable_decimal (n : ℕ) : Printable (decimal n) :=
  ⟨ascii_decimal n, fun h => ne_of_mem_decimal h (by decide) rfl,
    fun h => ne_of_mem_decimal h (by decide) rfl⟩

theorem printable_sha1Bytes (data : Bytes) : Printable (sha1Bytes sha1 data) :=
  ⟨ascii_hexEncode _, fun h => ne_of_mem_hexEncode h (by decide) rfl,
    fun h => ne_of_mem_hexEncode h (by decide) rfl⟩

theorem Printable.append {s t : Text} (hs : Printable s) (ht : Printable t) : Printable (s ++ t) :=
  ⟨hs.1.append ht.1, by simp [hs.2.1, ht.2.1], by simp [hs.2.2, ht.2.2]⟩

theorem Printable.infoLine {key : String} {value : Text} (hk : Printable key.toList)
    (hv : Printable value) : Printable (infoLine key value) :=
  hk.append (Printable.append (s := ['=']) (by decide) hv)

variable {state : PersistentCacheState} {agesHash lruHash : Text}

theorem printable_markerLines (state : PersistentCacheState) (ha : Printable agesHash)
    (hl : Printable lruHash) :
    ∀ line ∈ frontLines state agesHash ++ [infoLine "lruHash" lruHash], Printable line := by
  simp only [frontLines, List.cons_append, List.nil_append, List.forall_mem_cons]
  refine ⟨?_, ?_, ?_, ?_, ?_, ?_, by simp⟩
  · exact Printable.infoLine (by decide) (printable_decimal _)
  · exact Printable.infoLine (by decide) (printable_decimal _)
  · exact Printable.infoLine (by decide) (printable_decimal _)
  · exact Printable.infoLine (by decide) (printable_decimal _)
  · exact Printable.infoLine (by decide) ha
  · exact Printable.infoLine (by decide) hl

theorem ascii_infoText (state : PersistentCacheState) (ha : Ascii agesHash) (hl : Ascii lruHash) :
    Ascii (infoText state agesHash lruHash) := by
  have hlit : ∀ {t : Text}, Ascii t → ∀ n, Ascii (t ++ decimal n) :=
    fun ht n => ht.append (ascii_decimal n)
  refine Ascii.append (Ascii.append (Ascii.append (Ascii.append ?_ ?_) ha) ?_) hl
  · refine hlit (Ascii.append (hlit (Ascii.append (hlit (Ascii.append (hlit ?_ _) ?_) _) ?_) _) ?_) _
    all_goals decide
  · decide
  · decide

theorem lines_infoText (state : PersistentCacheState) (ha : Printable agesHash)
    (hl : Printable lruHash) :
    lines (infoText state agesHash lruHash) =
      frontLines state agesHash ++ [infoLine "lruHash" lruHash] := by
  rw [infoText_eq]
  refine lines_joinLines (fun line hline => (printable_markerLines state ha hl line hline).2) ?_
  simp [infoLine]

/-! ## Reading one line -/

/-- What one accepted `key=value` line changes. -/
theorem set_cases {fields fields' : InfoFields} {key value : Text}
    (h : fields.set key value = some fields') :
    (key = "formatVersion".toList ∧ ∃ n, parseU32 value = some n ∧
      fields' = { fields with formatVersion := some n }) ∨
    (key = "cacheCount".toList ∧ ∃ n, parseU32 value = some n ∧
      fields' = { fields with cacheCount := n, infoChecksum := fields.infoChecksum ||| 1 }) ∨
    (key = "cacheSize".toList ∧ ∃ n, parseU64 value = some n ∧
      fields' = { fields with cacheSize := n, infoChecksum := fields.infoChecksum ||| 2 }) ∨
    (key = "lruClearPointer".toList ∧ ∃ n, parseU64 value = some n ∧
      fields' = { fields with lruClearPointer := n, infoChecksum := fields.infoChecksum ||| 4 }) ∨
    (key = "agesHash".toList ∧
      fields' = { fields with agesHash := some value, infoChecksum := fields.infoChecksum ||| 8 }) ∨
    (key = "lruHash".toList ∧
      fields' = { fields with lruHash := some value, infoChecksum := fields.infoChecksum ||| 16 }) ∨
    (key ≠ "lruClearPointer".toList ∧ key ≠ "lruHash".toList ∧ fields' = fields) := by
  have hbind : ∀ {α : Type} {x : Option α} {f : α → InfoFields},
      (do return f (← x)) = some fields' → ∃ n, x = some n ∧ fields' = f n := by
    intro α x f hx
    cases x with
    | none => cases hx
    | some n => exact ⟨n, rfl, (Option.some.inj hx).symm⟩
  simp only [InfoFields.set] at h
  split_ifs at h with h₁ h₂ h₃ h₄ h₅ h₆
  · exact Or.inl ⟨h₁, hbind h⟩
  · exact Or.inr (Or.inl ⟨h₂, hbind h⟩)
  · exact Or.inr (Or.inr (Or.inl ⟨h₃, hbind h⟩))
  · exact Or.inr (Or.inr (Or.inr (Or.inl ⟨h₄, hbind h⟩)))
  · exact Or.inr (Or.inr (Or.inr (Or.inr (Or.inl ⟨h₅, (Option.some.inj h).symm⟩))))
  · exact Or.inr (Or.inr (Or.inr (Or.inr (Or.inr (Or.inl ⟨h₆, (Option.some.inj h).symm⟩)))))
  · exact Or.inr (Or.inr (Or.inr (Or.inr (Or.inr (Or.inr ⟨h₄, h₆, (Option.some.inj h).symm⟩)))))

/-! ## Reading the complete marker -/

theorem readInfoLine_infoLine (fields : InfoFields) {key : String} (hk : '=' ∉ key.toList)
    (value : Text) : readInfoLine fields (infoLine key value) = fields.set key.toList value := by
  simp only [readInfoLine, infoLine, splitOnce_append hk]

section SetFields

variable (fields : InfoFields)

theorem set_formatVersion (n : UInt32) :
    fields.set "formatVersion".toList (decimal n.toNat) =
      some { fields with formatVersion := some n } := by
  rw [InfoFields.set, if_pos rfl, parseU32_decimal]
  rfl

theorem set_cacheCount (n : UInt32) :
    fields.set "cacheCount".toList (decimal n.toNat) =
      some { fields with cacheCount := n, infoChecksum := fields.infoChecksum ||| 1 } := by
  rw [InfoFields.set, if_neg (by decide), if_pos rfl, parseU32_decimal]
  rfl

theorem set_cacheSize (n : UInt64) :
    fields.set "cacheSize".toList (decimal n.toNat) =
      some { fields with cacheSize := n, infoChecksum := fields.infoChecksum ||| 2 } := by
  rw [InfoFields.set, if_neg (by decide), if_neg (by decide), if_pos rfl, parseU64_decimal]
  rfl

theorem set_lruClearPointer (n : UInt64) :
    fields.set "lruClearPointer".toList (decimal n.toNat) =
      some { fields with lruClearPointer := n, infoChecksum := fields.infoChecksum ||| 4 } := by
  rw [InfoFields.set, if_neg (by decide), if_neg (by decide), if_neg (by decide), if_pos rfl,
    parseU64_decimal]
  rfl

theorem set_agesHash (value : Text) :
    fields.set "agesHash".toList value =
      some { fields with agesHash := some value, infoChecksum := fields.infoChecksum ||| 8 } := by
  rw [InfoFields.set, if_neg (by decide), if_neg (by decide), if_neg (by decide),
    if_neg (by decide), if_pos rfl]

theorem set_lruHash (value : Text) :
    fields.set "lruHash".toList value =
      some { fields with lruHash := some value, infoChecksum := fields.infoChecksum ||| 16 } := by
  rw [InfoFields.set, if_neg (by decide), if_neg (by decide), if_neg (by decide),
    if_neg (by decide), if_neg (by decide), if_pos rfl]

end SetFields

theorem readInfoLines_marker :
    readInfoLines {} (frontLines state agesHash ++ [infoLine "lruHash" lruHash]) =
      some ⟨31, some agesHash, some lruHash, state.cacheCount, state.cacheSize,
        state.lruClearPointer, some formatVersion⟩ := by
  simp only [readInfoLines, frontLines, List.cons_append, List.nil_append, List.foldlM_cons,
    List.foldlM_nil, Option.bind_eq_bind, Option.pure_def]
  rw [readInfoLine_infoLine _ (by decide), set_formatVersion, Option.bind_some,
    readInfoLine_infoLine _ (by decide), set_cacheCount, Option.bind_some,
    readInfoLine_infoLine _ (by decide), set_cacheSize, Option.bind_some,
    readInfoLine_infoLine _ (by decide), set_lruClearPointer, Option.bind_some,
    readInfoLine_infoLine _ (by decide), set_agesHash, Option.bind_some,
    readInfoLine_infoLine _ (by decide), set_lruHash, Option.bind_some]
  have hsum : (0 ||| 1 ||| 2 ||| 4 ||| 8 ||| 16 : UInt32) = 31 := by decide
  simp only [hsum]

/-- A complete snapshot is loaded as the state it was taken from. -/
theorem tryLoad_of_snapshot {order : List (Entry Text UInt64)} {snap : Snapshot}
    {disk : Disk DataPath} (ho : Iterates order state.staticRangeAges)
    (hs : snapshot bincode sha1 state order = some snap) (hd : snap.StoredOn disk) :
    tryLoad bincode sha1 disk = some state := by
  simp only [snapshot, bind, pure, Option.bind_eq_some_iff, Option.some.injEq] at hs
  obtain ⟨agesData, hages, lruData, hlru, rfl⟩ := hs
  have hlines := lines_infoText state (printable_sha1Bytes sha1 agesData)
    (printable_sha1Bytes sha1 lruData)
  have hversion : ((some formatVersion).any (· ≠ formatVersion)) = false := by decide
  simp only [tryLoad, hd.info, fromUtf8_utf8, hlines, readInfoLines_marker, hversion, readObject,
    hd.ages, hd.lru,
    bincode.deserializeAges_of_serializeAges ho hages,
    bincode.deserializeTable_of_serializeTable hlru, Option.bind_eq_bind, Option.bind_some]
  simp

theorem snapshot_eq_some {order : List (Entry Text UInt64)} {agesData lruData : Bytes}
    (ha : bincode.serializeAges order = some agesData)
    (hl : bincode.serializeTable state.lruCacheTable = some lruData) :
    snapshot bincode sha1 state order = some ⟨agesData, lruData,
      utf8 (infoText state (sha1Bytes sha1 agesData) (sha1Bytes sha1 lruData))⟩ := by
  simp only [snapshot, ha, hl, Option.bind_eq_bind, Option.bind_some, Option.pure_def]

/-- The three files written one after the other, with the marker last. -/
theorem storedOn_of_writes (disk : Disk DataPath) (snap : Snapshot) :
    snap.StoredOn (Function.update (Function.update (Function.update disk pcacheAges (some snap.ages))
      pcacheLru (some snap.lru)) pcacheInfo (some snap.info)) where
  ages := by
    rw [Function.update_of_ne (by decide), Function.update_of_ne (by decide)]
    exact Function.update_self ..
  lru := by
    rw [Function.update_of_ne (by decide)]
    exact Function.update_self ..
  info := Function.update_self ..

end HathRs.PersistentCache
