import HathRs.CacheHandler

/-!
# What a loaded snapshot may contain

The loader checks digests and the presence of every field but not the values, so the
clearing pointer and the range names reach the slicing code as they are in the files.
A snapshot keeps the handler's invariants, and with them every later index in range,
exactly when its last pointer line is below the table's length and every range name in
`pcache_ages` has four hexadecimal characters.
-/

namespace HathRs.SnapshotValidation
open ByteWords TextParsing HashMaps Digests FileIds MachineArithmetic BincodeFormat PersistentCache

/-- Four ASCII hexadecimal characters. -/
def HexRange (range : Text) : Prop := range.length = 4 ∧ ∀ c ∈ range, isAsciiHexdigit c = true

/-- What the running cache relies on. -/
structure HandlerInvariant (cache : CacheHandler) : Prop where
  pointer_lt : cache.lru.lruClearPointer.toNat < lruCacheSize
  ranges : ∀ range ∈ cache.staticRangeOldest, HexRange range

/-! ## Later calls -/

inductive Call where
  | cycle
  | markRecentlyAccessed (hv : HVFile)
  | checkPruneAction (config : Config) (now : UInt64) (order : IterationOrder Text UInt64)

def runCall (build : Build) (cache : CacheHandler) : Call → Except Panic CacheHandler
  | .cycle => do return { cache with lru := ← cache.lru.cycle build }
  | .markRecentlyAccessed hv => do
    let (_, lru) ← cache.lru.markRecentlyAccessed hv.fileid
    return { cache with lru := lru }
  | .checkPruneAction config now order => do
    let _ ← cache.checkPruneAction build config now (order.iterate cache.staticRangeOldest)
    return cache

/-- Some call of the sequence indexes out of range. A call that stops at an overflow has
changed nothing, and the next one follows. -/
def slicePanics (build : Build) (cache : CacheHandler) : List Call → Bool
  | [] => false
  | call :: calls =>
    match runCall build cache call with
    | .ok next => slicePanics build next calls
    | .error .sliceIndex => true
    | .error .overflow => slicePanics build cache calls

theorem HexRange.ascii {range : Text} (h : HexRange range) : Ascii range :=
  fun c hc => toNat_lt_of_isAsciiHexdigit (h.2 c hc)

theorem HexRange.byteSlice_ok {range : Text} (h : HexRange range) {start stop : ℕ}
    (hle : start ≤ stop) (hs : stop ≤ 4) :
    byteSlice range start stop = .ok ((range.take stop).drop start) := by
  have hslice := byteSlice_append h.ascii [] hle (h.1.symm ▸ hs)
  rwa [List.append_nil] at hslice

theorem noSlicePanic_pruneNeed (build : Build) (cache : CacheHandler) (config : Config)
    (cacheSize : UInt64) : NoSlicePanic (cache.pruneNeed build config cacheSize) := by
  simp only [CacheHandler.pruneNeed]
  split_ifs
  · exact NoSlicePanic.bind (noSlicePanic_addU64 _ _ _) fun _ _ =>
      NoSlicePanic.bind (noSlicePanic_subU64 _ _ _) fun _ _ => noSlicePanic_ok _
  · exact NoSlicePanic.bind (noSlicePanic_subU64 _ _ _) fun _ _ =>
      NoSlicePanic.bind (noSlicePanic_subU64 _ _ _) fun _ _ => noSlicePanic_ok _
  · exact noSlicePanic_ok _

theorem noSlicePanic_pruneCutoff (build : Build) (now age : UInt64) :
    NoSlicePanic (CacheHandler.pruneCutoff build now age) := by
  simp only [CacheHandler.pruneCutoff]
  split_ifs <;> exact noSlicePanic_addU64 _ _ _

/-- With well-formed range names the prune decision never slices out of range. -/
theorem noSlicePanic_checkPruneAction (build : Build) (cache : CacheHandler) (config : Config)
    (now : UInt64) {order : List (Entry Text UInt64)} (ho : ∀ e ∈ order, HexRange e.1) :
    NoSlicePanic (cache.checkPruneAction build config now order) := by
  have hsize : NoSlicePanic
      (CacheHandler.cacheSizeWithOverhead build cache.cacheSize cache.cacheCount config) :=
    NoSlicePanic.bind (noSlicePanic_mulU64 _ _ _) fun _ _ => noSlicePanic_addU64 _ _ _
  refine NoSlicePanic.bind hsize fun cacheSize _ =>
    NoSlicePanic.bind (noSlicePanic_pruneNeed _ _ _ _) fun need _ => ?_
  simp only
  split_ifs
  · exact noSlicePanic_ok _
  · cases hold : CacheHandler.oldestRange order with
    | none => exact noSlicePanic_ok _
    | some oldest =>
      have hhex := ho oldest (CacheHandler.oldestRange_mem hold)
      refine NoSlicePanic.bind (noSlicePanic_pruneCutoff _ _ _) fun cutoff _ => ?_
      rw [hhex.byteSlice_ok (by omega) (by omega), hhex.byteSlice_ok (by omega) (by omega)]
      exact noSlicePanic_ok _

/-- Every call keeps the invariant and stays in range. -/
theorem HandlerInvariant.runCall (build : Build) {cache : CacheHandler} (h : HandlerInvariant cache)
    (call : Call) : NoSlicePanic (runCall build cache call) ∧
      ∀ next, SnapshotValidation.runCall build cache call = .ok next → HandlerInvariant next := by
  cases call with
  | cycle =>
    obtain ⟨lru, hlru, hlt⟩ := LruState.cycle_of_lt build h.pointer_lt
    simp only [SnapshotValidation.runCall, hlru]
    refine ⟨noSlicePanic_ok _, ?_⟩
    rintro next ⟨⟩
    exact ⟨hlt, h.ranges⟩
  | markRecentlyAccessed hv =>
    obtain ⟨marked, lru, hlru, hptr⟩ := cache.lru.markRecentlyAccessed_fileid hv
    simp only [SnapshotValidation.runCall, hlru]
    refine ⟨noSlicePanic_ok _, ?_⟩
    rintro next ⟨⟩
    exact ⟨hptr ▸ h.pointer_lt, h.ranges⟩
  | checkPruneAction config now order =>
    have horder : ∀ e ∈ order.iterate cache.staticRangeOldest, HexRange e.1 := fun e he =>
      h.ranges e.1 ((order.iterates _).mem_keys e.1 |>.mpr (List.mem_map_of_mem he))
    have hno := noSlicePanic_checkPruneAction build cache config now horder
    refine ⟨NoSlicePanic.bind hno fun _ _ => noSlicePanic_ok _, fun next hnext => ?_⟩
    simp only [SnapshotValidation.runCall] at hnext
    cases hc : cache.checkPruneAction build config now (order.iterate cache.staticRangeOldest) with
    | error e =>
      rw [hc] at hnext
      cases hnext
    | ok action =>
      rw [hc] at hnext
      cases hnext
      exact h

theorem HandlerInvariant.not_slicePanics {build : Build} {cache : CacheHandler}
    (h : HandlerInvariant cache) (calls : List Call) : slicePanics build cache calls = false := by
  induction calls generalizing cache with
  | nil => rfl
  | cons call calls ih =>
    obtain ⟨hno, hnext⟩ := h.runCall build call
    rw [slicePanics]
    cases hrun : SnapshotValidation.runCall build cache call with
    | ok next => exact ih (hnext next hrun)
    | error e =>
      cases e with
      | overflow => exact ih h
      | sliceIndex => exact absurd hrun hno

/-! ## Where the loaded values come from -/

/-- The value on a `lruClearPointer` line. -/
def pointerValue (line : Text) : Option Text :=
  match splitOnce '=' line with
  | none => none
  | some (key, value) => if key = "lruClearPointer".toList then some value else none

private theorem or_and_four (x y : UInt32) (h : y &&& 4 = 0) : (x ||| y) &&& 4 = x &&& 4 := by
  rw [← UInt32.toBitVec_inj] at h ⊢
  simp only [UInt32.toBitVec_and, UInt32.toBitVec_or] at h ⊢
  rw [BitVec.and_or_distrib_right, h]
  simp

/-- A line of another field keeps the pointer and its bit of the checksum. -/
theorem readInfoLine_of_pointerValue_none {fields fields' : InfoFields} {line : Text}
    (hp : pointerValue line = none) (h : readInfoLine fields line = some fields') :
    fields'.lruClearPointer = fields.lruClearPointer ∧
      fields'.infoChecksum &&& 4 = fields.infoChecksum &&& 4 := by
  simp only [readInfoLine] at h
  simp only [pointerValue] at hp
  cases hs : splitOnce '=' line with
  | none =>
    rw [hs] at h
    cases h
    exact ⟨rfl, rfl⟩
  | some pair =>
    rw [hs] at h hp
    simp only at h hp
    split_ifs at hp with hkey
    rcases set_cases h with ⟨-, n, -, rfl⟩ | ⟨-, n, -, rfl⟩ | ⟨-, n, -, rfl⟩ | ⟨heq, -⟩ |
      ⟨-, rfl⟩ | ⟨-, rfl⟩ | ⟨-, -, rfl⟩
    · exact ⟨rfl, rfl⟩
    · exact ⟨rfl, or_and_four _ 1 (by decide)⟩
    · exact ⟨rfl, or_and_four _ 2 (by decide)⟩
    · exact absurd heq hkey
    · exact ⟨rfl, or_and_four _ 8 (by decide)⟩
    · exact ⟨rfl, or_and_four _ 16 (by decide)⟩
    · exact ⟨rfl, rfl⟩

theorem readInfoLine_of_pointerValue_some {fields fields' : InfoFields} {line value : Text}
    (hp : pointerValue line = some value) (h : readInfoLine fields line = some fields') :
    parseU64 value = some fields'.lruClearPointer := by
  simp only [readInfoLine] at h
  simp only [pointerValue] at hp
  cases hs : splitOnce '=' line with
  | none =>
    rw [hs] at hp
    cases hp
  | some pair =>
    rw [hs] at h hp
    simp only at h hp
    split_ifs at hp with hkey
    cases hp
    rw [hkey] at h
    rcases set_cases h with ⟨heq, -⟩ | ⟨heq, -⟩ | ⟨heq, -⟩ | ⟨-, n, hn, rfl⟩ | ⟨heq, -⟩ |
      ⟨heq, -⟩ | ⟨hne, -⟩
    · exact absurd heq (by decide)
    · exact absurd heq (by decide)
    · exact absurd heq (by decide)
    · exact hn
    · exact absurd heq (by decide)
    · exact absurd heq (by decide)
    · exact absurd rfl hne

/-- The last pointer line decides. Without one, the pointer's bit stays clear. -/
theorem readInfoLines_pointer {ls : List Text} {fields fields' : InfoFields}
    (h : readInfoLines fields ls = some fields') :
    match (ls.filterMap pointerValue).getLast? with
    | none => fields'.infoChecksum &&& 4 = fields.infoChecksum &&& 4
    | some value => parseU64 value = some fields'.lruClearPointer := by
  induction ls using List.reverseRecOn generalizing fields' with
  | nil =>
    cases h
    rfl
  | append_singleton ls line ih =>
    rw [readInfoLines, List.foldlM_append] at h
    obtain ⟨mid, hmid, hlast⟩ := Option.bind_eq_some_iff.mp h
    simp only [List.foldlM_cons, List.foldlM_nil, bind, pure, Option.bind_fun_some] at hlast
    rw [List.filterMap_append]
    cases hp : pointerValue line with
    | some value =>
      simp only [List.filterMap_cons, hp, List.filterMap_nil, List.getLast?_append,
        List.getLast?_singleton, Option.some_or]
      exact readInfoLine_of_pointerValue_some hp hlast
    | none =>
      obtain ⟨hptr, hsum⟩ := readInfoLine_of_pointerValue_none hp hlast
      simp only [List.filterMap_cons, hp, List.filterMap_nil, List.append_nil]
      have hfront := ih hmid
      cases hg : (ls.filterMap pointerValue).getLast? with
      | none =>
        rw [hg] at hfront
        exact hsum.trans hfront
      | some value =>
        rw [hg] at hfront
        simp only [hptr]
        exact hfront

/-- What a successful load read from the files. -/
theorem tryLoad_source {bincode : Bincode} {sha1 : Bytes → Sha1Digest} {disk : Disk DataPath}
    {state : PersistentCacheState} (h : tryLoad bincode sha1 disk = some state) :
    (∃ raw info value, disk pcacheInfo = some raw ∧ fromUtf8 raw = some info ∧
      ((lines info).filterMap pointerValue).getLast? = some value ∧
      parseU64 value = some state.lruClearPointer) ∧
    ∃ data, disk pcacheAges = some data ∧
      bincode.deserializeAges data = some state.staticRangeAges := by
  simp only [tryLoad, bind, Option.bind_eq_some_iff] at h
  obtain ⟨raw, hraw, info, hinfo, fields, hfields, h⟩ := h
  split_ifs at h with hsum hversion
  simp only [Option.bind_eq_some_iff] at h
  obtain ⟨agesHash, -, lruHash, -, ages, hages, table, -, hstate⟩ := h
  cases hstate
  have hpointer := readInfoLines_pointer hfields
  refine ⟨?_, ?_⟩
  · cases hg : ((lines info).filterMap pointerValue).getLast? with
    | none =>
      rw [hg] at hpointer
      simp only at hpointer
      rw [not_not.mp hsum] at hpointer
      exact absurd hpointer (by decide)
    | some value =>
      rw [hg] at hpointer
      exact ⟨raw, info, value, hraw, hinfo, hg, hpointer⟩
  · simp only [readObject, bind, Option.bind_eq_some_iff] at hages
    obtain ⟨data, hdata, hages⟩ := hages
    split_ifs at hages
    exact ⟨data, hdata, hages⟩

variable (bincode : Bincode) (sha1 : Bytes → Sha1Digest)

/-- The last pointer line of `pcache_info` is below the table's length and every range name
in `pcache_ages` has four hexadecimal characters. -/
structure StoredValuesValid (disk : Disk DataPath) : Prop where
  pointer : ∀ raw info value n, disk pcacheInfo = some raw → fromUtf8 raw = some info →
    ((lines info).filterMap pointerValue).getLast? = some value → parseU64 value = some n →
    n.toNat < lruCacheSize
  ranges : ∀ data ages, disk pcacheAges = some data → bincode.deserializeAges data = some ages →
    ∀ range ∈ ages, HexRange range

/-- An accepted snapshot gives the running cache what it relies on exactly when the stored
values are valid, and then no later call indexes out of range. -/
theorem loaded_handler_valid_iff (disk : Disk DataPath) (state : PersistentCacheState)
    (h : tryLoad bincode sha1 disk = some state) :
    (HandlerInvariant (CacheHandler.ofPersistent state) ∧
      ∀ build calls, slicePanics build (CacheHandler.ofPersistent state) calls = false) ↔
    StoredValuesValid bincode disk := by
  obtain ⟨⟨raw, info, value, hraw, hinfo, hvalue, hparse⟩, data, hdata, hages⟩ := tryLoad_source h
  constructor
  · rintro ⟨hinv, -⟩
    refine ⟨fun raw' info' value' n hraw' hinfo' hvalue' hn => ?_, fun data' ages' hdata' hages' => ?_⟩
    · rw [hraw] at hraw'
      cases hraw'
      rw [hinfo] at hinfo'
      cases hinfo'
      rw [hvalue] at hvalue'
      cases hvalue'
      rw [hparse] at hn
      cases hn
      exact hinv.pointer_lt
    · rw [hdata] at hdata'
      cases hdata'
      rw [hages] at hages'
      cases hages'
      exact hinv.ranges
  · intro hvalid
    have hinv : HandlerInvariant (CacheHandler.ofPersistent state) :=
      ⟨hvalid.pointer raw info value _ hraw hinfo hvalue hparse, hvalid.ranges data _ hdata hages⟩
    exact ⟨hinv, fun build calls => hinv.not_slicePanics calls⟩

/-! Snapshots of an empty cache with a given clearing pointer. -/

def pointerState (pointer : UInt64) : PersistentCacheState := ⟨0, 0, pointer, ∅, []⟩

def pointerSnapshot (sha1 : Bytes → Sha1Digest) (pointer : UInt64) : Snapshot :=
  let data := leBytes 8 0
  ⟨data, data, utf8 (infoText (pointerState pointer) (sha1Bytes sha1 data) (sha1Bytes sha1 data))⟩

def pointerDisk (sha1 : Bytes → Sha1Digest) (pointer : UInt64) : Disk DataPath :=
  let snap := pointerSnapshot sha1 pointer
  Function.update (Function.update (Function.update (fun _ => none) pcacheAges (some snap.ages))
    pcacheLru (some snap.lru)) pcacheInfo (some snap.info)

theorem tryLoad_pointerDisk (pointer : UInt64) :
    tryLoad fixint sha1 (pointerDisk sha1 pointer) = some (pointerState pointer) := by
  have hs : snapshot fixint sha1 (pointerState pointer) [] = some (pointerSnapshot sha1 pointer) :=
    snapshot_eq_some fixint sha1 rfl rfl
  have ho : Iterates [] (pointerState pointer).staticRangeAges := rfl
  exact tryLoad_of_snapshot fixint sha1 ho hs (storedOn_of_writes _ _)

/-- A pointer of 2000000 is accepted, and the first sweep indexes out of range. -/
theorem loaded_pointer_out_of_range :
    ¬ ∃ sha1 : Bytes → Sha1Digest,
      tryLoad fixint sha1 (pointerDisk sha1 2000000) = some (pointerState 2000000) →
      HandlerInvariant (CacheHandler.ofPersistent (pointerState 2000000)) ∧
        ∀ build calls,
          slicePanics build (CacheHandler.ofPersistent (pointerState 2000000)) calls = false := by
  rintro ⟨sha1, h⟩
  obtain ⟨-, hcalls⟩ := h (tryLoad_pointerDisk sha1 2000000)
  have hcycle : (CacheHandler.ofPersistent (pointerState 2000000)).lru.cycle .release =
      .error .sliceIndex := LruState.cycle_of_gt (by decide) (by decide)
  have hpanic := hcalls .release [.cycle]
  simp only [slicePanics, runCall, hcycle, bind, Except.bind] at hpanic
  cases hpanic

theorem loaded_handler_valid_iff_pointer :
    (HandlerInvariant (CacheHandler.ofPersistent (pointerState 17)) ∧
      ∀ build calls, slicePanics build (CacheHandler.ofPersistent (pointerState 17)) calls = false) ↔
    StoredValuesValid fixint (pointerDisk (fun _ => Vector.replicate 20 0) 17) :=
  loaded_handler_valid_iff fixint (fun _ => Vector.replicate 20 0) _ _
    (tryLoad_pointerDisk (fun _ => Vector.replicate 20 0) 17)

end HathRs.SnapshotValidation
