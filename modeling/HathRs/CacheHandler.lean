import HathRs.HashMaps
import HathRs.LruState
import HathRs.PersistentCache

/-!
# The cache handler: counters, range ages and the prune decision

The handler keeps the number and the total size of the cached files, the LRU table and
the age of the oldest file of each static range. A change of the two counters is made
under one lock and refused as a whole when either counter would leave its type; the
refusal marks the state as unfit for a snapshot.
-/

namespace HathRs
open TextParsing HashMaps Digests FileIds MachineArithmetic CrashFiles BincodeFormat PersistentCache

/-- The configuration fields that the handler reads. -/
structure Config where
  disklimitBytes : UInt64
  filesystemBlocksize : UInt64
  staticRangeCount : UInt32
  rescanCache : Bool

structure CacheHandler where
  lru : LruState
  cacheCount : UInt32
  cacheSize : UInt64
  staticRangeOldest : HashMap Text UInt64
  persistentStateValid : Bool

structure PrunePlan where
  staticRange : Text
  rangeDir : List Text
  cutoff : UInt64
  fastDelete : Bool

structure PruneResult where
  staticRange : Text
  rangeDir : List Text
  fileCount : ℕ
  oldestLastModified : UInt64

inductive PruneAction where
  | prune (plan : PrunePlan)
  | noPrune (frequency : UInt32)

def oneDay : UInt64 := 86400000

def threeDays : UInt64 := 3 * 86400000

def sevenDays : UInt64 := 7 * 86400000

def thirtyDays : UInt64 := 30 * 86400000

def oneMonth : UInt64 := 30 * 86400000

def threeMonths : UInt64 := 90 * 86400000

def sixMonths : UInt64 := 180 * 86400000

def pruneFrequency (cacheLimit cacheSizeWithOverhead wantFree : UInt64) : UInt32 :=
  let free := saturatingSubU64 cacheLimit cacheSizeWithOverhead
  if free > wantFree * 10 then 600
  else if free > wantFree then 60
  else 10

namespace CacheHandler

/-- The handler of an empty cache directory. -/
def empty : CacheHandler := ⟨LruState.new, 0, 0, ∅, true⟩

/-! ## Startup and snapshot -/

/-- The table of a loaded snapshot copied over an empty one, up to the shorter of the two. -/
def loadedTable (table : List UInt16) : List UInt16 :=
  let len := min table.length lruCacheSize
  table.take len ++ (List.replicate lruCacheSize 0).drop len

theorem length_loadedTable (table : List UInt16) : (loadedTable table).length = lruCacheSize := by
  simp only [loadedTable, List.length_append, List.length_take, List.length_drop,
    List.length_replicate]
  omega

/-- The handler that `CacheHandler::new` builds from a loaded snapshot. -/
def ofPersistent (state : PersistentCacheState) : CacheHandler where
  lru := {
    lruCacheTable := loadedTable state.lruCacheTable
    lruClearPointer := state.lruClearPointer
    length_table := length_loadedTable state.lruCacheTable }
  cacheCount := state.cacheCount
  cacheSize := state.cacheSize
  staticRangeOldest := state.staticRangeAges
  persistentStateValid := true

/-- The state that `save_persistent_data` collects. -/
def persistentState (cache : CacheHandler) : PersistentCacheState where
  cacheCount := cache.cacheCount
  cacheSize := cache.cacheSize
  lruClearPointer := cache.lru.lruClearPointer
  staticRangeAges := cache.staticRangeOldest
  lruCacheTable := cache.lru.lruCacheTable

section Files

variable (bincode : Bincode) (sha1 : Bytes → Sha1Digest)

/-- An error of `clear` is only logged. -/
def discardPersistentData (cache : CacheHandler) (faults : List Fault) (disk : Disk DataPath) :
    CacheHandler × Disk DataPath × Outcome :=
  let (cleared, outcome) := clear faults disk
  ({ cache with persistentStateValid := false }, cleared,
    if outcome = .crashed then .crashed else .ok)

/-- The error path of `save_persistent_data`: it discards and returns false. -/
def saveFailed (cache : CacheHandler) (discardFaults : List Fault) (disk : Disk DataPath) :
    CacheHandler × Disk DataPath × Outcome :=
  let (cache, cleared, outcome) := cache.discardPersistentData discardFaults disk
  (cache, cleared, if outcome = .crashed then .crashed else .failed)

/-- The outcome is `ok` when true is returned and `failed` when false is. -/
def savePersistentData (cache : CacheHandler) (order : List (Entry Text UInt64))
    (saveFaults discardFaults : List Fault) (disk : Disk DataPath) :
    CacheHandler × Disk DataPath × Outcome :=
  if !cache.persistentStateValid then cache.saveFailed discardFaults disk
  else
    match save bincode sha1 cache.persistentState order saveFaults disk with
    | (saved, .ok) => (cache, saved, .ok)
    | (torn, .failed) => cache.saveFailed discardFaults torn
    | (torn, .crashed) => (cache, torn, .crashed)

end Files

/-! ## Accounting -/

def invalidateAccounting (cache : CacheHandler) : CacheHandler :=
  { cache with persistentStateValid := false }

/-- The addition that `checked_add` performs on both counters. -/
def accountFileAdded (cache : CacheHandler) (hv : HVFile) : CacheHandler :=
  if cache.cacheCount.toNat + 1 < 2 ^ 32 then
    if cache.cacheSize.toNat + hv.size.toNat < 2 ^ 64 then
      { cache with
        cacheCount := cache.cacheCount + 1
        cacheSize := cache.cacheSize + hv.size.toUInt64 }
    else cache.invalidateAccounting
  else cache.invalidateAccounting

/-- The subtraction that `checked_sub` performs on both counters. -/
def accountFileRemoved (cache : CacheHandler) (hv : HVFile) : CacheHandler :=
  if 1 ≤ cache.cacheCount.toNat then
    if hv.size.toNat ≤ cache.cacheSize.toNat then
      { cache with
        cacheCount := cache.cacheCount - 1
        cacheSize := cache.cacheSize - hv.size.toUInt64 }
    else cache.invalidateAccounting
  else cache.invalidateAccounting

/-- The end of `register_proxy_file`: the range gets an age unless it has one. -/
def addStaticRange (cache : CacheHandler) (hv : HVFile) (now : UInt64) : CacheHandler :=
  if hv.staticRange ∈ cache.staticRangeOldest then cache
  else { cache with staticRangeOldest := cache.staticRangeOldest.insert hv.staticRange now }

/-- The middle of `register_proxy_file`: the LRU bit is set if its lock is free. -/
def markProxyFile (cache : CacheHandler) (hv : HVFile) (lruFree : Bool) : Except Panic CacheHandler :=
  if lruFree then do
    let (_, lru) ← cache.lru.markRecentlyAccessed hv.fileid
    return { cache with lru := lru }
  else .ok cache

def registerProxyFile (cache : CacheHandler) (hv : HVFile) (lruFree : Bool) (now : UInt64) :
    Except Panic CacheHandler := do
  let marked ← (cache.accountFileAdded hv).markProxyFile hv lruFree
  return marked.addStaticRange hv now

/-! ## Pruning -/

def cacheSizeWithOverhead (build : Build) (actual : UInt64) (count : UInt32) (config : Config) :
    Except Panic UInt64 := do
  let blocks ← mulU64 build count.toUInt64 config.filesystemBlocksize
  addU64 build actual (blocks / 2)

/-- `iter().min_by_key(..)`: the first entry with the smallest age. -/
def oldestRange : List (Entry Text UInt64) → Option (Entry Text UInt64)
  | [] => none
  | e :: es =>
    match oldestRange es with
    | none => some e
    | some m => if e.2 ≤ m.2 then some e else some m

/-- The bytes to free and whether to hurry. -/
def pruneNeed (build : Build) (cache : CacheHandler) (config : Config) (cacheSize : UInt64) :
    Except Panic (UInt64 × Bool) :=
  let wantFree : UInt64 := 104857600
  let cacheLimit := config.disklimitBytes
  if cacheSize > cacheLimit then do
    let wanted ← addU64 build wantFree cacheSize
    let bytesToFree ← subU64 build wanted cacheLimit
    return (bytesToFree, true)
  else if cache.cacheCount > 0 ∧ 0 < len cache.staticRangeOldest ∧
      saturatingSubU64 cacheLimit cacheSize < wantFree then do
    let free ← subU64 build cacheLimit cacheSize
    let bytesToFree ← subU64 build wantFree free
    return (bytesToFree, false)
  else return (0, false)

/-- Files of the oldest range that are older than this are pruned. -/
def pruneCutoff (build : Build) (now oldestRangeAge : UInt64) : Except Panic UInt64 :=
  if oldestRangeAge < saturatingSubU64 now sixMonths then addU64 build oldestRangeAge thirtyDays
  else if oldestRangeAge < saturatingSubU64 now threeMonths then
    addU64 build oldestRangeAge sevenDays
  else if oldestRangeAge < saturatingSubU64 now oneMonth then
    addU64 build oldestRangeAge threeDays
  else addU64 build oldestRangeAge oneDay

/-- The decision of the pruner, with the range ages in the order they are iterated. -/
def checkPruneAction (build : Build) (cache : CacheHandler) (config : Config) (now : UInt64)
    (order : List (Entry Text UInt64)) : Except Panic PruneAction := do
  let cacheSize ← cacheSizeWithOverhead build cache.cacheSize cache.cacheCount config
  let (bytesToFree, fastDelete) ← pruneNeed build cache config cacheSize
  let noPrune := PruneAction.noPrune (pruneFrequency config.disklimitBytes cacheSize 104857600)
  if bytesToFree = 0 ∨ cache.cacheCount = 0 ∨ config.staticRangeCount = 0 ∨
      len cache.staticRangeOldest = 0 then
    return noPrune
  else
    match oldestRange order with
    | none => return noPrune
    | some oldest => do
      let cutoff ← pruneCutoff build now oldest.2
      let l1 ← byteSlice oldest.1 0 2
      let l2 ← byteSlice oldest.1 2 4
      return .prune ⟨oldest.1, [l1, l2], cutoff, fastDelete⟩

def applyPruneResult (cache : CacheHandler) (result : PruneResult) : CacheHandler :=
  if 0 < result.fileCount then
    { cache with
      staticRangeOldest :=
        cache.staticRangeOldest.insert result.staticRange result.oldestLastModified }
  else { cache with staticRangeOldest := cache.staticRangeOldest.erase result.staticRange }

/-! ## What the operations do -/

theorem oldestRange_mem {order : List (Entry Text UInt64)} {e : Entry Text UInt64}
    (h : oldestRange order = some e) : e ∈ order := by
  induction order generalizing e with
  | nil => cases h
  | cons d order ih =>
    simp only [oldestRange] at h
    cases hrest : oldestRange order with
    | none =>
      rw [hrest] at h
      cases h
      exact List.mem_cons_self
    | some m =>
      rw [hrest] at h
      simp only at h
      split_ifs at h
      · cases h
        exact List.mem_cons_self
      · cases h
        exact List.mem_cons_of_mem _ (ih hrest)

/-- A plan names the directory of the files whose range it is for. -/
theorem rangeDir_of_checkPruneAction {build : Build} {cache : CacheHandler} {config : Config}
    {now : UInt64} {order : List (Entry Text UInt64)} {plan : PrunePlan}
    (h : checkPruneAction build cache config now order = .ok (.prune plan)) {hv : HVFile}
    (hrange : hv.staticRange = plan.staticRange) : hv.cachePath.dropLast = plan.rangeDir := by
  obtain ⟨size, -, h⟩ := bind_eq_ok h
  obtain ⟨⟨need, fast⟩, -, h⟩ := bind_eq_ok h
  dsimp only at h
  split_ifs at h
  · cases h
  cases hold : oldestRange order with
  | none =>
    rw [hold] at h
    cases h
  | some oldest =>
    rw [hold] at h
    obtain ⟨cutoff, -, h⟩ := bind_eq_ok h
    obtain ⟨l1, hl1, h⟩ := bind_eq_ok h
    obtain ⟨l2, hl2, h⟩ := bind_eq_ok h
    cases h
    obtain ⟨hfront, hback⟩ := hv.byteSlice_staticRange
    rw [hrange, hl1] at hfront
    rw [hrange, hl2] at hback
    cases hfront
    cases hback
    rfl

theorem addStaticRange_counters (cache : CacheHandler) (hv : HVFile) (now : UInt64) :
    (cache.addStaticRange hv now).cacheCount = cache.cacheCount ∧
      (cache.addStaticRange hv now).cacheSize = cache.cacheSize := by
  simp only [addStaticRange]
  split <;> exact ⟨rfl, rfl⟩

theorem applyPruneResult_counters (cache : CacheHandler) (result : PruneResult) :
    (cache.applyPruneResult result).cacheCount = cache.cacheCount ∧
      (cache.applyPruneResult result).cacheSize = cache.cacheSize := by
  simp only [applyPruneResult]
  split <;> exact ⟨rfl, rfl⟩

/-- Marking a file always completes and touches nothing but the LRU table. -/
theorem markProxyFile_ok (cache : CacheHandler) (hv : HVFile) (lruFree : Bool) :
    ∃ lru, cache.markProxyFile hv lruFree = .ok { cache with lru := lru } := by
  cases lruFree with
  | false => exact ⟨cache.lru, rfl⟩
  | true =>
    obtain ⟨marked, lru, hlru, -⟩ := cache.lru.markRecentlyAccessed_fileid hv
    refine ⟨lru, ?_⟩
    simp only [markProxyFile, if_true, hlru]
    rfl

/-- Registering a file always completes, and beyond the accounting it leaves the counters
alone. -/
theorem registerProxyFile_ok (cache : CacheHandler) (hv : HVFile) (lruFree : Bool) (now : UInt64) :
    ∃ next, cache.registerProxyFile hv lruFree now = .ok next ∧
      next.cacheCount = (cache.accountFileAdded hv).cacheCount ∧
      next.cacheSize = (cache.accountFileAdded hv).cacheSize := by
  obtain ⟨lru, hlru⟩ := (cache.accountFileAdded hv).markProxyFile_ok hv lruFree
  simp only [registerProxyFile, hlru]
  exact ⟨_, rfl, addStaticRange_counters _ hv now⟩

end CacheHandler
end HathRs
