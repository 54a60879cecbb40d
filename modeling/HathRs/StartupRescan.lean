import HathRs.CacheTrees
import HathRs.ClientSettings
import HathRs.TransitionRuns

/-!
# The scan of the cache at startup

The scan goes through the second-level directories, removes the files that do not belong there
and counts the others. It keeps the age of the oldest file of each directory and marks the
recent files in the LRU table. The number of files is a word of 32 bits, added to without a
check, and the last message of the scan multiplies it by the block size.
-/

namespace HathRs.StartupRescan
open TextParsing HashMaps Digests FileIds MachineArithmetic Directories CacheTrees TransitionRuns

/-! ## The scan -/

/-- How the reads of a file cut its bytes into pieces when none of them fails. -/
structure FileReads where
  pieces : Bytes → List Bytes
  flatten_pieces : ∀ content, (pieces content).flatten = content

structure StartupCacheState where
  lru : LruState
  cacheCount : UInt32
  cacheSize : UInt64
  staticRangeOldest : HashMap Text UInt64

/-- What one scan is given. -/
structure Rescanner where
  sha1 : Bytes → Sha1Digest
  reads : FileReads
  build : Build
  config : ClientSettings
  verifyCache : Bool
  millisNow : UInt64
  -- the log takes messages of this level
  infoEnabled : Bool

/-- The state of the scan between two second-level directories. -/
structure Rescan where
  cache : CacheDir
  hasher : Bytes
  state : StartupCacheState

/-- The state inside a second-level directory. -/
structure RangeScan where
  scan : Rescan
  oldestModified : UInt64
  foundValid : Bool

def RangeScan.removeFile (s : RangeScan) (a b n : Name) : RangeScan :=
  { s with scan := { s.scan with cache := removeL3File s.scan.cache a b n } }

namespace Rescanner

variable (r : Rescanner)

def recentlyAccessedCutoff : UInt64 := saturatingSubU64 r.millisNow 604800000

/-- The hasher is reset, fed with each piece read, and read out, which resets it again. -/
def verifyFile (content : Bytes) (expected : Text) (_hasher : Bytes) : Bool × Bytes :=
  let hasher := (r.reads.pieces content).foldl (fun fed piece => fed ++ piece) []
  (sha1Bytes r.sha1 hasher = expected, [])

/-- The end of the loop over the files, for a file that stays. -/
def countFile (s : RangeScan) (hv : HVFile) (f : CachedFile) : Except Panic RangeScan := do
  let state := s.scan.state
  let cacheCount ← addU32 r.build state.cacheCount 1
  let cacheSize ← addU64 r.build state.cacheSize hv.size.toUInt64
  let (_, lru) ←
    if r.recentlyAccessedCutoff < f.modified then state.lru.markRecentlyAccessed hv.fileid
    else .ok (false, state.lru)
  return {
    scan := { s.scan with state := { state with lru, cacheCount, cacheSize } }
    oldestModified := min s.oldestModified f.modified
    foundValid := true }

def rescanFile (a b : Name) (s : RangeScan) (n : Name) : Except Panic RangeScan :=
  match l3Entry s.scan.cache a b n with
  | some (.file f) =>
    match fromFileid (toStr n) with
    | none => .ok (s.removeFile a b n)
    | some hv =>
      if f.content.length ≠ hv.size.toNat then .ok (s.removeFile a b n)
      else
        let (sha1Ok, hasher) :=
          if r.verifyCache then r.verifyFile f.content hv.hash.text s.scan.hasher
          else (true, s.scan.hasher)
        let s := { s with scan := { s.scan with hasher } }
        if !sha1Ok then .ok (s.removeFile a b n)
        else if !r.config.isStaticRange hv.staticRange then .ok (s.removeFile a b n)
        else r.countFile s hv f
  | _ => .ok s

/-- What follows the loop over the files of a directory. -/
def closeRange (a b : Name) (s : RangeScan) : Rescan :=
  if s.foundValid then
    { s.scan with
      state := { s.scan.state with
        staticRangeOldest :=
          s.scan.state.staticRangeOldest.insert (toStr a ++ toStr b) s.oldestModified } }
  else { s.scan with cache := removeL2Dir s.scan.cache a b }

def rescanL2 (a : Name) (s : Rescan) (b : Name) : Except Panic Rescan :=
  if isDir (l2Entry s.cache a b) then
    let files := listSortedFiles (l2Dir s.cache a b)
    if files = [] then .ok { s with cache := removeL2Dir s.cache a b }
    else do
      let range ← files.foldlM (r.rescanFile a b) ⟨s, 18446744073709551615, false⟩
      return closeRange a b range
  else .ok s

def rescanL1 (s : Rescan) (a : Name) : Except Panic Rescan :=
  if isDir (s.cache.lookup a) then
    (listSortedFiles (l1Dir s.cache a)).foldlM (r.rescanL2 a) s
  else .ok s

/-- The message at the end works out the size with overhead, unless the log drops it. -/
def closingMessage (state : StartupCacheState) : Except Panic Unit :=
  if r.infoEnabled then do
    let _ ← CacheHandler.cacheSizeWithOverhead r.build state.cacheSize state.cacheCount r.config.toConfig
    return ()
  else .ok ()

/-- The tree is returned with the state. -/
def fullRescan (cache : CacheDir) : Except Panic (CacheDir × StartupCacheState) := do
  let s ← (listSortedFiles cache).foldlM r.rescanL1 ⟨cache, [], ⟨LruState.new, 0, 0, ∅⟩⟩
  r.closingMessage s.state
  return (s.cache, s.state)

end Rescanner

/-! ## What the scan should leave -/

namespace Rescanner

variable (r : Rescanner)

/-- The id of a file that belongs in the cache: the name parses, the length is the one in the
name, the static range is assigned, and a verifying scan finds the hash in the name. -/
def accepted (n : Name) (f : CachedFile) : Option HVFile :=
  (fromFileid (toStr n)).filter fun hv =>
    f.content.length = hv.size.toNat && r.config.isStaticRange hv.staticRange &&
      (!r.verifyCache || sha1Bytes r.sha1 f.content = hv.hash.text)

/-- The directory holds a file that belongs in the cache. -/
def Holds (cache : CacheDir) (a b : Name) : Prop := ∃ n f, fileAt cache a b n = some f

/-- The state agrees with the tree that the scan leaves of the one it found. -/
structure Agrees (before after : CacheDir) (state : StartupCacheState) : Prop where
  files : ∀ a b n f, fileAt after a b n = some f ↔
    fileAt before a b n = some f ∧ (r.accepted n f).isSome
  counters : ∃ kept : List (Name × Name × Name × CachedFile), kept.Nodup ∧
    (∀ a b n f, (a, b, n, f) ∈ kept ↔ fileAt after a b n = some f) ∧
    state.cacheCount.toNat = kept.length ∧
    state.cacheSize.toNat = (kept.map fun k => k.2.2.2.content.length).sum
  oldest : (∀ a b a' b', Holds after a b → Holds after a' b' →
      toStr a ++ toStr b = toStr a' ++ toStr b' → a = a' ∧ b = b') →
    ∀ range age, state.staticRangeOldest.lookup range = some age ↔
      ∃ a b, toStr a ++ toStr b = range ∧ (∃ n f, fileAt after a b n = some f ∧ f.modified = age) ∧
        ∀ n f, fileAt after a b n = some f → age ≤ f.modified
  lru : ∀ arrayIndex bit, bit < 16 → (state.lru.bitSet arrayIndex bit ↔
    ∃ a b n f hv, fileAt after a b n = some f ∧ r.accepted n f = some hv ∧
      r.recentlyAccessedCutoff < f.modified ∧ LruState.mapsTo hv arrayIndex bit)

end Rescanner

/-! ## The files that stay -/

structure KeptFile where
  l1 : Name
  l2 : Name
  name : Name
  file : CachedFile
  hv : HVFile

namespace Rescanner

variable (r : Rescanner)

def keptAt (cache : CacheDir) (a b n : Name) : Option KeptFile :=
  (fileAt cache a b n).bind fun f => (r.accepted n f).map fun hv => ⟨a, b, n, f, hv⟩

def keptOf (cache : CacheDir) (a b : Name) (names : List Name) : List KeptFile :=
  names.filterMap (r.keptAt cache a b)

/-- The files that stay in a second-level directory. -/
def keptIn (cache : CacheDir) (dir : Name × Name) : List KeptFile :=
  r.keptOf cache dir.1 dir.2 (listSortedFiles (l2Dir cache dir.1 dir.2))

def oldestOf (kept : List KeptFile) : UInt64 :=
  kept.foldl (fun oldest k => min oldest k.file.modified) 18446744073709551615

/-- The age that is recorded for a second-level directory. -/
def ageOf (cache : CacheDir) (dir : Name × Name) : Option (Entry Text UInt64) :=
  if (r.keptIn cache dir).isEmpty then none
  else some ⟨toStr dir.1 ++ toStr dir.2, oldestOf (r.keptIn cache dir)⟩

/-- The entry that is left of an entry of a second-level directory. -/
def judged (n : Name) : Option (DirEntry Unit) → Option (DirEntry Unit)
  | some (.file f) => if (r.accepted n f).isSome then some (.file f) else none
  | e => e

/-- The counters and the LRU table stand for these files. -/
structure Tallied (kept : List KeptFile) (state : StartupCacheState) : Prop where
  count : state.cacheCount = UInt32.ofNat kept.length
  size : state.cacheSize = UInt64.ofNat (kept.map fun k => k.file.content.length).sum
  lengths : ∀ k ∈ kept, k.file.content.length < 2 ^ 32
  lru : ∀ arrayIndex bit, bit < 16 → (state.lru.bitSet arrayIndex bit ↔
    ∃ k ∈ kept, r.recentlyAccessedCutoff < k.file.modified ∧ LruState.mapsTo k.hv arrayIndex bit)

/-- The count does not leave its word, or wraps around in it. -/
def Room (count : ℕ) : Prop := r.build = .release ∨ count < 2 ^ 32

end Rescanner

/-! ## One file -/

section File

variable {r : Rescanner}

theorem accepted_eq_some {n : Name} {f : CachedFile} {hv : HVFile} :
    r.accepted n f = some hv ↔ fromFileid (toStr n) = some hv ∧
      f.content.length = hv.size.toNat ∧ r.config.isStaticRange hv.staticRange = true ∧
      (r.verifyCache = true → sha1Bytes r.sha1 f.content = hv.hash.text) := by
  simp only [Rescanner.accepted, Option.filter_eq_some_iff, Bool.and_eq_true, decide_eq_true_eq,
    Bool.or_eq_true, Bool.not_eq_true', and_assoc]
  refine and_congr_right fun _ => and_congr_right fun _ => and_congr_right fun _ => ?_
  cases r.verifyCache <;> simp

theorem foldl_append_pieces (pieces : List Bytes) (fed : Bytes) :
    pieces.foldl (fun fed piece => fed ++ piece) fed = fed ++ pieces.flatten := by
  induction pieces generalizing fed with
  | nil => simp
  | cons piece pieces ih => rw [List.foldl_cons, ih, List.flatten_cons, List.append_assoc]

/-- The digest found is the one of the whole file, whatever the hasher held before. -/
theorem verifyFile_fst (content : Bytes) (expected : Text) (hasher : Bytes) :
    (r.verifyFile content expected hasher).1 =
      decide (sha1Bytes r.sha1 content = expected) := by
  simp only [Rescanner.verifyFile, foldl_append_pieces, List.nil_append, r.reads.flatten_pieces]

def RangeScan.withHasher (s : RangeScan) (hasher : Bytes) : RangeScan :=
  { s with scan := { s.scan with hasher } }

/-- A turn of the loop over the files: an accepted file is counted and another one removed. -/
theorem rescanFile_file {s : RangeScan} {a b n : Name} {f : CachedFile}
    (h : l3Entry s.scan.cache a b n = some (.file f)) :
    ∃ hasher, r.rescanFile a b s n = match r.accepted n f with
      | none => .ok ((s.withHasher hasher).removeFile a b n)
      | some hv => r.countFile (s.withHasher hasher) hv f := by
  simp only [Rescanner.rescanFile, h]
  cases hid : fromFileid (toStr n) with
  | none =>
    have hnone : r.accepted n f = none := by rw [Rescanner.accepted, hid]; rfl
    exact ⟨s.scan.hasher, by rw [hnone]; rfl⟩
  | some hv =>
    have hacc : r.accepted n f = if f.content.length = hv.size.toNat ∧
        r.config.isStaticRange hv.staticRange = true ∧
        (r.verifyCache = true → sha1Bytes r.sha1 f.content = hv.hash.text) then some hv
        else none := by
      split_ifs with hok
      · exact accepted_eq_some.mpr ⟨hid, hok⟩
      · rw [Option.eq_none_iff_forall_not_mem]
        intro hv' hin
        obtain ⟨hid', hok'⟩ := accepted_eq_some.mp hin
        obtain rfl := Option.some.inj (hid.symm.trans hid')
        exact hok hok'
    by_cases hlen : f.content.length = hv.size.toNat
    · simp only [hlen, ne_eq, not_true_eq_false, if_false]
      cases hverify : r.verifyCache with
      | false =>
        refine ⟨s.scan.hasher, ?_⟩
        cases hrange : r.config.isStaticRange hv.staticRange with
        | false => simp [hacc, hverify, hrange, RangeScan.withHasher]
        | true => simp [hacc, hverify, hrange, hlen, RangeScan.withHasher]
      | true =>
        refine ⟨(r.verifyFile f.content hv.hash.text s.scan.hasher).2, ?_⟩
        by_cases hsha : sha1Bytes r.sha1 f.content = hv.hash.text
        · cases hrange : r.config.isStaticRange hv.staticRange with
          | false => simp [hacc, hrange, verifyFile_fst, hsha, RangeScan.withHasher]
          | true => simp [hacc, hrange, verifyFile_fst, hsha, hlen, RangeScan.withHasher]
        · simp [hacc, hverify, verifyFile_fst, hsha, RangeScan.withHasher]
    · exact ⟨s.scan.hasher, by simp [hlen, hacc, RangeScan.withHasher]⟩

/-- What counting a file does when it does not stop. -/
theorem countFile_ok {s s' : RangeScan} {hv : HVFile} {f : CachedFile}
    (h : r.countFile s hv f = .ok s') :
    s'.scan.cache = s.scan.cache ∧
      s'.scan.state.staticRangeOldest = s.scan.state.staticRangeOldest ∧
      s'.oldestModified = min s.oldestModified f.modified ∧ s'.foundValid = true ∧
      s'.scan.state.cacheCount = s.scan.state.cacheCount + 1 ∧
      s'.scan.state.cacheSize = s.scan.state.cacheSize + hv.size.toUInt64 ∧
      ∀ arrayIndex bit, bit < 16 → (s'.scan.state.lru.bitSet arrayIndex bit ↔
        s.scan.state.lru.bitSet arrayIndex bit ∨
          (r.recentlyAccessedCutoff < f.modified ∧ LruState.mapsTo hv arrayIndex bit)) := by
  simp only [Rescanner.countFile, bind, Except.bind] at h
  cases hcount : addU32 r.build s.scan.state.cacheCount 1 with
  | error e => rw [hcount] at h; cases h
  | ok count =>
    rw [hcount] at h
    cases hsize : addU64 r.build s.scan.state.cacheSize hv.size.toUInt64 with
    | error e => rw [hsize] at h; cases h
    | ok size =>
      rw [hsize] at h
      by_cases hrecent : r.recentlyAccessedCutoff < f.modified
      · obtain ⟨marked, lru, hlru, -⟩ := s.scan.state.lru.markRecentlyAccessed_fileid hv
        simp only [if_pos hrecent, hlru] at h
        obtain rfl := Except.ok.inj h
        refine ⟨rfl, rfl, rfl, rfl, addU32_eq_ok hcount, addU64_eq_ok hsize, ?_⟩
        intro arrayIndex bit hbit
        simp only [LruState.bitSet_markRecentlyAccessed hlru hbit, hrecent, true_and]
      · simp only [if_neg hrecent] at h
        obtain rfl := Except.ok.inj h
        refine ⟨rfl, rfl, rfl, rfl, addU32_eq_ok hcount, addU64_eq_ok hsize, ?_⟩
        intro arrayIndex bit hbit
        simp only [hrecent, false_and, or_false]

theorem countFile_succeeds {s : RangeScan} {hv : HVFile} {f : CachedFile}
    (hcount : r.build = .release ∨ s.scan.state.cacheCount.toNat + 1 < 2 ^ 32)
    (hsize : r.build = .release ∨ s.scan.state.cacheSize.toNat + hv.size.toNat < 2 ^ 64) :
    ∃ s', r.countFile s hv f = .ok s' := by
  obtain ⟨count, hcount⟩ := addU32_of_room (b := 1) hcount
  have hword : hv.size.toUInt64.toNat = hv.size.toNat := UInt32.toNat_toUInt64 _
  obtain ⟨size, hsize⟩ := addU64_of_room (b := hv.size.toUInt64) (hword.symm ▸ hsize)
  simp only [Rescanner.countFile, bind, Except.bind, hcount, hsize]
  by_cases hrecent : r.recentlyAccessedCutoff < f.modified
  · obtain ⟨marked, lru, hlru, -⟩ := s.scan.state.lru.markRecentlyAccessed_fileid hv
    simp only [if_pos hrecent, hlru]
    exact ⟨_, rfl⟩
  · simp only [if_neg hrecent]
    exact ⟨_, rfl⟩

theorem Rescanner.Tallied.snoc {kept : List KeptFile} {state state' : StartupCacheState}
    {k : KeptFile} (h : r.Tallied kept state) (hlen : k.file.content.length = k.hv.size.toNat)
    (hcount : state'.cacheCount = state.cacheCount + 1)
    (hsize : state'.cacheSize = state.cacheSize + k.hv.size.toUInt64)
    (hlru : ∀ arrayIndex bit, bit < 16 → (state'.lru.bitSet arrayIndex bit ↔
        state.lru.bitSet arrayIndex bit ∨
          (r.recentlyAccessedCutoff < k.file.modified ∧ LruState.mapsTo k.hv arrayIndex bit))) :
    r.Tallied (kept ++ [k]) state' where
  count := by
    rw [hcount, h.count, List.length_append, List.length_singleton, UInt32.ofNat_add]
    rfl
  size := by
    rw [hsize, h.size, List.map_append, List.sum_append, List.map_singleton, List.sum_singleton,
      UInt64.ofNat_add, hlen, UInt64.ofNat_uInt32ToNat]
  lengths := by
    intro k' hk'
    rcases List.mem_append.mp hk' with hin | hin
    · exact h.lengths k' hin
    · rw [List.mem_singleton.mp hin, hlen]
      exact k.hv.size.toNat_lt
  lru := by
    intro arrayIndex bit hbit
    simp only [hlru arrayIndex bit hbit, h.lru arrayIndex bit hbit, List.mem_append,
      List.mem_singleton, or_and_right, exists_or, exists_eq_left]

theorem Rescanner.Tallied.count_room {kept : List KeptFile} {state : StartupCacheState}
    (h : r.Tallied kept state) (hroom : r.Room (kept.length + 1)) :
    r.build = .release ∨ state.cacheCount.toNat + 1 < 2 ^ 32 := by
  refine hroom.imp_right fun hlt => ?_
  rw [h.count, UInt32.toNat_ofNat_of_lt' (Nat.lt_of_succ_lt hlt)]
  exact hlt

/-- The total length of fewer than 2^32 accepted files is below 2^64. -/
theorem Rescanner.Tallied.sum_le {kept : List KeptFile} {state : StartupCacheState}
    (h : r.Tallied kept state) :
    (kept.map fun k => k.file.content.length).sum ≤ kept.length * (2 ^ 32 - 1) := by
  have hle := List.sum_le_card_nsmul (kept.map fun k => k.file.content.length) (2 ^ 32 - 1) (by
    intro length hin
    obtain ⟨k, hk, rfl⟩ := List.mem_map.mp hin
    have := h.lengths k hk
    omega)
  simpa using hle

theorem Rescanner.Tallied.size_room {kept : List KeptFile} {state : StartupCacheState}
    (h : r.Tallied kept state) (hroom : r.Room (kept.length + 1)) (size : UInt32) :
    r.build = .release ∨ state.cacheSize.toNat + size.toNat < 2 ^ 64 := by
  refine hroom.imp_right fun hlt => ?_
  have hsum := h.sum_le
  have hsize := size.toNat_lt
  rw [h.size, UInt64.toNat_ofNat_of_lt' (by show _ < 2 ^ 64; omega)]
  omega

end File

/-! ## The files of one directory -/

/-- The loop over the files of a directory, entered with the files counted before, after some of
the names. -/
structure FilesScanned (r : Rescanner) (start : Rescan) (before : List KeptFile) (a b : Name)
    (names : List Name) (s : RangeScan) : Prop where
  otherL1 : ∀ a', a' ≠ a → s.scan.cache.lookup a' = start.cache.lookup a'
  otherL2 : ∀ a' b', (a', b') ≠ (a, b) → l2Entry s.scan.cache a' b' = l2Entry start.cache a' b'
  done : ∀ n ∈ names, l3Entry s.scan.cache a b n = r.judged n (l3Entry start.cache a b n)
  rest : ∀ n ∉ names, l3Entry s.scan.cache a b n = l3Entry start.cache a b n
  tallied : r.Tallied (before ++ r.keptOf start.cache a b names) s.scan.state
  ages : s.scan.state.staticRangeOldest = start.state.staticRangeOldest
  oldest : s.oldestModified = Rescanner.oldestOf (r.keptOf start.cache a b names)
  found : s.foundValid = !(r.keptOf start.cache a b names).isEmpty

section Files

variable {r : Rescanner} {start : Rescan} {before : List KeptFile} {a b n : Name}
variable {names : List Name} {s s' : RangeScan}

theorem keptOf_append (r : Rescanner) (cache : CacheDir) (a b : Name) (names names' : List Name) :
    r.keptOf cache a b (names ++ names') =
      r.keptOf cache a b names ++ r.keptOf cache a b names' :=
  List.filterMap_append

theorem keptOf_singleton (r : Rescanner) (cache : CacheDir) (a b n : Name) :
    r.keptOf cache a b [n] = (r.keptAt cache a b n).toList := by
  simp only [Rescanner.keptOf, List.filterMap_cons, List.filterMap_nil]
  cases r.keptAt cache a b n <;> rfl

theorem keptAt_file {cache : CacheDir} {f : CachedFile}
    (h : l3Entry cache a b n = some (.file f)) :
    r.keptAt cache a b n = (r.accepted n f).map fun hv => ⟨a, b, n, f, hv⟩ := by
  rw [Rescanner.keptAt, fileAt, h]
  rfl

theorem keptAt_of_asFile {cache : CacheDir} (h : asFile (l3Entry cache a b n) = none) :
    r.keptAt cache a b n = none := by
  rw [Rescanner.keptAt, fileAt, h]
  rfl

theorem filesScanned_nil (r : Rescanner) {scan : Rescan} (h : r.Tallied before scan.state)
    (a b : Name) : FilesScanned r scan before a b [] ⟨scan, 18446744073709551615, false⟩ where
  otherL1 := fun _ _ => rfl
  otherL2 := fun _ _ _ => rfl
  done := fun _ hn => absurd hn List.not_mem_nil
  rest := fun _ _ => rfl
  tallied := (List.append_nil before).symm ▸ h
  ages := rfl
  oldest := rfl
  found := rfl

/-- A name under which there is no file changes nothing. -/
theorem FilesScanned.skip (h : FilesScanned r start before a b names s)
    (hfile : asFile (l3Entry start.cache a b n) = none) :
    FilesScanned r start before a b (names ++ [n]) s := by
  have hkept : r.keptOf start.cache a b (names ++ [n]) = r.keptOf start.cache a b names := by
    rw [keptOf_append, keptOf_singleton, keptAt_of_asFile hfile]
    exact List.append_nil _
  have hjudged : r.judged n (l3Entry start.cache a b n) = l3Entry start.cache a b n := by
    cases he : l3Entry start.cache a b n with
    | none => rfl
    | some e =>
      cases e with
      | file f => rw [he] at hfile; cases hfile
      | dir d => rfl
  refine ⟨h.otherL1, h.otherL2, ?_, ?_, hkept.symm ▸ h.tallied, h.ages, hkept.symm ▸ h.oldest,
    hkept.symm ▸ h.found⟩
  · intro m hm
    by_cases hin : m ∈ names
    · exact h.done m hin
    · obtain rfl : m = n := by simpa [hin] using hm
      rw [h.rest m hin, hjudged]
  · intro m hm
    exact h.rest m fun hin => hm (List.mem_append_left _ hin)

/-- A file that is not accepted is gone afterwards. -/
theorem FilesScanned.remove (h : FilesScanned r start before a b names s) (hn : n ∉ names)
    {f : CachedFile} (hfile : l3Entry start.cache a b n = some (.file f))
    (hnot : r.accepted n f = none) (hasher : Bytes) :
    FilesScanned r start before a b (names ++ [n]) ((s.withHasher hasher).removeFile a b n) := by
  have hnow : l3Entry s.scan.cache a b n = some (.file f) := by rw [h.rest n hn, hfile]
  have hkept : r.keptOf start.cache a b (names ++ [n]) = r.keptOf start.cache a b names := by
    rw [keptOf_append, keptOf_singleton, keptAt_file hfile, hnot]
    exact List.append_nil _
  obtain ⟨hl1, hl2⟩ := removeL3File_frame s.scan.cache a b n
  obtain ⟨-, hgone, hothers⟩ := removeL3File_file hnow
  refine ⟨fun a' ha => (hl1 a' ha).trans (h.otherL1 a' ha),
    fun a' b' hab => (hl2 a' b' hab).trans (h.otherL2 a' b' hab), ?_, ?_, hkept.symm ▸ h.tallied,
    h.ages, hkept.symm ▸ h.oldest, hkept.symm ▸ h.found⟩
  · intro m hm
    by_cases hmn : m = n
    · subst hmn
      refine hgone.trans ?_
      rw [hfile, Rescanner.judged, hnot]
      rfl
    · have hin : m ∈ names := by simpa [hmn] using hm
      exact (hothers m hmn).trans (h.done m hin)
  · intro m hm
    have hmn : m ≠ n := fun heq => hm (List.mem_append_right _ (List.mem_singleton.mpr heq))
    exact (hothers m hmn).trans (h.rest m fun hin => hm (List.mem_append_left _ hin))

theorem oldestOf_append (kept : List KeptFile) (k : KeptFile) :
    Rescanner.oldestOf (kept ++ [k]) = min (Rescanner.oldestOf kept) k.file.modified := by
  simp only [Rescanner.oldestOf, List.foldl_append, List.foldl_cons, List.foldl_nil]

/-- An accepted file stays and is counted. -/
theorem FilesScanned.count (h : FilesScanned r start before a b names s) (hn : n ∉ names)
    {f : CachedFile} {hv : HVFile} (hfile : l3Entry start.cache a b n = some (.file f))
    (hacc : r.accepted n f = some hv) {hasher : Bytes}
    (hrun : r.countFile (s.withHasher hasher) hv f = .ok s') :
    FilesScanned r start before a b (names ++ [n]) s' := by
  obtain ⟨hcache, hages, hold, hfound, hcount, hsize, hlru⟩ := countFile_ok hrun
  have hcache : s'.scan.cache = s.scan.cache := hcache
  have hkept : r.keptOf start.cache a b (names ++ [n]) =
      r.keptOf start.cache a b names ++ [⟨a, b, n, f, hv⟩] := by
    rw [keptOf_append, keptOf_singleton, keptAt_file hfile, hacc]
    rfl
  refine ⟨fun a' ha => hcache.symm ▸ h.otherL1 a' ha,
    fun a' b' hab => hcache.symm ▸ h.otherL2 a' b' hab, ?_, ?_, ?_, hages.trans h.ages, ?_, ?_⟩
  · intro m hm
    rw [hcache]
    by_cases hin : m ∈ names
    · exact h.done m hin
    · obtain rfl : m = n := by simpa [hin] using hm
      rw [h.rest m hin, hfile, Rescanner.judged, hacc]
      rfl
  · intro m hm
    rw [hcache]
    exact h.rest m fun hin => hm (List.mem_append_left _ hin)
  · rw [hkept, ← List.append_assoc]
    exact h.tallied.snoc (accepted_eq_some.mp hacc).2.1 hcount hsize hlru
  · rw [hkept, oldestOf_append, hold, ← h.oldest]
    rfl
  · rw [hkept, hfound]
    simp

/-- One turn of the loop. -/
theorem FilesScanned.step (h : FilesScanned r start before a b names s) (hn : n ∉ names)
    (hrun : r.rescanFile a b s n = .ok s') :
    FilesScanned r start before a b (names ++ [n]) s' := by
  have hnow := h.rest n hn
  cases hfile : l3Entry start.cache a b n with
  | none =>
    simp only [Rescanner.rescanFile, hnow, hfile] at hrun
    obtain rfl := Except.ok.inj hrun
    exact h.skip (by rw [hfile]; rfl)
  | some e =>
    cases e with
    | dir d =>
      simp only [Rescanner.rescanFile, hnow, hfile] at hrun
      obtain rfl := Except.ok.inj hrun
      exact h.skip (by rw [hfile]; rfl)
    | file f =>
      obtain ⟨hasher, heq⟩ := rescanFile_file (r := r) (hnow.trans hfile)
      rw [heq] at hrun
      cases hacc : r.accepted n f with
      | none =>
        rw [hacc] at hrun
        obtain rfl := Except.ok.inj hrun
        exact h.remove hn hfile hacc hasher
      | some hv =>
        rw [hacc] at hrun
        exact h.count hn hfile hacc hrun

/-- As long as the count has room for the files that stay, no turn stops. -/
theorem FilesScanned.succeeds (h : FilesScanned r start before a b names s) (hn : n ∉ names)
    (hroom : r.Room (before ++ r.keptOf start.cache a b (names ++ [n])).length) :
    ∃ s', r.rescanFile a b s n = .ok s' := by
  have hnow := h.rest n hn
  cases hfile : l3Entry start.cache a b n with
  | none => exact ⟨s, by simp only [Rescanner.rescanFile, hnow, hfile]⟩
  | some e =>
    cases e with
    | dir d => exact ⟨s, by simp only [Rescanner.rescanFile, hnow, hfile]⟩
    | file f =>
      obtain ⟨hasher, heq⟩ := rescanFile_file (r := r) (hnow.trans hfile)
      rw [heq]
      cases hacc : r.accepted n f with
      | none => exact ⟨_, rfl⟩
      | some hv =>
        rw [keptOf_append, keptOf_singleton, keptAt_file hfile, hacc, ← List.append_assoc,
          List.length_append] at hroom
        exact countFile_succeeds (h.tallied.count_room hroom) (h.tallied.size_room hroom hv.size)

end Files

/-! ## The directories -/

namespace Rescanner

/-- The entries of a first-level directory. -/
def entriesOf (cache : CacheDir) (a : Name) : List (Name × Name) :=
  (listSortedFiles (l1Dir cache a)).map fun b => (a, b)

/-- The entries of all first-level directories. -/
def subdirs (cache : CacheDir) : List (Name × Name) :=
  (listSortedFiles cache).flatMap (entriesOf cache)

/-- The files that belong in the cache. -/
def kept (r : Rescanner) (cache : CacheDir) : List KeptFile :=
  (subdirs cache).flatMap (r.keptIn cache)

end Rescanner

/-- The loop over the directories, after some of them. -/
structure DirsScanned (r : Rescanner) (cache : CacheDir) (dirs : List (Name × Name)) (s : Rescan) :
    Prop where
  restL1 : ∀ a, (∀ b, (a, b) ∉ dirs) → s.cache.lookup a = cache.lookup a
  restL2 : ∀ a b, (a, b) ∉ dirs → l2Entry s.cache a b = l2Entry cache a b
  done : ∀ a b n, (a, b) ∈ dirs → l3Entry s.cache a b n = r.judged n (l3Entry cache a b n)
  tallied : r.Tallied (dirs.flatMap (r.keptIn cache)) s.state
  ages : s.state.staticRangeOldest = insertAll ∅ (dirs.filterMap (r.ageOf cache))

section Dirs

variable {r : Rescanner} {cache : CacheDir} {dirs : List (Name × Name)} {s s' : Rescan}
variable {a b : Name}

theorem insertAll_append {κ ν : Type} [DecidableEq κ] (m : HashMap κ ν)
    (es es' : List (Entry κ ν)) : insertAll m (es ++ es') = insertAll (insertAll m es) es' :=
  List.foldl_append

theorem dirsScanned_nil (r : Rescanner) (cache : CacheDir) :
    DirsScanned r cache [] ⟨cache, [], ⟨LruState.new, 0, 0, ∅⟩⟩ where
  restL1 := fun _ _ => rfl
  restL2 := fun _ _ _ => rfl
  done := fun _ _ _ h => absurd h List.not_mem_nil
  tallied := {
    count := rfl
    size := rfl
    lengths := fun _ h => absurd h List.not_mem_nil
    lru := by
      intro arrayIndex bit _
      simp only [LruState.not_bitSet_new, List.flatMap_nil, List.not_mem_nil, false_and,
        exists_false] }
  ages := rfl

/-- What a scanned directory adds. -/
theorem DirsScanned.extend (h : DirsScanned r cache dirs s) (hd : (a, b) ∉ dirs)
    (hl1 : ∀ a', a' ≠ a → s'.cache.lookup a' = s.cache.lookup a')
    (hl2 : ∀ a' b', (a', b') ≠ (a, b) → l2Entry s'.cache a' b' = l2Entry s.cache a' b')
    (hl3 : ∀ n, l3Entry s'.cache a b n = r.judged n (l3Entry cache a b n))
    (htallied : r.Tallied (dirs.flatMap (r.keptIn cache) ++ r.keptIn cache (a, b)) s'.state)
    (hages : s'.state.staticRangeOldest =
      insertAll s.state.staticRangeOldest (r.ageOf cache (a, b)).toList) :
    DirsScanned r cache (dirs ++ [(a, b)]) s' where
  restL1 := by
    intro a' ha'
    have hne : a' ≠ a := by
      rintro rfl
      exact ha' b (List.mem_append_right _ List.mem_cons_self)
    rw [hl1 a' hne]
    exact h.restL1 a' fun b' hin => ha' b' (List.mem_append_left _ hin)
  restL2 := by
    intro a' b' hnot
    have hne : (a', b') ≠ (a, b) := fun heq =>
      hnot (List.mem_append_right _ (List.mem_singleton.mpr heq))
    rw [hl2 a' b' hne]
    exact h.restL2 a' b' fun hin => hnot (List.mem_append_left _ hin)
  done := by
    intro a' b' n hin
    by_cases heq : (a', b') = (a, b)
    · obtain ⟨rfl, rfl⟩ := Prod.mk.inj heq
      exact hl3 n
    · have hold : (a', b') ∈ dirs := by simpa [heq] using hin
      rw [l3Entry_congr (hl2 a' b' heq) n]
      exact h.done a' b' n hold
  tallied := by
    rw [List.flatMap_append, List.flatMap_singleton]
    exact htallied
  ages := by
    rw [List.filterMap_append, insertAll_append, ← h.ages, hages]
    cases hage : r.ageOf cache (a, b) with
    | none => simp [hage]
    | some age => simp [hage]

theorem keptOf_congr {cache cache' : CacheDir} (h : l2Entry cache a b = l2Entry cache' a b)
    (names : List Name) : r.keptOf cache a b names = r.keptOf cache' a b names := by
  have hat : r.keptAt cache a b = r.keptAt cache' a b := by
    funext n
    rw [Rescanner.keptAt, fileAt, l3Entry_congr h, Rescanner.keptAt, fileAt]
  rw [Rescanner.keptOf, hat, Rescanner.keptOf]

/-- A directory in which nothing lies adds nothing. -/
theorem DirsScanned.extend_empty (h : DirsScanned r cache dirs s) (hd : (a, b) ∉ dirs)
    (hnil : listSortedFiles (l2Dir cache a b) = [])
    (hl1 : ∀ a', a' ≠ a → s'.cache.lookup a' = s.cache.lookup a')
    (hl2 : ∀ a' b', (a', b') ≠ (a, b) → l2Entry s'.cache a' b' = l2Entry s.cache a' b')
    (hl3 : ∀ n, l3Entry s'.cache a b n = l3Entry s.cache a b n) (hstate : s'.state = s.state) :
    DirsScanned r cache (dirs ++ [(a, b)]) s' := by
  have hkept : r.keptIn cache (a, b) = [] := by rw [Rescanner.keptIn, hnil]; rfl
  refine h.extend hd hl1 hl2 ?_ ?_ ?_
  · intro n
    have hnone : l3Entry cache a b n = none := listSortedFiles_eq_nil hnil n
    rw [hl3 n, l3Entry_congr (h.restL2 a b hd), hnone]
    rfl
  · rw [hkept, List.append_nil, hstate]
    exact h.tallied
  · rw [hstate, Rescanner.ageOf, hkept]
    rfl

/-- The loop over the files of a directory, from start to end. -/
theorem DirsScanned.filesScanned (h : DirsScanned r cache dirs s) {range : RangeScan}
    (hrun : (listSortedFiles (l2Dir cache a b)).foldlM (r.rescanFile a b)
      ⟨s, 18446744073709551615, false⟩ = .ok range) :
    FilesScanned r s (dirs.flatMap (r.keptIn cache)) a b (listSortedFiles (l2Dir cache a b)) range := by
  refine foldlM_invariant (FilesScanned r s (dirs.flatMap (r.keptIn cache)) a b) ?_
    (filesScanned_nil r h.tallied a b) hrun
  intro names n rest range range' hnames hinv hstep
  exact hinv.step (notMem_of_nodup (hnames ▸ nodup_listSortedFiles _)) hstep

/-- After the loop over its files a directory is done. -/
theorem DirsScanned.extend_files (h : DirsScanned r cache dirs s) (hd : (a, b) ∉ dirs)
    {range : RangeScan}
    (hfiles : FilesScanned r s (dirs.flatMap (r.keptIn cache)) a b
      (listSortedFiles (l2Dir cache a b)) range) :
    DirsScanned r cache (dirs ++ [(a, b)]) (Rescanner.closeRange a b range) := by
  have hsame := h.restL2 a b hd
  have hkept : r.keptOf s.cache a b (listSortedFiles (l2Dir cache a b)) =
      r.keptIn cache (a, b) := keptOf_congr hsame _
  have hl3 : ∀ n, l3Entry range.scan.cache a b n = r.judged n (l3Entry cache a b n) := by
    intro n
    rw [← l3Entry_congr hsame]
    by_cases hin : n ∈ listSortedFiles (l2Dir cache a b)
    · exact hfiles.done n hin
    · rw [hfiles.rest n hin, l3Entry_congr hsame]
      rw [mem_listSortedFiles, Bool.not_eq_true, Option.isSome_eq_false_iff,
        Option.isNone_iff_eq_none] at hin
      rw [l3Entry, hin]
      rfl
  have htallied := hfiles.tallied
  have hfound := hfiles.found
  have hold := hfiles.oldest
  rw [hkept] at htallied hfound hold
  by_cases hvalid : range.foundValid = true
  · rw [Rescanner.closeRange, if_pos hvalid]
    refine h.extend hd hfiles.otherL1 hfiles.otherL2 hl3 ⟨htallied.count, htallied.size,
      htallied.lengths, htallied.lru⟩ ?_
    rw [hvalid] at hfound
    have hne : (r.keptIn cache (a, b)).isEmpty = false := by simpa using hfound.symm
    rw [Rescanner.ageOf, hne, hfiles.ages, hold]
    rfl
  · rw [Rescanner.closeRange, if_neg hvalid]
    obtain ⟨hdir1, hdir2, hdir3⟩ := removeL2Dir_frame range.scan.cache a b
    refine h.extend hd (fun a' ha => (hdir1 a' ha).trans (hfiles.otherL1 a' ha))
      (fun a' b' hab => (hdir2 a' b' hab).trans (hfiles.otherL2 a' b' hab))
      (fun n => (hdir3 n).trans (hl3 n)) htallied ?_
    rw [Bool.not_eq_true] at hvalid
    rw [hvalid] at hfound
    have hnil : (r.keptIn cache (a, b)).isEmpty = true := by simpa using hfound.symm
    rw [Rescanner.ageOf, hnil]
    exact hfiles.ages

/-- A directory that is not there or not a directory holds no names. -/
theorem listSortedFiles_children {α : Type} {e : Option (DirEntry (Directory α))}
    (h : isDir e = false) : listSortedFiles (children e) = [] := by
  cases e with
  | none => rfl
  | some e =>
    cases e with
    | file f => rfl
    | dir d => cases h

/-- One second-level directory. -/
theorem DirsScanned.step (h : DirsScanned r cache dirs s) (hd : (a, b) ∉ dirs)
    (hrun : r.rescanL2 a s b = .ok s') : DirsScanned r cache (dirs ++ [(a, b)]) s' := by
  have hsame := h.restL2 a b hd
  have hdir : l2Dir s.cache a b = l2Dir cache a b := by rw [l2Dir, hsame, l2Dir]
  rw [Rescanner.rescanL2, hdir, hsame] at hrun
  by_cases hisDir : isDir (l2Entry cache a b) = true
  · rw [if_pos hisDir] at hrun
    by_cases hnil : listSortedFiles (l2Dir cache a b) = []
    · simp only [if_pos hnil] at hrun
      obtain rfl := Except.ok.inj hrun
      obtain ⟨hdir1, hdir2, hdir3⟩ := removeL2Dir_frame s.cache a b
      exact h.extend_empty hd hnil hdir1 hdir2 hdir3 rfl
    · simp only [if_neg hnil, bind, Except.bind] at hrun
      cases hloop : (listSortedFiles (l2Dir cache a b)).foldlM (r.rescanFile a b)
          ⟨s, 18446744073709551615, false⟩ with
      | error e => rw [hloop] at hrun; cases hrun
      | ok range =>
        rw [hloop] at hrun
        obtain rfl := Except.ok.inj hrun
        exact h.extend_files hd (h.filesScanned hloop)
  · rw [if_neg hisDir] at hrun
    obtain rfl := Except.ok.inj hrun
    exact h.extend_empty hd (listSortedFiles_children (Bool.not_eq_true _ ▸ hisDir))
      (fun _ _ => rfl) (fun _ _ _ => rfl) (fun _ => rfl) rfl

theorem DirsScanned.succeeds (h : DirsScanned r cache dirs s) (hd : (a, b) ∉ dirs)
    (hroom : r.Room ((dirs ++ [(a, b)]).flatMap (r.keptIn cache)).length) :
    ∃ s', r.rescanL2 a s b = .ok s' := by
  have hsame := h.restL2 a b hd
  have hdir : l2Dir s.cache a b = l2Dir cache a b := by rw [l2Dir, hsame, l2Dir]
  rw [Rescanner.rescanL2, hdir, hsame]
  by_cases hisDir : isDir (l2Entry cache a b) = true
  · rw [if_pos hisDir]
    by_cases hnil : listSortedFiles (l2Dir cache a b) = []
    · exact ⟨_, if_pos hnil⟩
    · have hloop : ∃ range, (listSortedFiles (l2Dir cache a b)).foldlM (r.rescanFile a b)
          ⟨s, 18446744073709551615, false⟩ = .ok range ∧ FilesScanned r s
            (dirs.flatMap (r.keptIn cache)) a b (listSortedFiles (l2Dir cache a b)) range := by
        refine foldlM_succeeds _ ?_ (filesScanned_nil r h.tallied a b)
        intro names n rest range hnames hinv
        have hnew : n ∉ names := notMem_of_nodup (hnames ▸ nodup_listSortedFiles _)
        have hroom' : r.Room (dirs.flatMap (r.keptIn cache) ++
            r.keptOf s.cache a b (names ++ [n])).length := by
          refine hroom.imp_right fun hlt => lt_of_le_of_lt ?_ hlt
          rw [List.flatMap_append, List.flatMap_singleton, Rescanner.keptIn, hnames,
            ← keptOf_congr hsame, show names ++ n :: rest = names ++ [n] ++ rest by simp,
            keptOf_append r s.cache a b (names ++ [n]) rest]
          simp only [List.length_append]
          omega
        obtain ⟨range', hstep⟩ := hinv.succeeds hnew hroom'
        exact ⟨range', hstep, hinv.step hnew hstep⟩
      obtain ⟨range, hloop, -⟩ := hloop
      simp only [if_neg hnil, bind, Except.bind, hloop]
      exact ⟨_, rfl⟩
  · exact ⟨_, if_neg hisDir⟩

/-! ## The whole scan -/

theorem mem_entriesOf {a' : Name} :
    (a, b) ∈ Rescanner.entriesOf cache a' ↔ a = a' ∧ (l2Entry cache a b).isSome := by
  simp only [Rescanner.entriesOf, List.mem_map, Prod.mk.injEq]
  constructor
  · rintro ⟨b', hb', rfl, rfl⟩
    exact ⟨rfl, mem_listSortedFiles.mp hb'⟩
  · rintro ⟨rfl, hb⟩
    exact ⟨b, mem_listSortedFiles.mpr hb, rfl, rfl⟩

theorem mem_subdirs : (a, b) ∈ Rescanner.subdirs cache ↔ (l2Entry cache a b).isSome := by
  simp only [Rescanner.subdirs, List.mem_flatMap, mem_entriesOf]
  constructor
  · rintro ⟨-, -, -, h⟩
    exact h
  · intro h
    refine ⟨a, ?_, rfl, h⟩
    rw [mem_listSortedFiles]
    by_contra hnone
    rw [Bool.not_eq_true, Option.isSome_eq_false_iff, Option.isNone_iff_eq_none] at hnone
    rw [l2Entry, l1Dir, hnone] at h
    cases h

theorem nodup_subdirs (cache : CacheDir) : (Rescanner.subdirs cache).Nodup := by
  rw [Rescanner.subdirs, List.nodup_flatMap]
  constructor
  · intro a _
    exact (nodup_listSortedFiles _).map fun _ _ h => (Prod.mk.inj h).2
  · refine (nodup_listSortedFiles cache).imp ?_
    rintro a a' hne ⟨x, y⟩ hx hx'
    exact hne ((mem_entriesOf.mp hx).1.symm.trans (mem_entriesOf.mp hx').1)

section FirstLevel

variable {done rest : List Name}

theorem notMem_entries (ha : a ∉ done) (b : Name) :
    (a, b) ∉ done.flatMap (Rescanner.entriesOf cache) := by
  rw [List.mem_flatMap]
  rintro ⟨a', hin, hmem⟩
  obtain ⟨rfl, -⟩ := mem_entriesOf.mp hmem
  exact ha hin

theorem notMem_entries_append {names others : List Name} (ha : a ∉ done)
    (hnames : listSortedFiles (l1Dir cache a) = names ++ b :: others) :
    (a, b) ∉ done.flatMap (Rescanner.entriesOf cache) ++ names.map fun b => (a, b) := by
  have hnew : b ∉ names := notMem_of_nodup (hnames ▸ nodup_listSortedFiles _)
  rw [List.mem_append, not_or]
  refine ⟨notMem_entries ha b, ?_⟩
  rw [List.mem_map]
  rintro ⟨b', hb', heq⟩
  exact hnew ((Prod.mk.inj heq).2 ▸ hb')

/-- One first-level directory. -/
theorem DirsScanned.stepL1 (h : DirsScanned r cache (done.flatMap (Rescanner.entriesOf cache)) s)
    (ha : a ∉ done) (hrun : r.rescanL1 s a = .ok s') :
    DirsScanned r cache ((done ++ [a]).flatMap (Rescanner.entriesOf cache)) s' := by
  have hsame := h.restL1 a (notMem_entries ha)
  rw [Rescanner.rescanL1, hsame, show l1Dir s.cache a = l1Dir cache a by rw [l1Dir, hsame, l1Dir]]
    at hrun
  rw [List.flatMap_append, List.flatMap_singleton]
  by_cases hisDir : isDir (cache.lookup a) = true
  · rw [if_pos hisDir] at hrun
    refine foldlM_invariant (fun names s => DirsScanned r cache
      (done.flatMap (Rescanner.entriesOf cache) ++ names.map fun b => (a, b)) s) ?_ ?_ hrun
    · intro names b others s s' hnames hinv hstep
      have hnext := hinv.step (notMem_entries_append ha hnames) hstep
      rw [List.append_assoc] at hnext
      rw [List.map_append]
      exact hnext
    · rw [List.map_nil, List.append_nil]
      exact h
  · rw [if_neg hisDir] at hrun
    obtain rfl := Except.ok.inj hrun
    have hnil : listSortedFiles (l1Dir cache a) = [] :=
      listSortedFiles_children (Bool.not_eq_true _ ▸ hisDir)
    rw [Rescanner.entriesOf, hnil, List.map_nil, List.append_nil]
    exact h

theorem DirsScanned.succeedsL1
    (h : DirsScanned r cache (done.flatMap (Rescanner.entriesOf cache)) s) (ha : a ∉ done)
    (hroom : r.Room (((done ++ [a]).flatMap (Rescanner.entriesOf cache)).flatMap
      (r.keptIn cache)).length) :
    ∃ s', r.rescanL1 s a = .ok s' := by
  have hsame := h.restL1 a (notMem_entries ha)
  rw [Rescanner.rescanL1, hsame, show l1Dir s.cache a = l1Dir cache a by rw [l1Dir, hsame, l1Dir]]
  rw [List.flatMap_append, List.flatMap_singleton] at hroom
  by_cases hisDir : isDir (cache.lookup a) = true
  · rw [if_pos hisDir]
    refine (foldlM_succeeds (fun names s => DirsScanned r cache
      (done.flatMap (Rescanner.entriesOf cache) ++ names.map fun b => (a, b)) s) ?_ ?_).imp
      fun _ h => h.1
    · intro names b others s hnames hinv
      have hnew := notMem_entries_append ha hnames
      obtain ⟨s', hstep⟩ := hinv.succeeds hnew (by
        refine hroom.imp_right fun hlt => lt_of_le_of_lt ?_ hlt
        rw [Rescanner.entriesOf, hnames]
        simp only [List.map_append, List.map_cons, List.flatMap_append, List.flatMap_cons,
          List.flatMap_nil, List.length_append, List.length_nil]
        omega)
      refine ⟨s', hstep, ?_⟩
      have hnext := hinv.step hnew hstep
      rw [List.append_assoc] at hnext
      rw [List.map_append]
      exact hnext
    · rw [List.map_nil, List.append_nil]
      exact h
  · exact ⟨_, if_neg hisDir⟩

end FirstLevel

/-- The scan of all directories. -/
theorem dirsScanned_of_run
    (hrun : (listSortedFiles cache).foldlM r.rescanL1 ⟨cache, [], ⟨LruState.new, 0, 0, ∅⟩⟩ = .ok s) :
    DirsScanned r cache (Rescanner.subdirs cache) s := by
  refine foldlM_invariant
    (fun names s => DirsScanned r cache (names.flatMap (Rescanner.entriesOf cache)) s) ?_
    (dirsScanned_nil r cache) hrun
  intro done a rest s s' hnames hinv hstep
  exact hinv.stepL1 (notMem_of_nodup (hnames ▸ nodup_listSortedFiles cache)) hstep

theorem run_succeeds (hroom : r.Room (r.kept cache).length) :
    ∃ s, (listSortedFiles cache).foldlM r.rescanL1 ⟨cache, [], ⟨LruState.new, 0, 0, ∅⟩⟩ =
      .ok s := by
  refine (foldlM_succeeds
    (fun names s => DirsScanned r cache (names.flatMap (Rescanner.entriesOf cache)) s) ?_
    (dirsScanned_nil r cache)).imp fun _ h => h.1
  intro done a rest s hnames hinv
  have hnew : a ∉ done := notMem_of_nodup (hnames ▸ nodup_listSortedFiles cache)
  obtain ⟨s', hstep⟩ := hinv.succeedsL1 hnew (by
    refine hroom.imp_right fun hlt => lt_of_le_of_lt ?_ hlt
    rw [Rescanner.kept, Rescanner.subdirs, hnames]
    simp only [List.flatMap_append, List.flatMap_cons, List.flatMap_nil, List.length_append,
      List.length_nil]
    omega)
  exact ⟨s', hstep, hinv.stepL1 hnew hstep⟩

end Dirs

/-! ## The files that are counted -/

section Kept

variable {r : Rescanner} {cache : CacheDir} {a b n : Name} {k : KeptFile}

theorem keptAt_eq_some : r.keptAt cache a b n = some k ↔ k.l1 = a ∧ k.l2 = b ∧ k.name = n ∧
    fileAt cache a b n = some k.file ∧ r.accepted n k.file = some k.hv := by
  simp only [Rescanner.keptAt, Option.bind_eq_some_iff, Option.map_eq_some_iff]
  constructor
  · rintro ⟨f, hf, hv, hacc, rfl⟩
    exact ⟨rfl, rfl, rfl, hf, hacc⟩
  · rintro ⟨rfl, rfl, rfl, hf, hacc⟩
    exact ⟨k.file, hf, k.hv, hacc, rfl⟩

theorem mem_keptIn : k ∈ r.keptIn cache (a, b) ↔ k.l1 = a ∧ k.l2 = b ∧
    fileAt cache a b k.name = some k.file ∧ r.accepted k.name k.file = some k.hv := by
  simp only [Rescanner.keptIn, Rescanner.keptOf, List.mem_filterMap, keptAt_eq_some]
  constructor
  · rintro ⟨n, -, ha, hb, rfl, hf, hacc⟩
    exact ⟨ha, hb, hf, hacc⟩
  · rintro ⟨ha, hb, hf, hacc⟩
    refine ⟨k.name, ?_, ha, hb, rfl, hf, hacc⟩
    rw [mem_listSortedFiles]
    by_contra hnone
    rw [Bool.not_eq_true, Option.isSome_eq_false_iff, Option.isNone_iff_eq_none] at hnone
    rw [fileAt, l3Entry, hnone] at hf
    cases hf

theorem mem_kept : k ∈ r.kept cache ↔ fileAt cache k.l1 k.l2 k.name = some k.file ∧
    r.accepted k.name k.file = some k.hv := by
  simp only [Rescanner.kept, List.mem_flatMap, Prod.exists, mem_keptIn]
  constructor
  · rintro ⟨a, b, -, rfl, rfl, hf, hacc⟩
    exact ⟨hf, hacc⟩
  · rintro ⟨hf, hacc⟩
    refine ⟨k.l1, k.l2, ?_, rfl, rfl, hf, hacc⟩
    rw [mem_subdirs]
    by_contra hnone
    rw [Bool.not_eq_true, Option.isSome_eq_false_iff, Option.isNone_iff_eq_none] at hnone
    rw [fileAt, l3Entry, l2Dir, hnone] at hf
    cases hf

def KeptFile.place (k : KeptFile) : Name × Name × Name × CachedFile := (k.l1, k.l2, k.name, k.file)

theorem names_keptOf_sublist (r : Rescanner) (cache : CacheDir) (a b : Name) (names : List Name) :
    ((r.keptOf cache a b names).map KeptFile.name).Sublist names := by
  induction names with
  | nil => exact List.Sublist.refl _
  | cons n names ih =>
    cases hat : r.keptAt cache a b n with
    | none =>
      rw [Rescanner.keptOf, List.filterMap_cons_none hat]
      exact ih.cons n
    | some k =>
      rw [Rescanner.keptOf, List.filterMap_cons_some hat, List.map_cons,
        (keptAt_eq_some.mp hat).2.2.1]
      exact ih.cons_cons n

theorem nodup_places (r : Rescanner) (cache : CacheDir) :
    ((r.kept cache).map KeptFile.place).Nodup := by
  rw [Rescanner.kept, List.map_flatMap, List.nodup_flatMap]
  constructor
  · intro dir _
    refine List.Nodup.of_map (fun place => place.2.2.1) ?_
    rw [List.map_map]
    exact (nodup_listSortedFiles _).sublist (names_keptOf_sublist r cache dir.1 dir.2 _)
  · refine (nodup_subdirs cache).imp ?_
    rintro ⟨a, b⟩ ⟨a', b'⟩ hne place hin hin'
    obtain ⟨k, hk, rfl⟩ := List.mem_map.mp hin
    obtain ⟨k', hk', heq⟩ := List.mem_map.mp hin'
    obtain ⟨ha, hb, -⟩ := mem_keptIn.mp hk
    obtain ⟨ha', hb', -⟩ := mem_keptIn.mp hk'
    simp only [KeptFile.place, Prod.mk.injEq] at heq
    exact hne (by rw [← ha, ← hb, ← ha', ← hb', heq.1, heq.2.1])

theorem oldestOf_le {kept : List KeptFile} (h : k ∈ kept) :
    Rescanner.oldestOf kept ≤ k.file.modified := by
  induction kept using List.reverseRecOn with
  | nil => cases h
  | append_singleton kept last ih =>
    rw [oldestOf_append]
    rcases List.mem_append.mp h with h | h
    · exact UInt64.le_trans (min_le_left_u64 _ _) (ih h)
    · rw [List.mem_singleton.mp h]
      exact min_le_right_u64 _ _

theorem exists_oldestOf {kept : List KeptFile} (h : kept ≠ []) :
    ∃ k ∈ kept, k.file.modified = Rescanner.oldestOf kept := by
  induction kept using List.reverseRecOn with
  | nil => exact absurd rfl h
  | append_singleton kept last ih =>
    rw [oldestOf_append]
    by_cases hle : Rescanner.oldestOf kept ≤ last.file.modified
    · rw [min_of_le_u64 hle]
      by_cases hnil : kept = []
      · -- nothing is older than the largest word, so the last file has its age
        subst hnil
        refine ⟨last, List.mem_append_right _ List.mem_cons_self, UInt64.le_antisymm ?_ hle⟩
        rw [UInt64.le_iff_toNat_le]
        exact Nat.le_of_lt_succ last.file.modified.toNat_lt
      · obtain ⟨k, hk, hage⟩ := ih hnil
        exact ⟨k, List.mem_append_left _ hk, hage⟩
    · rw [min_of_not_le_u64 hle]
      exact ⟨last, List.mem_append_right _ List.mem_cons_self, rfl⟩

end Kept

/-! ## Agreement -/

section Agreement

variable {r : Rescanner} {cache : CacheDir} {s : Rescan} {a b n : Name} {f : CachedFile}

theorem l3Entry_scanned (h : DirsScanned r cache (Rescanner.subdirs cache) s) (a b n : Name) :
    l3Entry s.cache a b n = r.judged n (l3Entry cache a b n) := by
  by_cases hin : (a, b) ∈ Rescanner.subdirs cache
  · exact h.done a b n hin
  · rw [l3Entry_congr (h.restL2 a b hin)]
    rw [mem_subdirs, Bool.not_eq_true, Option.isSome_eq_false_iff, Option.isNone_iff_eq_none] at hin
    rw [l3Entry, l2Dir, hin]
    rfl

theorem fileAt_scanned (h : DirsScanned r cache (Rescanner.subdirs cache) s) :
    fileAt s.cache a b n = some f ↔ fileAt cache a b n = some f ∧ (r.accepted n f).isSome := by
  rw [fileAt, l3Entry_scanned h, fileAt]
  cases l3Entry cache a b n with
  | none => simp [Rescanner.judged, asFile]
  | some e =>
    cases e with
    | dir d => simp [Rescanner.judged, asFile]
    | file g =>
      by_cases hacc : (r.accepted n g).isSome
      · rw [Rescanner.judged, if_pos hacc]
        simp only [asFile, Option.some.injEq]
        exact ⟨fun heq => ⟨heq, heq ▸ hacc⟩, fun heq => heq.1⟩
      · rw [Rescanner.judged, if_neg hacc]
        simp only [asFile, reduceCtorEq, Option.some.injEq, false_iff, not_and]
        rintro rfl
        exact hacc

theorem mem_places (h : DirsScanned r cache (Rescanner.subdirs cache) s) :
    (a, b, n, f) ∈ (r.kept cache).map KeptFile.place ↔ fileAt s.cache a b n = some f := by
  rw [fileAt_scanned h, List.mem_map]
  constructor
  · rintro ⟨k, hk, heq⟩
    simp only [KeptFile.place, Prod.mk.injEq] at heq
    obtain ⟨rfl, rfl, rfl, rfl⟩ := heq
    obtain ⟨hf, hacc⟩ := mem_kept.mp hk
    exact ⟨hf, by rw [hacc]; rfl⟩
  · rintro ⟨hf, hacc⟩
    obtain ⟨hv, hacc⟩ := Option.isSome_iff_exists.mp hacc
    exact ⟨⟨a, b, n, f, hv⟩, mem_kept.mpr ⟨hf, hacc⟩, rfl⟩

theorem keptIn_ne_nil_iff (h : DirsScanned r cache (Rescanner.subdirs cache) s) :
    r.keptIn cache (a, b) ≠ [] ↔ Rescanner.Holds s.cache a b := by
  constructor
  · intro hne
    obtain ⟨k, hk⟩ := List.exists_mem_of_ne_nil _ hne
    obtain ⟨-, -, hf, hacc⟩ := mem_keptIn.mp hk
    exact ⟨k.name, k.file, (fileAt_scanned h).mpr ⟨hf, by rw [hacc]; rfl⟩⟩
  · rintro ⟨n, f, hf⟩
    obtain ⟨hf, hacc⟩ := (fileAt_scanned h).mp hf
    obtain ⟨hv, hacc⟩ := Option.isSome_iff_exists.mp hacc
    have hk : (⟨a, b, n, f, hv⟩ : KeptFile) ∈ r.keptIn cache (a, b) :=
      mem_keptIn.mpr ⟨rfl, rfl, hf, hacc⟩
    exact List.ne_nil_of_mem hk

theorem ageOf_eq_some {range : Text} {age : UInt64} :
    r.ageOf cache (a, b) = some ⟨range, age⟩ ↔ r.keptIn cache (a, b) ≠ [] ∧
      toStr a ++ toStr b = range ∧ Rescanner.oldestOf (r.keptIn cache (a, b)) = age := by
  by_cases hnil : r.keptIn cache (a, b) = []
  · simp [Rescanner.ageOf, hnil]
  · simp [Rescanner.ageOf, hnil]

/-- The age recorded is the least one of the files that the directory still holds. -/
theorem oldestOf_eq_iff (h : DirsScanned r cache (Rescanner.subdirs cache) s) {age : UInt64} :
    (r.keptIn cache (a, b) ≠ [] ∧ Rescanner.oldestOf (r.keptIn cache (a, b)) = age) ↔
      (∃ n f, fileAt s.cache a b n = some f ∧ f.modified = age) ∧
        ∀ n f, fileAt s.cache a b n = some f → age ≤ f.modified := by
  have hmem : ∀ n f, fileAt s.cache a b n = some f →
      ∃ hv, (⟨a, b, n, f, hv⟩ : KeptFile) ∈ r.keptIn cache (a, b) := by
    intro n f hf
    obtain ⟨hf, hacc⟩ := (fileAt_scanned h).mp hf
    obtain ⟨hv, hacc⟩ := Option.isSome_iff_exists.mp hacc
    exact ⟨hv, mem_keptIn.mpr ⟨rfl, rfl, hf, hacc⟩⟩
  have hfile : ∀ k ∈ r.keptIn cache (a, b), fileAt s.cache a b k.name = some k.file := by
    intro k hk
    obtain ⟨-, -, hf, hacc⟩ := mem_keptIn.mp hk
    exact (fileAt_scanned h).mpr ⟨hf, by rw [hacc]; rfl⟩
  constructor
  · rintro ⟨hne, rfl⟩
    obtain ⟨k, hk, hage⟩ := exists_oldestOf hne
    refine ⟨⟨k.name, k.file, hfile k hk, hage⟩, ?_⟩
    intro n f hf
    obtain ⟨hv, hin⟩ := hmem n f hf
    exact oldestOf_le hin
  · rintro ⟨⟨n, f, hf, rfl⟩, hle⟩
    obtain ⟨hv, hin⟩ := hmem n f hf
    have hne := List.ne_nil_of_mem hin
    obtain ⟨k, hk, hage⟩ := exists_oldestOf hne
    refine ⟨hne, UInt64.le_antisymm (oldestOf_le hin) ?_⟩
    rw [← hage]
    exact hle k.name k.file (hfile k hk)

/-- With distinct range names each directory keeps its own age. -/
theorem lookup_ages (h : DirsScanned r cache (Rescanner.subdirs cache) s)
    (hdistinct : ∀ a b a' b', Rescanner.Holds s.cache a b → Rescanner.Holds s.cache a' b' →
      toStr a ++ toStr b = toStr a' ++ toStr b' → a = a' ∧ b = b') (range : Text) (age : UInt64) :
    s.state.staticRangeOldest.lookup range = some age ↔
      ∃ a b, r.ageOf cache (a, b) = some ⟨range, age⟩ := by
  have hkeys : ((Rescanner.subdirs cache).filterMap (r.ageOf cache)).NodupKeys := by
    rw [List.nodupKeys_iff_pairwise, List.pairwise_filterMap]
    refine (nodup_subdirs cache).imp ?_
    rintro ⟨a, b⟩ ⟨a', b'⟩ hne ⟨range, age⟩ hage ⟨range', age'⟩ hage' rfl
    obtain ⟨hkept, hrange, -⟩ := ageOf_eq_some.mp hage
    obtain ⟨hkept', hrange', -⟩ := ageOf_eq_some.mp hage'
    obtain ⟨rfl, rfl⟩ := hdistinct a b a' b' ((keptIn_ne_nil_iff h).mp hkept)
      ((keptIn_ne_nil_iff h).mp hkept') (hrange.trans hrange'.symm)
    exact hne rfl
  have hiter := (fresh_of_nodupKeys hkeys fun _ _ => Finmap.notMem_empty).iterates
  rw [h.ages, Finmap.lookup_eq_some_iff, ← hiter, Multiset.mem_coe, List.mem_filterMap]
  constructor
  · rintro ⟨⟨a, b⟩, -, hage⟩
    exact ⟨a, b, hage⟩
  · rintro ⟨a, b, hage⟩
    refine ⟨(a, b), ?_, hage⟩
    obtain ⟨k, hk⟩ := List.exists_mem_of_ne_nil _ (ageOf_eq_some.mp hage).1
    have hin := (mem_keptIn.mp hk).2.2.1
    rw [mem_subdirs]
    by_contra hnone
    rw [Bool.not_eq_true, Option.isSome_eq_false_iff, Option.isNone_iff_eq_none] at hnone
    rw [fileAt, l3Entry, l2Dir, hnone] at hin
    cases hin

/-- A completed scan agrees with the disk as far as its counters can. -/
theorem agrees_iff (h : DirsScanned r cache (Rescanner.subdirs cache) s) :
    r.Agrees cache s.cache s.state ↔ (r.kept cache).length < 2 ^ 32 := by
  have hcount : s.state.cacheCount = UInt32.ofNat (r.kept cache).length := h.tallied.count
  constructor
  · rintro ⟨-, ⟨kept, hnodup, hmem, hlen, -⟩, -, -⟩
    have hperm : kept.Perm ((r.kept cache).map KeptFile.place) := by
      rw [List.perm_ext_iff_of_nodup hnodup (nodup_places r cache)]
      rintro ⟨a, b, n, f⟩
      rw [hmem, mem_places h]
    rw [← List.length_map KeptFile.place, ← hperm.length_eq, ← hlen]
    exact s.state.cacheCount.toNat_lt
  · intro hlt
    have hsum := h.tallied.sum_le
    refine ⟨fun a b n f => fileAt_scanned h, ⟨(r.kept cache).map KeptFile.place,
      nodup_places r cache, fun a b n f => mem_places h, ?_, ?_⟩, ?_, ?_⟩
    · rw [hcount, UInt32.toNat_ofNat_of_lt' hlt, List.length_map]
    · rw [h.tallied.size, List.map_map]
      refine UInt64.toNat_ofNat_of_lt' (lt_of_le_of_lt hsum ?_)
      change (r.kept cache).length * _ < 2 ^ 64
      omega
    · intro hdistinct range age
      simp only [lookup_ages h hdistinct, ageOf_eq_some, ← oldestOf_eq_iff h]
      refine exists_congr fun a => exists_congr fun b => ?_
      exact and_left_comm
    · intro arrayIndex bit hbit
      refine (h.tallied.lru arrayIndex bit hbit).trans ?_
      constructor
      · rintro ⟨k, hk, hrecent, hmap⟩
        obtain ⟨hf, hacc⟩ := mem_kept.mp hk
        exact ⟨k.l1, k.l2, k.name, k.file, k.hv,
          (fileAt_scanned h).mpr ⟨hf, by rw [hacc]; rfl⟩, hacc, hrecent, hmap⟩
      · rintro ⟨a, b, n, f, hv, hf, hacc, hrecent, hmap⟩
        exact ⟨⟨a, b, n, f, hv⟩, mem_kept.mpr ⟨((fileAt_scanned h).mp hf).1, hacc⟩, hrecent, hmap⟩

end Agreement

/-! ## The last message -/

/-- A debug build works out the size with overhead just when neither the product nor the sum
overflows. -/
theorem cacheSizeWithOverhead_ok_iff (build : Build) (actual : UInt64) (count : UInt32)
    (config : Config) :
    (∃ size, CacheHandler.cacheSizeWithOverhead build actual count config = .ok size) ↔
      (build = .debug → count.toNat * config.filesystemBlocksize.toNat < 2 ^ 64 ∧
        actual.toNat + count.toNat * config.filesystemBlocksize.toNat / 2 < 2 ^ 64) := by
  have hword : count.toUInt64.toNat = count.toNat := UInt32.toNat_toUInt64 _
  rw [CacheHandler.cacheSizeWithOverhead]
  cases build with
  | release => simp [mulU64, addU64, arithmetic, bind, Except.bind]
  | debug =>
    by_cases hmul : count.toNat * config.filesystemBlocksize.toNat < 2 ^ 64
    · obtain ⟨hok, hblocks⟩ := mulU64_of_lt .debug (hword.symm ▸ hmul)
      have hhalf : (count.toUInt64 * config.filesystemBlocksize / 2).toNat =
          count.toNat * config.filesystemBlocksize.toNat / 2 := by
        rw [UInt64.toNat_div, hblocks, hword]
        rfl
      simp only [hok, bind, Except.bind, forall_const]
      by_cases hadd : actual.toNat + count.toNat * config.filesystemBlocksize.toNat / 2 < 2 ^ 64
      · exact iff_of_true ⟨_, (addU64_of_lt .debug (hhalf.symm ▸ hadd)).1⟩ ⟨hmul, hadd⟩
      · rw [addU64_debug_of_le (hhalf.symm ▸ Nat.not_lt.mp hadd)]
        exact iff_of_false (by simp) fun h => hadd h.2
    · rw [mulU64_debug_of_le (hword.symm ▸ Nat.not_lt.mp hmul)]
      simp only [bind, Except.bind, forall_const]
      exact iff_of_false (by simp) fun h => hmul h.1

namespace Rescanner

/-- The two operations of the last message stay in their words. -/
def MessageFits (r : Rescanner) (cache : CacheDir) : Prop :=
  let count := (r.kept cache).length
  let blocks := count * r.config.filesystemBlocksize.toNat
  blocks < 2 ^ 64 ∧
    ((r.kept cache).map fun k => k.file.content.length).sum + blocks / 2 < 2 ^ 64

end Rescanner

section Whole

variable {r : Rescanner} {cache after : CacheDir} {state : StartupCacheState}

theorem closingMessage_ok_iff (r : Rescanner) (state : StartupCacheState) :
    r.closingMessage state = .ok () ↔ (r.infoEnabled = true →
      ∃ size, CacheHandler.cacheSizeWithOverhead r.build state.cacheSize state.cacheCount
        r.config.toConfig = .ok size) := by
  rw [Rescanner.closingMessage]
  cases r.infoEnabled with
  | false => exact iff_of_true rfl nofun
  | true =>
    cases hsize : CacheHandler.cacheSizeWithOverhead r.build state.cacheSize state.cacheCount
        r.config.toConfig with
    | error e => exact iff_of_false nofun fun h => by simpa using h rfl
    | ok size => exact iff_of_true rfl fun _ => ⟨size, rfl⟩

theorem message_ok_iff {s : Rescan} (h : DirsScanned r cache (Rescanner.subdirs cache) s)
    (hlt : (r.kept cache).length < 2 ^ 32) :
    r.closingMessage s.state = .ok () ↔
      (r.infoEnabled = true → r.build = .debug → r.MessageFits cache) := by
  have hsum := h.tallied.sum_le
  have hcount : s.state.cacheCount = UInt32.ofNat (r.kept cache).length := h.tallied.count
  have hsize : s.state.cacheSize =
    UInt64.ofNat ((r.kept cache).map fun k => k.file.content.length).sum := h.tallied.size
  have hword : ((r.kept cache).map fun k => k.file.content.length).sum < 2 ^ 64 := by
    refine lt_of_le_of_lt hsum ?_
    change (r.kept cache).length * _ < 2 ^ 64
    omega
  rw [closingMessage_ok_iff, cacheSizeWithOverhead_ok_iff, hcount, hsize,
    UInt32.toNat_ofNat_of_lt' hlt, UInt64.toNat_ofNat_of_lt' hword]
  rfl

/-- What a completed scan has done. -/
theorem fullRescan_ok (h : r.fullRescan cache = .ok (after, state)) :
    ∃ s, DirsScanned r cache (Rescanner.subdirs cache) s ∧ after = s.cache ∧ state = s.state ∧
      r.closingMessage s.state = .ok () := by
  simp only [Rescanner.fullRescan, bind, Except.bind] at h
  cases hloop : (listSortedFiles cache).foldlM r.rescanL1 ⟨cache, [], ⟨LruState.new, 0, 0, ∅⟩⟩ with
  | error e => rw [hloop] at h; cases h
  | ok s =>
    rw [hloop] at h
    cases hmessage : r.closingMessage s.state with
    | error e => simp only [hmessage] at h; cases h
    | ok _ =>
      simp only [hmessage] at h
      obtain ⟨rfl, rfl⟩ := Prod.mk.inj (Except.ok.inj h)
      exact ⟨s, dirsScanned_of_run hloop, rfl, rfl, hmessage⟩

theorem fullRescan_succeeds (hroom : r.Room (r.kept cache).length)
    (hmessage : ∀ s, DirsScanned r cache (Rescanner.subdirs cache) s → r.closingMessage s.state = .ok ()) :
    ∃ s, DirsScanned r cache (Rescanner.subdirs cache) s ∧
      r.fullRescan cache = .ok (s.cache, s.state) := by
  obtain ⟨s, hloop⟩ := run_succeeds hroom
  have hs := dirsScanned_of_run hloop
  refine ⟨s, hs, ?_⟩
  simp only [Rescanner.fullRescan, bind, Except.bind, hloop, hmessage s hs]
  rfl

theorem kept_lt_of_agrees
    (h : ∃ after state, r.fullRescan cache = .ok (after, state) ∧ r.Agrees cache after state) :
    (r.kept cache).length < 2 ^ 32 := by
  obtain ⟨after, state, hrun, hagrees⟩ := h
  obtain ⟨s, hs, rfl, rfl, -⟩ := fullRescan_ok hrun
  exact (agrees_iff hs).mp hagrees

end Whole

/-- The scan completes and agrees with the disk it leaves just when fewer than 2^32 files belong
in the cache and, in a debug build that logs it, the last message does not overflow. -/
theorem fullRescan_agrees_iff (r : Rescanner) (cache : CacheDir) :
    (∃ after state, r.fullRescan cache = .ok (after, state) ∧ r.Agrees cache after state) ↔
      (r.kept cache).length < 2 ^ 32 ∧
        (r.infoEnabled = true → r.build = .debug → r.MessageFits cache) := by
  constructor
  · intro h
    have hlt := kept_lt_of_agrees h
    obtain ⟨after, state, hrun, -⟩ := h
    obtain ⟨s, hs, -, -, hmessage⟩ := fullRescan_ok hrun
    exact ⟨hlt, (message_ok_iff hs hlt).mp hmessage⟩
  · rintro ⟨hlt, hfits⟩
    obtain ⟨s, hs, hrun⟩ := fullRescan_succeeds (.inr hlt)
      fun s hs => (message_ok_iff hs hlt).mpr hfits
    exact ⟨s.cache, s.state, hrun, (agrees_iff hs).mpr hlt⟩

/-! ## More files than the count holds -/

/-- Empty files that differ in their resolution alone. -/
def tinyFile (i : ℕ) : HVFile :=
  ⟨sampleHash, 0, UInt32.ofNat (i / 100000 + 1), UInt32.ofNat (i % 100000), .png⟩

section Tiny

variable {i j : ℕ}

theorem tinyFile_xres (h : i ≤ 2 ^ 32) : (tinyFile i).xres.toNat = i / 100000 + 1 :=
  UInt32.toNat_ofNat_of_lt' (by show _ < 2 ^ 32; omega)

theorem tinyFile_yres (i : ℕ) : (tinyFile i).yres.toNat = i % 100000 :=
  UInt32.toNat_ofNat_of_lt' (by show _ < 2 ^ 32; omega)

theorem fromFileid_tinyFile (h : i ≤ 2 ^ 32) :
    fromFileid (tinyFile i).fileid = some (tinyFile i) := by
  have hparsed : (tinyFile i).Parsed :=
    ⟨by rw [tinyFile_xres h]; omega, by rw [tinyFile_yres]; omega,
      show FileType.fromExt FileType.png.asExt = .png by decide,
      show FileType.png.asExt ∈ extensions by decide⟩
  have hpos : 0 < (tinyFile i).xres := by
    rw [UInt32.lt_iff_toNat_lt, tinyFile_xres h]
    exact Nat.succ_pos _
  rw [hparsed.fromFileid_fileid, if_pos hpos]

theorem tinyFile_inj (hi : i ≤ 2 ^ 32) (hj : j ≤ 2 ^ 32)
    (h : utf8 (tinyFile i).fileid = utf8 (tinyFile j).fileid) : i = j := by
  have hparse := congrArg fromFileid (utf8_injective h)
  rw [fromFileid_tinyFile hi, fromFileid_tinyFile hj] at hparse
  have hfile := Option.some.inj hparse
  have hx := congrArg (fun hv : HVFile => hv.xres.toNat) hfile
  have hy := congrArg (fun hv : HVFile => hv.yres.toNat) hfile
  simp only [tinyFile_xres hi, tinyFile_xres hj, tinyFile_yres] at hx hy
  omega

end Tiny

def tinyEntries (count : ℕ) : List (Sigma fun _ : Name => DirEntry Unit) :=
  (List.range count).map fun i => ⟨utf8 (tinyFile i).fileid, .file ⟨[], 0⟩⟩

theorem nodupKeys_tinyEntries {count : ℕ} (h : count ≤ 2 ^ 32) : (tinyEntries count).NodupKeys := by
  rw [List.nodupKeys_iff_pairwise, tinyEntries, List.pairwise_map]
  refine List.Nodup.pairwise_of_forall_ne List.nodup_range ?_
  intro i hi j hj hne heq
  rw [List.mem_range] at hi hj
  exact hne (tinyFile_inj (by omega) (by omega) heq)

/-- One second-level directory with that many empty files. -/
def tinyCache (count : ℕ) (h : count ≤ 2 ^ 32) : CacheDir :=
  AList.singleton (utf8 "a9".toList) (.dir (AList.singleton (utf8 "4a".toList)
    (.dir ⟨tinyEntries count, nodupKeys_tinyEntries h⟩)))

def tinySettings : ClientSettings :=
  (ClientSettings.load ⟨none, none⟩).applySettings [("static_ranges".toList, "a94a".toList)]

/-- A scan that verifies nothing and logs nothing, with the range of the files assigned. -/
def plainRescanner (build : Build) : Rescanner where
  sha1 := fun _ => .replicate 20 0
  reads := ⟨fun content => [content], fun _ => List.flatten_singleton⟩
  build := build
  config := tinySettings
  verifyCache := false
  millisNow := 0
  infoEnabled := false

section Tiny

variable {count i : ℕ} {h : count ≤ 2 ^ 32}

theorem fileAt_tinyCache (hi : i < count) :
    fileAt (tinyCache count h) (utf8 "a9".toList) (utf8 "4a".toList) (utf8 (tinyFile i).fileid) =
      some ⟨[], 0⟩ := by
  have hl2 : l2Entry (tinyCache count h) (utf8 "a9".toList) (utf8 "4a".toList) =
      some (.dir ⟨tinyEntries count, nodupKeys_tinyEntries h⟩) := rfl
  have hmem : (DirEntry.file ⟨[], 0⟩ : DirEntry Unit) ∈
      (⟨tinyEntries count, nodupKeys_tinyEntries h⟩ : L2Dir).lookup (utf8 (tinyFile i).fileid) :=
    AList.mem_lookup_iff.mpr (List.mem_map.mpr ⟨i, List.mem_range.mpr hi, rfl⟩)
  rw [fileAt, l3Entry, l2Dir, hl2]
  exact congrArg asFile hmem

theorem accepted_tinyFile (build : Build) (hi : i ≤ 2 ^ 32) :
    (plainRescanner build).accepted (utf8 (tinyFile i).fileid) ⟨[], 0⟩ = some (tinyFile i) := by
  refine accepted_eq_some.mpr ⟨?_, rfl, ?_, nofun⟩
  · rw [toStr_utf8, fromFileid_tinyFile hi]
  · change tinySettings.isStaticRange (sampleHash.text.take 4) = true
    decide

/-- All of them are counted. -/
theorem le_length_kept (build : Build) :
    count ≤ ((plainRescanner build).kept (tinyCache count h)).length := by
  let place : ℕ → Name × Name × Name × CachedFile := fun i =>
    (utf8 "a9".toList, utf8 "4a".toList, utf8 (tinyFile i).fileid, ⟨[], 0⟩)
  have hnodup : ((List.range count).map place).Nodup := by
    refine List.Nodup.map_on ?_ List.nodup_range
    intro i hi j hj heq
    rw [List.mem_range] at hi hj
    exact tinyFile_inj (by omega) (by omega) (congrArg (fun p => p.2.2.1) heq)
  have hsub : (List.range count).map place ⊆
      ((plainRescanner build).kept (tinyCache count h)).map KeptFile.place := by
    intro p hp
    obtain ⟨i, hi, rfl⟩ := List.mem_map.mp hp
    rw [List.mem_range] at hi
    exact List.mem_map.mpr ⟨⟨_, _, _, _, tinyFile i⟩,
      mem_kept.mpr ⟨fileAt_tinyCache hi, accepted_tinyFile build (by omega)⟩, rfl⟩
  have hle := (List.subperm_of_subset hnodup hsub).length_le
  rwa [List.length_map, List.length_map, List.length_range] at hle

end Tiny

/-- With 2^32 empty files the count wraps around or a debug build stops. -/
theorem tinyCache_disagrees :
    (¬ ∃ after state, (plainRescanner .release).fullRescan (tinyCache (2 ^ 32) (Nat.le_refl _)) =
      .ok (after, state) ∧ (plainRescanner .release).Agrees (tinyCache (2 ^ 32) (Nat.le_refl _))
        after state) ∧
    ¬ ∃ after state, (plainRescanner .debug).fullRescan (tinyCache (2 ^ 32) (Nat.le_refl _)) =
      .ok (after, state) ∧ (plainRescanner .debug).Agrees (tinyCache (2 ^ 32) (Nat.le_refl _))
        after state := by
  constructor
  · intro h
    exact absurd (kept_lt_of_agrees h) (Nat.not_lt.mpr (le_length_kept .release))
  · intro h
    exact absurd (kept_lt_of_agrees h) (Nat.not_lt.mpr (le_length_kept .debug))

end HathRs.StartupRescan
