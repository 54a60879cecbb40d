import HathRs.HpcacheProtocol
import HathRs.TornSnapshots

/-!
# Importing an HPCACHE/1 stream as a client snapshot

The migration tool has its own writer for the client's three files. It moves existing
files into a backup directory, stages the new ones under temporary names and renames
them into place with `pcache_info` last. `import_loads_in_client` says that the client's
loader reads the imported state back, and that the tool and the client write the same
bytes.
-/

namespace HathRs.MigrationTransaction
open TextParsing HashMaps Digests CrashFiles BincodeFormat PersistentCache HpcacheProtocol

/-! ## The writer -/

structure EncodedSnapshot where
  ages : Bytes
  lru : Bytes
  info : Bytes
  agesHash : Text
  lruHash : Text

/-- `format!("{byte:02x}")` for every byte of the digest. -/
def sha1Hex (sha1 : Bytes → Sha1Digest) (bytes : Bytes) : Text :=
  ((sha1 bytes).toList.map (fun b => [hexDigit (b.toNat / 16), hexDigit (b.toNat % 16)])).flatten

def encode (bincode : Bincode) (sha1 : Bytes → Sha1Digest) (state : LegacyCacheState)
    (order : List (Entry Text UInt64)) : Option EncodedSnapshot := do
  let ages ← bincode.serializeAges order
  let lru ← bincode.serializeTable state.lruCacheTable
  let agesHash := sha1Hex sha1 ages
  let lruHash := sha1Hex sha1 lru
  let info := utf8 ("formatVersion=1\ncacheCount=".toList ++ decimal state.cacheCount.toNat ++
    "\ncacheSize=".toList ++ decimal state.cacheSize.toNat ++
    "\nlruClearPointer=".toList ++ decimal state.lruClearPointer.toNat ++
    "\nagesHash=".toList ++ agesHash ++ "\nlruHash=".toList ++ lruHash)
  return ⟨ages, lru, info, agesHash, lruHash⟩

/-! ## The transaction -/

inductive ImportError where
  | protocol (error : ProtocolError)
  | serialize
  | io
  | replaceRequired
  | write (message : String)

inductive PublishResult where
  | ok (backupDir : Option Text)
  | error (error : ImportError)
  | crashed

/-- What a publication meets on the machine it runs on. -/
structure PublishRun where
  dataDir : String
  dataDirIsFile : Bool
  createDirFails : Bool
  millis : ℕ
  processId : ℕ
  stagingSequence : ℕ
  backupDirFails : Bool
  backupFaults : List Fault
  stageFaults : List Fault
  cleanupFaults : List Fault

def artifacts : List Text := ["pcache_info".toList, "pcache_ages".toList, "pcache_lru".toList]

def uniqueBackupDir (run : PublishRun) : Text :=
  "pcache-java-backup-".toList ++ decimal run.millis ++ '-' :: decimal run.processId ++
    '-' :: decimal run.stagingSequence

def stagedPath (run : PublishRun) (name : String) (sequence : ℕ) : DataPath :=
  ['.' :: name.toList ++ ".migrate-".toList ++ decimal run.processId ++ '-' :: decimal sequence ++
    ".tmp".toList]

/-- The three staging paths, with consecutive sequence numbers. -/
def stages (run : PublishRun) (first : ℕ) : DataPath × DataPath × DataPath :=
  (stagedPath run "pcache_ages" first, stagedPath run "pcache_lru" (first + 1),
    stagedPath run "pcache_info" (first + 2))

/-- The closure that writes and renames the staged files. -/
def stageOps (encoded : EncodedSnapshot) (staged : DataPath × DataPath × DataPath) :
    List (FileOp DataPath) :=
  let (stagedAges, stagedLru, stagedInfo) := staged
  [.create stagedAges encoded.ages, .create stagedLru encoded.lru, .rename stagedAges pcacheAges,
    .rename stagedLru pcacheLru, .create stagedInfo encoded.info, .rename stagedInfo pcacheInfo]

/-- Each staging file is removed whether or not removing the others worked. -/
def removeStages (faults : List Fault) (disk : Disk DataPath) :
    List DataPath → Disk DataPath × Outcome
  | [] => (disk, .ok)
  | path :: paths =>
    match runOps disk [nextFault faults] [.remove path] with
    | (left, .crashed) => (left, .crashed)
    | (left, _) => removeStages faults.tail left paths

/-- The part of the publication behind the backup. -/
def publishStaged (run : PublishRun) (encoded : EncodedSnapshot) (backupDir : Option Text)
    (first : ℕ) (disk : Disk DataPath) : Disk DataPath × PublishResult :=
  let staged := stages run first
  match runOps disk run.stageFaults (stageOps encoded staged) with
  | (left, .ok) => (left, .ok backupDir)
  | (left, .crashed) => (left, .crashed)
  | (left, .failed) =>
    match removeStages run.cleanupFaults left [staged.1, staged.2.1, staged.2.2] with
    | (cleaned, .crashed) => (cleaned, .crashed)
    | (cleaned, _) => (cleaned, .error .io)

variable (sha1 : Bytes → Sha1Digest)

def publishWithWriter (run : PublishRun) (encoder : LegacyCacheState → Option EncodedSnapshot)
    (state : LegacyCacheState) (replace : Bool) (disk : Disk DataPath) :
    Disk DataPath × PublishResult :=
  if run.dataDirIsFile then
    (disk, .error (.write ("data directory is not a directory: " ++ run.dataDir)))
  else if run.createDirFails then (disk, .error .io)
  else
    let existing := artifacts.filter (fun name => (disk [name]).isSome)
    if existing ≠ [] ∧ !replace then (disk, .error .replaceRequired)
    else
      match encoder state with
      | none => (disk, .error .serialize)
      | some encoded =>
        if sha1Hex sha1 encoded.ages ≠ encoded.agesHash ∨ sha1Hex sha1 encoded.lru ≠ encoded.lruHash
        then (disk, .error (.write "staged cache hash did not match generated info"))
        else if existing = [] then
          publishStaged run encoded none run.stagingSequence disk
        else if run.backupDirFails then (disk, .error .io)
        else
          let backupDir := uniqueBackupDir run
          match runOps disk run.backupFaults
            (existing.map (fun name => .rename [name] [backupDir, name])) with
          | (moved, .ok) => publishStaged run encoded (some backupDir) (run.stagingSequence + 1) moved
          | (moved, .failed) => (moved, .error .io)
          | (moved, .crashed) => (moved, .crashed)

def publish (bincode : Bincode) (run : PublishRun) (order : IterationOrder Text UInt64)
    (state : LegacyCacheState) (replace : Bool) (disk : Disk DataPath) :
    Disk DataPath × PublishResult :=
  publishWithWriter sha1 run
    (fun state => encode bincode sha1 state (order.iterate state.staticRangeAges)) state replace disk

def importFromReader (bincode : Bincode) (sha256 : Bytes → Vector UInt8 32) (run : PublishRun)
    (order : IterationOrder Text UInt64) (input : Bytes) (replace : Bool) (disk : Disk DataPath) :
    Disk DataPath × PublishResult :=
  match read sha256 input with
  | .error e => (disk, .error (.protocol e))
  | .ok state => publish sha1 bincode run order state replace disk

/-! ## The staged files end up under the client's names -/

/-- Staging names start with a dot and name the file they stand for. -/
theorem stages_distinct (run : PublishRun) (n : ℕ) :
    [(stages run n).1, (stages run n).2.1, (stages run n).2.2, pcacheAges, pcacheLru,
      pcacheInfo].Nodup := by
  simp [stages, stagedPath, pcacheAges, pcacheLru, pcacheInfo]

theorem apply_rename_eq_some {disk next : Disk DataPath} {source target : DataPath}
    (h : (FileOp.rename source target).apply disk = some next) :
    ∃ data, disk source = some data ∧
      next = Function.update (Function.update disk source none) target (some data) := by
  obtain ⟨data, hdata, rfl⟩ := Option.map_eq_some_iff.mp h
  exact ⟨data, hdata, rfl⟩

theorem apply_create_eq_some {disk next : Disk DataPath} {name : DataPath} {data : Bytes}
    (h : (FileOp.create name data).apply disk = some next) :
    next = Function.update disk name (some data) := by
  simp only [FileOp.apply] at h
  split_ifs at h
  exact (Option.some.inj h).symm

def EncodedSnapshot.toSnapshot (encoded : EncodedSnapshot) : Snapshot :=
  ⟨encoded.ages, encoded.lru, encoded.info⟩

theorem storedOn_of_stageOps {encoded : EncodedSnapshot} {sa sl si : DataPath}
    (hd : [sa, sl, si, pcacheAges, pcacheLru, pcacheInfo].Nodup) {disk left : Disk DataPath}
    (h : applyAll disk (stageOps encoded (sa, sl, si)) = some left) :
    encoded.toSnapshot.StoredOn left := by
  simp only [stageOps, applyAll, Option.bind_eq_some_iff] at h
  obtain ⟨d₁, h₁, d₂, h₂, d₃, h₃, d₄, h₄, d₅, h₅, d₆, h₆, h⟩ := h
  cases h
  obtain rfl := apply_create_eq_some h₁
  obtain rfl := apply_create_eq_some h₂
  obtain ⟨ages, hages, rfl⟩ := apply_rename_eq_some h₃
  obtain ⟨lru, hlru, rfl⟩ := apply_rename_eq_some h₄
  obtain rfl := apply_create_eq_some h₅
  obtain ⟨info, hinfo, rfl⟩ := apply_rename_eq_some h₆
  simp only [List.nodup_cons, List.mem_cons, List.not_mem_nil, or_false, not_or, not_false_eq_true,
    List.nodup_nil, and_true] at hd
  obtain ⟨⟨hal, hai, haA, haL, haI⟩, ⟨hli, hlA, hlL, hlI⟩, ⟨hiA, hiL, hiI⟩, ⟨hAL, hAI⟩, hLI⟩ :=
    hd
  rw [Function.update_of_ne hal, Function.update_self] at hages
  rw [Function.update_of_ne hlA, Function.update_of_ne (Ne.symm hal), Function.update_self] at hlru
  rw [Function.update_self] at hinfo
  cases hages
  cases hlru
  cases hinfo
  refine ⟨?_, ?_, Function.update_self ..⟩
  · rw [Function.update_of_ne hAI, Function.update_of_ne (Ne.symm hiA),
      Function.update_of_ne (Ne.symm hiA), Function.update_of_ne hAL,
      Function.update_of_ne (Ne.symm hlA)]
    exact Function.update_self ..
  · rw [Function.update_of_ne hLI, Function.update_of_ne (Ne.symm hiL),
      Function.update_of_ne (Ne.symm hiL)]
    exact Function.update_self ..

/-! ## The same bytes as the client's -/

/-- The state that the client's types hold. -/
def toPersistent (state : LegacyCacheState) : PersistentCacheState where
  cacheCount := state.cacheCount
  cacheSize := state.cacheSize
  lruClearPointer := state.lruClearPointer
  staticRangeAges := state.staticRangeAges
  lruCacheTable := state.lruCacheTable

theorem sha1Hex_eq (data : Bytes) : sha1Hex sha1 data = sha1Bytes sha1 data := by
  simp [sha1Hex, sha1Bytes, hexEncode, List.flatMap]

private theorem formatVersion_line :
    "formatVersion=1\ncacheCount=".toList =
      "formatVersion=".toList ++ decimal formatVersion.toNat ++ "\ncacheCount=".toList := by
  decide

private theorem writerInfo_eq (state : LegacyCacheState) (agesHash lruHash : Text) :
    "formatVersion=1\ncacheCount=".toList ++ decimal state.cacheCount.toNat ++
        "\ncacheSize=".toList ++ decimal state.cacheSize.toNat ++
        "\nlruClearPointer=".toList ++ decimal state.lruClearPointer.toNat ++
        "\nagesHash=".toList ++ agesHash ++ "\nlruHash=".toList ++ lruHash =
      infoText (toPersistent state) agesHash lruHash := by
  rw [formatVersion_line]
  rfl

/-- For one order of the ranges both writers produce the same three files. -/
theorem encode_eq_snapshot (bincode : Bincode) (state : LegacyCacheState)
    (order : List (Entry Text UInt64)) :
    (encode bincode sha1 state order).map EncodedSnapshot.toSnapshot =
      snapshot bincode sha1 (toPersistent state) order := by
  cases ha : bincode.serializeAges order with
  | none => rw [encode, snapshot, ha]; rfl
  | some ages =>
    cases hl : bincode.serializeTable state.lruCacheTable with
    | none => rw [encode, snapshot, ha, toPersistent, hl]; rfl
    | some lru =>
      have hl' : bincode.serializeTable (toPersistent state).lruCacheTable = some lru := hl
      rw [snapshot_eq_some bincode sha1 ha hl', ← writerInfo_eq, ← sha1Hex_eq, ← sha1Hex_eq, encode,
        ha, hl]
      rfl

theorem snapshot_of_encode (bincode : Bincode) (state : LegacyCacheState)
    (order : List (Entry Text UInt64)) (encoded : EncodedSnapshot)
    (h : encode bincode sha1 state order = some encoded) :
    snapshot bincode sha1 (toPersistent state) order = some encoded.toSnapshot := by
  rw [← encode_eq_snapshot, h]
  rfl

/-! ## The client loads what was imported -/

/-- A publication that succeeds without anything to back up has staged and renamed all
three files. -/
theorem storedOn_of_publish {run : PublishRun} {encoder : LegacyCacheState → Option EncodedSnapshot}
    {state : LegacyCacheState} {replace : Bool} {left : Disk DataPath} {backup : Option Text}
    (h : publishWithWriter sha1 run encoder state replace (fun _ => none) = (left, .ok backup)) :
    ∃ encoded, encoder state = some encoded ∧ encoded.toSnapshot.StoredOn left := by
  have hexisting : artifacts.filter (fun name => ((fun _ => none : Disk DataPath) [name]).isSome) =
      [] := rfl
  simp only [publishWithWriter, hexisting] at h
  split_ifs at h with hfile hdir hreplace
  · cases h
  · cases h
  · cases h
  · cases henc : encoder state with
    | none =>
      simp only [henc] at h
      cases h
    | some encoded =>
      simp only [henc] at h
      split_ifs at h with hhash
      · cases h
      refine ⟨encoded, rfl, ?_⟩
      simp only [publishStaged] at h
      generalize hrun : runOps (fun _ => none) run.stageFaults
        (stageOps encoded (stages run run.stagingSequence)) = result at h
      obtain ⟨disk, outcome⟩ := result
      cases outcome with
      | ok =>
        cases h
        have hall := applyAll_of_runOps_ok (by rw [hrun])
        rw [hrun] at hall
        exact storedOn_of_stageOps (stages_distinct run run.stagingSequence) hall
      | crashed => cases h
      | failed =>
        simp only at h
        split at h <;> cases h

/-- Whatever stream is imported into an empty data directory, the client then loads exactly
the decoded state; and for every state and order of its ranges the tool's writer and the
client's save agree byte for byte. -/
theorem import_loads_in_client (bincode : Bincode) (sha256 : Bytes → Vector UInt8 32) :
    (∀ run order input replace left backup,
      importFromReader sha1 bincode sha256 run order input replace (fun _ => none) =
        (left, .ok backup) →
      ∃ state loaded, read sha256 input = .ok state ∧ tryLoad bincode sha1 left = some loaded ∧
        loaded.cacheCount = state.cacheCount ∧ loaded.cacheSize = state.cacheSize ∧
        loaded.lruClearPointer = state.lruClearPointer ∧
        loaded.staticRangeAges = state.staticRangeAges ∧
        loaded.lruCacheTable = state.lruCacheTable) ∧
    ∀ state order disk,
      (∀ encoded, encode bincode sha1 state order = some encoded →
        ∃ left, save bincode sha1 (toPersistent state) order [] disk = (left, .ok) ∧
          left pcacheInfo = some encoded.info ∧ left pcacheAges = some encoded.ages ∧
          left pcacheLru = some encoded.lru) ∧
      (encode bincode sha1 state order = none →
        (save bincode sha1 (toPersistent state) order [] disk).2 ≠ .ok) := by
  refine ⟨fun run order input replace left backup h => ?_, fun state order disk =>
    ⟨fun encoded henc => ?_, fun henc => ?_⟩⟩
  · simp only [importFromReader] at h
    cases hread : read sha256 input with
    | error e => simp [hread] at h
    | ok state =>
      simp only [hread] at h
      obtain ⟨encoded, henc, hstored⟩ := storedOn_of_publish sha1 h
      have hsnap := snapshot_of_encode sha1 bincode state _ encoded henc
      have hload : tryLoad bincode sha1 left = some (toPersistent state) :=
        tryLoad_of_snapshot bincode sha1 (order.iterates _) hsnap hstored
      exact ⟨state, toPersistent state, rfl, hload, rfl, rfl, rfl, rfl, rfl⟩
  · have hsnap := snapshot_of_encode sha1 bincode state order encoded henc
    obtain ⟨left, hsave, hstored⟩ := save_nil bincode sha1 hsnap disk
    exact ⟨left, hsave, hstored.info, hstored.ages, hstored.lru⟩
  · have hnone : snapshot bincode sha1 (toPersistent state) order = none := by
      rw [← encode_eq_snapshot, henc]
      rfl
    exact save_ne_ok_of_snapshot_none bincode sha1 hnone [] disk

/-! The state of the tool's own tests, imported by a run without faults. -/

def fullState : LegacyCacheState where
  cacheCount := 7
  cacheSize := 99
  lruClearPointer := 17
  staticRangeAges := Finmap.singleton "a3f0".toList 1700000000000
  lruCacheTable := List.replicate HpcacheProtocol.lruCacheSize 0

def plainRun : PublishRun where
  dataDir := "data"
  dataDirIsFile := false
  createDirFails := false
  millis := 0
  processId := 1
  stagingSequence := 0
  backupDirFails := false
  backupFaults := []
  stageFaults := []
  cleanupFaults := []

theorem bounded_fullState : Bounded fullState where
  pointer_lt := by decide
  ranges_le := by decide
  ranges_hex range hrange := by
    obtain rfl := Finmap.mem_singleton _ _ _ |>.mp hrange
    decide
  table_length := List.length_replicate

theorem exists_encode_fullState {order : List (Entry Text UInt64)}
    (ho : Iterates order fullState.staticRangeAges) :
    ∃ encoded, encode fixint sha1 fullState order = some encoded ∧
      sha1Hex sha1 encoded.ages = encoded.agesHash ∧ sha1Hex sha1 encoded.lru = encoded.lruHash := by
  obtain rfl : order = [⟨"a3f0".toList, 1700000000000⟩] := Multiset.coe_eq_singleton.mp ho
  have htable : fullState.lruCacheTable.length < 256 ^ 8 := by
    rw [bounded_fullState.table_length]
    decide
  obtain ⟨lru, hlru⟩ := exists_serializeTable htable
  obtain ⟨ages, hages⟩ : ∃ ages, fixint.serializeAges [⟨"a3f0".toList, 1700000000000⟩] = some ages :=
    ⟨_, rfl⟩
  simp only [encode, hages, hlru]
  exact ⟨_, rfl, rfl, rfl⟩

theorem runOps_stageOps_nil (encoded : EncodedSnapshot) {sa sl si : DataPath}
    (hd : [sa, sl, si, pcacheAges, pcacheLru, pcacheInfo].Nodup) :
    (runOps (fun _ => none) [] (stageOps encoded (sa, sl, si))).2 = .ok := by
  simp only [List.nodup_cons, List.mem_cons, List.not_mem_nil, or_false, not_or, not_false_eq_true,
    List.nodup_nil, and_true] at hd
  obtain ⟨⟨hal, hai, haA, haL, haI⟩, ⟨hli, hlA, hlL, hlI⟩, ⟨hiA, hiL, hiI⟩, ⟨hAL, hAI⟩, hLI⟩ :=
    hd
  simp [runOps, nextFault, stageOps, FileOp.apply, Function.update_of_ne, Function.update_self,
    hal, Ne.symm hal, Ne.symm hai, Ne.symm hli, hlA, hiA, hiL]

/-- The stream of the sample state. -/
def fullStream : Bytes :=
  encodeHpcacheV1ForTest (fun _ => Vector.replicate 32 0) fullState [⟨"a3f0".toList, 1700000000000⟩]

theorem read_fullStream : read (fun _ => Vector.replicate 32 0) fullStream = .ok fullState := by
  have hiter : Iterates [⟨"a3f0".toList, 1700000000000⟩] fullState.staticRangeAges := rfl
  exact (read_ok_iff (fun _ => Vector.replicate 32 0)).mpr ⟨bounded_fullState, _, hiter, Eq.refl fullStream⟩

theorem publishStaged_of_ok (run : PublishRun) {encoded : EncodedSnapshot} (backupDir : Option Text)
    {first : ℕ} {disk : Disk DataPath}
    (h : (runOps disk run.stageFaults (stageOps encoded (stages run first))).2 = .ok) :
    ∃ left, publishStaged run encoded backupDir first disk = (left, .ok backupDir) := by
  unfold publishStaged
  generalize hrun : runOps disk run.stageFaults (stageOps encoded (stages run first)) = result at h
  obtain ⟨left, outcome⟩ := result
  cases h
  simp only [hrun]
  exact ⟨left, rfl⟩

/-- With no file to back up and a consistent encoder the publication goes on to stage. -/
theorem publishWithWriter_of_empty {sha1 : Bytes → Sha1Digest} (run : PublishRun)
    (hfile : run.dataDirIsFile = false) (hdir : run.createDirFails = false)
    (encoder : LegacyCacheState → Option EncodedSnapshot) {state : LegacyCacheState}
    {encoded : EncodedSnapshot} (henc : encoder state = some encoded)
    (hages : sha1Hex sha1 encoded.ages = encoded.agesHash)
    (hlru : sha1Hex sha1 encoded.lru = encoded.lruHash) (replace : Bool) :
    publishWithWriter sha1 run encoder state replace (fun _ => none) =
      publishStaged run encoded none run.stagingSequence (fun _ => none) := by
  simp [publishWithWriter, hfile, hdir, henc, hages, hlru]

theorem exists_import_fullStream (order : IterationOrder Text UInt64) :
    ∃ left, importFromReader (fun _ => Vector.replicate 20 0) fixint (fun _ => Vector.replicate 32 0)
      plainRun order fullStream false (fun _ => none) = (left, .ok none) := by
  obtain ⟨encoded, henc, hages, hlru⟩ := exists_encode_fullState (fun _ => Vector.replicate 20 0)
    (order.iterates fullState.staticRangeAges)
  obtain ⟨left, hleft⟩ := publishStaged_of_ok plainRun none
    (runOps_stageOps_nil encoded (stages_distinct plainRun 0))
  have hpublish := publishWithWriter_of_empty plainRun rfl rfl
    (fun state => encode fixint (fun _ => Vector.replicate 20 0) state
      (order.iterate state.staticRangeAges)) henc hages hlru false
  refine ⟨left, ?_⟩
  rw [importFromReader, read_fullStream]
  exact hpublish.trans hleft

theorem import_loads_in_client_fullState :
    ∃ left loaded, importFromReader (fun _ => Vector.replicate 20 0) fixint
        (fun _ => Vector.replicate 32 0) plainRun (Classical.arbitrary _) fullStream false
        (fun _ => none) = (left, .ok none) ∧
      tryLoad fixint (fun _ => Vector.replicate 20 0) left = some loaded ∧
      loaded.cacheCount = 7 ∧ loaded.lruClearPointer = 17 := by
  obtain ⟨left, hleft⟩ := exists_import_fullStream (Classical.arbitrary _)
  obtain ⟨state, loaded, hstate, hload, hcount, -, hpointer, -, -⟩ :=
    (import_loads_in_client (fun _ => Vector.replicate 20 0) fixint
      (fun _ => Vector.replicate 32 0)).1 _ _ _ _ _ _ hleft
  rw [read_fullStream] at hstate
  obtain rfl := Except.ok.inj hstate
  exact ⟨left, loaded, hleft, hload, hcount, hpointer⟩

end HathRs.MigrationTransaction
