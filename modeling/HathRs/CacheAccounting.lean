import HathRs.CacheTasks

/-!
# Whether the counters match the disk

Each counter of the handler is a ledger over the files at cache paths. Between the change
of the directory and the change of the counters a task owes the difference, so the gap
between a ledger and the disk is what the tasks in flight owe. A file that lands on an
occupied path, one that lands and is never registered, and a change that the handler
refuses break the balance; without them the counters match the disk whenever no task is
in flight.
-/

namespace HathRs.CacheAccounting
open TextParsing HashMaps FileIds CacheTasks TransitionRuns

/-! ## Files at cache paths -/

/-- The file that belongs to a path, if the path is a cache path. -/
def hvAt (path : Path) : Option HVFile :=
  (fromFileid (fileName path)).filter fun hv => hv.cachePath = path

def cachedFiles (files : Finset Path) : Finset Path := files.filter fun path => (hvAt path).isSome

/-- The size that the name of a cached file encodes. -/
def encodedSize (path : Path) : ℕ := ((hvAt path).map fun hv => hv.size.toNat).getD 0

/-- The counters are the number and the encoded sizes of the files at cache paths. -/
structure Matches (w : World) : Prop where
  count : w.cache.cacheCount.toNat = (cachedFiles w.files).card
  size : w.cache.cacheSize.toNat = ∑ path ∈ cachedFiles w.files, encodedSize path

/-- Every file whose name is a file id is at its cache path. -/
def Placed (files : Finset Path) : Prop :=
  ∀ path ∈ files, ∀ hv, fromFileid (fileName path) = some hv → hv.cachePath = path

theorem fileName_cachePath (hv : HVFile) : fileName hv.cachePath = hv.fileid := rfl

/-- The cache path of a file finds a file with the same id. -/
theorem hvAt_cachePath {hv : HVFile} (h : hv.Parsed) :
    ∃ hv', hvAt hv.cachePath = some hv' ∧ hv'.fileid = hv.fileid := by
  obtain ⟨hv', hparse, hid⟩ := h.exists_fromFileid
  have hhash := (HVFile.hash_size_of_fileid_eq hid).1
  refine ⟨hv', ?_, hid⟩
  rw [hvAt, fileName_cachePath, hparse]
  simp [HVFile.cachePath, hhash, hid]

/-! ## Ledgers -/

def AddFits (cache : CacheHandler) (hv : HVFile) : Prop :=
  cache.cacheCount.toNat + 1 < 2 ^ 32 ∧ cache.cacheSize.toNat + hv.size.toNat < 2 ^ 64

def RemoveFits (cache : CacheHandler) (hv : HVFile) : Prop :=
  1 ≤ cache.cacheCount.toNat ∧ hv.size.toNat ≤ cache.cacheSize.toNat

/-- A counter of the handler and what one file contributes to it. -/
structure Ledger where
  weight : HVFile → ℕ
  read : CacheHandler → ℕ
  weight_eq : ∀ {hv hv' : HVFile}, hv.fileid = hv'.fileid → weight hv = weight hv'
  read_added : ∀ {cache : CacheHandler} {hv : HVFile}, AddFits cache hv →
    read (cache.accountFileAdded hv) = read cache + weight hv
  read_removed : ∀ {cache : CacheHandler} {hv : HVFile}, RemoveFits cache hv →
    read (cache.accountFileRemoved hv) + weight hv = read cache
  read_eq : ∀ {cache cache' : CacheHandler}, cache.cacheCount = cache'.cacheCount →
    cache.cacheSize = cache'.cacheSize → read cache = read cache'

def countLedger : Ledger where
  weight _ := 1
  read cache := cache.cacheCount.toNat
  weight_eq _ := rfl
  read_added {cache hv} h := by
    rw [CacheHandler.accountFileAdded, if_pos h.1, if_pos h.2]
    simp only [UInt32.toNat_add, UInt32.toNat_one]
    exact Nat.mod_eq_of_lt h.1
  read_removed {cache hv} h := by
    rw [CacheHandler.accountFileRemoved, if_pos h.1, if_pos h.2]
    have hle : (1 : UInt32) ≤ cache.cacheCount := UInt32.le_iff_toNat_le.mpr h.1
    simp only [UInt32.toNat_sub_of_le _ _ hle, UInt32.toNat_one]
    exact Nat.sub_add_cancel h.1
  read_eq hcount _ := by rw [hcount]

def sizeLedger : Ledger where
  weight hv := hv.size.toNat
  read cache := cache.cacheSize.toNat
  weight_eq h := by rw [(HVFile.hash_size_of_fileid_eq h).2]
  read_added {cache hv} h := by
    rw [CacheHandler.accountFileAdded, if_pos h.1, if_pos h.2]
    simp only [UInt64.toNat_add, UInt32.toNat_toUInt64]
    exact Nat.mod_eq_of_lt h.2
  read_removed {cache hv} h := by
    rw [CacheHandler.accountFileRemoved, if_pos h.1, if_pos h.2]
    have hle : hv.size.toUInt64 ≤ cache.cacheSize :=
      UInt64.le_iff_toNat_le.mpr (by rw [UInt32.toNat_toUInt64]; exact h.2)
    simp only [UInt64.toNat_sub_of_le _ _ hle, UInt32.toNat_toUInt64]
    exact Nat.sub_add_cancel h.2
  read_eq _ hsize := by rw [hsize]

namespace Ledger

variable (ledger : Ledger)

def weightAt (path : Path) : ℕ := ((hvAt path).map ledger.weight).getD 0

/-- What the files on the disk add up to. -/
def onDisk (files : Finset Path) : ℕ := ∑ path ∈ files, ledger.weightAt path

/-- How far the counter is ahead of the disk. -/
def gap (w : World) : ℤ := (ledger.read w.cache : ℤ) - ledger.onDisk w.files

/-- What a task still has to add to the counter, or to take from it. -/
def owed (task : Task) : ℤ :=
  ((task.landed.map ledger.weight).getD 0 : ℕ) - ((task.removed.map ledger.weight).getD 0 : ℕ)

theorem weightAt_cachePath {hv : HVFile} (h : hv.Parsed) :
    ledger.weightAt hv.cachePath = ledger.weight hv := by
  obtain ⟨hv', hat, hid⟩ := hvAt_cachePath h
  rw [weightAt, hat, Option.map_some, Option.getD_some, ledger.weight_eq hid]

theorem gap_land {w : World} {path : Path} (h : path ∉ w.files) :
    ledger.gap (w.land path) + ledger.weightAt path = ledger.gap w := by
  have hsum : ledger.onDisk (insert path w.files) = ledger.weightAt path + ledger.onDisk w.files :=
    Finset.sum_insert h
  simp only [gap, World.land, hsum]
  omega

theorem gap_unlink {w : World} {path : Path} (h : path ∈ w.files) :
    ledger.gap (w.unlink path) - ledger.weightAt path = ledger.gap w := by
  have hsum : ledger.onDisk (w.unlink path).files + ledger.weightAt path = ledger.onDisk w.files :=
    Finset.sum_erase_add w.files ledger.weightAt h
  simp only [gap, ← hsum, World.unlink]
  omega

theorem gap_added {w : World} {hv : HVFile} (h : AddFits w.cache hv) :
    ledger.gap { w with cache := w.cache.accountFileAdded hv } = ledger.gap w + ledger.weight hv := by
  simp only [gap, ledger.read_added h]
  omega

theorem gap_removed {w : World} {hv : HVFile} (h : RemoveFits w.cache hv) :
    ledger.gap { w with cache := w.cache.accountFileRemoved hv } =
      ledger.gap w - ledger.weight hv := by
  simp only [gap, ← ledger.read_removed h]
  omega

/-- Nothing but the files and the two counters matters. -/
theorem gap_eq {w w' : World} (hfiles : w'.files = w.files)
    (hcounters : w'.cache.cacheCount = w.cache.cacheCount ∧
      w'.cache.cacheSize = w.cache.cacheSize) : ledger.gap w' = ledger.gap w := by
  rw [gap, gap, hfiles, ledger.read_eq hcounters.1 hcounters.2]

theorem owed_idle {task : Task} (hlanded : task.landed = none) (hremoved : task.removed = none) :
    ledger.owed task = 0 := by
  simp [owed, hlanded, hremoved]

theorem owed_landed {task : Task} {hv : HVFile} (hlanded : task.landed = some hv)
    (hremoved : task.removed = none) : ledger.owed task = ledger.weight hv := by
  simp [owed, hlanded, hremoved]

theorem owed_removed {task : Task} {hv : HVFile} (hlanded : task.landed = none)
    (hremoved : task.removed = some hv) : ledger.owed task = -ledger.weight hv := by
  simp [owed, hlanded, hremoved]

end Ledger

theorem countLedger_onDisk (files : Finset Path) :
    countLedger.onDisk files = (cachedFiles files).card := by
  rw [cachedFiles, Finset.card_filter]
  refine Finset.sum_congr rfl fun path _ => ?_
  cases h : hvAt path <;> simp [Ledger.weightAt, countLedger, h]

theorem sizeLedger_onDisk (files : Finset Path) :
    sizeLedger.onDisk files = ∑ path ∈ cachedFiles files, encodedSize path := by
  rw [cachedFiles, Finset.sum_filter]
  refine Finset.sum_congr rfl fun path _ => ?_
  cases h : hvAt path <;> simp [Ledger.weightAt, sizeLedger, encodedSize, h]

/-- The counters match when no ledger has a gap. -/
theorem matches_iff (w : World) : Matches w ↔ countLedger.gap w = 0 ∧ sizeLedger.gap w = 0 := by
  simp only [Ledger.gap, countLedger_onDisk, sizeLedger_onDisk, sub_eq_zero, Nat.cast_inj]
  exact ⟨fun h => ⟨h.count, h.size⟩, fun h => ⟨h.1, h.2⟩⟩

/-! ## Steps -/

/-- What a step has to respect: a file lands on a vacant path, one that has landed is
registered, and the counters stay within their types. -/
def Accountable (w : World) : Task → Act → Prop
  | .rename hv, .done => hv.cachePath ∉ w.files
  | .copy hv, .done => hv.cachePath ∉ w.files
  | .copying _, act => act = .done
  | .moved hv, act => act = .done ∧ AddFits w.cache hv
  | .unlinked hv, _ => RemoveFits w.cache hv
  | .recordPruned _ hv, _ => RemoveFits w.cache hv
  | _, _ => True

theorem Placed.insert {files : Finset Path} (h : Placed files) {hv : HVFile} (hp : hv.Parsed) :
    Placed (insert hv.cachePath files) := by
  intro path hpath hv' hname
  rcases Finset.mem_insert.mp hpath with rfl | hpath
  · obtain ⟨hv'', hparse, hid⟩ := hp.exists_fromFileid
    rw [fileName_cachePath, hparse] at hname
    obtain rfl := Option.some.inj hname
    simp [HVFile.cachePath, (HVFile.hash_size_of_fileid_eq hid).1, hid]
  · exact h path hpath hv' hname

theorem Placed.subset {files rest : Finset Path} (h : Placed files) (hsub : rest ⊆ files) :
    Placed rest := fun path hpath => h path (hsub hpath)

/-- The task is about a file whose id was parsed. -/
def FileParsed (task : Task) : Prop := ∀ hv, task.file = some hv → hv.Parsed

theorem keeps_placed :
    Pool.Keeps start advance Accountable (fun w => Placed w.files) FileParsed := by
  refine ⟨fun w tasks request task _ hstart => ?_, fun w task act w' next hplaced htask hacc h => ?_⟩
  · intro hv hfile
    cases request with
    | finalize fileid =>
      obtain ⟨hv', hparse, rfl⟩ := Option.map_eq_some_iff.mp hstart
      exact Option.some.inj hfile ▸ parsed_of_fromFileid hparse
    | delete fileid =>
      obtain ⟨hv', hparse, rfl⟩ := Option.map_eq_some_iff.mp hstart
      exact Option.some.inj hfile ▸ parsed_of_fromFileid hparse
    | prune build config now order =>
      simp only [start] at hstart
      split_ifs at hstart
      split at hstart
      · obtain rfl := Option.some.inj hstart
        cases hfile
      · cases hstart
  · have hsame : ∀ t : Task, t.file = task.file → ∀ t' ∈ some t, FileParsed t' := by
      rintro t ht _ ⟨⟩ hv hhv
      exact htask hv (ht ▸ hhv)
    cases advances_of_advance h with
    | rename hv => exact ⟨hplaced.insert (htask hv rfl), hsame _ rfl⟩
    | copy hv => exact ⟨hplaced.insert (htask hv rfl), hsame _ rfl⟩
    | copied hv => exact ⟨hplaced, hsame _ rfl⟩
    | leave hv => exact ⟨hplaced, by simp⟩
    | account hv => exact ⟨hplaced, hsame _ rfl⟩
    | mark hv hmark => exact ⟨hplaced, hsame _ rfl⟩
    | addRange hv now => exact ⟨hplaced, by simp⟩
    | unlink hv hmem =>
      exact ⟨hplaced.subset (Finset.erase_subset _ _), hsame _ rfl⟩
    | pruneValid pass file hv hmem hname =>
      exact ⟨hplaced.subset (Finset.erase_subset _ _), by simp [FileParsed, Task.file]⟩
    | pruneInvalid pass file hmem hname =>
      exact ⟨hplaced.subset (Finset.erase_subset _ _), by simp [FileParsed, Task.file]⟩
    | accountRemoved hv next hremoved hnext =>
      refine ⟨hplaced, fun t ht hv hhv => ?_⟩
      rw [(hnext t ht).1] at hhv
      cases hhv
    | applyResult result => exact ⟨hplaced, by simp⟩
    | idle hidle hnext => exact ⟨hplaced, fun t ht hv hhv => htask hv ((hnext t ht).2.2 hv hhv)⟩

theorem not_accountable_of_leave {w : World} {task : Task} {act : Act} {hv : HVFile}
    (hlanded : task.landed = some hv) (hact : act ≠ .done) : ¬ Accountable w task act := by
  cases task with
  | copying | moved => simp [Accountable, hact]
  | _ => cases hlanded

theorem removeFits_of_accountable {w : World} {task : Task} {act : Act} {hv : HVFile}
    (hremoved : task.removed = some hv) (hacc : Accountable w task act) :
    task.landed = none ∧ RemoveFits w.cache hv := by
  cases task with
  | unlinked | recordPruned =>
    obtain rfl := Option.some.inj hremoved
    exact ⟨rfl, hacc⟩
  | _ => cases hremoved

theorem conserves_ledger (ledger : Ledger) :
    Pool.Conserves start advance Accountable (fun w => Placed w.files) FileParsed ledger.gap
      ledger.owed := by
  refine ⟨fun w tasks request task hstart => ?_, fun w task act w' next hplaced htask hacc h => ?_⟩
  · cases request with
    | finalize fileid =>
      obtain ⟨hv, -, rfl⟩ := Option.map_eq_some_iff.mp hstart
      rfl
    | delete fileid =>
      obtain ⟨hv, -, rfl⟩ := Option.map_eq_some_iff.mp hstart
      rfl
    | prune build config now order =>
      simp only [start] at hstart
      split_ifs at hstart
      split at hstart
      · obtain rfl := Option.some.inj hstart
        rfl
      · cases hstart
  · cases advances_of_advance h with
    | rename hv =>
      have hgap := ledger.gap_land hacc
      rw [ledger.weightAt_cachePath (htask hv rfl)] at hgap
      rw [Pool.owedSum_some, ledger.owed_landed rfl rfl, ledger.owed_idle rfl rfl, hgap, add_zero]
    | copy hv =>
      have hgap := ledger.gap_land hacc
      rw [ledger.weightAt_cachePath (htask hv rfl)] at hgap
      rw [Pool.owedSum_some, ledger.owed_landed rfl rfl, ledger.owed_idle rfl rfl, hgap, add_zero]
    | copied hv => rfl
    | leave hv hlanded hact => exact absurd hacc (not_accountable_of_leave hlanded hact)
    | account hv =>
      rw [Pool.owedSum_some, ledger.owed_idle rfl rfl, ledger.gap_added hacc.2,
        ledger.owed_landed rfl rfl, add_zero]
    | mark hv hmark =>
      obtain ⟨lru, hlru⟩ := w.cache.markProxyFile_ok hv _
      obtain rfl := Except.ok.inj (hlru.symm.trans hmark)
      rw [Pool.owedSum_some, ledger.owed_idle rfl rfl, ledger.owed_idle rfl rfl]
      exact congrArg (· + 0) (ledger.gap_eq rfl ⟨rfl, rfl⟩)
    | addRange hv now =>
      rw [Pool.owedSum_none, ledger.owed_idle rfl rfl]
      exact congrArg (· + 0) (ledger.gap_eq rfl (w.cache.addStaticRange_counters hv now))
    | unlink hv hmem =>
      have hgap := ledger.gap_unlink hmem
      rw [ledger.weightAt_cachePath (htask hv rfl)] at hgap
      rw [Pool.owedSum_some, ledger.owed_removed rfl rfl, ledger.owed_idle rfl rfl, add_zero, ← hgap]
      exact (sub_eq_add_neg _ _).symm
    | pruneValid pass file hv hmem hname =>
      have hpath := hplaced file hmem hv hname
      have hgap := ledger.gap_unlink hmem
      rw [← hpath, ledger.weightAt_cachePath (parsed_of_fromFileid hname), hpath] at hgap
      rw [Pool.owedSum_some, ledger.owed_removed rfl rfl, ledger.owed_idle rfl rfl, add_zero, ← hgap]
      exact (sub_eq_add_neg _ _).symm
    | pruneInvalid pass file hmem hname =>
      -- A name that is no file id contributes to no ledger.
      have hgap := ledger.gap_unlink hmem
      have hweight : ledger.weightAt file = 0 := by simp [Ledger.weightAt, hvAt, hname]
      rw [Pool.owedSum_some, ledger.owed_idle rfl rfl, ledger.owed_idle rfl rfl, ← hgap, hweight]
      simp
    | accountRemoved hv next hremoved hnext =>
      obtain ⟨hlanded, hfits⟩ := removeFits_of_accountable hremoved hacc
      have hrest : Pool.owedSum ledger.owed next.toList = 0 := by
        cases next with
        | none => rfl
        | some t =>
          rw [Pool.owedSum_some]
          exact ledger.owed_idle (hnext t rfl).2.1 (hnext t rfl).2.2
      rw [hrest, ledger.gap_removed hfits, ledger.owed_removed hlanded hremoved, add_zero,
        sub_eq_add_neg]
    | applyResult result =>
      rw [Pool.owedSum_none, ledger.owed_idle rfl rfl]
      exact congrArg (· + 0) (ledger.gap_eq rfl (w.cache.applyPruneResult_counters result))
    | idle hidle hnext =>
      rw [ledger.owed_idle hidle.1 hidle.2]
      cases next with
      | none => rfl
      | some t => rw [Pool.owedSum_some, ledger.owed_idle (hnext t rfl).1 (hnext t rfl).2.1]

/-- In every run of finalizations, deletions and prune passes in which no file lands on an
occupied path, every file that lands is registered and no counter leaves its type, the
counters match the disk whenever nothing is in flight. -/
theorem counters_match_disk (w : World) (hmatch : Matches w) (hplaced : Placed w.files)
    (events : List Event) (hall : AllSteps step (Pool.Meets Accountable) ⟨w, []⟩ events)
    (s : System) (hrun : run step ⟨w, []⟩ events = some s) (hquiet : s.tasks = []) :
    Matches s.world := by
  have hgap : ∀ ledger : Ledger, ledger.gap s.world = ledger.gap w := by
    intro ledger
    have h := (conserves_ledger ledger).run keeps_placed ⟨hplaced, by simp⟩ hall hrun
    simpa [hquiet, Pool.owedSum] using h
  rw [matches_iff] at hmatch ⊢
  exact ⟨(hgap _).trans hmatch.1, (hgap _).trans hmatch.2⟩

/-! Two downloads of the same file, neither of which finds it cached. -/

def emptyWorld : World := ⟨∅, ∅, .empty, subset_rfl⟩

theorem matches_emptyWorld : Matches emptyWorld := ⟨by rfl, by rfl⟩

theorem finalized_counters {w : World} {hv : HVFile} (h : AddFits w.cache hv) (now : UInt64) :
    (w.finalized hv now).cache.cacheCount.toNat = w.cache.cacheCount.toNat + 1 ∧
      (w.finalized hv now).cache.cacheSize.toNat = w.cache.cacheSize.toNat + hv.size.toNat := by
  obtain ⟨hcount, hsize⟩ := (w.cache.accountFileAdded hv).addStaticRange_counters hv now
  exact ⟨(congrArg UInt32.toNat hcount).trans (countLedger.read_added h),
    (congrArg UInt64.toNat hsize).trans (sizeLedger.read_added h)⟩

theorem addFits_emptyWorld : AddFits emptyWorld.cache sampleFile := ⟨by decide, by decide⟩

/-- Both downloads are counted and there is one file. -/
theorem double_download_counts_twice :
    Matches emptyWorld ∧ Placed emptyWorld.files ∧
      ∃ s, run step ⟨emptyWorld, []⟩
          (finalizeEvents 0 sampleId 0 ++ finalizeEvents 0 sampleId 1) = some s ∧
        s.tasks = [] ∧ ¬ Matches s.world := by
  refine ⟨matches_emptyWorld, by simp [Placed, emptyWorld],
    ⟨(emptyWorld.finalized sampleFile 0).finalized sampleFile 1, []⟩, ?_, rfl, ?_⟩
  · have hrun : ∀ (w : World) (now : UInt64), run step ⟨w, []⟩ (finalizeEvents 0 sampleId now) =
        some ⟨w.finalized sampleFile now, []⟩ := fun w now =>
      run_finalizeEvents w [] rfl fromFileid_sampleId now
    rw [run_append, hrun, Option.bind_some, hrun]
  · intro h
    obtain ⟨hcount, hsize⟩ := finalized_counters addFits_emptyWorld 0
    have hfits : AddFits (emptyWorld.finalized sampleFile 0).cache sampleFile := by
      rw [AddFits, hcount, hsize]
      exact ⟨by decide, by decide⟩
    have htwo := (finalized_counters hfits 1).1.symm.trans h.count
    have hone : (cachedFiles ((emptyWorld.finalized sampleFile 0).finalized sampleFile 1).files).card
        ≤ 1 := by
      refine (Finset.card_filter_le _ _).trans ?_
      simp [World.finalized, emptyWorld]
    have hle := htwo.le.trans hone
    omega

theorem accountable_finalizeEvents {w : World} {fileid : Text} {hv : HVFile}
    (h : fromFileid fileid = some hv) (hvacant : hv.cachePath ∉ w.files) (hfits : AddFits w.cache hv)
    (now : UInt64) : AllSteps step (Pool.Meets Accountable) ⟨w, []⟩ (finalizeEvents 0 fileid now) := by
  simp [finalizeEvents, AllSteps, Pool.Meets, step, Pool.step, start, h, advance, advanceFinalize,
    Accountable, World.land, CacheHandler.markProxyFile, hvacant, hfits]

theorem counters_match_disk_download :
    ∃ s, run step ⟨emptyWorld, []⟩ (finalizeEvents 0 sampleId 0) = some s ∧ s.tasks = [] ∧
      s.world.files = {sampleFile.cachePath} ∧ Matches s.world := by
  have hrun := run_finalizeEvents emptyWorld [] rfl fromFileid_sampleId 0
  have hall := accountable_finalizeEvents (w := emptyWorld) fromFileid_sampleId
    (Finset.notMem_empty _) addFits_emptyWorld 0
  refine ⟨_, hrun, rfl, by simp [World.finalized, emptyWorld], ?_⟩
  exact counters_match_disk emptyWorld matches_emptyWorld (by simp [Placed, emptyWorld])
    (finalizeEvents 0 sampleId 0) hall _ hrun rfl

end HathRs.CacheAccounting
