import HathRs.CacheHandler
import HathRs.TornSnapshots

/-!
# Snapshots over many process lifetimes

A lifetime starts by trying to load the snapshot, clears it, works on the cache and may
save as its last action. It can end in any file operation. The trace records every
attempt to load, every lifetime that got past `CacheHandler::new`, every change of the
cache and every save that performed all its operations. The invariant is that a
snapshot on disk loads as the state of the last save and that nothing but attempts to
load has happened since.
-/

namespace HathRs.SnapshotLifetimes
open TextParsing HashMaps Digests CrashFiles BincodeFormat PersistentCache

/-- How `save_persistent_data` runs. A hash map may be iterated in any order. -/
structure SaveRun where
  order : IterationOrder Text UInt64
  saveFaults : List Fault
  discardFaults : List Fault

/-- One process. `rescanned` is what cleanup and rescan of the cache directory would build,
and a lifetime that fails or dies in the rest of `CacheHandler::new` does not complete its
startup. A load that meets a read error ends like a forced rescan. -/
structure Lifetime where
  rescanCache : Bool
  clearFaults : List Fault
  rescanned : CacheHandler
  startupCompletes : Bool
  mutations : List (CacheHandler → CacheHandler)
  save : Option SaveRun

inductive Event where
  | startup (loaded : Option PersistentCacheState)
  | passedNew
  | mutated
  | saved (state : PersistentCacheState)

def Event.isStartup : Event → Bool
  | .startup _ => true
  | _ => false

/-- The latest event that is not an attempt to load. -/
def lastAction (trace : List Event) : Option Event :=
  (trace.filter (fun e => !e.isStartup)).getLast?

variable (bincode : Bincode) (sha1 : Bytes → Sha1Digest)

/-- The save at the end of a lifetime. -/
def runSave (cache : CacheHandler) (disk : Disk DataPath) : Option SaveRun → Disk DataPath × List Event
  | none => (disk, [])
  | some run =>
    let order := run.order.iterate cache.staticRangeOldest
    let (_, left, outcome) :=
      cache.savePersistentData bincode sha1 order run.saveFaults run.discardFaults disk
    (left, if outcome = .ok then [.saved cache.persistentState] else [])

/-- Without a snapshot the cache directory is cleaned up and rescanned. -/
def rescanEvents : Option PersistentCacheState → List Event
  | none => [.mutated]
  | some _ => []

/-- The handler after the mutations of the lifetime. -/
def lastCache (life : Lifetime) (loaded : Option PersistentCacheState) : CacheHandler :=
  life.mutations.foldl (fun cache mutation => mutation cache)
    ((loaded.map CacheHandler.ofPersistent).getD life.rescanned)

/-- What follows a completed clearing: the rescan, the mutations and the save. -/
def runCleared (life : Lifetime) (loaded : Option PersistentCacheState) (disk : Disk DataPath) :
    Disk DataPath × List Event :=
  if life.startupCompletes then
    let result := runSave bincode sha1 (lastCache life loaded) disk life.save
    (result.1, rescanEvents loaded ++ [.passedNew] ++ life.mutations.map (fun _ => .mutated) ++ result.2)
  else (disk, rescanEvents loaded)

def runLifetime (disk : Disk DataPath) (life : Lifetime) : Disk DataPath × List Event :=
  let loaded := if life.rescanCache then none else tryLoad bincode sha1 disk
  match clear life.clearFaults disk with
  | (cleared, .ok) =>
    let (left, events) := runCleared bincode sha1 life loaded cleared
    (left, .startup loaded :: events)
  | (torn, _) => (torn, [.startup loaded])

def runLifetimes (disk : Disk DataPath) (lives : List Lifetime) : Disk DataPath × List Event :=
  lives.foldl
    (fun acc life =>
      let (left, events) := runLifetime bincode sha1 acc.1 life
      (left, acc.2 ++ events))
    (disk, [])

/-! ## The end of one lifetime -/

variable {bincode sha1}

theorem lastAction_append_saved (events : List Event) (state : PersistentCacheState) :
    lastAction (events ++ [.saved state]) = some (.saved state) := by
  simp [lastAction, List.filter_append, Event.isStartup]

theorem lastAction_append_startup (events : List Event) (loaded : Option PersistentCacheState) :
    lastAction (events ++ [.startup loaded]) = lastAction events := by
  simp [lastAction, List.filter_append, Event.isStartup]

/-- Clearing never makes a disk loadable. -/
theorem tryLoad_clear {disk : Disk DataPath} (h : tryLoad bincode sha1 disk = none)
    (faults : List Fault) : tryLoad bincode sha1 (clear faults disk).1 = none := by
  rcases clear_cases faults disk with ⟨hsame, -⟩ | hnone
  · rw [hsame, h]
  · exact tryLoad_of_info_eq_none bincode sha1 hnone

theorem tryLoad_saveFailed {disk : Disk DataPath} (h : tryLoad bincode sha1 disk = none)
    (cache : CacheHandler) (faults : List Fault) :
    tryLoad bincode sha1 (cache.saveFailed faults disk).2.1 = none :=
  tryLoad_clear h faults

/-- After the marker was removed, only a completed save leaves something to load. -/
theorem savePersistentData_current {cache : CacheHandler} {disk : Disk DataPath}
    (hd : disk pcacheInfo = none) {order : List (Entry Text UInt64)}
    (ho : Iterates order cache.staticRangeOldest) (saveFaults discardFaults : List Fault)
    {loaded : PersistentCacheState}
    (h : tryLoad bincode sha1 (cache.savePersistentData bincode sha1 order saveFaults discardFaults
      disk).2.1 = some loaded) :
    (cache.savePersistentData bincode sha1 order saveFaults discardFaults disk).2.2 = .ok ∧
      loaded = cache.persistentState := by
  have hnone := tryLoad_of_info_eq_none bincode sha1 hd
  have hsave : ∀ other, tryLoad bincode sha1 (save bincode sha1 cache.persistentState order saveFaults
      disk).1 = some other → _ := fun _ => tryLoad_save bincode sha1 ho saveFaults hd
  unfold CacheHandler.savePersistentData at h ⊢
  split_ifs at h ⊢ with hvalid
  · rw [tryLoad_saveFailed hnone] at h
    cases h
  · generalize save bincode sha1 cache.persistentState order saveFaults disk = result at h hsave ⊢
    obtain ⟨left, outcome⟩ := result
    cases outcome with
    | ok => exact ⟨rfl, (hsave loaded h).2⟩
    | failed =>
      have htorn : tryLoad bincode sha1 left = none := by
        rw [Option.eq_none_iff_forall_ne_some]
        intro other hother
        cases (hsave other hother).1
      rw [tryLoad_saveFailed htorn] at h
      cases h
    | crashed => cases (hsave loaded h).1

theorem runSave_current {cache : CacheHandler} {disk : Disk DataPath} (hd : disk pcacheInfo = none)
    (run : Option SaveRun) {loaded : PersistentCacheState}
    (h : tryLoad bincode sha1 (runSave bincode sha1 cache disk run).1 = some loaded) :
    (runSave bincode sha1 cache disk run).2 = [.saved loaded] := by
  cases run with
  | none =>
    rw [runSave, tryLoad_of_info_eq_none bincode sha1 hd] at h
    cases h
  | some run =>
    obtain ⟨hok, rfl⟩ := savePersistentData_current hd (run.order.iterates _) _ _ h
    exact if_pos hok

theorem runCleared_current {life : Lifetime} {loaded : Option PersistentCacheState}
    {disk : Disk DataPath} (hd : disk pcacheInfo = none) {next : PersistentCacheState}
    (h : tryLoad bincode sha1 (runCleared bincode sha1 life loaded disk).1 = some next) :
    ∃ front, (runCleared bincode sha1 life loaded disk).2 = front ++ [.saved next] := by
  by_cases hstart : life.startupCompletes = true
  · rw [runCleared, if_pos hstart] at h ⊢
    exact ⟨_, congrArg (_ ++ ·) (runSave_current hd life.save h)⟩
  · rw [runCleared, if_neg hstart, tryLoad_of_info_eq_none bincode sha1 hd] at h
    cases h

theorem runCleared_not_startup {life : Lifetime} {loaded : Option PersistentCacheState}
    {disk : Disk DataPath} {e : Event} (he : e ∈ (runCleared bincode sha1 life loaded disk).2) :
    e.isStartup = false := by
  have hrescan : ∀ e ∈ rescanEvents loaded, e.isStartup = false := by
    cases loaded <;> simp [rescanEvents, Event.isStartup]
  have hsaved : ∀ cache, ∀ e ∈ (runSave bincode sha1 cache disk life.save).2,
      e.isStartup = false := by
    intro cache
    cases life.save with
    | none => simp [runSave]
    | some run =>
      simp only [runSave]
      split <;> simp [Event.isStartup]
  by_cases hstart : life.startupCompletes = true
  · rw [runCleared, if_pos hstart] at he
    simp only [List.mem_append, List.mem_map, List.mem_singleton] at he
    rcases he with ((he | rfl) | ⟨_, -, rfl⟩) | he
    · exact hrescan e he
    · rfl
    · rfl
    · exact hsaved _ e he
  · rw [runCleared, if_neg hstart] at he
    exact hrescan e he

/-! ## Whole runs -/

variable (bincode sha1) in
/-- A disk that loads holds the state of the last save, and so did every disk that was
loaded before. -/
structure SnapshotInvariant (disk : Disk DataPath) (trace : List Event) : Prop where
  current : ∀ loaded, tryLoad bincode sha1 disk = some loaded →
    lastAction trace = some (.saved loaded)
  justified : ∀ before after loaded, trace = before ++ .startup (some loaded) :: after →
    lastAction before = some (.saved loaded)

theorem snapshotInvariant_initial {disk : Disk DataPath} (h : tryLoad bincode sha1 disk = none) :
    SnapshotInvariant bincode sha1 disk [] where
  current loaded hload := by
    rw [h] at hload
    cases hload
  justified before after loaded heq := by simp at heq

/-- The events of a lifetime are its attempt to load and events of other kinds. -/
theorem SnapshotInvariant.justified_append {disk : Disk DataPath} {trace tail : List Event}
    (h : SnapshotInvariant bincode sha1 disk trace) {attempt : Option PersistentCacheState}
    (ha : ∀ loaded, attempt = some loaded → tryLoad bincode sha1 disk = some loaded)
    (ht : ∀ e ∈ tail, e.isStartup = false) {before after : List Event}
    {loaded : PersistentCacheState}
    (heq : trace ++ .startup attempt :: tail = before ++ .startup (some loaded) :: after) :
    lastAction before = some (.saved loaded) := by
  rcases List.append_eq_append_iff.mp heq with ⟨mid, rfl, hrest⟩ | ⟨mid, rfl, hrest⟩
  · cases mid with
    | nil =>
      obtain ⟨hattempt, -⟩ := List.cons.inj hrest
      rw [List.append_nil]
      exact h.current loaded (ha loaded (Event.startup.inj hattempt))
    | cons e mid =>
      obtain ⟨-, htail⟩ := List.cons.inj hrest
      have hfalse := ht (.startup (some loaded)) (by rw [htail]; simp)
      cases hfalse
  · cases mid with
    | nil =>
      obtain ⟨hattempt, -⟩ := List.cons.inj hrest
      rw [List.append_nil] at h
      exact h.current loaded (ha loaded (Event.startup.inj hattempt.symm))
    | cons e mid =>
      obtain ⟨rfl, -⟩ := List.cons.inj hrest
      exact h.justified before mid loaded rfl

theorem SnapshotInvariant.runLifetime {disk : Disk DataPath} {trace : List Event}
    (h : SnapshotInvariant bincode sha1 disk trace) (life : Lifetime) :
    SnapshotInvariant bincode sha1 (runLifetime bincode sha1 disk life).1
      (trace ++ (runLifetime bincode sha1 disk life).2) := by
  have hattempt : ∀ loaded, (if life.rescanCache then none else tryLoad bincode sha1 disk) =
      some loaded → tryLoad bincode sha1 disk = some loaded := by
    intro loaded hload
    split_ifs at hload
    exact hload
  have hclear := clear_cases life.clearFaults disk
  unfold SnapshotLifetimes.runLifetime
  generalize (if life.rescanCache then none else tryLoad bincode sha1 disk) = attempt at hattempt ⊢
  generalize clear life.clearFaults disk = result at hclear ⊢
  obtain ⟨cleared, outcome⟩ := result
  -- A startup that ends while clearing has removed the marker or changed nothing.
  have hended : SnapshotInvariant bincode sha1 cleared (trace ++ [.startup attempt]) := by
    refine ⟨fun loaded hload => ?_, fun before after loaded heq => ?_⟩
    · rcases hclear with ⟨rfl, -⟩ | hnone
      · rw [lastAction_append_startup]
        exact h.current loaded hload
      · rw [tryLoad_of_info_eq_none bincode sha1 hnone] at hload
        cases hload
    · exact h.justified_append hattempt (by simp) heq
  cases outcome with
  | ok =>
    have hd : cleared pcacheInfo = none := hclear.resolve_left (fun hne => hne.2 rfl)
    refine ⟨fun loaded hload => ?_, fun before after loaded heq => ?_⟩
    · obtain ⟨front, hfront⟩ := runCleared_current hd hload
      simp only [hfront]
      rw [← List.cons_append, ← List.append_assoc]
      exact lastAction_append_saved _ _
    · exact h.justified_append hattempt (fun e he => runCleared_not_startup he) heq
  | failed => exact hended
  | crashed => exact hended

theorem SnapshotInvariant.runLifetimes {disk : Disk DataPath}
    (h : tryLoad bincode sha1 disk = none) (lives : List Lifetime) :
    SnapshotInvariant bincode sha1 (runLifetimes bincode sha1 disk lives).1
      (runLifetimes bincode sha1 disk lives).2 := by
  induction lives using List.reverseRecOn with
  | nil => exact snapshotInvariant_initial h
  | append_singleton lives life ih =>
    rw [SnapshotLifetimes.runLifetimes, List.foldl_concat]
    exact ih.runLifetime life

/-- The last action of a trace stands in front of attempts to load only. -/
theorem exists_of_lastAction {trace : List Event} {action : Event}
    (h : lastAction trace = some action) :
    ∃ earlier attempts, trace = earlier ++ action :: attempts ∧
      ∀ e ∈ attempts, ∃ attempt, e = .startup attempt := by
  induction trace using List.reverseRecOn with
  | nil => cases h
  | append_singleton trace e ih =>
    cases e with
    | startup attempt =>
      rw [lastAction_append_startup] at h
      obtain ⟨earlier, attempts, rfl, hall⟩ := ih h
      refine ⟨earlier, attempts ++ [.startup attempt], by simp, ?_⟩
      intro e he
      rcases List.mem_append.mp he with he | he
      · exact hall e he
      · exact ⟨attempt, List.mem_singleton.mp he⟩
    | passedNew =>
      obtain rfl : Event.passedNew = action := by simpa [lastAction, Event.isStartup] using h
      exact ⟨trace, [], rfl, by simp⟩
    | mutated =>
      obtain rfl : Event.mutated = action := by simpa [lastAction, Event.isStartup] using h
      exact ⟨trace, [], rfl, by simp⟩
    | saved state =>
      obtain rfl : Event.saved state = action := by simpa [lastAction, Event.isStartup] using h
      exact ⟨trace, [], rfl, by simp⟩

/-- Whatever happens over any number of lifetimes, a startup only loads the state of a save
that was completed and since which no lifetime has got past its startup or changed the
cache. No beginning of a marker is ever loaded. -/
theorem loaded_snapshot_is_last_saved (bincode : Bincode) (sha1 : Bytes → Sha1Digest)
    (disk : Disk DataPath) (h : tryLoad bincode sha1 disk = none) (lives : List Lifetime) :
    (∀ before after loaded, (runLifetimes bincode sha1 disk lives).2 =
        before ++ .startup (some loaded) :: after →
      ∃ earlier attempts, before = earlier ++ .saved loaded :: attempts ∧
        ∀ e ∈ attempts, ∃ attempt, e = .startup attempt) ∧
    ∀ state order snap, snapshot bincode sha1 state order = some snap →
      ∀ n < snap.info.length, ∀ other : Disk DataPath, other pcacheInfo = some (snap.info.take n) →
        tryLoad bincode sha1 other = none := by
  refine ⟨fun before after loaded heq => ?_, fun state order snap hs n hn other ho => ?_⟩
  · exact exists_of_lastAction
      ((SnapshotInvariant.runLifetimes h lives).justified before after loaded heq)
  · simp only [snapshot, bind, pure, Option.bind_eq_some_iff, Option.some.injEq] at hs
    obtain ⟨agesData, -, lruData, -, rfl⟩ := hs
    exact tryLoad_of_torn_info bincode sha1 hn ho

/-! A process that saves, followed by one that loads the snapshot. -/

def zeroDigest (_ : Bytes) : Sha1Digest := Vector.replicate 20 0

noncomputable def savingLifetime : Lifetime where
  rescanCache := false
  clearFaults := []
  rescanned := CacheHandler.empty
  startupCompletes := true
  mutations := []
  save := some ⟨Classical.arbitrary _, [], []⟩

theorem exists_snapshot_empty {order : List (Entry Text UInt64)}
    (ho : Iterates order CacheHandler.empty.staticRangeOldest) :
    ∃ snap, snapshot fixint zeroDigest CacheHandler.empty.persistentState order = some snap := by
  have hlen : order.length = 0 := ho.length_eq
  obtain rfl := List.length_eq_zero_iff.mp hlen
  have htable : CacheHandler.empty.persistentState.lruCacheTable.length < 256 ^ 8 := by
    rw [show CacheHandler.empty.persistentState.lruCacheTable.length = lruCacheSize from
      CacheHandler.empty.lru.length_table]
    decide
  obtain ⟨data, hdata⟩ := exists_serializeTable htable
  exact ⟨_, snapshot_eq_some fixint zeroDigest rfl hdata⟩

theorem exists_startup_event (bincode : Bincode) (sha1 : Bytes → Sha1Digest) (disk : Disk DataPath)
    (life : Lifetime) (h : life.rescanCache = false) :
    ∃ tail, (runLifetime bincode sha1 disk life).2 = .startup (tryLoad bincode sha1 disk) :: tail := by
  simp only [runLifetime, h, Bool.false_eq_true, if_false]
  split <;> exact ⟨_, rfl⟩

theorem savingLifetime_saves (disk : Disk DataPath) (h : tryLoad fixint zeroDigest disk = none) :
    (runLifetime fixint zeroDigest disk savingLifetime).2 =
      [.startup none, .mutated, .passedNew, .saved CacheHandler.empty.persistentState] ∧
    tryLoad fixint zeroDigest (runLifetime fixint zeroDigest disk savingLifetime).1 =
      some CacheHandler.empty.persistentState := by
  have ho := (Classical.arbitrary (IterationOrder Text UInt64)).iterates
    CacheHandler.empty.staticRangeOldest
  obtain ⟨snap, hs⟩ := exists_snapshot_empty ho
  have hclear : clear [] disk = ((clear [] disk).1, .ok) := rfl
  obtain ⟨left, hsave, hstored⟩ := save_nil fixint zeroDigest hs (clear [] disk).1
  have hrun : runLifetime fixint zeroDigest disk savingLifetime =
      (left, [.startup none, .mutated, .passedNew, .saved CacheHandler.empty.persistentState]) := by
    have hvalid : (!CacheHandler.empty.persistentStateValid) = false := rfl
    rw [runLifetime]
    simp only [savingLifetime, h, Bool.false_eq_true, if_false]
    rw [hclear]
    simp only [runCleared, runSave, lastCache, rescanEvents, if_true, List.foldl_nil, List.map_nil,
      Option.map_none, Option.getD_none, CacheHandler.savePersistentData, hvalid, hsave,
      Bool.false_eq_true, if_false]
    rfl
  rw [hrun]
  exact ⟨rfl, tryLoad_of_snapshot fixint zeroDigest ho hs hstored⟩

theorem loaded_snapshot_is_last_saved_restart :
    ∃ before after loaded earlier attempts,
      (runLifetimes fixint zeroDigest (fun _ => none) [savingLifetime, savingLifetime]).2 =
        before ++ .startup (some loaded) :: after ∧
      before = earlier ++ .saved loaded :: attempts ∧ ∀ e ∈ attempts, ∃ a, e = .startup a := by
  have hempty : tryLoad fixint zeroDigest (fun _ => none) = none := rfl
  obtain ⟨hfirst, hload⟩ := savingLifetime_saves (fun _ => none) hempty
  have htrace : ∃ after, (runLifetimes fixint zeroDigest (fun _ => none)
      [savingLifetime, savingLifetime]).2 =
        [.startup none, .mutated, .passedNew, .saved CacheHandler.empty.persistentState] ++
          .startup (some CacheHandler.empty.persistentState) :: after := by
    simp only [runLifetimes, List.foldl_cons, List.foldl_nil, List.nil_append, hfirst]
    obtain ⟨after, hafter⟩ := exists_startup_event fixint zeroDigest
      (runLifetime fixint zeroDigest (fun _ => none) savingLifetime).1 savingLifetime rfl
    exact ⟨after, by rw [hafter, hload]⟩
  obtain ⟨after, hafter⟩ := htrace
  obtain ⟨earlier, attempts, heq, hall⟩ :=
    (loaded_snapshot_is_last_saved fixint zeroDigest (fun _ => none) hempty
      [savingLifetime, savingLifetime]).1 _ after _ hafter
  exact ⟨_, after, _, earlier, attempts, hafter, heq, hall⟩

end HathRs.SnapshotLifetimes
