import HathRs.SnapshotLifetimes
import HathRs.TaskLifecycles
import HathRs.TransitionRuns

/-!
# The run of the client up to its last snapshot

The main task starts the server, announces the client, spawns the background tasks and
waits; a shutdown request can interrupt it anywhere. It then joins the background tasks,
stops the server, drains the transfers, each within a deadline, and saves the cache if all
three reported a clean end. Meanwhile every other task takes steps of its own: background
tasks end, the certificate watcher exchanges the server generation, the generations accept
and join connections, transfers are spawned and end, and any of them changes the cache.
-/

namespace HathRs.ShutdownRun
open HashMaps CrashFiles BincodeFormat PersistentCache Digests FileIds
open SnapshotLifetimes TaskLifecycles TransitionRuns

/-! ## The parties -/

/-- The tasks of `spawn_background_tasks`, in the order they are tracked. -/
def backgroundTasks : List String :=
  ["cache-pruner", "cache-periodic-stats", "flood-control-pruner", "session-reaper",
    "still-alive-heartbeat", "time-cert-check", "rpc-failure-clearer", "blacklist-fetcher",
    "cert-refresh-watcher"]

/-- The place of the certificate watcher among them. -/
def certRefreshWatcher : ℕ := 8

/-- Where `run_with_cache` stands. -/
inductive Main where
  | startingServer
  | awaitingReady
  | clientStarting
  /-- The settings and the blacklist are fetched, and listed files deleted. -/
  | refreshing
  /-- The connection test failed, and the client waits for the shutdown. -/
  | pending
  | operating
  | clientStopping
  | joiningBackground
  /-- The task at the front was aborted after the deadline. -/
  | awaitingAborted
  | abortingRemaining
  | stoppingServer
  | drainingServer
  | abortingServer
  | takingTransfers
  | drainingTransfers
  | abortingTransfers
  | saving
  | done
  deriving DecidableEq

/-- The part of `run_with_cache` inside the `select!` with the shutdown. -/
def Main.inOperation : Main → Bool
  | .startingServer | .awaitingReady | .clientStarting | .refreshing | .pending | .operating => true
  | _ => false

/-- `stop_server` has returned. -/
def Main.serverStopped : Main → Bool
  | .takingTransfers | .drainingTransfers | .abortingTransfers | .saving | .done => true
  | _ => false

/-- `join_for` has returned. -/
def Main.backgroundJoined : Main → Bool
  | .stoppingServer | .drainingServer | .abortingServer => true
  | main => main.serverStopped

/-- `finish` has taken the transfers. -/
def Main.transfersTaken : Main → Bool
  | .drainingTransfers | .abortingTransfers | .saving | .done => true
  | _ => false

/-- Where the certificate watcher stands in its loop. -/
inductive Refresh where
  | idle
  | draining
  | aborting
  | retired
  | starting
  deriving DecidableEq

/-- What a task does to the handler. -/
inductive CacheChange where
  | added (hv : HVFile)
  | removed (hv : HVFile)
  /-- Files are marked, or a part of the table is cleared. -/
  | lru (next : LruState)
  | aged (hv : HVFile) (now : UInt64)
  | pruned (result : PruneResult)

namespace CacheChange

def apply (cache : CacheHandler) : CacheChange → CacheHandler
  | .added hv => cache.accountFileAdded hv
  | .removed hv => cache.accountFileRemoved hv
  | .lru next => { cache with lru := next }
  | .aged hv now => cache.addStaticRange hv now
  | .pruned result => cache.applyPruneResult result

/-- A counter overflows or underflows. -/
def detects (cache : CacheHandler) : CacheChange → Bool
  | .added hv =>
    !(cache.cacheCount.toNat + 1 < 2 ^ 32 && cache.cacheSize.toNat + hv.size.toNat < 2 ^ 64)
  | .removed hv => !(1 ≤ cache.cacheCount.toNat && hv.size.toNat ≤ cache.cacheSize.toNat)
  | _ => false

theorem apply_valid (cache : CacheHandler) (change : CacheChange) :
    (change.apply cache).persistentStateValid =
      (cache.persistentStateValid && !change.detects cache) := by
  cases change with
  | added hv =>
    simp only [apply, detects, CacheHandler.accountFileAdded, CacheHandler.invalidateAccounting]
    split_ifs with hcount hsize <;> simp [*, -Nat.reducePow]
  | removed hv =>
    simp only [apply, detects, CacheHandler.accountFileRemoved, CacheHandler.invalidateAccounting]
    split_ifs with hcount hsize <;> simp [*, -Nat.reducePow]
  | lru next => simp [apply, detects]
  | aged hv now =>
    simp only [apply, detects, CacheHandler.addStaticRange]
    split_ifs <;> simp
  | pruned result =>
    simp only [apply, detects, CacheHandler.applyPruneResult]
    split_ifs <;> simp

end CacheChange

/-! ## The state -/

/-- `generations` are all the servers ever started, and `current` is the one that the
generation slot holds. `handles` are the places of the background tasks still to be joined.
The three flags are what `join_for`, `stop_server` and `finish` return. `timedOut` tells that
one of the three ran into its deadline, `detected` that a counter ever overflowed or
underflowed. -/
structure State where
  main : Main
  shutdown : Bool
  background : List Status
  handles : List ℕ
  refresh : Refresh
  generations : List Generation
  current : Option ℕ
  transfers : TransferTasks
  cache : CacheHandler
  disk : Disk DataPath
  backgroundClean : Bool
  serverClean : Bool
  transfersClean : Bool
  timedOut : Bool
  detected : Bool
  saved : Option Outcome

/-- A handler that is already marked has had an overflow before the run. -/
def State.start (cache : CacheHandler) (disk : Disk DataPath) : State where
  main := .startingServer
  shutdown := false
  background := []
  handles := []
  refresh := .idle
  generations := []
  current := none
  transfers := .new
  cache := cache
  disk := disk
  backgroundClean := true
  serverClean := true
  transfersClean := true
  timedOut := false
  detected := !cache.persistentStateValid
  saved := none

namespace State

def fail (s : State) : State := { s with shutdown := true }

def invalidate (s : State) : State := { s with transfers := s.transfers.invalidate }

def currentGeneration (s : State) : Option (ℕ × Generation) :=
  s.current.bind fun index => s.generations[index]?.map fun g => (index, g)

/-- `start_server` up to the point where it waits for the server to be ready. -/
def install (s : State) : State :=
  { s with generations := s.generations ++ [.start], current := some s.generations.length }

def cancelStop (s : State) (index : ℕ) : State :=
  { s with generations := s.generations.modify index fun g => { g with stop := true } }

def abortServer (s : State) (index : ℕ) : State :=
  { s with generations := s.generations.modify index fun g => { g with task := g.task.abort } }

/-- `abort_remaining` on the handles that are left. -/
def abortRemaining (s : State) (rest : List ℕ) : State :=
  { s with
    main := .abortingRemaining
    handles := rest
    background := rest.foldl (fun tasks index => tasks.modify index Status.abort) s.background
    backgroundClean := false }

/-- Some task that can change the cache is still there. -/
def working (s : State) : Bool :=
  s.main == .refreshing || s.background.any Status.live ||
    s.generations.any (fun g => g.task.live || g.connections.any Status.live) ||
    s.transfers.tasks.any Status.live

/-- `clean` in `run_with_cache` -/
def clean (s : State) : Bool := s.backgroundClean && s.serverClean && s.transfersClean

end State

/-! ## The steps of the main task -/

inductive OperationEvent where
  | startServer
  | serverReady
  /-- `start_server` or `client_start` returns an error. -/
  | startupFails
  | clientStarted (ok : Bool)
  | startupCompletes
  | interrupted
  | backgroundStops (index : ℕ)

/-- The operation inside the `select!`. -/
def operationStep (s : State) : OperationEvent → Option State
  | .startServer =>
    if s.main = .startingServer then
      if s.shutdown || s.current.isSome then some { s.fail with main := .clientStopping }
      else some { s.install with main := .awaitingReady }
    else none
  | .serverReady =>
    if s.main = .awaitingReady ∧ s.currentGeneration.any (fun g => g.2.phase != .starting) then
      some { s with main := .clientStarting }
    else none
  | .startupFails =>
    if s.main = .awaitingReady ∨ s.main = .clientStarting then
      some { s.fail with main := .clientStopping }
    else none
  | .clientStarted ok =>
    if s.main = .clientStarting then some { s with main := if ok then .refreshing else .pending }
    else none
  | .startupCompletes =>
    if s.main = .refreshing then
      some { s with
        main := .operating
        background := backgroundTasks.map fun _ => .running
        handles := List.range backgroundTasks.length }
    else none
  | .interrupted =>
    if s.main.inOperation ∧ s.shutdown then some { s with main := .clientStopping } else none
  -- `wait_for_failure` takes the handle of any task that ended, however it did
  | .backgroundStops index =>
    if s.main = .operating ∧ (s.handles[index]?.bind (s.background[·]?)).any (fun t => !t.live) then
      some { s.fail.invalidate with main := .clientStopping, handles := s.handles.eraseIdx index }
    else none

inductive JoinEvent where
  | clientStopped
  | joinBackground
  | joinTimesOut
  | abortedEnds
  | remainingEnd

/-- `join_for`, after the notification of the server. -/
def joinStep (s : State) : JoinEvent → Option State
  | .clientStopped =>
    if s.main = .clientStopping then some { s with main := .joiningBackground } else none
  | .joinBackground =>
    if s.main = .joiningBackground then
      match s.handles with
      | [] => some { s with main := .stoppingServer }
      | index :: rest =>
        s.background[index]?.bind fun task =>
          if task.live then none
          else if task.joinsOk then some { s with handles := rest }
          else some (s.abortRemaining rest)
    else none
  | .joinTimesOut =>
    if s.main = .joiningBackground then
      s.handles.head?.map fun index =>
        { s with
          main := .awaitingAborted
          background := s.background.modify index Status.abort
          backgroundClean := false
          timedOut := true }
    else none
  | .abortedEnds =>
    if s.main = .awaitingAborted then
      match s.handles with
      | [] => none
      | index :: rest =>
        s.background[index]?.bind fun task =>
          if task.live then none else some (s.abortRemaining rest)
    else none
  | .remainingEnd =>
    if s.main = .abortingRemaining ∧ s.handles.all (fun i => s.background[i]?.all (!·.live)) then
      some { s with main := .stoppingServer, handles := [], backgroundClean := false }
    else none

inductive StopEvent where
  | stopServer
  | serverEnds
  | serverTimesOut
  | serverAborted

/-- `stop_server` with the deadline of the shutdown. -/
def stopStep (s : State) : StopEvent → Option State
  | .stopServer =>
    if s.main = .stoppingServer then
      match s.current with
      | none => some { s with main := .takingTransfers }
      | some index => some { s.cancelStop index with main := .drainingServer }
    else none
  | .serverEnds =>
    if s.main = .drainingServer then
      s.currentGeneration.bind fun (_, g) =>
        if g.task.live then none
        else if g.task.joinsOk then some { s with main := .takingTransfers, current := none }
        else some { s.invalidate with
          main := .takingTransfers, current := none, serverClean := false }
    else none
  | .serverTimesOut =>
    if s.main = .drainingServer then
      s.current.map fun index =>
        { s.abortServer index with main := .abortingServer, serverClean := false, timedOut := true }
    else none
  | .serverAborted =>
    if s.main = .abortingServer then
      s.currentGeneration.bind fun (_, g) =>
        if g.task.live then none
        else some { s.invalidate with
          main := .takingTransfers, current := none, serverClean := false }
    else none

inductive FinishEvent where
  | takeTransfers
  | joinTransfer (index : ℕ)
  | transfersTimeOut
  | transfersJoined

/-- `TransferTasks::finish` -/
def finishStep (s : State) : FinishEvent → Option State
  | .takeTransfers =>
    if s.main = .takingTransfers then
      some { s with main := .drainingTransfers, transfers := s.transfers.close }
    else none
  | .joinTransfer index =>
    if s.main = .drainingTransfers ∨ s.main = .abortingTransfers then
      (s.transfers.joinNext index).map fun transfers => { s with transfers := transfers }
    else none
  | .transfersTimeOut =>
    if s.main = .drainingTransfers ∧ s.transfers.tasks ≠ [] then
      some { s with
        main := .abortingTransfers, transfers := s.transfers.abortAll, timedOut := true }
    else none
  | .transfersJoined =>
    if (s.main = .drainingTransfers ∨ s.main = .abortingTransfers) ∧ s.transfers.tasks = [] then
      some { s with main := .saving, transfersClean := s.transfers.clean }
    else none

section Saving

variable (bincode : Bincode) (sha1 : Bytes → Sha1Digest)

/-- The outcome is `ok` when `save_shutdown_cache` returns `Ok`. -/
def saveShutdownCache (cache : CacheHandler) (quiescent : Bool) (attempt : SaveRun)
    (disk : Disk DataPath) : CacheHandler × Disk DataPath × Outcome :=
  if !quiescent then
    let (cache, cleared, outcome) := cache.discardPersistentData attempt.discardFaults disk
    (cache, cleared, if outcome = .crashed then .crashed else .failed)
  else
    cache.savePersistentData bincode sha1 (attempt.order.iterate cache.staticRangeOldest)
      attempt.saveFaults attempt.discardFaults disk

def saveStep (s : State) (attempt : SaveRun) : Option State :=
  if s.main = .saving then
    let (cache, disk, outcome) := saveShutdownCache bincode sha1 s.cache s.clean attempt s.disk
    some { s with main := .done, cache := cache, disk := disk, saved := some outcome }
  else none

end Saving

/-! ## The steps of the other tasks -/

inductive WatcherEvent where
  | stop
  | drained
  | timesOut
  | aborted
  | start
  | ready
  | startFails

namespace State

/-- The watcher leaves its loop. -/
def endWatcher (s : State) : State :=
  { s with background := s.background.set certRefreshWatcher .finished }

/-- A generation that was not drained is fatal to the process. -/
def failRefresh (s : State) : State := { s.fail.invalidate.endWatcher with current := none }

end State

/-- A refresh of the certificate: `stop_server` and `start_server` from the watcher. The
watcher can also end at any point, when the shutdown drops what it is doing, and then an
aborted generation stays in its slot. -/
def watcherStep (s : State) (event : WatcherEvent) : Option State :=
  if s.background[certRefreshWatcher]?.any Status.live then
    match event with
    | .stop =>
      if s.refresh = .idle then
        match s.current with
        | none => some { s with refresh := .retired }
        | some index => some { s.cancelStop index with refresh := .draining }
      else none
    | .drained =>
      if s.refresh = .draining then
        s.currentGeneration.bind fun (_, g) =>
          if g.task.live then none
          else if g.task.joinsOk then some { s with refresh := .retired, current := none }
          else some s.failRefresh
      else none
    | .timesOut =>
      if s.refresh = .draining then
        s.current.map fun index => { s.abortServer index with refresh := .aborting }
      else none
    | .aborted =>
      if s.refresh = .aborting then
        s.currentGeneration.bind fun (_, g) => if g.task.live then none else some s.failRefresh
      else none
    | .start =>
      if s.refresh = .retired then
        if s.shutdown then some s.endWatcher
        else if s.current.isSome then some s.fail.endWatcher
        else some { s.install with refresh := .starting }
      else none
    | .ready =>
      if s.refresh = .starting ∧ s.currentGeneration.any (fun g => g.2.phase != .starting) then
        some { s with refresh := .idle }
      else none
    | .startFails => if s.refresh = .starting then some s.fail.endWatcher else none
  else none

inductive Event where
  | operation (event : OperationEvent)
  | join (event : JoinEvent)
  | stop (event : StopEvent)
  | finish (event : FinishEvent)
  | save (attempt : SaveRun)
  | watcher (event : WatcherEvent)
  | server (index : ℕ) (event : ServerEvent)
  | backgroundEnds (index : ℕ) (outcome : Status)
  | spawnTransfer
  | transferEnds (index : ℕ) (outcome : Status)
  /-- A signal, or `shutdown.fail` in any task. -/
  | requestShutdown
  | change (change : CacheChange)

/-- The effect of a generation on the rest of the process. -/
def State.affect (s : State) : Effect → State
  | .quiet => s
  | .fails => s.fail
  | .invalidates => s.invalidate.fail

def serverStep (s : State) (index : ℕ) (event : ServerEvent) : Option State :=
  s.generations[index]?.bind fun g => (g.step event).map fun (g', effect) =>
    State.affect { s with generations := s.generations.set index g' } effect

def backgroundStep (s : State) (index : ℕ) (outcome : Status) : Option State :=
  s.background[index]?.bind fun task =>
    if task.canEnd outcome && outcome != .caught then
      some { s with background := s.background.set index outcome }
    else none

/-- A transfer whose panic was caught requests the shutdown. -/
def transferStep (s : State) (index : ℕ) (outcome : Status) : Option State :=
  (s.transfers.endTask index outcome).map fun transfers =>
    { s with transfers := transfers, shutdown := s.shutdown || outcome == .caught }

def changeStep (s : State) (change : CacheChange) : Option State :=
  if s.working then
    some { s with
      cache := change.apply s.cache, detected := s.detected || change.detects s.cache }
  else none

def step (bincode : Bincode) (sha1 : Bytes → Sha1Digest) (s : State) : Event → Option State
  | .operation event => operationStep s event
  | .join event => joinStep s event
  | .stop event => stopStep s event
  | .finish event => finishStep s event
  | .save attempt => saveStep bincode sha1 s attempt
  | .watcher event => watcherStep s event
  | .server index event => serverStep s index event
  | .backgroundEnds index outcome => backgroundStep s index outcome
  | .spawnTransfer => s.transfers.spawn.map fun transfers => { s with transfers := transfers }
  | .transferEnds index outcome => transferStep s index outcome
  | .requestShutdown => some s.fail
  | .change change => changeStep s change

/-! ## What holds while the run is clean -/

/-- Every task is joined or still to be joined, and what was joined finished. -/
structure Good (s : State) : Prop where
  background : ∀ index task, s.background[index]? = some task → index ∈ s.handles ∨ task = .finished
  uncaught : ∀ task ∈ s.background, task ≠ .caught
  joined : s.main.backgroundJoined → s.handles = []
  generations : ∀ index g, s.generations[index]? = some g →
    g.Sound ∧ (s.current = some index ∨ g.task = .finished)
  stopped : s.main.serverStopped → s.current = none
  transfers : s.transfers.Sound
  timedOut : s.timedOut = false

/-- The flags that decide about the snapshot, before the last one is read. -/
def State.unspoilt (s : State) : Prop :=
  s.transfers.clean ∧ s.backgroundClean ∧ s.serverClean

/-- All tasks came to their end, and there is none to come. -/
structure Quiescent (s : State) : Prop where
  background : ∀ task ∈ s.background, task = .finished
  current : s.current = none
  generations : ∀ g ∈ s.generations, g.Ended
  tasks : s.transfers.tasks = []
  transfers : ∀ task ∈ s.transfers.joined, task = .finished
  closed : s.transfers.isOpen = false
  timedOut : s.timedOut = false

variable {s s' : State}

theorem currentGeneration_eq_some {index : ℕ} {g : Generation}
    (h : s.currentGeneration = some (index, g)) :
    s.current = some index ∧ s.generations[index]? = some g := by
  simp only [State.currentGeneration, Option.bind_eq_some_iff, Option.map_eq_some_iff,
    Prod.mk.injEq] at h
  obtain ⟨_, hcurrent, _, hget, rfl, rfl⟩ := h
  exact ⟨hcurrent, hget⟩

namespace Good

/-- The slot is empty, so every generation so far has ended. -/
theorem generations_install (hg : Good s) (hcurrent : s.current = none) (index : ℕ) (g : Generation)
    (hget : s.install.generations[index]? = some g) :
    g.Sound ∧ (s.install.current = some index ∨ g.task = .finished) := by
  simp only [State.install, List.getElem?_append] at hget
  split_ifs at hget with hlt
  · have hold := hg.generations index g hget
    simp only [hcurrent, reduceCtorEq, false_or] at hold
    exact ⟨hold.1, .inr hold.2⟩
  · rw [List.getElem?_singleton] at hget
    split_ifs at hget with hlast
    cases hget
    refine ⟨Generation.Sound.start, .inl ?_⟩
    simp only [State.install, Option.some.injEq]
    omega

/-- A change to the generation in the slot that keeps it sound. -/
theorem generations_modify (hg : Good s) {current : ℕ} (hcurrent : s.current = some current)
    {f : Generation → Generation} (hf : ∀ g : Generation, g.Sound → (f g).Sound) (index : ℕ)
    (g : Generation) (hget : (s.generations.modify current f)[index]? = some g) :
    g.Sound ∧ (s.current = some index ∨ g.task = .finished) := by
  rw [List.getElem?_modify, Option.map_eq_map, Option.map_eq_some_iff] at hget
  obtain ⟨old, hold, rfl⟩ := hget
  split_ifs with heq
  · exact ⟨hf old (hg.generations index old hold).1, .inl (heq ▸ hcurrent)⟩
  · exact hg.generations index old hold

/-- A generation that joined well leaves the slot. -/
theorem generations_retire (hg : Good s) {current : ℕ} {last : Generation}
    (hlast : s.currentGeneration = some (current, last)) (hok : last.task.joinsOk) (index : ℕ)
    (g : Generation) (hget : s.generations[index]? = some g) :
    g.Sound ∧ ((none : Option ℕ) = some index ∨ g.task = .finished) := by
  obtain ⟨hcurrent, hgetLast⟩ := currentGeneration_eq_some hlast
  obtain ⟨hsound, hwhere⟩ := hg.generations index g hget
  refine ⟨hsound, .inr ?_⟩
  rcases hwhere with hslot | hfinished
  · obtain rfl : current = index := Option.some.inj (hcurrent.symm.trans hslot)
    obtain rfl : last = g := Option.some.inj (hgetLast.symm.trans hget)
    exact Status.eq_finished_of_joinsOk hok hsound.task
  · exact hfinished

theorem background_set (hg : Good s) {place : ℕ} {outcome : Status}
    (h : place ∈ s.handles ∨ outcome = .finished) (index : ℕ) (task : Status)
    (hget : (s.background.set place outcome)[index]? = some task) :
    index ∈ s.handles ∨ task = .finished := by
  rw [List.getElem?_set] at hget
  split_ifs at hget with heq hlt
  · cases hget
    exact heq ▸ h
  · exact hg.background index task hget

theorem uncaught_set (hg : Good s) {place : ℕ} {outcome : Status} (h : outcome ≠ .caught) :
    ∀ task ∈ s.background.set place outcome, task ≠ .caught := by
  intro task htask
  rcases List.mem_or_eq_of_mem_set htask with hold | rfl
  · exact hg.uncaught task hold
  · exact h

/-- A live background task is still to be joined. -/
theorem mem_handles (hg : Good s) {index : ℕ} {task : Status}
    (hget : s.background[index]? = some task) (hlive : task.live) : index ∈ s.handles := by
  refine (hg.background index task hget).resolve_right ?_
  rintro rfl
  cases hlive

/-- The server is not stopped for good as long as the watcher lives. -/
theorem not_stopped_of_watcher (hg : Good s)
    (h : s.background[certRefreshWatcher]?.any Status.live) : s.main.serverStopped = false := by
  obtain ⟨task, hget, hlive⟩ := (Option.any_eq_true _ _).mp h
  have hmem := hg.mem_handles hget hlive
  by_contra hstopped
  have hjoined : s.main.backgroundJoined := by
    cases hmain : s.main <;> simp_all [Main.serverStopped, Main.backgroundJoined]
  rw [hg.joined hjoined] at hmem
  cases hmem

end Good

/-- A step that leaves the run clean started from a clean one and keeps what holds of it. -/
def Keeps (s s' : State) : Prop := s'.unspoilt → s.unspoilt ∧ (Good s → Good s')

theorem keeps_operationStep {event : OperationEvent} (h : operationStep s event = some s') :
    Keeps s s' := by
  cases event <;> simp only [operationStep, Option.ite_none_right_eq_some] at h
  case startServer =>
    obtain ⟨-, h⟩ := h
    split_ifs at h with hrefused
    · cases h
      exact fun hc => ⟨hc, fun hg => { hg with joined := nofun, stopped := nofun }⟩
    · cases h
      have hcurrent : s.current = none := by simp_all
      exact fun hc => ⟨hc, fun hg => { hg with
        joined := nofun, stopped := nofun, generations := hg.generations_install hcurrent }⟩
  case serverReady =>
    obtain ⟨-, h⟩ := h
    cases h
    exact fun hc => ⟨hc, fun hg => { hg with joined := nofun, stopped := nofun }⟩
  case startupFails =>
    obtain ⟨-, h⟩ := h
    cases h
    exact fun hc => ⟨hc, fun hg => { hg with joined := nofun, stopped := nofun }⟩
  case clientStarted ok =>
    obtain ⟨-, h⟩ := h
    cases h
    refine fun hc => ⟨hc, fun hg => { hg with joined := ?_, stopped := ?_ }⟩
    all_goals cases ok <;> nofun
  case startupCompletes =>
    obtain ⟨-, h⟩ := h
    cases h
    refine fun hc => ⟨hc, fun hg => { hg with
      background := fun index task hget => .inl ?_, uncaught := ?_, joined := nofun, stopped := nofun }⟩
    · obtain ⟨hlt, -⟩ := List.getElem?_eq_some_iff.mp hget
      exact List.mem_range.mpr (by simpa using hlt)
    · intro task htask
      obtain ⟨_, -, rfl⟩ := List.mem_map.mp htask
      decide
  case interrupted =>
    obtain ⟨-, h⟩ := h
    cases h
    exact fun hc => ⟨hc, fun hg => { hg with joined := nofun, stopped := nofun }⟩
  case backgroundStops index =>
    obtain ⟨-, h⟩ := h
    cases h
    exact fun hc => absurd hc.1 Bool.false_ne_true

theorem keeps_joinStep {event : JoinEvent} (h : joinStep s event = some s') : Keeps s s' := by
  cases event <;> simp only [joinStep, Option.ite_none_right_eq_some] at h
  case clientStopped =>
    obtain ⟨-, h⟩ := h
    cases h
    exact fun hc => ⟨hc, fun hg => { hg with joined := nofun, stopped := nofun }⟩
  case joinBackground =>
    obtain ⟨hmain, h⟩ := h
    cases hhandles : s.handles with
    | nil =>
      simp only [hhandles, Option.some.injEq] at h
      cases h
      exact fun hc => ⟨hc, fun hg => { hg with
        background := by simpa only [hhandles] using hg.background
        joined := fun _ => rfl
        stopped := nofun }⟩
    | cons front rest =>
      simp only [hhandles, Option.bind_eq_some_iff, Option.ite_none_left_eq_some] at h
      obtain ⟨task, hget, -, h⟩ := h
      split_ifs at h with hok
      · cases h
        refine fun hc => ⟨hc, fun hg =>
          { hg with background := fun index other hother => ?_, joined := ?_ }⟩
        · rcases hg.background index other hother with hmem | hfinished
          · rw [hhandles] at hmem
            rcases List.mem_cons.mp hmem with rfl | hrest
            · obtain rfl : task = other := Option.some.inj (hget.symm.trans hother)
              exact .inr (Status.eq_finished_of_joinsOk hok
                (hg.uncaught task (List.mem_of_getElem? hget)))
            · exact .inl hrest
          · exact .inr hfinished
        · simp [hmain, Main.backgroundJoined, Main.serverStopped]
      · cases h
        exact fun hc => absurd hc.2.1 Bool.false_ne_true
  case joinTimesOut =>
    obtain ⟨-, h⟩ := h
    obtain ⟨front, -, rfl⟩ := Option.map_eq_some_iff.mp h
    exact fun hc => absurd hc.2.1 Bool.false_ne_true
  case abortedEnds =>
    obtain ⟨-, h⟩ := h
    cases hhandles : s.handles with
    | nil => simp [hhandles] at h
    | cons front rest =>
      simp only [hhandles, Option.bind_eq_some_iff, Option.ite_none_left_eq_some,
        Option.some.injEq] at h
      obtain ⟨task, -, -, rfl⟩ := h
      exact fun hc => absurd hc.2.1 Bool.false_ne_true
  case remainingEnd =>
    obtain ⟨-, h⟩ := h
    cases h
    exact fun hc => absurd hc.2.1 Bool.false_ne_true

theorem keeps_stopStep {event : StopEvent} (h : stopStep s event = some s') : Keeps s s' := by
  cases event <;> simp only [stopStep, Option.ite_none_right_eq_some] at h
  case stopServer =>
    obtain ⟨hmain, h⟩ := h
    have hjoined : s.main.backgroundJoined := by rw [hmain]; rfl
    cases hcurrent : s.current with
    | none =>
      simp only [hcurrent, Option.some.injEq] at h
      cases h
      exact fun hc => ⟨hc, fun hg => { hg with
        joined := fun _ => hg.joined hjoined
        stopped := fun _ => rfl
        generations := by simpa only [hcurrent] using hg.generations }⟩
    | some current =>
      simp only [hcurrent, Option.some.injEq] at h
      cases h
      exact fun hc => ⟨hc, fun hg => { hg with
        joined := fun _ => hg.joined hjoined
        stopped := nofun
        generations := hg.generations_modify hcurrent fun _ => Generation.Sound.stop }⟩
  case serverEnds =>
    obtain ⟨hmain, h⟩ := h
    have hjoined : s.main.backgroundJoined := by rw [hmain]; rfl
    simp only [Option.bind_eq_some_iff, Prod.exists, Option.ite_none_left_eq_some] at h
    obtain ⟨current, g, hget, -, h⟩ := h
    split_ifs at h with hok
    · cases h
      exact fun hc => ⟨hc, fun hg => { hg with
        joined := fun _ => hg.joined hjoined
        stopped := fun _ => rfl
        generations := hg.generations_retire hget hok }⟩
    · cases h
      exact fun hc => absurd hc.1 Bool.false_ne_true
  case serverTimesOut =>
    obtain ⟨-, h⟩ := h
    obtain ⟨current, -, rfl⟩ := Option.map_eq_some_iff.mp h
    exact fun hc => absurd hc.2.2 Bool.false_ne_true
  case serverAborted =>
    obtain ⟨-, h⟩ := h
    simp only [Option.bind_eq_some_iff, Prod.exists, Option.ite_none_left_eq_some,
      Option.some.injEq] at h
    obtain ⟨current, g, -, -, rfl⟩ := h
    exact fun hc => absurd hc.1 Bool.false_ne_true

theorem keeps_finishStep {event : FinishEvent} (h : finishStep s event = some s') : Keeps s s' := by
  cases event <;> simp only [finishStep, Option.ite_none_right_eq_some] at h
  case takeTransfers =>
    obtain ⟨hmain, h⟩ := h
    cases h
    exact fun hc => ⟨hc, fun hg => { hg with
      joined := fun _ => hg.joined (by rw [hmain]; rfl)
      stopped := fun _ => hg.stopped (by rw [hmain]; rfl)
      transfers := ⟨hg.transfers.joined, hg.transfers.uncaught⟩ }⟩
  case joinTransfer index =>
    obtain ⟨-, h⟩ := h
    obtain ⟨transfers, hjoin, rfl⟩ := Option.map_eq_some_iff.mp h
    refine fun hc => ⟨⟨?_, hc.2⟩, fun hg => { hg with transfers := hg.transfers.joinNext hjoin hc.1 }⟩
    obtain ⟨task, -, -, rfl⟩ := TransferTasks.joinNext_cases hjoin
    exact (Bool.and_eq_true_iff.mp hc.1).1
  case transfersTimeOut =>
    obtain ⟨-, h⟩ := h
    cases h
    exact fun hc => absurd hc.1 Bool.false_ne_true
  case transfersJoined =>
    obtain ⟨⟨hmain, -⟩, h⟩ := h
    cases h
    exact fun hc => ⟨hc, fun hg => { hg with
      joined := fun _ => hg.joined (by rcases hmain with h | h <;> rw [h] <;> rfl)
      stopped := fun _ => hg.stopped (by rcases hmain with h | h <;> rw [h] <;> rfl) }⟩

theorem keeps_saveStep {bincode : Bincode} {sha1 : Bytes → Sha1Digest} {attempt : SaveRun}
    (h : saveStep bincode sha1 s attempt = some s') : Keeps s s' := by
  obtain ⟨hmain, h⟩ := Option.ite_none_right_eq_some.mp h
  cases h
  exact fun hc => ⟨hc, fun hg => { hg with
    joined := fun _ => hg.joined (by rw [hmain]; rfl)
    stopped := fun _ => hg.stopped (by rw [hmain]; rfl) }⟩

theorem keeps_watcherStep {event : WatcherEvent} (h : watcherStep s event = some s') :
    Keeps s s' := by
  simp only [watcherStep, Option.ite_none_right_eq_some] at h
  obtain ⟨hlive, h⟩ := h
  have hend : ∀ {t : State}, t.background = s.background.set certRefreshWatcher .finished → Good s →
      (∀ index task, t.background[index]? = some task → index ∈ s.handles ∨ task = .finished) ∧
        ∀ task ∈ t.background, task ≠ .caught := by
    intro t ht hg
    rw [ht]
    exact ⟨hg.background_set (.inr rfl), hg.uncaught_set (by decide)⟩
  cases event with
  | stop =>
    obtain ⟨-, h⟩ := Option.ite_none_right_eq_some.mp h
    cases hcurrent : s.current with
    | none =>
      simp only [hcurrent, Option.some.injEq] at h
      cases h
      exact fun hc => ⟨hc, fun hg => { hg with
        stopped := fun _ => rfl
        generations := by simpa only [hcurrent] using hg.generations }⟩
    | some current =>
      simp only [hcurrent, Option.some.injEq] at h
      cases h
      exact fun hc => ⟨hc, fun hg => { hg with
        generations := hg.generations_modify hcurrent fun _ => Generation.Sound.stop }⟩
  | drained =>
    obtain ⟨-, h⟩ := Option.ite_none_right_eq_some.mp h
    simp only [Option.bind_eq_some_iff, Prod.exists, Option.ite_none_left_eq_some] at h
    obtain ⟨current, g, hget, -, h⟩ := h
    split_ifs at h with hok
    · cases h
      exact fun hc => ⟨hc, fun hg => { hg with
        stopped := fun _ => rfl, generations := hg.generations_retire hget hok }⟩
    · cases h
      exact fun hc => absurd hc.1 Bool.false_ne_true
  | timesOut =>
    obtain ⟨-, h⟩ := Option.ite_none_right_eq_some.mp h
    obtain ⟨current, hcurrent, rfl⟩ := Option.map_eq_some_iff.mp h
    exact fun hc => ⟨hc, fun hg => { hg with
      generations := hg.generations_modify hcurrent fun _ => Generation.Sound.abort }⟩
  | aborted =>
    obtain ⟨-, h⟩ := Option.ite_none_right_eq_some.mp h
    simp only [Option.bind_eq_some_iff, Prod.exists, Option.ite_none_left_eq_some,
      Option.some.injEq] at h
    obtain ⟨current, g, -, -, rfl⟩ := h
    exact fun hc => absurd hc.1 Bool.false_ne_true
  | start =>
    obtain ⟨-, h⟩ := Option.ite_none_right_eq_some.mp h
    split_ifs at h with hshutdown hslot
    · cases h
      exact fun hc => ⟨hc, fun hg => { hg with
        background := (hend rfl hg).1, uncaught := (hend rfl hg).2 }⟩
    · cases h
      exact fun hc => ⟨hc, fun hg => { hg with
        background := (hend rfl hg).1, uncaught := (hend rfl hg).2 }⟩
    · cases h
      have hcurrent : s.current = none := by simpa using hslot
      refine fun hc => ⟨hc, fun hg => { hg with
        generations := hg.generations_install hcurrent, stopped := fun hstopped => ?_ }⟩
      exact (Bool.false_ne_true ((hg.not_stopped_of_watcher hlive).symm.trans hstopped)).elim
  | ready =>
    obtain ⟨-, h⟩ := Option.ite_none_right_eq_some.mp h
    cases h
    exact fun hc => ⟨hc, fun hg => { hg with }⟩
  | startFails =>
    obtain ⟨-, h⟩ := Option.ite_none_right_eq_some.mp h
    cases h
    exact fun hc => ⟨hc, fun hg => { hg with
      background := (hend rfl hg).1, uncaught := (hend rfl hg).2 }⟩

theorem keeps_serverStep {place : ℕ} {event : ServerEvent}
    (h : serverStep s place event = some s') : Keeps s s' := by
  simp only [serverStep, Option.bind_eq_some_iff, Option.map_eq_some_iff, Prod.exists] at h
  obtain ⟨g, hget, g', effect, hstep, rfl⟩ := h
  have hquiet : effect ≠ .invalidates → Good s → ∀ index other,
      (s.generations.set place g')[index]? = some other →
        other.Sound ∧ (s.current = some index ∨ other.task = .finished) := by
    intro hne hg index other hother
    obtain ⟨hsound, hwhere⟩ := hg.generations place g hget
    rw [List.getElem?_set] at hother
    split_ifs at hother with heq hlt
    · cases hother
      refine ⟨hsound.step hstep hne, .inl ?_⟩
      rcases hwhere with hcurrent | hfinished
      · exact heq ▸ hcurrent
      · simp [(hsound.ended hfinished).step event] at hstep
    · exact hg.generations index other hother
  cases effect with
  | quiet => exact fun hc => ⟨hc, fun hg => { hg with generations := hquiet nofun hg }⟩
  | fails => exact fun hc => ⟨hc, fun hg => { hg with generations := hquiet nofun hg }⟩
  | invalidates => exact fun hc => absurd hc.1 Bool.false_ne_true

/-- Every step of the process keeps a clean run good. -/
theorem keeps_step {bincode : Bincode} {sha1 : Bytes → Sha1Digest} {event : Event}
    (h : step bincode sha1 s event = some s') : Keeps s s' := by
  cases event with
  | operation event => exact keeps_operationStep h
  | join event => exact keeps_joinStep h
  | stop event => exact keeps_stopStep h
  | finish event => exact keeps_finishStep h
  | save attempt => exact keeps_saveStep h
  | watcher event => exact keeps_watcherStep h
  | server place event => exact keeps_serverStep h
  | backgroundEnds place outcome =>
    simp only [step, backgroundStep, Option.bind_eq_some_iff, Option.ite_none_right_eq_some,
      Bool.and_eq_true, Status.canEnd, Option.some.injEq] at h
    obtain ⟨task, hget, ⟨⟨⟨hlive, -⟩, -⟩, hcaught⟩, rfl⟩ := h
    exact fun hc => ⟨hc, fun hg => { hg with
      background := hg.background_set (.inl (hg.mem_handles hget hlive))
      uncaught := hg.uncaught_set (by simpa using hcaught) }⟩
  | spawnTransfer =>
    obtain ⟨transfers, hspawn, rfl⟩ := Option.map_eq_some_iff.mp h
    exact fun hc => ⟨⟨TransferTasks.clean_of_spawn hspawn hc.1, hc.2⟩,
      fun hg => { hg with transfers := hg.transfers.spawn hspawn hc.1 }⟩
  | transferEnds place outcome =>
    obtain ⟨transfers, hend, rfl⟩ := Option.map_eq_some_iff.mp h
    refine fun hc => ⟨⟨?_, hc.2⟩, fun hg => { hg with transfers := hg.transfers.endTask hend hc.1 }⟩
    obtain ⟨task, -, -, rfl⟩ := TransferTasks.endTask_cases hend
    exact (Bool.and_eq_true_iff.mp hc.1).1
  | requestShutdown =>
    cases h
    exact fun hc => ⟨hc, fun hg => { hg with }⟩
  | change change =>
    obtain ⟨-, h⟩ := Option.ite_none_right_eq_some.mp h
    cases h
    exact fun hc => ⟨hc, fun hg => { hg with }⟩

/-! ## What the steps leave alone -/

/-- An overflow that was detected has marked the handler. -/
def Marked (s : State) : Prop := s.detected → s.cache.persistentStateValid = false

structure Frame (s s' : State) : Prop where
  isOpen : s'.transfers.isOpen = s.transfers.isOpen
  disk : s'.disk = s.disk
  marked : Marked s → Marked s'

/-- A step of the main task before it takes the transfers. -/
structure EarlyStep (s s' : State) : Prop extends Frame s s' where
  before : s.main.transfersTaken = false
  after : s'.main.transfersTaken = false

/-- A step of another task. -/
structure SideStep (s s' : State) : Prop extends Frame s s' where
  main : s'.main = s.main
  clean : s'.clean = s.clean

theorem earlyStep_operationStep {event : OperationEvent} (h : operationStep s event = some s') :
    EarlyStep s s' := by
  cases event <;> simp only [operationStep, Option.ite_none_right_eq_some] at h <;>
    obtain ⟨hmain, h⟩ := h
  case startServer =>
    split_ifs at h <;> cases h <;> exact ⟨⟨rfl, rfl, id⟩, by rw [hmain]; rfl, rfl⟩
  case serverReady =>
    cases h
    exact ⟨⟨rfl, rfl, id⟩, by rw [hmain.1]; rfl, rfl⟩
  case startupFails =>
    cases h
    exact ⟨⟨rfl, rfl, id⟩, by rcases hmain with h | h <;> rw [h] <;> rfl, rfl⟩
  case clientStarted ok =>
    cases h
    exact ⟨⟨rfl, rfl, id⟩, by rw [hmain]; rfl, by cases ok <;> rfl⟩
  case startupCompletes =>
    cases h
    exact ⟨⟨rfl, rfl, id⟩, by rw [hmain]; rfl, rfl⟩
  case interrupted =>
    cases h
    refine ⟨⟨rfl, rfl, id⟩, ?_, rfl⟩
    cases hs : s.main <;> simp_all [Main.inOperation, Main.transfersTaken]
  case backgroundStops index =>
    cases h
    exact ⟨⟨rfl, rfl, id⟩, by rw [hmain.1]; rfl, rfl⟩

theorem earlyStep_joinStep {event : JoinEvent} (h : joinStep s event = some s') :
    EarlyStep s s' := by
  cases event <;> obtain ⟨hmain, h⟩ := Option.ite_none_right_eq_some.mp h
  case clientStopped =>
    cases h
    exact ⟨⟨rfl, rfl, id⟩, by rw [hmain]; rfl, rfl⟩
  case joinBackground =>
    split at h
    · cases h
      exact ⟨⟨rfl, rfl, id⟩, by rw [hmain]; rfl, rfl⟩
    · obtain ⟨task, -, h⟩ := Option.bind_eq_some_iff.mp h
      split_ifs at h <;> cases h
      · exact ⟨⟨rfl, rfl, id⟩, by rw [hmain]; rfl, by rw [hmain]; rfl⟩
      · exact ⟨⟨rfl, rfl, id⟩, by rw [hmain]; rfl, rfl⟩
  case joinTimesOut =>
    obtain ⟨front, -, rfl⟩ := Option.map_eq_some_iff.mp h
    exact ⟨⟨rfl, rfl, id⟩, by rw [hmain]; rfl, rfl⟩
  case abortedEnds =>
    split at h
    · cases h
    · obtain ⟨task, -, h⟩ := Option.bind_eq_some_iff.mp h
      split_ifs at h
      cases h
      exact ⟨⟨rfl, rfl, id⟩, by rw [hmain]; rfl, rfl⟩
  case remainingEnd =>
    cases h
    exact ⟨⟨rfl, rfl, id⟩, by rw [hmain.1]; rfl, rfl⟩

theorem earlyStep_stopStep {event : StopEvent} (h : stopStep s event = some s') :
    EarlyStep s s' := by
  cases event <;> obtain ⟨hmain, h⟩ := Option.ite_none_right_eq_some.mp h
  case stopServer =>
    split at h <;> cases h <;> exact ⟨⟨rfl, rfl, id⟩, by rw [hmain]; rfl, rfl⟩
  case serverEnds =>
    obtain ⟨⟨current, g⟩, -, h⟩ := Option.bind_eq_some_iff.mp h
    dsimp only at h
    split_ifs at h <;> cases h <;> exact ⟨⟨rfl, rfl, id⟩, by rw [hmain]; rfl, rfl⟩
  case serverTimesOut =>
    obtain ⟨current, -, rfl⟩ := Option.map_eq_some_iff.mp h
    exact ⟨⟨rfl, rfl, id⟩, by rw [hmain]; rfl, rfl⟩
  case serverAborted =>
    obtain ⟨⟨current, g⟩, -, h⟩ := Option.bind_eq_some_iff.mp h
    dsimp only at h
    split_ifs at h
    cases h
    exact ⟨⟨rfl, rfl, id⟩, by rw [hmain]; rfl, rfl⟩

theorem sideStep_watcherStep {event : WatcherEvent} (h : watcherStep s event = some s') :
    SideStep s s' := by
  obtain ⟨-, h⟩ := Option.ite_none_right_eq_some.mp h
  cases event <;> obtain ⟨-, h⟩ := Option.ite_none_right_eq_some.mp h
  case stop => split at h <;> cases h <;> exact ⟨⟨rfl, rfl, id⟩, rfl, rfl⟩
  case drained =>
    obtain ⟨⟨current, g⟩, -, h⟩ := Option.bind_eq_some_iff.mp h
    dsimp only at h
    split_ifs at h <;> cases h <;> exact ⟨⟨rfl, rfl, id⟩, rfl, rfl⟩
  case timesOut =>
    obtain ⟨current, -, rfl⟩ := Option.map_eq_some_iff.mp h
    exact ⟨⟨rfl, rfl, id⟩, rfl, rfl⟩
  case aborted =>
    obtain ⟨⟨current, g⟩, -, h⟩ := Option.bind_eq_some_iff.mp h
    dsimp only at h
    split_ifs at h
    cases h
    exact ⟨⟨rfl, rfl, id⟩, rfl, rfl⟩
  case start => split_ifs at h <;> cases h <;> exact ⟨⟨rfl, rfl, id⟩, rfl, rfl⟩
  case ready =>
    cases h
    exact ⟨⟨rfl, rfl, id⟩, rfl, rfl⟩
  case startFails =>
    cases h
    exact ⟨⟨rfl, rfl, id⟩, rfl, rfl⟩

theorem sideStep_serverStep {place : ℕ} {event : ServerEvent}
    (h : serverStep s place event = some s') : SideStep s s' := by
  simp only [serverStep, Option.bind_eq_some_iff, Option.map_eq_some_iff, Prod.exists] at h
  obtain ⟨g, -, g', effect, -, rfl⟩ := h
  cases effect <;> exact ⟨⟨rfl, rfl, id⟩, rfl, rfl⟩

theorem sideStep_backgroundStep {place : ℕ} {outcome : Status}
    (h : backgroundStep s place outcome = some s') : SideStep s s' := by
  obtain ⟨task, -, h⟩ := Option.bind_eq_some_iff.mp h
  obtain ⟨-, h⟩ := Option.ite_none_right_eq_some.mp h
  cases h
  exact ⟨⟨rfl, rfl, id⟩, rfl, rfl⟩

theorem sideStep_spawnTransfer {bincode : Bincode} {sha1 : Bytes → Sha1Digest}
    (h : step bincode sha1 s .spawnTransfer = some s') : SideStep s s' := by
  obtain ⟨transfers, hspawn, rfl⟩ := Option.map_eq_some_iff.mp h
  obtain ⟨-, hspawn⟩ := Option.ite_none_right_eq_some.mp hspawn
  cases hspawn
  exact ⟨⟨rfl, rfl, id⟩, rfl, rfl⟩

theorem sideStep_transferStep {place : ℕ} {outcome : Status}
    (h : transferStep s place outcome = some s') : SideStep s s' := by
  obtain ⟨transfers, hend, rfl⟩ := Option.map_eq_some_iff.mp h
  obtain ⟨task, -, -, rfl⟩ := TransferTasks.endTask_cases hend
  exact ⟨⟨rfl, rfl, id⟩, rfl, rfl⟩

theorem sideStep_changeStep {change : CacheChange} (h : changeStep s change = some s') :
    SideStep s s' := by
  obtain ⟨-, h⟩ := Option.ite_none_right_eq_some.mp h
  cases h
  refine ⟨⟨rfl, rfl, fun hmarked hdetected => ?_⟩, rfl, rfl⟩
  rw [CacheChange.apply_valid]
  rcases Bool.or_eq_true_iff.mp hdetected with hold | hnew
  · rw [hmarked hold, Bool.false_and]
  · rw [hnew, Bool.not_true, Bool.and_false]

/-! ## The invariant -/

namespace Quiescent

theorem watcherStep_eq_none (hq : Quiescent s) (event : WatcherEvent) :
    watcherStep s event = none := by
  refine if_neg fun hlive => ?_
  obtain ⟨task, hget, hlive⟩ := (Option.any_eq_true _ _).mp hlive
  rw [hq.background task (List.mem_of_getElem? hget)] at hlive
  cases hlive

theorem serverStep_eq_none (hq : Quiescent s) (place : ℕ) (event : ServerEvent) :
    serverStep s place event = none := by
  simp only [serverStep, Option.bind_eq_none_iff]
  intro g hget
  rw [(hq.generations g (List.mem_of_getElem? hget)).step event]
  rfl

theorem backgroundStep_eq_none (hq : Quiescent s) (place : ℕ) (outcome : Status) :
    backgroundStep s place outcome = none := by
  simp only [backgroundStep, Option.bind_eq_none_iff]
  intro task hget
  rw [hq.background task (List.mem_of_getElem? hget)]
  rfl

theorem transferStep_eq_none (hq : Quiescent s) (place : ℕ) (outcome : Status) :
    transferStep s place outcome = none := by
  simp [transferStep, TransferTasks.endTask, hq.tasks]

theorem changeStep_eq_none (hq : Quiescent s) (hmain : s.main = .saving) (change : CacheChange) :
    changeStep s change = none := by
  have hbackground : s.background.any Status.live = false :=
    List.any_eq_false.mpr fun task htask => by rw [hq.background task htask]; decide
  have hgenerations :
      s.generations.any (fun g => g.task.live || g.connections.any Status.live) = false :=
    List.any_eq_false.mpr fun g hg => by
      rw [(hq.generations g hg).task, (hq.generations g hg).connections]
      decide
  have hworking : s.working = false := by
    simp only [State.working, hmain, hbackground, hgenerations, hq.tasks]
    rfl
  simp [changeStep, hworking]

end Quiescent

structure Invariant (s : State) : Prop where
  good : s.unspoilt → Good s
  closed : s.main.transfersTaken → s.transfers.isOpen = false
  marked : Marked s
  quiescent : s.main = .saving → s.clean → Quiescent s

theorem Invariant.start (cache : CacheHandler) (disk : Disk DataPath) :
    Invariant (.start cache disk) where
  good _ :=
    { background := nofun
      uncaught := nofun
      joined := fun _ => rfl
      generations := nofun
      stopped := fun _ => rfl
      transfers := ⟨nofun, nofun⟩
      timedOut := rfl }
  closed := nofun
  marked h := by simpa [State.start] using h
  quiescent := nofun

namespace Invariant

theorem early (hi : Invariant s) (hk : Keeps s s') (he : EarlyStep s s') : Invariant s' where
  good hc := (hk hc).2 (hi.good (hk hc).1)
  closed htaken := absurd htaken (by simp [he.after])
  marked := he.marked hi.marked
  quiescent hmain := absurd he.after (by simp [hmain, Main.transfersTaken])

/-- Another task only takes a step as long as the cache is not quiescent. -/
theorem side (hi : Invariant s) (hk : Keeps s s') (hs : SideStep s s')
    (hq : s.main = .saving → ¬ Quiescent s) : Invariant s' where
  good hc := (hk hc).2 (hi.good (hk hc).1)
  closed htaken := hs.isOpen.trans (hi.closed (hs.main ▸ htaken))
  marked := hs.marked hi.marked
  quiescent hmain hclean :=
    absurd (hi.quiescent (hs.main ▸ hmain) (hs.clean ▸ hclean)) (hq (hs.main ▸ hmain))

/-- Once the last transfer is joined, the three flags tell whether all tasks have ended. -/
theorem quiescent_of_joined (hi : Invariant s) (htasks : s.transfers.tasks = [])
    (hmain : s.main = .drainingTransfers ∨ s.main = .abortingTransfers)
    (hc : s.backgroundClean && s.serverClean && s.transfers.clean) : Quiescent s := by
  simp only [Bool.and_eq_true] at hc
  have hg := hi.good ⟨hc.2, hc.1.1, hc.1.2⟩
  have hcurrent : s.current = none := hg.stopped (by rcases hmain with h | h <;> rw [h] <;> rfl)
  have hhandles : s.handles = [] := hg.joined (by rcases hmain with h | h <;> rw [h] <;> rfl)
  refine ⟨fun task htask => ?_, hcurrent, fun g hmem => ?_, htasks, hg.transfers.joined,
    hi.closed (by rcases hmain with h | h <;> rw [h] <;> rfl), hg.timedOut⟩
  · obtain ⟨index, hget⟩ := List.mem_iff_getElem?.mp htask
    exact (hg.background index task hget).resolve_left (by simp [hhandles])
  · obtain ⟨index, hget⟩ := List.mem_iff_getElem?.mp hmem
    obtain ⟨hsound, hwhere⟩ := hg.generations index g hget
    exact hsound.ended (hwhere.resolve_left (by simp [hcurrent]))

theorem finishStep (hi : Invariant s) {event : FinishEvent} (h : finishStep s event = some s') :
    Invariant s' := by
  have hgood : s'.unspoilt → Good s' := fun hc =>
    (keeps_finishStep h hc).2 (hi.good (keeps_finishStep h hc).1)
  cases event <;> obtain ⟨hmain, h⟩ := Option.ite_none_right_eq_some.mp h
  case takeTransfers =>
    cases h
    exact ⟨hgood, fun _ => rfl, hi.marked, nofun⟩
  case joinTransfer index =>
    obtain ⟨transfers, hjoin, rfl⟩ := Option.map_eq_some_iff.mp h
    obtain ⟨task, -, -, rfl⟩ := TransferTasks.joinNext_cases hjoin
    refine ⟨hgood, hi.closed, hi.marked, fun hsaving => ?_⟩
    exact absurd hmain (by simp [show s.main = .saving from hsaving])
  case transfersTimeOut =>
    cases h
    exact ⟨hgood, fun _ => hi.closed (by rw [hmain.1]; rfl), hi.marked, nofun⟩
  case transfersJoined =>
    cases h
    refine ⟨hgood, fun _ => hi.closed ?_, hi.marked, fun _ hclean => ?_⟩
    · rcases hmain.1 with h | h <;> rw [h] <;> rfl
    · have hq := hi.quiescent_of_joined hmain.2 hmain.1 hclean
      exact { hq with }

end Invariant

/-! ## The snapshot -/

section Snapshots

variable {bincode : Bincode} {sha1 : Bytes → Sha1Digest}

/-- The first operation of `clear` is the unlink of the marker. -/
theorem info_clear_of_unlinked {faults : List Fault} (h : nextFault faults = .none)
    (disk : Disk DataPath) : (clear faults disk).1 pcacheInfo = none := by
  rw [clear, runOps, h]
  simp only [FileOp.apply]
  rw [runOps_frame (by decide)]
  exact Function.update_self ..

theorem saveShutdownCache_valid {cache : CacheHandler} (h : cache.persistentStateValid = false)
    (quiescent : Bool) (attempt : SaveRun) (disk : Disk DataPath) :
    (saveShutdownCache bincode sha1 cache quiescent attempt disk).1.persistentStateValid = false := by
  cases quiescent with
  | false => rfl
  | true =>
    simp only [saveShutdownCache, CacheHandler.savePersistentData, h]
    rfl

/-- Without quiescence or with a marked handler nothing is written. -/
theorem saveShutdownCache_discards {cache : CacheHandler} {quiescent : Bool}
    (h : ¬ (quiescent ∧ cache.persistentStateValid)) (attempt : SaveRun) (disk : Disk DataPath) :
    (saveShutdownCache bincode sha1 cache quiescent attempt disk).2.1 =
      (clear attempt.discardFaults disk).1 := by
  cases quiescent with
  | false => rfl
  | true =>
    have hvalid : cache.persistentStateValid = false := by simpa using h
    simp only [saveShutdownCache, CacheHandler.savePersistentData, hvalid]
    rfl

/-- A process that survives and can unlink leaves a marker only after a complete save. -/
theorem saveShutdownCache_info {cache : CacheHandler} {quiescent : Bool} {attempt : SaveRun}
    {disk : Disk DataPath} (hunlink : nextFault attempt.discardFaults = .none)
    (hlives : (saveShutdownCache bincode sha1 cache quiescent attempt disk).2.2 ≠ .crashed)
    (h : (saveShutdownCache bincode sha1 cache quiescent attempt disk).2.1 pcacheInfo ≠ none) :
    (quiescent ∧ cache.persistentStateValid) ∧
      (saveShutdownCache bincode sha1 cache quiescent attempt disk).2.2 = .ok := by
  by_cases hwrites : quiescent ∧ cache.persistentStateValid
  · refine ⟨hwrites, ?_⟩
    simp only [saveShutdownCache, CacheHandler.savePersistentData, hwrites, Bool.not_true,
      Bool.false_eq_true, if_false] at hlives h ⊢
    generalize save bincode sha1 cache.persistentState
      (attempt.order.iterate cache.staticRangeOldest) attempt.saveFaults disk = result at hlives h ⊢
    obtain ⟨left, outcome⟩ := result
    cases outcome with
    | ok => rfl
    | failed => exact absurd (info_clear_of_unlinked hunlink left) h
    | crashed => exact absurd rfl hlives
  · rw [saveShutdownCache_discards hwrites, info_clear_of_unlinked hunlink] at h
    exact absurd rfl h

theorem Invariant.step (hi : Invariant s) {event : Event}
    (h : step bincode sha1 s event = some s') : Invariant s' := by
  have hk := keeps_step h
  cases event with
  | operation event => exact hi.early hk (earlyStep_operationStep h)
  | join event => exact hi.early hk (earlyStep_joinStep h)
  | stop event => exact hi.early hk (earlyStep_stopStep h)
  | finish event => exact hi.finishStep h
  | save attempt =>
    obtain ⟨hmain, hsaved⟩ := Option.ite_none_right_eq_some.mp h
    cases hsaved
    refine ⟨fun hc => (hk hc).2 (hi.good (hk hc).1), fun _ => hi.closed (by rw [hmain]; rfl),
      fun hdetected => ?_, nofun⟩
    exact saveShutdownCache_valid (hi.marked hdetected) s.clean attempt s.disk
  | watcher event =>
    exact hi.side hk (sideStep_watcherStep h) fun _ hq => by
      simp [ShutdownRun.step, hq.watcherStep_eq_none] at h
  | server place event =>
    exact hi.side hk (sideStep_serverStep h) fun _ hq => by
      simp [ShutdownRun.step, hq.serverStep_eq_none] at h
  | backgroundEnds place outcome =>
    exact hi.side hk (sideStep_backgroundStep h) fun _ hq => by
      simp [ShutdownRun.step, hq.backgroundStep_eq_none] at h
  | spawnTransfer =>
    exact hi.side hk (sideStep_spawnTransfer h) fun _ hq => by
      simp [ShutdownRun.step, TransferTasks.spawn_eq_none hq.closed] at h
  | transferEnds place outcome =>
    exact hi.side hk (sideStep_transferStep h) fun _ hq => by
      simp [ShutdownRun.step, hq.transferStep_eq_none] at h
  | requestShutdown =>
    cases h
    refine ⟨fun hc => (hk hc).2 (hi.good (hk hc).1), hi.closed, hi.marked, fun hmain hclean => ?_⟩
    exact { hi.quiescent hmain hclean with }
  | change change =>
    exact hi.side hk (sideStep_changeStep h) fun hmain hq => by
      simp [ShutdownRun.step, hq.changeStep_eq_none hmain] at h

/-- What no step changes after the save. -/
structure Settled (disk : Disk DataPath) (s : State) : Prop where
  main : s.main = .done
  closed : s.transfers.isOpen = false
  disk : s.disk = disk

theorem Settled.early {disk : Disk DataPath} (hs : Settled disk s) (he : EarlyStep s s') : False := by
  have hbefore := he.before
  rw [hs.main] at hbefore
  cases hbefore

theorem Settled.side {disk : Disk DataPath} (hs : Settled disk s) (hstep : SideStep s s') :
    Settled disk s' :=
  ⟨hstep.main.trans hs.main, hstep.isOpen.trans hs.closed, hstep.disk.trans hs.disk⟩

theorem Settled.step {disk : Disk DataPath} (hs : Settled disk s) {event : Event}
    (h : step bincode sha1 s event = some s') : Settled disk s' := by
  cases event with
  | operation event => exact (hs.early (earlyStep_operationStep h)).elim
  | join event => exact (hs.early (earlyStep_joinStep h)).elim
  | stop event => exact (hs.early (earlyStep_stopStep h)).elim
  | finish event => cases event <;> simp [ShutdownRun.step, ShutdownRun.finishStep, hs.main] at h
  | save attempt => simp [ShutdownRun.step, saveStep, hs.main] at h
  | watcher event => exact hs.side (sideStep_watcherStep h)
  | server place event => exact hs.side (sideStep_serverStep h)
  | backgroundEnds place outcome => exact hs.side (sideStep_backgroundStep h)
  | spawnTransfer => exact hs.side (sideStep_spawnTransfer h)
  | transferEnds place outcome => exact hs.side (sideStep_transferStep h)
  | requestShutdown =>
    cases h
    exact { hs with }
  | change change => exact hs.side (sideStep_changeStep h)

end Snapshots

/-- `save_persistent_data` is called and gets to its file operations, the last of which
writes `pcache_info`. -/
def State.WritesSnapshot (s : State) : Prop := s.clean ∧ s.cache.persistentStateValid

/-- A shutdown writes a snapshot only when every task has come to its end without a panic, an
abort or a timeout, no transfer will be accepted any more and no counter has ever left its
range. Otherwise it only unlinks, and a process that survives the shutdown and can unlink
leaves no `pcache_info` behind unless the save was complete. -/
theorem snapshot_only_when_quiescent (bincode : Bincode) (sha1 : Bytes → Sha1Digest)
    (cache : CacheHandler) (disk : Disk DataPath) {es later : List Event} {s s' last : State}
    {attempt : SaveRun} (hrun : run (step bincode sha1) (.start cache disk) es = some s)
    (hsave : step bincode sha1 s (.save attempt) = some s')
    (hlater : run (step bincode sha1) s' later = some last) :
    (s.WritesSnapshot →
      Quiescent s ∧ s.detected = false ∧ last.transfers.spawn = none) ∧
    (¬ s.WritesSnapshot → s'.disk = (clear attempt.discardFaults s.disk).1) ∧
    (nextFault attempt.discardFaults = .none → s'.saved ≠ some .crashed →
      last.disk pcacheInfo ≠ none → s.WritesSnapshot ∧ s'.saved = some .ok) := by
  have hi : Invariant s := run_invariant (fun s e next hs _ h => hs.step h)
    (Invariant.start cache disk) (allSteps_true _ es) hrun
  have hi' := hi.step hsave
  obtain ⟨hmain, hsaved⟩ := Option.ite_none_right_eq_some.mp hsave
  cases hsaved
  have hsettled : Settled (saveShutdownCache bincode sha1 s.cache s.clean attempt s.disk).2.1 last :=
    run_invariant (fun s e next hs _ h => hs.step h) ⟨rfl, hi'.closed rfl, rfl⟩
      (allSteps_true _ later) hlater
  refine ⟨fun hwrites => ⟨hi.quiescent hmain hwrites.1, ?_, ?_⟩, fun hnot => ?_, ?_⟩
  · cases hdetected : s.detected with
    | false => rfl
    | true => exact absurd hwrites.2 (by simp [hi.marked hdetected])
  · exact TransferTasks.spawn_eq_none hsettled.closed
  · exact saveShutdownCache_discards hnot attempt s.disk
  · intro hunlink hlives hinfo
    rw [hsettled.disk] at hinfo
    obtain ⟨hwrites, hok⟩ :=
      saveShutdownCache_info hunlink (fun hcrash => hlives (congrArg some hcrash)) hinfo
    exact ⟨hwrites, congrArg some hok⟩

/-! A run with one transfer and one connection up to the save. -/

def startupEvents : List Event :=
  [.operation .startServer, .server 0 .ready, .operation .serverReady,
    .operation (.clientStarted true), .operation .startupCompletes, .server 0 .accept,
    .spawnTransfer, .server 0 (.connectionEnds 0 .finished), .server 0 (.joinConnection 0),
    .requestShutdown, .operation .interrupted]

def joinEvents : List Event :=
  (List.range backgroundTasks.length).map (fun index => .backgroundEnds index .finished) ++
    .join .clientStopped :: List.replicate (backgroundTasks.length + 1) (.join .joinBackground)

def drainEvents : List Event :=
  [.stop .stopServer, .server 0 .stopSeen, .server 0 .drained, .stop .serverEnds,
    .finish .takeTransfers, .transferEnds 0 .finished, .finish (.joinTransfer 0),
    .finish .transfersJoined]

def quietRun : List Event := startupEvents ++ (joinEvents ++ drainEvents)

/-- The state in which that run begins its shutdown. -/
def stoppingState : State :=
  { State.start .empty fun _ => none with
    main := .clientStopping
    shutdown := true
    background := backgroundTasks.map fun _ => .running
    handles := List.range backgroundTasks.length
    generations := [⟨false, .accepting, .running, [], [.finished]⟩]
    current := some 0
    transfers := ⟨true, [.running], [], true⟩ }

/-- The state in which that run has joined the background tasks. -/
def joinedState : State :=
  { stoppingState with
    main := .stoppingServer
    background := backgroundTasks.map fun _ => .finished
    handles := [] }

/-- The state in which that run saves. -/
def quietState : State :=
  { State.start .empty fun _ => none with
    main := .saving
    shutdown := true
    background := backgroundTasks.map fun _ => .finished
    generations := [⟨true, .draining, .finished, [], [.finished]⟩]
    transfers := ⟨false, [], [.finished], true⟩ }

theorem run_startupEvents :
    run (step fixint zeroDigest) (.start .empty fun _ => none) startupEvents = some stoppingState := rfl

theorem run_joinEvents :
    run (step fixint zeroDigest) stoppingState joinEvents = some joinedState := rfl

theorem run_drainEvents :
    run (step fixint zeroDigest) joinedState drainEvents = some quietState := rfl

theorem run_quietRun :
    run (step fixint zeroDigest) (.start .empty fun _ => none) quietRun = some quietState := by
  rw [quietRun, run_append, run_startupEvents, Option.bind_some, run_append, run_joinEvents,
    Option.bind_some, run_drainEvents]

theorem snapshot_only_when_quiescent_quietRun :
    run (step fixint zeroDigest) (.start .empty fun _ => none) quietRun = some quietState ∧
      quietState.WritesSnapshot ∧ Quiescent quietState ∧ ∀ attempt, ∃ s',
        step fixint zeroDigest quietState (.save attempt) = some s' ∧ s'.transfers.spawn = none := by
  have hwrites : quietState.WritesSnapshot := ⟨rfl, rfl⟩
  have hsave : ∀ attempt, ∃ s', step fixint zeroDigest quietState (.save attempt) = some s' :=
    fun attempt => ⟨_, rfl⟩
  obtain ⟨s, hs⟩ := hsave ⟨Classical.arbitrary _, [], []⟩
  refine ⟨run_quietRun, hwrites, ?_, fun attempt => ?_⟩
  · exact ((snapshot_only_when_quiescent fixint zeroDigest .empty (fun _ => none) run_quietRun hs
      (rfl : run _ s [] = some s)).1 hwrites).1
  · obtain ⟨s', hs'⟩ := hsave attempt
    exact ⟨s', hs', ((snapshot_only_when_quiescent fixint zeroDigest .empty (fun _ => none)
      run_quietRun hs' (rfl : run _ s' [] = some s')).1 hwrites).2.2⟩

end HathRs.ShutdownRun
