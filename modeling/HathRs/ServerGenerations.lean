import HathRs.TaskLifecycles
import HathRs.TransitionRuns

/-!
# Listener generations

`start_server` and `stop_server` hand the current generation from one caller to the next in
a slot behind an asynchronous mutex. The main task makes the first call of the one and the
last call of the other, the certificate watcher exchanges the generation in between, and
both can be dropped wherever they wait. The servers themselves run on their own.
-/

namespace HathRs.ServerGenerations
open TaskLifecycles TransitionRuns

/-! ## What the callers share -/

/-- A task that `start_server` has spawned. `late` tells that the call began after the shutdown
request, and `downloadBegan` when the task began to download the certificate. -/
structure Server where
  generation : Generation
  late : Bool
  downloadBegan : Option ℕ

def Server.live (server : Server) : Bool := server.generation.task.live

/-- `servers` are all the tasks ever spawned, and `slot` is the one that `generation` holds. -/
structure World where
  locked : Bool
  servers : List Server
  slot : Option ℕ
  shutdown : Bool
  allowNormalConnections : Bool
  transfersClean : Bool

namespace World

def initial : World := ⟨false, [], none, false, false, true⟩

def unlock (w : World) : World := { w with locked := false }

def fail (w : World) : World := { w with shutdown := true }

def invalidate (w : World) : World := { w with transfersClean := false }

def allow (w : World) (allowed : Bool) : World := { w with allowNormalConnections := allowed }

def spawn (w : World) (late : Bool) : World :=
  { w with servers := w.servers ++ [⟨.start, late, none⟩], slot := some w.servers.length }

def cancelStop (w : World) (index : ℕ) : World :=
  { w with servers := w.servers.modify index fun server =>
      { server with generation := { server.generation with stop := true } } }

def abortTask (w : World) (index : ℕ) : World :=
  { w with servers := w.servers.modify index fun server =>
      { server with generation := { server.generation with task := server.generation.task.abort } } }

/-- The certificate download is over and the listener bound. -/
def isReady (w : World) (index : ℕ) : Bool :=
  w.servers[index]?.any fun server => server.generation.phase != .starting

end World

/-! ## The two calls -/

/-- A call that goes on or returns. -/
inductive Progress (γ ρ : Type) where
  | more (call : γ)
  | returned (result : ρ)

/-- Where `start_server` stands. `late` tells that it began after the shutdown request. -/
inductive StartCall where
  | locking (late : Bool)
  | locked (late : Bool)
  /-- The shutdown was not requested yet. -/
  | allowed (late : Bool)
  | awaitingReady (index : ℕ)
  deriving DecidableEq

inductive StartError where
  | shutdown
  | alreadyRunning
  | notReady
  deriving DecidableEq

inductive StartEvent where
  | proceed
  | ready
  /-- The startup failed, or the server ended without a word. -/
  | notReady
  | cancelled

/-- The guard is dropped at the return. -/
def startServer (w : World) : StartCall → StartEvent →
    Option (World × Progress StartCall (Except StartError ℕ))
  | .locking late, .proceed =>
    if w.locked then none else some ({ w with locked := true }, .more (.locked late))
  | .locked late, .proceed =>
    if w.shutdown then some (w.unlock, .returned (.error .shutdown))
    else some (w, .more (.allowed late))
  | .allowed late, .proceed =>
    match w.slot with
    | some _ => some (w.unlock, .returned (.error .alreadyRunning))
    | none => some (w.spawn late, .more (.awaitingReady w.servers.length))
  | .awaitingReady index, .ready =>
    if w.isReady index then some (w.unlock, .returned (.ok index)) else none
  | .awaitingReady _, .notReady => some (w.unlock, .returned (.error .notReady))
  | .awaitingReady _, .cancelled =>
    if w.shutdown then some (w.unlock, .returned (.error .shutdown)) else none
  | _, _ => none

/-- Where `stop_server` stands. -/
inductive StopCall where
  | locking
  | draining (index : ℕ)
  | aborting (index : ℕ)
  deriving DecidableEq

inductive StopEvent where
  | proceed
  | timesOut

/-- The task of the slot was joined. -/
def retire (w : World) (clean : Bool) : World :=
  let w := if clean then w else w.invalidate
  { w with locked := false, slot := none }

def stopServer (w : World) : StopCall → StopEvent → Option (World × Progress StopCall Bool)
  | .locking, .proceed =>
    if w.locked then none
    else
      match w.slot with
      | none => some (w, .returned true)
      | some index => some ({ w.cancelStop index with locked := true }, .more (.draining index))
  | .draining index, .proceed =>
    w.servers[index]?.bind fun server =>
      if server.live then none
      else
        let clean := server.generation.task.joinsOk
        some (retire w clean, .returned clean)
  | .draining index, .timesOut => some (w.abortTask index, .more (.aborting index))
  | .aborting index, .proceed =>
    w.servers[index]?.bind fun server =>
      if server.live then none else some (retire w false, .returned false)
  | _, _ => none

/-! ## The callers -/

/-- Where `run_with_cache` stands. -/
inductive Main where
  /-- The operation has not been polled. -/
  | opening
  | starting (call : StartCall)
  | operating
  /-- The operation is over or dropped, and the background tasks are joined. -/
  | closing
  | stopping (call : StopCall)
  | stopped (clean : Bool)
  deriving DecidableEq

def Main.inOperation : Main → Bool
  | .opening | .starting _ | .operating => true
  | _ => false

/-- Where the certificate watcher stands. -/
inductive Watcher where
  | absent
  /-- It is about to poll `notified`. -/
  | listening
  | waiting
  | woken
  | suspending
  /-- The suspension failed, and it sleeps for ten seconds. -/
  | retrying
  /-- It sleeps for five seconds before the stop. -/
  | delaying
  | stopping (call : StopCall)
  /-- It sleeps for a second before the start. -/
  | pausing
  | starting (call : StartCall)
  | restarted (index : ℕ)
  | resuming (index : ℕ)
  | ended
  deriving DecidableEq

def Watcher.running : Watcher → Bool
  | .absent | .ended => false
  | _ => true

/-- The call that a caller is in. -/
inductive Activity where
  | idle
  | starting (call : StartCall)
  | stopping (call : StopCall)

/-- The caller holds the guard of the slot. -/
def Activity.holds : Activity → Bool
  | .idle | .starting (.locking _) | .stopping .locking => false
  | _ => true

def Main.activity : Main → Activity
  | .starting call => .starting call
  | .stopping call => .stopping call
  | _ => .idle

def Watcher.activity : Watcher → Activity
  | .starting call => .starting call
  | .stopping call => .stopping call
  | _ => .idle

/-- The guard is dropped with the future that holds it. -/
def World.release (w : World) (activity : Activity) : World :=
  if activity.holds then w.unlock else w

/-- `doCertRefresh` and `permit` are the flag and the stored permit of the notification, and `pending`
counts the commands that have set the flag and not notified yet. `lastHandled` is the time of
the last command, `lastRefresh` that of the download of the last completed refresh, in a
`clock` that counts both. -/
structure State where
  world : World
  main : Main
  watcher : Watcher
  doCertRefresh : Bool
  permit : Bool
  pending : ℕ
  clock : ℕ
  lastHandled : Option ℕ
  lastRefresh : Option ℕ

def State.initial : State := ⟨.initial, .opening, .absent, false, false, 0, 0, none, none⟩

inductive MainEvent where
  | begin
  | startCall (event : StartEvent)
  | startupCompletes
  /-- The shutdown drops the operation, or the operation fails. -/
  | operationEnds
  | finalStop
  | stopCall (event : StopEvent)

def mainStart (s : State) : World × Progress StartCall (Except StartError ℕ) → State
  | (world, .more call) => { s with world, main := .starting call }
  | (world, .returned (.ok _)) => { s with world, main := .operating }
  | (world, .returned (.error _)) => { s with world := world.fail, main := .closing }

def mainStop (s : State) : World × Progress StopCall Bool → State
  | (world, .more call) => { s with world, main := .stopping call }
  | (world, .returned clean) => { s with world, main := .stopped clean }

def mainStep (s : State) : MainEvent → Option State
  | .begin =>
    if s.main = .opening then some { s with main := .starting (.locking s.world.shutdown) } else none
  | .startCall event =>
    match s.main with
    | .starting call => (startServer s.world call event).map (mainStart s)
    | _ => none
  | .startupCompletes =>
    if s.main = .operating ∧ s.watcher = .absent then
      some { s with world := s.world.allow true, watcher := .listening }
    else none
  | .operationEnds =>
    if s.main.inOperation then
      some { s with world := (s.world.release s.main.activity).fail, main := .closing }
    else none
  | .finalStop =>
    if s.main = .closing then
      some { s with world := s.world.allow false, main := .stopping .locking }
    else none
  | .stopCall event =>
    match s.main with
    | .stopping call => (stopServer s.world call event).map (mainStop s)
    | _ => none

inductive WatcherEvent where
  | proceed
  | suspended (ok : Bool)
  | stopCall (event : StopEvent)
  | startCall (event : StartEvent)
  /-- The answer to the resume notification. -/
  | resumed (fatal : Bool)
  /-- The shutdown or an abort drops the future. -/
  | dropped

def watcherStop (s : State) : World × Progress StopCall Bool → State
  | (world, .more call) => { s with world, watcher := .stopping call }
  | (world, .returned true) => { s with world, watcher := .pausing }
  | (world, .returned false) => { s with world := world.fail, watcher := .ended }

def watcherStart (s : State) : World × Progress StartCall (Except StartError ℕ) → State
  | (world, .more call) => { s with world, watcher := .starting call }
  | (world, .returned (.ok index)) => { s with world, watcher := .restarted index }
  | (world, .returned (.error .shutdown)) => { s with world, watcher := .ended }
  | (world, .returned (.error _)) => { s with world := world.fail, watcher := .ended }

/-- The loop of `spawn_cert_refresh_watcher`. -/
def watcherStep (s : State) : WatcherEvent → Option State
  | .proceed =>
    match s.watcher with
    | .listening =>
      if s.permit then some { s with permit := false, watcher := .woken }
      else some { s with watcher := .waiting }
    | .woken => some { s with watcher := if s.doCertRefresh then .suspending else .listening }
    | .retrying => some { s with permit := true, watcher := .listening }
    | .delaying => some { s with world := s.world.allow false, watcher := .stopping .locking }
    | .pausing => some { s with watcher := .starting (.locking s.world.shutdown) }
    | .restarted index =>
      if s.world.shutdown then some { s with watcher := .ended }
      else some { s with world := s.world.allow true, watcher := .resuming index }
    | _ => none
  | .suspended ok =>
    if s.watcher = .suspending then some { s with watcher := if ok then .delaying else .retrying }
    else none
  | .stopCall event =>
    match s.watcher with
    | .stopping call => (stopServer s.world call event).map (watcherStop s)
    | _ => none
  | .startCall event =>
    match s.watcher with
    | .starting call => (startServer s.world call event).map (watcherStart s)
    | _ => none
  | .resumed fatal =>
    match s.watcher with
    | .resuming index =>
      if fatal then some { s with world := s.world.fail, watcher := .ended }
      else some { s with
        doCertRefresh := false
        lastRefresh := s.world.servers[index]?.bind Server.downloadBegan
        watcher := .listening }
    | _ => none
  | .dropped =>
    if s.watcher.running then
      some { s with world := s.world.release s.watcher.activity, watcher := .ended }
    else none

inductive Event where
  | shutdownRequested
  | main (event : MainEvent)
  | watcher (event : WatcherEvent)
  | downloadBegins (index : ℕ)
  | server (index : ℕ) (event : ServerEvent)
  /-- A `refresh_certs` command sets the flag. -/
  | commandSets
  | commandNotifies

/-- What a server does to the rest of the process. -/
def World.apply (w : World) : Effect → World
  | .quiet => w
  | .fails => w.fail
  | .invalidates => w.invalidate.fail

def serverStep (s : State) (index : ℕ) (event : ServerEvent) : Option State :=
  s.world.servers[index]?.bind fun server =>
    if event matches .ready ∧ server.downloadBegan = none then none
    else
      (server.generation.step event).map fun (generation, effect) =>
        { s with world := { s.world with
          servers := s.world.servers.set index { server with generation } }.apply effect }

/-- `run_server` is polled for the first time. -/
def beginDownload (s : State) (index : ℕ) : Option State :=
  s.world.servers[index]?.bind fun server =>
    if server.live ∧ server.generation.phase = .starting ∧ server.downloadBegan = none then
      some { s with
        world := { s.world with
          servers := s.world.servers.set index { server with downloadBegan := some s.clock } }
        clock := s.clock + 1 }
    else none

/-- A notification wakes the waiting watcher or is stored. -/
def notifyOne (s : State) : State :=
  if s.watcher = .waiting then { s with watcher := .woken } else { s with permit := true }

def step (s : State) : Event → Option State
  | .shutdownRequested => some { s with world := s.world.fail }
  | .main event => mainStep s event
  | .watcher event => watcherStep s event
  | .downloadBegins index => beginDownload s index
  | .server index event => serverStep s index event
  | .commandSets => some { s with doCertRefresh := true, pending := s.pending + 1 }
  | .commandNotifies =>
    if s.pending = 0 then none
    else
      let s := notifyOne s
      some { s with pending := s.pending - 1, clock := s.clock + 1, lastHandled := some s.clock }

/-! ## What the calls keep -/

/-- What a call knows. The slot belongs to the one that holds the guard. -/
def Knows (w : World) : Activity → Prop
  | .starting (.locking late) | .starting (.locked late) => late = true → w.shutdown = true
  | .starting (.allowed late) => late = false
  | .stopping (.draining index) | .stopping (.aborting index) => w.slot = some index
  | _ => True

/-- The slot and two callers: one of them at most holds the guard, every live server is in the slot,
and no server was started late. -/
structure Core (w : World) (a b : Activity) : Prop where
  exclusive : a.holds → b.holds = false
  locked : a.holds ∨ b.holds → w.locked
  live : ∀ (i : ℕ) (server : Server), w.servers[i]? = some server → server.live → w.slot = some i
  early : ∀ server ∈ w.servers, server.late = false
  knowsLeft : Knows w a
  knowsRight : Knows w b

section Calls

variable {w w' : World} {a b : Activity}

theorem Core.symm (h : Core w a b) : Core w b a where
  exclusive hb := by
    cases ha : a.holds with
    | false => rfl
    | true => exact absurd hb (by simp [h.exclusive ha])
  locked hab := h.locked hab.symm
  live := h.live
  early := h.early
  knowsLeft := h.knowsRight
  knowsRight := h.knowsLeft

/-- What a caller knows depends on the slot only while it holds the guard. -/
theorem Knows.congr (h : Knows w a) (hslot : a.holds → w'.slot = w.slot)
    (hshutdown : w.shutdown → w'.shutdown) : Knows w' a := by
  cases a with
  | idle => trivial
  | starting call =>
    cases call with
    | locking late => exact fun hlate => hshutdown (h hlate)
    | locked late => exact fun hlate => hshutdown (h hlate)
    | allowed late => exact h
    | awaitingReady index => trivial
  | stopping call =>
    cases call with
    | locking => trivial
    | draining index => exact (hslot rfl).trans h
    | aborting index => exact (hslot rfl).trans h

theorem Core.fail (h : Core w a b) : Core w.fail a b where
  exclusive := h.exclusive
  locked := h.locked
  live := h.live
  early := h.early
  knowsLeft := h.knowsLeft.congr (fun _ => rfl) (fun _ => rfl)
  knowsRight := h.knowsRight.congr (fun _ => rfl) (fun _ => rfl)

theorem Core.allow (h : Core w a b) (allowed : Bool) : Core (w.allow allowed) a b where
  exclusive := h.exclusive
  locked := h.locked
  live := h.live
  early := h.early
  knowsLeft := h.knowsLeft.congr (fun _ => rfl) id
  knowsRight := h.knowsRight.congr (fun _ => rfl) id

theorem Core.invalidate (h : Core w a b) : Core w.invalidate a b where
  exclusive := h.exclusive
  locked := h.locked
  live := h.live
  early := h.early
  knowsLeft := h.knowsLeft.congr (fun _ => rfl) id
  knowsRight := h.knowsRight.congr (fun _ => rfl) id

/-- The servers change, and none of them comes to life. -/
theorem Core.servers (h : Core w a b) {servers : List Server}
    (hservers : ∀ (i : ℕ) (server : Server), servers[i]? = some server →
      ∃ old, w.servers[i]? = some old ∧ (server.live → old.live) ∧ server.late = old.late) :
    Core { w with servers } a b where
  exclusive := h.exclusive
  locked := h.locked
  live i server hget hlive := by
    obtain ⟨old, hold, hlive', -⟩ := hservers i server hget
    exact h.live i old hold (hlive' hlive)
  early server hmem := by
    obtain ⟨i, hget⟩ := List.mem_iff_getElem?.mp hmem
    obtain ⟨old, hold, -, hlate⟩ := hservers i server hget
    exact hlate.trans (h.early old (List.mem_of_getElem? hold))
  knowsLeft := h.knowsLeft.congr (fun _ => rfl) id
  knowsRight := h.knowsRight.congr (fun _ => rfl) id

theorem Core.modify (h : Core w a b) (index : ℕ) {f : Server → Server}
    (hf : ∀ server, ((f server).live → server.live) ∧ (f server).late = server.late) :
    Core { w with servers := w.servers.modify index f } a b := by
  refine h.servers fun i server hget => ?_
  rw [List.getElem?_modify] at hget
  obtain ⟨old, hold, rfl⟩ := Option.map_eq_some_iff.mp hget
  refine ⟨old, hold, ?_⟩
  split_ifs
  · exact hf old
  · exact ⟨id, rfl⟩

theorem Core.set (h : Core w a b) {index : ℕ} {old : Server}
    (hget : w.servers[index]? = some old) (server : Server) (hlive : server.live → old.live)
    (hlate : server.late = old.late) :
    Core { w with servers := w.servers.set index server } a b := by
  refine h.servers fun i other hother => ?_
  rw [List.getElem?_set] at hother
  split_ifs at hother with heq hlt
  · cases hother
    exact ⟨old, heq ▸ hget, hlive, hlate⟩
  · exact ⟨other, hother, id, rfl⟩

theorem Core.cancelStop (h : Core w a b) (index : ℕ) : Core (w.cancelStop index) a b :=
  h.modify index fun _ => ⟨id, rfl⟩

theorem Core.abortTask (h : Core w a b) (index : ℕ) : Core (w.abortTask index) a b := by
  refine h.modify index fun server => ⟨fun hlive => ?_, rfl⟩
  revert hlive
  simp only [Server.live]
  cases server.generation.task <;> decide

/-- A caller that holds nothing does something else that holds nothing. -/
theorem Core.become (h : Core w a b) {next : Activity} (hholds : next.holds = false)
    (hknows : Knows w next) : Core w next b where
  exclusive hnext := absurd hnext (by simp [hholds])
  locked hor := by
    rcases hor with hnext | hb
    · exact absurd hnext (by simp [hholds])
    · exact h.locked (.inr hb)
  live := h.live
  early := h.early
  knowsLeft := hknows
  knowsRight := h.knowsRight

theorem Core.unlock (h : Core w a b) (ha : a.holds) {next : Activity}
    (hholds : next.holds = false) (hknows : Knows w next) : Core w.unlock next b where
  exclusive hnext := absurd hnext (by simp [hholds])
  locked hor := by
    rcases hor with hnext | hb
    · exact absurd hnext (by simp [hholds])
    · exact absurd hb (by simp [h.exclusive ha])
  live := h.live
  early := h.early
  knowsLeft := hknows.congr (fun _ => rfl) id
  knowsRight := h.knowsRight.congr (fun _ => rfl) id

/-- A caller that is dropped gives the guard back. -/
theorem Core.release (h : Core w a b) : Core (w.release a) .idle b := by
  cases ha : a.holds with
  | false =>
    simp only [World.release, ha]
    exact h.become rfl trivial
  | true =>
    simp only [World.release, ha]
    exact h.unlock ha rfl trivial

theorem Core.holds_eq_false (h : Core w a b) (hlocked : w.locked = false) : b.holds = false := by
  cases hb : b.holds with
  | false => rfl
  | true => exact absurd (h.locked (.inr hb)) (by simp [hlocked])

/-- The guard is taken. -/
theorem Core.lock (h : Core w a b) (hlocked : w.locked = false) {next : Activity}
    (hknows : Knows { w with locked := true } next) : Core { w with locked := true } next b where
  exclusive _ := h.holds_eq_false hlocked
  locked _ := rfl
  live := h.live
  early := h.early
  knowsLeft := hknows
  knowsRight := h.knowsRight.congr (fun _ => rfl) id

/-- A new server takes the empty slot. -/
theorem Core.spawn (h : Core w a b) (ha : a.holds) (hslot : w.slot = none) (index : ℕ) :
    Core (w.spawn false) (.starting (.awaitingReady index)) b where
  exclusive _ := h.exclusive ha
  locked _ := h.locked (.inl ha)
  live i server hget hlive := by
    simp only [World.spawn] at hget
    rcases Nat.lt_trichotomy i w.servers.length with hlt | heq | hgt
    · rw [List.getElem?_append_left hlt] at hget
      have hold := h.live i server hget hlive
      rw [hslot] at hold
      cases hold
    · exact congrArg some heq.symm
    · rw [List.getElem?_eq_none (by simpa using hgt)] at hget
      cases hget
  early server hmem := by
    rcases List.mem_append.mp hmem with hold | hnew
    · exact h.early server hold
    · obtain rfl := List.mem_singleton.mp hnew
      rfl
  knowsLeft := trivial
  knowsRight := h.knowsRight.congr (fun hb => absurd hb (by simp [h.exclusive ha])) id

/-- The ended server leaves the slot. -/
theorem Core.retire (h : Core w a b) (ha : a.holds) {index : ℕ} {server : Server}
    (hslot : w.slot = some index) (hget : w.servers[index]? = some server)
    (hlive : server.live = false) (clean : Bool) : Core (retire w clean) .idle b := by
  have hcore : Core { w with locked := false, slot := none } .idle b := by
    refine ⟨nofun, fun hor => ?_, fun i other hother hlive' => ?_, h.early, trivial, ?_⟩
    · rcases hor with hidle | hb
      · cases hidle
      · exact absurd hb (by simp [h.exclusive ha])
    · have hi := h.live i other hother hlive'
      rw [hslot] at hi
      cases hi
      rw [hget] at hother
      cases hother
      exact absurd hlive' (by simp [hlive])
    · exact h.knowsRight.congr (fun hb => absurd hb (by simp [h.exclusive ha])) id
  cases clean with
  | false => exact hcore.invalidate
  | true => exact hcore

def Progress.startActivity {ρ : Type} : Progress StartCall ρ → Activity
  | .more call => .starting call
  | .returned _ => .idle

def Progress.stopActivity {ρ : Type} : Progress StopCall ρ → Activity
  | .more call => .stopping call
  | .returned _ => .idle

theorem Core.startServer {call : StartCall} {event : StartEvent}
    {p : Progress StartCall (Except StartError ℕ)} (h : Core w (.starting call) b)
    (hs : startServer w call event = some (w', p)) : Core w' p.startActivity b := by
  cases call with
  | locking late =>
    cases event <;> simp only [ServerGenerations.startServer, reduceCtorEq] at hs
    split_ifs at hs with hlocked
    cases hs
    exact h.lock (Bool.eq_false_iff.mpr hlocked) h.knowsLeft
  | locked late =>
    cases event <;> simp only [ServerGenerations.startServer, reduceCtorEq] at hs
    split_ifs at hs with hshutdown
    · cases hs
      exact h.unlock rfl rfl trivial
    · cases hs
      have hearly : late = false := by
        cases late with
        | false => rfl
        | true => exact absurd (h.knowsLeft rfl) hshutdown
      exact ⟨fun _ => h.exclusive rfl, fun _ => h.locked (.inl rfl), h.live, h.early, hearly, h.knowsRight⟩
  | allowed late =>
    cases event <;> simp only [ServerGenerations.startServer, reduceCtorEq] at hs
    cases hslot : w.slot with
    | some index =>
      rw [hslot] at hs
      cases hs
      exact h.unlock rfl rfl trivial
    | none =>
      rw [hslot] at hs
      cases hs
      obtain rfl : late = false := h.knowsLeft
      exact h.spawn rfl hslot w.servers.length
  | awaitingReady index =>
    cases event <;> simp only [ServerGenerations.startServer, reduceCtorEq] at hs
    · split_ifs at hs
      cases hs
      exact h.unlock rfl rfl trivial
    · cases hs
      exact h.unlock rfl rfl trivial
    · split_ifs at hs
      cases hs
      exact h.unlock rfl rfl trivial

/-- A call that returns leaves an empty slot, and it was the only one with the guard. -/
theorem Core.stopServer {call : StopCall} {event : StopEvent} {p : Progress StopCall Bool}
    (h : Core w (.stopping call) b) (hs : stopServer w call event = some (w', p)) :
    Core w' p.stopActivity b ∧ w'.shutdown = w.shutdown ∧
      ∀ clean, p = .returned clean → w'.slot = none ∧ b.holds = false := by
  cases call with
  | locking =>
    cases event <;> simp only [ServerGenerations.stopServer, reduceCtorEq] at hs
    split_ifs at hs with hlocked
    have hlocked : w.locked = false := Bool.eq_false_iff.mpr hlocked
    cases hslot : w.slot with
    | none =>
      rw [hslot] at hs
      cases hs
      exact ⟨h.become rfl trivial, rfl, fun _ _ => ⟨hslot, h.holds_eq_false hlocked⟩⟩
    | some index =>
      rw [hslot] at hs
      cases hs
      exact ⟨(h.cancelStop index).lock hlocked hslot, rfl, nofun⟩
  | draining index =>
    cases event with
    | proceed =>
      obtain ⟨server, hget, hs⟩ := Option.bind_eq_some_iff.mp hs
      split_ifs at hs with hlive
      cases hs
      have hretire := h.retire rfl h.knowsLeft hget (Bool.eq_false_iff.mpr hlive)
        server.generation.task.joinsOk
      refine ⟨hretire, ?_, fun _ _ => ⟨rfl, h.exclusive rfl⟩⟩
      cases server.generation.task.joinsOk <;> rfl
    | timesOut =>
      cases hs
      have habort := h.abortTask index
      exact ⟨⟨habort.exclusive, habort.locked, habort.live, habort.early, habort.knowsLeft,
        habort.knowsRight⟩, rfl, nofun⟩
  | aborting index =>
    cases event <;> simp only [ServerGenerations.stopServer, reduceCtorEq] at hs
    obtain ⟨server, hget, hs⟩ := Option.bind_eq_some_iff.mp hs
    split_ifs at hs with hlive
    cases hs
    exact ⟨h.retire rfl h.knowsLeft hget (Bool.eq_false_iff.mpr hlive) false, rfl,
      fun _ _ => ⟨rfl, h.exclusive rfl⟩⟩

theorem startServer_shutdown {call : StartCall} {event : StartEvent}
    {p : Progress StartCall (Except StartError ℕ)}
    (hs : startServer w call event = some (w', p)) : w'.shutdown = w.shutdown := by
  cases call <;> cases event <;> simp only [ServerGenerations.startServer, reduceCtorEq] at hs
  all_goals first
    | (split_ifs at hs <;> cases hs <;> rfl)
    | (cases hslot : w.slot <;> rw [hslot] at hs <;> cases hs <;> rfl)
    | (cases hs; rfl)

/-- A call that has not passed the check before the shutdown request does not pass it any more. -/
theorem startServer_of_shutdown {call : StartCall} {event : StartEvent}
    {p : Progress StartCall (Except StartError ℕ)} (hshutdown : w.shutdown)
    (hcall : ∀ late, call ≠ .allowed late) (hs : startServer w call event = some (w', p)) :
    w'.slot = w.slot ∧ ∀ late, p ≠ .more (.allowed late) := by
  cases call with
  | locking late =>
    cases event <;> simp only [ServerGenerations.startServer, reduceCtorEq] at hs
    split_ifs at hs
    cases hs
    exact ⟨rfl, nofun⟩
  | locked late =>
    cases event <;> simp only [ServerGenerations.startServer, reduceCtorEq, hshutdown, if_true] at hs
    cases hs
    exact ⟨rfl, nofun⟩
  | allowed late => exact absurd rfl (hcall late)
  | awaitingReady index =>
    cases event <;> simp only [ServerGenerations.startServer, reduceCtorEq, hshutdown, if_true] at hs
    · split_ifs at hs
      cases hs
      exact ⟨rfl, nofun⟩
    · cases hs
      exact ⟨rfl, nofun⟩
    · cases hs
      exact ⟨rfl, nofun⟩

theorem Core.slot_none_of_stopServer {call : StopCall} {event : StopEvent}
    {p : Progress StopCall Bool} (h : Core w (.stopping call) b) (hslot : w.slot = none)
    (hs : ServerGenerations.stopServer w call event = some (w', p)) : w'.slot = none := by
  cases call with
  | locking =>
    cases event <;> simp only [ServerGenerations.stopServer, reduceCtorEq, hslot] at hs
    split_ifs at hs
    cases hs
    exact hslot
  | draining index =>
    have hdraining : w.slot = some index := h.knowsLeft
    rw [hslot] at hdraining
    cases hdraining
  | aborting index =>
    have haborting : w.slot = some index := h.knowsLeft
    rw [hslot] at haborting
    cases haborting

end Calls

/-! ## Runs -/

/-- Once the final stop has returned, the slot is empty and no call can fill it. -/
structure Inv (s : State) : Prop where
  core : Core s.world s.main.activity s.watcher.activity
  closed : s.main.inOperation = false → s.world.shutdown
  slot : ∀ clean, s.main = .stopped clean → s.world.slot = none
  disallowed : ∀ clean late, s.main = .stopped clean → s.watcher ≠ .starting (.allowed late)

section Runs

variable {s next : State}

theorem inv_initial : Inv State.initial where
  core := ⟨nofun, nofun, nofun, nofun, trivial, trivial⟩
  closed := nofun
  slot := nofun
  disallowed := nofun

theorem Inv.mainStep (h : Inv s) {event : MainEvent} (hstep : mainStep s event = some next) :
    Inv next := by
  cases event with
  | begin =>
    simp only [ServerGenerations.mainStep, Option.ite_none_right_eq_some] at hstep
    obtain ⟨hmain, hnext⟩ := hstep
    cases hnext
    exact ⟨h.core.become rfl id, nofun, nofun, nofun⟩
  | startCall event =>
    cases hmain : s.main with
    | starting call =>
      simp only [ServerGenerations.mainStep, hmain] at hstep
      obtain ⟨⟨world, p⟩, hs, rfl⟩ := Option.map_eq_some_iff.mp hstep
      have hcore := h.core
      simp only [hmain, Main.activity] at hcore
      have hcore := hcore.startServer hs
      match p with
      | .more call => exact ⟨hcore, nofun, nofun, nofun⟩
      | .returned (.ok index) => exact ⟨hcore, nofun, nofun, nofun⟩
      | .returned (.error e) => exact ⟨hcore.fail, fun _ => rfl, nofun, nofun⟩
    | _ => simp [ServerGenerations.mainStep, hmain] at hstep
  | startupCompletes =>
    simp only [ServerGenerations.mainStep, Option.ite_none_right_eq_some] at hstep
    obtain ⟨⟨hmain, hwatcher⟩, hnext⟩ := hstep
    cases hnext
    have hcore : Core s.world .idle s.main.activity := h.core.symm.become rfl trivial
    refine ⟨hcore.symm.allow true, h.closed, ?_, ?_⟩
    · intro clean hstopped
      rw [hmain] at hstopped
      cases hstopped
    · exact fun _ _ _ => nofun
  | operationEnds =>
    simp only [ServerGenerations.mainStep, Option.ite_none_right_eq_some] at hstep
    obtain ⟨hmain, hnext⟩ := hstep
    cases hnext
    exact ⟨h.core.release.fail, fun _ => rfl, nofun, nofun⟩
  | finalStop =>
    simp only [ServerGenerations.mainStep, Option.ite_none_right_eq_some] at hstep
    obtain ⟨hmain, hnext⟩ := hstep
    cases hnext
    have hshutdown := h.closed (by rw [hmain]; rfl)
    have hcore : Core s.world (.stopping .locking) s.watcher.activity := h.core.become rfl trivial
    exact ⟨hcore.allow false, fun _ => hshutdown, nofun, nofun⟩
  | stopCall event =>
    cases hmain : s.main with
    | stopping call =>
      simp only [ServerGenerations.mainStep, hmain] at hstep
      obtain ⟨⟨world, p⟩, hs, rfl⟩ := Option.map_eq_some_iff.mp hstep
      have hshutdown := h.closed (by rw [hmain]; rfl)
      have hcore := h.core
      simp only [hmain, Main.activity] at hcore
      obtain ⟨hcore, hsame, hreturned⟩ := hcore.stopServer hs
      rw [← hsame] at hshutdown
      match p with
      | .more call => exact ⟨hcore, fun _ => hshutdown, nofun, nofun⟩
      | .returned clean =>
        obtain ⟨hslot, hfree⟩ := hreturned clean rfl
        refine ⟨hcore, fun _ => hshutdown, fun _ _ => hslot, fun _ late _ hwatcher => ?_⟩
        have hwatcher : s.watcher = .starting (.allowed late) := hwatcher
        rw [hwatcher] at hfree
        cases hfree
    | _ => simp [ServerGenerations.mainStep, hmain] at hstep

/-- The watcher changes its activity and the world, and the final stop is not undone by it. -/
theorem Inv.watcherBecomes (h : Inv s) (hmain : next.main = s.main)
    (hcore : Core next.world next.watcher.activity s.main.activity)
    (hshutdown : s.world.shutdown → next.world.shutdown)
    (hslot : s.world.shutdown → s.world.slot = none → (∀ late, s.watcher ≠ .starting (.allowed late)) →
      next.world.slot = none ∧ ∀ late, next.watcher ≠ .starting (.allowed late)) : Inv next := by
  have hkept : ∀ clean, next.main = .stopped clean →
      next.world.slot = none ∧ ∀ late, next.watcher ≠ .starting (.allowed late) := by
    intro clean hstopped
    rw [hmain] at hstopped
    exact hslot (h.closed (by rw [hstopped]; rfl)) (h.slot clean hstopped)
      fun late => h.disallowed clean late hstopped
  refine ⟨?_, fun hclosed => ?_, fun clean hstopped => (hkept clean hstopped).1,
    fun clean late hstopped => (hkept clean hstopped).2 late⟩
  · rw [hmain]
    exact hcore.symm
  · rw [hmain] at hclosed
    exact hshutdown (h.closed hclosed)

theorem Inv.watcherProceeds (h : Inv s) (hstep : watcherStep s .proceed = some next) : Inv next := by
  have hidle : Core s.world .idle s.main.activity := h.core.symm.become rfl trivial
  cases hwatcher : s.watcher with
  | listening =>
    simp only [ServerGenerations.watcherStep, hwatcher] at hstep
    split_ifs at hstep
    · cases hstep
      exact h.watcherBecomes rfl hidle id fun _ hslot _ => ⟨hslot, nofun⟩
    · cases hstep
      exact h.watcherBecomes rfl hidle id fun _ hslot _ => ⟨hslot, nofun⟩
  | woken =>
    simp only [ServerGenerations.watcherStep, hwatcher] at hstep
    cases hstep
    refine h.watcherBecomes rfl ?_ id fun _ hslot _ => ⟨hslot, ?_⟩
    · cases s.doCertRefresh <;> exact hidle
    · cases s.doCertRefresh <;> exact nofun
  | retrying =>
    simp only [ServerGenerations.watcherStep, hwatcher] at hstep
    cases hstep
    exact h.watcherBecomes rfl hidle id fun _ hslot _ => ⟨hslot, nofun⟩
  | delaying =>
    simp only [ServerGenerations.watcherStep, hwatcher] at hstep
    cases hstep
    have hstop : Core s.world (.stopping .locking) s.main.activity := hidle.become rfl trivial
    exact h.watcherBecomes rfl (hstop.allow false) id fun _ hslot _ => ⟨hslot, nofun⟩
  | pausing =>
    simp only [ServerGenerations.watcherStep, hwatcher] at hstep
    cases hstep
    exact h.watcherBecomes rfl (hidle.become rfl id) id fun _ hslot _ => ⟨hslot, nofun⟩
  | restarted index =>
    simp only [ServerGenerations.watcherStep, hwatcher] at hstep
    split_ifs at hstep
    · cases hstep
      exact h.watcherBecomes rfl hidle id fun _ hslot _ => ⟨hslot, nofun⟩
    · cases hstep
      exact h.watcherBecomes rfl (hidle.allow true) id fun _ hslot _ => ⟨hslot, nofun⟩
  | _ => simp [ServerGenerations.watcherStep, hwatcher] at hstep

theorem Inv.watcherStep (h : Inv s) {event : WatcherEvent} (hstep : watcherStep s event = some next) :
    Inv next := by
  cases event with
  | proceed => exact h.watcherProceeds hstep
  | suspended ok =>
    simp only [ServerGenerations.watcherStep, Option.ite_none_right_eq_some] at hstep
    obtain ⟨hwatcher, hnext⟩ := hstep
    cases hnext
    refine h.watcherBecomes rfl ?_ id fun _ hslot _ => ⟨hslot, ?_⟩
    · cases ok <;> exact h.core.symm.become rfl trivial
    · cases ok <;> exact nofun
  | stopCall event =>
    cases hwatcher : s.watcher with
    | stopping call =>
      simp only [ServerGenerations.watcherStep, hwatcher] at hstep
      obtain ⟨⟨world, p⟩, hs, rfl⟩ := Option.map_eq_some_iff.mp hstep
      have hcore := h.core.symm
      simp only [hwatcher, Watcher.activity] at hcore
      have hempty : s.world.slot = none → world.slot = none :=
        fun hslot => hcore.slot_none_of_stopServer hslot hs
      obtain ⟨hcore, hsame, -⟩ := hcore.stopServer hs
      have hshutdown : s.world.shutdown → world.shutdown := fun hs => hsame.trans hs
      match p with
      | .more call =>
        exact h.watcherBecomes rfl hcore hshutdown fun _ hslot _ => ⟨hempty hslot, nofun⟩
      | .returned true =>
        exact h.watcherBecomes rfl hcore hshutdown fun _ hslot _ => ⟨hempty hslot, nofun⟩
      | .returned false =>
        exact h.watcherBecomes rfl hcore.fail (fun _ => rfl) fun _ hslot _ => ⟨hempty hslot, nofun⟩
    | _ => simp [ServerGenerations.watcherStep, hwatcher] at hstep
  | startCall event =>
    cases hwatcher : s.watcher with
    | starting call =>
      simp only [ServerGenerations.watcherStep, hwatcher] at hstep
      obtain ⟨⟨world, p⟩, hs, rfl⟩ := Option.map_eq_some_iff.mp hstep
      have hcore := h.core.symm
      simp only [hwatcher, Watcher.activity] at hcore
      have hcore := hcore.startServer hs
      have hshutdown : s.world.shutdown → world.shutdown := fun h => (startServer_shutdown hs).trans h
      have hempty : s.world.shutdown → s.world.slot = none →
          (∀ late, s.watcher ≠ .starting (.allowed late)) →
          world.slot = none ∧ ∀ late, p ≠ .more (.allowed late) := by
        intro hshut hslot hne
        have hcall : ∀ late, call ≠ .allowed late := by
          rintro late rfl
          exact hne late hwatcher
        obtain ⟨hsame, hnot⟩ := startServer_of_shutdown hshut hcall hs
        exact ⟨hsame.trans hslot, hnot⟩
      match p with
      | .more call =>
        refine h.watcherBecomes rfl hcore hshutdown fun hshut hslot hne => ?_
        obtain ⟨hslot', hnot⟩ := hempty hshut hslot hne
        exact ⟨hslot', fun late heq => hnot late (by cases heq; rfl)⟩
      | .returned (.ok index) =>
        exact h.watcherBecomes rfl hcore hshutdown fun hshut hslot hne =>
          ⟨(hempty hshut hslot hne).1, nofun⟩
      | .returned (.error .shutdown) =>
        exact h.watcherBecomes rfl hcore hshutdown fun hshut hslot hne =>
          ⟨(hempty hshut hslot hne).1, nofun⟩
      | .returned (.error .alreadyRunning) =>
        exact h.watcherBecomes rfl hcore.fail (fun _ => rfl) fun hshut hslot hne =>
          ⟨(hempty hshut hslot hne).1, nofun⟩
      | .returned (.error .notReady) =>
        exact h.watcherBecomes rfl hcore.fail (fun _ => rfl) fun hshut hslot hne =>
          ⟨(hempty hshut hslot hne).1, nofun⟩
    | _ => simp [ServerGenerations.watcherStep, hwatcher] at hstep
  | resumed fatal =>
    cases hwatcher : s.watcher with
    | resuming index =>
      simp only [ServerGenerations.watcherStep, hwatcher] at hstep
      have hcore : Core s.world .idle s.main.activity := h.core.symm.become rfl trivial
      split_ifs at hstep
      · cases hstep
        exact h.watcherBecomes rfl hcore.fail (fun _ => rfl) fun _ hslot _ => ⟨hslot, nofun⟩
      · cases hstep
        exact h.watcherBecomes rfl hcore id fun _ hslot _ => ⟨hslot, nofun⟩
    | _ => simp [ServerGenerations.watcherStep, hwatcher] at hstep
  | dropped =>
    simp only [ServerGenerations.watcherStep, Option.ite_none_right_eq_some] at hstep
    obtain ⟨-, hnext⟩ := hstep
    cases hnext
    refine h.watcherBecomes rfl h.core.symm.release (fun hshut => ?_) fun _ hslot _ => ⟨?_, nofun⟩
    · simp only [World.release]
      split_ifs <;> exact hshut
    · simp only [World.release]
      split_ifs <;> exact hslot

/-- Only the world changes, and the slot does not. -/
theorem Inv.worldBecomes (h : Inv s) {world : World}
    (hcore : Core world s.main.activity s.watcher.activity) (hslot : world.slot = s.world.slot)
    (hshutdown : s.world.shutdown → world.shutdown) : Inv { s with world } where
  core := hcore
  closed hmain := hshutdown (h.closed hmain)
  slot clean hmain := hslot.trans (h.slot clean hmain)
  disallowed := h.disallowed

theorem Inv.serverStep (h : Inv s) {index : ℕ} {event : ServerEvent}
    (hstep : serverStep s index event = some next) : Inv next := by
  obtain ⟨server, hget, hstep⟩ := Option.bind_eq_some_iff.mp hstep
  rw [Option.ite_none_left_eq_some] at hstep
  obtain ⟨⟨generation, effect⟩, hgeneration, rfl⟩ := Option.map_eq_some_iff.mp hstep.2
  have hcore := h.core.set hget { server with generation } (Generation.live_of_step hgeneration) rfl
  cases effect with
  | quiet => exact h.worldBecomes hcore rfl id
  | fails => exact h.worldBecomes hcore.fail rfl fun _ => rfl
  | invalidates => exact h.worldBecomes hcore.invalidate.fail rfl fun _ => rfl

theorem Inv.beginDownload (h : Inv s) {index : ℕ} (hstep : beginDownload s index = some next) :
    Inv next := by
  obtain ⟨server, hget, hstep⟩ := Option.bind_eq_some_iff.mp hstep
  rw [Option.ite_none_right_eq_some] at hstep
  obtain ⟨-, hnext⟩ := hstep
  cases hnext
  have hcore := h.core.set hget { server with downloadBegan := some s.clock } id rfl
  have hworld := h.worldBecomes hcore rfl id
  exact ⟨hworld.core, hworld.closed, hworld.slot, hworld.disallowed⟩

theorem Inv.step (h : Inv s) {event : Event} (hstep : step s event = some next) : Inv next := by
  cases event with
  | shutdownRequested =>
    cases hstep
    exact h.worldBecomes h.core.fail rfl fun _ => rfl
  | main event => exact h.mainStep hstep
  | watcher event => exact h.watcherStep hstep
  | downloadBegins index => exact h.beginDownload hstep
  | server index event => exact h.serverStep hstep
  | commandSets =>
    cases hstep
    exact ⟨h.core, h.closed, h.slot, h.disallowed⟩
  | commandNotifies =>
    simp only [ServerGenerations.step, notifyOne, Option.ite_none_left_eq_some] at hstep
    obtain ⟨-, hnext⟩ := hstep
    cases hnext
    have hidle : Core s.world .idle s.main.activity := h.core.symm.become rfl trivial
    by_cases hwaiting : s.watcher = .waiting
    · refine h.watcherBecomes ?_ ?_ ?_ fun _ hslot _ => ?_ <;> simp only [hwaiting, if_true]
      · exact hidle
      · exact id
      · exact ⟨hslot, nofun⟩
    · simp only [hwaiting, if_false]
      exact ⟨h.core, h.closed, h.slot, h.disallowed⟩

/-- At most one server task is alive, none was spawned by a `start_server` that began after the
shutdown request, and when the final `stop_server` has returned, the slot is empty and no
server task is alive. -/
theorem generations_do_not_overlap (events : List Event) (s : State)
    (hrun : run ServerGenerations.step State.initial events = some s) :
    (∀ (i j : ℕ) (a b : Server), s.world.servers[i]? = some a → s.world.servers[j]? = some b →
      a.live → b.live → i = j) ∧
    (∀ server ∈ s.world.servers, server.late = false) ∧
    (∀ clean, s.main = .stopped clean →
      s.world.slot = none ∧ ∀ server ∈ s.world.servers, server.live = false) := by
  have hinv : Inv s :=
    run_invariant (fun _ _ _ h _ hs => h.step hs) inv_initial (allSteps_true _ events) hrun
  refine ⟨fun i j a b ha hb hlive hlive' => ?_, hinv.core.early, fun clean hmain => ?_⟩
  · have hi := hinv.core.live i a ha hlive
    rw [hinv.core.live j b hb hlive'] at hi
    exact (Option.some.inj hi).symm
  · have hslot := hinv.slot clean hmain
    refine ⟨hslot, fun server hmem => ?_⟩
    obtain ⟨i, hget⟩ := List.mem_iff_getElem?.mp hmem
    cases hlive : server.live with
    | false => rfl
    | true =>
      have hi := hinv.core.live i server hget hlive
      rw [hslot] at hi
      cases hi

end Runs

/-- The first server starts and a command makes the watcher exchange it, up to the spawn of the
second one. -/
def exchange : List Event :=
  [.main .begin, .main (.startCall .proceed), .main (.startCall .proceed),
    .main (.startCall .proceed), .downloadBegins 0, .server 0 .ready, .main (.startCall .ready),
    .main .startupCompletes, .commandSets, .commandNotifies, .watcher .proceed, .watcher .proceed,
    .watcher (.suspended true), .watcher .proceed, .watcher (.stopCall .proceed),
    .server 0 .stopSeen, .server 0 .drained, .watcher (.stopCall .proceed), .watcher .proceed,
    .watcher (.startCall .proceed), .watcher (.startCall .proceed), .watcher (.startCall .proceed)]

/-- The shutdown drops the watcher while it waits for the second server. -/
def interruptedExchange : List Event :=
  exchange ++ [.shutdownRequested, .watcher .dropped, .main .operationEnds, .main .finalStop,
    .main (.stopCall .proceed), .server 1 .stopSeen, .main (.stopCall .proceed)]

theorem generations_do_not_overlap_of_interruptedExchange :
    ∃ s, run step State.initial interruptedExchange = some s ∧ s.world.servers.length = 2 ∧
      s.main = .stopped true ∧ s.world.slot = none ∧
      ∀ server ∈ s.world.servers, server.live = false := by
  have hrun : (run step State.initial interruptedExchange).map
      (fun s => (s.world.servers.length, s.main)) = some (2, .stopped true) := by decide +kernel
  obtain ⟨s, hs, heq⟩ := Option.map_eq_some_iff.mp hrun
  obtain ⟨hlength, hmain⟩ := Prod.mk.inj heq
  obtain ⟨-, -, hstopped⟩ := generations_do_not_overlap interruptedExchange s hs
  exact ⟨s, hs, hlength, hmain, hstopped true hmain⟩

end HathRs.ServerGenerations
