import Mathlib

/-!
# Spawned tasks, transfers and server generations

A task that is spawned runs until it returns, panics or is aborted, and its join handle
tells which. Transfers live in one join set that can be closed for good. A generation of
the server is a task of its own with a join set of connections; whatever makes it return
before its connections have ended drops the set and thereby aborts them.
-/

namespace HathRs.TaskLifecycles

/-! ## Tasks -/

/-- `caught` is a task whose body panicked inside a `catch_unwind` and that then returned. -/
inductive Status where
  | running
  /-- An abort was requested. The task can still return before it takes effect. -/
  | aborting
  | finished
  | caught
  | panicked
  | aborted
  deriving DecidableEq

namespace Status

def live : Status → Bool
  | .running | .aborting => true
  | _ => false

/-- The join handle gives `Ok`. -/
def joinsOk : Status → Bool
  | .finished | .caught => true
  | _ => false

def abort : Status → Status
  | .running => .aborting
  | status => status

/-- A task that nobody aborted does not end as an aborted one. -/
def canEnd (status outcome : Status) : Bool :=
  status.live && !outcome.live && (outcome != .aborted || status == .aborting)

theorem eq_finished_of_joinsOk {status : Status} (h : status.joinsOk) (hc : status ≠ .caught) :
    status = .finished := by
  cases status <;> simp_all [joinsOk]

theorem abort_ne_caught {status : Status} (h : status ≠ .caught) : status.abort ≠ .caught := by
  cases status <;> simp_all [abort]

end Status

/-! ## Transfers -/

/-- `tasks` is the join set, `isOpen` tells that it has not been taken for the shutdown, and
`joined` keeps the tasks that have left it. -/
structure TransferTasks where
  isOpen : Bool
  tasks : List Status
  joined : List Status
  clean : Bool

namespace TransferTasks

def new : TransferTasks := ⟨true, [], [], true⟩

def invalidate (t : TransferTasks) : TransferTasks := { t with clean := false }

/-- The ended tasks are joined before the new one is added. -/
def spawn (t : TransferTasks) : Option TransferTasks :=
  if t.isOpen then
    let ended := t.tasks.filter fun task => !task.live
    some { t with
      tasks := t.tasks.filter Status.live ++ [.running]
      joined := t.joined ++ ended
      clean := t.clean && ended.all Status.joinsOk }
  else none

/-- The wrapper of a transfer that catches a panic clears the flag itself. -/
def endTask (t : TransferTasks) (index : ℕ) (outcome : Status) : Option TransferTasks :=
  match t.tasks[index]? with
  | none => none
  | some task =>
    if task.canEnd outcome then
      some { t with tasks := t.tasks.set index outcome, clean := t.clean && outcome != .caught }
    else none

/-- `take` in `finish`. -/
def close (t : TransferTasks) : TransferTasks := { t with isOpen := false }

/-- One `join_next` of `finish`. -/
def joinNext (t : TransferTasks) (index : ℕ) : Option TransferTasks :=
  match t.tasks[index]? with
  | none => none
  | some task =>
    if task.live then none
    else some { t with
      tasks := t.tasks.eraseIdx index
      joined := t.joined ++ [task]
      clean := t.clean && task.joinsOk }

/-- The deadline of `finish` has passed. -/
def abortAll (t : TransferTasks) : TransferTasks :=
  { t.invalidate with tasks := t.tasks.map Status.abort }

/-- As long as the flag is set, everything that was joined had finished, and no task has
had a panic caught. -/
structure Sound (t : TransferTasks) : Prop where
  joined : ∀ task ∈ t.joined, task = .finished
  uncaught : ∀ task ∈ t.tasks, task ≠ .caught

variable {t t' : TransferTasks}

theorem spawn_eq_none (h : t.isOpen = false) : t.spawn = none := by
  simp [spawn, h]

theorem clean_of_spawn (h : t.spawn = some t') (hc : t'.clean) : t.clean := by
  simp only [spawn, Option.ite_none_right_eq_some, Option.some.injEq] at h
  obtain ⟨-, rfl⟩ := h
  exact (Bool.and_eq_true_iff.mp hc).1

theorem Sound.spawn (hs : t.Sound) (h : t.spawn = some t') (hc : t'.clean) : t'.Sound := by
  simp only [TransferTasks.spawn, Option.ite_none_right_eq_some, Option.some.injEq] at h
  obtain ⟨-, rfl⟩ := h
  have hended := List.all_eq_true.mp (Bool.and_eq_true_iff.mp hc).2
  refine ⟨fun task htask => ?_, fun task htask => ?_⟩
  · rcases List.mem_append.mp htask with hold | hnew
    · exact hs.joined task hold
    · exact Status.eq_finished_of_joinsOk (hended task hnew)
        (hs.uncaught task (List.mem_filter.mp hnew).1)
  · rcases List.mem_append.mp htask with hold | hnew
    · exact hs.uncaught task (List.mem_filter.mp hold).1
    · obtain rfl := List.mem_singleton.mp hnew
      decide

theorem endTask_cases {index : ℕ} {outcome : Status} (h : t.endTask index outcome = some t') :
    ∃ task ∈ t.tasks, task.canEnd outcome ∧
      t' = { t with tasks := t.tasks.set index outcome, clean := t.clean && outcome != .caught } := by
  simp only [endTask] at h
  cases htask : t.tasks[index]? with
  | none => simp [htask] at h
  | some task =>
    simp only [htask, Option.ite_none_right_eq_some, Option.some.injEq] at h
    exact ⟨task, List.mem_of_getElem? htask, h.1, h.2.symm⟩

theorem Sound.endTask (hs : t.Sound) {index : ℕ} {outcome : Status}
    (h : t.endTask index outcome = some t') (hc : t'.clean) : t'.Sound := by
  obtain ⟨task, -, -, rfl⟩ := endTask_cases h
  refine ⟨hs.joined, fun other hother => ?_⟩
  rcases List.mem_or_eq_of_mem_set hother with hold | rfl
  · exact hs.uncaught other hold
  · simpa using (Bool.and_eq_true_iff.mp hc).2

theorem joinNext_cases {index : ℕ} (h : t.joinNext index = some t') :
    ∃ task ∈ t.tasks, task.live = false ∧
      t' = { t with
        tasks := t.tasks.eraseIdx index
        joined := t.joined ++ [task]
        clean := t.clean && task.joinsOk } := by
  simp only [joinNext] at h
  cases htask : t.tasks[index]? with
  | none => simp [htask] at h
  | some task =>
    simp only [htask, Option.ite_none_left_eq_some, Option.some.injEq] at h
    exact ⟨task, List.mem_of_getElem? htask, by simpa using h.1, h.2.symm⟩

theorem Sound.joinNext (hs : t.Sound) {index : ℕ} (h : t.joinNext index = some t')
    (hc : t'.clean) : t'.Sound := by
  obtain ⟨task, hmem, -, rfl⟩ := joinNext_cases h
  refine ⟨fun other hother => ?_, fun other hother => hs.uncaught other (List.mem_of_mem_eraseIdx hother)⟩
  rcases List.mem_append.mp hother with hold | hnew
  · exact hs.joined other hold
  · obtain rfl := List.mem_singleton.mp hnew
    exact Status.eq_finished_of_joinsOk (Bool.and_eq_true_iff.mp hc).2 (hs.uncaught other hmem)

end TransferTasks

/-! ## Server generations -/

inductive Phase where
  /-- The certificate is fetched and the listener bound. -/
  | starting
  | accepting
  /-- The listener is dropped and the connections are joined. -/
  | draining
  deriving DecidableEq

structure Generation where
  stop : Bool
  phase : Phase
  task : Status
  connections : List Status
  joined : List Status

inductive ServerEvent where
  | ready
  /-- A startup step fails. Only a failed bind is fatal to the process by itself. -/
  | startFails (fatal : Bool)
  | stopSeen
  | accept
  | connectionEnds (index : ℕ) (outcome : Status)
  | joinConnection (index : ℕ)
  | drained
  | panics (caught : Bool)
  | aborted

/-- What a generation does to the rest of the process: nothing, `shutdown.fail`, or that
after `transfers.invalidate`. -/
inductive Effect where
  | quiet
  | fails
  | invalidates
  deriving DecidableEq

namespace Generation

def start : Generation := ⟨false, .starting, .running, [], []⟩

/-- The join set is dropped with what is left in it. -/
def dropConnections (g : Generation) : Generation :=
  { g with connections := g.connections.map Status.abort }

/-- The first connection that does not join well ends the generation. -/
def joinConnection (g : Generation) (index : ℕ) : Option (Generation × Effect) :=
  match g.connections[index]? with
  | none => none
  | some connection =>
    let left := { g with
      connections := g.connections.eraseIdx index, joined := g.joined ++ [connection] }
    if connection.live then none
    else if connection.joinsOk then some (left, .quiet)
    else some ({ left.dropConnections with task := .finished }, .invalidates)

def endConnection (g : Generation) (index : ℕ) (outcome : Status) :
    Option (Generation × Effect) :=
  match g.connections[index]? with
  | none => none
  | some connection =>
    if connection.canEnd outcome && outcome != .caught then
      some ({ g with connections := g.connections.set index outcome }, .quiet)
    else none

/-- `run_server` inside the task that `start_server` spawns. -/
def step (g : Generation) : ServerEvent → Option (Generation × Effect)
  | .ready =>
    if g.task.live ∧ g.phase = .starting then some ({ g with phase := .accepting }, .quiet)
    else none
  | .startFails fatal =>
    if g.task.live ∧ g.phase = .starting then
      some ({ g with task := .finished }, if fatal then .fails else .quiet)
    else none
  | .stopSeen =>
    if g.task.live ∧ g.stop ∧ g.phase ≠ .draining then
      if g.phase = .starting then some ({ g with task := .finished }, .quiet)
      else some ({ g with phase := .draining }, .quiet)
    else none
  | .accept =>
    if g.task.live ∧ g.phase = .accepting then
      some ({ g with connections := g.connections ++ [.running] }, .quiet)
    else none
  | .connectionEnds index outcome => g.endConnection index outcome
  | .joinConnection index =>
    if g.task.live ∧ g.phase ≠ .starting then g.joinConnection index else none
  | .drained =>
    if g.task.live ∧ g.phase = .draining ∧ g.connections = [] then
      some ({ g with task := .finished }, .quiet)
    else none
  | .panics caught =>
    if g.task.live then
      some ({ g.dropConnections with task := if caught then .caught else .panicked },
        if caught then .invalidates else .quiet)
    else none
  | .aborted =>
    if g.task = .aborting then some ({ g.dropConnections with task := .aborted }, .quiet) else none

/-- What holds of a generation as long as it has invalidated nothing. -/
structure Sound (g : Generation) : Prop where
  joined : ∀ connection ∈ g.joined, connection = .finished
  uncaught : ∀ connection ∈ g.connections, connection ≠ .caught
  task : g.task ≠ .caught
  starting : g.phase = .starting → g.connections = []
  drained : g.task = .finished → g.connections = []

/-- A generation that came to its end with all its connections. -/
structure Ended (g : Generation) : Prop where
  task : g.task = .finished
  connections : g.connections = []
  joined : ∀ connection ∈ g.joined, connection = .finished

variable {g g' : Generation} {effect : Effect}

theorem Sound.start : Generation.start.Sound :=
  ⟨by simp [Generation.start], by simp [Generation.start], by decide, fun _ => rfl, fun _ => rfl⟩

theorem Sound.ended (hs : g.Sound) (h : g.task = .finished) : g.Ended :=
  ⟨h, hs.drained h, hs.joined⟩

/-- A connection of a sound generation is joined in silence only if it finished. -/
theorem Sound.joinConnection (hs : g.Sound) (hlive : g.task.live) (hphase : g.phase ≠ .starting)
    {index : ℕ} (h : g.joinConnection index = some (g', effect)) (hq : effect ≠ .invalidates) :
    g'.Sound := by
  simp only [Generation.joinConnection] at h
  cases hget : g.connections[index]? with
  | none => simp [hget] at h
  | some connection =>
    simp only [hget, Option.ite_none_left_eq_some] at h
    obtain ⟨-, h⟩ := h
    split_ifs at h with hok
    · cases h
      refine ⟨fun other hother => ?_, fun other hother => ?_, hs.task, fun hstart => (hphase hstart).elim,
        fun hfinished => ?_⟩
      · rcases List.mem_append.mp hother with hold | hnew
        · exact hs.joined other hold
        · obtain rfl := List.mem_singleton.mp hnew
          exact Status.eq_finished_of_joinsOk hok (hs.uncaught other (List.mem_of_getElem? hget))
      · exact hs.uncaught other (List.mem_of_mem_eraseIdx hother)
      · exact absurd hlive (by rw [show g.task = .finished from hfinished]; decide)
    · cases h
      exact (hq rfl).elim

theorem Sound.endConnection (hs : g.Sound) {index : ℕ} {outcome : Status}
    (h : g.endConnection index outcome = some (g', effect)) : g'.Sound := by
  simp only [Generation.endConnection] at h
  cases hget : g.connections[index]? with
  | none => simp [hget] at h
  | some connection =>
    simp only [hget, Option.ite_none_right_eq_some, Bool.and_eq_true, Option.some.injEq] at h
    obtain ⟨⟨-, hcaught⟩, h⟩ := h
    cases h
    have hne : g.connections ≠ [] := List.ne_nil_of_mem (List.mem_of_getElem? hget)
    refine ⟨hs.joined, fun other hother => ?_, hs.task, fun hstart => absurd (hs.starting hstart) hne,
      fun hfinished => absurd (hs.drained hfinished) hne⟩
    rcases List.mem_or_eq_of_mem_set hother with hold | rfl
    · exact hs.uncaught other hold
    · simpa using hcaught

theorem Sound.dropConnections (hs : g.Sound) {status : Status} (hcaught : status ≠ .caught)
    (hfinished : status ≠ .finished) : Sound { g.dropConnections with task := status } := by
  refine ⟨hs.joined, fun other hother => ?_, hcaught, fun hstart => ?_, fun h => (hfinished h).elim⟩
  · obtain ⟨connection, hmem, rfl⟩ := List.mem_map.mp hother
    exact Status.abort_ne_caught (hs.uncaught connection hmem)
  · simp [Generation.dropConnections, hs.starting hstart]

theorem Sound.abort (hs : g.Sound) : Sound { g with task := g.task.abort } := by
  refine ⟨hs.joined, hs.uncaught, Status.abort_ne_caught hs.task, hs.starting, fun h => ?_⟩
  apply hs.drained
  revert h
  cases g.task <;> simp [Status.abort]

theorem Sound.stop (hs : g.Sound) : Sound { g with stop := true } :=
  ⟨hs.joined, hs.uncaught, hs.task, hs.starting, hs.drained⟩

/-- Every event of a generation that does not invalidate keeps it sound. -/
theorem Sound.step (hs : g.Sound) {event : ServerEvent} (h : g.step event = some (g', effect))
    (hq : effect ≠ .invalidates) : g'.Sound := by
  cases event with
  | ready =>
    simp only [Generation.step, Option.ite_none_right_eq_some, Option.some.injEq] at h
    obtain ⟨⟨-, hphase⟩, h⟩ := h
    cases h
    exact ⟨hs.joined, hs.uncaught, hs.task, nofun, hs.drained⟩
  | startFails fatal =>
    simp only [Generation.step, Option.ite_none_right_eq_some, Option.some.injEq] at h
    obtain ⟨⟨-, hphase⟩, h⟩ := h
    cases h
    exact ⟨hs.joined, hs.uncaught, nofun, hs.starting, fun _ => hs.starting hphase⟩
  | stopSeen =>
    simp only [Generation.step, Option.ite_none_right_eq_some] at h
    obtain ⟨-, h⟩ := h
    split_ifs at h with hphase
    · cases h
      exact ⟨hs.joined, hs.uncaught, nofun, hs.starting, fun _ => hs.starting hphase⟩
    · cases h
      exact ⟨hs.joined, hs.uncaught, hs.task, nofun, hs.drained⟩
  | accept =>
    simp only [Generation.step, Option.ite_none_right_eq_some, Option.some.injEq] at h
    obtain ⟨⟨hlive, hphase⟩, h⟩ := h
    cases h
    refine ⟨hs.joined, fun other hother => ?_, hs.task, fun hstart => ?_, fun hfinished => ?_⟩
    · rcases List.mem_append.mp hother with hold | hnew
      · exact hs.uncaught other hold
      · obtain rfl := List.mem_singleton.mp hnew
        decide
    · exact absurd (hphase.symm.trans hstart) (by decide)
    · exact absurd hlive (by rw [show g.task = .finished from hfinished]; decide)
  | connectionEnds index outcome => exact hs.endConnection h
  | joinConnection index =>
    simp only [Generation.step, Option.ite_none_right_eq_some] at h
    exact hs.joinConnection h.1.1 h.1.2 h.2 hq
  | drained =>
    simp only [Generation.step, Option.ite_none_right_eq_some, Option.some.injEq] at h
    obtain ⟨⟨-, -, hempty⟩, h⟩ := h
    cases h
    exact ⟨hs.joined, hs.uncaught, nofun, hs.starting, fun _ => hempty⟩
  | panics caught =>
    simp only [Generation.step, Option.ite_none_right_eq_some, Option.some.injEq] at h
    obtain ⟨-, h⟩ := h
    cases h
    cases caught with
    | true => exact (hq rfl).elim
    | false => exact hs.dropConnections nofun nofun
  | aborted =>
    simp only [Generation.step, Option.ite_none_right_eq_some, Option.some.injEq] at h
    obtain ⟨-, h⟩ := h
    cases h
    exact hs.dropConnections nofun nofun

/-- No event brings the task of a generation back to life. -/
theorem live_of_step {event : ServerEvent} (h : g.step event = some (g', effect))
    (hlive : g'.task.live) : g.task.live := by
  cases event with
  | connectionEnds index outcome =>
    simp only [Generation.step, Generation.endConnection] at h
    cases hget : g.connections[index]? with
    | none => simp [hget] at h
    | some connection =>
      simp only [hget, Option.ite_none_right_eq_some, Option.some.injEq] at h
      obtain ⟨-, h⟩ := h
      cases h
      exact hlive
  | aborted =>
    simp only [Generation.step, Option.ite_none_right_eq_some, Option.some.injEq] at h
    obtain ⟨haborting, -⟩ := h
    rw [haborting]
    rfl
  | panics caught =>
    simp only [Generation.step, Option.ite_none_right_eq_some] at h
    exact h.1
  | _ =>
    simp only [Generation.step, Option.ite_none_right_eq_some] at h
    exact h.1.1

/-- Only the readiness takes a generation out of its start. -/
theorem phase_of_step {event : ServerEvent} (h : g.step event = some (g', effect))
    (hphase : g'.phase ≠ .starting) : event = .ready ∨ g.phase ≠ .starting := by
  cases event with
  | ready => exact .inl rfl
  | startFails fatal =>
    simp only [Generation.step, Option.ite_none_right_eq_some, Option.some.injEq] at h
    obtain ⟨-, h⟩ := h
    cases h
    exact .inr hphase
  | stopSeen =>
    simp only [Generation.step, Option.ite_none_right_eq_some] at h
    obtain ⟨-, h⟩ := h
    split_ifs at h with hstarting
    · cases h
      exact .inr hphase
    · exact .inr hstarting
  | accept =>
    simp only [Generation.step, Option.ite_none_right_eq_some, Option.some.injEq] at h
    obtain ⟨-, h⟩ := h
    cases h
    exact .inr hphase
  | connectionEnds index outcome =>
    simp only [Generation.step, Generation.endConnection] at h
    cases hget : g.connections[index]? with
    | none => simp [hget] at h
    | some connection =>
      simp only [hget, Option.ite_none_right_eq_some, Option.some.injEq] at h
      obtain ⟨-, h⟩ := h
      cases h
      exact .inr hphase
  | joinConnection index =>
    simp only [Generation.step, Option.ite_none_right_eq_some] at h
    exact .inr h.1.2
  | drained =>
    simp only [Generation.step, Option.ite_none_right_eq_some, Option.some.injEq] at h
    obtain ⟨-, h⟩ := h
    cases h
    exact .inr hphase
  | panics caught =>
    simp only [Generation.step, Option.ite_none_right_eq_some, Option.some.injEq] at h
    obtain ⟨-, h⟩ := h
    cases h
    exact .inr hphase
  | aborted =>
    simp only [Generation.step, Option.ite_none_right_eq_some, Option.some.injEq] at h
    obtain ⟨-, h⟩ := h
    cases h
    exact .inr hphase

/-- Nothing happens any more in a generation that has ended. -/
theorem Ended.step (he : g.Ended) (event : ServerEvent) : g.step event = none := by
  cases event <;>
    simp [Generation.step, Status.live, he.task, he.connections, Generation.endConnection]

end Generation
end HathRs.TaskLifecycles
