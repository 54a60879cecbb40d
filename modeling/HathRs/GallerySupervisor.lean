import HathRs.GalleryQueue

/-!
# The single flight of the gallery downloader

A server command starts the downloader if it is not running. A flag is taken before the
runner is spawned and given back when the runner is dropped, whichever way it ends, or when
the transfers take no more tasks. Commands, runners and the shutdown overlap in any order.
-/

namespace HathRs.GallerySupervisor
open Digests MachineArithmetic GalleryDownload GalleryQueue TransitionRuns

/-! ## Commands and runners -/

inductive StartOutcome where
  | started
  | alreadyRunning
  | stopping
  deriving DecidableEq

/-- The shared state, what the calls of `start` have returned, what the server has been sent, and
the runs that are over. -/
structure World where
  cancelled : Bool
  active : Bool
  transfersOpen : Bool
  outcomes : List StartOutcome
  sent : List Sent
  runs : List Runner

def World.new : World := ⟨false, false, true, [], [], []⟩

inductive Task where
  /-- A call of `start`, before the look at the shutdown. -/
  | entered
  | passed
  /-- The flag is taken. -/
  | acquired
  | refused
  /-- The future of the runner, before it is polled. -/
  | spawned
  | running (r : Runner)
  /-- `run_until_idle` has returned, and the flag is not yet given back. -/
  | returned (r : Runner)
  /-- The future was dropped before it was polled. -/
  | lost
  | cancelling
  | closing

inductive Request where
  | start
  | cancel
  /-- `take` in `finish` of the transfers. -/
  | close

def start (_ : World) (_ : List Task) : Request → Option Task
  | .start => some .entered
  | .cancel => some .cancelling
  | .close => some .closing

inductive Event where
  | proceed
  | turn (t : Turn)
  /-- The runner panics behind so many requests of its turn. -/
  | panic (n : ℕ)
  /-- The transfers are over their deadline. -/
  | abort (n : ℕ)

def World.answer (w : World) (outcome : StartOutcome) : World :=
  { w with outcomes := w.outcomes ++ [outcome] }

/-- The flag is given back with the future of the runner. -/
def World.dropRunner (w : World) (r : Runner) : World :=
  { w with active := false, runs := w.runs ++ [r] }

/-- The runner when the future is dropped behind so many requests of its turn. -/
def cut (r : Runner) (n : ℕ) : Runner := { r with sent := r.sent ++ (requests r.previous).take n }

/-- The requests of a turn arrive at the server. -/
def World.deliver (w : World) (r r' : Runner) : World :=
  { w with sent := w.sent ++ r'.sent.drop r.sent.length }

def advance (build : Build) (sha1 : Bytes → Sha1Digest) (w : World) (task : Task) (e : Event) :
    Option (World × Option Task) :=
  match task, e with
  | .entered, .proceed =>
    if w.cancelled then some (w.answer .stopping, none) else some (w, some .passed)
  | .passed, .proceed =>
    if w.active then some (w.answer .alreadyRunning, none)
    else some ({ w with active := true }, some .acquired)
  | .acquired, .proceed =>
    if w.transfersOpen then some (w.answer .started, some .spawned) else some (w, some .refused)
  | .refused, .proceed => some ({ w with active := false }.answer .stopping, none)
  | .spawned, .proceed => some (w, some (.running .start))
  | .spawned, .abort _ => if w.transfersOpen then none else some (w, some .lost)
  | .running r, .turn t =>
    (r.turn build sha1 t).map fun r' =>
      (w.deliver r r', some (if r'.result.isSome then .returned r' else .running r'))
  | .running r, .panic n => some ((w.deliver r (cut r n)).dropRunner (cut r n), none)
  | .running r, .abort n =>
    if w.transfersOpen then none else some ((w.deliver r (cut r n)).dropRunner (cut r n), none)
  | .returned r, .proceed => some (w.dropRunner r, none)
  | .cancelling, .proceed => some ({ w with cancelled := true }, none)
  | .closing, .proceed => some ({ w with transfersOpen := false }, none)
  | _, _ => none

/-- What the step of one task can do. -/
inductive Advances (build : Build) (sha1 : Bytes → Sha1Digest) (w : World) :
    Task → World → Option Task → Prop where
  | stopping : Advances build sha1 w .entered (w.answer .stopping) none
  | passed : Advances build sha1 w .entered w (some .passed)
  | alreadyRunning : Advances build sha1 w .passed (w.answer .alreadyRunning) none
  | acquired (h : w.active = false) :
    Advances build sha1 w .passed { w with active := true } (some .acquired)
  | started : Advances build sha1 w .acquired (w.answer .started) (some .spawned)
  | refused : Advances build sha1 w .acquired w (some .refused)
  | released : Advances build sha1 w .refused ({ w with active := false }.answer .stopping) none
  | polled : Advances build sha1 w .spawned w (some (.running .start))
  | lost (h : w.transfersOpen = false) : Advances build sha1 w .spawned w (some .lost)
  | turn {r r' : Runner} {t : Turn} (h : r.turn build sha1 t = some r') :
    Advances build sha1 w (.running r) (w.deliver r r')
      (some (if r'.result.isSome then .returned r' else .running r'))
  | cut (r : Runner) (n : ℕ) :
    Advances build sha1 w (.running r) ((w.deliver r (cut r n)).dropRunner (cut r n)) none
  | dropped (r : Runner) : Advances build sha1 w (.returned r) (w.dropRunner r) none
  | cancelled : Advances build sha1 w .cancelling { w with cancelled := true } none
  | closed : Advances build sha1 w .closing { w with transfersOpen := false } none

variable {build : Build} {sha1 : Bytes → Sha1Digest} {w w' : World} {task : Task} {next : Option Task}

theorem advances_of_advance {e : Event} (h : advance build sha1 w task e = some (w', next)) :
    Advances build sha1 w task w' next := by
  cases task <;> cases e <;> simp only [advance, reduceCtorEq] at h
  case entered.proceed =>
    split_ifs at h <;> cases h
    · exact .stopping
    · exact .passed
  case passed.proceed =>
    split_ifs at h with hactive <;> cases h
    · exact .alreadyRunning
    · exact .acquired (by simpa using hactive)
  case acquired.proceed =>
    split_ifs at h <;> cases h
    · exact .started
    · exact .refused
  case refused.proceed =>
    cases h
    exact .released
  case spawned.proceed =>
    cases h
    exact .polled
  case spawned.abort n =>
    split_ifs at h with hopen
    cases h
    exact .lost (by simpa using hopen)
  case running.turn r t =>
    obtain ⟨r', hturn, hnext⟩ := Option.map_eq_some_iff.mp h
    cases hnext
    exact .turn hturn
  case running.panic r n =>
    cases h
    exact .cut r n
  case running.abort r n =>
    split_ifs at h
    cases h
    exact .cut r n
  case returned.proceed r =>
    cases h
    exact .dropped r
  case cancelling.proceed =>
    cases h
    exact .cancelled
  case closing.proceed =>
    cases h
    exact .closed

/-! ## At most one of them has the flag -/

def Task.holds : Task → Bool
  | .acquired | .refused | .spawned | .running _ | .returned _ | .lost => true
  | _ => false

/-- The tasks that `started` was returned for. -/
def Task.isRunner : Task → Bool
  | .spawned | .running _ | .returned _ | .lost => true
  | _ => false

def Task.sent : Task → List Sent
  | .running r | .returned r => r.sent
  | _ => []

def Task.Sound (build : Build) (sha1 : Bytes → Sha1Digest) : Task → Prop
  | .running r => GalleryQueue.Inv build sha1 r ∧ r.result = none
  | .returned r => GalleryQueue.Inv build sha1 r
  | _ => True

abbrev State := Pool World Task

structure Inv (build : Build) (sha1 : Bytes → Sha1Digest) (p : State) : Prop where
  active : p.tasks.countP Task.holds = p.world.active.toNat
  /-- The server has seen the runs one after the other. -/
  sent : p.world.sent = p.world.runs.flatMap Runner.sent ++ p.tasks.flatMap Task.sent
  runs : ∀ r ∈ p.world.runs, r.sent <+: trace r.done
  sound : ∀ task ∈ p.tasks, task.Sound build sha1
  started : p.world.outcomes.count .started = p.world.runs.length + p.tasks.countP Task.isRunner
  lost : Task.lost ∈ p.tasks → p.world.transfersOpen = false

theorem sent_of_not_holds (h : task.holds = false) : task.sent = [] := by
  cases task <;> simp_all [Task.holds, Task.sent]

/-- Who has the flag is alone with it. -/
theorem alone_of_holds {before after : List Task} {active : Bool}
    (h : (before ++ task :: after).countP Task.holds = active.toNat) (ht : task.holds = true) :
    active = true ∧ before.countP Task.holds = 0 ∧ after.countP Task.holds = 0 := by
  rw [List.countP_append, List.countP_cons_of_pos ht] at h
  have hle := active.toNat_le
  refine ⟨?_, by omega, by omega⟩
  cases active
  · simp at h
  · rfl

theorem flatMap_sent_of_countP {tasks : List Task} (h : tasks.countP Task.holds = 0) :
    tasks.flatMap Task.sent = [] := by
  refine List.flatMap_eq_nil_iff.mpr fun task htask => sent_of_not_holds ?_
  simpa using List.countP_eq_zero.mp h task htask

/-- A turn appends to what the runner has sent. -/
theorem sent_of_turn {r r' : Runner} {t : Turn} (h : r.turn build sha1 t = some r') :
    r'.sent = r.sent ++ r'.sent.drop r.sent.length := by
  have hprefix : r.sent <+: r'.sent := by
    cases (turns_of_turn h).2 with
    | stopped => exact List.prefix_rfl
    | _ => exact List.prefix_append _ _
  obtain ⟨rest, hrest⟩ := hprefix
  rw [← hrest, List.drop_left]

/-- What a runner has sent is a part of what it sends when all its galleries are acknowledged. -/
theorem prefix_trace {r : Runner} (h : GalleryQueue.Inv build sha1 r) : r.sent <+: trace r.done := by
  rcases h.sent with (⟨hsent, -⟩ | ⟨hne, hsent⟩) | hsent
  · rw [hsent]
    exact List.nil_prefix
  · rw [hsent]
    conv_rhs => rw [← List.dropLast_append_getLast hne, trace_concat]
    exact List.prefix_append _ _
  · rw [hsent]

theorem cut_prefix_trace {r : Runner} (h : GalleryQueue.Inv build sha1 r) (hrunning : r.result = none)
    (n : ℕ) : (cut r n).sent <+: trace (cut r n).done := by
  show (cut r n).sent <+: trace r.done
  rw [← h.asked_sent (h.waiting (.inl hrunning))]
  exact (List.prefix_append_right_inj r.sent).mpr (List.take_prefix n (requests r.previous))

variable {before after : List Task}

/-- The balance of one step, for a task among others. -/
structure Balanced (w : World) (task : Task) (w' : World) (next : Option Task) : Prop where
  active : w'.active.toNat + task.holds.toNat = w.active.toNat + next.toList.countP Task.holds
  started : w'.outcomes.count .started + w.runs.length + task.isRunner.toNat =
    w.outcomes.count .started + w'.runs.length + next.toList.countP Task.isRunner
  closed : w.transfersOpen = false → w'.transfersOpen = false
  lost : next = some .lost → w'.transfersOpen = false

theorem balanced_of_advances (h : Advances build sha1 w task w' next)
    (hactive : task.holds → w.active = true) : Balanced w task w' next := by
  cases h with
  | turn =>
    split_ifs <;> exact ⟨by simp [Task.holds, World.deliver], by simp [Task.isRunner, World.deliver],
      id, by simp⟩
  | acquired hfree => exact ⟨by simp [Task.holds, hfree], by simp [Task.isRunner], id, by simp⟩
  | lost hclosed => exact ⟨by simp [Task.holds], by simp [Task.isRunner], id, fun _ => hclosed⟩
  | closed => exact ⟨by simp [Task.holds], by simp [Task.isRunner], fun _ => rfl, by simp⟩
  | cut r n =>
    have hheld := hactive rfl
    exact ⟨by simp [Task.holds, World.dropRunner, World.deliver, hheld],
      by simp [Task.isRunner, World.dropRunner, World.deliver]; omega, id, by simp⟩
  | dropped r =>
    have hheld := hactive rfl
    exact ⟨by simp [Task.holds, World.dropRunner, hheld],
      by simp [Task.isRunner, World.dropRunner]; omega, id, by simp⟩
  | released =>
    have hheld := hactive rfl
    exact ⟨by simp [Task.holds, World.answer, hheld], by simp [Task.isRunner, World.answer], id, by simp⟩
  | started =>
    exact ⟨by simp [Task.holds, World.answer], by simp [Task.isRunner, World.answer]; omega, id, by simp⟩
  | _ =>
    exact ⟨by simp [Task.holds, World.answer], by simp [Task.isRunner, World.answer], id, by simp⟩

theorem sound_of_advances (h : Advances build sha1 w task w' next) (hsound : task.Sound build sha1) :
    ∀ t ∈ next, t.Sound build sha1 := by
  intro t ht
  cases h with
  | polled =>
    cases ht
    exact ⟨inv_start, rfl⟩
  | @turn r r' turn hturn =>
    have hinv := hsound.1.turn hturn
    obtain rfl := Option.mem_some_iff.mp ht
    split_ifs with hresult
    · exact hinv
    · exact ⟨hinv, by simpa using hresult⟩
  | _ => cases ht <;> trivial

theorem runs_of_advances (h : Advances build sha1 w task w' next) (hsound : task.Sound build sha1)
    (hruns : ∀ r ∈ w.runs, r.sent <+: trace r.done) : ∀ r ∈ w'.runs, r.sent <+: trace r.done := by
  have hdrop : ∀ r : Runner, r.sent <+: trace r.done →
      ∀ other ∈ w.runs ++ [r], other.sent <+: trace other.done := by
    intro r hr other hother
    rcases List.mem_append.mp hother with hold | hnew
    · exact hruns other hold
    · exact List.mem_singleton.mp hnew ▸ hr
  cases h with
  | cut r n => exact hdrop _ (cut_prefix_trace hsound.1 hsound.2 n)
  | dropped r => exact hdrop r (prefix_trace hsound)
  | _ => exact hruns

/-- A runner that is dropped hands its requests over to the runs that are over. -/
theorem sent_of_advances (h : Advances build sha1 w task w' next)
    (hothers : task.holds → before.flatMap Task.sent = [] ∧ after.flatMap Task.sent = [])
    (hsent : w.sent = w.runs.flatMap Runner.sent ++ (before ++ task :: after).flatMap Task.sent) :
    w'.sent = w'.runs.flatMap Runner.sent ++ (before ++ next.toList ++ after).flatMap Task.sent := by
  simp only [List.flatMap_append, List.flatMap_cons] at hsent ⊢
  cases h with
  | @turn r r' t hturn =>
    obtain ⟨hbefore, hafter⟩ := hothers rfl
    have hnext : Task.sent (if r'.result.isSome then .returned r' else .running r') = r'.sent := by
      split_ifs <;> rfl
    simp only [hbefore, hafter, Task.sent, List.nil_append, List.append_nil] at hsent
    simp only [World.deliver, hsent, hbefore, hafter, Option.toList_some, List.flatMap_cons,
      List.flatMap_nil, hnext, List.nil_append, List.append_nil, List.append_assoc]
    rw [← sent_of_turn hturn]
  | cut r n =>
    obtain ⟨hbefore, hafter⟩ := hothers rfl
    simp only [hbefore, hafter, Task.sent, List.nil_append, List.append_nil] at hsent
    simp [World.dropRunner, World.deliver, hsent, hbefore, hafter, GallerySupervisor.cut]
  | dropped r =>
    obtain ⟨hbefore, hafter⟩ := hothers rfl
    simp only [hbefore, hafter, Task.sent, List.nil_append, List.append_nil] at hsent
    simp [World.dropRunner, hsent, hbefore, hafter]
  | _ => simpa [Task.sent, World.answer, Runner.start] using hsent

theorem Inv.advance (h : Inv build sha1 ⟨w, before ++ task :: after⟩)
    (hadv : Advances build sha1 w task w' next) : Inv build sha1 ⟨w', before ++ next.toList ++ after⟩ := by
  have hmem : task ∈ before ++ task :: after := by simp
  have hbit : ∀ b : Bool, b.toNat = if b = true then 1 else 0 := by decide
  have hactive := h.active
  have hstarted := h.started
  simp only [List.countP_append, List.countP_cons, ← hbit] at hactive hstarted
  have hb := balanced_of_advances hadv fun hholds => (alone_of_holds h.active hholds).1
  refine ⟨?_, ?_, ?_, ?_, ?_, ?_⟩
  · have hnew := hb.active
    simp only [List.countP_append]
    omega
  · refine sent_of_advances hadv (fun hholds => ?_) h.sent
    obtain ⟨-, hbefore, hafter⟩ := alone_of_holds h.active hholds
    exact ⟨flatMap_sent_of_countP hbefore, flatMap_sent_of_countP hafter⟩
  · exact runs_of_advances hadv (h.sound task hmem) h.runs
  · intro t ht
    simp only [List.mem_append, Option.mem_toList] at ht
    rcases ht with (ht | ht) | ht
    · exact h.sound t (List.mem_append_left _ ht)
    · exact sound_of_advances hadv (h.sound task hmem) t ht
    · exact h.sound t (List.mem_append_right _ (List.mem_cons_of_mem _ ht))
  · have hnew := hb.started
    simp only [List.countP_append]
    omega
  · intro hlost
    simp only [List.mem_append, Option.mem_toList] at hlost
    rcases hlost with (hlost | hlost) | hlost
    · exact hb.closed (h.lost (List.mem_append_left _ hlost))
    · exact hb.lost hlost
    · exact hb.closed (h.lost (List.mem_append_right _ (List.mem_cons_of_mem _ hlost)))

theorem inv_new (build : Build) (sha1 : Bytes → Sha1Digest) : Inv build sha1 ⟨.new, []⟩ where
  active := rfl
  sent := rfl
  runs := by simp [World.new]
  sound := by simp
  started := rfl
  lost := by simp

theorem Inv.start {p : State} (h : Inv build sha1 p) (request : Request)
    (ht : start p.world p.tasks request = some task) : Inv build sha1 ⟨p.world, p.tasks ++ [task]⟩ := by
  have hplain : task.holds = false ∧ task.isRunner = false ∧ task.Sound build sha1 ∧ task ≠ .lost := by
    cases request <;> cases ht <;> exact ⟨rfl, rfl, trivial, by simp⟩
  obtain ⟨hholds, hrunner, hsound, hlost⟩ := hplain
  refine ⟨?_, ?_, h.runs, ?_, ?_, ?_⟩
  · simp [List.countP_append, h.active, hholds]
  · simp [h.sent, sent_of_not_holds hholds]
  · intro t ht
    rcases List.mem_append.mp ht with hold | hnew
    · exact h.sound t hold
    · exact List.mem_singleton.mp hnew ▸ hsound
  · simp [List.countP_append, h.started, hrunner]
  · intro hmem
    rcases List.mem_append.mp hmem with hold | hnew
    · exact h.lost hold
    · exact absurd (List.mem_singleton.mp hnew).symm hlost

/-! ## Runs -/

/-- Any number of commands, with a shutdown at any time. -/
def step (build : Build) (sha1 : Bytes → Sha1Digest) : State → PoolEvent Request Event → Option State :=
  Pool.step GallerySupervisor.start (advance build sha1)

theorem Inv.step {p q : State} {e : PoolEvent Request Event} (h : Inv build sha1 p)
    (hstep : GallerySupervisor.step build sha1 p e = some q) : Inv build sha1 q := by
  rcases Pool.step_cases hstep with ⟨request, task, rfl, hstart, rfl⟩ |
    ⟨index, event, task, world, next, before, after, rfl, -, htasks, hadv, rfl⟩
  · exact h.start request hstart
  · have hp : p = ⟨p.world, before ++ task :: after⟩ := by rw [← htasks]
    rw [hp] at h
    exact h.advance (advances_of_advance hadv)

theorem inv_of_run {es : List (PoolEvent Request Event)} {p : State}
    (hrun : run (step build sha1) ⟨.new, []⟩ es = some p) : Inv build sha1 p :=
  run_invariant (fun _ _ _ hinv _ hstep => hinv.step hstep) (inv_new build sha1) (allSteps_true _ es) hrun

/-- The run that a task is in the middle of. -/
def Task.runner : Task → Option Runner
  | .running r | .returned r => some r
  | _ => none

theorem flatMap_sent_eq (tasks : List Task) :
    tasks.flatMap Task.sent = (tasks.filterMap Task.runner).flatMap Runner.sent := by
  induction tasks with
  | nil => rfl
  | cons task tasks ih =>
    cases task <;> simp [Task.sent, Task.runner, List.filterMap_cons, ih]

theorem prefix_of_runner {r : Runner} (hsound : task.Sound build sha1) (hr : task.runner = some r) :
    r.sent <+: trace r.done := by
  cases task <;> cases hr
  · exact prefix_trace hsound.1
  · exact prefix_trace hsound

/-- In every order of commands, turns, panics and a shutdown: there is at most one runner, the
flag is set just as long as somebody has it, and until the shutdown no future of a runner gets
lost with it. Every call that was told `started` has had one runner, the server has been sent
the requests of one run after the other, and those of each run acknowledge the galleries that
it has finished, in their order. -/
theorem single_flight (build : Build) (sha1 : Bytes → Sha1Digest) (es : List (PoolEvent Request Event))
    (p : State) (hrun : run (step build sha1) ⟨.new, []⟩ es = some p) :
    p.tasks.countP Task.isRunner ≤ 1 ∧
    (p.world.active = true ↔ ∃ task ∈ p.tasks, task.holds = true) ∧
    (p.world.transfersOpen = true → Task.lost ∉ p.tasks) ∧
    p.world.outcomes.count .started = p.world.runs.length + p.tasks.countP Task.isRunner ∧
    ∃ runs, p.world.sent = runs.flatMap Runner.sent ∧ p.world.runs <+: runs ∧
      ∀ r ∈ runs, r.sent <+: trace r.done := by
  have hinv := inv_of_run hrun
  refine ⟨?_, ?_, ?_, hinv.started, p.world.runs ++ p.tasks.filterMap Task.runner, ?_,
    List.prefix_append _ _, ?_⟩
  · have hle : p.tasks.countP Task.isRunner ≤ p.tasks.countP Task.holds :=
      List.countP_mono_left fun task _ hrunner => by cases task <;> simp_all [Task.isRunner, Task.holds]
    exact hle.trans (hinv.active ▸ p.world.active.toNat_le)
  · rw [← List.countP_pos_iff, hinv.active]
    cases p.world.active <;> decide
  · intro hopen hlost
    rw [hinv.lost hlost] at hopen
    cases hopen
  · rw [hinv.sent, flatMap_sent_eq, List.flatMap_append]
  · intro r hr
    rcases List.mem_append.mp hr with hold | hnew
    · exact hinv.runs r hold
    · obtain ⟨task, htask, hrunner⟩ := List.mem_filterMap.mp hnew
      exact prefix_of_runner (hinv.sound task htask) hrunner

/-- Two commands at once: the second one finds the flag taken, and the first runner is behind its
first request when the transfers are closed. -/
def twoCommands : List (PoolEvent Request Event) :=
  [.start .start, .start .start, .advance 0 .proceed, .advance 1 .proceed, .advance 0 .proceed,
   .advance 1 .proceed, .advance 0 .proceed, .advance 0 .proceed, .start .close,
   .advance 1 .proceed, .advance 0 (.abort 1)]

theorem twoCommands_run : ∃ p, run (step .release unusedSha1) ⟨.new, []⟩ twoCommands = some p ∧
    p.world.outcomes = [.alreadyRunning, .started] ∧ p.world.sent = [.fetchQueue []] ∧
    p.world.active = false ∧ p.world.runs.length = 1 :=
  ⟨_, rfl, rfl, rfl, rfl, rfl⟩

theorem single_flight_twoCommands : ∃ p, run (step .release unusedSha1) ⟨.new, []⟩ twoCommands = some p ∧
    p.world.outcomes = [.alreadyRunning, .started] ∧ p.world.sent = [.fetchQueue []] ∧
    p.tasks.countP Task.isRunner = 0 := by
  obtain ⟨p, hrun, houtcomes, hsent, -, hruns⟩ := twoCommands_run
  have hstarted := (single_flight .release unusedSha1 twoCommands p hrun).2.2.2.1
  rw [houtcomes, hruns] at hstarted
  exact ⟨p, hrun, houtcomes, hsent, by simpa using hstarted⟩

end HathRs.GallerySupervisor
