import Mathlib

/-!
# Runs of a transition function and pools of concurrent tasks

A system is a function that takes a state and an event to the next state, or to nothing
when the event cannot happen there. A pool runs any number of tasks over one shared
world: an event starts a task or advances one of them by an atomic step. The rules reduce
what holds in every run to what one step of one task keeps.
-/

namespace HathRs.TransitionRuns

/-! ## Runs -/

section Runs

variable {σ ε : Type*}

/-- The state after the events, if each of them can happen. -/
def run (step : σ → ε → Option σ) : σ → List ε → Option σ
  | s, [] => some s
  | s, e :: es => (step s e).bind fun next => run step next es

/-- Every event of the run meets the condition in the state before it. -/
def AllSteps (step : σ → ε → Option σ) (condition : σ → ε → Prop) : σ → List ε → Prop
  | _, [] => True
  | s, e :: es => condition s e ∧ ∀ next, step s e = some next → AllSteps step condition next es

variable {step : σ → ε → Option σ} {condition : σ → ε → Prop} {inv : σ → Prop}

theorem run_append (s : σ) (es es' : List ε) :
    run step s (es ++ es') = (run step s es).bind fun next => run step next es' := by
  induction es generalizing s with
  | nil => rfl
  | cons e es ih =>
    simp only [List.cons_append, run, Option.bind_assoc]
    exact congrArg _ (funext ih)

theorem run_cons_of_step {s next : σ} {e : ε} (h : step s e = some next) (es : List ε) :
    run step s (e :: es) = run step next es := by
  rw [run, h, Option.bind_some]

theorem allSteps_cons_of_step {s next : σ} {e : ε} (h : step s e = some next) (es : List ε) :
    AllSteps step condition s (e :: es) ↔ condition s e ∧ AllSteps step condition next es := by
  simp only [AllSteps, h, Option.some.injEq, forall_eq']

theorem allSteps_cons_of_none {s : σ} {e : ε} (h : step s e = none) (es : List ε) :
    AllSteps step condition s (e :: es) ↔ condition s e := by
  simp only [AllSteps, h, reduceCtorEq, false_implies, implies_true, and_true]

instance decidableAllSteps [∀ s e, Decidable (condition s e)] (s : σ) (es : List ε) :
    Decidable (AllSteps step condition s es) :=
  match es with
  | [] => .isTrue trivial
  | e :: es =>
    match h : step s e with
    | none => decidable_of_iff (condition s e) (allSteps_cons_of_none h es).symm
    | some next =>
      have := decidableAllSteps next es
      decidable_of_iff (condition s e ∧ AllSteps step condition next es)
        (allSteps_cons_of_step h es).symm

theorem allSteps_true (s : σ) (es : List ε) : AllSteps step (fun _ _ => True) s es := by
  induction es generalizing s with
  | nil => trivial
  | cons e es ih => exact ⟨trivial, fun next _ => ih next⟩

/-- A condition on the events alone. -/
theorem allSteps_of_forall {p : ε → Prop} {es : List ε} (h : ∀ e ∈ es, p e) (s : σ) :
    AllSteps step (fun _ e => p e) s es := by
  induction es generalizing s with
  | nil => trivial
  | cons e es ih =>
    exact ⟨h e List.mem_cons_self,
      fun next _ => ih (fun e' he' => h e' (List.mem_cons_of_mem _ he')) next⟩

theorem allSteps_append {s next : σ} {es es' : List ε} (hrun : run step s es = some next) :
    AllSteps step condition s (es ++ es') ↔
      AllSteps step condition s es ∧ AllSteps step condition next es' := by
  induction es generalizing s with
  | nil =>
    cases hrun
    exact ⟨fun h => ⟨trivial, h⟩, fun h => h.2⟩
  | cons e es ih =>
    obtain ⟨mid, hmid, hrest⟩ := Option.bind_eq_some_iff.mp hrun
    rw [List.cons_append, allSteps_cons_of_step hmid, allSteps_cons_of_step hmid, ih hrest, and_assoc]

theorem allSteps_and {other : σ → ε → Prop} {s : σ} {es : List ε} (h : AllSteps step condition s es)
    (hother : AllSteps step other s es) :
    AllSteps step (fun s e => condition s e ∧ other s e) s es := by
  induction es generalizing s with
  | nil => trivial
  | cons e es ih =>
    exact ⟨⟨h.1, hother.1⟩, fun next hnext => ih (h.2 next hnext) (hother.2 next hnext)⟩

/-- What every step under the condition keeps holds after every run under it. -/
theorem run_invariant
    (hstep : ∀ s e next, inv s → condition s e → step s e = some next → inv next)
    {s last : σ} {es : List ε} (h : inv s) (hall : AllSteps step condition s es)
    (hrun : run step s es = some last) : inv last := by
  induction es generalizing s with
  | nil => exact Option.some.inj hrun ▸ h
  | cons e es ih =>
    obtain ⟨next, hnext, hrest⟩ := Option.bind_eq_some_iff.mp hrun
    exact ih (hstep s e next h hall.1 hnext) (hall.2 next hnext) hrest

/-- A part of the system whose every step is one of its own or leaves it alone has a run of its
own. -/
theorem run_project {τ δ : Type*} {part : σ → τ} {own : ε → Option δ} {partStep : τ → δ → Option τ}
    (hown : ∀ s e next d, step s e = some next → own e = some d →
      partStep (part s) d = some (part next))
    (hother : ∀ s e next, step s e = some next → own e = none → part next = part s)
    {s last : σ} {es : List ε} (hrun : run step s es = some last) :
    run partStep (part s) (es.filterMap own) = some (part last) := by
  induction es generalizing s with
  | nil => exact congrArg (fun s => some (part s)) (Option.some.inj hrun)
  | cons e es ih =>
    obtain ⟨next, hnext, hrest⟩ := Option.bind_eq_some_iff.mp hrun
    cases he : own e with
    | none => rw [List.filterMap_cons_none he, ← hother s e next hnext he, ih hrest]
    | some d =>
      rw [List.filterMap_cons_some he, run_cons_of_step (hown s e next d hnext he), ih hrest]

end Runs

/-! ## Loops over a list

The invariant of a loop speaks about the elements that are done. Its step may use where in the
list the next element stands. -/

section Loops

variable {σ α ε : Type*} {xs : List α} (inv : List α → σ → Prop)

theorem notMem_of_nodup {done rest : List α} {x : α} (h : (done ++ x :: rest).Nodup) : x ∉ done :=
  fun hin => (List.nodup_append.mp h).2.2 x hin x List.mem_cons_self rfl

theorem foldl_invariant {f : σ → α → σ} (hstep : ∀ done x rest s, xs = done ++ x :: rest →
      inv done s → inv (done ++ [x]) (f s x))
    {s : σ} (h : inv [] s) : inv xs (xs.foldl f s) := by
  suffices hrest : ∀ rest done s, xs = done ++ rest → inv done s → inv xs (rest.foldl f s) from
    hrest xs [] s rfl h
  intro rest
  induction rest with
  | nil =>
    intro done s hxs hinv
    rw [List.append_nil] at hxs
    exact hxs ▸ hinv
  | cons x rest ih =>
    intro done s hxs hinv
    exact ih (done ++ [x]) (f s x) (by rw [hxs]; simp) (hstep done x rest s hxs hinv)

/-- A loop that can stop keeps its invariant until it does. -/
theorem foldlM_invariant {f : σ → α → Except ε σ}
    (hstep : ∀ done x rest s s', xs = done ++ x :: rest → inv done s → f s x = .ok s' →
      inv (done ++ [x]) s')
    {s s' : σ} (h : inv [] s) (hrun : xs.foldlM f s = .ok s') : inv xs s' := by
  suffices hrest : ∀ rest done s, xs = done ++ rest → inv done s → rest.foldlM f s = .ok s' →
      inv xs s' from
    hrest xs [] s rfl h hrun
  intro rest
  induction rest with
  | nil =>
    intro done s hxs hinv hrun
    rw [List.append_nil] at hxs
    cases hrun
    exact hxs ▸ hinv
  | cons x rest ih =>
    intro done s hxs hinv hrun
    rw [List.foldlM_cons] at hrun
    cases hx : f s x with
    | error e => rw [hx] at hrun; cases hrun
    | ok next =>
      rw [hx] at hrun
      exact ih (done ++ [x]) next (by rw [hxs]; simp) (hstep done x rest s next hxs hinv hx) hrun

/-- A loop does not stop when no turn of it does under the invariant. -/
theorem foldlM_succeeds {f : σ → α → Except ε σ}
    (hstep : ∀ done x rest s, xs = done ++ x :: rest → inv done s →
      ∃ s', f s x = .ok s' ∧ inv (done ++ [x]) s')
    {s : σ} (h : inv [] s) : ∃ s', xs.foldlM f s = .ok s' ∧ inv xs s' := by
  suffices hrest : ∀ rest done s, xs = done ++ rest → inv done s →
      ∃ s', rest.foldlM f s = .ok s' ∧ inv xs s' from
    hrest xs [] s rfl h
  intro rest
  induction rest with
  | nil =>
    intro done s hxs hinv
    rw [List.append_nil] at hxs
    exact ⟨s, rfl, hxs ▸ hinv⟩
  | cons x rest ih =>
    intro done s hxs hinv
    obtain ⟨next, hx, hnext⟩ := hstep done x rest s hxs hinv
    obtain ⟨s', hrun, hs'⟩ := ih (done ++ [x]) next (by rw [hxs]; simp) hnext
    refine ⟨s', ?_, hs'⟩
    rw [List.foldlM_cons, hx]
    exact hrun

/-- The loop goes on from the state that its first turns have left. -/
theorem foldlM_cons_ok {f : σ → α → Except ε σ} {s next : σ} {x : α} (h : f s x = .ok next) :
    (x :: xs).foldlM f s = xs.foldlM f next := by
  rw [List.foldlM_cons, h]
  rfl

theorem foldlM_append_ok {f : σ → α → Except ε σ} {s next : σ} {ys : List α}
    (h : xs.foldlM f s = .ok next) : (xs ++ ys).foldlM f s = ys.foldlM f next := by
  rw [List.foldlM_append, h]
  rfl

end Loops

/-! ## Pools of tasks -/

structure Pool (ω τ : Type*) where
  world : ω
  tasks : List τ

inductive PoolEvent (χ ε : Type*) where
  | start (request : χ)
  | advance (index : ℕ) (event : ε)

variable {ω τ χ ε : Type*}

namespace Pool

section Steps

variable (start : ω → List τ → χ → Option τ) (advance : ω → τ → ε → Option (ω × Option τ))

/-- A task that is over leaves the pool. -/
def step (p : Pool ω τ) : PoolEvent χ ε → Option (Pool ω τ)
  | .start request =>
    (start p.world p.tasks request).map fun task => { p with tasks := p.tasks ++ [task] }
  | .advance index event =>
    p.tasks[index]?.bind fun task => (advance p.world task event).map fun (world, next) =>
      ⟨world, p.tasks.take index ++ next.toList ++ p.tasks.drop (index + 1)⟩

end Steps

/-- The condition of the task that the event advances. -/
def Meets (condition : ω → τ → ε → Prop) (p : Pool ω τ) : PoolEvent χ ε → Prop
  | .start _ => True
  | .advance index event => ∀ task, p.tasks[index]? = some task → condition p.world task event

variable {start : ω → List τ → χ → Option τ} {advance : ω → τ → ε → Option (ω × Option τ)}
variable {condition : ω → τ → ε → Prop} {worldInv : ω → Prop} {taskInv : τ → Prop}

/-- An event appends a task or puts the rest of one task in its place. -/
theorem step_cases {p q : Pool ω τ} {e : PoolEvent χ ε} (h : step start advance p e = some q) :
    (∃ request task, e = .start request ∧ start p.world p.tasks request = some task ∧
      q = ⟨p.world, p.tasks ++ [task]⟩) ∨
    ∃ index event task world next before after, e = .advance index event ∧
      p.tasks[index]? = some task ∧ p.tasks = before ++ task :: after ∧
      advance p.world task event = some (world, next) ∧
      q = ⟨world, before ++ next.toList ++ after⟩ := by
  cases e with
  | start request =>
    obtain ⟨task, htask, hq⟩ := Option.map_eq_some_iff.mp h
    exact .inl ⟨request, task, rfl, htask, hq.symm⟩
  | advance index event =>
    simp only [step, Option.bind_eq_some_iff, Option.map_eq_some_iff] at h
    obtain ⟨task, htask, ⟨world, next⟩, hnext, hq⟩ := h
    obtain ⟨hlt, hget⟩ := List.getElem?_eq_some_iff.mp htask
    refine .inr ⟨index, event, task, world, next, p.tasks.take index, p.tasks.drop (index + 1),
      rfl, htask, ?_, hnext, hq.symm⟩
    rw [← hget, List.getElem_cons_drop, List.take_append_drop]

/-- What the world and every single task satisfy. -/
def Holds (worldInv : ω → Prop) (taskInv : τ → Prop) (p : Pool ω τ) : Prop :=
  worldInv p.world ∧ ∀ task ∈ p.tasks, taskInv task

/-- One task's step keeps the invariant of the world and hands on that of the task. -/
def Keeps (start : ω → List τ → χ → Option τ) (advance : ω → τ → ε → Option (ω × Option τ))
    (condition : ω → τ → ε → Prop) (worldInv : ω → Prop) (taskInv : τ → Prop) : Prop :=
  (∀ world tasks request task, worldInv world → start world tasks request = some task →
    taskInv task) ∧
  ∀ world task event world' next, worldInv world → taskInv task → condition world task event →
    advance world task event = some (world', next) → worldInv world' ∧ ∀ t ∈ next, taskInv t

theorem Keeps.step (hk : Keeps start advance condition worldInv taskInv) {p q : Pool ω τ}
    {e : PoolEvent χ ε} (h : Holds worldInv taskInv p) (hc : Meets condition p e)
    (hstep : Pool.step start advance p e = some q) : Holds worldInv taskInv q := by
  rcases step_cases hstep with ⟨request, task, rfl, hstart, rfl⟩ |
    ⟨index, event, task, world, next, before, after, rfl, hget, htasks, hadv, rfl⟩
  · refine ⟨h.1, fun t ht => ?_⟩
    rcases List.mem_append.mp ht with ht | ht
    · exact h.2 t ht
    · obtain rfl := List.mem_singleton.mp ht
      exact hk.1 _ _ _ _ h.1 hstart
  · have hmem : ∀ t, t ∈ before ∨ t ∈ after → taskInv t := by
      intro t ht
      apply h.2
      rw [htasks]
      rcases ht with ht | ht
      · exact List.mem_append_left _ ht
      · exact List.mem_append_right _ (List.mem_cons_of_mem _ ht)
    have htask : taskInv task := h.2 task (List.mem_of_getElem? hget)
    obtain ⟨hworld, hnext⟩ := hk.2 _ _ _ _ _ h.1 htask (hc task hget) hadv
    refine ⟨hworld, fun t ht => ?_⟩
    simp only [List.mem_append, Option.mem_toList] at ht
    rcases ht with (ht | ht) | ht
    · exact hmem t (.inl ht)
    · exact hnext t ht
    · exact hmem t (.inr ht)

/-! ## Conservation -/

/-- What the tasks owe together. -/
def owedSum (owed : τ → ℤ) (tasks : List τ) : ℤ := (tasks.map owed).sum

@[simp] theorem owedSum_none (owed : τ → ℤ) : owedSum owed (none : Option τ).toList = 0 := rfl

@[simp] theorem owedSum_some (owed : τ → ℤ) (task : τ) :
    owedSum owed (some task).toList = owed task := by
  simp [owedSum]

/-- No task owes anything at its start, and the gap of the world changes by just as much as
the task's debt. -/
def Conserves (start : ω → List τ → χ → Option τ)
    (advance : ω → τ → ε → Option (ω × Option τ)) (condition : ω → τ → ε → Prop)
    (worldInv : ω → Prop) (taskInv : τ → Prop) (gap : ω → ℤ) (owed : τ → ℤ) : Prop :=
  (∀ world tasks request task, start world tasks request = some task → owed task = 0) ∧
  ∀ world task event world' next, worldInv world → taskInv task → condition world task event →
    advance world task event = some (world', next) →
      gap world' + owedSum owed next.toList = gap world + owed task

variable {gap : ω → ℤ} {owed : τ → ℤ}

/-- In every run the gap of the world is what the tasks in flight owe. -/
theorem Conserves.run (hk : Keeps start advance condition worldInv taskInv)
    (hcons : Conserves start advance condition worldInv taskInv gap owed) {p last : Pool ω τ}
    {es : List (PoolEvent χ ε)} (h : Holds worldInv taskInv p)
    (hall : AllSteps (Pool.step start advance) (Meets condition) p es)
    (hrun : TransitionRuns.run (Pool.step start advance) p es = some last) :
    gap last.world + owedSum owed last.tasks = gap p.world + owedSum owed p.tasks := by
  suffices hstep : ∀ q e next, (Holds worldInv taskInv q ∧
      gap q.world + owedSum owed q.tasks = gap p.world + owedSum owed p.tasks) →
      Meets condition q e → Pool.step start advance q e = some next →
      Holds worldInv taskInv next ∧
        gap next.world + owedSum owed next.tasks = gap p.world + owedSum owed p.tasks from
    (run_invariant hstep ⟨h, rfl⟩ hall hrun).2
  rintro q e next ⟨hq, hbalance⟩ hc hstep
  refine ⟨hk.step hq hc hstep, ?_⟩
  rw [← hbalance]
  rcases step_cases hstep with ⟨request, task, rfl, hstart, rfl⟩ |
    ⟨index, event, task, world, rest, before, after, rfl, hget, htasks, hadv, rfl⟩
  · simp only [owedSum, List.map_append, List.sum_append, List.map_cons, List.map_nil,
      List.sum_cons, List.sum_nil, hcons.1 _ _ _ _ hstart, add_zero]
  · have hone := hcons.2 _ _ _ _ _ hq.1 (hq.2 task (List.mem_of_getElem? hget)) (hc task hget) hadv
    simp only [owedSum, htasks, List.map_append, List.sum_append, List.map_cons,
      List.sum_cons] at hone ⊢
    omega

end Pool
end HathRs.TransitionRuns
