import HathRs.TransitionRuns

/-!
# Read, copy, update

A shared cell is replaced as a whole. A writer loads it, computes the next value from what it
has seen and swaps it in if the cell is still the one that it loaded; otherwise it starts
again from the cell that it found there. The calls that have swapped are kept in the order of
their swaps, and the cell is what this order makes of the first value.
-/

namespace HathRs.ReadCopyUpdates
open TransitionRuns

variable {ρ α ε : Type*}

/-- Versions stand for the identity of the allocation: no two swaps install the same one. -/
inductive Phase (α ε : Type*) where
  | waiting
  | loaded (version : ℕ) (seen : α)
  | computed (version : ℕ) (input : ε) (next : α)
  | done
  /-- The computation did not return. -/
  | stopped

/-- One call. `attempts` counts its swaps, those that failed included. -/
structure Writer (ρ α ε : Type*) where
  request : ρ
  phase : Phase α ε
  attempts : ℕ

structure Commit (ρ ε : Type*) where
  writer : ℕ
  request : ρ
  input : ε

structure State (ρ α ε : Type*) where
  version : ℕ
  value : α
  writers : List (Writer ρ α ε)
  commits : List (Commit ρ ε)

/-- The input is what the computation reads from outside, as the clock. -/
inductive Action (ε : Type*) where
  | load
  | compute (input : ε)
  | swap

inductive Event (ρ ε : Type*) where
  | call (request : ρ)
  | advance (i : ℕ) (action : Action ε)

def State.new (value : α) : State ρ α ε := ⟨0, value, [], []⟩

def State.setWriter (s : State ρ α ε) (i : ℕ) (w : Writer ρ α ε) : State ρ α ε :=
  { s with writers := s.writers.set i w }

def Writer.load (w : Writer ρ α ε) (s : State ρ α ε) : Writer ρ α ε :=
  { w with phase := .loaded s.version s.value }

/-- A swap that finds another cell goes on with this one. -/
def swap (s : State ρ α ε) (i : ℕ) (w : Writer ρ α ε) (version : ℕ) (input : ε) (next : α) :
    State ρ α ε :=
  let tried := { w with attempts := w.attempts + 1 }
  if version = s.version then
    { s.setWriter i { tried with phase := .done } with
      version := s.version + 1
      value := next
      commits := s.commits ++ [⟨i, w.request, input⟩] }
  else s.setWriter i (tried.load s)

section Steps

variable (update : ρ → ε → α → Option α)

def advance (s : State ρ α ε) (i : ℕ) (w : Writer ρ α ε) (action : Action ε) :
    Option (State ρ α ε) :=
  match action, w.phase with
  | .load, .waiting => some (s.setWriter i (w.load s))
  | .compute input, .loaded version seen =>
    some (s.setWriter i { w with
      phase := ((update w.request input seen).map (Phase.computed version input)).getD .stopped })
  | .swap, .computed version input next => some (swap s i w version input next)
  | _, _ => none

def step (s : State ρ α ε) : Event ρ ε → Option (State ρ α ε)
  | .call request => some { s with writers := s.writers ++ [⟨request, .waiting, 0⟩] }
  | .advance i action => s.writers[i]?.bind fun w => advance update s i w action

/-- The commits one after the other, from the first value. -/
def replay (value : α) (commits : List (Commit ρ ε)) : Option α :=
  commits.foldlM (fun value c => update c.request c.input value) value

end Steps

variable {update : ρ → ε → α → Option α} {first : α} {s s' : State ρ α ε}

/-- What one step can do. -/
inductive Steps (update : ρ → ε → α → Option α) (s : State ρ α ε) : State ρ α ε → Prop where
  | call (request : ρ) :
    Steps update s { s with writers := s.writers ++ [⟨request, .waiting, 0⟩] }
  | load {i : ℕ} {w : Writer ρ α ε} (hw : s.writers[i]? = some w) (hphase : w.phase = .waiting) :
    Steps update s (s.setWriter i (w.load s))
  | compute {i version : ℕ} {w : Writer ρ α ε} {seen next : α} {input : ε}
    (hw : s.writers[i]? = some w) (hphase : w.phase = .loaded version seen)
    (hnext : update w.request input seen = some next) :
    Steps update s (s.setWriter i { w with phase := .computed version input next })
  | stop {i version : ℕ} {w : Writer ρ α ε} {seen : α} (hw : s.writers[i]? = some w)
    (hphase : w.phase = .loaded version seen) :
    Steps update s (s.setWriter i { w with phase := .stopped })
  | commit {i : ℕ} {w : Writer ρ α ε} {input : ε} {next : α} (hw : s.writers[i]? = some w)
    (hphase : w.phase = .computed s.version input next) :
    Steps update s { s.setWriter i { w with attempts := w.attempts + 1, phase := .done } with
      version := s.version + 1
      value := next
      commits := s.commits ++ [⟨i, w.request, input⟩] }
  | retry {i version : ℕ} {w : Writer ρ α ε} {input : ε} {next : α}
    (hw : s.writers[i]? = some w) (hphase : w.phase = .computed version input next)
    (hversion : version ≠ s.version) :
    Steps update s (s.setWriter i ({ w with attempts := w.attempts + 1 }.load s))

theorem steps_of_step {e : Event ρ ε} (h : step update s e = some s') : Steps update s s' := by
  cases e with
  | call request =>
    cases h
    exact .call request
  | advance i action =>
    obtain ⟨w, hw, hadv⟩ := Option.bind_eq_some_iff.mp h
    cases action with
    | load =>
      cases hphase : w.phase <;> simp only [advance, hphase, reduceCtorEq] at hadv
      cases hadv
      exact .load hw hphase
    | compute input =>
      cases hphase : w.phase <;> simp only [advance, hphase, reduceCtorEq] at hadv
      rename_i version seen
      cases hadv
      cases hnext : update w.request input seen with
      | none => exact .stop hw hphase
      | some next => exact .compute hw hphase hnext
    | swap =>
      cases hphase : w.phase <;> simp only [advance, hphase, reduceCtorEq, swap] at hadv
      rename_i version input next
      cases hadv
      split_ifs with hversion
      · exact .commit hw (hversion ▸ hphase)
      · exact .retry hw hphase hversion

/-! ## Every cell is a point of the order of the commits -/

theorem replay_concat (value : α) (commits : List (Commit ρ ε)) (c : Commit ρ ε) :
    replay update value (commits ++ [c]) =
      (replay update value commits).bind (update c.request c.input) := by
  simp only [replay, List.foldlM_append, List.foldlM_cons, List.foldlM_nil, bind_pure]
  rfl

/-- What every update keeps holds of the cell after all of them. -/
theorem replay_induction (inv : List (Commit ρ ε) → α → Prop) (hfirst : inv [] first)
    (hstep : ∀ done value c next, inv done value → update c.request c.input value = some next →
      inv (done ++ [c]) next)
    {commits : List (Commit ρ ε)} {value : α} (h : replay update first commits = some value) :
    inv commits value := by
  induction commits using List.reverseRecOn generalizing value with
  | nil =>
    cases h
    exact hfirst
  | append_singleton commits c ih =>
    rw [replay_concat] at h
    obtain ⟨last, hlast, hnext⟩ := Option.bind_eq_some_iff.mp h
    exact hstep commits last c value (ih hlast) hnext

/-- What a call holds was the cell after the first `version` commits, and each of its failed
swaps has seen one more of them. -/
def Writer.Sound (update : ρ → ε → α → Option α) (first : α) (commits : List (Commit ρ ε))
    (w : Writer ρ α ε) : Prop :=
  match w.phase with
  | .loaded version seen => w.attempts ≤ version ∧ version ≤ commits.length ∧
      replay update first (commits.take version) = some seen
  | .computed version input next => w.attempts ≤ version ∧ version ≤ commits.length ∧
      ∃ seen, replay update first (commits.take version) = some seen ∧
        update w.request input seen = some next
  | _ => w.attempts ≤ commits.length

structure Inv (update : ρ → ε → α → Option α) (first : α) (s : State ρ α ε) : Prop where
  version : s.version = s.commits.length
  value : replay update first s.commits = some s.value
  writers : ∀ w ∈ s.writers, w.Sound update first s.commits
  nodup : (s.commits.map Commit.writer).Nodup
  /-- A commit is the one of a call that has returned. -/
  committed : ∀ c ∈ s.commits,
    ∃ w, s.writers[c.writer]? = some w ∧ w.phase = .done ∧ w.request = c.request
  returned : ∀ i w, s.writers[i]? = some w → w.phase = .done → i ∈ s.commits.map Commit.writer

theorem inv_new (update : ρ → ε → α → Option α) (first : α) : Inv update first (.new first) where
  version := rfl
  value := rfl
  writers := by simp [State.new]
  nodup := List.nodup_nil
  committed := by simp [State.new]
  returned := by simp [State.new]

theorem Writer.Sound.concat {commits : List (Commit ρ ε)} {w : Writer ρ α ε}
    (h : w.Sound update first commits) (c : Commit ρ ε) : w.Sound update first (commits ++ [c]) := by
  unfold Writer.Sound at h ⊢
  have htake : ∀ {n : ℕ}, n ≤ commits.length → (commits ++ [c]).take n = commits.take n :=
    fun hn => List.take_append_of_le_length hn
  split at h
  · refine ⟨h.1, ?_, ?_⟩
    · rw [List.length_append]
      omega
    · rw [htake h.2.1]
      exact h.2.2
  · refine ⟨h.1, ?_, ?_⟩
    · rw [List.length_append]
      omega
    · rw [htake h.2.1]
      exact h.2.2
  · rw [List.length_append]
    omega

theorem Writer.Sound.attempts_le {commits : List (Commit ρ ε)} {w : Writer ρ α ε}
    (h : w.Sound update first commits) : w.attempts ≤ commits.length := by
  unfold Writer.Sound at h
  split at h
  · exact h.1.trans h.2.1
  · exact h.1.trans h.2.1
  · exact h

/-- A call that loads the cell as it stands. -/
theorem Inv.sound_load (h : Inv update first s) {w : Writer ρ α ε} (hattempts : w.attempts ≤ s.version) :
    (w.load s).Sound update first s.commits := by
  refine ⟨hattempts, h.version.le, ?_⟩
  rw [h.version, List.take_length]
  exact h.value

/-- A step of one call that commits nothing. -/
theorem Inv.setWriter (h : Inv update first s) {i : ℕ} {w w' : Writer ρ α ε}
    (hw : s.writers[i]? = some w) (hsound : w'.Sound update first s.commits)
    (hphase : w.phase ≠ .done) (hphase' : w'.phase ≠ .done) :
    Inv update first (s.setWriter i w') := by
  have hlt : i < s.writers.length := (List.getElem?_eq_some_iff.mp hw).1
  refine ⟨h.version, h.value, ?_, h.nodup, ?_, ?_⟩
  · intro v hv
    rcases List.mem_or_eq_of_mem_set hv with hv | rfl
    · exact h.writers v hv
    · exact hsound
  · intro c hc
    obtain ⟨v, hv, hdone, hrequest⟩ := h.committed c hc
    have hne : i ≠ c.writer := by
      rintro rfl
      rw [hw] at hv
      cases hv
      exact hphase hdone
    exact ⟨v, by rw [State.setWriter, List.getElem?_set_ne hne, hv], hdone, hrequest⟩
  · intro j v hv hdone
    by_cases hij : i = j
    · subst hij
      rw [State.setWriter, List.getElem?_set_self hlt] at hv
      cases hv
      exact absurd hdone hphase'
    · rw [State.setWriter, List.getElem?_set_ne hij] at hv
      exact h.returned j v hv hdone

theorem Inv.call (h : Inv update first s) (request : ρ) :
    Inv update first { s with writers := s.writers ++ [⟨request, .waiting, 0⟩] } := by
  refine ⟨h.version, h.value, ?_, h.nodup, ?_, ?_⟩
  · intro v hv
    rcases List.mem_append.mp hv with hv | hv
    · exact h.writers v hv
    · rw [List.mem_singleton.mp hv]
      exact Nat.zero_le _
  · intro c hc
    obtain ⟨v, hv, hrest⟩ := h.committed c hc
    exact ⟨v, by rw [List.getElem?_append_left (List.getElem?_eq_some_iff.mp hv).1, hv], hrest⟩
  · intro j v hv hdone
    rcases lt_or_ge j s.writers.length with hj | hj
    · rw [List.getElem?_append_left hj] at hv
      exact h.returned j v hv hdone
    · have hmem : v ∈ [(⟨request, .waiting, 0⟩ : Writer ρ α ε)] := by
        rw [List.getElem?_append_right hj] at hv
        exact List.mem_of_getElem? hv
      rw [List.mem_singleton.mp hmem] at hdone
      cases hdone

/-- A swap that succeeds extends the order by the call, which is not yet in it. -/
theorem Inv.commit (h : Inv update first s) {i : ℕ} {w : Writer ρ α ε} {input : ε} {next : α}
    (hw : s.writers[i]? = some w) (hphase : w.phase = .computed s.version input next) :
    Inv update first { s.setWriter i { w with attempts := w.attempts + 1, phase := .done } with
      version := s.version + 1
      value := next
      commits := s.commits ++ [⟨i, w.request, input⟩] } := by
  have hlt : i < s.writers.length := (List.getElem?_eq_some_iff.mp hw).1
  have hsound := h.writers w (List.mem_of_getElem? hw)
  simp only [Writer.Sound, hphase, h.version, List.take_length, h.value] at hsound
  obtain ⟨hattempts, -, seen, hseen, hnext⟩ := hsound
  have hfresh : i ∉ s.commits.map Commit.writer := by
    intro hi
    obtain ⟨c, hc, rfl⟩ := List.mem_map.mp hi
    obtain ⟨v, hv, hdone, -⟩ := h.committed c hc
    rw [hw] at hv
    cases hv
    rw [hphase] at hdone
    cases hdone
  refine ⟨?_, ?_, ?_, ?_, ?_, ?_⟩
  · simp [h.version]
  · rw [replay_concat, h.value, hseen]
    exact hnext
  · intro v hv
    rcases List.mem_or_eq_of_mem_set hv with hv | rfl
    · exact (h.writers v hv).concat _
    · simp only [Writer.Sound, List.length_append, List.length_singleton]
      omega
  · rw [List.map_append, List.nodup_append]
    refine ⟨h.nodup, List.nodup_singleton _, ?_⟩
    rintro j hj k hk rfl
    rw [List.map_singleton, List.mem_singleton] at hk
    subst hk
    exact hfresh hj
  · intro c hc
    rcases List.mem_append.mp hc with hc | hc
    · obtain ⟨v, hv, hdone, hrequest⟩ := h.committed c hc
      have hne : i ≠ c.writer := fun hi => hfresh (hi ▸ List.mem_map_of_mem hc)
      exact ⟨v, by rw [State.setWriter, List.getElem?_set_ne hne, hv], hdone, hrequest⟩
    · rw [List.mem_singleton.mp hc]
      exact ⟨_, List.getElem?_set_self hlt, rfl, rfl⟩
  · intro j v hv hdone
    rw [List.map_append, List.map_singleton, List.mem_append, List.mem_singleton]
    by_cases hij : i = j
    · exact .inr hij.symm
    · rw [State.setWriter, List.getElem?_set_ne hij] at hv
      exact .inl (h.returned j v hv hdone)

theorem Inv.steps (h : Inv update first s) (hstep : Steps update s s') : Inv update first s' := by
  have hsound : ∀ {i : ℕ} {w : Writer ρ α ε}, s.writers[i]? = some w →
      w.Sound update first s.commits := fun hw => h.writers _ (List.mem_of_getElem? hw)
  cases hstep with
  | call request => exact h.call request
  | load hw hphase =>
    refine h.setWriter hw (h.sound_load ?_) (by simp [hphase]) (by simp [Writer.load])
    rw [h.version]
    exact (hsound hw).attempts_le
  | compute hw hphase hnext =>
    have hseen := hsound hw
    simp only [Writer.Sound, hphase] at hseen
    exact h.setWriter hw ⟨hseen.1, hseen.2.1, _, hseen.2.2, hnext⟩ (by simp [hphase]) (by simp)
  | stop hw hphase =>
    exact h.setWriter hw (hsound hw).attempts_le (by simp [hphase]) (by simp)
  | commit hw hphase => exact h.commit hw hphase
  | retry hw hphase hversion =>
    have hseen := hsound hw
    simp only [Writer.Sound, hphase] at hseen
    refine h.setWriter hw (h.sound_load ?_) (by simp [hphase]) (by simp [Writer.load])
    -- the swap failed: the cell has moved on since the load
    have hmoved := h.version
    show _ + 1 ≤ _
    omega

theorem Inv.run (h : Inv update first s) {es : List (Event ρ ε)}
    (hrun : TransitionRuns.run (step update) s es = some s') : Inv update first s' :=
  run_invariant (fun _ _ _ hinv _ hstep => hinv.steps (steps_of_step hstep)) h
    (allSteps_true s es) hrun

/-! ## The order of the commits respects the order of the calls -/

theorem Steps.commits_grow (h : Steps update s s') : s.commits <+: s'.commits := by
  cases h with
  | commit => exact List.prefix_append _ _
  | _ => exact List.prefix_rfl

theorem run_commits_grow {es : List (Event ρ ε)}
    (hrun : TransitionRuns.run (step update) s es = some s') : s.commits <+: s'.commits := by
  have hstep : ∀ (t : State ρ α ε) (e : Event ρ ε) (next : State ρ α ε),
      s.commits <+: t.commits → True → step update t e = some next → s.commits <+: next.commits :=
    fun _ _ _ hpre _ hnext => hpre.trans (steps_of_step hnext).commits_grow
  exact run_invariant hstep List.prefix_rfl (allSteps_true s es) hrun

/-- A call that returned before another was made has its commit before that of the other. -/
theorem Inv.commits_ordered (h : Inv update first s)
    (hpre : s.commits <+: s'.commits) {i j : ℕ} {w : Writer ρ α ε}
    (hi : s.writers[i]? = some w) (hdone : w.phase = .done) (hj : s.writers.length ≤ j) :
    ∃ before after, s'.commits.map Commit.writer = before ++ after ∧ i ∈ before ∧ j ∉ before := by
  obtain ⟨after, hafter⟩ := hpre
  refine ⟨s.commits.map Commit.writer, after.map Commit.writer, ?_, h.returned i w hi hdone, ?_⟩
  · rw [← hafter, List.map_append]
  · intro hmem
    obtain ⟨c, hc, rfl⟩ := List.mem_map.mp hmem
    obtain ⟨v, hv, -⟩ := h.committed c hc
    have hlt := (List.getElem?_eq_some_iff.mp hv).1
    omega

end HathRs.ReadCopyUpdates
