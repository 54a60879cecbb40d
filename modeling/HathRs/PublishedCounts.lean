import HathRs.SessionAccounting

/-!
# The published number of connections

The counter of connections is updated atomically, and the statistics get its value by a store of
their own afterwards. Between the two steps of one operation there can be steps of any others. The
published number is that of the guards once every operation has ended, unless a store has
overwritten the value of a later update of the counter.
-/

namespace HathRs.PublishedCounts
open TransitionRuns FloodControl SessionAccounting

/-! ## The steps -/

/-- An operation that has updated the counter and not yet stored the value: the token of its guard,
the number of the update, and the value. -/
structure Store where
  token : ℕ
  update : ℕ
  value : ℕ
  deriving DecidableEq

/-- `openConnections` is the number in the statistics. `updates` counts the updates of the counter,
and `published` tells which of them has given the number. -/
structure Publishing where
  manager : Manager
  openConnections : ℕ
  stores : List Store
  updates : ℕ
  published : ℕ

namespace Publishing

def new : Publishing := ⟨.new, 0, [], 0, 0⟩

/-- The counter has been updated and the value is still to be stored. -/
def counted (s : Publishing) (manager : Manager) (token value : ℕ) : Publishing :=
  { s with
    manager
    stores := s.stores ++ [⟨token, s.updates + 1, value⟩]
    updates := s.updates + 1 }

/-- `Stats::set_open_connections` -/
def setOpenConnections (s : Publishing) (index : ℕ) (store : Store) : Publishing :=
  { s with
    openConnections := store.value
    stores := s.stores.eraseIdx index
    published := store.update }

end Publishing

/-- An atomic step of the session manager, or the store of one of the operations. -/
inductive Event where
  | session (e : SessionAccounting.Event)
  | publish (index : ℕ)

/-- A refused admission stores nothing, and an admission stores before it inserts its session. The
values are `saturating_add` and `saturating_sub` of what the counter was before. -/
def step (s : Publishing) : Event → Option Publishing
  | .session (.count connId admissionClass maxConnections) =>
    let manager := s.manager.count connId admissionClass maxConnections
    if (s.manager.tryCount admissionClass maxConnections).isSome then
      some (s.counted manager s.manager.guards.length
        (min (s.manager.activeConnections + 1) (2 ^ 32 - 1)))
    else some { s with manager }
  | .session (.insert token now) =>
    if s.stores.any (·.token = token) then none
    else (SessionAccounting.step s.manager (.insert token now)).map fun manager => { s with manager }
  | .session (.uncount token) =>
    (SessionAccounting.step s.manager (.uncount token)).map fun manager =>
      s.counted manager token (s.manager.activeConnections - 1)
  | .session e => (SessionAccounting.step s.manager e).map fun manager => { s with manager }
  | .publish index => s.stores[index]?.map (s.setOpenConnections index)

/-- No admission and no drop is in progress. -/
def Quiescent (s : Publishing) : Prop :=
  s.stores = [] ∧ ∀ g ∈ s.manager.guards, g.phase = .open ∨ g.phase = .dropped

/-- No store overwrites the value of a later update, and no exempt connection is counted beyond the
largest number of 32 bits. -/
def InOrder (s : Publishing) : Event → Prop
  | .session e => ExemptFits s.manager e
  | .publish index => ∀ store ∈ s.stores[index]?, s.published < store.update

/-! ## What the session manager counts -/

theorem countP_modify_of_forall {gs : List Guard} {f : Guard → Guard}
    (hf : ∀ g, (f g).live = g.live) (i : ℕ) : (gs.modify i f).countP Guard.live = gs.countP Guard.live := by
  cases hg : gs[i]? with
  | none => rw [List.modify_eq_self (List.getElem?_eq_none_iff.mp hg)]
  | some g => exact countP_modify_of_live hg (hf g)

/-- The counter and the number of guards change only with an update of the counter. -/
theorem step_keeps_count {s next : Manager} {e : SessionAccounting.Event}
    (hstep : SessionAccounting.step s e = some next)
    (hcount : ∀ connId admissionClass maxConnections, e ≠ .count connId admissionClass maxConnections)
    (huncount : ∀ token, e ≠ .uncount token) :
    next.activeConnections = s.activeConnections ∧ next.liveGuards = s.liveGuards := by
  have hmark : ∀ connId f, (s.mark connId f).activeConnections = s.activeConnections ∧
      (s.mark connId f).liveGuards = s.liveGuards := by
    intro connId f
    unfold Manager.mark
    split <;> exact ⟨rfl, rfl⟩
  cases e with
  | count connId admissionClass maxConnections => exact absurd rfl (hcount _ _ _)
  | uncount token => exact absurd rfl (huncount token)
  | insert token now =>
    obtain ⟨g, hg, hnext⟩ := Option.bind_eq_some_iff.mp hstep
    split_ifs at hnext with hphase
    cases hnext
    exact ⟨rfl, countP_modify_of_live hg (by simp [Guard.live, hphase])⟩
  | markKind connId kind =>
    cases hstep
    exact hmark connId _
  | markPacketSent connId now =>
    cases hstep
    exact hmark connId _
  | nuke now =>
    cases hstep
    exact ⟨rfl, rfl⟩
  | visit index connId =>
    obtain ⟨r, hr, hnext⟩ := Option.bind_eq_some_iff.mp hstep
    obtain ⟨state, hstate, hnext⟩ := Option.bind_eq_some_iff.mp hnext
    split_ifs at hnext
    cases hnext
    simp only [Manager.visit]
    split_ifs
    · exact ⟨rfl, countP_modify_of_forall (by intro g; rfl) _⟩
    · exact ⟨rfl, rfl⟩
  | retained index =>
    obtain ⟨r, hr, hnext⟩ := Option.bind_eq_some_iff.mp hstep
    split_ifs at hnext
    cases hnext
    exact ⟨rfl, rfl⟩
  | cancel index =>
    obtain ⟨r, hr, hnext⟩ := Option.bind_eq_some_iff.mp hstep
    split at hnext
    · cases hnext
      exact ⟨rfl, countP_modify_of_forall (by intro g; rfl) _⟩
    · cases hnext
  | remove token =>
    obtain ⟨g, hg, hnext⟩ := Option.bind_eq_some_iff.mp hstep
    split_ifs at hnext with hphase
    cases hnext
    exact ⟨rfl, countP_modify_of_live hg (by simp [Guard.live, hphase])⟩

/-! ## One step -/

section Steps

variable {s next : Publishing} {e : Event}

/-- Nothing but the sessions, the reapers and the phases of guards has changed. -/
structure KeepsCount (s next : Publishing) : Prop where
  active : next.manager.activeConnections = s.manager.activeConnections
  live : next.manager.liveGuards = s.manager.liveGuards
  open_eq : next.openConnections = s.openConnections
  stores : next.stores = s.stores
  updates : next.updates = s.updates
  published : next.published = s.published

theorem keepsCount_of_step {manager : Manager} {e : SessionAccounting.Event}
    (hstep : SessionAccounting.step s.manager e = some manager)
    (hcount : ∀ connId admissionClass maxConnections, e ≠ .count connId admissionClass maxConnections)
    (huncount : ∀ token, e ≠ .uncount token) : KeepsCount s { s with manager } := by
  obtain ⟨hactive, hlive⟩ := step_keeps_count hstep hcount huncount
  exact ⟨hactive, hlive, rfl, rfl, rfl, rfl⟩

/-- Everything a step can do. The counter is updated by an admission or a drop, whose value is then
still to be stored, or one value is stored. -/
theorem step_cases (hstep : step s e = some next) :
    KeepsCount s next ∨
    (∃ connId admissionClass maxConnections active,
      e = .session (.count connId admissionClass maxConnections) ∧
      s.manager.tryCount admissionClass maxConnections = some active ∧
      next = s.counted (s.manager.count connId admissionClass maxConnections)
        s.manager.guards.length (min (s.manager.activeConnections + 1) (2 ^ 32 - 1))) ∨
    (∃ token g, e = .session (.uncount token) ∧ s.manager.guards[token]? = some g ∧
      g.phase = .closing ∧
      next = s.counted (s.manager.uncount token) token (s.manager.activeConnections - 1)) ∨
    ∃ index store, e = .publish index ∧ s.stores[index]? = some store ∧
      next = s.setOpenConnections index store := by
  cases e with
  | publish index =>
    obtain ⟨store, hstore, rfl⟩ := Option.map_eq_some_iff.mp hstep
    exact .inr (.inr (.inr ⟨index, store, rfl, hstore, rfl⟩))
  | session e =>
    cases e with
    | count connId admissionClass maxConnections =>
      cases hcount : s.manager.tryCount admissionClass maxConnections with
      | none =>
        simp only [step, hcount, Option.isSome_none, Bool.false_eq_true, if_false, Manager.count,
          Option.some.injEq] at hstep
        subst hstep
        exact .inl ⟨rfl, rfl, rfl, rfl, rfl, rfl⟩
      | some active =>
        simp only [step, hcount, Option.isSome_some, if_true, Option.some.injEq] at hstep
        exact .inr (.inl ⟨connId, admissionClass, maxConnections, active, rfl, hcount, hstep.symm⟩)
    | uncount token =>
      obtain ⟨manager, hmanager, rfl⟩ := Option.map_eq_some_iff.mp hstep
      obtain ⟨g, hg, hnext⟩ := Option.bind_eq_some_iff.mp hmanager
      split_ifs at hnext with hphase
      obtain rfl := Option.some.inj hnext
      exact .inr (.inr (.inl ⟨token, g, rfl, hg, hphase, rfl⟩))
    | insert token now =>
      simp only [step] at hstep
      split_ifs at hstep
      obtain ⟨manager, hmanager, rfl⟩ := Option.map_eq_some_iff.mp hstep
      exact .inl (keepsCount_of_step hmanager (by simp) (by simp))
    | markKind | markPacketSent | nuke | visit | retained | cancel | remove =>
      simp only [step] at hstep
      obtain ⟨manager, hmanager, rfl⟩ := Option.map_eq_some_iff.mp hstep
      exact .inl (keepsCount_of_step hmanager (by simp) (by simp))

end Steps

/-! ## Every run -/

/-- The value of the last update has been published, or is still to be stored. -/
structure Inv (s : Publishing) : Prop where
  lt : s.manager.activeConnections < 2 ^ 32
  count : s.manager.activeConnections = s.manager.liveGuards
  update_le : ∀ store ∈ s.stores, store.update ≤ s.updates
  value : ∀ store ∈ s.stores, store.update = s.updates →
    store.value = s.manager.activeConnections
  newest : s.published = s.updates ∧ s.openConnections = s.manager.activeConnections ∨
    ∃ store ∈ s.stores, store.update = s.updates

namespace Inv

variable {s next : Publishing} {e : Event}

theorem new : Inv .new := ⟨by decide, rfl, nofun, nofun, .inl ⟨rfl, rfl⟩⟩

theorem keepsCount (h : Inv s) (hkeeps : KeepsCount s next) : Inv next := by
  obtain ⟨hactive, hlive, hopen, hstores, hupdates, hpublished⟩ := hkeeps
  refine ⟨?_, ?_, ?_, ?_, ?_⟩
  · rw [hactive]
    exact h.lt
  · rw [hactive, hlive]
    exact h.count
  · rw [hstores, hupdates]
    exact h.update_le
  · rw [hstores, hupdates, hactive]
    exact h.value
  · rw [hpublished, hupdates, hopen, hactive, hstores]
    exact h.newest

/-- The stores of earlier updates can no longer be the newest. -/
theorem counted (h : Inv s) {manager : Manager} {token value : ℕ}
    (hlt : manager.activeConnections < 2 ^ 32) (hcount : manager.activeConnections = manager.liveGuards)
    (hvalue : value = manager.activeConnections) : Inv (s.counted manager token value) := by
  refine ⟨hlt, hcount, ?_, ?_, .inr ⟨_, List.mem_append_right _ List.mem_cons_self, rfl⟩⟩
  · intro store hstore
    rcases List.mem_append.mp hstore with hold | hnew
    · exact (h.update_le store hold).trans (Nat.le_succ _)
    · obtain rfl := List.mem_singleton.mp hnew
      exact le_rfl
  · intro store hstore hupdate
    rcases List.mem_append.mp hstore with hold | hnew
    · have hle := h.update_le store hold
      change store.update = s.updates + 1 at hupdate
      omega
    · obtain rfl := List.mem_singleton.mp hnew
      exact hvalue

/-- A store in order is not one before the last that has been made. -/
theorem setOpenConnections (h : Inv s) {index : ℕ} {store : Store}
    (hstore : s.stores[index]? = some store) (horder : s.published < store.update) :
    Inv (s.setOpenConnections index store) := by
  have hmem := List.mem_of_getElem? hstore
  have hrest : ∀ other ∈ s.stores.eraseIdx index, other ∈ s.stores :=
    fun other hother => List.mem_of_mem_eraseIdx hother
  refine ⟨h.lt, h.count, fun other hother => h.update_le other (hrest other hother),
    fun other hother => h.value other (hrest other hother), ?_⟩
  by_cases hlast : store.update = s.updates
  · exact .inl ⟨hlast, h.value store hmem hlast⟩
  · rcases h.newest with ⟨hpublished, -⟩ | ⟨other, hother, hupdate⟩
    · have hle := h.update_le store hmem
      omega
    · -- the newest store is another one and stays
      refine .inr ⟨other, ?_, hupdate⟩
      obtain ⟨j, hj⟩ := List.mem_iff_getElem?.mp hother
      refine List.mem_eraseIdx_iff_getElem?.mpr ⟨j, ?_, hj⟩
      rintro rfl
      rw [hstore] at hj
      obtain rfl := Option.some.inj hj
      exact hlast hupdate

theorem step (h : Inv s) (horder : InOrder s e) (hstep : step s e = some next) : Inv next := by
  rcases step_cases hstep with hkeeps | ⟨connId, admissionClass, maxConnections, active, rfl, hcount, rfl⟩ |
    ⟨token, g, rfl, hg, hphase, rfl⟩ | ⟨index, store, rfl, hstore, rfl⟩
  · exact h.keepsCount hkeeps
  · obtain ⟨rfl, hbound⟩ := tryCount_eq_some h.lt horder hcount
    have hactive : (s.manager.count connId admissionClass maxConnections).activeConnections =
        s.manager.activeConnections + 1 := by
      simp only [Manager.count, hcount]
    have hlive : (s.manager.count connId admissionClass maxConnections).liveGuards =
        s.manager.liveGuards + 1 := by
      simp only [Manager.count, hcount, Manager.liveGuards, List.countP_append]
      rfl
    have hequal := h.count
    exact h.counted (by omega) (by omega) (by omega)
  · have hequal := h.count
    have hlt := h.lt
    have hless := liveGuards_uncount hg hphase
    have hback : (s.manager.uncount token).activeConnections = s.manager.activeConnections - 1 :=
      if_neg (by omega)
    exact h.counted (by omega) (by omega) hback.symm
  · exact h.setOpenConnections hstore (horder store hstore)

end Inv

/-- The published count converges in every run whose stores are made in the order of the updates,
so far as one overwrites another: once no admission and no drop is in progress, it is the number of
guards. -/
theorem published_count_converges {events : List Event} {s : Publishing}
    (hrun : run step .new events = some s) (horder : AllSteps step InOrder .new events)
    (hquiescent : Quiescent s) : s.openConnections = s.manager.liveGuards := by
  have hinv : Inv s := run_invariant (fun _ _ _ h hc hstep => h.step hc hstep) .new horder hrun
  rcases hinv.newest with ⟨-, hopen⟩ | ⟨store, hstore, -⟩
  · rw [hopen, hinv.count]
  · rw [hquiescent.1] at hstore
    cases hstore

instance decidableInOrder (s : Publishing) (e : Event) : Decidable (InOrder s e) :=
  match e with
  | .session (.count _ .exempt _) => inferInstanceAs (Decidable (_ ≠ _))
  | .session (.count _ .limited _) => .isTrue trivial
  | .session (.insert _ _) => .isTrue trivial
  | .session (.markKind _ _) => .isTrue trivial
  | .session (.markPacketSent _ _) => .isTrue trivial
  | .session (.nuke _) => .isTrue trivial
  | .session (.visit _ _) => .isTrue trivial
  | .session (.retained _) => .isTrue trivial
  | .session (.cancel _) => .isTrue trivial
  | .session (.remove _) => .isTrue trivial
  | .session (.uncount _) => .isTrue trivial
  | .publish index => inferInstanceAs (Decidable (∀ store ∈ s.stores[index]?, _))

/-- What the statistics and the guards are at the end of a run. -/
def outcome (s : Publishing) : ℕ × List Store × List GuardPhase :=
  (s.openConnections, s.stores, s.manager.guards.map Guard.phase)

theorem quiescent_of_outcome {s : Publishing} {n : ℕ} {phases : List GuardPhase}
    (h : outcome s = (n, [], phases)) (hphases : ∀ p ∈ phases, p = .open ∨ p = .dropped) :
    Quiescent s := by
  obtain ⟨-, hstores, hguards⟩ : s.openConnections = n ∧ s.stores = [] ∧
      s.manager.guards.map Guard.phase = phases := by
    simpa [outcome] using h
  refine ⟨hstores, fun g hg => hphases _ ?_⟩
  rw [← hguards]
  exact List.mem_map_of_mem hg

/-- A second connection is admitted while the first is between its counter update and its store, and
then the first is dropped. The older store is made first. -/
def orderedStores : List Event :=
  [.session (.count 1 .limited 10), .session (.count 2 .limited 10), .publish 0, .publish 0,
    .session (.insert 0 0), .session (.insert 1 0), .session (.remove 0), .session (.uncount 0),
    .publish 0]

theorem orderedStores_converge :
    ∃ s, run step .new orderedStores = some s ∧ Quiescent s ∧ s.openConnections = 1 ∧
      s.manager.liveGuards = 1 := by
  have hend : (run step .new orderedStores).map outcome = some (1, [], [.dropped, .open]) := by
    decide +kernel
  have horder : AllSteps step InOrder .new orderedStores := by decide +kernel
  obtain ⟨s, hrun, houtcome⟩ := Option.map_eq_some_iff.mp hend
  have hquiescent := quiescent_of_outcome houtcome (by decide)
  have hopen : s.openConnections = 1 := congrArg Prod.fst houtcome
  refine ⟨s, hrun, hquiescent, hopen, ?_⟩
  rw [← published_count_converges hrun horder hquiescent, hopen]

/-- The same two admissions with their stores the other way round. -/
def staleStore : List Event :=
  [.session (.count 1 .limited 10), .session (.count 2 .limited 10), .publish 1, .publish 0,
    .session (.insert 0 0), .session (.insert 1 0)]

theorem staleStore_stays :
    ∃ s, run step .new staleStore = some s ∧ Quiescent s ∧ s.openConnections = 1 ∧
      s.manager.liveGuards = 2 := by
  have hend : (run step .new staleStore).map (fun s => (outcome s, s.manager.liveGuards)) =
      some ((1, [], [.open, .open]), 2) := by
    decide +kernel
  obtain ⟨s, hrun, houtcome⟩ := Option.map_eq_some_iff.mp hend
  obtain ⟨houtcome, hlive⟩ := Prod.mk.inj houtcome
  exact ⟨s, hrun, quiescent_of_outcome houtcome (by decide), congrArg Prod.fst houtcome, hlive⟩

end HathRs.PublishedCounts
