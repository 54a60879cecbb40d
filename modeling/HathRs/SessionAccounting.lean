import HathRs.FloodControl
import HathRs.HashMaps

/-!
# Sessions: the connection counter, the session map and the reaper

An admission counts the connection and then inserts its session. The guard's drop removes
the session and then gives the count back. In between, handles mark the session by its
connection id, and reapers remove sessions that have timed out and cancel their tokens.
-/

namespace HathRs.SessionAccounting
open TransitionRuns FloodControl

/-! ## Sessions -/

inductive SessionKind where
  | pending
  | normal
  | servercmd
  deriving DecidableEq

inductive SessionTimeoutReason where
  | startAge
  | lastPacketSend
  deriving DecidableEq

/-- The state of a session without the address, which is only logged. Tokens are numbered in the
order of the admissions and times are nanoseconds. -/
structure SessionState where
  startedAt : ℕ
  kind : SessionKind
  lastPacketSend : Option ℕ
  cancel : ℕ
  deriving DecidableEq

namespace SessionState

def new (now cancel : ℕ) : SessionState := ⟨now, .pending, none, cancel⟩

def startTimeout : SessionKind → ℕ
  | .pending => 30 * 10 ^ 9
  | .normal => 180 * 10 ^ 9
  | .servercmd => 1800 * 10 ^ 9

def timeoutReason (state : SessionState) (now : ℕ) : Option SessionTimeoutReason :=
  if state.lastPacketSend.any (fun t => 30 * 10 ^ 9 < now - t) then some .lastPacketSend
  else if startTimeout state.kind < now - state.startedAt then some .startAge
  else none

end SessionState

/-! ## The manager -/

/-- Where an admission is: it has counted the connection, it has inserted the session and made the
guard, the guard's drop has removed the session, and it has given the count back. -/
inductive GuardPhase where
  | counted
  | open
  | closing
  | dropped
  deriving DecidableEq

/-- An admission with the state of its token. `reaped` says that a reaper has removed the session. -/
structure Guard where
  connId : UInt32
  phase : GuardPhase
  reaped : Bool
  cancelled : Bool

/-- The guard holds a count. -/
def Guard.live (g : Guard) : Bool := g.phase ≠ .dropped

/-- A call of `nuke_old_connections`: the clock it has read, the keys `retain` has still to visit,
whether `retain` has returned, and the tokens to cancel. -/
structure Reaper where
  now : ℕ
  todo : Finset UInt32
  retained : Bool
  expired : List ℕ

/-- A session that `retain` has looked at. -/
structure Visit where
  state : SessionState
  now : ℕ

def Visit.timedOut (v : Visit) : Bool := (v.state.timeoutReason v.now).isSome

/-- `activeConnections` and `sessions` are the manager's own, `guards` are all admissions so far. -/
structure Manager where
  activeConnections : ℕ
  sessions : HashMap UInt32 SessionState
  guards : List Guard
  reapers : List Reaper
  visits : List Visit

namespace Manager

def new : Manager := ⟨0, ∅, [], [], []⟩

/-- The number of guards that hold a count. -/
def liveGuards (s : Manager) : ℕ := s.guards.countP Guard.live

/-- The counter update of `admit`: `fetch_add` for an exempt connection, `try_update` with a checked
addition for a limited one. -/
def tryCount (s : Manager) (admissionClass : AdmissionClass) (maxConnections : ℕ) : Option ℕ :=
  match admissionClass with
  | .exempt => some ((s.activeConnections + 1) % 2 ^ 32)
  | .limited =>
    if s.activeConnections ≤ maxConnections ∧ s.activeConnections + 1 < 2 ^ 32 then
      some (s.activeConnections + 1)
    else none

/-- A refused admission changes nothing. -/
def count (s : Manager) (connId : UInt32) (admissionClass : AdmissionClass) (maxConnections : ℕ) :
    Manager :=
  match s.tryCount admissionClass maxConnections with
  | none => s
  | some active =>
    { s with activeConnections := active, guards := s.guards ++ [⟨connId, .counted, false, false⟩] }

/-- The session of the admission with this token is inserted and its guard is made. -/
def insert (s : Manager) (token : ℕ) (g : Guard) (now : ℕ) : Manager :=
  { s with
    sessions := s.sessions.insert g.connId (.new now token)
    guards := s.guards.modify token fun g => { g with phase := .open } }

/-- `get_mut` and an assignment. -/
def mark (s : Manager) (connId : UInt32) (f : SessionState → SessionState) : Manager :=
  match s.sessions.lookup connId with
  | none => s
  | some state => { s with sessions := s.sessions.insert connId (f state) }

def markKind (s : Manager) (connId : UInt32) (kind : SessionKind) : Manager :=
  s.mark connId fun state => { state with kind }

def markPacketSent (s : Manager) (connId : UInt32) (now : ℕ) : Manager :=
  s.mark connId fun state => { state with lastPacketSend := some now }

/-- `retain` looks at one entry. -/
def visit (s : Manager) (index : ℕ) (r : Reaper) (connId : UInt32) (state : SessionState) : Manager :=
  let s := { s with visits := ⟨state, r.now⟩ :: s.visits }
  let todo := r.todo.erase connId
  if (state.timeoutReason r.now).isSome then
    { s with
      sessions := s.sessions.erase connId
      guards := s.guards.modify state.cancel fun g => { g with reaped := true }
      reapers := s.reapers.set index { r with todo, expired := r.expired ++ [state.cancel] } }
  else { s with reapers := s.reapers.set index { r with todo } }

/-- The first token of the list is cancelled. -/
def cancel (s : Manager) (index : ℕ) (r : Reaper) (token : ℕ) (rest : List ℕ) : Manager :=
  { s with
    guards := s.guards.modify token fun g => { g with cancelled := true }
    reapers := s.reapers.set index { r with expired := rest } }

/-- The session of the guard is removed from the map, whatever is there under its id. -/
def remove (s : Manager) (token : ℕ) (g : Guard) : Manager :=
  { s with
    sessions := s.sessions.erase g.connId
    guards := s.guards.modify token fun g => { g with phase := .closing } }

/-- `fetch_sub`, which wraps around at zero. -/
def uncount (s : Manager) (token : ℕ) : Manager :=
  { s with
    activeConnections := if s.activeConnections = 0 then 2 ^ 32 - 1 else s.activeConnections - 1
    guards := s.guards.modify token fun g => { g with phase := .dropped } }

end Manager

/-! ## Runs -/

/-- The atomic steps of the calls. A handle can mark any connection id at any time. -/
inductive Event where
  | count (connId : UInt32) (admissionClass : AdmissionClass) (maxConnections : ℕ)
  | insert (token now : ℕ)
  | markKind (connId : UInt32) (kind : SessionKind)
  | markPacketSent (connId : UInt32) (now : ℕ)
  | nuke (now : ℕ)
  | visit (index : ℕ) (connId : UInt32)
  | retained (index : ℕ)
  | cancel (index : ℕ)
  | remove (token : ℕ)
  | uncount (token : ℕ)

/-- `retain` returns when no key it has still to visit is in the map. -/
def step (s : Manager) : Event → Option Manager
  | .count connId admissionClass maxConnections =>
    some (s.count connId admissionClass maxConnections)
  | .insert token now => do
    let g ← s.guards[token]?
    if g.phase = .counted then some (s.insert token g now) else none
  | .markKind connId kind => some (s.markKind connId kind)
  | .markPacketSent connId now => some (s.markPacketSent connId now)
  | .nuke now => some { s with reapers := s.reapers ++ [⟨now, s.sessions.keys, false, []⟩] }
  | .visit index connId => do
    let r ← s.reapers[index]?
    let state ← s.sessions.lookup connId
    if r.retained then none else some (s.visit index r connId state)
  | .retained index => do
    let r ← s.reapers[index]?
    if !r.retained ∧ Disjoint r.todo s.sessions.keys then
      some { s with reapers := s.reapers.set index { r with retained := true } }
    else none
  | .cancel index => do
    let r ← s.reapers[index]?
    match r.retained, r.expired with
    | true, token :: rest => some (s.cancel index r token rest)
    | _, _ => none
  | .remove token => do
    let g ← s.guards[token]?
    if g.phase = .open then some (s.remove token g) else none
  | .uncount token => do
    let g ← s.guards[token]?
    if g.phase = .closing then some (s.uncount token) else none

/-! ## Counting guards -/

section Guards

variable {gs : List Guard} {f : Guard → Guard} {i : ℕ} {g : Guard}

/-- One guard changes. -/
theorem countP_modify (hg : gs[i]? = some g) :
    (gs.modify i f).countP Guard.live + (if g.live then 1 else 0) =
      gs.countP Guard.live + (if (f g).live then 1 else 0) := by
  induction gs generalizing i with
  | nil => cases hg
  | cons g' gs ih =>
    cases i with
    | zero =>
      cases hg
      simp only [List.modify_zero_cons, List.countP_cons]
      omega
    | succ i =>
      have hrest := ih (by simpa using hg)
      simp only [List.modify_succ_cons, List.countP_cons]
      omega

theorem countP_modify_of_live (hg : gs[i]? = some g) (hf : (f g).live = g.live) :
    (gs.modify i f).countP Guard.live = gs.countP Guard.live := by
  have h := countP_modify (f := f) hg
  rw [hf] at h
  exact Nat.add_right_cancel h

theorem of_getElem?_modify {j : ℕ} (hg : (gs.modify i f)[j]? = some g) :
    ∃ g', gs[j]? = some g' ∧ g = if i = j then f g' else g' := by
  rw [List.getElem?_modify] at hg
  obtain ⟨g', hg', rfl⟩ := Option.map_eq_some_iff.mp hg
  exact ⟨g', hg', rfl⟩

theorem getElem?_modify_of_some {j : ℕ} (hg : gs[j]? = some g) :
    (gs.modify i f)[j]? = some (if i = j then f g else g) := by
  rw [List.getElem?_modify, hg]
  rfl

/-- An appended guard is the last one. -/
theorem of_getElem?_append {j : ℕ} {new : Guard} (hg : (gs ++ [new])[j]? = some g) :
    gs[j]? = some g ∨ (j = gs.length ∧ g = new) := by
  rcases lt_trichotomy j gs.length with hlt | heq | hgt
  · rw [List.getElem?_append_left hlt] at hg
    exact .inl hg
  · subst heq
    rw [List.getElem?_concat_length] at hg
    exact .inr ⟨rfl, (Option.some.inj hg).symm⟩
  · rw [List.getElem?_eq_none (by simp; omega)] at hg
    cases hg

theorem getElem?_append_of_some {j : ℕ} {new : List Guard} (hg : gs[j]? = some g) :
    (gs ++ new)[j]? = some g := by
  rw [List.getElem?_append_left (List.getElem?_eq_some_iff.mp hg).1, hg]

end Guards

/-! ## The map and the guards -/

/-- Live guards have different ids. -/
def DistinctIds (gs : List Guard) : Prop :=
  ∀ (i j : ℕ) (g g' : Guard), gs[i]? = some g → gs[j]? = some g' → g.live = true →
    g'.live = true → g.connId = g'.connId → i = j

/-- A guard never changes its id and does not come back to life. -/
theorem DistinctIds.modify {gs : List Guard} (h : DistinctIds gs) {token : ℕ} {f : Guard → Guard}
    {g : Guard} (hg : gs[token]? = some g) (hid : (f g).connId = g.connId)
    (hlive : (f g).live = true → g.live = true) : DistinctIds (gs.modify token f) := by
  have hback : ∀ (i : ℕ) (g₁ : Guard), (gs.modify token f)[i]? = some g₁ →
      ∃ g₀, gs[i]? = some g₀ ∧ g₁.connId = g₀.connId ∧ (g₁.live = true → g₀.live = true) := by
    intro i g₁ hg₁
    obtain ⟨g₀, hg₀, rfl⟩ := of_getElem?_modify hg₁
    refine ⟨g₀, hg₀, ?_⟩
    split_ifs with heq
    · subst heq
      rw [hg] at hg₀
      cases hg₀
      exact ⟨hid, hlive⟩
    · exact ⟨rfl, id⟩
  intro i j g₁ g₂ hg₁ hg₂ hl₁ hl₂ heq
  obtain ⟨g₁', hg₁', hid₁, hlive₁⟩ := hback i g₁ hg₁
  obtain ⟨g₂', hg₂', hid₂, hlive₂⟩ := hback j g₂ hg₂
  rw [hid₁, hid₂] at heq
  exact h i j g₁' g₂' hg₁' hg₂' (hlive₁ hl₁) (hlive₂ hl₂) heq

theorem DistinctIds.append {gs : List Guard} (h : DistinctIds gs) {connId : UInt32}
    (hnew : ∀ g ∈ gs, g.live = true → g.connId ≠ connId) :
    DistinctIds (gs ++ [⟨connId, .counted, false, false⟩]) := by
  intro i j g g' hg hg' hgl hgl' heq
  rcases of_getElem?_append hg with hg | ⟨rfl, rfl⟩ <;>
    rcases of_getElem?_append hg' with hg' | ⟨rfl, rfl⟩
  · exact h i j g g' hg hg' hgl hgl' heq
  · exact absurd heq (hnew g (List.mem_of_getElem? hg) hgl)
  · exact absurd heq.symm (hnew g' (List.mem_of_getElem? hg') hgl')
  · rfl

/-- A guard that may have its session in the map under this id. -/
def Guard.Holds (g : Guard) (k : UInt32) : Prop := g.connId = k ∧ g.phase = .open ∧ g.reaped = false

/-- Every session of the map is that of an open guard. -/
structure MapInv (sessions : HashMap UInt32 SessionState) (gs : List Guard) : Prop where
  distinct : DistinctIds gs
  entry : ∀ k state, sessions.lookup k = some state → ∃ g, gs[state.cancel]? = some g ∧ g.Holds k
  counted : ∀ g ∈ gs, g.phase = .counted → g.reaped = false

namespace MapInv

variable {sessions : HashMap UInt32 SessionState} {gs : List Guard}

theorem nil : MapInv ∅ [] where
  distinct := nofun
  entry k state h := by
    rw [Finmap.lookup_empty] at h
    cases h
  counted := nofun

theorem append (h : MapInv sessions gs) {connId : UInt32}
    (hnew : ∀ g ∈ gs, g.live = true → g.connId ≠ connId) :
    MapInv sessions (gs ++ [⟨connId, .counted, false, false⟩]) where
  distinct := h.distinct.append hnew
  entry k state hk := by
    obtain ⟨g, hg, hrest⟩ := h.entry k state hk
    exact ⟨g, getElem?_append_of_some hg, hrest⟩
  counted g hg hphase := by
    rcases List.mem_append.mp hg with hg | hg
    · exact h.counted g hg hphase
    · rw [List.mem_singleton.mp hg]

/-- One guard changes, and the sessions of the new map that it held before it still holds. -/
theorem modify (h : MapInv sessions gs) {sessions' : HashMap UInt32 SessionState} {token : ℕ}
    {f : Guard → Guard} {g : Guard} (hg : gs[token]? = some g) (hid : (f g).connId = g.connId)
    (hlive : (f g).live = true → g.live = true)
    (hcounted : (f g).phase = .counted → (f g).reaped = false)
    (hsub : ∀ k state, sessions'.lookup k = some state →
      state.cancel = token ∧ (f g).Holds k ∨
        sessions.lookup k = some state ∧ (g.Holds k → (f g).Holds k)) :
    MapInv sessions' (gs.modify token f) where
  distinct := h.distinct.modify hg hid hlive
  entry k state hk := by
    rcases hsub k state hk with ⟨rfl, hnew⟩ | ⟨hold, hkeep⟩
    · refine ⟨f g, ?_, hnew⟩
      rw [getElem?_modify_of_some hg, if_pos rfl]
    · obtain ⟨g', hg', hholds⟩ := h.entry k state hold
      refine ⟨_, getElem?_modify_of_some hg', ?_⟩
      split_ifs with heq
      · subst heq
        rw [hg] at hg'
        cases hg'
        exact hkeep hholds
      · exact hholds
  counted g' hg' hphase := by
    obtain ⟨i, hi⟩ := List.mem_iff_getElem?.mp hg'
    obtain ⟨g₀, hg₀, rfl⟩ := of_getElem?_modify hi
    split_ifs at hphase ⊢ with heq
    · subst heq
      rw [hg] at hg₀
      cases hg₀
      exact hcounted hphase
    · exact h.counted g₀ (List.mem_of_getElem? hg₀) hphase

theorem insert (h : MapInv sessions gs) {token : ℕ} {g : Guard} (hg : gs[token]? = some g)
    (hphase : g.phase = .counted) (now : ℕ) :
    MapInv (sessions.insert g.connId (.new now token))
      (gs.modify token fun g => { g with phase := .open }) := by
  refine h.modify hg rfl (fun _ => by simp [Guard.live, hphase]) nofun fun k state hk => ?_
  by_cases heq : k = g.connId
  · subst heq
    rw [Finmap.lookup_insert] at hk
    cases hk
    exact .inl ⟨rfl, rfl, rfl, h.counted g (List.mem_of_getElem? hg) hphase⟩
  · rw [Finmap.lookup_insert_of_ne _ heq] at hk
    exact .inr ⟨hk, fun hholds => absurd hholds.1.symm heq⟩

/-- The session of a guard is removed, and then the guard may change. -/
theorem erase (h : MapInv sessions gs) {token : ℕ} {g : Guard} (hg : gs[token]? = some g)
    {f : Guard → Guard} (hid : (f g).connId = g.connId) (hlive : (f g).live = true → g.live = true)
    (hcounted : (f g).phase = .counted → (f g).reaped = false) :
    MapInv (sessions.erase g.connId) (gs.modify token f) := by
  refine h.modify hg hid hlive hcounted fun k state hk => ?_
  have hne : k ≠ g.connId := by
    rintro rfl
    rw [Finmap.lookup_erase] at hk
    cases hk
  rw [Finmap.lookup_erase_ne hne] at hk
  exact .inr ⟨hk, fun hholds => absurd hholds.1.symm hne⟩

theorem uncount (h : MapInv sessions gs) {token : ℕ} {g : Guard} (hg : gs[token]? = some g)
    (hphase : g.phase = .closing) :
    MapInv sessions (gs.modify token fun g => { g with phase := .dropped }) := by
  refine h.modify hg rfl nofun nofun fun k state hk => .inr ⟨hk, fun hholds => ?_⟩
  have hopen := hholds.2.1
  rw [hphase] at hopen
  cases hopen

theorem cancel (h : MapInv sessions gs) {token : ℕ} {g : Guard} (hg : gs[token]? = some g) :
    MapInv sessions (gs.modify token fun g => { g with cancelled := true }) :=
  h.modify hg rfl id (h.counted g (List.mem_of_getElem? hg)) fun _ _ hk => .inr ⟨hk, id⟩

/-- A mark keeps the token of the session. -/
theorem mark (h : MapInv sessions gs) {k : UInt32} {state state' : SessionState}
    (hk : sessions.lookup k = some state) (hcancel : state'.cancel = state.cancel) :
    MapInv (sessions.insert k state') gs where
  distinct := h.distinct
  entry k' state₀ hk' := by
    by_cases heq : k' = k
    · subst heq
      rw [Finmap.lookup_insert] at hk'
      cases hk'
      rw [hcancel]
      exact h.entry k' state hk
    · rw [Finmap.lookup_insert_of_ne _ heq] at hk'
      exact h.entry k' state₀ hk'
  counted := h.counted

end MapInv

/-! ## Tokens -/

/-- A call of `nuke_old_connections` in progress is going to cancel this token. -/
def Owed (reapers : List Reaper) (token : ℕ) : Prop := ∃ r ∈ reapers, token ∈ r.expired

theorem Owed.set {reapers : List Reaper} {index token : ℕ} {r r' : Reaper}
    (h : Owed reapers token) (hr : reapers[index]? = some r)
    (hkeep : token ∈ r.expired → token ∈ r'.expired) : Owed (reapers.set index r') token := by
  obtain ⟨r₀, hr₀, htoken⟩ := h
  obtain ⟨j, hj⟩ := List.mem_iff_getElem?.mp hr₀
  by_cases heq : index = j
  · subst heq
    rw [hr] at hj
    cases hj
    exact ⟨r', List.mem_set (List.getElem?_eq_some_iff.mp hr).1 r', hkeep htoken⟩
  · refine ⟨r₀, List.mem_of_getElem? (i := j) ?_, htoken⟩
    rw [List.getElem?_set_ne heq, hj]

/-- A token is cancelled, or going to be, exactly when a visit found its session timed out, and then
the session is out of the map. -/
structure TokenInv (gs : List Guard) (reapers : List Reaper) (visits : List Visit) : Prop where
  visited : ∀ v ∈ visits, v.state.cancel < gs.length
  reaped_iff : ∀ (i : ℕ) (g : Guard), gs[i]? = some g →
    (g.reaped = true ↔ ∃ v ∈ visits, v.state.cancel = i ∧ v.timedOut = true)
  cancelled : ∀ g ∈ gs, g.cancelled = true → g.reaped = true
  expired : ∀ token, Owed reapers token → ∃ g, gs[token]? = some g ∧ g.reaped = true
  owed : ∀ (i : ℕ) (g : Guard), gs[i]? = some g → g.reaped = true → g.cancelled = true ∨ Owed reapers i

namespace TokenInv

variable {gs : List Guard} {reapers : List Reaper} {visits : List Visit}

theorem nil : TokenInv [] [] [] where
  visited := nofun
  reaped_iff := nofun
  cancelled := nofun
  expired _ h := by
    obtain ⟨r, hr, -⟩ := h
    cases hr
  owed := nofun

theorem append (h : TokenInv gs reapers visits) (connId : UInt32) :
    TokenInv (gs ++ [⟨connId, .counted, false, false⟩]) reapers visits where
  visited v hv := by
    rw [List.length_append]
    exact Nat.lt_add_right _ (h.visited v hv)
  reaped_iff i g hg := by
    rcases of_getElem?_append hg with hg | ⟨rfl, rfl⟩
    · exact h.reaped_iff i g hg
    · refine ⟨nofun, fun ⟨v, hv, hlen, _⟩ => ?_⟩
      exact absurd (h.visited v hv) (by omega)
  cancelled g hg hc := by
    rcases List.mem_append.mp hg with hg | hg
    · exact h.cancelled g hg hc
    · rw [List.mem_singleton.mp hg] at hc
      cases hc
  expired token howed := by
    obtain ⟨g, hg, hreaped⟩ := h.expired token howed
    exact ⟨g, getElem?_append_of_some hg, hreaped⟩
  owed i g hg hreaped := by
    rcases of_getElem?_append hg with hg | ⟨rfl, rfl⟩
    · exact h.owed i g hg hreaped
    · cases hreaped

/-- A guard goes on to another phase. -/
theorem phase (h : TokenInv gs reapers visits) (token : ℕ) (phase : GuardPhase) :
    TokenInv (gs.modify token fun g => { g with phase }) reapers visits := by
  have hback : ∀ (i : ℕ) (g : Guard), (gs.modify token fun g => { g with phase })[i]? = some g →
      ∃ g', gs[i]? = some g' ∧ g.reaped = g'.reaped ∧ g.cancelled = g'.cancelled := by
    intro i g hg
    obtain ⟨g', hg', rfl⟩ := of_getElem?_modify hg
    refine ⟨g', hg', ?_⟩
    split_ifs <;> exact ⟨rfl, rfl⟩
  refine ⟨fun v hv => ?_, fun i g hg => ?_, fun g hg hc => ?_, fun i howed => ?_, fun i g hg hr => ?_⟩
  · rw [List.length_modify]
    exact h.visited v hv
  · obtain ⟨g', hg', hr, -⟩ := hback i g hg
    rw [hr]
    exact h.reaped_iff i g' hg'
  · obtain ⟨i, hi⟩ := List.mem_iff_getElem?.mp hg
    obtain ⟨g', hg', hr, hc'⟩ := hback i g hi
    rw [hr]
    exact h.cancelled g' (List.mem_of_getElem? hg') (hc' ▸ hc)
  · obtain ⟨g, hg, hr⟩ := h.expired i howed
    refine ⟨_, getElem?_modify_of_some hg, ?_⟩
    split_ifs <;> exact hr
  · obtain ⟨g', hg', hr', hc⟩ := hback i g hg
    rw [hc]
    exact h.owed i g' hg' (hr' ▸ hr)

theorem nuke (h : TokenInv gs reapers visits) (now : ℕ) (todo : Finset UInt32) :
    TokenInv gs (reapers ++ [⟨now, todo, false, []⟩]) visits := by
  refine ⟨h.visited, h.reaped_iff, h.cancelled, fun token howed => ?_, fun i g hg hr => ?_⟩
  · obtain ⟨r, hr, htoken⟩ := howed
    rcases List.mem_append.mp hr with hr | hr
    · exact h.expired token ⟨r, hr, htoken⟩
    · rw [List.mem_singleton.mp hr] at htoken
      cases htoken
  · refine (h.owed i g hg hr).imp_right fun ⟨r, hr, htoken⟩ => ?_
    exact ⟨r, List.mem_append_left _ hr, htoken⟩

/-- A reaper goes on without a change of its list. -/
theorem reaper (h : TokenInv gs reapers visits) {index : ℕ} {r r' : Reaper}
    (hr : reapers[index]? = some r) (hexpired : r'.expired = r.expired) :
    TokenInv gs (reapers.set index r') visits := by
  refine ⟨h.visited, h.reaped_iff, h.cancelled, fun token howed => ?_, fun i g hg hreaped => ?_⟩
  · obtain ⟨r₀, hr₀, htoken⟩ := howed
    rcases List.mem_or_eq_of_mem_set hr₀ with hr₀ | rfl
    · exact h.expired token ⟨r₀, hr₀, htoken⟩
    · exact h.expired token ⟨r, List.mem_of_getElem? hr, hexpired ▸ htoken⟩
  · exact (h.owed i g hg hreaped).imp_right fun howed => howed.set hr fun htoken => hexpired ▸ htoken

/-- A visit finds the session in time. -/
theorem visit_in_time (h : TokenInv gs reapers visits) {v : Visit} (hv : v.state.cancel < gs.length)
    (htime : v.timedOut = false) : TokenInv gs reapers (v :: visits) := by
  refine ⟨fun v' hv' => ?_, fun i g hg => ?_, h.cancelled, h.expired, h.owed⟩
  · rcases List.mem_cons.mp hv' with rfl | hv'
    · exact hv
    · exact h.visited v' hv'
  · rw [h.reaped_iff i g hg]
    refine ⟨fun ⟨v', hv', hrest⟩ => ⟨v', List.mem_cons_of_mem _ hv', hrest⟩,
      fun ⟨v', hv', hrest⟩ => ?_⟩
    rcases List.mem_cons.mp hv' with rfl | hv'
    · rw [htime] at hrest
      cases hrest.2
    · exact ⟨v', hv', hrest⟩

/-- A visit finds it timed out. -/
theorem visit_timed_out (h : TokenInv gs reapers visits) {v : Visit} {g : Guard}
    (hg : gs[v.state.cancel]? = some g) (hout : v.timedOut = true) {index : ℕ} {r : Reaper}
    (hr : reapers[index]? = some r) (todo : Finset UInt32) :
    TokenInv (gs.modify v.state.cancel fun g => { g with reaped := true })
      (reapers.set index { r with todo, expired := r.expired ++ [v.state.cancel] }) (v :: visits) := by
  have hlt := (List.getElem?_eq_some_iff.mp hg).1
  refine ⟨fun v' hv' => ?_, fun i g' hg' => ?_, fun g' hg' hc => ?_, fun token howed => ?_,
    fun i g' hg' hreaped => ?_⟩
  · rw [List.length_modify]
    rcases List.mem_cons.mp hv' with rfl | hv'
    · exact hlt
    · exact h.visited v' hv'
  · obtain ⟨g₀, hg₀, rfl⟩ := of_getElem?_modify hg'
    split_ifs with heq
    · exact ⟨fun _ => ⟨v, List.mem_cons_self, heq, hout⟩, fun _ => rfl⟩
    · rw [h.reaped_iff i g₀ hg₀]
      refine ⟨fun ⟨v', hv', hrest⟩ => ⟨v', List.mem_cons_of_mem _ hv', hrest⟩,
        fun ⟨v', hv', hrest⟩ => ?_⟩
      rcases List.mem_cons.mp hv' with rfl | hv'
      · exact absurd hrest.1 heq
      · exact ⟨v', hv', hrest⟩
  · obtain ⟨i, hi⟩ := List.mem_iff_getElem?.mp hg'
    obtain ⟨g₀, hg₀, rfl⟩ := of_getElem?_modify hi
    split_ifs at hc ⊢
    · rfl
    · exact h.cancelled g₀ (List.mem_of_getElem? hg₀) hc
  · obtain ⟨r₀, hr₀, htoken⟩ := howed
    have hold : Owed reapers token ∨ token = v.state.cancel := by
      rcases List.mem_or_eq_of_mem_set hr₀ with hr₀ | rfl
      · exact .inl ⟨r₀, hr₀, htoken⟩
      · rcases List.mem_append.mp htoken with htoken | htoken
        · exact .inl ⟨r, List.mem_of_getElem? hr, htoken⟩
        · exact .inr (List.mem_singleton.mp htoken)
    rcases hold with hold | rfl
    · obtain ⟨g₀, hg₀, hreaped⟩ := h.expired token hold
      refine ⟨_, getElem?_modify_of_some hg₀, ?_⟩
      split_ifs
      · rfl
      · exact hreaped
    · exact ⟨_, getElem?_modify_of_some hg, by rw [if_pos rfl]⟩
  · obtain ⟨g₀, hg₀, rfl⟩ := of_getElem?_modify hg'
    by_cases heq : v.state.cancel = i
    · subst heq
      refine .inr ⟨_, List.mem_set (List.getElem?_eq_some_iff.mp hr).1 _, ?_⟩
      exact List.mem_append_right _ (List.mem_singleton_self _)
    · rw [if_neg heq] at hreaped ⊢
      refine (h.owed i g₀ hg₀ hreaped).imp_right fun howed => howed.set hr fun htoken => ?_
      exact List.mem_append_left _ htoken

/-- The next token of a reaper is cancelled. -/
theorem cancel (h : TokenInv gs reapers visits) {index token : ℕ} {rest : List ℕ} {r : Reaper}
    (hr : reapers[index]? = some r) (hexpired : r.expired = token :: rest) :
    TokenInv (gs.modify token fun g => { g with cancelled := true })
      (reapers.set index { r with expired := rest }) visits := by
  have hfirst : Owed reapers token :=
    ⟨r, List.mem_of_getElem? hr, hexpired ▸ List.mem_cons_self⟩
  refine ⟨fun v hv => ?_, fun i g' hg' => ?_, fun g' hg' hc => ?_, fun token' howed => ?_,
    fun i g' hg' hreaped => ?_⟩
  · rw [List.length_modify]
    exact h.visited v hv
  · obtain ⟨g₀, hg₀, rfl⟩ := of_getElem?_modify hg'
    rw [← h.reaped_iff i g₀ hg₀]
    split_ifs <;> rfl
  · obtain ⟨i, hi⟩ := List.mem_iff_getElem?.mp hg'
    obtain ⟨g₀, hg₀, rfl⟩ := of_getElem?_modify hi
    split_ifs at hc ⊢ with heq
    · subst heq
      obtain ⟨g₁, hg₁, hreaped⟩ := h.expired token hfirst
      rw [hg₀] at hg₁
      cases hg₁
      exact hreaped
    · exact h.cancelled g₀ (List.mem_of_getElem? hg₀) hc
  · have hold : Owed reapers token' := by
      obtain ⟨r₀, hr₀, htoken⟩ := howed
      rcases List.mem_or_eq_of_mem_set hr₀ with hr₀ | rfl
      · exact ⟨r₀, hr₀, htoken⟩
      · exact ⟨r, List.mem_of_getElem? hr, hexpired ▸ List.mem_cons_of_mem _ htoken⟩
    obtain ⟨g₀, hg₀, hreaped⟩ := h.expired token' hold
    refine ⟨_, getElem?_modify_of_some hg₀, ?_⟩
    split_ifs <;> exact hreaped
  · obtain ⟨g₀, hg₀, rfl⟩ := of_getElem?_modify hg'
    by_cases heq : token = i
    · rw [if_pos heq]
      exact .inl rfl
    · rw [if_neg heq] at hreaped ⊢
      refine (h.owed i g₀ hg₀ hreaped).imp_right fun howed => howed.set hr fun htoken => ?_
      rw [hexpired] at htoken
      exact (List.mem_cons.mp htoken).resolve_left (Ne.symm heq)

end TokenInv

/-! ## Every run -/

/-- A connection gets an id that no live guard has. -/
def FreshId (s : Manager) : Event → Prop
  | .count connId _ _ => ∀ g ∈ s.guards, g.live = true → g.connId ≠ connId
  | _ => True

/-- An exempt connection is not counted beyond the largest number of 32 bits. -/
def ExemptFits (s : Manager) : Event → Prop
  | .count _ .exempt _ => s.activeConnections ≠ 2 ^ 32 - 1
  | _ => True

/-- A connection is counted by one. -/
theorem tryCount_eq_some {s : Manager} {connId : UInt32} {admissionClass : AdmissionClass}
    {maxConnections active : ℕ} (hlt : s.activeConnections < 2 ^ 32)
    (hfits : ExemptFits s (.count connId admissionClass maxConnections))
    (h : s.tryCount admissionClass maxConnections = some active) :
    active = s.activeConnections + 1 ∧ active < 2 ^ 32 := by
  cases admissionClass with
  | exempt =>
    cases h
    change s.activeConnections ≠ 2 ^ 32 - 1 at hfits
    omega
  | limited =>
    simp only [Manager.tryCount] at h
    split_ifs at h with hmax
    cases h
    exact ⟨rfl, hmax.2⟩

/-- A guard that is dropped is one less. -/
theorem liveGuards_uncount {s : Manager} {token : ℕ} {g : Guard} (hg : s.guards[token]? = some g)
    (hphase : g.phase = .closing) : (s.uncount token).liveGuards + 1 = s.liveGuards := by
  have hlive : g.live = true := by simp [Guard.live, hphase]
  have hmodify := countP_modify (f := fun g => { g with phase := .dropped }) hg
  rw [hlive] at hmodify
  exact hmodify

structure Inv (s : Manager) : Prop where
  lt : s.activeConnections < 2 ^ 32
  count : s.activeConnections = s.liveGuards
  map : MapInv s.sessions s.guards
  tokens : TokenInv s.guards s.reapers s.visits

theorem inv_new : Inv Manager.new := ⟨by decide, rfl, .nil, .nil⟩

namespace Inv

variable {s : Manager}

theorem countConnection (h : Inv s) {connId : UInt32} {admissionClass : AdmissionClass} {maxConnections : ℕ}
    (hfresh : FreshId s (.count connId admissionClass maxConnections))
    (hfits : ExemptFits s (.count connId admissionClass maxConnections)) :
    Inv (s.count connId admissionClass maxConnections) := by
  cases hcount : s.tryCount admissionClass maxConnections with
  | none =>
    simp only [Manager.count, hcount]
    exact h
  | some active =>
    obtain ⟨rfl, hbound⟩ := tryCount_eq_some h.lt hfits hcount
    simp only [Manager.count, hcount]
    refine ⟨hbound, ?_, h.map.append hfresh, h.tokens.append connId⟩
    simp only [Manager.liveGuards, List.countP_append]
    exact congrArg (· + 1) h.count

/-- A guard that keeps its count changes. -/
theorem modify (h : Inv s) {token : ℕ} {g : Guard} (hg : s.guards[token]? = some g)
    {f : Guard → Guard} (hlive : (f g).live = g.live) {sessions : HashMap UInt32 SessionState}
    {reapers : List Reaper} {visits : List Visit} (hmap : MapInv sessions (s.guards.modify token f))
    (htokens : TokenInv (s.guards.modify token f) reapers visits) :
    Inv ⟨s.activeConnections, sessions, s.guards.modify token f, reapers, visits⟩ :=
  ⟨h.lt, h.count.trans (countP_modify_of_live hg hlive).symm, hmap, htokens⟩

theorem insert (h : Inv s) {token : ℕ} {g : Guard} (hg : s.guards[token]? = some g)
    (hphase : g.phase = .counted) (now : ℕ) : Inv (s.insert token g now) :=
  h.modify hg (by simp [Guard.live, hphase]) (h.map.insert hg hphase now) (h.tokens.phase token .open)

theorem remove (h : Inv s) {token : ℕ} {g : Guard} (hg : s.guards[token]? = some g)
    (hphase : g.phase = .open) : Inv (s.remove token g) :=
  h.modify hg (by simp [Guard.live, hphase])
    (h.map.erase hg rfl (fun _ => by simp [Guard.live, hphase]) nofun) (h.tokens.phase token .closing)

/-- A guard that is dropped has a count to give back. -/
theorem pos_of_live (h : Inv s) {token : ℕ} {g : Guard} (hg : s.guards[token]? = some g)
    (hlive : g.live = true) : 1 ≤ s.activeConnections := by
  rw [h.count]
  exact List.countP_pos_iff.mpr ⟨g, List.mem_of_getElem? hg, hlive⟩

theorem uncount (h : Inv s) {token : ℕ} {g : Guard} (hg : s.guards[token]? = some g)
    (hphase : g.phase = .closing) : Inv (s.uncount token) := by
  have hpos := h.pos_of_live hg (by simp [Guard.live, hphase])
  have hlt := h.lt
  have hcount := h.count
  have hless := liveGuards_uncount hg hphase
  have hback : (s.uncount token).activeConnections = s.activeConnections - 1 := if_neg (by omega)
  refine ⟨?_, ?_, h.map.uncount hg hphase, h.tokens.phase token .dropped⟩
  · omega
  · omega

theorem visit (h : Inv s) {index : ℕ} {r : Reaper} (hr : s.reapers[index]? = some r)
    {connId : UInt32} {state : SessionState} (hstate : s.sessions.lookup connId = some state) :
    Inv (s.visit index r connId state) := by
  obtain ⟨g, hg, hid, hopen, -⟩ := h.map.entry connId state hstate
  subst hid
  simp only [Manager.visit]
  split_ifs with hout
  · refine h.modify hg rfl (h.map.erase hg rfl id ?_) ?_
    · intro hcounted
      rw [hopen] at hcounted
      cases hcounted
    · exact h.tokens.visit_timed_out (v := ⟨state, r.now⟩) hg hout hr _
  · have htime : Visit.timedOut ⟨state, r.now⟩ = false := Bool.eq_false_iff.mpr hout
    have htokens := h.tokens.visit_in_time (List.getElem?_eq_some_iff.mp hg).1 htime
    exact ⟨h.lt, h.count, h.map, htokens.reaper hr rfl⟩

theorem cancel (h : Inv s) {index token : ℕ} {rest : List ℕ} {r : Reaper}
    (hr : s.reapers[index]? = some r) (hexpired : r.expired = token :: rest) :
    Inv (s.cancel index r token rest) := by
  obtain ⟨g, hg, -⟩ := h.tokens.expired token
    ⟨r, List.mem_of_getElem? hr, hexpired ▸ List.mem_cons_self⟩
  exact h.modify hg rfl (h.map.cancel hg) (h.tokens.cancel hr hexpired)

theorem mark (h : Inv s) (connId : UInt32) {f : SessionState → SessionState}
    (hf : ∀ state, (f state).cancel = state.cancel) : Inv (s.mark connId f) := by
  cases hstate : s.sessions.lookup connId with
  | none =>
    simp only [Manager.mark, hstate]
    exact h
  | some state =>
    simp only [Manager.mark, hstate]
    exact ⟨h.lt, h.count, h.map.mark hstate (hf state), h.tokens⟩

theorem step {next : Manager} (h : Inv s) {e : Event} (hfresh : FreshId s e) (hfits : ExemptFits s e)
    (hstep : step s e = some next) : Inv next := by
  cases e with
  | count connId admissionClass maxConnections =>
    cases hstep
    exact h.countConnection hfresh hfits
  | insert token now =>
    obtain ⟨g, hg, hnext⟩ := Option.bind_eq_some_iff.mp hstep
    split_ifs at hnext with hphase
    cases hnext
    exact h.insert hg hphase now
  | markKind connId kind =>
    cases hstep
    exact h.mark connId fun _ => rfl
  | markPacketSent connId now =>
    cases hstep
    exact h.mark connId fun _ => rfl
  | nuke now =>
    cases hstep
    exact ⟨h.lt, h.count, h.map, h.tokens.nuke now _⟩
  | visit index connId =>
    obtain ⟨r, hr, hnext⟩ := Option.bind_eq_some_iff.mp hstep
    obtain ⟨state, hstate, hnext⟩ := Option.bind_eq_some_iff.mp hnext
    split_ifs at hnext
    cases hnext
    exact h.visit hr hstate
  | retained index =>
    obtain ⟨r, hr, hnext⟩ := Option.bind_eq_some_iff.mp hstep
    split_ifs at hnext
    cases hnext
    exact ⟨h.lt, h.count, h.map, h.tokens.reaper hr rfl⟩
  | cancel index =>
    obtain ⟨r, hr, hnext⟩ := Option.bind_eq_some_iff.mp hstep
    split at hnext
    · rename_i hexpired
      cases hnext
      exact h.cancel hr hexpired
    · cases hnext
  | remove token =>
    obtain ⟨g, hg, hnext⟩ := Option.bind_eq_some_iff.mp hstep
    split_ifs at hnext with hphase
    cases hnext
    exact h.remove hg hphase
  | uncount token =>
    obtain ⟨g, hg, hnext⟩ := Option.bind_eq_some_iff.mp hstep
    split_ifs at hnext with hphase
    exact Option.some.inj hnext ▸ h.uncount hg hphase

end Inv

/-! ## The accounting -/

/-- What holds of the counter, the map, the guards and the tokens. -/
structure Accounted (s : Manager) : Prop where
  /-- The counter is the number of guards, and no drop takes it below zero. -/
  active_eq : s.activeConnections = s.liveGuards
  pos_of_uncount : ∀ token next, step s (.uncount token) = some next → 1 ≤ s.activeConnections
  /-- A limited admission finds at most `max` guards. -/
  limited : ∀ max active, s.tryCount .limited max = some active → s.liveGuards ≤ max
  /-- Every key of the map is the id of a guard. -/
  key_live : ∀ connId ∈ s.sessions, ∃ g ∈ s.guards, g.connId = connId ∧ g.phase = .open
  /-- A reaped session is not in the map, and no mark brings a key back. -/
  reaped_notMem : ∀ g ∈ s.guards, g.live = true → g.reaped = true → g.connId ∉ s.sessions
  mark_keys : ∀ connId f, (s.mark connId f).sessions.keys = s.sessions.keys
  /-- A token is cancelled only after a visit that found a reason, and after such a visit it is
  cancelled when the call returns. -/
  cancelled_only : ∀ (token : ℕ) (g : Guard), s.guards[token]? = some g → g.cancelled = true →
    ∃ v ∈ s.visits, v.state.cancel = token ∧ (v.state.timeoutReason v.now).isSome = true
  cancelled_after : ∀ v ∈ s.visits, (v.state.timeoutReason v.now).isSome = true →
    ∃ g, s.guards[v.state.cancel]? = some g ∧ g.reaped = true ∧
      (g.cancelled = true ∨ Owed s.reapers v.state.cancel)

theorem keys_mark (s : Manager) (connId : UInt32) (f : SessionState → SessionState) :
    (s.mark connId f).sessions.keys = s.sessions.keys := by
  cases hstate : s.sessions.lookup connId with
  | none => simp only [Manager.mark, hstate]
  | some state =>
    have hmem : connId ∈ s.sessions := Finmap.mem_of_lookup_eq_some hstate
    simp only [Manager.mark, hstate]
    ext k
    rw [Finmap.mem_keys, Finmap.mem_keys, Finmap.mem_insert]
    refine ⟨fun hk => ?_, .inr⟩
    rcases hk with rfl | hk
    · exact hmem
    · exact hk

theorem Inv.accounted {s : Manager} (h : Inv s) : Accounted s := by
  have hguard : ∀ v ∈ s.visits, ∃ g, s.guards[v.state.cancel]? = some g := fun v hv =>
    ⟨_, List.getElem?_eq_getElem (h.tokens.visited v hv)⟩
  refine ⟨h.count, fun token next hstep => ?_, fun max active hactive => ?_, fun connId hk => ?_,
    fun g hg hlive hreaped hk => ?_, keys_mark s, fun token g hg hc => ?_, fun v hv hout => ?_⟩
  · obtain ⟨g, hg, hnext⟩ := Option.bind_eq_some_iff.mp hstep
    split_ifs at hnext with hphase
    exact h.pos_of_live hg (by simp [Guard.live, hphase])
  · simp only [Manager.tryCount] at hactive
    split_ifs at hactive with hmax
    exact h.count ▸ hmax.1
  · obtain ⟨state, hstate⟩ := Finmap.mem_iff.mp hk
    obtain ⟨g, hg, hid, hopen, -⟩ := h.map.entry connId state hstate
    exact ⟨g, List.mem_of_getElem? hg, hid, hopen⟩
  · obtain ⟨state, hstate⟩ := Finmap.mem_iff.mp hk
    obtain ⟨g', hg', hid, hopen, hkept⟩ := h.map.entry g.connId state hstate
    obtain ⟨i, hi⟩ := List.mem_iff_getElem?.mp hg
    have heq := h.map.distinct i state.cancel g g' hi hg' hlive (by simp [Guard.live, hopen]) hid.symm
    subst heq
    rw [hi] at hg'
    cases hg'
    rw [hreaped] at hkept
    cases hkept
  · have hreaped := h.tokens.cancelled g (List.mem_of_getElem? hg) hc
    exact (h.tokens.reaped_iff token g hg).mp hreaped
  · obtain ⟨g, hg⟩ := hguard v hv
    have hreaped := (h.tokens.reaped_iff _ g hg).mpr ⟨v, hv, rfl, hout⟩
    exact ⟨g, hg, hreaped, h.tokens.owed _ g hg hreaped⟩

/-- When an exempt connection is admitted, fewer than `2^32 - 1` guards are live. -/
def GuardsFit (s : Manager) : Event → Prop
  | .count _ .exempt _ => s.liveGuards < 2 ^ 32 - 1
  | _ => True

theorem Inv.exemptFits {s : Manager} (h : Inv s) {e : Event} (hfits : GuardsFit s e) : ExemptFits s e := by
  cases e with
  | count connId admissionClass maxConnections =>
    cases admissionClass with
    | exempt =>
      change s.liveGuards < 2 ^ 32 - 1 at hfits
      change s.activeConnections ≠ 2 ^ 32 - 1
      have hcount := h.count
      omega
    | limited => trivial
  | _ => trivial

/-- In every run in which ids are fresh and the live guards do not outnumber the counter, the accounting
holds in the state reached. -/
theorem sessions_accounted {events : List Event} {s : Manager}
    (hrun : run step Manager.new events = some s)
    (hfresh : AllSteps step FreshId Manager.new events)
    (hfits : AllSteps step GuardsFit Manager.new events) : Accounted s := by
  have hall : AllSteps step (fun s e => FreshId s e ∧ GuardsFit s e) Manager.new events :=
    allSteps_and hfresh hfits
  have hinv : Inv s :=
    run_invariant (fun _ _ _ h hc hstep => h.step hc.1 (h.exemptFits hc.2) hstep) inv_new hall hrun
  exact hinv.accounted

/-- A session that the reaper cancels before its guard is dropped. -/
def reapedSession : List Event :=
  [.count 1 .limited 0, .insert 0 5, .nuke 40000000000, .visit 0 1, .retained 0, .cancel 0, .remove 0,
    .uncount 0]

theorem sessions_accounted_of_reapedSession :
    ∃ s, run step Manager.new reapedSession = some s ∧ Accounted s := by
  have hsome : (run step Manager.new reapedSession).isSome = true := by decide +kernel
  obtain ⟨s, hs⟩ := Option.isSome_iff_exists.mp hsome
  refine ⟨s, hs, sessions_accounted hs ⟨nofun, ?_⟩ ⟨trivial, ?_⟩⟩
  · intro next _
    exact ⟨trivial, fun _ _ => ⟨trivial, fun _ _ => ⟨trivial, fun _ _ => ⟨trivial, fun _ _ =>
      ⟨trivial, fun _ _ => ⟨trivial, fun _ _ => ⟨trivial, fun _ _ => trivial⟩⟩⟩⟩⟩⟩⟩
  · intro next _
    exact ⟨trivial, fun _ _ => ⟨trivial, fun _ _ => ⟨trivial, fun _ _ => ⟨trivial, fun _ _ =>
      ⟨trivial, fun _ _ => ⟨trivial, fun _ _ => ⟨trivial, fun _ _ => trivial⟩⟩⟩⟩⟩⟩⟩

/-! ## Too many exempt connections -/

/-- An exempt connection with this id is admitted and its guard is made. -/
def exemptAdmission (n : ℕ) : List Event := [.count (UInt32.ofNat n) .exempt 0, .insert n 0]

def exemptAdmissions (n : ℕ) : List Event := (List.range n).flatMap exemptAdmission

/-- The guards of the connections `0` to `n - 1`. -/
def exemptGuards (n : ℕ) : List Guard :=
  (List.range n).map fun i => ⟨UInt32.ofNat i, .open, false, false⟩

theorem exemptGuards_succ (n : ℕ) :
    exemptGuards (n + 1) = exemptGuards n ++ [⟨UInt32.ofNat n, .open, false, false⟩] := by
  rw [exemptGuards, List.range_succ, List.map_append]
  rfl

theorem countP_exemptGuards (n : ℕ) : (exemptGuards n).countP Guard.live = n := by
  rw [List.countP_eq_length.mpr]
  · simp [exemptGuards]
  · intro g hg
    obtain ⟨i, -, rfl⟩ := List.mem_map.mp hg
    rfl

/-- Such a connection is counted. -/
def exemptCounted (s : Manager) (n : ℕ) : Manager :=
  { s with
    activeConnections := (s.activeConnections + 1) % 2 ^ 32
    guards := s.guards ++ [⟨UInt32.ofNat n, .counted, false, false⟩] }

theorem modify_concat_length (gs : List Guard) (g : Guard) (f : Guard → Guard) :
    (gs ++ [g]).modify gs.length f = gs ++ [f g] := by
  induction gs with
  | nil => rfl
  | cons g' gs ih => simpa using ih

theorem step_insert {s : Manager} {token : ℕ} {g : Guard} (hg : s.guards[token]? = some g)
    (hphase : g.phase = .counted) (now : ℕ) :
    step s (.insert token now) = some (s.insert token g now) := by
  simp only [step, hg, bind, Option.bind, hphase, if_true]

/-- All ids of 32 bits can be given away, and the counter wraps around. -/
theorem run_exemptAdmissions {n : ℕ} (hn : n ≤ 2 ^ 32) :
    ∃ s, run step Manager.new (exemptAdmissions n) = some s ∧ s.guards = exemptGuards n ∧
      s.activeConnections = n % 2 ^ 32 ∧
      AllSteps step FreshId Manager.new (exemptAdmissions n) := by
  induction n with
  | zero => exact ⟨Manager.new, rfl, rfl, rfl, trivial⟩
  | succ n ih =>
    obtain ⟨s, hrun, hguards, hactive, hfresh⟩ := ih (by omega)
    have hevents : exemptAdmissions (n + 1) = exemptAdmissions n ++ exemptAdmission n := by
      rw [exemptAdmissions, List.range_succ, List.flatMap_append, List.flatMap_singleton]
      rfl
    have hlength : s.guards.length = n := by simp [hguards, exemptGuards]
    have hcount : step s (.count (UInt32.ofNat n) .exempt 0) = some (exemptCounted s n) := rfl
    have hnew : (exemptCounted s n).guards[n]? = some ⟨UInt32.ofNat n, .counted, false, false⟩ := by
      simp only [exemptCounted, ← hlength, List.getElem?_concat_length]
    have hinsert := step_insert hnew rfl 0
    have hid : FreshId s (.count (UInt32.ofNat n) .exempt 0) := by
      intro g hg _ heq
      rw [hguards] at hg
      obtain ⟨i, hi, rfl⟩ := List.mem_map.mp hg
      have hi := List.mem_range.mp hi
      have hnat := congrArg UInt32.toNat heq
      simp only [UInt32.toNat_ofNat'] at hnat
      omega
    refine ⟨(exemptCounted s n).insert n ⟨UInt32.ofNat n, .counted, false, false⟩ 0, ?_, ?_, ?_, ?_⟩
    · rw [hevents, run_append, hrun, Option.bind_some, exemptAdmission, run_cons_of_step hcount,
        run_cons_of_step hinsert]
      rfl
    · simp only [Manager.insert, exemptCounted, exemptGuards_succ, ← hguards]
      nth_rewrite 2 [← hlength]
      exact modify_concat_length _ _ _
    · simp only [Manager.insert, exemptCounted, hactive]
      omega
    · rw [hevents, allSteps_append hrun]
      refine ⟨hfresh, ?_⟩
      rw [exemptAdmission, allSteps_cons_of_step hcount, allSteps_cons_of_step hinsert]
      exact ⟨hid, trivial, trivial⟩

/-- With that many connections the counter is at zero. -/
theorem counter_wraps :
    ∃ events s, AllSteps step FreshId Manager.new events ∧ run step Manager.new events = some s ∧
      s.liveGuards = 2 ^ 32 ∧ s.activeConnections = 0 ∧ ¬ Accounted s := by
  -- the number is hidden from the unifier, which would count down from it
  obtain ⟨n, hn⟩ : ∃ n, n = 2 ^ 32 := ⟨_, rfl⟩
  obtain ⟨s, hrun, hguards, hactive, hfresh⟩ := run_exemptAdmissions hn.le
  have hlive : s.liveGuards = n := by
    rw [Manager.liveGuards, hguards, countP_exemptGuards]
  rw [← hn, Nat.mod_self] at hactive
  refine ⟨exemptAdmissions n, s, hfresh, hrun, hlive.trans hn, hactive, fun h => ?_⟩
  have hcount := h.active_eq
  omega

end HathRs.SessionAccounting
