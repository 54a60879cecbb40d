import HathRs.ClientSettings
import HathRs.TransitionRuns

/-!
# The RPC router: which server the next request goes to

The router keeps the host of the last success and the host of the last failure as texts. It
compares them with the texts of the configured addresses, but what is reported to it is
the host string of the request's URL, which has an IPv6 address in brackets.
-/

namespace HathRs.RpcRouter
open TextParsing IpAddresses TransitionRuns

/-! ## The router -/

structure RpcState where
  rpcLastFailed : Option Text
  rpcCurrent : Option Text
  deriving DecidableEq

def RpcState.default : RpcState := ⟨none, none⟩

/-- `to_lowercase` of an ASCII text -/
def toLowercase (t : Text) : Text := t.map Char.toLower

def serverText (server : IpAddr) : Text := toLowercase server.display

def hostIsConfigured (rpcServers : List IpAddr) (host : Text) : Bool :=
  rpcServers.any fun server => serverText server == host

/-- How a choice can fail: the loop goes on and on, or the index is out of bounds. -/
inductive ChooseFailure where
  | endless
  | outOfBounds
  deriving DecidableEq

/-- The loop of `choose_host` from the index `idx` on. The remainder has the sign of the dividend, and
a negative one is out of bounds as an index. Where the loop returns a host the index stays within
twice the length, so it is an integer here and not a machine word. -/
def chooseLoop (rpcServers : List IpAddr) (lastFailed : Option Text) (dir : ℤ) :
    ℕ → ℤ → Except ChooseFailure Text
  | 0, _ => .error .endless
  | turns + 1, idx =>
    let len : ℤ := rpcServers.length
    let position := (len + idx).tmod len
    if position < 0 then .error .outOfBounds
    else
      match rpcServers[position.toNat]? with
      | none => .error .outOfBounds
      | some server =>
        if lastFailed = some (serverText server) then
          chooseLoop rpcServers lastFailed dir turns (idx + dir)
        else .ok (serverText server)

/-- The name that is asked while no server is configured -/
def defaultHost : Text := "rpc.hentaiathome.net".toList

/-- The random numbers choose where to start and in which direction to go. -/
def chooseHostIn (turns : ℕ) (rpcServers : List IpAddr) (lastFailed : Option Text)
    (start direction : UInt32) : Except ChooseFailure Text :=
  match rpcServers with
  | [] => .ok defaultHost
  | [server] => .ok (serverText server)
  | _ =>
    chooseLoop rpcServers lastFailed (if direction.toNat % 2 = 0 then -1 else 1) turns
      (start.toNat % rpcServers.length : ℕ)

/-- After so many turns the loop has left the range downwards or comes by every server again. -/
def chooseHost (rpcServers : List IpAddr) (lastFailed : Option Text) (start direction : UInt32) :
    Except ChooseFailure Text :=
  chooseHostIn (2 * rpcServers.length + 1) rpcServers lastFailed start direction

def selectHost (state : RpcState) (rpcServers : List IpAddr) (start direction : UInt32) :
    Except ChooseFailure (Text × RpcState) :=
  let state := { state with rpcCurrent := state.rpcCurrent.filter (hostIsConfigured rpcServers) }
  match state.rpcCurrent with
  | some current =>
    if state.rpcLastFailed = some current then
      (chooseHost rpcServers state.rpcLastFailed start direction).map (·, state)
    else .ok (current, state)
  | none => (chooseHost rpcServers state.rpcLastFailed start direction).map (·, state)

def RpcState.markFailed (state : RpcState) (host : Text) : RpcState :=
  { state with rpcLastFailed := some host }

def RpcState.markSuccess (state : RpcState) (host : Text) : RpcState :=
  { state with rpcCurrent := some host }

/-! ## Requests -/

section Requests

-- how the URL library writes an IPv6 address between the brackets
variable (writeIpv6 : Ipv6Addr → Text)

/-- `Url::host_str` after `set_ip_host` -/
def hostStr : IpAddr → Text
  | .v4 addr => addr.display
  | .v6 addr => '[' :: (writeIpv6 addr ++ [']'])

/-- A request: its address, unless the host is a name, and the host string of its URL. -/
structure Request where
  addr : Option IpAddr
  host : Text

/-- The URL of `make_rpc_url` -/
def makeRequest (host : Text) : Request :=
  match parseIp host with
  | some addr => ⟨some addr, hostStr writeIpv6 addr⟩
  | none => ⟨none, host⟩

/-- The router, the requests made so far, and the address of the last request that was marked
failed. -/
structure State where
  router : RpcState
  requests : List Request
  lastFailed : Option IpAddr

def State.initial : State := ⟨.default, [], none⟩

/-- A call selects a host with the settings it finds. Its request fails on the way, gets a response
that counts as none, or succeeds, and calls overlap in any order. -/
inductive Event where
  | select (rpcServers : List IpAddr) (start direction : UInt32)
  | requestFailed (index : ℕ)
  | nullResponse (index : ℕ)
  | success (index : ℕ)
  | clear

def step (s : State) : Event → Option State
  | .select rpcServers start direction =>
    match selectHost s.router rpcServers start direction with
    | .error _ => none
    | .ok (host, router) =>
      some { s with router, requests := s.requests ++ [makeRequest writeIpv6 host] }
  | .requestFailed index => do
    let r ← s.requests[index]?
    some { s with router := s.router.markFailed r.host, lastFailed := r.addr }
  | .nullResponse index => do
    let r ← s.requests[index]?
    some { s with router := s.router.markFailed (toLowercase r.host), lastFailed := r.addr }
  | .success index => do
    let r ← s.requests[index]?
    some { s with router := s.router.markSuccess r.host }
  | .clear => some { s with router := .default, lastFailed := none }

end Requests

/-! ## The choice of a host -/

theorem serverText_eq (server : IpAddr) : serverText server = server.display := map_toLower_display server

/-- The text of a configured address that is not the last failed host. -/
def Chosen (rpcServers : List IpAddr) (lastFailed : Option Text) (host : Text) : Prop :=
  (∃ server ∈ rpcServers, host = server.display) ∧ lastFailed ≠ some host

section Choice

variable {rpcServers : List IpAddr} {lastFailed : Option Text}

/-- The server at this index of the loop is not the last failed one. -/
def GoodAt (rpcServers : List IpAddr) (lastFailed : Option Text) (idx : ℤ) : Prop :=
  ∃ server, rpcServers[((rpcServers.length + idx) % rpcServers.length).toNat]? = some server ∧
    lastFailed ≠ some (serverText server)

theorem getElem?_position (hlen : 0 < rpcServers.length) (idx : ℤ) :
    ∃ server, rpcServers[((rpcServers.length + idx) % rpcServers.length).toNat]? = some server := by
  have hlt := Int.emod_lt_of_pos (rpcServers.length + idx) (by omega : (0 : ℤ) < rpcServers.length)
  have hpos := Int.emod_nonneg (rpcServers.length + idx) (by omega : (rpcServers.length : ℤ) ≠ 0)
  exact ⟨_, List.getElem?_eq_getElem (by omega)⟩

/-- The loop ends at the first good index, and does not leave the range on the way there. -/
theorem chooseLoop_chosen (hlen : 0 < rpcServers.length) {dir : ℤ} (hdir : dir = -1 ∨ dir = 1)
    {turns k : ℕ} (hk : k < turns) {idx : ℤ} (hidx : 0 ≤ rpcServers.length + idx)
    (hlast : 0 ≤ rpcServers.length + (idx + k * dir))
    (hgood : GoodAt rpcServers lastFailed (idx + k * dir)) :
    ∃ host, chooseLoop rpcServers lastFailed dir turns idx = .ok host ∧
      Chosen rpcServers lastFailed host := by
  induction turns generalizing k idx with
  | zero => omega
  | succ turns ih =>
    obtain ⟨server, hserver⟩ := getElem?_position hlen idx
    have hposition : ¬ (rpcServers.length + idx) % (rpcServers.length : ℤ) < 0 :=
      not_lt.mpr (Int.emod_nonneg _ (by omega))
    have hmod : (rpcServers.length + idx).tmod rpcServers.length =
        (rpcServers.length + idx) % rpcServers.length := Int.tmod_eq_emod_of_nonneg hidx
    simp only [chooseLoop, hposition, if_false, hmod, hserver]
    split_ifs with hfailed
    · cases k with
      | zero =>
        obtain ⟨server', hserver', hne⟩ := hgood
        simp only [Nat.cast_zero, zero_mul, add_zero] at hserver'
        rw [hserver] at hserver'
        cases hserver'
        exact absurd hfailed hne
      | succ k =>
        have hsum : idx + (k + 1 : ℕ) * dir = idx + dir + k * dir := by
          push_cast
          ring
        rw [hsum] at hlast hgood
        refine ih (by omega) ?_ hlast hgood
        rcases hdir with rfl | rfl <;> omega
    · exact ⟨_, rfl, ⟨server, List.mem_of_getElem? hserver, serverText_eq server⟩, hfailed⟩

/-- There are at least two different servers. -/
def TwoServers (rpcServers : List IpAddr) : Prop := ∃ a ∈ rpcServers, ∃ b ∈ rpcServers, a ≠ b

/-- One of them has not failed last, because different addresses have different texts. -/
theorem TwoServers.exists_good (h : TwoServers rpcServers) (lastFailed : Option Text) :
    ∃ server ∈ rpcServers, lastFailed ≠ some (serverText server) := by
  obtain ⟨a, ha, b, hb, hne⟩ := h
  by_cases hfailed : lastFailed = some (serverText a)
  · refine ⟨b, hb, fun hlast => hne ?_⟩
    rw [hfailed, serverText_eq, serverText_eq] at hlast
    exact IpAddr.display_inj (Option.some.inj hlast)
  · exact ⟨a, ha, hfailed⟩

/-- So many steps lead from one index to another. -/
theorem exists_steps {len idx p : ℕ} (hidx : idx < len) (hp : p < len) {dir : ℤ}
    (hdir : dir = -1 ∨ dir = 1) :
    ∃ k < len, 0 ≤ (len : ℤ) + (idx + k * dir) ∧ ((len : ℤ) + (idx + k * dir)) % len = p := by
  rcases hdir with rfl | rfl
  · rcases Nat.lt_or_ge idx p with hlt | hge
    · refine ⟨idx + len - p, by omega, by omega, ?_⟩
      have heq : (len : ℤ) + (idx + ((idx + len - p : ℕ) : ℤ) * -1) = p := by omega
      rw [heq, Int.emod_eq_of_lt (by omega) (by omega)]
    · refine ⟨idx - p, by omega, by omega, ?_⟩
      have heq : (len : ℤ) + (idx + ((idx - p : ℕ) : ℤ) * -1) = p + len := by omega
      rw [heq, Int.add_emod_right, Int.emod_eq_of_lt (by omega) (by omega)]
  · rcases Nat.lt_or_ge p idx with hlt | hge
    · refine ⟨p + len - idx, by omega, by omega, ?_⟩
      have heq : (len : ℤ) + (idx + ((p + len - idx : ℕ) : ℤ) * 1) = p + len + len := by omega
      rw [heq, Int.add_emod_right, Int.add_emod_right, Int.emod_eq_of_lt (by omega) (by omega)]
    · refine ⟨p - idx, by omega, by omega, ?_⟩
      have heq : (len : ℤ) + (idx + ((p - idx : ℕ) : ℤ) * 1) = p + len := by omega
      rw [heq, Int.add_emod_right, Int.emod_eq_of_lt (by omega) (by omega)]

theorem direction_cases (direction : UInt32) :
    (if direction.toNat % 2 = 0 then -1 else 1 : ℤ) = -1 ∨
      (if direction.toNat % 2 = 0 then -1 else 1 : ℤ) = 1 := by
  split_ifs
  · exact .inl rfl
  · exact .inr rfl

/-- With two entries the loop finds one that has not failed last, if there is one. -/
theorem chooseHostIn_chosen {turns : ℕ} (hturns : rpcServers.length ≤ turns)
    (hlen : 2 ≤ rpcServers.length)
    (hgood : ∃ server ∈ rpcServers, lastFailed ≠ some (serverText server)) (start direction : UInt32) :
    ∃ host, chooseHostIn turns rpcServers lastFailed start direction = .ok host ∧
      Chosen rpcServers lastFailed host := by
  obtain ⟨server, hmem, hgood⟩ := hgood
  obtain ⟨p, hserver⟩ := List.mem_iff_getElem?.mp hmem
  have hp := (List.getElem?_eq_some_iff.mp hserver).1
  match rpcServers, hlen with
  | a :: b :: rest, hlen =>
    have hpos : 0 < (a :: b :: rest).length := Nat.succ_pos _
    have hdir := direction_cases direction
    obtain ⟨k, hk, hrange, hreach⟩ := exists_steps (Nat.mod_lt start.toNat hpos) hp hdir
    refine chooseLoop_chosen hpos hdir (by omega) (by omega) hrange ⟨server, ?_, hgood⟩
    rw [hreach, Int.toNat_natCast]
    exact hserver

theorem TwoServers.two_le (h : TwoServers rpcServers) : 2 ≤ rpcServers.length := by
  obtain ⟨a, ha, b, hb, hne⟩ := h
  match rpcServers, ha, hb with
  | [x], ha, hb =>
    rw [List.mem_singleton] at ha hb
    exact absurd (ha.trans hb.symm) hne
  | x :: y :: rest, _, _ => simp

theorem chooseHost_chosen (h : TwoServers rpcServers) (lastFailed : Option Text)
    (start direction : UInt32) :
    ∃ host, chooseHost rpcServers lastFailed start direction = .ok host ∧
      Chosen rpcServers lastFailed host :=
  chooseHostIn_chosen (by omega) h.two_le (h.exists_good lastFailed) start direction

/-! ## Lists on which the choice does not end -/

/-- Every entry is the last failed host. -/
def AllFailed (rpcServers : List IpAddr) (lastFailed : Option Text) : Prop :=
  ∀ server ∈ rpcServers, lastFailed = some (serverText server)

/-- One turn over such a list only moves the index. -/
theorem AllFailed.chooseLoop_succ (h : AllFailed rpcServers lastFailed) (hlen : 0 < rpcServers.length)
    (dir : ℤ) (turns : ℕ) {idx : ℤ} (hidx : 0 ≤ rpcServers.length + idx) :
    chooseLoop rpcServers lastFailed dir (turns + 1) idx =
      chooseLoop rpcServers lastFailed dir turns (idx + dir) := by
  obtain ⟨server, hserver⟩ := getElem?_position hlen idx
  have hposition : ¬ (rpcServers.length + idx) % (rpcServers.length : ℤ) < 0 :=
    not_lt.mpr (Int.emod_nonneg _ (by omega))
  have hmod : (rpcServers.length + idx).tmod rpcServers.length =
      (rpcServers.length + idx) % rpcServers.length := Int.tmod_eq_emod_of_nonneg hidx
  simp only [chooseLoop, hposition, if_false, hmod, hserver, h server (List.mem_of_getElem? hserver),
    if_true]

/-- Upwards it goes on and on. -/
theorem AllFailed.endless (h : AllFailed rpcServers lastFailed) (hlen : 0 < rpcServers.length)
    (turns : ℕ) {idx : ℤ} (hidx : 0 ≤ idx) :
    chooseLoop rpcServers lastFailed 1 turns idx = .error .endless := by
  induction turns generalizing idx with
  | zero => rfl
  | succ turns ih =>
    rw [h.chooseLoop_succ hlen 1 turns (by omega)]
    exact ih (by omega)

/-- Downwards it leaves the range behind the second time at the first server. -/
theorem AllFailed.outOfBounds (h : AllFailed rpcServers lastFailed) (hlen : 2 ≤ rpcServers.length)
    {k turns : ℕ} (hk : k < turns) {idx : ℤ} (hidx : rpcServers.length + idx + 1 = k) :
    chooseLoop rpcServers lastFailed (-1) turns idx = .error .outOfBounds := by
  induction turns generalizing k idx with
  | zero => omega
  | succ turns ih =>
    cases k with
    | zero =>
      have hposition : ((rpcServers.length : ℤ) + idx).tmod rpcServers.length < 0 := by
        have hminus : (rpcServers.length : ℤ) + idx = -1 := by omega
        rw [hminus, Int.neg_tmod, Int.tmod_eq_of_lt (by omega) (by omega)]
        decide
      simp only [chooseLoop, hposition, if_true]
    | succ k =>
      rw [h.chooseLoop_succ (by omega) (-1) turns (by omega)]
      exact ih (k := k) (by omega) (by omega)

/-- How the choice fails on such a list of at least two entries. -/
theorem AllFailed.chooseHost_eq (h : AllFailed rpcServers lastFailed) (hlen : 2 ≤ rpcServers.length)
    (start direction : UInt32) :
    chooseHost rpcServers lastFailed start direction =
      .error (if direction.toNat % 2 = 0 then .outOfBounds else .endless) := by
  match rpcServers, hlen with
  | a :: b :: rest, hlen =>
    have hstart : start.toNat % (a :: b :: rest).length < (a :: b :: rest).length :=
      Nat.mod_lt _ (Nat.succ_pos _)
    simp only [chooseHost, chooseHostIn]
    split_ifs with hdirection
    · refine h.outOfBounds hlen (k := (a :: b :: rest).length + start.toNat % (a :: b :: rest).length + 1)
        ?_ (by push_cast; ring)
      simp only [List.length_cons] at hstart ⊢
      omega
    · exact h.endless (Nat.succ_pos _) _ (by omega)

/-- In no number of turns does the loop return a host that is not there. -/
theorem AllFailed.chooseLoop_ne_ok (h : AllFailed rpcServers lastFailed) (dir : ℤ) (turns : ℕ) (idx : ℤ)
    (host : Text) : chooseLoop rpcServers lastFailed dir turns idx ≠ .ok host := by
  induction turns generalizing idx with
  | zero => exact nofun
  | succ turns ih =>
    simp only [chooseLoop]
    split_ifs with hposition
    · exact nofun
    · cases hserver : rpcServers[((rpcServers.length + idx).tmod rpcServers.length).toNat]? with
      | none => exact nofun
      | some server =>
        dsimp only
        rw [if_pos (h server (List.mem_of_getElem? hserver))]
        exact ih (idx + dir)

/-- What the loop returns is the text of one of the servers. -/
theorem chooseLoop_mem {dir : ℤ} {turns : ℕ} {idx : ℤ} {host : Text}
    (h : chooseLoop rpcServers lastFailed dir turns idx = .ok host) :
    ∃ server ∈ rpcServers, host = server.display := by
  induction turns generalizing idx with
  | zero => cases h
  | succ turns ih =>
    simp only [chooseLoop] at h
    split_ifs at h with hposition
    cases hserver : rpcServers[((rpcServers.length + idx).tmod rpcServers.length).toNat]? with
    | none =>
      rw [hserver] at h
      cases h
    | some server =>
      rw [hserver] at h
      dsimp only at h
      split_ifs at h with hfailed
      · exact ih h
      · cases h
        exact ⟨server, List.mem_of_getElem? hserver, serverText_eq server⟩

/-- A selected host is the text of a configured address, or the default name. -/
def HostKnown (rpcServers : List IpAddr) (host : Text) : Prop :=
  (∃ server ∈ rpcServers, host = server.display) ∨ host = defaultHost

theorem chooseHost_known {start direction : UInt32} {host : Text}
    (h : chooseHost rpcServers lastFailed start direction = .ok host) : HostKnown rpcServers host := by
  match rpcServers with
  | [] =>
    cases h
    exact .inr rfl
  | [server] =>
    cases h
    exact .inl ⟨server, .head _, serverText_eq server⟩
  | _ :: _ :: _ => exact .inl (chooseLoop_mem h)

/-- A host that is configured is the text of one of the servers. -/
theorem exists_of_hostIsConfigured {host : Text} (h : hostIsConfigured rpcServers host = true) :
    ∃ server ∈ rpcServers, host = server.display := by
  obtain ⟨server, hserver, heq⟩ := List.any_eq_true.mp h
  exact ⟨server, hserver, (beq_iff_eq.mp heq).symm.trans (serverText_eq server)⟩

/-- A selection forgets a cached host that is not configured, and changes nothing else. -/
theorem selectHost_known {state router : RpcState} {start direction : UInt32} {host : Text}
    (h : selectHost state rpcServers start direction = .ok (host, router)) :
    HostKnown rpcServers host ∧
      router = { state with rpcCurrent := state.rpcCurrent.filter (hostIsConfigured rpcServers) } := by
  have hchosen : ∀ {next : RpcState},
      (chooseHost rpcServers state.rpcLastFailed start direction).map (·, next) = .ok (host, router) →
        HostKnown rpcServers host ∧ router = next := by
    intro next hmap
    cases hchoice : chooseHost rpcServers state.rpcLastFailed start direction with
    | error e =>
      rw [hchoice] at hmap
      cases hmap
    | ok chosen =>
      rw [hchoice] at hmap
      cases hmap
      exact ⟨chooseHost_known hchoice, rfl⟩
  simp only [selectHost] at h
  cases hcurrent : state.rpcCurrent.filter (hostIsConfigured rpcServers) with
  | none =>
    rw [hcurrent] at h
    exact hchosen h
  | some current =>
    rw [hcurrent] at h
    dsimp only at h
    split_ifs at h with hfailed
    · exact hchosen h
    · cases h
      exact ⟨.inl (exists_of_hostIsConfigured (Option.filter_eq_some_iff.mp hcurrent).2), rfl⟩

/-- The cached host is used if it is configured and not the last failed one. -/
theorem selectHost_chosen (h : TwoServers rpcServers) (state : RpcState) (start direction : UInt32) :
    ∃ host, selectHost state rpcServers start direction =
        .ok (host, { state with rpcCurrent := state.rpcCurrent.filter (hostIsConfigured rpcServers) }) ∧
      Chosen rpcServers state.rpcLastFailed host ∧
      ∀ c, state.rpcCurrent = some c → hostIsConfigured rpcServers c = true →
        state.rpcLastFailed ≠ some c → host = c := by
  obtain ⟨host, hhost, hchosen⟩ := chooseHost_chosen h state.rpcLastFailed start direction
  cases hcurrent : state.rpcCurrent with
  | none =>
    refine ⟨host, ?_, hchosen, nofun⟩
    simp only [selectHost, hcurrent, Option.filter_none, hhost]
    rfl
  | some c =>
    cases hconfigured : hostIsConfigured rpcServers c with
    | false =>
      refine ⟨host, ?_, hchosen, fun c' hc' hc => ?_⟩
      · simp only [selectHost, hcurrent, Option.filter_some, hconfigured, Bool.false_eq_true, if_false,
          hhost]
        rfl
      · cases hc'
        rw [hconfigured] at hc
        cases hc
    | true =>
      obtain ⟨server, hserver, htext⟩ := exists_of_hostIsConfigured hconfigured
      by_cases hfailed : state.rpcLastFailed = some c
      · refine ⟨host, ?_, hchosen, fun c' hc' _ hne => ?_⟩
        · simp only [selectHost, hcurrent, Option.filter_some, hconfigured, if_true, hfailed]
          rw [hfailed] at hhost
          rw [hhost]
          rfl
        · cases hc'
          exact absurd hfailed hne
      · refine ⟨c, ?_, ⟨⟨server, hserver, htext⟩, hfailed⟩, fun c' hc' _ _ => ?_⟩
        · simp only [selectHost, hcurrent, Option.filter_some, hconfigured, if_true, hfailed, if_false]
        · exact (Option.some.inj hc')

end Choice

/-- `choose_host` returns: after some number of turns, and every index on the way is in range. -/
def Returns (rpcServers : List IpAddr) (lastFailed : Option Text) (start direction : UInt32) : Prop :=
  ∃ turns host, chooseHostIn turns rpcServers lastFailed start direction = .ok host

theorem returns_of_length_lt {rpcServers : List IpAddr} (h : rpcServers.length < 2)
    (lastFailed : Option Text) (start direction : UInt32) :
    Returns rpcServers lastFailed start direction := by
  match rpcServers, h with
  | [], _ => exact ⟨0, _, rfl⟩
  | [_], _ => exact ⟨0, _, rfl⟩

/-- The servers of a setting make `choose_host` return whatever it is asked, exactly if they are
fewer than two or one of them is not the last failed host. -/
theorem chooseHost_returns_iff (value : Text) (lastFailed : Option Text) (start direction : UInt32) :
    Returns (ClientSettings.rpcServerIp value) lastFailed start direction ↔
      (ClientSettings.rpcServerIp value).length < 2 ∨
        ∃ server ∈ ClientSettings.rpcServerIp value, lastFailed ≠ some (serverText server) := by
  generalize ClientSettings.rpcServerIp value = rpcServers
  constructor
  · rintro ⟨turns, host, hreturns⟩
    by_contra hnot
    obtain ⟨hlen, hnone⟩ := not_or.mp hnot
    have hfailed : AllFailed rpcServers lastFailed := by
      intro server hserver
      by_contra hne
      exact hnone ⟨server, hserver, hne⟩
    match rpcServers, hlen with
    | [], hlen => exact hlen (by simp)
    | [_], hlen => exact hlen (by simp)
    | a :: b :: rest, _ => exact hfailed.chooseLoop_ne_ok _ _ _ _ hreturns
  · rintro (hlen | hgood)
    · exact returns_of_length_lt hlen lastFailed start direction
    · rcases Nat.lt_or_ge rpcServers.length 2 with hlen | hlen
      · exact returns_of_length_lt hlen lastFailed start direction
      · obtain ⟨host, hhost, -⟩ := chooseHostIn_chosen le_rfl hlen hgood start direction
        exact ⟨_, host, hhost⟩

/-- The same server twice, once as a mapped address, after it has failed: upwards the loop does not end,
and downwards it leaves the list. -/
theorem mappedTwice_not_returns :
    ¬ Returns (ClientSettings.rpcServerIp "10.0.0.1;::ffff:10.0.0.1".toList)
      (some "10.0.0.1".toList) 0 1 ∧
    chooseHost (ClientSettings.rpcServerIp "10.0.0.1;::ffff:10.0.0.1".toList)
      (some "10.0.0.1".toList) 0 1 = .error .endless ∧
    chooseHost (ClientSettings.rpcServerIp "10.0.0.1;::ffff:10.0.0.1".toList)
      (some "10.0.0.1".toList) 0 0 = .error .outOfBounds := by
  have hservers : ClientSettings.rpcServerIp "10.0.0.1;::ffff:10.0.0.1".toList =
      [.v4 ⟨10, 0, 0, 1⟩, .v4 ⟨10, 0, 0, 1⟩] := by decide +kernel
  have hfailed : AllFailed [.v4 ⟨10, 0, 0, 1⟩, .v4 ⟨10, 0, 0, 1⟩] (some "10.0.0.1".toList) := by
    intro server hserver
    simp only [List.mem_cons, List.not_mem_nil, or_false, or_self] at hserver
    rw [hserver]
    decide +kernel
  rw [hservers]
  refine ⟨?_, hfailed.chooseHost_eq le_rfl 0 1, hfailed.chooseHost_eq le_rfl 0 0⟩
  rintro ⟨turns, host, hreturns⟩
  exact hfailed.chooseLoop_ne_ok _ _ _ _ hreturns

/-! ## Runs -/

section Runs

variable {writeIpv6 : Ipv6Addr → Text}

/-- A bracket is not in the text of an address. -/
theorem bracket_ne_display (t : Text) (addr : IpAddr) : '[' :: t ≠ addr.display := by
  intro h
  have hchar := isAddressChar_of_mem_display (h ▸ List.mem_cons_self : '[' ∈ addr.display)
  exact absurd hchar (by decide)

/-- Nor is the default name the text of an address. -/
theorem defaultHost_ne_display (addr : IpAddr) : defaultHost ≠ addr.display := by
  intro h
  have hchar := isAddressChar_of_mem_display (h ▸ .head _ : 'r' ∈ addr.display)
  exact absurd hchar (by decide)

/-- The requests that the router can make: to an address, or to the default name. -/
def RequestKnown (writeIpv6 : Ipv6Addr → Text) (r : Request) : Prop :=
  (∃ addr, r = ⟨some addr, hostStr writeIpv6 addr⟩) ∨ r = ⟨none, defaultHost⟩

theorem HostKnown.makeRequest {rpcServers : List IpAddr} {host : Text} (h : HostKnown rpcServers host) :
    RequestKnown writeIpv6 (makeRequest writeIpv6 host) := by
  rcases h with ⟨server, -, rfl⟩ | rfl
  · refine .inl ⟨server, ?_⟩
    rw [RpcRouter.makeRequest, parseIp_display]
  · have hname : parseIp defaultHost = none := by decide +kernel
    refine .inr ?_
    rw [RpcRouter.makeRequest, hname]

/-- The router knows what was reported to it. -/
structure Inv (writeIpv6 : Ipv6Addr → Text) (s : State) : Prop where
  request : ∀ r ∈ s.requests, RequestKnown writeIpv6 r
  current : ∀ c, s.router.rpcCurrent = some c → (∃ addr, c = hostStr writeIpv6 addr) ∨ c = defaultHost
  failed : ∀ addr, s.lastFailed = some addr →
    s.router.rpcLastFailed = some (hostStr writeIpv6 addr) ∨
      s.router.rpcLastFailed = some (toLowercase (hostStr writeIpv6 addr))

theorem inv_initial : Inv writeIpv6 State.initial := ⟨nofun, nofun, nofun⟩

theorem Inv.step {s next : State} (h : Inv writeIpv6 s) {e : Event}
    (hstep : step writeIpv6 s e = some next) : Inv writeIpv6 next := by
  cases e with
  | select rpcServers start direction =>
    cases hselect : selectHost s.router rpcServers start direction with
    | error e =>
      simp only [RpcRouter.step, hselect] at hstep
      cases hstep
    | ok selected =>
      obtain ⟨hknown, hrouter⟩ := selectHost_known hselect
      simp only [RpcRouter.step, hselect] at hstep
      cases hstep
      refine ⟨fun r hr => ?_, fun c hc => ?_, fun addr haddr => ?_⟩
      · rcases List.mem_append.mp hr with hr | hr
        · exact h.request r hr
        · rw [List.mem_singleton.mp hr]
          exact hknown.makeRequest
      · rw [hrouter] at hc
        exact h.current c (Option.filter_eq_some_iff.mp hc).1
      · rw [hrouter]
        exact h.failed addr haddr
  | requestFailed index =>
    obtain ⟨r, hr, hnext⟩ := Option.bind_eq_some_iff.mp hstep
    cases hnext
    refine ⟨h.request, h.current, fun addr haddr => .inl ?_⟩
    rcases h.request r (List.mem_of_getElem? hr) with ⟨addr', rfl⟩ | rfl
    · cases haddr
      rfl
    · cases haddr
  | nullResponse index =>
    obtain ⟨r, hr, hnext⟩ := Option.bind_eq_some_iff.mp hstep
    cases hnext
    refine ⟨h.request, h.current, fun addr haddr => .inr ?_⟩
    rcases h.request r (List.mem_of_getElem? hr) with ⟨addr', rfl⟩ | rfl
    · cases haddr
      rfl
    · cases haddr
  | success index =>
    obtain ⟨r, hr, hnext⟩ := Option.bind_eq_some_iff.mp hstep
    cases hnext
    refine ⟨h.request, fun c hc => ?_, h.failed⟩
    cases hc
    rcases h.request r (List.mem_of_getElem? hr) with ⟨addr, rfl⟩ | rfl
    · exact .inl ⟨addr, rfl⟩
    · exact .inr rfl
  | clear =>
    cases hstep
    exact ⟨h.request, nofun, nofun⟩

/-- The last failed request did not go to an IPv6 address of the list, or the host of the last
success is configured. -/
def FailureVisible (s : State) (rpcServers : List IpAddr) : Prop :=
  ∀ addr, s.lastFailed = some (.v6 addr) → .v6 addr ∈ rpcServers →
    ∃ c, s.router.rpcCurrent = some c ∧ hostIsConfigured rpcServers c = true

theorem Inv.select {s : State} (h : Inv writeIpv6 s) {rpcServers : List IpAddr}
    (htwo : TwoServers rpcServers) (start direction : UInt32) :
    ∃ host router, selectHost s.router rpcServers start direction = .ok (host, router) ∧
      ∃ server ∈ rpcServers, host = server.display ∧
        (FailureVisible s rpcServers → s.lastFailed ≠ some server) := by
  obtain ⟨host, hselect, ⟨⟨server, hserver, hhost⟩, hne⟩, hcached⟩ :=
    selectHost_chosen htwo s.router start direction
  refine ⟨host, _, hselect, server, hserver, hhost, fun hvisible hfailed => ?_⟩
  cases server with
  | v4 addr =>
    refine hne ?_
    have hlower : toLowercase (hostStr writeIpv6 (.v4 addr)) = host :=
      (map_toLower_display (.v4 addr)).trans hhost.symm
    rcases h.failed _ hfailed with hlast | hlast
    · exact hlast.trans (congrArg some hhost.symm)
    · exact hlast.trans (congrArg some hlower)
  | v6 addr =>
    obtain ⟨c, hc, hconfigured⟩ := hvisible addr hfailed hserver
    obtain ⟨other, -, htext⟩ := exists_of_hostIsConfigured hconfigured
    -- what was reported has a bracket and no configured host has
    have hlast : s.router.rpcLastFailed ≠ some c := by
      intro hlast
      rw [htext] at hlast
      rcases h.failed _ hfailed with h' | h' <;> rw [hlast] at h'
      · exact bracket_ne_display _ other (Option.some.inj h').symm
      · exact bracket_ne_display _ other (Option.some.inj h').symm
    have hsame := hcached c hc hconfigured hlast
    rcases h.current c hc with ⟨addr', haddr'⟩ | hname
    · cases addr' with
      | v4 x =>
        have hcontra : IpAddr.display (.v4 x) = IpAddr.display (.v6 addr) :=
          haddr'.symm.trans (hsame.symm.trans hhost)
        cases IpAddr.display_inj hcontra
      | v6 x => exact bracket_ne_display _ other (haddr'.symm.trans htext)
    · exact defaultHost_ne_display other (hname.symm.trans htext)

/-- After every run, over lists of any length and with failures of any request, a selection among two
servers returns the text of a configured address, and not of the one that failed last if the router can
see that failure. -/
theorem selects_other_than_failed (events : List Event) (s : State)
    (hrun : run (step writeIpv6) State.initial events = some s) (rpcServers : List IpAddr)
    (hservers : TwoServers rpcServers) (start direction : UInt32) :
    ∃ host router, selectHost s.router rpcServers start direction = .ok (host, router) ∧
      ∃ server ∈ rpcServers, host = server.display ∧
        (FailureVisible s rpcServers → s.lastFailed ≠ some server) := by
  have hinv : Inv writeIpv6 s :=
    run_invariant (fun _ _ _ h _ hs => h.step hs) inv_initial (allSteps_true _ _) hrun
  exact hinv.select hservers start direction

end Runs

/-! ## Two servers of each family -/

def ipv4Servers : List IpAddr := [.v4 ⟨10, 0, 0, 1⟩, .v4 ⟨10, 0, 0, 2⟩]

def ipv6Servers : List IpAddr :=
  [.v6 ⟨[0x2001, 0xdb8, 0, 0, 0, 0, 0, 1], rfl⟩, .v6 ⟨[0x2001, 0xdb8, 0, 0, 0, 0, 0, 2], rfl⟩]

/-- A call asks the default name before the settings have servers, and then a request to the first of
the servers fails. -/
def firstFails (rpcServers : List IpAddr) : List Event :=
  [.select [] 0 0, .success 0, .select rpcServers 0 0, .requestFailed 1]

theorem twoServers_ipv4Servers : TwoServers ipv4Servers :=
  ⟨_, .head _, _, .tail _ (.head _), by decide⟩

theorem twoServers_ipv6Servers : TwoServers ipv6Servers :=
  ⟨_, .head _, _, .tail _ (.head _), by decide⟩

/-- The address of the last failure after the run -/
def failedAfter (rpcServers : List IpAddr) : Option IpAddr :=
  (run (step Ipv6Addr.display) State.initial (firstFails rpcServers)).bind State.lastFailed

theorem selects_other_than_failed_of_ipv4 :
    ∃ s, run (step Ipv6Addr.display) State.initial (firstFails ipv4Servers) = some s ∧
      s.lastFailed = some (.v4 ⟨10, 0, 0, 1⟩) ∧
      ∃ host router, selectHost s.router ipv4Servers 0 0 = .ok (host, router) ∧
        ∃ server ∈ ipv4Servers, host = server.display ∧ s.lastFailed ≠ some server := by
  have hfailed : failedAfter ipv4Servers = some (.v4 ⟨10, 0, 0, 1⟩) := by decide +kernel
  obtain ⟨s, hrun, hlast⟩ := Option.bind_eq_some_iff.mp hfailed
  obtain ⟨host, router, hselect, server, hserver, hhost, hother⟩ :=
    selects_other_than_failed (firstFails ipv4Servers) s hrun ipv4Servers twoServers_ipv4Servers 0 0
  have hvisible : FailureVisible s ipv4Servers := by
    intro addr haddr
    rw [hlast] at haddr
    cases haddr
  exact ⟨s, hrun, hlast, host, router, hselect, server, hserver, hhost, hother hvisible⟩

/-- Every call finds at least two different servers in the settings. -/
def FindsTwoServers (_ : State) : Event → Prop
  | .select rpcServers _ _ => TwoServers rpcServers
  | _ => True

/-- The same IPv6 address is selected again after its request has failed, also if every call has found
two servers. -/
theorem ipv6_selected_again :
    ∃ server ∈ ipv6Servers,
      AllSteps (step Ipv6Addr.display) FindsTwoServers State.initial
        [.select ipv6Servers 0 0, .requestFailed 0] ∧
      TwoServers ipv6Servers ∧
      ∃ s, run (step Ipv6Addr.display) State.initial [.select ipv6Servers 0 0, .requestFailed 0] = some s ∧
        s.lastFailed = some server ∧
        ∃ router, selectHost s.router ipv6Servers 0 0 = .ok (server.display, router) := by
  refine ⟨_, .head _, ⟨twoServers_ipv6Servers, fun _ _ => ⟨trivial, fun _ _ => trivial⟩⟩,
    twoServers_ipv6Servers, ?_⟩
  have hrun : (run (step Ipv6Addr.display) State.initial [.select ipv6Servers 0 0, .requestFailed 0]).map
      (fun s => (s.router, s.lastFailed)) =
        some (⟨some "[2001:db8::1]".toList, none⟩, ipv6Servers.head?) := by decide +kernel
  obtain ⟨s, hs, heq⟩ := Option.map_eq_some_iff.mp hrun
  obtain ⟨hrouter, hlast⟩ := Prod.ext_iff.mp heq
  simp only at hrouter hlast
  refine ⟨s, hs, hlast, ⟨some "[2001:db8::1]".toList, none⟩, ?_⟩
  rw [hrouter]
  decide +kernel

end HathRs.RpcRouter
