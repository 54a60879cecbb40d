import HathRs.ConfigUpdates
import HathRs.RpcRouter

/-!
# Calls to the server, their attempts and their one retry

Any number of calls share the configuration and the router. A call loads the configuration,
selects a host and sends its request up to three times. If the server answers that the key
has expired, a call of the right kind asks for the time of the server, applies the answer and
tries once more, while other calls and the rest of the program go on changing what is shared.
-/

namespace HathRs.RpcCalls
open TextParsing Digests IpAddresses RequestSignatures MachineArithmetic TransitionRuns RpcRouter
open ClientConfig

def keyExpiredRetryLimit : ℕ := 1

def supportsKeyExpiredRetry : Action → Bool
  | .clientLogin | .clientSettings | .clientStart | .clientSuspend | .clientResume | .clientStop
  | .overload => true
  | _ => false

/-! ## Answers -/

inductive ResponseStatus where
  | ok
  | fail
  | null
  deriving DecidableEq

structure ServerResponse where
  status : ResponseStatus
  lines : List Text
  failCode : Option Text
  failHost : Option Text

def parseServerResponse (body requestHost : Text) : ServerResponse :=
  match lines body with
  | [] => ⟨.null, [], some "NO_RESPONSE".toList, some (toLowercase requestHost)⟩
  | first :: rest =>
    if first = "OK".toList then ⟨.ok, rest, none, none⟩
    else if "TEMPORARILY_UNAVAILABLE".toList <+: first then
      ⟨.null, [], some first, some (toLowercase requestHost)⟩
    else if first = "KEY_EXPIRED".toList then
      ⟨.fail, [], some "KEY_EXPIRED".toList, some (toLowercase requestHost)⟩
    else ⟨.fail, [], some first, some (toLowercase requestHost)⟩

def ServerResponse.keyExpired (r : ServerResponse) : Bool := r.failCode = some "KEY_EXPIRED".toList

/-- What a GET meets: it cannot be sent, or it has a status and a body that may not be readable. -/
inductive GetResult where
  | sendFails
  | answered (status : ℕ) (body : Option Text)

inductive RpcStatusAction where
  | readBody
  | retry
  | abort
  deriving DecidableEq

def rpcStatusAction (status : ℕ) : RpcStatusAction :=
  if status = 404 then .abort
  else if 400 ≤ status ∧ status < 600 then .retry
  else .readBody

/-! ## Calls -/

/-- A request, with the number of the configuration that it was made with. -/
structure Get where
  act : Action
  host : Text
  port : UInt16
  path : Text
  query : Text
  version : ℕ

/-- Where a call stands. -/
inductive Stage where
  | loading
  | selecting (cfg : ClientConfig) (version : ℕ)
  | sending (get : Get) (attempt : ℕ)
  | statLoading
  | statSelecting (cfg : ClientConfig) (version : ℕ)
  | statSending (get : Get) (attempt : ℕ)
  | statApplying (lines : List Text)
  | returned (result : Option ServerResponse)

/-- A call with the GETs that it has sent: those before a retry, those for the server's time and
those after it. `timeLines` are the lines of a good answer about the time, and `refreshed` is the
number of the configuration that applying them has led to. -/
structure Call where
  act : Action
  add : Text
  keyExpiredRetries : ℕ
  stage : Stage
  asked : List Get
  stats : List Get
  askedAgain : List Get
  timeLines : Option (List Text)
  refreshed : ℕ

def Call.new (act : Action) (add : Text) : Call := ⟨act, add, 0, .loading, [], [], [], none, 0⟩

/-- `history` has every configuration that there was, the latest last. -/
structure State where
  history : List ClientConfig
  current : ClientConfig
  router : RpcState
  calls : List Call

def State.new (config : ClientConfig) : State := ⟨[config], config, .default, []⟩

def State.version (s : State) : ℕ := s.history.length - 1

def State.replace (s : State) (config : ClientConfig) : State :=
  { s with history := s.history ++ [config], current := config }

inductive CallEvent where
  | load
  /-- The clock and the random numbers that are drawn. -/
  | select (now : Int64) (start direction : UInt32)
  | get (result : GetResult)
  | apply (clock : ℕ → Int64)

inductive Event where
  | call (act : Action) (add : Text)
  | advance (index : ℕ) (event : CallEvent)
  /-- Another part of the program applies a response. -/
  | settings (lines : List Text) (clock : ℕ → Int64)
  | clear

section Steps

variable (toLowercase : Text → Text) (build : Build) (sha1 : Bytes → Sha1Digest)
variable (writeIpv6 : Ipv6Addr → Text)

/-- What is signed with, at the time of the clock. -/
def signing (cfg : ClientConfig) (now : Int64) : RequestSignatures.Config :=
  ⟨cfg.clientId, cfg.clientKey, now + cfg.serverTimeDelta⟩

/-- `make_rpc_url` on the host that was selected -/
def makeRpcUrl (act : Action) (add : Text) (cfg : ClientConfig) (version : ℕ) (now : Int64)
    (host : Text) : Get where
  act := act
  host := (makeRequest writeIpv6 host).host
  port := cfg.rpcPort
  path := (cfg.rpcPath.reverse.dropWhile (· = '?')).reverse
  query := makeRpcQuery sha1 act add (signing cfg now)
  version := version

/-- One turn of `send_rpc_request`: the request is over with this body or without one, or it is
sent again. -/
def sendRpcRequest (attempt : ℕ) (result : GetResult) : Option (Option Text) :=
  let retry := if attempt + 1 < 3 then none else some none
  match result with
  | .sendFails => retry
  | .answered status body =>
    match rpcStatusAction status with
    | .abort => some none
    | .retry => retry
    | .readBody =>
      match body with
      | some text => some (some text)
      | none => retry

/-- The GET is noted with the others of its kind. -/
def Call.sent (c : Call) (get : Get) : Call :=
  if c.keyExpiredRetries = 0 then { c with asked := c.asked ++ [get] }
  else { c with askedAgain := c.askedAgain ++ [get] }

/-- The body of a request has been read: the call is retried or returns. -/
def answer (router : RpcState) (c : Call) (host body : Text) : RpcState × Call :=
  let parsed := parseServerResponse body host
  if parsed.keyExpired && decide (c.keyExpiredRetries < keyExpiredRetryLimit) &&
      supportsKeyExpiredRetry c.act then
    (router, { c with keyExpiredRetries := c.keyExpiredRetries + 1, stage := .statLoading })
  else if parsed.status = .null then
    (router.markFailed (parsed.failHost.getD host), { c with stage := .returned (some parsed) })
  else (router.markSuccess host, { c with stage := .returned (some parsed) })

/-- The server's time has been asked for. -/
def statAnswer (router : RpcState) (c : Call) (host body : Text) : RpcState × Call :=
  let parsed := parseServerResponse body host
  match parsed.status with
  | .ok => (router, { c with stage := .statApplying parsed.lines, timeLines := some parsed.lines })
  | .null => (router.markFailed (parsed.failHost.getD "unknown".toList), { c with stage := .loading })
  | .fail => (router, { c with stage := .loading })

/-- One step of a call. -/
def advance (s : State) (c : Call) : CallEvent → Option (State × Call)
  | .load =>
    match c.stage with
    | .loading => some (s, { c with stage := .selecting s.current s.version })
    | .statLoading => some (s, { c with stage := .statSelecting s.current s.version })
    | _ => none
  | .select now start direction =>
    match c.stage with
    | .selecting cfg version =>
      match selectHost s.router cfg.rpcServers start direction with
      | .error _ => none
      | .ok (host, router) =>
        some ({ s with router := router },
          { c with stage := .sending (makeRpcUrl sha1 writeIpv6 c.act c.add cfg version now host) 0 })
    | .statSelecting cfg version =>
      match selectHost s.router cfg.rpcServers start direction with
      | .error _ => none
      | .ok (host, router) =>
        some ({ s with router := router },
          { c with
            stage := .statSending (makeRpcUrl sha1 writeIpv6 .serverStat [] cfg version now host) 0 })
    | _ => none
  | .get result =>
    match c.stage with
    | .sending get attempt =>
      let c := c.sent get
      match sendRpcRequest attempt result with
      | none => some (s, { c with stage := .sending get (attempt + 1) })
      | some none =>
        some ({ s with router := s.router.markFailed get.host }, { c with stage := .returned none })
      | some (some body) =>
        let (router, c) := answer s.router c get.host body
        some ({ s with router := router }, c)
    | .statSending get attempt =>
      let c := { c with stats := c.stats ++ [get] }
      match sendRpcRequest attempt result with
      | none => some (s, { c with stage := .statSending get (attempt + 1) })
      | some none => some ({ s with router := s.router.markFailed get.host }, { c with stage := .loading })
      | some (some body) =>
        let (router, c) := statAnswer s.router c get.host body
        some ({ s with router := router }, c)
    | _ => none
  | .apply clock =>
    match c.stage with
    | .statApplying lines =>
      (updated toLowercase build lines clock s.current).map fun config =>
        (s.replace config, { c with stage := .loading, refreshed := s.history.length })
    | _ => none

def step (s : State) : Event → Option State
  | .call act add => some { s with calls := s.calls ++ [.new act add] }
  | .advance index event =>
    s.calls[index]?.bind fun c => (advance toLowercase build sha1 writeIpv6 s c event).map fun (s, c) =>
      { s with calls := s.calls.set index c }
  | .settings lines clock => (updated toLowercase build lines clock s.current).map s.replace
  | .clear => some { s with router := .default }

end Steps

/-! ## What a call has sent -/

section Invariants

variable (toLowercase : Text → Text) (build : Build) (sha1 : Bytes → Sha1Digest)
variable (writeIpv6 : Ipv6Addr → Text) (history : List ClientConfig)

/-- The request was made with a configuration of its time, which is not older than this one. -/
def MadeWith (act : Action) (add : Text) (oldest : ℕ) (get : Get) : Prop :=
  oldest ≤ get.version ∧ ∃ cfg now host, history[get.version]? = some cfg ∧
    get = makeRpcUrl sha1 writeIpv6 act add cfg get.version now host

/-- The same request, up to three times. -/
structure Block (act : Action) (add : Text) (oldest : ℕ) (gets : List Get) : Prop where
  length_le : gets.length ≤ 3
  made : ∀ get ∈ gets, MadeWith sha1 writeIpv6 history act add oldest get
  same : ∀ get ∈ gets, ∀ other ∈ gets, get = other

/-- A good answer about the server's time is in the configuration that the call has left. -/
def Refreshed (c : Call) : Prop :=
  ∀ lines, c.timeLines = some lines → 0 < c.refreshed ∧ ∃ clock before after,
    history[c.refreshed - 1]? = some before ∧ history[c.refreshed]? = some after ∧
    updated toLowercase build lines clock before = some after

/-- The GETs of the round that the call is in. -/
def Call.round (c : Call) : List Get := if c.keyExpiredRetries = 0 then c.asked else c.askedAgain

/-- A call that is retried has asked for the server's time and applied it. -/
structure TimeAsked (c : Call) : Prop where
  asked : c.keyExpiredRetries = 1 → c.stats ≠ []
  refreshed : Refreshed toLowercase build history c

/-- The call is at its retry. -/
structure Call.Refreshing (c : Call) : Prop where
  retries : c.keyExpiredRetries = 1
  round : c.askedAgain = []

def StageInv (c : Call) : Prop :=
  match c.stage with
  | .loading => TimeAsked toLowercase build history c ∧ c.round = []
  | .selecting cfg version => TimeAsked toLowercase build history c ∧ c.round = [] ∧
      c.refreshed ≤ version ∧ history[version]? = some cfg
  | .sending get attempt => TimeAsked toLowercase build history c ∧ attempt < 3 ∧
      c.round = List.replicate attempt get ∧
      MadeWith sha1 writeIpv6 history c.act c.add c.refreshed get
  | .statLoading => c.Refreshing ∧ c.timeLines = none ∧ c.stats = []
  | .statSelecting cfg version => c.Refreshing ∧ c.timeLines = none ∧ c.stats = [] ∧
      history[version]? = some cfg
  | .statSending get attempt => c.Refreshing ∧ c.timeLines = none ∧ attempt < 3 ∧
      c.stats = List.replicate attempt get ∧ MadeWith sha1 writeIpv6 history .serverStat [] 0 get
  | .statApplying lines => c.Refreshing ∧ c.timeLines = some lines ∧ c.stats ≠ []
  | .returned result => TimeAsked toLowercase build history c ∧ c.round ≠ [] ∧
      ∀ r, result = some r → r.keyExpired = true →
      supportsKeyExpiredRetry c.act = true → c.keyExpiredRetries = 1

/-- What does not depend on where the call stands. -/
structure CallCore (c : Call) : Prop where
  retries_le : c.keyExpiredRetries ≤ 1
  retried : c.keyExpiredRetries = 1 → supportsKeyExpiredRetry c.act = true
  unretried : c.keyExpiredRetries = 0 →
    c.stats = [] ∧ c.askedAgain = [] ∧ c.timeLines = none ∧ c.refreshed = 0
  asked : Block sha1 writeIpv6 history c.act c.add 0 c.asked
  stats : Block sha1 writeIpv6 history .serverStat [] 0 c.stats
  askedAgain : Block sha1 writeIpv6 history c.act c.add c.refreshed c.askedAgain
  refreshed_lt : c.refreshed < history.length

structure CallInv (c : Call) : Prop where
  core : CallCore sha1 writeIpv6 history c
  stage : StageInv toLowercase build sha1 writeIpv6 history c

end Invariants

section Blocks

variable {toLowercase : Text → Text} {build : Build} {sha1 : Bytes → Sha1Digest}
variable {writeIpv6 : Ipv6Addr → Text} {history : List ClientConfig} {act : Action} {add : Text}
variable {oldest : ℕ} {get : Get} {gets : List Get} {c : Call}

theorem block_nil : Block sha1 writeIpv6 history act add oldest [] :=
  ⟨Nat.zero_le _, by simp, by simp⟩

/-- The request once more. -/
theorem block_replicate {attempt : ℕ} (hattempt : attempt < 3)
    (hmade : MadeWith sha1 writeIpv6 history act add oldest get) :
    Block sha1 writeIpv6 history act add oldest (List.replicate attempt get ++ [get]) := by
  have hall : List.replicate attempt get ++ [get] = List.replicate (attempt + 1) get :=
    List.replicate_succ'.symm
  rw [hall]
  refine ⟨by simpa using hattempt, fun g hg => ?_, fun g hg g' hg' => ?_⟩
  · rw [List.eq_of_mem_replicate hg]
    exact hmade
  · rw [List.eq_of_mem_replicate hg, List.eq_of_mem_replicate hg']

/-- A configuration that there was stays in the history. -/
theorem getElem?_history {version : ℕ} {cfg : ClientConfig} (h : history[version]? = some cfg)
    (later : List ClientConfig) : (history ++ later)[version]? = some cfg := by
  rw [List.getElem?_append_left (List.getElem?_eq_some_iff.mp h).1]
  exact h

theorem MadeWith.mono (h : MadeWith sha1 writeIpv6 history act add oldest get)
    (later : List ClientConfig) : MadeWith sha1 writeIpv6 (history ++ later) act add oldest get := by
  obtain ⟨hle, cfg, now, host, hcfg, hget⟩ := h
  exact ⟨hle, cfg, now, host, getElem?_history hcfg later, hget⟩

theorem Block.mono (h : Block sha1 writeIpv6 history act add oldest gets) (later : List ClientConfig) :
    Block sha1 writeIpv6 (history ++ later) act add oldest gets :=
  ⟨h.length_le, fun g hg => (h.made g hg).mono later, h.same⟩

theorem Refreshed.mono (h : Refreshed toLowercase build history c) (later : List ClientConfig) :
    Refreshed toLowercase build (history ++ later) c := by
  intro lines hlines
  obtain ⟨hpos, clock, before, after, hbefore, hafter, hupdated⟩ := h lines hlines
  exact ⟨hpos, clock, before, after, getElem?_history hbefore later, getElem?_history hafter later,
    hupdated⟩

theorem TimeAsked.mono (h : TimeAsked toLowercase build history c) (later : List ClientConfig) :
    TimeAsked toLowercase build (history ++ later) c :=
  ⟨h.asked, h.refreshed.mono later⟩

theorem StageInv.mono (h : StageInv toLowercase build sha1 writeIpv6 history c)
    (later : List ClientConfig) : StageInv toLowercase build sha1 writeIpv6 (history ++ later) c := by
  unfold StageInv at h ⊢
  cases hstage : c.stage with
  | loading =>
    rw [hstage] at h
    exact ⟨h.1.mono later, h.2⟩
  | statLoading | statApplying =>
    rw [hstage] at h
    exact h
  | returned =>
    rw [hstage] at h
    exact ⟨h.1.mono later, h.2⟩
  | selecting cfg version =>
    rw [hstage] at h
    exact ⟨h.1.mono later, h.2.1, h.2.2.1, getElem?_history h.2.2.2 later⟩
  | sending get attempt =>
    rw [hstage] at h
    exact ⟨h.1.mono later, h.2.1, h.2.2.1, h.2.2.2.mono later⟩
  | statSelecting cfg version =>
    rw [hstage] at h
    exact ⟨h.1, h.2.1, h.2.2.1, getElem?_history h.2.2.2 later⟩
  | statSending get attempt =>
    rw [hstage] at h
    exact ⟨h.1, h.2.1, h.2.2.1, h.2.2.2.1, h.2.2.2.2.mono later⟩

theorem CallInv.mono (h : CallInv toLowercase build sha1 writeIpv6 history c) (later : List ClientConfig) :
    CallInv toLowercase build sha1 writeIpv6 (history ++ later) c where
  core :=
    { retries_le := h.core.retries_le
      retried := h.core.retried
      unretried := h.core.unretried
      asked := h.core.asked.mono later
      stats := h.core.stats.mono later
      askedAgain := h.core.askedAgain.mono later
      refreshed_lt := h.core.refreshed_lt.trans_le (by simp) }
  stage := h.stage.mono later

theorem callInv_new (hne : history ≠ []) (act : Action) (add : Text) :
    CallInv toLowercase build sha1 writeIpv6 history (.new act add) where
  core :=
    { retries_le := Nat.zero_le _
      retried := by simp [Call.new]
      unretried := fun _ => ⟨rfl, rfl, rfl, rfl⟩
      asked := block_nil
      stats := block_nil
      askedAgain := block_nil
      refreshed_lt := List.length_pos_of_ne_nil hne }
  stage := ⟨⟨by simp [Call.new], by simp [Refreshed, Call.new]⟩, rfl⟩

theorem CallCore.restage (h : CallCore sha1 writeIpv6 history c) (stage : Stage) :
    CallCore sha1 writeIpv6 history { c with stage := stage } :=
  ⟨h.retries_le, h.retried, h.unretried, h.asked, h.stats, h.askedAgain, h.refreshed_lt⟩

theorem TimeAsked.restage (h : TimeAsked toLowercase build history c) (stage : Stage) :
    TimeAsked toLowercase build history { c with stage := stage } :=
  ⟨h.asked, h.refreshed⟩

theorem Call.Refreshing.restage (h : c.Refreshing) (stage : Stage) :
    ({ c with stage := stage } : Call).Refreshing :=
  ⟨h.retries, h.round⟩

theorem CallCore.retries_eq (h : CallCore sha1 writeIpv6 history c)
    (hretries : c.keyExpiredRetries ≠ 0) : c.keyExpiredRetries = 1 := by
  have hle := h.retries_le
  omega

/-- What the noted GET leaves as it was. -/
@[simp] theorem sent_frame (c : Call) (get : Get) :
    (c.sent get).act = c.act ∧ (c.sent get).add = c.add ∧
      (c.sent get).keyExpiredRetries = c.keyExpiredRetries ∧ (c.sent get).stats = c.stats ∧
      (c.sent get).refreshed = c.refreshed ∧ (c.sent get).timeLines = c.timeLines := by
  unfold Call.sent
  split <;> exact ⟨rfl, rfl, rfl, rfl, rfl, rfl⟩

theorem TimeAsked.sent (h : TimeAsked toLowercase build history c) (get : Get) :
    TimeAsked toLowercase build history (c.sent get) := by
  obtain ⟨-, -, hretries, hstats, hrefreshed, hlines⟩ := sent_frame c get
  constructor
  · rw [hretries, hstats]
    exact h.asked
  · unfold Refreshed
    rw [hrefreshed, hlines]
    exact h.refreshed

theorem CallInv.sent (h : CallInv toLowercase build sha1 writeIpv6 history c) {attempt : ℕ}
    (hstage : c.stage = .sending get attempt) :
    CallCore sha1 writeIpv6 history (c.sent get) ∧
      (c.sent get).round = List.replicate (attempt + 1) get := by
  have hst := h.stage
  unfold StageInv at hst
  rw [hstage] at hst
  obtain ⟨-, hattempt, hround, hmade⟩ := hst
  unfold Call.round at hround
  by_cases hretries : c.keyExpiredRetries = 0
  · rw [if_pos hretries] at hround
    have hzero := (h.core.unretried hretries).2.2.2
    unfold Call.sent Call.round
    rw [if_pos hretries, if_pos hretries, hround]
    refine ⟨⟨h.core.retries_le, h.core.retried, h.core.unretried, ?_, h.core.stats,
      h.core.askedAgain, h.core.refreshed_lt⟩, List.replicate_succ'.symm⟩
    exact block_replicate hattempt (hzero ▸ hmade)
  · rw [if_neg hretries] at hround
    unfold Call.sent Call.round
    rw [if_neg hretries, if_neg hretries, hround]
    refine ⟨⟨h.core.retries_le, h.core.retried, fun hzero => absurd hzero hretries, h.core.asked,
      h.core.stats, ?_, h.core.refreshed_lt⟩, List.replicate_succ'.symm⟩
    exact block_replicate hattempt hmade

end Blocks

/-! ## Steps of a call -/

section Advances

variable {toLowercase : Text → Text} {build : Build} {sha1 : Bytes → Sha1Digest}
variable {writeIpv6 : Ipv6Addr → Text} {s s' : State} {c c' : Call}

theorem attempt_of_retry {attempt : ℕ} {result : GetResult} (h : sendRpcRequest attempt result = none) :
    attempt + 1 < 3 := by
  by_contra hlast
  cases result with
  | sendFails => simp [sendRpcRequest, hlast] at h
  | answered status body =>
    cases hact : rpcStatusAction status with
    | abort => simp [sendRpcRequest, hact] at h
    | retry => simp [sendRpcRequest, hact, hlast] at h
    | readBody =>
      cases body with
      | some text => simp [sendRpcRequest, hact] at h
      | none => simp [sendRpcRequest, hact, hlast] at h

/-- The current configuration is the latest one. -/
def Latest (s : State) : Prop := s.history[s.version]? = some s.current

theorem Latest.lt (h : Latest s) : s.version < s.history.length :=
  (List.getElem?_eq_some_iff.mp h).1

theorem latest_replace (s : State) (config : ClientConfig) : Latest (s.replace config) := by
  simp [Latest, State.replace, State.version]

/-- What a step of a call leaves of the shared state. -/
structure Shares (s s' : State) : Prop where
  history : ∃ later, s'.history = s.history ++ later
  calls : s'.calls = s.calls
  latest : Latest s'

theorem shares_of_router (h : Latest s) (router : RpcState) : Shares s { s with router := router } :=
  ⟨⟨[], (List.append_nil _).symm⟩, rfl, h⟩

theorem answer_inv (hcore : CallCore sha1 writeIpv6 s.history c)
    (htime : TimeAsked toLowercase build s.history c) (hround : c.round ≠ []) (router : RpcState)
    (host body : Text) :
    CallInv toLowercase build sha1 writeIpv6 s.history (answer router c host body).2 := by
  unfold answer
  dsimp only
  split_ifs with hretry hnull
  · simp only [Bool.and_eq_true, decide_eq_true_eq, keyExpiredRetryLimit, Nat.lt_one_iff] at hretry
    obtain ⟨⟨-, hzero⟩, hsupports⟩ := hretry
    obtain ⟨hstats, hagain, hlines, -⟩ := hcore.unretried hzero
    refine ⟨⟨by simp [hzero], fun _ => hsupports, by simp, hcore.asked, hcore.stats, hcore.askedAgain,
      hcore.refreshed_lt⟩, ?_⟩
    exact ⟨⟨by simp [hzero], hagain⟩, hlines, hstats⟩
  · refine ⟨hcore.restage _, htime.restage _, hround, fun r hr hexpired hsupports => ?_⟩
    cases hr
    refine hcore.retries_eq fun hzero => hretry ?_
    simp [hexpired, hsupports, hzero, keyExpiredRetryLimit]
  · refine ⟨hcore.restage _, htime.restage _, hround, fun r hr hexpired hsupports => ?_⟩
    cases hr
    refine hcore.retries_eq fun hzero => hretry ?_
    simp [hexpired, hsupports, hzero, keyExpiredRetryLimit]

theorem Call.Refreshing.round_eq (h : c.Refreshing) : c.round = [] := by
  simp [Call.round, h.retries, h.round]

theorem statAnswer_inv (hcore : CallCore sha1 writeIpv6 s.history c)
    (h : c.Refreshing) (hlines : c.timeLines = none) (hstats : c.stats ≠ []) (router : RpcState)
    (host body : Text) :
    CallInv toLowercase build sha1 writeIpv6 s.history (statAnswer router c host body).2 := by
  have htime : TimeAsked toLowercase build s.history c := ⟨fun _ => hstats, by simp [Refreshed, hlines]⟩
  unfold statAnswer
  dsimp only
  split
  · refine ⟨⟨hcore.retries_le, hcore.retried, fun hzero => ?_, hcore.asked, hcore.stats, hcore.askedAgain,
      hcore.refreshed_lt⟩, ⟨h.retries, h.round⟩, rfl, hstats⟩
    exact absurd (h.retries.symm.trans hzero) (by decide)
  · exact ⟨hcore.restage _, htime.restage _, h.round_eq⟩
  · exact ⟨hcore.restage _, htime.restage _, h.round_eq⟩

/-- A step of a call and what it leaves. -/
def Advanced (toLowercase : Text → Text) (build : Build) (sha1 : Bytes → Sha1Digest)
    (writeIpv6 : Ipv6Addr → Text) (s s' : State) (c' : Call) : Prop :=
  Shares s s' ∧ CallInv toLowercase build sha1 writeIpv6 s'.history c'

theorem advance_load (hlatest : Latest s) (h : CallInv toLowercase build sha1 writeIpv6 s.history c)
    (hstep : advance toLowercase build sha1 writeIpv6 s c .load = some (s', c')) :
    Advanced toLowercase build sha1 writeIpv6 s s' c' := by
  have hst := h.stage
  unfold StageInv at hst
  have hshares := shares_of_router hlatest s.router
  cases hstage : c.stage with
  | loading =>
    simp only [advance, hstage, Option.some.injEq, Prod.mk.injEq] at hstep hst
    obtain ⟨rfl, rfl⟩ := hstep
    refine ⟨hshares, h.core.restage _, hst.1.restage _, hst.2, ?_, hlatest⟩
    exact Nat.le_sub_one_of_lt h.core.refreshed_lt
  | statLoading =>
    simp only [advance, hstage, Option.some.injEq, Prod.mk.injEq] at hstep hst
    obtain ⟨rfl, rfl⟩ := hstep
    obtain ⟨hrefreshing, hlines, hstats⟩ := hst
    exact ⟨hshares, h.core.restage _, hrefreshing.restage _, hlines, hstats, hlatest⟩
  | selecting | sending | statSelecting | statSending | statApplying | returned =>
    simp [advance, hstage] at hstep

theorem advance_select (hlatest : Latest s) (h : CallInv toLowercase build sha1 writeIpv6 s.history c)
    {now : Int64} {start direction : UInt32}
    (hstep : advance toLowercase build sha1 writeIpv6 s c (.select now start direction) = some (s', c')) :
    Advanced toLowercase build sha1 writeIpv6 s s' c' := by
  have hst := h.stage
  unfold StageInv at hst
  cases hstage : c.stage with
  | selecting cfg version =>
    simp only [advance, hstage] at hstep hst
    obtain ⟨htime, hround, hle, hcfg⟩ := hst
    split at hstep
    · cases hstep
    · rename_i host router hselect
      obtain ⟨rfl, rfl⟩ := Prod.mk.inj (Option.some.inj hstep)
      exact ⟨shares_of_router hlatest router, h.core.restage _, htime.restage _,
        by decide, hround, hle, cfg, now, host, hcfg, rfl⟩
  | statSelecting cfg version =>
    simp only [advance, hstage] at hstep hst
    obtain ⟨hrefreshing, hlines, hstats, hcfg⟩ := hst
    split at hstep
    · cases hstep
    · rename_i host router hselect
      obtain ⟨rfl, rfl⟩ := Prod.mk.inj (Option.some.inj hstep)
      exact ⟨shares_of_router hlatest router, h.core.restage _, hrefreshing.restage _,
        hlines, by decide, hstats, Nat.zero_le _, cfg, now, host, hcfg, rfl⟩
  | loading | sending | statLoading | statSending | statApplying | returned =>
    simp [advance, hstage] at hstep

theorem advance_get (hlatest : Latest s) (h : CallInv toLowercase build sha1 writeIpv6 s.history c)
    {result : GetResult}
    (hstep : advance toLowercase build sha1 writeIpv6 s c (.get result) = some (s', c')) :
    Advanced toLowercase build sha1 writeIpv6 s s' c' := by
  have hst := h.stage
  unfold StageInv at hst
  cases hstage : c.stage with
  | sending get attempt =>
    obtain ⟨hcore, hround⟩ := h.sent hstage
    obtain ⟨hact, hadd, -, -, hrefreshed, -⟩ := sent_frame c get
    simp only [advance, hstage] at hstep hst
    obtain ⟨htime, -, -, hmade⟩ := hst
    have hsent : (c.sent get).round ≠ [] := by simp [hround]
    have htime := htime.sent get
    cases hresult : sendRpcRequest attempt result with
    | none =>
      rw [hresult] at hstep
      obtain ⟨rfl, rfl⟩ := Prod.mk.inj (Option.some.inj hstep)
      refine ⟨shares_of_router hlatest s.router, hcore.restage _, htime.restage _,
        attempt_of_retry hresult, hround, ?_⟩
      rw [hact, hadd, hrefreshed]
      exact hmade
    | some body =>
      rw [hresult] at hstep
      cases body with
      | none =>
        obtain ⟨rfl, rfl⟩ := Prod.mk.inj (Option.some.inj hstep)
        refine ⟨shares_of_router hlatest _, hcore.restage _, htime.restage _, hsent,
          fun r hr => ?_⟩
        cases hr
      | some text =>
        obtain ⟨rfl, rfl⟩ := Prod.mk.inj (Option.some.inj hstep)
        exact ⟨shares_of_router hlatest _, answer_inv hcore htime hsent _ _ _⟩
  | statSending get attempt =>
    simp only [advance, hstage] at hstep hst
    obtain ⟨hrefreshing, hlines, hattempt, hstats, hmade⟩ := hst
    have hcore : CallCore sha1 writeIpv6 s.history
        { c with stats := c.stats ++ [get] } := by
      refine ⟨h.core.retries_le, h.core.retried, fun hzero => ?_, h.core.asked, ?_, h.core.askedAgain,
        h.core.refreshed_lt⟩
      · exact absurd (hrefreshing.retries.symm.trans hzero) (by decide)
      · rw [hstats]
        exact block_replicate hattempt hmade
    have hrefreshing : ({ c with stats := c.stats ++ [get] } : Call).Refreshing :=
      ⟨hrefreshing.retries, hrefreshing.round⟩
    have hasked : c.stats ++ [get] ≠ [] := by simp
    cases hresult : sendRpcRequest attempt result with
    | none =>
      rw [hresult] at hstep
      obtain ⟨rfl, rfl⟩ := Prod.mk.inj (Option.some.inj hstep)
      refine ⟨shares_of_router hlatest s.router, hcore.restage _, hrefreshing.restage _,
        hlines, attempt_of_retry hresult, ?_, hmade⟩
      exact (congrArg (· ++ [get]) hstats).trans List.replicate_succ'.symm
    | some body =>
      rw [hresult] at hstep
      cases body with
      | none =>
        obtain ⟨rfl, rfl⟩ := Prod.mk.inj (Option.some.inj hstep)
        exact ⟨shares_of_router hlatest _, hcore.restage _,
          ⟨fun _ => hasked, by simp [Refreshed, hlines]⟩, hrefreshing.round_eq⟩
      | some text =>
        obtain ⟨rfl, rfl⟩ := Prod.mk.inj (Option.some.inj hstep)
        exact ⟨shares_of_router hlatest _, statAnswer_inv hcore hrefreshing hlines hasked _ _ _⟩
  | loading | selecting | statLoading | statSelecting | statApplying | returned =>
    simp [advance, hstage] at hstep

theorem advance_apply (hlatest : Latest s) (h : CallInv toLowercase build sha1 writeIpv6 s.history c)
    {clock : ℕ → Int64}
    (hstep : advance toLowercase build sha1 writeIpv6 s c (.apply clock) = some (s', c')) :
    Advanced toLowercase build sha1 writeIpv6 s s' c' := by
  have hst := h.stage
  unfold StageInv at hst
  cases hstage : c.stage with
  | statApplying lines =>
    simp only [advance, hstage] at hstep hst
    obtain ⟨hrefreshing, hlines, hstats⟩ := hst
    obtain ⟨config, hconfig, hpair⟩ := Option.map_eq_some_iff.mp hstep
    obtain ⟨rfl, rfl⟩ := Prod.mk.inj hpair
    have hmono := h.mono [config]
    have hbefore := getElem?_history hlatest [config]
    refine ⟨⟨⟨[config], rfl⟩, rfl, latest_replace s config⟩,
      ⟨hmono.core.retries_le, hmono.core.retried, fun hzero => ?_, hmono.core.asked, hmono.core.stats,
        ?_, ?_⟩, ⟨fun _ => hstats, fun lines' hlines' => ?_⟩, ?_⟩
    · exact absurd (hrefreshing.retries.symm.trans hzero) (by decide)
    · rw [hrefreshing.round]
      exact block_nil
    · simp [State.replace]
    · cases hlines.symm.trans hlines'
      exact ⟨Nat.zero_lt_of_lt hlatest.lt, clock, s.current, config, hbefore, by simp [State.replace],
        hconfig⟩
    · exact Call.Refreshing.round_eq ⟨hrefreshing.retries, hrefreshing.round⟩
  | loading | selecting | sending | statLoading | statSelecting | statSending | returned =>
    simp [advance, hstage] at hstep

theorem advance_inv (hlatest : Latest s) (h : CallInv toLowercase build sha1 writeIpv6 s.history c)
    {event : CallEvent} (hstep : advance toLowercase build sha1 writeIpv6 s c event = some (s', c')) :
    Advanced toLowercase build sha1 writeIpv6 s s' c' := by
  cases event with
  | load => exact advance_load hlatest h hstep
  | select now start direction => exact advance_select hlatest h hstep
  | get result => exact advance_get hlatest h hstep
  | apply clock => exact advance_apply hlatest h hstep

end Advances

/-! ## Whole runs -/

section Runs

variable {toLowercase : Text → Text} {build : Build} {sha1 : Bytes → Sha1Digest}
variable {writeIpv6 : Ipv6Addr → Text} {s next : State} {config : ClientConfig} {es : List Event}

structure Inv (toLowercase : Text → Text) (build : Build) (sha1 : Bytes → Sha1Digest)
    (writeIpv6 : Ipv6Addr → Text) (s : State) : Prop where
  latest : Latest s
  calls : ∀ c ∈ s.calls, CallInv toLowercase build sha1 writeIpv6 s.history c

theorem inv_new (config : ClientConfig) : Inv toLowercase build sha1 writeIpv6 (.new config) :=
  ⟨rfl, by simp [State.new]⟩

theorem Inv.replace (h : Inv toLowercase build sha1 writeIpv6 s) (config : ClientConfig) :
    Inv toLowercase build sha1 writeIpv6 (s.replace config) :=
  ⟨latest_replace s config, fun c hc => (h.calls c hc).mono [config]⟩

/-- The other calls see no more of a step than a longer history. -/
theorem Inv.set {s' : State} {c' : Call} (h : Inv toLowercase build sha1 writeIpv6 s)
    (hadv : Advanced toLowercase build sha1 writeIpv6 s s' c') (index : ℕ) :
    Inv toLowercase build sha1 writeIpv6 { s' with calls := s'.calls.set index c' } := by
  obtain ⟨⟨⟨later, hlater⟩, hcalls, hlatest⟩, hinv⟩ := hadv
  refine ⟨hlatest, fun c hc => ?_⟩
  rcases List.mem_or_eq_of_mem_set hc with hold | rfl
  · have hc := (h.calls c (hcalls ▸ hold)).mono later
    rw [← hlater] at hc
    exact hc
  · exact hinv

theorem step_inv (event : Event) (h : Inv toLowercase build sha1 writeIpv6 s)
    (hstep : step toLowercase build sha1 writeIpv6 s event = some next) :
    Inv toLowercase build sha1 writeIpv6 next := by
  cases event with
  | call act add =>
    cases hstep
    refine ⟨h.latest, fun c hc => ?_⟩
    rcases List.mem_append.mp hc with hold | hnew
    · exact h.calls c hold
    · rw [List.mem_singleton.mp hnew]
      exact callInv_new (List.ne_nil_of_length_pos (Nat.zero_lt_of_lt h.latest.lt)) act add
  | advance index event =>
    obtain ⟨c, hc, hmap⟩ := Option.bind_eq_some_iff.mp hstep
    obtain ⟨⟨s', c'⟩, hadvance, rfl⟩ := Option.map_eq_some_iff.mp hmap
    exact h.set (advance_inv h.latest (h.calls c (List.mem_of_getElem? hc)) hadvance) index
  | settings lines clock =>
    obtain ⟨config, -, rfl⟩ := Option.map_eq_some_iff.mp hstep
    exact h.replace config
  | clear =>
    cases hstep
    exact ⟨h.latest, h.calls⟩

theorem inv_of_run (hrun : run (step toLowercase build sha1 writeIpv6) (.new config) es = some s) :
    Inv toLowercase build sha1 writeIpv6 s :=
  run_invariant (fun _ event _ h _ hstep => step_inv event h hstep) (inv_new config)
    (allSteps_true _ _) hrun

end Runs

end HathRs.RpcCalls
