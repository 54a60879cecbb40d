import HathRs.UpstreamRecovery

/-!
# The budget of requests

The requests of one file are sent by two loops: the one that looks for a usable response, and
the one that goes on after a body has failed, which enters the first. The trace of a transfer
lists what both do in their order. It has at most three requests, to one source after the
other, and none of them follows an error that ends the transfer.
-/

namespace HathRs.AttemptBudget
open Digests FileIds PartialFiles UpstreamRecovery

/-! ## Traces -/

/-- What happens in a transfer. `refused` is a temporary file that cannot be created or a task that
is not taken. -/
inductive Event where
  | connect (attempts : ℕ)
  | get (source : Text)
  | connectFailed (error : ConnectError)
  | failed (error : DownloadError)
  | refused

/-- An error that ends the transfer. -/
def Event.final : Event → Bool
  | .connectFailed error => !error.retryable
  | .failed error => !error.retryable
  | .refused => true
  | _ => false

def getsOf (trace : List Event) : List Text :=
  trace.filterMap fun
    | .get source => some source
    | _ => none

/-- What meets the transfer besides its requests. `late` tells that the deadline passes when all is
received. -/
structure TransferEnv where
  tempFails : Bool
  taskRefused : Bool
  openFails : Bool
  flushFails : Bool
  late : Bool

section Traces

variable (sha1 : Bytes → Sha1Digest) (gets : ℕ → GetOutcome)

def connectTrace (up : Upstream) : List Event :=
  match _hnext : tryNextSource gets up with
  | (_, .ok _) => [.get up.nextSource]
  | (next, .error e) =>
    .get up.nextSource :: .connectFailed e ::
      if _hstop : e.retryable = false ∨ maxAttempts ≤ next.attempts then [] else connectTrace next
termination_by maxAttempts - up.attempts
decreasing_by
  have hattempts := tryNextSource_attempts gets up
  rw [_hnext] at hattempts
  simp only at hattempts
  have := Nat.not_le.mp fun hle => _hstop (Or.inr hle)
  omega

def recoverTrace (flushFails : Bool) (up : Upstream) (pf : PartialFile) (response : Response) :
    List Event :=
  match receive sha1 pf response.body with
  | (left, .ok ()) =>
    match finish sha1 left flushFails up.hvFile.hash.text with
    | .ok () => []
    | .error e => [.failed e]
  | (_, .error .cancelled) => [.failed .deadline]
  | (left, .error (.error e)) =>
    let noted := { up with retained := left.written }
    .failed e ::
      if _hstop : e.retryable = false ∨ maxAttempts ≤ up.attempts then []
      else .connect up.attempts :: (connectTrace gets noted ++
        match _hnext : connect gets noted with
        | (_, .error _) => []
        | (next, .ok response) => recoverTrace flushFails next left response)
termination_by maxAttempts - up.attempts
decreasing_by
  have hattempts := connect_attempts gets noted
  rw [_hnext] at hattempts
  simp only [noted] at hattempts
  have := Nat.not_le.mp fun hle => _hstop (Or.inr hle)
  omega

structure Transfer where
  upstream : Upstream
  trace : List Event
  succeeded : Bool

/-- `ProxyDownloader::start` and the transfer of its task. -/
def transfer (env : TransferEnv) (up : Upstream) : Transfer :=
  let connected := .connect up.attempts :: connectTrace gets up
  match connect gets up with
  | (next, .error _) => ⟨next, connected, false⟩
  | (next, .ok response) =>
    if env.tempFails || env.taskRefused then ⟨next, connected ++ [.refused], false⟩
    else if env.openFails then ⟨next, connected ++ [.failed .io], false⟩
    else
      let opened := PartialFile.open next.expectedSize
      let received := connected ++ recoverTrace sha1 gets env.flushFails next opened response
      match download sha1 gets env.openFails env.flushFails next response with
      | (last, _, .ok ()) =>
        if env.late then ⟨last, received ++ [.failed .deadline], false⟩ else ⟨last, received, true⟩
      | (last, _, .error _) => ⟨last, received, false⟩

end Traces

/-! ## What a trace satisfies -/

/-- No request follows a final error. -/
def Settled : List Event → Prop
  | [] => True
  | event :: rest => (event.final = true → getsOf rest = []) ∧ Settled rest

/-- The trace takes the number of requests from `start` to `stop`, to the sources in turn. -/
structure Follows (sources : List Text) (start stop : ℕ) (trace : List Event) : Prop where
  length : start + (getsOf trace).length = stop
  source : ∀ (k : ℕ) (source : Text), (getsOf trace)[k]? = some source →
    sources[(start + k) % sources.length]? = some source
  bound : stop ≤ maxAttempts
  entered : ∀ attempts, .connect attempts ∈ trace → attempts < maxAttempts
  settled : Settled trace

section Follows

variable {sources : List Text} {a b c : ℕ} {trace rest : List Event} {event : Event}

theorem getsOf_append (trace rest : List Event) : getsOf (trace ++ rest) = getsOf trace ++ getsOf rest :=
  List.filterMap_append

theorem settled_append (h : Settled rest) (hopen : ∀ event ∈ trace, event.final = false) :
    Settled (trace ++ rest) := by
  induction trace with
  | nil => exact h
  | cons event trace ih =>
    refine ⟨fun hfinal => ?_, ih fun e he => hopen e (List.mem_cons_of_mem _ he)⟩
    rw [hopen event List.mem_cons_self] at hfinal
    cases hfinal

/-- Behind a final error there is no request. -/
theorem Settled.split (h : Settled trace) {front back : List Event}
    (htrace : trace = front ++ event :: back) (hfinal : event.final = true) : getsOf back = [] := by
  induction front generalizing trace with
  | nil =>
    subst htrace
    exact h.1 hfinal
  | cons first front ih =>
    subst htrace
    exact ih h.2 rfl

theorem Follows.append (h : Follows sources a b trace) (hopen : ∀ event ∈ trace, event.final = false)
    (hrest : Follows sources b c rest) : Follows sources a c (trace ++ rest) where
  length := by
    have := h.length
    have := hrest.length
    rw [getsOf_append, List.length_append]
    omega
  source := by
    intro k source hk
    rw [getsOf_append] at hk
    rcases Nat.lt_or_ge k (getsOf trace).length with hlt | hge
    · rw [List.getElem?_append_left hlt] at hk
      exact h.source k source hk
    · rw [List.getElem?_append_right hge] at hk
      have hsource := hrest.source _ source hk
      have hk' : b + (k - (getsOf trace).length) = a + k := by
        have := h.length
        omega
      rwa [hk'] at hsource
  bound := hrest.bound
  entered := by
    intro attempts hin
    rcases List.mem_append.mp hin with hin | hin
    · exact h.entered attempts hin
    · exact hrest.entered attempts hin
  settled := settled_append hrest.settled hopen

theorem follows_nil (h : a ≤ maxAttempts) : Follows sources a a [] :=
  ⟨rfl, nofun, h, nofun, trivial⟩

/-- An event that is no request. -/
theorem follows_singleton (h : a ≤ maxAttempts) (hget : getsOf [event] = [])
    (hconnect : ∀ attempts, event = .connect attempts → attempts < maxAttempts) :
    Follows sources a a [event] where
  length := by
    rw [hget]
    rfl
  source := by
    rw [hget]
    exact nofun
  bound := h
  entered := fun attempts hin => hconnect attempts (List.mem_singleton.mp hin).symm
  settled := ⟨fun _ => rfl, trivial⟩

theorem follows_get (up : Upstream) (h : up.attempts < maxAttempts) :
    Follows up.sources up.attempts (up.attempts + 1) [.get up.nextSource] where
  length := rfl
  source := by
    intro k source hk
    match k with
    | 0 =>
      cases hk
      exact List.getElem?_eq_getElem _
    | k + 1 => cases hk
  bound := h
  entered := by
    intro attempts hin
    cases List.mem_singleton.mp hin
  settled := ⟨fun _ => rfl, trivial⟩

end Follows

/-! ## The two loops -/

section Loops

variable {sha1 : Bytes → Sha1Digest} {gets : ℕ → GetOutcome} {up next : Upstream}

theorem tryNextSource_frame (gets : ℕ → GetOutcome) (up : Upstream) :
    (tryNextSource gets up).1.sources = up.sources ∧
      (tryNextSource gets up).1.requests = up.requests ++ [up.nextSource] := by
  simp only [tryNextSource]
  split
  · exact ⟨rfl, rfl⟩
  · exact ⟨rfl, rfl⟩
  · split
    · exact ⟨rfl, rfl⟩
    · exact ⟨rfl, rfl⟩

theorem connectTrace_ok {response : Response} (h : tryNextSource gets up = (next, .ok response)) :
    connectTrace gets up = [.get up.nextSource] := by
  rw [connectTrace]
  split
  · rfl
  · rename_i heq
    cases h.symm.trans heq

theorem connectTrace_stop {e : ConnectError} (h : tryNextSource gets up = (next, .error e))
    (hstop : e.retryable = false ∨ maxAttempts ≤ next.attempts) :
    connectTrace gets up = [.get up.nextSource, .connectFailed e] := by
  rw [connectTrace]
  split
  · rename_i heq
    cases h.symm.trans heq
  · rename_i heq
    cases h.symm.trans heq
    rw [dif_pos hstop]

theorem connectTrace_go {e : ConnectError} (h : tryNextSource gets up = (next, .error e))
    (hgo : ¬(e.retryable = false ∨ maxAttempts ≤ next.attempts)) :
    connectTrace gets up = [.get up.nextSource, .connectFailed e] ++ connectTrace gets next := by
  rw [connectTrace]
  split
  · rename_i heq
    cases h.symm.trans heq
  · rename_i heq
    cases h.symm.trans heq
    rw [dif_neg hgo]
    rfl

/-- What a loop has to leave: its requests in the trace, an open trace if it succeeds, and a reason
if it fails. -/
structure Leaves (up next : Upstream) (trace : List Event) (ok : Bool) : Prop where
  sources : next.sources = up.sources
  requests : next.requests = up.requests ++ getsOf trace
  follows : Follows up.sources up.attempts next.attempts trace
  succeeds : ok = true → ∀ event ∈ trace, event.final = false
  fails : ok = false → (∃ event ∈ trace, event.final = true) ∨ next.attempts = maxAttempts

theorem Leaves.append {mid : Upstream} {trace rest : List Event} {ok : Bool}
    (h : Leaves up mid trace true) (hrest : Leaves mid next rest ok) :
    Leaves up next (trace ++ rest) ok where
  sources := hrest.sources.trans h.sources
  requests := by
    rw [hrest.requests, h.requests, getsOf_append, List.append_assoc]
  follows := by
    have hfollows := hrest.follows
    rw [h.sources] at hfollows
    exact h.follows.append (h.succeeds rfl) hfollows
  succeeds := by
    intro hok event hin
    rcases List.mem_append.mp hin with hin | hin
    · exact h.succeeds rfl event hin
    · exact hrest.succeeds hok event hin
  fails := by
    intro hfail
    refine (hrest.fails hfail).imp_left ?_
    rintro ⟨event, hin, hfinal⟩
    exact ⟨event, List.mem_append_right _ hin, hfinal⟩

/-- How much is retained does not matter here. -/
theorem Leaves.retained {trace : List Event} {ok : Bool} (h : Leaves up next trace ok) (n : ℕ) :
    Leaves up { next with retained := n } trace ok :=
  ⟨h.sources, h.requests, h.follows, h.succeeds, h.fails⟩

/-- Nothing but an event that is no request. -/
theorem leaves_event {event : Event} (h : up.attempts ≤ maxAttempts) (hget : getsOf [event] = [])
    (hconnect : ∀ attempts, event = .connect attempts → attempts < maxAttempts) {ok : Bool}
    (hok : ok = true → event.final = false)
    (hfail : ok = false → event.final = true ∨ up.attempts = maxAttempts) :
    Leaves up up [event] ok where
  sources := rfl
  requests := by
    rw [hget, List.append_nil]
  follows := follows_singleton h hget hconnect
  succeeds := by
    intro htrue event' hin
    rw [List.mem_singleton.mp hin]
    exact hok htrue
  fails := fun hfalse => (hfail hfalse).imp_left fun hfinal => ⟨event, List.mem_cons_self, hfinal⟩

theorem follows_failed_get {e : ConnectError} (h : up.attempts < maxAttempts) :
    Follows up.sources up.attempts (up.attempts + 1) [.get up.nextSource, .connectFailed e] :=
  (follows_get up h).append (by simp [Event.final]) (follows_singleton h rfl (by simp))

theorem connect_leaves (gets : ℕ → GetOutcome) (up : Upstream) (h : up.attempts < maxAttempts) :
    Leaves up (connect gets up).1 (connectTrace gets up) (connect gets up).2.isOk := by
  fun_induction connect gets up with
  | case1 up next response hnext =>
    obtain ⟨hsources, hrequests⟩ := tryNextSource_frame gets up
    have hattempts := tryNextSource_attempts gets up
    rw [hnext] at hsources hrequests hattempts
    rw [connectTrace_ok hnext]
    refine ⟨hsources, hrequests, ?_, by simp [Event.final], by simp [Except.isOk, Except.toBool]⟩
    simp only at hattempts
    rw [hattempts]
    exact follows_get up h
  | case2 up next e hnext hstop =>
    obtain ⟨hsources, hrequests⟩ := tryNextSource_frame gets up
    have hattempts := tryNextSource_attempts gets up
    rw [hnext] at hsources hrequests hattempts
    simp only at hattempts
    rw [connectTrace_stop hnext hstop]
    refine ⟨hsources, hrequests, hattempts ▸ follows_failed_get h,
      by simp [Except.isOk, Except.toBool], fun _ => ?_⟩
    rcases hstop with hfinal | hused
    · exact .inl ⟨.connectFailed e, by simp, by rw [Event.final, hfinal]; rfl⟩
    · exact .inr (le_antisymm (hattempts ▸ h) hused)
  | case3 up next e hnext hgo ih =>
    obtain ⟨hsources, hrequests⟩ := tryNextSource_frame gets up
    have hattempts := tryNextSource_attempts gets up
    rw [hnext] at hsources hrequests hattempts
    simp only at hsources hrequests hattempts
    obtain ⟨hretry, hleft⟩ := not_or.mp hgo
    have hfirst : Leaves up next [.get up.nextSource, .connectFailed e] true :=
      ⟨hsources, hrequests, hattempts ▸ follows_failed_get h, by simpa [Event.final] using hretry,
        by simp⟩
    rw [connectTrace_go hnext hgo]
    exact hfirst.append (ih (Nat.not_le.mp hleft))

theorem finish_final {pf : PartialFile} {flushFails : Bool} {hash : Text} {e : DownloadError}
    (h : finish sha1 pf flushFails hash = .error e) : e.retryable = false := by
  simp only [finish] at h
  split_ifs at h
  · cases h
    rfl
  · cases h
    rfl

/-- A failure that is retried enters the other loop with a request left. -/
theorem leaves_entered {e : DownloadError} (hgo : ¬(e.retryable = false ∨ maxAttempts ≤ up.attempts))
    (n : ℕ) : Leaves up { up with retained := n } [.failed e, .connect up.attempts] true := by
  obtain ⟨hretry, hleft⟩ := not_or.mp hgo
  have hlt := Nat.not_le.mp hleft
  have hfailed : Leaves up up [.failed e] true :=
    leaves_event hlt.le rfl (by simp) (fun _ => by simpa [Event.final] using hretry) nofun
  have hconnect : Leaves up up [.connect up.attempts] true :=
    leaves_event hlt.le rfl (by simpa using hlt) (fun _ => rfl) nofun
  exact (hfailed.append hconnect).retained n

theorem recoverTrace_failed {flushFails : Bool} {pf left : PartialFile} {response : Response}
    {e : DownloadError} {ce : ConnectError}
    (hrecv : receive sha1 pf response.body = (left, .error (.error e)))
    (hgo : ¬(e.retryable = false ∨ maxAttempts ≤ up.attempts))
    (hconn : connect gets { up with retained := left.written } = (next, .error ce)) :
    recoverTrace sha1 gets flushFails up pf response =
      [.failed e, .connect up.attempts] ++ connectTrace gets { up with retained := left.written } := by
  rw [recoverTrace, hrecv]
  simp only [dif_neg hgo]
  split
  · rw [List.append_nil]
    rfl
  · rename_i heq
    cases hconn.symm.trans heq

theorem recoverTrace_connected {flushFails : Bool} {pf left : PartialFile} {response response' : Response}
    {e : DownloadError} (hrecv : receive sha1 pf response.body = (left, .error (.error e)))
    (hgo : ¬(e.retryable = false ∨ maxAttempts ≤ up.attempts))
    (hconn : connect gets { up with retained := left.written } = (next, .ok response')) :
    recoverTrace sha1 gets flushFails up pf response =
      [.failed e, .connect up.attempts] ++ (connectTrace gets { up with retained := left.written } ++
        recoverTrace sha1 gets flushFails next left response') := by
  rw [recoverTrace, hrecv]
  simp only [dif_neg hgo]
  split
  · rename_i heq
    cases hconn.symm.trans heq
  · rename_i heq
    cases hconn.symm.trans heq
    rfl

theorem recover_leaves (sha1 : Bytes → Sha1Digest) (gets : ℕ → GetOutcome) (flushFails : Bool)
    (pf : PartialFile) (response : Response) (h : up.attempts ≤ maxAttempts) :
    Leaves up (recover sha1 gets flushFails up pf response).1
      (recoverTrace sha1 gets flushFails up pf response)
      (decide ((recover sha1 gets flushFails up pf response).2.2 = .ok)) := by
  fun_induction recover sha1 gets flushFails up pf response with
  | case1 up pf response left hrecv hfin =>
    rw [recoverTrace, hrecv]
    simp only [hfin]
    exact ⟨rfl, (List.append_nil _).symm, follows_nil h, by simp, by simp⟩
  | case2 up pf response left hrecv e hfin =>
    rw [recoverTrace, hrecv]
    simp only [hfin]
    exact leaves_event h rfl (by simp) (by simp) fun _ => .inl (by rw [Event.final, finish_final hfin]; rfl)
  | case3 up pf response left hrecv =>
    rw [recoverTrace, hrecv]
    exact leaves_event h rfl (by simp) (by simp) fun _ => .inl rfl
  | case4 up pf response left e hrecv noted hstop =>
    rw [recoverTrace, hrecv]
    simp only [dif_pos hstop]
    refine (leaves_event h rfl (by simp) (by simp) fun _ => ?_).retained left.written
    rcases hstop with hfinal | hused
    · exact .inl (by rw [Event.final, hfinal]; rfl)
    · exact .inr (le_antisymm h hused)
  | case5 up pf response left e hrecv noted hgo next ce hconn =>
    have hrest := connect_leaves gets noted (Nat.not_le.mp (not_or.mp hgo).2)
    rw [hconn] at hrest
    rw [recoverTrace_failed hrecv hgo hconn]
    exact (leaves_entered hgo left.written).append hrest
  | case6 up pf response left e hrecv noted hgo next response' hconn ih =>
    have hrest := connect_leaves gets noted (Nat.not_le.mp (not_or.mp hgo).2)
    rw [hconn] at hrest
    rw [recoverTrace_connected hrecv hgo hconn]
    exact (leaves_entered hgo left.written).append (hrest.append (ih hrest.follows.bound))

theorem download_leaves (sha1 : Bytes → Sha1Digest) (gets : ℕ → GetOutcome) (flushFails : Bool)
    (up : Upstream) (response : Response) (h : up.attempts ≤ maxAttempts) :
    Leaves up (download sha1 gets false flushFails up response).1
      (recoverTrace sha1 gets flushFails up (.open up.expectedSize) response)
      (download sha1 gets false flushFails up response).2.2.isOk := by
  have hrecover := recover_leaves sha1 gets flushFails (.open up.expectedSize) response h
  simp only [download, Bool.false_eq_true, if_false]
  cases hresult : recover sha1 gets flushFails up (.open up.expectedSize) response with
  | mk next rest =>
    obtain ⟨left, result⟩ := rest
    rw [hresult] at hrecover
    cases result with
    | ok => exact hrecover.retained left.written
    | error e => exact hrecover.retained left.written
    | cancelled => exact hrecover.retained left.written

theorem leaves_transfer (sha1 : Bytes → Sha1Digest) (gets : ℕ → GetOutcome) (env : TransferEnv)
    (up : Upstream) (h : up.attempts < maxAttempts) :
    Leaves up (transfer sha1 gets env up).upstream (transfer sha1 gets env up).trace
      (transfer sha1 gets env up).succeeded := by
  have hentered : Leaves up up [.connect up.attempts] true :=
    leaves_event h.le rfl (by simpa using h) (fun _ => rfl) nofun
  have hconnect := hentered.append (connect_leaves gets up h)
  simp only [transfer]
  cases hconn : connect gets up with
  | mk next result =>
    rw [hconn] at hconnect
    cases result with
    | error e => exact hconnect
    | ok response =>
      have hbound := hconnect.follows.bound
      simp only
      by_cases hrefused : (env.tempFails || env.taskRefused) = true
      · rw [if_pos hrefused]
        exact hconnect.append (leaves_event hbound rfl (by simp) nofun fun _ => .inl rfl)
      rw [if_neg hrefused]
      by_cases hopen : env.openFails = true
      · rw [if_pos hopen]
        exact hconnect.append (leaves_event hbound rfl (by simp) nofun fun _ => .inl rfl)
      rw [if_neg hopen, Bool.eq_false_iff.mpr hopen]
      have hdownload := hconnect.append (download_leaves sha1 gets env.flushFails next response hbound)
      cases hresult : download sha1 gets false env.flushFails next response with
      | mk last rest =>
        obtain ⟨left, result⟩ := rest
        rw [hresult] at hdownload
        cases result with
        | error e => exact hdownload
        | ok done =>
          by_cases hlate : env.late = true
          · simp only [if_pos hlate]
            exact hdownload.append
              (leaves_event hdownload.follows.bound rfl (by simp) nofun fun _ => .inl rfl)
          · simp only [if_neg hlate]
            exact hdownload

end Loops

/-- The requests of one file are at most three, to the sources in turn; none follows a final error,
the loop that sends them is entered with a request left, and a transfer that fails met a final
error or has sent all three. -/
theorem attempt_budget_shared (sha1 : Bytes → Sha1Digest) (gets : ℕ → GetOutcome) (env : TransferEnv)
    (sources : List Text) (hvFile : HVFile) (maxAllowedFilesize : ℕ) (up : Upstream)
    (hup : Upstream.new sources hvFile maxAllowedFilesize = .ok up) (t : Transfer)
    (ht : transfer sha1 gets env up = t) :
    t.upstream.requests = getsOf t.trace ∧ (getsOf t.trace).length ≤ 3 ∧
    (∀ (k : ℕ) (source : Text), (getsOf t.trace)[k]? = some source →
      sources[k % sources.length]? = some source) ∧
    (∀ (front : List Event) (event : Event) (back : List Event), t.trace = front ++ event :: back →
      event.final = true → getsOf back = []) ∧
    (∀ attempts, .connect attempts ∈ t.trace → attempts < 3) ∧
    (t.succeeded = false → (∃ event ∈ t.trace, event.final = true) ∨ (getsOf t.trace).length = 3) := by
  subst ht
  rw [Upstream.new] at hup
  split_ifs at hup
  cases hup
  have hleaves := leaves_transfer sha1 gets env ⟨sources, hvFile, maxAllowedFilesize, 0, 0, [], ‹_›⟩
    (Nat.zero_lt_succ 2)
  obtain ⟨-, hrequests, hfollows, -, hfails⟩ := hleaves
  have hlength := hfollows.length
  rw [Nat.zero_add] at hlength
  refine ⟨hrequests, hlength ▸ hfollows.bound, ?_, fun front event back => hfollows.settled.split,
    hfollows.entered, ?_⟩
  · intro k source hk
    have hsource := hfollows.source k source hk
    rwa [Nat.zero_add] at hsource
  · intro hfail
    rw [hlength]
    exact hfails hfail

/-- Two sources of which the first answers with a redirect, and the second breaks off. -/
def brokenSources : List Text := ["http://a/file".toList, "http://b/file".toList]

def brokenGets (k : ℕ) : GetOutcome :=
  if k % 2 = 0 then .response ⟨302, none, ⟨[], .eof⟩⟩
  else .response ⟨200, some sampleFile.size.toNat, ⟨[], .eof⟩⟩

def unusedDigest (_ : Bytes) : Sha1Digest := Vector.replicate 20 0

theorem brokenSources_within_budget : ∃ up, Upstream.new brokenSources sampleFile 1000 = .ok up ∧
    (getsOf (transfer unusedDigest brokenGets ⟨false, false, false, false, false⟩ up).trace).length ≤ 3 :=
  ⟨_, rfl, (attempt_budget_shared unusedDigest brokenGets ⟨false, false, false, false, false⟩ brokenSources
    sampleFile 1000 _ rfl _ rfl).2.1⟩

end HathRs.AttemptBudget
