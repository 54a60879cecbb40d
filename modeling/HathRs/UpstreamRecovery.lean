import HathRs.FileIds
import HathRs.PartialFiles

/-!
# Upstream sources and recovery of a proxied download

One file's download has a budget of three requests over a rotating list of sources.
What every request meets is given by a function of its number. A request that yields a
usable response is received into the partial file, and a retryable failure goes on with
the next source until the budget is used up.
-/

namespace HathRs.UpstreamRecovery
open TextParsing Digests FileIds PartialFiles

def maxAttempts : ℕ := 3

structure Response where
  status : ℕ
  contentLength : Option ℕ
  body : Body

/-- What the request with a given number meets before its body. -/
inductive GetOutcome where
  | response (response : Response)
  | network (isTimeout : Bool)
  | deadline

/-- The sources are named by their URL texts, and `requests` lists the sources asked so far. -/
structure Upstream where
  sources : List Text
  hvFile : HVFile
  maxAllowedFilesize : ℕ
  attempts : ℕ
  retained : ℕ
  requests : List Text
  sources_ne : sources ≠ []

namespace Upstream

def new (sources : List Text) (hvFile : HVFile) (maxAllowedFilesize : ℕ) :
    Except ConnectError Upstream :=
  if h : sources = [] then .error .noSources
  else .ok ⟨sources, hvFile, maxAllowedFilesize, 0, 0, [], h⟩

def expectedSize (up : Upstream) : ℕ := up.hvFile.size.toNat

end Upstream

def validateProxyResponse (response : Response) (maxAllowedFilesize expectedSize : ℕ) :
    Except ConnectError Unit :=
  if response.status ≠ 200 then .error (.status response.status)
  else
    match response.contentLength with
    | none => .error .missingLength
    | some length =>
      if maxAllowedFilesize < length then .error (.tooLarge length maxAllowedFilesize)
      else if length ≠ expectedSize then .error (.lengthMismatch expectedSize length)
      else .ok ()

variable (sha1 : Bytes → Sha1Digest) (gets : ℕ → GetOutcome)

/-- `self.sources[self.attempts % self.sources.len()]` -/
def Upstream.nextSource (up : Upstream) : Text :=
  up.sources.get ⟨up.attempts % up.sources.length,
    Nat.mod_lt _ (List.length_pos_of_ne_nil up.sources_ne)⟩

def tryNextSource (up : Upstream) : Upstream × Except ConnectError Response :=
  let asked := { up with attempts := up.attempts + 1, requests := up.requests ++ [up.nextSource] }
  match gets up.attempts with
  | .deadline => (asked, .error .deadline)
  | .network isTimeout => (asked, .error (.network isTimeout))
  | .response response =>
    match validateProxyResponse response up.maxAllowedFilesize up.expectedSize with
    | .error e => (asked, .error e)
    | .ok () => (asked, .ok response)

theorem tryNextSource_attempts (up : Upstream) :
    (tryNextSource gets up).1.attempts = up.attempts + 1 := by
  simp only [tryNextSource]
  split
  · rfl
  · rfl
  · split <;> rfl

def connect (up : Upstream) : Upstream × Except ConnectError Response :=
  match _hnext : tryNextSource gets up with
  | (next, .ok response) => (next, .ok response)
  | (next, .error e) =>
    if _hstop : e.retryable = false ∨ maxAttempts ≤ next.attempts then (next, .error e)
    else connect next
termination_by maxAttempts - up.attempts
decreasing_by
  have hattempts := tryNextSource_attempts gets up
  rw [_hnext] at hattempts
  simp only at hattempts
  have := Nat.not_le.mp fun hle => _hstop (Or.inr hle)
  omega

theorem connect_attempts (up : Upstream) : up.attempts < (connect gets up).1.attempts := by
  fun_induction connect gets up with
  | case1 up next response h =>
    have := tryNextSource_attempts gets up
    rw [h] at this
    simp only at this ⊢
    omega
  | case2 up next e h hstop =>
    have := tryNextSource_attempts gets up
    rw [h] at this
    simp only at this ⊢
    omega
  | case3 up next e h hgo ih =>
    have := tryNextSource_attempts gets up
    rw [h] at this
    simp only at this ⊢
    omega

/-- The end of a download, where a future that was dropped has returned nothing. -/
inductive RecoverResult where
  | ok
  | error (error : DownloadError)
  | cancelled
  deriving DecidableEq

/-- Receives the response and goes on with the next source after a retryable failure.
`flushFails` is what the last flush meets. -/
def recover (flushFails : Bool) (up : Upstream) (pf : PartialFile) (response : Response) :
    Upstream × PartialFile × RecoverResult :=
  match receive sha1 pf response.body with
  | (left, .ok ()) =>
    match finish sha1 left flushFails up.hvFile.hash.text with
    | .ok () => (up, left, .ok)
    | .error e => (up, left, .error e)
  | (left, .error .cancelled) => (up, left, .cancelled)
  | (left, .error (.error e)) =>
    let noted := { up with retained := left.written }
    if _hstop : e.retryable = false ∨ maxAttempts ≤ up.attempts then (noted, left, .error e)
    else
      match _hnext : connect gets noted with
      | (next, .error ce) => (next, left, .error (.connect ce))
      | (next, .ok response) => recover flushFails next left response
termination_by maxAttempts - up.attempts
decreasing_by
  have hattempts := connect_attempts gets noted
  rw [_hnext] at hattempts
  simp only [noted] at hattempts
  have := Nat.not_le.mp fun hle => _hstop (Or.inr hle)
  omega

/-- `Upstream::download`. A future that is dropped at the deadline reports it. -/
def download (openFails flushFails : Bool) (up : Upstream) (response : Response) :
    Upstream × PartialFile × Except DownloadError Unit :=
  let opened := PartialFile.open up.expectedSize
  if openFails then (up, opened, .error .io)
  else
    let (next, left, result) := recover sha1 gets flushFails up opened response
    ({ next with retained := left.written }, left,
      match result with
      | .ok => .ok ()
      | .error e => .error e
      | .cancelled => .error .deadline)

/-! ## What recovery guarantees -/

variable {sha1 gets}

theorem tryNextSource_hvFile (gets : ℕ → GetOutcome) (up : Upstream) :
    (tryNextSource gets up).1.hvFile = up.hvFile := by
  simp only [tryNextSource]
  split
  · rfl
  · rfl
  · split <;> rfl

theorem connect_hvFile (gets : ℕ → GetOutcome) (up : Upstream) :
    (connect gets up).1.hvFile = up.hvFile := by
  fun_induction connect gets up with
  | case1 up next response h =>
    have := tryNextSource_hvFile gets up
    rwa [h] at this
  | case2 up next e h hstop =>
    have := tryNextSource_hvFile gets up
    rwa [h] at this
  | case3 up next e h hgo ih =>
    have := tryNextSource_hvFile gets up
    rw [h] at this
    rw [ih, ← this]

/-- A failure that is retried is no failure of the disk. -/
theorem ne_io_of_retryable {e : DownloadError} (h : e.retryable ≠ false) : e ≠ .io := by
  rintro rfl
  exact h rfl

theorem receive_grows {pf left : PartialFile} {body : Body} {outcome : Except Stop Unit}
    (hv : Valid pf) (h : receive sha1 pf body = (left, outcome)) :
    Torn left ∧ pf.file <+: left.file := by
  obtain ⟨hst, -, -⟩ := receive_spec sha1 hv body
  rw [h] at hst
  obtain ⟨extra, hfile, -⟩ := hst.appended
  exact ⟨hst.torn, extra, hfile.symm⟩

/-- Over all attempts the file only grows, and success means the expected bytes. -/
theorem recover_spec {flushFails : Bool} {up next : Upstream} {pf left : PartialFile}
    {response : Response} {result : RecoverResult} (hv : Valid pf)
    (h : recover sha1 gets flushFails up pf response = (next, left, result)) :
    Torn left ∧ pf.file <+: left.file ∧
      (result = .ok → Valid left ∧ left.written = pf.expectedSize ∧
        sha1Bytes sha1 left.sha1 = up.hvFile.hash.text) := by
  fun_induction recover sha1 gets flushFails up pf response with
  | case1 up pf response left' hrecv hfin =>
    obtain ⟨htorn, hgrows⟩ := receive_grows hv hrecv
    obtain ⟨-, hvalid, hwritten⟩ := receive_spec sha1 hv response.body
    rw [hrecv] at hvalid hwritten
    obtain ⟨-, rfl, rfl⟩ : up = next ∧ left' = left ∧ RecoverResult.ok = result := by simpa using h
    refine ⟨htorn, hgrows, fun _ => ⟨hvalid (Or.inr (Or.inl rfl)), hwritten rfl, ?_⟩⟩
    simp only [finish] at hfin
    split_ifs at hfin with hflush hhash
    exact not_not.mp hhash
  | case2 up pf response left' hrecv e hfin =>
    obtain ⟨-, rfl, rfl⟩ : up = next ∧ left' = left ∧ RecoverResult.error e = result := by
      simpa using h
    exact ⟨(receive_grows hv hrecv).1, (receive_grows hv hrecv).2, by simp⟩
  | case3 up pf response left' hrecv =>
    obtain ⟨-, rfl, rfl⟩ : up = next ∧ left' = left ∧ RecoverResult.cancelled = result := by
      simpa using h
    exact ⟨(receive_grows hv hrecv).1, (receive_grows hv hrecv).2, by simp⟩
  | case4 up pf response left' e hrecv noted hstop =>
    obtain ⟨-, rfl, rfl⟩ : noted = next ∧ left' = left ∧ RecoverResult.error e = result := by
      simpa using h
    exact ⟨(receive_grows hv hrecv).1, (receive_grows hv hrecv).2, by simp⟩
  | case5 up pf response left' e hrecv noted hgo next' ce hconn =>
    obtain ⟨-, rfl, rfl⟩ : next' = next ∧ left' = left ∧
        RecoverResult.error (.connect ce) = result := by simpa using h
    exact ⟨(receive_grows hv hrecv).1, (receive_grows hv hrecv).2, by simp⟩
  | case6 up pf response left' e hrecv noted hgo next' response' hconn ih =>
    -- The failure was retryable, so no write was disturbed and the file is still valid.
    obtain ⟨-, hgrows⟩ := receive_grows hv hrecv
    obtain ⟨hst, hvalid, -⟩ := receive_spec sha1 hv response.body
    rw [hrecv] at hst hvalid
    have hio := ne_io_of_retryable fun hfalse => hgo (Or.inl hfalse)
    obtain ⟨htorn, hgrows', hok⟩ := ih (hvalid (Or.inr (Or.inr ⟨e, rfl, hio⟩))) h
    have hhv := connect_hvFile gets noted
    rw [hconn] at hhv
    refine ⟨htorn, hgrows.trans hgrows', fun hresult => ?_⟩
    obtain ⟨hleft, hwritten, hhash⟩ := hok hresult
    exact ⟨hleft, hwritten.trans hst.expected, hhash.trans (by rw [hhv])⟩

/-- Whatever the upstream sources send, the temporary file only grows by appending, is what
was hashed and counted, and never runs ahead of a failed comparison with the retained
prefix. After any number of responses, `next` is one more, cut off anywhere; only a write
that the disk disturbs leaves bytes behind the counted ones. A recovery that succeeds has
exactly the expected bytes. -/
theorem append_only_recovery (sha1 : Bytes → Sha1Digest) :
    (∀ (expectedSize : ℕ) (bodies : List Body) (next : Body), (∀ body ∈ bodies, body.WritesDone) →
      Valid (receiveAll sha1 (.open expectedSize) bodies) ∧
      Torn (receive sha1 (receiveAll sha1 (.open expectedSize) bodies) next).1 ∧
      (next.WritesDone →
        Valid (receive sha1 (receiveAll sha1 (.open expectedSize) bodies) next).1) ∧
      ∃ extra, (receive sha1 (receiveAll sha1 (.open expectedSize) bodies) next).1.file =
          (receiveAll sha1 (.open expectedSize) bodies).file ++ extra ∧
        (extra ≠ [] →
          (receiveAll sha1 (.open expectedSize) bodies).written ≤ next.data.length ∧
          sha1 (next.data.take (receiveAll sha1 (.open expectedSize) bodies).written) =
            sha1 (receiveAll sha1 (.open expectedSize) bodies).file)) ∧
    ∀ (gets : ℕ → GetOutcome) (flushFails : Bool) (up next : Upstream) (response : Response)
      (left : PartialFile),
      recover sha1 gets flushFails up (.open up.expectedSize) response = (next, left, .ok) →
      left.file.length = up.expectedSize ∧ sha1Bytes sha1 left.file = up.hvFile.hash.text := by
  refine ⟨fun expectedSize bodies next hb => ?_, fun gets flushFails up next response left h => ?_⟩
  · obtain ⟨hv, -⟩ := receiveAll_valid sha1 (valid_open expectedSize) hb
    obtain ⟨hst, hvalid, -⟩ := receive_spec sha1 hv next
    exact ⟨hv, hst.torn, fun hdone => hvalid (Or.inl hdone), hst.appended⟩
  · obtain ⟨-, -, hok⟩ := recover_spec (valid_open up.expectedSize) h
    obtain ⟨hv, hwritten, hhash⟩ := hok rfl
    exact ⟨hv.written_eq.symm.trans hwritten, hv.sha1_eq ▸ hhash⟩

/-- A response of seven bytes, one of three, and one of ten that replays the first. -/
theorem append_only_recovery_replays :
    Valid (receiveAll (fun bs => Vector.replicate 20 bs.sum) (.open 10)
      [⟨[⟨[48, 49, 50, 51, 52, 53, 54], .done⟩], .eof⟩, ⟨[⟨[48, 49, 50], .done⟩], .eof⟩]) ∧
    (receive (fun bs => Vector.replicate 20 bs.sum) (receiveAll
      (fun bs => Vector.replicate 20 bs.sum) (.open 10)
      [⟨[⟨[48, 49, 50, 51, 52, 53, 54], .done⟩], .eof⟩, ⟨[⟨[48, 49, 50], .done⟩], .eof⟩])
      ⟨[⟨[48, 49, 50, 51, 52], .done⟩, ⟨[53, 54, 55, 56, 57], .done⟩], .eof⟩).1.file =
      [48, 49, 50, 51, 52, 53, 54, 55, 56, 57] :=
  ⟨((append_only_recovery (fun bs => Vector.replicate 20 bs.sum)).1 10
    [⟨[⟨[48, 49, 50, 51, 52, 53, 54], .done⟩], .eof⟩, ⟨[⟨[48, 49, 50], .done⟩], .eof⟩]
    ⟨[], .eof⟩ (by simp [Body.WritesDone])).1, by decide⟩

end HathRs.UpstreamRecovery
