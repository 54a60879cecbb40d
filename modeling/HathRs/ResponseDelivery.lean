import HathRs.QuotaPayments
import HathRs.RequestHandling

/-!
# From a response to its last byte

A response is given its headers, which are paid and counted, and its body is streamed under
the access log. The body may be polled and dropped at any time, and its file and its channel
may be anything at every step. Of all that, three numbers must come out right: the bytes in
the statistics, the packets of the session, and the one line in the log.
-/

namespace HathRs.ResponseDelivery
open TextParsing Digests IpAddresses RequestSignatures StreamingBodies QuotaPayments TransitionRuns
open RequestHandling MachineArithmetic FileIds

/-! ## Headers -/

/-- The names are in lower case, and a name has one value. -/
abbrev HeaderMap := List (String × Text)

def HeaderMap.insert (headers : HeaderMap) (name : String) (value : Text) : HeaderMap :=
  headers.filter (fun header => header.1 ≠ name) ++ [(name, value)]

def HeaderMap.get (headers : HeaderMap) (name : String) : Option Text :=
  (headers.find? fun header => header.1 = name).map Prod.snd

def cacheControlValue : Text := "public, max-age=31536000".toList

def serverValue : Text := "Genetic Lifeform and Distributed Open Server 1.6.5".toList

/-- The headers of a response, at the given date. -/
def finalHeaders (spec : ResponseSpec) (date : Text) : HeaderMap :=
  let headers := HeaderMap.insert spec.headers "content-type" spec.contentType
  let headers := headers.insert "connection" "close".toList
  let headers := headers.insert "date" date
  let headers := headers.insert "server" serverValue
  if 0 < spec.declaredLength then
    (headers.insert "cache-control" cacheControlValue).insert "content-length"
      (decimal spec.declaredLength)
  else headers

/-- `canonicalReason` is the phrase that the library has for a status. -/
def headerBytes (canonicalReason : ℕ → Option Text) (status : ℕ) (headers : HeaderMap) : ℕ :=
  let reasonLen := ((canonicalReason status).map fun reason => (utf8 reason).length).getD 0
  let statusLineLen := "HTTP/1.1 ".length + (decimal status).length + 1 + reasonLen + 2
  let headersLen := (headers.map fun header =>
    (utf8 header.1.toList).length + 2 + (utf8 header.2).length + 2).sum
  statusLineLen + headersLen + 2

/-! ## The policy -/

/-- What is known of a connection and of the moment: whether the peer is local, whether there is
a bandwidth monitor, the date, and the pool of random bytes that would be drawn. -/
structure Moment where
  isLocal : Bool
  monitored : Bool
  date : Text
  pool : Bytes

/-- The monitor of a request: the service takes none for a local peer. -/
def Moment.bwm (m : Moment) : Bool := !m.isLocal && m.monitored

def Moment.trafficStats (m : Moment) : Bool := !m.isLocal

structure Finalized where
  status : ℕ
  headers : HeaderMap
  body : StreamingBody
  /-- The quotas that were waited for. -/
  quotas : List ℕ
  bytesSent : ℕ

/-- `ResponsePolicy::finalize` -/
def finalize (canonicalReason : ℕ → Option Text) (m : Moment) (spec : ResponseSpec) : Finalized :=
  let headers := finalHeaders spec m.date
  let size := headerBytes canonicalReason spec.status headers
  { status := spec.status
    headers := headers
    body := spec.body.stream m.pool m.bwm m.trafficStats
    quotas := if m.bwm then [size] else []
    bytesSent := if m.trafficStats then size else 0 }

/-! ## The access log -/

/-- `{:<n}` -/
def padRight (width : ℕ) (t : Text) : Text := t ++ List.replicate (width - t.length) ' '

def accessLogPrefix (connId : UInt32) (clientIp : IpAddr) : Text :=
  '{' :: (decimal connId.toNat ++ padRight 17 ('/' :: (clientIp.display ++ ['}'])) ++ [' '])

def accessLogRequestInfo (front : Text) (statusCode : ℕ) (contentLength : Option ℕ)
    (headOnly : Bool) : Text :=
  if headOnly then front ++ "Code=".toList ++ decimal statusCode ++ [' ']
  else
    front ++ "Code=".toList ++ decimal statusCode ++ " Bytes=".toList ++
      padRight 8 (decimal (contentLength.getD 0)) ++ [' ']

inductive AccessLogCompletion where
  | finished (offset : ℕ)
  | incomplete (reason : String) (offset totalSize : ℕ)
  | aborted (offset totalSize : ℕ)
  deriving DecidableEq

namespace AccessLogCompletion

def label : AccessLogCompletion → String
  | finished _ => "Finished"
  | incomplete .. => "Incomplete"
  | aborted .. => "Aborted"

def offset : AccessLogCompletion → ℕ
  | finished offset | incomplete _ offset _ | aborted offset _ => offset

end AccessLogCompletion

def reasonText : BodyIncompleteReason → String
  | .unknown => "unknown"
  | .fileEndedEarly => "file_ended_early"
  | .fileReadError => "file_read_error"
  | .proxyEndedEarly => "proxy_ended_early"
  | .proxyTimeout => "proxy_timeout"
  | .proxyReadError => "proxy_read_error"

def completionFromBody (b : StreamingBody) : AccessLogCompletion :=
  match b.completion with
  | .complete => .finished b.offset
  | .incomplete reason => .incomplete (reasonText reason) b.offset b.totalSize
  | .running => .incomplete "body_returned_eof_without_completion" b.offset b.totalSize

/-- What `Drop` makes of a body that is not at its end. -/
def completionOnDrop (b : StreamingBody) : AccessLogCompletion :=
  if b.totalSize ≤ b.offset then .finished b.offset else .aborted b.offset b.totalSize

/-- `packets` counts the calls of `mark_packet_sent`, and `lines` are the lines in the log. -/
structure AccessLogBody where
  inner : StreamingBody
  info : Option Text
  session : Bool
  packets : ℕ
  lines : List (Text × AccessLogCompletion)

namespace AccessLogBody

def new (inner : StreamingBody) (info : Text) (session : Bool) : AccessLogBody :=
  ⟨inner, some info, session, 0, []⟩

def newWithoutCompletion (inner : StreamingBody) : AccessLogBody := ⟨inner, none, false, 0, []⟩

/-- The information is taken, so that there is one line. -/
def logCompletion (b : AccessLogBody) (completion : AccessLogCompletion) : AccessLogBody :=
  match b.info with
  | some info => { b with info := none, lines := b.lines ++ [(info, completion)] }
  | none => b

/-- What `poll_frame` does with what the inner body has come to: the end of the stream, a frame,
or neither. -/
def passOn (b : AccessLogBody) (next : StreamingBody) : AccessLogBody :=
  if next.pc = .ended then { b with inner := next }.logCompletion (completionFromBody next)
  else if next.effects.frames = b.inner.effects.frames then { b with inner := next }
  else if next.effects.frames.getLastD [] ≠ [] ∧ b.session = true then
    { b with inner := next, packets := b.packets + 1 }
  else { b with inner := next }

/-- The wrapper is dropped before the body in it. -/
def step (sha1 : Bytes → Sha1Digest) (b : AccessLogBody) (turn : Turn) : Option AccessLogBody :=
  (QuotaPayments.step sha1 b.inner turn).map fun next =>
    if turn.event = .drop then { b.logCompletion (completionOnDrop b.inner) with inner := next }
    else b.passOn next

end AccessLogBody

def isHeadMethod (method : Text) : Bool := method = "HEAD".toList

/-- The line for a request, from what was finalized. -/
def requestInfo (connId : UInt32) (clientIp : IpAddr) (f : Finalized) (headOnly : Bool) : Text :=
  accessLogRequestInfo (accessLogPrefix connId clientIp) f.status
    (((f.headers.get "content-length").bind parseU64).map UInt64.toNat) headOnly

/-- `AccessLogService::call`, once the service has answered. The method is compared as it is. -/
def wrap (method : Text) (connId : UInt32) (clientIp : IpAddr) (session : Bool) (f : Finalized) :
    AccessLogBody :=
  if isHeadMethod method then .newWithoutCompletion f.body
  else .new f.body (requestInfo connId clientIp f false) session

/-! ## What a body is at every step -/

def isOver (pc : Pc) : Bool := pc = .ended || pc = .dropped

/-- On the way from the check for the end to a frame. -/
def isBefore : Pc → Bool
  | .gate | .sample _ | .pollWait | .throttle | .produce => true
  | _ => false

/-- What the source has to give. -/
def Supplied (source : DataSource) (totalSize : ℕ) : Prop :=
  match source with
  | .static data => data.length = totalSize
  | .random randomBytes => tcpPacketSize ≤ randomBytes.length
  | .file _ | .proxy => True

/-- How the body ended. -/
inductive Ended (b : StreamingBody) : Prop where
  | complete (hcompletion : b.completion = .complete) (hoffset : b.totalSize ≤ b.offset)
  | incomplete {reason : BodyIncompleteReason} (hcompletion : b.completion = .incomplete reason)
      (hoffset : b.offset < b.totalSize)

structure BodyInv (totalSize : ℕ) (trafficStats : Bool) (b : StreamingBody) : Prop where
  supplied : Supplied b.source totalSize
  total : b.totalSize = totalSize
  traffic : b.trafficStats = trafficStats
  offset_eq : b.effects.frames.flatten.length = b.offset
  offset_le : b.offset ≤ totalSize
  bytesSent : b.effects.bytesSent = if trafficStats then b.offset else 0
  frames_ne : ∀ frame ∈ b.effects.frames, frame ≠ []
  before : isBefore b.pc = true → b.offset < totalSize
  running : isOver b.pc = false → b.completion = .running
  ended : b.pc = .ended → Ended b

section Bodies

variable {sha1 : Bytes → Sha1Digest} {totalSize : ℕ} {trafficStats : Bool} {b next : StreamingBody}

/-- Finishing leaves alone what was sent, and says once how the body ended. -/
theorem finishWith_rest (sha1 : Bytes → Sha1Digest) (b : StreamingBody)
    (reason : Option BodyIncompleteReason) :
    (b.finishWith sha1 reason).source = b.source ∧
      (b.finishWith sha1 reason).trafficStats = b.trafficStats ∧
      (b.finishWith sha1 reason).effects.bytesSent = b.effects.bytesSent ∧
      (b.finishWith sha1 reason).completion =
        if b.completion = .running then
          if b.totalSize ≤ b.offset then .complete else .incomplete (reason.getD .unknown)
        else b.completion := by
  cases hsource : b.source with
  | static data =>
    simp [StreamingBody.finishWith, StreamingBody.finishSource, StreamingBody.isProxy, hsource]
  | random randomBytes =>
    simp [StreamingBody.finishWith, StreamingBody.finishSource, StreamingBody.isProxy, hsource]
  | file expectedHash =>
    rw [StreamingBody.finishWith_file sha1 hsource]
    exact ⟨hsource, rfl, rfl, rfl⟩
  | proxy =>
    rw [StreamingBody.finishWith_proxy sha1 hsource]
    exact ⟨hsource, rfl, rfl, rfl⟩

/-- Only what is waited for and where the body stands has changed. -/
structure Moved (b next : StreamingBody) : Prop where
  source : next.source = b.source
  totalSize : next.totalSize = b.totalSize
  trafficStats : next.trafficStats = b.trafficStats
  offset : next.offset = b.offset
  completion : next.completion = b.completion
  bytesSent : next.effects.bytesSent = b.effects.bytesSent
  frames : next.effects.frames = b.effects.frames

theorem BodyInv.move (h : BodyInv totalSize trafficStats b) (hover : isOver b.pc = false)
    (hmoved : Moved b next) (hnext : isOver next.pc = false)
    (hbefore : isBefore next.pc = true → isBefore b.pc = true ∨ b.offset < b.totalSize) :
    BodyInv totalSize trafficStats next where
  supplied := hmoved.source ▸ h.supplied
  total := hmoved.totalSize.trans h.total
  traffic := hmoved.trafficStats.trans h.traffic
  offset_eq := by rw [hmoved.frames, hmoved.offset, h.offset_eq]
  offset_le := hmoved.offset ▸ h.offset_le
  bytesSent := by rw [hmoved.bytesSent, hmoved.offset, h.bytesSent]
  frames_ne := hmoved.frames ▸ h.frames_ne
  before hpc := by
    rw [hmoved.offset]
    rcases hbefore hpc with hold | hleft
    · exact h.before hold
    · exact h.total ▸ hleft
  running _ := hmoved.completion.trans (h.running hover)
  ended hpc := by
    rw [hpc] at hnext
    cases hnext

theorem BodyInv.finish (h : BodyInv totalSize trafficStats b) (reason : Option BodyIncompleteReason)
    {pc : Pc} (hpc : pc = .ended ∧ isOver b.pc = false ∨ pc = .dropped) :
    BodyInv totalSize trafficStats { b.finishWith sha1 reason with pc := pc } := by
  obtain ⟨hsource, htraffic, hsent, hcompletion⟩ := finishWith_rest sha1 b reason
  obtain ⟨-, hoffset, htotal, -, -, hframes, -⟩ := b.finishWith_frame sha1 reason
  have hplace : isBefore pc = false ∧ isOver pc = true := by
    rcases hpc with ⟨rfl, -⟩ | rfl <;> exact ⟨rfl, rfl⟩
  refine ⟨hsource ▸ h.supplied, htotal.trans h.total, htraffic.trans h.traffic, ?_, hoffset ▸ h.offset_le,
    ?_, hframes ▸ h.frames_ne, ?_, ?_, ?_⟩
  · exact (congrArg (fun frames => frames.flatten.length) hframes).trans (h.offset_eq.trans hoffset.symm)
  · exact hsent.trans (hoffset ▸ h.bytesSent)
  · intro hbefore
    rw [hplace.1] at hbefore
    cases hbefore
  · intro hover
    rw [hplace.2] at hover
    cases hover
  · rintro rfl
    have hrunning := h.running (hpc.elim And.right nofun)
    rw [if_pos hrunning] at hcompletion
    split_ifs at hcompletion with hdone
    · exact .complete hcompletion (htotal.trans_le (hdone.trans_eq hoffset.symm))
    · refine .incomplete hcompletion ?_
      exact hoffset.trans_lt ((Nat.not_le.mp hdone).trans_eq htotal.symm)

theorem BodyInv.emit (h : BodyInv totalSize trafficStats b) (hpc : b.pc = .produce) {chunk : Bytes}
    (hne : chunk ≠ []) (hle : chunk.length ≤ b.totalSize - b.offset) (fileBuf digest : Bytes) :
    BodyInv totalSize trafficStats ({ b with fileBuf := fileBuf, sha1 := digest }.emit chunk) where
  supplied := h.supplied
  total := h.total
  traffic := h.traffic
  offset_eq := by
    simp only [StreamingBody.emit, List.flatten_append, List.flatten_cons, List.flatten_nil,
      List.append_nil, List.length_append, h.offset_eq]
  offset_le := by
    have hleft := h.before (by rw [hpc]; rfl)
    have htotal := h.total
    simp only [StreamingBody.emit]
    omega
  bytesSent := by
    have hsent := h.bytesSent
    simp only [StreamingBody.emit, h.traffic]
    cases trafficStats with
    | true => simpa using hsent
    | false => simpa using hsent
  frames_ne := by
    intro frame hframe
    rcases List.mem_append.mp hframe with hold | hnew
    · exact h.frames_ne frame hold
    · exact List.mem_singleton.mp hnew ▸ hne
  before := nofun
  running _ := h.running (by rw [hpc]; rfl)
  ended := nofun

theorem need_pos (h : BodyInv totalSize trafficStats b) (hpc : b.pc = .produce) : 0 < b.need := by
  have hleft := h.before (by rw [hpc]; rfl)
  have htotal := h.total
  simp only [StreamingBody.need, tcpPacketSize]
  omega

theorem need_le (b : StreamingBody) : b.need ≤ b.totalSize - b.offset := min_le_right _ _

theorem BodyInv.produceBuffered (h : BodyInv totalSize trafficStats b) (hpc : b.pc = .produce) :
    BodyInv totalSize trafficStats (b.produceBuffered sha1) := by
  have hover : isOver b.pc = false := by
    rw [hpc]
    rfl
  have hneed := need_pos h hpc
  simp only [StreamingBody.produceBuffered]
  split_ifs with hempty
  · exact h.finish _ (.inl ⟨rfl, hover⟩)
  · have hne : b.fileBuf.take b.need ≠ [] := by
      intro hnil
      rcases List.take_eq_nil_iff.mp hnil with hzero | hnone
      · omega
      · exact hempty hnone
    have hle : (b.fileBuf.take b.need).length ≤ b.totalSize - b.offset :=
      (List.length_take_le _ _).trans (need_le b)
    split
    · exact h.emit hpc hne hle _ _
    · exact h.emit hpc hne hle _ _

theorem BodyInv.produceFromFile (h : BodyInv totalSize trafficStats b) (hpc : b.pc = .produce)
    {file : Bytes} {event : BodyEvent} (hstep : b.produceFromFile sha1 file event = some next) :
    BodyInv totalSize trafficStats next := by
  have hover : isOver b.pc = false := by
    rw [hpc]
    rfl
  cases event with
  | proceed =>
    simp only [StreamingBody.produceFromFile, Option.ite_none_left_eq_some, Option.some.injEq] at hstep
    obtain ⟨-, rfl⟩ := hstep
    exact h.produceBuffered hpc
  | read count =>
    simp only [StreamingBody.produceFromFile, Option.ite_none_right_eq_some] at hstep
    obtain ⟨-, hstep⟩ := hstep
    split_ifs at hstep
    · cases hstep
      exact h.move hover ⟨rfl, rfl, rfl, rfl, rfl, rfl, rfl⟩ hover .inl
    · cases hstep
      exact h.produceBuffered hpc
  | readError =>
    simp only [StreamingBody.produceFromFile, Option.ite_none_right_eq_some, Option.some.injEq] at hstep
    obtain ⟨-, rfl⟩ := hstep
    exact h.finish _ (.inl ⟨rfl, hover⟩)
  | poll | quota | random | drop => cases hstep

/-- A frame of a body that is in memory. -/
theorem BodyInv.emitStatic (h : BodyInv totalSize trafficStats b) (hpc : b.pc = .produce) {data : Bytes}
    (hsource : b.source = .static data) {chunkSize : ℕ} (hsize : 0 < chunkSize) :
    BodyInv totalSize trafficStats
      (b.emit ((data.take (min (b.offset + chunkSize) b.totalSize)).drop b.offset)) := by
  have hleft := h.before (by rw [hpc]; rfl)
  have htotal := h.total
  have hdata : data.length = totalSize := by
    have hsupplied := h.supplied
    rwa [hsource] at hsupplied
  have hlength : ((data.take (min (b.offset + chunkSize) b.totalSize)).drop b.offset).length =
      min (b.offset + chunkSize) b.totalSize - b.offset := by
    rw [List.length_drop, List.length_take]
    omega
  refine h.emit hpc (List.ne_nil_of_length_pos ?_) ?_ b.fileBuf b.sha1
  · rw [hlength]
    omega
  · rw [hlength]
    omega

/-- A frame out of the pool: there is enough in the pool wherever the frame begins. -/
theorem BodyInv.emitRandom (h : BodyInv totalSize trafficStats b) (hpc : b.pc = .produce)
    {randomBytes : Bytes} (hsource : b.source = .random randomBytes) {start : ℕ}
    (hstart : start ≤ randomBytes.length - b.need) :
    BodyInv totalSize trafficStats (b.emit ((randomBytes.drop start).take b.need)) := by
  have hneed := need_pos h hpc
  have hpool : tcpPacketSize ≤ randomBytes.length := by
    have hsupplied := h.supplied
    rwa [hsource] at hsupplied
  have hpacket : b.need ≤ tcpPacketSize := min_le_left _ _
  have hlength : ((randomBytes.drop start).take b.need).length = b.need := by
    rw [List.length_take, List.length_drop]
    omega
  refine h.emit hpc (List.ne_nil_of_length_pos ?_) ?_ b.fileBuf b.sha1
  · rwa [hlength]
  · rw [hlength]
    exact need_le b

theorem BodyInv.produce (h : BodyInv totalSize trafficStats b) (hpc : b.pc = .produce) {file : Bytes}
    {event : BodyEvent} (hstep : b.produce sha1 file event = some next) :
    BodyInv totalSize trafficStats next := by
  cases hsource : b.source with
  | static data =>
    simp only [StreamingBody.produce, hsource, Option.ite_none_right_eq_some, Option.some.injEq] at hstep
    obtain ⟨-, rfl⟩ := hstep
    refine h.emitStatic hpc hsource ?_
    have hleft := h.before (by rw [hpc]; rfl)
    have htotal := h.total
    split_ifs
    · decide
    · omega
  | random randomBytes =>
    simp only [StreamingBody.produce, hsource] at hstep
    split at hstep
    · cases hstep
      refine h.emitRandom hpc hsource ?_
      split_ifs
      · omega
      · exact Nat.lt_succ_iff.mp (Nat.mod_lt _ (Nat.succ_pos _))
    · cases hstep
  | file | proxy =>
    simp only [StreamingBody.produce, hsource] at hstep
    exact h.produceFromFile hpc hstep

theorem BodyInv.sampleStep (h : BodyInv totalSize trafficStats b) {gone : Bool}
    (hpc : b.pc = .sample gone) (watch : Watch) :
    BodyInv totalSize trafficStats (b.sampleStep sha1 gone watch) := by
  have hover : isOver b.pc = false := by
    rw [hpc]
    rfl
  have hbefore : isBefore b.pc = true := by
    rw [hpc]
    rfl
  have hseen : BodyInv totalSize trafficStats { b with seen := watch.version } :=
    h.move hover ⟨rfl, rfl, rfl, rfl, rfl, rfl, rfl⟩ hover .inl
  simp only [StreamingBody.sampleStep]
  split_ifs
  · exact h.move hover ⟨rfl, rfl, rfl, rfl, rfl, rfl, rfl⟩ rfl fun _ => .inl hbefore
  · split
    · exact hseen.finish _ (.inl ⟨rfl, hover⟩)
    · exact h.move hover ⟨rfl, rfl, rfl, rfl, rfl, rfl, rfl⟩ rfl fun _ => .inl hbefore

theorem BodyInv.advancePoll (h : BodyInv totalSize trafficStats b) {turn : Turn}
    (hstep : b.advancePoll sha1 turn.file turn.watch turn.event = some next) :
    BodyInv totalSize trafficStats next := by
  have hkept : ∀ {pc : Pc}, b.pc = pc → isOver pc = false → isOver b.pc = false := by
    rintro pc rfl hpc
    exact hpc
  cases StreamingBody.advances_of_advancePoll hstep with
  | granted hpc | refused hpc | unasked hpc | woken hpc | waits hpc | asks hpc =>
    exact h.move (hkept hpc rfl) ⟨rfl, rfl, rfl, rfl, rfl, rfl, rfl⟩ rfl nofun
  | done hpc => exact h.finish _ (.inl ⟨rfl, hkept hpc rfl⟩)
  | gated hpc hleft | ungated hpc hleft =>
    exact h.move (hkept hpc rfl) ⟨rfl, rfl, rfl, rfl, rfl, rfl, rfl⟩ rfl fun _ => .inr hleft
  | looked hpc | passes hpc =>
    refine h.move (hkept hpc rfl) ⟨rfl, rfl, rfl, rfl, rfl, rfl, rfl⟩ rfl fun _ => .inl ?_
    rw [hpc]
    rfl
  | sampled hpc => exact h.sampleStep hpc _
  | produces hpc hproduce => exact h.produce hpc hproduce

theorem BodyInv.step (h : BodyInv totalSize trafficStats b) {turn : Turn}
    (hstep : QuotaPayments.step sha1 b turn = some next) : BodyInv totalSize trafficStats next := by
  rcases step_cases hstep with ⟨hpc, rfl⟩ | rfl | hadvance
  · refine h.move ?_ ⟨rfl, rfl, rfl, rfl, rfl, rfl, rfl⟩ rfl nofun
    rw [hpc]
    rfl
  · exact h.finish _ (.inr rfl)
  · exact h.advancePoll hadvance

/-- What producing comes to: a frame is returned, or nothing was sent and the poll goes on or is at
the end of the body. -/
def Returns (b next : StreamingBody) : Prop :=
  next.pc = .idle ∨ next.effects.frames = b.effects.frames ∧ (next.pc = .produce ∨ next.pc = .ended)

theorem returns_produceBuffered : Returns b (b.produceBuffered sha1) := by
  simp only [StreamingBody.produceBuffered]
  split_ifs
  · exact .inr ⟨frames_finishWith _ _, .inr rfl⟩
  · exact .inl rfl

theorem returns_produceFromFile {file : Bytes} {event : BodyEvent} (hpc : b.pc = .produce)
    (hstep : b.produceFromFile sha1 file event = some next) : Returns b next := by
  cases event with
  | proceed =>
    simp only [StreamingBody.produceFromFile, Option.ite_none_left_eq_some, Option.some.injEq] at hstep
    obtain ⟨-, rfl⟩ := hstep
    exact returns_produceBuffered
  | read count =>
    simp only [StreamingBody.produceFromFile, Option.ite_none_right_eq_some] at hstep
    obtain ⟨-, hstep⟩ := hstep
    split_ifs at hstep
    · cases hstep
      exact .inr ⟨rfl, .inl hpc⟩
    · cases hstep
      exact returns_produceBuffered
  | readError =>
    simp only [StreamingBody.produceFromFile, Option.ite_none_right_eq_some, Option.some.injEq] at hstep
    obtain ⟨-, rfl⟩ := hstep
    exact .inr ⟨frames_finishWith _ _, .inr rfl⟩
  | poll | quota | random | drop => cases hstep

theorem returns_produce {file : Bytes} {event : BodyEvent} (hpc : b.pc = .produce)
    (hstep : b.produce sha1 file event = some next) : Returns b next := by
  cases hsource : b.source with
  | static data =>
    simp only [StreamingBody.produce, hsource, Option.ite_none_right_eq_some, Option.some.injEq] at hstep
    obtain ⟨-, rfl⟩ := hstep
    exact .inl rfl
  | random randomBytes =>
    simp only [StreamingBody.produce, hsource] at hstep
    split at hstep
    · cases hstep
      exact .inl rfl
    · cases hstep
  | file | proxy =>
    simp only [StreamingBody.produce, hsource] at hstep
    exact returns_produceFromFile hpc hstep

/-- A poll that is under way is not over, ends with a frame or with the end of the body, and drops
nothing. -/
theorem advancePoll_returns {turn : Turn}
    (hstep : b.advancePoll sha1 turn.file turn.watch turn.event = some next) :
    isOver b.pc = false ∧ next.pc ≠ .dropped ∧
      (next.pc = .ended → next.effects.frames = b.effects.frames) := by
  have hkept : ∀ {pc : Pc}, b.pc = pc → isOver pc = false → isOver b.pc = false := by
    rintro pc rfl hpc
    exact hpc
  cases StreamingBody.advances_of_advancePoll hstep with
  | granted hpc | refused hpc | unasked hpc | gated hpc | ungated hpc | looked hpc | woken hpc
  | waits hpc | asks hpc | passes hpc => exact ⟨hkept hpc rfl, by simp, by simp⟩
  | done hpc => exact ⟨hkept hpc rfl, by simp, fun _ => frames_finishWith _ _⟩
  | sampled hpc =>
    refine ⟨hkept hpc rfl, ?_, fun _ => (advancePoll_cases (by simp [hpc]) hstep).1⟩
    simp only [StreamingBody.sampleStep]
    split_ifs
    · simp
    · split <;> simp
  | produces hpc hproduce =>
    refine ⟨hkept hpc rfl, ?_, ?_⟩
    · rcases returns_produce hpc hproduce with hnext | ⟨-, hnext | hnext⟩ <;> simp [hnext]
    · intro hended
      rcases returns_produce hpc hproduce with hnext | ⟨hframes, -⟩
      · rw [hended] at hnext
        cases hnext
      · exact hframes

/-- The same for every step but a drop. -/
theorem step_returns {turn : Turn} (hstep : QuotaPayments.step sha1 b turn = some next)
    (hevent : turn.event ≠ .drop) :
    isOver b.pc = false ∧ next.pc ≠ .dropped ∧
      (next.pc = .ended → next.effects.frames = b.effects.frames) := by
  unfold QuotaPayments.step at hstep
  cases hturn : turn.event with
  | poll =>
    rw [hturn] at hstep
    simp only [StreamingBody.step, Option.ite_none_right_eq_some, Option.some.injEq] at hstep
    obtain ⟨hpc, rfl⟩ := hstep
    exact ⟨by rw [hpc]; rfl, by simp, by simp⟩
  | drop => exact absurd hturn hevent
  | proceed | quota | read | readError | random =>
    have hadvance : b.advancePoll sha1 turn.file turn.watch turn.event = some next := by
      rw [hturn] at hstep ⊢
      exact hstep
    exact advancePoll_returns hadvance

/-- The pool of a speed test has 8192 bytes. -/
theorem bodyInv_stream {pool : Bytes} (hpool : pool.length = 8192) (flowControl : Bool)
    (body : BodySpec) :
    BodyInv body.size trafficStats (body.stream pool flowControl trafficStats) := by
  have hfresh : ∀ {b : StreamingBody}, Supplied b.source body.size → b.totalSize = body.size →
      b.trafficStats = trafficStats → b.effects = .none → b.offset = 0 → b.completion = .running →
      b.pc = .idle → BodyInv body.size trafficStats b := by
    intro b hsupplied htotal htraffic heffects hoffset hcompletion hpc
    refine ⟨hsupplied, htotal, htraffic, ?_, ?_, ?_, ?_, ?_, fun _ => hcompletion, ?_⟩
    · rw [heffects, hoffset]
      rfl
    · rw [hoffset]
      exact Nat.zero_le _
    · rw [heffects, hoffset, ite_self]
      rfl
    · rw [heffects]
      exact nofun
    · rw [hpc]
      exact nofun
    · rw [hpc]
      exact nofun
  cases body with
  | static data => exact hfresh rfl rfl rfl rfl rfl rfl rfl
  | random size =>
    refine hfresh ?_ rfl rfl rfl rfl rfl rfl
    show tcpPacketSize ≤ pool.length
    rw [hpool]
    decide
  | file params => exact hfresh trivial rfl rfl rfl rfl rfl rfl
  | proxy size => exact hfresh trivial rfl rfl rfl rfl rfl rfl

end Bodies

/-! ## What the log says -/

/-- The lines that a request with this information has: one that is due to how the body ended. -/
def Logged (info : Option Text) (b : StreamingBody) (lines : List (Text × AccessLogCompletion)) : Prop :=
  match info with
  | none => lines = []
  | some info => ∃ completion, lines = [(info, completion)] ∧ completion.offset = b.offset ∧
      (completion.label = "Finished" ↔ b.offset = b.totalSize) ∧
      ∀ reason offset totalSize, completion = .incomplete reason offset totalSize →
        totalSize = b.totalSize ∧ ∃ r, reason = reasonText r

structure Inv (totalSize : ℕ) (trafficStats session : Bool) (info : Option Text) (b : AccessLogBody) :
    Prop where
  body : BodyInv totalSize trafficStats b.inner
  session_eq : b.session = session
  packets : b.packets = if session then b.inner.effects.frames.length else 0
  before : isOver b.inner.pc = false → b.info = info ∧ b.lines = []
  after : isOver b.inner.pc = true → b.info = none ∧ Logged info b.inner b.lines

section Logs

variable {sha1 : Bytes → Sha1Digest} {totalSize : ℕ} {trafficStats session : Bool}
variable {info : Option Text} {b b' : AccessLogBody} {next : StreamingBody}

@[simp] theorem logCompletion_inner (completion : AccessLogCompletion) :
    (b.logCompletion completion).inner = b.inner := by
  unfold AccessLogBody.logCompletion
  split <;> rfl

@[simp] theorem logCompletion_session (completion : AccessLogCompletion) :
    (b.logCompletion completion).session = b.session := by
  unfold AccessLogBody.logCompletion
  split <;> rfl

@[simp] theorem logCompletion_packets (completion : AccessLogCompletion) :
    (b.logCompletion completion).packets = b.packets := by
  unfold AccessLogBody.logCompletion
  split <;> rfl

@[simp] theorem logCompletion_info (completion : AccessLogCompletion) :
    (b.logCompletion completion).info = none := by
  unfold AccessLogBody.logCompletion
  split
  · rfl
  · assumption

/-- The first completion of a body is logged. -/
theorem logged_of_first {completion : AccessLogCompletion} (hinfo : b.info = info)
    (hlines : b.lines = []) (hoffset : completion.offset = next.offset)
    (hlabel : completion.label = "Finished" ↔ next.offset = next.totalSize)
    (hreason : ∀ reason offset totalSize, completion = .incomplete reason offset totalSize →
      totalSize = next.totalSize ∧ ∃ r, reason = reasonText r) :
    Logged info next (b.logCompletion completion).lines := by
  subst hinfo
  unfold AccessLogBody.logCompletion
  cases hb : b.info with
  | none => exact hlines
  | some info => exact ⟨completion, by simp [hlines], hoffset, hlabel, hreason⟩

theorem logged_of_end (h : BodyInv totalSize trafficStats next) (hpc : next.pc = .ended)
    (hinfo : b.info = info) (hlines : b.lines = []) :
    Logged info next (b.logCompletion (completionFromBody next)).lines := by
  have htotal := h.total
  have hle := h.offset_le
  cases h.ended hpc with
  | complete hcompletion hoffset =>
    have hcompleted : completionFromBody next = .finished next.offset := by
      simp only [completionFromBody, hcompletion]
    rw [hcompleted]
    exact logged_of_first hinfo hlines rfl (iff_of_true rfl (by omega)) nofun
  | @incomplete reason hcompletion hoffset =>
    have hcompleted : completionFromBody next =
        .incomplete (reasonText reason) next.offset next.totalSize := by
      simp only [completionFromBody, hcompletion]
    rw [hcompleted]
    refine logged_of_first hinfo hlines rfl
      (iff_of_false (by simp [AccessLogCompletion.label]) (by omega)) ?_
    rintro _ _ _ ⟨⟩
    exact ⟨rfl, reason, rfl⟩

theorem logged_of_drop (h : BodyInv totalSize trafficStats b.inner) (hinfo : b.info = info)
    (hlines : b.lines = []) :
    Logged info b.inner (b.logCompletion (completionOnDrop b.inner)).lines := by
  have htotal := h.total
  have hle := h.offset_le
  unfold completionOnDrop
  split_ifs with hdone
  · exact logged_of_first hinfo hlines rfl (iff_of_true rfl (by omega)) nofun
  · exact logged_of_first hinfo hlines rfl
      (iff_of_false (by simp [AccessLogCompletion.label]) (by omega)) nofun

/-- A second completion is not logged. -/
theorem logCompletion_of_none (hinfo : b.info = none) (completion : AccessLogCompletion) :
    b.logCompletion completion = b := by
  simp only [AccessLogBody.logCompletion, hinfo]

theorem isOver_eq_false {pc : Pc} (hended : pc ≠ .ended) (hdropped : pc ≠ .dropped) :
    isOver pc = false := by
  simp [isOver, hended, hdropped]

/-- A poll that is not at the end of the body writes nothing. -/
theorem Inv.goOn (h : Inv totalSize trafficStats session info b) (hover : isOver b.inner.pc = false)
    (hbody : BodyInv totalSize trafficStats next) (hnext : isOver next.pc = false) {packets : ℕ}
    (hpackets : packets = if session then next.effects.frames.length else 0) :
    Inv totalSize trafficStats session info { b with inner := next, packets := packets } where
  body := hbody
  session_eq := h.session_eq
  packets := hpackets
  before _ := h.before hover
  after hafter := by
    rw [hnext] at hafter
    cases hafter

theorem Inv.passOn (h : Inv totalSize trafficStats session info b) {turn : Turn}
    (hstep : QuotaPayments.step sha1 b.inner turn = some next) (hevent : turn.event ≠ .drop) :
    Inv totalSize trafficStats session info (b.passOn next) := by
  obtain ⟨hover, hdropped, hended⟩ := step_returns hstep hevent
  obtain ⟨hinfo, hlines⟩ := h.before hover
  have hbody := h.body.step hstep
  have hemits : next.effects.frames ≠ b.inner.effects.frames → ∃ frame, frame ≠ [] ∧
      next.effects.frames = b.inner.effects.frames ++ [frame] := by
    intro hframes
    obtain ⟨-, frame, hframe, -⟩ := emits_of_frames_ne hstep hframes
    exact ⟨frame, hbody.frames_ne frame (by simp [hframe]), hframe⟩
  unfold AccessLogBody.passOn
  split_ifs with hpc hframes hframe
  · refine ⟨by simpa using hbody, by simpa using h.session_eq, ?_, ?_, fun _ => ⟨by simp, ?_⟩⟩
    · simpa [hended hpc] using h.packets
    · intro hrunning
      rw [logCompletion_inner, hpc] at hrunning
      cases hrunning
    · rw [logCompletion_inner]
      exact logged_of_end hbody hpc hinfo hlines
  · exact h.goOn hover hbody (isOver_eq_false hpc hdropped) (hframes ▸ h.packets)
  · refine h.goOn hover hbody (isOver_eq_false hpc hdropped) ?_
    obtain ⟨frame, -, hnew⟩ := hemits hframes
    have hsession : session = true := h.session_eq ▸ hframe.2
    rw [h.packets, hnew, hsession, if_pos rfl, if_pos rfl, List.length_append]
    rfl
  · refine h.goOn hover hbody (isOver_eq_false hpc hdropped) ?_
    obtain ⟨frame, hne, hnew⟩ := hemits hframes
    have hsession : session = false := by
      rw [hnew, List.getLastD_concat, h.session_eq] at hframe
      simpa [hne] using hframe
    rw [h.packets, hsession]
    rfl

theorem Inv.drop (h : Inv totalSize trafficStats session info b) {turn : Turn}
    (hstep : QuotaPayments.step sha1 b.inner turn = some next) (hevent : turn.event = .drop) :
    Inv totalSize trafficStats session info
      { b.logCompletion (completionOnDrop b.inner) with inner := next } := by
  have hbody := h.body.step hstep
  simp only [QuotaPayments.step, hevent, StreamingBody.step, Option.ite_none_right_eq_some,
    Option.some.injEq] at hstep
  obtain ⟨-, rfl⟩ := hstep
  obtain ⟨-, hoffset, htotal, -, -, hframes, -⟩ := b.inner.finishWith_frame sha1 none
  refine ⟨hbody, by simpa using h.session_eq, ?_, by simp [isOver], fun _ => ⟨by simp, ?_⟩⟩
  · simpa [hframes] using h.packets
  · have hlogged : Logged info b.inner (b.logCompletion (completionOnDrop b.inner)).lines := by
      cases hover : isOver b.inner.pc with
      | false => exact logged_of_drop h.body (h.before hover).1 (h.before hover).2
      | true =>
        rw [logCompletion_of_none (h.after hover).1]
        exact (h.after hover).2
    unfold Logged at hlogged ⊢
    dsimp only
    rwa [hoffset, htotal]

theorem Inv.step (h : Inv totalSize trafficStats session info b) {turn : Turn}
    (hstep : b.step sha1 turn = some b') : Inv totalSize trafficStats session info b' := by
  obtain ⟨next, hnext, rfl⟩ := Option.map_eq_some_iff.mp hstep
  split_ifs with hevent
  · exact h.drop hnext hevent
  · exact h.passOn hnext hevent

end Logs

theorem inv_of_run {sha1 : Bytes → Sha1Digest} {totalSize : ℕ} {trafficStats session : Bool}
    {info : Option Text} {b last : AccessLogBody} (h : Inv totalSize trafficStats session info b)
    {turns : List Turn} (hrun : run (AccessLogBody.step sha1) b turns = some last) :
    Inv totalSize trafficStats session info last :=
  run_invariant (fun _ _ _ hinv _ hstep => hinv.step hstep) h (allSteps_true _ _) hrun

/-- A body that the log has not touched yet. -/
theorem inv_wrap {canonicalReason : ℕ → Option Text} {m : Moment} (hpool : m.pool.length = 8192)
    (spec : ResponseSpec) (method : Text) (connId : UInt32) (clientIp : IpAddr) (session : Bool) :
    Inv spec.body.size (!m.isLocal) (session && !isHeadMethod method)
      (if isHeadMethod method then none
        else some (requestInfo connId clientIp (finalize canonicalReason m spec) false))
      (wrap method connId clientIp session (finalize canonicalReason m spec)) := by
  have hbody : BodyInv spec.body.size (!m.isLocal) (finalize canonicalReason m spec).body :=
    bodyInv_stream hpool m.bwm spec.body
  have hfresh : (finalize canonicalReason m spec).body.effects.frames = [] ∧
      (finalize canonicalReason m spec).body.pc = .idle := by
    unfold finalize
    cases spec.body with
    | static | random | file | proxy => exact ⟨rfl, rfl⟩
  have hover : isOver (finalize canonicalReason m spec).body.pc = false := by
    rw [hfresh.2]
    rfl
  unfold wrap
  cases hmethod : isHeadMethod method with
  | true =>
    refine ⟨hbody, (Bool.and_false session).symm, ?_, fun _ => ⟨rfl, rfl⟩, fun hafter => ?_⟩
    · rw [Bool.not_true, Bool.and_false]
      rfl
    · exact absurd (hover.symm.trans hafter) (by decide)
  | false =>
    refine ⟨hbody, (Bool.and_true session).symm, ?_, fun _ => ⟨rfl, rfl⟩, fun hafter => ?_⟩
    · have hzero : (finalize canonicalReason m spec).body.effects.frames.length = 0 := by
        rw [hfresh.1]
        rfl
      simp [AccessLogBody.new, hzero]
    · exact absurd (hover.symm.trans hafter) (by decide)

/-! ## The length that is declared -/

/-- A response that declares the length of its own body. -/
def Measured (h : Handled) : Prop := ∀ r, h.response = some r → r.declaredLength = r.body.size

section Lengths

variable {config : RequestConfig} {a : Answers}

theorem measured_answer {r : ResponseSpec} (h : r.declaredLength = r.body.size) : Measured (answer r) :=
  fun _ hr => Option.some.inj hr ▸ h

theorem Measured.after {h : Handled} (hm : Measured h) (effects : List Effect) :
    Measured (h.after effects) := hm

theorem Measured.final {h : Handled} (hm : Measured h) :
    h.final.declaredLength = h.final.body.size := by
  unfold Handled.final
  cases hr : h.response with
  | none => rfl
  | some r => exact hm r hr

theorem measured_fileResponse (hv : HVFile) (verify : Bool) :
    Measured (fileResponse a hv false verify) := by
  unfold fileResponse
  cases a.opened with
  | none => exact nofun
  | some length =>
    simp only [Bool.false_eq_true, if_false]
    split_ifs
    · exact nofun
    · rintro _ ⟨⟩
      rfl

theorem measured_fetchFile (fileid fileindex xres : Text) :
    Measured (fetchFile a fileid fileindex xres false) := by
  unfold fetchFile
  cases a.fetched with
  | none => exact measured_answer rfl
  | some lines =>
    dsimp only
    cases lines.filter fun line => line ≠ [] && a.isUrl line with
    | nil => exact measured_answer rfl
    | cons source sources =>
      cases a.proxy with
      | error e => exact measured_answer rfl
      | ok result =>
        unfold intoResponse
        cases a.tempOpened with
        | true =>
          rintro _ ⟨⟩
          rfl
        | false =>
          rintro _ ⟨⟩
          rfl

theorem measured_handleFileServe (fileid : Text) (hvFile : Option HVFile) (additional : Additional)
    (valid : Bool) : Measured (handleFileServe config a fileid hvFile additional valid false) := by
  unfold handleFileServe
  cases valid with
  | false => exact measured_answer rfl
  | true =>
    simp only [Bool.not_true, Bool.false_eq_true, if_false]
    split
    · split_ifs
      · exact measured_answer rfl
      · exact ((measured_fileResponse _ _).after _).after _
      · exact (measured_fetchFile _ _ _).after _
    · exact measured_answer rfl

theorem measured_handleServerCommand (command additional : Text) :
    Measured (handleServerCommand a command additional) := by
  unfold handleServerCommand
  dsimp only
  split_ifs
  · exact measured_answer rfl
  · unfold threadedProxyTest
    split
    · rintro _ ⟨⟩
      rfl
    · exact measured_answer rfl
  · unfold speedTestCommand
    split
    · exact measured_answer rfl
    · split <;> exact measured_answer rfl
  · rintro _ ⟨⟩
    rfl
  · rintro _ ⟨⟩
    rfl
  · rintro _ ⟨⟩
    rfl
  · exact measured_answer rfl

theorem measured_handleRequest {build : Build} {sha1 : Bytes → Sha1Digest} {parts : List Text}
    {peer : IpAddr} {request : RequestType} (h : Parsed build sha1 config parts false peer request) :
    Measured (handleRequest config a request) := by
  cases h with
  | fileServe => exact measured_handleFileServe _ _ _ _
  | serverCommand =>
    simp only [handleRequest]
    split_ifs
    · exact measured_handleServerCommand _ _
    · exact measured_answer rfl
  | speedTest =>
    show Measured (handleSpeedtest _ false)
    unfold handleSpeedtest
    simp only [Bool.false_eq_true, if_false]
    split_ifs <;> exact measured_answer rfl
  | plain hplain =>
    cases request with
    | favicon | robots | notFound | badRequest | methodNotAllowed => exact measured_answer rfl
    | fileServe | serverCommand | speedTest => exact hplain.elim

/-- Whatever is asked for with another method than HEAD, in any case of its letters. -/
theorem measured_serve {build : Build} {sha1 : Bytes → Sha1Digest} {method uri : Text} {peer : IpAddr}
    {h : Handled} (hserve : serve build sha1 config a method uri peer = .ok h)
    (hmethod : isHead method = false) : h.final.declaredLength = h.final.body.size := by
  unfold serve at hserve
  cases hparse : parseRequest build sha1 config method uri peer with
  | error e =>
    rw [hparse] at hserve
    cases hserve
  | ok request =>
    rw [hparse] at hserve
    cases hserve
    exact (measured_handleRequest (hmethod ▸ parsed_of_parseRequest hparse)).final

theorem HeaderMap.get_insert (headers : HeaderMap) (name : String) (value : Text) :
    (headers.insert name value).get name = some value := by
  have hnone : (headers.filter fun header => header.1 ≠ name).find? (fun header => header.1 = name) =
      none := by
    rw [List.find?_eq_none]
    intro header hmem heq
    simp [List.mem_filter] at hmem heq
    exact hmem.2 heq
  simp only [HeaderMap.get, HeaderMap.insert, List.find?_append, hnone]
  simp

theorem get_contentLength {spec : ResponseSpec} (h : 0 < spec.declaredLength) (date : Text) :
    (finalHeaders spec date).get "content-length" = some (decimal spec.declaredLength) := by
  unfold finalHeaders
  rw [if_pos h]
  exact HeaderMap.get_insert _ _ _

end Lengths

/-! ## What comes out -/

/-- What a response and the state of its delivery say about each other. -/
structure Accounted (m : Moment) (spec : ResponseSpec) (headerBytes bytesSent : ℕ) (marked : Bool)
    (info : Option Text) (b : AccessLogBody) : Prop where
  sent_le : b.inner.effects.frames.flatten.length ≤ spec.body.size
  bytesSent : bytesSent =
    if m.isLocal then 0 else headerBytes + b.inner.effects.frames.flatten.length
  packets : b.packets = if marked then b.inner.effects.frames.length else 0
  unlogged : info = none ∨ isOver b.inner.pc = false → b.lines = []
  logged : ∀ line, info = some line → isOver b.inner.pc = true →
    ∃ completion, b.lines = [(line, completion)] ∧
      completion.offset = b.inner.effects.frames.flatten.length ∧
      (completion.label = "Finished" ↔
        b.inner.effects.frames.flatten.length = spec.body.size) ∧
      ∀ reason offset totalSize, completion = .incomplete reason offset totalSize →
        totalSize = spec.body.size ∧ ∃ r, reason = reasonText r

theorem accounted_of_inv {canonicalReason : ℕ → Option Text} {m : Moment} {spec : ResponseSpec}
    {marked : Bool} {info : Option Text} {b : AccessLogBody}
    (h : Inv spec.body.size (!m.isLocal) marked info b) :
    Accounted m spec (headerBytes canonicalReason spec.status (finalHeaders spec m.date))
      ((finalize canonicalReason m spec).bytesSent + b.inner.effects.bytesSent) marked info b where
  sent_le := h.body.offset_eq ▸ h.body.offset_le
  bytesSent := by
    rw [h.body.bytesSent, h.body.offset_eq]
    cases hlocal : m.isLocal with
    | true => simp [finalize, Moment.trafficStats, hlocal]
    | false => simp [finalize, Moment.trafficStats, hlocal]
  packets := h.packets
  unlogged hnone := by
    cases hover : isOver b.inner.pc with
    | false => exact (h.before hover).2
    | true =>
      obtain ⟨-, hlogged⟩ := h.after hover
      rcases hnone with rfl | hrunning
      · exact hlogged
      · rw [hover] at hrunning
        cases hrunning
  logged line hinfo hover := by
    obtain ⟨-, hlogged⟩ := h.after hover
    subst hinfo
    rw [h.body.offset_eq, ← h.body.total]
    exact hlogged

/-- Whatever is asked for, whoever asks, and however its body is polled and dropped: the bytes in
the statistics are those of the headers and of the frames, unless the peer is local; the
method `HEAD` marks no packet and writes no completion; any other marks a packet of its session
for every frame, and writes exactly one line, when its body ends or is dropped, with the bytes
that were sent. The line says that the request is finished if and only if the whole body was
sent. Except for a HEAD in any case of its letters that body has the length that the headers
declare. -/
theorem delivery_accounted (build : Build) (sha1 : Bytes → Sha1Digest) (config : RequestConfig)
    (a : Answers) (method uri : Text) (peer : IpAddr) (h : Handled)
    (hserve : serve build sha1 config a method uri peer = .ok h) (canonicalReason : ℕ → Option Text)
    (m : Moment) (hpool : m.pool.length = 8192) (connId : UInt32) (session : Bool) (turns : List Turn)
    (b : AccessLogBody)
    (hrun : run (AccessLogBody.step sha1)
      (wrap method connId peer session (finalize canonicalReason m h.final)) turns = some b) :
    Accounted m h.final
      (headerBytes canonicalReason h.final.status (finalHeaders h.final m.date))
      ((finalize canonicalReason m h.final).bytesSent + b.inner.effects.bytesSent)
      (session && !isHeadMethod method)
      (if isHeadMethod method then none
        else some (requestInfo connId peer (finalize canonicalReason m h.final) false)) b ∧
    (isHead method = false → h.final.declaredLength = h.final.body.size ∧
      (0 < h.final.body.size → (finalize canonicalReason m h.final).headers.get "content-length" =
        some (decimal h.final.body.size))) := by
  refine ⟨accounted_of_inv (inv_of_run (inv_wrap hpool _ _ _ _ _) hrun), fun hmethod => ?_⟩
  have hlength := measured_serve hserve hmethod
  refine ⟨hlength, fun hpos => ?_⟩
  rw [← hlength] at hpos ⊢
  exact get_contentLength hpos m.date

/-- A remote peer, and a pool that is not drawn. -/
def sampleMoment : Moment := ⟨false, false, "Tue, 14 Nov 2023 22:13:20 GMT".toList, List.replicate 8192 0⟩

def okReason (status : ℕ) : Option Text := if status = 200 then some "OK".toList else none

/-- The four bytes are read in one piece, and the body is dropped after its end. -/
def sampleTurns : List Turn :=
  [.poll, .proceed, .proceed, .proceed, .read 4, .proceed, .poll, .proceed, .proceed, .drop].map
    (Turn.mk [116, 101, 115, 116] ⟨.done, 0, false⟩)

theorem sampleTurns_accounted : ∃ h b,
    serve .release stampDigest sampleRequests idleAnswers "GET".toList sampleFilePath samplePeer = .ok h ∧
    run (AccessLogBody.step stampDigest)
      (wrap "GET".toList 7 samplePeer true (finalize okReason sampleMoment h.final)) sampleTurns = some b ∧
    b.packets = 1 ∧ ∃ line completion, b.lines = [(line, completion)] ∧ completion.label = "Finished" := by
  have hserve : serve .release stampDigest sampleRequests idleAnswers "GET".toList sampleFilePath
      samplePeer = .ok (((fileResponse idleAnswers sampleFile false false).after
        [.markRecentlyAccessed sampleId]).after [.lookUp sampleId]) := by rfl
  have hrun : ∃ b, run (AccessLogBody.step stampDigest)
      (wrap "GET".toList 7 samplePeer true (finalize okReason sampleMoment
        (((fileResponse idleAnswers sampleFile false false).after
          [.markRecentlyAccessed sampleId]).after [.lookUp sampleId]).final)) sampleTurns = some b ∧
      b.inner.effects.frames = [[116, 101, 115, 116]] ∧ b.inner.pc = .dropped := ⟨_, rfl, rfl, rfl⟩
  obtain ⟨b, hb, hframes, hpc⟩ := hrun
  obtain ⟨haccounted, -⟩ := delivery_accounted .release stampDigest sampleRequests idleAnswers
    "GET".toList sampleFilePath samplePeer _ hserve okReason sampleMoment List.length_replicate 7 true
    sampleTurns b hb
  obtain ⟨completion, hlines, -, hlabel, -⟩ := haccounted.logged _ rfl (by rw [hpc]; rfl)
  refine ⟨_, b, hserve, hb, ?_, _, completion, hlines, hlabel.mpr ?_⟩
  · rw [haccounted.packets, hframes]
    rfl
  · rw [hframes]
    rfl

end HathRs.ResponseDelivery
