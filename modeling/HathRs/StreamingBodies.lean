import HathRs.PartialFiles

/-!
# The streaming body

`poll_frame` as a machine of small steps, because the download task writes and publishes
while a poll is under way. A step does at most one thing that another task can observe or
disturb: it asks the watch channel, samples it, polls the stored wait future, or reads from
the file. The answers of the file, of the bandwidth monitor and of the random generator are
events. The caller drops the body between two polls and does not poll it again after the
end of the stream.
-/

namespace HathRs.StreamingBodies
open Digests PartialFiles

def tcpPacketSize : ℕ := 1460

def fileBufferSize : ℕ := 65536

inductive BodyIncompleteReason where
  | unknown
  | fileEndedEarly
  | fileReadError
  | proxyEndedEarly
  | proxyTimeout
  | proxyReadError
  deriving DecidableEq

inductive BodyCompletion where
  | running
  | complete
  | incomplete (reason : BodyIncompleteReason)
  deriving DecidableEq

inductive DataSource where
  | static (data : Bytes)
  | random (randomBytes : Bytes)
  | file (expectedHash : Text)
  | proxy

/-- A watch channel: the latest value, the number of values sent after the first one, and
whether the sender still exists. -/
structure Watch where
  value : DownloadState
  version : ℕ
  senderAlive : Bool

/-- The next step of `poll_frame`. -/
inductive Pc where
  /-- Between two polls. -/
  | idle
  | pollThrottle
  | checkDone
  /-- Step 3 begins with `has_changed`. -/
  | gate
  | sample (senderGone : Bool)
  | pollWait
  | throttle
  | produce
  /-- The end of the stream was returned. -/
  | ended
  | dropped
  deriving DecidableEq

/-- What the body has done to the rest of the program. -/
structure Effects where
  frames : List Bytes
  bytesSent : ℕ
  filesSent : ℕ
  proxyDone : ℕ
  deletions : ℕ
  quotas : List ℕ

/-- The file handle is its position. `seen` is the version that the receiver has seen and
`waitFut` the one that the receiver inside the stored future has seen. -/
structure StreamingBody where
  source : DataSource
  offset : ℕ
  totalSize : ℕ
  flowControl : Bool
  throttleFut : Option ℕ
  throttled : Bool
  completion : BodyCompletion
  trafficStats : Bool
  proxyFileStats : Bool
  position : ℕ
  fileBuf : Bytes
  sha1 : Bytes
  toDelete : Bool
  cacheHandler : Bool
  seen : ℕ
  waitFut : Option ℕ
  proxyDoneTx : Bool
  pc : Pc
  effects : Effects

def Effects.none : Effects := ⟨[], 0, 0, 0, 0, []⟩

/-- `StreamingBody::new_proxy`, with the receiver that came with the channel. -/
def StreamingBody.newProxy (totalSize : ℕ) (flowControl trafficStats : Bool) : StreamingBody where
  source := .proxy
  offset := 0
  totalSize := totalSize
  flowControl := flowControl
  throttleFut := none
  throttled := false
  completion := .running
  trafficStats := trafficStats
  proxyFileStats := true
  position := 0
  fileBuf := []
  sha1 := []
  toDelete := false
  cacheHandler := false
  seen := 0
  waitFut := none
  proxyDoneTx := true
  pc := .idle
  effects := .none

/-- `StreamingBody::from_bytes` -/
def StreamingBody.fromBytes (data : Bytes) (flowControl trafficStats : Bool) : StreamingBody where
  source := .static data
  offset := 0
  totalSize := data.length
  flowControl := flowControl
  throttleFut := none
  throttled := false
  completion := .running
  trafficStats := trafficStats
  proxyFileStats := false
  position := 0
  fileBuf := []
  sha1 := []
  toDelete := false
  cacheHandler := false
  seen := 0
  waitFut := none
  proxyDoneTx := false
  pc := .idle
  effects := .none

/-- `StreamingBody::new_random` with the pool that was drawn. -/
def StreamingBody.newRandom (totalSize : ℕ) (randomBytes : Bytes) (flowControl trafficStats : Bool) :
    StreamingBody where
  source := .random randomBytes
  offset := 0
  totalSize := totalSize
  flowControl := flowControl
  throttleFut := none
  throttled := false
  completion := .running
  trafficStats := trafficStats
  proxyFileStats := false
  position := 0
  fileBuf := []
  sha1 := []
  toDelete := false
  cacheHandler := false
  seen := 0
  waitFut := none
  proxyDoneTx := false
  pc := .idle
  effects := .none

structure FileBodyParams where
  totalSize : ℕ
  expectedHash : Text
  verify : Bool
  cacheHandler : Bool

/-- `StreamingBody::new_file` -/
def StreamingBody.newFile (p : FileBodyParams) (flowControl trafficStats : Bool) : StreamingBody where
  source := .file p.expectedHash
  offset := 0
  totalSize := p.totalSize
  flowControl := flowControl
  throttleFut := none
  throttled := false
  completion := .running
  trafficStats := trafficStats
  proxyFileStats := false
  position := 0
  fileBuf := []
  sha1 := []
  toDelete := p.verify
  cacheHandler := p.cacheHandler
  seen := 0
  waitFut := none
  proxyDoneTx := false
  pc := .idle
  effects := .none

namespace StreamingBody

section Steps

variable (sha1 : Bytes → Sha1Digest)

/-- The frame size at the current offset. -/
def need (b : StreamingBody) : ℕ := min tcpPacketSize (b.totalSize - b.offset)

/-- The part of `finish_with` that depends on the source. -/
def finishSource (b : StreamingBody) (completed : Bool) : StreamingBody :=
  match b.source with
  | .file expectedHash =>
    if completed && b.toDelete then
      let deletes := decide (sha1Bytes sha1 b.sha1 ≠ expectedHash) && b.cacheHandler
      { b with
        toDelete := false
        sha1 := []
        effects := { b.effects with deletions := b.effects.deletions + if deletes then 1 else 0 } }
    else b
  | .static _ => b
  | .random _ => b
  | .proxy =>
    if b.proxyDoneTx then
      { b with
        proxyDoneTx := false
        effects := { b.effects with proxyDone := b.effects.proxyDone + 1 } }
    else b

def isProxy (b : StreamingBody) : Bool :=
  match b.source with
  | .proxy => true
  | _ => false

def finishWith (b : StreamingBody) (reason : Option BodyIncompleteReason) : StreamingBody :=
  let completed := decide (b.totalSize ≤ b.offset)
  let completion :=
    if b.completion = .running then
      if completed then .complete else .incomplete (reason.getD .unknown)
    else b.completion
  let finished := finishSource sha1 { b with completion := completion } completed
  if completed && finished.isProxy && finished.proxyFileStats then
    { finished with
      proxyFileStats := false
      effects := { finished.effects with filesSent := finished.effects.filesSent + 1 } }
  else finished

/-- What the sampled state means: the bytes that may be read and a terminal failure. -/
def sampled (b : StreamingBody) (senderGone : Bool) : DownloadState → ℕ × Option BodyIncompleteReason
  | .inProgress n => (n, if senderGone then some .proxyEndedEarly else none)
  | .done => (b.totalSize, none)
  | .failed .timeout => (0, some .proxyTimeout)
  | .failed .networkError => (0, some .proxyReadError)
  | .failed _ => (0, some .proxyEndedEarly)

/-- The body after `borrow_and_update` and the decision of the proxy gate. -/
def sampleStep (b : StreamingBody) (senderGone : Bool) (watch : Watch) : StreamingBody :=
  let b := { b with seen := watch.version }
  let (writeOffset, failIncomplete) := b.sampled senderGone watch.value
  if b.offset + b.need ≤ writeOffset then { b with waitFut := none, pc := .throttle }
  else
    match failIncomplete with
    | some reason => { b.finishWith sha1 (some reason) with pc := .ended }
    | none => { b with waitFut := some (b.waitFut.getD b.seen), pc := .pollWait }

/-- A frame leaves the body and the poll returns it. -/
def emit (b : StreamingBody) (chunk : Bytes) : StreamingBody :=
  { b with
    offset := b.offset + chunk.length
    pc := .idle
    effects :=
      { b.effects with
        frames := b.effects.frames ++ [chunk]
        bytesSent := if b.trafficStats then b.effects.bytesSent + chunk.length
          else b.effects.bytesSent } }

/-- The buffer after `fill_file_buffer`: a frame from its front, or the end of the body. -/
def produceBuffered (b : StreamingBody) : StreamingBody :=
  if b.fileBuf = [] then
    let reason :=
      match b.source with
      | .proxy => .proxyEndedEarly
      | _ => .fileEndedEarly
    { b.finishWith sha1 (some reason) with pc := .ended }
  else
    let chunk := b.fileBuf.take b.need
    let rest := { b with fileBuf := b.fileBuf.drop b.need }
    let hashed :=
      match b.source with
      | .file _ => { rest with sha1 := rest.sha1 ++ chunk }
      | _ => rest
    hashed.emit chunk

/-- One `read` of up to this many bytes. -/
def readTarget (b : StreamingBody) : ℕ :=
  max (fileBufferSize - b.fileBuf.length) (b.need - b.fileBuf.length)

end Steps
end StreamingBody

/-- What a step meets. -/
inductive BodyEvent where
  | poll
  | proceed
  /-- The quota future is ready or not. -/
  | quota (granted : Bool)
  /-- A read of this many bytes, none only at the end of the file. -/
  | read (count : ℕ)
  | readError
  /-- The random number that picks a chunk. -/
  | random (number : ℕ)
  | drop
  deriving DecidableEq

namespace StreamingBody

/-- Step 5 for the file and the proxy. -/
def produceFromFile (sha1 : Bytes → Sha1Digest) (b : StreamingBody) (file : Bytes) :
    BodyEvent → Option StreamingBody
  | .proceed => if b.fileBuf.length < b.need then none else some (b.produceBuffered sha1)
  | .read count =>
    if b.fileBuf.length < b.need ∧ count ≤ b.readTarget ∧ b.position + count ≤ file.length then
      if 0 < count then
        some { b with
          fileBuf := b.fileBuf ++ (file.drop b.position).take count
          position := b.position + count }
      else if b.position = file.length then some (b.produceBuffered sha1)
      else none
    else none
  | .readError =>
    if b.fileBuf.length < b.need then
      let reason :=
        match b.source with
        | .proxy => .proxyReadError
        | _ => .fileReadError
      some { b.finishWith sha1 (some reason) with pc := .ended }
    else none
  | _ => none

/-- Step 5. -/
def produce (sha1 : Bytes → Sha1Digest) (b : StreamingBody) (file : Bytes) (event : BodyEvent) :
    Option StreamingBody :=
  match b.source with
  | .static data =>
    if event = .proceed then
      let chunkSize := if b.flowControl then tcpPacketSize else b.totalSize - b.offset
      let stop := min (b.offset + chunkSize) b.totalSize
      some (b.emit ((data.take stop).drop b.offset))
    else none
  | .random randomBytes =>
    match event with
    | .random number =>
      let maxStart := randomBytes.length - b.need
      let start := if maxStart = 0 then 0 else number % (maxStart + 1)
      some (b.emit ((randomBytes.drop start).take b.need))
    | _ => none
  | .file _ => b.produceFromFile sha1 file event
  | .proxy => b.produceFromFile sha1 file event

/-- One step of a poll that is under way. -/
def advancePoll (sha1 : Bytes → Sha1Digest) (file : Bytes) (watch : Watch) (b : StreamingBody)
    (event : BodyEvent) : Option StreamingBody :=
  match b.pc with
  | .pollThrottle =>
    match b.throttleFut, event with
    | some chunkSize, .quota true =>
      some { b with
        throttleFut := none
        throttled := true
        pc := .checkDone
        effects := { b.effects with quotas := b.effects.quotas ++ [chunkSize] } }
    | some _, .quota false => some { b with pc := .idle }
    | none, .proceed => some { b with pc := .checkDone }
    | _, _ => none
  | .checkDone =>
    if event = .proceed then
      if b.totalSize ≤ b.offset then some { b.finishWith sha1 none with pc := .ended }
      else some { b with pc := if b.isProxy then .gate else .throttle }
    else none
  | .gate => if event = .proceed then some { b with pc := .sample (!watch.senderAlive) } else none
  | .sample senderGone =>
    if event = .proceed then some (b.sampleStep sha1 senderGone watch) else none
  | .pollWait =>
    match b.waitFut, event with
    | some version, .proceed =>
      if version ≠ watch.version ∨ watch.senderAlive = false then
        some { b with waitFut := none, pc := .pollThrottle }
      else some { b with pc := .idle }
    | _, _ => none
  | .throttle =>
    if event = .proceed then
      if !b.throttled && b.flowControl && b.throttleFut.isNone then
        some { b with throttleFut := some b.need, pc := .pollThrottle }
      else some { b with throttled := false, pc := .produce }
    else none
  | .produce => b.produce sha1 file event
  | .idle => none
  | .ended => none
  | .dropped => none

/-- What a poll that is under way can do next, place by place. -/
inductive Advances (sha1 : Bytes → Sha1Digest) (file : Bytes) (watch : Watch) (b : StreamingBody)
    (event : BodyEvent) : StreamingBody → Prop
  | granted {chunkSize : ℕ} (hpc : b.pc = .pollThrottle) (hfut : b.throttleFut = some chunkSize) :
      Advances sha1 file watch b event { b with
        throttleFut := none
        throttled := true
        pc := .checkDone
        effects := { b.effects with quotas := b.effects.quotas ++ [chunkSize] } }
  | refused {chunkSize : ℕ} (hpc : b.pc = .pollThrottle) (hfut : b.throttleFut = some chunkSize) :
      Advances sha1 file watch b event { b with pc := .idle }
  | unasked (hpc : b.pc = .pollThrottle) (hfut : b.throttleFut = none) :
      Advances sha1 file watch b event { b with pc := .checkDone }
  | done (hpc : b.pc = .checkDone) (hdone : b.totalSize ≤ b.offset) :
      Advances sha1 file watch b event { b.finishWith sha1 none with pc := .ended }
  | gated (hpc : b.pc = .checkDone) (hleft : b.offset < b.totalSize) (hproxy : b.isProxy = true) :
      Advances sha1 file watch b event { b with pc := .gate }
  | ungated (hpc : b.pc = .checkDone) (hleft : b.offset < b.totalSize) (hproxy : b.isProxy = false) :
      Advances sha1 file watch b event { b with pc := .throttle }
  | looked (hpc : b.pc = .gate) :
      Advances sha1 file watch b event { b with pc := .sample (!watch.senderAlive) }
  | sampled {senderGone : Bool} (hpc : b.pc = .sample senderGone) :
      Advances sha1 file watch b event (b.sampleStep sha1 senderGone watch)
  | woken {version : ℕ} (hpc : b.pc = .pollWait) (hfut : b.waitFut = some version)
      (hnews : version ≠ watch.version ∨ watch.senderAlive = false) :
      Advances sha1 file watch b event { b with waitFut := none, pc := .pollThrottle }
  | waits {version : ℕ} (hpc : b.pc = .pollWait) (hfut : b.waitFut = some version)
      (hsame : version = watch.version) (halive : watch.senderAlive = true) :
      Advances sha1 file watch b event { b with pc := .idle }
  | asks (hpc : b.pc = .throttle) (hthrottled : b.throttled = false) (hflow : b.flowControl = true)
      (hfut : b.throttleFut = none) :
      Advances sha1 file watch b event { b with throttleFut := some b.need, pc := .pollThrottle }
  | passes (hpc : b.pc = .throttle)
      (hpaid : b.flowControl = true → b.throttleFut = none → b.throttled = true) :
      Advances sha1 file watch b event { b with throttled := false, pc := .produce }
  | produces {next : StreamingBody} (hpc : b.pc = .produce)
      (hstep : b.produce sha1 file event = some next) : Advances sha1 file watch b event next

theorem advances_of_advancePoll {sha1 : Bytes → Sha1Digest} {file : Bytes} {watch : Watch}
    {b next : StreamingBody} {event : BodyEvent} (h : b.advancePoll sha1 file watch event = some next) :
    Advances sha1 file watch b event next := by
  cases hpc : b.pc with
  | idle | ended | dropped => simp [advancePoll, hpc] at h
  | pollThrottle =>
    simp only [advancePoll, hpc] at h
    split at h <;> cases h
    · rename_i hfut
      exact .granted hpc hfut
    · rename_i hfut
      exact .refused hpc hfut
    · rename_i hfut
      exact .unasked hpc hfut
  | checkDone =>
    simp only [advancePoll, hpc, Option.ite_none_right_eq_some] at h
    obtain ⟨-, h⟩ := h
    split_ifs at h with hdone hproxy <;> cases h
    · exact .done hpc hdone
    · exact .gated hpc (Nat.not_le.mp hdone) hproxy
    · exact .ungated hpc (Nat.not_le.mp hdone) (Bool.not_eq_true _ ▸ hproxy)
  | gate =>
    simp only [advancePoll, hpc, Option.ite_none_right_eq_some, Option.some.injEq] at h
    obtain ⟨-, rfl⟩ := h
    exact .looked hpc
  | sample senderGone =>
    simp only [advancePoll, hpc, Option.ite_none_right_eq_some, Option.some.injEq] at h
    obtain ⟨-, rfl⟩ := h
    exact .sampled hpc
  | pollWait =>
    simp only [advancePoll, hpc] at h
    split at h
    · rename_i hfut
      split_ifs at h with hnews <;> cases h
      · exact .woken hpc hfut hnews
      · simp only [not_or, not_not, Bool.not_eq_false] at hnews
        exact .waits hpc hfut hnews.1 hnews.2
    · cases h
  | throttle =>
    simp only [advancePoll, hpc, Option.ite_none_right_eq_some] at h
    obtain ⟨-, h⟩ := h
    split_ifs at h with hasks <;> cases h
    · simp only [Bool.and_eq_true, Bool.not_eq_true', Option.isNone_iff_eq_none] at hasks
      exact .asks hpc hasks.1.1 hasks.1.2 hasks.2
    · simp only [Bool.and_eq_true, Bool.not_eq_true', Option.isNone_iff_eq_none] at hasks
      refine .passes hpc fun hflow hfut => ?_
      by_contra hthrottled
      exact hasks ⟨⟨Bool.not_eq_true _ ▸ hthrottled, hflow⟩, hfut⟩
  | produce =>
    simp only [advancePoll, hpc] at h
    exact .produces hpc h

/-- One step of the body over the current content of its file and its channel. -/
def step (sha1 : Bytes → Sha1Digest) (file : Bytes) (watch : Watch) (b : StreamingBody) :
    BodyEvent → Option StreamingBody
  | .poll => if b.pc = .idle then some { b with pc := .pollThrottle } else none
  | .drop =>
    if b.pc = .idle ∨ b.pc = .ended then some { b.finishWith sha1 none with pc := .dropped } else none
  | event => b.advancePoll sha1 file watch event

/-- Finishing a proxy body, in one piece. -/
theorem finishWith_proxy (sha1 : Bytes → Sha1Digest) {b : StreamingBody} (h : b.source = .proxy)
    (reason : Option BodyIncompleteReason) :
    b.finishWith sha1 reason =
      { b with
        completion :=
          if b.completion = .running then
            if b.totalSize ≤ b.offset then .complete else .incomplete (reason.getD .unknown)
          else b.completion
        proxyDoneTx := false
        proxyFileStats := b.proxyFileStats && !decide (b.totalSize ≤ b.offset)
        effects :=
          { b.effects with
            proxyDone := b.effects.proxyDone + if b.proxyDoneTx then 1 else 0
            filesSent := b.effects.filesSent +
              if b.totalSize ≤ b.offset ∧ b.proxyFileStats = true then 1 else 0 } } := by
  cases b with
  | mk source offset totalSize flowControl throttleFut throttled completion trafficStats
      proxyFileStats position fileBuf digest toDelete cacheHandler seen waitFut proxyDoneTx pc effects =>
    obtain rfl : source = .proxy := h
    by_cases hdone : totalSize ≤ offset <;> cases proxyDoneTx <;> cases proxyFileStats <;>
      simp [finishWith, finishSource, isProxy, hdone]

/-- Finishing a file body: the digest is taken once, and only of a whole file. -/
theorem finishWith_file (sha1 : Bytes → Sha1Digest) {b : StreamingBody} {expectedHash : Text}
    (h : b.source = .file expectedHash) (reason : Option BodyIncompleteReason) :
    b.finishWith sha1 reason =
      { b with
        completion :=
          if b.completion = .running then
            if b.totalSize ≤ b.offset then .complete else .incomplete (reason.getD .unknown)
          else b.completion
        toDelete := b.toDelete && !decide (b.totalSize ≤ b.offset)
        sha1 := if b.totalSize ≤ b.offset ∧ b.toDelete = true then [] else b.sha1
        effects :=
          { b.effects with
            deletions := b.effects.deletions +
              if (b.totalSize ≤ b.offset ∧ b.toDelete = true) ∧
                  sha1Bytes sha1 b.sha1 ≠ expectedHash ∧ b.cacheHandler = true then 1
              else 0 } } := by
  cases b with
  | mk source offset totalSize flowControl throttleFut throttled completion trafficStats
      proxyFileStats position fileBuf digest toDelete cacheHandler seen waitFut proxyDoneTx pc effects =>
    obtain rfl : source = .file expectedHash := h
    by_cases hdone : totalSize ≤ offset <;> cases toDelete <;>
      simp [finishWith, finishSource, isProxy, hdone]

/-- Finishing leaves alone what is to be sent and paid. -/
theorem finishWith_frame (sha1 : Bytes → Sha1Digest) (b : StreamingBody)
    (reason : Option BodyIncompleteReason) :
    (b.finishWith sha1 reason).flowControl = b.flowControl ∧
      (b.finishWith sha1 reason).offset = b.offset ∧
      (b.finishWith sha1 reason).totalSize = b.totalSize ∧
      (b.finishWith sha1 reason).throttled = b.throttled ∧
      (b.finishWith sha1 reason).throttleFut = b.throttleFut ∧
      (b.finishWith sha1 reason).effects.frames = b.effects.frames ∧
      (b.finishWith sha1 reason).effects.quotas = b.effects.quotas := by
  cases hsource : b.source with
  | static data => simp [finishWith, finishSource, isProxy, hsource]
  | random randomBytes => simp [finishWith, finishSource, isProxy, hsource]
  | file expectedHash =>
    rw [finishWith_file sha1 hsource]
    exact ⟨rfl, rfl, rfl, rfl, rfl, rfl, rfl⟩
  | proxy =>
    rw [finishWith_proxy sha1 hsource]
    exact ⟨rfl, rfl, rfl, rfl, rfl, rfl, rfl⟩

end StreamingBody

/-! ## What is read -/

/-- What the body has read and emitted. -/
structure Reads (file : Bytes) (b : StreamingBody) : Prop where
  content : b.effects.frames.flatten ++ b.fileBuf = file.take b.position
  length_frames : b.effects.frames.flatten.length = b.offset
  position_le : b.position ≤ file.length

theorem offset_add_need_le {b : StreamingBody} (h : b.offset ≤ b.totalSize) :
    b.offset + b.need ≤ b.totalSize := by
  simp only [StreamingBody.need]
  omega

theorem Reads.frames {file : Bytes} {b : StreamingBody} (h : Reads file b) :
    b.effects.frames.flatten = file.take b.offset ∧ b.offset ≤ file.length := by
  have hlength := congrArg List.length h.content
  have hle := h.position_le
  rw [List.length_append, h.length_frames, List.length_take, min_eq_left hle] at hlength
  refine ⟨?_, by omega⟩
  have htake := congrArg (List.take b.offset) h.content
  rwa [← h.length_frames, List.take_left, h.length_frames, List.take_take,
    min_eq_left (by omega)] at htake

theorem Reads.read {file : Bytes} {b : StreamingBody} (h : Reads file b) {count : ℕ}
    (hcount : b.position + count ≤ file.length) :
    Reads file { b with
      fileBuf := b.fileBuf ++ (file.drop b.position).take count
      position := b.position + count } := by
  refine ⟨?_, h.length_frames, hcount⟩
  rw [← List.append_assoc, h.content, List.take_add]

/-- A frame from the front of the buffer. -/
theorem Reads.emit {file : Bytes} {b : StreamingBody} (h : Reads file b) (n : ℕ) (digest : Bytes) :
    Reads file ({ b with fileBuf := b.fileBuf.drop n, sha1 := digest }.emit (b.fileBuf.take n)) := by
  refine ⟨?_, ?_, h.position_le⟩
  · simp only [StreamingBody.emit, List.flatten_append, List.flatten_cons, List.flatten_nil,
      List.append_nil, List.append_assoc, List.take_append_drop]
    exact h.content
  · simp only [StreamingBody.emit, List.flatten_append, List.flatten_cons, List.flatten_nil,
      List.append_nil, List.length_append, h.length_frames]

end HathRs.StreamingBodies
