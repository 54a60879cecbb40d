import HathRs.StreamingBodies
import HathRs.TransitionRuns

/-!
# The download task and the body of a proxied file

The download task appends to the temporary file and publishes how far it got; the body
reads the file behind what is published. They share the file, the watch channel and the
one-shot signal with which the body tells the task that it is done. `protocol_safe` holds
for every interleaving of their steps.
-/

namespace HathRs.ProxyProtocol
open Digests PartialFiles StreamingBodies TransitionRuns

/-! ## The download task -/

inductive Phase where
  | receiving
  /-- The failure is published and the task waits for the body. -/
  | failed
  /-- The file is verified and the task waits for the body. -/
  | received
  /-- The finalization is over and its result published. -/
  | finalized
  /-- The task and its sender are gone. -/
  | ended
  deriving DecidableEq

/-- `pending` are the bytes of the current chunk that are not in the file yet, and
`published` are all values sent as `InProgress`, the latest first. -/
structure Download where
  file : Bytes
  expectedSize : ℕ
  written : ℕ
  pending : Bytes
  phase : Phase
  published : List ℕ
  watch : Watch

namespace Download

/-- The channel starts with `InProgress(0)`. -/
def init (expectedSize : ℕ) : Download where
  file := []
  expectedSize := expectedSize
  written := 0
  pending := []
  phase := .receiving
  published := [0]
  watch := ⟨.inProgress 0, 0, true⟩

/-- `send_replace` -/
def send (d : Download) (value : DownloadState) : Download :=
  { d with watch := { d.watch with value := value, version := d.watch.version + 1 } }

end Download

inductive DownloadEvent where
  | chunk (suffix : Bytes)
  /-- Some of the pending bytes reach the file. -/
  | write (count : ℕ)
  | publish
  | fail (reason : DownloadFailReason)
  | complete
  | finalize (ok : Bool)
  | leave
  /-- The task panics or is aborted. -/
  | vanish

/-- One step of the task. A write that was given to a blocking thread can still take effect
when the task has failed or is gone. -/
def Download.step (d : Download) (proxyDone : Bool) : DownloadEvent → Option Download
  | .chunk suffix =>
    if d.phase = .receiving ∧ d.pending = [] ∧ d.written = d.file.length ∧
        d.written + suffix.length ≤ d.expectedSize then
      some { d with pending := suffix }
    else none
  | .write count =>
    if count ≤ d.pending.length then
      some { d with file := d.file ++ d.pending.take count, pending := d.pending.drop count }
    else none
  | .publish =>
    if d.phase = .receiving ∧ d.pending = [] ∧ d.written < d.file.length then
      some ({ d with written := d.file.length, published := d.file.length :: d.published }.send
        (.inProgress d.file.length))
    else none
  | .fail reason =>
    if d.phase = .receiving then some ({ d with phase := .failed }.send (.failed reason)) else none
  | .complete =>
    if d.phase = .receiving ∧ d.written = d.expectedSize then some { d with phase := .received }
    else none
  | .finalize ok =>
    if d.phase = .received ∧ proxyDone then
      some ({ d with phase := .finalized }.send (if ok then .done else .failed .finalizeFailed))
    else none
  | .leave =>
    if (d.phase = .failed ∧ proxyDone) ∨ d.phase = .finalized then
      some { d with phase := .ended, watch := { d.watch with senderAlive := false } }
    else none
  | .vanish => some { d with phase := .ended, watch := { d.watch with senderAlive := false } }

/-! ## Both together -/

structure System where
  download : Download
  body : StreamingBody

inductive Event where
  | download (event : DownloadEvent)
  | body (event : BodyEvent)

/-- The signal has been sent, or its sender was dropped with the body, which sends it first. -/
def System.proxyDone (s : System) : Bool := 0 < s.body.effects.proxyDone

def System.init (totalSize : ℕ) (flowControl trafficStats : Bool) : System :=
  ⟨.init totalSize, .newProxy totalSize flowControl trafficStats⟩

def step (sha1 : Bytes → Sha1Digest) (s : System) : Event → Option System
  | .download event => (s.download.step s.proxyDone event).map fun d => { s with download := d }
  | .body event =>
    (s.body.step sha1 s.download.file s.download.watch event).map fun b => { s with body := b }

/-! ## Invariants -/

/-- What the task guarantees. -/
structure TaskInv (d : Download) : Prop where
  written_le : d.written ≤ d.file.length
  room : d.file.length + d.pending.length ≤ d.expectedSize
  written_mem : d.written ∈ d.published
  published_le : ∀ n ∈ d.published, n ≤ d.written
  inProgress : ∀ n, d.watch.value = .inProgress n → n = d.written
  received : d.phase = .received → d.written = d.expectedSize
  done : d.watch.value = .done → d.written = d.expectedSize

/-- How the body has ended, if it has. -/
structure Ending (b : StreamingBody) : Prop where
  running : b.completion = .running ↔ b.pc ≠ .ended ∧ b.pc ≠ .dropped
  complete : b.completion = .complete → b.offset = b.totalSize
  incomplete : ∀ reason, b.completion = .incomplete reason → b.offset < b.totalSize
  proxyDoneTx : b.proxyDoneTx = true ↔ b.completion = .running
  proxyDone : b.effects.proxyDone = if b.completion = .running then 0 else 1
  proxyFileStats : b.proxyFileStats = true ↔ b.completion ≠ .complete
  filesSent : b.effects.filesSent = if b.completion = .complete then 1 else 0

/-- Where the body stands in front of what is published. -/
structure Gate (d : Download) (b : StreamingBody) : Prop where
  offset_le : b.offset ≤ d.written
  offset_le_total : b.offset ≤ b.totalSize
  unfinished : b.pc = .gate ∨ (∃ gone, b.pc = .sample gone) ∨ b.pc = .pollWait →
    b.offset < b.totalSize
  opened : b.pc = .throttle ∨ b.pc = .produce → b.offset < b.totalSize ∧ b.offset + b.need ≤ d.written
  seen_le : b.seen ≤ d.watch.version
  waitFut_le : ∀ version, b.waitFut = some version → version ≤ b.seen
  waiting : b.pc = .pollWait → b.seen = d.watch.version →
    ∃ n, d.watch.value = .inProgress n ∧ n < b.offset + b.need

structure Inv (s : System) : Prop where
  source : s.body.source = .proxy
  total : s.body.totalSize = s.download.expectedSize
  task : TaskInv s.download
  reads : Reads s.download.file s.body
  ending : Ending s.body
  gate : Gate s.download s.body

/-! ## Steps of the task -/

theorem TaskInv.step {d d' : Download} {proxyDone : Bool} {event : DownloadEvent} (h : TaskInv d)
    (hstep : d.step proxyDone event = some d') :
    TaskInv d' ∧ d'.expectedSize = d.expectedSize ∧ (∃ more, d'.file = d.file ++ more) ∧
      d.written ≤ d'.written ∧ d.watch.version ≤ d'.watch.version ∧
      (d'.watch.version = d.watch.version → d'.watch.value = d.watch.value) := by
  cases event with
  | chunk suffix =>
    simp only [Download.step, Option.ite_none_right_eq_some, Option.some.injEq] at hstep
    obtain ⟨⟨hphase, hpending, hwritten, hroom⟩, rfl⟩ := hstep
    refine ⟨{ h with room := ?_ }, rfl, ⟨[], by simp⟩, le_rfl, le_rfl, fun _ => rfl⟩
    exact hwritten ▸ hroom
  | write count =>
    simp only [Download.step, Option.ite_none_right_eq_some, Option.some.injEq] at hstep
    obtain ⟨hcount, rfl⟩ := hstep
    refine ⟨{ h with written_le := ?_, room := ?_ }, rfl, ⟨_, rfl⟩, le_rfl, le_rfl, fun _ => rfl⟩
    · have := h.written_le
      simp only [List.length_append]
      omega
    · have := h.room
      simp only [List.length_append, List.length_take, List.length_drop]
      omega
  | publish =>
    simp only [Download.step, Option.ite_none_right_eq_some, Option.some.injEq] at hstep
    obtain ⟨⟨hphase, hpending, hlt⟩, rfl⟩ := hstep
    refine ⟨⟨le_rfl, h.room, List.mem_cons_self, ?_, ?_, ?_, ?_⟩, rfl, ⟨[], by simp [Download.send]⟩,
      hlt.le, Nat.le_succ _, ?_⟩
    · intro n hn
      rcases List.mem_cons.mp hn with rfl | hn
      · exact le_rfl
      · exact (h.published_le n hn).trans hlt.le
    · rintro n hvalue
      exact (DownloadState.inProgress.inj hvalue).symm
    · intro hphase'
      exact absurd (hphase.symm.trans hphase') (by decide)
    · intro hvalue
      cases hvalue
    · intro hversion
      exact absurd hversion (Nat.succ_ne_self _)
  | fail reason =>
    simp only [Download.step, Option.ite_none_right_eq_some, Option.some.injEq] at hstep
    obtain ⟨hphase, rfl⟩ := hstep
    refine ⟨{ h with inProgress := ?_, received := ?_, done := ?_ }, rfl,
      ⟨[], by simp [Download.send]⟩, le_rfl, Nat.le_succ _, ?_⟩
    · rintro n ⟨⟩
    · rintro ⟨⟩
    · rintro ⟨⟩
    · intro hversion
      exact absurd hversion (Nat.succ_ne_self _)
  | complete =>
    simp only [Download.step, Option.ite_none_right_eq_some, Option.some.injEq] at hstep
    obtain ⟨⟨hphase, hwritten⟩, rfl⟩ := hstep
    exact ⟨{ h with received := fun _ => hwritten }, rfl, ⟨[], by simp⟩, le_rfl, le_rfl, fun _ => rfl⟩
  | finalize ok =>
    simp only [Download.step, Option.ite_none_right_eq_some, Option.some.injEq] at hstep
    obtain ⟨⟨hphase, hdone⟩, rfl⟩ := hstep
    refine ⟨{ h with inProgress := ?_, received := ?_, done := fun _ => h.received hphase }, rfl,
      ⟨[], by simp [Download.send]⟩, le_rfl, Nat.le_succ _, ?_⟩
    · intro n hvalue
      cases ok <;> cases hvalue
    · rintro ⟨⟩
    · intro hversion
      exact absurd hversion (Nat.succ_ne_self _)
  | leave =>
    simp only [Download.step, Option.ite_none_right_eq_some, Option.some.injEq] at hstep
    obtain ⟨hphase, rfl⟩ := hstep
    exact ⟨{ h with received := by rintro ⟨⟩ }, rfl, ⟨[], by simp⟩, le_rfl, le_rfl, fun _ => rfl⟩
  | vanish =>
    simp only [Download.step, Option.some.injEq] at hstep
    subst hstep
    exact ⟨{ h with received := by rintro ⟨⟩ }, rfl, ⟨[], by simp⟩, le_rfl, le_rfl, fun _ => rfl⟩

/-- Whatever the task does, the body still stands in front of what is published. -/
theorem Inv.downloadStep {s : System} (h : Inv s) {d : Download} {event : DownloadEvent}
    (hstep : s.download.step s.proxyDone event = some d) : Inv { s with download := d } := by
  obtain ⟨htask, hexpected, ⟨more, hfile⟩, hwritten, hversion, hvalue⟩ := h.task.step hstep
  refine ⟨h.source, h.total.trans hexpected.symm, htask, ⟨?_, h.reads.length_frames, ?_⟩, h.ending,
    { h.gate with offset_le := ?_, opened := ?_, seen_le := ?_, waiting := ?_ }⟩
  · rw [h.reads.content, hfile, List.take_append_of_le_length h.reads.position_le]
  · have := h.reads.position_le
    simp only [hfile, List.length_append]
    omega
  · exact h.gate.offset_le.trans hwritten
  · intro hpc
    exact ⟨(h.gate.opened hpc).1, (h.gate.opened hpc).2.trans hwritten⟩
  · exact h.gate.seen_le.trans hversion
  · intro hpc hseen
    -- The body has seen the latest version only if nothing was sent since.
    have hsame : d.watch.version = s.download.watch.version :=
      le_antisymm (hseen ▸ h.gate.seen_le) hversion
    rw [hvalue hsame]
    exact h.gate.waiting hpc (hseen.trans hsame)

/-! ## Steps of the body -/

/-- What the place in the poll has to respect. -/
structure PlaceOk (s : System) (pc : Pc) : Prop where
  running : pc ≠ .ended ∧ pc ≠ .dropped
  unfinished : pc = .gate ∨ (∃ gone, pc = .sample gone) ∨ pc = .pollWait →
    s.body.offset < s.body.totalSize
  opened : pc = .throttle ∨ pc = .produce →
    s.body.offset < s.body.totalSize ∧ s.body.offset + s.body.need ≤ s.download.written
  waiting : pc = .pollWait → s.body.seen = s.download.watch.version →
    ∃ n, s.download.watch.value = .inProgress n ∧ n < s.body.offset + s.body.need

/-- Three places ask for nothing. -/
theorem placeOk_free (s : System) {pc : Pc} (h : pc = .idle ∨ pc = .pollThrottle ∨ pc = .checkDone) :
    PlaceOk s pc := by
  rcases h with rfl | rfl | rfl <;> constructor <;> simp

/-- The body goes to another place of the poll; its throttle and its wait future change. -/
theorem Inv.move {s : System} (h : Inv s) (hrunning : s.body.completion = .running) {pc : Pc}
    (hplace : PlaceOk s pc) (throttleFut : Option ℕ) (throttled : Bool) (quotas : List ℕ)
    {waitFut : Option ℕ} (hwait : ∀ version, waitFut = some version → version ≤ s.body.seen) :
    Inv { s with body := { s.body with
      pc := pc
      throttleFut := throttleFut
      throttled := throttled
      waitFut := waitFut
      effects := { s.body.effects with quotas := quotas } } } :=
  ⟨h.source, h.total, h.task, ⟨h.reads.content, h.reads.length_frames, h.reads.position_le⟩,
    { h.ending with running := ⟨fun _ => hplace.running, fun _ => hrunning⟩ },
    { h.gate with
      unfinished := hplace.unfinished
      opened := hplace.opened
      waitFut_le := hwait
      waiting := hplace.waiting }⟩

/-- The end of the body settles its completion, the signal and the statistics. -/
theorem Ending.finish (sha1 : Bytes → Sha1Digest) {b : StreamingBody} (hsource : b.source = .proxy)
    (h : Ending b) (hle : b.offset ≤ b.totalSize) (reason : Option BodyIncompleteReason) {pc : Pc}
    (hpc : pc = .ended ∨ pc = .dropped) : Ending { b.finishWith sha1 reason with pc := pc } := by
  obtain ⟨-, hcomplete, hincomplete, htx, hdone, hstats, hsent⟩ := h
  have hplace : ¬ (pc ≠ .ended ∧ pc ≠ .dropped) := by
    rcases hpc with rfl | rfl <;> simp
  rw [StreamingBody.finishWith_proxy sha1 hsource]
  cases hcompletion : b.completion with
  | running =>
    have htx' : b.proxyDoneTx = true := htx.mpr hcompletion
    have hstats' : b.proxyFileStats = true := hstats.mpr (by simp [hcompletion])
    simp only [hcompletion, if_true] at hdone
    simp only [hcompletion, reduceCtorEq, if_false] at hsent
    by_cases hend : b.totalSize ≤ b.offset
    · constructor <;> simp [hend, htx', hstats', hdone, hsent, hplace]
      omega
    · constructor <;> simp [hend, htx', hstats', hdone, hsent, hplace]
      omega
  | complete =>
    have hoffset := hcomplete hcompletion
    have htx' : b.proxyDoneTx = false := by simp [← Bool.not_eq_true, htx, hcompletion]
    have hstats' : b.proxyFileStats = false := by simp [← Bool.not_eq_true, hstats, hcompletion]
    constructor <;> simp [hcompletion, hoffset, htx', hstats', hdone, hsent, hplace]
  | incomplete r =>
    have hoffset := hincomplete r hcompletion
    have htx' : b.proxyDoneTx = false := by simp [← Bool.not_eq_true, htx, hcompletion]
    have hstats' : b.proxyFileStats = true := hstats.mpr (by simp [hcompletion])
    constructor <;>
      simp [hcompletion, hoffset, Nat.not_le.mpr hoffset, htx', hstats', hdone, hsent, hplace]

theorem Inv.finish (sha1 : Bytes → Sha1Digest) {s : System} (h : Inv s)
    (reason : Option BodyIncompleteReason) {pc : Pc} (hpc : pc = .ended ∨ pc = .dropped) :
    Inv { s with body := { s.body.finishWith sha1 reason with pc := pc } } := by
  have hending := h.ending.finish sha1 h.source h.gate.offset_le_total reason hpc
  have hplace : ∀ p : Pc, p ≠ .ended → p ≠ .dropped → pc ≠ p := by
    rintro p hended hdropped rfl
    exact hpc.elim hended hdropped
  rw [StreamingBody.finishWith_proxy sha1 h.source] at hending ⊢
  refine ⟨h.source, h.total, h.task, ⟨h.reads.content, h.reads.length_frames, h.reads.position_le⟩,
    hending, { h.gate with unfinished := ?_, opened := ?_, waiting := ?_ }⟩
  · rintro (hp | ⟨gone, hp⟩ | hp) <;> exact absurd hp (hplace _ (by simp) (by simp))
  · rintro (hp | hp) <;> exact absurd hp (hplace _ (by simp) (by simp))
  · intro hp
    exact absurd hp (hplace _ (by simp) (by simp))

/-- A body that is past its start of a poll and has not ended is running. -/
theorem Inv.running {s : System} (h : Inv s) {pc : Pc} (hpc : s.body.pc = pc)
    (hne : pc ≠ .ended ∧ pc ≠ .dropped) : s.body.completion = .running :=
  h.ending.running.mpr (hpc ▸ hne)

/-- What a sampled state allows to read has been published. -/
theorem Inv.sampled_le {s : System} (h : Inv s) (gone : Bool) :
    (s.body.sampled gone s.download.watch.value).1 ≤ s.download.written := by
  cases hvalue : s.download.watch.value with
  | inProgress n => exact (h.task.inProgress n hvalue).le
  | done => exact (h.total.trans (h.task.done hvalue).symm).le
  | failed reason => cases reason <;> exact Nat.zero_le _

/-- A sampled state that neither suffices nor fails is a download in progress. -/
theorem sampled_inProgress {b : StreamingBody} {gone : Bool} {value : DownloadState}
    (hle : b.offset ≤ b.totalSize) (hshort : ¬ b.offset + b.need ≤ (b.sampled gone value).1)
    (hfail : (b.sampled gone value).2 = none) :
    ∃ n, value = .inProgress n ∧ n < b.offset + b.need := by
  cases value with
  | inProgress n => exact ⟨n, rfl, Nat.not_le.mp hshort⟩
  | done => exact absurd (offset_add_need_le hle) hshort
  | failed reason => cases reason <;> cases hfail

/-- The gate of the sampled state. -/
theorem Inv.sampleStep (sha1 : Bytes → Sha1Digest) {s : System} (h : Inv s) {gone : Bool}
    (hpc : s.body.pc = .sample gone) :
    Inv { s with body := s.body.sampleStep sha1 gone s.download.watch } := by
  have hlt := h.gate.unfinished (.inr (.inl ⟨gone, hpc⟩))
  have hrunning := h.running hpc (by simp)
  have hseen : Inv { s with body := { s.body with seen := s.download.watch.version } } :=
    { h with
      reads := ⟨h.reads.content, h.reads.length_frames, h.reads.position_le⟩
      ending := { h.ending with }
      gate :=
        { h.gate with
          seen_le := le_rfl
          waitFut_le := fun v hv => (h.gate.waitFut_le v hv).trans h.gate.seen_le
          waiting := fun hp => by
            rw [hpc] at hp
            cases hp } }
  simp only [StreamingBody.sampleStep]
  split_ifs with henough
  · have hopen : s.body.offset + s.body.need ≤ s.download.written :=
      le_trans henough (hseen.sampled_le gone)
    refine hseen.move hrunning ⟨by simp, by simp, fun _ => ⟨hlt, hopen⟩, by simp⟩ _ _ _ ?_
    simp
  · split
    · exact hseen.finish sha1 _ (.inl rfl)
    · rename_i hfail
      have hshort := sampled_inProgress hseen.gate.offset_le_total henough hfail
      refine hseen.move hrunning ⟨by simp, fun _ => hlt, by simp, fun _ _ => hshort⟩ _ _ _ ?_
      rintro version ⟨⟩
      cases hfut : s.body.waitFut with
      | none => exact le_rfl
      | some v => exact hseen.gate.waitFut_le v hfut

/-- A frame that the gate has let through. -/
theorem Inv.produceBuffered (sha1 : Bytes → Sha1Digest) {s : System} (h : Inv s)
    (hpc : s.body.pc = .produce) : Inv { s with body := s.body.produceBuffered sha1 } := by
  obtain ⟨hlt, hopen⟩ := h.gate.opened (.inr hpc)
  have hrunning := h.running hpc (by simp)
  simp only [StreamingBody.produceBuffered, h.source]
  split_ifs with hempty
  · exact h.finish sha1 _ (.inl rfl)
  · have hchunk : (s.body.fileBuf.take s.body.need).length ≤ s.body.need := List.length_take_le ..
    have htotal := offset_add_need_le h.gate.offset_le_total
    have hemit := h.reads.emit s.body.need s.body.sha1
    refine ⟨rfl, h.total, h.task, ⟨hemit.content, hemit.length_frames, hemit.position_le⟩, ?_, ?_⟩
    · exact
        { h.ending with
          running := ⟨fun _ => by simp [StreamingBody.emit], fun _ => hrunning⟩
          complete := fun hc => by simp [StreamingBody.emit, hrunning] at hc
          incomplete := fun reason hc => by simp [StreamingBody.emit, hrunning] at hc }
    · refine ⟨?_, ?_, by simp [StreamingBody.emit], by simp [StreamingBody.emit], h.gate.seen_le,
        h.gate.waitFut_le, by simp [StreamingBody.emit]⟩
      · simp only [StreamingBody.emit]
        omega
      · simp only [StreamingBody.emit]
        omega

theorem Inv.read {s : System} (h : Inv s) {count : ℕ}
    (hcount : s.body.position + count ≤ s.download.file.length) :
    Inv { s with body := { s.body with
      fileBuf := s.body.fileBuf ++ (s.download.file.drop s.body.position).take count
      position := s.body.position + count } } := by
  exact { h with
    reads := h.reads.read hcount
    ending := { h.ending with }
    gate := { h.gate with } }

theorem Inv.produceFromFile (sha1 : Bytes → Sha1Digest) {s : System} (h : Inv s) {b : StreamingBody}
    {event : BodyEvent} (hpc : s.body.pc = .produce)
    (hstep : s.body.produceFromFile sha1 s.download.file event = some b) :
    Inv { s with body := b } := by
  cases event with
  | proceed =>
    simp only [StreamingBody.produceFromFile, Option.ite_none_left_eq_some,
      Option.some.injEq] at hstep
    obtain ⟨-, rfl⟩ := hstep
    exact h.produceBuffered sha1 hpc
  | read count =>
    simp only [StreamingBody.produceFromFile, Option.ite_none_right_eq_some] at hstep
    obtain ⟨⟨-, -, hcount⟩, hstep⟩ := hstep
    split_ifs at hstep
    · cases hstep
      exact h.read hcount
    · cases hstep
      exact h.produceBuffered sha1 hpc
  | readError =>
    simp only [StreamingBody.produceFromFile, Option.ite_none_right_eq_some,
      Option.some.injEq] at hstep
    obtain ⟨-, rfl⟩ := hstep
    exact h.finish sha1 _ (.inl rfl)
  | poll | quota | random | drop => cases hstep

/-- The steps of a poll that is under way. -/
theorem Inv.advancePoll (sha1 : Bytes → Sha1Digest) {s : System} (h : Inv s) {b : StreamingBody}
    {event : BodyEvent}
    (hstep : s.body.advancePoll sha1 s.download.file s.download.watch event = some b) :
    Inv { s with body := b } := by
  have hwait := h.gate.waitFut_le
  cases StreamingBody.advances_of_advancePoll hstep with
  | granted hpc | refused hpc | unasked hpc | waits hpc | asks hpc =>
    exact h.move (h.running hpc (by simp)) (placeOk_free s (by simp)) _ _ _ hwait
  | woken hpc => exact h.move (h.running hpc (by simp)) (placeOk_free s (by simp)) _ _ _ (by simp)
  | done => exact h.finish sha1 none (.inl rfl)
  | gated hpc hleft hproxy =>
    exact h.move (h.running hpc (by simp)) ⟨by simp, fun _ => hleft, by simp, by simp⟩ _ _ _ hwait
  | ungated hpc hleft hproxy =>
    rw [StreamingBody.isProxy, h.source] at hproxy
    cases hproxy
  | looked hpc =>
    exact h.move (h.running hpc (by simp))
      ⟨by simp, fun _ => h.gate.unfinished (.inl hpc), by simp, by simp⟩ _ _ _ hwait
  | sampled hpc => exact h.sampleStep sha1 hpc
  | passes hpc =>
    exact h.move (h.running hpc (by simp))
      ⟨by simp, by simp, fun _ => h.gate.opened (.inl hpc), by simp⟩ _ _ _ hwait
  | produces hpc hproduce =>
    simp only [StreamingBody.produce, h.source] at hproduce
    exact h.produceFromFile sha1 hpc hproduce

/-- Every step of the body keeps the invariant. -/
theorem Inv.bodyStep (sha1 : Bytes → Sha1Digest) {s : System} (h : Inv s) {b : StreamingBody}
    {event : BodyEvent} (hstep : s.body.step sha1 s.download.file s.download.watch event = some b) :
    Inv { s with body := b } := by
  cases event with
  | poll =>
    simp only [StreamingBody.step, Option.ite_none_right_eq_some, Option.some.injEq] at hstep
    obtain ⟨hpc, rfl⟩ := hstep
    exact h.move (h.running hpc (by simp)) (placeOk_free s (by simp)) _ _ _ h.gate.waitFut_le
  | drop =>
    simp only [StreamingBody.step, Option.ite_none_right_eq_some, Option.some.injEq] at hstep
    obtain ⟨hpc, rfl⟩ := hstep
    exact h.finish sha1 none (.inr rfl)
  | proceed | quota | read | readError | random => exact h.advancePoll sha1 hstep

theorem Inv.systemStep (sha1 : Bytes → Sha1Digest) {s next : System} (h : Inv s) {event : Event}
    (hstep : step sha1 s event = some next) : Inv next := by
  cases event with
  | download event =>
    obtain ⟨d, hd, rfl⟩ := Option.map_eq_some_iff.mp hstep
    exact h.downloadStep hd
  | body event =>
    obtain ⟨b, hb, rfl⟩ := Option.map_eq_some_iff.mp hstep
    exact h.bodyStep sha1 hb

/-! ## Every run -/

theorem inv_init (totalSize : ℕ) (flowControl trafficStats : Bool) :
    Inv (.init totalSize flowControl trafficStats) where
  source := rfl
  total := rfl
  task := ⟨Nat.zero_le _, Nat.zero_le _, List.mem_singleton_self _, by simp [System.init, Download.init],
    by simp [System.init, Download.init], by simp [System.init, Download.init],
    by simp [System.init, Download.init]⟩
  reads := ⟨rfl, rfl, Nat.zero_le _⟩
  ending := by
    constructor <;> simp [System.init, StreamingBody.newProxy, Effects.none]
  gate := by
    constructor <;> simp [System.init, Download.init, StreamingBody.newProxy]

/-- What the protocol guarantees at every moment. -/
structure Safe (sha1 : Bytes → Sha1Digest) (s : System) : Prop where
  frames : s.body.effects.frames.flatten = s.download.file.take s.body.offset
  offset_le_file : s.body.offset ≤ s.download.file.length
  offset_le_published : ∃ n ∈ s.download.published, s.body.offset ≤ n
  offset_le_total : s.body.offset ≤ s.body.totalSize
  /-- The gate returns `Pending` only while the task has not published enough. -/
  pending : ∀ next, step sha1 s (.body .proceed) = some next → s.body.pc = .pollWait →
    next.body.pc = .idle → s.download.watch.senderAlive = true ∧
      ∃ n, s.download.watch.value = .inProgress n ∧
        n < s.body.offset + min tcpPacketSize (s.body.totalSize - s.body.offset)
  proxyDone : s.body.effects.proxyDone = if s.body.pc = .ended ∨ s.body.pc = .dropped then 1 else 0
  completion : s.body.pc = .ended ∨ s.body.pc = .dropped → s.body.completion ≠ .running ∧
    (s.body.completion = .complete ↔ s.body.offset = s.body.totalSize)
  filesSent : s.body.effects.filesSent = if s.body.completion = .complete then 1 else 0

/-- The wait future is pending only if its receiver has seen the latest version, which is
then the one that the gate has just found too short. -/
theorem Inv.pending {sha1 : Bytes → Sha1Digest} {s next : System} (h : Inv s)
    (hstep : step sha1 s (.body .proceed) = some next) (hpc : s.body.pc = .pollWait)
    (hidle : next.body.pc = .idle) : s.download.watch.senderAlive = true ∧
      ∃ n, s.download.watch.value = .inProgress n ∧ n < s.body.offset + s.body.need := by
  obtain ⟨b, hb, rfl⟩ := Option.map_eq_some_iff.mp hstep
  simp only [StreamingBody.step, StreamingBody.advancePoll, hpc] at hb
  split at hb
  · rename_i version hfut hevent
    split_ifs at hb with hready
    · cases hb
      cases hidle
    · simp only [not_or, not_not, Bool.not_eq_false] at hready
      have hle := h.gate.waitFut_le version hfut
      have hseen := le_antisymm h.gate.seen_le (hready.1 ▸ hle)
      exact ⟨hready.2, h.gate.waiting hpc hseen⟩
  · cases hb

theorem Inv.safe (sha1 : Bytes → Sha1Digest) {s : System} (h : Inv s) : Safe sha1 s where
  frames := h.reads.frames.1
  offset_le_file := h.reads.frames.2
  offset_le_published := ⟨_, h.task.written_mem, h.gate.offset_le⟩
  offset_le_total := h.gate.offset_le_total
  pending _ hstep hpc hidle := h.pending hstep hpc hidle
  proxyDone := by
    have hrunning := h.ending.running
    have hdone := h.ending.proxyDone
    by_cases hpc : s.body.pc = .ended ∨ s.body.pc = .dropped
    · rw [if_neg (by tauto)] at hdone
      rw [if_pos hpc, hdone]
    · rw [if_pos (by tauto)] at hdone
      rw [if_neg hpc, hdone]
  completion hpc := by
    have hfinished : s.body.completion ≠ .running := by
      have := h.ending.running
      tauto
    refine ⟨hfinished, h.ending.complete, fun hoffset => ?_⟩
    cases hc : s.body.completion with
    | running => exact absurd hc hfinished
    | complete => rfl
    | incomplete reason => exact absurd hoffset (h.ending.incomplete reason hc).ne
  filesSent := h.ending.filesSent

/-- Safety of the protocol between the download task and the body, for every interleaving of
their steps. -/
theorem protocol_safe (sha1 : Bytes → Sha1Digest) (totalSize : ℕ) (flowControl trafficStats : Bool)
    (events : List Event) (s : System)
    (hrun : run (step sha1) (.init totalSize flowControl trafficStats) events = some s) :
    Safe sha1 s :=
  (run_invariant (fun _ _ _ h _ hstep => h.systemStep sha1 hstep)
    (inv_init totalSize flowControl trafficStats) (allSteps_true _ events) hrun).safe sha1

/-- A file of four bytes, for which the body waits once. -/
def fourBytes : List Event :=
  [.download (.chunk [116, 101, 115, 116]), .download (.write 2), .body .poll, .body .proceed,
    .body .proceed, .body .proceed, .body .proceed, .body .proceed, .download (.write 2),
    .download .publish, .body .poll, .body .proceed, .body .proceed, .body .proceed, .body .proceed,
    .body .proceed, .body (.read 4), .body .proceed, .download .complete, .body .drop,
    .download (.finalize true), .download .leave]

theorem protocol_safe_fourBytes :
    ∃ s, run (step fun _ => Vector.replicate 20 0) (.init 4 false true) fourBytes = some s ∧
      s.body.effects.frames = [[116, 101, 115, 116]] ∧ s.body.completion = .complete ∧
      Safe (fun _ => Vector.replicate 20 0) s := by
  have hrun : ∃ s, run (step fun _ => Vector.replicate 20 0) (.init 4 false true) fourBytes = some s ∧
      s.body.effects.frames = [[116, 101, 115, 116]] ∧ s.body.completion = .complete :=
    ⟨_, rfl, rfl, rfl⟩
  obtain ⟨s, hs, hframes, hcomplete⟩ := hrun
  exact ⟨s, hs, hframes, hcomplete, protocol_safe _ 4 false true fourBytes s hs⟩

/-! ## The transfer is a run of the task -/

/-- The task of the protocol is where the transfer is. -/
structure Follows (pf : PartialFile) (d : Download) : Prop where
  file : d.file = pf.file
  written : d.written = pf.written
  expected : d.expectedSize = pf.expectedSize
  published : d.published = pf.published.reverse ++ [0]
  phase : d.phase = .receiving

def taskStep (d : Download) (event : DownloadEvent) : Option Download := d.step false event

variable {sha1 : Bytes → Sha1Digest} {start pf : PartialFile} {replay seen : Bytes}

/-- A chunk of which only some bytes reach the file. -/
theorem run_tornWrite {d : Download} {suffix : Bytes} (kept : ℕ)
    (hchunk : taskStep d (.chunk suffix) = some { d with pending := suffix }) :
    ∃ rest, run taskStep d [.chunk suffix, .write (min kept suffix.length)] =
      some { d with file := d.file ++ suffix.take kept, pending := rest } := by
  refine ⟨suffix.drop (min kept suffix.length), ?_⟩
  have hwrite : min kept suffix.length ≤ suffix.length := min_le_right _ _
  simp only [run, hchunk, Option.bind_some]
  simp [taskStep, Download.step, hwrite, take_replayLen]

/-- A chunk that is written and published. -/
theorem run_publishedWrite {d : Download} {suffix : Bytes} (hphase : d.phase = .receiving)
    (hlt : d.written < (d.file ++ suffix).length)
    (hchunk : taskStep d (.chunk suffix) = some { d with pending := suffix }) :
    run taskStep d [.chunk suffix, .write suffix.length, .publish] =
      some ({ d with
        file := d.file ++ suffix
        pending := []
        written := (d.file ++ suffix).length
        published := (d.file ++ suffix).length :: d.published }.send
          (.inProgress (d.file ++ suffix).length)) := by
  have hwrite : taskStep { d with pending := suffix } (.write suffix.length) =
      some { d with file := d.file ++ suffix, pending := [] } := by
    simp [taskStep, Download.step]
  have hpublish : taskStep { d with file := d.file ++ suffix, pending := [] } .publish =
      some ({ d with
        file := d.file ++ suffix
        pending := []
        written := (d.file ++ suffix).length
        published := (d.file ++ suffix).length :: d.published }.send
          (.inProgress (d.file ++ suffix).length)) := by
    rw [taskStep, Download.step, if_pos ⟨hphase, rfl, hlt⟩]
  simp only [run, hchunk, hwrite, hpublish, Option.bind_some]

/-- What the task does with a chunk: nothing, or a write that is published or disturbed. -/
def chunkEvents (sha1 : Bytes → Sha1Digest) (prefixLen : ℕ) (prefixHash : Sha1Digest) (pf : PartialFile)
    (replay : Bytes) (chunk : Chunk) : List DownloadEvent :=
  let replayLen := min (prefixLen - pf.received) chunk.data.length
  let suffix := chunk.data.drop replayLen
  if pf.expectedSize < pf.received + chunk.data.length then []
  else if 0 < replayLen ∧ pf.received + replayLen = prefixLen ∧
      sha1 (replay ++ chunk.data.take replayLen) ≠ prefixHash then []
  else if suffix = [] then []
  else
    match chunk.write with
    | .done => [.chunk suffix, .write suffix.length, .publish]
    | .failed kept | .cancelled kept => [.chunk suffix, .write (min kept suffix.length)]

/-- What the task does with the chunks, up to the one at which it stops. -/
def chunksEvents (sha1 : Bytes → Sha1Digest) (prefixLen : ℕ) (prefixHash : Sha1Digest) (pf : PartialFile)
    (replay : Bytes) : List Chunk → List DownloadEvent
  | [] => []
  | chunk :: chunks =>
    chunkEvents sha1 prefixLen prefixHash pf replay chunk ++
      match receiveChunk sha1 prefixLen prefixHash pf replay chunk with
      | (pf, .ok replay) => chunksEvents sha1 prefixLen prefixHash pf replay chunks
      | (_, .error _) => []

def receiveEvents (sha1 : Bytes → Sha1Digest) (pf : PartialFile) (body : Body) : List DownloadEvent :=
  chunksEvents sha1 pf.written (sha1 pf.sha1) { pf with received := 0 } [] body.chunks

/-- A write was under way when receiving stopped. -/
def disturbed : Stop → Bool
  | .error .io | .cancelled => true
  | _ => false

theorem receiveChunk_follows (h : Receiving sha1 start pf replay seen) (hs : Valid start)
    (chunk : Chunk) {d : Download} (hd : Follows pf d) (hpending : d.pending = []) :
    ∃ next, run taskStep d (chunkEvents sha1 start.written (sha1 start.sha1) pf replay chunk) = some next ∧
      Follows (receiveChunk sha1 start.written (sha1 start.sha1) pf replay chunk).1 next ∧
      ((∀ stop, (receiveChunk sha1 start.written (sha1 start.sha1) pf replay chunk).2 = .error stop →
        disturbed stop = false) → next.pending = []) := by
  have hsame : ∀ n, Follows { pf with received := n } d := fun n =>
    ⟨hd.file, hd.written, hd.expected, hd.published, hd.phase⟩
  simp only [PartialFiles.receiveChunk, chunkEvents]
  split_ifs with hsize hcheck hsuffix
  · exact ⟨d, rfl, hsame _, fun _ => hpending⟩
  · exact ⟨d, rfl, hsame _, fun _ => hpending⟩
  · exact ⟨d, rfl, hsame _, fun _ => hpending⟩
  · obtain ⟨-, hfits⟩ := h.suffix_fits hs hsize hsuffix
    generalize chunk.data.drop (min (start.written - pf.received) chunk.data.length) = suffix at *
    have hlength : d.written = d.file.length := by rw [hd.written, hd.file, h.valid.written_eq]
    have hroom : d.written + suffix.length ≤ d.expectedSize := by rwa [hd.written, hd.expected]
    have hchunk : taskStep d (.chunk suffix) = some { d with pending := suffix } := by
      rw [taskStep, Download.step, if_pos ⟨hd.phase, hpending, hlength, hroom⟩]
    cases hw : chunk.write with
    | done =>
      have hpos := List.length_pos_iff.mpr hsuffix
      have hlt : d.written < (d.file ++ suffix).length := by
        rw [List.length_append]
        omega
      refine ⟨_, run_publishedWrite hd.phase hlt hchunk, ?_, fun _ => rfl⟩
      have hnew : (d.file ++ suffix).length = pf.written + suffix.length := by
        rw [List.length_append, ← hlength, hd.written]
      refine ⟨by simp [Download.send, appendSuffix, hd.file], ?_, hd.expected, ?_, hd.phase⟩
      · exact hnew
      · simp only [Download.send, appendSuffix, hnew, hd.published, List.reverse_append,
          List.reverse_cons, List.reverse_nil, List.nil_append, List.cons_append]
    | failed kept =>
      obtain ⟨rest, hrun⟩ := run_tornWrite kept hchunk
      exact ⟨_, hrun, ⟨by simp [appendSuffix, hd.file], hd.written, hd.expected, hd.published,
        hd.phase⟩, by simp [appendSuffix, disturbed]⟩
    | cancelled kept =>
      obtain ⟨rest, hrun⟩ := run_tornWrite kept hchunk
      exact ⟨_, hrun, ⟨by simp [appendSuffix, hd.file], hd.written, hd.expected, hd.published,
        hd.phase⟩, by simp [appendSuffix, disturbed]⟩

theorem receiveChunks_follows (hs : Valid start) (ending : BodyEnd) (chunks : List Chunk)
    (h : Receiving sha1 start pf replay seen) {d : Download} (hd : Follows pf d)
    (hpending : d.pending = []) :
    ∃ next,
      run taskStep d (chunksEvents sha1 start.written (sha1 start.sha1) pf replay chunks) = some next ∧
      Follows (receiveChunks sha1 start.written (sha1 start.sha1) ending pf replay chunks).1 next ∧
      ((∀ stop, (receiveChunks sha1 start.written (sha1 start.sha1) ending pf replay chunks).2 =
        .error stop → disturbed stop = false) → next.pending = []) := by
  induction chunks generalizing pf replay seen d with
  | nil =>
    refine ⟨d, rfl, ?_, fun _ => hpending⟩
    cases ending with
    | eof =>
      simp only [receiveChunks, endBody]
      split <;> exact hd
    | failed isTimeout => exact hd
    | cancelled => exact hd
  | cons chunk chunks ih =>
    obtain ⟨next, hrun, hnext, hrest⟩ := receiveChunk_follows h hs chunk hd hpending
    have hstep := h.receiveChunk hs chunk (List.prefix_refl _)
    simp only [receiveChunks, chunksEvents]
    rw [run_append, hrun, Option.bind_some]
    generalize receiveChunk sha1 start.written (sha1 start.sha1) pf replay chunk = r at *
    obtain ⟨mid, outcome⟩ := r
    cases outcome with
    | error stop =>
      refine ⟨next, rfl, hnext, fun hstops => hrest ?_⟩
      rintro _ ⟨⟩
      exact hstops stop rfl
    | ok replay' => exact ih hstep hnext (hrest (by simp))

/-- Receiving a response is a run of the protocol's task: it writes the same file, counts the
same bytes and publishes the same values. -/
theorem receive_follows (hs : Valid start) (body : Body) {d : Download} (hd : Follows start d)
    (hpending : d.pending = []) :
    ∃ next, run taskStep d (receiveEvents sha1 start body) = some next ∧
      Follows (receive sha1 start body).1 next ∧
      ((∀ stop, (receive sha1 start body).2 = .error stop → disturbed stop = false) →
        next.pending = []) :=
  receiveChunks_follows hs body.ending body.chunks (receiving_initial hs)
    ⟨hd.file, hd.written, hd.expected, hd.published, hd.phase⟩ hpending

end HathRs.ProxyProtocol
