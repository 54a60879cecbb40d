import HathRs.StreamingBodies
import HathRs.TransitionRuns

/-!
# Bodies of cached files

The body of a cached file hashes what it sends. When the whole file was sent, its digest is
compared with the expected one, once, and the file is deleted from the cache if they differ.
The body may be polled again after the end of the stream.
-/

namespace HathRs.FileBodies
open Digests StreamingBodies TransitionRuns

/-- A file body has no channel. -/
def noWatch : Watch := ⟨.done, 0, false⟩

/-- One step of the body of a file, which may be polled again. -/
def step (sha1 : Bytes → Sha1Digest) (file : Bytes) (b : StreamingBody) (event : BodyEvent) :
    Option StreamingBody :=
  if event = .poll ∧ b.pc = .ended then some { b with pc := .pollThrottle }
  else b.step sha1 file noWatch event

/-- The digest was taken. -/
def consumed (p : FileBodyParams) (b : StreamingBody) : Prop := p.verify = true ∧ b.toDelete = false

instance (p : FileBodyParams) (b : StreamingBody) : Decidable (consumed p b) :=
  inferInstanceAs (Decidable (_ ∧ _))

/-- The whole file was sent, and its digest is not the expected one. -/
def Corrupt (sha1 : Bytes → Sha1Digest) (p : FileBodyParams) (b : StreamingBody) : Prop :=
  b.offset = p.totalSize ∧ sha1Bytes sha1 b.effects.frames.flatten ≠ p.expectedHash

instance (sha1 : Bytes → Sha1Digest) (p : FileBodyParams) (b : StreamingBody) :
    Decidable (Corrupt sha1 p b) :=
  inferInstanceAs (Decidable (_ ∧ _))

/-- The places of a proxy. -/
def isGate : Pc → Bool
  | .gate | .sample _ | .pollWait => true
  | _ => false

structure Inv (sha1 : Bytes → Sha1Digest) (file : Bytes) (p : FileBodyParams) (trafficStats : Bool)
    (b : StreamingBody) : Prop where
  source : b.source = .file p.expectedHash
  total : b.totalSize = p.totalSize
  handler : b.cacheHandler = p.cacheHandler
  stats : b.trafficStats = trafficStats
  reads : Reads file b
  offset_le : b.offset ≤ b.totalSize
  bytesSent : b.effects.bytesSent = if trafficStats then b.offset else 0
  verify : b.toDelete = true → p.verify = true
  hashed : b.sha1 = if consumed p b then [] else b.effects.frames.flatten
  complete : consumed p b → b.totalSize ≤ b.offset
  deletions : b.effects.deletions =
    if consumed p b ∧ p.cacheHandler = true ∧ Corrupt sha1 p b then 1 else 0
  place : isGate b.pc = false
  dropped : b.pc = .dropped → b.totalSize ≤ b.offset → b.toDelete = false

section Steps

variable {sha1 : Bytes → Sha1Digest} {file : Bytes} {p : FileBodyParams} {trafficStats : Bool}
  {b next : StreamingBody}

theorem inv_newFile (flowControl : Bool) :
    Inv sha1 file p trafficStats (.newFile p flowControl trafficStats) where
  source := rfl
  total := rfl
  handler := rfl
  stats := rfl
  reads := ⟨rfl, rfl, Nat.zero_le _⟩
  offset_le := Nat.zero_le _
  bytesSent := by
    cases trafficStats <;> rfl
  verify := id
  hashed := by
    rw [ite_eq_left_iff.mpr]
    · rfl
    · exact fun _ => rfl
  complete := by
    rintro ⟨hverify, hdelete⟩
    exact absurd (hverify.symm.trans hdelete) (by decide)
  deletions := by
    rw [if_neg]
    · rfl
    · rintro ⟨⟨hverify, hdelete⟩, -⟩
      exact absurd (hverify.symm.trans hdelete) (by decide)
  place := rfl
  dropped := nofun

/-- The body goes to another place of the poll. -/
theorem Inv.move (h : Inv sha1 file p trafficStats b) {pc : Pc} (hplace : isGate pc = false)
    (hpc : pc ≠ .dropped) (throttleFut : Option ℕ) (throttled : Bool) (quotas : List ℕ) :
    Inv sha1 file p trafficStats { b with
      pc := pc
      throttleFut := throttleFut
      throttled := throttled
      effects := { b.effects with quotas := quotas } } :=
  { h with
    reads := ⟨h.reads.content, h.reads.length_frames, h.reads.position_le⟩
    place := hplace
    dropped := fun hdropped => absurd hdropped hpc }

/-- What was not sent whole, or was checked before, is left alone. -/
theorem finishWith_kept (sha1 : Bytes → Sha1Digest) (h : b.source = .file p.expectedHash)
    (reason : Option BodyIncompleteReason) (hkept : ¬(b.totalSize ≤ b.offset ∧ b.toDelete = true)) :
    ∃ completion, b.finishWith sha1 reason = { b with completion := completion } := by
  have hdelete : (b.toDelete && !decide (b.totalSize ≤ b.offset)) = b.toDelete := by
    by_cases hdone : b.totalSize ≤ b.offset
    · have hfalse : b.toDelete = false := Bool.not_eq_true _ ▸ fun htrue => hkept ⟨hdone, htrue⟩
      rw [hfalse]
      rfl
    · rw [decide_eq_false hdone]
      exact Bool.and_true _
  rw [StreamingBody.finishWith_file sha1 h, hdelete]
  simp only [hkept, false_and, if_false, Nat.add_zero]
  exact ⟨_, rfl⟩

theorem finishWith_taken (sha1 : Bytes → Sha1Digest) (h : b.source = .file p.expectedHash)
    (reason : Option BodyIncompleteReason) (hdone : b.totalSize ≤ b.offset) (hdelete : b.toDelete = true) :
    ∃ completion, b.finishWith sha1 reason = { b with
      completion := completion
      toDelete := false
      sha1 := []
      effects := { b.effects with
        deletions := b.effects.deletions +
          if sha1Bytes sha1 b.sha1 ≠ p.expectedHash ∧ b.cacheHandler = true then 1 else 0 } } := by
  rw [StreamingBody.finishWith_file sha1 h]
  simp only [hdone, hdelete, and_self, true_and, if_true, decide_true, Bool.not_true, Bool.and_false]
  exact ⟨_, rfl⟩

/-- The digest that is taken is the one of what was sent, and it is taken of a whole file. -/
theorem Inv.finish (h : Inv sha1 file p trafficStats b) (reason : Option BodyIncompleteReason) {pc : Pc}
    (hplace : isGate pc = false) :
    Inv sha1 file p trafficStats { b.finishWith sha1 reason with pc := pc } := by
  have hreads : Reads file b := h.reads
  by_cases htaken : b.totalSize ≤ b.offset ∧ b.toDelete = true
  · have hopen : ¬consumed p b := fun hc => absurd (htaken.2.symm.trans hc.2) (by decide)
    have hhashed := h.hashed
    have hdeletions := h.deletions
    rw [if_neg hopen] at hhashed
    rw [if_neg fun hc => hopen hc.1] at hdeletions
    have hoffset : b.offset = p.totalSize := le_antisymm (h.total ▸ h.offset_le) (h.total ▸ htaken.1)
    obtain ⟨completion, hfinished⟩ := finishWith_taken sha1 h.source reason htaken.1 htaken.2
    rw [hfinished]
    have hconsumed : ∀ b : StreamingBody, b.toDelete = false → consumed p b :=
      fun b hb => ⟨h.verify htaken.2, hb⟩
    refine { h with
      reads := ⟨hreads.content, hreads.length_frames, hreads.position_le⟩
      verify := nofun
      hashed := (if_pos (hconsumed _ rfl)).symm
      complete := fun _ => htaken.1
      deletions := ?_
      place := hplace
      dropped := fun _ _ => rfl }
    simp only [hdeletions, hhashed, Nat.zero_add, h.handler, hconsumed, true_and, Corrupt, hoffset]
    simp only [and_comm]
  · obtain ⟨completion, hfinished⟩ := finishWith_kept sha1 h.source reason htaken
    rw [hfinished]
    exact { h with
      reads := ⟨hreads.content, hreads.length_frames, hreads.position_le⟩
      place := hplace
      dropped := fun _ hdone => Bool.not_eq_true _ ▸ fun htrue => htaken ⟨hdone, htrue⟩ }

theorem take_need_of_complete (h : b.totalSize ≤ b.offset) : b.fileBuf.take b.need = [] := by
  have hneed : b.need = 0 := by
    rw [StreamingBody.need, Nat.sub_eq_zero_of_le h]
    exact Nat.min_zero _
  rw [hneed, List.take_zero]

/-- What leaves the body goes through the digest first. -/
theorem Inv.emit (h : Inv sha1 file p trafficStats b) :
    Inv sha1 file p trafficStats ({ b with
      fileBuf := b.fileBuf.drop b.need
      sha1 := b.sha1 ++ b.fileBuf.take b.need }.emit (b.fileBuf.take b.need)) := by
  have hframes : (b.effects.frames ++ [b.fileBuf.take b.need]).flatten =
      b.effects.frames.flatten ++ b.fileBuf.take b.need := by
    rw [List.flatten_append, List.flatten_singleton]
  have hroom := offset_add_need_le h.offset_le
  have hchunk : (b.fileBuf.take b.need).length ≤ b.need := List.length_take_le ..
  refine { h with
    reads := h.reads.emit _ _
    offset_le := ?_
    bytesSent := ?_
    hashed := ?_
    complete := fun hc => (h.complete hc).trans (Nat.le_add_right _ _)
    deletions := ?_
    place := rfl
    dropped := nofun }
  · simp only [StreamingBody.emit]
    omega
  · have hsent := h.bytesSent
    simp only [StreamingBody.emit, h.stats, hsent]
    cases trafficStats <;> rfl
  · simp only [StreamingBody.emit, hframes]
    rw [h.hashed]
    by_cases hc : consumed p b
    · rw [if_pos hc, take_need_of_complete (h.complete hc)]
      exact (if_pos hc).symm
    · rw [if_neg hc]
      exact (if_neg hc).symm
  · by_cases hc : consumed p b
    · have hdeletions := h.deletions
      simp only [Corrupt, StreamingBody.emit, take_need_of_complete (h.complete hc), List.length_nil,
        Nat.add_zero, List.flatten_append, List.flatten_singleton, List.append_nil] at hdeletions ⊢
      exact hdeletions
    · have hdeletions := h.deletions
      rw [if_neg fun hall => hc hall.1] at hdeletions
      exact hdeletions.trans (if_neg fun hall => hc hall.1).symm

theorem Inv.produceBuffered (h : Inv sha1 file p trafficStats b) :
    Inv sha1 file p trafficStats (b.produceBuffered sha1) := by
  simp only [StreamingBody.produceBuffered]
  split_ifs with hempty
  · exact h.finish _ rfl
  · have hemit := h.emit
    rw [h.source] at hemit ⊢
    exact hemit

theorem Inv.read (h : Inv sha1 file p trafficStats b) {count : ℕ}
    (hcount : b.position + count ≤ file.length) : Inv sha1 file p trafficStats { b with
      fileBuf := b.fileBuf ++ (file.drop b.position).take count
      position := b.position + count } :=
  { h with reads := h.reads.read hcount }

theorem Inv.produceFromFile (h : Inv sha1 file p trafficStats b) {event : BodyEvent}
    (hstep : b.produceFromFile sha1 file event = some next) : Inv sha1 file p trafficStats next := by
  cases event with
  | proceed =>
    simp only [StreamingBody.produceFromFile, Option.ite_none_left_eq_some, Option.some.injEq] at hstep
    obtain ⟨-, rfl⟩ := hstep
    exact h.produceBuffered
  | read count =>
    simp only [StreamingBody.produceFromFile, Option.ite_none_right_eq_some] at hstep
    obtain ⟨⟨-, -, hcount⟩, hstep⟩ := hstep
    split_ifs at hstep
    · cases hstep
      exact h.read hcount
    · cases hstep
      exact h.produceBuffered
  | readError =>
    simp only [StreamingBody.produceFromFile, Option.ite_none_right_eq_some, Option.some.injEq] at hstep
    obtain ⟨-, rfl⟩ := hstep
    exact h.finish _ rfl
  | poll | quota | random | drop => cases hstep

theorem Inv.advancePoll (h : Inv sha1 file p trafficStats b) {event : BodyEvent}
    (hstep : b.advancePoll sha1 file noWatch event = some next) : Inv sha1 file p trafficStats next := by
  have hplace := h.place
  cases StreamingBody.advances_of_advancePoll hstep with
  | granted | refused | unasked | ungated | asks | passes => exact h.move rfl (by decide) _ _ _
  | done => exact h.finish _ rfl
  | gated hpc hleft hproxy =>
    rw [StreamingBody.isProxy, h.source] at hproxy
    cases hproxy
  | looked hpc | sampled hpc | woken hpc | waits hpc =>
    rw [hpc] at hplace
    cases hplace
  | produces hpc hproduce =>
    simp only [StreamingBody.produce, h.source] at hproduce
    exact h.produceFromFile hproduce

theorem Inv.step (h : Inv sha1 file p trafficStats b) {event : BodyEvent}
    (hstep : FileBodies.step sha1 file b event = some next) : Inv sha1 file p trafficStats next := by
  rw [FileBodies.step] at hstep
  split_ifs at hstep
  · cases hstep
    exact h.move rfl (by decide) _ _ _
  cases event with
  | poll =>
    simp only [StreamingBody.step, Option.ite_none_right_eq_some, Option.some.injEq] at hstep
    obtain ⟨-, rfl⟩ := hstep
    exact h.move rfl (by decide) _ _ _
  | drop =>
    simp only [StreamingBody.step, Option.ite_none_right_eq_some, Option.some.injEq] at hstep
    obtain ⟨-, rfl⟩ := hstep
    exact h.finish _ rfl
  | proceed | quota | read | readError | random => exact h.advancePoll hstep

end Steps

theorem run_inv {sha1 : Bytes → Sha1Digest} {file : Bytes} {p : FileBodyParams}
    {flowControl trafficStats : Bool} {events : List BodyEvent} {b : StreamingBody}
    (h : run (step sha1 file) (.newFile p flowControl trafficStats) events = some b) :
    Inv sha1 file p trafficStats b :=
  run_invariant (fun _ _ _ hinv _ hstep => hinv.step hstep) (inv_newFile flowControl) (allSteps_true _ _) h

/-- Whatever the reads and the polls were, what was sent is the beginning of the file, and it is
what was hashed and counted. The digest is taken once, when the whole file was sent, and the
file is deleted exactly when it is not the expected one. -/
theorem inline_verification_exact (sha1 : Bytes → Sha1Digest) (file : Bytes) (p : FileBodyParams)
    (flowControl trafficStats : Bool) (events : List BodyEvent) (b : StreamingBody)
    (h : run (step sha1 file) (.newFile p flowControl trafficStats) events = some b) :
    b.effects.frames.flatten = file.take b.offset ∧ b.offset ≤ file.length ∧
    (b.sha1 = if consumed p b then [] else file.take b.offset) ∧
    (consumed p b → b.offset = p.totalSize) ∧
    b.effects.bytesSent = (if trafficStats then b.offset else 0) ∧
    b.effects.deletions ≤ 1 ∧ (b.offset ≠ p.totalSize → b.effects.deletions = 0) ∧
    (b.pc = .dropped → (b.effects.deletions = 1 ↔ p.cacheHandler = true ∧ p.verify = true ∧
      b.offset = p.totalSize ∧ sha1Bytes sha1 (file.take b.offset) ≠ p.expectedHash)) := by
  have hinv := run_inv h
  obtain ⟨hframes, hle⟩ := hinv.reads.frames
  have hhashed := hinv.hashed
  have hdeletions := hinv.deletions
  rw [hframes] at hhashed
  have hwhole : b.totalSize ≤ b.offset → b.offset = p.totalSize :=
    fun hdone => hinv.total ▸ le_antisymm hinv.offset_le hdone
  refine ⟨hframes, hle, hhashed, fun hc => hwhole (hinv.complete hc), hinv.bytesSent, ?_, ?_, ?_⟩
  · rw [hdeletions]
    split_ifs <;> decide
  · intro hpartial
    rw [hdeletions]
    exact if_neg fun hall => hpartial hall.2.2.1
  · intro hdropped
    rw [hdeletions, ← hframes, ite_eq_left_iff]
    constructor
    · intro hone
      have hall := not_not.mp fun hnot => absurd (hone hnot) (by decide)
      exact ⟨hall.2.1, hall.1.1, hall.2.2⟩
    · rintro ⟨hhandler, hverify, hcorrupt⟩ hnot
      have htaken := hinv.dropped hdropped (hinv.total ▸ hcorrupt.1.ge)
      exact absurd ⟨⟨hverify, htaken⟩, hhandler, hcorrupt⟩ hnot

/-- The SHA-1 of the three bytes below. -/
def abcDigest (_ : Bytes) : Sha1Digest :=
  #v[0xa9, 0x99, 0x3e, 0x36, 0x47, 0x06, 0x81, 0x6a, 0xba, 0x3e, 0x25, 0x71, 0x78, 0x50, 0xc2, 0x6c,
    0x9c, 0xd0, 0xd8, 0x9d]

def abcParams : FileBodyParams where
  totalSize := 3
  expectedHash := List.replicate 40 '0'
  verify := true
  cacheHandler := true

/-- Two reads for one frame, the end of the stream, one poll more and the drop. -/
def abcEvents : List BodyEvent :=
  [.poll, .proceed, .proceed, .proceed, .read 2, .read 1, .proceed, .poll, .proceed, .proceed,
    .poll, .proceed, .proceed, .drop]

theorem corrupt_abc_deleted : ∃ b, run (step abcDigest [97, 98, 99]) (.newFile abcParams false true)
    abcEvents = some b ∧ b.effects.deletions = 1 := by
  have hrun : (run (step abcDigest [97, 98, 99]) (.newFile abcParams false true) abcEvents).map
      (fun b => (b.pc, b.offset)) = some (.dropped, 3) := by
    decide +kernel
  obtain ⟨b, hb, hplace⟩ := Option.map_eq_some_iff.mp hrun
  obtain ⟨hpc, hoffset⟩ := Prod.mk.inj hplace
  obtain ⟨-, -, -, -, -, -, -, hdeleted⟩ := inline_verification_exact abcDigest [97, 98, 99] abcParams
    false true abcEvents b hb
  exact ⟨b, hb, (hdeleted hpc).mpr ⟨rfl, rfl, hoffset, by rw [hoffset]; decide +kernel⟩⟩

end HathRs.FileBodies
