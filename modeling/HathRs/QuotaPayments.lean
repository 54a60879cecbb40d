import HathRs.StreamingBodies
import HathRs.TransitionRuns

/-!
# What a throttled body pays

A body with flow control waits for the quota of a frame before it produces the frame. The
file, the channel and the time at which a quota is granted may be anything at every step.
There is at most one quota in hand, and every frame takes the one that was asked for at its
offset.
-/

namespace HathRs.QuotaPayments
open Digests StreamingBodies TransitionRuns

/-- What a step of the body finds. -/
structure Turn where
  file : Bytes
  watch : Watch
  event : BodyEvent

def step (sha1 : Bytes → Sha1Digest) (b : StreamingBody) (turn : Turn) : Option StreamingBody :=
  b.step sha1 turn.file turn.watch turn.event

/-- A body with flow control that was not polled yet. -/
inductive Throttled : StreamingBody → Prop
  | fromBytes (data : Bytes) (trafficStats : Bool) : Throttled (.fromBytes data true trafficStats)
  | newRandom (totalSize : ℕ) (randomBytes : Bytes) (trafficStats : Bool) :
      Throttled (.newRandom totalSize randomBytes true trafficStats)
  | newFile (p : FileBodyParams) (trafficStats : Bool) : Throttled (.newFile p true trafficStats)
  | newProxy (totalSize : ℕ) (trafficStats : Bool) : Throttled (.newProxy totalSize true trafficStats)

/-- The quota of the frame with a number. -/
def quotaOf (totalSize : ℕ) (frames : List Bytes) (i : ℕ) : ℕ :=
  min tcpPacketSize (totalSize - (frames.take i).flatten.length)

/-- The quotas of all frames. -/
def quotasOf (totalSize : ℕ) (frames : List Bytes) : List ℕ :=
  (List.range frames.length).map (quotaOf totalSize frames)

/-- `credit` is the number of quotas in hand. -/
structure Paid (b : StreamingBody) (credit : ℕ) : Prop where
  flow : b.flowControl = true
  offset : b.effects.frames.flatten.length = b.offset
  frames : ∀ (i : ℕ) (frame : Bytes), b.effects.frames[i]? = some frame →
    frame.length ≤ quotaOf b.totalSize b.effects.frames i
  quotas : b.effects.quotas = quotasOf b.totalSize b.effects.frames ++ List.replicate credit b.need

/-- Where the body has a quota in hand. -/
structure Inv (b : StreamingBody) (credit : ℕ) : Prop where
  paid : Paid b credit
  credit_le : credit ≤ 1
  credit_iff : b.pc ≠ .ended → b.pc ≠ .dropped → (credit = 1 ↔ b.throttled = true ∨ b.pc = .produce)
  requested : ∀ quota, b.throttleFut = some quota → quota = b.need ∧ b.throttled = false ∧
    (b.pc = .pollThrottle ∨ b.pc = .idle ∨ b.pc = .dropped)
  spent : b.pc = .produce → b.throttled = false

section Frames

variable {totalSize : ℕ} {frames : List Bytes} {b : StreamingBody} {chunk : Bytes}

theorem quotaOf_append {i : ℕ} (h : i ≤ frames.length) :
    quotaOf totalSize (frames ++ [chunk]) i = quotaOf totalSize frames i := by
  rw [quotaOf, quotaOf, List.take_append_of_le_length h]

theorem quotasOf_append : quotasOf totalSize (frames ++ [chunk]) =
    quotasOf totalSize frames ++ [quotaOf totalSize frames frames.length] := by
  rw [quotasOf, quotasOf, List.length_append, List.length_singleton, List.range_succ, List.map_append,
    List.map_singleton, quotaOf_append le_rfl]
  congr 1
  refine List.map_congr_left fun i hi => ?_
  exact quotaOf_append (List.mem_range.mp hi).le

/-- The quota of the next frame. -/
theorem Paid.quotaOf_next {credit : ℕ} (h : Paid b credit) :
    quotaOf b.totalSize b.effects.frames b.effects.frames.length = b.need := by
  rw [quotaOf, List.take_length, h.offset]
  rfl

/-- A frame takes the quota. -/
theorem Paid.emit (h : Paid b 1) (hchunk : chunk.length ≤ b.need) : Paid (b.emit chunk) 0 where
  flow := h.flow
  offset := by
    simp only [StreamingBody.emit, List.flatten_append, List.flatten_singleton, List.length_append,
      h.offset]
  frames := by
    intro i frame hframe
    simp only [StreamingBody.emit] at hframe ⊢
    rcases Nat.lt_or_ge i b.effects.frames.length with hold | hnew
    · rw [List.getElem?_append_left hold] at hframe
      rw [quotaOf_append hold.le]
      exact h.frames i frame hframe
    · rw [List.getElem?_append_right hnew] at hframe
      obtain rfl : i = b.effects.frames.length := by
        have := (List.getElem?_eq_some_iff.mp hframe).1
        rw [List.length_singleton] at this
        omega
      rw [Nat.sub_self, List.getElem?_cons_zero] at hframe
      cases hframe
      rw [quotaOf_append le_rfl, h.quotaOf_next]
      exact hchunk
  quotas := by
    simp only [StreamingBody.emit, quotasOf_append, h.quotaOf_next, List.replicate_zero, List.append_nil]
    exact h.quotas

end Frames

section Steps

variable {sha1 : Bytes → Sha1Digest} {b next : StreamingBody} {credit : ℕ}

theorem need_congr (hoffset : next.offset = b.offset) (htotal : next.totalSize = b.totalSize) :
    next.need = b.need := by
  rw [StreamingBody.need, StreamingBody.need, hoffset, htotal]

theorem Paid.congr (h : Paid b credit) (hflow : next.flowControl = b.flowControl)
    (hoffset : next.offset = b.offset) (htotal : next.totalSize = b.totalSize)
    (hframes : next.effects.frames = b.effects.frames)
    (hquotas : next.effects.quotas = b.effects.quotas) : Paid next credit where
  flow := hflow.trans h.flow
  offset := by
    rw [hframes, hoffset]
    exact h.offset
  frames := by
    rw [hframes, htotal]
    exact h.frames
  quotas := by
    rw [hquotas, hframes, htotal, need_congr hoffset htotal]
    exact h.quotas

theorem inv_throttled (h : Throttled b) : Inv b 0 := by
  have hnone : 0 = 1 ↔ false = true ∨ Pc.idle = .produce := by decide
  cases h <;> exact ⟨⟨rfl, rfl, nofun, rfl⟩, Nat.zero_le _, fun _ _ => hnone, nofun, nofun⟩

/-- The body is neither producing a frame nor at its end. -/
def onTheWay : Pc → Bool
  | .produce | .ended | .dropped => false
  | _ => true

theorem Inv.credit_onTheWay (h : Inv b credit) (hpc : onTheWay b.pc = true) :
    credit = 1 ↔ b.throttled = true := by
  have hplaces : b.pc ≠ .ended ∧ b.pc ≠ .dropped ∧ b.pc ≠ .produce := by
    refine ⟨?_, ?_, ?_⟩ <;>
    · intro heq
      rw [heq] at hpc
      cases hpc
  rw [h.credit_iff hplaces.1 hplaces.2.1, or_iff_left hplaces.2.2]

/-- The body goes to another place with the quota that it has. -/
theorem Inv.move (h : Inv b credit) {pc : Pc} (hfrom : onTheWay b.pc = true) (hto : onTheWay pc = true)
    (hrequested : b.throttleFut ≠ none → pc = .pollThrottle ∨ pc = .idle) (seen : ℕ)
    (waitFut : Option ℕ) : Inv { b with pc := pc, seen := seen, waitFut := waitFut } credit where
  paid := ⟨h.paid.flow, h.paid.offset, h.paid.frames, h.paid.quotas⟩
  credit_le := h.credit_le
  credit_iff := by
    intro _ _
    rw [h.credit_onTheWay hfrom, or_iff_left]
    rintro rfl
    cases hto
  requested := by
    intro quota hquota
    obtain ⟨hneed, hthrottled, -⟩ := h.requested quota hquota
    refine ⟨hneed, hthrottled, ?_⟩
    rcases hrequested (Option.ne_none_iff_exists'.mpr ⟨quota, hquota⟩) with hpc | hpc
    · exact .inl hpc
    · exact .inr (.inl hpc)
  spent := by
    rintro rfl
    cases hto

theorem Inv.finish (h : Inv b credit) (reason : Option BodyIncompleteReason) {pc : Pc}
    (hpc : pc = .dropped ∨ (pc = .ended ∧ b.throttleFut = none)) :
    Inv { b.finishWith sha1 reason with pc := pc } credit := by
  obtain ⟨hflow, hoffset, htotal, hthrottled, hfut, hframes, hquotas⟩ := b.finishWith_frame sha1 reason
  refine ⟨h.paid.congr hflow hoffset htotal hframes hquotas, h.credit_le, ?_, ?_, ?_⟩
  · intro hended hdropped
    rcases hpc with rfl | ⟨rfl, -⟩
    · exact absurd rfl hdropped
    · exact absurd rfl hended
  · intro quota hquota
    rcases hpc with rfl | ⟨rfl, hnone⟩
    · obtain ⟨hneed, hpending, -⟩ := h.requested quota (hfut.symm.trans hquota)
      exact ⟨hneed.trans (need_congr hoffset htotal).symm, hthrottled.trans hpending, .inr (.inr rfl)⟩
    · cases (hfut.trans hnone).symm.trans hquota
  · intro hproduce
    rcases hpc with rfl | ⟨rfl, -⟩
    · cases hproduce
    · cases hproduce

/-- Bytes that are read but not sent cost nothing. -/
theorem Inv.read (h : Inv b credit) (position : ℕ) (fileBuf digest : Bytes) :
    Inv { b with position := position, fileBuf := fileBuf, sha1 := digest } credit :=
  ⟨⟨h.paid.flow, h.paid.offset, h.paid.frames, h.paid.quotas⟩, h.credit_le, h.credit_iff, h.requested,
    h.spent⟩

/-- The quota that a frame of the body takes was asked for at its offset. -/
theorem Inv.credit_of_produce (h : Inv b credit) (hpc : b.pc = .produce) : credit = 1 :=
  (h.credit_iff (by rw [hpc]; decide) (by rw [hpc]; decide)).mpr (.inr hpc)

theorem Inv.emit (h : Inv b credit) (hpc : b.pc = .produce) {chunk : Bytes}
    (hchunk : chunk.length ≤ b.need) : Inv (b.emit chunk) 0 := by
  obtain rfl := h.credit_of_produce hpc
  have hspent := h.spent hpc
  refine ⟨h.paid.emit hchunk, Nat.zero_le _, fun _ _ => ?_, ?_, nofun⟩
  · simp [StreamingBody.emit, hspent]
  · intro quota hquota
    obtain ⟨-, -, hplace⟩ := h.requested quota hquota
    rw [hpc] at hplace
    exact absurd hplace (by decide)

/-- The quota is granted. -/
theorem Inv.grant (h : Inv b credit) (hpc : b.pc = .pollThrottle) {quota : ℕ}
    (hquota : b.throttleFut = some quota) : Inv { b with
      throttleFut := none
      throttled := true
      pc := .checkDone
      effects := { b.effects with quotas := b.effects.quotas ++ [quota] } } 1 := by
  obtain ⟨rfl, hthrottled, -⟩ := h.requested quota hquota
  obtain rfl : credit = 0 := by
    have hcredit := h.credit_onTheWay (by rw [hpc]; rfl)
    rw [hthrottled] at hcredit
    have hnone : ¬credit = 1 := fun hone => absurd (hcredit.mp hone) (by decide)
    have := h.credit_le
    omega
  refine ⟨⟨h.paid.flow, h.paid.offset, h.paid.frames, ?_⟩, le_rfl, fun _ _ => ?_, nofun, nofun⟩
  · have hquotas := h.paid.quotas
    rw [List.replicate_zero, List.append_nil] at hquotas
    simp only [hquotas]
    rfl
  · simp

/-- A request is made for the frame at the offset, when there is no quota in hand. -/
theorem Inv.request (h : Inv b credit) (hpc : b.pc = .throttle) (hthrottled : b.throttled = false) :
    Inv { b with throttleFut := some b.need, pc := .pollThrottle } credit := by
  have hcredit := h.credit_onTheWay (by rw [hpc]; rfl)
  refine ⟨⟨h.paid.flow, h.paid.offset, h.paid.frames, h.paid.quotas⟩, h.credit_le, fun _ _ => ?_, ?_, nofun⟩
  · rw [hcredit, hthrottled]
    simp
  · rintro quota ⟨⟩
    exact ⟨rfl, hthrottled, .inl rfl⟩

/-- The quota in hand is for the frame that is produced now. -/
theorem Inv.spend (h : Inv b credit) (hpc : b.pc = .throttle) (hthrottled : b.throttled = true) :
    Inv { b with throttled := false, pc := .produce } credit := by
  have hcredit := (h.credit_onTheWay (by rw [hpc]; rfl)).mpr hthrottled
  refine ⟨⟨h.paid.flow, h.paid.offset, h.paid.frames, h.paid.quotas⟩, h.credit_le, fun _ _ => ?_, ?_,
    fun _ => rfl⟩
  · simp [hcredit]
  · intro quota hquota
    obtain ⟨-, -, hplace⟩ := h.requested quota hquota
    rw [hpc] at hplace
    exact absurd hplace (by decide)

/-- No request is open outside of the places that poll it. -/
theorem Inv.throttleFut_eq_none (h : Inv b credit) {pc : Pc} (hpc : b.pc = pc)
    (hplace : ¬(pc = .pollThrottle ∨ pc = .idle ∨ pc = .dropped)) : b.throttleFut = none := by
  cases hfut : b.throttleFut with
  | none => rfl
  | some quota =>
    obtain ⟨-, -, hin⟩ := h.requested quota hfut
    exact absurd (hpc ▸ hin) hplace

theorem Inv.produceBuffered (h : Inv b credit) (hpc : b.pc = .produce) :
    ∃ credit, Inv (b.produceBuffered sha1) credit := by
  have hchunk : (b.fileBuf.take b.need).length ≤ b.need := List.length_take_le ..
  simp only [StreamingBody.produceBuffered]
  split_ifs with hempty
  · exact ⟨credit, h.finish _ (.inr ⟨rfl, h.throttleFut_eq_none hpc (by decide)⟩)⟩
  · refine ⟨0, ?_⟩
    cases hsource : b.source with
    | file expectedHash =>
      have hemit := (h.read b.position (b.fileBuf.drop b.need) (b.sha1 ++ b.fileBuf.take b.need)).emit
        hpc hchunk
      rw [hsource] at hemit
      exact hemit
    | static | random | proxy =>
      have hemit := (h.read b.position (b.fileBuf.drop b.need) b.sha1).emit hpc hchunk
      rw [hsource] at hemit
      exact hemit

theorem Inv.produceFromFile (h : Inv b credit) (hpc : b.pc = .produce) {file : Bytes} {event : BodyEvent}
    (hstep : b.produceFromFile sha1 file event = some next) : ∃ credit, Inv next credit := by
  cases event with
  | proceed =>
    simp only [StreamingBody.produceFromFile, Option.ite_none_left_eq_some, Option.some.injEq] at hstep
    obtain ⟨-, rfl⟩ := hstep
    exact h.produceBuffered hpc
  | read count =>
    simp only [StreamingBody.produceFromFile, Option.ite_none_right_eq_some] at hstep
    obtain ⟨-, hstep⟩ := hstep
    split_ifs at hstep
    · cases hstep
      exact ⟨credit, h.read _ _ b.sha1⟩
    · cases hstep
      exact h.produceBuffered hpc
  | readError =>
    simp only [StreamingBody.produceFromFile, Option.ite_none_right_eq_some, Option.some.injEq] at hstep
    obtain ⟨-, rfl⟩ := hstep
    exact ⟨credit, h.finish _ (.inr ⟨rfl, h.throttleFut_eq_none hpc (by decide)⟩)⟩
  | poll | quota | random | drop => cases hstep

theorem Inv.produce (h : Inv b credit) (hpc : b.pc = .produce) {file : Bytes} {event : BodyEvent}
    (hstep : b.produce sha1 file event = some next) : ∃ credit, Inv next credit := by
  cases hsource : b.source with
  | static data =>
    simp only [StreamingBody.produce, hsource, h.paid.flow, if_true, Option.ite_none_right_eq_some,
      Option.some.injEq] at hstep
    obtain ⟨-, rfl⟩ := hstep
    refine ⟨0, h.emit hpc ?_⟩
    simp only [List.length_drop, List.length_take, StreamingBody.need]
    omega
  | random randomBytes =>
    simp only [StreamingBody.produce, hsource] at hstep
    split at hstep
    · cases hstep
      exact ⟨0, h.emit hpc (List.length_take_le ..)⟩
    · cases hstep
  | file | proxy =>
    simp only [StreamingBody.produce, hsource] at hstep
    exact h.produceFromFile hpc hstep

theorem Inv.sampleStep (h : Inv b credit) {gone : Bool} (hpc : b.pc = .sample gone) (watch : Watch) :
    Inv (b.sampleStep sha1 gone watch) credit := by
  have hfrom : onTheWay b.pc = true := by rw [hpc]; rfl
  have hfut := h.throttleFut_eq_none hpc (by simp)
  simp only [StreamingBody.sampleStep]
  split_ifs
  · exact h.move hfrom rfl (fun hne => absurd hfut hne) _ _
  · split
    · have hseen : Inv { b with seen := watch.version } credit :=
        ⟨⟨h.paid.flow, h.paid.offset, h.paid.frames, h.paid.quotas⟩, h.credit_le, h.credit_iff,
          h.requested, h.spent⟩
      exact hseen.finish _ (.inr ⟨rfl, hfut⟩)
    · exact h.move hfrom rfl (fun hne => absurd hfut hne) _ _

theorem Inv.advancePoll (h : Inv b credit) {turn : Turn}
    (hstep : b.advancePoll sha1 turn.file turn.watch turn.event = some next) :
    ∃ credit, Inv next credit := by
  cases StreamingBody.advances_of_advancePoll hstep with
  | granted hpc hfut => exact ⟨1, h.grant hpc hfut⟩
  | refused hpc => exact ⟨credit, h.move (by rw [hpc]; rfl) rfl (fun _ => .inr rfl) _ _⟩
  | unasked hpc hfut => exact ⟨credit, h.move (by rw [hpc]; rfl) rfl (fun hne => absurd hfut hne) _ _⟩
  | done hpc => exact ⟨credit, h.finish _ (.inr ⟨rfl, h.throttleFut_eq_none hpc (by decide)⟩)⟩
  | gated hpc | ungated hpc | looked hpc | woken hpc | waits hpc =>
    have hfut := h.throttleFut_eq_none hpc (by decide)
    exact ⟨credit, h.move (by rw [hpc]; rfl) rfl (fun hne => absurd hfut hne) _ _⟩
  | sampled hpc => exact ⟨credit, h.sampleStep hpc turn.watch⟩
  | asks hpc hthrottled => exact ⟨credit, h.request hpc hthrottled⟩
  | passes hpc hpaid =>
    exact ⟨credit, h.spend hpc (hpaid h.paid.flow (h.throttleFut_eq_none hpc (by decide)))⟩
  | produces hpc hproduce => exact h.produce hpc hproduce

/-- A step starts a poll, drops the body or goes on with the poll. -/
theorem step_cases {turn : Turn} (hstep : step sha1 b turn = some next) :
    (b.pc = .idle ∧ next = { b with pc := .pollThrottle }) ∨
    next = { b.finishWith sha1 none with pc := .dropped } ∨
    b.advancePoll sha1 turn.file turn.watch turn.event = some next := by
  rw [QuotaPayments.step] at hstep
  cases hevent : turn.event with
  | poll =>
    rw [hevent] at hstep
    simp only [StreamingBody.step, Option.ite_none_right_eq_some, Option.some.injEq] at hstep
    exact .inl ⟨hstep.1, hstep.2.symm⟩
  | drop =>
    rw [hevent] at hstep
    simp only [StreamingBody.step, Option.ite_none_right_eq_some, Option.some.injEq] at hstep
    exact .inr (.inl hstep.2.symm)
  | proceed | quota | read | readError | random =>
    rw [hevent] at hstep
    exact .inr (.inr hstep)

theorem Inv.step (h : Inv b credit) {turn : Turn} (hstep : step sha1 b turn = some next) :
    ∃ credit, Inv next credit := by
  rcases step_cases hstep with ⟨hpc, rfl⟩ | rfl | hadvance
  · exact ⟨credit, h.move (by rw [hpc]; rfl) rfl (fun _ => .inl rfl) _ _⟩
  · exact ⟨credit, h.finish _ (.inl rfl)⟩
  · exact h.advancePoll hadvance

/-! ## When a frame leaves and when a quota is asked for -/

/-- The step emits a frame. -/
def Emits (b next : StreamingBody) (frame : Bytes) : Prop :=
  next.effects.frames = b.effects.frames ++ [frame] ∧ next.effects.quotas = b.effects.quotas ∧
    next.totalSize = b.totalSize

theorem frames_finishWith (reason : Option BodyIncompleteReason) (pc : Pc) :
    { b.finishWith sha1 reason with pc := pc }.effects.frames = b.effects.frames :=
  (b.finishWith_frame sha1 reason).2.2.2.2.2.1

theorem throttleFut_finishWith (reason : Option BodyIncompleteReason) (pc : Pc) :
    { b.finishWith sha1 reason with pc := pc }.throttleFut = b.throttleFut :=
  (b.finishWith_frame sha1 reason).2.2.2.2.1

/-- What a step does that may send a frame. -/
def Produces (b next : StreamingBody) : Prop :=
  (next.effects.frames = b.effects.frames ∨ ∃ frame, Emits b next frame) ∧
    next.throttleFut = b.throttleFut ∧ next.pc ≠ .throttle

theorem produces_finish (reason : Option BodyIncompleteReason) :
    Produces b { b.finishWith sha1 reason with pc := .ended } :=
  ⟨.inl (frames_finishWith _ _), throttleFut_finishWith _ _, nofun⟩

theorem produces_emit (chunk : Bytes) : Produces b (b.emit chunk) :=
  ⟨.inr ⟨chunk, rfl, rfl, rfl⟩, rfl, nofun⟩

theorem produces_produceBuffered : Produces b (b.produceBuffered sha1) := by
  simp only [StreamingBody.produceBuffered]
  split_ifs
  · exact produces_finish _
  · cases hsource : b.source with
    | static | random | file | proxy => exact ⟨.inr ⟨_, rfl, rfl, rfl⟩, rfl, nofun⟩

theorem produces_produceFromFile {file : Bytes} {event : BodyEvent} (hpc : b.pc = .produce)
    (hstep : b.produceFromFile sha1 file event = some next) : Produces b next := by
  cases event with
  | proceed =>
    simp only [StreamingBody.produceFromFile, Option.ite_none_left_eq_some, Option.some.injEq] at hstep
    obtain ⟨-, rfl⟩ := hstep
    exact produces_produceBuffered
  | read count =>
    simp only [StreamingBody.produceFromFile, Option.ite_none_right_eq_some] at hstep
    obtain ⟨-, hstep⟩ := hstep
    split_ifs at hstep
    · cases hstep
      exact ⟨.inl rfl, rfl, by rw [hpc]; decide⟩
    · cases hstep
      exact produces_produceBuffered
  | readError =>
    simp only [StreamingBody.produceFromFile, Option.ite_none_right_eq_some, Option.some.injEq] at hstep
    obtain ⟨-, rfl⟩ := hstep
    exact produces_finish _
  | poll | quota | random | drop => cases hstep

theorem produces_produce {file : Bytes} {event : BodyEvent} (hpc : b.pc = .produce)
    (hstep : b.produce sha1 file event = some next) : Produces b next := by
  cases hsource : b.source with
  | static data =>
    simp only [StreamingBody.produce, hsource, Option.ite_none_right_eq_some, Option.some.injEq] at hstep
    obtain ⟨-, rfl⟩ := hstep
    exact produces_emit _
  | random randomBytes =>
    simp only [StreamingBody.produce, hsource] at hstep
    split at hstep
    · cases hstep
      exact produces_emit _
    · cases hstep
  | file | proxy =>
    simp only [StreamingBody.produce, hsource] at hstep
    exact produces_produceFromFile hpc hstep

/-- The sample of the channel let the frame at the offset pass. -/
def LetPass (b : StreamingBody) (watch : Watch) : Prop :=
  ∃ gone, b.pc = .sample gone ∧ b.offset + b.need ≤ (b.sampled gone watch.value).1

/-- Outside of the place that produces frames nothing leaves the body. A quota is asked for at
one place, and a proxy comes there from the sample that let it pass. -/
theorem advancePoll_cases {turn : Turn} (hpc : b.pc ≠ .produce)
    (hstep : b.advancePoll sha1 turn.file turn.watch turn.event = some next) :
    next.effects.frames = b.effects.frames ∧
    (next.throttleFut = none ∨ next.throttleFut = b.throttleFut ∨ b.pc = .throttle) ∧
    (next.pc = .throttle → next.isProxy = true → LetPass b turn.watch ∧ next.offset = b.offset) := by
  cases StreamingBody.advances_of_advancePoll hstep with
  | granted => exact ⟨rfl, .inl rfl, nofun⟩
  | refused | unasked | gated | looked | woken | waits => exact ⟨rfl, .inr (.inl rfl), nofun⟩
  | done => exact ⟨frames_finishWith _ _, .inr (.inl (throttleFut_finishWith _ _)), nofun⟩
  | ungated _ _ hproxy =>
    exact ⟨rfl, .inr (.inl rfl), fun _ hnext => absurd hnext (hproxy ▸ Bool.false_ne_true)⟩
  | sampled hplace =>
    simp only [StreamingBody.sampleStep]
    split_ifs with henough
    · exact ⟨rfl, .inr (.inl rfl), fun _ _ => ⟨⟨_, hplace, henough⟩, rfl⟩⟩
    · split
      · exact ⟨frames_finishWith _ _, .inr (.inl (throttleFut_finishWith _ _)), nofun⟩
      · exact ⟨rfl, .inr (.inl rfl), nofun⟩
  | asks hplace => exact ⟨rfl, .inr (.inr hplace), nofun⟩
  | passes => exact ⟨rfl, .inr (.inl rfl), nofun⟩
  | produces hplace => exact absurd hplace hpc

/-- A frame leaves only at the place that produces it. -/
theorem emits_of_frames_ne {turn : Turn} (hstep : step sha1 b turn = some next)
    (hframes : next.effects.frames ≠ b.effects.frames) :
    b.pc = .produce ∧ ∃ frame, Emits b next frame := by
  rcases step_cases hstep with ⟨-, rfl⟩ | rfl | hadvance
  · exact absurd rfl hframes
  · exact absurd (frames_finishWith _ _) hframes
  · by_cases hpc : b.pc = .produce
    · simp only [StreamingBody.advancePoll, hpc] at hadvance
      exact ⟨hpc, (produces_produce hpc hadvance).1.resolve_left hframes⟩
    · exact absurd (advancePoll_cases hpc hadvance).1 hframes

/-- A quota is asked for at one place only. -/
theorem throttle_of_request {turn : Turn} (hstep : step sha1 b turn = some next)
    (hnone : b.throttleFut = none) (hrequest : next.throttleFut ≠ none) : b.pc = .throttle := by
  have hkept : ¬next.throttleFut = b.throttleFut := fun heq => hrequest (heq.trans hnone)
  rcases step_cases hstep with ⟨-, rfl⟩ | rfl | hadvance
  · exact absurd hnone hrequest
  · exact absurd (throttleFut_finishWith _ _) hkept
  · by_cases hpc : b.pc = .produce
    · simp only [StreamingBody.advancePoll, hpc] at hadvance
      exact absurd (produces_produce hpc hadvance).2.1 hkept
    · rcases (advancePoll_cases hpc hadvance).2.1 with hfut | hfut | hthrottle
      · exact absurd hfut hrequest
      · exact absurd hfut hkept
      · exact hthrottle

/-- A proxy comes there only from a sample that let it pass. -/
theorem letPass_of_throttle {turn : Turn} (hstep : step sha1 b turn = some next)
    (hpc : next.pc = .throttle) (hproxy : next.isProxy = true) :
    LetPass b turn.watch ∧ next.offset = b.offset := by
  rcases step_cases hstep with ⟨-, rfl⟩ | rfl | hadvance
  · cases hpc
  · cases hpc
  · by_cases hproduce : b.pc = .produce
    · simp only [StreamingBody.advancePoll, hproduce] at hadvance
      exact absurd hpc (produces_produce hproduce hadvance).2.2
    · exact (advancePoll_cases hproduce hadvance).2.2 hpc hproxy

end Steps

theorem inv_of_run {sha1 : Bytes → Sha1Digest} {b₀ b : StreamingBody} (h₀ : Throttled b₀)
    {turns : List Turn} (hrun : run (step sha1) b₀ turns = some b) : ∃ credit, Inv b credit := by
  have hstep : ∀ (b : StreamingBody) (turn : Turn) (next : StreamingBody), (∃ credit, Inv b credit) →
      True → step sha1 b turn = some next → ∃ credit, Inv next credit := by
    rintro b turn next ⟨credit, h⟩ - hstep
    exact h.step hstep
  exact run_invariant hstep ⟨0, inv_throttled h₀⟩ (allSteps_true _ _) hrun

theorem pc_idle_of_throttled {b : StreamingBody} (h : Throttled b) : b.pc = .idle := by
  cases h <;> rfl

section Results

variable {sha1 : Bytes → Sha1Digest} {b next : StreamingBody} {credit : ℕ}

theorem length_quotasOf (totalSize : ℕ) (frames : List Bytes) :
    (quotasOf totalSize frames).length = frames.length := by
  rw [quotasOf, List.length_map, List.length_range]

theorem Inv.length_quotas (h : Inv b credit) :
    b.effects.quotas.length = b.effects.frames.length + credit := by
  rw [h.paid.quotas, List.length_append, length_quotasOf, List.length_replicate]

theorem Inv.quota_of_frame (h : Inv b credit) {i : ℕ} {frame : Bytes}
    (hframe : b.effects.frames[i]? = some frame) :
    b.effects.quotas[i]? = some (quotaOf b.totalSize b.effects.frames i) := by
  have hi : i < b.effects.frames.length := (List.getElem?_eq_some_iff.mp hframe).1
  have hlength := length_quotasOf b.totalSize b.effects.frames
  rw [h.paid.quotas, List.getElem?_append_left (hlength ▸ hi), quotasOf, List.getElem?_map,
    List.getElem?_range hi]
  rfl

/-- When a frame leaves there is one quota more than frames, and the last one is for it. -/
theorem Inv.emission (h : Inv b credit) {turn : Turn} (hstep : QuotaPayments.step sha1 b turn = some next)
    (hframes : next.effects.frames ≠ b.effects.frames) :
    ∃ frame, next.effects.frames = b.effects.frames ++ [frame] ∧
      b.effects.quotas.length = b.effects.frames.length + 1 ∧
      b.effects.quotas.getLast? = some b.need ∧ frame.length ≤ b.need := by
  obtain ⟨hpc, frame, hemits, -, htotal⟩ := emits_of_frames_ne hstep hframes
  obtain rfl := h.credit_of_produce hpc
  obtain ⟨credit', h'⟩ := h.step hstep
  refine ⟨frame, hemits, h.length_quotas, ?_, ?_⟩
  · rw [h.paid.quotas, List.replicate_one, List.getLast?_concat]
  · have hframe := h'.paid.frames b.effects.frames.length frame
    rw [hemits, htotal, quotaOf_append le_rfl, h.paid.quotaOf_next] at hframe
    exact hframe (List.getElem?_concat_length ..)

end Results

/-- Each frame of a throttled body has at most the size of a packet and takes the one quota that
was granted for its offset. A body has at most one quota more than frames, and a proxy asks for
one right after the channel was found to have the data. -/
theorem frames_paid_once (sha1 : Bytes → Sha1Digest) (b₀ : StreamingBody) (h₀ : Throttled b₀)
    (turns : List Turn) (b : StreamingBody) (hrun : run (step sha1) b₀ turns = some b) :
    (∀ frame ∈ b.effects.frames, frame.length ≤ tcpPacketSize) ∧
    (∀ (i : ℕ) (frame : Bytes), b.effects.frames[i]? = some frame →
      b.effects.quotas[i]? = some (quotaOf b.totalSize b.effects.frames i) ∧
      frame.length ≤ quotaOf b.totalSize b.effects.frames i) ∧
    b.effects.frames.length ≤ b.effects.quotas.length ∧
    b.effects.quotas.length ≤ b.effects.frames.length + 1 ∧
    ∀ (turn : Turn) (next : StreamingBody), step sha1 b turn = some next →
      (next.effects.frames ≠ b.effects.frames →
        ∃ frame, next.effects.frames = b.effects.frames ++ [frame] ∧
          b.effects.quotas.length = b.effects.frames.length + 1 ∧
          b.effects.quotas.getLast? = some (min tcpPacketSize (b.totalSize - b.offset)) ∧
          frame.length ≤ min tcpPacketSize (b.totalSize - b.offset)) ∧
      (b.throttleFut = none → next.throttleFut ≠ none → b.isProxy = true →
        ∃ before sample prior, turns = before ++ [sample] ∧
          run (step sha1) b₀ before = some prior ∧ LetPass prior sample.watch ∧
          b.offset = prior.offset) := by
  obtain ⟨credit, h⟩ := inv_of_run h₀ hrun
  have hlength := h.length_quotas
  have hcredit := h.credit_le
  refine ⟨?_, fun i frame hframe => ⟨h.quota_of_frame hframe, h.paid.frames i frame hframe⟩,
    by omega, by omega, fun turn next hstep => ⟨fun hframes => h.emission hstep hframes, ?_⟩⟩
  · intro frame hmem
    obtain ⟨i, hi⟩ := List.mem_iff_getElem?.mp hmem
    exact (h.paid.frames i frame hi).trans (Nat.min_le_left _ _)
  · intro hnone hrequest hproxy
    have hpc := throttle_of_request hstep hnone hrequest
    rcases List.eq_nil_or_concat turns with rfl | ⟨before, sample, rfl⟩
    · cases hrun
      rw [pc_idle_of_throttled h₀] at hpc
      cases hpc
    · rw [List.concat_eq_append] at hrun ⊢
      rw [run_append] at hrun
      obtain ⟨prior, hprior, hlast⟩ := Option.bind_eq_some_iff.mp hrun
      have hsample : step sha1 prior sample = some b := by
        simpa [run, Option.bind_eq_some_iff] using hlast
      obtain ⟨hpass, hoffset⟩ := letPass_of_throttle hsample hpc hproxy
      exact ⟨before, sample, prior, rfl, hprior, hpass, hoffset⟩

/-- A proxy of three bytes that waits for the data, for the channel and for the quota. -/
def waitingTurns : List Turn :=
  let early : Watch := ⟨.inProgress 0, 0, true⟩
  let late : Watch := ⟨.inProgress 3, 1, true⟩
  [⟨[], early, .poll⟩, ⟨[], early, .proceed⟩, ⟨[], early, .proceed⟩, ⟨[], early, .proceed⟩,
    ⟨[], early, .proceed⟩, ⟨[], early, .proceed⟩,
    ⟨[1, 2, 3], late, .poll⟩, ⟨[1, 2, 3], late, .proceed⟩, ⟨[1, 2, 3], late, .proceed⟩,
    ⟨[1, 2, 3], late, .proceed⟩, ⟨[1, 2, 3], late, .proceed⟩, ⟨[1, 2, 3], late, .proceed⟩,
    ⟨[1, 2, 3], late, .quota false⟩,
    ⟨[1, 2, 3], late, .poll⟩, ⟨[1, 2, 3], late, .quota true⟩, ⟨[1, 2, 3], late, .proceed⟩,
    ⟨[1, 2, 3], late, .proceed⟩, ⟨[1, 2, 3], late, .proceed⟩, ⟨[1, 2, 3], late, .proceed⟩,
    ⟨[1, 2, 3], late, .read 3⟩, ⟨[1, 2, 3], late, .proceed⟩]

/-- A proxy hashes nothing. -/
def unusedDigest (_ : Bytes) : Sha1Digest := Vector.replicate 20 0

theorem waiting_proxy_pays_once : ∃ b, run (step unusedDigest) (.newProxy 3 true true) waitingTurns =
    some b ∧ b.effects.frames = [[1, 2, 3]] ∧ b.effects.quotas[0]? = some 3 := by
  have hrun : (run (step unusedDigest) (.newProxy 3 true true) waitingTurns).map
      (fun b => (b.effects.frames, b.totalSize)) = some ([[1, 2, 3]], 3) := by
    decide +kernel
  obtain ⟨b, hb, hsent⟩ := Option.map_eq_some_iff.mp hrun
  obtain ⟨hframes, htotal⟩ := Prod.mk.inj hsent
  obtain ⟨-, hpaid, -⟩ := frames_paid_once unusedDigest _ (.newProxy 3 true) waitingTurns b hb
  have hquota := (hpaid 0 [1, 2, 3] (by rw [hframes]; rfl)).1
  rw [hframes, htotal] at hquota
  exact ⟨b, hb, hframes, hquota⟩

end HathRs.QuotaPayments
