import HathRs.ProxyFinalization
import HathRs.ProxyProtocol

/-!
# A proxied file from its sources to the client

The task of a download asks its sources, receives into the temporary file and publishes; the
body of the response reads behind it. `recoverEvents` and `taskEvents` are the steps of the
task that the code takes, so that what the protocol guarantees for every task can be said of
the bytes that the sources have sent.
-/

namespace HathRs.ProxiedTransfers
open TextParsing Digests FileIds PartialFiles StreamingBodies TransitionRuns UpstreamRecovery
open ProxyProtocol

/-! ## The steps of the task -/

section Events

variable (sha1 : Bytes → Sha1Digest) (gets : ℕ → GetOutcome)

/-- The steps of `recover`: those of every response that is received. -/
def recoverEvents (up : Upstream) (pf : PartialFile) (response : Response) : List DownloadEvent :=
  receiveEvents sha1 pf response.body ++
    match receive sha1 pf response.body with
    | (_, .ok ()) => []
    | (_, .error .cancelled) => []
    | (left, .error (.error e)) =>
      let noted := { up with retained := left.written }
      if _hstop : e.retryable = false ∨ maxAttempts ≤ up.attempts then []
      else
        match _hnext : connect gets noted with
        | (_, .error _) => []
        | (next, .ok response) => recoverEvents next left response
termination_by maxAttempts - up.attempts
decreasing_by
  have hattempts := connect_attempts gets noted
  rw [_hnext] at hattempts
  simp only [noted] at hattempts
  have := Nat.not_le.mp fun hle => _hstop (Or.inr hle)
  omega

def downloadEvents (openFails : Bool) (up : Upstream) (response : Response) : List DownloadEvent :=
  if openFails then [] else recoverEvents sha1 gets up (.open up.expectedSize) response

/-- The steps of `ProxyDownloadTask::run`. `moved` is whether the file gets into the cache. -/
def taskEvents (openFails flushFails moved : Bool) (up : Upstream) (response : Response) :
    List DownloadEvent :=
  downloadEvents sha1 gets openFails up response ++
    match (download sha1 gets openFails flushFails up response).2.2 with
    | .ok () => [.complete, .finalize moved, .leave]
    | .error e => [.fail e.reason, .leave]

end Events

/-! ## What a task keeps -/

/-- The file and what is published only grow. -/
structure Grows (d d' : Download) : Prop where
  file : d.file <+: d'.file
  published : d.published <:+ d'.published
  expected : d'.expectedSize = d.expectedSize

theorem Grows.refl (d : Download) : Grows d d := ⟨List.prefix_refl _, List.suffix_refl _, rfl⟩

theorem Grows.trans {d d' d'' : Download} (h : Grows d d') (h' : Grows d' d'') : Grows d d'' :=
  ⟨h.file.trans h'.file, h.published.trans h'.published, h'.expected.trans h.expected⟩

theorem grows_of_step {d d' : Download} {proxyDone : Bool} {event : DownloadEvent}
    (h : d.step proxyDone event = some d') : Grows d d' := by
  cases event with
  | chunk suffix =>
    simp only [Download.step, Option.ite_none_right_eq_some, Option.some.injEq] at h
    obtain ⟨-, rfl⟩ := h
    exact ⟨List.prefix_refl _, List.suffix_refl _, rfl⟩
  | write count =>
    simp only [Download.step, Option.ite_none_right_eq_some, Option.some.injEq] at h
    obtain ⟨-, rfl⟩ := h
    exact ⟨List.prefix_append _ _, List.suffix_refl _, rfl⟩
  | publish =>
    simp only [Download.step, Option.ite_none_right_eq_some, Option.some.injEq] at h
    obtain ⟨-, rfl⟩ := h
    exact ⟨List.prefix_refl _, List.suffix_cons _ _, rfl⟩
  | fail reason | complete | finalize ok | leave =>
    simp only [Download.step, Option.ite_none_right_eq_some, Option.some.injEq] at h
    obtain ⟨-, rfl⟩ := h
    exact ⟨List.prefix_refl _, List.suffix_refl _, rfl⟩
  | vanish =>
    cases h
    exact ⟨List.prefix_refl _, List.suffix_refl _, rfl⟩

/-- The task with the signal of the body at hand. Without it fewer steps are possible. -/
def lateStep (d : Download) (event : DownloadEvent) : Option Download := d.step true event

theorem lateStep_of_step {d d' : Download} {proxyDone : Bool} {event : DownloadEvent}
    (h : d.step proxyDone event = some d') : lateStep d event = some d' := by
  cases proxyDone with
  | true => exact h
  | false =>
    cases event with
    | chunk | write | publish | fail | complete | vanish => exact h
    | finalize | leave => simp_all [lateStep, Download.step]

theorem grows_of_run {d d' : Download} {events : List DownloadEvent}
    (h : run lateStep d events = some d') : Grows d d' := by
  have hstep : ∀ (mid : Download) (event : DownloadEvent) (next : Download), Grows d mid → True →
      lateStep mid event = some next → Grows d next :=
    fun _ _ _ hgrows _ hstep => hgrows.trans (grows_of_step hstep)
  exact run_invariant hstep (Grows.refl d) (allSteps_true _ _) h

theorem run_late {d d' : Download} {events : List DownloadEvent}
    (h : run taskStep d events = some d') : run lateStep d events = some d' := by
  induction events generalizing d with
  | nil => exact h
  | cons event events ih =>
    obtain ⟨next, hnext, hrest⟩ := Option.bind_eq_some_iff.mp h
    rw [run_cons_of_step (lateStep_of_step hnext), ih hrest]

/-! ## The task takes these steps -/

section Simulation

variable {sha1 : Bytes → Sha1Digest} {gets : ℕ → GetOutcome} {flushFails : Bool}
variable {up next : Upstream} {pf left : PartialFile} {response : Response} {result : RecoverResult}

theorem disturbed_of_retryable {e : DownloadError} (h : e.retryable ≠ false) :
    disturbed (.error e) = false := by
  cases e with
  | io => exact absurd rfl h
  | _ => rfl

/-- A response after which nothing more is received. -/
theorem run_lastReceive (hv : Valid pf) {left : PartialFile} {outcome : Except Stop Unit}
    (hrecv : receive sha1 pf response.body = (left, outcome)) {d : Download} (hd : Follows pf d)
    (hpending : d.pending = [])
    (hevents : recoverEvents sha1 gets up pf response = receiveEvents sha1 pf response.body) :
    ∃ last, run taskStep d (recoverEvents sha1 gets up pf response) = some last ∧
      Follows left last := by
  obtain ⟨last, hrun, hlast, -⟩ := @receive_follows sha1 pf hv response.body d hd hpending
  rw [hrecv] at hlast
  exact ⟨last, hevents ▸ hrun, hlast⟩

theorem recover_follows (hv : Valid pf)
    (h : recover sha1 gets flushFails up pf response = (next, left, result)) {d : Download}
    (hd : Follows pf d) (hpending : d.pending = []) :
    ∃ last, run taskStep d (recoverEvents sha1 gets up pf response) = some last ∧
      Follows left last := by
  fun_induction recover sha1 gets flushFails up pf response generalizing d with
  | case1 up pf response left' hrecv hfin =>
    obtain ⟨-, rfl, -⟩ : up = next ∧ left' = left ∧ RecoverResult.ok = result := by simpa using h
    refine run_lastReceive hv hrecv hd hpending ?_
    rw [recoverEvents, hrecv, List.append_nil]
  | case2 up pf response left' hrecv e hfin =>
    obtain ⟨-, rfl, -⟩ : up = next ∧ left' = left ∧ RecoverResult.error e = result := by simpa using h
    refine run_lastReceive hv hrecv hd hpending ?_
    rw [recoverEvents, hrecv, List.append_nil]
  | case3 up pf response left' hrecv =>
    obtain ⟨-, rfl, -⟩ : up = next ∧ left' = left ∧ RecoverResult.cancelled = result := by
      simpa using h
    refine run_lastReceive hv hrecv hd hpending ?_
    rw [recoverEvents, hrecv, List.append_nil]
  | case4 up pf response left' e hrecv noted hstop =>
    obtain ⟨-, rfl, -⟩ : noted = next ∧ left' = left ∧ RecoverResult.error e = result := by
      simpa using h
    refine run_lastReceive hv hrecv hd hpending ?_
    rw [recoverEvents, hrecv]
    simp only [dif_pos hstop, List.append_nil]
  | case5 up pf response left' e hrecv noted hgo next' ce hconn =>
    obtain ⟨-, rfl, -⟩ : next' = next ∧ left' = left ∧
        RecoverResult.error (.connect ce) = result := by simpa using h
    refine run_lastReceive hv hrecv hd hpending ?_
    rw [recoverEvents, hrecv]
    simp only [dif_neg hgo]
    split
    · exact List.append_nil _
    · rename_i hok
      exact absurd (hconn.symm.trans hok) (by simp)
  | case6 up pf response left' e hrecv noted hgo next' response' hconn ih =>
    -- The failure was retryable, so that no write is pending when the next response comes.
    obtain ⟨mid, hrun, hmid, hrest⟩ := @receive_follows sha1 pf hv response.body d hd hpending
    obtain ⟨-, hvalid, -⟩ := receive_spec sha1 hv response.body
    rw [hrecv] at hmid hrest hvalid
    have hretry : e.retryable ≠ false := fun hfalse => hgo (Or.inl hfalse)
    have hquiet : mid.pending = [] := by
      refine hrest ?_
      rintro _ ⟨⟩
      exact disturbed_of_retryable hretry
    obtain ⟨last, hmore, hlast⟩ :=
      ih (hvalid (Or.inr (Or.inr ⟨e, rfl, ne_io_of_retryable hretry⟩))) h hmid hquiet
    refine ⟨last, ?_, hlast⟩
    rw [recoverEvents, hrecv]
    simp only [dif_neg hgo]
    split
    · rename_i herr
      exact absurd (hconn.symm.trans herr) (by simp)
    · rename_i next'' response'' hok
      obtain ⟨rfl, rfl⟩ : next' = next'' ∧ response' = response'' := by
        simpa using hconn.symm.trans hok
      rw [run_append, hrun, Option.bind_some, hmore]

theorem follows_init (expectedSize : ℕ) : Follows (.open expectedSize) (.init expectedSize) :=
  ⟨rfl, rfl, rfl, rfl, rfl⟩

/-- The download is the task of the protocol up to the point where it succeeds or fails. -/
theorem download_follows {openFails : Bool} {outcome : Except DownloadError Unit}
    (h : download sha1 gets openFails flushFails up response = (next, left, outcome)) :
    (∃ last, run taskStep (.init up.expectedSize) (downloadEvents sha1 gets openFails up response) =
      some last ∧ Follows left last) ∧
    (outcome = .ok () → left.written = up.expectedSize) := by
  unfold download at h
  unfold downloadEvents
  cases openFails with
  | true =>
    obtain ⟨-, rfl, rfl⟩ : up = next ∧ PartialFile.open up.expectedSize = left ∧
        Except.error .io = outcome := by simpa using h
    exact ⟨⟨_, rfl, follows_init _⟩, nofun⟩
  | false =>
    simp only [Bool.false_eq_true, if_false] at h ⊢
    generalize hrecover : recover sha1 gets flushFails up (.open up.expectedSize) response = r at h
    obtain ⟨mid, pf, result⟩ := r
    have hfollows := recover_follows (valid_open up.expectedSize) hrecover (follows_init _) rfl
    obtain ⟨-, -, hok⟩ := recover_spec (valid_open up.expectedSize) hrecover
    obtain ⟨-, rfl, houtcome⟩ := Prod.mk.inj h |>.imp_right Prod.mk.inj
    refine ⟨hfollows, fun hout => ?_⟩
    cases result with
    | ok => exact (hok rfl).2.1
    | error e => cases houtcome.trans hout
    | cancelled => cases houtcome.trans hout

/-- What the whole task of the code comes to in the protocol. -/
theorem task_follows {openFails : Bool} {outcome : Except DownloadError Unit} (moved : Bool)
    (h : download sha1 gets openFails flushFails up response = (next, left, outcome)) :
    ∃ last, run lateStep (.init up.expectedSize)
        (taskEvents sha1 gets openFails flushFails moved up response) = some last ∧
      last.file = left.file ∧ last.published = left.published.reverse ++ [0] := by
  obtain ⟨⟨mid, hrun, hmid⟩, hwritten⟩ := download_follows h
  have hexpected := (grows_of_run (run_late hrun)).expected
  unfold taskEvents
  rw [run_append, run_late hrun, Option.bind_some, h]
  cases outcome with
  | ok =>
    have hall : mid.written = mid.expectedSize := by
      rw [hmid.written, hwritten rfl, hexpected]
      rfl
    have hcomplete : lateStep mid .complete = some { mid with phase := .received } := by
      simp [lateStep, Download.step, hmid.phase, hall]
    rw [run_cons_of_step hcomplete]
    exact ⟨_, rfl, hmid.file, hmid.published⟩
  | error e =>
    have hfail : lateStep mid (.fail e.reason) =
        some ({ mid with phase := .failed }.send (.failed e.reason)) := by
      simp [lateStep, Download.step, hmid.phase]
    rw [run_cons_of_step hfail]
    exact ⟨_, rfl, hmid.file, hmid.published⟩

end Simulation

/-! ## What the client gets -/

def downloadOf : Event → Option DownloadEvent
  | .download event => some event
  | .body _ => none

/-- The task of the protocol in a run of both. -/
theorem run_downloads {sha1 : Bytes → Sha1Digest} {s last : System} {events : List Event}
    (h : run (step sha1) s events = some last) :
    run lateStep s.download (events.filterMap downloadOf) = some last.download := by
  have hown : ∀ (s : System) (e : Event) (next : System) (d : DownloadEvent), step sha1 s e = some next →
      downloadOf e = some d → lateStep s.download d = some next.download := by
    intro s e next d hstep he
    cases e with
    | download event =>
      cases he
      obtain ⟨d', hd', rfl⟩ := Option.map_eq_some_iff.mp hstep
      exact lateStep_of_step hd'
    | body event => cases he
  have hother : ∀ (s : System) (e : Event) (next : System), step sha1 s e = some next →
      downloadOf e = none → next.download = s.download := by
    intro s e next hstep he
    cases e with
    | download event => cases he
    | body event =>
      obtain ⟨b, -, rfl⟩ := Option.map_eq_some_iff.mp hstep
      rfl
  exact run_project hown hother h

/-- A task that was stopped on its way has done a part of what it would have done. -/
theorem grows_of_prefix {d mid last : Download} {front events : List DownloadEvent}
    (hfront : front <+: events) (hmid : run lateStep d front = some mid)
    (hlast : run lateStep d events = some last) : Grows mid last := by
  obtain ⟨rest, rfl⟩ := hfront
  rw [run_append, hmid, Option.bind_some] at hlast
  exact grows_of_run hlast

/-! ## A body whose task does not fail -/

/-- The task does not fail, and the body is not disturbed. -/
def Quiet : Event → Prop
  | .download (.fail _) | .download .vanish | .body .readError | .body .drop => False
  | _ => True

/-- The task can still publish. -/
structure Alive (d : Download) : Prop where
  sender : d.watch.senderAlive = true
  value : ∃ n, d.watch.value = .inProgress n
  phase : d.phase = .receiving ∨ d.phase = .received

structure Healthy (s : System) : Prop where
  complete : ∀ reason, s.body.completion ≠ .incomplete reason
  alive : s.body.completion = .running → Alive s.download
  sampled : ∀ gone, s.body.pc = .sample gone → gone = false

section Quiet

variable {sha1 : Bytes → Sha1Digest} {s : System} {b : StreamingBody} {d : Download}

/-- Without the signal of the body the task only receives. -/
theorem Alive.step (h : Alive s.download) {event : DownloadEvent} (he : Quiet (.download event))
    (hstep : s.download.step false event = some d) : Alive d := by
  have hphase : s.download.phase ≠ .finalized := by
    rcases h.phase with hphase | hphase <;> rw [hphase] <;> decide
  cases event with
  | chunk suffix | write count =>
    simp only [Download.step, Option.ite_none_right_eq_some, Option.some.injEq] at hstep
    obtain ⟨-, rfl⟩ := hstep
    exact ⟨h.sender, h.value, h.phase⟩
  | publish =>
    simp only [Download.step, Option.ite_none_right_eq_some, Option.some.injEq] at hstep
    obtain ⟨-, rfl⟩ := hstep
    exact ⟨h.sender, ⟨_, rfl⟩, h.phase⟩
  | complete =>
    simp only [Download.step, Option.ite_none_right_eq_some, Option.some.injEq] at hstep
    obtain ⟨-, rfl⟩ := hstep
    exact ⟨h.sender, h.value, .inr rfl⟩
  | finalize ok => simp [Download.step] at hstep
  | leave => simp [Download.step, hphase] at hstep
  | fail reason => exact he.elim
  | vanish => exact he.elim

theorem proxyDone_eq_false (hinv : Inv s) (hrunning : s.body.completion = .running) :
    s.proxyDone = false := by
  have hdone := hinv.ending.proxyDone
  rw [if_pos hrunning] at hdone
  simp [System.proxyDone, hdone]

/-- What the body reads is there, so that it does not come to the end of the file. -/
theorem fileBuf_of_opened (hinv : Inv s) (hpc : s.body.pc = .produce) :
    0 < s.body.need ∧ (s.body.fileBuf.length < s.body.need → s.body.position < s.download.file.length) := by
  obtain ⟨hleft, hpublished⟩ := hinv.gate.opened (.inr hpc)
  refine ⟨by simp only [StreamingBody.need, tcpPacketSize]; omega, fun hshort => ?_⟩
  have hlength := congrArg List.length hinv.reads.content
  rw [List.length_append, hinv.reads.length_frames, List.length_take,
    min_eq_left hinv.reads.position_le] at hlength
  have hwritten := hinv.task.written_le
  omega

theorem produceBuffered_completion (hproxy : s.body.source = .proxy) (hne : s.body.fileBuf ≠ []) :
    (s.body.produceBuffered sha1).completion = s.body.completion ∧
      (s.body.produceBuffered sha1).pc = .idle := by
  simp only [StreamingBody.produceBuffered, if_neg hne, hproxy]
  exact ⟨rfl, rfl⟩

theorem produce_completion (hinv : Inv s) (hpc : s.body.pc = .produce) {event : BodyEvent}
    (he : Quiet (.body event)) (hstep : s.body.produce sha1 s.download.file event = some b) :
    b.completion = s.body.completion ∧ (b.pc = .idle ∨ b.pc = .produce) := by
  obtain ⟨hneed, hfile⟩ := fileBuf_of_opened hinv hpc
  simp only [StreamingBody.produce, hinv.source] at hstep
  cases event with
  | proceed =>
    simp only [StreamingBody.produceFromFile, Option.ite_none_left_eq_some, Option.some.injEq] at hstep
    obtain ⟨hfull, rfl⟩ := hstep
    have hne : s.body.fileBuf ≠ [] := List.ne_nil_of_length_pos (by omega)
    exact (produceBuffered_completion hinv.source hne).imp_right .inl
  | read count =>
    simp only [StreamingBody.produceFromFile, Option.ite_none_right_eq_some] at hstep
    obtain ⟨⟨hshort, -, -⟩, hstep⟩ := hstep
    split_ifs at hstep with hcount hend
    · cases hstep
      exact ⟨rfl, .inr hpc⟩
    · exact absurd hend (hfile hshort).ne
  | readError => exact he.elim
  | drop => exact he.elim
  | poll | quota | random => cases hstep

theorem running_of_pc (hinv : Inv s) {pc : Pc} (hpc : s.body.pc = pc) (h : pc ≠ .ended)
    (h' : pc ≠ .dropped) : s.body.completion = .running :=
  hinv.ending.running.mpr ⟨hpc ▸ h, hpc ▸ h'⟩

/-- A poll that goes on in a body whose task is alive. -/
theorem advance_completion (hinv : Inv s) (h : Healthy s) {event : BodyEvent}
    (he : Quiet (.body event))
    (hstep : s.body.advancePoll sha1 s.download.file s.download.watch event = some b) :
    (b.completion = s.body.completion ∨ b.completion = .complete) ∧
      ∀ gone, b.pc = .sample gone → gone = false := by
  cases StreamingBody.advances_of_advancePoll hstep with
  | granted | refused | unasked | gated | ungated | woken | waits | asks | passes =>
    exact ⟨.inl rfl, by simp⟩
  | done hpc hdone =>
    refine ⟨.inr ?_, by simp⟩
    rw [StreamingBody.finishWith_proxy sha1 hinv.source]
    simp [running_of_pc hinv hpc (by decide) (by decide), hdone]
  | looked hpc =>
    refine ⟨.inl rfl, ?_⟩
    rintro gone ⟨⟩
    rw [(h.alive (running_of_pc hinv hpc (by decide) (by decide))).sender]
    rfl
  | @sampled senderGone hpc =>
    obtain rfl := h.sampled senderGone hpc
    obtain ⟨n, hn⟩ := (h.alive (running_of_pc hinv hpc (by simp) (by simp))).value
    simp only [StreamingBody.sampleStep, hn, StreamingBody.sampled, Bool.false_eq_true, if_false]
    split_ifs <;> exact ⟨.inl rfl, by simp⟩
  | produces hpc hproduce =>
    obtain ⟨hsame, hplace⟩ := produce_completion hinv hpc he hproduce
    refine ⟨.inl hsame, fun gone hgone => ?_⟩
    rw [hgone] at hplace
    rcases hplace with hplace | hplace <;> cases hplace

theorem Healthy.step (hinv : Inv s) (h : Healthy s) {e : Event} (he : Quiet e) {next : System}
    (hstep : ProxyProtocol.step sha1 s e = some next) : Healthy next := by
  cases e with
  | download event =>
    obtain ⟨d, hd, rfl⟩ := Option.map_eq_some_iff.mp hstep
    refine ⟨h.complete, fun hrunning => ?_, h.sampled⟩
    rw [proxyDone_eq_false hinv hrunning] at hd
    exact (h.alive hrunning).step he hd
  | body event =>
    obtain ⟨b, hb, rfl⟩ := Option.map_eq_some_iff.mp hstep
    have hkept : (b.completion = s.body.completion ∨ b.completion = .complete) ∧
        ∀ gone, b.pc = .sample gone → gone = false := by
      cases event with
      | poll =>
        simp only [StreamingBody.step, Option.ite_none_right_eq_some, Option.some.injEq] at hb
        obtain ⟨-, rfl⟩ := hb
        exact ⟨.inl rfl, by simp⟩
      | drop => exact he.elim
      | proceed | quota | read | readError | random => exact advance_completion hinv h he hb
    refine ⟨fun reason hreason => ?_, fun hrunning => ?_, hkept.2⟩
    · rcases hkept.1 with hsame | hcomplete
      · exact h.complete reason (hsame.symm.trans hreason)
      · cases hcomplete.symm.trans hreason
    · rcases hkept.1 with hsame | hcomplete
      · exact h.alive (hsame.symm.trans hrunning)
      · cases hcomplete.symm.trans hrunning

end Quiet

/-- Receiving neither fails nor leaves: both are steps of the task around it. -/
theorem quiet_recoverEvents (sha1 : Bytes → Sha1Digest) (gets : ℕ → GetOutcome) (up : Upstream)
    (pf : PartialFile) (response : Response) :
    ∀ event ∈ recoverEvents sha1 gets up pf response, Quiet (.download event) := by
  have hchunk : ∀ (prefixLen : ℕ) (prefixHash : Sha1Digest) (pf : PartialFile) (replay : Bytes)
      (chunk : Chunk), ∀ event ∈ chunkEvents sha1 prefixLen prefixHash pf replay chunk,
      Quiet (.download event) := by
    intro prefixLen prefixHash pf replay chunk
    simp only [chunkEvents]
    split_ifs
    · simp
    · simp
    · simp
    · cases chunk.write <;> simp [Quiet]
  have hchunks : ∀ (chunks : List Chunk) (prefixLen : ℕ) (prefixHash : Sha1Digest) (pf : PartialFile)
      (replay : Bytes), ∀ event ∈ chunksEvents sha1 prefixLen prefixHash pf replay chunks,
      Quiet (.download event) := by
    intro chunks
    induction chunks with
    | nil => simp [chunksEvents]
    | cons chunk chunks ih =>
      intro prefixLen prefixHash pf replay event hmem
      rcases List.mem_append.mp hmem with hmem | hmem
      · exact hchunk _ _ _ _ _ event hmem
      · split at hmem
        · exact ih _ _ _ _ event hmem
        · cases hmem
  fun_induction recoverEvents sha1 gets up pf response with
  | case1 up pf response ih =>
    intro event hmem
    rcases List.mem_append.mp hmem with hmem | hmem
    · exact hchunks _ _ _ _ _ event hmem
    · split at hmem
      · cases hmem
      · cases hmem
      · split_ifs at hmem with hstop
        · cases hmem
        · dsimp only at hmem
          split at hmem
          · cases hmem
          · rename_i next response' hconn
            exact ih _ _ hstop next response' hconn event hmem

/-- A run of the task of the code: cut off anywhere, or stopped by a panic or an abort. -/
def CutOf (whole events : List DownloadEvent) : Prop :=
  ∃ front, front <+: whole ∧ (events = front ∨ events = front ++ [.vanish])

/-- What the client and the temporary file say about each other at every moment. -/
structure Delivers (up : Upstream) (left : PartialFile) (s : System) : Prop where
  sent : s.body.effects.frames.flatten <+: left.file
  behind : ∃ n ∈ s.download.published, s.body.effects.frames.flatten.length ≤ n
  published : s.download.published <:+ left.published.reverse ++ [0]
  complete : s.body.completion = .complete →
    s.body.effects.frames.flatten.length = up.expectedSize

section Results

variable {sha1 : Bytes → Sha1Digest} {gets : ℕ → GetOutcome} {openFails flushFails moved : Bool}
variable {up next : Upstream} {left : PartialFile} {response : Response}
variable {outcome : Except DownloadError Unit} {flowControl trafficStats : Bool} {events : List Event}
variable {s : System}

theorem inv_of_run
    (hrun : run (step sha1) (.init up.expectedSize flowControl trafficStats) events = some s) : Inv s :=
  run_invariant (fun _ _ _ h _ hstep => h.systemStep sha1 hstep) (inv_init _ _ _)
    (allSteps_true _ events) hrun

theorem delivers_of_run
    (h : download sha1 gets openFails flushFails up response = (next, left, outcome))
    (hrun : run (step sha1) (.init up.expectedSize flowControl trafficStats) events = some s)
    (hcut : CutOf (taskEvents sha1 gets openFails flushFails moved up response)
      (events.filterMap downloadOf)) : Delivers up left s := by
  have hinv := inv_of_run hrun
  have htask := run_downloads hrun
  obtain ⟨last, hlast, hfile, hpublished⟩ := task_follows moved h
  obtain ⟨front, hfront, hevents⟩ := hcut
  -- Where the task was before it was stopped, if it was.
  obtain ⟨mid, hmid, hgrows, hsame, hsamePublished⟩ : ∃ mid, run lateStep (.init up.expectedSize) front =
      some mid ∧ Grows mid last ∧ s.download.file = mid.file ∧
      s.download.published = mid.published := by
    rcases hevents with hevents | hevents
    · rw [hevents] at htask
      exact ⟨_, htask, grows_of_prefix hfront htask hlast, rfl, rfl⟩
    · rw [hevents, run_append] at htask
      obtain ⟨mid, hmid, hvanish⟩ := Option.bind_eq_some_iff.mp htask
      have hgone := Option.some.inj hvanish
      exact ⟨mid, hmid, grows_of_prefix hfront hmid hlast, by rw [← hgone], by rw [← hgone]⟩
  have hexpected : s.body.totalSize = up.expectedSize := by
    rw [hinv.total, (grows_of_run htask).expected]
    rfl
  refine ⟨?_, ⟨_, hinv.task.written_mem, ?_⟩, ?_, fun hcomplete => ?_⟩
  · rw [hinv.reads.frames.1, hsame, ← hfile]
    exact (List.take_prefix _ _).trans hgrows.file
  · rw [hinv.reads.length_frames]
    exact hinv.gate.offset_le
  · rw [hsamePublished, ← hpublished]
    exact hgrows.published
  · rw [hinv.reads.length_frames, hinv.ending.complete hcomplete, hexpected]

/-- No task that succeeds fails or is gone while the body goes on. -/
theorem quiet_of_ok (h : download sha1 gets openFails flushFails up response = (next, left, .ok ()))
    {event : DownloadEvent}
    (hmem : event ∈ taskEvents sha1 gets openFails flushFails moved up response) :
    Quiet (.download event) := by
  unfold taskEvents at hmem
  rw [h] at hmem
  rcases List.mem_append.mp hmem with hmem | hmem
  · unfold downloadEvents at hmem
    split_ifs at hmem
    · cases hmem
    · exact quiet_recoverEvents sha1 gets up _ response event hmem
  · simp only [List.mem_cons, List.not_mem_nil, or_false] at hmem
    rcases hmem with rfl | rfl | rfl <;> trivial

theorem healthy_init (totalSize : ℕ) (flowControl trafficStats : Bool) :
    Healthy (.init totalSize flowControl trafficStats) :=
  ⟨nofun, fun _ => ⟨rfl, ⟨0, rfl⟩, .inl rfl⟩, nofun⟩

theorem healthy_of_run
    (hrun : run (step sha1) (.init up.expectedSize flowControl trafficStats) events = some s)
    (hquiet : ∀ event ∈ events, Quiet event) : Healthy s := by
  have hstep : ∀ (s : System) (e : Event) (next : System), Inv s ∧ Healthy s → Quiet e →
      step sha1 s e = some next → Inv next ∧ Healthy next :=
    fun _ _ _ h he hstep => ⟨h.1.systemStep sha1 hstep, h.2.step h.1 he hstep⟩
  exact (run_invariant hstep ⟨inv_init _ _ _, healthy_init _ _ _⟩ (allSteps_of_forall hquiet _) hrun).2

end Results

/-- Whatever the sources send, however often the download goes on with the next one, wherever its
task is stopped, and in whichever order the task and the body take their steps: what the
client has got is a beginning of the temporary file that the download leaves, behind a length
that was published, and a body that is complete has all its bytes. If the download succeeds,
a complete body is the file with the digest that was asked for; and unless the task is
stopped, the body is dropped or a read fails, it ends with the complete file. -/
theorem proxied_file_delivered (sha1 : Bytes → Sha1Digest) (gets : ℕ → GetOutcome)
    (openFails flushFails moved : Bool) (up next : Upstream) (response : Response)
    (left : PartialFile) (outcome : Except DownloadError Unit)
    (h : download sha1 gets openFails flushFails up response = (next, left, outcome))
    (flowControl trafficStats : Bool) (events : List Event) (s : System)
    (hrun : run (step sha1) (.init up.expectedSize flowControl trafficStats) events = some s)
    (hcut : CutOf (taskEvents sha1 gets openFails flushFails moved up response)
      (events.filterMap downloadOf)) :
    Delivers up left s ∧
    (outcome = .ok () → s.body.completion = .complete →
      s.body.effects.frames.flatten = left.file ∧
      sha1Bytes sha1 s.body.effects.frames.flatten = up.hvFile.hash.text) ∧
    (outcome = .ok () → .download .vanish ∉ events → .body .readError ∉ events →
      .body .drop ∉ events → s.body.pc = .ended → s.body.completion = .complete) := by
  have hdelivers := delivers_of_run h hrun hcut
  refine ⟨hdelivers, ?_, ?_⟩
  · rintro rfl hcomplete
    obtain ⟨hlength, hhash⟩ := ProxyFinalization.download_ok h
    have hall : s.body.effects.frames.flatten = left.file :=
      hdelivers.sent.eq_of_length ((hdelivers.complete hcomplete).trans hlength.symm)
    exact ⟨hall, hall ▸ hhash⟩
  · rintro rfl hvanish hread hdrop hpc
    have hquiet : ∀ event ∈ events, Quiet event := by
      intro event hmem
      cases event with
      | body e =>
        cases e with
        | readError => exact absurd hmem hread
        | drop => exact absurd hmem hdrop
        | poll | proceed | quota | read | random => trivial
      | download e =>
        obtain ⟨front, hfront, hevents⟩ := hcut
        have hown : e ∈ events.filterMap downloadOf := List.mem_filterMap.mpr ⟨_, hmem, rfl⟩
        rcases hevents with hevents | hevents
        · exact quiet_of_ok h (hfront.subset (hevents ▸ hown))
        · have hlast : DownloadEvent.vanish ∈ events.filterMap downloadOf := by simp [hevents]
          obtain ⟨e', he', hvan⟩ := List.mem_filterMap.mp hlast
          cases e' with
          | download e'' =>
            cases hvan
            exact absurd he' hvanish
          | body e'' => cases hvan
    have hinv := inv_of_run hrun
    have hhealthy := healthy_of_run hrun hquiet
    cases hc : s.body.completion with
    | running => exact absurd hpc (hinv.ending.running.mp hc).1
    | complete => rfl
    | incomplete reason => exact absurd hc (hhealthy.complete reason)

/-- The body waits once for the four bytes, and the file gets into the cache when it is done. -/
def testEvents : List Event :=
  [.body .poll, .body .proceed, .body .proceed, .download (.chunk [116, 101, 115, 116]),
    .body .proceed, .body .proceed, .body .proceed, .download (.write 4), .download .publish,
    .body .poll, .body .proceed, .body .proceed, .body .proceed, .body .proceed, .body .proceed,
    .body (.read 4), .download .complete, .body .proceed, .body .poll, .body .proceed, .body .proceed,
    .download (.finalize true), .download .leave]

theorem taskEvents_test (gets : ℕ → GetOutcome) :
    taskEvents ProxyFinalization.testDigest gets false false true ProxyFinalization.testUpstream
      ProxyFinalization.testResponse = testEvents.filterMap downloadOf := by
  have hreceive : receive ProxyFinalization.testDigest (.open 4) ProxyFinalization.testResponse.body =
      (⟨[116, 101, 115, 116], 4, 4, 4, [116, 101, 115, 116], [4]⟩, .ok ()) := by rfl
  have hsize : ProxyFinalization.testUpstream.expectedSize = 4 := rfl
  have hevents : recoverEvents ProxyFinalization.testDigest gets ProxyFinalization.testUpstream (.open 4)
      ProxyFinalization.testResponse =
      [.chunk [116, 101, 115, 116], .write 4, .publish] := by
    rw [recoverEvents, hreceive]
    rfl
  rw [taskEvents, ProxyFinalization.download_test, downloadEvents, hsize, if_neg (by decide), hevents]
  rfl

theorem test_delivered : ∃ s,
    run (step ProxyFinalization.testDigest) (.init 4 false true) testEvents = some s ∧
    s.body.completion = .complete ∧
    sha1Bytes ProxyFinalization.testDigest s.body.effects.frames.flatten = sampleFile.hash.text := by
  have hrun : ∃ s, run (step ProxyFinalization.testDigest) (.init 4 false true) testEvents = some s ∧
      s.body.pc = .ended := ⟨_, rfl, rfl⟩
  obtain ⟨s, hs, hpc⟩ := hrun
  have hcut : CutOf (taskEvents ProxyFinalization.testDigest (fun _ => .deadline) false false true
      ProxyFinalization.testUpstream ProxyFinalization.testResponse)
      (testEvents.filterMap downloadOf) :=
    ⟨_, List.prefix_refl _, .inl (taskEvents_test _).symm⟩
  obtain ⟨-, hverified, hended⟩ := proxied_file_delivered ProxyFinalization.testDigest
    (fun _ => .deadline) false false true ProxyFinalization.testUpstream _
    ProxyFinalization.testResponse _ _ (ProxyFinalization.download_test _) false true testEvents s hs hcut
  have hcomplete := hended rfl (by simp [testEvents]) (by simp [testEvents]) (by simp [testEvents]) hpc
  exact ⟨s, hs, hcomplete, (hverified rfl hcomplete).2⟩

end HathRs.ProxiedTransfers
