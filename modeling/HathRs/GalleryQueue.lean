import HathRs.GalleryDirectories
import HathRs.GalleryDownload
import HathRs.MachineArithmetic
import HathRs.TransitionRuns

/-!
# The gallery queue

A runner asks for galleries until there are none left. It has a gallery acknowledged by the
request for the next one, and sends the sources that failed right before that. What it asks
for is told here from what it has finished.
-/

namespace HathRs.GalleryQueue
open TextParsing MachineArithmetic Digests GalleryListings GalleryDownload TransitionRuns

/-! ## Requests and replies -/

/-- A call of the runner to the server, with the text of its `add` field. -/
inductive Sent where
  | fetchQueue (add : Text)
  | failReport (add : Text)
  deriving DecidableEq

inductive GalleryQueueReply where
  | noPendingDownloads
  | invalidRequest
  | metadata (raw : Text)

/-- `trim_end_matches(['\r', '\n'])` -/
def trimLineEnds (body : Text) : Text :=
  (body.reverse.dropWhile fun c => c = '\r' || c = '\n').reverse

/-- The end of `fetch_gallery_queue` -/
def galleryQueueReply (body : Text) : GalleryQueueReply :=
  let reply := trimLineEnds body
  if reply = "NO_PENDING_DOWNLOADS".toList then .noPendingDownloads
  else if reply = "INVALID_REQUEST".toList then .invalidRequest
  else .metadata body

def ackText (gallery : FinishedGallery) : Text :=
  decimal gallery.gid.toNat ++ ';' :: gallery.minxres

/-- What one turn of the loop sends before it looks at a reply. -/
def requests : Option FinishedGallery → List Sent
  | none => [.fetchQueue []]
  | some gallery =>
    if gallery.failures = [] then [.fetchQueue (ackText gallery)]
    else [.failReport (List.intercalate [';'] gallery.failures), .fetchQueue (ackText gallery)]

/-! ## The runner -/

/-- What a turn meets: a shutdown, the body of the queue's reply if one comes, the settings, the
directories that can be made, whether the clients can be built, what the gallery's directory
holds, and what happens at its files. -/
structure Turn where
  shutdown : Bool
  body : Option Text
  settings : ClientSettings
  downloadDir : Text
  creates : Text → Bool
  clientsBuilt : Bool
  dir : Disk Text
  visits : ℕ → ℕ → Visit
  infoLeft : Option (Option Bytes)

inductive QueueError where
  | shutdown
  | requestFailed
  | rejected
  | noDirectory
  | noClient
  | gallery (e : RunError)
  /-- The task panics at a counter. -/
  | overflow
  deriving DecidableEq

/-- A gallery that is finished, with what its directory held before and after. -/
structure Done where
  metadata : GalleryMetadata
  turn : Turn
  finished : FinishedGallery
  dir : Disk Text

/-- The locals of `run_until_idle`, its result once it has one, the calls it has made and the
galleries that it has finished. -/
structure Runner where
  galleriesCompleted : UInt32
  galleriesFailed : UInt32
  previous : Option FinishedGallery
  result : Option (Except QueueError (UInt32 × UInt32))
  sent : List Sent
  done : List Done

def Runner.start : Runner := ⟨0, 0, none, none, [], []⟩

def Runner.stop (r : Runner) (e : QueueError) : Runner := { r with result := some (.error e) }

def Runner.idle (r : Runner) : Runner :=
  { r with result := some (.ok (r.galleriesCompleted, r.galleriesFailed)) }

section Runs

variable (build : Build) (sha1 : Bytes → Sha1Digest)

def downloadNext (metadata : GalleryMetadata) (t : Turn) : Except QueueError Done :=
  match GalleryDirectories.createGalleryDir t.settings t.downloadDir metadata t.creates with
  | .error _ => .error .noDirectory
  | .ok _ =>
    if t.clientsBuilt then
      match downloadGallery sha1 t.settings.maxAllowedFilesize metadata t.dir t.visits t.infoLeft with
      | .error e => .error (.gallery e)
      | .ok (finished, dir) => .ok ⟨metadata, t, finished, dir⟩
    else .error .noClient

/-- The report's counters with one more gallery. -/
def Runner.count (r : Runner) (successful : Bool) : Except Panic (UInt32 × UInt32) :=
  if successful then (addU32 build r.galleriesCompleted 1).map fun count => (count, r.galleriesFailed)
  else (addU32 build r.galleriesFailed 1).map fun count => (r.galleriesCompleted, count)

def Runner.finish (r : Runner) (d : Done) : Runner :=
  match r.count build d.finished.successful with
  | .error _ => r.stop .overflow
  | .ok (galleriesCompleted, galleriesFailed) =>
    { r with
      galleriesCompleted
      galleriesFailed
      previous := some d.finished
      done := r.done ++ [d] }

/-- What the runner does with the reply to its request. -/
def Runner.receive (r : Runner) (t : Turn) : Runner :=
  match t.body.map galleryQueueReply with
  | none => r.stop .requestFailed
  | some .noPendingDownloads => r.idle
  | some .invalidRequest => r.stop .rejected
  | some (.metadata raw) =>
    match parseGalleryMetadata raw with
    | .error _ => r.idle
    | .ok metadata =>
      match downloadNext sha1 metadata t with
      | .error e => r.stop e
      | .ok d => r.finish build d

/-- One turn of the loop of `run_until_idle`. -/
def Runner.turn (r : Runner) (t : Turn) : Option Runner :=
  if r.result.isSome then none
  else if t.shutdown then some (r.stop .shutdown)
  else some (Runner.receive build sha1 { r with sent := r.sent ++ requests r.previous } t)

end Runs

/-! ## What a runner asks for -/

/-- The calls of a runner that has had these galleries acknowledged. -/
def trace (acked : List Done) : List Sent :=
  requests none ++ acked.flatMap fun d => requests (some d.finished)

/-- The gallery came from a reply of the server and was downloaded. -/
def Done.Genuine (sha1 : Bytes → Sha1Digest) (d : Done) : Prop :=
  (∃ raw, parseGalleryMetadata raw = .ok d.metadata) ∧
    downloadGallery sha1 d.turn.settings.maxAllowedFilesize d.metadata d.turn.dir d.turn.visits
      d.turn.infoLeft = .ok (d.finished, d.dir)

/-- Before the first request there is nothing, and behind a gallery its request is still open. -/
def Waiting (r : Runner) : Prop :=
  (r.sent = [] ∧ r.done = []) ∨ (r.done ≠ [] ∧ r.sent = trace r.done.dropLast)

/-- The counter says this number, which a debug build has not let overflow. -/
def Counted (build : Build) (count : UInt32) (n : ℕ) : Prop :=
  count = UInt32.ofNat n ∧ (build = .debug → n < 2 ^ 32)

theorem Counted.succ {build : Build} {count next : UInt32} {n : ℕ} (h : Counted build count n)
    (hadd : addU32 build count 1 = .ok next) : Counted build next (n + 1) := by
  obtain ⟨rfl, hlt⟩ := h
  rw [addU32] at hadd
  split_ifs at hadd with hfits
  obtain rfl := Except.ok.inj hadd
  refine ⟨(UInt32.ofNat_add n 1).symm, fun hbuild => ?_⟩
  rcases hfits with hroom | hrelease
  · rw [UInt32.toNat_ofNat_of_lt' (hlt hbuild)] at hroom
    exact hroom
  · rw [hbuild] at hrelease
    cases hrelease

structure Inv (build : Build) (sha1 : Bytes → Sha1Digest) (r : Runner) : Prop where
  previous : r.previous = r.done.getLast?.map Done.finished
  completed : Counted build r.galleriesCompleted (r.done.filter fun d => d.finished.successful).length
  failed : Counted build r.galleriesFailed (r.done.filter fun d => !d.finished.successful).length
  genuine : ∀ d ∈ r.done, d.Genuine sha1
  waiting : r.result = none ∨ r.result = some (.error .shutdown) → Waiting r
  sent : Waiting r ∨ r.sent = trace r.done
  idle : ∀ report, r.result = some (.ok report) →
    report = (r.galleriesCompleted, r.galleriesFailed) ∧ r.sent = trace r.done

variable {build : Build} {sha1 : Bytes → Sha1Digest} {r r' : Runner} {t : Turn}

theorem inv_start : Inv build sha1 .start where
  previous := rfl
  completed := ⟨rfl, fun _ => by decide⟩
  failed := ⟨rfl, fun _ => by decide⟩
  genuine := by simp [Runner.start]
  waiting := fun _ => .inl ⟨rfl, rfl⟩
  sent := .inl (.inl ⟨rfl, rfl⟩)
  idle := by simp [Runner.start]

/-- The runner behind its requests of a turn. -/
def Runner.asked (r : Runner) : Runner := { r with sent := r.sent ++ requests r.previous }

/-- The runner with the new counters behind a gallery. -/
def Runner.counted (r : Runner) (d : Done) (counts : UInt32 × UInt32) : Runner :=
  { r with
    galleriesCompleted := counts.1
    galleriesFailed := counts.2
    previous := some d.finished
    done := r.done ++ [d] }

/-- What one turn can do. -/
inductive Turns (build : Build) (sha1 : Bytes → Sha1Digest) (r : Runner) : Runner → Prop where
  | stopped : Turns build sha1 r (r.stop .shutdown)
  | failed {e : QueueError} (he : e ≠ .shutdown) : Turns build sha1 r (r.asked.stop e)
  | idle : Turns build sha1 r r.asked.idle
  | finished {d : Done} {counts : UInt32 × UInt32} (hd : d.Genuine sha1)
      (hcount : r.count build d.finished.successful = .ok counts) :
      Turns build sha1 r (r.asked.counted d counts)

theorem turns_finish {d : Done} (hd : d.Genuine sha1) : Turns build sha1 r (r.asked.finish build d) := by
  unfold Runner.finish
  have hsame : r.asked.count build d.finished.successful = r.count build d.finished.successful := rfl
  rw [hsame]
  cases hcount : r.count build d.finished.successful with
  | error e => exact .failed (by decide)
  | ok counts => exact .finished hd hcount

theorem downloadNext_cases (sha1 : Bytes → Sha1Digest) (t : Turn) {metadata : GalleryMetadata}
    {raw : Text} (hraw : parseGalleryMetadata raw = .ok metadata) :
    (∃ e, e ≠ .shutdown ∧ downloadNext sha1 metadata t = .error e) ∨
      ∃ d, d.Genuine sha1 ∧ downloadNext sha1 metadata t = .ok d := by
  unfold downloadNext
  cases GalleryDirectories.createGalleryDir t.settings t.downloadDir metadata t.creates with
  | error message => exact .inl ⟨.noDirectory, by decide, rfl⟩
  | ok path =>
    by_cases hclients : t.clientsBuilt
    · cases hgallery : downloadGallery sha1 t.settings.maxAllowedFilesize metadata t.dir t.visits
          t.infoLeft with
      | error e => exact .inl ⟨.gallery e, by simp, by simp [hclients]⟩
      | ok result => exact .inr ⟨⟨metadata, t, result.1, result.2⟩, ⟨⟨raw, hraw⟩, hgallery⟩,
          by simp [hclients]⟩
    · exact .inl ⟨.noClient, by decide, by simp [hclients]⟩

theorem turns_of_turn (h : r.turn build sha1 t = some r') : r.result = none ∧ Turns build sha1 r r' := by
  unfold Runner.turn at h
  split_ifs at h with hresult hshutdown
  · cases h
    exact ⟨by simpa using hresult, .stopped⟩
  · refine ⟨by simpa using hresult, ?_⟩
    obtain rfl := Option.some.inj h
    show Turns build sha1 r (Runner.receive build sha1 r.asked t)
    unfold Runner.receive
    cases t.body.map galleryQueueReply with
    | none => exact .failed (by decide)
    | some reply =>
      cases reply with
      | noPendingDownloads => exact .idle
      | invalidRequest => exact .failed (by decide)
      | metadata raw =>
        cases hraw : parseGalleryMetadata raw with
        | error message =>
          simp only [hraw]
          exact .idle
        | ok metadata =>
          rcases downloadNext_cases sha1 t hraw with ⟨e, he, hnext⟩ | ⟨d, hd, hnext⟩
          · simp only [hraw, hnext]
            exact .failed he
          · simp only [hraw, hnext]
            exact turns_finish hd

theorem trace_concat (acked : List Done) (d : Done) :
    trace (acked ++ [d]) = trace acked ++ requests (some d.finished) := by
  simp [trace]

/-- The next requests close what was open. -/
theorem Inv.asked_sent (h : Inv build sha1 r) (hwait : Waiting r) : r.asked.sent = trace r.done := by
  unfold Runner.asked
  rcases hwait with ⟨hsent, hdone⟩ | ⟨hne, hsent⟩
  · rw [hsent, h.previous, hdone]
    rfl
  · have hlast := List.dropLast_append_getLast hne
    rw [hsent, h.previous, List.getLast?_eq_some_getLast hne, Option.map_some, ← trace_concat, hlast]

/-- The counters of one more gallery. -/
theorem Inv.count (h : Inv build sha1 r) {d : Done} {counts : UInt32 × UInt32}
    (hcount : r.count build d.finished.successful = .ok counts) :
    Counted build counts.1 ((r.done ++ [d]).filter fun d => d.finished.successful).length ∧
      Counted build counts.2 ((r.done ++ [d]).filter fun d => !d.finished.successful).length := by
  have hcompleted := h.completed
  have hfailed := h.failed
  cases hsuccess : d.finished.successful with
  | true =>
    simp only [Runner.count, hsuccess, if_true] at hcount
    cases hadd : addU32 build r.galleriesCompleted 1 with
    | error e =>
      rw [hadd] at hcount
      cases hcount
    | ok count =>
      rw [hadd] at hcount
      cases hcount
      simpa [hsuccess] using And.intro (hcompleted.succ hadd) hfailed
  | false =>
    simp only [Runner.count, hsuccess, Bool.false_eq_true, if_false] at hcount
    cases hadd : addU32 build r.galleriesFailed 1 with
    | error e =>
      rw [hadd] at hcount
      cases hcount
    | ok count =>
      rw [hadd] at hcount
      cases hcount
      simpa [hsuccess] using And.intro hcompleted (hfailed.succ hadd)

theorem Inv.turn (h : Inv build sha1 r) (hturn : r.turn build sha1 t = some r') : Inv build sha1 r' := by
  obtain ⟨hrunning, hturns⟩ := turns_of_turn hturn
  have hwait : Waiting r := h.waiting (.inl hrunning)
  have hasked : r.asked.sent = trace r.done := h.asked_sent hwait
  cases hturns with
  | stopped =>
    exact ⟨h.previous, h.completed, h.failed, h.genuine, fun _ => hwait, .inl hwait,
      by simp [Runner.stop]⟩
  | failed he =>
    refine ⟨h.previous, h.completed, h.failed, h.genuine, ?_, .inr hasked, by simp [Runner.stop]⟩
    rintro (hnone | hshutdown)
    · cases hnone
    · cases hshutdown
      exact absurd rfl he
  | idle =>
    refine ⟨h.previous, h.completed, h.failed, h.genuine, ?_, .inr hasked, ?_⟩
    · simp [Runner.idle]
    · intro report hreport
      cases hreport
      exact ⟨rfl, hasked⟩
  | @finished d counts hd hcount =>
    obtain ⟨hcompleted, hfailed⟩ := h.count hcount
    have hopen : Waiting (r.asked.counted d counts) := by
      refine .inr ⟨by simp [Runner.counted], ?_⟩
      simp only [Runner.counted, List.dropLast_concat]
      exact hasked
    refine ⟨by simp [Runner.counted], hcompleted, hfailed, ?_, fun _ => hopen, .inl hopen, ?_⟩
    · intro other hother
      rcases List.mem_append.mp hother with hold | hnew
      · exact h.genuine other hold
      · exact List.mem_singleton.mp hnew ▸ hd
    · intro report hreport
      have hnone : r.result = some (.ok report) := hreport
      rw [hrunning] at hnone
      cases hnone

theorem Inv.run (h : Inv build sha1 r) {turns : List Turn}
    (hrun : TransitionRuns.run (Runner.turn build sha1) r turns = some r') : Inv build sha1 r' :=
  run_invariant (fun _ _ _ hinv _ hturn => hinv.turn hturn) h (allSteps_true r turns) hrun

/-! ## The failures of a gallery -/

/-- What every visit keeps holds behind the rounds. -/
theorem rounds_keeps {maxLength : UInt64} {files : List GalleryFile} (inv : Progress → Prop)
    (hvisit : ∀ p file index visit next, inv p →
      visitFile sha1 maxLength p file index visit = .ok next → inv next)
    {visits : ℕ → ℕ → Visit} {n round : ℕ} {p next : Progress} (h : inv p)
    (hrounds : rounds sha1 maxLength files visits n round p = .ok next) : inv next := by
  have hround : ∀ (visits : ℕ → Visit) (rest : List GalleryFile) (index : ℕ) (p next : Progress),
      inv p → roundFrom sha1 maxLength visits index rest p = .ok next → inv next := by
    intro visits rest
    induction rest with
    | nil =>
      intro index p next h hnext
      cases hnext
      exact h
    | cons file rest ih =>
      intro index p next h hnext
      unfold roundFrom at hnext
      cases hfile : visitFile sha1 maxLength p file index (visits index) with
      | error e => simp [hfile] at hnext
      | ok mid =>
        simp only [hfile] at hnext
        exact ih (index + 1) mid next (hvisit p file index _ mid h hfile) hnext
  induction n generalizing round p with
  | zero =>
    cases hrounds
    exact h
  | succ n ih =>
    unfold rounds at hrounds
    split_ifs at hrounds
    · cases hrounds
      exact h
    · cases hone : roundFrom sha1 maxLength (visits round) 0 files p with
      | error e => simp [hone] at hrounds
      | ok mid =>
        simp only [hone] at hrounds
        exact ih (hround _ _ _ _ _ h hone) hrounds

/-- The sources that are reported are different and not more than fifty. -/
def Reportable (failures : List Text) : Prop := failures.Nodup ∧ failures.length ≤ maxReportedFailures

theorem Reportable.recordFailure {failures : List Text} (h : Reportable failures)
    (failure : Option Text) : Reportable (recordFailure failures failure) := by
  unfold GalleryDownload.recordFailure
  cases failure with
  | none => exact h
  | some failure =>
    dsimp only
    split_ifs with hnew
    · refine ⟨?_, ?_⟩
      · exact List.nodup_append.mpr ⟨h.1, List.nodup_singleton failure,
          fun a ha b hb heq => hnew.2 (List.mem_singleton.mp hb ▸ heq ▸ ha)⟩
      · rw [List.length_append, List.length_singleton]
        exact hnew.1
    · exact h

theorem reportable_of_visitFile {maxLength : UInt64} {p next : Progress} {file : GalleryFile}
    {index : ℕ} {visit : Visit} (h : Reportable p.sourceFailures)
    (hnext : visitFile sha1 maxLength p file index visit = .ok next) :
    Reportable next.sourceFailures := by
  unfold visitFile at hnext
  split_ifs at hnext
  · cases hnext
    exact h
  · cases hnext
    exact h
  · cases hfile : downloadFile sha1 maxLength p.dir file visit.answer with
    | error e => simp [hfile] at hnext
    | ok result =>
      obtain ⟨dir, one⟩ := result
      simp only [hfile] at hnext
      cases one with
      | downloaded =>
        simp only [recordOutcome] at hnext
        split_ifs at hnext
        cases hnext
        exact h
      | alreadyPresent =>
        cases hnext
        exact h
      | failed failure =>
        simp only [recordOutcome] at hnext
        split_ifs at hnext
        cases hnext
        exact h.recordFailure failure

theorem Done.Genuine.reportable {d : Done} (h : d.Genuine sha1) : Reportable d.finished.failures := by
  have hgallery := h.2
  unfold downloadGallery at hgallery
  cases hrounds : rounds sha1 d.turn.settings.maxAllowedFilesize d.metadata.files d.turn.visits
      maxGalleryRounds 0 (.start d.turn.dir d.metadata.files.length) with
  | error e => simp [hrounds] at hgallery
  | ok p =>
    have hp : Reportable p.sourceFailures :=
      rounds_keeps (fun p => Reportable p.sourceFailures)
        (fun _ _ _ _ _ hinv hvisit => reportable_of_visitFile hinv hvisit)
        ⟨List.nodup_nil, Nat.zero_le _⟩ hrounds
    simp only [hrounds] at hgallery
    split_ifs at hgallery <;> simp only [Except.ok.injEq, Prod.mk.injEq] at hgallery <;>
      rw [← hgallery.1] <;> exact hp

/-! ## Runs -/

/-- However the server answers, and wherever the run ends: the galleries are acknowledged in the
order in which they were finished, each by the next request and once; behind a run that ends
because the queue is empty all of them are. The report counts them, the failures that are sent
before an acknowledgement are at most fifty different ones, and of what counts as completed every
file is there whose name is apart from the others, and the text too if it could be written. -/
theorem runUntilIdle_trace (build : Build) (sha1 : Bytes → Sha1Digest) (turns : List Turn) (r : Runner)
    (hrun : run (Runner.turn build sha1) .start turns = some r) :
    (r.sent = [] ∨ ∃ acked, r.sent = trace acked ∧ (acked = r.done ∨ acked = r.done.dropLast)) ∧
    (∀ report, r.result = some (.ok report) → r.sent = trace r.done ∧
      Counted build report.1 (r.done.filter fun d => d.finished.successful).length ∧
      Counted build report.2 (r.done.filter fun d => !d.finished.successful).length) ∧
    (∀ d ∈ r.done, d.finished.failures.Nodup ∧ d.finished.failures.length ≤ 50) ∧
    ∀ d ∈ r.done, d.finished.successful = true → NamesApart d.metadata.files →
      (∀ f ∈ d.metadata.files, f.target ≠ infoName → Present sha1 d.dir f) ∧
      (d.turn.infoLeft = none → InfoFits sha1 d.metadata → Complete sha1 d.metadata d.dir) := by
  have hinv := inv_start.run hrun
  refine ⟨?_, ?_, fun d hd => (hinv.genuine d hd).reportable, ?_⟩
  · rcases hinv.sent with (⟨hsent, -⟩ | ⟨-, hsent⟩) | hsent
    · exact .inl hsent
    · exact .inr ⟨_, hsent, .inr rfl⟩
    · exact .inr ⟨_, hsent, .inl rfl⟩
  · intro report hreport
    obtain ⟨heq, hsent⟩ := hinv.idle report hreport
    subst heq
    exact ⟨hsent, hinv.completed, hinv.failed⟩
  · intro d hd hsuccess hapart
    obtain ⟨⟨raw, hraw⟩, hgallery⟩ := hinv.genuine d hd
    have hdistinct := (wellFormed_of_parse hraw).1.distinct
    refine ⟨(present_of_successful hdistinct hapart hgallery hsuccess).2, fun hinfo hfits => ?_⟩
    rw [hinfo] at hgallery
    exact reliable_of_apart hdistinct hapart hfits _ _ _ _ hgallery hsuccess

/-- The server has this body as its reply, and every file is sent at once. -/
def replying (body : Text) : Turn where
  shutdown := false
  body := some body
  settings := .load ⟨none, none⟩
  downloadDir := "downloads".toList
  creates := fun _ => true
  clientsBuilt := true
  dir := fun _ => none
  visits := fun _ _ => delivering [1, 2, 3]
  infoLeft := none

/-- One gallery and an empty queue behind it. -/
theorem oneGallery_trace : ∃ r,
    run (Runner.turn .release unusedSha1) .start
      [replying sampleRaw, replying "NO_PENDING_DOWNLOADS\n".toList] = some r ∧
    r.sent = [.fetchQueue [], .fetchQueue "42;org".toList] ∧ r.sent = trace r.done ∧
    1 = UInt32.ofNat (r.done.filter fun d => d.finished.successful).length := by
  have hrun : (run (Runner.turn .release unusedSha1) .start
      [replying sampleRaw, replying "NO_PENDING_DOWNLOADS\n".toList]).map
        (fun r => (r.sent, r.result.bind Except.toOption)) =
      some ([.fetchQueue [], .fetchQueue "42;org".toList], some (1, 0)) := by
    decide +kernel
  obtain ⟨r, hr, hresult⟩ := Option.map_eq_some_iff.mp hrun
  obtain ⟨hsent, hreport⟩ := Prod.mk.inj hresult
  obtain ⟨result, hend, hok⟩ := Option.bind_eq_some_iff.mp hreport
  cases result with
  | error e => cases hok
  | ok report =>
    cases hok
    obtain ⟨htrace, hcompleted, -⟩ := (runUntilIdle_trace .release unusedSha1 _ r hr).2.1 _ hend
    exact ⟨r, hr, hsent, htrace, hcompleted.1⟩

end HathRs.GalleryQueue
