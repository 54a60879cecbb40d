import HathRs.Digests

/-!
# The append-only temporary file of a proxied download

A download is retried from the beginning, so every response after the first replays
what is already in the temporary file. `receive` hashes the replay and compares it with
the digest of the retained prefix before it appends anything behind it. A response is
the list of its chunks and the way it ends; a write of a chunk can fail or be cut off
with some of its bytes in the file. Running hashers are the bytes they have absorbed.
-/

namespace HathRs.PartialFiles
open Digests

/-! ## Errors and published states -/

inductive DownloadFailReason where
  | prematureEof
  | networkError
  | timeout
  | diskWriteError
  | sha1Mismatch
  | finalizeFailed
  deriving DecidableEq

inductive DownloadState where
  | inProgress (bytes : ℕ)
  | done
  | failed (reason : DownloadFailReason)
  deriving DecidableEq

/-- An HTTP failure is reduced to whether it is a timeout. -/
inductive ConnectError where
  | noSources
  | network (isTimeout : Bool)
  | status (code : ℕ)
  | missingLength
  | tooLarge (length max : ℕ)
  | lengthMismatch (expected actual : ℕ)
  | deadline
  deriving DecidableEq

def ConnectError.reason : ConnectError → DownloadFailReason
  | .deadline => .timeout
  | .network true => .timeout
  | _ => .networkError

def ConnectError.retryable : ConnectError → Bool
  | .deadline => false
  | _ => true

inductive DownloadError where
  | connect (error : ConnectError)
  | body (isTimeout : Bool)
  | prematureEof (received expected : ℕ)
  | sizeExceeded (expected : ℕ)
  | prefixMismatch
  | sha1Mismatch
  | deadline
  | io
  deriving DecidableEq

def DownloadError.reason : DownloadError → DownloadFailReason
  | .connect error => error.reason
  | .body true => .timeout
  | .body false => .networkError
  | .sizeExceeded _ => .networkError
  | .prematureEof _ _ => .prematureEof
  | .prefixMismatch => .sha1Mismatch
  | .sha1Mismatch => .sha1Mismatch
  | .deadline => .timeout
  | .io => .diskWriteError

def DownloadError.retryable : DownloadError → Bool
  | .deadline => false
  | .io => false
  | .sha1Mismatch => false
  | _ => true

/-! ## Responses -/

/-- A write that does not complete may have put some of its bytes into the file. -/
inductive WriteOutcome where
  | done
  | failed (kept : ℕ)
  | cancelled (kept : ℕ)
  deriving DecidableEq

structure Chunk where
  data : Bytes
  write : WriteOutcome := .done

/-- After the last chunk the body is at its end or broken, or the task is cancelled while
it waits for more. -/
inductive BodyEnd where
  | eof
  | failed (isTimeout : Bool)
  | cancelled
  deriving DecidableEq

structure Body where
  chunks : List Chunk
  ending : BodyEnd

def Body.data (body : Body) : Bytes := body.chunks.flatMap Chunk.data

/-- No write is disturbed by the disk or by a cancellation. -/
def Body.WritesDone (body : Body) : Prop := ∀ chunk ∈ body.chunks, chunk.write = .done

/-! ## The partial file -/

/-- `file` is the content of the temporary file and `published` the values sent as
`DownloadState::InProgress`, oldest first. -/
structure PartialFile where
  file : Bytes
  written : ℕ
  received : ℕ
  expectedSize : ℕ
  sha1 : Bytes
  published : List ℕ

/-- `PartialFile::open` on the file that was just created. -/
def PartialFile.open (expectedSize : ℕ) : PartialFile := ⟨[], 0, 0, expectedSize, [], []⟩

/-- Why receiving stopped early. -/
inductive Stop where
  | error (error : DownloadError)
  | cancelled
  deriving DecidableEq

variable (sha1 : Bytes → Sha1Digest)

/-- The rest of a chunk behind the replayed part. -/
def appendSuffix (pf : PartialFile) (suffix : Bytes) : WriteOutcome → PartialFile × Except Stop Unit
  | .done =>
    ({ pf with
        file := pf.file ++ suffix
        sha1 := pf.sha1 ++ suffix
        written := pf.written + suffix.length
        published := pf.published ++ [pf.written + suffix.length] }, .ok ())
  | .failed kept => ({ pf with file := pf.file ++ suffix.take kept }, .error (.error .io))
  | .cancelled kept => ({ pf with file := pf.file ++ suffix.take kept }, .error .cancelled)

/-- One turn of the loop over the chunks, with the replay hashed so far. -/
def receiveChunk (prefixLen : ℕ) (prefixHash : Sha1Digest) (pf : PartialFile) (replay : Bytes)
    (chunk : Chunk) : PartialFile × Except Stop Bytes :=
  let offset := pf.received
  let pf := { pf with received := pf.received + chunk.data.length }
  if pf.expectedSize < pf.received then (pf, .error (.error (.sizeExceeded pf.expectedSize)))
  else
    let replayLen := min (prefixLen - offset) chunk.data.length
    let replay := replay ++ chunk.data.take replayLen
    if 0 < replayLen ∧ offset + replayLen = prefixLen ∧ sha1 replay ≠ prefixHash then
      (pf, .error (.error .prefixMismatch))
    else
      let suffix := chunk.data.drop replayLen
      if suffix = [] then (pf, .ok replay)
      else
        match appendSuffix pf suffix chunk.write with
        | (pf, .ok ()) => (pf, .ok replay)
        | (pf, .error stop) => (pf, .error stop)

def endBody (pf : PartialFile) : BodyEnd → PartialFile × Except Stop Unit
  | .eof =>
    if pf.received ≠ pf.expectedSize then
      (pf, .error (.error (.prematureEof pf.received pf.expectedSize)))
    else (pf, .ok ())
  | .failed isTimeout => (pf, .error (.error (.body isTimeout)))
  | .cancelled => (pf, .error .cancelled)

def receiveChunks (prefixLen : ℕ) (prefixHash : Sha1Digest) (ending : BodyEnd) (pf : PartialFile)
    (replay : Bytes) : List Chunk → PartialFile × Except Stop Unit
  | [] => endBody pf ending
  | chunk :: chunks =>
    match receiveChunk sha1 prefixLen prefixHash pf replay chunk with
    | (pf, .ok replay) => receiveChunks prefixLen prefixHash ending pf replay chunks
    | (pf, .error stop) => (pf, .error stop)

def receive (pf : PartialFile) (body : Body) : PartialFile × Except Stop Unit :=
  receiveChunks sha1 pf.written (sha1 pf.sha1) body.ending { pf with received := 0 } [] body.chunks

def finish (pf : PartialFile) (flushFails : Bool) (expectedHash : Text) : Except DownloadError Unit :=
  if flushFails then .error .io
  else if sha1Bytes sha1 pf.sha1 ≠ expectedHash then .error .sha1Mismatch
  else .ok ()

/-- One response after another, whatever each of them ends with. -/
def receiveAll (pf : PartialFile) (bodies : List Body) : PartialFile :=
  bodies.foldl (fun pf body => (receive sha1 pf body).1) pf

/-! ## Invariants -/

/-- The file holds exactly what was hashed and counted, within the expected size, and the
published values have not decreased nor run ahead. -/
structure Valid (pf : PartialFile) : Prop where
  sha1_eq : pf.sha1 = pf.file
  written_eq : pf.written = pf.file.length
  written_le : pf.written ≤ pf.expectedSize
  published_sorted : pf.published.Pairwise (· ≤ ·)
  published_le : ∀ n ∈ pf.published, n ≤ pf.written

/-- After a disturbed write the file may hold unpublished bytes behind the hashed ones. -/
structure Torn (pf : PartialFile) : Prop where
  sha1_prefix : pf.sha1 <+: pf.file
  written_eq : pf.written = pf.sha1.length
  written_le : pf.written ≤ pf.expectedSize
  published_sorted : pf.published.Pairwise (· ≤ ·)
  published_le : ∀ n ∈ pf.published, n ≤ pf.written

theorem valid_open (expectedSize : ℕ) : Valid (PartialFile.open expectedSize) :=
  ⟨rfl, rfl, Nat.zero_le _, List.Pairwise.nil, by simp [PartialFile.open]⟩

theorem Valid.torn {pf : PartialFile} (h : Valid pf) : Torn pf :=
  ⟨h.sha1_eq ▸ List.prefix_refl _, by rw [h.written_eq, h.sha1_eq], h.written_le,
    h.published_sorted, h.published_le⟩

/-- The state inside the loop, when the bytes `seen` of the response have arrived: the
replayed part was hashed and only what lies behind it was appended. -/
structure Receiving (start pf : PartialFile) (replay seen : Bytes) : Prop where
  valid : Valid pf
  expected : pf.expectedSize = start.expectedSize
  received : pf.received = seen.length
  replayed : replay = seen.take start.written
  file_eq : pf.file = start.file ++ seen.drop start.written
  checked : start.written ≤ seen.length → 0 < start.written → sha1 replay = sha1 start.file
  fits : seen.length ≤ start.expectedSize

/-- What is left when receiving ends: bytes were only appended, and only behind a replay
whose digest is that of the retained prefix. -/
structure Stopped (start pf : PartialFile) (data : Bytes) : Prop where
  torn : Torn pf
  expected : pf.expectedSize = start.expectedSize
  appended : ∃ extra, pf.file = start.file ++ extra ∧
    (extra ≠ [] → start.written ≤ data.length ∧
      sha1 (data.take start.written) = sha1 start.file)

variable {sha1} {start pf : PartialFile} {replay seen : Bytes}

theorem receiving_initial (h : Valid start) :
    Receiving sha1 start { start with received := 0 } [] [] where
  valid := ⟨h.sha1_eq, h.written_eq, h.written_le, h.published_sorted, h.published_le⟩
  expected := rfl
  received := rfl
  replayed := by simp
  file_eq := by simp
  checked hle hpos := absurd hle (by simpa using Nat.not_le.mpr hpos)
  fits := Nat.zero_le _

/-- The bytes of a chunk that replay the retained prefix, and the bytes behind them. -/
theorem take_replayLen (n : ℕ) (data : Bytes) : data.take (min n data.length) = data.take n := by
  rw [← List.take_take, List.take_length]

theorem drop_replayLen (n : ℕ) (data : Bytes) : data.drop (min n data.length) = data.drop n := by
  rcases le_total n data.length with h | h
  · rw [min_eq_left h]
  · rw [min_eq_right h, List.drop_length, List.drop_eq_nil_of_le h]

/-- The replay grows to the beginning of all the bytes that have arrived, and is compared
as soon as it is as long as the retained prefix. -/
theorem Receiving.replay_append (h : Receiving sha1 start pf replay seen) (hs : Valid start)
    (data : Bytes)
    (hcheck : ¬ (0 < min (start.written - pf.received) data.length ∧
      pf.received + min (start.written - pf.received) data.length = start.written ∧
      sha1 (replay ++ data.take (min (start.written - pf.received) data.length)) ≠
        sha1 start.sha1)) :
    replay ++ data.take (min (start.written - pf.received) data.length) =
        (seen ++ data).take start.written ∧
      (start.written ≤ (seen ++ data).length → 0 < start.written →
        sha1 ((seen ++ data).take start.written) = sha1 start.file) := by
  have heq : replay ++ data.take (min (start.written - pf.received) data.length) =
      (seen ++ data).take start.written := by
    rw [take_replayLen, h.replayed, h.received, List.take_append]
  refine ⟨heq, fun hle hpos => ?_⟩
  rw [heq, h.received, hs.sha1_eq] at hcheck
  rcases Nat.lt_or_ge seen.length start.written with hlt | hge
  · rw [List.length_append] at hle
    by_contra hne
    exact hcheck ⟨by omega, by omega, hne⟩
  · rw [List.take_append_of_le_length hge, ← h.replayed]
    exact h.checked hge hpos

theorem Receiving.file_append (h : Receiving sha1 start pf replay seen) (data : Bytes) :
    pf.file ++ data.drop (min (start.written - pf.received) data.length) =
      start.file ++ (seen ++ data).drop start.written := by
  rw [drop_replayLen, h.file_eq, h.received, List.drop_append, List.append_assoc]

/-- Something behind the retained prefix has arrived, so the comparison was made. -/
theorem digest_of_lt (hs : Valid start) {data : Bytes} (hle : start.written ≤ seen.length)
    (hchecked : start.written ≤ seen.length → 0 < start.written →
      sha1 (seen.take start.written) = sha1 start.file) (hdata : seen <+: data) :
    start.written ≤ data.length ∧ sha1 (data.take start.written) = sha1 start.file := by
  refine ⟨le_trans hle hdata.length_le, ?_⟩
  obtain ⟨rest, rfl⟩ := hdata
  rw [List.take_append_of_le_length hle]
  rcases Nat.eq_zero_or_pos start.written with hz | hpos
  · have hnil : start.file = [] := List.length_eq_zero_iff.mp (hs.written_eq.symm.trans hz)
    rw [hz, hnil]
    rfl
  · exact hchecked hle hpos

/-- Leaving the loop with the same file. -/
theorem Receiving.stopped (h : Receiving sha1 start pf replay seen) (hs : Valid start) (n : ℕ)
    {data : Bytes} (hdata : seen <+: data) :
    Stopped sha1 start { pf with received := n } data ∧ Valid { pf with received := n } := by
  have hv : Valid { pf with received := n } :=
    ⟨h.valid.sha1_eq, h.valid.written_eq, h.valid.written_le, h.valid.published_sorted,
      h.valid.published_le⟩
  refine ⟨⟨hv.torn, h.expected, seen.drop start.written, h.file_eq, fun hne => ?_⟩, hv⟩
  have hle : start.written ≤ seen.length := by
    by_contra hgt
    exact hne (List.drop_eq_nil_of_le (Nat.le_of_lt (Nat.not_le.mp hgt)))
  exact digest_of_lt hs hle (fun hle hpos => h.replayed ▸ h.checked hle hpos) hdata

theorem Valid.append (h : Valid pf) {suffix : Bytes} (n : ℕ)
    (hle : pf.written + suffix.length ≤ pf.expectedSize) :
    Valid (appendSuffix { pf with received := n } suffix .done).1 where
  sha1_eq := by simp [appendSuffix, h.sha1_eq]
  written_eq := by simp [appendSuffix, h.written_eq]
  written_le := hle
  published_sorted := by
    refine List.pairwise_append.mpr ⟨h.published_sorted, List.pairwise_singleton _ _, ?_⟩
    intro a ha b hb
    rw [List.mem_singleton.mp hb]
    exact le_trans (h.published_le a ha) (Nat.le_add_right _ _)
  published_le := by
    intro a ha
    rcases List.mem_append.mp ha with ha | ha
    · exact le_trans (h.published_le a ha) (Nat.le_add_right _ _)
    · exact (List.mem_singleton.mp ha).le

/-- A write that was disturbed leaves unhashed bytes behind the hashed ones. -/
theorem Valid.torn_append (h : Valid pf) (n : ℕ) (kept : Bytes) :
    Torn { pf with received := n, file := pf.file ++ kept } :=
  ⟨h.sha1_eq ▸ List.prefix_append _ _, by rw [h.written_eq, h.sha1_eq], h.written_le,
    h.published_sorted, h.published_le⟩

/-- What is appended behind the replay stays within the expected size. -/
theorem Receiving.suffix_fits (h : Receiving sha1 start pf replay seen) (hs : Valid start)
    {data : Bytes} (hsize : ¬ pf.expectedSize < pf.received + data.length)
    (hsuffix : data.drop (min (start.written - pf.received) data.length) ≠ []) :
    start.written ≤ (seen ++ data).length ∧
      pf.written + (data.drop (min (start.written - pf.received) data.length)).length ≤
        pf.expectedSize := by
  have hle : start.written ≤ (seen ++ data).length := by
    by_contra hgt
    refine hsuffix ?_
    rw [drop_replayLen, h.received]
    rw [List.length_append] at hgt
    exact List.drop_eq_nil_of_le (by omega)
  refine ⟨hle, ?_⟩
  have hlen := congrArg List.length (h.file_append data)
  have hreceived := h.received
  have hwritten := hs.written_eq
  simp only [List.length_append, List.length_drop] at hlen hle ⊢
  rw [h.valid.written_eq]
  omega

/-- One chunk: the loop goes on with its invariant, or it stops with what was checked. -/
theorem Receiving.receiveChunk (h : Receiving sha1 start pf replay seen) (hs : Valid start)
    (chunk : Chunk) {data : Bytes} (hdata : seen ++ chunk.data <+: data) :
    match receiveChunk sha1 start.written (sha1 start.sha1) pf replay chunk with
    | (pf', .ok replay') => Receiving sha1 start pf' replay' (seen ++ chunk.data)
    | (pf', .error stop) => Stopped sha1 start pf' data ∧
        (chunk.write = .done ∨ (∃ e, stop = .error e ∧ e ≠ .io) → Valid pf') := by
  have hseen : seen <+: data := (List.prefix_append _ _).trans hdata
  unfold PartialFiles.receiveChunk
  simp only
  split_ifs with hsize hcheck hsuffix
  · exact ⟨(h.stopped hs _ hseen).1, fun _ => (h.stopped hs _ hseen).2⟩
  · exact ⟨(h.stopped hs _ hseen).1, fun _ => (h.stopped hs _ hseen).2⟩
  all_goals
    obtain ⟨hreplay, hchecked⟩ := h.replay_append hs chunk.data hcheck
    have hfile := h.file_append chunk.data
    have hreceived : pf.received + chunk.data.length = (seen ++ chunk.data).length := by
      rw [h.received, List.length_append]
    have hfits : (seen ++ chunk.data).length ≤ start.expectedSize := by
      rw [← hreceived, ← h.expected]
      exact Nat.not_lt.mp hsize
  · rw [hsuffix, List.append_nil] at hfile
    exact ⟨(h.stopped hs _ hseen).2, h.expected, hreceived, hreplay, hfile,
      fun hle hpos => hreplay ▸ hchecked hle hpos, hfits⟩
  · obtain ⟨hle, hwritten⟩ := h.suffix_fits hs hsize hsuffix
    -- The bytes kept by a disturbed write lie behind the prefix that was just compared.
    have hdisturbed : ∀ kept, Stopped sha1 start { pf with
        received := pf.received + chunk.data.length, file := pf.file ++ kept } data := fun kept =>
      ⟨h.valid.torn_append _ kept, h.expected, seen.drop start.written ++ kept,
        by rw [h.file_eq, List.append_assoc], fun _ => digest_of_lt hs hle hchecked hdata⟩
    cases hw : chunk.write with
    | done =>
      exact ⟨h.valid.append _ hwritten, h.expected, hreceived, hreplay, hfile,
        fun hle hpos => hreplay ▸ hchecked hle hpos, hfits⟩
    | failed kept =>
      refine ⟨hdisturbed _, ?_⟩
      rintro (hdone | ⟨e, he, hio⟩)
      · cases hdone
      · cases he
        exact absurd rfl hio
    | cancelled kept =>
      refine ⟨hdisturbed _, ?_⟩
      rintro (hdone | ⟨e, he, -⟩)
      · cases hdone
      · cases he

/-- The end of the body. Only a body of exactly the expected size succeeds, and then so
many bytes have been written. -/
theorem Receiving.endBody (h : Receiving sha1 start pf replay seen) (hs : Valid start)
    (ending : BodyEnd) {data : Bytes} (hdata : seen <+: data) :
    Stopped sha1 start (endBody pf ending).1 data ∧ Valid (PartialFiles.endBody pf ending).1 ∧
      ((PartialFiles.endBody pf ending).2 = .ok () →
        (PartialFiles.endBody pf ending).1.written = start.expectedSize) := by
  have hsame : (PartialFiles.endBody pf ending).1 = pf := by
    cases ending with
    | eof =>
      simp only [PartialFiles.endBody]
      split <;> rfl
    | failed isTimeout => rfl
    | cancelled => rfl
  obtain ⟨hst, hv⟩ := h.stopped hs pf.received hdata
  rw [hsame]
  refine ⟨hst, hv, fun hok => ?_⟩
  cases ending with
  | eof =>
    simp only [PartialFiles.endBody] at hok
    split_ifs at hok with hsize
    have hlen := congrArg List.length h.file_eq
    rw [List.length_append, List.length_drop] at hlen
    have hseen : seen.length = start.expectedSize := by
      rw [← h.received, ← h.expected]
      exact not_not.mp hsize
    have := hs.written_eq
    have := hs.written_le
    rw [h.valid.written_eq]
    omega
  | failed isTimeout => cases hok
  | cancelled => cases hok

theorem Receiving.receiveChunks (hs : Valid start) (ending : BodyEnd) (chunks : List Chunk)
    (h : Receiving sha1 start pf replay seen) {data : Bytes}
    (hdata : data = seen ++ chunks.flatMap Chunk.data)
    {pf' : PartialFile} {result : Except Stop Unit}
    (hrun : receiveChunks sha1 start.written (sha1 start.sha1) ending pf replay chunks =
      (pf', result)) :
    Stopped sha1 start pf' data ∧
      ((∀ chunk ∈ chunks, chunk.write = .done) ∨ result = .ok () ∨
        (∃ e, result = .error (.error e) ∧ e ≠ .io) → Valid pf') ∧
      (result = .ok () → pf'.written = start.expectedSize) := by
  induction chunks generalizing pf replay seen with
  | nil =>
    rw [List.flatMap_nil, List.append_nil] at hdata
    obtain rfl := hdata
    obtain ⟨hst, hv, hok⟩ := h.endBody hs ending (List.prefix_refl data)
    rw [PartialFiles.receiveChunks] at hrun
    rw [hrun] at hst hv hok
    exact ⟨hst, fun _ => hv, hok⟩
  | cons chunk chunks ih =>
    rw [List.flatMap_cons, ← List.append_assoc] at hdata
    have hstep := h.receiveChunk hs chunk (hdata ▸ List.prefix_append _ _)
    rw [PartialFiles.receiveChunks] at hrun
    generalize PartialFiles.receiveChunk sha1 start.written (sha1 start.sha1) pf replay chunk = next
      at hstep hrun
    obtain ⟨mid, outcome⟩ := next
    cases outcome with
    | ok replay' =>
      obtain ⟨hst, hv, hok⟩ := ih hstep hdata hrun
      refine ⟨hst, fun hcases => hv (hcases.imp_left fun hdone c hc => ?_), hok⟩
      exact hdone c (List.mem_cons_of_mem _ hc)
    | error stop =>
      cases hrun
      obtain ⟨hst, hv⟩ := hstep
      refine ⟨hst, ?_, by simp⟩
      rintro (hdone | hok | ⟨e, he, hio⟩)
      · exact hv (Or.inl (hdone chunk List.mem_cons_self))
      · cases hok
      · cases he
        exact hv (Or.inr ⟨e, rfl, hio⟩)

/-- One response. It leaves a valid file unless a write was disturbed, and has written the
expected size if it was received completely. -/
theorem receive_spec (sha1 : Bytes → Sha1Digest) (hs : Valid start) (body : Body) :
    Stopped sha1 start (receive sha1 start body).1 body.data ∧
      (body.WritesDone ∨ (receive sha1 start body).2 = .ok () ∨
        (∃ e, (receive sha1 start body).2 = .error (.error e) ∧ e ≠ .io) →
        Valid (receive sha1 start body).1) ∧
      ((receive sha1 start body).2 = .ok () →
        (receive sha1 start body).1.written = start.expectedSize) :=
  (receiving_initial hs).receiveChunks hs body.ending body.chunks (by rw [List.nil_append]; rfl) rfl

theorem receiveAll_valid (sha1 : Bytes → Sha1Digest) (hs : Valid start) {bodies : List Body}
    (hb : ∀ body ∈ bodies, body.WritesDone) : Valid (receiveAll sha1 start bodies) ∧
      (receiveAll sha1 start bodies).expectedSize = start.expectedSize := by
  induction bodies generalizing start with
  | nil => exact ⟨hs, rfl⟩
  | cons body bodies ih =>
    obtain ⟨hst, hv, -⟩ := receive_spec sha1 hs body
    obtain ⟨hvalid, hexpected⟩ := ih (hv (Or.inl (hb body List.mem_cons_self)))
      (fun b hmem => hb b (List.mem_cons_of_mem _ hmem))
    exact ⟨hvalid, hexpected.trans hst.expected⟩

end HathRs.PartialFiles
