import HathRs.CacheHandler
import HathRs.UpstreamRecovery

/-!
# The end of a proxied download

After the transfer the temporary file is renamed to the cache path, or copied where a
rename does not work, and the file is registered. The task can be aborted at each of its
awaits; an operation that already runs on a blocking thread then still takes its course,
without anybody to register its effect. `run_allOrNothing_iff` says exactly when what is
left is all or nothing.
-/

namespace HathRs.ProxyFinalization
open Digests FileIds MachineArithmetic PartialFiles UpstreamRecovery

/-- `fs::copy` opens the source, then creates or truncates the target, then copies. -/
inductive CopyOutcome where
  | done
  | notOpened
  | torn (kept : ℕ)
  deriving DecidableEq

/-- Whether the task was still there when an awaited operation ended. -/
inductive Await where
  | returned
  | aborted
  deriving DecidableEq

/-- What the task meets while it runs. -/
structure RunEnv where
  openFails : Bool
  flushFails : Bool
  abortedBefore : Bool
  ensureDirFails : Bool
  renameOk : Bool
  renameAwait : Await
  copy : CopyOutcome
  copyAwait : Await
  removeOk : Bool
  removeAwait : Await
  lruFree : Bool
  now : UInt64

/-- The temporary file, the content of the file's cache path, the handler, and the number
of times `account_file_added` was called for the file. -/
structure RunState where
  temp : Option Bytes
  cached : Option Bytes
  cache : CacheHandler
  added : ℕ
  progress : DownloadState

inductive MoveResult where
  | ok
  | failed
  | aborted
  deriving DecidableEq

def copyTempToCacheAndDelete (env : RunEnv) (bytes : Bytes) (s : RunState) : RunState × MoveResult :=
  let copied : RunState :=
    match env.copy with
    | .done => { s with cached := some bytes }
    | .notOpened => s
    | .torn kept => { s with cached := some (bytes.take kept) }
  if env.copyAwait = .aborted then (copied, .aborted)
  else if env.copy ≠ .done then (copied, .failed)
  else
    -- An error of the removal is only logged.
    let removed := if env.removeOk then { copied with temp := none } else copied
    (removed, if env.removeAwait = .aborted then .aborted else .ok)

def moveTempToCache (env : RunEnv) (bytes : Bytes) (s : RunState) : RunState × MoveResult :=
  let renamed : RunState := if env.renameOk then { s with temp := none, cached := some bytes } else s
  if env.renameAwait = .aborted then (renamed, .aborted)
  else if env.renameOk then (renamed, .ok)
  else copyTempToCacheAndDelete env bytes s

def registered (env : RunEnv) (hv : HVFile) (s : RunState) : RunState :=
  match s.cache.registerProxyFile hv env.lruFree env.now with
  | .ok cache => { s with cache := cache, added := s.added + 1, progress := .done }
  | .error _ => { s with added := s.added + 1 }

/-- The part of the task behind a transfer that succeeded. -/
def finalize (env : RunEnv) (hv : HVFile) (bytes : Bytes) (s : RunState) : RunState :=
  if env.ensureDirFails then { s with progress := .failed .finalizeFailed }
  else
    match moveTempToCache env bytes s with
    | (moved, .ok) => registered env hv moved
    | (moved, .failed) => { moved with progress := .failed .finalizeFailed }
    | (moved, .aborted) => moved

/-- The destructor of `TempFile`, whose unlink succeeds. -/
def dropTemp (s : RunState) : RunState := { s with temp := none }

/-- `ProxyDownloadTask::run`. A task that is aborted in the transfer or while it waits for
the client's body does not get to the finalization. -/
def run (sha1 : Bytes → Sha1Digest) (gets : ℕ → GetOutcome) (env : RunEnv) (up : Upstream)
    (response : Response) (s : RunState) : RunState :=
  let (_, left, result) := download sha1 gets env.openFails env.flushFails up response
  let transferred := { s with temp := some left.file }
  if env.abortedBefore then dropTemp transferred
  else
    match result with
    | .error e => dropTemp { transferred with progress := .failed e.reason }
    | .ok () => dropTemp (finalize env up.hvFile left.file transferred)

/-! ## All or nothing -/

/-- The cache path holds the verified bytes, accounted for once, or nothing has changed; the
temporary file is gone in both cases. -/
def AllOrNothing (sha1 : Bytes → Sha1Digest) (hv : HVFile) (before after : RunState) : Prop :=
  ((∃ bytes, after.cached = some bytes ∧ bytes.length = hv.size.toNat ∧
      sha1Bytes sha1 bytes = hv.hash.text ∧ after.added = before.added + 1 ∧
      after.cache.cacheCount = (before.cache.accountFileAdded hv).cacheCount ∧
      after.cache.cacheSize = (before.cache.accountFileAdded hv).cacheSize) ∨
    (after.cached = before.cached ∧ after.added = before.added ∧
      after.cache.cacheCount = before.cache.cacheCount ∧
      after.cache.cacheSize = before.cache.cacheSize)) ∧
  after.temp = none

/-- What an operation that nobody registers leaves at the cache path. -/
def leftover (env : RunEnv) (bytes : Bytes) : Option Bytes :=
  if env.renameAwait = .aborted then if env.renameOk then some bytes else none
  else if env.renameOk then none
  else
    match env.copy with
    | .notOpened => none
    | .torn kept => some (bytes.take kept)
    | .done => if env.copyAwait = .aborted ∨ env.removeAwait = .aborted then some bytes else none

variable {sha1 : Bytes → Sha1Digest} {gets : ℕ → GetOutcome}

/-- A transfer that succeeds has left exactly the verified bytes in the temporary file. -/
theorem download_ok {openFails flushFails : Bool} {up next : Upstream} {response : Response}
    {left : PartialFile}
    (h : download sha1 gets openFails flushFails up response = (next, left, .ok ())) :
    left.file.length = up.hvFile.size.toNat ∧ sha1Bytes sha1 left.file = up.hvFile.hash.text := by
  simp only [download] at h
  split_ifs at h with hopen
  · simp at h
  · generalize hrun : recover sha1 gets flushFails up (.open up.expectedSize) response = r at h
    obtain ⟨mid, pf, result⟩ := r
    obtain ⟨-, -, hok⟩ := recover_spec (valid_open up.expectedSize) hrun
    cases result with
    | ok =>
      obtain ⟨-, rfl, -⟩ : _ ∧ pf = left ∧ True := by simpa using h
      obtain ⟨hv, hwritten, hhash⟩ := hok rfl
      exact ⟨hv.written_eq.symm.trans hwritten, hv.sha1_eq ▸ hhash⟩
    | error e => simp at h
    | cancelled => simp at h

/-- The file was moved and returned to the task, or what nobody registers is left. -/
theorem moveTempToCache_cases (env : RunEnv) (bytes : Bytes) (s : RunState) :
    ((moveTempToCache env bytes s).2 = .ok ∧ leftover env bytes = none ∧
      (moveTempToCache env bytes s).1.cached = some bytes) ∨
    ((moveTempToCache env bytes s).2 ≠ .ok ∧
      (moveTempToCache env bytes s).1.cached = (leftover env bytes).or s.cached) := by
  simp only [moveTempToCache, copyTempToCacheAndDelete, leftover]
  cases hra : env.renameAwait with
  | aborted => cases env.renameOk <;> simp
  | returned =>
    cases env.renameOk with
    | true => simp
    | false =>
      -- The rename failed and returned, so the copy decides.
      cases hcopy : env.copy with
      | notOpened => cases env.copyAwait <;> simp
      | torn kept => cases env.copyAwait <;> simp
      | done => cases env.copyAwait <;> cases env.removeAwait <;> cases env.removeOk <;> simp

theorem moveTempToCache_frame (env : RunEnv) (bytes : Bytes) (s : RunState) :
    (moveTempToCache env bytes s).1.cache = s.cache ∧
      (moveTempToCache env bytes s).1.added = s.added := by
  simp only [moveTempToCache, copyTempToCacheAndDelete]
  cases env.renameAwait <;> cases env.renameOk <;> cases env.copy <;> cases env.copyAwait <;>
    cases env.removeOk <;> simp

theorem registered_spec (env : RunEnv) (hv : HVFile) (s : RunState) :
    (registered env hv s).cached = s.cached ∧ (registered env hv s).added = s.added + 1 ∧
      (registered env hv s).cache.cacheCount = (s.cache.accountFileAdded hv).cacheCount ∧
      (registered env hv s).cache.cacheSize = (s.cache.accountFileAdded hv).cacheSize := by
  obtain ⟨next, hnext, hcount, hsize⟩ := s.cache.registerProxyFile_ok hv env.lruFree env.now
  simp only [registered, hnext, true_and]
  exact ⟨hcount, hsize⟩

/-- A task that did not register its file changed at most the content of the cache path. -/
private theorem allOrNothing_unregistered {hv : HVFile} {before after : RunState}
    (htemp : after.temp = none) (hadded : after.added = before.added)
    (hcache : after.cache = before.cache) :
    AllOrNothing sha1 hv before after ↔ after.cached = before.cached := by
  constructor
  · rintro ⟨⟨bytes, -, -, -, hadd, -⟩ | ⟨hsame, -⟩, -⟩
    · omega
    · exact hsame
  · intro hsame
    exact ⟨.inr ⟨hsame, hadded, by rw [hcache], by rw [hcache]⟩, htemp⟩

/-- The finalization of a verified file is all or nothing unless it leaves something behind
that nobody registers and that was not there before. -/
theorem finalize_allOrNothing_iff (env : RunEnv) (hv : HVFile) (bytes : Bytes) (s : RunState)
    (hlength : bytes.length = hv.size.toNat) (hhash : sha1Bytes sha1 bytes = hv.hash.text) :
    AllOrNothing sha1 hv s (dropTemp (finalize env hv bytes { s with temp := some bytes })) ↔
      (env.ensureDirFails = false → ∀ left, leftover env bytes = some left → s.cached = some left) := by
  simp only [finalize]
  cases env.ensureDirFails with
  | true => simp [allOrNothing_unregistered, dropTemp]
  | false =>
    obtain ⟨hcache, hadded⟩ := moveTempToCache_frame env bytes { s with temp := some bytes }
    have hcases := moveTempToCache_cases env bytes { s with temp := some bytes }
    generalize moveTempToCache env bytes { s with temp := some bytes } = r at hcache hadded hcases
    obtain ⟨moved, result⟩ := r
    -- Without a registration the old content must still be there.
    have hunregistered : ∀ after : RunState, after.cached = (leftover env bytes).or s.cached →
        after.added = s.added → after.cache = s.cache → after.temp = none →
        (AllOrNothing sha1 hv s after ↔
          (false = false → ∀ left, leftover env bytes = some left → s.cached = some left)) := by
      intro after hcached hadded hcache htemp
      rw [allOrNothing_unregistered htemp hadded hcache, hcached]
      cases leftover env bytes <;> simp [eq_comm]
    rcases hcases with ⟨rfl, hnone, hcached⟩ | ⟨hne, hcached⟩
    · obtain ⟨hsame, hadd, hcount, hsize⟩ := registered_spec env hv moved
      simp only [hnone, reduceCtorEq, false_implies, implies_true, iff_true, Bool.false_eq_true,
        if_false]
      refine ⟨.inl ⟨bytes, hsame.trans hcached, hlength, hhash, ?_, ?_, ?_⟩, rfl⟩
      · exact hadd.trans (congrArg (· + 1) hadded)
      · exact hcount.trans (by rw [hcache])
      · exact hsize.trans (by rw [hcache])
    · cases result with
      | ok => exact absurd rfl hne
      | failed => exact hunregistered _ hcached hadded hcache rfl
      | aborted => exact hunregistered _ hcached hadded hcache rfl

/-- A task is all or nothing exactly when its finalization, if it gets to one, leaves nothing
at the cache path that is not registered. -/
theorem run_allOrNothing_iff (gets : ℕ → GetOutcome) (env : RunEnv) (up : Upstream)
    (response : Response) (s : RunState) :
    AllOrNothing sha1 up.hvFile s (run sha1 gets env up response s) ↔
      (env.abortedBefore = false → env.ensureDirFails = false → ∀ next left,
        download sha1 gets env.openFails env.flushFails up response = (next, left, .ok ()) →
          ∀ bytes, leftover env left.file = some bytes → s.cached = some bytes) := by
  simp only [run]
  generalize hdownload : download sha1 gets env.openFails env.flushFails up response = r
  obtain ⟨next, left, result⟩ := r
  cases env.abortedBefore with
  | true => simp [allOrNothing_unregistered, dropTemp]
  | false =>
    cases result with
    | error e => simp [allOrNothing_unregistered, dropTemp]
    | ok =>
      obtain ⟨hlength, hhash⟩ := download_ok hdownload
      simp only [Bool.false_eq_true, if_false]
      rw [finalize_allOrNothing_iff env up.hvFile left.file s hlength hhash]
      constructor
      · rintro h - hdir _ _ ⟨⟩
        exact h hdir
      · intro h hdir
        exact h trivial hdir next left rfl

/-! A file of four bytes that is already cached is downloaded again, the rename does not work
and the copy fails after two bytes. -/

/-- The SHA-1 of the four bytes `test`. -/
def testDigest (_ : Bytes) : Sha1Digest :=
  #v[0xa9, 0x4a, 0x8f, 0xe5, 0xcc, 0xb1, 0x9b, 0xa6, 0x1c, 0x4c, 0x08, 0x73, 0xd3, 0x91, 0xe9,
    0x87, 0x98, 0x2f, 0xbb, 0xd3]

def testUpstream : Upstream where
  sources := ["http://source/file".toList]
  hvFile := sampleFile
  maxAllowedFilesize := 10485760
  attempts := 1
  retained := 0
  requests := ["http://source/file".toList]
  sources_ne := by decide

def testResponse : Response := ⟨200, some 4, ⟨[⟨[116, 101, 115, 116], .done⟩], .eof⟩⟩

def tornCopy : RunEnv where
  openFails := false
  flushFails := false
  abortedBefore := false
  ensureDirFails := false
  renameOk := false
  renameAwait := .returned
  copy := .torn 2
  copyAwait := .returned
  removeOk := true
  removeAwait := .returned
  lruFree := true
  now := 0

theorem download_test (gets : ℕ → GetOutcome) :
    download testDigest gets false false testUpstream testResponse =
      ({ testUpstream with retained := 4 },
        ⟨[116, 101, 115, 116], 4, 4, 4, [116, 101, 115, 116], [4]⟩, .ok ()) := by
  have hreceive : receive testDigest (.open 4) testResponse.body =
      (⟨[116, 101, 115, 116], 4, 4, 4, [116, 101, 115, 116], [4]⟩, .ok ()) := by rfl
  have hfinish : finish testDigest ⟨[116, 101, 115, 116], 4, 4, 4, [116, 101, 115, 116], [4]⟩ false
      testUpstream.hvFile.hash.text = .ok () := by rfl
  have hsize : testUpstream.expectedSize = 4 := rfl
  have hrecover : recover testDigest gets false testUpstream (.open 4) testResponse =
      (testUpstream, ⟨[116, 101, 115, 116], 4, 4, 4, [116, 101, 115, 116], [4]⟩, .ok) := by
    rw [recover]
    simp only [hreceive, hfinish]
  simp only [download, Bool.false_eq_true, if_false, hsize, hrecover]

/-- The copy of the good file that was cached is cut to two bytes. -/
theorem run_tornCopy_truncates :
    ¬ AllOrNothing testDigest testUpstream.hvFile
      ⟨none, some [116, 101, 115, 116], .empty, 0, .inProgress 0⟩
      (run testDigest (fun _ => .deadline) tornCopy testUpstream testResponse
        ⟨none, some [116, 101, 115, 116], .empty, 0, .inProgress 0⟩) := by
  intro h
  have hdownload := download_test fun _ => .deadline
  simp only [run, tornCopy, hdownload, Bool.false_eq_true, if_false] at h
  have hcached := ((finalize_allOrNothing_iff _ _ _ _ (by decide) (by decide)).mp h) rfl
    [116, 101] rfl
  exact absurd hcached (by decide)

end HathRs.ProxyFinalization
