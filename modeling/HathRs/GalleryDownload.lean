import HathRs.GalleryListings
import HathRs.CrashFiles

/-!
# Downloading a gallery

The files of a gallery are downloaded in rounds until all of them are complete. Each one is
written to a hidden part file first and then renamed, and when all are complete the text of
the gallery is written beside them. All these names are in one directory, and the parser
only sees to it that the listed ones differ from each other.
-/

namespace HathRs.GalleryDownload
open TextParsing Digests FileIds GalleryListings

/-! ## The transfer of a file -/

/-- What one request brings. `created` tells that the part file could be created, `received` are the
bytes written to it, and `failed` that the transfer or a write broke off. -/
inductive Response where
  | unreachable
  | notFound
  | badStatus
  | body (contentLength : Option UInt64) (created : Bool) (received : Bytes) (failed : Bool)

inductive Attempt where
  | done (contentLength : Int32)
  | notFound
  | retryable

/-- The part file and the result after one attempt. -/
def attemptDownload (maxLength : UInt64) (part : Option Bytes) : Response → Option Bytes × Attempt
  | .unreachable | .badStatus => (part, .retryable)
  | .notFound => (part, .notFound)
  | .body none _ _ _ => (part, .retryable)
  | .body (some length) created received failed =>
    let contentLength := length.toUInt32.toInt32
    if contentLength < 0 then (part, .retryable)
    else if contentLength.toInt.toNat > maxLength.toNat then (part, .retryable)
    else if !created then (part, .retryable)
    else if failed then (some received, .retryable)
    else if received.length ≠ contentLength.toInt.toNat then (some received, .retryable)
    else (some received, .done contentLength)

/-- The part file after `download`, and the content length if it succeeds. -/
def download (maxLength : UInt64) : ℕ → Option Bytes → List Response → Option Bytes × Option Int32
  | 0, part, _ => (part, none)
  | retries + 1, part, responses =>
    match attemptDownload maxLength part (responses.headD .unreachable) with
    | (part, .done contentLength) => (part, some contentLength)
    | (part, .notFound) => (part, none)
    | (part, .retryable) => download maxLength retries part responses.tail

def retries : ℕ := 3

/-! ## One file of a gallery -/

def partPath (target : Text) : Text := '.' :: (target ++ ".part".toList)

inductive DownloadOne where
  | downloaded
  | alreadyPresent
  | failed (sourceFailure : Option Text)
  deriving DecidableEq

inductive RunError where
  | shutdown
  | io
  deriving DecidableEq

/-- What happens around one call of `download_file`: whether a look at the files fails, whether a
file can be removed, the host of the source if the server names one, what the source
answers, a shutdown in between, and whether the rename succeeds. -/
structure Answer where
  existingFails : Bool
  targetRemoved : Bool
  source : Option (Option Text)
  partRemoved : Bool
  responses : List Response
  interrupted : Bool
  verifyFails : Bool
  cleaned : Bool
  renamed : Bool

def removeIfExists (dir : Disk Text) (name : Text) (removed : Bool) : Disk Text :=
  if removed then Function.update dir name none else dir

def sourceFailureKey (host : Option Text) (file : GalleryFile) : Option Text :=
  host.map fun host => host ++ '-' :: (decimal file.fileindex.toNat ++ '-' :: file.xres)

section Runs

variable (sha1 : Bytes → Sha1Digest) (maxLength : UInt64)

def verifyFileSha1 (content : Option Bytes) (expected : Sha1Hash) : Bool :=
  content.any fun data => sha1Bytes sha1 data == expected.text

def existingFileIsValid (content : Option Bytes) (expected : Option Sha1Hash) : Bool :=
  content.any (fun data => !data.isEmpty) && expected.all (verifyFileSha1 sha1 content)

/-- `download_file` after the part file was written -/
def finalizeFile (dir : Disk Text) (file : GalleryFile) (contentLength : Int32)
    (failure : Option Text) (answer : Answer) : Except RunError (Disk Text × DownloadOne) :=
  let part := partPath file.target
  if 0 < contentLength ∧ file.expectedSha1.isSome ∧ answer.verifyFails then .error .io
  else if 0 < contentLength ∧ file.expectedSha1.all (verifyFileSha1 sha1 (dir part)) then
    match dir part, answer.renamed with
    | some data, true =>
      .ok (Function.update (Function.update dir part none) file.target (some data), .downloaded)
    | _, _ => .ok (removeIfExists dir part answer.cleaned, .failed failure)
  else .ok (removeIfExists dir part answer.cleaned, .failed failure)

def downloadFile (dir : Disk Text) (file : GalleryFile) (answer : Answer) :
    Except RunError (Disk Text × DownloadOne) :=
  if answer.existingFails then .error .io
  else if existingFileIsValid sha1 (dir file.target) file.expectedSha1 then .ok (dir, .alreadyPresent)
  else
    let dir := removeIfExists dir file.target answer.targetRemoved
    match answer.source with
    | none => .ok (dir, .failed none)
    | some host =>
      let part := partPath file.target
      let dir := removeIfExists dir part answer.partRemoved
      if answer.interrupted then .error .shutdown
      else
        let failure := sourceFailureKey host file
        match download maxLength retries (dir part) answer.responses with
        | (content, none) =>
          .ok (removeIfExists (Function.update dir part content) part answer.cleaned, .failed failure)
        | (content, some contentLength) =>
          finalizeFile sha1 (Function.update dir part content) file contentLength failure answer

/-! ## The gallery -/

def maxGalleryRounds : ℕ := 10

def maxReportedFailures : ℕ := 50

structure Progress where
  dir : Disk Text
  complete : List Bool
  attempts : List ℕ
  totalFailures : ℕ
  sourceFailures : List Text

def Progress.start (dir : Disk Text) (filecount : ℕ) : Progress :=
  ⟨dir, List.replicate filecount false, List.replicate filecount 0, 0, []⟩

/-- What the loop meets at a file. `delayed` tells that the delay after it was not cut short. -/
structure Visit where
  shutdown : Bool
  lowSpace : Bool
  answer : Answer
  delayed : Bool

def recordFailure (failures : List Text) (sourceFailure : Option Text) : List Text :=
  match sourceFailure with
  | none => failures
  | some failure =>
    if failures.length < maxReportedFailures ∧ failure ∉ failures then failures ++ [failure]
    else failures

/-- The progress after an attempt, and the delay that follows it. -/
def recordOutcome (p : Progress) (index : ℕ) (delayed : Bool) (dir : Disk Text) :
    DownloadOne → Except RunError Progress
  | .downloaded =>
    if delayed then .ok { p with dir, complete := p.complete.set index true } else .error .shutdown
  | .alreadyPresent => .ok { p with dir, complete := p.complete.set index true }
  | .failed sourceFailure =>
    if delayed then
      .ok { p with
        dir
        totalFailures := p.totalFailures + 1
        sourceFailures := recordFailure p.sourceFailures sourceFailure }
    else .error .shutdown

def visitFile (p : Progress) (file : GalleryFile) (index : ℕ) (visit : Visit) :
    Except RunError Progress :=
  if visit.shutdown then .error .shutdown
  else if p.complete[index]? = some true then .ok p
  else if visit.lowSpace then if visit.delayed then .ok p else .error .shutdown
  else
    match downloadFile sha1 maxLength p.dir file visit.answer with
    | .error e => .error e
    | .ok (dir, one) =>
      recordOutcome { p with attempts := p.attempts.modify index (· + 1) } index visit.delayed dir one

/-- The files from the one at `index` on. -/
def roundFrom (visits : ℕ → Visit) : ℕ → List GalleryFile → Progress → Except RunError Progress
  | _, [], p => .ok p
  | index, file :: files, p =>
    match visitFile sha1 maxLength p file index (visits index) with
    | .error e => .error e
    | .ok p => roundFrom visits (index + 1) files p

def rounds (files : List GalleryFile) (visits : ℕ → ℕ → Visit) :
    ℕ → ℕ → Progress → Except RunError Progress
  | 0, _, p => .ok p
  | n + 1, round, p =>
    if p.complete.all id || p.totalFailures ≥ files.length * 2 then .ok p
    else
      match roundFrom sha1 maxLength (visits round) 0 files p with
      | .error e => .error e
      | .ok p => rounds files visits n (round + 1) p

structure FinishedGallery where
  gid : UInt32
  minxres : Text
  successful : Bool
  failures : List Text

def infoName : Text := "galleryinfo.txt".toList

/-- The gallery's directory after `download_gallery`. The last argument is what a failed write of the
text leaves under its name. -/
def downloadGallery (metadata : GalleryMetadata) (dir : Disk Text) (visits : ℕ → ℕ → Visit)
    (infoLeft : Option (Option Bytes)) : Except RunError (FinishedGallery × Disk Text) :=
  match rounds sha1 maxLength metadata.files visits maxGalleryRounds 0
      (.start dir metadata.files.length) with
  | .error e => .error e
  | .ok p =>
    let successful := p.complete.all id
    let finished := ⟨metadata.gid, metadata.minxres, successful, p.sourceFailures⟩
    if successful then
      let written := infoLeft.getD (some (utf8 metadata.information))
      .ok (finished, Function.update p.dir infoName written)
    else .ok (finished, p.dir)

end Runs

/-! ## What a completed file is -/

section Files

variable {sha1 : Bytes → Sha1Digest} {maxLength : UInt64} {dir next : Disk Text} {file : GalleryFile}

/-- The bytes can be those of the file. -/
def Fits (sha1 : Bytes → Sha1Digest) (file : GalleryFile) (data : Bytes) : Prop :=
  data ≠ [] ∧ ∀ expected, file.expectedSha1 = some expected → sha1Bytes sha1 data = expected.text

/-- The file is there, with a length and the SHA-1 it should have. -/
def Present (sha1 : Bytes → Sha1Digest) (dir : Disk Text) (file : GalleryFile) : Prop :=
  ∃ data, dir file.target = some data ∧ Fits sha1 file data

theorem all_verifyFileSha1 (data : Bytes) (expected : Option Sha1Hash) :
    expected.all (verifyFileSha1 sha1 (some data)) = true ↔
      ∀ hash, expected = some hash → sha1Bytes sha1 data = hash.text := by
  cases expected with
  | none => simp
  | some hash => simp [verifyFileSha1]

theorem existingFileIsValid_iff :
    existingFileIsValid sha1 (dir file.target) file.expectedSha1 = true ↔ Present sha1 dir file := by
  cases hdir : dir file.target with
  | none => simp [existingFileIsValid, Present, hdir]
  | some data =>
    simp only [existingFileIsValid, Bool.and_eq_true, all_verifyFileSha1, Present, Fits, hdir,
      Option.some.injEq, exists_eq_left']
    simp

theorem download_done {n : ℕ} {part content : Option Bytes} {responses : List Response}
    {contentLength : Int32} (h : download maxLength n part responses = (content, some contentLength)) :
    ∃ data, content = some data ∧ data.length = contentLength.toInt.toNat := by
  induction n generalizing part responses with
  | zero => cases h
  | succ n ih =>
    simp only [download] at h
    cases hresponse : responses.headD .unreachable with
    | body length created received failed =>
      rw [hresponse] at h
      cases length with
      | none => exact ih h
      | some length =>
        simp only [attemptDownload] at h
        split_ifs at h with hneg hmax hcreated hfailed hlength
        · exact ih h
        · exact ih h
        · exact ih h
        · exact ih h
        · exact ih h
        · cases h
          exact ⟨received, rfl, not_not.mp hlength⟩
    | notFound =>
      rw [hresponse] at h
      cases h
    | unreachable =>
      rw [hresponse] at h
      exact ih h
    | badStatus =>
      rw [hresponse] at h
      exact ih h

theorem partPath_ne (target : Text) : partPath target ≠ target := by
  intro h
  have hlength := congrArg List.length h
  simp [partPath] at hlength
  omega

theorem removeIfExists_of_ne {name other : Text} (h : other ≠ name) (removed : Bool) :
    removeIfExists dir name removed other = dir other := by
  simp only [removeIfExists]
  split_ifs
  · exact Function.update_of_ne h _ _
  · rfl

/-- Only the target and its part file are touched. -/
def Frame (file : GalleryFile) (dir next : Disk Text) : Prop :=
  ∀ name, name ≠ file.target → name ≠ partPath file.target → next name = dir name

theorem finalizeFile_spec {contentLength : Int32} {failure : Option Text} {answer : Answer}
    {one : DownloadOne} {data : Bytes} (hpart : dir (partPath file.target) = some data)
    (hlength : data.length = contentLength.toInt.toNat)
    (h : finalizeFile sha1 dir file contentLength failure answer = .ok (next, one)) :
    Frame file dir next ∧ (one = .downloaded → Present sha1 next file) ∧ one ≠ .alreadyPresent := by
  simp only [finalizeFile] at h
  split_ifs at h with hfails hverified
  · rw [hpart] at h hverified
    cases hrenamed : answer.renamed with
    | true =>
      rw [hrenamed] at h
      cases h
      refine ⟨fun name htarget hname => ?_, fun _ => ⟨data, Function.update_self .., ?_, ?_⟩, nofun⟩
      · rw [Function.update_of_ne htarget, Function.update_of_ne hname]
      · rintro rfl
        have hpos : (0 : ℤ) < contentLength.toInt := Int32.lt_iff_toInt_lt.mp hverified.1
        rw [List.length_nil] at hlength
        omega
      · exact (all_verifyFileSha1 data file.expectedSha1).mp hverified.2
    | false =>
      rw [hrenamed] at h
      cases h
      exact ⟨fun name _ hname => removeIfExists_of_ne hname _, nofun, nofun⟩
  · cases h
    exact ⟨fun name _ hname => removeIfExists_of_ne hname _, nofun, nofun⟩

theorem downloadFile_spec {answer : Answer} {one : DownloadOne}
    (h : downloadFile sha1 maxLength dir file answer = .ok (next, one)) :
    Frame file dir next ∧ (one = .downloaded ∨ one = .alreadyPresent → Present sha1 next file) := by
  cases hsource : answer.source with
  | none =>
    simp only [downloadFile, hsource] at h
    split_ifs at h with hfails hvalid
    · cases h
      exact ⟨fun _ _ _ => rfl, fun _ => existingFileIsValid_iff.mp hvalid⟩
    · cases h
      refine ⟨fun name htarget _ => removeIfExists_of_ne htarget _, fun hor => ?_⟩
      rcases hor with hor | hor <;> cases hor
  | some host =>
    simp only [downloadFile, hsource] at h
    split_ifs at h with hfails hvalid hinterrupted
    · cases h
      exact ⟨fun _ _ _ => rfl, fun _ => existingFileIsValid_iff.mp hvalid⟩
    -- the directory with another part file
    have hframe : ∀ content, Frame file dir (Function.update
        (removeIfExists (removeIfExists dir file.target answer.targetRemoved) (partPath file.target)
          answer.partRemoved) (partPath file.target) content) := by
      intro content name htarget hname
      rw [Function.update_of_ne hname, removeIfExists_of_ne hname, removeIfExists_of_ne htarget]
    split at h
    · cases h
      refine ⟨fun name htarget hname => ?_, fun hor => ?_⟩
      · rw [removeIfExists_of_ne hname, hframe _ name htarget hname]
      · rcases hor with hor | hor <;> cases hor
    · rename_i content contentLength hdownload
      obtain ⟨data, rfl, hlength⟩ := download_done hdownload
      obtain ⟨hframe', hpresent, hnot⟩ := finalizeFile_spec (Function.update_self ..) hlength h
      refine ⟨fun name htarget hname => ?_, fun hor => ?_⟩
      · rw [hframe' name htarget hname, hframe _ name htarget hname]
      · rcases hor with hor | hor
        · exact hpresent hor
        · exact absurd hor hnot

end Files

/-! ## Galleries whose names are apart -/

/-- No listed file has the name of another's part file. -/
def NamesApart (files : List GalleryFile) : Prop :=
  ∀ f ∈ files, ∀ g ∈ files, g.target ≠ partPath f.target

/-- The text of the gallery can be the listed file that it replaces. -/
def InfoFits (sha1 : Bytes → Sha1Digest) (metadata : GalleryMetadata) : Prop :=
  ∀ f ∈ metadata.files, f.target = infoName → Fits sha1 f (utf8 metadata.information)

def Distinct (files : List GalleryFile) : Prop :=
  ∀ (i j : ℕ) (f g : GalleryFile), files[i]? = some f → files[j]? = some g → f.target = g.target → i = j

theorem Distinct.nodup {files : List GalleryFile} (h : Distinct files) :
    (files.map GalleryFile.target).Nodup := by
  refine List.pairwise_iff_getElem.mpr fun i j hi hj hlt heq => ?_
  rw [List.getElem_map, List.getElem_map] at heq
  rw [List.length_map] at hi hj
  have hij := h i j _ _ (List.getElem?_eq_getElem hi) (List.getElem?_eq_getElem hj) heq
  omega

structure Complete (sha1 : Bytes → Sha1Digest) (metadata : GalleryMetadata) (dir : Disk Text) : Prop where
  files : ∀ f ∈ metadata.files, Present sha1 dir f
  info : dir infoName = some (utf8 metadata.information)

section Apart

variable {sha1 : Bytes → Sha1Digest} {maxLength : UInt64} {files : List GalleryFile} {p next : Progress}

/-- What is marked complete is there. -/
structure Inv (sha1 : Bytes → Sha1Digest) (files : List GalleryFile) (p : Progress) : Prop where
  length : p.complete.length = files.length
  present : ∀ (i : ℕ) (f : GalleryFile), files[i]? = some f → p.complete[i]? = some true →
    Present sha1 p.dir f

theorem Present.frame {dir next : Disk Text} {f g : GalleryFile} (h : Present sha1 dir f)
    (hframe : Frame g dir next) (htarget : f.target ≠ g.target) (hpart : f.target ≠ partPath g.target) :
    Present sha1 next f := by
  obtain ⟨data, hdata, hfits⟩ := h
  exact ⟨data, (hframe f.target htarget hpart).trans hdata, hfits⟩

theorem Inv.visitFile (hdistinct : Distinct files) (hapart : NamesApart files) (h : Inv sha1 files p)
    {file : GalleryFile} {index : ℕ} (hfile : files[index]? = some file) {visit : Visit}
    (hv : visitFile sha1 maxLength p file index visit = .ok next) : Inv sha1 files next := by
  simp only [GalleryDownload.visitFile] at hv
  split_ifs at hv with hshutdown hcomplete hlow hdelayed
  · cases hv
    exact h
  · cases hv
    exact h
  · cases hdownload : downloadFile sha1 maxLength p.dir file visit.answer with
    | error e =>
      rw [hdownload] at hv
      cases hv
    | ok result =>
      obtain ⟨dir, one⟩ := result
      rw [hdownload] at hv
      obtain ⟨hframe, hpresent⟩ := downloadFile_spec hdownload
      -- the files that are complete have other names
      have hothers : ∀ (i : ℕ) (f : GalleryFile), files[i]? = some f → i ≠ index →
          p.complete[i]? = some true → Present sha1 dir f := by
        intro i f hf hne hi
        refine (h.present i f hf hi).frame hframe (fun heq => hne ?_) ?_
        · exact hdistinct i index f file hf hfile heq
        · exact hapart file (List.mem_of_getElem? hfile) f (List.mem_of_getElem? hf)
      have hdone : Present sha1 dir file → ∀ (i : ℕ) (f : GalleryFile), files[i]? = some f →
          (p.complete.set index true)[i]? = some true → Present sha1 dir f := by
        intro hthis i f hf hi
        by_cases hindex : i = index
        · subst hindex
          rw [hfile] at hf
          cases hf
          exact hthis
        · rw [List.getElem?_set_ne (Ne.symm hindex)] at hi
          exact hothers i f hf hindex hi
      cases one with
      | downloaded =>
        simp only [recordOutcome] at hv
        split_ifs at hv
        cases hv
        exact ⟨by simpa using h.length, hdone (hpresent (.inl rfl))⟩
      | alreadyPresent =>
        cases hv
        exact ⟨by simpa using h.length, hdone (hpresent (.inr rfl))⟩
      | failed sourceFailure =>
        simp only [recordOutcome] at hv
        split_ifs at hv
        cases hv
        refine ⟨h.length, fun i f hf hi => hothers i f hf ?_ hi⟩
        rintro rfl
        exact hcomplete hi

theorem Inv.roundFrom (hdistinct : Distinct files) (hapart : NamesApart files) {visits : ℕ → Visit}
    {index : ℕ} {rest : List GalleryFile} (hrest : files.drop index = rest) (h : Inv sha1 files p)
    (hr : roundFrom sha1 maxLength visits index rest p = .ok next) : Inv sha1 files next := by
  induction rest generalizing index p with
  | nil =>
    cases hr
    exact h
  | cons file rest ih =>
    simp only [GalleryDownload.roundFrom] at hr
    cases hvisit : GalleryDownload.visitFile sha1 maxLength p file index (visits index) with
    | error e =>
      rw [hvisit] at hr
      cases hr
    | ok mid =>
      rw [hvisit] at hr
      have hfile : files[index]? = some file := by
        rw [← List.head?_drop, hrest]
        rfl
      have htail : files.drop (index + 1) = rest := by
        rw [← List.tail_drop, hrest]
        rfl
      exact ih htail (h.visitFile hdistinct hapart hfile hvisit) hr

theorem Inv.rounds (hdistinct : Distinct files) (hapart : NamesApart files)
    {visits : ℕ → ℕ → Visit} {n round : ℕ} (h : Inv sha1 files p)
    (hr : rounds sha1 maxLength files visits n round p = .ok next) : Inv sha1 files next := by
  induction n generalizing round p with
  | zero =>
    cases hr
    exact h
  | succ n ih =>
    simp only [GalleryDownload.rounds] at hr
    split_ifs at hr
    · cases hr
      exact h
    · cases hround : GalleryDownload.roundFrom sha1 maxLength (visits round) 0 files p with
      | error e =>
        rw [hround] at hr
        cases hr
      | ok mid =>
        rw [hround] at hr
        exact ih (h.roundFrom hdistinct hapart rfl hround) hr

theorem inv_start (dir : Disk Text) : Inv sha1 files (.start dir files.length) := by
  refine ⟨by simp [Progress.start], fun i f _ hi => ?_⟩
  cases List.eq_of_mem_replicate (List.mem_of_getElem? hi)

/-- Behind a successful download every file is there, but for the one that the text replaces. -/
theorem present_of_successful {metadata : GalleryMetadata} (hdistinct : Distinct metadata.files)
    (hapart : NamesApart metadata.files) {dir next : Disk Text} {visits : ℕ → ℕ → Visit}
    {infoLeft : Option (Option Bytes)} {finished : FinishedGallery}
    (h : downloadGallery sha1 maxLength metadata dir visits infoLeft = .ok (finished, next))
    (hsuccess : finished.successful = true) :
    next infoName = infoLeft.getD (some (utf8 metadata.information)) ∧
      ∀ f ∈ metadata.files, f.target ≠ infoName → Present sha1 next f := by
  simp only [downloadGallery] at h
  cases hrounds : rounds sha1 maxLength metadata.files visits maxGalleryRounds 0
      (.start dir metadata.files.length) with
  | error e =>
    rw [hrounds] at h
    cases h
  | ok p =>
    rw [hrounds] at h
    have hinv := (inv_start dir).rounds hdistinct hapart hrounds
    simp only at h
    split_ifs at h with hall
    · cases h
      refine ⟨Function.update_self .., fun f hf hname => ?_⟩
      obtain ⟨i, hi⟩ := List.mem_iff_getElem?.mp hf
      have hlt : i < p.complete.length := by
        rw [hinv.length]
        exact (List.getElem?_eq_some_iff.mp hi).1
      have hcomplete : p.complete[i]? = some true := by
        rw [List.getElem?_eq_getElem hlt]
        exact congrArg some (List.all_eq_true.mp hall _ (List.getElem_mem hlt))
      obtain ⟨data, hdata, hfits⟩ := hinv.present i f hi hcomplete
      exact ⟨data, (Function.update_of_ne hname ..).trans hdata, hfits⟩
    · cases h
      exact absurd hsuccess hall

/-- However its files are visited, a gallery whose text can be written is complete once its download
is reported successful. -/
def Reliable (sha1 : Bytes → Sha1Digest) (maxLength : UInt64) (metadata : GalleryMetadata) : Prop :=
  ∀ (dir : Disk Text) (visits : ℕ → ℕ → Visit) (finished : FinishedGallery) (next : Disk Text),
    downloadGallery sha1 maxLength metadata dir visits none = .ok (finished, next) →
    finished.successful = true → Complete sha1 metadata next

theorem reliable_of_apart {metadata : GalleryMetadata} (hdistinct : Distinct metadata.files)
    (hapart : NamesApart metadata.files) (hinfo : InfoFits sha1 metadata) :
    Reliable sha1 maxLength metadata := by
  intro dir visits finished next h hsuccess
  obtain ⟨htext, hfiles⟩ := present_of_successful hdistinct hapart h hsuccess
  refine ⟨fun f hf => ?_, htext⟩
  by_cases hname : f.target = infoName
  · exact ⟨_, by rw [hname]; exact htext, hinfo f hf hname⟩
  · exact hfiles f hf hname

end Apart

/-! ## Galleries whose names are not apart -/

/-- Every listed file has contents that can be downloaded. -/
def Attainable (sha1 : Bytes → Sha1Digest) (maxLength : UInt64) (files : List GalleryFile) : Prop :=
  ∀ f ∈ files, ∃ data, Fits sha1 f data ∧ data.length < 2 ^ 31 ∧ data.length ≤ maxLength.toNat

/-- The source sends the bytes at once. -/
def delivering (data : Bytes) : Visit where
  shutdown := false
  lowSpace := false
  answer :=
    { existingFails := false, targetRemoved := true, source := some none, partRemoved := true
      responses := [.body (some (UInt64.ofNat data.length)) true data false]
      interrupted := false, verifyFails := false, cleaned := true, renamed := true }
  delayed := true

def pausing : Visit := { delivering [] with lowSpace := true }

/-- There is no space for the file at one place in the first round, and then it is sent. -/
def pauseThenDeliver (place : ℕ) (data : Bytes) : ℕ → ℕ → Visit
  | 0, k => if k = place then pausing else delivering []
  | _ + 1, _ => delivering data

section NotApart

variable {sha1 : Bytes → Sha1Digest} {maxLength : UInt64} {files : List GalleryFile} {p : Progress}
  {dir : Disk Text} {file : GalleryFile} {data : Bytes} {index : ℕ}

theorem toInt_length {n : ℕ} (h : n < 2 ^ 31) : (UInt64.ofNat n).toUInt32.toInt32.toInt = n := by
  have h64 : (UInt64.ofNat n).toNat = n := UInt64.toNat_ofNat_of_lt' (by simp [UInt64.size]; omega)
  rw [← Int32.toInt_toBitVec, UInt32.toBitVec_toInt32, BitVec.toInt_eq_toNat_of_lt]
  · rw [UInt32.toNat_toBitVec, UInt64.toNat_toUInt32, h64]
    omega
  · rw [UInt32.toNat_toBitVec, UInt64.toNat_toUInt32, h64]
    omega

theorem download_delivering (hlength : data.length < 2 ^ 31) (hmax : data.length ≤ maxLength.toNat)
    (part : Option Bytes) :
    download maxLength retries part (delivering data).answer.responses =
      (some data, some (UInt64.ofNat data.length).toUInt32.toInt32) := by
  have hint := toInt_length hlength
  have hneg : ¬ (UInt64.ofNat data.length).toUInt32.toInt32 < 0 := by
    rw [Int32.lt_iff_toInt_lt, hint]
    simp
  simp only [retries, download, delivering, List.headD_cons, attemptDownload, hneg, hint,
    Int.toNat_natCast, not_lt.mpr hmax, if_false, Bool.not_true, Bool.false_eq_true,
    ne_eq, not_true_eq_false]

/-- The file is downloaded through its part file. -/
theorem downloadFile_delivering (hmissing : ¬ Present sha1 dir file) (hfits : Fits sha1 file data)
    (hlength : data.length < 2 ^ 31) (hmax : data.length ≤ maxLength.toNat) :
    ∃ next, downloadFile sha1 maxLength dir file (delivering data).answer = .ok (next, .downloaded) ∧
      next (partPath file.target) = none := by
  have hpos : (0 : Int32) < (UInt64.ofNat data.length).toUInt32.toInt32 := by
    rw [Int32.lt_iff_toInt_lt, toInt_length hlength]
    simpa using List.length_pos_iff.mpr hfits.1
  have hverified := (all_verifyFileSha1 data file.expectedSha1).mpr hfits.2
  have hinvalid : existingFileIsValid sha1 (dir file.target) file.expectedSha1 = false :=
    Bool.eq_false_iff.mpr fun h => hmissing (existingFileIsValid_iff.mp h)
  have hdownload := download_delivering hlength hmax
    (removeIfExists (removeIfExists dir file.target true) (partPath file.target) true
      (partPath file.target))
  simp only [delivering] at hdownload
  simp only [downloadFile, delivering, Bool.false_eq_true, if_false, hinvalid, hdownload, finalizeFile,
    and_false, Function.update_self, hpos, hverified, and_self, if_true]
  refine ⟨_, rfl, ?_⟩
  rw [Function.update_of_ne (partPath_ne file.target), Function.update_self]

theorem visitFile_present (maxLength : UInt64) (data : Bytes)
    (hthis : p.complete[index]? = some true ∨ Present sha1 p.dir file) :
    ∃ mid, visitFile sha1 maxLength p file index (delivering data) = .ok mid ∧ mid.dir = p.dir ∧
      mid.totalFailures = p.totalFailures ∧ mid.complete = p.complete.set index true := by
  by_cases hcomplete : p.complete[index]? = some true
  · refine ⟨p, ?_, rfl, rfl, ?_⟩
    · simp only [visitFile, delivering, Bool.false_eq_true, if_false, hcomplete, if_true]
    · obtain ⟨hlt, hget⟩ := List.getElem?_eq_some_iff.mp hcomplete
      have hset := List.set_getElem_self hlt
      rw [hget] at hset
      exact hset.symm
  · have hvalid := existingFileIsValid_iff.mpr (hthis.resolve_left hcomplete)
    have hdownload : downloadFile sha1 maxLength p.dir file (delivering data).answer =
        .ok (p.dir, .alreadyPresent) := by
      simp only [downloadFile, delivering, Bool.false_eq_true, if_false, hvalid, if_true]
    refine ⟨{ p with
      attempts := p.attempts.modify index (· + 1), complete := p.complete.set index true },
      ?_, rfl, rfl, rfl⟩
    simp only [visitFile, hcomplete, if_false, hdownload, recordOutcome]
    rfl

/-- A round in which every file is complete already or found in place. -/
theorem roundFrom_present (maxLength : UInt64) {visits : ℕ → Visit} {rest : List GalleryFile}
    (hvisits : ∀ k, index ≤ k → k < index + rest.length → ∃ data, visits k = delivering data)
    (hlength : index + rest.length ≤ p.complete.length)
    (hrest : ∀ (k : ℕ) (f : GalleryFile), rest[k]? = some f →
      p.complete[index + k]? = some true ∨ Present sha1 p.dir f) :
    ∃ next, roundFrom sha1 maxLength visits index rest p = .ok next ∧ next.dir = p.dir ∧
      next.totalFailures = p.totalFailures ∧ next.complete.length = p.complete.length ∧
      (∀ k, index ≤ k → k < index + rest.length → next.complete[k]? = some true) ∧
      ∀ k, k < index ∨ index + rest.length ≤ k → next.complete[k]? = p.complete[k]? := by
  induction rest generalizing index p with
  | nil =>
    refine ⟨p, rfl, rfl, rfl, rfl, fun k hle hlt => ?_, fun _ _ => rfl⟩
    simp at hlt
    omega
  | cons file rest ih =>
    rw [List.length_cons] at hlength hvisits
    obtain ⟨data, hdata⟩ := hvisits index (by omega) (by omega)
    have hfirst : p.complete[index]? = some true ∨ Present sha1 p.dir file := hrest 0 file rfl
    obtain ⟨mid, hmid, hdir, hfailures, hcomplete⟩ := visitFile_present maxLength data hfirst
    rw [← hdata] at hmid
    have hsame : ∀ k, k ≠ index → mid.complete[k]? = p.complete[k]? := by
      intro k hk
      rw [hcomplete, List.getElem?_set_ne (Ne.symm hk)]
    have hthis : mid.complete[index]? = some true := by
      rw [hcomplete, List.getElem?_set_self (by omega)]
    have hmidlength : mid.complete.length = p.complete.length := by
      rw [hcomplete, List.length_set]
    have hmidrest : ∀ (k : ℕ) (f : GalleryFile), rest[k]? = some f →
        mid.complete[index + 1 + k]? = some true ∨ Present sha1 mid.dir f := by
      intro k f hf
      rw [hsame _ (by omega), hdir, Nat.add_assoc, Nat.add_comm 1 k]
      exact hrest (k + 1) f hf
    obtain ⟨next, hnext, hdir', hfailures', hlength', hdone, hothers⟩ :=
      ih (fun k hle hlt => hvisits k (by omega) (by omega)) (by omega) hmidrest
    refine ⟨next, ?_, hdir'.trans hdir, hfailures'.trans hfailures, hlength'.trans hmidlength,
      fun k hle hlt => ?_, fun k hk => ?_⟩
    · rw [roundFrom, hmid]
      exact hnext
    · rw [List.length_cons] at hlt
      rcases Nat.eq_or_lt_of_le hle with rfl | hgt
      · rw [hothers index (.inl (by omega)), hthis]
      · exact hdone k hgt (by omega)
    · rw [List.length_cons] at hk
      rw [hothers k (by omega), hsame k (by omega)]

theorem roundFrom_append {visits : ℕ → Visit} {xs ys : List GalleryFile} {mid : Progress}
    (h : roundFrom sha1 maxLength visits index xs p = .ok mid) :
    roundFrom sha1 maxLength visits index (xs ++ ys) p =
      roundFrom sha1 maxLength visits (index + xs.length) ys mid := by
  induction xs generalizing index p with
  | nil =>
    cases h
    rfl
  | cons file xs ih =>
    rw [roundFrom] at h
    rw [List.cons_append, roundFrom]
    cases hvisit : visitFile sha1 maxLength p file index (visits index) with
    | error e =>
      rw [hvisit] at h
      cases h
    | ok next =>
      rw [hvisit] at h
      simp only
      rw [ih h, List.length_cons, Nat.add_right_comm, Nat.add_assoc]

/-- A round with the other files complete or in place, around one for which there is no space. -/
theorem pauseRound (maxLength : UInt64) {before after : List GalleryFile} {visits : ℕ → Visit}
    (hpause : visits before.length = pausing)
    (hvisits : ∀ k, k ≠ before.length → ∃ data, visits k = delivering data)
    (hlength : p.complete.length = (before ++ file :: after).length)
    (hpresent : ∀ g ∈ before ++ after, Present sha1 p.dir g) :
    ∃ next, roundFrom sha1 maxLength visits 0 (before ++ file :: after) p = .ok next ∧
      next.dir = p.dir ∧ next.totalFailures = p.totalFailures ∧
      next.complete.length = p.complete.length ∧
      (∀ k, k ≠ before.length → k < p.complete.length → next.complete[k]? = some true) ∧
      next.complete[before.length]? = p.complete[before.length]? := by
  rw [List.length_append, List.length_cons] at hlength
  have hbefore : ∀ (k : ℕ) (f : GalleryFile), before[k]? = some f →
      p.complete[0 + k]? = some true ∨ Present sha1 p.dir f :=
    fun k f hf => .inr (hpresent f (List.mem_append_left _ (List.mem_of_getElem? hf)))
  obtain ⟨p₁, hp₁, hdir₁, hfailures₁, hlength₁, hdone₁, hsame₁⟩ :=
    roundFrom_present maxLength (fun k _ hlt => hvisits k (by omega)) (by omega) hbefore
  have hmiddle : visitFile sha1 maxLength p₁ file before.length (visits before.length) = .ok p₁ := by
    rw [hpause]
    simp only [visitFile, pausing, delivering, Bool.false_eq_true, if_false, if_true, ite_self]
  have hafter : ∀ (k : ℕ) (f : GalleryFile), after[k]? = some f →
      p₁.complete[before.length + 1 + k]? = some true ∨ Present sha1 p₁.dir f := by
    intro k f hf
    rw [hdir₁]
    exact .inr (hpresent f (List.mem_append_right _ (List.mem_of_getElem? hf)))
  obtain ⟨p₂, hp₂, hdir₂, hfailures₂, hlength₂, hdone₂, hsame₂⟩ :=
    roundFrom_present maxLength (fun k hle _ => hvisits k (by omega)) (by omega) hafter
  refine ⟨p₂, ?_, hdir₂.trans hdir₁, hfailures₂.trans hfailures₁, hlength₂.trans hlength₁,
    fun k hne hlt => ?_, ?_⟩
  · rw [roundFrom_append hp₁, Nat.zero_add, roundFrom, hmiddle]
    exact hp₂
  · rcases Nat.lt_or_ge k before.length with hk | hk
    · rw [hsame₂ k (by omega), hdone₁ k (by omega) (by omega)]
    · exact hdone₂ k (by omega) (by omega)
  · rw [hsame₂ _ (by omega), hsame₁ _ (by omega)]

/-- A round with the other files complete, around one that is downloaded. -/
theorem lastRound (maxLength : UInt64) {before after : List GalleryFile}
    (hlength : p.complete.length = (before ++ file :: after).length)
    (hcomplete : ∀ k, k ≠ before.length → k < p.complete.length → p.complete[k]? = some true)
    (hopen : p.complete[before.length]? = some false) (hmissing : ¬ Present sha1 p.dir file)
    (hfits : Fits sha1 file data) (hbound : data.length < 2 ^ 31) (hmax : data.length ≤ maxLength.toNat) :
    ∃ next, roundFrom sha1 maxLength (fun _ => delivering data) 0 (before ++ file :: after) p = .ok next ∧
      next.complete.all id = true ∧ next.dir (partPath file.target) = none := by
  rw [List.length_append, List.length_cons] at hlength
  have hvisits : ∀ k : ℕ, ∃ sent, (fun _ => delivering data) k = delivering sent := fun _ => ⟨data, rfl⟩
  have hbefore : ∀ (k : ℕ) (f : GalleryFile), before[k]? = some f →
      p.complete[0 + k]? = some true ∨ Present sha1 p.dir f := by
    intro k f hf
    have hk := (List.getElem?_eq_some_iff.mp hf).1
    exact .inl (hcomplete _ (by omega) (by omega))
  obtain ⟨p₁, hp₁, hdir₁, -, hlength₁, hdone₁, hsame₁⟩ :=
    roundFrom_present maxLength (fun k _ _ => hvisits k) (by omega) hbefore
  rw [← hdir₁] at hmissing
  obtain ⟨dir, hdownload, hpart⟩ := downloadFile_delivering hmissing hfits hbound hmax
  have hopen₁ : p₁.complete[before.length]? ≠ some true := by
    rw [hsame₁ _ (by omega), hopen]
    decide
  have hmiddle : visitFile sha1 maxLength p₁ file before.length (delivering data) =
      .ok { p₁ with
        dir
        attempts := p₁.attempts.modify before.length (· + 1)
        complete := p₁.complete.set before.length true } := by
    simp only [visitFile, hopen₁, if_false, hdownload, recordOutcome]
    rfl
  obtain ⟨p₂, hp₂⟩ : ∃ p₂ : Progress, p₂ = { p₁ with
      dir
      attempts := p₁.attempts.modify before.length (· + 1)
      complete := p₁.complete.set before.length true } := ⟨_, rfl⟩
  rw [← hp₂] at hmiddle
  have hdir₂ : p₂.dir = dir := by rw [hp₂]
  have hset : p₂.complete = p₁.complete.set before.length true := by rw [hp₂]
  have hlength₂ : p₂.complete.length = p₁.complete.length := by rw [hset, List.length_set]
  have hcomplete₂ : ∀ k, k < p.complete.length → p₂.complete[k]? = some true := by
    intro k hk
    by_cases hne : k = before.length
    · rw [hset, hne, List.getElem?_set_self (by omega)]
    · rw [hset, List.getElem?_set_ne (Ne.symm hne)]
      rcases Nat.lt_or_ge k before.length with hlt | hge
      · exact hdone₁ k (by omega) (by omega)
      · rw [hsame₁ k (by omega), hcomplete k hne hk]
  have hafter : ∀ (k : ℕ) (f : GalleryFile), after[k]? = some f →
      p₂.complete[before.length + 1 + k]? = some true ∨ Present sha1 p₂.dir f := by
    intro k f hf
    have hk := (List.getElem?_eq_some_iff.mp hf).1
    exact .inl (hcomplete₂ _ (by omega))
  obtain ⟨p₃, hp₃, hdir₃, -, hlength₃, hdone₃, hsame₃⟩ :=
    roundFrom_present maxLength (fun k _ _ => hvisits k) (by omega) hafter
  refine ⟨p₃, ?_, List.all_eq_true.mpr fun mark hmark => ?_, ?_⟩
  · rw [roundFrom_append hp₁, Nat.zero_add, roundFrom, hmiddle]
    exact hp₃
  · obtain ⟨k, hk⟩ := List.mem_iff_getElem?.mp hmark
    have hlt := (List.getElem?_eq_some_iff.mp hk).1
    rcases Nat.lt_or_ge k (before.length + 1) with hlow | hhigh
    · rw [hsame₃ k (by omega), hcomplete₂ k (by omega)] at hk
      exact (Option.some.inj hk).symm
    · rw [hdone₃ k hhigh (by omega)] at hk
      exact (Option.some.inj hk).symm
  · rw [hdir₃, hdir₂, hpart]

/-- The files in their places -/
def placing (files : List GalleryFile) (content : GalleryFile → Bytes) : Disk Text :=
  fun name => (files.find? fun f => f.target = name).map content

theorem placing_present {content : GalleryFile → Bytes} (hnodup : (files.map GalleryFile.target).Nodup)
    (hfile : file ∈ files) (hfits : Fits sha1 file (content file)) :
    Present sha1 (placing files content) file := by
  refine ⟨content file, ?_, hfits⟩
  cases hfind : files.find? fun f => f.target = file.target with
  | none => simpa using List.find?_eq_none.mp hfind file hfile
  | some g =>
    have htarget : g.target = file.target := by simpa using List.find?_some hfind
    have heq : g = file := List.inj_on_of_nodup_map hnodup (List.mem_of_find?_eq_some hfind) hfile htarget
    simp only [placing, hfind, heq, Option.map_some]

theorem placing_missing {content : GalleryFile → Bytes} {name : Text}
    (hname : name ∉ files.map GalleryFile.target) : placing files content name = none := by
  have hfind : files.find? (fun f => f.target = name) = none := by
    refine List.find?_eq_none.mpr fun f hf heq => hname ?_
    rw [← of_decide_eq_true heq]
    exact List.mem_map_of_mem hf
  simp only [placing, hfind, Option.map_none]

theorem partPath_ne_infoName (target : Text) : partPath target ≠ infoName := by
  intro h
  have hhead := congrArg List.head? h
  rw [show infoName.head? = some 'g' from by decide] at hhead
  cases hhead

theorem rounds_of_complete {visits : ℕ → ℕ → Visit} (h : p.complete.all id = true) (n round : ℕ) :
    rounds sha1 maxLength files visits n round p = .ok p := by
  cases n with
  | zero => rfl
  | succ n => simp only [rounds, h, Bool.true_or, if_true]

theorem rounds_succ {visits : ℕ → ℕ → Visit} {n round k : ℕ} {mid : Progress}
    (hopen : p.complete[k]? = some false) (hfailures : p.totalFailures < files.length * 2)
    (hround : roundFrom sha1 maxLength (visits round) 0 files p = .ok mid) :
    rounds sha1 maxLength files visits (n + 1) round p =
      rounds sha1 maxLength files visits n (round + 1) mid := by
  have hall : p.complete.all id = false :=
    List.all_eq_false.mpr ⟨false, List.mem_of_getElem? hopen, by decide⟩
  simp only [rounds, hall, Bool.false_or, decide_eq_true_eq, not_le.mpr hfailures, if_false, hround]

theorem downloadGallery_of_rounds {metadata : GalleryMetadata} {visits : ℕ → ℕ → Visit}
    (hrounds : rounds sha1 maxLength metadata.files visits maxGalleryRounds 0
      (.start dir metadata.files.length) = .ok p) (hall : p.complete.all id = true) :
    ∃ finished, downloadGallery sha1 maxLength metadata dir visits none =
        .ok (finished, Function.update p.dir infoName (some (utf8 metadata.information))) ∧
      finished.successful = true := by
  simp only [downloadGallery, hrounds, hall, if_true, Option.getD_none]
  exact ⟨_, rfl, rfl⟩

theorem Attainable.exists_content (h : Attainable sha1 maxLength files) :
    ∃ content : GalleryFile → Bytes, ∀ f ∈ files, Fits sha1 f (content f) ∧
      (content f).length < 2 ^ 31 ∧ (content f).length ≤ maxLength.toNat := by
  have hone : ∀ f, ∃ data : Bytes, f ∈ files →
      Fits sha1 f data ∧ data.length < 2 ^ 31 ∧ data.length ≤ maxLength.toNat := by
    intro f
    by_cases hf : f ∈ files
    · obtain ⟨data, hdata⟩ := h f hf
      exact ⟨data, fun _ => hdata⟩
    · exact ⟨[], fun hf' => absurd hf' hf⟩
  exact ⟨fun f => (hone f).choose, fun f => (hone f).choose_spec⟩

/-- All files are in place but one. In the first round there is no space for it, and in the second
its download removes the file that has the name of its part file. -/
theorem not_reliable_of_part {metadata : GalleryMetadata} (hdistinct : Distinct metadata.files)
    (hattain : Attainable sha1 maxLength metadata.files) {f g : GalleryFile}
    (hf : f ∈ metadata.files) (hg : g ∈ metadata.files) (heq : g.target = partPath f.target) :
    ¬ Reliable sha1 maxLength metadata := by
  obtain ⟨content, hcontent⟩ := hattain.exists_content
  obtain ⟨hfits, hbound, hmax⟩ := hcontent f hf
  obtain ⟨before, after, hfiles⟩ := List.append_of_mem hf
  have hnodup := hdistinct.nodup
  rw [hfiles, List.map_append, List.map_cons, List.nodup_middle, ← List.map_append,
    List.nodup_cons] at hnodup
  have hothers : ∀ h ∈ before ++ after, Present sha1 (placing (before ++ after) content) h := by
    intro h hh
    refine placing_present hnodup.2 hh (hcontent h ?_).1
    rw [hfiles]
    exact List.mem_append.mpr ((List.mem_append.mp hh).imp_right (List.mem_cons_of_mem f))
  have hmissing : ¬ Present sha1 (placing (before ++ after) content) f := by
    rintro ⟨data, hdata, -⟩
    rw [placing_missing hnodup.1] at hdata
    cases hdata
  intro hreliable
  obtain ⟨p₀, hp₀⟩ : ∃ p₀,
      p₀ = Progress.start (placing (before ++ after) content) metadata.files.length := ⟨_, rfl⟩
  have hlength : p₀.complete.length = (before ++ f :: after).length := by
    rw [hp₀, hfiles]
    exact List.length_replicate
  have hopen : p₀.complete[before.length]? = some false := by
    rw [hp₀, hfiles]
    exact List.getElem?_replicate_of_lt (by simp)
  have hroom : 0 < metadata.files.length * 2 := by
    have := List.length_pos_of_mem hf
    omega
  have hpause : pauseThenDeliver before.length (content f) 0 before.length = pausing := if_pos rfl
  obtain ⟨p₁, hp₁, hdir₁, hfailures₁, hlength₁, hdone₁, hsame₁⟩ :=
    pauseRound maxLength hpause (fun k hk => ⟨[], if_neg hk⟩) hlength (by rw [hp₀]; exact hothers)
  have hmissing₁ : ¬ Present sha1 p₁.dir f := by
    rw [hdir₁, hp₀]
    exact hmissing
  rw [← hlength₁] at hlength hdone₁
  rw [hopen] at hsame₁
  obtain ⟨p₂, hp₂, hall, hpart⟩ :=
    lastRound maxLength hlength hdone₁ hsame₁ hmissing₁ hfits hbound hmax
  have hrounds : rounds sha1 maxLength metadata.files (pauseThenDeliver before.length (content f))
      maxGalleryRounds 0 p₀ = .ok p₂ := by
    rw [← hfiles] at hp₁ hp₂
    rw [maxGalleryRounds, rounds_succ hopen (by rw [hp₀]; exact hroom) hp₁,
      rounds_succ hsame₁ (by rw [hfailures₁, hp₀]; exact hroom) hp₂]
    exact rounds_of_complete hall _ _
  rw [hp₀] at hrounds
  obtain ⟨finished, hfinished, hsuccess⟩ := downloadGallery_of_rounds hrounds hall
  obtain ⟨data, hdata, -⟩ := (hreliable _ _ _ _ hfinished hsuccess).files g hg
  rw [heq, Function.update_of_ne (partPath_ne_infoName f.target), hpart] at hdata
  cases hdata

/-- All files are in place, and the text of the gallery replaces one of them. -/
theorem not_reliable_of_info {metadata : GalleryMetadata} (hdistinct : Distinct metadata.files)
    (hattain : Attainable sha1 maxLength metadata.files) (hinfo : ¬ InfoFits sha1 metadata) :
    ¬ Reliable sha1 maxLength metadata := by
  obtain ⟨content, hcontent⟩ := hattain.exists_content
  simp only [InfoFits, not_forall] at hinfo
  obtain ⟨f, hf, hname, hnot⟩ := hinfo
  obtain ⟨p₀, hp₀⟩ : ∃ p₀,
      p₀ = Progress.start (placing metadata.files content) metadata.files.length := ⟨_, rfl⟩
  have hplaced : ∀ (k : ℕ) (g : GalleryFile), metadata.files[k]? = some g →
      p₀.complete[0 + k]? = some true ∨ Present sha1 p₀.dir g := by
    intro k g hg
    have hmem := List.mem_of_getElem? hg
    rw [hp₀]
    exact .inr (placing_present hdistinct.nodup hmem (hcontent g hmem).1)
  have hlength : p₀.complete.length = metadata.files.length := by
    rw [hp₀]
    exact List.length_replicate
  have hpos := List.length_pos_of_mem hf
  have hopen : p₀.complete[0]? = some false := by
    rw [hp₀]
    exact List.getElem?_replicate_of_lt hpos
  obtain ⟨p₁, hp₁, hdir₁, -, hlength₁, hdone₁, -⟩ :=
    roundFrom_present maxLength (fun _ _ _ => ⟨[], rfl⟩) (by omega) hplaced
  have hall : p₁.complete.all id = true := by
    refine List.all_eq_true.mpr fun mark hmark => ?_
    obtain ⟨k, hk⟩ := List.mem_iff_getElem?.mp hmark
    have hlt := (List.getElem?_eq_some_iff.mp hk).1
    rw [hdone₁ k (by omega) (by omega)] at hk
    exact (Option.some.inj hk).symm
  have hrounds : rounds sha1 maxLength metadata.files (fun _ _ => delivering []) maxGalleryRounds 0 p₀ =
      .ok p₁ := by
    rw [maxGalleryRounds, rounds_succ hopen (by rw [hp₀]; exact Nat.mul_pos hpos Nat.two_pos) hp₁]
    exact rounds_of_complete hall _ _
  intro hreliable
  rw [hp₀] at hrounds
  obtain ⟨finished, hfinished, hsuccess⟩ := downloadGallery_of_rounds hrounds hall
  obtain ⟨data, hdata, hfits⟩ := (hreliable _ _ _ _ hfinished hsuccess).files f hf
  rw [hname, Function.update_self] at hdata
  cases hdata
  exact hnot hfits

end NotApart

/-! ## Accepted galleries -/

/-- A gallery that is reported successful is complete, if no file has the name of another's part file
and the text fits the listed file that has its name. If the files can be downloaded at all,
this is the only case. -/
theorem gallery_reliable_iff (sha1 : Bytes → Sha1Digest) (maxLength : UInt64) (raw : Text)
    (metadata : GalleryMetadata) (h : parseGalleryMetadata raw = .ok metadata) :
    (NamesApart metadata.files ∧ InfoFits sha1 metadata → Reliable sha1 maxLength metadata) ∧
    (Attainable sha1 maxLength metadata.files → Reliable sha1 maxLength metadata →
      NamesApart metadata.files ∧ InfoFits sha1 metadata) := by
  have hdistinct : Distinct metadata.files := (accepted_names h).2
  refine ⟨fun hapart => reliable_of_apart hdistinct hapart.1 hapart.2, fun hattain hreliable => ⟨?_, ?_⟩⟩
  · intro f hf g hg heq
    exact not_reliable_of_part hdistinct hattain hf hg heq hreliable
  · by_contra hinfo
    exact not_reliable_of_info hdistinct hattain hinfo hreliable

/-- The length limit of the default configuration -/
def defaultMaxLength : UInt64 := 1073741824

def sampleRaw : Text :=
  "GID 42\nFILECOUNT 2\nMINXRES org\nTITLE hello/world\nFILELIST\n".toList ++
    "1 10 org unknown jpg first page\n2 11 1280 unknown png second\n".toList ++
    "INFORMATION\nline one\n".toList

/-- The first file has the name of the second one's part file. -/
def hiddenRaw : Text :=
  "GID 42\nFILECOUNT 2\nMINXRES org\nTITLE x\nFILELIST\n".toList ++
    "1 10 org unknown part .page.jpg\n2 11 org unknown jpg page\n".toList ++
    "INFORMATION\nline one\n".toList

-- no SHA-1 is known in either gallery, so none is computed
def unusedSha1 (_ : Bytes) : Sha1Digest := Vector.replicate 20 0

/-- Every file of the gallery is sent at once, into an empty directory. -/
def sampleDownload (metadata : GalleryMetadata) : Except RunError (FinishedGallery × Disk Text) :=
  downloadGallery unusedSha1 defaultMaxLength metadata (fun _ => none)
    (fun _ _ => delivering [1, 2, 3]) none

/-- What the gallery lists, whether its download succeeds, and what is left of the files. -/
def sampleReport (raw : Text) : Option (List GalleryFile × Bool × List (Option Bytes)) :=
  match parseGalleryMetadata raw with
  | .error _ => none
  | .ok metadata =>
    match sampleDownload metadata with
    | .error _ => none
    | .ok (finished, next) =>
      some (metadata.files, finished.successful, metadata.files.map fun f => next f.target)

def sampleFiles : List GalleryFile :=
  [⟨1, 10, "org".toList, none, "jpg".toList, "first page".toList⟩,
    ⟨2, 11, "1280".toList, none, "png".toList, "second".toList⟩]

def hiddenFiles : List GalleryFile :=
  [⟨1, 10, "org".toList, none, "part".toList, ".page.jpg".toList⟩,
    ⟨2, 11, "org".toList, none, "jpg".toList, "page".toList⟩]

theorem sampleReport_cases {raw : Text} {files : List GalleryFile} {successful : Bool}
    {left : List (Option Bytes)} (h : sampleReport raw = some (files, successful, left)) :
    ∃ metadata finished next, parseGalleryMetadata raw = .ok metadata ∧ metadata.files = files ∧
      sampleDownload metadata = .ok (finished, next) ∧ finished.successful = successful ∧
      (files.map fun f => next f.target) = left := by
  simp only [sampleReport] at h
  cases hparse : parseGalleryMetadata raw with
  | error e =>
    rw [hparse] at h
    cases h
  | ok metadata =>
    rw [hparse] at h
    simp only at h
    cases hdownload : sampleDownload metadata with
    | error e =>
      rw [hdownload] at h
      cases h
    | ok result =>
      obtain ⟨finished, next⟩ := result
      rw [hdownload] at h
      cases h
      exact ⟨metadata, finished, next, rfl, rfl, hdownload, rfl, rfl⟩

theorem sampleRaw_complete :
    ∃ metadata finished next, parseGalleryMetadata sampleRaw = .ok metadata ∧
      sampleDownload metadata = .ok (finished, next) ∧ finished.successful = true ∧
      Complete unusedSha1 metadata next := by
  have hreport : sampleReport sampleRaw = some (sampleFiles, true, [some [1, 2, 3], some [1, 2, 3]]) := by
    decide +kernel
  obtain ⟨metadata, finished, next, hparse, hfiles, hdownload, hsuccess, -⟩ := sampleReport_cases hreport
  have hapart : NamesApart metadata.files := by
    rw [hfiles]
    unfold NamesApart
    decide +kernel
  have hinfo : InfoFits unusedSha1 metadata := by
    have hne : ∀ f ∈ sampleFiles, f.target ≠ infoName := by decide +kernel
    intro f hf hname
    rw [hfiles] at hf
    exact absurd hname (hne f hf)
  have hreliable := (gallery_reliable_iff unusedSha1 defaultMaxLength sampleRaw metadata hparse).1
    ⟨hapart, hinfo⟩
  exact ⟨metadata, finished, next, hparse, hdownload, hsuccess, hreliable _ _ _ _ hdownload hsuccess⟩

/-- Both downloads succeed, and the second one has removed the first file. -/
theorem hiddenRaw_incomplete :
    ∃ metadata finished next, parseGalleryMetadata hiddenRaw = .ok metadata ∧
      sampleDownload metadata = .ok (finished, next) ∧ finished.successful = true ∧
      ∃ f ∈ metadata.files, next f.target = none := by
  have hreport : sampleReport hiddenRaw = some (hiddenFiles, true, [none, some [1, 2, 3]]) := by
    decide +kernel
  obtain ⟨metadata, finished, next, hparse, hfiles, hdownload, hsuccess, hleft⟩ :=
    sampleReport_cases hreport
  refine ⟨metadata, finished, next, hparse, hdownload, hsuccess, ?_⟩
  rw [hfiles]
  exact ⟨_, .head _, (List.cons.inj hleft).1⟩

end HathRs.GalleryDownload
