import HathRs.MigrationTransaction

/-!
# A migration that is cut short

The existing files are moved away with `pcache_info` first, and the new ones are renamed into
place with `pcache_info` last. Wherever the publication fails or the process dies in
between, there is no marker, so the client loads nothing, and every old file is in one of
its two places. A failed `sync_all` is a failure of the operation behind the write, and a process
that dies behind the last rename leaves the disk of the run that returns.
-/

namespace HathRs.MigrationTransaction
open TextParsing Digests CrashFiles BincodeFormat PersistentCache HpcacheProtocol

/-! ## The backup -/

section Backup

variable {dir : Text} {names : List Text} {disk : Disk DataPath} {faults : List Fault}

/-- The operations that move the files into the backup directory. -/
def backupOps (dir : Text) (names : List Text) : List (FileOp DataPath) :=
  names.map fun name => .rename [name] [dir, name]

/-- A file is where it was, or it is in the backup directory and only there. -/
def MovedOrKept (dir : Text) (disk left : Disk DataPath) (name : Text) : Prop :=
  (left [name] = disk [name] ∧ left [dir, name] = disk [dir, name]) ∨
    (left [name] = none ∧ left [dir, name] = disk [name] ∧ disk [name] ≠ none)

theorem moved_of_apply {name : Text} {next : Disk DataPath}
    (h : (FileOp.rename [name] [dir, name]).apply disk = some next) :
    next [name] = none ∧ next [dir, name] = disk [name] ∧ disk [name] ≠ none := by
  obtain ⟨data, hdata, rfl⟩ := apply_rename_eq_some h
  refine ⟨?_, ?_, by simp [hdata]⟩
  · rw [Function.update_of_ne (by simp), Function.update_self]
  · rw [Function.update_self, hdata]

theorem movedOrKept_backup (name : Text) :
    MovedOrKept dir disk (runOps disk faults (backupOps dir names)).1 name := by
  induction names generalizing disk faults with
  | nil => exact .inl ⟨rfl, rfl⟩
  | cons first names ih =>
    rw [backupOps, List.map_cons, ← backupOps]
    rcases runOps_cons_cases disk faults (.rename [first] [dir, first]) (backupOps dir names) with
      ⟨kept, hrun, -⟩ | ⟨next, hnext, hrun⟩
    · rw [hrun]
      exact .inl ⟨rfl, rfl⟩
    · rw [hrun]
      have hrest : MovedOrKept dir next (runOps next faults.tail (backupOps dir names)).1 name := ih
      by_cases hname : name = first
      · subst hname
        obtain ⟨hnone, hbackup, hsome⟩ := moved_of_apply hnext
        rcases hrest with ⟨hleft, hdir⟩ | ⟨-, -, habsent⟩
        · exact .inr ⟨hleft.trans hnone, hdir.trans hbackup, hsome⟩
        · exact absurd hnone habsent
      · rw [MovedOrKept, FileOp.apply_frame (by simp [FileOp.names, hname]) hnext,
          FileOp.apply_frame (by simp [FileOp.names, hname]) hnext] at hrest
        exact hrest

/-- Once the first file is moved it stays away, and before that nothing has changed. -/
theorem backup_first (first : Text) :
    (runOps disk faults (backupOps dir (first :: names))).1 = disk ∨
      (runOps disk faults (backupOps dir (first :: names))).1 [first] = none := by
  rw [backupOps, List.map_cons, ← backupOps]
  rcases runOps_cons_cases disk faults (.rename [first] [dir, first]) (backupOps dir names) with
    ⟨kept, hrun, -⟩ | ⟨next, hnext, hrun⟩
  · exact .inl hrun
  · rw [hrun]
    obtain ⟨hnone, -, -⟩ := moved_of_apply hnext
    have hrest : MovedOrKept dir next (runOps next faults.tail (backupOps dir names)).1 first :=
      movedOrKept_backup first
    rcases hrest with ⟨hleft, -⟩ | ⟨hleft, -, -⟩
    · exact .inr (hleft.trans hnone)
    · exact .inr hleft

/-- A completed backup leaves none of the files behind. -/
theorem moved_of_backup (h : (runOps disk faults (backupOps dir names)).2 = .ok) {name : Text}
    (hname : name ∈ names) :
    (runOps disk faults (backupOps dir names)).1 [name] = none ∧
      (runOps disk faults (backupOps dir names)).1 [dir, name] = disk [name] := by
  induction names generalizing disk faults with
  | nil => cases hname
  | cons first names ih =>
    rw [backupOps, List.map_cons, ← backupOps] at h ⊢
    rcases runOps_cons_cases disk faults (.rename [first] [dir, first]) (backupOps dir names) with
      ⟨kept, -, hne⟩ | ⟨next, hnext, hrun⟩
    · exact absurd h hne
    · rw [hrun] at h ⊢
      by_cases hfirst : name = first
      · subst hfirst
        obtain ⟨hnone, hbackup, -⟩ := moved_of_apply hnext
        have hrest : MovedOrKept dir next (runOps next faults.tail (backupOps dir names)).1 name :=
          movedOrKept_backup name
        rcases hrest with ⟨hleft, hdir⟩ | ⟨-, -, habsent⟩
        · exact ⟨hleft.trans hnone, hdir.trans hbackup⟩
        · exact absurd hnone habsent
      · obtain ⟨hleft, hdir⟩ := ih h ((List.mem_cons.mp hname).resolve_left hfirst)
        rw [FileOp.apply_frame (by simp [FileOp.names, hfirst]) hnext] at hdir
        exact ⟨hleft, hdir⟩

/-- The artifacts that are there before the publication. -/
def existing (disk : Disk DataPath) : List Text :=
  artifacts.filter fun name => (disk [name]).isSome

theorem mem_existing {name : Text} (hname : name ∈ artifacts) (h : disk [name] ≠ none) :
    name ∈ existing disk :=
  List.mem_filter.mpr ⟨hname, Option.isSome_iff_ne_none.mpr h⟩

theorem existing_eq_nil (h : existing disk = []) {name : Text} (hname : name ∈ artifacts) :
    disk [name] = none := by
  by_contra hsome
  have hmem := mem_existing hname hsome
  rw [h] at hmem
  cases hmem

theorem info_eq_none_of_kept {left : Disk DataPath} (hinfo : disk pcacheInfo = none)
    (h : MovedOrKept dir disk left "pcache_info".toList) : left pcacheInfo = none := by
  rcases h with ⟨hleft, -⟩ | ⟨hleft, -, -⟩
  · exact hleft.trans hinfo
  · exact hleft

/-- The marker is the first artifact, so a backup that changed anything has moved it. -/
theorem info_of_backup :
    (runOps disk faults (backupOps dir (existing disk))).1 = disk ∨
      (runOps disk faults (backupOps dir (existing disk))).1 pcacheInfo = none := by
  by_cases hinfo : disk pcacheInfo = none
  · exact .inr (info_eq_none_of_kept hinfo (movedOrKept_backup _))
  · have hexisting : existing disk =
        "pcache_info".toList :: (artifacts.tail.filter fun name => (disk [name]).isSome) :=
      List.filter_cons_of_pos (Option.isSome_iff_ne_none.mpr hinfo)
    rw [hexisting]
    exact backup_first _

theorem info_of_completed_backup (h : (runOps disk faults (backupOps dir (existing disk))).2 = .ok) :
    (runOps disk faults (backupOps dir (existing disk))).1 pcacheInfo = none := by
  by_cases hinfo : disk pcacheInfo = none
  · exact info_eq_none_of_kept hinfo (movedOrKept_backup _)
  · exact (moved_of_backup h (mem_existing (by decide) hinfo)).1

end Backup

/-! ## Staging and cleaning up -/

section Staging

variable {run : PublishRun} {encoded : EncodedSnapshot} {backupDir : Option Text} {first : ℕ}
  {disk left : Disk DataPath} {faults : List Fault} {result : PublishResult}

/-- The staging files of one publication. -/
def stagePaths (run : PublishRun) (first : ℕ) : List DataPath :=
  [(stages run first).1, (stages run first).2.1, (stages run first).2.2]

theorem removeStages_frame {paths : List DataPath} {path : DataPath} (h : path ∉ paths) :
    (removeStages faults disk paths).1 path = disk path := by
  induction paths generalizing disk faults with
  | nil => rfl
  | cons head paths ih =>
    obtain ⟨hhead, hrest⟩ : path ≠ head ∧ path ∉ paths := not_or.mp (mt List.mem_cons.mpr h)
    have hremoved : (runOps disk [nextFault faults] [.remove head]).1 path = disk path :=
      runOps_frame (by simpa [FileOp.names] using hhead)
    rw [removeStages]
    generalize runOps disk [nextFault faults] [.remove head] = result at hremoved ⊢
    obtain ⟨left, outcome⟩ := result
    cases outcome with
    | crashed => exact hremoved
    | ok => exact (ih hrest).trans hremoved
    | failed => exact (ih hrest).trans hremoved

/-- When every file can be unlinked none is left. -/
theorem removeStages_eq_none (hfaults : ∀ fault ∈ faults, fault = .none) {paths : List DataPath}
    {path : DataPath} (h : path ∈ paths) : (removeStages faults disk paths).1 path = none := by
  induction paths generalizing disk faults with
  | nil => cases h
  | cons head paths ih =>
    have hnext : nextFault faults = .none := by
      cases faults with
      | nil => rfl
      | cons fault faults => exact hfaults fault List.mem_cons_self
    have hstep : removeStages faults disk (head :: paths) =
        removeStages faults.tail (Function.update disk head none) paths := by
      rw [removeStages, hnext]
      rfl
    rw [hstep]
    by_cases hrest : path ∈ paths
    · exact ih (fun fault hfault => hfaults fault (List.mem_of_mem_tail hfault)) hrest
    · obtain rfl := (List.mem_cons.mp h).resolve_right hrest
      rw [removeStages_frame hrest, Function.update_self]

/-- The closure under the faults of the run. -/
def staging (run : PublishRun) (encoded : EncodedSnapshot) (first : ℕ) (disk : Disk DataPath) :
    Disk DataPath × Outcome :=
  runOps disk run.stageFaults (stageOps encoded (stages run first))

/-- What the closure's outcome makes of the publication. -/
theorem publishStaged_cases (h : publishStaged run encoded backupDir first disk = (left, result)) :
    ((staging run encoded first disk).2 = .ok ∧ left = (staging run encoded first disk).1 ∧
      result = .ok backupDir) ∨
    ((staging run encoded first disk).2 ≠ .ok ∧ left = (staging run encoded first disk).1 ∧
      result = .crashed) ∨
    (staging run encoded first disk).2 ≠ .ok ∧
      left = (removeStages run.cleanupFaults (staging run encoded first disk).1
        (stagePaths run first)).1 ∧
      (result = .error .io ∨ result = .crashed) := by
  simp only [publishStaged] at h
  simp only [staging, stagePaths]
  generalize runOps disk run.stageFaults (stageOps encoded (stages run first)) = attempt at h ⊢
  obtain ⟨staged, outcome⟩ := attempt
  cases outcome with
  | ok =>
    cases h
    exact .inl ⟨rfl, rfl, rfl⟩
  | crashed =>
    cases h
    exact .inr (.inl ⟨by simp, rfl, rfl⟩)
  | failed =>
    dsimp only at h ⊢
    generalize removeStages run.cleanupFaults staged
      [(stages run first).1, (stages run first).2.1, (stages run first).2.2] = cleanup at h ⊢
    obtain ⟨cleaned, outcome⟩ := cleanup
    cases outcome with
    | ok =>
      cases h
      exact .inr (.inr ⟨by simp, rfl, .inl rfl⟩)
    | failed =>
      cases h
      exact .inr (.inr ⟨by simp, rfl, .inl rfl⟩)
    | crashed =>
      cases h
      exact .inr (.inr ⟨by simp, rfl, .inr rfl⟩)

/-- A path that is neither a staging file nor one of the client's three. -/
theorem staging_frame {path : DataPath} (hstage : path ∉ stagePaths run first)
    (hclient : path ∉ [pcacheAges, pcacheLru, pcacheInfo]) :
    (staging run encoded first disk).1 path = disk path := by
  refine runOps_frame ?_
  simp only [stagePaths, List.mem_cons, List.not_mem_nil, or_false, not_or] at hstage hclient
  obtain ⟨hsa, hsl, hsi⟩ := hstage
  obtain ⟨hca, hcl, hci⟩ := hclient
  simp [stageOps, FileOp.names, hsa, hsl, hsi, hca, hcl, hci]

/-- The marker is renamed last. -/
theorem staging_info (h : (staging run encoded first disk).2 ≠ .ok) :
    (staging run encoded first disk).1 pcacheInfo = disk pcacheInfo := by
  have hops : stageOps encoded (stages run first) =
      (stageOps encoded (stages run first)).dropLast ++
        [.rename (stages run first).2.2 pcacheInfo] := rfl
  have hdistinct := stages_distinct run first
  rw [staging, hops] at h ⊢
  rw [runOps_append_rename h]
  refine runOps_frame ?_
  simp only [List.nodup_cons, List.mem_cons, List.not_mem_nil, or_false, not_or] at hdistinct
  obtain ⟨⟨-, -, -, -, hai⟩, ⟨-, -, -, hli⟩, ⟨-, -, hii⟩, ⟨-, hAI⟩, hLI, -⟩ := hdistinct
  simp [stageOps, FileOp.names, Ne.symm hai, Ne.symm hli, Ne.symm hii, Ne.symm hAI, Ne.symm hLI]

theorem client_notMem_stagePaths {path : DataPath} (h : path ∈ [pcacheAges, pcacheLru, pcacheInfo]) :
    path ∉ stagePaths run first := by
  have hsplit := stages_distinct run first
  rw [show [(stages run first).1, (stages run first).2.1, (stages run first).2.2, pcacheAges, pcacheLru,
    pcacheInfo] = stagePaths run first ++ [pcacheAges, pcacheLru, pcacheInfo] from rfl,
    List.nodup_append'] at hsplit
  exact fun hstage => hsplit.2.2 hstage h

theorem publishStaged_frame (h : publishStaged run encoded backupDir first disk = (left, result))
    {path : DataPath} (hstage : path ∉ stagePaths run first)
    (hclient : path ∉ [pcacheAges, pcacheLru, pcacheInfo]) : left path = disk path := by
  rcases publishStaged_cases h with ⟨-, rfl, -⟩ | ⟨-, rfl, -⟩ | ⟨-, rfl, -⟩
  · exact staging_frame hstage hclient
  · exact staging_frame hstage hclient
  · rw [removeStages_frame hstage, staging_frame hstage hclient]

/-- The closure succeeds with the whole snapshot in place. -/
theorem storedOn_of_publishStaged {backupDir' : Option Text}
    (h : publishStaged run encoded backupDir first disk = (left, .ok backupDir')) :
    encoded.toSnapshot.StoredOn left := by
  rcases publishStaged_cases h with ⟨hok, rfl, -⟩ | ⟨-, -, hresult⟩ | ⟨-, -, hresult | hresult⟩
  · exact storedOn_of_stageOps (stages_distinct run first) (applyAll_of_runOps_ok hok)
  · cases hresult
  · cases hresult
  · cases hresult

/-- It fails or dies without a marker. -/
theorem info_of_publishStaged (h : publishStaged run encoded backupDir first disk = (left, result))
    (hinfo : disk pcacheInfo = none) (hresult : ∀ backupDir', result ≠ .ok backupDir') :
    left pcacheInfo = none := by
  rcases publishStaged_cases h with ⟨-, -, hok⟩ | ⟨hne, rfl, -⟩ | ⟨hne, rfl, -⟩
  · exact absurd hok (hresult backupDir)
  · rw [staging_info hne, hinfo]
  · rw [removeStages_frame (client_notMem_stagePaths (by simp)), staging_info hne, hinfo]

theorem stages_of_publishStaged {error : ImportError}
    (h : publishStaged run encoded backupDir first disk = (left, .error error))
    (hfaults : ∀ fault ∈ run.cleanupFaults, fault = .none) {path : DataPath}
    (hpath : path ∈ stagePaths run first) : left path = none := by
  rcases publishStaged_cases h with ⟨-, -, hresult⟩ | ⟨-, -, hresult⟩ | ⟨-, rfl, -⟩
  · cases hresult
  · cases hresult
  · exact removeStages_eq_none hfaults hpath

end Staging

/-! ## The whole publication -/

section Publication

variable {bincode : Bincode} {sha1 : Bytes → Sha1Digest} {run : PublishRun}
  {encoder : LegacyCacheState → Option EncodedSnapshot} {state : LegacyCacheState} {replace : Bool}
  {disk left : Disk DataPath} {result : PublishResult}

/-- The data directory can be used. A directory that holds a file is one. -/
def Usable (run : PublishRun) : Prop := run.dataDirIsFile = false ∧ run.createDirFails = false

/-- The moves into the backup directory, under the faults of the run. -/
def backup (run : PublishRun) (disk : Disk DataPath) : Disk DataPath × Outcome :=
  runOps disk run.backupFaults (backupOps (uniqueBackupDir run) (existing disk))

theorem publishWithWriter_eq (sha1 : Bytes → Sha1Digest) (run : PublishRun)
    (encoder : LegacyCacheState → Option EncodedSnapshot) (state : LegacyCacheState) (replace : Bool)
    (disk : Disk DataPath) :
    publishWithWriter sha1 run encoder state replace disk =
      if run.dataDirIsFile then
        (disk, .error (.write ("data directory is not a directory: " ++ run.dataDir)))
      else if run.createDirFails then (disk, .error .io)
      else if existing disk ≠ [] ∧ !replace then (disk, .error .replaceRequired)
      else
        match encoder state with
        | none => (disk, .error .serialize)
        | some encoded =>
          if sha1Hex sha1 encoded.ages ≠ encoded.agesHash ∨ sha1Hex sha1 encoded.lru ≠ encoded.lruHash
          then (disk, .error (.write "staged cache hash did not match generated info"))
          else if existing disk = [] then publishStaged run encoded none run.stagingSequence disk
          else if run.backupDirFails then (disk, .error .io)
          else
            match backup run disk with
            | (moved, .ok) =>
              publishStaged run encoded (some (uniqueBackupDir run)) (run.stagingSequence + 1) moved
            | (moved, .failed) => (moved, .error .io)
            | (moved, .crashed) => (moved, .crashed) :=
  rfl

/-- The publication stops before the first change, in the backup, or behind it. -/
theorem publishWithWriter_cases
    (h : publishWithWriter sha1 run encoder state replace disk = (left, result)) :
    (left = disk ∧ ∃ error, result = .error error ∧
      (Usable run → replace = false → existing disk ≠ [] → error = .replaceRequired)) ∨
    (∃ encoded, encoder state = some encoded ∧ existing disk = [] ∧
      publishStaged run encoded none run.stagingSequence disk = (left, result)) ∨
    (replace = true ∧ (∀ backupDir, result ≠ .ok backupDir) ∧ left = (backup run disk).1) ∨
    ∃ encoded, encoder state = some encoded ∧ replace = true ∧ (backup run disk).2 = .ok ∧
      publishStaged run encoded (some (uniqueBackupDir run)) (run.stagingSequence + 1)
        (backup run disk).1 = (left, result) := by
  rw [publishWithWriter_eq] at h
  by_cases hfile : run.dataDirIsFile = true
  · rw [if_pos hfile] at h
    cases h
    exact .inl ⟨rfl, _, rfl, fun husable => absurd hfile (by simp [husable.1])⟩
  rw [if_neg hfile] at h
  by_cases hdir : run.createDirFails = true
  · rw [if_pos hdir] at h
    cases h
    exact .inl ⟨rfl, _, rfl, fun husable => absurd hdir (by simp [husable.2])⟩
  rw [if_neg hdir] at h
  by_cases hreplace : existing disk ≠ [] ∧ !replace
  · rw [if_pos hreplace] at h
    cases h
    exact .inl ⟨rfl, _, rfl, fun _ _ _ => rfl⟩
  rw [if_neg hreplace] at h
  have hstop : ∀ error, Usable run → replace = false → existing disk ≠ [] →
      error = ImportError.replaceRequired :=
    fun error _ hfalse hne => absurd ⟨hne, by simp [hfalse]⟩ hreplace
  cases hencoder : encoder state with
  | none =>
    simp only [hencoder] at h
    cases h
    exact .inl ⟨rfl, _, rfl, hstop _⟩
  | some encoded =>
    simp only [hencoder] at h
    by_cases hhash : sha1Hex sha1 encoded.ages ≠ encoded.agesHash ∨
        sha1Hex sha1 encoded.lru ≠ encoded.lruHash
    · rw [if_pos hhash] at h
      cases h
      exact .inl ⟨rfl, _, rfl, hstop _⟩
    rw [if_neg hhash] at h
    by_cases hempty : existing disk = []
    · rw [if_pos hempty] at h
      exact .inr (.inl ⟨encoded, rfl, hempty, h⟩)
    rw [if_neg hempty] at h
    by_cases hbackup : run.backupDirFails = true
    · rw [if_pos hbackup] at h
      cases h
      exact .inl ⟨rfl, _, rfl, hstop _⟩
    rw [if_neg hbackup] at h
    have htrue : replace = true := by
      by_contra hfalse
      exact hreplace ⟨hempty, by simpa using hfalse⟩
    refine .inr (.inr ?_)
    generalize backup run disk = moves at h ⊢
    obtain ⟨moved, outcome⟩ := moves
    cases outcome with
    | ok => exact .inr ⟨encoded, rfl, htrue, rfl, h⟩
    | failed =>
      cases h
      exact .inl ⟨htrue, by simp, rfl⟩
    | crashed =>
      cases h
      exact .inl ⟨htrue, by simp, rfl⟩

/-- The client looks at the three artifacts only. -/
theorem tryLoad_congr (h : ∀ name ∈ artifacts, left [name] = disk [name]) :
    tryLoad bincode sha1 left = tryLoad bincode sha1 disk := by
  have hinfo : left pcacheInfo = disk pcacheInfo := h _ (by decide)
  have hages : left pcacheAges = disk pcacheAges := h _ (by decide)
  have hlru : left pcacheLru = disk pcacheLru := h _ (by decide)
  simp only [tryLoad, readObject, hinfo, hages, hlru]

theorem name_of_mem_stagePaths {n : ℕ} {path : DataPath} (h : path ∈ stagePaths run n) :
    ∃ name, path = [name] ∧ name ∉ artifacts := by
  simp only [stagePaths, stages, List.mem_cons, List.not_mem_nil, or_false] at h
  rcases h with rfl | rfl | rfl
  all_goals exact ⟨_, rfl, by simp [artifacts]⟩

/-- A file of the data directory that is not an artifact is not moved. -/
theorem backup_frame {name : Text} (h : name ∉ artifacts) : (backup run disk).1 [name] = disk [name] := by
  refine runOps_frame fun op hop => ?_
  obtain ⟨moved, hmoved, rfl⟩ := List.mem_map.mp hop
  have hne : name ≠ moved := fun heq => h (heq ▸ List.mem_of_mem_filter hmoved)
  simp [FileOp.names, hne]

theorem artifact_kept (h : publishWithWriter sha1 run encoder state replace disk = (left, result))
    {name : Text} (hname : name ∈ artifacts) {data : Bytes} (hdata : disk [name] = some data) :
    left [name] = some data ∨ left [uniqueBackupDir run, name] = some data := by
  have hsome : disk [name] ≠ none := by simp [hdata]
  rcases publishWithWriter_cases h with ⟨rfl, -⟩ | ⟨encoded, -, hempty, -⟩ | ⟨-, -, rfl⟩ |
    ⟨encoded, -, -, hok, hstaged⟩
  · exact .inl hdata
  · exact absurd (existing_eq_nil hempty hname) hsome
  · rcases movedOrKept_backup name with ⟨hleft, -⟩ | ⟨-, hdir, -⟩
    · exact .inl (hleft.trans hdata)
    · exact .inr (hdir.trans hdata)
  · have hmoved := (moved_of_backup hok (mem_existing hname hsome)).2
    have hframe : left [uniqueBackupDir run, name] = (backup run disk).1 [uniqueBackupDir run, name] :=
      publishStaged_frame hstaged (by simp [stagePaths, stages, stagedPath])
        (by simp [pcacheAges, pcacheLru, pcacheInfo])
    exact .inr (hframe.trans (hmoved.trans hdata))

/-- Until the marker is renamed the artifacts are as before or there is no marker. -/
theorem info_of_unpublished (h : publishWithWriter sha1 run encoder state replace disk = (left, result))
    (hresult : ∀ backupDir, result ≠ .ok backupDir) :
    (∀ name ∈ artifacts, left [name] = disk [name]) ∨ left pcacheInfo = none := by
  rcases publishWithWriter_cases h with ⟨rfl, -⟩ | ⟨encoded, -, hempty, hstaged⟩ | ⟨-, -, rfl⟩ |
    ⟨encoded, -, -, hok, hstaged⟩
  · exact .inl fun _ _ => rfl
  · exact .inr (info_of_publishStaged hstaged (existing_eq_nil hempty (by decide)) hresult)
  · rcases info_of_backup with hsame | hnone
    · exact .inl fun name _ => congrFun hsame [name]
    · exact .inr hnone
  · exact .inr (info_of_publishStaged hstaged (info_of_completed_backup hok) hresult)

/-- A staging name of any publication of the process is cleaned up or was not touched. -/
theorem stage_cleaned {first n : ℕ} {backupDir : Option Text} {encoded : EncodedSnapshot}
    {error : ImportError}
    (h : publishStaged run encoded backupDir first disk = (left, .error error))
    (hfaults : ∀ fault ∈ run.cleanupFaults, fault = .none) {path : DataPath}
    (hpath : path ∈ stagePaths run n) : left path = none ∨ left path = disk path := by
  by_cases hfirst : path ∈ stagePaths run first
  · exact .inl (stages_of_publishStaged h hfaults hfirst)
  · exact .inr (publishStaged_frame h hfirst fun hclient => client_notMem_stagePaths hclient hpath)

theorem unstaged {error : ImportError}
    (h : publishWithWriter sha1 run encoder state replace disk = (left, .error error))
    (hfaults : ∀ fault ∈ run.cleanupFaults, fault = .none) {n : ℕ} {path : DataPath}
    (hpath : path ∈ stagePaths run n) : left path = none ∨ left path = disk path := by
  obtain ⟨name, rfl, hname⟩ := name_of_mem_stagePaths hpath
  have hbackup : (backup run disk).1 [name] = disk [name] := backup_frame hname
  rcases publishWithWriter_cases h with ⟨rfl, -⟩ | ⟨encoded, -, -, hstaged⟩ | ⟨-, -, rfl⟩ |
    ⟨encoded, -, -, -, hstaged⟩
  · exact .inr rfl
  · exact stage_cleaned hstaged hfaults hpath
  · exact .inr hbackup
  · rw [← hbackup]
    exact stage_cleaned hstaged hfaults hpath

/-- What a publication promises about the disk it leaves, whether it returned or died. -/
structure Atomic (bincode : Bincode) (sha1 : Bytes → Sha1Digest) (run : PublishRun)
    (encoder : LegacyCacheState → Option EncodedSnapshot) (state : LegacyCacheState) (replace : Bool)
    (disk left : Disk DataPath) (result : PublishResult) : Prop where
  kept : ∀ name ∈ artifacts, ∀ data, disk [name] = some data →
    left [name] = some data ∨ left [uniqueBackupDir run, name] = some data
  guarded : replace = false → (∃ name ∈ artifacts, disk [name] ≠ none) →
    left = disk ∧ (Usable run → result = .error .replaceRequired)
  unpublished : (∀ backupDir, result ≠ .ok backupDir) →
    ((∀ name ∈ artifacts, left [name] = disk [name]) ∧
      tryLoad bincode sha1 left = tryLoad bincode sha1 disk) ∨
    tryLoad bincode sha1 left = none
  published : ∀ backupDir, result = .ok backupDir →
    ∃ encoded, encoder state = some encoded ∧ encoded.toSnapshot.StoredOn left
  unstaged : ∀ error, result = .error error → (∀ fault ∈ run.cleanupFaults, fault = .none) →
    ∀ n, ∀ path ∈ stagePaths run n, left path = none ∨ left path = disk path

/-- Wherever a publication fails or dies, no file is lost, the client sees the old snapshot or
none until the marker is renamed, and then it sees the new one. -/
theorem publish_atomic (bincode : Bincode) (sha1 : Bytes → Sha1Digest) (run : PublishRun)
    (encoder : LegacyCacheState → Option EncodedSnapshot) (state : LegacyCacheState) (replace : Bool)
    (disk : Disk DataPath) :
    Atomic bincode sha1 run encoder state replace disk
      (publishWithWriter sha1 run encoder state replace disk).1
      (publishWithWriter sha1 run encoder state replace disk).2 := by
  generalize h : publishWithWriter sha1 run encoder state replace disk = outcome
  obtain ⟨left, result⟩ := outcome
  refine ⟨fun name hname data hdata => artifact_kept h hname hdata, ?_, fun hresult => ?_, ?_, ?_⟩
  · rintro hreplace ⟨name, hname, hsome⟩
    have hne : existing disk ≠ [] := List.ne_nil_of_mem (mem_existing hname hsome)
    rcases publishWithWriter_cases h with ⟨rfl, error, rfl, hstop⟩ | ⟨-, -, hempty, -⟩ |
      ⟨htrue, -⟩ | ⟨-, -, htrue, -⟩
    · exact ⟨rfl, fun husable => by rw [hstop husable hreplace hne]⟩
    · exact absurd hempty hne
    · simp [hreplace] at htrue
    · simp [hreplace] at htrue
  · rcases info_of_unpublished h hresult with hsame | hnone
    · exact .inl ⟨hsame, tryLoad_congr hsame⟩
    · exact .inr (tryLoad_of_info_eq_none bincode sha1 hnone)
  · rintro backupDir rfl
    rcases publishWithWriter_cases h with ⟨-, error, hresult, -⟩ | ⟨encoded, hencoder, -, hstaged⟩ |
      ⟨-, hresult, -⟩ | ⟨encoded, hencoder, -, -, hstaged⟩
    · cases hresult
    · exact ⟨encoded, hencoder, storedOn_of_publishStaged hstaged⟩
    · exact absurd rfl (hresult backupDir)
    · exact ⟨encoded, hencoder, storedOn_of_publishStaged hstaged⟩
  · rintro error rfl hfaults n path hpath
    exact unstaged h hfaults hpath

/-- The table cannot be moved, so the publication fails with the marker in the backup. -/
example :
    let zeros : Bytes → Sha1Digest := fun _ => Vector.replicate 20 0
    let old : Disk DataPath := fun path =>
      if path = pcacheInfo then some [1] else if path = pcacheLru then some [2] else none
    let left := (publishWithWriter zeros { plainRun with backupFaults := [.none, .error none] }
      (fun _ => some ⟨[], [], [], sha1Hex zeros [], sha1Hex zeros []⟩) fullState true old).1
    left pcacheInfo = none ∧ left pcacheLru = some [2] ∧
      left ["pcache-java-backup-0-1-0".toList, "pcache_info".toList] = some [1] := by
  decide +kernel

end Publication

end HathRs.MigrationTransaction
