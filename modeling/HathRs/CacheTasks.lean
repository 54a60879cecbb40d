import HathRs.CacheHandler
import HathRs.TransitionRuns

/-!
# The tasks that change the cache directory

Downloads that are moved into the cache, deletions by file id and the passes of the pruner
run side by side. What each of them does to the directory and what it then does to the
handler are separate atomic steps, and other tasks can run between any two of them. Only
the regular files below the cache directory are modelled, by their paths.
-/

namespace HathRs.CacheTasks
open TextParsing HashMaps FileIds MachineArithmetic TransitionRuns

/-- The components of a path below the cache directory. -/
abbrev Path := List Text

/-- `file_name()`, or the empty text. -/
def fileName (path : Path) : Text := path.getLastD []

/-- `registered` keeps track of the files that were on the disk when their registration
ended, or that the handler knew from the start, until they are unlinked. -/
structure World where
  files : Finset Path
  registered : Finset Path
  cache : CacheHandler
  registered_subset : registered ⊆ files

namespace World

/-- A rename onto a path, or a copy that has opened its target. -/
def land (w : World) (path : Path) : World :=
  { w with
    files := insert path w.files
    registered_subset := w.registered_subset.trans (Finset.subset_insert path w.files) }

def unlink (w : World) (path : Path) : World :=
  { w with
    files := w.files.erase path
    registered := w.registered.erase path
    registered_subset := Finset.erase_subset_erase path w.registered_subset }

/-- The end of the registration of a file with this path. -/
def register (w : World) (path : Path) : World :=
  { w with
    registered := if path ∈ w.files then insert path w.registered else w.registered
    registered_subset := by
      split_ifs with h
      · exact Finset.insert_subset h w.registered_subset
      · exact w.registered_subset }

end World

/-- `utils::list_sorted_files`, without the directories, which the pruner skips. -/
def listSortedFiles (files : Finset Path) (dir : Path) : List Path :=
  (files.filter fun path => path ≠ [] ∧ path.dropLast = dir).sort

/-- The variables of `execute_prune`, with the files it has not visited yet. -/
structure PrunePass where
  plan : PrunePlan
  remaining : List Path
  fileCount : ℕ
  validFilesDeleted : ℕ
  oldestLastModified : UInt64

namespace PrunePass

def begin (plan : PrunePlan) (files : List Path) : PrunePass :=
  ⟨plan, files, 0, 0, UInt64.ofNat (2 ^ 64 - 1)⟩

/-- The pass reports the current time when it has kept no file. -/
def result (pass : PrunePass) (now : UInt64) : PruneResult where
  staticRange := pass.plan.staticRange
  rangeDir := pass.plan.rangeDir
  fileCount := pass.fileCount - pass.validFilesDeleted
  oldestLastModified :=
    if pass.oldestLastModified = UInt64.ofNat (2 ^ 64 - 1) then now else pass.oldestLastModified

end PrunePass

/-- Where a task stands. -/
inductive Task where
  /-- A finalization before its rename. -/
  | rename (hv : HVFile)
  /-- Before the copy that replaces a failed rename. -/
  | copy (hv : HVFile)
  /-- The copy has created or truncated its target. -/
  | copying (hv : HVFile)
  /-- The file is in place, and `register_proxy_file` follows. -/
  | moved (hv : HVFile)
  | markLru (hv : HVFile)
  | addRange (hv : HVFile)
  /-- `delete_file_from_cache` before `path.exists()`. -/
  | checkExists (hv : HVFile)
  | unlink (hv : HVFile)
  | unlinked (hv : HVFile)
  /-- A pass of the pruner before it lists the directory. -/
  | list (plan : PrunePlan)
  | visit (pass : PrunePass)
  /-- The file at hand is older than the cutoff. -/
  | prune (pass : PrunePass) (file : Path)
  | recordPruned (pass : PrunePass) (hv : HVFile)
  | applyResult (result : PruneResult)

/-- What a task meets at its next step. -/
inductive Act where
  /-- The operation at hand succeeds. -/
  | done
  | failed
  /-- The transfer task is aborted, or the pruner sees the shutdown. -/
  | cancelled
  /-- `try_lock` on the LRU table. -/
  | lock (free : Bool)
  /-- A time that is read, in milliseconds. -/
  | clock (millis : UInt64)

inductive Request where
  | finalize (fileid : Text)
  | delete (fileid : Text)
  | prune (build : Build) (config : Config) (now : UInt64) (order : IterationOrder Text UInt64)

def Task.isPruner : Task → Bool
  | .list _ => true
  | .visit _ => true
  | .prune _ _ => true
  | .recordPruned _ _ => true
  | .applyResult _ => true
  | _ => false

/-- There is one pruner, whose next pass begins with its decision. -/
def start (w : World) (tasks : List Task) : Request → Option Task
  | .finalize fileid => (fromFileid fileid).map .rename
  | .delete fileid => (fromFileid fileid).map .checkExists
  | .prune build config now order =>
    if tasks.any Task.isPruner then none
    else
      match w.cache.checkPruneAction build config now (order.iterate w.cache.staticRangeOldest) with
      | .ok (.prune plan) => some (.list plan)
      | _ => none

/-- `move_temp_to_cache` and `register_proxy_file`. The first two awaits and the one behind
the copy can be cancelled; the registration cannot. -/
def advanceFinalize (w : World) : Task → Act → Option (World × Option Task)
  | .rename hv, .done => some (w.land hv.cachePath, some (.moved hv))
  | .rename hv, .failed => some (w, some (.copy hv))
  | .rename _, .cancelled => some (w, none)
  | .copy hv, .done => some (w.land hv.cachePath, some (.copying hv))
  | .copy _, .failed => some (w, none)
  | .copy _, .cancelled => some (w, none)
  | .copying hv, .done => some (w, some (.moved hv))
  | .copying _, .failed => some (w, none)
  | .copying _, .cancelled => some (w, none)
  | .moved hv, .done => some ({ w with cache := w.cache.accountFileAdded hv }, some (.markLru hv))
  | .moved _, .cancelled => some (w, none)
  | .markLru hv, .lock free =>
    match w.cache.markProxyFile hv free with
    | .ok cache => some ({ w with cache := cache }, some (.addRange hv))
    | .error _ => some (w, none)
  | .addRange hv, .clock now =>
    some ({ w.register hv.cachePath with cache := w.cache.addStaticRange hv now }, none)
  | _, _ => none

/-- `delete_file_from_cache` -/
def advanceDelete (w : World) : Task → Act → Option (World × Option Task)
  | .checkExists hv, .done =>
    some (w, if hv.cachePath ∈ w.files then some (.unlink hv) else none)
  | .unlink hv, .done =>
    if hv.cachePath ∈ w.files then some (w.unlink hv.cachePath, some (.unlinked hv))
    else some (w, none)
  | .unlink _, .failed => some (w, none)
  | .unlinked hv, .done => some ({ w with cache := w.cache.accountFileRemoved hv }, none)
  | _, _ => none

/-- One turn of the loop over the listed files up to the unlink. -/
def visitFile (w : World) (pass : PrunePass) (file : Path) (rest : List Path) (lastModified : UInt64) :
    Task :=
  let pass := { pass with remaining := rest }
  if file ∈ w.files then
    let pass := { pass with fileCount := pass.fileCount + 1 }
    if lastModified < pass.plan.cutoff then .prune pass file
    else .visit { pass with oldestLastModified := min pass.oldestLastModified lastModified }
  else .visit pass

/-- `execute_prune` and `apply_prune_result`. The directory that the latter removes is empty,
or the removal fails, and its error is ignored. -/
def advancePruner (w : World) : Task → Act → Option (World × Option Task)
  | .list plan, .done =>
    some (w, some (.visit (.begin plan (listSortedFiles w.files plan.rangeDir))))
  | .list plan, .failed => some (w, some (.visit (.begin plan [])))
  | .visit pass, .clock millis =>
    match pass.remaining with
    | [] => some (w, some (.applyResult (pass.result millis)))
    | file :: rest => some (w, some (visitFile w pass file rest millis))
  | .visit _, .cancelled => some (w, none)
  | .prune pass file, .done =>
    if file ∈ w.files then
      match fromFileid (fileName file) with
      | some hv =>
        some (w.unlink file, some (.recordPruned
          { pass with validFilesDeleted := pass.validFilesDeleted + 1 } hv))
      | none => some (w.unlink file, some (.visit pass))
    else some (w, some (.visit pass))
  | .prune pass _, .failed => some (w, some (.visit pass))
  | .recordPruned pass hv, .done =>
    some ({ w with cache := w.cache.accountFileRemoved hv }, some (.visit pass))
  | .applyResult result, .done => some ({ w with cache := w.cache.applyPruneResult result }, none)
  | .applyResult _, .cancelled => some (w, none)
  | _, _ => none

def advance (w : World) (task : Task) (act : Act) : Option (World × Option Task) :=
  match task with
  | .rename _ | .copy _ | .copying _ | .moved _ | .markLru _ | .addRange _ =>
    advanceFinalize w task act
  | .checkExists _ | .unlink _ | .unlinked _ => advanceDelete w task act
  | .list _ | .visit _ | .prune _ _ | .recordPruned _ _ | .applyResult _ => advancePruner w task act

abbrev System := Pool World Task

abbrev Event := PoolEvent Request Act

/-- One atomic step of the cache's tasks. -/
def step : System → Event → Option System := Pool.step start advance

/-! ## What a step can do -/

namespace Task

/-- The file that a finalization or a deletion is about. -/
def file : Task → Option HVFile
  | .rename hv | .copy hv | .copying hv | .moved hv | .markLru hv | .addRange hv => some hv
  | .checkExists hv | .unlink hv | .unlinked hv => some hv
  | .list _ | .visit _ | .prune _ _ | .recordPruned _ _ | .applyResult _ => none

/-- The file that is in place and not accounted for yet. -/
def landed : Task → Option HVFile
  | .copying hv | .moved hv => some hv
  | _ => none

/-- The file that is unlinked and still accounted for. -/
def removed : Task → Option HVFile
  | .unlinked hv | .recordPruned _ hv => some hv
  | _ => none

end Task

/-- The steps of all tasks, with those that change neither the world nor what is landed or
removed under one rule. -/
inductive Advances : World → Task → Act → World → Option Task → Prop where
  | rename (w : World) (hv : HVFile) :
    Advances w (.rename hv) .done (w.land hv.cachePath) (some (.moved hv))
  | copy (w : World) (hv : HVFile) :
    Advances w (.copy hv) .done (w.land hv.cachePath) (some (.copying hv))
  | copied (w : World) (hv : HVFile) : Advances w (.copying hv) .done w (some (.moved hv))
  | leave (w : World) {task : Task} {act : Act} (hv : HVFile) (hlanded : task.landed = some hv)
    (hact : act ≠ .done) : Advances w task act w none
  | account (w : World) (hv : HVFile) :
    Advances w (.moved hv) .done { w with cache := w.cache.accountFileAdded hv } (some (.markLru hv))
  | mark (w : World) (hv : HVFile) {free : Bool} {cache : CacheHandler}
    (h : w.cache.markProxyFile hv free = .ok cache) :
    Advances w (.markLru hv) (.lock free) { w with cache := cache } (some (.addRange hv))
  | addRange (w : World) (hv : HVFile) (now : UInt64) :
    Advances w (.addRange hv) (.clock now)
      { w.register hv.cachePath with cache := w.cache.addStaticRange hv now } none
  | unlink (w : World) (hv : HVFile) (h : hv.cachePath ∈ w.files) :
    Advances w (.unlink hv) .done (w.unlink hv.cachePath) (some (.unlinked hv))
  | pruneValid (w : World) (pass : PrunePass) (file : Path) (hv : HVFile) (h : file ∈ w.files)
    (hname : fromFileid (fileName file) = some hv) :
    Advances w (.prune pass file) .done (w.unlink file) (some (.recordPruned
      { pass with validFilesDeleted := pass.validFilesDeleted + 1 } hv))
  | pruneInvalid (w : World) (pass : PrunePass) (file : Path) (h : file ∈ w.files)
    (hname : fromFileid (fileName file) = none) :
    Advances w (.prune pass file) .done (w.unlink file) (some (.visit pass))
  | accountRemoved (w : World) {task : Task} (hv : HVFile) (next : Option Task)
    (hremoved : task.removed = some hv)
    (hnext : ∀ t ∈ next, t.file = none ∧ t.landed = none ∧ t.removed = none) :
    Advances w task .done { w with cache := w.cache.accountFileRemoved hv } next
  | applyResult (w : World) (result : PruneResult) :
    Advances w (.applyResult result) .done { w with cache := w.cache.applyPruneResult result } none
  | idle (w : World) {task : Task} {act : Act} {next : Option Task}
    (htask : task.landed = none ∧ task.removed = none)
    (hnext : ∀ t ∈ next, t.landed = none ∧ t.removed = none ∧
      ∀ hv, t.file = some hv → task.file = some hv) : Advances w task act w next

private theorem visitFile_idle (w : World) (pass : PrunePass) (file : Path) (rest : List Path)
    (lastModified : UInt64) :
    (visitFile w pass file rest lastModified).landed = none ∧
      (visitFile w pass file rest lastModified).removed = none ∧
      (visitFile w pass file rest lastModified).file = none := by
  simp only [visitFile]
  split_ifs <;> exact ⟨rfl, rfl, rfl⟩

theorem advances_of_finalize {w w' : World} {task : Task} {act : Act} {next : Option Task}
    (h : advanceFinalize w task act = some (w', next)) : Advances w task act w' next := by
  have hleave : ∀ {task : Task} {act : Act}, task.landed = none ∧ task.removed = none →
      Advances w task act w none := fun htask => .idle w htask (by simp)
  cases task <;> cases act <;>
    simp only [advanceFinalize, Option.some.injEq, Prod.mk.injEq, reduceCtorEq] at h
  case markLru.lock hv free =>
    split at h
    · obtain ⟨rfl, rfl⟩ : _ = w' ∧ _ = next := by simpa using h
      exact .mark w hv ‹_›
    · obtain ⟨rfl, rfl⟩ : w = w' ∧ none = next := by simpa using h
      exact hleave ⟨rfl, rfl⟩
  all_goals obtain ⟨rfl, rfl⟩ := h
  case rename.done hv => exact .rename w hv
  case rename.failed hv => exact .idle w ⟨rfl, rfl⟩ (by simp [Task.landed, Task.removed, Task.file])
  case rename.cancelled hv => exact hleave ⟨rfl, rfl⟩
  case copy.done hv => exact .copy w hv
  case copy.failed hv => exact hleave ⟨rfl, rfl⟩
  case copy.cancelled hv => exact hleave ⟨rfl, rfl⟩
  case copying.done hv => exact .copied w hv
  case copying.failed hv => exact .leave w hv rfl (by simp)
  case copying.cancelled hv => exact .leave w hv rfl (by simp)
  case moved.done hv => exact .account w hv
  case moved.cancelled hv => exact .leave w hv rfl (by simp)
  case addRange.clock hv now => exact .addRange w hv now

theorem advances_of_delete {w w' : World} {task : Task} {act : Act} {next : Option Task}
    (h : advanceDelete w task act = some (w', next)) : Advances w task act w' next := by
  cases task <;> cases act <;>
    simp only [advanceDelete, Option.some.injEq, Prod.mk.injEq, reduceCtorEq] at h
  case checkExists.done hv =>
    obtain ⟨rfl, rfl⟩ := h
    refine .idle w ⟨rfl, rfl⟩ fun t ht => ?_
    split_ifs at ht
    · obtain rfl := Option.some.inj ht
      exact ⟨rfl, rfl, fun _ hhv => hhv⟩
    · cases ht
  case unlink.done hv =>
    split_ifs at h with hmem
    · obtain ⟨rfl, rfl⟩ : _ = w' ∧ _ = next := by simpa using h
      exact .unlink w hv hmem
    · obtain ⟨rfl, rfl⟩ : w = w' ∧ none = next := by simpa using h
      exact .idle w ⟨rfl, rfl⟩ (by simp)
  case unlink.failed hv =>
    obtain ⟨rfl, rfl⟩ := h
    exact .idle w ⟨rfl, rfl⟩ (by simp)
  case unlinked.done hv =>
    obtain ⟨rfl, rfl⟩ := h
    exact .accountRemoved w hv none rfl (by simp)

theorem advances_of_pruner {w w' : World} {task : Task} {act : Act} {next : Option Task}
    (h : advancePruner w task act = some (w', next)) : Advances w task act w' next := by
  -- The pruner goes on without a debt and without a file of its own.
  have hidle : ∀ {task t : Task} {act : Act}, task.landed = none ∧ task.removed = none →
      t.landed = none ∧ t.removed = none ∧ t.file = none → Advances w task act w (some t) := by
    rintro task t act htask ⟨hlanded, hremoved, hfile⟩
    refine .idle w htask fun t' ht => ?_
    obtain rfl := Option.some.inj ht
    exact ⟨hlanded, hremoved, by simp [hfile]⟩
  cases task <;> cases act <;>
    simp only [advancePruner, Option.some.injEq, Prod.mk.injEq, reduceCtorEq] at h
  case visit.clock pass millis =>
    split at h
    · obtain ⟨rfl, rfl⟩ : w = w' ∧ _ = next := by simpa using h
      exact hidle ⟨rfl, rfl⟩ ⟨rfl, rfl, rfl⟩
    · obtain ⟨rfl, rfl⟩ : w = w' ∧ _ = next := by simpa using h
      exact hidle ⟨rfl, rfl⟩ (visitFile_idle ..)
  case prune.done pass file =>
    split_ifs at h with hmem
    · split at h
      · obtain ⟨rfl, rfl⟩ : _ = w' ∧ _ = next := by simpa using h
        exact .pruneValid w pass file _ hmem ‹_›
      · obtain ⟨rfl, rfl⟩ : _ = w' ∧ _ = next := by simpa using h
        exact .pruneInvalid w pass file hmem ‹_›
    · obtain ⟨rfl, rfl⟩ : w = w' ∧ _ = next := by simpa using h
      exact hidle ⟨rfl, rfl⟩ ⟨rfl, rfl, rfl⟩
  all_goals obtain ⟨rfl, rfl⟩ := h
  case list.done plan => exact hidle ⟨rfl, rfl⟩ ⟨rfl, rfl, rfl⟩
  case list.failed plan => exact hidle ⟨rfl, rfl⟩ ⟨rfl, rfl, rfl⟩
  case visit.cancelled pass => exact .idle w ⟨rfl, rfl⟩ (by simp)
  case prune.failed pass file => exact hidle ⟨rfl, rfl⟩ ⟨rfl, rfl, rfl⟩
  case recordPruned.done pass hv =>
    exact .accountRemoved w hv (some (.visit pass)) rfl
      (by simp [Task.file, Task.landed, Task.removed])
  case applyResult.done result => exact .applyResult w result
  case applyResult.cancelled result => exact .idle w ⟨rfl, rfl⟩ (by simp)

theorem advances_of_advance {w w' : World} {task : Task} {act : Act} {next : Option Task}
    (h : advance w task act = some (w', next)) : Advances w task act w' next := by
  cases task with
  | rename | copy | copying | moved | markLru | addRange => exact advances_of_finalize h
  | checkExists | unlink | unlinked => exact advances_of_delete h
  | list | visit | prune | recordPruned | applyResult => exact advances_of_pruner h

/-! ## A finalization without interruption -/

/-- The events of a finalization that is the last of `index + 1` tasks. -/
def finalizeEvents (index : ℕ) (fileid : Text) (now : UInt64) : List Event :=
  [.start (.finalize fileid), .advance index .done, .advance index .done,
    .advance index (.lock false), .advance index (.clock now)]

def World.finalized (w : World) (hv : HVFile) (now : UInt64) : World where
  files := insert hv.cachePath w.files
  registered := insert hv.cachePath w.registered
  cache := (w.cache.accountFileAdded hv).addStaticRange hv now
  registered_subset := Finset.insert_subset_insert hv.cachePath w.registered_subset

theorem run_finalizeEvents (w : World) (tasks : List Task) {index : ℕ} (hindex : tasks.length = index)
    {fileid : Text} {hv : HVFile} (h : fromFileid fileid = some hv) (now : UInt64) :
    run step ⟨w, tasks⟩ (finalizeEvents index fileid now) = some ⟨w.finalized hv now, tasks⟩ := by
  subst hindex
  simp [finalizeEvents, run, step, Pool.step, start, h, advance, advanceFinalize, World.land,
    World.register, CacheHandler.markProxyFile, World.finalized]

end HathRs.CacheTasks
