import HathRs.CacheTasks

/-!
# Whether every cached range can be pruned

The pruner finds a range through its entry in `static_range_oldest`. A registration adds
the entry and a pass that has counted no remaining file removes it. The pass counts the
files that its listing has given it, so a file that is registered between the listing and
the removal, or one that a failed listing leaves out, loses the entry of its range. In a
run with neither, a pass that counts no file has met every registered file of its range.
-/

namespace HathRs.RangeEntries
open TextParsing HashMaps FileIds MachineArithmetic CacheTasks TransitionRuns

/-- Every static range with a registered cached file has an entry. -/
def Prunable (w : World) : Prop :=
  ∀ hv : HVFile, hv.cachePath ∈ w.registered → hv.staticRange ∈ w.cache.staticRangeOldest

/-- The range of a pass that has listed its directory and is not over. -/
def prunedRange : Task → Option Text
  | .visit pass | .prune pass _ | .recordPruned pass _ => some pass.plan.staticRange
  | .applyResult result => some result.staticRange
  | _ => none

/-- No listing fails, and no registration in a range ends between the listing of a pass over
the range and the end of the pass. -/
def QuietPass (p : System) : Event → Prop
  | .advance index .failed => ∀ plan, p.tasks[index]? ≠ some (.list plan)
  | .advance index (.clock _) => ∀ hv, p.tasks[index]? = some (.addRange hv) →
    ∀ task ∈ p.tasks, prunedRange task ≠ some hv.staticRange
  | _ => True

/-! ## The entries -/

/-- Only what is registered and which ranges have an entry matters. -/
theorem Prunable.mono {w w' : World} (h : Prunable w) (hfiles : w'.registered ⊆ w.registered)
    (hranges : w'.cache.staticRangeOldest = w.cache.staticRangeOldest) : Prunable w' :=
  fun hv hmem => hranges ▸ h hv (hfiles hmem)

theorem accountFileAdded_ranges (cache : CacheHandler) (hv : HVFile) :
    (cache.accountFileAdded hv).staticRangeOldest = cache.staticRangeOldest := by
  simp only [CacheHandler.accountFileAdded]
  split_ifs <;> rfl

theorem accountFileRemoved_ranges (cache : CacheHandler) (hv : HVFile) :
    (cache.accountFileRemoved hv).staticRangeOldest = cache.staticRangeOldest := by
  simp only [CacheHandler.accountFileRemoved]
  split_ifs <;> rfl

theorem mem_addStaticRange (cache : CacheHandler) (hv : HVFile) (now : UInt64) (range : Text) :
    range ∈ (cache.addStaticRange hv now).staticRangeOldest ↔
      range = hv.staticRange ∨ range ∈ cache.staticRangeOldest := by
  simp only [CacheHandler.addStaticRange]
  split_ifs with h
  · exact ⟨.inr, fun hr => hr.elim (fun heq => heq ▸ h) id⟩
  · exact Finmap.mem_insert

theorem mem_register {w : World} {path path' : Path} (h : path ∈ (w.register path').registered) :
    path = path' ∨ path ∈ w.registered := by
  simp only [World.register] at h
  split_ifs at h
  · exact Finset.mem_insert.mp h
  · exact .inr h

theorem prunable_addRange {w : World} (h : Prunable w) (hv : HVFile) (now : UInt64) :
    Prunable { w.register hv.cachePath with cache := w.cache.addStaticRange hv now } := by
  intro hv' hmem
  rw [mem_addStaticRange]
  rcases mem_register hmem with heq | hmem
  · exact .inl (HVFile.staticRange_of_cachePath_eq heq)
  · exact .inr (h hv' hmem)

/-! ## What a pass knows -/

/-- Every registered file of the range is one of these. -/
def RegisteredIn (w : World) (range : Text) (files : List Path) : Prop :=
  ∀ hv : HVFile, hv.cachePath ∈ w.registered → hv.staticRange = range → hv.cachePath ∈ files

/-- While a pass has kept no file it has all registered files of its range ahead of it. -/
def Knows (w : World) : Task → Prop
  | .list plan => ∀ hv : HVFile, hv.staticRange = plan.staticRange →
    hv.cachePath.dropLast = plan.rangeDir
  | .visit pass | .recordPruned pass _ => pass.validFilesDeleted ≤ pass.fileCount ∧
    (pass.fileCount = pass.validFilesDeleted →
      RegisteredIn w pass.plan.staticRange pass.remaining)
  | .prune pass file => pass.validFilesDeleted < pass.fileCount ∧
    (pass.fileCount = pass.validFilesDeleted + 1 →
      RegisteredIn w pass.plan.staticRange (file :: pass.remaining))
  | .applyResult result => result.fileCount = 0 → RegisteredIn w result.staticRange []
  | _ => True

/-- Only a registration in the range of the pass takes away what it knows. -/
theorem Knows.mono {w w' : World} {task : Task} (h : Knows w task)
    (hsub : ∀ hv : HVFile, hv.cachePath ∈ w'.registered → prunedRange task = some hv.staticRange →
      hv.cachePath ∈ w.registered) : Knows w' task := by
  have hfiles : ∀ range files, prunedRange task = some range → RegisteredIn w range files →
      RegisteredIn w' range files := by
    intro range files htask hknown hv hmem hrange
    exact hknown hv (hsub hv hmem (hrange ▸ htask)) hrange
  cases task with
  | visit pass | recordPruned pass => exact ⟨h.1, fun hnone => hfiles _ _ rfl (h.2 hnone)⟩
  | prune pass file => exact ⟨h.1, fun hnone => hfiles _ _ rfl (h.2 hnone)⟩
  | applyResult result => exact fun hnone => hfiles _ _ rfl (h hnone)
  | _ => exact h

theorem knows_start {w : World} {tasks : List Task} {request : Request} {task : Task}
    (h : start w tasks request = some task) : Knows w task := by
  cases request with
  | finalize fileid | delete fileid =>
    obtain ⟨hv, -, rfl⟩ := Option.map_eq_some_iff.mp h
    trivial
  | prune build config now order =>
    simp only [start] at h
    split_ifs at h
    split at h
    · obtain rfl := Option.some.inj h
      exact fun hv => CacheHandler.rangeDir_of_checkPruneAction ‹_›
    · cases h

/-- The listing gives the pass all files of the range that are in the cache. -/
theorem knows_begin {w : World} {plan : PrunePlan} (h : Knows w (.list plan)) :
    Knows w (.visit (.begin plan (listSortedFiles w.files plan.rangeDir))) := by
  refine ⟨Nat.le_refl 0, fun _ hv hmem hrange => ?_⟩
  rw [PrunePass.begin, listSortedFiles, Finset.mem_sort, Finset.mem_filter]
  exact ⟨w.registered_subset hmem, List.cons_ne_nil _ _, h hv hrange⟩

theorem knows_visitFile {w : World} {pass : PrunePass} {file : Path} {rest : List Path}
    (h : Knows w (.visit pass)) (hremaining : pass.remaining = file :: rest) (lastModified : UInt64) :
    Knows w (visitFile w pass file rest lastModified) := by
  obtain ⟨hle, hahead⟩ := h
  rw [hremaining] at hahead
  simp only [visitFile]
  split_ifs with hfile
  · exact ⟨Nat.lt_succ_of_le hle, fun hnone => hahead (Nat.succ.inj hnone)⟩
  · exact ⟨Nat.le_succ_of_le hle, fun hnone => absurd hnone (by simp only; omega)⟩
  · -- A file that is gone is not registered either.
    refine ⟨hle, fun hnone hv hmem hrange => ?_⟩
    rcases List.mem_cons.mp (hahead hnone hv hmem hrange) with rfl | hrest
    · exact absurd (w.registered_subset hmem) hfile
    · exact hrest

/-- The file is unlinked and taken back from the count. -/
theorem knows_unlink {w : World} {pass : PrunePass} {file : Path} (h : Knows w (.prune pass file))
    (hv : HVFile) : Knows (w.unlink file)
      (.recordPruned { pass with validFilesDeleted := pass.validFilesDeleted + 1 } hv) := by
  refine ⟨h.1, fun hnone hv' hmem hrange => ?_⟩
  obtain ⟨hne, hmem⟩ := Finset.mem_erase.mp hmem
  exact (List.mem_cons.mp (h.2 hnone hv' hmem hrange)).resolve_left hne

/-- The file stays in the count. -/
theorem knows_keep {w w' : World} {pass : PrunePass} {file : Path} (h : Knows w (.prune pass file)) :
    Knows w' (.visit pass) :=
  ⟨Nat.le_of_lt h.1, fun hnone => absurd hnone (Nat.ne_of_gt h.1)⟩

theorem knows_result {w : World} {pass : PrunePass} (h : Knows w (.visit pass))
    (hremaining : pass.remaining = []) (now : UInt64) : Knows w (.applyResult (pass.result now)) := by
  intro hcount
  rw [← hremaining]
  exact h.2 (Nat.le_antisymm (Nat.sub_eq_zero_iff_le.mp hcount) h.1)

/-- A step of the pruner hands on what its task knows, unless it is a listing that fails. -/
theorem knows_advancePruner {w w' : World} {task next : Task} {act : Act} (h : Knows w task)
    (hlist : act = .failed → ∀ plan, task ≠ .list plan)
    (hadvance : advancePruner w task act = some (w', some next)) : Knows w' next := by
  cases task <;> cases act <;>
    simp only [advancePruner, Option.some.injEq, Prod.mk.injEq, reduceCtorEq, and_false] at hadvance
  case visit.clock pass millis =>
    split at hadvance
    · obtain ⟨rfl, rfl⟩ : w = w' ∧ _ = next := by simpa using hadvance
      exact knows_result h ‹_› millis
    · obtain ⟨rfl, rfl⟩ : w = w' ∧ _ = next := by simpa using hadvance
      exact knows_visitFile h ‹_› millis
  case prune.done pass file =>
    split_ifs at hadvance
    · split at hadvance
      · obtain ⟨rfl, rfl⟩ : _ = w' ∧ _ = next := by simpa using hadvance
        exact knows_unlink h _
      · obtain ⟨rfl, rfl⟩ : _ = w' ∧ _ = next := by simpa using hadvance
        exact knows_keep h
    · obtain ⟨rfl, rfl⟩ : w = w' ∧ _ = next := by simpa using hadvance
      exact knows_keep h
  all_goals obtain ⟨rfl, rfl⟩ := hadvance
  case list.done plan => exact knows_begin h
  case list.failed plan => exact absurd rfl (hlist rfl plan)
  case prune.failed pass file => exact knows_keep h
  case recordPruned.done pass hv => exact h

theorem isPruner_of_finalize {w w' : World} {task next : Task} {act : Act}
    (h : advanceFinalize w task act = some (w', some next)) : next.isPruner = false := by
  cases task <;> cases act <;>
    simp only [advanceFinalize, Option.some.injEq, Prod.mk.injEq, reduceCtorEq, and_false] at h
  case markLru.lock hv free =>
    split at h
    · obtain ⟨-, rfl⟩ : _ = w' ∧ _ = next := by simpa using h
      rfl
    · cases h
  all_goals
    obtain ⟨-, rfl⟩ := h
    rfl

theorem isPruner_of_delete {w w' : World} {task next : Task} {act : Act}
    (h : advanceDelete w task act = some (w', some next)) : next.isPruner = false := by
  cases task <;> cases act <;>
    simp only [advanceDelete, Option.some.injEq, Prod.mk.injEq, reduceCtorEq, and_false] at h
  all_goals
    split_ifs at h
    · obtain ⟨-, rfl⟩ : _ = w' ∧ _ = next := by simpa using h
      rfl
    · simp at h

theorem knows_of_isPruner {task : Task} (w : World) (h : task.isPruner = false) : Knows w task := by
  cases task with
  | list | visit | prune | recordPruned | applyResult => cases h
  | _ => trivial

theorem knows_advance {w w' : World} {task next : Task} {act : Act} (h : Knows w task)
    (hlist : act = .failed → ∀ plan, task ≠ .list plan)
    (hadvance : advance w task act = some (w', some next)) : Knows w' next := by
  cases task with
  | rename | copy | copying | moved | markLru | addRange =>
    exact knows_of_isPruner w' (isPruner_of_finalize hadvance)
  | checkExists | unlink | unlinked => exact knows_of_isPruner w' (isPruner_of_delete hadvance)
  | list | visit | prune | recordPruned | applyResult => exact knows_advancePruner h hlist hadvance

/-! ## Every step -/

/-- A file becomes registered only by the last step of its registration. -/
theorem registered_of_advance {w w' : World} {task : Task} {act : Act} {next : Option Task}
    (h : advance w task act = some (w', next)) {hv : HVFile} (hmem : hv.cachePath ∈ w'.registered) :
    hv.cachePath ∈ w.registered ∨
      ∃ hv' now, task = .addRange hv' ∧ act = .clock now ∧ hv.staticRange = hv'.staticRange := by
  cases advances_of_advance h with
  | addRange hv' now =>
    rcases mem_register hmem with heq | hmem
    · exact .inr ⟨hv', now, rfl, rfl, HVFile.staticRange_of_cachePath_eq heq⟩
    · exact .inl hmem
  | unlink | pruneValid | pruneInvalid => exact .inl (Finset.mem_of_mem_erase hmem)
  | rename | copy | copied | leave | account | mark | accountRemoved | applyResult | idle =>
    exact .inl hmem

/-- A result that counts no file removes the entry of a range without registered files. -/
theorem prunable_applyResult {w : World} (h : Prunable w) {result : PruneResult}
    (hknows : Knows w (.applyResult result)) :
    Prunable { w with cache := w.cache.applyPruneResult result } := by
  intro hv hmem
  simp only [CacheHandler.applyPruneResult]
  split_ifs with hcount
  · exact Finmap.mem_insert.mpr (.inr (h hv hmem))
  · have hnone := hknows (Nat.eq_zero_of_not_pos hcount) hv hmem
    exact Finmap.mem_erase.mpr ⟨fun hrange => List.not_mem_nil (hnone hrange), h hv hmem⟩

theorem prunable_advance {w w' : World} {task : Task} {act : Act} {next : Option Task}
    (hw : Prunable w) (hknows : Knows w task) (h : advance w task act = some (w', next)) :
    Prunable w' := by
  cases advances_of_advance h with
  | rename | copy | copied | leave | idle => exact hw
  | account hv => exact hw.mono subset_rfl (accountFileAdded_ranges _ _)
  | mark hv hmark =>
    obtain ⟨lru, hlru⟩ := w.cache.markProxyFile_ok hv _
    obtain rfl := Except.ok.inj (hlru.symm.trans hmark)
    exact hw.mono subset_rfl rfl
  | addRange hv now => exact prunable_addRange hw hv now
  | unlink hv hmem => exact hw.mono (Finset.erase_subset _ _) rfl
  | pruneValid pass file hv hmem hname => exact hw.mono (Finset.erase_subset _ _) rfl
  | pruneInvalid pass file hmem hname => exact hw.mono (Finset.erase_subset _ _) rfl
  | accountRemoved hv next hremoved hnext => exact hw.mono subset_rfl (accountFileRemoved_ranges _ _)
  | applyResult result => exact prunable_applyResult hw hknows

structure Inv (p : System) : Prop where
  prunable : Prunable p.world
  knows : ∀ task ∈ p.tasks, Knows p.world task

/-- The task that steps hands on what it knows, and the others keep what they know. -/
theorem Inv.step {p q : System} {e : Event} (h : Inv p) (hquiet : QuietPass p e)
    (hstep : step p e = some q) : Inv q := by
  rcases Pool.step_cases hstep with ⟨request, task, rfl, hstart, rfl⟩ |
    ⟨index, act, task, w, next, before, after, rfl, hget, htasks, hadvance, rfl⟩
  · refine ⟨h.prunable, fun t ht => ?_⟩
    rcases List.mem_append.mp ht with ht | ht
    · exact h.knows t ht
    · obtain rfl := List.mem_singleton.mp ht
      exact knows_start hstart
  · have hknows : Knows p.world task := h.knows task (List.mem_of_getElem? hget)
    have hlist : act = .failed → ∀ plan, task ≠ .list plan := by
      rintro rfl plan rfl
      exact hquiet plan hget
    have hothers : ∀ t ∈ p.tasks, Knows w t := by
      refine fun t ht => (h.knows t ht).mono fun hv hmem hrange => ?_
      rcases registered_of_advance hadvance hmem with hmem | ⟨hv', now, rfl, rfl, hsame⟩
      · exact hmem
      · exact absurd (hsame ▸ hrange) (hquiet hv' hget t ht)
    refine ⟨prunable_advance h.prunable hknows hadvance, fun t ht => ?_⟩
    simp only [List.mem_append, Option.mem_toList] at ht
    rcases ht with (ht | ht) | ht
    · exact hothers t (htasks ▸ List.mem_append_left _ ht)
    · subst ht
      exact knows_advance hknows hlist hadvance
    · exact hothers t (htasks ▸ List.mem_append_right _ (List.mem_cons_of_mem _ ht))

/-- In every run in which no listing fails and no file is registered in a range while a pass
over the range is between its listing and its end, every range with a registered file has an
entry, in every state that is reached. -/
theorem registered_ranges_have_entries (w : World) (hw : Prunable w) (events : List Event)
    (hall : AllSteps step QuietPass ⟨w, []⟩ events) (s : System)
    (hrun : run step ⟨w, []⟩ events = some s) : Prunable s.world := by
  have hinv : Inv ⟨w, []⟩ := ⟨hw, fun _ ht => absurd ht List.not_mem_nil⟩
  exact (run_invariant (fun _ _ _ h hquiet hstep => h.step hquiet hstep) hinv hall hrun).prunable

/-! A range with one old file. The pruner removes the file, and before it applies its result
the same file is downloaded again. -/

def sampleConfig : Config where
  disklimitBytes := 104857600
  filesystemBlocksize := 4096
  staticRangeCount := 1
  rescanCache := false

def sampleRange : Text := "a94a".toList

def samplePlan : PrunePlan := ⟨sampleRange, ["a9".toList, "4a".toList], 86400000, false⟩

def sampleWorld : World where
  files := {sampleFile.cachePath}
  registered := {sampleFile.cachePath}
  cache := ⟨LruState.new, 1, 4, Finmap.insert sampleRange 0 ∅, true⟩
  registered_subset := subset_rfl

theorem iterate_sampleWorld (order : IterationOrder Text UInt64) :
    order.iterate sampleWorld.cache.staticRangeOldest = [⟨sampleRange, 0⟩] := by
  have h := order.iterates sampleWorld.cache.staticRangeOldest
  rw [Iterates, show sampleWorld.cache.staticRangeOldest.entries = {⟨sampleRange, 0⟩} from rfl] at h
  exact Multiset.coe_eq_singleton.mp h

theorem checkPruneAction_sampleWorld :
    sampleWorld.cache.checkPruneAction .debug sampleConfig 0 [⟨sampleRange, 0⟩] =
      .ok (.prune samplePlan) := by rfl

theorem fromFileid_fileName_sampleFile :
    fromFileid (fileName sampleFile.cachePath) = some sampleFile := by
  have h := (parsed_of_fromFileid fromFileid_sampleId).fromFileid_fileid
  rwa [if_neg (by decide)] at h

theorem listSortedFiles_sampleWorld :
    listSortedFiles sampleWorld.files samplePlan.rangeDir = [sampleFile.cachePath] := by
  have hdir : sampleFile.cachePath.dropLast = samplePlan.rangeDir := rfl
  have hne : sampleFile.cachePath ≠ [] := List.cons_ne_nil _ _
  rw [listSortedFiles, sampleWorld, Finset.filter_singleton, if_pos ⟨hne, hdir⟩,
    Finset.sort_singleton]

/-- The pass up to the end of its loop. -/
def pruneEvents (order : IterationOrder Text UInt64) : List Event :=
  [.start (.prune .debug sampleConfig 0 order), .advance 0 .done, .advance 0 (.clock 0),
    .advance 0 .done, .advance 0 .done]

def prunedWorld : World :=
  { sampleWorld.unlink sampleFile.cachePath with
    cache := sampleWorld.cache.accountFileRemoved sampleFile }

def prunedPass : PrunePass := ⟨samplePlan, [], 1, 1, UInt64.ofNat (2 ^ 64 - 1)⟩

/-- The pass that a failed listing gives no file. -/
def unlistedPass : PrunePass := .begin samplePlan []

section Pass

private theorem mem_sampleWorld : sampleFile.cachePath ∈ sampleWorld.files :=
  Finset.mem_singleton_self _

private theorem step_start (order : IterationOrder Text UInt64) :
    step ⟨sampleWorld, []⟩ (.start (.prune .debug sampleConfig 0 order)) =
      some ⟨sampleWorld, [.list samplePlan]⟩ := by
  simp only [step, Pool.step, start, List.any_nil, Bool.false_eq_true, if_false,
    iterate_sampleWorld, checkPruneAction_sampleWorld, Option.map_some, List.nil_append]

private theorem step_list :
    step ⟨sampleWorld, [.list samplePlan]⟩ (.advance 0 .done) =
      some ⟨sampleWorld, [.visit (.begin samplePlan [sampleFile.cachePath])]⟩ := by
  simp only [step, Pool.step, List.getElem?_cons_zero, Option.bind_some, advance, advancePruner,
    listSortedFiles_sampleWorld, Option.map_some]
  rfl

private theorem step_visit :
    step ⟨sampleWorld, [.visit (.begin samplePlan [sampleFile.cachePath])]⟩ (.advance 0 (.clock 0)) =
      some ⟨sampleWorld, [.prune { prunedPass with validFilesDeleted := 0 } sampleFile.cachePath]⟩ := by
  have hold : (0 : UInt64) < samplePlan.cutoff := by decide
  simp only [step, Pool.step, List.getElem?_cons_zero, Option.bind_some, advance, advancePruner,
    PrunePass.begin, visitFile, if_pos mem_sampleWorld, if_pos hold, Option.map_some]
  rfl

private theorem step_prune :
    step ⟨sampleWorld, [.prune { prunedPass with validFilesDeleted := 0 } sampleFile.cachePath]⟩
        (.advance 0 .done) =
      some ⟨sampleWorld.unlink sampleFile.cachePath, [.recordPruned prunedPass sampleFile]⟩ := by
  simp only [step, Pool.step, List.getElem?_cons_zero, Option.bind_some, advance, advancePruner,
    if_pos mem_sampleWorld, fromFileid_fileName_sampleFile, Option.map_some]
  rfl

private theorem step_recordPruned :
    step ⟨sampleWorld.unlink sampleFile.cachePath, [.recordPruned prunedPass sampleFile]⟩
        (.advance 0 .done) = some ⟨prunedWorld, [.visit prunedPass]⟩ := rfl

private theorem step_visitEnd :
    step ⟨prunedWorld, [.visit prunedPass]⟩ (.advance 0 (.clock 6)) =
      some ⟨prunedWorld, [.applyResult (prunedPass.result 6)]⟩ := rfl

private theorem step_applyResult :
    step ⟨prunedWorld, [.applyResult (prunedPass.result 6)]⟩ (.advance 0 .done) =
      some ⟨{ prunedWorld with
        cache := prunedWorld.cache.applyPruneResult (prunedPass.result 6) }, []⟩ := rfl

theorem run_pruneEvents (order : IterationOrder Text UInt64) :
    run step ⟨sampleWorld, []⟩ (pruneEvents order) = some ⟨prunedWorld, [.visit prunedPass]⟩ := by
  rw [pruneEvents, run_cons_of_step (step_start order), run_cons_of_step step_list,
    run_cons_of_step step_visit, run_cons_of_step step_prune, run_cons_of_step step_recordPruned, run]

/-- Nothing is registered during the pass. -/
theorem quietPass_pass (order : IterationOrder Text UInt64) :
    AllSteps step QuietPass ⟨sampleWorld, []⟩
      (pruneEvents order ++ [.advance 0 (.clock 6), .advance 0 .done]) := by
  simp only [pruneEvents, List.cons_append, List.nil_append]
  rw [allSteps_cons_of_step (step_start order), allSteps_cons_of_step step_list,
    allSteps_cons_of_step step_visit, allSteps_cons_of_step step_prune,
    allSteps_cons_of_step step_recordPruned, allSteps_cons_of_step step_visitEnd,
    allSteps_cons_of_step step_applyResult]
  exact ⟨trivial, trivial, fun _ h => (by cases h), trivial, trivial, fun _ h => (by cases h),
    trivial, trivial⟩

end Pass

theorem prunable_sampleWorld : Prunable sampleWorld := by
  intro hv hmem
  rw [HVFile.staticRange_of_cachePath_eq (Finset.mem_singleton.mp hmem)]
  exact Finmap.mem_insert.mpr (.inl rfl)

/-- The range of a file that is cached and registered has lost its entry. So it has when the
listing fails. -/
theorem pruner_removes_entry_of_new_file :
    Prunable sampleWorld ∧ ∃ order,
      (∃ s, run step ⟨sampleWorld, []⟩ (pruneEvents order ++
          (finalizeEvents 1 sampleId 5 ++ [.advance 0 (.clock 6), .advance 0 .done])) = some s ∧
        s.tasks = [] ∧ sampleFile.cachePath ∈ s.world.files ∧ ¬ Prunable s.world) ∧
      ∃ s, run step ⟨sampleWorld, []⟩ [.start (.prune .debug sampleConfig 0 order),
          .advance 0 .failed, .advance 0 (.clock 6), .advance 0 .done] = some s ∧
        s.tasks = [] ∧ sampleFile.cachePath ∈ s.world.files ∧ ¬ Prunable s.world := by
  refine ⟨prunable_sampleWorld, Classical.arbitrary _,
    ⟨⟨{ prunedWorld.finalized sampleFile 5 with
      cache := (prunedWorld.finalized sampleFile 5).cache.applyPruneResult (prunedPass.result 6) }, []⟩,
      ?_, rfl, Finset.mem_insert_self _ _, fun h => ?_⟩,
    ⟨{ sampleWorld with cache := sampleWorld.cache.applyPruneResult (unlistedPass.result 6) }, []⟩,
      ?_, rfl, Finset.mem_singleton_self _, fun h => ?_⟩
  · have hlength : [Task.visit prunedPass].length = 1 := rfl
    rw [run_append, run_pruneEvents, Option.bind_some, run_append,
      run_finalizeEvents _ _ hlength fromFileid_sampleId, Option.bind_some]
    rfl
  · have hentry := h sampleFile (Finset.mem_insert_self _ _)
    exact (Finmap.mem_erase.mp hentry).1 rfl
  · rw [run_cons_of_step (step_start _)]
    rfl
  · have hentry := h sampleFile (Finset.mem_singleton_self _)
    exact (Finmap.mem_erase.mp hentry).1 rfl

/-- The pass by itself, which removes the entry of the range it has emptied. -/
theorem registered_ranges_have_entries_pass :
    ∃ order s, run step ⟨sampleWorld, []⟩
        (pruneEvents order ++ [.advance 0 (.clock 6), .advance 0 .done]) = some s ∧
      s.tasks = [] ∧ sampleRange ∉ s.world.cache.staticRangeOldest ∧ Prunable s.world := by
  have hrun : run step ⟨sampleWorld, []⟩ (pruneEvents (Classical.arbitrary _) ++
      [.advance 0 (.clock 6), .advance 0 .done]) = some ⟨{ prunedWorld with
        cache := prunedWorld.cache.applyPruneResult (prunedPass.result 6) }, []⟩ := by
    rw [run_append, run_pruneEvents, Option.bind_some, run_cons_of_step step_visitEnd,
      run_cons_of_step step_applyResult, run]
  exact ⟨_, _, hrun, rfl, fun h => (Finmap.mem_erase.mp h).1 rfl,
    registered_ranges_have_entries _ prunable_sampleWorld _ (quietPass_pass _) _ hrun⟩

end HathRs.RangeEntries
