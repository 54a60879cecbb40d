import HathRs.CacheTasks

/-!
# One pass of the pruner over a directory

`execute_prune` counts the regular files it meets, takes back the deleted ones with a valid name,
and keeps the oldest time of the files it passes over. What it reports is meant to describe the
directory it leaves. It does, unless a file with an invalid name was removed, a file could not be
removed, or the only time to report is the one that stands for none.
-/

namespace HathRs.PrunePasses
open TextParsing FileIds MachineArithmetic CacheTasks

/-- An entry of the range directory, with what unlinking it would answer. The name is missing if it
is not valid Unicode. -/
structure DirEntry where
  name : Option Text
  isFile : Bool
  lastModified : UInt64
  unlinkFails : Bool
  deriving DecidableEq

def DirEntry.hv (e : DirEntry) : Option HVFile := fromFileid (e.name.getD [])

/-- An entry with what the pass meets there: a shutdown before it looks at the entry, or in the
delay behind a deletion. -/
structure Visit where
  entry : DirEntry
  cancelled : Bool
  cancelledInDelay : Bool
  deriving DecidableEq

/-- The counters of the pass, the entries it has left in place, and its calls of
`record_pruned_file`. -/
structure Scan where
  pass : PrunePass
  left : List DirEntry
  recorded : List HVFile

inductive PruneExecution where
  | completed (result : PruneResult)
  | interrupted

/-- The file is older than the cutoff. -/
def Due (cutoff : UInt64) (e : DirEntry) : Prop := e.isFile = true ∧ e.lastModified < cutoff

instance (cutoff : UInt64) (e : DirEntry) : Decidable (Due cutoff e) := inferInstanceAs (Decidable (_ ∧ _))

/-- The part of a turn that counts and deletes. -/
def Scan.visit (s : Scan) (e : DirEntry) : Scan :=
  if e.isFile then
    let pass := { s.pass with fileCount := s.pass.fileCount + 1 }
    if e.lastModified < pass.plan.cutoff then
      match e.hv with
      | some hv =>
        if e.unlinkFails then { s with pass := pass, left := s.left ++ [e] }
        else
          { s with
            pass := { pass with validFilesDeleted := pass.validFilesDeleted + 1 }
            recorded := s.recorded ++ [hv] }
      | none =>
        if e.unlinkFails then { s with pass := pass, left := s.left ++ [e] } else { s with pass := pass }
    else
      { s with
        pass := { pass with oldestLastModified := min pass.oldestLastModified e.lastModified }
        left := s.left ++ [e] }
  else { s with left := s.left ++ [e] }

/-- The loop over the listed entries. The delay follows a file that was due. -/
def scanEntries (s : Scan) (now : UInt64) : List Visit → Scan × PruneExecution
  | [] => (s, .completed (s.pass.result now))
  | v :: visits =>
    if v.cancelled then ({ s with left := s.left ++ (v :: visits).map Visit.entry }, .interrupted)
    else if Due s.pass.plan.cutoff v.entry ∧ v.cancelledInDelay then
      let s := s.visit v.entry
      ({ s with left := s.left ++ visits.map Visit.entry }, .interrupted)
    else scanEntries (s.visit v.entry) now visits

def executePrune (plan : PrunePlan) (now : UInt64) (visits : List Visit) : Scan × PruneExecution :=
  scanEntries ⟨.begin plan [], [], []⟩ now visits

/-! ## What the report should say -/

/-- The file is unlinked when the pass comes to it. -/
def Removed (cutoff : UInt64) (e : DirEntry) : Prop := Due cutoff e ∧ e.unlinkFails = false

instance (cutoff : UInt64) (e : DirEntry) : Decidable (Removed cutoff e) :=
  inferInstanceAs (Decidable (_ ∧ _))

/-- The oldest time of the regular files, or the current one. -/
def IsOldest (now : UInt64) (entries : List DirEntry) (oldest : UInt64) : Prop :=
  ((∃ e ∈ entries, e.isFile = true ∧ e.lastModified = oldest) ∧
      ∀ e ∈ entries, e.isFile = true → oldest ≤ e.lastModified) ∨
    (∀ e ∈ entries, e.isFile = false) ∧ oldest = now

/-- What a pass over these entries should have done and reported. It has come to the first `n` of
them, and to all of them if it completed. -/
structure Reports (plan : PrunePlan) (now : UInt64) (entries : List DirEntry)
    (outcome : Scan × PruneExecution) : Prop where
  removes : ∃ n, outcome.1.left =
      (entries.take n).filter (fun e => ¬ Removed plan.cutoff e) ++ entries.drop n ∧
    outcome.1.recorded = ((entries.take n).filter (Removed plan.cutoff ·)).filterMap DirEntry.hv ∧
    ∀ result, outcome.2 = .completed result → n = entries.length
  fileCount : ∀ result, outcome.2 = .completed result →
    result.fileCount = outcome.1.left.countP DirEntry.isFile
  oldest : ∀ result, outcome.2 = .completed result →
    IsOldest now outcome.1.left result.oldestLastModified

/-! ## The counters -/

namespace Scan

/-- One turn in one piece. -/
theorem visit_eq (s : Scan) (e : DirEntry) :
    s.visit e =
      { pass :=
          { s.pass with
            fileCount := s.pass.fileCount + if e.isFile then 1 else 0
            validFilesDeleted := s.pass.validFilesDeleted +
              if Removed s.pass.plan.cutoff e ∧ e.hv.isSome then 1 else 0
            oldestLastModified :=
              if e.isFile ∧ ¬ Due s.pass.plan.cutoff e then min s.pass.oldestLastModified e.lastModified
              else s.pass.oldestLastModified }
        left := s.left ++ if Removed s.pass.plan.cutoff e then [] else [e]
        recorded := s.recorded ++ if Removed s.pass.plan.cutoff e then e.hv.toList else [] } := by
  simp only [visit]
  by_cases hfile : e.isFile
  · by_cases hdue : e.lastModified < s.pass.plan.cutoff
    · cases hhv : e.hv <;> cases hfails : e.unlinkFails <;> simp [hfile, hdue, Removed, Due, hfails]
    · simp [hfile, hdue, Removed, Due]
  · simp [hfile, Removed, Due]

def visitAll (s : Scan) (entries : List DirEntry) : Scan := entries.foldl visit s

theorem visitAll_left (s : Scan) (entries : List DirEntry) :
    (s.visitAll entries).left = s.left ++ entries.filter fun e => ¬ Removed s.pass.plan.cutoff e := by
  induction entries generalizing s with
  | nil => simp [visitAll]
  | cons e entries ih =>
    rw [visitAll, List.foldl_cons, ← visitAll, ih, visit_eq]
    by_cases hremoved : Removed s.pass.plan.cutoff e <;> simp [hremoved]

theorem visitAll_recorded (s : Scan) (entries : List DirEntry) :
    (s.visitAll entries).recorded =
      s.recorded ++ (entries.filter (Removed s.pass.plan.cutoff ·)).filterMap DirEntry.hv := by
  induction entries generalizing s with
  | nil => simp [visitAll]
  | cons e entries ih =>
    rw [visitAll, List.foldl_cons, ← visitAll, ih, visit_eq]
    by_cases hremoved : Removed s.pass.plan.cutoff e
    · cases hhv : e.hv <;> simp [hremoved, hhv]
    · simp [hremoved]

theorem visitAll_fileCount (s : Scan) (entries : List DirEntry) :
    (s.visitAll entries).pass.fileCount = s.pass.fileCount + entries.countP DirEntry.isFile := by
  induction entries generalizing s with
  | nil => rfl
  | cons e entries ih =>
    rw [visitAll, List.foldl_cons, ← visitAll, ih, visit_eq, List.countP_cons]
    simp only [Nat.add_assoc, Nat.add_comm]

theorem visitAll_validFilesDeleted (s : Scan) (entries : List DirEntry) :
    (s.visitAll entries).pass.validFilesDeleted = s.pass.validFilesDeleted +
      entries.countP fun e => Removed s.pass.plan.cutoff e ∧ e.hv.isSome := by
  induction entries generalizing s with
  | nil => rfl
  | cons e entries ih =>
    rw [visitAll, List.foldl_cons, ← visitAll, ih, visit_eq, List.countP_cons]
    simp only [decide_eq_true_eq]
    omega

/-- The file stays because it is not due. -/
def Kept (cutoff : UInt64) (e : DirEntry) : Prop := e.isFile = true ∧ cutoff ≤ e.lastModified

/-- The oldest time is a lower bound of the kept files and the one of some of them, unless it is
still the first one. -/
theorem visitAll_oldest (s : Scan) (entries : List DirEntry) :
    (s.visitAll entries).pass.oldestLastModified ≤ s.pass.oldestLastModified ∧
    (∀ e ∈ entries, Kept s.pass.plan.cutoff e →
      (s.visitAll entries).pass.oldestLastModified ≤ e.lastModified) ∧
    ((s.visitAll entries).pass.oldestLastModified = s.pass.oldestLastModified ∨
      ∃ e ∈ entries, Kept s.pass.plan.cutoff e ∧
        e.lastModified = (s.visitAll entries).pass.oldestLastModified) := by
  induction entries generalizing s with
  | nil => exact ⟨UInt64.le_refl _, nofun, .inl rfl⟩
  | cons e entries ih =>
    rw [visitAll, List.foldl_cons, ← visitAll]
    obtain ⟨hle, hkept, hfound⟩ := ih (s.visit e)
    have hplan : (s.visit e).pass.plan = s.pass.plan := by rw [visit_eq]
    rw [hplan] at hkept hfound
    by_cases hkeep : Kept s.pass.plan.cutoff e
    · have hnew : (s.visit e).pass.oldestLastModified = min s.pass.oldestLastModified e.lastModified := by
        rw [visit_eq]
        exact if_pos ⟨hkeep.1, fun hdue => absurd hdue.2 (UInt64.not_lt.mpr hkeep.2)⟩
      rw [hnew] at hle hfound
      refine ⟨UInt64.le_trans hle (min_le_left_u64 _ _), fun d hd hdk => ?_, ?_⟩
      · rcases List.mem_cons.mp hd with rfl | hd
        · exact UInt64.le_trans hle (min_le_right_u64 _ _)
        · exact hkept d hd hdk
      · rcases hfound with hsame | ⟨d, hd, hdk, hmod⟩
        · rcases min_choice_u64 s.pass.oldestLastModified e.lastModified with hmin | hmin
          · exact .inl (hsame.trans hmin)
          · exact .inr ⟨e, List.mem_cons_self, hkeep, (hsame.trans hmin).symm⟩
        · exact .inr ⟨d, List.mem_cons_of_mem _ hd, hdk, hmod⟩
    · have hnew : (s.visit e).pass.oldestLastModified = s.pass.oldestLastModified := by
        rw [visit_eq]
        refine if_neg fun hnot => hkeep ⟨hnot.1, UInt64.not_lt.mp fun hlt => hnot.2 ⟨hnot.1, hlt⟩⟩
      rw [hnew] at hle hfound
      refine ⟨hle, fun d hd hdk => ?_, ?_⟩
      · rcases List.mem_cons.mp hd with rfl | hd
        · exact absurd hdk hkeep
        · exact hkept d hd hdk
      · rcases hfound with hsame | ⟨d, hd, hdk, hmod⟩
        · exact .inl hsame
        · exact .inr ⟨d, List.mem_cons_of_mem _ hd, hdk, hmod⟩

end Scan

/-! ## Interruptions -/

/-- The pass meets a shutdown somewhere. -/
def Interrupts (cutoff : UInt64) (visits : List Visit) : Prop :=
  ∃ v ∈ visits, v.cancelled = true ∨ Due cutoff v.entry ∧ v.cancelledInDelay = true

theorem scanEntries_of_interrupts {s : Scan} (now : UInt64) {visits : List Visit}
    (h : Interrupts s.pass.plan.cutoff visits) :
    ∃ n, scanEntries s now visits =
      ({ s.visitAll ((visits.map Visit.entry).take n) with
        left := (s.visitAll ((visits.map Visit.entry).take n)).left ++
          (visits.map Visit.entry).drop n }, .interrupted) := by
  induction visits generalizing s with
  | nil =>
    obtain ⟨v, hv, -⟩ := h
    cases hv
  | cons v visits ih =>
    rw [scanEntries]
    by_cases hcancelled : v.cancelled
    · rw [if_pos hcancelled]
      exact ⟨0, rfl⟩
    rw [if_neg hcancelled]
    by_cases hdelay : Due s.pass.plan.cutoff v.entry ∧ v.cancelledInDelay
    · rw [if_pos hdelay]
      exact ⟨1, rfl⟩
    rw [if_neg hdelay]
    have hplan : (s.visit v.entry).pass.plan = s.pass.plan := by rw [Scan.visit_eq]
    have hrest : Interrupts (s.visit v.entry).pass.plan.cutoff visits := by
      obtain ⟨u, hu, hcase⟩ := h
      rw [hplan]
      rcases List.mem_cons.mp hu with rfl | hu
      · rcases hcase with hcase | hcase
        · exact absurd hcase hcancelled
        · exact absurd hcase hdelay
      · exact ⟨u, hu, hcase⟩
    obtain ⟨n, hn⟩ := ih hrest
    exact ⟨n + 1, hn⟩

theorem scanEntries_of_not_interrupts {s : Scan} (now : UInt64) {visits : List Visit}
    (h : ¬ Interrupts s.pass.plan.cutoff visits) :
    scanEntries s now visits =
      (s.visitAll (visits.map Visit.entry),
        .completed ((s.visitAll (visits.map Visit.entry)).pass.result now)) := by
  induction visits generalizing s with
  | nil => rfl
  | cons v visits ih =>
    have hplan : (s.visit v.entry).pass.plan = s.pass.plan := by rw [Scan.visit_eq]
    have hcancelled : ¬ v.cancelled = true := fun hc => h ⟨v, List.mem_cons_self, .inl hc⟩
    have hdelay : ¬ (Due s.pass.plan.cutoff v.entry ∧ v.cancelledInDelay = true) :=
      fun hd => h ⟨v, List.mem_cons_self, .inr hd⟩
    rw [scanEntries, if_neg hcancelled, if_neg hdelay, ih]
    · rfl
    · rw [hplan]
      rintro ⟨u, hu, hcase⟩
      exact h ⟨u, List.mem_cons_of_mem _ hu, hcase⟩

/-! ## The report -/

section Report

variable {plan : PrunePlan} {now : UInt64} {entries : List DirEntry}

def Scan.begin (plan : PrunePlan) : Scan := ⟨.begin plan [], [], []⟩

theorem left_visitAll_begin :
    ((Scan.begin plan).visitAll entries).left = entries.filter fun e => ¬ Removed plan.cutoff e :=
  Scan.visitAll_left _ entries

/-- The count is right exactly if every removed file had a valid name. -/
theorem fileCount_iff :
    (((Scan.begin plan).visitAll entries).pass.result now).fileCount =
        ((Scan.begin plan).visitAll entries).left.countP DirEntry.isFile ↔
      ∀ e ∈ entries, Removed plan.cutoff e → e.hv.isSome := by
  have hcount : ((Scan.begin plan).visitAll entries).pass.fileCount = entries.countP DirEntry.isFile :=
    (Scan.visitAll_fileCount _ entries).trans (Nat.zero_add _)
  have hvalid : ((Scan.begin plan).visitAll entries).pass.validFilesDeleted =
      (entries.filter (Removed plan.cutoff ·)).countP (·.hv.isSome) := by
    rw [Scan.visitAll_validFilesDeleted, List.countP_filter]
    refine (Nat.zero_add _).trans (List.countP_congr fun e _ => ?_)
    rw [decide_eq_true_iff, Bool.and_eq_true, decide_eq_true_iff]
    exact and_comm
  have hfiles : (entries.filter (Removed plan.cutoff ·)).countP DirEntry.isFile =
      (entries.filter (Removed plan.cutoff ·)).length := by
    rw [List.countP_eq_length]
    intro e he
    exact (of_decide_eq_true (List.mem_filter.mp he).2 : Removed plan.cutoff e).1.1
  have hsplit := List.countP_eq_countP_filter_add entries DirEntry.isFile (Removed plan.cutoff ·)
  have hle := List.countP_le_length (p := fun e : DirEntry => e.hv.isSome)
    (l := entries.filter (Removed plan.cutoff ·))
  have hall : (entries.filter (Removed plan.cutoff ·)).countP (·.hv.isSome) =
      (entries.filter (Removed plan.cutoff ·)).length ↔
        ∀ e ∈ entries, Removed plan.cutoff e → e.hv.isSome := by
    rw [List.countP_eq_length]
    simp
  rw [← hall, left_visitAll_begin, PrunePass.result, hcount, hvalid]
  simp only [decide_not] at hsplit ⊢
  omega

/-- The file stays although it is due. -/
def Stuck (cutoff : UInt64) (e : DirEntry) : Prop := Due cutoff e ∧ e.unlinkFails = true

/-- The time that stands for none -/
def noTime : UInt64 := UInt64.ofNat (2 ^ 64 - 1)

/-- No file is stuck, and the kept files have a time to report. Or files are stuck, the kept ones
have none, and the oldest stuck one is from now. -/
def OldestVisible (cutoff now : UInt64) (entries : List DirEntry) : Prop :=
  ((∀ e ∈ entries, ¬ Stuck cutoff e) ∧
      ((∀ e ∈ entries, ¬ Scan.Kept cutoff e) ∨
        (∃ e ∈ entries, Scan.Kept cutoff e ∧ e.lastModified ≠ noTime) ∨ now = noTime)) ∨
    (∀ e ∈ entries, Scan.Kept cutoff e → e.lastModified = noTime) ∧
      (∃ e ∈ entries, Stuck cutoff e ∧ e.lastModified = now) ∧
      ∀ e ∈ entries, Stuck cutoff e → now ≤ e.lastModified

/-- The files of the directory that is left are the kept and the stuck ones. -/
theorem mem_left {cutoff : UInt64} {e : DirEntry} :
    (e ∈ entries.filter (fun e => ¬ Removed cutoff e) ∧ e.isFile = true) ↔
      e ∈ entries ∧ (Scan.Kept cutoff e ∨ Stuck cutoff e) := by
  rw [List.mem_filter, decide_eq_true_iff]
  simp only [Removed, Stuck, Scan.Kept, Due, ← UInt64.not_lt]
  by_cases hfile : e.isFile = true <;> by_cases hlt : e.lastModified < cutoff <;>
    by_cases hfails : e.unlinkFails = true <;> simp [hfile, hlt, hfails]

theorem le_noTime (t : UInt64) : t ≤ noTime := by
  rw [UInt64.le_iff_toNat_le]
  exact Nat.le_sub_one_of_lt t.toNat_lt

/-- The oldest time of the kept and the stuck files, or the current one. -/
def OldestLeft (cutoff now : UInt64) (entries : List DirEntry) (oldest : UInt64) : Prop :=
  ((∃ e ∈ entries, (Scan.Kept cutoff e ∨ Stuck cutoff e) ∧ e.lastModified = oldest) ∧
      ∀ e ∈ entries, Scan.Kept cutoff e ∨ Stuck cutoff e → oldest ≤ e.lastModified) ∨
    (∀ e ∈ entries, ¬ (Scan.Kept cutoff e ∨ Stuck cutoff e)) ∧ oldest = now

theorem isOldest_iff {cutoff oldest : UInt64} :
    IsOldest now (entries.filter fun e => ¬ Removed cutoff e) oldest ↔
      OldestLeft cutoff now entries oldest := by
  have hforall : ∀ P : DirEntry → Prop,
      (∀ e ∈ entries.filter (fun e => ¬ Removed cutoff e), e.isFile = true → P e) ↔
        ∀ e ∈ entries, Scan.Kept cutoff e ∨ Stuck cutoff e → P e := by
    intro P
    constructor
    · intro h e he hcase
      obtain ⟨hleft, hfile⟩ := mem_left.mpr ⟨he, hcase⟩
      exact h e hleft hfile
    · intro h e hleft hfile
      obtain ⟨he, hcase⟩ := mem_left.mp ⟨hleft, hfile⟩
      exact h e he hcase
  have hexists : (∃ e ∈ entries.filter (fun e => ¬ Removed cutoff e),
      e.isFile = true ∧ e.lastModified = oldest) ↔
        ∃ e ∈ entries, (Scan.Kept cutoff e ∨ Stuck cutoff e) ∧ e.lastModified = oldest := by
    constructor
    · rintro ⟨e, hleft, hfile, hmod⟩
      obtain ⟨he, hcase⟩ := mem_left.mp ⟨hleft, hfile⟩
      exact ⟨e, he, hcase, hmod⟩
    · rintro ⟨e, he, hcase, hmod⟩
      obtain ⟨hleft, hfile⟩ := mem_left.mpr ⟨he, hcase⟩
      exact ⟨e, hleft, hfile, hmod⟩
  have hnone : (∀ e ∈ entries.filter (fun e => ¬ Removed cutoff e), e.isFile = false) ↔
      ∀ e ∈ entries, ¬ (Scan.Kept cutoff e ∨ Stuck cutoff e) := by
    have h := hforall fun _ => False
    simpa only [imp_false, Bool.not_eq_true] using h
  rw [IsOldest, OldestLeft, hexists, hforall, hnone]

theorem Stuck.lt {cutoff : UInt64} {e : DirEntry} (h : Stuck cutoff e) : e.lastModified < cutoff := h.1.2

/-- When no kept file has a time to report, the current one is reported. -/
theorem oldestLeft_now_iff {cutoff : UInt64}
    (hkept : ∀ e ∈ entries, Scan.Kept cutoff e → e.lastModified = noTime) :
    OldestLeft cutoff now entries now ↔ OldestVisible cutoff now entries := by
  constructor
  · rintro (⟨⟨e, he, hcase, hnow⟩, hle⟩ | ⟨hnone, -⟩)
    · rcases hcase with hkeep | hstuck
      · have hnow' : now = noTime := hnow.symm.trans (hkept e he hkeep)
        refine .inl ⟨fun d hd hdstuck => ?_, .inr (.inr hnow')⟩
        have hlast := hle d hd (.inr hdstuck)
        rw [hnow'] at hlast
        exact UInt64.not_lt.mpr (UInt64.le_trans (le_noTime cutoff) hlast) hdstuck.lt
      · exact .inr ⟨hkept, ⟨e, he, hstuck, hnow⟩, fun d hd hdstuck => hle d hd (.inr hdstuck)⟩
    · exact .inl ⟨fun e he hstuck => hnone e he (.inr hstuck),
        .inl fun e he hkeep => hnone e he (.inl hkeep)⟩
  · rintro (⟨hstuck, hnokept | ⟨e, he, hkeep, hne⟩ | hnow⟩ | ⟨-, ⟨e, he, hstuck, hnow⟩, hle⟩)
    · exact .inr ⟨fun e he hcase => hcase.elim (hnokept e he) (hstuck e he), rfl⟩
    · exact absurd (hkept e he hkeep) hne
    · by_cases hany : ∃ e ∈ entries, Scan.Kept cutoff e
      · obtain ⟨e, he, hkeep⟩ := hany
        refine .inl ⟨⟨e, he, .inl hkeep, (hkept e he hkeep).trans hnow.symm⟩, fun d hd hcase => ?_⟩
        rcases hcase with hdkeep | hdstuck
        · rw [hkept d hd hdkeep]
          exact le_noTime now
        · exact absurd hdstuck (hstuck d hd)
      · exact .inr ⟨fun e he hcase => hcase.elim (fun hkeep => hany ⟨e, he, hkeep⟩) (hstuck e he), rfl⟩
    · refine .inl ⟨⟨e, he, .inr hstuck, hnow⟩, fun d hd hcase => ?_⟩
      rcases hcase with hdkeep | hdstuck
      · rw [hkept d hd hdkeep]
        exact le_noTime now
      · exact hle d hd hdstuck

/-- When a kept file has a time to report, it is the oldest one exactly if no file is stuck. -/
theorem oldestLeft_kept_iff {cutoff oldest : UInt64} (hne : oldest ≠ noTime) {e : DirEntry}
    (he : e ∈ entries) (hkeep : Scan.Kept cutoff e) (holdest : e.lastModified = oldest)
    (hkept : ∀ e ∈ entries, Scan.Kept cutoff e → oldest ≤ e.lastModified) :
    OldestLeft cutoff now entries oldest ↔ OldestVisible cutoff now entries := by
  constructor
  · rintro (⟨-, hle⟩ | ⟨hnone, -⟩)
    · refine .inl ⟨fun d hd hstuck => ?_, .inr (.inl ⟨e, he, hkeep, holdest ▸ hne⟩)⟩
      have hlow : cutoff ≤ d.lastModified :=
        UInt64.le_trans (holdest ▸ hkeep.2) (hle d hd (.inr hstuck))
      exact UInt64.not_lt.mpr hlow hstuck.lt
    · exact absurd (.inl hkeep) (hnone e he)
  · rintro (⟨hstuck, -⟩ | ⟨hnotime, -⟩)
    · refine .inl ⟨⟨e, he, .inl hkeep, holdest⟩, fun d hd hcase => ?_⟩
      exact hcase.elim (hkept d hd) fun hdstuck => absurd hdstuck (hstuck d hd)
    · exact absurd (holdest.symm.trans (hnotime e he hkeep)) hne

/-- The reported time is right exactly in these cases. -/
theorem oldest_iff :
    IsOldest now ((Scan.begin plan).visitAll entries).left
        (((Scan.begin plan).visitAll entries).pass.result now).oldestLastModified ↔
      OldestVisible plan.cutoff now entries := by
  obtain ⟨-, hkept, hfound⟩ := Scan.visitAll_oldest (Scan.begin plan) entries
  rw [left_visitAll_begin, isOldest_iff, PrunePass.result, ← noTime]
  dsimp only
  generalize ((Scan.begin plan).visitAll entries).pass.oldestLastModified = oldest at hkept hfound ⊢
  by_cases hnone : oldest = noTime
  · have hnotime : ∀ e ∈ entries, Scan.Kept plan.cutoff e → e.lastModified = noTime :=
      fun e he hkeep => UInt64.le_antisymm (le_noTime _) (hnone ▸ hkept e he hkeep)
    rw [if_pos hnone]
    exact oldestLeft_now_iff hnotime
  · obtain ⟨e, he, hkeep, holdest⟩ := hfound.resolve_left hnone
    rw [if_neg hnone]
    exact oldestLeft_kept_iff hnone he hkeep holdest hkept

/-- A pass reports what it leaves behind exactly if it is interrupted, or every file it removes has
a valid name and the oldest time is visible to it. -/
theorem executePrune_reports_iff (plan : PrunePlan) (now : UInt64) (visits : List Visit) :
    Reports plan now (visits.map Visit.entry) (executePrune plan now visits) ↔
      Interrupts plan.cutoff visits ∨
        (∀ e ∈ visits.map Visit.entry, Removed plan.cutoff e → e.hv.isSome) ∧
          OldestVisible plan.cutoff now (visits.map Visit.entry) := by
  have hrun : executePrune plan now visits = scanEntries (Scan.begin plan) now visits := rfl
  by_cases hinterrupts : Interrupts plan.cutoff visits
  · refine iff_of_true ?_ (.inl hinterrupts)
    obtain ⟨n, hn⟩ := scanEntries_of_interrupts (s := Scan.begin plan) now hinterrupts
    rw [hrun, hn]
    refine ⟨⟨n, ?_, ?_, nofun⟩, nofun, nofun⟩
    · exact congrArg (· ++ (visits.map Visit.entry).drop n) left_visitAll_begin
    · exact Scan.visitAll_recorded _ _
  · have hcompleted := scanEntries_of_not_interrupts (s := Scan.begin plan) now hinterrupts
    rw [hrun, hcompleted]
    constructor
    · intro hreports
      exact .inr ⟨fileCount_iff.mp (hreports.fileCount _ rfl), oldest_iff.mp (hreports.oldest _ rfl)⟩
    · rintro (hcontra | ⟨hvalid, hvisible⟩)
      · exact absurd hcontra hinterrupts
      · refine ⟨⟨(visits.map Visit.entry).length, ?_, ?_, fun _ _ => rfl⟩, ?_, ?_⟩
        · rw [List.take_length, List.drop_length, List.append_nil]
          exact left_visitAll_begin
        · rw [List.take_length]
          exact Scan.visitAll_recorded _ _
        · rintro result ⟨⟩
          exact fileCount_iff.mpr hvalid
        · rintro result ⟨⟩
          exact oldest_iff.mpr hvisible

end Report

/-! A directory with an old file that is not a cached file, and nothing else. -/

def junkVisit : Visit := ⟨⟨some "junk".toList, true, 0, false⟩, false, false⟩

def junkPlan : PrunePlan := ⟨"a94a".toList, ["a9".toList, "4a".toList], 86400000, false⟩

/-- The junk file is removed and still counted, so the range is not dropped. -/
theorem junk_counted :
    ∃ result, (executePrune junkPlan 0 [junkVisit]).2 = .completed result ∧ result.fileCount = 1 ∧
      (executePrune junkPlan 0 [junkVisit]).1.left = [] ∧
      ¬ Reports junkPlan 0 [junkVisit.entry] (executePrune junkPlan 0 [junkVisit]) := by
  refine ⟨_, rfl, by decide, by decide, fun hreports => ?_⟩
  exact absurd (hreports.fileCount _ rfl) (by decide)

end HathRs.PrunePasses
