import HathRs.ByteWords

/-!
# File operations that can fail or be cut off

A disk gives the content of every regular file. A sequence of operations runs
under a list of faults, one for each operation: it takes effect, it returns an
error, or the process dies in it. A write that does not take effect may have
truncated its file and left a proper prefix of the bytes there. A process that
dies between two operations is one that dies in the second before touching
anything, and a write that was cut after its last byte is one that took effect.
-/

namespace HathRs

abbrev Disk (ν : Type) := ν → Option Bytes

namespace CrashFiles

variable {ν : Type} [DecidableEq ν]

/-- `write` replaces a file, `create` requires that there is none, and `remove`
accepts that there is none. -/
inductive FileOp (ν : Type) where
  | write (name : ν) (data : Bytes)
  | create (name : ν) (data : Bytes)
  | remove (name : ν)
  | rename (source target : ν)

/-- The disk after an operation that took effect, if its precondition holds. -/
def FileOp.apply (disk : Disk ν) : FileOp ν → Option (Disk ν)
  | .write name data => some (Function.update disk name (some data))
  | .create name data =>
    if disk name = none then some (Function.update disk name (some data)) else none
  | .remove name => some (Function.update disk name none)
  | .rename source target =>
    (disk source).map fun data =>
      Function.update (Function.update disk source none) target (some data)

/-- What is left by an operation that did not take effect. A write that opened its
file has kept at most `n` bytes, and never all of them. -/
def FileOp.tear (disk : Disk ν) (kept : Option ℕ) : FileOp ν → Disk ν
  | .write name data =>
    kept.elim disk (fun n => Function.update disk name (some (data.dropLast.take n)))
  | .create name data =>
    if disk name = none then
      kept.elim disk (fun n => Function.update disk name (some (data.dropLast.take n)))
    else disk
  | .remove _ => disk
  | .rename _ _ => disk

inductive Fault where
  | none
  | error (kept : Option ℕ)
  | crash (kept : Option ℕ)
  deriving DecidableEq

inductive Outcome where
  | ok
  | failed
  | crashed
  deriving DecidableEq

/-- The fault of the next operation. Beyond the end of the list there is none. -/
def nextFault : List Fault → Fault
  | [] => .none
  | fault :: _ => fault

/-- Runs the operations until one of them does not take effect. -/
def runOps (disk : Disk ν) : List Fault → List (FileOp ν) → Disk ν × Outcome
  | _, [] => (disk, .ok)
  | faults, op :: ops =>
    match nextFault faults with
    | .error kept => (op.tear disk kept, .failed)
    | .crash kept => (op.tear disk kept, .crashed)
    | .none =>
      match op.apply disk with
      | none => (disk, .failed)
      | some next => runOps next faults.tail ops

/-- The disk after all the operations took effect. -/
def applyAll (disk : Disk ν) : List (FileOp ν) → Option (Disk ν)
  | [] => some disk
  | op :: ops => (op.apply disk).bind (fun next => applyAll next ops)

/-- An operation that touched nothing is torn without having opened its file. -/
theorem FileOp.tear_none (disk : Disk ν) (op : FileOp ν) :
    op.tear disk none = disk := by
  cases op <;> simp [FileOp.tear]

/-- Either the first operation is torn and the run ends, or it takes effect and the run
goes on. -/
theorem runOps_cons_cases (disk : Disk ν) (faults : List Fault) (op : FileOp ν)
    (ops : List (FileOp ν)) :
    (∃ kept, (runOps disk faults (op :: ops)).1 = op.tear disk kept ∧
      (runOps disk faults (op :: ops)).2 ≠ .ok) ∨
    ∃ next, op.apply disk = some next ∧
      runOps disk faults (op :: ops) = runOps next faults.tail ops := by
  simp only [runOps]
  cases nextFault faults with
  | error kept => exact Or.inl ⟨kept, rfl, by simp⟩
  | crash kept => exact Or.inl ⟨kept, rfl, by simp⟩
  | none =>
    cases op.apply disk with
    | none => exact Or.inl ⟨none, (op.tear_none disk).symm, by simp⟩
    | some next => exact Or.inr ⟨next, rfl, rfl⟩

theorem runOps_remove_cases (disk : Disk ν) (faults : List Fault) (name : ν)
    (ops : List (FileOp ν)) :
    ((runOps disk faults (.remove name :: ops)).1 = disk ∧
      (runOps disk faults (.remove name :: ops)).2 ≠ .ok) ∨
    runOps disk faults (.remove name :: ops) =
      runOps (Function.update disk name none) faults.tail ops := by
  rcases runOps_cons_cases disk faults (.remove name) ops with ⟨_, h⟩ | ⟨next, hnext, h⟩
  · exact Or.inl h
  · cases hnext
    exact Or.inr h

/-- A torn write leaves its file alone or a proper prefix of the bytes in it. -/
theorem runOps_write_cases (disk : Disk ν) (faults : List Fault) (name : ν) (data : Bytes)
    (ops : List (FileOp ν)) :
    (((runOps disk faults (.write name data :: ops)).1 = disk ∨
      ∃ n, (runOps disk faults (.write name data :: ops)).1 =
        Function.update disk name (some (data.dropLast.take n))) ∧
      (runOps disk faults (.write name data :: ops)).2 ≠ .ok) ∨
    runOps disk faults (.write name data :: ops) =
      runOps (Function.update disk name (some data)) faults.tail ops := by
  rcases runOps_cons_cases disk faults (.write name data) ops with ⟨kept, h, hne⟩ | ⟨next, hnext, h⟩
  · cases kept with
    | none => exact Or.inl ⟨Or.inl h, hne⟩
    | some n => exact Or.inl ⟨Or.inr ⟨n, h⟩, hne⟩
  · cases hnext
    exact Or.inr h

/-! ## Files that no operation names -/

def FileOp.names : FileOp ν → List ν
  | .write name _ => [name]
  | .create name _ => [name]
  | .remove name => [name]
  | .rename source target => [source, target]

theorem FileOp.apply_frame {disk next : Disk ν} {op : FileOp ν} {name : ν}
    (hn : name ∉ op.names) (h : op.apply disk = some next) : next name = disk name := by
  cases op with
  | write target data =>
    cases h
    exact Function.update_of_ne (by simpa [names] using hn) _ _
  | create target data =>
    simp only [apply] at h
    split_ifs at h
    cases h
    exact Function.update_of_ne (by simpa [names] using hn) _ _
  | remove target =>
    cases h
    exact Function.update_of_ne (by simpa [names] using hn) _ _
  | rename source target =>
    obtain ⟨hs, ht⟩ : name ≠ source ∧ name ≠ target := by simpa [names] using hn
    obtain ⟨data, -, rfl⟩ := Option.map_eq_some_iff.mp h
    rw [Function.update_of_ne ht, Function.update_of_ne hs]

theorem FileOp.tear_frame {disk : Disk ν} {op : FileOp ν} {name : ν} (hn : name ∉ op.names)
    (kept : Option ℕ) : op.tear disk kept name = disk name := by
  have hwrite : ∀ {target : ν}, name ≠ target → ∀ (kept : Option ℕ) (data : Bytes),
      kept.elim disk (fun n => Function.update disk target (some (data.dropLast.take n))) name =
        disk name := by
    intro target hne kept data
    cases kept with
    | none => rfl
    | some n => exact Function.update_of_ne hne _ _
  cases op with
  | write target data => exact hwrite (by simpa [names] using hn) kept data
  | create target data =>
    simp only [tear]
    split_ifs
    · exact hwrite (by simpa [names] using hn) kept data
    · rfl
  | remove target => rfl
  | rename source target => rfl

/-- A run leaves every file alone that none of its operations names. -/
theorem runOps_frame {disk : Disk ν} {faults : List Fault} {ops : List (FileOp ν)} {name : ν}
    (hn : ∀ op ∈ ops, name ∉ op.names) : (runOps disk faults ops).1 name = disk name := by
  induction ops generalizing disk faults with
  | nil => rfl
  | cons op ops ih =>
    have hop := hn op List.mem_cons_self
    rcases runOps_cons_cases disk faults op ops with ⟨kept, h, -⟩ | ⟨next, hnext, h⟩
    · rw [h, FileOp.tear_frame hop]
    · rw [h, ih (fun op' h' => hn op' (List.mem_cons_of_mem _ h')), FileOp.apply_frame hop hnext]

/-- The run only reaches its end when every operation took effect. -/
theorem applyAll_of_runOps_ok {disk : Disk ν} {faults : List Fault} {ops : List (FileOp ν)}
    (h : (runOps disk faults ops).2 = .ok) :
    applyAll disk ops = some (runOps disk faults ops).1 := by
  induction ops generalizing disk faults with
  | nil => rfl
  | cons op ops ih =>
    rcases runOps_cons_cases disk faults op ops with ⟨kept, -, hne⟩ | ⟨next, hnext, hrun⟩
    · exact absurd h hne
    · rw [hrun] at h ⊢
      rw [applyAll, hnext, Option.bind_some, ih h]

/-- A run whose last operation is a rename and that is not completed has not renamed. -/
theorem runOps_append_rename {disk : Disk ν} {faults : List Fault} {ops : List (FileOp ν)}
    {source target : ν} (h : (runOps disk faults (ops ++ [.rename source target])).2 ≠ .ok) :
    (runOps disk faults (ops ++ [.rename source target])).1 = (runOps disk faults ops).1 := by
  induction ops generalizing disk faults with
  | nil =>
    rcases runOps_cons_cases disk faults (.rename source target) [] with ⟨kept, hrun, -⟩ | ⟨next, -, hrun⟩
    · exact hrun
    · rw [List.nil_append, hrun] at h
      exact absurd rfl h
  | cons op ops ih =>
    rw [List.cons_append] at h ⊢
    simp only [runOps] at h ⊢
    cases hfault : nextFault faults with
    | error kept => rfl
    | crash kept => rfl
    | none =>
      cases happly : op.apply disk with
      | none => rfl
      | some next =>
        simp only [hfault, happly] at h ⊢
        exact ih h

end CrashFiles
end HathRs
