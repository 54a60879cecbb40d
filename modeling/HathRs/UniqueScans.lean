import Mathlib.Data.List.Basic
import Mathlib.Data.List.Perm.Basic

/-!
# Scans for the only element that passes a test

A scan tests the elements of a list one after the other and keeps the index of the one that
passes. A second one ends it with an error, as does a test that fails itself. What it selects
does not depend on the order of the list.
-/

namespace HathRs.UniqueScans

section Scans

variable {ε α : Type*}

/-- The loop from the element at `index` on, with what it has found before. -/
def scanUnique (test : α → Except ε Bool) (ambiguous : ε) :
    List α → ℕ → Option ℕ → Except ε (Option ℕ)
  | [], _, found => .ok found
  | a :: as, index, found =>
    match test a with
    | .error e => .error e
    | .ok false => scanUnique test ambiguous as (index + 1) found
    | .ok true =>
      match found with
      | none => scanUnique test ambiguous as (index + 1) (some index)
      | some _ => .error ambiguous

/-- The element at an index and what is left without it; nothing beyond the end. -/
def removeAt (as : List α) (i : ℕ) : Option (α × List α) :=
  as[i]?.map fun a => (a, as.eraseIdx i)

/-- One element passes the test and all others fail it. -/
structure Selects (test : α → Except ε Bool) (as : List α) (a : α) (rest : List α) : Prop where
  perm : as.Perm (a :: rest)
  passes : test a = .ok true
  others : ∀ b ∈ rest, test b = .ok false

variable {test : α → Except ε Bool} {ambiguous : ε} {as bs rest : List α} {a : α} {i index : ℕ}

theorem removeAt_append (l : List α) (a : α) (r : List α) :
    removeAt (l ++ a :: r) l.length = some (a, l ++ r) := by
  simp [removeAt, List.eraseIdx_append_of_length_le]

theorem scanUnique_found (found : Option ℕ) :
    scanUnique test ambiguous as index (some i) = .ok found ↔
      found = some i ∧ ∀ b ∈ as, test b = .ok false := by
  induction as generalizing index with
  | nil => simp [scanUnique, eq_comm]
  | cons a as ih =>
    rcases htest : test a with e | _ | _
    · simp [scanUnique, htest]
    · simp [scanUnique, htest, ih]
    · simp [scanUnique, htest]

theorem scanUnique_eq_some :
    scanUnique test ambiguous as index none = .ok (some i) ↔
      ∃ l a r, as = l ++ a :: r ∧ i = index + l.length ∧ test a = .ok true ∧
        ∀ b ∈ l ++ r, test b = .ok false := by
  induction as generalizing index with
  | nil => simp [scanUnique]
  | cons c as ih =>
    rcases htest : test c with e | _ | _
    · simp only [scanUnique, htest, reduceCtorEq, false_iff]
      rintro ⟨l, a, r, has, -, hpass, hfail⟩
      have hmem : c ∈ l ++ a :: r := has ▸ List.mem_cons_self
      rcases List.mem_append.mp hmem with hl | hr
      · exact absurd (htest.symm.trans (hfail c (List.mem_append_left r hl))) (by simp)
      · rcases List.mem_cons.mp hr with rfl | hr
        · exact absurd (htest.symm.trans hpass) (by simp)
        · exact absurd (htest.symm.trans (hfail c (List.mem_append_right l hr))) (by simp)
    · simp only [scanUnique, htest, ih]
      constructor
      · rintro ⟨l, a, r, rfl, rfl, hpass, hfail⟩
        refine ⟨c :: l, a, r, rfl, by simp only [List.length_cons]; omega, hpass, ?_⟩
        simpa [htest] using hfail
      · rintro ⟨l, a, r, has, hi, hpass, hfail⟩
        cases l with
        | nil =>
          obtain ⟨rfl, -⟩ := List.cons.inj has
          exact absurd (htest.symm.trans hpass) (by simp)
        | cons d l =>
          obtain ⟨rfl, rfl⟩ := List.cons.inj has
          refine ⟨l, a, r, rfl, by simp only [List.length_cons] at hi; omega, hpass, ?_⟩
          exact fun b hb => hfail b (List.mem_cons_of_mem c hb)
    · simp only [scanUnique, htest, scanUnique_found, Option.some.injEq]
      constructor
      · rintro ⟨rfl, hfail⟩
        exact ⟨[], c, as, rfl, rfl, htest, hfail⟩
      · rintro ⟨l, a, r, has, hi, hpass, hfail⟩
        cases l with
        | nil =>
          obtain ⟨rfl, rfl⟩ := List.cons.inj has
          exact ⟨hi, hfail⟩
        | cons d l =>
          obtain ⟨rfl, -⟩ := List.cons.inj has
          exact absurd (htest.symm.trans (hfail c List.mem_cons_self)) (by simp)

/-- An index found by a scan is one that can be removed. -/
theorem scanUnique_selects (h : scanUnique test ambiguous as 0 none = .ok (some i)) :
    ∃ a rest, removeAt as i = some (a, rest) ∧ Selects test as a rest := by
  obtain ⟨l, a, r, rfl, rfl, hpass, hfail⟩ := scanUnique_eq_some.mp h
  refine ⟨a, l ++ r, ?_, List.perm_middle, hpass, hfail⟩
  rw [Nat.zero_add, removeAt_append]

theorem Selects.of_perm (h : Selects test as a rest) (hperm : as.Perm bs) :
    Selects test bs a rest :=
  ⟨hperm.symm.trans h.perm, h.passes, h.others⟩

/-- An element selected in one order is found in each. -/
theorem Selects.found (h : Selects test as a rest) (ambiguous : ε) :
    ∃ i rest', scanUnique test ambiguous as 0 none = .ok (some i) ∧
      removeAt as i = some (a, rest') ∧ rest'.Perm rest := by
  obtain ⟨l, r, rfl⟩ := List.append_of_mem (h.perm.symm.subset List.mem_cons_self)
  have hrest : (l ++ r).Perm rest := (List.perm_middle.symm.trans h.perm).cons_inv
  refine ⟨l.length, l ++ r, scanUnique_eq_some.mpr ?_, removeAt_append l a r, hrest⟩
  exact ⟨l, a, r, rfl, (Nat.zero_add _).symm, h.passes, fun b hb => h.others b (hrest.subset hb)⟩

end Scans

end HathRs.UniqueScans
