import Mathlib

/-!
# Cooldowns

Something is done at times that keep a distance from each other. A window of time then holds
no more of them than the distance goes into it, rounded up.
-/

namespace HathRs.Cooldowns

/-- The latest time first, each of them at least `wait` after the one before. -/
def Spaced (wait : ℕ) (times : List ℕ) : Prop :=
  times.Pairwise fun later earlier => earlier + wait ≤ later

variable {wait time : ℕ} {times : List ℕ}

theorem spaced_singleton (wait time : ℕ) : Spaced wait [time] := List.pairwise_singleton _ _

theorem Spaced.le_head (h : Spaced wait (time :: times)) {t : ℕ} (ht : t ∈ time :: times) : t ≤ time := by
  rcases List.mem_cons.mp ht with rfl | hin
  · exact le_rfl
  · exact (Nat.le_add_right t wait).trans ((List.pairwise_cons.mp h).1 t hin)

/-- Only the latest time has to be looked at. -/
theorem Spaced.cons {next : ℕ} (h : Spaced wait (time :: times)) (hnext : time + wait ≤ next) :
    Spaced wait (next :: time :: times) := by
  refine List.pairwise_cons.mpr ⟨fun t ht => ?_, h⟩
  exact (Nat.add_le_add_right (h.le_head ht) wait).trans hnext

theorem Spaced.filter (h : Spaced wait times) (p : ℕ → Bool) : Spaced wait (times.filter p) :=
  List.Pairwise.filter p h

/-- The distances between the times fit into the span of all of them. -/
theorem Spaced.span (h : Spaced wait times) (hne : times ≠ []) {start stop : ℕ}
    (hstart : ∀ t ∈ times, start ≤ t) (hstop : ∀ t ∈ times, t < stop) :
    start + times.length * wait < stop + wait := by
  induction times generalizing stop with
  | nil => exact absurd rfl hne
  | cons time times ih =>
    have hlt := hstop time List.mem_cons_self
    rw [List.length_cons, Nat.add_mul, Nat.one_mul]
    cases times with
    | nil =>
      have hle := hstart time List.mem_cons_self
      simp only [List.length_nil, Nat.zero_mul]
      omega
    | cons earlier times =>
      obtain ⟨hfar, hrest⟩ := List.pairwise_cons.mp h
      have hwait := hfar earlier List.mem_cons_self
      have hbefore : ∀ t ∈ earlier :: times, t < time - wait + 1 := fun t ht => by
        have hle := hfar t ht
        omega
      have hafter : ∀ t ∈ earlier :: times, start ≤ t := fun t ht => hstart t (List.mem_cons_of_mem _ ht)
      have hspan := ih hrest (List.cons_ne_nil _ _) hafter hbefore
      omega

/-- A window of this length has at most so many of the times in it. -/
theorem Spaced.countP_le (h : Spaced wait times) (hwait : 0 < wait) (start length : ℕ) :
    times.countP (fun t => start ≤ t && t < start + length) ≤ (length + (wait - 1)) / wait := by
  rw [List.countP_eq_length_filter, Nat.le_div_iff_mul_le hwait]
  set inside := times.filter fun t => decide (start ≤ t) && decide (t < start + length)
  have hmem : ∀ t ∈ inside, start ≤ t ∧ t < start + length := fun t ht => by
    simpa using (List.mem_filter.mp ht).2
  by_cases hne : inside = []
  · simp [hne]
  · have hspan : start + inside.length * wait < start + length + wait :=
      Spaced.span (h.filter _) hne (fun t ht => (hmem t ht).1) fun t ht => (hmem t ht).2
    omega

end HathRs.Cooldowns
