import HathRs.LruState
import HathRs.TransitionRuns

/-!
# The sweep over the table of recent files

Files are marked and the table is cleared, seventeen words at a time, in any order. The bit of a
file is set exactly when it has been set since its word was last cleared, and the sweep comes to
every word again within 61682 calls: the last step before the end of the table is a short one, and
the next starts at its front.
-/

namespace HathRs.LruSweep
open TextParsing FileIds MachineArithmetic LruState TransitionRuns

/-! ## Runs -/

inductive Event where
  | mark (hv : HVFile)
  | cycle

def Event.isCycle : Event → Bool
  | .mark _ => false
  | .cycle => true

def step (build : Build) (lru : LruState) : Event → Except Panic LruState
  | .mark hv => (lru.markRecentlyAccessed hv.fileid).map Prod.snd
  | .cycle => lru.cycle build

def sweep (build : Build) (lru : LruState) (events : List Event) : Except Panic LruState :=
  events.foldlM (step build) lru

/-- The next cycle clears this word of the table. -/
def Clears (lru : LruState) (i : ℕ) : Prop :=
  lru.lruClearPointer.toNat ≤ i ∧ i < min (lru.lruClearPointer.toNat + 17) lruCacheSize

instance (lru : LruState) : DecidablePred (Clears lru) := fun _ => inferInstanceAs (Decidable (_ ∧ _))

/-- At some point of the run the bit was set, by a mark or in the table at the start, and no cycle
since then has cleared its word. -/
def SetSince (build : Build) (start : LruState) (events : List Event) (i bit : ℕ) : Prop :=
  ∃ before after, events = before ++ after ∧
    (before = [] ∧ start.bitSet i bit ∨ ∃ front hv, before = front ++ [.mark hv] ∧ mapsTo hv i bit) ∧
    ∀ front back lru, after = front ++ .cycle :: back →
      sweep build start (before ++ front) = .ok lru → ¬ Clears lru i

/-! ## One call -/

section Calls

variable {lru next : LruState} {i bit : ℕ}

theorem getD_fillZero {table : List UInt16} {start stop : ℕ} (h : start ≤ stop)
    (hstop : stop ≤ table.length) (i : ℕ) :
    (fillZero table start stop).getD i 0 = if start ≤ i ∧ i < stop then 0 else table.getD i 0 := by
  have hfront : (table.take start).length = start := by
    rw [List.length_take]
    omega
  simp only [fillZero, List.getD_eq_getElem?_getD, List.append_assoc]
  split_ifs with hin
  · rw [List.getElem?_append_right (by omega), hfront,
      List.getElem?_append_left (by rw [List.length_replicate]; omega), List.getElem?_replicate]
    split_ifs <;> rfl
  · rcases Nat.lt_or_ge i start with hlow | hhigh
    · rw [List.getElem?_append_left (by omega), List.getElem?_take_of_lt hlow]
    · rw [List.getElem?_append_right (by omega), hfront,
        List.getElem?_append_right (by rw [List.length_replicate]; omega), List.length_replicate,
        List.getElem?_drop]
      congr 2
      omega

/-- A cycle clears its words and no others. -/
theorem getD_cycle {build : Build} (h : lru.lruClearPointer.toNat < lruCacheSize)
    (hcycle : lru.cycle build = .ok next) (i : ℕ) :
    next.lruCacheTable.getD i 0 = if Clears lru i then 0 else lru.lruCacheTable.getD i 0 := by
  obtain ⟨next', hok, -, htable⟩ := cycle_eq build h
  obtain rfl := Except.ok.inj (hcycle.symm.trans hok)
  rw [htable, getD_fillZero (by omega) (by rw [lru.length_table]; omega)]
  rfl

theorem pointer_cycle {build : Build} (h : lru.lruClearPointer.toNat < lruCacheSize)
    (hcycle : lru.cycle build = .ok next) :
    next.lruClearPointer.toNat = nextPointer lru.lruClearPointer.toNat := by
  obtain ⟨next', hok, hpointer, -⟩ := cycle_eq build h
  obtain rfl := Except.ok.inj (hcycle.symm.trans hok)
  exact hpointer

theorem bitSet_cycle {build : Build} (h : lru.lruClearPointer.toNat < lruCacheSize)
    (hcycle : lru.cycle build = .ok next) : next.bitSet i bit ↔ lru.bitSet i bit ∧ ¬ Clears lru i := by
  rw [bitSet, bitSet, getD_cycle h hcycle i]
  split_ifs with hclears
  · simp only [UInt16.zero_and, ne_eq, not_true_eq_false, false_iff, not_and, not_not]
    exact fun _ => hclears
  · exact (and_iff_left hclears).symm

/-- Marking tells whether the bit was clear. -/
theorem marked_iff {hv : HVFile} {marked : Bool} (hmap : mapsTo hv i bit)
    (h : lru.markRecentlyAccessed hv.fileid = .ok (marked, next)) :
    marked = true ↔ ¬ lru.bitSet i bit := by
  have hlt : i < lru.lruCacheTable.length := lru.length_table ▸ slot_fileid_lt hmap
  rw [markRecentlyAccessed_eq hmap hlt] at h
  rw [bitSet, List.getD_eq_getElem _ _ hlt]
  split_ifs at h with hset
  · obtain ⟨rfl, -⟩ := Prod.mk.inj (Except.ok.inj h)
    exact ⟨fun hmarked => absurd hmarked Bool.false_ne_true, fun hnot => absurd hset hnot⟩
  · obtain ⟨rfl, -⟩ := Prod.mk.inj (Except.ok.inj h)
    exact ⟨fun _ => hset, fun _ => rfl⟩

end Calls

/-! ## Runs of calls -/

section Sweeps

variable {build : Build} {start lru next : LruState} {events : List Event} {i bit : ℕ}

theorem step_ok (build : Build) (h : lru.lruClearPointer.toNat < lruCacheSize) (e : Event) :
    ∃ next, step build lru e = .ok next ∧ next.lruClearPointer.toNat < lruCacheSize := by
  cases e with
  | mark hv =>
    obtain ⟨marked, next, hmark, hpointer⟩ := lru.markRecentlyAccessed_fileid hv
    exact ⟨next, by simp only [step, hmark, Except.map], hpointer ▸ h⟩
  | cycle => exact cycle_of_lt build h

/-- No call of a run panics and the pointer stays in the table. -/
theorem sweep_ok (build : Build) (h : start.lruClearPointer.toNat < lruCacheSize)
    (events : List Event) :
    ∃ lru, sweep build start events = .ok lru ∧ lru.lruClearPointer.toNat < lruCacheSize :=
  foldlM_succeeds (fun _ (lru : LruState) => lru.lruClearPointer.toNat < lruCacheSize)
    (fun _ e _ _ _ h => step_ok build h e) h

theorem sweep_append (hrun : sweep build start events = .ok lru) (more : List Event) :
    sweep build start (events ++ more) = sweep build lru more :=
  foldlM_append_ok hrun

theorem sweep_concat {e : Event} (hrun : sweep build start events = .ok lru)
    (hstep : step build lru e = .ok next) : sweep build start (events ++ [e]) = .ok next := by
  rw [sweep_append hrun, sweep, List.foldlM_cons, hstep]
  rfl

/-! ### The history of a bit -/

/-- A mark sets its own bit and does not touch the history of others. -/
theorem setSince_mark {hv : HVFile} : SetSince build start (events ++ [.mark hv]) i bit ↔
    SetSince build start events i bit ∨ mapsTo hv i bit := by
  constructor
  · rintro ⟨before, after, hevents, hset, hkept⟩
    rcases List.eq_nil_or_concat after with rfl | ⟨after, e, rfl⟩
    · rw [List.append_nil] at hevents
      rcases hset with ⟨hnil, -⟩ | ⟨front, hv', hbefore, hmap⟩
      · exact absurd (hevents.trans hnil) (by simp)
      · obtain ⟨-, heq⟩ := List.append_inj' (hevents.trans hbefore) rfl
        obtain rfl : hv = hv' := by simpa using heq
        exact .inr hmap
    · rw [List.concat_eq_append, ← List.append_assoc] at hevents
      obtain ⟨rfl, -⟩ := List.append_inj' hevents rfl
      refine .inl ⟨before, after, rfl, hset, fun front back lru hafter hrun => ?_⟩
      exact hkept front (back ++ [e]) lru (by rw [hafter]; simp) hrun
  · rintro (⟨before, after, rfl, hset, hkept⟩ | hmap)
    · refine ⟨before, after ++ [.mark hv], (List.append_assoc _ _ _), hset, ?_⟩
      intro front back lru hafter hrun
      rcases List.eq_nil_or_concat back with rfl | ⟨back, e, rfl⟩
      · obtain ⟨-, heq⟩ := List.append_inj' hafter rfl
        exact absurd heq (by simp)
      · rw [List.concat_eq_append, ← List.cons_append, ← List.append_assoc] at hafter
        obtain ⟨hafter, -⟩ := List.append_inj' hafter rfl
        exact hkept front back lru hafter hrun
    · exact ⟨events ++ [.mark hv], [], (List.append_nil _).symm, .inr ⟨events, hv, rfl, hmap⟩,
        fun _ _ _ hafter => absurd hafter (by simp)⟩

/-- A cycle ends the history of the words that it clears. -/
theorem setSince_cycle (hrun : sweep build start events = .ok lru) :
    SetSince build start (events ++ [.cycle]) i bit ↔
      SetSince build start events i bit ∧ ¬ Clears lru i := by
  constructor
  · rintro ⟨before, after, hevents, hset, hkept⟩
    rcases List.eq_nil_or_concat after with rfl | ⟨after, e, rfl⟩
    · rw [List.append_nil] at hevents
      rcases hset with ⟨hnil, -⟩ | ⟨front, hv, hbefore, -⟩
      · exact absurd (hevents.trans hnil) (by simp)
      · obtain ⟨-, heq⟩ := List.append_inj' (hevents.trans hbefore) rfl
        exact absurd heq (by simp)
    · rw [List.concat_eq_append, ← List.append_assoc] at hevents
      obtain ⟨rfl, he⟩ := List.append_inj' hevents rfl
      obtain rfl : Event.cycle = e := by simpa using he
      rw [List.concat_eq_append] at hkept
      refine ⟨⟨before, after, rfl, hset, fun front back lru' hafter hrun' => ?_⟩, ?_⟩
      · exact hkept front (back ++ [.cycle]) lru' (by rw [hafter]; simp) hrun'
      · exact hkept after [] lru rfl hrun
  · rintro ⟨⟨before, after, rfl, hset, hkept⟩, hnot⟩
    refine ⟨before, after ++ [.cycle], (List.append_assoc _ _ _), hset, ?_⟩
    intro front back lru' hafter hrun'
    rcases List.eq_nil_or_concat back with rfl | ⟨back, e, rfl⟩
    · obtain ⟨rfl, -⟩ := List.append_inj' hafter rfl
      obtain rfl := Except.ok.inj (hrun.symm.trans hrun')
      exact hnot
    · rw [List.concat_eq_append, ← List.cons_append, ← List.append_assoc] at hafter
      obtain ⟨hafter, -⟩ := List.append_inj' hafter rfl
      exact hkept front back lru' hafter hrun'

/-- A bit of the table is set exactly when its history says so. -/
theorem bitSet_iff_setSince (hstart : start.lruClearPointer.toNat < lruCacheSize) (hbit : bit < 16)
    (hrun : sweep build start events = .ok lru) :
    lru.bitSet i bit ↔ SetSince build start events i bit := by
  induction events using List.reverseRecOn generalizing lru with
  | nil =>
    obtain rfl := Except.ok.inj hrun
    constructor
    · exact fun hset => ⟨[], [], rfl, .inl ⟨rfl, hset⟩, fun _ _ _ hafter => absurd hafter (by simp)⟩
    · rintro ⟨before, after, hevents, hset, -⟩
      obtain ⟨rfl, rfl⟩ := List.append_eq_nil_iff.mp hevents.symm
      rcases hset with ⟨-, hset⟩ | ⟨front, hv, hbefore, -⟩
      · exact hset
      · exact absurd hbefore (by simp)
  | append_singleton events e ih =>
    obtain ⟨mid, hmid, hlt⟩ := sweep_ok build hstart events
    obtain ⟨next, hstep, -⟩ := step_ok build hlt e
    obtain rfl := Except.ok.inj ((sweep_concat hmid hstep).symm.trans hrun)
    cases e with
    | mark hv =>
      obtain ⟨marked, next', hmark, -⟩ := mid.markRecentlyAccessed_fileid hv
      simp only [step, hmark, Except.map] at hstep
      obtain rfl := Except.ok.inj hstep
      rw [bitSet_markRecentlyAccessed hmark hbit, ih hmid, setSince_mark]
    | cycle => rw [bitSet_cycle hlt hstep, ih hmid, setSince_cycle hmid]

/-! ### The words that are cleared -/

/-- How many cycles there are before the one that clears the word. -/
def cyclesUntil (p i : ℕ) : ℕ :=
  if p ≤ i then (i - p) / 17 else (lruCacheSize - p + 16) / 17 + i / 17

/-- The way to the end of the table and the way back to the word have one short step each. -/
theorem cyclesUntil_le {p : ℕ} (hp : p < lruCacheSize) (hi : i < lruCacheSize) :
    cyclesUntil p i ≤ 61681 := by
  have hsize : lruCacheSize = 1048576 := rfl
  unfold cyclesUntil
  split_ifs <;> omega

theorem cyclesUntil_nextPointer {p : ℕ} (hp : p < lruCacheSize) (hi : i < lruCacheSize)
    (hnot : ¬ (p ≤ i ∧ i < min (p + 17) lruCacheSize)) :
    cyclesUntil (nextPointer p) i + 1 = cyclesUntil p i := by
  have hsize : lruCacheSize = 1048576 := rfl
  unfold cyclesUntil nextPointer
  split_ifs <;> omega

/-- A run with more cycles than there are before the one for a word clears it. -/
theorem exists_clears (build : Build) (h : lru.lruClearPointer.toNat < lruCacheSize)
    (hi : i < lruCacheSize)
    (hcycles : cyclesUntil lru.lruClearPointer.toNat i < events.countP Event.isCycle) :
    ∃ front back swept, events = front ++ .cycle :: back ∧ sweep build lru front = .ok swept ∧
      Clears swept i := by
  induction events generalizing lru with
  | nil => cases hcycles
  | cons e events ih =>
    by_cases hhere : e = .cycle ∧ Clears lru i
    · obtain ⟨rfl, hclears⟩ := hhere
      exact ⟨[], events, lru, rfl, rfl, hclears⟩
    · obtain ⟨next, hstep, hlt⟩ := step_ok build h e
      have hleft : cyclesUntil next.lruClearPointer.toNat i < events.countP Event.isCycle := by
        cases e with
        | mark hv =>
          obtain ⟨marked, next', hmark, hpointer⟩ := lru.markRecentlyAccessed_fileid hv
          simp only [step, hmark, Except.map] at hstep
          obtain rfl := Except.ok.inj hstep
          rw [hpointer]
          exact hcycles
        | cycle =>
          have hback := cyclesUntil_nextPointer h hi fun hclears => hhere ⟨rfl, hclears⟩
          rw [pointer_cycle h hstep]
          simp only [List.countP_cons, Event.isCycle, if_true] at hcycles
          omega
      obtain ⟨front, back, swept, hevents, hrun, hclears⟩ := ih hlt hleft
      refine ⟨e :: front, back, swept, by rw [hevents, List.cons_append], ?_, hclears⟩
      rw [sweep, List.foldlM_cons, hstep]
      exact hrun

theorem card_clears_le (lru : LruState) :
    ((Finset.range lruCacheSize).filter (Clears lru)).card ≤ 17 := by
  have hsubset : (Finset.range lruCacheSize).filter (Clears lru) ⊆
      Finset.Ico lru.lruClearPointer.toNat (lru.lruClearPointer.toNat + 17) := by
    intro i hi
    obtain ⟨-, hlow, hhigh⟩ := Finset.mem_filter.mp hi
    exact Finset.mem_Ico.mpr ⟨hlow, by omega⟩
  calc ((Finset.range lruCacheSize).filter (Clears lru)).card
      ≤ (Finset.Ico lru.lruClearPointer.toNat (lru.lruClearPointer.toNat + 17)).card :=
        Finset.card_le_card hsubset
    _ = 17 := by rw [Nat.card_Ico]; omega

/-! ### The sweep -/

/-- Marks and cycles in any order, from any pointer in the table. No call panics; a mark is true
exactly when its bit was not set since its word was last cleared, and sets only that bit; a cycle
clears at most seventeen words; and 61682 cycles, whatever marks are between them, clear every
word. -/
theorem lru_table_swept (build : Build) (start : LruState)
    (hstart : start.lruClearPointer.toNat < lruCacheSize) (events : List Event) :
    ∃ lru, sweep build start events = .ok lru ∧ lru.lruClearPointer.toNat < lruCacheSize ∧
      (∀ hv : HVFile, ∃ marked next i bit, lru.markRecentlyAccessed hv.fileid = .ok (marked, next) ∧
        i < lruCacheSize ∧ bit < 16 ∧ mapsTo hv i bit ∧
        (marked = true ↔ ¬ SetSince build start events i bit) ∧ next.bitSet i bit ∧
        ∀ i' bit', bit' < 16 → (i', bit') ≠ (i, bit) → (next.bitSet i' bit' ↔ lru.bitSet i' bit')) ∧
      (∃ next, lru.cycle build = .ok next ∧
        (∀ i, next.lruCacheTable.getD i 0 = if Clears lru i then 0 else lru.lruCacheTable.getD i 0) ∧
        ((Finset.range lruCacheSize).filter (Clears lru)).card ≤ 17) ∧
      ∀ later : List Event, 61682 ≤ later.countP Event.isCycle → ∀ i < lruCacheSize,
        ∃ front back swept, later = front ++ .cycle :: back ∧
          sweep build start (events ++ front) = .ok swept ∧ Clears swept i := by
  obtain ⟨lru, hrun, hlt⟩ := sweep_ok build hstart events
  refine ⟨lru, hrun, hlt, fun hv => ?_, ?_, fun later hcycles i hi => ?_⟩
  · obtain ⟨marked, next, hmark, -⟩ := lru.markRecentlyAccessed_fileid hv
    obtain ⟨i, bit, hbit, hmap⟩ := exists_mapsTo hv
    refine ⟨marked, next, i, bit, hmark, slot_fileid_lt hmap, hbit, hmap, ?_, ?_, ?_⟩
    · rw [marked_iff hmap hmark, bitSet_iff_setSince hstart hbit hrun]
    · exact (bitSet_markRecentlyAccessed hmark hbit).mpr (.inr hmap)
    · intro i' bit' hbit' hne
      rw [bitSet_markRecentlyAccessed hmark hbit', mapsTo_iff hmap hbit hbit']
      refine or_iff_left ?_
      rintro ⟨rfl, rfl⟩
      exact hne rfl
  · obtain ⟨next, hcycle, -⟩ := cycle_of_lt build hlt
    exact ⟨next, hcycle, getD_cycle hlt hcycle, card_clears_le lru⟩
  · have hbound := cyclesUntil_le hlt hi
    obtain ⟨front, back, swept, hlater, hfront, hclears⟩ :=
      exists_clears build hlt hi (by omega : _ < later.countP Event.isCycle)
    exact ⟨front, back, swept, hlater, by rw [sweep_append hrun, hfront], hclears⟩

/-- A file that is marked twice in an empty table. -/
theorem sampleFile_marked_once :
    LruState.new.lruClearPointer.toNat < lruCacheSize ∧
      ∃ lru next, sweep .debug .new [.mark sampleFile] = .ok lru ∧
        lru.markRecentlyAccessed sampleFile.fileid = .ok (false, next) := by
  have hstart : LruState.new.lruClearPointer.toNat < lruCacheSize := by decide
  obtain ⟨lru, hrun, -, hmarks, -⟩ := lru_table_swept .debug .new hstart [.mark sampleFile]
  obtain ⟨marked, next, i, bit, hmark, -, -, hmap, hiff, -⟩ := hmarks sampleFile
  have hset : SetSince .debug .new [.mark sampleFile] i bit :=
    ⟨[.mark sampleFile], [], rfl, .inr ⟨[], sampleFile, rfl, hmap⟩,
      fun _ _ _ hafter => absurd hafter (by simp)⟩
  have hfalse : marked = false := Bool.eq_false_iff.mpr fun htrue => hiff.mp htrue hset
  exact ⟨hstart, lru, next, hrun, hfalse ▸ hmark⟩

end Sweeps

end HathRs.LruSweep
