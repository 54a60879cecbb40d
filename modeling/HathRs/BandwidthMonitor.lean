import HathRs.MachineArithmetic
import HathRs.TransitionRuns

/-!
# The bandwidth monitor: how much is sent in a second and in six ticks

A second has fifty ticks of twenty milliseconds. A ring of fifty slots holds the bytes that were
granted in a tick together with the second they belong to, and nothing else invalidates a
slot. A caller tries again until its bytes are granted.
-/

namespace HathRs.BandwidthMonitor
open MachineArithmetic TransitionRuns

/-! ## The monitor -/

def checkedU32 (build : Build) (exact : ℕ) : Except Panic ℕ :=
  if exact < 2 ^ 32 ∨ build = .release then .ok (exact % 2 ^ 32) else .error .overflow

/-- `BwmInner` -/
structure Inner where
  tickBytes : Fin 50 → ℕ
  tickSeconds : Fin 50 → ℕ

def Inner.new : Inner := ⟨fun _ => 0, fun _ => 0⟩

/-- The bytes of a tick: a fiftieth of the throttle, rounded up. -/
def bytesPerTick (throttleBytesPerSec : ℕ) : ℕ := (throttleBytesPerSec + 49) / 50

structure Sums where
  thisTick : ℕ
  lastWindow : ℕ
  lastSecond : ℕ
  deriving DecidableEq

/-- `wrapping_sub(1)` on 64 bits -/
def wrappingPred (n : ℕ) : ℕ := if n = 0 then 2 ^ 64 - 1 else n - 1

/-- One turn of the loop over the last fifty ticks. -/
def addTick (build : Build) (inner : Inner) (epochSeconds currentTick : ℕ) (sums : Sums)
    (offset : ℕ) : Except Panic Sums :=
  let tickCounter : ℤ := currentTick - 50 + 1 + offset
  let tickIndex : Fin 50 :=
    Fin.ofNat 50 (if tickCounter < 0 then 50 + tickCounter else tickCounter).toNat
  let validSecond := if tickCounter < 0 then wrappingPred epochSeconds else epochSeconds
  if inner.tickSeconds tickIndex = validSecond then
    if tickCounter = currentTick then do
      let thisTick ← checkedU32 build (sums.thisTick + inner.tickBytes tickIndex)
      return { sums with thisTick }
    else do
      let lastWindow ←
        if currentTick - 5 ≤ tickCounter then
          checkedU32 build (sums.lastWindow + inner.tickBytes tickIndex)
        else pure sums.lastWindow
      let lastSecond ← checkedU32 build (sums.lastSecond + inner.tickBytes tickIndex)
      return { sums with lastWindow, lastSecond }
  else return sums

/-- The comparisons with one and a tenth of a tick, with five ticks and a twentieth more, and with
fifty ticks. -/
def exceeded (build : Build) (bytesPerTick : ℕ) (sums : Sums) : Except Panic Bool :=
  if 11 * bytesPerTick < 10 * sums.thisTick ∨ 105 * 5 * bytesPerTick < 100 * sums.lastWindow then
    .ok true
  else do
    let limit ← checkedU32 build (bytesPerTick * 50)
    return limit < sums.lastSecond

def grant (inner : Inner) (epochSeconds : ℕ) (currentTick : Fin 50) (byteCount : ℕ) : Inner :=
  let inner :=
    if inner.tickSeconds currentTick ≠ epochSeconds then
      ⟨Function.update inner.tickBytes currentTick 0,
        Function.update inner.tickSeconds currentTick epochSeconds⟩
    else inner
  { inner with
    tickBytes := Function.update inner.tickBytes currentTick
      ((inner.tickBytes currentTick + byteCount) % 2 ^ 32) }

/-- One turn of the loop of `wait_for_quota` under the lock, with the clock at `nowMillis`: the
bytes are granted or the caller sleeps. -/
def tryQuota (build : Build) (bytesPerTick : ℕ) (inner : Inner) (byteCount nowMillis : ℕ) :
    Except Panic (Option Inner) := do
  let byteCount := byteCount % 2 ^ 32
  let epochSeconds := nowMillis / 1000
  let currentTick := (nowMillis - epochSeconds * 1000) / 20
  let sums ← (List.range 50).foldlM (addTick build inner epochSeconds currentTick) ⟨0, 0, 0⟩
  if ← exceeded build bytesPerTick sums then return none
  else return some (grant inner epochSeconds (Fin.ofNat 50 currentTick) byteCount)

/-! ## Runs -/

structure Grant where
  time : ℕ
  bytes : ℕ

def Grant.tick (g : Grant) : ℕ := g.time / 20

/-- The bytes granted in `n` ticks from the tick `t` on. -/
def grantedIn (log : List Grant) (t : ℤ) (n : ℕ) : ℕ :=
  (log.map fun g => if t ≤ g.tick ∧ g.tick < t + n then g.bytes else 0).sum

/-- The slots, the last clock reading and the grants so far. -/
structure State where
  clock : ℕ
  inner : Inner
  log : List Grant

def State.initial : State := ⟨0, Inner.new, []⟩

/-- One of the calls takes a turn. -/
structure Turn where
  byteCount : ℕ
  now : ℕ

/-- The wall clock does not go back. Nothing happens after a panic. -/
def step (build : Build) (bytesPerTick : ℕ) (s : State) (turn : Turn) : Option State :=
  if s.clock ≤ turn.now then
    match tryQuota build bytesPerTick s.inner turn.byteCount turn.now with
    | .error _ => none
    | .ok none => some { s with clock := turn.now }
    | .ok (some inner) => some ⟨turn.now, inner, ⟨turn.now, turn.byteCount⟩ :: s.log⟩
  else none

/-! ## Bytes in a window of ticks -/

section Windows

variable {log : List Grant}

theorem grantedIn_cons (g : Grant) (log : List Grant) (t : ℤ) (n : ℕ) :
    grantedIn (g :: log) t n =
      (if t ≤ g.tick ∧ g.tick < t + n then g.bytes else 0) + grantedIn log t n := rfl

@[simp] theorem grantedIn_zero (log : List Grant) (t : ℤ) : grantedIn log t 0 = 0 := by
  induction log with
  | nil => rfl
  | cons g log ih =>
    rw [grantedIn_cons, ih, if_neg]
    omega

theorem grantedIn_add (log : List Grant) (t : ℤ) (m n : ℕ) :
    grantedIn log t (m + n) = grantedIn log t m + grantedIn log (t + m) n := by
  induction log with
  | nil => rfl
  | cons g log ih =>
    rw [grantedIn_cons, grantedIn_cons, grantedIn_cons, ih]
    push_cast
    split_ifs <;> omega

theorem grantedIn_succ {t last : ℤ} {n : ℕ} (h : t + n = last) :
    grantedIn log t (n + 1) = grantedIn log t n + grantedIn log last 1 := by
  rw [grantedIn_add, h]

theorem grantedIn_mono {t t' : ℤ} {n n' : ℕ}
    (h : ∀ g ∈ log, t ≤ g.tick ∧ g.tick < t + n → t' ≤ g.tick ∧ g.tick < t' + n') :
    grantedIn log t n ≤ grantedIn log t' n' := by
  induction log with
  | nil => exact le_rfl
  | cons g log ih =>
    have hrest := ih fun g' hg' => h g' (List.mem_cons_of_mem _ hg')
    have hfirst := h g List.mem_cons_self
    rw [grantedIn_cons, grantedIn_cons]
    split_ifs with hin hin' hin'
    · omega
    · exact absurd (hfirst hin) hin'
    · omega
    · omega

theorem grantedIn_eq_zero {t : ℤ} {n : ℕ} (h : ∀ g ∈ log, ¬ (t ≤ g.tick ∧ g.tick < t + n)) :
    grantedIn log t n = 0 := by
  have hle : grantedIn log t n ≤ grantedIn log t 0 :=
    grantedIn_mono fun g hg hin => absurd hin (h g hg)
  rwa [grantedIn_zero, Nat.le_zero] at hle

end Windows

/-! ## Slots -/

/-- A slot holds what was granted in the tick of its second, and nothing was granted in the same
tick of a later second. A slot that was never written is at second zero. -/
structure SlotInv (clock : ℕ) (log : List Grant) (inner : Inner) : Prop where
  stored : ∀ i, 50 * inner.tickSeconds i + i ≤ clock / 20 ∨ inner.tickSeconds i = 0
  bytes : ∀ i : Fin 50, inner.tickBytes i =
    grantedIn log ((50 * inner.tickSeconds i + i : ℕ) : ℤ) 1
  newer : ∀ (i : Fin 50) second, inner.tickSeconds i < second →
    grantedIn log ((50 * second + i : ℕ) : ℤ) 1 = 0

theorem slotInv_new (clock : ℕ) : SlotInv clock [] Inner.new where
  stored _ := .inr rfl
  bytes _ := rfl
  newer _ _ _ := rfl

section Slots

variable {clock now : ℕ} {log : List Grant} {inner : Inner}

theorem tick_eq (now : ℕ) : now / 20 = 50 * (now / 1000) + (now - now / 1000 * 1000) / 20 := by
  omega

theorem tick_eq_ofNat (now : ℕ) :
    now / 20 = 50 * (now / 1000) + (Fin.ofNat 50 ((now - now / 1000 * 1000) / 20) : ℕ) := by
  rw [Fin.val_ofNat]
  omega

theorem currentTick_lt (now : ℕ) : (now - now / 1000 * 1000) / 20 < 50 := by
  omega

/-- The slot of a tick of the present second. -/
theorem SlotInv.present (h : SlotInv clock log inner) {second : ℕ} {i : Fin 50}
    (hclock : clock / 20 < 50 * (second + 1)) :
    (if inner.tickSeconds i = second then inner.tickBytes i else 0) =
      grantedIn log ((50 * second + i : ℕ) : ℤ) 1 := by
  split_ifs with hsecond
  · rw [h.bytes, hsecond]
  · have hlt : inner.tickSeconds i < second := by
      rcases h.stored i with hstored | hzero <;> omega
    exact (h.newer i second hlt).symm

/-- The slot of a later tick of the second before. -/
theorem SlotInv.previous (h : SlotInv clock log inner) {second : ℕ} {i : Fin 50}
    (hclock : clock / 20 < 50 * second + i) :
    (if inner.tickSeconds i = wrappingPred second then inner.tickBytes i else 0) =
      grantedIn log (50 * second - 50 + i) 1 := by
  cases second with
  | zero =>
    rw [if_neg, grantedIn_eq_zero]
    · intro g _ hin
      have hi := i.isLt
      push_cast at hin
      omega
    · intro hsecond
      rw [wrappingPred, if_pos rfl] at hsecond
      rcases h.stored i with hstored | hzero
      · omega
      · rw [hzero] at hsecond
        exact absurd hsecond (by decide)
  | succ second =>
    have hpred : wrappingPred (second + 1) = second := rfl
    have hcast : (50 * (second + 1 : ℕ) - 50 + i : ℤ) = ((50 * second + i : ℕ) : ℤ) := by
      push_cast
      ring
    rw [hpred, hcast]
    split_ifs with hsecond
    · rw [h.bytes, hsecond]
    · have hlt : inner.tickSeconds i < second := by
        rcases h.stored i with hstored | hzero <;> omega
      exact (h.newer i second hlt).symm

theorem checkedU32_of_lt (build : Build) {n : ℕ} (h : n < 2 ^ 32) : checkedU32 build n = .ok n := by
  rw [checkedU32, if_pos (.inl h), Nat.mod_eq_of_lt h]

/-- The slot that the loop looks at has the bytes of its tick. -/
theorem SlotInv.slot (h : SlotInv clock log inner) (hnow : clock ≤ now) {second tick offset : ℕ}
    (hsecond : now / 20 = 50 * second + tick) (htick : tick < 50) (hoffset : offset < 50) :
    let tickCounter : ℤ := tick - 50 + 1 + offset
    let tickIndex : Fin 50 :=
      Fin.ofNat 50 (if tickCounter < 0 then 50 + tickCounter else tickCounter).toNat
    (if inner.tickSeconds tickIndex = (if tickCounter < 0 then wrappingPred second else second) then
      inner.tickBytes tickIndex else 0) = grantedIn log ((now / 20 : ℕ) - 49 + offset) 1 := by
  have hclock : clock / 20 ≤ now / 20 := Nat.div_le_div_right hnow
  intro tickCounter tickIndex
  by_cases hneg : tickCounter < 0
  · have hindex : (tickIndex : ℕ) = tick + 1 + offset := by
      simp only [tickIndex, Fin.val_ofNat, if_pos hneg, tickCounter]
      omega
    rw [if_pos hneg, h.previous (by omega), hindex]
    congr 1
    push_cast
    omega
  · have hindex : (tickIndex : ℕ) + 49 = tick + offset := by
      simp only [tickIndex, Fin.val_ofNat, if_neg hneg, tickCounter]
      omega
    rw [if_neg hneg, h.present (by omega)]
    congr 1
    push_cast
    omega

/-- What a turn of the loop adds. -/
def Sums.add (sums : Sums) (offset bytes : ℕ) : Sums :=
  if offset = 49 then { sums with thisTick := sums.thisTick + bytes }
  else
    { sums with
      lastWindow := sums.lastWindow + (if 44 ≤ offset then bytes else 0)
      lastSecond := sums.lastSecond + bytes }

theorem addTick_eq (build : Build) (h : SlotInv clock log inner) (hnow : clock ≤ now)
    {second tick offset : ℕ} (hsecond : now / 20 = 50 * second + tick) (htick : tick < 50)
    (hoffset : offset < 50) {sums : Sums} {bytes : ℕ}
    (hbytes : grantedIn log ((now / 20 : ℕ) - 49 + offset) 1 = bytes)
    (hthis : sums.thisTick + bytes < 2 ^ 32) (hwindow : sums.lastWindow + bytes < 2 ^ 32)
    (hlast : sums.lastSecond + bytes < 2 ^ 32) :
    addTick build inner second tick sums offset = .ok (sums.add offset bytes) := by
  have hslot := h.slot hnow hsecond htick hoffset
  rw [hbytes] at hslot
  simp only [addTick]
  simp only at hslot
  have hthisTick : (tick : ℤ) - 50 + 1 + offset = tick ↔ offset = 49 := by omega
  have hinWindow : (tick : ℤ) - 5 ≤ tick - 50 + 1 + offset ↔ 44 ≤ offset := by omega
  generalize Fin.ofNat 50 (if (tick : ℤ) - 50 + 1 + offset < 0 then 50 + ((tick : ℤ) - 50 + 1 + offset)
    else (tick : ℤ) - 50 + 1 + offset).toNat = index at hslot ⊢
  generalize (if (tick : ℤ) - 50 + 1 + offset < 0 then wrappingPred second else second) = valid
    at hslot ⊢
  simp only [hthisTick, hinWindow]
  by_cases hvalid : inner.tickSeconds index = valid
  · rw [if_pos hvalid] at hslot
    rw [if_pos hvalid, hslot, checkedU32_of_lt build hthis, checkedU32_of_lt build hlast,
      checkedU32_of_lt build hwindow, Sums.add]
    split_ifs <;> rfl
  · rw [if_neg hvalid] at hslot
    rw [if_neg hvalid, ← hslot, Sums.add]
    split_ifs <;> rfl

/-- The sums after the first `k` turns. -/
def sumsAfter (log : List Grant) (t : ℤ) (k : ℕ) : Sums :=
  ⟨grantedIn log t (k - 49), grantedIn log (t - 5) (min (k - 44) 5), grantedIn log (t - 49) (min k 49)⟩

theorem sumsAfter_succ (log : List Grant) (t : ℤ) {k : ℕ} (hk : k < 50) :
    sumsAfter log t (k + 1) = (sumsAfter log t k).add k (grantedIn log (t - 49 + k) 1) := by
  have hsecond : k < 49 → grantedIn log (t - 49) (k + 1) =
      grantedIn log (t - 49) k + grantedIn log (t - 49 + k) 1 := fun _ => grantedIn_add _ _ _ _
  have hwindow : 44 ≤ k → grantedIn log (t - 5) (k - 44 + 1) =
      grantedIn log (t - 5) (k - 44) + grantedIn log (t - 49 + k) 1 := by
    intro hk
    rw [grantedIn_add]
    congr 2
    omega
  unfold Sums.add
  split_ifs with hlast hin
  · subst hlast
    simp [sumsAfter]
  · have h1 : k + 1 - 49 = k - 49 := by omega
    have h2 : min (k + 1 - 44) 5 = k - 44 + 1 := by omega
    have h3 : min (k - 44) 5 = k - 44 := by omega
    have h4 : min (k + 1) 49 = k + 1 := by omega
    have h5 : min k 49 = k := by omega
    simp only [sumsAfter, h1, h2, h3, h4, h5, hsecond (by omega), hwindow hin]
  · have h1 : k + 1 - 49 = k - 49 := by omega
    have h2 : k + 1 - 44 = k - 44 := by omega
    have h4 : min (k + 1) 49 = k + 1 := by omega
    have h5 : min k 49 = k := by omega
    simp only [sumsAfter, h1, h2, h4, h5, hsecond (by omega), add_zero]

/-- All sums of the loop are parts of the bytes of the last fifty ticks. -/
theorem sumsAfter_add_le (log : List Grant) (t : ℤ) {k : ℕ} (hk : k < 50) :
    (sumsAfter log t k).thisTick + grantedIn log (t - 49 + k) 1 ≤ grantedIn log (t - 49) 50 ∧
      (sumsAfter log t k).lastWindow + grantedIn log (t - 49 + k) 1 ≤ grantedIn log (t - 49) 50 ∧
      (sumsAfter log t k).lastSecond + grantedIn log (t - 49 + k) 1 ≤ grantedIn log (t - 49) 50 := by
  have hsplit : grantedIn log (t - 49) 50 = grantedIn log (t - 49) k +
      (grantedIn log (t - 49 + k) 1 + grantedIn log (t - 49 + k + 1) (49 - k)) := by
    have hlen : 50 = k + (1 + (49 - k)) := by omega
    rw [hlen, grantedIn_add, grantedIn_add]
    congr 3
  refine ⟨?_, ?_, ?_⟩
  · have hzero : k - 49 = 0 := by omega
    simp only [sumsAfter, hzero, grantedIn_zero]
    omega
  · have hle : grantedIn log (t - 5) (min (k - 44) 5) ≤ grantedIn log (t - 49) k :=
      grantedIn_mono fun g _ hin => by omega
    simp only [sumsAfter]
    omega
  · have hmin : min k 49 = k := by omega
    simp only [sumsAfter, hmin]
    omega

theorem scan_eq (build : Build) (h : SlotInv clock log inner) (hnow : clock ≤ now)
    {second tick : ℕ} (hsecond : now / 20 = 50 * second + tick) (htick : tick < 50)
    (htotal : grantedIn log ((now / 20 : ℕ) - 49) 50 < 2 ^ 32) {k : ℕ} (hk : k ≤ 50) :
    (List.range k).foldlM (addTick build inner second tick) ⟨0, 0, 0⟩ =
      .ok (sumsAfter log (now / 20 : ℕ) k) := by
  induction k with
  | zero => simp [sumsAfter, pure, Except.pure]
  | succ k ih =>
    obtain ⟨hthis, hwindow, hlast⟩ := sumsAfter_add_le log (now / 20 : ℕ) (by omega : k < 50)
    rw [List.range_succ, List.foldlM_append, ih (by omega)]
    simp only [bind, Except.bind, List.foldlM_cons, List.foldlM_nil, pure, Except.pure]
    rw [addTick_eq build h hnow hsecond htick (by omega) rfl (by omega) (by omega) (by omega),
      sumsAfter_succ _ _ (by omega)]

/-- A turn either changes nothing or grants within the three limits, and no build stops. -/
theorem tryQuota_cases (build : Build) {bytesPerTick byteCount : ℕ} (h : SlotInv clock log inner)
    (hnow : clock ≤ now) (htotal : grantedIn log ((now / 20 : ℕ) - 49) 50 < 2 ^ 32)
    (hlimit : bytesPerTick * 50 < 2 ^ 32) (hcount : byteCount < 2 ^ 32) :
    tryQuota build bytesPerTick inner byteCount now = .ok none ∨
      tryQuota build bytesPerTick inner byteCount now =
          .ok (some (grant inner (now / 1000) (Fin.ofNat 50 ((now - now / 1000 * 1000) / 20)) byteCount)) ∧
        10 * grantedIn log (now / 20 : ℕ) 1 ≤ 11 * bytesPerTick ∧
        100 * grantedIn log ((now / 20 : ℕ) - 5) 5 ≤ 525 * bytesPerTick ∧
        grantedIn log ((now / 20 : ℕ) - 49) 49 ≤ 50 * bytesPerTick := by
  have hscan := scan_eq build h hnow (tick_eq now) (currentTick_lt now) htotal le_rfl
  have hsums : sumsAfter log (now / 20 : ℕ) 50 = ⟨grantedIn log (now / 20 : ℕ) 1,
      grantedIn log ((now / 20 : ℕ) - 5) 5, grantedIn log ((now / 20 : ℕ) - 49) 49⟩ := rfl
  simp only [tryQuota, hscan, hsums, bind, Except.bind, exceeded, Nat.mod_eq_of_lt hcount,
    checkedU32_of_lt build hlimit, pure, Except.pure]
  split_ifs with hover
  · exact .inl rfl
  · by_cases hsecond : bytesPerTick * 50 < grantedIn log ((now / 20 : ℕ) - 49) 49
    · left
      simp only [decide_eq_true hsecond, if_true]
    · right
      simp only [decide_eq_false hsecond, Bool.false_eq_true, if_false, true_and]
      omega

theorem SlotInv.advance (h : SlotInv clock log inner) (hnow : clock ≤ now) :
    SlotInv now log inner where
  stored i := (h.stored i).imp_left fun hle => hle.trans (Nat.div_le_div_right hnow)
  bytes := h.bytes
  newer := h.newer

/-- Grants in other ticks do not count. -/
theorem grantedIn_cons_of_ne {g : Grant} {t : ℤ} (ht : t ≠ g.tick) :
    grantedIn (g :: log) t 1 = grantedIn log t 1 := by
  rw [grantedIn_cons, if_neg (by omega), Nat.zero_add]

theorem grantedIn_cons_self (g : Grant) (log : List Grant) :
    grantedIn (g :: log) g.tick 1 = g.bytes + grantedIn log g.tick 1 := by
  rw [grantedIn_cons, if_pos (by omega)]

theorem grant_tickSeconds (inner : Inner) (second : ℕ) (tick : Fin 50) (byteCount : ℕ) :
    (grant inner second tick byteCount).tickSeconds = Function.update inner.tickSeconds tick second := by
  simp only [grant]
  split_ifs with hsecond
  · rfl
  · rw [not_ne_iff.mp hsecond |>.symm, Function.update_eq_self]

/-- A stale slot is emptied before it is used again. -/
theorem grant_tickBytes (inner : Inner) (second : ℕ) (tick : Fin 50) (byteCount : ℕ) :
    (grant inner second tick byteCount).tickBytes = Function.update inner.tickBytes tick
      (((if inner.tickSeconds tick = second then inner.tickBytes tick else 0) + byteCount) % 2 ^ 32) := by
  simp only [grant]
  split_ifs with hsecond <;> simp_all

theorem SlotInv.grant (h : SlotInv clock log inner) (hnow : clock ≤ now) {second byteCount : ℕ}
    {tick : Fin 50} (hsecond : now / 20 = 50 * second + tick)
    (hfits : grantedIn log (now / 20 : ℕ) 1 + byteCount < 2 ^ 32) :
    SlotInv now (⟨now, byteCount⟩ :: log) (grant inner second tick byteCount) := by
  have hclock : clock / 20 ≤ now / 20 := Nat.div_le_div_right hnow
  have htick := tick.isLt
  have hslot : (if inner.tickSeconds tick = second then inner.tickBytes tick else 0) =
      grantedIn log ((50 * second + tick : ℕ) : ℤ) 1 := h.present (by omega)
  rw [← hsecond] at hslot
  refine ⟨fun i => ?_, fun i => ?_, fun i later hlater => ?_⟩
  · rw [grant_tickSeconds]
    by_cases hi : i = tick
    · subst hi
      rw [Function.update_self]
      exact .inl hsecond.symm.le
    · rw [Function.update_of_ne hi]
      exact (h.stored i).imp_left fun hle => hle.trans hclock
  · rw [grant_tickSeconds, grant_tickBytes]
    by_cases hi : i = tick
    · subst hi
      rw [Function.update_self, Function.update_self, hslot, Nat.mod_eq_of_lt hfits, ← hsecond,
        Nat.add_comm]
      exact (grantedIn_cons_self ⟨now, byteCount⟩ log).symm
    · rw [Function.update_of_ne hi, Function.update_of_ne hi, h.bytes, grantedIn_cons_of_ne]
      have hival : (i : ℕ) ≠ tick := fun heq => hi (Fin.ext heq)
      have hilt := i.isLt
      simp only [Grant.tick]
      omega
  · rw [grant_tickSeconds] at hlater
    have hne : ((50 * later + i : ℕ) : ℤ) ≠ (Grant.tick ⟨now, byteCount⟩ : ℕ) →
        inner.tickSeconds i < later →
        grantedIn (⟨now, byteCount⟩ :: log) ((50 * later + i : ℕ) : ℤ) 1 = 0 := fun hne hlt => by
      rw [grantedIn_cons_of_ne hne]
      exact h.newer i later hlt
    by_cases hi : i = tick
    · subst hi
      rw [Function.update_self] at hlater
      refine hne ?_ ?_
      · simp only [Grant.tick]
        omega
      · rcases h.stored i with hstored | hzero <;> omega
    · rw [Function.update_of_ne hi] at hlater
      refine hne ?_ hlater
      have hival : (i : ℕ) ≠ tick := fun heq => hi (Fin.ext heq)
      have hilt := i.isLt
      simp only [Grant.tick]
      omega

end Slots

/-! ## Bounds in every run -/

section Bounds

variable {bytesPerTick maxChunk : ℕ}

structure Inv (bytesPerTick maxChunk : ℕ) (s : State) : Prop where
  slots : SlotInv s.clock s.log s.inner
  time_le : ∀ g ∈ s.log, g.time ≤ s.clock
  second : ∀ t, 10 * grantedIn s.log t 50 ≤ 511 * bytesPerTick + 10 * maxChunk
  window : ∀ t, 20 * grantedIn s.log t 6 ≤ 127 * bytesPerTick + 20 * maxChunk

theorem inv_initial : Inv bytesPerTick maxChunk State.initial where
  slots := slotInv_new 0
  time_le := nofun
  second _ := Nat.zero_le _
  window _ := Nat.zero_le _

/-- A window in which the newest grant lies has at most what the ticks up to it have. -/
theorem grantedIn_cons_le {log : List Grant} {now bytes n bound : ℕ} {start : ℤ}
    (htime : ∀ g ∈ log, g.time ≤ now) (hstart : start + n = (now / 20 : ℕ) + 1)
    (hlast : grantedIn log start n + bytes ≤ bound) (hold : ∀ t, grantedIn log t n ≤ bound) (t : ℤ) :
    grantedIn (⟨now, bytes⟩ :: log) t n ≤ bound := by
  rw [grantedIn_cons]
  split_ifs with hin
  · have hle : grantedIn log t n ≤ grantedIn log start n := by
      refine grantedIn_mono fun g hg hgin => ?_
      have htick : g.tick ≤ now / 20 := Nat.div_le_div_right (htime g hg)
      simp only [Grant.tick] at hin
      omega
    change bytes + _ ≤ bound
    omega
  · rw [Nat.zero_add]
    exact hold t

theorem Inv.second_lt {s : State} (h : Inv bytesPerTick maxChunk s)
    (hthrottle : bytesPerTick ≤ 42949673) (hmax : maxChunk ≤ 2 ^ 20) (t : ℤ) :
    grantedIn s.log t 50 < 2 ^ 32 := by
  have hsecond := h.second t
  omega

theorem Inv.step {s next : State} (h : Inv bytesPerTick maxChunk s) (build : Build)
    (hthrottle : bytesPerTick ≤ 42949673) (hmax : maxChunk ≤ 2 ^ 20) {turn : Turn}
    (hcount : turn.byteCount ≤ maxChunk) (hstep : step build bytesPerTick s turn = some next) :
    Inv bytesPerTick maxChunk next := by
  simp only [BandwidthMonitor.step] at hstep
  split_ifs at hstep with hclock
  have htime : ∀ g ∈ s.log, g.time ≤ turn.now := fun g hg => (h.time_le g hg).trans hclock
  rcases tryQuota_cases build h.slots hclock (h.second_lt hthrottle hmax _)
      (by omega : bytesPerTick * 50 < 2 ^ 32) (by omega : turn.byteCount < 2 ^ 32) with
    hquota | ⟨hquota, hthis, hwindow, hsecond⟩
  · rw [hquota] at hstep
    cases hstep
    exact ⟨h.slots.advance hclock, htime, h.second, h.window⟩
  · rw [hquota] at hstep
    cases hstep
    have hlastSecond : grantedIn s.log ((turn.now / 20 : ℕ) - 49) 50 =
        grantedIn s.log ((turn.now / 20 : ℕ) - 49) 49 + grantedIn s.log (turn.now / 20 : ℕ) 1 :=
      grantedIn_succ (by omega)
    have hlastWindow : grantedIn s.log ((turn.now / 20 : ℕ) - 5) 6 =
        grantedIn s.log ((turn.now / 20 : ℕ) - 5) 5 + grantedIn s.log (turn.now / 20 : ℕ) 1 :=
      grantedIn_succ (by omega)
    refine ⟨h.slots.grant hclock (tick_eq_ofNat turn.now) (by omega), ?_, fun t => ?_, fun t => ?_⟩
    · intro g hg
      rcases List.mem_cons.mp hg with rfl | hg
      · exact le_rfl
      · exact htime g hg
    · have hlast : grantedIn s.log ((turn.now / 20 : ℕ) - 49) 50 + turn.byteCount ≤
          (511 * bytesPerTick + 10 * maxChunk) / 10 := by omega
      have hold : ∀ t, grantedIn s.log t 50 ≤ (511 * bytesPerTick + 10 * maxChunk) / 10 := by
        intro t
        have := h.second t
        omega
      have hle := grantedIn_cons_le htime (by omega) hlast hold t
      simp only
      omega
    · have hlast : grantedIn s.log ((turn.now / 20 : ℕ) - 5) 6 + turn.byteCount ≤
          (127 * bytesPerTick + 20 * maxChunk) / 20 := by omega
      have hold : ∀ t, grantedIn s.log t 6 ≤ (127 * bytesPerTick + 20 * maxChunk) / 20 := by
        intro t
        have := h.window t
        omega
      have hle := grantedIn_cons_le htime (by omega) hlast hold t
      simp only
      omega

end Bounds

/-- With a throttle of at most `2^31` bytes and chunks of at most `maxChunk` bytes no turn of any call
stops the monitor, and what is granted in fifty and in six ticks is bounded, whatever the
turns of the calls and the times between them. -/
theorem granted_bytes_bounded (build : Build) {throttle maxChunk : ℕ} (hthrottle : throttle ≤ 2 ^ 31)
    (hmax : maxChunk ≤ 2 ^ 20) {turns : List Turn} (hturns : ∀ turn ∈ turns, turn.byteCount ≤ maxChunk)
    {s : State} (hrun : run (step build (bytesPerTick throttle)) State.initial turns = some s) :
    (∀ byteCount now, byteCount ≤ maxChunk → s.clock ≤ now →
        ∃ granted, tryQuota build (bytesPerTick throttle) s.inner byteCount now = .ok granted) ∧
      (∀ t : ℤ, (grantedIn s.log t 50 : ℚ) ≤ 51.1 * bytesPerTick throttle + maxChunk) ∧
      ∀ t : ℤ, (grantedIn s.log t 6 : ℚ) ≤ 6.35 * bytesPerTick throttle + maxChunk := by
  have hbytes : bytesPerTick throttle ≤ 42949673 := by
    simp only [bytesPerTick]
    omega
  have hall : AllSteps (step build (bytesPerTick throttle)) (fun _ turn => turn.byteCount ≤ maxChunk)
      State.initial turns := allSteps_of_forall hturns _
  have hinv : Inv (bytesPerTick throttle) maxChunk s :=
    run_invariant (fun _ _ _ h hcount hstep => h.step build hbytes hmax hcount hstep) inv_initial
      hall hrun
  refine ⟨fun byteCount now hcount hclock => ?_, fun t => ?_, fun t => ?_⟩
  · rcases tryQuota_cases build hinv.slots hclock (hinv.second_lt hbytes hmax _)
      (by omega : bytesPerTick throttle * 50 < 2 ^ 32) (by omega : byteCount < 2 ^ 32) with
      hquota | ⟨hquota, -⟩
    · exact ⟨_, hquota⟩
    · exact ⟨_, hquota⟩
  · have hsecond : (10 * grantedIn s.log t 50 : ℚ) ≤ 511 * bytesPerTick throttle + 10 * maxChunk := by
      exact_mod_cast hinv.second t
    linarith
  · have hwindow : (20 * grantedIn s.log t 6 : ℚ) ≤ 127 * bytesPerTick throttle + 20 * maxChunk := by
      exact_mod_cast hinv.window t
    linarith

theorem granted_bytes_bounded_of_two_calls :
    ∃ s, run (step .debug (bytesPerTick 10000000)) State.initial [⟨1460, 990⟩, ⟨1460, 1010⟩] = some s ∧
      (grantedIn s.log 0 50 : ℚ) ≤ 51.1 * bytesPerTick 10000000 + (1460 : ℕ) := by
  have hsome : (run (step .debug (bytesPerTick 10000000)) State.initial
      [⟨1460, 990⟩, ⟨1460, 1010⟩]).isSome = true := by decide +kernel
  obtain ⟨s, hs⟩ := Option.isSome_iff_exists.mp hsome
  have hturns : ∀ turn ∈ [Turn.mk 1460 990, Turn.mk 1460 1010], turn.byteCount ≤ 1460 := by simp
  exact ⟨s, hs, (granted_bytes_bounded .debug (by decide) (by decide) hturns hs).2.1 0⟩

end HathRs.BandwidthMonitor
