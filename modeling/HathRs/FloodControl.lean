import HathRs.TransitionRuns

/-!
# Flood control: how often a host is let through

Each host that is not exempt has an entry with a count that decays by one for each second
between two of its connections. A count above ten blocks the host for a minute, and a pruner
drops entries at any moment. Times are milliseconds of a monotone clock.
-/

namespace HathRs.FloodControl
open TransitionRuns

/-! ## Entries -/

structure FloodControlEntry where
  connectCount : ℕ
  lastConnect : ℕ
  blockUntil : Option ℕ
  deriving DecidableEq

namespace FloodControlEntry

def isBlocked (entry : FloodControlEntry) (now : ℕ) : Bool := entry.blockUntil.any (now < ·)

def isStale (entry : FloodControlEntry) (now : ℕ) : Bool := 60000 < now - entry.lastConnect

/-- The count is a `u32` and so are the elapsed milliseconds, which wrap around. -/
def hit (entry : FloodControlEntry) (now : ℕ) : Bool × FloodControlEntry :=
  let elapsedMs := (now - entry.lastConnect) % 2 ^ 32
  let connectCount := min (entry.connectCount - elapsedMs / 1000 + 1) (2 ^ 32 - 1)
  if connectCount > 10 then (false, ⟨connectCount, now, some (now + 60000)⟩)
  else (true, ⟨connectCount, now, entry.blockUntil⟩)

end FloodControlEntry

/-! ## Admission -/

inductive AdmissionClass where
  | exempt
  | limited
  deriving DecidableEq

def admissionClass (isLocal rpcAuthorized : Bool) : AdmissionClass :=
  if isLocal || rpcAuthorized then .exempt else .limited

inductive AdmissionRejection where
  | startup
  | floodControl
  | maxConnectionsExceeded (maxConnections : ℕ)
  deriving DecidableEq

/-- A connection with what `admit_connection` finds for it. The last three fields are the clock
readings of `or_insert_with`, `is_blocked` and `hit`, which are made under the entry's lock. -/
structure Attempt (κ : Type*) where
  host : κ
  isLocal : Bool
  rpcAuthorized : Bool
  allowNormalConnections : Bool
  activeCount : ℕ
  maxConns : ℕ
  disableFloodControl : Bool
  inserted : ℕ
  checked : ℕ
  hit : ℕ

/-- The checks in front of flood control. -/
def beforeFloodControl {κ : Type*} (a : Attempt κ) : Except AdmissionRejection AdmissionClass :=
  if !a.allowNormalConnections && !a.rpcAuthorized then .error .startup
  else if admissionClass a.isLocal a.rpcAuthorized = .limited ∧ a.maxConns < a.activeCount then
    .error (.maxConnectionsExceeded a.maxConns)
  else .ok (admissionClass a.isLocal a.rpcAuthorized)

/-- What the flood-control check did with a connection: `rejected` is by `hit`. -/
inductive Outcome where
  | passed
  | blocked
  | rejected
  deriving DecidableEq

structure Decision (κ : Type*) where
  host : κ
  time : ℕ
  outcome : Outcome
  deriving DecidableEq

/-- The check on one entry. -/
def floodCheck (entry : FloodControlEntry) (checked now : ℕ) : Outcome × ℕ × FloodControlEntry :=
  if entry.isBlocked checked then (.blocked, checked, entry)
  else
    match entry.hit now with
    | (true, entry) => (.passed, now, entry)
    | (false, entry) => (.rejected, now, entry)

/-! ## Runs -/

/-- The map of entries, the last clock reading and the decisions so far, newest first. -/
structure State (κ : Type*) where
  clock : ℕ
  entries : κ → Option FloodControlEntry
  log : List (Decision κ)

/-- `prune` is `retain` looking at the entry of one host at the time `now`. The pruner has read
its own clock before that. -/
inductive Event (κ : Type*) where
  | attempt (a : Attempt κ)
  | prune (host : κ) (read now : ℕ)

def initial {κ : Type*} : State κ := ⟨0, fun _ => none, []⟩

section Steps

variable {κ : Type*} [DecidableEq κ]

def admitConnection (s : State κ) (a : Attempt κ) : State κ :=
  match beforeFloodControl a with
  | .error _ => { s with clock := a.hit }
  | .ok admissionClass =>
    if admissionClass = .limited ∧ !a.disableFloodControl then
      let entry := (s.entries a.host).getD ⟨0, a.inserted, none⟩
      let (outcome, time, entry) := floodCheck entry a.checked a.hit
      ⟨a.hit, Function.update s.entries a.host (some entry), ⟨a.host, time, outcome⟩ :: s.log⟩
    else { s with clock := a.hit }

def pruneEntry (s : State κ) (host : κ) (read now : ℕ) : State κ :=
  if (s.entries host).any (·.isStale read) then ⟨now, Function.update s.entries host none, s.log⟩
  else { s with clock := now }

/-- The clock does not go back. -/
def step (s : State κ) : Event κ → Option (State κ)
  | .attempt a =>
    if s.clock ≤ a.inserted ∧ a.inserted ≤ a.checked ∧ a.checked ≤ a.hit then some (admitConnection s a)
    else none
  | .prune host read now =>
    if s.clock ≤ now ∧ read ≤ now then some (pruneEntry s host read now) else none

/-- How often the check let the host through from the time `a` on. -/
def passedSince (host : κ) (a : ℕ) (log : List (Decision κ)) : ℕ :=
  log.countP fun d => d.host = host ∧ d.outcome = .passed ∧ a ≤ d.time

/-- How often it did so in the `len` milliseconds after `a`, both ends included. -/
def passedWithin (host : κ) (a len : ℕ) (log : List (Decision κ)) : ℕ :=
  log.countP fun d => d.host = host ∧ d.outcome = .passed ∧ a ≤ d.time ∧ d.time ≤ a + len

/-! ## What an entry knows about the past -/

/-- The count together with the seconds up to the last connection pays for every connection that
was let through, and the block is as long as the last rejection asks for. -/
structure EntryInv (host : κ) (log : List (Decision κ)) (entry : FloodControlEntry) : Prop where
  passed_le : ∀ d ∈ log, d.host = host → d.outcome = .passed → d.time ≤ entry.lastConnect
  block_le : ∀ b, entry.blockUntil = some b → b ≤ entry.lastConnect + 60000
  budget : ∀ a, passedSince host a log ≤ min entry.connectCount 10 + (entry.lastConnect - a) / 1000
  rejected_le : ∀ d ∈ log, d.host = host → d.outcome = .rejected →
    d.time + 60000 ≤ entry.lastConnect ∨ ∃ b, entry.blockUntil = some b ∧ d.time + 60000 ≤ b

variable {host : κ} {log : List (Decision κ)} {entry : FloodControlEntry}

theorem passedSince_cons_passed {a now : ℕ} (ha : a ≤ now) :
    passedSince host a (⟨host, now, .passed⟩ :: log) = passedSince host a log + 1 :=
  List.countP_cons_of_pos (by simp [ha])

theorem passedSince_cons_of_lt {d : Decision κ} {a : ℕ} (ha : d.time < a) :
    passedSince host a (d :: log) = passedSince host a log :=
  List.countP_cons_of_neg (by simp [not_le.mpr ha])

theorem passedSince_cons_of_not_passed {d : Decision κ} (a : ℕ)
    (hd : d.host ≠ host ∨ d.outcome ≠ .passed) :
    passedSince host a (d :: log) = passedSince host a log := by
  refine List.countP_cons_of_neg ?_
  rcases hd with hd | hd <;> simp [hd]

theorem passedSince_eq_zero {a : ℕ}
    (h : ∀ d ∈ log, d.host = host → d.outcome = .passed → d.time < a) :
    passedSince host a log = 0 := by
  refine List.countP_eq_zero.mpr fun d hd hcount => ?_
  obtain ⟨hhost, hpassed, ha⟩ := of_decide_eq_true hcount
  exact absurd (h d hd hhost hpassed) (not_lt.mpr ha)

theorem entryInv_nil (now : ℕ) : EntryInv host [] ⟨0, now, none⟩ where
  passed_le := nofun
  block_le := nofun
  budget _ := Nat.zero_le _
  rejected_le := nofun

namespace EntryInv

/-- Decisions about other hosts, and connections turned away while the block lasts, change
nothing. -/
theorem cons_of_ne (h : EntryInv host log entry) {d : Decision κ}
    (hd : d.host ≠ host ∨ d.outcome = .blocked) : EntryInv host (d :: log) entry where
  passed_le d' hd' hhost hpassed := by
    rcases List.mem_cons.mp hd' with rfl | hd'
    · rcases hd with hd | hd
      · exact absurd hhost hd
      · rw [hd] at hpassed
        cases hpassed
    · exact h.passed_le d' hd' hhost hpassed
  block_le := h.block_le
  budget a := by
    rw [passedSince_cons_of_not_passed a (hd.imp_right fun hb => by simp [hb])]
    exact h.budget a
  rejected_le d' hd' hhost hrejected := by
    rcases List.mem_cons.mp hd' with rfl | hd'
    · rcases hd with hd | hd
      · exact absurd hhost hd
      · rw [hd] at hrejected
        cases hrejected
    · exact h.rejected_le d' hd' hhost hrejected

/-- A stale entry can be dropped: a minute pays for ten connections and outlasts the block. -/
theorem fresh_of_isStale (h : EntryInv host log entry) {read now : ℕ}
    (hstale : entry.isStale read = true) (hread : read ≤ now) : EntryInv host log ⟨0, now, none⟩ := by
  have hgap : 60000 < read - entry.lastConnect := of_decide_eq_true hstale
  refine ⟨fun d hd hhost hpassed => ?_, nofun, fun a => ?_, fun d hd hhost hrejected => ?_⟩
  · have hle := h.passed_le d hd hhost hpassed
    change d.time ≤ now
    omega
  · change passedSince host a log ≤ min 0 10 + (now - a) / 1000
    rcases le_or_gt a entry.lastConnect with ha | ha
    · have hbudget := h.budget a
      omega
    · rw [passedSince_eq_zero fun d hd hhost hpassed => (h.passed_le d hd hhost hpassed).trans_lt ha]
      exact Nat.zero_le _
  · left
    change d.time + 60000 ≤ now
    rcases h.rejected_le d hd hhost hrejected with hle | ⟨b, hb, hle⟩
    · omega
    · have hblock := h.block_le b hb
      omega

/-- A connection that is let through costs one more. -/
theorem cons_passed (h : EntryInv host log entry) {count now : ℕ} (hlast : entry.lastConnect ≤ now)
    (hpos : 1 ≤ count) (hten : count ≤ 10)
    (hcount : entry.connectCount + 1 ≤ count + (now - entry.lastConnect) / 1000) :
    EntryInv host (⟨host, now, .passed⟩ :: log) ⟨count, now, entry.blockUntil⟩ := by
  refine ⟨fun d hd hhost hpassed => ?_, fun b hb => ?_, fun a => ?_, fun d hd hhost hrejected => ?_⟩
  · rcases List.mem_cons.mp hd with rfl | hd
    · exact le_rfl
    · exact (h.passed_le d hd hhost hpassed).trans hlast
  · have hblock := h.block_le b hb
    change b ≤ now + 60000
    omega
  · change _ ≤ min count 10 + (now - a) / 1000
    rcases le_or_gt a now with ha | ha
    · rw [passedSince_cons_passed ha]
      rcases le_or_gt a entry.lastConnect with hold | hnew
      · have hbudget := h.budget a
        omega
      · rw [passedSince_eq_zero fun d hd hhost hpassed =>
          (h.passed_le d hd hhost hpassed).trans_lt hnew]
        omega
    · rw [passedSince_cons_of_lt ha, passedSince_eq_zero fun d hd hhost hpassed =>
        ((h.passed_le d hd hhost hpassed).trans hlast).trans_lt ha]
      exact Nat.zero_le _
  · rcases List.mem_cons.mp hd with rfl | hd
    · cases hrejected
    · exact (h.rejected_le d hd hhost hrejected).imp_left fun hle => hle.trans hlast

/-- One that is rejected renews the block. -/
theorem cons_rejected (h : EntryInv host log entry) {count now : ℕ}
    (hlast : entry.lastConnect ≤ now) (hten : 10 < count) :
    EntryInv host (⟨host, now, .rejected⟩ :: log) ⟨count, now, some (now + 60000)⟩ := by
  refine ⟨fun d hd hhost hpassed => ?_, fun b hb => ?_, fun a => ?_, fun d hd hhost hrejected => ?_⟩
  · rcases List.mem_cons.mp hd with rfl | hd
    · cases hpassed
    · exact (h.passed_le d hd hhost hpassed).trans hlast
  · cases hb
    exact le_rfl
  · rw [passedSince_cons_of_not_passed a (.inr (by simp))]
    have hbudget := h.budget a
    change _ ≤ min count 10 + (now - a) / 1000
    omega
  · right
    refine ⟨now + 60000, rfl, ?_⟩
    rcases List.mem_cons.mp hd with rfl | hd
    · exact le_rfl
    · rcases h.rejected_le d hd hhost hrejected with hle | ⟨b, hb, hle⟩
      · omega
      · have hblock := h.block_le b hb
        omega

end EntryInv

/-- What the check does. -/
theorem floodCheck_cases (entry : FloodControlEntry) (checked now : ℕ) :
    floodCheck entry checked now = (.blocked, checked, entry) ∨
      entry.isBlocked checked = false ∧
        ((∃ count, floodCheck entry checked now = (.passed, now, ⟨count, now, entry.blockUntil⟩) ∧
            1 ≤ count ∧ count ≤ 10 ∧
            entry.connectCount + 1 ≤ count + (now - entry.lastConnect) / 1000) ∨
          ∃ count, floodCheck entry checked now = (.rejected, now, ⟨count, now, some (now + 60000)⟩) ∧
            10 < count) := by
  cases hblocked : entry.isBlocked checked with
  | true => exact .inl (if_pos hblocked)
  | false =>
    right
    -- a wrapped elapsed time only makes the count decay less
    have hwrap : (now - entry.lastConnect) % 2 ^ 32 ≤ now - entry.lastConnect := Nat.mod_le _ _
    simp only [floodCheck, hblocked, Bool.false_eq_true, if_false, FloodControlEntry.hit]
    split_ifs with hcount
    · exact ⟨trivial, .inr ⟨_, rfl, hcount⟩⟩
    · exact ⟨trivial, .inl ⟨_, rfl, by omega, by omega, by omega⟩⟩

/-! ## What one host sees -/

/-- After a rejection a connection is let through a minute later at the earliest. -/
def MinuteApart (host : κ) (later earlier : Decision κ) : Prop :=
  earlier.host = host → later.host = host → earlier.outcome = .rejected →
    later.outcome = .passed → earlier.time + 60000 ≤ later.time

/-- The entry that a connection at the time `now` finds or makes. -/
def State.entryAt (s : State κ) (host : κ) (now : ℕ) : FloodControlEntry :=
  (s.entries host).getD ⟨0, now, none⟩

structure HostInv (host : κ) (s : State κ) : Prop where
  entry : ∀ now, s.clock ≤ now →
    EntryInv host s.log (s.entryAt host now) ∧ (s.entryAt host now).lastConnect ≤ now
  rate : ∀ a len, passedWithin host a len s.log ≤ 10 + len / 1000
  apart : s.log.Pairwise (MinuteApart host)

theorem hostInv_initial (host : κ) : HostInv host initial where
  entry now _ := ⟨entryInv_nil now, le_rfl⟩
  rate _ _ := Nat.zero_le _
  apart := .nil

/-- Time alone changes nothing. -/
theorem HostInv.advance {s : State κ} (h : HostInv host s) {now : ℕ} (hnow : s.clock ≤ now) :
    HostInv host { s with clock := now } :=
  ⟨fun t ht => h.entry t (hnow.trans ht), h.rate, h.apart⟩

theorem HostInv.pruneEntry {s : State κ} (h : HostInv host s) (pruned : κ) {read now : ℕ}
    (hnow : s.clock ≤ now) (hread : read ≤ now) : HostInv host (pruneEntry s pruned read now) := by
  simp only [FloodControl.pruneEntry]
  split_ifs with hstale
  · refine ⟨fun t ht => ?_, h.rate, h.apart⟩
    by_cases hp : host = pruned
    · subst hp
      obtain ⟨entry, hentry, hold⟩ := (Option.any_eq_true _ _).mp hstale
      have hinv := (h.entry s.clock le_rfl).1
      simp only [State.entryAt, hentry, Option.getD_some] at hinv
      simp only [State.entryAt, Function.update_self, Option.getD_none]
      exact ⟨hinv.fresh_of_isStale hold (hread.trans ht), le_rfl⟩
    · simp only [State.entryAt, Function.update_of_ne hp]
      exact h.entry t (hnow.trans ht)
  · exact h.advance hnow

theorem passedWithin_cons_le {d : Decision κ} {count : ℕ}
    (hbudget : ∀ a, passedSince host a (d :: log) ≤ count + (d.time - a) / 1000)
    (hten : count ≤ 10) (hold : ∀ a len, passedWithin host a len log ≤ 10 + len / 1000) (a len : ℕ) :
    passedWithin host a len (d :: log) ≤ 10 + len / 1000 := by
  by_cases hin : a ≤ d.time ∧ d.time ≤ a + len
  · have hle : passedWithin host a len (d :: log) ≤ passedSince host a (d :: log) := by
      refine List.countP_mono_left fun d' _ hd' => ?_
      obtain ⟨hhost, hpassed, ha, -⟩ := of_decide_eq_true hd'
      exact decide_eq_true ⟨hhost, hpassed, ha⟩
    have hsince := hbudget a
    have hlen : (d.time - a) / 1000 ≤ len / 1000 := Nat.div_le_div_right (by omega)
    omega
  · rw [passedWithin, List.countP_cons_of_neg]
    · exact hold a len
    · intro hd'
      exact hin (of_decide_eq_true hd').2.2

/-- The entry of the host is checked and written back. -/
theorem HostInv.check {s : State κ} (h : HostInv host s) {inserted checked now : ℕ}
    (hinserted : s.clock ≤ inserted) (hchecked : inserted ≤ checked) (hnow : checked ≤ now)
    {outcome : Outcome} {time : ℕ} {entry : FloodControlEntry}
    (hcheck : floodCheck (s.entryAt host inserted) checked now = (outcome, time, entry)) :
    HostInv host ⟨now, Function.update s.entries host (some entry),
      ⟨host, time, outcome⟩ :: s.log⟩ := by
  obtain ⟨hentry, hlast⟩ := h.entry inserted hinserted
  generalize s.entryAt host inserted = old at hentry hlast hcheck
  have hafter : ∀ t, State.entryAt ⟨now, Function.update s.entries host (some entry),
      ⟨host, time, outcome⟩ :: s.log⟩ host t = entry := fun t => by
    simp only [State.entryAt, Function.update_self, Option.getD_some]
  have hlast' : old.lastConnect ≤ now := by omega
  rcases floodCheck_cases old checked now with
    heq | ⟨hfree, ⟨count, heq, hpos, hten, hcount⟩ | ⟨count, heq, hten⟩⟩
  · cases heq.symm.trans hcheck
    refine ⟨fun t ht => ?_, fun a len => ?_, List.pairwise_cons.mpr ⟨nofun, h.apart⟩⟩
    · rw [hafter]
      exact ⟨hentry.cons_of_ne (.inr rfl), hlast'.trans ht⟩
    · rw [passedWithin, List.countP_cons_of_neg (by simp)]
      exact h.rate a len
  · cases heq.symm.trans hcheck
    have hnew := hentry.cons_passed hlast' hpos hten hcount
    refine ⟨fun t ht => ?_, ?_, List.pairwise_cons.mpr ⟨fun d hd hhost _ hrejected _ => ?_, h.apart⟩⟩
    · rw [hafter]
      exact ⟨hnew, ht⟩
    · refine passedWithin_cons_le (fun a => (hnew.budget a).trans ?_) hten h.rate
      exact Nat.add_le_add_right (min_le_left _ _) _
    · change d.time + 60000 ≤ now
      rcases hentry.rejected_le d hd hhost hrejected with hle | ⟨b, hb, hle⟩
      · omega
      · simp only [FloodControlEntry.isBlocked, hb, Option.any_some, decide_eq_false_iff_not] at hfree
        omega
  · cases heq.symm.trans hcheck
    refine ⟨fun t ht => ?_, fun a len => ?_, List.pairwise_cons.mpr ⟨nofun, h.apart⟩⟩
    · rw [hafter]
      exact ⟨hentry.cons_rejected hlast' hten, ht⟩
    · rw [passedWithin, List.countP_cons_of_neg (by simp)]
      exact h.rate a len

/-- The entry of another host is. -/
theorem HostInv.check_other {s : State κ} (h : HostInv host s) {other : κ} (hother : other ≠ host)
    {now : ℕ} (hnow : s.clock ≤ now) (outcome : Outcome) (time : ℕ) (entry : FloodControlEntry) :
    HostInv host ⟨now, Function.update s.entries other (some entry),
      ⟨other, time, outcome⟩ :: s.log⟩ := by
  refine ⟨fun t ht => ?_, fun a len => ?_,
    List.pairwise_cons.mpr ⟨fun d _ _ hhost => absurd hhost hother, h.apart⟩⟩
  · obtain ⟨hentry, hlast⟩ := h.entry t (hnow.trans ht)
    simp only [State.entryAt, Function.update_of_ne (Ne.symm hother)]
    exact ⟨hentry.cons_of_ne (.inl hother), hlast⟩
  · rw [passedWithin, List.countP_cons_of_neg (by simp [hother])]
    exact h.rate a len

theorem HostInv.admitConnection {s : State κ} (h : HostInv host s) {a : Attempt κ}
    (hinserted : s.clock ≤ a.inserted) (hchecked : a.inserted ≤ a.checked) (hhit : a.checked ≤ a.hit) :
    HostInv host (admitConnection s a) := by
  have hclock : s.clock ≤ a.hit := by omega
  simp only [FloodControl.admitConnection]
  split
  · exact h.advance hclock
  · split_ifs with hlimited
    · by_cases hhost : a.host = host
      · subst hhost
        exact h.check hinserted hchecked hhit rfl
      · exact h.check_other hhost hclock _ _ _
    · exact h.advance hclock

theorem HostInv.step {s next : State κ} (h : HostInv host s) {e : Event κ}
    (hstep : step s e = some next) : HostInv host next := by
  cases e with
  | attempt a =>
    simp only [FloodControl.step] at hstep
    split_ifs at hstep with hclock
    exact Option.some.inj hstep ▸ h.admitConnection hclock.1 hclock.2.1 hclock.2.2
  | prune pruned read now =>
    simp only [FloodControl.step] at hstep
    split_ifs at hstep with hclock
    exact Option.some.inj hstep ▸ h.pruneEntry pruned hclock.1 hclock.2

/-- In any run, with prunes at any moment, the check lets a host through at most ten times and once
more for each second of an interval, and not within a minute after it has rejected the host. -/
theorem flood_control_rate {events : List (Event κ)} {s : State κ}
    (hrun : run step initial events = some s) (host : κ) :
    (∀ a len, passedWithin host a len s.log ≤ 10 + len / 1000) ∧
      ∀ (later earlier : List (Decision κ)) (d : Decision κ), s.log = later ++ d :: earlier →
        d.host = host → d.outcome = .rejected →
        ∀ d' ∈ later, d'.host = host → d'.outcome = .passed →
          ¬ (d.time ≤ d'.time ∧ d'.time < d.time + 60000) := by
  have hinv : HostInv host s := run_invariant (fun _ _ _ h _ hstep => h.step hstep)
    (hostInv_initial host) (allSteps_true _ _) hrun
  refine ⟨hinv.rate, fun later earlier d hlog hhost hrejected d' hd' hhost' hpassed hsoon => ?_⟩
  have hapart := hinv.apart
  rw [hlog, List.pairwise_append] at hapart
  have hminute := hapart.2.2 d' hd' d List.mem_cons_self hhost hhost' hrejected hpassed
  omega

end Steps

/-- A connection from the network at the given time. -/
def connection (time : ℕ) : Event String :=
  .attempt ⟨"203.0.113.9", false, false, true, 0, 20, false, time, time, time⟩

theorem flood_control_rate_of_burst :
    ∃ s, run step initial (List.replicate 11 (connection 5) ++ [connection 60004, connection 60005]) =
        some s ∧ passedWithin "203.0.113.9" 0 60005 s.log ≤ 10 + 60005 / 1000 := by
  have hsome : (run step initial
      (List.replicate 11 (connection 5) ++ [connection 60004, connection 60005])).isSome = true := by
    decide +kernel
  obtain ⟨s, hs⟩ := Option.isSome_iff_exists.mp hsome
  exact ⟨s, hs, (flood_control_rate hs "203.0.113.9").1 0 60005⟩

end HathRs.FloodControl
