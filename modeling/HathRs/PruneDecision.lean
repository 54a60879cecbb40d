import HathRs.ClientSettings

/-!
# When the pruner acts

The size of the cache counts half a block for every file. The product of the count and the
block size is taken in 64 bits, so the decision is the one of exact arithmetic only when that
product fits. A block size that the server has sent is at most 65536 and always fits; the block
size of the command line is not clamped. A range of least age is cut into its two directory
names, which stops the pruner when the range has no character boundary there.
-/

namespace HathRs.PruneDecision
open TextParsing HashMaps MachineArithmetic CacheHandler

/-! ## The decision in exact arithmetic -/

/-- The size with overhead, in unbounded integers. -/
def exactSize (cache : CacheHandler) (config : Config) : ℕ :=
  cache.cacheSize.toNat + cache.cacheCount.toNat * config.filesystemBlocksize.toNat / 2

/-- The cache comes within 100 MiB of its limit and there is a range to prune. -/
def PruneDue (cache : CacheHandler) (config : Config) : Prop :=
  config.disklimitBytes.toNat < exactSize cache config + 104857600 ∧ 0 < cache.cacheCount ∧
    0 < config.staticRangeCount ∧ 0 < len cache.staticRangeOldest

/-- The range has the least age of the map. -/
def IsOldest (cache : CacheHandler) (range : Text) (age : UInt64) : Prop :=
  ⟨range, age⟩ ∈ cache.staticRangeOldest.entries ∧
    ∀ e ∈ cache.staticRangeOldest.entries, age ≤ e.2

/-- The plan is for a range of least age, up to a time behind that age, and it hurries when the
limit is passed. -/
def PlanFits (cache : CacheHandler) (config : Config) (plan : PrunePlan) : Prop :=
  (∃ age, IsOldest cache plan.staticRange age ∧ age < plan.cutoff) ∧
    (plan.fastDelete ↔ config.disklimitBytes.toNat < exactSize cache config)

def ActionFits (cache : CacheHandler) (config : Config) : PruneAction → Prop
  | .prune plan => PruneDue cache config ∧ PlanFits cache config plan
  | .noPrune _ => ¬ PruneDue cache config

/-- In either build, at any time and in every order in which the map can be iterated, the
decision is made and is the one of exact arithmetic. A debug build that completes has met no
overflow. -/
def DecidesExactly (cache : CacheHandler) (config : Config) : Prop :=
  ∀ build now order, Iterates order cache.staticRangeOldest →
    ∃ action, checkPruneAction build cache config now order = .ok action ∧
      ActionFits cache config action

/-- The range can be cut behind its second and its fourth byte. -/
def Divisible (range : Text) : Prop :=
  ∃ l1 l2, byteSlice range 0 2 = .ok l1 ∧ byteSlice range 2 4 = .ok l2

/-! ## The block size of a history -/

/-- The server sends a block size. -/
def setsBlocksize (change : Text × Text) : Bool :=
  change.1.map (fun c => if c = '-' then '_' else c) = "filesystem_blocksize".toList

theorem clampBlocksize_le (bs : UInt64) : (ClientSettings.clampBlocksize bs).toNat ≤ 65536 := by
  have hmin := min_le_right_u64 bs 65536
  rw [UInt64.le_iff_toNat_le] at hmin
  rw [ClientSettings.clampBlocksize]
  by_cases h : (1 : UInt64) ≤ min bs 65536
  · rw [show max 1 (min bs 65536) = min bs 65536 from if_pos h]
    exact hmin
  · rw [show max 1 (min bs 65536) = 1 from if_neg h]
    decide

theorem ite_blocksize {p : Prop} [Decidable p] {bs : UInt64} {a b : ClientSettings}
    (ha : p → a.filesystemBlocksize = bs) (hb : ¬ p → b.filesystemBlocksize = bs) :
    (if p then a else b).filesystemBlocksize = bs := by
  by_cases hp : p
  · rw [if_pos hp]
    exact ha hp
  · rw [if_neg hp]
    exact hb hp

theorem applySetting_blocksize (s : ClientSettings) (change : Text × Text) :
    (setsBlocksize change → (s.applySetting change.1 change.2).filesystemBlocksize.toNat ≤ 65536) ∧
      (¬ setsBlocksize change →
        (s.applySetting change.1 change.2).filesystemBlocksize = s.filesystemBlocksize) := by
  simp only [setsBlocksize, decide_eq_true_eq]
  rw [ClientSettings.applySetting]
  constructor
  · intro h
    rw [h, if_neg (by decide), if_neg (by decide), if_pos rfl]
    exact clampBlocksize_le _
  · intro h
    repeat' (apply ite_blocksize <;> intro hset)
    all_goals first | rfl | exact absurd hset h

/-- A block size that the server has sent stays small, whatever is set after it. -/
theorem applySettings_blocksize_le (s : ClientSettings) (changes : List (Text × Text))
    (h : s.filesystemBlocksize.toNat ≤ 65536 ∨ ∃ change ∈ changes, setsBlocksize change) :
    (s.applySettings changes).filesystemBlocksize.toNat ≤ 65536 := by
  induction changes generalizing s with
  | nil =>
    obtain h | ⟨change, hin, -⟩ := h
    · exact h
    · cases hin
  | cons change changes ih =>
    obtain ⟨hsets, hkeeps⟩ := applySetting_blocksize s change
    apply ih
    by_cases hset : setsBlocksize change
    · exact .inl (hsets hset)
    · obtain h | ⟨other, hin, hother⟩ := h
      · rw [hkeeps hset]
        exact .inl h
      · obtain rfl | hin := List.mem_cons.mp hin
        · exact absurd hother hset
        · exact .inr ⟨other, hin, hother⟩

theorem applySettings_blocksize_eq (s : ClientSettings) (changes : List (Text × Text))
    (h : ¬ ∃ change ∈ changes, setsBlocksize change) :
    (s.applySettings changes).filesystemBlocksize = s.filesystemBlocksize := by
  induction changes generalizing s with
  | nil => rfl
  | cons change changes ih =>
    have hhead : ¬ setsBlocksize change := fun hset => h ⟨change, List.mem_cons_self, hset⟩
    have htail : ¬ ∃ change ∈ changes, setsBlocksize change := by
      rintro ⟨other, hin, hset⟩
      exact h ⟨other, List.mem_cons_of_mem _ hin, hset⟩
    change ((s.applySetting change.1 change.2).applySettings changes).filesystemBlocksize = _
    rw [ih _ htail, (applySetting_blocksize s change).2 hhead]

/-- Over a history of settings the product fits when the server has sent a block size, and
otherwise when it does with the block size of the command line. -/
theorem blocks_fit_iff (count : UInt32) (args : CliArgs) (changes : List (Text × Text)) :
    count.toNat *
        ((ClientSettings.load args).applySettings changes).filesystemBlocksize.toNat < 2 ^ 64 ↔
      (∃ change ∈ changes, setsBlocksize change) ∨
        count.toNat * (args.filesystemBlocksize.getD 4096).toNat < 2 ^ 64 := by
  by_cases h : ∃ change ∈ changes, setsBlocksize change
  · refine ⟨fun _ => .inl h, fun _ => ?_⟩
    have hle := applySettings_blocksize_le (.load args) changes (.inr h)
    have hcount := count.toNat_lt
    calc count.toNat * _ ≤ count.toNat * 65536 := Nat.mul_le_mul_left _ hle
      _ < 2 ^ 64 := by omega
  · rw [applySettings_blocksize_eq _ changes h]
    exact ⟨.inr, fun h' => h'.resolve_left h⟩

/-! ## The oldest range -/

theorem oldestRange_isSome {order : List (Entry Text UInt64)} (h : order ≠ []) :
    ∃ oldest, oldestRange order = some oldest := by
  cases order with
  | nil => exact absurd rfl h
  | cons e order =>
    simp only [oldestRange]
    cases oldestRange order with
    | none => exact ⟨e, rfl⟩
    | some m =>
      by_cases hle : e.2 ≤ m.2
      · exact ⟨e, if_pos hle⟩
      · exact ⟨m, if_neg hle⟩

/-- The range found has the least age of the list. -/
theorem oldestRange_le {order : List (Entry Text UInt64)} {oldest : Entry Text UInt64}
    (h : oldestRange order = some oldest) : ∀ e ∈ order, oldest.2 ≤ e.2 := by
  induction order generalizing oldest with
  | nil => cases h
  | cons d order ih =>
    intro e he
    simp only [oldestRange] at h
    cases hrest : oldestRange order with
    | none =>
      have hnil : order = [] := by
        by_contra hne
        obtain ⟨m, hm⟩ := oldestRange_isSome hne
        rw [hrest] at hm
        cases hm
      rw [hrest] at h
      obtain rfl := Option.some.inj h
      rw [hnil, List.mem_singleton] at he
      rw [he]
      exact UInt64.le_refl _
    | some m =>
      rw [hrest] at h
      by_cases hle : d.2 ≤ m.2
      · obtain rfl : d = oldest := by simpa [hle] using h
        obtain rfl | he := List.mem_cons.mp he
        · exact UInt64.le_refl _
        · exact UInt64.le_trans hle (ih hrest e he)
      · obtain rfl : m = oldest := by simpa [hle] using h
        obtain rfl | he := List.mem_cons.mp he
        · exact UInt64.le_of_lt (UInt64.not_le.mp hle)
        · exact ih hrest e he

/-- Of several ranges of least age the first one is found. -/
theorem oldestRange_cons_of_le {e : Entry Text UInt64} {order : List (Entry Text UInt64)}
    (h : ∀ d ∈ order, e.2 ≤ d.2) : oldestRange (e :: order) = some e := by
  simp only [oldestRange]
  cases hrest : oldestRange order with
  | none => rfl
  | some m => exact if_pos (h m (oldestRange_mem hrest))

section Order

variable {cache : CacheHandler} {order : List (Entry Text UInt64)}

theorem mem_entries_iff (h : Iterates order cache.staticRangeOldest) (e : Entry Text UInt64) :
    e ∈ cache.staticRangeOldest.entries ↔ e ∈ order := by
  rw [← h]
  exact Multiset.mem_coe

theorem isOldest_of_oldestRange (h : Iterates order cache.staticRangeOldest)
    {oldest : Entry Text UInt64} (hold : oldestRange order = some oldest) :
    IsOldest cache oldest.1 oldest.2 := by
  refine ⟨(mem_entries_iff h oldest).mpr (oldestRange_mem hold), ?_⟩
  intro e he
  exact oldestRange_le hold e ((mem_entries_iff h e).mp he)

/-- Each range of least age is found in some order. -/
theorem exists_order_oldestRange {range : Text} {age : UInt64} (h : IsOldest cache range age) :
    ∃ order, Iterates order cache.staticRangeOldest ∧ oldestRange order = some ⟨range, age⟩ := by
  obtain ⟨order, horder⟩ := exists_iterates cache.staticRangeOldest
  have hin := (mem_entries_iff horder _).mp h.1
  have hperm := List.perm_cons_erase hin
  refine ⟨⟨range, age⟩ :: order.erase ⟨range, age⟩, ?_, ?_⟩
  · rw [Iterates, ← horder]
    exact (Multiset.coe_eq_coe.mpr hperm).symm
  · apply oldestRange_cons_of_le
    intro d hd
    exact h.2 d ((mem_entries_iff horder d).mpr (List.mem_of_mem_erase hd))

end Order

/-! ## One decision -/

section Decision

variable {cache : CacheHandler} {config : Config}

theorem cacheSizeWithOverhead_ok (build : Build) (hsize : cache.cacheSize.toNat ≤ 2 ^ 62)
    (hfit : cache.cacheCount.toNat * config.filesystemBlocksize.toNat < 2 ^ 64) :
    ∃ size, cacheSizeWithOverhead build cache.cacheSize cache.cacheCount config = .ok size ∧
      size.toNat = exactSize cache config := by
  have hcount : cache.cacheCount.toUInt64.toNat = cache.cacheCount.toNat :=
    UInt32.toNat_toUInt64 _
  obtain ⟨hmul, hblocks⟩ := mulU64_of_lt build (hcount.symm ▸ hfit)
  have hhalf : (cache.cacheCount.toUInt64 * config.filesystemBlocksize / 2).toNat =
      cache.cacheCount.toNat * config.filesystemBlocksize.toNat / 2 := by
    rw [UInt64.toNat_div, hblocks, hcount]
    rfl
  obtain ⟨hadd, hsum⟩ := addU64_of_lt build
    (a := cache.cacheSize) (b := cache.cacheCount.toUInt64 * config.filesystemBlocksize / 2)
    (by omega)
  refine ⟨_, ?_, hsum.trans (by rw [hhalf, exactSize])⟩
  simp only [cacheSizeWithOverhead, hmul]
  exact hadd

theorem cacheSizeWithOverhead_overflow
    (h : 2 ^ 64 ≤ cache.cacheCount.toNat * config.filesystemBlocksize.toNat) :
    cacheSizeWithOverhead .debug cache.cacheSize cache.cacheCount config = .error .overflow := by
  have hcount : cache.cacheCount.toUInt64.toNat = cache.cacheCount.toNat :=
    UInt32.toNat_toUInt64 _
  simp only [cacheSizeWithOverhead, mulU64_debug_of_le (hcount.symm ▸ h)]
  rfl

/-- The two tests for too little space come to one threshold, where there is something to
prune. -/
theorem pruneNeed_ok (cache : CacheHandler) (config : Config) (build : Build) {size : UInt64}
    (hroom : size.toNat + 104857600 < 2 ^ 64) :
    ∃ need fast, pruneNeed build cache config size = .ok (need, fast) ∧
      (0 < cache.cacheCount → 0 < len cache.staticRangeOldest →
        (need ≠ 0 ↔ config.disklimitBytes.toNat < size.toNat + 104857600)) ∧
      (fast = true ↔ config.disklimitBytes.toNat < size.toNat) := by
  simp only [pruneNeed, gt_iff_lt]
  by_cases hover : config.disklimitBytes < size
  · rw [if_pos hover]
    rw [UInt64.lt_iff_toNat_lt] at hover
    obtain ⟨hadd, hsum⟩ := addU64_of_lt build (a := 104857600) (b := size)
      (by rw [Nat.add_comm]; exact hroom)
    obtain ⟨hsub, hdiff⟩ := subU64_of_le build (a := 104857600 + size) (b := config.disklimitBytes)
      (by omega)
    refine ⟨_, _, by rw [hadd]; simp only [bind, Except.bind, hsub]; rfl, ?_, by simpa using hover⟩
    intro _ _
    have hneed : 104857600 + size - config.disklimitBytes ≠ 0 := by
      intro hzero
      rw [hzero, hsum] at hdiff
      change 0 = 104857600 + size.toNat - config.disklimitBytes.toNat at hdiff
      omega
    exact ⟨fun _ => by omega, fun _ => hneed⟩
  · rw [if_neg hover]
    have hle : size.toNat ≤ config.disklimitBytes.toNat := by
      rw [UInt64.lt_iff_toNat_lt] at hover
      omega
    have hfast : (false = true) ↔ config.disklimitBytes.toNat < size.toNat := by
      simp only [Bool.false_eq_true, false_iff]
      omega
    have hfree : saturatingSubU64 config.disklimitBytes size < 104857600 ↔
        config.disklimitBytes.toNat < size.toNat + 104857600 := by
      rw [UInt64.lt_iff_toNat_lt, saturatingSubU64_toNat]
      change _ < 104857600 ↔ _
      omega
    by_cases hnear : 0 < cache.cacheCount ∧ 0 < len cache.staticRangeOldest ∧
        saturatingSubU64 config.disklimitBytes size < 104857600
    · rw [if_pos hnear]
      have hnear' := hfree.mp hnear.2.2
      obtain ⟨hsub, hdiff⟩ := subU64_of_le build hle
      obtain ⟨hsub', hdiff'⟩ := subU64_of_le build (a := 104857600)
        (b := config.disklimitBytes - size) (by rw [hdiff]; change _ ≤ 104857600; omega)
      refine ⟨_, _, by rw [hsub]; simp only [bind, Except.bind, hsub']; rfl, ?_, hfast⟩
      intro _ _
      have hneed : 104857600 - (config.disklimitBytes - size) ≠ 0 := by
        intro hzero
        rw [hzero, hdiff] at hdiff'
        change 0 = 104857600 - (config.disklimitBytes.toNat - size.toNat) at hdiff'
        omega
      exact ⟨fun _ => hnear', fun _ => hneed⟩
    · rw [if_neg hnear]
      refine ⟨_, _, rfl, ?_, hfast⟩
      intro hcount hlen
      have hfar := fun h => hnear ⟨hcount, hlen, hfree.mpr h⟩
      exact ⟨fun h => absurd rfl h, fun h => absurd h hfar⟩

/-- Every step of the ladder puts the cutoff behind the age. -/
theorem pruneCutoff_ok (build : Build) (now : UInt64) {age : UInt64} (h : age.toNat ≤ 2 ^ 62) :
    ∃ cutoff, pruneCutoff build now age = .ok cutoff ∧ age < cutoff := by
  have hadd : ∀ span : UInt64, 0 < span.toNat → span.toNat < 2 ^ 62 →
      ∃ cutoff, addU64 build age span = .ok cutoff ∧ age < cutoff := by
    intro span hpos hspan
    obtain ⟨hok, hsum⟩ := addU64_of_lt build (a := age) (b := span) (by omega)
    refine ⟨_, hok, ?_⟩
    rw [UInt64.lt_iff_toNat_lt, hsum]
    omega
  simp only [pruneCutoff]
  split_ifs
  · exact hadd thirtyDays (by decide) (by decide)
  · exact hadd sevenDays (by decide) (by decide)
  · exact hadd threeDays (by decide) (by decide)
  · exact hadd oneDay (by decide) (by decide)

theorem checkPruneAction_skip {build : Build} {now size need : UInt64} {fast : Bool}
    {order : List (Entry Text UInt64)}
    (hover : cacheSizeWithOverhead build cache.cacheSize cache.cacheCount config = .ok size)
    (hneed : pruneNeed build cache config size = .ok (need, fast))
    (htest : need = 0 ∨ cache.cacheCount = 0 ∨ config.staticRangeCount = 0 ∨
      len cache.staticRangeOldest = 0) :
    checkPruneAction build cache config now order =
      .ok (.noPrune (pruneFrequency config.disklimitBytes size 104857600)) := by
  simp only [checkPruneAction, hover, bind, Except.bind, hneed]
  exact if_pos htest

theorem checkPruneAction_due {build : Build} {now size need cutoff : UInt64} {fast : Bool}
    {order : List (Entry Text UInt64)} {oldest : Entry Text UInt64}
    (hover : cacheSizeWithOverhead build cache.cacheSize cache.cacheCount config = .ok size)
    (hneed : pruneNeed build cache config size = .ok (need, fast))
    (htest : ¬ (need = 0 ∨ cache.cacheCount = 0 ∨ config.staticRangeCount = 0 ∨
      len cache.staticRangeOldest = 0))
    (hold : oldestRange order = some oldest) (hcut : pruneCutoff build now oldest.2 = .ok cutoff) :
    checkPruneAction build cache config now order = (do
      let l1 ← byteSlice oldest.1 0 2
      let l2 ← byteSlice oldest.1 2 4
      return .prune ⟨oldest.1, [l1, l2], cutoff, fast⟩) := by
  simp only [checkPruneAction, hover, bind, Except.bind, hneed]
  rw [if_neg htest, hold]
  simp only [hcut]

/-- What the decision comes to when nothing overflows: without need no prune, and else a plan
for the range found, if that can be cut. -/
theorem checkPruneAction_cases (build : Build) (now : UInt64) {order : List (Entry Text UInt64)}
    (horder : Iterates order cache.staticRangeOldest) (hsize : cache.cacheSize.toNat ≤ 2 ^ 62)
    (hages : ∀ e ∈ cache.staticRangeOldest.entries, e.2.toNat ≤ 2 ^ 62)
    (hfit : cache.cacheCount.toNat * config.filesystemBlocksize.toNat < 2 ^ 64) :
    (¬ PruneDue cache config ∧
        ∃ frequency, checkPruneAction build cache config now order = .ok (.noPrune frequency)) ∨
      (PruneDue cache config ∧ ∃ oldest cutoff fast, oldestRange order = some oldest ∧
        oldest.2 < cutoff ∧ (fast = true ↔ config.disklimitBytes.toNat < exactSize cache config) ∧
        checkPruneAction build cache config now order = (do
          let l1 ← byteSlice oldest.1 0 2
          let l2 ← byteSlice oldest.1 2 4
          return .prune ⟨oldest.1, [l1, l2], cutoff, fast⟩)) := by
  obtain ⟨size, hover, hexact⟩ := cacheSizeWithOverhead_ok build hsize hfit
  have hroom : size.toNat + 104857600 < 2 ^ 64 := by
    rw [hexact, exactSize]
    omega
  obtain ⟨need, fast, hneed, hiff, hfast⟩ := pruneNeed_ok cache config build hroom
  rw [hexact] at hiff hfast
  have hzero : ∀ n : UInt32, n ≠ 0 ↔ 0 < n := fun n => (UInt32.pos_iff_ne_zero).symm
  by_cases htest : need = 0 ∨ cache.cacheCount = 0 ∨ config.staticRangeCount = 0 ∨
      len cache.staticRangeOldest = 0
  · refine .inl ⟨?_, _, checkPruneAction_skip hover hneed htest⟩
    rintro ⟨hspace, hcount, hranges, hlen⟩
    rcases htest with h | h | h | h
    · exact (hiff hcount hlen).mpr hspace h
    · exact (hzero _).mpr hcount h
    · exact (hzero _).mpr hranges h
    · omega
  · obtain ⟨hneed0, hcount, hranges, hlen⟩ : need ≠ 0 ∧ cache.cacheCount ≠ 0 ∧
        config.staticRangeCount ≠ 0 ∧ len cache.staticRangeOldest ≠ 0 := by
      simpa only [not_or] using htest
    have hcount := (hzero _).mp hcount
    have hlen := Nat.pos_of_ne_zero hlen
    have hne : order ≠ [] := by
      rintro rfl
      rw [← horder.length_eq] at hlen
      exact absurd hlen (Nat.lt_irrefl 0)
    obtain ⟨oldest, hold⟩ := oldestRange_isSome hne
    obtain ⟨cutoff, hcut, hbehind⟩ := pruneCutoff_ok build now
      (hages oldest ((mem_entries_iff horder oldest).mpr (oldestRange_mem hold)))
    refine .inr ⟨⟨(hiff hcount hlen).mp hneed0, hcount, (hzero _).mp hranges, hlen⟩,
      oldest, cutoff, fast, hold, hbehind, hfast, checkPruneAction_due hover hneed htest hold hcut⟩

/-- A debug build stops at the product that does not fit. -/
theorem blocks_fit_of_decidesExactly (h : DecidesExactly cache config) :
    cache.cacheCount.toNat * config.filesystemBlocksize.toNat < 2 ^ 64 := by
  by_contra hover
  obtain ⟨order, horder⟩ := exists_iterates cache.staticRangeOldest
  obtain ⟨action, hok, -⟩ := h .debug 0 order horder
  simp only [checkPruneAction, cacheSizeWithOverhead_overflow (Nat.not_lt.mp hover)] at hok
  cases hok

/-- The order that puts a range of least age first makes the pruner cut that range. -/
theorem divisible_of_decidesExactly (h : DecidesExactly cache config)
    (hsize : cache.cacheSize.toNat ≤ 2 ^ 62)
    (hages : ∀ e ∈ cache.staticRangeOldest.entries, e.2.toNat ≤ 2 ^ 62)
    (hdue : PruneDue cache config) {range : Text} {age : UInt64}
    (hold : IsOldest cache range age) : Divisible range := by
  obtain ⟨order, horder, hfirst⟩ := exists_order_oldestRange hold
  obtain ⟨action, hok, -⟩ := h .debug 0 order horder
  obtain ⟨hnot, -⟩ | ⟨-, oldest, cutoff, fast, hfound, -, -, heq⟩ :=
    checkPruneAction_cases .debug 0 horder hsize hages (blocks_fit_of_decidesExactly h)
  · exact absurd hdue hnot
  · obtain rfl : ⟨range, age⟩ = oldest := Option.some.inj (hfirst.symm.trans hfound)
    rw [heq] at hok
    cases hl1 : byteSlice range 0 2 with
    | error e => simp only [hl1] at hok; cases hok
    | ok l1 =>
      cases hl2 : byteSlice range 2 4 with
      | error e => simp only [hl1, hl2] at hok; cases hok
      | ok l2 => exact ⟨l1, l2, hl1, hl2⟩

theorem decidesExactly_of_fits (hsize : cache.cacheSize.toNat ≤ 2 ^ 62)
    (hages : ∀ e ∈ cache.staticRangeOldest.entries, e.2.toNat ≤ 2 ^ 62)
    (hfit : cache.cacheCount.toNat * config.filesystemBlocksize.toNat < 2 ^ 64)
    (hdiv : PruneDue cache config → ∀ range age, IsOldest cache range age → Divisible range) :
    DecidesExactly cache config := by
  intro build now order horder
  obtain ⟨hnot, frequency, heq⟩ | ⟨hdue, oldest, cutoff, fast, hfound, hbehind, hfast, heq⟩ :=
    checkPruneAction_cases build now horder hsize hages hfit
  · exact ⟨_, heq, hnot⟩
  · have hold := isOldest_of_oldestRange horder hfound
    obtain ⟨l1, l2, hl1, hl2⟩ := hdiv hdue _ _ hold
    refine ⟨.prune ⟨oldest.1, [l1, l2], cutoff, fast⟩, ?_, hdue, ⟨oldest.2, hold, hbehind⟩, hfast⟩
    rw [heq, hl1]
    simp only [bind, Except.bind, hl2]
    rfl

end Decision

/-! ## Over every history of settings -/

/-- The decision is the exact one just when the product of the count and the block size fits,
which the server's block size ensures, and a due prune finds only ranges that can be cut. -/
theorem decidesExactly_iff (args : CliArgs) (changes : List (Text × Text)) (cache : CacheHandler)
    (hsize : cache.cacheSize.toNat ≤ 2 ^ 62)
    (hages : ∀ e ∈ cache.staticRangeOldest.entries, e.2.toNat ≤ 2 ^ 62) :
    DecidesExactly cache ((ClientSettings.load args).applySettings changes).toConfig ↔
      ((∃ change ∈ changes, setsBlocksize change) ∨
        cache.cacheCount.toNat * (args.filesystemBlocksize.getD 4096).toNat < 2 ^ 64) ∧
      (PruneDue cache ((ClientSettings.load args).applySettings changes).toConfig →
        ∀ range age, IsOldest cache range age → Divisible range) := by
  rw [← blocks_fit_iff]
  constructor
  · intro h
    exact ⟨blocks_fit_of_decidesExactly h,
      fun hdue _ _ hold => divisible_of_decidesExactly h hsize hages hdue hold⟩
  · rintro ⟨hfit, hdiv⟩
    exact decidesExactly_of_fits hsize hages hfit hdiv

/-- Four small files of one range. -/
def fourFiles : CacheHandler :=
  { CacheHandler.empty with
    cacheCount := 4
    cacheSize := 4000
    staticRangeOldest := Finmap.singleton "aabb".toList 1000 }

def tenGigabytes : List (Text × Text) :=
  [("disklimit_bytes".toList, "10737418240".toList), ("static_ranges".toList, "aabb".toList)]

theorem fourFiles_ages : ∀ e ∈ fourFiles.staticRangeOldest.entries, e.2.toNat ≤ 2 ^ 62 := by
  intro e he
  obtain rfl := Multiset.mem_singleton.mp he
  decide

theorem fourFiles_decidesExactly :
    DecidesExactly fourFiles
      ((ClientSettings.load ⟨none, none⟩).applySettings tenGigabytes).toConfig := by
  refine (decidesExactly_iff _ _ fourFiles (by decide) fourFiles_ages).mpr
    ⟨.inr (by decide), fun _ range age hold => ?_⟩
  obtain ⟨rfl, -⟩ := Sigma.mk.inj (Multiset.mem_singleton.mp hold.1)
  exact ⟨"aa".toList, "bb".toList, rfl, rfl⟩

/-- The command line sets blocks of 2^62 bytes. -/
def hugeBlocks : Config :=
  ((ClientSettings.load ⟨some 4611686018427387904, none⟩).applySettings tenGigabytes).toConfig

/-- A debug build stops, and in a release build the product wraps to 0, so that nothing is
pruned where half a block for each file exceeds the limit. -/
theorem hugeBlocks_undecided :
    checkPruneAction .debug fourFiles hugeBlocks 0 [⟨"aabb".toList, 1000⟩] = .error .overflow ∧
      checkPruneAction .release fourFiles hugeBlocks 0 [⟨"aabb".toList, 1000⟩] =
        .ok (.noPrune 600) ∧
      PruneDue fourFiles hugeBlocks ∧ ¬ DecidesExactly fourFiles hugeBlocks := by
  refine ⟨rfl, rfl, ⟨by decide, by decide, by decide, by decide⟩, fun h => ?_⟩
  exact absurd (blocks_fit_of_decidesExactly h) (by decide)

end HathRs.PruneDecision
