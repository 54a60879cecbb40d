import HathRs.PersistentCache

/-!
# Snapshots that were not completed

A proper beginning of `pcache_info` lacks the digest of the table or holds too short a
one, so it is rejected whatever the other two files hold. Clearing removes the marker
first and saving writes it last, so neither can leave a snapshot that loads unless the
save performed all its operations.
-/

namespace HathRs.PersistentCache
open TextParsing HashMaps Digests CrashFiles BincodeFormat

variable (bincode : Bincode) (sha1 : Bytes → Sha1Digest)
variable {state : PersistentCacheState} {agesHash lruHash : Text}

/-! ## A marker that was cut off -/

/-- The line does not set the digest of the table. -/
def NoLruHash (line : Text) : Prop := ∀ value, splitOnce '=' line ≠ some ("lruHash".toList, value)

theorem set_lruHash_eq {fields fields' : InfoFields} {key value : Text}
    (hk : key ≠ "lruHash".toList) (h : fields.set key value = some fields') :
    fields'.lruHash = fields.lruHash := by
  rcases set_cases h with ⟨-, n, -, rfl⟩ | ⟨-, n, -, rfl⟩ | ⟨-, n, -, rfl⟩ | ⟨-, n, -, rfl⟩ |
    ⟨-, rfl⟩ | ⟨hkey, -⟩ | ⟨-, -, rfl⟩
  · rfl
  · rfl
  · rfl
  · rfl
  · rfl
  · exact absurd hkey hk
  · rfl

theorem readInfoLine_lruHash {fields fields' : InfoFields} {line : Text} (hl : NoLruHash line)
    (h : readInfoLine fields line = some fields') : fields'.lruHash = fields.lruHash := by
  simp only [readInfoLine] at h
  cases hs : splitOnce '=' line with
  | none =>
    rw [hs] at h
    cases h
    rfl
  | some p =>
    rw [hs] at h
    exact set_lruHash_eq (fun hk => hl p.2 (by rw [hs, ← hk])) h

theorem readInfoLines_lruHash {ls : List Text} {fields fields' : InfoFields}
    (hls : ∀ line ∈ ls, NoLruHash line) (h : readInfoLines fields ls = some fields') :
    fields'.lruHash = fields.lruHash := by
  induction ls generalizing fields with
  | nil =>
    cases h
    rfl
  | cons line ls ih =>
    simp only [readInfoLines, List.foldlM_cons, bind, Option.bind_eq_some_iff] at h
    obtain ⟨mid, hmid, hrest⟩ := h
    rw [ih (fun l hl => hls l (List.mem_cons_of_mem _ hl)) hrest,
      readInfoLine_lruHash (hls line List.mem_cons_self) hmid]

/-- A beginning of another field's line does not set the digest of the table. -/
theorem noLruHash_of_prefix {key : String} {value part : Text} (hk : '=' ∉ key.toList)
    (hne : key.toList ≠ "lruHash".toList) (hp : part <+: infoLine key value) : NoLruHash part := by
  intro v hv
  rcases prefix_append_cons hp with hp | ⟨rest, rfl, -⟩
  · rw [splitOnce_eq_none (fun hmem => hk (hp.subset hmem))] at hv
    cases hv
  · rw [splitOnce_append hk] at hv
    exact hne (congrArg Prod.fst (Option.some.inj hv))

theorem frontLines_prefix {line part : Text} (hline : line ∈ frontLines state agesHash)
    (hp : part <+: line) : NoLruHash part := by
  simp only [frontLines, List.mem_cons, List.not_mem_nil, or_false] at hline
  rcases hline with rfl | rfl | rfl | rfl | rfl
  all_goals exact noLruHash_of_prefix (by decide) (by decide) hp

/-- In a marker that was cut off the digest of the table is missing or too short. -/
theorem lruHash_of_prefix (ha : Printable agesHash) (hl : Printable lruHash) {t value : Text}
    {fields : InfoFields} (ht : t <+: infoText state agesHash lruHash)
    (hne : t ≠ infoText state agesHash lruHash)
    (hread : readInfoLines {} (lines t) = some fields) (hv : fields.lruHash = some value) :
    value.length < lruHash.length := by
  rw [infoText_eq] at ht hne
  have hclean := fun line hline => (printable_markerLines state ha hl line hline).2
  rcases lines_of_prefix hclean ht with heq | ⟨whole, cut, rest, part, hls, hpart, hcut, hlines⟩
  · exact absurd heq hne
  have hnl : '\n' ∉ part := fun hmem =>
    (hclean cut (by rw [hls]; simp)).1 (hpart.subset hmem)
  have hmem : ∀ line ∈ lines part, line = part := by
    intro line hline
    by_cases hnil : part = []
    · simp [hnil, lines, linesFrom] at hline
    · simpa [lines_last hnl hnil] using hline
  rw [hlines] at hread
  have hfront : (∀ line ∈ whole, line ∈ frontLines state agesHash) → ¬ NoLruHash part := by
    intro hwhole hno
    have hnone := readInfoLines_lruHash (by
      intro line hline
      rcases List.mem_append.mp hline with hline | hline
      · exact frontLines_prefix (hwhole line hline) (List.prefix_refl line)
      · exact hmem line hline ▸ hno) hread
    rw [hv] at hnone
    cases hnone
  -- Whole lines come from the front part; only the line that was cut may be the last one.
  rcases List.eq_nil_or_concat rest with rfl | ⟨rest', last, rfl⟩
  · obtain ⟨rfl, hlast⟩ := List.append_inj' hls rfl
    obtain rfl := List.singleton_inj.mp hlast
    rcases prefix_append_cons hpart with hp | ⟨v, rfl, hvp⟩
    · refine absurd ?_ (hfront fun _ h => h)
      intro v hv'
      rw [splitOnce_eq_none (fun h => absurd (hp.subset h) (by decide))] at hv'
      cases hv'
    · have hne' : v ≠ lruHash := fun h => hcut rfl (by rw [h]; rfl)
      rw [lines_last hnl (by simp), readInfoLines, List.foldlM_append] at hread
      obtain ⟨mid, -, hmid⟩ := Option.bind_eq_some_iff.mp hread
      simp only [List.foldlM_cons, List.foldlM_nil] at hmid
      have hset : readInfoLine mid ("lruHash".toList ++ '=' :: v) = mid.set "lruHash".toList v :=
        readInfoLine_infoLine mid (by decide) v
      rw [hset, set_lruHash] at hmid
      cases hmid
      obtain rfl := Option.some.inj hv
      exact lt_of_le_of_ne hvp.length_le (fun h => hne' (hvp.eq_of_length h))
  · rw [List.concat_eq_append, ← List.cons_append, ← List.append_assoc] at hls
    obtain ⟨hfrontEq, -⟩ := List.append_inj' hls rfl
    have hcutMem : cut ∈ frontLines state agesHash := by rw [hfrontEq]; simp
    refine absurd ?_ (hfront ?_)
    · exact frontLines_prefix hcutMem hpart
    · intro line hline
      rw [hfrontEq]
      exact List.mem_append_left _ hline

/-- No beginning of the marker is loaded, whatever the other two files hold. -/
theorem tryLoad_of_torn_info {disk : Disk DataPath} {agesData lruData : Bytes} {n : ℕ}
    (hn : n < (utf8 (infoText state (sha1Bytes sha1 agesData) (sha1Bytes sha1 lruData))).length)
    (h : disk pcacheInfo = some
      ((utf8 (infoText state (sha1Bytes sha1 agesData) (sha1Bytes sha1 lruData))).take n)) :
    tryLoad bincode sha1 disk = none := by
  have hascii := ascii_infoText state (printable_sha1Bytes sha1 agesData).1
    (printable_sha1Bytes sha1 lruData).1
  rw [take_utf8_ascii hascii] at h
  rw [length_utf8_ascii hascii] at hn
  rw [Option.eq_none_iff_forall_ne_some]
  intro loaded hload
  simp only [tryLoad, h, fromUtf8_utf8, Option.bind_eq_bind, Option.bind_some] at hload
  obtain ⟨fields, hread, hload⟩ := Option.bind_eq_some_iff.mp hload
  split_ifs at hload with hsum hversion
  simp only [Option.bind_eq_some_iff] at hload
  obtain ⟨_, -, value, hvalue, _, -, _, hobject, -⟩ := hload
  have hshort := lruHash_of_prefix (printable_sha1Bytes sha1 agesData)
    (printable_sha1Bytes sha1 lruData) (List.take_prefix n _)
    (fun heq => by have := congrArg List.length heq; simp at this; omega) hread hvalue
  -- The loader compares with the digest of the file, whose text has forty characters.
  simp only [readObject, bind, Option.bind_eq_some_iff] at hobject
  obtain ⟨data, -, hdata⟩ := hobject
  split_ifs at hdata with hhash
  rw [← not_not.mp hhash, length_sha1Bytes, length_sha1Bytes] at hshort
  exact absurd hshort (lt_irrefl 40)

/-! ## Clearing and saving -/

theorem tryLoad_of_info_eq_none {disk : Disk DataPath} (h : disk pcacheInfo = none) :
    tryLoad bincode sha1 disk = none := by
  simp [tryLoad, h]

/-- Clearing touches nothing or removes the marker. -/
theorem clear_cases (faults : List Fault) (disk : Disk DataPath) :
    ((clear faults disk).1 = disk ∧ (clear faults disk).2 ≠ .ok) ∨
      (clear faults disk).1 pcacheInfo = none := by
  simp only [clear]
  rcases runOps_remove_cases disk faults pcacheInfo [.remove pcacheAges, .remove pcacheLru] with
    h | h
  · exact Or.inl h
  · rw [h, runOps_frame (by decide)]
    exact Or.inr (Function.update_self ..)

/-- Removing an absent marker and then working on the other files leaves it absent. -/
theorem info_eq_none_of_runOps {disk : Disk DataPath} (hd : disk pcacheInfo = none)
    (faults : List Fault) {ops : List (FileOp DataPath)} (ho : ∀ op ∈ ops, pcacheInfo ∉ op.names) :
    (runOps disk faults (.remove pcacheInfo :: ops)).1 pcacheInfo = none := by
  rcases runOps_remove_cases disk faults pcacheInfo ops with h | h
  · rw [h.1, hd]
  · rw [h, runOps_frame ho]
    exact Function.update_self ..

theorem failAfter_ne_ok (result : Disk DataPath × Outcome) : (failAfter result).2 ≠ .ok := by
  simp only [failAfter]
  split <;> simp

theorem infoText_ne_nil (state : PersistentCacheState) (agesHash lruHash : Text) :
    infoText state agesHash lruHash ≠ [] := by
  rw [infoText_eq]
  simp [frontLines, infoLine, joinLines]

theorem tryLoad_of_torn_write {disk : Disk DataPath} {agesData lruData : Bytes} {n : ℕ}
    (h : disk pcacheInfo = some
      ((utf8 (infoText state (sha1Bytes sha1 agesData) (sha1Bytes sha1 lruData))).dropLast.take n)) :
    tryLoad bincode sha1 disk = none := by
  have hascii := ascii_infoText state (printable_sha1Bytes sha1 agesData).1
    (printable_sha1Bytes sha1 lruData).1
  have hpos := List.length_pos_of_ne_nil (infoText_ne_nil state
    (sha1Bytes sha1 agesData) (sha1Bytes sha1 lruData))
  rw [← length_utf8_ascii hascii] at hpos
  rw [List.dropLast_eq_take, List.take_take] at h
  exact tryLoad_of_torn_info bincode sha1 (by omega) h

theorem save_ne_ok_of_snapshot_none {order : List (Entry Text UInt64)}
    (hs : snapshot bincode sha1 state order = none) (faults : List Fault) (disk : Disk DataPath) :
    (save bincode sha1 state order faults disk).2 ≠ .ok := by
  simp only [save]
  cases ha : bincode.serializeAges order with
  | none => exact failAfter_ne_ok _
  | some agesData =>
    cases hl : bincode.serializeTable state.lruCacheTable with
    | none => exact failAfter_ne_ok _
    | some lruData =>
      rw [snapshot_eq_some bincode sha1 ha hl] at hs
      cases hs

/-- A save that meets no fault stores its snapshot. -/
theorem save_nil {order : List (Entry Text UInt64)} {snap : Snapshot}
    (hs : snapshot bincode sha1 state order = some snap) (disk : Disk DataPath) :
    ∃ left, save bincode sha1 state order [] disk = (left, .ok) ∧ snap.StoredOn left := by
  simp only [snapshot, bind, pure, Option.bind_eq_some_iff, Option.some.injEq] at hs
  obtain ⟨agesData, ha, lruData, hl, rfl⟩ := hs
  refine ⟨_, ?_, storedOn_of_writes (Function.update disk pcacheInfo none) _⟩
  simp only [save, ha, hl]
  rfl

/-- A write to another file leaves the marker absent, and the run ends there or goes on. -/
theorem runOps_write_other {disk : Disk DataPath} (hd : disk pcacheInfo = none) (faults : List Fault)
    (name : DataPath) (hne : pcacheInfo ≠ name) (data : Bytes) (ops : List (FileOp DataPath)) :
    (runOps disk faults (.write name data :: ops)).1 pcacheInfo = none ∨
      runOps disk faults (.write name data :: ops) =
        runOps (Function.update disk name (some data)) faults.tail ops := by
  rcases runOps_write_cases disk faults name data ops with ⟨h | ⟨n, h⟩, -⟩ | h
  · exact Or.inl (by rw [h, hd])
  · exact Or.inl (by rw [h, Function.update_of_ne hne, hd])
  · exact Or.inr h

/-- What a save leaves behind is only loaded if the save performed every operation, and
then it is the state that was saved. -/
theorem tryLoad_save {order : List (Entry Text UInt64)} (ho : Iterates order state.staticRangeAges)
    (faults : List Fault) {disk : Disk DataPath} (hd : disk pcacheInfo = none)
    {loaded : PersistentCacheState}
    (h : tryLoad bincode sha1 (save bincode sha1 state order faults disk).1 = some loaded) :
    (save bincode sha1 state order faults disk).2 = .ok ∧ loaded = state := by
  have habsent : ∀ {d : Disk DataPath}, d pcacheInfo = none →
      tryLoad bincode sha1 d ≠ some loaded := by
    intro d hnone
    rw [tryLoad_of_info_eq_none bincode sha1 hnone]
    simp
  cases ha : bincode.serializeAges order with
  | none =>
    simp only [save, ha] at h
    exact absurd h (habsent (info_eq_none_of_runOps hd faults (by simp)))
  | some agesData =>
    cases hl : bincode.serializeTable state.lruCacheTable with
    | none =>
      simp only [save, ha, hl] at h
      exact absurd h (habsent (info_eq_none_of_runOps hd faults (by
        simp only [List.mem_singleton, forall_eq, FileOp.names]
        decide)))
    | some lruData =>
      simp only [save, ha, hl] at h ⊢
      -- The marker stays absent up to the last operation, which writes it.
      rcases runOps_remove_cases disk faults pcacheInfo _ with ⟨hrun, -⟩ | hrun
      · exact absurd (hrun ▸ h) (habsent hd)
      rw [hrun] at h ⊢
      have hd₁ : Function.update disk pcacheInfo none pcacheInfo = none := Function.update_self ..
      rcases runOps_write_other hd₁ faults.tail pcacheAges (by decide) agesData _ with
        hnone | hrun
      · exact absurd h (habsent hnone)
      rw [hrun] at h ⊢
      have hd₂ : Function.update (Function.update disk pcacheInfo none) pcacheAges (some agesData)
          pcacheInfo = none := by
        rw [Function.update_of_ne (by decide), hd₁]
      rcases runOps_write_other hd₂ faults.tail.tail pcacheLru (by decide) lruData _ with
        hnone | hrun
      · exact absurd h (habsent hnone)
      rw [hrun] at h ⊢
      rcases runOps_write_cases _ faults.tail.tail.tail pcacheInfo _ [] with
        ⟨hrun | ⟨n, hrun⟩, -⟩ | hrun
      · rw [hrun] at h
        exact absurd h (habsent (by rw [Function.update_of_ne (by decide), hd₂]))
      · rw [hrun, tryLoad_of_torn_write bincode sha1 (Function.update_self ..)] at h
        cases h
      · rw [hrun] at h ⊢
        have hload := tryLoad_of_snapshot bincode sha1 ho (snapshot_eq_some bincode sha1 ha hl)
          (storedOn_of_writes (Function.update disk pcacheInfo none) _)
        exact ⟨rfl, (Option.some.inj (hload.symm.trans h)).symm⟩

end HathRs.PersistentCache
