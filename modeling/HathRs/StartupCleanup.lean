import HathRs.StartupRescan

/-!
# The cleanup before the scan

The cleanup moves the files that lie directly in first-level directories to their cache paths
and removes those that no path belongs to. It looks at the name alone: a file is moved over
whatever file its cache path names, and of several files with one cache path the last one listed
stays. What already lies in a second-level directory is not looked at, so a file that the scan
accepts there may lie anywhere.
-/

namespace HathRs.StartupCleanup
open TextParsing Digests FileIds MachineArithmetic Directories CacheTrees TransitionRuns StartupRescan

/-! ## The pass -/

/-- The names of the two directories of a file and of the file. -/
def targetL1 (hv : HVFile) : Name := utf8 (hv.hash.text.take 2)

def targetL2 (hv : HVFile) : Name := utf8 ((hv.hash.text.take 4).drop 2)

def targetName (hv : HVFile) : Name := utf8 hv.fileid

theorem map_cachePath (hv : HVFile) :
    hv.cachePath.map utf8 = [targetL1 hv, targetL2 hv, targetName hv] := rfl

section Pass

variable (config : ClientSettings)

/-- One entry of a first-level directory. -/
def cleanupEntry (l1 : Name) (c : CacheDir) (name : Name) : CacheDir :=
  if isDir (l2Entry c l1 name) then c
  else
    match fromFileid (toStr name) with
    | none => removeL2File c l1 name
    | some hv =>
      if !config.isStaticRange hv.staticRange then removeL2File c l1 name
      else
        match ensureL2Dir c (targetL1 hv) (targetL2 hv) with
        | none => c
        | some c =>
          (renameL2File c l1 name (targetL1 hv) (targetL2 hv) (targetName hv)).getD c

/-- One entry of the cache directory. -/
def cleanupL1 (c : CacheDir) (l1 : Name) : CacheDir :=
  if !isDir (c.lookup l1) then removeL1File c l1
  else
    let entries := listSortedFiles (l1Dir c l1)
    if entries = [] then removeL1Dir c l1 else entries.foldl (cleanupEntry config l1) c

def cleanup (c : CacheDir) : CacheDir := (listSortedFiles c).foldl (cleanupL1 config) c

end Pass

/-! ## The files that are moved -/

/-- A file directly in a first-level directory, with an id whose static range is assigned. -/
structure Orphan where
  l1 : Name
  name : Name
  hv : HVFile
  file : CachedFile

def Orphan.target (o : Orphan) : Name × Name × Name :=
  (targetL1 o.hv, targetL2 o.hv, targetName o.hv)

section Orphans

variable (config : ClientSettings) (c : CacheDir)

def orphanAt (l1 name : Name) : Option Orphan :=
  (asFile (l2Entry c l1 name)).bind fun f =>
    ((fromFileid (toStr name)).filter fun hv => config.isStaticRange hv.staticRange).map fun hv =>
      ⟨l1, name, hv, f⟩

def orphansIn (l1 : Name) : List Orphan :=
  (listSortedFiles (l1Dir c l1)).filterMap (orphanAt config c l1)

/-- In the order in which they are met. -/
def orphans : List Orphan := (listSortedFiles c).flatMap (orphansIn config c)

/-- Nothing stands in the way: the first-level name of the target is not that of a regular file
listed behind the orphan's directory, and the target is not a directory. -/
def lands (o : Orphan) : Bool :=
  !((asFile (c.lookup (targetL1 o.hv))).isSome && decide (NameLe o.l1 (targetL1 o.hv))) &&
    !isDir (l3Entry c (targetL1 o.hv) (targetL2 o.hv) (targetName o.hv))

/-- The last of the orphans that land on the place. -/
def lastLanding (seen : List Orphan) (place : Name × Name × Name) : Option Orphan :=
  (seen.filter fun o => lands c o && decide (o.target = place)).getLast?

end Orphans

section OrphanFacts

variable {config : ClientSettings} {c : CacheDir} {a n : Name} {o : Orphan}

theorem orphanAt_eq_some : orphanAt config c a n = some o ↔ o.l1 = a ∧ o.name = n ∧
    l2Entry c a n = some (.file o.file) ∧ fromFileid (toStr n) = some o.hv ∧
      config.isStaticRange o.hv.staticRange = true := by
  have hfile : ∀ f, asFile (l2Entry c a n) = some f ↔ l2Entry c a n = some (.file f) := by
    intro f
    cases l2Entry c a n with
    | none => simp [asFile]
    | some e => cases e <;> simp [asFile]
  simp only [orphanAt, Option.bind_eq_some_iff, Option.map_eq_some_iff, Option.filter_eq_some_iff,
    hfile]
  constructor
  · rintro ⟨f, hf, hv, ⟨hid, hrange⟩, rfl⟩
    exact ⟨rfl, rfl, hf, hid, hrange⟩
  · rintro ⟨rfl, rfl, hf, hid, hrange⟩
    exact ⟨o.file, hf, o.hv, ⟨hid, hrange⟩, rfl⟩

theorem mem_orphansIn : o ∈ orphansIn config c a ↔ o.l1 = a ∧
    orphanAt config c o.l1 o.name = some o := by
  simp only [orphansIn, List.mem_filterMap]
  constructor
  · rintro ⟨n, -, hat⟩
    obtain ⟨rfl, rfl, -⟩ := orphanAt_eq_some.mp hat
    exact ⟨rfl, hat⟩
  · rintro ⟨rfl, hat⟩
    refine ⟨o.name, ?_, hat⟩
    have hl2 := (orphanAt_eq_some.mp hat).2.2.1
    rw [mem_listSortedFiles]
    change (l2Entry c o.l1 o.name).isSome = true
    rw [hl2]
    rfl

theorem mem_orphans : o ∈ orphans config c ↔ orphanAt config c o.l1 o.name = some o := by
  simp only [orphans, List.mem_flatMap, mem_orphansIn]
  constructor
  · rintro ⟨a, -, rfl, hat⟩
    exact hat
  · intro hat
    refine ⟨o.l1, ?_, rfl, hat⟩
    have hdir := isDir_of_l2Entry (c := c) (a := o.l1) (b := o.name) (by
      rw [(orphanAt_eq_some.mp hat).2.2.1]
      rfl)
    rw [mem_listSortedFiles]
    cases hl : c.lookup o.l1 with
    | none => rw [hl] at hdir; cases hdir
    | some e => rfl

/-- An orphan is told by its place. -/
theorem orphan_ext {o' : Orphan} (h : o ∈ orphans config c) (h' : o' ∈ orphans config c)
    (hl1 : o.l1 = o'.l1) (hname : o.name = o'.name) : o = o' := by
  rw [mem_orphans] at h h'
  rw [hl1, hname, h'] at h
  exact (Option.some.inj h).symm

theorem lastLanding_append (seen : List Orphan) (o : Orphan) (place : Name × Name × Name) :
    lastLanding c (seen ++ [o]) place =
      if lands c o = true ∧ o.target = place then some o else lastLanding c seen place := by
  rw [lastLanding, List.filter_append]
  by_cases h : lands c o = true ∧ o.target = place
  · rw [if_pos h]
    simp [h]
  · rw [if_neg h]
    have hnot : (lands c o && decide (o.target = place)) = false := by
      rw [Bool.and_eq_false_iff, decide_eq_false_iff_not, ← Bool.not_eq_true]
      exact not_and_or.mp h
    simp [hnot, lastLanding]

end OrphanFacts

/-! ## What the pass has done -/

/-- The pass has been at these entries of the cache directory and met these orphans. -/
structure Cleaned (config : ClientSettings) (c : CacheDir) (visited : List Name)
    (seen : List Orphan) (t : CacheDir) : Prop where
  l1File : ∀ a, (asFile (t.lookup a)).isSome ↔ (asFile (c.lookup a)).isSome ∧ a ∉ visited
  dirs : ∀ a, isDir (c.lookup a) = true → a ∉ visited → isDir (t.lookup a) = true
  l2File : ∀ a n f, asFile (l2Entry t a n) = some f → asFile (l2Entry c a n) = some f
  pending : ∀ o ∈ orphans config c, (o ∉ seen ∨ lands c o = false) →
    asFile (l2Entry t o.l1 o.name) = some o.file
  moved : ∀ o ∈ seen, lands c o = true → asFile (l2Entry t o.l1 o.name) = none
  l3 : ∀ a b n, l3Entry t a b n = match lastLanding c seen (a, b, n) with
    | some o => some (.file o.file)
    | none => l3Entry c a b n

section Entry

variable {config : ClientSettings} {c t t' : CacheDir} {visited : List Name}
variable {seen : List Orphan} {a n : Name} {o : Orphan}

theorem cleaned_nil (config : ClientSettings) (c : CacheDir) : Cleaned config c [] [] c where
  l1File := fun a => by simp
  dirs := fun _ h _ => h
  l2File := fun _ _ _ h => h
  pending := fun o h _ => by
    rw [(orphanAt_eq_some.mp (mem_orphans.mp h)).2.2.1]
    rfl
  moved := fun _ h => absurd h List.not_mem_nil
  l3 := fun _ _ _ => rfl

/-- A file that is no orphan may be lost. -/
theorem Cleaned.loses (h : Cleaned config c visited seen t) (hloses : LosesFile t t' a n)
    (hplace : ∀ o ∈ orphans config c, (o.l1, o.name) ≠ (a, n))
    (hl3 : ∀ x y m, l3Entry t' x y m = l3Entry t x y m) : Cleaned config c visited seen t' where
  l1File := fun x => by rw [hloses.l1File x, h.l1File x]
  dirs := fun x hdir hx => hloses.l1Dir x (h.dirs x hdir hx)
  l2File := by
    intro x y f hf
    by_cases hxy : (x, y) = (a, n)
    · obtain ⟨rfl, rfl⟩ := Prod.mk.inj hxy
      rw [hloses.gone] at hf
      cases hf
    · exact h.l2File x y f (hloses.l2File x y hxy ▸ hf)
  pending := fun o ho hseen => by rw [hloses.l2File _ _ (hplace o ho), h.pending o ho hseen]
  moved := by
    intro o ho hlands
    by_cases hxy : (o.l1, o.name) = (a, n)
    · obtain ⟨rfl, rfl⟩ := Prod.mk.inj hxy
      exact hloses.gone
    · rw [hloses.l2File _ _ hxy, h.moved o ho hlands]
  l3 := fun x y m => (hl3 x y m).trans (h.l3 x y m)

/-- The name of a second-level directory is no id. -/
theorem fromFileid_targetL2 (hv : HVFile) : fromFileid (toStr (targetL2 hv)) = none := by
  rw [targetL2, toStr_utf8]
  have hdash : '-' ∉ (hv.hash.text.take 4).drop 2 := fun hin =>
    hv.hash.hyphen_notMem (List.mem_of_mem_take (List.mem_of_mem_drop hin))
  have hsplit := List.splitOn_eq_singleton hdash
  by_contra hne
  obtain ⟨hv', hid⟩ := Option.ne_none_iff_exists'.mp hne
  rcases fromFileid_cases hid with ⟨hash, size, ext, hparts, -⟩ |
    ⟨hash, size, xres, yres, ext, hparts, -⟩
  · rw [hsplit] at hparts
    cases hparts
  · rw [hsplit] at hparts
    cases hparts

/-- Making a second-level directory takes no orphan away. -/
theorem Cleaned.ensure (h : Cleaned config c visited seen t) {hv : HVFile}
    (hensure : ensureL2Dir t (targetL1 hv) (targetL2 hv) = some t') :
    Cleaned config c visited seen t' := by
  obtain ⟨hloses, -, hl3⟩ := ensureL2Dir_views hensure
  refine h.loses hloses ?_ hl3
  intro o ho heq
  have hid := (orphanAt_eq_some.mp (mem_orphans.mp ho)).2.2.2.1
  rw [(Prod.mk.inj heq).2, fromFileid_targetL2] at hid
  cases hid

/-- An orphan that does not land stays where it is. -/
theorem Cleaned.skip (h : Cleaned config c visited seen t) (hlands : lands c o = false) :
    Cleaned config c visited (seen ++ [o]) t where
  l1File := h.l1File
  dirs := h.dirs
  l2File := h.l2File
  pending := by
    intro o' ho' hor
    by_cases heq : o' ∈ seen
    · rcases hor with hnot | hnot
      · exact absurd (List.mem_append_left _ heq) hnot
      · exact h.pending o' ho' (.inr hnot)
    · exact h.pending o' ho' (.inl heq)
  moved := by
    intro o' ho' hlands'
    rcases List.mem_append.mp ho' with ho' | ho'
    · exact h.moved o' ho' hlands'
    · rw [List.mem_singleton.mp ho', hlands] at hlands'
      cases hlands'
  l3 := by
    intro x y m
    rw [lastLanding_append, if_neg (by rw [hlands]; exact fun h => absurd h.1 (by decide))]
    exact h.l3 x y m

/-- An orphan that lands is moved to its target. -/
theorem Cleaned.move (h : Cleaned config c visited seen t) (ho : o ∈ orphans config c)
    (hlands : lands c o = true) (hloses : LosesFile t t' o.l1 o.name)
    (htarget : l3Entry t' (targetL1 o.hv) (targetL2 o.hv) (targetName o.hv) = some (.file o.file))
    (hl3 : ∀ x y m, (x, y, m) ≠ o.target → l3Entry t' x y m = l3Entry t x y m) :
    Cleaned config c visited (seen ++ [o]) t' where
  l1File := fun x => by rw [hloses.l1File x, h.l1File x]
  dirs := fun x hdir hx => hloses.l1Dir x (h.dirs x hdir hx)
  l2File := by
    intro x y f hf
    by_cases hxy : (x, y) = (o.l1, o.name)
    · obtain ⟨rfl, rfl⟩ := Prod.mk.inj hxy
      rw [hloses.gone] at hf
      cases hf
    · exact h.l2File x y f (hloses.l2File x y hxy ▸ hf)
  pending := by
    intro o' ho' hor
    have hne : o' ≠ o := by
      rintro rfl
      rcases hor with hnot | hnot
      · exact hnot (List.mem_append_right _ List.mem_cons_self)
      · rw [hlands] at hnot
        cases hnot
    have hplace : (o'.l1, o'.name) ≠ (o.l1, o.name) := fun heq =>
      hne (orphan_ext ho' ho (Prod.mk.inj heq).1 (Prod.mk.inj heq).2)
    rw [hloses.l2File _ _ hplace]
    exact h.pending o' ho' (hor.imp_left fun hnot hin => hnot (List.mem_append_left _ hin))
  moved := by
    intro o' ho' hlands'
    by_cases hplace : (o'.l1, o'.name) = (o.l1, o.name)
    · rw [(Prod.mk.inj hplace).1, (Prod.mk.inj hplace).2]
      exact hloses.gone
    · rw [hloses.l2File _ _ hplace]
      rcases List.mem_append.mp ho' with hin | hin
      · exact h.moved o' hin hlands'
      · exact absurd (by rw [List.mem_singleton.mp hin]) hplace
  l3 := by
    intro x y m
    rw [lastLanding_append]
    by_cases heq : o.target = (x, y, m)
    · rw [if_pos ⟨hlands, heq⟩]
      obtain ⟨hx, hym⟩ := Prod.mk.inj heq
      obtain ⟨hy, hm⟩ := Prod.mk.inj hym
      rw [← hx, ← hy, ← hm]
      exact htarget
    · rw [if_neg fun h => heq h.2, hl3 x y m fun h => heq h.symm]
      exact h.l3 x y m

theorem Cleaned.entry_none (h : Cleaned config c visited seen t)
    (hat : orphanAt config c a n = none) :
    Cleaned config c visited seen (cleanupEntry config a t n) := by
  have hplace : ∀ o ∈ orphans config c, (o.l1, o.name) ≠ (a, n) := by
    intro o ho heq
    rw [mem_orphans, (Prod.mk.inj heq).1, (Prod.mk.inj heq).2, hat] at ho
    cases ho
  rw [cleanupEntry]
  by_cases hdir : isDir (l2Entry t a n) = true
  · rw [if_pos hdir]
    exact h
  · rw [if_neg hdir]
    rw [Bool.not_eq_true] at hdir
    obtain ⟨hloses, hl3⟩ := removeL2File_views hdir
    cases hid : fromFileid (toStr n) with
    | none => exact h.loses hloses hplace hl3
    | some hv =>
      cases hrange : config.isStaticRange hv.staticRange with
      | false => simpa [hrange] using h.loses hloses hplace hl3
      | true =>
        simp only [hrange, Bool.not_true, Bool.false_eq_true, if_false]
        cases hensure : ensureL2Dir t (targetL1 hv) (targetL2 hv) with
        | none => exact h
        | some t' =>
          have hmade := h.ensure hensure
          have hfile : asFile (l2Entry t' a n) = none := by
            by_contra hne
            obtain ⟨f, hf⟩ := Option.ne_none_iff_exists'.mp hne
            rw [orphanAt, hmade.l2File a n f hf, hid] at hat
            simp [hrange] at hat
          simp only [renameL2File_of_no_file hfile, Option.getD_none]
          exact hmade

/-- What is at the target when an orphan is met. -/
theorem Cleaned.isDir_target (h : Cleaned config c visited seen t) (x y m : Name) :
    isDir (l3Entry t x y m) = isDir (l3Entry c x y m) := by
  rw [h.l3 x y m]
  cases hlast : lastLanding c seen (x, y, m) with
  | none => rfl
  | some o =>
    have hin := List.mem_of_getLast? hlast
    rw [List.mem_filter, Bool.and_eq_true, decide_eq_true_eq, lands, Bool.and_eq_true] at hin
    obtain ⟨-, ⟨-, hdir⟩, htarget⟩ := hin
    obtain ⟨rfl, hym⟩ := Prod.mk.inj htarget
    obtain ⟨rfl, rfl⟩ := Prod.mk.inj hym
    rw [Bool.not_eq_true'] at hdir
    rw [hdir]
    rfl

theorem Cleaned.entry_some (h : Cleaned config c visited seen t)
    (hat : orphanAt config c a n = some o) (hnew : o ∉ seen)
    (hblock : (asFile (t.lookup (targetL1 o.hv))).isSome ↔
      (asFile (c.lookup (targetL1 o.hv))).isSome ∧ NameLe a (targetL1 o.hv)) :
    Cleaned config c visited (seen ++ [o]) (cleanupEntry config a t n) := by
  obtain ⟨rfl, rfl, -, hid, hrange⟩ := orphanAt_eq_some.mp hat
  have ho : o ∈ orphans config c := mem_orphans.mpr hat
  have hfile : ∀ {t : CacheDir}, Cleaned config c visited seen t →
      l2Entry t o.l1 o.name = some (.file o.file) := by
    intro t ht
    have hpending := ht.pending o ho (.inl hnew)
    cases he : l2Entry t o.l1 o.name with
    | none => rw [he] at hpending; cases hpending
    | some e =>
      cases e with
      | file f =>
        rw [he] at hpending
        rw [Option.some.inj hpending]
      | dir d => rw [he] at hpending; cases hpending
  have hstep : cleanupEntry config o.l1 t o.name =
      match ensureL2Dir t (targetL1 o.hv) (targetL2 o.hv) with
      | none => t
      | some t' => (renameL2File t' o.l1 o.name (targetL1 o.hv) (targetL2 o.hv)
          (targetName o.hv)).getD t' := by
    simp only [cleanupEntry, hfile h, isDir, Bool.false_eq_true, if_false, hid, hrange,
      Bool.not_true]
  rw [hstep]
  cases hensure : ensureL2Dir t (targetL1 o.hv) (targetL2 o.hv) with
  | none =>
    refine h.skip ?_
    obtain ⟨hl1, hle⟩ := hblock.mp (ensureL2Dir_eq_none.mp hensure)
    simp [lands, hl1, hle]
  | some t' =>
    have hmade := h.ensure hensure
    have hdir := (ensureL2Dir_views hensure).2.1
    cases htarget : isDir (l3Entry c (targetL1 o.hv) (targetL2 o.hv) (targetName o.hv)) with
    | true =>
      have hnow := (hmade.isDir_target _ _ _).trans htarget
      simp only [renameL2File_of_isDir hnow, Option.getD_none]
      exact hmade.skip (by simp [lands, htarget])
    | false =>
      have hnow := (hmade.isDir_target _ _ _).trans htarget
      obtain ⟨t₂, hrename, hloses, hl3, hothers⟩ := renameL2File_views (hfile hmade) hdir hnow
      simp only [hrename, Option.getD_some]
      refine hmade.move ho ?_ hloses hl3 hothers
      have hfree : ¬ ((asFile (c.lookup (targetL1 o.hv))).isSome = true ∧
          NameLe o.l1 (targetL1 o.hv)) := by
        intro hblocked
        have hnone := ensureL2Dir_eq_none (b := targetL2 o.hv).mpr (hblock.mpr hblocked)
        rw [hnone] at hensure
        cases hensure
      rw [lands, htarget, Bool.not_false, Bool.and_true, Bool.not_eq_true', ← Bool.not_eq_true,
        Bool.and_eq_true, decide_eq_true_eq]
      exact hfree

end Entry

/-! ## The whole pass -/

section Pass

variable {config : ClientSettings} {c t : CacheDir} {visited rest : List Name}
variable {seen : List Orphan} {a : Name}

/-- What is listed behind an entry is not before it in the order of names. -/
theorem notMem_visited_iff (h : listSortedFiles c = visited ++ a :: rest) {x : Name}
    (hx : (c.lookup x).isSome) : x ∉ visited ↔ NameLe a x := by
  have hsorted := sorted_listSortedFiles c
  have hnodup := nodup_listSortedFiles c
  rw [h] at hsorted hnodup
  obtain ⟨-, hback, hcross⟩ := List.pairwise_append.mp hsorted
  constructor
  · intro hnot
    have hin : x ∈ listSortedFiles c := mem_listSortedFiles.mpr hx
    rw [h, List.mem_append] at hin
    rcases List.mem_cons.mp (hin.resolve_left hnot) with rfl | hin
    · exact le_refl _
    · exact (List.pairwise_cons.mp hback).1 x hin
  · intro hle hin
    have heq : x = a := Std.Antisymm.antisymm _ _ (hcross x hin a List.mem_cons_self) hle
    exact notMem_of_nodup hnodup (heq ▸ hin)

theorem Cleaned.blocked_iff (h : Cleaned config c visited seen t)
    (hlist : listSortedFiles c = visited ++ a :: rest) (x : Name) :
    (asFile (t.lookup x)).isSome ↔ (asFile (c.lookup x)).isSome ∧ NameLe a x := by
  rw [h.l1File x]
  refine and_congr_right fun hfile => notMem_visited_iff hlist ?_
  cases hx : c.lookup x with
  | none => rw [hx] at hfile; cases hfile
  | some e => rfl

theorem filterMap_filter_isSome {α β : Type} (f : α → Option β) (xs : List α) :
    (xs.filter fun x => (f x).isSome).filterMap f = xs.filterMap f := by
  rw [List.filterMap_filter]
  congr
  funext x
  cases f x <;> rfl

/-- Two listings with the same orphans have them in the same order. -/
theorem filterMap_orphanAt {d d' : L1Dir}
    (h : ∀ n, (orphanAt config c a n).isSome → ((d.lookup n).isSome ∧ (d'.lookup n).isSome)) :
    (listSortedFiles d).filterMap (orphanAt config c a) =
      (listSortedFiles d').filterMap (orphanAt config c a) := by
  have hfilter : (listSortedFiles d).filter (fun n => (orphanAt config c a n).isSome) =
      (listSortedFiles d').filter fun n => (orphanAt config c a n).isSome := by
    refine List.Perm.eq_of_pairwise' ((sorted_listSortedFiles d).filter _)
      ((sorted_listSortedFiles d').filter _) ?_
    rw [List.perm_ext_iff_of_nodup ((nodup_listSortedFiles d).filter _)
      ((nodup_listSortedFiles d').filter _)]
    intro n
    simp only [List.mem_filter, mem_listSortedFiles]
    constructor
    · rintro ⟨-, hsome⟩
      exact ⟨(h n hsome).2, hsome⟩
    · rintro ⟨-, hsome⟩
      exact ⟨(h n hsome).1, hsome⟩
  rw [← filterMap_filter_isSome, hfilter, filterMap_filter_isSome]

theorem notMem_flatMap_orphansIn {o : Orphan} (h : o.l1 ∉ visited) :
    o ∉ visited.flatMap (orphansIn config c) := by
  rw [List.mem_flatMap]
  rintro ⟨a, ha, ho⟩
  exact h ((mem_orphansIn.mp ho).1 ▸ ha)

/-- The loop over the entries of a first-level directory. -/
theorem Cleaned.entries (h : Cleaned config c visited (visited.flatMap (orphansIn config c)) t)
    (hlist : listSortedFiles c = visited ++ a :: rest) (hdir : isDir (c.lookup a) = true) :
    Cleaned config c visited ((visited ++ [a]).flatMap (orphansIn config c))
      ((listSortedFiles (l1Dir t a)).foldl (cleanupEntry config a) t) := by
  have hnew : a ∉ visited := notMem_of_nodup (hlist ▸ nodup_listSortedFiles c)
  have hsame : (listSortedFiles (l1Dir t a)).filterMap (orphanAt config c a) =
      orphansIn config c a := by
    refine filterMap_orphanAt fun n hsome => ?_
    obtain ⟨o, hat⟩ := Option.isSome_iff_exists.mp hsome
    obtain ⟨rfl, rfl, hl2, -⟩ := orphanAt_eq_some.mp hat
    have hpending := h.pending o (mem_orphans.mpr hat) (.inl (notMem_flatMap_orphansIn hnew))
    constructor
    · change (l2Entry t o.l1 o.name).isSome = true
      cases he : l2Entry t o.l1 o.name with
      | none => rw [he] at hpending; cases hpending
      | some e => rfl
    · change (l2Entry c o.l1 o.name).isSome = true
      rw [hl2]
      rfl
  rw [List.flatMap_append, List.flatMap_singleton, ← hsame]
  refine foldl_invariant (fun names t => Cleaned config c visited
    (visited.flatMap (orphansIn config c) ++ names.filterMap (orphanAt config c a)) t) ?_ ?_
  · intro names n others t hnames ht
    rw [List.filterMap_append, ← List.append_assoc]
    cases hat : orphanAt config c a n with
    | none =>
      rw [List.filterMap_cons_none hat, List.filterMap_nil, List.append_nil]
      exact ht.entry_none hat
    | some o =>
      rw [List.filterMap_cons_some hat, List.filterMap_nil]
      refine ht.entry_some hat ?_ (ht.blocked_iff hlist _)
      obtain ⟨rfl, rfl, -⟩ := orphanAt_eq_some.mp hat
      rw [List.mem_append, not_or]
      refine ⟨notMem_flatMap_orphansIn hnew, ?_⟩
      rw [List.mem_filterMap]
      rintro ⟨n', hn', hat'⟩
      obtain ⟨-, hname, -⟩ := orphanAt_eq_some.mp hat'
      exact notMem_of_nodup (hnames ▸ nodup_listSortedFiles _) (hname ▸ hn')
  · rw [List.filterMap_nil, List.append_nil]
    exact h

/-- Nothing of the cache directory but the entry is lost when it is removed. -/
theorem Cleaned.visit_erase (h : Cleaned config c visited seen t)
    (hl2 : ∀ y, l2Entry t a y = none) : Cleaned config c (visited ++ [a]) seen (t.erase a) where
  l1File := by
    intro x
    by_cases hx : x = a
    · subst hx
      simp [asFile]
    · rw [AList.lookup_erase_ne hx, h.l1File x]
      simp [hx]
  dirs := by
    intro x hdir hnot
    have hx : x ≠ a := by
      rintro rfl
      exact hnot (List.mem_append_right _ List.mem_cons_self)
    rw [AList.lookup_erase_ne hx]
    exact h.dirs x hdir fun hin => hnot (List.mem_append_left _ hin)
  l2File := fun x y f hf => h.l2File x y f (l2Entry_eraseL1 hl2 x y ▸ hf)
  pending := fun o ho hor => by rw [l2Entry_eraseL1 hl2, h.pending o ho hor]
  moved := fun o ho hlands => by rw [l2Entry_eraseL1 hl2, h.moved o ho hlands]
  l3 := fun x y m => (l3Entry_congr (l2Entry_eraseL1 hl2 x y) m).trans (h.l3 x y m)

/-- A directory that has been visited keeps what it has. -/
theorem Cleaned.visit_dir (h : Cleaned config c visited seen t) (hdir : isDir (c.lookup a) = true) :
    Cleaned config c (visited ++ [a]) seen t where
  l1File := by
    intro x
    rw [h.l1File x]
    refine and_congr_right fun hfile => ?_
    have hx : x ≠ a := by
      rintro rfl
      rw [asFile_of_isDir hdir] at hfile
      cases hfile
    simp [hx]
  dirs := fun x hx hnot => h.dirs x hx fun hin => hnot (List.mem_append_left _ hin)
  l2File := h.l2File
  pending := h.pending
  moved := h.moved
  l3 := h.l3

/-- One entry of the cache directory. -/
theorem Cleaned.visit (h : Cleaned config c visited (visited.flatMap (orphansIn config c)) t)
    (hlist : listSortedFiles c = visited ++ a :: rest) :
    Cleaned config c (visited ++ [a]) ((visited ++ [a]).flatMap (orphansIn config c))
      (cleanupL1 config t a) := by
  have hnew : a ∉ visited := notMem_of_nodup (hlist ▸ nodup_listSortedFiles c)
  cases hc : c.lookup a with
  | none =>
    have hin : a ∈ listSortedFiles c := hlist ▸ List.mem_append_right _ List.mem_cons_self
    rw [mem_listSortedFiles, hc] at hin
    cases hin
  | some e =>
    cases e with
    | file f =>
      have hfile : (asFile (t.lookup a)).isSome := (h.l1File a).mpr ⟨by rw [hc]; rfl, hnew⟩
      obtain ⟨g, ht⟩ : ∃ g, t.lookup a = some (.file g) := by
        cases ht : t.lookup a with
        | none => rw [ht] at hfile; cases hfile
        | some e =>
          cases e with
          | file g => exact ⟨g, rfl⟩
          | dir d => rw [ht] at hfile; cases hfile
      have hnone : orphansIn config c a = [] := by
        rw [orphansIn, l1Dir, hc]
        rfl
      have hstep : cleanupL1 config t a = t.erase a := by
        simp only [cleanupL1, removeL1File, ht, isDir, Bool.not_false, if_true]
      rw [hstep, List.flatMap_append, List.flatMap_singleton, hnone, List.append_nil]
      exact h.visit_erase (l2Entry_of_file ht)
    | dir d =>
      have hdir : isDir (c.lookup a) = true := by rw [hc]; rfl
      have ht := h.dirs a hdir hnew
      have hentries := h.entries hlist hdir
      by_cases hnil : listSortedFiles (l1Dir t a) = []
      · have hstep : cleanupL1 config t a = t.erase a := by
          cases hl : t.lookup a with
          | none => rw [hl] at ht; cases ht
          | some e =>
            cases e with
            | file f => rw [hl] at ht; cases ht
            | dir d =>
              rw [l1Dir, hl] at hnil
              simp only [cleanupL1, removeL1Dir, hl, isDir, l1Dir, hnil, Bool.not_true,
                Bool.false_eq_true, if_false, if_true, show listSortedFiles d = [] from hnil]
        rw [hnil, List.foldl_nil] at hentries
        rw [hstep]
        exact hentries.visit_erase fun y => listSortedFiles_eq_nil hnil y
      · have hstep : cleanupL1 config t a =
            (listSortedFiles (l1Dir t a)).foldl (cleanupEntry config a) t := by
          simp only [cleanupL1, ht, Bool.not_true, Bool.false_eq_true, if_false, if_neg hnil]
        rw [hstep]
        exact hentries.visit_dir hdir

/-- The cleanup has been everywhere and met every orphan. -/
theorem cleaned_cleanup (config : ClientSettings) (c : CacheDir) :
    Cleaned config c (listSortedFiles c) (orphans config c) (cleanup config c) := by
  refine foldl_invariant (fun visited t =>
    Cleaned config c visited (visited.flatMap (orphansIn config c)) t) ?_ (cleaned_nil config c)
  intro visited a rest t hlist ht
  exact ht.visit hlist

end Pass

/-! ## What the cleanup keeps -/

/-- A file at its own cache path, under the canonical name, of the length in the name and with an
assigned range. -/
def GoodAt (config : ClientSettings) (c : CacheDir) (a b n : Name) (f : CachedFile) : Prop :=
  fileAt c a b n = some f ∧ ∃ hv, fromFileid (toStr n) = some hv ∧
    [a, b, n] = hv.cachePath.map utf8 ∧ f.content.length = hv.size.toNat ∧
    config.isStaticRange hv.staticRange = true

/-- Good files keep their bytes, and each orphan of the right length is moved to its cache path
unless there was a good file. -/
structure Keeps (config : ClientSettings) (before after : CacheDir) : Prop where
  good : ∀ a b n f, GoodAt config before a b n f →
    ∃ f', fileAt after a b n = some f' ∧ f'.content = f.content
  orphans : ∀ l1 name f hv a b n, l2Entry before l1 name = some (.file f) →
    fromFileid (toStr name) = some hv → config.isStaticRange hv.staticRange = true →
    f.content.length = hv.size.toNat → [a, b, n] = hv.cachePath.map utf8 →
    (¬ ∃ g, GoodAt config before a b n g) →
    asFile (l2Entry after l1 name) = none ∧
      ∃ f', fileAt after a b n = some f' ∧ f'.content = f.content

/-- Of the orphans that land on one place the last one has the bytes of the good file there, or,
where there is none, the bytes of each orphan of the right length with that cache path; and such
an orphan lands. -/
structure Harmless (config : ClientSettings) (c : CacheDir) : Prop where
  good : ∀ a b n g, GoodAt config c a b n g →
    ∀ o, lastLanding c (orphans config c) (a, b, n) = some o → o.file.content = g.content
  orphans : ∀ o ∈ orphans config c, o.file.content.length = o.hv.size.toNat →
    (¬ ∃ g, GoodAt config c (targetL1 o.hv) (targetL2 o.hv) (targetName o.hv) g) →
    lands c o = true ∧ ∀ o', lastLanding c (orphans config c) o.target = some o' →
      o'.file.content = o.file.content

section Keeping

variable {config : ClientSettings} {c : CacheDir} {a b n : Name} {o : Orphan}

theorem fileAt_cleanup_some (h : lastLanding c (orphans config c) (a, b, n) = some o) :
    fileAt (cleanup config c) a b n = some o.file := by
  rw [fileAt, (cleaned_cleanup config c).l3, h]
  rfl

theorem fileAt_cleanup_none (h : lastLanding c (orphans config c) (a, b, n) = none) :
    fileAt (cleanup config c) a b n = fileAt c a b n := by
  rw [fileAt, (cleaned_cleanup config c).l3, h, fileAt]

theorem exists_lastLanding (ho : o ∈ orphans config c) (hlands : lands c o = true) :
    ∃ o', lastLanding c (orphans config c) o.target = some o' := by
  have hin : o ∈ (orphans config c).filter fun o' => lands c o' && decide (o'.target = o.target) :=
    List.mem_filter.mpr ⟨ho, by simp [hlands]⟩
  exact ⟨_, List.getLast?_eq_some_getLast (List.ne_nil_of_mem hin)⟩

theorem Harmless.keeps (h : Harmless config c) : Keeps config c (cleanup config c) where
  good := by
    intro a b n f hgood
    cases hlast : lastLanding c (StartupCleanup.orphans config c) (a, b, n) with
    | none => exact ⟨f, (fileAt_cleanup_none hlast).trans hgood.1, rfl⟩
    | some o => exact ⟨o.file, fileAt_cleanup_some hlast, h.good a b n f hgood o hlast⟩
  orphans := by
    intro l1 name f hv a b n hfile hid hrange hlen hpath hno
    have ho : (⟨l1, name, hv, f⟩ : Orphan) ∈ StartupCleanup.orphans config c :=
      mem_orphans.mpr (orphanAt_eq_some.mpr ⟨rfl, rfl, hfile, hid, hrange⟩)
    rw [map_cachePath] at hpath
    simp only [List.cons.injEq, and_true] at hpath
    obtain ⟨rfl, rfl, rfl⟩ := hpath
    obtain ⟨hlands, hlast⟩ := h.orphans _ ho hlen hno
    obtain ⟨o', ho'⟩ := exists_lastLanding ho hlands
    exact ⟨(cleaned_cleanup config c).moved _ ho hlands, o'.file, fileAt_cleanup_some ho',
      hlast o' ho'⟩

theorem Keeps.harmless (h : Keeps config c (cleanup config c)) : Harmless config c where
  good := by
    intro a b n g hgood o hlast
    obtain ⟨f', hf', hbytes⟩ := h.good a b n g hgood
    rw [fileAt_cleanup_some hlast] at hf'
    rw [Option.some.inj hf', hbytes]
  orphans := by
    intro o ho hlen hno
    obtain ⟨-, -, hfile, hid, hrange⟩ := orphanAt_eq_some.mp (mem_orphans.mp ho)
    obtain ⟨hgone, f', hf', hbytes⟩ := h.orphans o.l1 o.name o.file o.hv _ _ _ hfile hid hrange hlen
      (map_cachePath o.hv).symm hno
    constructor
    · by_contra hlands
      rw [(cleaned_cleanup config c).pending o ho (.inr (Bool.not_eq_true _ ▸ hlands))] at hgone
      cases hgone
    · intro o' hlast
      rw [fileAt_cleanup_some hlast] at hf'
      rw [Option.some.inj hf', hbytes]

end Keeping

/-- The cleanup keeps what it should just when no two files stand for one place with different
bytes and nothing stands in an orphan's way. -/
theorem cleanup_keeps_iff (config : ClientSettings) (c : CacheDir) :
    Keeps config c (cleanup config c) ↔ Harmless config c :=
  ⟨Keeps.harmless, Harmless.keeps⟩

/-- The four bytes `test` at their cache path and an empty file of the same name one level
higher. -/
def shadowedCache : CacheDir :=
  AList.singleton (utf8 "a9".toList) (.dir ((AList.singleton (utf8 sampleId)
    (.file ⟨[], 7⟩)).insert (utf8 "4a".toList) (.dir (AList.singleton (utf8 sampleId)
      (.file ⟨utf8 "test".toList, 5⟩)))))

/-- The good file is replaced by the empty one. -/
theorem shadowedCache_destroyed : ¬ Keeps tinySettings shadowedCache
    (cleanup tinySettings shadowedCache) := by
  intro h
  have hgood : GoodAt tinySettings shadowedCache (utf8 "a9".toList) (utf8 "4a".toList)
      (utf8 sampleId) ⟨utf8 "test".toList, 5⟩ := by
    refine ⟨by decide, sampleFile, ?_, by decide, by decide, by decide⟩
    rw [toStr_utf8]
    exact fromFileid_sampleId
  obtain ⟨f', hf', hbytes⟩ := h.good _ _ _ _ hgood
  have hafter : fileAt (cleanup tinySettings shadowedCache) (utf8 "a9".toList)
      (utf8 "4a".toList) (utf8 sampleId) = some ⟨[], 7⟩ := by decide +kernel
  rw [hafter] at hf'
  obtain rfl := Option.some.inj hf'
  exact absurd hbytes (by decide)

/-! ## Where the counted files lie -/

/-- After the cleanup and the scan, in either build, each file left lies at its cache path, and
each recorded range is the static range of the files under it, so that the pruner cuts it back
into their directory. -/
def Reachable (r : Rescanner) (cache : CacheDir) : Prop :=
  ∀ build after state,
    { r with build := build }.fullRescan (cleanup r.config cache) = .ok (after, state) →
    (∀ a b n f, fileAt after a b n = some f →
      ∃ hv, fromFileid (toStr n) = some hv ∧ [a, b, n] = hv.cachePath.map utf8) ∧
    ∀ range ∈ state.staticRangeOldest, ∀ a b n f hv, toStr a ++ toStr b = range →
      fileAt after a b n = some f → fromFileid (toStr n) = some hv →
      range = hv.staticRange ∧ byteSlice range 0 2 = .ok (toStr a) ∧
        byteSlice range 2 4 = .ok (toStr b)

section Places

variable {config : ClientSettings} {c : CacheDir} {a b n : Name} {hv : HVFile}

/-- A place that an orphan lands on is the cache path of the id found there. -/
theorem cachePath_of_lastLanding {o : Orphan}
    (h : lastLanding c (orphans config c) (a, b, n) = some o)
    (hid : fromFileid (toStr n) = some hv) : [a, b, n] = hv.cachePath.map utf8 := by
  have hin := List.mem_of_getLast? h
  rw [List.mem_filter, Bool.and_eq_true, decide_eq_true_eq] at hin
  obtain ⟨ho, -, htarget⟩ := hin
  obtain ⟨rfl, hbn⟩ := Prod.mk.inj htarget
  obtain ⟨rfl, rfl⟩ := Prod.mk.inj hbn
  have hparsed := parsed_of_fromFileid (orphanAt_eq_some.mp (mem_orphans.mp ho)).2.2.2.1
  obtain ⟨hv', hid', hsame⟩ := hparsed.exists_fromFileid
  rw [targetName, toStr_utf8, hid'] at hid
  obtain rfl := Option.some.inj hid
  rw [map_cachePath, targetL1, targetL2, targetName, targetL1, targetL2, targetName, hsame,
    (HVFile.hash_size_of_fileid_eq hsame).1]

/-- What is not at a cache path is left alone. -/
theorem fileAt_cleanup_of_ne (hid : fromFileid (toStr n) = some hv)
    (hne : [a, b, n] ≠ hv.cachePath.map utf8) :
    fileAt (cleanup config c) a b n = fileAt c a b n := by
  refine fileAt_cleanup_none ?_
  by_contra hsome
  obtain ⟨o, hlast⟩ := Option.ne_none_iff_exists'.mp hsome
  exact hne (cachePath_of_lastLanding hlast hid)

theorem range_of_cachePath (h : [a, b, n] = hv.cachePath.map utf8) :
    toStr a ++ toStr b = hv.staticRange ∧ byteSlice hv.staticRange 0 2 = .ok (toStr a) ∧
      byteSlice hv.staticRange 2 4 = .ok (toStr b) := by
  rw [map_cachePath] at h
  simp only [List.cons.injEq, and_true] at h
  obtain ⟨rfl, rfl, -⟩ := h
  rw [targetL1, targetL2, toStr_utf8, toStr_utf8]
  refine ⟨?_, hv.byteSlice_staticRange⟩
  rw [← List.take_append_drop 2 hv.staticRange, HVFile.staticRange, List.take_take]
  rfl

end Places

/-- A scan in a release build completes. -/
theorem fullRescan_release (r : Rescanner) (cache : CacheDir) :
    ∃ s, DirsScanned { r with build := .release } cache (Rescanner.subdirs cache) s ∧
      { r with build := .release }.fullRescan cache = .ok (s.cache, s.state) :=
  fullRescan_succeeds (.inl rfl) fun s _ =>
    (closingMessage_ok_iff _ s.state).mpr fun _ => (cacheSizeWithOverhead_ok_iff _ _ _ _).mpr nofun

theorem cachePath_of_reachable {r : Rescanner} {cache : CacheDir} (h : Reachable r cache)
    {a b n : Name} {f : CachedFile} {hv : HVFile} (hf : fileAt cache a b n = some f)
    (hacc : r.accepted n f = some hv) : [a, b, n] = hv.cachePath.map utf8 := by
  have hid := (accepted_eq_some.mp hacc).1
  by_contra hne
  obtain ⟨s, hs, hrun⟩ := fullRescan_release r (cleanup r.config cache)
  have hleft : fileAt s.cache a b n = some f := by
    refine (fileAt_scanned hs).mpr ⟨(fileAt_cleanup_of_ne hid hne).trans hf, ?_⟩
    change (r.accepted n f).isSome = true
    rw [hacc]
    rfl
  obtain ⟨hv', hid', hpath⟩ := (h .release _ _ hrun).1 a b n f hleft
  obtain rfl := Option.some.inj (hid.symm.trans hid')
  exact hne hpath

/-- Every counted file can be reached just when every file of a second-level directory that
belongs in the cache lies at its cache path to begin with. -/
theorem reachable_iff (r : Rescanner) (cache : CacheDir) :
    Reachable r cache ↔ ∀ a b n f hv, fileAt cache a b n = some f → r.accepted n f = some hv →
      [a, b, n] = hv.cachePath.map utf8 := by
  constructor
  · intro h a b n f hv hf hacc
    exact cachePath_of_reachable h hf hacc
  · intro h build after state hrun
    obtain ⟨s, hs, rfl, rfl, -⟩ := fullRescan_ok hrun
    have hplace : ∀ a b n f, fileAt s.cache a b n = some f →
        ∃ hv, fromFileid (toStr n) = some hv ∧ [a, b, n] = hv.cachePath.map utf8 := by
      intro a b n f hleft
      obtain ⟨hf, hsome⟩ := (fileAt_scanned hs).mp hleft
      obtain ⟨hv, hacc⟩ := Option.isSome_iff_exists.mp hsome
      have hid := (accepted_eq_some.mp hacc).1
      refine ⟨hv, hid, ?_⟩
      by_contra hne
      rw [fileAt_cleanup_of_ne hid hne] at hf
      exact hne (h a b n f hv hf hacc)
    refine ⟨hplace, ?_⟩
    rintro range - a b n f hv rfl hleft hid
    obtain ⟨hv', hid', hpath⟩ := hplace a b n f hleft
    obtain rfl := Option.some.inj (hid.symm.trans hid')
    obtain ⟨hrange, hl1, hl2⟩ := range_of_cachePath hpath
    rw [hrange]
    exact ⟨rfl, hl1, hl2⟩

/-- The four bytes `test` in a second-level directory of another range. -/
def misplacedCache : CacheDir :=
  AList.singleton (utf8 "ff".toList) (.dir (AList.singleton (utf8 "ff".toList)
    (.dir (AList.singleton (utf8 sampleId) (.file ⟨utf8 "test".toList, 5⟩)))))

/-- The file is counted where no request for it looks. -/
theorem misplacedCache_unreachable : ¬ Reachable (plainRescanner .release) misplacedCache := by
  intro h
  have hacc : (plainRescanner .release).accepted (utf8 sampleId) ⟨utf8 "test".toList, 5⟩ =
      some sampleFile := by
    refine accepted_eq_some.mpr ⟨?_, by decide, ?_, nofun⟩
    · rw [toStr_utf8]
      exact fromFileid_sampleId
    · change tinySettings.isStaticRange (sampleHash.text.take 4) = true
      decide
  have hpath := cachePath_of_reachable h (a := utf8 "ff".toList) (b := utf8 "ff".toList)
    (by decide) hacc
  exact absurd hpath (by decide)

end HathRs.StartupCleanup
