import HathRs.Directories
import HathRs.FileIds

/-!
# The tree below the cache directory

The cache directory holds first-level directories, these hold second-level directories, and
these hold the cached files. Files and directories may stand at each level under any name. What
a directory of the third level holds is never looked at. Each operation of the file system is a
function on the tree, with a lemma for what it changes and one for what it leaves alone.
-/

namespace HathRs.CacheTrees
open TextParsing Directories FileIds

/-- A regular file, with its modification time in milliseconds. -/
structure CachedFile where
  content : Bytes
  modified : UInt64
  deriving DecidableEq

inductive DirEntry (δ : Type) where
  | file (f : CachedFile)
  | dir (d : δ)

abbrev L2Dir := Directory (DirEntry Unit)

abbrev L1Dir := Directory (DirEntry L2Dir)

abbrev CacheDir := Directory (DirEntry L1Dir)

/-! ## Looking up -/

/-- What lies in the directory, and nothing where there is no directory. -/
def children {α : Type} : Option (DirEntry (Directory α)) → Directory α
  | some (.dir d) => d
  | _ => ∅

def l1Dir (c : CacheDir) (a : Name) : L1Dir := children (c.lookup a)

def l2Entry (c : CacheDir) (a b : Name) : Option (DirEntry L2Dir) := (l1Dir c a).lookup b

def l2Dir (c : CacheDir) (a b : Name) : L2Dir := children (l2Entry c a b)

def l3Entry (c : CacheDir) (a b n : Name) : Option (DirEntry Unit) := (l2Dir c a b).lookup n

/-- The regular file among the entries found. -/
def asFile {δ : Type} : Option (DirEntry δ) → Option CachedFile
  | some (.file f) => some f
  | _ => none

/-- The regular file of this name directly inside a second-level directory. -/
def fileAt (c : CacheDir) (a b n : Name) : Option CachedFile := asFile (l3Entry c a b n)

def isDir {δ : Type} : Option (DirEntry δ) → Bool
  | some (.dir _) => true
  | _ => false

/-! ## Changing -/

def setL1 (c : CacheDir) (a : Name) (d : L1Dir) : CacheDir := c.insert a (.dir d)

def setL2 (c : CacheDir) (a b : Name) (d : L2Dir) : CacheDir :=
  setL1 c a ((l1Dir c a).insert b (.dir d))

/-- `utils::remove_file` on an entry of the cache directory. A directory is not removed. -/
def removeL1File (c : CacheDir) (a : Name) : CacheDir :=
  match c.lookup a with
  | some (.file _) => c.erase a
  | _ => c

/-- `utils::remove_dir` on an entry of the cache directory. Only an empty directory is removed. -/
def removeL1Dir (c : CacheDir) (a : Name) : CacheDir :=
  match c.lookup a with
  | some (.dir d) => if listSortedFiles d = [] then c.erase a else c
  | _ => c

def removeL2File (c : CacheDir) (a b : Name) : CacheDir :=
  match l2Entry c a b with
  | some (.file _) => setL1 c a ((l1Dir c a).erase b)
  | _ => c

def removeL2Dir (c : CacheDir) (a b : Name) : CacheDir :=
  match l2Entry c a b with
  | some (.dir d) => if listSortedFiles d = [] then setL1 c a ((l1Dir c a).erase b) else c
  | _ => c

def removeL3File (c : CacheDir) (a b n : Name) : CacheDir :=
  match l3Entry c a b n with
  | some (.file _) => setL2 c a b ((l2Dir c a b).erase n)
  | _ => c

/-- `utils::ensure_dir` on a second-level directory. A regular file in its place is replaced; a
regular file in the place of its parent is an error. -/
def ensureL2Dir (c : CacheDir) (a b : Name) : Option CacheDir :=
  match c.lookup a with
  | some (.file _) => none
  | _ =>
    match l2Entry c a b with
    | some (.dir _) => some c
    | _ => some (setL2 c a b ∅)

/-- `fs::rename` of a file in a first-level directory into a second-level directory. A file of
the name is replaced and a directory of the name is an error. -/
def renameL2File (c : CacheDir) (a b a' b' n : Name) : Option CacheDir :=
  match l2Entry c a b with
  | some (.file f) =>
    if isDir (l2Entry c a' b') && !isDir (l3Entry c a' b' n) then
      let c := setL1 c a ((l1Dir c a).erase b)
      some (setL2 c a' b' ((l2Dir c a' b').insert n (.file f)))
    else none
  | _ => none

/-! ## What a change does to what is looked up -/

section Lookups

variable {c : CacheDir} {a b n a' b' n' : Name}

theorem l1Dir_setL1 (c : CacheDir) (a : Name) (d : L1Dir) : l1Dir (setL1 c a d) a = d := by
  rw [l1Dir, setL1, AList.lookup_insert]
  rfl

theorem lookup_setL1_of_ne (d : L1Dir) (h : a' ≠ a) : (setL1 c a d).lookup a' = c.lookup a' := by
  rw [setL1, AList.lookup_insert_ne h]

theorem l1Dir_setL1_of_ne (d : L1Dir) (h : a' ≠ a) : l1Dir (setL1 c a d) a' = l1Dir c a' := by
  rw [l1Dir, lookup_setL1_of_ne d h, l1Dir]

theorem l2Entry_setL1_of_ne (d : L1Dir) (h : a' ≠ a) :
    l2Entry (setL1 c a d) a' b' = l2Entry c a' b' := by
  rw [l2Entry, l1Dir_setL1_of_ne d h, l2Entry]

theorem l2Entry_setL2 (c : CacheDir) (a b : Name) (d : L2Dir) :
    l2Entry (setL2 c a b d) a b = some (.dir d) := by
  rw [l2Entry, setL2, l1Dir_setL1, AList.lookup_insert]

theorem l2Entry_setL2_of_ne (d : L2Dir) (h : (a', b') ≠ (a, b)) :
    l2Entry (setL2 c a b d) a' b' = l2Entry c a' b' := by
  by_cases ha : a' = a
  · have hb : b' ≠ b := by
      rintro rfl
      exact h (by rw [ha])
    rw [ha, l2Entry, setL2, l1Dir_setL1, AList.lookup_insert_ne hb, l2Entry]
  · rw [setL2, l2Entry_setL1_of_ne _ ha]

theorem l2Dir_setL2 (c : CacheDir) (a b : Name) (d : L2Dir) : l2Dir (setL2 c a b d) a b = d := by
  rw [l2Dir, l2Entry_setL2]
  rfl

theorem l2Entry_eraseL2 (c : CacheDir) (a b : Name) :
    l2Entry (setL1 c a ((l1Dir c a).erase b)) a b = none := by
  rw [l2Entry, l1Dir_setL1, AList.lookup_erase]

theorem l2Entry_eraseL2_of_ne (h : (a', b') ≠ (a, b)) :
    l2Entry (setL1 c a ((l1Dir c a).erase b)) a' b' = l2Entry c a' b' := by
  by_cases ha : a' = a
  · have hb : b' ≠ b := by
      rintro rfl
      exact h (by rw [ha])
    rw [ha, l2Entry, l1Dir_setL1, AList.lookup_erase_ne hb, l2Entry]
  · rw [l2Entry_setL1_of_ne _ ha]

theorem l3Entry_congr {c c' : CacheDir} (h : l2Entry c a b = l2Entry c' a b) (n : Name) :
    l3Entry c a b n = l3Entry c' a b n := by
  rw [l3Entry, l2Dir, h, l3Entry, l2Dir]

/-- Nothing lies below what is not a directory. -/
theorem l3Entry_of_not_isDir (h : isDir (l2Entry c a b) = false) (n : Name) :
    l3Entry c a b n = none := by
  rw [l3Entry, l2Dir]
  cases he : l2Entry c a b with
  | none => rfl
  | some e =>
    cases e with
    | file f => rfl
    | dir d => rw [he] at h; cases h

/-- Below a regular file in the cache directory there is nothing. -/
theorem l2Entry_of_file {f : CachedFile} (h : c.lookup a = some (.file f)) (b : Name) :
    l2Entry c a b = none := by
  rw [l2Entry, l1Dir, h]
  rfl

end Lookups

/-! ## Removing -/

section Removals

variable {c : CacheDir} {a b n a' b' n' : Name}

theorem lookup_setL2_of_ne (d : L2Dir) (h : a' ≠ a) : (setL2 c a b d).lookup a' = c.lookup a' :=
  lookup_setL1_of_ne _ h

/-- Replacing a second-level directory touches nothing outside it. -/
theorem removeL3File_frame (c : CacheDir) (a b n : Name) :
    (∀ a', a' ≠ a → (removeL3File c a b n).lookup a' = c.lookup a') ∧
      ∀ a' b', (a', b') ≠ (a, b) → l2Entry (removeL3File c a b n) a' b' = l2Entry c a' b' := by
  rw [removeL3File]
  split
  · exact ⟨fun a' h => lookup_setL2_of_ne _ h, fun a' b' h => l2Entry_setL2_of_ne _ h⟩
  · exact ⟨fun _ _ => rfl, fun _ _ _ => rfl⟩

theorem removeL3File_file {f : CachedFile} (h : l3Entry c a b n = some (.file f)) :
    isDir (l2Entry (removeL3File c a b n) a b) = true ∧
      l3Entry (removeL3File c a b n) a b n = none ∧
      ∀ n', n' ≠ n → l3Entry (removeL3File c a b n) a b n' = l3Entry c a b n' := by
  simp only [removeL3File, h]
  refine ⟨by rw [l2Entry_setL2]; rfl, ?_, ?_⟩
  · rw [l3Entry, l2Dir_setL2, AList.lookup_erase]
  · intro n' hn
    rw [l3Entry, l2Dir_setL2, AList.lookup_erase_ne hn, l3Entry]

/-- Only a directory with nothing in it is removed, so nothing below it changes. -/
theorem removeL2Dir_frame (c : CacheDir) (a b : Name) :
    (∀ a', a' ≠ a → (removeL2Dir c a b).lookup a' = c.lookup a') ∧
      (∀ a' b', (a', b') ≠ (a, b) → l2Entry (removeL2Dir c a b) a' b' = l2Entry c a' b') ∧
      ∀ n, l3Entry (removeL2Dir c a b) a b n = l3Entry c a b n := by
  rw [removeL2Dir]
  cases he : l2Entry c a b with
  | none => exact ⟨fun _ _ => rfl, fun _ _ _ => rfl, fun _ => rfl⟩
  | some e =>
    cases e with
    | file f => exact ⟨fun _ _ => rfl, fun _ _ _ => rfl, fun _ => rfl⟩
    | dir d =>
      by_cases hnil : listSortedFiles d = []
      · simp only [if_pos hnil]
        refine ⟨fun a' h => lookup_setL1_of_ne _ h, fun a' b' h => l2Entry_eraseL2_of_ne h, ?_⟩
        intro n
        rw [l3Entry_of_not_isDir (by rw [l2Entry_eraseL2]; rfl), l3Entry, l2Dir, he]
        exact (listSortedFiles_eq_nil hnil n).symm
      · simp only [if_neg hnil, implies_true, and_self]

end Removals

/-! ## Changes at the second level -/

/-- The first level keeps its files and its directories, and at the second level only the place
given may lose its file. -/
structure LosesFile (c c' : CacheDir) (a b : Name) : Prop where
  l1File : ∀ x, asFile (c'.lookup x) = asFile (c.lookup x)
  l1Dir : ∀ x, isDir (c.lookup x) = true → isDir (c'.lookup x) = true
  l2File : ∀ x y, (x, y) ≠ (a, b) → asFile (l2Entry c' x y) = asFile (l2Entry c x y)
  gone : asFile (l2Entry c' a b) = none

section SecondLevel

variable {c c' : CacheDir} {a b n a' b' n' : Name}

theorem LosesFile.refl (h : asFile (l2Entry c a b) = none) : LosesFile c c a b :=
  ⟨fun _ => rfl, fun _ h => h, fun _ _ _ => rfl, h⟩

/-- What is in a first-level directory makes it one. -/
theorem isDir_of_l2Entry (h : (l2Entry c a b).isSome) : isDir (c.lookup a) = true := by
  rw [l2Entry, l1Dir] at h
  cases he : c.lookup a with
  | none => rw [he] at h; cases h
  | some e =>
    cases e with
    | file f => rw [he] at h; cases h
    | dir d => rfl

theorem asFile_of_isDir {δ : Type} {e : Option (DirEntry δ)} (h : isDir e = true) :
    asFile e = none := by
  cases e with
  | none => rfl
  | some e =>
    cases e with
    | file f => cases h
    | dir d => rfl

/-- Replacing the content of a first-level directory. -/
theorem setL1_views (d : L1Dir) (h : asFile (c.lookup a) = none) :
    (∀ x, asFile ((setL1 c a d).lookup x) = asFile (c.lookup x)) ∧
      (∀ x, isDir (c.lookup x) = true → isDir ((setL1 c a d).lookup x) = true) ∧
      isDir ((setL1 c a d).lookup a) = true := by
  have hself : (setL1 c a d).lookup a = some (.dir d) := AList.lookup_insert c
  refine ⟨?_, ?_, by rw [hself]; rfl⟩
  · intro x
    by_cases hx : x = a
    · rw [hx, hself, h]
      rfl
    · rw [lookup_setL1_of_ne d hx]
  · intro x hdir
    by_cases hx : x = a
    · rw [hx, hself]
      rfl
    · rw [lookup_setL1_of_ne d hx]
      exact hdir

theorem eraseL2_views {f : CachedFile} (h : l2Entry c a b = some (.file f)) :
    LosesFile c (setL1 c a ((l1Dir c a).erase b)) a b ∧
      ∀ x y m, l3Entry (setL1 c a ((l1Dir c a).erase b)) x y m = l3Entry c x y m := by
  have hdir := isDir_of_l2Entry (c := c) (a := a) (b := b) (by rw [h]; rfl)
  obtain ⟨hfile, hdirs, -⟩ := setL1_views ((l1Dir c a).erase b) (asFile_of_isDir hdir)
  refine ⟨⟨hfile, hdirs, fun x y hxy => by rw [l2Entry_eraseL2_of_ne hxy],
    by rw [l2Entry_eraseL2]; rfl⟩, ?_⟩
  intro x y m
  by_cases hxy : (x, y) = (a, b)
  · obtain ⟨rfl, rfl⟩ := Prod.mk.inj hxy
    rw [l3Entry_of_not_isDir (by rw [l2Entry_eraseL2]; rfl),
      l3Entry_of_not_isDir (by rw [h]; rfl)]
  · rw [l3Entry_congr (l2Entry_eraseL2_of_ne hxy)]

theorem removeL2File_views (h : isDir (l2Entry c a b) = false) :
    LosesFile c (removeL2File c a b) a b ∧
      ∀ x y m, l3Entry (removeL2File c a b) x y m = l3Entry c x y m := by
  rw [removeL2File]
  cases he : l2Entry c a b with
  | none => exact ⟨.refl (by rw [he]; rfl), fun _ _ _ => rfl⟩
  | some e =>
    cases e with
    | dir d => rw [he] at h; cases h
    | file f => exact eraseL2_views he

theorem ensureL2Dir_eq_none : ensureL2Dir c a b = none ↔ (asFile (c.lookup a)).isSome := by
  rw [ensureL2Dir]
  cases c.lookup a with
  | none => cases hl2 : l2Entry c a b with
    | none => simp [asFile]
    | some e => cases e <;> simp [asFile]
  | some e =>
    cases e with
    | file f => simp [asFile]
    | dir d => cases hl2 : l2Entry c a b with
      | none => simp [asFile]
      | some e => cases e <;> simp [asFile]

theorem setL2_empty_views (hfile : asFile (c.lookup a) = none) (h : isDir (l2Entry c a b) = false) :
    LosesFile c (setL2 c a b ∅) a b ∧ isDir (l2Entry (setL2 c a b ∅) a b) = true ∧
      ∀ x y m, l3Entry (setL2 c a b ∅) x y m = l3Entry c x y m := by
  obtain ⟨hfiles, hdirs, -⟩ := setL1_views ((l1Dir c a).insert b (.dir ∅)) hfile
  refine ⟨⟨hfiles, hdirs, fun x y hxy => by rw [l2Entry_setL2_of_ne _ hxy],
    by rw [l2Entry_setL2]; rfl⟩, by rw [l2Entry_setL2]; rfl, ?_⟩
  intro x y m
  by_cases hxy : (x, y) = (a, b)
  · obtain ⟨rfl, rfl⟩ := Prod.mk.inj hxy
    rw [l3Entry_of_not_isDir h, l3Entry, l2Dir_setL2]
    rfl
  · rw [l3Entry_congr (l2Entry_setL2_of_ne _ hxy)]

/-- The directory is there afterwards, and only a regular file in its place is lost. -/
theorem ensureL2Dir_views (h : ensureL2Dir c a b = some c') :
    LosesFile c c' a b ∧ isDir (l2Entry c' a b) = true ∧
      ∀ x y m, l3Entry c' x y m = l3Entry c x y m := by
  have hfile : asFile (c.lookup a) = none := by
    by_contra hne
    have hnone := ensureL2Dir_eq_none (b := b).mpr (Option.isSome_iff_ne_none.mpr hne)
    rw [hnone] at h
    cases h
  rw [ensureL2Dir] at h
  by_cases hdir : isDir (l2Entry c a b) = true
  · have hsame : c' = c := by
      cases hl2 : l2Entry c a b with
      | none => rw [hl2] at hdir; cases hdir
      | some e =>
        cases e with
        | file f => rw [hl2] at hdir; cases hdir
        | dir d =>
          rw [hl2] at h
          split at h
          · cases h
          · exact (Option.some.inj h).symm
    subst hsame
    exact ⟨.refl (asFile_of_isDir hdir), hdir, fun _ _ _ => rfl⟩
  · rw [Bool.not_eq_true] at hdir
    have hnew : c' = setL2 c a b ∅ := by
      split at h
      · cases h
      · split at h
        · rename_i hl2
          rw [hl2] at hdir
          cases hdir
        · exact (Option.some.inj h).symm
    subst hnew
    exact setL2_empty_views hfile hdir

/-- The file is at its target afterwards and not where it was. -/
theorem renameL2File_views {f : CachedFile} (h : l2Entry c a b = some (.file f))
    (hdir : isDir (l2Entry c a' b') = true) (htarget : isDir (l3Entry c a' b' n) = false) :
    ∃ c', renameL2File c a b a' b' n = some c' ∧ LosesFile c c' a b ∧
      l3Entry c' a' b' n = some (.file f) ∧
      ∀ x y m, (x, y, m) ≠ (a', b', n) → l3Entry c' x y m = l3Entry c x y m := by
  have hne : (a', b') ≠ (a, b) := by
    intro heq
    obtain ⟨rfl, rfl⟩ := Prod.mk.inj heq
    rw [h] at hdir
    cases hdir
  obtain ⟨hloses, hl3⟩ := eraseL2_views h
  generalize hmid : setL1 c a ((l1Dir c a).erase b) = mid at hloses hl3
  have hdir' : isDir (l2Entry mid a' b') = true := by
    rw [← hmid, l2Entry_eraseL2_of_ne hne]
    exact hdir
  have hl1 := isDir_of_l2Entry (c := mid) (a := a') (b := b') (by
    cases he : l2Entry mid a' b' with
    | none => rw [he] at hdir'; cases hdir'
    | some e => rfl)
  obtain ⟨hfiles, hdirs, -⟩ := setL1_views
    ((l1Dir mid a').insert b' (.dir ((l2Dir mid a' b').insert n (.file f)))) (asFile_of_isDir hl1)
  refine ⟨setL2 mid a' b' ((l2Dir mid a' b').insert n (.file f)), ?_, ⟨?_, ?_, ?_, ?_⟩, ?_, ?_⟩
  · simp only [renameL2File, h, hdir, htarget, hmid]
    rfl
  · exact fun x => (hfiles x).trans (hloses.l1File x)
  · exact fun x hx => hdirs x (hloses.l1Dir x hx)
  · intro x y hxy
    rw [← hloses.l2File x y hxy]
    by_cases heq : (x, y) = (a', b')
    · obtain ⟨rfl, rfl⟩ := Prod.mk.inj heq
      rw [l2Entry_setL2, asFile_of_isDir hdir']
      rfl
    · rw [l2Entry_setL2_of_ne _ heq]
  · rw [l2Entry_setL2_of_ne _ hne.symm]
    exact hloses.gone
  · rw [l3Entry, l2Dir_setL2, AList.lookup_insert]
  · intro x y m hxym
    rw [← hl3 x y m]
    by_cases heq : (x, y) = (a', b')
    · obtain ⟨rfl, rfl⟩ := Prod.mk.inj heq
      have hm : m ≠ n := by
        rintro rfl
        exact hxym rfl
      rw [l3Entry, l2Dir_setL2, AList.lookup_insert_ne hm, l3Entry]
    · rw [l3Entry_congr (l2Entry_setL2_of_ne _ heq)]

theorem renameL2File_of_isDir (h : isDir (l3Entry c a' b' n) = true) :
    renameL2File c a b a' b' n = none := by
  rw [renameL2File]
  split
  · rw [h, Bool.not_true, Bool.and_false]
    rfl
  · rfl

theorem renameL2File_of_no_file (h : asFile (l2Entry c a b) = none) :
    renameL2File c a b a' b' n = none := by
  rw [renameL2File]
  cases he : l2Entry c a b with
  | none => rfl
  | some e =>
    cases e with
    | file f => rw [he] at h; cases h
    | dir d => rfl

/-- Removing an entry of the cache directory below which there is nothing. -/
theorem l2Entry_eraseL1 (h : ∀ y, l2Entry c a y = none) (x y : Name) :
    l2Entry (c.erase a) x y = l2Entry c x y := by
  by_cases hx : x = a
  · rw [hx, h y, l2Entry, l1Dir, AList.lookup_erase]
    rfl
  · rw [l2Entry, l1Dir, AList.lookup_erase_ne hx, l2Entry, l1Dir]

end SecondLevel

end HathRs.CacheTrees
