import Mathlib

/-!
# Hash maps and the orders in which they can be iterated

A hash map is a finite map: two maps are equal when they hold the same entries,
and the order of iteration is not part of the value. Code that iterates a map is
modelled on a list of entries, and `Iterates` says which lists a map can produce.
-/

namespace HathRs

abbrev HashMap (κ ν : Type) := Finmap (fun _ : κ => ν)

abbrev Entry (κ ν : Type) := Sigma (fun _ : κ => ν)

namespace HashMaps

variable {κ ν : Type}

/-- The list visits every entry of the map exactly once. -/
def Iterates (order : List (Entry κ ν)) (m : HashMap κ ν) : Prop :=
  (order : Multiset (Entry κ ν)) = m.entries

/-- The number of entries. -/
def len (m : HashMap κ ν) : ℕ := Multiset.card m.entries

theorem Iterates.length_eq {order : List (Entry κ ν)} {m : HashMap κ ν}
    (h : Iterates order m) : order.length = len m := by
  rw [len, ← h]
  rfl

theorem Iterates.nodupKeys {order : List (Entry κ ν)} {m : HashMap κ ν}
    (h : Iterates order m) : order.NodupKeys := by
  have hm := m.nodupKeys
  rw [← h] at hm
  exact Multiset.coe_nodupKeys.mp hm

theorem Iterates.mem_keys {order : List (Entry κ ν)} {m : HashMap κ ν}
    (h : Iterates order m) (k : κ) : k ∈ m ↔ k ∈ order.map Sigma.fst := by
  rw [Finmap.mem_def, ← h]
  rfl

/-- Every map has an iteration order. -/
theorem exists_iterates (m : HashMap κ ν) : ∃ order, Iterates order m := by
  induction m using Finmap.induction_on with
  | H a => exact ⟨a.entries, rfl⟩

/-- A way to iterate every map, as one process does it. -/
structure IterationOrder (κ ν : Type) where
  iterate : HashMap κ ν → List (Entry κ ν)
  iterates : ∀ m, Iterates (iterate m) m

noncomputable instance : Nonempty (IterationOrder κ ν) :=
  ⟨⟨fun m => (exists_iterates m).choose, fun m => (exists_iterates m).choose_spec⟩⟩

variable [DecidableEq κ]

/-- The entries inserted one after another, as a decoding loop does. -/
def insertAll (m : HashMap κ ν) (entries : List (Entry κ ν)) : HashMap κ ν :=
  entries.foldl (fun acc e => acc.insert e.1 e.2) m

@[simp] theorem insertAll_nil (m : HashMap κ ν) : insertAll m [] = m := rfl

@[simp] theorem insertAll_cons (m : HashMap κ ν) (e : Entry κ ν) (es : List (Entry κ ν)) :
    insertAll m (e :: es) = insertAll (m.insert e.1 e.2) es := rfl

/-- None of the keys is in the map already and no key occurs twice. -/
def Fresh (m : HashMap κ ν) : List (Entry κ ν) → Prop
  | [] => True
  | e :: es => e.1 ∉ m ∧ Fresh (m.insert e.1 e.2) es

/-- Fresh entries are added to the map without displacing any other entry. -/
theorem Fresh.entries_insertAll {m : HashMap κ ν} {es : List (Entry κ ν)} (h : Fresh m es) :
    (insertAll m es).entries = m.entries + (es : Multiset (Entry κ ν)) := by
  induction es generalizing m with
  | nil => simp
  | cons e es ih =>
    obtain ⟨hnew, hrest⟩ := h
    rw [insertAll_cons, ih hrest, Finmap.entries_insert_of_notMem hnew, ← Multiset.cons_coe,
      Multiset.add_cons, Multiset.cons_add]

/-- Entries with distinct keys, all absent from the map, are fresh. -/
theorem fresh_of_nodupKeys {m : HashMap κ ν} {es : List (Entry κ ν)} (hn : es.NodupKeys)
    (hm : ∀ e ∈ es, e.1 ∉ m) : Fresh m es := by
  induction es generalizing m with
  | nil => trivial
  | cons e es ih =>
    obtain ⟨hhead, htail⟩ := List.nodupKeys_cons.mp hn
    refine ⟨hm e List.mem_cons_self, ih htail ?_⟩
    intro d hd hin
    rcases Finmap.mem_insert.mp hin with heq | hin
    · exact hhead (heq ▸ List.mem_keys_of_mem hd)
    · exact hm d (List.mem_cons_of_mem _ hd) hin

/-- Inserting fresh entries into the empty map yields a map they iterate. -/
theorem Fresh.iterates {es : List (Entry κ ν)} (h : Fresh ∅ es) :
    Iterates es (insertAll (∅ : HashMap κ ν) es) := by
  rw [Iterates, h.entries_insertAll]
  exact (zero_add _).symm

/-- Any iteration order of a map rebuilds the map. -/
theorem Iterates.insertAll_eq {order : List (Entry κ ν)} {m : HashMap κ ν}
    (h : Iterates order m) : insertAll ∅ order = m := by
  have hf : Fresh ∅ order := fresh_of_nodupKeys h.nodupKeys (fun _ _ => Finmap.notMem_empty)
  apply Finmap.ext
  rw [← hf.iterates, h]

theorem Iterates.fresh {order : List (Entry κ ν)} {m : HashMap κ ν}
    (h : Iterates order m) : Fresh ∅ order :=
  fresh_of_nodupKeys h.nodupKeys (fun _ _ => Finmap.notMem_empty)

end HashMaps
end HathRs
