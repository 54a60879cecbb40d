import HathRs.TextParsing

/-!
# Directories

A directory maps the names in it to what they name. A name is a byte string, which need not be
the text of anything. A listing is sorted by the bytes of the names, so two directories with the
same names in them are listed alike.
-/

namespace HathRs

abbrev Name := Bytes

abbrev Directory (α : Type) := AList (fun _ : Name => α)

namespace Directories
open TextParsing

/-! ## The order of names -/

def NameLe (a b : Name) : Prop := a.map UInt8.toNat ≤ b.map UInt8.toNat

instance : DecidableRel NameLe := fun a b =>
  inferInstanceAs (Decidable (a.map UInt8.toNat ≤ b.map UInt8.toNat))

theorem map_toNat_injective : Function.Injective (List.map UInt8.toNat) :=
  List.map_injective_iff.mpr fun _ _ h => UInt8.toNat_inj.mp h

instance : Std.Total NameLe := ⟨fun _ _ => le_total _ _⟩

instance : IsTrans Name NameLe := ⟨fun _ _ _ => le_trans⟩

instance : Std.Antisymm NameLe := ⟨fun _ _ h h' => map_toNat_injective (le_antisymm h h')⟩

/-! ## Listings -/

variable {α : Type}

/-- `list_sorted_files` -/
def listSortedFiles (d : Directory α) : List Name := d.keys.insertionSort NameLe

theorem mem_listSortedFiles {d : Directory α} {n : Name} :
    n ∈ listSortedFiles d ↔ (d.lookup n).isSome := by
  rw [listSortedFiles, List.mem_insertionSort, ← AList.mem_keys, AList.lookup_isSome]

theorem nodup_listSortedFiles (d : Directory α) : (listSortedFiles d).Nodup :=
  (List.perm_insertionSort NameLe d.keys).nodup_iff.mpr d.keys_nodup

theorem sorted_listSortedFiles (d : Directory α) : (listSortedFiles d).Pairwise NameLe :=
  List.pairwise_insertionSort NameLe d.keys

theorem listSortedFiles_eq_nil {d : Directory α} (h : listSortedFiles d = []) (n : Name) :
    d.lookup n = none := by
  have hn : n ∉ listSortedFiles d := by
    rw [h]
    exact List.not_mem_nil
  rw [mem_listSortedFiles] at hn
  simpa using hn

/-- The text of a name, and the empty text for a name that is none. -/
def toStr (n : Name) : Text := (fromUtf8 n).getD []

@[simp] theorem toStr_utf8 (t : Text) : toStr (utf8 t) = t := by
  rw [toStr, fromUtf8_utf8]
  rfl

theorem utf8_injective {s t : Text} (h : utf8 s = utf8 t) : s = t := by
  rw [← toStr_utf8 s, h, toStr_utf8]

end Directories
end HathRs
