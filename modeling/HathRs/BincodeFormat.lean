import HathRs.HashMaps
import HathRs.TextParsing

/-!
# The serialized range ages and LRU table

`Bincode` is what the cache relies on from the serialization crate: whatever
`serialize` returned is read back by `deserialize`, and a map is read back whatever
the order it was iterated in. `fixint` is the crate's default format, with
little-endian fixed-width integers, a 64-bit length in front of every sequence, map
and string, and bytes behind the value ignored.
-/

namespace HathRs.BincodeFormat
open ByteWords TextParsing HashMaps

structure Bincode where
  serializeAges : List (Entry Text UInt64) → Option Bytes
  deserializeAges : Bytes → Option (HashMap Text UInt64)
  serializeTable : List UInt16 → Option Bytes
  deserializeTable : Bytes → Option (List UInt16)
  deserializeAges_of_serializeAges : ∀ {order ages data}, Iterates order ages →
    serializeAges order = some data → deserializeAges data = some ages
  deserializeTable_of_serializeTable : ∀ {table data},
    serializeTable table = some data → deserializeTable data = some table

/-! ## Fixed-width integers -/

abbrev Decode (α : Type) := Bytes → Option (α × Bytes)

def takeBytes (n : ℕ) : Decode Bytes := fun input =>
  if input.length < n then none else some (input.take n, input.drop n)

def takeWord (w : ℕ) : Decode ℕ := fun input =>
  (takeBytes w input).map (fun p => (ofLeBytes p.1, p.2))

theorem takeBytes_append (data rest : Bytes) :
    takeBytes data.length (data ++ rest) = some (data, rest) := by
  simp [takeBytes]

theorem takeWord_leBytes {w n : ℕ} (h : n < 256 ^ w) (rest : Bytes) :
    takeWord w (leBytes w n ++ rest) = some (n, rest) := by
  have ht := takeBytes_append (leBytes w n) rest
  rw [length_leBytes] at ht
  simp [takeWord, ht, ofLeBytes_leBytes_of_lt h]

/-! ## Range ages -/

/-- A length that the 64-bit prefix can hold. -/
def lengthPrefix (n : ℕ) : Option Bytes := if n < 256 ^ 8 then some (leBytes 8 n) else none

def serializeEntry (e : Entry Text UInt64) : Option Bytes := do
  let length ← lengthPrefix (utf8 e.1).length
  return length ++ utf8 e.1 ++ leBytes 8 e.2.toNat

def serializeEntries : List (Entry Text UInt64) → Option Bytes
  | [] => some []
  | e :: es => do
    let first ← serializeEntry e
    let rest ← serializeEntries es
    return first ++ rest

def serializeAges (order : List (Entry Text UInt64)) : Option Bytes := do
  let length ← lengthPrefix order.length
  let entries ← serializeEntries order
  return length ++ entries

def takeEntry : Decode (Entry Text UInt64) := fun input => do
  let (length, input) ← takeWord 8 input
  let (raw, input) ← takeBytes length input
  let range ← fromUtf8 raw
  let (age, input) ← takeWord 8 input
  return (⟨range, UInt64.ofNat age⟩, input)

/-- The map is filled entry by entry, so a repeated key keeps its last value. -/
def takeEntries : ℕ → HashMap Text UInt64 → Decode (HashMap Text UInt64)
  | 0, ages => fun input => some (ages, input)
  | n + 1, ages => fun input => do
    let (e, input) ← takeEntry input
    takeEntries n (ages.insert e.1 e.2) input

def deserializeAges (input : Bytes) : Option (HashMap Text UInt64) := do
  let (length, input) ← takeWord 8 input
  let (ages, _) ← takeEntries length ∅ input
  return ages

theorem lengthPrefix_eq_some {n : ℕ} {data : Bytes} (h : lengthPrefix n = some data) :
    n < 256 ^ 8 ∧ data = leBytes 8 n := by
  simp only [lengthPrefix] at h
  split_ifs at h with hn
  exact ⟨hn, (Option.some.inj h).symm⟩

theorem takeEntry_of_serializeEntry {e : Entry Text UInt64} {data : Bytes}
    (h : serializeEntry e = some data) (rest : Bytes) :
    takeEntry (data ++ rest) = some (e, rest) := by
  simp only [serializeEntry, bind, pure, Option.bind_eq_some_iff, Option.some.injEq] at h
  obtain ⟨length, hl, rfl⟩ := h
  obtain ⟨hn, rfl⟩ := lengthPrefix_eq_some hl
  have hage : e.2.toNat < 256 ^ 8 := e.2.toNat_lt
  simp [takeEntry, takeWord_leBytes hn, takeBytes_append, takeWord_leBytes hage]

theorem takeEntries_of_serializeEntries {es : List (Entry Text UInt64)} {data : Bytes}
    (h : serializeEntries es = some data) (ages : HashMap Text UInt64) (rest : Bytes) :
    takeEntries es.length ages (data ++ rest) = some (insertAll ages es, rest) := by
  induction es generalizing data ages with
  | nil =>
    cases h
    rfl
  | cons e es ih =>
    simp only [serializeEntries, bind, pure, Option.bind_eq_some_iff, Option.some.injEq] at h
    obtain ⟨first, hfirst, others, hothers, rfl⟩ := h
    simp [takeEntries, takeEntry_of_serializeEntry hfirst, ih hothers]

theorem deserializeAges_of_serializeAges {order : List (Entry Text UInt64)}
    {ages : HashMap Text UInt64} {data : Bytes} (ho : Iterates order ages)
    (h : serializeAges order = some data) : deserializeAges data = some ages := by
  simp only [serializeAges, bind, pure, Option.bind_eq_some_iff, Option.some.injEq] at h
  obtain ⟨length, hl, entries, hentries, rfl⟩ := h
  obtain ⟨hn, rfl⟩ := lengthPrefix_eq_some hl
  have hread := takeEntries_of_serializeEntries hentries ∅ []
  rw [List.append_nil, ho.insertAll_eq] at hread
  simp [deserializeAges, takeWord_leBytes hn, hread]

/-! ## LRU table -/

def serializeTable (table : List UInt16) : Option Bytes := do
  let length ← lengthPrefix table.length
  return length ++ table.flatMap (fun v => leBytes 2 v.toNat)

def takeTable : ℕ → Decode (List UInt16)
  | 0 => fun input => some ([], input)
  | n + 1 => fun input => do
    let (value, input) ← takeWord 2 input
    let (values, input) ← takeTable n input
    return (UInt16.ofNat value :: values, input)

def deserializeTable (input : Bytes) : Option (List UInt16) := do
  let (length, input) ← takeWord 8 input
  let (table, _) ← takeTable length input
  return table

theorem takeTable_append (table : List UInt16) (rest : Bytes) :
    takeTable table.length (table.flatMap (fun v => leBytes 2 v.toNat) ++ rest) =
      some (table, rest) := by
  induction table with
  | nil => rfl
  | cons v table ih =>
    have hv : v.toNat < 256 ^ 2 := v.toNat_lt
    simp [takeTable, takeWord_leBytes hv, ih]

theorem deserializeTable_of_serializeTable {table : List UInt16} {data : Bytes}
    (h : serializeTable table = some data) : deserializeTable data = some table := by
  simp only [serializeTable, bind, pure, Option.bind_eq_some_iff, Option.some.injEq] at h
  obtain ⟨length, hl, rfl⟩ := h
  obtain ⟨hn, rfl⟩ := lengthPrefix_eq_some hl
  have hread := takeTable_append table []
  rw [List.append_nil] at hread
  simp [deserializeTable, takeWord_leBytes hn, hread]

/-- The default configuration of the crate. -/
def fixint : Bincode where
  serializeAges := serializeAges
  deserializeAges := deserializeAges
  serializeTable := serializeTable
  deserializeTable := deserializeTable
  deserializeAges_of_serializeAges := deserializeAges_of_serializeAges
  deserializeTable_of_serializeTable := deserializeTable_of_serializeTable

/-- A table whose length fits into the prefix is serialized. -/
theorem exists_serializeTable {table : List UInt16} (h : table.length < 256 ^ 8) :
    ∃ data, fixint.serializeTable table = some data := by
  simp only [fixint, serializeTable, lengthPrefix, if_pos h]
  exact ⟨_, rfl⟩

end HathRs.BincodeFormat
