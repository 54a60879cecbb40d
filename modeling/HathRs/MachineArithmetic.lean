import HathRs.TextParsing

/-!
# Checked machine arithmetic and slices

A debug build stops at an integer overflow and a release build wraps around. In
both, a slice whose bounds are out of order, out of range or inside a character
stops the thread. Code with such operations returns `Except Panic`.
-/

namespace HathRs.MachineArithmetic
open TextParsing

inductive Build where
  | debug
  | release
  deriving DecidableEq

inductive Panic where
  | overflow
  | sliceIndex
  deriving DecidableEq

/-- The result of an operation on 64 bits whose exact value fits or not. -/
def arithmetic (build : Build) (fits : Bool) (wrapped : UInt64) : Except Panic UInt64 :=
  if fits || build = .release then .ok wrapped else .error .overflow

def addU64 (build : Build) (a b : UInt64) : Except Panic UInt64 :=
  arithmetic build (a.toNat + b.toNat < 2 ^ 64) (a + b)

def subU64 (build : Build) (a b : UInt64) : Except Panic UInt64 :=
  arithmetic build (b.toNat ≤ a.toNat) (a - b)

def mulU64 (build : Build) (a b : UInt64) : Except Panic UInt64 :=
  arithmetic build (a.toNat * b.toNat < 2 ^ 64) (a * b)

def addU32 (build : Build) (a b : UInt32) : Except Panic UInt32 :=
  if a.toNat + b.toNat < 2 ^ 32 ∨ build = .release then .ok (a + b) else .error .overflow

def saturatingSubU64 (a b : UInt64) : UInt64 := if b ≤ a then a - b else 0

theorem bind_eq_ok {ε α β : Type} {x : Except ε α} {f : α → Except ε β} {b : β}
    (h : x.bind f = .ok b) : ∃ a, x = .ok a ∧ f a = .ok b := by
  cases x with
  | error e => cases h
  | ok a => exact ⟨a, rfl, h⟩

/-- A computation that can stop, but not at an index out of range. -/
def NoSlicePanic {α : Type} (x : Except Panic α) : Prop := x ≠ .error .sliceIndex

theorem noSlicePanic_ok {α : Type} (a : α) : NoSlicePanic (.ok a : Except Panic α) := by
  simp [NoSlicePanic]

theorem NoSlicePanic.bind {α β : Type} {x : Except Panic α} {f : α → Except Panic β}
    (hx : NoSlicePanic x) (hf : ∀ a, x = .ok a → NoSlicePanic (f a)) : NoSlicePanic (x >>= f) := by
  cases x with
  | error e => exact fun h => hx (by cases h; rfl)
  | ok a => exact hf a rfl

theorem noSlicePanic_arithmetic (build : Build) (fits : Bool) (wrapped : UInt64) :
    NoSlicePanic (arithmetic build fits wrapped) := by
  simp only [NoSlicePanic, arithmetic]
  split <;> simp

theorem noSlicePanic_addU64 (build : Build) (a b : UInt64) : NoSlicePanic (addU64 build a b) :=
  noSlicePanic_arithmetic _ _ _

theorem noSlicePanic_subU64 (build : Build) (a b : UInt64) : NoSlicePanic (subU64 build a b) :=
  noSlicePanic_arithmetic _ _ _

theorem noSlicePanic_mulU64 (build : Build) (a b : UInt64) : NoSlicePanic (mulU64 build a b) :=
  noSlicePanic_arithmetic _ _ _

theorem addU64_of_lt (build : Build) {a b : UInt64} (h : a.toNat + b.toNat < 2 ^ 64) :
    addU64 build a b = .ok (a + b) ∧ (a + b).toNat = a.toNat + b.toNat := by
  refine ⟨?_, by rw [UInt64.toNat_add]; omega⟩
  rw [addU64, arithmetic, decide_eq_true h]
  rfl

/-- The sum is either refused or the one that wraps around. -/
theorem addU64_eq_ok {build : Build} {a b sum : UInt64} (h : addU64 build a b = .ok sum) :
    sum = a + b := by
  rw [addU64, arithmetic] at h
  split_ifs at h
  exact (Except.ok.inj h).symm

theorem addU32_eq_ok {build : Build} {a b sum : UInt32} (h : addU32 build a b = .ok sum) :
    sum = a + b := by
  rw [addU32] at h
  split_ifs at h
  exact (Except.ok.inj h).symm

theorem addU32_of_room {build : Build} {a b : UInt32}
    (h : build = .release ∨ a.toNat + b.toNat < 2 ^ 32) : ∃ sum, addU32 build a b = .ok sum :=
  ⟨_, if_pos h.symm⟩

theorem addU64_of_room {build : Build} {a b : UInt64}
    (h : build = .release ∨ a.toNat + b.toNat < 2 ^ 64) : ∃ sum, addU64 build a b = .ok sum := by
  rcases h with rfl | h
  · exact ⟨_, if_pos (by simp)⟩
  · exact ⟨_, (addU64_of_lt build h).1⟩

theorem subU64_of_le (build : Build) {a b : UInt64} (h : b.toNat ≤ a.toNat) :
    subU64 build a b = .ok (a - b) ∧ (a - b).toNat = a.toNat - b.toNat := by
  refine ⟨?_, UInt64.toNat_sub_of_le a b (UInt64.le_iff_toNat_le.mpr h)⟩
  rw [subU64, arithmetic, decide_eq_true h]
  rfl

theorem mulU64_of_lt (build : Build) {a b : UInt64} (h : a.toNat * b.toNat < 2 ^ 64) :
    mulU64 build a b = .ok (a * b) ∧ (a * b).toNat = a.toNat * b.toNat := by
  refine ⟨?_, by rw [UInt64.toNat_mul, Nat.mod_eq_of_lt h]⟩
  rw [mulU64, arithmetic, decide_eq_true h]
  rfl

theorem mulU64_debug_of_le {a b : UInt64} (h : 2 ^ 64 ≤ a.toNat * b.toNat) :
    mulU64 .debug a b = .error .overflow := by
  rw [mulU64, arithmetic, decide_eq_false (Nat.not_lt.mpr h)]
  rfl

theorem addU64_debug_of_le {a b : UInt64} (h : 2 ^ 64 ≤ a.toNat + b.toNat) :
    addU64 .debug a b = .error .overflow := by
  rw [addU64, arithmetic, decide_eq_false (Nat.not_lt.mpr h)]
  rfl

theorem saturatingSubU64_toNat (a b : UInt64) :
    (saturatingSubU64 a b).toNat = a.toNat - b.toNat := by
  by_cases h : b ≤ a
  · rw [saturatingSubU64, if_pos h]
    exact UInt64.toNat_sub_of_le a b h
  · rw [saturatingSubU64, if_neg h]
    rw [UInt64.le_iff_toNat_le] at h
    change 0 = _
    omega

/-! ## The smaller of two words -/

theorem min_of_le_u64 {a b : UInt64} (h : a ≤ b) : min a b = a := if_pos h

theorem min_of_not_le_u64 {a b : UInt64} (h : ¬ a ≤ b) : min a b = b := if_neg h

theorem min_choice_u64 (a b : UInt64) : min a b = a ∨ min a b = b := by
  by_cases h : a ≤ b
  · exact .inl (min_of_le_u64 h)
  · exact .inr (min_of_not_le_u64 h)

theorem min_le_left_u64 (a b : UInt64) : min a b ≤ a := by
  by_cases h : a ≤ b
  · rw [min_of_le_u64 h]
    exact UInt64.le_refl a
  · rw [min_of_not_le_u64 h]
    exact UInt64.le_of_lt (UInt64.not_le.mp h)

theorem min_le_right_u64 (a b : UInt64) : min a b ≤ b := by
  by_cases h : a ≤ b
  · rw [min_of_le_u64 h]
    exact h
  · rw [min_of_not_le_u64 h]
    exact UInt64.le_refl b

/-! ## Slices of a text -/

/-- The text in front of a byte offset and behind it, if the offset is not inside a
character and not beyond the end. -/
def splitAtByte : ℕ → Text → Option (Text × Text)
  | 0, t => some ([], t)
  | _ + 1, [] => none
  | n + 1, c :: cs =>
    if c.utf8Size ≤ n + 1 then
      (splitAtByte (n + 1 - c.utf8Size) cs).map (fun p => (c :: p.1, p.2))
    else none

/-- `&t[start..stop]` -/
def byteSlice (t : Text) (start stop : ℕ) : Except Panic Text :=
  match splitAtByte stop t with
  | none => .error .sliceIndex
  | some (front, _) =>
    match splitAtByte start front with
    | none => .error .sliceIndex
    | some (_, slice) => .ok slice

theorem utf8Size_ascii {c : Char} (h : c.toNat < 128) : c.utf8Size = 1 := by
  have hv : c.val ≤ 0x7f := by
    rw [UInt32.le_iff_toNat_le]
    exact Nat.lt_succ_iff.mp h
  simp [Char.utf8Size, hv]

/-- Inside an ASCII beginning of a text, byte offsets count characters. -/
theorem splitAtByte_append {front : Text} (hf : Ascii front) (back : Text) {n : ℕ}
    (hn : n ≤ front.length) :
    splitAtByte n (front ++ back) = some (front.take n, front.drop n ++ back) := by
  induction front generalizing n with
  | nil =>
    obtain rfl : n = 0 := by simpa using hn
    simp [splitAtByte]
  | cons c front ih =>
    cases n with
    | zero => rfl
    | succ n =>
      have hc := utf8Size_ascii (hf c List.mem_cons_self)
      have hrest := ih (fun d hd => hf d (List.mem_cons_of_mem _ hd)) (Nat.le_of_succ_le_succ hn)
      simp [splitAtByte, hc, hrest]

theorem byteSlice_append {front : Text} (hf : Ascii front) (back : Text) {start stop : ℕ}
    (h : start ≤ stop) (hs : stop ≤ front.length) :
    byteSlice (front ++ back) start stop = .ok ((front.take stop).drop start) := by
  have hcut : Ascii (front.take stop) := fun c hc => hf c (List.mem_of_mem_take hc)
  have hlen : start ≤ (front.take stop).length := by simp; omega
  have hinner := splitAtByte_append hcut [] hlen
  rw [List.append_nil, List.append_nil] at hinner
  simp only [byteSlice, splitAtByte_append hf back hs, hinner]

end HathRs.MachineArithmetic
