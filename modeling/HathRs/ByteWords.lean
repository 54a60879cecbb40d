import Mathlib

/-!
# Fixed-width words as byte lists

A word of `w` bytes is written least significant byte first or most significant
byte first. Both directions are stated on natural numbers, so that one round trip
serves every machine width. Nothing here knows what the words are used for.
-/

namespace HathRs

/-- File contents and message bodies. -/
abbrev Bytes := List UInt8

namespace ByteWords

/-- The low `w` bytes of `n`, least significant byte first. -/
def leBytes : ℕ → ℕ → Bytes
  | 0, _ => []
  | w + 1, n => UInt8.ofNat (n % 256) :: leBytes w (n / 256)

/-- The number whose little-endian bytes are given. -/
def ofLeBytes : Bytes → ℕ
  | [] => 0
  | b :: bs => b.toNat + 256 * ofLeBytes bs

/-- The low `w` bytes of `n`, most significant byte first. -/
def beBytes (w n : ℕ) : Bytes := (leBytes w n).reverse

/-- The number whose big-endian bytes are given. -/
def ofBeBytes (bs : Bytes) : ℕ := ofLeBytes bs.reverse

@[simp] theorem length_leBytes (w n : ℕ) : (leBytes w n).length = w := by
  induction w generalizing n with
  | zero => rfl
  | succ w ih => simp [leBytes, ih]

@[simp] theorem length_beBytes (w n : ℕ) : (beBytes w n).length = w := by simp [beBytes]

/-- Reading back the low `w` bytes forgets everything above them. -/
theorem ofLeBytes_leBytes (w n : ℕ) : ofLeBytes (leBytes w n) = n % 256 ^ w := by
  induction w generalizing n with
  | zero => simp [leBytes, ofLeBytes, Nat.mod_one]
  | succ w ih =>
    have hsplit : n % 256 ^ (w + 1) = n % 256 + 256 * (n / 256 % 256 ^ w) := by
      rw [pow_succ', Nat.mod_mul]
    simp [leBytes, ofLeBytes, ih, hsplit]

theorem ofLeBytes_leBytes_of_lt {w n : ℕ} (h : n < 256 ^ w) : ofLeBytes (leBytes w n) = n := by
  rw [ofLeBytes_leBytes, Nat.mod_eq_of_lt h]

theorem ofLeBytes_lt (bs : Bytes) : ofLeBytes bs < 256 ^ bs.length := by
  induction bs with
  | nil => simp [ofLeBytes]
  | cons b bs ih =>
    have hb := b.toNat_lt
    simp only [ofLeBytes, List.length_cons, pow_succ]
    omega

/-- Every byte list is the encoding of the number it spells. -/
theorem leBytes_ofLeBytes (bs : Bytes) : leBytes bs.length (ofLeBytes bs) = bs := by
  induction bs with
  | nil => rfl
  | cons b bs ih =>
    have hb := b.toNat_lt
    have hlow : (b.toNat + 256 * ofLeBytes bs) % 256 = b.toNat := by omega
    have hhigh : (b.toNat + 256 * ofLeBytes bs) / 256 = ofLeBytes bs := by omega
    simp [leBytes, ofLeBytes, hlow, hhigh, ih]

/-- Reversing the bytes of a word and writing it most significant byte first
writes the original word least significant byte first. -/
theorem beBytes_ofBeBytes_reverse (w n : ℕ) :
    beBytes w (ofBeBytes (beBytes w n).reverse) = leBytes w n := by
  have h := leBytes_ofLeBytes (beBytes w n)
  rw [length_beBytes] at h
  simp only [beBytes, ofBeBytes, List.reverse_reverse] at h ⊢
  rw [h, List.reverse_reverse]

end ByteWords
end HathRs
