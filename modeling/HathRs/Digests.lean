import HathRs.TextParsing

/-!
# Message digests and their hexadecimal text

SHA-1 and SHA-256 are arbitrary functions from byte strings to digests of their
fixed length. A running hasher is the list of bytes it has absorbed, so that its
digest is the digest of exactly those bytes. The width of a digest's text then
follows from the encoder and is not an assumption.
-/

namespace HathRs.Digests
open TextParsing

abbrev Sha1Digest := Vector UInt8 20

/-- The lowercase hexadecimal digit of a number below 16. -/
def hexDigit (n : ℕ) : Char := if n < 10 then Char.ofNat (48 + n) else Char.ofNat (87 + n)

/-- Lowercase hexadecimal text, two digits for each byte. -/
def hexEncode (data : Bytes) : Text :=
  data.flatMap (fun b => [hexDigit (b.toNat / 16), hexDigit (b.toNat % 16)])

theorem length_hexEncode (data : Bytes) : (hexEncode data).length = 2 * data.length := by
  induction data with
  | nil => rfl
  | cons b data ih => simp [hexEncode] at ih ⊢; omega

/-- The characters a digest's text is made of. -/
def isLowerHexChar (c : Char) : Bool :=
  (48 ≤ c.toNat && c.toNat ≤ 57) || (97 ≤ c.toNat && c.toNat ≤ 102)

private theorem isLowerHexChar_hexDigit : ∀ n < 16, isLowerHexChar (hexDigit n) = true := by decide

theorem isLowerHexChar_of_mem_hexEncode {data : Bytes} {c : Char} (h : c ∈ hexEncode data) :
    isLowerHexChar c = true := by
  obtain ⟨b, -, hc⟩ := List.mem_flatMap.mp h
  have hb := b.toNat_lt
  simp only [List.mem_cons, List.not_mem_nil, or_false] at hc
  rcases hc with rfl | rfl
  · exact isLowerHexChar_hexDigit _ (by omega)
  · exact isLowerHexChar_hexDigit _ (by omega)

theorem ne_of_mem_hexEncode {data : Bytes} {c d : Char} (h : c ∈ hexEncode data)
    (hd : isLowerHexChar d = false) : c ≠ d := by
  rintro rfl
  rw [isLowerHexChar_of_mem_hexEncode h] at hd
  contradiction

theorem ascii_hexEncode (data : Bytes) : Ascii (hexEncode data) := by
  intro c hc
  have h := isLowerHexChar_of_mem_hexEncode hc
  simp only [isLowerHexChar, Bool.or_eq_true, Bool.and_eq_true, decide_eq_true_eq] at h
  omega

/-- `utils::sha1_bytes`: the hexadecimal SHA-1 of a byte string. -/
def sha1Bytes (sha1 : Bytes → Sha1Digest) (data : Bytes) : Text := hexEncode (sha1 data).toList

@[simp] theorem length_sha1Bytes (sha1 : Bytes → Sha1Digest) (data : Bytes) :
    (sha1Bytes sha1 data).length = 40 := by
  simp [sha1Bytes, length_hexEncode]

end HathRs.Digests
