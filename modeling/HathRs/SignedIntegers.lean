import HathRs.MachineArithmetic

/-!
# Signed 64-bit integers: overflow and decimal text

A subtraction or an absolute value that leaves the range stops a debug build and wraps
around in a release build. The decimal form has a minus sign in front of a negative number,
and fields that are joined by hyphens can be told apart although the sign is one.
-/

namespace HathRs.SignedIntegers
open TextParsing MachineArithmetic

/-! ## Arithmetic -/

/-- The result of an operation on signed 64 bits with this exact value. -/
def checkedI64 (build : Build) (exact : ℤ) : Except Panic Int64 :=
  if (-2 ^ 63 ≤ exact ∧ exact < 2 ^ 63) ∨ build = .release then .ok (Int64.ofInt exact)
  else .error .overflow

def subI64 (build : Build) (a b : Int64) : Except Panic Int64 :=
  checkedI64 build (a.toInt - b.toInt)

def absI64 (build : Build) (a : Int64) : Except Panic Int64 := checkedI64 build |a.toInt|

/-- `(a - b).abs()` -/
def distanceI64 (build : Build) (a b : Int64) : Except Panic Int64 := do
  absI64 build (← subI64 build a b)

theorem checkedI64_of_fits (build : Build) {exact : ℤ} (hlow : -2 ^ 63 ≤ exact)
    (hhigh : exact < 2 ^ 63) : checkedI64 build exact = .ok (Int64.ofInt exact) :=
  if_pos (.inl ⟨hlow, hhigh⟩)

/-- A difference above `-2^63` and below `2^63` has the expected absolute value. -/
theorem distanceI64_of_fits (build : Build) {a b : Int64} (hlow : -2 ^ 63 < a.toInt - b.toInt)
    (hhigh : a.toInt - b.toInt < 2 ^ 63) :
    ∃ d : Int64, distanceI64 build a b = .ok d ∧ d.toInt = |a.toInt - b.toInt| := by
  have hsub := checkedI64_of_fits build hlow.le hhigh
  have hdiff := Int64.toInt_ofInt_of_le hlow.le hhigh
  have habs : |a.toInt - b.toInt| < 2 ^ 63 := abs_lt.mpr ⟨hlow, hhigh⟩
  have hpos : -2 ^ 63 ≤ |a.toInt - b.toInt| := le_trans (by decide) (abs_nonneg _)
  refine ⟨Int64.ofInt |a.toInt - b.toInt|, ?_, Int64.toInt_ofInt_of_le hpos habs⟩
  simp only [distanceI64, subI64, hsub, bind, Except.bind, absI64, hdiff]
  exact checkedI64_of_fits build hpos habs

/-- Any other difference stops a debug build. -/
theorem distanceI64_debug_of_overflow {a b : Int64} (h : a.toInt - b.toInt ≤ -2 ^ 63) :
    distanceI64 .debug a b = .error .overflow := by
  rcases lt_or_eq_of_le h with hlt | heq
  · have hsub : subI64 .debug a b = .error .overflow :=
      if_neg (by rintro (hfits | hrelease) <;> [omega; cases hrelease])
    simp only [distanceI64, hsub, bind, Except.bind]
  · have hsub : subI64 .debug a b = .ok (Int64.ofInt (-2 ^ 63)) := by
      rw [subI64, heq]
      exact checkedI64_of_fits _ le_rfl (by decide)
    simp only [distanceI64, hsub, bind, Except.bind]
    rfl

/-! ## Decimal text -/

def displayI64 (n : Int64) : Text :=
  if n.toInt < 0 then '-' :: decimal n.toInt.natAbs else decimal n.toInt.natAbs

/-- An optional sign, at least one digit, no overflow. -/
def parseI64 : Text → Option Int64
  | '-' :: digits =>
    if digits = [] || !digits.all Char.isDigit then none
    else
      let n := Nat.ofDigitChars 10 digits 0
      if n ≤ 2 ^ 63 then some (Int64.ofInt (-n)) else none
  | t => (parseUnsigned (2 ^ 63) t).map fun (n : ℕ) => Int64.ofInt n

theorem decimal_inj {m n : ℕ} (h : decimal m = decimal n) : m = n := by
  have hread : ∀ k, Nat.ofDigitChars 10 (decimal k) 0 = k :=
    fun k => Nat.ofDigitChars_toDigits (by omega) (by omega)
  rw [← hread m, h, hread n]

theorem hyphen_notMem_decimal (n : ℕ) : '-' ∉ decimal n :=
  fun h => ne_of_mem_decimal h (by decide) rfl

/-- A number is never negative without its sign. -/
theorem nonneg_of_parseI64 {t : Text} {n : Int64} (h : parseI64 t = some n) (ht : '-' ∉ t) :
    0 ≤ n.toInt := by
  unfold parseI64 at h
  split at h
  · simp at ht
  · obtain ⟨m, hm, rfl⟩ := Option.map_eq_some_iff.mp h
    have hlt := parseUnsigned_lt hm
    rw [Int64.toInt_ofInt_of_le (by omega) (by omega)]
    omega

theorem notMem_of_splitOnce {sep : Char} {t key value : Text} (h : splitOnce sep t = some (key, value)) :
    sep ∉ key := by
  induction t generalizing key with
  | nil => cases h
  | cons c t ih =>
    simp only [splitOnce] at h
    split_ifs at h with hc
    · cases h
      exact List.not_mem_nil
    · obtain ⟨⟨key', value'⟩, hrest, heq⟩ := Option.map_eq_some_iff.mp h
      cases heq
      exact List.not_mem_cons_of_ne_of_not_mem (Ne.symm hc) (ih hrest)

theorem eq_append_of_splitOnce {sep : Char} {t key value : Text}
    (h : splitOnce sep t = some (key, value)) : t = key ++ sep :: value := by
  induction t generalizing key with
  | nil => cases h
  | cons c t ih =>
    simp only [splitOnce] at h
    split_ifs at h with hc
    · cases h
      rw [hc, List.nil_append]
    · obtain ⟨⟨key', value'⟩, hrest, heq⟩ := Option.map_eq_some_iff.mp h
      cases heq
      rw [ih hrest, List.cons_append]

/-! ## Fields joined by a separator -/

/-- The first field is told from the rest when the separator is not in it. -/
theorem append_cons_inj {sep : Char} {s s' t t' : Text} (hs : sep ∉ s) (hs' : sep ∉ s')
    (h : s ++ sep :: t = s' ++ sep :: t') : s = s' ∧ t = t' := by
  have hcut := splitOnce_append hs t
  rw [h, splitOnce_append hs'] at hcut
  cases hcut
  exact ⟨rfl, rfl⟩

/-- The same for the last field. -/
theorem append_cons_inj_right {sep : Char} {s s' t t' : Text} (ht : sep ∉ t) (ht' : sep ∉ t')
    (h : s ++ sep :: t = s' ++ sep :: t') : s = s' ∧ t = t' := by
  have hrev := congrArg List.reverse h
  simp only [List.reverse_append, List.reverse_cons, List.append_assoc, List.singleton_append] at hrev
  obtain ⟨hlast, hinit⟩ := append_cons_inj (by simpa using ht) (by simpa using ht') hrev
  exact ⟨List.reverse_inj.mp hinit, List.reverse_inj.mp hlast⟩

theorem displayI64_eq (n : Int64) :
    (0 ≤ n.toInt ∧ displayI64 n = decimal n.toInt.natAbs) ∨
      (n.toInt < 0 ∧ displayI64 n = '-' :: decimal n.toInt.natAbs) := by
  rcases lt_or_ge n.toInt 0 with h | h
  · exact .inr ⟨h, if_pos h⟩
  · exact .inl ⟨h, if_neg (not_lt.mpr h)⟩

theorem head_decimal_ne (n : ℕ) (t : Text) : ∃ c rest, decimal n ++ t = c :: rest ∧ c ≠ '-' := by
  cases hd : decimal n with
  | nil => exact absurd hd (decimal_ne_nil n)
  | cons c cs => exact ⟨c, cs ++ t, rfl, ne_of_mem_decimal (hd ▸ List.mem_cons_self) (by decide)⟩

theorem parseI64_displayI64 (n : Int64) : parseI64 (displayI64 n) = some n := by
  have hread : Nat.ofDigitChars 10 (decimal n.toInt.natAbs) 0 = n.toInt.natAbs :=
    Nat.ofDigitChars_toDigits (by omega) (by omega)
  have hmin := n.le_toInt
  have hmax := n.toInt_lt
  rcases displayI64_eq n with ⟨hn, hdisplay⟩ | ⟨hn, hdisplay⟩ <;> rw [hdisplay]
  · obtain ⟨c, rest, hc, hne⟩ := head_decimal_ne n.toInt.natAbs []
    rw [List.append_nil] at hc
    have hparse : parseI64 (decimal n.toInt.natAbs) =
        (parseUnsigned (2 ^ 63) (decimal n.toInt.natAbs)).map fun (k : ℕ) => Int64.ofInt k := by
      rw [hc, parseI64]
      intro digits hcons
      exact hne (List.cons.inj hcons).1
    rw [hparse, parseUnsigned_decimal (by omega), Option.map_some, Int.natAbs_of_nonneg hn,
      Int64.ofInt_toInt]
  · have hdigits : (decimal n.toInt.natAbs).all Char.isDigit = true :=
      List.all_eq_true.mpr fun c hc => isDigit_of_mem_decimal hc
    have hfits : n.toInt.natAbs ≤ 2 ^ 63 := by omega
    have hneg : -(n.toInt.natAbs : ℤ) = n.toInt := by omega
    simp only [parseI64, decimal_ne_nil, hdigits, hread, hfits, hneg, decide_false, Bool.not_true,
      Bool.or_self, Bool.false_eq_true, if_false, if_true, Int64.ofInt_toInt]

/-- A number in front of a hyphen: a leading hyphen can only be its sign. -/
theorem displayI64_append_inj {m n : Int64} {s t : Text}
    (h : displayI64 m ++ '-' :: s = displayI64 n ++ '-' :: t) : m = n ∧ s = t := by
  have hnat : ∀ {a b : ℕ} {s t : Text}, decimal a ++ '-' :: s = decimal b ++ '-' :: t →
      a = b ∧ s = t := fun hab => by
    obtain ⟨hdigits, hrest⟩ := append_cons_inj (hyphen_notMem_decimal _) (hyphen_notMem_decimal _) hab
    exact ⟨decimal_inj hdigits, hrest⟩
  rcases displayI64_eq m with ⟨hm, hmd⟩ | ⟨hm, hmd⟩ <;>
    rcases displayI64_eq n with ⟨hn, hnd⟩ | ⟨hn, hnd⟩ <;> rw [hmd, hnd] at h
  · obtain ⟨habs, hrest⟩ := hnat h
    exact ⟨Int64.toInt_inj.mp (by omega), hrest⟩
  · obtain ⟨c, rest, hc, hne⟩ := head_decimal_ne m.toInt.natAbs ('-' :: s)
    rw [hc, List.cons_append] at h
    exact absurd (List.cons.inj h).1 hne
  · obtain ⟨c, rest, hc, hne⟩ := head_decimal_ne n.toInt.natAbs ('-' :: t)
    rw [hc, List.cons_append] at h
    exact absurd (List.cons.inj h).1.symm hne
  · obtain ⟨habs, hrest⟩ := hnat (List.cons.inj h).2
    exact ⟨Int64.toInt_inj.mp (by omega), hrest⟩

/-- A number behind an unsigned one: of the hyphens between them the second is a sign. -/
theorem append_displayI64_inj {m n : Int64} {k : ℕ} {s t : Text}
    (h : s ++ '-' :: (decimal k ++ '-' :: displayI64 m) =
      t ++ '-' :: (decimal k ++ '-' :: displayI64 n)) : s = t ∧ m = n := by
  have hlast : ∀ {u v : Text} {a b : ℕ}, u ++ '-' :: decimal a = v ++ '-' :: decimal b →
      u = v ∧ a = b := fun huv => by
    obtain ⟨hinit, hdigits⟩ :=
      append_cons_inj_right (hyphen_notMem_decimal _) (hyphen_notMem_decimal _) huv
    exact ⟨hinit, decimal_inj hdigits⟩
  have hsame : ∀ {u v : Text}, u ++ '-' :: decimal k = v ++ '-' :: decimal k → u = v :=
    fun huv => (hlast huv).1
  -- a field that ends in digits is not one that ends in a hyphen
  have hmixed : ∀ {u v : Text}, u ++ '-' :: decimal k ≠ v ++ ['-'] := fun {u v} huv => by
    obtain ⟨-, hnil⟩ := append_cons_inj_right (hyphen_notMem_decimal k) List.not_mem_nil huv
    exact decimal_ne_nil k hnil
  rcases displayI64_eq m with ⟨hm, hmd⟩ | ⟨hm, hmd⟩ <;>
    rcases displayI64_eq n with ⟨hn, hnd⟩ | ⟨hn, hnd⟩ <;> rw [hmd, hnd] at h
  · obtain ⟨hinit, habs⟩ := hlast (u := s ++ '-' :: decimal k) (v := t ++ '-' :: decimal k)
      (by simpa using h)
    exact ⟨hsame hinit, Int64.toInt_inj.mp (by omega)⟩
  · obtain ⟨hinit, -⟩ := hlast (u := s ++ '-' :: decimal k) (v := t ++ '-' :: decimal k ++ ['-'])
      (by simpa using h)
    exact absurd hinit hmixed
  · obtain ⟨hinit, -⟩ := hlast (u := s ++ '-' :: decimal k ++ ['-']) (v := t ++ '-' :: decimal k)
      (by simpa using h)
    exact absurd hinit.symm hmixed
  · obtain ⟨hinit, habs⟩ := hlast (u := s ++ '-' :: decimal k ++ ['-'])
      (v := t ++ '-' :: decimal k ++ ['-']) (by simpa using h)
    exact ⟨hsame (List.append_cancel_right hinit), Int64.toInt_inj.mp (by omega)⟩

end HathRs.SignedIntegers
