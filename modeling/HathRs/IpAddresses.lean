import HathRs.TextParsing

/-!
# The text of IP addresses

Addresses are printed as the standard library prints them, an IPv6 address with its longest
run of zeros left out or with an embedded IPv4 address, and the library's parser reads the
address back.
-/

namespace HathRs.IpAddresses
open TextParsing

/-! ## Addresses and their text -/

structure Ipv4Addr where
  a : UInt8
  b : UInt8
  c : UInt8
  d : UInt8
  deriving DecidableEq

structure Ipv6Addr where
  segments : List UInt16
  length_segments : segments.length = 8
  deriving DecidableEq

inductive IpAddr where
  | v4 (addr : Ipv4Addr)
  | v6 (addr : Ipv6Addr)
  deriving DecidableEq

def Ipv4Addr.display (addr : Ipv4Addr) : Text :=
  decimal addr.a.toNat ++ '.' :: (decimal addr.b.toNat ++ '.' :: (decimal addr.c.toNat ++
    '.' :: decimal addr.d.toNat))

/-- The hexadecimal digits of a number of sixteen bits. -/
def lowerHex (n : ℕ) : Text :=
  if n < 16 then [Nat.digitChar n]
  else if n < 256 then [Nat.digitChar (n / 16), Nat.digitChar (n % 16)]
  else if n < 4096 then [Nat.digitChar (n / 256), Nat.digitChar (n / 16 % 16), Nat.digitChar (n % 16)]
  else [Nat.digitChar (n / 4096), Nat.digitChar (n / 256 % 16), Nat.digitChar (n / 16 % 16),
    Nat.digitChar (n % 16)]

/-- The groups behind the first one. -/
def moreGroups (groups : List UInt16) : Text := groups.flatMap fun g => ':' :: lowerHex g.toNat

def joinGroups : List UInt16 → Text
  | [] => []
  | g :: groups => lowerHex g.toNat ++ moreGroups groups

/-- The start and the length of the first of the longest runs of zeros, from the position `i` on. -/
def zeroRunFrom (i : ℕ) (longest current : ℕ × ℕ) : List UInt16 → ℕ × ℕ
  | [] => longest
  | s :: rest =>
    if s = 0 then
      let current := (if current.2 = 0 then i else current.1, current.2 + 1)
      zeroRunFrom (i + 1) (if longest.2 < current.2 then current else longest) current rest
    else zeroRunFrom (i + 1) longest (0, 0) rest

def zeroRun (segments : List UInt16) : ℕ × ℕ := zeroRunFrom 0 (0, 0) (0, 0) segments

/-- The IPv4 address in two groups. -/
def embedded (x y : UInt16) : Ipv4Addr :=
  ⟨UInt8.ofNat (x.toNat / 256), UInt8.ofNat (x.toNat % 256), UInt8.ofNat (y.toNat / 256),
    UInt8.ofNat (y.toNat % 256)⟩

def Ipv6Addr.display (addr : Ipv6Addr) : Text :=
  if addr.segments.take 6 = [0, 0, 0, 0, 0, 0xffff] then
    "::ffff:".toList ++ (embedded (addr.segments.getD 6 0) (addr.segments.getD 7 0)).display
  else
    let (start, len) := zeroRun addr.segments
    if 1 < len then
      joinGroups (addr.segments.take start) ++ ':' :: ':' :: joinGroups (addr.segments.drop (start + len))
    else joinGroups addr.segments

def IpAddr.display : IpAddr → Text
  | .v4 addr => addr.display
  | .v6 addr => addr.display

/-! ## The parser -/

/-- `char::to_digit` -/
def toDigit (radix : ℕ) (c : Char) : Option ℕ := (hexValue c).filter (· < radix)

def isDigitOf (radix : ℕ) (c : Char) : Bool := (toDigit radix c).isSome

def numberOf (radix : ℕ) (digits : Text) : ℕ :=
  digits.foldl (fun n c => n * radix + (toDigit radix c).getD 0) 0

/-- A number below the bound with at most so many digits. -/
def readNumber (radix maxDigits bound : ℕ) (allowZeroPrefix : Bool) (t : Text) : Option (ℕ × Text) :=
  let digits := t.takeWhile (isDigitOf radix)
  let n := numberOf radix digits
  if digits = [] ∨ maxDigits < digits.length ∨ bound ≤ n ∨
      (allowZeroPrefix = false ∧ digits.head? = some '0' ∧ 1 < digits.length) then none
  else some (n, t.drop digits.length)

def readChar (c : Char) : Text → Option Text
  | [] => none
  | c' :: t => if c' = c then some t else none

def readOctet (t : Text) : Option (UInt8 × Text) :=
  (readNumber 10 3 256 false t).map fun (n, rest) => (UInt8.ofNat n, rest)

def readIpv4 (t : Text) : Option (Ipv4Addr × Text) := do
  let (a, t) ← readOctet t
  let (b, t) ← readOctet (← readChar '.' t)
  let (c, t) ← readOctet (← readChar '.' t)
  let (d, t) ← readOctet (← readChar '.' t)
  return (⟨a, b, c, d⟩, t)

def readGroup (t : Text) : Option (UInt16 × Text) :=
  (readNumber 16 4 65536 true t).map fun (n, rest) => (UInt16.ofNat n, rest)

/-- A colon stands in front of every group but the first. -/
def readSeparator {α : Type} (first : Bool) (read : Text → Option (α × Text)) (t : Text) :
    Option (α × Text) :=
  if first then read t else (readChar ':' t).bind read

/-- At most so many groups, with whether the last two are an IPv4 address. -/
def readGroups : ℕ → Bool → Text → List UInt16 × Bool × Text
  | 0, _, t => ([], false, t)
  | left + 1, first, t =>
    match if 1 ≤ left then readSeparator first readIpv4 t else none with
    | some (addr, rest) =>
      ([UInt16.ofNat (addr.a.toNat * 256 + addr.b.toNat),
        UInt16.ofNat (addr.c.toNat * 256 + addr.d.toNat)], true, rest)
    | none =>
      match readSeparator first readGroup t with
      | none => ([], false, t)
      | some (g, rest) =>
        let (groups, ipv4, rest) := readGroups left false rest
        (g :: groups, ipv4, rest)

def readIpv6 (t : Text) : Option (Ipv6Addr × Text) :=
  let (head, headIpv4, rest) := readGroups 8 true t
  if h : head.length = 8 then some (⟨head, h⟩, rest)
  else if headIpv4 then none
  else
    match rest with
    | ':' :: ':' :: rest =>
      let (tail, _, rest) := readGroups (7 - head.length) true rest
      let segments := head ++ List.replicate (8 - head.length - tail.length) 0 ++ tail
      if h : segments.length = 8 then some (⟨segments, h⟩, rest) else none
    | _ => none

/-- `str::parse::<IpAddr>` -/
def parseIp (t : Text) : Option IpAddr :=
  match (readIpv4 t).map (fun (addr, rest) => (IpAddr.v4 addr, rest)) <|>
      (readIpv6 t).map (fun (addr, rest) => (IpAddr.v6 addr, rest)) with
  | some (addr, []) => some addr
  | _ => none

/-! ## Numbers are read back -/

/-- Nothing can be read on to the number in front of this text. -/
def Stops (radix : ℕ) (t : Text) : Prop := ∀ c ∈ t.head?, isDigitOf radix c = false

theorem takeWhile_append_stops {radix : ℕ} {digits t : Text}
    (hdigits : digits.all (isDigitOf radix) = true) (ht : Stops radix t) :
    (digits ++ t).takeWhile (isDigitOf radix) = digits := by
  have hall := List.all_eq_true.mp hdigits
  rw [List.takeWhile_append_of_pos hall]
  cases t with
  | nil => rw [List.takeWhile_nil, List.append_nil]
  | cons c t =>
    rw [List.takeWhile_cons_of_neg, List.append_nil]
    simp [ht c rfl]

theorem readNumber_append {radix maxDigits bound n : ℕ} {allowZeroPrefix : Bool} {digits t : Text}
    (hdigits : digits.all (isDigitOf radix) = true) (ht : Stops radix t) (hne : digits ≠ [])
    (hlength : digits.length ≤ maxDigits) (hn : numberOf radix digits = n) (hbound : n < bound)
    (hzero : allowZeroPrefix = true ∨ digits.head? ≠ some '0' ∨ digits.length ≤ 1) :
    readNumber radix maxDigits bound allowZeroPrefix (digits ++ t) = some (n, t) := by
  simp only [readNumber, takeWhile_append_stops hdigits ht, hn, List.drop_left]
  rw [if_neg]
  rintro (h | h | h | ⟨hallow, hhead, hlong⟩)
  · exact hne h
  · omega
  · omega
  · rcases hzero with h | h | h
    · rw [h] at hallow
      cases hallow
    · exact h hhead
    · omega

/-- What the parser relies on in a decimal byte. -/
private theorem decimal_octet : ∀ n < 256, (decimal n).all (isDigitOf 10) = true ∧
    (decimal n).length ≤ 3 ∧ numberOf 10 (decimal n) = n ∧
    ((decimal n).head? ≠ some '0' ∨ (decimal n).length ≤ 1) := by
  decide +kernel

theorem readOctet_append (n : UInt8) {t : Text} (ht : Stops 10 t) :
    readOctet (decimal n.toNat ++ t) = some (n, t) := by
  obtain ⟨hdigits, hlength, hvalue, hzero⟩ := decimal_octet n.toNat n.toNat_lt
  rw [readOctet, readNumber_append hdigits ht (decimal_ne_nil _) hlength hvalue n.toNat_lt
    (.inr hzero), Option.map_some]
  simp only [UInt8.ofNat_toNat]

theorem stops_cons {radix : ℕ} {c : Char} (h : isDigitOf radix c = false) (t : Text) :
    Stops radix (c :: t) := by
  intro c' hc'
  cases hc'
  exact h

theorem readIpv4_append (addr : Ipv4Addr) {t : Text} (ht : Stops 10 t) :
    readIpv4 (addr.display ++ t) = some (addr, t) := by
  have hdot : ∀ t, Stops 10 ('.' :: t) := stops_cons (by decide)
  simp only [readIpv4, Ipv4Addr.display, List.append_assoc, List.cons_append,
    readOctet_append _ (hdot _), readOctet_append _ ht, readChar, bind, Option.bind_some, if_true, pure]

private theorem toDigit_digitChar : ∀ d < 16, toDigit 16 (Nat.digitChar d) = some d := by decide

/-- What the parser relies on in a hexadecimal group. -/
theorem lowerHex_spec {n : ℕ} (h : n < 65536) : (lowerHex n).all (isDigitOf 16) = true ∧
    lowerHex n ≠ [] ∧ (lowerHex n).length ≤ 4 ∧ numberOf 16 (lowerHex n) = n := by
  have hdigit : ∀ d < 16, isDigitOf 16 (Nat.digitChar d) = true := fun d hd => by
    rw [isDigitOf, toDigit_digitChar d hd, Option.isSome_some]
  unfold lowerHex
  split_ifs with h₁ h₂ h₃
  · simp [numberOf, toDigit_digitChar n h₁, hdigit n h₁]
  · have hhigh : n / 16 < 16 := by omega
    have hlow : n % 16 < 16 := by omega
    simp only [List.all_cons, List.all_nil, hdigit _ hhigh, hdigit _ hlow, numberOf, List.foldl_cons,
      List.foldl_nil, toDigit_digitChar _ hhigh, toDigit_digitChar _ hlow, Option.getD_some]
    refine ⟨rfl, nofun, by simp, by omega⟩
  · have h2 : n / 256 < 16 := by omega
    have h1 : n / 16 % 16 < 16 := by omega
    have h0 : n % 16 < 16 := by omega
    simp only [List.all_cons, List.all_nil, hdigit _ h2, hdigit _ h1, hdigit _ h0, numberOf,
      List.foldl_cons, List.foldl_nil, toDigit_digitChar _ h2, toDigit_digitChar _ h1,
      toDigit_digitChar _ h0, Option.getD_some]
    refine ⟨rfl, nofun, by simp, by omega⟩
  · have h3 : n / 4096 < 16 := by omega
    have h2 : n / 256 % 16 < 16 := by omega
    have h1 : n / 16 % 16 < 16 := by omega
    have h0 : n % 16 < 16 := by omega
    simp only [List.all_cons, List.all_nil, hdigit _ h3, hdigit _ h2, hdigit _ h1, hdigit _ h0,
      numberOf, List.foldl_cons, List.foldl_nil, toDigit_digitChar _ h3, toDigit_digitChar _ h2,
      toDigit_digitChar _ h1, toDigit_digitChar _ h0, Option.getD_some]
    refine ⟨rfl, nofun, by simp, by omega⟩

theorem readGroup_append (g : UInt16) {t : Text} (ht : Stops 16 t) :
    readGroup (lowerHex g.toNat ++ t) = some (g, t) := by
  obtain ⟨hdigits, hne, hlength, hvalue⟩ := lowerHex_spec g.toNat_lt
  rw [readGroup, readNumber_append hdigits ht hne hlength hvalue g.toNat_lt (.inl rfl),
    Option.map_some]
  simp only [UInt16.ofNat_toNat]

/-! ## Groups are read back -/

theorem readNumber_cons_eq_none {radix maxDigits bound : ℕ} {allowZeroPrefix : Bool} {c : Char}
    (h : isDigitOf radix c = false) (t : Text) :
    readNumber radix maxDigits bound allowZeroPrefix (c :: t) = none := by
  have hnil : (c :: t).takeWhile (isDigitOf radix) = [] := List.takeWhile_cons_of_neg (by simp [h])
  simp only [readNumber, hnil]
  exact if_pos (.inl trivial)

theorem mem_of_readOctet {t rest : Text} {n : UInt8} {c : Char} (h : readOctet t = some (n, rest))
    (hc : c ∈ rest) : c ∈ t := by
  obtain ⟨⟨m, rest'⟩, hread, heq⟩ := Option.map_eq_some_iff.mp h
  cases heq
  simp only [readNumber] at hread
  split_ifs at hread
  cases hread
  exact List.mem_of_mem_drop hc

/-- An IPv4 address has a dot in it. -/
theorem readIpv4_eq_none {t : Text} (h : '.' ∉ t) : readIpv4 t = none := by
  cases hoctet : readOctet t with
  | none => simp only [readIpv4, hoctet, bind, Option.bind_none]
  | some first =>
    obtain ⟨n, rest⟩ := first
    have hchar : readChar '.' rest = none := by
      cases rest with
      | nil => rfl
      | cons c rest =>
        refine if_neg ?_
        rintro rfl
        exact h (mem_of_readOctet hoctet List.mem_cons_self)
    simp only [readIpv4, hoctet, bind, Option.bind_some, hchar, Option.bind_none]

/-- What can stand behind the groups: nothing, or two colons. -/
def EndsGroups (t : Text) : Prop := t = [] ∨ ∃ rest, t = ':' :: ':' :: rest

theorem readGroups_of_end {t : Text} (ht : EndsGroups t) (left : ℕ) (first : Bool) :
    readGroups left first t = ([], false, t) := by
  have hnone : ∀ {α : Type} {read : Text → Option (α × Text)}, read [] = none →
      (∀ rest, read (':' :: rest) = none) → readSeparator first read t = none := by
    intro α read hnil hcolon
    rcases ht with rfl | ⟨rest, rfl⟩ <;> cases first
    · rfl
    · exact hnil
    · exact hcolon rest
    · exact hcolon (':' :: rest)
  have hcolon : isDigitOf 16 ':' = false := by decide
  have hgroup : readSeparator first readGroup t = none :=
    hnone rfl fun rest => by rw [readGroup, readNumber_cons_eq_none hcolon, Option.map_none]
  have hipv4 : readSeparator first readIpv4 t = none := by
    refine hnone rfl fun rest => ?_
    have hoctet : readOctet (':' :: rest) = none := by
      rw [readOctet, readNumber_cons_eq_none (by decide), Option.map_none]
    simp only [readIpv4, hoctet, bind, Option.bind_none]
  cases left with
  | zero => rfl
  | succ left => simp only [readGroups, hipv4, hgroup, ite_self]

/-- The next group is not an IPv4 address. -/
theorem readGroups_succ_of_group {left : ℕ} {first : Bool} {t rest : Text} {g : UInt16}
    (hipv4 : readSeparator first readIpv4 t = none)
    (hgroup : readSeparator first readGroup t = some (g, rest)) :
    readGroups (left + 1) first t = (g :: (readGroups left false rest).1,
      (readGroups left false rest).2.1, (readGroups left false rest).2.2) := by
  rw [readGroups]
  simp only [hipv4, hgroup, ite_self]

theorem readGroups_succ_of_ipv4 {left : ℕ} {first : Bool} {t rest : Text} {addr : Ipv4Addr}
    (hipv4 : readSeparator first readIpv4 t = some (addr, rest)) :
    readGroups (left + 2) first t =
      ([UInt16.ofNat (addr.a.toNat * 256 + addr.b.toNat),
        UInt16.ofNat (addr.c.toNat * 256 + addr.d.toNat)], true, rest) := by
  have hroom : 1 ≤ left + 1 := by omega
  rw [readGroups]
  simp only [hipv4, if_pos hroom]

theorem notMem_lowerHex {n : ℕ} (h : n < 65536) {c : Char} (hc : isDigitOf 16 c = false) :
    c ∉ lowerHex n := by
  intro hmem
  have hdigit := List.all_eq_true.mp (lowerHex_spec h).1 c hmem
  rw [hc] at hdigit
  cases hdigit

theorem notMem_moreGroups {gs : List UInt16} {c : Char} (hc : isDigitOf 16 c = false) (hne : c ≠ ':') :
    c ∉ moreGroups gs := by
  intro hmem
  obtain ⟨g, -, hg⟩ := List.mem_flatMap.mp hmem
  rcases List.mem_cons.mp hg with heq | hg
  · exact hne heq
  · exact notMem_lowerHex g.toNat_lt hc hg

theorem stops_moreGroups_append (gs : List UInt16) {t : Text} (ht : EndsGroups t) :
    Stops 16 (moreGroups gs ++ t) := by
  have hcolon : ∀ t, Stops 16 (':' :: t) := stops_cons (by decide)
  cases gs with
  | nil =>
    rcases ht with rfl | ⟨rest, rfl⟩
    · exact nofun
    · exact hcolon _
  | cons g gs => exact hcolon _

/-- A group that is not the start of an IPv4 address is read and the others follow it. -/
theorem readGroups_succ_of_lowerHex {g : UInt16} {gs : List UInt16} {left : ℕ} {first : Bool}
    {text t : Text} (ht : EndsGroups t) (hdot : '.' ∉ t)
    (htext : ∀ {α : Type} (read : Text → Option (α × Text)),
      readSeparator first read text = read (lowerHex g.toNat ++ (moreGroups gs ++ t)))
    (hrest : readGroups left false (moreGroups gs ++ t) = (gs, false, t)) :
    readGroups (left + 1) first text = (g :: gs, false, t) := by
  have hgroup : '.' ∉ lowerHex g.toNat := notMem_lowerHex g.toNat_lt (by decide)
  have hgroups : '.' ∉ moreGroups gs := notMem_moreGroups (by decide) (by decide)
  have hipv4 : readSeparator first readIpv4 text = none := by
    rw [htext]
    exact readIpv4_eq_none (by simp [hgroup, hgroups, hdot])
  have hread : readSeparator first readGroup text = some (g, moreGroups gs ++ t) := by
    rw [htext]
    exact readGroup_append g (stops_moreGroups_append gs ht)
  rw [readGroups_succ_of_group hipv4 hread, hrest]

theorem readGroups_moreGroups {gs : List UInt16} {left : ℕ} (hleft : gs.length ≤ left) {t : Text}
    (ht : EndsGroups t) (hdot : '.' ∉ t) :
    readGroups left false (moreGroups gs ++ t) = (gs, false, t) := by
  induction gs generalizing left with
  | nil => exact readGroups_of_end ht left false
  | cons g gs ih =>
    obtain ⟨left, rfl⟩ : ∃ k, left = k + 1 := ⟨left - 1, by simp at hleft; omega⟩
    have htext : moreGroups (g :: gs) ++ t = ':' :: (lowerHex g.toNat ++ (moreGroups gs ++ t)) := by
      simp [moreGroups]
    refine readGroups_succ_of_lowerHex ht hdot (fun read => ?_) (ih (Nat.le_of_succ_le_succ hleft))
    rw [htext]
    rfl

theorem readGroups_joinGroups {gs : List UInt16} {left : ℕ} (hleft : gs.length ≤ left) {t : Text}
    (ht : EndsGroups t) (hdot : '.' ∉ t) :
    readGroups left true (joinGroups gs ++ t) = (gs, false, t) := by
  cases gs with
  | nil => exact readGroups_of_end ht left true
  | cons g gs =>
    obtain ⟨left, rfl⟩ : ∃ k, left = k + 1 := ⟨left - 1, by simp at hleft; omega⟩
    have htext : joinGroups (g :: gs) ++ t = lowerHex g.toNat ++ (moreGroups gs ++ t) := by
      simp [joinGroups]
    refine readGroups_succ_of_lowerHex ht hdot (fun read => ?_)
      (readGroups_moreGroups (Nat.le_of_succ_le_succ hleft) ht hdot)
    rw [htext]
    rfl

/-! ## The run of zeros -/

/-- From the start of the run on there are so many zeros. -/
def IsZeroRun (segments : List UInt16) (r : ℕ × ℕ) : Prop :=
  ∀ j, r.1 ≤ j → j < r.1 + r.2 → segments[j]? = some 0

theorem isZeroRun_zeroRunFrom {segments front rest : List UInt16} {longest current : ℕ × ℕ}
    (hsegments : segments = front ++ rest) (hlongest : IsZeroRun segments longest)
    (hcurrent : IsZeroRun segments current)
    (hend : current.2 = 0 ∨ current.1 + current.2 = front.length) :
    IsZeroRun segments (zeroRunFrom front.length longest current rest) := by
  induction rest generalizing front longest current with
  | nil => exact hlongest
  | cons s rest ih =>
    have hnext : segments = (front ++ [s]) ++ rest := by simp [hsegments]
    have hlength : front.length + 1 = (front ++ [s]).length := by simp
    by_cases hzero : s = 0
    · have hhere : segments[front.length]? = some 0 := by simp [hsegments, hzero]
      -- the current run goes on, or starts here
      have hgrown : ∃ start len, (if current.2 = 0 then front.length else current.1, current.2 + 1) =
          (start, len) ∧ start + len = front.length + 1 ∧ IsZeroRun segments (start, len) := by
        rcases hend with hnone | hend
        · refine ⟨front.length, 1, by simp [hnone], rfl, fun j hj hj' => ?_⟩
          obtain rfl : j = front.length := by simp only at hj hj'; omega
          exact hhere
        · by_cases hnone : current.2 = 0
          · refine ⟨front.length, 1, by simp [hnone], rfl, fun j hj hj' => ?_⟩
            obtain rfl : j = front.length := by simp only at hj hj'; omega
            exact hhere
          · refine ⟨current.1, current.2 + 1, by simp [hnone], by omega, fun j hj hj' => ?_⟩
            simp only at hj hj'
            rcases Nat.lt_or_ge j front.length with hlt | hge
            · exact hcurrent j hj (by omega)
            · obtain rfl : j = front.length := by omega
              exact hhere
      obtain ⟨start, len, hgrown, hends, hrun⟩ := hgrown
      simp only [zeroRunFrom, if_pos hzero, hgrown]
      rw [hlength]
      refine ih hnext ?_ hrun (.inr (by simp only; omega))
      split_ifs
      · exact hrun
      · exact hlongest
    · simp only [zeroRunFrom, if_neg hzero]
      rw [hlength]
      refine ih hnext hlongest (fun j hj hj' => ?_) (.inl rfl)
      simp only at hj hj'
      omega

theorem isZeroRun_zeroRun (segments : List UInt16) : IsZeroRun segments (zeroRun segments) := by
  have hempty : IsZeroRun segments (0, 0) := fun j hj hj' => by
    simp only at hj hj'
    omega
  exact isZeroRun_zeroRunFrom (List.nil_append segments).symm hempty hempty (.inl rfl)

/-- No run of zeros up to the position `n` is longer than this one, and none as long starts before
it. -/
def IsLongestRun (segments : List UInt16) (n : ℕ) (r : ℕ × ℕ) : Prop :=
  ∀ s l, 0 < l → IsZeroRun segments (s, l) → s + l ≤ n → l < r.2 ∨ l = r.2 ∧ r.1 ≤ s

theorem IsZeroRun.dropLast {segments : List UInt16} {s l : ℕ} (h : IsZeroRun segments (s, l + 1)) :
    IsZeroRun segments (s, l) :=
  fun j hj hj' => h j hj (by simp only at hj' ⊢; omega)

theorem isLongestRun_zeroRunFrom {segments front rest : List UInt16} {longest current : ℕ × ℕ}
    (hsegments : segments = front ++ rest) (hlongest : IsLongestRun segments front.length longest)
    (hinside : longest.1 + longest.2 ≤ front.length)
    (hcurrent : ∀ s l, 0 < l → IsZeroRun segments (s, l) → s + l = front.length →
      0 < current.2 ∧ current.1 ≤ s)
    (hend : current.2 = 0 ∨ current.1 + current.2 = front.length) :
    IsLongestRun segments segments.length (zeroRunFrom front.length longest current rest) := by
  induction rest generalizing front longest current with
  | nil =>
    rw [List.append_nil] at hsegments
    subst hsegments
    exact hlongest
  | cons a rest ih =>
    have hnext : segments = (front ++ [a]) ++ rest := by simp [hsegments]
    have hlength : front.length + 1 = (front ++ [a]).length := by simp
    by_cases hzero : a = 0
    · obtain ⟨start, len, hgrown, hends, hstart⟩ : ∃ start len,
          (if current.2 = 0 then front.length else current.1, current.2 + 1) = (start, len) ∧
          start + len = front.length + 1 ∧ ∀ s l, 0 < l → IsZeroRun segments (s, l) →
            s + l = front.length + 1 → start ≤ s := by
        -- a run that ends here has one zero more than a run that ended before
        have hshorter : ∀ s l, 0 < l → IsZeroRun segments (s, l) → s + l = front.length + 1 →
            s = front.length ∨ (0 < current.2 ∧ current.1 ≤ s) := fun s l hl hrun hsum => by
          obtain ⟨l, rfl⟩ : ∃ m, l = m + 1 := ⟨l - 1, by omega⟩
          rcases Nat.eq_zero_or_pos l with rfl | hl'
          · exact .inl (by omega)
          · exact .inr (hcurrent s l hl' hrun.dropLast (by omega))
        by_cases hnone : current.2 = 0
        · refine ⟨front.length, 1, by simp [hnone], rfl, fun s l hl hrun hsum => ?_⟩
          rcases hshorter s l hl hrun hsum with hs | ⟨hpos, -⟩ <;> omega
        · refine ⟨current.1, current.2 + 1, by simp [hnone], by omega, fun s l hl hrun hsum => ?_⟩
          rcases hshorter s l hl hrun hsum with hs | ⟨-, hs⟩ <;> omega
      have hlen : current.2 + 1 = len := congrArg Prod.snd hgrown
      simp only [zeroRunFrom, if_pos hzero, hgrown]
      rw [hlength]
      refine ih hnext ?_ ?_ ?_ (.inr (by simp only; omega))
      · intro s l hl hrun hsum
        rw [← hlength] at hsum
        rcases Nat.lt_or_ge (s + l) (front.length + 1) with hbefore | hhere
        · have hold := hlongest s l hl hrun (by omega)
          split_ifs
          · simp only
            omega
          · exact hold
        · have hold := hstart s l hl hrun (by omega)
          split_ifs
          · simp only
            omega
          · omega
      · split_ifs
        · exact hends.trans hlength |>.le
        · omega
      · intro s l hl hrun hsum
        have hle := hstart s l hl hrun (by omega)
        exact ⟨by simp only; omega, hle⟩
    · have hhere : ∀ s l, 0 < l → IsZeroRun segments (s, l) → s + l ≠ front.length + 1 := by
        intro s l hl hrun hsum
        have hget := hrun front.length (by simp only; omega) (by simp only; omega)
        simp only [hsegments, List.getElem?_append_right le_rfl, Nat.sub_self,
          List.getElem?_cons_zero, Option.some.injEq] at hget
        exact hzero hget
      simp only [zeroRunFrom, if_neg hzero]
      rw [hlength]
      refine ih hnext ?_ (by omega) ?_ (.inl rfl)
      · intro s l hl hrun hsum
        have hne := hhere s l hl hrun
        exact hlongest s l hl hrun (by omega)
      · intro s l hl hrun hsum
        exact absurd (hsum.trans hlength.symm) (hhere s l hl hrun)

theorem isLongestRun_zeroRun (segments : List UInt16) :
    IsLongestRun segments segments.length (zeroRun segments) := by
  refine isLongestRun_zeroRunFrom (List.nil_append segments).symm ?_ le_rfl ?_ (.inl rfl)
  · intro s l hl hrun hsum
    simp only [List.length_nil] at hsum
    omega
  · intro s l hl hrun hsum
    simp only [List.length_nil] at hsum
    omega

/-- The segments around a run of zeros give the whole address. -/
theorem eq_of_isZeroRun {segments : List UInt16} {start len : ℕ} (h : IsZeroRun segments (start, len))
    (hlen : 0 < len) : start + len ≤ segments.length ∧
      segments = segments.take start ++ List.replicate len 0 ++ segments.drop (start + len) := by
  have hlast : segments[start + len - 1]? = some 0 :=
    h (start + len - 1) (by simp only; omega) (by simp only; omega)
  have hbound := (List.getElem?_eq_some_iff.mp hlast).1
  have hle : start + len ≤ segments.length := by omega
  refine ⟨hle, ?_⟩
  have hmid : (segments.drop start).take len = List.replicate len 0 := by
    refine List.ext_getElem? fun j => ?_
    rw [List.getElem?_replicate, List.getElem?_take, List.getElem?_drop]
    split_ifs with hj
    · exact h (start + j) (by simp only; omega) (by simp only; omega)
    · rfl
  calc segments = segments.take start ++ segments.drop start := (List.take_append_drop _ _).symm
    _ = segments.take start ++ ((segments.drop start).take len ++ (segments.drop start).drop len) := by
      rw [List.take_append_drop len]
    _ = segments.take start ++ List.replicate len 0 ++ segments.drop (start + len) := by
      rw [hmid, List.drop_drop, List.append_assoc]

/-! ## Addresses are read back -/

theorem notMem_joinGroups {gs : List UInt16} {c : Char} (hc : isDigitOf 16 c = false) (hne : c ≠ ':') :
    c ∉ joinGroups gs := by
  cases gs with
  | nil => exact List.not_mem_nil
  | cons g gs =>
    intro hmem
    rcases List.mem_append.mp hmem with hg | hg
    · exact notMem_lowerHex g.toNat_lt hc hg
    · exact notMem_moreGroups hc hne hg

/-- All groups are written out. -/
theorem readIpv6_joinGroups (addr : Ipv6Addr) :
    readIpv6 (joinGroups addr.segments) = some (addr, []) := by
  have hread : readGroups 8 true (joinGroups addr.segments ++ []) = (addr.segments, false, []) :=
    readGroups_joinGroups addr.length_segments.le (.inl rfl) List.not_mem_nil
  rw [List.append_nil] at hread
  simp only [readIpv6, hread, addr.length_segments, dite_true]

/-- A run of zeros is left out. -/
theorem readIpv6_of_zeroRun {addr : Ipv6Addr} {start len : ℕ}
    (hrun : IsZeroRun addr.segments (start, len)) (hlen : 1 < len) :
    readIpv6 (joinGroups (addr.segments.take start) ++
      ':' :: ':' :: joinGroups (addr.segments.drop (start + len))) = some (addr, []) := by
  obtain ⟨hle, hsplit⟩ := eq_of_isZeroRun hrun (by omega)
  have h8 := addr.length_segments
  have hdot : '.' ∉ joinGroups (addr.segments.drop (start + len)) :=
    notMem_joinGroups (by decide) (by decide)
  have htail : (addr.segments.drop (start + len)).length = 8 - (start + len) := by
    rw [List.length_drop, h8]
  have hhead : (addr.segments.take start).length = start := by
    rw [List.length_take, h8]
    omega
  have hcolons : EndsGroups (':' :: ':' :: joinGroups (addr.segments.drop (start + len))) :=
    .inr ⟨_, rfl⟩
  have hreadHead := readGroups_joinGroups (by omega : (addr.segments.take start).length ≤ 8) hcolons
    (by simp [hdot])
  have hreadTail := readGroups_joinGroups
    (by omega : (addr.segments.drop (start + len)).length ≤ 7 - start) (.inl rfl) List.not_mem_nil
  rw [List.append_nil] at hreadTail
  have hzeros : 8 - start - (8 - (start + len)) = len := by omega
  have hne : ¬ start = 8 := by omega
  simp only [readIpv6, hreadHead, hhead, hne, dite_false, Bool.false_eq_true, if_false, hreadTail,
    htail, hzeros, ← hsplit, h8, dite_true]

theorem embedded_toNat (x : UInt16) :
    UInt16.ofNat ((UInt8.ofNat (x.toNat / 256)).toNat * 256 + (UInt8.ofNat (x.toNat % 256)).toNat) = x := by
  have hx := x.toNat_lt
  have hhigh : (UInt8.ofNat (x.toNat / 256)).toNat = x.toNat / 256 := by
    rw [UInt8.toNat_ofNat']
    omega
  have hlow : (UInt8.ofNat (x.toNat % 256)).toNat = x.toNat % 256 := by
    rw [UInt8.toNat_ofNat']
    omega
  rw [hhigh, hlow, Nat.div_add_mod' x.toNat 256, UInt16.ofNat_toNat]

/-- The last two groups are an IPv4 address. -/
theorem readIpv6_embedded (x y : UInt16) {addr : Ipv6Addr}
    (haddr : addr.segments = [0, 0, 0, 0, 0, 0xffff, x, y]) :
    readIpv6 ("::ffff:".toList ++ (embedded x y).display) = some (addr, []) := by
  have htext : "::ffff:".toList ++ (embedded x y).display =
      ':' :: ':' :: (lowerHex 0xffff ++ ':' :: (embedded x y).display) := by
    have hchars : "::ffff:".toList = ':' :: ':' :: (lowerHex 0xffff ++ [':']) := by decide
    rw [hchars]
    simp
  have hhead := readGroups_of_end (.inr ⟨_, rfl⟩ : EndsGroups
    (':' :: ':' :: (lowerHex 0xffff ++ ':' :: (embedded x y).display))) 8 true
  have hipv4 : readSeparator false readIpv4 (':' :: (embedded x y).display) = some (embedded x y, []) := by
    have hread := readIpv4_append (embedded x y) (t := []) nofun
    rw [List.append_nil] at hread
    exact hread
  have hnoIpv4 : readSeparator true readIpv4 (lowerHex 0xffff ++ ':' :: (embedded x y).display) = none := by
    have hoctet : readOctet (lowerHex 0xffff ++ ':' :: (embedded x y).display) = none := by
      have hcons : lowerHex 0xffff ++ ':' :: (embedded x y).display =
          'f' :: ('f' :: 'f' :: 'f' :: ':' :: (embedded x y).display) := rfl
      rw [hcons, readOctet, readNumber_cons_eq_none (by decide), Option.map_none]
    simp only [readSeparator, if_true, readIpv4, hoctet, bind, Option.bind_none]
  have hgroup : readSeparator true readGroup (lowerHex 0xffff ++ ':' :: (embedded x y).display) =
      some (0xffff, ':' :: (embedded x y).display) := by
    have hcolon : Stops 16 (':' :: (embedded x y).display) := stops_cons (by decide) _
    exact readGroup_append 0xffff hcolon
  have htail : readGroups 7 true (lowerHex 0xffff ++ ':' :: (embedded x y).display) =
      ([0xffff, x, y], true, []) := by
    rw [readGroups_succ_of_group hnoIpv4 hgroup, readGroups_succ_of_ipv4 hipv4]
    simp only [embedded, embedded_toNat]
  have hsegments : addr = ⟨[0, 0, 0, 0, 0, 0xffff, x, y], rfl⟩ := by
    cases addr
    simp only [Ipv6Addr.mk.injEq]
    exact haddr
  rw [htext, hsegments]
  simp only [readIpv6, hhead, List.length_nil, Nat.sub_zero, htail]
  rfl

theorem readIpv6_display (addr : Ipv6Addr) : readIpv6 addr.display = some (addr, []) := by
  unfold Ipv6Addr.display
  split_ifs with hmapped
  · obtain ⟨segments, h8⟩ := addr
    match segments, h8 with
    | [s₀, s₁, s₂, s₃, s₄, s₅, x, y], h8 =>
      simp only [List.take_succ_cons, List.take_zero, List.cons.injEq, and_true] at hmapped
      obtain ⟨rfl, rfl, rfl, rfl, rfl, rfl⟩ := hmapped
      exact readIpv6_embedded x y rfl
  · have hrun := isZeroRun_zeroRun addr.segments
    generalize zeroRun addr.segments = run at hrun
    obtain ⟨start, len⟩ := run
    simp only
    split_ifs with hlen
    · exact readIpv6_of_zeroRun hrun hlen
    · exact readIpv6_joinGroups addr

/-- No address of version 6 is printed like one of version 4. -/
theorem readIpv4_display_v6 (addr : Ipv6Addr) : readIpv4 addr.display = none := by
  have hdot : ∀ gs : List UInt16, '.' ∉ joinGroups gs := fun gs =>
    notMem_joinGroups (by decide) (by decide)
  unfold Ipv6Addr.display
  split_ifs with hmapped
  · have hcolons : "::ffff:".toList = ':' :: ":ffff:".toList := by decide
    have hoctet : ∀ t, readOctet (':' :: t) = none := fun t => by
      rw [readOctet, readNumber_cons_eq_none (by decide), Option.map_none]
    rw [hcolons, List.cons_append]
    simp only [readIpv4, hoctet, bind, Option.bind_none]
  · generalize zeroRun addr.segments = run
    obtain ⟨start, len⟩ := run
    simp only
    split_ifs with hlen
    · exact readIpv4_eq_none (by simp [hdot])
    · exact readIpv4_eq_none (hdot _)

/-- The parser reads every printed address back. -/
theorem parseIp_display (addr : IpAddr) : parseIp addr.display = some addr := by
  cases addr with
  | v4 addr =>
    have hread := readIpv4_append addr (t := []) nofun
    rw [List.append_nil] at hread
    simp only [parseIp, IpAddr.display, hread, Option.map_some]
    rfl
  | v6 addr =>
    simp only [parseIp, IpAddr.display, readIpv4_display_v6, readIpv6_display, Option.map_none,
      Option.map_some]
    rfl

theorem IpAddr.display_inj {addr addr' : IpAddr} (h : addr.display = addr'.display) : addr = addr' := by
  have hparse := congrArg parseIp h
  rw [parseIp_display, parseIp_display] at hparse
  exact Option.some.inj hparse

/-! ## The characters of an address -/

/-- The characters that the text of an address can have. -/
def isAddressChar (c : Char) : Bool := isDigitOf 16 c && c.toLower == c || c == '.' || c == ':'

private theorem isAddressChar_digitChar : ∀ d < 16, isAddressChar (Nat.digitChar d) = true := by decide

theorem isAddressChar_of_mem_lowerHex {n : ℕ} (h : n < 65536) {c : Char} (hc : c ∈ lowerHex n) :
    isAddressChar c = true := by
  unfold lowerHex at hc
  split_ifs at hc <;> simp only [List.mem_cons, List.not_mem_nil, or_false] at hc
  · rw [hc]
    exact isAddressChar_digitChar n ‹_›
  · rcases hc with rfl | rfl <;> exact isAddressChar_digitChar _ (by omega)
  · rcases hc with rfl | rfl | rfl <;> exact isAddressChar_digitChar _ (by omega)
  · rcases hc with rfl | rfl | rfl | rfl <;> exact isAddressChar_digitChar _ (by omega)

private theorem isAddressChar_octet : ∀ n < 256, (decimal n).all isAddressChar = true := by
  decide +kernel

theorem isAddressChar_of_mem_ipv4 {addr : Ipv4Addr} {c : Char} (hc : c ∈ addr.display) :
    isAddressChar c = true := by
  have hoctet : ∀ n : UInt8, c ∈ decimal n.toNat → isAddressChar c = true := fun n hn =>
    List.all_eq_true.mp (isAddressChar_octet n.toNat n.toNat_lt) c hn
  simp only [Ipv4Addr.display, List.mem_append, List.mem_cons] at hc
  rcases hc with hc | rfl | hc | rfl | hc | rfl | hc
  · exact hoctet _ hc
  · decide
  · exact hoctet _ hc
  · decide
  · exact hoctet _ hc
  · decide
  · exact hoctet _ hc

theorem isAddressChar_of_mem_joinGroups {gs : List UInt16} {c : Char} (hc : c ∈ joinGroups gs) :
    isAddressChar c = true := by
  cases gs with
  | nil => cases hc
  | cons g gs =>
    rcases List.mem_append.mp hc with hc | hc
    · exact isAddressChar_of_mem_lowerHex g.toNat_lt hc
    · obtain ⟨g', -, hg'⟩ := List.mem_flatMap.mp hc
      rcases List.mem_cons.mp hg' with rfl | hg'
      · decide
      · exact isAddressChar_of_mem_lowerHex g'.toNat_lt hg'

theorem isAddressChar_of_mem_display {addr : IpAddr} {c : Char} (hc : c ∈ addr.display) :
    isAddressChar c = true := by
  cases addr with
  | v4 addr => exact isAddressChar_of_mem_ipv4 hc
  | v6 addr =>
    have hcolons : "::ffff:".toList.all isAddressChar = true := by decide
    simp only [IpAddr.display, Ipv6Addr.display] at hc
    split_ifs at hc
    · rcases List.mem_append.mp hc with hc | hc
      · exact List.all_eq_true.mp hcolons c hc
      · exact isAddressChar_of_mem_ipv4 hc
    · rcases List.mem_append.mp hc with hc | hc
      · exact isAddressChar_of_mem_joinGroups hc
      · simp only [List.mem_cons] at hc
        rcases hc with rfl | rfl | hc
        · decide
        · decide
        · exact isAddressChar_of_mem_joinGroups hc
    · exact isAddressChar_of_mem_joinGroups hc

/-- The text of an address is in lower case. -/
theorem map_toLower_display (addr : IpAddr) : addr.display.map Char.toLower = addr.display := by
  refine (List.map_congr_left fun c hc => ?_).trans (List.map_id _)
  have hchar := isAddressChar_of_mem_display hc
  simp only [isAddressChar, Bool.or_eq_true, Bool.and_eq_true, beq_iff_eq] at hchar
  rcases hchar with (⟨-, hlower⟩ | rfl) | rfl
  · exact hlower
  · decide
  · decide

end HathRs.IpAddresses
