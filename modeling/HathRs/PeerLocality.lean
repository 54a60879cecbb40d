import HathRs.ClientSettings
import HathRs.FloodControl
import HathRs.SignedIntegers

/-!
# Which peers are local

The address of a peer decides whether it is exempt from the connection limit, flood control,
throttling and the traffic statistics. The server matches the printed address against the start
of a regular expression. For IPv4 this gives the intended networks. For IPv6 the printed form
drops leading zeros and runs of zeros, so the pattern also takes in addresses outside them.
-/

namespace HathRs.PeerLocality
open TextParsing IpAddresses ClientSettings FloodControl SignedIntegers

/-! ## The decision -/

/-- One alternative of a regular expression: a class of characters, from one to another, for each
character of the text. -/
abbrev Pattern := List (Char × Char)

def literal (t : Text) : Pattern := t.map fun c => (c, c)

/-- The expression is anchored at the start of the text and not at its end. -/
def startsWith : Pattern → Text → Bool
  | [], _ => true
  | _ :: _, [] => false
  | (lo, hi) :: p, c :: t => decide (lo ≤ c ∧ c ≤ hi) && startsWith p t

def isMatch (alternatives : List Pattern) (t : Text) : Bool :=
  alternatives.any fun p => startsWith p t

def localNetworkRe : List Pattern :=
  [literal "localhost".toList, literal "127.".toList, literal "10.".toList,
    literal "192.168.".toList,
    literal "172.1".toList ++ ('6', '9') :: literal ".".toList,
    literal "172.2".toList ++ ('0', '9') :: literal ".".toList,
    literal "172.3".toList ++ ('0', '1') :: literal ".".toList,
    literal "169.254.".toList, literal "::1".toList, literal "0:0:0:0:0:0:0:1".toList,
    literal "fc".toList, literal "fd".toList]

structure SessionOrigin where
  peerIp : IpAddr
  isLocal : Bool

namespace SessionOrigin

def fromRemoteAddr (remoteAddr : IpAddr) (clientHost : Text) : SessionOrigin :=
  let peerIp := normalizeIp remoteAddr
  let hostAddr := peerIp.display.map Char.toLower
  ⟨peerIp, isMatch localNetworkRe hostAddr || clientHost == hostAddr⟩

def admissionClass (origin : SessionOrigin) (rpcAuthorized : Bool) : AdmissionClass :=
  FloodControl.admissionClass origin.isLocal rpcAuthorized

/-- The monitor that throttles the responses to the peer. -/
def bwmForRequest {β : Type} (origin : SessionOrigin) (bandwidthMonitor : Option β) : Option β :=
  if origin.isLocal then none else bandwidthMonitor

/-- The statistics in which the traffic of the peer is counted. -/
def trafficStats {β : Type} (origin : SessionOrigin) (stats : β) : Option β :=
  if origin.isLocal then none else some stats

end SessionOrigin

/-- The `host` setting. -/
def clientHost (value : Text) : Text :=
  match parseIp value with
  | some ip => (normalizeIp ip).display
  | none => value

/-! ## The intended networks -/

def bitsV4 (addr : Ipv4Addr) : ℕ :=
  ((addr.a.toNat * 256 + addr.b.toNat) * 256 + addr.c.toNat) * 256 + addr.d.toNat

def bitsV6 (addr : Ipv6Addr) : ℕ := addr.segments.foldl (fun n s => n * 65536 + s.toNat) 0

/-- The address has the first `len` bits of the network. -/
def InNetworkV4 (addr network : Ipv4Addr) (len : ℕ) : Prop :=
  bitsV4 addr / 2 ^ (32 - len) = bitsV4 network / 2 ^ (32 - len)

def InNetworkV6 (addr network : Ipv6Addr) (len : ℕ) : Prop :=
  bitsV6 addr / 2 ^ (128 - len) = bitsV6 network / 2 ^ (128 - len)

def loopbackV6 : Ipv6Addr := ⟨[0, 0, 0, 0, 0, 0, 0, 1], rfl⟩

def uniqueLocal : Ipv6Addr := ⟨[0xfc00, 0, 0, 0, 0, 0, 0, 0], rfl⟩

/-- Loopback, private and link-local addresses. -/
def IsLocalAddress : IpAddr → Prop
  | .v4 addr => InNetworkV4 addr ⟨127, 0, 0, 0⟩ 8 ∨ InNetworkV4 addr ⟨10, 0, 0, 0⟩ 8 ∨
      InNetworkV4 addr ⟨192, 168, 0, 0⟩ 16 ∨ InNetworkV4 addr ⟨172, 16, 0, 0⟩ 12 ∨
      InNetworkV4 addr ⟨169, 254, 0, 0⟩ 16
  | .v6 addr => addr = loopbackV6 ∨ InNetworkV6 addr uniqueLocal 7

def IsLocalPeer (remoteAddr : IpAddr) (clientHost : Text) : Prop :=
  IsLocalAddress (normalizeIp remoteAddr) ∨ (normalizeIp remoteAddr).display = clientHost

/-- A first group that is shorter than four digits and starts like `fc00` or `fd00`. -/
def ShortPrefix (g : UInt16) : Prop :=
  g.toNat = 0xfc ∨ g.toNat = 0xfd ∨ 0xfc0 ≤ g.toNat ∧ g.toNat ≤ 0xfdf

/-- The first hexadecimal digit of the group is a one. -/
def LeadingOne (g : UInt16) : Prop :=
  g.toNat = 1 ∨ 0x10 ≤ g.toNat ∧ g.toNat ≤ 0x1f ∨ 0x100 ≤ g.toNat ∧ g.toNat ≤ 0x1ff ∨
    0x1000 ≤ g.toNat ∧ g.toNat ≤ 0x1fff

/-- Addresses outside the networks that are printed like one of them: with a short first group, or
with the zeros at the front left out and a one behind them. -/
def Misread : IpAddr → Prop
  | .v4 _ => False
  | .v6 addr => (∃ g, addr.segments[0]? = some g ∧ ShortPrefix g) ∨
      addr ≠ loopbackV6 ∧ ∃ k g, 2 ≤ k ∧ IsZeroRun addr.segments (0, k) ∧
        (∀ s l, IsZeroRun addr.segments (s, l) → l ≤ k) ∧ addr.segments[k]? = some g ∧ LeadingOne g

/-! ## Patterns and separators -/

/-- The pattern and the text have the same length and match. -/
def fullMatch : Pattern → Text → Bool
  | [], [] => true
  | (lo, hi) :: p, c :: t => decide (lo ≤ c ∧ c ≤ hi) && fullMatch p t
  | _, _ => false

theorem literal_class (a c : Char) : decide (a ≤ c ∧ c ≤ a) = decide (c = a) := by
  refine decide_eq_decide.mpr ⟨fun h => le_antisymm h.2 h.1, ?_⟩
  rintro rfl
  exact ⟨le_rfl, le_rfl⟩

/-- A separator that no class of the pattern has ends a part of both. -/
theorem startsWith_append_separator {sep : Char} {p : Pattern} {x : Text}
    (hp : ∀ r ∈ p, ¬ (r.1 ≤ sep ∧ sep ≤ r.2)) (hx : sep ∉ x) (q : Pattern) (t : Text) :
    startsWith (p ++ (sep, sep) :: q) (x ++ sep :: t) = (fullMatch p x && startsWith q t) := by
  induction p generalizing x with
  | nil =>
    cases x with
    | nil => simp [startsWith, fullMatch]
    | cons c x =>
      have hc : c ≠ sep := fun h => hx (h ▸ List.mem_cons_self)
      simp only [List.nil_append, List.cons_append, startsWith, literal_class, hc, decide_false,
        Bool.false_and, fullMatch]
  | cons r p ih =>
    cases x with
    | nil =>
      have hr : ¬ (r.1 ≤ sep ∧ sep ≤ r.2) := hp r List.mem_cons_self
      simp only [List.cons_append, List.nil_append, startsWith, fullMatch, hr, decide_false,
        Bool.false_and]
    | cons c x =>
      have hrest := ih (fun r' hr' => hp r' (List.mem_cons_of_mem _ hr'))
        (fun h => hx (List.mem_cons_of_mem _ h))
      simp only [List.cons_append, startsWith, fullMatch, hrest, Bool.and_assoc]

theorem fullMatch_literal (w x : Text) : fullMatch (literal w) x = decide (x = w) := by
  induction w generalizing x with
  | nil => cases x <;> simp [literal, fullMatch]
  | cons a w ih =>
    cases x with
    | nil => simp [literal, fullMatch]
    | cons c x =>
      have hrest := ih x
      simp only [literal, List.map_cons, fullMatch, literal_class] at hrest ⊢
      rw [hrest, ← Bool.decide_and]
      simp only [List.cons.injEq]

/-- A character that the pattern names is in every text that matches. -/
theorem mem_of_startsWith {p : Pattern} {t : Text} {c : Char} (h : startsWith p t = true)
    (hc : (c, c) ∈ p) : c ∈ t := by
  induction p generalizing t with
  | nil => cases hc
  | cons r p ih =>
    cases t with
    | nil => cases h
    | cons d t =>
      simp only [startsWith, Bool.and_eq_true, decide_eq_true_eq] at h
      rcases List.mem_cons.mp hc with rfl | hc
      · exact List.mem_cons.mpr (.inl (le_antisymm h.1.1 h.1.2))
      · exact List.mem_cons_of_mem _ (ih h.2 hc)

/-! ## IPv4 -/

private theorem fullMatch_teens : ∀ n < 256,
    fullMatch [('1', '1'), ('6', '9')] (decimal n) = decide (16 ≤ n ∧ n ≤ 19) ∧
    fullMatch [('2', '2'), ('0', '9')] (decimal n) = decide (20 ≤ n ∧ n ≤ 29) ∧
    fullMatch [('3', '3'), ('0', '1')] (decimal n) = decide (30 ≤ n ∧ n ≤ 31) := by
  decide +kernel

theorem fullMatch_decimal (m n : ℕ) :
    fullMatch (literal (decimal m)) (decimal n) = decide (n = m) := by
  rw [fullMatch_literal]
  refine decide_eq_decide.mpr ⟨decimal_inj, ?_⟩
  rintro rfl
  rfl

theorem dot_notMem_decimal (n : ℕ) : '.' ∉ decimal n := fun h => ne_of_mem_decimal h (by decide) rfl

theorem dot_notClass_decimal (n : ℕ) : ∀ r ∈ literal (decimal n), ¬ (r.1 ≤ '.' ∧ '.' ≤ r.2) := by
  intro r hr h
  obtain ⟨c, hc, rfl⟩ := List.mem_map.mp hr
  exact ne_of_mem_decimal hc (by decide) (le_antisymm h.1 h.2)

theorem startsWith_octet (addr : Ipv4Addr) (m : ℕ) (q : Pattern) :
    startsWith (literal (decimal m) ++ ('.', '.') :: q) addr.display =
      (decide (addr.a.toNat = m) && startsWith q (decimal addr.b.toNat ++ '.' ::
        (decimal addr.c.toNat ++ '.' :: decimal addr.d.toNat))) := by
  rw [Ipv4Addr.display, startsWith_append_separator (dot_notClass_decimal m) (dot_notMem_decimal _),
    fullMatch_decimal]

theorem startsWith_secondOctet (addr : Ipv4Addr) (m : ℕ) {p : Pattern}
    (hp : ∀ r ∈ p, ¬ (r.1 ≤ '.' ∧ '.' ≤ r.2)) :
    startsWith (literal (decimal m) ++ ('.', '.') :: (p ++ [('.', '.')])) addr.display =
      (decide (addr.a.toNat = m) && fullMatch p (decimal addr.b.toNat)) := by
  rw [startsWith_octet, startsWith_append_separator hp (dot_notMem_decimal _), startsWith,
    Bool.and_true]

theorem mem_displayV4 {addr : Ipv4Addr} {c : Char} (h : c ∈ addr.display) :
    c.isDigit = true ∨ c = '.' := by
  simp only [Ipv4Addr.display, List.mem_append, List.mem_cons] at h
  rcases h with h | rfl | h | rfl | h | rfl | h
  · exact .inl (isDigit_of_mem_decimal h)
  · exact .inr rfl
  · exact .inl (isDigit_of_mem_decimal h)
  · exact .inr rfl
  · exact .inl (isDigit_of_mem_decimal h)
  · exact .inr rfl
  · exact .inl (isDigit_of_mem_decimal h)

/-- The alternatives that name a letter or a colon never match an IPv4 address. -/
theorem startsWith_displayV4 (addr : Ipv4Addr) {p : Pattern} {c : Char} (hc : (c, c) ∈ p)
    (hdigit : c.isDigit = false) (hdot : c ≠ '.') : startsWith p addr.display = false := by
  by_contra h
  rcases mem_displayV4 (mem_of_startsWith (by simpa using h) hc) with hc' | hc'
  · rw [hdigit] at hc'
    cases hc'
  · exact hdot hc'

/-- The three alternatives for 172.16.0.0/12 differ in two characters. -/
theorem startsWith_172 (addr : Ipv4Addr) {w : Text} {a lo hi : Char}
    (hw : w = "172.".toList ++ [a]) (ha : ¬ (a ≤ '.' ∧ '.' ≤ a)) (hclass : ¬ (lo ≤ '.' ∧ '.' ≤ hi)) :
    startsWith (literal w ++ (lo, hi) :: literal ".".toList) addr.display =
      (decide (addr.a.toNat = 172) && fullMatch [(a, a), (lo, hi)] (decimal addr.b.toNat)) := by
  have hpattern : literal w ++ (lo, hi) :: literal ".".toList =
      literal (decimal 172) ++ ('.', '.') :: ([(a, a), (lo, hi)] ++ [('.', '.')]) := by
    have hdigits : decimal 172 = "172".toList := by decide
    rw [hdigits, hw]
    rfl
  rw [hpattern, startsWith_secondOctet]
  simp only [List.forall_mem_cons, List.not_mem_nil, false_implies, implies_true, and_true]
  exact ⟨ha, hclass⟩

theorem isMatch_displayV4 (addr : Ipv4Addr) : isMatch localNetworkRe addr.display = true ↔
    addr.a.toNat = 127 ∨ addr.a.toNat = 10 ∨ addr.a.toNat = 192 ∧ addr.b.toNat = 168 ∨
      addr.a.toNat = 172 ∧ 16 ≤ addr.b.toNat ∧ addr.b.toNat ≤ 31 ∨
      addr.a.toNat = 169 ∧ addr.b.toNat = 254 := by
  have hother : ∀ {p : Pattern} (c : Char), (c, c) ∈ p → c.isDigit = false → c ≠ '.' →
      startsWith p addr.display = false := fun _ => startsWith_displayV4 addr
  have hfirst : ∀ m, startsWith (literal (decimal m) ++ [('.', '.')]) addr.display =
      decide (addr.a.toNat = m) := fun m => by rw [startsWith_octet, startsWith, Bool.and_true]
  have hsecond : ∀ m n, startsWith (literal (decimal m) ++ ('.', '.') :: (literal (decimal n) ++
      [('.', '.')])) addr.display = (decide (addr.a.toNat = m) && decide (addr.b.toNat = n)) :=
    fun m n => by rw [startsWith_secondOctet _ _ (dot_notClass_decimal n), fullMatch_decimal]
  have h127 : literal "127.".toList = literal (decimal 127) ++ [('.', '.')] := by decide
  have h10 : literal "10.".toList = literal (decimal 10) ++ [('.', '.')] := by decide
  have h192 : literal "192.168.".toList =
      literal (decimal 192) ++ ('.', '.') :: (literal (decimal 168) ++ [('.', '.')]) := by decide
  have h169 : literal "169.254.".toList =
      literal (decimal 169) ++ ('.', '.') :: (literal (decimal 254) ++ [('.', '.')]) := by decide
  obtain ⟨hteens, htwenties, hthirties⟩ := fullMatch_teens addr.b.toNat addr.b.toNat_lt
  have h1 : startsWith (literal "172.1".toList ++ ('6', '9') :: literal ".".toList) addr.display =
      (decide (addr.a.toNat = 172) && decide (16 ≤ addr.b.toNat ∧ addr.b.toNat ≤ 19)) := by
    rw [← hteens]
    exact startsWith_172 addr (by decide) (by decide) (by decide)
  have h2 : startsWith (literal "172.2".toList ++ ('0', '9') :: literal ".".toList) addr.display =
      (decide (addr.a.toNat = 172) && decide (20 ≤ addr.b.toNat ∧ addr.b.toNat ≤ 29)) := by
    rw [← htwenties]
    exact startsWith_172 addr (by decide) (by decide) (by decide)
  have h3 : startsWith (literal "172.3".toList ++ ('0', '1') :: literal ".".toList) addr.display =
      (decide (addr.a.toNat = 172) && decide (30 ≤ addr.b.toNat ∧ addr.b.toNat ≤ 31)) := by
    rw [← hthirties]
    exact startsWith_172 addr (by decide) (by decide) (by decide)
  simp only [isMatch, localNetworkRe, List.any_cons, List.any_nil, Bool.or_false, Bool.or_eq_true,
    hother 'l' (p := literal "localhost".toList) (by decide) (by decide) (by decide),
    hother ':' (p := literal "::1".toList) (by decide) (by decide) (by decide),
    hother ':' (p := literal "0:0:0:0:0:0:0:1".toList) (by decide) (by decide) (by decide),
    hother 'f' (p := literal "fc".toList) (by decide) (by decide) (by decide),
    hother 'f' (p := literal "fd".toList) (by decide) (by decide) (by decide),
    h127, h10, h192, h169, hfirst, hsecond, h1, h2, h3, Bool.and_eq_true, decide_eq_true_eq,
    Bool.false_eq_true, false_or]
  omega

theorem isLocalAddress_v4 (addr : Ipv4Addr) : IsLocalAddress (.v4 addr) ↔
    addr.a.toNat = 127 ∨ addr.a.toNat = 10 ∨ addr.a.toNat = 192 ∧ addr.b.toNat = 168 ∨
      addr.a.toNat = 172 ∧ 16 ≤ addr.b.toNat ∧ addr.b.toNat ≤ 31 ∨
      addr.a.toNat = 169 ∧ addr.b.toNat = 254 := by
  have hb := addr.b.toNat_lt
  have hc := addr.c.toNat_lt
  have hd := addr.d.toNat_lt
  have h8 : bitsV4 addr / 2 ^ (32 - 8) = addr.a.toNat := by
    simp only [bitsV4]
    omega
  have h16 : bitsV4 addr / 2 ^ (32 - 16) = addr.a.toNat * 256 + addr.b.toNat := by
    simp only [bitsV4]
    omega
  have h12 : bitsV4 addr / 2 ^ (32 - 12) = addr.a.toNat * 16 + addr.b.toNat / 16 := by
    simp only [bitsV4]
    omega
  have hnets : bitsV4 ⟨127, 0, 0, 0⟩ / 2 ^ (32 - 8) = 127 ∧ bitsV4 ⟨10, 0, 0, 0⟩ / 2 ^ (32 - 8) = 10 ∧
      bitsV4 ⟨192, 168, 0, 0⟩ / 2 ^ (32 - 16) = 192 * 256 + 168 ∧
      bitsV4 ⟨172, 16, 0, 0⟩ / 2 ^ (32 - 12) = 172 * 16 + 1 ∧
      bitsV4 ⟨169, 254, 0, 0⟩ / 2 ^ (32 - 16) = 169 * 256 + 254 := by decide
  obtain ⟨h127, h10, h192, h172, h169⟩ := hnets
  simp only [IsLocalAddress, InNetworkV4, h8, h16, h12, h127, h10, h192, h172, h169]
  omega

/-! ## Groups of an IPv6 address -/

private theorem digitChar_iff : ∀ d < 16, (Nat.digitChar d = '0' ↔ d = 0) ∧
    (Nat.digitChar d = '1' ↔ d = 1) ∧ (Nat.digitChar d = 'c' ↔ d = 12) ∧
    (Nat.digitChar d = 'd' ↔ d = 13) ∧ (Nat.digitChar d = 'f' ↔ d = 15) := by
  decide

theorem startsWith_one_lowerHex {n : ℕ} (hn : n < 65536) (u : Text) :
    startsWith (literal "1".toList) (lowerHex n ++ u) = true ↔
      n = 1 ∨ 0x10 ≤ n ∧ n ≤ 0x1f ∨ 0x100 ≤ n ∧ n ≤ 0x1ff ∨ 0x1000 ≤ n ∧ n ≤ 0x1fff := by
  have hone : ∀ d < 16, Nat.digitChar d = '1' ↔ d = 1 := fun d hd => (digitChar_iff d hd).2.1
  have hpattern : literal "1".toList = [('1', '1')] := by decide
  rw [hpattern]
  unfold lowerHex
  split_ifs with h1 h2 h3
  all_goals
    simp only [List.cons_append, startsWith, literal_class, Bool.and_true, decide_eq_true_eq]
  · rw [hone _ h1]
    omega
  · rw [hone _ (by omega)]
    omega
  · rw [hone _ (by omega)]
    omega
  · rw [hone _ (by omega)]
    omega

/-- The first group has four digits in the intended network. -/
theorem startsWith_f_lowerHex {n : ℕ} (hn : n < 65536) {u : Text} (hu : Stops 16 u) :
    startsWith (literal "fc".toList) (lowerHex n ++ u) = true ∨
        startsWith (literal "fd".toList) (lowerHex n ++ u) = true ↔
      0xfc00 ≤ n ∧ n ≤ 0xfdff ∨ n = 0xfc ∨ n = 0xfd ∨ 0xfc0 ≤ n ∧ n ≤ 0xfdf := by
  have hc : ∀ d < 16, Nat.digitChar d = 'c' ↔ d = 12 := fun d hd => (digitChar_iff d hd).2.2.1
  have hd : ∀ d < 16, Nat.digitChar d = 'd' ↔ d = 13 := fun d hd => (digitChar_iff d hd).2.2.2.1
  have hf : ∀ d < 16, Nat.digitChar d = 'f' ↔ d = 15 := fun d hd => (digitChar_iff d hd).2.2.2.2
  have hfc : literal "fc".toList = [('f', 'f'), ('c', 'c')] := by decide
  have hfd : literal "fd".toList = [('f', 'f'), ('d', 'd')] := by decide
  rw [hfc, hfd]
  unfold lowerHex
  split_ifs with h1 h2 h3
  · -- the second character is not a digit
    have hsecond : ∀ x : Char, isDigitOf 16 x = true →
        startsWith [('f', 'f'), (x, x)] ([Nat.digitChar n] ++ u) = false := by
      intro x hx
      cases u with
      | nil => simp [startsWith]
      | cons c u =>
        have hne : c ≠ x := by
          rintro rfl
          rw [hu c rfl] at hx
          cases hx
        simp only [List.cons_append, List.nil_append, startsWith, literal_class, hne, decide_false,
          Bool.false_and, Bool.and_false]
    rw [hsecond 'c' (by decide), hsecond 'd' (by decide)]
    simp only [Bool.false_eq_true, or_self, false_iff]
    omega
  all_goals
    simp only [List.cons_append, startsWith, literal_class, Bool.and_true, Bool.and_eq_true,
      decide_eq_true_eq]
  · rw [hf _ (by omega), hc _ (by omega), hd _ (by omega)]
    omega
  · rw [hf _ (by omega), hc _ (by omega), hd _ (by omega)]
    omega
  · rw [hf _ (by omega), hc _ (by omega), hd _ (by omega)]
    omega

theorem lowerHex_eq_zero {n : ℕ} (hn : n < 65536) : lowerHex n = ['0'] ↔ n = 0 := by
  constructor
  · intro h
    have hvalue := (lowerHex_spec hn).2.2.2
    rw [h] at hvalue
    exact hvalue.symm.trans (by decide)
  · rintro rfl
    rfl

/-! ## The loopback address written out -/

/-- So many zero groups and a one. -/
def zeroPattern : ℕ → Pattern
  | 0 => [('1', '1')]
  | n + 1 => [('0', '0')] ++ (':', ':') :: zeroPattern n

theorem startsWith_zeroPattern_group (n : ℕ) (g : UInt16) (t : Text) :
    startsWith (zeroPattern (n + 1)) (lowerHex g.toNat ++ ':' :: t) = true ↔
      g = 0 ∧ startsWith (zeroPattern n) t = true := by
  have hcolon : ':' ∉ lowerHex g.toNat := notMem_lowerHex g.toNat_lt (by decide)
  have hzero : [('0', '0')] = literal ['0'] := rfl
  rw [zeroPattern, startsWith_append_separator (by decide) hcolon, hzero, fullMatch_literal,
    Bool.and_eq_true, decide_eq_true_eq, lowerHex_eq_zero g.toNat_lt]
  exact and_congr_left fun _ => UInt16.toNat_inj (b := 0)

theorem startsWith_zeroPattern_colon (n : ℕ) (t : Text) :
    startsWith (zeroPattern n) (':' :: t) = false := by
  cases n <;> rfl

/-- Where a run of zeros is left out, the pattern stops at the second colon. -/
theorem startsWith_zeroPattern_compressed {gs : List UInt16} {n : ℕ} (h : gs.length ≤ n) (t : Text) :
    startsWith (zeroPattern n) (joinGroups gs ++ ':' :: ':' :: t) = false := by
  induction gs generalizing n with
  | nil => exact startsWith_zeroPattern_colon n _
  | cons g gs ih =>
    obtain ⟨n, rfl⟩ : ∃ m, n = m + 1 := ⟨n - 1, by simp at h; omega⟩
    cases gs with
    | nil =>
      have htext : joinGroups [g] ++ ':' :: ':' :: t = lowerHex g.toNat ++ ':' :: (':' :: t) := by
        simp [joinGroups, moreGroups]
      rw [htext, Bool.eq_false_iff]
      intro hmatch
      have hrest := ((startsWith_zeroPattern_group n g _).mp hmatch).2
      rw [startsWith_zeroPattern_colon] at hrest
      cases hrest
    | cons g' gs =>
      have htext : joinGroups (g :: g' :: gs) ++ ':' :: ':' :: t =
          lowerHex g.toNat ++ ':' :: (joinGroups (g' :: gs) ++ ':' :: ':' :: t) := by
        simp [joinGroups, moreGroups]
      rw [htext, Bool.eq_false_iff]
      intro hmatch
      have hrest := ((startsWith_zeroPattern_group n g _).mp hmatch).2
      rw [ih (Nat.le_of_succ_le_succ h)] at hrest
      cases hrest

/-! ## IPv6 -/

/-- The address is not an IPv4 address in the groups of an IPv6 address. -/
def Unmapped (addr : Ipv6Addr) : Prop := addr.segments.take 6 ≠ [0, 0, 0, 0, 0, 0xffff]

theorem notMem_displayV6 {addr : Ipv6Addr} (hunmapped : Unmapped addr) {c : Char}
    (hc : isDigitOf 16 c = false) (hne : c ≠ ':') : c ∉ addr.display := by
  have hgroups : ∀ gs : List UInt16, c ∉ joinGroups gs := fun gs => notMem_joinGroups hc hne
  simp only [Ipv6Addr.display, if_neg hunmapped]
  split_ifs
  · simp [hgroups, hne]
  · exact hgroups _

/-- Without a dot and without an `l` four alternatives are left. -/
theorem isMatch_of_notMem {t : Text} (hdot : '.' ∉ t) (hl : 'l' ∉ t) :
    isMatch localNetworkRe t = true ↔ startsWith (literal "::1".toList) t = true ∨
      startsWith (zeroPattern 7) t = true ∨ startsWith (literal "fc".toList) t = true ∨
      startsWith (literal "fd".toList) t = true := by
  have hother : ∀ {p : Pattern} (c : Char), c ∉ t → (c, c) ∈ p → startsWith p t = false :=
    fun c hc hmem => Bool.eq_false_iff.mpr fun h => hc (mem_of_startsWith h hmem)
  have hzeros : literal "0:0:0:0:0:0:0:1".toList = zeroPattern 7 := by decide
  simp only [isMatch, localNetworkRe, List.any_cons, List.any_nil, Bool.or_false, Bool.or_eq_true,
    hother 'l' (p := literal "localhost".toList) hl (by decide),
    hother '.' (p := literal "127.".toList) hdot (by decide),
    hother '.' (p := literal "10.".toList) hdot (by decide),
    hother '.' (p := literal "192.168.".toList) hdot (by decide),
    hother '.' (p := literal "172.1".toList ++ ('6', '9') :: literal ".".toList) hdot (by decide),
    hother '.' (p := literal "172.2".toList ++ ('0', '9') :: literal ".".toList) hdot (by decide),
    hother '.' (p := literal "172.3".toList ++ ('0', '1') :: literal ".".toList) hdot (by decide),
    hother '.' (p := literal "169.254.".toList) hdot (by decide), hzeros, Bool.false_eq_true, false_or]

/-- Groups that are all printed match only with two zeros at the front. -/
theorem isZeroRun_of_startsWith {gs : List UInt16} (h8 : gs.length = 8)
    (h : startsWith (zeroPattern 7) (joinGroups gs) = true) : IsZeroRun gs (0, 2) := by
  match gs, h8 with
  | g :: g' :: g'' :: gs, _ =>
    have htext : joinGroups (g :: g' :: g'' :: gs) = lowerHex g.toNat ++ ':' ::
        (lowerHex g'.toNat ++ ':' :: joinGroups (g'' :: gs)) := by
      simp [joinGroups, moreGroups]
    rw [htext] at h
    obtain ⟨rfl, hrest⟩ := (startsWith_zeroPattern_group 6 g _).mp h
    obtain ⟨rfl, -⟩ := (startsWith_zeroPattern_group 5 g' _).mp hrest
    intro j hj hj'
    simp only at hj hj'
    obtain rfl | rfl : j = 0 ∨ j = 1 := by omega
    · rfl
    · rfl

/-- The printed address starts with the zeros that are left out, or with its first group. -/
theorem displayV6_cases {addr : Ipv6Addr} (hunmapped : Unmapped addr) :
    (∃ k, zeroRun addr.segments = (0, k) ∧ 2 ≤ k ∧
      addr.display = ':' :: ':' :: joinGroups (addr.segments.drop k)) ∨
    ((zeroRun addr.segments).2 < 2 ∨ (zeroRun addr.segments).1 ≠ 0) ∧
      startsWith (zeroPattern 7) addr.display = false ∧
      ∃ g u, addr.segments[0]? = some g ∧ addr.display = lowerHex g.toNat ++ u ∧ Stops 16 u := by
  have h8 := addr.length_segments
  have hrun := isZeroRun_zeroRun addr.segments
  have hlongest := isLongestRun_zeroRun addr.segments
  obtain ⟨g, gs, hsegments⟩ : ∃ g gs, addr.segments = g :: gs := by
    cases hsegments : addr.segments with
    | nil => rw [hsegments] at h8; cases h8
    | cons g gs => exact ⟨g, gs, rfl⟩
  have hdisplay : addr.display = if 1 < (zeroRun addr.segments).2 then
      joinGroups (addr.segments.take (zeroRun addr.segments).1) ++ ':' :: ':' ::
        joinGroups (addr.segments.drop ((zeroRun addr.segments).1 + (zeroRun addr.segments).2))
      else joinGroups addr.segments := by
    simp only [Ipv6Addr.display, if_neg hunmapped]
  generalize zeroRun addr.segments = run at hrun hlongest hdisplay ⊢
  obtain ⟨start, len⟩ := run
  simp only at hdisplay
  split_ifs at hdisplay with hlen
  · rcases Nat.eq_zero_or_pos start with rfl | hstart
    · refine .inl ⟨len, rfl, hlen, ?_⟩
      simpa [joinGroups] using hdisplay
    · refine .inr ⟨.inr (by simp only; omega), ?_, ?_⟩
      · have hend := (eq_of_isZeroRun hrun (by omega)).1
        rw [hdisplay]
        refine startsWith_zeroPattern_compressed ?_ _
        rw [List.length_take]
        omega
      · obtain ⟨start, rfl⟩ : ∃ m, start = m + 1 := ⟨start - 1, by omega⟩
        refine ⟨g, moreGroups (gs.take start) ++ ':' :: ':' ::
          joinGroups (addr.segments.drop (start + 1 + len)), by simp [hsegments], ?_,
          stops_moreGroups_append (gs.take start) (.inr ⟨_, rfl⟩)⟩
        rw [hdisplay, hsegments, List.take_succ_cons, joinGroups, List.append_assoc]
  · refine .inr ⟨.inl (by simp only; omega), ?_, ?_⟩
    · rw [hdisplay, Bool.eq_false_iff]
      intro hmatch
      have hzeros := isZeroRun_of_startsWith h8 hmatch
      have hle := hlongest 0 2 (by omega) hzeros (by omega)
      simp only at hle
      omega
    · refine ⟨g, moreGroups gs, by simp [hsegments], by rw [hdisplay, hsegments, joinGroups], ?_⟩
      simpa using stops_moreGroups_append gs (.inl rfl)

theorem startsWith_joinGroups_one {gs : List UInt16} :
    startsWith (literal "1".toList) (joinGroups gs) = true ↔ ∃ g, gs[0]? = some g ∧ LeadingOne g := by
  cases gs with
  | nil => exact ⟨nofun, fun ⟨g, hg, _⟩ => nomatch hg⟩
  | cons g gs =>
    simp only [joinGroups, startsWith_one_lowerHex g.toNat_lt, List.getElem?_cons_zero,
      Option.some.injEq, exists_eq_left', LeadingOne]

/-- The exact set of IPv6 addresses that the expression matches. -/
theorem isMatch_displayV6 {addr : Ipv6Addr} (hunmapped : Unmapped addr) :
    isMatch localNetworkRe addr.display = true ↔
      (∃ g, addr.segments[0]? = some g ∧ (0xfc00 ≤ g.toNat ∧ g.toNat ≤ 0xfdff ∨ ShortPrefix g)) ∨
      ∃ k g, zeroRun addr.segments = (0, k) ∧ 2 ≤ k ∧ addr.segments[k]? = some g ∧ LeadingOne g := by
  rw [isMatch_of_notMem (notMem_displayV6 hunmapped (by decide) (by decide))
    (notMem_displayV6 hunmapped (by decide) (by decide))]
  have hpattern : literal "::1".toList = (':', ':') :: (':', ':') :: literal "1".toList := by decide
  rcases displayV6_cases hunmapped with ⟨k, hrun, hk, hdisplay⟩ | ⟨hrun, hzeros, g, u, hg, hdisplay, hu⟩
  · -- the first group is a zero and not printed
    have hzero : addr.segments[0]? = some 0 := by
      have hzeros := isZeroRun_zeroRun addr.segments
      rw [hrun] at hzeros
      exact hzeros 0 le_rfl (by simp only; omega)
    have hloopback : startsWith (literal "::1".toList) addr.display = true ↔
        ∃ g, addr.segments[k]? = some g ∧ LeadingOne g := by
      rw [hdisplay, hpattern]
      simp only [startsWith, le_refl, and_self, decide_true, Bool.true_and,
        startsWith_joinGroups_one, List.getElem?_drop, Nat.add_zero]
    have hothers : ∀ {p : Pattern} {a : Char}, a ≠ ':' →
        startsWith ((a, a) :: p) addr.display = false := fun ha => by
      simp only [hdisplay, startsWith, literal_class, ha.symm, decide_false, Bool.false_and]
    have hfc : startsWith (literal "fc".toList) addr.display = false :=
      hothers (p := literal "c".toList) (a := 'f') (by decide)
    have hfd : startsWith (literal "fd".toList) addr.display = false :=
      hothers (p := literal "d".toList) (a := 'f') (by decide)
    have hzeros : startsWith (zeroPattern 7) addr.display = false := hothers (by decide)
    simp only [hloopback, hzeros, hfc, hfd, hrun, hzero, Bool.false_eq_true, or_false]
    constructor
    · rintro ⟨g, hg, hone⟩
      exact .inr ⟨k, g, rfl, hk, hg, hone⟩
    · rintro (⟨g, hg, hfirst⟩ | ⟨k', g, heq, -, hg, hone⟩)
      · obtain rfl := Option.some.inj hg
        exact absurd hfirst (by simp [ShortPrefix])
      · obtain rfl : k = k' := congrArg Prod.snd heq
        exact ⟨g, hg, hone⟩
  · have hloopback : startsWith (literal "::1".toList) addr.display = false := by
      obtain ⟨hdigits, hne, -⟩ := lowerHex_spec g.toNat_lt
      cases htext : lowerHex g.toNat with
      | nil => exact absurd htext hne
      | cons c t =>
        have hc : c ≠ ':' := by
          rintro rfl
          rw [htext] at hdigits
          exact absurd hdigits (by simp [isDigitOf, toDigit, hexValue])
        rw [hdisplay, hpattern, htext]
        simp only [List.cons_append, startsWith, literal_class, hc, decide_false, Bool.false_and]
    have hfirst := startsWith_f_lowerHex g.toNat_lt hu
    rw [← hdisplay] at hfirst
    simp only [hloopback, hzeros, hfirst, hg, Bool.false_eq_true, false_or, Option.some.injEq,
      exists_eq_left', ShortPrefix]
    refine (or_iff_left ?_).symm
    rintro ⟨k, g', heq, hk, -⟩
    rw [heq] at hrun
    simp only at hrun
    omega

/-! ## The classification -/

theorem isLocalAddress_v6 (addr : Ipv6Addr) : IsLocalAddress (.v6 addr) ↔ addr = loopbackV6 ∨
    ∃ g, addr.segments[0]? = some g ∧ 0xfc00 ≤ g.toNat ∧ g.toNat ≤ 0xfdff := by
  obtain ⟨segments, h8⟩ := addr
  match segments, h8 with
  | [s₀, s₁, s₂, s₃, s₄, s₅, s₆, s₇], h8 =>
    have h₁ := s₁.toNat_lt
    have h₂ := s₂.toNat_lt
    have h₃ := s₃.toNat_lt
    have h₄ := s₄.toNat_lt
    have h₅ := s₅.toNat_lt
    have h₆ := s₆.toNat_lt
    have h₇ := s₇.toNat_lt
    have hbits : bitsV6 ⟨[s₀, s₁, s₂, s₃, s₄, s₅, s₆, s₇], h8⟩ / 2 ^ (128 - 7) =
        s₀.toNat / 512 := by
      simp only [bitsV6, List.foldl_cons, List.foldl_nil]
      omega
    have hnetwork : bitsV6 uniqueLocal / 2 ^ (128 - 7) = 126 := by decide
    simp only [IsLocalAddress, InNetworkV6, hbits, hnetwork, List.getElem?_cons_zero,
      Option.some.injEq, exists_eq_left']
    refine or_congr_right ?_
    omega

theorem not_isLocalAddress_v6 {addr : Ipv6Addr} {g : UInt16} (hne : addr ≠ loopbackV6)
    (hg : addr.segments[0]? = some g) (hlow : g.toNat < 0xfc00) : ¬ IsLocalAddress (.v6 addr) := by
  rw [isLocalAddress_v6]
  rintro (hloopback | ⟨g', hg', hge, -⟩)
  · exact hne hloopback
  · obtain rfl := Option.some.inj (hg.symm.trans hg')
    omega

/-- The run that is left out is the one at the front when no other is longer. -/
theorem zeroRun_eq_front {segments : List UInt16} {k : ℕ} (hk : 2 ≤ k) :
    zeroRun segments = (0, k) ↔
      IsZeroRun segments (0, k) ∧ ∀ s l, IsZeroRun segments (s, l) → l ≤ k := by
  have hrun := isZeroRun_zeroRun segments
  have hlongest := isLongestRun_zeroRun segments
  generalize zeroRun segments = run at hrun hlongest ⊢
  constructor
  · rintro rfl
    refine ⟨hrun, fun s l hsl => ?_⟩
    rcases Nat.eq_zero_or_pos l with rfl | hl
    · omega
    · have hle := hlongest s l hl hsl (eq_of_isZeroRun hsl hl).1
      simp only at hle
      omega
  · rintro ⟨hfront, hmax⟩
    have hle := hlongest 0 k (by omega) hfront (eq_of_isZeroRun hfront (by omega)).1
    have hge := hmax _ _ hrun
    obtain ⟨start, len⟩ := run
    simp only at hle
    exact Prod.ext (by simp only; omega) (by simp only; omega)

theorem normalizeIp_cases (remoteAddr : IpAddr) : (∃ addr, normalizeIp remoteAddr = .v4 addr) ∨
    ∃ addr, normalizeIp remoteAddr = .v6 addr ∧ Unmapped addr := by
  cases remoteAddr with
  | v4 addr => exact .inl ⟨addr, rfl⟩
  | v6 addr =>
    by_cases hmapped : addr.segments.take 6 = [0, 0, 0, 0, 0, 0xffff]
    · exact .inl ⟨_, if_pos hmapped⟩
    · exact .inr ⟨addr, if_neg hmapped, hmapped⟩

/-- The loopback address is printed like the addresses that are misread. -/
theorem leadingOne_iff (addr : Ipv6Addr) :
    (∃ k g, zeroRun addr.segments = (0, k) ∧ 2 ≤ k ∧ addr.segments[k]? = some g ∧ LeadingOne g) ↔
      addr = loopbackV6 ∨ addr ≠ loopbackV6 ∧ ∃ k g, 2 ≤ k ∧ IsZeroRun addr.segments (0, k) ∧
        (∀ s l, IsZeroRun addr.segments (s, l) → l ≤ k) ∧ addr.segments[k]? = some g ∧
        LeadingOne g := by
  constructor
  · rintro ⟨k, g, hrun, hk, hg, hone⟩
    obtain ⟨hfront, hmax⟩ := (zeroRun_eq_front hk).mp hrun
    by_cases hloopback : addr = loopbackV6
    · exact .inl hloopback
    · exact .inr ⟨hloopback, k, g, hk, hfront, hmax, hg, hone⟩
  · rintro (rfl | ⟨-, k, g, hk, hfront, hmax, hg, hone⟩)
    · exact ⟨7, 1, by decide, by omega, rfl, .inl rfl⟩
    · exact ⟨k, g, (zeroRun_eq_front hk).mpr ⟨hfront, hmax⟩, hk, hg, hone⟩

theorem isMatch_normalizeIp (remoteAddr : IpAddr) :
    isMatch localNetworkRe (normalizeIp remoteAddr).display = true ↔
      IsLocalAddress (normalizeIp remoteAddr) ∨ Misread (normalizeIp remoteAddr) := by
  rcases normalizeIp_cases remoteAddr with ⟨addr, haddr⟩ | ⟨addr, haddr, hunmapped⟩
  · simp only [haddr, IpAddr.display, isMatch_displayV4, isLocalAddress_v4, Misread, or_false]
  · rw [haddr, IpAddr.display, isMatch_displayV6 hunmapped, leadingOne_iff, isLocalAddress_v6, Misread]
    simp only [and_or_left, exists_or]
    constructor
    · rintro ((hfirst | hshort) | hloopback | hmisread)
      · exact .inl (.inr hfirst)
      · exact .inr (.inl hshort)
      · exact .inl (.inl hloopback)
      · exact .inr (.inr hmisread)
    · rintro ((hloopback | hfirst) | hshort | hmisread)
      · exact .inr (.inl hloopback)
      · exact .inl (.inl hfirst)
      · exact .inl (.inr hshort)
      · exact .inr (.inr hmisread)

/-- No address is misread inside the networks. -/
theorem Misread.not_isLocalAddress {addr : IpAddr} (h : Misread addr) : ¬ IsLocalAddress addr := by
  cases addr with
  | v4 addr => exact h.elim
  | v6 addr =>
    rw [isLocalAddress_v6]
    rintro (rfl | ⟨g, hg, hlow, hhigh⟩)
    · rcases h with ⟨g, hg, hshort⟩ | ⟨hne, -⟩
      · obtain rfl : 0 = g := Option.some.inj hg
        simp [ShortPrefix] at hshort
      · exact hne rfl
    · rcases h with ⟨g', hg', hshort⟩ | ⟨-, k, g', hk, hfront, -⟩
      · obtain rfl := Option.some.inj (hg.symm.trans hg')
        simp only [ShortPrefix] at hshort
        omega
      · obtain rfl := Option.some.inj (hg.symm.trans (hfront 0 le_rfl (by simp only; omega)))
        simp at hlow

theorem isLocal_fromRemoteAddr (remoteAddr : IpAddr) (clientHost : Text) :
    (SessionOrigin.fromRemoteAddr remoteAddr clientHost).isLocal = true ↔
      IsLocalPeer remoteAddr clientHost ∨ Misread (normalizeIp remoteAddr) := by
  simp only [SessionOrigin.fromRemoteAddr, map_toLower_display, Bool.or_eq_true,
    isMatch_normalizeIp, beq_iff_eq, IsLocalPeer, eq_comm (a := clientHost)]
  tauto

/-- The peer is local exactly when it is meant to be, and no other peer is exempt. -/
def ClassifiedAsIntended (remoteAddr : IpAddr) (clientHost : Text) : Prop :=
  let origin := SessionOrigin.fromRemoteAddr remoteAddr clientHost
  (origin.isLocal = true ↔ IsLocalPeer remoteAddr clientHost) ∧
    (¬ IsLocalPeer remoteAddr clientHost →
      origin.admissionClass false = .limited ∧
      (∀ {β : Type} (bandwidthMonitor : Option β),
        origin.bwmForRequest bandwidthMonitor = bandwidthMonitor) ∧
      ∀ {β : Type} (stats : β), origin.trafficStats stats = some stats)

/-- Outside the networks only the client's own address may be local. -/
theorem ClassifiedAsIntended.display_eq {remoteAddr : IpAddr} {clientHost : Text}
    (h : ClassifiedAsIntended remoteAddr clientHost)
    (hlocal : (SessionOrigin.fromRemoteAddr remoteAddr clientHost).isLocal = true)
    (houtside : ¬ IsLocalAddress (normalizeIp remoteAddr)) :
    (normalizeIp remoteAddr).display = clientHost := by
  rcases h.1.mp hlocal with hrange | htext
  · exact absurd hrange houtside
  · exact htext

/-- The texts are compared as the addresses are: the `host` setting names the peer exactly when it
is read as the same address. -/
theorem display_eq_clientHost (remoteAddr : IpAddr) (value : Text) :
    (normalizeIp remoteAddr).display = clientHost value ↔
      ∃ ip, parseIp value = some ip ∧ normalizeIp ip = normalizeIp remoteAddr := by
  unfold clientHost
  cases hparse : parseIp value with
  | none =>
    simp only [reduceCtorEq, false_and, exists_false, iff_false]
    intro htext
    rw [← htext, parseIp_display] at hparse
    cases hparse
  | some ip =>
    simp only [Option.some.injEq, exists_eq_left']
    exact ⟨fun h => (IpAddr.display_inj h).symm, fun h => congrArg IpAddr.display h.symm⟩

/-- A peer is classified as intended unless its address is misread; then only a peer at the address
of the client itself is, which is the one that the `host` setting is read as. -/
theorem classified_iff_not_misread (remoteAddr : IpAddr) (host : Text) :
    (ClassifiedAsIntended remoteAddr host ↔
      (Misread (normalizeIp remoteAddr) → (normalizeIp remoteAddr).display = host)) ∧
    ∀ value, (normalizeIp remoteAddr).display = clientHost value ↔
      ∃ ip, parseIp value = some ip ∧ normalizeIp ip = normalizeIp remoteAddr := by
  have hlocal := isLocal_fromRemoteAddr remoteAddr host
  refine ⟨?_, display_eq_clientHost remoteAddr⟩
  constructor
  · intro h hmisread
    exact h.display_eq (hlocal.mpr (.inr hmisread)) hmisread.not_isLocalAddress
  · intro h
    have hclass : (SessionOrigin.fromRemoteAddr remoteAddr host).isLocal = true ↔
        IsLocalPeer remoteAddr host :=
      hlocal.trans (or_iff_left_of_imp fun hmisread => .inr (h hmisread))
    refine ⟨hclass, fun hother => ?_⟩
    have hfalse := Bool.eq_false_iff.mpr (mt hclass.mp hother)
    refine ⟨?_, fun bandwidthMonitor => ?_, fun stats => ?_⟩
    · rw [SessionOrigin.admissionClass, hfalse]
      rfl
    · rw [SessionOrigin.bwmForRequest, hfalse]
      rfl
    · rw [SessionOrigin.trafficStats, hfalse]
      rfl

/-- The peers `fc::1` and `::1:2` are outside the networks. -/
theorem misread_peers_exempt :
    ¬ ClassifiedAsIntended (.v6 ⟨[0xfc, 0, 0, 0, 0, 0, 0, 1], rfl⟩) [] ∧
      ¬ ClassifiedAsIntended (.v6 ⟨[0, 0, 0, 0, 0, 0, 1, 2], rfl⟩) [] := by
  constructor
  · intro h
    have houtside : ¬ IsLocalAddress (.v6 ⟨[0xfc, 0, 0, 0, 0, 0, 0, 1], rfl⟩) :=
      not_isLocalAddress_v6 (by decide) rfl (by decide)
    exact absurd (h.display_eq (by decide +kernel) houtside) (by decide +kernel)
  · intro h
    have houtside : ¬ IsLocalAddress (.v6 ⟨[0, 0, 0, 0, 0, 0, 1, 2], rfl⟩) :=
      not_isLocalAddress_v6 (by decide) rfl (by decide)
    exact absurd (h.display_eq (by decide +kernel) houtside) (by decide +kernel)

end HathRs.PeerLocality
