import HathRs.ByteWords

/-!
# Texts, their UTF-8 bytes, decimal numbers and lines

A text is the list of its characters. The functions follow the standard library
they stand for: `lines` breaks at a line feed and drops one carriage return before
it, `splitOnce` cuts at the first occurrence of a character, and `parseUnsigned`
accepts one leading plus sign and rejects everything that does not fit.
-/

namespace HathRs

abbrev Text := List Char

-- The membership tests on lists of texts go through this instance.
instance : LawfulBEq Text := inferInstance

namespace TextParsing

/-! ## Bytes of a text -/

def utf8 (t : Text) : Bytes := t.flatMap String.utf8EncodeChar

/-- The text with these UTF-8 bytes, if the bytes are well formed. -/
def fromUtf8 (bs : Bytes) : Option Text := bs.toByteArray.utf8Decode?.map Array.toList

@[simp] theorem fromUtf8_utf8 (t : Text) : fromUtf8 (utf8 t) = some t := by
  have h := List.utf8Decode?_utf8Encode (l := t)
  rw [List.utf8Encode] at h
  simp [fromUtf8, utf8, h]

@[simp] theorem utf8_append (s t : Text) : utf8 (s ++ t) = utf8 s ++ utf8 t := by
  simp [utf8]

def Ascii (t : Text) : Prop := ∀ c ∈ t, c.toNat < 128

instance (t : Text) : Decidable (Ascii t) := List.decidableBAll _ t

theorem Ascii.append {s t : Text} (hs : Ascii s) (ht : Ascii t) : Ascii (s ++ t) := by
  intro c hc
  rcases List.mem_append.mp hc with hc | hc
  · exact hs c hc
  · exact ht c hc

theorem utf8EncodeChar_ascii {c : Char} (h : c.toNat < 128) :
    String.utf8EncodeChar c = [UInt8.ofNat c.toNat] := by
  have hv : c.val.toNat ≤ 127 := Nat.lt_succ_iff.mp h
  rw [String.utf8EncodeChar]
  exact if_pos hv

/-- The bytes of an ASCII text are its character codes. -/
theorem utf8_ascii {t : Text} (h : Ascii t) : utf8 t = t.map (fun c => UInt8.ofNat c.toNat) := by
  induction t with
  | nil => rfl
  | cons c t ih =>
    have hc := utf8EncodeChar_ascii (h c List.mem_cons_self)
    have ht := ih (fun d hd => h d (List.mem_cons_of_mem _ hd))
    simp only [utf8, List.flatMap_cons, hc, List.map_cons] at ht ⊢
    rw [ht]
    rfl

theorem length_utf8_ascii {t : Text} (h : Ascii t) : (utf8 t).length = t.length := by
  simp [utf8_ascii h]

/-- Cutting the bytes of an ASCII text cuts the text. -/
theorem take_utf8_ascii {t : Text} (h : Ascii t) (k : ℕ) :
    (utf8 t).take k = utf8 (t.take k) := by
  have ht : Ascii (t.take k) := fun c hc => h c (List.mem_of_mem_take hc)
  rw [utf8_ascii h, utf8_ascii ht, List.map_take]

/-! ## Decimal numbers -/

/-- The shortest decimal form of a natural number. -/
def decimal (n : ℕ) : Text := Nat.toDigits 10 n

theorem isDigit_of_mem_decimal {n : ℕ} {c : Char} (h : c ∈ decimal n) : c.isDigit = true :=
  Nat.isDigit_of_mem_toDigits (by omega) (by omega) h

theorem decimal_ne_nil (n : ℕ) : decimal n ≠ [] := Nat.toDigits_ne_nil

theorem toNat_of_isDigit {c : Char} (h : c.isDigit = true) : 48 ≤ c.toNat ∧ c.toNat ≤ 57 := by
  simp only [Char.isDigit, Bool.and_eq_true, decide_eq_true_eq] at h
  exact h

theorem ne_of_mem_decimal {n : ℕ} {c d : Char} (h : c ∈ decimal n) (hd : d.isDigit = false) :
    c ≠ d := by
  rintro rfl
  rw [isDigit_of_mem_decimal h] at hd
  contradiction

theorem ascii_decimal (n : ℕ) : Ascii (decimal n) := by
  intro c hc
  have h := toNat_of_isDigit (isDigit_of_mem_decimal hc)
  omega

/-- The text without its optional plus sign. -/
def unsignedDigits : Text → Text
  | '+' :: rest => rest
  | t => t

/-- The unsigned integer parser: an optional plus sign, at least one digit, no overflow. -/
def parseUnsigned (bound : ℕ) (t : Text) : Option ℕ :=
  let digits := unsignedDigits t
  if digits = [] || !digits.all Char.isDigit then none
  else
    let n := Nat.ofDigitChars 10 digits 0
    if n < bound then some n else none

theorem unsignedDigits_decimal (n : ℕ) : unsignedDigits (decimal n) = decimal n := by
  have hplus : '+' ∉ decimal n := fun h => ne_of_mem_decimal h (by decide) rfl
  cases hd : decimal n with
  | nil => rfl
  | cons c cs =>
    have hc : c ≠ '+' := by
      rintro rfl
      exact hplus (by simp [hd])
    simp [unsignedDigits, hc]

/-- A number below the bound is read back from its decimal form. -/
theorem parseUnsigned_decimal {bound n : ℕ} (h : n < bound) :
    parseUnsigned bound (decimal n) = some n := by
  have hall : (decimal n).all Char.isDigit = true :=
    List.all_eq_true.mpr (fun _ hc => isDigit_of_mem_decimal hc)
  have hval : Nat.ofDigitChars 10 (decimal n) 0 = n :=
    Nat.ofDigitChars_toDigits (by omega) (by omega)
  simp [parseUnsigned, unsignedDigits_decimal, decimal_ne_nil, hall, hval, h]

theorem parseUnsigned_lt {bound n : ℕ} {t : Text} (h : parseUnsigned bound t = some n) :
    n < bound := by
  simp only [parseUnsigned] at h
  split_ifs at h with _ hlt
  exact Option.some.inj h ▸ hlt

def parseU32 (value : Text) : Option UInt32 := (parseUnsigned (2 ^ 32) value).map UInt32.ofNat

def parseU64 (value : Text) : Option UInt64 := (parseUnsigned (2 ^ 64) value).map UInt64.ofNat

theorem parseU32_decimal (n : UInt32) : parseU32 (decimal n.toNat) = some n := by
  simp only [parseU32, parseUnsigned_decimal n.toNat_lt, Option.map_some, UInt32.ofNat_toNat]

theorem parseU64_decimal (n : UInt64) : parseU64 (decimal n.toNat) = some n := by
  simp only [parseU64, parseUnsigned_decimal n.toNat_lt, Option.map_some, UInt64.ofNat_toNat]

theorem ofDigitChars_lt {t : Text} (h : ∀ c ∈ t, c.isDigit = true) (init : ℕ) :
    Nat.ofDigitChars 10 t init < (init + 1) * 10 ^ t.length := by
  induction t generalizing init with
  | nil => simp
  | cons c t ih =>
    have hc := toNat_of_isDigit (h c List.mem_cons_self)
    have hzero : '0'.toNat = 48 := rfl
    rw [Nat.ofDigitChars_cons]
    calc Nat.ofDigitChars 10 t (10 * init + (c.toNat - '0'.toNat))
        < (10 * init + (c.toNat - '0'.toNat) + 1) * 10 ^ t.length :=
          ih (fun d hd => h d (List.mem_cons_of_mem _ hd)) _
      _ ≤ (10 * (init + 1)) * 10 ^ t.length := Nat.mul_le_mul_right _ (by omega)
      _ = (init + 1) * 10 ^ (c :: t).length := by rw [List.length_cons, pow_succ]; ring

theorem length_unsignedDigits_le (t : Text) : (unsignedDigits t).length ≤ t.length := by
  unfold unsignedDigits
  split <;> simp

/-- A number has no more digits than its text has characters. -/
theorem parseU32_lt {t : Text} {n : UInt32} {k : ℕ} (h : parseU32 t = some n) (hk : t.length ≤ k) :
    n.toNat < 10 ^ k := by
  simp only [parseU32, Option.map_eq_some_iff] at h
  obtain ⟨m, hm, rfl⟩ := h
  have hbound := parseUnsigned_lt hm
  simp only [parseUnsigned] at hm
  split_ifs at hm with hdigits
  obtain rfl := Option.some.inj hm
  simp only [Bool.or_eq_true, decide_eq_true_eq, Bool.not_eq_true', not_or,
    Bool.not_eq_false, List.all_eq_true] at hdigits
  rw [UInt32.toNat_ofNat_of_lt' hbound]
  calc Nat.ofDigitChars 10 (unsignedDigits t) 0 < (0 + 1) * 10 ^ (unsignedDigits t).length :=
        ofDigitChars_lt hdigits.2 0
    _ ≤ 10 ^ k := by
        rw [zero_add, one_mul]
        exact Nat.pow_le_pow_right (by omega) ((length_unsignedDigits_le t).trans hk)

/-- The value of a hexadecimal digit of either case. -/
def hexValue (c : Char) : Option ℕ :=
  if '0' ≤ c ∧ c ≤ '9' then some (c.toNat - 48)
  else if 'a' ≤ c ∧ c ≤ 'f' then some (c.toNat - 87)
  else if 'A' ≤ c ∧ c ≤ 'F' then some (c.toNat - 55)
  else none

def hexDigits (acc : ℕ) : Text → Option ℕ
  | [] => some acc
  | c :: cs => (hexValue c).bind (fun d => hexDigits (16 * acc + d) cs)

/-- The unsigned integer parser in base 16. -/
def parseHex (bound : ℕ) (t : Text) : Option ℕ :=
  let digits := unsignedDigits t
  if digits = [] then none
  else (hexDigits 0 digits).bind (fun n => if n < bound then some n else none)

theorem hexValue_lt {c : Char} {d : ℕ} (h : hexValue c = some d) : d < 16 := by
  simp only [hexValue] at h
  split_ifs at h with h₁ h₂ h₃
  · have := Char.le_def.mp h₁.2
    cases h
    have h9 : c.toNat ≤ 57 := UInt32.le_iff_toNat_le.mp this
    omega
  · have := Char.le_def.mp h₂.2
    cases h
    have hf : c.toNat ≤ 102 := UInt32.le_iff_toNat_le.mp this
    omega
  · have := Char.le_def.mp h₃.2
    cases h
    have hF : c.toNat ≤ 70 := UInt32.le_iff_toNat_le.mp this
    omega

theorem hexDigits_lt {t : Text} {acc n : ℕ} (h : hexDigits acc t = some n) :
    n < (acc + 1) * 16 ^ t.length := by
  induction t generalizing acc with
  | nil =>
    cases h
    simp
  | cons c t ih =>
    obtain ⟨d, hd, hrest⟩ := Option.bind_eq_some_iff.mp h
    have hd16 := hexValue_lt hd
    calc n < (16 * acc + d + 1) * 16 ^ t.length := ih hrest
      _ ≤ (16 * (acc + 1)) * 16 ^ t.length := Nat.mul_le_mul_right _ (by omega)
      _ = (acc + 1) * 16 ^ (c :: t).length := by rw [List.length_cons, pow_succ]; ring

/-- A hexadecimal number is below the power of its number of characters. -/
theorem parseHex_lt {bound n : ℕ} {t : Text} (h : parseHex bound t = some n) :
    n < 16 ^ t.length := by
  simp only [parseHex] at h
  split_ifs at h
  obtain ⟨m, hm, hn⟩ := Option.bind_eq_some_iff.mp h
  split_ifs at hn
  cases hn
  have hlen : (unsignedDigits t).length ≤ t.length := by
    unfold unsignedDigits
    split <;> simp
  calc n < (0 + 1) * 16 ^ (unsignedDigits t).length := hexDigits_lt hm
    _ ≤ 16 ^ t.length := by rw [zero_add, one_mul]; exact Nat.pow_le_pow_right (by omega) hlen

/-! ## Cutting a text -/

/-- The text before and after the first occurrence of `sep`. -/
def splitOnce (sep : Char) : Text → Option (Text × Text)
  | [] => none
  | c :: cs =>
    if c = sep then some ([], cs)
    else (splitOnce sep cs).map (fun p => (c :: p.1, p.2))

theorem splitOnce_append {sep : Char} {key : Text} (hk : sep ∉ key) (value : Text) :
    splitOnce sep (key ++ sep :: value) = some (key, value) := by
  induction key with
  | nil => simp [splitOnce]
  | cons c key ih =>
    obtain ⟨hc, hkey⟩ := List.ne_and_not_mem_of_not_mem_cons hk
    simp [splitOnce, Ne.symm hc, ih hkey]

theorem splitOnce_eq_none {sep : Char} {t : Text} (h : sep ∉ t) : splitOnce sep t = none := by
  induction t with
  | nil => rfl
  | cons c t ih =>
    obtain ⟨hc, ht⟩ := List.ne_and_not_mem_of_not_mem_cons h
    simp [splitOnce, Ne.symm hc, ih ht]

/-- Drops one carriage return in front of a line feed. -/
def stripCr (line : Text) : Text :=
  if line.getLast? = some '\r' then line.dropLast else line

/-- The lines after an already collected beginning of the current line. -/
def linesFrom (current : Text) : Text → List Text
  | [] => if current = [] then [] else [current]
  | c :: cs =>
    if c = '\n' then stripCr current :: linesFrom [] cs
    else linesFrom (current ++ [c]) cs

/-- The lines of a text. A final line feed does not open another line. -/
def lines (t : Text) : List Text := linesFrom [] t

theorem linesFrom_append {line : Text} (hl : '\n' ∉ line) (current rest : Text) :
    linesFrom current (line ++ rest) = linesFrom (current ++ line) rest := by
  induction line generalizing current with
  | nil => simp
  | cons c line ih =>
    obtain ⟨hc, hline⟩ := List.ne_and_not_mem_of_not_mem_cons hl
    simp only [List.cons_append, linesFrom, Ne.symm hc, if_false, ih hline]
    simp

/-- A line that does not end in a carriage return is read up to its line feed. -/
theorem lines_cons_of_getLast {line : Text} (hn : '\n' ∉ line) (hr : line.getLast? ≠ some '\r')
    (rest : Text) : lines (line ++ '\n' :: rest) = line :: lines rest := by
  rw [lines, linesFrom_append hn]
  simp [linesFrom, stripCr, hr, lines]

theorem lines_cons {line : Text} (hn : '\n' ∉ line) (hr : '\r' ∉ line) (rest : Text) :
    lines (line ++ '\n' :: rest) = line :: lines rest :=
  lines_cons_of_getLast hn (fun hg => hr (List.mem_of_getLast? hg)) rest

theorem lines_last {line : Text} (hn : '\n' ∉ line) (hne : line ≠ []) : lines line = [line] := by
  have h := linesFrom_append hn [] []
  simp only [List.append_nil, List.nil_append] at h
  rw [lines, h]
  simp [linesFrom, hne]

/-! ## Beginnings of a text -/

/-- The lines separated, but not ended, by line feeds. -/
def joinLines : List Text → Text
  | [] => []
  | [line] => line
  | line :: next :: rest => line ++ '\n' :: joinLines (next :: rest)

/-- A beginning of a text with a separator ends before it or reaches past it. -/
theorem prefix_append_cons {t front back : Text} {sep : Char}
    (h : t <+: front ++ sep :: back) :
    t <+: front ∨ ∃ rest, t = front ++ sep :: rest ∧ rest <+: back := by
  rcases List.prefix_or_prefix_of_prefix h (List.prefix_append front (sep :: back)) with ht | ht
  · exact Or.inl ht
  · obtain ⟨tail, rfl⟩ := ht
    cases tail with
    | nil => exact Or.inl (by simp)
    | cons c rest =>
      rw [List.prefix_append_right_inj, List.cons_prefix_cons] at h
      obtain ⟨rfl, hrest⟩ := h
      exact Or.inr ⟨rest, rfl, hrest⟩

/-- A text that was cut off has some whole lines and a beginning of the next one. -/
theorem lines_of_prefix {ls : List Text} (hls : ∀ line ∈ ls, '\n' ∉ line ∧ '\r' ∉ line) {t : Text}
    (h : t <+: joinLines ls) :
    t = joinLines ls ∨ ∃ whole cut rest part, ls = whole ++ cut :: rest ∧ part <+: cut ∧
      (rest = [] → part ≠ cut) ∧ lines t = whole ++ lines part := by
  induction ls generalizing t with
  | nil => exact Or.inl (by simpa [joinLines] using h)
  | cons line ls ih =>
    have hline := hls line List.mem_cons_self
    cases ls with
    | nil =>
      by_cases heq : t = line
      · exact Or.inl heq
      · exact Or.inr ⟨[], line, [], t, rfl, h, fun _ => heq, rfl⟩
    | cons next rest =>
      rcases prefix_append_cons h with ht | ⟨u, rfl, hu⟩
      · exact Or.inr ⟨[], line, next :: rest, t, rfl, ht, by simp, rfl⟩
      · rcases ih (fun l hl => hls l (List.mem_cons_of_mem _ hl)) hu with rfl | hcut
        · exact Or.inl rfl
        · obtain ⟨whole, cut, tail, part, heq, hpart, hne, hlines⟩ := hcut
          refine Or.inr ⟨line :: whole, cut, tail, part, by rw [heq]; rfl, hpart, hne, ?_⟩
          rw [lines_cons hline.1 hline.2, hlines]
          rfl

/-- The lines that were joined are read back, if the last of them is not empty. -/
theorem lines_joinLines {ls : List Text} (hls : ∀ line ∈ ls, '\n' ∉ line ∧ '\r' ∉ line)
    (hlast : ls.getLast? ≠ some []) : lines (joinLines ls) = ls := by
  induction ls with
  | nil => rfl
  | cons line ls ih =>
    have hline := hls line List.mem_cons_self
    cases ls with
    | nil => exact lines_last hline.1 (by simpa [joinLines] using hlast)
    | cons next rest =>
      have hrest := ih (fun l hl => hls l (List.mem_cons_of_mem _ hl)) (by simpa using hlast)
      rw [joinLines, lines_cons hline.1 hline.2, hrest]

end TextParsing
end HathRs
