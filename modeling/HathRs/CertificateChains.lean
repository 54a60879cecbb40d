import HathRs.ByteWords
import HathRs.TextParsing
import HathRs.UniqueScans

/-!
# The order of a certificate chain

A PKCS12 archive holds its certificates in any order. The server puts the certificate of its
private key first and behind each certificate the only one that issued it, until none is left.
How a certificate is parsed, compared with the key and checked against its issuer is given from
outside: the order is right and the same for every arrangement of the archive whatever these
checks answer.
-/

namespace HathRs.CertificateChains
open TextParsing UniqueScans

/-! ## Checks of certificates -/

/-- What the order rests on. `isValidIssuer` takes the child first, and its errors are texts of
their own; the errors of `parse` are those of the X.509 parser. -/
structure CertificateChecks (Key Cert Parsed : Type) where
  privateKeySpki : Key → Except Text Bytes
  parse : Cert → Except Text Parsed
  publicKey : Parsed → Bytes
  isValidIssuer : Parsed → Parsed → Except Text Bool
  isSignedBy : Cert → Cert → Bool

/-- The parts of a parsed certificate that are read. An extension that cannot be parsed, or stands
twice, is an error; of the basic constraints the CA flag counts and of the key usage the right
to sign certificates. -/
structure X509Certificate where
  subject : Bytes
  issuer : Bytes
  publicKey : Bytes
  basicConstraints : Except Text (Option Bool)
  keyUsage : Except Text (Option Bool)

def isValidIssuer (child candidate : X509Certificate) : Except Text Bool :=
  if child.issuer ≠ candidate.subject then .ok false
  else
    match candidate.basicConstraints with
    | .error e => .error ("invalid issuer basic constraints: ".toList ++ e)
    | .ok none => .ok false
    | .ok (some false) => .ok false
    | .ok (some true) =>
      match candidate.keyUsage with
      | .error e => .error ("invalid issuer key usage: ".toList ++ e)
      | .ok none => .ok true
      | .ok (some keyCertSign) => .ok keyCertSign

/-- The checks of the server over the parser and the TLS backend. -/
def x509Checks {Key Cert : Type} (privateKeySpki : Key → Except Text Bytes)
    (parse : Cert → Except Text X509Certificate) (isSignedBy : Cert → Cert → Bool) :
    CertificateChecks Key Cert X509Certificate :=
  ⟨privateKeySpki, parse, X509Certificate.publicKey, isValidIssuer, isSignedBy⟩

/-! ## The order -/

section Order

variable {Key Cert Parsed : Type} (checks : CertificateChecks Key Cert Parsed)

def parseCertificate (certificate : Cert) : Except Text Parsed :=
  match checks.parse certificate with
  | .error e => .error ("invalid PKCS12 certificate: ".toList ++ e)
  | .ok parsed => .ok parsed

def matchesKey (keySpki : Bytes) (certificate : Cert) : Except Text Bool :=
  match parseCertificate checks certificate with
  | .error e => .error e
  | .ok parsed => .ok (checks.publicKey parsed == keySpki)

/-- The signature is looked at only for a valid issuer. -/
def issues (child : Parsed) (last certificate : Cert) : Except Text Bool :=
  match parseCertificate checks certificate with
  | .error e => .error e
  | .ok candidate =>
    match checks.isValidIssuer child candidate with
    | .error e => .error e
    | .ok false => .ok false
    | .ok true => .ok (checks.isSignedBy last certificate)

def leafIndex (keySpki : Bytes) (certificates : List Cert) : Except Text ℕ :=
  match scanUnique (matchesKey checks keySpki)
      "multiple PKCS12 certificates match the private key".toList certificates 0 none with
  | .error e => .error e
  | .ok none => .error "no PKCS12 certificate matches the private key".toList
  | .ok (some i) => .ok i

def issuerIndex (last : Cert) (certificates : List Cert) : Except Text ℕ :=
  match parseCertificate checks last with
  | .error e => .error e
  | .ok child =>
    match scanUnique (issues checks child last)
        "multiple PKCS12 certificates can issue the same child certificate".toList
        certificates 0 none with
    | .error e => .error e
    | .ok none => .error "PKCS12 certificate chain is incomplete or invalid".toList
    | .ok (some i) => .ok i

/-- The loop behind the leaf. There is no result for a loop that has not ended within the fuel, nor
for a panic: a chain without a last certificate or an index beyond the end. -/
def extendChain : ℕ → List Cert → List Cert → Option (Except Text (List Cert))
  | _, chain, [] => some (.ok chain)
  | 0, _, _ :: _ => none
  | fuel + 1, chain, certificate :: certificates =>
    match chain.getLast? with
    | none => none
    | some last =>
      match issuerIndex checks last (certificate :: certificates) with
      | .error e => some (.error e)
      | .ok i =>
        match removeAt (certificate :: certificates) i with
        | none => none
        | some (issuer, rest) => extendChain fuel (chain ++ [issuer]) rest

def orderCertificateChain (fuel : ℕ) (certificates : List Cert) (privateKey : Key) :
    Option (Except Text (List Cert)) :=
  match checks.privateKeySpki privateKey with
  | .error e => some (.error e)
  | .ok keySpki =>
    match leafIndex checks keySpki certificates with
    | .error e => some (.error e)
    | .ok i =>
      match removeAt certificates i with
      | none => none
      | some (leaf, rest) => extendChain checks fuel [leaf] rest

/-- The certificate has the public key of the private key. -/
def MatchesKey (privateKey : Key) (certificate : Cert) : Prop :=
  ∃ keySpki parsed, checks.privateKeySpki privateKey = .ok keySpki ∧
    checks.parse certificate = .ok parsed ∧ checks.publicKey parsed = keySpki

/-- The second certificate is a valid issuer of the first and has signed it. -/
def IssuedBy (child issuer : Cert) : Prop :=
  ∃ parsedChild parsedIssuer, checks.parse child = .ok parsedChild ∧
    checks.parse issuer = .ok parsedIssuer ∧
    checks.isValidIssuer parsedChild parsedIssuer = .ok true ∧
    checks.isSignedBy child issuer = true

variable {checks} {keySpki : Bytes} {privateKey : Key} {child : Parsed} {last issuer : Cert}
  {chain full certificates certificates' rest : List Cert} {fuel i : ℕ}

theorem parseCertificate_eq_ok {certificate : Cert} {parsed : Parsed} :
    parseCertificate checks certificate = .ok parsed ↔ checks.parse certificate = .ok parsed := by
  unfold parseCertificate
  cases checks.parse certificate <;> simp

theorem matchesKey_eq_ok {certificate : Cert} {b : Bool} :
    matchesKey checks keySpki certificate = .ok b ↔
      ∃ parsed, checks.parse certificate = .ok parsed ∧
        (checks.publicKey parsed == keySpki) = b := by
  simp only [← parseCertificate_eq_ok, matchesKey]
  cases parseCertificate checks certificate <;> simp

theorem issues_eq_true {certificate : Cert} (h : issues checks child last certificate = .ok true) :
    ∃ candidate, checks.parse certificate = .ok candidate ∧
      checks.isValidIssuer child candidate = .ok true ∧
      checks.isSignedBy last certificate = true := by
  unfold issues at h
  split at h
  · cases h
  case h_2 candidate hparse =>
    refine ⟨candidate, parseCertificate_eq_ok.mp hparse, ?_⟩
    split at h
    · cases h
    · cases h
    case h_3 hvalid => exact ⟨hvalid, Except.ok.inj h⟩

theorem leafIndex_eq_ok : leafIndex checks keySpki certificates = .ok i ↔
    scanUnique (matchesKey checks keySpki)
      "multiple PKCS12 certificates match the private key".toList certificates 0 none =
        .ok (some i) := by
  unfold leafIndex
  split <;> simp_all

theorem issuerIndex_eq_ok : issuerIndex checks last certificates = .ok i ↔
    ∃ child, checks.parse last = .ok child ∧ scanUnique (issues checks child last)
      "multiple PKCS12 certificates can issue the same child certificate".toList
      certificates 0 none = .ok (some i) := by
  simp only [← parseCertificate_eq_ok, issuerIndex]
  cases parseCertificate checks last with
  | error e => simp
  | ok child =>
    simp only [Except.ok.injEq, exists_eq_left']
    split <;> simp_all

/-! ### One turn of the loop -/

/-- An issuer that is found can be removed, so a turn ends in an error or with a longer chain. -/
theorem issuerIndex_selects (h : issuerIndex checks last certificates = .ok i) :
    ∃ child issuer rest, checks.parse last = .ok child ∧
      removeAt certificates i = some (issuer, rest) ∧
      Selects (issues checks child last) certificates issuer rest := by
  obtain ⟨child, hparse, hscan⟩ := issuerIndex_eq_ok.mp h
  obtain ⟨issuer, rest, hremove, hselects⟩ := scanUnique_selects hscan
  exact ⟨child, issuer, rest, hparse, hremove, hselects⟩

theorem extendChain_turn (checks : CertificateChecks Key Cert Parsed)
    (hlast : chain.getLast? = some last) (hne : certificates ≠ []) :
    (∃ e, ∀ fuel, extendChain checks (fuel + 1) chain certificates = some (.error e)) ∨
      ∃ child issuer rest, checks.parse last = .ok child ∧
        Selects (issues checks child last) certificates issuer rest ∧
        ∀ fuel, extendChain checks (fuel + 1) chain certificates =
          extendChain checks fuel (chain ++ [issuer]) rest := by
  cases certificates with
  | nil => exact absurd rfl hne
  | cons certificate certificates =>
    simp only [extendChain, hlast]
    cases hindex : issuerIndex checks last (certificate :: certificates) with
    | error e => exact .inl ⟨e, fun _ => rfl⟩
    | ok i =>
      obtain ⟨child, issuer, rest, hparse, hremove, hselects⟩ := issuerIndex_selects hindex
      exact .inr ⟨child, issuer, rest, hparse, hselects, fun _ => by simp only [hremove]⟩

/-- The only issuer is pushed wherever it stands. -/
theorem extendChain_of_selects (hlast : chain.getLast? = some last)
    (hparse : checks.parse last = .ok child)
    (hselects : Selects (issues checks child last) certificates issuer rest) :
    ∃ rest', rest'.Perm rest ∧ ∀ fuel, extendChain checks (fuel + 1) chain certificates =
      extendChain checks fuel (chain ++ [issuer]) rest' := by
  obtain ⟨i, rest', hscan, hremove, hperm⟩ := hselects.found
    "multiple PKCS12 certificates can issue the same child certificate".toList
  have hindex : issuerIndex checks last certificates = .ok i :=
    issuerIndex_eq_ok.mpr ⟨child, hparse, hscan⟩
  refine ⟨rest', hperm, fun fuel => ?_⟩
  cases certificates with
  | nil => exact absurd hremove (by simp [removeAt])
  | cons certificate certificates => simp only [extendChain, hlast, hindex, hremove]

/-! ### The whole loop -/

/-- As many turns as certificates are enough, and more change nothing. -/
theorem extendChain_terminates (checks : CertificateChecks Key Cert Parsed)
    (certificates : List Cert) (hlast : chain.getLast? = some last) :
    ∃ result, ∀ fuel, certificates.length ≤ fuel →
      extendChain checks fuel chain certificates = some result := by
  generalize hn : certificates.length = n
  induction n generalizing chain last certificates with
  | zero =>
    obtain rfl := List.length_eq_zero_iff.mp hn
    exact ⟨.ok chain, fun fuel _ => by simp only [extendChain]⟩
  | succ n ih =>
    have hne : certificates ≠ [] := List.ne_nil_of_length_eq_add_one hn
    rcases extendChain_turn checks hlast hne with
      ⟨e, herror⟩ | ⟨_, issuer, rest, -, hselects, hturn⟩
    · refine ⟨.error e, fun fuel hfuel => ?_⟩
      obtain ⟨fuel, rfl⟩ := Nat.exists_eq_add_of_le' (Nat.lt_of_lt_of_le n.succ_pos hfuel)
      exact herror fuel
    · have hrest : rest.length = n := by
        have hlength := hselects.perm.length_eq
        rw [hn, List.length_cons] at hlength
        omega
      obtain ⟨result, hresult⟩ := ih rest List.getLast?_concat hrest
      refine ⟨result, fun fuel hfuel => ?_⟩
      obtain ⟨fuel, rfl⟩ := Nat.exists_eq_add_of_le' (Nat.lt_of_lt_of_le n.succ_pos hfuel)
      rw [hturn]
      exact hresult fuel (Nat.le_of_succ_le_succ hfuel)

/-- What the loop adds is the rest of the archive, and each certificate issued the one before. -/
theorem extendChain_ok (hlast : chain.getLast? = some last)
    (h : extendChain checks fuel chain certificates = some (.ok full)) :
    ∃ issuers, full = chain ++ issuers ∧ issuers.Perm certificates ∧
      (last :: issuers).IsChain (IssuedBy checks) := by
  induction fuel generalizing chain last certificates with
  | zero =>
    cases certificates with
    | nil =>
      simp only [extendChain, Option.some.injEq, Except.ok.injEq] at h
      exact ⟨[], by rw [h, List.append_nil], .nil, .singleton last⟩
    | cons certificate certificates => cases h
  | succ fuel ih =>
    rcases eq_or_ne certificates [] with rfl | hne
    · simp only [extendChain, Option.some.injEq, Except.ok.injEq] at h
      exact ⟨[], by rw [h, List.append_nil], .nil, .singleton last⟩
    · rcases extendChain_turn checks hlast hne with
        ⟨e, herror⟩ | ⟨child, issuer, rest, hparse, hselects, hturn⟩
      · rw [herror] at h
        cases h
      · rw [hturn] at h
        obtain ⟨issuers, rfl, hperm, hchain⟩ := ih List.getLast?_concat h
        obtain ⟨candidate, hcandidate, hvalid, hsigned⟩ := issues_eq_true hselects.passes
        refine ⟨issuer :: issuers, by simp, (hperm.cons issuer).trans hselects.perm.symm, ?_⟩
        exact .cons_cons ⟨child, candidate, hparse, hcandidate, hvalid, hsigned⟩ hchain

/-- The order in which the certificates are left does not matter. -/
theorem extendChain_perm (hlast : chain.getLast? = some last)
    (h : extendChain checks fuel chain certificates = some (.ok full))
    (hperm : certificates.Perm certificates') :
    extendChain checks fuel chain certificates' = some (.ok full) := by
  induction fuel generalizing chain last certificates certificates' with
  | zero =>
    cases certificates with
    | nil => rwa [hperm.nil_eq.symm]
    | cons certificate certificates => cases h
  | succ fuel ih =>
    rcases eq_or_ne certificates [] with rfl | hne
    · rwa [hperm.nil_eq.symm]
    · rcases extendChain_turn checks hlast hne with
        ⟨e, herror⟩ | ⟨child, issuer, rest, hparse, hselects, hturn⟩
      · rw [herror] at h
        cases h
      · rw [hturn] at h
        obtain ⟨rest', hrest, hturn'⟩ :=
          extendChain_of_selects hlast hparse (hselects.of_perm hperm)
        rw [hturn']
        exact ih List.getLast?_concat h hrest.symm

/-! ### The whole order -/

theorem leafIndex_selects (h : leafIndex checks keySpki certificates = .ok i) :
    ∃ leaf rest, removeAt certificates i = some (leaf, rest) ∧
      Selects (matchesKey checks keySpki) certificates leaf rest :=
  scanUnique_selects (leafIndex_eq_ok.mp h)

theorem orderCertificateChain_terminates (checks : CertificateChecks Key Cert Parsed)
    (certificates : List Cert) (privateKey : Key) :
    ∃ result, ∀ fuel, certificates.length ≤ fuel →
      orderCertificateChain checks fuel certificates privateKey = some result := by
  unfold orderCertificateChain
  cases checks.privateKeySpki privateKey with
  | error e => exact ⟨.error e, fun _ _ => rfl⟩
  | ok keySpki =>
    simp only
    cases hindex : leafIndex checks keySpki certificates with
    | error e => exact ⟨.error e, fun _ _ => rfl⟩
    | ok i =>
      obtain ⟨leaf, rest, hremove, hselects⟩ := leafIndex_selects hindex
      have hlast : [leaf].getLast? = some leaf := List.getLast?_singleton
      obtain ⟨result, hresult⟩ := extendChain_terminates checks rest hlast
      refine ⟨result, fun fuel hfuel => ?_⟩
      have hlength := hselects.perm.length_eq
      rw [List.length_cons] at hlength
      simp only [hremove]
      exact hresult fuel (by omega)

theorem orderCertificateChain_ok_cases
    (h : orderCertificateChain checks fuel certificates privateKey = some (.ok chain)) :
    ∃ keySpki leaf rest, checks.privateKeySpki privateKey = .ok keySpki ∧
      Selects (matchesKey checks keySpki) certificates leaf rest ∧
      extendChain checks fuel [leaf] rest = some (.ok chain) := by
  unfold orderCertificateChain at h
  split at h
  · cases h
  case h_2 keySpki hkey =>
    split at h
    · cases h
    case h_2 i hindex =>
      obtain ⟨leaf, rest, hremove, hselects⟩ := leafIndex_selects hindex
      rw [hremove] at h
      exact ⟨keySpki, leaf, rest, hkey, hselects, h⟩

theorem orderCertificateChain_perm
    (h : orderCertificateChain checks fuel certificates privateKey = some (.ok chain))
    (hperm : certificates.Perm certificates') :
    orderCertificateChain checks fuel certificates' privateKey = some (.ok chain) := by
  obtain ⟨keySpki, leaf, rest, hkey, hselects, hextend⟩ := orderCertificateChain_ok_cases h
  obtain ⟨i, rest', hscan, hremove, hrest⟩ := (hselects.of_perm hperm).found
    "multiple PKCS12 certificates match the private key".toList
  simp only [orderCertificateChain, hkey, leafIndex_eq_ok.mpr hscan, hremove]
  exact extendChain_perm List.getLast?_singleton hextend hrest.symm

theorem matchesKey_iff (hkey : checks.privateKeySpki privateKey = .ok keySpki)
    {certificate : Cert} :
    matchesKey checks keySpki certificate = .ok true ↔ MatchesKey checks privateKey certificate := by
  rw [matchesKey_eq_ok]
  constructor
  · rintro ⟨parsed, hparse, hequal⟩
    exact ⟨keySpki, parsed, hkey, hparse, beq_iff_eq.mp hequal⟩
  · rintro ⟨keySpki', parsed, hkey', hparse, hequal⟩
    obtain rfl := Except.ok.inj (hkey.symm.trans hkey')
    exact ⟨parsed, hparse, beq_iff_eq.mpr hequal⟩

/-- The order of an archive. The loop ends after as many turns as there are certificates; a chain is
the archive from the only certificate of the key along issuers, and any other arrangement of the
archive gives the same chain or an error as well. -/
theorem chain_ordered_for_every_arrangement (checks : CertificateChecks Key Cert Parsed)
    (certificates : List Cert) (privateKey : Key) :
    ∃ result,
      (∀ fuel, certificates.length ≤ fuel →
        orderCertificateChain checks fuel certificates privateKey = some result) ∧
      (∀ chain, result = .ok chain →
        chain.Perm certificates ∧
        (∃ leaf issuers, chain = leaf :: issuers ∧ MatchesKey checks privateKey leaf ∧
          ∀ certificate ∈ issuers, ¬ MatchesKey checks privateKey certificate) ∧
        chain.IsChain (IssuedBy checks)) ∧
      ∀ certificates', certificates'.Perm certificates →
        ∃ result',
          (∀ fuel, certificates'.length ≤ fuel →
            orderCertificateChain checks fuel certificates' privateKey = some result') ∧
          ((∃ chain, result = .ok chain ∧ result' = .ok chain) ∨
            ∃ e e', result = .error e ∧ result' = .error e') := by
  obtain ⟨result, hresult⟩ := orderCertificateChain_terminates checks certificates privateKey
  refine ⟨result, hresult, ?_, ?_⟩
  · rintro chain rfl
    obtain ⟨keySpki, leaf, rest, hkey, hselects, hextend⟩ :=
      orderCertificateChain_ok_cases (hresult _ le_rfl)
    obtain ⟨issuers, rfl, hperm, hchain⟩ := extendChain_ok List.getLast?_singleton hextend
    refine ⟨(hperm.cons leaf).trans hselects.perm.symm, ⟨leaf, issuers, rfl, ?_, ?_⟩, hchain⟩
    · exact (matchesKey_iff hkey).mp hselects.passes
    · intro certificate hmem hmatches
      have hfails := hselects.others certificate (hperm.subset hmem)
      rw [(matchesKey_iff hkey).mpr hmatches] at hfails
      cases hfails
  · intro certificates' hperm
    obtain ⟨result', hresult'⟩ := orderCertificateChain_terminates checks certificates' privateKey
    refine ⟨result', hresult', ?_⟩
    have hfuel := hresult _ le_rfl
    have hfuel' := hresult' certificates.length hperm.length_eq.le
    rcases result with e | chain
    · rcases result' with e' | chain'
      · exact .inr ⟨e, e', rfl, rfl⟩
      · have hsame := orderCertificateChain_perm hfuel' hperm
        rw [hfuel] at hsame
        cases hsame
    · have hsame := orderCertificateChain_perm hfuel hperm.symm
      rw [hfuel'] at hsame
      exact .inl ⟨chain, rfl, Option.some.inj hsame⟩

end Order

/-- A leaf, an intermediate certificate and a root that signed itself. -/
def archiveChecks : CertificateChecks Bytes Bytes X509Certificate :=
  x509Checks .ok
    (fun
      | [1] => .ok ⟨[11], [12], [21], .ok none, .ok none⟩
      | [2] => .ok ⟨[12], [13], [22], .ok (some true), .ok (some true)⟩
      | [3] => .ok ⟨[13], [13], [23], .ok (some true), .ok none⟩
      | _ => .error "Parsing Error".toList)
    fun child issuer => (child, issuer) ∈ [([1], [2]), ([2], [3]), ([3], [3])]

theorem archive_ordered_alike :
    orderCertificateChain archiveChecks 3 [[3], [1], [2]] [21] = some (.ok [[1], [2], [3]]) ∧
      orderCertificateChain archiveChecks 3 [[2], [3], [1]] [21] = some (.ok [[1], [2], [3]]) := by
  obtain ⟨result, hresult, -, harranged⟩ :=
    chain_ordered_for_every_arrangement archiveChecks [[3], [1], [2]] [21]
  have hfirst : orderCertificateChain archiveChecks 3 [[3], [1], [2]] [21] =
      some (.ok [[1], [2], [3]]) := rfl
  refine ⟨hfirst, ?_⟩
  obtain ⟨result', hresult', ⟨chain, rfl, rfl⟩ | ⟨e, e', rfl, rfl⟩⟩ :=
    harranged [[2], [3], [1]] (by decide)
  · rw [hresult' 3 le_rfl, ← hfirst, hresult 3 le_rfl]
  · exact absurd (hfirst.symm.trans (hresult 3 le_rfl)) (by simp)

end HathRs.CertificateChains
