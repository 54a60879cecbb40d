import HathRs.Digests
import HathRs.SignedIntegers

/-!
# Signed requests: what a key binds and when it is accepted

Four kinds of strings are hashed with the client's key: those of a file request, a server
command, a speed test and a call of the client to the server. The fields are joined by
hyphens and some of them can hold any text.
-/

namespace HathRs.RequestSignatures
open TextParsing Digests MachineArithmetic SignedIntegers

/-! ## Keys and requests -/

/-- A key is twenty ASCII letters and digits. -/
structure ClientKey where
  text : Text
  length_text : text.length = 20
  alphanumeric : text.all Char.isAlphanum = true

def ClientKey.new (s : Text) : Option ClientKey :=
  if h : s.length = 20 ∧ s.all Char.isAlphanum = true then some ⟨s, h.1, h.2⟩ else none

/-- The configuration fields that the signatures read, with the current `server_time()`. -/
structure Config where
  clientId : UInt32
  clientKey : ClientKey
  serverTime : Int64

inductive Action where
  | serverStat
  | clientLogin
  | clientSettings
  | clientStart
  | clientSuspend
  | clientResume
  | clientStop
  | stillAlive
  | getBlacklist
  | getCertificate
  | staticRangeFetch
  | galleryQueueFetch
  | downloaderFetch
  | downloaderFailreport
  | overload
  deriving DecidableEq

namespace Action

def display : Action → Text
  | .serverStat => "server_stat".toList
  | .clientLogin => "client_login".toList
  | .clientSettings => "client_settings".toList
  | .clientStart => "client_start".toList
  | .clientSuspend => "client_suspend".toList
  | .clientResume => "client_resume".toList
  | .clientStop => "client_stop".toList
  | .stillAlive => "still_alive".toList
  | .getBlacklist => "get_blacklist".toList
  | .getCertificate => "get_cert".toList
  | .staticRangeFetch => "srfetch".toList
  | .galleryQueueFetch => "fetchqueue".toList
  | .downloaderFetch => "dlfetch".toList
  | .downloaderFailreport => "dlfails".toList
  | .overload => "overload".toList

def needsSigning : Action → Bool
  | .serverStat => false
  | _ => true

theorem display_inj {a b : Action} (h : a.display = b.display) : a = b := by
  revert h
  cases a <;> cases b <;> decide

theorem hyphen_notMem_display (a : Action) : '-' ∉ a.display := by
  cases a <;> decide

end Action

/-- `utils::sha1_string` -/
def sha1String (sha1 : Bytes → Sha1Digest) (s : Text) : Text := sha1Bytes sha1 (utf8 s)

/-! ## The strings that are hashed -/

/-- What is signed. -/
inductive Signed where
  | keystamp (timestamp : Int64) (fileid : Text)
  | servercmd (command additional : Text) (time : Int64)
  | speedtest (testsize : UInt32) (testtime : Int64)
  | rpc (act : Action) (add : Text) (time : Int64)
  deriving DecidableEq

def keystampPlain (config : Config) (timestamp : Int64) (fileid : Text) : Text :=
  displayI64 timestamp ++ ['-'] ++ fileid ++ ['-'] ++ config.clientKey.text ++
    "-hotlinkthis".toList

def servercmdPlain (config : Config) (command additional : Text) (time : Int64) : Text :=
  "hentai@home-servercmd-".toList ++ command ++ ['-'] ++ additional ++ ['-'] ++
    decimal config.clientId.toNat ++ ['-'] ++ displayI64 time ++ ['-'] ++
    config.clientKey.text

def speedtestPlain (config : Config) (testsize : UInt32) (testtime : Int64) : Text :=
  "hentai@home-speedtest-".toList ++ decimal testsize.toNat ++ ['-'] ++
    displayI64 testtime ++ ['-'] ++ decimal config.clientId.toNat ++ ['-'] ++
    config.clientKey.text

def rpcPlain (config : Config) (act : Action) (add : Text) (time : Int64) : Text :=
  "hentai@home-".toList ++ act.display ++ ['-'] ++ add ++ ['-'] ++
    decimal config.clientId.toNat ++ ['-'] ++ displayI64 time ++ ['-'] ++
    config.clientKey.text

/-- The string that `validate_keystamp`, `validate_servercmd`, `validate_speedtest` or
`make_rpc_query` hashes. -/
def plain (config : Config) : Signed → Text
  | .keystamp timestamp fileid => keystampPlain config timestamp fileid
  | .servercmd command additional time => servercmdPlain config command additional time
  | .speedtest testsize testtime => speedtestPlain config testsize testtime
  | .rpc act add time => rpcPlain config act add time

/-- `CLIENT_BUILD` -/
def clientBuild : ℕ := 178

def makeRpcQuery (sha1 : Bytes → Sha1Digest) (act : Action) (add : Text) (config : Config) : Text :=
  if !act.needsSigning then
    "clientbuild=".toList ++ decimal clientBuild ++ "&act=".toList ++ act.display
  else
    let actkey := sha1String sha1 (rpcPlain config act add config.serverTime)
    "clientbuild=".toList ++ decimal clientBuild ++ "&act=".toList ++ act.display ++
      "&add=".toList ++ add ++ "&cid=".toList ++ decimal config.clientId.toNat ++
      "&acttime=".toList ++ displayI64 config.serverTime ++ "&actkey=".toList ++ actkey

/-! ## Validation -/

section Validation

variable (build : Build) (sha1 : Bytes → Sha1Digest) (config : Config)

def eqIgnoreAsciiCase (s t : Text) : Bool := s.map Char.toLower == t.map Char.toLower

def validateKeystamp (fileid : Text) (keystamp : Option Text) : Except Panic Bool :=
  match keystamp with
  | none => .ok false
  | some keystamp =>
    match splitOnce '-' keystamp with
    | none => .ok false
    | some (timestampStr, providedPrefix) =>
      match parseI64 timestampStr with
      | none => .ok false
      | some timestamp => do
        let distance ← distanceI64 build config.serverTime timestamp
        if 900 ≤ distance.toInt then return false
        else if (utf8 providedPrefix).length ≠ 10 then return false
        else
          let expected := sha1String sha1 (keystampPlain config timestamp fileid)
          return eqIgnoreAsciiCase (expected.take 10) providedPrefix

/-- What `validate_servercmd` and `validate_speedtest` have in common. -/
def validateSigned (time : Int64) (plain key : Text) : Except Panic Bool := do
  let distance ← distanceI64 build time config.serverTime
  if 300 < distance.toInt then return false
  else return sha1String sha1 plain == key

def validateServercmd (command additional : Text) (time : Int64) (key : Text) : Except Panic Bool :=
  validateSigned build sha1 config time (servercmdPlain config command additional time) key

def validateSpeedtest (testsize : UInt32) (testtime : Int64) (testkey : Text) : Except Panic Bool :=
  validateSigned build sha1 config testtime (speedtestPlain config testsize testtime) testkey

structure ServerCommand where
  command : Text
  additional : Text
  valid : Bool

/-- `isFromRpc` is whether the peer is an address that may send commands. -/
def parseServerCommand (urlParts : List Text) (isFromRpc : Bool) : Except Panic ServerCommand :=
  match urlParts with
  | _ :: _ :: command :: additional :: time :: key :: _ => do
    let commandTime := (parseI64 time).getD 0
    let valid ← if isFromRpc then validateServercmd build sha1 config command additional commandTime key
      else pure false
    return ⟨command, additional, valid⟩
  | _ => .ok ⟨[], [], false⟩

structure SpeedTest where
  testsize : UInt32
  valid : Bool
  forbidden : Bool

def parseSpeedTest (urlParts : List Text) : Except Panic SpeedTest :=
  match urlParts with
  | _ :: _ :: testsize :: testtime :: testkey :: _ => do
    let testsize := (parseU32 testsize).getD 0
    let valid ← validateSpeedtest build sha1 config testsize ((parseI64 testtime).getD 0) testkey
    return ⟨testsize, valid, !valid⟩
  | _ => .ok ⟨0, false, false⟩

end Validation

/-- The commands that `handle_server_command` knows. No character outside of ASCII has one of
their letters as its lowercase form. -/
def commands : List Text :=
  ["still_alive".toList, "threaded_proxy_test".toList, "speed_test".toList,
    "refresh_settings".toList, "start_downloader".toList, "refresh_certs".toList]

def isRecognised (command : Text) : Bool := commands.contains (command.map Char.toLower)

section Parsing

variable (build : Build) (sha1 : Bytes → Sha1Digest) (config : Config)

/-- Any time can be asked for in the path of a request. -/
theorem parseServerCommand_of_time (root name command additional key : Text) (time : Int64)
    (rest : List Text) :
    parseServerCommand build sha1 config
        (root :: name :: command :: additional :: displayI64 time :: key :: rest) true =
      (validateServercmd build sha1 config command additional time key).map
        (ServerCommand.mk command additional) := by
  simp only [parseServerCommand, parseI64_displayI64, Option.getD_some, if_true]
  rfl

theorem parseSpeedTest_of_time (root name testkey : Text) (testsize : UInt32) (testtime : Int64)
    (rest : List Text) :
    parseSpeedTest build sha1 config
        (root :: name :: decimal testsize.toNat :: displayI64 testtime :: testkey :: rest) =
      (validateSpeedtest build sha1 config testsize testtime testkey).map fun valid =>
        ⟨testsize, valid, !valid⟩ := by
  simp only [parseSpeedTest, parseI64_displayI64, parseU32_decimal, Option.getD_some]
  rfl

end Parsing

/-! ## The fields are read back from the hashed string -/

inductive Kind where
  | keystamp
  | servercmd
  | speedtest
  | rpc
  deriving DecidableEq

namespace Signed

def kind : Signed → Kind
  | .keystamp .. => .keystamp
  | .servercmd .. => .servercmd
  | .speedtest .. => .speedtest
  | .rpc .. => .rpc

/-- The command of a server command has no hyphen in it. -/
def HyphenFree : Signed → Prop
  | .servercmd command _ _ => '-' ∉ command
  | _ => True

end Signed

section Fields

variable (config : Config)

/-- The common end of the strings of a server command and a client call. -/
def signedTail (add : Text) (time : Int64) : Text :=
  add ++ '-' :: (decimal config.clientId.toNat ++ '-' :: (displayI64 time ++ '-' :: config.clientKey.text))

private theorem hotlinkthis_eq : "-hotlinkthis".toList = '-' :: "hotlinkthis".toList := by decide

private theorem servercmd_start (t : Text) : "hentai@home-servercmd-".toList ++ t =
    "hentai@home".toList ++ '-' :: ("servercmd".toList ++ '-' :: t) := by
  have hstart : "hentai@home-servercmd-".toList =
      "hentai@home".toList ++ '-' :: ("servercmd".toList ++ ['-']) := by decide
  rw [hstart]
  simp only [List.append_assoc, List.cons_append, List.nil_append]

private theorem speedtest_start (t : Text) : "hentai@home-speedtest-".toList ++ t =
    "hentai@home".toList ++ '-' :: ("speedtest".toList ++ '-' :: t) := by
  have hstart : "hentai@home-speedtest-".toList =
      "hentai@home".toList ++ '-' :: ("speedtest".toList ++ ['-']) := by decide
  rw [hstart]
  simp only [List.append_assoc, List.cons_append, List.nil_append]

private theorem rpc_start (t : Text) :
    "hentai@home-".toList ++ t = "hentai@home".toList ++ '-' :: t := by
  have hstart : "hentai@home-".toList = "hentai@home".toList ++ ['-'] := by decide
  rw [hstart, List.append_assoc, List.singleton_append]

theorem plain_keystamp (timestamp : Int64) (fileid : Text) :
    plain config (.keystamp timestamp fileid) =
      displayI64 timestamp ++ '-' :: (fileid ++ '-' :: (config.clientKey.text ++
        '-' :: "hotlinkthis".toList)) := by
  rw [plain, keystampPlain, hotlinkthis_eq]
  simp only [List.append_assoc, List.cons_append, List.nil_append]

theorem plain_servercmd (command additional : Text) (time : Int64) :
    plain config (.servercmd command additional time) =
      "hentai@home".toList ++ '-' :: ("servercmd".toList ++
        '-' :: (command ++ '-' :: signedTail config additional time)) := by
  refine Eq.trans ?_ (servercmd_start _)
  unfold plain servercmdPlain signedTail
  generalize "hentai@home-servercmd-".toList = start
  simp only [List.append_assoc, List.cons_append, List.nil_append]

theorem plain_speedtest (testsize : UInt32) (testtime : Int64) :
    plain config (.speedtest testsize testtime) =
      "hentai@home".toList ++ '-' :: ("speedtest".toList ++
        '-' :: (decimal testsize.toNat ++ '-' :: (displayI64 testtime ++
          '-' :: (decimal config.clientId.toNat ++ '-' :: config.clientKey.text)))) := by
  refine Eq.trans ?_ (speedtest_start _)
  unfold plain speedtestPlain
  generalize "hentai@home-speedtest-".toList = start
  simp only [List.append_assoc, List.cons_append, List.nil_append]

theorem plain_rpc (act : Action) (add : Text) (time : Int64) :
    plain config (.rpc act add time) =
      "hentai@home".toList ++ '-' :: (act.display ++ '-' :: signedTail config add time) := by
  refine Eq.trans ?_ (rpc_start _)
  unfold plain rpcPlain signedTail
  generalize "hentai@home-".toList = start
  simp only [List.append_assoc, List.cons_append, List.nil_append]

theorem hyphen_notMem_clientKey (key : ClientKey) : '-' ∉ key.text := by
  intro hmem
  have halnum := List.all_eq_true.mp key.alphanumeric _ hmem
  exact absurd halnum (by decide)

/-- Every string but that of a file request ends in the key. -/
theorem plain_eq_append_key {s : Signed} (hs : s.kind ≠ .keystamp) :
    ∃ front, plain config s = front ++ '-' :: config.clientKey.text := by
  cases s with
  | keystamp => exact absurd rfl hs
  | servercmd => exact ⟨_, List.append_assoc _ _ _⟩
  | speedtest => exact ⟨_, List.append_assoc _ _ _⟩
  | rpc => exact ⟨_, List.append_assoc _ _ _⟩

/-- That of a file request has its own last field: eleven letters are no key. -/
theorem plain_keystamp_ne (timestamp : Int64) (fileid : Text) {s : Signed}
    (hs : s.kind ≠ .keystamp) : plain config (.keystamp timestamp fileid) ≠ plain config s := by
  intro heq
  obtain ⟨front, hfront⟩ := plain_eq_append_key config hs
  have hlast : plain config (.keystamp timestamp fileid) =
      (displayI64 timestamp ++ '-' :: (fileid ++ '-' :: config.clientKey.text)) ++
        '-' :: "hotlinkthis".toList := by
    rw [plain_keystamp]
    simp
  rw [hlast, hfront] at heq
  obtain ⟨-, hkey⟩ := append_cons_inj_right (by decide) (hyphen_notMem_clientKey _) heq
  have hlength := congrArg List.length hkey
  rw [config.clientKey.length_text] at hlength
  exact absurd hlength (by decide)

theorem signedTail_inj {add add' : Text} {time time' : Int64}
    (h : signedTail config add time = signedTail config add' time') : add = add' ∧ time = time' := by
  have hfront : ∀ (add : Text) (time : Int64), signedTail config add time =
      (add ++ '-' :: (decimal config.clientId.toNat ++ '-' :: displayI64 time)) ++
        '-' :: config.clientKey.text := by
    intro add time
    simp [signedTail]
  rw [hfront, hfront] at h
  exact append_displayI64_inj (List.append_cancel_right h)

/-- Behind the common start stands the name of the command, the test or the action. -/
theorem afterStart_inj {name name' rest rest' : Text} (hname : '-' ∉ name) (hname' : '-' ∉ name')
    (h : "hentai@home".toList ++ '-' :: (name ++ '-' :: rest) =
      "hentai@home".toList ++ '-' :: (name' ++ '-' :: rest')) : name = name' ∧ rest = rest' := by
  obtain ⟨-, hbehind⟩ := append_cons_inj (by decide) (by decide) h
  exact append_cons_inj hname hname' hbehind

theorem display_ne_servercmd (act : Action) : act.display ≠ "servercmd".toList := by
  cases act <;> decide

theorem display_ne_speedtest (act : Action) : act.display ≠ "speedtest".toList := by
  cases act <;> decide

/-- Strings of two kinds are different. -/
theorem kind_eq_of_plain_eq {a b : Signed} (h : plain config a = plain config b) :
    a.kind = b.kind := by
  by_cases ha : a.kind = .keystamp
  · cases a with
    | keystamp timestamp fileid =>
      by_contra hne
      exact plain_keystamp_ne config timestamp fileid (Ne.symm hne) h
    | _ => cases ha
  · cases b with
    | keystamp timestamp fileid => exact absurd h.symm (plain_keystamp_ne config timestamp fileid ha)
    | servercmd command additional time =>
      rw [plain_servercmd] at h
      cases a with
      | keystamp => exact absurd rfl ha
      | servercmd => rfl
      | speedtest testsize testtime =>
        rw [plain_speedtest] at h
        exact absurd (afterStart_inj (by decide) (by decide) h).1 (by decide)
      | rpc act add time =>
        rw [plain_rpc] at h
        exact absurd (afterStart_inj act.hyphen_notMem_display (by decide) h).1
          (display_ne_servercmd act)
    | speedtest testsize testtime =>
      rw [plain_speedtest] at h
      cases a with
      | keystamp => exact absurd rfl ha
      | servercmd command additional time =>
        rw [plain_servercmd] at h
        exact absurd (afterStart_inj (by decide) (by decide) h).1 (by decide)
      | speedtest => rfl
      | rpc act add time =>
        rw [plain_rpc] at h
        exact absurd (afterStart_inj act.hyphen_notMem_display (by decide) h).1
          (display_ne_speedtest act)
    | rpc act add time =>
      rw [plain_rpc] at h
      cases a with
      | keystamp => exact absurd rfl ha
      | servercmd command additional time =>
        rw [plain_servercmd] at h
        exact absurd (afterStart_inj (by decide) act.hyphen_notMem_display h).1.symm
          (display_ne_servercmd act)
      | speedtest testsize testtime =>
        rw [plain_speedtest] at h
        exact absurd (afterStart_inj (by decide) act.hyphen_notMem_display h).1.symm
          (display_ne_speedtest act)
      | rpc => rfl

/-- One string has one set of fields. -/
theorem plain_inj {a b : Signed} (ha : a.HyphenFree) (hb : b.HyphenFree)
    (h : plain config a = plain config b) : a = b := by
  have hkind := kind_eq_of_plain_eq config h
  cases a with
  | keystamp timestamp fileid =>
    cases b with
    | keystamp timestamp' fileid' =>
      rw [plain_keystamp, plain_keystamp] at h
      obtain ⟨rfl, hrest⟩ := displayI64_append_inj h
      rw [List.append_cancel_right hrest]
    | _ => cases hkind
  | servercmd command additional time =>
    cases b with
    | servercmd command' additional' time' =>
      rw [plain_servercmd, plain_servercmd] at h
      obtain ⟨-, hcommand⟩ := afterStart_inj (by decide) (by decide) h
      obtain ⟨rfl, htail⟩ := append_cons_inj ha hb hcommand
      obtain ⟨rfl, rfl⟩ := signedTail_inj config htail
      rfl
    | _ => cases hkind
  | speedtest testsize testtime =>
    cases b with
    | speedtest testsize' testtime' =>
      rw [plain_speedtest, plain_speedtest] at h
      obtain ⟨-, hsize⟩ := afterStart_inj (by decide) (by decide) h
      obtain ⟨hdigits, htime⟩ :=
        append_cons_inj (hyphen_notMem_decimal _) (hyphen_notMem_decimal _) hsize
      obtain ⟨rfl, -⟩ := displayI64_append_inj htime
      rw [UInt32.toNat_inj.mp (decimal_inj hdigits)]
    | _ => cases hkind
  | rpc act add time =>
    cases b with
    | rpc act' add' time' =>
      rw [plain_rpc, plain_rpc] at h
      obtain ⟨hact, htail⟩ :=
        afterStart_inj act.hyphen_notMem_display act'.hyphen_notMem_display h
      obtain ⟨rfl, rfl⟩ := signedTail_inj config htail
      rw [Action.display_inj hact]
    | _ => cases hkind

end Fields

/-! ## What a key is accepted for -/

section Authorization

variable (build : Build) (sha1 : Bytes → Sha1Digest) (config : Config)

/-- The digits of which the key for these fields is made. -/
def digest (s : Signed) : Text := sha1String sha1 (plain config s)

/-- How many of them are compared with the key of a request. -/
def compared : Kind → ℕ
  | .keystamp => 10
  | _ => 40

/-- The fields are accepted with this key. A call of the client is accepted by the server, which
has the whole digest to compare with. -/
def Authorizes (key : Text) : Signed → Prop
  | .keystamp timestamp fileid => ∃ stamp, '-' ∉ stamp ∧ parseI64 stamp = some timestamp ∧
      validateKeystamp build sha1 config fileid (some (stamp ++ '-' :: key)) = .ok true
  | .servercmd command additional time =>
    validateServercmd build sha1 config command additional time key = .ok true
  | .speedtest testsize testtime => validateSpeedtest build sha1 config testsize testtime key = .ok true
  | .rpc act add time => digest sha1 config (.rpc act add time) = key

variable {build sha1 config}

theorem ok_of_validateKeystamp {fileid stamp key : Text} {timestamp : Int64} (hstamp : '-' ∉ stamp)
    (htime : parseI64 stamp = some timestamp)
    (h : validateKeystamp build sha1 config fileid (some (stamp ++ '-' :: key)) = .ok true) :
    ∃ distance, distanceI64 build config.serverTime timestamp = .ok distance ∧
      distance.toInt < 900 ∧
      eqIgnoreAsciiCase ((digest sha1 config (.keystamp timestamp fileid)).take 10) key = true := by
  simp only [validateKeystamp, splitOnce_append hstamp, htime] at h
  cases hdist : distanceI64 build config.serverTime timestamp with
  | error panic =>
    rw [hdist] at h
    cases h
  | ok distance =>
    rw [hdist] at h
    simp only [bind, Except.bind, pure, Except.pure] at h
    split_ifs at h with hfar hlength
    · cases h
    · cases h
    · exact ⟨distance, rfl, not_le.mp hfar, Except.ok.inj h⟩

theorem ok_of_validateSigned {time : Int64} {plain key : Text}
    (h : validateSigned build sha1 config time plain key = .ok true) :
    ∃ distance, distanceI64 build time config.serverTime = .ok distance ∧ distance.toInt ≤ 300 ∧
      sha1String sha1 plain = key := by
  cases hdist : distanceI64 build time config.serverTime with
  | error panic =>
    simp only [validateSigned, hdist, bind, Except.bind] at h
    cases h
  | ok distance =>
    simp only [validateSigned, hdist, bind, Except.bind, pure, Except.pure] at h
    split_ifs at h with hfar
    · cases h
    · exact ⟨distance, rfl, not_lt.mp hfar, beq_iff_eq.mp (Except.ok.inj h)⟩

private theorem toLower_of_isLowerHexChar {c : Char} (h : isLowerHexChar c = true) :
    c.toLower = c := by
  refine dif_neg fun hupper => ?_
  have hlow : 65 ≤ c.toNat := UInt32.le_iff_toNat_le.mp hupper.1
  have hhigh : c.toNat ≤ 90 := UInt32.le_iff_toNat_le.mp hupper.2
  simp only [isLowerHexChar, Bool.or_eq_true, Bool.and_eq_true, decide_eq_true_eq] at h
  omega

/-- The digits of a digest are in lower case. -/
theorem eq_of_eqIgnoreAsciiCase {s : Signed} {n : ℕ} {key : Text}
    (h : eqIgnoreAsciiCase ((digest sha1 config s).take n) key = true) :
    (digest sha1 config s).take n = key.map Char.toLower := by
  have hlower : ((digest sha1 config s).take n).map Char.toLower = (digest sha1 config s).take n := by
    refine (List.map_congr_left fun c hc => ?_).trans (List.map_id _)
    exact toLower_of_isLowerHexChar (isLowerHexChar_of_mem_hexEncode (List.mem_of_mem_take hc))
  rw [← hlower]
  exact beq_iff_eq.mp h

/-- What a signed call of the client ends in is made of its fields and the server's time. -/
theorem makeRpcQuery_actkey {act : Action} (hsigned : act.needsSigning = true) (add : Text) :
    ∃ front, makeRpcQuery sha1 act add config =
      front ++ "&actkey=".toList ++ digest sha1 config (.rpc act add config.serverTime) := by
  simp only [makeRpcQuery, hsigned, Bool.not_true, Bool.false_eq_true, if_false]
  exact ⟨_, rfl⟩

theorem length_digest (sha1 : Bytes → Sha1Digest) (config : Config) (s : Signed) :
    (digest sha1 config s).length = 40 := length_sha1Bytes _ _

theorem eqIgnoreAsciiCase_refl (t : Text) : eqIgnoreAsciiCase t t = true := beq_self_eq_true _

/-- An accepted key has the digits that are compared. -/
theorem digits_of_authorizes {asked : Signed} {key : Text}
    (h : Authorizes build sha1 config key asked) :
    (digest sha1 config asked).take (compared asked.kind) = key.map Char.toLower := by
  have hwhole : digest sha1 config asked = key →
      (digest sha1 config asked).take 40 = key.map Char.toLower := by
    rintro rfl
    apply eq_of_eqIgnoreAsciiCase
    rw [List.take_of_length_le (length_digest sha1 config asked).le]
    exact eqIgnoreAsciiCase_refl _
  cases asked with
  | keystamp timestamp fileid =>
    obtain ⟨stamp, hstamp, htime, hvalid⟩ := h
    obtain ⟨-, -, -, hdigits⟩ := ok_of_validateKeystamp hstamp htime hvalid
    exact eq_of_eqIgnoreAsciiCase hdigits
  | servercmd command additional time =>
    obtain ⟨-, -, -, hkey⟩ := ok_of_validateSigned h
    exact hwhole hkey
  | speedtest testsize testtime =>
    obtain ⟨-, -, -, hkey⟩ := ok_of_validateSigned h
    exact hwhole hkey
  | rpc act add time => exact hwhole h

/-- A key that is read off the digest of other fields has the same digits there. -/
theorem digits_of_issued {issued asked : Signed} {key : Text} {n : ℕ}
    (hissued : eqIgnoreAsciiCase ((digest sha1 config issued).take n) key = true)
    (hasked : Authorizes build sha1 config key asked) :
    (digest sha1 config issued).take (compared asked.kind) =
      (digest sha1 config asked).take (compared asked.kind) := by
  have hsame : (digest sha1 config issued).take n =
      (digest sha1 config asked).take (compared asked.kind) :=
    (eq_of_eqIgnoreAsciiCase hissued).trans (digits_of_authorizes hasked).symm
  have hle : compared asked.kind ≤ 40 := by
    cases asked.kind <;> decide
  have hlength := congrArg List.length hsame
  rw [List.length_take, List.length_take, length_digest, length_digest, min_eq_left hle] at hlength
  rw [← hsame, ← hlength, ← length_digest sha1 config issued, ← List.take_eq_take_min]

/-- No recognised command has a hyphen in it. -/
theorem hyphen_notMem_of_isRecognised {command : Text} (h : isRecognised command = true) :
    '-' ∉ command := by
  intro hmem
  have hall : commands.all (fun c => !c.contains '-') = true := by decide
  have hlower : '-' ∈ command.map Char.toLower := List.mem_map.mpr ⟨'-', hmem, by decide⟩
  have hfree := List.all_eq_true.mp hall _ (List.contains_iff_mem.mp h)
  simp [hlower] at hfree

end Authorization

/-- For any client id and key, the hashed string tells the kind and, when the command of a server
command has no hyphen, the fields. So a key that is read off the digest of some fields is
accepted for no other kind and for no other fields, unless the digests of the two strings agree in
the digits that are compared. The key of a signed call of the client is the digest of the string
for its fields at the server's time. -/
theorem signature_binds_fields (config : Config) :
    (∀ a b, plain config a = plain config b →
      a.kind = b.kind ∧ (a.HyphenFree → b.HyphenFree → a = b)) ∧
    (∀ command, isRecognised command = true → '-' ∉ command) ∧
    (∀ (sha1 : Bytes → Sha1Digest) (act : Action) (add : Text), act.needsSigning = true →
      ∃ front, makeRpcQuery sha1 act add config =
        front ++ "&actkey=".toList ++ digest sha1 config (.rpc act add config.serverTime)) ∧
    ∀ (build : Build) (sha1 : Bytes → Sha1Digest) (issued asked : Signed) (key : Text) (n : ℕ),
      ((digest sha1 config issued).take (compared asked.kind) =
          (digest sha1 config asked).take (compared asked.kind) →
        plain config issued = plain config asked) →
      eqIgnoreAsciiCase ((digest sha1 config issued).take n) key = true →
      Authorizes build sha1 config key asked →
      issued.kind = asked.kind ∧ (issued.HyphenFree → asked.HyphenFree → issued = asked) := by
  have hplain : ∀ a b, plain config a = plain config b →
      a.kind = b.kind ∧ (a.HyphenFree → b.HyphenFree → a = b) := fun a b h =>
    ⟨kind_eq_of_plain_eq config h, fun ha hb => plain_inj config ha hb h⟩
  refine ⟨hplain, fun command => hyphen_notMem_of_isRecognised,
    fun sha1 act add hsigned => makeRpcQuery_actkey hsigned add, ?_⟩
  intro build sha1 issued asked key n hfree hissued hasked
  exact hplain issued asked (hfree (digits_of_issued hissued hasked))

/-! ## A key for a server command -/

def sampleConfig : Config where
  clientId := 12345
  clientKey := ⟨"abcdefghij0123456789".toList, by decide, by decide⟩
  serverTime := 1700000000

def sampleCommand : Signed := .servercmd "refresh_certs".toList [] 1700000000

/-- The SHA-1 digest of the string for `sampleCommand`. -/
def sampleDigest (_ : Bytes) : Sha1Digest :=
  #v[0xf7, 0x47, 0x0a, 0x36, 0xf4, 0x8e, 0x49, 0xa3, 0x64, 0x0c, 0x7f, 0x09, 0x08, 0x5c, 0x6f,
    0x03, 0x15, 0xfd, 0x13, 0x8d]

def sampleKey : Text := "f7470a36f48e49a3640c7f09085c6f0315fd138d".toList

/-- The same digest for that string, and another one for every other. -/
def markedDigest (bytes : Bytes) : Sha1Digest :=
  if bytes = utf8 (plain sampleConfig sampleCommand) then sampleDigest bytes else .replicate 20 0

/-- No other string has the digits of the command's. -/
theorem plain_of_markedDigest (asked : Signed)
    (h : (digest markedDigest sampleConfig sampleCommand).take (compared asked.kind) =
      (digest markedDigest sampleConfig asked).take (compared asked.kind)) :
    plain sampleConfig sampleCommand = plain sampleConfig asked := by
  by_cases hsame : utf8 (plain sampleConfig asked) = utf8 (plain sampleConfig sampleCommand)
  · have htexts := congrArg fromUtf8 hsame
    rw [fromUtf8_utf8, fromUtf8_utf8] at htexts
    exact (Option.some.inj htexts).symm
  · have hzero : digest markedDigest sampleConfig asked = sha1Bytes (fun _ => .replicate 20 0) [] := by
      rw [digest, sha1String, sha1Bytes, markedDigest, if_neg hsame]
      rfl
    have hkey : digest markedDigest sampleConfig sampleCommand = sampleKey := by
      rw [digest, sha1String, sha1Bytes, markedDigest, if_pos rfl]
      rfl
    rw [hzero, hkey] at h
    have hdiffer : ∀ kind, sampleKey.take (compared kind) ≠
        (sha1Bytes (fun _ => .replicate 20 0) []).take (compared kind) := by
      intro kind
      cases kind <;> decide
    exact absurd h (hdiffer asked.kind)

/-- The key of the command is accepted for it, and for nothing else that has no hyphen in its command. -/
theorem sampleKey_binds :
    Authorizes .release markedDigest sampleConfig sampleKey sampleCommand ∧
      '-' ∉ "refresh_certs".toList ∧
      ∀ asked : Signed, asked.HyphenFree →
        (Authorizes .release markedDigest sampleConfig sampleKey asked ↔ asked = sampleCommand) := by
  have hauth : Authorizes .release markedDigest sampleConfig sampleKey sampleCommand := rfl
  have hissued : eqIgnoreAsciiCase ((digest markedDigest sampleConfig sampleCommand).take 40)
      sampleKey = true := rfl
  obtain ⟨-, hrecognised, -, hbinds⟩ := signature_binds_fields sampleConfig
  have hfree := hrecognised "refresh_certs".toList (by decide)
  refine ⟨hauth, hfree, fun asked hasked => ⟨fun hkey => ?_, fun heq => heq ▸ hauth⟩⟩
  obtain ⟨-, hfields⟩ := hbinds .release markedDigest sampleCommand asked sampleKey 40
    (plain_of_markedDigest asked) hissued hkey
  exact (hfields hfree hasked).symm

/-! ## Time windows -/

section Windows

variable (config : Config)

/-- Whatever the key stamp, no build stops and an accepted one has a time in the window. -/
def KeystampInWindow : Prop :=
  ∀ (build : Build) (sha1 : Bytes → Sha1Digest) (fileid : Text) (keystamp : Option Text),
    ∃ accepted, validateKeystamp build sha1 config fileid keystamp = .ok accepted ∧
      (accepted = true → ∃ stamp key timestamp, keystamp = some (stamp ++ '-' :: key) ∧
        parseI64 stamp = some timestamp ∧ |config.serverTime.toInt - timestamp.toInt| < 900)

/-- No build stops at a server command with this time, which is accepted in the window only. -/
def ServercmdInWindow (time : Int64) : Prop :=
  ∀ (build : Build) (sha1 : Bytes → Sha1Digest) (command additional key : Text),
    ∃ accepted, validateServercmd build sha1 config command additional time key = .ok accepted ∧
      (accepted = true → |time.toInt - config.serverTime.toInt| ≤ 300)

/-- The same for a speed test. -/
def SpeedtestInWindow (testtime : Int64) : Prop :=
  ∀ (build : Build) (sha1 : Bytes → Sha1Digest) (testsize : UInt32) (testkey : Text),
    ∃ accepted, validateSpeedtest build sha1 config testsize testtime testkey = .ok accepted ∧
      (accepted = true → |testtime.toInt - config.serverTime.toInt| ≤ 300)

variable {config}

/-- The time of a key stamp has no sign, so that its difference from the server's fits. -/
theorem keystampInWindow (hlow : 0 ≤ config.serverTime.toInt)
    (hhigh : config.serverTime.toInt ≤ 2 ^ 40) : KeystampInWindow config := by
  intro build sha1 fileid keystamp
  cases keystamp with
  | none => exact ⟨false, rfl, nofun⟩
  | some keystamp =>
    cases hsplit : splitOnce '-' keystamp with
    | none => exact ⟨false, by simp only [validateKeystamp, hsplit], nofun⟩
    | some fields =>
      obtain ⟨stamp, key⟩ := fields
      cases htime : parseI64 stamp with
      | none => exact ⟨false, by simp only [validateKeystamp, hsplit, htime], nofun⟩
      | some timestamp =>
        have hpos := nonneg_of_parseI64 htime (notMem_of_splitOnce hsplit)
        have hmax := timestamp.toInt_lt
        obtain ⟨distance, hdist, habs⟩ :=
          distanceI64_of_fits build (a := config.serverTime) (b := timestamp) (by omega) (by omega)
        simp only [validateKeystamp, hsplit, htime, hdist, bind, Except.bind, pure, Except.pure]
        split_ifs with hfar hlength
        · exact ⟨false, rfl, nofun⟩
        · exact ⟨false, rfl, nofun⟩
        · exact ⟨_, rfl, fun _ => ⟨stamp, key, timestamp, by rw [eq_append_of_splitOnce hsplit], htime,
            habs ▸ not_le.mp hfar⟩⟩

theorem validateSigned_of_fits (hlow : 0 ≤ config.serverTime.toInt) {time : Int64}
    (htime : config.serverTime.toInt - 2 ^ 63 < time.toInt) (build : Build)
    (sha1 : Bytes → Sha1Digest) (plain key : Text) :
    ∃ accepted, validateSigned build sha1 config time plain key = .ok accepted ∧
      (accepted = true → |time.toInt - config.serverTime.toInt| ≤ 300) := by
  have hmax := time.toInt_lt
  obtain ⟨distance, hdist, habs⟩ :=
    distanceI64_of_fits build (a := time) (b := config.serverTime) (by omega) (by omega)
  simp only [validateSigned, hdist, bind, Except.bind, pure, Except.pure]
  split_ifs with hfar
  · exact ⟨false, rfl, nofun⟩
  · exact ⟨_, rfl, fun _ => habs ▸ not_lt.mp hfar⟩

theorem validateSigned_debug_of_overflow {time : Int64}
    (htime : time.toInt ≤ config.serverTime.toInt - 2 ^ 63) (sha1 : Bytes → Sha1Digest)
    (plain key : Text) : validateSigned .debug sha1 config time plain key = .error .overflow := by
  have hdist : distanceI64 .debug time config.serverTime = .error .overflow :=
    distanceI64_debug_of_overflow (by omega)
  simp only [validateSigned, hdist, bind, Except.bind]

end Windows

/-- The windows of all three requests are kept, except at the times of a server command or a speed
test that lie `2^63` seconds or more before the server's. -/
theorem windows_enforced_iff {config : Config} (hlow : 0 ≤ config.serverTime.toInt)
    (hhigh : config.serverTime.toInt ≤ 2 ^ 40) :
    KeystampInWindow config ∧ ∀ time : Int64,
      (ServercmdInWindow config time ↔ config.serverTime.toInt - 2 ^ 63 < time.toInt) ∧
      (SpeedtestInWindow config time ↔ config.serverTime.toInt - 2 ^ 63 < time.toInt) := by
  refine ⟨keystampInWindow hlow hhigh, fun time => ⟨⟨fun hwindow => ?_, fun htime => ?_⟩,
    ⟨fun hwindow => ?_, fun htime => ?_⟩⟩⟩
  · by_contra hearly
    obtain ⟨accepted, hok, -⟩ := hwindow .debug sampleDigest [] [] []
    rw [validateServercmd, validateSigned_debug_of_overflow (not_lt.mp hearly)] at hok
    cases hok
  · intro build sha1 command additional key
    exact validateSigned_of_fits hlow htime build sha1 _ key
  · by_contra hearly
    obtain ⟨accepted, hok, -⟩ := hwindow .debug sampleDigest 0 []
    rw [validateSpeedtest, validateSigned_debug_of_overflow (not_lt.mp hearly)] at hok
    cases hok
  · intro build sha1 testsize testkey
    exact validateSigned_of_fits hlow htime build sha1 _ testkey

theorem windows_enforced_at_sample :
    0 ≤ sampleConfig.serverTime.toInt ∧ sampleConfig.serverTime.toInt ≤ 2 ^ 40 ∧
      ServercmdInWindow sampleConfig (-9223372035154775807) := by
  have hlow : 0 ≤ sampleConfig.serverTime.toInt := by decide
  have hhigh : sampleConfig.serverTime.toInt ≤ 2 ^ 40 := by decide
  exact ⟨hlow, hhigh, ((windows_enforced_iff hlow hhigh).2 _).1.mpr (by decide)⟩

/-- The SHA-1 digest of the string for a speed test of a million bytes at the time
`1700000000 - 2^63`. -/
def wrappedDigest (_ : Bytes) : Sha1Digest :=
  #v[0x3b, 0xca, 0xda, 0x50, 0xc6, 0x2f, 0x8c, 0x8f, 0xd8, 0x01, 0x25, 0xe5, 0xf3, 0x2e, 0x51,
    0xf7, 0x18, 0xe2, 0x32, 0xea]

def wrappedKey : Text := "3bcada50c62f8c8fd80125e5f32e51f718e232ea".toList

/-- There the difference is the least number of 64 bits: a debug build stops and a release build
finds the test in time. Both come from a path, and so does a command at that time with any key. -/
theorem speedtest_at_wrapped_time :
    validateSpeedtest .debug wrappedDigest sampleConfig 1000000 (-9223372035154775808) wrappedKey =
        .error .overflow ∧
      validateSpeedtest .release wrappedDigest sampleConfig 1000000 (-9223372035154775808) wrappedKey =
        .ok true ∧
      parseSpeedTest .release wrappedDigest sampleConfig
        [[], "t".toList, "1000000".toList, "-9223372035154775808".toList, wrappedKey] =
        .ok ⟨1000000, true, false⟩ ∧
      (∀ key, parseServerCommand .debug wrappedDigest sampleConfig
        [[], "servercmd".toList, "still_alive".toList, [], "-9223372035154775808".toList, key] true =
        .error .overflow) ∧
      ¬ SpeedtestInWindow sampleConfig (-9223372035154775808) := by
  have hsize : "1000000".toList = decimal (1000000 : UInt32).toNat := by decide
  have htime : "-9223372035154775808".toList = displayI64 (-9223372035154775808) := by decide
  refine ⟨rfl, rfl, ?_, fun key => ?_, fun hwindow => ?_⟩
  · rw [hsize, htime, parseSpeedTest_of_time]
    rfl
  · rw [htime, parseServerCommand_of_time]
    rfl
  obtain ⟨accepted, hok, hin⟩ := hwindow .release wrappedDigest 1000000 wrappedKey
  cases hok
  exact absurd (hin rfl) (by decide)

end HathRs.RequestSignatures
