import HathRs.ClientSettings
import HathRs.Paths
import HathRs.ReadCopyUpdates
import HathRs.RequestSignatures

/-!
# The configuration under concurrent server responses

The configuration is loaded once and is then one shared value. Every response of the server that
carries settings is applied to a copy of it, which then replaces the value if nobody else has
replaced it in the meantime. A response that asks for a newer client ends the process. The
credentials are written below the data directory of the configuration, which a response can move,
and read below that of the command line.
-/

namespace HathRs
open TextParsing HashMaps IpAddresses GalleryListings MachineArithmetic SignedIntegers
open RequestSignatures ReadCopyUpdates TransitionRuns

/-- `CliArgs`: the whole record, with the defaults of the command line. -/
structure ClientArgs where
  clientId : Option UInt32 := none
  clientKey : Option Text := none
  dataDir : Text := "data".toList
  logDir : Text := "log".toList
  cacheDir : Text := "cache".toList
  tempDir : Text := "tmp".toList
  downloadDir : Text := "download".toList
  port : Option UInt16 := none
  verifyCache : Option Bool := none
  useLessMemory : Option Bool := none
  disableLogging : Option Bool := none
  disableBwm : Option Bool := none
  disableDownloadBwm : Option Bool := none
  disableFileVerification : Option Bool := none
  disableIpOriginCheck : Option Bool := none
  disableFloodControl : Option Bool := none
  skipFreeSpaceCheck : Option Bool := none
  flushLogs : Option Bool := none
  maxConnections : Option UInt32 := none
  filesystemBlocksize : Option UInt64 := none
  imageProxyType : Option Text := none
  imageProxyHost : Option Text := none
  imageProxyPort : Option UInt16 := none

/-- `Config`: the whole record. -/
structure ClientConfig where
  clientId : UInt32
  clientKey : ClientKey
  dataDir : Text
  logDir : Text
  cacheDir : Text
  tempDir : Text
  downloadDir : Text
  clientPort : UInt16
  serverTimeDelta : Int64
  throttleBytes : UInt32
  disklimitBytes : UInt64
  diskremainingBytes : UInt64
  filesystemBlocksize : UInt64
  maxAllowedFilesize : UInt64
  maxFilenameLength : UInt32
  rpcServers : List IpAddr
  rpcPort : UInt16
  rpcPath : Text
  staticRanges : HashMap Text UInt8
  staticRangeCount : UInt32
  verifyCache : Bool
  rescanCache : Bool
  useLessMemory : Bool
  disableLogging : Bool
  disableBwm : Bool
  disableDownloadBwm : Bool
  disableFileVerification : Bool
  disableIpOriginCheck : Bool
  disableFloodControl : Bool
  skipFreeSpaceCheck : Bool
  flushLogs : Bool
  warnNewClient : Bool
  imageProxyType : Option Text
  imageProxyHost : Option Text
  imageProxyPort : Option UInt16
  clientHost : Text
  overrideConns : UInt32

namespace ClientConfig

/-! ## Credentials and defaults -/

/-- The content of `client_login`, cut at the first hyphen. -/
def parseLogin (content : Text) : Except String (UInt32 × ClientKey) :=
  match splitOnce '-' (ClientSettings.trim content) with
  | some (idStr, keyStr) => do
    let id ← required (parseU32 idStr) "invalid client ID in client_login"
    let key ← required (ClientKey.new (ClientSettings.trim keyStr))
      "invalid client key in client_login"
    pure (id, key)
  | none => .error "malformed client_login file"

/-- What reading the file at a path gives, if there is one. -/
abbrev Files := List Paths.Component → Option (Except String Text)

/-- The file `client_login` of a data directory. -/
def loginFile (dataDir : Text) : List Paths.Component :=
  Paths.components (Paths.push dataDir "client_login".toList)

/-- Both from the command line, or from the file below its data directory. -/
def credentials (args : ClientArgs) (files : Files) : Except String (UInt32 × ClientKey) :=
  match args.clientId, args.clientKey with
  | some id, some keyStr => do
    let key ← required (ClientKey.new keyStr)
      "client key must be exactly 20 alphanumeric characters"
    pure (id, key)
  | _, _ =>
    match files (loginFile args.dataDir) with
    | some (.ok content) => parseLogin content
    | some (.error e) => .error ("cannot read client_login: " ++ e)
    | none => .error ("No credentials found. Provide --client-id/--client-key or place " ++
        "client_login file in data dir.")

/-- `Config::load` -/
def load (args : ClientArgs) (files : Files) : Except String ClientConfig := do
  let (id, key) ← credentials args files
  pure {
    clientId := id
    clientKey := key
    dataDir := args.dataDir
    logDir := args.logDir
    cacheDir := args.cacheDir
    tempDir := args.tempDir
    downloadDir := args.downloadDir
    clientPort := args.port.getD 0
    serverTimeDelta := 0
    throttleBytes := 0
    disklimitBytes := 0
    diskremainingBytes := 0
    filesystemBlocksize := args.filesystemBlocksize.getD 4096
    maxAllowedFilesize := 1073741824
    maxFilenameLength := 125
    rpcServers := []
    rpcPort := 80
    rpcPath := "15/rpc?".toList
    staticRanges := ∅
    staticRangeCount := 0
    verifyCache := args.verifyCache.getD false
    rescanCache := args.verifyCache.getD false
    useLessMemory := args.useLessMemory.getD false
    disableLogging := args.disableLogging.getD false
    disableBwm := args.disableBwm.getD false
    disableDownloadBwm := args.disableDownloadBwm.getD false
    disableFileVerification := args.disableFileVerification.getD false
    disableIpOriginCheck := args.disableIpOriginCheck.getD false
    disableFloodControl := args.disableFloodControl.getD false
    skipFreeSpaceCheck := args.skipFreeSpaceCheck.getD false
    flushLogs := args.flushLogs.getD false
    warnNewClient := false
    imageProxyType := args.imageProxyType
    imageProxyHost := args.imageProxyHost
    imageProxyPort := args.imageProxyPort
    clientHost := []
    overrideConns := args.maxConnections.getD 0 }

def loginText (c : ClientConfig) : Text := decimal c.clientId.toNat ++ '-' :: c.clientKey.text

/-- `ensure_dir`: a file in the place of the directory is removed. -/
def ensureDir (files : Files) (dir : Text) : Files := Function.update files (Paths.components dir) none

/-- `save_client_login`, below the data directory of the configuration. The outcome is that of its
writes, and a failed one can leave anything under the name. -/
def saveClientLogin (c : ClientConfig) (files : Files)
    (outcome : Except (Option (Except String Text)) Unit) : Files :=
  Function.update (ensureDir files c.dataDir) (loginFile c.dataDir)
    (match outcome with
    | .ok () => some (.ok c.loginText)
    | .error left => left)

/-! ## Settings -/

def clientBuild : ℤ := 178

/-- The settings that `apply_setting` knows. -/
inductive Setting where
  | minClientBuild
  | curClientBuild
  | serverTime
  | rpcServerPort
  | rpcServerIp
  | rpcPath
  | host
  | port
  | throttleBytes
  | disklimitBytes
  | diskremainingBytes
  | filesystemBlocksize
  | rescanCache
  | verifyCache
  | useLessMemory
  | disableLogging
  | disableBwm
  | disableDownloadBwm
  | disableFileVerification
  | disableIpOriginCheck
  | disableFloodControl
  | skipFreeSpaceCheck
  | flushLogs
  | maxConnections
  | maxAllowedFilesize
  | maxFilenameLength
  | staticRanges
  | staticRangeCount
  | cacheDir
  | tempDir
  | dataDir
  | logDir
  | downloadDir
  | imageProxyType
  | imageProxyHost
  | imageProxyPort
  deriving DecidableEq

def settingNames : List (String × Setting) :=
  [("min_client_build", .minClientBuild), ("cur_client_build", .curClientBuild),
   ("server_time", .serverTime), ("rpc_server_port", .rpcServerPort),
   ("rpc_server_ip", .rpcServerIp), ("rpc_path", .rpcPath), ("host", .host), ("port", .port),
   ("throttle_bytes", .throttleBytes), ("disklimit_bytes", .disklimitBytes),
   ("diskremaining_bytes", .diskremainingBytes), ("filesystem_blocksize", .filesystemBlocksize),
   ("rescan_cache", .rescanCache), ("verify_cache", .verifyCache),
   ("use_less_memory", .useLessMemory), ("disable_logging", .disableLogging),
   ("disable_bwm", .disableBwm), ("disable_download_bwm", .disableDownloadBwm),
   ("disable_file_verification", .disableFileVerification),
   ("disable_ip_origin_check", .disableIpOriginCheck),
   ("disable_flood_control", .disableFloodControl), ("skip_free_space_check", .skipFreeSpaceCheck),
   ("flush_logs", .flushLogs), ("max_connections", .maxConnections),
   ("max_allowed_filesize", .maxAllowedFilesize), ("max_filename_length", .maxFilenameLength),
   ("static_ranges", .staticRanges), ("static_range_count", .staticRangeCount),
   ("cache_dir", .cacheDir), ("temp_dir", .tempDir), ("data_dir", .dataDir), ("log_dir", .logDir),
   ("download_dir", .downloadDir), ("image_proxy_type", .imageProxyType),
   ("image_proxy_host", .imageProxyHost), ("image_proxy_port", .imageProxyPort)]

/-- A hyphen in the name counts as an underscore. -/
def Setting.ofName (name : Text) : Option Setting :=
  let name := name.map fun c => if c = '-' then '_' else c
  (settingNames.find? fun entry => entry.1.toList = name).map Prod.snd

/-- Why a response is not applied: the process ends, or the thread does. -/
inductive Stop where
  | exit
  | panic (reason : Panic)
  deriving DecidableEq

def parseU16 (value : Text) : Option UInt16 := (parseUnsigned (2 ^ 16) value).map UInt16.ofNat

def parseI32 (value : Text) : Option ℤ :=
  ((parseI64 value).map Int64.toInt).filter fun n => -2 ^ 31 ≤ n ∧ n < 2 ^ 31

def isTrue (value : Text) : Bool := value = "true".toList

/-- One turn over the value of `static_ranges`. -/
def addStaticRange (build : Build) (c : ClientConfig) (range : Text) :
    Except Panic ClientConfig :=
  if (utf8 range).length = 4 then do
    let count ← addU32 build c.staticRangeCount 1
    pure { c with staticRangeCount := count, staticRanges := c.staticRanges.insert range 1 }
  else pure c

def liftPanic {α : Type} : Except Panic α → Except Stop α
  | .ok a => .ok a
  | .error reason => .error (.panic reason)

section

-- `str::to_lowercase`
variable (toLowercase : Text → Text) (build : Build)

/-- `apply_setting`, behind the name. `now` is the clock of the machine in seconds. -/
def alter (now : Int64) (c : ClientConfig) (value : Text) : Setting → Except Stop ClientConfig
  | .minClientBuild =>
    if (parseI32 value).any (clientBuild < ·) then .error .exit else .ok c
  | .curClientBuild =>
    .ok (if (parseI32 value).any (178 < ·) then { c with warnNewClient := true } else c)
  | .serverTime =>
    match parseI64 value with
    | some st => liftPanic do pure { c with serverTimeDelta := ← subI64 build st now }
    | none => .ok c
  | .rpcServerPort => .ok { c with rpcPort := (parseU16 value).getD 80 }
  | .rpcServerIp => .ok { c with rpcServers := ClientSettings.rpcServerIp value }
  | .rpcPath => .ok { c with rpcPath := value }
  | .host =>
    .ok { c with clientHost :=
      ((parseIp value).map fun ip => (ClientSettings.normalizeIp ip).display).getD value }
  | .port =>
    .ok (if c.clientPort = 0 then { c with clientPort := (parseU16 value).getD 0 } else c)
  | .throttleBytes => .ok { c with throttleBytes := (parseU32 value).getD 0 }
  | .disklimitBytes =>
    let newLimit := (parseU64 value).getD 0
    .ok (if c.disklimitBytes ≤ newLimit then { c with disklimitBytes := newLimit } else c)
  | .diskremainingBytes => .ok { c with diskremainingBytes := (parseU64 value).getD 0 }
  | .filesystemBlocksize =>
    .ok { c with filesystemBlocksize := ClientSettings.clampBlocksize ((parseU64 value).getD 4096) }
  | .rescanCache => .ok { c with rescanCache := isTrue value }
  | .verifyCache => .ok { c with verifyCache := isTrue value, rescanCache := isTrue value }
  | .useLessMemory => .ok { c with useLessMemory := isTrue value }
  | .disableLogging => .ok { c with disableLogging := isTrue value }
  | .disableBwm => .ok { c with disableBwm := isTrue value, disableDownloadBwm := isTrue value }
  | .disableDownloadBwm => .ok { c with disableDownloadBwm := isTrue value }
  | .disableFileVerification => .ok { c with disableFileVerification := isTrue value }
  | .disableIpOriginCheck => .ok { c with disableIpOriginCheck := isTrue value }
  | .disableFloodControl => .ok { c with disableFloodControl := isTrue value }
  | .skipFreeSpaceCheck => .ok { c with skipFreeSpaceCheck := isTrue value }
  | .flushLogs => .ok { c with flushLogs := isTrue value }
  | .maxConnections => .ok { c with overrideConns := (parseU32 value).getD 0 }
  | .maxAllowedFilesize => .ok { c with maxAllowedFilesize := (parseU64 value).getD 1073741824 }
  | .maxFilenameLength => .ok { c with maxFilenameLength := (parseU32 value).getD 125 }
  | .staticRanges =>
    liftPanic ((value.splitOn ';').foldlM (addStaticRange build)
      { c with staticRanges := ∅, staticRangeCount := 0 })
  | .staticRangeCount =>
    .ok { c with staticRangeCount := (parseU32 value).getD c.staticRangeCount }
  | .cacheDir => .ok { c with cacheDir := value }
  | .tempDir => .ok { c with tempDir := value }
  | .dataDir => .ok { c with dataDir := value }
  | .logDir => .ok { c with logDir := value }
  | .downloadDir => .ok { c with downloadDir := value }
  | .imageProxyType => .ok { c with imageProxyType := some (toLowercase value) }
  | .imageProxyHost => .ok { c with imageProxyHost := some (toLowercase value) }
  | .imageProxyPort => .ok { c with imageProxyPort := parseU16 value }

/-- An unknown setting is left out with a warning. -/
def applySetting (now : Int64) (c : ClientConfig) (setting value : Text) :
    Except Stop ClientConfig :=
  match Setting.ofName setting with
  | some known => alter toLowercase build now c value known
  | none => .ok c

/-- The line `key=value`; other lines are left out. -/
def applyLine (now : Int64) (c : ClientConfig) (line : Text) : Except Stop ClientConfig :=
  match splitOnce '=' line with
  | some (key, value) => applySetting toLowercase build now c (toLowercase key) value
  | none => .ok c

/-- The clock is read anew at every line that needs it. -/
def applyServerSettings (clock : ℕ → Int64) (c : ClientConfig) (lines : List Text) :
    Except Stop ClientConfig :=
  lines.zipIdx.foldlM (fun c line => applyLine toLowercase build (clock line.2) c line.1) c

/-- The closure of `apply_server_response`. It does not return when the process or the thread
ends. -/
def updated (lines : List Text) (clock : ℕ → Int64) (c : ClientConfig) : Option ClientConfig :=
  (applyServerSettings toLowercase build clock c lines).toOption

/-- Any number of calls of `apply_server_response` on one configuration. -/
def applyServerResponse :
    ReadCopyUpdates.State (List Text) ClientConfig (ℕ → Int64) →
      Event (List Text) (ℕ → Int64) →
      Option (ReadCopyUpdates.State (List Text) ClientConfig (ℕ → Int64)) :=
  step (updated toLowercase build)

/-! ## What a response leaves of the configuration -/

/-- The values that the lines give to a setting, in their order. -/
def sent (setting : Setting) (lines : List Text) : List Text :=
  lines.filterMap fun line => (splitOnce '=' line).bind fun (key, value) =>
    if Setting.ofName (toLowercase key) = some setting then some value else none

end

/-- The limit is the largest one sent, the port the first one that is not zero, the block size and
the data directory the last one, and nobody asked for a newer client. -/
structure Applied (toLowercase : Text → Text) (c : ClientConfig) (lines : List Text)
    (c' : ClientConfig) : Prop where
  clientId : c'.clientId = c.clientId
  clientKey : c'.clientKey = c.clientKey
  disklimit : c'.disklimitBytes = (sent toLowercase .disklimitBytes lines).foldl
    (fun limit value => max limit ((parseU64 value).getD 0)) c.disklimitBytes
  port : c'.clientPort = (sent toLowercase .port lines).foldl
    (fun port value => if port = 0 then (parseU16 value).getD 0 else port) c.clientPort
  blocksize : c'.filesystemBlocksize = (sent toLowercase .filesystemBlocksize lines).foldl
    (fun _ value => ClientSettings.clampBlocksize ((parseU64 value).getD 4096))
    c.filesystemBlocksize
  dataDir : c'.dataDir = (sent toLowercase .dataDir lines).foldl (fun _ value => value) c.dataDir
  noNewer : ∀ value ∈ sent toLowercase .minClientBuild lines, ∀ build ∈ parseI32 value,
    build ≤ clientBuild

variable {toLowercase : Text → Text} {build : Build} {c c' c'' : ClientConfig}

theorem Applied.refl (toLowercase : Text → Text) (c : ClientConfig) : Applied toLowercase c [] c :=
  ⟨rfl, rfl, rfl, rfl, rfl, rfl, by simp [sent]⟩

theorem sent_append (toLowercase : Text → Text) (setting : Setting) (l l' : List Text) :
    sent toLowercase setting (l ++ l') = sent toLowercase setting l ++ sent toLowercase setting l' :=
  List.filterMap_append

theorem Applied.trans {l l' : List Text} (h : Applied toLowercase c l c')
    (h' : Applied toLowercase c' l' c'') : Applied toLowercase c (l ++ l') c'' where
  clientId := h'.clientId.trans h.clientId
  clientKey := h'.clientKey.trans h.clientKey
  disklimit := by rw [sent_append, List.foldl_append, ← h.disklimit, h'.disklimit]
  port := by rw [sent_append, List.foldl_append, ← h.port, h'.port]
  blocksize := by rw [sent_append, List.foldl_append, ← h.blocksize, h'.blocksize]
  dataDir := by rw [sent_append, List.foldl_append, ← h.dataDir, h'.dataDir]
  noNewer := by
    intro value hvalue
    rw [sent_append, List.mem_append] at hvalue
    exact hvalue.elim (h.noNewer value) (h'.noNewer value)

/-- The loop counts the ranges that it inserts, as far as the count does not stop the build. -/
theorem foldlM_addStaticRange {ranges : List Text}
    (h : ranges.foldlM (addStaticRange build) c = .ok c') :
    let kept := ranges.filter fun range => (utf8 range).length = 4
    c' = { c with
      staticRanges := kept.foldl (fun m range => m.insert range 1) c.staticRanges
      staticRangeCount := c.staticRangeCount + UInt32.ofNat kept.length } := by
  induction ranges generalizing c with
  | nil =>
    cases h
    simp
  | cons range ranges ih =>
    rw [List.foldlM_cons] at h
    by_cases hlen : (utf8 range).length = 4
    · simp only [addStaticRange, hlen, if_true, addU32, bind, Except.bind] at h
      split_ifs at h with hfits
      · have hrest := ih h
        simp only [List.filter_cons, hlen, decide_true, if_true, List.foldl_cons, List.length_cons]
        rw [hrest]
        simp only [UInt32.ofNat_add, add_assoc, add_comm]
        rfl
    · simp only [addStaticRange, hlen, if_false, bind, Except.bind, pure, Except.pure] at h
      simpa only [List.filter_cons, hlen, decide_false, Bool.false_eq_true,
        if_false] using ih h

theorem alter_serverTime {now : Int64} {value : Text}
    (h : alter toLowercase build now c value .serverTime = .ok c') :
    ∃ delta, c' = { c with serverTimeDelta := delta } := by
  simp only [alter] at h
  cases hst : parseI64 value with
  | none =>
    cases hst ▸ h
    exact ⟨c.serverTimeDelta, rfl⟩
  | some st =>
    cases hsub : subI64 build st now with
    | error reason => simp [hst, hsub, liftPanic, bind, Except.bind] at h
    | ok delta =>
      simp only [hst, hsub, liftPanic, bind, Except.bind, pure, Except.pure, Except.ok.injEq] at h
      exact ⟨delta, h.symm⟩

theorem alter_staticRanges {now : Int64} {value : Text}
    (h : alter toLowercase build now c value .staticRanges = .ok c') :
    let kept := (value.splitOn ';').filter fun range => (utf8 range).length = 4
    c' = { c with
      staticRanges := kept.foldl (fun m range => m.insert range 1) ∅
      staticRangeCount := UInt32.ofNat kept.length } := by
  simp only [alter] at h
  cases hfold : (value.splitOn ';').foldlM (addStaticRange build)
      { c with staticRanges := ∅, staticRangeCount := 0 } with
  | error reason => simp [hfold, liftPanic] at h
  | ok d =>
    obtain rfl := foldlM_addStaticRange hfold
    simp only [hfold, liftPanic, Except.ok.injEq, zero_add] at h
    exact h.symm

/-- What one known setting does to the fields that `Applied` speaks of. -/
theorem alter_fields {now : Int64} {value : Text} {setting : Setting}
    (h : alter toLowercase build now c value setting = .ok c') :
    c'.clientId = c.clientId ∧ c'.clientKey = c.clientKey ∧
    c'.disklimitBytes = (if setting = .disklimitBytes then
      max c.disklimitBytes ((parseU64 value).getD 0) else c.disklimitBytes) ∧
    c'.clientPort = (if setting = .port ∧ c.clientPort = 0 then (parseU16 value).getD 0
      else c.clientPort) ∧
    c'.filesystemBlocksize = (if setting = .filesystemBlocksize then
      ClientSettings.clampBlocksize ((parseU64 value).getD 4096) else c.filesystemBlocksize) ∧
    c'.dataDir = (if setting = .dataDir then value else c.dataDir) ∧
    (setting = .minClientBuild → ∀ b ∈ parseI32 value, b ≤ clientBuild) := by
  cases setting with
  | minClientBuild =>
    simp only [alter] at h
    split_ifs at h with hnewer
    cases h
    refine ⟨rfl, rfl, rfl, rfl, rfl, rfl, fun _ b hb => ?_⟩
    rw [Option.mem_def.mp hb] at hnewer
    simpa using hnewer
  | curClientBuild =>
    simp only [alter, Except.ok.injEq] at h
    split_ifs at h <;> exact h ▸ ⟨rfl, rfl, rfl, rfl, rfl, rfl, by simp⟩
  | serverTime =>
    obtain ⟨delta, rfl⟩ := alter_serverTime h
    exact ⟨rfl, rfl, rfl, rfl, rfl, rfl, by simp⟩
  | port =>
    simp only [alter, Except.ok.injEq] at h
    split_ifs at h with hzero
    · exact h ▸ ⟨rfl, rfl, rfl, by simp [hzero], rfl, rfl, by simp⟩
    · exact h ▸ ⟨rfl, rfl, rfl, by simp [hzero], rfl, rfl, by simp⟩
  | disklimitBytes =>
    simp only [alter, Except.ok.injEq] at h
    split_ifs at h with hle
    · exact h ▸ ⟨rfl, rfl, (if_pos hle).symm, rfl, rfl, rfl, by simp⟩
    · exact h ▸ ⟨rfl, rfl, (if_neg hle).symm, rfl, rfl, rfl, by simp⟩
  | staticRanges =>
    obtain rfl := alter_staticRanges h
    exact ⟨rfl, rfl, rfl, rfl, rfl, rfl, by simp⟩
  | _ =>
    cases h
    exact ⟨rfl, rfl, rfl, by simp, rfl, rfl, by simp⟩

theorem applied_of_applyLine {now : Int64} {line : Text}
    (h : applyLine toLowercase build now c line = .ok c') : Applied toLowercase c [line] c' := by
  unfold applyLine at h
  cases hline : splitOnce '=' line with
  | none =>
    cases hline ▸ h
    exact ⟨rfl, rfl, by simp [sent, hline], by simp [sent, hline], by simp [sent, hline],
      by simp [sent, hline], by simp [sent, hline]⟩
  | some field =>
    obtain ⟨key, value⟩ := field
    simp only [hline, applySetting] at h
    cases hname : Setting.ofName (toLowercase key) with
    | none =>
      cases hname ▸ h
      exact ⟨rfl, rfl, by simp [sent, hline, hname], by simp [sent, hline, hname],
        by simp [sent, hline, hname], by simp [sent, hline, hname], by simp [sent, hline, hname]⟩
    | some setting =>
      simp only [hname] at h
      have hsent : ∀ k, sent toLowercase k [line] = if setting = k then [value] else [] := by
        intro k
        by_cases hk : setting = k <;> simp [sent, hline, hname, hk]
      obtain ⟨hid, hkey, hlimit, hport, hblock, hdir, hbuild⟩ := alter_fields h
      refine ⟨hid, hkey, ?_, ?_, ?_, ?_, ?_⟩
      · rw [hlimit, hsent]
        split_ifs <;> rfl
      · rw [hport, hsent]
        split_ifs <;> simp_all
      · rw [hblock, hsent]
        split_ifs <;> rfl
      · rw [hdir, hsent]
        split_ifs <;> rfl
      · intro v hv
        rw [hsent] at hv
        split_ifs at hv with hmin
        · rw [List.mem_singleton.mp hv]
          exact hbuild hmin
        · cases hv

theorem applied_of_applyServerSettings {clock : ℕ → Int64} {lines : List Text}
    (h : applyServerSettings toLowercase build clock c lines = .ok c') :
    Applied toLowercase c lines c' := by
  have hinv := foldlM_invariant (fun done (d : ClientConfig) =>
    Applied toLowercase c (done.map Prod.fst) d) ?_ (Applied.refl toLowercase c) h
  · rwa [List.zipIdx_map_fst] at hinv
  · intro done line rest d d' _ hdone hline
    rw [List.map_append]
    exact hdone.trans (applied_of_applyLine hline)

/-! ## The kept settings are a part of the configuration -/

/-- The fields that the cache, the cleanup and the galleries read. -/
def settings (c : ClientConfig) : ClientSettings where
  rpcServers := c.rpcServers
  disklimitBytes := c.disklimitBytes
  filesystemBlocksize := c.filesystemBlocksize
  maxAllowedFilesize := c.maxAllowedFilesize
  maxFilenameLength := c.maxFilenameLength
  staticRanges := c.staticRanges
  staticRangeCount := c.staticRangeCount
  verifyCache := c.verifyCache
  rescanCache := c.rescanCache

/-- The setting and its value that a line gives. -/
def change (toLowercase : Text → Text) (line : Text) : Option (Text × Text) :=
  (splitOnce '=' line).map fun (key, value) => (toLowercase key, value)

theorem name_of_ofName {name : Text} {setting : Setting} (h : Setting.ofName name = some setting) :
    ∃ text, (text, setting) ∈ settingNames ∧
      name.map (fun c => if c = '-' then '_' else c) = text.toList := by
  obtain ⟨⟨text, known⟩, hfind, rfl⟩ := Option.map_eq_some_iff.mp h
  have htext := List.find?_some hfind
  exact ⟨text, List.mem_of_find?_eq_some hfind, (of_decide_eq_true htext).symm⟩

theorem settings_alter {now : Int64} {value : Text} {setting : Setting}
    (h : alter toLowercase build now c value setting = .ok c') {name : Text}
    (hname : Setting.ofName name = some setting) :
    c'.settings = c.settings.applySetting name value := by
  obtain ⟨text, hmem, htext⟩ := name_of_ofName hname
  simp only [ClientSettings.applySetting, htext]
  cases setting <;> simp [settingNames] at hmem <;> subst hmem <;> simp
  case minClientBuild =>
    simp only [alter] at h
    split_ifs at h
    cases h
    rfl
  case curClientBuild =>
    simp only [alter, Except.ok.injEq] at h
    split_ifs at h <;> exact h ▸ rfl
  case serverTime =>
    obtain ⟨delta, rfl⟩ := alter_serverTime h
    rfl
  case port =>
    simp only [alter, Except.ok.injEq] at h
    split_ifs at h <;> exact h ▸ rfl
  case disklimitBytes =>
    simp only [alter, Except.ok.injEq] at h
    split_ifs at h with hle
    · exact h ▸ (if_pos hle).symm
    · exact h ▸ (if_neg hle).symm
  case staticRanges =>
    obtain rfl := alter_staticRanges h
    rfl
  all_goals
    cases h
    rfl

theorem applySetting_of_unknown {s : ClientSettings} {name value : Text}
    (h : Setting.ofName name = none) : s.applySetting name value = s := by
  have hne := List.find?_eq_none.mp (Option.map_eq_none_iff.mp h)
  simp only [settingNames, List.forall_mem_cons, decide_eq_true_eq] at hne
  simp only [ClientSettings.applySetting]
  simp_all [eq_comm]

/-- The kept settings follow the lines of a response as the configuration does. -/
theorem settings_applyLine {now : Int64} {line : Text}
    (h : applyLine toLowercase build now c line = .ok c') :
    c'.settings = c.settings.applySettings (change toLowercase line).toList := by
  unfold applyLine at h
  cases hline : splitOnce '=' line with
  | none =>
    cases hline ▸ h
    simp [change, hline, ClientSettings.applySettings]
  | some field =>
    obtain ⟨key, value⟩ := field
    simp only [hline, applySetting] at h
    simp only [change, hline, Option.map_some, Option.toList_some, ClientSettings.applySettings,
      List.foldl_cons, List.foldl_nil]
    cases hname : Setting.ofName (toLowercase key) with
    | none =>
      cases hname ▸ h
      exact (applySetting_of_unknown hname).symm
    | some setting =>
      simp only [hname] at h
      exact settings_alter h hname

theorem settings_applyServerSettings {clock : ℕ → Int64} {lines : List Text}
    (h : applyServerSettings toLowercase build clock c lines = .ok c') :
    c'.settings = c.settings.applySettings (lines.filterMap (change toLowercase)) := by
  have hinv := foldlM_invariant (fun done (d : ClientConfig) => d.settings =
    c.settings.applySettings ((done.map Prod.fst).filterMap (change toLowercase))) ?_ rfl h
  · rwa [List.zipIdx_map_fst] at hinv
  · intro done line rest d d' _ hdone hline
    rw [settings_applyLine hline, hdone, List.map_append, List.filterMap_append,
      ClientSettings.applySettings, ClientSettings.applySettings, ClientSettings.applySettings,
      ← List.foldl_append]
    rfl

/-! ## Runs -/

section Runs

variable {first : ClientConfig} {es es' : List (Event (List Text) (ℕ → Int64))}
variable {s s' : ReadCopyUpdates.State (List Text) ClientConfig (ℕ → Int64)}

theorem applyServerSettings_of_updated {lines : List Text} {clock : ℕ → Int64}
    (h : updated toLowercase build lines clock c = some c') :
    applyServerSettings toLowercase build clock c lines = .ok c' := by
  unfold updated at h
  cases hok : applyServerSettings toLowercase build clock c lines with
  | error stop => simp [hok, Except.toOption] at h
  | ok d => simpa [hok, Except.toOption] using h

theorem applied_of_replay {commits : List (Commit (List Text) (ℕ → Int64))}
    (h : replay (updated toLowercase build) first commits = some c) :
    Applied toLowercase first (commits.flatMap Commit.request) c := by
  refine replay_induction (fun done d => Applied toLowercase first (done.flatMap Commit.request) d)
    (Applied.refl toLowercase first) ?_ h
  intro done value commit next hdone hnext
  have hsettings := applied_of_applyServerSettings (applyServerSettings_of_updated hnext)
  rw [List.flatMap_append, List.flatMap_singleton]
  exact hdone.trans hsettings

/-- The settings that are kept elsewhere follow the run. -/
theorem settings_of_replay {commits : List (Commit (List Text) (ℕ → Int64))}
    (h : replay (updated toLowercase build) first commits = some c) :
    c.settings =
      first.settings.applySettings ((commits.flatMap Commit.request).filterMap (change toLowercase)) := by
  refine replay_induction (fun done (d : ClientConfig) => d.settings =
    first.settings.applySettings ((done.flatMap Commit.request).filterMap (change toLowercase))) rfl ?_ h
  intro done value commit next hdone hnext
  rw [settings_applyServerSettings (applyServerSettings_of_updated hnext), hdone, List.flatMap_append,
    List.flatMap_singleton, List.filterMap_append, ClientSettings.applySettings,
    ClientSettings.applySettings, ClientSettings.applySettings, ← List.foldl_append]

theorem inv_of_run
    (hrun : run (applyServerResponse toLowercase build) (.new first) es = some s) :
    Inv (updated toLowercase build) first s :=
  (inv_new _ first).run hrun

/-- Two calls that have loaded the same configuration. The first to swap wins, and the other one
starts again from what it left. -/
def overlappingCalls : List (Event (List Text) (ℕ → Int64)) :=
  let clock := fun _ => 0
  [.call ["disklimit_bytes=10".toList, "port=80".toList],
   .call ["disklimit-bytes=20".toList, "Port=90".toList],
   .advance 0 .load, .advance 1 .load, .advance 1 (.compute clock), .advance 1 .swap,
   .advance 0 (.compute clock), .advance 0 .swap, .advance 0 (.compute clock), .advance 0 .swap]

def keyArgs : ClientArgs :=
  { clientId := some 7, clientKey := some "abcde12345abcde12345".toList }

theorem overlappingCalls_run : ∃ first s, load keyArgs (fun _ => none) = .ok first ∧
    run (applyServerResponse (List.map Char.toLower) .release) (.new first) overlappingCalls = some s ∧
    s.value.disklimitBytes = 20 ∧ s.value.clientPort = 90 ∧
    s.commits.map Commit.writer = [1, 0] ∧ s.writers.map Writer.attempts = [2, 1] ∧
    first.clientId = 7 ∧ s.value.dataDir = "data".toList :=
  ⟨_, _, rfl, rfl, rfl, rfl, rfl, rfl, rfl, rfl⟩

/-- Every response whose call has returned is in the configuration once, in an order that keeps
the order of calls that did not overlap, and no other response is. A call makes no more attempts
than calls have returned, itself included. -/
theorem applyServerResponse_serializes
    (hrun : run (applyServerResponse toLowercase build) (.new first) es = some s)
    (hrun' : run (applyServerResponse toLowercase build) s es' = some s') :
    replay (updated toLowercase build) first s'.commits = some s'.value ∧
    (s'.commits.map Commit.writer).Nodup ∧
    (∀ i w, s'.writers[i]? = some w →
      (w.phase = .done ↔ ∃ clock, ⟨i, w.request, clock⟩ ∈ s'.commits) ∧
      w.attempts ≤ s'.commits.length) ∧
    ∀ i j w, s.writers[i]? = some w → w.phase = .done → s.writers.length ≤ j →
      ∃ before after, s'.commits.map Commit.writer = before ++ after ∧ i ∈ before ∧ j ∉ before := by
  have hinv := inv_of_run hrun
  have hinv' := hinv.run hrun'
  refine ⟨hinv'.value, hinv'.nodup, ?_, fun i j w hi hdone hj =>
    hinv.commits_ordered (run_commits_grow hrun') hi hdone hj⟩
  intro i w hw
  refine ⟨⟨fun hdone => ?_, fun hcommit => ?_⟩,
    (hinv'.writers w (List.mem_of_getElem? hw)).attempts_le⟩
  · obtain ⟨commit, hmem, rfl⟩ := List.mem_map.mp (hinv'.returned i w hw hdone)
    obtain ⟨v, hv, -, hrequest⟩ := hinv'.committed commit hmem
    rw [hw] at hv
    cases hv
    exact ⟨commit.input, hrequest ▸ hmem⟩
  · obtain ⟨clock, hmem⟩ := hcommit
    obtain ⟨v, hv, hdone, -⟩ := hinv'.committed _ hmem
    rw [hw] at hv
    cases hv
    exact hdone

theorem overlappingCalls_serialize : ∃ first s,
    run (applyServerResponse (List.map Char.toLower) .release) (.new first) overlappingCalls = some s ∧
    s.commits.map Commit.writer = [1, 0] ∧ s.writers.map Writer.attempts = [2, 1] ∧
    replay (updated (List.map Char.toLower) .release) first s.commits = some s.value := by
  obtain ⟨first, s, -, hrun, -, -, horder, hattempts, -⟩ := overlappingCalls_run
  have hstay : run (applyServerResponse (List.map Char.toLower) .release) s [] = some s := rfl
  exact ⟨first, s, hrun, horder, hattempts, (applyServerResponse_serializes hrun hstay).1⟩

/-- A limit is only raised, so it ends as the largest one. -/
theorem foldl_max_greatest (f : Text → UInt64) (values : List Text) (limit : UInt64) :
    let largest := values.foldl (fun limit value => max limit (f value)) limit
    limit ≤ largest ∧ (∀ value ∈ values, f value ≤ largest) ∧
      (largest = limit ∨ ∃ value ∈ values, largest = f value) := by
  induction values generalizing limit with
  | nil => exact ⟨UInt64.le_refl limit, by simp, .inl rfl⟩
  | cons value values ih =>
    obtain ⟨hlimit, hvalues, hreached⟩ := ih (max limit (f value))
    have hmax : max limit (f value) = if limit ≤ f value then f value else limit := rfl
    by_cases hle : limit ≤ f value
    · rw [hmax, if_pos hle] at hlimit hvalues hreached
      refine ⟨?_, ?_, ?_⟩
      · rw [List.foldl_cons, hmax, if_pos hle]
        exact UInt64.le_trans hle hlimit
      · rw [List.foldl_cons, hmax, if_pos hle]
        exact List.forall_mem_cons.mpr ⟨hlimit, hvalues⟩
      · rw [List.foldl_cons, hmax, if_pos hle]
        rcases hreached with heq | ⟨v, hv, heq⟩
        · exact .inr ⟨value, List.mem_cons_self, heq⟩
        · exact .inr ⟨v, List.mem_cons_of_mem _ hv, heq⟩
    · have hge : f value ≤ limit := (UInt64.le_total limit (f value)).resolve_left hle
      rw [hmax, if_neg hle] at hlimit hvalues hreached
      refine ⟨?_, ?_, ?_⟩
      · rwa [List.foldl_cons, hmax, if_neg hle]
      · rw [List.foldl_cons, hmax, if_neg hle]
        exact List.forall_mem_cons.mpr ⟨UInt64.le_trans hge hlimit, hvalues⟩
      · rw [List.foldl_cons, hmax, if_neg hle]
        rcases hreached with heq | ⟨v, hv, heq⟩
        · exact .inl heq
        · exact .inr ⟨v, List.mem_cons_of_mem _ hv, heq⟩

theorem foldl_port (values : List Text) (port : UInt16) :
    values.foldl (fun port value => if port = 0 then (parseU16 value).getD 0 else port) port =
      if port = 0 then ((values.map fun value => (parseU16 value).getD 0).find? (· ≠ 0)).getD 0
      else port := by
  induction values generalizing port with
  | nil => by_cases hport : port = 0 <;> simp [hport]
  | cons value values ih =>
    rw [List.foldl_cons, ih]
    by_cases hport : port = 0
    · by_cases hvalue : (parseU16 value).getD 0 = 0 <;> simp [hport, hvalue]
    · simp [hport]

theorem foldl_last {α : Type} (f : Text → α) (values : List Text) (first : α) :
    values.foldl (fun _ value => f value) first = (values.getLast?.map f).getD first := by
  induction values using List.reverseRecOn with
  | nil => rfl
  | append_singleton values value _ => simp

/-- The values that the responses of the calls that have returned give to a setting. -/
def allSent (toLowercase : Text → Text) (setting : Setting)
    (s : ReadCopyUpdates.State (List Text) ClientConfig (ℕ → Int64)) : List Text :=
  sent toLowercase setting (s.commits.flatMap Commit.request)

/-- Whatever the order of the calls: the credentials stay, the disk limit is the largest one of
the first and all that were sent, the port is the first that is not zero, the block size is the
last one sent, cut to its range, and no response that asks for a newer client has been applied. What
the cache, the cleanup and the galleries read of the configuration is what the lines of all the
responses, one behind the other, make of the settings of the start. -/
theorem settings_of_responses
    (hrun : run (applyServerResponse toLowercase build) (.new first) es = some s) :
    s.value.clientId = first.clientId ∧ s.value.clientKey = first.clientKey ∧
    (first.disklimitBytes ≤ s.value.disklimitBytes ∧
      (∀ value ∈ allSent toLowercase .disklimitBytes s,
        (parseU64 value).getD 0 ≤ s.value.disklimitBytes) ∧
      (s.value.disklimitBytes = first.disklimitBytes ∨
        ∃ value ∈ allSent toLowercase .disklimitBytes s,
          s.value.disklimitBytes = (parseU64 value).getD 0)) ∧
    s.value.clientPort = (if first.clientPort = 0 then
      (((allSent toLowercase .port s).map fun value => (parseU16 value).getD 0).find?
        (· ≠ 0)).getD 0 else first.clientPort) ∧
    s.value.filesystemBlocksize = ((allSent toLowercase .filesystemBlocksize s).getLast?.map
      fun value => max 1 (min ((parseU64 value).getD 4096) 65536)).getD first.filesystemBlocksize ∧
    (∀ value ∈ allSent toLowercase .minClientBuild s, ∀ b ∈ parseI32 value, b ≤ clientBuild) ∧
    s.value.settings = first.settings.applySettings
      ((s.commits.flatMap Commit.request).filterMap (change toLowercase)) := by
  have happlied := applied_of_replay (inv_of_run hrun).value
  refine ⟨happlied.clientId, happlied.clientKey, ?_, ?_, ?_, happlied.noNewer,
    settings_of_replay (inv_of_run hrun).value⟩
  · rw [happlied.disklimit]
    exact foldl_max_greatest _ _ _
  · rw [happlied.port]
    exact foldl_port _ _
  · rw [happlied.blocksize]
    exact foldl_last _ _ _

theorem settings_of_overlappingCalls : ∃ first s,
    run (applyServerResponse (List.map Char.toLower) .release) (.new first) overlappingCalls = some s ∧
    s.value.disklimitBytes = 20 ∧ s.value.clientPort = 90 ∧
    s.value.clientId = first.clientId := by
  obtain ⟨first, s, -, hrun, hlimit, hport, -⟩ := overlappingCalls_run
  exact ⟨first, s, hrun, hlimit, hport, (settings_of_responses hrun).1⟩

/-! ## The credentials survive a restart -/

theorem trim_of_noWhitespace {t : Text} (h : ∀ c ∈ t, isWhitespace c = false) :
    ClientSettings.trim t = t := by
  have hkeep : ∀ u : Text, (∀ c ∈ u, isWhitespace c = false) → trimStart u = u := by
    intro u hu
    cases u with
    | nil => rfl
    | cons c u => simp [trimStart, hu c List.mem_cons_self]
  rw [ClientSettings.trim, hkeep t h, hkeep t.reverse (by simpa using h), List.reverse_reverse]

/-- The credentials that are written at the login are read back. -/
theorem parseLogin_loginText (c : ClientConfig) :
    parseLogin c.loginText = .ok (c.clientId, c.clientKey) := by
  have hkey : ∀ d ∈ c.clientKey.text, isWhitespace d = false := fun d hd =>
    isWhitespace_of_isAlphanum (List.all_eq_true.mp c.clientKey.alphanumeric d hd)
  have hid : ∀ d ∈ decimal c.clientId.toNat, isWhitespace d = false := fun d hd =>
    isWhitespace_of_isAlphanum (isAlphanum_of_isDigit (isDigit_of_mem_decimal hd))
  have hall : ∀ d ∈ c.loginText, isWhitespace d = false := by
    intro d hd
    rcases List.mem_append.mp hd with hd | hd
    · exact hid d hd
    · rcases List.mem_cons.mp hd with rfl | hd
      · decide
      · exact hkey d hd
  have hnew : ClientKey.new c.clientKey.text = some c.clientKey :=
    dif_pos ⟨c.clientKey.length_text, c.clientKey.alphanumeric⟩
  have hsplit : splitOnce '-' (ClientSettings.trim c.loginText) =
      some (decimal c.clientId.toNat, c.clientKey.text) := by
    rw [trim_of_noWhitespace hall]
    exact splitOnce_append (hyphen_notMem_decimal _) _
  simp only [parseLogin, hsplit, parseU32_decimal, trim_of_noWhitespace hkey, hnew]
  rfl

theorem credentials_of_file {args : ClientArgs} (h : args.clientId = none ∨ args.clientKey = none)
    {files : Files} {content : Text} (hfile : files (loginFile args.dataDir) = some (.ok content)) :
    credentials args files = parseLogin content := by
  rcases h with h | h
  · simp only [credentials, h, hfile]
  · cases hid : args.clientId <;> simp only [credentials, h, hid, hfile]

/-- Equal data directories have the same file. -/
theorem loginFile_congr {dir dir' : Text} (h : Paths.components dir = Paths.components dir') :
    loginFile dir = loginFile dir' := by
  have hname : Paths.components "client_login".toList = [.normal "client_login".toList] := by decide
  rw [loginFile, loginFile, Paths.components_push hname, Paths.components_push hname, h]

/-- At whatever point of a run the login is saved, a next start whose data directory is that of the
configuration, and which has no credentials on the command line, loads the ones that this start
had. That directory is the last one that a response has sent, or the one of the start. -/
theorem load_after_saveClientLogin
    (hrun : run (applyServerResponse toLowercase build) (.new first) es = some s) (files : Files) :
    s.value.dataDir = ((allSent toLowercase .dataDir s).getLast?).getD first.dataDir ∧
    ∀ args : ClientArgs, (args.clientId = none ∨ args.clientKey = none) →
      Paths.components args.dataDir = Paths.components s.value.dataDir →
      ∃ next, load args (s.value.saveClientLogin files (.ok ())) = .ok next ∧
        next.clientId = first.clientId ∧ next.clientKey = first.clientKey := by
  have happlied := applied_of_replay (inv_of_run hrun).value
  refine ⟨?_, fun args hargs hdir => ?_⟩
  · rw [happlied.dataDir]
    simpa [allSent] using foldl_last id (allSent toLowercase .dataDir s) first.dataDir
  · have hfile : s.value.saveClientLogin files (.ok ()) (loginFile args.dataDir) =
        some (.ok s.value.loginText) := by
      rw [loginFile_congr hdir]
      exact Function.update_self ..
    simp only [load, credentials_of_file hargs hfile, parseLogin_loginText, bind, Except.bind]
    exact ⟨_, rfl, happlied.clientId, happlied.clientKey⟩

/-- A start with its credentials on the command line and the next one without them. -/
theorem load_after_overlappingCalls : ∃ s next : ClientConfig,
    load {} (s.saveClientLogin (fun _ => none) (.ok ())) = .ok next ∧ next.clientId = 7 := by
  obtain ⟨first, s, -, hrun, -, -, -, -, hid, hdir⟩ := overlappingCalls_run
  have hargs : ({} : ClientArgs).clientId = none ∨ ({} : ClientArgs).clientKey = none := .inl rfl
  obtain ⟨next, hnext, hsame, -⟩ := (load_after_saveClientLogin hrun fun _ => none).2 {} hargs
    (congrArg Paths.components hdir.symm)
  exact ⟨s.value, next, hnext, hsame.trans hid⟩

end Runs

end ClientConfig
end HathRs
