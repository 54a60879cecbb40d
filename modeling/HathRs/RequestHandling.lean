import HathRs.ConfigUpdates
import HathRs.StreamingBodies

/-!
# From a request to its response

A request is a method, a path and an address. Its path says what is asked for and carries the
signature; only then is anything looked up, fetched or done. Every answer of the rest of the
program is a parameter, and what the handlers ask the rest to do is kept in order.
-/

namespace HathRs.RequestHandling
open TextParsing Digests FileIds MachineArithmetic SignedIntegers IpAddresses RequestSignatures
open StreamingBodies GalleryListings ClientConfig

/-! ## Additional fields -/

inductive Field where
  | keystamp
  | fileindex
  | xres
  | hostname
  | protocol
  | port
  | testsize
  | testcount
  | testtime
  | testkey
  deriving DecidableEq

def fieldNames : List (String × Field) :=
  [("keystamp", .keystamp), ("fileindex", .fileindex), ("xres", .xres), ("hostname", .hostname),
   ("protocol", .protocol), ("port", .port), ("testsize", .testsize), ("testcount", .testcount),
   ("testtime", .testtime), ("testkey", .testkey)]

def Field.ofName (name : Text) : Option Field :=
  (fieldNames.find? fun entry => entry.1.toList = name).map Prod.snd

abbrev Additional := Field → Option Text

/-- One `key=value` pair. A later one replaces an earlier one of the same key. -/
def addPair (out : Additional) (pair : Text) : Additional :=
  if 2 < (utf8 pair).length then
    match splitOnce '=' pair with
    | some (k, v) =>
      match Field.ofName (ClientSettings.trim k) with
      | some field => Function.update out field (some (ClientSettings.trim v))
      | none => out
    | none => out
  else out

def parseAdditional (additional : Text) : Additional :=
  if additional = [] then fun _ => none
  else ((ClientSettings.trim additional).splitOn ';').foldl addPair fun _ => none

/-! ## Requests -/

inductive RequestType where
  | fileServe (fileid : Text) (hvFile : Option HVFile) (additional : Additional)
      (keystampValid headOnly : Bool)
  | serverCommand (command : ServerCommand)
  | speedTest (test : SpeedTest) (headOnly : Bool)
  | favicon
  | robots
  | notFound
  | badRequest
  | methodNotAllowed

/-- The fields of the configuration that a request reads, with the current `server_time()`. -/
structure RequestConfig where
  signing : RequestSignatures.Config
  rpcServers : List IpAddr
  disableIpOriginCheck : Bool
  disableFileVerification : Bool

def isRpcAuthorized (config : RequestConfig) (peer : IpAddr) : Bool :=
  config.disableIpOriginCheck || decide (peer ∈ config.rpcServers)

/-- An absolute URI is cut down to its path. -/
def stripScheme (uri : Text) : Text :=
  if "http://".toList <+: uri then
    match (uri.drop 7).dropWhile (· ≠ '/') with
    | [] => ['/']
    | path => path
  else uri

/-- `replace("%3d", "=")` -/
def decodeEquals : Text → Text
  | '%' :: '3' :: 'd' :: rest => '=' :: decodeEquals rest
  | c :: rest => c :: decodeEquals rest
  | [] => []

def urlParts (uri : Text) : List Text := (decodeEquals (stripScheme uri)).splitOn '/'

section Parsing

variable (build : Build) (sha1 : Bytes → Sha1Digest) (config : RequestConfig)

def parseFileServe (parts : List Text) (headOnly : Bool) : Except Panic RequestType :=
  match parts with
  | _ :: _ :: fileid :: segment :: _ => do
    let additional := parseAdditional segment
    let valid ← validateKeystamp build sha1 config.signing fileid (additional .keystamp)
    pure (.fileServe fileid (fromFileid fileid) additional valid headOnly)
  | _ => .ok .badRequest

/-- The second half of `parse_request`, on the parts of the path. -/
def routeRequest (parts : List Text) (headOnly : Bool) (peer : IpAddr) : Except Panic RequestType :=
  match parts with
  | [] :: route :: rest =>
    if route = "h".toList then parseFileServe build sha1 config ([] :: route :: rest) headOnly
    else if route = "servercmd".toList then do
      let command ← parseServerCommand build sha1 config.signing ([] :: route :: rest)
        (isRpcAuthorized config peer)
      pure (.serverCommand command)
    else if route = "t".toList then do
      let test ← parseSpeedTest build sha1 config.signing ([] :: route :: rest)
      pure (.speedTest test headOnly)
    else if rest = [] then
      if route = "favicon.ico".toList then .ok .favicon
      else if route = "robots.txt".toList then .ok .robots
      else .ok .notFound
    else .ok .notFound
  | _ => .ok .notFound

/-- The method of a request is an ASCII token. -/
def parseRequest (method uri : Text) (peer : IpAddr) : Except Panic RequestType :=
  if method.map Char.toUpper = "GET".toList ∨ method.map Char.toUpper = "HEAD".toList then
    routeRequest build sha1 config (urlParts uri) (eqIgnoreAsciiCase method "HEAD".toList) peer
  else .ok .methodNotAllowed

end Parsing

/-! ## Responses -/

inductive BodySpec where
  | static (data : Bytes)
  | random (size : ℕ)
  | file (params : FileBodyParams)
  | proxy (size : ℕ)

def BodySpec.size : BodySpec → ℕ
  | .static data => data.length
  | .random size => size
  | .file params => params.totalSize
  | .proxy size => size

/-- The body as it is streamed. The pool of a speed test is drawn when it is built. -/
def BodySpec.stream (pool : Bytes) (flowControl trafficStats : Bool) : BodySpec → StreamingBody
  | .static data => .fromBytes data flowControl trafficStats
  | .random size => .newRandom size pool flowControl trafficStats
  | .file params => .newFile params flowControl trafficStats
  | .proxy size => .newProxy size flowControl trafficStats

structure ResponseSpec where
  status : ℕ
  contentType : Text
  declaredLength : ℕ
  body : BodySpec
  headers : List (String × Text)

def defaultContentType : Text := "text/html; charset=iso-8859-1".toList

def textResponse (status : ℕ) (text : Text) : ResponseSpec :=
  ⟨status, defaultContentType, (utf8 text).length, .static (utf8 text), []⟩

def notFoundResponse : ResponseSpec := textResponse 404 "Not Found".toList

def forbiddenResponse : ResponseSpec := textResponse 403 "Permission Denied".toList

def badRequestResponse : ResponseSpec := textResponse 400 "Bad Request".toList

def internalError : ResponseSpec := textResponse 500 "Internal Server Error".toList

def methodNotAllowedResponse : ResponseSpec :=
  { textResponse 405 "Method Not Allowed".toList with headers := [("allow", "GET, HEAD".toList)] }

def redirectResponse (location : Text) : ResponseSpec :=
  ⟨301, defaultContentType, 0, .static [], [("location", location)]⟩

def robotsResponse : ResponseSpec :=
  { textResponse 200 "User-agent: *\nDisallow: /".toList with
    contentType := "text/plain; charset=iso-8859-1".toList }

/-- The length of the body that a GET would have. -/
def headResponse (contentType : Text) (totalSize : ℕ) : ResponseSpec :=
  ⟨200, contentType, totalSize, .static [], []⟩

def proxyBodyResponse (contentType : Text) (totalSize : ℕ) : ResponseSpec :=
  ⟨200, contentType, totalSize, .proxy totalSize, []⟩

def speedtestResponse (size : ℕ) : ResponseSpec := ⟨200, defaultContentType, size, .random size, []⟩

def asMime : FileType → Text
  | .jpeg => "image/jpeg".toList
  | .png => "image/png".toList
  | .gif => "image/gif".toList
  | .mp4 => "video/mp4".toList
  | .webm => "video/webm".toList
  | .webp => "image/webp".toList
  | .avif => "image/avif".toList
  | .jxl => "image/jxl".toList
  | .other _ => "application/octet-stream".toList

/-! ## Handlers -/

/-- What a handler asks the rest of the program for, in the order of the source. -/
inductive Effect where
  | lookUp (fileid : Text)
  | markRecentlyAccessed (fileid : Text)
  | verificationCooldown
  | openFile (fileid : Text)
  | recordFileSent
  | staticRangeFetch (fileindex xres fileid : Text)
  | startProxy (fileid : Text) (sources : List Text)
  | openTempFile (fileid : Text)
  | threadedProxyTest (hostname protocol : Text) (port : UInt16) (testsize : UInt64)
      (testcount testtime : UInt32) (testkey : Text)
  | refreshSettings
  | startDownloader
  | refreshCerts
  deriving DecidableEq

/-- What the rest answers: whether the file is there with its size, what the table of recent
accesses and the cooldown say, the length of the file once it is open, the lines of the
server's answer if it is an OK one, what counts as a URL, the result of starting the proxy
download, whether its temporary file can be opened, and the result of a proxy test. -/
structure Answers where
  cacheHit : Bool
  recentlyAccessed : Bool
  onCooldown : Bool
  opened : Option ℕ
  fetched : Option (List Text)
  isUrl : Text → Bool
  proxy : Except (ℕ × Text) (ℕ × Text)
  tempOpened : Bool
  proxyTest : ℕ × ℕ

/-- The effects of a handler and its response. An error has none. -/
structure Handled where
  effects : List Effect
  response : Option ResponseSpec

def answer (response : ResponseSpec) : Handled := ⟨[], some response⟩

def Handled.after (h : Handled) (effects : List Effect) : Handled :=
  { h with effects := effects ++ h.effects }

/-- A number, as the value of `fileindex` or `xres`. -/
def isNumber (value : Text) : Bool := (parseU32 value).isSome

def fileindexValid (additional : Additional) : Bool := (additional .fileindex).any isNumber

def xresValid (additional : Additional) : Bool :=
  (additional .xres).any fun v => v = "org".toList || isNumber v

/-- `file_response` -/
def fileResponse (a : Answers) (hv : HVFile) (headOnly verify : Bool) : Handled :=
  match a.opened with
  | none => ⟨[.openFile hv.fileid], none⟩
  | some length =>
    if length ≠ hv.size.toNat then ⟨[.openFile hv.fileid], none⟩
    else
      let effects := [.openFile hv.fileid, .recordFileSent]
      let contentType := asMime hv.fileType
      if headOnly then ⟨effects, some (headResponse contentType hv.size.toNat)⟩
      else
        let params := ⟨hv.size.toNat, hv.hash.text, verify, true⟩
        ⟨effects, some ⟨200, contentType, hv.size.toNat, .file params, []⟩⟩

/-- The cached file. The cooldown is only asked when there is something to verify. -/
def cachedFile (config : RequestConfig) (a : Answers) (hv : HVFile) (headOnly : Bool) : Handled :=
  let asked := a.recentlyAccessed && !config.disableFileVerification
  let effects := .markRecentlyAccessed hv.fileid :: (if asked then [.verificationCooldown] else [])
  (fileResponse a hv headOnly (asked && !a.onCooldown)).after effects

/-- `ProxyTransfer::into_response` -/
def intoResponse (a : Answers) (fileid : Text) (contentLength : ℕ) (contentType : Text)
    (headOnly : Bool) : Handled :=
  if headOnly then answer (headResponse contentType contentLength)
  else if a.tempOpened then
    ⟨[.openTempFile fileid], some (proxyBodyResponse contentType contentLength)⟩
  else
    ⟨[.openTempFile fileid], some (textResponse 500 "proxy temp file unavailable".toList)⟩

def fetchFile (a : Answers) (fileid fileindex xres : Text) (headOnly : Bool) : Handled :=
  Handled.after
    (match a.fetched with
    | none => answer notFoundResponse
    | some lines =>
      match lines.filter fun line => line ≠ [] && a.isUrl line with
      | [] => answer notFoundResponse
      | sources =>
        Handled.after
          (match a.proxy with
          | .error (status, message) => answer (textResponse status message)
          | .ok (contentLength, contentType) =>
            intoResponse a fileid contentLength contentType headOnly)
          [.startProxy fileid sources])
    [.staticRangeFetch fileindex xres fileid]

def handleFileServe (config : RequestConfig) (a : Answers) (fileid : Text) (hvFile : Option HVFile)
    (additional : Additional) (keystampValid headOnly : Bool) : Handled :=
  if !keystampValid then answer forbiddenResponse
  else
    match hvFile, additional .fileindex, additional .xres with
    | some hv, some fileindex, some xres =>
      if !fileindexValid additional || !xresValid additional then answer notFoundResponse
      else
        Handled.after
          (if a.cacheHit then cachedFile config a hv headOnly
          else fetchFile a fileid fileindex xres headOnly)
          [.lookUp hv.fileid]
    | _, _, _ => answer notFoundResponse

def invalidCommand : Handled := answer (textResponse 200 "INVALID_COMMAND".toList)

/-- `required_param!` reads the fields in this order. -/
def threadedProxyTest (a : Answers) (add : Additional) : Handled :=
  match add .hostname, add .protocol, (add .port).bind parseU16, (add .testsize).bind parseU64,
    (add .testcount).bind parseU32, (add .testtime).bind parseU32 with
  | some hostname, some protocol, some port, some testsize, some testcount, some testtime =>
    ⟨[.threadedProxyTest hostname protocol port testsize testcount testtime ((add .testkey).getD [])],
      some (textResponse 200 ("OK:".toList ++ decimal a.proxyTest.1 ++ '-' :: decimal a.proxyTest.2))⟩
  | _, _, _, _, _, _ => invalidCommand

def speedTestCommand (add : Additional) : Handled :=
  match add .testsize with
  | none => answer (speedtestResponse 1000000)
  | some v =>
    match parseU64 v with
    | some testsize => answer (speedtestResponse testsize.toNat)
    | none => invalidCommand

def handleServerCommand (a : Answers) (command additional : Text) : Handled :=
  let lower := command.map Char.toLower
  if lower = "still_alive".toList then
    answer (textResponse 200 "I feel FANTASTIC and I'm still alive".toList)
  else if lower = "threaded_proxy_test".toList then threadedProxyTest a (parseAdditional additional)
  else if lower = "speed_test".toList then speedTestCommand (parseAdditional additional)
  else if lower = "refresh_settings".toList then ⟨[.refreshSettings], some (textResponse 200 [])⟩
  else if lower = "start_downloader".toList then ⟨[.startDownloader], some (textResponse 200 [])⟩
  else if lower = "refresh_certs".toList then ⟨[.refreshCerts], some (textResponse 200 [])⟩
  else invalidCommand

def handleSpeedtest (test : SpeedTest) (headOnly : Bool) : Handled :=
  if test.valid then
    if headOnly then answer (headResponse defaultContentType test.testsize.toNat)
    else answer (speedtestResponse test.testsize.toNat)
  else if test.forbidden then answer forbiddenResponse
  else answer badRequestResponse

def handleRequest (config : RequestConfig) (a : Answers) : RequestType → Handled
  | .fileServe fileid hvFile additional keystampValid headOnly =>
    handleFileServe config a fileid hvFile additional keystampValid headOnly
  | .serverCommand command =>
    if command.valid then handleServerCommand a command.command command.additional
    else answer forbiddenResponse
  | .speedTest test headOnly => handleSpeedtest test headOnly
  | .favicon => answer (redirectResponse "https://e-hentai.org/favicon.ico".toList)
  | .robots => answer robotsResponse
  | .badRequest => answer badRequestResponse
  | .methodNotAllowed => answer methodNotAllowedResponse
  | .notFound => answer notFoundResponse

/-- An error becomes a response in `finalize`. -/
def Handled.final (h : Handled) : ResponseSpec := h.response.getD internalError

/-- The service: the request is parsed and handled. -/
def serve (build : Build) (sha1 : Bytes → Sha1Digest) (config : RequestConfig) (a : Answers)
    (method uri : Text) (peer : IpAddr) : Except Panic Handled :=
  (parseRequest build sha1 config method uri peer).map (handleRequest config a)

/-! ## What a request can be -/

section Inversion

variable {build : Build} {sha1 : Bytes → Sha1Digest} {config : RequestConfig} {method uri : Text}
variable {peer : IpAddr} {request : RequestType}

def isHead (method : Text) : Bool := eqIgnoreAsciiCase method "HEAD".toList

/-- A request that is answered without a look at anything. -/
def RequestType.Plain : RequestType → Prop
  | .favicon | .robots | .notFound | .badRequest | .methodNotAllowed => True
  | _ => False

/-- What a path is parsed to, with the part of it that was used. -/
inductive Parsed (build : Build) (sha1 : Bytes → Sha1Digest) (config : RequestConfig)
    (parts : List Text) (headOnly : Bool) (peer : IpAddr) : RequestType → Prop where
  | fileServe {fileid segment : Text} {rest : List Text} {valid : Bool}
      (hparts : parts = [] :: "h".toList :: fileid :: segment :: rest)
      (hvalid : validateKeystamp build sha1 config.signing fileid
        (parseAdditional segment .keystamp) = .ok valid) :
      Parsed build sha1 config parts headOnly peer
        (.fileServe fileid (fromFileid fileid) (parseAdditional segment) valid headOnly)
  | serverCommand {rest : List Text} {command : ServerCommand}
      (hparts : parts = [] :: "servercmd".toList :: rest)
      (hcommand : parseServerCommand build sha1 config.signing parts
        (isRpcAuthorized config peer) = .ok command) :
      Parsed build sha1 config parts headOnly peer (.serverCommand command)
  | speedTest {rest : List Text} {test : SpeedTest} (hparts : parts = [] :: "t".toList :: rest)
      (htest : parseSpeedTest build sha1 config.signing parts = .ok test) :
      Parsed build sha1 config parts headOnly peer (.speedTest test headOnly)
  | plain {request : RequestType} (h : request.Plain) :
      Parsed build sha1 config parts headOnly peer request

theorem parsed_of_parseFileServe {route : Text} {rest : List Text} {headOnly : Bool}
    (hroute : route = "h".toList)
    (h : parseFileServe build sha1 config ([] :: route :: rest) headOnly = .ok request) :
    Parsed build sha1 config ([] :: route :: rest) headOnly peer request := by
  unfold parseFileServe at h
  split at h
  · rename_i fileid segment rest' heq
    obtain ⟨valid, hvalid, hrequest⟩ := bind_eq_ok h
    cases hrequest
    cases heq
    exact .fileServe (by rw [hroute]) hvalid
  · cases h
    exact .plain trivial

theorem parsed_of_routeRequest {parts : List Text} {headOnly : Bool}
    (h : routeRequest build sha1 config parts headOnly peer = .ok request) :
    Parsed build sha1 config parts headOnly peer request := by
  unfold routeRequest at h
  split at h
  · split_ifs at h with hfile hcommand htest hrest hfavicon hrobots
    · exact parsed_of_parseFileServe hfile h
    · obtain ⟨command, hcmd, hrequest⟩ := bind_eq_ok h
      cases hrequest
      exact .serverCommand (by rw [hcommand]) hcmd
    · obtain ⟨test, hspeed, hrequest⟩ := bind_eq_ok h
      cases hrequest
      exact .speedTest (by rw [htest]) hspeed
    · cases h
      exact .plain trivial
    · cases h
      exact .plain trivial
    · cases h
      exact .plain trivial
    · cases h
      exact .plain trivial
  · cases h
    exact .plain trivial

theorem parsed_of_parseRequest
    (h : parseRequest build sha1 config method uri peer = .ok request) :
    Parsed build sha1 config (urlParts uri) (isHead method) peer request := by
  unfold parseRequest at h
  split_ifs at h with hmethod
  · exact parsed_of_routeRequest h
  · cases h
    exact .plain trivial

end Inversion

/-! ## Nothing is done without a signature -/

section Warrants

variable (build : Build) (sha1 : Bytes → Sha1Digest) (config : RequestConfig) (uri : Text)

/-- The path asks for the file and carries a key stamp that authorizes it. -/
def FileWarrant (fileid : Text) : Prop :=
  ∃ segment rest stamp key timestamp,
    urlParts uri = [] :: "h".toList :: fileid :: segment :: rest ∧
    parseAdditional segment .keystamp = some (stamp ++ '-' :: key) ∧
    parseI64 stamp = some timestamp ∧
    Authorizes build sha1 config.signing key (.keystamp timestamp fileid)

/-- The path is the command of this name, in any case of its letters, with a key that authorizes it,
and the peer may send commands. -/
def CommandWarrant (peer : IpAddr) (name : Text) : Prop :=
  ∃ command additional time key rest, command.map Char.toLower = name ∧
    urlParts uri = [] :: "servercmd".toList :: command :: additional :: time :: key :: rest ∧
    (config.disableIpOriginCheck = true ∨ peer ∈ config.rpcServers) ∧
    Authorizes build sha1 config.signing key
      (.servercmd command additional ((parseI64 time).getD 0))

/-- The path is a speed test of this size with a key that authorizes it. -/
def TestWarrant (size : ℕ) : Prop :=
  ∃ testsize testtime key rest,
    urlParts uri = [] :: "t".toList :: testsize :: testtime :: key :: rest ∧
    size = ((parseU32 testsize).getD 0).toNat ∧
    Authorizes build sha1 config.signing key
      (.speedtest ((parseU32 testsize).getD 0) ((parseI64 testtime).getD 0))

/-- The effect is about the file that was asked for, under its canonical id where it is looked up. -/
def Effect.Concerns (fileid : Text) : Effect → Prop
  | .lookUp id | .markRecentlyAccessed id | .openFile id =>
    ∃ hv, fromFileid fileid = some hv ∧ id = hv.fileid
  | .staticRangeFetch _ _ id | .startProxy id _ | .openTempFile id => id = fileid
  | .verificationCooldown | .recordFileSent => True
  | _ => False

/-- The command that has the effect. -/
def Effect.command : Effect → Option Text
  | .threadedProxyTest .. => some "threaded_proxy_test".toList
  | .refreshSettings => some "refresh_settings".toList
  | .startDownloader => some "start_downloader".toList
  | .refreshCerts => some "refresh_certs".toList
  | _ => none

/-- A body that a request for this file can have. -/
def BodySpec.Concerns (fileid : Text) : BodySpec → Prop
  | .static _ | .proxy _ => True
  | .file params => ∃ hv, fromFileid fileid = some hv ∧ params.totalSize = hv.size.toNat ∧
      params.expectedHash = hv.hash.text
  | .random _ => False

/-- A body that the command of this name can have. -/
def BodySpec.OfCommand (name : Text) : BodySpec → Prop
  | .static _ => True
  | .random _ => name = "speed_test".toList
  | _ => False

/-- What the effects and the body of a response are due to. -/
def Warranted (peer : IpAddr) (h : Handled) : Prop :=
  (∀ e ∈ h.effects, (∃ fileid, FileWarrant build sha1 config uri fileid ∧ e.Concerns fileid) ∨
    ∃ name, e.command = some name ∧ CommandWarrant build sha1 config uri peer name) ∧
  match h.final.body with
  | .static _ => True
  | .proxy _ => ∃ fileid, FileWarrant build sha1 config uri fileid
  | .file params => ∃ fileid hv, FileWarrant build sha1 config uri fileid ∧
      fromFileid fileid = some hv ∧ params.totalSize = hv.size.toNat ∧ params.expectedHash = hv.hash.text
  | .random size => TestWarrant build sha1 config uri size ∨
      CommandWarrant build sha1 config uri peer "speed_test".toList

end Warrants

/-- All effects and the body of the response are of these kinds. -/
def Handled.Within (effect : Effect → Prop) (body : BodySpec → Prop) (h : Handled) : Prop :=
  (∀ e ∈ h.effects, effect e) ∧ ∀ r, h.response = some r → body r.body

section Handlers

variable {effect : Effect → Prop} {body : BodySpec → Prop} {config : RequestConfig} {a : Answers}
variable {fileid : Text} {hv : HVFile}

theorem within_answer {r : ResponseSpec} (h : body r.body) : (answer r).Within effect body :=
  ⟨by simp [answer], fun _ hr => Option.some.inj hr ▸ h⟩

theorem Handled.Within.after {h : Handled} (hw : h.Within effect body) {effects : List Effect}
    (he : ∀ e ∈ effects, effect e) : (h.after effects).Within effect body := by
  refine ⟨fun e hmem => ?_, hw.2⟩
  rcases List.mem_append.mp hmem with hnew | hold
  · exact he e hnew
  · exact hw.1 e hold

theorem fileResponse_within (hhv : fromFileid fileid = some hv) (headOnly verify : Bool) :
    (fileResponse a hv headOnly verify).Within (Effect.Concerns fileid) (BodySpec.Concerns fileid) := by
  unfold fileResponse
  cases a.opened with
  | none => exact ⟨by simp [Effect.Concerns, hhv], by simp⟩
  | some length =>
    dsimp only
    split_ifs
    · exact ⟨by simp [Effect.Concerns, hhv], by simp⟩
    · exact ⟨by simp [Effect.Concerns, hhv], by simp [headResponse, BodySpec.Concerns]⟩
    · exact ⟨by simp [Effect.Concerns, hhv], by simp [BodySpec.Concerns, hhv]⟩

theorem cachedFile_within (hhv : fromFileid fileid = some hv) (headOnly : Bool) :
    (cachedFile config a hv headOnly).Within (Effect.Concerns fileid) (BodySpec.Concerns fileid) := by
  refine (fileResponse_within hhv headOnly _).after ?_
  split_ifs <;> simp [Effect.Concerns, hhv]

theorem intoResponse_within (contentLength : ℕ) (contentType : Text) (headOnly : Bool) :
    (intoResponse a fileid contentLength contentType headOnly).Within (Effect.Concerns fileid)
      (BodySpec.Concerns fileid) := by
  unfold intoResponse
  split_ifs
  · exact within_answer trivial
  · exact ⟨by simp [Effect.Concerns], by simp [proxyBodyResponse, BodySpec.Concerns]⟩
  · exact ⟨by simp [Effect.Concerns], by simp [textResponse, BodySpec.Concerns]⟩

theorem fetchFile_within (fileindex xres : Text) (headOnly : Bool) :
    (fetchFile a fileid fileindex xres headOnly).Within (Effect.Concerns fileid)
      (BodySpec.Concerns fileid) := by
  unfold fetchFile
  refine Handled.Within.after ?_ (by simp [Effect.Concerns])
  cases a.fetched with
  | none => exact within_answer trivial
  | some lines =>
    dsimp only
    cases lines.filter fun line => line ≠ [] && a.isUrl line with
    | nil => exact within_answer trivial
    | cons source sources =>
      refine Handled.Within.after ?_ (by simp [Effect.Concerns])
      cases a.proxy with
      | error e => exact within_answer trivial
      | ok result => exact intoResponse_within result.1 result.2 headOnly

theorem handleFileServe_within (additional : Additional) (headOnly : Bool) :
    (handleFileServe config a fileid (fromFileid fileid) additional true headOnly).Within
      (Effect.Concerns fileid) (BodySpec.Concerns fileid) := by
  unfold handleFileServe
  rw [if_neg (by decide)]
  split
  · rename_i hv fileindex xres hhv _ _
    split_ifs
    · exact within_answer trivial
    · exact (cachedFile_within hhv headOnly).after (by simp [Effect.Concerns, hhv])
    · exact (fetchFile_within fileindex xres headOnly).after (by simp [Effect.Concerns, hhv])
  · exact within_answer trivial

theorem within_command {e : Effect} {name : Text} (h : e.command = some name) (text : Text) :
    (Handled.mk [e] (some (textResponse 200 text))).Within (fun e => e.command = some name)
      (BodySpec.OfCommand name) :=
  ⟨by simpa using h, by simp [textResponse, BodySpec.OfCommand]⟩

theorem threadedProxyTest_within (add : Additional) :
    (threadedProxyTest a add).Within (fun e => e.command = some "threaded_proxy_test".toList)
      (BodySpec.OfCommand "threaded_proxy_test".toList) := by
  unfold threadedProxyTest
  split
  · exact within_command rfl _
  · exact within_answer trivial

theorem speedTestCommand_within (add : Additional) :
    (speedTestCommand add).Within effect (BodySpec.OfCommand "speed_test".toList) := by
  unfold speedTestCommand
  split
  · exact within_answer rfl
  · split
    · exact within_answer rfl
    · exact within_answer trivial

/-- Each command has its own effect and its own body. -/
theorem handleServerCommand_within (command additional : Text) :
    (handleServerCommand a command additional).Within
      (fun e => e.command = some (command.map Char.toLower))
      (BodySpec.OfCommand (command.map Char.toLower)) := by
  unfold handleServerCommand
  dsimp only
  split_ifs with halive hproxy hspeed hsettings hdownloader hcerts
  · exact within_answer trivial
  · rw [hproxy]
    exact threadedProxyTest_within _
  · rw [hspeed]
    exact speedTestCommand_within _
  · rw [hsettings]
    exact within_command rfl _
  · rw [hdownloader]
    exact within_command rfl _
  · rw [hcerts]
    exact within_command rfl _
  · exact within_answer trivial

/-- The body that is sent is that of the response or of an error. -/
theorem Handled.Within.final {h : Handled} (hw : h.Within effect body)
    (hstatic : ∀ data, body (.static data)) : body h.final.body := by
  unfold Handled.final
  cases hr : h.response with
  | none => exact hstatic _
  | some r => exact hw.2 r hr

end Handlers

section Main

variable {build : Build} {sha1 : Bytes → Sha1Digest} {config : RequestConfig} {a : Answers}
variable {uri : Text} {peer : IpAddr}

/-- A request that is refused has no effects and a fixed body. -/
theorem warranted_answer {r : ResponseSpec} {data : Bytes} (h : r.body = .static data) :
    Warranted build sha1 config uri peer (answer r) := by
  refine ⟨by simp [answer], ?_⟩
  simp only [answer, Handled.final, Option.getD_some, h]

theorem authorizes_of_validateKeystamp {fileid : Text} {keystamp : Option Text}
    (h : validateKeystamp build sha1 config.signing fileid keystamp = .ok true) :
    ∃ stamp key timestamp, keystamp = some (stamp ++ '-' :: key) ∧ parseI64 stamp = some timestamp ∧
      Authorizes build sha1 config.signing key (.keystamp timestamp fileid) := by
  cases keystamp with
  | none => cases h
  | some keystamp =>
    cases hsplit : splitOnce '-' keystamp with
    | none => simp [validateKeystamp, hsplit] at h
    | some fields =>
      obtain ⟨stamp, key⟩ := fields
      cases htime : parseI64 stamp with
      | none => simp [validateKeystamp, hsplit, htime] at h
      | some timestamp =>
        rw [eq_append_of_splitOnce hsplit] at h
        exact ⟨stamp, key, timestamp, by rw [eq_append_of_splitOnce hsplit], htime, stamp,
          notMem_of_splitOnce hsplit, htime, h⟩

theorem warranted_fileServe {segment fileid : Text} {rest : List Text} {valid headOnly : Bool}
    (hparts : urlParts uri = [] :: "h".toList :: fileid :: segment :: rest)
    (hvalid : validateKeystamp build sha1 config.signing fileid
      (parseAdditional segment .keystamp) = .ok valid) :
    Warranted build sha1 config uri peer
      (handleFileServe config a fileid (fromFileid fileid) (parseAdditional segment) valid headOnly) := by
  cases valid with
  | false => exact warranted_answer rfl
  | true =>
    obtain ⟨stamp, key, timestamp, hkeystamp, htime, hauth⟩ := authorizes_of_validateKeystamp hvalid
    have hwarrant : FileWarrant build sha1 config uri fileid :=
      ⟨segment, rest, stamp, key, timestamp, hparts, hkeystamp, htime, hauth⟩
    have hwithin : (handleFileServe config a fileid (fromFileid fileid) (parseAdditional segment) true
        headOnly).Within (Effect.Concerns fileid) (BodySpec.Concerns fileid) :=
      handleFileServe_within (parseAdditional segment) headOnly
    refine ⟨fun e he => .inl ⟨fileid, hwarrant, hwithin.1 e he⟩, ?_⟩
    have hbody := hwithin.final fun _ => trivial
    generalize (handleFileServe config a fileid (fromFileid fileid) (parseAdditional segment) true
      headOnly).final.body = b at hbody ⊢
    cases b with
    | static data => trivial
    | random size => exact hbody.elim
    | proxy size => exact ⟨fileid, hwarrant⟩
    | file params =>
      obtain ⟨hv, hhv, hsize, hhash⟩ := hbody
      exact ⟨fileid, hv, hwarrant, hhv, hsize, hhash⟩

theorem warrant_of_parseServerCommand {rest : List Text} {command : ServerCommand}
    (hparts : urlParts uri = [] :: "servercmd".toList :: rest)
    (h : parseServerCommand build sha1 config.signing (urlParts uri) (isRpcAuthorized config peer) =
      .ok command)
    (hvalid : command.valid = true) :
    CommandWarrant build sha1 config uri peer (command.command.map Char.toLower) := by
  rw [hparts] at h
  unfold parseServerCommand at h
  split at h
  · rename_i name additional time key rest' heq
    cases hpeer : isRpcAuthorized config peer with
    | false =>
      simp only [hpeer, Bool.false_eq_true, if_false] at h
      cases h
      cases hvalid
    | true =>
      simp only [hpeer, if_true] at h
      obtain ⟨valid, hauth, hcommand⟩ := bind_eq_ok h
      cases hcommand
      obtain rfl : valid = true := hvalid
      simp only [isRpcAuthorized, Bool.or_eq_true, decide_eq_true_eq] at hpeer
      simp only [List.cons.injEq] at heq
      exact ⟨name, additional, time, key, rest', rfl, by rw [hparts, heq.2.2], hpeer, hauth⟩
  · cases h
    cases hvalid

/-- What a command answers with: a text, or the random bytes of an authorized `speed_test`. -/
theorem body_of_serverCommand {rest : List Text} {command : ServerCommand}
    (hparts : urlParts uri = [] :: "servercmd".toList :: rest)
    (h : parseServerCommand build sha1 config.signing (urlParts uri) (isRpcAuthorized config peer) =
      .ok command) :
    (∃ data, (handleRequest config a (.serverCommand command)).final.body = .static data) ∨
      (∃ size, (handleRequest config a (.serverCommand command)).final.body = .random size) ∧
        CommandWarrant build sha1 config uri peer "speed_test".toList := by
  simp only [handleRequest]
  split_ifs with hvalid
  · have hwarrant := warrant_of_parseServerCommand hparts h hvalid
    have hbody := (handleServerCommand_within (a := a) command.command command.additional).final
      fun _ => trivial
    generalize (handleServerCommand a command.command command.additional).final.body = b at hbody ⊢
    cases b with
    | static data => exact .inl ⟨data, rfl⟩
    | random size =>
      have hname : command.command.map Char.toLower = "speed_test".toList := hbody
      exact .inr ⟨⟨size, rfl⟩, hname ▸ hwarrant⟩
    | proxy size => exact hbody.elim
    | file params => exact hbody.elim
  · exact .inl ⟨_, rfl⟩

theorem warranted_serverCommand {rest : List Text} {command : ServerCommand}
    (hparts : urlParts uri = [] :: "servercmd".toList :: rest)
    (h : parseServerCommand build sha1 config.signing (urlParts uri) (isRpcAuthorized config peer) =
      .ok command) :
    Warranted build sha1 config uri peer (handleRequest config a (.serverCommand command)) := by
  constructor
  · simp only [handleRequest]
    split_ifs with hvalid
    · have hwithin := handleServerCommand_within (a := a) command.command command.additional
      exact fun e he => .inr ⟨_, hwithin.1 e he, warrant_of_parseServerCommand hparts h hvalid⟩
    · simp [answer]
  · rcases body_of_serverCommand (a := a) hparts h with ⟨data, hbody⟩ | ⟨⟨size, hbody⟩, hwarrant⟩
    · rw [hbody]
      trivial
    · rw [hbody]
      exact .inr hwarrant

theorem warranted_speedTest {rest : List Text} {test : SpeedTest} {headOnly : Bool}
    (hparts : urlParts uri = [] :: "t".toList :: rest)
    (h : parseSpeedTest build sha1 config.signing (urlParts uri) = .ok test) :
    Warranted build sha1 config uri peer (handleSpeedtest test headOnly) := by
  unfold handleSpeedtest
  split_ifs with hvalid
  · exact warranted_answer rfl
  · refine ⟨by simp [answer], .inl ?_⟩
    rw [hparts] at h
    unfold parseSpeedTest at h
    split at h
    · rename_i testsize testtime key rest' heq
      obtain ⟨valid, hauth, htest⟩ := bind_eq_ok h
      cases htest
      obtain rfl : valid = true := hvalid
      simp only [List.cons.injEq] at heq
      exact ⟨testsize, testtime, key, rest', by rw [hparts, heq.2.2], rfl, hauth⟩
    · cases h
      cases hvalid
  · exact warranted_answer rfl
  · exact warranted_answer rfl

/-- Whatever the method, the path and the peer: a file is looked up, opened, fetched or sent only
on a path whose key stamp authorizes it, each effect of a command comes only from the command of its
name, for a peer that may send it with a key that authorizes it, and random bytes are sent only
for an authorized test or the command `speed_test`. -/
theorem serve_warranted (build : Build) (sha1 : Bytes → Sha1Digest) (config : RequestConfig)
    (a : Answers) (method uri : Text) (peer : IpAddr) (h : Handled)
    (hserve : serve build sha1 config a method uri peer = .ok h) :
    Warranted build sha1 config uri peer h := by
  unfold serve at hserve
  cases hparse : parseRequest build sha1 config method uri peer with
  | error e =>
    rw [hparse] at hserve
    cases hserve
  | ok request =>
    rw [hparse] at hserve
    cases hserve
    cases parsed_of_parseRequest hparse with
    | fileServe hparts hvalid => exact warranted_fileServe hparts hvalid
    | serverCommand hparts hcommand => exact warranted_serverCommand hparts hcommand
    | speedTest hparts htest => exact warranted_speedTest hparts htest
    | plain hplain =>
      cases request with
      | favicon | robots | notFound | badRequest | methodNotAllowed => exact warranted_answer rfl
      | fileServe | serverCommand | speedTest => exact hplain.elim

end Main

/-- The address of the server, which may send commands. -/
def samplePeer : IpAddr := .v4 ⟨10, 0, 0, 1⟩

def sampleRequests : RequestConfig := ⟨sampleConfig, [samplePeer], false, false⟩

def idleAnswers : Answers where
  cacheHit := true
  recentlyAccessed := false
  onCooldown := false
  opened := some 4
  fetched := none
  isUrl _ := true
  proxy := .error (502, [])
  tempOpened := true
  proxyTest := (0, 0)

def samplePath : Text := "/servercmd/refresh_certs//1700000000/".toList ++ sampleKey

theorem samplePath_warranted : ∃ h,
    serve .release sampleDigest sampleRequests idleAnswers "GET".toList samplePath samplePeer = .ok h ∧
    h.effects = [.refreshCerts] ∧
    CommandWarrant .release sampleDigest sampleRequests samplePath samplePeer "refresh_certs".toList := by
  have hserve : serve .release sampleDigest sampleRequests idleAnswers "GET".toList samplePath samplePeer =
      .ok ⟨[.refreshCerts], some (textResponse 200 [])⟩ := by rfl
  refine ⟨_, hserve, rfl, ?_⟩
  obtain ⟨heffects, -⟩ := serve_warranted _ _ _ _ _ _ _ _ hserve
  obtain ⟨fileid, -, hconcerns⟩ | ⟨name, hname, hwarrant⟩ :=
    heffects .refreshCerts (List.mem_singleton_self _)
  · exact hconcerns.elim
  · obtain rfl := Option.some.inj hname
    exact hwarrant

/-! ## HEAD and GET -/

/-- Everything of the response but its body. -/
structure SameHead (r r' : ResponseSpec) : Prop where
  status : r.status = r'.status
  contentType : r.contentType = r'.contentType
  declaredLength : r.declaredLength = r'.declaredLength
  headers : r.headers = r'.headers

theorem SameHead.refl (r : ResponseSpec) : SameHead r r := ⟨rfl, rfl, rfl, rfl⟩

/-- A GET asks for what a HEAD asks for and has the same head. Only where it goes on to open the
temporary file of a proxy download it can still fail. -/
def Agrees (a : Answers) (get head : Handled) : Prop :=
  (SameHead get.final head.final ∧
    (get.effects = head.effects ∨
      ∃ fileid, get.effects = head.effects ++ [.openTempFile fileid] ∧ a.tempOpened = true)) ∨
  (∃ fileid, get.effects = head.effects ++ [.openTempFile fileid] ∧ a.tempOpened = false ∧
    get.final.status = 500 ∧ head.final.status = 200)

/-- A HEAD has no body, or the static one of the GET. -/
def HeadBody (get head : ResponseSpec) : Prop :=
  head.body = .static [] ∨ ∃ data, get.body = .static data ∧ head.body = .static data

/-- The two responses to a request that is not a command. -/
structure Alike (a : Answers) (get head : Handled) : Prop where
  agrees : Agrees a get head
  body : HeadBody get.final head.final

section Head

variable {a : Answers} {config : RequestConfig} {fileid : Text} {get head : Handled}

theorem agrees_refl (h : Handled) : Agrees a h h := .inl ⟨SameHead.refl _, .inl rfl⟩

/-- A fixed text is sent to both. -/
theorem alike_refl {h : Handled} {data : Bytes} (hbody : h.final.body = .static data) : Alike a h h :=
  ⟨agrees_refl h, .inr ⟨data, hbody, hbody⟩⟩

theorem Agrees.after (h : Agrees a get head) (effects : List Effect) :
    Agrees a (get.after effects) (head.after effects) := by
  rcases h with ⟨hhead, heq | ⟨fileid, heq, hopen⟩⟩ | ⟨fileid, heq, hopen, hget, hok⟩
  · exact .inl ⟨hhead, .inl (by simp [Handled.after, heq])⟩
  · exact .inl ⟨hhead, .inr ⟨fileid, by simp [Handled.after, heq], hopen⟩⟩
  · exact .inr ⟨fileid, by simp [Handled.after, heq], hopen, hget, hok⟩

theorem Alike.after (h : Alike a get head) (effects : List Effect) :
    Alike a (get.after effects) (head.after effects) :=
  ⟨h.agrees.after effects, h.body⟩

theorem fileResponse_alike (hv : HVFile) (verify : Bool) :
    Alike a (fileResponse a hv false verify) (fileResponse a hv true verify) := by
  unfold fileResponse
  cases a.opened with
  | none => exact alike_refl rfl
  | some length =>
    simp only [Bool.false_eq_true, if_false, if_true]
    split_ifs
    · exact alike_refl rfl
    · exact ⟨.inl ⟨⟨rfl, rfl, rfl, rfl⟩, .inl rfl⟩, .inl rfl⟩

theorem intoResponse_alike (contentLength : ℕ) (contentType : Text) :
    Alike a (intoResponse a fileid contentLength contentType false)
      (intoResponse a fileid contentLength contentType true) := by
  simp only [intoResponse, Bool.false_eq_true, if_false, if_true]
  cases hopen : a.tempOpened with
  | true => exact ⟨.inl ⟨⟨rfl, rfl, rfl, rfl⟩, .inr ⟨fileid, rfl, hopen⟩⟩, .inl rfl⟩
  | false => exact ⟨.inr ⟨fileid, rfl, hopen, rfl, rfl⟩, .inl rfl⟩

theorem fetchFile_alike (fileindex xres : Text) :
    Alike a (fetchFile a fileid fileindex xres false) (fetchFile a fileid fileindex xres true) := by
  unfold fetchFile
  refine Alike.after ?_ _
  cases a.fetched with
  | none => exact alike_refl rfl
  | some lines =>
    dsimp only
    cases lines.filter fun line => line ≠ [] && a.isUrl line with
    | nil => exact alike_refl rfl
    | cons source sources =>
      refine Alike.after ?_ _
      cases a.proxy with
      | error e => exact alike_refl rfl
      | ok result => exact intoResponse_alike result.1 result.2

theorem handleFileServe_alike (hvFile : Option HVFile) (additional : Additional) (valid : Bool) :
    Alike a (handleFileServe config a fileid hvFile additional valid false)
      (handleFileServe config a fileid hvFile additional valid true) := by
  cases valid with
  | false => exact alike_refl rfl
  | true =>
    unfold handleFileServe
    simp only [Bool.not_true, Bool.false_eq_true, if_false]
    split
    · split_ifs
      · exact alike_refl rfl
      · exact ((fileResponse_alike _ _).after _).after _
      · exact (fetchFile_alike _ _).after _
    · exact alike_refl rfl

theorem handleSpeedtest_alike (test : SpeedTest) :
    Alike a (handleSpeedtest test false) (handleSpeedtest test true) := by
  simp only [handleSpeedtest, Bool.false_eq_true, if_false, if_true]
  split_ifs
  · exact ⟨.inl ⟨⟨rfl, rfl, rfl, rfl⟩, .inl rfl⟩, .inl rfl⟩
  · exact alike_refl rfl
  · exact alike_refl rfl

end Head

/-- The request with the method HEAD. -/
def RequestType.asHead : RequestType → RequestType
  | .fileServe fileid hvFile additional keystampValid _ =>
    .fileServe fileid hvFile additional keystampValid true
  | .speedTest test _ => .speedTest test true
  | request => request

theorem map_bind {ε α β γ : Type} (x : Except ε α) (f : α → Except ε β) (g : β → γ) :
    (x >>= f).map g = x >>= fun a => (f a).map g := by
  cases x <;> rfl

theorem routeRequest_head (build : Build) (sha1 : Bytes → Sha1Digest) (config : RequestConfig)
    (parts : List Text) (peer : IpAddr) :
    routeRequest build sha1 config parts true peer =
      (routeRequest build sha1 config parts false peer).map RequestType.asHead := by
  unfold routeRequest
  split
  · split_ifs
    · unfold parseFileServe
      split
      · rw [map_bind]
        rfl
      · rfl
    · rw [map_bind]
      rfl
    · rw [map_bind]
      rfl
    · rfl
    · rfl
    · rfl
    · rfl
  · rfl

/-- What is parsed from a GET, handled as a GET and as a HEAD. A command does not tell them apart. -/
theorem handleRequest_head {build : Build} {sha1 : Bytes → Sha1Digest} {config : RequestConfig}
    {uri : Text} {peer : IpAddr} {request : RequestType} (a : Answers)
    (h : Parsed build sha1 config (urlParts uri) false peer request) :
    Alike a (handleRequest config a request) (handleRequest config a request.asHead) ∨
      handleRequest config a request.asHead = handleRequest config a request ∧
        (∃ size, (handleRequest config a request).final.body = .random size) ∧
        CommandWarrant build sha1 config uri peer "speed_test".toList := by
  cases h with
  | fileServe => exact .inl (handleFileServe_alike _ _ _)
  | serverCommand hparts hcommand =>
    rcases body_of_serverCommand (a := a) hparts hcommand with ⟨data, hbody⟩ | hrandom
    · exact .inl (alike_refl hbody)
    · exact .inr ⟨rfl, hrandom⟩
  | speedTest => exact .inl (handleSpeedtest_alike _)
  | plain hplain =>
    cases request with
    | favicon | robots | notFound | badRequest | methodNotAllowed => exact .inl (alike_refl rfl)
    | fileServe | serverCommand | speedTest => exact hplain.elim

/-- For every path, peer and state of the cache a HEAD is answered as a GET: with the same status,
type, length and headers, and with the same lookups and requests made. The one exception is a
GET that cannot open the temporary file of the proxy download that it has started. Its body is
empty or the static one of the GET, unless it is an authorized command `speed_test`, which
sends its random bytes to a HEAD too. -/
theorem head_agrees_with_get (build : Build) (sha1 : Bytes → Sha1Digest) (config : RequestConfig)
    (a : Answers) (uri : Text) (peer : IpAddr) (get : Handled)
    (hget : serve build sha1 config a "GET".toList uri peer = .ok get) :
    ∃ head, serve build sha1 config a "HEAD".toList uri peer = .ok head ∧ Agrees a get head ∧
      (HeadBody get.final head.final ∨ head = get ∧ (∃ size, get.final.body = .random size) ∧
        CommandWarrant build sha1 config uri peer "speed_test".toList) := by
  have hmethods : parseRequest build sha1 config "GET".toList uri peer =
      routeRequest build sha1 config (urlParts uri) false peer ∧
      parseRequest build sha1 config "HEAD".toList uri peer =
      routeRequest build sha1 config (urlParts uri) true peer :=
    ⟨if_pos (.inl (by decide)), if_pos (.inr (by decide))⟩
  unfold serve at hget ⊢
  rw [hmethods.1] at hget
  rw [hmethods.2, routeRequest_head]
  cases hroute : routeRequest build sha1 config (urlParts uri) false peer with
  | error e =>
    rw [hroute] at hget
    cases hget
  | ok request =>
    rw [hroute] at hget
    cases hget
    rcases handleRequest_head a (parsed_of_routeRequest hroute) with halike | hcommand
    · exact ⟨_, rfl, halike.agrees, .inl halike.body⟩
    · exact ⟨_, rfl, hcommand.1 ▸ agrees_refl _, .inr hcommand⟩

/-- The SHA-1 digest of the string for the key stamp of `sampleId`. -/
def stampDigest (_ : Bytes) : Sha1Digest :=
  #v[0x71, 0xbf, 0x08, 0x00, 0x9a, 0xf2, 0xf2, 0x1b, 0x3c, 0x31, 0x99, 0x2c, 0x21, 0x2f, 0xa6,
    0x8d, 0xee, 0xd1, 0x24, 0x7c]

def sampleFilePath : Text :=
  "/h/".toList ++ sampleId ++ "/keystamp%3d1700000000-71bf08009a;fileindex=7;xres=org/".toList

theorem head_of_sampleFilePath : ∃ get head,
    serve .release stampDigest sampleRequests idleAnswers "GET".toList sampleFilePath samplePeer =
      .ok get ∧
    serve .release stampDigest sampleRequests idleAnswers "HEAD".toList sampleFilePath samplePeer =
      .ok head ∧
    get.final.body = .file ⟨4, sampleHash.text, false, true⟩ ∧ Agrees idleAnswers get head ∧
    head.final.body = .static [] := by
  have hserve : serve .release stampDigest sampleRequests idleAnswers "GET".toList sampleFilePath
      samplePeer = .ok (((fileResponse idleAnswers sampleFile false false).after
        [.markRecentlyAccessed sampleId]).after [.lookUp sampleId]) := by rfl
  obtain ⟨head, hhead, hagrees, hbody⟩ := head_agrees_with_get _ _ _ _ _ _ _ hserve
  refine ⟨_, head, hserve, hhead, rfl, hagrees, ?_⟩
  rcases hbody with (hempty | ⟨data, hget, -⟩) | ⟨-, ⟨size, hget⟩, -⟩
  · exact hempty
  · cases hget
  · cases hget

/-! ## A signed path is accepted -/

/-- A character that means nothing to the parsers of a path. -/
def isInert (c : Char) : Bool := c ≠ '/' && c ≠ '%' && c ≠ ';' && !isWhitespace c

def Inert (t : Text) : Prop := ∀ c ∈ t, isInert c = true

theorem Inert.ne {t : Text} (h : Inert t) {c d : Char} (hc : c ∈ t) (hd : isInert d = false) :
    c ≠ d := by
  rintro rfl
  rw [h c hc] at hd
  cases hd

theorem Inert.notMem {t : Text} (h : Inert t) {d : Char} (hd : isInert d = false) : d ∉ t :=
  fun hmem => h.ne hmem hd rfl

theorem Inert.noWhitespace {t : Text} (h : Inert t) : ∀ c ∈ t, isWhitespace c = false := by
  intro c hc
  have hinert := h c hc
  simp only [isInert, Bool.and_eq_true, Bool.not_eq_true'] at hinert
  exact hinert.2

theorem Inert.append {s t : Text} (hs : Inert s) (ht : Inert t) : Inert (s ++ t) := by
  intro c hc
  rcases List.mem_append.mp hc with hc | hc
  · exact hs c hc
  · exact ht c hc

theorem Inert.cons {c : Char} {t : Text} (hc : isInert c = true) (ht : Inert t) : Inert (c :: t) := by
  intro d hd
  rcases List.mem_cons.mp hd with rfl | hd
  · exact hc
  · exact ht d hd

theorem isInert_of_isAlphanum {c : Char} (h : c.isAlphanum = true) : isInert c = true := by
  have hne : ∀ d : Char, d.isAlphanum = false → c ≠ d := by
    rintro d hd rfl
    rw [h] at hd
    cases hd
  simp [isInert, hne '/' (by decide), hne '%' (by decide), hne ';' (by decide),
    isWhitespace_of_isAlphanum h]

theorem inert_of_isLowerHexChar {t : Text} (h : ∀ c ∈ t, isLowerHexChar c = true) : Inert t :=
  fun c hc => isInert_of_isAlphanum (isAlphanum_of_isLowerHexChar (h c hc))

theorem inert_decimal (n : ℕ) : Inert (decimal n) := fun _ hc =>
  isInert_of_isAlphanum (isAlphanum_of_isDigit (isDigit_of_mem_decimal hc))

theorem mem_of_mem_intercalate {sep c : Char} {texts : List Text}
    (h : c ∈ [sep].intercalate texts) : c = sep ∨ ∃ t ∈ texts, c ∈ t := by
  induction texts with
  | nil => cases h
  | cons t texts ih =>
    cases texts with
    | nil =>
      rw [List.intercalate_singleton] at h
      exact .inr ⟨t, List.mem_cons_self, h⟩
    | cons u texts =>
      rw [List.intercalate_cons_cons, List.append_assoc, List.singleton_append] at h
      rcases List.mem_append.mp h with hc | hc
      · exact .inr ⟨t, List.mem_cons_self, hc⟩
      · rcases List.mem_cons.mp hc with rfl | hc
        · exact .inl rfl
        · exact (ih hc).imp_right fun ⟨v, hv, hcv⟩ => ⟨v, List.mem_cons_of_mem t hv, hcv⟩

theorem inert_intercalate {texts : List Text} (h : ∀ t ∈ texts, Inert t) :
    Inert (['-'].intercalate texts) := by
  intro c hc
  rcases mem_of_mem_intercalate hc with rfl | ⟨t, ht, hct⟩
  · decide
  · exact h t ht c hct

theorem inert_of_fromFileid {id : Text} {hv : HVFile} (h : fromFileid id = some hv) : Inert id := by
  have hdigits : ∀ {most : ℕ} {t : Text}, isDigits most t = true → Inert t := by
    intro most t ht c hc
    simp only [isDigits, Bool.and_eq_true, List.all_eq_true] at ht
    exact isInert_of_isAlphanum (isAlphanum_of_isDigit (ht.2 c hc))
  have hhash : ∀ {t : Text}, isHashText t = true → Inert t := by
    intro t ht
    simp only [isHashText, Bool.and_eq_true, List.all_eq_true] at ht
    exact inert_of_isLowerHexChar ht.2
  have hext : ∀ ext ∈ extensions, Inert ext := by
    have hall : extensions.all (fun ext => ext.all isInert) = true := by decide
    exact fun ext he => List.all_eq_true.mp (List.all_eq_true.mp hall ext he)
  have hjoin : ['-'].intercalate (id.splitOn '-') = id := List.intercalate_splitOn '-'
  rw [← hjoin]
  refine inert_intercalate ?_
  rcases fromFileid_cases h with ⟨hash, size, ext, hsplit, hh, hs, he, -⟩ |
    ⟨hash, size, xres, yres, ext, hsplit, hh, hs, hx, hy, he, -⟩
  · rw [hsplit]
    simpa using ⟨hhash hh, hdigits hs, hext ext he⟩
  · rw [hsplit]
    simpa using ⟨hhash hh, hdigits hs, hdigits hx, hdigits hy, hext ext he⟩

/-! ### Additional fields as they are written -/

def Field.name : Field → String
  | .keystamp => "keystamp"
  | .fileindex => "fileindex"
  | .xres => "xres"
  | .hostname => "hostname"
  | .protocol => "protocol"
  | .port => "port"
  | .testsize => "testsize"
  | .testcount => "testcount"
  | .testtime => "testtime"
  | .testkey => "testkey"

theorem Field.ofName_name (field : Field) : Field.ofName field.name.toList = some field := by
  cases field <;> decide

theorem Field.name_of_ofName {name : Text} {field : Field} (h : Field.ofName name = some field) :
    field.name.toList = name := by
  obtain ⟨entry, hfind, rfl⟩ := Option.map_eq_some_iff.mp h
  have hnames : ∀ e ∈ fieldNames, e.2.name = e.1 := by decide
  have hname := List.find?_some hfind
  rw [hnames entry (List.mem_of_find?_eq_some hfind)]
  exact of_decide_eq_true hname

theorem Field.inert_name (field : Field) : Inert field.name.toList := by
  have h : field.name.toList.all isInert = true := by cases field <;> decide
  exact List.all_eq_true.mp h

/-- A pair as it is written, under a name that need not be one of these. -/
def pairText (pair : Text × Text) : Text := pair.1 ++ '=' :: pair.2

/-- The additional segment of a path, with the pairs in any order. -/
def additionalText (pairs : List (Text × Text)) : Text := [';'].intercalate (pairs.map pairText)

/-- Nothing in the pair means anything to the parsers but the sign between its name and value. -/
structure InertPair (pair : Text × Text) : Prop where
  name : Inert pair.1
  equals : '=' ∉ pair.1
  value : Inert pair.2

theorem InertPair.text {pair : Text × Text} (h : InertPair pair) : Inert (pairText pair) :=
  h.name.append (h.value.cons (by decide))

theorem inertPair_name (field : Field) {value : Text} (h : Inert value) :
    InertPair (field.name.toList, value) := by
  have hequals : '=' ∉ field.name.toList := by cases field <;> decide
  exact ⟨field.inert_name, hequals, h⟩

/-- A pair sets the field of its name, unless it is too short to be one. -/
theorem addPair_pairText (out : Additional) {pair : Text × Text} (h : InertPair pair) :
    addPair out (pairText pair) =
      if 2 < (utf8 (pairText pair)).length then
        match Field.ofName pair.1 with
        | some field => Function.update out field (some pair.2)
        | none => out
      else out := by
  have hsplit : splitOnce '=' (pairText pair) = some (pair.1, pair.2) := splitOnce_append h.equals pair.2
  simp only [addPair, hsplit, trim_of_noWhitespace h.name.noWhitespace,
    trim_of_noWhitespace h.value.noWhitespace]

theorem addPair_name (out : Additional) (field : Field) {value : Text} (h : Inert value) :
    addPair out (pairText (field.name.toList, value)) field = some value := by
  have hlong : 2 < (utf8 (pairText (field.name.toList, value))).length := by
    have hname : 4 ≤ (utf8 field.name.toList).length := by cases field <;> decide
    rw [pairText, utf8_append, List.length_append]
    dsimp only
    omega
  rw [addPair_pairText out (inertPair_name field h), if_pos hlong, Field.ofName_name]
  exact Function.update_self ..

/-- A pair of another name leaves the field alone, also one of no known name. -/
theorem addPair_of_ne (out : Additional) {pair : Text × Text} (h : InertPair pair) {field : Field}
    (hne : pair.1 ≠ field.name.toList) : addPair out (pairText pair) field = out field := by
  rw [addPair_pairText out h]
  split_ifs
  · cases hname : Field.ofName pair.1 with
    | none => rfl
    | some other =>
      have hother : field ≠ other := by
        rintro rfl
        exact hne (Field.name_of_ofName hname).symm
      exact Function.update_of_ne hother ..
  · rfl

/-- Where every pair of the field's name has this value, so has the field. -/
theorem foldl_addPair {pairs : List (Text × Text)} (h : ∀ pair ∈ pairs, InertPair pair) {field : Field}
    {value : Text} (hsame : ∀ pair ∈ pairs, pair.1 = field.name.toList → pair.2 = value)
    {out : Additional} (hsome : out field = some value ∨ (field.name.toList, value) ∈ pairs) :
    (pairs.map pairText).foldl addPair out field = some value := by
  induction pairs generalizing out with
  | nil => exact hsome.resolve_right (List.not_mem_nil)
  | cons pair pairs ih =>
    have hpair := h pair List.mem_cons_self
    rw [List.map_cons, List.foldl_cons]
    refine ih (fun p hp => h p (List.mem_cons_of_mem pair hp))
      (fun p hp => hsame p (List.mem_cons_of_mem pair hp)) ?_
    by_cases hname : pair.1 = field.name.toList
    · obtain ⟨name, v⟩ := pair
      obtain rfl : name = field.name.toList := hname
      obtain rfl : v = value := hsame _ List.mem_cons_self rfl
      exact .inl (addPair_name out field hpair.value)
    · rw [addPair_of_ne out hpair hname]
      refine hsome.imp_right fun hmem => (List.mem_cons.mp hmem).resolve_left fun heq => hname ?_
      rw [← heq]

/-- Whatever the order and the other pairs, a field is read back from the segment. -/
theorem parseAdditional_additionalText {pairs : List (Text × Text)}
    (hinert : ∀ pair ∈ pairs, InertPair pair) {field : Field} {value : Text}
    (hsame : ∀ pair ∈ pairs, pair.1 = field.name.toList → pair.2 = value)
    (h : (field.name.toList, value) ∈ pairs) :
    parseAdditional (additionalText pairs) field = some value := by
  have htexts : ∀ t ∈ pairs.map pairText, Inert t := by
    intro t ht
    obtain ⟨p, hp, rfl⟩ := List.mem_map.mp ht
    exact (hinert p hp).text
  have hwhite : ∀ c ∈ additionalText pairs, isWhitespace c = false := by
    intro c hc
    rcases mem_of_mem_intercalate hc with rfl | ⟨t, ht, hct⟩
    · decide
    · exact (htexts t ht).noWhitespace c hct
  have hsplit : (additionalText pairs).splitOn ';' = pairs.map pairText :=
    List.splitOn_intercalate ';' (fun t ht => (htexts t ht).notMem (by decide))
      (by simpa using List.ne_nil_of_mem h)
  have hne : additionalText pairs ≠ [] := by
    intro hnil
    have hempty : ([] : Text) ∈ pairs.map pairText := by
      rw [← hsplit, hnil]
      exact List.mem_singleton_self _
    obtain ⟨p, -, hpair⟩ := List.mem_map.mp hempty
    simp [pairText] at hpair
  rw [parseAdditional, if_neg hne, trim_of_noWhitespace hwhite, hsplit]
  exact foldl_addPair hinert hsame (.inr h)

/-! ### The path of a file -/

section Urls

variable {build : Build} {sha1 : Bytes → Sha1Digest} {config : RequestConfig}

/-- The value of `xres`: a width, or the original. -/
def xresText (xres : Option UInt32) : Text := (xres.map fun n => decimal n.toNat).getD "org".toList

/-- The key stamp that the network gives out for a file. -/
def keystampText (sha1 : Bytes → Sha1Digest) (config : RequestConfig) (timestamp : Int64)
    (fileid : Text) : Text :=
  displayI64 timestamp ++ '-' ::
    (digest sha1 config.signing (.keystamp timestamp fileid)).take 10

/-- The path of a file with the name that it is shown under. -/
def fileUrl (fileid : Text) (pairs : List (Text × Text)) (name : Text) : Text :=
  '/' :: 'h' :: '/' :: (fileid ++ '/' :: (additionalText pairs ++ '/' :: name))

theorem decodeEquals_append {s : Text} (h : '%' ∉ s) (t : Text) :
    decodeEquals (s ++ t) = s ++ decodeEquals t := by
  induction s with
  | nil => rfl
  | cons c s ih =>
    rw [List.mem_cons, not_or] at h
    rw [List.cons_append, decodeEquals, ih h.2, List.cons_append]
    rintro _ rfl
    exact absurd rfl h.1

theorem urlParts_fileUrl {fileid : Text} {pairs : List (Text × Text)} (hid : Inert fileid)
    (hpairs : ∀ pair ∈ pairs, InertPair pair) (name : Text) :
    urlParts (fileUrl fileid pairs name) =
      [] :: "h".toList :: fileid :: additionalText pairs :: (decodeEquals name).splitOn '/' := by
  have hchars : ∀ c ∈ additionalText pairs, c = ';' ∨ isInert c = true := by
    intro c hc
    rcases mem_of_mem_intercalate hc with rfl | ⟨t, ht, hct⟩
    · exact .inl rfl
    · obtain ⟨p, hp, rfl⟩ := List.mem_map.mp ht
      exact .inr ((hpairs p hp).text c hct)
  have hnone : ∀ d : Char, d ≠ ';' → isInert d = false → d ∉ additionalText pairs := by
    intro d hd hinert hmem
    rcases hchars d hmem with rfl | h
    · exact hd rfl
    · rw [h] at hinert
      cases hinert
  have hfront : fileUrl fileid pairs name =
      ("/h/".toList ++ fileid ++ ['/'] ++ additionalText pairs ++ ['/']) ++ name := by
    simp [fileUrl]
  have hpercent : '%' ∉ "/h/".toList ++ fileid ++ ['/'] ++ additionalText pairs ++ ['/'] := by
    have h1 := hid.notMem (d := '%') (by decide)
    have h2 := hnone '%' (by decide) (by decide)
    simp [h1, h2]
  have hscheme : stripScheme (fileUrl fileid pairs name) = fileUrl fileid pairs name :=
    if_neg (by simp [fileUrl])
  have hsplit : fileUrl fileid pairs (decodeEquals name) =
      [] ++ '/' :: ("h".toList ++ '/' :: (fileid ++ '/' ::
        (additionalText pairs ++ '/' :: decodeEquals name))) := rfl
  have hdecoded : decodeEquals (fileUrl fileid pairs name) = fileUrl fileid pairs (decodeEquals name) := by
    rw [hfront, decodeEquals_append hpercent]
    simp [fileUrl]
  rw [urlParts, hscheme, hdecoded, hsplit,
    List.splitOn_append_cons_self_of_not_mem (by simp),
    List.splitOn_append_cons_self_of_not_mem (by decide),
    List.splitOn_append_cons_self_of_not_mem (hid.notMem (by decide)),
    List.splitOn_append_cons_self_of_not_mem (hnone '/' (by decide) (by decide))]

theorem lowerHex_digest (s : Signed) :
    ∀ c ∈ (digest sha1 config.signing s).take 10, isLowerHexChar c = true :=
  fun _ hc => isLowerHexChar_of_mem_hexEncode (List.mem_of_mem_take hc)

theorem displayI64_of_nonneg {n : Int64} (h : 0 ≤ n.toInt) :
    displayI64 n = decimal n.toInt.natAbs := by
  rcases displayI64_eq n with ⟨-, h⟩ | ⟨hneg, -⟩
  · exact h
  · omega

theorem inert_keystampText {timestamp : Int64} (h : 0 ≤ timestamp.toInt) (fileid : Text) :
    Inert (keystampText sha1 config timestamp fileid) := by
  rw [keystampText, displayI64_of_nonneg h]
  exact (inert_decimal _).append
    ((inert_of_isLowerHexChar (lowerHex_digest _)).cons (by decide))

/-- No build stops at a key stamp of the network, and within its time it is accepted. -/
theorem validateKeystamp_keystampText {timestamp : Int64} (hpos : 0 ≤ timestamp.toInt)
    (hwindow : |config.signing.serverTime.toInt - timestamp.toInt| < 900) (fileid : Text) :
    validateKeystamp build sha1 config.signing fileid
      (some (keystampText sha1 config timestamp fileid)) = .ok true := by
  obtain ⟨hlow, hhigh⟩ := abs_lt.mp hwindow
  obtain ⟨distance, hdist, habs⟩ := distanceI64_of_fits build (a := config.signing.serverTime)
    (b := timestamp) (by omega) (by omega)
  have hhyphen : '-' ∉ displayI64 timestamp := by
    rw [displayI64_of_nonneg hpos]
    exact hyphen_notMem_decimal _
  have hlength :
      (utf8 ((digest sha1 config.signing (.keystamp timestamp fileid)).take 10)).length = 10 := by
    have hascii : Ascii ((digest sha1 config.signing (.keystamp timestamp fileid)).take 10) :=
      fun c hc => ascii_hexEncode _ c (List.mem_of_mem_take hc)
    rw [length_utf8_ascii hascii, List.length_take, length_digest]
    rfl
  have hnear : ¬900 ≤ distance.toInt := by
    rw [habs]
    exact not_le.mpr hwindow
  simp only [validateKeystamp, keystampText, splitOnce_append hhyphen, parseI64_displayI64, hdist,
    bind, Except.bind, pure, Except.pure, if_neg hnear, hlength, ne_eq, not_true_eq_false, if_false]
  exact congrArg Except.ok (eqIgnoreAsciiCase_refl _)

/-- The answer for a file that is asked for with these fields. -/
def fileAnswer (config : RequestConfig) (a : Answers) (hv : HVFile) (fileid fileindex xres : Text) :
    Handled :=
  (if a.cacheHit then cachedFile config a hv false else fetchFile a fileid fileindex xres false).after
    [.lookUp hv.fileid]

theorem isNumber_decimal (n : UInt32) : isNumber (decimal n.toNat) = true := by
  rw [isNumber, parseU32_decimal]
  rfl

theorem xresText_valid (xres : Option UInt32) :
    (xresText xres = "org".toList || isNumber (xresText xres)) = true := by
  cases xres with
  | none => rfl
  | some n => exact Bool.or_eq_true_iff.mpr (.inr (isNumber_decimal n))

theorem inert_xresText (xres : Option UInt32) : Inert (xresText xres) := by
  cases xres with
  | none => exact List.all_eq_true.mp (show "org".toList.all isInert = true by decide)
  | some n => exact inert_decimal _

variable (sha1 config) in
/-- The fields that the network gives out with a file. -/
def signedPairs (fileid : Text) (timestamp : Int64) (fileindex : UInt32) (xres : Option UInt32) :
    List (Text × Text) :=
  [("keystamp".toList, keystampText sha1 config timestamp fileid),
   ("fileindex".toList, decimal fileindex.toNat), ("xres".toList, xresText xres)]

/-- A further pair, of any other name. -/
structure FurtherPair (pair : Text × Text) : Prop extends InertPair pair where
  other : pair.1 ∉ ["keystamp".toList, "fileindex".toList, "xres".toList]

section Signed

variable {fileid : Text} {timestamp : Int64} {fileindex : UInt32} {xres : Option UInt32}
variable {pairs further : List (Text × Text)}

theorem inert_signedPairs (hpos : 0 ≤ timestamp.toInt) :
    ∀ pair ∈ signedPairs sha1 config fileid timestamp fileindex xres, InertPair pair := by
  intro pair hpair
  simp only [signedPairs, List.mem_cons, List.not_mem_nil, or_false] at hpair
  rcases hpair with rfl | rfl | rfl
  · exact inertPair_name .keystamp (inert_keystampText hpos fileid)
  · exact inertPair_name .fileindex (inert_decimal _)
  · exact inertPair_name .xres (inert_xresText xres)

theorem inert_pairs (hpos : 0 ≤ timestamp.toInt) (hfurther : ∀ pair ∈ further, FurtherPair pair)
    (horder : pairs.Perm (signedPairs sha1 config fileid timestamp fileindex xres ++ further)) :
    ∀ pair ∈ pairs, InertPair pair := by
  intro pair hpair
  rcases List.mem_append.mp (horder.mem_iff.mp hpair) with hsigned | hother
  · exact inert_signedPairs hpos pair hsigned
  · exact (hfurther pair hother).toInertPair

/-- A field of the network is read back from among the further ones. -/
theorem parseAdditional_signed (hpos : 0 ≤ timestamp.toInt)
    (hfurther : ∀ pair ∈ further, FurtherPair pair)
    (horder : pairs.Perm (signedPairs sha1 config fileid timestamp fileindex xres ++ further))
    {field : Field} {value : Text}
    (h : (field.name.toList, value) ∈ signedPairs sha1 config fileid timestamp fileindex xres) :
    parseAdditional (additionalText pairs) field = some value := by
  have hnames : ((signedPairs sha1 config fileid timestamp fileindex xres).map Prod.fst).Nodup := by
    show ["keystamp".toList, "fileindex".toList, "xres".toList].Nodup
    decide
  refine parseAdditional_additionalText (inert_pairs hpos hfurther horder) (fun pair hpair hname => ?_)
    (horder.mem_iff.mpr (List.mem_append_left _ h))
  rcases List.mem_append.mp (horder.mem_iff.mp hpair) with hsigned | hother
  · have hsame := List.inj_on_of_nodup_map hnames hsigned h hname
    rw [hsame]
  · refine absurd ?_ (hfurther pair hother).other
    rw [hname]
    exact List.mem_map_of_mem (f := Prod.fst) h

theorem serve_fileUrl {hv : HVFile} (hhv : fromFileid fileid = some hv) (hpos : 0 ≤ timestamp.toInt)
    (hwindow : |config.signing.serverTime.toInt - timestamp.toInt| < 900)
    (hfurther : ∀ pair ∈ further, FurtherPair pair)
    (horder : pairs.Perm (signedPairs sha1 config fileid timestamp fileindex xres ++ further))
    (a : Answers) (name : Text) (peer : IpAddr) :
    serve build sha1 config a "GET".toList (fileUrl fileid pairs name) peer =
      .ok (fileAnswer config a hv fileid (decimal fileindex.toNat) (xresText xres)) := by
  have hmethod : parseRequest build sha1 config "GET".toList (fileUrl fileid pairs name) peer =
      routeRequest build sha1 config (urlParts (fileUrl fileid pairs name)) false peer :=
    if_pos (.inl (by decide))
  have hkey : parseAdditional (additionalText pairs) .keystamp =
      some (keystampText sha1 config timestamp fileid) :=
    parseAdditional_signed hpos hfurther horder List.mem_cons_self
  have hfile : parseAdditional (additionalText pairs) .fileindex = some (decimal fileindex.toNat) :=
    parseAdditional_signed hpos hfurther horder (.tail _ List.mem_cons_self)
  have hwidth : parseAdditional (additionalText pairs) .xres = some (xresText xres) :=
    parseAdditional_signed hpos hfurther horder (.tail _ (.tail _ List.mem_cons_self))
  rw [serve, hmethod, urlParts_fileUrl (inert_of_fromFileid hhv) (inert_pairs hpos hfurther horder)]
  simp only [routeRequest, if_true, parseFileServe, hkey,
    validateKeystamp_keystampText hpos hwindow, hhv]
  refine congrArg Except.ok ?_
  simp only [handleRequest, handleFileServe, hfile, hwidth, fileindexValid, xresValid,
    Option.any_some, isNumber_decimal, xresText_valid, Bool.not_true, Bool.or_self,
    Bool.false_eq_true, if_false]
  rfl

end Signed

end Urls

/-- Every file can be fetched with the path that the network gives out for it: whatever the order
of the fields, whatever other fields there are and whatever the name, and whichever peer asks. In
its time, a cached file that opens with its length is answered with its own bytes and that length,
and one that does not with an error; one that is not cached is asked for at the server under the
numbers of the path. -/
theorem signed_path_is_served (build : Build) (sha1 : Bytes → Sha1Digest) (config : RequestConfig)
    (fileid : Text) (hv : HVFile) (timestamp : Int64) (fileindex : UInt32) (xres : Option UInt32)
    (pairs further : List (Text × Text)) (hhv : fromFileid fileid = some hv)
    (hpos : 0 ≤ timestamp.toInt)
    (hwindow : |config.signing.serverTime.toInt - timestamp.toInt| < 900)
    (hfurther : ∀ pair ∈ further, FurtherPair pair)
    (horder : pairs.Perm (signedPairs sha1 config fileid timestamp fileindex xres ++ further))
    (a : Answers) (name : Text) (peer : IpAddr) :
    ∃ h, serve build sha1 config a "GET".toList (fileUrl fileid pairs name) peer = .ok h ∧
      (a.cacheHit = true → a.opened = some hv.size.toNat →
        h.final.status = 200 ∧ h.final.declaredLength = hv.size.toNat ∧
        ∃ params, h.final.body = .file params ∧ params.totalSize = hv.size.toNat ∧
          params.expectedHash = hv.hash.text ∧
          (params.verify = true ↔ a.recentlyAccessed = true ∧
            config.disableFileVerification = false ∧ a.onCooldown = false)) ∧
      (a.cacheHit = true → a.opened ≠ some hv.size.toNat → h.final = internalError) ∧
      (a.cacheHit = false →
        [.lookUp hv.fileid, .staticRangeFetch (decimal fileindex.toNat) (xresText xres) fileid] <+:
          h.effects) := by
  refine ⟨_, serve_fileUrl hhv hpos hwindow hfurther horder a name peer, ?_, ?_, ?_⟩
  · intro hhit hopened
    have hresponse : (fileAnswer config a hv fileid (decimal fileindex.toNat) (xresText xres)).final =
        ⟨200, asMime hv.fileType, hv.size.toNat, .file ⟨hv.size.toNat, hv.hash.text,
          a.recentlyAccessed && !config.disableFileVerification && !a.onCooldown, true⟩, []⟩ := by
      simp [fileAnswer, hhit, cachedFile, fileResponse, hopened, Handled.after, Handled.final]
    rw [hresponse]
    refine ⟨rfl, rfl, _, rfl, rfl, rfl, ?_⟩
    simp [and_assoc]
  · intro hhit hopened
    cases hlength : a.opened with
    | none => simp [fileAnswer, hhit, cachedFile, fileResponse, hlength, Handled.after, Handled.final]
    | some length =>
      have hother : length ≠ hv.size.toNat := fun heq => hopened (hlength.trans (congrArg some heq))
      simp [fileAnswer, hhit, cachedFile, fileResponse, hlength, hother, Handled.after, Handled.final]
  · intro hmiss
    simp [fileAnswer, hmiss, fetchFile, Handled.after]

/-- The fields in another order, with one that the client does not know. -/
def samplePairs : List (Text × Text) :=
  [("xres".toList, "org".toList), ("nl".toList, "24".toList),
   ("keystamp".toList, keystampText stampDigest sampleRequests 1700000000 sampleId),
   ("fileindex".toList, "7".toList)]

theorem sampleId_is_served : ∃ h,
    serve .release stampDigest sampleRequests idleAnswers "GET".toList
      (fileUrl sampleId samplePairs "image.png".toList) samplePeer = .ok h ∧
    h.final.status = 200 ∧ h.final.declaredLength = 4 := by
  have hfurther : ∀ pair ∈ [("nl".toList, "24".toList)], FurtherPair pair := by
    intro pair hpair
    obtain rfl := List.mem_singleton.mp hpair
    have hname : "nl".toList.all isInert = true := by decide
    have hvalue : "24".toList.all isInert = true := by decide
    exact ⟨⟨List.all_eq_true.mp hname, by decide, List.all_eq_true.mp hvalue⟩, by decide⟩
  have horder : samplePairs.Perm (signedPairs stampDigest sampleRequests sampleId 1700000000 7 none ++
      [("nl".toList, "24".toList)]) := by
    decide
  obtain ⟨h, hserve, hcached, -⟩ := signed_path_is_served .release stampDigest sampleRequests sampleId
    sampleFile 1700000000 7 none samplePairs _ fromFileid_sampleId (by decide) (by decide) hfurther
    horder idleAnswers "image.png".toList samplePeer
  exact ⟨h, hserve, (hcached rfl rfl).1, (hcached rfl rfl).2.1⟩

end HathRs.RequestHandling
