import HathRs.CacheHandler
import HathRs.GalleryListings
import HathRs.IpAddresses

/-!
# Settings

The configuration is loaded once from the command line and then changed by the settings that
the server sends. A block size from the server is clamped; one from the command line is taken
as it is. Only the fields that a modelled function reads are kept, and the other settings
change nothing here.
-/

namespace HathRs
open TextParsing HashMaps IpAddresses GalleryListings

structure CliArgs where
  filesystemBlocksize : Option UInt64
  verifyCache : Option Bool

/-- The fields of `Config` that are kept. -/
structure ClientSettings where
  rpcServers : List IpAddr
  disklimitBytes : UInt64
  filesystemBlocksize : UInt64
  maxAllowedFilesize : UInt64
  maxFilenameLength : UInt32
  staticRanges : HashMap Text UInt8
  staticRangeCount : UInt32
  verifyCache : Bool
  rescanCache : Bool

namespace ClientSettings

/-- `Config::load`, behind the credentials. -/
def load (args : CliArgs) : ClientSettings where
  rpcServers := []
  disklimitBytes := 0
  filesystemBlocksize := args.filesystemBlocksize.getD 4096
  maxAllowedFilesize := 1073741824
  maxFilenameLength := 125
  staticRanges := ∅
  staticRangeCount := 0
  verifyCache := args.verifyCache.getD false
  rescanCache := args.verifyCache.getD false

/-- The view of the settings that the cache handler has. -/
def toConfig (s : ClientSettings) : Config where
  disklimitBytes := s.disklimitBytes
  filesystemBlocksize := s.filesystemBlocksize
  staticRangeCount := s.staticRangeCount
  rescanCache := s.rescanCache

def isStaticRange (s : ClientSettings) (range : Text) : Bool := decide (range ∈ s.staticRanges)

/-! ## The values of settings -/

def trim (t : Text) : Text := (trimStart (trimStart t).reverse).reverse

/-- An IPv4-mapped IPv6 address stands for the IPv4 address. -/
def normalizeIp : IpAddr → IpAddr
  | .v4 addr => .v4 addr
  | .v6 addr =>
    if addr.segments.take 6 = [0, 0, 0, 0, 0, 0xffff] then
      .v4 (embedded (addr.segments.getD 6 0) (addr.segments.getD 7 0))
    else .v6 addr

/-- The value of `rpc_server_ip`. What is not an address is left out, and an address may come
twice. -/
def rpcServerIp (value : Text) : List IpAddr :=
  ((value.splitOn ';').filterMap fun s => parseIp (trim s)).map normalizeIp

def clampBlocksize (bs : UInt64) : UInt64 := max 1 (min bs 65536)

/-- The value of `static_ranges`: the texts of four bytes. The count is a machine word. -/
def applyStaticRanges (s : ClientSettings) (value : Text) : ClientSettings :=
  let ranges := (value.splitOn ';').filter fun range => (utf8 range).length = 4
  { s with
    staticRanges := ranges.foldl (fun m range => m.insert range 1) ∅
    staticRangeCount := UInt32.ofNat ranges.length }

def applySetting (s : ClientSettings) (setting value : Text) : ClientSettings :=
  let setting := setting.map fun c => if c = '-' then '_' else c
  if setting = "rpc_server_ip".toList then { s with rpcServers := rpcServerIp value }
  else if setting = "disklimit_bytes".toList then
    let newLimit := (parseU64 value).getD 0
    if s.disklimitBytes ≤ newLimit then { s with disklimitBytes := newLimit } else s
  else if setting = "filesystem_blocksize".toList then
    { s with filesystemBlocksize := clampBlocksize ((parseU64 value).getD 4096) }
  else if setting = "rescan_cache".toList then { s with rescanCache := value = "true".toList }
  else if setting = "verify_cache".toList then
    { s with verifyCache := value = "true".toList, rescanCache := value = "true".toList }
  else if setting = "max_allowed_filesize".toList then
    { s with maxAllowedFilesize := (parseU64 value).getD 1073741824 }
  else if setting = "max_filename_length".toList then
    { s with maxFilenameLength := (parseU32 value).getD 125 }
  else if setting = "static_ranges".toList then s.applyStaticRanges value
  else if setting = "static_range_count".toList then
    { s with staticRangeCount := (parseU32 value).getD s.staticRangeCount }
  else s

/-- The settings after any sequence of changes. -/
def applySettings (s : ClientSettings) (changes : List (Text × Text)) : ClientSettings :=
  changes.foldl (fun s change => s.applySetting change.1 change.2) s

end ClientSettings
end HathRs
