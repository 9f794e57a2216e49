import Ferrite.App.State
import Ferrite.Dns.Custom

/-!
# The whole configuration file

`App.Config` is the part of the configuration the settings can change.  Here is `Config`
of `core/src/config.rs` with all of its sections, for what works on the file as a whole.
The sections nothing here looks into (`notifications`, `mcp`, `dhcp`, `ra`, `secure_dns`,
`relay`) are one field of any type.
-/

namespace Ferrite.ConfigFile

open App Dns Upstream

/-- `ClientAliasConfig`. -/
structure ClientAliasConfig where
  ip : Option Text
  mac : Option Text
  name : Text
deriving DecidableEq, Repr

/-- `YoutubeRestrict`. -/
inductive YoutubeRestrict where
  | off
  | moderate
  | strict
deriving DecidableEq, Repr

/-- `ScheduleWindow`. -/
structure ScheduleWindow where
  days : List Text
  start : Text
  stop : Text
deriving DecidableEq, Repr

/-- `BlocklistProfileConfig`. -/
structure BlocklistProfileConfig where
  id : Text
  name : Text
  lists : List Text
  clients : List Text
  block : List Text
  services : List Text
  safeSearch : Bool
  youtubeRestricted : YoutubeRestrict
  allow : List Text
  allowlists : List Text
  defaultDeny : Bool
  schedule : List ScheduleWindow
deriving DecidableEq, Repr

/-- `ListConfig`. -/
structure ListConfig where
  url : Text
  name : Text
  enabled : Bool
deriving DecidableEq, Repr

/-- `BlocklistConfig`. -/
structure BlocklistConfig extends App.BlocklistConfig where
  lists : List ListConfig
  domains : List Text
  services : List Text
  safeSearch : Bool
  youtubeRestricted : YoutubeRestrict
  wildcardBlock : List Text
  whitelist : List Text
  profiles : List BlocklistProfileConfig
deriving DecidableEq, Repr

/-- `AllowlistConfig`. -/
structure AllowlistConfig where
  domains : List Text
  lists : List ListConfig
deriving DecidableEq, Repr

/-- `EgressConfig`. -/
structure EgressConfig where
  id : Text
  name : Text
  enabled : Bool
  kind : Text
  address : Option Text
  port : Option UInt16
  username : Option Text
  password : Option Text
  config : Option Text
  segPosition : Option UInt16
  bufferKb : Option UInt32
  txBufferKb : Option UInt32
  backend : Option Text
deriving DecidableEq, Repr

/-- `RuleConfig`. -/
structure RuleConfig where
  pattern : Text
  service : Option Text
  egress : Text
  failClosed : Bool
  clients : List Text
deriving DecidableEq, Repr

/-- `ProxyConfig`. -/
structure ProxyConfig where
  enabled : Bool
  httpPort : UInt16
  httpsPort : UInt16
  advertiseIpv4 : Option Ipv4Addr
  advertiseIpv6 : Option Ipv6Addr
  routeAway : Bool
  awayIpv4 : Option Ipv4Addr
  awayIpv6 : Option Ipv6Addr
  maxConnections : ℕ
  alertWebhook : Option Text
  probeTarget : Option Text
  egresses : List EgressConfig
  rules : List RuleConfig
deriving DecidableEq, Repr

/-- `SyncSection`. -/
inductive SyncSection where
  | filtering
  | records
  | devices
  | dns
  | tunnels
deriving DecidableEq, Repr

/-- `SyncConfig`. -/
structure SyncConfig where
  primary : Text
  apiKey : Option Text
  interval : ℕ
  sections : List SyncSection
deriving DecidableEq, Repr

/-- `Config`; `R` is what the other sections hold. -/
structure Config (R : Type) where
  dns : DnsConfig
  upstream : List UpstreamConfig
  storage : StorageConfig
  api : ApiConfig
  panel : PanelConfig
  blocklist : BlocklistConfig
  allowlist : AllowlistConfig
  zones : List ZoneConfig
  customRecords : List CustomRecordConfig
  clientAliases : List ClientAliasConfig
  proxy : ProxyConfig
  sync : SyncConfig
  others : R
  debugLogging : Bool
  webDir : Option Text

/-- `Config::default`, over the data directory and the defaults of the other sections. -/
def Config.default {R : Type} (dataDir : Text) (others : R) : Config R :=
  let settings := App.Config.default dataDir
  { dns := settings.dns
    upstream := settings.upstream
    storage := settings.storage
    api := settings.api
    panel := settings.panel
    blocklist := {
      settings.blocklist with
      lists := [⟨"https://raw.githubusercontent.com/StevenBlack/hosts/master/hosts".toList,
        "StevenBlack".toList, true⟩]
      domains := []
      services := []
      safeSearch := false
      youtubeRestricted := .off
      wildcardBlock := []
      whitelist := []
      profiles := [] }
    allowlist := ⟨[], []⟩
    zones := settings.zones
    customRecords := []
    clientAliases := []
    proxy := {
      enabled := false
      httpPort := 80
      httpsPort := 443
      advertiseIpv4 := none
      advertiseIpv6 := none
      routeAway := false
      awayIpv4 := none
      awayIpv6 := none
      maxConnections := 128
      alertWebhook := none
      probeTarget := none
      egresses := []
      rules := [] }
    sync := ⟨[], none, 300, [.filtering, .records, .devices, .dns]⟩
    others := others
    debugLogging := settings.debugLogging
    webDir := settings.webDir }

end Ferrite.ConfigFile
