import Ferrite.Api.Sessions
import Ferrite.Blocklist.Engine
import Ferrite.Dns.Answers
import Ferrite.Dns.Gate
import Ferrite.Upstream.Router

/-!
# The configuration and the box built from it

The part of `core/src/config.rs` the settings can change, and `AppState::init` of
`app/src/lib.rs` as far as it hands that part to the components that decide by it: the
DNS cache, the blocklist engine, the router, the switches and the client gate.

Startup keeps two configurations.  `persistent` is the file; `config` is what the box is
built from, which is the file with the zones `main` detects when it names none
(`runtimeConfig`).
-/

namespace Ferrite.App

open Dns Blocklist Upstream Api

/-! ## The configuration -/

/-- `StorageBackend`. -/
inductive StorageBackend where
  | sqlite
  | memory
deriving DecidableEq, Repr

/-- `ApiConfig`. -/
structure ApiConfig where
  bindAddr : SocketAddr
  apiKey : Option Text
  passwordHash : Option Text
deriving DecidableEq, Repr

/-- `DnsConfig`. -/
structure DnsConfig where
  bindAddr : SocketAddr
  cacheSize : ℕ
  cacheMaxMb : ℕ
  minTtl : ℕ
  maxTtl : ℕ
  clientTtl : UInt32
  logIgnore : List Text
  stripEcs : Bool
  dnssec : Bool
  firefoxCanary : Bool
  blockPrivateRelay : Bool
  stripEch : Bool
  serveStale : Bool
  staleMaxAge : ℕ
  rateLimit : UInt32
  allowedClients : List Text
  deniedClients : List Text
deriving DecidableEq, Repr

/-- `DnsConfig::stale_window`. -/
def DnsConfig.staleWindow (dns : DnsConfig) : ℕ := if dns.serveStale then dns.staleMaxAge else 0

/-- `StorageConfig`. -/
structure StorageConfig where
  backend : StorageBackend
  path : Text
  blocklistCacheDir : Text
  logRetentionDays : UInt32
  logMaxMb : UInt32
  logQueries : Bool
  keepStats : Bool
deriving DecidableEq, Repr

/-- `PanelConfig`. -/
structure PanelConfig where
  enabled : Bool
  domain : Text
  ipv4 : Option Ipv4Addr
  url : Option Text
deriving DecidableEq, Repr

/-- `BlocklistConfig`, without the lists, entries and profiles. -/
structure BlocklistConfig where
  enabled : Bool
  decisionCacheSize : ℕ
  blockResponse : BlockResponse
  blockIpv4 : Option Ipv4Addr
  blockIpv6 : Option Ipv6Addr
  clientBypass : List Text
deriving DecidableEq, Repr

/-- `BlocklistConfig::block_answer`. -/
def BlocklistConfig.blockAnswer (c : BlocklistConfig) : BlockAnswer :=
  ⟨c.blockResponse, c.blockIpv4, c.blockIpv6⟩

/-- `Config`. -/
structure Config where
  webDir : Option Text
  debugLogging : Bool
  api : ApiConfig
  dns : DnsConfig
  storage : StorageConfig
  panel : PanelConfig
  blocklist : BlocklistConfig
  upstream : List UpstreamConfig
  zones : List ZoneConfig
deriving DecidableEq, Repr

/-- `Config::default`, over the data directory. -/
def Config.default (dataDir : Text) : Config where
  webDir := none
  debugLogging := false
  api := ⟨.v4 ⟨127, 0, 0, 1⟩ 8080, none, none⟩
  dns := {
    bindAddr := .v4 .unspecified 53
    cacheSize := 10000
    cacheMaxMb := 8
    minTtl := 60
    maxTtl := 3600
    clientTtl := 60
    logIgnore := ["fe.te".toList, "*.arpa".toList, "*.local".toList, "*.localdomain".toList]
    stripEcs := true
    dnssec := true
    firefoxCanary := true
    blockPrivateRelay := false
    stripEch := false
    serveStale := false
    staleMaxAge := 12 * 3600
    rateLimit := 0
    allowedClients := []
    deniedClients := [] }
  storage := ⟨.sqlite, dataDir ++ "/ferrite.db".toList, dataDir, 30, 0, true, true⟩
  panel := ⟨true, "fe.te".toList, none, none⟩
  blocklist := ⟨true, 20000, .nxdomain, none, none, []⟩
  upstream := [.plain "8.8.8.8".toList 53 none, .plain "8.8.4.4".toList 53 none]
  zones := []

/-- What `main` builds the box from: zones found on the network where none are
configured. -/
def runtimeConfig (detected : List ZoneConfig) (persistent : Config) : Config :=
  if persistent.zones = [] then { persistent with zones := detected } else persistent

/-! ## The components -/

/-- `DnsSwitches::apply`. -/
def switchesOf (dns : DnsConfig) : DnsSwitches where
  stripEcs := dns.stripEcs
  dnssec := dns.dnssec
  firefoxCanary := dns.firefoxCanary
  blockPrivateRelay := dns.blockPrivateRelay
  stripEch := dns.stripEch

/-- `normalize_client_keys`, as a set. -/
def normalizeClientKeys (entries : List Text) : Finset Text :=
  (entries.filterMap normalizeClientKey).toFinset

/-- `Blocklist`, the fields the settings reach. -/
structure Engine where
  enabled : Bool
  hasClientBypass : Bool
  clientBypass : Finset Text
  cache : BlocklistCache
  localZones : List Blocklist.Name
  blockAnswer : BlockAnswer

namespace Engine

/-- `set_client_bypass`. -/
def setClientBypass (e : Engine) (entries : List Text) : Engine :=
  let normalized := normalizeClientKeys entries
  { e with clientBypass := normalized, hasClientBypass := normalized ≠ ∅ }

/-- `set_local_zones`. -/
def setLocalZones (e : Engine) (zones : List Text) : Engine :=
  { e with localZones := zones.map normalise }

/-- `Blocklist::new`. -/
def new (config : BlocklistConfig) : Engine where
  enabled := config.enabled
  hasClientBypass := normalizeClientKeys config.clientBypass ≠ ∅
  clientBypass := normalizeClientKeys config.clientBypass
  cache := .empty config.decisionCacheSize
  localZones := []
  blockAnswer := config.blockAnswer

/-- `client_bypasses_blocking_normalized`. -/
def clientBypassesBlocking (e : Engine) (clientIp : Text) (mac : Option Text) : Bool :=
  e.hasClientBypass && (decide (clientIp ∈ e.clientBypass) || mac.any fun m => m ∈ e.clientBypass)

end Engine

/-- `RecordSwitches`. -/
structure RecordSwitches where
  queries : Bool
  stats : Bool
deriving DecidableEq, Repr

/-- What the settings and the sign-ins are kept in: the live configuration, the sessions
in memory, and the sessions handed to storage to be written. -/
structure Books where
  live : Config
  sessions : Table Text Session
  persisting : List (Text × Session)

/-- `AppState`. -/
structure AppState where
  books : Books
  dnsCache : DnsCache
  blocklist : Engine
  upstreamPool : Routes
  logIgnore : List Text
  clientTtl : UInt32
  dnsSwitches : DnsSwitches
  clientGate : ClientGate
  recordSwitches : RecordSwitches

/-- `usize::saturating_mul`. -/
def saturatingMul (a b : ℕ) : ℕ := min (a * b) usizeMax

/-- The box over its routes, with the sessions storage still had. -/
def AppState.build (config persistent : Config) (sessions : Table Text Session)
    (routes : Routes) : AppState where
  books := ⟨persistent, sessions, []⟩
  dnsCache :=
    (DnsCache.new config.dns.cacheSize (saturatingMul config.dns.cacheMaxMb (1024 * 1024))
      config.dns.minTtl config.dns.maxTtl).setStaleWindow config.dns.staleWindow
  blocklist := (Engine.new config.blocklist).setLocalZones (config.zones.map ZoneConfig.name)
  upstreamPool := routes
  logIgnore := config.dns.logIgnore
  clientTtl := config.dns.clientTtl
  dnsSwitches := switchesOf config.dns
  clientGate := .new config.dns.rateLimit config.dns.allowedClients config.dns.deniedClients
  recordSwitches := ⟨config.storage.logQueries, config.storage.keepStats⟩

/-- `AppState::init`. -/
def AppState.init (crates : Upstream.Crates) (config persistent : Config)
    (sessions : Table Text Session) : Except Text AppState := do
  let defaultPool ← UpstreamPool.fromConfig crates config.upstream
  let routes ← Routes.new config.zones defaultPool
  return .build config persistent sessions routes

theorem AppState.init_eq_ok_iff {crates : Upstream.Crates} {config persistent : Config}
    {sessions : Table Text Session} {app : AppState} :
    AppState.init crates config persistent sessions = .ok app ↔
      ∃ r, UpstreamPool.fromConfig crates config.upstream = .ok r.default ∧
        zoneEntries config.zones = .ok r.zones ∧
        app = .build config persistent sessions r := by
  unfold AppState.init
  rw [bind_eq_ok_iff]
  constructor
  · rintro ⟨pool, hpool, h⟩
    obtain ⟨r, hr, happ⟩ := bind_eq_ok_iff.1 h
    obtain ⟨hzones, rfl⟩ := Routes.new_eq_ok_iff.1 hr
    cases happ
    exact ⟨r, hpool, hzones, rfl⟩
  · rintro ⟨r, hpool, hzones, rfl⟩
    exact ⟨r.default, hpool,
      bind_eq_ok_iff.2 ⟨r, Routes.new_eq_ok_iff.2 ⟨hzones, rfl⟩, rfl⟩⟩

end Ferrite.App
