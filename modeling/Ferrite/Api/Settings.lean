import Ferrite.Lib.Staged
import Ferrite.Api.Paths
import Ferrite.App.State

/-!
# Changing the settings

`PATCH /api/settings` of `api/src/settings.rs`.  Under one lock the fields of the patch
are taken in a fixed order; each is checked and then written to the live configuration,
and the first that is refused ends the request.  After the lock the new values are
handed to the components that run by them.

The fields are stages in the sense of `Lib/Staged`, one definition each, under the
names of the patch.
-/

namespace Ferrite.Api

open App Upstream Dns

/-- `SettingsPatch`.  A field that can be cleared is an option of an option. -/
structure SettingsPatch where
  apiKey : Option (Option Text) := none
  password : Option (Option Text) := none
  dnsMinTtl : Option ℕ := none
  dnsMaxTtl : Option ℕ := none
  dnsClientTtl : Option UInt32 := none
  dnsServeStale : Option Bool := none
  dnsStaleMaxAge : Option ℕ := none
  dnsRateLimit : Option UInt32 := none
  dnsAllowedClients : Option (List Text) := none
  dnsDeniedClients : Option (List Text) := none
  dnsLogIgnore : Option (List Text) := none
  webDir : Option (Option Text) := none
  logRetentionDays : Option UInt32 := none
  logMaxMb : Option UInt32 := none
  logQueries : Option Bool := none
  keepStats : Option Bool := none
  blocklistEnabled : Option Bool := none
  blocklistClientBypass : Option (List Text) := none
  blocklistBlockResponse : Option BlockResponse := none
  blocklistBlockIpv4 : Option (Option Ipv4Addr) := none
  blocklistBlockIpv6 : Option (Option Ipv6Addr) := none
  debugLogging : Option Bool := none
  storageBackend : Option Text := none
  storagePath : Option Text := none
  blocklistCacheDir : Option Text := none
  dnsBindAddr : Option Text := none
  dnsCacheSize : Option ℕ := none
  dnsCacheMaxMb : Option ℕ := none
  dnsStripEcs : Option Bool := none
  dnsDnssec : Option Bool := none
  dnsFirefoxCanary : Option Bool := none
  dnsBlockPrivateRelay : Option Bool := none
  dnsStripEch : Option Bool := none
  blocklistDecisionCacheSize : Option ℕ := none
  apiBindAddr : Option Text := none
  upstream : Option (List UpstreamConfig) := none
  zones : Option (List ZoneConfig) := none
  panelEnabled : Option Bool := none
  panelDomain : Option Text := none
  panelIpv4 : Option (Option Ipv4Addr) := none
  panelUrl : Option (Option Text) := none

/-- What a request meets on the machine it is served on. -/
structure Host where
  files : Files
  /-- `hash_password`, with the salt it drew. -/
  hashPassword : Text → Except Text Text
  /-- `session_key`, a SHA-256. -/
  sessionKey : Text → Text
  /-- `password_fingerprint`, a SHA-256 cut short. -/
  passwordFingerprint : Text → Text
  /-- `unix_now`. -/
  now : ℤ

/-- The headers a request may carry its session in. -/
structure Headers where
  xSessionToken : Option Text
  authorization : Option Text

/-- `extract_session_token`. -/
def extractSessionToken (headers : Headers) : Option Text :=
  headers.xSessionToken.or (headers.authorization.bind fun v =>
    if "Bearer ".toList.isPrefixOf v then some (v.drop 7) else none)

/-- `rebind_session`: the caller's session, issued anew under the new password. -/
def rebindSession (host : Host) (headers : Headers) (newPasswordHash : Text) (b : Books) : Books :=
  match extractSessionToken headers with
  | none => b
  | some token =>
    let key := host.sessionKey token
    match b.sessions.lookup key with
    | none => b
    | some session =>
      let session := session.renew (host.passwordFingerprint newPasswordHash) host.now
      { b with
        sessions := b.sessions.insert key session
        persisting := b.persisting ++ [(key, session)] }

/-- An entry of `hot_changed` or `restart_changed`. -/
inductive Changed where
  | hot (key : Text)
  | restart (key : Text)
deriving DecidableEq, Repr

/-- One field of the patch, as `update_settings` goes through it. -/
abbrev Setting := Stage Books Text Changed

/-- A field of the live configuration. -/
def onLive {V : Type} (f : Field Config V) : Field Books V where
  get b := f.get b.live
  set b v := { b with live := f.set b.live v }
  get_set b v := f.get_set b.live v
  set_get b := by
    show { b with live := f.set b.live (f.get b.live) } = b
    rw [f.set_get]

namespace Setting

/-- A field that is written as the patch has it. -/
def plain {V : Type} (key : String) (field : Field Config V) (value : Option V) : Setting where
  V := V
  field := onLive field
  ask _ := .ok value
  note := [.hot key.toList]

/-- A field that is read first, and refused if it does not read. -/
def checked {W V : Type} (note : List Changed) (field : Field Config V) (value : Option W)
    (read : W → Except Text V) : Setting where
  V := V
  field := onLive field
  ask _ :=
    match value with
    | none => .ok none
    | some w => (read w).map some
  note := note

/-! ### Refused before anything is written -/

/-- An entry that is neither blank nor an address or a range. -/
def isBadNetwork (entry : Text) : Bool := entry.trim ≠ [] && (IpNetwork.parse entry).isNone

/-- One of the `client_lists`. -/
def checkClients (field : String) (list : Option (List Text)) : Setting :=
  .check fun _ => ((list.getD []).find? isBadNetwork).map fun bad =>
    field.toList ++ ": '".toList ++ bad ++ "' is not an IP address or a CIDR range".toList

/-- The range of `dns_stale_max_age`. -/
def checkStaleMaxAge (p : SettingsPatch) : Setting :=
  .check fun _ => p.dnsStaleMaxAge.bind fun age =>
    if 60 ≤ age ∧ age ≤ maxStaleAge then none
    else some ("dns_stale_max_age must be between 60 and ".toList ++ decimal maxStaleAge ++
      " seconds".toList)

/-- The block answer the patch makes of the one in `cfg`, if it says anything about it. -/
def patchedBlockAnswer (p : SettingsPatch) (cfg : Config) : Option BlockAnswer :=
  if p.blocklistBlockResponse.isSome || p.blocklistBlockIpv4.isSome || p.blocklistBlockIpv6.isSome
  then some {
    response := p.blocklistBlockResponse.getD cfg.blocklist.blockResponse
    ipv4 := p.blocklistBlockIpv4.getD cfg.blocklist.blockIpv4
    ipv6 := p.blocklistBlockIpv6.getD cfg.blocklist.blockIpv6 }
  else none

/-- `custom_ip` needs an address. -/
def checkBlockAnswer (answer : Option BlockAnswer) : Setting :=
  .check fun _ => answer.bind fun answer =>
    if answer.response = .customIp ∧ answer.ipv4 = none ∧ answer.ipv6 = none then
      some "custom_ip needs blocklist_block_ipv4 or blocklist_block_ipv6".toList
    else none

/-! ### The fields, in the order they are taken -/

/-- `api_key`. -/
def apiKey (p : SettingsPatch) : Setting :=
  checked [.hot "api_key".toList]
    ⟨fun c => c.api.apiKey, fun c v => { c with api.apiKey := v }, fun _ _ => rfl, fun _ => rfl⟩
    p.apiKey fun key =>
      match key with
      | none => .ok none
      | some k =>
        if k.trim = [] then .error "api_key cannot be empty; use null to disable key auth".toList
        else .ok (some k.trim)

/-- `password`: the hash, and with it the caller's session. -/
def password (host : Host) (headers : Headers) (hashed : Option (Option Text)) : Setting where
  V := Option Text × Table Text Session × List (Text × Session)
  field := {
    get b := (b.live.api.passwordHash, b.sessions, b.persisting)
    set b v := ⟨{ b.live with api.passwordHash := v.1 }, v.2.1, v.2.2⟩
    get_set _ _ := rfl
    set_get _ := rfl }
  ask b := .ok <| hashed.map fun hash =>
    let rebound :=
      match hash with
      | none => b
      | some h => rebindSession host headers h b
    (hash, rebound.sessions, rebound.persisting)
  note := [.hot "password".toList]

/-- A TTL outside `MIN_TTL..=MAX_TTL`. -/
def ttlRange (field : String) : Text :=
  field.toList ++ " must be between ".toList ++ decimal minTtl ++ " and ".toList ++
    decimal maxTtl ++ " seconds".toList

/-- The TTL bounds together: a ceiling of 0 is no ceiling. -/
def checkTtls (p : SettingsPatch) : Setting :=
  .check fun b =>
    if p.dnsMinTtl.isSome || p.dnsMaxTtl.isSome then
      let min := p.dnsMinTtl.getD b.live.dns.minTtl
      let max := p.dnsMaxTtl.getD b.live.dns.maxTtl
      let effectiveMax := if max = 0 then maxTtl else max
      if ¬ (minTtl ≤ min ∧ min ≤ maxTtl) then some (ttlRange "dns_min_ttl")
      else if ¬ (minTtl ≤ max ∧ max ≤ maxTtl) then some (ttlRange "dns_max_ttl")
      else if effectiveMax < min then
        some ("dns_min_ttl (".toList ++ decimal min ++ ") cannot be greater than dns_max_ttl (".toList
          ++ decimal max ++ ")".toList)
      else none
    else none

/-- `dns_min_ttl`. -/
def dnsMinTtl (p : SettingsPatch) : Setting :=
  plain "dns_min_ttl"
    ⟨fun c => c.dns.minTtl, fun c v => { c with dns.minTtl := v }, fun _ _ => rfl, fun _ => rfl⟩
    p.dnsMinTtl

/-- `dns_max_ttl`. -/
def dnsMaxTtl (p : SettingsPatch) : Setting :=
  plain "dns_max_ttl"
    ⟨fun c => c.dns.maxTtl, fun c v => { c with dns.maxTtl := v }, fun _ _ => rfl, fun _ => rfl⟩
    p.dnsMaxTtl

/-- `dns_client_ttl`. -/
def dnsClientTtl (p : SettingsPatch) : Setting :=
  checked [.hot "dns_client_ttl".toList]
    ⟨fun c => c.dns.clientTtl, fun c v => { c with dns.clientTtl := v }, fun _ _ => rfl,
      fun _ => rfl⟩
    p.dnsClientTtl fun ttl =>
      if maxTtl < ttl.toNat then
        .error ("dns_client_ttl must be between 0 and ".toList ++ decimal maxTtl ++
          " seconds".toList)
      else .ok ttl

/-- `dns_log_ignore`. -/
def dnsLogIgnore (p : SettingsPatch) : Setting :=
  plain "dns_log_ignore"
    ⟨fun c => c.dns.logIgnore, fun c v => { c with dns.logIgnore := v }, fun _ _ => rfl,
      fun _ => rfl⟩
    p.dnsLogIgnore

/-- `web_dir`. -/
def webDir (p : SettingsPatch) : Setting :=
  plain "web_dir"
    ⟨fun c => c.webDir, fun c v => { c with webDir := v }, fun _ _ => rfl, fun _ => rfl⟩ p.webDir

/-- `log_retention_days`. -/
def logRetentionDays (p : SettingsPatch) : Setting :=
  plain "log_retention_days"
    ⟨fun c => c.storage.logRetentionDays, fun c v => { c with storage.logRetentionDays := v },
      fun _ _ => rfl, fun _ => rfl⟩
    p.logRetentionDays

/-- `log_max_mb`. -/
def logMaxMb (p : SettingsPatch) : Setting :=
  plain "log_max_mb"
    ⟨fun c => c.storage.logMaxMb, fun c v => { c with storage.logMaxMb := v }, fun _ _ => rfl,
      fun _ => rfl⟩
    p.logMaxMb

/-- `log_queries`. -/
def logQueries (p : SettingsPatch) : Setting :=
  plain "log_queries"
    ⟨fun c => c.storage.logQueries, fun c v => { c with storage.logQueries := v }, fun _ _ => rfl,
      fun _ => rfl⟩
    p.logQueries

/-- `keep_stats`. -/
def keepStats (p : SettingsPatch) : Setting :=
  plain "keep_stats"
    ⟨fun c => c.storage.keepStats, fun c v => { c with storage.keepStats := v }, fun _ _ => rfl,
      fun _ => rfl⟩
    p.keepStats

/-- `blocklist_enabled`. -/
def blocklistEnabled (p : SettingsPatch) : Setting :=
  plain "blocklist_enabled"
    ⟨fun c => c.blocklist.enabled, fun c v => { c with blocklist.enabled := v }, fun _ _ => rfl,
      fun _ => rfl⟩
    p.blocklistEnabled

/-- The keys of a `BTreeSet`, in order. -/
def btreeSet (keys : List Text) : List Text := keys.dedup.mergeSort fun a b => !List.lex b a

/-- `normalize_client_bypass`: the first entry that is no client is refused. -/
def normalizeClientBypass (entries : List Text) : Except Text (List Text) := do
  let keys ← entries.mapM fun entry =>
    match normalizeClientKey entry with
    | some key => .ok key
    | none => .error ("invalid blocklist_client_bypass entry: ".toList ++ entry)
  return btreeSet keys

/-- `blocklist_client_bypass`. -/
def blocklistClientBypass (p : SettingsPatch) : Setting :=
  checked [.hot "blocklist_client_bypass".toList]
    ⟨fun c => c.blocklist.clientBypass, fun c v => { c with blocklist.clientBypass := v },
      fun _ _ => rfl, fun _ => rfl⟩
    p.blocklistClientBypass normalizeClientBypass

/-- `dns_stale_max_age` and `dns_serve_stale`. -/
def dnsServeStale (p : SettingsPatch) : Setting where
  V := ℕ × Bool
  field := onLive ⟨fun c => (c.dns.staleMaxAge, c.dns.serveStale),
    fun c v => { c with dns.staleMaxAge := v.1, dns.serveStale := v.2 }, fun _ _ => rfl,
    fun _ => rfl⟩
  ask b :=
    if p.dnsServeStale.isSome || p.dnsStaleMaxAge.isSome then
      .ok (some (p.dnsStaleMaxAge.getD b.live.dns.staleMaxAge,
        p.dnsServeStale.getD b.live.dns.serveStale))
    else .ok none
  note := [.hot "dns_serve_stale".toList]

/-- `dns_rate_limit`. -/
def dnsRateLimit (p : SettingsPatch) : Setting :=
  plain "dns_rate_limit"
    ⟨fun c => c.dns.rateLimit, fun c v => { c with dns.rateLimit := v }, fun _ _ => rfl,
      fun _ => rfl⟩
    p.dnsRateLimit

/-- `tidy`: trimmed, without blank entries. -/
def tidy (list : List Text) : List Text := (list.map Text.trim).filter (· ≠ [])

/-- `dns_allowed_clients` and `dns_denied_clients`. -/
def dnsClientAccess (p : SettingsPatch) : Setting where
  V := List Text × List Text
  field := onLive ⟨fun c => (c.dns.allowedClients, c.dns.deniedClients),
    fun c v => { c with dns.allowedClients := v.1, dns.deniedClients := v.2 }, fun _ _ => rfl,
    fun _ => rfl⟩
  ask b :=
    if p.dnsAllowedClients.isSome || p.dnsDeniedClients.isSome then
      .ok (some ((p.dnsAllowedClients.map tidy).getD b.live.dns.allowedClients,
        (p.dnsDeniedClients.map tidy).getD b.live.dns.deniedClients))
    else .ok none
  note := [.hot "dns_client_access".toList]

/-- `blocklist_block_response` with its addresses. -/
def blockAnswer (answer : Option BlockAnswer) : Setting :=
  plain "blocklist_block_response"
    ⟨fun c => c.blocklist.blockAnswer,
      fun c v => { c with
        blocklist.blockResponse := v.response, blocklist.blockIpv4 := v.ipv4,
        blocklist.blockIpv6 := v.ipv6 },
      fun _ _ => rfl, fun _ => rfl⟩
    answer

/-- `debug_logging`. -/
def debugLogging (p : SettingsPatch) : Setting :=
  plain "debug_logging"
    ⟨fun c => c.debugLogging, fun c v => { c with debugLogging := v }, fun _ _ => rfl,
      fun _ => rfl⟩
    p.debugLogging

/-- An address to listen on. -/
def readBindAddr (field : String) (addr : Text) : Except Text SocketAddr :=
  match SocketAddr.parse addr with
  | some a => .ok a
  | none => .error ("invalid ".toList ++ field.toList ++ ": ".toList ++ addr)

/-- `dns_bind_addr`. -/
def dnsBindAddr (p : SettingsPatch) : Setting :=
  checked [.restart "dns_bind_addr".toList]
    ⟨fun c => c.dns.bindAddr, fun c v => { c with dns.bindAddr := v }, fun _ _ => rfl,
      fun _ => rfl⟩
    p.dnsBindAddr (readBindAddr "dns_bind_addr")

/-- `storage_backend`. -/
def storageBackend (p : SettingsPatch) : Setting :=
  checked [.restart "storage_backend".toList]
    ⟨fun c => c.storage.backend, fun c v => { c with storage.backend := v }, fun _ _ => rfl,
      fun _ => rfl⟩
    p.storageBackend fun backend =>
      let name := backend.trim.toAsciiLowercase
      if name = "sqlite".toList then .ok .sqlite
      else if name = "memory".toList then .ok .memory
      else .error ("unknown storage_backend '".toList ++ name ++
        "' (expected 'sqlite' or 'memory')".toList)

/-- A path, written if it is another one than the configuration has. -/
def path (key : String) (field : Field Config Text) (value : Option Text)
    (validate : Text → Except Text Text) : Setting where
  V := Text
  field := onLive field
  ask b :=
    match value with
    | none => .ok none
    | some path => (validate path).map fun path =>
      if samePath path (field.get b.live) then none else some path
  note := [.restart key.toList]

/-- `storage_path`. -/
def storagePath (files : Files) (p : SettingsPatch) : Setting :=
  path "storage_path"
    ⟨fun c => c.storage.path, fun c v => { c with storage.path := v }, fun _ _ => rfl,
      fun _ => rfl⟩
    p.storagePath (validateStoragePath files)

/-- `blocklist_cache_dir`. -/
def blocklistCacheDir (files : Files) (p : SettingsPatch) : Setting :=
  path "blocklist_cache_dir"
    ⟨fun c => c.storage.blocklistCacheDir, fun c v => { c with storage.blocklistCacheDir := v },
      fun _ _ => rfl, fun _ => rfl⟩
    p.blocklistCacheDir (validateBlocklistCacheDir files)

/-- `dns_cache_size`. -/
def dnsCacheSize (p : SettingsPatch) : Setting :=
  plain "dns_cache_size"
    ⟨fun c => c.dns.cacheSize, fun c v => { c with dns.cacheSize := v }, fun _ _ => rfl,
      fun _ => rfl⟩
    p.dnsCacheSize

/-- `dns_cache_max_mb`. -/
def dnsCacheMaxMb (p : SettingsPatch) : Setting :=
  plain "dns_cache_max_mb"
    ⟨fun c => c.dns.cacheMaxMb, fun c v => { c with dns.cacheMaxMb := v }, fun _ _ => rfl,
      fun _ => rfl⟩
    p.dnsCacheMaxMb

/-- `dns_strip_ecs`. -/
def dnsStripEcs (p : SettingsPatch) : Setting :=
  plain "dns_strip_ecs"
    ⟨fun c => c.dns.stripEcs, fun c v => { c with dns.stripEcs := v }, fun _ _ => rfl,
      fun _ => rfl⟩
    p.dnsStripEcs

/-- `dns_dnssec`. -/
def dnsDnssec (p : SettingsPatch) : Setting :=
  plain "dns_dnssec"
    ⟨fun c => c.dns.dnssec, fun c v => { c with dns.dnssec := v }, fun _ _ => rfl, fun _ => rfl⟩
    p.dnsDnssec

/-- `dns_firefox_canary`. -/
def dnsFirefoxCanary (p : SettingsPatch) : Setting :=
  plain "dns_firefox_canary"
    ⟨fun c => c.dns.firefoxCanary, fun c v => { c with dns.firefoxCanary := v }, fun _ _ => rfl,
      fun _ => rfl⟩
    p.dnsFirefoxCanary

/-- `dns_block_private_relay`. -/
def dnsBlockPrivateRelay (p : SettingsPatch) : Setting :=
  plain "dns_block_private_relay"
    ⟨fun c => c.dns.blockPrivateRelay, fun c v => { c with dns.blockPrivateRelay := v },
      fun _ _ => rfl, fun _ => rfl⟩
    p.dnsBlockPrivateRelay

/-- `dns_strip_ech`. -/
def dnsStripEch (p : SettingsPatch) : Setting :=
  plain "dns_strip_ech"
    ⟨fun c => c.dns.stripEch, fun c v => { c with dns.stripEch := v }, fun _ _ => rfl,
      fun _ => rfl⟩
    p.dnsStripEch

/-- `blocklist_decision_cache_size`. -/
def blocklistDecisionCacheSize (p : SettingsPatch) : Setting :=
  checked [.hot "blocklist_decision_cache_size".toList]
    ⟨fun c => c.blocklist.decisionCacheSize,
      fun c v => { c with blocklist.decisionCacheSize := v }, fun _ _ => rfl, fun _ => rfl⟩
    p.blocklistDecisionCacheSize fun size =>
      if size = 0 then .error "blocklist_decision_cache_size must be greater than 0".toList
      else .ok size

/-- `api_bind_addr`. -/
def apiBindAddr (p : SettingsPatch) : Setting :=
  checked [.restart "api_bind_addr".toList]
    ⟨fun c => c.api.bindAddr, fun c v => { c with api.bindAddr := v }, fun _ _ => rfl,
      fun _ => rfl⟩
    p.apiBindAddr (readBindAddr "api_bind_addr")

/-- Upstreams and zones are built in full, to see that they can be. -/
def buildRoutes (crates : Upstream.Crates) (upstream : List UpstreamConfig)
    (zones : List ZoneConfig) : Except Text Routes := do
  if upstream = [] then throw "upstream list cannot be empty".toList
  let pool ← UpstreamPool.fromConfig crates upstream
  Routes.new zones pool

/-- `upstream` and `zones`. -/
def routes (crates : Upstream.Crates) (p : SettingsPatch) : Setting where
  V := List UpstreamConfig × List ZoneConfig
  field := onLive ⟨fun c => (c.upstream, c.zones),
    fun c v => { c with upstream := v.1, zones := v.2 }, fun _ _ => rfl, fun _ => rfl⟩
  ask b :=
    if p.upstream.isSome || p.zones.isSome then
      let upstream := p.upstream.getD b.live.upstream
      let zones := p.zones.getD b.live.zones
      (buildRoutes crates upstream zones).map fun _ => some (upstream, zones)
    else .ok none
  note := (if p.upstream.isSome then [.hot "upstream".toList] else []) ++
    if p.zones.isSome then [.hot "zones".toList] else []

/-- `panel_enabled`. -/
def panelEnabled (p : SettingsPatch) : Setting :=
  plain "panel_enabled"
    ⟨fun c => c.panel.enabled, fun c v => { c with panel.enabled := v }, fun _ _ => rfl,
      fun _ => rfl⟩
    p.panelEnabled

/-- `panel_domain`. -/
def panelDomain (p : SettingsPatch) : Setting :=
  checked [.hot "panel_domain".toList]
    ⟨fun c => c.panel.domain, fun c v => { c with panel.domain := v }, fun _ _ => rfl,
      fun _ => rfl⟩
    p.panelDomain fun domain =>
      let domain := domain.trim.trimEndMatches (· == '.')
      if domain = [] then .error "panel_domain cannot be empty".toList
      else .ok domain.toAsciiLowercase

/-- `panel_ipv4`. -/
def panelIpv4 (p : SettingsPatch) : Setting :=
  plain "panel_ipv4"
    ⟨fun c => c.panel.ipv4, fun c v => { c with panel.ipv4 := v }, fun _ _ => rfl, fun _ => rfl⟩
    p.panelIpv4

/-- `panel_url`. -/
def panelUrl (p : SettingsPatch) : Setting :=
  checked [.hot "panel_url".toList]
    ⟨fun c => c.panel.url, fun c v => { c with panel.url := v }, fun _ _ => rfl, fun _ => rfl⟩
    p.panelUrl fun url =>
      match url with
      | none => .ok none
      | some raw =>
        if raw.trim = [] then .error "panel_url cannot be empty; use null to reset".toList
        else .ok (some raw.trim)

end Setting

open Setting in
/-- What `update_settings` does under the lock, in its order; `cfg` is the configuration
it found. -/
def settings (crates : Upstream.Crates) (host : Host) (headers : Headers) (p : SettingsPatch)
    (hashed : Option (Option Text)) (cfg : Config) : List Setting :=
  [checkClients "dns_allowed_clients" p.dnsAllowedClients,
    checkClients "dns_denied_clients" p.dnsDeniedClients,
    checkStaleMaxAge p, checkBlockAnswer (patchedBlockAnswer p cfg),
    apiKey p, password host headers hashed, checkTtls p, dnsMinTtl p, dnsMaxTtl p, dnsClientTtl p,
    dnsLogIgnore p, webDir p, logRetentionDays p, logMaxMb p, logQueries p, keepStats p,
    blocklistEnabled p, blocklistClientBypass p, dnsServeStale p, dnsRateLimit p,
    dnsClientAccess p, blockAnswer (patchedBlockAnswer p cfg), debugLogging p,
    dnsBindAddr p, storageBackend p, storagePath host.files p, blocklistCacheDir host.files p,
    dnsCacheSize p, dnsCacheMaxMb p, dnsStripEcs p, dnsDnssec p, dnsFirefoxCanary p,
    dnsBlockPrivateRelay p, dnsStripEch p, blocklistDecisionCacheSize p, apiBindAddr p,
    routes crates p, panelEnabled p, panelDomain p, panelIpv4 p, panelUrl p]

/-- No field of the settings overlaps another. -/
theorem settings_apart (crates : Upstream.Crates) (host : Host) (headers : Headers)
    (p : SettingsPatch) (hashed : Option (Option Text)) (cfg : Config) :
    (settings crates host headers p hashed cfg).Pairwise fun a b => a.field.Apart b.field := by
  unfold settings
  -- every pair of fields of the configuration, each read past a write to the other
  repeat' first
    | exact List.Pairwise.nil
    | exact List.forall_mem_nil _
    | refine List.forall_mem_cons.2 ⟨⟨fun _ _ => rfl, fun _ _ => rfl⟩, ?_⟩
    | refine List.Pairwise.cons ?_ ?_

end Ferrite.Api
