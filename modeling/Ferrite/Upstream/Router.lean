import Ferrite.Lib.Staged
import Ferrite.Core.Addr

/-!
# Upstreams and the zones routed past them

What the settings name and what is built from it: `UpstreamPool::from_config` of
`upstream/src/pool.rs`, with one resolver for each entry, and the routes of
`upstream/src/zone_router.rs`, which send the names of a zone to the zone's own server.
A resolver here is what it was built from; its connections are left out.
-/

namespace Ferrite.Upstream

/-- What building a resolver asks of other crates. -/
structure Crates where
  /-- `ServerName::try_from`; a failure in its words. -/
  serverName : Text → Except Text Text
  /-- `client_config`: the TLS configuration with its root certificates. -/
  clientConfig : Except Text Unit
  /-- The scheme of a URL, as `Url::parse` reads it. -/
  scheme : Text → Except Text Text
  /-- `Client::builder().build()`. -/
  httpClient : Except Text Unit
  /-- `TokioResolver::builder_with_config(..).build()`. -/
  resolver : SocketAddr → Text → Except Text Unit

/-! ## What the settings name -/

/-- `UpstreamConfig`. -/
inductive UpstreamConfig where
  | plain (address : Text) (port : UInt16) (egress : Option Text)
  | tls (address : Text) (port : UInt16) (tlsName : Text) (egress : Option Text)
  | https (url : Text) (bootstrapIp : Option Text)
  | quic (address : Text) (port : UInt16) (tlsName : Text)
deriving DecidableEq, Repr

/-- `ZoneConfig`. -/
structure ZoneConfig where
  name : Text
  upstream : Text
deriving DecidableEq, Repr

/-! ## Resolvers -/

/-- `PlainResolver`. -/
structure PlainResolver where
  addr : SocketAddr
  label : Text
deriving DecidableEq, Repr

/-- `format!("{address}:{port}")`. -/
def hostPort (address : Text) (port : UInt16) : Text := address ++ ':' :: decimal port.toNat

/-- The text of address and port, read as a socket address. -/
def parseHostPort (what address : Text) (port : UInt16) : Except Text SocketAddr :=
  match SocketAddr.parse (hostPort address port) with
  | some addr => .ok addr
  | none => .error ("invalid ".toList ++ what ++ " address: ".toList ++ SocketAddr.parseError)

/-- `PlainResolver::new`. -/
def PlainResolver.new (address : Text) (port : UInt16) : Except Text PlainResolver := do
  let addr ← parseHostPort "upstream".toList address port
  return ⟨addr, hostPort address port⟩

/-- `UpstreamEntry`. -/
inductive UpstreamEntry where
  | plain (resolver : PlainResolver)
  | tls (addr : SocketAddr) (serverName : Text)
  | https (url : Text) (bootstrap : Option IpAddr)
  | quic (addr : SocketAddr) (tlsName : Text)
  | tunneled (egress : Text) (ip : IpAddr) (port : UInt16) (serverName : Option Text)
deriving DecidableEq, Repr

/-- `parse_ip` of `tunneled.rs`. -/
def tunneledIp (address : Text) : Except Text IpAddr :=
  match Reader.parse Reader.ip address with
  | some ip => .ok ip
  | none =>
    .error ("tunneled upstream address must be a literal IP, got '".toList ++ address ++ ['\''])

/-- The name a certificate is checked against. -/
def dotName (crates : Crates) (tlsName : Text) : Except Text Text :=
  match crates.serverName tlsName with
  | .ok name => .ok name
  | .error e => .error ("invalid DoT tls_name '".toList ++ tlsName ++ "': ".toList ++ e)

/-- `DohResolver::new`. -/
def newDoh (crates : Crates) (url : Text) (bootstrapIp : Option Text) :
    Except Text UpstreamEntry := do
  let scheme ← match crates.scheme url with
    | .ok scheme => pure scheme
    | .error e => throw ("invalid DoH URL '".toList ++ url ++ "': ".toList ++ e)
  if scheme ≠ "https".toList then
    throw ("DoH URL must use https, got '".toList ++ scheme ++ ['\''])
  let bootstrap ← match bootstrapIp with
    | none => pure none
    | some ip =>
      match Reader.parse Reader.ip ip with
      | some ip => pure (some ip)
      | none =>
        throw ("invalid bootstrap_ip '".toList ++ ip ++ "': invalid IP address syntax".toList)
  match crates.httpClient with
  | .ok () => return .https url bootstrap
  | .error e => throw ("failed to build DoH client: ".toList ++ e)

/-- One entry of the pool: through its egress if it names one. -/
def entryFromConfig (crates : Crates) : UpstreamConfig → Except Text UpstreamEntry
  | .plain address port (some id) => do return .tunneled id (← tunneledIp address) port none
  | .tls address port tlsName (some id) => do
    crates.clientConfig
    let ip ← tunneledIp address
    return .tunneled id ip port (some (← dotName crates tlsName))
  | .plain address port none => do return .plain (← PlainResolver.new address port)
  | .tls address port tlsName none => do
    let addr ← parseHostPort "DoT".toList address port
    let name ← dotName crates tlsName
    crates.clientConfig
    return .tls addr name
  | .https url bootstrapIp => newDoh crates url bootstrapIp
  | .quic address port tlsName => do
    let addr ← parseHostPort "DoQ".toList address port
    crates.resolver addr tlsName
    return .quic addr tlsName

/-- `UpstreamPool`. -/
structure UpstreamPool where
  upstreams : List UpstreamEntry
deriving DecidableEq, Repr

/-- `UpstreamPool::from_config`. -/
def UpstreamPool.fromConfig (crates : Crates) (configs : List UpstreamConfig) :
    Except Text UpstreamPool := do
  if configs = [] then throw "no upstreams configured".toList
  return ⟨← configs.mapM (entryFromConfig crates)⟩

/-! ## Routes -/

/-- `ZoneEntry`. -/
structure ZoneEntry where
  name : Text
  resolver : PlainResolver
deriving DecidableEq, Repr

/-- `Routes`. -/
structure Routes where
  zones : List ZoneEntry
  default : UpstreamPool
deriving DecidableEq, Repr

/-- One zone, with its name as names are compared. -/
def ZoneEntry.new (z : ZoneConfig) : Except Text ZoneEntry := do
  let addr ← match SocketAddr.parse z.upstream with
    | some addr => pure addr
    | none => throw ("zone '".toList ++ z.name ++ "': invalid upstream '".toList ++ z.upstream ++
        "': ".toList ++ SocketAddr.parseError)
  -- the address goes through its text again, which has no brackets
  let resolver ← PlainResolver.new (ipToString addr.ip) addr.port
  return ⟨(z.name.trimEndMatches (· == '.')).toAsciiLowercase, resolver⟩

/-- The zones of `Routes::new`: the longest name first, in the order given where names
are equally long. -/
def zoneEntries (zones : List ZoneConfig) : Except Text (List ZoneEntry) := do
  let entries ← zones.mapM ZoneEntry.new
  return entries.mergeSort fun a b => b.name.byteLen ≤ a.name.byteLen

/-- `Routes::new`. -/
def Routes.new (zones : List ZoneConfig) (default : UpstreamPool) : Except Text Routes := do
  return ⟨← zoneEntries zones, default⟩

/-- `matches_zone`. -/
def matchesZone (name zone : Text) : Bool := name == zone || ('.' :: zone).isSuffixOf name

/-- `Routes::route`, for a query that asks for `name`. -/
def Routes.route (routes : Routes) (name : Text) : Option PlainResolver :=
  (routes.zones.find? fun e => matchesZone name e.name).map ZoneEntry.resolver

theorem Routes.new_eq_ok_iff {zones : List ZoneConfig} {default : UpstreamPool} {routes : Routes} :
    Routes.new zones default = .ok routes ↔
      zoneEntries zones = .ok routes.zones ∧ routes.default = default := by
  unfold Routes.new
  rw [bind_eq_ok_iff]
  constructor
  · rintro ⟨entries, hentries, h⟩
    cases h
    exact ⟨hentries, rfl⟩
  · rintro ⟨hentries, rfl⟩
    exact ⟨routes.zones, hentries, rfl⟩

theorem zoneEntries_nil : zoneEntries [] = .ok [] := by
  refine bind_eq_ok_iff.2 ⟨[], rfl, ?_⟩
  rw [List.mergeSort_nil]
  rfl

/-- Every zone makes an entry. -/
theorem zoneEntries_eq_nil {zones : List ZoneConfig} (h : zoneEntries zones = .ok []) :
    zones = [] := by
  obtain ⟨entries, hentries, hsort⟩ := bind_eq_ok_iff.1 h
  cases zones with
  | nil => rfl
  | cons z zones =>
    rw [List.mapM_cons] at hentries
    obtain ⟨e, -, hentries⟩ := bind_eq_ok_iff.1 hentries
    obtain ⟨es, -, hentries⟩ := bind_eq_ok_iff.1 hentries
    cases hentries
    have hlen := congrArg List.length (Except.ok.inj hsort)
    simp at hlen

end Ferrite.Upstream
