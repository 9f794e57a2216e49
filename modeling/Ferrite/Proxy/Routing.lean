import Ferrite.Proxy.Intercept
import Ferrite.Proxy.Rules

/-!
# Routing, over DNS and at the listener

`proxy/src/lib.rs`, `proxy/src/egress/mod.rs` and `proxy/src/intercept.rs`: the snapshot
that `build_snapshot` makes of a config, the answer DNS gives for a routed name, and what
`splice_through` does with the connection that follows.

The egresses of a snapshot are built or taken over from the one before; `Active` is what
the loop holds, and carries that each id leads to an egress with that id.  Both sides look
up who the client is only when they think it matters, under different conditions:

* `route_of_unscoped` — without client rules the answer is the same whoever asks;
* `route_peerOf_eq` — with them both look everything up, so they always agree;
* `listener_routes_as_dns` — so what DNS sends here is routed by the same rule, which is
  the first of the most specific in the config and leads to its own egress;
* `splice_of_stepRouting` — a connection that follows a routed answer is never forwarded
  direct as unrouted.
-/

namespace Ferrite.Proxy

open Blocklist Dns

variable {P : Type}

/-! ## Egresses -/

/-- `EgressConfig`. -/
structure EgressConfig where
  id : Text
  name : Text
  enabled : Bool
  kind : Text
  address : Option Text
  port : Option UInt16
  username : Option Text
  password : Option Text
  config : Option Text
  segPosition : Option UInt16
  bufferKb : Option UInt32
  txBufferKb : Option UInt32
  backend : Option Text
deriving DecidableEq

/-- `egress_runtime_eq`: the same running backend.  The caller compares the ids. -/
def egressRuntimeEq (a b : EgressConfig) : Bool :=
  a.kind == b.kind && a.address == b.address && a.port == b.port && a.username == b.username &&
    a.password == b.password && a.config == b.config && a.segPosition == b.segPosition &&
    a.bufferKb == b.bufferKb && a.txBufferKb == b.txBufferKb && a.backend == b.backend

/-- The implementations of a WireGuard tunnel. -/
inductive WgBackend where
  | user
  | kernel
deriving DecidableEq

/-- `Egress`, with what it was built from. -/
inductive Egress where
  | direct (id : Text)
  | socks5 (id proxyAddr : Text) (auth : Option (Text × Text))
  | wireguard (id : Text) (backend : WgBackend)
  | directEvasion (id : Text) (segPosition : Option UInt16)
deriving DecidableEq

/-- `Egress::id`. -/
def Egress.id : Egress → Text
  | .direct id => id
  | .socks5 id _ _ => id
  | .wireguard id _ => id
  | .directEvasion id _ => id

/-- What building an egress asks of the machine: whether a WireGuard `.conf` parses, and
whether the kernel carries tunnels or why not. -/
structure WgHost where
  parse : Text → Except Text Unit
  kernel : Except Text Unit

/-- `Socks5Egress::from_config`. -/
def socks5FromConfig (cfg : EgressConfig) : Except Text Egress := do
  let some address := cfg.address.filter (·.trim ≠ [])
    | .error ("socks5 egress '".toList ++ cfg.id ++ "' requires an address".toList)
  let some port := cfg.port
    | .error ("socks5 egress '".toList ++ cfg.id ++ "' requires a port".toList)
  let auth := match cfg.username, cfg.password with
    | some u, some p => if u ≠ [] then some (u, p) else none
    | some u, none => if u ≠ [] then some (u, []) else none
    | none, _ => none
  return .socks5 cfg.id (address.trim ++ ':' :: decimal port.toNat) auth

/-- `backend_choice` and the choice of a backend: `none` is `auto`. -/
def backendChoice (cfg : EgressConfig) : Except Text (Option WgBackend) :=
  let choice : Text := ((cfg.backend.map Text.trim).filter (· ≠ [])).getD "auto".toList
  let choice := choice.toAsciiLowercase
  if choice = "auto".toList then .ok none
  else if choice = "kernel".toList then .ok (some .kernel)
  else if choice = "userspace".toList then .ok (some .user)
  else .error ("wireguard egress '".toList ++ cfg.id ++ "': unknown backend '".toList ++ choice ++
    "' (auto | kernel | userspace)".toList)

/-- `WgEgress::from_config`: a kernel that was asked for must be there. -/
def wgFromConfig (host : WgHost) (cfg : EgressConfig) : Except Text Egress := do
  let some text := cfg.config.filter (·.trim ≠ [])
    | .error ("wireguard egress '".toList ++ cfg.id ++ "' requires a `config` (.conf text)".toList)
  host.parse text
  match ← backendChoice cfg, host.kernel with
  | some .kernel, .error reason =>
    .error ("wireguard egress '".toList ++ cfg.id ++
      "': kernel backend requested but unavailable: ".toList ++ reason)
  | some .kernel, .ok () | none, .ok () => .ok (.wireguard cfg.id .kernel)
  | some .user, _ | none, .error _ => .ok (.wireguard cfg.id .user)

/-- `Egress::from_config`. -/
def Egress.fromConfig (host : WgHost) (cfg : EgressConfig) : Except Text Egress :=
  if cfg.kind = "direct".toList then .ok (.direct cfg.id)
  else if cfg.kind = "socks5".toList then socks5FromConfig cfg
  else if cfg.kind = "wireguard".toList then wgFromConfig host cfg
  else if cfg.kind = "evasion".toList then .ok (.directEvasion cfg.id cfg.segPosition)
  else .error ("egress '".toList ++ cfg.id ++ "': unsupported kind '".toList ++ cfg.kind ++ ['\''])

/-! ## The snapshot -/

/-- What routing reads of `ProxyConfig`. -/
structure ProxyConfig where
  enabled : Bool
  advertiseIpv4 : Option Ipv4Addr
  advertiseIpv6 : Option Ipv6Addr
  routeAway : Bool
  awayIpv4 : Option Ipv4Addr
  awayIpv6 : Option Ipv6Addr
  egresses : List EgressConfig
  rules : List RuleConfig

/-- What the loop of `build_snapshot` holds: the egresses so far, the config of each, and
where each id is, the newest first. -/
structure Active where
  egresses : List Egress
  egressConfigs : List EgressConfig
  byId : List (Text × ℕ)
  aligned : egressConfigs.length = egresses.length
  indexed : ∀ id i, byId.lookup id = some i → egresses[i]?.map Egress.id = some id

/-- `Snapshot`.  Its configs stand beside its egresses, and its rules point into them. -/
structure Snapshot where
  enabled : Bool
  advertiseIpv4 : Option Ipv4Addr
  advertiseIpv6 : Option Ipv6Addr
  routeAway : Bool
  awayIpv4 : Option Ipv4Addr
  awayIpv6 : Option Ipv6Addr
  egresses : List Egress
  egressConfigs : List EgressConfig
  rules : List CompiledRule
  aligned : egressConfigs.length = egresses.length
  indexed : ∀ r ∈ rules, r.egressIdx < egresses.length

namespace Active

def empty : Active where
  egresses := []
  egressConfigs := []
  byId := []
  aligned := rfl
  indexed _ _ h := by cases h

/-- One more egress, found under its id. -/
def push (a : Active) (e : EgressConfig) (egress : Egress) : Active where
  egresses := a.egresses ++ [egress]
  egressConfigs := a.egressConfigs ++ [e]
  byId := (egress.id, a.egresses.length) :: a.byId
  aligned := by simp [a.aligned]
  indexed id i h := by
    rw [List.lookup_cons] at h
    split at h
    next heq =>
      obtain rfl : a.egresses.length = i := Option.some.inj h
      simp [beq_iff_eq.1 heq]
    next =>
      have hold := a.indexed id i h
      have hlt : i < a.egresses.length := by
        by_contra hge
        rw [List.getElem?_eq_none (Nat.not_lt.1 hge)] at hold
        cases hold
      rw [List.getElem?_append_left hlt, hold]

/-- The body of the loop: an egress that runs already is kept, one that cannot be built is
left out. -/
def step (host : WgHost) (prev : Option Snapshot) (a : Active) (e : EgressConfig) : Active :=
  if !e.enabled then a
  else
    let reused := prev.bind fun p =>
      ((p.egressConfigs.zip p.egresses).find? fun (pc, _) => pc.id == e.id &&
        egressRuntimeEq pc e).map Prod.snd
    match reused with
    | some existing => a.push e existing
    | none =>
      match Egress.fromConfig host e with
      | .ok egress => a.push e egress
      | .error _ => a

/-- The loop of `build_snapshot`. -/
def ofConfig (host : WgHost) (prev : Option Snapshot) (cfg : ProxyConfig) : Active :=
  cfg.egresses.foldl (step host prev) empty

/-- A compiled rule leads to the egress its rule names. -/
theorem egress_of_mem {a : Active} {env : Crates} {rule : RuleConfig} {r : CompiledRule}
    (h : r ∈ compileRule env a.byId rule) :
    a.egresses[r.egressIdx]?.map Egress.id = some rule.egress :=
  a.indexed _ _ (egress_of_mem_compileRule h)

theorem lt_of_mem_compile {a : Active} {env : Crates} {rules : List RuleConfig} {r : CompiledRule}
    (h : r ∈ compile env rules a.byId) : r.egressIdx < a.egresses.length := by
  obtain ⟨rule, -, hr⟩ := List.mem_flatMap.1 (FirstMatch.mem_byRank.1 h)
  obtain ⟨egress, hegress, -⟩ := Option.map_eq_some_iff.1 (egress_of_mem hr)
  exact (List.getElem?_eq_some_iff.1 hegress).1

end Active

/-- `build_snapshot`, where the machine's own address is `localIpv4`. -/
def buildSnapshot (host : WgHost) (env : Crates) (localIpv4 : Option Ipv4Addr) (cfg : ProxyConfig)
    (prev : Option Snapshot) : Snapshot :=
  let a := Active.ofConfig host prev cfg
  { enabled := cfg.enabled
    advertiseIpv4 := cfg.advertiseIpv4.or localIpv4
    advertiseIpv6 := cfg.advertiseIpv6
    routeAway := cfg.routeAway
    awayIpv4 := cfg.awayIpv4
    awayIpv6 := cfg.awayIpv6
    egresses := a.egresses
    egressConfigs := a.egressConfigs
    rules := compile env cfg.rules a.byId
    aligned := a.aligned
    indexed := fun _ h => Active.lt_of_mem_compile h }

namespace Snapshot

/-- `Snapshot::route`. -/
def route (snap : Snapshot) (name : Text) (clientIp : Text) (clientMac device : Option Text) :
    Option CompiledRule :=
  snap.rules.find? (CompiledRule.takes name clientIp clientMac device)

/-- `has_client_rules`. -/
def hasClientRules (snap : Snapshot) : Bool := snap.rules.any fun r => !r.clients.isEmpty

/-- `routes_away`. -/
def routesAway (snap : Snapshot) : Bool := snap.enabled && snap.routeAway

/-- `away_address`, where `found` is the address looked up. -/
def awayAddress (snap : Snapshot) (found : Option Ipv4Addr × Option Ipv6Addr) :
    Option Ipv4Addr × Option Ipv6Addr :=
  if !snap.enabled || !snap.routeAway then (none, none)
  else (snap.awayIpv4.or found.1, snap.awayIpv6.or found.2)

/-- What the query pipeline sees of the proxy. -/
def routing (snap : Snapshot) (found : Option Ipv4Addr × Option Ipv6Addr) : Routing where
  enabled := snap.enabled
  hasClientRules := snap.hasClientRules
  advertise := (snap.advertiseIpv4, snap.advertiseIpv6)
  awayAddress := snap.awayAddress found
  route name clientIp clientMac device :=
    (snap.route name clientIp clientMac device).bind fun r =>
      snap.egresses[r.egressIdx]?.map Egress.id

end Snapshot

/-! ## The listener -/

/-- `admitted`: from the internet only one of your devices, while routing away is on. -/
def admitted (away : Bool) (device : Option Text) (routesAway : Bool) : Bool :=
  !away || (device.isSome && routesAway)

/-- What `splice_through` decides about a connection before it connects. -/
inductive Splice where
  | dropped
  | direct
  | routed (egress : Egress) (failClosed : Bool) (pattern : Text)

/-- `splice_through`, up to the connect. -/
def spliceThrough (lists : Dns.Lists P) (registry : Registry) (snap : Snapshot)
    (clientAddr : Option IpAddr) (host : Text) : Splice :=
  let peer := peerOf lists registry snap.hasClientRules clientAddr
  let away := clientAddr.any fun ip => !isLocal ip
  if !admitted away peer.device snap.routesAway ||
      hostBlockedForClient lists host peer.clientIp peer.clientMac peer.device then .dropped
  else
    let decision := (snap.route host peer.clientIp peer.clientMac peer.device).bind fun r =>
      snap.egresses[r.egressIdx]?.map fun egress => (egress, r.failClosed, r.pattern)
    match decision with
    | some (egress, failClosed, pattern) => .routed egress failClosed pattern
    | none => if away then .dropped else .direct

/-! ## The two sides agree -/

/-- Without client rules the rule is the same whoever asks. -/
theorem Snapshot.route_of_unscoped {snap : Snapshot} (h : snap.hasClientRules = false)
    (name ip ip' : Text) (mac mac' device device' : Option Text) :
    snap.route name ip mac device = snap.route name ip' mac' device' := by
  have hall : ∀ r ∈ snap.rules, r.clients.isEmpty = true := by
    intro r hr
    simpa using List.any_eq_false.1 h r hr
  unfold route
  rw [CompiledRule.find?_takes_of_all hall, CompiledRule.find?_takes_of_all hall]

/-- Whatever each side looks up, they route a name for a client alike.  The lists may have
changed between the query and the connection. -/
theorem route_peerOf_eq (ctx : DnsCtx P) (lists : Dns.Lists P) (registry : Registry)
    (snap : Snapshot) (raw : Bytes) (src : IpAddr) (clientId : Option Text) (name : Text)
    (qtype : UInt16) (hrules : ctx.routing.hasClientRules = snap.hasClientRules)
    (hclients : ctx.clients = registry.toClients)
    (hdevice : registry.deviceAt (unmapV4 src) = clientId.map fun id => 'i' :: 'd' :: ':' :: id) :
    let q := identify ctx raw src clientId name qtype
    let peer := peerOf lists registry snap.hasClientRules (some (unmapV4 src))
    snap.route name peer.clientIp peer.clientMac peer.device =
      snap.route name q.clientIp q.clientMac q.device := by
  intro q peer
  cases hscoped : snap.hasClientRules with
  | false => exact Snapshot.route_of_unscoped hscoped ..
  | true =>
    have hpeer : peer = ⟨q.clientIp, q.clientMac, q.device⟩ := by
      simp [peer, q, peerOf, identify, hrules, hscoped, hclients, hdevice]
    rw [hpeer]

/-- The rule a built snapshot routes by wins, and leads to its own egress. -/
theorem wins_of_route {host : WgHost} {env : Crates} {localIpv4 : Option Ipv4Addr}
    {cfg : ProxyConfig} {prev : Option Snapshot} {name ip : Text} {mac device : Option Text}
    {r : CompiledRule}
    (h : (buildSnapshot host env localIpv4 cfg prev).route name ip mac device = some r) :
    ∃ rule, Wins env (Active.ofConfig host prev cfg).byId cfg.rules
        (CompiledRule.takes name ip mac device) rule r ∧
      (buildSnapshot host env localIpv4 cfg prev).egresses[r.egressIdx]?.map Egress.id =
        some rule.egress := by
  obtain ⟨rule, hwins⟩ := wins_of_find? h
  exact ⟨rule, hwins, Active.egress_of_mem hwins.mem.2⟩

/-- A built snapshot routes a name for a client unless no rule takes it. -/
theorem route_eq_none_iff {host : WgHost} {env : Crates} {localIpv4 : Option Ipv4Addr}
    {cfg : ProxyConfig} {prev : Option Snapshot} {name ip : Text} {mac device : Option Text} :
    (buildSnapshot host env localIpv4 cfg prev).route name ip mac device = none ↔
      ∀ rule ∈ cfg.rules, ∀ r ∈ compileRule env (Active.ofConfig host prev cfg).byId rule,
        r.takes name ip mac device = false := by
  unfold Snapshot.route buildSnapshot compile
  simp only [List.find?_eq_none, FirstMatch.mem_byRank, List.mem_flatMap, Bool.not_eq_true]
  constructor
  · intro h rule hrule r hr
    exact h r ⟨rule, hrule, hr⟩
  · rintro h r ⟨rule, hrule, hr⟩
    exact h rule hrule r hr

/-- What DNS answers with the proxy's address goes by a rule of the snapshot. -/
theorem route_of_maybeIntercept {codec : Codec} {snap : Snapshot}
    {found : Option Ipv4Addr × Option Ipv6Addr} {raw : Bytes} {name ip : Text} {qtype : UInt16}
    {mac device : Option Text} {away : Bool} {resp : DnsResponse} {egressId : Text}
    (h : maybeIntercept codec (snap.routing found) raw name qtype ip mac device away =
      some (resp, egressId)) :
    ∃ r, snap.route name ip mac device = some r ∧
      snap.egresses[r.egressIdx]?.map Egress.id = some egressId ∧
      (away = true → snap.routesAway = true) := by
  unfold maybeIntercept at h
  split at h
  next => cases h
  next hgo =>
    obtain ⟨egressId', hroute, h⟩ := Option.bind_eq_some_iff.1 h
    obtain ⟨query, -, h⟩ := Option.bind_eq_some_iff.1 h
    obtain rfl : egressId' = egressId := congrArg Prod.snd (Option.some.inj h)
    obtain ⟨r, hr, hid⟩ := Option.bind_eq_some_iff.1 hroute
    refine ⟨r, hr, hid, fun haway => ?_⟩
    by_contra hoff
    have hnone : (snap.routing found).awayAddress = (none, none) := by
      refine if_pos ?_
      rw [← Bool.not_and, Bool.not_eq_true']
      exact Bool.eq_false_of_not_eq_true hoff
    exact hgo (by simp [haway, hnone])

/-- For every snapshot made of a config, whatever ran before it, and every client that the
registry knows as the query did: what DNS sends to the proxy, the listener routes by the
same rule; and `route` finds, unless no rule takes the name for the client, the first in
the config of the most specific that do, with an index of the egress its rule names. -/
theorem listener_routes_as_dns (host : WgHost) (env : Crates) (localIpv4 : Option Ipv4Addr)
    (cfg : ProxyConfig) (prev : Option Snapshot) (found : Option Ipv4Addr × Option Ipv6Addr)
    (ctx : DnsCtx P) (lists : Dns.Lists P) (registry : Registry) (raw : Bytes) (src : IpAddr)
    (clientId : Option Text) (name : Text) (qtype : UInt16) (away : Bool)
    (hrouting : ctx.routing = (buildSnapshot host env localIpv4 cfg prev).routing found)
    (hclients : ctx.clients = registry.toClients)
    (hdevice : registry.deviceAt (unmapV4 src) = clientId.map fun id => 'i' :: 'd' :: ':' :: id) :
    let snap := buildSnapshot host env localIpv4 cfg prev
    let byId := (Active.ofConfig host prev cfg).byId
    let q := identify ctx raw src clientId name qtype
    let peer := peerOf lists registry snap.hasClientRules (some (unmapV4 src))
    (∀ resp egressId,
      maybeIntercept ctx.codec ctx.routing raw name qtype q.clientIp q.clientMac q.device away =
        some (resp, egressId) →
      ∃ r, snap.route name q.clientIp q.clientMac q.device = some r ∧
        snap.route name peer.clientIp peer.clientMac peer.device = some r ∧
        snap.egresses[r.egressIdx]?.map Egress.id = some egressId) ∧
    ∀ host ip mac device,
      (snap.route host ip mac device = none ↔ ∀ rule ∈ cfg.rules, ∀ r ∈ compileRule env byId rule,
        r.takes host ip mac device = false) ∧
      ∀ r, snap.route host ip mac device = some r →
        ∃ rule, Wins env byId cfg.rules (CompiledRule.takes host ip mac device) rule r ∧
          snap.egresses[r.egressIdx]?.map Egress.id = some rule.egress := by
  intro snap byId q peer
  refine ⟨fun resp egressId hanswer => ?_, fun host ip mac device => ⟨?_, fun r hr => ?_⟩⟩
  · rw [hrouting] at hanswer
    obtain ⟨r, hr, hid, -⟩ := route_of_maybeIntercept hanswer
    have hsame : snap.route name peer.clientIp peer.clientMac peer.device = _ :=
      route_peerOf_eq ctx lists registry snap raw src clientId name qtype (by rw [hrouting]; rfl)
        hclients hdevice
    exact ⟨r, hr, hsame.trans hr, hid⟩
  · exact route_eq_none_iff
  · exact wins_of_route hr

namespace Household

/-- Two tunnels and a direct way out.  A service goes through the first; the mail of one
device goes through the second, and the wildcard above it goes direct. -/
def cfg : ProxyConfig where
  enabled := true
  advertiseIpv4 := some ⟨192, 168, 1, 2⟩
  advertiseIpv6 := none
  routeAway := false
  awayIpv4 := none
  awayIpv6 := none
  egresses :=
    [tunnel "nl", tunnel "de",
      ⟨"out".toList, [], true, "direct".toList, none, none, none, none, none, none, none, none, none⟩]
  rules :=
    [⟨[], some "video".toList, "nl".toList, true, []⟩,
      ⟨"*.example.com".toList, none, "out".toList, false, []⟩,
      ⟨"mail.example.com".toList, none, "de".toList, true, ["ID:Pixel ".toList]⟩]
where
  tunnel (id : String) : EgressConfig :=
    ⟨id.toList, [], true, "socks5".toList, some "10.0.0.1".toList, some 1080, none, none, none, none,
      none, none, none⟩

/-- The catalog has one service, and the regex builder knows the one wildcard. -/
def crates : Crates where
  suffix _ := none
  escape text := text.flatMap fun c => if c = '.' ∨ c = '*' then ['\\', c] else [c]
  build _ re := if re = "^.*\\.example\\.com$".toList then
      .ok fun name => ".example.com".toList.isSuffixOf name
    else .error []
  catalog := [⟨"video".toList, "Video".toList, true, ["video.test".toList, "vid.test".toList]⟩]

def snap : Snapshot := buildSnapshot ⟨fun _ => .ok (), .error []⟩ crates none cfg none

def query : Message where
  metadata := ⟨1, false, 0, false, false, true, false, false, false, 0⟩
  queries := [⟨[], 1, 1⟩]
  answers := []
  authorities := []
  additionals := []
  signature := []
  edns := none

/-- The query path of the box, which the phone asks by its name. -/
def ctx : DnsCtx CompiledProfile :=
  { Phone.ctx with codec := .ofRows [([], query)], routing := snap.routing (none, none) }

end Household

open Household in
/-- The phone's mail goes through the second tunnel, over DNS and at the listener. -/
theorem listener_routes_as_dns_mail :
    let q := identify ctx [] (.v4 ⟨192, 168, 1, 7⟩) (some "pixel".toList) "mail.example.com".toList 1
    let peer := peerOf ctx.lists Phone.registry snap.hasClientRules (some (.v4 ⟨192, 168, 1, 7⟩))
    ∃ r, snap.route q.name q.clientIp q.clientMac q.device = some r ∧
      snap.route q.name peer.clientIp peer.clientMac peer.device = some r ∧
      snap.egresses[r.egressIdx]?.map Egress.id = some "de".toList := by
  intro q peer
  have hroutes := listener_routes_as_dns ⟨fun _ => .ok (), .error []⟩ crates none cfg none (none, none)
    ctx ctx.lists Phone.registry [] (.v4 ⟨192, 168, 1, 7⟩) (some "pixel".toList)
    "mail.example.com".toList 1 false rfl rfl rfl
  have hanswer : (maybeIntercept ctx.codec ctx.routing [] q.name 1 q.clientIp q.clientMac q.device
      false).map Prod.snd = some "de".toList := by decide +kernel
  obtain ⟨⟨resp, egressId⟩, hanswer, rfl⟩ := Option.map_eq_some_iff.1 hanswer
  exact hroutes.1 resp _ hanswer

/-- What a routed answer says about the query. -/
theorem maybeIntercept_of_stepRouting {ctx : DnsCtx P} {cache : DnsCache} {q : Asking P}
    (h : (stepRouting ctx cache q).isSome = true) :
    (isLocal q.clientAddr = false → q.device.isSome = true) ∧
      ∃ resp egressId, maybeIntercept ctx.codec ctx.routing q.raw q.name q.qtype q.clientIp q.clientMac
        q.device (!isLocal q.clientAddr) = some (resp, egressId) := by
  by_cases hasked : (!!isLocal q.clientAddr || q.device.isSome) = true
  · rw [stepRouting, if_pos hasked, Option.isSome_map] at h
    obtain ⟨⟨resp, egressId⟩, hanswer⟩ := Option.isSome_iff_exists.1 h
    exact ⟨fun hlocal => by simpa [hlocal] using hasked, resp, egressId, hanswer⟩
  · rw [stepRouting, if_neg hasked] at h
    cases h

/-- **A connection that follows a routed answer is not forwarded as unrouted.**  Unless the
lists have come to block its host meanwhile, it goes to the egress of the rule the answer
was given by. -/
theorem splice_of_stepRouting (ctx : DnsCtx P) (lists : Dns.Lists P) (registry : Registry)
    (snap : Snapshot) (found : Option Ipv4Addr × Option Ipv6Addr) (cache : DnsCache) (raw : Bytes)
    (src : IpAddr) (clientId : Option Text) (name : Text) (qtype : UInt16)
    (hrouting : ctx.routing = snap.routing found) (hclients : ctx.clients = registry.toClients)
    (hdevice : registry.deviceAt (unmapV4 src) = clientId.map fun id => 'i' :: 'd' :: ':' :: id)
    (hrouted : (stepRouting ctx cache (identify ctx raw src clientId name qtype)).isSome = true) :
    let q := identify ctx raw src clientId name qtype
    ∃ r egress, snap.route name q.clientIp q.clientMac q.device = some r ∧
      snap.egresses[r.egressIdx]? = some egress ∧
      spliceThrough lists registry snap (some (unmapV4 src)) name =
        if spliceBlocks lists registry snap.hasClientRules (some (unmapV4 src)) name then .dropped
        else .routed egress r.failClosed r.pattern := by
  intro q
  obtain ⟨hknown, resp, egressId, hanswer⟩ := maybeIntercept_of_stepRouting hrouted
  rw [hrouting] at hanswer
  obtain ⟨r, hr, hid, haway⟩ := route_of_maybeIntercept hanswer
  obtain ⟨egress, hegress, -⟩ := Option.map_eq_some_iff.1 hid
  refine ⟨r, egress, hr, hegress, ?_⟩
  have hsame := (route_peerOf_eq ctx lists registry snap raw src clientId name qtype
    (by rw [hrouting]; rfl) hclients hdevice).trans hr
  have hadmitted : admitted (!isLocal (unmapV4 src))
      (peerOf lists registry snap.hasClientRules (some (unmapV4 src))).device snap.routesAway =
        true := by
    cases hlocal : isLocal (unmapV4 src) with
    | true => rfl
    | false =>
      have hdev : (clientId.map fun id => 'i' :: 'd' :: ':' :: id).isSome = true := hknown hlocal
      have hroutes : snap.routesAway = true := haway (by simpa [identify] using hlocal)
      simpa [admitted, peerOf, hlocal, hdevice, hroutes] using hdev
  unfold spliceThrough spliceBlocks
  simp only [Option.any_some, hadmitted, Bool.not_true, Bool.false_or, hsame, Option.bind_some,
    hegress, Option.map_some]

end Ferrite.Proxy
