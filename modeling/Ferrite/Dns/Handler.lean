import Ferrite.Dns.Sanitize
import Ferrite.Dns.Custom
import Ferrite.Dns.Gate

/-!
# The query pipeline

`dns/src/handler.rs`: `decide_as` settles a query from memory, step after step —
custom records, canaries, the blocklist, SafeSearch, the proxy, the cache — or hands
it on; `resolve_upstream` takes it from there with what the upstream said, and a stale
hit starts a refresh in the background.

The block decision, the client registry and the routing rules belong to other parts;
the pipeline sees them through the functions of `Lists`, `Clients` and `Routing`.
Each step is a function of its own that either settles the query or does not, and
`decideAs` takes the first that does.
-/

namespace Ferrite.Dns

open Wire

/-! ## What the pipeline sees -/

/-- What the pipeline asks the blocklist, for profiles of type `P`. -/
structure Lists (P : Type) where
  blockingEnabled : Bool
  hasClientExceptions : Bool
  hasProfiles : Bool
  clientFilteringOff : Text → Option Text → Bool
  profileFor : Text → Option Text → Option P
  shouldBlockFor : Text → Option P → Bool
  isAllowedFor : Text → Option P → Bool
  safeSearchTarget : Text → Option P → Option Text
  blockAnswer : BlockAnswer

/-- What the pipeline asks the client registry. -/
structure Clients where
  ownerMac : Text → Option Text
  getMac : IpAddr → Option Text

/-- The proxy's snapshot: the addresses it advertises, at home and away, and the rule
for a name and client, as the egress it names. -/
structure Routing where
  enabled : Bool
  hasClientRules : Bool
  advertise : Option Ipv4Addr × Option Ipv6Addr
  awayAddress : Option Ipv4Addr × Option Ipv6Addr
  route : Text → Text → Option Text → Option Text → Option Text

/-- `DnsCtx`, without the cache. -/
structure DnsCtx (P : Type) where
  codec : Codec
  switches : DnsSwitches
  lists : Lists P
  customRecords : CustomRecords
  clients : Clients
  routing : Routing
  logIgnore : List Text
  clientTtl : UInt32

/-- `QueryStatus`. -/
inductive QueryStatus where
  | allowed
  | blocked
  | cached
  | upstream
  | routed
deriving DecidableEq, Repr

/-- `QueryEntry`: the row the log gets for a query. -/
structure QueryEntry where
  domain : Text
  queryType : UInt16
  clientIp : Text
  device : Text
  status : QueryStatus
  upstream : Option Text
  rcode : UInt8
deriving DecidableEq, Repr

/-- `Pending`: what a query carries into the upstream leg. -/
structure Pending (P : Type) where
  name : Text
  qtype : UInt16
  wantDnssec : Bool
  filteringEnabled : Bool
  profile : Option P
  clientAddr : IpAddr
  device : Option Text
  logIgnored : Bool
  clientTtl : UInt32
  rewrite : Option Text

/-- `Decision`. -/
inductive Decision (P : Type) where
  | answer (bytes : Bytes)
  | upstream (pending : Pending P)
  | drop

/-- A refresh running in the background, with the query it sent. -/
structure Refresh where
  name : Text
  qtype : UInt16
  wantDnssec : Bool
  query : Bytes
deriving DecidableEq, Repr

/-- What `decide_as` did: its decision, the cache it leaves, the log row it sent and
the refresh it started. -/
structure Outcome (P : Type) where
  decision : Decision P
  cache : DnsCache
  logged : Option QueryEntry
  refresh : Option Refresh

variable {P : Type}

/-! ## Helpers -/

/-- `patch_id`. -/
def patchId (bytes : Bytes) (id : UInt16) : Bytes := setId bytes id

/-- `patch_cached`: the query's id, and every TTL set to what is left. -/
def patchCached (bytes : Bytes) (id : UInt16) (remainingTtl : UInt32) : Bytes :=
  (setTtls (setId bytes id) remainingTtl).1

/-- `cap_ttls`. -/
def capTtls (bytes : Bytes) (maxTtl : UInt32) : Bytes := (Wire.capTtls bytes maxTtl).1

/-- `is_log_ignored`: a plain pattern is exact, `*.` covers the name and what is below. -/
def isLogIgnored (name : Text) (patterns : List Text) : Bool :=
  patterns.any fun pattern =>
    match pattern with
    | '*' :: '.' :: suffix => name == suffix || ('.' :: suffix).isSuffixOf name
    | _ => name == pattern

/-- `without_ech`. -/
def withoutEch (codec : Codec) (switches : DnsSwitches) (bytes : Bytes) (qtype : UInt16) : Bytes :=
  if (qtype = 64 ∨ qtype = 65) ∧ switches.stripEch then (stripEch codec bytes).getD bytes else bytes

/-- `cname_blocked_target_decoded`. -/
def cnameBlockedTargetDecoded (codec : Codec) (lists : Lists P) (bytes : Bytes)
    (profile : Option P) : Option Text := do
  let m ← codec.fromBytes bytes
  let targets := m.answers.filterMap fun r =>
    match r.data with
    | .cname target =>
      some ((codec.strToLowercase (codec.toUtf8 target)).trimEndMatches (· == '.'))
    | _ => none
  targets.find? fun t => lists.shouldBlockFor t profile

/-- `cname_blocked_target`: the first blocked name of the CNAME chain, unless the
queried name is allowed. -/
def cnameBlockedTarget (codec : Codec) (lists : Lists P) (bytes : Bytes) (name : Text)
    (profile : Option P) : Option Text :=
  if lists.isAllowedFor name profile then none
  else
    match findCnameTarget bytes fun t => lists.shouldBlockFor t profile with
    | .matched target => some target
    | .noMatch => none
    | .unsupported => cnameBlockedTargetDecoded codec lists bytes profile

/-- `maybe_intercept`: the proxy's answer for a routed name, and the egress. -/
def maybeIntercept (codec : Codec) (routing : Routing) (raw : Bytes) (name : Text)
    (qtype : UInt16) (clientIp : Text) (clientMac device : Option Text) (away : Bool) :
    Option (DnsResponse × Text) :=
  if !routing.enabled || (away && routing.awayAddress == (none, none)) then none
  else do
    let (v4, v6) := if away then routing.awayAddress else routing.advertise
    let egressId ← routing.route name clientIp clientMac device
    let query ← codec.fromBytes raw
    return (synthResponse codec query qtype v4 v6, egressId)

/-! ## Who asks, and what -/

/-- Everything `decide_as` works out about a query before its first step. -/
structure Asking (P : Type) where
  raw : Bytes
  name : Text
  qtype : UInt16
  clientAddr : IpAddr
  clientIp : Text
  clientMac : Option Text
  device : Option Text
  filteringEnabled : Bool
  profile : Option P
  wantDnssec : Bool
  logIgnored : Bool
  clientTtl : UInt32

/-- The client behind a query: the device it names comes first, then its address. -/
def identify (ctx : DnsCtx P) (raw : Bytes) (src : IpAddr) (clientId : Option Text) (name : Text)
    (qtype : UInt16) : Asking P :=
  let device := clientId.map fun id => 'i' :: 'd' :: ':' :: id
  let clientAddr := unmapV4 src
  let clientScoped := (ctx.lists.blockingEnabled &&
    (ctx.lists.hasClientExceptions || ctx.lists.hasProfiles)) || ctx.routing.hasClientRules
  let clientMac := if clientScoped then
      (device.bind ctx.clients.ownerMac).or (ctx.clients.getMac clientAddr)
    else none
  let clientIp := if clientScoped then ipToString clientAddr else []
  let filteringEnabled := ctx.lists.blockingEnabled &&
    !(device.any fun d => clientScoped && ctx.lists.clientFilteringOff d none) &&
    !ctx.lists.clientFilteringOff clientIp clientMac
  let profile := if filteringEnabled then
      ((device.filter fun _ => clientScoped).bind fun d => ctx.lists.profileFor d none).or
        (ctx.lists.profileFor clientIp clientMac)
    else none
  { raw, name, qtype, clientAddr, clientIp, clientMac, device, filteringEnabled, profile
    wantDnssec := wantDnssec ctx.codec ctx.switches raw
    logIgnored := isLogIgnored name ctx.logIgnore
    clientTtl := ctx.clientTtl }

/-- `make_entry` and `emit`: the log row, unless the name is one that is not logged. -/
def emit (logIgnored : Bool) (device : Option Text) (clientAddr : IpAddr) (name : Text)
    (qtype : UInt16) (status : QueryStatus) (upstream : Option Text) (rcode : UInt8) :
    Option QueryEntry :=
  if logIgnored then none
  else some ⟨name, qtype, ipToString clientAddr, device.getD [], status, upstream, rcode⟩

namespace Asking

/-- The log row of a query that is settled in memory. -/
def emit (q : Asking P) (status : QueryStatus) (upstream : Option Text) (rcode : UInt8) :
    Option QueryEntry :=
  Dns.emit q.logIgnored q.device q.clientAddr q.name q.qtype status upstream rcode

/-- The query goes upstream. -/
def pending (q : Asking P) (wantDnssec : Bool) (rewrite : Option Text) : Pending P where
  name := q.name
  qtype := q.qtype
  wantDnssec := wantDnssec
  filteringEnabled := q.filteringEnabled
  profile := q.profile
  clientAddr := q.clientAddr
  device := q.device
  logIgnored := q.logIgnored
  clientTtl := q.clientTtl
  rewrite := rewrite

end Asking

/-- The blocked answer and its log row. -/
def blockedOutcome (ctx : DnsCtx P) (cache : DnsCache) (q : Asking P) (upstream : Option Text)
    (refresh : Option Refresh) : Outcome P :=
  let (answer, rcode) := buildBlocked ctx.codec q.raw q.qtype q.clientTtl ctx.lists.blockAnswer
  ⟨.answer answer, cache, q.emit .blocked upstream rcode, refresh⟩

/-! ## The steps -/

/-- Step 1: custom records, which are cached as well. -/
def stepCustom (ctx : DnsCtx P) (cache : DnsCache) (now : ℕ) (q : Asking P) :
    Option (Outcome P) :=
  (ctx.customRecords.lookup ctx.codec q.raw q.name q.qtype).map fun resp =>
    { decision := .answer (capTtls (patchId resp.bytes (queryId q.raw)) q.clientTtl)
      cache := cache.insert q.name q.qtype q.wantDnssec resp now
      logged := q.emit .allowed (some "custom".toList) 0
      refresh := none }

/-- Step 1b: canaries. -/
def stepCanary (ctx : DnsCtx P) (cache : DnsCache) (q : Asking P) : Option (Outcome P) :=
  (canary q.name ctx.switches).map fun reason =>
    ⟨.answer (buildNxdomain ctx.codec q.raw q.clientTtl), cache,
      q.emit .blocked (some reason) 3, none⟩

/-- Step 2: the blocklist. -/
def stepBlocklist (ctx : DnsCtx P) (cache : DnsCache) (q : Asking P) : Option (Outcome P) :=
  if q.filteringEnabled && ctx.lists.shouldBlockFor q.name q.profile then
    some (blockedOutcome ctx cache q none none)
  else none

/-- Step 2b: SafeSearch, from the safe host's cached answer or by asking for it. -/
def stepSafeSearch (ctx : DnsCtx P) (cache : DnsCache) (now : ℕ) (q : Asking P) :
    Option (Outcome P) :=
  if q.filteringEnabled then
    (ctx.lists.safeSearchTarget q.name q.profile).map fun target =>
      let hit := (cache.getWithRemaining target q.qtype false now).bind fun (cached, remaining) =>
        (rewriteAnswer ctx.codec q.raw q.name target cached.bytes).map (·, remaining)
      match hit with
      | some (bytes, remaining) =>
        ⟨.answer (capTtls bytes (min remaining q.clientTtl)), cache,
          q.emit .cached (some ("safesearch:".toList ++ target)) 0, none⟩
      | none => ⟨.upstream (q.pending false (some target)), cache, none, none⟩
  else none

/-- Step 3: selective routing.  From the internet only a device that names itself is
routed. -/
def stepRouting (ctx : DnsCtx P) (cache : DnsCache) (q : Asking P) : Option (Outcome P) :=
  let away := !isLocal q.clientAddr
  if !away || q.device.isSome then
    (maybeIntercept ctx.codec ctx.routing q.raw q.name q.qtype q.clientIp q.clientMac q.device
        away).map fun (resp, egressId) =>
      ⟨.answer (capTtls (patchId resp.bytes (queryId q.raw)) q.clientTtl), cache,
        q.emit .routed (some ("proxy:".toList ++ egressId)) 0, none⟩
  else none

/-- `refresh_stale`: claim the entry's refresh, if a permit is free and nobody has it. -/
def refreshStale (ctx : DnsCtx P) (cache : DnsCache) (permit : Bool) (q : Asking P) :
    DnsCache × Option Refresh :=
  if permit then
    let (mine, cache) := cache.beginRefresh (DnsCache.cacheKey q.name q.qtype q.wantDnssec)
    if mine then
      (cache, some ⟨q.name, q.qtype, q.wantDnssec,
        sanitizeQuery ctx.codec q.raw ctx.switches.stripEcs q.wantDnssec⟩)
    else (cache, none)
  else (cache, none)

/-- The cached answer for a query: a fresh one with its remaining lifetime, or a stale
one with `STALE_ANSWER_TTL`. -/
def cacheHit (cache : DnsCache) (now : ℕ) (q : Asking P) : Option (DnsResponse × UInt32 × Bool) :=
  ((cache.getWithRemaining q.name q.qtype q.wantDnssec now).map
      fun (cached, remaining) => (cached, remaining, false)).or
    ((cache.getStale q.name q.qtype q.wantDnssec now).map
      fun cached => (cached, staleAnswerTtl, true))

/-- Step 4: the cache.  The CNAME chain of a hit is checked again. -/
def stepCache (ctx : DnsCtx P) (cache : DnsCache) (now : ℕ) (permit : Bool) (q : Asking P) :
    Option (Outcome P) :=
  (cacheHit cache now q).map fun (cached, remaining, stale) =>
    let (cache, refresh) := if stale then refreshStale ctx cache permit q else (cache, none)
    let blocked := if q.filteringEnabled then
        cnameBlockedTarget ctx.codec ctx.lists cached.bytes q.name q.profile
      else none
    match blocked with
    | some target => blockedOutcome ctx cache q (some ("cname:".toList ++ target)) refresh
    | none =>
      ⟨.answer (patchCached cached.bytes (queryId q.raw) (min remaining q.clientTtl)), cache,
        q.emit .cached (if stale then some "stale".toList else none) 0, refresh⟩

/-- The steps in their order; a query no step settles goes upstream. -/
def settle (ctx : DnsCtx P) (cache : DnsCache) (now : ℕ) (permit : Bool) (q : Asking P) :
    Outcome P :=
  ((((((stepCustom ctx cache now q).or (stepCanary ctx cache q)).or
    (stepBlocklist ctx cache q)).or (stepSafeSearch ctx cache now q)).or
    (stepRouting ctx cache q)).or (stepCache ctx cache now permit q)).getD
      ⟨.upstream (q.pending q.wantDnssec none), cache, none, none⟩

/-- `decide_as`.  The gate's verdict and whether a refresh permit is free come from
outside. -/
def decideAs (ctx : DnsCtx P) (cache : DnsCache) (now : ℕ) (verdict : Verdict) (permit : Bool)
    (raw : Bytes) (src : IpAddr) (clientId : Option Text) : Outcome P :=
  match verdict with
  | .drop => ⟨.drop, cache, none, none⟩
  | .refuse => ⟨.answer (buildError ctx.codec raw refused), cache, none, none⟩
  | .pass =>
    if opcode raw ≠ some 0 then ⟨.answer (buildServfail ctx.codec raw), cache, none, none⟩
    else
      match question ctx.codec raw with
      | some (name, qtype) =>
        settle ctx cache now permit (identify ctx raw src clientId name qtype)
      -- a message the decoder accepts (no question in it) gets SERVFAIL, another nothing
      | none =>
        match ctx.codec.fromBytes raw with
        | some _ => ⟨.answer (buildServfail ctx.codec raw), cache, none, none⟩
        | none => ⟨.drop, cache, none, none⟩

/-! ## The upstream leg -/

/-- What the upstream leg did: the answer, the cache it leaves and the log row. -/
structure Resolved where
  bytes : Bytes
  cache : DnsCache
  logged : Option QueryEntry

/-- Step 7 and its siblings: an answer with a cacheable lifetime is kept. -/
def cacheAnswer (cache : DnsCache) (now : ℕ) (name : Text) (qtype : UInt16) (dnssec : Bool)
    (bytes : Bytes) : DnsCache :=
  match cacheTtl bytes with
  | some ttl => cache.insert name qtype dnssec ⟨bytes, ttl⟩ now
  | none => cache

/-- `resolve_safe_host`: what the upstream says about the safe host is cached under the
host's own name; any failure is SERVFAIL. -/
def resolveSafeHost (ctx : DnsCtx P) (cache : DnsCache) (now : ℕ) (raw : Bytes) (name : Text)
    (qtype : UInt16) (target : Text) (reply : Option (Bytes × Text)) : Bytes × DnsCache :=
  match targetQuery ctx.codec (queryId raw) target qtype, reply with
  | some _, some (bytes, _) =>
    match rcode bytes with
    | some rc =>
      let cache := if rc = 0 then cacheAnswer cache now target qtype false bytes else cache
      ((rewriteAnswer ctx.codec raw name target bytes).getD (buildServfail ctx.codec raw), cache)
    | none => (buildServfail ctx.codec raw, cache)
  | _, _ => (buildServfail ctx.codec raw, cache)

/-- What the pool's reply is taken for: the bytes, their RCODE and the upstream.  Bytes
that do not walk cleanly, and a failed query, are SERVFAIL from here on. -/
def readReply (codec : Codec) (raw : Bytes) (reply : Option (Bytes × Text)) :
    Bytes × UInt8 × Option Text :=
  match reply with
  | some (bytes, label) =>
    match rcode bytes with
    | some rc => (bytes, rc, some label)
    | none => (buildServfail codec raw, 2, none)
  | none => (buildServfail codec raw, 2, none)

/-- `resolve_upstream`, with the pool's reply and the name of the upstream it is from. -/
def resolveUpstream (ctx : DnsCtx P) (cache : DnsCache) (now : ℕ) (raw : Bytes) (p : Pending P)
    (reply : Option (Bytes × Text)) : Resolved :=
  match p.rewrite with
  | some target =>
    let (bytes, cache) := resolveSafeHost ctx cache now raw p.name p.qtype target reply
    ⟨capTtls bytes p.clientTtl, cache, emit p.logIgnored p.device p.clientAddr p.name p.qtype
      .upstream (some ("safesearch:".toList ++ target)) ((rcode bytes).getD 2)⟩
  | none =>
    let (response, rc, label) := readReply ctx.codec raw reply
    let response := withoutEch ctx.codec ctx.switches response p.qtype
    let blocked := if rc = 0 ∧ p.filteringEnabled then
        cnameBlockedTarget ctx.codec ctx.lists response p.name p.profile
      else none
    match blocked with
    | some target =>
      let (answer, rc) := buildBlocked ctx.codec raw p.qtype p.clientTtl ctx.lists.blockAnswer
      ⟨answer, cache, emit p.logIgnored p.device p.clientAddr p.name p.qtype .blocked
        (some ("cname:".toList ++ target)) rc⟩
    | none =>
      let cache := if rc = 0 ∧ response ≠ [] then
          cacheAnswer cache now p.name p.qtype p.wantDnssec response
        else cache
      ⟨capTtls response p.clientTtl, cache,
        emit p.logIgnored p.device p.clientAddr p.name p.qtype .upstream label rc⟩

/-- The task of `refresh_stale`, with the pool's reply: a good answer replaces the
stale one, and the claim on the entry is given back. -/
def finishRefresh (ctx : DnsCtx P) (cache : DnsCache) (now : ℕ) (r : Refresh)
    (reply : Option Bytes) : DnsCache :=
  let cache := match reply with
    | some bytes =>
      if rcode bytes = some 0 then
        cacheAnswer cache now r.name r.qtype r.wantDnssec
          (withoutEch ctx.codec ctx.switches bytes r.qtype)
      else cache
    | none => cache
  cache.endRefresh (DnsCache.cacheKey r.name r.qtype r.wantDnssec)

end Ferrite.Dns
