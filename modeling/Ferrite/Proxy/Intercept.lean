import Ferrite.Blocklist.Gating
import Ferrite.Dns.Handler

/-!
# Blocking at the proxy's listener

`proxy/src/intercept.rs`: a connection that names a blocked host is dropped, since its
client may hold an old answer that led here.  `host_blocked_for_client` repeats the
gate of `decide_as` by hand, and `splice_through` looks up who the client is only when
something may key on it.

* `spliceBlocks_eq_fullVerdict` and `dnsBlocks_eq_fullVerdict` — the lookups each of the
  two skips do not change its verdict;
* `listener_blocks_as_dns` — so they decide alike, whatever the flags say;
* `both_do_what_is_wanted` — after any calls the flags say what is in the sets, and both
  decide as `wanted`, which looks everything up and reads no flag.
-/

namespace Ferrite.Proxy

open Dns Blocklist

variable {P C : Type}

/-- The client registry as the listener sees it: also which device asked lately over
encrypted DNS from an address. -/
structure Registry extends Dns.Clients where
  deviceAt : IpAddr → Option Text

/-- What both pipelines see of a blocklist at a time.  What SafeSearch does and what a
blocked name is answered with play no part in the gate. -/
def view (env : Crates) (b : Filtering C) (now : ℕ)
    (safeSearch : Text → Option CompiledProfile → Option Text) (answer : BlockAnswer) :
    Dns.Lists CompiledProfile where
  blockingEnabled := b.blockingEnabled
  hasClientExceptions := b.hasClientExceptions
  hasProfiles := b.hasProfiles
  clientFilteringOff := b.clientFilteringOff
  profileFor := b.profileFor
  shouldBlockFor := b.shouldBlockFor env now
  isAllowedFor := b.isAllowedFor env
  safeSearchTarget := safeSearch
  blockAnswer := answer

/-! ## The listener -/

/-- `host_blocked_for_client`. -/
def hostBlockedForClient (lists : Dns.Lists P) (host clientIp : Text) (clientMac device : Option Text) :
    Bool :=
  if !lists.blockingEnabled || (device.any fun d => lists.clientFilteringOff d none) ||
      lists.clientFilteringOff clientIp clientMac then false
  else
    -- the device's own profile first, as the DNS pipeline does
    let profile := (device.bind fun d => lists.profileFor d none).or
      (lists.profileFor clientIp clientMac)
    lists.shouldBlockFor host profile

/-- Who `splice_through` takes a connection to be from. -/
structure Peer where
  clientIp : Text
  clientMac : Option Text
  device : Option Text

/-- What `splice_through` looks up: the MAC when something keys on it, the device also
when the client is away. -/
def peerOf (lists : Dns.Lists P) (registry : Registry) (hasClientRules : Bool)
    (clientAddr : Option IpAddr) : Peer :=
  let needMac := hasClientRules ||
    (lists.blockingEnabled && (lists.hasClientExceptions || lists.hasProfiles))
  let away := clientAddr.any fun ip => !isLocal ip
  let device := if needMac || away then clientAddr.bind registry.deviceAt else none
  { clientIp := (clientAddr.map ipToString).getD []
    clientMac := if needMac then
        (device.bind registry.ownerMac).or (clientAddr.bind registry.getMac)
      else none
    device := device }

/-- The verdict of `splice_through` on a host. -/
def spliceBlocks (lists : Dns.Lists P) (registry : Registry) (hasClientRules : Bool)
    (clientAddr : Option IpAddr) (host : Text) : Bool :=
  let peer := peerOf lists registry hasClientRules clientAddr
  hostBlockedForClient lists host peer.clientIp peer.clientMac peer.device

/-- The verdict of `decide_as` on a name. -/
def dnsBlocks (ctx : DnsCtx P) (q : Asking P) : Bool :=
  q.filteringEnabled && ctx.lists.shouldBlockFor q.name q.profile

/-- `decide_as` answers a name it blocks in its second step. -/
theorem dnsBlocks_eq_isSome_stepBlocklist (ctx : DnsCtx P) (cache : DnsCache) (q : Asking P) :
    dnsBlocks ctx q = (stepBlocklist ctx cache q).isSome := by
  unfold dnsBlocks stepBlocklist
  cases hblocks : q.filteringEnabled && ctx.lists.shouldBlockFor q.name q.profile <;> rfl

/-! ## The gate without its shortcuts -/

/-- The client's MAC, looked up whether or not anything keys on it. -/
def macOf (clients : Dns.Clients) (addr : IpAddr) (device : Option Text) : Option Text :=
  (device.bind clients.ownerMac).or (clients.getMac addr)

/-- The verdict on a host for a client of which everything is known. -/
def fullVerdict (lists : Dns.Lists P) (clients : Dns.Clients) (addr : IpAddr) (device : Option Text)
    (host : Text) : Bool :=
  hostBlockedForClient lists host (ipToString addr) (macOf clients addr device) device

/-- A flag that is off means that nothing is behind it. -/
structure Gated (lists : Dns.Lists P) : Prop where
  exceptions : lists.hasClientExceptions = false →
    ∀ clientIp mac, lists.clientFilteringOff clientIp mac = false
  profiles : lists.hasProfiles = false → ∀ clientIp mac, lists.profileFor clientIp mac = none

theorem gated_view (env : Crates) (b : Filtering C) (now : ℕ)
    (safeSearch : Text → Option CompiledProfile → Option Text) (answer : BlockAnswer) :
    Gated (view env b now safeSearch answer) where
  exceptions h clientIp mac := Filtering.clientFilteringOff_eq_false h clientIp mac
  profiles h clientIp mac := Filtering.profileFor_eq_none h clientIp mac

/-- When nothing keys on the client, the verdict is the same whoever it is. -/
theorem hostBlockedForClient_of_unscoped {lists : Dns.Lists P} (h : Gated lists)
    (hexc : lists.hasClientExceptions = false) (hprof : lists.hasProfiles = false)
    (host clientIp : Text) (clientMac device : Option Text) :
    hostBlockedForClient lists host clientIp clientMac device =
      (lists.blockingEnabled && lists.shouldBlockFor host none) := by
  have hoff := h.exceptions hexc
  have hnone := h.profiles hprof
  unfold hostBlockedForClient
  cases hen : lists.blockingEnabled <;> cases device <;> simp [hoff, hnone]

theorem hostBlockedForClient_of_disabled {lists : Dns.Lists P} (h : lists.blockingEnabled = false)
    (host clientIp : Text) (clientMac device : Option Text) :
    hostBlockedForClient lists host clientIp clientMac device = false := by
  unfold hostBlockedForClient
  simp [h]

/-- The listener's lookups, skipped or not, do not change its verdict. -/
theorem spliceBlocks_eq_fullVerdict {lists : Dns.Lists P} (h : Gated lists) (registry : Registry)
    (hasClientRules : Bool) (addr : IpAddr) (host : Text) :
    spliceBlocks lists registry hasClientRules (some addr) host =
      fullVerdict lists registry.toClients addr (registry.deviceAt addr) host := by
  unfold spliceBlocks fullVerdict
  cases hen : lists.blockingEnabled with
  | false => rw [hostBlockedForClient_of_disabled hen, hostBlockedForClient_of_disabled hen]
  | true =>
    cases hscoped : lists.hasClientExceptions || lists.hasProfiles with
    | true => simp [peerOf, macOf, hen, hscoped]
    | false =>
      obtain ⟨hexc, hprof⟩ := Bool.or_eq_false_iff.1 hscoped
      rw [hostBlockedForClient_of_unscoped h hexc hprof,
        hostBlockedForClient_of_unscoped h hexc hprof]

/-- The gate as `decide_as` writes it and as the listener does. -/
theorem gate_eq (enabled deviceOff clientOff : Bool) (profile : Option P)
    (blocks : Option P → Bool) :
    (enabled && !deviceOff && !clientOff &&
      blocks (if enabled && !deviceOff && !clientOff then profile else none)) =
      if !enabled || deviceOff || clientOff then false else blocks profile := by
  cases enabled <;> cases deviceOff <;> cases clientOff <;> rfl

/-- Does something key on who asks? -/
def clientScoped (ctx : DnsCtx P) : Bool :=
  (ctx.lists.blockingEnabled && (ctx.lists.hasClientExceptions || ctx.lists.hasProfiles)) ||
    ctx.routing.hasClientRules

/-- The query path's verdict is the listener's gate on what the path knows of the client. -/
theorem dnsBlocks_identify (ctx : DnsCtx P) (raw : Bytes) (src : IpAddr) (clientId : Option Text)
    (name : Text) (qtype : UInt16) :
    let device := clientId.map fun id => 'i' :: 'd' :: ':' :: id
    dnsBlocks ctx (identify ctx raw src clientId name qtype) =
      hostBlockedForClient ctx.lists name
        (if clientScoped ctx then ipToString (unmapV4 src) else [])
        (if clientScoped ctx then macOf ctx.clients (unmapV4 src) device else none)
        (device.filter fun _ => clientScoped ctx) := by
  intro device
  have hdevice : (device.any fun d => clientScoped ctx && ctx.lists.clientFilteringOff d none) =
      ((device.filter fun _ => clientScoped ctx).any fun d => ctx.lists.clientFilteringOff d none) := by
    cases device <;> cases clientScoped ctx <;> rfl
  unfold hostBlockedForClient
  rw [← hdevice, ← gate_eq]
  rfl

/-- The lookups the query path skips do not change its verdict. -/
theorem dnsBlocks_eq_fullVerdict {ctx : DnsCtx P} (h : Gated ctx.lists) (raw : Bytes)
    (src : IpAddr) (clientId : Option Text) (name : Text) (qtype : UInt16) :
    dnsBlocks ctx (identify ctx raw src clientId name qtype) =
      fullVerdict ctx.lists ctx.clients (unmapV4 src)
        (clientId.map fun id => 'i' :: 'd' :: ':' :: id) name := by
  rw [dnsBlocks_identify]
  unfold fullVerdict
  cases hen : ctx.lists.blockingEnabled with
  | false => rw [hostBlockedForClient_of_disabled hen, hostBlockedForClient_of_disabled hen]
  | true =>
    cases hkeyed : ctx.lists.hasClientExceptions || ctx.lists.hasProfiles with
    | true => cases clientId <;> simp [clientScoped, hen, hkeyed, Option.filter]
    | false =>
      obtain ⟨hexc, hprof⟩ := Bool.or_eq_false_iff.1 hkeyed
      rw [hostBlockedForClient_of_unscoped h hexc hprof,
        hostBlockedForClient_of_unscoped h hexc hprof]

/-! ## Both against the sets -/

/-- What is wanted for a client, read from the sets alone: filtering is on, nothing the
client is known by is bypassed or paused, and the host is blocked under the first profile
that lists the device, or else the client. -/
def wanted (env : Crates) (b : Filtering C) (now : ℕ) (clients : Dns.Clients) (addr : IpAddr)
    (device : Option Text) (host : Text) : Prop :=
  let mac := macOf clients addr device
  let profile := if b.profilesConfig.isEmpty then none
    else (device.bind fun d => b.firstProfile d none).or (b.firstProfile (ipToString addr) mac)
  b.enabled = true ∧ b.pauses.globalUntil = none ∧
    (∀ key ∈ device.toList ++ ipToString addr :: mac.toList,
      key ∉ b.clientBypass ∧ b.pauses.clients.lookup key = none) ∧
    b.shouldBlockFor env now host profile = true

theorem clientFilteringOff_eq_false_iff {b : Filtering C} (h : b.FlagsRight) {clientIp : Text}
    {mac : Option Text} :
    b.clientFilteringOff clientIp mac = false ↔ ∀ key ∈ clientIp :: mac.toList,
      key ∉ b.clientBypass ∧ b.pauses.clients.lookup key = none := by
  rw [← Bool.not_eq_true, Filtering.clientFilteringOff_iff h]
  simp only [not_exists, not_and, not_or, Option.isSome_iff_ne_none, ne_eq, not_not]

theorem gate_eq_true_iff (enabled deviceOff clientOff blocks : Bool) :
    (if !enabled || deviceOff || clientOff then false else blocks) = true ↔
      enabled = true ∧ (deviceOff = false ∧ clientOff = false) ∧ blocks = true := by
  cases enabled <;> cases deviceOff <;> cases clientOff <;> simp

/-- With the flags right, the full gate does what is wanted. -/
theorem fullVerdict_iff_wanted {b : Filtering C} (h : b.FlagsRight) (env : Crates) (now : ℕ)
    (safeSearch : Text → Option CompiledProfile → Option Text) (answer : BlockAnswer)
    (clients : Dns.Clients) (addr : IpAddr) (device : Option Text) (host : Text) :
    fullVerdict (view env b now safeSearch answer) clients addr device host = true ↔
      wanted env b now clients addr device host := by
  have hprofile (clientIp : Text) (mac : Option Text) : b.profileFor clientIp mac =
      if b.profilesConfig.isEmpty then none else b.firstProfile clientIp mac := by
    rw [Filtering.profileFor, h.profiles, Bool.not_not]
  have hdevice : (device.any fun d => b.clientFilteringOff d none) = false ↔
      ∀ key ∈ device.toList, key ∉ b.clientBypass ∧ b.pauses.clients.lookup key = none := by
    cases device with
    | none => simp
    | some d => simpa using @clientFilteringOff_eq_false_iff _ b h d none
  have henabled : b.blockingEnabled = true ↔ b.enabled = true ∧ b.pauses.globalUntil = none := by
    rw [Filtering.blockingEnabled, h.pauses.global]
    cases b.pauses.globalUntil <;> simp
  have hpick (ip : Text) (mac : Option Text) :
      (device.bind fun d => b.profileFor d none).or (b.profileFor ip mac) =
        if b.profilesConfig.isEmpty then none
        else (device.bind fun d => b.firstProfile d none).or (b.firstProfile ip mac) := by
    simp only [hprofile]
    cases b.profilesConfig.isEmpty <;> cases device <;> rfl
  unfold fullVerdict hostBlockedForClient wanted
  simp only [view, List.forall_mem_append]
  rw [← clientFilteringOff_eq_false_iff h, ← hdevice, hpick, ← and_assoc, ← henabled]
  exact gate_eq_true_iff _ _ _ _

/-- After any calls on a new blocklist, both the listener and the query path block a host
for a client just when that is wanted. -/
theorem both_do_what_is_wanted (env : Crates) (enabled : Bool) (bypass : List Text)
    (configs : List C) (sets : Sets) (cacheSize clock now : ℕ) (ops : List (GateOp C))
    (safeSearch : Text → Option CompiledProfile → Option Text) (answer : BlockAnswer)
    (registry : Registry) (hasClientRules : Bool) (addr : IpAddr) (host : Text) :
    let b := ops.foldl Filtering.apply (.new enabled bypass configs sets cacheSize clock)
    (spliceBlocks (view env b now safeSearch answer) registry hasClientRules (some addr) host =
        true ↔ wanted env b now registry.toClients addr (registry.deviceAt addr) host) ∧
      ∀ (ctx : DnsCtx CompiledProfile) (raw : Bytes) (src : IpAddr) (clientId : Option Text)
        (qtype : UInt16), ctx.lists = view env b now safeSearch answer →
        (dnsBlocks ctx (identify ctx raw src clientId host qtype) = true ↔
          wanted env b now ctx.clients (unmapV4 src)
            (clientId.map fun id => 'i' :: 'd' :: ':' :: id) host) := by
  intro b
  have hflags : b.FlagsRight := Filtering.flagsRight_run (Filtering.flagsRight_new ..) ops
  refine ⟨?_, fun ctx raw src clientId qtype hlists => ?_⟩
  · rw [spliceBlocks_eq_fullVerdict (gated_view ..), fullVerdict_iff_wanted hflags]
  · rw [dnsBlocks_eq_fullVerdict (hlists ▸ gated_view ..), hlists, fullVerdict_iff_wanted hflags]

/-- For every state of the blocklist, whatever its flags say, and every client: where the
listener knows the device the query named, it blocks a host exactly when the query path
blocks the name. -/
theorem listener_blocks_as_dns (env : Crates) (b : Filtering C) (now : ℕ)
    (safeSearch : Text → Option CompiledProfile → Option Text) (answer : BlockAnswer)
    (ctx : DnsCtx CompiledProfile) (registry : Registry) (hasClientRules : Bool) (raw : Bytes)
    (src : IpAddr) (clientId : Option Text) (host : Text) (qtype : UInt16)
    (hlists : ctx.lists = view env b now safeSearch answer)
    (hclients : ctx.clients = registry.toClients)
    (hdevice : registry.deviceAt (unmapV4 src) = clientId.map fun id => 'i' :: 'd' :: ':' :: id) :
    let q := identify ctx raw src clientId host qtype
    spliceBlocks ctx.lists registry hasClientRules (some (unmapV4 src)) host =
      (q.filteringEnabled && ctx.lists.shouldBlockFor host q.profile) := by
  intro q
  have hgated : Gated ctx.lists := hlists ▸ gated_view env b now safeSearch answer
  have hdns : dnsBlocks ctx q = _ := dnsBlocks_eq_fullVerdict hgated raw src clientId host qtype
  rw [spliceBlocks_eq_fullVerdict hgated, hdevice, ← hclients, ← hdns]
  rfl

namespace Phone

/-- A box that blocks one name and pauses filtering for a phone that names itself. -/
def filtering : Filtering Unit :=
  { Filtering.new true [] [] ⟨⟨∅, []⟩, ⟨∅, []⟩, ⟨[], ∅⟩, {"ads.com".toList}, ∅, []⟩ 4 0 with
    pauses := Pauses.default.pauseClients ["id:pixel".toList] 60 }

/-- A registry that has seen the phone at one address. -/
def registry : Registry where
  ownerMac _ := none
  getMac _ := none
  deviceAt ip := if ip = .v4 ⟨192, 168, 1, 7⟩ then some "id:pixel".toList else none

def crates : Crates := ⟨fun _ => none, id, fun _ _ => .error [], []⟩

/-- The query path of that box. -/
def ctx : DnsCtx CompiledProfile where
  codec := .ofRows []
  switches := ⟨false, false, false, false, false⟩
  lists := view crates filtering 0 (fun _ _ => none) ⟨.nxdomain, none, none⟩
  customRecords := ⟨[], [], []⟩
  clients := registry.toClients
  routing := ⟨false, false, (none, none), (none, none), fun _ _ _ _ => none⟩
  logIgnore := []
  clientTtl := 60

end Phone

open Phone in
/-- The paused phone reaches the name at the listener as it does over DNS. -/
theorem listener_blocks_as_dns_pixel :
    let q := identify ctx [] (.v4 ⟨192, 168, 1, 7⟩) (some "pixel".toList) "ads.com".toList 1
    spliceBlocks ctx.lists registry false (some (.v4 ⟨192, 168, 1, 7⟩)) "ads.com".toList =
      (q.filteringEnabled && ctx.lists.shouldBlockFor "ads.com".toList q.profile) :=
  listener_blocks_as_dns crates filtering 0 (fun _ _ => none) ⟨.nxdomain, none, none⟩ ctx registry
    false [] (.v4 ⟨192, 168, 1, 7⟩) (some "pixel".toList) "ads.com".toList 1 rfl rfl rfl

end Ferrite.Proxy
