import Ferrite.Dhcp.Lease
import Ferrite.Dhcp.Message

/-!
# The DHCP decision logic

`dhcp/src/handler.rs`: a parsed request and the lease pool in, the reply to send
(if any) and the pool afterwards out.  No I/O, so it is a function here as well.

`handle_cases` says once what a call can do to the pool — nothing, drop the
sender's record after a RELEASE or a DECLINE, or commit the address of a REQUEST
— and everything about runs of the server is derived from it.
-/

namespace Ferrite.Dhcp

/-- Static per-subnet settings the server hands out. -/
structure ServerConfig where
  serverIp : Ipv4Addr
  subnetMask : Ipv4Addr
  gateway : Option Ipv4Addr
  dnsServers : List Ipv4Addr
  domain : Option String
  leaseSecs : UInt32
deriving DecidableEq, Repr

namespace ServerConfig

/-- The router, resolver and search-domain options, each only when configured. -/
def networkOptions (cfg : ServerConfig) : List DhcpOption :=
  (match cfg.gateway with
    | some gw => [.router [gw]]
    | none => []) ++
  (if cfg.dnsServers.isEmpty then [] else [.dnsServers cfg.dnsServers]) ++
  (match cfg.domain with
    | some domain => [.domainName domain]
    | none => [])

/-- `config_options`: what every OFFER and ACK carries, with the renewal
(T1 = 50%) and rebind (T2 = 87.5%) timers derived from the lease. -/
def configOptions (cfg : ServerConfig) : List DhcpOption :=
  [.leaseTime cfg.leaseSecs, .renewalTime (cfg.leaseSecs / 2),
    .rebindingTime (cfg.leaseSecs / 8 * 7), .subnetMask cfg.subnetMask] ++ cfg.networkOptions

end ServerConfig

/-- How long an address a client declined stays out of offers. -/
def declineHoldSecs : ℕ := 30 * 60

/-- `reply`: echo xid, flags, giaddr and chaddr, set yiaddr and siaddr. -/
def reply (cfg : ServerConfig) (req : DhcpMessage) (yiaddr : Ipv4Addr)
    (options : List DhcpOption) : DhcpMessage where
  op := .bootReply
  xid := req.xid
  secs := 0
  flags := req.flags
  ciaddr := .unspecified
  yiaddr := yiaddr
  siaddr := cfg.serverIp
  giaddr := req.giaddr
  chaddr := req.chaddr
  options := options

/-- `nak`. -/
def nak (cfg : ServerConfig) (req : DhcpMessage) : DhcpMessage :=
  reply cfg req .unspecified [.messageType .nak, .serverIdentifier cfg.serverIp]

/-- `handle_discover`: an OFFER is tentative and commits nothing. -/
def handleDiscover (cfg : ServerConfig) (pool : LeasePool) (req : DhcpMessage) (now : ℕ) :
    Option DhcpMessage :=
  (pool.offer req.chaddr req.requestedIp now).map fun ip =>
    reply cfg req ip
      ([.messageType .offer, .serverIdentifier cfg.serverIp] ++ cfg.configOptions)

/-- The address a REQUEST is for: option 50, or the client's current `ciaddr`. -/
def wanted (req : DhcpMessage) : Ipv4Addr := req.requestedIp.getD req.ciaddr

/-- The client chose another server's offer. -/
def forOtherServer (cfg : ServerConfig) (req : DhcpMessage) : Bool :=
  req.serverIdentifier.any (· ≠ cfg.serverIp)

/-- `handle_request`: ACK and commit, NAK, or stay silent for another server's client. -/
def handleRequest (cfg : ServerConfig) (pool : LeasePool) (req : DhcpMessage) (now : ℕ) :
    LeasePool × Option DhcpMessage :=
  if forOtherServer cfg req then (pool, none)
  else if (wanted req).isUnspecified then (pool, some (nak cfg req))
  else
    match pool.commit req.chaddr (wanted req) req.hostname now cfg.leaseSecs.toNat with
    | .ok (lease, pool') =>
      (pool', some (reply cfg req lease.ip
        ([.messageType .ack, .serverIdentifier cfg.serverIp] ++ cfg.configOptions)))
    | .error _ => (pool, some (nak cfg req))

/-- `handle_inform`: config options only, no address and no lease time. -/
def handleInform (cfg : ServerConfig) (req : DhcpMessage) : DhcpMessage :=
  reply cfg req .unspecified
    ([.messageType .ack, .serverIdentifier cfg.serverIp, .subnetMask cfg.subnetMask] ++
      cfg.networkOptions)

/-- The hold a DECLINE puts on the address it names. -/
def holdDeclined (pool : LeasePool) (req : DhcpMessage) (now : ℕ) : LeasePool :=
  match req.requestedIp with
  | some ip => pool.hold ip (saturatingAdd now declineHoldSecs)
  | none => pool

/-- `handle`: the reply to `req`, and the pool after it. -/
def handle (cfg : ServerConfig) (pool : LeasePool) (req : DhcpMessage) (now : ℕ) :
    LeasePool × Option DhcpMessage :=
  if req.op ≠ .bootRequest then (pool, none)
  else
    match req.messageType with
    | none => (pool, none)
    | some .discover => (pool, handleDiscover cfg pool req now)
    | some .request => handleRequest cfg pool req now
    | some .release => (pool.release req.chaddr, none)
    | some .decline => ((holdDeclined pool req now).release req.chaddr, none)
    | some .inform => (pool, some (handleInform cfg req))
    | some .offer | some .ack | some .nak => (pool, none)

/-! ## What a call can do -/

/-- A client's message of the given type, as the server reads it. -/
def IsRequestOf (req : DhcpMessage) (t : MessageType) : Prop :=
  req.op = .bootRequest ∧ req.messageType = some t

instance (req : DhcpMessage) (t : MessageType) : Decidable (IsRequestOf req t) :=
  inferInstanceAs (Decidable (_ ∧ _))

/-- The reply binds an address: an ACK with a `yiaddr`. -/
def AckedAddress (r : Option DhcpMessage) (ip : Ipv4Addr) : Prop :=
  ∃ m, r = some m ∧ m.messageType = some .ack ∧ m.yiaddr = ip ∧ ip ≠ .unspecified

instance (r : Option DhcpMessage) (ip : Ipv4Addr) : Decidable (AckedAddress r ip) :=
  match r with
  | none => isFalse fun ⟨_, h, _⟩ => by cases h
  | some m => decidable_of_iff (m.messageType = some .ack ∧ m.yiaddr = ip ∧ ip ≠ .unspecified)
      ⟨fun h => ⟨m, rfl, h⟩, fun ⟨_, h, h'⟩ => Option.some.inj h ▸ h'⟩

@[simp] theorem yiaddr_reply (cfg : ServerConfig) (req : DhcpMessage) (ip : Ipv4Addr)
    (opts : List DhcpOption) : (reply cfg req ip opts).yiaddr = ip := rfl

@[simp] theorem messageType_reply (cfg : ServerConfig) (req : DhcpMessage) (ip : Ipv4Addr)
    (t : MessageType) (opts : List DhcpOption) :
    (reply cfg req ip (.messageType t :: opts)).messageType = some t := rfl

/-- A REQUEST with these fields passes every check of `handle_request` and of `commit`. -/
def Grantable (cfg : ServerConfig) (pool : LeasePool) (req : DhcpMessage) (now : ℕ) : Prop :=
  forOtherServer cfg req = false ∧ (wanted req).isUnspecified = false ∧
    (pool.reservedFor req.chaddr (wanted req) = true ∨ pool.inRange (wanted req) = true) ∧
    pool.availableFor (wanted req) req.chaddr now = true

instance (cfg : ServerConfig) (pool : LeasePool) (req : DhcpMessage) (now : ℕ) :
    Decidable (Grantable cfg pool req now) :=
  inferInstanceAs (Decidable (_ ∧ _ ∧ (_ ∨ _) ∧ _))

/-- The message is a REQUEST the server grants. -/
def Grants (cfg : ServerConfig) (pool : LeasePool) (req : DhcpMessage) (now : ℕ) : Prop :=
  IsRequestOf req .request ∧ Grantable cfg pool req now

instance (cfg : ServerConfig) (pool : LeasePool) (req : DhcpMessage) (now : ℕ) :
    Decidable (Grants cfg pool req now) :=
  inferInstanceAs (Decidable (_ ∧ _))

/-- The lease a granted REQUEST is given. -/
def grantedLease (cfg : ServerConfig) (req : DhcpMessage) (now : ℕ) : Lease :=
  ⟨wanted req, req.chaddr, req.hostname, saturatingAdd now cfg.leaseSecs.toNat⟩

/-- The ACK of a granted REQUEST. -/
def ackReply (cfg : ServerConfig) (req : DhcpMessage) : DhcpMessage :=
  reply cfg req (wanted req)
    ([.messageType .ack, .serverIdentifier cfg.serverIp] ++ cfg.configOptions)

theorem not_ackedAddress_nak (cfg : ServerConfig) (req : DhcpMessage) (ip : Ipv4Addr) :
    ¬ AckedAddress (some (nak cfg req)) ip := by
  rintro ⟨m, hm, hack, -⟩
  rw [← Option.some.inj hm, nak, messageType_reply] at hack
  cases hack

theorem ackedAddress_ackReply_iff {cfg : ServerConfig} {req : DhcpMessage}
    (hw : (wanted req).isUnspecified = false) {ip : Ipv4Addr} :
    AckedAddress (some (ackReply cfg req)) ip ↔ ip = wanted req := by
  constructor
  · rintro ⟨m, hm, -, hy, -⟩
    rw [← hy, ← Option.some.inj hm, ackReply, yiaddr_reply]
  · rintro rfl
    refine ⟨_, rfl, messageType_reply .., yiaddr_reply .., fun h => ?_⟩
    rw [Ipv4Addr.isUnspecified_iff.2 h] at hw
    cases hw

/-- A REQUEST either leaves the pool and acknowledges nothing, or is granted. -/
theorem handleRequest_cases (cfg : ServerConfig) (pool : LeasePool) (req : DhcpMessage)
    (now : ℕ) :
    (¬ Grantable cfg pool req now ∧ (handleRequest cfg pool req now).1 = pool ∧
        ∀ ip, ¬ AckedAddress (handleRequest cfg pool req now).2 ip) ∨
      (Grantable cfg pool req now ∧
        pool.commit req.chaddr (wanted req) req.hostname now cfg.leaseSecs.toNat =
          .ok (grantedLease cfg req now, (handleRequest cfg pool req now).1) ∧
        (handleRequest cfg pool req now).2 = some (ackReply cfg req)) := by
  unfold handleRequest
  split
  · rename_i hsid
    left
    refine ⟨fun hg => ?_, rfl, fun ip ⟨m, hm, _⟩ => by cases hm⟩
    rw [hg.1] at hsid
    cases hsid
  split
  · rename_i hw
    left
    refine ⟨fun hg => ?_, rfl, not_ackedAddress_nak cfg req⟩
    rw [hg.2.1] at hw
    cases hw
  rename_i hsid hw
  split
  · rename_i lease pool' hc
    right
    obtain ⟨hr, hav, hl, -⟩ := LeasePool.commit_ok hc
    refine ⟨⟨by simpa using hsid, by simpa using hw, hr, hav⟩, ?_, ?_⟩
    · rw [hc, hl, grantedLease]
    · rw [hl, ackReply]
  · rename_i e hc
    left
    refine ⟨fun hg => ?_, rfl, not_ackedAddress_nak cfg req⟩
    obtain ⟨p', hok⟩ := LeasePool.commit_of_available hg.2.2.1 hg.2.2.2 req.hostname
      cfg.leaseSecs.toNat
    rw [hok] at hc
    cases hc

/-- **What one call does to the pool.**  Either the pool stays and no address is
acknowledged, or the sender's record is dropped, or the address of a REQUEST is
committed and acknowledged. -/
theorem handle_cases (cfg : ServerConfig) (pool : LeasePool) (req : DhcpMessage) (now : ℕ) :
    ((handle cfg pool req now).1 = pool ∧ ¬ Grants cfg pool req now ∧
        ¬ IsRequestOf req .release ∧ ¬ IsRequestOf req .decline ∧
        ∀ ip, ¬ AckedAddress (handle cfg pool req now).2 ip) ∨
      (IsRequestOf req .release ∧ handle cfg pool req now = (pool.release req.chaddr, none)) ∨
      (IsRequestOf req .decline ∧
        handle cfg pool req now = ((holdDeclined pool req now).release req.chaddr, none)) ∨
      (Grants cfg pool req now ∧
        pool.commit req.chaddr (wanted req) req.hostname now cfg.leaseSecs.toNat =
          .ok (grantedLease cfg req now, (handle cfg pool req now).1) ∧
        (handle cfg pool req now).2 = some (ackReply cfg req)) := by
  by_cases hop : req.op = .bootRequest
  swap
  · left
    simp [handle, hop, AckedAddress, Grants, IsRequestOf]
  have hh : handle cfg pool req now =
      match req.messageType with
      | none => (pool, none)
      | some .discover => (pool, handleDiscover cfg pool req now)
      | some .request => handleRequest cfg pool req now
      | some .release => (pool.release req.chaddr, none)
      | some .decline => ((holdDeclined pool req now).release req.chaddr, none)
      | some .inform => (pool, some (handleInform cfg req))
      | some .offer | some .ack | some .nak => (pool, none) := by
    rw [handle, if_neg (by simp [hop])]
  cases ht : req.messageType with
  | none => left; simp [hh, ht, AckedAddress, Grants, IsRequestOf]
  | some t =>
    rw [ht] at hh
    cases t with
    | discover =>
      left
      rw [hh]
      refine ⟨rfl, by simp [Grants, IsRequestOf, ht], by simp [IsRequestOf, ht],
        by simp [IsRequestOf, ht], ?_⟩
      rintro ip ⟨m, hm, hack, -⟩
      obtain ⟨x, -, rfl⟩ := Option.map_eq_some_iff.1 hm
      cases hack
    | request =>
      rw [hh]
      have hreq : IsRequestOf req .request := ⟨hop, ht⟩
      rcases handleRequest_cases cfg pool req now with ⟨hg, hpool, hack⟩ | ⟨hg, hc, hack⟩
      · left
        exact ⟨hpool, fun h => hg h.2, by simp [IsRequestOf, ht], by simp [IsRequestOf, ht],
          hack⟩
      · right; right; right
        exact ⟨⟨hreq, hg⟩, hc, hack⟩
    | release => right; left; simp [hh, ht, IsRequestOf, hop]
    | decline => right; right; left; simp [hh, ht, IsRequestOf, hop]
    | inform =>
      left
      rw [hh]
      refine ⟨rfl, by simp [Grants, IsRequestOf, ht], by simp [IsRequestOf, ht],
        by simp [IsRequestOf, ht], ?_⟩
      rintro ip ⟨m, hm, -, hy, hne⟩
      rw [← Option.some.inj hm] at hy
      exact hne hy.symm
    | offer => left; simp [hh, ht, AckedAddress, Grants, IsRequestOf]
    | ack => left; simp [hh, ht, AckedAddress, Grants, IsRequestOf]
    | nak => left; simp [hh, ht, AckedAddress, Grants, IsRequestOf]

@[simp] theorem byIp_holdDeclined (p : LeasePool) (req : DhcpMessage) (now : ℕ) :
    (holdDeclined p req now).byIp = p.byIp := by
  unfold holdDeclined
  split <;> rfl

@[simp] theorem byMac_holdDeclined (p : LeasePool) (req : DhcpMessage) (now : ℕ) :
    (holdDeclined p req now).byMac = p.byMac := by
  unfold holdDeclined
  split <;> rfl

/-- The message makes the pool drop whatever lease sits at `ip`: the sender is
recorded there and released, declined, or is granted another address. -/
def Drops (cfg : ServerConfig) (pool : LeasePool) (req : DhcpMessage) (now : ℕ)
    (ip : Ipv4Addr) : Prop :=
  pool.byMac.lookup req.chaddr = some ip ∧
    (IsRequestOf req .release ∨ IsRequestOf req .decline ∨
      (Grants cfg pool req now ∧ ip ≠ wanted req))

instance (cfg : ServerConfig) (pool : LeasePool) (req : DhcpMessage) (now : ℕ)
    (ip : Ipv4Addr) : Decidable (Drops cfg pool req now ip) :=
  inferInstanceAs (Decidable (_ ∧ (_ ∨ _ ∨ (_ ∧ _))))

theorem not_grants_of_isRequestOf {cfg : ServerConfig} {pool : LeasePool} {req : DhcpMessage}
    {now : ℕ} {t : MessageType} (h : IsRequestOf req t) (ht : t ≠ .request) :
    ¬ Grants cfg pool req now :=
  fun hg => ht (Option.some.inj (h.2.symm.trans hg.1.2))

/-- **The lease table after a message**, address by address. -/
theorem lookup_byIp_handle (cfg : ServerConfig) (pool : LeasePool) (req : DhcpMessage)
    (now : ℕ) (x : Ipv4Addr) :
    (handle cfg pool req now).1.byIp.lookup x =
      if Grants cfg pool req now ∧ x = wanted req then some (grantedLease cfg req now)
      else if Drops cfg pool req now x then none
      else pool.byIp.lookup x := by
  rcases handle_cases cfg pool req now with ⟨hp, hg, hrel, hdec, -⟩ | ⟨hrel, hh⟩ | ⟨hdec, hh⟩ |
    ⟨hg, hc, -⟩
  · simp [hp, hg, hrel, hdec, Drops]
  · have hg : ¬ Grants cfg pool req now := not_grants_of_isRequestOf hrel (by decide)
    simp [hh, hg, hrel, Drops, LeasePool.lookup_byIp_release]
  · have hg : ¬ Grants cfg pool req now := not_grants_of_isRequestOf hdec (by decide)
    simp [hh, hg, hdec, Drops, LeasePool.lookup_byIp_release]
  · have hrel : ¬ IsRequestOf req .release := fun h =>
      not_grants_of_isRequestOf h (by decide) hg
    have hdec : ¬ IsRequestOf req .decline := fun h =>
      not_grants_of_isRequestOf h (by decide) hg
    rw [LeasePool.lookup_byIp_commit hc]
    by_cases hx : x = wanted req <;> simp [hx, hg, hrel, hdec, Drops]

theorem handle_mirrored (cfg : ServerConfig) {p : LeasePool} (hp : p.Mirrored)
    (req : DhcpMessage) (now : ℕ) : (handle cfg p req now).1.Mirrored := by
  rcases handle_cases cfg p req now with ⟨h, -⟩ | ⟨-, h⟩ | ⟨-, h⟩ | ⟨-, h, -⟩
  · rw [h]
    exact hp
  · rw [h]
    exact LeasePool.release_mirrored hp _
  · rw [h]
    exact LeasePool.release_mirrored
      (hp.congr (byIp_holdDeclined ..) (byMac_holdDeclined ..)) _
  · exact LeasePool.commit_mirrored hp h

/-- An acknowledged address is that of a granted REQUEST, now committed. -/
theorem grants_of_ackedAddress {cfg : ServerConfig} {pool : LeasePool} {req : DhcpMessage}
    {now : ℕ} {ip : Ipv4Addr} (h : AckedAddress (handle cfg pool req now).2 ip) :
    ip = wanted req ∧ Grants cfg pool req now ∧
      pool.commit req.chaddr ip req.hostname now cfg.leaseSecs.toNat =
        .ok (grantedLease cfg req now, (handle cfg pool req now).1) := by
  have hnone : ¬ AckedAddress none ip := by
    rintro ⟨m, hm, -⟩
    cases hm
  rcases handle_cases cfg pool req now with ⟨-, -, -, -, hno⟩ | ⟨-, hh⟩ | ⟨-, hh⟩ | ⟨hg, hc, hh⟩
  · exact absurd h (hno ip)
  · rw [hh] at h
    exact absurd h hnone
  · rw [hh] at h
    exact absurd h hnone
  · rw [hh, ackedAddress_ackReply_iff hg.2.2.1] at h
    subst h
    exact ⟨rfl, hg, hc⟩

/-! ## A small network, for the examples -/

namespace Example

/-- The server of the examples: a lease lasts a hundred seconds. -/
def cfg : ServerConfig where
  serverIp := ⟨192, 168, 1, 1⟩
  subnetMask := ⟨255, 255, 255, 0⟩
  gateway := some ⟨192, 168, 1, 1⟩
  dnsServers := [⟨192, 168, 1, 1⟩]
  domain := some "lan"
  leaseSecs := 100

/-- `192.168.1.10`, the first address of the example pool. -/
def first : UInt32 := 3232235786

/-- `192.168.1.12`, its last. -/
def last : UInt32 := 3232235788

/-- The client with hardware address `02:00:00:00:00:n`. -/
def client (n : UInt8) : Mac := #v[2, 0, 0, 0, 0, n]

/-- A client's message. -/
def message (mac : Mac) (t : MessageType) (opts : List DhcpOption) : DhcpMessage where
  op := .bootRequest
  xid := 66
  secs := 0
  flags := 0
  ciaddr := .unspecified
  yiaddr := .unspecified
  siaddr := .unspecified
  giaddr := .unspecified
  chaddr := mac
  options := .messageType t :: opts

end Example

end Ferrite.Dhcp
