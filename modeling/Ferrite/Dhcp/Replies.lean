import Ferrite.Dhcp.Handler
import Ferrite.Dhcp.Wire

/-!
# What the replies say on the wire

The settings of the DHCP server as the panel saves them: `validate` of `api/src/dhcp.rs`, and
the part of `start_dhcp` in `app/src/dhcp.rs` that makes the server's own configuration from
them.  `wireReply` is what `serve` sends: the encoded reply, padded with zeros behind the end
mark.

`validate` bounds the domain and the lease time, and says nothing of how many DNS servers
there may be.  The option that lists them has room for 63, so `reply_on_the_wire` has that
number in it: with more of them, a reply that hands out the settings is read as another
message, or as none.
-/

namespace Ferrite.Dhcp

/-! ## The settings -/

/-- `DhcpReservation`. -/
structure DhcpReservation where
  mac : String
  ip : Ipv4Addr
deriving DecidableEq, Repr

/-- `DhcpConfig`, the `[dhcp]` section. -/
structure DhcpConfig where
  enabled : Bool
  serverIp : Option Ipv4Addr
  subnetMask : Ipv4Addr
  poolStart : Option Ipv4Addr
  poolEnd : Option Ipv4Addr
  gateway : Option Ipv4Addr
  dns : List Ipv4Addr
  domain : Option String
  leaseSecs : UInt32
  reservations : List DhcpReservation
deriving DecidableEq, Repr

/-- `RaConfig`, the `[ra]` section. -/
structure RaConfig where
  enabled : Bool
  interface : Option String
  rdnss : List Ipv6Addr
  rdnssLifetime : UInt32
  intervalSecs : UInt64
deriving DecidableEq, Repr

/-- `Detected`: what the box can see of its network. -/
structure Detected where
  serverIp : Option Ipv4Addr
  gateway : Option Ipv4Addr
  interface : Option String
  ipv6 : List Ipv6Addr
deriving DecidableEq, Repr

/-- `MIN_LEASE`. -/
def minLease : UInt32 := 120

/-- `MAX_LEASE`. -/
def maxLease : UInt32 := 30 * 24 * 3600

/-- `MAX_POOL`. -/
def maxPool : ℕ := 65536

/-- `u32::leading_ones`. -/
def leadingOnes (m : ℕ) : ℕ := ((List.range 32).takeWhile fun i => m.testBit (31 - i)).length

/-- `u32::trailing_zeros`. -/
def trailingZeros (m : ℕ) : ℕ := ((List.range 32).takeWhile fun i => !m.testBit i).length

/-- `valid_mask`. -/
def validMask (mask : Ipv4Addr) : Bool :=
  mask.toU32 != 0 && leadingOnes mask.toU32 + trailingZeros mask.toU32 == 32

/-- `in_subnet`. -/
def inSubnet (ip net mask : Ipv4Addr) : Bool :=
  ip.toU32 &&& mask.toU32 == net.toU32 &&& mask.toU32

/-- One label of `valid_domain`. -/
def validLabel (l : Text) : Bool :=
  l != [] && l.byteLen ≤ 63 && l.head? != some '-' && l.getLast? != some '-' &&
    l.all fun c => c.isAlphanum || c == '-'

/-- `valid_domain`. -/
def validDomain (d : String) : Bool :=
  Text.byteLen d.toList ≤ 253 && (d.toList.splitOn '.').all validLabel

/-- `Ipv6Addr::is_multicast`. -/
def isMulticast (a : Ipv6Addr) : Bool := a.octets.head? == some 0xFF

/-- `Ipv6Addr::is_loopback`. -/
def isLoopback (a : Ipv6Addr) : Bool := a.octets == List.replicate 15 0 ++ [1]

/-- `is_link_local`. -/
def isLinkLocal (a : Ipv6Addr) : Bool := a.segments.headD 0 &&& 0xFFC0 == 0xFE80

/-- An early `return Err`. -/
def refuseIf (bad : Bool) (message : String) : Except String Unit :=
  if bad then .error message else .ok ()

/-- The pool: in order, not too large, in the network of the box. -/
def validatePool (d : DhcpConfig) (server : Option Ipv4Addr) : Except String Unit :=
  match d.poolStart, d.poolEnd with
  | some start, some stop => do
    refuseIf (start.toU32 > stop.toU32) "the pool's first address comes after its last"
    refuseIf (stop.toU32 - start.toU32 ≥ maxPool) "the pool is larger than 65536 addresses"
    match server with
    | some server =>
      [start, stop].forM fun ip =>
        refuseIf (!inSubnet ip server d.subnetMask)
          (ip.toText ++ " isn't in this box's network (" ++ server.toText ++ " / " ++
            d.subnetMask.toText ++ ")")
    | none => return
  | _, _ => .ok ()

/-- The reservations, one by one; `macs` and `ips` are the ones before. -/
def validateReservations (d : DhcpConfig) (found : Detected) (server : Option Ipv4Addr) :
    (macs : List String) → (ips : List Ipv4Addr) → List DhcpReservation → Except String Unit
  | _, _, [] => .ok ()
  | macs, ips, res :: rest => do
    refuseIf (parseMac res.mac).isNone (res.mac ++ " isn't a MAC address")
    refuseIf (macs.contains res.mac) (res.mac ++ " has two reservations")
    refuseIf (ips.contains res.ip) (res.ip.toText ++ " is reserved twice")
    match server with
    | some server =>
      refuseIf (res.ip == server) (res.ip.toText ++ " is this box's own address")
      refuseIf (!inSubnet res.ip server d.subnetMask)
        (res.ip.toText ++ " isn't in this box's network")
    | none => pure ()
    refuseIf (d.gateway.or found.gateway == some res.ip)
      (res.ip.toText ++ " is the router's address")
    validateReservations d found server (res.mac :: macs) (res.ip :: ips) rest

/-- The announcer. -/
def validateRa (r : RaConfig) (found : Detected) : Except String Unit := do
  if r.enabled then
    refuseIf (r.interface.isNone && found.interface.isNone)
      "couldn't find the network interface — set it"
    refuseIf (r.rdnss.isEmpty && r.interface.isNone && found.ipv6.isEmpty)
      "this box has no IPv6 address to announce — set one"
  match r.interface with
  | some i =>
    refuseIf (Text.byteLen i.toList > 15 ||
        !i.toList.all fun c => c.isAlphanum || "-_.@".toList.contains c)
      (i ++ " isn't an interface name")
  | none => pure ()
  r.rdnss.forM fun a =>
    refuseIf (a == .unspecified || isMulticast a || isLoopback a || isLinkLocal a)
      (String.ofList a.toText ++ " can't be announced — use a global or unique-local address")
  refuseIf (!(4 ≤ r.intervalSecs && r.intervalSecs ≤ 1800)) "announce every 4 to 1800 seconds"
  refuseIf (r.rdnssLifetime < r.intervalSecs.toUInt32)
    "the announced lifetime must outlast the interval"

/-- `validate`. -/
def validate (d : DhcpConfig) (r : RaConfig) (found : Detected) : Except String Unit := do
  refuseIf (!validMask d.subnetMask) (d.subnetMask.toText ++ " isn't a subnet mask")
  refuseIf (!(minLease ≤ d.leaseSecs && d.leaseSecs ≤ maxLease))
    "the lease time must be between 2 minutes and 30 days"
  match d.domain with
  | some dom => refuseIf (!validDomain dom) (dom ++ " isn't a domain name")
  | none => pure ()
  let server := d.serverIp.or found.serverIp
  if d.enabled then
    refuseIf (d.poolStart.isNone || d.poolEnd.isNone) "set the first and last address of the pool"
    refuseIf server.isNone "couldn't find this box's address — set the server address"
  validatePool d server
  match server, d.gateway with
  | some server, some gw =>
    refuseIf (!inSubnet gw server d.subnetMask)
      ("the router " ++ gw.toText ++ " isn't in this box's network")
  | _, _ => pure ()
  validateReservations d found server [] [] d.reservations
  validateRa r found

/-- `DEFAULT_DOMAIN`. -/
def defaultDomain : String := "lan"

/-- The domain `apply` hands on: the one that is set, if it is not blank. -/
def DhcpConfig.domainInForce (d : DhcpConfig) : String :=
  (d.domain.filter fun s => Text.trim s.toList != []).getD defaultDomain

/-- The part of `start_dhcp` that makes the server's configuration.  The box's address and
its router are looked up again where the settings leave them out. -/
def startDhcp (d : DhcpConfig) (localIpv4 defaultGateway : Option Ipv4Addr) :
    Except String ServerConfig :=
  match d.serverIp.or localIpv4 with
  | none => .error "couldn't find this box's address — set the server address"
  | some serverIp =>
    match d.poolStart, d.poolEnd with
    | some _, some _ => .ok {
        serverIp := serverIp
        subnetMask := d.subnetMask
        gateway := d.gateway.or defaultGateway
        dnsServers := if d.dns.isEmpty then [serverIp] else d.dns
        domain := some d.domainInForce
        leaseSecs := d.leaseSecs }
    | _, _ => .error "set the first and last address of the pool"

/-- `MIN_REPLY_LEN`. -/
def minReplyLen : ℕ := 300

/-- What `serve` sends for a reply: its bytes, padded to the length some clients ask for. -/
def wireReply (m : DhcpMessage) : Bytes :=
  if m.encode.length < minReplyLen then
    m.encode ++ List.replicate (minReplyLen - m.encode.length) 0
  else m.encode

/-! ## What is known of an accepted configuration -/

theorem ok_of_refuseIf_bind {bad : Bool} {message : String} {next : Unit → Except String Unit}
    (h : (refuseIf bad message >>= next) = .ok ()) : bad = false ∧ next () = .ok () := by
  cases bad with
  | true => cases h
  | false => exact ⟨rfl, h⟩

theorem validDomain_of_validate {d : DhcpConfig} {r : RaConfig} {found : Detected}
    (h : validate d r found = .ok ()) {dom : String} (hdom : d.domain = some dom) :
    validDomain dom = true := by
  unfold validate at h
  rw [hdom] at h
  obtain ⟨-, h⟩ := ok_of_refuseIf_bind h
  obtain ⟨-, h⟩ := ok_of_refuseIf_bind h
  obtain ⟨hvalid, -⟩ := ok_of_refuseIf_bind h
  simpa using hvalid

/-- The domain that is handed out fits its option. -/
theorem length_domainInForce_le {d : DhcpConfig} {r : RaConfig} {found : Detected}
    (h : validate d r found = .ok ()) :
    (Text.toBytes d.domainInForce.toList).length ≤ 253 := by
  unfold DhcpConfig.domainInForce
  cases hf : d.domain.filter fun s => Text.trim s.toList != [] with
  | none => decide
  | some dom =>
    obtain ⟨hdom, -⟩ := Option.filter_eq_some_iff.1 hf
    have hvalid := validDomain_of_validate h hdom
    rw [validDomain, Bool.and_eq_true, decide_eq_true_eq] at hvalid
    rw [Option.getD_some, length_toBytes]
    exact hvalid.1

theorem startDhcp_ok {d : DhcpConfig} {localIpv4 defaultGateway : Option Ipv4Addr}
    {cfg : ServerConfig} (h : startDhcp d localIpv4 defaultGateway = .ok cfg) :
    cfg.domain = some d.domainInForce ∧ (cfg.dnsServers.length ≤ 63 ↔ d.dns.length ≤ 63) := by
  unfold startDhcp at h
  split at h
  · cases h
  split at h
  · cases h
    refine ⟨rfl, ?_⟩
    dsimp only
    split_ifs with hempty
    · rw [List.isEmpty_iff.1 hempty]
      simp
    · rfl
  · cases h

/-! ## What a reply is made of -/

/-- The message is answered with the settings of the network: an INFORM, a DISCOVER there
is an address for, or a REQUEST that is granted. -/
def HandsOut (cfg : ServerConfig) (pool : LeasePool) (req : DhcpMessage) (now : ℕ) : Prop :=
  IsRequestOf req .inform ∨
    (IsRequestOf req .discover ∧ (pool.offer req.chaddr req.requestedIp now).isSome = true) ∨
    Grants cfg pool req now

instance (cfg : ServerConfig) (pool : LeasePool) (req : DhcpMessage) (now : ℕ) :
    Decidable (HandsOut cfg pool req now) :=
  inferInstanceAs (Decidable (_ ∨ (_ ∧ _) ∨ _))

/-- The options a reply starts with: typed, of a few bytes. -/
def leading (cfg : ServerConfig) : List DhcpOption :=
  [.leaseTime cfg.leaseSecs, .renewalTime (cfg.leaseSecs / 2),
    .rebindingTime (cfg.leaseSecs / 8 * 7), .subnetMask cfg.subnetMask]

/-- A REQUEST that is answered is refused, or granted. -/
theorem handleRequest_reply {cfg : ServerConfig} {pool : LeasePool} {req m : DhcpMessage} {now : ℕ}
    (h : (handleRequest cfg pool req now).2 = some m) :
    (¬ Grantable cfg pool req now ∧ m = nak cfg req) ∨
      (Grantable cfg pool req now ∧ m = ackReply cfg req) := by
  rcases handleRequest_cases cfg pool req now with ⟨hg, -, -⟩ | ⟨hg, -, hack⟩
  · left
    refine ⟨hg, ?_⟩
    unfold handleRequest at h
    split at h
    · cases h
    split at h
    · exact (Option.some.inj h).symm
    rename_i hsid hw
    split at h
    · rename_i lease pool' hc
      obtain ⟨hr, hav, -⟩ := LeasePool.commit_ok hc
      exact absurd ⟨by simpa using hsid, by simpa using hw, hr, hav⟩ hg
    · exact (Option.some.inj h).symm
  · right
    rw [hack] at h
    exact ⟨hg, (Option.some.inj h).symm⟩

/-- **What a reply is made of**: short typed options, and the settings of the network where
the message is answered with them. -/
theorem options_of_handle {cfg : ServerConfig} {pool : LeasePool} {req m : DhcpMessage} {now : ℕ}
    (h : (handle cfg pool req now).2 = some m) :
    ∃ short, (∀ o ∈ short, o.Plain ∧ o.payload.length ≤ 4) ∧
      m.options = short ++ if HandsOut cfg pool req now then cfg.networkOptions else [] := by
  have hshort : ∀ t, ∀ o ∈ [DhcpOption.messageType t, .serverIdentifier cfg.serverIp] ++
      leading cfg, o.Plain ∧ o.payload.length ≤ 4 := by
    intro t o ho
    simp only [leading, List.cons_append, List.nil_append, List.mem_cons, List.not_mem_nil,
      or_false] at ho
    rcases ho with rfl | rfl | rfl | rfl | rfl | rfl <;>
      exact ⟨DhcpOption.plain_of_ne_unknown (by simp),
        by simp [DhcpOption.payload, Ipv4Addr.octets, Bytes.ofU32]⟩
  unfold handle at h
  split at h
  · cases h
  rename_i hop
  rw [not_not] at hop
  split at h
  case h_2 ht =>
    obtain ⟨a, hoffer, rfl⟩ := Option.map_eq_some_iff.1 h
    have hout : HandsOut cfg pool req now :=
      .inr (.inl ⟨⟨hop, ht⟩, by rw [hoffer]; rfl⟩)
    refine ⟨_, hshort .offer, ?_⟩
    rw [if_pos hout]
    rfl
  case h_3 ht =>
    rcases handleRequest_reply h with ⟨hg, rfl⟩ | ⟨hg, rfl⟩
    · have hout : ¬ HandsOut cfg pool req now := by
        rintro (⟨-, h'⟩ | ⟨⟨-, h'⟩, -⟩ | h')
        · rw [ht] at h'
          cases h'
        · rw [ht] at h'
          cases h'
        · exact hg h'.2
      refine ⟨_, fun o ho => hshort .nak o (List.mem_append_left _ ho), ?_⟩
      rw [if_neg hout, List.append_nil]
      rfl
    · have hout : HandsOut cfg pool req now := .inr (.inr ⟨⟨hop, ht⟩, hg⟩)
      refine ⟨_, hshort .ack, ?_⟩
      rw [if_pos hout]
      rfl
  case h_6 ht =>
    cases h
    have hout : HandsOut cfg pool req now := .inl ⟨hop, ht⟩
    refine ⟨[.messageType .ack, .serverIdentifier cfg.serverIp, .subnetMask cfg.subnetMask],
      fun o ho => hshort .ack o ?_, ?_⟩
    · simp only [List.mem_cons, List.not_mem_nil, or_false] at ho
      rcases ho with rfl | rfl | rfl <;> simp [leading]
    · rw [if_pos hout]
      rfl
  all_goals cases h

theorem plain_networkOptions (cfg : ServerConfig) : ∀ o ∈ cfg.networkOptions, o.Plain := by
  intro o ho
  refine DhcpOption.plain_of_ne_unknown fun code data heq => ?_
  subst heq
  simp only [ServerConfig.networkOptions, List.mem_append] at ho
  rcases ho with (ho | ho) | ho
  · split at ho <;> simp at ho
  · split at ho <;> simp at ho
  · split at ho <;> simp at ho

/-- The network options fit their length bytes if the list of DNS servers does. -/
theorem networkOptions_fit_iff {cfg : ServerConfig} {dom : String} (hdom : cfg.domain = some dom)
    (hlen : (Text.toBytes dom.toList).length ≤ 255) :
    (∀ o ∈ cfg.networkOptions, o.payload.length ≤ 255) ↔ cfg.dnsServers.length ≤ 63 := by
  have hgateway : ∀ o ∈ (match cfg.gateway with
      | some gw => [DhcpOption.router [gw]]
      | none => []), o.payload.length ≤ 255 := by
    cases cfg.gateway with
    | none => simp
    | some gw => simp [DhcpOption.payload, Ipv4Addr.octets]
  have hdns : (∀ o ∈ (if cfg.dnsServers.isEmpty then [] else [DhcpOption.dnsServers cfg.dnsServers]),
      o.payload.length ≤ 255) ↔ cfg.dnsServers.length ≤ 63 := by
    split_ifs with hempty
    · rw [List.isEmpty_iff.1 hempty]
      simp
    · rw [List.forall_mem_singleton, DhcpOption.payload, length_flatMap_octets]
      omega
  simp only [ServerConfig.networkOptions, List.forall_mem_append, hdom, List.forall_mem_singleton]
  exact ⟨fun h => hdns.1 h.1.2, fun h => ⟨⟨hgateway, hdns.2 h⟩, hlen⟩⟩

/-! ## The replies on the wire -/

theorem wireReply_eq (m : DhcpMessage) : ∃ padding, wireReply m = m.encode ++ padding := by
  unfold wireReply
  split_ifs
  · exact ⟨_, rfl⟩
  · exact ⟨[], (List.append_nil _).symm⟩

theorem decode_wireReply_iff {cfg : ServerConfig} {pool : LeasePool} {req m : DhcpMessage} {now : ℕ}
    {dom : String} (hdom : cfg.domain = some dom)
    (hlen : (Text.toBytes dom.toList).length ≤ 255)
    (h : (handle cfg pool req now).2 = some m) :
    DhcpMessage.decode (wireReply m) = .ok m ↔
      cfg.dnsServers.length ≤ 63 ∨ ¬ HandsOut cfg pool req now := by
  obtain ⟨short, hshort, hopts⟩ := options_of_handle h
  obtain ⟨padding, hpadding⟩ := wireReply_eq m
  have hplain : ∀ o ∈ m.options, o.Plain := by
    rw [hopts, List.forall_mem_append]
    refine ⟨fun o ho => (hshort o ho).1, ?_⟩
    split_ifs
    · exact plain_networkOptions cfg
    · simp
  have hfits : ∀ o ∈ short, o.payload.length ≤ 255 := by
    intro o ho
    have := (hshort o ho).2
    omega
  rw [hpadding, DhcpMessage.decode_encode_iff hplain, hopts, List.forall_mem_append,
    and_iff_right hfits]
  split_ifs with hout
  · rw [networkOptions_fit_iff hdom hlen, or_iff_left (not_not.2 hout)]
  · simp [hout]

/-- **What is on the wire is what was decided**, as far as it is.  For settings that were
accepted, a reply reads back from what the server sends exactly when at most 63 DNS servers
are set, or the message is not one that is answered with the settings.  And a datagram that
decodes survives being written again exactly when each text in it has at most 255 bytes. -/
theorem reply_on_the_wire (datagram : Bytes) :
    (∀ (d : DhcpConfig) (r : RaConfig) (found : Detected) (localIpv4 defaultGateway : Option Ipv4Addr)
        (cfg : ServerConfig), validate d r found = .ok () →
        startDhcp d localIpv4 defaultGateway = .ok cfg →
      ∀ (pool : LeasePool) (req m : DhcpMessage) (now : ℕ),
        DhcpMessage.decode datagram = .ok req → (handle cfg pool req now).2 = some m →
          (DhcpMessage.decode (wireReply m) = .ok m ↔
            d.dns.length ≤ 63 ∨ ¬ HandsOut cfg pool req now)) ∧
      ∀ m : DhcpMessage, DhcpMessage.decode datagram = .ok m →
        (DhcpMessage.decode m.encode = .ok m ↔ DhcpMessage.TextsFit datagram) := by
  refine ⟨?_, fun m h => DhcpMessage.decode_encode_of_decode_iff h⟩
  intro d r found localIpv4 defaultGateway cfg hvalid hstart pool req m now _ hreply
  obtain ⟨hdom, hdns⟩ := startDhcp_ok hstart
  have hlen := length_domainInForce_le hvalid
  rw [← hdns]
  exact decode_wireReply_iff hdom (by omega) hreply

namespace Example

/-- A household's settings, with the given DNS servers. -/
def settings (dns : List Ipv4Addr) : DhcpConfig where
  enabled := true
  serverIp := some ⟨192, 168, 1, 1⟩
  subnetMask := ⟨255, 255, 255, 0⟩
  poolStart := some ⟨192, 168, 1, 10⟩
  poolEnd := some ⟨192, 168, 1, 12⟩
  gateway := some ⟨192, 168, 1, 1⟩
  dns := dns
  domain := some "home.arpa"
  leaseSecs := 86400
  reservations := []

/-- `RaConfig::default`. -/
def noRa : RaConfig where
  enabled := false
  interface := none
  rdnss := []
  rdnssLifetime := 1800
  intervalSecs := 200

/-- A box that sees nothing of its network. -/
def nothingFound : Detected := ⟨none, none, none, []⟩

/-- The server these settings make. -/
def serverOf (dns : List Ipv4Addr) : ServerConfig where
  serverIp := ⟨192, 168, 1, 1⟩
  subnetMask := ⟨255, 255, 255, 0⟩
  gateway := some ⟨192, 168, 1, 1⟩
  dnsServers := dns
  domain := some "home.arpa"
  leaseSecs := 86400

/-- A client that has an address asks for the settings. -/
def inform : DhcpMessage := message (client 7) .inform []

/-- A client whose host name is 86 bytes of no text. -/
def nameless : DhcpMessage :=
  message (client 8) .discover [.hostname (String.ofList (List.replicate 86 replacementCharacter))]

/-- The datagram it sends. -/
def namelessDatagram : Bytes :=
  nameless.header ++ magicCookie ++
    (Tlv.put 53 [1] ++ (Tlv.put 12 (List.replicate 86 0xFF) ++ [endOption]))

theorem decode_namelessDatagram : DhcpMessage.decode namelessDatagram = .ok nameless := by
  have hlossy : fromUtf8Lossy (List.replicate 86 0xFF) = List.replicate 86 replacementCharacter := by
    decide
  have hoptions : Options.decode (Tlv.put 53 [1] ++ (Tlv.put 12 (List.replicate 86 0xFF) ++
      [endOption])) = .ok nameless.options := by
    rw [Options.decode, Tlv.fields_put_of_le (by decide) (by decide) (by decide),
      Tlv.fields_put_of_le (by decide) (by decide) (by simp), Tlv.fields_stop (by decide)]
    simp only [Option.map_some, DhcpOption.decodeOne, UInt8.toNat_ofNat, Nat.reducePow,
      Nat.reduceMod, hlossy]
    rfl
  rw [namelessDatagram, DhcpMessage.decode_header, hoptions]

end Example

open Example in
/-- With two DNS servers the client reads what the server decided. -/
theorem reply_on_the_wire_inform :
    DhcpMessage.decode (wireReply (handleInform (serverOf [⟨192, 168, 1, 1⟩, ⟨9, 9, 9, 9⟩]) inform)) =
        .ok (handleInform (serverOf [⟨192, 168, 1, 1⟩, ⟨9, 9, 9, 9⟩]) inform) ∧
      (DhcpMessage.decode inform.encode = .ok inform ↔ DhcpMessage.TextsFit inform.encode) := by
  have hdec : DhcpMessage.decode inform.encode = .ok inform := by decide +kernel
  obtain ⟨hreplies, hdatagrams⟩ := reply_on_the_wire inform.encode
  exact ⟨(hreplies (settings [⟨192, 168, 1, 1⟩, ⟨9, 9, 9, 9⟩]) noRa nothingFound none none
      _ (by decide +kernel) (by decide +kernel) (LeasePool.new first last) inform _ 0
      hdec rfl).2 (.inl (by decide)), hdatagrams inform hdec⟩

open Example in
/-- Sixty-four DNS servers are accepted, and the reply to an INFORM that lists them does not
decode to what was decided.  A host name of 86 bytes that are no text is 258 bytes of
replacement characters, and does not survive being written again. -/
theorem sixtyFour_servers :
    (validate (settings (List.replicate 64 ⟨192, 168, 1, 1⟩)) noRa nothingFound = .ok () ∧
      startDhcp (settings (List.replicate 64 ⟨192, 168, 1, 1⟩)) none none =
        .ok (serverOf (List.replicate 64 ⟨192, 168, 1, 1⟩)) ∧
      DhcpMessage.decode inform.encode = .ok inform ∧
      (handle (serverOf (List.replicate 64 ⟨192, 168, 1, 1⟩)) (LeasePool.new first last) inform 0).2 =
        some (handleInform (serverOf (List.replicate 64 ⟨192, 168, 1, 1⟩)) inform) ∧
      DhcpMessage.decode (wireReply
          (handleInform (serverOf (List.replicate 64 ⟨192, 168, 1, 1⟩)) inform)) ≠
        .ok (handleInform (serverOf (List.replicate 64 ⟨192, 168, 1, 1⟩)) inform)) ∧
      DhcpMessage.decode namelessDatagram = .ok nameless ∧
      DhcpMessage.decode nameless.encode ≠ .ok nameless := by
  have hreply : (handle (serverOf (List.replicate 64 ⟨192, 168, 1, 1⟩)) (LeasePool.new first last)
      inform 0).2 = some (handleInform (serverOf (List.replicate 64 ⟨192, 168, 1, 1⟩)) inform) := rfl
  refine ⟨⟨by decide +kernel, rfl, by decide +kernel, hreply, fun h => ?_⟩,
    decode_namelessDatagram, fun h => ?_⟩
  · rcases (decode_wireReply_iff rfl (by decide) hreply).1 h with hfew | hout
    · exact absurd hfew (by decide)
    · exact hout (.inl ⟨rfl, rfl⟩)
  · have hplain : ∀ o ∈ nameless.options, o.Plain := by
      simp [nameless, message, DhcpOption.plain_of_ne_unknown]
    have hall := (DhcpMessage.decode_encode_iff hplain []).1 (by rwa [List.append_nil])
    have hname := hall _ (List.mem_cons_of_mem _ List.mem_cons_self)
    rw [DhcpOption.payload, String.toList_ofList] at hname
    exact absurd hname (by decide +kernel)

end Ferrite.Dhcp
