import Ferrite.Dhcp.Handler

/-!
# The serve loop and the stored lease table

`dhcp/src/server.rs` runs the decision logic on each decoded message and
publishes lease changes as events; `app/src/dhcp.rs` writes every event into the
`dhcp_leases` table and, after a restart, seeds a fresh pool from it.  The events
are read off the request and the reply, not off the pool: a RELEASE is published
under the `ciaddr` it carries, a commit under the `yiaddr` of the ACK.

`serveStep` puts the two together for everything that happens to them while the
service is up, a restart included; `clock` is the latest time seen so far.
-/

namespace Ferrite.Dhcp

/-! ## Lease events -/

/-- A lease change, as published to the storage and the device registry. -/
inductive LeaseEvent where
  | committed (mac : Mac) (ip : Ipv4Addr) (hostname : Option String) (expiresAt : ℕ)
  | released (ip : Ipv4Addr)
deriving DecidableEq, Repr

/-- The events `serve` publishes for a request and the reply to it. -/
def leaseEvents (cfg : ServerConfig) (req : DhcpMessage) (reply : Option DhcpMessage)
    (now : ℕ) : List LeaseEvent :=
  (if req.messageType = some .release ∧ req.ciaddr.isUnspecified = false
    then [.released req.ciaddr] else []) ++
  (match reply with
    | some r =>
      if r.messageType = some .ack ∧ r.yiaddr.isUnspecified = false then
        [.committed req.chaddr r.yiaddr req.hostname (saturatingAdd now cfg.leaseSecs.toNat)]
      else []
    | none => [])

/-! ## The stored table -/

/-- A row of `dhcp_leases`. -/
structure StoredLease where
  ip : String
  mac : String
  hostname : Option String
  expiresAt : ℤ
deriving DecidableEq, Repr

/-- The table, keyed by the address text. -/
abbrev LeaseTable := Table String StoredLease

/-- `n as i64` for a `u64`. -/
def asI64 (n : ℕ) : ℤ := if n < 2 ^ 63 then n else n - 2 ^ 64

/-- The row of a lease. -/
def rowOf (l : Lease) : StoredLease :=
  ⟨l.ip.toText, formatMac l.mac, l.hostname, asI64 l.expiresAt⟩

/-- One turn of `DhcpService::consume`: upsert by address on a commit, delete by
address on a release. -/
def consumeEvent (t : LeaseTable) : LeaseEvent → LeaseTable
  | .committed mac ip hostname expiresAt => t.insert ip.toText (rowOf ⟨ip, mac, hostname, expiresAt⟩)
  | .released ip => t.erase ip.toText

/-- `consume`: the events in order. -/
def consume (t : LeaseTable) (events : List LeaseEvent) : LeaseTable :=
  events.foldl consumeEvent t

/-- `delete_expired_dhcp_leases`. -/
def deleteExpired (t : LeaseTable) (now : ℤ) : LeaseTable := t.retain fun _ r => now < r.expiresAt

/-- The message makes `consume` delete the row at `ip`. -/
def Unlists (req : DhcpMessage) (ip : Ipv4Addr) : Prop :=
  req.messageType = some .release ∧ req.ciaddr = ip ∧ ip ≠ .unspecified

instance (req : DhcpMessage) (ip : Ipv4Addr) : Decidable (Unlists req ip) :=
  inferInstanceAs (Decidable (_ ∧ _ ∧ _))

/-- The events of a message: at most one, and which one is read off the request
and the reply. -/
theorem leaseEvents_eq (cfg : ServerConfig) (pool : LeasePool) (req : DhcpMessage) (now : ℕ) :
    leaseEvents cfg req (handle cfg pool req now).2 now =
      if Grants cfg pool req now then
        [.committed req.chaddr (wanted req) req.hostname (grantedLease cfg req now).expiresAt]
      else if Unlists req req.ciaddr then [.released req.ciaddr] else [] := by
  have hunlists : (req.messageType = some .release ∧ req.ciaddr.isUnspecified = false) ↔
      Unlists req req.ciaddr := by
    rw [Unlists, ← Bool.not_eq_true, Ipv4Addr.isUnspecified_iff]
    simp
  have hnone : ∀ r, (∀ ip, ¬ AckedAddress r ip) → leaseEvents cfg req r now =
      if Unlists req req.ciaddr then [.released req.ciaddr] else [] := by
    intro r hr
    simp only [leaseEvents, hunlists]
    match r with
    | none => simp
    | some m =>
      have hack : ¬ (m.messageType = some .ack ∧ m.yiaddr.isUnspecified = false) := by
        rintro ⟨hm, hy⟩
        refine hr m.yiaddr ⟨m, rfl, hm, rfl, fun h => ?_⟩
        rw [Ipv4Addr.isUnspecified_iff.2 h] at hy
        cases hy
      simp [hack]
  have hsilent : ∀ ip, ¬ AckedAddress none ip := by
    rintro ip ⟨m, hm, -⟩
    cases hm
  rcases handle_cases cfg pool req now with ⟨-, hg, -, -, hno⟩ | ⟨hrel, hh⟩ | ⟨hdec, hh⟩ |
    ⟨hg, -, hh⟩
  · rw [hnone _ hno, if_neg hg]
  · rw [hh, hnone _ hsilent, if_neg (not_grants_of_isRequestOf hrel (by decide))]
  · rw [hh, hnone _ hsilent, if_neg (not_grants_of_isRequestOf hdec (by decide))]
  · have hrel : ¬ Unlists req req.ciaddr := fun h => by
      have := h.1.symm.trans hg.1.2
      cases this
    have hw : (wanted req).isUnspecified = false := hg.2.2.1
    rw [hh, if_pos hg]
    simp only [leaseEvents, hunlists, hrel, ackReply, List.cons_append, messageType_reply,
      yiaddr_reply, hw, if_pos, if_false, and_self, List.nil_append, grantedLease]

/-- **The stored table after a message**, address by address. -/
theorem lookup_consume (cfg : ServerConfig) (pool : LeasePool) (req : DhcpMessage) (now : ℕ)
    (t : LeaseTable) (x : Ipv4Addr) :
    (consume t (leaseEvents cfg req (handle cfg pool req now).2 now)).lookup x.toText =
      if Grants cfg pool req now ∧ x = wanted req then some (rowOf (grantedLease cfg req now))
      else if Unlists req x then none
      else t.lookup x.toText := by
  rw [leaseEvents_eq]
  by_cases hg : Grants cfg pool req now
  · have hrel : ¬ Unlists req x := fun h => by
      have := h.1.symm.trans hg.1.2
      cases this
    rw [if_pos hg]
    simp only [consume, List.foldl_cons, List.foldl_nil, consumeEvent, Table.lookup_insert_eq,
      Ipv4Addr.toText_injective.eq_iff, hg, true_and, hrel, if_false]
    rfl
  · rw [if_neg hg]
    by_cases hc : Unlists req req.ciaddr
    · simp only [if_pos hc, consume, List.foldl_cons, List.foldl_nil, consumeEvent,
        Table.lookup_erase_eq, Ipv4Addr.toText_injective.eq_iff, hg, false_and, if_false]
      by_cases hx : x = req.ciaddr
      · rw [if_pos hx, hx, if_pos hc]
      · rw [if_neg hx, if_neg fun h : Unlists req x => hx h.2.1.symm]
    · have hx : ¬ Unlists req x := by
        intro h
        rw [← h.2.1] at h
        exact hc h
      simp [hc, hg, hx, consume]

/-! ## A restart -/

/-- `same_subnet`. -/
def sameSubnet (a b mask : Ipv4Addr) : Bool := a.toU32 &&& mask.toU32 == b.toU32 &&& mask.toU32

/-- One stored row, read back into the pool by `start_dhcp`: rows that do not
parse or lie outside the server's subnet are skipped. -/
def restoreRow (cfg : ServerConfig) (now : ℕ) (pool : LeasePool) (row : StoredLease) :
    LeasePool :=
  match parseIpv4 row.ip, parseMac row.mac with
  | some ip, some mac =>
    if sameSubnet ip cfg.serverIp cfg.subnetMask then
      pool.restore mac ip row.hostname row.expiresAt.toNat now
    else pool
  | _, _ => pool

/-- The part of `start_dhcp` that seeds a fresh pool from the stored rows. -/
def restoreStored (cfg : ServerConfig) (fresh : LeasePool) (rows : List StoredLease) (now : ℕ) :
    LeasePool :=
  rows.foldl (restoreRow cfg now) fresh

/-! ## The service as a machine -/

/-- The pool, the stored table and the latest time either has seen. -/
structure Service where
  pool : LeasePool
  store : LeaseTable
  clock : ℕ

/-- What happens to the service: a decoded message, the periodic sweep, a
neighbour scan, or a restart that loads the rows in some order. -/
inductive ServeEvent where
  | message (req : DhcpMessage)
  | prune
  | setSeen (seen : Table Ipv4Addr Mac)
  | restart (rows : List StoredLease)

/-- The fresh pool of a service: its bounds and reservations, no leases. -/
def LeasePool.fresh (p : LeasePool) : LeasePool :=
  { LeasePool.new p.start p.stop with reservations := p.reservations }

/-- One turn of the service, every event delivered and applied in order. -/
def serveStep (cfg : ServerConfig) (s : Service) (e : ℕ × ServeEvent) : Service × Unit :=
  match e.2 with
  | .message req =>
    let (pool, reply) := handle cfg s.pool req e.1
    (⟨pool, consume s.store (leaseEvents cfg req reply e.1), max s.clock e.1⟩, ())
  | .prune =>
    (⟨(s.pool.pruneExpired e.1).1, deleteExpired s.store (asI64 e.1), max s.clock e.1⟩, ())
  | .setSeen seen => (⟨s.pool.setSeen seen, s.store, max s.clock e.1⟩, ())
  | .restart rows => (⟨restoreStored cfg s.pool.fresh rows e.1, s.store, max s.clock e.1⟩, ())

/-- The service on its first start. -/
def Service.init (start stop : UInt32) (reservations : Table Mac Ipv4Addr) : Service where
  pool := { LeasePool.new start stop with reservations := reservations }
  store := ∅
  clock := 0

end Ferrite.Dhcp
