import Ferrite.Lib.Mealy
import Ferrite.Dhcp.Handler

/-!
# One address, one running lease

Runs of the lease pool under everything that can happen to it while the server
is up: messages, sweeps, holds and neighbour scans, at non-decreasing times.
The question is whether the server ever has two running acknowledgements for one
address.

It can.  `release` and `commit` drop whatever lease sits at the address the
sender is *recorded* at, and a record can be stale (`LeasePool.staleEntry`): the
client's lease ran out, the address went to someone else, and the first client's
late RELEASE then frees the second one's running lease.
`late_release_frees_other_lease` is such a run.

What is proved about every run:

* `handle_keeps_others_iff` — a message keeps every other client's running lease
  exactly when it does not drop through a stale record;
* `unique_leases_of_no_stale_drop` — a run in which no message does is safe: a
  second acknowledgement of an address inside the first one's lease means that
  the first holder gave the address up in between.
-/

namespace Ferrite.Dhcp

open Mealy

/-! ## Runs of the pool -/

/-- What can happen to the pool while the server runs. -/
inductive PoolEvent where
  | handle (req : DhcpMessage)
  | prune
  | hold (ip : Ipv4Addr) (till : ℕ)
  | setSeen (seen : Table Ipv4Addr Mac)

/-- An event at a time, applied to the pool; the reply, if the event has one. -/
def poolStep (cfg : ServerConfig) (p : LeasePool) (e : ℕ × PoolEvent) :
    LeasePool × Option DhcpMessage :=
  match e.2 with
  | .handle req => Dhcp.handle cfg p req e.1
  | .prune => ((p.pruneExpired e.1).1, none)
  | .hold ip till => (p.hold ip till, none)
  | .setSeen seen => (p.setSeen seen, none)

/-- One entry of a run of the pool. -/
abbrev PoolEntry := Entry LeasePool (ℕ × PoolEvent) (Option DhcpMessage)

/-- The trace of a run that starts from an empty pool with the given bounds and
reservations. -/
def poolTrace (cfg : ServerConfig) (start stop : UInt32) (reservations : Table Mac Ipv4Addr)
    (es : List (ℕ × PoolEvent)) : List PoolEntry :=
  trace (poolStep cfg) { LeasePool.new start stop with reservations := reservations } es

/-- When the lease of an acknowledgement at `now` runs out. -/
def leaseEnd (cfg : ServerConfig) (now : ℕ) : ℕ := saturatingAdd now cfg.leaseSecs.toNat

/-- The entry acknowledges `ip` to `mac`. -/
def Acks (x : PoolEntry) (mac : Mac) (ip : Ipv4Addr) : Prop :=
  ∃ req, x.event.2 = .handle req ∧ req.chaddr = mac ∧ AckedAddress x.output ip

/-- The entry is `mac` giving up `ip`: a RELEASE or a DECLINE of its own, or an
acknowledgement of another address. -/
def GivesUp (x : PoolEntry) (mac : Mac) (ip : Ipv4Addr) : Prop :=
  (∃ req, x.event.2 = .handle req ∧ req.chaddr = mac ∧
    (IsRequestOf req .release ∨ IsRequestOf req .decline)) ∨
  ∃ ip', ip' ≠ ip ∧ Acks x mac ip'

/-- No address is acknowledged to a second client inside the first one's lease,
unless the first one gave it up in between. -/
def NoDoubleAck (cfg : ServerConfig) (tr : List PoolEntry) : Prop :=
  ∀ (i j : ℕ) (x y : PoolEntry) (a b : Mac) (ip : Ipv4Addr),
    i < j → tr[i]? = some x → tr[j]? = some y → Acks x a ip → Acks y b ip → b ≠ a →
      y.event.1 < leaseEnd cfg x.event.1 →
      ∃ k z, i < k ∧ k < j ∧ tr[k]? = some z ∧ GivesUp z a ip

/-- The pool after the message still has every running lease of a client other
than its sender. -/
def KeepsOthers (p p' : LeasePool) (req : DhcpMessage) (now : ℕ) : Prop :=
  ∀ ip l, p.byIp.lookup ip = some l → now < l.expiresAt → l.mac ≠ req.chaddr →
    p'.byIp.lookup ip = some l

/-- The run never has two running acknowledgements for one address, and no
message removes a running lease of a client other than its sender. -/
def UniqueLeases (cfg : ServerConfig) (tr : List PoolEntry) : Prop :=
  NoDoubleAck cfg tr ∧
    ∀ x ∈ tr, ∀ req, x.event.2 = .handle req → KeepsOthers x.before x.after req x.event.1

/-! ## Dropping through a stale record -/

/-- The message makes the server drop whatever sits at its sender's recorded
address: a RELEASE, a DECLINE, or a REQUEST granted at a different address. -/
def DropsRecorded (cfg : ServerConfig) (p : LeasePool) (req : DhcpMessage) (now : ℕ) : Prop :=
  IsRequestOf req .release ∨ IsRequestOf req .decline ∨
    (Grants cfg p req now ∧ p.byMac.lookup req.chaddr ≠ some (wanted req))

instance (cfg : ServerConfig) (p : LeasePool) (req : DhcpMessage) (now : ℕ) :
    Decidable (DropsRecorded cfg p req now) :=
  inferInstanceAs (Decidable (_ ∨ _ ∨ (_ ∧ _)))

/-- The event does not drop through a stale record. -/
def NoStaleDrop (cfg : ServerConfig) (p : LeasePool) (e : ℕ × PoolEvent) : Prop :=
  match e.2 with
  | .handle req => DropsRecorded cfg p req e.1 → p.staleEntry req.chaddr e.1 = false
  | _ => True

instance (cfg : ServerConfig) (p : LeasePool) (e : ℕ × PoolEvent) :
    Decidable (NoStaleDrop cfg p e) :=
  match h : e.2 with
  | .handle req => decidable_of_iff
      (DropsRecorded cfg p req e.1 → p.staleEntry req.chaddr e.1 = false) (by simp [NoStaleDrop, h])
  | .prune => isTrue (by simp [NoStaleDrop, h])
  | .hold _ _ => isTrue (by simp [NoStaleDrop, h])
  | .setSeen _ => isTrue (by simp [NoStaleDrop, h])

theorem LeasePool.staleEntry_iff {p : LeasePool} {mac : Mac} {now : ℕ} :
    p.staleEntry mac now = true ↔ ∃ ip l, p.byMac.lookup mac = some ip ∧
      p.byIp.lookup ip = some l ∧ now < l.expiresAt ∧ l.mac ≠ mac := by
  simp only [staleEntry, Option.any_eq_true, leasedToOther_iff]
  constructor
  · rintro ⟨ip, hm, l, hl, hact, hne⟩
    exact ⟨ip, l, hm, hl, hact, hne⟩
  · rintro ⟨ip, l, hm, hl, hact, hne⟩
    exact ⟨ip, hm, l, hl, hact, hne⟩

theorem drops_iff {cfg : ServerConfig} {p : LeasePool} {req : DhcpMessage} {now : ℕ}
    {ip : Ipv4Addr} :
    Drops cfg p req now ip ↔ p.byMac.lookup req.chaddr = some ip ∧ DropsRecorded cfg p req now := by
  unfold Drops DropsRecorded
  refine and_congr_right fun hm => ?_
  rw [hm, ne_eq, ne_eq, Option.some.injEq]

/-- Another client's running lease after a message: a grant cannot have replaced it, since
the granted address was free for the sender. -/
theorem lookup_byIp_handle_of_other {cfg : ServerConfig} {p : LeasePool} {req : DhcpMessage}
    {now : ℕ} {ip : Ipv4Addr} {l : Lease} (hl : p.byIp.lookup ip = some l)
    (hact : now < l.expiresAt) (hne : l.mac ≠ req.chaddr) :
    (Dhcp.handle cfg p req now).1.byIp.lookup ip =
      if Drops cfg p req now ip then none else some l := by
  rw [lookup_byIp_handle, if_neg, hl]
  rintro ⟨hg, rfl⟩
  have hfree := (LeasePool.availableFor_iff.1 hg.2.2.2.2).2.2.2
  rw [LeasePool.leasedToOther_iff.2 ⟨l, hl, hact, hne⟩] at hfree
  cases hfree

/-- **A message keeps every other client's running lease exactly when it does not
drop through a stale record.** -/
theorem handle_keeps_others_iff (cfg : ServerConfig) (p : LeasePool) (req : DhcpMessage)
    (now : ℕ) :
    KeepsOthers p (Dhcp.handle cfg p req now).1 req now ↔
      (DropsRecorded cfg p req now → p.staleEntry req.chaddr now = false) := by
  constructor
  · intro hk hd
    rw [← Bool.not_eq_true, LeasePool.staleEntry_iff]
    rintro ⟨ip, l, hm, hl, hact, hne⟩
    have hlost := @lookup_byIp_handle_of_other cfg p req now ip l hl hact hne
    rw [hk ip l hl hact hne, if_pos (drops_iff.2 ⟨hm, hd⟩)] at hlost
    cases hlost
  · intro hs ip l hl hact hne
    rw [lookup_byIp_handle_of_other hl hact hne, if_neg]
    intro hdrop
    obtain ⟨hm, hd⟩ := drops_iff.1 hdrop
    have hfresh := hs hd
    rw [LeasePool.staleEntry_iff.2 ⟨ip, l, hm, hl, hact, hne⟩] at hfresh
    cases hfresh

/-! ## Every step keeps the mirror -/

theorem poolStep_mirrored (cfg : ServerConfig) {p : LeasePool} (hp : p.Mirrored)
    (e : ℕ × PoolEvent) : (poolStep cfg p e).1.Mirrored := by
  obtain ⟨now, ev⟩ := e
  cases ev with
  | handle req => exact handle_mirrored cfg hp req now
  | prune => exact LeasePool.pruneExpired_mirrored hp now
  | hold ip till => exact hp.congr rfl rfl
  | setSeen seen => exact hp.congr rfl rfl

/-! ## A lease lasts until its holder gives it up -/

/-- `mac` holds `ip` until at least `till`. -/
def HoldsUntil (p : LeasePool) (mac : Mac) (ip : Ipv4Addr) (till : ℕ) : Prop :=
  ∃ l, p.byIp.lookup ip = some l ∧ l.mac = mac ∧ till ≤ l.expiresAt

/-- An acknowledgement leaves its client holding the address for the lease time. -/
theorem holdsUntil_of_acks {cfg : ServerConfig} {x : PoolEntry}
    (hstep : poolStep cfg x.before x.event = (x.after, x.output)) {mac : Mac} {ip : Ipv4Addr}
    (hack : Acks x mac ip) : HoldsUntil x.after mac ip (leaseEnd cfg x.event.1) := by
  obtain ⟨req, hev, rfl, hip⟩ := hack
  have hh : Dhcp.handle cfg x.before req x.event.1 = (x.after, x.output) := by
    rw [← hstep, poolStep, hev]
  have hack : AckedAddress (Dhcp.handle cfg x.before req x.event.1).2 ip := by
    rw [hh]
    exact hip
  obtain ⟨rfl, -, hc⟩ := grants_of_ackedAddress hack
  rw [hh] at hc
  refine ⟨grantedLease cfg req x.event.1, ?_, rfl, le_rfl⟩
  rw [LeasePool.lookup_byIp_commit hc, if_pos rfl]

/-- One step keeps a running lease, or is its holder giving the address up. -/
theorem poolStep_holdsUntil {cfg : ServerConfig} {x : PoolEntry}
    (hstep : poolStep cfg x.before x.event = (x.after, x.output))
    (hmir : x.before.Mirrored) (hok : NoStaleDrop cfg x.before x.event)
    {mac : Mac} {ip : Ipv4Addr} {till : ℕ} (hnow : x.event.1 < till)
    (htill : till ≤ leaseEnd cfg x.event.1) (hkeep : ¬ GivesUp x mac ip)
    (h : HoldsUntil x.before mac ip till) : HoldsUntil x.after mac ip till := by
  obtain ⟨l, hl, hmac, hexp⟩ := h
  obtain ⟨before, ⟨now, ev⟩, output, after⟩ := x
  simp only at *
  cases ev with
  | handle req =>
    have hh : Dhcp.handle cfg before req now = (after, output) := hstep
    by_cases hsender : req.chaddr = mac
    · -- the holder itself: it renews, or it gives the address up
      rcases handle_cases cfg before req now with ⟨h, -⟩ | ⟨h, -⟩ | ⟨h, -⟩ | ⟨hg, hc, h⟩
      · rw [hh] at h
        simp only at h
        exact ⟨l, h ▸ hl, hmac, hexp⟩
      · exact absurd (Or.inl ⟨req, rfl, hsender, Or.inl h⟩) hkeep
      · exact absurd (Or.inl ⟨req, rfl, hsender, Or.inr h⟩) hkeep
      · rw [hh] at h hc
        simp only at h hc
        have hack : AckedAddress output (wanted req) := by
          rw [h]
          exact (ackedAddress_ackReply_iff hg.2.2.1).2 rfl
        by_cases hip : wanted req = ip
        · subst hip
          refine ⟨grantedLease cfg req now, ?_, hsender, htill⟩
          rw [LeasePool.lookup_byIp_commit hc, if_pos rfl]
        · exact absurd (Or.inr ⟨wanted req, hip, req, rfl, hsender, hack⟩) hkeep
    · have hk := (handle_keeps_others_iff cfg before req now).2 hok
      rw [hh] at hk
      exact ⟨l, hk ip l hl (by omega) (by rw [hmac]; exact fun h => hsender h.symm), hmac, hexp⟩
  | prune =>
    obtain ⟨rfl, -⟩ := Prod.mk.inj hstep
    refine ⟨l, ?_, hmac, hexp⟩
    rw [LeasePool.lookup_byIp_pruneExpired hmir.ip_eq, hl, Option.filter_some_pos]
    exact Lease.isActive_iff.2 (by omega)
  | hold ip' till' =>
    obtain ⟨rfl, -⟩ := Prod.mk.inj hstep
    exact ⟨l, hl, hmac, hexp⟩
  | setSeen seen =>
    obtain ⟨rfl, -⟩ := Prod.mk.inj hstep
    exact ⟨l, hl, hmac, hexp⟩

/-- An address held past `now` by one client is not acknowledged to another. -/
theorem not_acks_of_holdsUntil {cfg : ServerConfig} {x : PoolEntry}
    (hstep : poolStep cfg x.before x.event = (x.after, x.output)) {a b : Mac} {ip : Ipv4Addr}
    {till : ℕ} (hnow : x.event.1 < till) (h : HoldsUntil x.before a ip till) (hne : b ≠ a) :
    ¬ Acks x b ip := by
  rintro ⟨req, hev, rfl, hip⟩
  obtain ⟨l, hl, hmac, hexp⟩ := h
  have hh : Dhcp.handle cfg x.before req x.event.1 = (x.after, x.output) := by
    rw [← hstep, poolStep, hev]
  have hack : AckedAddress (Dhcp.handle cfg x.before req x.event.1).2 ip := by
    rw [hh]
    exact hip
  obtain ⟨rfl, hg, -⟩ := grants_of_ackedAddress hack
  have hlto := (LeasePool.availableFor_iff.1 hg.2.2.2.2).2.2.2
  rw [LeasePool.leasedToOther_iff.2 ⟨l, hl, by omega, by rw [hmac]; exact hne.symm⟩] at hlto
  cases hlto

/-! ## Whole runs -/

/-- The times of a run never go back. -/
def TimesAscend (es : List (ℕ × PoolEvent)) : Prop := (es.map Prod.fst).Pairwise (· ≤ ·)

theorem time_le_of_trace {S O : Type} {step : S → ℕ × PoolEvent → S × O} {s : S}
    {es : List (ℕ × PoolEvent)} (h : TimesAscend es) {i j : ℕ}
    {x y : Entry S (ℕ × PoolEvent) O} (hij : i < j) (hx : (trace step s es)[i]? = some x)
    (hy : (trace step s es)[j]? = some y) : x.event.1 ≤ y.event.1 := by
  have hev : ∀ {k : ℕ} {z : Entry S (ℕ × PoolEvent) O}, (trace step s es)[k]? = some z →
      (es.map Prod.fst)[k]? = some z.event.1 := by
    intro k z hz
    have := congrArg (fun l => l[k]?) (map_event_trace step s es)
    simp only [List.getElem?_map, hz, Option.map_some] at this
    rw [List.getElem?_map, ← this, Option.map_some]
  obtain ⟨hi, hxi⟩ := List.getElem?_eq_some_iff.1 (hev hx)
  obtain ⟨hj, hyj⟩ := List.getElem?_eq_some_iff.1 (hev hy)
  rw [← hxi, ← hyj]
  exact List.pairwise_iff_getElem.1 h i j hi hj hij

/-- **One running lease for each address.**  In every run from an empty pool, at
non-decreasing times, in which no message drops through a stale record, an
address is acknowledged to a second client inside the first one's lease only
after the first one gave it up, and no message takes away another client's
running lease. -/
theorem unique_leases_of_no_stale_drop (cfg : ServerConfig) (start stop : UInt32)
    (reservations : Table Mac Ipv4Addr) (es : List (ℕ × PoolEvent)) (htimes : TimesAscend es)
    (hok : ∀ x ∈ poolTrace cfg start stop reservations es, NoStaleDrop cfg x.before x.event) :
    UniqueLeases cfg (poolTrace cfg start stop reservations es) := by
  have hinit : ({ LeasePool.new start stop with reservations := reservations } :
      LeasePool).Mirrored := (LeasePool.new_mirrored start stop).congr rfl rfl
  have hmir : ∀ x ∈ poolTrace cfg start stop reservations es, x.before.Mirrored := by
    intro x hx
    have hstep : ∀ p e, NoStaleDrop cfg p e → p.Mirrored → (poolStep cfg p e).1.Mirrored :=
      fun p e _ hp => poolStep_mirrored cfg hp e
    exact (inv_of_mem_trace (poolStep cfg) hstep hinit hok hx).1
  have hmem : ∀ {k : ℕ} {z : PoolEntry},
      (poolTrace cfg start stop reservations es)[k]? = some z →
      z ∈ poolTrace cfg start stop reservations es := fun h => List.mem_of_getElem? h
  constructor
  · intro i j x y a b ip hij hx hy hxa hyb hne hlt
    have hfact := holdsUntil_of_acks (step_of_mem_trace _ (hmem hx)) hxa
    have hkeep : ∀ k z, i < k → k < j →
        (poolTrace cfg start stop reservations es)[k]? = some z →
        HoldsUntil z.before a ip (leaseEnd cfg x.event.1) → ¬ GivesUp z a ip →
        HoldsUntil z.after a ip (leaseEnd cfg x.event.1) := by
      intro k z hik hkj hz hbefore hkeep
      have htk := time_le_of_trace htimes hik hx hz
      have htj := time_le_of_trace htimes hkj hz hy
      exact poolStep_holdsUntil (step_of_mem_trace _ (hmem hz)) (hmir z (hmem hz))
        (hok z (hmem hz)) (by omega) (saturatingAdd_mono htk) hkeep hbefore
    rcases @holds_until _ _ _ (poolStep cfg)
      (fun p => HoldsUntil p a ip (leaseEnd cfg x.event.1)) (fun z => GivesUp z a ip)
      _ _ i x hx hfact j y hij hy hkeep with h | h
    · exact h
    · exact absurd hyb (not_acks_of_holdsUntil (step_of_mem_trace _ (hmem hy)) hlt h hne)
  · intro x hx req hev
    have hg := hok x hx
    have hstep := step_of_mem_trace (poolStep cfg) hx
    rw [NoStaleDrop, hev] at hg
    simp only [poolStep, hev] at hstep
    have hk := (handle_keeps_others_iff cfg x.before req x.event.1).2 hg
    rwa [hstep] at hk

/-! ## A run that breaks it -/

namespace Example

/-- A REQUEST for `192.168.1.n`. -/
def request (mac : Mac) (n : UInt8) : PoolEvent :=
  .handle (message mac .request [.requestedIp ⟨192, 168, 1, n⟩])

/-- `a`'s lease on `.10` runs out, `b` is given the address, then `a`'s late
RELEASE arrives and `c` asks for `.10` too. -/
def lateRelease : List (ℕ × PoolEvent) :=
  [(100, request (client 10) 10), (250, request (client 11) 10),
    (260, .handle (message (client 10) .release [])), (270, request (client 12) 10)]

/-- The same without the late RELEASE: `b` renews, and `c` asks in vain. -/
def noLateRelease : List (ℕ × PoolEvent) :=
  [(100, request (client 10) 10), (250, request (client 11) 10), (255, .prune),
    (260, request (client 11) 10), (270, request (client 12) 10),
    (280, request (client 12) 11)]

end Example

open Example in
/-- **A late RELEASE frees another client's running lease**, and the address is
acknowledged a second time while the first acknowledgement still runs. -/
theorem late_release_frees_other_lease :
    ¬ UniqueLeases cfg (poolTrace cfg first last ∅ lateRelease) := by
  intro h
  -- `b` at position 1 and `c` at position 3 are both acknowledged `.10`
  obtain ⟨k, z, hik, hkj, hz, hgives⟩ := h.1 1 3 _ _ (client 11) (client 12) ⟨192, 168, 1, 10⟩
    (by decide) rfl rfl ⟨_, rfl, rfl, by decide⟩ ⟨_, rfl, rfl, by decide⟩ (by decide) (by decide)
  -- the only entry between them is `a`'s RELEASE, which `b` did not send
  obtain rfl : k = 2 := by omega
  have hev : z.event = (260, .handle (message (client 10) .release [])) :=
    congrArg Entry.event (Option.some.inj hz).symm
  have hsender : ∀ req, z.event.2 = .handle req → req.chaddr ≠ client 11 := by
    intro req hreq
    rw [hev] at hreq
    rw [← PoolEvent.handle.inj hreq]
    decide
  rcases hgives with ⟨req, hreq, hmac, -⟩ | ⟨ip', -, req, hreq, hmac, -⟩
  · exact hsender req hreq hmac
  · exact hsender req hreq hmac

open Example in
/-- Without the late RELEASE the run is safe, although `a` stays recorded at the
address that `b` now holds. -/
theorem unique_leases_without_late_release :
    TimesAscend noLateRelease ∧
      (∀ x ∈ poolTrace cfg first last ∅ noLateRelease, NoStaleDrop cfg x.before x.event) ∧
      UniqueLeases cfg (poolTrace cfg first last ∅ noLateRelease) := by
  have htimes : TimesAscend noLateRelease := by
    rw [TimesAscend]
    decide
  have hok : ∀ x ∈ poolTrace cfg first last ∅ noLateRelease,
      NoStaleDrop cfg x.before x.event := by decide
  exact ⟨htimes, hok, unique_leases_of_no_stale_drop cfg first last ∅ noLateRelease htimes hok⟩

end Ferrite.Dhcp
