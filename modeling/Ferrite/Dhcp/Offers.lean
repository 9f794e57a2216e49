import Ferrite.Dhcp.Handler

/-!
# An offered address can be had

`offer` picks an address in four ways, and only two of them ask `availableFor`;
`commit` always does.  So an OFFER can be one the following REQUEST is refused:
a reservation whose address is held, seen at another device or still leased to
someone else, and a recorded address that the client cannot have any more.

* `offer_honoured_iff` — in every reachable state the offer of a client is
  honoured exactly when neither of those two branches yields an address that is
  not clear for it (`OfferClear`); the other two branches are always honoured.
* `stale_offer_refused` — a client is offered the address of another client's
  running lease, and the REQUEST for it is refused.
-/

namespace Ferrite.Dhcp

namespace LeasePool

/-! ## The reachable pools -/

/-- The pools reached by any sequence of the pool's operations; no address is
ever reserved for two clients. -/
inductive Reachable : LeasePool → Prop
  | new (start stop : UInt32) : Reachable (new start stop)
  | reserve {p : LeasePool} (hp : Reachable p) (mac : Mac) (ip : Ipv4Addr)
      (hfree : ∀ m, p.reservations.lookup m = some ip → m = mac) : Reachable (p.reserve mac ip)
  | commit {p p' : LeasePool} (hp : Reachable p) {mac : Mac} {ip : Ipv4Addr}
      {hostname : Option String} {now secs : ℕ} {l : Lease}
      (hc : p.commit mac ip hostname now secs = .ok (l, p')) : Reachable p'
  | restore {p : LeasePool} (hp : Reachable p) (mac : Mac) (ip : Ipv4Addr)
      (hostname : Option String) (expiresAt now : ℕ) :
      Reachable (p.restore mac ip hostname expiresAt now)
  | release {p : LeasePool} (hp : Reachable p) (mac : Mac) : Reachable (p.release mac)
  | hold {p : LeasePool} (hp : Reachable p) (ip : Ipv4Addr) (till : ℕ) : Reachable (p.hold ip till)
  | setSeen {p : LeasePool} (hp : Reachable p) (seen : Table Ipv4Addr Mac) :
      Reachable (p.setSeen seen)
  | pruneExpired {p : LeasePool} (hp : Reachable p) (now : ℕ) : Reachable (p.pruneExpired now).1

/-- No address is reserved for two clients. -/
def DistinctReservations (p : LeasePool) : Prop :=
  ∀ m m' ip, p.reservations.lookup m = some ip → p.reservations.lookup m' = some ip → m = m'

theorem reservations_restore (p : LeasePool) (mac : Mac) (ip : Ipv4Addr)
    (hostname : Option String) (expiresAt now : ℕ) :
    (p.restore mac ip hostname expiresAt now).reservations = p.reservations := by
  unfold restore
  split <;> rfl

theorem reservations_release (p : LeasePool) (mac : Mac) :
    (p.release mac).reservations = p.reservations := by
  unfold release
  split <;> rfl

theorem reservations_pruneExpired (p : LeasePool) (now : ℕ) :
    (p.pruneExpired now).1.reservations = p.reservations := by
  have key : ∀ (ds : List Ipv4Addr) (q : LeasePool),
      (ds.foldl dropLease q).reservations = q.reservations := by
    intro ds
    induction ds with
    | nil => exact fun q => rfl
    | cons d ds ih =>
      intro q
      rw [List.foldl_cons, ih]
      unfold dropLease
      split <;> rfl
  exact key _ _

/-- Reservations stay distinct: only `reserve` writes them. -/
theorem Reachable.distinctReservations {p : LeasePool} (h : Reachable p) :
    p.DistinctReservations := by
  induction h with
  | new start stop => intro m m' ip hm; simp [LeasePool.new] at hm
  | @reserve p hp mac ip hfree ih =>
    intro m m' x hm hm'
    simp only [LeasePool.reserve, Table.lookup_insert_eq] at hm hm'
    split at hm <;> split at hm'
    · rename_i h1 h2
      rw [h1, h2]
    · rename_i h1 _
      rw [h1, hfree m' (by rw [hm', ← hm])]
    · rename_i _ h2
      rw [h2, hfree m (by rw [hm, ← hm'])]
    · exact ih m m' x hm hm'
  | commit hp hc ih =>
    obtain ⟨-, -, -, rfl⟩ := commit_ok hc
    exact ih
  | restore hp mac ip hostname expiresAt now ih =>
    intro m m' x hm hm'
    rw [reservations_restore] at hm hm'
    exact ih m m' x hm hm'
  | release hp mac ih =>
    intro m m' x hm hm'
    rw [reservations_release] at hm hm'
    exact ih m m' x hm hm'
  | hold hp ip till ih => exact ih
  | setSeen hp seen ih => exact ih
  | pruneExpired hp now ih =>
    intro m m' x hm hm'
    rw [reservations_pruneExpired] at hm hm'
    exact ih m m' x hm hm'

/-! ## What is offered -/

/-- Nothing but a reservation can keep `mac` from `ip`: no hold runs on it, no
other device is seen there and no other client's lease runs there. -/
def ClearFor (p : LeasePool) (ip : Ipv4Addr) (mac : Mac) (now : ℕ) : Prop :=
  p.heldAt ip now = false ∧ p.seenElsewhere ip mac = false ∧ p.leasedToOther ip mac now = false

/-- The address an unchecked branch of `offer` would yield is one the client can
have: its reservation is clear, or else the address it is recorded at with a
running lease is in range, nobody else's reservation and clear. -/
def OfferClear (p : LeasePool) (mac : Mac) (now : ℕ) : Prop :=
  match p.reservations.lookup mac with
  | some ip => p.ClearFor ip mac now
  | none =>
    match p.recordedActive mac now with
    | some ip => p.inRange ip = true ∧ p.reservedForOther ip mac = false ∧ p.ClearFor ip mac now
    | none => True

/-- The offer of a client is honoured: `commit` grants the very address, no
other client's lease runs there, and a REQUEST for it is acknowledged. -/
def OfferHonoured (p : LeasePool) (mac : Mac) (requested : Option Ipv4Addr) (now : ℕ) : Prop :=
  ∀ ip, p.offer mac requested now = some ip →
    (∀ hostname secs, ∃ l p', p.commit mac ip hostname now secs = .ok (l, p') ∧ l.ip = ip) ∧
    p.leasedToOther ip mac now = false ∧
    ∀ cfg req, IsRequestOf req .request → req.chaddr = mac → forOtherServer cfg req = false →
      wanted req = ip → ip.isUnspecified = false → AckedAddress (Dhcp.handle cfg p req now).2 ip

/-- `commit` grants `ip` to `mac`. -/
def Committable (p : LeasePool) (mac : Mac) (ip : Ipv4Addr) (now : ℕ) : Prop :=
  (p.reservedFor mac ip = true ∨ p.inRange ip = true) ∧ p.availableFor ip mac now = true

/-- A REQUEST for a committable address is acknowledged. -/
theorem acked_of_committable {p : LeasePool} {mac : Mac} {ip : Ipv4Addr} {now : ℕ}
    (h : p.Committable mac ip now) {cfg : ServerConfig} {req : DhcpMessage}
    (hreq : IsRequestOf req .request) (hmac : req.chaddr = mac)
    (hsid : forOtherServer cfg req = false) (hw : wanted req = ip)
    (hun : ip.isUnspecified = false) : AckedAddress (Dhcp.handle cfg p req now).2 ip := by
  subst hmac hw
  have hg : Grants cfg p req now := ⟨hreq, hsid, hun, h⟩
  rcases handle_cases cfg p req now with ⟨-, hno, -⟩ | ⟨hrel, -⟩ | ⟨hdec, -⟩ | ⟨-, -, hh⟩
  · exact absurd hg hno
  · exact absurd (hrel.2.symm.trans hreq.2) (by simp)
  · exact absurd (hdec.2.symm.trans hreq.2) (by simp)
  · rw [hh]
    exact (ackedAddress_ackReply_iff hun).2 rfl

/-- An offer is honoured exactly when what is offered can be committed. -/
theorem offerHonoured_iff_committable {p : LeasePool} {mac : Mac} {requested : Option Ipv4Addr}
    {now : ℕ} :
    p.OfferHonoured mac requested now ↔
      ∀ ip, p.offer mac requested now = some ip → p.Committable mac ip now := by
  constructor
  · intro h ip hip
    obtain ⟨l, p', hc, -⟩ := (h ip hip).1 none 0
    exact ⟨(commit_ok hc).1, (commit_ok hc).2.1⟩
  · intro h ip hip
    have hcomm := h ip hip
    refine ⟨fun hostname secs => ?_, (availableFor_iff.1 hcomm.2).2.2.2, ?_⟩
    · obtain ⟨p', hc⟩ := commit_of_available hcomm.1 hcomm.2 hostname secs
      exact ⟨_, p', hc, rfl⟩
    · exact fun cfg req hreq hmac hsid hw hun => acked_of_committable hcomm hreq hmac hsid hw hun

theorem committable_reserved_iff {p : LeasePool} (hp : p.DistinctReservations) {mac : Mac}
    {ip : Ipv4Addr} (hres : p.reservations.lookup mac = some ip) {now : ℕ} :
    p.Committable mac ip now ↔ p.ClearFor ip mac now := by
  have hother : p.reservedForOther ip mac = false := by
    rw [← Bool.not_eq_true, reservedForOther, Table.any_eq_true_iff]
    rintro ⟨m, x, hm, hx⟩
    obtain ⟨rfl, hne⟩ := of_decide_eq_true hx
    exact hne (hp m mac x hm hres)
  have hfor : p.reservedFor mac ip = true := decide_eq_true hres
  simp [Committable, ClearFor, availableFor_iff, hother, hfor]

theorem committable_unreserved_iff {p : LeasePool} {mac : Mac} {ip : Ipv4Addr}
    (hres : p.reservations.lookup mac = none) {now : ℕ} :
    p.Committable mac ip now ↔
      p.inRange ip = true ∧ p.reservedForOther ip mac = false ∧ p.ClearFor ip mac now := by
  have hfor : p.reservedFor mac ip = false := by simp [reservedFor, hres]
  simp [Committable, ClearFor, availableFor_iff, hfor]

/-- The branches of `offer` that look for a free address only yield ones that can be had. -/
theorem committable_of_searched {p : LeasePool} {mac : Mac} {requested : Option Ipv4Addr}
    {now : ℕ} (hres : p.reservations.lookup mac = none)
    (hrec : p.recordedActive mac now = none) {ip : Ipv4Addr}
    (h : p.offer mac requested now = some ip) : p.Committable mac ip now := by
  simp only [offer, hres, hrec] at h
  split at h
  · rename_i req hreq
    obtain ⟨-, hfree⟩ := Option.filter_eq_some_iff.1 hreq
    rw [← Option.some.inj h]
    simp only [Bool.and_eq_true] at hfree
    exact ⟨Or.inr hfree.1, hfree.2⟩
  · have hav := List.find?_some (p := fun ip => p.availableFor ip mac now) h
    exact ⟨Or.inr (mem_addresses (List.mem_of_find?_eq_some h)), hav⟩

end LeasePool

open LeasePool

/-- **Which offers are honoured.**  In every reachable pool, what a client is
offered can be had — and is not another client's running lease — exactly when
its reservation, or without one the address it is recorded at with a running
lease, is clear for it. -/
theorem offer_honoured_iff {p : LeasePool} (hp : p.Reachable) (mac : Mac)
    (requested : Option Ipv4Addr) (now : ℕ) :
    p.OfferHonoured mac requested now ↔ p.OfferClear mac now := by
  rw [offerHonoured_iff_committable]
  cases hres : p.reservations.lookup mac with
  | some ip =>
    have hoff : p.offer mac requested now = some ip := by simp [offer, hres]
    have hclear : p.OfferClear mac now ↔ p.ClearFor ip mac now := by simp [OfferClear, hres]
    rw [hclear, ← committable_reserved_iff hp.distinctReservations hres, hoff]
    exact ⟨fun h => h ip rfl, fun h x hx => Option.some.inj hx ▸ h⟩
  | none =>
    cases hrec : p.recordedActive mac now with
    | some ip =>
      have hoff : p.offer mac requested now = some ip := by simp [offer, hres, hrec]
      have hclear : p.OfferClear mac now ↔ p.inRange ip = true ∧
          p.reservedForOther ip mac = false ∧ p.ClearFor ip mac now := by
        simp [OfferClear, hres, hrec]
      rw [hclear, ← committable_unreserved_iff hres, hoff]
      exact ⟨fun h => h ip rfl, fun h x hx => Option.some.inj hx ▸ h⟩
    | none =>
      have hclear : p.OfferClear mac now := by simp [OfferClear, hres, hrec]
      exact ⟨fun _ => hclear, fun _ ip hip => committable_of_searched hres hrec hip⟩

/-! ## An offer that is refused -/

namespace Example

/-- The pool after a successful `commit`, else the pool as it was. -/
def committed (p : LeasePool) (mac : Mac) (ip : Ipv4Addr) (now secs : ℕ) : LeasePool :=
  match p.commit mac ip none now secs with
  | .ok (_, p') => p'
  | .error _ => p

/-- `a` held `.10` until 200 and `b` holds it since 250. -/
def takenOver : LeasePool :=
  committed (committed (.new first last) (client 10) ⟨192, 168, 1, 10⟩ 100 100)
    (client 11) ⟨192, 168, 1, 10⟩ 250 100

end Example

open Example

theorem reachable_committed {p : LeasePool} (hp : p.Reachable) (mac : Mac) (ip : Ipv4Addr)
    (now secs : ℕ) : (committed p mac ip now secs).Reachable := by
  unfold committed
  split
  · rename_i l p' hc
    exact .commit hp hc
  · exact hp

/-- **A refused offer.**  `a` is offered the address that `b` leases, because `a`
is still recorded there, and the REQUEST for it is refused. -/
theorem stale_offer_refused :
    takenOver.Reachable ∧ takenOver.offer (client 10) none 260 = some ⟨192, 168, 1, 10⟩ ∧
      takenOver.leasedToOther ⟨192, 168, 1, 10⟩ (client 10) 260 = true ∧
      ¬ takenOver.OfferHonoured (client 10) none 260 := by
  refine ⟨reachable_committed (reachable_committed (.new _ _) ..) .., by decide, by decide, ?_⟩
  intro h
  have := (h ⟨192, 168, 1, 10⟩ (by decide)).2.1
  revert this
  decide

/-- In the same pool the offer to `b`, and the one to a newcomer, are honoured. -/
theorem takenOver_offers_honoured :
    takenOver.OfferHonoured (client 11) none 260 ∧
      takenOver.OfferHonoured (client 12) (some ⟨192, 168, 1, 11⟩) 260 := by
  have hp : takenOver.Reachable := reachable_committed (reachable_committed (.new _ _) ..) ..
  refine ⟨(offer_honoured_iff hp ..).2 ?_, (offer_honoured_iff hp ..).2 ?_⟩
  · exact ⟨by decide, by decide, by decide, by decide, by decide⟩
  · exact trivial

end Ferrite.Dhcp
