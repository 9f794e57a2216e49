import Ferrite.Lib.Table
import Ferrite.Core.Net

/-!
# The lease pool

The in-memory allocator of `dhcp/src/lease.rs`: a contiguous IPv4 range, static
reservations, and the live lease table kept twice over — `byIp` holds the leases,
`byMac` remembers the address each client was last given.  Times are unix seconds
and are passed in.

The two maps are written by different operations and leases expire without
being swept, so an entry of `byMac` can outlive the lease it pointed at.  What
does hold in every state reached by `commit`, `release` and the sweeps is
`Mirrored`: a lease sits at its own address and the client it belongs to is
recorded there (`commit_mirrored`, `release_mirrored`, `pruneExpired_mirrored`).
The converse fails, and `staleEntry` names the failure: a client recorded at an
address that another client's running lease holds.
-/

namespace Ferrite.Dhcp

/-- `u64::MAX`. -/
def u64Max : ℕ := 2 ^ 64 - 1

/-- `u64::saturating_add`. -/
def saturatingAdd (a b : ℕ) : ℕ := min (a + b) u64Max

theorem saturatingAdd_mono {a b c : ℕ} (h : a ≤ b) : saturatingAdd a c ≤ saturatingAdd b c :=
  min_le_min (by omega) le_rfl

/-- A bound address: which client holds it, until when, and the name it reported. -/
structure Lease where
  ip : Ipv4Addr
  mac : Mac
  hostname : Option String
  expiresAt : ℕ
deriving DecidableEq, Repr

/-- `Lease::is_active`. -/
def Lease.isActive (l : Lease) (now : ℕ) : Bool := decide (now < l.expiresAt)

@[simp] theorem Lease.isActive_iff {l : Lease} {now : ℕ} :
    l.isActive now = true ↔ now < l.expiresAt := decide_eq_true_iff

/-- Why `commit` refuses. -/
inductive LeaseError where
  | conflict
  | outOfRange
deriving DecidableEq, Repr

/-- A contiguous pool, the static reservations and the live lease table. -/
structure LeasePool where
  start : UInt32
  stop : UInt32
  reservations : Table Mac Ipv4Addr
  byIp : Table Ipv4Addr Lease
  byMac : Table Mac Ipv4Addr
  held : Table Ipv4Addr ℕ
  seen : Table Ipv4Addr Mac

namespace LeasePool

/-! ## The operations -/

/-- `LeasePool::new`: a pool spanning `start..=stop`. -/
def new (start stop : UInt32) : LeasePool where
  start := start
  stop := stop
  reservations := ∅
  byIp := ∅
  byMac := ∅
  held := ∅
  seen := ∅

/-- `hold`: keep `ip` out of offers until a time. -/
def hold (p : LeasePool) (ip : Ipv4Addr) (till : ℕ) : LeasePool :=
  { p with held := p.held.insert ip till }

/-- `set_seen`: the addresses in use on the network right now, and by whom. -/
def setSeen (p : LeasePool) (seen : Table Ipv4Addr Mac) : LeasePool := { p with seen := seen }

/-- `seen_elsewhere`: is `ip` in use by another device? -/
def seenElsewhere (p : LeasePool) (ip : Ipv4Addr) (mac : Mac) : Bool :=
  (p.seen.lookup ip).any (· ≠ mac)

/-- `reserve`: add a static MAC→IP reservation. -/
def reserve (p : LeasePool) (mac : Mac) (ip : Ipv4Addr) : LeasePool :=
  { p with reservations := p.reservations.insert mac ip }

/-- `in_range`. -/
def inRange (p : LeasePool) (ip : Ipv4Addr) : Bool :=
  decide (p.start.toNat ≤ ip.toU32 ∧ ip.toU32 ≤ p.stop.toNat)

/-- Some other client has `ip` reserved. -/
def reservedForOther (p : LeasePool) (ip : Ipv4Addr) (mac : Mac) : Bool :=
  p.reservations.any fun resMac resIp => resIp = ip ∧ resMac ≠ mac

/-- A hold on `ip` is still running. -/
def heldAt (p : LeasePool) (ip : Ipv4Addr) (now : ℕ) : Bool :=
  (p.held.lookup ip).any (now < ·)

/-- A running lease for a different client holds `ip`. -/
def leasedToOther (p : LeasePool) (ip : Ipv4Addr) (mac : Mac) (now : ℕ) : Bool :=
  (p.byIp.lookup ip).any fun l => l.isActive now && l.mac ≠ mac

/-- `available_for`: is `ip` free to give to `mac`? -/
def availableFor (p : LeasePool) (ip : Ipv4Addr) (mac : Mac) (now : ℕ) : Bool :=
  if p.reservedForOther ip mac then false
  else if p.heldAt ip now || p.seenElsewhere ip mac then false
  else !p.leasedToOther ip mac now

/-- The addresses `start..=stop`, in order. -/
def addresses (p : LeasePool) : List Ipv4Addr :=
  (List.range' p.start.toNat (p.stop.toNat + 1 - p.start.toNat)).map Ipv4Addr.ofU32

/-- The address `byMac` has for a client, when a running lease sits there. -/
def recordedActive (p : LeasePool) (mac : Mac) (now : ℕ) : Option Ipv4Addr :=
  (p.byMac.lookup mac).filter fun ip => (p.byIp.lookup ip).any (·.isActive now)

/-- `offer`: the address to OFFER `mac`, without committing it — its
reservation, else its running lease, else the address it asks for, else the
lowest free one. -/
def offer (p : LeasePool) (mac : Mac) (requested : Option Ipv4Addr) (now : ℕ) :
    Option Ipv4Addr :=
  match p.reservations.lookup mac with
  | some ip => some ip
  | none =>
    match p.recordedActive mac now with
    | some ip => some ip
    | none =>
      match requested.filter fun req => p.inRange req && p.availableFor req mac now with
      | some req => some req
      | none => p.addresses.find? fun ip => p.availableFor ip mac now

/-- The reservation of `mac` is `ip`. -/
def reservedFor (p : LeasePool) (mac : Mac) (ip : Ipv4Addr) : Bool :=
  p.reservations.lookup mac = some ip

/-- The lease table once the client's earlier lease, at another address, is dropped. -/
def dropMoved (p : LeasePool) (mac : Mac) (ip : Ipv4Addr) : Table Ipv4Addr Lease :=
  match p.byMac.lookup mac with
  | some old => if old ≠ ip then p.byIp.erase old else p.byIp
  | none => p.byIp

/-- `commit`: bind `ip` to `mac` for `leaseSecs`.  A refusal changes nothing. -/
def commit (p : LeasePool) (mac : Mac) (ip : Ipv4Addr) (hostname : Option String)
    (now leaseSecs : ℕ) : Except LeaseError (Lease × LeasePool) :=
  if !p.reservedFor mac ip && !p.inRange ip then .error .outOfRange
  else if !p.availableFor ip mac now then .error .conflict
  else
    let lease : Lease := ⟨ip, mac, hostname, saturatingAdd now leaseSecs⟩
    .ok (lease, { p with
      byIp := (p.dropMoved mac ip).insert ip lease
      byMac := p.byMac.insert mac ip })

/-- `restore`: re-insert a persisted lease verbatim; an expired one is skipped. -/
def restore (p : LeasePool) (mac : Mac) (ip : Ipv4Addr) (hostname : Option String)
    (expiresAt now : ℕ) : LeasePool :=
  if expiresAt ≤ now then p
  else { p with
    byIp := p.byIp.insert ip ⟨ip, mac, hostname, expiresAt⟩
    byMac := p.byMac.insert mac ip }

/-- `release`: drop the client's record and whatever lease sits at its address. -/
def release (p : LeasePool) (mac : Mac) : LeasePool :=
  match p.byMac.lookup mac with
  | some ip => { p with byMac := p.byMac.erase mac, byIp := p.byIp.erase ip }
  | none => p

/-- `lookup_by_mac`: the client's current active lease, if any. -/
def lookupByMac (p : LeasePool) (mac : Mac) (now : ℕ) : Option Lease :=
  ((p.byMac.lookup mac).bind p.byIp.lookup).filter (·.isActive now)

/-- One turn of the sweep: drop the lease at `ip` and its client's record. -/
def dropLease (p : LeasePool) (ip : Ipv4Addr) : LeasePool :=
  match p.byIp.lookup ip with
  | some l => { p with byIp := p.byIp.erase ip, byMac := p.byMac.erase l.mac }
  | none => p

/-- The addresses of the leases that have run out. -/
def deadAddresses (p : LeasePool) (now : ℕ) : List Ipv4Addr :=
  (p.byIp.values.filter (!·.isActive now)).map Lease.ip

/-- `prune_expired`: drop expired holds and leases; how many leases went. -/
def pruneExpired (p : LeasePool) (now : ℕ) : LeasePool × ℕ :=
  let swept : LeasePool := { p with held := p.held.retain fun _ till => now < till }
  ((swept.deadAddresses now).foldl dropLease swept, (swept.deadAddresses now).length)

/-- `active_leases`. -/
def activeLeases (p : LeasePool) (now : ℕ) : List Lease := p.byIp.values.filter (·.isActive now)

/-! ## What an operation leaves in the tables -/

theorem availableFor_iff {p : LeasePool} {ip : Ipv4Addr} {mac : Mac} {now : ℕ} :
    p.availableFor ip mac now = true ↔
      p.reservedForOther ip mac = false ∧ p.heldAt ip now = false ∧
        p.seenElsewhere ip mac = false ∧ p.leasedToOther ip mac now = false := by
  simp only [availableFor]
  cases p.reservedForOther ip mac <;> cases p.heldAt ip now <;> cases p.seenElsewhere ip mac <;>
    simp

theorem leasedToOther_iff {p : LeasePool} {ip : Ipv4Addr} {mac : Mac} {now : ℕ} :
    p.leasedToOther ip mac now = true ↔
      ∃ l, p.byIp.lookup ip = some l ∧ now < l.expiresAt ∧ l.mac ≠ mac := by
  simp [leasedToOther, Option.any_eq_true]

theorem mem_activeLeases {p : LeasePool} {now : ℕ} {l : Lease} :
    l ∈ p.activeLeases now ↔ (∃ ip, p.byIp.lookup ip = some l) ∧ now < l.expiresAt := by
  rw [activeLeases, List.mem_filter, Table.mem_values_iff, Lease.isActive_iff]

theorem mem_addresses {p : LeasePool} {ip : Ipv4Addr} (h : ip ∈ p.addresses) :
    p.inRange ip = true := by
  obtain ⟨v, hv, rfl⟩ := List.mem_map.1 h
  rw [List.mem_range'_1] at hv
  have hstop := p.stop.toNat_lt
  rw [inRange, Ipv4Addr.toU32_ofU32 (by omega)]
  exact decide_eq_true ⟨hv.1, by omega⟩

theorem lookup_dropMoved (p : LeasePool) (mac : Mac) (ip x : Ipv4Addr) :
    (p.dropMoved mac ip).lookup x =
      if p.byMac.lookup mac = some x ∧ x ≠ ip then none else p.byIp.lookup x := by
  unfold dropMoved
  cases h : p.byMac.lookup mac with
  | none => simp
  | some old =>
    by_cases hne : old = ip
    · subst hne
      by_cases hx : old = x <;> simp [hx]
    · by_cases hx : x = old
      · subst hx
        simp [hne]
      · have hx' : ¬ old = x := fun h => hx h.symm
        simp [hne, hx', hx]

/-- Everything a successful `commit` did. -/
theorem commit_ok {p p' : LeasePool} {mac : Mac} {ip : Ipv4Addr} {hostname : Option String}
    {now secs : ℕ} {l : Lease} (h : p.commit mac ip hostname now secs = .ok (l, p')) :
    (p.reservedFor mac ip = true ∨ p.inRange ip = true) ∧ p.availableFor ip mac now = true ∧
      l = ⟨ip, mac, hostname, saturatingAdd now secs⟩ ∧
      p' = { p with
        byIp := (p.dropMoved mac ip).insert ip ⟨ip, mac, hostname, saturatingAdd now secs⟩
        byMac := p.byMac.insert mac ip } := by
  unfold commit at h
  split at h
  · cases h
  · rename_i hrange
    split at h
    · cases h
    · rename_i hav
      simp only [Except.ok.injEq, Prod.mk.injEq] at h
      refine ⟨?_, by simpa using hav, h.1.symm, h.2.symm⟩
      cases hr : p.reservedFor mac ip <;> simp_all

/-- `commit` grants an address that may be the client's and is free. -/
theorem commit_of_available {p : LeasePool} {mac : Mac} {ip : Ipv4Addr}
    (hr : p.reservedFor mac ip = true ∨ p.inRange ip = true) {now : ℕ}
    (hav : p.availableFor ip mac now = true) (hostname : Option String) (secs : ℕ) :
    ∃ p', p.commit mac ip hostname now secs =
      .ok (⟨ip, mac, hostname, saturatingAdd now secs⟩, p') := by
  unfold commit
  rw [if_neg (by rcases hr with h | h <;> simp [h]), if_neg (by simp [hav])]
  exact ⟨_, rfl⟩

/-- The lease table after a successful `commit`. -/
theorem lookup_byIp_commit {p p' : LeasePool} {mac : Mac} {ip : Ipv4Addr}
    {hostname : Option String} {now secs : ℕ} {l : Lease}
    (h : p.commit mac ip hostname now secs = .ok (l, p')) (x : Ipv4Addr) :
    p'.byIp.lookup x =
      if x = ip then some l
      else if p.byMac.lookup mac = some x then none else p.byIp.lookup x := by
  obtain ⟨-, -, rfl, rfl⟩ := commit_ok h
  simp only [Table.lookup_insert_eq, lookup_dropMoved]
  by_cases hx : x = ip <;> simp [hx]

theorem lookup_byMac_commit {p p' : LeasePool} {mac : Mac} {ip : Ipv4Addr}
    {hostname : Option String} {now secs : ℕ} {l : Lease}
    (h : p.commit mac ip hostname now secs = .ok (l, p')) (m : Mac) :
    p'.byMac.lookup m = if m = mac then some ip else p.byMac.lookup m := by
  obtain ⟨-, -, rfl, rfl⟩ := commit_ok h
  exact Table.lookup_insert_eq ..

theorem lookup_byIp_release (p : LeasePool) (mac : Mac) (x : Ipv4Addr) :
    (p.release mac).byIp.lookup x =
      if p.byMac.lookup mac = some x then none else p.byIp.lookup x := by
  unfold release
  cases h : p.byMac.lookup mac with
  | none => simp
  | some ip =>
    simp only [Table.lookup_erase_eq, Option.some.injEq]
    by_cases hx : x = ip
    · simp [hx]
    · rw [if_neg hx, if_neg (fun h => hx h.symm)]

theorem lookup_byMac_release (p : LeasePool) (mac m : Mac) :
    (p.release mac).byMac.lookup m = if m = mac then none else p.byMac.lookup m := by
  unfold release
  cases h : p.byMac.lookup mac with
  | none =>
    by_cases hm : m = mac
    · rw [if_pos hm, hm]
      exact h
    · rw [if_neg hm]
  | some ip => exact Table.lookup_erase_eq ..

theorem lookup_byIp_dropLease (p : LeasePool) (ip x : Ipv4Addr) :
    (p.dropLease ip).byIp.lookup x = if x = ip then none else p.byIp.lookup x := by
  unfold dropLease
  cases h : p.byIp.lookup ip with
  | none =>
    by_cases hx : x = ip
    · rw [if_pos hx, hx]
      exact h
    · rw [if_neg hx]
  | some l => exact Table.lookup_erase_eq ..

theorem lookup_byIp_foldl_dropLease (ds : List Ipv4Addr) (p : LeasePool) (x : Ipv4Addr) :
    (ds.foldl dropLease p).byIp.lookup x = if x ∈ ds then none else p.byIp.lookup x := by
  induction ds generalizing p with
  | nil => simp
  | cons d ds ih =>
    rw [List.foldl_cons, ih, lookup_byIp_dropLease]
    by_cases hd : x = d
    · simp [hd]
    · simp [hd]

/-! ## The lease table and its mirror -/

/-- Every lease sits at its own address. -/
def AtOwnAddress (p : LeasePool) : Prop := ∀ ip l, p.byIp.lookup ip = some l → l.ip = ip

/-- Every lease sits at its own address, and its client is recorded there. -/
structure Mirrored (p : LeasePool) : Prop where
  ip_eq : p.AtOwnAddress
  recorded : ∀ ip l, p.byIp.lookup ip = some l → p.byMac.lookup l.mac = some ip

/-- The client is recorded at an address that a running lease of another client
holds: the record outlived the lease it mirrored. -/
def staleEntry (p : LeasePool) (mac : Mac) (now : ℕ) : Bool :=
  (p.byMac.lookup mac).any fun ip => p.leasedToOther ip mac now

theorem new_mirrored (start stop : UInt32) : (new start stop).Mirrored :=
  ⟨fun ip l h => by simp [new] at h, fun ip l h => by simp [new] at h⟩

/-- What does not touch the two maps keeps the mirror. -/
theorem Mirrored.congr {p q : LeasePool} (h : p.Mirrored) (hip : q.byIp = p.byIp)
    (hmac : q.byMac = p.byMac) : q.Mirrored :=
  ⟨fun ip l hl => h.ip_eq ip l (hip ▸ hl), fun ip l hl => by
    rw [hmac]
    exact h.recorded ip l (hip ▸ hl)⟩

theorem commit_mirrored {p p' : LeasePool} (hp : p.Mirrored) {mac : Mac} {ip : Ipv4Addr}
    {hostname : Option String} {now secs : ℕ} {l : Lease}
    (h : p.commit mac ip hostname now secs = .ok (l, p')) : p'.Mirrored := by
  obtain ⟨-, -, hl, -⟩ := commit_ok h
  constructor
  · intro x m hm
    rw [lookup_byIp_commit h] at hm
    split at hm
    · rename_i hx
      rw [← Option.some.inj hm, hl, hx]
    · split at hm
      · cases hm
      · exact hp.ip_eq x m hm
  · intro x m hm
    rw [lookup_byIp_commit h] at hm
    rw [lookup_byMac_commit h]
    split at hm
    · rename_i hx
      rw [← Option.some.inj hm, hl, if_pos rfl, hx]
    · split at hm
      · cases hm
      · -- a surviving lease of the same client would be the one just dropped
        rename_i _ hold
        have hrec := hp.recorded x m hm
        rw [if_neg (by rintro rfl; exact hold hrec)]
        exact hrec

theorem release_mirrored {p : LeasePool} (hp : p.Mirrored) (mac : Mac) :
    (p.release mac).Mirrored := by
  constructor
  · intro x m hm
    rw [lookup_byIp_release] at hm
    split at hm
    · cases hm
    · exact hp.ip_eq x m hm
  · intro x m hm
    rw [lookup_byIp_release] at hm
    split at hm
    · cases hm
    · rename_i hold
      have hrec := hp.recorded x m hm
      rw [lookup_byMac_release, if_neg (by rintro rfl; exact hold hrec)]
      exact hrec

theorem dropLease_mirrored {p : LeasePool} (hp : p.Mirrored) (ip : Ipv4Addr) :
    (p.dropLease ip).Mirrored := by
  constructor
  · intro x m hm
    rw [lookup_byIp_dropLease] at hm
    split at hm
    · cases hm
    · exact hp.ip_eq x m hm
  · intro x m hm
    rw [lookup_byIp_dropLease] at hm
    split at hm
    · cases hm
    · rename_i hx
      have hrec := hp.recorded x m hm
      unfold dropLease
      cases hl : p.byIp.lookup ip with
      | none => exact hrec
      | some l =>
        have hl' := hp.recorded ip l hl
        simp only [Table.lookup_erase_eq]
        rw [if_neg]
        · exact hrec
        · intro heq
          rw [heq, hl'] at hrec
          exact hx (Option.some.inj hrec).symm

theorem pruneExpired_mirrored {p : LeasePool} (hp : p.Mirrored) (now : ℕ) :
    (p.pruneExpired now).1.Mirrored := by
  have key : ∀ (ds : List Ipv4Addr) (q : LeasePool), q.Mirrored →
      (ds.foldl dropLease q).Mirrored := by
    intro ds
    induction ds with
    | nil => exact fun q hq => hq
    | cons d ds ih => exact fun q hq => ih _ (dropLease_mirrored hq d)
  exact key _ _ (hp.congr rfl rfl)

/-- The sweep keeps exactly the leases still running. -/
theorem lookup_byIp_pruneExpired {p : LeasePool} (hp : p.AtOwnAddress) (now : ℕ)
    (x : Ipv4Addr) :
    (p.pruneExpired now).1.byIp.lookup x = (p.byIp.lookup x).filter (·.isActive now) := by
  have hdead : ∀ y, y ∈ p.deadAddresses now ↔
      ∃ l, p.byIp.lookup y = some l ∧ l.isActive now = false := by
    intro y
    simp only [deadAddresses, List.mem_map, List.mem_filter, Table.mem_values_iff,
      Bool.not_eq_true']
    constructor
    · rintro ⟨l, ⟨⟨k, hk⟩, hdead⟩, rfl⟩
      rw [hp k l hk]
      exact ⟨l, hk, hdead⟩
    · rintro ⟨l, hl, hdead⟩
      exact ⟨l, ⟨⟨y, hl⟩, hdead⟩, hp y l hl⟩
  have hlook : (p.pruneExpired now).1.byIp.lookup x =
      if x ∈ p.deadAddresses now then none else p.byIp.lookup x :=
    lookup_byIp_foldl_dropLease ..
  rw [hlook]
  cases hl : p.byIp.lookup x with
  | none => simp
  | some l =>
    cases hact : l.isActive now with
    | true =>
      rw [if_neg, Option.filter_some_pos (by simpa using hact)]
      rw [hdead]
      rintro ⟨l', hl', hd⟩
      rw [hl] at hl'
      rw [Option.some.inj hl', hd] at hact
      cases hact
    | false =>
      rw [if_pos ((hdead x).2 ⟨l, hl, hact⟩), Option.filter_some_neg (by simpa using hact)]

end LeasePool

end Ferrite.Dhcp
