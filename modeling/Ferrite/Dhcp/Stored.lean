import Ferrite.Lib.Mealy
import Ferrite.Dhcp.Server

/-!
# The stored leases and the live ones

The `dhcp_leases` table is what a restart rebuilds the pool from, so its running
rows should be the running leases.  They are written separately: the pool drops
the lease at the address the sender is *recorded* at (`Drops`), the table the row
at the `ciaddr` of a RELEASE (`Unlists`).  A DECLINE, a RELEASE without `ciaddr`
or a REQUEST that moves a client to another address changes the pool and publishes
nothing; `moved_client_keeps_old_row` is such a run.

What is proved about every run of the service:

* `Follows` — the invariant: address by address, the row still running is the row
  of the lease still running;
* `handle_follows_iff` — a message keeps it exactly when, at every address with a
  running lease, the pool drops the lease iff the table drops the row, and the
  lease it grants can be stored and restored;
* `store_follows_of_keeps_in_step` — in a run whose steps all do, the stored rows
  are the active leases after every prefix of it, and a pool restored from them
  has the same active lease for every client.
-/

namespace Ferrite.Dhcp

open Mealy

/-! ## The invariant -/

/-- A lease survives the way into the table and back: its end fits an `i64` and
its address lies in the server's subnet. -/
def Storable (cfg : ServerConfig) (l : Lease) : Prop :=
  l.expiresAt < 2 ^ 63 ∧ sameSubnet l.ip cfg.serverIp cfg.subnetMask = true

instance (cfg : ServerConfig) (l : Lease) : Decidable (Storable cfg l) :=
  inferInstanceAs (Decidable (_ ∧ _))

/-- Every row sits at the text of its address. -/
def Keyed (store : LeaseTable) : Prop :=
  ∀ k r, store.lookup k = some r → r.ip = k ∧ ∃ x : Ipv4Addr, k = x.toText

/-- From `now` on the stored rows follow the pool. -/
structure Follows (cfg : ServerConfig) (pool : LeasePool) (store : LeaseTable) (now : ℕ) :
    Prop where
  mirrored : pool.Mirrored
  keyed : Keyed store
  rows : ∀ (x : Ipv4Addr) r, (store.lookup x.toText = some r ∧ (now : ℤ) < r.expiresAt) ↔
    ∃ l, pool.byIp.lookup x = some l ∧ now < l.expiresAt ∧ rowOf l = r
  storable : ∀ x l, pool.byIp.lookup x = some l → now < l.expiresAt → Storable cfg l

theorem asI64_of_lt {n : ℕ} (h : n < 2 ^ 63) : asI64 n = n := if_pos h

theorem asI64_le (n : ℕ) : asI64 n ≤ n := by
  unfold asI64
  split <;> omega

theorem expiresAt_rowOf {cfg : ServerConfig} {l : Lease} (h : Storable cfg l) :
    (rowOf l).expiresAt = l.expiresAt := asI64_of_lt h.1

/-- The invariant lasts while nothing happens. -/
theorem Follows.mono {cfg : ServerConfig} {pool : LeasePool} {store : LeaseTable} {s t : ℕ}
    (h : Follows cfg pool store s) (hst : s ≤ t) : Follows cfg pool store t where
  mirrored := h.mirrored
  keyed := h.keyed
  rows := by
    intro x r
    constructor
    · rintro ⟨hr, hrun⟩
      obtain ⟨l, hl, hact, rfl⟩ := (h.rows x r).1 ⟨hr, by omega⟩
      rw [expiresAt_rowOf (h.storable x l hl hact)] at hrun
      exact ⟨l, hl, by omega, rfl⟩
    · rintro ⟨l, hl, hact, rfl⟩
      obtain ⟨hr, -⟩ := (h.rows x (rowOf l)).2 ⟨l, hl, by omega, rfl⟩
      refine ⟨hr, ?_⟩
      rw [expiresAt_rowOf (h.storable x l hl (by omega))]
      omega
  storable := fun x l hl hact => h.storable x l hl (by omega)

/-- A stored row that still runs is the row of an active lease, and the other way round. -/
theorem Follows.row_iff {cfg : ServerConfig} {pool : LeasePool} {store : LeaseTable} {t : ℕ}
    (h : Follows cfg pool store t) {r : StoredLease} :
    (r ∈ store.values ∧ (t : ℤ) < r.expiresAt) ↔ ∃ l ∈ pool.activeLeases t, rowOf l = r := by
  rw [Table.mem_values_iff]
  constructor
  · rintro ⟨⟨k, hk⟩, hrun⟩
    obtain ⟨-, x, rfl⟩ := h.keyed k r hk
    obtain ⟨l, hl, hact, hrow⟩ := (h.rows x r).1 ⟨hk, hrun⟩
    exact ⟨l, LeasePool.mem_activeLeases.2 ⟨⟨x, hl⟩, hact⟩, hrow⟩
  · rintro ⟨l, hl, hrow⟩
    obtain ⟨⟨x, hx⟩, hact⟩ := LeasePool.mem_activeLeases.1 hl
    obtain ⟨hr, hrun⟩ := (h.rows x r).2 ⟨l, hx, hact, hrow⟩
    exact ⟨⟨_, hr⟩, hrun⟩

/-! ## A message -/

/-- The message keeps the table in step with the pool from `t` on: at every address
with a running lease the pool drops the lease iff the table drops the row, and a
lease it grants can be stored. -/
def KeepsInStep (cfg : ServerConfig) (pool : LeasePool) (req : DhcpMessage) (now t : ℕ) :
    Prop :=
  (∀ x l, pool.byIp.lookup x = some l → t < l.expiresAt →
    ¬ (Grants cfg pool req now ∧ x = wanted req) →
    (Drops cfg pool req now x ↔ Unlists req x)) ∧
  (Grants cfg pool req now → t < (grantedLease cfg req now).expiresAt →
    Storable cfg (grantedLease cfg req now))

instance (cfg : ServerConfig) (pool : LeasePool) (req : DhcpMessage) (now t : ℕ) :
    Decidable (KeepsInStep cfg pool req now t) :=
  decidable_of_iff ((∀ e ∈ pool.byIp.entries, t < e.2.expiresAt →
      ¬ (Grants cfg pool req now ∧ e.1 = wanted req) →
      (Drops cfg pool req now e.1 ↔ Unlists req e.1)) ∧
    (Grants cfg pool req now → t < (grantedLease cfg req now).expiresAt →
      Storable cfg (grantedLease cfg req now)))
    (and_congr_left' ⟨fun h x l hl => h ⟨x, l⟩ (Table.mem_entries_iff.2 hl),
      fun h e he => h e.1 e.2 (Table.mem_entries_iff.1 he)⟩)

theorem keyed_consume {t : LeaseTable} (h : Keyed t) (events : List LeaseEvent) :
    Keyed (consume t events) := by
  induction events generalizing t with
  | nil => exact h
  | cons e events ih =>
    refine ih ?_
    intro k r hk
    cases e with
    | committed mac ip hostname expiresAt =>
      rw [consumeEvent, Table.lookup_insert_eq] at hk
      split at hk
      · rename_i hkey
        rw [← Option.some.inj hk, hkey]
        exact ⟨rfl, ip, rfl⟩
      · exact h k r hk
    | released ip =>
      rw [consumeEvent, Table.lookup_erase_eq] at hk
      split at hk
      · cases hk
      · exact h k r hk

/-- **A message keeps the table in step with the pool exactly when it drops the
same addresses from both** and grants what can be stored. -/
theorem handle_follows_iff {cfg : ServerConfig} {pool : LeasePool} {store : LeaseTable}
    {t : ℕ} (h : Follows cfg pool store t) (req : DhcpMessage) (now : ℕ) :
    Follows cfg (handle cfg pool req now).1
        (consume store (leaseEvents cfg req (handle cfg pool req now).2 now)) t ↔
      KeepsInStep cfg pool req now t := by
  have hpool := lookup_byIp_handle cfg pool req now
  have hstore := lookup_consume cfg pool req now store
  constructor
  · intro h'
    constructor
    · intro x l hl hact hne
      have hrows := h'.rows x (rowOf l)
      have hold := (h.rows x (rowOf l)).2 ⟨l, hl, hact, rfl⟩
      rw [hpool, hstore, if_neg hne, if_neg hne] at hrows
      by_cases hd : Drops cfg pool req now x <;> by_cases hu : Unlists req x <;>
        simp_all
    · intro hg hact
      refine h'.storable (wanted req) _ ?_ hact
      rw [hpool, if_pos ⟨hg, rfl⟩]
  · rintro ⟨hdrop, hgrant⟩
    refine ⟨handle_mirrored cfg h.mirrored req now, keyed_consume h.keyed _, ?_, ?_⟩
    · intro x r
      rw [hpool, hstore]
      by_cases hx : Grants cfg pool req now ∧ x = wanted req
      · rw [if_pos hx, if_pos hx]
        constructor
        · rintro ⟨hr, hrun⟩
          rw [← Option.some.inj hr] at hrun
          have hle := asI64_le (grantedLease cfg req now).expiresAt
          exact ⟨_, rfl, by exact_mod_cast hrun.trans_le hle, Option.some.inj hr⟩
        · rintro ⟨l, hl, hact, rfl⟩
          rw [← Option.some.inj hl] at hact ⊢
          refine ⟨rfl, ?_⟩
          rw [expiresAt_rowOf (hgrant hx.1 hact)]
          exact_mod_cast hact
      · rw [if_neg hx, if_neg hx]
        constructor
        · rintro ⟨hr, hrun⟩
          split at hr
          · cases hr
          · rename_i hu
            obtain ⟨l, hl, hact, hrow⟩ := (h.rows x r).1 ⟨hr, hrun⟩
            rw [if_neg (mt (hdrop x l hl hact hx).1 hu)]
            exact ⟨l, hl, hact, hrow⟩
        · rintro ⟨l, hl, hact, hrow⟩
          split at hl
          · cases hl
          · rename_i hd
            rw [if_neg (mt (hdrop x l hl hact hx).2 hd)]
            exact (h.rows x r).2 ⟨l, hl, hact, hrow⟩
    · intro x l hl hact
      rw [hpool] at hl
      split at hl
      · rename_i hx
        rw [← Option.some.inj hl] at hact ⊢
        exact hgrant hx.1 hact
      · split at hl
        · cases hl
        · exact h.storable x l hl hact

/-! ## A restart -/

/-- The lease a stored row is restored as, if it is. -/
def readRow (cfg : ServerConfig) (now : ℕ) (row : StoredLease) : Option Lease :=
  match parseIpv4 row.ip, parseMac row.mac with
  | some ip, some mac =>
    if sameSubnet ip cfg.serverIp cfg.subnetMask ∧ now < row.expiresAt.toNat then
      some ⟨ip, mac, row.hostname, row.expiresAt.toNat⟩
    else none
  | _, _ => none

/-- A lease and its client's record, put into a pool. -/
def LeasePool.put (p : LeasePool) (l : Lease) : LeasePool :=
  { p with byIp := p.byIp.insert l.ip l, byMac := p.byMac.insert l.mac l.ip }

theorem restoreRow_eq (cfg : ServerConfig) (now : ℕ) (p : LeasePool) (row : StoredLease) :
    restoreRow cfg now p row = ((readRow cfg now row).elim p p.put) := by
  unfold restoreRow readRow
  cases parseIpv4 row.ip with
  | none => rfl
  | some ip =>
    cases parseMac row.mac with
    | none => rfl
    | some mac =>
      by_cases hs : sameSubnet ip cfg.serverIp cfg.subnetMask = true
      · by_cases hexp : now < row.expiresAt.toNat
        · simp only [hs, hexp, LeasePool.restore, if_pos, if_neg (Nat.not_le.2 hexp), and_self]
          rfl
        · simp only [hs, hexp, LeasePool.restore, if_pos (Nat.not_lt.1 hexp), and_false, if_true,
            if_false]
          rfl
      · simp [hs]

theorem restoreStored_eq (cfg : ServerConfig) (rows : List StoredLease) (now : ℕ)
    (p : LeasePool) :
    restoreStored cfg p rows now = (rows.filterMap (readRow cfg now)).foldl LeasePool.put p := by
  unfold restoreStored
  induction rows generalizing p with
  | nil => rfl
  | cons row rows ih =>
    rw [List.foldl_cons, ih, restoreRow_eq, List.filterMap_cons]
    cases readRow cfg now row <;> rfl

theorem byIp_foldl_put (ls : List Lease) (p : LeasePool) :
    (ls.foldl LeasePool.put p).byIp = ls.foldl (fun t l => t.insert l.ip l) p.byIp := by
  induction ls generalizing p with
  | nil => rfl
  | cons l ls ih => exact ih _

theorem byMac_foldl_put (ls : List Lease) (p : LeasePool) :
    (ls.foldl LeasePool.put p).byMac = ls.foldl (fun t l => t.insert l.mac l.ip) p.byMac := by
  induction ls generalizing p with
  | nil => rfl
  | cons l ls ih => exact ih _

/-- A storable lease reads back from its row as long as it runs. -/
theorem readRow_rowOf {cfg : ServerConfig} {l : Lease} (h : Storable cfg l) {now : ℕ}
    (hact : now < l.expiresAt) : readRow cfg now (rowOf l) = some l := by
  have hexp : (rowOf l).expiresAt.toNat = l.expiresAt := by
    rw [expiresAt_rowOf h, Int.toNat_natCast]
  simp only [readRow, hexp]
  simp [rowOf, parseIpv4_toText, parseMac_formatMac, h.2, hact]

theorem runs_of_readRow {cfg : ServerConfig} {now : ℕ} {row : StoredLease} {l : Lease}
    (h : readRow cfg now row = some l) : (now : ℤ) < row.expiresAt := by
  unfold readRow at h
  split at h
  · split at h
    · omega
    · cases h
  · cases h

/-- The rows of a table that follows a pool are read back as its active leases. -/
theorem Follows.mem_readRow_iff {cfg : ServerConfig} {pool : LeasePool} {store : LeaseTable}
    {t : ℕ} (h : Follows cfg pool store t) {rows : List StoredLease}
    (hrows : rows.Perm store.values) (l : Lease) :
    l ∈ rows.filterMap (readRow cfg t) ↔ l ∈ pool.activeLeases t := by
  have hstor : ∀ m ∈ pool.activeLeases t, readRow cfg t (rowOf m) = some m := by
    intro m hm
    obtain ⟨⟨x, hx⟩, hact⟩ := LeasePool.mem_activeLeases.1 hm
    exact readRow_rowOf (h.storable x m hx hact) hact
  rw [List.mem_filterMap]
  constructor
  · rintro ⟨row, hrow, hl⟩
    obtain ⟨m, hm, rfl⟩ := h.row_iff.1 ⟨hrows.mem_iff.1 hrow, runs_of_readRow hl⟩
    rw [hstor m hm] at hl
    rwa [← Option.some.inj hl]
  · intro hl
    exact ⟨rowOf l, hrows.mem_iff.2 (h.row_iff.2 ⟨l, hl, rfl⟩).1, hstor l hl⟩

theorem pairwise_ip_values {store : LeaseTable} (h : Keyed store) :
    store.values.Pairwise fun a b => a.ip ≠ b.ip := by
  have hkeys : store.entries.Pairwise fun a b => a.1 ≠ b.1 := List.pairwise_map.1 store.nodupKeys
  refine List.pairwise_map.2 (hkeys.imp_of_mem ?_)
  intro a b ha hb hne heq
  have hka := (h a.1 a.2 (Table.mem_entries_iff.1 ha)).1
  have hkb := (h b.1 b.2 (Table.mem_entries_iff.1 hb)).1
  exact hne (hka.symm.trans (heq.trans hkb))

/-- The leases read back have distinct addresses and distinct clients. -/
theorem Follows.pairwise_readRow {cfg : ServerConfig} {pool : LeasePool} {store : LeaseTable}
    {t : ℕ} (h : Follows cfg pool store t) {rows : List StoredLease}
    (hrows : rows.Perm store.values) :
    (rows.filterMap (readRow cfg t)).Pairwise fun l m => l.ip ≠ m.ip ∧ l.mac ≠ m.mac := by
  have hip : rows.Pairwise fun a b => a.ip ≠ b.ip :=
    (hrows.pairwise_iff fun h => h.symm).2 (pairwise_ip_values h.keyed)
  -- a row that is read back is the row of the lease it is read back as
  have hread : ∀ row ∈ rows, ∀ l, readRow cfg t row = some l →
      l ∈ pool.activeLeases t ∧ row.ip = l.ip.toText := by
    intro row hrow l hl
    obtain ⟨m, hm, rfl⟩ := h.row_iff.1 ⟨hrows.mem_iff.1 hrow, runs_of_readRow hl⟩
    obtain ⟨⟨x, hx⟩, hact⟩ := LeasePool.mem_activeLeases.1 hm
    rw [readRow_rowOf (h.storable x m hx hact) hact] at hl
    rw [← Option.some.inj hl]
    exact ⟨hm, rfl⟩
  rw [List.pairwise_filterMap]
  refine hip.imp_of_mem ?_
  intro a b ha hb hne l hl m hm
  obtain ⟨hlact, hla⟩ := hread a ha l hl
  obtain ⟨hmact, hmb⟩ := hread b hb m hm
  have hipne : l.ip ≠ m.ip := fun heq => hne (by rw [hla, hmb, heq])
  refine ⟨hipne, fun heq => hipne ?_⟩
  obtain ⟨⟨x, hx⟩, -⟩ := LeasePool.mem_activeLeases.1 hlact
  obtain ⟨⟨y, hy⟩, -⟩ := LeasePool.mem_activeLeases.1 hmact
  have hrx := h.mirrored.recorded x l hx
  have hry := h.mirrored.recorded y m hy
  rw [heq, hry] at hrx
  rw [h.mirrored.ip_eq x l hx, h.mirrored.ip_eq y m hy, Option.some.inj hrx]

/-- **A restored pool**, table by table: the leases still running and their clients. -/
theorem Follows.lookup_restoreStored {cfg : ServerConfig} {pool : LeasePool}
    {store : LeaseTable} {t : ℕ} (h : Follows cfg pool store t) {rows : List StoredLease}
    (hrows : rows.Perm store.values) :
    (∀ x l, (restoreStored cfg pool.fresh rows t).byIp.lookup x = some l ↔
      l ∈ pool.activeLeases t ∧ l.ip = x) ∧
    (∀ mac x, (restoreStored cfg pool.fresh rows t).byMac.lookup mac = some x ↔
      ∃ l ∈ pool.activeLeases t, l.mac = mac ∧ l.ip = x) := by
  have hpair := h.pairwise_readRow hrows
  have hmem := h.mem_readRow_iff hrows
  rw [restoreStored_eq, byIp_foldl_put, byMac_foldl_put]
  constructor
  · intro x l
    rw [Table.lookup_foldl_insert Lease.ip (fun l => l) _ (hpair.imp And.left)]
    have hfresh : ¬ (pool.fresh.byIp.lookup x = some l) := by
      simp [LeasePool.fresh, LeasePool.new]
    simp only [hmem, hfresh, and_false, or_false]
    constructor
    · rintro ⟨m, hm, hx, rfl⟩
      exact ⟨hm, hx⟩
    · rintro ⟨hl, hx⟩
      exact ⟨l, hl, hx, rfl⟩
  · intro mac x
    rw [Table.lookup_foldl_insert Lease.mac Lease.ip _ (hpair.imp And.right)]
    have hfresh : ¬ (pool.fresh.byMac.lookup mac = some x) := by
      simp [LeasePool.fresh, LeasePool.new]
    simp only [hmem, hfresh, and_false, or_false]

/-- A restored pool has the same active lease for every client. -/
theorem Follows.lookupByMac_restoreStored {cfg : ServerConfig} {pool : LeasePool}
    {store : LeaseTable} {t : ℕ} (h : Follows cfg pool store t) {rows : List StoredLease}
    (hrows : rows.Perm store.values) (mac : Mac) (l : Lease) :
    (restoreStored cfg pool.fresh rows t).lookupByMac mac t = some l ↔
      l ∈ pool.activeLeases t ∧ l.mac = mac := by
  obtain ⟨hip, hmac⟩ := h.lookup_restoreStored hrows
  rw [LeasePool.lookupByMac, Option.filter_eq_some_iff, Option.bind_eq_some_iff,
    Lease.isActive_iff]
  constructor
  · rintro ⟨⟨x, hx, hl⟩, -⟩
    obtain ⟨m, hm, hmm, hmx⟩ := (hmac mac x).1 hx
    obtain ⟨hlact, hlx⟩ := (hip x l).1 hl
    -- one lease for each address
    obtain ⟨⟨y, hy⟩, -⟩ := LeasePool.mem_activeLeases.1 hm
    obtain ⟨⟨z, hz⟩, -⟩ := LeasePool.mem_activeLeases.1 hlact
    have hyx := (h.mirrored.ip_eq y m hy).symm.trans hmx
    have hzx := (h.mirrored.ip_eq z l hz).symm.trans hlx
    rw [hyx] at hy
    rw [hzx, hy] at hz
    rw [← Option.some.inj hz]
    exact ⟨hm, hmm⟩
  · rintro ⟨hl, hm⟩
    exact ⟨⟨l.ip, (hmac mac l.ip).2 ⟨l, hl, hm, rfl⟩, (hip l.ip l).2 ⟨hl, rfl⟩⟩,
      (LeasePool.mem_activeLeases.1 hl).2⟩

/-- A restart keeps the table in step with the pool. -/
theorem Follows.restart {cfg : ServerConfig} {pool : LeasePool} {store : LeaseTable} {t : ℕ}
    (h : Follows cfg pool store t) {rows : List StoredLease} (hrows : rows.Perm store.values) :
    Follows cfg (restoreStored cfg pool.fresh rows t) store t := by
  obtain ⟨hip, hmac⟩ := h.lookup_restoreStored hrows
  have hlook : ∀ x l, (restoreStored cfg pool.fresh rows t).byIp.lookup x = some l ↔
      pool.byIp.lookup x = some l ∧ t < l.expiresAt := by
    intro x l
    rw [hip, LeasePool.mem_activeLeases]
    constructor
    · rintro ⟨⟨⟨y, hy⟩, hact⟩, hx⟩
      rw [← hx, h.mirrored.ip_eq y l hy]
      exact ⟨hy, hact⟩
    · rintro ⟨hx, hact⟩
      exact ⟨⟨⟨x, hx⟩, hact⟩, h.mirrored.ip_eq x l hx⟩
  refine ⟨⟨?_, ?_⟩, h.keyed, ?_, ?_⟩
  · exact fun x l hl => ((hip x l).1 hl).2
  · intro x l hl
    obtain ⟨hact, hx⟩ := (hip x l).1 hl
    exact (hmac l.mac x).2 ⟨l, hact, rfl, hx⟩
  · intro x r
    rw [h.rows x r]
    simp only [hlook, and_assoc]
    constructor
    · rintro ⟨l, hl, hact, hrow⟩
      exact ⟨l, hl, hact, hact, hrow⟩
    · rintro ⟨l, hl, hact, -, hrow⟩
      exact ⟨l, hl, hact, hrow⟩
  · intro x l hl hact
    exact h.storable x l ((hlook x l).1 hl).1 hact

/-! ## The sweep -/

theorem Follows.prune {cfg : ServerConfig} {pool : LeasePool} {store : LeaseTable} {t : ℕ}
    (h : Follows cfg pool store t) {now : ℕ} (hnow : now ≤ t) :
    Follows cfg (pool.pruneExpired now).1 (deleteExpired store (asI64 now)) t := by
  have hpool := LeasePool.lookup_byIp_pruneExpired h.mirrored.ip_eq now
  have hle := asI64_le now
  refine ⟨LeasePool.pruneExpired_mirrored h.mirrored now, ?_, ?_, ?_⟩
  · intro k r hk
    rw [deleteExpired, Table.lookup_retain, Option.filter_eq_some_iff] at hk
    exact h.keyed k r hk.1
  · intro x r
    have hrow : ((deleteExpired store (asI64 now)).lookup x.toText = some r ∧
        (t : ℤ) < r.expiresAt) ↔ (store.lookup x.toText = some r ∧ (t : ℤ) < r.expiresAt) := by
      rw [deleteExpired, Table.lookup_retain, Option.filter_eq_some_iff, decide_eq_true_iff]
      constructor
      · exact fun ⟨⟨hr, _⟩, hrun⟩ => ⟨hr, hrun⟩
      · exact fun ⟨hr, hrun⟩ => ⟨⟨hr, by omega⟩, hrun⟩
    rw [hrow, h.rows x r]
    simp only [hpool, Option.filter_eq_some_iff, Lease.isActive_iff]
    constructor
    · rintro ⟨l, hl, hact, heq⟩
      exact ⟨l, ⟨hl, by omega⟩, hact, heq⟩
    · rintro ⟨l, ⟨hl, -⟩, hact, heq⟩
      exact ⟨l, hl, hact, heq⟩
  · intro x l hl hact
    rw [hpool, Option.filter_eq_some_iff] at hl
    exact h.storable x l hl.1 hact

/-! ## Whole runs -/

/-- The step keeps the table in step with the pool: a message drops the same
running leases from both and grants what can be stored; a restart loads the
stored rows, in any order, at a time that is not behind. -/
def StepInStep (cfg : ServerConfig) (s : Service) (e : ℕ × ServeEvent) : Prop :=
  match e.2 with
  | .message req => KeepsInStep cfg s.pool req e.1 (max s.clock e.1)
  | .restart rows => s.clock ≤ e.1 ∧ rows.Perm s.store.values
  | .prune | .setSeen _ => True

instance (cfg : ServerConfig) (s : Service) (e : ℕ × ServeEvent) :
    Decidable (StepInStep cfg s e) :=
  match h : e.2 with
  | .message req => decidable_of_iff (KeepsInStep cfg s.pool req e.1 (max s.clock e.1))
      (by simp [StepInStep, h])
  | .restart rows => decidable_of_iff (s.clock ≤ e.1 ∧ rows.Perm s.store.values)
      (by simp [StepInStep, h])
  | .prune => isTrue (by simp [StepInStep, h])
  | .setSeen _ => isTrue (by simp [StepInStep, h])

/-- The rows still running are the active leases, at every time from now on, and a
fresh pool restored from the stored rows, in any order, has the same active lease
for every client. -/
def StoreFollows (cfg : ServerConfig) (s : Service) : Prop :=
  ∀ t, s.clock ≤ t →
    {row : String × String × ℤ | ∃ r ∈ s.store.values, (t : ℤ) < r.expiresAt ∧
        row = (r.ip, r.mac, r.expiresAt)} =
      {row | ∃ l ∈ s.pool.activeLeases t,
        row = (l.ip.toText, formatMac l.mac, (l.expiresAt : ℤ))} ∧
    ∀ rows : List StoredLease, rows.Perm s.store.values → ∀ mac l,
      (restoreStored cfg s.pool.fresh rows t).lookupByMac mac t = some l ↔
        l ∈ s.pool.activeLeases t ∧ l.mac = mac

theorem serveStep_follows {cfg : ServerConfig} {s : Service} (e : ℕ × ServeEvent)
    (hok : StepInStep cfg s e) (h : Follows cfg s.pool s.store s.clock) :
    Follows cfg (serveStep cfg s e).1.pool (serveStep cfg s e).1.store
      (serveStep cfg s e).1.clock := by
  obtain ⟨now, ev⟩ := e
  have hmax := h.mono (le_max_left s.clock now)
  cases ev with
  | message req => exact (handle_follows_iff hmax req now).2 hok
  | prune => exact hmax.prune (le_max_right ..)
  | setSeen seen => exact ⟨hmax.mirrored.congr rfl rfl, hmax.keyed, hmax.rows, hmax.storable⟩
  | restart rows =>
    obtain ⟨hle, hrows⟩ := hok
    have hclock : max s.clock now = now := max_eq_right hle
    simp only [serveStep]
    rw [hclock] at hmax ⊢
    exact hmax.restart hrows

theorem init_follows (cfg : ServerConfig) (start stop : UInt32)
    (reservations : Table Mac Ipv4Addr) :
    Follows cfg (Service.init start stop reservations).pool
      (Service.init start stop reservations).store
      (Service.init start stop reservations).clock where
  mirrored := (LeasePool.new_mirrored start stop).congr rfl rfl
  keyed := fun k r h => by simp [Service.init] at h
  rows := fun x r => by simp [Service.init, LeasePool.new]
  storable := fun x l h => by simp [Service.init, LeasePool.new] at h

theorem Follows.storeFollows {cfg : ServerConfig} {s : Service}
    (h : Follows cfg s.pool s.store s.clock) : StoreFollows cfg s := by
  intro t ht
  have ht := h.mono ht
  refine ⟨?_, fun rows hrows => ht.lookupByMac_restoreStored hrows⟩
  have hrow : ∀ l ∈ s.pool.activeLeases t, ((rowOf l).ip, (rowOf l).mac, (rowOf l).expiresAt) =
      (l.ip.toText, formatMac l.mac, (l.expiresAt : ℤ)) := by
    intro l hl
    obtain ⟨⟨x, hx⟩, hact⟩ := LeasePool.mem_activeLeases.1 hl
    rw [expiresAt_rowOf (ht.storable x l hx hact)]
    rfl
  ext row
  constructor
  · rintro ⟨r, hr, hrun, rfl⟩
    obtain ⟨l, hl, rfl⟩ := ht.row_iff.1 ⟨hr, hrun⟩
    exact ⟨l, hl, hrow l hl⟩
  · rintro ⟨l, hl, rfl⟩
    obtain ⟨hr, hrun⟩ := ht.row_iff.2 ⟨l, hl, rfl⟩
    exact ⟨rowOf l, hr, hrun, (hrow l hl).symm⟩

/-- **The stored rows follow the live leases.**  In every run of the service, from
its first start, in which every step keeps the two in step, the stored rows are the
active leases around every entry of the run, and a restart rebuilds them. -/
theorem store_follows_of_keeps_in_step (cfg : ServerConfig) (start stop : UInt32)
    (reservations : Table Mac Ipv4Addr) (es : List (ℕ × ServeEvent))
    (hok : ∀ x ∈ trace (serveStep cfg) (Service.init start stop reservations) es,
      StepInStep cfg x.before x.event) :
    ∀ x ∈ trace (serveStep cfg) (Service.init start stop reservations) es,
      StoreFollows cfg x.before ∧ StoreFollows cfg x.after := by
  intro x hx
  have hstep : ∀ (s : Service) (e : ℕ × ServeEvent), StepInStep cfg s e →
      Follows cfg s.pool s.store s.clock →
      Follows cfg (serveStep cfg s e).1.pool (serveStep cfg s e).1.store
        (serveStep cfg s e).1.clock := fun s e => serveStep_follows e
  have hinv := @inv_of_mem_trace _ _ _ (serveStep cfg)
    (fun s => Follows cfg s.pool s.store s.clock) (StepInStep cfg) hstep _ es
    (init_follows cfg start stop reservations) hok x hx
  exact ⟨hinv.1.storeFollows, hinv.2.storeFollows⟩

/-! ## A run that breaks it -/

namespace Example

/-- A REQUEST for `192.168.1.n`, as the service receives it. -/
def ask (mac : Mac) (n : UInt8) : ServeEvent :=
  .message (message mac .request [.requestedIp ⟨192, 168, 1, n⟩])

/-- A client with a lease on `.10` asks for `.11` instead. -/
def movedClient : List (ℕ × ServeEvent) := [(100, ask (client 10) 10), (110, ask (client 10) 11)]

/-- Two leases, a renewal, a RELEASE that names its address, a sweep, a restart
from the one row left, and a new client on the released address. -/
def inStep : List (ℕ × ServeEvent) :=
  [(100, ask (client 10) 10), (110, ask (client 11) 11), (150, ask (client 10) 10),
    (160, .message { message (client 11) .release [] with ciaddr := ⟨192, 168, 1, 11⟩ }),
    (165, .prune), (170, .restart [rowOf ⟨⟨192, 168, 1, 10⟩, client 10, none, 250⟩]),
    (180, ask (client 12) 11)]

end Example

open Example in
/-- **A client that moves keeps its old row**: the pool has dropped the lease on
`.10`, the table has not, and the restarted pool would hold both. -/
theorem moved_client_keeps_old_row :
    ¬ ∀ x ∈ trace (serveStep cfg) (Service.init first last ∅) movedClient,
      StoreFollows cfg x.before ∧ StoreFollows cfg x.after := by
  intro h
  have hlast := (h _ (List.mem_cons_of_mem _ (List.mem_cons_self ..))).2
  obtain ⟨hrows, -⟩ := hlast 120 (by decide +kernel)
  have hstored : (⟨(⟨192, 168, 1, 10⟩ : Ipv4Addr).toText, formatMac (client 10), none, 200⟩ :
      StoredLease) ∈ (run (serveStep cfg) (Service.init first last ∅) movedClient).store.values := by
    decide +kernel
  obtain ⟨l, hl, hrow⟩ := (Set.ext_iff.1 hrows _).1 ⟨_, hstored, by decide, rfl⟩
  have hlive : (run (serveStep cfg) (Service.init first last ∅) movedClient).pool.activeLeases 120 =
      [⟨⟨192, 168, 1, 11⟩, client 10, none, 210⟩] := by decide +kernel
  have hl' : l ∈ (run (serveStep cfg) (Service.init first last ∅) movedClient).pool.activeLeases
      120 := hl
  rw [hlive, List.mem_singleton] at hl'
  rw [hl'] at hrow
  have hexp := (Prod.ext_iff.1 (Prod.ext_iff.1 hrow).2).2
  revert hexp
  decide

open Example in
/-- A run that keeps the two in step, through a RELEASE and a restart. -/
theorem store_follows_in_step :
    (∀ x ∈ trace (serveStep cfg) (Service.init first last ∅) inStep,
      StepInStep cfg x.before x.event) ∧
    ∀ x ∈ trace (serveStep cfg) (Service.init first last ∅) inStep,
      StoreFollows cfg x.before ∧ StoreFollows cfg x.after := by
  have hok : ∀ x ∈ trace (serveStep cfg) (Service.init first last ∅) inStep,
      StepInStep cfg x.before x.event := by decide +kernel
  exact ⟨hok, store_follows_of_keeps_in_step cfg first last ∅ inStep hok⟩

end Ferrite.Dhcp
