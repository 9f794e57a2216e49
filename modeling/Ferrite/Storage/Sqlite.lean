import Ferrite.Lib.Rows
import Ferrite.Storage.Types

/-!
# The SQLite backend

`storage/src/sqlite.rs`, its SQL read with the standard meaning.  A table is a finite map
from its primary key to the other columns; a `SELECT` without an order returns its rows in
whatever order they lie.  A statement that breaks a primary key fails, and the transaction
it belongs to with it.
-/

namespace Ferrite.Storage.Sqlite

open Dhcp (StoredLease asI64)
open Dns (QueryStatus)
open Rows

/-! ## SQL -/

/-- `id as u64` for an `i64`. -/
def asU64 (i : ℤ) : UInt64 := UInt64.ofNat (i % 2 ^ 64).toNat

/-- `LIKE … ESCAPE`: `%` stands for any text, `_` for any character, an escaped character
for itself; ASCII letters match in either case. -/
def like (escape : Char) : Text → Text → Bool
  | [], text => text.isEmpty
  | p :: ps, text =>
    if p = escape then
      match ps, text with
      | c :: cs, x :: xs => asciiLower x = asciiLower c && like escape cs xs
      | _, _ => false
    else if p = '%' then text.tails.any (like escape ps)
    else
      match text with
      | [] => false
      | x :: xs => (p = '_' || asciiLower x = asciiLower p) && like escape ps xs

/-- `LIMIT`: a negative one is none. -/
def limitTo {R : Type} (n : UInt64) (rows : List R) : List R :=
  if asI64 n.toNat < 0 then rows else rows.take (asI64 n.toNat).toNat

/-- `OFFSET`: a negative one is zero. -/
def offsetBy {R : Type} (n : UInt64) (rows : List R) : List R := rows.drop (asI64 n.toNat).toNat

/-! ## The tables -/

/-- A row of `queries`, apart from its id. -/
structure QueryRow where
  timestamp : ℤ
  domain : Text
  queryType : ℤ
  clientIp : Text
  device : Option Text
  status : Text
  latencyMs : ℤ
  upstream : Option Text
  rcode : ℤ
deriving DecidableEq, Repr

/-- A row of `devices`, apart from its MAC. -/
structure DeviceRow where
  hostname : Option Text
  lastSeen : ℤ
  firstSeen : ℤ
deriving DecidableEq, Repr

/-- A row of `dhcp_leases`, apart from its address. -/
structure LeaseRow where
  mac : String
  hostname : Option String
  expiresAt : ℤ
deriving DecidableEq, Repr

/-- A row of `sessions`, apart from its token hash. -/
structure SessionRow where
  passwordFp : Text
  expires : ℤ
  created : ℤ
  lastSeen : ℤ
  agent : Text
  ip : Text
deriving DecidableEq, Repr

/-- The database, as `SCHEMA` and the migrations set it up. -/
structure Db where
  queries : Table ℤ QueryRow
  queryBuckets : Table ℤ QueryBucket
  domainBuckets : Table (ℤ × Text) DomainBucket
  deviceBuckets : Table (ℤ × Text) DeviceBucket
  devices : Table Text DeviceRow
  ipBindings : Table Text Binding
  dhcpLeases : Table String LeaseRow
  sessions : Table Text SessionRow

/-- A new database. -/
def openStorage : Db := ⟨∅, ∅, ∅, ∅, ∅, ∅, ∅, ∅⟩

variable (db : Db)

/-! ## Writing -/

/-- The row `write_batch` inserts for an entry. -/
def rowOf (e : QueryEntry) : QueryRow where
  timestamp := e.secs
  domain := e.domain
  queryType := e.queryType.toNat
  clientIp := e.clientIp
  device := some e.deviceToken
  status := asStr e.status
  latencyMs := e.latencyMs.toNat
  upstream := e.upstream
  rcode := e.rcode.toNat

/-- `INSERT INTO queries`: an id that is taken is an error. -/
def insertEntry (t : Table ℤ QueryRow) (e : QueryEntry) : Option (Table ℤ QueryRow) :=
  if (t.lookup (asI64 e.id.toNat)).isSome then none
  else some (t.insert (asI64 e.id.toNat) (rowOf e))

/-- The three maps a batch is added up in. -/
structure Aggregates where
  queryBuckets : Table ℤ QueryBucket
  domainBuckets : Table (ℤ × Text) DomainBucket
  deviceBuckets : Table (ℤ × Text) DeviceBucket

/-- `collect_rollup_aggregates`. -/
def collectRollupAggregates (a : Aggregates) (e : QueryEntry) : Aggregates where
  queryBuckets := addTo QueryEntry.bucket (fun _ => ⟨0, 0, 0, 0⟩) QueryBucket.add
    a.queryBuckets e
  domainBuckets := addTo (fun e => (e.bucket, e.domain)) (fun _ => ⟨0, 0⟩) DomainBucket.add
    a.domainBuckets e
  deviceBuckets := addTo (fun e => (e.bucket, e.deviceToken)) (fun _ => ⟨0, 0, 0⟩)
    DeviceBucket.add a.deviceBuckets e

/-- The upsert into `query_buckets_10m`. -/
def mergeQueryBucket (old new : QueryBucket) : QueryBucket :=
  ⟨old.total + new.total, old.blocked + new.blocked, old.cached + new.cached,
    old.upstream + new.upstream⟩

/-- The upsert into `domain_buckets_10m`. -/
def mergeDomainBucket (old new : DomainBucket) : DomainBucket :=
  ⟨old.total + new.total, old.blocked + new.blocked⟩

/-- The upsert into `device_buckets_10m`. -/
def mergeDeviceBucket (old new : DeviceBucket) : DeviceBucket :=
  ⟨old.total + new.total, old.blocked + new.blocked, max old.lastSeen new.lastSeen⟩

/-- The rows of a batch, when the query log is on. -/
def insertEntries (entries : List QueryEntry) (scope : RecordScope) :
    Option (Table ℤ QueryRow) :=
  if scope.queries then entries.foldlM insertEntry db.queries else some db.queries

/-- The rollups of a batch. -/
def upsertRollups (entries : List QueryEntry) : Db :=
  let batch := entries.foldl collectRollupAggregates ⟨∅, ∅, ∅⟩
  { db with
    queryBuckets := upsertAll mergeQueryBucket db.queryBuckets batch.queryBuckets
    domainBuckets := upsertAll mergeDomainBucket db.domainBuckets batch.domainBuckets
    deviceBuckets := upsertAll mergeDeviceBucket db.deviceBuckets batch.deviceBuckets }

/-- `write_batch`: nothing is written when it fails. -/
def writeBatch (entries : List QueryEntry) (scope : RecordScope) : Option Db :=
  if entries.isEmpty || !scope.recordsAnything then some db
  else
    (insertEntries db entries scope).map fun queries =>
      let db := { db with queries := queries }
      if scope.stats then upsertRollups db entries else db

/-! ## Retention -/

/-- `delete_before`, with the rows deleted. -/
def deleteBefore (cutoffTs : ℤ) : Db × ℕ :=
  let cutoffBucket := alignBucket cutoffTs
  ({ db with
     queries := db.queries.retain fun _ r => !decide (r.timestamp < cutoffTs)
     queryBuckets := db.queryBuckets.retain fun b _ => !decide (b < cutoffBucket)
     domainBuckets := db.domainBuckets.retain fun k _ => !decide (k.1 < cutoffBucket)
     deviceBuckets := db.deviceBuckets.retain fun k _ => !decide (k.1 < cutoffBucket) },
    (db.queries.entries.filter fun e => e.2.timestamp < cutoffTs).length)

/-- `delete_all_queries`. -/
def deleteAllQueries : Db :=
  { db with queries := ∅, queryBuckets := ∅, domainBuckets := ∅, deviceBuckets := ∅ }

/-! ## Reading the log -/

/-- `max_query_id`. -/
def maxQueryId : UInt64 := asU64 ((db.queries.entries.map fun e => e.1).max?.getD 0)

/-- The pattern `query_range` looks a domain up with. -/
def likePattern (domain : Text) : Text :=
  '%' :: Text.replace ['_'] ['\\', '_'] (Text.replace ['%'] ['\\', '%']
    (Text.replace ['\\'] ['\\', '\\'] domain)) ++ ['%']

/-- The `WHERE` of `query_range`. -/
def accepts (f : QueryFilter) (e : Sigma fun _ : ℤ => QueryRow) : Bool :=
  f.fromTs.all (fun t => t ≤ e.2.timestamp) && f.toTs.all (fun t => e.2.timestamp ≤ t) &&
    f.domain.all (fun d => like '\\' (likePattern d) e.2.domain) &&
    (f.clientIps.isEmpty && f.devices.isEmpty ||
      decide (e.2.clientIp ∈ f.clientIps) || e.2.device.any fun d => decide (d ∈ f.devices)) &&
    f.status.all (fun s => e.2.status = s) &&
    f.cursor.all fun c =>
      e.2.timestamp < c.1 || (e.2.timestamp = c.1 && e.1 < asI64 c.2.toNat)

/-- `ORDER BY timestamp DESC, id DESC`. -/
def newestFirst (e : Sigma fun _ : ℤ => QueryRow) : ℤᵒᵈ ×ₗ ℤᵒᵈ :=
  toLex (OrderDual.toDual e.2.timestamp, OrderDual.toDual e.1)

/-- The status a text stands for. -/
def statusOf (s : Text) : QueryStatus :=
  if s = "blocked".toList then .blocked
  else if s = "cached".toList then .cached
  else if s = "allowed".toList then .allowed
  else if s = "routed".toList then .routed
  else .upstream

/-- The entry `query_range` makes of a row. -/
def entryOf (e : Sigma fun _ : ℤ => QueryRow) : QueryEntry where
  id := asU64 e.1
  timestamp := ⟨e.2.timestamp, 0⟩
  domain := e.2.domain
  queryType := UInt16.ofNat e.2.queryType.toNat
  clientIp := e.2.clientIp
  device := e.2.device.getD e.2.clientIp
  status := statusOf e.2.status
  latencyMs := UInt32.ofNat e.2.latencyMs.toNat
  upstream := e.2.upstream
  rcode := UInt8.ofNat (min e.2.rcode 255).toNat

/-- `query_range`. -/
def queryRange (f : QueryFilter) : List QueryEntry :=
  let rows := orderBy newestFirst (db.queries.entries.filter (accepts f))
  let rows := if f.cursor.isNone then offsetBy (f.offset.getD 0) rows else rows
  (limitTo (f.limit.getD 100) rows).map entryOf

/-- What `device_domains` selects for a domain. -/
def domainRow (domain : Text) (rows : List (Sigma fun _ : ℤ => QueryRow)) : DeviceDomain where
  domain := domain
  total := rows.length
  blocked := (rows.map fun e => if e.2.status = "blocked".toList then 1 else 0).sum

/-- `device_domains`. -/
def deviceDomains (devices : List Text) (fromTs : ℤ) (n : UInt64) (blockedFirst : Bool) :
    List DeviceDomain :=
  if devices.isEmpty then []
  else
    let groups := groupBy (fun e : Sigma fun _ : ℤ => QueryRow => e.2.domain) domainRow
      (db.queries.entries.filter fun e =>
        e.2.device.any (fun d => decide (d ∈ devices)) && decide (fromTs ≤ e.2.timestamp))
    let groups := if blockedFirst then groups.filter fun g => 0 < g.blocked else groups
    limitTo n (orderBy (fun g =>
      (toLex (OrderDual.toDual (if blockedFirst then g.blocked else g.total), g.domain) :
        ℕᵒᵈ ×ₗ Text)) groups)

/-! ## Reading the rollups -/

/-- `top_domains_rollup_query`. -/
def topDomainsRollupQuery (fromTs toTs : ℤ) (n : UInt64) (blockedOnly : Bool) :
    List (Text × ℕ) :=
  let groups := groupBy (fun e : Sigma fun _ : ℤ × Text => DomainBucket => e.1.2)
    (fun domain rows =>
      (domain, (rows.map fun e => if blockedOnly then e.2.blocked else e.2.total).sum))
    (db.domainBuckets.entries.filter fun e =>
      decide (alignBucket fromTs ≤ e.1.1) && decide (e.1.1 ≤ alignBucket toTs))
  limitTo n (orderBy (fun g => (toLex (OrderDual.toDual g.2, g.1) : ℕᵒᵈ ×ₗ Text))
    (groups.filter fun g => 0 < g.2))

/-- The totals of a device over some of its buckets. -/
def clientRow (device : Text) (rows : List (Sigma fun _ : ℤ × Text => DeviceBucket)) :
    ClientStats where
  device := device
  total := (rows.map fun e => e.2.total).sum
  blocked := (rows.map fun e => e.2.blocked).sum
  lastSeen := (rows.map fun e => e.2.lastSeen).max?.getD 0

/-- `top_clients`. -/
def topClients (fromTs toTs : ℤ) (n : UInt64) : List ClientStats :=
  limitTo n (orderBy (fun g => (toLex (OrderDual.toDual g.total, g.device) : ℕᵒᵈ ×ₗ Text))
    (groupBy (fun e : Sigma fun _ : ℤ × Text => DeviceBucket => e.1.2) clientRow
      (db.deviceBuckets.entries.filter fun e =>
        decide (alignBucket fromTs ≤ e.1.1) && decide (e.1.1 ≤ alignBucket toTs))))

/-- `client_stats`. -/
def clientStats (devices : List Text) : Option ClientStats :=
  devices.head?.bind fun first =>
    let rows := db.deviceBuckets.entries.filter fun e => e.1.2 ∈ devices
    if 0 < rows.length then some (clientRow first rows) else none

/-- `device_activity`. -/
def deviceActivity (devices : List Text) (fromTs : ℤ) : List DeviceActivity :=
  if devices.isEmpty then []
  else
    orderBy DeviceActivity.bucket
      (groupBy (fun e : Sigma fun _ : ℤ × Text => DeviceBucket => e.1.1)
        (fun bucket rows => ⟨bucket, (rows.map fun e => e.2.total).sum,
          (rows.map fun e => e.2.blocked).sum⟩)
        (db.deviceBuckets.entries.filter fun e =>
          decide (e.1.2 ∈ devices) && decide (alignBucket fromTs ≤ e.1.1)))

/-- `summary_counts`. -/
def summaryCounts (fromTs toTs : ℤ) : SummaryStats :=
  let rows := db.queryBuckets.entries.filter fun e =>
    decide (alignBucket fromTs ≤ e.1) && decide (e.1 ≤ alignBucket toTs)
  ⟨(rows.map fun e => e.2.total).sum, (rows.map fun e => e.2.blocked).sum,
    (rows.map fun e => e.2.cached).sum, (rows.map fun e => e.2.upstream).sum⟩

/-! ## Devices and bindings -/

/-- `upsert_device`. -/
def upsertDevice (now : ℤ) (mac : Text) (hostname : Option Text) : Db :=
  { db with
    devices := upsert (fun old new =>
        { old with hostname := new.hostname.or old.hostname, lastSeen := new.lastSeen })
      db.devices mac ⟨hostname, now, now⟩ }

/-- `load_devices`. -/
def loadDevices : List StoredDevice :=
  db.devices.entries.map fun e => ⟨e.1, e.2.hostname, e.2.firstSeen⟩

/-- `delete_all_devices`. -/
def deleteAllDevices : Db := { db with devices := ∅ }

/-- `upsert_ip_binding`. -/
def upsertIpBinding (now : ℤ) (ip mac : Text) : Db :=
  { db with
    ipBindings := upsert (fun old new => { old with mac := new.mac, lastSeen := new.lastSeen })
      db.ipBindings ip ⟨mac, now⟩ }

/-- `touch_ip_bindings`. -/
def touchIpBindings (now : ℤ) (ips : List Text) : Db :=
  { db with
    ipBindings := ips.foldl
      (fun t ip => t.updateWhere (fun k _ => k = ip) fun b => { b with lastSeen := now })
      db.ipBindings }

/-- `delete_ip_bindings_older_than`, with the addresses it drops. -/
def deleteIpBindingsOlderThan (cutoffTs : ℤ) : Db × List Text :=
  ({ db with ipBindings := db.ipBindings.retain fun _ b => !decide (b.lastSeen < cutoffTs) },
    (db.ipBindings.entries.filter fun e => e.2.lastSeen < cutoffTs).map fun e => e.1)

/-- `load_ip_bindings`. -/
def loadIpBindings : List (Text × Text) := db.ipBindings.entries.map fun e => (e.1, e.2.mac)

/-- `delete_all_ip_bindings`. -/
def deleteAllIpBindings : Db := { db with ipBindings := ∅ }

/-! ## Leases and sessions -/

/-- `upsert_dhcp_lease`. -/
def upsertDhcpLease (lease : StoredLease) : Db :=
  { db with
    dhcpLeases := upsert (fun old new =>
        { old with mac := new.mac, hostname := new.hostname, expiresAt := new.expiresAt })
      db.dhcpLeases lease.ip ⟨lease.mac, lease.hostname, lease.expiresAt⟩ }

/-- `delete_dhcp_lease`. -/
def deleteDhcpLease (ip : String) : Db := { db with dhcpLeases := db.dhcpLeases.erase ip }

/-- `delete_expired_dhcp_leases`. -/
def deleteExpiredDhcpLeases (now : ℤ) : Db :=
  { db with dhcpLeases := db.dhcpLeases.retain fun _ l => !decide (l.expiresAt ≤ now) }

/-- The lease a row stands for. -/
def leaseOf (ip : String) (row : LeaseRow) : StoredLease :=
  ⟨ip, row.mac, row.hostname, row.expiresAt⟩

/-- `load_dhcp_leases`. -/
def loadDhcpLeases : List StoredLease := db.dhcpLeases.entries.map fun e => leaseOf e.1 e.2

/-- `save_session`: a session that is there keeps how it was signed in. -/
def saveSession (s : StoredSession) : Db :=
  { db with
    sessions := upsert (fun old new =>
        { old with passwordFp := new.passwordFp, expires := new.expires, lastSeen := new.lastSeen })
      db.sessions s.tokenHash ⟨s.passwordFp, s.expires, s.created, s.lastSeen, s.agent, s.ip⟩ }

/-- `delete_session`. -/
def deleteSession (tokenHash : Text) : Db :=
  { db with sessions := db.sessions.erase tokenHash }

/-- The session a row stands for. -/
def sessionOf (tokenHash : Text) (r : SessionRow) : StoredSession :=
  ⟨tokenHash, r.passwordFp, r.expires, r.created, r.lastSeen, r.agent, r.ip⟩

/-- `load_sessions`: the lapsed ones go on the way. -/
def loadSessions (now : ℤ) : Db × List StoredSession :=
  let kept := db.sessions.retain fun _ s => !decide (s.expires ≤ now)
  ({ db with sessions := kept }, kept.entries.map fun e => sessionOf e.1 e.2)

/-! ## Integers through a column -/

theorem asU64_asI64 (n : UInt64) : asU64 (asI64 n.toNat) = n := by
  have hn := n.toNat_lt
  have hmod : (asI64 n.toNat % 2 ^ 64).toNat = n.toNat := by
    unfold asI64
    split <;> omega
  rw [asU64, hmod, UInt64.ofNat_toNat]

theorem asI64_injective : Function.Injective fun n : UInt64 => asI64 n.toNat := by
  intro a b h
  have := congrArg asU64 h
  simpa only [asU64_asI64] using this

theorem asI64_of_lt {n : UInt64} (h : n.toNat < 2 ^ 63) : asI64 n.toNat = n.toNat := by
  rw [asI64, if_pos h]

/-- A limit takes as many rows as it says, on a list no longer than a signed integer
can count. -/
theorem limitTo_eq_take {R : Type} (n : UInt64) {rows : List R} (h : rows.length < 2 ^ 63) :
    limitTo n rows = rows.take n.toNat := by
  unfold limitTo
  by_cases hn : n.toNat < 2 ^ 63
  · rw [asI64_of_lt hn, if_neg (by omega), Int.toNat_natCast]
  · have hneg : asI64 n.toNat < 0 := by
      have := n.toNat_lt
      rw [asI64, if_neg hn]
      omega
    rw [if_pos hneg, List.take_of_length_le (by omega)]

theorem offsetBy_eq_drop {R : Type} {n : UInt64} (h : n.toNat < 2 ^ 63) (rows : List R) :
    offsetBy n rows = rows.drop n.toNat := by
  rw [offsetBy, asI64_of_lt h, Int.toNat_natCast]

@[simp] theorem statusOf_asStr (status : QueryStatus) : statusOf (asStr status) = status := by
  cases status <;> decide

/-- A row reads back as the entry that was stored, with its time cut. -/
theorem entryOf_rowOf (e : QueryEntry) :
    entryOf ⟨asI64 e.id.toNat, rowOf e⟩ = e.tagged.cut := by
  have hrcode : (min (e.rcode.toNat : ℤ) 255).toNat = e.rcode.toNat := by
    have := e.rcode.toNat_lt
    omega
  simp only [entryOf, rowOf, asU64_asI64, statusOf_asStr, Int.toNat_natCast, hrcode,
    UInt16.ofNat_toNat, UInt32.ofNat_toNat, UInt8.ofNat_toNat]
  rfl

/-! ## The domain filter -/

theorem replace_singleton (c : Char) (new s : Text) :
    Text.replace [c] new s = s.flatMap fun x => if x = c then new else [x] := by
  have hgo : ∀ s : Text, Text.replace.go [c] new s 0 =
      s.flatMap fun x => if x = c then new else [x] := by
    intro s
    induction s with
    | nil => rfl
    | cons x s ih =>
      rw [Text.replace.go, List.flatMap_cons]
      by_cases hx : x = c
      · simp [hx, ih, List.isPrefixOf]
      · have hcx : ¬ c = x := fun h => hx h.symm
        simp [hx, hcx, ih, List.isPrefixOf]
  exact hgo s

/-- A character as the pattern has it. -/
def escaped (c : Char) : Text := if c = '\\' ∨ c = '%' ∨ c = '_' then ['\\', c] else [c]

/-- The three replacements escape each character once. -/
theorem likePattern_eq (domain : Text) :
    likePattern domain = '%' :: (domain.flatMap escaped ++ ['%']) := by
  rw [likePattern, replace_singleton, replace_singleton, replace_singleton,
    List.flatMap_assoc, List.flatMap_assoc]
  refine congrArg (fun s => '%' :: (s ++ ['%'])) (List.flatMap_congr fun c _ => ?_)
  by_cases h₁ : c = '\\'
  · subst h₁
    decide
  by_cases h₂ : c = '%'
  · subst h₂
    decide
  by_cases h₃ : c = '_'
  · subst h₃
    decide
  simp [escaped, h₁, h₂, h₃]

theorem like_any (ps text : Text) :
    like '\\' ('%' :: ps) text = text.tails.any (like '\\' ps) := by
  rw [like.eq_def]
  simp

theorem like_escaped_cons (c : Char) (ps : Text) (x : Char) (text : Text) :
    like '\\' (escaped c ++ ps) (x :: text) =
      (decide (asciiLower x = asciiLower c) && like '\\' ps text) := by
  by_cases hc : c = '\\' ∨ c = '%' ∨ c = '_'
  · rw [escaped, if_pos hc]
    rfl
  · rw [escaped, if_neg hc, List.singleton_append, like.eq_def]
    simp only [not_or] at hc
    simp [hc.1, hc.2.1, hc.2.2]

theorem like_escaped_nil (c : Char) (ps : Text) : like '\\' (escaped c ++ ps) [] = false := by
  by_cases hc : c = '\\' ∨ c = '%' ∨ c = '_'
  · rw [escaped, if_pos hc]
    rfl
  · rw [escaped, if_neg hc, List.singleton_append, like.eq_def]
    simp only [not_or] at hc
    simp [hc.2.1]

/-- Behind the leading `%`, the pattern asks for a prefix in either case. -/
theorem like_escaped (domain text : Text) :
    like '\\' (domain.flatMap escaped ++ ['%']) text =
      domain.toAsciiLowercase.isPrefixOf text.toAsciiLowercase := by
  induction domain generalizing text with
  | nil =>
    have htrue : text.tails.any (like '\\' []) = true := by
      rw [List.any_eq_true]
      exact ⟨[], (List.mem_tails ..).2 List.nil_suffix, rfl⟩
    rw [List.flatMap_nil, List.nil_append, like_any, htrue]
    rfl
  | cons c domain ih =>
    rw [List.flatMap_cons, List.append_assoc]
    cases text with
    | nil =>
      rw [like_escaped_nil]
      rfl
    | cons x text =>
      rw [like_escaped_cons, ih]
      have hcomm : decide (asciiLower x = asciiLower c) = (asciiLower c == asciiLower x) := by
        rw [Bool.eq_iff_iff, decide_eq_true_iff, beq_iff_eq]
        exact eq_comm
      rw [hcomm]
      rfl

/-- **`LIKE`.**  The pattern of a text finds it anywhere, in either case of ASCII. -/
theorem like_likePattern (domain text : Text) :
    like '\\' (likePattern domain) text =
      text.toAsciiLowercase.hasInfix domain.toAsciiLowercase := by
  have htails : text.toAsciiLowercase.tails = text.tails.map Text.toAsciiLowercase :=
    List.map_tails ..
  rw [likePattern_eq, like_any, Text.hasInfix, htails, List.any_map]
  refine congrArg (fun p => text.tails.any p) (funext fun s => ?_)
  exact like_escaped domain s

end Ferrite.Storage.Sqlite
