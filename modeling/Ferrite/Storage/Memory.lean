import Mathlib.Data.String.Basic
import Ferrite.Lib.Rows
import Ferrite.Storage.Types

/-!
# The memory backend

`storage/src/memory.rs`: the query log is a deque, oldest first, and everything else sits
in ordered maps.  An operation that reads the clock takes the reading as `now`, one that
can panic returns nothing when it does.
-/

namespace Ferrite.Storage.Memory

open Dhcp (StoredLease)
open Rows

/-- `Inner`. -/
structure Inner where
  queries : List QueryEntry
  queryBuckets : Table ℤ QueryBucket
  domainBuckets : Table (ℤ × Text) DomainBucket
  deviceBuckets : Table (ℤ × Text) DeviceBucket
  devices : Table Text (Option Text × ℤ)
  ipBindings : Table Text Binding
  dhcpLeases : Table String StoredLease
  sessions : Table Text StoredSession
  maxId : UInt64
  maxEntries : ℕ

/-- `APPROX_BYTES_PER_ENTRY`. -/
def approxBytesPerEntry : ℕ := 256

/-- `DEFAULT_MAX_ENTRIES`. -/
def defaultMaxEntries : ℕ := 128000

/-- `entries_for_bytes`. -/
def entriesForBytes (maxBytes : ℕ) : ℕ :=
  min (max (maxBytes / approxBytesPerEntry) 1) defaultMaxEntries

/-- `MemoryStorage::open`. -/
def openStorage (maxBytes : ℕ) : Inner where
  queries := []
  queryBuckets := ∅
  domainBuckets := ∅
  deviceBuckets := ∅
  devices := ∅
  ipBindings := ∅
  dhcpLeases := ∅
  sessions := ∅
  maxId := 0
  maxEntries := if maxBytes = 0 then defaultMaxEntries else entriesForBytes maxBytes

/-- The entries of an ordered map, in the order of its keys. -/
def iter {K V O : Type} [LinearOrder O] (order : K → O) (t : Table K V) :
    List (Sigma fun _ : K => V) :=
  orderBy (fun e => order e.1) t.entries

variable (inner : Inner)

/-! ## Writing -/

/-- `enforce_ring_cap`. -/
def enforceRingCap : Inner :=
  { inner with queries := inner.queries.drop (inner.queries.length - inner.maxEntries) }

/-- The rollups of `write_batch` for one entry. -/
def countEntry (e : QueryEntry) : Inner :=
  { inner with
    queryBuckets := addTo QueryEntry.bucket (fun _ => ⟨0, 0, 0, 0⟩) QueryBucket.add
      inner.queryBuckets e
    domainBuckets := addTo (fun e => (e.bucket, e.domain)) (fun _ => ⟨0, 0⟩) DomainBucket.add
      inner.domainBuckets e
    deviceBuckets := addTo (fun e => (e.bucket, e.deviceToken)) (fun _ => ⟨0, 0, 0⟩)
      DeviceBucket.add inner.deviceBuckets e }

/-- One turn of the loop of `write_batch`. -/
def writeEntry (scope : RecordScope) (inner : Inner) (e : QueryEntry) : Inner :=
  let inner := { inner with maxId := max inner.maxId e.id }
  let inner := if scope.stats then countEntry inner e else inner
  if scope.queries then { inner with queries := inner.queries ++ [e.tagged] } else inner

/-- `write_batch`. -/
def writeBatch (entries : List QueryEntry) (scope : RecordScope) : Inner :=
  if entries.isEmpty || !scope.recordsAnything then inner
  else enforceRingCap (entries.foldl (writeEntry scope) inner)

/-! ## Retention -/

/-- `drop_before`, with the entries left. -/
def dropBefore (cutoffTs : ℤ) : Inner × ℕ :=
  let kept := inner.queries.dropWhile fun e => e.secs < cutoffTs
  let cutoffBucket := alignBucket cutoffTs
  ({ inner with
     queries := kept
     queryBuckets := inner.queryBuckets.retain fun b _ => cutoffBucket ≤ b
     domainBuckets := inner.domainBuckets.retain fun k _ => cutoffBucket ≤ k.1
     deviceBuckets := inner.deviceBuckets.retain fun k _ => cutoffBucket ≤ k.1 },
    inner.queries.length - kept.length)

/-- `delete_all_queries`. -/
def deleteAllQueries : Inner :=
  { inner with queries := [], queryBuckets := ∅, domainBuckets := ∅, deviceBuckets := ∅ }

/-! ## Reading the log -/

/-- The filter of `query_range`.  `toLowercase` is `str::to_lowercase`. -/
def accepts (toLowercase : Text → Text) (f : QueryFilter) (e : QueryEntry) : Bool :=
  !f.fromTs.any (fun t => e.secs < t) && !f.toTs.any (fun t => t < e.secs) &&
    f.domain.all (fun d => (toLowercase e.domain).hasInfix (toLowercase d)) &&
    (f.clientIps.isEmpty && f.devices.isEmpty ||
      decide (e.clientIp ∈ f.clientIps) || decide (e.device ∈ f.devices)) &&
    f.status.all (fun s => asStr e.status = s) &&
    f.cursor.all fun c => e.secs < c.1 || (e.secs = c.1 && e.id < c.2)

/-- The order of the log: newest first, the higher id first within a second. -/
def newestFirst (e : QueryEntry) : ℤᵒᵈ ×ₗ ℕᵒᵈ :=
  toLex (OrderDual.toDual e.secs, OrderDual.toDual e.id.toNat)

/-- `query_range`. -/
def queryRange (toLowercase : Text → Text) (f : QueryFilter) : List QueryEntry :=
  let offset := if f.cursor.isSome then 0 else f.offset.getD 0
  ((orderBy newestFirst (inner.queries.filter (accepts toLowercase f))).drop offset.toNat).take
    (f.limit.getD 100).toNat

/-- A query more for its domain: all of them, and the blocked ones. -/
def countQuery (c : ℕ × ℕ) (q : QueryEntry) : ℕ × ℕ :=
  (c.1 + 1, c.2 + if q.status = .blocked then 1 else 0)

/-- `device_domains`. -/
def deviceDomains (devices : List Text) (fromTs : ℤ) (n : UInt64) (blockedFirst : Bool) :
    List DeviceDomain :=
  let byDomain := tally (fun q : QueryEntry => q.domain) (fun _ => (0, 0)) countQuery ∅
    (inner.queries.filter fun q => decide (q.device ∈ devices) && decide (fromTs ≤ q.secs))
  let rows := (byDomain.entries.filter fun e => !blockedFirst || decide (0 < e.2.2)).map
    fun e => DeviceDomain.mk e.1 e.2.1 e.2.2
  (orderBy (fun r => (toLex (OrderDual.toDual (if blockedFirst then r.blocked else r.total),
    r.domain) : ℕᵒᵈ ×ₗ Text)) rows).take n.toNat

/-! ## Reading the rollups -/

/-- `top_domains_in`. -/
def topDomainsIn (fromTs toTs : ℤ) (n : UInt64) (blockedOnly : Bool) : List (Text × ℕ) :=
  let totals := tally (fun e : Sigma fun _ : ℤ × Text => DomainBucket => e.1.2) (fun _ => 0)
    (fun c e => c + if blockedOnly then e.2.blocked else e.2.total) ∅
    ((iter toLex inner.domainBuckets).filter fun e =>
      !(decide (e.1.1 < alignBucket fromTs) || decide (alignBucket toTs < e.1.1)))
  let rows := (totals.entries.filter fun e => 0 < e.2).map fun e => (e.1, e.2)
  (orderBy (fun r => (toLex (OrderDual.toDual r.2, r.1) : ℕᵒᵈ ×ₗ Text)) rows).take n.toNat

/-- A bucket of a device more in its totals. -/
def addBucket (c : ClientStats) (e : Sigma fun _ : ℤ × Text => DeviceBucket) :
    ClientStats :=
  { c with
    total := c.total + e.2.total
    blocked := c.blocked + e.2.blocked
    lastSeen := max c.lastSeen e.2.lastSeen }

/-- `top_clients`. -/
def topClients (fromTs toTs : ℤ) (n : UInt64) : List ClientStats :=
  let totals := tally (fun e : Sigma fun _ : ℤ × Text => DeviceBucket => e.1.2)
    (fun device => ⟨device, 0, 0, 0⟩) addBucket ∅
    ((iter toLex inner.deviceBuckets).filter fun e =>
      !(decide (e.1.1 < alignBucket fromTs) || decide (alignBucket toTs < e.1.1)))
  (orderBy (fun r => (toLex (OrderDual.toDual r.total, r.device) : ℕᵒᵈ ×ₗ Text))
    totals.values).take n.toNat

/-- `client_stats`. -/
def clientStats (devices : List Text) : Option ClientStats :=
  devices.head?.bind fun first =>
    let rows := (iter toLex inner.deviceBuckets).filter fun e => e.1.2 ∈ devices
    if rows.isEmpty then none else some (rows.foldl addBucket ⟨first, 0, 0, 0⟩)

/-- A row more in the bucket it belongs to. -/
def addActivity (a : DeviceActivity) (e : Sigma fun _ : ℤ × Text => DeviceBucket) :
    DeviceActivity :=
  { a with total := a.total + e.2.total, blocked := a.blocked + e.2.blocked }

/-- One turn of the loop of `device_activity`. -/
def pushActivity (out : List DeviceActivity) (e : Sigma fun _ : ℤ × Text => DeviceBucket) :
    List DeviceActivity :=
  match out.getLast? with
  | some last =>
    if last.bucket = e.1.1 then out.dropLast ++ [addActivity last e]
    else out ++ [⟨e.1.1, e.2.total, e.2.blocked⟩]
  | none => out ++ [⟨e.1.1, e.2.total, e.2.blocked⟩]

/-- `device_activity`. -/
def deviceActivity (devices : List Text) (fromTs : ℤ) : List DeviceActivity :=
  (((iter toLex inner.deviceBuckets).filter fun e =>
      (toLex (alignBucket fromTs, []) : ℤ ×ₗ Text) ≤ toLex e.1).filter
    fun e => e.1.2 ∈ devices).foldl pushActivity []

/-- `summary_counts`: a range that ends before it starts panics. -/
def summaryCounts (fromTs toTs : ℤ) : Option SummaryStats :=
  if alignBucket toTs < alignBucket fromTs then none
  else some <| ((iter id inner.queryBuckets).filter fun e =>
      decide (alignBucket fromTs ≤ e.1) && decide (e.1 ≤ alignBucket toTs)).foldl
    (fun s e => ⟨s.total + e.2.total, s.blocked + e.2.blocked, s.cached + e.2.cached,
      s.upstream + e.2.upstream⟩) ⟨0, 0, 0, 0⟩

/-! ## Devices and bindings -/

/-- `upsert_device`. -/
def upsertDevice (now : ℤ) (mac : Text) (hostname : Option Text) : Inner :=
  let entry := (inner.devices.lookup mac).getD (none, now)
  { inner with devices := inner.devices.insert mac (hostname.or entry.1, entry.2) }

/-- `load_devices`. -/
def loadDevices : List StoredDevice :=
  (iter id inner.devices).map fun e => ⟨e.1, e.2.1, e.2.2⟩

/-- `delete_all_devices`. -/
def deleteAllDevices : Inner := { inner with devices := ∅ }

/-- `upsert_ip_binding`. -/
def upsertIpBinding (now : ℤ) (ip mac : Text) : Inner :=
  { inner with ipBindings := inner.ipBindings.insert ip ⟨mac, now⟩ }

/-- One turn of the loop of `touch_ip_bindings`. -/
def touchIpBinding (now : ℤ) (t : Table Text Binding) (ip : Text) : Table Text Binding :=
  match t.lookup ip with
  | some b => t.insert ip { b with lastSeen := now }
  | none => t

/-- `touch_ip_bindings`. -/
def touchIpBindings (now : ℤ) (ips : List Text) : Inner :=
  { inner with ipBindings := ips.foldl (touchIpBinding now) inner.ipBindings }

/-- `delete_ip_bindings_older_than`, with the addresses it drops. -/
def deleteIpBindingsOlderThan (cutoffTs : ℤ) : Inner × List Text :=
  let stale := ((iter id inner.ipBindings).filter fun e => e.2.lastSeen < cutoffTs).map
    fun e => e.1
  ({ inner with ipBindings := stale.foldl (fun t ip => t.erase ip) inner.ipBindings }, stale)

/-- `load_ip_bindings`. -/
def loadIpBindings : List (Text × Text) :=
  (iter id inner.ipBindings).map fun e => (e.1, e.2.mac)

/-- `delete_all_ip_bindings`. -/
def deleteAllIpBindings : Inner := { inner with ipBindings := ∅ }

/-! ## Leases and sessions -/

/-- `upsert_dhcp_lease`. -/
def upsertDhcpLease (lease : StoredLease) : Inner :=
  { inner with dhcpLeases := inner.dhcpLeases.insert lease.ip lease }

/-- `delete_dhcp_lease`. -/
def deleteDhcpLease (ip : String) : Inner :=
  { inner with dhcpLeases := inner.dhcpLeases.erase ip }

/-- `delete_expired_dhcp_leases`. -/
def deleteExpiredDhcpLeases (now : ℤ) : Inner :=
  { inner with dhcpLeases := inner.dhcpLeases.retain fun _ l => now < l.expiresAt }

/-- `load_dhcp_leases`. -/
def loadDhcpLeases : List StoredLease := (iter id inner.dhcpLeases).map fun e => e.2

/-- `save_session`. -/
def saveSession (session : StoredSession) : Inner :=
  { inner with sessions := inner.sessions.insert session.tokenHash session }

/-- `delete_session`. -/
def deleteSession (tokenHash : Text) : Inner :=
  { inner with sessions := inner.sessions.erase tokenHash }

/-- `load_sessions`: the lapsed ones go on the way. -/
def loadSessions (now : ℤ) : Inner × List StoredSession :=
  let kept := inner.sessions.retain fun _ s => now < s.expires
  ({ inner with sessions := kept }, (iter id kept).map fun e => e.2)

end Ferrite.Storage.Memory
