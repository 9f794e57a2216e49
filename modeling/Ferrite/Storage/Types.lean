import Mathlib.Data.Char
import Mathlib.Data.List.Lex
import Ferrite.Dhcp.Server
import Ferrite.Dns.Handler

/-!
# What is recorded

The switches of `core/src/recording.rs`, the log entry of `core/src/types.rs` and the
types `storage/src/lib.rs` shares between the two backends: filters, the rollup buckets
and what the reads return.
-/

namespace Ferrite.Storage

open Dns (QueryStatus)

/-- `RecordScope`: what of a query may be written down. -/
structure RecordScope where
  queries : Bool
  stats : Bool
deriving DecidableEq, Repr

/-- `records_anything`. -/
def RecordScope.recordsAnything (scope : RecordScope) : Bool := scope.queries || scope.stats

/-! ## Log entries -/

/-- `DateTime<Utc>`: seconds since the epoch and the part of a second on top. -/
structure DateTime where
  timestamp : ℤ
  nanos : ℕ
deriving DecidableEq, Repr

/-- `QueryEntry` in full: what the pipeline reports of a query, with the id and the times
it is stored under. -/
structure QueryEntry extends Dns.QueryEntry where
  id : UInt64
  timestamp : DateTime
  latencyMs : UInt32
deriving DecidableEq, Repr

/-- `QueryStatus::as_str`. -/
def asStr : QueryStatus → Text
  | .upstream => "upstream".toList
  | .cached => "cached".toList
  | .blocked => "blocked".toList
  | .allowed => "allowed".toList
  | .routed => "routed".toList

namespace QueryEntry

/-- The whole second of an entry. -/
def secs (e : QueryEntry) : ℤ := e.timestamp.timestamp

/-- `device_token`: the tag of an entry, or its address while it has none. -/
def deviceToken (e : QueryEntry) : Text := if e.device.isEmpty then e.clientIp else e.device

/-- The entry under its token, as it is kept. -/
def tagged (e : QueryEntry) : QueryEntry := { e with device := e.deviceToken }

/-- The entry with its time cut to the whole second. -/
def cut (e : QueryEntry) : QueryEntry := { e with timestamp := ⟨e.secs, 0⟩ }

end QueryEntry

/-! ## Rollups -/

/-- `ROLLUP_BUCKET_SECS`. -/
def rollupBucketSecs : ℤ := 600

/-- `align_bucket`, on 64 bits. -/
def alignBucket (ts : ℤ) : ℤ := (ts / rollupBucketSecs * rollupBucketSecs).bmod (2 ^ 64)

/-- The bucket of an entry. -/
def QueryEntry.bucket (e : QueryEntry) : ℤ := alignBucket e.secs

/-- `QueryBucket`, `QueryBucketAgg`. -/
structure QueryBucket where
  total : ℕ
  blocked : ℕ
  cached : ℕ
  upstream : ℕ
deriving DecidableEq, Repr

/-- `DomainBucket`, `DomainBucketAgg`. -/
structure DomainBucket where
  total : ℕ
  blocked : ℕ
deriving DecidableEq, Repr

/-- `DeviceBucket`, `ClientBucketAgg`. -/
structure DeviceBucket where
  total : ℕ
  blocked : ℕ
  lastSeen : ℤ
deriving DecidableEq, Repr

/-- A query more in its bucket. -/
def QueryBucket.add (q : QueryBucket) (e : QueryEntry) : QueryBucket :=
  let q := { q with total := q.total + 1 }
  match e.status with
  | .blocked => { q with blocked := q.blocked + 1 }
  | .cached => { q with cached := q.cached + 1 }
  | .upstream => { q with upstream := q.upstream + 1 }
  | .allowed | .routed => q

/-- A query more for its domain. -/
def DomainBucket.add (d : DomainBucket) (e : QueryEntry) : DomainBucket :=
  { total := d.total + 1
    blocked := if e.status = .blocked then d.blocked + 1 else d.blocked }

/-- A query more for its device. -/
def DeviceBucket.add (c : DeviceBucket) (e : QueryEntry) : DeviceBucket :=
  { total := c.total + 1
    blocked := if e.status = .blocked then c.blocked + 1 else c.blocked
    lastSeen := max c.lastSeen e.secs }

/-! ## Filters and results -/

/-- `QueryFilter`. -/
structure QueryFilter where
  fromTs : Option ℤ
  toTs : Option ℤ
  domain : Option Text
  clientIps : List Text
  devices : List Text
  status : Option Text
  limit : Option UInt64
  offset : Option UInt64
  beforeId : Option UInt64
  beforeTs : Option ℤ
deriving DecidableEq, Repr

/-- The cursor of a filter, which has both halves or none. -/
def QueryFilter.cursor (f : QueryFilter) : Option (ℤ × UInt64) :=
  match f.beforeTs, f.beforeId with
  | some ts, some id => some (ts, id)
  | _, _ => none

/-- `StoredDevice`. -/
structure StoredDevice where
  mac : Text
  hostname : Option Text
  firstSeen : ℤ
deriving DecidableEq, Repr

/-- `StoredSession`. -/
structure StoredSession where
  tokenHash : Text
  passwordFp : Text
  expires : ℤ
  created : ℤ
  lastSeen : ℤ
  agent : Text
  ip : Text
deriving DecidableEq, Repr

/-- `ClientStats`. -/
structure ClientStats where
  device : Text
  total : ℕ
  blocked : ℕ
  lastSeen : ℤ
deriving DecidableEq, Repr

/-- `DeviceDomain`. -/
structure DeviceDomain where
  domain : Text
  total : ℕ
  blocked : ℕ
deriving DecidableEq, Repr

/-- `DeviceActivity`. -/
structure DeviceActivity where
  bucket : ℤ
  total : ℕ
  blocked : ℕ
deriving DecidableEq, Repr

/-- `SummaryStats`. -/
structure SummaryStats where
  total : ℕ
  blocked : ℕ
  cached : ℕ
  upstream : ℕ
deriving DecidableEq, Repr

/-- A binding of an address: the MAC it was last seen at, and when. -/
structure Binding where
  mac : Text
  lastSeen : ℤ
deriving DecidableEq, Repr

end Ferrite.Storage
