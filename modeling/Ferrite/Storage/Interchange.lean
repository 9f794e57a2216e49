import Ferrite.Lib.Mealy
import Ferrite.Storage.Writes

/-!
# One store behind two backends

`storage/src/conformance.rs` holds the backends to one set of assertions: whichever one is
configured, the dashboard and the Queries page must read the same.  Here both are driven
through the same sequence of operations, and the two replies of each are compared, up to
the part of a second and to the order of a load that has none.

They do not always agree.  The memory backend drops old entries from the front of its log
only, so an entry written behind a newer one outlives its cutoff (`old_entry_outlives_cutoff`).

* `step_agrees` — one operation that leaves no room to differ;
* `backends_agree` — a run of such operations, reply by reply.
-/

namespace Ferrite.Storage

open List
open Dhcp (StoredLease)
open Rows Table

variable {inner : Memory.Inner} {db : Sqlite.Db}

/-! ## The two machines -/

/-- The operations of the `Storage` trait that read or write what it keeps.  Those that
look at the clock carry what it showed. -/
inductive Op where
  | writeBatch (entries : List QueryEntry) (scope : RecordScope)
  | deleteQueriesOlderThan (cutoffTs : ℤ)
  | deleteAllQueries
  | maxQueryId
  | queryRange (filter : QueryFilter)
  | topDomains (fromTs toTs : ℤ) (n : UInt64)
  | topBlockedDomains (fromTs toTs : ℤ) (n : UInt64)
  | topClients (fromTs toTs : ℤ) (n : UInt64)
  | clientStats (devices : List Text)
  | deviceDomains (devices : List Text) (fromTs : ℤ) (n : UInt64) (blockedFirst : Bool)
  | deviceActivity (devices : List Text) (fromTs : ℤ)
  | summaryCounts (fromTs toTs : ℤ)
  | upsertDevice (now : ℤ) (mac : Text) (hostname : Option Text)
  | loadDevices
  | deleteAllDevices
  | upsertIpBinding (now : ℤ) (ip mac : Text)
  | touchIpBindings (now : ℤ) (ips : List Text)
  | deleteIpBindingsOlderThan (cutoffTs : ℤ)
  | loadIpBindings
  | deleteAllIpBindings
  | upsertDhcpLease (lease : StoredLease)
  | deleteDhcpLease (ip : String)
  | deleteExpiredDhcpLeases (now : ℤ)
  | loadDhcpLeases
  | saveSession (session : StoredSession)
  | deleteSession (tokenHash : Text)
  | loadSessions (now : ℤ)

/-- What an operation returns; `failed` is an error, `panicked` no answer at all. -/
inductive Reply where
  | done
  | failed
  | panicked
  | count (n : ℕ)
  | id (id : UInt64)
  | entries (rows : List QueryEntry)
  | domains (rows : List (Text × ℕ))
  | clients (rows : List ClientStats)
  | client (row : Option ClientStats)
  | deviceDomains (rows : List DeviceDomain)
  | activity (rows : List DeviceActivity)
  | summary (row : SummaryStats)
  | devices (rows : List StoredDevice)
  | bindings (rows : List (Text × Text))
  | ips (rows : List Text)
  | leases (rows : List StoredLease)
  | sessions (rows : List StoredSession)
deriving DecidableEq

/-- The same reply, up to the part of a second and the order of an unordered load. -/
def Reply.Agrees : Reply → Reply → Prop
  | .entries rows, .entries rows' => rows.map QueryEntry.cut = rows'.map QueryEntry.cut
  | .devices rows, .devices rows' => rows ~ rows'
  | .bindings rows, .bindings rows' => rows ~ rows'
  | .ips rows, .ips rows' => rows ~ rows'
  | .leases rows, .leases rows' => rows ~ rows'
  | .sessions rows, .sessions rows' => rows ~ rows'
  | reply, reply' => reply = reply'

/-- An operation on the memory backend. -/
def memoryStep (toLowercase : Text → Text) (inner : Memory.Inner) : Op → Memory.Inner × Reply
  | .writeBatch entries scope => (Memory.writeBatch inner entries scope, .done)
  | .deleteQueriesOlderThan cutoffTs =>
    let (inner, n) := Memory.dropBefore inner cutoffTs
    (inner, .count n)
  | .deleteAllQueries => (Memory.deleteAllQueries inner, .done)
  | .maxQueryId => (inner, .id inner.maxId)
  | .queryRange f => (inner, .entries (Memory.queryRange inner toLowercase f))
  | .topDomains fromTs toTs n => (inner, .domains (Memory.topDomainsIn inner fromTs toTs n false))
  | .topBlockedDomains fromTs toTs n =>
    (inner, .domains (Memory.topDomainsIn inner fromTs toTs n true))
  | .topClients fromTs toTs n => (inner, .clients (Memory.topClients inner fromTs toTs n))
  | .clientStats devices => (inner, .client (Memory.clientStats inner devices))
  | .deviceDomains devices fromTs n blockedFirst =>
    (inner, .deviceDomains (Memory.deviceDomains inner devices fromTs n blockedFirst))
  | .deviceActivity devices fromTs =>
    (inner, .activity (Memory.deviceActivity inner devices fromTs))
  | .summaryCounts fromTs toTs =>
    (inner, ((Memory.summaryCounts inner fromTs toTs).map Reply.summary).getD .panicked)
  | .upsertDevice now mac hostname => (Memory.upsertDevice inner now mac hostname, .done)
  | .loadDevices => (inner, .devices (Memory.loadDevices inner))
  | .deleteAllDevices => (Memory.deleteAllDevices inner, .done)
  | .upsertIpBinding now ip mac => (Memory.upsertIpBinding inner now ip mac, .done)
  | .touchIpBindings now ips => (Memory.touchIpBindings inner now ips, .done)
  | .deleteIpBindingsOlderThan cutoffTs =>
    let (inner, ips) := Memory.deleteIpBindingsOlderThan inner cutoffTs
    (inner, .ips ips)
  | .loadIpBindings => (inner, .bindings (Memory.loadIpBindings inner))
  | .deleteAllIpBindings => (Memory.deleteAllIpBindings inner, .done)
  | .upsertDhcpLease lease => (Memory.upsertDhcpLease inner lease, .done)
  | .deleteDhcpLease ip => (Memory.deleteDhcpLease inner ip, .done)
  | .deleteExpiredDhcpLeases now => (Memory.deleteExpiredDhcpLeases inner now, .done)
  | .loadDhcpLeases => (inner, .leases (Memory.loadDhcpLeases inner))
  | .saveSession session => (Memory.saveSession inner session, .done)
  | .deleteSession tokenHash => (Memory.deleteSession inner tokenHash, .done)
  | .loadSessions now =>
    let (inner, sessions) := Memory.loadSessions inner now
    (inner, .sessions sessions)

/-- An operation on the database. -/
def sqliteStep (db : Sqlite.Db) : Op → Sqlite.Db × Reply
  | .writeBatch entries scope =>
    match Sqlite.writeBatch db entries scope with
    | some db => (db, .done)
    | none => (db, .failed)
  | .deleteQueriesOlderThan cutoffTs =>
    let (db, n) := Sqlite.deleteBefore db cutoffTs
    (db, .count n)
  | .deleteAllQueries => (Sqlite.deleteAllQueries db, .done)
  | .maxQueryId => (db, .id (Sqlite.maxQueryId db))
  | .queryRange f => (db, .entries (Sqlite.queryRange db f))
  | .topDomains fromTs toTs n =>
    (db, .domains (Sqlite.topDomainsRollupQuery db fromTs toTs n false))
  | .topBlockedDomains fromTs toTs n =>
    (db, .domains (Sqlite.topDomainsRollupQuery db fromTs toTs n true))
  | .topClients fromTs toTs n => (db, .clients (Sqlite.topClients db fromTs toTs n))
  | .clientStats devices => (db, .client (Sqlite.clientStats db devices))
  | .deviceDomains devices fromTs n blockedFirst =>
    (db, .deviceDomains (Sqlite.deviceDomains db devices fromTs n blockedFirst))
  | .deviceActivity devices fromTs => (db, .activity (Sqlite.deviceActivity db devices fromTs))
  | .summaryCounts fromTs toTs => (db, .summary (Sqlite.summaryCounts db fromTs toTs))
  | .upsertDevice now mac hostname => (Sqlite.upsertDevice db now mac hostname, .done)
  | .loadDevices => (db, .devices (Sqlite.loadDevices db))
  | .deleteAllDevices => (Sqlite.deleteAllDevices db, .done)
  | .upsertIpBinding now ip mac => (Sqlite.upsertIpBinding db now ip mac, .done)
  | .touchIpBindings now ips => (Sqlite.touchIpBindings db now ips, .done)
  | .deleteIpBindingsOlderThan cutoffTs =>
    let (db, ips) := Sqlite.deleteIpBindingsOlderThan db cutoffTs
    (db, .ips ips)
  | .loadIpBindings => (db, .bindings (Sqlite.loadIpBindings db))
  | .deleteAllIpBindings => (Sqlite.deleteAllIpBindings db, .done)
  | .upsertDhcpLease lease => (Sqlite.upsertDhcpLease db lease, .done)
  | .deleteDhcpLease ip => (Sqlite.deleteDhcpLease db ip, .done)
  | .deleteExpiredDhcpLeases now => (Sqlite.deleteExpiredDhcpLeases db now, .done)
  | .loadDhcpLeases => (db, .leases (Sqlite.loadDhcpLeases db))
  | .saveSession session => (Sqlite.saveSession db session, .done)
  | .deleteSession tokenHash => (Sqlite.deleteSession db tokenHash, .done)
  | .loadSessions now =>
    let (db, sessions) := Sqlite.loadSessions db now
    (db, .sessions sessions)

/-- Both backends behind one operation. -/
def step (toLowercase : Text → Text) (s : Memory.Inner × Sqlite.Db) (op : Op) :
    (Memory.Inner × Sqlite.Db) × (Reply × Reply) :=
  (((memoryStep toLowercase s.1 op).1, (sqliteStep s.2 op).1),
    ((memoryStep toLowercase s.1 op).2, (sqliteStep s.2 op).2))

/-! ## What a run may do -/

/-- The entries an operation writes. -/
def Op.written : Op → List QueryEntry
  | .writeBatch entries _ => entries
  | _ => []

/-- No two entries of a run have the same id. -/
def DistinctIds (ops : List Op) : Prop := ((ops.flatMap Op.written).map QueryEntry.id).Nodup

instance (ops : List Op) : Decidable (DistinctIds ops) := inferInstanceAs (Decidable (Nodup _))

/-- What is written to the log fits in the ring. -/
def FitsRing (inner : Memory.Inner) : Op → Prop
  | .writeBatch entries scope =>
    inner.queries.length + (logged entries scope).length ≤ inner.maxEntries
  | _ => True

/-- Both stores stay under their limits: the ring of the one, and the rows a table of the
other can count. -/
structure UnderLimits (s : Memory.Inner × Sqlite.Db) (op : Op) : Prop where
  ring : FitsRing s.1 op
  domainRows : s.2.domainBuckets.entries.length < 2 ^ 63
  deviceRows : s.2.deviceBuckets.entries.length < 2 ^ 63

/-- The operation leaves the backends no room to differ:

* the entries a deletion is after are the first in the log;
* the highest id there ever was is asked for while it is logged;
* ids, cursor and offset are in the range of a column, and lowercasing the text looked for
  and the domains in the log is a matter of ASCII;
* a range of buckets does not end before it starts;
* a session that is saved again was signed in as the stored one says. -/
def Unambiguous (toLowercase : Text → Text) (inner : Memory.Inner) : Op → Prop
  | .deleteQueriesOlderThan cutoffTs => OldestFirst inner cutoffTs
  | .maxQueryId => SignedIds inner ∧
      ((inner.queries = [] ∧ inner.maxId = 0) ∨ ∃ e ∈ inner.queries, e.id = inner.maxId)
  | .queryRange f => SignedIds inner ∧ PlainCase toLowercase inner f ∧
      (∀ c, f.cursor = some c → c.2.toNat < 2 ^ 63) ∧
      (f.cursor = none → (f.offset.getD 0).toNat < 2 ^ 63)
  | .summaryCounts fromTs toTs => alignBucket fromTs ≤ alignBucket toTs
  | .saveSession session => ∀ old, inner.sessions.lookup session.tokenHash = some old →
      old.created = session.created ∧ old.agent = session.agent ∧ old.ip = session.ip
  | _ => True

/-! ## The log stays bounded, and its ids are written ones -/

/-- The log fits its ring, and the ring its ceiling. -/
def Sized (inner : Memory.Inner) : Prop :=
  inner.queries.length ≤ inner.maxEntries ∧ inner.maxEntries ≤ Memory.defaultMaxEntries

theorem Sized.openStorage (maxBytes : ℕ) : Sized (Memory.openStorage maxBytes) := by
  refine ⟨Nat.zero_le _, ?_⟩
  change (if maxBytes = 0 then Memory.defaultMaxEntries else Memory.entriesForBytes maxBytes) ≤ _
  split
  · exact le_refl _
  · exact min_le_right ..

theorem Sized.length_lt (h : Sized inner) : inner.queries.length < 2 ^ 63 := by
  have hceiling : Memory.defaultMaxEntries < 2 ^ 63 := by decide
  exact lt_of_le_of_lt (h.1.trans h.2) hceiling

theorem length_enforceRingCap (inner : Memory.Inner) :
    (Memory.enforceRingCap inner).queries.length ≤ inner.maxEntries := by
  rw [Memory.enforceRingCap, length_drop]
  omega

theorem Sized.memoryStep (h : Sized inner) (toLowercase : Text → Text) (op : Op) :
    Sized (memoryStep toLowercase inner op).1 := by
  cases op with
  | writeBatch entries scope =>
    simp only [Storage.memoryStep, Memory.writeBatch]
    split
    · exact h
    · refine ⟨length_enforceRingCap _, ?_⟩
      rw [foldl_writeEntry]
      exact h.2
  | deleteQueriesOlderThan cutoffTs =>
    exact ⟨(dropWhile_sublist _).length_le.trans h.1, h.2⟩
  | deleteAllQueries => exact ⟨Nat.zero_le _, h.2⟩
  | _ => exact h

/-- A step keeps entries of the log, in their order, and adds none but those written. -/
theorem memoryStep_ids (toLowercase : Text → Text) (inner : Memory.Inner) (op : Op) :
    (memoryStep toLowercase inner op).1.queries.map QueryEntry.id <+
      inner.queries.map QueryEntry.id ++ op.written.map QueryEntry.id := by
  have hkeep : inner.queries.map QueryEntry.id <+
      inner.queries.map QueryEntry.id ++ op.written.map QueryEntry.id := sublist_append_left ..
  cases op with
  | writeBatch entries scope =>
    simp only [Storage.memoryStep, Memory.writeBatch, Op.written]
    split
    · exact hkeep
    · rw [foldl_writeEntry, Memory.enforceRingCap]
      refine ((drop_sublist ..).map _).trans ?_
      rw [map_append]
      refine (Sublist.refl _).append ?_
      unfold logged
      split
      · rw [map_map]
        exact Sublist.refl _
      · exact nil_sublist _
  | deleteQueriesOlderThan cutoffTs =>
    exact ((dropWhile_sublist _).map _).trans hkeep
  | deleteAllQueries => exact nil_sublist _
  | _ => exact hkeep

/-! ## One operation -/

@[simp] theorem QueryEntry.cut_cut (e : QueryEntry) : e.cut.cut = e.cut := rfl

theorem iter_map_perm {K V W B O : Type} [DecidableEq K] [LinearOrder O] {f : K → W → V}
    {t : Table K V} {s : Table K W} (h : Shows f t s) (order : K → O) (read : K → V → B) :
    (Memory.iter order t).map (fun e => read e.1 e.2) ~
      s.entries.map fun e => read e.1 (f e.1 e.2) := by
  refine (((iter_perm order t).trans h.entries_perm).map _).trans (Perm.of_eq ?_)
  rw [map_map]
  rfl

/-- **One operation.**  On mirrors, an operation that leaves no room to differ gets the
same reply from both, and leaves mirrors. -/
theorem step_agrees {toLowercase : Text → Text} {s : Memory.Inner × Sqlite.Db} {op : Op}
    (h : Mirrors s.1 s.2) (hsized : Sized s.1)
    (hids : (s.1.queries.map QueryEntry.id ++ op.written.map QueryEntry.id).Nodup)
    (hlimits : UnderLimits s op) (hop : Unambiguous toLowercase s.1 op) :
    (step toLowercase s op).2.1.Agrees (step toLowercase s op).2.2 ∧
      Mirrors (step toLowercase s op).1.1 (step toLowercase s op).1.2 := by
  cases op with
  | writeBatch entries scope =>
    rw [Op.written] at hids
    obtain ⟨-, hnodup, hdisjoint⟩ := nodup_append.1 hids
    have hfresh : ∀ e ∈ entries, ∀ x ∈ s.1.queries, x.id ≠ e.id := fun e he x hx =>
      hdisjoint _ (mem_map_of_mem hx) _ (mem_map_of_mem he)
    obtain ⟨db', hwrite, hmirrors⟩ := h.writeBatch hnodup hfresh hlimits.ring
    simp only [step, memoryStep, sqliteStep, hwrite]
    exact ⟨rfl, hmirrors⟩
  | deleteQueriesOlderThan cutoffTs =>
    obtain ⟨hcount, hmirrors⟩ := h.dropBefore hop
    exact ⟨congrArg Reply.count hcount, hmirrors⟩
  | deleteAllQueries =>
    refine ⟨rfl, { h with
      queries := Perm.refl _, tagged := by simp [step, memoryStep, Memory.deleteAllQueries],
      maxId := by simp [step, memoryStep, Memory.deleteAllQueries], queryBuckets := Shows.empty,
      domainBuckets := Shows.empty, deviceBuckets := Shows.empty,
      lastSeen := by simp [step, sqliteStep, Sqlite.deleteAllQueries] }⟩
  | maxQueryId => exact ⟨congrArg Reply.id (h.maxQueryId hop.1 hop.2).symm, h⟩
  | queryRange f =>
    obtain ⟨hsigned, hcase, hcursor, hoffset⟩ := hop
    refine ⟨?_, h⟩
    have hrows := h.queryRange hcase hsigned hcursor hoffset hsized.length_lt
    change _ = (Sqlite.queryRange s.2 f).map QueryEntry.cut
    rw [hrows, map_map]
    rfl
  | topDomains fromTs toTs n =>
    exact ⟨congrArg Reply.domains (h.topDomains fromTs toTs n false hlimits.domainRows), h⟩
  | topBlockedDomains fromTs toTs n =>
    exact ⟨congrArg Reply.domains (h.topDomains fromTs toTs n true hlimits.domainRows), h⟩
  | topClients fromTs toTs n =>
    exact ⟨congrArg Reply.clients (h.topClients fromTs toTs n hlimits.deviceRows), h⟩
  | clientStats devices => exact ⟨congrArg Reply.client (h.clientStats devices), h⟩
  | deviceDomains devices fromTs n blockedFirst =>
    exact ⟨congrArg Reply.deviceDomains
      (h.deviceDomains devices fromTs n blockedFirst hsized.length_lt), h⟩
  | deviceActivity devices fromTs =>
    exact ⟨congrArg Reply.activity (h.deviceActivity devices fromTs), h⟩
  | summaryCounts fromTs toTs =>
    refine ⟨?_, h⟩
    simp only [step, memoryStep, sqliteStep, h.summaryCounts hop]
    rfl
  | upsertDevice now mac hostname => exact ⟨rfl, h.upsertDevice now mac hostname⟩
  | loadDevices =>
    exact ⟨iter_map_perm h.devices id fun mac d => StoredDevice.mk mac d.1 d.2, h⟩
  | deleteAllDevices => exact ⟨rfl, { h with devices := Shows.empty }⟩
  | upsertIpBinding now ip mac => exact ⟨rfl, h.upsertIpBinding now ip mac⟩
  | touchIpBindings now ips =>
    exact ⟨rfl, { h with ipBindings := shows_touchIpBindings now ips h.ipBindings }⟩
  | deleteIpBindingsOlderThan cutoffTs => exact h.deleteIpBindingsOlderThan cutoffTs
  | loadIpBindings => exact ⟨iter_map_perm h.ipBindings id fun ip b => (ip, b.mac), h⟩
  | deleteAllIpBindings => exact ⟨rfl, { h with ipBindings := Shows.empty }⟩
  | upsertDhcpLease lease =>
    refine ⟨rfl, { h with dhcpLeases := h.dhcpLeases.insert ?_ }⟩
    cases s.2.dhcpLeases.lookup lease.ip with
    | none => rfl
    | some old => rfl
  | deleteDhcpLease ip => exact ⟨rfl, { h with dhcpLeases := h.dhcpLeases.erase ip }⟩
  | deleteExpiredDhcpLeases now =>
    refine ⟨rfl, { h with dhcpLeases := h.dhcpLeases.retain fun ip row => ?_ }⟩
    change decide (now < row.expiresAt) = !decide (row.expiresAt ≤ now)
    simp [← decide_not]
  | loadDhcpLeases => exact ⟨iter_map_perm h.dhcpLeases id fun _ lease => lease, h⟩
  | saveSession session => exact ⟨rfl, h.saveSession hop⟩
  | deleteSession tokenHash => exact ⟨rfl, { h with sessions := h.sessions.erase tokenHash }⟩
  | loadSessions now =>
    have hkept : Shows Sqlite.sessionOf (s.1.sessions.retain fun _ x => decide (now < x.expires))
        (s.2.sessions.retain fun _ x => !decide (x.expires ≤ now)) :=
      h.sessions.retain fun hash row => by
        change decide (now < row.expires) = !decide (row.expires ≤ now)
        simp [← decide_not]
    exact ⟨iter_map_perm hkept id fun _ session => session, { h with sessions := hkept }⟩

/-! ## Runs -/

/-- Both backends, newly opened. -/
def openBoth (maxBytes : ℕ) : Memory.Inner × Sqlite.Db :=
  (Memory.openStorage maxBytes, Sqlite.openStorage)

theorem agrees_of_mirrors {toLowercase : Text → Text} {s : Memory.Inner × Sqlite.Db}
    {ops : List Op} (h : Mirrors s.1 s.2) (hsized : Sized s.1)
    (hids : (s.1.queries.map QueryEntry.id ++
      (ops.flatMap Op.written).map QueryEntry.id).Nodup)
    (hlimits : ∀ x ∈ Mealy.trace (step toLowercase) s ops, UnderLimits x.before x.event)
    (hops : ∀ x ∈ Mealy.trace (step toLowercase) s ops,
      Unambiguous toLowercase x.before.1 x.event) :
    ∀ x ∈ Mealy.trace (step toLowercase) s ops, x.output.1.Agrees x.output.2 := by
  induction ops generalizing s with
  | nil => simp
  | cons op ops ih =>
    rw [flatMap_cons, map_append, ← append_assoc] at hids
    obtain ⟨hreply, hnext⟩ := step_agrees h hsized (nodup_append.1 hids).1
      (hlimits _ (mem_cons_self ..)) (hops _ (mem_cons_self ..))
    intro x hx
    rcases mem_cons.1 hx with rfl | hx
    · exact hreply
    · refine ih hnext (hsized.memoryStep toLowercase op) ?_
        (fun y hy => hlimits y (mem_cons_of_mem _ hy))
        (fun y hy => hops y (mem_cons_of_mem _ hy)) x hx
      exact hids.sublist ((memoryStep_ids toLowercase s.1 op).append (Sublist.refl _))

/-- **The backends agree.**  Whatever a run of operations does, every reply of the memory
backend is that of the database, as long as no operation leaves them room to differ. -/
theorem backends_agree (toLowercase : Text → Text) (maxBytes : ℕ) (ops : List Op)
    (hids : DistinctIds ops)
    (hlimits : ∀ x ∈ Mealy.trace (step toLowercase) (openBoth maxBytes) ops,
      UnderLimits x.before x.event)
    (hops : ∀ x ∈ Mealy.trace (step toLowercase) (openBoth maxBytes) ops,
      Unambiguous toLowercase x.before.1 x.event) :
    ∀ x ∈ Mealy.trace (step toLowercase) (openBoth maxBytes) ops,
      x.output.1.Agrees x.output.2 :=
  agrees_of_mirrors (Mirrors.openStorage maxBytes) (Sized.openStorage maxBytes) hids hlimits hops

/-- A blocked query of one client. -/
def blockedQuery (id : UInt64) (secs : ℤ) : QueryEntry where
  domain := "Ads.test".toList
  queryType := 1
  clientIp := "192.0.2.10".toList
  device := []
  status := .blocked
  upstream := none
  rcode := 0
  id := id
  timestamp := ⟨secs, 250⟩
  latencyMs := 1

/-- Two queries in their order, looked up by domain, trimmed by age and asked for the
highest id. -/
def orderedRun : List Op :=
  [.writeBatch [blockedQuery 1 100, blockedQuery 2 160] ⟨true, true⟩,
    .queryRange ⟨none, none, some "ads".toList, [], [], none, some 10, none, none, none⟩,
    .deleteQueriesOlderThan 150,
    .maxQueryId]

theorem backends_agree_ordered :
    DistinctIds orderedRun ∧
      ∀ x ∈ Mealy.trace (step Text.toAsciiLowercase) (openBoth 0) orderedRun,
        x.output.1.Agrees x.output.2 := by
  have hids : DistinctIds orderedRun := by decide
  refine ⟨hids, backends_agree Text.toAsciiLowercase 0 orderedRun hids ?_ ?_⟩
  · have hrows : ∀ x ∈ Mealy.trace (step Text.toAsciiLowercase) (openBoth 0) orderedRun,
        x.before.2.domainBuckets.entries.length < 2 ^ 63 ∧
          x.before.2.deviceBuckets.entries.length < 2 ^ 63 := by
      decide +kernel
    intro x hx
    refine ⟨?_, (hrows x hx).1, (hrows x hx).2⟩
    simp only [orderedRun, Mealy.trace, mem_cons, not_mem_nil, or_false] at hx
    rcases hx with rfl | rfl | rfl | rfl
    · change _ ≤ _
      decide +kernel
    · trivial
    · trivial
    · trivial
  · have hlog : ∀ x ∈ Mealy.trace (step Text.toAsciiLowercase) (openBoth 0) orderedRun,
        ∀ e ∈ x.before.1.queries, e.id.toNat < 2 ^ 63 := by
      decide +kernel
    intro x hx
    have hsigned : SignedIds x.before.1 := hlog x hx
    simp only [orderedRun, Mealy.trace, mem_cons, not_mem_nil, or_false] at hx
    rcases hx with rfl | rfl | rfl | rfl
    · trivial
    · refine ⟨hsigned, fun d _ => ⟨rfl, fun e _ => rfl⟩, ?_, fun _ => by decide⟩
      intro c hc
      cases hc
    · change List.Pairwise _ _
      decide +kernel
    · refine ⟨hsigned, Or.inr ?_⟩
      decide +kernel

/-- An entry is written behind a newer one, and then everything older than a cutoff
between them is deleted. -/
def lateRun : List Op :=
  [.writeBatch [blockedQuery 1 100, blockedQuery 2 50] ⟨true, true⟩, .deleteQueriesOlderThan 80]

/-- The memory backend stops at the newer one and deletes nothing, the database deletes
the old entry. -/
theorem old_entry_outlives_cutoff :
    DistinctIds lateRun ∧
      (∀ x ∈ Mealy.trace (step Text.toAsciiLowercase) (openBoth 0) lateRun,
        UnderLimits x.before x.event) ∧
      ¬ ∀ x ∈ Mealy.trace (step Text.toAsciiLowercase) (openBoth 0) lateRun,
        x.output.1.Agrees x.output.2 := by
  refine ⟨by decide, ?_, ?_⟩
  · have hrows : ∀ x ∈ Mealy.trace (step Text.toAsciiLowercase) (openBoth 0) lateRun,
        x.before.2.domainBuckets.entries.length < 2 ^ 63 ∧
          x.before.2.deviceBuckets.entries.length < 2 ^ 63 := by
      decide +kernel
    intro x hx
    refine ⟨?_, (hrows x hx).1, (hrows x hx).2⟩
    simp only [lateRun, Mealy.trace, mem_cons, not_mem_nil, or_false] at hx
    rcases hx with rfl | rfl
    · change _ ≤ _
      decide +kernel
    · trivial
  · intro hagree
    have hreply : ((Mealy.trace (step Text.toAsciiLowercase) (openBoth 0) lateRun).getLast?.map
        fun x => x.output) = some (Reply.count 0, Reply.count 1) := by
      decide +kernel
    obtain ⟨x, hlast, hx⟩ := Option.map_eq_some_iff.1 hreply
    have := hagree x (mem_of_getLast? hlast)
    rw [hx] at this
    cases this

end Ferrite.Storage
