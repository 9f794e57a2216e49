import Ferrite.Storage.Memory
import Ferrite.Storage.Sqlite

/-!
# Two states of one store

`Mirrors inner db` says that the memory backend and the database hold the same: the rows
of `queries` are those of the log, in some order, the rollups agree bucket by bucket and
the other tables key by key.

* `Mirrors.queryRange` … `Mirrors.summaryCounts` — states that mirror each other answer a
  read alike, where the read leaves no room to differ;
* `Mirrors.writeBatch`, `Mirrors.dropBefore` — the two writes to the log keep it so.
-/

namespace Ferrite.Storage

open List
open Dhcp (StoredLease asI64)
open Rows Table

/-- The row of an entry, under its id. -/
def keyedRow (e : QueryEntry) : Sigma fun _ : ℤ => Sqlite.QueryRow :=
  ⟨asI64 e.id.toNat, Sqlite.rowOf e⟩

/-- The two backends hold the same. -/
structure Mirrors (inner : Memory.Inner) (db : Sqlite.Db) : Prop where
  queries : db.queries.entries ~ inner.queries.map keyedRow
  tagged : ∀ e ∈ inner.queries, e.tagged = e
  maxId : ∀ e ∈ inner.queries, e.id.toNat ≤ inner.maxId.toNat
  queryBuckets : Shows (fun _ b => b) inner.queryBuckets db.queryBuckets
  domainBuckets : Shows (fun _ b => b) inner.domainBuckets db.domainBuckets
  deviceBuckets : Shows (fun _ b => b) inner.deviceBuckets db.deviceBuckets
  lastSeen : ∀ k b, db.deviceBuckets.lookup k = some b → 0 ≤ b.lastSeen
  devices : Shows (fun _ r => (r.hostname, r.firstSeen)) inner.devices db.devices
  ipBindings : Shows (fun _ b => b) inner.ipBindings db.ipBindings
  dhcpLeases : Shows Sqlite.leaseOf inner.dhcpLeases db.dhcpLeases
  sessions : Shows Sqlite.sessionOf inner.sessions db.sessions

theorem Mirrors.openStorage (maxBytes : ℕ) :
    Mirrors (Memory.openStorage maxBytes) Sqlite.openStorage where
  queries := Perm.refl _
  tagged := by simp [Memory.openStorage]
  maxId := by simp [Memory.openStorage]
  queryBuckets := Shows.empty
  domainBuckets := Shows.empty
  deviceBuckets := Shows.empty
  lastSeen := by simp [Sqlite.openStorage]
  devices := Shows.empty
  ipBindings := Shows.empty
  dhcpLeases := Shows.empty
  sessions := Shows.empty

@[simp] theorem QueryEntry.tagged_tagged (e : QueryEntry) : e.tagged.tagged = e.tagged := by
  have htoken : e.tagged.deviceToken = e.deviceToken := by
    unfold QueryEntry.tagged QueryEntry.deviceToken
    by_cases hdevice : e.device.isEmpty <;> by_cases hip : e.clientIp.isEmpty <;>
      simp_all [List.isEmpty_iff]
  rw [QueryEntry.tagged, htoken]
  rfl

variable {inner : Memory.Inner} {db : Sqlite.Db}

theorem iter_perm {K V O : Type} [LinearOrder O] (order : K → O) (t : Table K V) :
    Memory.iter order t ~ t.entries :=
  orderBy_perm ..

/-- A token that is stored is the tag. -/
theorem Mirrors.deviceToken (h : Mirrors inner db) {e : QueryEntry} (he : e ∈ inner.queries) :
    e.deviceToken = e.device :=
  congrArg (fun e => e.device) (h.tagged e he)

/-! ## The log -/

/-- The lowercasing the memory backend filters by is the one `LIKE` goes by, on the text
looked for and on the domains that are logged. -/
def PlainCase (toLowercase : Text → Text) (inner : Memory.Inner) (f : QueryFilter) : Prop :=
  ∀ d, f.domain = some d → toLowercase d = d.toAsciiLowercase ∧
    ∀ e ∈ inner.queries, toLowercase e.domain = e.domain.toAsciiLowercase

/-- The ids in the log are in the range of a column. -/
def SignedIds (inner : Memory.Inner) : Prop := ∀ e ∈ inner.queries, e.id.toNat < 2 ^ 63

theorem Mirrors.accepts (h : Mirrors inner db) {toLowercase : Text → Text} {f : QueryFilter}
    (hcase : PlainCase toLowercase inner f) (hids : SignedIds inner)
    (hcursor : ∀ c, f.cursor = some c → c.2.toNat < 2 ^ 63) {e : QueryEntry}
    (he : e ∈ inner.queries) :
    Sqlite.accepts f (keyedRow e) = Memory.accepts toLowercase f e := by
  have hfrom : f.fromTs.all (fun t => decide (t ≤ e.secs)) =
      !f.fromTs.any fun t => decide (e.secs < t) := by
    cases f.fromTs <;> simp [← decide_not]
  have hto : f.toTs.all (fun t => decide (e.secs ≤ t)) =
      !f.toTs.any fun t => decide (t < e.secs) := by
    cases f.toTs <;> simp [← decide_not]
  have hdomain : f.domain.all (fun d => Sqlite.like '\\' (Sqlite.likePattern d) e.domain) =
      f.domain.all fun d => (toLowercase e.domain).hasInfix (toLowercase d) := by
    cases hd : f.domain with
    | none => rfl
    | some d =>
      obtain ⟨hneedle, hlog⟩ := hcase d hd
      simp only [Option.all_some, Sqlite.like_likePattern, hneedle, hlog e he]
  have hseek : f.cursor.all (fun c => decide (e.secs < c.1) ||
        (decide (e.secs = c.1) && decide (asI64 e.id.toNat < asI64 c.2.toNat))) =
      f.cursor.all fun c => decide (e.secs < c.1) ||
        (decide (e.secs = c.1) && decide (e.id < c.2)) := by
    cases hc : f.cursor with
    | none => rfl
    | some c =>
      have hlt : asI64 e.id.toNat < asI64 c.2.toNat ↔ e.id < c.2 := by
        rw [Sqlite.asI64_of_lt (hids e he), Sqlite.asI64_of_lt (hcursor c hc), Int.ofNat_lt,
          UInt64.lt_iff_toNat_lt]
      simp only [Option.all_some, hlt]
  have hdevice : (some e.deviceToken).any (fun d => decide (d ∈ f.devices)) =
      decide (e.device ∈ f.devices) := by
    rw [h.deviceToken he]
    rfl
  have hrow : Sqlite.accepts f (keyedRow e) =
      (f.fromTs.all (fun t => decide (t ≤ e.secs)) && f.toTs.all (fun t => decide (e.secs ≤ t)) &&
        f.domain.all (fun d => Sqlite.like '\\' (Sqlite.likePattern d) e.domain) &&
        (f.clientIps.isEmpty && f.devices.isEmpty || decide (e.clientIp ∈ f.clientIps) ||
          (some e.deviceToken).any fun d => decide (d ∈ f.devices)) &&
        f.status.all (fun s => decide (asStr e.status = s)) &&
        f.cursor.all fun c => decide (e.secs < c.1) ||
          (decide (e.secs = c.1) && decide (asI64 e.id.toNat < asI64 c.2.toNat))) := rfl
  rw [hrow, hfrom, hto, hdomain, hdevice, hseek]
  rfl

/-- An id is in the table once. -/
theorem Mirrors.keyedRow_inj (h : Mirrors inner db) {a b : QueryEntry} (ha : a ∈ inner.queries)
    (hb : b ∈ inner.queries) (hab : asI64 a.id.toNat = asI64 b.id.toNat) :
    keyedRow a = keyedRow b := by
  have hmem : ∀ e ∈ inner.queries, keyedRow e ∈ db.queries.entries := fun e he =>
    h.queries.symm.subset (mem_map_of_mem he)
  exact db.queries.nodupKeys.eq_of_fst_eq (hmem a ha) (hmem b hb) hab

/-- The rows a filter selects, in their order, are those of the entries it selects. -/
theorem Mirrors.orderBy_filter (h : Mirrors inner db) {toLowercase : Text → Text}
    {f : QueryFilter} (hcase : PlainCase toLowercase inner f) (hids : SignedIds inner)
    (hcursor : ∀ c, f.cursor = some c → c.2.toNat < 2 ^ 63) :
    orderBy Sqlite.newestFirst (db.queries.entries.filter (Sqlite.accepts f)) =
      (orderBy Memory.newestFirst (inner.queries.filter (Memory.accepts toLowercase f))).map
        keyedRow := by
  have hselected : (inner.queries.map keyedRow).filter (Sqlite.accepts f) =
      (inner.queries.filter (Memory.accepts toLowercase f)).map keyedRow := by
    rw [filter_map]
    exact congrArg (map keyedRow)
      (filter_congr fun e he => h.accepts hcase hids hcursor he)
  have hmem : ∀ e ∈ inner.queries.filter (Memory.accepts toLowercase f), e ∈ inner.queries :=
    fun e he => (mem_filter.1 he).1
  have hrows : ∀ a ∈ db.queries.entries.filter (Sqlite.accepts f),
      ∀ b ∈ db.queries.entries.filter (Sqlite.accepts f),
        Sqlite.newestFirst a = Sqlite.newestFirst b → a = b := by
    intro a ha b hb hab
    have hid : a.1 = b.1 := congrArg (fun k : ℤᵒᵈ ×ₗ ℤᵒᵈ => OrderDual.ofDual (ofLex k).2) hab
    exact db.queries.nodupKeys.eq_of_fst_eq (mem_filter.1 ha).1 (mem_filter.1 hb).1 hid
  rw [orderBy_eq_of_perm (h.queries.filter _) hrows, hselected]
  symm
  refine orderBy_map keyedRow _ ?_ ?_
  · intro a ha b hb hab
    have hida := Sqlite.asI64_of_lt (hids a (hmem a ha))
    have hidb := Sqlite.asI64_of_lt (hids b (hmem b hb))
    simp only [Memory.newestFirst, Prod.Lex.toLex_le_toLex, OrderDual.toDual_lt_toDual,
      OrderDual.toDual_inj, OrderDual.toDual_le_toDual] at hab
    simp only [Sqlite.newestFirst, keyedRow, Sqlite.rowOf, Prod.Lex.toLex_le_toLex,
      OrderDual.toDual_lt_toDual, OrderDual.toDual_inj, OrderDual.toDual_le_toDual, hida, hidb]
    omega
  · intro a ha b hb hab
    have hid : asI64 a.id.toNat = asI64 b.id.toNat :=
      congrArg (fun k : ℤᵒᵈ ×ₗ ℤᵒᵈ => OrderDual.ofDual (ofLex k).2) hab
    exact h.keyedRow_inj (hmem a ha) (hmem b hb) hid

/-- **`query_range`** returns the same entries in the same order. -/
theorem Mirrors.queryRange (h : Mirrors inner db) {toLowercase : Text → Text} {f : QueryFilter}
    (hcase : PlainCase toLowercase inner f) (hids : SignedIds inner)
    (hcursor : ∀ c, f.cursor = some c → c.2.toNat < 2 ^ 63)
    (hoffset : f.cursor = none → (f.offset.getD 0).toNat < 2 ^ 63)
    (hsize : inner.queries.length < 2 ^ 63) :
    Sqlite.queryRange db f =
      (Memory.queryRange inner toLowercase f).map QueryEntry.cut := by
  have hread : ∀ rows : List QueryEntry, rows ⊆ inner.queries →
      (rows.map keyedRow).map Sqlite.entryOf = rows.map QueryEntry.cut := by
    intro rows hrows
    rw [map_map]
    refine map_congr_left fun e he => ?_
    rw [Function.comp_apply, keyedRow, Sqlite.entryOf_rowOf, h.tagged e (hrows he)]
  have hsub : orderBy Memory.newestFirst (inner.queries.filter (Memory.accepts toLowercase f)) ⊆
      inner.queries := fun e he => (mem_filter.1 ((orderBy_perm _ _).subset he)).1
  have hlen : (orderBy Memory.newestFirst
      (inner.queries.filter (Memory.accepts toLowercase f))).length < 2 ^ 63 := by
    rw [length_orderBy]
    exact lt_of_le_of_lt (length_filter_le ..) hsize
  unfold Sqlite.queryRange Memory.queryRange
  simp only [h.orderBy_filter hcase hids hcursor]
  cases hc : f.cursor with
  | some c =>
    simp only [Option.isNone_some, Option.isSome_some, if_true, Bool.false_eq_true, if_false,
      UInt64.toNat_zero, drop_zero]
    rw [Sqlite.limitTo_eq_take _ (by simpa using hlen), ← map_take,
      hread _ fun e he => hsub (take_subset _ _ he)]
  | none =>
    simp only [Option.isNone_none, Option.isSome_none, if_true, Bool.false_eq_true, if_false]
    rw [Sqlite.offsetBy_eq_drop (hoffset hc), ← map_drop,
      Sqlite.limitTo_eq_take _ (by rw [length_map, length_drop]; omega), ← map_take,
      hread _ fun e he => hsub (drop_subset _ _ (take_subset _ _ he))]

/-- **`max_query_id`** is the highest id, if that is still logged. -/
theorem Mirrors.maxQueryId (h : Mirrors inner db) (hids : SignedIds inner)
    (hlogged : (inner.queries = [] ∧ inner.maxId = 0) ∨
      ∃ e ∈ inner.queries, e.id = inner.maxId) :
    Sqlite.maxQueryId db = inner.maxId := by
  have hkeys : ∀ i, i ∈ db.queries.entries.map (fun e => e.1) ↔
      ∃ e ∈ inner.queries, asI64 e.id.toNat = i := by
    intro i
    rw [(h.queries.map _).mem_iff, map_map, mem_map]
    rfl
  rcases hlogged with ⟨hempty, hzero⟩ | ⟨e, he, hid⟩
  · have hnone : db.queries.entries = [] := by
      have := h.queries
      rw [hempty] at this
      exact this.eq_nil
    rw [Sqlite.maxQueryId, hnone, hzero]
    rfl
  · have hmax : (db.queries.entries.map fun e => e.1).max? = some (asI64 inner.maxId.toNat) := by
      rw [max?_eq_some_iff, hkeys]
      refine ⟨⟨e, he, by rw [hid]⟩, fun i hi => ?_⟩
      obtain ⟨x, hx, rfl⟩ := (hkeys i).1 hi
      have hbound := hids e he
      rw [hid] at hbound
      rw [Sqlite.asI64_of_lt (hids x hx), Sqlite.asI64_of_lt hbound]
      exact_mod_cast h.maxId x hx
    rw [Sqlite.maxQueryId, hmax, Option.getD_some, Sqlite.asU64_asI64]

/-! ## The rollups -/

theorem foldl_add_eq_sum {R : Type} (value : R → ℕ) (rows : List R) :
    rows.foldl (fun c r => c + value r) 0 = (rows.map value).sum := by
  rw [sum_eq_foldl, foldl_map]

theorem max?_perm {xs ys : List ℤ} (h : xs ~ ys) : xs.max? = ys.max? := by
  refine Option.ext fun a => ?_
  simp only [max?_eq_some_iff, h.mem_iff]

/-- The first rows in an order that tells them apart do not depend on how they came. -/
theorem take_orderBy_eq_limitTo {R O : Type} [LinearOrder O] {key : R → O} {rows rows' : List R}
    (n : UInt64) (hperm : rows ~ rows')
    (hinj : ∀ a ∈ rows', ∀ b ∈ rows', key a = key b → a = b) (hsize : rows'.length < 2 ^ 63) :
    (orderBy key rows).take n.toNat = Sqlite.limitTo n (orderBy key rows') := by
  rw [Sqlite.limitTo_eq_take n (by rwa [length_orderBy]),
    orderBy_eq_of_perm hperm.symm hinj]

/-- The buckets a range selects. -/
theorem iter_filter_perm {V : Type} {t s : Table (ℤ × Text) V}
    (h : Shows (fun _ b => b) t s) (fromTs toTs : ℤ) :
    (Memory.iter toLex t).filter (fun e =>
        !(decide (e.1.1 < alignBucket fromTs) || decide (alignBucket toTs < e.1.1))) ~
      s.entries.filter fun e =>
        decide (alignBucket fromTs ≤ e.1.1) && decide (e.1.1 ≤ alignBucket toTs) := by
  have hrange : (fun e : Sigma fun _ : ℤ × Text => V =>
      !(decide (e.1.1 < alignBucket fromTs) || decide (alignBucket toTs < e.1.1))) =
      fun e => decide (alignBucket fromTs ≤ e.1.1) && decide (e.1.1 ≤ alignBucket toTs) := by
    funext e
    simp [← decide_not]
  rw [hrange]
  exact ((iter_perm toLex t).trans h.entries_perm_self).filter _

/-- **`top_domains`** and **`top_blocked_domains`**. -/
theorem Mirrors.topDomains (h : Mirrors inner db) (fromTs toTs : ℤ) (n : UInt64)
    (blockedOnly : Bool) (hsize : db.domainBuckets.entries.length < 2 ^ 63) :
    Memory.topDomainsIn inner fromTs toTs n blockedOnly =
      Sqlite.topDomainsRollupQuery db fromTs toTs n blockedOnly := by
  unfold Memory.topDomainsIn Sqlite.topDomainsRollupQuery
  refine take_orderBy_eq_limitTo n ?_ ?_ ?_
  · -- the `HAVING` is the filter on the map
    rw [show (fun e : Sigma fun _ : Text => ℕ => decide (0 < e.2)) =
        (fun g : Text × ℕ => decide (0 < g.2)) ∘ fun e => (e.1, e.2) from rfl, ← filter_map]
    refine Perm.filter _ (map_tally_perm_groupBy ?_ ?_ (iter_filter_perm h.domainBuckets ..))
    · intro k rs _ _
      rw [foldl_add_eq_sum]
    · intro k rs rs' hrs
      rw [(hrs.map _).sum_nat]
  · intro a ha b hb hab
    refine groupBy_inj Prod.fst (fun _ _ => rfl) (mem_filter.1 ha).1 (mem_filter.1 hb).1 ?_
    exact congrArg (fun k : ℕᵒᵈ ×ₗ Text => (ofLex k).2) hab
  · refine lt_of_le_of_lt (length_filter_le ..) (lt_of_le_of_lt (length_groupBy_le ..) ?_)
    exact lt_of_le_of_lt (length_filter_le ..) hsize

/-- Adding a device's buckets up is what the aggregates of its rows come to. -/
theorem foldl_addBucket (device : Text) (total blocked : ℕ) (lastSeen : ℤ)
    (rows : List (Sigma fun _ : ℤ × Text => DeviceBucket)) :
    rows.foldl Memory.addBucket ⟨device, total, blocked, lastSeen⟩ =
      ⟨device, total + (rows.map fun e => e.2.total).sum,
        blocked + (rows.map fun e => e.2.blocked).sum,
        (rows.map fun e => e.2.lastSeen).foldl max lastSeen⟩ := by
  induction rows generalizing total blocked lastSeen with
  | nil => simp
  | cons e rows ih =>
    rw [foldl_cons, Memory.addBucket, ih]
    simp [Nat.add_assoc]

theorem foldl_addBucket_zero (device : Text)
    {rows : List (Sigma fun _ : ℤ × Text => DeviceBucket)} (hseen : ∀ e ∈ rows, 0 ≤ e.2.lastSeen) :
    rows.foldl Memory.addBucket ⟨device, 0, 0, 0⟩ = Sqlite.clientRow device rows := by
  have hmax : 0 ≤ (rows.map fun e => e.2.lastSeen).max?.getD 0 := by
    cases h : (rows.map fun e => e.2.lastSeen).max? with
    | none => exact le_refl _
    | some x =>
      obtain ⟨e, he, rfl⟩ := mem_map.1 (max?_eq_some_iff.1 h).1
      exact hseen e he
  rw [foldl_addBucket, foldl_max, max_eq_right hmax, Nat.zero_add, Nat.zero_add]
  rfl

theorem clientRow_perm (device : Text)
    {rows rows' : List (Sigma fun _ : ℤ × Text => DeviceBucket)} (h : rows ~ rows') :
    Sqlite.clientRow device rows = Sqlite.clientRow device rows' := by
  simp only [Sqlite.clientRow, (h.map _).sum_nat, max?_perm (h.map _)]

theorem Mirrors.lastSeen_entry (h : Mirrors inner db) :
    ∀ e ∈ inner.deviceBuckets.entries, 0 ≤ e.2.lastSeen := by
  intro e he
  have hdb : e ∈ db.deviceBuckets.entries := h.deviceBuckets.entries_perm_self.subset he
  exact h.lastSeen e.1 e.2 (mem_entries_iff.1 hdb)

/-- **`top_clients`**. -/
theorem Mirrors.topClients (h : Mirrors inner db) (fromTs toTs : ℤ) (n : UInt64)
    (hsize : db.deviceBuckets.entries.length < 2 ^ 63) :
    Memory.topClients inner fromTs toTs n = Sqlite.topClients db fromTs toTs n := by
  unfold Memory.topClients Sqlite.topClients
  refine take_orderBy_eq_limitTo n ?_ ?_ ?_
  · refine map_tally_perm_groupBy ?_ ?_ (iter_filter_perm h.deviceBuckets ..)
    · intro k rs hrs _
      refine foldl_addBucket_zero k fun e he => h.lastSeen_entry e ?_
      exact (iter_perm toLex _).subset (mem_filter.1 (hrs he)).1
    · intro k rs rs' hrs
      exact clientRow_perm k hrs
  · intro a ha b hb hab
    refine groupBy_inj ClientStats.device (fun _ _ => rfl) ha hb ?_
    exact congrArg (fun k : ℕᵒᵈ ×ₗ Text => (ofLex k).2) hab
  · exact lt_of_le_of_lt (length_groupBy_le ..) (lt_of_le_of_lt (length_filter_le ..) hsize)

/-- **`client_stats`**. -/
theorem Mirrors.clientStats (h : Mirrors inner db) (devices : List Text) :
    Memory.clientStats inner devices = Sqlite.clientStats db devices := by
  have hperm : (Memory.iter toLex inner.deviceBuckets).filter (fun e => decide (e.1.2 ∈ devices)) ~
      db.deviceBuckets.entries.filter fun e => decide (e.1.2 ∈ devices) :=
    ((iter_perm toLex _).trans h.deviceBuckets.entries_perm_self).filter _
  unfold Memory.clientStats Sqlite.clientStats
  cases devices.head? with
  | none => rfl
  | some first =>
    have hseen : ∀ e ∈ (Memory.iter toLex inner.deviceBuckets).filter
        (fun e => decide (e.1.2 ∈ devices)), 0 ≤ e.2.lastSeen := fun e he =>
      h.lastSeen_entry e ((iter_perm toLex _).subset (mem_filter.1 he).1)
    simp only [Option.bind_some, foldl_addBucket_zero first hseen, clientRow_perm first hperm]
    simp only [isEmpty_iff_length_eq_zero, hperm.length_eq]
    by_cases hzero : (db.deviceBuckets.entries.filter fun e => decide (e.1.2 ∈ devices)).length = 0
    · rw [if_pos hzero, if_neg (by omega)]
    · rw [if_neg hzero, if_pos (by omega)]

/-- **`summary_counts`**, over a range that does not end before it starts. -/
theorem Mirrors.summaryCounts (h : Mirrors inner db) {fromTs toTs : ℤ}
    (hrange : alignBucket fromTs ≤ alignBucket toTs) :
    Memory.summaryCounts inner fromTs toTs = some (Sqlite.summaryCounts db fromTs toTs) := by
  have hfold : ∀ (rows : List (Sigma fun _ : ℤ => QueryBucket)) (s : SummaryStats),
      rows.foldl (fun s e => SummaryStats.mk (s.total + e.2.total) (s.blocked + e.2.blocked)
        (s.cached + e.2.cached) (s.upstream + e.2.upstream)) s =
      ⟨s.total + (rows.map fun e => e.2.total).sum, s.blocked + (rows.map fun e => e.2.blocked).sum,
        s.cached + (rows.map fun e => e.2.cached).sum,
        s.upstream + (rows.map fun e => e.2.upstream).sum⟩ := by
    intro rows
    induction rows with
    | nil => intro s; rfl
    | cons e rows ih =>
      intro s
      rw [foldl_cons, ih]
      simp [Nat.add_assoc]
  have hperm := ((iter_perm id inner.queryBuckets).trans h.queryBuckets.entries_perm_self).filter
    fun e => decide (alignBucket fromTs ≤ e.1) && decide (e.1 ≤ alignBucket toTs)
  rw [Memory.summaryCounts, if_neg (not_lt.2 hrange), hfold]
  simp only [Sqlite.summaryCounts, Nat.zero_add, (hperm.map _).sum_nat]

/-! ## A device's domains -/

theorem foldl_countQuery (rows : List QueryEntry) (c : ℕ × ℕ) :
    rows.foldl Memory.countQuery c =
      (c.1 + rows.length, c.2 + (rows.map fun q => if q.status = .blocked then 1 else 0).sum) := by
  induction rows generalizing c with
  | nil => rfl
  | cons q rows ih =>
    rw [foldl_cons, ih, Memory.countQuery]
    simp [Nat.add_assoc, Nat.add_comm 1]

/-- Counting the entries of a domain is what the aggregates of their rows come to. -/
theorem domainRow_keyedRow (domain : Text) (rows : List QueryEntry) :
    Sqlite.domainRow domain (rows.map keyedRow) =
      DeviceDomain.mk domain (rows.foldl Memory.countQuery (0, 0)).1
        (rows.foldl Memory.countQuery (0, 0)).2 := by
  have hstatus : ∀ e : QueryEntry, asStr e.status = "blocked".toList ↔ e.status = .blocked := by
    intro e
    cases e.status <;> decide
  simp only [Sqlite.domainRow, foldl_countQuery, length_map, map_map, Function.comp_def, keyedRow,
    Sqlite.rowOf, hstatus, Nat.zero_add]

theorem domainRow_perm (domain : Text) {rows rows' : List (Sigma fun _ : ℤ => Sqlite.QueryRow)}
    (h : rows ~ rows') : Sqlite.domainRow domain rows = Sqlite.domainRow domain rows' := by
  rw [Sqlite.domainRow, Sqlite.domainRow, h.length_eq, (h.map _).sum_nat]

/-- The rows of a device are those of its entries. -/
theorem Mirrors.filter_device (h : Mirrors inner db) (devices : List Text) (fromTs : ℤ) :
    db.queries.entries.filter (fun e =>
        e.2.device.any (fun d => decide (d ∈ devices)) && decide (fromTs ≤ e.2.timestamp)) ~
      (inner.queries.filter fun q =>
        decide (q.device ∈ devices) && decide (fromTs ≤ q.secs)).map keyedRow := by
  refine (h.queries.filter _).trans (Perm.of_eq ?_)
  rw [filter_map]
  refine congrArg (map keyedRow) (filter_congr fun e he => ?_)
  have hdevice : (keyedRow e).2.device.any (fun d => decide (d ∈ devices)) =
      decide (e.device ∈ devices) := by
    rw [← h.deviceToken he]
    rfl
  rw [Function.comp_apply, hdevice]
  rfl

/-- The domains a device asked for, with their counts. -/
theorem Mirrors.domainGroups (h : Mirrors inner db) (devices : List Text) (fromTs : ℤ) :
    (tally (fun q : QueryEntry => q.domain) (fun _ => (0, 0)) Memory.countQuery ∅
        (inner.queries.filter fun q =>
          decide (q.device ∈ devices) && decide (fromTs ≤ q.secs))).entries.map
        (fun e => DeviceDomain.mk e.1 e.2.1 e.2.2) ~
      groupBy (fun e : Sigma fun _ : ℤ => Sqlite.QueryRow => e.2.domain) Sqlite.domainRow
        (db.queries.entries.filter fun e =>
          e.2.device.any (fun d => decide (d ∈ devices)) && decide (fromTs ≤ e.2.timestamp)) := by
  have hrows : groupBy (fun e : Sigma fun _ : ℤ => Sqlite.QueryRow => e.2.domain)
      Sqlite.domainRow _ ~ groupBy (fun e => e.2.domain) Sqlite.domainRow _ :=
    groupBy_perm (h.filter_device devices fromTs) fun k _ _ => domainRow_perm k
  rw [groupBy_map] at hrows
  refine Perm.trans (map_tally_perm_groupBy ?_ ?_ (Perm.refl _)) hrows.symm
  · intro k rs _ _
    exact (domainRow_keyedRow k rs).symm
  · intro k rs rs' hrs
    exact domainRow_perm k (hrs.map keyedRow)

theorem having_sublist {R : Type} (asked : Bool) (p : R → Bool) (rows : List R) :
    (if asked = true then rows.filter p else rows) <+ rows := by
  cases asked with
  | true => exact filter_sublist
  | false => exact Sublist.refl _

/-- **`device_domains`**. -/
theorem Mirrors.deviceDomains (h : Mirrors inner db) (devices : List Text) (fromTs : ℤ)
    (n : UInt64) (blockedFirst : Bool) (hsize : inner.queries.length < 2 ^ 63) :
    Memory.deviceDomains inner devices fromTs n blockedFirst =
      Sqlite.deviceDomains db devices fromTs n blockedFirst := by
  have hgroups := h.domainGroups devices fromTs
  unfold Memory.deviceDomains Sqlite.deviceDomains
  cases hdevices : devices.isEmpty with
  | true =>
    obtain rfl := List.isEmpty_iff.1 hdevices
    simp [orderBy]
  | false =>
    rw [if_neg (by decide)]
    refine take_orderBy_eq_limitTo n ?_ ?_ ?_
    · -- `HAVING` is there only when the blocked ones are asked for
      cases blockedFirst with
      | false => simpa using hgroups
      | true =>
        have hhaving := hgroups.filter fun g => decide (0 < g.blocked)
        rw [filter_map] at hhaving
        exact hhaving
    · intro a ha b hb hab
      refine groupBy_inj DeviceDomain.domain (fun _ _ => rfl) ((having_sublist ..).subset ha)
        ((having_sublist ..).subset hb) ?_
      exact congrArg (fun k : ℕᵒᵈ ×ₗ Text => (ofLex k).2) hab
    · refine lt_of_le_of_lt (having_sublist ..).length_le ?_
      calc (groupBy (fun e : Sigma fun _ : ℤ => Sqlite.QueryRow => e.2.domain) Sqlite.domainRow
            (db.queries.entries.filter _)).length
          ≤ (db.queries.entries.filter _).length := length_groupBy_le ..
        _ ≤ db.queries.entries.length := length_filter_le ..
        _ = inner.queries.length := by rw [h.queries.length_eq, length_map]
        _ < 2 ^ 63 := hsize

/-! ## A device's activity -/

/-- One turn of the loop of the memory backend adds to the last bucket. -/
theorem pushActivity_eq :
    Memory.pushActivity = addLast DeviceActivity.bucket
      (fun e => e.1.1) (fun bucket => ⟨bucket, 0, 0⟩) Memory.addActivity := by
  funext out e
  unfold Memory.pushActivity addLast
  cases hlast : out.getLast? with
  | none =>
    obtain rfl := getLast?_eq_none_iff.1 hlast
    simp [Memory.addActivity]
  | some last => simp [Memory.addActivity]

theorem foldl_addActivity (bucket : ℤ) (total blocked : ℕ)
    (rows : List (Sigma fun _ : ℤ × Text => DeviceBucket)) :
    rows.foldl Memory.addActivity ⟨bucket, total, blocked⟩ =
      ⟨bucket, total + (rows.map fun e => e.2.total).sum,
        blocked + (rows.map fun e => e.2.blocked).sum⟩ := by
  induction rows generalizing total blocked with
  | nil => rfl
  | cons e rows ih =>
    rw [foldl_cons, Memory.addActivity, ih]
    simp [Nat.add_assoc]

/-- **`device_activity`**. -/
theorem Mirrors.deviceActivity (h : Mirrors inner db) (devices : List Text) (fromTs : ℤ) :
    Memory.deviceActivity inner devices fromTs = Sqlite.deviceActivity db devices fromTs := by
  -- the range starts at the first key of its first bucket
  have hrange : ∀ e : Sigma fun _ : ℤ × Text => DeviceBucket,
      (toLex (alignBucket fromTs, []) : ℤ ×ₗ Text) ≤ toLex e.1 ↔ alignBucket fromTs ≤ e.1.1 := by
    intro e
    rw [Prod.Lex.toLex_le_toLex]
    constructor
    · rintro (hlt | ⟨heq, -⟩)
      · exact hlt.le
      · exact heq.le
    · intro hle
      rcases hle.lt_or_eq with hlt | heq
      · exact Or.inl hlt
      · exact Or.inr ⟨heq, not_lt.1 (not_lt_nil _)⟩
  have hperm : ((Memory.iter toLex inner.deviceBuckets).filter fun e =>
      decide ((toLex (alignBucket fromTs, []) : ℤ ×ₗ Text) ≤ toLex e.1)).filter
        (fun e => decide (e.1.2 ∈ devices)) ~
      db.deviceBuckets.entries.filter fun e =>
        decide (e.1.2 ∈ devices) && decide (alignBucket fromTs ≤ e.1.1) := by
    simp only [filter_filter, hrange]
    exact ((iter_perm toLex _).trans h.deviceBuckets.entries_perm_self).filter _
  have hsorted : (((Memory.iter toLex inner.deviceBuckets).filter fun e =>
      decide ((toLex (alignBucket fromTs, []) : ℤ ×ₗ Text) ≤ toLex e.1)).filter
        fun e => decide (e.1.2 ∈ devices)).Pairwise fun a b => a.1.1 ≤ b.1.1 := by
    refine ((Pairwise.filter _ ?_).filter _)
    refine (pairwise_orderBy (fun e => toLex e.1) inner.deviceBuckets.entries).imp ?_
    intro a b hab
    rcases (Prod.Lex.toLex_le_toLex).1 hab with hlt | ⟨heq, -⟩
    · exact hlt.le
    · exact heq.le
  unfold Memory.deviceActivity Sqlite.deviceActivity
  cases hdevices : devices.isEmpty with
  | true =>
    obtain rfl := List.isEmpty_iff.1 hdevices
    simp
  | false =>
    rw [if_neg (by decide), pushActivity_eq]
    refine Eq.trans (foldl_addLast ?_ ?_ hsorted) ?_
    · intro bucket
      rfl
    · intro a e
      rfl
    simp only [foldl_addActivity, Nat.zero_add]
    refine orderBy_eq_of_perm (groupBy_perm hperm fun k rs rs' hrs => ?_) ?_
    · rw [(hrs.map _).sum_nat, (hrs.map _).sum_nat]
    · intro a ha b hb hab
      exact groupBy_inj DeviceActivity.bucket (fun _ _ => rfl) ha hb hab

end Ferrite.Storage
