import Ferrite.Storage.Mirror

/-!
# Writing to both backends

What a write does to each backend, and that it leaves mirrors of each other behind.

The memory backend adds every entry of a batch to its maps; the database adds the batch up
first and merges the sums into its tables.  Old entries go from the front of the log on one
side and by their time on the other, which is the same only when the old ones come first.

* `Mirrors.writeBatch`, `Mirrors.dropBefore` — the writes to the log;
* `Mirrors.upsertDevice` … `Mirrors.saveSession` — the writes to the other tables.
-/

namespace Ferrite.Storage

open List
open Dhcp (asI64)
open Rows Table

variable {inner : Memory.Inner} {db : Sqlite.Db}

/-! ## Writing a batch -/

/-- The entries of a batch that go to the log. -/
def logged (entries : List QueryEntry) (scope : RecordScope) : List QueryEntry :=
  if scope.queries then entries.map QueryEntry.tagged else []

/-- The rollups of a batch, added to a table. -/
def queryTally (t : Table ℤ QueryBucket) (entries : List QueryEntry) : Table ℤ QueryBucket :=
  tally QueryEntry.bucket (fun _ => ⟨0, 0, 0, 0⟩) QueryBucket.add t entries

/-- The rollups of a batch by domain, added to a table. -/
def domainTally (t : Table (ℤ × Text) DomainBucket) (entries : List QueryEntry) :
    Table (ℤ × Text) DomainBucket :=
  tally (fun e => (e.bucket, e.domain)) (fun _ => ⟨0, 0⟩) DomainBucket.add t entries

/-- The rollups of a batch by device, added to a table. -/
def deviceTally (t : Table (ℤ × Text) DeviceBucket) (entries : List QueryEntry) :
    Table (ℤ × Text) DeviceBucket :=
  tally (fun e => (e.bucket, e.deviceToken)) (fun _ => ⟨0, 0, 0⟩) DeviceBucket.add t entries

/-- What the loop of the memory backend does to each part of its state. -/
theorem foldl_writeEntry (scope : RecordScope) (inner : Memory.Inner)
    (entries : List QueryEntry) :
    entries.foldl (Memory.writeEntry scope) inner =
      { inner with
        queries := inner.queries ++ logged entries scope
        queryBuckets :=
          if scope.stats then queryTally inner.queryBuckets entries else inner.queryBuckets
        domainBuckets :=
          if scope.stats then domainTally inner.domainBuckets entries else inner.domainBuckets
        deviceBuckets :=
          if scope.stats then deviceTally inner.deviceBuckets entries else inner.deviceBuckets
        maxId := entries.foldl (fun i e => max i e.id) inner.maxId } := by
  induction entries generalizing inner with
  | nil =>
    simp [logged, queryTally, domainTally, deviceTally]
  | cons e entries ih =>
    rw [foldl_cons, ih]
    obtain ⟨queries, stats⟩ := scope
    cases queries <;> cases stats <;>
      simp [Memory.writeEntry, Memory.countEntry, logged, queryTally, domainTally, deviceTally,
        tally]

/-- `write_batch` of the memory backend, on a batch that fits. -/
theorem memory_writeBatch {entries : List QueryEntry} {scope : RecordScope}
    (hskip : (entries.isEmpty || !scope.recordsAnything) = false)
    (hfits : inner.queries.length + (logged entries scope).length ≤ inner.maxEntries) :
    Memory.writeBatch inner entries scope =
      { inner with
        queries := inner.queries ++ logged entries scope
        queryBuckets :=
          if scope.stats then queryTally inner.queryBuckets entries else inner.queryBuckets
        domainBuckets :=
          if scope.stats then domainTally inner.domainBuckets entries else inner.domainBuckets
        deviceBuckets :=
          if scope.stats then deviceTally inner.deviceBuckets entries else inner.deviceBuckets
        maxId := entries.foldl (fun i e => max i e.id) inner.maxId } := by
  have hroom : (inner.queries ++ logged entries scope).length - inner.maxEntries = 0 := by
    rw [length_append]
    omega
  rw [Memory.writeBatch, hskip, if_neg (by decide), foldl_writeEntry, Memory.enforceRingCap]
  simp only [hroom, drop_zero]

theorem foldl_collectRollupAggregates (a : Sqlite.Aggregates) (entries : List QueryEntry) :
    entries.foldl Sqlite.collectRollupAggregates a =
      ⟨queryTally a.queryBuckets entries, domainTally a.domainBuckets entries,
        deviceTally a.deviceBuckets entries⟩ := by
  induction entries generalizing a with
  | nil => rfl
  | cons e entries ih =>
    rw [foldl_cons, ih]
    rfl

/-- `write_batch` of the database, once the rows are in. -/
theorem sqlite_writeBatch {entries : List QueryEntry} {scope : RecordScope}
    {t : Table ℤ Sqlite.QueryRow} (hskip : (entries.isEmpty || !scope.recordsAnything) = false)
    (hinsert : Sqlite.insertEntries db entries scope = some t) :
    Sqlite.writeBatch db entries scope = some
      { db with
        queries := t
        queryBuckets := if scope.stats then
            upsertAll Sqlite.mergeQueryBucket db.queryBuckets (queryTally ∅ entries)
          else db.queryBuckets
        domainBuckets := if scope.stats then
            upsertAll Sqlite.mergeDomainBucket db.domainBuckets (domainTally ∅ entries)
          else db.domainBuckets
        deviceBuckets := if scope.stats then
            upsertAll Sqlite.mergeDeviceBucket db.deviceBuckets (deviceTally ∅ entries)
          else db.deviceBuckets } := by
  rw [Sqlite.writeBatch, hskip, if_neg (by decide), hinsert, Option.map_some]
  cases scope.stats with
  | false => rfl
  | true =>
    simp only [Sqlite.upsertRollups, foldl_collectRollupAggregates, if_true]

/-- Rows of new ids go in, each one a row more. -/
theorem foldlM_insertEntry {t : Table ℤ Sqlite.QueryRow} {entries : List QueryEntry}
    (hnodup : (entries.map QueryEntry.id).Nodup)
    (hfresh : ∀ e ∈ entries, t.lookup (asI64 e.id.toNat) = none) :
    ∃ t', entries.foldlM Sqlite.insertEntry t = some t' ∧
      t'.entries ~ t.entries ++ entries.map keyedRow := by
  induction entries generalizing t with
  | nil => exact ⟨t, rfl, by simp⟩
  | cons e entries ih =>
    rw [map_cons, nodup_cons] at hnodup
    have hnone := hfresh e (mem_cons_self ..)
    have hinsert : Sqlite.insertEntry t e =
        some (t.insert (asI64 e.id.toNat) (Sqlite.rowOf e)) := by
      rw [Sqlite.insertEntry, hnone]
      rfl
    have hrows : (t.insert (asI64 e.id.toNat) (Sqlite.rowOf e)).entries =
        keyedRow e :: t.entries :=
      AList.entries_insert_of_notMem (AList.lookup_eq_none.1 hnone)
    have hrest : ∀ x ∈ entries,
        (t.insert (asI64 e.id.toNat) (Sqlite.rowOf e)).lookup (asI64 x.id.toNat) = none := by
      intro x hx
      have hne : asI64 x.id.toNat ≠ asI64 e.id.toNat := fun h =>
        hnodup.1 (Sqlite.asI64_injective h ▸ mem_map_of_mem hx)
      rw [lookup_insert_eq, if_neg hne, hfresh x (mem_cons_of_mem _ hx)]
    obtain ⟨t', ht', hperm⟩ := ih hnodup.2 hrest
    refine ⟨t', by rw [foldlM_cons, hinsert]; exact ht', hperm.trans ?_⟩
    rw [hrows, map_cons, cons_append]
    exact perm_middle.symm

/-- An id that is not in the log is not in the table. -/
theorem Mirrors.lookup_fresh (h : Mirrors inner db) {id : UInt64}
    (hid : ∀ e ∈ inner.queries, e.id ≠ id) : db.queries.lookup (asI64 id.toNat) = none := by
  rw [AList.lookup_eq_none, AList.mem_keys, AList.keys, mem_keys]
  rintro ⟨row, hrow⟩
  obtain ⟨e, he, heq⟩ := mem_map.1 (h.queries.subset hrow)
  have hkey : asI64 e.id.toNat = asI64 id.toNat := congrArg Sigma.fst heq
  exact hid e he (Sqlite.asI64_injective hkey)

theorem mergeQueryBucket_add (a b : QueryBucket) (e : QueryEntry) :
    Sqlite.mergeQueryBucket a (b.add e) = (Sqlite.mergeQueryBucket a b).add e := by
  unfold Sqlite.mergeQueryBucket QueryBucket.add
  cases e.status <;> simp [Nat.add_assoc]

theorem mergeDomainBucket_add (a b : DomainBucket) (e : QueryEntry) :
    Sqlite.mergeDomainBucket a (b.add e) = (Sqlite.mergeDomainBucket a b).add e := by
  unfold Sqlite.mergeDomainBucket DomainBucket.add
  by_cases hblocked : e.status = .blocked <;> simp [hblocked, Nat.add_assoc]

theorem mergeDeviceBucket_add (a b : DeviceBucket) (e : QueryEntry) :
    Sqlite.mergeDeviceBucket a (b.add e) = (Sqlite.mergeDeviceBucket a b).add e := by
  unfold Sqlite.mergeDeviceBucket DeviceBucket.add
  by_cases hblocked : e.status = .blocked <;> simp [hblocked, Nat.add_assoc, max_assoc]

/-- A device is never seen before the epoch. -/
theorem lastSeen_deviceTally {t : Table (ℤ × Text) DeviceBucket}
    (ht : ∀ k b, t.lookup k = some b → 0 ≤ b.lastSeen) (entries : List QueryEntry) :
    ∀ k b, (deviceTally t entries).lookup k = some b → 0 ≤ b.lastSeen := by
  have hfold : ∀ (rs : List QueryEntry) (b : DeviceBucket),
      0 ≤ b.lastSeen → 0 ≤ (rs.foldl DeviceBucket.add b).lastSeen := by
    intro rs
    induction rs with
    | nil => intro b hb; exact hb
    | cons e rs ih => intro b hb; exact ih _ (le_trans hb (le_max_left ..))
  intro k b hb
  rw [deviceTally, lookup_tally] at hb
  split at hb
  · exact ht k b hb
  · obtain rfl := Option.some.inj hb
    refine hfold _ _ ?_
    cases hold : t.lookup k with
    | none => exact le_refl _
    | some old => exact ht k old hold

@[simp] theorem keyedRow_tagged (e : QueryEntry) : keyedRow e.tagged = keyedRow e := by
  have htoken : e.tagged.deviceToken = e.deviceToken :=
    congrArg (fun e => e.device) e.tagged_tagged
  unfold keyedRow Sqlite.rowOf
  rw [htoken]
  rfl

theorem toNat_max (a b : UInt64) : (max a b).toNat = max a.toNat b.toNat := by
  have hmax : max a b = if a ≤ b then b else a := rfl
  rw [hmax]
  split <;> rename_i hle <;> rw [UInt64.le_iff_toNat_le] at hle <;> omega

/-- The highest id is no lower than any it was taken over. -/
theorem le_foldl_max (entries : List QueryEntry) (i : UInt64) :
    i.toNat ≤ (entries.foldl (fun i e => max i e.id) i).toNat ∧
      ∀ e ∈ entries, e.id.toNat ≤ (entries.foldl (fun i e => max i e.id) i).toNat := by
  induction entries generalizing i with
  | nil => exact ⟨le_refl _, by simp⟩
  | cons e entries ih =>
    obtain ⟨hinit, hrest⟩ := ih (max i e.id)
    rw [toNat_max] at hinit
    refine ⟨le_trans (le_max_left ..) hinit, fun x hx => ?_⟩
    rcases mem_cons.1 hx with rfl | hx
    · exact le_trans (le_max_right ..) hinit
    · exact hrest x hx

theorem id_of_mem_logged {entries : List QueryEntry} {scope : RecordScope} {x : QueryEntry}
    (hx : x ∈ logged entries scope) : x.tagged = x ∧ ∃ e ∈ entries, e.id = x.id := by
  unfold logged at hx
  split at hx
  · obtain ⟨e, he, rfl⟩ := mem_map.1 hx
    exact ⟨e.tagged_tagged, e, he, rfl⟩
  · simp at hx

/-- The rows a batch adds to `queries`. -/
theorem Mirrors.insertEntries (h : Mirrors inner db) {entries : List QueryEntry}
    (scope : RecordScope) (hnodup : (entries.map QueryEntry.id).Nodup)
    (hfresh : ∀ e ∈ entries, ∀ x ∈ inner.queries, x.id ≠ e.id) :
    ∃ t, Sqlite.insertEntries db entries scope = some t ∧
      t.entries ~ (inner.queries ++ logged entries scope).map keyedRow := by
  unfold Sqlite.insertEntries logged
  cases scope.queries with
  | false => exact ⟨db.queries, rfl, by simpa using h.queries⟩
  | true =>
    obtain ⟨t, ht, hperm⟩ := foldlM_insertEntry hnodup fun e he => h.lookup_fresh (hfresh e he)
    refine ⟨t, ht, hperm.trans ?_⟩
    have hkeyed : (entries.map QueryEntry.tagged).map keyedRow = entries.map keyedRow := by
      simp [map_map, Function.comp_def]
    rw [if_pos rfl, map_append, hkeyed]
    exact h.queries.append_right _

theorem Mirrors.deviceTally (h : Mirrors inner db) (entries : List QueryEntry) :
    Shows (fun _ b => b) (deviceTally inner.deviceBuckets entries)
      (upsertAll Sqlite.mergeDeviceBucket db.deviceBuckets (Storage.deviceTally ∅ entries)) := by
  refine shows_upsertAll_tally (fun b => 0 ≤ b.lastSeen) ?_ mergeDeviceBucket_add h.lastSeen
    h.deviceBuckets entries
  intro _ b hb
  rw [Sqlite.mergeDeviceBucket, max_eq_left hb]
  rfl

/-- **`write_batch`** succeeds on entries of new ids that fit, and leaves mirrors. -/
theorem Mirrors.writeBatch (h : Mirrors inner db) {entries : List QueryEntry}
    {scope : RecordScope} (hnodup : (entries.map QueryEntry.id).Nodup)
    (hfresh : ∀ e ∈ entries, ∀ x ∈ inner.queries, x.id ≠ e.id)
    (hfits : inner.queries.length + (logged entries scope).length ≤ inner.maxEntries) :
    ∃ db', Sqlite.writeBatch db entries scope = some db' ∧
      Mirrors (Memory.writeBatch inner entries scope) db' := by
  cases hskip : entries.isEmpty || !scope.recordsAnything with
  | true =>
    refine ⟨db, ?_, ?_⟩
    · rw [Sqlite.writeBatch, hskip]
      rfl
    · rw [Memory.writeBatch, hskip]
      exact h
  | false =>
    obtain ⟨t, hinsert, hrows⟩ := h.insertEntries scope hnodup hfresh
    obtain ⟨hmaxId, hmaxEntries⟩ := le_foldl_max entries inner.maxId
    refine ⟨_, sqlite_writeBatch hskip hinsert, ?_⟩
    rw [memory_writeBatch hskip hfits]
    refine { h with queries := hrows, tagged := ?_, maxId := ?_, queryBuckets := ?_,
                    domainBuckets := ?_, deviceBuckets := ?_, lastSeen := ?_ }
    · intro e he
      rcases mem_append.1 he with he | he
      · exact h.tagged e he
      · exact (id_of_mem_logged he).1
    · intro e he
      rcases mem_append.1 he with he | he
      · exact le_trans (h.maxId e he) hmaxId
      · obtain ⟨-, x, hx, hid⟩ := id_of_mem_logged he
        exact hid ▸ hmaxEntries x hx
    · cases scope.stats with
      | false => exact h.queryBuckets
      | true =>
        exact shows_upsertAll_tally (fun _ => True) (fun _ _ _ => rfl) mergeQueryBucket_add
          (fun _ _ _ => trivial) h.queryBuckets entries
    · cases scope.stats with
      | false => exact h.domainBuckets
      | true =>
        exact shows_upsertAll_tally (fun _ => True) (fun _ _ _ => rfl) mergeDomainBucket_add
          (fun _ _ _ => trivial) h.domainBuckets entries
    · cases scope.stats with
      | false => exact h.deviceBuckets
      | true => exact h.deviceTally entries
    · cases scope.stats with
      | false => exact h.lastSeen
      | true =>
        intro k b hb
        have hinner : ∀ k b, inner.deviceBuckets.lookup k = some b → 0 ≤ b.lastSeen := by
          intro k b hb
          rw [h.deviceBuckets.lookup_eq k] at hb
          exact h.lastSeen k b hb
        exact lastSeen_deviceTally hinner entries k b
          (((h.deviceTally entries).lookup_eq k).trans hb)

/-! ## Retention -/

/-- The entries older than a cutoff are the first in the log. -/
def OldestFirst (inner : Memory.Inner) (cutoffTs : ℤ) : Prop :=
  inner.queries.Pairwise fun a b => b.secs < cutoffTs → a.secs < cutoffTs

theorem OldestFirst.dropWhile {cutoffTs : ℤ} (h : OldestFirst inner cutoffTs) :
    inner.queries.dropWhile (fun e => decide (e.secs < cutoffTs)) =
      inner.queries.filter fun e => !decide (e.secs < cutoffTs) := by
  refine dropWhile_eq_filter (h.imp fun hab hb => ?_)
  exact decide_eq_true (hab (of_decide_eq_true hb))

/-- A deletion by bucket is the same on both sides. -/
theorem Shows.retain_bucket {K V : Type} [DecidableEq K] {t s : Table K V}
    (h : Shows (fun _ b => b) t s) (bucket : K → ℤ) (cutoff : ℤ) :
    Shows (fun _ b => b) (t.retain fun k _ => decide (cutoff ≤ bucket k))
      (s.retain fun k _ => !decide (bucket k < cutoff)) := by
  refine h.retain fun k _ => ?_
  simp [← decide_not]

/-- **`delete_queries_older_than`** deletes as many, and leaves mirrors, if the old entries
come first. -/
theorem Mirrors.dropBefore (h : Mirrors inner db) {cutoffTs : ℤ}
    (hold : OldestFirst inner cutoffTs) :
    (Memory.dropBefore inner cutoffTs).2 = (Sqlite.deleteBefore db cutoffTs).2 ∧
      Mirrors (Memory.dropBefore inner cutoffTs).1 (Sqlite.deleteBefore db cutoffTs).1 := by
  have hsub : inner.queries.filter (fun e => !decide (e.secs < cutoffTs)) ⊆ inner.queries :=
    filter_subset_self ..
  have hkeyed : ∀ p : ℤ → Bool, (inner.queries.map keyedRow).filter (fun e => p e.2.timestamp) =
      (inner.queries.filter fun e => p e.secs).map keyedRow := by
    intro p
    rw [filter_map]
    rfl
  constructor
  · have hsplit := length_eq_length_filter_add
      (l := inner.queries) fun e => decide (e.secs < cutoffTs)
    have hcount := (h.queries.filter fun e => decide (e.2.timestamp < cutoffTs)).length_eq
    rw [hkeyed fun ts => decide (ts < cutoffTs), length_map] at hcount
    simp only [Memory.dropBefore, Sqlite.deleteBefore, hold.dropWhile]
    omega
  · refine { h with queries := ?_, tagged := ?_, maxId := ?_, queryBuckets := ?_,
                    domainBuckets := ?_, deviceBuckets := ?_, lastSeen := ?_ }
    · have hrows := h.queries.filter fun e => !decide (e.2.timestamp < cutoffTs)
      rw [hkeyed fun ts => !decide (ts < cutoffTs)] at hrows
      simp only [Memory.dropBefore, hold.dropWhile]
      exact hrows
    · simp only [Memory.dropBefore, hold.dropWhile]
      exact fun e he => h.tagged e (hsub he)
    · simp only [Memory.dropBefore, hold.dropWhile]
      exact fun e he => h.maxId e (hsub he)
    · exact Shows.retain_bucket h.queryBuckets id (alignBucket cutoffTs)
    · exact Shows.retain_bucket h.domainBuckets Prod.fst (alignBucket cutoffTs)
    · exact Shows.retain_bucket h.deviceBuckets Prod.fst (alignBucket cutoffTs)
    · intro k b hb
      rw [Sqlite.deleteBefore, lookup_retain, Option.filter_eq_some_iff] at hb
      exact h.lastSeen k b hb.1

/-! ## Devices, bindings and sessions -/

theorem Mirrors.upsertDevice (h : Mirrors inner db) (now : ℤ) (mac : Text)
    (hostname : Option Text) :
    Mirrors (Memory.upsertDevice inner now mac hostname)
      (Sqlite.upsertDevice db now mac hostname) := by
  refine { h with devices := h.devices.insert ?_ }
  rw [h.devices mac]
  cases db.devices.lookup mac with
  | none => cases hostname <;> rfl
  | some old => rfl

theorem Mirrors.upsertIpBinding (h : Mirrors inner db) (now : ℤ) (ip mac : Text) :
    Mirrors (Memory.upsertIpBinding inner now ip mac) (Sqlite.upsertIpBinding db now ip mac) := by
  refine { h with ipBindings := h.ipBindings.insert ?_ }
  cases db.ipBindings.lookup ip with
  | none => rfl
  | some old => rfl

theorem shows_touchIpBindings (now : ℤ) (ips : List Text) {t s : Table Text Binding}
    (h : Shows (fun _ b => b) t s) :
    Shows (fun _ b => b) (ips.foldl (Memory.touchIpBinding now) t)
      (ips.foldl (fun t ip =>
        t.updateWhere (fun k _ => decide (k = ip)) fun b => { b with lastSeen := now }) s) := by
  induction ips generalizing t s with
  | nil => exact h
  | cons ip ips ih =>
    refine ih fun k => ?_
    have hip : t.lookup ip = s.lookup ip := h.lookup_eq ip
    have hk : t.lookup k = s.lookup k := h.lookup_eq k
    rw [lookup_updateWhere, Option.map_map]
    unfold Memory.touchIpBinding
    cases hb : s.lookup ip with
    | none =>
      rw [hip, hb, hk]
      by_cases heq : k = ip
      · rw [heq, hb]
        rfl
      · cases s.lookup k <;> simp [heq]
    | some b =>
      rw [hip, hb, lookup_insert_eq]
      by_cases heq : k = ip
      · rw [if_pos heq, heq, hb]
        simp
      · rw [if_neg heq, hk]
        cases s.lookup k <;> simp [heq]

/-- **`delete_ip_bindings_older_than`** drops the same addresses. -/
theorem Mirrors.deleteIpBindingsOlderThan (h : Mirrors inner db) (cutoffTs : ℤ) :
    (Memory.deleteIpBindingsOlderThan inner cutoffTs).2 ~
        (Sqlite.deleteIpBindingsOlderThan db cutoffTs).2 ∧
      Mirrors (Memory.deleteIpBindingsOlderThan inner cutoffTs).1
        (Sqlite.deleteIpBindingsOlderThan db cutoffTs).1 := by
  have hperm := ((iter_perm id inner.ipBindings).trans h.ipBindings.entries_perm_self).filter
    fun e => decide (e.2.lastSeen < cutoffTs)
  refine ⟨hperm.map _, { h with ipBindings := fun k => ?_ }⟩
  have hstale : k ∈ ((Memory.iter id inner.ipBindings).filter fun e =>
      decide (e.2.lastSeen < cutoffTs)).map (fun e => e.1) ↔
      ∃ b, db.ipBindings.lookup k = some b ∧ b.lastSeen < cutoffTs := by
    rw [(hperm.map _).mem_iff, mem_map]
    constructor
    · rintro ⟨⟨k, b⟩, he, rfl⟩
      obtain ⟨hmem, hlt⟩ := mem_filter.1 he
      exact ⟨b, mem_entries_iff.1 hmem, of_decide_eq_true hlt⟩
    · rintro ⟨b, hb, hlt⟩
      exact ⟨⟨k, b⟩, mem_filter.2 ⟨mem_entries_iff.2 hb, decide_eq_true hlt⟩, rfl⟩
  simp only [Memory.deleteIpBindingsOlderThan, Sqlite.deleteIpBindingsOlderThan, Option.map_id']
  rw [lookup_foldl_erase, lookup_retain, h.ipBindings.lookup_eq k]
  cases hb : db.ipBindings.lookup k with
  | none => simp
  | some b =>
    by_cases hlt : b.lastSeen < cutoffTs
    · rw [if_pos (hstale.2 ⟨b, hb, hlt⟩)]
      simp [Option.filter, hlt]
    · have hkept : k ∉ ((Memory.iter id inner.ipBindings).filter fun e =>
          decide (e.2.lastSeen < cutoffTs)).map fun e => e.1 := by
        rw [hstale, hb]
        rintro ⟨b', hb', hlt'⟩
        obtain rfl := Option.some.inj hb'
        exact hlt hlt'
      rw [if_neg hkept]
      simp [Option.filter, hlt]

theorem Mirrors.saveSession (h : Mirrors inner db) {session : StoredSession}
    (hkept : ∀ old, inner.sessions.lookup session.tokenHash = some old →
      old.created = session.created ∧ old.agent = session.agent ∧ old.ip = session.ip) :
    Mirrors (Memory.saveSession inner session) (Sqlite.saveSession db session) := by
  refine { h with sessions := h.sessions.insert ?_ }
  have hshown := h.sessions session.tokenHash
  cases hold : db.sessions.lookup session.tokenHash with
  | none => rfl
  | some old =>
    rw [hold] at hshown
    obtain ⟨hcreated, hagent, hip⟩ := hkept _ hshown
    simp only [Sqlite.sessionOf] at hcreated hagent hip
    simp [Sqlite.sessionOf, hcreated, hagent, hip]

end Ferrite.Storage
