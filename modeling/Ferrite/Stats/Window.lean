import Ferrite.Stats.Recording
import Ferrite.Storage.Writes
import Mathlib.Algebra.Order.Ring.Int

/-!
# The last 24 hours

The rolling window of `stats/src/timeseries.rs`, which counts every query in a bucket of ten
minutes and drops old buckets only when a new one is begun, and the rollups of
`storage/src/sqlite.rs` it is filled from when the program starts.

* `window_is_exact` — over every run of counts and clears: what is shown is what a query over the
  whole history would show, and the map behind it stays small;
* `window_survives_restart` — a window filled from the database goes on as the one before the
  restart would have.
-/

namespace Ferrite.Storage

open Rows

/-- `TimeseriesBucket`. -/
structure TimeseriesBucket extends QueryBucket where
  bucket : ℕ
deriving DecidableEq, Repr

/-- `out_bucket`; a division rounds towards zero. -/
def Sqlite.outBucket (bucketSecs b : ℤ) : ℤ := b.tdiv bucketSecs * bucketSecs

/-- `timeseries` of the database. -/
def Sqlite.timeseries (db : Sqlite.Db) (now bucketSecs : ℤ) : List TimeseriesBucket :=
  (orderBy Prod.fst (groupBy (fun e => outBucket bucketSecs e.1)
    (fun k rows => (k, rows.foldl (fun q e => mergeQueryBucket q e.2) ⟨0, 0, 0, 0⟩))
    (db.queryBuckets.entries.filter fun e => outBucket bucketSecs (now - 86400) ≤ e.1))).map
      fun row => ⟨row.2, (row.1 % 2 ^ 64).toNat⟩

end Ferrite.Storage

namespace Ferrite.Stats

open Storage Rows

/-! ## The window -/

/-- `buckets_24h`. -/
def Timeseries.buckets24h (t : Timeseries) (now : ℕ) : List TimeseriesBucket :=
  orderBy TimeseriesBucket.bucket
    ((t.entries.map fun e => ⟨e.2, e.1⟩).filter fun b => now - 86400 ≤ b.bucket)

/-- `seed`. -/
def Timeseries.seed (t : Timeseries) (buckets : List TimeseriesBucket) : Timeseries :=
  buckets.foldl (fun t b => t.insert b.bucket b.toQueryBucket) t

/-- What happens to the window. -/
inductive SeriesEvent where
  | increment (e : QueryEntry)
  | clear

def Timeseries.apply (t : Timeseries) : SeriesEvent → Timeseries
  | .increment e => t.increment e
  | .clear => ∅

/-! ## What it should show -/

/-- The bucket an entry is counted in. -/
def bucketTs (e : QueryEntry) : ℕ := (e.secs % 2 ^ 64).toNat / 600 * 600

/-- The counts of every bucket, with nothing dropped. -/
def allBuckets (t : Timeseries) (entries : List QueryEntry) : Timeseries :=
  tally bucketTs (fun _ => ⟨0, 0, 0, 0⟩) QueryBucket.add t entries

/-- What was counted since the window was last cleared. -/
def sinceClear (entries : List QueryEntry) : List SeriesEvent → List QueryEntry
  | [] => entries
  | .increment e :: events => sinceClear (entries ++ [e]) events
  | .clear :: events => sinceClear [] events

/-- The groups of the entries of the last 24 hours. -/
def window (entries : List QueryEntry) (now : ℕ) : List TimeseriesBucket :=
  orderBy TimeseriesBucket.bucket
    ((groupBy bucketTs (fun k es => ⟨es.foldl QueryBucket.add ⟨0, 0, 0, 0⟩, k⟩) entries).filter
      fun b => now - 86400 ≤ b.bucket)

/-- The event is not from the future. -/
def NotAfter (now : ℕ) : SeriesEvent → Prop
  | .increment e => 0 ≤ e.secs ∧ e.secs ≤ now
  | .clear => True

variable {t s : Timeseries} {now : ℕ} {e : QueryEntry}

theorem bucketTs_le (h : 0 ≤ e.secs ∧ e.secs ≤ now) : bucketTs e ≤ now := by
  unfold bucketTs
  omega

/-! ## What a read sees -/

/-- Two maps have the same buckets in the window. -/
def SameWindow (now : ℕ) (t s : Timeseries) : Prop :=
  ∀ k, now - 86400 ≤ k → t.lookup k = s.lookup k

theorem mem_sent {b : TimeseriesBucket} :
    (b ∈ t.entries.map fun e => (⟨e.2, e.1⟩ : TimeseriesBucket)) ↔
      t.lookup b.bucket = some b.toQueryBucket := by
  rw [List.mem_map, ← Table.mem_entries_iff]
  constructor
  · rintro ⟨e, he, rfl⟩
    exact he
  · intro h
    exact ⟨_, h, rfl⟩

theorem nodup_sent (t : Timeseries) :
    (t.entries.map fun e => (⟨e.2, e.1⟩ : TimeseriesBucket)).Nodup := by
  have hkeys : ((t.entries.map fun e => (⟨e.2, e.1⟩ : TimeseriesBucket)).map
      TimeseriesBucket.bucket).Nodup := by
    rw [List.map_map]
    exact t.nodupKeys
  exact hkeys.of_map _

theorem buckets24h_congr (h : SameWindow now t s) : t.buckets24h now = s.buckets24h now := by
  refine orderBy_eq_of_perm ?_ ?_
  · refine (List.perm_ext_iff_of_nodup ((nodup_sent t).filter _) ((nodup_sent s).filter _)).2 ?_
    intro b
    rw [List.mem_filter, List.mem_filter, mem_sent, mem_sent]
    refine and_congr_left fun hb => ?_
    rw [h b.bucket (of_decide_eq_true hb)]
  · intro a ha b hb hab
    have ha' := mem_sent.1 (List.mem_of_mem_filter ha)
    have hb' := mem_sent.1 (List.mem_of_mem_filter hb)
    rw [hab, hb'] at ha'
    cases a
    cases b
    cases hab
    cases ha'
    rfl

/-- A read of all the counts is the grouping of the entries. -/
theorem buckets24h_allBuckets (entries : List QueryEntry) :
    (allBuckets ∅ entries).buckets24h now = window entries now := by
  have hperm := (tally_perm_groupBy bucketTs (fun _ => (⟨0, 0, 0, 0⟩ : QueryBucket))
    QueryBucket.add entries).map fun e => (⟨e.2, e.1⟩ : TimeseriesBucket)
  rw [map_groupBy] at hperm
  refine orderBy_eq_of_perm (hperm.filter _) ?_
  intro a ha b hb hab
  have ha' := mem_sent.1 (List.mem_of_mem_filter ha)
  have hb' := mem_sent.1 (List.mem_of_mem_filter hb)
  rw [hab, hb'] at ha'
  cases a
  cases b
  cases hab
  cases ha'
  rfl

/-! ## Counting -/

theorem increment_eq (t : Timeseries) (e : QueryEntry) :
    t.increment e = if (t.lookup (bucketTs e)).isNone then
      (allBuckets t [e]).retain fun ts _ => bucketTs e - (86400 + 600) ≤ ts
    else allBuckets t [e] := by
  have hone : allBuckets t [e] = addTo bucketTs (fun _ => ⟨0, 0, 0, 0⟩) QueryBucket.add t e := rfl
  rw [hone]
  unfold Timeseries.increment bucketTs addTo
  with_reducible rfl

/-- What is dropped is not shown any more. -/
theorem SameWindow.increment (h : SameWindow now t s) (he : bucketTs e ≤ now) :
    SameWindow now (t.increment e) (allBuckets s [e]) := by
  have hadd : ∀ k, now - 86400 ≤ k →
      (allBuckets t [e]).lookup k = (allBuckets s [e]).lookup k := by
    intro k hk
    rw [allBuckets, allBuckets, lookup_tally, lookup_tally, h k hk]
  intro k hk
  rw [← hadd k hk, increment_eq]
  split
  · rw [Table.lookup_retain]
    have hkeep : bucketTs e - (86400 + 600) ≤ k :=
      (tsub_le_tsub he (Nat.le_add_right 86400 600)).trans hk
    rw [decide_eq_true hkeep]
    cases (allBuckets t [e]).lookup k with
    | none => rfl
    | some q => rfl
  · rfl

theorem allBuckets_append (t : Timeseries) (entries entries' : List QueryEntry) :
    allBuckets t (entries ++ entries') = allBuckets (allBuckets t entries) entries' :=
  List.foldl_append

theorem SameWindow.foldl (h : SameWindow now t s) {entries : List QueryEntry}
    (htimes : ∀ e ∈ entries, bucketTs e ≤ now) :
    SameWindow now (entries.foldl Timeseries.increment t) (allBuckets s entries) := by
  induction entries generalizing t s with
  | nil => exact h
  | cons e entries ih =>
    rw [← List.singleton_append, allBuckets_append]
    exact ih (h.increment (htimes e (List.mem_cons_self ..)))
      fun e' he' => htimes e' (List.mem_cons_of_mem _ he')

theorem sameWindow_apply {events : List SeriesEvent} {entries : List QueryEntry}
    (h : SameWindow now t (allBuckets ∅ entries)) (htimes : ∀ a ∈ events, NotAfter now a) :
    SameWindow now (events.foldl Timeseries.apply t)
      (allBuckets ∅ (sinceClear entries events)) := by
  induction events generalizing t entries with
  | nil => exact h
  | cons a events ih =>
    have hrest := fun a ha => htimes a (List.mem_cons_of_mem _ ha)
    cases a with
    | increment e =>
      refine ih ?_ hrest
      rw [allBuckets_append]
      exact h.increment (bucketTs_le (htimes _ (List.mem_cons_self ..)))
    | clear => exact ih (fun _ _ => rfl) hrest

/-! ## How many there are -/

/-- The entries that were counted, in order. -/
def counted (events : List SeriesEvent) : List QueryEntry :=
  events.filterMap fun
    | .increment e => some e
    | .clear => none

/-- Every bucket is on a boundary, and less than 25 hours behind the newest. -/
def Recent (newest : ℕ) (t : Timeseries) : Prop :=
  ∀ k q, t.lookup k = some q → 600 ∣ k ∧ k ≤ newest ∧ newest ≤ k + 87000

theorem Recent.empty (newest : ℕ) : Recent newest ∅ := nofun

theorem lookup_one {k : ℕ} {q : QueryBucket} (h : (allBuckets t [e]).lookup k = some q) :
    k = bucketTs e ∨ ∃ q', t.lookup k = some q' := by
  rw [allBuckets, lookup_tally] at h
  by_cases hk : bucketTs e = k
  · exact .inl hk.symm
  · rw [List.filter_cons_of_neg (by simpa using hk), List.filter_nil, if_pos rfl] at h
    exact .inr ⟨q, h⟩

/-- A new bucket is begun behind the others, and one that is there is the newest. -/
theorem Recent.increment {newest : ℕ} (h : Recent newest t) (hnewest : newest ≤ bucketTs e) :
    Recent (bucketTs e) (t.increment e) := by
  have haligned : 600 ∣ bucketTs e := Dvd.intro_left _ rfl
  intro k q hk
  rw [increment_eq] at hk
  split at hk
  · rw [Table.lookup_retain, Option.filter_eq_some_iff, decide_eq_true_eq] at hk
    have hback := Nat.sub_le_iff_le_add.1 hk.2
    obtain rfl | ⟨q', hq'⟩ := lookup_one hk.1
    · exact ⟨haligned, le_rfl, Nat.le_add_right ..⟩
    · obtain ⟨hdvd, hle, -⟩ := h k q' hq'
      exact ⟨hdvd, hle.trans hnewest, hback⟩
  · rename_i hold
    obtain ⟨old, hlookup⟩ := Option.ne_none_iff_exists'.1 (by simpa using hold)
    have htop : bucketTs e = newest := Nat.le_antisymm (h _ old hlookup).2.1 hnewest
    obtain rfl | ⟨q', hq'⟩ := lookup_one hk
    · exact ⟨haligned, le_rfl, Nat.le_add_right ..⟩
    · rw [htop]
      exact h k q' hq'

theorem recent_apply {events : List SeriesEvent} {newest : ℕ} (h : Recent newest t)
    (hnewest : ∀ e ∈ counted events, newest ≤ bucketTs e)
    (hordered : (counted events).Pairwise fun a b => bucketTs a ≤ bucketTs b) :
    ∃ newest', Recent newest' (events.foldl Timeseries.apply t) := by
  induction events generalizing t newest with
  | nil => exact ⟨newest, h⟩
  | cons a events ih =>
    cases a with
    | increment e =>
      obtain ⟨hfirst, hrest⟩ := List.pairwise_cons.1 hordered
      exact ih (h.increment (hnewest e (List.mem_cons_self ..))) hfirst hrest
    | clear => exact ih (Recent.empty newest) hnewest hordered

/-- Less than 25 hours of buckets. -/
theorem Recent.length_le {newest : ℕ} (h : Recent newest t) : t.keys.length ≤ 146 := by
  have hbucket : ∀ k ∈ t.keys, 600 ∣ k ∧ k ≤ newest ∧ newest ≤ k + 87000 := by
    intro k hk
    obtain ⟨q, hq⟩ := Option.isSome_iff_exists.1 (AList.lookup_isSome.2 hk)
    exact h k q hq
  have hnodup : (t.keys.map fun k => (newest - k) / 600).Nodup := by
    refine List.Nodup.map_on ?_ t.nodupKeys
    intro k hk k' hk' heq
    obtain ⟨⟨i, rfl⟩, hle, -⟩ := hbucket k hk
    obtain ⟨⟨j, rfl⟩, hle', -⟩ := hbucket k' hk'
    omega
  have hsub : (t.keys.map fun k => (newest - k) / 600) ⊆ List.range 146 := by
    intro i hi
    obtain ⟨k, hk, rfl⟩ := List.mem_map.1 hi
    obtain ⟨-, hle, hback⟩ := hbucket k hk
    rw [List.mem_range]
    omega
  have hlen := (hnodup.subperm hsub).length_le
  rwa [List.length_map, List.length_range] at hlen

/-- **The window is exact.**  Over every run of counts and clears none of which is from the
future: a read shows, in order, exactly the groups that the entries since the last clear have in
the 24 hours before it, although buckets are dropped only now and then; and when the entries come
in the order of their times, there are never more than 146 buckets. -/
theorem window_is_exact {events : List SeriesEvent} (hnow : now < 2 ^ 64)
    (htimes : ∀ a ∈ events, NotAfter now a) :
    (events.foldl Timeseries.apply ∅).buckets24h now = window (sinceClear [] events) now ∧
      (((counted events).Pairwise fun a b => a.secs ≤ b.secs) →
        (events.foldl Timeseries.apply ∅).keys.length ≤ 146) := by
  constructor
  · rw [← buckets24h_allBuckets]
    exact buckets24h_congr (sameWindow_apply (fun _ _ => rfl) htimes)
  · intro hordered
    have htime : ∀ e ∈ counted events, 0 ≤ e.secs ∧ e.secs ≤ now := by
      intro e he
      obtain ⟨a, ha, hae⟩ := List.mem_filterMap.1 he
      cases a with
      | increment e' =>
        cases hae
        exact htimes _ ha
      | clear => cases hae
    have hbuckets : (counted events).Pairwise fun a b => bucketTs a ≤ bucketTs b := by
      refine hordered.imp_of_mem fun ha hb hab => ?_
      obtain ⟨ha0, -⟩ := htime _ ha
      obtain ⟨-, hbnow⟩ := htime _ hb
      unfold bucketTs
      rw [Int.emod_eq_of_lt ha0 (by omega), Int.emod_eq_of_lt (by omega) (by omega)]
      exact Nat.mul_le_mul_right 600 (Nat.div_le_div_right (Int.toNat_le_toNat hab))
    obtain ⟨newest, hrecent⟩ := recent_apply (Recent.empty 0) (fun _ _ => Nat.zero_le _) hbuckets
    exact hrecent.length_le

/-- A query that was answered from the cache. -/
def cachedAt (secs : ℤ) (id : UInt64) : QueryEntry where
  domain := "a.test".toList
  queryType := 1
  clientIp := "192.168.1.10".toList
  device := []
  status := .cached
  upstream := none
  rcode := 0
  id := id
  timestamp := ⟨secs, 0⟩
  latencyMs := 0

/-- Two queries of a bucket, a clear, and one of the next day. -/
def twoDays : List SeriesEvent :=
  [.increment (cachedAt 100 1), .increment (cachedAt 200 2), .clear,
    .increment (cachedAt 90000 3)]

theorem twoDays_are_exact :
    (twoDays.foldl Timeseries.apply ∅).buckets24h 90000 = window (sinceClear [] twoDays) 90000 ∧
      (((counted twoDays).Pairwise fun a b => a.secs ≤ b.secs) →
        (twoDays.foldl Timeseries.apply ∅).keys.length ≤ 146) :=
  window_is_exact (by decide) (by
    intro a ha
    simp only [twoDays, List.mem_cons, List.not_mem_nil, or_false] at ha
    rcases ha with rfl | rfl | rfl | rfl
    · exact ⟨by decide, by decide⟩
    · exact ⟨by decide, by decide⟩
    · trivial
    · exact ⟨by decide, by decide⟩)

/-! ## The rollups of the database -/

/-- A moment the database and the window count alike. -/
def Countable (e : QueryEntry) : Prop := 0 ≤ e.secs ∧ e.secs < 2 ^ 63

theorem bucket_eq (h : Countable e) : e.bucket = bucketTs e := by
  obtain ⟨h0, h63⟩ := h
  have hround : e.secs / 600 * 600 = bucketTs e := by
    unfold bucketTs
    rw [Int.emod_eq_of_lt h0 (by omega)]
    omega
  have hback : ((bucketTs e : ℤ)).bmod (2 ^ 64) = bucketTs e := by
    refine Int.bmod_eq_of_le ?_ ?_ <;> omega
  rw [QueryEntry.bucket, alignBucket, rollupBucketSecs, hround, hback]

/-- The rollups of the entries are the counts of their buckets. -/
theorem lookup_queryTally {entries : List QueryEntry} (h : ∀ e ∈ entries, Countable e) (k : ℤ)
    (q : QueryBucket) : (queryTally ∅ entries).lookup k = some q ↔
      ∃ n : ℕ, k = n ∧ (allBuckets ∅ entries).lookup n = some q := by
  have hsame : ∀ n : ℕ, (entries.filter fun e => e.bucket = (n : ℤ)) =
      entries.filter fun e => bucketTs e = n := by
    intro n
    refine List.filter_congr fun e he => ?_
    rw [bucket_eq (h e he)]
    exact decide_eq_decide.2 Nat.cast_inj
  rw [queryTally, lookup_tally]
  constructor
  · intro hq
    obtain ⟨e, he⟩ : ∃ e, e ∈ entries.filter fun e => e.bucket = k := by
      by_contra hnone
      rw [if_pos (List.eq_nil_iff_forall_not_mem.2 fun e he => hnone ⟨e, he⟩)] at hq
      cases hq
    obtain ⟨hmem, hk⟩ := List.mem_filter.1 he
    have hk' : k = bucketTs e := (of_decide_eq_true hk).symm.trans (bucket_eq (h e hmem))
    refine ⟨bucketTs e, hk', ?_⟩
    rw [allBuckets, lookup_tally, ← hsame, ← hk']
    exact hq
  · rintro ⟨n, rfl, hq⟩
    rw [allBuckets, lookup_tally, ← hsame] at hq
    exact hq

theorem mergeQueryBucket_zero (q : QueryBucket) :
    Sqlite.mergeQueryBucket ⟨0, 0, 0, 0⟩ q = q := by
  simp [Sqlite.mergeQueryBucket]

/-- One entry of a map has a key. -/
theorem filter_key_eq {K V : Type} [DecidableEq K] {l : List (Sigma fun _ : K => V)}
    (hkeys : l.NodupKeys) {r : Sigma fun _ : K => V} (hr : r ∈ l) :
    (l.filter fun x => x.1 = r.1) = [r] := by
  refine List.perm_singleton.1 ((List.perm_ext_iff_of_nodup (hkeys.nodup.filter _)
    (List.nodup_singleton r)).2 fun x => ?_)
  rw [List.mem_filter, List.mem_singleton, decide_eq_true_eq]
  constructor
  · rintro ⟨hx, heq⟩
    exact hkeys.eq_of_fst_eq hx hr heq
  · rintro rfl
    exact ⟨hr, rfl⟩

theorem exists_of_lookup {entries : List QueryEntry} {k : ℕ} {q : QueryBucket}
    (h : (allBuckets ∅ entries).lookup k = some q) : ∃ e ∈ entries, bucketTs e = k := by
  by_contra hnone
  rw [allBuckets, lookup_tally, if_pos] at h
  · cases h
  · refine List.filter_eq_nil_iff.2 fun e he hk => hnone ⟨e, he, of_decide_eq_true hk⟩

variable {db : Sqlite.Db}

/-- The rollups are kept on the boundaries of ten minutes. -/
def Aligned (db : Sqlite.Db) : Prop :=
  ∀ k q, db.queryBuckets.lookup k = some q → ∃ n : ℕ, k = (n * 600 : ℕ) ∧ n * 600 < 2 ^ 63

/-- The rollups that are read. -/
def readRows (db : Sqlite.Db) (now : ℤ) : List (Sigma fun _ : ℤ => QueryBucket) :=
  db.queryBuckets.entries.filter fun e => Sqlite.outBucket 600 (now - 86400) ≤ e.1

/-- A row as it is sent. -/
def sentRow (e : Sigma fun _ : ℤ => QueryBucket) : TimeseriesBucket :=
  ⟨e.2, (e.1 % 2 ^ 64).toNat⟩

theorem nodupKeys_readRows (db : Sqlite.Db) (now : ℤ) : (readRows db now).NodupKeys :=
  List.NodupKeys.sublist List.filter_sublist db.queryBuckets.nodupKeys

theorem lookup_of_mem_readRows {now : ℤ} {r : Sigma fun _ : ℤ => QueryBucket}
    (hr : r ∈ readRows db now) : db.queryBuckets.lookup r.1 = some r.2 :=
  Table.mem_entries_iff.1 (List.mem_of_mem_filter hr)

/-- A boundary is its own bucket, and comes back from a `u64`. -/
theorem Aligned.key (h : Aligned db) {k : ℤ} {q : QueryBucket}
    (hk : db.queryBuckets.lookup k = some q) :
    Sqlite.outBucket 600 k = k ∧ ((k % 2 ^ 64).toNat : ℤ) = k := by
  obtain ⟨n, rfl, hlt⟩ := h k q hk
  constructor
  · rw [Sqlite.outBucket, Nat.cast_mul]
    exact congrArg (· * (600 : ℤ)) (Int.mul_tdiv_cancel _ (by decide))
  · rw [Int.emod_eq_of_lt (by omega) (by omega)]
    exact Int.toNat_of_nonneg (by omega)

/-- Ten minutes are grouped into ten minutes as they are. -/
theorem timeseries_perm (h : Aligned db) (now : ℤ) :
    (Sqlite.timeseries db now 600).Perm ((readRows db now).map sentRow) := by
  have hkeys := nodupKeys_readRows db now
  have hkey : ∀ r ∈ readRows db now, Sqlite.outBucket 600 r.1 = r.1 := fun r hr =>
    (h.key (lookup_of_mem_readRows hr)).1
  have hread : Sqlite.timeseries db now 600 = (orderBy Prod.fst
      (groupBy (fun e => Sqlite.outBucket 600 e.1)
        (fun k rows => (k, rows.foldl (fun q e => Sqlite.mergeQueryBucket q e.2) ⟨0, 0, 0, 0⟩))
        (readRows db now))).map fun row => ⟨row.2, (row.1 % 2 ^ 64).toNat⟩ := rfl
  rw [hread]
  generalize readRows db now = rows at hkeys hkey ⊢
  have hgroups : groupBy (fun e => Sqlite.outBucket 600 e.1)
      (fun k rows => (k, rows.foldl (fun q e => Sqlite.mergeQueryBucket q e.2) ⟨0, 0, 0, 0⟩))
      rows = rows.map fun e => (e.1, e.2) := by
    have hmap : rows.map (fun e => Sqlite.outBucket 600 e.1) = rows.keys :=
      List.map_congr_left hkey
    rw [groupBy, hmap, List.dedup_eq_self.2 hkeys, List.keys, List.map_map]
    refine List.map_congr_left fun e he => ?_
    have hone : (rows.filter fun x => Sqlite.outBucket 600 x.1 = e.1) = [e] := by
      rw [← filter_key_eq hkeys he]
      refine List.filter_congr fun x hx => ?_
      rw [hkey x hx]
    rw [Function.comp_apply, hone, List.foldl_cons, List.foldl_nil, mergeQueryBucket_zero]
  rw [hgroups]
  refine ((orderBy_perm _ _).map _).trans ?_
  rw [List.map_map]
  exact List.Perm.refl _

theorem pairwise_timeseries (h : Aligned db) (now : ℤ) :
    (Sqlite.timeseries db now 600).Pairwise fun a b => a.bucket ≠ b.bucket := by
  have hkeys := nodupKeys_readRows db now
  have hnodup : ((Sqlite.timeseries db now 600).map TimeseriesBucket.bucket).Nodup := by
    rw [((timeseries_perm h now).map _).nodup_iff, List.map_map]
    refine List.Nodup.map_on ?_ hkeys.nodup
    intro e he e' he' heq
    refine hkeys.eq_of_fst_eq he he' ?_
    rw [← (h.key (lookup_of_mem_readRows he)).2, ← (h.key (lookup_of_mem_readRows he')).2]
    exact congrArg _ heq
  exact List.pairwise_map.1 hnodup

/-- A boundary is not after what it is the boundary of, nor after a moment later than zero. -/
theorem outBucket_le {x : ℤ} {k : ℕ} (hx : x ≤ k) : Sqlite.outBucket 600 x ≤ k := by
  unfold Sqlite.outBucket
  rcases le_total 0 x with hpos | hneg
  · rw [Int.tdiv_eq_ediv_of_nonneg hpos]
    exact (Int.ediv_mul_le x (by decide)).trans hx
  · rw [Int.eq_neg_natAbs_of_nonpos hneg, Int.neg_tdiv,
      Int.tdiv_eq_ediv_of_nonneg (Int.natCast_nonneg _)]
    omega

/-- A window that was filled shows what the database has of the last 24 hours. -/
theorem lookup_seed (h : Aligned db) {restart k : ℕ} (hk : restart - 86400 ≤ k) :
    (Timeseries.seed ∅ (Sqlite.timeseries db restart 600)).lookup k =
      db.queryBuckets.lookup (k : ℤ) := by
  have hperm := timeseries_perm h restart
  have hempty : (∅ : Timeseries).lookup k = none := AList.lookup_empty k
  refine Option.ext fun q => ?_
  rw [Timeseries.seed, Table.lookup_foldl_insert TimeseriesBucket.bucket
    TimeseriesBucket.toQueryBucket _ (pairwise_timeseries h restart), hempty]
  constructor
  · rintro (⟨b, hb, rfl, rfl⟩ | ⟨-, hnone⟩)
    · obtain ⟨r, hr, rfl⟩ := List.mem_map.1 (hperm.mem_iff.1 hb)
      have hlookup := lookup_of_mem_readRows hr
      have hback : ((sentRow r).bucket : ℤ) = r.1 := (h.key hlookup).2
      rw [hback]
      exact hlookup
    · cases hnone
  · intro hq
    have hread : (⟨k, q⟩ : Sigma fun _ : ℤ => QueryBucket) ∈ readRows db restart :=
      List.mem_filter.2 ⟨Table.mem_entries_iff.2 hq,
        decide_eq_true (outBucket_le (by omega))⟩
    refine .inl ⟨_, hperm.mem_iff.2 (List.mem_map_of_mem hread), ?_, rfl⟩
    exact Int.ofNat_inj.1 (h.key hq).2

/-! ## A restart -/

/-- A batch of the writer adds its entries to the rollups. -/
theorem shows_writeBatch {db' : Sqlite.Db} {written entries : List QueryEntry}
    {scope : RecordScope} (hstats : scope.stats = true)
    (h : Table.Shows (fun _ b => b) (queryTally ∅ written) db.queryBuckets)
    (hwrite : Sqlite.writeBatch db entries scope = some db') :
    Table.Shows (fun _ b => b) (queryTally ∅ (written ++ entries)) db'.queryBuckets := by
  have happend : queryTally ∅ (written ++ entries) = queryTally (queryTally ∅ written) entries :=
    List.foldl_append
  rw [happend]
  cases entries with
  | nil =>
    cases hwrite
    exact h
  | cons e entries =>
    have hskip : ((e :: entries).isEmpty || !scope.recordsAnything) = false := by
      simp [RecordScope.recordsAnything, hstats]
    cases hinsert : Sqlite.insertEntries db (e :: entries) scope with
    | none =>
      rw [Sqlite.writeBatch, hskip, if_neg (by decide), hinsert] at hwrite
      cases hwrite
    | some rows =>
      rw [sqlite_writeBatch hskip hinsert] at hwrite
      cases hwrite
      simp only [hstats, if_true]
      exact shows_upsertAll_tally (fun _ => True) (fun _ _ _ => rfl) mergeQueryBucket_add
        (fun _ _ _ => trivial) h (e :: entries)

theorem shows_batches {db' : Sqlite.Db} (written : List QueryEntry)
    {batches : List (List QueryEntry)} {scope : RecordScope} (hstats : scope.stats = true)
    (h : Table.Shows (fun _ b => b) (queryTally ∅ written) db.queryBuckets)
    (hwrite : batches.foldlM (fun db es => Sqlite.writeBatch db es scope) db = some db') :
    Table.Shows (fun _ b => b) (queryTally ∅ (written ++ batches.flatten)) db'.queryBuckets := by
  induction batches generalizing db written with
  | nil =>
    cases hwrite
    rw [List.flatten_nil, List.append_nil]
    exact h
  | cons entries batches ih =>
    rw [List.foldlM_cons] at hwrite
    obtain ⟨db₁, hone, hrest⟩ := Option.bind_eq_some_iff.1 hwrite
    rw [List.flatten_cons, ← List.append_assoc]
    exact ih _ (shows_writeBatch hstats h hone) hrest

/-- Rollups of countable entries are the counts of the window. -/
theorem lookup_rollups {written : List QueryEntry}
    (h : Table.Shows (fun _ b => b) (queryTally ∅ written) db.queryBuckets)
    (hcount : ∀ e ∈ written, Countable e) :
    Aligned db ∧ ∀ k : ℕ, db.queryBuckets.lookup (k : ℤ) =
      (allBuckets ∅ written).lookup k := by
  constructor
  · intro k q hq
    rw [← h.lookup_eq, lookup_queryTally hcount] at hq
    obtain ⟨n, rfl, hn⟩ := hq
    obtain ⟨e, he, rfl⟩ := exists_of_lookup hn
    obtain ⟨h0, h63⟩ := hcount e he
    have haligned : 600 ∣ bucketTs e := Dvd.intro_left _ rfl
    refine ⟨bucketTs e / 600, ?_, ?_⟩
    · rw [Nat.div_mul_cancel haligned]
    · rw [Nat.div_mul_cancel haligned]
      have hle : bucketTs e ≤ e.secs.toNat := bucketTs_le ⟨h0, by omega⟩
      omega
  · intro k
    refine Option.ext fun q => ?_
    rw [← h.lookup_eq, lookup_queryTally hcount]
    constructor
    · rintro ⟨n, hn, hq⟩
      rw [Int.ofNat_inj.1 hn]
      exact hq
    · exact fun hq => ⟨k, rfl, hq⟩

/-- **A restart loses nothing of the window.**  The window that is filled from the rollups of the
batches that were written, and then counts on, shows what one that had counted everything would,
whatever the batches and wherever the restart falls. -/
theorem window_survives_restart {batches : List (List QueryEntry)} {later : List QueryEntry}
    {scope : RecordScope} {restart : ℕ} (hstats : scope.stats = true)
    (hwrite : batches.foldlM (fun db es => Sqlite.writeBatch db es scope) Sqlite.openStorage =
      some db)
    (hnow : restart ≤ now ∧ now < 2 ^ 63)
    (hbefore : ∀ e ∈ batches.flatten, 0 ≤ e.secs ∧ e.secs ≤ restart)
    (hlater : ∀ e ∈ later, 0 ≤ e.secs ∧ e.secs ≤ now) :
    (later.foldl Timeseries.increment
        (Timeseries.seed ∅ (Sqlite.timeseries db restart 600))).buckets24h now =
      ((batches.flatten ++ later).foldl Timeseries.increment ∅).buckets24h now := by
  obtain ⟨hrestart, h63⟩ := hnow
  have hcount : ∀ e ∈ batches.flatten, Countable e := by
    intro e he
    obtain ⟨h0, hle⟩ := hbefore e he
    exact ⟨h0, by omega⟩
  have hrollups : Table.Shows (fun _ b => b) (queryTally ∅ batches.flatten) db.queryBuckets :=
    shows_batches [] hstats Table.Shows.empty hwrite
  obtain ⟨haligned, hlookup⟩ := lookup_rollups hrollups hcount
  have hseed : SameWindow now (Timeseries.seed ∅ (Sqlite.timeseries db restart 600))
      (allBuckets ∅ batches.flatten) := by
    intro k hk
    rw [lookup_seed haligned ((Nat.sub_le_sub_right hrestart 86400).trans hk), hlookup]
  have hbuckets : ∀ e ∈ batches.flatten ++ later, bucketTs e ≤ now := by
    intro e he
    rcases List.mem_append.1 he with he | he
    · exact (bucketTs_le (hbefore e he)).trans hrestart
    · exact bucketTs_le (hlater e he)
  have hfilled := hseed.foldl fun e he => hbuckets e (List.mem_append_right _ he)
  have hcounted : SameWindow now ((batches.flatten ++ later).foldl Timeseries.increment ∅)
      (allBuckets ∅ (batches.flatten ++ later)) := SameWindow.foldl (fun _ _ => rfl) hbuckets
  rw [allBuckets_append] at hcounted
  exact buckets24h_congr fun k hk => (hfilled k hk).trans (hcounted k hk).symm

/-- The database after two batches. -/
def twoBatches : Option Sqlite.Db :=
  [[cachedAt 100 1, cachedAt 200 2], [cachedAt 700 3]].foldlM
    (fun db es => Sqlite.writeBatch db es ⟨false, true⟩) Sqlite.openStorage

theorem twoBatches_survive : ∃ db, twoBatches = some db ∧
    ([cachedAt 900 4].foldl Timeseries.increment
        (Timeseries.seed ∅ (Sqlite.timeseries db (800 : ℕ) 600))).buckets24h 1000 =
      (([[cachedAt 100 1, cachedAt 200 2], [cachedAt 700 3]].flatten ++
        [cachedAt 900 4]).foldl Timeseries.increment ∅).buckets24h 1000 :=
  have hstats : (⟨false, true⟩ : RecordScope).stats = true := rfl
  ⟨_, rfl, window_survives_restart hstats rfl ⟨by decide, by decide⟩ (by decide) (by decide)⟩

end Ferrite.Stats
