import Ferrite.Lib.Mealy
import Ferrite.Storage.Sqlite

/-!
# What is recorded of a query, and when that is decided

The live statistics of `stats/src/live.rs`, the writer of `stats/src/writer.rs` between the
resolver and the database, and the two switches of `core/src/recording.rs`.  A query is
emitted, drained into a batch and flushed, and the switches are read at each of the three.

What a step records is its output: `Recorded.live` what goes into memory when an entry is
drained, `Recorded.stored` what goes into the tables when a batch is written.  An entry is
quiet on a surface if the switch of that surface has been off from its emission to its
drain.

* `live_quiet` — no quiet entry is recorded in memory, in any run;
* `stored_quiet` — none is recorded in the tables as long as no switch is turned on while
  the writer has a quiet entry in hand; `quiet_row` is what happens otherwise.
-/

namespace Ferrite.Stats

open Storage
open Dns (QueryStatus)
open Rows

/-! ## Live statistics -/

/-- `TopNCounter`. -/
structure TopNCounter where
  counts : Table Text ℕ
  maxKeys : ℕ

namespace TopNCounter

/-- `TopNCounter::new`. -/
def new (maxKeys : ℕ) : TopNCounter := ⟨∅, maxKeys⟩

/-- `TopNCounter::increment`: a full table takes no new keys. -/
def increment (c : TopNCounter) (key : Text) : TopNCounter :=
  match c.counts.lookup key with
  | some n => { c with counts := c.counts.insert key (n + 1) }
  | none =>
    if c.counts.keys.length < c.maxKeys then { c with counts := c.counts.insert key 1 } else c

/-- `TopNCounter::clear`. -/
def clear (c : TopNCounter) : TopNCounter := { c with counts := ∅ }

end TopNCounter

/-- `InMemoryTimeseries`: the buckets of ten minutes. -/
abbrev Timeseries := Table ℕ QueryBucket

/-- `InMemoryTimeseries::increment`: a new bucket prunes those that are too old. -/
def Timeseries.increment (t : Timeseries) (e : QueryEntry) : Timeseries :=
  let secs := (e.secs % 2 ^ 64).toNat
  let bucket := secs / 600 * 600
  let t' : Timeseries := addTo (fun _ => bucket) (fun _ => ⟨0, 0, 0, 0⟩) QueryBucket.add t e
  if (t.lookup bucket).isNone then t'.retain fun ts _ => bucket - (86400 + 600) ≤ ts else t'

/-- `QueryRingBuffer::push`. -/
def pushRecent (capacity : ℕ) (recent : List QueryEntry) (e : QueryEntry) : List QueryEntry :=
  (if capacity ≤ recent.length then recent.tail else recent) ++ [e]

/-- The aggregates of `LiveStats`. -/
structure History where
  topDomains : TopNCounter
  topBlocked : TopNCounter
  topClients : TopNCounter
  clientBlocked : TopNCounter
  timeseries : Timeseries

namespace History

def new : History := ⟨.new 10000, .new 10000, .new 1000, .new 1000, ∅⟩

/-- What `push_entry` adds to the statistics. -/
def count (h : History) (e : QueryEntry) : History where
  topDomains := h.topDomains.increment e.domain
  topBlocked := if e.status = .blocked then h.topBlocked.increment e.domain else h.topBlocked
  topClients := h.topClients.increment e.deviceToken
  clientBlocked :=
    if e.status = .blocked then h.clientBlocked.increment e.deviceToken else h.clientBlocked
  timeseries := h.timeseries.increment e

/-- What `forget_history` leaves. -/
def clear (h : History) : History :=
  ⟨h.topDomains.clear, h.topBlocked.clear, h.topClients.clear, h.clientBlocked.clear, ∅⟩

end History

/-- `LiveStats`: the lifetime counters by status and of what was dropped, the aggregates and
the recent queries. -/
structure LiveStats where
  totalQueries : ℕ
  totals : QueryStatus → ℕ
  totalDropped : ℕ
  history : History
  recent : List QueryEntry

namespace LiveStats

/-- The size of the ring of recent queries. -/
def recentCapacity : ℕ := 2000

def new : LiveStats := ⟨0, fun _ => 0, 0, .new, []⟩

/-- `record_query`: no domain and no client in it. -/
def recordQuery (l : LiveStats) (status : QueryStatus) : LiveStats :=
  { l with
    totalQueries := l.totalQueries + 1
    totals := Function.update l.totals status (l.totals status + 1) }

/-- `push_entry`. -/
def pushEntry (l : LiveStats) (e : QueryEntry) (scope : RecordScope) : LiveStats :=
  { l with
    history := if scope.stats then l.history.count e else l.history
    recent := if scope.queries then pushRecent recentCapacity l.recent e else l.recent }

/-- `forget_recent`. -/
def forgetRecent (l : LiveStats) : LiveStats := { l with recent := [] }

/-- `forget_history`. -/
def forgetHistory (l : LiveStats) : LiveStats := { l with history := l.history.clear }

end LiveStats

/-! ## The writer -/

/-- The two surfaces a query may be recorded on. -/
inductive Surface where
  | queries
  | stats
deriving DecidableEq, Repr

/-- The switch of a surface. -/
def on (scope : RecordScope) : Surface → Bool
  | .queries => scope.queries
  | .stats => scope.stats

/-- `set_queries`, `set_stats`. -/
def setSwitch (scope : RecordScope) : Surface → Bool → RecordScope
  | .queries, b => { scope with queries := b }
  | .stats, b => { scope with stats := b }

/-- An entry on its way, and on which surfaces it is quiet: the switch has been off since it
was emitted, up to its drain. -/
structure Queued where
  entry : QueryEntry
  quiet : Surface → Bool

/-- The switches, the live statistics, the channel, the writer's batch, the batch it has
taken for a flush and the scope it is to be written with once that is read, and the
database. -/
structure World where
  switches : RecordScope
  live : LiveStats
  channel : List Queued
  batch : List Queued
  flushing : Option (List Queued × Option RecordScope)
  db : Sqlite.Db

/-- What a step records: in memory and in the tables. -/
structure Recorded where
  live : Surface → List Queued
  stored : Surface → List Queued

def Recorded.nothing : Recorded := ⟨fun _ => [], fun _ => []⟩

/-- The steps. -/
inductive Action where
  /-- `emit`; the channel may be full. -/
  | emit (e : QueryEntry) (full : Bool)
  /-- The writer takes an entry from the channel; `mac` is what the registry knows of its
  client. -/
  | drain (mac : Option Text)
  | take
  | readScope
  /-- `write_batch`, which may fail. -/
  | write (ok : Bool)
  | set (s : Surface) (b : Bool)
  | forget (s : Surface)

/-- `tag_device`. -/
def tagDevice (mac : Option Text) (e : QueryEntry) : QueryEntry :=
  if e.device.isEmpty then { e with device := mac.getD e.clientIp } else e

/-- What is recorded on a surface under a scope. -/
def under (scope : RecordScope) (qs : List Queued) (s : Surface) : List Queued :=
  if on scope s then qs else []

/-- One step of the resolver, the writer or the settings; a step that is not due does
nothing. -/
def step (w : World) : Action → World × Recorded
  | .emit e full =>
    let live := w.live.recordQuery e.status
    if !w.switches.recordsAnything then ({ w with live := live }, .nothing)
    else if full then
      ({ w with live := { live with totalDropped := live.totalDropped + 1 } }, .nothing)
    else
      ({ w with live := live, channel := w.channel ++ [⟨e, fun s => !on w.switches s⟩] }, .nothing)
  | .drain mac =>
    match w.flushing, w.channel with
    | none, q :: rest =>
      let q := { q with entry := tagDevice mac q.entry }
      ({ w with
         channel := rest
         live := w.live.pushEntry q.entry w.switches
         batch := w.batch ++ [q] }, ⟨under w.switches [q], fun _ => []⟩)
    | _, _ => (w, .nothing)
  | .take =>
    match w.flushing with
    | none =>
      if w.batch.isEmpty then (w, .nothing)
      else ({ w with flushing := some (w.batch, none), batch := [] }, .nothing)
    | some _ => (w, .nothing)
  | .readScope =>
    match w.flushing with
    | some (b, none) =>
      if w.switches.recordsAnything then ({ w with flushing := some (b, some w.switches) }, .nothing)
      else ({ w with flushing := none }, .nothing)
    | _ => (w, .nothing)
  | .write ok =>
    match w.flushing with
    | some (b, some scope) =>
      match if ok then Sqlite.writeBatch w.db (b.map Queued.entry) scope else none with
      | some db => ({ w with flushing := none, db := db }, ⟨fun _ => [], under scope b⟩)
      | none => ({ w with flushing := none }, .nothing)
    | _ => (w, .nothing)
  | .set s b =>
    -- an entry in the channel is quiet no longer once the switch is on
    let hear : Queued → Queued := fun q => { q with quiet := fun s' => q.quiet s' && !(s' == s && b) }
    ({ w with switches := setSwitch w.switches s b, channel := w.channel.map hear }, .nothing)
  | .forget .queries => ({ w with live := w.live.forgetRecent }, .nothing)
  | .forget .stats => ({ w with live := w.live.forgetHistory }, .nothing)

/-- The entries the writer has in hand, whose fate is open: its batch, and the one it has
taken while the scope is not read. -/
def World.inHand (w : World) : List Queued :=
  w.batch ++ match w.flushing with
    | some (b, none) => b
    | _ => []

/-- No switch is turned on while the writer has an entry in hand that is quiet there. -/
def Considerate (w : World) : Action → Prop
  | .set s true => ∀ q ∈ w.inHand, q.quiet s = false
  | _ => True

/-- The writer starts with nothing in hand. -/
def start (switches : RecordScope) (live : LiveStats) (db : Sqlite.Db) : World :=
  ⟨switches, live, [], [], none, db⟩

/-- What a step can be, with the world behind it and what it records. -/
inductive Move (w : World) : Action → World → Recorded → Prop where
  /-- It is not due. -/
  | stay (a : Action) : Move w a w .nothing
  | count (e : QueryEntry) (full : Bool) : w.switches.recordsAnything = false →
      Move w (.emit e full) { w with live := w.live.recordQuery e.status } .nothing
  | drop (e : QueryEntry) : w.switches.recordsAnything = true →
      Move w (.emit e true)
        { w with live := { w.live.recordQuery e.status with
            totalDropped := (w.live.recordQuery e.status).totalDropped + 1 } } .nothing
  | queue (e : QueryEntry) : w.switches.recordsAnything = true →
      Move w (.emit e false) { w with
        live := w.live.recordQuery e.status
        channel := w.channel ++ [⟨e, fun s => !on w.switches s⟩] } .nothing
  | drain (mac : Option Text) (q : Queued) (rest : List Queued) : w.flushing = none →
      w.channel = q :: rest →
      Move w (.drain mac) { w with
        channel := rest
        live := w.live.pushEntry (tagDevice mac q.entry) w.switches
        batch := w.batch ++ [{ q with entry := tagDevice mac q.entry }] }
        ⟨under w.switches [{ q with entry := tagDevice mac q.entry }], fun _ => []⟩
  | take : w.flushing = none →
      Move w .take { w with flushing := some (w.batch, none), batch := [] } .nothing
  | adopt (b : List Queued) : w.flushing = some (b, none) → w.switches.recordsAnything = true →
      Move w .readScope { w with flushing := some (b, some w.switches) } .nothing
  | discard (b : List Queued) : w.flushing = some (b, none) → w.switches.recordsAnything = false →
      Move w .readScope { w with flushing := none } .nothing
  /-- The batch could not be written. -/
  | lose (b : List Queued) (scope : RecordScope) (ok : Bool) : w.flushing = some (b, some scope) →
      Move w (.write ok) { w with flushing := none } .nothing
  | write (b : List Queued) (scope : RecordScope) (db : Sqlite.Db) :
      w.flushing = some (b, some scope) →
      Sqlite.writeBatch w.db (b.map Queued.entry) scope = some db →
      Move w (.write true) { w with flushing := none, db := db } ⟨fun _ => [], under scope b⟩
  | set (s : Surface) (b : Bool) :
      Move w (.set s b) { w with
        switches := setSwitch w.switches s b
        channel := w.channel.map fun q =>
          { q with quiet := fun s' => q.quiet s' && !(s' == s && b) } } .nothing
  | forgetQueries : Move w (.forget .queries) { w with live := w.live.forgetRecent } .nothing
  | forgetStats : Move w (.forget .stats) { w with live := w.live.forgetHistory } .nothing

theorem move_step (w : World) (a : Action) : Move w a (step w a).1 (step w a).2 := by
  cases a with
  | emit e full =>
    simp only [step]
    split
    · next hoff => exact .count e full (by simpa using hoff)
    · next hon =>
      have hrecords : w.switches.recordsAnything = true := by simpa using hon
      cases full with
      | true => exact .drop e hrecords
      | false => exact .queue e hrecords
  | drain mac =>
    simp only [step]
    split
    · next q rest hflushing hchannel => exact .drain mac q rest hflushing hchannel
    · exact .stay _
  | take =>
    simp only [step]
    split
    · next hflushing =>
      split
      · exact .stay _
      · exact .take hflushing
    · exact .stay _
  | readScope =>
    simp only [step]
    split
    · next b hflushing =>
      split
      · next hon => exact .adopt b hflushing hon
      · next hoff => exact .discard b hflushing (by simpa using hoff)
    · exact .stay _
  | write ok =>
    simp only [step]
    split
    · next b scope hflushing =>
      split
      · next db hwrite =>
        cases ok with
        | false => cases hwrite
        | true => exact .write b scope db hflushing hwrite
      · exact .lose b scope ok hflushing
    · exact .stay _
  | set s b => exact .set s b
  | forget s =>
    cases s with
    | queries => exact .forgetQueries
    | stats => exact .forgetStats

/-! ## What the outputs stand for -/

/-- The rows of a batch: those that were there, and those of its entries. -/
theorem isSome_lookup_foldlM {t t' : Table ℤ Sqlite.QueryRow} {entries : List QueryEntry}
    (h : entries.foldlM Sqlite.insertEntry t = some t') {k : ℤ} (hk : (t'.lookup k).isSome) :
    (t.lookup k).isSome ∨ ∃ e ∈ entries, k = Dhcp.asI64 e.id.toNat := by
  induction entries generalizing t with
  | nil =>
    obtain rfl := Option.some.inj h
    exact Or.inl hk
  | cons e entries ih =>
    rw [List.foldlM_cons, Option.bind_eq_bind, Option.bind_eq_some_iff] at h
    obtain ⟨t₁, hinsert, h⟩ := h
    rcases ih h with hk₁ | ⟨e', he', hk₁⟩
    · unfold Sqlite.insertEntry at hinsert
      split at hinsert
      · cases hinsert
      · obtain rfl := Option.some.inj hinsert
        by_cases heq : k = Dhcp.asI64 e.id.toNat
        · exact Or.inr ⟨e, List.mem_cons_self .., heq⟩
        · rw [Table.lookup_insert_eq, if_neg heq] at hk₁
          exact Or.inl hk₁
    · exact Or.inr ⟨e', List.mem_cons_of_mem _ he', hk₁⟩

/-- The rollup tables. -/
def rollups (db : Sqlite.Db) : Sqlite.Aggregates := ⟨db.queryBuckets, db.domainBuckets, db.deviceBuckets⟩

/-- What a step puts out is what it records: the recent queries, the aggregates in memory,
the rows of the log and the rollups change by nothing else, unless they are forgotten. -/
structure Truthful (w : World) (a : Action) (r : Recorded) (w' : World) : Prop where
  recent : a = .forget .queries ∨ w'.live.recent =
    ((r.live .queries).map Queued.entry).foldl (pushRecent LiveStats.recentCapacity) w.live.recent
  history : a = .forget .stats ∨
    w'.live.history = ((r.live .stats).map Queued.entry).foldl History.count w.live.history
  rows : ∀ k, (w'.db.queries.lookup k).isSome → (w.db.queries.lookup k).isSome ∨
    ∃ q ∈ r.stored .queries, k = Dhcp.asI64 q.entry.id.toNat
  tables : rollups w'.db = rollups (Sqlite.upsertRollups w.db ((r.stored .stats).map Queued.entry))

/-- A step that records nothing, and forgets nothing. -/
theorem truthful_nothing {w w' : World} {a : Action} (hrecent : w'.live.recent = w.live.recent)
    (hhistory : w'.live.history = w.live.history) (hdb : w'.db = w.db) :
    Truthful w a .nothing w' where
  recent := Or.inr hrecent
  history := Or.inr hhistory
  rows k hk := Or.inl (hdb ▸ hk)
  tables := by
    rw [hdb]
    rfl

/-- `write_batch` adds rows only for its entries, and only if the scope has the log on. -/
theorem rows_writeBatch {db db' : Sqlite.Db} {b : List Queued} {scope : RecordScope}
    (h : Sqlite.writeBatch db (b.map Queued.entry) scope = some db') {k : ℤ}
    (hk : (db'.queries.lookup k).isSome) :
    (db.queries.lookup k).isSome ∨
      ∃ q ∈ under scope b .queries, k = Dhcp.asI64 q.entry.id.toNat := by
  unfold Sqlite.writeBatch at h
  split at h
  · exact Or.inl (Option.some.inj h ▸ hk)
  · obtain ⟨t, ht, rfl⟩ := Option.map_eq_some_iff.1 h
    have hk : (t.lookup k).isSome := by
      revert hk
      dsimp only
      split <;> exact id
    unfold Sqlite.insertEntries at ht
    split at ht
    · next hqueries =>
      rcases isSome_lookup_foldlM ht hk with hold | ⟨e, he, heq⟩
      · exact Or.inl hold
      · obtain ⟨q, hq, rfl⟩ := List.mem_map.1 he
        exact Or.inr ⟨q, by rw [under, on, if_pos hqueries]; exact hq, heq⟩
    · exact Or.inl (Option.some.inj ht ▸ hk)

/-- `write_batch` adds to the rollups its entries, and only if the scope has statistics
on. -/
theorem rollups_writeBatch {db db' : Sqlite.Db} {b : List Queued} {scope : RecordScope}
    (h : Sqlite.writeBatch db (b.map Queued.entry) scope = some db') :
    rollups db' =
      rollups (Sqlite.upsertRollups db ((under scope b .stats).map Queued.entry)) := by
  unfold Sqlite.writeBatch at h
  split at h
  · next hskip =>
    obtain rfl := Option.some.inj h
    have hnone : under scope b .stats = [] := by
      rw [Bool.or_eq_true] at hskip
      rcases hskip with hempty | hoff
      · obtain rfl := List.map_eq_nil_iff.1 (List.isEmpty_iff.1 hempty)
        exact ite_self _
      · have hstats : scope.stats = false := by
          simp only [RecordScope.recordsAnything, Bool.not_eq_true', Bool.or_eq_false_iff] at hoff
          exact hoff.2
        rw [under, on, hstats]
        rfl
    rw [hnone]
    rfl
  · obtain ⟨t, -, rfl⟩ := Option.map_eq_some_iff.1 h
    cases hstats : scope.stats with
    | false =>
      rw [under, on, hstats]
      rfl
    | true =>
      rw [under, on, hstats]
      rfl

/-- Every step puts out what it records. -/
theorem truthful_step (w : World) (a : Action) : Truthful w a (step w a).2 (step w a).1 := by
  have hmove := move_step w a
  generalize (step w a).1 = w', (step w a).2 = r at hmove ⊢
  cases hmove with
  | stay _ | count _ _ _ | drop _ _ | queue _ _ | take _ | adopt _ _ _ | discard _ _ _ | lose _ _ _ _
  | set _ _ => exact truthful_nothing rfl rfl rfl
  | drain mac q rest _ _ =>
    refine ⟨Or.inr ?_, Or.inr ?_, fun k hk => Or.inl hk, rfl⟩
    · cases hqueries : w.switches.queries <;>
        simp [LiveStats.pushEntry, under, on, hqueries]
    · cases hstats : w.switches.stats <;> simp [LiveStats.pushEntry, under, on, hstats]
  | write b scope db _ hwrite =>
    exact ⟨Or.inr rfl, Or.inr rfl, fun k hk => rows_writeBatch hwrite hk,
      rollups_writeBatch hwrite⟩
  | forgetQueries => exact ⟨Or.inl rfl, Or.inr rfl, fun k hk => Or.inl hk, rfl⟩
  | forgetStats => exact ⟨Or.inr rfl, Or.inl rfl, fun k hk => Or.inl hk, rfl⟩

/-! ## Quiet entries -/

/-- Entries that are quiet only where the scope has the switch off. -/
def QuietUnder (scope : RecordScope) (qs : List Queued) : Prop :=
  ∀ q ∈ qs, ∀ s, q.quiet s = true → on scope s = false

theorem QuietUnder.append {scope : RecordScope} {qs qs' : List Queued} (h : QuietUnder scope qs)
    (h' : QuietUnder scope qs') : QuietUnder scope (qs ++ qs') := by
  intro q hq
  rcases List.mem_append.1 hq with hq | hq
  · exact h q hq
  · exact h' q hq

/-- What a scope lets through of them is not quiet. -/
theorem QuietUnder.under {scope : RecordScope} {qs : List Queued} (h : QuietUnder scope qs)
    {s : Surface} {q : Queued} (hq : q ∈ under scope qs s) : q.quiet s = false := by
  unfold Stats.under at hq
  split at hq
  · next hon =>
    cases hquiet : q.quiet s with
    | false => rfl
    | true =>
      rw [h q hq s hquiet] at hon
      cases hon
  · cases hq

/-- Turning a switch on makes no entry quiet that is not, and turning it off spares all. -/
theorem QuietUnder.setSwitch {scope : RecordScope} {qs : List Queued} (h : QuietUnder scope qs)
    {s : Surface} {b : Bool} (hset : b = true → ∀ q ∈ qs, q.quiet s = false) :
    QuietUnder (setSwitch scope s b) qs := by
  intro q hq s' hquiet
  have hoff := h q hq s' hquiet
  by_cases hs : s' = s
  · subst hs
    cases b with
    | false => cases s' <;> rfl
    | true =>
      rw [hset rfl q hq] at hquiet
      cases hquiet
  · cases s <;> cases s' <;> first | exact absurd rfl hs | exact hoff

theorem on_setSwitch (scope : RecordScope) (s s' : Surface) (b : Bool) :
    on (setSwitch scope s b) s' = if s' = s then b else on scope s' := by
  cases s <;> cases s' <;> rfl

/-- The entries of the channel are quiet only where the switch is off now. -/
theorem quiet_channel_step (w : World) (a : Action) (h : QuietUnder w.switches w.channel) :
    QuietUnder (step w a).1.switches (step w a).1.channel := by
  have hmove := move_step w a
  generalize (step w a).1 = w', (step w a).2 = r at hmove ⊢
  cases hmove with
  | stay _ | count _ _ _ | drop _ _ | take _ | adopt _ _ _ | discard _ _ _ | lose _ _ _ _
  | write _ _ _ _ _ | forgetQueries | forgetStats => exact h
  | queue e _ =>
    refine h.append ?_
    intro q hq s hquiet
    rw [List.mem_singleton.1 hq] at hquiet
    simpa using hquiet
  | drain mac q rest _ hchannel =>
    rw [hchannel] at h
    exact fun q' hq' => h q' (List.mem_cons_of_mem _ hq')
  | set s b =>
    intro q hq s' hquiet
    obtain ⟨q', hq', rfl⟩ := List.mem_map.1 hq
    rw [Bool.and_eq_true, Bool.not_eq_true', Bool.and_eq_false_iff] at hquiet
    have hoff := h q' hq' s' hquiet.1
    show on (Stats.setSwitch w.switches s b) s' = false
    rw [on_setSwitch]
    split
    · next hs => simpa [hs] using hquiet.2
    · exact hoff

/-- Only a drain records in memory, and the entry it drains. -/
theorem mem_live_step {w : World} {a : Action} {s : Surface} {q : Queued}
    (h : q ∈ (step w a).2.live s) :
    ∃ q' ∈ w.channel, q.quiet = q'.quiet ∧ on w.switches s = true := by
  have hmove := move_step w a
  generalize (step w a).1 = w', (step w a).2 = r at hmove h
  cases hmove with
  | drain mac q' rest _ hchannel =>
    dsimp only [under] at h
    split at h
    · next hon =>
      refine ⟨q', by rw [hchannel]; exact List.mem_cons_self .., ?_, hon⟩
      rw [List.mem_singleton.1 h]
    · cases h
  | _ => cases h

/-- Only a write records in the tables, and what the scope of the batch lets through. -/
theorem mem_stored_step {w : World} {a : Action} {s : Surface} {q : Queued}
    (h : q ∈ (step w a).2.stored s) :
    ∃ b scope, w.flushing = some (b, some scope) ∧ q ∈ under scope b s := by
  have hmove := move_step w a
  generalize (step w a).1 = w', (step w a).2 = r at hmove h
  cases hmove with
  | write b scope db hflushing _ => exact ⟨b, scope, hflushing, h⟩
  | _ => cases h

/-- **In memory nothing quiet is recorded**, whatever the switches do. -/
theorem live_quiet {switches : RecordScope} {live : LiveStats} {db : Sqlite.Db} {as : List Action}
    {x : Mealy.Entry World Action Recorded}
    (hx : x ∈ Mealy.trace step (start switches live db) as) {s : Surface} {q : Queued}
    (hq : q ∈ x.output.live s) : q.quiet s = false := by
  have hbefore : QuietUnder x.before.switches x.before.channel :=
    (Mealy.inv_of_mem_trace step (fun w a (_ : True) => quiet_channel_step w a)
      (fun q hq => absurd hq List.not_mem_nil) (fun _ _ => trivial) hx).1
  have hstep : step x.before x.event = (x.after, x.output) := Mealy.step_of_mem_trace step hx
  have hout : x.output = (step x.before x.event).2 := by rw [hstep]
  rw [hout] at hq
  obtain ⟨q', hq', hquiet, hon⟩ := mem_live_step hq
  cases hq'' : q'.quiet s with
  | false => rw [hquiet, hq'']
  | true =>
    rw [hbefore q' hq' s hq''] at hon
    cases hon

/-- What is known along a considerate run: what the writer has in hand is quiet only where
the switch is off now, and a batch with its scope only where that has it off. -/
structure Inv (w : World) : Prop where
  channel : QuietUnder w.switches w.channel
  hand : QuietUnder w.switches w.inHand
  taken : ∀ b scope, w.flushing = some (b, some scope) → QuietUnder scope b

theorem inv_start (switches : RecordScope) (live : LiveStats) (db : Sqlite.Db) :
    Inv (start switches live db) :=
  ⟨fun _ hq => absurd hq List.not_mem_nil, fun _ hq => absurd hq List.not_mem_nil,
    fun _ _ h => nomatch h⟩

/-- A step that leaves the writer alone. -/
theorem Inv.same {w w' : World} (h : Inv w) (hchannel : QuietUnder w'.switches w'.channel)
    (hswitches : w'.switches = w.switches) (hbatch : w'.batch = w.batch)
    (hflushing : w'.flushing = w.flushing) : Inv w' := by
  refine ⟨hchannel, ?_, hflushing ▸ h.taken⟩
  have hhand : w'.inHand = w.inHand := by rw [World.inHand, World.inHand, hbatch, hflushing]
  rw [hswitches, hhand]
  exact h.hand

theorem inv_step (w : World) (a : Action) (hguard : Considerate w a) (h : Inv w) :
    Inv (step w a).1 := by
  have hchannel := quiet_channel_step w a h.channel
  have hbatch : QuietUnder w.switches w.batch := fun q hq =>
    h.hand q (List.mem_append_left _ hq)
  have hmove := move_step w a
  generalize (step w a).1 = w', (step w a).2 = r at hmove hchannel ⊢
  cases hmove with
  | stay _ => exact h
  | count _ _ _ | drop _ _ | queue _ _ | forgetQueries | forgetStats =>
    exact h.same hchannel rfl rfl rfl
  | drain mac q' rest hflushing hq' =>
    have hdrained : QuietUnder w.switches [{ q' with entry := tagDevice mac q'.entry }] := by
      intro q hq
      rw [List.mem_singleton.1 hq]
      exact h.channel q' (by rw [hq']; exact List.mem_cons_self ..)
    refine ⟨hchannel, ?_, fun b scope hb => by simp [hflushing] at hb⟩
    simp only [World.inHand, hflushing, List.append_nil]
    exact hbatch.append hdrained
  | take _ =>
    refine ⟨h.channel, ?_, fun b scope hb => by simp at hb⟩
    simpa [World.inHand] using hbatch
  | adopt b hflushing _ =>
    have hb : QuietUnder w.switches b := fun q hq =>
      h.hand q (List.mem_append_right _ (by rw [hflushing]; exact hq))
    refine ⟨h.channel, by simpa [World.inHand] using hbatch, fun b' scope hb' => ?_⟩
    simp only [Option.some.injEq, Prod.mk.injEq] at hb'
    obtain ⟨rfl, rfl⟩ := hb'
    exact hb
  | discard _ _ _ | lose _ _ _ _ | write _ _ _ _ _ =>
    exact ⟨h.channel, by simpa [World.inHand] using hbatch, fun b' scope hb' => nomatch hb'⟩
  | set s b =>
    refine ⟨hchannel, h.hand.setSwitch ?_, h.taken⟩
    rintro rfl
    exact hguard

/-- **In the tables nothing quiet is recorded** in a run in which no switch is turned on
while the writer has an entry in hand that is quiet there. -/
theorem stored_quiet {switches : RecordScope} {live : LiveStats} {db : Sqlite.Db}
    {as : List Action} (hguard : ∀ x ∈ Mealy.trace step (start switches live db) as,
      Considerate x.before x.event)
    {x : Mealy.Entry World Action Recorded}
    (hx : x ∈ Mealy.trace step (start switches live db) as) {s : Surface} {q : Queued}
    (hq : q ∈ x.output.stored s) : q.quiet s = false := by
  have hinv := (Mealy.inv_of_mem_trace step inv_step (inv_start switches live db) hguard hx).1
  have hstep : step x.before x.event = (x.after, x.output) := Mealy.step_of_mem_trace step hx
  have hout : x.output = (step x.before x.event).2 := by rw [hstep]
  rw [hout] at hq
  obtain ⟨b, scope, hflushing, hunder⟩ := mem_stored_step hq
  exact (hinv.taken b scope hflushing).under hunder

/-! ## The runs -/

/-- **Nothing asked while recording was off is recorded**, in memory in every run, and in the
tables in every run in which no switch is turned on while the writer has in hand an entry
that was emitted and drained with it off.  Each step changes the recent queries, the
aggregates, the log and the rollups by what it puts out and nothing else. -/
theorem recording_quiet (switches : RecordScope) (live : LiveStats) (db : Sqlite.Db)
    (as : List Action) :
    (∀ x ∈ Mealy.trace step (start switches live db) as,
      Truthful x.before x.event x.output x.after ∧
        ∀ s, ∀ q ∈ x.output.live s, q.quiet s = false) ∧
    ((∀ x ∈ Mealy.trace step (start switches live db) as, Considerate x.before x.event) →
      ∀ x ∈ Mealy.trace step (start switches live db) as,
        ∀ s, ∀ q ∈ x.output.stored s, q.quiet s = false) := by
  constructor
  · intro x hx
    refine ⟨?_, fun s q hq => live_quiet hx hq⟩
    have htruth := truthful_step x.before x.event
    rw [Mealy.step_of_mem_trace step hx] at htruth
    exact htruth
  · intro hguard x hx s q hq
    exact stored_quiet hguard hx hq

/-- A query of the house. -/
def asked : QueryEntry :=
  { domain := "private.example".toList, queryType := 1, clientIp := "10.0.0.7".toList, device := []
    status := .upstream, upstream := none, rcode := 0, id := 1, timestamp := ⟨1000, 0⟩
    latencyMs := 3 }

/-- The log stays off: the query is drained and its batch is written. -/
def keptOff : List Action := [.emit asked false, .drain none, .take, .readScope, .write true]

theorem recording_quiet_keptOff :
    (Mealy.run step (start ⟨false, true⟩ .new Sqlite.openStorage) keptOff).db.queries.lookup 1 =
        none ∧
      ∀ x ∈ Mealy.trace step (start ⟨false, true⟩ .new Sqlite.openStorage) keptOff,
        ∀ s, ∀ q ∈ x.output.stored s, q.quiet s = false := by
  refine ⟨by decide +kernel, (recording_quiet ⟨false, true⟩ .new Sqlite.openStorage keptOff).2 ?_⟩
  intro x hx
  have hevent : x.event ∈ keptOff := by
    rw [← Mealy.map_event_trace step (start ⟨false, true⟩ .new Sqlite.openStorage) keptOff]
    exact List.mem_map_of_mem hx
  simp only [keptOff, List.mem_cons, List.not_mem_nil, or_false] at hevent
  rcases hevent with h | h | h | h | h <;> rw [h] <;> trivial

/-- Statistics on and the log off: the query is drained, the log is switched on, the batch is
written. -/
def switchedOn : List Action :=
  [.emit asked false, .drain none, .set .queries true, .take, .readScope, .write true]

/-- The query was asked and drained while the log was off, and it has its row. -/
theorem quiet_row :
    ((Mealy.run step (start ⟨false, true⟩ .new Sqlite.openStorage) switchedOn).db.queries.lookup
        1).map Sqlite.QueryRow.domain = some "private.example".toList ∧
      ((Mealy.trace step (start ⟨false, true⟩ .new Sqlite.openStorage) switchedOn).map fun x =>
        (x.output.stored .queries).map fun q => q.quiet .queries) =
        [[], [], [], [], [], [true]] := by
  decide +kernel

end Ferrite.Stats
