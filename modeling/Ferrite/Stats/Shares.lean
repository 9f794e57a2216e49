import Mathlib.Algebra.Order.BigOperators.Group.List
import Ferrite.Lib.Threads
import Ferrite.Stats.Recording
import Ferrite.Storage.Interchange

/-!
# The blocked share of a device

The dashboard shows of every busy device how many queries it asked and how many of them
were blocked.  The two numbers sit in two counters of `stats/src/live.rs`, each with its own
lock and its own limit of keys: `push_entry` adds to the one and then to the other,
`forget_history` clears the one and then the other, and `get_summary` of `api/src/stats.rs`
takes a list from the one and looks its devices up in the other.  Here each of these is a
thread that goes one access at a time, and any number of them run at once.

* `inv_step` — what a sound step keeps: with the queries on their way to `client_blocked`,
  no device has more blocked queries than queries, nor will a summary on its way pair two
  numbers that say so;
* `blocked_share_within_total` — so no summary of a sound run shows more blocked queries
  than queries;
* `refused_device_over_total` — a device that finds `top_clients` full goes over its total;
* `cleared_device_over_total` — so does one whose query is on its way when the counters are
  cleared.
-/

namespace Ferrite.Stats

open Storage
open Rows

/-! ## Counters -/

namespace TopNCounter

/-- `TopNCounter::get`. -/
def get (c : TopNCounter) (key : Text) : ℕ := (c.counts.lookup key).getD 0

/-- Does `increment` count this key? -/
def Takes (c : TopNCounter) (key : Text) : Prop :=
  (c.counts.lookup key).isSome = true ∨ c.counts.keys.length < c.maxKeys

instance (c : TopNCounter) (key : Text) : Decidable (c.Takes key) :=
  inferInstanceAs (Decidable (_ ∨ _))

/-- `TopNCounter::seed`. -/
def seed (c : TopNCounter) (entries : List (Text × ℕ)) : TopNCounter :=
  entries.foldl (fun c e => { c with counts := c.counts.insert e.1 (c.get e.1 + e.2) }) c

/-- The order in which a hash map or a heap gives what is in it. -/
structure Scan (A : Type) where
  iter : List A → List A
  perm : ∀ xs, (iter xs).Perm xs

/-- As it lies. -/
def Scan.asIs (A : Type) : Scan A := ⟨id, fun _ => List.Perm.refl _⟩

/-- One key offered to the heap of the best `n`, which is the list of its keys with the
weakest first. -/
def offer (n : ℕ) (heap : List (Text × ℕ)) (e : Text × ℕ) : List (Text × ℕ) :=
  let ordered := orderBy fun e : Text × ℕ => (toLex (e.2, e.1) : ℕ ×ₗ Text)
  if heap.length < n then ordered (e :: heap)
  else match heap with
    | [] => []
    | low :: rest => if low.2 < e.2 then ordered (e :: rest) else low :: rest

/-- `TopNCounter::top`, but for the capacity `n + 1` that its heap is made with. -/
def top (c : TopNCounter) (scan : Scan (Text × ℕ)) (n : ℕ) : List (Text × ℕ) :=
  if n = 0 then []
  else
    let heap := (scan.iter (c.counts.entries.map fun e => (e.1, e.2))).foldl (offer n) []
    orderBy (fun e => OrderDual.toDual e.2) (scan.iter heap)

@[simp] theorem get_new (maxKeys : ℕ) (key : Text) : (new maxKeys).get key = 0 := rfl

@[simp] theorem get_clear (c : TopNCounter) (key : Text) : c.clear.get key = 0 := rfl

/-- A key that is counted has one more, and nothing else changes. -/
theorem get_increment (c : TopNCounter) (key key' : Text) :
    (c.increment key).get key' = c.get key' + if key' = key ∧ c.Takes key then 1 else 0 := by
  unfold increment get
  split
  · next n hold =>
    have htakes : c.Takes key := Or.inl (by rw [hold]; rfl)
    rw [Table.lookup_insert_eq]
    by_cases hkey : key' = key
    · subst hkey
      simp [hold, htakes]
    · simp [hkey]
  · next hold =>
    split
    · next hroom =>
      have htakes : c.Takes key := Or.inr hroom
      rw [Table.lookup_insert_eq]
      by_cases hkey : key' = key
      · subst hkey
        simp [hold, htakes]
      · simp [hkey]
    · next hfull =>
      have hrefused : ¬ c.Takes key := by
        rintro (hold' | hroom)
        · rw [hold] at hold'
          cases hold'
        · exact hfull hroom
      simp [hrefused]

theorem get_seed (entries : List (Text × ℕ)) (c : TopNCounter) (key : Text) :
    (c.seed entries).get key =
      c.get key + ((entries.filter fun e => e.1 = key).map Prod.snd).sum := by
  induction entries generalizing c with
  | nil => rfl
  | cons e entries ih =>
    rw [seed, List.foldl_cons]
    refine (ih _).trans ?_
    show ((c.counts.insert e.1 (c.get e.1 + e.2)).lookup key).getD 0 + _ = _
    rw [Table.lookup_insert_eq]
    by_cases hkey : e.1 = key
    · simp [hkey, Nat.add_assoc]
    · have hkey' : ¬ key = e.1 := fun h => hkey h.symm
      simp [hkey, hkey', get]

theorem offer_subset (n : ℕ) (heap : List (Text × ℕ)) (e : Text × ℕ) :
    offer n heap e ⊆ e :: heap := by
  unfold offer
  dsimp only
  split
  · exact (orderBy_perm _ _).subset
  · cases heap with
    | nil => exact List.nil_subset _
    | cons low rest =>
      dsimp only
      split
      · intro x hx
        have hx : x ∈ e :: rest := (orderBy_perm _ _).subset hx
        exact List.cons_subset_cons e (List.subset_cons_self low rest) hx
      · exact List.subset_cons_self e (low :: rest)

/-- What is on the list is counted as the list says. -/
theorem get_of_mem_top {c : TopNCounter} {scan : Scan (Text × ℕ)} {n : ℕ} {e : Text × ℕ}
    (h : e ∈ c.top scan n) : c.get e.1 = e.2 := by
  have hfold : ∀ (xs heap : List (Text × ℕ)), xs.foldl (offer n) heap ⊆ xs ++ heap := by
    intro xs
    induction xs with
    | nil => exact fun heap => List.Subset.refl heap
    | cons x xs ih =>
      intro heap y hy
      rcases List.mem_append.1 (ih _ hy) with hy | hy
      · exact List.mem_cons_of_mem x (List.mem_append_left heap hy)
      · rcases List.mem_cons.1 (offer_subset n heap x hy) with rfl | hy
        · exact List.mem_cons_self
        · exact List.mem_cons_of_mem x (List.mem_append_right xs hy)
  unfold top at h
  split at h
  · cases h
  · have hheap := (scan.perm _).subset ((orderBy_perm _ _).subset h)
    have hscan := hfold _ _ hheap
    rw [List.append_nil] at hscan
    obtain ⟨⟨key, count⟩, hentry, rfl⟩ := List.mem_map.1 ((scan.perm _).subset hscan)
    show (c.counts.lookup key).getD 0 = count
    rw [Table.mem_entries_iff.1 hentry]
    rfl

end TopNCounter

/-! ## The summary -/

/-- What `describe_device` knows of a device. -/
structure DeviceInfo where
  name : Option Text
  ips : List Text
  macs : List Text

/-- A device, its queries and the blocked ones among them. -/
structure DeviceRow where
  device : Text
  total : ℕ
  blocked : ℕ
deriving DecidableEq

/-- `Agg`. -/
structure Agg where
  total : ℕ
  blocked : ℕ
  ips : List Text
  macs : List Text

/-- `TopClientEntry`. -/
structure TopClientEntry where
  name : Text
  total : ℕ
  blocked : ℕ
  ips : List Text
  macs : List Text
deriving DecidableEq

/-- `push_unique`. -/
def pushUnique (values : List Text) (value : Text) : List Text :=
  if value ∈ values then values else values ++ [value]

/-- One turn of the loop of `merge_clients`. -/
def Agg.addRow (describe : Text → DeviceInfo) (agg : Agg) (row : DeviceRow) : Agg where
  total := agg.total + row.total
  blocked := agg.blocked + row.blocked
  ips := (describe row.device).ips.foldl pushUnique agg.ips
  macs := (describe row.device).macs.foldl pushUnique agg.macs

/-- The name a row is shown under. -/
def shownName (describe : Text → DeviceInfo) (row : DeviceRow) : Text :=
  (describe row.device).name.getD row.device

/-- `merge_clients`. -/
def mergeClients (describe : Text → DeviceInfo) (scan : TopNCounter.Scan (Text × Agg))
    (rows : List DeviceRow) (byBlocked : Bool) (limit : ℕ) : List TopClientEntry :=
  let byName := tally (shownName describe) (fun _ => ⟨0, 0, [], []⟩) (Agg.addRow describe) ∅ rows
  let merged := ((scan.iter (byName.entries.map fun e => (e.1, e.2))).filter fun e =>
      !byBlocked || decide (0 < e.2.blocked)).map
    fun e => (⟨e.1, e.2.total, e.2.blocked, e.2.ips, e.2.macs⟩ : TopClientEntry)
  (orderBy (fun e => OrderDual.toDual (if byBlocked then e.blocked else e.total)) merged).take limit

/-- A request for the summary: what the registry says of a device, and the orders in which the
maps of the request are walked. -/
structure Request where
  describe : Text → DeviceInfo
  counts : TopNCounter.Scan (Text × ℕ)
  names : TopNCounter.Scan (Text × Agg)

/-- `TOP_N`. -/
def topN : ℕ := 20

/-- What a summary shows of devices: the rows of `top_clients`, and those of
`client_blocked`. -/
structure Summary where
  request : Request
  clientRows : List DeviceRow
  blockedRows : List DeviceRow

namespace Summary

/-- `top_clients` of the response. -/
def topClients (summary : Summary) : List TopClientEntry :=
  mergeClients summary.request.describe summary.request.names summary.clientRows false topN

/-- `top_blocked_clients` of the response. -/
def topBlockedClients (summary : Summary) : List TopClientEntry :=
  mergeClients summary.request.describe summary.request.names summary.blockedRows true topN

end Summary

/-- No row has more blocked queries than queries. -/
def Within (rows : List DeviceRow) : Prop := ∀ row ∈ rows, row.blocked ≤ row.total

/-- What is merged of rows within their totals stays within them. -/
theorem within_mergeClients {describe : Text → DeviceInfo} {scan : TopNCounter.Scan (Text × Agg)}
    {rows : List DeviceRow} {byBlocked : Bool} {limit : ℕ} (h : Within rows) {e : TopClientEntry}
    (he : e ∈ mergeClients describe scan rows byBlocked limit) : e.blocked ≤ e.total := by
  have hfold : ∀ (rs : List DeviceRow) (agg : Agg), Within rs → agg.blocked ≤ agg.total →
      (rs.foldl (Agg.addRow describe) agg).blocked ≤ (rs.foldl (Agg.addRow describe) agg).total := by
    intro rs
    induction rs with
    | nil => exact fun agg _ hagg => hagg
    | cons r rs ih =>
      intro agg hrs hagg
      refine ih _ (fun row hrow => hrs row (List.mem_cons_of_mem r hrow)) ?_
      exact Nat.add_le_add hagg (hrs r List.mem_cons_self)
  unfold mergeClients at he
  dsimp only at he
  obtain ⟨⟨name, agg⟩, hagg, rfl⟩ := List.mem_map.1 ((orderBy_perm _ _).subset (List.mem_of_mem_take he))
  obtain ⟨⟨name', agg'⟩, hentry, heq⟩ :=
    List.mem_map.1 ((scan.perm _).subset (List.mem_filter.1 hagg).1)
  cases heq
  have hlookup := Table.mem_entries_iff.1 hentry
  rw [lookup_tally, AList.lookup_empty] at hlookup
  split at hlookup
  · cases hlookup
  · obtain rfl := Option.some.inj hlookup
    exact hfold _ _ (fun row hrow => h row (List.mem_filter.1 hrow).1) (Nat.le_refl 0)

/-! ## The threads -/

/-- What the threads share: the statistics, and the summaries that were served.  Nothing
reads the last two: how often `top_clients` has been cleared, and whether `client_blocked` has
been cleared since it was last. -/
structure Shared where
  live : LiveStats
  served : List Summary
  epoch : ℕ
  together : Bool

/-- How far a thread has got; the access it is named after comes next. -/
inductive Place where
  /-- `push_entry`, with the switch of the query log as it was read. -/
  | topDomains (e : QueryEntry) (queries : Bool)
  | topBlocked (e : QueryEntry) (queries : Bool)
  | topClients (e : QueryEntry) (queries : Bool)
  /-- With the epoch in which `top_clients` counted the query, if it did. -/
  | clientBlocked (e : QueryEntry) (queries : Bool) (counted : Option ℕ)
  | timeseries (e : QueryEntry) (queries : Bool)
  | recent (e : QueryEntry) (queries : Bool)
  /-- `reset_all`, which goes on as `forget_history` and `forget_recent`. -/
  | totals
  | clearDomains (all : Bool)
  | clearBlocked (all : Bool)
  | clearClients (all : Bool)
  | clearClientBlocked (all : Bool)
  | clearTimeseries (all : Bool)
  | clearRecent
  /-- `get_summary`, with the devices it has yet to look up and the rows it has. -/
  | busiest (r : Request)
  | blockedOf (r : Request) (left : List (Text × ℕ)) (rows : List DeviceRow)
  | mostBlocked (r : Request) (clientRows : List DeviceRow)
  | totalOf (r : Request) (clientRows : List DeviceRow) (left : List (Text × ℕ))
      (rows : List DeviceRow)

/-- What the threads run. -/
inductive Op where
  | pushEntry (e : QueryEntry) (scope : RecordScope)
  | forgetHistory
  | forgetRecent
  | resetAll
  | getSummary (r : Request)

/-- Where an operation starts. -/
def entry : Op → Place
  | .pushEntry e scope => if scope.stats then .topDomains e scope.queries else .recent e scope.queries
  | .forgetHistory => .clearDomains false
  | .forgetRecent => .clearRecent
  | .resetAll => .totals
  | .getSummary r => .busiest r

namespace Shared

variable (sh : Shared)

/-- The count of a device in `top_clients`. -/
def total (device : Text) : ℕ := sh.live.history.topClients.get device

/-- The count of a device in `client_blocked`. -/
def blocked (device : Text) : ℕ := sh.live.history.clientBlocked.get device

/-- An access to the aggregates. -/
def access (f : History → History) : Shared :=
  { sh with live := { sh.live with history := f sh.live.history } }

end Shared

open Threads

/-- One access of a thread. -/
def next (s : System Shared Place) : Place → Option (Shared × Option Place)
  | .topDomains e queries =>
    some (s.shared.access fun h => { h with topDomains := h.topDomains.increment e.domain },
      some (if e.status = .blocked then .topBlocked e queries else .topClients e queries))
  | .topBlocked e queries =>
    some (s.shared.access fun h => { h with topBlocked := h.topBlocked.increment e.domain },
      some (.topClients e queries))
  | .topClients e queries =>
    let counted := if s.shared.live.history.topClients.Takes e.deviceToken then some s.shared.epoch
      else none
    some (s.shared.access fun h => { h with topClients := h.topClients.increment e.deviceToken },
      some (if e.status = .blocked then .clientBlocked e queries counted else .timeseries e queries))
  | .clientBlocked e queries _ =>
    some (s.shared.access fun h =>
        { h with clientBlocked := h.clientBlocked.increment e.deviceToken },
      some (.timeseries e queries))
  | .timeseries e queries =>
    some (s.shared.access fun h => { h with timeseries := h.timeseries.increment e },
      some (.recent e queries))
  | .recent e queries =>
    some ({ s.shared with live := s.shared.live.pushEntry e ⟨queries, false⟩ }, none)
  | .totals =>
    some ({ s.shared with live := { s.shared.live with
        totalQueries := 0
        totals := fun _ => 0
        totalDropped := 0 } },
      some (.clearDomains true))
  | .clearDomains all =>
    some (s.shared.access fun h => { h with topDomains := h.topDomains.clear },
      some (.clearBlocked all))
  | .clearBlocked all =>
    some (s.shared.access fun h => { h with topBlocked := h.topBlocked.clear },
      some (.clearClients all))
  | .clearClients all =>
    some ({ s.shared.access fun h => { h with topClients := h.topClients.clear } with
        epoch := s.shared.epoch + 1
        together := false },
      some (.clearClientBlocked all))
  | .clearClientBlocked all =>
    some ({ s.shared.access fun h => { h with clientBlocked := h.clientBlocked.clear } with
        together := true },
      some (.clearTimeseries all))
  | .clearTimeseries all =>
    some (s.shared.access fun h => { h with timeseries := ∅ }, if all then some .clearRecent else none)
  | .clearRecent => some ({ s.shared with live := s.shared.live.forgetRecent }, none)
  | .busiest r => some (s.shared, some (.blockedOf r (s.shared.live.history.topClients.top r.counts 50) []))
  | .blockedOf r [] rows => some (s.shared, some (.mostBlocked r rows))
  | .blockedOf r ((device, total) :: left) rows =>
    some (s.shared, some (.blockedOf r left (rows ++ [⟨device, total, s.shared.blocked device⟩])))
  | .mostBlocked r clientRows =>
    some (s.shared,
      some (.totalOf r clientRows (s.shared.live.history.clientBlocked.top r.counts 50) []))
  | .totalOf r clientRows [] rows =>
    some ({ s.shared with served := s.shared.served ++ [⟨r, clientRows, rows⟩] }, none)
  | .totalOf r clientRows ((device, blocked) :: left) rows =>
    some (s.shared,
      some (.totalOf r clientRows left (rows ++ [⟨device, s.shared.total device, blocked⟩])))

/-- The threads of the recorder, the settings and the dashboard. -/
abbrev stepShares := Threads.step entry next

/-- The statistics after startup: `stored` are the devices of the database, `others` is what
the seeds of everything else leave. -/
def seeded (scope : RecordScope) (stored : List ClientStats) (others : LiveStats) : LiveStats :=
  { others with
    history := { others.history with
      topClients := if scope.stats then
          (TopNCounter.new 1000).seed (stored.map fun c => (c.device, c.total))
        else .new 1000
      clientBlocked := if scope.stats then
          (TopNCounter.new 1000).seed (stored.map fun c => (c.device, c.blocked))
        else .new 1000 } }

/-- The server has started and serves nothing yet. -/
def startShares (scope : RecordScope) (stored : List ClientStats) (others : LiveStats) :
    System Shared Place :=
  ⟨⟨seeded scope stored others, [], 0, true⟩, ∅⟩

/-! ## Steps that keep the two counters in step -/

/-- A summary that has yet to look the device up in `client_blocked`. -/
def Place.awaitsBlocked (device : Text) : Place → Bool
  | .blockedOf _ left _ => left.any fun x => x.1 = device
  | _ => false

/-- A summary that has yet to look a device up in `top_clients`. -/
def Place.awaitsTotal : Place → Bool
  | .totalOf _ _ left _ => !left.isEmpty
  | _ => false

/-- The access that comes next is sound:

* no blocked query is counted for a device that a summary has yet to look up;
* `client_blocked` counts a query only if `top_clients` does: it was not full for the device,
  and has not been cleared since;
* `top_clients` is not cleared while a summary has yet to look devices up in it;
* no summary takes a list while only one of the two has been cleared. -/
def SoundAt (s : System Shared Place) : Place → Prop
  | .topClients e _ =>
    e.status = .blocked → s.threads.any (fun _ p => p.awaitsBlocked e.deviceToken) = false
  | .clientBlocked e _ counted =>
    s.shared.live.history.clientBlocked.Takes e.deviceToken → counted = some s.shared.epoch
  | .clearClients _ => s.threads.any (fun _ p => p.awaitsTotal) = false
  | .busiest _ | .mostBlocked _ _ => s.shared.together = true
  | _ => True

/-- A sound step: an operation starts, or a thread makes a sound access. -/
def SoundStep (s : System Shared Place) : Threads.Action Op → Prop
  | .start _ _ => True
  | .run t => ∀ p ∈ s.threads.lookup t, SoundAt s p

instance SoundAt.decidable (s : System Shared Place) : ∀ p, Decidable (SoundAt s p)
  | .topClients _ _ | .clientBlocked _ _ _ => inferInstanceAs (Decidable (_ → _ = _))
  | .clearClients _ | .busiest _ | .mostBlocked _ _ => inferInstanceAs (Decidable (_ = _))
  | .topDomains _ _ | .topBlocked _ _ | .timeseries _ _ | .recent _ _ | .totals | .clearDomains _
  | .clearBlocked _ | .clearClientBlocked _ | .clearTimeseries _ | .clearRecent
  | .blockedOf _ _ _ | .totalOf _ _ _ _ => isTrue trivial

instance SoundStep.decidable (s : System Shared Place) : ∀ a, Decidable (SoundStep s a)
  | .start _ _ => isTrue trivial
  | .run t => inferInstanceAs (Decidable (∀ p ∈ s.threads.lookup t, SoundAt s p))

/-- The thread is on its way to count a query of the device in `client_blocked` that
`top_clients` has counted. -/
def Owes (epoch : ℕ) (device : Text) : Place → Bool
  | .clientBlocked e _ (some n) => decide (n = epoch ∧ e.deviceToken = device)
  | _ => false

/-- How many of them there are. -/
def owed (s : System Shared Place) (device : Text) : ℕ :=
  s.threads.values.countP (Owes s.shared.epoch device)

/-- What a summary on its way has will make rows within their totals: what it has taken from
the one counter is enough for what it will find in the other. -/
def PairsUp (s : System Shared Place) : Place → Prop
  | .blockedOf _ left rows => (∀ x ∈ left, s.shared.blocked x.1 + owed s x.1 ≤ x.2) ∧ Within rows
  | .mostBlocked _ clientRows => Within clientRows
  | .totalOf _ clientRows left rows =>
    Within clientRows ∧ (∀ x ∈ left, x.2 ≤ s.shared.total x.1) ∧ Within rows
  | _ => True

/-- **The invariant of sound runs.** -/
structure InStep (s : System Shared Place) : Prop where
  stamped : ∀ t e queries n,
    s.threads.lookup t = some (.clientBlocked e queries (some n)) → n ≤ s.shared.epoch
  covered : ∀ device,
    (if s.shared.together then s.shared.blocked device else 0) + owed s device ≤
      s.shared.total device
  pairs : ∀ t p, s.threads.lookup t = some p → PairsUp s p
  served : ∀ summary ∈ s.shared.served, Within summary.clientRows ∧ Within summary.blockedRows

/-! ### What a step keeps -/

variable {s : System Shared Place}

/-- What is owed before a step and after it, while the epoch lasts. -/
theorem owed_put {sh : Shared} (hepoch : sh.epoch = s.shared.epoch) (t : ℕ) (p : Option Place)
    (device : Text) :
    owed ⟨sh, put s.threads t p⟩ device +
        (s.threads.lookup t).toList.countP (Owes s.shared.epoch device) =
      owed s device + p.toList.countP (Owes s.shared.epoch device) := by
  unfold owed
  rw [hepoch]
  exact countP_put _ _ _ _

/-- A summary on its way does not mind what moves neither its device nor its number. -/
theorem PairsUp.mono {s' : System Shared Place} {p : Place} (h : PairsUp s p)
    (hblocked : ∀ r left rows, p = .blockedOf r left rows → ∀ x ∈ left,
      s'.shared.blocked x.1 + owed s' x.1 ≤ s.shared.blocked x.1 + owed s x.1)
    (htotal : ∀ r clientRows left rows, p = .totalOf r clientRows left rows → ∀ x ∈ left,
      s.shared.total x.1 ≤ s'.shared.total x.1) : PairsUp s' p := by
  cases p with
  | blockedOf r left rows =>
    exact ⟨fun x hx => (hblocked r left rows rfl x hx).trans (h.1 x hx), h.2⟩
  | totalOf r clientRows left rows =>
    exact ⟨h.1, fun x hx => (h.2.1 x hx).trans (htotal r clientRows left rows rfl x hx), h.2.2⟩
  | mostBlocked r clientRows => exact h
  | _ => trivial

/-- A step that keeps the epoch: it is enough to know what it does to the numbers of each
device, and what the thread that took it now has. -/
theorem InStep.step (h : InStep s) {sh : Shared} {t : ℕ} {p' : Option Place}
    (hepoch : sh.epoch = s.shared.epoch)
    (hstamped : ∀ e queries n, p' = some (.clientBlocked e queries (some n)) → n ≤ sh.epoch)
    (hcovered : ∀ device, (if sh.together then sh.blocked device else 0) +
      owed ⟨sh, put s.threads t p'⟩ device ≤ sh.total device)
    (hothers : ∀ u p, s.threads.lookup u = some p → PairsUp ⟨sh, put s.threads t p'⟩ p)
    (hpairs : ∀ p, p' = some p → PairsUp ⟨sh, put s.threads t p'⟩ p)
    (hserved : ∀ summary ∈ sh.served, Within summary.clientRows ∧ Within summary.blockedRows) :
    InStep ⟨sh, put s.threads t p'⟩ where
  stamped u e queries n hu := by
    rcases lookup_put_iff.1 hu with ⟨-, hp⟩ | ⟨-, hold⟩
    · exact hstamped e queries n hp
    · exact (h.stamped u e queries n hold).trans hepoch.ge
  covered := hcovered
  pairs u p hu := by
    rcases lookup_put_iff.1 hu with ⟨-, hp⟩ | ⟨-, hold⟩
    · exact hpairs p hp
    · exact hothers u p hold
  served := hserved

/-- Only a thread before `client_blocked` owes anything. -/
theorem countP_owes {p : Option Place} (h : ∀ e queries n, p ≠ some (.clientBlocked e queries n))
    (epoch : ℕ) (device : Text) : p.toList.countP (Owes epoch device) = 0 := by
  cases p with
  | none => rfl
  | some p =>
    cases p with
    | clientBlocked e queries n => exact absurd rfl (h e queries n)
    | _ => rfl

/-- And before `client_blocked` it owes its query, if that is counted. -/
theorem countP_owes_clientBlocked (e : QueryEntry) (queries : Bool) (counted : Option ℕ) (epoch : ℕ)
    (device : Text) :
    (some (Place.clientBlocked e queries counted)).toList.countP (Owes epoch device) =
      if counted = some epoch ∧ e.deviceToken = device then 1 else 0 := by
  cases counted with
  | none => rfl
  | some n => by_cases h : n = epoch ∧ e.deviceToken = device <;> simp [Owes, h]

/-- A step that touches neither counter, by a thread that owes nothing before and after. -/
theorem InStep.quiet (h : InStep s) {sh : Shared} {t : ℕ} {p' : Option Place}
    (hclients : sh.live.history.topClients = s.shared.live.history.topClients)
    (hblocked : sh.live.history.clientBlocked = s.shared.live.history.clientBlocked)
    (hepoch : sh.epoch = s.shared.epoch) (htogether : sh.together = s.shared.together)
    (howes : ∀ e queries n, s.threads.lookup t ≠ some (.clientBlocked e queries n))
    (howes' : ∀ e queries n, p' ≠ some (.clientBlocked e queries n))
    (hpairs : ∀ p, p' = some p → PairsUp s p)
    (hserved : ∀ summary ∈ sh.served, Within summary.clientRows ∧ Within summary.blockedRows) :
    InStep ⟨sh, put s.threads t p'⟩ := by
  have htotal : ∀ device, sh.total device = s.shared.total device := fun device => by
    rw [Shared.total, Shared.total, hclients]
  have hcount : ∀ device, sh.blocked device = s.shared.blocked device := fun device => by
    rw [Shared.blocked, Shared.blocked, hblocked]
  have howed : ∀ device, owed ⟨sh, put s.threads t p'⟩ device = owed s device := fun device => by
    have h := owed_put hepoch t p' device
    rw [countP_owes howes, countP_owes howes'] at h
    exact h
  have hkeep : ∀ p, PairsUp s p → PairsUp ⟨sh, put s.threads t p'⟩ p := fun p hp =>
    hp.mono (fun _ _ _ _ x _ => by rw [hcount, howed]) fun _ _ _ _ _ x _ => (htotal x.1).ge
  refine h.step hepoch ?_ ?_ (fun u p hu => hkeep p (h.pairs u p hu))
    (fun p hp => hkeep p (hpairs p hp)) hserved
  · intro e queries n hp
    exact absurd hp (howes' e queries (some n))
  · intro device
    rw [htogether, hcount, htotal, howed]
    exact h.covered device

/-- An operation starts with nothing owed and nothing taken. -/
theorem entry_spec (s : System Shared Place) (op : Op) :
    (∀ e queries n, entry op ≠ .clientBlocked e queries n) ∧ PairsUp s (entry op) := by
  cases op with
  | pushEntry e scope => cases hstats : scope.stats <;> simp [entry, hstats, PairsUp]
  | _ => exact ⟨by simp [entry], trivial⟩

/-- `top_clients` counts a query: a blocked one that is counted is owed from now on. -/
theorem InStep.clients (h : InStep s) {t : ℕ} {e : QueryEntry} {queries : Bool}
    {sh : Shared} {p' : Option Place} (hold : s.threads.lookup t = some (.topClients e queries))
    (hsound : SoundAt s (.topClients e queries))
    (hnext : next s (.topClients e queries) = some (sh, p')) : InStep ⟨sh, put s.threads t p'⟩ := by
  have hnone : ∀ device, (s.threads.lookup t).toList.countP (Owes s.shared.epoch device) = 0 :=
    countP_owes (by simp [hold]) _
  obtain ⟨hsh, hp⟩ := Prod.mk.inj (Option.some.inj hnext)
  have hepoch : sh.epoch = s.shared.epoch := hsh ▸ rfl
  have htogether : sh.together = s.shared.together := hsh ▸ rfl
  have hblocked : ∀ device, sh.blocked device = s.shared.blocked device := fun _ => hsh ▸ rfl
  have htotal : ∀ device, sh.total device = s.shared.total device +
      if device = e.deviceToken ∧ s.shared.live.history.topClients.Takes e.deviceToken then 1 else 0 :=
    fun device => hsh ▸ TopNCounter.get_increment _ _ device
  have hdue : ∀ device, p'.toList.countP (Owes s.shared.epoch device) =
      if e.status = .blocked ∧ s.shared.live.history.topClients.Takes e.deviceToken ∧
        e.deviceToken = device then 1 else 0 := by
    intro device
    rw [← hp]
    by_cases hstatus : e.status = .blocked
    · rw [if_pos hstatus, countP_owes_clientBlocked]
      by_cases htakes : s.shared.live.history.topClients.Takes e.deviceToken <;>
        simp [hstatus, htakes]
    · rw [if_neg hstatus, if_neg fun h => hstatus h.1]
      rfl
  have howed : ∀ device, owed ⟨sh, put s.threads t p'⟩ device = owed s device +
      if e.status = .blocked ∧ s.shared.live.history.topClients.Takes e.deviceToken ∧
        e.deviceToken = device then 1 else 0 := by
    intro device
    have hcount := owed_put hepoch t p' device
    rw [hnone, hdue] at hcount
    exact hcount
  refine h.step hepoch ?_ ?_ ?_ ?_ (hsh ▸ h.served)
  · intro e' queries' n hp'
    rw [← hp] at hp'
    split at hp'
    · split at hp'
      · cases hp'
        exact hepoch.ge
      · cases hp'
    · cases hp'
  · intro device
    have hle : (if e.status = .blocked ∧ s.shared.live.history.topClients.Takes e.deviceToken ∧
          e.deviceToken = device then 1 else 0) ≤
        if device = e.deviceToken ∧ s.shared.live.history.topClients.Takes e.deviceToken then 1
          else 0 := by
      split
      · next hcounted => rw [if_pos ⟨hcounted.2.2.symm, hcounted.2.1⟩]
      · exact Nat.zero_le _
    have hcovered := h.covered device
    rw [htogether, hblocked, htotal, howed]
    omega
  · intro u p hu
    refine (h.pairs u p hu).mono ?_ ?_
    · -- no summary waits for the blocked queries of the device
      rintro r left rows rfl x hx
      show sh.blocked x.1 + _ ≤ _
      rw [hblocked, howed, if_neg]
      · exact le_rfl
      · rintro ⟨hstatus, -, hdevice⟩
        have hwaits : Place.awaitsBlocked e.deviceToken (.blockedOf r left rows) = true :=
          List.any_eq_true.2 ⟨x, hx, decide_eq_true hdevice.symm⟩
        have hany : s.threads.any (fun _ p => p.awaitsBlocked e.deviceToken) = true :=
          Table.any_eq_true_iff.2 ⟨u, _, hu, hwaits⟩
        rw [hsound hstatus] at hany
        cases hany
    · intro r clientRows left rows _ x _
      show _ ≤ sh.total x.1
      rw [htotal]
      exact Nat.le_add_right _ _
  · intro p hp'
    rw [← hp] at hp'
    obtain rfl := Option.some.inj hp'
    split <;> trivial

/-- `client_blocked` counts a query: it was owed. -/
theorem InStep.clientBlocked (h : InStep s) {t : ℕ} {e : QueryEntry} {queries : Bool}
    {counted : Option ℕ} {sh : Shared} {p' : Option Place}
    (hold : s.threads.lookup t = some (.clientBlocked e queries counted))
    (hsound : SoundAt s (.clientBlocked e queries counted))
    (hnext : next s (.clientBlocked e queries counted) = some (sh, p')) :
    InStep ⟨sh, put s.threads t p'⟩ := by
  obtain ⟨hsh, hp⟩ := Prod.mk.inj (Option.some.inj hnext)
  have hepoch : sh.epoch = s.shared.epoch := hsh ▸ rfl
  have htogether : sh.together = s.shared.together := hsh ▸ rfl
  have htotal : ∀ device, sh.total device = s.shared.total device := fun _ => hsh ▸ rfl
  have hblocked : ∀ device, sh.blocked device = s.shared.blocked device +
      if device = e.deviceToken ∧ s.shared.live.history.clientBlocked.Takes e.deviceToken then 1
        else 0 := fun device => hsh ▸ TopNCounter.get_increment _ _ device
  have hgrows : ∀ device,
      sh.blocked device + owed ⟨sh, put s.threads t p'⟩ device ≤
        s.shared.blocked device + owed s device := by
    intro device
    have hcount := owed_put hepoch t p' device
    have hnone : p'.toList.countP (Owes s.shared.epoch device) = 0 :=
      countP_owes (by simp [← hp]) _ _
    rw [hold, countP_owes_clientBlocked, hnone] at hcount
    have hpaid : (if device = e.deviceToken ∧
          s.shared.live.history.clientBlocked.Takes e.deviceToken then 1 else 0) ≤
        if counted = some s.shared.epoch ∧ e.deviceToken = device then 1 else 0 := by
      split
      · next htaken => rw [if_pos ⟨hsound htaken.2, htaken.1.symm⟩]
      · exact Nat.zero_le _
    rw [hblocked]
    omega
  have hless : ∀ device, owed ⟨sh, put s.threads t p'⟩ device ≤ owed s device := by
    intro device
    have hcount := owed_put hepoch t p' device
    have hnone : p'.toList.countP (Owes s.shared.epoch device) = 0 :=
      countP_owes (by simp [← hp]) _ _
    omega
  refine h.step hepoch ?_ ?_ ?_ ?_ (hsh ▸ h.served)
  · intro e' queries' n hp'
    rw [← hp] at hp'
    cases hp'
  · intro device
    have hcovered := h.covered device
    have hgrows := hgrows device
    have hless := hless device
    rw [htogether, htotal]
    cases htogether : s.shared.together with
    | true =>
      rw [htogether] at hcovered
      exact hgrows.trans hcovered
    | false =>
      rw [htogether] at hcovered
      simp only [Bool.false_eq_true, if_false] at hcovered ⊢
      omega
  · intro u p hu
    refine (h.pairs u p hu).mono ?_ ?_
    · intro r left rows _ x _
      exact hgrows x.1
    · intro r clientRows left rows _ x _
      exact (htotal x.1).ge
  · intro p hp'
    rw [← hp] at hp'
    obtain rfl := Option.some.inj hp'
    trivial

/-- `top_clients` is cleared: nothing is owed any more. -/
theorem InStep.clearClients (h : InStep s) {t : ℕ} {all : Bool} {sh : Shared} {p' : Option Place}
    (hsound : SoundAt s (.clearClients all))
    (hnext : next s (.clearClients all) = some (sh, p')) : InStep ⟨sh, put s.threads t p'⟩ := by
  obtain ⟨hsh, hp⟩ := Prod.mk.inj (Option.some.inj hnext)
  have hepoch : sh.epoch = s.shared.epoch + 1 := hsh ▸ rfl
  have htogether : sh.together = false := hsh ▸ rfl
  have hblocked : ∀ device, sh.blocked device = s.shared.blocked device := fun _ => hsh ▸ rfl
  have hstamped : ∀ u e queries n,
      (put s.threads t p').lookup u = some (.clientBlocked e queries (some n)) → n < sh.epoch := by
    intro u e queries n hu
    rcases lookup_put_iff.1 hu with ⟨-, hp'⟩ | ⟨-, hold⟩
    · rw [← hp] at hp'
      cases hp'
    · rw [hepoch]
      exact Nat.lt_succ_of_le (h.stamped u e queries n hold)
  have howed : ∀ device, owed ⟨sh, put s.threads t p'⟩ device = 0 := by
    intro device
    refine List.countP_eq_zero.2 ?_
    intro p hmem howes
    obtain ⟨u, hu⟩ := Table.mem_values_iff.1 hmem
    cases p with
    | clientBlocked e queries counted =>
      cases counted with
      | none => cases howes
      | some n =>
        have hlt := hstamped u e queries n hu
        simp only [Owes, decide_eq_true_eq] at howes
        omega
    | _ => cases howes
  have hpairs : ∀ u p, s.threads.lookup u = some p → PairsUp ⟨sh, put s.threads t p'⟩ p := by
    intro u p hu
    refine (h.pairs u p hu).mono ?_ ?_
    · intro r left rows _ x _
      show sh.blocked x.1 + _ ≤ _
      rw [howed, hblocked]
      omega
    · -- no summary waits for the total of a device
      rintro r clientRows left rows rfl x hx
      have hwaits : Place.awaitsTotal (.totalOf r clientRows left rows) = true := by
        simpa [Place.awaitsTotal] using List.ne_nil_of_mem hx
      have hany : s.threads.any (fun _ p => p.awaitsTotal) = true :=
        Table.any_eq_true_iff.2 ⟨u, _, hu, hwaits⟩
      have hnone : s.threads.any (fun _ p => p.awaitsTotal) = false := hsound
      rw [hnone] at hany
      cases hany
  refine ⟨fun u e queries n hu => (hstamped u e queries n hu).le, ?_, ?_, hsh ▸ h.served⟩
  · intro device
    show (if sh.together then _ else _) + _ ≤ _
    rw [howed, htogether]
    exact Nat.zero_le _
  · intro u p hu
    rcases lookup_put_iff.1 hu with ⟨-, hp'⟩ | ⟨-, hold⟩
    · rw [← hp] at hp'
      obtain rfl := Option.some.inj hp'
      trivial
    · exact hpairs u p hold

/-- `client_blocked` is cleared. -/
theorem InStep.clearClientBlocked (h : InStep s) {t : ℕ} {all : Bool} {sh : Shared}
    {p' : Option Place} (hold : s.threads.lookup t = some (.clearClientBlocked all))
    (hnext : next s (.clearClientBlocked all) = some (sh, p')) :
    InStep ⟨sh, put s.threads t p'⟩ := by
  obtain ⟨hsh, hp⟩ := Prod.mk.inj (Option.some.inj hnext)
  have hepoch : sh.epoch = s.shared.epoch := hsh ▸ rfl
  have htotal : ∀ device, sh.total device = s.shared.total device := fun _ => hsh ▸ rfl
  have hblocked : ∀ device, sh.blocked device = 0 := fun _ => hsh ▸ rfl
  have howed : ∀ device, owed ⟨sh, put s.threads t p'⟩ device = owed s device := by
    intro device
    have hcount := owed_put hepoch t p' device
    rw [countP_owes (by simp [hold]), countP_owes (by simp [← hp])] at hcount
    exact hcount
  refine h.step hepoch ?_ ?_ ?_ ?_ (hsh ▸ h.served)
  · intro e queries n hp'
    rw [← hp] at hp'
    cases hp'
  · intro device
    have hcovered := h.covered device
    rw [hblocked, htotal, howed, ite_self]
    omega
  · intro u p hu
    refine (h.pairs u p hu).mono ?_ ?_
    · intro r left rows _ x _
      show sh.blocked x.1 + _ ≤ _
      rw [hblocked, howed]
      omega
    · intro r clientRows left rows _ x _
      exact (htotal x.1).ge
  · intro p hp'
    rw [← hp] at hp'
    obtain rfl := Option.some.inj hp'
    trivial

/-- While the two are in step, no device is over its total. -/
theorem InStep.le_total (h : InStep s) (htogether : s.shared.together = true) (device : Text) :
    s.shared.blocked device + owed s device ≤ s.shared.total device := by
  have hcovered := h.covered device
  rw [htogether] at hcovered
  exact hcovered

/-- A row more. -/
theorem Within.concat {rows : List DeviceRow} (h : Within rows) {row : DeviceRow}
    (hrow : row.blocked ≤ row.total) : Within (rows ++ [row]) := by
  intro r hr
  rcases List.mem_append.1 hr with hr | hr
  · exact h r hr
  · rw [List.mem_singleton.1 hr]
    exact hrow

/-- A summary takes a list or looks a device up. -/
theorem InStep.summary (h : InStep s) {t : ℕ} {p : Place} {sh : Shared} {p' : Option Place}
    (hold : s.threads.lookup t = some p) (hsound : SoundAt s p) (hnext : next s p = some (sh, p'))
    (hp : (∃ r, p = .busiest r) ∨ (∃ r rows, p = .mostBlocked r rows) ∨
      (∃ r left rows, p = .blockedOf r left rows) ∨
      ∃ r clientRows left rows, p = .totalOf r clientRows left rows) :
    InStep ⟨sh, put s.threads t p'⟩ := by
  have hpairs := h.pairs t p hold
  rcases hp with ⟨r, rfl⟩ | ⟨r, rows, rfl⟩ | ⟨r, left, rows, rfl⟩ | ⟨r, clientRows, left, rows, rfl⟩
  · cases hnext
    refine h.quiet rfl rfl rfl rfl (by simp [hold]) (by simp) ?_ h.served
    rintro p ⟨⟩
    refine ⟨fun x hx => ?_, nofun⟩
    exact (h.le_total hsound x.1).trans_eq (TopNCounter.get_of_mem_top hx)
  · cases hnext
    refine h.quiet rfl rfl rfl rfl (by simp [hold]) (by simp) ?_ h.served
    rintro p ⟨⟩
    refine ⟨hpairs, fun x hx => ?_, nofun⟩
    calc x.2 = s.shared.blocked x.1 := (TopNCounter.get_of_mem_top hx).symm
      _ ≤ s.shared.blocked x.1 + owed s x.1 := Nat.le_add_right _ _
      _ ≤ s.shared.total x.1 := h.le_total hsound x.1
  · cases left with
    | nil =>
      cases hnext
      refine h.quiet rfl rfl rfl rfl (by simp [hold]) (by simp) ?_ h.served
      rintro p ⟨⟩
      exact hpairs.2
    | cons x left =>
      cases hnext
      refine h.quiet rfl rfl rfl rfl (by simp [hold]) (by simp) ?_ h.served
      rintro p ⟨⟩
      refine ⟨fun y hy => hpairs.1 y (List.mem_cons_of_mem x hy), hpairs.2.concat ?_⟩
      exact (Nat.le_add_right _ _).trans (hpairs.1 x List.mem_cons_self)
  · cases left with
    | nil =>
      cases hnext
      refine h.quiet rfl rfl rfl rfl (by simp [hold]) (by simp) (by simp) ?_
      intro summary hsummary
      rcases List.mem_append.1 hsummary with hold' | hnew
      · exact h.served summary hold'
      · rw [List.mem_singleton.1 hnew]
        exact ⟨hpairs.1, hpairs.2.2⟩
    | cons x left =>
      cases hnext
      refine h.quiet rfl rfl rfl rfl (by simp [hold]) (by simp) ?_ h.served
      rintro p ⟨⟩
      refine ⟨hpairs.1, fun y hy => hpairs.2.1 y (List.mem_cons_of_mem x hy), hpairs.2.2.concat ?_⟩
      exact hpairs.2.1 x List.mem_cons_self

theorem inStep_step (s : System Shared Place) (a : Threads.Action Op) (s' : System Shared Place)
    (hsound : SoundStep s a) (h : InStep s) (hstep : stepShares s a = some s') : InStep s' := by
  rcases Threads.step_cases entry next hstep with
    ⟨t, op, rfl, hfree, rfl⟩ | ⟨t, p, sh, p', rfl, hold, hnext, rfl⟩
  · -- an operation starts
    obtain ⟨howes, hpairs⟩ := entry_spec s op
    refine h.quiet rfl rfl rfl rfl (by simp [hfree]) ?_ ?_ h.served
    · intro e queries n hp
      exact howes e queries n (Option.some.inj hp)
    · intro p hp
      exact Option.some.inj hp ▸ hpairs
  · have hsound := hsound p hold
    cases p with
    | topClients e queries => exact h.clients hold hsound hnext
    | clientBlocked e queries counted => exact h.clientBlocked hold hsound hnext
    | clearClients all => exact h.clearClients hsound hnext
    | clearClientBlocked all => exact h.clearClientBlocked hold hnext
    | busiest r => exact h.summary hold hsound hnext (by simp)
    | mostBlocked r clientRows => exact h.summary hold hsound hnext (by simp)
    | blockedOf r left rows => exact h.summary hold hsound hnext (by simp)
    | totalOf r clientRows left rows => exact h.summary hold hsound hnext (by simp)
    | topDomains e queries =>
      cases hnext
      refine h.quiet rfl rfl rfl rfl (by simp [hold]) ?_ ?_ h.served
      · intro e' queries' n
        split <;> simp
      · intro p hp
        obtain rfl := Option.some.inj hp
        split <;> trivial
    | clearTimeseries all =>
      cases hnext
      refine h.quiet rfl rfl rfl rfl (by simp [hold]) ?_ ?_ h.served
      · cases all <;> simp
      · intro p hp
        cases all <;> cases hp
        trivial
    | _ =>
      cases hnext
      refine h.quiet rfl rfl rfl rfl (by simp [hold]) (by simp) ?_ h.served
      intro p hp
      cases hp <;> trivial

/-! ## The start -/

/-- No bucket of a device has more blocked queries than queries. -/
def BucketsWithin (db : Sqlite.Db) : Prop :=
  ∀ k b, db.deviceBuckets.lookup k = some b → b.blocked ≤ b.total

theorem bucketsWithin_step {db : Sqlite.Db} (h : BucketsWithin db) (op : Storage.Op) :
    BucketsWithin (sqliteStep db op).1 := by
  have hadd : ∀ (entries : List QueryEntry) (b : DeviceBucket), b.blocked ≤ b.total →
      (entries.foldl DeviceBucket.add b).blocked ≤ (entries.foldl DeviceBucket.add b).total := by
    intro entries
    induction entries with
    | nil => exact fun b hb => hb
    | cons e entries ih =>
      intro b hb
      refine ih _ ?_
      show (if e.status = .blocked then b.blocked + 1 else b.blocked) ≤ b.total + 1
      split <;> omega
  cases op with
  | writeBatch entries scope =>
    cases hwrite : Sqlite.writeBatch db entries scope with
    | none =>
      simp only [sqliteStep, hwrite]
      exact h
    | some db' =>
      simp only [sqliteStep, hwrite]
      unfold Sqlite.writeBatch at hwrite
      split at hwrite
      · exact Option.some.inj hwrite ▸ h
      · obtain ⟨queries, -, rfl⟩ := Option.map_eq_some_iff.1 hwrite
        dsimp only
        split
        · intro k b hb
          simp only [Sqlite.upsertRollups, foldl_collectRollupAggregates] at hb
          rw [lookup_upsertAll, deviceTally, lookup_tally, AList.lookup_empty] at hb
          split at hb
          · exact h k b hb
          · have hnew := hadd (entries.filter fun e => (e.bucket, e.deviceToken) = k) ⟨0, 0, 0⟩ le_rfl
            cases hold : db.deviceBuckets.lookup k with
            | none =>
              rw [hold] at hb
              obtain rfl := Option.some.inj hb
              exact hnew
            | some old =>
              rw [hold] at hb
              obtain rfl := Option.some.inj hb
              exact Nat.add_le_add (h k old hold) hnew
        · exact h
  | deleteQueriesOlderThan cutoffTs =>
    intro k b hb
    refine h k b ?_
    simp only [sqliteStep, Sqlite.deleteBefore, Table.lookup_retain] at hb
    exact (Option.filter_eq_some_iff.1 hb).1
  | deleteAllQueries =>
    intro k b hb
    cases hb
  | _ => exact h

/-- `top_clients` sums up buckets. -/
theorem within_topClients {db : Sqlite.Db} (h : BucketsWithin db) (fromTs toTs : ℤ) (n : UInt64) :
    ∀ c ∈ Sqlite.topClients db fromTs toTs n, c.blocked ≤ c.total := by
  intro c hc
  have hlimit : ∀ rows : List ClientStats, Sqlite.limitTo n rows ⊆ rows := by
    intro rows
    unfold Sqlite.limitTo
    split
    · exact List.Subset.refl rows
    · exact List.take_subset _ rows
  obtain ⟨r, -, rfl⟩ := mem_groupBy.1 ((orderBy_perm _ _).subset (hlimit _ hc))
  refine List.sum_le_sum fun e he => ?_
  have hentry := (List.mem_filter.1 (List.mem_filter.1 he).1).1
  exact h e.1 e.2 (Table.mem_entries_iff.1 hentry)

/-- The database as its operations have left it. -/
def dbAfter (ops : List Storage.Op) : Sqlite.Db :=
  ops.foldl (fun db op => (sqliteStep db op).1) Sqlite.openStorage

theorem bucketsWithin_dbAfter (ops : List Storage.Op) : BucketsWithin (dbAfter ops) := by
  have hrun : ∀ db, BucketsWithin db →
      BucketsWithin (ops.foldl (fun db op => (sqliteStep db op).1) db) := by
    induction ops with
    | nil => exact fun db h => h
    | cons op ops ih => exact fun db h => ih _ (bucketsWithin_step h op)
  exact hrun _ nofun

theorem inStep_start {scope : RecordScope} {stored : List ClientStats} {others : LiveStats}
    (h : ∀ c ∈ stored, c.blocked ≤ c.total) : InStep (startShares scope stored others) where
  stamped t e queries n ht := nomatch ht
  covered device := by
    have hsum : ∀ cs : List ClientStats, (∀ c ∈ cs, c.blocked ≤ c.total) →
        (((cs.map fun c => (c.device, c.blocked)).filter fun e => e.1 = device).map Prod.snd).sum ≤
          (((cs.map fun c => (c.device, c.total)).filter fun e => e.1 = device).map Prod.snd).sum := by
      intro cs hcs
      rw [List.filter_map, List.filter_map, List.map_map, List.map_map]
      refine List.sum_le_sum fun c hc => hcs c (List.mem_filter.1 hc).1
    show (seeded scope stored others).history.clientBlocked.get device + 0 ≤
      (seeded scope stored others).history.topClients.get device
    unfold seeded
    dsimp only
    split
    · rw [TopNCounter.get_seed, TopNCounter.get_seed]
      exact Nat.add_le_add_left (hsum stored h) 0
    · exact le_rfl
  pairs t p ht := nomatch ht
  served summary hs := nomatch hs

/-! ## The runs -/

/-- **No device is shown with a blocked share above the whole** in a run of sound steps: no
row of a summary has more blocked queries than queries, and no entry that rows are merged
into.  Nor does a device have more of them in the counters, unless a clear has emptied the
one and not yet the other. -/
theorem blocked_share_within_total (previous : List Storage.Op) (now : ℤ) (scope : RecordScope)
    (others : LiveStats) {as : List (Threads.Action Op)} {s : System Shared Place}
    (hsound : Lts.Guarded stepShares SoundStep
      (startShares scope (Sqlite.topClients (dbAfter previous) 0 now 500) others) as)
    (hrun : Lts.exec stepShares
      (startShares scope (Sqlite.topClients (dbAfter previous) 0 now 500) others) as = some s) :
    (∀ summary ∈ s.shared.served,
      (∀ row ∈ summary.clientRows ++ summary.blockedRows, row.blocked ≤ row.total) ∧
        ∀ e ∈ summary.topClients ++ summary.topBlockedClients, e.blocked ≤ e.total) ∧
      (s.shared.together = true → ∀ device,
        s.shared.live.history.clientBlocked.get device ≤
          s.shared.live.history.topClients.get device) := by
  have hstart := @inStep_start scope _ others
    (within_topClients (bucketsWithin_dbAfter previous) 0 now 500)
  have hinv := Lts.inv_of_exec stepShares inStep_step hstart hsound hrun
  constructor
  · intro summary hsummary
    obtain ⟨hclients, hblocked⟩ := hinv.served summary hsummary
    constructor
    · exact List.forall_mem_append.2 ⟨hclients, hblocked⟩
    · exact List.forall_mem_append.2
        ⟨fun e he => within_mergeClients hclients he, fun e he => within_mergeClients hblocked he⟩
  · intro htogether device
    exact (Nat.le_add_right _ _).trans (hinv.le_total htogether device)

/-- A blocked query of a laptop. -/
def blockedQuery : QueryEntry :=
  { domain := "ads.example".toList, queryType := 1, clientIp := "10.0.0.7".toList, device := []
    status := .blocked, upstream := none, rcode := 0, id := 1, timestamp := ⟨1000, 0⟩
    latencyMs := 3 }

/-- Nothing is known of the devices, and maps are walked as they lie. -/
def plainRequest : Request := ⟨fun _ => ⟨none, [], []⟩, .asIs _, .asIs _⟩

/-- A thread that runs alone for so many steps. -/
def alone (t : ℕ) (op : Op) (steps : ℕ) : List (Threads.Action Op) :=
  .start t op :: List.replicate steps (.run t)

/-- A blocked query is in the database, another one is counted, and a summary is served. -/
def household : List (Threads.Action Op) :=
  alone 0 (.pushEntry blockedQuery ⟨true, true⟩) 6 ++ alone 1 (.getSummary plainRequest) 6

/-- The server after a start with the query in its database. -/
def restarted : System Shared Place :=
  startShares ⟨true, true⟩
    (Sqlite.topClients (dbAfter [.writeBatch [blockedQuery] ⟨true, true⟩]) 0 2000 500) .new

theorem blocked_share_within_total_household :
    (Lts.exec stepShares restarted household).map (fun s =>
        s.shared.served.map Summary.topBlockedClients) =
      some [[⟨"10.0.0.7".toList, 2, 2, [], []⟩]] ∧
      ∀ s, Lts.exec stepShares restarted household = some s → ∀ summary ∈ s.shared.served,
        ∀ e ∈ summary.topClients ++ summary.topBlockedClients, e.blocked ≤ e.total := by
  refine ⟨by decide +kernel, fun s hs summary hsummary => ?_⟩
  have hsound : Lts.Guarded stepShares SoundStep restarted household := by decide +kernel
  exact ((blocked_share_within_total [.writeBatch [blockedQuery] ⟨true, true⟩] 2000 ⟨true, true⟩ .new
    hsound hs).1 summary hsummary).2

/-- The query is counted in `top_clients`, both counters are cleared, and then it is counted in
`client_blocked`. -/
def clearedUnderway : List (Threads.Action Op) :=
  alone 0 (.pushEntry blockedQuery ⟨true, true⟩) 3 ++ alone 1 .forgetHistory 5 ++
    List.replicate 3 (.run 0) ++ alone 2 (.getSummary plainRequest) 5

/-- The laptop is shown with a blocked query and none in all. -/
theorem cleared_device_over_total :
    (Lts.exec stepShares (startShares ⟨true, true⟩ [] .new) clearedUnderway).map (fun s =>
        (s.shared.served.map Summary.topBlockedClients, s.shared.together)) =
      some ([[⟨"10.0.0.7".toList, 0, 1, [], []⟩]], true) := by
  decide +kernel

/-- A thread in flight goes one step on. -/
theorem exec_run {s : System Shared Place} {t : ℕ} {p : Place} {sh : Shared} {p' : Option Place}
    (hold : s.threads.lookup t = some p) (hnext : next s p = some (sh, p'))
    (as : List (Threads.Action Op)) :
    Lts.exec stepShares s (.run t :: as) =
      Lts.exec stepShares ⟨sh, put s.threads t p'⟩ as := by
  have hstep : stepShares s (.run t) = some ⟨sh, put s.threads t p'⟩ := by
    simp [Threads.step, hold, hnext]
  rw [Lts.exec, hstep, Option.bind_some]

/-- **A device that `top_clients` is full for** goes over its total with its first blocked
query, if `client_blocked` takes it. -/
theorem refused_device_over_total {s : System Shared Place} {t : ℕ} {e : QueryEntry}
    {queries : Bool} (hfree : s.threads.lookup t = none) (hstatus : e.status = .blocked)
    (hrefused : ¬ s.shared.live.history.topClients.Takes e.deviceToken)
    (htakes : s.shared.live.history.clientBlocked.Takes e.deviceToken) :
    ∃ s', Lts.exec stepShares s (alone t (.pushEntry e ⟨queries, true⟩) 6) = some s' ∧
      s'.shared.total e.deviceToken < s'.shared.blocked e.deviceToken := by
  have hin : ∀ (threads : Table ℕ Place) (p : Place), (put threads t (some p)).lookup t = some p :=
    fun threads p => lookup_put_iff.2 (Or.inl ⟨rfl, rfl⟩)
  have hstart : ∀ as, Lts.exec stepShares s (.start t (.pushEntry e ⟨queries, true⟩) :: as) =
      Lts.exec stepShares ⟨s.shared, put s.threads t (some (.topDomains e queries))⟩ as := by
    intro as
    rw [Lts.exec, stepShares, Threads.step, if_pos hfree]
    rfl
  have hzero : s.shared.total e.deviceToken = 0 := by
    have hnone : s.shared.live.history.topClients.counts.lookup e.deviceToken = none := by
      by_contra hsome
      exact hrefused (Or.inl (Option.isSome_iff_ne_none.2 hsome))
    rw [Shared.total, TopNCounter.get, hnone]
    rfl
  simp only [alone, List.replicate_succ, List.replicate_zero, hstart]
  rw [exec_run (hin _ _) (by rw [next, if_pos hstatus]), exec_run (hin _ _) rfl,
    exec_run (hin _ _) (by rw [next, if_pos hstatus]), exec_run (hin _ _) rfl,
    exec_run (hin _ _) rfl, exec_run (hin _ _) rfl]
  refine ⟨_, rfl, ?_⟩
  show (s.shared.live.history.topClients.increment e.deviceToken).get e.deviceToken <
    (s.shared.live.history.clientBlocked.increment e.deviceToken).get e.deviceToken
  rw [TopNCounter.get_increment, TopNCounter.get_increment, if_neg fun h => hrefused h.2,
    if_pos ⟨rfl, htakes⟩]
  exact Nat.lt_succ_of_le (hzero.trans_le (Nat.zero_le _))

end Ferrite.Stats
