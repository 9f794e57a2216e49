import Ferrite.Api.CustomRecords
import Ferrite.Dns.Accounting
import Ferrite.Lib.Table

/-!
# Copies of custom records in the cache

An answer made from a custom record is put into the DNS cache under the name and type
that was asked for, so a deleted record may live on there.  `delete_record` evicts what
is cached for the record's own domain.  A query looks the record up and stores its
answer in two steps, and a delete removes the record and evicts in two steps; this
module runs any number of both in any order.

Records are numbered as they come, and a copy carries the number of its record.  The
numbers, and what depends on them (`history`, `origin`, `gone`), are there for the
statements only; the program has none.

* `clear_evict` — an eviction that finds no query with an answer of the deleted records
  in hand, and no copy stored under another domain, leaves none behind;
* `deleted_record_not_served` — over any run whose evictions all do, no record of a
  domain whose delete has returned answers a query again.
-/

namespace Ferrite.Api

open Dns

/-- A record and its number. -/
structure Numbered where
  number : ℕ
  record : CustomRecord
deriving DecidableEq, Repr

/-- A query between its lookup and its insert. -/
structure Held where
  name : Text
  qtype : UInt16
  dnssec : Bool
  response : DnsResponse
  source : Option ℕ
deriving DecidableEq, Repr

/-- A delete between its removal and its eviction: the domain, and the numbers of the
records there have been for it. -/
structure Deleting where
  domain : Text
  numbers : List ℕ
deriving DecidableEq, Repr

/-- What queries and calls of the panel share. -/
structure Serving where
  records : List Numbered
  builtin : List CustomRecord
  leases : List CustomRecord
  cache : DnsCache
  held : List Held
  deleting : List Deleting
  /-- Every record there has been. -/
  history : List Numbered
  /-- The record the last answer stored under a cache key is from. -/
  origin : Table Text ℕ
  /-- The records of the domains whose delete has returned. -/
  gone : List ℕ
  next : ℕ

/-- One atomic step. -/
inductive ServingAct
  /-- Step 1 of a query: the lookup. -/
  | lookup (raw : Bytes) (name : Text) (qtype : UInt16) (dnssec : Bool)
  /-- Step 1 of a query: its answer goes into the cache. -/
  | store (query : ℕ) (now : ℕ)
  /-- `add_record`, of which the engine. -/
  | add (cfg : CustomRecordConfig)
  /-- `delete_record`: the removal from the engine. -/
  | remove (domain : Text)
  /-- `delete_record`: the eviction, after which it returns. -/
  | evict (delete : ℕ)
  /-- Anything else that is done to the cache, an upstream answer stored among it. -/
  | cacheOp (op : CacheOp)

/-- `find_record`, with the number of the record. -/
def findNumbered (records : List Numbered) (name : Text) (wantType : UInt16) : Option Numbered :=
  match records.find? fun r => r.record.nameMatch name &&
    (r.record.recordType == wantType || wantType == typeAny) with
  | some exact => some exact
  | none =>
    if wantType ≠ Wire.typeCname then
      records.find? fun r => r.record.nameMatch name && r.record.recordType == Wire.typeCname
    else none

namespace Serving

/-- The records as `lookup` sees them. -/
def customRecords (s : Serving) : CustomRecords :=
  ⟨s.records.map Numbered.record, s.builtin, s.leases⟩

/-- The number of the operator's record a lookup answers from. -/
def recordSource (s : Serving) (name : Text) (qtype : UInt16) : Option ℕ :=
  (findNumbered s.records name qtype).map Numbered.number

/-- The number of the record a cache hit, fresh or stale, has its answer from. -/
def cacheSource (s : Serving) (name : Text) (qtype : UInt16) (dnssec : Bool) (now : ℕ) : Option ℕ :=
  if (s.cache.getWithRemaining name qtype dnssec now).isSome ||
      (s.cache.getStale name qtype dnssec now).isSome then
    s.origin.lookup (DnsCache.cacheKey name qtype dnssec)
  else none

/-- Note where the answer under a key is from. -/
def noteOrigin (t : Table Text ℕ) (key : Text) : Option ℕ → Table Text ℕ
  | some number => t.insert key number
  | none => t.erase key

/-- A start: the records of the configuration and an empty cache. -/
def start (records builtin leases : List CustomRecord) (cache : DnsCache) : Serving where
  records := records.mapIdx fun i r => ⟨i, r⟩
  builtin := builtin
  leases := leases
  cache := cache.clear
  held := []
  deleting := []
  history := records.mapIdx fun i r => ⟨i, r⟩
  origin := ∅
  gone := []
  next := records.length

variable (codec : Codec) (toUppercase : Text → Text)

def step (s : Serving) : ServingAct → Option Serving
  | .lookup raw name qtype dnssec =>
    match s.customRecords.lookup codec raw name qtype with
    | some response =>
      some { s with held := s.held ++ [⟨name, qtype, dnssec, response, s.recordSource name qtype⟩] }
    -- the query goes on to the other steps
    | none => some s
  | .store i now =>
    match s.held[i]? with
    | some h => some { s with
        cache := s.cache.insert h.name h.qtype h.dnssec h.response now
        origin := noteOrigin s.origin (DnsCache.cacheKey h.name h.qtype h.dnssec) h.source
        held := s.held.eraseIdx i }
    | none => none
  | .add cfg =>
    match parseRecord codec toUppercase (RecordState.entered cfg) with
    | .ok record => some { s with
        records := (s.records.filter fun r => !r.record.sameKey record) ++ [⟨s.next, record⟩]
        history := s.history ++ [⟨s.next, record⟩]
        next := s.next + 1 }
    | .error _ => some s
  | .remove domain =>
    let domain := Blocklist.normalise domain
    if (removeFrom (s.records.map Numbered.record) domain).2 then
      let key := CustomRecords.normalise domain
      some { s with
        records := s.records.filter fun r => r.record.domain != key
        deleting := s.deleting ++ [⟨domain,
          (s.history.filter fun r => r.record.domain == key).map Numbered.number⟩] }
    else some s
  | .evict i =>
    match s.deleting[i]? with
    | some d => some { s with
        cache := s.cache.evictDomain d.domain
        gone := s.gone ++ d.numbers
        deleting := s.deleting.eraseIdx i }
    | none => none
  | .cacheOp op =>
    match op with
    | .restore .. => none
    | .insert name qtype dnssec response now => some { s with
        cache := s.cache.insert name qtype dnssec response now
        origin := noteOrigin s.origin (DnsCache.cacheKey name qtype dnssec) none }
    | op => some { s with cache := s.cache.apply op }

-- the equations of `step` are made here, once, and not by each of the proofs below
section
attribute [local simp] step
end

/-- What an eviction for a delete finds: no query has an answer of the deleted records in
hand, and what is cached of them is cached under the domain itself. -/
def NoCopyElsewhere (s : Serving) : ServingAct → Prop
  | .evict i => ∀ d ∈ s.deleting[i]?,
    (∀ h ∈ s.held, ∀ number ∈ h.source, number ∉ d.numbers) ∧
      ∀ e ∈ s.cache.entries, ∀ number ∈ s.origin.lookup e.1, number ∈ d.numbers →
        (d.domain.toAsciiLowercase ++ ['/']).isPrefixOf e.1 = true
  | _ => True

instance (s : Serving) (a : ServingAct) : Decidable (NoCopyElsewhere s a) := by
  unfold NoCopyElsewhere
  split <;> infer_instance

variable {codec toUppercase} {s s' : Serving}

/-! ## Where a number comes from -/

theorem mem_of_findNumbered {records : List Numbered} {name : Text} {qtype : UInt16} {r : Numbered}
    (h : findNumbered records name qtype = some r) :
    r ∈ records ∧ r.record.nameMatch name = true := by
  unfold findNumbered at h
  split at h
  · rename_i hfind
    cases h
    have htest := List.find?_some hfind
    rw [Bool.and_eq_true] at htest
    exact ⟨List.mem_of_find?_eq_some hfind, htest.1⟩
  · split at h
    · have htest := List.find?_some h
      rw [Bool.and_eq_true] at htest
      exact ⟨List.mem_of_find?_eq_some h, htest.1⟩
    · cases h

/-- The numbers do not change what is found. -/
theorem map_findNumbered (records : List Numbered) (name : Text) (qtype : UInt16) :
    (findNumbered records name qtype).map Numbered.record =
      findRecord (records.map Numbered.record) name qtype := by
  unfold findNumbered findRecord
  simp only [List.find?_map, Function.comp_def]
  cases records.find? fun r => r.record.nameMatch name &&
      (r.record.recordType == qtype || qtype == typeAny) with
  | some r => rfl
  | none =>
    simp only [Option.map_none]
    split <;> rfl

theorem mem_of_recordSource {name : Text} {qtype : UInt16} {number : ℕ}
    (h : s.recordSource name qtype = some number) : ∃ r ∈ s.records, r.number = number := by
  obtain ⟨r, hr, rfl⟩ := Option.map_eq_some_iff.1 h
  exact ⟨r, (mem_of_findNumbered hr).1, rfl⟩

theorem lookup_noteOrigin (t : Table Text ℕ) (key : Text) (source : Option ℕ) (key' : Text) :
    (noteOrigin t key source).lookup key' = if key' = key then source else t.lookup key' := by
  cases source with
  | none => exact Table.lookup_erase_eq t key key'
  | some number => exact Table.lookup_insert_eq t key number key'

/-- A copy of a record that is not a wildcard is stored under the record's domain. -/
theorem exact_copy_under_domain {r : CustomRecord} {domain name : Text} {qtype : UInt16}
    {dnssec : Bool} (hexact : r.isWildcard = false) (hname : r.nameMatch name = true)
    (hdomain : domain.toAsciiLowercase = r.domain.toAsciiLowercase) :
    (domain.toAsciiLowercase ++ ['/']).isPrefixOf (DnsCache.cacheKey name qtype dnssec) = true := by
  simp only [CustomRecord.nameMatch, hexact, Bool.false_eq_true, if_false, beq_iff_eq] at hname
  rw [hdomain, hname, List.isPrefixOf_iff_prefix, DnsCache.cacheKey, List.append_assoc,
    List.cons_append]
  exact ⟨_, by rw [List.append_assoc]; rfl⟩

/-! ## The invariant -/

/-- No record of a domain whose delete has returned runs, is in a query's hand or is in
the cache. -/
structure Clear (s : Serving) : Prop where
  known : ∀ r ∈ s.records, r ∈ s.history
  unique : (s.history.map Numbered.number).Nodup
  below : ∀ r ∈ s.history, r.number < s.next
  deletingBelow : ∀ d ∈ s.deleting, ∀ n ∈ d.numbers, n < s.next
  goneBelow : ∀ n ∈ s.gone, n < s.next
  notDeleting : ∀ r ∈ s.records, ∀ d ∈ s.deleting, r.number ∉ d.numbers
  running : ∀ r ∈ s.records, r.number ∉ s.gone
  inHand : ∀ h ∈ s.held, ∀ n ∈ h.source, n ∉ s.gone
  cached : ∀ e ∈ s.cache.entries, ∀ n ∈ s.origin.lookup e.1, n ∉ s.gone

theorem clear_start (records builtin leases : List CustomRecord) (cache : DnsCache) :
    Clear (start records builtin leases cache) where
  known _ h := h
  unique := by
    have hnumbers : (records.mapIdx fun i r => (⟨i, r⟩ : Numbered)).map Numbered.number =
        List.range records.length := by
      refine List.ext_getElem (by simp) fun i h h' => ?_
      simp
    exact hnumbers ▸ List.nodup_range
  below r hr := by
    obtain ⟨i, hi, rfl⟩ := List.mem_mapIdx.1 hr
    exact hi
  deletingBelow := nofun
  goneBelow := nofun
  notDeleting _ _ := nofun
  running _ _ := List.not_mem_nil
  inHand := nofun
  cached := nofun

theorem clear_lookup (h : Clear s) {raw : Bytes} {name : Text} {qtype : UInt16} {dnssec : Bool}
    (hstep : step codec toUppercase s (.lookup raw name qtype dnssec) = some s') : Clear s' := by
  simp only [step] at hstep
  split at hstep
  · cases hstep
    refine { h with inHand := fun held hheld n hn => ?_ }
    rcases List.mem_append.1 hheld with hheld | hheld
    · exact h.inHand held hheld n hn
    · rw [List.mem_singleton.1 hheld] at hn
      obtain ⟨r, hr, rfl⟩ := mem_of_recordSource hn
      exact h.running r hr
  · cases hstep
    exact h

/-- An answer that is stored is from a record that is not gone, or from none. -/
theorem cached_insert (h : Clear s) {name : Text} {qtype : UInt16} {dnssec : Bool}
    {response : DnsResponse} {now : ℕ} {source : Option ℕ} (hsource : ∀ n ∈ source, n ∉ s.gone) :
    ∀ e ∈ (s.cache.insert name qtype dnssec response now).entries,
      ∀ n ∈ (noteOrigin s.origin (DnsCache.cacheKey name qtype dnssec) source).lookup e.1,
        n ∉ s.gone := by
  intro e he n hn
  rw [lookup_noteOrigin] at hn
  split at hn
  · exact hsource n hn
  · rename_i hkey
    rcases Inner.mem_of_mem_put he with rfl | he
    · exact absurd rfl hkey
    · exact h.cached e he n hn

theorem clear_store (h : Clear s) {i now : ℕ}
    (hstep : step codec toUppercase s (.store i now) = some s') : Clear s' := by
  simp only [step] at hstep
  split at hstep
  · rename_i held hheld
    cases hstep
    refine { h with inHand := fun x hx => ?_, cached := ?_ }
    · exact h.inHand x ((List.eraseIdx_sublist ..).subset hx)
    · exact cached_insert h (h.inHand held (List.mem_of_getElem? hheld))
  · cases hstep

theorem clear_add (h : Clear s) {cfg : CustomRecordConfig}
    (hstep : step codec toUppercase s (.add cfg) = some s') : Clear s' := by
  simp only [step] at hstep
  split at hstep
  · rename_i record hread
    cases hstep
    have hmem : ∀ r ∈ (s.records.filter fun r => !r.record.sameKey record) ++ [⟨s.next, record⟩],
        r ∈ s.records ∨ r = ⟨s.next, record⟩ := by
      intro r hr
      rcases List.mem_append.1 hr with hr | hr
      · exact Or.inl (List.mem_of_mem_filter hr)
      · exact Or.inr (List.mem_singleton.1 hr)
    exact {
      known := fun r hr => by
        rcases hmem r hr with hr | rfl
        · exact List.mem_append_left _ (h.known r hr)
        · exact List.mem_append_right _ (List.mem_singleton_self _)
      unique := by
        rw [List.map_append, List.map_singleton]
        refine List.nodup_append_comm.1 (List.nodup_cons.2 ⟨fun hnext => ?_, h.unique⟩)
        obtain ⟨r, hr, hnumber⟩ := List.mem_map.1 hnext
        exact Nat.ne_of_lt (h.below r hr) hnumber
      below := fun r hr => by
        rcases List.mem_append.1 hr with hr | hr
        · exact Nat.lt_succ_of_lt (h.below r hr)
        · rw [List.mem_singleton.1 hr]
          exact Nat.lt_succ_self _
      deletingBelow := fun d hd n hn => Nat.lt_succ_of_lt (h.deletingBelow d hd n hn)
      goneBelow := fun n hn => Nat.lt_succ_of_lt (h.goneBelow n hn)
      notDeleting := fun r hr d hd => by
        rcases hmem r hr with hr | rfl
        · exact h.notDeleting r hr d hd
        · exact fun hn => Nat.lt_irrefl _ (h.deletingBelow d hd _ hn)
      running := fun r hr => by
        rcases hmem r hr with hr | rfl
        · exact h.running r hr
        · exact fun hn => Nat.lt_irrefl _ (h.goneBelow _ hn)
      inHand := h.inHand
      cached := h.cached }
  · cases hstep
    exact h

theorem clear_remove (h : Clear s) {domain : Text}
    (hstep : step codec toUppercase s (.remove domain) = some s') : Clear s' := by
  simp only [step] at hstep
  split at hstep
  · cases hstep
    refine { h with
      known := fun r hr => h.known r (List.mem_of_mem_filter hr)
      running := fun r hr => h.running r (List.mem_of_mem_filter hr)
      deletingBelow := fun d hd n hn => ?_
      notDeleting := fun r hr d hd => ?_ }
    · rcases List.mem_append.1 hd with hd | hd
      · exact h.deletingBelow d hd n hn
      · rw [List.mem_singleton.1 hd] at hn
        obtain ⟨r, hr, rfl⟩ := List.mem_map.1 hn
        exact h.below r (List.mem_of_mem_filter hr)
    · obtain ⟨hr, hdomain⟩ := List.mem_filter.1 hr
      rcases List.mem_append.1 hd with hd | hd
      · exact h.notDeleting r hr d hd
      · -- a record that stays has another domain, and its number is its own
        intro hn
        rw [List.mem_singleton.1 hd] at hn
        obtain ⟨r', hr', hnumber⟩ := List.mem_map.1 hn
        obtain ⟨hr', hdomain'⟩ := List.mem_filter.1 hr'
        have hsame := List.inj_on_of_nodup_map h.unique hr' (h.known r hr) hnumber
        rw [hsame, beq_iff_eq] at hdomain'
        exact absurd hdomain' (by simpa using hdomain)
  · cases hstep
    exact h

/-- **An eviction that finds no copy elsewhere leaves none.** -/
theorem clear_evict (h : Clear s) {i : ℕ} (hguard : NoCopyElsewhere s (.evict i))
    (hstep : step codec toUppercase s (.evict i) = some s') : Clear s' := by
  simp only [step] at hstep
  split at hstep
  · rename_i d hd
    cases hstep
    obtain ⟨hheld, hcached⟩ := hguard d hd
    have hdmem := List.mem_of_getElem? hd
    have hrest : ∀ d' ∈ s.deleting.eraseIdx i, d' ∈ s.deleting := fun d' hd' =>
      (List.eraseIdx_sublist ..).subset hd'
    have hgone : ∀ {n}, n ∈ s.gone ++ d.numbers ↔ n ∈ s.gone ∨ n ∈ d.numbers := List.mem_append
    refine { h with
      deletingBelow := fun d' hd' => h.deletingBelow d' (hrest d' hd')
      goneBelow := fun n hn => (hgone.1 hn).elim (h.goneBelow n) (h.deletingBelow d hdmem n)
      notDeleting := fun r hr d' hd' => h.notDeleting r hr d' (hrest d' hd')
      running := fun r hr hn =>
        (hgone.1 hn).elim (h.running r hr) (h.notDeleting r hr d hdmem)
      inHand := fun x hx n hn hgone' =>
        (hgone.1 hgone').elim (h.inHand x hx n hn) (hheld x hx n hn)
      cached := fun e he n hn hgone' => ?_ }
    obtain ⟨he, hother⟩ := DnsCache.mem_evictDomain he
    rcases hgone.1 hgone' with hn' | hn'
    · exact h.cached e he n hn hn'
    · rw [hcached e he n hn hn'] at hother
      cases hother
  · cases hstep

theorem clear_cacheOp (h : Clear s) {op : CacheOp}
    (hstep : step codec toUppercase s (.cacheOp op) = some s') : Clear s' := by
  have hkeep (hputs : ∀ bytes, ¬ op.Puts bytes) : Clear { s with cache := s.cache.apply op } :=
    { h with cached := fun e he =>
        h.cached e ((DnsCache.mem_of_mem_apply he).resolve_right (hputs _)) }
  cases op with
  | insert name qtype dnssec response now =>
    cases hstep
    exact { h with cached := cached_insert h nofun }
  | restore rows nowInstant nowUnix => cases hstep
  | evict | evictDomain | forgetName | evictExpired | clear | resize | setTtlBounds |
    setStaleWindow =>
    cases hstep
    exact hkeep fun _ => id

theorem clear_step {a : ServingAct} (hguard : NoCopyElsewhere s a) (h : Clear s)
    (hstep : step codec toUppercase s a = some s') : Clear s' := by
  cases a with
  | lookup raw name qtype dnssec => exact clear_lookup h hstep
  | store i now => exact clear_store h hstep
  | add cfg => exact clear_add h hstep
  | remove domain => exact clear_remove h hstep
  | evict i => exact clear_evict h hguard hstep
  | cacheOp op => exact clear_cacheOp h hstep

theorem notMem_gone_of_cacheSource (h : Clear s) {name : Text} {qtype : UInt16} {dnssec : Bool}
    {now number : ℕ} (hsource : s.cacheSource name qtype dnssec now = some number) :
    number ∉ s.gone := by
  unfold cacheSource at hsource
  split at hsource
  · rename_i hhit
    obtain ⟨e, he⟩ : ∃ e, s.cache.inner.lru.peek (DnsCache.cacheKey name qtype dnssec) = some e := by
      cases hpeek : s.cache.inner.lru.peek (DnsCache.cacheKey name qtype dnssec) with
      | some e => exact ⟨e, rfl⟩
      | none => simp [DnsCache.getWithRemaining, DnsCache.getStale, hpeek] at hhit
    exact h.cached (_, e) (Lru.peek_eq_some_iff.1 he) number hsource
  · cases hsource

end Serving

/-- Over every run of queries and calls, from any records, in which each eviction finds
no copy of the deleted records elsewhere: no record of a domain whose delete has returned
answers a query, for any name and type, from the records or from the cache. -/
theorem deleted_record_not_served (codec : Codec) (toUppercase : Text → Text)
    (records builtin leases : List CustomRecord) (cache : DnsCache) (acts : List ServingAct)
    {s : Serving}
    (hrun : Lts.exec (Serving.step codec toUppercase) (.start records builtin leases cache) acts =
      some s)
    (hguard : Lts.Guarded (Serving.step codec toUppercase) Serving.NoCopyElsewhere
      (.start records builtin leases cache) acts) :
    (∀ name qtype number, s.recordSource name qtype = some number → number ∉ s.gone) ∧
      ∀ name qtype dnssec now number, s.cacheSource name qtype dnssec now = some number →
        number ∉ s.gone := by
  have h : s.Clear := Lts.inv_of_exec (Serving.step codec toUppercase)
    (fun _ _ _ hg h hs => Serving.clear_step hg h hs)
    (Serving.clear_start records builtin leases cache) hguard hrun
  refine ⟨fun name qtype number hsource => ?_, fun name qtype dnssec now number hsource => ?_⟩
  · obtain ⟨r, hr, rfl⟩ := Serving.mem_of_recordSource hsource
    exact h.running r hr
  · exact Serving.notMem_gone_of_cacheSource h hsource

namespace HomeLan

/-- The labels of `x.home.lan`. -/
def labels : Dns.Name := [[0x78], [0x68, 0x6F, 0x6D, 0x65], [0x6C, 0x61, 0x6E]]

/-- A query for the address of `x.home.lan`. -/
def query : Bytes :=
  [0, 1, 1, 0, 0, 1, 0, 0, 0, 0, 0, 0, 1, 0x78, 4, 0x68, 0x6F, 0x6D, 0x65, 3, 0x6C, 0x61, 0x6E, 0,
    0, 1, 0, 1]

/-- Its answer, `10.0.0.5` for five minutes. -/
def answer : Bytes :=
  [0, 1, 0x85, 0x80, 0, 1, 0, 1, 0, 0, 0, 0, 1, 0x78, 4, 0x68, 0x6F, 0x6D, 0x65, 3, 0x6C, 0x61,
    0x6E, 0, 0, 1, 0, 1, 0xC0, 0x0C, 0, 1, 0, 1, 0, 0, 1, 0x2C, 0, 4, 10, 0, 0, 5]

def queryMessage : Message :=
  { Message.new 1 false with
    metadata := { (Message.new 1 false).metadata with recursionDesired := true }
    queries := [Query.query labels 1] }

def answerMessage : Message :=
  { replyTo queryMessage true noError with
    answers := [Record.fromRdata labels 300 (.a ⟨10, 0, 0, 5⟩)] }

/-- A codec that knows the two messages and the name. -/
def codec : Codec :=
  { Codec.ofRows [(query, queryMessage), (answer, answerMessage)] with
    nameFromStr := fun t => if t = "x.home.lan.".toList then some labels else none }

/-- The record as it is written, for the name or for all names of the zone. -/
def written (domain : String) : CustomRecordConfig :=
  ⟨domain.toList, "A".toList, "10.0.0.5".toList, 300⟩

/-- A box with that record. -/
def box (domain : String) : Serving :=
  .start (loadFromConfig codec id [written domain]) [] [] (.new 4 0 0 0)

/-- The name is asked for and the answer stored, and then the record is deleted. -/
def askedAndDeleted (domain : String) : List ServingAct :=
  [.lookup query "x.home.lan".toList 1 false, .store 0 0, .remove domain.toList, .evict 0]

end HomeLan

open HomeLan in
/-- A record for the name itself is gone after its delete; added again, it is another. -/
theorem deleted_record_not_served_exact :
    ∃ s, Lts.exec (Serving.step codec id) (box "x.home.lan")
        (askedAndDeleted "x.home.lan" ++ [.add (written "x.home.lan")]) = some s ∧
      0 ∈ s.gone ∧ s.recordSource "x.home.lan".toList 1 = some 1 ∧ 1 ∉ s.gone := by
  refine ⟨_, rfl, by decide, by decide, ?_⟩
  exact (deleted_record_not_served codec id (loadFromConfig codec id [written "x.home.lan"]) [] []
    (.new 4 0 0 0) (askedAndDeleted "x.home.lan" ++ [.add (written "x.home.lan")]) rfl
    (by decide)).1 "x.home.lan".toList 1 1 (by decide)

open HomeLan in
/-- A wildcard record answers from the cache after its delete has returned. -/
theorem deleted_wildcard_still_served :
    ∃ s, Lts.exec (Serving.step codec id) (box "*.home.lan") (askedAndDeleted "*.home.lan") =
        some s ∧
      s.records = [] ∧ s.gone = [0] ∧
      s.cacheSource "x.home.lan".toList 1 false Dns.nanos = some 0 ∧
      s.cache.getWithRemaining "x.home.lan".toList 1 false Dns.nanos =
        some (⟨answer, 300⟩, 299) :=
  ⟨_, rfl, by decide, by decide, by decide, by decide⟩

end Ferrite.Api
