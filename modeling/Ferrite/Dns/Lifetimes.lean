import Mathlib.Data.List.Forall2
import Ferrite.Dns.Accounting
import Ferrite.Dns.Ttl

/-!
# How long a cached record lives

An answer is kept for as long as its shortest answer record (or, without one, its SOA)
allows, and a hit sets the TTL of every record to what is left of that.  A record of
another section may have had less to live than the entry it is in, and then a hit
lengthens its life.

* `cacheTtl_spec` — what lifetime an answer is given;
* `resolveUpstream_cache` — what `resolve_upstream` puts into the cache, and where;
* `ttls_patchCached` — a hit gives every record the same TTL;
* `lifetimes_kept_iff` — no hit lengthens a record's life if and only if no record has
  less to live than the entry.
-/

namespace Ferrite.Dns

open Bytes Wire

variable {P : Type}

/-! ## The records of a message -/

/-- The TTLs of the records that are not OPT, in wire order. -/
def ttls (msg : Bytes) : List UInt32 :=
  ((recordsOf msg).filter fun r => r.rtype ≠ typeOpt).map fun r => msg.readU32 r.ttlOff

/-- A record a negative answer's lifetime can be read from. -/
def isNegativeSoa (r : RecordRef) : Bool :=
  r.inSection = .authority && r.rtype = typeSoa && soaMinRdata ≤ r.rdataLen

/-! ## The lifetime of an answer -/

section

variable {msg : Bytes} {rs : List RecordRef} {acc : Option UInt32 × Option UInt32}

theorem cacheScan_answer {r : RecordRef} (h : r.inSection = .answer) :
    cacheScan msg acc r =
      (some (acc.1.elim (msg.readU32 r.ttlOff) fun m => min m (msg.readU32 r.ttlOff)), acc.2) := by
  simp [cacheScan, h]

theorem cacheScan_other {r : RecordRef} (h : r.inSection ≠ .answer) :
    cacheScan msg acc r =
      (acc.1, acc.2.or (if isNegativeSoa r then some (negativeLifetime msg r) else none)) := by
  obtain ⟨least, soa⟩ := acc
  unfold cacheScan isNegativeSoa negativeLifetime
  cases hs : r.inSection with
  | answer => exact absurd hs h
  | additional => cases soa <;> rfl
  | authority =>
    cases soa with
    | some m => simp only [reduceCtorEq, false_and, and_false, if_false, Option.some_or]
    | none =>
      simp only [true_and, decide_true, Bool.true_and, Bool.and_eq_true, decide_eq_true_eq,
        Option.none_or]
      by_cases hsoa : r.rtype = typeSoa ∧ soaMinRdata ≤ r.rdataLen
      · rw [if_pos hsoa, if_pos hsoa]
      · rw [if_neg hsoa, if_neg hsoa]

/-- The scan's first half: the least TTL of the answer section. -/
theorem scan_none_iff :
    (rs.foldl (cacheScan msg) acc).1 = none ↔
      acc.1 = none ∧ ∀ r ∈ rs, r.inSection ≠ .answer := by
  induction rs generalizing acc with
  | nil => simp
  | cons r rs ih =>
    rw [List.foldl_cons, ih]
    by_cases hr : r.inSection = .answer
    · simp [cacheScan_answer hr, hr]
    · simp [cacheScan_other hr, hr]

theorem scan_le {m : UInt32} (h : (rs.foldl (cacheScan msg) acc).1 = some m) :
    (∀ m' ∈ acc.1, m ≤ m') ∧ ∀ r ∈ rs, r.inSection = .answer → m ≤ msg.readU32 r.ttlOff := by
  induction rs generalizing acc with
  | nil =>
    have hacc : acc.1 = some m := h
    refine ⟨fun m' hm' => ?_, nofun⟩
    rw [hacc] at hm'
    cases hm'
    exact UInt32.le_refl m
  | cons r rs ih =>
    obtain ⟨hacc, hrest⟩ := ih h
    by_cases hr : r.inSection = .answer
    · rw [cacheScan_answer hr] at hacc
      have hle := hacc _ rfl
      constructor
      · intro m' hm'
        rw [hm', Option.elim_some] at hle
        exact UInt32.le_trans hle Std.min_le_left
      · intro r' hr' hans
        rcases List.mem_cons.1 hr' with rfl | hr'
        · cases hacc1 : acc.1 with
          | none =>
            rw [hacc1, Option.elim_none] at hle
            exact hle
          | some m' =>
            rw [hacc1, Option.elim_some] at hle
            exact UInt32.le_trans hle Std.min_le_right
        · exact hrest r' hr' hans
    · rw [cacheScan_other hr] at hacc
      refine ⟨hacc, fun r' hr' hans => ?_⟩
      rcases List.mem_cons.1 hr' with rfl | hr'
      · exact absurd hans hr
      · exact hrest r' hr' hans

theorem scan_mem {m : UInt32} (h : (rs.foldl (cacheScan msg) acc).1 = some m) :
    acc.1 = some m ∨ ∃ r ∈ rs, r.inSection = .answer ∧ msg.readU32 r.ttlOff = m := by
  induction rs generalizing acc with
  | nil => exact Or.inl h
  | cons r rs ih =>
    rcases ih h with hacc | ⟨r', hr', hans, httl⟩
    · by_cases hr : r.inSection = .answer
      · rw [cacheScan_answer hr] at hacc
        have hself : ∃ r' ∈ r :: rs, r'.inSection = .answer ∧
            msg.readU32 r'.ttlOff = msg.readU32 r.ttlOff := ⟨r, List.mem_cons_self .., hr, rfl⟩
        cases hacc1 : acc.1 with
        | none =>
          rw [hacc1] at hacc
          cases hacc
          exact Or.inr hself
        | some m' =>
          rw [hacc1] at hacc
          cases hacc
          simp only [Option.elim_some]
          rcases Std.MinEqOr.min_eq_or m' (msg.readU32 r.ttlOff) with hmin | hmin
          · rw [hmin]
            exact Or.inl rfl
          · rw [hmin]
            exact Or.inr hself
      · rw [cacheScan_other hr] at hacc
        exact Or.inl hacc
    · exact Or.inr ⟨r', List.mem_cons_of_mem _ hr', hans, httl⟩

/-- The scan's second half: what the first SOA of the authority section says. -/
theorem scan_soa :
    (rs.foldl (cacheScan msg) acc).2 = acc.2.or ((rs.find? isNegativeSoa).map (negativeLifetime msg)) := by
  induction rs generalizing acc with
  | nil => simp
  | cons r rs ih =>
    rw [List.foldl_cons, ih]
    by_cases hr : r.inSection = .answer
    · have hsoa : isNegativeSoa r = false := by simp [isNegativeSoa, hr]
      simp [cacheScan_answer hr, hsoa]
    · rw [cacheScan_other hr, Option.or_assoc]
      by_cases hsoa : isNegativeSoa r = true
      · simp [hsoa]
      · simp [hsoa]

/-- **The lifetime of an answer**: that of its shortest answer record or, without one, what
the first SOA of its authority section says. -/
theorem cacheTtl_spec {ttl : UInt32} (h : cacheTtl msg = some ttl) :
    ((∃ a ∈ recordsOf msg, a.inSection = .answer ∧ msg.readU32 a.ttlOff = ttl) ∧
        ∀ a ∈ recordsOf msg, a.inSection = .answer → ttl ≤ msg.readU32 a.ttlOff) ∨
      (∀ a ∈ recordsOf msg, a.inSection ≠ .answer) ∧
        ∃ soa, (recordsOf msg).find? isNegativeSoa = some soa ∧ negativeLifetime msg soa = ttl := by
  unfold cacheTtl at h
  split at h
  · rename_i rs hw
    rw [recordsOf_eq hw]
    obtain ⟨hor, -⟩ := Option.filter_eq_some_iff.1 h
    rcases Option.or_eq_some_iff.1 hor with hscan | ⟨hscan, hsoa⟩
    · left
      refine ⟨?_, (scan_le hscan).2⟩
      exact (scan_mem hscan).resolve_left nofun
    · right
      refine ⟨(scan_none_iff.1 hscan).2, ?_⟩
      rw [scan_soa, Option.none_or] at hsoa
      exact Option.map_eq_some_iff.1 hsoa
  · cases h

end

/-- The record has at least as long to live as an entry of the message has: `max_ttl`, or
as long as some answer record or, where there is none, as the SOA says. -/
def Outlives (maxSecs : ℕ) (msg : Bytes) (r : RecordRef) : Prop :=
  maxSecs ≤ (msg.readU32 r.ttlOff).toNat ∨
    (∃ a ∈ recordsOf msg, a.inSection = .answer ∧ msg.readU32 a.ttlOff ≤ msg.readU32 r.ttlOff) ∨
    (∀ a ∈ recordsOf msg, a.inSection ≠ .answer) ∧
      ∃ soa ∈ (recordsOf msg).find? isNegativeSoa,
        negativeLifetime msg soa ≤ msg.readU32 r.ttlOff

instance (maxSecs : ℕ) (msg : Bytes) (r : RecordRef) : Decidable (Outlives maxSecs msg r) :=
  inferInstanceAs (Decidable (_ ∨ _ ∨ _ ∧ _))

theorem outlives_iff {msg : Bytes} {ttl : UInt32} (h : cacheTtl msg = some ttl) (maxSecs : ℕ)
    (r : RecordRef) :
    Outlives maxSecs msg r ↔ min ttl.toNat maxSecs ≤ (msg.readU32 r.ttlOff).toNat := by
  have hmin : min ttl.toNat maxSecs ≤ (msg.readU32 r.ttlOff).toNat ↔
      maxSecs ≤ (msg.readU32 r.ttlOff).toNat ∨ ttl ≤ msg.readU32 r.ttlOff := by
    rw [UInt32.le_iff_toNat_le]
    omega
  rw [hmin, Outlives]
  refine or_congr_right ?_
  rcases cacheTtl_spec h with ⟨⟨a, ha, hans, rfl⟩, hleast⟩ | ⟨hnone, soa, hsoa, rfl⟩
  · constructor
    · rintro (⟨b, hb, hbans, hle⟩ | ⟨hnone, -⟩)
      · exact UInt32.le_trans (hleast b hb hbans) hle
      · exact absurd hans (hnone a ha)
    · exact fun hle => Or.inl ⟨a, ha, hans, hle⟩
  · constructor
    · rintro (⟨a, ha, hans, -⟩ | ⟨-, soa', hsoa', hle⟩)
      · exact absurd hans (hnone a ha)
      · cases hsoa.symm.trans hsoa'
        exact hle
    · exact fun hle => Or.inr ⟨hnone, soa, hsoa, hle⟩

/-! ## What is kept -/

/-- What goes into the cache: under which name, type and DNSSEC bit, and the answer. -/
structure Keeping where
  name : Text
  qtype : UInt16
  dnssec : Bool
  response : DnsResponse

/-- The key it is kept under. -/
def Keeping.key (k : Keeping) : Text := DnsCache.cacheKey k.name k.qtype k.dnssec

/-- The entry made of it at a time. -/
def Keeping.entry (k : Keeping) (cache : DnsCache) (now : ℕ) : CacheEntry :=
  ⟨k.response, now + min (max k.response.ttl.toNat cache.minSecs) cache.maxSecs * nanos⟩

/-- What is kept of bytes that may be kept. -/
def keeping (name : Text) (qtype : UInt16) (dnssec : Bool) (bytes : Bytes) : Option Keeping :=
  (cacheTtl bytes).map fun ttl => ⟨name, qtype, dnssec, bytes, ttl⟩

/-- What `resolve_upstream` keeps of the pool's reply. -/
def answerToKeep (ctx : DnsCtx P) (raw : Bytes) (p : Pending P) (reply : Option (Bytes × Text)) :
    Option Keeping :=
  match p.rewrite with
  | some target =>
    match targetQuery ctx.codec (queryId raw) target p.qtype, reply with
    | some _, some (bytes, _) =>
      if rcode bytes = some 0 then keeping target p.qtype false bytes else none
    | _, _ => none
  | none =>
    let (response, rc, _) := readReply ctx.codec raw reply
    let response := withoutEch ctx.codec ctx.switches response p.qtype
    let blocked := if rc = 0 ∧ p.filteringEnabled then
        cnameBlockedTarget ctx.codec ctx.lists response p.name p.profile
      else none
    if blocked = none ∧ rc = 0 ∧ response ≠ [] then
      keeping p.name p.qtype p.wantDnssec response
    else none

theorem cacheAnswer_eq (cache : DnsCache) (now : ℕ) (name : Text) (qtype : UInt16) (dnssec : Bool)
    (bytes : Bytes) :
    cacheAnswer cache now name qtype dnssec bytes =
      (keeping name qtype dnssec bytes).elim cache fun k =>
        cache.insert k.name k.qtype k.dnssec k.response now := by
  unfold cacheAnswer keeping
  cases cacheTtl bytes <;> rfl

/-- **What `resolve_upstream` does to the cache.** -/
theorem resolveUpstream_cache (ctx : DnsCtx P) (cache : DnsCache) (now : ℕ) (raw : Bytes)
    (p : Pending P) (reply : Option (Bytes × Text)) :
    (resolveUpstream ctx cache now raw p reply).cache =
      (answerToKeep ctx raw p reply).elim cache fun k =>
        cache.insert k.name k.qtype k.dnssec k.response now := by
  unfold resolveUpstream answerToKeep
  cases p.rewrite with
  | some target =>
    simp only [resolveSafeHost]
    cases targetQuery ctx.codec (queryId raw) target p.qtype with
    | none => rfl
    | some query =>
      cases reply with
      | none => rfl
      | some answered =>
        obtain ⟨bytes, label⟩ := answered
        cases hrc : rcode bytes with
        | none => simp [hrc]
        | some rc =>
          by_cases hzero : rc = 0
          · simp [hrc, hzero, cacheAnswer_eq]
          · simp [hrc, hzero]
  | none =>
    simp only
    generalize readReply ctx.codec raw reply = r
    obtain ⟨response, rc, label⟩ := r
    simp only
    split
    · rename_i target hblocked
      simp [hblocked]
    · rename_i hblocked
      simp only [hblocked, true_and]
      split
      · exact cacheAnswer_eq ..
      · rfl

/-- The entry just put in survives the eviction loop. -/
theorem head?_shrink (s : Inner) (maxBytes n : ℕ) :
    (s.shrink maxBytes n).lru.entries.head? = s.lru.entries.head? := by
  induction n generalizing s with
  | zero => rfl
  | succ n ih =>
    unfold Inner.shrink
    split
    · rename_i hover
      rw [ih, Inner.entries_popLru]
      have hlen := hover.2
      cases hentries : s.lru.entries with
      | nil => rfl
      | cons a rest =>
        cases rest with
        | nil =>
          rw [hentries] at hlen
          exact absurd hlen (by simp)
        | cons b rest => rfl
    · rfl

theorem peek_insert_self (cache : DnsCache) (k : Keeping) (now : ℕ) :
    (cache.insert k.name k.qtype k.dnssec k.response now).inner.lru.peek k.key =
      some (k.entry cache now) := by
  have hhead : (cache.insert k.name k.qtype k.dnssec k.response now).inner.lru.entries.head? =
      some (k.key, k.entry cache now) := by
    unfold DnsCache.insert Inner.put
    rw [head?_shrink]
    have hpos := cache.inner.lru.cap_pos
    simp only [Lru.put]
    rw [List.head?_take, if_neg (by omega)]
    rfl
  rw [Lru.peek_eq_some_iff]
  exact List.mem_of_head? hhead

/-! ## TTLs through the codec -/

/-- The codec reads and writes the TTLs of all records, in their order.  (The OPT
pseudo-record stands for the EDNS data and has none.) -/
structure Codec.KeepsTtlOrder (codec : Codec) : Prop where
  decoded : ∀ {bytes m rs}, codec.fromBytes bytes = some m → walk bytes = some (rs, true) →
    ttls bytes = m.records.map Record.ttl
  encoded : ∀ {m bytes}, codec.toBytes m = some bytes →
    (∃ rs, walk bytes = some (rs, true)) ∧ ttls bytes = m.records.map Record.ttl

theorem keepsTtlOrder_ofRows {rows : List (Bytes × Message)}
    (h : ∀ row ∈ rows, ((walk row.1).any fun w => w.2) = true ∧
      ttls row.1 = row.2.records.map Record.ttl) : (Codec.ofRows rows).KeepsTtlOrder where
  decoded hm _ := (h _ (mem_rows_of_fromBytes hm)).2
  encoded hm := by
    obtain ⟨hwalk, httls⟩ := h _ (mem_rows_of_toBytes hm)
    obtain ⟨⟨rs, ok⟩, hw, hok⟩ := Option.any_eq_true _ _ |>.1 hwalk
    simp only at hok
    subst hok
    exact ⟨⟨rs, hw⟩, httls⟩

theorem ttl_withoutEch (r : Record) : r.withoutEch.ttl = r.ttl := by
  unfold Record.withoutEch
  split <;> rfl

/-- Taking ECH parameters out leaves every TTL as it is. -/
theorem ttls_stripEch {codec : Codec} (hcodec : codec.KeepsTtlOrder) {bytes out : Bytes}
    {rs : List RecordRef} (hw : walk bytes = some (rs, true)) (h : stripEch codec bytes = some out) :
    (∃ rs', walk out = some (rs', true)) ∧ ttls out = ttls bytes := by
  simp only [stripEch, Option.bind_eq_bind, Option.bind_eq_some_iff,
    Option.ite_none_right_eq_some] at h
  obtain ⟨m, hm, -, hout⟩ := h
  obtain ⟨hwalk, httls⟩ := hcodec.encoded hout
  refine ⟨hwalk, ?_⟩
  rw [httls, hcodec.decoded hm hw]
  have hanswers : (m.answers.map Record.withoutEch).map Record.ttl = m.answers.map Record.ttl := by
    rw [List.map_map]
    exact List.map_congr_left fun r _ => ttl_withoutEch r
  simp only [Message.records, List.map_append, hanswers]

theorem ttls_withoutEch {codec : Codec} (hcodec : codec.KeepsTtlOrder) (switches : DnsSwitches)
    {bytes : Bytes} {rs : List RecordRef} (hw : walk bytes = some (rs, true)) (qtype : UInt16) :
    (∃ rs', walk (withoutEch codec switches bytes qtype) = some (rs', true)) ∧
      ttls (withoutEch codec switches bytes qtype) = ttls bytes := by
  unfold withoutEch
  split
  · cases hech : stripEch codec bytes with
    | none => exact ⟨⟨rs, hw⟩, rfl⟩
    | some out => exact ttls_stripEch hcodec hw hech
  · exact ⟨⟨rs, hw⟩, rfl⟩

/-- What is kept of a reply is clean, has the TTLs of the reply and the lifetime they
give it. -/
theorem answerToKeep_spec {ctx : DnsCtx P} (hcodec : ctx.codec.KeepsTtlOrder) {raw : Bytes}
    {p : Pending P} {u : Bytes} {label : Text} {k : Keeping}
    (hk : answerToKeep ctx raw p (some (u, label)) = some k) (hrc : rcode u = some 0) :
    (∃ rs, walk k.response.bytes = some (rs, true)) ∧ ttls k.response.bytes = ttls u ∧
      cacheTtl k.response.bytes = some k.response.ttl := by
  obtain ⟨rs, hw⟩ : ∃ rs, walk u = some (rs, true) := by
    unfold rcode at hrc
    split at hrc
    · cases hrc
    · split at hrc
      · exact ⟨_, by assumption⟩
      · cases hrc
  have hkeeping : ∀ {name qtype dnssec bytes}, keeping name qtype dnssec bytes = some k →
      k.response.bytes = bytes ∧ cacheTtl bytes = some k.response.ttl := by
    intro name qtype dnssec bytes h
    obtain ⟨ttl, httl, rfl⟩ := Option.map_eq_some_iff.1 h
    exact ⟨rfl, httl⟩
  unfold answerToKeep at hk
  cases hrewrite : p.rewrite with
  | some target =>
    rw [hrewrite] at hk
    cases hquery : targetQuery ctx.codec (queryId raw) target p.qtype with
    | none => simp [hquery] at hk
    | some query =>
      simp only [hquery, hrc, if_true] at hk
      obtain ⟨hbytes, httl⟩ := hkeeping hk
      rw [hbytes]
      exact ⟨⟨rs, hw⟩, rfl, httl⟩
  | none =>
    simp only [hrewrite, readReply, hrc, Option.ite_none_right_eq_some] at hk
    obtain ⟨hbytes, httl⟩ := hkeeping hk.2
    obtain ⟨hwalk, hsame⟩ := ttls_withoutEch hcodec ctx.switches hw p.qtype
    rw [hbytes]
    exact ⟨hwalk, hsame, httl⟩

/-! ## Hits -/

/-- **A hit gives every record the same TTL.** -/
theorem ttls_patchCached {msg : Bytes} {rs : List RecordRef} (hw : walk msg = some (rs, true))
    (id : UInt16) (ttl : UInt32) : ttls (patchCached msg id ttl) = (ttls msg).map fun _ => ttl := by
  obtain ⟨hwalk, -, -, httl⟩ := rewriteTtls_spec
    (fun current => if current ≠ ttl then some ttl else none) (walk_setId hw id)
  have hserved : walk (patchCached msg id ttl) = some (rs, true) := hwalk
  rw [ttls, ttls, recordsOf_eq hserved, recordsOf_eq hw, List.map_map]
  refine List.map_congr_left fun r hr => ?_
  obtain ⟨hr, hopt⟩ := List.mem_filter.1 hr
  have hnew : (patchCached msg id ttl).readU32 r.ttlOff =
      newTtl (fun current => if current ≠ ttl then some ttl else none) r
        ((setId msg id).readU32 r.ttlOff) := httl r hr
  rw [hnew, newTtl, if_neg (by simpa using hopt)]
  by_cases hne : (setId msg id).readU32 r.ttlOff = ttl
  · simp [hne]
  · simp [hne]

/-- The TTL of what is left of an entry, at most `client_ttl`. -/
def leftOf (e : CacheEntry) (now : ℕ) (clientTtl : UInt32) : UInt32 :=
  min (UInt32.ofNat (min ((e.expiresAt - now) / nanos) (2 ^ 32 - 1))) clientTtl

/-- The query is for an entry that has not expired, and no name of its CNAME chain is
blocked for the client. -/
structure FreshHit (ctx : DnsCtx P) (c : DnsCache) (now : ℕ) (q : Asking P) (key : Text)
    (e : CacheEntry) : Prop where
  asked : DnsCache.cacheKey q.name q.qtype q.wantDnssec = key
  held : c.inner.lru.peek key = some e
  fresh : now < e.expiresAt
  unblocked : q.filteringEnabled = true →
    cnameBlockedTarget ctx.codec ctx.lists e.response.bytes q.name q.profile = none

theorem decision_of_freshHit {ctx : DnsCtx P} {c : DnsCache} {now : ℕ} {q : Asking P} {key : Text}
    {e : CacheEntry} (h : FreshHit ctx c now q key e) (permit : Bool) :
    (stepCache ctx c now permit q).map Outcome.decision =
      some (.answer (patchCached e.response.bytes (queryId q.raw) (leftOf e now q.clientTtl))) := by
  obtain ⟨rfl, hheld, hfresh, hunblocked⟩ := h
  have hget : c.getWithRemaining q.name q.qtype q.wantDnssec now =
      some (e.response, UInt32.ofNat (min ((e.expiresAt - now) / nanos) (2 ^ 32 - 1))) := by
    have hexp : e.isExpired now = false := by simpa [CacheEntry.isExpired] using hfresh
    simp only [DnsCache.getWithRemaining, hheld, hexp, Bool.false_eq_true, if_false]
  have hblocked : (if q.filteringEnabled = true then
      cnameBlockedTarget ctx.codec ctx.lists e.response.bytes q.name q.profile else none) =
        none := by
    split
    · exact hunblocked (by assumption)
    · rfl
  simp only [stepCache, cacheHit, hget, Option.map_some, Option.some_or, Bool.false_eq_true,
    if_false, hblocked]
  rfl

/-- A client that asks for what is kept, and is not filtered. -/
def asker (k : Keeping) (clientTtl : UInt32) : Asking P where
  raw := []
  name := k.name
  qtype := k.qtype
  clientAddr := .v4 .unspecified
  clientIp := []
  clientMac := none
  device := none
  filteringEnabled := false
  profile := none
  wantDnssec := k.dnssec
  logIgnored := false
  clientTtl := clientTtl

theorem freshHit_asker (ctx : DnsCtx P) {c : DnsCache} {now : ℕ} {k : Keeping} {e : CacheEntry}
    (hheld : c.inner.lru.peek k.key = some e) (hfresh : now < e.expiresAt) (clientTtl : UInt32) :
    FreshHit ctx c now (asker k clientTtl) k.key e where
  asked := rfl
  held := hheld
  fresh := hfresh
  unblocked := nofun

/-- Every record served has at most the TTL it had in the upstream's answer, less the
seconds since. -/
def LifetimesKept (elapsed : ℕ) (served upstream : Bytes) : Prop :=
  List.Forall₂ (fun ttl origin => ttl.toNat ≤ origin.toNat - elapsed) (ttls served) (ttls upstream)

theorem lifetimesKept_patchCached_iff {msg upstream : Bytes} {rs : List RecordRef}
    (hw : walk msg = some (rs, true)) (hsame : ttls msg = ttls upstream) (id : UInt16)
    (ttl : UInt32) (elapsed : ℕ) :
    LifetimesKept elapsed (patchCached msg id ttl) upstream ↔
      ∀ origin ∈ ttls upstream, ttl.toNat ≤ origin.toNat - elapsed := by
  rw [LifetimesKept, ttls_patchCached hw, hsame, List.forall₂_map_left_iff, List.forall₂_same]

theorem nanos_pos : 0 < nanos := by
  unfold nanos
  omega

/-- What is left of an entry is at most its lifetime less the seconds since. -/
theorem leftOf_le {e : CacheEntry} {t t' secs : ℕ} (he : e.expiresAt = t + secs * nanos)
    (ht : t ≤ t') (hfresh : t' < e.expiresAt) (clientTtl : UInt32) :
    (leftOf e t' clientTtl).toNat ≤ secs - (t' - t) / nanos := by
  have hleft : (e.expiresAt - t') / nanos ≤ secs - (t' - t) / nanos := by
    have hsum : (e.expiresAt - t') / nanos + (t' - t) / nanos ≤ (secs * nanos) / nanos := by
      have hsplit : (e.expiresAt - t') + (t' - t) = secs * nanos := by omega
      exact hsplit ▸ Nat.div_add_div_le_add_div ..
    rw [Nat.mul_div_cancel _ nanos_pos] at hsum
    omega
  calc (leftOf e t' clientTtl).toNat
      ≤ (UInt32.ofNat (min ((e.expiresAt - t') / nanos) (2 ^ 32 - 1))).toNat :=
        UInt32.le_iff_toNat_le.1 Std.min_le_left
    _ ≤ min ((e.expiresAt - t') / nanos) (2 ^ 32 - 1) := by
        rw [UInt32.toNat_ofNat']
        exact Nat.mod_le ..
    _ ≤ secs - (t' - t) / nanos := by omega

/-- Right after it was stored an entry has all its lifetime left. -/
theorem leftOf_start {e : CacheEntry} {t secs : ℕ} (he : e.expiresAt = t + secs * nanos)
    (hsecs : secs < 2 ^ 32) : (leftOf e t (UInt32.ofNat secs)).toNat = secs := by
  have hleft : (e.expiresAt - t) / nanos = secs := by
    rw [he, Nat.add_sub_cancel_left, Nat.mul_div_cancel _ nanos_pos]
  have hmin : min secs (2 ^ 32 - 1) = secs := by omega
  rw [leftOf, hleft, hmin, Std.min_self, UInt32.toNat_ofNat', Nat.mod_eq_of_lt hsecs]

/-- In every cache with `min_ttl = 0`, for every NOERROR reply that `resolve_upstream`
keeps: the fresh hits on it, whenever they come and whatever the ceiling is by then, all
keep every record's lifetime if and only if every record of what is kept that is not OPT
has as long to live as the entry. -/
theorem lifetimes_kept_iff (ctx : DnsCtx P) (hcodec : ctx.codec.KeepsTtlOrder) (cache : DnsCache)
    (hmin : cache.minSecs = 0) (t : ℕ) (raw : Bytes) (p : Pending P) (u : Bytes) (label : Text)
    (hrc : rcode u = some 0) (k : Keeping)
    (hk : answerToKeep ctx raw p (some (u, label)) = some k) :
    (∀ (ctx' : DnsCtx P) (c : DnsCache) (t' : ℕ) (permit : Bool) (q : Asking P) (e : CacheEntry)
        (served : Bytes), t ≤ t' →
      (resolveUpstream ctx cache t raw p (some (u, label))).cache.inner.lru.peek k.key = some e →
      FreshHit ctx' c t' q k.key e →
      (stepCache ctx' c t' permit q).map Outcome.decision = some (.answer served) →
      LifetimesKept ((t' - t) / nanos) served u) ↔
    ∀ r ∈ recordsOf k.response.bytes, r.rtype ≠ typeOpt →
      Outlives cache.maxSecs k.response.bytes r := by
  obtain ⟨⟨rs, hw⟩, hsame, httl⟩ := answerToKeep_spec hcodec hk hrc
  have hstored : (resolveUpstream ctx cache t raw p (some (u, label))).cache.inner.lru.peek k.key =
      some (k.entry cache t) := by
    rw [resolveUpstream_cache, hk]
    exact peek_insert_self cache k t
  -- the seconds the entry is given
  obtain ⟨secs, hsecs⟩ : ∃ secs, secs = min k.response.ttl.toNat cache.maxSecs := ⟨_, rfl⟩
  have hexpires : (k.entry cache t).expiresAt = t + secs * nanos := by
    rw [hsecs, Keeping.entry, hmin, Nat.max_zero]
  have hcond : (∀ r ∈ recordsOf k.response.bytes, r.rtype ≠ typeOpt →
      Outlives cache.maxSecs k.response.bytes r) ↔ ∀ origin ∈ ttls u, secs ≤ origin.toNat := by
    rw [← hsame, ttls, hsecs, List.forall_mem_map]
    simp only [List.mem_filter, decide_eq_true_eq, outlives_iff httl, and_imp]
  rw [hcond]
  constructor
  · intro h origin horigin
    rcases Nat.eq_zero_or_pos secs with hzero | hpos
    · omega
    -- a client asks at once, under a ceiling that lets all the lifetime through
    · have hsmall : secs < 2 ^ 32 := by
        have := k.response.ttl.toNat_lt
        omega
      have hhit := freshHit_asker ctx hstored
        (by rw [hexpires]; exact Nat.lt_add_of_pos_right (Nat.mul_pos hpos nanos_pos))
        (UInt32.ofNat secs)
      have hkept := h ctx _ t false _ _ _ (Nat.le_refl t) hstored hhit (decision_of_freshHit hhit false)
      have hle := (lifetimesKept_patchCached_iff hw hsame _ _ _).1 hkept origin horigin
      rw [Nat.sub_self, Nat.zero_div, Nat.sub_zero] at hle
      exact leftOf_start hexpires hsmall ▸ hle
  · intro h ctx' c t' permit q e served ht he hhit hserved
    rw [hstored] at he
    cases he
    rw [decision_of_freshHit hhit] at hserved
    cases hserved
    refine (lifetimesKept_patchCached_iff hw hsame _ _ _).2 fun origin horigin => ?_
    have hle := leftOf_le hexpires ht hhit.fresh q.clientTtl
    have hlong := h origin horigin
    omega

namespace Delegation

open Example

/-- The query for `x` on its way upstream. -/
def pending : Pending Unit := (identify ctx stub host none ['x'] 1).pending false none

/-- The address of `x` for five minutes, and a name server for it for one minute. -/
def delegated : Bytes :=
  [0x12, 0x34, 0x81, 0x80, 0, 1, 0, 1, 0, 1, 0, 0, 1, 0x78, 0, 0, 1, 0, 1] ++
    [0xC0, 12, 0, 1, 0, 1] ++ ofU32 300 ++ [0, 4, 192, 0, 2, 1] ++
    [0xC0, 12, 0, 2, 0, 1] ++ ofU32 60 ++ [0, 4, 1, 0x79, 0xC0, 12]

/-- What is kept of the address alone. -/
def kept : Keeping := ⟨['x'], 1, false, address 600, 600⟩

/-- The cache it is kept in. -/
def stored : DnsCache :=
  (resolveUpstream ctx (.new 10 0 0 0) 0 stub pending (some (address 600, ['u']))).cache

/-- The stub asks, is answered by the upstream, and asks again ten seconds later. -/
def events : List (Event Unit) :=
  [.query ctx 0 .pass true stub host none,
    .reply ctx 0 0 (some (delegated, ['u'])),
    .query ctx (10 * nanos) .pass true stub host none]

end Delegation

open Example Delegation in
/-- A hit a second later on an answer of one record keeps its lifetime. -/
theorem lifetimes_kept_address : LifetimesKept 1 (address 60) (address 600) := by
  have hcodec : ctx.codec.KeepsTtlOrder := keepsTtlOrder_ofRows (by decide +kernel)
  have hall := (lifetimes_kept_iff ctx hcodec (.new 10 0 0 0) rfl 0 stub pending (address 600) ['u']
    (by decide +kernel) kept rfl).2 (by decide +kernel)
  have hheld : stored.inner.lru.peek kept.key = some (kept.entry (.new 10 0 0 0) 0) := by
    decide +kernel
  have hhit : FreshHit ctx stored nanos (identify ctx stub host none ['x'] 1) kept.key
      (kept.entry (.new 10 0 0 0) 0) := ⟨rfl, hheld, by decide +kernel, nofun⟩
  have hserved : patchCached (address 600) (queryId stub)
      (leftOf (kept.entry (.new 10 0 0 0) 0) nanos 60) = address 60 := by decide +kernel
  have hsecond : (nanos - 0) / nanos = 1 := by decide +kernel
  rw [← hserved, ← hsecond]
  exact hall ctx stored nanos false _ _ _ (Nat.zero_le _) hheld hhit (decision_of_freshHit hhit false)

open Delegation in
/-- The name server had fifty seconds left and is sent with sixty. -/
theorem hit_lengthens_a_life :
    ∃ served, ((Mealy.trace pipelineStep (Pipeline.start 10 0 0 0) events)[2]?.map
        Mealy.Entry.output) = some (some (60, served)) ∧
      rcode delegated = some 0 ∧ ttls delegated = [300, 60] ∧ ttls served = [60, 60] ∧
      ¬ LifetimesKept (10 * nanos / nanos) served delegated := by
  have hdelegated : ttls delegated = [300, 60] := by decide +kernel
  have hserved : ttls (patchCached delegated 0x1234 60) = [60, 60] := by decide +kernel
  refine ⟨patchCached delegated 0x1234 60, by decide +kernel, by decide +kernel, hdelegated, hserved,
    fun h => ?_⟩
  rw [LifetimesKept, hdelegated, hserved, Nat.mul_div_cancel _ nanos_pos] at h
  cases h with
  | cons _ h => cases h with
    | cons h _ => exact absurd h (by decide)

end Ferrite.Dns
