import Ferrite.Lib.Mealy
import Ferrite.Dns.Handler

/-!
# The client's TTL ceiling

Every answer leaves with lifetimes of at most `client_ttl`, so a change to a list, a
rule or a profile reaches a device within that time.  The pipeline bounds a lifetime
in three ways: it builds the answer with it, caps the TTLs, or sets them.  The last
two do nothing to bytes that do not walk cleanly, so the argument is that no such
bytes get that far: an upstream's answer is checked by `rcode`, what is cached was
checked by `cache_ttl`, and the rest was built by the codec.

What is proved here:

* `capTtls_ttls`, `patchCached_ttls` — capping and setting bound a clean message;
* `decideAs_under`, `resolveUpstream_under` — one query keeps the cache clean and its
  answer under the ceiling;
* `every_answer_under_ceiling` — so does a whole run, for every answer it gives.
-/

namespace Ferrite.Dns

open Bytes Wire Mealy

variable {P : Type}

/-! ## Bounding the TTLs of a message -/

theorem TtlsAtMost.mono {ttl ttl' : UInt32} {msg : Bytes} (h : TtlsAtMost ttl msg)
    (hle : ttl ≤ ttl') : TtlsAtMost ttl' msg := by
  rcases h with h | ⟨rs, hw, hrs⟩
  · exact Or.inl h
  · exact Or.inr ⟨rs, hw, fun r hr hopt => UInt32.le_trans (hrs r hr hopt) hle⟩

/-- A rewrite whose new TTLs are all bounded bounds a clean message. -/
theorem rewriteTtls_ttls {f : UInt32 → Option UInt32} {ttl : UInt32}
    (hf : ∀ t, (f t).getD t ≤ ttl) {msg : Bytes} (h : Clean msg) :
    TtlsAtMost ttl (rewriteTtls msg f).1 := by
  rcases h with rfl | ⟨rs, hw⟩
  · exact Or.inl rfl
  · obtain ⟨hwalk, -, -, httl⟩ := rewriteTtls_spec f hw
    refine Or.inr ⟨rs, hwalk, fun r hr hopt => ?_⟩
    rw [httl r hr, newTtl, if_neg hopt]
    exact hf _

theorem capTtls_ttls {msg : Bytes} (h : Clean msg) (ttl : UInt32) :
    TtlsAtMost ttl (capTtls msg ttl) := by
  refine rewriteTtls_ttls (fun t => ?_) h
  by_cases hlt : ttl < t
  · rw [if_pos hlt]
    exact UInt32.le_refl ttl
  · rw [if_neg hlt]
    exact UInt32.not_lt.1 hlt

theorem clean_setId {msg : Bytes} (h : Clean msg) (id : UInt16) : Clean (setId msg id) := by
  rcases h with rfl | ⟨rs, hw⟩
  · exact Or.inl rfl
  · exact Or.inr ⟨rs, walk_setId hw id⟩

theorem patchCached_ttls {msg : Bytes} (h : Clean msg) (id : UInt16) (ttl : UInt32) :
    TtlsAtMost ttl (patchCached msg id ttl) := by
  refine rewriteTtls_ttls (fun t => ?_) (clean_setId h id)
  by_cases hne : t = ttl
  · subst hne
    simp
  · simp [hne]

/-! ## Clean bytes -/

/-- A message `rcode` accepts walks cleanly. -/
theorem clean_of_rcode {bytes : Bytes} {rc : UInt8} (h : rcode bytes = some rc) : Clean bytes := by
  unfold rcode at h
  split at h
  · cases h
  · split at h
    · rename_i rs hw
      exact Or.inr ⟨rs, hw⟩
    · cases h

theorem clean_withoutEch {codec : Codec} (hcodec : codec.KeepsTtls) (switches : DnsSwitches)
    {bytes : Bytes} (h : Clean bytes) (qtype : UInt16) :
    Clean (withoutEch codec switches bytes qtype) := by
  unfold withoutEch
  split
  · cases hech : stripEch codec bytes with
    | none => exact h
    | some out => exact clean_stripEch hcodec hech
  · exact h

/-- Every answer in the cache is clean. -/
def CacheClean (cache : DnsCache) : Prop := ∀ e ∈ cache.entries, Clean e.2.response.bytes

theorem CacheClean.insert {cache : DnsCache} (h : CacheClean cache) {resp : DnsResponse}
    (hresp : Clean resp.bytes) (name : Text) (qtype : UInt16) (dnssec : Bool) (now : ℕ) :
    CacheClean (cache.insert name qtype dnssec resp now) := by
  intro e he
  rcases DnsCache.mem_of_mem_insert he with he | he
  · rw [he]
    exact hresp
  · exact h e he

theorem CacheClean.cacheAnswer {cache : DnsCache} (h : CacheClean cache) {bytes : Bytes}
    (hbytes : Clean bytes) (now : ℕ) (name : Text) (qtype : UInt16) (dnssec : Bool) :
    CacheClean (cacheAnswer cache now name qtype dnssec bytes) := by
  unfold Dns.cacheAnswer
  split
  · exact h.insert hbytes name qtype dnssec now
  · exact h

/-! ## One query -/

/-- The decision keeps to the ceiling: an answer is under it, and a query that goes
upstream takes it along. -/
def Decision.Under (ttl : UInt32) : Decision P → Prop
  | .answer bytes => TtlsAtMost ttl bytes
  | .upstream p => p.clientTtl = ttl
  | .drop => True

/-- The outcome keeps to the ceiling and leaves the cache clean. -/
def Outcome.Good (ttl : UInt32) (o : Outcome P) : Prop := o.decision.Under ttl ∧ CacheClean o.cache

theorem good_or {ttl : UInt32} {a b : Option (Outcome P)} (ha : ∀ o ∈ a, o.Good ttl)
    (hb : ∀ o ∈ b, o.Good ttl) : ∀ o ∈ a.or b, o.Good ttl := by
  cases a with
  | some x => exact ha
  | none => exact hb

theorem clean_readReply {codec : Codec} (hcodec : codec.KeepsTtls) (raw : Bytes)
    (reply : Option (Bytes × Text)) : Clean (readReply codec raw reply).1 := by
  have hservfail : Clean (buildServfail codec raw) := (buildError_ttls hcodec raw servFail 0).clean
  unfold readReply
  split
  · split
    · rename_i hrc
      exact clean_of_rcode hrc
    · exact hservfail
  · exact hservfail

theorem entries_refreshStale (ctx : DnsCtx P) (cache : DnsCache) (permit : Bool) (q : Asking P) :
    (refreshStale ctx cache permit q).1.entries = cache.entries := by
  unfold refreshStale
  split
  · simp only
    split <;> exact DnsCache.entries_beginRefresh cache _
  · rfl

/-- A hit is an entry of the cache. -/
theorem mem_of_cacheHit {cache : DnsCache} {q : Asking P} {now : ℕ} {cached : DnsResponse}
    {remaining : UInt32} {stale : Bool}
    (h : cacheHit cache now q = some (cached, remaining, stale)) :
    ∃ key e, (key, e) ∈ cache.entries ∧ e.response = cached := by
  unfold cacheHit at h
  rcases Option.or_eq_some_iff.1 h with h | ⟨-, h⟩
  · obtain ⟨⟨resp, rem⟩, hget, heq⟩ := Option.map_eq_some_iff.1 h
    cases heq
    exact DnsCache.mem_of_getWithRemaining hget
  · obtain ⟨resp, hget, heq⟩ := Option.map_eq_some_iff.1 h
    cases heq
    exact DnsCache.mem_of_getStale hget

section Steps

variable {ctx : DnsCtx P} (hcodec : ctx.codec.KeepsTtls) {cache : DnsCache}
  (hcache : CacheClean cache) (q : Asking P)

include hcodec hcache

theorem blockedOutcome_good (upstream : Option Text) (refresh : Option Refresh) :
    (blockedOutcome ctx cache q upstream refresh).Good q.clientTtl :=
  ⟨buildBlocked_ttls hcodec q.raw q.qtype q.clientTtl ctx.lists.blockAnswer, hcache⟩

theorem stepCustom_good (now : ℕ) : ∀ o ∈ stepCustom ctx cache now q, o.Good q.clientTtl := by
  intro o ho
  obtain ⟨resp, hresp, rfl⟩ := Option.map_eq_some_iff.1 ho
  have hclean := clean_lookup hcodec hresp
  exact ⟨capTtls_ttls (clean_setId hclean _) _, hcache.insert hclean _ _ _ _⟩

theorem stepCanary_good : ∀ o ∈ stepCanary ctx cache q, o.Good q.clientTtl := by
  intro o ho
  obtain ⟨reason, -, rfl⟩ := Option.map_eq_some_iff.1 ho
  exact ⟨buildNegative_ttls hcodec q.raw q.clientTtl nxDomain, hcache⟩

theorem stepBlocklist_good : ∀ o ∈ stepBlocklist ctx cache q, o.Good q.clientTtl := by
  intro o ho
  unfold stepBlocklist at ho
  split at ho
  · cases ho
    exact blockedOutcome_good hcodec hcache q none none
  · cases ho

theorem stepSafeSearch_good (now : ℕ) :
    ∀ o ∈ stepSafeSearch ctx cache now q, o.Good q.clientTtl := by
  intro o ho
  unfold stepSafeSearch at ho
  split at ho
  · obtain ⟨target, -, rfl⟩ := Option.map_eq_some_iff.1 ho
    simp only
    split
    · rename_i bytes remaining hhit
      obtain ⟨⟨cached, remaining'⟩, -, hmap⟩ := Option.bind_eq_some_iff.1 hhit
      obtain ⟨out, hout, heq⟩ := Option.map_eq_some_iff.1 hmap
      cases heq
      exact ⟨(capTtls_ttls (clean_rewriteAnswer hcodec hout) _).mono Std.min_le_right, hcache⟩
    · exact ⟨rfl, hcache⟩
  · cases ho

theorem stepRouting_good : ∀ o ∈ stepRouting ctx cache q, o.Good q.clientTtl := by
  intro o ho
  simp only [stepRouting, Option.mem_def] at ho
  split at ho
  · obtain ⟨⟨resp, egressId⟩, hint, rfl⟩ := Option.map_eq_some_iff.1 ho
    have hclean : Clean resp.bytes := by
      unfold maybeIntercept at hint
      split at hint
      · cases hint
      · simp only [Option.bind_eq_bind, Option.bind_eq_some_iff] at hint
        obtain ⟨_, -, query, -, hresp⟩ := hint
        cases hresp
        exact clean_synthResponse hcodec query q.qtype _ _
    exact ⟨capTtls_ttls (clean_setId hclean _) _, hcache⟩
  · cases ho

theorem stepCache_good (now : ℕ) (permit : Bool) :
    ∀ o ∈ stepCache ctx cache now permit q, o.Good q.clientTtl := by
  intro o ho
  obtain ⟨⟨cached, remaining, stale⟩, hhit, rfl⟩ := Option.map_eq_some_iff.1 ho
  have hleft : CacheClean (if stale = true then refreshStale ctx cache permit q
      else (cache, none)).1 := by
    split
    · intro e he
      rw [entries_refreshStale] at he
      exact hcache e he
    · exact hcache
  simp only
  split
  · exact blockedOutcome_good hcodec hleft q _ _
  · refine ⟨?_, hleft⟩
    obtain ⟨key, e, he, rfl⟩ := mem_of_cacheHit hhit
    exact (patchCached_ttls (hcache _ he) _ _).mono Std.min_le_right

theorem settle_good (now : ℕ) (permit : Bool) :
    (settle ctx cache now permit q).Good q.clientTtl := by
  have hsteps := good_or (good_or (good_or (good_or (good_or
    (stepCustom_good hcodec hcache q now) (stepCanary_good hcodec hcache q))
    (stepBlocklist_good hcodec hcache q)) (stepSafeSearch_good hcodec hcache q now))
    (stepRouting_good hcodec hcache q)) (stepCache_good hcodec hcache q now permit)
  unfold settle
  revert hsteps
  generalize ((((((stepCustom ctx cache now q).or (stepCanary ctx cache q)).or
    (stepBlocklist ctx cache q)).or (stepSafeSearch ctx cache now q)).or
    (stepRouting ctx cache q)).or (stepCache ctx cache now permit q)) = settled
  intro hsteps
  cases settled with
  | some o => exact hsteps o rfl
  | none => exact ⟨rfl, hcache⟩

omit q

theorem decideAs_good (now : ℕ) (verdict : Verdict) (permit : Bool) (raw : Bytes) (src : IpAddr)
    (clientId : Option Text) :
    (decideAs ctx cache now verdict permit raw src clientId).Good ctx.clientTtl := by
  unfold decideAs
  cases verdict with
  | drop => exact ⟨trivial, hcache⟩
  | refuse => exact ⟨buildError_ttls hcodec raw refused ctx.clientTtl, hcache⟩
  | pass =>
    have hservfail : TtlsAtMost ctx.clientTtl (buildServfail ctx.codec raw) :=
      buildError_ttls hcodec raw servFail ctx.clientTtl
    simp only
    split
    · exact ⟨hservfail, hcache⟩
    · split
      · rename_i name qtype _
        exact settle_good hcodec hcache (identify ctx raw src clientId name qtype) now permit
      · split
        · exact ⟨hservfail, hcache⟩
        · exact ⟨trivial, hcache⟩

theorem resolveSafeHost_good (now : ℕ) (raw : Bytes) (name : Text) (qtype : UInt16) (target : Text)
    (reply : Option (Bytes × Text)) :
    Clean (resolveSafeHost ctx cache now raw name qtype target reply).1 ∧
      CacheClean (resolveSafeHost ctx cache now raw name qtype target reply).2 := by
  have hservfail : Clean (buildServfail ctx.codec raw) :=
    (buildError_ttls hcodec raw servFail 0).clean
  unfold resolveSafeHost
  split
  · split
    · rename_i bytes _ _ _ rc hrc
      constructor
      · cases hre : rewriteAnswer ctx.codec raw name target bytes with
        | none => exact hservfail
        | some out => exact clean_rewriteAnswer hcodec hre
      · simp only
        split
        · exact hcache.cacheAnswer (clean_of_rcode hrc) now target qtype false
        · exact hcache
    · exact ⟨hservfail, hcache⟩
  · exact ⟨hservfail, hcache⟩

theorem resolveUpstream_good (now : ℕ) (raw : Bytes) (p : Pending P)
    (reply : Option (Bytes × Text)) :
    TtlsAtMost p.clientTtl (resolveUpstream ctx cache now raw p reply).bytes ∧
      CacheClean (resolveUpstream ctx cache now raw p reply).cache := by
  unfold resolveUpstream
  split
  · rename_i target _
    obtain ⟨hbytes, hleft⟩ :=
      resolveSafeHost_good hcodec hcache now raw p.name p.qtype target reply
    exact ⟨capTtls_ttls hbytes p.clientTtl, hleft⟩
  · have hclean := clean_withoutEch hcodec ctx.switches (clean_readReply hcodec raw reply) p.qtype
    generalize readReply ctx.codec raw reply = r at hclean ⊢
    obtain ⟨response, rc, label⟩ := r
    simp only at hclean ⊢
    split
    · exact ⟨buildBlocked_ttls hcodec raw p.qtype p.clientTtl ctx.lists.blockAnswer, hcache⟩
    · refine ⟨capTtls_ttls hclean p.clientTtl, ?_⟩
      split
      · exact hcache.cacheAnswer hclean now p.name p.qtype p.wantDnssec
      · exact hcache

theorem cacheClean_finishRefresh (now : ℕ) (r : Refresh) (reply : Option Bytes) :
    CacheClean (finishRefresh ctx cache now r reply) := by
  intro e he
  unfold finishRefresh at he
  rw [DnsCache.entries_endRefresh] at he
  split at he
  · split at he
    · rename_i bytes hrc
      exact hcache.cacheAnswer (clean_withoutEch hcodec ctx.switches (clean_of_rcode hrc) r.qtype)
        now r.name r.qtype r.wantDnssec e he
    · exact hcache e he
  · exact hcache e he

end Steps

/-! ## Whole runs -/

/-- A query that waits for the upstream, with the ceiling in force when it came in. -/
structure Waiting (P : Type) where
  ceiling : UInt32
  raw : Bytes
  pending : Pending P

/-- The pipeline between two events: its cache, the queries that wait and the
refreshes that run. -/
structure Pipeline (P : Type) where
  cache : DnsCache
  waiting : List (Waiting P)
  refreshes : List Refresh

/-- What can happen to the pipeline: a query comes in, the upstream answers a waiting
one or a refresh, or the cache is tended.  Lists, switches and `client_ttl` may be
others at every event. -/
inductive Event (P : Type) where
  | query (ctx : DnsCtx P) (now : ℕ) (verdict : Verdict) (permit : Bool) (raw : Bytes)
      (src : IpAddr) (clientId : Option Text)
  | reply (ctx : DnsCtx P) (now : ℕ) (i : ℕ) (reply : Option (Bytes × Text))
  | refreshed (ctx : DnsCtx P) (now : ℕ) (i : ℕ) (reply : Option Bytes)
  | evictExpired (now : ℕ)
  | forgetName (name : Text)
  | resize (capacity maxBytes : ℕ)
  | clear
  | setTtlBounds (minT maxT : ℕ)
  | setStaleWindow (secs : ℕ)

/-- The codec an event works with. -/
def Event.UsesCodec (codec : Codec) : Event P → Prop
  | .query ctx .. | .reply ctx .. | .refreshed ctx .. => ctx.codec = codec
  | _ => True

/-- One event: the pipeline after it, and the answer sent, with the ceiling that was in
force when the query came in. -/
def pipelineStep (s : Pipeline P) : Event P → Pipeline P × Option (UInt32 × Bytes)
  | .query ctx now verdict permit raw src clientId =>
    let o := decideAs ctx s.cache now verdict permit raw src clientId
    let s := { s with cache := o.cache, refreshes := s.refreshes ++ o.refresh.toList }
    match o.decision with
    | .answer bytes => (s, some (ctx.clientTtl, bytes))
    | .upstream p => ({ s with waiting := s.waiting ++ [⟨ctx.clientTtl, raw, p⟩] }, none)
    | .drop => (s, none)
  | .reply ctx now i reply =>
    match s.waiting[i]? with
    | some w =>
      let r := resolveUpstream ctx s.cache now w.raw w.pending reply
      ({ s with cache := r.cache, waiting := s.waiting.eraseIdx i }, some (w.ceiling, r.bytes))
    | none => (s, none)
  | .refreshed ctx now i reply =>
    match s.refreshes[i]? with
    | some r =>
      ({ s with cache := finishRefresh ctx s.cache now r reply,
                refreshes := s.refreshes.eraseIdx i }, none)
    | none => (s, none)
  | .evictExpired now => ({ s with cache := s.cache.evictExpired now }, none)
  | .forgetName name => ({ s with cache := s.cache.forgetName name }, none)
  | .resize capacity maxBytes => ({ s with cache := s.cache.resize capacity maxBytes }, none)
  | .clear => ({ s with cache := s.cache.clear }, none)
  | .setTtlBounds minT maxT => ({ s with cache := s.cache.setTtlBounds minT maxT }, none)
  | .setStaleWindow secs => ({ s with cache := s.cache.setStaleWindow secs }, none)

/-- What holds between events: the cache is clean, and every waiting query carries the
ceiling it came in under. -/
structure Pipeline.Inv (s : Pipeline P) : Prop where
  clean : CacheClean s.cache
  carried : ∀ w ∈ s.waiting, w.pending.clientTtl = w.ceiling

/-- One event keeps the invariant, and what it answers is under the ceiling. -/
theorem pipelineStep_inv {codec : Codec} (hcodec : codec.KeepsTtls) {s : Pipeline P} {e : Event P}
    (he : e.UsesCodec codec) (hs : s.Inv) :
    (pipelineStep s e).1.Inv ∧
      ∀ ttl bytes, (pipelineStep s e).2 = some (ttl, bytes) → TtlsAtMost ttl bytes := by
  cases e with
  | query ctx now verdict permit raw src clientId =>
    cases he
    obtain ⟨hunder, hclean⟩ :=
      decideAs_good hcodec hs.clean now verdict permit raw src clientId
    simp only [pipelineStep]
    cases hd : (decideAs ctx s.cache now verdict permit raw src clientId).decision with
    | answer bytes =>
      rw [hd] at hunder
      refine ⟨⟨hclean, hs.carried⟩, fun ttl bytes' h => ?_⟩
      cases h
      exact hunder
    | upstream p =>
      rw [hd] at hunder
      refine ⟨⟨hclean, fun w hw => ?_⟩, fun ttl bytes h => by cases h⟩
      rcases List.mem_append.1 hw with hw | hw
      · exact hs.carried w hw
      · obtain rfl := List.mem_singleton.1 hw
        exact hunder
    | drop => exact ⟨⟨hclean, hs.carried⟩, fun ttl bytes h => by cases h⟩
  | reply ctx now i reply =>
    cases he
    simp only [pipelineStep]
    cases hw : s.waiting[i]? with
    | none => exact ⟨hs, fun ttl bytes h => by cases h⟩
    | some w =>
      obtain ⟨hunder, hclean⟩ := resolveUpstream_good hcodec hs.clean now w.raw w.pending reply
      refine ⟨⟨hclean, fun w' hw' => hs.carried w' (List.mem_of_mem_eraseIdx hw')⟩,
        fun ttl bytes h => ?_⟩
      cases h
      rw [← hs.carried w (List.mem_of_getElem? hw)]
      exact hunder
  | refreshed ctx now i reply =>
    cases he
    simp only [pipelineStep]
    cases hr : s.refreshes[i]? with
    | none => exact ⟨hs, fun ttl bytes h => by cases h⟩
    | some r =>
      exact ⟨⟨cacheClean_finishRefresh hcodec hs.clean now r reply, hs.carried⟩,
        fun ttl bytes h => by cases h⟩
  | evictExpired now =>
    exact ⟨⟨fun e he => hs.clean e (DnsCache.mem_of_mem_evictExpired he), hs.carried⟩,
      fun ttl bytes h => by cases h⟩
  | forgetName name =>
    exact ⟨⟨fun e he => hs.clean e (DnsCache.mem_of_mem_forgetName he), hs.carried⟩,
      fun ttl bytes h => by cases h⟩
  | resize capacity maxBytes =>
    exact ⟨⟨fun e he => hs.clean e (DnsCache.mem_of_mem_resize he), hs.carried⟩,
      fun ttl bytes h => by cases h⟩
  | clear => exact ⟨⟨fun e he => (by cases he), hs.carried⟩, fun ttl bytes h => by cases h⟩
  | setTtlBounds minT maxT => exact ⟨⟨hs.clean, hs.carried⟩, fun ttl bytes h => by cases h⟩
  | setStaleWindow secs => exact ⟨⟨hs.clean, hs.carried⟩, fun ttl bytes h => by cases h⟩

/-- The lifetime an SOA gives a negative answer. -/
def negativeLifetime (msg : Bytes) (r : RecordRef) : UInt32 :=
  min (msg.readU32 r.ttlOff) (msg.readU32 (r.rdataOff + r.rdataLen - 4))

/-- The answer is empty, or walks cleanly to records of which none but OPT outlives the
ceiling, and no SOA in it lets a negative answer outlive it. -/
def UnderCeiling (ttl : UInt32) (msg : Bytes) : Prop :=
  msg = [] ∨ ∃ rs, walk msg = some (rs, true) ∧ ∀ r ∈ rs, r.rtype ≠ typeOpt →
    msg.readU32 r.ttlOff ≤ ttl ∧ (r.rtype = typeSoa → negativeLifetime msg r ≤ ttl)

theorem TtlsAtMost.underCeiling {ttl : UInt32} {msg : Bytes} (h : TtlsAtMost ttl msg) :
    UnderCeiling ttl msg := by
  rcases h with h | ⟨rs, hw, hrs⟩
  · exact Or.inl h
  · refine Or.inr ⟨rs, hw, fun r hr hopt => ⟨hrs r hr hopt, fun _ => ?_⟩⟩
    exact UInt32.le_trans Std.min_le_left (hrs r hr hopt)

/-- A pipeline that has served nothing. -/
def Pipeline.start (capacity maxBytes minT maxT : ℕ) : Pipeline P :=
  ⟨DnsCache.new capacity maxBytes minT maxT, [], []⟩

/-- **The ceiling.**  In every run of the pipeline, from an empty cache on, every answer
`decide` or `resolve_upstream` gives is under the `client_ttl` that was in force when
its query came in. -/
theorem every_answer_under_ceiling {codec : Codec} (hcodec : codec.KeepsTtls)
    (capacity maxBytes minT maxT : ℕ) {es : List (Event P)} (hes : ∀ e ∈ es, e.UsesCodec codec)
    {x : Entry (Pipeline P) (Event P) (Option (UInt32 × Bytes))}
    (hx : x ∈ trace pipelineStep (Pipeline.start capacity maxBytes minT maxT) es)
    {ttl : UInt32} {bytes : Bytes} (hout : x.output = some (ttl, bytes)) :
    UnderCeiling ttl bytes := by
  have hstart : (Pipeline.start capacity maxBytes minT maxT : Pipeline P).Inv :=
    ⟨fun e he => (by cases he), fun w hw => (by cases hw)⟩
  have hcodecs : ∀ y ∈ trace pipelineStep (Pipeline.start capacity maxBytes minT maxT) es,
      y.event.UsesCodec codec := by
    intro y hy
    refine hes _ ?_
    rw [← map_event_trace pipelineStep (Pipeline.start capacity maxBytes minT maxT) es]
    exact List.mem_map_of_mem hy
  have hkeep : ∀ (s : Pipeline P) (e : Event P), e.UsesCodec codec → s.Inv →
      (pipelineStep s e).1.Inv := fun s e he hs => (pipelineStep_inv hcodec he hs).1
  have hinv := inv_of_mem_trace pipelineStep hkeep hstart hcodecs hx
  have hstep := step_of_mem_trace pipelineStep hx
  refine ((pipelineStep_inv hcodec (hcodecs x hx) hinv.1).2 ttl bytes ?_).underCeiling
  rw [hstep]
  exact hout

namespace Example

/-- Filtering off, nothing routed, a ceiling of one minute. -/
def ctx : DnsCtx Unit where
  codec := codec
  switches := switches
  lists := ⟨false, false, false, fun _ _ => false, fun _ _ => none, fun _ _ => false,
    fun _ _ => false, fun _ _ => none, ⟨.nxdomain, none, none⟩⟩
  customRecords := ⟨[], [], []⟩
  clients := ⟨fun _ => none, fun _ => none⟩
  routing := ⟨false, false, (none, none), (none, none), fun _ _ _ _ => none⟩
  logIgnore := []
  clientTtl := 60

/-- The answer `192.0.2.1` to the stub's query, with the given TTL. -/
def address (ttl : UInt32) : Bytes :=
  [0x12, 0x34, 0x81, 0x80, 0, 1, 0, 1, 0, 0, 0, 0, 1, 0x78, 0, 0, 1, 0, 1] ++
    [0xC0, 12, 0, 1, 0, 1] ++ ofU32 ttl ++ [0, 4, 192, 0, 2, 1]

def host : IpAddr := .v4 ⟨192, 168, 1, 20⟩

/-- The stub asks, the upstream answers with ten minutes, and the stub asks again a
second later. -/
def events : List (Event Unit) :=
  [.query ctx 0 .pass true stub host none,
    .reply ctx 0 0 (some (address 600, ['u'])),
    .query ctx nanos .pass true stub host none]

end Example

/-- The second query is answered from the cache, with the ceiling for a TTL. -/
theorem cached_answer_under_ceiling :
    ∃ x ∈ trace pipelineStep (Pipeline.start 10 0 0 0) Example.events,
      x.output = some (60, Example.address 60) ∧ UnderCeiling 60 (Example.address 60) := by
  have hcodec : Example.codec.KeepsTtls := keepsTtls_ofRows (by decide +kernel)
  have hes : ∀ e ∈ Example.events, e.UsesCodec Example.codec := by
    intro e he
    simp only [Example.events, List.mem_cons, List.not_mem_nil, or_false] at he
    rcases he with rfl | rfl | rfl <;> rfl
  have hget : (trace pipelineStep (Pipeline.start 10 0 0 0) Example.events)[2]?.map Entry.output =
      some (some (60, Example.address 60)) := by decide +kernel
  obtain ⟨x, hx, hout⟩ := Option.map_eq_some_iff.1 hget
  have hmem := List.mem_of_getElem? hx
  exact ⟨x, hmem, hout, every_answer_under_ceiling hcodec 10 0 0 0 hes hmem hout⟩

end Ferrite.Dns
