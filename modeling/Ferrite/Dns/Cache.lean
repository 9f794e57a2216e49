import Ferrite.Lib.Lru
import Ferrite.Core.Text
import Ferrite.Lib.Bytes

/-!
# The DNS response cache

`dns/src/cache.rs`: an LRU map from cache keys to wire-format answers, bounded by a
number of entries and by a number of bytes, with a clamp on how long an answer is
kept and a window in which an expired one may still be served.

Times are nanoseconds of the monotonic clock, as `Instant` has them.  What later
results need of an operation is which entries it can leave (`mem_of_mem_insert` and
its siblings): only `insert` brings one in.
-/

namespace Ferrite.Dns

/-- Nanoseconds in a second. -/
def nanos : ℕ := 10 ^ 9

def minTtl : ℕ := 0
def maxTtl : ℕ := 3600

/-- The TTL a stale answer goes out with. -/
def staleAnswerTtl : UInt32 := 30

/-- The longest an entry may be served past its expiry, in seconds. -/
def maxStaleAge : ℕ := 7 * 24 * 3600

/-- The fixed cost of an entry against the byte budget. -/
def entryOverhead : ℕ := 128

def usizeMax : ℕ := 2 ^ 64 - 1

/-- `DnsResponse`. -/
structure DnsResponse where
  bytes : Bytes
  ttl : UInt32
deriving DecidableEq, Repr

/-- `CacheEntry`. -/
structure CacheEntry where
  response : DnsResponse
  expiresAt : ℕ
deriving DecidableEq, Repr

/-- `CacheEntry::is_expired`. -/
def CacheEntry.isExpired (e : CacheEntry) (now : ℕ) : Bool := e.expiresAt ≤ now

/-- `entry_cost`. -/
def entryCost (key : Text) (e : CacheEntry) : ℕ :=
  key.byteLen + e.response.bytes.length + entryOverhead

/-! ## The map with its byte accounting -/

/-- `Inner`. -/
structure Inner where
  lru : Lru Text CacheEntry
  totalBytes : ℕ

namespace Inner

/-- `Inner::pop`. -/
def pop (s : Inner) (key : Text) : Inner :=
  match s.lru.peek key with
  | some v => ⟨s.lru.pop key, s.totalBytes - entryCost key v⟩
  | none => s

/-- The least recently used entry goes, with its bytes. -/
def popLru (s : Inner) : Inner :=
  match s.lru.entries.getLast? with
  | some (k, v) => ⟨s.lru.popLru, s.totalBytes - entryCost k v⟩
  | none => s

/-- The eviction loop: while over the budget and not down to one entry. -/
def shrink (maxBytes : ℕ) : ℕ → Inner → Inner
  | 0, s => s
  | n + 1, s =>
    if maxBytes < s.totalBytes ∧ 1 < s.lru.entries.length then shrink maxBytes n s.popLru else s

/-- `Inner::put`: insert, then shrink back under the byte budget. -/
def put (s : Inner) (key : Text) (e : CacheEntry) (maxBytes : ℕ) : Inner :=
  let total := s.totalBytes + entryCost key e
  let total := match s.lru.displaced key with
    | some (k, v) => total - entryCost k v
    | none => total
  let s : Inner := ⟨s.lru.put key e, total⟩
  s.shrink maxBytes s.lru.entries.length

/-- Pop every key of a list, as the evictions do. -/
def popAll (s : Inner) (keys : List Text) : Inner := keys.foldl Inner.pop s

/-- The loop of `resize`: down to the capacity, coldest first. -/
def trim (cap : ℕ) : ℕ → Inner → Inner
  | 0, s => s
  | n + 1, s => if cap < s.lru.entries.length then trim cap n s.popLru else s

theorem mem_of_mem_pop {s : Inner} {key : Text} {e : Text × CacheEntry}
    (h : e ∈ (s.pop key).lru.entries) : e ∈ s.lru.entries := by
  unfold pop at h
  split at h
  · exact (Lru.mem_pop_iff.1 h).1
  · exact h

theorem mem_of_mem_popLru {s : Inner} {e : Text × CacheEntry}
    (h : e ∈ s.popLru.lru.entries) : e ∈ s.lru.entries := by
  unfold popLru at h
  split at h
  · exact Lru.mem_of_mem_popLru h
  · exact h

theorem mem_of_mem_shrink {maxBytes n : ℕ} {s : Inner} {e : Text × CacheEntry}
    (h : e ∈ (s.shrink maxBytes n).lru.entries) : e ∈ s.lru.entries := by
  induction n generalizing s with
  | zero => exact h
  | succ n ih =>
    unfold shrink at h
    split at h
    · exact mem_of_mem_popLru (ih h)
    · exact h

theorem mem_of_mem_trim {cap n : ℕ} {s : Inner} {e : Text × CacheEntry}
    (h : e ∈ (s.trim cap n).lru.entries) : e ∈ s.lru.entries := by
  induction n generalizing s with
  | zero => exact h
  | succ n ih =>
    unfold trim at h
    split at h
    · exact mem_of_mem_popLru (ih h)
    · exact h

theorem mem_of_mem_put {s : Inner} {key : Text} {v : CacheEntry} {maxBytes : ℕ}
    {e : Text × CacheEntry} (h : e ∈ (s.put key v maxBytes).lru.entries) :
    e = (key, v) ∨ e ∈ s.lru.entries := by
  rcases Lru.mem_of_mem_put (mem_of_mem_shrink h) with h | h
  · exact Or.inl h
  · exact Or.inr h.1

theorem ne_of_mem_pop {s : Inner} {key : Text} {e : Text × CacheEntry}
    (h : e ∈ (s.pop key).lru.entries) : e.1 ≠ key := by
  unfold pop at h
  split at h
  · exact (Lru.mem_pop_iff.1 h).2
  · rename_i hnone
    rintro rfl
    rw [Lru.peek_eq_some_iff.2 h] at hnone
    cases hnone

theorem mem_of_mem_popAll {keys : List Text} {s : Inner} {e : Text × CacheEntry}
    (h : e ∈ (s.popAll keys).lru.entries) : e ∈ s.lru.entries := by
  induction keys generalizing s with
  | nil => exact h
  | cons k keys ih => exact mem_of_mem_pop (ih h)

theorem mem_pop_of_ne {s : Inner} {key : Text} {e : Text × CacheEntry} (h : e ∈ s.lru.entries)
    (hne : e.1 ≠ key) : e ∈ (s.pop key).lru.entries := by
  unfold pop
  split
  · exact Lru.mem_pop_iff.2 ⟨h, hne⟩
  · exact h

/-- What is not popped stays. -/
theorem mem_popAll_of_notMem {keys : List Text} {s : Inner} {e : Text × CacheEntry}
    (h : e ∈ s.lru.entries) (hkeys : e.1 ∉ keys) : e ∈ (s.popAll keys).lru.entries := by
  induction keys generalizing s with
  | nil => exact h
  | cons k keys ih =>
    rw [List.mem_cons, not_or] at hkeys
    exact ih (mem_pop_of_ne h hkeys.1) hkeys.2

/-- What is popped is gone. -/
theorem notMem_of_mem_popAll {keys : List Text} {s : Inner} {e : Text × CacheEntry}
    (h : e ∈ (s.popAll keys).lru.entries) : e.1 ∉ keys := by
  induction keys generalizing s with
  | nil => exact List.not_mem_nil
  | cons k keys ih =>
    rw [List.mem_cons, not_or]
    exact ⟨ne_of_mem_pop (mem_of_mem_popAll h), ih h⟩

end Inner

/-! ## The cache -/

/-- `DnsCache`. -/
structure DnsCache where
  inner : Inner
  maxBytes : ℕ
  minSecs : ℕ
  maxSecs : ℕ
  staleWindow : ℕ
  refreshing : List Text

/-- `byte_budget`: zero means no byte bound. -/
def byteBudget (maxBytes : ℕ) : ℕ := if maxBytes = 0 then usizeMax else maxBytes

/-- `normalize_ttl_bounds`: a ceiling of zero means none. -/
def normalizeTtlBounds (minT maxT : ℕ) : ℕ × ℕ :=
  let maxT := if maxT = 0 then maxTtl else maxT
  let minSecs := min (max minT minTtl) maxTtl
  (minSecs, max (min (max maxT minTtl) maxTtl) minSecs)

namespace DnsCache

/-- `DnsCache::new`. -/
def new (capacity maxBytes minT maxT : ℕ) : DnsCache where
  inner := ⟨Lru.empty capacity, 0⟩
  maxBytes := byteBudget maxBytes
  minSecs := (normalizeTtlBounds minT maxT).1
  maxSecs := (normalizeTtlBounds minT maxT).2
  staleWindow := 0
  refreshing := []

/-- The entries present. -/
def entries (c : DnsCache) : List (Text × CacheEntry) := c.inner.lru.entries

/-- `set_stale_window`. -/
def setStaleWindow (c : DnsCache) (secs : ℕ) : DnsCache :=
  { c with staleWindow := min secs maxStaleAge }

/-- `set_ttl_bounds`. -/
def setTtlBounds (c : DnsCache) (minT maxT : ℕ) : DnsCache :=
  { c with minSecs := (normalizeTtlBounds minT maxT).1, maxSecs := (normalizeTtlBounds minT maxT).2 }

/-- `cache_key`. -/
def cacheKey (name : Text) (qtype : UInt16) (dnssec : Bool) : Text :=
  name.toAsciiLowercase ++ '/' :: Nat.toDigits 10 qtype.toNat ++
    if dnssec then ['/', 'd', 'o'] else []

/-- `get_stale`. -/
def getStale (c : DnsCache) (name : Text) (qtype : UInt16) (dnssec : Bool) (now : ℕ) :
    Option DnsResponse :=
  if c.staleWindow = 0 then none
  else
    match c.inner.lru.peek (cacheKey name qtype dnssec) with
    | some e =>
      if e.expiresAt ≤ now ∧ now < e.expiresAt + c.staleWindow * nanos then some e.response
      else none
    | none => none

/-- `get_with_remaining`: a fresh entry and its remaining whole seconds. -/
def getWithRemaining (c : DnsCache) (name : Text) (qtype : UInt16) (dnssec : Bool) (now : ℕ) :
    Option (DnsResponse × UInt32) :=
  match c.inner.lru.peek (cacheKey name qtype dnssec) with
  | some e =>
    if e.isExpired now then none
    else some (e.response, UInt32.ofNat (min ((e.expiresAt - now) / nanos) (2 ^ 32 - 1)))
  | none => none

/-- `insert`. -/
def insert (c : DnsCache) (name : Text) (qtype : UInt16) (dnssec : Bool) (response : DnsResponse)
    (now : ℕ) : DnsCache :=
  let clamped := min (max response.ttl.toNat c.minSecs) c.maxSecs
  let e : CacheEntry := ⟨response, now + clamped * nanos⟩
  { c with inner := c.inner.put (cacheKey name qtype dnssec) e c.maxBytes }

/-- `begin_refresh`: claim the refresh of a key, if nobody has it. -/
def beginRefresh (c : DnsCache) (key : Text) : Bool × DnsCache :=
  if key ∈ c.refreshing then (false, c) else (true, { c with refreshing := key :: c.refreshing })

/-- `end_refresh`. -/
def endRefresh (c : DnsCache) (key : Text) : DnsCache :=
  { c with refreshing := c.refreshing.filter (· ≠ key) }

/-- `evict_expired`: what is past the stale window goes. -/
def evictExpired (c : DnsCache) (now : ℕ) : DnsCache :=
  let dead := c.entries.filter fun e => e.2.expiresAt + c.staleWindow * nanos ≤ now
  { c with inner := c.inner.popAll (dead.map Prod.fst) }

/-- `forget_name`: every answer for a name, whatever its type. -/
def forgetName (c : DnsCache) (name : Text) : DnsCache :=
  let pre := (name.trimEndMatches (· == '.')).toAsciiLowercase ++ ['/']
  let gone := c.entries.filter fun e => pre.isPrefixOf e.1
  { c with inner := c.inner.popAll (gone.map Prod.fst) }

/-- `evict`. -/
def evict (c : DnsCache) (name : Text) (qtype : UInt16) (dnssec : Bool) : DnsCache :=
  { c with inner := c.inner.pop (cacheKey name qtype dnssec) }

/-- `evict_domain`: like `forget_name`, for a name without a root dot. -/
def evictDomain (c : DnsCache) (name : Text) : DnsCache :=
  let pre := name.toAsciiLowercase ++ ['/']
  let gone := c.entries.filter fun e => pre.isPrefixOf e.1
  { c with inner := c.inner.popAll (gone.map Prod.fst) }

/-- `resize`. -/
def resize (c : DnsCache) (capacity maxBytes : ℕ) : DnsCache :=
  let budget := byteBudget maxBytes
  let s := c.inner.trim (max capacity 1) c.entries.length
  let s : Inner := ⟨s.lru.resize capacity, s.totalBytes⟩
  { c with maxBytes := budget, inner := s.shrink budget s.lru.entries.length }

/-- `clear`. -/
def clear (c : DnsCache) : DnsCache := { c with inner := ⟨c.inner.lru.clear, 0⟩ }

/-- `snapshot`: the entries that have not expired, the most recently used first. -/
def snapshot (c : DnsCache) (now : ℕ) : List (Text × DnsResponse × ℕ) :=
  (c.entries.filter fun e => now < e.2.expiresAt).map fun e => (e.1, e.2.response, e.2.expiresAt)

/-- The entry `restore` makes of a row, unless it has expired: the wall clock says how
long it has left, the monotonic clock when that is. -/
def restored (nowInstant : ℕ) (nowUnix : ℤ) (row : Text × Bytes × UInt32 × ℤ) :
    Option (Text × CacheEntry) :=
  let (key, bytes, ttl, expiresUnix) := row
  let remainingSecs := expiresUnix - nowUnix
  if remainingSecs ≤ 0 then none
  else some (key, ⟨⟨bytes, ttl⟩, nowInstant + remainingSecs.toNat * nanos⟩)

/-- `restore`. -/
def restore (c : DnsCache) (rows : List (Text × Bytes × UInt32 × ℤ)) (nowInstant : ℕ)
    (nowUnix : ℤ) : DnsCache :=
  let entries := rows.filterMap (restored nowInstant nowUnix)
  { c with inner := entries.foldl (fun s e => s.put e.1 e.2 c.maxBytes) c.inner }

/-! ## What an operation leaves in the cache -/

theorem mem_of_getStale {c : DnsCache} {name : Text} {qtype : UInt16} {dnssec : Bool} {now : ℕ}
    {response : DnsResponse} (h : c.getStale name qtype dnssec now = some response) :
    ∃ key e, (key, e) ∈ c.entries ∧ e.response = response := by
  unfold getStale at h
  split at h
  · cases h
  · split at h
    · rename_i e he
      split at h
      · exact ⟨_, e, Lru.peek_eq_some_iff.1 he, Option.some.inj h⟩
      · cases h
    · cases h

theorem mem_of_getWithRemaining {c : DnsCache} {name : Text} {qtype : UInt16} {dnssec : Bool}
    {now : ℕ} {response : DnsResponse} {remaining : UInt32}
    (h : c.getWithRemaining name qtype dnssec now = some (response, remaining)) :
    ∃ key e, (key, e) ∈ c.entries ∧ e.response = response := by
  unfold getWithRemaining at h
  split at h
  · rename_i e he
    split at h
    · cases h
    · exact ⟨_, e, Lru.peek_eq_some_iff.1 he, (Prod.mk.inj (Option.some.inj h)).1⟩
  · cases h

/-- Only `insert` brings a response in. -/
theorem mem_of_mem_insert {c : DnsCache} {name : Text} {qtype : UInt16} {dnssec : Bool}
    {response : DnsResponse} {now : ℕ} {e : Text × CacheEntry}
    (h : e ∈ (c.insert name qtype dnssec response now).entries) :
    e.2.response = response ∨ e ∈ c.entries := by
  rcases Inner.mem_of_mem_put h with rfl | h
  · exact Or.inl rfl
  · exact Or.inr h

@[simp] theorem entries_beginRefresh (c : DnsCache) (key : Text) :
    (c.beginRefresh key).2.entries = c.entries := by
  unfold beginRefresh
  split <;> rfl

@[simp] theorem entries_endRefresh (c : DnsCache) (key : Text) :
    (c.endRefresh key).entries = c.entries := rfl

theorem mem_of_mem_evictExpired {c : DnsCache} {now : ℕ} {e : Text × CacheEntry}
    (h : e ∈ (c.evictExpired now).entries) : e ∈ c.entries := Inner.mem_of_mem_popAll h

theorem mem_of_mem_forgetName {c : DnsCache} {name : Text} {e : Text × CacheEntry}
    (h : e ∈ (c.forgetName name).entries) : e ∈ c.entries := Inner.mem_of_mem_popAll h

/-- The evictions by name leave the keys that do not start with the text, and no others. -/
theorem mem_popUnder_iff {c : DnsCache} {pre : Text} {e : Text × CacheEntry} :
    e ∈ (c.inner.popAll ((c.entries.filter fun e => pre.isPrefixOf e.1).map Prod.fst)).lru.entries ↔
      e ∈ c.entries ∧ pre.isPrefixOf e.1 = false := by
  constructor
  · intro h
    have hold : e ∈ c.entries := Inner.mem_of_mem_popAll h
    refine ⟨hold, Bool.eq_false_iff.2 fun hpre => Inner.notMem_of_mem_popAll h ?_⟩
    exact List.mem_map_of_mem (List.mem_filter.2 ⟨hold, hpre⟩)
  · rintro ⟨hold, hpre⟩
    refine Inner.mem_popAll_of_notMem hold ?_
    intro hmem
    obtain ⟨e', he', hkey⟩ := List.mem_map.1 hmem
    have := (List.mem_filter.1 he').2
    simp only [hkey, hpre] at this
    cases this

/-- Nothing is left under the name. -/
theorem mem_evictDomain {c : DnsCache} {name : Text} {e : Text × CacheEntry}
    (h : e ∈ (c.evictDomain name).entries) :
    e ∈ c.entries ∧ (name.toAsciiLowercase ++ ['/']).isPrefixOf e.1 = false :=
  mem_popUnder_iff.1 h

theorem mem_of_mem_resize {c : DnsCache} {capacity maxBytes : ℕ} {e : Text × CacheEntry}
    (h : e ∈ (c.resize capacity maxBytes).entries) : e ∈ c.entries :=
  Inner.mem_of_mem_trim (Lru.mem_of_mem_resize (Inner.mem_of_mem_shrink h))

end DnsCache

end Ferrite.Dns
