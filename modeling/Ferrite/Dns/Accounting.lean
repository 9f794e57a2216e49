import Ferrite.Lib.Lts
import Ferrite.Dns.Cache

/-!
# The byte counter of the cache

`dns/src/cache.rs` keeps the bytes its entries cost in a counter beside the map, and
every operation that changes one changes the other.  The counter is a `usize`: a
subtraction that goes below zero panics.  `Inner.spend` is that subtraction, and the
`checked` operations here are those of `Dns/Cache` with it.

What is proved about every sequence of operations, from an empty cache on:

* `putChecked_eq` and its siblings — on a cache whose counter is right no subtraction
  fails, and the counter is right afterwards;
* `shrink_within` — the eviction loop ends under the budget, or with one entry;
* `every_cache_accounted` — so the counter is the cost of the entries present, they are
  at most as many as the capacity, and they fit the budget unless there is only one.
-/

namespace Ferrite.Dns

open Lts

/-- The cost of a list of entries. -/
def costOf (es : List (Text × CacheEntry)) : ℕ := (es.map fun e => entryCost e.1 e.2).sum

theorem costOf_nil : costOf [] = 0 := rfl

theorem costOf_cons (e : Text × CacheEntry) (es : List (Text × CacheEntry)) :
    costOf (e :: es) = entryCost e.1 e.2 + costOf es := List.sum_cons

theorem costOf_perm {es es' : List (Text × CacheEntry)} (h : es.Perm es') :
    costOf es = costOf es' := (h.map _).sum_nat

theorem costOf_append (es es' : List (Text × CacheEntry)) :
    costOf (es ++ es') = costOf es + costOf es' := by
  rw [costOf, List.map_append, List.sum_append]
  rfl

namespace Inner

/-! ## The operations with their subtractions checked -/

/-- `total_bytes -= cost`, with the map that goes with it. -/
def spend (total : ℕ) (lru : Lru Text CacheEntry) (cost : ℕ) : Option Inner :=
  if cost ≤ total then some ⟨lru, total - cost⟩ else none

def popChecked (s : Inner) (key : Text) : Option Inner :=
  match s.lru.peek key with
  | some v => spend s.totalBytes (s.lru.pop key) (entryCost key v)
  | none => some s

def popLruChecked (s : Inner) : Option Inner :=
  match s.lru.entries.getLast? with
  | some (k, v) => spend s.totalBytes s.lru.popLru (entryCost k v)
  | none => some s

def shrinkChecked (maxBytes : ℕ) : ℕ → Inner → Option Inner
  | 0, s => some s
  | n + 1, s =>
    if maxBytes < s.totalBytes ∧ 1 < s.lru.entries.length then
      s.popLruChecked.bind (shrinkChecked maxBytes n)
    else some s

def putChecked (s : Inner) (key : Text) (e : CacheEntry) (maxBytes : ℕ) : Option Inner :=
  let total := s.totalBytes + entryCost key e
  let pushed := match s.lru.displaced key with
    | some (k, v) => spend total (s.lru.put key e) (entryCost k v)
    | none => some ⟨s.lru.put key e, total⟩
  pushed.bind fun s => s.shrinkChecked maxBytes s.lru.entries.length

def popAllChecked (s : Inner) : List Text → Option Inner
  | [] => some s
  | key :: keys => (s.popChecked key).bind fun s => s.popAllChecked keys

def trimChecked (cap : ℕ) : ℕ → Inner → Option Inner
  | 0, s => some s
  | n + 1, s =>
    if cap < s.lru.entries.length then s.popLruChecked.bind (trimChecked cap n) else some s

def putAllChecked (maxBytes : ℕ) : Inner → List (Text × CacheEntry) → Option Inner
  | s, [] => some s
  | s, e :: es => (s.putChecked e.1 e.2 maxBytes).bind fun s => putAllChecked maxBytes s es

/-! ## A right counter stays right -/

/-- The counter is the cost of the entries present. -/
def Sound (s : Inner) : Prop := s.totalBytes = costOf s.lru.entries

variable {s : Inner}

theorem spend_eq {total cost : ℕ} {lru : Lru Text CacheEntry} (h : cost + costOf lru.entries = total) :
    spend total lru cost = some ⟨lru, total - cost⟩ ∧ Sound ⟨lru, total - cost⟩ := by
  refine ⟨if_pos (by omega), ?_⟩
  show total - cost = costOf lru.entries
  omega

theorem popChecked_eq (h : s.Sound) (key : Text) :
    s.popChecked key = some (s.pop key) ∧ (s.pop key).Sound := by
  unfold popChecked pop
  cases hpeek : s.lru.peek key with
  | none => exact ⟨rfl, h⟩
  | some v =>
    have hcost := costOf_perm (Lru.perm_cons_others hpeek)
    rw [costOf_cons] at hcost
    exact @spend_eq _ _ (s.lru.pop key) (by rw [h, hcost]; rfl)

theorem popLruChecked_eq (h : s.Sound) : s.popLruChecked = some s.popLru ∧ s.popLru.Sound := by
  unfold popLruChecked popLru
  cases hlast : s.lru.entries.getLast? with
  | none => exact ⟨rfl, h⟩
  | some e =>
    have hcost := costOf_perm (Lru.perm_cons_popLru hlast)
    rw [costOf_cons] at hcost
    exact spend_eq (by rw [h, hcost])

theorem shrinkChecked_eq (h : s.Sound) (maxBytes n : ℕ) :
    s.shrinkChecked maxBytes n = some (s.shrink maxBytes n) ∧ (s.shrink maxBytes n).Sound := by
  induction n generalizing s with
  | zero => exact ⟨rfl, h⟩
  | succ n ih =>
    unfold shrinkChecked shrink
    split
    · obtain ⟨hpop, hsound⟩ := popLruChecked_eq h
      rw [hpop]
      exact ih hsound
    · exact ⟨rfl, h⟩

theorem trimChecked_eq (h : s.Sound) (cap n : ℕ) :
    s.trimChecked cap n = some (s.trim cap n) ∧ (s.trim cap n).Sound := by
  induction n generalizing s with
  | zero => exact ⟨rfl, h⟩
  | succ n ih =>
    unfold trimChecked trim
    split
    · obtain ⟨hpop, hsound⟩ := popLruChecked_eq h
      rw [hpop]
      exact ih hsound
    · exact ⟨rfl, h⟩

theorem putChecked_eq (h : s.Sound) (key : Text) (e : CacheEntry) (maxBytes : ℕ) :
    s.putChecked key e maxBytes = some (s.put key e maxBytes) ∧ (s.put key e maxBytes).Sound := by
  have hcost := costOf_perm (s.lru.perm_put key e)
  have hold : s.totalBytes = costOf s.lru.entries := h
  rw [costOf_cons, costOf_append, ← hold] at hcost
  unfold putChecked put
  cases hdisp : s.lru.displaced key with
  | none =>
    have hsound : Sound ⟨s.lru.put key e, s.totalBytes + entryCost key e⟩ := by
      show s.totalBytes + entryCost key e = costOf (s.lru.put key e).entries
      rw [hdisp, Option.toList_none, costOf_nil] at hcost
      simp only at hcost
      omega
    exact shrinkChecked_eq hsound maxBytes _
  | some old =>
    rw [hdisp, Option.toList_some, costOf_cons, costOf_nil] at hcost
    obtain ⟨hspend, hsound⟩ := @spend_eq (s.totalBytes + entryCost key e)
      (entryCost old.1 old.2) (s.lru.put key e) (by simp only at hcost; omega)
    simp only [hspend]
    exact shrinkChecked_eq hsound maxBytes _

theorem popAllChecked_eq (h : s.Sound) (keys : List Text) :
    s.popAllChecked keys = some (s.popAll keys) ∧ (s.popAll keys).Sound := by
  induction keys generalizing s with
  | nil => exact ⟨rfl, h⟩
  | cons key keys ih =>
    obtain ⟨hpop, hsound⟩ := popChecked_eq h key
    unfold popAllChecked
    rw [hpop]
    exact ih hsound

theorem putAllChecked_eq (h : s.Sound) (maxBytes : ℕ) (es : List (Text × CacheEntry)) :
    putAllChecked maxBytes s es = some (es.foldl (fun s e => s.put e.1 e.2 maxBytes) s) ∧
      (es.foldl (fun s e => s.put e.1 e.2 maxBytes) s).Sound := by
  induction es generalizing s with
  | nil => exact ⟨rfl, h⟩
  | cons e es ih =>
    obtain ⟨hput, hsound⟩ := putChecked_eq h e.1 e.2 maxBytes
    unfold putAllChecked
    rw [hput]
    exact ih hsound

/-! ## The loops end within their bounds -/

/-- Within the byte budget, or nothing left to evict but one entry. -/
def Fits (maxBytes : ℕ) (s : Inner) : Prop :=
  s.totalBytes ≤ maxBytes ∨ s.lru.entries.length ≤ 1

theorem entries_popLru (s : Inner) : s.popLru.lru.entries = s.lru.entries.dropLast := by
  unfold popLru
  cases hlast : s.lru.entries.getLast? with
  | none =>
    rw [List.getLast?_eq_none_iff] at hlast
    simp [hlast]
  | some e => rfl

theorem shrink_within {maxBytes n : ℕ} (h : s.lru.entries.length ≤ n) :
    (s.shrink maxBytes n).Fits maxBytes := by
  induction n generalizing s with
  | zero => exact Or.inr (Nat.le_trans h (Nat.zero_le 1))
  | succ n ih =>
    unfold shrink
    split
    · apply ih
      rw [entries_popLru, List.length_dropLast]
      omega
    · rename_i hstop
      show _ ≤ _ ∨ _ ≤ _
      omega

theorem trim_within {cap n : ℕ} (h : s.lru.entries.length ≤ n) :
    (s.trim cap n).lru.entries.length ≤ cap := by
  induction n generalizing s with
  | zero => exact Nat.le_trans h (Nat.zero_le cap)
  | succ n ih =>
    unfold trim
    split
    · apply ih
      rw [entries_popLru, List.length_dropLast]
      omega
    · rename_i hstop
      exact Nat.le_of_not_lt hstop

theorem put_within (s : Inner) (key : Text) (e : CacheEntry) (maxBytes : ℕ) :
    (s.put key e maxBytes).Fits maxBytes := shrink_within (Nat.le_refl _)

theorem pop_within {maxBytes : ℕ} (h : s.Fits maxBytes) (key : Text) :
    (s.pop key).Fits maxBytes := by
  unfold pop
  split
  · rcases h with h | h
    · exact Or.inl (Nat.le_trans (Nat.sub_le ..) h)
    · exact Or.inr (Nat.le_trans (List.length_filter_le ..) h)
  · exact h

theorem popAll_within {maxBytes : ℕ} (h : s.Fits maxBytes) (keys : List Text) :
    (s.popAll keys).Fits maxBytes := by
  induction keys generalizing s with
  | nil => exact h
  | cons key keys ih => exact ih (pop_within h key)

theorem putAll_within {maxBytes : ℕ} (h : s.Fits maxBytes) (es : List (Text × CacheEntry)) :
    (es.foldl (fun s e => s.put e.1 e.2 maxBytes) s).Fits maxBytes := by
  induction es generalizing s with
  | nil => exact h
  | cons e es ih => exact ih (put_within s e.1 e.2 maxBytes)

/-! ## The capacity only changes in a resize -/

theorem cap_pop (s : Inner) (key : Text) : (s.pop key).lru.cap = s.lru.cap := by
  unfold pop
  split <;> rfl

theorem cap_popLru (s : Inner) : s.popLru.lru.cap = s.lru.cap := by
  unfold popLru
  split <;> rfl

theorem cap_popAll (s : Inner) (keys : List Text) : (s.popAll keys).lru.cap = s.lru.cap := by
  induction keys generalizing s with
  | nil => rfl
  | cons key keys ih => exact (ih _).trans (cap_pop s key)

theorem cap_shrink (s : Inner) (maxBytes n : ℕ) : (s.shrink maxBytes n).lru.cap = s.lru.cap := by
  induction n generalizing s with
  | zero => rfl
  | succ n ih =>
    unfold shrink
    split
    · exact (ih _).trans (cap_popLru s)
    · rfl

theorem cap_put (s : Inner) (key : Text) (e : CacheEntry) (maxBytes : ℕ) :
    (s.put key e maxBytes).lru.cap = s.lru.cap := cap_shrink _ _ _

theorem cap_putAll (s : Inner) (maxBytes : ℕ) (es : List (Text × CacheEntry)) :
    (es.foldl (fun s e => s.put e.1 e.2 maxBytes) s).lru.cap = s.lru.cap := by
  induction es generalizing s with
  | nil => rfl
  | cons e es ih => exact (ih _).trans (cap_put s e.1 e.2 maxBytes)

theorem mem_of_mem_putAll {maxBytes : ℕ} {es : List (Text × CacheEntry)} {e : Text × CacheEntry}
    (h : e ∈ (es.foldl (fun s e => s.put e.1 e.2 maxBytes) s).lru.entries) :
    e ∈ es ∨ e ∈ s.lru.entries := by
  induction es generalizing s with
  | nil => exact Or.inr h
  | cons e' es ih =>
    rcases ih h with h | h
    · exact Or.inl (List.mem_cons_of_mem _ h)
    · rcases mem_of_mem_put h with rfl | h
      · exact Or.inl List.mem_cons_self
      · exact Or.inr h

/-! ## While there is room, nothing is evicted -/

theorem shrink_of_fits {maxBytes n : ℕ} (h : s.Fits maxBytes) : s.shrink maxBytes n = s := by
  cases n with
  | zero => rfl
  | succ n =>
    rw [shrink, if_neg]
    rintro ⟨hover, hmany⟩
    rcases h with h | h <;> omega

theorem put_of_room {key : Text} {e : CacheEntry} {maxBytes : ℕ}
    (hnew : key ∉ s.lru.entries.map Prod.fst) (hcap : s.lru.entries.length < s.lru.cap)
    (hfit : s.totalBytes + entryCost key e ≤ maxBytes ∨ s.lru.entries.length = 0) :
    (s.put key e maxBytes).lru.entries = (key, e) :: s.lru.entries ∧
      (s.put key e maxBytes).totalBytes = s.totalBytes + entryCost key e := by
  have hpeek : s.lru.peek key = none := by
    cases hpeek : s.lru.peek key with
    | none => rfl
    | some v => exact absurd (List.mem_map.2 ⟨_, Lru.peek_eq_some_iff.1 hpeek, rfl⟩) hnew
  have hdisp : s.lru.displaced key = none := by
    simp only [Lru.displaced, hpeek]
    exact if_neg (Nat.ne_of_lt hcap)
  have hentries : (s.lru.put key e).entries = (key, e) :: s.lru.entries := by
    rw [Lru.entries_put, Lru.others_eq_entries hpeek]
    exact List.take_of_length_le hcap
  have hstay : Fits maxBytes ⟨s.lru.put key e, s.totalBytes + entryCost key e⟩ := by
    refine hfit.imp id fun hempty => ?_
    show (s.lru.put key e).entries.length ≤ 1
    rw [hentries, List.length_cons, hempty]
  unfold put
  simp only [hdisp]
  rw [shrink_of_fits hstay]
  exact ⟨hentries, rfl⟩

/-- Entries of new keys that fit are all put in, the last one in front. -/
theorem putAll_of_room {maxBytes : ℕ} {es : List (Text × CacheEntry)}
    (hnew : ((es ++ s.lru.entries).map Prod.fst).Nodup)
    (hcap : es.length + s.lru.entries.length ≤ s.lru.cap)
    (hfit : s.totalBytes + costOf es ≤ maxBytes ∨ es.length + s.lru.entries.length ≤ 1) :
    (es.foldl (fun s e => s.put e.1 e.2 maxBytes) s).lru.entries = es.reverse ++ s.lru.entries := by
  induction es generalizing s with
  | nil => rfl
  | cons e es ih =>
    rw [List.cons_append, List.map_cons, List.nodup_cons, List.map_append, List.mem_append,
      not_or] at hnew
    rw [costOf_cons] at hfit
    simp only [List.length_cons] at hcap hfit
    obtain ⟨⟨hes, hs⟩, hnodup⟩ := hnew
    obtain ⟨hentries, htotal⟩ := @put_of_room s e.1 e.2 maxBytes hs (by omega) (by omega)
    rw [List.foldl_cons, ih, hentries, List.reverse_cons, List.append_assoc]
    · rfl
    · rw [hentries, List.map_append, List.map_cons]
      exact List.perm_middle.nodup_iff.2 (List.nodup_cons.2
        ⟨fun h => (List.mem_append.1 h).elim hes hs, hnodup⟩)
    · rw [hentries, cap_put, List.length_cons]
      omega
    · rw [hentries, htotal, List.length_cons]
      omega


end Inner

/-! ## The cache as a machine -/

/-- A call of the cache that changes it.  The times are those the call reads. -/
inductive CacheOp
  | insert (name : Text) (qtype : UInt16) (dnssec : Bool) (response : DnsResponse) (now : ℕ)
  | evict (name : Text) (qtype : UInt16) (dnssec : Bool)
  | evictDomain (name : Text)
  | forgetName (name : Text)
  | evictExpired (now : ℕ)
  | clear
  | resize (capacity maxBytes : ℕ)
  | setTtlBounds (minT maxT : ℕ)
  | setStaleWindow (secs : ℕ)
  | restore (rows : List (Text × Bytes × UInt32 × ℤ)) (nowInstant : ℕ) (nowUnix : ℤ)

/-- The call puts these bytes in the cache. -/
def CacheOp.Puts (bytes : Bytes) : CacheOp → Prop
  | .insert _ _ _ response _ => response.bytes = bytes
  | .restore rows _ _ => ∃ row ∈ rows, row.2.1 = bytes
  | _ => False

namespace DnsCache

/-- One call. -/
def apply (c : DnsCache) : CacheOp → DnsCache
  | .insert name qtype dnssec response now => c.insert name qtype dnssec response now
  | .evict name qtype dnssec => c.evict name qtype dnssec
  | .evictDomain name => c.evictDomain name
  | .forgetName name => c.forgetName name
  | .evictExpired now => c.evictExpired now
  | .clear => c.clear
  | .resize capacity maxBytes => c.resize capacity maxBytes
  | .setTtlBounds minT maxT => c.setTtlBounds minT maxT
  | .setStaleWindow secs => c.setStaleWindow secs
  | .restore rows nowInstant nowUnix => c.restore rows nowInstant nowUnix

theorem mem_of_mem_restore {c : DnsCache} {rows : List (Text × Bytes × UInt32 × ℤ)} {nowInstant : ℕ}
    {nowUnix : ℤ} {e : Text × CacheEntry} (h : e ∈ (c.restore rows nowInstant nowUnix).entries) :
    e ∈ c.entries ∨ ∃ row ∈ rows, row.2.1 = e.2.response.bytes := by
  have hput : ∀ (es : List (Text × CacheEntry)) (s : Inner),
      e ∈ (es.foldl (fun s e => s.put e.1 e.2 c.maxBytes) s).lru.entries →
        e ∈ s.lru.entries ∨ e ∈ es := by
    intro es
    induction es with
    | nil => exact fun s h => .inl h
    | cons x es ih =>
      intro s h
      rcases ih _ h with h | h
      · rcases Inner.mem_of_mem_put h with rfl | h
        · exact .inr (List.mem_cons_self ..)
        · exact .inl h
      · exact .inr (List.mem_cons_of_mem _ h)
  rcases hput _ _ h with h | h
  · exact .inl h
  · obtain ⟨⟨key, bytes, ttl, expiresUnix⟩, hrow, heq⟩ := List.mem_filterMap.1 h
    refine .inr ⟨_, hrow, ?_⟩
    simp only [restored] at heq
    split_ifs at heq
    cases heq
    rfl

/-- What is in the cache after a call was in it before, or the call put it there. -/
theorem mem_of_mem_apply {c : DnsCache} {op : CacheOp} {e : Text × CacheEntry}
    (h : e ∈ (c.apply op).entries) : e ∈ c.entries ∨ op.Puts e.2.response.bytes := by
  cases op with
  | insert name qtype dnssec response now =>
    rcases mem_of_mem_insert h with h | h
    · exact .inr (by rw [h]; rfl)
    · exact .inl h
  | evict name qtype dnssec => exact .inl (Inner.mem_of_mem_pop h)
  | evictDomain name => exact .inl (mem_evictDomain h).1
  | forgetName name => exact .inl (mem_of_mem_forgetName h)
  | evictExpired now => exact .inl (mem_of_mem_evictExpired h)
  | clear => cases h
  | resize capacity maxBytes => exact .inl (mem_of_mem_resize h)
  | setTtlBounds minT maxT => exact .inl h
  | setStaleWindow secs => exact .inl h
  | restore rows nowInstant nowUnix => exact mem_of_mem_restore h

/-- The keys that start with `pre`, as the evictions by name collect them. -/
def keysUnder (c : DnsCache) (pre : Text) : List Text :=
  (c.entries.filter fun e => pre.isPrefixOf e.1).map Prod.fst

/-- One call, with every subtraction checked. -/
def applyChecked (c : DnsCache) (op : CacheOp) : Option DnsCache :=
  let inner : Option Inner := match op with
    | .insert name qtype dnssec response now =>
      let clamped := min (max response.ttl.toNat c.minSecs) c.maxSecs
      c.inner.putChecked (cacheKey name qtype dnssec) ⟨response, now + clamped * nanos⟩ c.maxBytes
    | .evict name qtype dnssec => c.inner.popChecked (cacheKey name qtype dnssec)
    | .evictDomain name => c.inner.popAllChecked (c.keysUnder (name.toAsciiLowercase ++ ['/']))
    | .forgetName name =>
      c.inner.popAllChecked
        (c.keysUnder ((name.trimEndMatches (· == '.')).toAsciiLowercase ++ ['/']))
    | .evictExpired now =>
      let dead := c.entries.filter fun e => e.2.expiresAt + c.staleWindow * nanos ≤ now
      c.inner.popAllChecked (dead.map Prod.fst)
    | .resize capacity maxBytes =>
      (c.inner.trimChecked (max capacity 1) c.entries.length).bind fun s =>
        let s : Inner := ⟨s.lru.resize capacity, s.totalBytes⟩
        s.shrinkChecked (byteBudget maxBytes) s.lru.entries.length
    | .restore rows nowInstant nowUnix =>
      Inner.putAllChecked c.maxBytes c.inner (rows.filterMap (restored nowInstant nowUnix))
    -- nothing is subtracted
    | .clear | .setTtlBounds .. | .setStaleWindow .. => some (c.apply op).inner
  inner.map fun s => { c.apply op with inner := s }

theorem applyChecked_eq {c : DnsCache} (h : c.inner.Sound) (op : CacheOp) :
    c.applyChecked op = some (c.apply op) ∧ (c.apply op).inner.Sound := by
  -- each call changes the map through one of the operations above
  have lift : ∀ {checked : Option Inner} {s : Inner}, (c.apply op).inner = s →
      checked = some s ∧ s.Sound →
      (checked.map fun s => { c.apply op with inner := s }) = some (c.apply op) ∧
        (c.apply op).inner.Sound := by
    rintro checked s rfl ⟨rfl, hsound⟩
    exact ⟨rfl, hsound⟩
  cases op with
  | insert name qtype dnssec response now => exact lift rfl (Inner.putChecked_eq h _ _ _)
  | evict name qtype dnssec => exact lift rfl (Inner.popChecked_eq h _)
  | evictDomain name => exact lift rfl (Inner.popAllChecked_eq h _)
  | forgetName name => exact lift rfl (Inner.popAllChecked_eq h _)
  | evictExpired now => exact lift rfl (Inner.popAllChecked_eq h _)
  | clear => exact ⟨rfl, costOf_nil.symm⟩
  | setTtlBounds minT maxT => exact ⟨rfl, h⟩
  | setStaleWindow secs => exact ⟨rfl, h⟩
  | restore rows nowInstant nowUnix => exact lift rfl (Inner.putAllChecked_eq h _ _)
  | resize capacity maxBytes =>
    refine lift rfl ?_
    obtain ⟨htrim, hsound⟩ := Inner.trimChecked_eq h (max capacity 1) c.entries.length
    simp only [htrim, Option.bind_some]
    refine Inner.shrinkChecked_eq ?_ _ _
    -- after the loop there is nothing left for the map's own resize to drop
    have hall : (c.inner.trim (max capacity 1) c.entries.length).lru.entries.take (max capacity 1)
        = (c.inner.trim (max capacity 1) c.entries.length).lru.entries :=
      List.take_of_length_le (Inner.trim_within (Nat.le_refl _))
    show _ = costOf (List.take (max capacity 1) _)
    rw [hall]
    exact hsound

/-- The capacity and the byte bound in force after a call. -/
def configured (bounds : ℕ × ℕ) : CacheOp → ℕ × ℕ
  | .resize capacity maxBytes => (capacity, maxBytes)
  | _ => bounds

/-- **The representation invariant**: the counter is right, and the entries are within
both bounds, a single entry being allowed whatever it costs. -/
structure Accounted (bounds : ℕ × ℕ) (c : DnsCache) : Prop where
  sound : c.inner.Sound
  cap : c.inner.lru.cap = max bounds.1 1
  budget : c.maxBytes = byteBudget bounds.2
  fits : c.inner.Fits c.maxBytes

theorem accounted_new (capacity maxBytes minT maxT : ℕ) :
    Accounted (capacity, maxBytes) (new capacity maxBytes minT maxT) where
  sound := costOf_nil.symm
  cap := rfl
  budget := rfl
  fits := Or.inr (Nat.zero_le 1)

theorem accounted_apply {bounds : ℕ × ℕ} {c : DnsCache} (h : Accounted bounds c) (op : CacheOp) :
    Accounted (configured bounds op) (c.apply op) := by
  have hsound := (applyChecked_eq h.sound op).2
  cases op with
  | insert name qtype dnssec response now =>
    exact ⟨hsound, (Inner.cap_put ..).trans h.cap, h.budget, Inner.put_within ..⟩
  | evict name qtype dnssec =>
    exact ⟨hsound, (Inner.cap_pop ..).trans h.cap, h.budget, Inner.pop_within h.fits _⟩
  | evictDomain name =>
    exact ⟨hsound, (Inner.cap_popAll ..).trans h.cap, h.budget, Inner.popAll_within h.fits _⟩
  | forgetName name =>
    exact ⟨hsound, (Inner.cap_popAll ..).trans h.cap, h.budget, Inner.popAll_within h.fits _⟩
  | evictExpired now =>
    exact ⟨hsound, (Inner.cap_popAll ..).trans h.cap, h.budget, Inner.popAll_within h.fits _⟩
  | clear => exact ⟨hsound, h.cap, h.budget, Or.inr (Nat.zero_le 1)⟩
  | resize capacity maxBytes =>
    exact ⟨hsound, Inner.cap_shrink .., rfl, Inner.shrink_within (Nat.le_refl _)⟩
  | setTtlBounds minT maxT => exact ⟨hsound, h.cap, h.budget, h.fits⟩
  | setStaleWindow secs => exact ⟨hsound, h.cap, h.budget, h.fits⟩
  | restore rows nowInstant nowUnix =>
    exact ⟨hsound, (Inner.cap_putAll ..).trans h.cap, h.budget, Inner.putAll_within h.fits _⟩

theorem accounted_run {bounds : ℕ × ℕ} {c : DnsCache} (h : Accounted bounds c)
    (ops : List CacheOp) :
    exec applyChecked c ops = some (ops.foldl apply c) ∧
      Accounted (ops.foldl configured bounds) (ops.foldl apply c) := by
  induction ops generalizing bounds c with
  | nil => exact ⟨rfl, h⟩
  | cons op ops ih =>
    obtain ⟨hexec, hacc⟩ := ih (accounted_apply h op)
    refine ⟨?_, hacc⟩
    show (c.applyChecked op).bind _ = _
    rw [(applyChecked_eq h.sound op).1]
    exact hexec

/-- After any calls on a new cache: no subtraction went below zero, the counter is the
cost of the entries present, these are at most as many as the capacity in force, and
they are within the byte budget in force unless there is exactly one. -/
theorem every_cache_accounted (capacity maxBytes minT maxT : ℕ) (ops : List CacheOp) :
    let bounds := ops.foldl configured (capacity, maxBytes)
    let c := ops.foldl apply (new capacity maxBytes minT maxT)
    exec applyChecked (new capacity maxBytes minT maxT) ops = some c ∧
      c.inner.totalBytes = (c.entries.map fun e =>
        e.1.byteLen + e.2.response.bytes.length + 128).sum ∧
      c.entries.length ≤ max bounds.1 1 ∧
      (c.inner.totalBytes ≤ byteBudget bounds.2 ∨ c.entries.length = 1) := by
  intro bounds c
  obtain ⟨hexec, hacc⟩ := accounted_run (accounted_new capacity maxBytes minT maxT) ops
  have hcost : c.inner.totalBytes = costOf c.entries := hacc.sound
  refine ⟨hexec, hcost, ?_, ?_⟩
  · have hbound := c.inner.lru.bounded
    rw [hacc.cap] at hbound
    exact hbound
  · have hbudget : c.maxBytes = byteBudget bounds.2 := hacc.budget
    rw [← hbudget]
    rcases hacc.fits with hfits | hfits
    · exact Or.inl hfits
    · rcases Nat.le_one_iff_eq_zero_or_eq_one.1 hfits with hlen | hlen
      · left
        have hnil : c.entries = [] := List.length_eq_zero_iff.1 hlen
        rw [hcost, hnil, costOf_nil]
        exact Nat.zero_le _
      · exact Or.inr hlen

end DnsCache

end Ferrite.Dns
