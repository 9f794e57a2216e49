import Ferrite.Dns.Accounting
import Ferrite.Storage.Types

/-!
# A warm restart

`app/src/snapshot`: on shutdown the answers of the DNS cache are written to a file, and
on startup they are put back.  The monotonic clock does not go through a file, so an
expiry is written as a unix time in whole seconds and read back against the clocks of
the new process.

`Lived` are the caches a running box can have.  Of each of them:

* `entries_restore` — the saved entries all fit into the new cache, so nothing is
  evicted on the way in;
* `warm_restart` — what is in the new cache was fresh in the old one and has the same
  bytes, what had a second left is there, and a lifetime is less than a second shorter
  and less than two longer, never above the ceiling.
-/

namespace Ferrite.App

open Dns Storage

/-- `DnsCacheEntry`: one serialized cache entry. -/
structure DnsCacheEntry where
  key : Text
  bytes : Bytes
  ttl : UInt32
  expiresAt : ℤ
deriving DecidableEq, Repr

/-- The seconds an entry has left, rounded up: `as_secs` and one more for a rest. -/
def remainingSecs (expiresAt now : ℕ) : ℕ :=
  if now ≤ expiresAt then
    (expiresAt - now) / nanos + if 0 < (expiresAt - now) % nanos then 1 else 0
  else 0

/-- `build_snapshot`, of which the cache entries: nothing is saved when nothing may be
recorded.  `now` and `wall` are the two clocks, in nanoseconds. -/
def buildSnapshot (c : DnsCache) (scope : RecordScope) (now wall : ℕ) : List DnsCacheEntry :=
  if ¬ scope.recordsAnything then []
  else (c.snapshot now).map fun (key, response, expiresAt) =>
    ⟨key, response.bytes, response.ttl, (wall / nanos : ℕ) + remainingSecs expiresAt now⟩

/-- `apply_snapshot`, of which the cache. -/
def applySnapshot (c : DnsCache) (saved : List DnsCacheEntry) (now wall : ℕ) : DnsCache :=
  c.restore (saved.map fun e => (e.key, e.bytes, e.ttl, e.expiresAt)) now (wall / nanos : ℕ)

/-! ## The caches a box can have -/

/-- A call is made at the time the clock shows. -/
def Timely (now : ℕ) : CacheOp → Prop
  | .insert _ _ _ _ t => t = now
  | .evictExpired t => t = now
  | .restore .. => False
  | _ => True

/-- The caches of a box at a time of its monotonic clock, with the capacity and byte
bound in force: a new one, one that was called, one restored after a restart. -/
inductive Lived : ℕ × ℕ → ℕ → DnsCache → Prop
  | new (capacity maxBytes minT maxT now : ℕ) :
    Lived (capacity, maxBytes) now (.new capacity maxBytes minT maxT)
  | call {bounds : ℕ × ℕ} {now now' : ℕ} {c : DnsCache} (op : CacheOp) :
    Lived bounds now c → now ≤ now' → Timely now' op →
      Lived (DnsCache.configured bounds op) now' (c.apply op)
  | restart {bounds : ℕ × ℕ} {now : ℕ} {c : DnsCache} (scope : RecordScope)
      (capacity maxBytes minT maxT wall now' wall' : ℕ) :
    Lived bounds now c → wall ≤ wall' →
      Lived (capacity, maxBytes) now' (applySnapshot (.new capacity maxBytes minT maxT)
        (buildSnapshot c scope now wall) now' wall')

/-! ## One entry through the file -/

/-- The entry that comes back for an entry that was saved, unless its time is over. -/
def carried (now wall now' wall' : ℕ) (e : Text × CacheEntry) : Option (Text × CacheEntry) :=
  DnsCache.restored now' (wall' / nanos : ℕ)
    (e.1, e.2.response.bytes, e.2.response.ttl,
      (wall / nanos : ℕ) + remainingSecs e.2.expiresAt now)

/-- What an entry has left at the restart, in nanoseconds: the time in between is what
the wall clock says. -/
def leftAtRestart (now wall wall' : ℕ) (e : CacheEntry) : ℤ :=
  (e.expiresAt - now : ℤ) - (wall' - wall : ℤ)

variable {now wall now' wall' : ℕ} {e e' : Text × CacheEntry}

theorem remainingSecs_bounds {expiresAt : ℕ} (h : now < expiresAt) :
    expiresAt - now ≤ remainingSecs expiresAt now * nanos ∧
      remainingSecs expiresAt now * nanos < expiresAt - now + nanos := by
  unfold remainingSecs
  rw [if_pos (Nat.le_of_lt h)]
  have hdiv := Nat.div_add_mod (expiresAt - now) nanos
  have hmod : (expiresAt - now) % nanos < nanos := Nat.mod_lt _ (by decide)
  rw [Nat.add_mul, Nat.mul_comm (_ / nanos)]
  split <;> omega

/-- The seconds an entry has left when it is put back. -/
def carriedSecs (now wall wall' : ℕ) (e : CacheEntry) : ℤ :=
  ((wall / nanos : ℕ) + remainingSecs e.expiresAt now : ℤ) - (wall' / nanos : ℕ)

theorem carriedSecs_bounds {e : CacheEntry} (h : now < e.expiresAt) :
    leftAtRestart now wall wall' e - nanos < carriedSecs now wall wall' e * nanos ∧
      carriedSecs now wall wall' e * nanos < leftAtRestart now wall wall' e + 2 * nanos := by
  obtain ⟨hlow, hhigh⟩ := remainingSecs_bounds h
  have hwall := Nat.div_add_mod wall nanos
  have hwall' := Nat.div_add_mod wall' nanos
  have hmod : wall % nanos < nanos := Nat.mod_lt _ (by decide)
  have hmod' : wall' % nanos < nanos := Nat.mod_lt _ (by decide)
  unfold carriedSecs leftAtRestart
  simp only [nanos] at *
  omega

theorem carried_eq_some_iff :
    carried now wall now' wall' e = some e' ↔
      0 < carriedSecs now wall wall' e.2 ∧ e'.1 = e.1 ∧ e'.2.response = e.2.response ∧
        e'.2.expiresAt = now' + (carriedSecs now wall wall' e.2).toNat * nanos := by
  obtain ⟨key', ⟨response', expiresAt'⟩⟩ := e'
  unfold carried DnsCache.restored carriedSecs
  simp only
  split
  · rename_i hover
    exact ⟨nofun, fun h => absurd h.1 (by omega)⟩
  · rename_i hleft
    rw [and_iff_right (by omega)]
    simp only [Option.some.injEq, Prod.mk.injEq, CacheEntry.mk.injEq, eq_comm]

/-- **One entry across the restart.**  The key and the answer are the same, and the
lifetime is less than a second shorter and less than two longer. -/
theorem carried_spec (hfresh : now < e.2.expiresAt)
    (h : carried now wall now' wall' e = some e') :
    e'.1 = e.1 ∧ e'.2.response = e.2.response ∧
      leftAtRestart now wall wall' e.2 - nanos < (e'.2.expiresAt : ℤ) - now' ∧
      (e'.2.expiresAt : ℤ) - now' < leftAtRestart now wall wall' e.2 + 2 * nanos := by
  obtain ⟨hpos, hkey, hresponse, hexp⟩ := carried_eq_some_iff.1 h
  obtain ⟨hlow, hhigh⟩ := @carriedSecs_bounds now wall wall' _ hfresh
  have hleft : (e'.2.expiresAt : ℤ) - now' = carriedSecs now wall wall' e.2 * nanos := by
    rw [hexp, Int.natCast_add, Int.natCast_mul, Int.toNat_of_nonneg (Int.le_of_lt hpos)]
    omega
  rw [hleft]
  exact ⟨hkey, hresponse, hlow, hhigh⟩

/-- An entry with a second left comes back. -/
theorem carried_of_left (hfresh : now < e.2.expiresAt)
    (hleft : (nanos : ℤ) ≤ leftAtRestart now wall wall' e.2) :
    ∃ e', carried now wall now' wall' e = some e' := by
  have hpos : 0 < carriedSecs now wall wall' e.2 := by
    obtain ⟨hlow, -⟩ := @carriedSecs_bounds now wall wall' _ hfresh
    simp only [nanos] at *
    omega
  cases hcarried : carried now wall now' wall' e with
  | some e' => exact ⟨e', rfl⟩
  | none =>
    unfold carried DnsCache.restored at hcarried
    unfold carriedSecs at hpos
    simp only at hcarried
    split at hcarried
    · omega
    · cases hcarried

theorem remainingSecs_le {expiresAt : ℕ} (h : expiresAt ≤ now + maxTtl * nanos) :
    remainingSecs expiresAt now ≤ maxTtl := by
  by_cases hfresh : now < expiresAt
  · obtain ⟨-, hhigh⟩ := remainingSecs_bounds hfresh
    simp only [nanos, maxTtl] at *
    omega
  · unfold remainingSecs
    split
    · have hzero : expiresAt - now = 0 := by omega
      simp [hzero]
    · exact Nat.zero_le _

/-- A lifetime within the ceiling stays within it. -/
theorem carried_le_maxTtl (hwall : wall ≤ wall') (hle : e.2.expiresAt ≤ now + maxTtl * nanos)
    (h : carried now wall now' wall' e = some e') :
    e'.2.expiresAt ≤ now' + maxTtl * nanos := by
  obtain ⟨hpos, -, -, hexp⟩ := carried_eq_some_iff.1 h
  have hdiv : wall / nanos ≤ wall' / nanos := Nat.div_le_div_right hwall
  have hsecs := remainingSecs_le hle
  have hle' : (carriedSecs now wall wall' e.2).toNat ≤ maxTtl := by
    unfold carriedSecs at *
    omega
  rw [hexp]
  exact Nat.add_le_add_left (Nat.mul_le_mul_right _ hle') _

/-! ## The whole cache through the file -/

/-- The entries that go into the new cache, as they are put in. -/
def carriedAll (c : DnsCache) (now wall now' wall' : ℕ) : List (Text × CacheEntry) :=
  (c.entries.filter fun e => now < e.2.expiresAt).filterMap (carried now wall now' wall')

variable {c : DnsCache} {bounds : ℕ × ℕ} {scope : RecordScope} {minT maxT : ℕ}

theorem inner_applySnapshot (hscope : scope.recordsAnything = true) (cnew : DnsCache) :
    (applySnapshot cnew (buildSnapshot c scope now wall) now' wall').inner =
      (carriedAll c now wall now' wall').foldl (fun s e => s.put e.1 e.2 cnew.maxBytes)
        cnew.inner := by
  unfold applySnapshot buildSnapshot DnsCache.restore DnsCache.snapshot carriedAll
  rw [if_neg (not_not_intro hscope), List.map_map, List.map_map, List.filterMap_map]
  rfl

theorem mem_carriedAll_iff :
    e' ∈ carriedAll c now wall now' wall' ↔
      ∃ e ∈ c.entries, now < e.2.expiresAt ∧ carried now wall now' wall' e = some e' := by
  simp only [carriedAll, List.mem_filterMap, List.mem_filter, decide_eq_true_eq, and_assoc]

/-- What is carried over is, key by key and cost by cost, part of what was there. -/
theorem carriedAll_part (c : DnsCache) (now wall now' wall' : ℕ) :
    ((carriedAll c now wall now' wall').map Prod.fst).Sublist (c.entries.map Prod.fst) ∧
      costOf (carriedAll c now wall now' wall') ≤ costOf c.entries := by
  unfold carriedAll
  generalize c.entries = es
  induction es with
  | nil => exact ⟨List.Sublist.refl _, Nat.le_refl _⟩
  | cons e es ih =>
    obtain ⟨hsub, hcost⟩ := ih
    have hskip : ((es.filter fun e => now < e.2.expiresAt).filterMap
        (carried now wall now' wall')).map Prod.fst |>.Sublist ((e :: es).map Prod.fst) :=
      hsub.cons _
    rw [costOf_cons]
    rw [List.filter_cons]
    split
    · cases hcarried : carried now wall now' wall' e with
      | none =>
        rw [List.filterMap_cons_none hcarried]
        exact ⟨hskip, by omega⟩
      | some e' =>
        obtain ⟨-, hkey, hresponse, -⟩ := carried_eq_some_iff.1 hcarried
        have hsame : entryCost e'.1 e'.2 = entryCost e.1 e.2 := by
          rw [entryCost, entryCost, hkey, hresponse]
        rw [List.filterMap_cons_some hcarried, costOf_cons, hsame, List.map_cons, List.map_cons,
          hkey]
        exact ⟨hsub.cons_cons _, by omega⟩
    · exact ⟨hskip, by omega⟩

/-- **The saved entries all fit**: the new cache has them in the order they were put in,
the last in front. -/
theorem entries_restore (h : c.Accounted bounds) (hscope : scope.recordsAnything = true) :
    (applySnapshot (.new bounds.1 bounds.2 minT maxT) (buildSnapshot c scope now wall)
      now' wall').entries = (carriedAll c now wall now' wall').reverse := by
  obtain ⟨hsub, hcost⟩ := carriedAll_part c now wall now' wall'
  have hlen : (carriedAll c now wall now' wall').length ≤ c.entries.length := by
    simpa using hsub.length_le
  have hcap : c.entries.length ≤ max bounds.1 1 := h.cap ▸ c.inner.lru.bounded
  have hsound : c.inner.totalBytes = costOf c.entries := h.sound
  show (applySnapshot _ _ _ _).inner.lru.entries = _
  rw [inner_applySnapshot hscope, Inner.putAll_of_room]
  · exact List.append_nil _
  · show ((carriedAll c now wall now' wall' ++ []).map Prod.fst).Nodup
    rw [List.append_nil]
    exact c.inner.lru.nodup.sublist hsub
  · show (carriedAll c now wall now' wall').length + 0 ≤ max bounds.1 1
    omega
  · show 0 + costOf (carriedAll c now wall now' wall') ≤ byteBudget bounds.2 ∨
      (carriedAll c now wall now' wall').length + 0 ≤ 1
    have hfits := h.fits
    rw [h.budget] at hfits
    rcases hfits with hfits | hfits
    · left
      omega
    · right
      exact Nat.le_trans hlen hfits

/-! ## Every cache a box can have -/

/-- What holds of the caches of a box: the representation invariant, and no entry has
longer left than the ceiling allows. -/
structure Sane (bounds : ℕ × ℕ) (now : ℕ) (c : DnsCache) : Prop where
  accounted : c.Accounted bounds
  maxSecs_le : c.maxSecs ≤ maxTtl
  lifetime : ∀ e ∈ c.entries, e.2.expiresAt ≤ now + maxTtl * nanos

theorem normalizeTtlBounds_le (minT maxT : ℕ) : (normalizeTtlBounds minT maxT).2 ≤ maxTtl := by
  unfold normalizeTtlBounds
  simp only
  omega

theorem sane_call {op : CacheOp} (h : Sane bounds now c) (hnow : now ≤ now')
    (htimely : Timely now' op) : Sane (DnsCache.configured bounds op) now' (c.apply op) := by
  have hold : ∀ e ∈ c.entries, e.2.expiresAt ≤ now' + maxTtl * nanos := fun e he =>
    Nat.le_trans (h.lifetime e he) (Nat.add_le_add_right hnow _)
  refine ⟨DnsCache.accounted_apply h.accounted op, ?_, ?_⟩
  · cases op with
    | setTtlBounds minT maxT => exact normalizeTtlBounds_le minT maxT
    | _ => exact h.maxSecs_le
  · intro e he
    cases op with
    | insert name qtype dnssec response t =>
      cases htimely
      rcases Inner.mem_of_mem_put he with rfl | he
      · have hclamp : min (max response.ttl.toNat c.minSecs) c.maxSecs ≤ maxTtl :=
          Nat.le_trans (Nat.min_le_right ..) h.maxSecs_le
        exact Nat.add_le_add_left (Nat.mul_le_mul_right _ hclamp) _
      · exact hold e he
    | evict name qtype dnssec => exact hold e (Inner.mem_of_mem_pop he)
    | evictDomain name => exact hold e (Inner.mem_of_mem_popAll he)
    | forgetName name => exact hold e (Inner.mem_of_mem_popAll he)
    | evictExpired t => exact hold e (Inner.mem_of_mem_popAll he)
    | clear => cases he
    | resize capacity maxBytes => exact hold e (DnsCache.mem_of_mem_resize he)
    | setTtlBounds minT maxT => exact hold e he
    | setStaleWindow secs => exact hold e he
    | restore rows nowInstant nowUnix => exact htimely.elim

theorem sane_restart (h : Sane bounds now c) (hwall : wall ≤ wall')
    (capacity maxBytes minT maxT now' : ℕ) :
    Sane (capacity, maxBytes) now' (applySnapshot (.new capacity maxBytes minT maxT)
      (buildSnapshot c scope now wall) now' wall') := by
  refine ⟨DnsCache.accounted_apply (DnsCache.accounted_new ..) (.restore _ now' _),
    normalizeTtlBounds_le minT maxT, ?_⟩
  intro e' he'
  by_cases hscope : scope.recordsAnything = true
  · have hmem : e' ∈ (applySnapshot (.new capacity maxBytes minT maxT)
        (buildSnapshot c scope now wall) now' wall').inner.lru.entries := he'
    rw [inner_applySnapshot hscope] at hmem
    rcases Inner.mem_of_mem_putAll hmem with hmem | hmem
    · obtain ⟨e, he, -, hcarried⟩ := mem_carriedAll_iff.1 hmem
      exact carried_le_maxTtl hwall (h.lifetime e he) hcarried
    · cases hmem
  · rw [buildSnapshot, if_pos hscope] at he'
    cases he'

theorem sane_of_lived (h : Lived bounds now c) : Sane bounds now c := by
  induction h with
  | new capacity maxBytes minT maxT now =>
    exact ⟨DnsCache.accounted_new .., normalizeTtlBounds_le minT maxT, nofun⟩
  | call op _ hnow htimely ih => exact sane_call ih hnow htimely
  | restart scope capacity maxBytes minT maxT wall now' wall' _ hwall ih =>
    exact sane_restart ih hwall capacity maxBytes minT maxT now'

/-- A cache of a running box, saved and put back into an empty cache of the same bounds:
what is there was fresh and has the same answer, with less than a second less and less
than two seconds more to live and never above the ceiling; what had a second left is
there. -/
theorem warm_restart (hlived : Lived bounds now c) (hscope : scope.recordsAnything = true)
    (hwall : wall ≤ wall') :
    let c' := applySnapshot (.new bounds.1 bounds.2 minT maxT) (buildSnapshot c scope now wall)
      now' wall'
    (∀ key e', (key, e') ∈ c'.entries → ∃ e, (key, e) ∈ c.entries ∧ now < e.expiresAt ∧
      e'.response = e.response ∧
      leftAtRestart now wall wall' e - nanos < (e'.expiresAt : ℤ) - now' ∧
      (e'.expiresAt : ℤ) - now' < leftAtRestart now wall wall' e + 2 * nanos ∧
      e'.expiresAt ≤ now' + maxTtl * nanos) ∧
    ∀ key e, (key, e) ∈ c.entries → (nanos : ℤ) ≤ leftAtRestart now wall wall' e →
      ∃ e', (key, e') ∈ c'.entries := by
  intro c'
  have hsane := sane_of_lived hlived
  have hentries : c'.entries = (carriedAll c now wall now' wall').reverse :=
    entries_restore hsane.accounted hscope
  have hmem (x : Text × CacheEntry) : x ∈ c'.entries ↔
      ∃ e ∈ c.entries, now < e.2.expiresAt ∧ carried now wall now' wall' e = some x := by
    rw [hentries, List.mem_reverse, mem_carriedAll_iff]
  refine ⟨?_, ?_⟩
  · intro key e' he'
    obtain ⟨⟨key₀, e⟩, he, hfresh, hcarried⟩ := (hmem _).1 he'
    obtain ⟨hkey, hresponse, hlow, hhigh⟩ := carried_spec hfresh hcarried
    cases hkey
    exact ⟨e, he, hfresh, hresponse, hlow, hhigh,
      carried_le_maxTtl hwall (hsane.lifetime _ he) hcarried⟩
  · intro key e he hleft
    have hfresh : now < e.expiresAt := by
      unfold leftAtRestart at hleft
      simp only [nanos] at hleft
      omega
    obtain ⟨e', hcarried⟩ := @carried_of_left now wall now' wall' (key, e) hfresh hleft
    obtain ⟨hkey, -⟩ := carried_spec hfresh hcarried
    cases hkey
    exact ⟨e'.2, (hmem _).2 ⟨_, he, hfresh, hcarried⟩⟩

/-- One answer, cached at time zero for eleven seconds. -/
def elevenSeconds : DnsCache := (DnsCache.new 4 0 0 0).insert ['a'] 1 false ⟨[1, 2, 3], 11⟩ 0

theorem lived_elevenSeconds (now : ℕ) : Lived (4, 0) now elevenSeconds :=
  .call (.setStaleWindow 0) (.call (.insert ['a'] 1 false ⟨[1, 2, 3], 11⟩ 0) (.new 4 0 0 0 0)
    (Nat.le_refl 0) rfl) (Nat.zero_le now) trivial

/-- It is saved after half a second and put back nine tenths of a second later. -/
theorem warm_restart_elevenSeconds :
    ∃ e', (['a', '/', '1'], e') ∈ (applySnapshot (.new 4 0 0 0)
      (buildSnapshot elevenSeconds ⟨true, true⟩ 500000000 100000000000) 7 100900000000).entries :=
  (warm_restart (lived_elevenSeconds 500000000) rfl (by decide)).2 _
    ⟨⟨[1, 2, 3], 11⟩, 11000000000⟩ (by decide) (by decide)

/-- Two answers in a cache for two, the second cached after the first. -/
def twoAnswers : DnsCache :=
  ((DnsCache.new 2 0 0 0).insert ['a'] 1 false ⟨[1, 2, 3], 11⟩ 0).insert ['b'] 1 false ⟨[4, 5, 6], 11⟩ 0

/-- The keys that are left when one answer more is cached. -/
def keptBeside (c : DnsCache) : List Text :=
  (c.insert ['c'] 1 false ⟨[7, 8, 9], 11⟩ 0).entries.map Prod.fst

/-- Put back so, it has eleven seconds where it had nine and six tenths.  Saved half a
second before its end, just before the second of the wall clock changes, and put back
just after, it is gone with three tenths of a second left.  And of two answers, the older is
the one to go; after a restart it is the newer. -/
theorem restart_off_by_more_than_a_second :
    let e : CacheEntry := ⟨⟨[1, 2, 3], 11⟩, 11000000000⟩
    elevenSeconds.entries = [(['a', '/', '1'], e)] ∧
    (applySnapshot (.new 4 0 0 0) (buildSnapshot elevenSeconds ⟨true, true⟩ 500000000 100000000000)
      7 100900000000).entries = [(['a', '/', '1'], ⟨e.response, 11000000007⟩)] ∧
    (nanos : ℤ) < (11000000007 - 7) - leftAtRestart 500000000 100000000000 100900000000 e ∧
    (applySnapshot (.new 4 0 0 0)
      (buildSnapshot elevenSeconds ⟨true, true⟩ 10500000000 100900000000)
      7 101100000000).entries = [] ∧
    0 < leftAtRestart 10500000000 100900000000 101100000000 e ∧
    keptBeside twoAnswers = [['c', '/', '1'], ['b', '/', '1']] ∧
    keptBeside (applySnapshot (.new 2 0 0 0) (buildSnapshot twoAnswers ⟨true, true⟩ 0 0) 0 0) =
      [['c', '/', '1'], ['a', '/', '1']] := by
  decide

end Ferrite.App
