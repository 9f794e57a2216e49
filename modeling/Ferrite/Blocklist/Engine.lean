import Ferrite.Lib.Lru
import Ferrite.Blocklist.Names

/-!
# The block decision

The sets the engine of `blocklist/src/engine.rs` decides by, a compiled profile,
and the decision itself: the cheap tiers that run on every query (`overrides`) and
the list tier under them (`checkBlockedIn`), which is the part that is cached.
The cache is `blocklist/src/cache.rs`: an LRU map whose entries also expire.
Instants are nanoseconds.
-/

namespace Ferrite.Blocklist

/-- `Duration::from_secs`, in nanoseconds. -/
def fromSecs (secs : ℕ) : ℕ := secs * 1000000000

/-! ## The decision cache -/

/-- Cache TTL for domains that passed the check. -/
def allowedTtl : ℕ := 300

/-- Cache TTL for domains that were blocked. -/
def blockedTtl : ℕ := 3600

/-- `BlockCacheEntry`. -/
structure BlockCacheEntry where
  blocked : Bool
  expiresAt : ℕ
deriving DecidableEq

/-- `BlocklistCache`. -/
abbrev BlocklistCache := Lru Name BlockCacheEntry

namespace BlocklistCache

/-- `get`: an entry past its time is dropped and does not count. -/
def get (c : BlocklistCache) (domain : Name) (now : ℕ) : Option Bool × BlocklistCache :=
  match Lru.get c domain with
  | (some e, c') => if now < e.expiresAt then (some e.blocked, c') else (none, c'.pop domain)
  | (none, c') => (none, c')

/-- `insert`. -/
def insert (c : BlocklistCache) (domain : Name) (blocked : Bool) (now : ℕ) : BlocklistCache :=
  c.put domain ⟨blocked, now + fromSecs (if blocked then blockedTtl else allowedTtl)⟩

theorem mem_of_mem_get {c : BlocklistCache} {domain : Name} {now : ℕ}
    {e : Name × BlockCacheEntry} (h : e ∈ (get c domain now).2.entries) : e ∈ c.entries := by
  unfold get at h
  split at h
  · rename_i e' c' hg
    have hc' : ∀ x ∈ c'.entries, x ∈ c.entries := by
      intro x hx
      refine Lru.mem_of_mem_get (k := domain) ?_
      rw [hg]
      exact hx
    split at h
    · exact hc' e h
    · exact hc' e (Lru.mem_pop_iff.1 h).1
  · rename_i c' hg
    refine Lru.mem_of_mem_get (k := domain) ?_
    rw [hg]
    exact h

/-- A hit is the verdict of an entry. -/
theorem mem_of_get_eq_some {c : BlocklistCache} {domain : Name} {now : ℕ} {b : Bool}
    (h : (get c domain now).1 = some b) : ∃ e, (domain, e) ∈ c.entries ∧ e.blocked = b := by
  unfold get at h
  split at h
  · rename_i e c' hg
    have he : c.peek domain = some e := by
      rw [← Lru.get_fst, hg]
    split at h
    · exact ⟨e, Lru.peek_eq_some_iff.1 he, Option.some.inj h⟩
    · cases h
  · cases h

theorem mem_of_mem_insert {c : BlocklistCache} {domain : Name} {b : Bool} {now : ℕ}
    {e : Name × BlockCacheEntry} (h : e ∈ (insert c domain b now).entries) :
    (e.1 = domain ∧ e.2.blocked = b) ∨ e ∈ c.entries := by
  rcases Lru.mem_of_mem_put h with rfl | h
  · exact Or.inl ⟨rfl, rfl⟩
  · exact Or.inr h.1

end BlocklistCache

/-! ## The sets and the profiles -/

/-- The keys of an FST map. -/
abbrev FstMap := Finset Name

/-- The sets the engine reads on every query. -/
structure Sets where
  blacklist : ManualList
  whitelist : ManualList
  blockedServices : ServiceBlock
  block : FstMap
  allow : FstMap
  localZones : List Name

/-- `CompiledProfile`, without its private cache and without who and when it
applies to. -/
structure Profile where
  fst : FstMap
  allowExact : Finset Name
  allowWild : List Regex
  blockExact : Finset Name
  blockWild : List Regex
  allowFst : Option FstMap
  defaultDeny : Bool

namespace Profile

/-- A profile over no lists, without overrides. -/
def empty : Profile := ⟨∅, ∅, [], ∅, [], none, false⟩

/-- `CompiledProfile::allows`. -/
def allows (env : Crates) (p : Profile) (domain : Name) : Bool :=
  domainInSet env domain p.allowExact || p.allowWild.any fun re => re domain

/-- `CompiledProfile::blocks`. -/
def blocks (env : Crates) (p : Profile) (domain : Name) : Bool :=
  domainInSet env domain p.blockExact || p.blockWild.any fun re => re domain

end Profile

/-! ## The decision -/

section Decision

variable (env : Crates) (s : Sets)

/-- `check_blocked_in`: the manual entries and services, then the list map with the
hierarchy walk. -/
def checkBlockedIn (domain : Name) (fst : FstMap) : Bool :=
  s.blacklist.contains env domain || s.blockedServices.contains env domain ||
    decide (domain ∈ fst) ||
    (parents domain).any fun k => decide (k ∈ fst) && isRegistrableOrDeeper env k

/-- `is_whitelisted_for_normalized`. -/
def isWhitelistedFor (domain : Name) (profile : Option Profile) : Bool :=
  s.whitelist.contains env domain ||
    match profile.bind Profile.allowFst with
    | some fst => (matchedKey env domain fun k => decide (k ∈ fst)).isSome
    | none => decide (s.allow ≠ ∅) && (matchedKey env domain fun k => decide (k ∈ s.allow)).isSome

/-- The built-in suffixes a default-deny profile leaves alone. -/
def localSuffixes : List Name :=
  ["arpa".toList, "local".toList, "localhost".toList, "localdomain".toList, "internal".toList,
    "lan".toList, "home".toList]

/-- `is_local_infra`. -/
def isLocalInfra (domain : Name) : Bool :=
  !domain.contains '.' || localSuffixes.any (hasSuffix domain) ||
    s.localZones.any (hasSuffix domain)

/-- The tiers of `should_block_for` that run uncached, most specific first; `none`
when they leave the decision to the lists. -/
def overrides (domain : Name) (profile : Option Profile) : Option Bool :=
  if profile.any fun p => p.allows env domain then some false
  else if profile.any fun p => p.blocks env domain then some true
  else if isWhitelistedFor env s domain profile then some false
  else if profile.any fun p => p.defaultDeny && !isLocalInfra s domain then some true
  else none

/-- `should_block_for`, with the lists read directly. -/
def shouldBlockUncached (domain : Name) (profile : Option Profile) : Bool :=
  (overrides env s domain profile).getD
    (checkBlockedIn env s domain (profile.elim s.block Profile.fst))

end Decision

end Ferrite.Blocklist
