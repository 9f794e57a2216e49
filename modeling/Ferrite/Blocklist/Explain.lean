import Ferrite.Blocklist.CacheFiles
import Ferrite.Blocklist.Precedence

/-!
# The diagnostic

`Blocklist::explain` answers why a name is blocked.  It decides a second time: where the
query path asks the merged maps and the merged set of service domains, it asks each list's
own file and each service, so that a match can be told by its source.

* `sources_ne_nil_iff`, `isSome_whitelistMatch_iff` — the two ways of asking agree as soon
  as the served maps are the unions of the lists' maps (`Settled`);
* `holds_of_mem_sources` — a reported source has the key it is reported with;
* `explain_tells_truth` — together.
-/

namespace Ferrite.Blocklist

open FirstMatch

/-! ## The explanation -/

/-- `MatchInfo`. -/
structure MatchInfo where
  entry : Text
  matched : Name
  list : Option Text
deriving DecidableEq, Repr

/-- `BlockSource`. -/
structure BlockSource where
  kind : Text
  name : Text
  matched : Name
deriving DecidableEq, Repr

/-- `BlockExplanation`. -/
structure BlockExplanation where
  domain : Name
  blocked : Bool
  whitelisted : Bool
  whitelistMatch : Option MatchInfo
  sources : List BlockSource
deriving DecidableEq, Repr

/-- The subscriptions of one polarity, as the diagnostic reads them: the configured lists,
and what `mmap_fst` gives for a file of the cache directory. -/
structure ListDir where
  lists : List ListConfig
  mmapFst : FileName → Option FstMap

namespace ManualList

/-- `ManualList::exact_match`. -/
def exactMatch (env : Crates) (l : ManualList) (domain : Name) : Option Name :=
  matchedKey env domain fun k => decide (k ∈ l.exact)

/-- `ManualList::matching_patterns`. -/
def matchingPatterns (l : ManualList) (domain : Name) : List Text :=
  (l.wildcards.filter fun w => w.2 domain).map Prod.fst

end ManualList

/-- `ServiceBlock::matches`. -/
def ServiceBlock.matches (env : Crates) (b : ServiceBlock) (domain : Name) :
    List (CatalogService × Name) :=
  (b.ids.filterMap (findService env)).filterMap fun svc =>
    (matchedKey env domain fun k => svc.domains.contains k).map fun key => (svc, key)

/-- `Subscriptions::merged_match`. -/
def mergedMatch (env : Crates) (fst : FstMap) (domain : Name) : Option Name :=
  matchedKey env domain fun k => decide (k ∈ fst)

section

variable (isAlphanumeric : Char → Bool) (env : Crates)

/-- `Subscriptions::attribute`: a list whose file does not map is passed over. -/
def attributed (dir : ListDir) (domain : Name) : List (Text × Name) :=
  (dir.lists.filter ListConfig.enabled).filterMap fun list => do
    let map ← dir.mmapFst (ListCache.new isAlphanumeric list.name).fst
    let key ← matchedKey env domain fun k => decide (k ∈ map)
    some (list.name, key)

/-- `Blocklist::whitelist_match`. -/
def whitelistMatch (s : Sets) (allow : ListDir) (domain : Name) : Option MatchInfo :=
  match s.whitelist.exactMatch env domain with
  | some key => some ⟨key, key, none⟩
  | none =>
    match (s.whitelist.matchingPatterns domain).head? with
    | some pat => some ⟨pat, domain, none⟩
    | none =>
      match (attributed isAlphanumeric env allow domain).head? with
      | some (name, key) => some ⟨key, key, some name⟩
      | none =>
        (mergedMatch env s.allow domain).map fun key =>
          ⟨key, key, some "allowlist subscription (source file unavailable)".toList⟩

/-- The kind of a pattern entry. -/
def patternKind (pat : Text) : Text :=
  if (regexBody pat).isSome then "regex".toList else "wildcard".toList

/-- The lists that block the name, or the merged map when none of their files does. -/
def listSources (s : Sets) (block : ListDir) (domain : Name) : List BlockSource :=
  match attributed isAlphanumeric env block domain with
  | [] => (mergedMatch env s.block domain).toList.map fun key =>
      ⟨"list".toList, "subscription (source file unavailable)".toList, key⟩
  | matched => matched.map fun m => ⟨"list".toList, m.1, m.2⟩

/-- Every source that would block the name, in the order they are reported. -/
def blockSources (s : Sets) (block : ListDir) (domain : Name) : List BlockSource :=
  ((s.blacklist.exactMatch env domain).toList.map fun key =>
    ⟨"blacklist".toList, "manual blacklist".toList, key⟩) ++
  ((s.blacklist.matchingPatterns domain).map fun pat => ⟨patternKind pat, pat, domain⟩) ++
  ((s.blockedServices.matches env domain).map fun m => ⟨"service".toList, m.1.name, m.2⟩) ++
  listSources isAlphanumeric env s block domain

/-- `Blocklist::explain`. -/
def explain (s : Sets) (block allow : ListDir) (domain : Text) : BlockExplanation :=
  let domain := normalise domain
  let whitelisted := whitelistMatch isAlphanumeric env s allow domain
  let sources := blockSources isAlphanumeric env s block domain
  { domain := domain
    blocked := !whitelisted.isSome && !sources.isEmpty
    whitelisted := whitelisted.isSome
    whitelistMatch := whitelisted
    sources := sources }

/-! ## Settled states -/

/-- The map is the union of what the files of the enabled lists map to. -/
def IsUnion (dir : ListDir) (fst : FstMap) : Prop :=
  ∀ n, n ∈ fst ↔ ∃ l ∈ dir.lists, l.enabled = true ∧
    ∃ map, dir.mmapFst (ListCache.new isAlphanumeric l.name).fst = some map ∧ n ∈ map

/-- A settled state: the served maps are the unions of the enabled lists' maps on disk, and
no verdict is cached that the sets do not give.  A `ServiceBlock` is only ever made by `new`. -/
structure Settled (e : Engine) (block allow : ListDir) : Prop where
  block : IsUnion isAlphanumeric block e.sets.block
  allow : IsUnion isAlphanumeric allow e.sets.allow
  cached : Coherent env e
  services : ∃ ids, e.sets.blockedServices = .new env ids

/-- The source has the key: it is one of its names, or a name its pattern matches. -/
inductive Holds (s : Sets) (block : ListDir) : BlockSource → Prop where
  | blacklist {key : Name} : key ∈ s.blacklist.exact →
      Holds s block ⟨"blacklist".toList, "manual blacklist".toList, key⟩
  | pattern {w : Text × Regex} {key : Name} : w ∈ s.blacklist.wildcards → w.2 key = true →
      Holds s block ⟨patternKind w.1, w.1, key⟩
  | service {id : Text} {svc : CatalogService} {key : Name} : id ∈ s.blockedServices.ids →
      findService env id = some svc → key ∈ svc.domains →
      Holds s block ⟨"service".toList, svc.name, key⟩
  | list {l : ListConfig} {map : FstMap} {key : Name} : l ∈ block.lists → l.enabled = true →
      block.mmapFst (ListCache.new isAlphanumeric l.name).fst = some map → key ∈ map →
      Holds s block ⟨"list".toList, l.name, key⟩
  | merged {key : Name} : key ∈ s.block →
      Holds s block ⟨"list".toList, "subscription (source file unavailable)".toList, key⟩

end

/-! ## Sources and keys -/

section

variable {isAlphanumeric : Char → Bool} {env : Crates} {domain : Name}

/-- A key that is found is one of the names, and reaches the domain. -/
theorem covers_of_matchedKey {contains : Name → Bool} {key : Name}
    (h : matchedKey env domain contains = some key) :
    contains key = true ∧ Covers env domain key := by
  unfold matchedKey at h
  split at h
  · rename_i hself
    cases h
    exact ⟨hself, Or.inl rfl⟩
  · have hmem := List.mem_of_find?_eq_some h
    have hkey := List.find?_some h
    rw [Bool.and_eq_true] at hkey
    exact ⟨hkey.1, Or.inr ⟨mem_parents_iff.1 hmem, hkey.2⟩⟩

theorem mem_attributed_iff {dir : ListDir} {m : Text × Name} :
    m ∈ attributed isAlphanumeric env dir domain ↔ ∃ l ∈ dir.lists, l.enabled = true ∧
      ∃ map, dir.mmapFst (ListCache.new isAlphanumeric l.name).fst = some map ∧
        ∃ key, matchedKey env domain (fun k => decide (k ∈ map)) = some key ∧ m = (l.name, key) := by
  simp only [attributed, List.mem_filterMap, List.mem_filter, Option.bind_eq_bind,
    Option.bind_eq_some_iff, Option.some.injEq]
  constructor
  · rintro ⟨l, ⟨hl, hon⟩, map, hmap, key, hkey, rfl⟩
    exact ⟨l, hl, hon, map, hmap, key, hkey, rfl⟩
  · rintro ⟨l, hl, hon, map, hmap, key, hkey, rfl⟩
    exact ⟨l, ⟨hl, hon⟩, map, hmap, key, hkey, rfl⟩

theorem mem_serviceMatches_iff {b : ServiceBlock} {svc : CatalogService} {key : Name} :
    (svc, key) ∈ b.matches env domain ↔ ∃ id ∈ b.ids, findService env id = some svc ∧
      matchedKey env domain (fun k => svc.domains.contains k) = some key := by
  simp only [ServiceBlock.matches, List.mem_filterMap, Option.map_eq_some_iff, Prod.mk.injEq]
  constructor
  · rintro ⟨svc, ⟨id, hid, hsvc⟩, key, hkey, rfl, rfl⟩
    exact ⟨id, hid, hsvc, hkey⟩
  · rintro ⟨id, hid, hsvc, hkey⟩
    exact ⟨svc, ⟨id, hid, hsvc⟩, key, hkey, rfl, rfl⟩

/-- A reported source has its key, which is the name or a parent of it. -/
theorem holds_of_mem_sources {s : Sets} {block : ListDir} {src : BlockSource}
    (h : src ∈ blockSources isAlphanumeric env s block domain) :
    Holds isAlphanumeric env s block src ∧ Covers env domain src.matched := by
  simp only [blockSources, List.mem_append, List.mem_map, Option.mem_toList] at h
  rcases h with ((⟨key, hkey, rfl⟩ | ⟨pat, hpat, rfl⟩) | ⟨⟨svc, key⟩, hm, rfl⟩) | h
  · obtain ⟨hmem, hc⟩ := covers_of_matchedKey hkey
    exact ⟨.blacklist (of_decide_eq_true hmem), hc⟩
  · simp only [ManualList.matchingPatterns, List.mem_map, List.mem_filter] at hpat
    obtain ⟨w, ⟨hw, hmatch⟩, rfl⟩ := hpat
    exact ⟨.pattern hw hmatch, Or.inl rfl⟩
  · obtain ⟨id, hid, hsvc, hkey⟩ := mem_serviceMatches_iff.1 hm
    obtain ⟨hmem, hc⟩ := covers_of_matchedKey hkey
    exact ⟨.service hid hsvc (by simpa using hmem), hc⟩
  · unfold listSources at h
    split at h
    · simp only [List.mem_map, Option.mem_toList] at h
      obtain ⟨key, hkey, rfl⟩ := h
      obtain ⟨hmem, hc⟩ := covers_of_matchedKey hkey
      exact ⟨.merged (of_decide_eq_true hmem), hc⟩
    · simp only [List.mem_map] at h
      obtain ⟨m, hm, rfl⟩ := h
      obtain ⟨l, hl, hon, map, hmap, key, hkey, rfl⟩ := mem_attributed_iff.1 hm
      obtain ⟨hmem, hc⟩ := covers_of_matchedKey hkey
      exact ⟨.list hl hon hmap (of_decide_eq_true hmem), hc⟩

/-! ## The two ways of asking -/

theorem isSome_exactMatch_iff {l : ManualList} :
    (l.exactMatch env domain).isSome = true ↔ ∃ k ∈ l.exact, Covers env domain k :=
  isSome_matchedKey_iff.trans (by simp)

theorem isSome_mergedMatch_iff {fst : FstMap} :
    (mergedMatch env fst domain).isSome = true ↔ ∃ k ∈ fst, Covers env domain k :=
  isSome_matchedKey_iff.trans (by simp)

theorem matchingPatterns_ne_nil_iff {l : ManualList} :
    l.matchingPatterns domain ≠ [] ↔ ∃ re ∈ l.wildcards.map Prod.snd, re domain = true := by
  simp only [ManualList.matchingPatterns, ne_eq, List.map_eq_nil_iff, List.filter_eq_nil_iff,
    not_forall, not_not, List.mem_map, exists_prop]
  constructor
  · rintro ⟨w, hw, hmatch⟩
    exact ⟨w.2, ⟨w, hw, rfl⟩, hmatch⟩
  · rintro ⟨re, ⟨w, hw, rfl⟩, hmatch⟩
    exact ⟨w, hw, hmatch⟩

/-- A list names the domain exactly if the union of the lists does. -/
theorem attributed_ne_nil_iff {dir : ListDir} {fst : FstMap} (h : IsUnion isAlphanumeric dir fst) :
    attributed isAlphanumeric env dir domain ≠ [] ↔ ∃ k ∈ fst, Covers env domain k := by
  constructor
  · intro hne
    obtain ⟨m, hm⟩ := List.exists_mem_of_ne_nil _ hne
    obtain ⟨l, hl, hon, map, hmap, key, hkey, rfl⟩ := mem_attributed_iff.1 hm
    obtain ⟨hmem, hc⟩ := covers_of_matchedKey hkey
    exact ⟨key, (h key).2 ⟨l, hl, hon, map, hmap, of_decide_eq_true hmem⟩, hc⟩
  · rintro ⟨k, hk, hc⟩
    obtain ⟨l, hl, hon, map, hmap, hmem⟩ := (h k).1 hk
    have hsome : (matchedKey env domain fun k => decide (k ∈ map)).isSome = true :=
      isSome_matchedKey_iff.2 ⟨k, decide_eq_true hmem, hc⟩
    obtain ⟨key, hkey⟩ := Option.isSome_iff_exists.1 hsome
    exact List.ne_nil_of_mem (mem_attributed_iff.2 ⟨l, hl, hon, map, hmap, key, hkey, rfl⟩)

/-- A service names the domain exactly if the merged set of their domains does. -/
theorem serviceMatches_ne_nil_iff {ids : List Text} :
    (ServiceBlock.new env ids).matches env domain ≠ [] ↔
      ∃ k ∈ (ServiceBlock.new env ids).domains, Covers env domain k := by
  have hdomains : ∀ k, k ∈ (ServiceBlock.new env ids).domains ↔
      ∃ id ∈ (ServiceBlock.new env ids).ids, ∃ svc, findService env id = some svc ∧ k ∈ svc.domains := by
    intro k
    simp only [ServiceBlock.new, domainsOf, List.mem_toFinset, List.mem_flatMap, List.mem_filterMap]
    constructor
    · rintro ⟨svc, ⟨id, hid, hsvc⟩, hk⟩
      exact ⟨id, hid, svc, hsvc, hk⟩
    · rintro ⟨id, hid, svc, hsvc, hk⟩
      exact ⟨svc, ⟨id, hid, hsvc⟩, hk⟩
  constructor
  · intro hne
    obtain ⟨⟨svc, key⟩, hm⟩ := List.exists_mem_of_ne_nil _ hne
    obtain ⟨id, hid, hsvc, hkey⟩ := mem_serviceMatches_iff.1 hm
    obtain ⟨hmem, hc⟩ := covers_of_matchedKey hkey
    exact ⟨key, (hdomains key).2 ⟨id, hid, svc, hsvc, by simpa using hmem⟩, hc⟩
  · rintro ⟨k, hk, hc⟩
    obtain ⟨id, hid, svc, hsvc, hmem⟩ := (hdomains k).1 hk
    have hsome : (matchedKey env domain fun k => svc.domains.contains k).isSome = true :=
      isSome_matchedKey_iff.2 ⟨k, by simpa using hmem, hc⟩
    obtain ⟨key, hkey⟩ := Option.isSome_iff_exists.1 hsome
    exact List.ne_nil_of_mem (mem_serviceMatches_iff.2 ⟨id, hid, hsvc, hkey⟩)

/-- With the served map the union of the lists, the fallback is never needed. -/
theorem listSources_ne_nil_iff {s : Sets} {block : ListDir}
    (h : IsUnion isAlphanumeric block s.block) :
    listSources isAlphanumeric env s block domain ≠ [] ↔ ∃ k ∈ s.block, Covers env domain k := by
  unfold listSources
  split
  · rw [← isSome_mergedMatch_iff, Option.isSome_iff_ne_none]
    simp
  · rename_i hne
    rw [← attributed_ne_nil_iff h]
    simp

/-- A source is reported exactly if the network-wide tier applies. -/
theorem sources_ne_nil_iff {s : Sets} {block : ListDir} (h : IsUnion isAlphanumeric block s.block)
    (hservices : ∃ ids, s.blockedServices = .new env ids) :
    blockSources isAlphanumeric env s block domain ≠ [] ↔ (blockTier env s none).Applies domain := by
  obtain ⟨ids, hids⟩ := hservices
  have hexact : (s.blacklist.exactMatch env domain).toList ≠ [] ↔
      ∃ k ∈ s.blacklist.exact, Covers env domain k := by
    rw [← isSome_exactMatch_iff, Option.isSome_iff_ne_none]
    simp
  simp only [blockSources, ne_eq, List.append_eq_nil_iff, List.map_eq_nil_iff, not_and_or, blockTier,
    Named, or_assoc]
  rw [← ne_eq, hexact, ← ne_eq, matchingPatterns_ne_nil_iff, ← ne_eq, hids, serviceMatches_ne_nil_iff,
    ← ne_eq, listSources_ne_nil_iff h]
  rfl

/-- An exemption is reported exactly if the whitelist tier applies. -/
theorem isSome_whitelistMatch_iff {s : Sets} {allow : ListDir}
    (h : IsUnion isAlphanumeric allow s.allow) :
    (whitelistMatch isAlphanumeric env s allow domain).isSome = true ↔
      (whitelistTier env s none).Applies domain := by
  simp only [whitelistTier, Named, or_assoc]
  unfold whitelistMatch
  split
  · rename_i key hkey
    have hexact := isSome_exactMatch_iff.1 (Option.isSome_iff_exists.2 ⟨key, hkey⟩)
    exact ⟨fun _ => Or.inl hexact, fun _ => rfl⟩
  rename_i hexact
  have hno : ¬ ∃ k ∈ s.whitelist.exact, Covers env domain k := by
    rw [← isSome_exactMatch_iff, hexact]
    exact nofun
  rw [or_iff_right hno]
  split
  · rename_i pat hpat
    have hpatterns := matchingPatterns_ne_nil_iff.1 (List.ne_nil_of_mem (List.mem_of_head? hpat))
    exact ⟨fun _ => Or.inl hpatterns, fun _ => rfl⟩
  rename_i hpat
  have hnone : ¬ ∃ re ∈ s.whitelist.wildcards.map Prod.snd, re domain = true := by
    rw [← matchingPatterns_ne_nil_iff, List.head?_eq_none_iff.1 hpat]
    exact fun h => h rfl
  rw [or_iff_right hnone]
  split
  · rename_i name key hm
    have hlists := (attributed_ne_nil_iff h).1 (List.ne_nil_of_mem (List.mem_of_head? hm))
    exact ⟨fun _ => hlists, fun _ => rfl⟩
  rw [Option.isSome_map, isSome_mergedMatch_iff]
  rfl

end

/-! ## The diagnostic tells the truth -/

/-- **The diagnostic tells the truth.**  In every settled state and for every input, what
`explain` says of the name is what the query path decides without a profile, what it says of
the whitelist is what the query path finds there, and if it says blocked, then it reports a
source, and every source it reports has the key it is reported with, which is the name or a
parent of it. -/
theorem explain_tells_truth (isAlphanumeric : Char → Bool) (env : Crates) (e : Engine)
    (block allow : ListDir) (hs : Settled isAlphanumeric env e block allow) (d : Text) (now : ℕ) :
    let found := explain isAlphanumeric env e.sets block allow d
    found.blocked = shouldBlockFor env e none (normalise d) now ∧
      found.whitelisted = isWhitelistedFor env e.sets (normalise d) none ∧
      (found.blocked = true → found.sources ≠ []) ∧
      ∀ src ∈ found.sources, Holds isAlphanumeric env e.sets block src ∧
        (src.matched = normalise d ∨ ∃ pre, normalise d = pre ++ '.' :: src.matched) := by
  have hwhite : (whitelistMatch isAlphanumeric env e.sets allow (normalise d)).isSome =
      isWhitelistedFor env e.sets (normalise d) none := by
    rw [Bool.eq_iff_iff, isSome_whitelistMatch_iff hs.allow, whitelisted_iff]
  have hsources : (!(blockSources isAlphanumeric env e.sets block (normalise d)).isEmpty) =
      checkBlockedIn env e.sets (normalise d) (blockMap e.sets none) := by
    rw [Bool.eq_iff_iff, checkBlockedIn_iff, ← sources_ne_nil_iff hs.block hs.services,
      Bool.not_eq_true', List.isEmpty_eq_false_iff]
  have hlive : e.live none := nofun
  refine ⟨?_, hwhite, fun hblocked => ?_, fun src hsrc => ?_⟩
  · rw [shouldBlockFor_eq hs.cached hlive]
    simp only [explain, hwhite, hsources, shouldBlockUncached, overrides, Option.map_none,
      Option.any_none, Bool.false_eq_true, if_false]
    cases isWhitelistedFor env e.sets (normalise d) none <;> rfl
  · simp only [explain, Bool.and_eq_true, Bool.not_eq_true', List.isEmpty_eq_false_iff] at hblocked
    exact hblocked.2
  · obtain ⟨hholds, hc⟩ := holds_of_mem_sources hsrc
    exact ⟨hholds, hc.imp id And.left⟩

namespace ExplainExample

/-- One service. -/
def env : Crates := { Example.env with
  catalog := [⟨"tiktok".toList, "TikTok".toList, true, ["tiktok.com".toList]⟩] }

/-- Two lists, one of them off. -/
def lists : List ListConfig :=
  [⟨"ads".toList, [], true⟩, ⟨"old".toList, [], false⟩]

/-- Both files map. -/
def dir : ListDir where
  lists := lists
  mmapFst := fun file =>
    if file = "ads.fst".toList then some {"evil.com".toList}
    else if file = "old.fst".toList then some {"fine.com".toList}
    else none

/-- What is served is the map of the list that is on. -/
def engine : Engine :=
  (System.start ⟨⟨∅, []⟩, ⟨∅, []⟩, .new env ["tiktok".toList], {"evil.com".toList}, ∅, []⟩ 10 []).engine

/-- No allowlist. -/
def noDir : ListDir := ⟨[], fun _ => none⟩

theorem settled : Settled Char.isAlphanum env engine dir noDir where
  block := by
    intro n
    have hads : dir.mmapFst (ListCache.new Char.isAlphanum "ads".toList).fst =
        some {"evil.com".toList} := by
      decide
    constructor
    · exact fun hn => ⟨⟨"ads".toList, [], true⟩, List.mem_cons_self .., rfl, _, hads, hn⟩
    · rintro ⟨l, hl, hon, map, hmap, hn⟩
      rcases List.mem_cons.1 hl with rfl | hl
      · cases hads.symm.trans hmap
        exact hn
      · cases List.mem_singleton.1 hl
        cases hon
  allow := by
    refine fun n => ⟨nofun, ?_⟩
    rintro ⟨l, hl, -⟩
    cases hl
  cached := by
    intro h hl x hx
    cases h with
    | none => cases hx
    | some p => cases hx
  services := ⟨_, rfl⟩

end ExplainExample

open ExplainExample in
/-- A name under one that a list has: blocked, and told by the list and its entry. -/
theorem explain_tells_truth_subdomain :
    let found := explain Char.isAlphanum env engine.sets dir noDir "WWW.evil.com.".toList
    found.sources = [⟨"list".toList, "ads".toList, "evil.com".toList⟩] ∧
      found.blocked = shouldBlockFor env engine none "www.evil.com".toList 0 ∧
      shouldBlockFor env engine none "www.evil.com".toList 0 = true := by
  have hname : normalise "WWW.evil.com.".toList = "www.evil.com".toList := by decide +kernel
  have htruth := explain_tells_truth Char.isAlphanum env engine dir noDir settled
    "WWW.evil.com.".toList 0
  rw [hname] at htruth
  exact ⟨by decide +kernel, htruth.1, by decide +kernel⟩

end Ferrite.Blocklist
