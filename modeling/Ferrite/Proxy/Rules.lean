import Ferrite.Blocklist.Names
import Ferrite.Lib.FirstMatch

/-!
# Routing rules

`proxy/src/rules.rs`: a rule sends an exact domain with its subdomains, a wildcard, or
the domains of a whole service to an egress, for every client or for some.  `compile`
resolves the egresses, expands the services and sorts by specificity, so that the first
match is the most specific.

* `takes_of_all` — a rule without a client list is for whoever asks;
* `egress_of_mem_compileRule` — a compiled rule points where its rule's egress is;
* `wins_of_find?` — the first match in the compiled list is, in the order of the config,
  the first of the most specific that match.
-/

namespace Ferrite.Proxy

open Blocklist FirstMatch

/-- `RuleConfig`. -/
structure RuleConfig where
  pattern : Text
  service : Option Text
  egress : Text
  failClosed : Bool
  clients : List Text
deriving DecidableEq

/-- `RuleConfig::hit_key`: the pattern, or `service:` and the id. -/
def RuleConfig.hitKey (r : RuleConfig) : Text :=
  match r.service with
  | some id => "service:".toList ++ id
  | none => r.pattern

/-- `Matcher`. -/
inductive Matcher where
  | exact (p : Name)
  | wildcard (re : Regex)

/-- `CompiledRule`. -/
structure CompiledRule where
  matcher : Matcher
  pattern : Text
  egressIdx : ℕ
  failClosed : Bool
  clients : List Text
  specificity : UInt32

namespace CompiledRule

/-- `CompiledRule::matches`. -/
def matchesName (r : CompiledRule) (name : Name) : Bool :=
  match r.matcher with
  | .exact p => name == p || ('.' :: p).isSuffixOf name
  | .wildcard re => re name

/-- `CompiledRule::matches_client`: no list is for everybody. -/
def matchesClient (r : CompiledRule) (ip : Text) (mac device : Option Text) : Bool :=
  r.clients.isEmpty || r.clients.any fun c =>
    c.eqIgnoreAsciiCase ip || mac.any c.eqIgnoreAsciiCase || device.any c.eqIgnoreAsciiCase

/-- The condition under which `route` takes a rule. -/
def takes (name : Name) (ip : Text) (mac device : Option Text) (r : CompiledRule) : Bool :=
  r.matchesName name && r.matchesClient ip mac device

/-- A rule without a client list is for whoever asks. -/
theorem takes_of_all {r : CompiledRule} (h : r.clients.isEmpty = true) (name : Name) (ip : Text)
    (mac device : Option Text) : r.takes name ip mac device = r.matchesName name := by
  simp [takes, matchesClient, h]

theorem find?_takes_of_all {rules : List CompiledRule}
    (h : ∀ r ∈ rules, r.clients.isEmpty = true) (name : Name) (ip : Text)
    (mac device : Option Text) :
    rules.find? (takes name ip mac device) = rules.find? (matchesName · name) := by
  induction rules with
  | nil => rfl
  | cons r rules ih =>
    rw [List.find?_cons, List.find?_cons, takes_of_all (h r List.mem_cons_self),
      ih fun r' hr' => h r' (List.mem_cons_of_mem _ hr')]

end CompiledRule

/-- `label_count`: the labels that are neither empty nor a star. -/
def labelCount (pattern : Text) : UInt32 :=
  .ofNat ((pattern.splitOn '.').countP fun l => l ≠ [] ∧ l ≠ ['*'])

/-- What `compile` makes of one rule: nothing if its egress is not active, its pattern is
invalid or its service cannot be routed. -/
def compileRule (env : Crates) (egressIdx : List (Text × ℕ)) (r : RuleConfig) :
    List CompiledRule :=
  match egressIdx.lookup r.egress with
  | none => []
  | some idx =>
    let clients := (r.clients.map fun c => c.trim.toAsciiLowercase).filter (· ≠ [])
    match r.service with
    | some id =>
      match (findService env id).filter CatalogService.routable with
      | none => []
      | some svc => svc.domains.map fun domain =>
        ⟨.exact domain, r.hitKey, idx, r.failClosed, clients, labelCount domain * 2 + 1⟩
    | none =>
      let labels := labelCount r.pattern
      if r.pattern.contains '*' then
        match wildcardToRegex env r.pattern with
        | .ok re => [⟨.wildcard re, r.pattern, idx, r.failClosed, clients, labels * 2⟩]
        | .error _ => []
      else
        -- exact beats a wildcard with as many labels
        [⟨.exact r.pattern, r.pattern, idx, r.failClosed, clients, labels * 2 + 1⟩]

/-- `compile`: the most specific first, and rules that are as specific in the order of the
config. -/
def compile (env : Crates) (rules : List RuleConfig) (egressIdx : List (Text × ℕ)) :
    List CompiledRule :=
  byRank (fun r => r.specificity.toNat) (rules.flatMap (compileRule env egressIdx))

theorem egress_of_mem_compileRule {env : Crates} {egressIdx : List (Text × ℕ)} {rule : RuleConfig}
    {r : CompiledRule} (h : r ∈ compileRule env egressIdx rule) :
    egressIdx.lookup rule.egress = some r.egressIdx := by
  unfold compileRule at h
  cases hidx : egressIdx.lookup rule.egress with
  | none => simp [hidx] at h
  | some idx =>
    simp only [hidx] at h
    cases hservice : rule.service with
    | some id =>
      simp only [hservice] at h
      cases hsvc : (findService env id).filter CatalogService.routable with
      | none => simp [hsvc] at h
      | some svc =>
        simp only [hsvc, List.mem_map] at h
        obtain ⟨domain, -, rfl⟩ := h
        rfl
    | none =>
      simp only [hservice] at h
      split at h
      · cases hre : wildcardToRegex env rule.pattern with
        | ok re =>
          simp only [hre, List.mem_singleton] at h
          rw [h]
        | error e => simp [hre] at h
      · rw [List.mem_singleton.1 h]

/-- The compiled rule belongs to a configured rule that wins: nothing that takes the name is
more specific, and nothing before it in the config is as specific. -/
structure Wins (env : Crates) (egressIdx : List (Text × ℕ)) (rules : List RuleConfig)
    (takes : CompiledRule → Bool) (rule : RuleConfig) (r : CompiledRule) : Prop where
  holds : takes r = true
  highest : ∀ r' ∈ rules.flatMap (compileRule env egressIdx), takes r' = true →
    r'.specificity ≤ r.specificity
  first : ∃ earlier later before after, rules = earlier ++ rule :: later ∧
    compileRule env egressIdx rule = before ++ r :: after ∧
    ∀ r' ∈ earlier.flatMap (compileRule env egressIdx) ++ before, takes r' = true →
      r'.specificity < r.specificity

theorem Wins.mem {env : Crates} {egressIdx : List (Text × ℕ)} {rules : List RuleConfig}
    {takes : CompiledRule → Bool} {rule : RuleConfig} {r : CompiledRule}
    (h : Wins env egressIdx rules takes rule r) :
    rule ∈ rules ∧ r ∈ compileRule env egressIdx rule := by
  obtain ⟨earlier, later, before, after, rfl, hcompiled, -⟩ := h.first
  exact ⟨by simp, by simp [hcompiled]⟩

/-- **The first match wins.** -/
theorem wins_of_find? {env : Crates} {egressIdx : List (Text × ℕ)} {rules : List RuleConfig}
    {takes : CompiledRule → Bool} {r : CompiledRule}
    (h : (compile env rules egressIdx).find? takes = some r) :
    ∃ rule, Wins env egressIdx rules takes rule r := by
  have hbest := firstBest_of_find? h
  obtain ⟨earlier, rule, later, before, after, hrules, hcompiled, hlt⟩ := hbest.exists_rule
  refine ⟨rule, hbest.holds, fun r' hr' htakes => ?_,
    earlier, later, before, after, hrules, hcompiled, fun r' hr' htakes => ?_⟩
  · exact UInt32.le_iff_toNat_le.2 (hbest.rank_le hr' htakes)
  · exact UInt32.lt_iff_toNat_lt.2 (hlt r' hr' htakes)

end Ferrite.Proxy
