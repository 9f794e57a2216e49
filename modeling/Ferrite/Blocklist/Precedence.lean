import Ferrite.Lib.FirstMatch
import Ferrite.Blocklist.Profiles
import Mathlib.Logic.Relation

/-!
# The documented precedence

The block decision is documented as six tiers, most specific first: a profile's allow
entries, its block entries, the whitelist, default-deny, the network-wide entries with the
lists, and otherwise allowed.  `precedence` writes them down as rules over sets of names, a
rule for `k` reaching `k` and what is under it down from the registrable domain (`Covers`).
The engine computes its decision with walks, patterns, flags and two layers of cache.

* `shouldBlockUncached_iff` — the computed decision is that of the tiers;
* `Loosens.favours`, `Tightens.favours` — what an added entry does to each tier;
* `precedence_followed_of_no_overtaking` — whatever is cached, in every quiet state of a run
  in which no query is overtaken the decision is that of the tiers, and it is monotone in the
  entries.
-/

namespace Ferrite.Blocklist

open Lts FirstMatch

/-! ## What an entry reaches -/

/-- An entry for `k` reaches `domain`: it is the name itself, or a parent of it that is no
public suffix. -/
def Covers (env : Crates) (domain k : Name) : Prop :=
  k = domain ∨ (∃ pre, domain = pre ++ '.' :: k) ∧ isRegistrableOrDeeper env k = true

theorem mem_parents_iff {domain k : Name} : k ∈ parents domain ↔ ∃ pre, domain = pre ++ '.' :: k := by
  induction domain with
  | nil => simp [parents]
  | cons c cs ih =>
    have hsplit : (∃ pre, c :: cs = pre ++ '.' :: k) ↔
        (c = '.' ∧ cs = k) ∨ ∃ pre, cs = pre ++ '.' :: k := by
      constructor
      · rintro ⟨pre, hpre⟩
        cases pre with
        | nil =>
          cases hpre
          exact Or.inl ⟨rfl, rfl⟩
        | cons d pre =>
          cases hpre
          exact Or.inr ⟨pre, rfl⟩
      · rintro (⟨rfl, rfl⟩ | ⟨pre, rfl⟩)
        · exact ⟨[], rfl⟩
        · exact ⟨c :: pre, rfl⟩
    rw [hsplit, ← ih, parents]
    by_cases hc : c = '.'
    · simp [hc, eq_comm]
    · simp [hc]

section

variable {env : Crates} {domain : Name}

/-- The walk finds a key exactly if one reaches the name. -/
theorem walk_iff {contains : Name → Bool} :
    (contains domain = true ∨
        ((parents domain).any fun k => contains k && isRegistrableOrDeeper env k) = true) ↔
      ∃ k, contains k = true ∧ Covers env domain k := by
  simp only [List.any_eq_true, Bool.and_eq_true, mem_parents_iff]
  constructor
  · rintro (h | ⟨k, hpre, hk, hreg⟩)
    · exact ⟨domain, h, Or.inl rfl⟩
    · exact ⟨k, hk, Or.inr ⟨hpre, hreg⟩⟩
  · rintro ⟨k, hk, rfl | ⟨hpre, hreg⟩⟩
    · exact Or.inl hk
    · exact Or.inr ⟨k, hpre, hk, hreg⟩

theorem domainInSet_iff {set : Finset Name} :
    domainInSet env domain set = true ↔ ∃ k ∈ set, Covers env domain k := by
  rw [domainInSet, Bool.or_eq_true]
  exact (@walk_iff env domain fun k => decide (k ∈ set)).trans (by simp)

theorem isSome_matchedKey_iff {contains : Name → Bool} :
    (matchedKey env domain contains).isSome = true ↔
      ∃ k, contains k = true ∧ Covers env domain k := by
  rw [← walk_iff, matchedKey]
  split
  · rename_i h
    simp [h]
  · rename_i h
    simp [h]

/-- A label-boundary suffix. -/
theorem hasSuffix_iff {suffix : Name} :
    hasSuffix domain suffix = true ↔ domain = suffix ∨ ∃ pre, domain = pre ++ '.' :: suffix := by
  rw [hasSuffix, Bool.or_eq_true, beq_iff_eq, List.isSuffixOf_iff_suffix]
  exact or_congr_right ⟨fun ⟨pre, h⟩ => ⟨pre, h.symm⟩, fun ⟨pre, h⟩ => ⟨pre, h.symm⟩⟩

end

/-! ## The tiers -/

section Tiers

variable (env : Crates) (s : Sets) (profile : Option Profile)

/-- The entries name the domain, as a name that reaches it or as a pattern. -/
def Named (exact : Finset Name) (wild : List Regex) (domain : Name) : Prop :=
  (∃ k ∈ exact, Covers env domain k) ∨ ∃ re ∈ wild, re domain = true

/-- The names default-deny leaves alone. -/
def LocalInfra (domain : Name) : Prop :=
  '.' ∉ domain ∨ ∃ zone ∈ localSuffixes ++ s.localZones,
    domain = zone ∨ ∃ pre, domain = pre ++ '.' :: zone

/-- The allowlist map that counts: the profile's own if it names allowlists. -/
def allowMap : FstMap := (profile.bind Profile.allowFst).getD s.allow

/-- The list map that counts. -/
def blockMap : FstMap := profile.elim s.block Profile.fst

/-- A profile's allow entries. -/
def profileAllowTier : Tier Name Bool where
  Applies := fun d => profile.elim False fun p => Named env p.allowExact p.allowWild d
  verdict := false

/-- A profile's block entries. -/
def profileBlockTier : Tier Name Bool where
  Applies := fun d => profile.elim False fun p => Named env p.blockExact p.blockWild d
  verdict := true

/-- The whitelist. -/
def whitelistTier : Tier Name Bool where
  Applies := fun d => Named env s.whitelist.exact (s.whitelist.wildcards.map Prod.snd) d ∨
    ∃ k ∈ allowMap s profile, Covers env d k
  verdict := false

/-- Default-deny. -/
def defaultDenyTier : Tier Name Bool where
  Applies := fun d => (profile.elim False fun p => p.defaultDeny = true) ∧ ¬ LocalInfra s d
  verdict := true

/-- The blacklist, the services and the lists. -/
def blockTier : Tier Name Bool where
  Applies := fun d => Named env s.blacklist.exact (s.blacklist.wildcards.map Prod.snd) d ∨
    (∃ k ∈ s.blockedServices.domains, Covers env d k) ∨ ∃ k ∈ blockMap s profile, Covers env d k
  verdict := true

/-- Everything else. -/
def otherwiseTier : Tier Name Bool where
  Applies := fun _ => True
  verdict := false

/-- **The documented precedence.** -/
def precedence : List (Tier Name Bool) :=
  [profileAllowTier env profile, profileBlockTier env profile, whitelistTier env s profile,
    defaultDenyTier s profile, blockTier env s profile, otherwiseTier]

end Tiers

/-! ## The computed decision -/

section

variable {env : Crates} {s : Sets} {domain : Name}

theorem named_iff {exact : Finset Name} {wild : List Regex} :
    (domainInSet env domain exact || wild.any fun re => re domain) = true ↔
      Named env exact wild domain := by
  rw [Bool.or_eq_true, domainInSet_iff, List.any_eq_true]
  rfl

theorem manualContains_iff {l : ManualList} :
    l.contains env domain = true ↔ Named env l.exact (l.wildcards.map Prod.snd) domain := by
  rw [← named_iff, ManualList.contains, List.any_map]
  rfl

theorem isLocalInfra_iff : isLocalInfra s domain = true ↔ LocalInfra s domain := by
  simp only [isLocalInfra, LocalInfra, Bool.or_eq_true, List.any_eq_true, hasSuffix_iff,
    List.mem_append, Bool.not_eq_true', List.contains_eq_mem, decide_eq_false_iff_not]
  constructor
  · rintro ((h | ⟨z, hz, h⟩) | ⟨z, hz, h⟩)
    · exact Or.inl h
    · exact Or.inr ⟨z, Or.inl hz, h⟩
    · exact Or.inr ⟨z, Or.inr hz, h⟩
  · rintro (h | ⟨z, hz | hz, h⟩)
    · exact Or.inl (Or.inl h)
    · exact Or.inl (Or.inr ⟨z, hz, h⟩)
    · exact Or.inr ⟨z, hz, h⟩

variable {profile : Option Profile}

theorem profileAllow_iff : (profile.any fun p => p.allows env domain) = true ↔
    (profileAllowTier env profile).Applies domain := by
  cases profile with
  | none => exact ⟨nofun, nofun⟩
  | some p => exact named_iff

theorem profileBlock_iff : (profile.any fun p => p.blocks env domain) = true ↔
    (profileBlockTier env profile).Applies domain := by
  cases profile with
  | none => exact ⟨nofun, nofun⟩
  | some p => exact named_iff

theorem whitelisted_iff : isWhitelistedFor env s domain profile = true ↔
    (whitelistTier env s profile).Applies domain := by
  rw [isWhitelistedFor, Bool.or_eq_true, manualContains_iff]
  refine or_congr_right ?_
  cases hfst : profile.bind Profile.allowFst with
  | some fst =>
    simp only [allowMap, hfst, Option.getD_some]
    exact isSome_matchedKey_iff.trans (by simp)
  | none =>
    simp only [allowMap, hfst, Option.getD_none, Bool.and_eq_true, decide_eq_true_eq]
    rw [isSome_matchedKey_iff]
    constructor
    · rintro ⟨-, k, hk, hc⟩
      exact ⟨k, of_decide_eq_true hk, hc⟩
    · rintro ⟨k, hk, hc⟩
      exact ⟨Finset.ne_empty_of_mem hk, k, decide_eq_true hk, hc⟩

theorem defaultDeny_iff : (profile.any fun p => p.defaultDeny && !isLocalInfra s domain) = true ↔
    (defaultDenyTier s profile).Applies domain := by
  simp only [defaultDenyTier, ← isLocalInfra_iff, Bool.not_eq_true]
  cases profile with
  | none => simp
  | some p => simp

theorem checkBlockedIn_iff : checkBlockedIn env s domain (blockMap s profile) = true ↔
    (blockTier env s profile).Applies domain := by
  have hservices : s.blockedServices.contains env domain = true ↔
      ∃ k ∈ s.blockedServices.domains, Covers env domain k := by
    rw [ServiceBlock.contains, Bool.and_eq_true, domainInSet_iff, decide_eq_true_eq]
    exact ⟨fun h => h.2, fun ⟨k, hk, hc⟩ => ⟨Finset.ne_empty_of_mem hk, k, hk, hc⟩⟩
  rw [checkBlockedIn, Bool.or_assoc, Bool.or_assoc, Bool.or_eq_true, manualContains_iff,
    Bool.or_eq_true, hservices, Bool.or_eq_true]
  refine or_congr_right (or_congr_right ?_)
  exact (@walk_iff env domain fun k => decide (k ∈ blockMap s profile)).trans (by simp)

/-- The computed decision is that of the first tier that applies. -/
theorem shouldBlockUncached_iff {b : Bool} :
    shouldBlockUncached env s domain profile = b ↔ Decides (precedence env s profile) domain b := by
  have hdecides : Decides (precedence env s profile) domain
      (shouldBlockUncached env s domain profile) := by
    unfold shouldBlockUncached overrides precedence
    split
    · rename_i h
      exact .here (profileAllow_iff.1 h)
    rename_i h₁
    refine .later (fun h => h₁ (profileAllow_iff.2 h)) ?_
    split
    · rename_i h
      exact .here (profileBlock_iff.1 h)
    rename_i h₂
    refine .later (fun h => h₂ (profileBlock_iff.2 h)) ?_
    split
    · rename_i h
      exact .here (whitelisted_iff.1 h)
    rename_i h₃
    refine .later (fun h => h₃ (whitelisted_iff.2 h)) ?_
    split
    · rename_i h
      exact .here (defaultDeny_iff.1 h)
    rename_i h₄
    refine .later (fun h => h₄ (defaultDeny_iff.2 h)) ?_
    rw [Option.getD_none]
    cases hb : checkBlockedIn env s domain (profile.elim s.block Profile.fst) with
    | true => exact .here (checkBlockedIn_iff.1 hb)
    | false =>
      refine .later (fun h => ?_) (.here trivial)
      have hblocked : checkBlockedIn env s domain (blockMap s profile) = true :=
        checkBlockedIn_iff.2 h
      rw [blockMap, hb] at hblocked
      cases hblocked
  constructor
  · rintro rfl
    exact hdecides
  · exact hdecides.unique

end

/-! ## Added entries -/

/-- What a query is decided by: the sets, and its profile. -/
abbrev View := Sets × Option Profile

/-- What the engine decides by under the handle. -/
def Engine.view (e : Engine) (h : Handle) : View := (e.sets, h.map e.profiles)

/-- An entry is added that allows: to the whitelist, to the allow entries of a profile, or
to an allowlist, the global set or a profile's own. -/
inductive Loosens (env : Crates) : View → View → Prop where
  | whitelist {s : Sets} {profile : Option Profile} (entry : Text) {l : ManualList} :
      s.whitelist.add env entry = .ok l → Loosens env (s, profile) ({ s with whitelist := l }, profile)
  | allowDomain {s : Sets} {profile : Option Profile} (d : Name) :
      Loosens env (s, profile) ({ s with allow := insert d s.allow }, profile)
  | profileAllow {s : Sets} (cfg : ProfileConfig) (maps : ProfileMaps) (entries : List Text) :
      cfg.allow ⊆ entries → Loosens env (s, some (cfg.rules env maps))
        (s, some (({ cfg with allow := entries } : ProfileConfig).rules env maps))
  | profileAllowDomain {s : Sets} (cfg : ProfileConfig) (maps : ProfileMaps) (d : Name) :
      Loosens env (s, some (cfg.rules env maps))
        (s, some (cfg.rules env { maps with allow := insert d maps.allow }))

/-- An entry is added that blocks: to the blacklist, to the block entries of a profile, or
to a list, of the global set or of a profile's own. -/
inductive Tightens (env : Crates) : View → View → Prop where
  | blacklist {s : Sets} {profile : Option Profile} (entry : Text) {l : ManualList} :
      s.blacklist.add env entry = .ok l → Tightens env (s, profile) ({ s with blacklist := l }, profile)
  | listDomain {s : Sets} {profile : Option Profile} (d : Name) :
      Tightens env (s, profile) ({ s with block := insert d s.block }, profile)
  | profileBlock {s : Sets} (cfg : ProfileConfig) (maps : ProfileMaps) (entries : List Text) :
      cfg.block ⊆ entries → Tightens env (s, some (cfg.rules env maps))
        (s, some (({ cfg with block := entries } : ProfileConfig).rules env maps))
  | profileListDomain {s : Sets} (cfg : ProfileConfig) (maps : ProfileMaps) (d : Name) :
      Tightens env (s, some (cfg.rules env maps))
        (s, some (cfg.rules env { maps with fst := insert d maps.fst }))

section Mono

variable {env : Crates}

/-- A tier for `b` that applies to what it did. -/
theorem favours_of_more {b : Bool} {domain : Name} {t t' : Tier Name Bool} (hverdict : t.verdict = b)
    (hsame : t'.verdict = t.verdict) (h : t.Applies domain → t'.Applies domain) :
    Favours b domain t t' := ⟨hsame, fun _ => h, fun hne => absurd hverdict hne⟩

theorem Named.mono {exact exact' : Finset Name} {wild wild' : List Regex} (he : exact ⊆ exact')
    (hw : wild ⊆ wild') {domain : Name} (h : Named env exact wild domain) :
    Named env exact' wild' domain := by
  rcases h with ⟨k, hk, hc⟩ | ⟨re, hre, hm⟩
  · exact Or.inl ⟨k, he hk, hc⟩
  · exact Or.inr ⟨re, hw hre, hm⟩

/-- An added entry names what was named. -/
theorem named_of_add {l l' : ManualList} {entry : Text} (hadd : l.add env entry = .ok l')
    {domain : Name} (h : Named env l.exact (l.wildcards.map Prod.snd) domain) :
    Named env l'.exact (l'.wildcards.map Prod.snd) domain := by
  simp only [ManualList.add] at hadd
  split at hadd
  · split at hadd
    · cases hadd
    · split at hadd
      · cases hadd
        exact h
      · cases hadd
        refine h.mono (fun _ hk => hk) ?_
        rw [List.map_append]
        exact List.subset_append_left ..
  · cases hadd
    exact h.mono (Finset.subset_insert ..) fun _ hre => hre

/-- More patterns give more names and more expressions. -/
theorem splitPatterns_mono {ps qs : List Text} (h : ps ⊆ qs) :
    (splitPatterns env ps).1 ⊆ (splitPatterns env qs).1 ∧
      (splitPatterns env ps).2 ⊆ (splitPatterns env qs).2 := by
  obtain ⟨hexact, hwild⟩ := mem_splitPatterns env ps (∅, [])
  obtain ⟨hexact', hwild'⟩ := mem_splitPatterns env qs (∅, [])
  constructor
  · intro n hn
    rcases (hexact n).1 hn with h₀ | ⟨p, hp, hrest⟩
    · cases h₀
    · exact (hexact' n).2 (Or.inr ⟨p, h hp, hrest⟩)
  · intro re hre
    rcases (hwild re).1 hre with h₀ | ⟨p, hp, hrest⟩
    · cases h₀
    · exact (hwild' re).2 (Or.inr ⟨p, h hp, hrest⟩)

/-- An entry that allows is for the verdict "allowed", tier by tier. -/
theorem Loosens.favours {v v' : View} (h : Loosens env v v') (domain : Name) :
    List.Forall₂ (Favours false domain) (precedence env v.1 v.2) (precedence env v'.1 v'.2) := by
  cases h with
  | whitelist entry hadd =>
    refine .cons .refl (.cons .refl (.cons ?_ (.cons .refl (.cons .refl (.cons .refl .nil)))))
    refine favours_of_more rfl rfl ?_
    rintro (hn | hk)
    · exact Or.inl (named_of_add hadd hn)
    · exact Or.inr hk
  | @allowDomain s profile d =>
    refine .cons .refl (.cons .refl (.cons ?_ (.cons .refl (.cons .refl (.cons .refl .nil)))))
    refine favours_of_more rfl rfl ?_
    rintro (hn | ⟨k, hk, hc⟩)
    · exact Or.inl hn
    · refine Or.inr ⟨k, ?_, hc⟩
      simp only [allowMap] at hk ⊢
      cases hfst : profile.bind Profile.allowFst with
      | some fst =>
        rw [hfst] at hk
        exact hk
      | none =>
        rw [hfst] at hk
        exact Finset.mem_insert_of_mem hk
  | profileAllow cfg maps entries hsub =>
    refine .cons ?_ (.cons .refl (.cons .refl (.cons .refl (.cons .refl (.cons .refl .nil)))))
    refine favours_of_more rfl rfl ?_
    intro hn
    exact Named.mono (splitPatterns_mono hsub).1 (splitPatterns_mono hsub).2 hn
  | profileAllowDomain cfg maps d =>
    refine .cons .refl (.cons .refl (.cons ?_ (.cons .refl (.cons .refl (.cons .refl .nil)))))
    refine favours_of_more rfl rfl ?_
    rintro (hn | ⟨k, hk, hc⟩)
    · exact Or.inl hn
    · refine Or.inr ⟨k, ?_, hc⟩
      simp only [allowMap, Option.bind_some, ProfileConfig.rules] at hk ⊢
      by_cases hnone : cfg.allowlists = []
      · simpa [hnone] using hk
      · rw [if_neg hnone, Option.getD_some] at hk ⊢
        exact Finset.mem_insert_of_mem hk

/-- An entry that blocks is for the verdict "blocked", tier by tier. -/
theorem Tightens.favours {v v' : View} (h : Tightens env v v') (domain : Name) :
    List.Forall₂ (Favours true domain) (precedence env v.1 v.2) (precedence env v'.1 v'.2) := by
  cases h with
  | blacklist entry hadd =>
    refine .cons .refl (.cons .refl (.cons .refl (.cons .refl (.cons ?_ (.cons .refl .nil)))))
    refine favours_of_more rfl rfl ?_
    rintro (hn | hk)
    · exact Or.inl (named_of_add hadd hn)
    · exact Or.inr hk
  | @listDomain s profile d =>
    refine .cons .refl (.cons .refl (.cons .refl (.cons .refl (.cons ?_ (.cons .refl .nil)))))
    refine favours_of_more rfl rfl ?_
    rintro (hn | hk | ⟨k, hk, hc⟩)
    · exact Or.inl hn
    · exact Or.inr (Or.inl hk)
    · refine Or.inr (Or.inr ⟨k, ?_, hc⟩)
      cases profile with
      | none => exact Finset.mem_insert_of_mem hk
      | some p => exact hk
  | profileBlock cfg maps entries hsub =>
    refine .cons .refl (.cons ?_ (.cons .refl (.cons .refl (.cons .refl (.cons .refl .nil)))))
    refine favours_of_more rfl rfl ?_
    intro hn
    -- the catalog services stay where they are
    exact Named.mono (Finset.union_subset_union_left (splitPatterns_mono hsub).1)
      (splitPatterns_mono hsub).2 hn
  | profileListDomain cfg maps d =>
    refine .cons .refl (.cons .refl (.cons .refl (.cons .refl (.cons ?_ (.cons .refl .nil)))))
    refine favours_of_more rfl rfl ?_
    rintro (hn | hk | ⟨k, hk, hc⟩)
    · exact Or.inl hn
    · exact Or.inr (Or.inl hk)
    · exact Or.inr (Or.inr ⟨k, Finset.mem_insert_of_mem hk, hc⟩)

/-- A verdict that every step of a change favours survives the change. -/
theorem decides_of_steps {R : View → View → Prop} {b : Bool} {domain : Name}
    (hfav : ∀ {v v'}, R v v' →
      List.Forall₂ (Favours b domain) (precedence env v.1 v.2) (precedence env v'.1 v'.2))
    {v v' : View} (h : Relation.ReflTransGen R v v') (hd : Decides (precedence env v.1 v.2) domain b) :
    Decides (precedence env v'.1 v'.2) domain b := by
  induction h with
  | refl => exact hd
  | tail _ hstep ih => exact ih.mono (hfav hstep)

end Mono

/-! ## Whole runs -/

/-- A state in which nothing is in flight, reached by a run in which no query is overtaken. -/
def Reached (env : Crates) (s : System) : Prop :=
  ∃ sets cap profiles as, Guarded (step env) (NoOvertaking env) (.start sets cap profiles) as ∧
    exec (step env) (.start sets cap profiles) as = some s ∧ Quiet s

theorem Reached.coherent {env : Crates} {s : System} (hs : Reached env s) : Coherent env s.engine := by
  obtain ⟨sets, cap, profiles, as, hg, hrun, hq⟩ := hs
  have hinv : Inv env s :=
    inv_of_exec (step env) (fun s a s' => step_inv s a s') (start_inv env sets cap profiles) hg hrun
  exact hinv.coherent hq

/-- What is cached does not show. -/
theorem Reached.shouldBlockFor_iff {env : Crates} {s : System} (hs : Reached env s) {h : Handle}
    (hl : s.engine.live h) (domain : Name) (now : ℕ) (b : Bool) :
    shouldBlockFor env s.engine h domain now = b ↔
      Decides (precedence env (s.engine.view h).1 (s.engine.view h).2) domain b := by
  rw [shouldBlockFor_eq hs.coherent hl]
  exact shouldBlockUncached_iff

/-- **The decision follows the documented precedence.**  In every quiet state of a run of
queries and mutations in which no query is overtaken, for the global sets and for every
installed profile, the decision on every name is that of the first of the six tiers that
applies, whatever is cached.  Between two such states, entries added that allow block
nothing more, and entries added that block unblock nothing. -/
theorem precedence_followed_of_no_overtaking (env : Crates) (s : System) (hs : Reached env s) :
    (∀ (h : Handle) (domain : Name) (now : ℕ) (b : Bool), s.engine.live h →
      (shouldBlockFor env s.engine h domain now = b ↔
        Decides (precedence env s.engine.sets (h.map s.engine.profiles)) domain b)) ∧
    ∀ (s' : System) (h h' : Handle), Reached env s' → s.engine.live h → s'.engine.live h' →
      (Relation.ReflTransGen (Loosens env) (s.engine.view h) (s'.engine.view h') →
        ∀ (domain : Name) (now now' : ℕ), shouldBlockFor env s.engine h domain now = false →
          shouldBlockFor env s'.engine h' domain now' = false) ∧
      (Relation.ReflTransGen (Tightens env) (s.engine.view h) (s'.engine.view h') →
        ∀ (domain : Name) (now now' : ℕ), shouldBlockFor env s.engine h domain now = true →
          shouldBlockFor env s'.engine h' domain now' = true) := by
  refine ⟨fun h domain now b hl => hs.shouldBlockFor_iff hl domain now b,
    fun s' h h' hs' hl hl' => ⟨fun hsteps domain now now' hold => ?_, fun hsteps domain now now' hold => ?_⟩⟩
  · refine (hs'.shouldBlockFor_iff hl' domain now' false).2 ?_
    exact decides_of_steps (fun hstep => hstep.favours domain) hsteps
      ((hs.shouldBlockFor_iff hl domain now false).1 hold)
  · refine (hs'.shouldBlockFor_iff hl' domain now' true).2 ?_
    exact decides_of_steps (fun hstep => hstep.favours domain) hsteps
      ((hs.shouldBlockFor_iff hl domain now true).1 hold)

namespace Example

/-- `evil.com` is cached as allowed, then it is blacklisted. -/
def blacklisting : List Action :=
  [.startQuery 0 evil none, .lookup 0 0, .compute 0, .insert 0 0, .startMutation 0 (.addBlacklist evil),
    .advance 0, .advance 0, .advance 0]

end Example

open Example in
/-- An entry for `evil.com` is added: it decides, and nothing that was blocked is let through. -/
theorem precedence_followed_blacklisted :
    ∃ s', exec (step env) (.start noSets 10 []) blacklisting = some s' ∧
      Reached env (.start noSets 10 []) ∧ Reached env s' ∧
      Tightens env ((System.start noSets 10 []).engine.view none) (s'.engine.view none) ∧
      shouldBlockFor env s'.engine none evil 1 = true ∧
      Decides (precedence env s'.engine.sets none) evil true ∧
      ∀ (domain : Name) (now now' : ℕ),
        shouldBlockFor env (System.start noSets 10 []).engine none domain now = true →
          shouldBlockFor env s'.engine none domain now' = true := by
  have hquiet : ∃ s', exec (step env) (.start noSets 10 []) blacklisting = some s' ∧ Quiet s' ∧
      s'.engine.view none = ({ noSets with blacklist := ⟨{evil}, []⟩ }, none) ∧
      shouldBlockFor env s'.engine none evil 1 = true :=
    ⟨_, rfl, ⟨fun q => rfl, fun m => rfl⟩, rfl, by decide +kernel⟩
  obtain ⟨s', hrun, hq, hview, hblocked⟩ := hquiet
  have hs : Reached env (.start noSets 10 []) :=
    ⟨noSets, 10, [], [], trivial, rfl, fun q => rfl, fun m => rfl⟩
  have hg : Guarded (step env) (NoOvertaking env) (.start noSets 10 []) blacklisting := by
    decide +kernel
  have hs' : Reached env s' := ⟨noSets, 10, [], blacklisting, hg, hrun, hq⟩
  have hstep : Tightens env ((System.start noSets 10 []).engine.view none) (s'.engine.view none) := by
    rw [hview]
    exact .blacklist evil rfl
  have hdecides := (precedence_followed_of_no_overtaking env s' hs').1 none evil 1 true nofun
  have hmono := (precedence_followed_of_no_overtaking env _ hs).2 s' none none hs' nofun nofun
  exact ⟨s', hrun, hs, hs', hstep, hblocked, hdecides.1 hblocked,
    hmono.2 (Relation.ReflTransGen.single hstep)⟩

open Example in
/-- **What is cached can show**: nothing is in flight, the tiers block `evil.com`, and the
verdict an overtaken query has left in the cache lets it through. -/
theorem overtaken_query_breaks_precedence :
    ∃ s, exec (step env) (.start noSets 10 []) overtaken = some s ∧ Quiet s ∧
      Decides (precedence env s.engine.sets none) evil true ∧
      shouldBlockFor env s.engine none evil 1 = false := by
  have hstale : ∃ s, exec (step env) (.start noSets 10 []) overtaken = some s ∧ Quiet s ∧
      shouldBlockUncached env s.engine.sets evil none = true ∧
      shouldBlockFor env s.engine none evil 1 = false :=
    ⟨_, rfl, ⟨fun q => rfl, fun m => rfl⟩, by decide +kernel, by decide +kernel⟩
  obtain ⟨s, hrun, hq, hsets, hcached⟩ := hstale
  exact ⟨s, hrun, hq, shouldBlockUncached_iff.1 hsets, hcached⟩

end Ferrite.Blocklist
