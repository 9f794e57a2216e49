import Ferrite.Lib.Lts
import Ferrite.Lib.Table
import Ferrite.Blocklist.Engine

/-!
# Decision caches under concurrency

A query looks its verdict up, computes it on a miss and inserts it, each under a
lock of its own; a mutation changes a set and then clears the caches, the global
one and those of the installed profiles.  This module runs any number of both in
any order.

The order matters.  A query that computed before a change and inserts after the
clear leaves the old verdict behind for up to its cache TTL;
`overtaken_query_caches_stale_verdict` is such a run.

What is proved about every run:

* `Owed` and `Right` — the invariant: a cache whose verdicts are not all those of
  the current sets is still to be cleared by a mutation in flight;
* `advance_inv`, `queryStep_inv` — one lemma for each kind of thread; the guard of
  the former cannot be dropped (`overtaken_leaves_wrong_verdict`);
* `caches_coherent_of_no_overtaking` — in a run in which no mutation clears a
  cache while a query holds an outdated verdict for it, every verdict cached once
  all operations are done is that of the current sets, and every query then gets
  the decision computed from them.
-/

namespace Ferrite.Blocklist

open Lts

/-! ## The engine's shared state -/

/-- Which decision cache: the global one, or an installed profile's. -/
abbrev Handle := Option ℕ

/-- The state shared by the threads.  Profiles and their caches are objects: an
identifier stands for one compiled profile and is never used again. -/
structure Engine where
  sets : Sets
  profiles : ℕ → Profile
  caches : Handle → BlocklistCache
  installed : List ℕ
  next : ℕ

namespace Engine

/-- The list map a cache's verdicts are computed from. -/
def fstOf (e : Engine) : Handle → FstMap
  | none => e.sets.block
  | some p => (e.profiles p).fst

/-- The verdict the current sets give. -/
def verdict (env : Crates) (e : Engine) (h : Handle) (domain : Name) : Bool :=
  checkBlockedIn env e.sets domain (e.fstOf h)

/-- The handles queries start with: the global cache and the installed profiles. -/
def live (e : Engine) (h : Handle) : Prop := ∀ p, h = some p → p ∈ e.installed

/-- A cache replaced by another. -/
def setCache (e : Engine) (h : Handle) (c : BlocklistCache) : Engine :=
  { e with caches := Function.update e.caches h c }

/-- `PROFILE_DECISION_CACHE`. -/
def profileDecisionCache : ℕ := 8192

/-- `self.profiles.store`: freshly compiled profiles, each with an empty cache. -/
def install (e : Engine) (ps : List Profile) : Engine where
  sets := e.sets
  profiles := fun p => if e.next ≤ p then ps.getD (p - e.next) .empty else e.profiles p
  caches := fun h =>
    match h with
    | some p => if e.next ≤ p then .empty profileDecisionCache else e.caches (some p)
    | none => e.caches none
  installed := List.range' e.next ps.length
  next := e.next + ps.length

end Engine

/-! ## The threads -/

/-- How far a query has got. -/
inductive Phase where
  | started
  | missed
  | computed (verdict : Bool)
deriving DecidableEq

/-- A query in flight. -/
structure Query where
  domain : Name
  handle : Handle
  phase : Phase
deriving DecidableEq

/-- The atomic steps mutations are made of. -/
inductive Micro where
  | addBlacklist (domain : Text)
  | removeBlacklist (domain : Text)
  | addWhitelist (domain : Text)
  | removeWhitelist (domain : Text)
  | storeServices (ids : List Text)
  | swapBlock (fst : FstMap)
  | swapAllow (fst : FstMap)
  | clearGlobal
  | loadProfiles
  | clearProfile (p : ℕ)
  | storeProfiles (ps : List Profile)
  | resizeGlobal (entries : ℕ)

/-- The mutations of the engine. -/
inductive Mutation where
  | addBlacklist (domain : Text)
  | removeBlacklist (domain : Text)
  | addWhitelist (domain : Text)
  | removeWhitelist (domain : Text)
  | setBlockedServices (ids : List Text)
  | refresh (block allow : FstMap) (profiles : List Profile)
  | setProfiles (profiles : List Profile)
  | setDecisionCacheSize (entries : ℕ)

/-- `clear_decision_caches`: the global cache, then each profile's. -/
def clearDecisionCaches : List Micro := [.clearGlobal, .loadProfiles]

/-- The steps of a mutation, in order. -/
def Mutation.steps : Mutation → List Micro
  | .addBlacklist d => .addBlacklist d :: clearDecisionCaches
  | .removeBlacklist d => .removeBlacklist d :: clearDecisionCaches
  | .addWhitelist d => .addWhitelist d :: clearDecisionCaches
  | .removeWhitelist d => .removeWhitelist d :: clearDecisionCaches
  | .setBlockedServices ids => .storeServices ids :: clearDecisionCaches
  | .refresh block allow ps => [.swapBlock block, .swapAllow allow, .clearGlobal, .storeProfiles ps]
  | .setProfiles ps => [.storeProfiles ps]
  | .setDecisionCacheSize entries => [.resizeGlobal entries]

/-- One atomic step of a mutation, and the steps it has left. -/
def Micro.run (env : Crates) (e : Engine) (rest : List Micro) : Micro → Engine × List Micro
  | .addBlacklist d =>
    match e.sets.blacklist.add env d with
    | .ok l => ({ e with sets := { e.sets with blacklist := l } }, rest)
    -- an invalid pattern: the call returns before it clears anything
    | .error _ => (e, [])
  | .removeBlacklist d =>
    ({ e with sets := { e.sets with blacklist := e.sets.blacklist.remove d } }, rest)
  | .addWhitelist d =>
    match e.sets.whitelist.add env d with
    | .ok l => ({ e with sets := { e.sets with whitelist := l } }, rest)
    | .error _ => (e, [])
  | .removeWhitelist d =>
    ({ e with sets := { e.sets with whitelist := e.sets.whitelist.remove d } }, rest)
  | .storeServices ids =>
    ({ e with sets := { e.sets with blockedServices := .new env ids } }, rest)
  | .swapBlock fst => ({ e with sets := { e.sets with block := fst } }, rest)
  | .swapAllow fst => ({ e with sets := { e.sets with allow := fst } }, rest)
  | .clearGlobal => (e.setCache none (e.caches none).clear, rest)
  | .loadProfiles => (e, e.installed.map .clearProfile ++ rest)
  | .clearProfile p => (e.setCache (some p) (e.caches (some p)).clear, rest)
  | .storeProfiles ps => (e.install ps, rest)
  | .resizeGlobal entries => (e.setCache none ((e.caches none).resize entries), rest)

/-- The engine and everything in flight. -/
structure System where
  engine : Engine
  queries : Table ℕ Query
  mutations : Table ℕ (List Micro)

/-- One step of one thread. -/
inductive Action where
  | startQuery (q : ℕ) (domain : Name) (handle : Handle)
  | lookup (q : ℕ) (now : ℕ)
  | compute (q : ℕ)
  | insert (q : ℕ) (now : ℕ)
  | startMutation (m : ℕ) (op : Mutation)
  | advance (m : ℕ)

instance (e : Engine) (h : Handle) : Decidable (e.live h) :=
  match h with
  | none => isTrue fun _ hp => by cases hp
  | some p => decidable_of_iff (p ∈ e.installed)
      ⟨fun hp _ hq => Option.some.inj hq ▸ hp, fun hl => hl p rfl⟩

/-- A mutation with these steps left, put back among those in flight. -/
def putMutation (t : Table ℕ (List Micro)) (m : ℕ) : List Micro → Table ℕ (List Micro)
  | [] => t.erase m
  | left => t.insert m left

/-- One step of the system; `none` when the action is not enabled. -/
def step (env : Crates) (s : System) : Action → Option System
  | .startQuery q domain handle =>
    if s.queries.lookup q = none ∧ s.engine.live handle then
      some ⟨s.engine, s.queries.insert q ⟨domain, handle, .started⟩, s.mutations⟩
    else none
  | .lookup q now =>
    match s.queries.lookup q with
    | some ⟨domain, handle, .started⟩ =>
      let (hit, cache) := (s.engine.caches handle).get domain now
      let engine := s.engine.setCache handle cache
      match hit with
      | some _ => some ⟨engine, s.queries.erase q, s.mutations⟩
      | none => some ⟨engine, s.queries.insert q ⟨domain, handle, .missed⟩, s.mutations⟩
    | _ => none
  | .compute q =>
    match s.queries.lookup q with
    | some ⟨domain, handle, .missed⟩ =>
      let computed := Query.mk domain handle (.computed (s.engine.verdict env handle domain))
      some ⟨s.engine, s.queries.insert q computed, s.mutations⟩
    | _ => none
  | .insert q now =>
    match s.queries.lookup q with
    | some ⟨domain, handle, .computed v⟩ =>
      some ⟨s.engine.setCache handle ((s.engine.caches handle).insert domain v now),
        s.queries.erase q, s.mutations⟩
    | _ => none
  | .startMutation m op =>
    if s.mutations.lookup m = none then
      some ⟨s.engine, s.queries, s.mutations.insert m op.steps⟩
    else none
  | .advance m =>
    match s.mutations.lookup m with
    | some (micro :: rest) =>
      let (engine, left) := micro.run env s.engine rest
      some ⟨engine, s.queries, putMutation s.mutations m left⟩
    | _ => none

-- the equations of `run` and `step` are made here, once, and not by each of the proofs below
section
attribute [local simp] Micro.run step
end

/-! ## The invariant -/

/-- The step can end its mutation early. -/
def Micro.mayFail : Micro → Bool
  | .addBlacklist _ | .addWhitelist _ => true
  | _ => false

/-- The step will see to it that the cache is cleared. -/
def Micro.clears (installed : List ℕ) (h : Handle) : Micro → Bool
  | .clearGlobal => h = none
  | .clearProfile p => h = some p
  | .loadProfiles => h.any (· ∈ installed)
  | _ => false

/-- The verdicts cached under the handle may change with the step. -/
def Micro.affects (h : Handle) : Micro → Bool
  | .addBlacklist _ | .removeBlacklist _ | .storeServices _ => true
  | .swapBlock _ => h = none
  | _ => false

/-- These steps are certain to clear the cache. -/
def owes (installed : List ℕ) (left : List Micro) (h : Handle) : Bool :=
  (left.all fun x => !x.mayFail) && left.any (Micro.clears installed h)

/-- A mutation in flight is certain to clear the cache. -/
def Owed (s : System) (h : Handle) : Prop :=
  ∃ m left, s.mutations.lookup m = some left ∧ owes s.engine.installed left h = true

/-- The verdicts cached under the handle, and those about to be, are the ones the
current sets give. -/
structure Right (env : Crates) (e : Engine) (queries : Table ℕ Query) (h : Handle) : Prop where
  cached : ∀ x ∈ (e.caches h).entries, x.2.blocked = e.verdict env h x.1
  held : ∀ q domain v, queries.lookup q = some ⟨domain, h, .computed v⟩ →
    v = e.verdict env h domain

/-- Every step that changes a verdict is followed by one that clears its cache. -/
def Shaped : List Micro → Prop
  | [] => True
  | micro :: rest =>
    (∀ (e : Engine) h, micro.affects h = true → e.live h → owes e.installed rest h = true) ∧
      Shaped rest

/-- **The invariant.**  A cache in use that is not right is owed a clear. -/
structure Inv (env : Crates) (s : System) : Prop where
  settled : ∀ h, s.engine.live h → Owed s h ∨ Right env s.engine s.queries h
  installed_lt : ∀ p ∈ s.engine.installed, p < s.engine.next
  handle_lt : ∀ q x, s.queries.lookup q = some x → ∀ p, x.handle = some p → p < s.engine.next
  shaped : ∀ m left, s.mutations.lookup m = some left → Shaped left

theorem shaped_steps (op : Mutation) : Shaped op.steps := by
  have hclear : ∀ (e : Engine) h, e.live h → owes e.installed clearDecisionCaches h = true := by
    intro e h hl
    match h with
    | none => rfl
    | some p => simp [owes, clearDecisionCaches, Micro.mayFail, Micro.clears, hl p rfl]
  cases op with
  | addBlacklist d => exact ⟨fun e h _ hl => hclear e h hl, by simp [Micro.affects, Shaped,
      clearDecisionCaches]⟩
  | removeBlacklist d => exact ⟨fun e h _ hl => hclear e h hl, by simp [Micro.affects, Shaped,
      clearDecisionCaches]⟩
  | addWhitelist d => simp [Mutation.steps, Micro.affects, Shaped, clearDecisionCaches]
  | removeWhitelist d => simp [Mutation.steps, Micro.affects, Shaped, clearDecisionCaches]
  | setBlockedServices ids => exact ⟨fun e h _ hl => hclear e h hl, by simp [Micro.affects,
      Shaped, clearDecisionCaches]⟩
  | refresh block allow ps =>
    refine ⟨fun e h ha _ => ?_, by simp [Micro.affects, Shaped]⟩
    have hnone : h = none := by simpa [Micro.affects] using ha
    rw [hnone]
    rfl
  | setProfiles ps => simp [Mutation.steps, Micro.affects, Shaped]
  | setDecisionCacheSize entries => simp [Mutation.steps, Micro.affects, Shaped]

theorem shaped_clearProfiles {rest : List Micro} (h : Shaped rest) (ps : List ℕ) :
    Shaped (ps.map .clearProfile ++ rest) := by
  induction ps with
  | nil => exact h
  | cons p ps ih => exact ⟨fun e h ha => by simp [Micro.affects] at ha, ih⟩

theorem owes_of_cons {installed : List ℕ} {micro : Micro} {rest : List Micro} {h : Handle}
    (ho : owes installed (micro :: rest) h = true) :
    micro.mayFail = false ∧ (micro.clears installed h = true ∨ owes installed rest h = true) := by
  simp only [owes, List.all_cons, List.any_cons, Bool.and_eq_true, Bool.or_eq_true,
    Bool.not_eq_true'] at ho ⊢
  obtain ⟨⟨hf, hall⟩, hc | hr⟩ := ho
  · exact ⟨hf, Or.inl hc⟩
  · exact ⟨hf, Or.inr ⟨hall, hr⟩⟩

theorem lookup_putMutation (t : Table ℕ (List Micro)) (m m' : ℕ) (left : List Micro) :
    (putMutation t m left).lookup m' =
      if m' = m then (if left = [] then none else some left) else t.lookup m' := by
  match left with
  | [] => simp [putMutation, Table.lookup_erase_eq]
  | x :: xs => simp [putMutation, Table.lookup_insert_eq]

/-! ## What a step of a mutation does -/

/-- The cache the step empties. -/
def Micro.target : Micro → Option Handle
  | .clearGlobal => some none
  | .clearProfile p => some (some p)
  | _ => none

/-- No query holds a verdict for the cache, computed and not yet inserted, that is
not the one the sets give now; or another mutation is still to clear it. -/
def NotOvertaken (env : Crates) (s : System) (m : ℕ) (h : Handle) : Prop :=
  (∀ q x, s.queries.lookup q = some x → x.handle = h →
    ∀ v, x.phase = .computed v → v = s.engine.verdict env h x.domain) ∨
  ∃ m' left, m' ≠ m ∧ s.mutations.lookup m' = some left ∧ owes s.engine.installed left h = true

/-- The guard: a mutation clears a cache in use only while no query is overtaken. -/
def NoOvertaking (env : Crates) (s : System) : Action → Prop
  | .advance m => ∀ micro rest, s.mutations.lookup m = some (micro :: rest) →
      ∀ h, micro.target = some h → s.engine.live h → NotOvertaken env s m h
  | _ => True

instance (env : Crates) (s : System) (m : ℕ) (h : Handle) : Decidable (NotOvertaken env s m h) :=
  decidable_of_iff ((∀ e ∈ s.queries.entries, e.2.handle = h →
      ∀ v, e.2.phase = .computed v → v = s.engine.verdict env h e.2.domain) ∨
    ∃ e ∈ s.mutations.entries, e.1 ≠ m ∧ owes s.engine.installed e.2 h = true)
    (or_congr
      ⟨fun hf q x hq => hf ⟨q, x⟩ (Table.mem_entries_iff.2 hq),
        fun hf e he => hf e.1 e.2 (Table.mem_entries_iff.1 he)⟩
      ⟨fun ⟨e, he, hne, ho⟩ => ⟨e.1, e.2, hne, Table.mem_entries_iff.1 he, ho⟩,
        fun ⟨m', left, hne, hl, ho⟩ => ⟨⟨m', left⟩, Table.mem_entries_iff.2 hl, hne, ho⟩⟩)

instance (env : Crates) (s : System) (a : Action) : Decidable (NoOvertaking env s a) :=
  match a with
  | .advance m =>
    match hm : s.mutations.lookup m with
    | none => isTrue fun _ _ h => by simp [hm] at h
    | some [] => isTrue fun _ _ h => by simp [hm] at h
    | some (micro :: rest) =>
      match ht : micro.target with
      | none => isTrue fun _ _ h _ h' => by
          simp only [hm, Option.some.injEq, List.cons.injEq] at h
          rw [← h.1, ht] at h'
          cases h'
      | some h => decidable_of_iff (s.engine.live h → NotOvertaken env s m h) (by
          simp [NoOvertaking, hm, ht])
  | .startQuery .. | .lookup .. | .compute _ | .insert .. | .startMutation .. => isTrue trivial

/-- What is left of a cache after a step of `m`: it is enough that the others still
owe what they owed, and that `m` either owes it or has left it right. -/
theorem settled_of_advance {env : Crates} {s : System} {m : ℕ} {micro : Micro}
    {rest left : List Micro} {e : Engine} {h : Handle}
    (hm : s.mutations.lookup m = some (micro :: rest))
    (hothers : ∀ l, owes s.engine.installed l h = true → owes e.installed l h = true)
    (hself : owes s.engine.installed (micro :: rest) h = true →
      owes e.installed left h = true ∨ Right env e s.queries h)
    (hright : Right env s.engine s.queries h → owes e.installed left h = true ∨
      Right env e s.queries h)
    (hold : Owed s h ∨ Right env s.engine s.queries h) :
    Owed ⟨e, s.queries, putMutation s.mutations m left⟩ h ∨ Right env e s.queries h := by
  have hleft : owes e.installed left h = true →
      Owed ⟨e, s.queries, putMutation s.mutations m left⟩ h := by
    intro ho
    refine ⟨m, left, ?_, ho⟩
    rw [lookup_putMutation, if_pos rfl, if_neg]
    rintro rfl
    simp [owes] at ho
  rcases hold with ⟨m', l, hl, ho⟩ | hr
  · by_cases heq : m' = m
    · rw [heq, hm] at hl
      rw [← Option.some.inj hl] at ho
      rcases hself ho with h' | h'
      · exact Or.inl (hleft h')
      · exact Or.inr h'
    · left
      refine ⟨m', l, ?_, hothers l ho⟩
      rw [lookup_putMutation, if_neg heq]
      exact hl
  · rcases hright hr with h' | h'
    · exact Or.inl (hleft h')
    · exact Or.inr h'

/-- A step that leaves a cache and its verdicts alone. -/
theorem Right.congr {env : Crates} {e e' : Engine} {queries : Table ℕ Query} {h : Handle}
    (hr : Right env e queries h) (hc : e'.caches h = e.caches h)
    (hv : ∀ d, e'.verdict env h d = e.verdict env h d) : Right env e' queries h where
  cached := fun x hx => by
    rw [hc] at hx
    rw [hv]
    exact hr.cached x hx
  held := fun q d v hq => by
    rw [hv]
    exact hr.held q d v hq

/-- A step on the sets alone: whatever it affects, the rest of the mutation clears. -/
theorem settled_of_setsStep {env : Crates} {s : System} {m : ℕ} {micro : Micro}
    {rest : List Micro} {sets : Sets} (hm : s.mutations.lookup m = some (micro :: rest))
    (hshaped : Shaped (micro :: rest)) (hclears : ∀ h, micro.clears s.engine.installed h = false)
    {h : Handle} (hlive : s.engine.live h)
    (hverdict : micro.affects h = false →
      ∀ d, ({ s.engine with sets := sets } : Engine).verdict env h d = s.engine.verdict env h d)
    (hold : Owed s h ∨ Right env s.engine s.queries h) :
    Owed ⟨{ s.engine with sets := sets }, s.queries, putMutation s.mutations m rest⟩ h ∨
      Right env { s.engine with sets := sets } s.queries h := by
  refine settled_of_advance hm (fun l ho => ho) (fun ho => Or.inl ?_) (fun hr => ?_) hold
  · rcases (owes_of_cons ho).2 with hc | hr
    · rw [hclears] at hc
      cases hc
    · exact hr
  · cases ha : micro.affects h with
    | true => exact Or.inl (hshaped.1 s.engine h ha hlive)
    | false => exact Or.inr (hr.congr rfl (hverdict ha))

/-- A failed step: the engine is as it was, and the mutation owed nothing. -/
theorem settled_of_failure {env : Crates} {s : System} {m : ℕ} {micro : Micro}
    {rest : List Micro} (hm : s.mutations.lookup m = some (micro :: rest))
    (hfail : micro.mayFail = true) {h : Handle}
    (hold : Owed s h ∨ Right env s.engine s.queries h) :
    Owed ⟨s.engine, s.queries, putMutation s.mutations m []⟩ h ∨
      Right env s.engine s.queries h := by
  refine settled_of_advance hm (fun l ho => ho) (fun ho => ?_) Or.inr hold
  have := (owes_of_cons ho).1
  rw [hfail] at this
  cases this

/-- A clear: the other caches stay, the cleared one holds nothing any more. -/
theorem settled_of_clear {env : Crates} {s : System} {m : ℕ} {micro : Micro}
    {rest : List Micro} {h₀ : Handle} (hm : s.mutations.lookup m = some (micro :: rest))
    (hclears : ∀ h, micro.clears s.engine.installed h = true → h = h₀) {h : Handle}
    (hg : h = h₀ → NotOvertaken env s m h)
    (hold : Owed s h ∨ Right env s.engine s.queries h) :
    Owed ⟨s.engine.setCache h₀ (s.engine.caches h₀).clear, s.queries,
        putMutation s.mutations m rest⟩ h ∨
      Right env (s.engine.setCache h₀ (s.engine.caches h₀).clear) s.queries h := by
  by_cases hh : h = h₀
  · subst hh
    rcases hg rfl with hheld | ⟨m', left, hne, hl, ho⟩
    · right
      constructor
      · intro x hx
        simp [Engine.setCache] at hx
      · exact fun q d v hq => hheld q ⟨d, h, .computed v⟩ hq rfl v rfl
    · left
      refine ⟨m', left, ?_, ho⟩
      rw [lookup_putMutation, if_neg hne]
      exact hl
  · have hcache : (s.engine.setCache h₀ (s.engine.caches h₀).clear).caches h =
        s.engine.caches h := Function.update_of_ne hh ..
    refine settled_of_advance hm (fun l ho => ho) (fun ho => Or.inl ?_)
      (fun hr => Or.inr (hr.congr hcache fun d => by cases h <;> rfl)) hold
    rcases (owes_of_cons ho).2 with hc | hr
    · exact absurd (hclears h hc) hh
    · exact hr

/-- A resize drops entries of the global cache and adds none. -/
theorem settled_of_resize {env : Crates} {s : System} {m entries : ℕ} {rest : List Micro}
    (hm : s.mutations.lookup m = some (.resizeGlobal entries :: rest)) {h : Handle}
    (hold : Owed s h ∨ Right env s.engine s.queries h) :
    Owed ⟨s.engine.setCache none ((s.engine.caches none).resize entries), s.queries,
        putMutation s.mutations m rest⟩ h ∨
      Right env (s.engine.setCache none ((s.engine.caches none).resize entries))
        s.queries h := by
  refine settled_of_advance hm (fun l ho => ho) (fun ho => Or.inl ?_) (fun hr => Or.inr ?_) hold
  · rcases (owes_of_cons ho).2 with hc | hr
    · cases hc
    · exact hr
  · match h with
    | none =>
      refine ⟨fun x hx => hr.cached x ?_, hr.held⟩
      simp only [Engine.setCache, Function.update_self] at hx
      exact Lru.mem_of_mem_resize hx
    | some p => exact hr.congr rfl fun _ => rfl

/-- Freshly installed profiles start with an empty cache that no query has a
verdict for; the global cache is not touched. -/
theorem settled_of_install {env : Crates} {s : System} (hi : Inv env s) {m : ℕ}
    {rest : List Micro} {ps : List Profile}
    (hm : s.mutations.lookup m = some (.storeProfiles ps :: rest)) {h : Handle}
    (hlive : (s.engine.install ps).live h) :
    Owed ⟨s.engine.install ps, s.queries, putMutation s.mutations m rest⟩ h ∨
      Right env (s.engine.install ps) s.queries h := by
  match h with
  | none =>
    have howes : ∀ (is js : List ℕ) l, owes is l none = true → owes js l none = true := by
      intro is js l ho
      simp only [owes, Bool.and_eq_true, List.any_eq_true] at ho ⊢
      obtain ⟨hall, x, hx, hc⟩ := ho
      refine ⟨hall, x, hx, ?_⟩
      cases x <;> simp_all [Micro.clears]
    refine settled_of_advance hm (howes _ _) (fun ho => Or.inl ?_)
      (fun hr => Or.inr (hr.congr rfl fun _ => rfl)) (hi.settled none fun _ h => by cases h)
    rcases (owes_of_cons ho).2 with hc | hr
    · simp [Micro.clears] at hc
    · exact howes _ _ rest hr
  | some p =>
    right
    have hp : s.engine.next ≤ p := by
      have := hlive p rfl
      simp only [Engine.install, List.mem_range'_1] at this
      exact this.1
    constructor
    · intro x hx
      simp [Engine.install, hp] at hx
    · intro q d v hq
      have := hi.handle_lt q _ hq p rfl
      omega

/-- A step of a mutation leaves every cache in use right or owed a clear. -/
theorem settled_of_run {env : Crates} {s : System} (hi : Inv env s) {m : ℕ} {micro : Micro}
    {rest : List Micro} (hm : s.mutations.lookup m = some (micro :: rest))
    (hg : NoOvertaking env s (.advance m)) {h : Handle}
    (hlive : (micro.run env s.engine rest).1.live h) :
    Owed ⟨(micro.run env s.engine rest).1, s.queries,
        putMutation s.mutations m (micro.run env s.engine rest).2⟩ h ∨
      Right env (micro.run env s.engine rest).1 s.queries h := by
  have hshaped := hi.shaped m _ hm
  -- a change of the sets, or of one of them the cached verdicts do not depend on
  have hsets : ∀ sets, (∀ h, micro.clears s.engine.installed h = false) →
      (micro.affects h = false → ∀ d,
        ({ s.engine with sets := sets } : Engine).verdict env h d = s.engine.verdict env h d) →
      s.engine.live h →
      Owed ⟨{ s.engine with sets := sets }, s.queries, putMutation s.mutations m rest⟩ h ∨
        Right env { s.engine with sets := sets } s.queries h :=
    fun sets hc hv hl => settled_of_setsStep hm hshaped hc hl hv (hi.settled h hl)
  have hclear : ∀ h₀, micro.target = some h₀ →
      (∀ h, micro.clears s.engine.installed h = true → h = h₀) → s.engine.live h →
      Owed ⟨s.engine.setCache h₀ (s.engine.caches h₀).clear, s.queries,
          putMutation s.mutations m rest⟩ h ∨
        Right env (s.engine.setCache h₀ (s.engine.caches h₀).clear) s.queries h := by
    intro h₀ ht hc hl
    exact settled_of_clear hm hc (fun heq => heq ▸ hg micro rest hm h₀ ht (heq ▸ hl))
      (hi.settled h hl)
  cases micro with
  | addBlacklist d =>
    simp only [Micro.run] at hlive ⊢
    split at hlive
    · exact hsets _ (fun _ => rfl) (by simp [Micro.affects]) hlive
    · exact settled_of_failure hm rfl (hi.settled h hlive)
  | addWhitelist d =>
    simp only [Micro.run] at hlive ⊢
    split at hlive
    · exact hsets _ (fun _ => rfl) (fun _ d => by cases h <;> rfl) hlive
    · exact settled_of_failure hm rfl (hi.settled h hlive)
  | removeBlacklist d => exact hsets _ (fun _ => rfl) (by simp [Micro.affects]) hlive
  | removeWhitelist d => exact hsets _ (fun _ => rfl) (fun _ d => by cases h <;> rfl) hlive
  | storeServices ids => exact hsets _ (fun _ => rfl) (by simp [Micro.affects]) hlive
  | swapBlock fst =>
    refine hsets _ (fun _ => rfl) (fun ha d => ?_) hlive
    match h with
    | none => simp [Micro.affects] at ha
    | some p => rfl
  | swapAllow fst => exact hsets _ (fun _ => rfl) (fun _ d => by cases h <;> rfl) hlive
  | clearGlobal => exact hclear none rfl (by simp [Micro.clears]) hlive
  | clearProfile p => exact hclear (some p) rfl (by simp [Micro.clears]) hlive
  | loadProfiles =>
    refine settled_of_advance hm (fun l ho => ho) (fun ho => Or.inl ?_) Or.inr (hi.settled h hlive)
    have hrest : (rest.all fun x => !x.mayFail) = true := by
      simp only [owes, List.all_cons, Bool.and_eq_true] at ho
      exact ho.1.2
    have hnofail : ((s.engine.installed.map Micro.clearProfile).all fun x => !x.mayFail) = true := by
      simp [Micro.mayFail]
    simp only [Micro.run, owes, List.all_append, List.any_append, hrest, hnofail,
      Bool.true_and, Bool.or_eq_true]
    rcases (owes_of_cons ho).2 with hc | hr
    · left
      obtain ⟨p, rfl, hp⟩ : ∃ p, h = some p ∧ p ∈ s.engine.installed := by
        simpa [Micro.clears, Option.any_eq_true] using hc
      exact List.any_eq_true.2 ⟨.clearProfile p, List.mem_map_of_mem hp, by simp [Micro.clears]⟩
    · right
      simp only [owes, Bool.and_eq_true] at hr
      exact hr.2
  | storeProfiles ps => exact settled_of_install hi hm hlive
  | resizeGlobal entries => exact settled_of_resize hm (hi.settled h hlive)

/-- The identifiers handed out only grow. -/
theorem next_le_run (env : Crates) (e : Engine) (rest : List Micro) (micro : Micro) :
    e.next ≤ (micro.run env e rest).1.next := by
  cases micro with
  | addBlacklist d => simp only [Micro.run]; split <;> exact Nat.le_refl _
  | addWhitelist d => simp only [Micro.run]; split <;> exact Nat.le_refl _
  | storeProfiles ps => exact Nat.le_add_right ..
  | _ => exact Nat.le_refl _

theorem installed_lt_run {env : Crates} {e : Engine} (h : ∀ p ∈ e.installed, p < e.next)
    (rest : List Micro) (micro : Micro) :
    ∀ p ∈ (micro.run env e rest).1.installed, p < (micro.run env e rest).1.next := by
  cases micro with
  | addBlacklist d => simp only [Micro.run]; split <;> exact h
  | addWhitelist d => simp only [Micro.run]; split <;> exact h
  | storeProfiles ps =>
    intro p hp
    simp only [Micro.run, Engine.install, List.mem_range'_1] at hp ⊢
    omega
  | _ => exact h

theorem shaped_run {env : Crates} {e : Engine} {micro : Micro} {rest : List Micro}
    (h : Shaped (micro :: rest)) : Shaped (micro.run env e rest).2 := by
  cases micro with
  | addBlacklist d => simp only [Micro.run]; split; exacts [h.2, trivial]
  | addWhitelist d => simp only [Micro.run]; split; exacts [h.2, trivial]
  | loadProfiles => exact shaped_clearProfiles h.2 _
  | _ => exact h.2

/-- A step of a mutation keeps the invariant, unless it overtakes a query. -/
theorem advance_inv {env : Crates} {s : System} (hi : Inv env s) {m : ℕ} {micro : Micro}
    {rest : List Micro} (hm : s.mutations.lookup m = some (micro :: rest))
    (hg : NoOvertaking env s (.advance m)) :
    Inv env ⟨(micro.run env s.engine rest).1, s.queries,
      putMutation s.mutations m (micro.run env s.engine rest).2⟩ where
  settled := fun _ hl => settled_of_run hi hm hg hl
  installed_lt := installed_lt_run hi.installed_lt rest micro
  handle_lt := fun q x hq p hp =>
    Nat.lt_of_lt_of_le (hi.handle_lt q x hq p hp) (next_le_run env s.engine rest micro)
  shaped := by
    intro m' left hl
    rw [lookup_putMutation] at hl
    split at hl
    · split at hl
      · cases hl
      · rw [← Option.some.inj hl]
        exact shaped_run (hi.shaped m _ hm)
    · exact hi.shaped m' left hl

/-- The guard is needed: a query that is overtaken puts a verdict into the cleared
cache that the sets do not give, and no other mutation is left to clear it. -/
theorem overtaken_leaves_wrong_verdict {env : Crates} {s : System} {m : ℕ} {micro : Micro}
    {rest : List Micro} (hm : s.mutations.lookup m = some (micro :: rest)) {h : Handle}
    (ht : micro.target = some h) (hover : ¬ NotOvertaken env s m h) (now : ℕ) :
    ∃ q s', exec (step env) s [.advance m, .insert q now] = some s' ∧
      ¬ Right env s'.engine s'.queries h ∧
      ∀ m' left, m' ≠ m → s'.mutations.lookup m' = some left →
        owes s'.engine.installed left h = false := by
  simp only [NotOvertaken, not_or, not_forall] at hover
  obtain ⟨⟨q, ⟨d, h', ph⟩, hq, rfl, v, rfl, hv⟩, hnone⟩ := hover
  have hrun : micro.run env s.engine rest =
      (s.engine.setCache h' (s.engine.caches h').clear, rest) := by
    cases micro <;> simp only [Micro.target, Option.some.injEq, reduceCtorEq] at ht <;> subst ht <;>
      rfl
  let cleared := s.engine.setCache h' (s.engine.caches h').clear
  let s' : System := ⟨cleared.setCache h' ((cleared.caches h').insert d v now),
    s.queries.erase q, putMutation s.mutations m rest⟩
  have hexec : exec (step env) s [.advance m, .insert q now] = some s' := by
    simp only [exec, step, hm, hrun, Option.bind_some, hq]
    rfl
  refine ⟨q, s', hexec, fun hr => hv ?_, fun m' left hne hl => ?_⟩
  · have hin : (d, ⟨v, now + fromSecs (if v then blockedTtl else allowedTtl)⟩) ∈
        (s'.engine.caches h').entries := by
      simpa [s', Engine.setCache, BlocklistCache.insert] using Lru.mem_put_self _ d _
    have hwrong := hr.cached _ hin
    cases h' <;> exact hwrong
  · rw [lookup_putMutation, if_neg hne] at hl
    rw [← Bool.not_eq_true]
    exact fun ho => hnone ⟨m', left, hne, hl, ho⟩

/-! ## What a step of a query does -/

/-- A query that may be in flight: its handle has been handed out, and a verdict it
holds is the one the current sets give. -/
def Sound (env : Crates) (e : Engine) (x : Query) : Prop :=
  (∀ p, x.handle = some p → p < e.next) ∧
    ∀ v, x.phase = .computed v → v = e.verdict env x.handle x.domain

/-- A step of a query keeps the invariant if a right cache stays right and every
query in flight was so before or is sound. -/
theorem queryStep_inv {env : Crates} {s : System} (hi : Inv env s) {h₀ : Handle}
    {c : BlocklistCache} {queries : Table ℕ Query}
    (hcache : Right env s.engine s.queries h₀ →
      ∀ x ∈ c.entries, x.2.blocked = s.engine.verdict env h₀ x.1)
    (hqueries : ∀ q x, queries.lookup q = some x →
      s.queries.lookup q = some x ∨ Sound env s.engine x) :
    Inv env ⟨s.engine.setCache h₀ c, queries, s.mutations⟩ where
  settled := by
    intro h hl
    rcases hi.settled h hl with ho | hr
    · exact Or.inl ho
    · right
      have hv : ∀ h d, (s.engine.setCache h₀ c).verdict env h d = s.engine.verdict env h d :=
        fun h d => by cases h <;> rfl
      constructor
      · intro x hx
        rw [hv]
        by_cases hh : h = h₀
        · subst hh
          have hx' : x ∈ c.entries := by simpa [Engine.setCache] using hx
          exact hcache hr x hx'
        · have hx' : x ∈ (s.engine.caches h).entries := by
            simpa [Engine.setCache, Function.update_of_ne hh] using hx
          exact hr.cached x hx'
      · intro q d v hq
        rw [hv]
        rcases hqueries q _ hq with hq | hs
        · exact hr.held q d v hq
        · exact hs.2 v rfl
  installed_lt := hi.installed_lt
  handle_lt := by
    intro q x hq
    rcases hqueries q x hq with hq | hs
    · exact hi.handle_lt q x hq
    · exact hs.1
  shaped := hi.shaped

/-- A step of a query that leaves the caches alone. -/
theorem queryStep_inv_of_caches {env : Crates} {s : System} (hi : Inv env s)
    {queries : Table ℕ Query} (hqueries : ∀ q x, queries.lookup q = some x →
      s.queries.lookup q = some x ∨ Sound env s.engine x) :
    Inv env ⟨s.engine, queries, s.mutations⟩ := by
  have hself : s.engine.setCache none (s.engine.caches none) = s.engine := by
    simp [Engine.setCache]
  have h := @queryStep_inv env s hi none (s.engine.caches none) queries (fun hr => hr.cached)
    hqueries
  rwa [hself] at h

theorem lookup_erase_or {t : Table ℕ Query} {q : ℕ} (P : Query → Prop) :
    ∀ q' x, (t.erase q).lookup q' = some x → t.lookup q' = some x ∨ P x := by
  intro q' x hx
  rw [Table.lookup_erase_eq] at hx
  split at hx
  · cases hx
  · exact Or.inl hx

theorem lookup_insert_or {t : Table ℕ Query} {q : ℕ} {y : Query} {P : Query → Prop} (hy : P y) :
    ∀ q' x, (t.insert q y).lookup q' = some x → t.lookup q' = some x ∨ P x := by
  intro q' x hx
  rw [Table.lookup_insert_eq] at hx
  split at hx
  · exact Or.inr (Option.some.inj hx ▸ hy)
  · exact Or.inl hx

/-- **Every step keeps the invariant**, a clear as long as it overtakes no query. -/
theorem step_inv {env : Crates} (s : System) (a : Action) (s' : System)
    (hg : NoOvertaking env s a) (hi : Inv env s) (h : step env s a = some s') : Inv env s' := by
  cases a with
  | startQuery q domain handle =>
    simp only [step] at h
    split at h
    · rename_i hstart
      rw [← Option.some.inj h]
      refine queryStep_inv_of_caches hi (lookup_insert_or ⟨fun p hp => ?_, fun v hv => ?_⟩)
      · exact hi.installed_lt p (hstart.2 p hp)
      · cases hv
    · cases h
  | lookup q now =>
    simp only [step] at h
    split at h
    · rename_i domain handle hq
      have hsub : Right env s.engine s.queries handle →
          ∀ x ∈ (BlocklistCache.get (s.engine.caches handle) domain now).2.entries,
            x.2.blocked = s.engine.verdict env handle x.1 :=
        fun hr x hx => hr.cached x (BlocklistCache.mem_of_mem_get hx)
      split at h
      · rw [← Option.some.inj h]
        exact queryStep_inv hi hsub (lookup_erase_or _)
      · rw [← Option.some.inj h]
        have hlt := hi.handle_lt q _ hq
        refine queryStep_inv hi hsub (lookup_insert_or ⟨hlt, fun v hv => ?_⟩)
        cases hv
    · cases h
  | compute q =>
    simp only [step] at h
    split at h
    · rename_i domain handle hq
      rw [← Option.some.inj h]
      have hlt := hi.handle_lt q _ hq
      refine queryStep_inv_of_caches hi (lookup_insert_or ⟨hlt, fun v hv => ?_⟩)
      exact (Phase.computed.inj hv).symm
    · cases h
  | insert q now =>
    simp only [step] at h
    split at h
    · rename_i domain handle v hq
      rw [← Option.some.inj h]
      refine queryStep_inv hi (fun hr x hx => ?_) (lookup_erase_or _)
      rcases BlocklistCache.mem_of_mem_insert hx with ⟨hd, hb⟩ | hx
      · rw [hd, hb]
        exact hr.held q domain v hq
      · exact hr.cached x hx
    · cases h
  | startMutation m op =>
    simp only [step] at h
    split at h
    · rename_i hnone
      rw [← Option.some.inj h]
      have hlook : ∀ m' l, (s.mutations.insert m op.steps).lookup m' = some l →
          m' = m ∧ l = op.steps ∨ s.mutations.lookup m' = some l := by
        intro m' l hl
        rw [Table.lookup_insert_eq] at hl
        split at hl
        · exact Or.inl ⟨‹_›, (Option.some.inj hl).symm⟩
        · exact Or.inr hl
      refine ⟨fun h' hl => ?_, hi.installed_lt, hi.handle_lt, fun m' l hl => ?_⟩
      · rcases hi.settled h' hl with ⟨m', l, hl', ho⟩ | hr
        · left
          refine ⟨m', l, ?_, ho⟩
          rw [Table.lookup_insert_eq, if_neg]
          · exact hl'
          · rintro rfl
            rw [hnone] at hl'
            cases hl'
        · exact Or.inr hr
      · rcases hlook m' l hl with ⟨-, rfl⟩ | hl
        · exact shaped_steps op
        · exact hi.shaped m' l hl
    · cases h
  | advance m =>
    simp only [step] at h
    split at h
    · rename_i micro rest hm
      rw [← Option.some.inj h]
      exact advance_inv hi hm hg
    · cases h

/-! ## Whole runs -/

/-- Nothing is in flight. -/
def Quiet (s : System) : Prop :=
  (∀ q, s.queries.lookup q = none) ∧ ∀ m, s.mutations.lookup m = none

/-- Every verdict in a cache in use is the one the current sets give. -/
def Coherent (env : Crates) (e : Engine) : Prop :=
  ∀ h, e.live h → ∀ x ∈ (e.caches h).entries, x.2.blocked = e.verdict env h x.1

/-- `is_blocked_for_normalized`, run by itself: the cached verdict, or the computed
one, which is then cached. -/
def isBlockedFor (env : Crates) (e : Engine) (h : Handle) (domain : Name) (now : ℕ) :
    Bool × Engine :=
  match (e.caches h).get domain now with
  | (some b, c) => (b, e.setCache h c)
  | (none, c) =>
    let b := e.verdict env h domain
    (b, e.setCache h (c.insert domain b now))

/-- `should_block_for`, run by itself. -/
def shouldBlockFor (env : Crates) (e : Engine) (h : Handle) (domain : Name) (now : ℕ) : Bool :=
  (overrides env e.sets domain (h.map e.profiles)).getD (isBlockedFor env e h domain now).1

/-- The engine as it starts: any sets and profiles, nothing cached. -/
def System.start (sets : Sets) (cap : ℕ) (profiles : List Profile) : System where
  engine := Engine.install ⟨sets, fun _ => .empty, fun _ => .empty cap, [], 0⟩ profiles
  queries := ∅
  mutations := ∅

theorem start_inv (env : Crates) (sets : Sets) (cap : ℕ) (profiles : List Profile) :
    Inv env (.start sets cap profiles) where
  settled := by
    intro h hl
    right
    constructor
    · intro x hx
      match h with
      | none => simp [System.start, Engine.install] at hx
      | some p => simp [System.start, Engine.install] at hx
    · intro q d v hq
      simp [System.start] at hq
  installed_lt := by
    intro p hp
    simp only [System.start, Engine.install, List.mem_range'_1] at hp ⊢
    exact hp.2
  handle_lt := fun q x hq => by simp [System.start] at hq
  shaped := fun m left hm => by simp [System.start] at hm

theorem Inv.coherent {env : Crates} {s : System} (hi : Inv env s) (hq : Quiet s) :
    Coherent env s.engine := by
  intro h hl
  rcases hi.settled h hl with ⟨m, left, hm, -⟩ | hr
  · rw [hq.2 m] at hm
    cases hm
  · exact hr.cached

/-- With coherent caches the cached decision is the computed one. -/
theorem shouldBlockFor_eq {env : Crates} {e : Engine} (hc : Coherent env e) {h : Handle}
    (hl : e.live h) (domain : Name) (now : ℕ) :
    shouldBlockFor env e h domain now =
      shouldBlockUncached env e.sets domain (h.map e.profiles) := by
  have hverdict : checkBlockedIn env e.sets domain ((h.map e.profiles).elim e.sets.block
      Profile.fst) = e.verdict env h domain := by cases h <;> rfl
  have hblocked : (isBlockedFor env e h domain now).1 = e.verdict env h domain := by
    unfold isBlockedFor
    split
    · rename_i b c hget
      obtain ⟨x, hx, hb⟩ := BlocklistCache.mem_of_get_eq_some (congrArg Prod.fst hget)
      rw [← hc h hl _ hx, hb]
    · rfl
  rw [shouldBlockFor, shouldBlockUncached, hverdict, hblocked]

/-- **Cached verdicts are current once nothing is in flight.**  In every run of
queries and mutations, however interleaved, in which no mutation clears a cache
while a query holds an outdated verdict for it, the caches in use hold only verdicts
of the current sets when all operations are done, and the decision a query then gets
is the one computed from these sets. -/
theorem caches_coherent_of_no_overtaking (env : Crates) (sets : Sets) (cap : ℕ)
    (profiles : List Profile) (as : List Action) (s : System)
    (hg : Guarded (step env) (NoOvertaking env) (.start sets cap profiles) as)
    (hrun : exec (step env) (.start sets cap profiles) as = some s) (hq : Quiet s) :
    Coherent env s.engine ∧
      ∀ (h : Handle) (domain : Name) (now : ℕ), s.engine.live h →
        shouldBlockFor env s.engine h domain now =
          shouldBlockUncached env s.engine.sets domain (h.map s.engine.profiles) := by
  have hinv : Inv env s :=
    inv_of_exec (step env) (fun s a s' => step_inv s a s') (start_inv env sets cap profiles) hg hrun
  have hc := hinv.coherent hq
  exact ⟨hc, fun h domain now hl => shouldBlockFor_eq hc hl domain now⟩

/-! ## A query that is overtaken -/

namespace Example

/-- A public suffix list that knows top-level domains; no pattern entry is used. -/
def env : Crates where
  suffix := fun n => some (n.splitOn '.').getLast!
  escape := id
  build := fun _ _ => .error "not used".toList
  catalog := []

/-- No entry in any set. -/
def noSets : Sets := ⟨⟨∅, []⟩, ⟨∅, []⟩, ⟨[], ∅⟩, ∅, ∅, []⟩

/-- `evil.com`. -/
def evil : Name := "evil.com".toList

/-- The query computes, `evil.com` is blacklisted and the caches are cleared, and
only then the query inserts what it computed. -/
def overtaken : List Action :=
  [.startQuery 0 evil none, .lookup 0 0, .compute 0, .startMutation 0 (.addBlacklist evil),
    .advance 0, .advance 0, .advance 0, .insert 0 0]

/-- The query inserts before the clear; a second one then asks again, and the one
profile's client asks while the list map is swapped. -/
def inTime : List Action :=
  [.startQuery 0 evil none, .lookup 0 0, .compute 0, .startMutation 0 (.addBlacklist evil),
    .advance 0, .insert 0 0, .advance 0, .advance 0, .advance 0, .startQuery 1 evil none,
    .lookup 1 5, .compute 1, .insert 1 5, .startQuery 2 evil (some 0), .lookup 2 6,
    .startMutation 1 (.refresh {evil} ∅ [.empty]), .advance 1, .compute 2, .advance 1, .insert 2 7,
    .advance 1, .advance 1]

end Example

open Example in
/-- **An overtaken query caches the old verdict**: nothing is in flight any more,
`evil.com` is blacklisted, and the global cache still says that it is allowed. -/
theorem overtaken_query_caches_stale_verdict :
    ∃ s, exec (step env) (.start noSets 10 []) overtaken = some s ∧ Quiet s ∧
      ¬ Coherent env s.engine ∧
      shouldBlockFor env s.engine none evil 1 = false ∧
      shouldBlockUncached env s.engine.sets evil none = true := by
  refine ⟨_, rfl, ⟨fun q => rfl, fun m => rfl⟩, fun hc => ?_, by decide +kernel, by decide +kernel⟩
  have h := hc none (fun _ h => by cases h) (evil, ⟨false, fromSecs allowedTtl⟩) (by decide +kernel)
  revert h
  decide +kernel

open Example in
/-- A run in which the query inserts in time: the caches end up coherent, the global
one and the one of the profile installed by the refresh. -/
theorem caches_coherent_in_time :
    ∃ s, exec (step env) (.start noSets 10 [.empty]) inTime = some s ∧ Quiet s ∧
      Guarded (step env) (NoOvertaking env) (.start noSets 10 [.empty]) inTime ∧
      Coherent env s.engine ∧
      ∀ (h : Handle) (domain : Name) (now : ℕ), s.engine.live h →
        shouldBlockFor env s.engine h domain now =
          shouldBlockUncached env s.engine.sets domain (h.map s.engine.profiles) := by
  have hg : Guarded (step env) (NoOvertaking env) (.start noSets 10 [.empty]) inTime := by
    decide +kernel
  have hquiet : ∃ s, exec (step env) (.start noSets 10 [.empty]) inTime = some s ∧ Quiet s :=
    ⟨_, rfl, fun q => rfl, fun m => rfl⟩
  obtain ⟨s, hrun, hq⟩ := hquiet
  exact ⟨s, hrun, hq, hg, caches_coherent_of_no_overtaking env noSets 10 [.empty] inTime s hg hrun hq⟩

end Ferrite.Blocklist
