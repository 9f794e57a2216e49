import Ferrite.App.State
import Ferrite.Lib.Table

/-!
# Who is filtered, and by which profile

The switch, the pauses (`blocklist/src/pause.rs`), the bypass set and the profiles of
`blocklist/src/engine.rs`, and the questions the query path asks of them.  Each set has
a flag beside it that says whether there is anything in it, so that the path need not
look, nor even find out who is asking.

* `FlagsRight` — each flag says what is in its set;
* `flagsRight_run` — it does, after any calls.
-/

namespace Ferrite.Blocklist

open App

/-! ## Pauses -/

/-- `Pauses`: the two flags, and behind them until when. -/
structure Pauses where
  global : Bool
  anyClients : Bool
  globalUntil : Option ℤ
  clients : Table Text ℤ

namespace Pauses

/-- `Pauses::default`. -/
def default : Pauses := ⟨false, false, none, ∅⟩

/-- `client_paused`. -/
def clientPaused (p : Pauses) (clientIp : Text) (mac : Option Text) : Bool :=
  p.anyClients && ((p.clients.lookup clientIp).isSome || mac.any fun m => (p.clients.lookup m).isSome)

/-- `pause_global`. -/
def pauseGlobal (p : Pauses) (til : ℤ) : Pauses := { p with globalUntil := some til, global := true }

/-- `pause_clients`. -/
def pauseClients (p : Pauses) (keys : List Text) (til : ℤ) : Pauses :=
  let keys := keys.filterMap normalizeClientKey
  if keys = [] then p
  else { p with clients := keys.foldl (fun t key => t.insert key til) p.clients, anyClients := true }

/-- `resume_global`. -/
def resumeGlobal (p : Pauses) : Pauses := { p with globalUntil := none, global := false }

/-- `resume_clients`. -/
def resumeClients (p : Pauses) (keys : List Text) : Pauses :=
  let clients := (keys.filterMap normalizeClientKey).foldl (fun t key => t.erase key) p.clients
  { p with clients := clients, anyClients := !clients.entries.isEmpty }

/-- `expire`: drop every pause that has run out. -/
def expire (p : Pauses) (now : ℤ) : Pauses :=
  if !p.global && !p.anyClients then p
  else
    let lapsed := p.globalUntil.any (· ≤ now)
    let clients := p.clients.retain fun _ til => now < til
    { p with
      globalUntil := if lapsed then none else p.globalUntil
      global := if lapsed then false else p.global
      clients := clients
      anyClients := !clients.entries.isEmpty }

end Pauses

/-! ## Profiles -/

/-- `MINUTES_PER_WEEK`. -/
def minutesPerWeek : ℕ := 7 * (24 * 60)

/-- `Schedule`: when a profile is on, as starts and lengths in minutes of the week. -/
structure Schedule where
  spans : List (ℕ × ℕ)
deriving DecidableEq, Repr

/-- `Schedule::is_active`: always, without windows. -/
def Schedule.isActive (s : Schedule) (minute : ℕ) : Bool :=
  s.spans.isEmpty ||
    s.spans.any fun (start, len) => (minute + minutesPerWeek - start) % minutesPerWeek < len

/-- `CompiledProfile`: the rules, and who and when they are for. -/
structure CompiledProfile where
  id : Text
  schedule : Schedule
  clients : Finset Text
  rules : Profile
  cache : BlocklistCache

namespace CompiledProfile

/-- `matches_client`. -/
def matchesClient (p : CompiledProfile) (clientIp : Text) (mac : Option Text) : Bool :=
  decide (clientIp ∈ p.clients) || mac.any fun m => decide (m ∈ p.clients)

/-- `active_at`. -/
def activeAt (p : CompiledProfile) (minute : ℕ) : Bool := p.schedule.isActive minute

end CompiledProfile

/-! ## The engine -/

/-- `Blocklist`: what decides who is filtered, and the lists.  `C` are the profile
configurations. -/
structure Filtering (C : Type) where
  enabled : Bool
  pauses : Pauses
  hasClientBypass : Bool
  hasProfiles : Bool
  profiles : List CompiledProfile
  profilesConfig : List C
  clientBypass : Finset Text
  sets : Sets
  cache : BlocklistCache
  clock : ℕ

namespace Filtering

variable {C : Type} (env : Crates) (b : Filtering C)

/-- `blocking_enabled`. -/
def blockingEnabled : Bool := b.enabled && !b.pauses.global

/-- `has_client_exceptions`. -/
def hasClientExceptions : Bool := b.hasClientBypass || b.pauses.anyClients

/-- `client_bypasses_blocking_normalized`. -/
def clientBypassesBlocking (clientIp : Text) (mac : Option Text) : Bool :=
  b.hasClientBypass &&
    (decide (clientIp ∈ b.clientBypass) || mac.any fun key => decide (key ∈ b.clientBypass))

/-- `client_filtering_off_normalized`. -/
def clientFilteringOff (clientIp : Text) (mac : Option Text) : Bool :=
  b.clientBypassesBlocking clientIp mac || b.pauses.clientPaused clientIp mac

/-- The first profile that lists the client and is on. -/
def firstProfile (clientIp : Text) (mac : Option Text) : Option CompiledProfile :=
  b.profiles.find? fun p => p.matchesClient clientIp mac && p.activeAt b.clock

/-- `profile_for`. -/
def profileFor (clientIp : Text) (mac : Option Text) : Option CompiledProfile :=
  if !b.hasProfiles then none else b.firstProfile clientIp mac

/-- `is_blocked_for_normalized`: the cached verdict, or that of the lists. -/
def isBlockedFor (now : ℕ) (domain : Name) (profile : Option CompiledProfile) : Bool :=
  let cache := profile.elim b.cache CompiledProfile.cache
  let fst := profile.elim b.sets.block fun p => p.rules.fst
  (cache.get domain now).1.getD (checkBlockedIn env b.sets domain fst)

/-- `should_block_for`. -/
def shouldBlockFor (now : ℕ) (domain : Name) (profile : Option CompiledProfile) : Bool :=
  (overrides env b.sets domain (profile.map CompiledProfile.rules)).getD
    (b.isBlockedFor env now domain profile)

/-- `is_allowed_for`. -/
def isAllowedFor (domain : Name) (profile : Option CompiledProfile) : Bool :=
  (profile.any fun p => p.rules.allows env domain) ||
    isWhitelistedFor env b.sets domain (profile.map CompiledProfile.rules)

/-- `set_blocking_enabled`. -/
def setBlockingEnabled (enabled : Bool) : Filtering C := { b with enabled := enabled }

/-- `set_client_bypass`. -/
def setClientBypass (entries : List Text) : Filtering C :=
  let normalized := normalizeClientKeys entries
  { b with clientBypass := normalized, hasClientBypass := normalized ≠ ∅ }

/-- `set_profiles`; `compile` is the compilation from the lists on disk. -/
def setProfiles (configs : List C) (compile : C → CompiledProfile) : Filtering C :=
  { b with
    hasProfiles := !configs.isEmpty
    profilesConfig := configs
    profiles := configs.map compile }

/-- The end of a rebuild off the thread: the profiles it compiled, maybe from a
configuration that has changed since. -/
def storeProfiles (profiles : List CompiledProfile) : Filtering C := { b with profiles := profiles }

/-- `set_clock`. -/
def setClock (minute : ℕ) : Filtering C := { b with clock := minute % minutesPerWeek }

/-- `Blocklist::new`: the profiles are compiled later. -/
def new (enabled : Bool) (bypass : List Text) (configs : List C) (sets : Sets)
    (cacheSize clock : ℕ) : Filtering C where
  enabled := enabled
  pauses := .default
  hasClientBypass := normalizeClientKeys bypass ≠ ∅
  hasProfiles := !configs.isEmpty
  profiles := []
  profilesConfig := configs
  clientBypass := normalizeClientKeys bypass
  sets := sets
  cache := .empty cacheSize
  clock := clock

end Filtering

/-- A call that changes who is filtered, or the lists. -/
inductive GateOp (C : Type)
  | setBlockingEnabled (enabled : Bool)
  | setClientBypass (entries : List Text)
  | setProfiles (configs : List C) (compile : C → CompiledProfile)
  | storeProfiles (profiles : List CompiledProfile)
  | setClock (minute : ℕ)
  | pauseGlobal (til : ℤ)
  | pauseClients (keys : List Text) (til : ℤ)
  | resumeGlobal
  | resumeClients (keys : List Text)
  | expire (now : ℤ)
  | setLists (sets : Sets) (cache : BlocklistCache)

/-- One call. -/
def Filtering.apply {C : Type} (b : Filtering C) : GateOp C → Filtering C
  | .setBlockingEnabled enabled => b.setBlockingEnabled enabled
  | .setClientBypass entries => b.setClientBypass entries
  | .setProfiles configs compile => b.setProfiles configs compile
  | .storeProfiles profiles => b.storeProfiles profiles
  | .setClock minute => b.setClock minute
  | .pauseGlobal til => { b with pauses := b.pauses.pauseGlobal til }
  | .pauseClients keys til => { b with pauses := b.pauses.pauseClients keys til }
  | .resumeGlobal => { b with pauses := b.pauses.resumeGlobal }
  | .resumeClients keys => { b with pauses := b.pauses.resumeClients keys }
  | .expire now => { b with pauses := b.pauses.expire now }
  | .setLists sets cache => { b with sets := sets, cache := cache }

/-! ## The flags -/

/-- The flags of the pauses say what there is. -/
structure Pauses.FlagsRight (p : Pauses) : Prop where
  global : p.global = p.globalUntil.isSome
  clients : p.anyClients = !p.clients.entries.isEmpty

/-- **The flags of the engine** say what is in their sets. -/
structure Filtering.FlagsRight {C : Type} (b : Filtering C) : Prop where
  pauses : b.pauses.FlagsRight
  bypass : b.hasClientBypass = decide (b.clientBypass ≠ ∅)
  profiles : b.hasProfiles = !b.profilesConfig.isEmpty

namespace Pauses

variable {p : Pauses}

theorem entries_insert_ne_nil (t : Table Text ℤ) (key : Text) (til : ℤ) :
    (t.insert key til).entries ≠ [] := by
  intro hnil
  have hlookup : (t.insert key til).lookup key = some til := AList.lookup_insert t
  rw [← Table.mem_entries_iff, hnil] at hlookup
  cases hlookup

theorem entries_foldl_insert_ne_nil {keys : List Text} (h : keys ≠ []) (t : Table Text ℤ)
    (til : ℤ) : (keys.foldl (fun t key => t.insert key til) t).entries ≠ [] := by
  rcases List.eq_nil_or_concat keys with rfl | ⟨keys, key, rfl⟩
  · exact absurd rfl h
  · rw [List.concat_eq_append, List.foldl_append]
    exact entries_insert_ne_nil _ key til

theorem flagsRight_pauseClients (h : p.FlagsRight) (keys : List Text) (til : ℤ) :
    (p.pauseClients keys til).FlagsRight := by
  unfold pauseClients
  simp only
  split
  · exact h
  · rename_i hkeys
    refine ⟨h.global, ?_⟩
    simpa using entries_foldl_insert_ne_nil hkeys p.clients til

theorem flagsRight_expire (h : p.FlagsRight) (now : ℤ) : (p.expire now).FlagsRight := by
  unfold expire
  split
  · exact h
  · refine ⟨?_, rfl⟩
    simp only
    split
    · rfl
    · exact h.global

end Pauses

namespace Filtering

variable {C : Type} {b : Filtering C}

theorem flagsRight_new (enabled : Bool) (bypass : List Text) (configs : List C) (sets : Sets)
    (cacheSize clock : ℕ) :
    (new enabled bypass configs sets cacheSize clock).FlagsRight where
  pauses := ⟨rfl, rfl⟩
  bypass := rfl
  profiles := rfl

theorem flagsRight_apply (h : b.FlagsRight) (op : GateOp C) : (b.apply op).FlagsRight := by
  cases op with
  | setBlockingEnabled enabled => exact ⟨h.pauses, h.bypass, h.profiles⟩
  | setClientBypass entries => exact ⟨h.pauses, rfl, h.profiles⟩
  | setProfiles configs compile => exact ⟨h.pauses, h.bypass, rfl⟩
  | storeProfiles profiles => exact ⟨h.pauses, h.bypass, h.profiles⟩
  | setClock minute => exact ⟨h.pauses, h.bypass, h.profiles⟩
  | pauseGlobal til => exact ⟨⟨rfl, h.pauses.clients⟩, h.bypass, h.profiles⟩
  | pauseClients keys til =>
    exact ⟨Pauses.flagsRight_pauseClients h.pauses keys til, h.bypass, h.profiles⟩
  | resumeGlobal => exact ⟨⟨rfl, h.pauses.clients⟩, h.bypass, h.profiles⟩
  | resumeClients keys => exact ⟨⟨h.pauses.global, rfl⟩, h.bypass, h.profiles⟩
  | expire now => exact ⟨Pauses.flagsRight_expire h.pauses now, h.bypass, h.profiles⟩
  | setLists sets cache => exact ⟨h.pauses, h.bypass, h.profiles⟩

/-- The flags are right after any calls. -/
theorem flagsRight_run (h : b.FlagsRight) (ops : List (GateOp C)) : (ops.foldl apply b).FlagsRight := by
  induction ops generalizing b with
  | nil => exact h
  | cons op ops ih => exact ih (flagsRight_apply h op)

/-! ## What a flag that is off is good for -/

theorem clientFilteringOff_eq_false (h : b.hasClientExceptions = false) (clientIp : Text)
    (mac : Option Text) : b.clientFilteringOff clientIp mac = false := by
  rw [hasClientExceptions, Bool.or_eq_false_iff] at h
  rw [clientFilteringOff, clientBypassesBlocking, Pauses.clientPaused, h.1, h.2]
  rfl

theorem profileFor_eq_none (h : b.hasProfiles = false) (clientIp : Text) (mac : Option Text) :
    b.profileFor clientIp mac = none := by
  rw [profileFor, h]
  rfl

/-- With the flags right, a client is let through just when one of its keys is in the
bypass set or among the pauses. -/
theorem clientFilteringOff_iff (h : b.FlagsRight) {clientIp : Text} {mac : Option Text} :
    b.clientFilteringOff clientIp mac = true ↔
      ∃ key ∈ clientIp :: mac.toList, key ∈ b.clientBypass ∨ (b.pauses.clients.lookup key).isSome := by
  have hbypass : b.clientBypassesBlocking clientIp mac = true ↔
      ∃ key ∈ clientIp :: mac.toList, key ∈ b.clientBypass := by
    have hflag : ∀ key ∈ b.clientBypass, b.hasClientBypass = true := by
      intro key hkey
      rw [h.bypass, decide_eq_true_eq]
      exact Finset.ne_empty_of_mem hkey
    unfold clientBypassesBlocking
    cases mac with
    | none => simpa using hflag clientIp
    | some m =>
      simp only [Option.any_some, Bool.and_eq_true, Bool.or_eq_true, decide_eq_true_eq,
        Option.toList_some, List.mem_cons, List.not_mem_nil, or_false, exists_eq_or_imp,
        exists_eq_left, and_iff_right_iff_imp]
      exact fun hkey => hkey.elim (hflag clientIp) (hflag m)
  have hpaused : b.pauses.clientPaused clientIp mac = true ↔
      ∃ key ∈ clientIp :: mac.toList, (b.pauses.clients.lookup key).isSome := by
    have hflag : ∀ key, (b.pauses.clients.lookup key).isSome → b.pauses.anyClients = true := by
      intro key hkey
      obtain ⟨til, htil⟩ := Option.isSome_iff_exists.1 hkey
      rw [h.pauses.clients, Bool.not_eq_true', List.isEmpty_eq_false_iff]
      exact List.ne_nil_of_mem (Table.mem_entries_iff.2 htil)
    unfold Pauses.clientPaused
    cases mac with
    | none => simpa using hflag clientIp
    | some m =>
      simp only [Option.any_some, Bool.and_eq_true, Bool.or_eq_true, Option.toList_some,
        List.mem_cons, List.not_mem_nil, or_false, exists_eq_or_imp, exists_eq_left,
        and_iff_right_iff_imp]
      exact fun hkey => hkey.elim (hflag clientIp) (hflag m)
  rw [clientFilteringOff, Bool.or_eq_true, hbypass, hpaused]
  constructor
  · rintro (⟨key, hmem, hkey⟩ | ⟨key, hmem, hkey⟩)
    · exact ⟨key, hmem, Or.inl hkey⟩
    · exact ⟨key, hmem, Or.inr hkey⟩
  · rintro ⟨key, hmem, hkey | hkey⟩
    · exact Or.inl ⟨key, hmem, hkey⟩
    · exact Or.inr ⟨key, hmem, hkey⟩

end Filtering

end Ferrite.Blocklist
