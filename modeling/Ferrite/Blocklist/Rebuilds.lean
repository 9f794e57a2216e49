import Ferrite.Lib.Threads
import Ferrite.Blocklist.Profiles

/-!
# Profile rebuilds under concurrency

`set_profiles` and `rebuild_profiles_off_thread` of `blocklist/src/engine.rs`, taken apart
at their atomic steps and run by any number of threads: API handlers replace the
configuration, refreshes compile it again.  A compile works for seconds on the
configuration it has read, and nothing orders the stores, so a compile of an older
configuration can land last (`old_compile_lands_last`).

* `RebuildInv` — the invariant: profiles that are not those of the configuration are
  about to be replaced by a thread in flight, and so is a flag that is wrong;
* `rebuildStep_inv` — every step keeps it as long as it is `UpToDate`;
* `installed_follow_config_of_up_to_date` — in such a run the installed profiles are
  those of the configuration whenever nothing is in flight.
-/

namespace Ferrite.Blocklist

open Lts App
open Threads (put lookup_put_iff)

/-! ## The operations, step by step -/

/-- What `set_profiles` and the rebuilds write. -/
structure Installed where
  hasProfiles : Bool
  profilesConfig : List ProfileConfig
  profiles : List CompiledProfile

/-- A call.  `maps` is what the disk will give each profile when the call comes to compile;
it differs from call to call. -/
inductive RebuildOp where
  | setProfiles (configs : List ProfileConfig) (maps : ProfileConfig → ProfileMaps)
  | rebuild (maps : ProfileConfig → ProfileMaps)

/-- Where a thread is in its call. -/
inductive RebuildPlace where
  | storeFlag (configs : List ProfileConfig) (maps : ProfileConfig → ProfileMaps)
  | writeConfig (configs : List ProfileConfig) (maps : ProfileConfig → ProfileMaps)
  | readConfig (maps : ProfileConfig → ProfileMaps)
  /-- The configuration is read and being compiled, the profiles are still to be stored. -/
  | store (configs : List ProfileConfig) (maps : ProfileConfig → ProfileMaps)

/-- Where a call begins. -/
def RebuildOp.entry : RebuildOp → RebuildPlace
  | .setProfiles configs maps => .storeFlag configs maps
  | .rebuild maps => .readConfig maps

/-- What is installed and the calls in flight. -/
abbrev RebuildSystem := Threads.System Installed RebuildPlace

/-- One step of a call.  The compile itself reads nothing that is shared. -/
def rebuildNext (env : Crates) (s : RebuildSystem) :
    RebuildPlace → Option (Installed × Option RebuildPlace)
  | .storeFlag configs maps =>
    some ({ s.shared with hasProfiles := !configs.isEmpty }, some (.writeConfig configs maps))
  | .writeConfig configs maps =>
    some ({ s.shared with profilesConfig := configs }, some (.readConfig maps))
  | .readConfig maps => some (s.shared, some (.store s.shared.profilesConfig maps))
  | .store configs maps =>
    some ({ s.shared with profiles := compileProfiles env maps configs }, none)

/-- One action of the system. -/
abbrev rebuildStep (env : Crates) : RebuildSystem → Threads.Action RebuildOp → Option RebuildSystem :=
  Threads.step RebuildOp.entry (rebuildNext env)

/-- The box once it has started: the profiles of its configuration are compiled. -/
def RebuildSystem.start (env : Crates) (configs : List ProfileConfig)
    (maps : ProfileConfig → ProfileMaps) : RebuildSystem :=
  ⟨⟨!configs.isEmpty, configs, compileProfiles env maps configs⟩, ∅⟩

/-! ## The invariant -/

/-- The profile is the configured one, but for its list maps. -/
structure Corresponds (env : Crates) (cfg : ProfileConfig) (p : CompiledProfile) : Prop where
  id : p.id = cfg.id
  clients : p.clients = normalizeClientKeys cfg.clients
  schedule : p.schedule = cfg.compiledSchedule
  allow : (p.rules.allowExact, p.rules.allowWild) = splitPatterns env cfg.allow
  block : (p.rules.blockExact, p.rules.blockWild) =
    ((splitPatterns env cfg.block).1 ∪ (domainsOf env cfg.services).toFinset,
      (splitPatterns env cfg.block).2)
  defaultDeny : p.rules.defaultDeny = cfg.defaultDeny

/-- The profiles are those of the configuration, one to one and in order. -/
def ProfilesRight (env : Crates) (i : Installed) : Prop :=
  List.Forall₂ (Corresponds env) i.profilesConfig i.profiles

theorem corresponds_compile (env : Crates) (maps : ProfileMaps) (cfg : ProfileConfig) :
    Corresponds env cfg (cfg.compile env maps) := ⟨rfl, rfl, rfl, rfl, rfl, rfl⟩

theorem corresponds_compileProfiles (env : Crates) (maps : ProfileConfig → ProfileMaps)
    (configs : List ProfileConfig) :
    List.Forall₂ (Corresponds env) configs (compileProfiles env maps configs) :=
  List.forall₂_map_right_iff.2 (List.forall₂_same.2 fun cfg _ => corresponds_compile env (maps cfg) cfg)

/-- The thread is still to write the configuration, after its flag. -/
def RebuildPlace.owesFlag : RebuildPlace → Bool
  | .storeFlag .. | .writeConfig .. => true
  | .readConfig _ | .store .. => false

/-- The thread is still to store the profiles of the configuration, as it stands or as the
thread will write or read it. -/
def RebuildPlace.owesProfiles (config : List ProfileConfig) : RebuildPlace → Bool
  | .storeFlag .. | .writeConfig .. | .readConfig _ => true
  | .store configs _ => configs == config

/-- A thread other than `t` owes the flag. -/
def RebuildSystem.flagOwed (s : RebuildSystem) (t : Option ℕ) : Prop :=
  ∃ u p, some u ≠ t ∧ s.threads.lookup u = some p ∧ p.owesFlag = true

/-- A thread other than `t` owes the profiles. -/
def RebuildSystem.profilesOwed (s : RebuildSystem) (t : Option ℕ) : Prop :=
  ∃ u p, some u ≠ t ∧ s.threads.lookup u = some p ∧ p.owesProfiles s.shared.profilesConfig = true

/-- **The invariant.**  What is not as the configuration has it is owed by a thread. -/
structure RebuildInv (env : Crates) (s : RebuildSystem) : Prop where
  flag : s.shared.hasProfiles = !s.shared.profilesConfig.isEmpty ∨ RebuildSystem.flagOwed s none
  profiles : ProfilesRight env s.shared ∨ RebuildSystem.profilesOwed s none

/-- The guard: profiles are stored only if they were compiled from the configuration as it
is now, and a configuration is written only under its own flag, or another thread in flight
is still to put that right. -/
def UpToDate (s : RebuildSystem) : Threads.Action RebuildOp → Prop
  | .start .. => True
  | .run t =>
    (∀ configs maps, s.threads.lookup t = some (.writeConfig configs maps) →
      s.shared.hasProfiles = !configs.isEmpty ∨ RebuildSystem.flagOwed s (some t)) ∧
    ∀ configs maps, s.threads.lookup t = some (.store configs maps) →
      configs = s.shared.profilesConfig ∨ RebuildSystem.profilesOwed s (some t)

instance (s : RebuildSystem) (t : Option ℕ) : Decidable (RebuildSystem.flagOwed s t) :=
  decidable_of_iff (∃ e ∈ s.threads.entries, some e.1 ≠ t ∧ e.2.owesFlag = true)
    ⟨fun ⟨e, he, hne, ho⟩ => ⟨e.1, e.2, hne, Table.mem_entries_iff.1 he, ho⟩,
      fun ⟨u, p, hne, hu, ho⟩ => ⟨⟨u, p⟩, Table.mem_entries_iff.2 hu, hne, ho⟩⟩

instance (s : RebuildSystem) (t : Option ℕ) : Decidable (RebuildSystem.profilesOwed s t) :=
  decidable_of_iff (∃ e ∈ s.threads.entries, some e.1 ≠ t ∧
      e.2.owesProfiles s.shared.profilesConfig = true)
    ⟨fun ⟨e, he, hne, ho⟩ => ⟨e.1, e.2, hne, Table.mem_entries_iff.1 he, ho⟩,
      fun ⟨u, p, hne, hu, ho⟩ => ⟨⟨u, p⟩, Table.mem_entries_iff.2 hu, hne, ho⟩⟩

instance (s : RebuildSystem) (a : Threads.Action RebuildOp) : Decidable (UpToDate s a) :=
  match a with
  | .start .. => isTrue trivial
  | .run t =>
    match ht : s.threads.lookup t with
    | some (.writeConfig configs maps) =>
      decidable_of_iff (s.shared.hasProfiles = !configs.isEmpty ∨ RebuildSystem.flagOwed s (some t))
        (by simp [UpToDate, ht])
    | some (.store configs maps) =>
      decidable_of_iff (configs = s.shared.profilesConfig ∨ RebuildSystem.profilesOwed s (some t))
        (by simp [UpToDate, ht])
    | none | some (.storeFlag ..) | some (.readConfig _) => isTrue (by simp [UpToDate, ht])

section

variable {env : Crates} {s : RebuildSystem} {t : ℕ}

/-- What another thread owes it still owes when this one has moved. -/
theorem flagOwed_of_other {shared : Installed} {p' : Option RebuildPlace}
    (h : RebuildSystem.flagOwed s (some t)) :
    RebuildSystem.flagOwed ⟨shared, put s.threads t p'⟩ none := by
  obtain ⟨u, q, hne, hu, hq⟩ := h
  have hut : u ≠ t := fun heq => hne (congrArg some heq)
  exact ⟨u, q, nofun, lookup_put_iff.2 (Or.inr ⟨hut, hu⟩), hq⟩

theorem profilesOwed_of_other {shared : Installed} {p' : Option RebuildPlace}
    (hsame : shared.profilesConfig = s.shared.profilesConfig)
    (h : RebuildSystem.profilesOwed s (some t)) :
    RebuildSystem.profilesOwed ⟨shared, put s.threads t p'⟩ none := by
  obtain ⟨u, q, hne, hu, hq⟩ := h
  have hut : u ≠ t := fun heq => hne (congrArg some heq)
  exact ⟨u, q, nofun, lookup_put_iff.2 (Or.inr ⟨hut, hu⟩), hsame ▸ hq⟩

/-- What this thread owes at its next place. -/
theorem flagOwed_of_self {shared : Installed} {p : RebuildPlace} (h : p.owesFlag = true) :
    RebuildSystem.flagOwed ⟨shared, put s.threads t (some p)⟩ none :=
  ⟨t, p, nofun, lookup_put_iff.2 (Or.inl ⟨rfl, rfl⟩), h⟩

theorem profilesOwed_of_self {shared : Installed} {p : RebuildPlace}
    (h : p.owesProfiles shared.profilesConfig = true) :
    RebuildSystem.profilesOwed ⟨shared, put s.threads t (some p)⟩ none :=
  ⟨t, p, nofun, lookup_put_iff.2 (Or.inl ⟨rfl, rfl⟩), h⟩

/-- A thread that owes no flag: whoever does is another. -/
theorem flagOwed_other_of {p : RebuildPlace} (ht : s.threads.lookup t = some p)
    (hp : p.owesFlag = false) (h : RebuildSystem.flagOwed s none) :
    RebuildSystem.flagOwed s (some t) := by
  obtain ⟨u, q, -, hu, hq⟩ := h
  refine ⟨u, q, fun heq => ?_, hu, hq⟩
  rw [Option.some.inj heq, ht] at hu
  rw [Option.some.inj hu, hq] at hp
  cases hp

theorem start_rebuild_inv (hi : RebuildInv env s) {op : RebuildOp}
    (ht : s.threads.lookup t = none) :
    RebuildInv env ⟨s.shared, put s.threads t (some op.entry)⟩ := by
  have hkept : ∀ {u q}, s.threads.lookup u = some q →
      (put s.threads t (some op.entry)).lookup u = some q := by
    intro u q hu
    refine lookup_put_iff.2 (Or.inr ⟨?_, hu⟩)
    rintro rfl
    rw [ht] at hu
    cases hu
  constructor
  · rcases hi.flag with h | ⟨u, q, hne, hu, hq⟩
    · exact Or.inl h
    · exact Or.inr ⟨u, q, hne, hkept hu, hq⟩
  · rcases hi.profiles with h | ⟨u, q, hne, hu, hq⟩
    · exact Or.inl h
    · exact Or.inr ⟨u, q, hne, hkept hu, hq⟩

/-- One step of a call, place by place. -/
theorem run_rebuild_inv (hi : RebuildInv env s) {p : RebuildPlace}
    (ht : s.threads.lookup t = some p) (hg : UpToDate s (.run t)) {shared : Installed}
    {p' : Option RebuildPlace} (hnext : rebuildNext env s p = some (shared, p')) :
    RebuildInv env ⟨shared, put s.threads t p'⟩ := by
  cases p with
  | storeFlag configs maps =>
    cases hnext
    exact ⟨Or.inr (flagOwed_of_self rfl), Or.inr (profilesOwed_of_self rfl)⟩
  | writeConfig configs maps =>
    cases hnext
    refine ⟨?_, Or.inr (profilesOwed_of_self rfl)⟩
    rcases hg.1 configs maps ht with h | h
    · exact Or.inl h
    · exact Or.inr (flagOwed_of_other h)
  | readConfig maps =>
    cases hnext
    refine ⟨?_, Or.inr (profilesOwed_of_self (by simp [RebuildPlace.owesProfiles]))⟩
    rcases hi.flag with h | h
    · exact Or.inl h
    · exact Or.inr (flagOwed_of_other (flagOwed_other_of ht rfl h))
  | store configs maps =>
    cases hnext
    constructor
    · rcases hi.flag with h | h
      · exact Or.inl h
      · exact Or.inr (flagOwed_of_other (flagOwed_other_of ht rfl h))
    · rcases hg.2 configs maps ht with rfl | h
      · exact Or.inl (corresponds_compileProfiles env maps s.shared.profilesConfig)
      · exact Or.inr (profilesOwed_of_other rfl h)

end

/-- **Every step keeps the invariant**, as long as it is up to date. -/
theorem rebuildStep_inv (env : Crates) (s : RebuildSystem) (a : Threads.Action RebuildOp)
    (s' : RebuildSystem) (hg : UpToDate s a) (hi : RebuildInv env s) (h : rebuildStep env s a = some s') :
    RebuildInv env s' := by
  obtain ⟨t, op, rfl, ht, rfl⟩ | ⟨t, p, shared, p', rfl, ht, hnext, rfl⟩ := Threads.step_cases _ _ h
  · exact start_rebuild_inv hi ht
  · exact run_rebuild_inv hi ht hg hnext

/-- The installed profiles follow the configuration: in every run of `set_profiles` and
rebuilds, however interleaved, whose steps are all up to date, the compiled profiles are
those of the configuration, one to one and in order, whenever nothing is in flight, and the
flag says whether there are any. -/
theorem installed_follow_config_of_up_to_date (env : Crates) (configs : List ProfileConfig)
    (maps : ProfileConfig → ProfileMaps) (as : List (Threads.Action RebuildOp)) (s : RebuildSystem)
    (hg : Guarded (rebuildStep env) UpToDate (.start env configs maps) as)
    (hrun : exec (rebuildStep env) (.start env configs maps) as = some s) (hq : Threads.Quiet s) :
    ProfilesRight env s.shared ∧ (s.shared.hasProfiles = true ↔ s.shared.profiles ≠ []) := by
  have hstart : RebuildInv env (.start env configs maps) :=
    ⟨Or.inl rfl, Or.inl (corresponds_compileProfiles env maps configs)⟩
  have hi : RebuildInv env s := inv_of_exec _ (rebuildStep_inv env) hstart hg hrun
  have hprofiles : ProfilesRight env s.shared := by
    rcases hi.profiles with h | ⟨u, p, -, hu, -⟩
    · exact h
    · rw [hq u] at hu
      cases hu
  have hflag : s.shared.hasProfiles = !s.shared.profilesConfig.isEmpty := by
    rcases hi.flag with h | ⟨u, p, -, hu, -⟩
    · exact h
    · rw [hq u] at hu
      cases hu
  refine ⟨hprofiles, ?_⟩
  have hlength := hprofiles.length_eq
  rw [hflag, Bool.not_eq_true', List.isEmpty_eq_false_iff, ← List.length_pos_iff,
    ← List.length_pos_iff, hlength]

namespace RebuildExample

/-- A profile for one phone that is denied one name. -/
def kids : ProfileConfig where
  id := "kids".toList
  lists := []
  clients := ["id:pixel".toList]
  block := ["games.example".toList]
  services := []
  allow := []
  allowlists := []
  defaultDeny := false
  schedule := []

/-- No list map on disk. -/
def noMaps (_ : ProfileConfig) : ProfileMaps := ⟨∅, ∅⟩

/-- A refresh has read the empty configuration when `set_profiles` replaces it, and stores
first. -/
def refreshFirst : List (Threads.Action RebuildOp) :=
  [.start 0 (.rebuild noMaps), .run 0, .start 1 (.setProfiles [kids] noMaps), .run 1, .run 1, .run 0,
    .run 1, .run 1]

/-- The same two, and the refresh stores last. -/
def refreshLast : List (Threads.Action RebuildOp) :=
  [.start 0 (.rebuild noMaps), .run 0, .start 1 (.setProfiles [kids] noMaps), .run 1, .run 1, .run 1,
    .run 1, .run 0]

/-- Two `set_profiles` store their flags in one order and write in the other. -/
def crossedFlags : List (Threads.Action RebuildOp) :=
  [.start 0 (.setProfiles [kids] noMaps), .run 0, .start 1 (.setProfiles [] noMaps), .run 1, .run 1,
    .run 0, .run 0, .run 0, .run 1, .run 1]

end RebuildExample

open RebuildExample in
/-- A refresh that stores before `set_profiles` does no harm. -/
theorem installed_follow_config_refresh_first :
    ∃ s, exec (rebuildStep Example.env) (.start Example.env [] noMaps) refreshFirst = some s ∧
      Threads.Quiet s ∧ s.shared.profilesConfig = [kids] ∧ ProfilesRight Example.env s.shared ∧
      (s.shared.hasProfiles = true ↔ s.shared.profiles ≠ []) := by
  have hrun : ∃ s, exec (rebuildStep Example.env) (.start Example.env [] noMaps) refreshFirst = some s ∧
      Threads.Quiet s ∧ s.shared.profilesConfig = [kids] := ⟨_, rfl, fun t => rfl, rfl⟩
  obtain ⟨s, hrun, hq, hconfig⟩ := hrun
  have hg : Guarded (rebuildStep Example.env) UpToDate (.start Example.env [] noMaps) refreshFirst := by
    decide +kernel
  exact ⟨s, hrun, hq, hconfig,
    installed_follow_config_of_up_to_date Example.env [] noMaps refreshFirst s hg hrun hq⟩

open RebuildExample in
/-- **An old compile lands last**: nothing is in flight, the profile is configured, and none
is installed.  And two edits can leave the flag off over a profile that is installed. -/
theorem old_compile_lands_last :
    (∃ s, exec (rebuildStep Example.env) (.start Example.env [] noMaps) refreshLast = some s ∧
      Threads.Quiet s ∧ s.shared.profilesConfig = [kids] ∧ s.shared.profiles = [] ∧
      ¬ ProfilesRight Example.env s.shared) ∧
    ∃ s, exec (rebuildStep Example.env) (.start Example.env [] noMaps) crossedFlags = some s ∧
      Threads.Quiet s ∧ s.shared.hasProfiles = false ∧ s.shared.profiles ≠ [] := by
  constructor
  · refine ⟨_, rfl, fun t => rfl, rfl, rfl, fun h => ?_⟩
    have hlength := h.length_eq
    cases hlength
  · exact ⟨_, rfl, fun t => rfl, rfl, nofun⟩

end Ferrite.Blocklist
