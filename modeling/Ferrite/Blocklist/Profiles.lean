import Ferrite.Blocklist.Coherence
import Ferrite.Blocklist.Gating

/-!
# Compiling a profile

From the configuration of a profile to what the query path works with:
`compile_profiles` of `blocklist/src/profiles.rs` and the schedules of
`core/src/schedule.rs`.  Which list map a profile serves depends on the files on disk
and comes from elsewhere; everything else is a function of the configuration.
-/

namespace Ferrite.Blocklist

open App

/-! ## Schedules -/

/-- `MINUTES_PER_DAY`. -/
def minutesPerDay : ℕ := 24 * 60

/-- `DAYS`, Monday first. -/
def days : List Text :=
  ["mon".toList, "tue".toList, "wed".toList, "thu".toList, "fri".toList, "sat".toList, "sun".toList]

/-- `ScheduleWindow`. -/
structure ScheduleWindow where
  days : List Text
  fromTime : Text
  toTime : Text
deriving DecidableEq, Repr

/-- `day_index`. -/
def dayIndex (day : Text) : Option ℕ := days.findIdx? (· == day)

/-- `parse_time`: minutes since midnight.  Two characters are parsed as `u32` and as `u8`
alike. -/
def parseTime (s : Text) : Option ℕ := do
  let (h, m) ← s.splitOnce ':'
  if h = [] ∨ 2 < h.byteLen ∨ m.byteLen ≠ 2 then none
  else
    let h ← parseU8 h
    let m ← parseU8 m
    if h = 24 ∧ m = 0 then some minutesPerDay
    else if h ≤ 23 ∧ m ≤ 59 then some (h * 60 + m)
    else none

/-- `ScheduleWindow::spans`: start and length for each day the window starts on. -/
def ScheduleWindow.spans (w : ScheduleWindow) : Except Text (List (ℕ × ℕ)) :=
  match (parseTime w.fromTime).filter (· < minutesPerDay) with
  | none => .error ("start '".toList ++ w.fromTime ++ "' is not a time (HH:MM)".toList)
  | some start =>
    match parseTime w.toTime with
    | none => .error ("end '".toList ++ w.toTime ++ "' is not a time (HH:MM)".toList)
    | some stop =>
      let len := if start < stop then stop - start
        else if stop < start then minutesPerDay - start + stop
        else minutesPerDay
      let indices : Except Text (List ℕ) := if w.days = [] then .ok (List.range 7)
        else w.days.mapM fun d =>
          (dayIndex d).elim (.error ("'".toList ++ d ++ "' is not a day (mon…sun)".toList)) .ok
      indices.map fun ds => ds.map fun d => (d * minutesPerDay + start, len)

/-- `Schedule::compile`: the first window that is wrong is named. -/
def Schedule.compile (windows : List ScheduleWindow) : Except Text Schedule :=
  let rows : Except Text (List (List (ℕ × ℕ))) := windows.zipIdx.mapM fun (w, i) =>
    w.spans.mapError fun e => "time window ".toList ++ decimal (i + 1) ++ ": ".toList ++ e
  rows.map fun spans => ⟨spans.flatten⟩

/-- `Schedule::never`. -/
def Schedule.never : Schedule := ⟨[(0, 0)]⟩

/-! ## Profiles -/

/-- `BlocklistProfileConfig`, without its display name and the SafeSearch settings. -/
structure ProfileConfig where
  id : Text
  lists : List Text
  clients : List Text
  block : List Text
  services : List Text
  allow : List Text
  allowlists : List Text
  defaultDeny : Bool
  schedule : List ScheduleWindow
deriving DecidableEq, Repr

/-- One entry of `split_patterns`: an empty name is passed over, an invalid pattern too. -/
def splitPattern (env : Crates) (acc : Finset Name × List Regex) (p : Text) :
    Finset Name × List Regex :=
  let norm := normalise p
  if norm = [] then acc
  else if isPattern norm then
    match patternToRegex env norm with
    | .ok re => (acc.1, acc.2 ++ [re])
    | .error _ => acc
  else (insert norm acc.1, acc.2)

/-- `split_patterns`. -/
def splitPatterns (env : Crates) (patterns : List Text) : Finset Name × List Regex :=
  patterns.foldl (splitPattern env) (∅, [])

/-- The maps a profile is compiled with: that of its lists, and that of its allowlists when
it names any. -/
structure ProfileMaps where
  fst : FstMap
  allow : FstMap

/-- The rules of a compiled profile. -/
def ProfileConfig.rules (env : Crates) (maps : ProfileMaps) (cfg : ProfileConfig) : Profile :=
  let (allowExact, allowWild) := splitPatterns env cfg.allow
  let (blockExact, blockWild) := splitPatterns env cfg.block
  { fst := maps.fst
    allowExact := allowExact
    allowWild := allowWild
    -- the catalog services are block entries spelled by name
    blockExact := blockExact ∪ (domainsOf env cfg.services).toFinset
    blockWild := blockWild
    allowFst := if cfg.allowlists = [] then none else some maps.allow
    defaultDeny := cfg.defaultDeny }

/-- When a compiled profile applies; one whose schedule is wrong is never on. -/
def ProfileConfig.compiledSchedule (cfg : ProfileConfig) : Schedule :=
  match Schedule.compile cfg.schedule with
  | .ok s => s
  | .error _ => .never

/-- One profile of `compile_profiles`. -/
def ProfileConfig.compile (env : Crates) (maps : ProfileMaps) (cfg : ProfileConfig) :
    CompiledProfile where
  id := cfg.id
  schedule := cfg.compiledSchedule
  clients := normalizeClientKeys cfg.clients
  rules := cfg.rules env maps
  cache := .empty Blocklist.Engine.profileDecisionCache

/-- `compile_profiles`, with the maps each profile gets. -/
def compileProfiles (env : Crates) (maps : ProfileConfig → ProfileMaps) (configs : List ProfileConfig) :
    List CompiledProfile :=
  configs.map fun cfg => cfg.compile env (maps cfg)

/-! ## What a pattern list covers -/

/-- The exact names and the patterns of a list, as what the entries say one by one. -/
theorem mem_splitPatterns (env : Crates) (patterns : List Text) (acc : Finset Name × List Regex) :
    (∀ n, n ∈ (patterns.foldl (splitPattern env) acc).1 ↔
      n ∈ acc.1 ∨ ∃ p ∈ patterns, normalise p = n ∧ n ≠ [] ∧ isPattern n = false) ∧
    ∀ re, re ∈ (patterns.foldl (splitPattern env) acc).2 ↔
      re ∈ acc.2 ∨ ∃ p ∈ patterns, normalise p ≠ [] ∧ isPattern (normalise p) = true ∧
        patternToRegex env (normalise p) = .ok re := by
  induction patterns generalizing acc with
  | nil => simp
  | cons p patterns ih =>
    rw [List.foldl_cons]
    obtain ⟨hexact, hwild⟩ := ih (splitPattern env acc p)
    refine ⟨fun n => (hexact n).trans ?_, fun re => (hwild re).trans ?_⟩
    · simp only [List.exists_mem_cons_iff, ← or_assoc]
      refine or_congr_left ?_
      unfold splitPattern
      simp only
      split
      · rename_i hnil
        simp only [hnil]
        exact ⟨Or.inl, fun h => h.elim id fun ⟨h, hne, _⟩ => absurd h.symm hne⟩
      · rename_i hne
        split
        · rename_i hpat
          have hno : ¬ (normalise p = n ∧ n ≠ [] ∧ isPattern n = false) := by
            rintro ⟨rfl, -, h⟩
            rw [hpat] at h
            cases h
          split <;> simp [hno]
        · rename_i hpat
          rw [Finset.mem_insert]
          constructor
          · rintro (rfl | h)
            · exact Or.inr ⟨rfl, hne, by simpa using hpat⟩
            · exact Or.inl h
          · rintro (h | ⟨rfl, -⟩)
            · exact Or.inr h
            · exact Or.inl rfl
    · simp only [List.exists_mem_cons_iff, ← or_assoc]
      refine or_congr_left ?_
      unfold splitPattern
      simp only
      split
      · rename_i hnil
        simp [hnil]
      · rename_i hne
        split
        · rename_i hpat
          cases hre : patternToRegex env (normalise p) with
          | ok re' => simp [hne, hpat, eq_comm]
          | error e => simp
        · rename_i hpat
          simp [hpat]

end Ferrite.Blocklist
