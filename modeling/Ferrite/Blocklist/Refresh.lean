import Ferrite.Lib.Lts
import Ferrite.Blocklist.Engine
import Mathlib.Data.Finset.Card

/-!
# Refreshing one list

`load_or_build_list_fst` of `blocklist/src/refresh.rs`: a list keeps its parsed text, the
stats of the parse, the built map and a sidecar that says which bytes the map was built
from, and a refresh replaces them one by one, any of the writes failing on its own.

A write that fails leaves its file as it was, or torn if it was being written in place.  A
process that stops before one of its writes leaves what a refresh leaves whose writes all
fail from there on; `ListFates.stopAt` is that.

* `Vouched` — the invariant: beside a sidecar of the current version is a map of the bytes
  it names;
* `loadOrBuildListFst_vouched` — what one refresh does to it, and what the digest it reports
  stands for;
* `lost_sidecar_vouches_for_old` — the one way to break it: the new map lands and the write
  of its sidecar is lost;
* `sidecar_vouches_of_none_lost` — over every run without such a loss.
-/

namespace Ferrite.Blocklist

open Lts

/-! ## Writes -/

/-- How a write ends: it lands, it leaves what was there, or it leaves a torn file. -/
inductive Fate where
  | done
  | kept
  | torn
deriving DecidableEq, Repr

namespace Fate

variable {α : Type}

/-- A file written in place; torn, it no longer reads back. -/
def write (f : Fate) (new old : Option α) : Option α :=
  match f with
  | .done => new
  | .kept => old
  | .torn => none

/-- A file replaced by a rename, or removed. -/
def replace (f : Fate) (new old : Option α) : Option α := if f = .done then new else old

end Fate

/-! ## The files of a list -/

/-- The text of a domain cache. -/
def joinLines (domains : List Name) : Text := ['\n'].intercalate domains

/-- `DomainSet::from_lines`. -/
def fromLines (text : Text) : List Name :=
  ((text.splitOn '\n').map fun line =>
    if line.getLast? = some '\r' then line.dropLast else line).filter (· ≠ [])

/-- The map built from the domains, `prepare_keys` first: trailing dots go, repeats too. -/
def buildFst (domains : List Name) : FstMap :=
  (domains.map (Text.trimEndMatches (· == '.'))).toFinset

/-- `AdblockStats`. -/
structure AdblockStats where
  kept : ℕ
  exceptions : ℕ
  unblockedByException : ℕ
  scopedSkipped : ℕ
  cosmeticSkipped : ℕ
  unsupportedSkipped : ℕ
deriving DecidableEq, Repr

/-- `ListValidators`. -/
structure ListValidators where
  etag : Option Text
  lastModified : Option Text
deriving DecidableEq, Repr

/-- `ListMeta`. -/
structure ListMeta where
  version : Text
  digest : Text
  validators : ListValidators
deriving DecidableEq, Repr

/-- What the files of a list read back as: the domain cache, the stats, what `mmap_fst` gives
for the map, and the sidecar. -/
structure ListSlot where
  text : Option Text
  stats : Option AdblockStats
  fst : Option FstMap
  sidecar : Option ListMeta
deriving DecidableEq

/-- What upstream bytes are turned into: the parser of the list's polarity, and the digest. -/
structure ListSource (Bytes : Type) where
  parse : Bytes → List Name × Option AdblockStats
  digest : Bytes → Text

/-- `FetchedList`, with the bytes in place of what they parse to. -/
inductive FetchedList (Bytes : Type) where
  | notModified
  | parsed (bytes : Bytes) (validators : ListValidators)

/-- What a refresh meets: whether it is forced, whether the files are young, and what
upstream answers. -/
structure ListInput (Bytes : Type) where
  force : Bool
  fstFresh : Bool
  textFresh : Bool
  fetched : Except Text (FetchedList Bytes)

/-- The writes of a refresh, in order; the last is that of the sidecar, or its removal. -/
inductive ListWrite where
  | text
  | stats
  | tmp
  | rename
  | sidecar
deriving DecidableEq, Repr

/-- The place of a write in the order. -/
def ListWrite.index : ListWrite → ℕ
  | .text => 0
  | .stats => 1
  | .tmp => 2
  | .rename => 3
  | .sidecar => 4

/-- How each write ends. -/
abbrev ListFates := ListWrite → Fate

/-- The process stops before the write `w`. -/
def ListFates.stopAt (fates : ListFates) (w : ListWrite) : ListFates :=
  fun v => if v.index < w.index then fates v else .kept

/-! ## A refresh -/

/-- `ListFst`. -/
inductive ListFst where
  | file
  | ram (map : FstMap)
deriving DecidableEq

/-- `ListOutcome`. -/
structure ListOutcome where
  name : Text
  fst : ListFst
  count : ℕ
  stats : Option AdblockStats
  digest : Option Text
deriving DecidableEq

/-- `ListOutcome::skipped`. -/
def ListOutcome.skipped : ListOutcome := ⟨[], .ram ∅, 0, none, none⟩

/-- The sidecar, if this version wrote it. -/
def ListSlot.current (version : Text) (slot : ListSlot) : Option ListMeta :=
  slot.sidecar.filter fun m => m.version == version

/-- `build_list_fst`. -/
def buildListFst (name : Text) (domains : List Name) (stats : Option AdblockStats)
    (sidecar : Option ListMeta) (fates : ListFates) (slot : ListSlot) : ListSlot × ListOutcome :=
  let map := buildFst domains
  if fates .tmp ≠ .done then
    -- the disk refused it: this refresh serves from memory
    ({ slot with sidecar := (fates .sidecar).replace none slot.sidecar },
      ⟨name, .ram map, map.card, stats, none⟩)
  else if fates .rename ≠ .done then
    ({ slot with sidecar := (fates .sidecar).replace none slot.sidecar }, .skipped)
  else
    match sidecar with
    | some m =>
      ({ slot with fst := some map, sidecar := (fates .sidecar).write (some m) slot.sidecar },
        ⟨name, .file, map.card, stats, some m.digest⟩)
    | none =>
      ({ slot with fst := some map, sidecar := (fates .sidecar).replace none slot.sidecar },
        ⟨name, .file, map.card, stats, none⟩)

/-- The domains of a domain cache; an empty one does not count. -/
def ListSlot.domains (slot : ListSlot) : Option (List Name) :=
  (slot.text.map fromLines).filter (· ≠ [])

/-- `stale_fallback`. -/
def staleFallback (name : Text) (sidecar : Option ListMeta) (fates : ListFates) (slot : ListSlot) :
    ListSlot × ListOutcome :=
  match slot.fst with
  | some map => (slot, ⟨name, .file, map.card, slot.stats, sidecar.map ListMeta.digest⟩)
  | none =>
    match slot.domains with
    | some domains => buildListFst name domains slot.stats sidecar fates slot
    | none => (slot, .skipped)

/-- `save_stats_cache`. -/
def saveStatsCache (fates : ListFates) (stats old : Option AdblockStats) : Option AdblockStats :=
  match stats with
  | some st => (fates .stats).write (some st) old
  | none => (fates .stats).replace none old

section

variable {Bytes : Type} (src : ListSource Bytes) (version : Text)

/-- The part of `load_or_build_list_fst` that asks upstream. -/
def askUpstream (name : Text) (input : ListInput Bytes) (fates : ListFates) (slot : ListSlot) :
    ListSlot × ListOutcome :=
  let sidecar := slot.current version
  match input.fetched, slot.fst with
  | .ok .notModified, some map =>
    (slot, ⟨name, .file, map.card, slot.stats, sidecar.map ListMeta.digest⟩)
  | .ok (.parsed bytes validators), fst =>
    let (domains, stats) := src.parse bytes
    let new : ListMeta := ⟨version, src.digest bytes, validators⟩
    if domains = [] then staleFallback name sidecar fates slot
    else
      match (if sidecar.any fun m => m.digest == src.digest bytes then fst else none) with
      | some map =>
        -- the bytes are those of the last time: only the validators are written back
        ({ slot with sidecar := (fates .sidecar).write (some new) slot.sidecar },
          ⟨name, .file, map.card, slot.stats.or stats, some new.digest⟩)
      | none =>
        buildListFst name domains stats (some new) fates
          { slot with text := (fates .text).replace (some (joinLines domains)) slot.text
                      stats := saveStatsCache fates stats slot.stats }
  | _, _ => staleFallback name sidecar fates slot

/-- `load_or_build_list_fst`. -/
def loadOrBuildListFst (name : Text) (input : ListInput Bytes) (fates : ListFates)
    (slot : ListSlot) : ListSlot × ListOutcome :=
  let sidecar := slot.current version
  match slot.fst, sidecar with
  | some map, some m =>
    if !input.force && input.fstFresh then
      (slot, ⟨name, .file, map.card, slot.stats, some m.digest⟩)
    else askUpstream src version name input fates slot
  | none, sidecar =>
    match (if !input.force && input.textFresh then slot.domains else none) with
    | some domains => buildListFst name domains slot.stats sidecar fates slot
    | none => askUpstream src version name input fates slot
  | some _, none => askUpstream src version name input fates slot

end

/-! ## What the sidecar vouches for -/

section

variable {Bytes : Type} (src : ListSource Bytes) (version : Text)

/-- The map is that of the bytes with this digest. -/
def Described (digest : Text) (map : FstMap) : Prop :=
  ∃ bytes, src.digest bytes = digest ∧ buildFst (src.parse bytes).1 = map

/-- **The invariant.**  Beside a sidecar of this version is a map of the bytes it names. -/
def Vouched (slot : ListSlot) : Prop :=
  ∀ m, slot.current version = some m → ∃ map, slot.fst = some map ∧ Described src m.digest map

/-- Upstream sends other bytes than those of the sidecar, and the refresh gets to ask. -/
def replaces (input : ListInput Bytes) (m : ListMeta) : Bool :=
  (input.force || !input.fstFresh) &&
    match input.fetched with
    | .ok (.parsed bytes _) => (src.parse bytes).1 ≠ [] && src.digest bytes ≠ m.digest
    | _ => false

/-- The guard: where a new map lands beside a sidecar of this version for other bytes, the
write of the new sidecar is not lost. -/
def SidecarLands (input : ListInput Bytes) (fates : ListFates) (slot : ListSlot) : Prop :=
  ∀ m, slot.current version = some m → replaces src input m = true →
    fates .tmp = .done → fates .rename = .done → fates .sidecar ≠ .kept

instance (input : ListInput Bytes) (fates : ListFates) (slot : ListSlot) :
    Decidable (SidecarLands src version input fates slot) :=
  match h : slot.current version with
  | none => isTrue fun m hm => by simp [h] at hm
  | some m => decidable_of_iff (replaces src input m = true → fates .tmp = .done →
      fates .rename = .done → fates .sidecar ≠ .kept) (by simp [SidecarLands, h])

end

section

variable {Bytes : Type} {src : ListSource Bytes} {version : Text} {slot : ListSlot}

theorem current_eq_some_iff {m : ListMeta} :
    slot.current version = some m ↔ slot.sidecar = some m ∧ m.version = version := by
  simp [ListSlot.current, Option.filter_eq_some_iff]

/-- A sidecar that was removed, or was not, vouches for no more than before. -/
theorem vouched_of_removed (h : Vouched src version slot) (f : Fate) :
    Vouched src version { slot with sidecar := f.replace none slot.sidecar } := by
  intro m hm
  obtain ⟨hside, hversion⟩ := current_eq_some_iff.1 hm
  unfold Fate.replace at hside
  split at hside
  · cases hside
  · exact h m (current_eq_some_iff.2 ⟨hside, hversion⟩)

/-- The text and the stats are no concern of the sidecar. -/
theorem vouched_congr {slot' : ListSlot} (hfst : slot'.fst = slot.fst)
    (hside : slot'.sidecar = slot.sidecar) (h : Vouched src version slot) :
    Vouched src version slot' := by
  intro m hm
  rw [hfst]
  refine h m ?_
  rwa [ListSlot.current, hside] at hm

/-- The outcome's digest, if it has one, stands for the map on disk. -/
def OutcomeTrue (src : ListSource Bytes) (r : ListSlot × ListOutcome) : Prop :=
  ∀ d, r.2.digest = some d → r.2.fst = .file ∧ ∃ map, r.1.fst = some map ∧ Described src d map

/-- A build without a sidecar to record. -/
theorem buildListFst_unproved {name : Text} {domains : List Name} {stats : Option AdblockStats}
    {fates : ListFates} (hnone : slot.current version = none) :
    Vouched src version (buildListFst name domains stats none fates slot).1 ∧
      OutcomeTrue src (buildListFst name domains stats none fates slot) := by
  have hno : ∀ f : Fate, ∀ fst,
      Vouched src version { slot with fst := fst, sidecar := f.replace none slot.sidecar } := by
    intro f fst m hm
    obtain ⟨hside, hversion⟩ := current_eq_some_iff.1 hm
    simp only [Fate.replace] at hside
    split at hside
    · cases hside
    · have hsome := current_eq_some_iff.2 ⟨hside, hversion⟩
      rw [hnone] at hsome
      cases hsome
  unfold buildListFst
  split
  · exact ⟨hno _ _, nofun⟩
  split
  · exact ⟨hno _ _, nofun⟩
  · exact ⟨hno _ _, nofun⟩

/-- A build whose bytes are known: the sidecar follows the map, or is torn or gone. -/
theorem buildListFst_proved {name : Text} {domains : List Name} {stats : Option AdblockStats}
    {new : ListMeta} {fates : ListFates} (hv : Vouched src version slot)
    (hnew : Described src new.digest (buildFst domains))
    (hlands : ∀ m, slot.current version = some m → fates .tmp = .done → fates .rename = .done →
      fates .sidecar ≠ .kept) :
    Vouched src version (buildListFst name domains stats (some new) fates slot).1 ∧
      OutcomeTrue src (buildListFst name domains stats (some new) fates slot) := by
  unfold buildListFst
  split
  · exact ⟨vouched_of_removed hv _, nofun⟩
  rename_i htmp
  split
  · exact ⟨vouched_of_removed hv _, nofun⟩
  rename_i hrename
  refine ⟨fun m hm => ⟨_, rfl, ?_⟩, fun d hd => ⟨rfl, _, rfl, ?_⟩⟩
  · obtain ⟨hside, hversion⟩ := current_eq_some_iff.1 hm
    cases hfate : fates .sidecar with
    | done =>
      simp only [hfate, Fate.write, Option.some.injEq] at hside
      rw [← hside]
      exact hnew
    | kept =>
      -- the old sidecar is still there: it is not one of this version
      simp only [hfate, Fate.write] at hside
      exact absurd hfate (hlands m (current_eq_some_iff.2 ⟨hside, hversion⟩)
        (not_not.1 htmp) (not_not.1 hrename))
    | torn =>
      simp only [hfate, Fate.write] at hside
      cases hside
  · cases hd
    exact hnew

/-- With the map on disk gone there is no sidecar of this version. -/
theorem current_eq_none_of_vouched (hv : Vouched src version slot) (hfst : slot.fst = none) :
    slot.current version = none := by
  rw [Option.eq_none_iff_forall_ne_some]
  intro m hm
  obtain ⟨map, hmap, -⟩ := hv m hm
  rw [hfst] at hmap
  cases hmap

/-- The cached map is kept: it is what the sidecar says, if it says anything. -/
theorem kept_outcome (hv : Vouched src version slot) {name : Text} {count : ℕ}
    {stats : Option AdblockStats} :
    OutcomeTrue src (slot, ⟨name, .file, count, stats, (slot.current version).map ListMeta.digest⟩) := by
  intro d hd
  obtain ⟨m, hm, rfl⟩ := Option.map_eq_some_iff.1 hd
  exact ⟨rfl, hv m hm⟩

theorem staleFallback_vouched (hv : Vouched src version slot) (name : Text) (fates : ListFates) :
    Vouched src version (staleFallback name (slot.current version) fates slot).1 ∧
      OutcomeTrue src (staleFallback name (slot.current version) fates slot) := by
  unfold staleFallback
  split
  · exact ⟨hv, kept_outcome hv⟩
  · rename_i hfst
    have hnone := current_eq_none_of_vouched hv hfst
    split
    · rw [hnone]
      exact buildListFst_unproved hnone
    · exact ⟨hv, nofun⟩

/-- The part of a refresh that asks upstream. -/
theorem askUpstream_vouched {name : Text} {input : ListInput Bytes} {fates : ListFates}
    (hv : Vouched src version slot)
    (hask : ∀ m, slot.current version = some m → (input.force || !input.fstFresh) = true)
    (hg : SidecarLands src version input fates slot) :
    Vouched src version (askUpstream src version name input fates slot).1 ∧
      OutcomeTrue src (askUpstream src version name input fates slot) := by
  unfold askUpstream
  simp only
  split
  · exact ⟨hv, kept_outcome hv⟩
  · rename_i bytes validators hfetched
    split
    · exact staleFallback_vouched hv name fates
    rename_i hdomains
    split
    · -- the bytes of the last time
      rename_i map hmap
      simp only [Option.ite_none_right_eq_some] at hmap
      obtain ⟨hsame, -⟩ := hmap
      obtain ⟨m, hm, hdigest⟩ := (Option.any_eq_true ..).1 hsame
      have hdigest : m.digest = src.digest bytes := by simpa using hdigest
      obtain ⟨map', hmap', hdesc⟩ := hv m hm
      rw [hdigest] at hdesc
      refine ⟨fun m' hm' => ⟨map', hmap', ?_⟩, fun d hd => ⟨rfl, map', hmap', ?_⟩⟩
      · obtain ⟨hside, hversion⟩ := current_eq_some_iff.1 hm'
        cases hfate : fates .sidecar with
        | done =>
          simp only [hfate, Fate.write, Option.some.injEq] at hside
          rw [← hside]
          exact hdesc
        | kept =>
          simp only [hfate, Fate.write] at hside
          cases hm.symm.trans (current_eq_some_iff.2 ⟨hside, hversion⟩)
          rw [hdigest]
          exact hdesc
        | torn =>
          simp only [hfate, Fate.write] at hside
          cases hside
      · cases hd
        exact hdesc
    · rename_i hother
      refine buildListFst_proved (vouched_congr rfl rfl hv) ⟨bytes, rfl, rfl⟩ ?_
      intro m hm htmp hrename
      have hm' : slot.current version = some m := hm
      refine hg m hm' ?_ htmp hrename
      obtain ⟨map, hmap, -⟩ := hv m hm'
      have hdigest : m.digest ≠ src.digest bytes := by
        intro heq
        simp [hm', heq, hmap] at hother
      simp [replaces, hask m hm', hfetched, hdomains, hdigest.symm]
  · exact staleFallback_vouched hv name fates

/-- **One refresh keeps the invariant**, unless the write of the new sidecar is lost; and the
digest it reports stands for the map it reports. -/
theorem loadOrBuildListFst_vouched {name : Text} {input : ListInput Bytes} {fates : ListFates}
    (hv : Vouched src version slot) (hg : SidecarLands src version input fates slot) :
    Vouched src version (loadOrBuildListFst src version name input fates slot).1 ∧
      OutcomeTrue src (loadOrBuildListFst src version name input fates slot) := by
  unfold loadOrBuildListFst
  simp only
  split
  · rename_i map m hfst hm
    split
    · refine ⟨hv, ?_⟩
      have h := @kept_outcome Bytes src version slot hv name map.card slot.stats
      rwa [hm] at h
    · rename_i hask
      refine askUpstream_vouched hv (fun _ _ => ?_) hg
      rw [Bool.not_eq_true, Bool.and_eq_false_iff, Bool.not_eq_false'] at hask
      rcases hask with h | h
      · rw [h, Bool.true_or]
      · rw [h, Bool.not_false, Bool.or_true]
  · rename_i hfst
    have hnone := current_eq_none_of_vouched hv hfst
    split
    · rw [hnone]
      exact buildListFst_unproved hnone
    · refine askUpstream_vouched hv (fun m hm => ?_) hg
      rw [hnone] at hm
      cases hm
  · rename_i map hfst hnone
    refine askUpstream_vouched hv (fun m hm => ?_) hg
    rw [hnone] at hm
    cases hm

end

/-! ## Whole runs -/

/-- A refresh runs to its end, or the process stops before one of its writes. -/
inductive ListAction (Bytes : Type) where
  | refresh (input : ListInput Bytes) (fates : ListFates)
  | stopped (input : ListInput Bytes) (fates : ListFates) (before : ListWrite)

/-- What the refresh meets, and how its writes end. -/
def ListAction.fates {Bytes : Type} : ListAction Bytes → ListInput Bytes × ListFates
  | .refresh input fates => (input, fates)
  | .stopped input fates w => (input, fates.stopAt w)

section

variable {Bytes : Type} (src : ListSource Bytes) (version name : Text)

/-- One refresh of the list. -/
def listStep (slot : ListSlot) (a : ListAction Bytes) : Option ListSlot :=
  some (loadOrBuildListFst src version name a.fates.1 a.fates.2 slot).1

/-- The guard of `SidecarLands`, for an action. -/
def NoneLost (slot : ListSlot) (a : ListAction Bytes) : Prop :=
  SidecarLands src version a.fates.1 a.fates.2 slot

instance (slot : ListSlot) (a : ListAction Bytes) : Decidable (NoneLost src version slot a) :=
  inferInstanceAs (Decidable (SidecarLands src version _ _ slot))

/-- Upstream says that nothing has changed, or sends the bytes the sidecar names. -/
def SaysUnchanged (slot : ListSlot) (input : ListInput Bytes) : Prop :=
  match input.fetched with
  | .ok .notModified => slot.fst ≠ none
  | .ok (.parsed bytes _) => (src.parse bytes).1 ≠ [] ∧
      ∃ m, slot.current version = some m ∧ m.digest = src.digest bytes
  | .error _ => False

variable {src version name}

/-- What is told to be unchanged is kept. -/
theorem kept_of_unchanged {slot : ListSlot} {input : ListInput Bytes} (fates : ListFates)
    (hv : Vouched src version slot) (h : SaysUnchanged src version slot input) :
    (loadOrBuildListFst src version name input fates slot).1.fst = slot.fst ∧
      (loadOrBuildListFst src version name input fates slot).2.fst = .file ∧ slot.fst ≠ none := by
  have hfst : slot.fst ≠ none := by
    unfold SaysUnchanged at h
    split at h
    · exact h
    · obtain ⟨-, m, hm, -⟩ := h
      obtain ⟨map, hmap, -⟩ := hv m hm
      rw [hmap]
      exact nofun
    · exact h.elim
  obtain ⟨map, hmap⟩ := Option.ne_none_iff_exists'.1 hfst
  have hask : (askUpstream src version name input fates slot).1.fst = slot.fst ∧
      (askUpstream src version name input fates slot).2.fst = .file := by
    unfold SaysUnchanged at h
    split at h
    · rename_i hfetched
      simp [askUpstream, hfetched, hmap]
    · rename_i bytes validators hfetched
      obtain ⟨hdomains, m, hm, hdigest⟩ := h
      simp [askUpstream, hfetched, hmap, hdomains, hm, hdigest]
    · exact h.elim
  have hcases : loadOrBuildListFst src version name input fates slot =
        askUpstream src version name input fates slot ∨
      ∃ o, loadOrBuildListFst src version name input fates slot = (slot, o) ∧ o.fst = .file := by
    cases hm : slot.current version with
    | none => exact Or.inl (by simp only [loadOrBuildListFst, hmap, hm])
    | some m =>
      simp only [loadOrBuildListFst, hmap, hm]
      split
      · exact Or.inr ⟨_, rfl, rfl⟩
      · exact Or.inl rfl
  rcases hcases with h | ⟨o, h, ho⟩
  · rw [h]
    exact ⟨hask.1, hask.2, hfst⟩
  · rw [h]
    exact ⟨rfl, ho, hfst⟩

/-- Where nothing is replaced, no sidecar can be lost. -/
theorem sidecarLands_of_unchanged {slot : ListSlot} {input : ListInput Bytes} (fates : ListFates)
    (h : SaysUnchanged src version slot input) : SidecarLands src version input fates slot := by
  intro m hm hreplaces
  unfold SaysUnchanged at h
  split at h
  · rename_i hfetched
    simp [replaces, hfetched] at hreplaces
  · rename_i bytes validators hfetched
    obtain ⟨-, m', hm', hdigest⟩ := h
    cases hm.symm.trans hm'
    simp [replaces, hfetched, hdigest] at hreplaces
  · exact h.elim

/-- **A sidecar never vouches for the wrong map.**  Over every run of refreshes of a list,
forced or not, whatever upstream answers, with any writes failing and the process stopping
anywhere, in which no write of a sidecar is lost after its map has landed: a sidecar of this
version stands beside the map of the bytes it names.  So what a refresh keeps as unchanged is
the map of the bytes with the digest it reports, and if upstream has sent bytes and no others
share their digest, it is the map of those bytes. -/
theorem sidecar_vouches_of_none_lost (src : ListSource Bytes) (version name : Text)
    (slot slot' : ListSlot) (as : List (ListAction Bytes)) (hstart : slot.current version = none)
    (hg : Guarded (listStep src version name) (NoneLost src version) slot as)
    (hrun : exec (listStep src version name) slot as = some slot') :
    (∀ m map, slot'.sidecar = some m → m.version = version → slot'.fst = some map →
      Described src m.digest map) ∧
    ∀ (input : ListInput Bytes) (fates : ListFates), SaysUnchanged src version slot' input →
      let r := loadOrBuildListFst src version name input fates slot'
      r.2.fst = .file ∧ r.1.fst = slot'.fst ∧
        (∀ d, r.2.digest = some d → ∃ map, r.1.fst = some map ∧ Described src d map) ∧
        ∀ bytes validators, input.fetched = .ok (.parsed bytes validators) →
          (∀ other, src.digest other = src.digest bytes → src.parse other = src.parse bytes) →
          r.1.fst = some (buildFst (src.parse bytes).1) := by
  have hinit : Vouched src version slot := by
    intro m hm
    rw [hstart] at hm
    cases hm
  have hv : Vouched src version slot' := by
    refine inv_of_exec (listStep src version name) (fun s a s' hg hv h => ?_) hinit hg hrun
    rw [← Option.some.inj h]
    exact (loadOrBuildListFst_vouched hv hg).1
  refine ⟨fun m map hside hversion hmap => ?_, fun input fates hsame => ?_⟩
  · obtain ⟨map', hmap', hdesc⟩ := hv m (current_eq_some_iff.2 ⟨hside, hversion⟩)
    cases hmap.symm.trans hmap'
    exact hdesc
  · obtain ⟨hfst, hfile, -⟩ := @kept_of_unchanged Bytes src version name slot' input fates hv hsame
    have hout := (@loadOrBuildListFst_vouched Bytes src version slot' name input fates hv
      (sidecarLands_of_unchanged fates hsame)).2
    refine ⟨hfile, hfst, fun d hd => (hout d hd).2, fun bytes validators hfetched hcoll => ?_⟩
    -- the bytes the sidecar names have the digest of those that were sent
    simp only [SaysUnchanged, hfetched] at hsame
    obtain ⟨-, m, hm, hdigest⟩ := hsame
    obtain ⟨map, hmap, other, hother, hbuilt⟩ := hv m hm
    rw [hfst, hmap, ← hbuilt, hcoll other (hother.trans hdigest)]

end

/-- The guard is needed: when the write of the sidecar is lost, the old one stands beside the
map of the new bytes. -/
theorem lost_sidecar_vouches_for_old {Bytes : Type} {src : ListSource Bytes} {version name : Text}
    {slot : ListSlot} {input : ListInput Bytes} {fates : ListFates} (hv : Vouched src version slot)
    (hlost : ¬ SidecarLands src version input fates slot) :
    ∃ m bytes validators, input.fetched = .ok (.parsed bytes validators) ∧ src.digest bytes ≠ m.digest ∧
      (loadOrBuildListFst src version name input fates slot).1.current version = some m ∧
      (loadOrBuildListFst src version name input fates slot).1.fst =
        some (buildFst (src.parse bytes).1) := by
  simp only [SidecarLands, not_forall, not_not, exists_prop] at hlost
  obtain ⟨m, hm, hreplaces, htmp, hrename, hkept⟩ := hlost
  obtain ⟨map, hmap, -⟩ := hv m hm
  simp only [replaces, Bool.and_eq_true] at hreplaces
  obtain ⟨hasks, hother⟩ := hreplaces
  split at hother
  · rename_i bytes validators hfetched
    rw [Bool.and_eq_true, decide_eq_true_eq, decide_eq_true_eq] at hother
    obtain ⟨hdomains, hdigest⟩ := hother
    have hupstream : (!input.force && input.fstFresh) = false := by
      rw [Bool.or_eq_true, Bool.not_eq_true'] at hasks
      rcases hasks with h | h
      · rw [h]
        rfl
      · rw [h, Bool.and_false]
    have hbuilds : loadOrBuildListFst src version name input fates slot =
        buildListFst name (src.parse bytes).1 (src.parse bytes).2
          (some ⟨version, src.digest bytes, validators⟩) fates
          { slot with text := (fates .text).replace (some (joinLines (src.parse bytes).1)) slot.text
                      stats := saveStatsCache fates (src.parse bytes).2 slot.stats } := by
      simp [loadOrBuildListFst, askUpstream, hmap, hm, hupstream, hfetched, hdomains, hdigest.symm]
    refine ⟨m, bytes, validators, hfetched, hdigest, ?_, ?_⟩
    · rw [hbuilds]
      simp only [buildListFst, htmp, hrename, hkept, Fate.write]
      exact hm
    · rw [hbuilds]
      simp only [buildListFst, htmp, hrename, ne_eq, not_true_eq_false, if_false]
  · cases hother

namespace RefreshExample

/-- Lists of one domain per line; the text is its own digest. -/
def plain : ListSource Text := ⟨fun bytes => (fromLines bytes, none), id⟩

/-- No file yet. -/
def noFiles : ListSlot := ⟨none, none, none, none⟩

/-- Every write lands. -/
def allDone : ListFates := fun _ => .done

/-- The sidecar is not written. -/
def sidecarKept : ListFates := fun w => if w = .sidecar then .kept else .done

/-- A forced refresh that gets these bytes. -/
def gets (bytes : String) : ListInput Text :=
  ⟨true, false, false, .ok (.parsed bytes.toList ⟨none, none⟩)⟩

end RefreshExample

open RefreshExample in
/-- A refresh whose map does not land and one that stops before its sidecar leave nothing
that vouches for a wrong map; then the first bytes come again and their map is kept. -/
theorem sidecar_vouches_after_failures :
    ∃ slot, exec (listStep plain "1".toList "ads".toList) noFiles
        [.stopped (gets "a.com") allDone .sidecar, .refresh (gets "a.com") allDone,
          .refresh (gets "b.com") fun w => if w = .rename then .kept else .done,
          .refresh (gets "a.com") allDone] = some slot ∧
      slot.fst = some {"a.com".toList} ∧
      ∀ m map, slot.sidecar = some m → m.version = "1".toList → slot.fst = some map →
        Described plain m.digest map := by
  have hrun : ∃ slot, exec (listStep plain "1".toList "ads".toList) noFiles
        [.stopped (gets "a.com") allDone .sidecar, .refresh (gets "a.com") allDone,
          .refresh (gets "b.com") fun w => if w = .rename then .kept else .done,
          .refresh (gets "a.com") allDone] = some slot ∧ slot.fst = some {"a.com".toList} :=
    ⟨_, rfl, by decide +kernel⟩
  obtain ⟨slot, hrun, hfst⟩ := hrun
  have hg : Guarded (listStep plain "1".toList "ads".toList) (NoneLost plain "1".toList) noFiles
      [.stopped (gets "a.com") allDone .sidecar, .refresh (gets "a.com") allDone,
        .refresh (gets "b.com") fun w => if w = .rename then .kept else .done,
        .refresh (gets "a.com") allDone] := by decide +kernel
  exact ⟨slot, hrun, hfst,
    (sidecar_vouches_of_none_lost plain "1".toList "ads".toList noFiles slot _ rfl hg hrun).1⟩

open RefreshExample in
/-- **A lost sidecar**: the map of the second bytes lands, its sidecar does not, and the one
of the first bytes vouches for it; when the first bytes come again, the map of the second is
kept as unchanged. -/
theorem lost_sidecar_keeps_other_map :
    ∃ slot m, exec (listStep plain "1".toList "ads".toList) noFiles
        [.refresh (gets "a.com") allDone, .refresh (gets "b.com") sidecarKept] = some slot ∧
      slot.sidecar = some m ∧ m.version = "1".toList ∧ m.digest = "a.com".toList ∧
      slot.fst = some {"b.com".toList} ∧ ¬ Described plain m.digest {"b.com".toList} ∧
      SaysUnchanged plain "1".toList slot (gets "a.com") ∧
      (loadOrBuildListFst plain "1".toList "ads".toList (gets "a.com") allDone slot).1.fst =
        some {"b.com".toList} := by
  let m : ListMeta := ⟨"1".toList, "a.com".toList, ⟨none, none⟩⟩
  refine ⟨_, m, rfl, by decide +kernel, rfl, rfl, by decide +kernel, ?_,
    ⟨by decide +kernel, m, by decide +kernel, rfl⟩, by decide +kernel⟩
  rintro ⟨bytes, hdigest, hmap⟩
  have hbytes : bytes = "a.com".toList := hdigest
  rw [hbytes] at hmap
  revert hmap
  decide +kernel

end Ferrite.Blocklist
