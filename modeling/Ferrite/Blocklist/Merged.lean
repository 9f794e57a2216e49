import Ferrite.Blocklist.CacheFiles
import Ferrite.Blocklist.Refresh
import Mathlib.Data.List.Dedup
import Mathlib.Data.List.Sort
import Mathlib.Data.Finset.Lattice.Basic

/-!
# Merging the lists

`refresh_list_set` of `blocklist/src/subscriptions.rs` refreshes every enabled list and
merges their maps into one file; `build_profile_fst` of `blocklist/src/profiles.rs` does
the same for the lists of a profile.  Beside each merged file is a sidecar with the
fingerprints of the lists that went in, and a merge is skipped when they are those of the
lists as they are now.

The fingerprints are collected before the merge, the merge passes over a map that does not
open, and file and sidecar are replaced one after the other.

* `UnionOf`, `DirInv` — the invariant: a merged file with a sidecar is the union of the maps
  of the bytes the sidecar names;
* `refreshListSet_inv`, `buildProfileFst_inv` — what one refresh or compile does to it;
* `currentUnion_of_fingerprint` — then a sidecar that matches means the union of the lists
  as they are now;
* `skipped_merge_is_union` — over every run in which every map opens and no sidecar is lost.
-/

namespace Ferrite.Blocklist

open Lts

/-! ## The directory -/

/-- `FstInputs`: the sanitised names of the lists, each with its digest. -/
abbrev FstInputs := List (Text × Text)

/-- A merged map on disk, and the sidecar beside it. -/
structure MergedFile where
  fst : Option FstMap
  inputs : Option FstInputs
deriving DecidableEq

/-- The cache directory of one polarity: the files of each list and of each profile, by
sanitised name, and the merged map. -/
structure CacheDir where
  lists : Text → ListSlot
  merged : MergedFile
  profiles : Text → MergedFile

/-- Tuples of strings are sorted by the first, then by the second. -/
def inputLe (a b : Text × Text) : Prop := a.1 < b.1 ∨ a.1 = b.1 ∧ ¬ b.2 < a.2

instance : DecidableRel inputLe := fun a b =>
  inferInstanceAs (Decidable (a.1 < b.1 ∨ a.1 = b.1 ∧ ¬ b.2 < a.2))

/-- `merge_fsts`: the union. -/
def mergeFsts (maps : List FstMap) : FstMap := maps.foldr (· ∪ ·) ∅

/-- The writes of a merge: the new file and its rename, then the sidecar is written, or
removed when nothing is known about what went in. -/
inductive MergeWrite where
  | tmp
  | rename
  | sidecar
  | drop
deriving DecidableEq, Repr

/-- How each write of a merge ends. -/
abbrev MergeFates := MergeWrite → Fate

/-- The sidecar after a merge whose file has landed. -/
def recordInputs (fates : MergeFates) (inputs old : Option FstInputs) : Option FstInputs :=
  match inputs with
  | some i => (fates .sidecar).write (some i) old
  | none => (fates .drop).replace none old

/-! ## Refreshing the lists of a polarity -/

/-- How the writes of a whole refresh end, and which maps open for its merge. -/
structure RefreshFates where
  list : Text → ListFates
  merge : MergeFates
  opens : Text → Bool

/-- Where the process stops: never, while the lists are being refreshed (each at its own
write, or done), or before a write of the merge. -/
inductive Stop where
  | never
  | lists (at_ : Text → Option ListWrite)
  | merge (before : MergeWrite)

/-- The place of a write in the order; of the last two only one is made. -/
def MergeWrite.index : MergeWrite → ℕ
  | .tmp => 0
  | .rename => 1
  | .sidecar => 2
  | .drop => 2

/-- What does not happen after the stop is as what fails. -/
def RefreshFates.stop (fates : RefreshFates) : Stop → RefreshFates
  | .never => fates
  | .lists at_ =>
    { fates with
      list := fun n => (at_ n).elim (fates.list n) fun w => ListFates.stopAt (fates.list n) w
      merge := fun _ => .kept }
  | .merge before =>
    { fates with merge := fun w => if w.index < before.index then fates.merge w else .kept }

/-- `ListSetRefresh`. -/
structure ListSetRefresh where
  fst : FstMap
  counts : List (Text × ℕ)
  stats : List (Text × AdblockStats)
  uniqueCount : ℕ
  changed : Bool
  persisted : Bool

section

variable {Bytes : Type} (isAlphanumeric : Char → Bool) (src : ListSource Bytes) (version : Text)

/-- Every list is refreshed; at most two at a time, each on its own files. -/
def refreshLists (inputs : Text → ListInput Bytes) (fates : Text → ListFates) :
    List Text → CacheDir → CacheDir × List ListOutcome
  | [], dir => (dir, [])
  | n :: ns, dir =>
    let stem := sanitizeName isAlphanumeric n
    let (slot, outcome) := loadOrBuildListFst src version n (inputs n) (fates n) (dir.lists stem)
    let (dir, outcomes) :=
      refreshLists inputs fates ns { dir with lists := Function.update dir.lists stem slot }
    (dir, outcome :: outcomes)

/-- The lists that contribute something. -/
def contributing (outcomes : List ListOutcome) : List ListOutcome :=
  outcomes.filter fun o => o.name ≠ []

/-- The fingerprints of what goes into the merge; a list that cannot prove what its map holds
makes them unknown. -/
def fingerprintOf (outcomes : List ListOutcome) : Option FstInputs :=
  (outcomes.mapM fun (o : ListOutcome) => o.digest.map fun d => (sanitizeName isAlphanumeric o.name, d)).map
    (List.insertionSort inputLe)

/-- The maps that open. -/
def openedMaps (opens : Text → Bool) (dir : CacheDir) (outcomes : List ListOutcome) : List FstMap :=
  outcomes.filterMap fun o =>
    match o.fst with
    | .file => if opens o.name then (dir.lists (sanitizeName isAlphanumeric o.name)).fst else none
    | .ram map => some map

/-- The merge of `refresh_list_set`. -/
def mergeLists (fates : RefreshFates) (dir : CacheDir) (outcomes : List ListOutcome) :
    CacheDir × ListSetRefresh :=
  let map := mergeFsts (openedMaps isAlphanumeric fates.opens dir outcomes)
  let counts := outcomes.map fun o => (o.name, o.count)
  let stats := outcomes.filterMap fun o => o.stats.map fun s => (o.name, s)
  if fates.merge .tmp = .done ∧ fates.merge .rename = .done then
    ({ dir with merged := ⟨some map, recordInputs fates.merge (fingerprintOf isAlphanumeric outcomes)
        dir.merged.inputs⟩ }, ⟨map, counts, stats, map.card, true, true⟩)
  else
    -- what is on disk is not what is being served
    ({ dir with merged := ⟨dir.merged.fst, (fates.merge .drop).replace none dir.merged.inputs⟩ },
      ⟨map, counts, stats, map.card, true, false⟩)

/-- `refresh_list_set` over the enabled lists. -/
def refreshListSet (polarity : ListPolarity) (names : List Text) (inputs : Text → ListInput Bytes)
    (fates : RefreshFates) (dir : CacheDir) : CacheDir × Except Text ListSetRefresh :=
  let (dir, outcomes) := refreshLists isAlphanumeric src version inputs fates.list names dir
  let outcomes := contributing outcomes
  if names ≠ [] ∧ outcomes = [] then
    (dir, .error ("all enabled ".toList ++ polarity.noun ++
      "s failed and no cached domains are available".toList))
  else
    match (if (fingerprintOf isAlphanumeric outcomes).isSome ∧
        dir.merged.inputs = fingerprintOf isAlphanumeric outcomes then dir.merged.fst else none) with
    | some map =>
      (dir, .ok ⟨map, outcomes.map fun o => (o.name, o.count),
        outcomes.filterMap fun o => o.stats.map fun s => (o.name, s), map.card, false, true⟩)
    | none =>
      let (dir, set) := mergeLists isAlphanumeric fates dir outcomes
      (dir, .ok set)

/-! ## Compiling a profile's lists -/

/-- How the writes of a profile's merge end, and the two removals that discard it. -/
structure ProfileFates where
  merge : MergeFates
  discardFst : Fate
  discardMeta : Fate
  opens : Text → Bool

/-- The process stops before a write of the merge. -/
def ProfileFates.stop (fates : ProfileFates) : Option MergeWrite → ProfileFates
  | none => fates
  | some before =>
    { fates with
      merge := fun w => if w.index < before.index then fates.merge w else .kept
      discardFst := .kept
      discardMeta := .kept }

/-- `profile_fingerprint`: a list without a map contributes nothing. -/
def profileFingerprint (dir : CacheDir) (names : List Text) : Option FstInputs :=
  ((((names.map (sanitizeName isAlphanumeric)).filter fun safe => (dir.lists safe).fst.isSome).mapM
    fun safe => ((dir.lists safe).current version).map fun m => (safe, m.digest)).map
      (List.insertionSort inputLe)).map List.dedup

/-- `discard_profile_cache`. -/
def discardProfileCache (fates : ProfileFates) (file : MergedFile) : MergedFile :=
  ⟨fates.discardFst.replace none file.fst, fates.discardMeta.replace none file.inputs⟩

/-- `mmap_named_lists`. -/
def mmapNamedLists (opens : Text → Bool) (dir : CacheDir) (names : List Text) : List FstMap :=
  names.filterMap fun n =>
    if opens n then (dir.lists (sanitizeName isAlphanumeric n)).fst else none

/-- The map the profile's file has, if its sidecar records what the lists are now. -/
def profileMatch (id : Text) (names : List Text) (dir : CacheDir) : Option FstMap :=
  let file := dir.profiles (sanitizeName isAlphanumeric id)
  let fingerprint := profileFingerprint isAlphanumeric version dir names
  if fingerprint.isSome ∧ file.inputs = fingerprint then file.fst else none

/-- The file of a profile replaced. -/
def CacheDir.setProfile (dir : CacheDir) (id : Text) (file : MergedFile) : CacheDir :=
  { dir with profiles := Function.update dir.profiles (sanitizeName isAlphanumeric id) file }

theorem CacheDir.profiles_setProfile (dir : CacheDir) (id : Text) (file : MergedFile) (stem : Text) :
    (dir.setProfile isAlphanumeric id file).profiles stem =
      if stem = sanitizeName isAlphanumeric id then file else dir.profiles stem :=
  Function.update_apply ..

/-- `build_profile_fst`. -/
def buildProfileFst (id : Text) (names : List Text) (fates : ProfileFates) (dir : CacheDir) :
    CacheDir × Option FstMap :=
  let file := dir.profiles (sanitizeName isAlphanumeric id)
  match profileMatch isAlphanumeric version id names dir with
  | some map => (dir, some map)
  | none =>
    let maps := mmapNamedLists isAlphanumeric fates.opens dir names
    if maps.length < 2 then
      (dir.setProfile isAlphanumeric id (discardProfileCache fates file), maps.head?)
    else if fates.merge .tmp = .done ∧ fates.merge .rename = .done then
      (dir.setProfile isAlphanumeric id ⟨some (mergeFsts maps),
        recordInputs fates.merge (profileFingerprint isAlphanumeric version dir names) file.inputs⟩,
        some (mergeFsts maps))
    else
      (dir.setProfile isAlphanumeric id (discardProfileCache fates file), some (mergeFsts maps))

end

/-! ## Fingerprints -/

/-- A traversal that succeeds: what it yields is what the elements give. -/
theorem mem_of_mapM_eq_some {α β : Type} {f : α → Option β} {l : List α} {l' : List β}
    (h : l.mapM f = some l') :
    (∀ x ∈ l, ∃ y ∈ l', f x = some y) ∧ ∀ y ∈ l', ∃ x ∈ l, f x = some y := by
  induction l generalizing l' with
  | nil =>
    cases h
    exact ⟨nofun, nofun⟩
  | cons x l ih =>
    rw [List.mapM_cons] at h
    obtain ⟨y, hy, h⟩ := Option.bind_eq_some_iff.1 h
    obtain ⟨ys, hys, h⟩ := Option.bind_eq_some_iff.1 h
    cases h
    obtain ⟨hto, hfrom⟩ := ih hys
    constructor
    · intro z hz
      rcases List.mem_cons.1 hz with rfl | hz
      · exact ⟨y, List.mem_cons_self .., hy⟩
      · obtain ⟨w, hw, hfw⟩ := hto z hz
        exact ⟨w, List.mem_cons_of_mem _ hw, hfw⟩
    · intro w hw
      rcases List.mem_cons.1 hw with rfl | hw
      · exact ⟨x, List.mem_cons_self .., hy⟩
      · obtain ⟨z, hz, hfz⟩ := hfrom w hw
        exact ⟨z, List.mem_cons_of_mem _ hz, hfz⟩

theorem mem_mergeFsts {maps : List FstMap} {n : Name} : n ∈ mergeFsts maps ↔ ∃ m ∈ maps, n ∈ m := by
  induction maps with
  | nil => simp [mergeFsts]
  | cons m maps ih =>
    rw [List.exists_mem_cons_iff, ← ih]
    exact Finset.mem_union

section

variable {Bytes : Type} {isAlphanumeric : Char → Bool} {src : ListSource Bytes} {version : Text}

/-- The fingerprints of outcomes are their names and digests. -/
theorem fingerprintOf_spec {outcomes : List ListOutcome} {inputs : FstInputs}
    (h : fingerprintOf isAlphanumeric outcomes = some inputs) :
    (∀ o ∈ outcomes, ∃ d, o.digest = some d ∧ (sanitizeName isAlphanumeric o.name, d) ∈ inputs) ∧
      ∀ p ∈ inputs, ∃ o ∈ outcomes, ∃ d, o.digest = some d ∧
        p = (sanitizeName isAlphanumeric o.name, d) := by
  obtain ⟨l, hl, rfl⟩ := Option.map_eq_some_iff.1 h
  obtain ⟨hto, hfrom⟩ := mem_of_mapM_eq_some hl
  constructor
  · intro o ho
    obtain ⟨p, hp, hf⟩ := hto o ho
    obtain ⟨d, hd, rfl⟩ := Option.map_eq_some_iff.1 hf
    exact ⟨d, hd, (List.mem_insertionSort inputLe).2 hp⟩
  · intro p hp
    obtain ⟨o, ho, hf⟩ := hfrom p ((List.mem_insertionSort inputLe).1 hp)
    obtain ⟨d, hd, rfl⟩ := Option.map_eq_some_iff.1 hf
    exact ⟨o, ho, d, hd, rfl⟩

/-- The fingerprints of a profile's lists are those of the lists that have a map. -/
theorem profileFingerprint_spec {dir : CacheDir} {names : List Text} {inputs : FstInputs}
    (h : profileFingerprint isAlphanumeric version dir names = some inputs) :
    (∀ n ∈ names, (dir.lists (sanitizeName isAlphanumeric n)).fst ≠ none →
      ∃ m, (dir.lists (sanitizeName isAlphanumeric n)).current version = some m ∧
        (sanitizeName isAlphanumeric n, m.digest) ∈ inputs) ∧
    ∀ p ∈ inputs, ∃ n ∈ names, ∃ m,
      (dir.lists (sanitizeName isAlphanumeric n)).current version = some m ∧
        p = (sanitizeName isAlphanumeric n, m.digest) := by
  obtain ⟨l', hsorted, rfl⟩ := Option.map_eq_some_iff.1 h
  obtain ⟨l, hl, rfl⟩ := Option.map_eq_some_iff.1 hsorted
  obtain ⟨hto, hfrom⟩ := mem_of_mapM_eq_some hl
  constructor
  · intro n hn hfst
    have hmem : sanitizeName isAlphanumeric n ∈ (names.map (sanitizeName isAlphanumeric)).filter
        fun safe => (dir.lists safe).fst.isSome :=
      List.mem_filter.2 ⟨List.mem_map_of_mem hn, Option.isSome_iff_ne_none.2 hfst⟩
    obtain ⟨p, hp, hf⟩ := hto _ hmem
    obtain ⟨m, hm, rfl⟩ := Option.map_eq_some_iff.1 hf
    exact ⟨m, hm, List.mem_dedup.2 ((List.mem_insertionSort inputLe).2 hp)⟩
  · intro p hp
    obtain ⟨safe, hsafe, hf⟩ := hfrom p ((List.mem_insertionSort inputLe).1 (List.mem_dedup.1 hp))
    obtain ⟨n, hn, rfl⟩ := List.mem_map.1 (List.mem_filter.1 hsafe).1
    obtain ⟨m, hm, rfl⟩ := Option.map_eq_some_iff.1 hf
    exact ⟨n, hn, m, hm, rfl⟩

/-! ## The invariant -/

/-- No two bytes with the same digest parse to different domains. -/
def DigestsTell (src : ListSource Bytes) : Prop :=
  ∀ b b', src.digest b = src.digest b' → (src.parse b).1 = (src.parse b').1

theorem Described.unique (htell : DigestsTell src) {d : Text} {map map' : FstMap}
    (h : Described src d map) (h' : Described src d map') : map = map' := by
  obtain ⟨b, hb, rfl⟩ := h
  obtain ⟨b', hb', rfl⟩ := h'
  rw [htell b b' (hb.trans hb'.symm)]

/-- The map is the union of the maps of the bytes that the inputs name. -/
def UnionOf (src : ListSource Bytes) (inputs : FstInputs) (map : FstMap) : Prop :=
  ∀ n, n ∈ map ↔ ∃ p ∈ inputs, ∃ m, Described src p.2 m ∧ n ∈ m

/-- The sidecar of a merged file names what is in it. -/
def MergedFile.Told (src : ListSource Bytes) (file : MergedFile) : Prop :=
  ∀ inputs map, file.inputs = some inputs → file.fst = some map → UnionOf src inputs map

/-- **The invariant.**  Every sidecar of the directory names what is in its file. -/
structure DirInv (src : ListSource Bytes) (version : Text) (dir : CacheDir) : Prop where
  lists : ∀ stem, Vouched src version (dir.lists stem)
  merged : dir.merged.Told src
  profiles : ∀ stem, (dir.profiles stem).Told src

/-- The guard of a merge: if its file lands, then every map opens unless nothing is recorded,
and an old sidecar does not stay. -/
def MergeLands (names : List Text) (fates : MergeFates) (opens : Text → Bool) (file : MergedFile) :
    Prop :=
  fates .tmp = .done → fates .rename = .done →
    (fates .sidecar = .done → ∀ n ∈ names, opens n = true) ∧
      (file.inputs ≠ none → fates .sidecar ≠ .kept ∧ fates .drop = .done)

instance (names : List Text) (fates : MergeFates) (opens : Text → Bool) (file : MergedFile) :
    Decidable (MergeLands names fates opens file) := by
  unfold MergeLands
  infer_instance

/-- After a merge that has landed the sidecar tells, if what it records is what was merged. -/
theorem told_of_recorded {names : List Text} {fates : MergeFates} {opens : Text → Bool}
    {file : MergedFile} {map : FstMap} {inputs : Option FstInputs}
    (hg : MergeLands names fates opens file) (htmp : fates .tmp = .done)
    (hrename : fates .rename = .done)
    (hunion : ∀ i, inputs = some i → (∀ n ∈ names, opens n = true) → UnionOf src i map) :
    (MergedFile.mk (some map) (recordInputs fates inputs file.inputs)).Told src := by
  obtain ⟨hopens, hstays⟩ := hg htmp hrename
  intro i m hi hm
  cases hm
  cases inputs with
  | some j =>
    cases hfate : fates .sidecar with
    | done =>
      simp only [recordInputs, hfate, Fate.write, Option.some.injEq] at hi
      cases hi
      exact hunion _ rfl (hopens hfate)
    | kept =>
      simp only [recordInputs, hfate, Fate.write] at hi
      exact absurd hfate (hstays (by simp [hi])).1
    | torn =>
      simp only [recordInputs, hfate, Fate.write] at hi
      cases hi
  | none =>
    simp only [recordInputs, Fate.replace] at hi
    split at hi
    · cases hi
    · rename_i hkept
      exact absurd (hstays (by simp [hi])).2 hkept

/-- A sidecar that is removed, or not, over a file that stays, or not. -/
theorem told_of_removed {file : MergedFile} (h : file.Told src) (f g : Fate) :
    (MergedFile.mk (f.replace none file.fst) (g.replace none file.inputs)).Told src := by
  intro i m hi hm
  simp only [Fate.replace] at hi hm
  split at hi
  · cases hi
  split at hm
  · cases hm
  · exact h i m hi hm

/-! ## Refreshing the lists keeps it -/

/-- An outcome is under the list's name, or is skipped. -/
theorem buildListFst_name (name : Text) (domains : List Name) (stats : Option AdblockStats)
    (sidecar : Option ListMeta) (fates : ListFates) (slot : ListSlot) :
    (buildListFst name domains stats sidecar fates slot).2.name = name ∨
      (buildListFst name domains stats sidecar fates slot).2.name = [] := by
  unfold buildListFst
  split
  · exact Or.inl rfl
  split
  · exact Or.inr rfl
  cases sidecar with
  | none => exact Or.inl rfl
  | some m => exact Or.inl rfl

theorem staleFallback_name (name : Text) (sidecar : Option ListMeta) (fates : ListFates)
    (slot : ListSlot) :
    (staleFallback name sidecar fates slot).2.name = name ∨
      (staleFallback name sidecar fates slot).2.name = [] := by
  unfold staleFallback
  split
  · exact Or.inl rfl
  split
  · exact buildListFst_name ..
  · exact Or.inr rfl

theorem askUpstream_name (name : Text) (input : ListInput Bytes) (fates : ListFates) (slot : ListSlot) :
    (askUpstream src version name input fates slot).2.name = name ∨
      (askUpstream src version name input fates slot).2.name = [] := by
  unfold askUpstream
  simp only
  split
  · exact Or.inl rfl
  · split
    · exact staleFallback_name ..
    split
    · exact Or.inl rfl
    · exact buildListFst_name ..
  · exact staleFallback_name ..

theorem loadOrBuildListFst_name (name : Text) (input : ListInput Bytes) (fates : ListFates)
    (slot : ListSlot) :
    (loadOrBuildListFst src version name input fates slot).2.name = name ∨
      (loadOrBuildListFst src version name input fates slot).2.name = [] := by
  unfold loadOrBuildListFst
  simp only
  split
  · split
    · exact Or.inl rfl
    · exact askUpstream_name ..
  · split
    · exact buildListFst_name ..
    · exact askUpstream_name ..
  · exact askUpstream_name ..

/-- What an outcome of a refresh says about the directory after it. -/
def OutcomeHolds (isAlphanumeric : Char → Bool) (src : ListSource Bytes) (dir : CacheDir)
    (o : ListOutcome) : Prop :=
  ∀ d, o.digest = some d → o.fst = .file ∧
    ∃ map, (dir.lists (sanitizeName isAlphanumeric o.name)).fst = some map ∧ Described src d map

/-- All lists refreshed, each on files of its own. -/
theorem refreshLists_spec {inputs : Text → ListInput Bytes} {fates : Text → ListFates}
    {names : List Text} {dir : CacheDir}
    (hv : ∀ stem, Vouched src version (dir.lists stem))
    (hnodup : (names.map (sanitizeName isAlphanumeric)).Nodup)
    (hlands : ∀ n ∈ names,
      SidecarLands src version (inputs n) (fates n) (dir.lists (sanitizeName isAlphanumeric n))) :
    let r := refreshLists isAlphanumeric src version inputs fates names dir
    (∀ stem, Vouched src version (r.1.lists stem)) ∧ r.1.merged = dir.merged ∧
      r.1.profiles = dir.profiles ∧
      (∀ stem ∉ names.map (sanitizeName isAlphanumeric), r.1.lists stem = dir.lists stem) ∧
      ∀ o ∈ r.2, o.name ≠ [] → o.name ∈ names ∧ OutcomeHolds isAlphanumeric src r.1 o := by
  induction names generalizing dir with
  | nil => exact ⟨hv, rfl, rfl, fun _ _ => rfl, nofun⟩
  | cons n names ih =>
    rw [List.map_cons, List.nodup_cons] at hnodup
    have hone := @loadOrBuildListFst_vouched Bytes src version
      (dir.lists (sanitizeName isAlphanumeric n)) n (inputs n) (fates n) (hv _)
      (hlands n (List.mem_cons_self ..))
    have hname := @loadOrBuildListFst_name Bytes src version n (inputs n) (fates n)
      (dir.lists (sanitizeName isAlphanumeric n))
    simp only [refreshLists]
    generalize loadOrBuildListFst src version n (inputs n) (fates n)
      (dir.lists (sanitizeName isAlphanumeric n)) = one at hone hname
    obtain ⟨slot, outcome⟩ := one
    have hv' : ∀ stem, Vouched src version
        (Function.update dir.lists (sanitizeName isAlphanumeric n) slot stem) := by
      intro stem
      by_cases hstem : stem = sanitizeName isAlphanumeric n
      · rw [hstem, Function.update_self]
        exact hone.1
      · rw [Function.update_of_ne hstem]
        exact hv stem
    -- the other lists have files of their own
    have hothers : ∀ n' ∈ names, Function.update dir.lists (sanitizeName isAlphanumeric n) slot
        (sanitizeName isAlphanumeric n') = dir.lists (sanitizeName isAlphanumeric n') := by
      intro n' hn'
      refine Function.update_of_ne (fun heq => hnodup.1 ?_) ..
      rw [← heq]
      exact List.mem_map_of_mem hn'
    obtain ⟨hvr, hmerged, hprofiles, hrest, hout⟩ :=
      @ih { dir with lists := Function.update dir.lists (sanitizeName isAlphanumeric n) slot } hv'
        hnodup.2 fun n' hn' => by
          simp only [hothers n' hn']
          exact hlands n' (List.mem_cons_of_mem _ hn')
    refine ⟨hvr, hmerged, hprofiles, fun stem hstem => ?_, fun o ho hne => ?_⟩
    · rw [List.map_cons, List.mem_cons, not_or] at hstem
      rw [hrest stem hstem.2]
      exact Function.update_of_ne hstem.1 ..
    · rcases List.mem_cons.1 ho with rfl | ho
      · have hn : o.name = n := hname.resolve_right hne
        refine ⟨hn ▸ List.mem_cons_self .., fun d hd => ?_⟩
        obtain ⟨hfile, map, hmap, hdesc⟩ := hone.2 d hd
        refine ⟨hfile, map, ?_, hdesc⟩
        rw [hn, hrest _ hnodup.1]
        simpa only [Function.update_self] using hmap
      · obtain ⟨hmem, hholds⟩ := hout o ho hne
        exact ⟨List.mem_cons_of_mem _ hmem, hholds⟩

/-- If every map opens, what is merged is what the fingerprints name. -/
theorem unionOf_openedMaps (htell : DigestsTell src) {dir : CacheDir} {outcomes : List ListOutcome}
    {opens : Text → Bool} {inputs : FstInputs}
    (hholds : ∀ o ∈ outcomes, OutcomeHolds isAlphanumeric src dir o)
    (hopens : ∀ o ∈ outcomes, opens o.name = true)
    (hinputs : fingerprintOf isAlphanumeric outcomes = some inputs) :
    UnionOf src inputs (mergeFsts (openedMaps isAlphanumeric opens dir outcomes)) := by
  obtain ⟨hto, hfrom⟩ := fingerprintOf_spec hinputs
  intro n
  rw [mem_mergeFsts]
  constructor
  · rintro ⟨map, hmap, hn⟩
    obtain ⟨o, ho, hopen⟩ := List.mem_filterMap.1 hmap
    obtain ⟨d, hd, hp⟩ := hto o ho
    obtain ⟨hfile, map', hmap', hdesc⟩ := hholds o ho d hd
    simp only [hfile, hopens o ho, if_true, hmap', Option.some.injEq] at hopen
    exact ⟨_, hp, map', hdesc, hopen ▸ hn⟩
  · rintro ⟨p, hp, map, hdesc, hn⟩
    obtain ⟨o, ho, d, hd, rfl⟩ := hfrom p hp
    obtain ⟨hfile, map', hmap', hdesc'⟩ := hholds o ho d hd
    refine ⟨map, List.mem_filterMap.2 ⟨o, ho, ?_⟩, hn⟩
    simp only [hfile, hopens o ho, if_true, hmap', hdesc.unique htell hdesc']

/-- The guard of a refresh: the lists have files of their own, no list's sidecar is lost, and
the merge lands whole. -/
structure RefreshLands (isAlphanumeric : Char → Bool) (src : ListSource Bytes) (version : Text)
    (names : List Text) (inputs : Text → ListInput Bytes) (fates : RefreshFates) (dir : CacheDir) :
    Prop where
  apart : (names.map (sanitizeName isAlphanumeric)).Nodup
  lists : ∀ n ∈ names,
    SidecarLands src version (inputs n) (fates.list n) (dir.lists (sanitizeName isAlphanumeric n))
  merge : MergeLands names fates.merge fates.opens dir.merged

instance (names : List Text) (inputs : Text → ListInput Bytes) (fates : RefreshFates)
    (dir : CacheDir) : Decidable (RefreshLands isAlphanumeric src version names inputs fates dir) :=
  decidable_of_iff ((names.map (sanitizeName isAlphanumeric)).Nodup ∧
    (∀ n ∈ names, SidecarLands src version (inputs n) (fates.list n)
      (dir.lists (sanitizeName isAlphanumeric n))) ∧
    MergeLands names fates.merge fates.opens dir.merged)
    ⟨fun ⟨h₁, h₂, h₃⟩ => ⟨h₁, h₂, h₃⟩, fun ⟨h₁, h₂, h₃⟩ => ⟨h₁, h₂, h₃⟩⟩

/-- What the contributing outcomes of a refresh are. -/
theorem contributing_holds {names : List Text} {inputs : Text → ListInput Bytes}
    {fates : RefreshFates} {dir : CacheDir} (hi : DirInv src version dir)
    (hg : RefreshLands isAlphanumeric src version names inputs fates dir) :
    let r := refreshLists isAlphanumeric src version inputs fates.list names dir
    ∀ o ∈ contributing r.2, o.name ∈ names ∧ OutcomeHolds isAlphanumeric src r.1 o := by
  intro r o ho
  obtain ⟨-, -, -, -, hout⟩ := refreshLists_spec hi.lists hg.apart hg.lists
  obtain ⟨hmem, hne⟩ := List.mem_filter.1 ho
  exact hout o hmem (of_decide_eq_true hne)

/-- **A refresh keeps the invariant**, if it lands whole. -/
theorem refreshListSet_inv (htell : DigestsTell src) {polarity : ListPolarity} {names : List Text}
    {inputs : Text → ListInput Bytes} {fates : RefreshFates} {dir : CacheDir}
    (hi : DirInv src version dir)
    (hg : RefreshLands isAlphanumeric src version names inputs fates dir) :
    DirInv src version (refreshListSet isAlphanumeric src version polarity names inputs fates dir).1 := by
  have hcontrib := contributing_holds hi hg
  obtain ⟨hv, hmerged, hprofiles, -, -⟩ :=
    @refreshLists_spec Bytes isAlphanumeric src version inputs fates.list names dir hi.lists hg.apart
      hg.lists
  unfold refreshListSet
  simp only at hcontrib hv hmerged hprofiles ⊢
  generalize refreshLists isAlphanumeric src version inputs fates.list names dir = r
    at hcontrib hv hmerged hprofiles ⊢
  obtain ⟨dir', outcomes⟩ := r
  have hdir : DirInv src version dir' := ⟨hv, hmerged ▸ hi.merged, hprofiles ▸ hi.profiles⟩
  split
  · exact hdir
  split
  · exact hdir
  · unfold mergeLists
    simp only
    split
    · rename_i hdone
      refine ⟨hv, ?_, hdir.profiles⟩
      have hlands : MergeLands names fates.merge fates.opens dir'.merged := hmerged ▸ hg.merge
      refine told_of_recorded hlands hdone.1 hdone.2 fun i hinputs hopens => ?_
      exact unionOf_openedMaps htell (fun o ho => (hcontrib o ho).2)
        (fun o ho => hopens _ (hcontrib o ho).1) hinputs
    · refine ⟨hv, ?_, hdir.profiles⟩
      have h := told_of_removed hdir.merged .kept (fates.merge .drop)
      rwa [Fate.replace, if_neg (by decide)] at h

/-! ## Compiling a profile keeps it -/

/-- The map is the union of the maps the lists have now. -/
def CurrentUnion (isAlphanumeric : Char → Bool) (dir : CacheDir) (names : List Text) (map : FstMap) :
    Prop :=
  ∀ n, n ∈ map ↔ ∃ name ∈ names, ∃ m,
    (dir.lists (sanitizeName isAlphanumeric name)).fst = some m ∧ n ∈ m

/-- If every map opens, what a profile merges is the union. -/
theorem currentUnion_mmapNamedLists {dir : CacheDir} {names : List Text} {opens : Text → Bool}
    (hopens : ∀ n ∈ names, opens n = true) :
    CurrentUnion isAlphanumeric dir names (mergeFsts (mmapNamedLists isAlphanumeric opens dir names)) := by
  intro n
  rw [mem_mergeFsts]
  constructor
  · rintro ⟨map, hmap, hn⟩
    obtain ⟨name, hname, hopen⟩ := List.mem_filterMap.1 hmap
    rw [if_pos (hopens name hname)] at hopen
    exact ⟨name, hname, map, hopen, hn⟩
  · rintro ⟨name, hname, map, hmap, hn⟩
    refine ⟨map, List.mem_filterMap.2 ⟨name, hname, ?_⟩, hn⟩
    rw [if_pos (hopens name hname)]
    exact hmap

/-- Fingerprints that match name the lists as they are now. -/
theorem unionOf_iff_currentUnion (htell : DigestsTell src) {dir : CacheDir}
    (hv : ∀ stem, Vouched src version (dir.lists stem)) {names : List Text} {inputs : FstInputs}
    (hinputs : profileFingerprint isAlphanumeric version dir names = some inputs) {map : FstMap} :
    UnionOf src inputs map ↔ CurrentUnion isAlphanumeric dir names map := by
  obtain ⟨hto, hfrom⟩ := profileFingerprint_spec hinputs
  have hsame : ∀ n, (∃ p ∈ inputs, ∃ m, Described src p.2 m ∧ n ∈ m) ↔
      ∃ name ∈ names, ∃ m, (dir.lists (sanitizeName isAlphanumeric name)).fst = some m ∧ n ∈ m := by
    intro n
    constructor
    · rintro ⟨p, hp, m, hdesc, hn⟩
      obtain ⟨name, hname, side, hside, rfl⟩ := hfrom p hp
      obtain ⟨m', hm', hdesc'⟩ := hv _ side hside
      rw [hdesc.unique htell hdesc'] at hn
      exact ⟨name, hname, m', hm', hn⟩
    · rintro ⟨name, hname, m, hm, hn⟩
      obtain ⟨side, hside, hp⟩ := hto name hname (by simp [hm])
      obtain ⟨m', hm', hdesc⟩ := hv _ side hside
      cases hm.symm.trans hm'
      exact ⟨_, hp, m, hdesc, hn⟩
  exact forall_congr' fun n => iff_congr Iff.rfl (hsame n)

/-- **A compile keeps the invariant**, if it lands whole. -/
theorem buildProfileFst_inv (htell : DigestsTell src) {id : Text} {names : List Text}
    {fates : ProfileFates} {dir : CacheDir} (hi : DirInv src version dir)
    (hg : MergeLands names fates.merge fates.opens (dir.profiles (sanitizeName isAlphanumeric id))) :
    DirInv src version (buildProfileFst isAlphanumeric version id names fates dir).1 := by
  have hset : ∀ file : MergedFile, file.Told src →
      DirInv src version (dir.setProfile isAlphanumeric id file) := by
    intro file hfile
    refine ⟨hi.lists, hi.merged, fun stem => ?_⟩
    rw [CacheDir.profiles_setProfile]
    split
    · exact hfile
    · exact hi.profiles stem
  have hdiscard := hset _ (told_of_removed (hi.profiles (sanitizeName isAlphanumeric id))
    fates.discardFst fates.discardMeta)
  unfold buildProfileFst
  simp only
  split
  · exact hi
  split
  · exact hdiscard
  split
  · rename_i hdone
    refine hset _ (told_of_recorded hg hdone.1 hdone.2 fun i hinputs hopens => ?_)
    exact (unionOf_iff_currentUnion htell hi.lists hinputs).2 (currentUnion_mmapNamedLists hopens)
  · exact hdiscard

/-- What a compile serves from a sidecar match is the union of the lists as they are now. -/
theorem currentUnion_of_profileMatch (htell : DigestsTell src) {id : Text} {names : List Text}
    {dir : CacheDir} (hi : DirInv src version dir) {map : FstMap}
    (h : profileMatch isAlphanumeric version id names dir = some map) :
    CurrentUnion isAlphanumeric dir names map := by
  simp only [profileMatch, Option.ite_none_right_eq_some] at h
  obtain ⟨⟨hsome, hmatch⟩, hfst⟩ := h
  obtain ⟨inputs, hinputs⟩ := Option.isSome_iff_exists.1 hsome
  rw [hinputs] at hmatch
  exact (unionOf_iff_currentUnion htell hi.lists hinputs).1 (hi.profiles _ inputs map hmatch hfst)

/-- What a refresh keeps as unchanged is the union of the contributing lists. -/
theorem currentUnion_of_unchanged (htell : DigestsTell src) {polarity : ListPolarity}
    {names : List Text} {inputs : Text → ListInput Bytes} {fates : RefreshFates} {dir : CacheDir}
    (hi : DirInv src version dir)
    (hg : RefreshLands isAlphanumeric src version names inputs fates dir) {set : ListSetRefresh}
    (hset : (refreshListSet isAlphanumeric src version polarity names inputs fates dir).2 = .ok set)
    (hsame : set.changed = false) :
    CurrentUnion isAlphanumeric
      (refreshListSet isAlphanumeric src version polarity names inputs fates dir).1
      ((contributing (refreshLists isAlphanumeric src version inputs fates.list names dir).2).map
        ListOutcome.name) set.fst := by
  have hcontrib := contributing_holds hi hg
  obtain ⟨-, hmerged, -, -, -⟩ :=
    @refreshLists_spec Bytes isAlphanumeric src version inputs fates.list names dir hi.lists hg.apart
      hg.lists
  unfold refreshListSet at hset ⊢
  simp only at hcontrib hmerged hset ⊢
  generalize refreshLists isAlphanumeric src version inputs fates.list names dir = r
    at hcontrib hmerged hset ⊢
  obtain ⟨dir', outcomes⟩ := r
  simp only at hcontrib hmerged hset ⊢
  split at hset
  · cases hset
  rename_i hskip
  split at hset
  · rename_i map hmap
    rw [if_neg hskip]
    cases hset
    simp only [Option.ite_none_right_eq_some] at hmap
    obtain ⟨⟨hsome, hmatch⟩, hfst⟩ := hmap
    obtain ⟨i, hinputs⟩ := Option.isSome_iff_exists.1 hsome
    obtain ⟨hto, hfrom⟩ := fingerprintOf_spec hinputs
    have hunion : UnionOf src i map := hi.merged i map (by rw [← hmerged, hmatch, hinputs])
      (by rw [← hmerged, hfst])
    intro n
    rw [hunion n]
    constructor
    · rintro ⟨p, hp, m, hdesc, hn⟩
      obtain ⟨o, ho, d, hd, rfl⟩ := hfrom p hp
      obtain ⟨-, m', hm', hdesc'⟩ := (hcontrib o ho).2 d hd
      rw [hdesc.unique htell hdesc'] at hn
      exact ⟨o.name, List.mem_map_of_mem ho, m', hm', hn⟩
    · rintro ⟨name, hname, m, hm, hn⟩
      obtain ⟨o, ho, rfl⟩ := List.mem_map.1 hname
      obtain ⟨d, hd, hp⟩ := hto o ho
      obtain ⟨-, m', hm', hdesc⟩ := (hcontrib o ho).2 d hd
      cases hm.symm.trans hm'
      exact ⟨_, hp, m, hdesc, hn⟩
  · cases hset
    unfold mergeLists at hsame
    simp only at hsame
    split at hsame
    · cases hsame
    · cases hsame

end

/-! ## Whole runs -/

/-- A refresh of the lists or a compile of a profile, to its end or to a stop. -/
inductive DirAction (Bytes : Type) where
  | refresh (names : List Text) (inputs : Text → ListInput Bytes) (fates : RefreshFates) (stop : Stop)
  | profile (id : Text) (names : List Text) (fates : ProfileFates) (stop : Option MergeWrite)

section

variable {Bytes : Type} (isAlphanumeric : Char → Bool) (src : ListSource Bytes) (version : Text)

/-- One action on the directory. -/
def dirStep (polarity : ListPolarity) (dir : CacheDir) : DirAction Bytes → Option CacheDir
  | .refresh names inputs fates stop =>
    some (refreshListSet isAlphanumeric src version polarity names inputs (fates.stop stop) dir).1
  | .profile id names fates stop =>
    some (buildProfileFst isAlphanumeric version id names (fates.stop stop) dir).1

/-- The guard: what the action does lands whole. -/
def LandsWhole (dir : CacheDir) : DirAction Bytes → Prop
  | .refresh names inputs fates stop =>
    RefreshLands isAlphanumeric src version names inputs (fates.stop stop) dir
  | .profile id names fates stop =>
    MergeLands names (fates.stop stop).merge (fates.stop stop).opens
      (dir.profiles (sanitizeName isAlphanumeric id))

instance (dir : CacheDir) (a : DirAction Bytes) :
    Decidable (LandsWhole isAlphanumeric src version dir a) :=
  match a with
  | .refresh .. => inferInstanceAs (Decidable (RefreshLands ..))
  | .profile .. => inferInstanceAs (Decidable (MergeLands ..))

/-- No sidecar of this version in the directory, and none beside a merged file. -/
structure NoSidecars (dir : CacheDir) : Prop where
  lists : ∀ stem, (dir.lists stem).current version = none
  merged : dir.merged.inputs = none
  profiles : ∀ stem, (dir.profiles stem).inputs = none

variable {isAlphanumeric src version}

theorem dirInv_of_noSidecars {dir : CacheDir} (h : NoSidecars version dir) : DirInv src version dir where
  lists := by
    intro stem m hm
    rw [h.lists stem] at hm
    cases hm
  merged := by
    intro i m hi
    rw [h.merged] at hi
    cases hi
  profiles := by
    intro stem i m hi
    rw [h.profiles stem] at hi
    cases hi

/-- Every action that lands whole keeps the invariant. -/
theorem dirStep_inv (htell : DigestsTell src) {polarity : ListPolarity} {dir dir' : CacheDir}
    {a : DirAction Bytes} (hg : LandsWhole isAlphanumeric src version dir a)
    (hi : DirInv src version dir) (h : dirStep isAlphanumeric src version polarity dir a = some dir') :
    DirInv src version dir' := by
  cases a with
  | refresh names inputs fates stop =>
    rw [← Option.some.inj h]
    exact refreshListSet_inv htell hi hg
  | profile id names fates stop =>
    rw [← Option.some.inj h]
    exact buildProfileFst_inv htell hi hg

end

/-- **Skipping a merge never serves a stale union.**  Over every run of refreshes and profile
compiles, with any writes failing, any maps not opening and the process stopping anywhere, as
long as what each of them does lands whole: a merged file, or a profile's, whose sidecar
records the fingerprints that some lists have now is the union of the maps these lists have
now.  So what a refresh keeps as unchanged, and what a compile serves from a match, is that
union. -/
theorem skipped_merge_is_union {Bytes : Type} (isAlphanumeric : Char → Bool) (src : ListSource Bytes)
    (version : Text) (polarity : ListPolarity) (htell : DigestsTell src) (dir dir' : CacheDir)
    (as : List (DirAction Bytes)) (hstart : NoSidecars version dir)
    (hg : Guarded (dirStep isAlphanumeric src version polarity) (LandsWhole isAlphanumeric src version)
      dir as)
    (hrun : exec (dirStep isAlphanumeric src version polarity) dir as = some dir') :
    (∀ names inputs map, profileFingerprint isAlphanumeric version dir' names = some inputs →
      dir'.merged.inputs = some inputs → dir'.merged.fst = some map →
      CurrentUnion isAlphanumeric dir' names map) ∧
    (∀ id names map, profileMatch isAlphanumeric version id names dir' = some map →
      CurrentUnion isAlphanumeric dir' names map) ∧
    ∀ names inputs fates set, RefreshLands isAlphanumeric src version names inputs fates dir' →
      (refreshListSet isAlphanumeric src version polarity names inputs fates dir').2 = .ok set →
      set.changed = false →
      CurrentUnion isAlphanumeric
        (refreshListSet isAlphanumeric src version polarity names inputs fates dir').1
        ((contributing (refreshLists isAlphanumeric src version inputs fates.list names dir').2).map
          ListOutcome.name) set.fst := by
  have hi : DirInv src version dir' :=
    inv_of_exec _ (fun _ _ _ hg hi h => dirStep_inv htell hg hi h) (dirInv_of_noSidecars hstart) hg hrun
  refine ⟨fun names inputs map hinputs hside hfst => ?_,
    fun id names map hmatch => currentUnion_of_profileMatch htell hi hmatch,
    fun names inputs fates set hlands hset hsame => currentUnion_of_unchanged htell hi hlands hset hsame⟩
  exact (unionOf_iff_currentUnion htell hi.lists hinputs).1 (hi.merged inputs map hside hfst)

namespace MergedExample

open RefreshExample

/-- The first list. -/
def a : Text := "a".toList

/-- The second list. -/
def b : Text := "b".toList

/-- Each is sent one domain. -/
def sends (n : Text) : ListInput Text :=
  ⟨true, false, false, .ok (.parsed (n ++ ".com".toList) ⟨none, none⟩)⟩

/-- No file yet. -/
def emptyDir : CacheDir := ⟨fun _ => noFiles, ⟨none, none⟩, fun _ => ⟨none, none⟩⟩

/-- Everything lands and opens. -/
def allLand : RefreshFates := ⟨fun _ => allDone, fun _ => .done, fun _ => true⟩

/-- The sidecar of the merge is not written. -/
def mergeSidecarKept : RefreshFates :=
  { allLand with merge := fun w => if w = .sidecar then .kept else .done }

/-- The map of the second list does not open for the merge. -/
def secondDoesNotOpen : RefreshFates := { allLand with opens := fun n => n ≠ b }

/-- The directory after a run. -/
abbrev run := exec (dirStep Char.isAlphanum plain "1".toList .block) emptyDir

/-- The first merge stops before its rename, the second lands, a profile is compiled. -/
def landing : List (DirAction Text) :=
  [.refresh [a, b] sends allLand (.merge .rename), .refresh [a, b] sends allLand .never,
    .profile "kids".toList [b, a] ⟨fun _ => .done, .done, .done, fun _ => true⟩ none]

/-- What the sidecar of a merge of both records. -/
def both : FstInputs := [(a, "a.com".toList), (b, "b.com".toList)]

/-- After the run the merged sidecar records what both lists are now, the merged file has the
one list only, and the next refresh of both keeps it as unchanged. -/
def StaleAfter (as : List (DirAction Text)) : Prop :=
  ∃ dir set, run as = some dir ∧
    profileFingerprint Char.isAlphanum "1".toList dir [a, b] = some both ∧
    dir.merged.inputs = some both ∧ dir.merged.fst = some {"a.com".toList} ∧
    (refreshListSet Char.isAlphanum plain "1".toList .block [a, b] sends allLand dir).2 = .ok set ∧
    set.changed = false ∧ set.fst = {"a.com".toList} ∧
    ¬ CurrentUnion Char.isAlphanum dir [a, b] {"a.com".toList}

end MergedExample

open MergedExample RefreshExample in
/-- A merge that stops and one that lands: the merged file is the union of both lists, and so
is what the profile serves. -/
theorem skipped_merge_is_union_after_stop :
    ∃ dir, run landing = some dir ∧
      profileFingerprint Char.isAlphanum "1".toList dir [a, b] = some both ∧
      dir.merged.inputs = some both ∧ dir.merged.fst = some {"a.com".toList, "b.com".toList} ∧
      CurrentUnion Char.isAlphanum dir [a, b] {"a.com".toList, "b.com".toList} := by
  have hrun : ∃ dir, run landing = some dir ∧
      profileFingerprint Char.isAlphanum "1".toList dir [a, b] = some both ∧
      dir.merged.inputs = some both ∧ dir.merged.fst = some {"a.com".toList, "b.com".toList} :=
    ⟨_, rfl, by decide +kernel, by decide +kernel, by decide +kernel⟩
  obtain ⟨dir, hrun, hnow, hinputs, hfst⟩ := hrun
  have hg : Guarded (dirStep Char.isAlphanum plain "1".toList .block)
      (LandsWhole Char.isAlphanum plain "1".toList) emptyDir landing := by decide +kernel
  have htell : DigestsTell plain := fun b b' h => congrArg (fun t => (plain.parse t).1) h
  have hstart : NoSidecars "1".toList emptyDir := ⟨fun _ => rfl, rfl, fun _ => rfl⟩
  exact ⟨dir, hrun, hnow, hinputs, hfst,
    (skipped_merge_is_union Char.isAlphanum plain "1".toList .block htell emptyDir dir landing hstart hg
      hrun).1 [a, b] both _ hnow hinputs hfst⟩

open MergedExample RefreshExample in
/-- **A stale union is served**: the second list is left out and the merge without it lands,
but the sidecar that names both stays; when the list is back, its fingerprint matches and the
merge is skipped.  The same happens when a map does not open for a merge. -/
theorem stale_union_served :
    StaleAfter [.refresh [a, b] sends allLand .never, .refresh [a] sends mergeSidecarKept .never] ∧
      StaleAfter [.refresh [a, b] sends secondDoesNotOpen .never] := by
  have hnot : ∀ dir, (dir.lists b).fst = some {"b.com".toList} →
      ¬ CurrentUnion Char.isAlphanum dir [a, b] {"a.com".toList} := by
    intro dir hb hunion
    have hmem := (hunion "b.com".toList).2 ⟨b, by decide, _, hb, Finset.mem_singleton_self _⟩
    revert hmem
    decide
  constructor
  · refine ⟨_, _, rfl, by decide +kernel, by decide +kernel, by decide +kernel, rfl, rfl,
      by decide +kernel, hnot _ (by decide +kernel)⟩
  · refine ⟨_, _, rfl, by decide +kernel, by decide +kernel, by decide +kernel, rfl, rfl,
      by decide +kernel, hnot _ (by decide +kernel)⟩

end Ferrite.Blocklist
