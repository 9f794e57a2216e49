import Ferrite.Blocklist.Merged
import Ferrite.Blocklist.Profiles

/-!
# Which map a profile serves

`profile_map` of `blocklist/src/profiles.rs`: a profile gets the merged map itself if the
lists it names are those that are enabled, otherwise a map of its own, and at startup the
one the last run left if nothing better can be confirmed.  The merged map was built from the
lists enabled at the last refresh; whether it may stand in is judged by those enabled now.

* `ServesItsLists` — what a compiled profile that is no stand-in should serve;
* `profileMap_spec` — it does, if where the merged map is handed out its sidecar records
  what the profile's lists are now;
* `profiles_serve_their_lists` — over every run of list edits, refreshes, compiles and
  restarts;
* `disabled_list_still_served` — and what happens otherwise.

The allowlists a profile names go through the same functions with the other directory.
-/

namespace Ferrite.Blocklist

open Lts

section

variable {Bytes : Type} (isAlphanumeric : Char → Bool) (src : ListSource Bytes) (version : Text)

/-! ## The map of a profile -/

/-- `MergedSet`: the sanitised names of the enabled lists. -/
abbrev MergedSet := Finset Text

/-- `enabled_list_names`. -/
def enabledListNames (lists : List ListConfig) : MergedSet :=
  ((lists.filter ListConfig.enabled).map fun l => sanitizeName isAlphanumeric l.name).toFinset

/-- `MergedSet::covers`. -/
def MergedSet.covers (merged : MergedSet) (names : List Text) : Bool :=
  decide ((names.map (sanitizeName isAlphanumeric)).toFinset = merged)

/-- `reuse_merged`, as far as it finds a map. -/
def reusable (merged : Option MergedSet) (names : List Text) (dir : CacheDir) : Option FstMap :=
  if merged.any fun m => MergedSet.covers isAlphanumeric m names then dir.merged.fst else none

/-- `profile_cache_current`. -/
def profileCacheCurrent (id : Text) (names : List Text) (dir : CacheDir) : Bool :=
  let fingerprint := profileFingerprint isAlphanumeric version dir names
  fingerprint.isSome &&
    decide ((dir.profiles (sanitizeName isAlphanumeric id)).inputs = fingerprint)

/-- `profile_map`: the map, and whether it is a stand-in. -/
def profileMap (merged : Option MergedSet) (id : Text) (names : List Text) (staleOk : Bool)
    (fates : ProfileFates) (dir : CacheDir) : CacheDir × FstMap × Bool :=
  match reusable isAlphanumeric merged names dir with
  | some map =>
    -- what the profile compiled to before is dead weight
    (dir.setProfile isAlphanumeric id
      (discardProfileCache fates (dir.profiles (sanitizeName isAlphanumeric id))), map, false)
  | none =>
    match (if staleOk && !profileCacheCurrent isAlphanumeric version id names dir then
        (dir.profiles (sanitizeName isAlphanumeric id)).fst else none) with
    | some map => (dir, map, true)
    | none =>
      let (dir, map) := buildProfileFst isAlphanumeric version id names fates dir
      (dir, map.getD ∅, false)

/-! ## The engine's lists and profiles -/

/-- A compiled profile, as far as its lists go.  `disk` is the directory at the time: nothing
in the engine keeps it. -/
structure CompiledMap where
  id : Text
  names : List Text
  fst : FstMap
  standIn : Bool
  disk : CacheDir

/-- The directory, the configured lists, whether the served map is the merged file, and the
compiled profiles. -/
structure ListsState where
  dir : CacheDir
  lists : List ListConfig
  mergedOnDisk : Bool
  compiled : List CompiledMap

/-- `Subscriptions::merged_set`. -/
def ListsState.mergedSet (s : ListsState) : Option MergedSet :=
  if s.mergedOnDisk then some (enabledListNames isAlphanumeric s.lists) else none

/-- A profile to compile, and how the writes of its compile end. -/
abbrev ProfileJob := ProfileConfig × ProfileFates

/-- `compile_profiles`, one profile after the other. -/
def compileMaps (merged : Option MergedSet) (staleOk : Bool) :
    List ProfileJob → CacheDir → CacheDir × List CompiledMap
  | [], dir => (dir, [])
  | (cfg, fates) :: jobs, dir =>
    let (dir', map, standIn) :=
      profileMap isAlphanumeric version merged cfg.id cfg.lists staleOk fates dir
    let (dir'', compiled) := compileMaps merged staleOk jobs dir'
    (dir'', ⟨cfg.id, cfg.lists, map, standIn, dir⟩ :: compiled)

/-- What happens to the lists and the profiles.  A refresh is followed by a compile of the
current profiles, `set_profiles` is a compile of the new ones, and `load_from_disk` is the
start of a process, with the lists as configured then, and a compile that may leave profiles
on the last run's maps. -/
inductive ListsAction (Bytes : Type) where
  | add (cfg : ListConfig)
  | remove (name : Text)
  | setEnabled (name : Text) (enabled : Bool)
  | refresh (inputs : Text → ListInput Bytes) (fates : RefreshFates)
  | compile (jobs : List ProfileJob) (staleOk : Bool)
  | restart (lists : List ListConfig)

/-- `Subscriptions::set_enabled`: the first list of the name. -/
def setListEnabled (name : Text) (enabled : Bool) : List ListConfig → List ListConfig
  | [] => []
  | l :: ls => if l.name = name then { l with enabled := enabled } :: ls
    else l :: setListEnabled name enabled ls

/-- One action; a name that is taken is refused. -/
def listsStep (s : ListsState) : ListsAction Bytes → Option ListsState
  | .add cfg =>
    match addList .block s.lists cfg with
    | .ok lists => some { s with lists := lists }
    | .error _ => some s
  | .remove name => some { s with lists := s.lists.filter fun l => l.name ≠ name }
  | .setEnabled name enabled => some { s with lists := setListEnabled name enabled s.lists }
  | .refresh inputs fates =>
    let names := (s.lists.filter ListConfig.enabled).map ListConfig.name
    match refreshListSet isAlphanumeric src version .block names inputs fates s.dir with
    | (dir, .ok set) => some { s with dir := dir, mergedOnDisk := set.persisted }
    | (dir, .error _) => some { s with dir := dir }
  | .compile jobs staleOk =>
    let (dir, compiled) :=
      compileMaps isAlphanumeric version (s.mergedSet isAlphanumeric) staleOk jobs s.dir
    some { s with dir := dir, compiled := compiled }
  | .restart lists => some ⟨s.dir, lists, s.dir.merged.fst.isSome, []⟩

/-! ## What a profile should serve -/

/-- A compiled profile that is no stand-in serves the union of the maps that the lists it
names had on disk when it was compiled. -/
def ServesItsLists (c : CompiledMap) : Prop :=
  c.standIn = false → CurrentUnion isAlphanumeric c.disk c.names c.fst

/-- The guard of one profile: where the merged map is handed out, its sidecar records what
the profile's lists are now; otherwise every map opens, and what is written lands whole. -/
def ProfileLands (merged : Option MergedSet) (cfg : ProfileConfig) (fates : ProfileFates)
    (dir : CacheDir) : Prop :=
  if (reusable isAlphanumeric merged cfg.lists dir).isSome then
    (profileFingerprint isAlphanumeric version dir cfg.lists).isSome ∧
      dir.merged.inputs = profileFingerprint isAlphanumeric version dir cfg.lists
  else
    (∀ n ∈ cfg.lists, fates.opens n = true) ∧
      MergeLands cfg.lists fates.merge fates.opens (dir.profiles (sanitizeName isAlphanumeric cfg.id))

instance (merged : Option MergedSet) (cfg : ProfileConfig) (fates : ProfileFates) (dir : CacheDir) :
    Decidable (ProfileLands isAlphanumeric version merged cfg fates dir) := by
  unfold ProfileLands
  infer_instance

/-- The guard of a compile: that of each profile in its turn. -/
def CompileLands (merged : Option MergedSet) (staleOk : Bool) : List ProfileJob → CacheDir → Prop
  | [], _ => True
  | (cfg, fates) :: jobs, dir =>
    ProfileLands isAlphanumeric version merged cfg fates dir ∧
      CompileLands merged staleOk jobs
        (profileMap isAlphanumeric version merged cfg.id cfg.lists staleOk fates dir).1

instance CompileLands.decidable (merged : Option MergedSet) (staleOk : Bool) :
    ∀ (jobs : List ProfileJob) (dir : CacheDir),
      Decidable (CompileLands isAlphanumeric version merged staleOk jobs dir)
  | [], _ => isTrue trivial
  | (cfg, fates) :: jobs, dir =>
    have := CompileLands.decidable merged staleOk jobs
      (profileMap isAlphanumeric version merged cfg.id cfg.lists staleOk fates dir).1
    inferInstanceAs (Decidable (_ ∧ _))

/-- The guard of an action. -/
def ListsLand (s : ListsState) : ListsAction Bytes → Prop
  | .refresh inputs fates =>
    RefreshLands isAlphanumeric src version
      ((s.lists.filter ListConfig.enabled).map ListConfig.name) inputs fates s.dir
  | .compile jobs staleOk =>
    CompileLands isAlphanumeric version (s.mergedSet isAlphanumeric) staleOk jobs s.dir
  | .add _ | .remove _ | .setEnabled .. | .restart _ => True

instance (s : ListsState) (a : ListsAction Bytes) :
    Decidable (ListsLand isAlphanumeric src version s a) :=
  match a with
  | .refresh .. => inferInstanceAs (Decidable (RefreshLands ..))
  | .compile .. => inferInstanceAs (Decidable (CompileLands ..))
  | .add _ | .remove _ | .setEnabled .. | .restart _ => isTrue trivial

end

/-! ## One profile -/

section

variable {Bytes : Type} {isAlphanumeric : Char → Bool} {src : ListSource Bytes} {version : Text}

/-- What a build hands out, sidecar match or merge, is the union. -/
theorem buildProfileFst_union (htell : DigestsTell src) {id : Text} {names : List Text}
    {fates : ProfileFates} {dir : CacheDir} (hi : DirInv src version dir)
    (hopens : ∀ n ∈ names, fates.opens n = true) :
    CurrentUnion isAlphanumeric dir names
      ((buildProfileFst isAlphanumeric version id names fates dir).2.getD ∅) := by
  have hmerged := @currentUnion_mmapNamedLists isAlphanumeric dir names fates.opens hopens
  unfold buildProfileFst
  simp only
  split
  · rename_i map hmatch
    exact currentUnion_of_profileMatch htell hi hmatch
  split
  · -- no map, or the one there is
    rename_i hfew
    generalize mmapNamedLists isAlphanumeric fates.opens dir names = maps at hmerged hfew ⊢
    cases maps with
    | nil => exact hmerged
    | cons map maps =>
      have hnone : maps = [] := List.length_eq_zero_iff.1 (by rw [List.length_cons] at hfew; omega)
      simpa [hnone, mergeFsts] using hmerged
  split
  · exact hmerged
  · exact hmerged

/-- **One profile**: it keeps the invariant, and unless it is flagged as a stand-in the map is
the union of the lists it names. -/
theorem profileMap_spec (htell : DigestsTell src) {merged : Option MergedSet} {cfg : ProfileConfig}
    {staleOk : Bool} {fates : ProfileFates} {dir : CacheDir} (hi : DirInv src version dir)
    (hg : ProfileLands isAlphanumeric version merged cfg fates dir) :
    let r := profileMap isAlphanumeric version merged cfg.id cfg.lists staleOk fates dir
    DirInv src version r.1 ∧
      (r.2.2 = false → CurrentUnion isAlphanumeric dir cfg.lists r.2.1) := by
  simp only [profileMap]
  split
  · rename_i map hreuse
    rw [ProfileLands, hreuse, Option.isSome_some, if_pos rfl] at hg
    obtain ⟨hsome, hsame⟩ := hg
    obtain ⟨inputs, hinputs⟩ := Option.isSome_iff_exists.1 hsome
    have hfst : dir.merged.fst = some map := by
      rw [reusable] at hreuse
      split at hreuse
      · exact hreuse
      · cases hreuse
    refine ⟨⟨hi.lists, hi.merged, fun stem => ?_⟩, fun _ => ?_⟩
    · rw [CacheDir.profiles_setProfile]
      split
      · exact told_of_removed (hi.profiles _) _ _
      · exact hi.profiles stem
    · exact (unionOf_iff_currentUnion htell hi.lists hinputs).1
        (hi.merged inputs map (hsame.trans hinputs) hfst)
  · rename_i hreuse
    rw [ProfileLands, hreuse, Option.isSome_none, if_neg Bool.false_ne_true] at hg
    split
    · exact ⟨hi, nofun⟩
    · exact ⟨buildProfileFst_inv htell hi hg.2, fun _ => buildProfileFst_union htell hi hg.1⟩

/-- A whole compile. -/
theorem compileMaps_spec (htell : DigestsTell src) {merged : Option MergedSet} {staleOk : Bool}
    {jobs : List ProfileJob} {dir : CacheDir} (hi : DirInv src version dir)
    (hg : CompileLands isAlphanumeric version merged staleOk jobs dir) :
    let r := compileMaps isAlphanumeric version merged staleOk jobs dir
    DirInv src version r.1 ∧ ∀ c ∈ r.2, ServesItsLists isAlphanumeric c := by
  induction jobs generalizing dir with
  | nil => exact ⟨hi, nofun⟩
  | cons job jobs ih =>
    obtain ⟨cfg, fates⟩ := job
    obtain ⟨hone, hrest⟩ := hg
    have hspec := @profileMap_spec Bytes isAlphanumeric src version htell merged cfg staleOk fates dir
      hi hone
    obtain ⟨hdir, hserves⟩ := hspec
    obtain ⟨hend, hall⟩ := ih hdir hrest
    refine ⟨hend, fun c hc => ?_⟩
    rcases List.mem_cons.1 hc with rfl | hc
    · exact hserves
    · exact hall c hc

/-! ## Whole runs -/

/-- **The invariant.**  The directory is in order and every compiled profile serves its lists. -/
structure ListsInv (isAlphanumeric : Char → Bool) (src : ListSource Bytes) (version : Text)
    (s : ListsState) : Prop where
  dir : DirInv src version s.dir
  compiled : ∀ c ∈ s.compiled, ServesItsLists isAlphanumeric c

theorem listsStep_inv (htell : DigestsTell src) {s s' : ListsState} {a : ListsAction Bytes}
    (hg : ListsLand isAlphanumeric src version s a) (hi : ListsInv isAlphanumeric src version s)
    (h : listsStep isAlphanumeric src version s a = some s') :
    ListsInv isAlphanumeric src version s' := by
  cases a with
  | add cfg =>
    simp only [listsStep] at h
    split at h
    · cases h
      exact ⟨hi.dir, hi.compiled⟩
    · cases h
      exact hi
  | remove name =>
    cases h
    exact ⟨hi.dir, hi.compiled⟩
  | setEnabled name enabled =>
    cases h
    exact ⟨hi.dir, hi.compiled⟩
  | refresh inputs fates =>
    have hdir := @refreshListSet_inv Bytes isAlphanumeric src version htell .block
      ((s.lists.filter ListConfig.enabled).map ListConfig.name) inputs fates s.dir hi.dir hg
    simp only [listsStep] at h
    split at h
    · rename_i dir set hset
      cases h
      rw [hset] at hdir
      exact ⟨hdir, hi.compiled⟩
    · rename_i dir e hset
      cases h
      rw [hset] at hdir
      exact ⟨hdir, hi.compiled⟩
  | compile jobs staleOk =>
    obtain ⟨hdir, hall⟩ := compileMaps_spec htell hi.dir hg
    cases h
    exact ⟨hdir, hall⟩
  | restart lists =>
    cases h
    exact ⟨hi.dir, nofun⟩

end

/-- **A profile filters by exactly the lists it names.**  In every state reached by list
edits, refreshes, compiles and restarts, the lists possibly edited between runs, as long as
what the refreshes do lands whole and the merged map is handed out only while its sidecar
records what the profile's lists are: every compiled profile that is not flagged as a
stand-in serves the union of the maps its lists had on disk when it was compiled. -/
theorem profiles_serve_their_lists {Bytes : Type} (isAlphanumeric : Char → Bool)
    (src : ListSource Bytes) (version : Text) (htell : DigestsTell src) (dir : CacheDir)
    (lists : List ListConfig) (as : List (ListsAction Bytes)) (s : ListsState)
    (hstart : NoSidecars version dir)
    (hg : Guarded (listsStep isAlphanumeric src version) (ListsLand isAlphanumeric src version)
      ⟨dir, lists, dir.merged.fst.isSome, []⟩ as)
    (hrun : exec (listsStep isAlphanumeric src version) ⟨dir, lists, dir.merged.fst.isSome, []⟩ as =
      some s) :
    ∀ c ∈ s.compiled, c.standIn = false → CurrentUnion isAlphanumeric c.disk c.names c.fst := by
  have hinit : ListsInv isAlphanumeric src version ⟨dir, lists, dir.merged.fst.isSome, []⟩ :=
    ⟨dirInv_of_noSidecars hstart, nofun⟩
  have hi : ListsInv isAlphanumeric src version s :=
    inv_of_exec _ (fun _ _ _ hg hi h => listsStep_inv htell hg hi h) hinit hg hrun
  exact hi.compiled

namespace ProfileListsExample

open MergedExample

/-- A profile that names the first list only. -/
def kids : ProfileConfig where
  id := "kids".toList
  lists := [a]
  clients := []
  block := []
  services := []
  allow := []
  allowlists := []
  defaultDeny := false
  schedule := []

/-- One that names both. -/
def guests : ProfileConfig := { kids with id := "guests".toList, lists := [b, a] }

/-- Every write lands and every map opens. -/
def fine : ProfileFates := ⟨fun _ => .done, .done, .done, fun _ => true⟩

/-- Both lists are subscribed and refreshed. -/
def subscribed : List (ListsAction Text) :=
  [.add ⟨a, [], true⟩, .add ⟨b, [], true⟩, .refresh sends allLand]

/-- The engine after a run. -/
abbrev after := exec (listsStep Char.isAlphanum RefreshExample.plain "1".toList)
  ⟨emptyDir, [], emptyDir.merged.fst.isSome, []⟩

end ProfileListsExample

open ProfileListsExample MergedExample RefreshExample in
/-- Both profiles are compiled while both lists are on: one merges its own map, the other gets
the merged one. -/
theorem profiles_serve_their_lists_both_on :
    ∃ s, after (subscribed ++ [.compile [(kids, fine), (guests, fine)] false]) = some s ∧
      s.compiled.map (fun c => (c.id, c.fst, c.standIn)) =
        [(kids.id, {"a.com".toList}, false), (guests.id, {"a.com".toList, "b.com".toList}, false)] ∧
      ∀ c ∈ s.compiled, c.standIn = false → CurrentUnion Char.isAlphanum c.disk c.names c.fst := by
  have hrun : ∃ s, after (subscribed ++ [.compile [(kids, fine), (guests, fine)] false]) = some s ∧
      s.compiled.map (fun c => (c.id, c.fst, c.standIn)) =
        [(kids.id, {"a.com".toList}, false),
          (guests.id, {"a.com".toList, "b.com".toList}, false)] :=
    ⟨_, rfl, by decide +kernel⟩
  obtain ⟨s, hrun, hcompiled⟩ := hrun
  have hg : Guarded (listsStep Char.isAlphanum plain "1".toList)
      (ListsLand Char.isAlphanum plain "1".toList) ⟨emptyDir, [], emptyDir.merged.fst.isSome, []⟩
      (subscribed ++ [.compile [(kids, fine), (guests, fine)] false]) := by decide +kernel
  have htell : DigestsTell plain := fun b b' h => congrArg (fun t => (plain.parse t).1) h
  exact ⟨s, hrun, hcompiled, profiles_serve_their_lists Char.isAlphanum plain "1".toList htell emptyDir []
    _ s ⟨fun _ => rfl, rfl, fun _ => rfl⟩ hg hrun⟩

open ProfileListsExample MergedExample in
/-- **A disabled list is still served**: the second list is turned off and the profile that
names the first is compiled before the next refresh.  The lists enabled are those it names, so
it gets the merged map, which has both.  A restart with the list turned off does the same. -/
theorem disabled_list_still_served :
    (∃ s c, after (subscribed ++ [.setEnabled b false, .compile [(kids, fine)] false]) = some s ∧
      c ∈ s.compiled ∧ c.standIn = false ∧ c.names = [a] ∧
      c.fst = {"a.com".toList, "b.com".toList} ∧
      ¬ CurrentUnion Char.isAlphanum c.disk c.names c.fst) ∧
    ∃ s c, after (subscribed ++ [.restart [⟨a, [], true⟩, ⟨b, [], false⟩],
        .compile [(kids, fine)] true]) = some s ∧
      c ∈ s.compiled ∧ c.standIn = false ∧ c.names = [a] ∧
      c.fst = {"a.com".toList, "b.com".toList} ∧
      ¬ CurrentUnion Char.isAlphanum c.disk c.names c.fst := by
  have hnot : ∀ dir, (dir.lists a).fst = some {"a.com".toList} →
      ¬ CurrentUnion Char.isAlphanum dir [a] {"a.com".toList, "b.com".toList} := by
    intro dir ha hunion
    obtain ⟨name, hname, map, hmap, hmem⟩ := (hunion "b.com".toList).1 (by decide)
    cases List.mem_singleton.1 hname
    cases ha.symm.trans hmap
    revert hmem
    decide
  constructor
  · refine ⟨_, _, rfl, List.mem_cons_self .., by decide +kernel, rfl, ?_, ?_⟩
    · decide +kernel
    · exact hnot _ (by decide +kernel)
  · refine ⟨_, _, rfl, List.mem_cons_self .., by decide +kernel, rfl, ?_, ?_⟩
    · decide +kernel
    · exact hnot _ (by decide +kernel)

end Ferrite.Blocklist
