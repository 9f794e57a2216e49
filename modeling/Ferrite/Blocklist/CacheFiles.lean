import Ferrite.Core.Text
import Mathlib.Data.List.Forall2
import Mathlib.Data.List.Nodup
import Mathlib.Data.List.Pairwise

/-!
# Cache files

The subscriptions of one polarity keep their caches in one directory, each list under
four file names made from its name (`blocklist/src/refresh.rs`) and each profile under
two made from its id (`blocklist/src/profiles.rs`).  `Subscriptions::add` refuses a name
that is taken, but the files go by the name with every unsafe character turned into an
underscore, and a list may be called `profile_kids`.

* `sanitizeName_eq_iff` — two names give the same files when they `Blur` to the same;
* `add_accepts_iff` — what `add` accepts are lists of different names;
* `files_apart_iff` — the caches are apart exactly when no two names blur;
* `accepted_lists_share_a_cache` — so they need not be.
-/

namespace Ferrite.Blocklist

/-! ## File names -/

/-- A file of the cache directory, by its name. -/
abbrev FileName := Text

/-- `Path::with_extension` of a file name: the last extension is replaced.  A name whose
only dot comes first has none. -/
def withExtension (file : FileName) (ext : Text) : FileName :=
  let stem := ((file.reverse.dropWhile (· ≠ '.')).drop 1).reverse
  (if '.' ∈ file ∧ stem ≠ [] then stem else file) ++ '.' :: ext

/-- `meta_path`: the sidecar of an FST. -/
def metaPath (fstPath : FileName) : FileName := withExtension fstPath "meta.json".toList

section

variable (isAlphanumeric : Char → Bool)

/-- The characters `sanitize_name` lets through. -/
def isSafe (c : Char) : Bool := isAlphanumeric c || c == '-' || c == '_'

/-- `sanitize_name`. -/
def sanitizeName (name : Text) : Text := name.map fun c => if isSafe isAlphanumeric c then c else '_'

/-- `ListCache`: the files one list keeps. -/
structure ListCache where
  fst : FileName
  domains : FileName
  stats : FileName
  sidecar : FileName
deriving DecidableEq, Repr

/-- `ListCache::new`. -/
def ListCache.new (listName : Text) : ListCache :=
  let safe := sanitizeName isAlphanumeric listName
  ⟨safe ++ ".fst".toList, safe ++ ".domains".toList, safe ++ ".stats.json".toList,
    safe ++ ".meta.json".toList⟩

/-- `profile_fst_path`. -/
def profileFstPath (id : Text) : FileName :=
  "profile_".toList ++ sanitizeName isAlphanumeric id ++ ".fst".toList

/-- Every file a refresh of the list writes or removes. -/
def listFiles (listName : Text) : List FileName :=
  let cache := ListCache.new isAlphanumeric listName
  [cache.fst, cache.domains, cache.stats, cache.sidecar]

/-- Every file that `discard_profile_cache` removes. -/
def profileFiles (id : Text) : List FileName :=
  let path := profileFstPath isAlphanumeric id
  [path, metaPath path]

end

/-! ## Subscriptions -/

/-- `ListPolarity`. -/
inductive ListPolarity where
  | block
  | allow
deriving DecidableEq, Repr

/-- `ListPolarity::noun`. -/
def ListPolarity.noun : ListPolarity → Text
  | .block => "blocklist".toList
  | .allow => "allowlist".toList

/-- `ListConfig`. -/
structure ListConfig where
  name : Text
  url : Text
  enabled : Bool
deriving DecidableEq, Repr

/-- `Subscriptions::add`: a name that is taken is refused. -/
def addList (polarity : ListPolarity) (lists : List ListConfig) (cfg : ListConfig) :
    Except Text (List ListConfig) :=
  if lists.any fun l => l.name == cfg.name then
    .error (polarity.noun ++ " '".toList ++ cfg.name ++ "' already exists".toList)
  else .ok (lists ++ [cfg])

/-- The lists are what a run of `add` has accepted. -/
def Accepted (polarity : ListPolarity) (lists : List ListConfig) : Prop :=
  lists.foldlM (addList polarity) [] = .ok lists

/-- `add` accepts a list of names exactly when they differ from each other and from those
there. -/
theorem foldlM_addList_iff (polarity : ListPolarity) (cfgs acc : List ListConfig) :
    cfgs.foldlM (addList polarity) acc = .ok (acc ++ cfgs) ↔
      (cfgs.map ListConfig.name).Nodup ∧ ∀ c ∈ cfgs, ∀ l ∈ acc, l.name ≠ c.name := by
  induction cfgs generalizing acc with
  | nil => simp [pure, Except.pure]
  | cons c cfgs ih =>
    rw [List.foldlM_cons]
    by_cases htaken : ∃ l ∈ acc, l.name = c.name
    · have hany : (acc.any fun l => l.name == c.name) = true := by
        simpa using htaken
      have herr : addList polarity acc c = .error _ := if_pos hany
      rw [herr]
      refine ⟨fun h => (by cases h), fun h => ?_⟩
      obtain ⟨l, hl, hname⟩ := htaken
      exact absurd hname (h.2 c (List.mem_cons_self ..) l hl)
    · have hany : ¬ (acc.any fun l => l.name == c.name) = true := by
        simpa using htaken
      have hok : addList polarity acc c = .ok (acc ++ [c]) := if_neg hany
      have hsplit : acc ++ c :: cfgs = acc ++ [c] ++ cfgs := by simp
      rw [hok, hsplit]
      refine (ih (acc ++ [c])).trans ?_
      simp only [List.map_cons, List.nodup_cons, List.mem_map, List.forall_mem_append,
        List.forall_mem_singleton, List.forall_mem_cons, not_exists, not_and]
      simp only [not_exists, not_and] at htaken
      constructor
      · rintro ⟨hnodup, hnew⟩
        exact ⟨⟨fun x hx hxc => (hnew x hx).2 hxc.symm, hnodup⟩, htaken, fun x hx => (hnew x hx).1⟩
      · rintro ⟨⟨hc, hnodup⟩, -, hold⟩
        exact ⟨hnodup, fun x hx => ⟨hold x hx, fun hcx => hc x hx hcx.symm⟩⟩

/-- What `add` accepts are lists of pairwise different names. -/
theorem add_accepts_iff (polarity : ListPolarity) (lists : List ListConfig) :
    Accepted polarity lists ↔ (lists.map ListConfig.name).Nodup := by
  have h := foldlM_addList_iff polarity lists []
  simpa [Accepted] using h

/-! ## Which names share their files -/

section

variable {isAlphanumeric : Char → Bool}

/-- The character is written as an underscore. -/
def blurred (isAlphanumeric : Char → Bool) (c : Char) : Prop :=
  c = '_' ∨ (isAlphanumeric c = false ∧ c ≠ '-')

/-- Two names that differ only where both have an underscore or an unsafe character. -/
def Blur (isAlphanumeric : Char → Bool) (a b : Text) : Prop :=
  List.Forall₂ (fun x y => x = y ∨ (blurred isAlphanumeric x ∧ blurred isAlphanumeric y)) a b

theorem sanitized_char_eq_iff (x y : Char) :
    (if isSafe isAlphanumeric x then x else '_') = (if isSafe isAlphanumeric y then y else '_') ↔
      x = y ∨ (blurred isAlphanumeric x ∧ blurred isAlphanumeric y) := by
  have hblurred : ∀ c, blurred isAlphanumeric c ↔ (if isSafe isAlphanumeric c then c else '_') = '_' := by
    intro c
    by_cases hu : c = '_'
    · subst hu
      simp [blurred, isSafe]
    · by_cases hd : c = '-'
      · subst hd
        simp [blurred, isSafe]
      · cases ha : isAlphanumeric c <;> simp [blurred, isSafe, hu, hd, ha]
  have hself : ∀ c, (if isSafe isAlphanumeric c then c else '_') = c ∨
      (if isSafe isAlphanumeric c then c else '_') = '_' := by
    intro c
    split
    · exact Or.inl rfl
    · exact Or.inr rfl
  rw [hblurred, hblurred]
  constructor
  · intro h
    rcases hself x with hx | hx
    · rcases hself y with hy | hy
      · exact Or.inl (hx.symm.trans (h.trans hy))
      · exact Or.inr ⟨h.trans hy, hy⟩
    · exact Or.inr ⟨hx, h.symm.trans hx⟩
  · rintro (rfl | ⟨hx, hy⟩)
    · rfl
    · rw [hx, hy]

/-- Two names have the same files exactly when they blur. -/
theorem sanitizeName_eq_iff (a b : Text) :
    sanitizeName isAlphanumeric a = sanitizeName isAlphanumeric b ↔ Blur isAlphanumeric a b := by
  unfold sanitizeName Blur
  rw [← List.forall₂_eq_eq_eq, List.forall₂_map_left_iff, List.forall₂_map_right_iff]
  simp only [sanitized_char_eq_iff]

/-- The prefix of a profile's files passes through. -/
theorem sanitizeName_profile (h : AsciiAlphanumeric isAlphanumeric) (id : Text) :
    "profile_".toList ++ sanitizeName isAlphanumeric id =
      sanitizeName isAlphanumeric ("profile_".toList ++ id) := by
  have hprefix : sanitizeName isAlphanumeric "profile_".toList = "profile_".toList := by
    have hascii : ("profile_".toList.all fun c =>
        decide (c.toNat < 128) && (c.isAlphanum || c == '-' || c == '_')) = true := by decide
    have hsafe : ∀ c ∈ "profile_".toList, isSafe isAlphanumeric c = true := by
      intro c hc
      have hc' := List.all_eq_true.1 hascii c hc
      rw [Bool.and_eq_true, decide_eq_true_eq] at hc'
      rw [isSafe, h c hc'.1]
      exact hc'.2
    exact (List.map_congr_left fun c hc => if_pos (hsafe c hc)).trans (List.map_id _)
  conv_lhs => rw [← hprefix]
  exact (List.map_append).symm

/-- A sanitised name has no dot, so the file name shows where it ends. -/
theorem dot_notMem_sanitizeName (h : AsciiAlphanumeric isAlphanumeric) (name : Text) :
    '.' ∉ sanitizeName isAlphanumeric name := by
  have hdot : isAlphanumeric '.' = false := h '.' (by decide)
  intro hmem
  obtain ⟨c, -, hc⟩ := List.mem_map.1 hmem
  split at hc
  · rename_i hsafe
    subst hc
    simp [isSafe, hdot] at hsafe
  · exact absurd hc (by decide)

/-- Names without a dot, each followed by an extension, are equal only part by part. -/
theorem append_dot_inj {a b e e' : Text} (ha : '.' ∉ a) (hb : '.' ∉ b)
    (h : a ++ '.' :: e = b ++ '.' :: e') : a = b ∧ e = e' := by
  induction a generalizing b with
  | nil =>
    cases b with
    | nil => exact ⟨rfl, (List.cons.inj h).2⟩
    | cons c b =>
      have hc : '.' = c := (List.cons.inj h).1
      exact absurd (hc ▸ List.mem_cons_self ..) hb
  | cons c a ih =>
    cases b with
    | nil =>
      have hc : c = '.' := (List.cons.inj h).1
      exact absurd (hc ▸ List.mem_cons_self ..) ha
    | cons c' b =>
      obtain ⟨rfl, htail⟩ := List.cons.inj h
      obtain ⟨rfl, he⟩ := ih (fun hm => ha (List.mem_cons_of_mem _ hm))
        (fun hm => hb (List.mem_cons_of_mem _ hm)) htail
      exact ⟨rfl, he⟩

/-- The extensions a list's files have. -/
def listExtensions : List Text :=
  ["fst".toList, "domains".toList, "stats.json".toList, "meta.json".toList]

theorem listFiles_eq (name : Text) :
    listFiles isAlphanumeric name =
      listExtensions.map fun e => sanitizeName isAlphanumeric name ++ '.' :: e := rfl

/-- The sidecar of a profile's map goes by the same stem. -/
theorem profileFiles_eq (h : AsciiAlphanumeric isAlphanumeric) (id : Text) :
    profileFiles isAlphanumeric id = ["fst".toList, "meta.json".toList].map fun e =>
      sanitizeName isAlphanumeric ("profile_".toList ++ id) ++ '.' :: e := by
  have hmeta : ∀ stem : Text, stem ≠ [] →
      metaPath (stem ++ ".fst".toList) = stem ++ ".meta.json".toList := by
    intro stem hstem
    have hrev : (stem ++ ".fst".toList).reverse = "tsf.".toList ++ stem.reverse := by
      rw [List.reverse_append]
      rfl
    have hdrop : (((stem ++ ".fst".toList).reverse.dropWhile (· ≠ '.')).drop 1).reverse = stem := by
      rw [hrev]
      exact List.reverse_reverse stem
    have hmem : '.' ∈ stem ++ ".fst".toList := List.mem_append_right _ (by decide)
    unfold metaPath withExtension
    simp only [hdrop]
    rw [if_pos ⟨hmem, hstem⟩]
    rfl
  have hne : sanitizeName isAlphanumeric ("profile_".toList ++ id) ≠ [] := by
    rw [← sanitizeName_profile h]
    exact List.cons_ne_nil _ _
  unfold profileFiles profileFstPath
  rw [sanitizeName_profile h]
  simp only [hmeta _ hne]
  rfl

/-- Files of two stems, under extensions of which at least one is shared, are apart exactly
when the stems are. -/
theorem disjoint_files_iff {a b : Text} (ha : '.' ∉ a) (hb : '.' ∉ b) {es es' : List Text}
    {e : Text} (he : e ∈ es) (he' : e ∈ es') :
    (es.map fun e => a ++ '.' :: e).Disjoint (es'.map fun e => b ++ '.' :: e) ↔ a ≠ b := by
  constructor
  · rintro hd rfl
    exact hd (List.mem_map_of_mem he) (List.mem_map_of_mem he')
  · intro hne x hx hx'
    obtain ⟨d, -, rfl⟩ := List.mem_map.1 hx
    obtain ⟨d', -, heq⟩ := List.mem_map.1 hx'
    exact hne (append_dot_inj hb ha heq).1.symm

/-! ## No two caches share a file -/

/-- The files of any two lists, of any list and any profile, and of any two profiles are
apart: what is written or removed for one is no file of the other. -/
structure FilesApart (isAlphanumeric : Char → Bool) (lists : List ListConfig) (ids : List Text) :
    Prop where
  betweenLists : lists.Pairwise fun l l' =>
    (listFiles isAlphanumeric l.name).Disjoint (listFiles isAlphanumeric l'.name)
  listProfile : ∀ l ∈ lists, ∀ id ∈ ids,
    (listFiles isAlphanumeric l.name).Disjoint (profileFiles isAlphanumeric id)
  betweenProfiles : ids.Pairwise fun id id' =>
    (profileFiles isAlphanumeric id).Disjoint (profileFiles isAlphanumeric id')

/-- No two names blur into one: not those of two lists, nor of a list and a profile, whose
name in the directory is its id after `profile_`. -/
structure NoBlur (isAlphanumeric : Char → Bool) (lists : List ListConfig) (ids : List Text) :
    Prop where
  betweenLists : ∀ l ∈ lists, ∀ l' ∈ lists, l.name ≠ l'.name → ¬ Blur isAlphanumeric l.name l'.name
  listProfile : ∀ l ∈ lists, ∀ id ∈ ids, ¬ Blur isAlphanumeric l.name ("profile_".toList ++ id)
  betweenProfiles : ∀ id ∈ ids, ∀ id' ∈ ids, id ≠ id' → ¬ Blur isAlphanumeric id id'

theorem disjoint_listFiles_iff (h : AsciiAlphanumeric isAlphanumeric) (a b : Text) :
    (listFiles isAlphanumeric a).Disjoint (listFiles isAlphanumeric b) ↔
      ¬ Blur isAlphanumeric a b := by
  rw [listFiles_eq, listFiles_eq, ← sanitizeName_eq_iff]
  exact disjoint_files_iff (dot_notMem_sanitizeName h a) (dot_notMem_sanitizeName h b)
    (List.mem_cons_self ..) (List.mem_cons_self ..)

theorem disjoint_list_profile_iff (h : AsciiAlphanumeric isAlphanumeric) (a id : Text) :
    (listFiles isAlphanumeric a).Disjoint (profileFiles isAlphanumeric id) ↔
      ¬ Blur isAlphanumeric a ("profile_".toList ++ id) := by
  rw [listFiles_eq, profileFiles_eq h, ← sanitizeName_eq_iff]
  exact disjoint_files_iff (dot_notMem_sanitizeName h a) (dot_notMem_sanitizeName h _)
    (List.mem_cons_self ..) (List.mem_cons_self ..)

theorem disjoint_profileFiles_iff (h : AsciiAlphanumeric isAlphanumeric) (id id' : Text) :
    (profileFiles isAlphanumeric id).Disjoint (profileFiles isAlphanumeric id') ↔
      ¬ Blur isAlphanumeric id id' := by
  rw [profileFiles_eq h, profileFiles_eq h, ← sanitizeName_eq_iff, ← sanitizeName_profile h,
    ← sanitizeName_profile h]
  refine (disjoint_files_iff ?_ ?_ (List.mem_cons_self ..) (List.mem_cons_self ..)).trans
    (not_congr (List.append_cancel_left_eq ..).to_iff)
  · rw [sanitizeName_profile h]
    exact dot_notMem_sanitizeName h _
  · rw [sanitizeName_profile h]
    exact dot_notMem_sanitizeName h _

/-- For subscriptions that `add` accepts and profiles of different ids, every cache has its
files to itself exactly when no two of the names blur. -/
theorem files_apart_iff (isAlphanumeric : Char → Bool) (polarity : ListPolarity)
    (lists : List ListConfig) (ids : List Text) (h : AsciiAlphanumeric isAlphanumeric)
    (haccepted : Accepted polarity lists) (hids : ids.Nodup) :
    FilesApart isAlphanumeric lists ids ↔ NoBlur isAlphanumeric lists ids := by
  have hnames : lists.Pairwise fun l l' => l.name ≠ l'.name :=
    List.pairwise_map.1 ((add_accepts_iff polarity lists).1 haccepted)
  constructor
  · rintro ⟨hlists, hboth, hprofiles⟩
    have hsymm : ∀ {α : Type} (f : α → List FileName), Std.Symm fun a b => (f a).Disjoint (f b) :=
      fun f => ⟨fun _ _ hd _ hb ha => hd ha hb⟩
    have := hsymm fun l : ListConfig => listFiles isAlphanumeric l.name
    have := hsymm (profileFiles isAlphanumeric)
    refine ⟨fun l hl l' hl' hne => ?_, fun l hl id hid => ?_, fun id hid id' hid' hne => ?_⟩
    · refine (disjoint_listFiles_iff h _ _).1 (hlists.forall hl hl' ?_)
      rintro rfl
      exact hne rfl
    · exact (disjoint_list_profile_iff h _ _).1 (hboth l hl id hid)
    · exact (disjoint_profileFiles_iff h _ _).1 (hprofiles.forall hid hid' hne)
  · rintro ⟨hlists, hboth, hprofiles⟩
    refine ⟨hnames.imp_of_mem fun hl hl' hne => ?_, fun l hl id hid => ?_,
      hids.imp_of_mem fun hid hid' hne => ?_⟩
    · exact (disjoint_listFiles_iff h _ _).2 (hlists _ hl _ hl' hne)
    · exact (disjoint_list_profile_iff h _ _).2 (hboth l hl id hid)
    · exact (disjoint_profileFiles_iff h _ _).2 (hprofiles _ hid _ hid' hne)

end

namespace CacheExample

/-- Lists of the given names, all enabled. -/
def named (names : List String) : List ListConfig :=
  names.map fun n => ⟨n.toList, "https://lists.example/".toList ++ n.toList, true⟩

/-- `is_alphanumeric`, right below 128. -/
def ascii : Char → Bool := Char.isAlphanum

end CacheExample

open CacheExample in
/-- Names that keep clear of each other. -/
theorem files_apart_clear :
    FilesApart ascii (named ["ads", "ads-2", "trackers"]) ["kids".toList, "guests".toList] := by
  have haccepted : Accepted .block (named ["ads", "ads-2", "trackers"]) := rfl
  refine (files_apart_iff ascii .block _ _ (fun _ _ => rfl) haccepted (by decide)).2 ⟨?_, ?_, ?_⟩
  · simp only [← sanitizeName_eq_iff]
    decide
  · simp only [← sanitizeName_eq_iff]
    decide
  · simp only [← sanitizeName_eq_iff]
    decide

open CacheExample in
/-- `add` takes `ads 1` beside `ads_1`, and a list called `profile_kids` beside a profile
`kids`: in both cases one cache is written over the other. -/
theorem accepted_lists_share_a_cache :
    (Accepted .block (named ["ads 1", "ads_1"]) ∧
      ¬ FilesApart ascii (named ["ads 1", "ads_1"]) [] ∧
      listFiles ascii "ads 1".toList = listFiles ascii "ads_1".toList) ∧
    Accepted .block (named ["profile_kids"]) ∧
      ¬ FilesApart ascii (named ["profile_kids"]) ["kids".toList] ∧
      profileFstPath ascii "kids".toList = (ListCache.new ascii "profile_kids".toList).fst := by
  refine ⟨⟨rfl, fun hapart => ?_, by decide⟩, rfl, fun hapart => ?_, by decide⟩
  · have hsame := List.pairwise_cons.1 hapart.betweenLists
    exact hsame.1 _ (List.mem_singleton_self _) (List.mem_cons_self ..) (by decide)
  · have hsame := hapart.listProfile _ (List.mem_singleton_self _) _ (List.mem_singleton_self _)
    exact hsame (List.mem_cons_self ..) (by decide)

end Ferrite.Blocklist
