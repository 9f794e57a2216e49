import Mathlib.Data.List.Sort
import Mathlib.Data.List.Dedup
import Mathlib.Data.Prod.Lex
import Ferrite.Lib.Table

/-!
# Rows: grouping, ordering and keyed updates

The same question can be put to a database and to a map kept by hand.  The database
groups rows, orders the groups and updates a table by key; the program walks its rows
and adds each one to the entry it belongs to.  This file has both sides and says when
they come to the same.

* `tally_perm_groupBy` — adding rows one at a time to the entries of a map is grouping
  them by key;
* `lookup_upsertAll_tally` — adding a batch up first and merging the sums into the table
  is adding its rows to the table one at a time;
* `foldl_addLast` — on rows in the order of their keys, looking at the last entry only
  is grouping them too;
* `orderBy_eq_of_perm` — an order that tells all rows apart forgets how they came.
-/

namespace Rows

open List

variable {R S K A B O : Type}

/-! ## Ordering -/

section OrderBy

variable [LinearOrder O]

/-- `ORDER BY`: the rows by ascending key. -/
def orderBy (key : R → O) (rows : List R) : List R :=
  rows.insertionSort fun a b => key a ≤ key b

theorem orderBy_perm (key : R → O) (rows : List R) : orderBy key rows ~ rows :=
  perm_insertionSort _ rows

@[simp] theorem length_orderBy (key : R → O) (rows : List R) :
    (orderBy key rows).length = rows.length :=
  (orderBy_perm key rows).length_eq

theorem pairwise_orderBy (key : R → O) (rows : List R) :
    (orderBy key rows).Pairwise fun a b => key a ≤ key b := by
  have htotal : Std.Total fun a b : R => key a ≤ key b := ⟨fun a b => le_total (key a) (key b)⟩
  have htrans : IsTrans R fun a b => key a ≤ key b := ⟨fun _ _ _ => le_trans⟩
  exact pairwise_insertionSort _ rows

/-- A list in the order of its keys is what ordering it gives, if the keys tell its rows
apart. -/
theorem eq_orderBy {key : R → O} {rows sorted : List R} (hperm : sorted ~ rows)
    (hsorted : sorted.Pairwise fun a b => key a ≤ key b)
    (hinj : ∀ a ∈ rows, ∀ b ∈ rows, key a = key b → a = b) : sorted = orderBy key rows := by
  refine Perm.eq_of_pairwise ?_ hsorted (pairwise_orderBy key rows)
    (hperm.trans (orderBy_perm key rows).symm)
  intro a b ha hb hab hba
  exact hinj a (hperm.subset ha) b ((orderBy_perm key rows).subset hb) (le_antisymm hab hba)

/-- **Order.**  Two lists of the same rows are ordered alike, if the key tells the rows
apart. -/
theorem orderBy_eq_of_perm {key : R → O} {rows rows' : List R} (h : rows ~ rows')
    (hinj : ∀ a ∈ rows, ∀ b ∈ rows, key a = key b → a = b) :
    orderBy key rows = orderBy key rows' := by
  refine eq_orderBy ((orderBy_perm key rows).trans h) (pairwise_orderBy key rows) ?_
  intro a ha b hb hab
  exact hinj a (h.symm.subset ha) b (h.symm.subset hb) hab

/-- Ordering goes through a map that keeps the order of the keys. -/
theorem orderBy_map {P : Type} [LinearOrder P] {key : R → O} {keyS : S → P} (f : R → S)
    (rows : List R) (hkey : ∀ a ∈ rows, ∀ b ∈ rows, key a ≤ key b → keyS (f a) ≤ keyS (f b))
    (hinj : ∀ a ∈ rows, ∀ b ∈ rows, keyS (f a) = keyS (f b) → f a = f b) :
    (orderBy key rows).map f = orderBy keyS (rows.map f) := by
  refine eq_orderBy ((orderBy_perm key rows).map f) ?_ ?_
  · rw [pairwise_map]
    refine (pairwise_orderBy key rows).imp_of_mem ?_
    intro a b ha hb hab
    exact hkey a ((orderBy_perm key rows).subset ha) b ((orderBy_perm key rows).subset hb) hab
  · intro x hx y hy hxy
    obtain ⟨a, ha, rfl⟩ := mem_map.1 hx
    obtain ⟨b, hb, rfl⟩ := mem_map.1 hy
    exact hinj a ha b hb hxy

end OrderBy

/-! ## Dropping from the front -/

/-- Dropping from the front drops all the rows there are to drop, if none of them lies
behind a row that stays. -/
theorem dropWhile_eq_filter {p : R → Bool} {rows : List R}
    (h : rows.Pairwise fun a b => p b → p a) : rows.dropWhile p = rows.filter fun r => !p r := by
  induction rows with
  | nil => rfl
  | cons r rows ih =>
    obtain ⟨hr, hrows⟩ := pairwise_cons.1 h
    cases hp : p r with
    | true => rw [dropWhile_cons_of_pos hp, ih hrows, filter_cons_of_neg (by simp [hp])]
    | false =>
      have hrest : rows.filter (fun x => !p x) = rows := by
        refine filter_eq_self.2 fun x hx => ?_
        cases hpx : p x with
        | false => rfl
        | true => exact absurd (hr x hx hpx) (by simp [hp])
      rw [dropWhile_cons_of_neg (by simp [hp]), filter_cons_of_pos (by simp [hp]), hrest]

/-! ## Grouping -/

variable [DecidableEq K]

/-- `GROUP BY`: one row for each key that occurs, made of the rows that have it. -/
def groupBy (key : R → K) (agg : K → List R → B) (rows : List R) : List B :=
  (rows.map key).dedup.map fun k => agg k (rows.filter fun r => key r = k)

theorem mem_groupBy {key : R → K} {agg : K → List R → B} {rows : List R} {b : B} :
    b ∈ groupBy key agg rows ↔ ∃ r ∈ rows, agg (key r) (rows.filter fun x => key x = key r) = b := by
  simp [groupBy, mem_dedup]

theorem length_groupBy_le (key : R → K) (agg : K → List R → B) (rows : List R) :
    (groupBy key agg rows).length ≤ rows.length := by
  rw [groupBy, length_map]
  calc (rows.map key).dedup.length ≤ (rows.map key).length := (dedup_sublist _).length_le
    _ = rows.length := length_map _

theorem map_groupBy (key : R → K) (agg : K → List R → A) (f : A → B) (rows : List R) :
    (groupBy key agg rows).map f = groupBy key (fun k rs => f (agg k rs)) rows := by
  simp [groupBy]

/-- A group is never empty, so an aggregate matters on nonempty lists of rows only. -/
theorem groupBy_congr {key : R → K} {agg agg' : K → List R → B} {rows : List R}
    (h : ∀ k rs, rs ⊆ rows → rs ≠ [] → agg k rs = agg' k rs) :
    groupBy key agg rows = groupBy key agg' rows := by
  refine map_congr_left fun k hk => h k _ (filter_subset_self ..) ?_
  obtain ⟨r, hr, rfl⟩ := mem_map.1 (mem_dedup.1 hk)
  exact ne_nil_of_mem (mem_filter.2 ⟨hr, by simp⟩)

/-- The groups do not depend on how the rows came, if the aggregate does not. -/
theorem groupBy_perm {key : R → K} {agg : K → List R → B} {rows rows' : List R}
    (h : rows ~ rows') (hagg : ∀ k rs rs', rs ~ rs' → agg k rs = agg k rs') :
    groupBy key agg rows ~ groupBy key agg rows' := by
  have hgroups : (fun k => agg k (rows.filter fun r => key r = k)) =
      fun k => agg k (rows'.filter fun r => key r = k) :=
    funext fun k => hagg k _ _ (h.filter _)
  rw [groupBy, groupBy, hgroups]
  exact ((h.map key).dedup).map _

/-- Grouping sees rows through their images, if it groups images. -/
theorem groupBy_map (f : R → S) (key : S → K) (agg : K → List S → B) (rows : List R) :
    groupBy key agg (rows.map f) =
      groupBy (fun r => key (f r)) (fun k rs => agg k (rs.map f)) rows := by
  simp only [groupBy, map_map, filter_map]
  rfl

/-- A group is known by its key. -/
theorem groupBy_inj {key : R → K} {agg : K → List R → B} {rows : List R} (name : B → K)
    (hname : ∀ k rs, name (agg k rs) = k) {a b : B} (ha : a ∈ groupBy key agg rows)
    (hb : b ∈ groupBy key agg rows) (hab : name a = name b) : a = b := by
  obtain ⟨x, -, rfl⟩ := mem_groupBy.1 ha
  obtain ⟨y, -, rfl⟩ := mem_groupBy.1 hb
  rw [hname, hname] at hab
  rw [hab]

/-! ## Adding up, entry by entry -/

/-- Add a row to the entry of its key, starting one where there is none. -/
def addTo (key : R → K) (init : K → A) (add : A → R → A) (t : Table K A) (r : R) : Table K A :=
  t.insert (key r) (add ((t.lookup (key r)).getD (init (key r))) r)

/-- Add each row to the entry of its key. -/
def tally (key : R → K) (init : K → A) (add : A → R → A) (t : Table K A) (rows : List R) :
    Table K A :=
  rows.foldl (addTo key init add) t

@[simp] theorem tally_nil (key : R → K) (init : K → A) (add : A → R → A) (t : Table K A) :
    tally key init add t [] = t := rfl

/-- An entry afterwards is the entry before with the rows of its key added. -/
theorem lookup_tally (key : R → K) (init : K → A) (add : A → R → A) (t : Table K A)
    (rows : List R) (k : K) :
    (tally key init add t rows).lookup k =
      if (rows.filter fun r => key r = k) = [] then t.lookup k
      else some ((rows.filter fun r => key r = k).foldl add ((t.lookup k).getD (init k))) := by
  induction rows generalizing t with
  | nil => simp
  | cons r rows ih =>
    rw [tally, foldl_cons]
    refine (ih _).trans ?_
    rw [addTo, Table.lookup_insert_eq]
    by_cases hk : key r = k
    · subst hk
      by_cases hrest : (rows.filter fun x => key x = key r) = [] <;> simp [hrest]
    · have hk' : ¬ k = key r := fun h => hk h.symm
      simp [hk, hk']

/-- **Adding up is grouping.**  The entries of a fresh tally are the groups. -/
theorem tally_perm_groupBy (key : R → K) (init : K → A) (add : A → R → A) (rows : List R) :
    (tally key init add ∅ rows).entries ~
      groupBy key (fun k rs => (⟨k, rs.foldl add (init k)⟩ : Sigma fun _ : K => A)) rows := by
  have hnodup : (groupBy key
      (fun k rs => (⟨k, rs.foldl add (init k)⟩ : Sigma fun _ : K => A)) rows).Nodup :=
    (nodup_dedup _).map fun _ _ h => congrArg Sigma.fst h
  refine (perm_ext_iff_of_nodup (tally key init add ∅ rows).nodupKeys.nodup hnodup).2 ?_
  rintro ⟨k, a⟩
  rw [Table.mem_entries_iff, lookup_tally, mem_groupBy]
  constructor
  · intro h
    by_cases hempty : (rows.filter fun r => key r = k) = []
    · simp [hempty] at h
    · obtain ⟨r, hr⟩ := exists_mem_of_ne_nil _ hempty
      obtain ⟨hmem, hkey⟩ := mem_filter.1 hr
      have hkey : key r = k := of_decide_eq_true hkey
      subst hkey
      rw [if_neg hempty, AList.lookup_empty, Option.getD_none, Option.some.injEq] at h
      exact ⟨r, hmem, by rw [h]⟩
  · rintro ⟨r, hmem, h⟩
    rw [Sigma.mk.injEq] at h
    obtain ⟨rfl, h⟩ := h
    have hne : (rows.filter fun x => key x = key r) ≠ [] :=
      ne_nil_of_mem (mem_filter.2 ⟨hmem, by simp⟩)
    rw [if_neg hne, AList.lookup_empty, Option.getD_none, eq_of_heq h]

/-- What is read off a fresh tally is what is read off the groups, whichever way the rows
came. -/
theorem map_tally_perm_groupBy {key : R → K} {init : K → A} {add : A → R → A}
    {f : (Sigma fun _ : K => A) → B} {agg : K → List R → B} {rows rows' : List R}
    (hagg : ∀ k rs, rs ⊆ rows → rs ≠ [] → f ⟨k, rs.foldl add (init k)⟩ = agg k rs)
    (hcongr : ∀ k rs rs', rs ~ rs' → agg k rs = agg k rs') (h : rows ~ rows') :
    (tally key init add ∅ rows).entries.map f ~ groupBy key agg rows' := by
  refine ((tally_perm_groupBy key init add rows).map f).trans ?_
  rw [map_groupBy, groupBy_congr hagg]
  exact groupBy_perm h hcongr

/-- A tally sees the table it starts from through its lookups only. -/
theorem lookup_tally_congr {key : R → K} {init : K → A} {add : A → R → A} {t t' : Table K A}
    (h : ∀ k, t.lookup k = t'.lookup k) (rows : List R) (k : K) :
    (tally key init add t rows).lookup k = (tally key init add t' rows).lookup k := by
  rw [lookup_tally, lookup_tally, h k]

/-! ## Updating by key -/

/-- `INSERT … ON CONFLICT DO UPDATE`: a row of a new key goes in as it is, the row of a
key that is there is merged with the one it finds. -/
def upsert (merge : A → A → A) (t : Table K A) (k : K) (v : A) : Table K A :=
  t.insert k ((t.lookup k).elim v fun old => merge old v)

theorem lookup_upsert (merge : A → A → A) (t : Table K A) (k : K) (v : A) (k' : K) :
    (upsert merge t k v).lookup k' =
      if k' = k then some ((t.lookup k).elim v fun old => merge old v) else t.lookup k' :=
  Table.lookup_insert_eq ..

/-- One upsert for each entry of a table, in whatever order these come. -/
def upsertAll (merge : A → A → A) (t batch : Table K A) : Table K A :=
  batch.entries.foldl (fun t e => upsert merge t e.1 e.2) t

theorem lookup_foldl_upsert (merge : A → A → A) (entries : List (Sigma fun _ : K => A))
    (hkeys : entries.NodupKeys) (t : Table K A) (k : K) :
    (entries.foldl (fun t e => upsert merge t e.1 e.2) t).lookup k =
      (dlookup k entries).elim (t.lookup k) fun v =>
        some ((t.lookup k).elim v fun old => merge old v) := by
  induction entries generalizing t with
  | nil => rfl
  | cons e entries ih =>
    obtain ⟨hfresh, hrest⟩ := nodupKeys_cons.1 hkeys
    rw [foldl_cons, ih hrest, lookup_upsert]
    by_cases hk : k = e.1
    · -- the key of the first entry does not come again
      subst hk
      rw [dlookup_eq_none.2 hfresh, dlookup_cons_eq]
      simp
    · rw [dlookup_cons_ne _ _ hk, if_neg hk]

theorem lookup_upsertAll (merge : A → A → A) (t batch : Table K A) (k : K) :
    (upsertAll merge t batch).lookup k =
      (batch.lookup k).elim (t.lookup k) fun v =>
        some ((t.lookup k).elim v fun old => merge old v) :=
  lookup_foldl_upsert merge batch.entries batch.nodupKeys t k

/-- **Batches.**  Adding a batch up first and merging the sums is adding its rows to the
table itself, if merging in a row added is adding it to what was merged. -/
theorem lookup_upsertAll_tally {key : R → K} {init : K → A} {add : A → R → A}
    {merge : A → A → A} {t : Table K A} (good : A → Prop)
    (hzero : ∀ k a, good a → merge a (init k) = a)
    (hadd : ∀ a b r, merge a (add b r) = add (merge a b) r)
    (hgood : ∀ k a, t.lookup k = some a → good a) (rows : List R) (k : K) :
    (upsertAll merge t (tally key init add ∅ rows)).lookup k =
      (tally key init add t rows).lookup k := by
  have hmerge : ∀ (rs : List R) (a b : A), merge a (rs.foldl add b) = rs.foldl add (merge a b) := by
    intro rs
    induction rs with
    | nil => intro a b; rfl
    | cons r rs ih =>
      intro a b
      rw [foldl_cons, foldl_cons, ih, hadd]
  rw [lookup_upsertAll, lookup_tally, lookup_tally, AList.lookup_empty]
  by_cases hempty : (rows.filter fun r => key r = k) = []
  · simp [hempty]
  · rw [if_neg hempty, if_neg hempty]
    cases hold : t.lookup k with
    | none => simp
    | some old => simp [hmerge, hzero k old (hgood k old hold)]

/-- So a table merged into batch by batch keeps up with one that takes the rows. -/
theorem shows_upsertAll_tally {key : R → K} {init : K → A} {add : A → R → A}
    {merge : A → A → A} {t s : Table K A} (good : A → Prop)
    (hzero : ∀ k a, good a → merge a (init k) = a)
    (hadd : ∀ a b r, merge a (add b r) = add (merge a b) r)
    (hgood : ∀ k a, s.lookup k = some a → good a) (h : Table.Shows (fun _ a => a) t s)
    (rows : List R) :
    Table.Shows (fun _ a => a) (tally key init add t rows)
      (upsertAll merge s (tally key init add ∅ rows)) := by
  intro k
  rw [Option.map_id', lookup_upsertAll_tally good hzero hadd hgood]
  exact lookup_tally_congr h.lookup_eq rows k

/-! ## Adding to the last entry -/

/-- The group of one row stands beside the groups of the rows of other keys. -/
theorem groupBy_cons_perm (key : R → K) (agg : K → List R → B) (r : R) (rows : List R) :
    groupBy key agg (r :: rows) ~
      agg (key r) (r :: rows.filter fun x => key x = key r) ::
        groupBy key agg (rows.filter fun x => key x ≠ key r) := by
  have hkeys : ((r :: rows).map key).dedup ~
      key r :: ((rows.filter fun x => key x ≠ key r).map key).dedup := by
    refine (perm_ext_iff_of_nodup (nodup_dedup _) ?_).2 fun k => ?_
    · refine nodup_cons.2 ⟨?_, nodup_dedup _⟩
      simp [mem_dedup]
    · by_cases hk : k = key r
      · simp [hk, mem_dedup]
      · simp only [mem_dedup, map_cons, mem_cons, hk, false_or, mem_map, mem_filter]
        refine exists_congr fun x => ?_
        constructor
        · rintro ⟨hx, rfl⟩
          exact ⟨⟨hx, by simpa using hk⟩, rfl⟩
        · rintro ⟨⟨hx, -⟩, rfl⟩
          exact ⟨hx, rfl⟩
  refine (hkeys.map _).trans (Perm.of_eq ?_)
  rw [map_cons, filter_cons_of_pos (by simp)]
  congr 1
  refine map_congr_left fun k hk => ?_
  obtain ⟨x, hx, rfl⟩ := mem_map.1 (mem_dedup.1 hk)
  have hne : key x ≠ key r := by simpa using (mem_filter.1 hx).2
  rw [filter_cons_of_neg (by simpa using hne.symm), filter_filter]
  congr 1
  refine filter_congr fun y _ => ?_
  by_cases hy : key y = key x <;> simp [hy, hne]

section AddLast

variable (keyOut : A → K) (key : R → K) (init : K → A) (add : A → R → A)

/-- Add a row to the last entry if that has its key, else start the next one. -/
def addLast (out : List A) (r : R) : List A :=
  match out.getLast? with
  | some last =>
    if keyOut last = key r then out.dropLast ++ [add last r] else out ++ [add (init (key r)) r]
  | none => [add (init (key r)) r]

theorem addLast_append (out : List A) (a : A) (r : R) :
    addLast keyOut key init add (out ++ [a]) r =
      if keyOut a = key r then out ++ [add a r] else out ++ [a, add (init (key r)) r] := by
  simp [addLast]

theorem foldl_addLast_append (out : List A) (a : A) (rows : List R) :
    rows.foldl (addLast keyOut key init add) (out ++ [a]) =
      out ++ rows.foldl (addLast keyOut key init add) [a] := by
  induction rows generalizing out a with
  | nil => rfl
  | cons r rows ih =>
    have hone := addLast_append keyOut key init add [] a r
    simp only [nil_append] at hone
    rw [foldl_cons, foldl_cons, addLast_append, hone]
    by_cases hk : keyOut a = key r
    · rw [if_pos hk, if_pos hk, ih]
    · have hnext : rows.foldl (addLast keyOut key init add) [a, add (init (key r)) r] =
          [a] ++ rows.foldl (addLast keyOut key init add) [add (init (key r)) r] :=
        ih [a] (add (init (key r)) r)
      rw [if_neg hk, if_neg hk, append_cons, ih, hnext, append_assoc]

end AddLast

section AddLastSorted

variable [LinearOrder O] {keyOut : A → O} {key : R → O} {init : O → A} {add : A → R → A}

/-- On rows in the order of their keys, the last entry takes exactly the rows of its key. -/
theorem foldl_addLast_run (hadd : ∀ a r, keyOut (add a r) = keyOut a)
    {rows : List R} (hsorted : rows.Pairwise fun a b => key a ≤ key b) (a : A)
    (ha : ∀ r ∈ rows, keyOut a ≤ key r) :
    rows.foldl (addLast keyOut key init add) [a] =
      (rows.filter fun r => key r = keyOut a).foldl add a ::
        (rows.filter fun r => key r ≠ keyOut a).foldl (addLast keyOut key init add) [] := by
  induction rows generalizing a with
  | nil => rfl
  | cons r rows ih =>
    obtain ⟨hr, hrows⟩ := pairwise_cons.1 hsorted
    have hone := addLast_append keyOut key init add [] a r
    simp only [nil_append] at hone
    by_cases hk : keyOut a = key r
    · rw [foldl_cons, hone, if_pos hk, ih hrows _ fun x hx => ?_]
      · simp [hadd, hk]
      · rw [hadd, hk]
        exact hr x hx
    · -- from here on every key is beyond the entry's
      have hlt : keyOut a < key r := lt_of_le_of_ne (ha r (mem_cons_self ..)) hk
      have hbeyond : ∀ x ∈ r :: rows, key x ≠ keyOut a := by
        intro x hx
        rcases mem_cons.1 hx with rfl | hx
        · exact hlt.ne'
        · exact (lt_of_lt_of_le hlt (hr x hx)).ne'
      have hnone : ((r :: rows).filter fun x => key x = keyOut a) = [] :=
        filter_eq_nil_iff.2 fun x hx => by simpa using hbeyond x hx
      have hall : ((r :: rows).filter fun x => key x ≠ keyOut a) = r :: rows :=
        filter_eq_self.2 fun x hx => by simpa using hbeyond x hx
      rw [hnone, hall, foldl_cons, hone, if_neg hk]
      exact foldl_addLast_append keyOut key init add [a] (add (init (key r)) r) rows

/-- **Adding to the last entry.**  On rows in the order of their keys this gives the
groups, in that order. -/
theorem foldl_addLast (hinit : ∀ k, keyOut (init k) = k) (hadd : ∀ a r, keyOut (add a r) = keyOut a)
    {rows : List R} (hsorted : rows.Pairwise fun a b => key a ≤ key b) :
    rows.foldl (addLast keyOut key init add) [] =
      orderBy keyOut (groupBy key (fun k rs => rs.foldl add (init k)) rows) := by
  have hfold : ∀ (rs : List R) (a : A), keyOut (rs.foldl add a) = keyOut a := by
    intro rs
    induction rs with
    | nil => intro a; rfl
    | cons r rs ih => intro a; rw [foldl_cons, ih, hadd]
  have hspec : rows.foldl (addLast keyOut key init add) [] ~
        groupBy key (fun k rs => rs.foldl add (init k)) rows ∧
      (rows.foldl (addLast keyOut key init add) []).Pairwise fun a b => keyOut a ≤ keyOut b := by
    -- each step takes the rows of the first key off
    induction hn : rows.length using Nat.strong_induction_on generalizing rows with
    | _ n ih =>
      cases rows with
      | nil => exact ⟨Perm.refl _, Pairwise.nil⟩
      | cons r rows =>
        obtain ⟨hr, hrows⟩ := pairwise_cons.1 hsorted
        have hkey : keyOut (add (init (key r)) r) = key r := by rw [hadd, hinit]
        have hstart : (r :: rows).foldl (addLast keyOut key init add) [] =
            rows.foldl (addLast keyOut key init add) [add (init (key r)) r] := rfl
        have hlt : (rows.filter fun x => key x ≠ key r).length < n := by
          have := length_filter_le (fun x => decide (key x ≠ key r)) rows
          rw [length_cons] at hn
          omega
        obtain ⟨hperm, hpair⟩ := ih _ hlt (hrows.filter _) rfl
        rw [hstart, foldl_addLast_run hadd hrows _ (by rw [hkey]; exact hr), hkey]
        have hfirst := groupBy_cons_perm key (fun k rs => rs.foldl add (init k)) r rows
        refine ⟨(hperm.cons _).trans hfirst.symm, ?_⟩
        refine pairwise_cons.2 ⟨fun a ha => ?_, hpair⟩
        obtain ⟨x, hx, rfl⟩ := mem_groupBy.1 (hperm.subset ha)
        rw [hfold, hfold, hinit, hkey]
        exact hr x (mem_filter.1 hx).1
  refine eq_orderBy hspec.1 hspec.2 ?_
  intro a ha b hb hab
  obtain ⟨x, -, rfl⟩ := mem_groupBy.1 ha
  obtain ⟨y, -, rfl⟩ := mem_groupBy.1 hb
  rw [hfold, hfold, hinit, hinit] at hab
  rw [hab]

end AddLastSorted

end Rows
