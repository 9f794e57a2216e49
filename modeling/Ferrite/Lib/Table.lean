import Mathlib.Data.List.AList

/-!
# Finite tables

A hash map is modelled by Mathlib's association list `AList`, whose keys are
distinct by construction.  What a program does with one beyond `lookup`,
`insert` and `erase` is here: its values, a search over its entries, and
`retain`, each with the lemma that says what a lookup sees afterwards.

`Shows` compares two tables kept in step by two programs: the same keys, each value
of the one seen through a function in the other.
-/

/-- A finite table from `K` to `V`: the keys are distinct by construction. -/
abbrev Table (K V : Type) := AList fun _ : K => V

namespace Table

variable {K V : Type} [DecidableEq K]

/-- The values of a table, in the order of its entries. -/
def values (t : Table K V) : List V := t.entries.map fun e => e.2

/-- Does some entry of the table satisfy `f`? -/
def any (t : Table K V) (f : K → V → Bool) : Bool := t.entries.any fun e => f e.1 e.2

/-- Keep the entries that satisfy `f`. -/
def retain (t : Table K V) (f : K → V → Bool) : Table K V where
  entries := t.entries.filter fun e => f e.1 e.2
  nodupKeys := List.NodupKeys.sublist List.filter_sublist t.nodupKeys

theorem mem_entries_iff {t : Table K V} {k : K} {v : V} :
    (⟨k, v⟩ : Sigma fun _ : K => V) ∈ t.entries ↔ t.lookup k = some v :=
  AList.mem_lookup_iff.symm

theorem mem_values_iff {t : Table K V} {v : V} :
    v ∈ t.values ↔ ∃ k, t.lookup k = some v := by
  constructor
  · intro h
    obtain ⟨⟨k, w⟩, he, rfl⟩ := List.mem_map.1 h
    exact ⟨k, mem_entries_iff.1 he⟩
  · rintro ⟨k, h⟩
    exact List.mem_map.2 ⟨⟨k, v⟩, mem_entries_iff.2 h, rfl⟩

theorem any_eq_true_iff {t : Table K V} {f : K → V → Bool} :
    t.any f = true ↔ ∃ k v, t.lookup k = some v ∧ f k v = true := by
  rw [any, List.any_eq_true]
  constructor
  · rintro ⟨⟨k, v⟩, he, hf⟩
    exact ⟨k, v, mem_entries_iff.1 he, hf⟩
  · rintro ⟨k, v, h, hf⟩
    exact ⟨⟨k, v⟩, mem_entries_iff.2 h, hf⟩

/-- A lookup in a retained table is the old lookup, filtered. -/
theorem lookup_retain (t : Table K V) (f : K → V → Bool) (k : K) :
    (t.retain f).lookup k = (t.lookup k).filter (f k) := by
  refine Option.ext fun v => ?_
  rw [← mem_entries_iff, retain, List.mem_filter, mem_entries_iff, Option.filter_eq_some_iff]

/-- `UPDATE … WHERE`: change the values of the entries that satisfy `p`. -/
def updateWhere (t : Table K V) (p : K → V → Bool) (f : V → V) : Table K V where
  entries := t.entries.map fun e => ⟨e.1, if p e.1 e.2 then f e.2 else e.2⟩
  nodupKeys := by
    rw [List.NodupKeys, List.keys, List.map_map]
    exact t.nodupKeys

theorem lookup_updateWhere (t : Table K V) (p : K → V → Bool) (f : V → V) (k : K) :
    (t.updateWhere p f).lookup k = (t.lookup k).map fun v => if p k v then f v else v :=
  List.dlookup_map₂ (l := t.entries) (f := fun k v => if p k v then f v else v) k

theorem lookup_insert_eq (t : Table K V) (k : K) (v : V) (k' : K) :
    (t.insert k v).lookup k' = if k' = k then some v else t.lookup k' := by
  by_cases h : k' = k
  · subst h
    rw [AList.lookup_insert, if_pos rfl]
  · rw [AList.lookup_insert_ne h, if_neg h]

theorem lookup_erase_eq (t : Table K V) (k k' : K) :
    (t.erase k).lookup k' = if k' = k then none else t.lookup k' := by
  by_cases h : k' = k
  · subst h
    rw [AList.lookup_erase, if_pos rfl]
  · rw [AList.lookup_erase_ne h, if_neg h]

/-- Erasing a list of keys. -/
theorem lookup_foldl_erase (ks : List K) (t : Table K V) (k : K) :
    (ks.foldl (fun t k => t.erase k) t).lookup k = if k ∈ ks then none else t.lookup k := by
  induction ks generalizing t with
  | nil => simp
  | cons x ks ih =>
    rw [List.foldl_cons, ih, lookup_erase_eq]
    by_cases hx : k = x
    · simp [hx]
    · simp [hx]

/-- Inserting a list of entries with distinct keys, in any order. -/
theorem lookup_foldl_insert {A : Type} (key : A → K) (val : A → V) (as : List A)
    (h : as.Pairwise fun a b => key a ≠ key b) (t : Table K V) (k : K) (v : V) :
    (as.foldl (fun t a => t.insert (key a) (val a)) t).lookup k = some v ↔
      (∃ a ∈ as, key a = k ∧ val a = v) ∨ ((∀ a ∈ as, key a ≠ k) ∧ t.lookup k = some v) := by
  induction as generalizing t with
  | nil => simp
  | cons a as ih =>
    obtain ⟨ha, has⟩ := List.pairwise_cons.1 h
    rw [List.foldl_cons, ih has, lookup_insert_eq]
    by_cases hk : key a = k
    · -- the key of `a` is not inserted again, so its value is what is found
      have hnone : ∀ b ∈ as, key b ≠ k := fun b hb h => ha b hb (hk.trans h.symm)
      simp only [hk, if_pos, Option.some.injEq, List.mem_cons, exists_eq_or_imp, true_and,
        forall_eq_or_imp, ne_eq, not_true_eq_false, false_and, or_false]
      constructor
      · rintro (⟨b, hb, hbk, -⟩ | ⟨-, hv⟩)
        · exact absurd hbk (hnone b hb)
        · exact Or.inl hv
      · rintro (hv | ⟨b, hb, hbk, -⟩)
        · exact Or.inr ⟨hnone, hv⟩
        · exact absurd hbk (hnone b hb)
    · have hk' : ¬ k = key a := fun h => hk h.symm
      simp [hk, hk']

/-! ## A table shown by another -/

section Shows

variable {W : Type} {f : K → W → V} {t : Table K V} {s : Table K W}

/-- `t` is what `s` shows through `f`: the same keys, each value seen through `f`. -/
def Shows (f : K → W → V) (t : Table K V) (s : Table K W) : Prop :=
  ∀ k, t.lookup k = (s.lookup k).map (f k)

theorem Shows.empty : Shows f (∅ : Table K V) (∅ : Table K W) := fun _ => rfl

theorem Shows.insert (h : Shows f t s) {k : K} {v : V} {w : W} (hv : v = f k w) :
    Shows f (t.insert k v) (s.insert k w) := by
  intro k'
  rw [lookup_insert_eq, lookup_insert_eq]
  by_cases hk : k' = k
  · subst hk
    simp [hv]
  · rw [if_neg hk, if_neg hk, h k']

theorem Shows.erase (h : Shows f t s) (k : K) : Shows f (t.erase k) (s.erase k) := by
  intro k'
  rw [lookup_erase_eq, lookup_erase_eq]
  by_cases hk : k' = k
  · simp [hk]
  · rw [if_neg hk, if_neg hk, h k']

theorem Shows.retain (h : Shows f t s) {p : K → V → Bool} {q : K → W → Bool}
    (hpq : ∀ k w, p k (f k w) = q k w) : Shows f (t.retain p) (s.retain q) := by
  intro k
  rw [lookup_retain, lookup_retain, h k]
  cases s.lookup k with
  | none => rfl
  | some w => cases hq : q k w <;> simp [Option.filter, hpq, hq]

/-- The entries of the one are the entries of the other seen through `f`, in some order. -/
theorem Shows.entries_perm (h : Shows f t s) :
    t.entries.Perm (s.entries.map fun e => ⟨e.1, f e.1 e.2⟩) := by
  have hkeys : (s.entries.map fun e => (⟨e.1, f e.1 e.2⟩ : Sigma fun _ : K => V)).NodupKeys := by
    rw [List.NodupKeys, List.keys, List.map_map]
    exact s.nodupKeys
  refine List.lookup_ext t.nodupKeys hkeys fun k v => ?_
  have hlookup : List.dlookup k (s.entries.map fun e => (⟨e.1, f e.1 e.2⟩ : Sigma fun _ : K => V)) =
      (s.lookup k).map (f k) := List.dlookup_map₂ k
  have hk : List.dlookup k t.entries = (s.lookup k).map (f k) := h k
  rw [hlookup, hk]

/-- Tables with the same lookups have the same entries, up to their order. -/
theorem Shows.entries_perm_self {t t' : Table K V} (h : Shows (fun _ v => v) t t') :
    t.entries.Perm t'.entries := by
  simpa using h.entries_perm

theorem Shows.lookup_eq {t t' : Table K V} (h : Shows (fun _ v => v) t t') (k : K) :
    t.lookup k = t'.lookup k := by
  simpa using h k

end Shows

/-! ## Counting values -/

/-- The values are that of a key and those that erasing it leaves. -/
theorem values_perm_erase {t : Table K V} {k : K} {v : V} (h : t.lookup k = some v) :
    t.values.Perm (v :: Table.values (t.erase k)) := by
  have hsame : Shows (fun _ v => v) t (t.insert k v) := by
    intro k'
    rw [lookup_insert_eq, Option.map_id']
    split
    · next heq => rw [heq, h]
    · rfl
  exact hsame.entries_perm_self.map fun e => e.2

theorem erase_of_lookup_eq_none {t : Table K V} {k : K} (h : t.lookup k = none) : t.erase k = t :=
  AList.ext (List.kerase_of_notMem_keys (AList.lookup_eq_none.1 h))

end Table
