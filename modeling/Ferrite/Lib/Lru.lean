import Mathlib.Data.List.Basic
import Mathlib.Data.List.Nodup

/-!
# A bounded cache with least-recently-used eviction

The contract of an LRU map, as a list of entries with the most recently used
first.  That the keys are distinct, that the capacity is positive and that it is
respected are fields, so every cache that can be built has them.

An operation is described by what it leaves among the entries (`mem_of_mem_get`,
`mem_of_mem_put`, `mem_pop_iff`); the order only matters for what `put` evicts.
-/

/-- A cache of at most `cap` entries, most recently used first. -/
structure Lru (K V : Type) where
  cap : ℕ
  entries : List (K × V)
  cap_pos : 0 < cap
  nodup : (entries.map Prod.fst).Nodup
  bounded : entries.length ≤ cap

namespace Lru

variable {K V : Type} [DecidableEq K]

/-- An empty cache; a capacity of zero is read as one. -/
def empty (cap : ℕ) : Lru K V where
  cap := max cap 1
  entries := []
  cap_pos := by omega
  nodup := List.nodup_nil
  bounded := by simp

/-- The entries of other keys. -/
def others (c : Lru K V) (k : K) : List (K × V) := c.entries.filter fun e => e.1 ≠ k

/-- What is cached under `k`; nothing is promoted. -/
def peek (c : Lru K V) (k : K) : Option V := c.entries.lookup k

theorem nodup_others (c : Lru K V) (k : K) : ((c.others k).map Prod.fst).Nodup :=
  c.nodup.sublist (List.filter_sublist.map _)

theorem key_notMem_others (c : Lru K V) (k : K) : k ∉ (c.others k).map Prod.fst := by
  simp [others]

theorem nodup_cons_others (c : Lru K V) (k : K) (v : V) :
    (((k, v) :: c.others k).map Prod.fst).Nodup :=
  List.nodup_cons.2 ⟨c.key_notMem_others k, c.nodup_others k⟩

theorem mem_others_iff {c : Lru K V} {k : K} {e : K × V} :
    e ∈ c.others k ↔ e ∈ c.entries ∧ e.1 ≠ k := by
  simp [others]

theorem peek_eq_some_iff {c : Lru K V} {k : K} {v : V} :
    c.peek k = some v ↔ (k, v) ∈ c.entries := by
  have key : ∀ es : List (K × V), (es.map Prod.fst).Nodup →
      (es.lookup k = some v ↔ (k, v) ∈ es) := by
    intro es hes
    induction es with
    | nil => simp
    | cons e es ih =>
      obtain ⟨k', v'⟩ := e
      obtain ⟨hk', hes⟩ := List.nodup_cons.1 hes
      by_cases hk : k = k'
      · subst hk
        have hnot : (k, v) ∉ es := fun h => hk' (List.mem_map.2 ⟨_, h, rfl⟩)
        simp [hnot, eq_comm]
      · have hbeq : (k == k') = false := beq_false_of_ne hk
        simp [List.lookup_cons, hbeq, ih hes, hk]
  exact key c.entries c.nodup

/-- Take the entry of `k` out. -/
def pop (c : Lru K V) (k : K) : Lru K V where
  cap := c.cap
  entries := c.others k
  cap_pos := c.cap_pos
  nodup := c.nodup_others k
  bounded := Nat.le_trans (List.length_filter_le ..) c.bounded

/-- Put a value in front; the least recently used entry goes when the cache is full. -/
def put (c : Lru K V) (k : K) (v : V) : Lru K V where
  cap := c.cap
  entries := ((k, v) :: c.others k).take c.cap
  cap_pos := c.cap_pos
  nodup := (c.nodup_cons_others k v).sublist ((List.take_sublist ..).map _)
  bounded := List.length_take_le ..

/-- What putting `k` displaces: its old value, or the entry that goes when the cache
is full. -/
def displaced (c : Lru K V) (k : K) : Option (K × V) :=
  match c.peek k with
  | some v => some (k, v)
  | none => if c.entries.length = c.cap then c.entries.getLast? else none

/-- Drop the least recently used entry. -/
def popLru (c : Lru K V) : Lru K V where
  cap := c.cap
  entries := c.entries.dropLast
  cap_pos := c.cap_pos
  nodup := c.nodup.sublist ((List.dropLast_sublist _).map _)
  bounded := by
    have := c.bounded
    rw [List.length_dropLast]
    omega

/-- Look `k` up; a hit becomes the most recently used entry. -/
def get (c : Lru K V) (k : K) : Option V × Lru K V :=
  match c.peek k with
  | some v => (some v, c.put k v)
  | none => (none, c)

/-- Drop everything. -/
def clear (c : Lru K V) : Lru K V where
  cap := c.cap
  entries := []
  cap_pos := c.cap_pos
  nodup := List.nodup_nil
  bounded := by simp

/-- Change the capacity; shrinking drops the least recently used entries. -/
def resize (c : Lru K V) (cap : ℕ) : Lru K V where
  cap := max cap 1
  entries := c.entries.take (max cap 1)
  cap_pos := by omega
  nodup := c.nodup.sublist ((List.take_sublist ..).map _)
  bounded := List.length_take_le ..

omit [DecidableEq K] in
@[simp] theorem entries_clear (c : Lru K V) : c.clear.entries = [] := rfl

omit [DecidableEq K] in
@[simp] theorem entries_empty (cap : ℕ) : (empty cap : Lru K V).entries = [] := rfl

theorem mem_pop_iff {c : Lru K V} {k : K} {e : K × V} :
    e ∈ (c.pop k).entries ↔ e ∈ c.entries ∧ e.1 ≠ k := mem_others_iff

theorem mem_of_mem_put {c : Lru K V} {k : K} {v : V} {e : K × V} (h : e ∈ (c.put k v).entries) :
    e = (k, v) ∨ (e ∈ c.entries ∧ e.1 ≠ k) := by
  rcases List.mem_cons.1 (List.mem_of_mem_take h) with h | h
  · exact Or.inl h
  · exact Or.inr (mem_others_iff.1 h)

/-- What is put is there: the capacity is positive. -/
theorem mem_put_self (c : Lru K V) (k : K) (v : V) : (k, v) ∈ (c.put k v).entries := by
  have htake : (k, v) ∈ ((k, v) :: c.others k).take c.cap :=
    List.mem_take_iff_getElem.2 ⟨0, by have := c.cap_pos; simp; omega, rfl⟩
  exact htake

omit [DecidableEq K] in
theorem mem_of_mem_popLru {c : Lru K V} {e : K × V} (h : e ∈ c.popLru.entries) : e ∈ c.entries :=
  (List.dropLast_sublist _).subset h

omit [DecidableEq K] in
theorem mem_of_mem_resize {c : Lru K V} {cap : ℕ} {e : K × V} (h : e ∈ (c.resize cap).entries) :
    e ∈ c.entries := List.mem_of_mem_take h

theorem mem_of_mem_get {c : Lru K V} {k : K} {e : K × V} (h : e ∈ (c.get k).2.entries) :
    e ∈ c.entries := by
  unfold get at h
  split at h
  · rename_i v hv
    rcases mem_of_mem_put h with rfl | h
    · exact peek_eq_some_iff.1 hv
    · exact h.1
  · exact h

/-- An entry and the entries of other keys are all there is. -/
theorem perm_cons_others {c : Lru K V} {k : K} {v : V} (h : c.peek k = some v) :
    c.entries.Perm ((k, v) :: c.others k) := by
  have hnodup : c.entries.Nodup := List.Nodup.of_map _ c.nodup
  have hcons : ((k, v) :: c.others k).Nodup := List.Nodup.of_map _ (c.nodup_cons_others k v)
  refine (List.perm_ext_iff_of_nodup hnodup hcons).2 fun e => ?_
  rw [List.mem_cons, mem_others_iff]
  constructor
  · intro he
    by_cases hk : e.1 = k
    · obtain ⟨k', v'⟩ := e
      cases hk
      have hpeek := peek_eq_some_iff.2 he
      rw [h] at hpeek
      exact Or.inl (by rw [Option.some.inj hpeek])
    · exact Or.inr ⟨he, hk⟩
  · rintro (rfl | he)
    · exact peek_eq_some_iff.1 h
    · exact he.1

theorem others_eq_entries {c : Lru K V} {k : K} (h : c.peek k = none) :
    c.others k = c.entries := by
  refine List.filter_eq_self.2 fun e he => ?_
  rw [decide_eq_true_eq]
  rintro rfl
  have hpeek : c.peek e.1 = some e.2 := peek_eq_some_iff.2 he
  rw [h] at hpeek
  cases hpeek

omit [DecidableEq K] in
theorem perm_cons_popLru {c : Lru K V} {e : K × V} (h : c.entries.getLast? = some e) :
    c.entries.Perm (e :: c.popLru.entries) := by
  have hsplit : c.entries.dropLast ++ [e] = c.entries := List.dropLast_append_getLast? e h
  have hperm : (c.entries.dropLast ++ [e]).Perm (e :: c.entries.dropLast) :=
    List.perm_append_comm
  rw [hsplit] at hperm
  exact hperm

theorem entries_put (c : Lru K V) (k : K) (v : V) :
    (c.put k v).entries = ((k, v) :: c.others k).take c.cap := rfl

/-- **The contract of a push**: what was there and what is put in is what stays and what
is displaced. -/
theorem perm_put (c : Lru K V) (k : K) (v : V) :
    ((k, v) :: c.entries).Perm ((c.displaced k).toList ++ (c.put k v).entries) := by
  rw [entries_put]
  unfold displaced
  cases hpeek : c.peek k with
  | some old =>
    have hperm := perm_cons_others hpeek
    have hlen : (c.others k).length + 1 = c.entries.length := hperm.length_eq.symm
    have hbound := c.bounded
    rw [List.take_of_length_le (by simp only [List.length_cons]; omega)]
    exact (hperm.cons (k, v)).trans (List.Perm.swap ..)
  | none =>
    simp only
    rw [others_eq_entries hpeek]
    by_cases hfull : c.entries.length = c.cap
    · have hpos := c.cap_pos
      obtain ⟨n, hn⟩ : ∃ n, c.cap = n + 1 := ⟨c.cap - 1, by omega⟩
      have hne : c.entries ≠ [] := by
        intro hnil
        rw [hnil, List.length_nil] at hfull
        omega
      have htake : c.entries.take n = c.entries.dropLast := by
        rw [List.dropLast_eq_take, hfull, hn, Nat.add_sub_cancel]
      have hlast : c.entries.getLast? = some (c.entries.getLast hne) :=
        List.getLast?_eq_some_getLast hne
      rw [if_pos hfull, hn, List.take_succ_cons, htake, hlast]
      exact ((perm_cons_popLru hlast).cons (k, v)).trans (List.Perm.swap ..)
    · have hbound := c.bounded
      rw [if_neg hfull, List.take_of_length_le (by simp only [List.length_cons]; omega)]
      exact List.Perm.refl _

theorem get_fst (c : Lru K V) (k : K) : (c.get k).1 = c.peek k := by
  unfold get
  cases h : c.peek k with
  | none => rfl
  | some v => rfl

end Lru
