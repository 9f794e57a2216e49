import Mathlib.Data.List.MinMax
import Mathlib.Data.Finset.Card
import Ferrite.Lib.Table

/-!
# A bounded cache whose entries expire

Each entry has an instant from which it counts for nothing.  A read that meets such an entry
takes it out; a write to a full cache first drops every entry that has expired, and then the one
that expires soonest, again and again until there is room.

The cache is compared with the log of everything ever put into it.

* `Remembers` — an entry is the latest of its key in the log; every operation keeps it;
* `KeepsLive` — what is latest in the log and has not expired is there, as long as no write
  meets a full cache;
* `length_put_le`, `expires_le_of_dropped` — the bound, and what is given up for it.
-/

namespace Expiring

structure Entry (V : Type) where
  value : V
  expires : ℕ
deriving DecidableEq, Repr

abbrev Cache (K V : Type) := Table K (Entry V)

variable {K V N : Type} [DecidableEq K] {c : Cache K V} {k : K} {e : Entry V}

/-- Read a key; an entry that has expired is taken out. -/
def get (c : Cache K V) (k : K) (now : ℕ) : Option V × Cache K V :=
  match c.lookup k with
  | some e => if now < e.expires then (some e.value, c) else (none, c.erase k)
  | none => (none, c)

/-- The key that expires soonest; of several the first in the order of the entries, and nothing
below depends on which. -/
def soonest (c : Cache K V) : Option K :=
  (c.entries.argmin fun e => e.2.expires).map Sigma.fst

/-- Drop what expires soonest until there is room, at most `n` times. -/
def shrink (cap : ℕ) : (n : ℕ) → Cache K V → Cache K V
  | 0, c => c
  | n + 1, c =>
    if cap ≤ c.entries.length then
      match soonest c with
      | some k => shrink cap n (c.erase k)
      | none => c
    else c

/-- Make room for one more. -/
def makeRoom (cap : ℕ) (c : Cache K V) (now : ℕ) : Cache K V :=
  if cap ≤ c.entries.length then
    let live := c.retain fun _ e => now < e.expires
    shrink cap live.entries.length live
  else c

/-- Write a key: room is made at one instant, and the entry lives from another one on. -/
def put (cap : ℕ) (c : Cache K V) (k : K) (v : V) (now start ttl : ℕ) : Cache K V :=
  (makeRoom cap c now).insert k ⟨v, start + ttl⟩

/-! ## What the operations leave -/

theorem lookup_of_lookup_get {now : ℕ} {k' : K}
    (h : (get c k now).2.lookup k' = some e) : c.lookup k' = some e := by
  unfold get at h
  split at h
  · split at h
    · exact h
    · rw [Table.lookup_erase_eq] at h
      split at h
      · cases h
      · exact h
  · exact h

/-- A read takes out nothing that is live. -/
theorem lookup_get_of_live {now : ℕ} {k' : K} (h : c.lookup k' = some e) (hlive : now < e.expires) :
    (get c k now).2.lookup k' = some e := by
  unfold get
  split
  · rename_i e' he'
    split
    · exact h
    · rename_i hexpired
      have hk : k' ≠ k := by
        rintro rfl
        rw [h] at he'
        cases he'
        exact hexpired hlive
      rw [Table.lookup_erase_eq, if_neg hk]
      exact h
  · exact h

theorem get_eq_some_iff {now : ℕ} {v : V} :
    (get c k now).1 = some v ↔ ∃ e, c.lookup k = some e ∧ now < e.expires ∧ e.value = v := by
  unfold get
  cases hk : c.lookup k with
  | none => simp
  | some e =>
    by_cases h : now < e.expires <;> simp [h]

theorem length_erase_le (c : Cache K V) (k : K) :
    (c.erase k).entries.length ≤ c.entries.length :=
  (List.kerase_sublist k c.entries).length_le

theorem length_get_le (c : Cache K V) (k : K) (now : ℕ) :
    (get c k now).2.entries.length ≤ c.entries.length := by
  unfold get
  split
  · split
    · exact le_rfl
    · exact length_erase_le c k
  · exact le_rfl

theorem lookup_of_soonest {k : K} (h : soonest c = some k) : ∃ e, c.lookup k = some e ∧
    ∀ k' e', c.lookup k' = some e' → e.expires ≤ e'.expires := by
  obtain ⟨⟨k₀, e⟩, he, rfl⟩ := Option.map_eq_some_iff.1 h
  refine ⟨e, Table.mem_entries_iff.1 (List.argmin_mem he), fun k' e' h' => ?_⟩
  exact List.le_of_mem_argmin (f := fun e => e.2.expires) (Table.mem_entries_iff.2 h') he

omit [DecidableEq K] in
theorem soonest_eq_none_iff : soonest c = none ↔ c.entries = [] := by
  rw [soonest, Option.map_eq_none_iff, List.argmin_eq_none]

theorem length_erase_of_lookup {c : Cache K V} {k : K} {e : Entry V} (h : c.lookup k = some e) :
    (c.erase k).entries.length + 1 = c.entries.length := by
  have hperm := (Table.values_perm_erase h).length_eq
  simp only [Table.values, List.length_map, List.length_cons] at hperm
  exact hperm.symm

/-- Dropping as often as there are entries makes room. -/
theorem length_shrink_lt {cap n : ℕ} (hcap : 0 < cap) (h : c.entries.length ≤ n) :
    (shrink cap n c).entries.length < cap := by
  induction n generalizing c with
  | zero =>
    show c.entries.length < cap
    omega
  | succ n ih =>
    rw [shrink]
    split
    · rename_i hfull
      split
      · rename_i k hk
        obtain ⟨e, he, -⟩ := lookup_of_soonest hk
        have := length_erase_of_lookup he
        exact ih (by omega)
      · rename_i hnone
        rw [soonest_eq_none_iff.1 hnone] at hfull
        simp at hfull
        omega
    · omega

theorem length_makeRoom_lt {cap now : ℕ} (hcap : 0 < cap) :
    (makeRoom cap c now).entries.length < cap := by
  unfold makeRoom
  split
  · exact length_shrink_lt hcap le_rfl
  · omega

theorem lookup_of_lookup_shrink {cap n : ℕ} (h : (shrink cap n c).lookup k = some e) :
    c.lookup k = some e := by
  induction n generalizing c with
  | zero => exact h
  | succ n ih =>
    rw [shrink] at h
    split at h
    · split at h
      · have := ih h
        rw [Table.lookup_erase_eq] at this
        split at this
        · cases this
        · exact this
      · exact h
    · exact h

theorem lookup_of_lookup_makeRoom {cap now : ℕ} (h : (makeRoom cap c now).lookup k = some e) :
    c.lookup k = some e := by
  unfold makeRoom at h
  split at h
  · have hlive := lookup_of_lookup_shrink h
    rw [Table.lookup_retain, Option.filter_eq_some_iff] at hlive
    exact hlive.1
  · exact h

theorem lookup_put {cap now start ttl : ℕ} {v : V} {k' : K}
    (h : (put cap c k v now start ttl).lookup k' = some e) :
    (k' = k ∧ e = ⟨v, start + ttl⟩) ∨ (k' ≠ k ∧ c.lookup k' = some e) := by
  rw [put, Table.lookup_insert_eq] at h
  split at h
  · rename_i hk
    exact Or.inl ⟨hk, (Option.some.inj h).symm⟩
  · rename_i hk
    exact Or.inr ⟨hk, lookup_of_lookup_makeRoom h⟩

theorem length_insert_le (c : Cache K V) (k : K) (e : Entry V) :
    (c.insert k e).entries.length ≤ c.entries.length + 1 := by
  rw [AList.entries_insert, List.length_cons]
  exact Nat.succ_le_succ (List.kerase_sublist k c.entries).length_le

/-- **The bound.**  Whatever was there, a write leaves at most `cap` entries. -/
theorem length_put_le {cap : ℕ} (hcap : 0 < cap) (c : Cache K V) (k : K) (v : V)
    (now start ttl : ℕ) : (put cap c k v now start ttl).entries.length ≤ cap := by
  have hinsert := length_insert_le (makeRoom cap c now) k ⟨v, start + ttl⟩
  have hroom : (makeRoom cap c now).entries.length < cap := length_makeRoom_lt hcap
  rw [put]
  omega

/-! ## What is given up for room -/

/-- What `shrink` drops expires no later than what it keeps, and it stops as soon as there is
room. -/
theorem expires_le_of_shrink {cap n : ℕ} (h : c.lookup k = some e)
    (hgone : (shrink cap n c).lookup k = none) :
    cap ≤ c.entries.length ∧ ∀ k' e', (shrink cap n c).lookup k' = some e' →
      e.expires ≤ e'.expires := by
  induction n generalizing c with
  | zero =>
    rw [shrink, h] at hgone
    cases hgone
  | succ n ih =>
    rw [shrink] at hgone ⊢
    split at hgone
    · rename_i hfull
      rw [if_pos hfull]
      split at hgone
      · rename_i k₀ hk₀
        obtain ⟨e₀, he₀, hleast⟩ := lookup_of_soonest hk₀
        refine ⟨hfull, fun k' e' h' => ?_⟩
        by_cases hk : k = k₀
        · -- the one dropped first: the others were no sooner
          subst hk
          rw [h] at he₀
          cases he₀
          have := lookup_of_lookup_shrink h'
          rw [Table.lookup_erase_eq] at this
          split at this
          · cases this
          · exact hleast k' e' this
        · have herase : (c.erase k₀).lookup k = some e := by
            rw [Table.lookup_erase_eq, if_neg hk, h]
          exact (ih herase hgone).2 k' e' h'
      · rw [h] at hgone
        cases hgone
    · rw [h] at hgone
      cases hgone

/-- **What is given up.**  A live entry that a write drops was one of at least `cap` live ones,
and no entry of before that stays expires sooner. -/
theorem expires_le_of_dropped {cap now start ttl : ℕ} {v : V} {k' : K} (hk : k' ≠ k)
    (h : c.lookup k' = some e) (hlive : now < e.expires)
    (hgone : (put cap c k v now start ttl).lookup k' = none) :
    cap ≤ (c.retain fun _ e => now < e.expires).entries.length ∧
      ∀ k₁ e₁, k₁ ≠ k → (put cap c k v now start ttl).lookup k₁ = some e₁ →
        e.expires ≤ e₁.expires := by
  rw [put, Table.lookup_insert_eq, if_neg hk, makeRoom] at hgone
  have hretain : (c.retain fun _ e => now < e.expires).lookup k' = some e := by
    rw [Table.lookup_retain, h, Option.filter_some, if_pos (by simpa using hlive)]
  split at hgone
  · rename_i hfull
    obtain ⟨hcap, hleast⟩ := expires_le_of_shrink hretain hgone
    refine ⟨hcap, fun k₁ e₁ hk₁ h₁ => hleast k₁ e₁ ?_⟩
    rw [put, Table.lookup_insert_eq, if_neg hk₁, makeRoom, if_pos hfull] at h₁
    exact h₁
  · rw [h] at hgone
    cases hgone

/-! ## The log -/

/-- A write, and whatever else is known of it. -/
structure Put (K V N : Type) where
  key : K
  value : V
  start : ℕ
  ttl : ℕ
  note : N

def Put.entry (p : Put K V N) : Entry V := ⟨p.value, p.start + p.ttl⟩

/-- The latest write to a key; the log has the latest first. -/
def latest (log : List (Put K V N)) (k : K) : Option (Put K V N) := log.find? fun p => p.key = k

theorem latest_cons (p : Put K V N) (log : List (Put K V N)) (k : K) :
    latest (p :: log) k = if p.key = k then some p else latest log k := by
  rw [latest, List.find?_cons]
  by_cases h : p.key = k <;> simp [h, latest]

theorem mem_of_latest {log : List (Put K V N)} {p : Put K V N} (h : latest log k = some p) :
    p ∈ log ∧ p.key = k :=
  ⟨List.mem_of_find?_eq_some h, by simpa using List.find?_some h⟩

variable {log : List (Put K V N)} {p : Put K V N}

/-- Every entry is the latest write to its key. -/
def Remembers (c : Cache K V) (log : List (Put K V N)) : Prop :=
  ∀ k e, c.lookup k = some e → ∃ p, latest log k = some p ∧ e = p.entry

namespace Remembers

theorem empty : Remembers (∅ : Cache K V) ([] : List (Put K V N)) := by
  intro k e h
  rw [AList.lookup_empty] at h
  cases h

theorem get (h : Remembers c log) (k : K) (now : ℕ) : Remembers (Expiring.get c k now).2 log :=
  fun k' e' h' => h k' e' (lookup_of_lookup_get h')

theorem put (h : Remembers c log) (cap now : ℕ) (p : Put K V N) :
    Remembers (Expiring.put cap c p.key p.value now p.start p.ttl) (p :: log) := by
  intro k e he
  rw [latest_cons]
  obtain ⟨rfl, rfl⟩ | ⟨hk, he⟩ := lookup_put he
  · exact ⟨p, if_pos rfl, rfl⟩
  · rw [if_neg (Ne.symm hk)]
    exact h k e he

/-- What is read is the latest write, and it has not expired. -/
theorem hit (h : Remembers c log) {now : ℕ} {v : V} (hget : (Expiring.get c k now).1 = some v) :
    ∃ p, latest log k = some p ∧ p.value = v ∧ now < p.start + p.ttl := by
  obtain ⟨e, he, hlive, rfl⟩ := get_eq_some_iff.1 hget
  obtain ⟨p, hp, rfl⟩ := h k e he
  exact ⟨p, hp, rfl, hlive⟩

/-- There are no more entries than keys ever written. -/
theorem length_le (h : Remembers c log) :
    c.entries.length ≤ (log.map Put.key).toFinset.card := by
  have hsub : c.keys ⊆ (log.map Put.key).toFinset.toList := by
    intro k hk
    obtain ⟨e, he⟩ := Option.isSome_iff_exists.1 (AList.lookup_isSome.2 hk)
    obtain ⟨p, hp, -⟩ := h k e he
    rw [Finset.mem_toList, List.mem_toFinset, List.mem_map]
    exact ⟨p, mem_of_latest hp⟩
  have hlen := (c.keys_nodup.subperm hsub).length_le
  rwa [Finset.length_toList, AList.keys, List.keys, List.length_map] at hlen

end Remembers

/-- What is latest and not expired by now is there. -/
def KeepsLive (c : Cache K V) (log : List (Put K V N)) (now : ℕ) : Prop :=
  ∀ k p, latest log k = some p → now < p.start + p.ttl → c.lookup k = some p.entry

namespace KeepsLive

theorem empty (now : ℕ) : KeepsLive (∅ : Cache K V) ([] : List (Put K V N)) now := by
  intro k p h
  cases h

theorem later {now now' : ℕ} (h : KeepsLive c log now) (hle : now ≤ now') :
    KeepsLive c log now' :=
  fun k p hp hlive => h k p hp (by omega)

theorem get {now : ℕ} (h : KeepsLive c log now) (k : K) :
    KeepsLive (Expiring.get c k now).2 log now :=
  fun k' p hp hlive => lookup_get_of_live (h k' p hp hlive) hlive

/-- A write to a cache that is not full. -/
theorem put {cap now now' : ℕ} (h : KeepsLive c log now) (hroom : c.entries.length < cap)
    (p : Put K V N) :
    KeepsLive (Expiring.put cap c p.key p.value now' p.start p.ttl) (p :: log) now := by
  intro k q hq hlive
  rw [latest_cons] at hq
  rw [Expiring.put, Table.lookup_insert_eq, makeRoom, if_neg (Nat.not_le.2 hroom)]
  by_cases hk : p.key = k
  · rw [if_pos hk] at hq
    rw [if_pos hk.symm, ← Option.some.inj hq]
    rfl
  · rw [if_neg hk] at hq
    rw [if_neg (Ne.symm hk)]
    exact h k q hq hlive

/-- A key with a live write is read. -/
theorem hit {now : ℕ} (h : KeepsLive c log now) (hp : latest log k = some p)
    (hlive : now < p.start + p.ttl) : (Expiring.get c k now).1 = some p.value :=
  get_eq_some_iff.2 ⟨p.entry, h k p hp hlive, hlive, rfl⟩

end KeepsLive

end Expiring
