import Ferrite.Lib.Lts
import Ferrite.Lib.Table

/-!
# Threads over a shared state

Operations run by any number of threads are modelled by a shared state and a table of
the threads in flight, each at a place of its code.  An action starts an operation or
takes one thread one step further; a step that is not enabled (a lock that is held) is
no step.  `step` is a step function in the sense of `Lts`.

`step_cases` says once what an action can do, `lookup_put_iff` who is in flight after it
and `countP_put` how many; invariants are proved from the three.
-/

namespace Threads

open Lts

/-- The shared state, and where each thread in flight is. -/
structure System (S P : Type) where
  shared : S
  threads : Table ℕ P

/-- A thread starts an operation, or goes one step on. -/
inductive Action (O : Type) where
  | start (t : ℕ) (op : O)
  | run (t : ℕ)
deriving DecidableEq

variable {S P O : Type}

/-- The thread is now at the given place, or done. -/
def put (threads : Table ℕ P) (t : ℕ) : Option P → Table ℕ P
  | none => threads.erase t
  | some p => threads.insert t p

theorem lookup_put_iff {threads : Table ℕ P} {t u : ℕ} {p : Option P} {q : P} :
    (put threads t p).lookup u = some q ↔
      (u = t ∧ p = some q) ∨ (u ≠ t ∧ threads.lookup u = some q) := by
  cases p with
  | none =>
    rw [put, Table.lookup_erase_eq]
    by_cases h : u = t <;> simp [h]
  | some p =>
    rw [put, Table.lookup_insert_eq]
    by_cases h : u = t <;> simp [h]

/-- Of the places a count looks for, `put` takes the old one of its thread away and adds the
new one. -/
theorem countP_put (q : P → Bool) (threads : Table ℕ P) (t : ℕ) (p : Option P) :
    (put threads t p).values.countP q + (threads.lookup t).toList.countP q =
      threads.values.countP q + p.toList.countP q := by
  have hold : threads.values.countP q =
      (threads.lookup t).toList.countP q + (Table.values (threads.erase t)).countP q := by
    cases h : threads.lookup t with
    | none => simp [Table.erase_of_lookup_eq_none h]
    | some p₀ =>
      rw [(Table.values_perm_erase h).countP_eq q, List.countP_cons]
      simp [List.countP_cons, Nat.add_comm]
  have hnew : (put threads t p).values.countP q =
      p.toList.countP q + (Table.values (threads.erase t)).countP q := by
    cases p with
    | none => simp [put]
    | some p =>
      show (p :: Table.values (threads.erase t)).countP q = _
      rw [List.countP_cons]
      simp [List.countP_cons, Nat.add_comm]
  omega

/-- A thread that ends is in flight no more. -/
theorem keys_put_none {threads : Table ℕ P} {t : ℕ} {p : P} (h : threads.lookup t = some p)
    (u : ℕ) : (put threads t none).keys.count u + [t].count u = threads.keys.count u := by
  have hmem : t ∈ threads.keys := AList.mem_keys.1 (AList.lookup_isSome.1 (by rw [h]; rfl))
  rw [put, AList.keys_erase, ((List.perm_cons_erase hmem).count_eq u)]
  simp [List.count_cons]

/-- A thread that starts is in flight. -/
theorem keys_put_some {threads : Table ℕ P} {t : ℕ} (h : threads.lookup t = none) (p : P) (u : ℕ) :
    (put threads t (some p)).keys.count u = threads.keys.count u + [t].count u := by
  have hnot : t ∉ threads.keys := fun hmem => AList.lookup_eq_none.1 h (AList.mem_keys.2 hmem)
  rw [put, AList.keys_insert, List.erase_of_not_mem hnot]
  simp [List.count_cons]

/-- A thread that goes on is in flight as before. -/
theorem keys_put_of_lookup {threads : Table ℕ P} {t : ℕ} {p : P} (h : threads.lookup t = some p)
    (q : P) (u : ℕ) : (put threads t (some q)).keys.count u = threads.keys.count u := by
  have hmem : t ∈ threads.keys := AList.mem_keys.1 (AList.lookup_isSome.1 (by rw [h]; rfl))
  rw [put, AList.keys_insert, ((List.perm_cons_erase hmem).count_eq u)]

/-- How many are in flight, around a step of one. -/
theorem length_put (threads : Table ℕ P) (t : ℕ) (p : Option P) :
    (put threads t p).entries.length + (threads.lookup t).toList.length =
      threads.entries.length + p.toList.length := by
  have hlen (ts : Table ℕ P) : ts.values.countP (fun _ => true) = ts.entries.length := by
    rw [List.countP_true, Table.values, List.length_map]
  have h := countP_put (fun _ => true) threads t p
  rwa [hlen, hlen, List.countP_true] at h

/-- What every place in flight is to the shared state. -/
def Each (rel : S → P → Prop) (s : System S P) : Prop :=
  ∀ t p, s.threads.lookup t = some p → rel s.shared p

/-- A step keeps it when the thread's own new place has it, and the other threads' places still
have it. -/
theorem each_put {rel : S → P → Prop} {threads : Table ℕ P} {t : ℕ} {shared : S} {p' : Option P}
    (hothers : ∀ u q, u ≠ t → threads.lookup u = some q → rel shared q)
    (hown : ∀ q, p' = some q → rel shared q) : Each rel ⟨shared, put threads t p'⟩ := by
  intro u q hu
  obtain ⟨-, rfl⟩ | ⟨hne, hu⟩ := lookup_put_iff.1 hu
  · exact hown q rfl
  · exact hothers u q hne hu

/-- Nothing is in flight. -/
def Quiet (s : System S P) : Prop := ∀ t, s.threads.lookup t = none

section

variable (entry : O → P) (next : System S P → P → Option (S × Option P))

/-- One action: an operation starts at `entry`, a step of a thread goes by `next`. -/
def step (s : System S P) : Action O → Option (System S P)
  | .start t op =>
    if s.threads.lookup t = none then some ⟨s.shared, s.threads.insert t (entry op)⟩ else none
  | .run t =>
    match s.threads.lookup t with
    | none => none
    | some p => (next s p).map fun r => ⟨r.1, put s.threads t r.2⟩

/-- What an action does. -/
theorem step_cases {s s' : System S P} {a : Action O} (h : step entry next s a = some s') :
    (∃ t op, a = .start t op ∧ s.threads.lookup t = none ∧
      s' = ⟨s.shared, put s.threads t (some (entry op))⟩) ∨
    ∃ t p shared p', a = .run t ∧ s.threads.lookup t = some p ∧
      next s p = some (shared, p') ∧ s' = ⟨shared, put s.threads t p'⟩ := by
  cases a with
  | start t op =>
    simp only [step, Option.ite_none_right_eq_some] at h
    exact Or.inl ⟨t, op, rfl, h.1, (Option.some.inj h.2).symm⟩
  | run t =>
    simp only [step] at h
    split at h
    · cases h
    · rename_i p hp
      obtain ⟨⟨shared, p'⟩, hnext, rfl⟩ := Option.map_eq_some_iff.1 h
      exact Or.inr ⟨t, p, shared, p', rfl, hp, hnext, rfl⟩

end

end Threads
