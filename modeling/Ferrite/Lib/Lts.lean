import Mathlib.Data.List.Basic

/-!
# Interleavings: runs of a partial step function

Concurrent code is modelled by a partial step function `S → A → Option S`: the
state holds how far each operation has got, an action is one atomic step of one
operation, and `none` means that the action is not enabled there.  A list of
actions is then an interleaving, and `exec` is the state it leads to.

`inv_of_exec` is the rule the developments use: an invariant kept by every step
that meets a guard holds after every run whose steps all meet it.
-/

namespace Lts

variable {S A : Type} (step : S → A → Option S)

/-- The state after a list of actions, when each was enabled in its turn. -/
def exec (s : S) : List A → Option S
  | [] => some s
  | a :: as => (step s a).bind fun s' => exec s' as

/-- Every action of the run meets the guard in the state it is taken in. -/
def Guarded (guard : S → A → Prop) (s : S) : List A → Prop
  | [] => True
  | a :: as => guard s a ∧ ∀ s', step s a = some s' → Guarded guard s' as

theorem exec_cons_eq_some {s s' : S} {a : A} {as : List A} :
    exec step s (a :: as) = some s' ↔ ∃ t, step s a = some t ∧ exec step t as = some s' :=
  Option.bind_eq_some_iff

theorem exec_append (s : S) (as bs : List A) :
    exec step s (as ++ bs) = (exec step s as).bind fun t => exec step t bs := by
  induction as generalizing s with
  | nil => rfl
  | cons a as ih =>
    rw [List.cons_append, exec, exec, Option.bind_assoc]
    exact congrArg _ (funext ih)

/-- **Invariant rule.**  An invariant that every step meeting the guard keeps
holds after every run whose steps all meet the guard. -/
theorem inv_of_exec {inv : S → Prop} {guard : S → A → Prop}
    (hstep : ∀ s a s', guard s a → inv s → step s a = some s' → inv s')
    {s s' : S} {as : List A} (hs : inv s) (hg : Guarded step guard s as)
    (h : exec step s as = some s') : inv s' := by
  induction as generalizing s with
  | nil => exact Option.some.inj h ▸ hs
  | cons a as ih =>
    obtain ⟨t, ht, h⟩ := (exec_cons_eq_some step).1 h
    exact ih (hstep s a t hg.1 hs ht) (hg.2 t ht) h

/-- The rule for an invariant that every step keeps. -/
theorem inv_of_exec_all {inv : S → Prop} (hstep : ∀ s a s', inv s → step s a = some s' → inv s')
    {s s' : S} {as : List A} (hs : inv s) (h : exec step s as = some s') : inv s' := by
  induction as generalizing s with
  | nil => exact Option.some.inj h ▸ hs
  | cons a as ih =>
    obtain ⟨t, ht, h⟩ := (exec_cons_eq_some step).1 h
    exact ih (hstep s a t hs ht) h

/-- The rule for an invariant that every action of a kind keeps. -/
theorem inv_of_exec_of_mem {inv : S → Prop} {p : A → Prop}
    (hstep : ∀ s a s', p a → inv s → step s a = some s' → inv s')
    {s s' : S} {as : List A} (hs : inv s) (hp : ∀ a ∈ as, p a)
    (h : exec step s as = some s') : inv s' := by
  induction as generalizing s with
  | nil => exact Option.some.inj h ▸ hs
  | cons a as ih =>
    rw [List.forall_mem_cons] at hp
    obtain ⟨t, ht, h⟩ := (exec_cons_eq_some step).1 h
    exact ih (hstep s a t hp.1 hs ht) hp.2 h

/-- A guarded run is guarded up to any point and from there on. -/
theorem Guarded.of_append {guard : S → A → Prop} {s t : S} {as bs : List A}
    (hg : Guarded step guard s (as ++ bs)) (h : exec step s as = some t) :
    Guarded step guard s as ∧ Guarded step guard t bs := by
  induction as generalizing s with
  | nil => exact ⟨trivial, Option.some.inj h ▸ hg⟩
  | cons a as ih =>
    obtain ⟨s', hs', h⟩ := (exec_cons_eq_some step).1 h
    obtain ⟨has, hbs⟩ := ih (hg.2 s' hs') h
    refine ⟨⟨hg.1, fun s'' hs'' => ?_⟩, hbs⟩
    rw [hs'] at hs''
    cases hs''
    exact has

/-- What every action of a run meets may stand in its guard. -/
theorem Guarded.and_of_forall_mem {guard : S → A → Prop} {p : A → Prop} {s : S} {as : List A}
    (hg : Guarded step guard s as) (hp : ∀ a ∈ as, p a) :
    Guarded step (fun s a => guard s a ∧ p a) s as := by
  induction as generalizing s with
  | nil => trivial
  | cons a as ih =>
    rw [List.forall_mem_cons] at hp
    exact ⟨⟨hg.1, hp.1⟩, fun s' hs' => ih (hg.2 s' hs') hp.2⟩

instance Guarded.decidable (guard : S → A → Prop) [∀ s a, Decidable (guard s a)] :
    ∀ (s : S) (as : List A), Decidable (Guarded step guard s as)
  | _, [] => isTrue trivial
  | s, a :: as =>
    match h : step s a with
    | none => decidable_of_iff (guard s a) ⟨fun hg => ⟨hg, by simp [h]⟩, And.left⟩
    | some t =>
      have := Guarded.decidable guard t as
      decidable_of_iff (guard s a ∧ Guarded step guard t as) (by simp [Guarded, h])

end Lts
