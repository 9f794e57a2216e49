import Mathlib.Tactic.Common

/-!
# Loops without a bound

A `loop` of an imperative program goes round until its body leaves it, and nothing says that it
ever does.  Here it is run for so many rounds; a body that fails, as an index outside an array
does, fails the loop.

* `run_more` — a loop that has ended ends the same however many more rounds it is given;
* `run_ends` — a loop ends and does not fail, if its body keeps an invariant under which it
  does not fail and every further round brings a measure down.
-/

namespace Loops

variable {S R : Type}

/-- How a round ends. -/
inductive Round (S R : Type) where
  | again (s : S)
  | leave (r : R)

/-- So many rounds of a loop: what it leaves with, if it does. -/
def run (body : S → Option (Round S R)) : ℕ → S → Option R
  | 0, _ => none
  | rounds + 1, s =>
    match body s with
    | none => none
    | some (.again s') => run body rounds s'
    | some (.leave r) => some r

variable {body : S → Option (Round S R)}

theorem run_more {rounds more : ℕ} {s : S} {r : R} (h : run body rounds s = some r)
    (hle : rounds ≤ more) : run body more s = some r := by
  induction rounds generalizing s more with
  | zero => cases h
  | succ rounds ih =>
    obtain ⟨more, rfl⟩ : ∃ k, more = k + 1 := ⟨more - 1, by omega⟩
    unfold run at h ⊢
    cases hround : body s with
    | none =>
      rw [hround] at h
      cases h
    | some round =>
      rw [hround] at h
      cases round with
      | again s' => exact ih h (by omega)
      | leave r' => exact h

/-- **A loop ends.** -/
theorem run_ends (Inv : S → Prop) (Post : R → Prop) (μ : S → ℕ)
    (hbody : ∀ s, Inv s → (∃ s', body s = some (.again s') ∧ Inv s' ∧ μ s' < μ s) ∨
      ∃ r, body s = some (.leave r) ∧ Post r)
    {rounds : ℕ} {s : S} (hs : Inv s) (hrounds : μ s < rounds) :
    ∃ r, run body rounds s = some r ∧ Post r := by
  induction rounds generalizing s with
  | zero => omega
  | succ rounds ih =>
    unfold run
    rcases hbody s hs with ⟨s', hround, hs', hlt⟩ | ⟨r, hround, hr⟩
    · rw [hround]
      exact ih hs' (by omega)
    · rw [hround]
      exact ⟨r, rfl, hr⟩

end Loops
