import Mathlib.Tactic.Common

/-!
# Walks over entries that carry their own length

A cursor stands at an entry, looks whether it fits, stops there if it is the one looked for,
and else hops to the next entry, whose place the entry itself gives.

* `find?_eq_some_iff` — what such a loop finds is what its hops reach, given turns enough;
* `Reaches.of_fits` — so two walks that hop alike and differ in what they take to fit reach
  the same place, if they agree on what fits up to there.
-/

namespace Hops

variable (fits here : ℕ → Bool) (next : ℕ → ℕ)

/-- The walk, of at most so many turns. -/
def find? : ℕ → ℕ → Option ℕ
  | 0, _ => none
  | turns + 1, p =>
    if !fits p then none
    else if here p then some p
    else find? turns (next p)

/-- From `p` the walk gets to `q` over entries that fit and are not the one. -/
inductive Reaches : ℕ → ℕ → Prop where
  | refl (p : ℕ) : Reaches p p
  | hop {p q : ℕ} : fits p = true → here p = false → Reaches (next p) q → Reaches p q

variable {fits here next} {p q : ℕ}

theorem Reaches.le (hnext : ∀ p, p < next p) (h : Reaches fits here next p q) : p ≤ q := by
  induction h with
  | refl p => exact Nat.le_refl p
  | hop _ _ _ ih => exact Nat.le_trans (Nat.le_of_lt (hnext _)) ih

/-- A walk goes where another goes, if what fits and is passed over there is so here. -/
theorem Reaches.of_fits {fits' here' : ℕ → Bool} (hnext : ∀ p, p < next p)
    (h : Reaches fits here next p q)
    (hfits : ∀ r, next r ≤ q → fits r = true → here r = false → fits' r = true ∧ here' r = false) :
    Reaches fits' here' next p q := by
  induction h with
  | refl p => exact Reaches.refl p
  | hop hfit hhere hrest ih =>
    obtain ⟨hfit', hhere'⟩ := hfits _ (hrest.le hnext) hfit hhere
    exact Reaches.hop hfit' hhere' (ih hfits)

/-- **What the walk finds.** -/
theorem find?_eq_some_iff (stop : ℕ) {turns : ℕ} (hnext : ∀ p, p < next p)
    (hstop : ∀ p, fits p = true → p < stop) (hturns : stop ≤ p + turns) :
    find? fits here next turns p = some q ↔
      Reaches fits here next p q ∧ fits q = true ∧ here q = true := by
  induction turns generalizing p with
  | zero =>
    constructor
    · nofun
    · rintro ⟨hreach, hfit, -⟩
      have hle := hreach.le hnext
      have hlt := hstop q hfit
      omega
  | succ turns ih =>
    have hmore : stop ≤ next p + turns := by
      have hlt := hnext p
      omega
    unfold find?
    cases hfit : fits p with
    | false =>
      constructor
      · intro h
        simp at h
      · rintro ⟨hreach, hfit', -⟩
        cases hreach with
        | refl => rw [hfit] at hfit'; cases hfit'
        | hop hfit'' _ _ => rw [hfit] at hfit''; cases hfit''
    | true =>
      cases hhere : here p with
      | true =>
        constructor
        · intro h
          obtain rfl : p = q := by simpa using h
          exact ⟨Reaches.refl p, hfit, hhere⟩
        · rintro ⟨hreach, -, -⟩
          cases hreach with
          | refl => simp
          | hop _ hhere' _ => rw [hhere] at hhere'; cases hhere'
      | false =>
        simp only [Bool.not_true, Bool.false_eq_true, if_false]
        rw [ih hmore]
        constructor
        · rintro ⟨hreach, hend⟩
          exact ⟨Reaches.hop hfit hhere hreach, hend⟩
        · rintro ⟨hreach, hend⟩
          cases hreach with
          | refl => rw [hhere] at hend; cases hend.2
          | hop _ _ hrest => exact ⟨hrest, hend⟩

end Hops
