import Mathlib.Algebra.Order.Field.Basic
import Mathlib.Tactic.Linarith
import Mathlib.Tactic.Ring

/-!
# Token buckets

A bucket of size `cap` that refills at `rate` tokens a unit of time.  Nobody pours: what it
holds at an instant, its `level`, is worked out from what was left at the last draw.  A
missing bucket counts as a full one.

* `level_le_add` — between two instants the level grows by at most the refill;
* `passes_le` — a window of length `T` lets at most `cap + rate * T` draws through;
* `level_eq_cap` — a bucket left alone for long enough is as good as a missing one.
-/

namespace TokenBucket

/-- What was left in a bucket, and when. -/
structure Bucket (R : Type) where
  tokens : R
  since : R

section

variable {R : Type} [Field R] [LinearOrder R]
variable (cap rate : R)

/-- What the bucket holds at an instant. -/
def level (b : Option (Bucket R)) (t : R) : R :=
  match b with
  | none => cap
  | some b => min (b.tokens + rate * (t - b.since)) cap

/-- What a draw at `t` leaves behind: one token less if there was a whole one. -/
def left (b : Option (Bucket R)) (t : R) : Bucket R :=
  ⟨if 1 ≤ level cap rate b t then level cap rate b t - 1 else level cap rate b t, t⟩

/-- The draws at a list of instants: each with whether it got a token. -/
def draws : Option (Bucket R) → List R → List (R × Bool)
  | _, [] => []
  | b, t :: ts => (t, decide (1 ≤ level cap rate b t)) :: draws (some (left cap rate b t)) ts

/-- The draws of a window that got a token. -/
def passes (lo hi : R) (ds : List (R × Bool)) : ℕ :=
  ds.countP fun d => decide (lo ≤ d.1) && decide (d.1 ≤ hi) && d.2

/-- A bucket that can be: it was left with no debt, and not in the future. -/
def Sound (b : Option (Bucket R)) (t : R) : Prop :=
  ∀ x, b = some x → 0 ≤ x.tokens ∧ x.since ≤ t

theorem level_le_cap (b : Option (Bucket R)) (t : R) : level cap rate b t ≤ cap := by
  cases b with
  | none => exact le_refl _
  | some b => exact min_le_right ..

variable {cap rate} {b : Option (Bucket R)} {t u : R}

theorem Sound.mono (hb : Sound b t) (htu : t ≤ u) : Sound b u :=
  fun x hx => ⟨(hb x hx).1, (hb x hx).2.trans htu⟩

/-- No draw after the window counts in it. -/
theorem passes_eq_zero {lo hi : R} {ts : List R} (h : ∀ t ∈ ts, hi < t) :
    passes lo hi (draws cap rate b ts) = 0 := by
  induction ts generalizing b with
  | nil => rfl
  | cons t ts ih =>
    have ht : ¬ t ≤ hi := not_le.2 (h t (List.mem_cons_self ..))
    have hrest := ih (b := some (left cap rate b t)) fun v hv => h v (List.mem_cons_of_mem _ hv)
    simp only [passes, draws] at hrest ⊢
    rw [List.countP_cons_of_neg (by simp [ht]), hrest]

variable [IsStrictOrderedRing R]

theorem level_nonneg (hcap : 0 ≤ cap) (hrate : 0 ≤ rate) (hb : Sound b t) :
    0 ≤ level cap rate b t := by
  cases b with
  | none => exact hcap
  | some x =>
    obtain ⟨htokens, hsince⟩ := hb x rfl
    have hrefill : 0 ≤ rate * (t - x.since) := mul_nonneg hrate (sub_nonneg.2 hsince)
    exact le_min (by linarith) hcap

/-- Between two instants the level grows by at most the refill. -/
theorem level_le_add (hrate : 0 ≤ rate) (htu : t ≤ u) :
    level cap rate b u ≤ level cap rate b t + rate * (u - t) := by
  have hrefill : 0 ≤ rate * (u - t) := mul_nonneg hrate (sub_nonneg.2 htu)
  cases b with
  | none =>
    show cap ≤ cap + _
    linarith
  | some x =>
    show min _ cap ≤ min _ cap + _
    rcases le_total (x.tokens + rate * (t - x.since)) cap with h | h
    · rw [min_eq_left h]
      calc min (x.tokens + rate * (u - x.since)) cap
          ≤ x.tokens + rate * (u - x.since) := min_le_left ..
        _ = x.tokens + rate * (t - x.since) + rate * (u - t) := by ring
    · rw [min_eq_right h]
      exact (min_le_right ..).trans (by linarith)

/-- The bucket a draw leaves can be. -/
theorem sound_left (hcap : 0 ≤ cap) (hrate : 0 ≤ rate) (hb : Sound b t) :
    Sound (some (left cap rate b t)) t := by
  rintro x ⟨⟩
  refine ⟨?_, le_refl _⟩
  by_cases hpass : 1 ≤ level cap rate b t
  · simp only [left, if_pos hpass]
    linarith
  · simp only [left, if_neg hpass]
    exact level_nonneg hcap hrate hb

/-- Right after a draw, what is left and what was taken make up what was there. -/
theorem level_left_add (b : Option (Bucket R)) (t : R) :
    level cap rate (some (left cap rate b t)) t + (if 1 ≤ level cap rate b t then 1 else 0) =
      level cap rate b t := by
  have hfull := level_le_cap cap rate b t
  have hleft : (left cap rate b t).tokens ≤ cap := by
    by_cases hpass : 1 ≤ level cap rate b t
    · simp only [left, if_pos hpass]
      linarith
    · simp only [left, if_neg hpass]
      exact hfull
  have hlevel : level cap rate (some (left cap rate b t)) t = (left cap rate b t).tokens := by
    show min (_ + rate * (t - t)) cap = _
    rw [sub_self, mul_zero, add_zero]
    exact min_eq_left hleft
  rw [hlevel]
  by_cases hpass : 1 ≤ level cap rate b t
  · simp only [left, if_pos hpass]
    ring
  · simp only [left, if_neg hpass]
    ring

/-- From an instant of the window on, the draws that get a token are paid for by what the
bucket holds there and what is poured in until the window ends. -/
theorem passes_le_level (hcap : 0 ≤ cap) (hrate : 0 ≤ rate) {lo hi : R} {ts : List R}
    (hsorted : ts.Pairwise (· ≤ ·)) (hu : ∀ t ∈ ts, u ≤ t) (huhi : u ≤ hi) (hb : Sound b u) :
    (passes lo hi (draws cap rate b ts) : R) ≤ level cap rate b u + rate * (hi - u) := by
  induction ts generalizing b u with
  | nil =>
    have hlevel := level_nonneg hcap hrate hb
    have hrefill : 0 ≤ rate * (hi - u) := mul_nonneg hrate (sub_nonneg.2 huhi)
    simp only [passes, draws, List.countP_nil, Nat.cast_zero]
    linarith
  | cons t ts ih =>
    have hut : u ≤ t := hu t (List.mem_cons_self ..)
    obtain ⟨hfirst, hrest⟩ := List.pairwise_cons.1 hsorted
    by_cases hthi : t ≤ hi
    · -- the draw at `t` takes its token out of the level there
      have hsound := hb.mono hut
      have hafter := ih (u := t) hrest hfirst hthi (sound_left hcap hrate hsound)
      have hgrow : level cap rate b t ≤ _ := level_le_add hrate hut
      have hpaid : _ = level cap rate b t := level_left_add b t
      have hcount : (passes lo hi (draws cap rate b (t :: ts)) : R) ≤
          passes lo hi (draws cap rate (some (left cap rate b t)) ts) +
            (if 1 ≤ level cap rate b t then 1 else 0) := by
        simp only [passes, draws, List.countP_cons]
        by_cases hpass : 1 ≤ level cap rate b t
        · by_cases hlo : lo ≤ t <;> simp [hpass, hlo, hthi]
        · simp [hpass]
      calc (passes lo hi (draws cap rate b (t :: ts)) : R)
          ≤ level cap rate (some (left cap rate b t)) t + rate * (hi - t) +
              (if 1 ≤ level cap rate b t then 1 else 0) := by linarith
        _ = level cap rate b t + rate * (hi - t) := by linarith
        _ ≤ level cap rate b u + rate * (t - u) + rate * (hi - t) := by linarith
        _ = level cap rate b u + rate * (hi - u) := by ring
    · have hlate : ∀ v ∈ t :: ts, hi < v := by
        intro v hv
        rcases List.mem_cons.1 hv with rfl | hv
        · exact not_le.1 hthi
        · exact (not_le.1 hthi).trans_le (hfirst v hv)
      rw [passes_eq_zero hlate, Nat.cast_zero]
      have hlevel := level_nonneg hcap hrate hb
      have hrefill : 0 ≤ rate * (hi - u) := mul_nonneg hrate (sub_nonneg.2 huhi)
      linarith

/-- **The bound.**  However the draws fall, a window lets through no more than a full
bucket and what is poured in meanwhile. -/
theorem passes_le (hcap : 0 ≤ cap) (hrate : 0 ≤ rate) {lo hi : R} (hlohi : lo ≤ hi)
    {ts : List R} (hsorted : ts.Pairwise (· ≤ ·)) (hb : ∀ t ∈ ts, Sound b t) :
    (passes lo hi (draws cap rate b ts) : R) ≤ cap + rate * (hi - lo) := by
  induction ts generalizing b with
  | nil =>
    have hrefill : 0 ≤ rate * (hi - lo) := mul_nonneg hrate (sub_nonneg.2 hlohi)
    simp only [passes, draws, List.countP_nil, Nat.cast_zero]
    linarith
  | cons t ts ih =>
    obtain ⟨hfirst, hrest⟩ := List.pairwise_cons.1 hsorted
    have hsound : Sound b t := hb t (List.mem_cons_self ..)
    by_cases hlo : lo ≤ t
    · by_cases hthi : t ≤ hi
      · -- the window's first draw: from here on the bucket pays
        have hpaid : (passes lo hi (draws cap rate b (t :: ts)) : R) ≤ _ :=
          passes_le_level hcap hrate hsorted (u := t) (by simpa using hfirst) hthi hsound
        have hfull := level_le_cap cap rate b t
        have hless : rate * (hi - t) ≤ rate * (hi - lo) :=
          mul_le_mul_of_nonneg_left (by linarith) hrate
        linarith
      · have hlate : ∀ v ∈ t :: ts, hi < v := by
          intro v hv
          rcases List.mem_cons.1 hv with rfl | hv
          · exact not_le.1 hthi
          · exact (not_le.1 hthi).trans_le (hfirst v hv)
        rw [passes_eq_zero hlate, Nat.cast_zero]
        have hrefill : 0 ≤ rate * (hi - lo) := mul_nonneg hrate (sub_nonneg.2 hlohi)
        linarith
    · have hafter := ih (b := some (left cap rate b t)) hrest fun v hv =>
        (sound_left hcap hrate hsound).mono (hfirst v hv)
      have hcount : passes lo hi (draws cap rate b (t :: ts)) =
          passes lo hi (draws cap rate (some (left cap rate b t)) ts) := by
        simp only [passes, draws]
        rw [List.countP_cons_of_neg (by simp [hlo])]
      rw [hcount]
      exact hafter

/-- A bucket left alone for as long as an empty one takes to fill is full. -/
theorem level_eq_cap {x : Bucket R} (hrate : 0 ≤ rate) (hx : 0 ≤ x.tokens) {d : R}
    (hd : rate * d = cap) (hdt : d ≤ t - x.since) : level cap rate (some x) t = cap := by
  refine min_eq_right ?_
  have hrefill : rate * d ≤ rate * (t - x.since) := mul_le_mul_of_nonneg_left hdt hrate
  linarith

end

end TokenBucket
