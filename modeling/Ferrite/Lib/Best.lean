import Ferrite.Lib.Rows

/-!
# The best few of a list

A pass over a list that keeps at most `n` of its items, and gives one up only for a better
one, ends with the best `n`: `Best.Holds` is what it may have in hand on the way.  What the
items weigh is all that counts, so of items that weigh the same any may be kept.

* `Holds.room`, `Holds.trade`, `Holds.pass` — the three things such a pass does with the next
  item;
* `Holds.orderBy_weights` — in order, the weights kept are the first `n` of all the weights.
-/

namespace Best

open List

variable {A W : Type} [LinearOrder W] {weight : A → W} {n : ℕ} {seen kept : List A}

/-- Of the items seen the ones kept are as many as may be, and nothing left out is better than
one of them. -/
structure Holds (weight : A → W) (n : ℕ) (seen kept : List A) : Prop where
  length : kept.length = min n seen.length
  split : ∃ out, kept ++ out ~ seen ∧ ∀ o ∈ out, ∀ k ∈ kept, weight o ≤ weight k

namespace Holds

theorem nil : Holds weight n [] [] := ⟨by simp, [], by simp, by simp⟩

/-- It does not matter how the items kept lie. -/
theorem perm {kept' : List A} (h : Holds weight n seen kept) (hperm : kept' ~ kept) :
    Holds weight n seen kept' := by
  obtain ⟨out, hout, hle⟩ := h.split
  refine ⟨hperm.length_eq.trans h.length, out, (hperm.append_right out).trans hout, ?_⟩
  intro o ho k hk
  exact hle o ho k (hperm.subset hk)

/-- Nor in which order they were seen. -/
theorem perm_seen {seen' : List A} (h : Holds weight n seen kept) (hperm : seen ~ seen') :
    Holds weight n seen' kept := by
  obtain ⟨out, hout, hle⟩ := h.split
  exact ⟨hperm.length_eq ▸ h.length, out, hout.trans hperm, hle⟩

/-- While there is room nothing is left out. -/
theorem perm_of_lt (h : Holds weight n seen kept) (hroom : kept.length < n) : kept ~ seen := by
  obtain ⟨out, hout, -⟩ := h.split
  have hlen := hout.length_eq
  rw [length_append] at hlen
  have hnil : out = [] := by
    apply eq_nil_of_length_eq_zero
    have := h.length
    omega
  simpa [hnil] using hout

/-- There is room for the next item. -/
theorem room (h : Holds weight n seen kept) (hroom : kept.length < n) (e : A) :
    Holds weight n (e :: seen) (e :: kept) := by
  have hperm := h.perm_of_lt hroom
  refine ⟨?_, [], by simpa using hperm, by simp⟩
  have := hperm.length_eq
  simp only [length_cons]
  omega

/-- There is no room, and the next item is better than the weakest one kept. -/
theorem trade {low : A} {rest : List A} (h : Holds weight n seen (low :: rest))
    (hfull : n ≤ (low :: rest).length) (hlow : ∀ k ∈ rest, weight low ≤ weight k) {e : A}
    (he : weight low < weight e) :
    Holds weight n (e :: seen) (e :: rest) := by
  obtain ⟨out, hout, hle⟩ := h.split
  refine ⟨?_, low :: out, ?_, ?_⟩
  · have := h.length
    simp only [length_cons] at this hfull ⊢
    omega
  · rw [cons_append]
    exact (perm_middle.trans hout).cons e
  · intro o ho k hk
    have hol : weight o ≤ weight low := by
      rcases mem_cons.1 ho with rfl | ho
      · exact le_rfl
      · exact hle o ho low mem_cons_self
    rcases mem_cons.1 hk with rfl | hk
    · exact hol.trans he.le
    · exact hol.trans (hlow k hk)

/-- The next item is no better than any that is kept, and there is no room. -/
theorem pass (h : Holds weight n seen kept) (hfull : n ≤ kept.length) {e : A}
    (he : ∀ k ∈ kept, weight e ≤ weight k) : Holds weight n (e :: seen) kept := by
  obtain ⟨out, hout, hle⟩ := h.split
  refine ⟨?_, e :: out, ?_, ?_⟩
  · have := h.length
    simp only [length_cons]
    omega
  · exact perm_middle.trans (hout.cons e)
  · intro o ho k hk
    rcases mem_cons.1 ho with rfl | ho
    · exact he k hk
    · exact hle o ho k hk

/-- A pass whose every step keeps the best keeps the best. -/
theorem foldl (step : List A → A → List A) (P : List A → Prop)
    (hstep : ∀ seen kept e, Holds weight n seen kept → P kept →
      Holds weight n (e :: seen) (step kept e) ∧ P (step kept e)) (xs : List A)
    (h : Holds weight n seen kept) (hP : P kept) :
    Holds weight n (xs.reverse ++ seen) (xs.foldl step kept) ∧ P (xs.foldl step kept) := by
  induction xs generalizing seen kept with
  | nil => exact ⟨h, hP⟩
  | cons x xs ih =>
    obtain ⟨h, hP⟩ := hstep seen kept x h hP
    simpa using ih h hP

/-- **The best few.**  In order, the weights kept are the first `n` of all the weights. -/
theorem orderBy_weights (h : Holds weight n seen kept) :
    Rows.orderBy OrderDual.toDual (kept.map weight) =
      (Rows.orderBy OrderDual.toDual (seen.map weight)).take n := by
  obtain ⟨out, hout, hle⟩ := h.split
  have hparts : Rows.orderBy OrderDual.toDual (kept.map weight) ++
      Rows.orderBy OrderDual.toDual (out.map weight) =
        Rows.orderBy OrderDual.toDual (seen.map weight) := by
    refine Rows.eq_orderBy ?_ ?_ fun a _ b _ hab => OrderDual.toDual.injective hab
    · refine ((Rows.orderBy_perm _ _).append (Rows.orderBy_perm _ _)).trans ?_
      rw [← map_append]
      exact hout.map weight
    · refine pairwise_append.2 ⟨Rows.pairwise_orderBy _ _, Rows.pairwise_orderBy _ _, ?_⟩
      intro a ha b hb
      obtain ⟨k, hk, rfl⟩ := mem_map.1 ((Rows.orderBy_perm _ _).subset ha)
      obtain ⟨o, ho, rfl⟩ := mem_map.1 ((Rows.orderBy_perm _ _).subset hb)
      exact OrderDual.toDual_le_toDual.2 (hle o ho k hk)
  have hlen : (Rows.orderBy OrderDual.toDual (kept.map weight)).length = min n seen.length := by
    simpa using h.length
  have htake : (Rows.orderBy OrderDual.toDual (seen.map weight)).take n =
      (Rows.orderBy OrderDual.toDual (seen.map weight)).take (min n seen.length) := by
    simp [take_eq_take_iff]
  rw [htake, ← hparts, take_left' hlen]

end Holds

end Best
