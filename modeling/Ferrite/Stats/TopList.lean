import Ferrite.Lib.Best
import Ferrite.Stats.Shares

/-!
# The busiest keys

`TopNCounter::top` of `stats/src/top_list.rs` goes over its map once, in whatever order the map
gives it, and keeps the best `n` keys it has seen in a heap whose root is the weakest of them.

* `holds_offer` — what one key offered to the heap does: the heap still holds the best of what
  was seen, and its root is still the weakest;
* `top_is_the_true_top` — so the list is the top of the map sorted as a whole, whichever way
  the map and the heap are walked.
-/

namespace Ferrite.Stats

open Storage
open Rows

namespace TopNCounter

/-- The heap's order is by count first. -/
theorem pairwise_ordered (xs : List (Text × ℕ)) :
    (orderBy (fun e : Text × ℕ => (toLex (e.2, e.1) : ℕ ×ₗ Text)) xs).Pairwise
      fun a b => a.2 ≤ b.2 := by
  refine (pairwise_orderBy _ xs).imp fun {a b} hab => ?_
  rcases Prod.Lex.le_iff.1 hab with hlt | ⟨heq, -⟩
  · exact hlt.le
  · exact heq.le

/-- **One key.**  The heap holds the best of the keys seen, the weakest at its root. -/
theorem holds_offer {n : ℕ} (hn : 0 < n) {seen heap : List (Text × ℕ)}
    (h : Best.Holds Prod.snd n seen heap) (hroot : heap.Pairwise fun a b => a.2 ≤ b.2)
    (e : Text × ℕ) :
    Best.Holds Prod.snd n (e :: seen) (offer n heap e) ∧
      (offer n heap e).Pairwise fun a b => a.2 ≤ b.2 := by
  unfold offer
  dsimp only
  split
  · next hroom => exact ⟨(h.room hroom e).perm (orderBy_perm _ _), pairwise_ordered _⟩
  · next hfull =>
    cases heap with
    | nil =>
      rw [List.length_nil] at hfull
      omega
    | cons low rest =>
      obtain ⟨hlow, -⟩ := List.pairwise_cons.1 hroot
      dsimp only
      split
      · next hbetter =>
        exact ⟨(h.trade (Nat.le_of_not_lt hfull) hlow hbetter).perm (orderBy_perm _ _),
          pairwise_ordered _⟩
      · next hworse =>
        refine ⟨h.pass (Nat.le_of_not_lt hfull) fun k hk => ?_, hroot⟩
        have hle : e.2 ≤ low.2 := Nat.le_of_not_lt hworse
        rcases List.mem_cons.1 hk with rfl | hk
        · exact hle
        · exact hle.trans (hlow k hk)

/-- The list holds the best of the whole map. -/
theorem holds_top (c : TopNCounter) (scan : Scan (Text × ℕ)) (n : ℕ) :
    Best.Holds Prod.snd n (c.counts.entries.map fun e => (e.1, e.2)) (c.top scan n) := by
  unfold top
  split
  · next hn =>
    subst hn
    exact ⟨by simp, c.counts.entries.map fun e => (e.1, e.2), by simp, by simp⟩
  · next hn =>
    have hpass := Best.Holds.foldl (offer n) (List.Pairwise fun a b => a.2 ≤ b.2)
      (fun seen kept e h hroot => holds_offer (Nat.pos_of_ne_zero hn) h hroot e)
      (scan.iter (c.counts.entries.map fun e => (e.1, e.2))) Best.Holds.nil List.Pairwise.nil
    rw [List.append_nil] at hpass
    have hseen := hpass.1.perm_seen ((List.reverse_perm _).trans (scan.perm _))
    exact hseen.perm ((orderBy_perm _ _).trans (scan.perm _))

/-- **The heap selects the true top.**  For every map of counts, every order in which the map
and the heap are walked and every `n` the list has `n` keys, or all there are; no key is on it
twice, each has its own count, the counts do not rise, and no key left out has a larger count
than one on the list.  So its counts are the first `n` of all the counts in order. -/
theorem top_is_the_true_top (c : TopNCounter) (scan : Scan (Text × ℕ)) (n : ℕ) :
    (c.top scan n).length = min n c.counts.keys.length ∧
      ((c.top scan n).map Prod.fst).Nodup ∧
      (∀ e ∈ c.top scan n, c.counts.lookup e.1 = some e.2) ∧
      (c.top scan n).Pairwise (fun a b => b.2 ≤ a.2) ∧
      (∀ key count, c.counts.lookup key = some count → key ∉ (c.top scan n).map Prod.fst →
        ∀ e ∈ c.top scan n, count ≤ e.2) ∧
      (c.top scan n).map Prod.snd = (orderBy OrderDual.toDual c.counts.values).take n := by
  have hholds := holds_top c scan n
  obtain ⟨out, hout, hle⟩ := hholds.split
  have hkeys : (c.counts.entries.map fun e => (e.1, e.2)).map Prod.fst = c.counts.keys := by
    rw [List.map_map]
    rfl
  have hcounts : (c.counts.entries.map fun e => (e.1, e.2)).map Prod.snd = c.counts.values := by
    rw [List.map_map]
    rfl
  have hentry : ∀ e : Text × ℕ, e ∈ (c.counts.entries.map fun e => (e.1, e.2)) ↔
      c.counts.lookup e.1 = some e.2 := by
    intro e
    rw [← Table.mem_entries_iff]
    constructor
    · intro he
      obtain ⟨⟨key, count⟩, hmem, rfl⟩ := List.mem_map.1 he
      exact hmem
    · exact fun he => List.mem_map_of_mem (f := fun e : Sigma fun _ : Text => ℕ => (e.1, e.2)) he
  have hfalling : (c.top scan n).Pairwise fun a b => b.2 ≤ a.2 := by
    unfold top
    split
    · exact List.Pairwise.nil
    · exact (pairwise_orderBy (fun e : Text × ℕ => OrderDual.toDual e.2) _).imp
        fun {a b} hab => OrderDual.toDual_le_toDual.1 hab
  refine ⟨?_, ?_, fun e he => (hentry e).1 ?_, hfalling, fun key count hkey hnot e he => ?_, ?_⟩
  · rw [hholds.length, ← hkeys, List.length_map Prod.fst]
  · have hnodup : ((c.top scan n ++ out).map Prod.fst).Nodup := by
      refine (hout.map Prod.fst).nodup_iff.2 ?_
      rw [hkeys]
      exact AList.keys_nodup c.counts
    rw [List.map_append] at hnodup
    exact hnodup.of_append_left
  · exact hout.subset (List.mem_append_left out he)
  · rcases List.mem_append.1 (hout.symm.subset ((hentry (key, count)).2 hkey)) with htop | hleft
    · exact absurd (List.mem_map_of_mem htop) hnot
    · exact hle (key, count) hleft e he
  · have hsorted : (c.top scan n).map Prod.snd =
        orderBy OrderDual.toDual ((c.top scan n).map Prod.snd) := by
      refine eq_orderBy (List.Perm.refl _) ?_ fun a _ b _ hab => OrderDual.toDual.injective hab
      exact List.pairwise_map.2 (hfalling.imp fun {a b} hab => OrderDual.toDual_le_toDual.2 hab)
    rw [hsorted, hholds.orderBy_weights, hcounts]

end TopNCounter

end Ferrite.Stats
