import Mathlib.Data.List.Basic

/-!
# Parsers that are asked again as more arrives

A parser over a growing buffer is a function `List α → Option β`: `none` until what has
arrived decides.  `feed` is the loop around it: after every read it asks about what has
arrived so far, and it ends with the first decision.  The question may look at the two parts,
what was there and what was read (a limit on the buffer does).

* `feed_of_stableOn` — where a beginning of the stream never decides otherwise than the whole
  does, the loop ends with what the whole decides, however the stream is read;
* `feed_undecided` — reads that decide nothing may be put together.
-/

namespace Incremental

variable {α β : Type}

/-- A beginning of the stream that decides, decides as the whole stream does. -/
def StableOn (f : List α → Option β) (s : List α) : Prop :=
  ∀ p r, p <+: s → f p = some r → f s = some r

/-- The stream is read in these reads, none of them empty or longer than `n`. -/
structure Cut (n : ℕ) (s : List α) (reads : List (List α)) : Prop where
  flatten : reads.flatten = s
  ne_nil : ∀ c ∈ reads, c ≠ []
  length_le : ∀ c ∈ reads, c.length ≤ n

/-- The first decision, asked for after every read. -/
def feed (ask : List α → List α → Option β) (seen : List α) : List (List α) → Option β
  | [] => none
  | c :: cs =>
    match ask seen c with
    | some r => some r
    | none => feed ask (seen ++ c) cs

variable {ask : List α → List α → Option β}

theorem feed_cons_of_none {seen c : List α} (h : ask seen c = none) (cs : List (List α)) :
    feed ask seen (c :: cs) = feed ask (seen ++ c) cs := by
  simp only [feed, h]

theorem feed_cons_of_some {seen c : List α} {r : β} (h : ask seen c = some r) (cs : List (List α)) :
    feed ask seen (c :: cs) = some r := by
  simp only [feed, h]

/-- Reads that decide nothing are read on from. -/
theorem feed_undecided {seen : List α} {cs : List (List α)}
    (h : ∀ p, ∀ c ∈ cs, p ++ c <+: seen ++ cs.flatten → seen <+: p → ask p c = none)
    (cs' : List (List α)) : feed ask seen (cs ++ cs') = feed ask (seen ++ cs.flatten) cs' := by
  induction cs generalizing seen with
  | nil => simp
  | cons c cs ih =>
    have hnone : ask seen c = none := by
      refine h seen c List.mem_cons_self ?_ (List.prefix_refl seen)
      rw [List.flatten_cons, ← List.append_assoc]
      exact List.prefix_append ..
    rw [List.cons_append, feed_cons_of_none hnone, List.flatten_cons, ← List.append_assoc]
    refine ih fun p d hd hp hseen => h p d (List.mem_cons_of_mem _ hd) ?_ ?_
    · rw [List.flatten_cons, ← List.append_assoc]
      exact hp
    · exact (List.prefix_append seen c).trans hseen

/-- **However it is read.**  The loop asks the parser about all that arrived, or gives up. -/
theorem feed_of_stableOn {f : List α → Option β} {bad : β} {s : List α} (hf : StableOn f s)
    (hask : ∀ p c, ask p c = f (p ++ c) ∨ ask p c = some bad) {seen : List α} {cs : List (List α)}
    (hs : seen ++ cs.flatten = s) (hseen : f seen = none) (hbad : feed ask seen cs ≠ some bad) :
    feed ask seen cs = f s := by
  induction cs generalizing seen with
  | nil =>
    rw [List.flatten_nil, List.append_nil] at hs
    rw [← hs, hseen]
    rfl
  | cons c cs ih =>
    rw [List.flatten_cons, ← List.append_assoc] at hs
    rcases hask seen c with hc | hc
    · cases hr : f (seen ++ c) with
      | some r =>
        rw [feed_cons_of_some (hc.trans hr)]
        exact (hf _ r ⟨cs.flatten, hs⟩ hr).symm
      | none =>
        rw [feed_cons_of_none (hc.trans hr)] at hbad ⊢
        exact ih hs hr hbad
    · exact absurd (feed_cons_of_some hc cs) hbad

/-- Reading one at a time is a way of reading. -/
theorem cut_singles {n : ℕ} (hn : 0 < n) (s : List α) : Cut n s (s.map fun x => [x]) where
  flatten := by
    induction s with
    | nil => rfl
    | cons x s ih => rw [List.map_cons, List.flatten_cons, ih, List.singleton_append]
  ne_nil := by simp
  length_le := by
    intro c hc
    obtain ⟨x, -, rfl⟩ := List.mem_map.1 hc
    exact hn

theorem Cut.append {n : ℕ} {s s' : List α} {cs cs' : List (List α)} (h : Cut n s cs)
    (h' : Cut n s' cs') : Cut n (s ++ s') (cs ++ cs') where
  flatten := by rw [List.flatten_append, h.flatten, h'.flatten]
  ne_nil := by
    intro c hc
    exact (List.mem_append.1 hc).elim (h.ne_nil c) (h'.ne_nil c)
  length_le := by
    intro c hc
    exact (List.mem_append.1 hc).elim (h.length_le c) (h'.length_le c)

theorem cut_single {n : ℕ} {c : List α} (hne : c ≠ []) (hn : c.length ≤ n) : Cut n c [c] where
  flatten := by simp
  ne_nil := by simpa using hne
  length_le := by simpa using hn

end Incremental
