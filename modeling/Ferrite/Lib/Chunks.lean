import Mathlib.Algebra.Order.Ring.Nat
import Mathlib.Data.List.Basic
import Mathlib.Data.List.Destutter
import Mathlib.Order.Basic
import Ferrite.Lib.Rows

/-!
# Text in chunks

Items that lie end to end in chunks of one width and are found again by a virtual offset,
which counts the chunks before at their full width.  A chunk only grows at its end, so what
lies in it stays where it is.

* `Lies` — an item lies at an offset, inside one chunk; `read_of_lies` reads it back;
* `Lies.push`, `Lies.append` — what lies there stays there when a new item or a new chunk
  comes;
* `pairwise_sortDedup`, `mem_map_sortDedup` — ordering items by a key and dropping those with
  the key of the one before leaves each key once, in order.
-/

namespace Chunks

variable {α : Type}

/-- What is read at a virtual offset. -/
def read (chunks : List (List α)) (width start len : ℕ) : List α :=
  ((chunks.getD (start / width) []).drop (start % width)).take len

/-- `xs` lies at the virtual offset `start`, inside one chunk. -/
def Lies (chunks : List (List α)) (width start : ℕ) (xs : List α) : Prop :=
  ∃ before after, chunks[start / width]? = some (before ++ (xs ++ after)) ∧
    before.length = start % width

variable {chunks : List (List α)} {width start : ℕ} {xs : List α}

theorem read_of_lies (h : Lies chunks width start xs) : read chunks width start xs.length = xs := by
  obtain ⟨before, after, hchunk, hlen⟩ := h
  rw [read, List.getD_eq_getElem?_getD, hchunk, Option.getD_some, ← hlen, List.drop_left,
    List.take_left]

/-- What lies there ends inside its chunk. -/
theorem Lies.inside (h : Lies chunks width start xs) :
    ∃ chunk, chunks[start / width]? = some chunk ∧ start % width + xs.length ≤ chunk.length := by
  obtain ⟨before, after, hchunk, hlen⟩ := h
  refine ⟨_, hchunk, ?_⟩
  simp only [List.length_append, hlen]
  omega

/-- The front of what lies there. -/
theorem Lies.take (h : Lies chunks width start xs) (n : ℕ) :
    Lies chunks width start (xs.take n) := by
  obtain ⟨before, after, hchunk, hlen⟩ := h
  refine ⟨before, xs.drop n ++ after, ?_, hlen⟩
  rw [hchunk, ← List.append_assoc (xs.take n), List.take_append_drop]

/-- A new chunk leaves everything where it is. -/
theorem Lies.append (h : Lies chunks width start xs) (more : List (List α)) :
    Lies (chunks ++ more) width start xs := by
  obtain ⟨before, after, hchunk, hlen⟩ := h
  have hlt : start / width < chunks.length := (List.getElem?_eq_some_iff.1 hchunk).1
  exact ⟨before, after, by rw [List.getElem?_append_left hlt, hchunk], hlen⟩

/-- So does a new item at the end of a chunk. -/
theorem Lies.push (h : Lies chunks width start xs) {i : ℕ} {chunk : List α}
    (hi : chunks[i]? = some chunk) (ys : List α) :
    Lies (chunks.set i (chunk ++ ys)) width start xs := by
  obtain ⟨before, after, hchunk, hlen⟩ := h
  by_cases hsame : start / width = i
  · subst hsame
    rw [hi] at hchunk
    obtain rfl := Option.some.inj hchunk
    have hlt : start / width < chunks.length := (List.getElem?_eq_some_iff.1 hi).1
    refine ⟨before, after ++ ys, ?_, hlen⟩
    rw [List.getElem?_set_self hlt, List.append_assoc, List.append_assoc]
  · exact ⟨before, after, by rw [List.getElem?_set_ne (Ne.symm hsame), hchunk], hlen⟩

/-- A new item lies at the offset of the chunk's end. -/
theorem lies_push {i : ℕ} {chunk : List α} (hi : chunks[i]? = some chunk)
    (hwidth : chunk.length < width) (ys : List α) :
    Lies (chunks.set i (chunk ++ ys)) width (i * width + chunk.length) ys := by
  have hlt : i < chunks.length := (List.getElem?_eq_some_iff.1 hi).1
  have hdiv : (i * width + chunk.length) / width = i := by
    rw [Nat.mul_comm, Nat.mul_add_div (by omega), Nat.div_eq_of_lt hwidth, Nat.add_zero]
  have hmod : (i * width + chunk.length) % width = chunk.length := by
    rw [Nat.mul_comm, Nat.mul_add_mod, Nat.mod_eq_of_lt hwidth]
  refine ⟨chunk, [], ?_, hmod.symm⟩
  rw [hdiv, List.getElem?_set_self hlt, List.append_nil]

/-! ## Each key once, in order -/

/-- Of rows with one key the first is kept. -/
theorem exists_mem_destutter {R K : Type} [DecidableEq K] (key : R → K) {rows : List R} {r : R}
    (h : r ∈ rows) :
    ∃ r' ∈ rows.destutter (fun a b => key a ≠ key b), key r' = key r := by
  have hkept : ∀ (rows : List R) (a : R), ∀ r ∈ a :: rows,
      ∃ r' ∈ rows.destutter' (fun a b => key a ≠ key b) a, key r' = key r := by
    intro rows
    induction rows with
    | nil =>
      intro a r hr
      obtain rfl := List.mem_singleton.1 hr
      exact ⟨r, List.mem_destutter' _ _ r, rfl⟩
    | cons b rows ih =>
      intro a r hr
      rw [List.destutter'_cons]
      by_cases hab : key a ≠ key b
      · rw [if_pos hab]
        rcases List.mem_cons.1 hr with rfl | hr
        · exact ⟨r, List.mem_cons_self, rfl⟩
        · obtain ⟨r', hr', hkey⟩ := ih b r hr
          exact ⟨r', List.mem_cons_of_mem _ hr', hkey⟩
      · rw [if_neg hab]
        rw [not_not] at hab
        rcases List.mem_cons.1 hr with rfl | hr
        · exact ih r r List.mem_cons_self
        · rcases List.mem_cons.1 hr with rfl | hr
          · obtain ⟨r', hr', hkey⟩ := ih a a List.mem_cons_self
            exact ⟨r', hr', hkey.trans hab⟩
          · exact ih a r (List.mem_cons_of_mem _ hr)
  cases rows with
  | nil => cases h
  | cons a rows => exact hkept rows a r h

section SortDedup

variable {R K : Type} [LinearOrder K]

/-- The rows in the order of their keys, without those that have the key of the one before. -/
def sortDedup (key : R → K) (rows : List R) : List R :=
  (Rows.orderBy key rows).destutter fun a b => key a ≠ key b

theorem sortDedup_sublist (key : R → K) (rows : List R) :
    (sortDedup key rows).Sublist (Rows.orderBy key rows) :=
  List.destutter_sublist _ _

theorem mem_of_mem_sortDedup {key : R → K} {rows : List R} {r : R} (h : r ∈ sortDedup key rows) :
    r ∈ rows :=
  (Rows.orderBy_perm key rows).subset ((sortDedup_sublist key rows).subset h)

/-- The keys ascend strictly. -/
theorem pairwise_sortDedup (key : R → K) (rows : List R) :
    (sortDedup key rows).Pairwise fun a b => key a < key b := by
  have hle : (sortDedup key rows).Pairwise fun a b => key a ≤ key b :=
    (Rows.pairwise_orderBy key rows).sublist (sortDedup_sublist key rows)
  have hne : (sortDedup key rows).IsChain fun a b => key a ≠ key b := List.isChain_destutter _ _
  have htrans : IsTrans R fun a b => key a < key b := ⟨fun _ _ _ => lt_trans⟩
  rw [← List.isChain_iff_pairwise]
  generalize sortDedup key rows = sorted at hle hne
  induction sorted with
  | nil => exact List.IsChain.nil
  | cons a sorted ih =>
    cases sorted with
    | nil => exact List.IsChain.singleton _
    | cons b sorted =>
      obtain ⟨hab, hrest⟩ := List.isChain_cons_cons.1 hne
      obtain ⟨ha, hle⟩ := List.pairwise_cons.1 hle
      exact List.isChain_cons_cons.2
        ⟨lt_of_le_of_ne (ha b List.mem_cons_self) hab, ih hle hrest⟩

/-- The keys are those there were. -/
theorem mem_map_sortDedup {key : R → K} {rows : List R} {k : K} :
    k ∈ (sortDedup key rows).map key ↔ k ∈ rows.map key := by
  constructor
  · intro h
    obtain ⟨r, hr, rfl⟩ := List.mem_map.1 h
    exact List.mem_map_of_mem (mem_of_mem_sortDedup hr)
  · intro h
    obtain ⟨r, hr, rfl⟩ := List.mem_map.1 h
    obtain ⟨r', hr', hkey⟩ :=
      exists_mem_destutter key ((Rows.orderBy_perm key rows).symm.subset hr)
    exact hkey ▸ List.mem_map_of_mem hr'

end SortDedup

end Chunks
