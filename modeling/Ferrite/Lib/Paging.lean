import Mathlib.Data.List.Basic
import Mathlib.Order.Basic
import Ferrite.Lib.Rows

/-!
# Paging by the last row seen

A reader asks for the rows behind the last one it has, `k` at a time, and stops at a page that
is short.  The answers may come at different times.

* `filter_after` — what lies behind a row of a sorted list is what is greater;
* `pages_sublist` — if each answer is the first `k` rows behind the cursor in one list that are
  left at the time, the pages are in that list and have every row that stays.
-/

namespace Paging

variable {R O : Type}

/-- The pages that are read, one after the other: `query i c` is the answer to the `i`-th
question, for what lies behind the row `c`. -/
def pages (query : ℕ → Option R → List R) (k : ℕ) : (turns i : ℕ) → Option R → Option (List R)
  | 0, _, _ => none
  | turns + 1, i, cursor =>
    let page := query i cursor
    if page.length < k then some page
    else page.getLast?.bind fun last => (pages query k turns (i + 1) (some last)).map (page ++ ·)

/-- **The pages are what is left of the list.**  If each answer is the first `k` rows behind the
cursor that are left at the time, only rows of the list are read, each once and in order, and
every row that is left at each question is among them. -/
theorem pages_sublist (query : ℕ → Option R → List R) {k : ℕ} (hk : 0 < k) (rows : List R)
    (left : ℕ → R → Bool) (hfirst : query 0 none = (rows.filter (left 0)).take k)
    (hnext : ∀ i before last after, rows = before ++ last :: after →
      query (i + 1) (some last) = (after.filter (left (i + 1))).take k)
    {turns : ℕ} (hturns : rows.length < turns) :
    ∃ read, pages query k turns 0 none = some read ∧ read.Sublist rows ∧
      ∀ r ∈ rows, (∀ i, left i r = true) → r ∈ read := by
  -- what lies behind the rows that were seen is read by the pages that follow
  have hloop : ∀ (turns i : ℕ) (cursor : Option R) (seen rest : List R), rows = seen ++ rest →
      query i cursor = (rest.filter (left i)).take k → rest.length < turns →
      ∃ read, pages query k turns i cursor = some read ∧ read.Sublist rest ∧
        ∀ r ∈ rest, (∀ i, left i r = true) → r ∈ read := by
    intro turns
    induction turns with
    | zero => exact fun _ _ _ _ _ _ h => absurd h (Nat.not_lt_zero _)
    | succ turns ih =>
      intro i cursor seen rest hrows hquery hlen
      unfold pages
      dsimp only
      rw [hquery]
      by_cases hshort : (rest.filter (left i)).length < k
      · rw [List.take_of_length_le hshort.le, if_pos hshort]
        exact ⟨_, rfl, List.filter_sublist, fun r hr hleft => List.mem_filter.2 ⟨hr, hleft i⟩⟩
      · rw [if_neg (by rw [List.length_take]; omega)]
        obtain ⟨init, last, hpage⟩ : ∃ init last, (rest.filter (left i)).take k = init ++ [last] := by
          refine (List.eq_nil_or_concat' ((rest.filter (left i)).take k)).resolve_left fun hnil => ?_
          have hzero := congrArg List.length hnil
          rw [List.length_take, List.length_nil] at hzero
          omega
        have hkept : rest.filter (left i) = init ++ last :: (rest.filter (left i)).drop k := by
          rw [← List.singleton_append, ← List.append_assoc, ← hpage, List.take_append_drop]
        -- the rows up to the cursor, and the ones behind it
        obtain ⟨upTo, behind, hrest, hinit, hmore⟩ := List.filter_eq_append_iff.1 hkept
        obtain ⟨gap, after, hbehind, hgone, -, -⟩ := List.filter_eq_cons_iff.1 hmore
        have hupTo : (upTo ++ gap).filter (left i) = init := by
          rw [List.filter_append, hinit, List.filter_eq_nil_iff.2 hgone, List.append_nil]
        have hsplit : rest = (upTo ++ gap) ++ last :: after := by
          rw [hrest, hbehind, List.append_assoc]
        have hseen : rows = (seen ++ (upTo ++ gap)) ++ last :: after := by
          rw [hrows, hsplit, List.append_assoc seen]
        have hseen' : rows = (seen ++ (upTo ++ gap) ++ [last]) ++ after := by
          rw [hseen, List.append_assoc _ [last], List.singleton_append]
        have hfewer : after.length < turns := by
          rw [hsplit, List.length_append, List.length_cons] at hlen
          omega
        obtain ⟨read, hread, hsub, hall⟩ :=
          ih (i + 1) (some last) _ after hseen' (hnext i _ last after hseen) hfewer
        refine ⟨init ++ [last] ++ read, ?_, ?_, fun r hr hleft => ?_⟩
        · rw [hpage, List.getLast?_concat, Option.bind_some, hread, Option.map_some]
        · rw [hsplit, List.append_assoc, List.singleton_append, ← hupTo]
          exact List.filter_sublist.append (hsub.cons_cons last)
        · rw [hsplit] at hr
          rw [List.append_assoc, List.singleton_append]
          rcases List.mem_append.1 hr with hr | hr
          · exact List.mem_append_left _ (hupTo ▸ List.mem_filter.2 ⟨hr, hleft i⟩)
          · refine List.mem_append_right _ (List.mem_cons.2 ?_)
            exact (List.mem_cons.1 hr).imp_right fun hin => hall r hin hleft
  exact hloop turns 0 none [] rows rfl hfirst hturns

variable [LinearOrder O] {key : R → O}

/-- Behind a row of a sorted list lie the greater ones. -/
theorem filter_after {before after : List R} {r : R}
    (h : (before ++ r :: after).Pairwise fun a b => key a < key b) :
    (before ++ r :: after).filter (fun x => key r < key x) = after := by
  obtain ⟨-, hright, hcross⟩ := List.pairwise_append.1 h
  obtain ⟨hafter, -⟩ := List.pairwise_cons.1 hright
  have hbefore : before.filter (fun x => key r < key x) = [] := by
    refine List.filter_eq_nil_iff.2 fun x hx => ?_
    have hlt := hcross x hx r List.mem_cons_self
    simpa using hlt.le
  rw [List.filter_append, hbefore, List.nil_append, List.filter_cons_of_neg (by simp)]
  exact List.filter_eq_self.2 fun x hx => by simpa using hafter x hx

/-- Ordering and filtering go together, if the key tells the rows apart. -/
theorem orderBy_filter {rows : List R} (hinj : ∀ a ∈ rows, ∀ b ∈ rows, key a = key b → a = b)
    (p : R → Bool) : Rows.orderBy key (rows.filter p) = (Rows.orderBy key rows).filter p := by
  refine (Rows.eq_orderBy ((Rows.orderBy_perm key rows).filter p)
    ((Rows.pairwise_orderBy key rows).filter p) fun a ha b hb => ?_).symm
  exact hinj a (List.mem_of_mem_filter ha) b (List.mem_of_mem_filter hb)

/-- Rows that are told apart are ordered strictly. -/
theorem pairwise_lt_orderBy {rows : List R} (hnodup : rows.Nodup)
    (hinj : ∀ a ∈ rows, ∀ b ∈ rows, key a = key b → a = b) :
    (Rows.orderBy key rows).Pairwise fun a b => key a < key b := by
  have hperm := Rows.orderBy_perm key rows
  have hne : (Rows.orderBy key rows).Pairwise fun a b => a ≠ b := hperm.symm.nodup hnodup
  refine ((Rows.pairwise_orderBy key rows).and hne).imp_of_mem fun ha hb h => ?_
  exact lt_of_le_of_ne h.1 fun hkey => h.2 (hinj _ (hperm.subset ha) _ (hperm.subset hb) hkey)

/-- The first row of a page is not behind a row of the list it is the start of. -/
theorem exists_head_le {rows before after : List R} {r : R}
    (hsorted : rows.Pairwise fun a b => key a ≤ key b) (hrows : rows = before ++ r :: after)
    {k : ℕ} (hk : 0 < k) : ∃ first ∈ (rows.take k).head?, key first ≤ key r := by
  obtain ⟨n, rfl⟩ := Nat.exists_eq_add_of_lt hk
  rw [hrows] at hsorted ⊢
  rw [Nat.zero_add]
  cases before with
  | nil => exact ⟨r, rfl, le_refl _⟩
  | cons b before =>
    refine ⟨b, rfl, ?_⟩
    exact (List.pairwise_append.1 hsorted).2.2 b List.mem_cons_self r List.mem_cons_self

end Paging
