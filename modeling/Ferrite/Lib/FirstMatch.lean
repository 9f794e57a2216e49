import Mathlib.Data.List.Forall2
import Mathlib.Data.List.Sort

/-!
# Tiers of rules, the first that applies decides

A policy is a list of tiers, most specific first; each says which queries it applies to
and what its verdict is then.  `Decides` is the verdict of the first tier that applies.

`Decides.mono` compares two policies tier by tier: where those for a verdict apply more
often and the others less often, the verdict is reached at least as often.

A policy may also be kept as a list sorted by rank, searched from the front.
`firstBest_of_find?` says what the search finds in terms of the list as it was written:
the first of the highest rank among those that apply.
-/

namespace FirstMatch

variable {Q V : Type}

/-- A tier: which queries it applies to, and its verdict on them. -/
structure Tier (Q V : Type) where
  Applies : Q → Prop
  verdict : V

/-- The first tier that applies has the verdict. -/
inductive Decides : List (Tier Q V) → Q → V → Prop where
  | here {t : Tier Q V} {ts : List (Tier Q V)} {q : Q} :
      t.Applies q → Decides (t :: ts) q t.verdict
  | later {t : Tier Q V} {ts : List (Tier Q V)} {q : Q} {v : V} :
      ¬ t.Applies q → Decides ts q v → Decides (t :: ts) q v

theorem decides_cons_iff {t : Tier Q V} {ts : List (Tier Q V)} {q : Q} {v : V} :
    Decides (t :: ts) q v ↔ (t.Applies q ∧ v = t.verdict) ∨ (¬ t.Applies q ∧ Decides ts q v) := by
  constructor
  · intro h
    cases h with
    | here ha => exact Or.inl ⟨ha, rfl⟩
    | later hn hd => exact Or.inr ⟨hn, hd⟩
  · rintro (⟨ha, rfl⟩ | ⟨hn, hd⟩)
    · exact .here ha
    · exact .later hn hd

/-- A policy gives one verdict. -/
theorem Decides.unique {ts : List (Tier Q V)} {q : Q} {v w : V} (h : Decides ts q v)
    (h' : Decides ts q w) : v = w := by
  induction h with
  | here ha =>
    rcases decides_cons_iff.1 h' with ⟨-, rfl⟩ | ⟨hn, -⟩
    · rfl
    · exact absurd ha hn
  | later hn _ ih =>
    rcases decides_cons_iff.1 h' with ⟨ha, -⟩ | ⟨-, hd⟩
    · exact absurd ha hn
    · exact ih hd

/-- The second tier is at least as much for `v` as the first. -/
structure Favours (v : V) (q : Q) (t t' : Tier Q V) : Prop where
  verdict : t'.verdict = t.verdict
  more : t.verdict = v → t.Applies q → t'.Applies q
  less : t.verdict ≠ v → t'.Applies q → t.Applies q

/-- A tier whose reach does not change favours every verdict. -/
theorem Favours.refl {v : V} {q : Q} {t : Tier Q V} : Favours v q t t :=
  ⟨rfl, fun _ h => h, fun _ h => h⟩

/-- Where every tier favours `v`, it is still the verdict. -/
theorem Decides.mono {v : V} {q : Q} {ts ts' : List (Tier Q V)}
    (hfav : List.Forall₂ (Favours v q) ts ts') (h : Decides ts q v) : Decides ts' q v := by
  induction hfav with
  | nil => cases h
  | @cons t t' ts ts' ht _ ih =>
    by_cases ha : t'.Applies q
    · -- a tier for another verdict that applies now applied before, and decided
      have hv : t.verdict = v := by
        rcases decides_cons_iff.1 h with ⟨-, hv⟩ | ⟨hn, -⟩
        · exact hv.symm
        · exact of_not_not fun hne => hn (ht.less hne ha)
      rw [← hv, ← ht.verdict]
      exact .here ha
    · refine .later ha ?_
      rcases decides_cons_iff.1 h with ⟨hold, hv⟩ | ⟨-, hd⟩
      · exact absurd (ht.more hv.symm hold) ha
      · exact ih hd

/-! ## Rules sorted by rank -/

section Ranked

variable {α β : Type} [LinearOrder β]

/-- The member is the first of the highest rank among those of the list that apply. -/
structure FirstBest (rank : α → β) (applies : α → Bool) (l : List α) (a : α) : Prop where
  holds : applies a = true
  place : ∃ before after, l = before ++ a :: after ∧
    (∀ x ∈ before, applies x = true → rank x < rank a) ∧
    ∀ x ∈ after, applies x = true → rank x ≤ rank a

/-- Nothing that applies ranks above it. -/
theorem FirstBest.rank_le {rank : α → β} {applies : α → Bool} {l : List α} {a : α}
    (h : FirstBest rank applies l a) {x : α} (hx : x ∈ l) (ha : applies x = true) :
    rank x ≤ rank a := by
  obtain ⟨before, after, rfl, hbefore, hafter⟩ := h.place
  rcases List.mem_append.1 hx with hx | hx
  · exact (hbefore x hx ha).le
  · rcases List.mem_cons.1 hx with rfl | hx
    · exact le_rfl
    · exact hafter x hx ha

/-- Highest rank first; the order of equals is kept. -/
def byRank (rank : α → β) (l : List α) : List α := l.insertionSort fun a b => rank b ≤ rank a

@[simp] theorem mem_byRank {rank : α → β} {l : List α} {a : α} : a ∈ byRank rank l ↔ a ∈ l :=
  List.mem_insertionSort _

theorem pairwise_byRank (rank : α → β) (l : List α) :
    (byRank rank l).Pairwise fun a b => rank b ≤ rank a := by
  have htotal : Std.Total fun a b : α => rank b ≤ rank a := ⟨fun a b => le_total (rank b) (rank a)⟩
  have htrans : IsTrans α fun a b => rank b ≤ rank a := ⟨fun _ _ _ hab hbc => hbc.trans hab⟩
  exact List.pairwise_insertionSort _ l

/-- What a search finds after an insertion: the new member, if nothing that applies ranks
above it, or what it found before, if that does. -/
theorem find?_orderedInsert {rank : α → β} {applies : α → Bool} {l : List α} {x a : α}
    (hsorted : l.Pairwise fun a b => rank b ≤ rank a)
    (h : (l.orderedInsert (fun a b => rank b ≤ rank a) x).find? applies = some a) :
    (applies x = true ∧ a = x ∧ ∀ y ∈ l, applies y = true → rank y ≤ rank x) ∨
      (l.find? applies = some a ∧ (applies x = true → rank x < rank a)) := by
  induction l with
  | nil =>
    obtain ⟨hx, rfl⟩ : applies x = true ∧ x = a := by
      simpa [List.find?_singleton] using h
    exact Or.inl ⟨hx, rfl, by simp⟩
  | cons b l ih =>
    obtain ⟨hb, hl⟩ := List.pairwise_cons.1 hsorted
    rw [List.orderedInsert_cons] at h
    split at h
    next hle =>
      cases hx : applies x with
      | true =>
        rw [List.find?_cons_of_pos hx] at h
        refine Or.inl ⟨rfl, (Option.some.inj h).symm, fun y hy _ => ?_⟩
        rcases List.mem_cons.1 hy with rfl | hy
        · exact hle
        · exact (hb y hy).trans hle
      | false =>
        rw [List.find?_cons_of_neg (by simp [hx])] at h
        exact Or.inr ⟨h, by simp⟩
    next hlt =>
      cases hba : applies b with
      | true =>
        rw [List.find?_cons_of_pos hba] at h
        exact Or.inr ⟨by rw [List.find?_cons_of_pos hba, h],
          fun _ => Option.some.inj h ▸ not_le.1 hlt⟩
      | false =>
        have hskip : ¬ applies b = true := by simp [hba]
        rw [List.find?_cons_of_neg hskip] at h
        rw [List.find?_cons_of_neg hskip]
        refine (ih hl h).imp_left fun ⟨hx, ha, hall⟩ => ⟨hx, ha, fun y hy hya => ?_⟩
        rcases List.mem_cons.1 hy with rfl | hy
        · exact absurd hya hskip
        · exact hall y hy hya

/-- **The search of the sorted list finds the first of the highest rank.** -/
theorem firstBest_of_find? {rank : α → β} {applies : α → Bool} {l : List α} {a : α}
    (h : (byRank rank l).find? applies = some a) : FirstBest rank applies l a := by
  induction l generalizing a with
  | nil => exact absurd h (by simp [byRank])
  | cons x l ih =>
    rcases find?_orderedInsert (pairwise_byRank rank l) h with ⟨hx, rfl, hall⟩ | ⟨hfind, hlt⟩
    · exact ⟨hx, [], l, rfl, by simp, fun y hy hya => hall y (mem_byRank.2 hy) hya⟩
    · obtain ⟨before, after, rfl, hbefore, hafter⟩ := (ih hfind).place
      refine ⟨(ih hfind).holds, x :: before, after, rfl, fun y hy hya => ?_, hafter⟩
      rcases List.mem_cons.1 hy with rfl | hy
      · exact hlt hya
      · exact hbefore y hy hya

/-- There is one such member. -/
theorem FirstBest.unique {rank : α → β} {applies : α → Bool} {l : List α} {a a' : α}
    (h : FirstBest rank applies l a) (h' : FirstBest rank applies l a') : a = a' := by
  obtain ⟨before, after, rfl, hbefore, hafter⟩ := h.place
  obtain ⟨before', after', hsplit, hbefore', hafter'⟩ := h'.place
  -- the one that comes first would have to rank below the other, which ranks no higher
  rcases List.append_eq_append_iff.1 hsplit with ⟨between, hb, ha⟩ | ⟨between, hb, ha⟩
  · cases between with
    | nil => exact (List.cons.inj ha).1
    | cons x between =>
      obtain ⟨rfl, rfl⟩ := List.cons.inj ha
      have hlt := hbefore' a (by rw [hb]; simp) h.holds
      have hle := hafter a' (by simp) h'.holds
      exact absurd hlt (not_lt.2 hle)
  · cases between with
    | nil => exact (List.cons.inj ha).1.symm
    | cons x between =>
      obtain ⟨rfl, rfl⟩ := List.cons.inj ha
      have hlt := hbefore a' (by rw [hb]; simp) h'.holds
      have hle := hafter' a (by simp) h.holds
      exact absurd hlt (not_lt.2 hle)

/-- The search finds the first of the highest rank. -/
theorem FirstBest.find? {rank : α → β} {applies : α → Bool} {l : List α} {a : α}
    (h : FirstBest rank applies l a) : (byRank rank l).find? applies = some a := by
  obtain ⟨before, after, hl, -⟩ := h.place
  cases hfind : (byRank rank l).find? applies with
  | some a' => rw [h.unique (firstBest_of_find? hfind)]
  | none =>
    have hno := List.find?_eq_none.1 hfind a (mem_byRank.2 (by rw [hl]; simp))
    exact absurd h.holds hno

theorem FirstBest.mem {rank : α → β} {applies : α → Bool} {l : List α} {a : α}
    (h : FirstBest rank applies l a) : a ∈ l := by
  obtain ⟨before, after, rfl, -⟩ := h.place
  exact List.mem_append_right _ (List.mem_cons_self ..)

/-- It is so among fewer, too. -/
theorem FirstBest.filter {rank : α → β} {applies : α → Bool} {l : List α} {a : α}
    (h : FirstBest rank applies l a) (keep : α → Bool) (hkeep : keep a = true) :
    FirstBest rank applies (l.filter keep) a := by
  obtain ⟨before, after, rfl, hbefore, hafter⟩ := h.place
  refine ⟨h.holds, before.filter keep, after.filter keep, ?_, ?_, ?_⟩
  · rw [List.filter_append, List.filter_cons_of_pos hkeep]
  · exact fun x hx => hbefore x (List.mem_of_mem_filter hx)
  · exact fun x hx => hafter x (List.mem_of_mem_filter hx)

theorem rankLe_trans (rank : α → β) (a b c : α) (hab : decide (rank b ≤ rank a) = true)
    (hbc : decide (rank c ≤ rank b) = true) : decide (rank c ≤ rank a) = true :=
  decide_eq_true ((of_decide_eq_true hbc).trans (of_decide_eq_true hab))

theorem rankLe_total (rank : α → β) (a b : α) :
    (decide (rank b ≤ rank a) || decide (rank a ≤ rank b)) = true := by
  simpa using le_total (rank b) (rank a)

theorem pairwise_mergeSort (rank : α → β) (l : List α) :
    (l.mergeSort fun a b => decide (rank b ≤ rank a)).Pairwise fun a b => rank b ≤ rank a := by
  have hsorted := List.pairwise_mergeSort (rankLe_trans rank) (rankLe_total rank) l
  exact hsorted.imp of_decide_eq_true

/-- Where each rule stands for several members, the first of the highest rank belongs to a
rule before which nothing that applies ranks as high. -/
theorem FirstBest.exists_rule {ρ : Type} {rank : α → β} {applies : α → Bool} {expand : ρ → List α}
    {rules : List ρ} {a : α} (h : FirstBest rank applies (rules.flatMap expand) a) :
    ∃ earlier rule later before after, rules = earlier ++ rule :: later ∧
      expand rule = before ++ a :: after ∧
      ∀ x ∈ earlier.flatMap expand ++ before, applies x = true → rank x < rank a := by
  obtain ⟨before, after, hsplit, hbefore, -⟩ := h.place
  clear h
  induction rules generalizing before with
  | nil => exact absurd hsplit (by simp)
  | cons rule rules ih =>
    -- it is one of the rule's own members, or they all come before it
    have hcases : (∃ post, expand rule = before ++ a :: post) ∨ ∃ rest,
        before = expand rule ++ rest ∧ rules.flatMap expand = rest ++ a :: after := by
      rw [List.flatMap_cons, List.append_eq_append_iff] at hsplit
      rcases hsplit with h | ⟨rest, hrule, hrest⟩
      · exact Or.inr h
      · cases rest with
        | nil => exact Or.inr ⟨[], by simpa using hrule.symm, hrest.symm⟩
        | cons y rest => exact Or.inl ⟨rest, (List.cons.inj hrest).1 ▸ hrule⟩
    rcases hcases with ⟨post, hrule⟩ | ⟨rest, rfl, hrest⟩
    · exact ⟨[], rule, rules, before, post, rfl, hrule, by simpa using hbefore⟩
    · have hlater : ∀ x ∈ rest, applies x = true → rank x < rank a :=
        fun x hx => hbefore x (List.mem_append_right _ hx)
      obtain ⟨earlier, rule', later, pre, post, rfl, hexpand, hlt⟩ := ih rest hrest hlater
      refine ⟨rule :: earlier, rule', later, pre, post, rfl, hexpand, fun x hx => ?_⟩
      rw [List.flatMap_cons, List.append_assoc] at hx
      rcases List.mem_append.1 hx with hx | hx
      · exact hbefore x (List.mem_append_left _ hx)
      · exact hlt x hx

end Ranked

end FirstMatch
