import Mathlib.Data.List.ReduceOption
import Ferrite.Lib.Staged

/-!
# What was stated last

A state is built from statements one after another, and one that is refused ends the run.  A
field of the state is set by the statements about it, so that the last one counts, or it is
lengthened by them.

* `Sets.run` — a field that is set has the value that was stated last;
* `Lengthens.run` — a field that is lengthened has all that was stated, in order;
* `last_flatMap` — the last statement of several sections is the last one of the last section
  that has any;
* `last_eq_iff`, `flatMap_eq_iff` — when one section by itself has the last statement of all, and
  all the items.
-/

namespace Statements

/-! ## The last value -/

section Last

variable {A : Type}

/-- The last of the values that are there. -/
def last (vs : List (Option A)) : Option A := vs.reduceOption.getLast?

@[simp] theorem last_nil : last ([] : List (Option A)) = none := rfl

theorem last_append (us vs : List (Option A)) : last (us ++ vs) = (last vs).or (last us) := by
  unfold last
  rw [List.reduceOption_append, List.getLast?_append]

theorem last_cons (v : Option A) (vs : List (Option A)) : last (v :: vs) = (last vs).or v := by
  rw [← List.singleton_append, last_append]
  cases v <;> rfl

theorem last_eq_none_iff {vs : List (Option A)} : last vs = none ↔ ∀ v ∈ vs, v = none := by
  induction vs with
  | nil => simp
  | cons v vs ih => rw [last_cons, Option.or_eq_none_iff, ih, List.forall_mem_cons, and_comm]

theorem last_flatMap {B : Type} (f : B → List (Option A)) (bs : List B) :
    last (bs.flatMap f) = last (bs.map fun b => last (f b)) := by
  induction bs with
  | nil => rfl
  | cons b bs ih => rw [List.flatMap_cons, last_append, ih, List.map_cons, last_cons]

/-- Sections that have no value do not count. -/
theorem last_map_filter {B : Type} {f : B → Option A} {p : B → Bool} {bs : List B}
    (h : ∀ b ∈ bs, p b = false → f b = none) : last (bs.map f) = last ((bs.filter p).map f) := by
  induction bs with
  | nil => rfl
  | cons b bs ih =>
    have hrest := ih fun c hc => h c (List.mem_cons_of_mem _ hc)
    cases hb : p b with
    | true =>
      rw [List.filter_cons_of_pos hb, List.map_cons, List.map_cons, last_cons, last_cons, hrest]
    | false =>
      rw [List.filter_cons_of_neg (by simp [hb]), List.map_cons, last_cons, hrest,
        h b (List.mem_cons_self ..) hb, Option.or_none]

/-- Nor do sections without items. -/
theorem flatMap_filter {B : Type} {f : B → List A} {p : B → Bool} {bs : List B}
    (h : ∀ b ∈ bs, p b = false → f b = []) : bs.flatMap f = (bs.filter p).flatMap f := by
  induction bs with
  | nil => rfl
  | cons b bs ih =>
    have hrest := ih fun c hc => h c (List.mem_cons_of_mem _ hc)
    cases hb : p b with
    | true => rw [List.filter_cons_of_pos hb, List.flatMap_cons, List.flatMap_cons, hrest]
    | false =>
      rw [List.filter_cons_of_neg (by simp [hb]), List.flatMap_cons, hrest,
        h b (List.mem_cons_self ..) hb, List.nil_append]

/-- A value in the middle is the last one if it is there when an earlier one is, and later ones
only repeat it. -/
theorem last_eq_iff {before after : List (Option A)} {v : Option A} :
    last (before ++ v :: after) = v ↔
      (∀ u ∈ before, u ≠ none → v ≠ none) ∧ ∀ a, last after = some a → v = some a := by
  rw [last_append, last_cons]
  cases hafter : last after with
  | some a =>
    simp only [Option.some_or, Option.some.injEq, forall_eq']
    constructor
    · rintro rfl
      exact ⟨fun _ _ _ => Option.some_ne_none a, rfl⟩
    · exact fun h => h.2.symm
  | none =>
    simp only [Option.none_or, reduceCtorEq, false_implies, implies_true, and_true]
    cases v with
    | some a => simp
    | none =>
      rw [Option.none_or, last_eq_none_iff]
      exact forall₂_congr fun u _ => by simp

/-- One section in the middle has all the items exactly if the others have none. -/
theorem flatMap_eq_iff {B : Type} {f : B → List A} {before after : List B} {b : B} :
    (before ++ b :: after).flatMap f = f b ↔ ∀ c ∈ before ++ after, f c = [] := by
  rw [List.flatMap_append, List.flatMap_cons, List.forall_mem_append]
  constructor
  · intro h
    have hlen := congrArg List.length h
    rw [List.length_append, List.length_append] at hlen
    have hbefore : before.flatMap f = [] := List.eq_nil_of_length_eq_zero (by omega)
    have hafter : after.flatMap f = [] := List.eq_nil_of_length_eq_zero (by omega)
    exact ⟨List.flatMap_eq_nil_iff.1 hbefore, List.flatMap_eq_nil_iff.1 hafter⟩
  · rintro ⟨hbefore, hafter⟩
    rw [List.flatMap_eq_nil_iff.2 hbefore, List.flatMap_eq_nil_iff.2 hafter, List.nil_append,
      List.append_nil]

end Last

/-! ## Runs -/

variable {S T A E : Type} (step : S → T → Except E S)

/-- A field that every statement about it sets. -/
def Sets (get : S → Option A) (stated : T → Option A) : Prop :=
  ∀ s t s', step s t = .ok s' → get s' = (stated t).or (get s)

/-- A field that every statement about it lengthens. -/
def Lengthens (get : S → List A) (stated : T → List A) : Prop :=
  ∀ s t s', step s t = .ok s' → get s' = get s ++ stated t

variable {step}

/-- **The last statement counts.** -/
theorem Sets.run {get : S → Option A} {stated : T → Option A} (h : Sets step get stated)
    {ts : List T} {s s' : S} (hrun : ts.foldlM step s = .ok s') :
    get s' = (last (ts.map stated)).or (get s) := by
  induction ts generalizing s with
  | nil =>
    cases hrun
    rfl
  | cons t ts ih =>
    obtain ⟨s₁, hstep, hrun⟩ := Ferrite.bind_eq_ok_iff.1 hrun
    rw [ih hrun, h s t s₁ hstep, List.map_cons, last_cons, Option.or_assoc]

/-- **All of them are kept.** -/
theorem Lengthens.run {get : S → List A} {stated : T → List A} (h : Lengthens step get stated)
    {ts : List T} {s s' : S} (hrun : ts.foldlM step s = .ok s') :
    get s' = get s ++ ts.flatMap stated := by
  induction ts generalizing s with
  | nil =>
    cases hrun
    exact (List.append_nil _).symm
  | cons t ts ih =>
    obtain ⟨s₁, hstep, hrun⟩ := Ferrite.bind_eq_ok_iff.1 hrun
    rw [ih hrun, h s t s₁ hstep, List.flatMap_cons, List.append_assoc]

end Statements
