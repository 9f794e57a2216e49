import Mathlib.Data.List.Basic

/-!
# Machines that answer: runs and traces

A machine here is a total step function `S → E → S × O`: it takes an event in a
state, moves on and puts something out.  `run` is the state after a list of
events, `trace` the list of everything that happened on the way, with the state
before and after each event.

The rules the developments over it use:

* `inv_of_mem_trace` — an invariant kept by every step that meets a guard holds
  around every entry of a trace whose steps all meet it;
* `holds_until` — a fact established by one entry either lasts up to a later
  one, or an entry in between gave it up.
-/

namespace Mealy

/-- One step of a run: what happened, what was put out, and the states around it. -/
structure Entry (S E O : Type) where
  before : S
  event : E
  output : O
  after : S

variable {S E O : Type} (step : S → E → S × O)

/-- The state after a list of events. -/
def run (s : S) : List E → S
  | [] => s
  | e :: es => run (step s e).1 es

/-- Everything that happens on the way. -/
def trace (s : S) : List E → List (Entry S E O)
  | [] => []
  | e :: es => ⟨s, e, (step s e).2, (step s e).1⟩ :: trace (step s e).1 es

@[simp] theorem trace_nil (s : S) : trace step s [] = [] := rfl

/-- The events of a trace are the events of the run. -/
theorem map_event_trace (s : S) (es : List E) :
    (trace step s es).map Entry.event = es := by
  induction es generalizing s with
  | nil => rfl
  | cons e es ih => simp [trace, ih]

theorem run_append (s : S) (es fs : List E) : run step s (es ++ fs) = run step (run step s es) fs := by
  induction es generalizing s with
  | nil => rfl
  | cons e es ih => exact ih _

theorem length_trace (s : S) (es : List E) : (trace step s es).length = es.length := by
  induction es generalizing s with
  | nil => rfl
  | cons e es ih => simp [trace, ih]

/-- An entry of a trace is the step that its event makes after the events before it. -/
theorem getElem?_trace (s : S) (es : List E) (i : ℕ) :
    (trace step s es)[i]? = es[i]?.map fun e =>
      ⟨run step s (es.take i), e, (step (run step s (es.take i)) e).2,
        (step (run step s (es.take i)) e).1⟩ := by
  induction es generalizing s i with
  | nil => simp
  | cons e es ih =>
    cases i with
    | zero => simp [trace, run]
    | succ i => simp [trace, run, ih]

/-- Every entry of a trace is a step of the machine. -/
theorem step_of_mem_trace {s : S} {es : List E} {x : Entry S E O} (h : x ∈ trace step s es) :
    step x.before x.event = (x.after, x.output) := by
  induction es generalizing s with
  | nil => simp at h
  | cons e es ih =>
    rcases List.mem_cons.1 h with rfl | h
    · rfl
    · exact ih h

/-- **Invariant rule.**  An invariant that every step meeting the guard keeps
holds around every entry of a trace whose steps all meet the guard. -/
theorem inv_of_mem_trace {inv : S → Prop} {guard : S → E → Prop}
    (hstep : ∀ s e, guard s e → inv s → inv (step s e).1)
    {s : S} {es : List E} (hs : inv s)
    (hg : ∀ x ∈ trace step s es, guard x.before x.event)
    {x : Entry S E O} (hx : x ∈ trace step s es) : inv x.before ∧ inv x.after := by
  induction es generalizing s with
  | nil => simp at hx
  | cons e es ih =>
    have hnext : inv (step s e).1 := hstep s e (hg _ (List.mem_cons_self ..)) hs
    rcases List.mem_cons.1 hx with rfl | hx
    · exact ⟨hs, hnext⟩
    · exact ih hnext (fun y hy => hg y (List.mem_cons_of_mem _ hy)) hx

/-- Consecutive entries meet: one starts where the other ended. -/
theorem before_succ {s : S} {es : List E} {i : ℕ} {x y : Entry S E O}
    (hx : (trace step s es)[i]? = some x) (hy : (trace step s es)[i + 1]? = some y) :
    y.before = x.after := by
  induction es generalizing s i with
  | nil => simp at hx
  | cons e es ih =>
    match i with
    | 0 =>
      simp only [trace, List.getElem?_cons_zero, Option.some.injEq] at hx
      subst hx
      match es with
      | [] => simp [trace] at hy
      | f :: fs =>
        simp only [trace, List.getElem?_cons_succ, List.getElem?_cons_zero,
          Option.some.injEq] at hy
        subst hy
        rfl
    | i + 1 =>
      simp only [trace, List.getElem?_cons_succ] at hx hy
      exact ih hx hy

/-- **Until rule.**  A fact that holds after entry `i` holds before a later entry
`j`, or some entry strictly between them gave it up. -/
theorem holds_until {fact : S → Prop} {gaveUp : Entry S E O → Prop}
    {s : S} {es : List E} {i : ℕ} {x : Entry S E O}
    (hx : (trace step s es)[i]? = some x) (hfact : fact x.after) :
    ∀ {j : ℕ} {y : Entry S E O}, i < j → (trace step s es)[j]? = some y →
      (∀ k z, i < k → k < j → (trace step s es)[k]? = some z → fact z.before →
        ¬ gaveUp z → fact z.after) →
      (∃ k z, i < k ∧ k < j ∧ (trace step s es)[k]? = some z ∧ gaveUp z) ∨
        fact y.before := by
  intro j
  induction j with
  | zero => intro y hij _ _; omega
  | succ j ih =>
    intro y hij hy hkeep
    by_cases heq : i = j
    · subst heq
      right
      rw [before_succ step hx hy]
      exact hfact
    · have hlt : i < j := by omega
      have hlen : j + 1 < (trace step s es).length := (List.getElem?_eq_some_iff.1 hy).1
      obtain ⟨w, hw⟩ : ∃ w, (trace step s es)[j]? = some w :=
        ⟨_, List.getElem?_eq_getElem (by omega)⟩
      rcases ih hlt hw (fun k z hik hkj => hkeep k z hik (by omega)) with h | h
      · obtain ⟨k, z, hik, hkj, hz, hg⟩ := h
        exact Or.inl ⟨k, z, hik, by omega, hz, hg⟩
      · by_cases hg : gaveUp w
        · exact Or.inl ⟨j, w, hlt, by omega, hw, hg⟩
        · right
          rw [before_succ step hw hy]
          exact hkeep j w hlt (by omega) hw h hg

end Mealy
