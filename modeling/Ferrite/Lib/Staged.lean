import Mathlib.Data.List.Basic
import Mathlib.Data.List.Forall2

/-!
# Writes one after another, any of which may be refused

A state is changed field by field.  Each stage looks at the state as the stages before
it left it, and either refuses, or says nothing about its field, or writes a value to
it.  The first refusal ends the run, and what was written before it stays written.

What is proved about a run over fields that do not overlap:

* `get_run` — the field of a stage ends up as that stage asked, or as it was;
* `get_run_of_misses` — what no stage writes to is kept;
* `refused_unchanged_iff` — a refused run leaves the state as it was exactly when
  everything before the refused stage asked for what was there already.
-/

namespace Ferrite

/-! ## Computations that may be refused -/

section Fallible

variable {E A B : Type} {x : Except E A}

theorem bind_eq_ok_iff {f : A → Except E B} {b : B} :
    x >>= f = .ok b ↔ ∃ a, x = .ok a ∧ f a = .ok b := by
  cases x with
  | error e => simp [bind, Except.bind]
  | ok a => simp [bind, Except.bind]

theorem ok_bind (a : A) (f : A → Except E B) : (Except.ok a >>= f) = f a := rfl

theorem map_eq_ok_iff {f : A → B} {b : B} : x.map f = .ok b ↔ ∃ a, x = .ok a ∧ f a = b := by
  cases x with
  | error e => simp [Except.map]
  | ok a => simp [Except.map]

theorem map_eq_error_iff {f : A → B} {e : E} : x.map f = .error e ↔ x = .error e := by
  cases x with
  | error e' => simp [Except.map]
  | ok a => simp [Except.map]

/-- A traversal that is not refused. -/
theorem mapM_eq_ok_iff {f : A → Except E B} {l : List A} {bs : List B} :
    l.mapM f = .ok bs ↔ List.Forall₂ (fun a b => f a = .ok b) l bs := by
  induction l generalizing bs with
  | nil =>
    rw [List.mapM_nil, List.forall₂_nil_left_iff]
    exact ⟨fun h => (Except.ok.inj h).symm, fun h => congrArg Except.ok h.symm⟩
  | cons a l ih =>
    rw [List.mapM_cons, bind_eq_ok_iff, List.forall₂_cons_left_iff]
    refine exists_congr fun b => ?_
    rw [bind_eq_ok_iff]
    constructor
    · rintro ⟨hb, bs', hbs, h⟩
      cases h
      exact ⟨bs', hb, ih.1 hbs, rfl⟩
    · rintro ⟨bs', hb, hbs, rfl⟩
      exact ⟨hb, bs', ih.2 hbs, rfl⟩

end Fallible

/-! ### Lists that go together -/

section Forall₂

variable {A B : Type} {R : A → B → Prop} {l : List A} {m : List B}

theorem forall₂_mem_left (h : List.Forall₂ R l m) {a : A} (ha : a ∈ l) : ∃ b ∈ m, R a b := by
  induction h with
  | nil => cases ha
  | cons hr _ ih =>
    rcases List.mem_cons.1 ha with rfl | ha
    · exact ⟨_, List.mem_cons_self .., hr⟩
    · obtain ⟨b, hb, hrb⟩ := ih ha
      exact ⟨b, List.mem_cons_of_mem _ hb, hrb⟩

theorem forall₂_mem_right (h : List.Forall₂ R l m) {b : B} (hb : b ∈ m) : ∃ a ∈ l, R a b := by
  induction h with
  | nil => cases hb
  | cons hr _ ih =>
    rcases List.mem_cons.1 hb with rfl | hb
    · exact ⟨_, List.mem_cons_self .., hr⟩
    · obtain ⟨a, ha, hra⟩ := ih hb
      exact ⟨a, List.mem_cons_of_mem _ ha, hra⟩

theorem exists_forall₂ (h : ∀ a ∈ l, ∃ b, R a b) : ∃ m, List.Forall₂ R l m := by
  induction l with
  | nil => exact ⟨[], List.Forall₂.nil⟩
  | cons a l ih =>
    obtain ⟨b, hb⟩ := h a (List.mem_cons_self ..)
    obtain ⟨m, hm⟩ := ih fun a ha => h a (List.mem_cons_of_mem _ ha)
    exact ⟨b :: m, List.Forall₂.cons hb hm⟩

end Forall₂

/-! ## Fields -/

/-- A part of a state that can be read and written. -/
structure Field (S V : Type) where
  get : S → V
  set : S → V → S
  get_set : ∀ s v, get (set s v) = v
  set_get : ∀ s, set s (get s) = s

namespace Field

variable {S V W : Type}

/-- Writing to `b` does not show at `a`. -/
def Misses (a : Field S V) (b : Field S W) : Prop := ∀ s w, a.get (b.set s w) = a.get s

/-- Neither field shows what is written to the other. -/
def Apart (a : Field S V) (b : Field S W) : Prop := a.Misses b ∧ b.Misses a

/-- The field that is no part of the state. -/
def none : Field S Unit where
  get _ := ()
  set s _ := s
  get_set _ _ := rfl
  set_get _ := rfl

theorem set_eq_self_iff (f : Field S V) {s : S} {v : V} : f.set s v = s ↔ f.get s = v := by
  constructor
  · intro h
    rw [← f.get_set s v, h]
  · rintro rfl
    exact f.set_get s

end Field

/-! ## Stages -/

/-- A stage: its field, what it asks for it, and what it reports having written. -/
structure Stage (S E L : Type) : Type 1 where
  V : Type
  field : Field S V
  ask : S → Except E (Option V)
  note : List L

namespace Stage

variable {S E L : Type}

/-- A stage that only refuses. -/
def check (refuse : S → Option E) : Stage S E L where
  V := Unit
  field := .none
  ask s := (refuse s).elim (.ok none) .error
  note := []

/-- One stage. -/
def step (st : Stage S E L) (s : S) : Except E (S × List L) :=
  match st.ask s with
  | .error e => .error e
  | .ok none => .ok (s, [])
  | .ok (some v) => .ok (st.field.set s v, st.note)

/-- The stages in turn, up to the first refusal. -/
def run : List (Stage S E L) → S → S × Except E (List L)
  | [], s => (s, .ok [])
  | st :: sts, s =>
    match st.step s with
    | .error e => (s, .error e)
    | .ok (s', note) => ((run sts s').1, (run sts s').2.map (note ++ ·))

/-- The stage is not refused, and asks for nothing but what is there. -/
def Quiet (st : Stage S E L) (s : S) : Prop :=
  ∃ o, st.ask s = .ok o ∧ ∀ v, o = some v → st.field.get s = v

/-- Some stage is refused, and all before it are quiet. -/
def RefusedFirst (sts : List (Stage S E L)) (s : S) : Prop :=
  ∃ pre st post e, sts = pre ++ st :: post ∧ st.ask s = .error e ∧ ∀ q ∈ pre, q.Quiet s

variable {st : Stage S E L} {sts : List (Stage S E L)} {s : S}

/-! ### One stage -/

theorem step_of_quiet (h : st.Quiet s) : ∃ note, st.step s = .ok (s, note) := by
  obtain ⟨o, ho, hv⟩ := h
  unfold step
  rw [ho]
  cases o with
  | none => exact ⟨[], rfl⟩
  | some v =>
    refine ⟨st.note, ?_⟩
    show Except.ok (st.field.set s v, st.note) = .ok (s, st.note)
    rw [st.field.set_eq_self_iff.2 (hv v rfl)]

/-- A stage that is not refused either leaves the state alone or writes to its field. -/
theorem step_cases {s' : S} {note : List L} (h : st.step s = .ok (s', note)) :
    (st.ask s = .ok none ∧ s' = s) ∨ ∃ v, st.ask s = .ok (some v) ∧ s' = st.field.set s v := by
  unfold step at h
  split at h
  · cases h
  · rename_i ha
    cases h
    exact Or.inl ⟨ha, rfl⟩
  · rename_i v ha
    cases h
    exact Or.inr ⟨v, ha, rfl⟩

theorem step_eq_error_iff {e : E} : st.step s = .error e ↔ st.ask s = .error e := by
  unfold step
  split
  · rename_i ha
    rw [ha]
    simp
  · rename_i ha
    rw [ha]
    simp
  · rename_i v ha
    rw [ha]
    simp

/-! ### A whole run -/

theorem run_cons_of_ok {s' : S} {note : List L} (h : st.step s = .ok (s', note)) :
    run (st :: sts) s = ((run sts s').1, (run sts s').2.map (note ++ ·)) := by
  rw [run, h]

theorem run_cons_of_error {e : E} (h : st.step s = .error e) :
    run (st :: sts) s = (s, .error e) := by
  rw [run, h]

/-- What no stage writes to is kept. -/
theorem get_run_of_misses {V : Type} {f : Field S V} (h : ∀ b ∈ sts, f.Misses b.field) :
    f.get (run sts s).1 = f.get s := by
  induction sts generalizing s with
  | nil => rfl
  | cons st sts ih =>
    have hrest := fun b hb => h b (List.mem_cons_of_mem st hb)
    cases hs : st.step s with
    | error e => rw [run_cons_of_error hs]
    | ok r =>
      obtain ⟨s', note⟩ := r
      rw [run_cons_of_ok hs]
      show f.get (run sts s').1 = f.get s
      rw [ih hrest]
      rcases step_cases hs with ⟨-, rfl⟩ | ⟨v, -, rfl⟩
      · rfl
      · exact h st List.mem_cons_self s v

/-- The field of a stage ends up as that stage asked, or as it was.  `s₀` is the state the
stage was taken in. -/
theorem get_run {out : List L} (hsts : sts.Pairwise fun a b => a.field.Apart b.field)
    (hst : st ∈ sts) (hok : (run sts s).2 = .ok out) :
    ∃ s₀ o, st.field.get s₀ = st.field.get s ∧ st.ask s₀ = .ok o ∧
      st.field.get (run sts s).1 = o.getD (st.field.get s) := by
  induction sts generalizing s out with
  | nil => cases hst
  | cons a sts ih =>
    obtain ⟨ha, hrest⟩ := List.pairwise_cons.1 hsts
    cases hs : a.step s with
    | error e =>
      rw [run_cons_of_error hs] at hok
      cases hok
    | ok r =>
      obtain ⟨s', note⟩ := r
      rw [run_cons_of_ok hs] at hok ⊢
      obtain ⟨out', hok', -⟩ := map_eq_ok_iff.1 hok
      rcases List.mem_cons.1 hst with rfl | hst
      · have hkeep : st.field.get (run sts s').1 = st.field.get s' :=
          get_run_of_misses fun b hb => (ha b hb).1
        show ∃ s₀ o, st.field.get s₀ = st.field.get s ∧ st.ask s₀ = .ok o ∧
          st.field.get (run sts s').1 = o.getD (st.field.get s)
        rw [hkeep]
        rcases step_cases hs with ⟨hask, rfl⟩ | ⟨v, hask, rfl⟩
        · exact ⟨s', none, rfl, hask, rfl⟩
        · exact ⟨s, some v, rfl, hask, st.field.get_set s v⟩
      · have hkeep : st.field.get s' = st.field.get s := by
          rcases step_cases hs with ⟨-, rfl⟩ | ⟨v, -, rfl⟩
          · rfl
          · exact (ha st hst).2 s v
        rw [← hkeep]
        exact ih hrest hst hok'

/-! ### A refused run -/

theorem run_of_refusedFirst (h : RefusedFirst sts s) : (run sts s).1 = s := by
  obtain ⟨pre, st, post, e, rfl, he, hpre⟩ := h
  induction pre with
  | nil =>
    rw [List.nil_append, run_cons_of_error (step_eq_error_iff.2 he)]
  | cons a pre ih =>
    obtain ⟨note, hs⟩ := step_of_quiet (hpre a List.mem_cons_self)
    rw [List.cons_append, run_cons_of_ok hs]
    exact ih fun q hq => hpre q (List.mem_cons_of_mem a hq)

theorem RefusedFirst.cons (hst : st.Quiet s) (h : RefusedFirst sts s) :
    RefusedFirst (st :: sts) s := by
  obtain ⟨pre, r, post, e, rfl, he, hpre⟩ := h
  refine ⟨st :: pre, r, post, e, rfl, he, ?_⟩
  intro q hq
  rcases List.mem_cons.1 hq with rfl | hq
  · exact hst
  · exact hpre q hq

/-- A refused run that ends where it began wrote nothing new on its way: what the first
stage wrote would still show, since no other stage writes there. -/
theorem refusedFirst_of_run {e : E} (hsts : sts.Pairwise fun a b => a.field.Apart b.field)
    (herr : (run sts s).2 = .error e) (h : (run sts s).1 = s) : RefusedFirst sts s := by
  induction sts with
  | nil => cases herr
  | cons st sts ih =>
    obtain ⟨hst, hrest⟩ := List.pairwise_cons.1 hsts
    cases hs : st.step s with
    | error e' => exact ⟨[], st, sts, e', rfl, step_eq_error_iff.1 hs, by simp⟩
    | ok r =>
      obtain ⟨s', note⟩ := r
      rw [run_cons_of_ok hs] at herr h
      have herr' := map_eq_error_iff.1 herr
      rcases step_cases hs with ⟨ha, rfl⟩ | ⟨v, ha, rfl⟩
      · exact (ih hrest herr' h).cons ⟨none, ha, by simp⟩
      · have hshow : st.field.get s = v := by
          have hkeep := get_run_of_misses (s := st.field.set s v) fun b hb => (hst b hb).1
          rw [h, st.field.get_set] at hkeep
          exact hkeep
        have hsame : st.field.set s v = s := st.field.set_eq_self_iff.2 hshow
        rw [hsame] at herr' h
        refine (ih hrest herr' h).cons ⟨some v, ha, ?_⟩
        intro w hw
        cases hw
        exact hshow

/-- A refused run leaves the state as it was exactly when everything before the refused
stage asked for what was there already. -/
theorem refused_unchanged_iff {e : E} (hsts : sts.Pairwise fun a b => a.field.Apart b.field)
    (herr : (run sts s).2 = .error e) : (run sts s).1 = s ↔ RefusedFirst sts s :=
  ⟨refusedFirst_of_run hsts herr, run_of_refusedFirst⟩

end Stage

end Ferrite
