import Ferrite.Core.Text
import Ferrite.Lib.Mealy
import Ferrite.Lib.Table

/-!
# Tunnel alerts

`note_health` of `proxy/src/lib.rs`, which the watcher of `proxy/src/alerts.rs` feeds one
health sample after the other: of an egress that is down it keeps since when it is and
whether that was reported, and what it returns is the alert to send.

* `noteHealth_spec` — the watch is one machine for each egress, and none looks at another;
* `tracks_run` — what such a machine knows after some samples is what they say: the outage
  that is on, and whether it has lasted the grace;
* `alerts_tell_one_story` — so the alerts of an egress are its outages, each told once.
-/

namespace Ferrite.Proxy.Alerts

/-! ## The watch -/

/-- `ALERT_GRACE`, in nanoseconds. -/
def alertGrace : ℕ := 60 * 10 ^ 9

/-- `DownState`; an `Instant` is the nanoseconds it has on its clock. -/
structure DownState where
  since : ℕ
  alerted : Bool
deriving DecidableEq, Repr

/-- `AlertEvent`. -/
inductive AlertEvent where
  | down (downFor : ℕ)
  | up (downFor : ℕ)
deriving DecidableEq, Repr

/-- The egresses that are down. -/
abbrev Watch := Table Text DownState

/-- `note_health`; `duration_since` is zero for a later instant. -/
def noteHealth (down : Watch) (id : Text) (healthy : Bool) (now : ℕ) :
    Watch × Option AlertEvent :=
  if healthy then
    match down.lookup id with
    | none => (down, none)
    | some d => (down.erase id, if d.alerted then some (.up (now - d.since)) else none)
  else
    let d := (down.lookup id).getD ⟨now, false⟩
    let downFor := now - d.since
    if !d.alerted && decide (alertGrace ≤ downFor) then
      (down.insert id { d with alerted := true }, some (.down downFor))
    else (down.insert id d, none)

/-- `clear_health_watch`. -/
def clearHealthWatch (_ : Watch) : Watch := ∅

/-- `retain_health_watch`. -/
def retainHealthWatch (down : Watch) (keep : Text → Bool) : Watch := down.retain fun id _ => keep id

/-- What the watcher does. -/
inductive Event where
  | sample (id : Text) (healthy : Bool) (now : ℕ)
  | retain (keep : Text → Bool)
  | clear

/-- One call of the watcher, and the alert it gives. -/
def step (down : Watch) : Event → Watch × Option AlertEvent
  | .sample id healthy now => noteHealth down id healthy now
  | .retain keep => (retainHealthWatch down keep, none)
  | .clear => (clearHealthWatch down, none)

/-! ## One egress -/

/-- A health sample. -/
structure Sample where
  healthy : Bool
  now : ℕ
deriving DecidableEq, Repr

/-- What a sample does to the entry of its egress. -/
def note (d : Option DownState) (x : Sample) : Option DownState × Option AlertEvent :=
  if x.healthy then
    (none, d.bind fun d => if d.alerted then some (.up (x.now - d.since)) else none)
  else
    let d := d.getD ⟨x.now, false⟩
    if !d.alerted && decide (alertGrace ≤ x.now - d.since) then
      (some { d with alerted := true }, some (.down (x.now - d.since)))
    else (some d, none)

/-- A sample moves the machine of its egress and no other. -/
theorem noteHealth_spec (down : Watch) (id : Text) (x : Sample) :
    (noteHealth down id x.healthy x.now).2 = (note (down.lookup id) x).2 ∧
      ∀ id', (noteHealth down id x.healthy x.now).1.lookup id' =
        if id' = id then (note (down.lookup id) x).1 else down.lookup id' := by
  unfold noteHealth note
  cases hhealthy : x.healthy with
  | true =>
    cases hold : down.lookup id with
    | none =>
      refine ⟨rfl, fun id' => ?_⟩
      by_cases hid : id' = id
      · subst hid
        simp [hold]
      · simp [hid]
    | some d =>
      refine ⟨rfl, fun id' => ?_⟩
      simp [Table.lookup_erase_eq]
  | false =>
    simp only [Bool.false_eq_true, if_false]
    split
    · exact ⟨rfl, fun id' => Table.lookup_insert_eq ..⟩
    · exact ⟨rfl, fun id' => Table.lookup_insert_eq ..⟩

/-- The sample of an egress. -/
def Event.sampleOf (id : Text) : Event → Option Sample
  | .sample id' healthy now => if id' = id then some ⟨healthy, now⟩ else none
  | _ => none

/-- The samples of an egress. -/
def samplesOf (id : Text) (es : List Event) : List Sample := es.filterMap (Event.sampleOf id)

/-- What its samples were answered, in a run that starts with nothing down. -/
def reportsOf (id : Text) (es : List Event) : List (Option AlertEvent) :=
  (Mealy.trace step ∅ es).filterMap fun x => (x.event.sampleOf id).map fun _ => x.output

/-- The watch of the egress is not cleared. -/
def Event.Keeps (id : Text) : Event → Prop
  | .sample _ _ _ => True
  | .retain keep => keep id = true
  | .clear => False

instance (id : Text) : ∀ e : Event, Decidable (e.Keeps id)
  | .sample _ _ _ => isTrue trivial
  | .retain keep => inferInstanceAs (Decidable (keep id = true))
  | .clear => isFalse fun h => h

theorem reports_eq {id : Text} {es : List Event} (h : ∀ e ∈ es, e.Keeps id) :
    reportsOf id es =
      (Mealy.trace note none (samplesOf id es)).map Mealy.Entry.output := by
  have hfrom : ∀ down : Watch,
      ((Mealy.trace step down es).filterMap fun x => (x.event.sampleOf id).map fun _ => x.output) =
        (Mealy.trace note (down.lookup id) (samplesOf id es)).map Mealy.Entry.output := by
    induction es with
    | nil => exact fun down => rfl
    | cons e es ih =>
      intro down
      obtain ⟨he, hes⟩ := List.forall_mem_cons.1 h
      have ih := ih hes
      cases e with
      | sample id' healthy now =>
        obtain ⟨hout, hlookup⟩ := noteHealth_spec down id' ⟨healthy, now⟩
        rw [Mealy.trace, List.filterMap_cons, ih]
        by_cases hid : id' = id
        · subst hid
          have hnow := hlookup id'
          rw [if_pos rfl] at hnow
          simp only [Event.sampleOf, if_true, Option.map_some, samplesOf, List.filterMap_cons]
          rw [Mealy.trace, List.map_cons]
          simp only [step]
          rw [hout, hnow]
        · have hnow := hlookup id
          rw [if_neg fun h => hid h.symm] at hnow
          simp only [Event.sampleOf, if_neg hid, Option.map_none, samplesOf, List.filterMap_cons]
          simp only [step]
          rw [hnow]
      | retain keep =>
        rw [Mealy.trace, List.filterMap_cons, ih]
        have hnow : (retainHealthWatch down keep).lookup id = down.lookup id := by
          rw [retainHealthWatch, Table.lookup_retain]
          have hkeep : keep id = true := he
          cases down.lookup id <;> simp [Option.filter, hkeep]
        simp only [step, hnow]
        rfl
      | clear => exact False.elim he
  exact hfrom ∅

/-! ## Outages -/

/-- The health of the `k`th sample. -/
def healthAt (xs : List Sample) (k : ℕ) : Option Bool := xs[k]?.map Sample.healthy

/-- The time from the `j`th sample to the `k`th. -/
def downFor (xs : List Sample) (j k : ℕ) : ℕ :=
  (xs[k]?.map Sample.now).getD 0 - (xs[j]?.map Sample.now).getD 0

/-- The samples from `j` on and before `i` are unhealthy, and the one before them is not. -/
structure Outage (xs : List Sample) (j i : ℕ) : Prop where
  nonempty : j < i
  unhealthy : ∀ k, j ≤ k → k < i → healthAt xs k = some false
  first : ∀ k, k + 1 = j → healthAt xs k = some true

/-- Nor is the one after them: a maximal run of unhealthy samples. -/
def MaximalOutage (xs : List Sample) (j i : ℕ) : Prop :=
  Outage xs j i ∧ healthAt xs i ≠ some false

/-- The grace is over at one of the samples from `j` on and before `i`. -/
def Reaches (xs : List Sample) (j i : ℕ) : Prop :=
  ∃ k, j ≤ k ∧ k < i ∧ alertGrace ≤ downFor xs j k

/-- It is over at the `k`th, for the first time since `j`. -/
def FirstPast (xs : List Sample) (j k : ℕ) : Prop :=
  alertGrace ≤ downFor xs j k ∧ ¬ Reaches xs j k

variable {xs : List Sample} {i j k : ℕ}

theorem healthAt_of_some {x : Sample} (h : xs[k]? = some x) : healthAt xs k = some x.healthy := by
  rw [healthAt, h]
  rfl

/-- Outages that end at the same sample are the same. -/
theorem Outage.start_unique {j' : ℕ} (h : Outage xs j i) (h' : Outage xs j' i) : j = j' := by
  have hle : ∀ {a b : ℕ}, Outage xs a i → Outage xs b i → a ≤ b := by
    intro a b ha hb
    by_contra hlt
    obtain ⟨c, rfl⟩ : ∃ c, a = c + 1 := ⟨a - 1, by omega⟩
    have hdown := hb.unhealthy c (by omega) (by have := ha.nonempty; omega)
    rw [ha.first c rfl] at hdown
    cases hdown
  exact Nat.le_antisymm (hle h h') (hle h' h)

/-- An unhealthy sample more. -/
theorem Outage.extend (h : Outage xs j i) (hdown : healthAt xs i = some false) :
    Outage xs j (i + 1) where
  nonempty := Nat.lt_succ_of_lt h.nonempty
  unhealthy k hj hk := by
    rcases Nat.lt_succ_iff_lt_or_eq.1 hk with hk | rfl
    · exact h.unhealthy k hj hk
    · exact hdown
  first := h.first

/-- An outage up to the sample before, or one that starts with it. -/
theorem Outage.shorten (h : Outage xs j (i + 1)) : j = i ∨ Outage xs j i := by
  rcases Nat.lt_succ_iff_lt_or_eq.1 h.nonempty with hlt | heq
  · exact Or.inr ⟨hlt, fun k hj hk => h.unhealthy k hj (Nat.lt_succ_of_lt hk), h.first⟩
  · exact Or.inl heq

/-- Every unhealthy sample is the last of an outage. -/
theorem exists_outage (h : healthAt xs k = some false) : ∃ j, Outage xs j (k + 1) := by
  induction k with
  | zero =>
    refine ⟨0, Nat.zero_lt_one, fun k _ hk => ?_, fun k hk => by omega⟩
    obtain rfl : k = 0 := by omega
    exact h
  | succ k ih =>
    cases hk : healthAt xs k with
    | none =>
      rw [healthAt, Option.map_eq_none_iff, List.getElem?_eq_none_iff] at hk
      rw [healthAt, List.getElem?_eq_none (by omega)] at h
      cases h
    | some healthy =>
      cases healthy with
      | false =>
        obtain ⟨j, hj⟩ := ih hk
        exact ⟨j, hj.extend h⟩
      | true =>
        refine ⟨k + 1, Nat.lt_succ_self _, fun l hj hl => ?_, fun l hl => ?_⟩
        · obtain rfl : l = k + 1 := by omega
          exact h
        · obtain rfl : l = k := by omega
          exact hk

theorem reaches_succ : Reaches xs j (i + 1) ↔ Reaches xs j i ∨ j ≤ i ∧ alertGrace ≤ downFor xs j i := by
  constructor
  · rintro ⟨k, hj, hk, hgrace⟩
    rcases Nat.lt_succ_iff_lt_or_eq.1 hk with hk | rfl
    · exact Or.inl ⟨k, hj, hk, hgrace⟩
    · exact Or.inr ⟨hj, hgrace⟩
  · rintro (⟨k, hj, hk, hgrace⟩ | ⟨hj, hgrace⟩)
    · exact ⟨k, hj, Nat.lt_succ_of_lt hk, hgrace⟩
    · exact ⟨i, hj, Nat.lt_succ_self i, hgrace⟩

/-! ## What the machine knows -/

/-- After `i` samples: no outage is on, or one that began at `since`, and `alerted` says
whether it has reached the grace. -/
def Tracks (xs : List Sample) (i : ℕ) : Option DownState → Prop
  | none => ∀ j, ¬ Outage xs j i
  | some d => ∃ j, Outage xs j i ∧ (xs[j]?.map Sample.now).getD 0 = d.since ∧
      (d.alerted = true ↔ Reaches xs j i)

/-- An unhealthy sample finds the machine at its outage, be it new. -/
theorem Tracks.unhealthy {d : Option DownState} {x : Sample} (h : Tracks xs i d)
    (hx : xs[i]? = some x) (hdown : x.healthy = false) :
    ∃ j, Outage xs j (i + 1) ∧ x.now - (d.getD ⟨x.now, false⟩).since = downFor xs j i ∧
      (xs[j]?.map Sample.now).getD 0 = (d.getD ⟨x.now, false⟩).since ∧
      ((d.getD ⟨x.now, false⟩).alerted = true ↔ Reaches xs j i) := by
  have hhealth : healthAt xs i = some false := hdown ▸ healthAt_of_some hx
  cases d with
  | none =>
    obtain ⟨j, hj⟩ := exists_outage hhealth
    obtain rfl : j = i := hj.shorten.resolve_right (h j)
    have hnot : ¬ Reaches xs j j := fun ⟨k, hk, hk', _⟩ => by omega
    refine ⟨j, hj, ?_, ?_, ?_⟩
    · simp [downFor]
    · simp [hx]
    · simp [hnot]
  | some d =>
    obtain ⟨j, hj, hsince, halerted⟩ := h
    refine ⟨j, hj.extend hhealth, ?_, hsince, halerted⟩
    rw [downFor, hx, hsince]
    rfl

/-- **One sample.** -/
theorem Tracks.note {d : Option DownState} {x : Sample} (h : Tracks xs i d)
    (hx : xs[i]? = some x) : Tracks xs (i + 1) (note d x).1 := by
  unfold Alerts.note
  cases hhealthy : x.healthy with
  | true =>
    intro j hj
    have hdown := hj.unhealthy i (Nat.le_of_lt_succ hj.nonempty) (Nat.lt_succ_self i)
    rw [healthAt_of_some hx, hhealthy] at hdown
    cases hdown
  | false =>
    obtain ⟨j, hj, hfor, hsince, halerted⟩ := h.unhealthy hx hhealthy
    have hji : j ≤ i := Nat.le_of_lt_succ hj.nonempty
    simp only [Bool.false_eq_true, if_false]
    rw [hfor]
    split
    · next hpast =>
      rw [Bool.and_eq_true, decide_eq_true_eq] at hpast
      exact ⟨j, hj, hsince, by simp [reaches_succ, hji, hpast.2]⟩
    · next hnot =>
      refine ⟨j, hj, hsince, ?_⟩
      rw [reaches_succ, halerted]
      constructor
      · exact Or.inl
      · rintro (hreaches | ⟨-, hgrace⟩)
        · exact hreaches
        · by_contra hlate
          rw [← halerted] at hlate
          simp [hlate, hgrace] at hnot

/-- **What the machine knows** after some samples is what they say. -/
theorem tracks_run (h : i ≤ xs.length) : Tracks xs i (Mealy.run note none (xs.take i)) := by
  induction i with
  | zero => exact fun j hj => absurd hj.nonempty (Nat.not_lt_zero j)
  | succ i ih =>
    have hx : xs[i]? = some xs[i] := List.getElem?_eq_getElem h
    rw [List.take_add_one, hx, Mealy.run_append]
    exact (ih (Nat.le_of_succ_le h)).note hx

/-! ## What it answers -/

/-- The answer to an unhealthy sample. -/
theorem Tracks.answer_unhealthy {d : Option DownState} {x : Sample} (h : Tracks xs i d)
    (hx : xs[i]? = some x) (hdown : x.healthy = false) :
    ∃ j, Outage xs j (i + 1) ∧
      ((FirstPast xs j i ∧ (Alerts.note d x).2 = some (.down (downFor xs j i))) ∨
        ¬ FirstPast xs j i ∧ (Alerts.note d x).2 = none) := by
  obtain ⟨j, hj, hfor, -, halerted⟩ := h.unhealthy hx hdown
  refine ⟨j, hj, ?_⟩
  unfold Alerts.note FirstPast
  rw [hdown, ← halerted, ← hfor]
  simp only [Bool.false_eq_true, if_false]
  split
  · next hpast =>
    rw [Bool.and_eq_true, decide_eq_true_eq, Bool.not_eq_true'] at hpast
    exact Or.inl ⟨⟨hpast.2, by simp [hpast.1]⟩, rfl⟩
  · next hnot =>
    refine Or.inr ⟨fun hfirst => hnot ?_, rfl⟩
    rw [Bool.and_eq_true, decide_eq_true_eq, Bool.not_eq_true']
    exact ⟨by simpa using hfirst.2, hfirst.1⟩

/-- The answer to a healthy one. -/
theorem Tracks.answer_healthy {d : Option DownState} {x : Sample} (h : Tracks xs i d)
    (hx : xs[i]? = some x) (hup : x.healthy = true) :
    ((∀ j, ¬ Outage xs j i) ∧ (Alerts.note d x).2 = none) ∨
      ∃ j, Outage xs j i ∧
        ((Reaches xs j i ∧ (Alerts.note d x).2 = some (.up (downFor xs j i))) ∨
          ¬ Reaches xs j i ∧ (Alerts.note d x).2 = none) := by
  unfold Alerts.note
  rw [hup]
  cases d with
  | none => exact Or.inl ⟨h, rfl⟩
  | some d =>
    obtain ⟨j, hj, hsince, halerted⟩ := h
    refine Or.inr ⟨j, hj, ?_⟩
    cases hd : d.alerted with
    | true =>
      refine Or.inl ⟨halerted.1 hd, ?_⟩
      rw [downFor, hx, hsince]
      simp [hd]
    | false =>
      refine Or.inr ⟨fun hreaches => ?_, by simp [hd]⟩
      rw [halerted.2 hreaches] at hd
      cases hd

/-- What the samples of an egress are answered. -/
def answers (xs : List Sample) : List (Option AlertEvent) :=
  (Mealy.trace note none xs).map Mealy.Entry.output

theorem getElem?_answers (xs : List Sample) (k : ℕ) :
    (answers xs)[k]? = xs[k]?.map fun x => (note (Mealy.run note none (xs.take k)) x).2 := by
  rw [answers, List.getElem?_map, Mealy.getElem?_trace, Option.map_map]
  rfl

/-- The answer to a sample is the answer of a machine that knows what the samples before it
say. -/
theorem exists_tracks {r : Option AlertEvent} (h : (answers xs)[k]? = some r) :
    ∃ d x, Tracks xs k d ∧ xs[k]? = some x ∧ (note d x).2 = r := by
  rw [getElem?_answers] at h
  obtain ⟨x, hx, hr⟩ := Option.map_eq_some_iff.1 h
  have hlt := (List.getElem?_eq_some_iff.1 hx).1
  exact ⟨_, x, tracks_run hlt.le, hx, hr⟩

theorem exists_answer (h : k < xs.length) : ∃ r, (answers xs)[k]? = some r := by
  rw [getElem?_answers, List.getElem?_eq_getElem h]
  exact ⟨_, rfl⟩

theorem lt_length_of_healthAt {b : Bool} (h : healthAt xs k = some b) : k < xs.length := by
  obtain ⟨x, hx, -⟩ := Option.map_eq_some_iff.1 h
  exact (List.getElem?_eq_some_iff.1 hx).1

/-- **Down** is answered where the grace is over for the first time. -/
theorem down_iff {t : ℕ} : (answers xs)[k]? = some (some (.down t)) ↔
    ∃ j, Outage xs j (k + 1) ∧ FirstPast xs j k ∧ t = downFor xs j k := by
  constructor
  · intro h
    obtain ⟨d, x, hd, hx, hr⟩ := exists_tracks h
    cases hhealthy : x.healthy with
    | true =>
      rcases hd.answer_healthy hx hhealthy with ⟨-, hnone⟩ | ⟨j, -, ⟨-, hup⟩ | ⟨-, hnone⟩⟩
      · rw [hnone] at hr
        cases hr
      · rw [hup] at hr
        cases hr
      · rw [hnone] at hr
        cases hr
    | false =>
      obtain ⟨j, hj, ⟨hfirst, hdown⟩ | ⟨-, hnone⟩⟩ := hd.answer_unhealthy hx hhealthy
      · rw [hdown] at hr
        cases hr
        exact ⟨j, hj, hfirst, rfl⟩
      · rw [hnone] at hr
        cases hr
  · rintro ⟨j, hj, hfirst, rfl⟩
    have hdown := hj.unhealthy k (Nat.le_of_lt_succ hj.nonempty) (Nat.lt_succ_self k)
    obtain ⟨r, hr⟩ := exists_answer (lt_length_of_healthAt hdown)
    obtain ⟨d, x, hd, hx, hnote⟩ := exists_tracks hr
    rw [healthAt_of_some hx] at hdown
    obtain ⟨j', hj', hcases⟩ := hd.answer_unhealthy hx (Option.some.inj hdown)
    obtain rfl := hj.start_unique hj'
    rcases hcases with ⟨-, hanswer⟩ | ⟨hnot, -⟩
    · rw [hr, ← hnote, hanswer]
    · exact absurd hfirst hnot

/-- **Up** is answered where an outage that has reached the grace is over. -/
theorem up_iff {t : ℕ} : (answers xs)[k]? = some (some (.up t)) ↔
    healthAt xs k = some true ∧ ∃ j, Outage xs j k ∧ Reaches xs j k ∧ t = downFor xs j k := by
  constructor
  · intro h
    obtain ⟨d, x, hd, hx, hr⟩ := exists_tracks h
    cases hhealthy : x.healthy with
    | true =>
      refine ⟨by rw [healthAt_of_some hx, hhealthy], ?_⟩
      rcases hd.answer_healthy hx hhealthy with ⟨-, hnone⟩ | ⟨j, hj, ⟨hreaches, hup⟩ | ⟨-, hnone⟩⟩
      · rw [hnone] at hr
        cases hr
      · rw [hup] at hr
        cases hr
        exact ⟨j, hj, hreaches, rfl⟩
      · rw [hnone] at hr
        cases hr
    | false =>
      obtain ⟨j, -, ⟨-, hdown⟩ | ⟨-, hnone⟩⟩ := hd.answer_unhealthy hx hhealthy
      · rw [hdown] at hr
        cases hr
      · rw [hnone] at hr
        cases hr
  · rintro ⟨hup, j, hj, hreaches, rfl⟩
    obtain ⟨r, hr⟩ := exists_answer (lt_length_of_healthAt hup)
    obtain ⟨d, x, hd, hx, hnote⟩ := exists_tracks hr
    rw [healthAt_of_some hx] at hup
    rcases hd.answer_healthy hx (Option.some.inj hup) with ⟨hno, -⟩ | ⟨j', hj', hcases⟩
    · exact absurd hj (hno j)
    · obtain rfl := hj.start_unique hj'
      rcases hcases with ⟨-, hanswer⟩ | ⟨hnot, -⟩
      · rw [hr, ← hnote, hanswer]
      · exact absurd hreaches hnot

/-- The grace is over at some sample first. -/
theorem exists_firstPast (h : Reaches xs j i) :
    ∃ k, j ≤ k ∧ k < i ∧ FirstPast xs j k := by
  induction i with
  | zero =>
    obtain ⟨k, -, hk, -⟩ := h
    exact absurd hk (Nat.not_lt_zero k)
  | succ i ih =>
    by_cases hbefore : Reaches xs j i
    · obtain ⟨k, hj, hk, hfirst⟩ := ih hbefore
      exact ⟨k, hj, Nat.lt_succ_of_lt hk, hfirst⟩
    · obtain ⟨hj, hgrace⟩ := (reaches_succ.1 h).resolve_left hbefore
      exact ⟨i, hj, Nat.lt_succ_self i, hgrace, hbefore⟩

/-- Part of an outage is one. -/
theorem Outage.part (h : Outage xs j i) (hj : j ≤ k) (hk : k < i) : Outage xs j (k + 1) :=
  ⟨Nat.lt_succ_of_le hj, fun l hl hlk => h.unhealthy l hl (by omega), h.first⟩

/-! ## One story for each outage -/

/-- Down, up, down, up: `next` says whether down comes next. -/
def Alternates : Bool → List AlertEvent → Prop
  | _, [] => True
  | next, .down _ :: rest => next = true ∧ Alternates false rest
  | next, .up _ :: rest => next = false ∧ Alternates true rest

/-- An answer turns what the machine takes for told, and without one it stays. -/
theorem note_turn (d : Option DownState) (x : Sample) :
    ((note d x).2 = none ∧ (note d x).1.any DownState.alerted = d.any DownState.alerted) ∨
      (∃ t, (note d x).2 = some (.down t) ∧ d.any DownState.alerted = false ∧
        (note d x).1.any DownState.alerted = true) ∨
      ∃ t, (note d x).2 = some (.up t) ∧ d.any DownState.alerted = true ∧
        (note d x).1.any DownState.alerted = false := by
  have hgetD : (d.getD ⟨x.now, false⟩).alerted = d.any DownState.alerted := by
    cases d with
    | none => rfl
    | some d => rfl
  unfold note
  cases x.healthy with
  | true =>
    cases d with
    | none => exact Or.inl ⟨rfl, rfl⟩
    | some d =>
      cases hd : d.alerted with
      | true => exact Or.inr (Or.inr ⟨x.now - d.since, by simp [hd]⟩)
      | false => exact Or.inl (by simp [hd])
  | false =>
    simp only [Bool.false_eq_true, if_false]
    split
    · next hpast =>
      rw [Bool.and_eq_true, Bool.not_eq_true', hgetD] at hpast
      exact Or.inr (Or.inl ⟨_, rfl, hpast.1, rfl⟩)
    · exact Or.inl ⟨rfl, hgetD⟩

/-- The answers of a machine go by turns, and it has told of an outage if up comes next. -/
theorem alternates_answers (xs : List Sample) (d : Option DownState) :
    Alternates (!d.any DownState.alerted)
      (((Mealy.trace note d xs).map Mealy.Entry.output).filterMap id) := by
  induction xs generalizing d with
  | nil => trivial
  | cons x xs ih =>
    have ih := ih (note d x).1
    rw [Mealy.trace, List.map_cons, List.filterMap_cons]
    rcases note_turn d x with ⟨hnone, hsame⟩ | ⟨t, hdown, hbefore, hafter⟩ | ⟨t, hup, hbefore, hafter⟩
    · rw [hsame] at ih
      simp only [hnone, id_eq]
      exact ih
    · rw [hafter] at ih
      simp only [hdown, hbefore, id_eq]
      exact ⟨rfl, ih⟩
    · rw [hafter] at ih
      simp only [hup, hbefore, id_eq]
      exact ⟨rfl, ih⟩

/-- The answers tell each outage among the samples once:

* down at the first sample of an outage at which it has lasted the grace, with the time since
  its first sample;
* up at the first healthy sample after an outage that was told, with its full length;
* down at exactly one sample of each outage that lasts the grace at one of its samples;
* nothing at the samples of one that does not, nor at the healthy sample after it;
* down and up by turns. -/
structure OneStory (xs : List Sample) (out : List (Option AlertEvent)) : Prop where
  length : out.length = xs.length
  down : ∀ k t, out[k]? = some (some (.down t)) ↔
    ∃ j, Outage xs j (k + 1) ∧ FirstPast xs j k ∧ t = downFor xs j k
  up : ∀ k t, out[k]? = some (some (.up t)) ↔ healthAt xs k = some true ∧
    ∃ j, Outage xs j k ∧ (∃ l t', j ≤ l ∧ l < k ∧ out[l]? = some (some (.down t'))) ∧
      t = downFor xs j k
  once : ∀ j i, MaximalOutage xs j i → Reaches xs j i →
    ∃! k, j ≤ k ∧ k < i ∧ ∃ t, out[k]? = some (some (.down t))
  short : ∀ j i, MaximalOutage xs j i → ¬ Reaches xs j i →
    ∀ k, j ≤ k → k ≤ i → k < xs.length → out[k]? = some none
  turns : Alternates true (out.filterMap id)

theorem oneStory_answers (xs : List Sample) : OneStory xs (answers xs) where
  length := by rw [answers, List.length_map, Mealy.length_trace]
  down k t := down_iff
  up k t := by
    rw [up_iff]
    refine and_congr_right fun _ => exists_congr fun j => and_congr_right fun hj => ?_
    refine and_congr_left fun _ => ?_
    constructor
    · intro hreaches
      obtain ⟨l, hjl, hlk, hfirst⟩ := exists_firstPast hreaches
      exact ⟨l, _, hjl, hlk, down_iff.2 ⟨j, hj.part hjl hlk, hfirst, rfl⟩⟩
    · rintro ⟨l, t', hjl, hlk, hdown⟩
      obtain ⟨j', hj', hfirst, -⟩ := down_iff.1 hdown
      obtain rfl := (hj.part hjl hlk).start_unique hj'
      exact ⟨l, hjl, hlk, hfirst.1⟩
  once j i hmax hreaches := by
    obtain ⟨k, hjk, hki, hfirst⟩ := exists_firstPast hreaches
    refine ⟨k, ⟨hjk, hki, _, down_iff.2 ⟨j, hmax.1.part hjk hki, hfirst, rfl⟩⟩, ?_⟩
    rintro l ⟨hjl, hli, t, hdown⟩
    obtain ⟨j', hj', hfirst', -⟩ := down_iff.1 hdown
    obtain rfl := (hmax.1.part hjl hli).start_unique hj'
    rcases Nat.lt_trichotomy l k with hlt | heq | hlt
    · exact absurd ⟨l, hjl, hlt, hfirst'.1⟩ hfirst.2
    · exact heq
    · exact absurd ⟨k, hjk, hlt, hfirst.1⟩ hfirst'.2
  short j i hmax hshort k hjk hki hk := by
    obtain ⟨r, hr⟩ := exists_answer hk
    cases r with
    | none => exact hr
    | some e =>
      exfalso
      cases e with
      | down t =>
        obtain ⟨j', hj', hfirst, -⟩ := down_iff.1 hr
        have hki : k < i := by
          refine lt_of_le_of_ne hki ?_
          rintro rfl
          exact hmax.2 (hj'.unhealthy k (Nat.le_of_lt_succ hj'.nonempty) (Nat.lt_succ_self k))
        obtain rfl := (hmax.1.part hjk hki).start_unique hj'
        exact hshort ⟨k, hjk, hki, hfirst.1⟩
      | up t =>
        obtain ⟨hup, j', hj', hreaches, -⟩ := up_iff.1 hr
        obtain rfl : k = i := by
          by_contra hne
          rw [hmax.1.unhealthy k hjk (lt_of_le_of_ne hki hne)] at hup
          cases hup
        obtain rfl := hmax.1.start_unique hj'
        exact hshort hreaches
  turns := alternates_answers xs none

/-- **The alerts of an egress tell its outages**, each once, whatever the samples of the others
and in whatever order the watcher takes them, as long as it does not forget the egress. -/
theorem alerts_tell_one_story {id : Text} {es : List Event} (h : ∀ e ∈ es, e.Keeps id) :
    OneStory (samplesOf id es) (reportsOf id es) := by
  rw [reports_eq h]
  exact oneStory_answers (samplesOf id es)

/-- Two tunnels: one is down for 59 seconds and then for 65, the other for long. -/
def twoTunnels : List Event :=
  let at' : ℕ → ℕ := (· * 10 ^ 9)
  [.sample ['a'] false (at' 0), .sample ['b'] false (at' 0), .sample ['a'] false (at' 59),
    .sample ['b'] false (at' 60), .sample ['a'] true (at' 60), .retain fun id => id = ['a'],
    .sample ['a'] false (at' 65), .sample ['a'] false (at' 125), .sample ['a'] false (at' 125),
    .sample ['a'] true (at' 130)]

theorem alerts_tell_one_story_twoTunnels :
    reportsOf ['a'] twoTunnels = [none, none, none, none,
        some (.down (60 * 10 ^ 9)), none, some (.up (65 * 10 ^ 9))] ∧
      OneStory (samplesOf ['a'] twoTunnels) (reportsOf ['a'] twoTunnels) :=
  ⟨by decide +kernel, alerts_tell_one_story (by decide)⟩

end Ferrite.Proxy.Alerts
