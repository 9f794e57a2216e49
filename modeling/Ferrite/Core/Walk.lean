import Ferrite.Core.Wire

/-!
# What a walk sees

The walk over the records of a message reads names, types, classes and lengths; it
never reads a TTL, and never looks back.  Hence the facts every in-place patch
rests on:

* `walkFrom_bounds`, `walkFrom_pairwise` — the records lie inside the message, one
  after the other;
* `walk_frame` — a message that differs only in the CLASS and TTL fields of its
  records walks to the same records, with the classes read again;
* `questionEnd_le_pos` — the records come after the first question;
* `rewriteTtls_spec` — the TTL rewrite changes the TTLs of the records that are not
  OPT, by the given function, and nothing else.
-/

namespace Ferrite.Wire

open Bytes

/-! ## Names -/

theorem skipNameFrom_bounds {msg : Bytes} {fuel i e : ℕ} (h : skipNameFrom msg fuel i = some e) :
    i < e ∧ e ≤ msg.length := by
  induction fuel generalizing i with
  | zero => simp [skipNameFrom] at h
  | succ fuel ih =>
    unfold skipNameFrom at h
    split at h
    · cases h
    · rename_i len hlen
      obtain ⟨hi, -⟩ := List.getElem?_eq_some_iff.1 hlen
      split at h
      · split at h
        · cases h
          omega
        · split at h
          · cases h
          · have := ih h
            omega
      · split at h
        · split at h
          · cases h
            omega
          · cases h
        · cases h

/-- A name is read from its own bytes only, with fuel to spare. -/
theorem skipNameFrom_agree {msg msg' : Bytes} {fuel fuel' i e : ℕ}
    (h : skipNameFrom msg fuel i = some e) (hag : AgreeOn msg msg' i e)
    (hlen : e ≤ msg'.length) (hfuel : e - i ≤ fuel') : skipNameFrom msg' fuel' i = some e := by
  induction fuel generalizing i fuel' with
  | zero => simp [skipNameFrom] at h
  | succ fuel ih =>
    have hlt := (skipNameFrom_bounds h).1
    obtain ⟨fuel', rfl⟩ : ∃ k, fuel' = k + 1 := ⟨fuel' - 1, by omega⟩
    unfold skipNameFrom at h ⊢
    rw [hag i (Nat.le_refl i) hlt]
    split at h
    · cases h
    · rename_i len hget
      split at h
      · rename_i h0
        rw [if_pos h0]
        split at h
        · rename_i hz
          rw [if_pos hz]
          exact h
        · rename_i hz
          rw [if_neg hz]
          split at h
          · cases h
          · have hb := skipNameFrom_bounds h
            rw [if_neg (by omega)]
            exact ih h (hag.mono (by omega) (Nat.le_refl e)) (by omega)
      · rename_i h0
        rw [if_neg h0]
        split at h
        · rename_i hp
          rw [if_pos hp]
          split at h
          · cases h
            rw [if_pos (by omega)]
          · cases h
        · cases h

theorem skipName_bounds {msg : Bytes} {i e : ℕ} (h : skipName msg i = some e) :
    i < e ∧ e ≤ msg.length := skipNameFrom_bounds h

theorem skipName_agree {msg msg' : Bytes} {i e : ℕ} (h : skipName msg i = some e)
    (hag : AgreeOn msg msg' i e) (hlen : e ≤ msg'.length) : skipName msg' i = some e :=
  skipNameFrom_agree h hag hlen (by omega)

theorem skipName_congr {msg msg' : Bytes} {i : ℕ} (hlen : msg'.length = msg.length)
    (hag : AgreeOn msg msg' i msg.length) : skipName msg' i = skipName msg i := by
  cases h : skipName msg i with
  | some e =>
    have hb := skipName_bounds h
    exact skipName_agree h (hag.mono (Nat.le_refl i) hb.2) (by omega)
  | none =>
    cases h' : skipName msg' i with
    | none => rfl
    | some e =>
      have hb := skipName_bounds h'
      rw [skipName_agree h' ((hag.mono (Nat.le_refl i) (by omega)).symm) (by omega)] at h
      cases h

/-! ## Records -/

/-- A record, field by field. -/
theorem readRecord_eq_some_iff {msg : Bytes} {sec : Section} {i : ℕ} {r : RecordRef} {stop : ℕ} :
    readRecord msg sec i = some (r, stop) ↔
      ∃ a, skipName msg i = some a ∧
        r = ⟨sec, msg.readU16 a, msg.readU16 (a + 2), a + 4, a + 10,
          (msg.readU16 (a + 8)).toNat⟩ ∧
        stop = a + 10 + (msg.readU16 (a + 8)).toNat ∧ stop ≤ msg.length := by
  unfold readRecord
  cases h : skipName msg i with
  | none => simp
  | some a =>
    simp only [Option.some.injEq, exists_eq_left']
    have hfixed : a + rrFixedLen = a + 10 := rfl
    constructor
    · intro hr
      split at hr
      · cases hr
      · split at hr
        · cases hr
        · cases hr
          exact ⟨rfl, rfl, by omega⟩
    · rintro ⟨rfl, rfl, hle⟩
      rw [if_neg (by omega), if_neg (by omega)]
      rfl

/-- Where a record lies. -/
theorem readRecord_bounds {msg : Bytes} {sec : Section} {i : ℕ} {r : RecordRef} {stop : ℕ}
    (h : readRecord msg sec i = some (r, stop)) :
    i + 5 ≤ r.ttlOff ∧ r.rdataOff = r.ttlOff + 6 ∧ stop = r.rdataOff + r.rdataLen ∧
      stop ≤ msg.length ∧ r.inSection = sec := by
  obtain ⟨a, ha, rfl, rfl, hle⟩ := readRecord_eq_some_iff.1 h
  have hb := skipName_bounds ha
  exact ⟨by simp only; omega, rfl, rfl, hle, rfl⟩

theorem readRecord_congr {msg msg' : Bytes} {sec : Section} {i : ℕ}
    (hlen : msg'.length = msg.length) (hag : AgreeOn msg msg' i msg.length) :
    readRecord msg' sec i = readRecord msg sec i := by
  unfold readRecord
  rw [skipName_congr hlen hag]
  cases h : skipName msg i with
  | none => rfl
  | some a =>
    have hb := skipName_bounds h
    simp only [hlen]
    by_cases hfix : msg.length < a + rrFixedLen
    · rw [if_pos hfix, if_pos hfix]
    · have hfix' : a + 10 ≤ msg.length := Nat.not_lt.1 hfix
      rw [hag.readU16 (by omega : i ≤ a) (by omega),
        hag.readU16 (by omega : i ≤ a + 2) (by omega),
        hag.readU16 (by omega : i ≤ a + 8) (by omega)]

/-- The class of a record, read again. -/
def RecordRef.reread (msg : Bytes) (r : RecordRef) : RecordRef :=
  { r with class' := msg.readU16 (r.ttlOff - 2) }

/-- A record is read from its name, type, class and length only. -/
theorem readRecord_frame {msg msg' : Bytes} {sec : Section} {i : ℕ} {r : RecordRef} {stop : ℕ}
    (h : readRecord msg sec i = some (r, stop)) (hlen : msg'.length = msg.length)
    (hname : AgreeOn msg msg' i (r.ttlOff - 2))
    (hrd : AgreeOn msg msg' (r.ttlOff + 4) (r.ttlOff + 6)) :
    readRecord msg' sec i = some (r.reread msg', stop) := by
  obtain ⟨a, ha, rfl, rfl, hle⟩ := readRecord_eq_some_iff.1 h
  have hb := skipName_bounds ha
  have htype : AgreeOn msg msg' i (a + 2) := hname
  have hlenOff : AgreeOn msg msg' (a + 8) (a + 10) := hrd
  refine readRecord_eq_some_iff.2 ⟨a, ?_, ?_, ?_, by omega⟩
  · exact skipName_agree ha (htype.mono (Nat.le_refl i) (by omega)) (by omega)
  · rw [htype.readU16 (by omega : i ≤ a) (Nat.le_refl _), hlenOff.readU16 (Nat.le_refl _) (Nat.le_refl _)]
    rfl
  · rw [hlenOff.readU16 (Nat.le_refl _) (Nat.le_refl _)]

/-! ## The walk -/

/-- One step of the cursor, as a reading of one record. -/
theorem next_eq_record_iff {msg : Bytes} {c c' : RecordCursor} {r : RecordRef} :
    c.next msg = (.record r, c') ↔
      ∃ sec d stop, c.pop = some (sec, d) ∧ readRecord msg sec c.pos = some (r, stop) ∧
        c' = { d with pos := stop } := by
  unfold RecordCursor.next
  cases hp : c.pop with
  | none => simp
  | some x =>
    obtain ⟨sec, d⟩ := x
    simp only [Option.some.injEq, Prod.mk.injEq]
    constructor
    · intro h
      split at h
      · cases h
      · rename_i r' stop hr
        obtain ⟨hrec, rfl⟩ := Prod.mk.inj h
        cases hrec
        exact ⟨sec, d, stop, ⟨rfl, rfl⟩, hr, rfl⟩
    · rintro ⟨_, _, stop, ⟨rfl, rfl⟩, hr, rfl⟩
      rw [hr]

/-- A walk with records left: it stops, or it yields a record and goes on after it. -/
theorem walkFrom_succ_cases (msg : Bytes) (n : ℕ) (c : RecordCursor) :
    (c.pop = none ∧ walkFrom msg (n + 1) c = ([], true)) ∨
    (∃ sec d, c.pop = some (sec, d) ∧ readRecord msg sec c.pos = none ∧
      walkFrom msg (n + 1) c = ([], false)) ∨
    ∃ sec d r stop, c.pop = some (sec, d) ∧ readRecord msg sec c.pos = some (r, stop) ∧
      walkFrom msg (n + 1) c = (r :: (walkFrom msg n { d with pos := stop }).1,
        (walkFrom msg n { d with pos := stop }).2) := by
  cases hp : c.pop with
  | none =>
    left
    simp [walkFrom, RecordCursor.next, hp]
  | some x =>
    obtain ⟨sec, d⟩ := x
    right
    cases hr : readRecord msg sec c.pos with
    | none =>
      left
      exact ⟨sec, d, rfl, hr, by simp [walkFrom, RecordCursor.next, hp, hr]⟩
    | some y =>
      obtain ⟨r, stop⟩ := y
      right
      exact ⟨sec, d, r, stop, rfl, hr, by simp [walkFrom, RecordCursor.next, hp, hr]⟩

/-- A record of a walk is one that was read, at the cursor or after it. -/
theorem readRecord_of_mem_walkFrom {msg : Bytes} {n : ℕ} {c : RecordCursor} {r : RecordRef}
    (h : r ∈ (walkFrom msg n c).1) :
    ∃ sec i stop, c.pos ≤ i ∧ readRecord msg sec i = some (r, stop) := by
  induction n generalizing c with
  | zero => simp [walkFrom] at h
  | succ n ih =>
    rcases walkFrom_succ_cases msg n c with ⟨-, hw⟩ | ⟨_, _, -, -, hw⟩ |
      ⟨sec, d, r', stop, -, hr, hw⟩
    · simp [hw] at h
    · simp [hw] at h
    · rw [hw] at h
      rcases List.mem_cons.1 h with rfl | h
      · exact ⟨sec, c.pos, stop, Nat.le_refl _, hr⟩
      · obtain ⟨sec', i, stop', hi, hr'⟩ := ih h
        have hb := readRecord_bounds hr
        exact ⟨sec', i, stop', by simp only at hi; omega, hr'⟩

theorem walkFrom_bounds {msg : Bytes} {n : ℕ} {c : RecordCursor} {r : RecordRef}
    (h : r ∈ (walkFrom msg n c).1) :
    c.pos + 5 ≤ r.ttlOff ∧ r.rdataOff = r.ttlOff + 6 ∧ r.rdataOff + r.rdataLen ≤ msg.length := by
  obtain ⟨sec, i, stop, hi, hr⟩ := readRecord_of_mem_walkFrom h
  have hb := readRecord_bounds hr
  omega

/-- The records of a walk lie one after the other. -/
theorem walkFrom_pairwise (msg : Bytes) (n : ℕ) (c : RecordCursor) :
    (walkFrom msg n c).1.Pairwise fun r r' => r.rdataOff + r.rdataLen + 5 ≤ r'.ttlOff := by
  induction n generalizing c with
  | zero => simp [walkFrom]
  | succ n ih =>
    rcases walkFrom_succ_cases msg n c with ⟨-, hw⟩ | ⟨_, _, -, -, hw⟩ |
      ⟨sec, d, r, stop, -, hr, hw⟩
    · simp [hw]
    · simp [hw]
    · have hb := readRecord_bounds hr
      rw [hw]
      refine List.pairwise_cons.2 ⟨fun r' hr' => ?_, ih _⟩
      have := (walkFrom_bounds hr').1
      simp only at this
      omega

/-- The walk never looks back. -/
theorem walkFrom_congr {msg msg' : Bytes} {n : ℕ} {c : RecordCursor}
    (hlen : msg'.length = msg.length) (hag : AgreeOn msg msg' c.pos msg.length) :
    walkFrom msg' n c = walkFrom msg n c := by
  induction n generalizing c with
  | zero => rfl
  | succ n ih =>
    rcases walkFrom_succ_cases msg n c with ⟨hp, hw⟩ | ⟨sec, d, hp, hr, hw⟩ |
      ⟨sec, d, r, stop, hp, hr, hw⟩
    · rw [hw]
      simp [walkFrom, RecordCursor.next, hp]
    · rw [hw]
      simp [walkFrom, RecordCursor.next, hp, readRecord_congr hlen hag, hr]
    · have hb := readRecord_bounds hr
      rw [hw, ← ih (hag.mono (by simp only; omega) (Nat.le_refl _))]
      simp [walkFrom, RecordCursor.next, hp, readRecord_congr hlen hag, hr]

/-- The offset lies in the CLASS or the TTL field of the record. -/
def RecordRef.inHead (r : RecordRef) (i : ℕ) : Prop := r.ttlOff - 2 ≤ i ∧ i < r.ttlOff + 4

/-- **Frame.**  A message patched only in the CLASS and TTL fields of its records
walks to the same records. -/
theorem walkFrom_frame {msg msg' : Bytes} {n : ℕ} {c : RecordCursor}
    (hlen : msg'.length = msg.length)
    (hag : ∀ i, c.pos ≤ i → (∀ r ∈ (walkFrom msg n c).1, ¬ r.inHead i) → msg'[i]? = msg[i]?) :
    walkFrom msg' n c =
      ((walkFrom msg n c).1.map (RecordRef.reread msg'), (walkFrom msg n c).2) := by
  induction n generalizing c with
  | zero => rfl
  | succ n ih =>
    rcases walkFrom_succ_cases msg n c with ⟨hp, hw⟩ | ⟨sec, d, hp, hr, hw⟩ |
      ⟨sec, d, r, stop, hp, hr, hw⟩
    · rw [hw]
      simp [walkFrom, RecordCursor.next, hp]
    · have hr' : readRecord msg' sec c.pos = none := by
        rw [readRecord_congr hlen fun i hi _ => hag i hi (by simp [hw]), hr]
      rw [hw]
      simp [walkFrom, RecordCursor.next, hp, hr']
    · have hb := readRecord_bounds hr
      -- the record itself lies before every record after it
      have hafter : ∀ r' ∈ (walkFrom msg n { d with pos := stop }).1, stop + 5 ≤ r'.ttlOff :=
        fun r' hr' => (walkFrom_bounds hr').1
      have hag' : ∀ i, c.pos ≤ i → i < stop → ¬ r.inHead i → msg'[i]? = msg[i]? := by
        intro i hi hstop hri
        refine hag i hi fun r' hr' => ?_
        rw [hw] at hr'
        rcases List.mem_cons.1 hr' with rfl | hr'
        · exact hri
        · have := hafter r' hr'
          simp only [RecordRef.inHead]
          omega
      have hread : readRecord msg' sec c.pos = some (r.reread msg', stop) := by
        refine readRecord_frame hr hlen (fun i hi hi' => hag' i hi ?_ ?_)
          (fun i hi hi' => hag' i ?_ ?_ ?_)
        · omega
        · simp only [RecordRef.inHead]
          omega
        · omega
        · omega
        · simp only [RecordRef.inHead]
          omega
      have hrest : walkFrom msg' n { d with pos := stop } =
          ((walkFrom msg n { d with pos := stop }).1.map (RecordRef.reread msg'),
            (walkFrom msg n { d with pos := stop }).2) := by
        refine ih fun i hi hno => hag i ?_ fun r' hr' => ?_
        · simp only at hi
          omega
        · rw [hw] at hr'
          rcases List.mem_cons.1 hr' with rfl | hr'
          · simp only [RecordRef.inHead]
            simp only at hi
            omega
          · exact hno r' hr'
      rw [hw]
      simp [walkFrom, RecordCursor.next, hp, hread, hrest]

/-! ## The start of the walk -/

theorem skipQuestions_bounds {msg : Bytes} {n i e : ℕ}
    (h : RecordCursor.skipQuestions msg n i = some e) :
    i ≤ e ∧ (i ≤ msg.length → e ≤ msg.length) := by
  induction n generalizing i with
  | zero =>
    cases h
    exact ⟨Nat.le_refl _, id⟩
  | succ n ih =>
    unfold RecordCursor.skipQuestions at h
    split at h
    · cases h
    · rename_i j hj
      have hb := skipName_bounds hj
      split at h
      · cases h
      · have := ih h
        exact ⟨by omega, fun _ => this.2 (by omega)⟩

/-- The questions are read from their own bytes only. -/
theorem skipQuestions_agree {msg msg' : Bytes} {n i e : ℕ}
    (h : RecordCursor.skipQuestions msg n i = some e) (hag : AgreeOn msg msg' i e)
    (hlen : e ≤ msg'.length) : RecordCursor.skipQuestions msg' n i = some e := by
  induction n generalizing i with
  | zero => exact h
  | succ n ih =>
    unfold RecordCursor.skipQuestions at h ⊢
    split at h
    · cases h
    · rename_i j hj
      have hb := skipName_bounds hj
      split at h
      · cases h
      · have hle := (skipQuestions_bounds h).1
        rw [skipName_agree hj (hag.mono (Nat.le_refl i) (by omega)) (by omega)]
        simp only
        rw [if_neg (by omega)]
        exact ih h (hag.mono (by omega) (Nat.le_refl e))

theorem new_eq_some_iff {msg : Bytes} {c : RecordCursor} :
    RecordCursor.new msg = some c ↔
      headerLen ≤ msg.length ∧
        RecordCursor.skipQuestions msg (msg.readU16 4).toNat headerLen = some c.pos ∧
        c.answers = (msg.readU16 6).toNat ∧ c.authorities = (msg.readU16 8).toNat ∧
        c.additionals = (msg.readU16 10).toNat := by
  unfold RecordCursor.new
  split
  · constructor
    · intro h
      cases h
    · rintro ⟨h, -⟩
      omega
  · rename_i hlen
    rw [Option.map_eq_some_iff]
    constructor
    · rintro ⟨i, hi, rfl⟩
      exact ⟨by omega, hi, rfl, rfl, rfl⟩
    · rintro ⟨-, hi, ha, hb, hc⟩
      refine ⟨c.pos, hi, ?_⟩
      rw [← ha, ← hb, ← hc]

/-- The cursor starts after the header. -/
theorem headerLen_le_pos {msg : Bytes} {c : RecordCursor} (h : RecordCursor.new msg = some c) :
    12 ≤ c.pos := (skipQuestions_bounds (new_eq_some_iff.1 h).2.1).1

theorem pos_le_length {msg : Bytes} {c : RecordCursor} (h : RecordCursor.new msg = some c) :
    c.pos ≤ msg.length := by
  obtain ⟨hl, hq, -⟩ := new_eq_some_iff.1 h
  exact (skipQuestions_bounds hq).2 hl

/-- The start of the walk is read from the counts and the questions. -/
theorem new_agree {msg msg' : Bytes} {c : RecordCursor} (h : RecordCursor.new msg = some c)
    (hag : AgreeOn msg msg' 4 c.pos) (hlen : c.pos ≤ msg'.length) :
    RecordCursor.new msg' = some c := by
  have hpos := headerLen_le_pos h
  obtain ⟨-, hq, ha, hb, hc⟩ := new_eq_some_iff.1 h
  have hread : ∀ i, 4 ≤ i → i + 2 ≤ 12 → msg'.readU16 i = msg.readU16 i :=
    fun i hi hi' => hag.readU16 hi (by omega)
  refine new_eq_some_iff.2 ⟨Nat.le_trans hpos hlen, ?_, ?_, ?_, ?_⟩
  · rw [hread 4 (by omega) (by omega)]
    exact skipQuestions_agree hq (hag.mono (by simp [headerLen]) (Nat.le_refl _)) hlen
  · rw [ha, hread 6 (by omega) (by omega)]
  · rw [hb, hread 8 (by omega) (by omega)]
  · rw [hc, hread 10 (by omega) (by omega)]

/-! ## Whole messages -/

theorem walk_eq_some_iff {msg : Bytes} {w : List RecordRef × Bool} :
    walk msg = some w ↔ ∃ c, RecordCursor.new msg = some c ∧ walkFrom msg c.left c = w :=
  Option.map_eq_some_iff

theorem isWellFormed_iff {msg : Bytes} : isWellFormed msg = true ↔ ∃ rs, walk msg = some (rs, true) := by
  rw [isWellFormed, Option.any_eq_true]
  constructor
  · rintro ⟨⟨rs, ok⟩, hw, rfl⟩
    exact ⟨rs, hw⟩
  · rintro ⟨rs, hw⟩
    exact ⟨_, hw, rfl⟩

/-- Where the records of a message lie. -/
theorem walk_bounds {msg : Bytes} {rs : List RecordRef} {ok : Bool} (h : walk msg = some (rs, ok))
    {r : RecordRef} (hr : r ∈ rs) :
    17 ≤ r.ttlOff ∧ r.rdataOff = r.ttlOff + 6 ∧ r.rdataOff + r.rdataLen ≤ msg.length := by
  obtain ⟨c, hc, hw⟩ := walk_eq_some_iff.1 h
  have hpos := headerLen_le_pos hc
  have hb := walkFrom_bounds (show r ∈ (walkFrom msg c.left c).1 by rw [hw]; exact hr)
  omega

theorem walk_pairwise {msg : Bytes} {rs : List RecordRef} {ok : Bool}
    (h : walk msg = some (rs, ok)) :
    rs.Pairwise fun r r' => r.rdataOff + r.rdataLen + 5 ≤ r'.ttlOff := by
  obtain ⟨c, -, hw⟩ := walk_eq_some_iff.1 h
  have := walkFrom_pairwise msg c.left c
  rwa [hw] at this

/-- Two records of a message are one, or lie apart. -/
theorem walk_apart {msg : Bytes} {rs : List RecordRef} {ok : Bool} (h : walk msg = some (rs, ok))
    {r r' : RecordRef} (hr : r ∈ rs) (hr' : r' ∈ rs) :
    r = r' ∨ r.rdataOff + r.rdataLen + 5 ≤ r'.ttlOff ∨
      r'.rdataOff + r'.rdataLen + 5 ≤ r.ttlOff := by
  have hpair := walk_pairwise h
  rw [List.pairwise_iff_getElem] at hpair
  obtain ⟨m, hm, rfl⟩ := List.getElem_of_mem hr
  obtain ⟨n, hn, rfl⟩ := List.getElem_of_mem hr'
  rcases Nat.lt_trichotomy m n with hlt | heq | hgt
  · exact Or.inr (Or.inl (hpair m n hm hn hlt))
  · subst heq
    exact Or.inl rfl
  · exact Or.inr (Or.inr (hpair n m hn hm hgt))

/-- **Frame.**  A message that differs only in the CLASS and TTL fields of its
records walks to the same records, with the classes read again. -/
theorem walk_frame {msg msg' : Bytes} {rs : List RecordRef} {ok : Bool}
    (h : walk msg = some (rs, ok)) (hlen : msg'.length = msg.length)
    (hag : ∀ i, (∀ r ∈ rs, ¬ r.inHead i) → msg'[i]? = msg[i]?) :
    walk msg' = some (rs.map (RecordRef.reread msg'), ok) := by
  obtain ⟨c, hc, hw⟩ := walk_eq_some_iff.1 h
  have hrs : (walkFrom msg c.left c).1 = rs := by rw [hw]
  have hpos := pos_le_length hc
  -- nothing before the first record is patched
  have hbefore : AgreeOn msg msg' 0 c.pos := by
    intro i _ hi
    refine hag i fun r hr => ?_
    have := (walkFrom_bounds (hrs ▸ hr : r ∈ (walkFrom msg c.left c).1)).1
    simp only [RecordRef.inHead]
    omega
  refine walk_eq_some_iff.2 ⟨c, new_agree hc (hbefore.mono (Nat.zero_le _) (Nat.le_refl _)) (by omega), ?_⟩
  rw [walkFrom_frame hlen fun i _ hno => hag i (hrs ▸ hno), hw]

theorem length_setId (msg : Bytes) (id : UInt16) : (setId msg id).length = msg.length := by
  unfold setId
  split
  · exact length_overwrite ..
  · rfl

/-- The walk never reads the ID and the flags. -/
theorem walk_setId {msg : Bytes} {w : List RecordRef × Bool} (h : walk msg = some w) (id : UInt16) :
    walk (setId msg id) = some w := by
  have hlen : (setId msg id).length = msg.length := length_setId msg id
  have hag : AgreeOn msg (setId msg id) 4 msg.length := by
    intro i hi _
    unfold setId
    split
    · refine getElem?_overwrite_of_ge ?_
      simp only [ofU16, List.length_cons, List.length_nil]
      omega
    · rfl
  obtain ⟨c, hc, hw⟩ := walk_eq_some_iff.1 h
  have hpos := headerLen_le_pos hc
  have hle := pos_le_length hc
  refine walk_eq_some_iff.2 ⟨c, new_agree hc (hag.mono (Nat.le_refl _) hle) (by omega), ?_⟩
  rw [walkFrom_congr hlen (hag.mono (by omega) (Nat.le_refl _)), hw]

/-- A record whose CLASS field is as it was reads as it did. -/
theorem reread_eq_self {msg msg' : Bytes} {rs : List RecordRef} {ok : Bool}
    (h : walk msg = some (rs, ok)) {r : RecordRef} (hr : r ∈ rs)
    (hag : AgreeOn msg msg' (r.ttlOff - 2) r.ttlOff) : r.reread msg' = r := by
  obtain ⟨c, -, hw⟩ := walk_eq_some_iff.1 h
  obtain ⟨sec, i, stop, -, hrec⟩ :=
    readRecord_of_mem_walkFrom (show r ∈ (walkFrom msg c.left c).1 by rw [hw]; exact hr)
  obtain ⟨a, -, rfl, -, -⟩ := readRecord_eq_some_iff.1 hrec
  have hclass : AgreeOn msg msg' (a + 2) (a + 4) := hag
  rw [RecordRef.reread]
  simp only [RecordRef.mk.injEq, true_and, and_true]
  exact hclass.readU16 (Nat.le_refl _) (Nat.le_refl _)

/-! ## The first question -/

/-- The first question's name is one `skip_name` passes over. -/
theorem skipNameFrom_of_questionNameEnd {msg : Bytes} {fuel i e : ℕ}
    (h : questionNameEnd msg fuel i = some e) : skipNameFrom msg fuel i = some e := by
  induction fuel generalizing i with
  | zero => simp [questionNameEnd] at h
  | succ fuel ih =>
    unfold questionNameEnd at h
    unfold skipNameFrom
    split at h
    · cases h
    · rename_i len hlen
      by_cases hzero : len = 0
      · rw [if_pos hzero] at h
        subst hzero
        exact h
      · rw [if_neg hzero] at h
        split at h
        · cases h
        · rename_i hbits
          rw [if_pos (not_ne_iff.1 hbits), if_neg hzero]
          split at h
          · cases h
          · rename_i hin
            rw [if_neg hin]
            exact ih h

/-- The first question's name is read from its own bytes only. -/
theorem questionNameEnd_agree {msg msg' : Bytes} {fuel i e : ℕ}
    (h : questionNameEnd msg fuel i = some e) (hag : AgreeOn msg msg' i e)
    (hlen : msg'.length = msg.length) : questionNameEnd msg' fuel i = some e := by
  induction fuel generalizing i with
  | zero => simp [questionNameEnd] at h
  | succ fuel ih =>
    have hlt := (skipNameFrom_bounds (skipNameFrom_of_questionNameEnd h)).1
    unfold questionNameEnd at h ⊢
    rw [hag i (Nat.le_refl i) hlt, hlen]
    split at h
    · cases h
    · split at h
      · rename_i hzero
        rw [if_pos hzero]
        exact h
      · rename_i hzero
        rw [if_neg hzero]
        split at h
        · cases h
        · rename_i hbits
          rw [if_neg hbits]
          split at h
          · cases h
          · rename_i hin
            rw [if_neg hin]
            exact ih h (hag.mono (by omega) (Nat.le_refl e))

/-- Where the first question ends, in terms of its name. -/
theorem questionEnd_eq_some_iff {msg : Bytes} {stop : ℕ} :
    questionEnd msg = some stop ↔
      headerLen ≤ msg.length ∧ msg.readU16 4 ≠ 0 ∧ stop ≤ msg.length ∧
        ∃ i, questionNameEnd msg (msg.length + 1) headerLen = some i ∧ stop = i + 4 := by
  unfold questionEnd
  by_cases hlen : msg.length < headerLen
  · rw [if_pos hlen]
    constructor
    · intro h
      cases h
    · rintro ⟨h, -⟩
      omega
  · rw [if_neg hlen]
    by_cases hzero : msg.readU16 4 = 0
    · simp [hzero]
    · rw [if_neg hzero]
      cases hname : questionNameEnd msg (msg.length + 1) headerLen with
      | none => simp
      | some i =>
        simp only [Option.some.injEq, exists_eq_left', Option.ite_none_right_eq_some]
        constructor
        · rintro ⟨hle, rfl⟩
          exact ⟨by omega, hzero, hle, rfl⟩
        · rintro ⟨-, -, hle, rfl⟩
          exact ⟨hle, rfl⟩

/-- The header and the first question decide where the first question ends. -/
theorem questionEnd_agree {msg msg' : Bytes} {stop : ℕ} (h : questionEnd msg = some stop)
    (hag : AgreeOn msg msg' 0 stop) (hlen : msg'.length = msg.length) :
    questionEnd msg' = some stop := by
  obtain ⟨hhead, hzero, hle, i, hname, rfl⟩ := questionEnd_eq_some_iff.1 h
  have hlt := (skipNameFrom_bounds (skipNameFrom_of_questionNameEnd hname)).1
  have h12 : headerLen = 12 := rfl
  refine questionEnd_eq_some_iff.2 ⟨by omega, ?_, by omega, i, ?_, rfl⟩
  · rw [hag.readU16 (Nat.zero_le 4) (by omega)]
    exact hzero
  · rw [hlen]
    exact questionNameEnd_agree hname (hag.mono (Nat.zero_le _) (by omega)) hlen

/-- The records come after the first question. -/
theorem questionEnd_le_pos {msg : Bytes} {stop : ℕ} {c : RecordCursor}
    (h : questionEnd msg = some stop) (hc : RecordCursor.new msg = some c) : stop ≤ c.pos := by
  obtain ⟨-, hzero, -, i, hname, rfl⟩ := questionEnd_eq_some_iff.1 h
  obtain ⟨-, hq, -⟩ := new_eq_some_iff.1 hc
  have hskip : skipName msg headerLen = some i := skipNameFrom_of_questionNameEnd hname
  cases hn : (msg.readU16 4).toNat with
  | zero => exact absurd (UInt16.toNat_inj.1 (by simpa using hn)) hzero
  | succ n =>
    rw [hn] at hq
    unfold RecordCursor.skipQuestions at hq
    simp only [hskip] at hq
    split at hq
    · cases hq
    · exact (skipQuestions_bounds hq).1

/-- A message that starts with the question of another one and says that it is the only one:
its records start behind it. -/
theorem new_of_question {raw msg : Bytes} {stop : ℕ} (h : questionEnd raw = some stop)
    (hag : AgreeOn raw msg headerLen stop) (hlen : stop ≤ msg.length)
    (hone : msg.readU16 4 = 1) :
    RecordCursor.new msg = some ⟨stop, (msg.readU16 6).toNat, (msg.readU16 8).toNat,
      (msg.readU16 10).toNat⟩ := by
  obtain ⟨-, -, -, i, hname, rfl⟩ := questionEnd_eq_some_iff.1 h
  have hlt := (skipNameFrom_bounds (skipNameFrom_of_questionNameEnd hname)).1
  have hskip : skipName msg headerLen = some i :=
    skipName_agree (skipNameFrom_of_questionNameEnd hname) (hag.mono (Nat.le_refl _) (by omega))
      (by omega)
  refine new_eq_some_iff.2 ⟨by omega, ?_, rfl, rfl, rfl⟩
  rw [hone]
  show RecordCursor.skipQuestions msg 1 headerLen = some (i + 4)
  unfold RecordCursor.skipQuestions
  rw [hskip]
  simp only
  rw [if_neg (by omega)]
  rfl

/-- A record's CLASS and TTL fields lie behind the first question. -/
theorem questionEnd_lt_of_inHead {msg : Bytes} {stop : ℕ} {rs : List RecordRef} {ok : Bool}
    (h : questionEnd msg = some stop) (hw : walk msg = some (rs, ok)) {r : RecordRef} (hr : r ∈ rs)
    {i : ℕ} (hi : r.inHead i) : stop < i := by
  obtain ⟨c, hc, hwalk⟩ := walk_eq_some_iff.1 hw
  have hpos := questionEnd_le_pos h hc
  have hb := (walkFrom_bounds (show r ∈ (walkFrom msg c.left c).1 by rw [hwalk]; exact hr)).1
  have := hi.1
  omega

/-- The records of a message that walks cleanly. -/
def recordsOf (msg : Bytes) : List RecordRef :=
  match walk msg with
  | some (rs, true) => rs
  | _ => []

theorem recordsOf_eq {msg : Bytes} {rs : List RecordRef} (h : walk msg = some (rs, true)) :
    recordsOf msg = rs := by
  rw [recordsOf, h]

/-- Where the walk over a message ends: behind its last record, or behind its questions. -/
def walkEnd (msg : Bytes) : Option ℕ :=
  (RecordCursor.new msg).map fun c =>
    ((walkFrom msg c.left c).1.getLast?.map fun r => r.rdataOff + r.rdataLen).getD c.pos

theorem walkEnd_eq {msg : Bytes} {c : RecordCursor} {rs : List RecordRef} {ok : Bool}
    (hnew : RecordCursor.new msg = some c) (hwalk : walk msg = some (rs, ok)) :
    walkEnd msg = some ((rs.getLast?.map fun r => r.rdataOff + r.rdataLen).getD c.pos) := by
  obtain ⟨c', hc', hw⟩ := walk_eq_some_iff.1 hwalk
  rw [hnew] at hc'
  cases hc'
  simp [walkEnd, hnew, hw]

/-! ## Rewriting the TTLs -/

/-- The TTL a record has after a rewrite by `f`. -/
def newTtl (f : UInt32 → Option UInt32) (r : RecordRef) (ttl : UInt32) : UInt32 :=
  if r.rtype = typeOpt then ttl else (f ttl).getD ttl

/-- The offset lies in the TTL field of the record. -/
def RecordRef.inTtl (r : RecordRef) (i : ℕ) : Prop := r.ttlOff ≤ i ∧ i < r.ttlOff + 4

/-- The buffer with the TTL of one record rewritten. -/
def patchTtl (f : UInt32 → Option UInt32) (msg : Bytes) (r : RecordRef) : Bytes :=
  if r.rtype = typeOpt then msg
  else
    match f (msg.readU32 r.ttlOff) with
    | some new => msg.overwrite r.ttlOff (ofU32 new)
    | none => msg

theorem length_patchTtl (f : UInt32 → Option UInt32) (msg : Bytes) (r : RecordRef) :
    (patchTtl f msg r).length = msg.length := by
  unfold patchTtl
  split
  · rfl
  · split
    · exact length_overwrite ..
    · rfl

theorem getElem?_patchTtl {f : UInt32 → Option UInt32} {msg : Bytes} {r : RecordRef} {i : ℕ}
    (h : r.rtype = typeOpt ∨ ¬ r.inTtl i) : (patchTtl f msg r)[i]? = msg[i]? := by
  unfold patchTtl
  split
  · rfl
  · rename_i hopt
    have hi : ¬ r.inTtl i := h.resolve_left hopt
    simp only [RecordRef.inTtl] at hi
    split
    · by_cases hlt : i < r.ttlOff
      · exact getElem?_overwrite_of_lt hlt
      · refine getElem?_overwrite_of_ge ?_
        simp only [ofU32, List.length_cons, List.length_nil]
        omega
    · rfl

theorem readU32_patchTtl {f : UInt32 → Option UInt32} {msg : Bytes} {r : RecordRef}
    (h : r.ttlOff + 4 ≤ msg.length) :
    (patchTtl f msg r).readU32 r.ttlOff = newTtl f r (msg.readU32 r.ttlOff) := by
  unfold patchTtl newTtl
  split
  · rfl
  · cases hf : f (msg.readU32 r.ttlOff) with
    | none => rfl
    | some new => exact readU32_overwrite new h

/-- One round of the rewrite: patch the record, go on after it. -/
theorem rewriteFrom_succ_record {f : UInt32 → Option UInt32} {n : ℕ} {c c' : RecordCursor}
    {msg : Bytes} {r : RecordRef} (h : c.next msg = (.record r, c')) :
    (rewriteFrom f (n + 1) c msg).1 = (rewriteFrom f n c' (patchTtl f msg r)).1 := by
  simp only [rewriteFrom, h, patchTtl]
  by_cases hopt : r.rtype = typeOpt
  · rw [if_pos hopt, if_pos hopt]
  · rw [if_neg hopt, if_neg hopt]
    cases f (msg.readU32 r.ttlOff) <;> rfl

/-- The patch of a record lies behind the cursor, so the rest of the walk is the same. -/
theorem agreeOn_patchTtl (f : UInt32 → Option UInt32) {msg : Bytes} {sec : Section} {i : ℕ}
    {r : RecordRef} {stop : ℕ} (h : readRecord msg sec i = some (r, stop)) :
    AgreeOn msg (patchTtl f msg r) stop msg.length := by
  have hb := readRecord_bounds h
  intro k hk _
  refine getElem?_patchTtl (Or.inr ?_)
  simp only [RecordRef.inTtl]
  omega

/-- What the loop does to the buffer, given the records it will visit. -/
theorem rewriteFrom_spec (f : UInt32 → Option UInt32) {n : ℕ} {c : RecordCursor} {msg : Bytes}
    {rs : List RecordRef} (h : walkFrom msg n c = (rs, true)) :
    (rewriteFrom f n c msg).1.length = msg.length ∧
      (∀ i, (∀ r ∈ rs, r.rtype = typeOpt ∨ ¬ r.inTtl i) →
        (rewriteFrom f n c msg).1[i]? = msg[i]?) ∧
      ∀ r ∈ rs, (rewriteFrom f n c msg).1.readU32 r.ttlOff =
        newTtl f r (msg.readU32 r.ttlOff) := by
  induction n generalizing c msg rs with
  | zero =>
    obtain ⟨rfl, -⟩ := Prod.mk.inj h
    exact ⟨rfl, fun _ _ => rfl, fun r hr => by cases hr⟩
  | succ n ih =>
    rcases walkFrom_succ_cases msg n c with ⟨hp, hw⟩ | ⟨sec, d, hp, hr, hw⟩ |
      ⟨sec, d, r, stop, hp, hr, hw⟩
    · rw [hw] at h
      obtain ⟨rfl, -⟩ := Prod.mk.inj h
      simp [rewriteFrom, RecordCursor.next, hp]
    · rw [hw] at h
      cases (Prod.mk.inj h).2
    · rw [hw] at h
      obtain ⟨hrs, hok⟩ := Prod.mk.inj h
      have hb := readRecord_bounds hr
      have hnext : c.next msg = (.record r, { d with pos := stop }) :=
        next_eq_record_iff.2 ⟨sec, d, stop, hp, hr, rfl⟩
      have hafter : ∀ r' ∈ (walkFrom msg n { d with pos := stop }).1, stop + 5 ≤ r'.ttlOff :=
        fun r' hr' => (walkFrom_bounds hr').1
      have hlen := length_patchTtl f msg r
      have hbehind := agreeOn_patchTtl f hr
      have hwalk := walkFrom_congr (n := n) (c := { d with pos := stop }) hlen hbehind
      obtain ⟨ihlen, ihrest, ihttl⟩ := ih (hwalk.trans (Prod.ext rfl hok))
      rw [rewriteFrom_succ_record hnext, ← hrs]
      refine ⟨ihlen.trans hlen, fun i hi => ?_, fun r' hr' => ?_⟩
      · rw [ihrest i fun r' hr' => hi r' (List.mem_cons_of_mem _ hr'),
          getElem?_patchTtl (hi r (List.mem_cons_self ..))]
      · rcases List.mem_cons.1 hr' with rfl | hr'
        · -- the record just patched is not touched again
          have hkeep : AgreeOn (patchTtl f msg r')
              (rewriteFrom f n { d with pos := stop } (patchTtl f msg r')).1
              r'.ttlOff (r'.ttlOff + 4) := by
            intro i hi hi'
            refine ihrest i fun r'' hr'' => Or.inr ?_
            have := hafter r'' hr''
            simp only [RecordRef.inTtl]
            omega
          rw [hkeep.readU32 (Nat.le_refl _) (Nat.le_refl _), readU32_patchTtl (by omega)]
        · have hbr := walkFrom_bounds hr'
          have hsame := hbehind.readU32 (i := r'.ttlOff) (by simp only at hbr; omega) (by omega)
          rw [ihttl r' hr', hsame]

/-- **The TTL rewrite.**  On a message that walks cleanly it changes the TTL of every
record that is not OPT as `f` says, and no other byte; the message still walks to the
same records. -/
theorem rewriteTtls_spec (f : UInt32 → Option UInt32) {msg : Bytes} {rs : List RecordRef}
    (h : walk msg = some (rs, true)) :
    walk (rewriteTtls msg f).1 = some (rs, true) ∧
      (rewriteTtls msg f).1.length = msg.length ∧
      (∀ i, (∀ r ∈ rs, r.rtype = typeOpt ∨ ¬ r.inTtl i) →
        (rewriteTtls msg f).1[i]? = msg[i]?) ∧
      ∀ r ∈ rs, (rewriteTtls msg f).1.readU32 r.ttlOff = newTtl f r (msg.readU32 r.ttlOff) := by
  obtain ⟨c, hc, hw⟩ := walk_eq_some_iff.1 h
  have hrun : rewriteTtls msg f = rewriteFrom f c.left c msg := by
    rw [rewriteTtls, if_pos (isWellFormed_iff.2 ⟨rs, h⟩), hc]
  obtain ⟨hlen, hrest, httl⟩ := rewriteFrom_spec f hw
  rw [hrun]
  refine ⟨?_, hlen, hrest, httl⟩
  have hframe : ∀ i, (∀ r ∈ rs, ¬ r.inHead i) → (rewriteFrom f c.left c msg).1[i]? = msg[i]? := by
    intro i hi
    refine hrest i fun r hr => Or.inr fun ht => hi r hr ?_
    simp only [RecordRef.inTtl, RecordRef.inHead] at ht ⊢
    omega
  rw [walk_frame h hlen hframe]
  have hself : ∀ r ∈ rs, r.reread (rewriteFrom f c.left c msg).1 = r := by
    intro r hr
    refine reread_eq_self h hr fun i hi hi' => hrest i fun r' hr' => Or.inr ?_
    have hb := walk_bounds h hr
    have hb' := walk_bounds h hr'
    -- a TTL field and a CLASS field belong to one record, or to two apart
    simp only [RecordRef.inTtl]
    rcases walk_apart h hr hr' with rfl | hapart | hapart <;> omega
  rw [List.map_congr_left hself, List.map_id']

end Ferrite.Wire
