import Ferrite.Dns.Cloaking
import Ferrite.Lib.Hops
import Ferrite.Lib.Loops

/-!
# The walkers run on anything

`skip_name`, `question_end`, `RecordCursor` and `read_name_lower` of `core/src/wire.rs` see the
bytes of a message before any other check.  Here their loops are loops and their indices can
fail: `msg[i]` outside the buffer, `left[section]` outside the array and `-= 1` at zero are a
panic, which is `none`.  A loop that does not end is `none` too, however many rounds it has.

* `run_skipRound`, `run_nameRound`, `questionEndRun_eq`, `Cursor.new_eq`, `Cursor.next_eq` — with
  as many rounds as the message has bytes and a few more each of them ends, without a panic, as
  the total functions of the model say;
* `skipNameFrom_eq` — on a name without a pointer the two walkers over the first question
  stop at the same byte;
* `walkers_safe_and_agree` — all of it.
-/

namespace Ferrite.Dns

open Bytes Wire Loops

/-- `u16::from_be_bytes([msg[i], msg[i + 1]])`. -/
def indexU16 (msg : Bytes) (i : ℕ) : Option UInt16 := do
  let hi ← msg[i]?
  let lo ← msg[i + 1]?
  return UInt16.ofNat (hi.toNat * 256 + lo.toNat)

/-- An index inside the buffer does not panic. -/
theorem indexU16_eq {msg : Bytes} {i : ℕ} (h : i + 2 ≤ msg.length) :
    indexU16 msg i = some (msg.readU16 i) := by
  have hhi : msg[i]? = some msg[i] := List.getElem?_eq_getElem (by omega)
  have hlo : msg[i + 1]? = some msg[i + 1] := List.getElem?_eq_getElem (by omega)
  simp [indexU16, readU16, byteAt, hhi, hlo]

/-! ## Skipping a name -/

/-- A round of the loop of `skip_name`. -/
def skipRound (msg : Bytes) (i : ℕ) : Option (Round ℕ (Option ℕ)) :=
  match msg[i]? with
  | none => some (.leave none)
  | some len =>
    if len &&& 0xC0 = 0 then
      if len = 0 then some (.leave (some (i + 1)))
      else if msg.length < i + 1 + len.toNat then some (.leave none)
      else some (.again (i + 1 + len.toNat))
    else if len &&& 0xC0 = 0xC0 then
      if i + 1 < msg.length then some (.leave (some (i + 2))) else some (.leave none)
    else some (.leave none)

theorem skipNameFrom_eq_join (msg : Bytes) (fuel i : ℕ) :
    skipNameFrom msg fuel i = (run (skipRound msg) fuel i).join := by
  induction fuel generalizing i with
  | zero => rfl
  | succ fuel ih =>
    unfold skipNameFrom run skipRound
    cases msg[i]? with
    | none => rfl
    | some len =>
      dsimp only
      split
      · split
        · rfl
        · split
          · rfl
          · exact ih _
      · split
        · split <;> rfl
        · rfl

/-- **`skip_name` ends**, with a round for each byte. -/
theorem run_skipRound (msg : Bytes) (i : ℕ) {rounds : ℕ} (h : msg.length < rounds) :
    run (skipRound msg) rounds i = some (skipName msg i) := by
  obtain ⟨r, hr, -⟩ : ∃ r, run (skipRound msg) (msg.length + 1) i = some r ∧ True := by
    refine run_ends (fun _ => True) _ (fun j => msg.length - j) (fun j _ => ?_) trivial (by omega)
    unfold skipRound
    cases hlen : msg[j]? with
    | none => exact .inr ⟨_, rfl, trivial⟩
    | some len =>
      obtain ⟨hj, -⟩ := List.getElem?_eq_some_iff.1 hlen
      dsimp only
      split
      · split
        · exact .inr ⟨_, rfl, trivial⟩
        · split
          · exact .inr ⟨_, rfl, trivial⟩
          · exact .inl ⟨_, rfl, trivial, by omega⟩
      · split
        · split
          · exact .inr ⟨_, rfl, trivial⟩
          · exact .inr ⟨_, rfl, trivial⟩
        · exact .inr ⟨_, rfl, trivial⟩
  rw [run_more hr h, skipName, skipNameFrom_eq_join, hr]
  rfl

/-! ## The end of the first question -/

/-- A round of the loop of `question_end`. -/
def questionRound (msg : Bytes) (i : ℕ) : Option (Round ℕ (Option ℕ)) :=
  match msg[i]? with
  | none => some (.leave none)
  | some len =>
    if len = 0 then some (.leave (some (i + 1)))
    else if len &&& 0xC0 ≠ 0 then some (.leave none)
    else if msg.length < i + 1 + len.toNat then some (.leave none)
    else some (.again (i + 1 + len.toNat))

/-- `question_end`. -/
def questionEndRun (msg : Bytes) (rounds : ℕ) : Option (Option ℕ) :=
  if msg.length < headerLen then some none
  else do
    let qdcount ← indexU16 msg 4
    if qdcount = 0 then return none
    let some i ← run (questionRound msg) rounds headerLen | return none
    return if i + 4 ≤ msg.length then some (i + 4) else none

theorem questionNameEnd_eq_join (msg : Bytes) (fuel i : ℕ) :
    questionNameEnd msg fuel i = (run (questionRound msg) fuel i).join := by
  induction fuel generalizing i with
  | zero => rfl
  | succ fuel ih =>
    unfold questionNameEnd run questionRound
    cases msg[i]? with
    | none => rfl
    | some len =>
      dsimp only
      split
      · rfl
      · split
        · rfl
        · split
          · rfl
          · exact ih _

theorem run_questionRound (msg : Bytes) (i : ℕ) {rounds : ℕ} (h : msg.length < rounds) :
    run (questionRound msg) rounds i = some (questionNameEnd msg (msg.length + 1) i) := by
  obtain ⟨r, hr, -⟩ : ∃ r, run (questionRound msg) (msg.length + 1) i = some r ∧ True := by
    refine run_ends (fun _ => True) _ (fun j => msg.length - j) (fun j _ => ?_) trivial (by omega)
    unfold questionRound
    cases hlen : msg[j]? with
    | none => exact .inr ⟨_, rfl, trivial⟩
    | some len =>
      obtain ⟨hj, -⟩ := List.getElem?_eq_some_iff.1 hlen
      dsimp only
      split
      · exact .inr ⟨_, rfl, trivial⟩
      · split
        · exact .inr ⟨_, rfl, trivial⟩
        · split
          · exact .inr ⟨_, rfl, trivial⟩
          · exact .inl ⟨_, rfl, trivial, by omega⟩
  rw [run_more hr h, questionNameEnd_eq_join, hr]
  rfl

/-- **`question_end` ends** and does not panic. -/
theorem questionEndRun_eq (msg : Bytes) {rounds : ℕ} (h : msg.length < rounds) :
    questionEndRun msg rounds = some (questionEnd msg) := by
  unfold questionEndRun questionEnd
  split
  · rfl
  · next hlen =>
    have hheader : headerLen = 12 := rfl
    rw [indexU16_eq (by omega)]
    by_cases hzero : msg.readU16 4 = 0
    · simp [hzero]
    · rw [run_questionRound msg headerLen h]
      cases questionNameEnd msg (msg.length + 1) headerLen with
      | none => simp [hzero]
      | some i => simp [hzero]

/-- Between the header and the end of the question's name no label is a pointer. -/
def PlainQuestion (msg : Bytes) : Prop :=
  ∀ j len, Hops.Reaches
      (fun i => msg[i]?.any fun len => len &&& 0xC0 = 0 ∧ i + 1 + len.toNat ≤ msg.length)
      (fun i => msg[i]? == some 0) (fun i => i + 1 + (msg.byteAt i).toNat) headerLen j →
    msg[j]? = some len → len &&& 0xC0 ≠ 0xC0

/-- The two walkers over a name without a pointer see the same. -/
theorem skipNameFrom_eq {msg : Bytes} {fuel i : ℕ}
    (h : ∀ j len, Hops.Reaches
      (fun i => msg[i]?.any fun len => len &&& 0xC0 = 0 ∧ i + 1 + len.toNat ≤ msg.length)
      (fun i => msg[i]? == some 0) (fun i => i + 1 + (msg.byteAt i).toNat) i j →
        msg[j]? = some len → len &&& 0xC0 ≠ 0xC0) :
    skipNameFrom msg fuel i = questionNameEnd msg fuel i := by
  induction fuel generalizing i with
  | zero => rfl
  | succ fuel ih =>
    unfold skipNameFrom questionNameEnd
    cases hlen : msg[i]? with
    | none => rfl
    | some len =>
      dsimp only
      have hplain := h i len (Hops.Reaches.refl i) hlen
      by_cases hzero : len = 0
      · subst hzero
        rfl
      · by_cases hlabel : len &&& 0xC0 = 0
        · rw [if_pos hlabel, if_neg hzero, if_neg hzero, if_neg (not_not.2 hlabel)]
          split
          · rfl
          · next hfits =>
            refine ih fun j len' hreach => h j len' (Hops.Reaches.hop ?_ ?_ ?_)
            · simp only [hlen, Option.any_some, decide_eq_true_eq]
              exact ⟨hlabel, by omega⟩
            · simp [hlen, hzero]
            · have hbyte : msg.byteAt i = len := by simp [byteAt, hlen]
              rw [hbyte]
              exact hreach
        · rw [if_neg hlabel, if_neg hplain, if_neg hzero, if_pos hlabel]

/-- **The two walkers over the first question** stop at the same byte, if it is the only one and
its name has no pointer. -/
theorem questionEnd_eq_new {msg : Bytes} (hone : msg.readU16 4 = 1) (hplain : PlainQuestion msg) :
    questionEnd msg = (RecordCursor.new msg).map RecordCursor.pos := by
  have hsame : skipName msg headerLen = questionNameEnd msg (msg.length + 1) headerLen :=
    skipNameFrom_eq hplain
  have hcount : (1 : UInt16).toNat = 0 + 1 := rfl
  unfold questionEnd RecordCursor.new
  split
  · rfl
  · rw [hone, hcount, RecordCursor.skipQuestions, hsame, if_neg (by decide)]
    cases questionNameEnd msg (msg.length + 1) headerLen with
    | none => rfl
    | some i =>
      dsimp only
      by_cases hin : i + 4 ≤ msg.length
      · rw [if_pos hin, if_neg (Nat.not_lt.2 hin)]
        rfl
      · rw [if_neg hin, if_pos (Nat.not_le.1 hin)]
        rfl

/-! ## The cursor -/

/-- `RecordCursor`. -/
structure Cursor where
  pos : ℕ
  left : List ℕ
  sec : ℕ

namespace Cursor

/-- The loop of `RecordCursor::new` over the questions. -/
def skipQuestions (msg : Bytes) (rounds : ℕ) : ℕ → ℕ → Option (Option ℕ)
  | 0, i => some (some i)
  | n + 1, i => do
    let some j ← run (skipRound msg) rounds i | return none
    if msg.length < j + 4 then return none
    skipQuestions msg rounds n (j + 4)

/-- `RecordCursor::new`. -/
def new (msg : Bytes) (rounds : ℕ) : Option (Option Cursor) :=
  if msg.length < headerLen then some none
  else do
    let qdcount ← indexU16 msg 4
    let some i ← skipQuestions msg rounds qdcount.toNat headerLen | return none
    let answers ← indexU16 msg 6
    let authorities ← indexU16 msg 8
    let additionals ← indexU16 msg 10
    return some ⟨i, [answers.toNat, authorities.toNat, additionals.toNat], 0⟩

/-- `SECTIONS`. -/
def sections : List Section := [.answer, .authority, .additional]

/-- A round of the loop of `next` over the sections. -/
def sectionRound (left : List ℕ) (sec : ℕ) : Option (Round ℕ ℕ) :=
  if sec < sections.length then do
    let n ← left[sec]?
    return if n = 0 then .again (sec + 1) else .leave sec
  else some (.leave sec)

/-- `RecordCursor::next`, from where it has found a record left in the section. -/
def readRecord (msg : Bytes) (rounds sec i : ℕ) : Option (Option (RecordRef × ℕ)) := do
  let some afterName ← run (skipRound msg) rounds i | return none
  if msg.length < afterName + rrFixedLen then return none
  let rdataLen ← indexU16 msg (afterName + 8)
  if msg.length < afterName + rrFixedLen + rdataLen.toNat then return none
  let found ← sections[sec]?
  let rtype ← indexU16 msg afterName
  let class' ← indexU16 msg (afterName + 2)
  return some (⟨found, rtype, class', afterName + 4, afterName + rrFixedLen, rdataLen.toNat⟩,
    afterName + rrFixedLen + rdataLen.toNat)

/-- `RecordCursor::next`. -/
def next (msg : Bytes) (rounds : ℕ) (k : Cursor) : Option (Step × Cursor) := do
  let sec ← run (sectionRound k.left) rounds k.sec
  if sections.length ≤ sec then return (.done, { k with sec := sec })
  let n ← k.left[sec]?
  -- `-= 1` of an unsigned number
  if n = 0 then none
  else
    let left := k.left.set sec (n - 1)
    match ← readRecord msg rounds sec k.pos with
    | none => return (.malformed, ⟨k.pos, left, sec⟩)
    | some (r, stop) => return (.record r, ⟨stop, left, sec⟩)

/-- The cursor of the source and that of the model are at the same place. -/
structure Mirrors (k : Cursor) (c : RecordCursor) : Prop where
  pos : k.pos = c.pos
  left : k.left = [c.answers, c.authorities, c.additionals]
  passed : ∀ j < k.sec, (k.left.getD j 0) = 0

/-- The questions are skipped as in the model. -/
theorem skipQuestions_eq (msg : Bytes) {rounds : ℕ} (h : msg.length < rounds) (n i : ℕ) :
    skipQuestions msg rounds n i = some (RecordCursor.skipQuestions msg n i) := by
  induction n generalizing i with
  | zero => rfl
  | succ n ih =>
    unfold skipQuestions RecordCursor.skipQuestions
    rw [run_skipRound msg i h, Option.bind_eq_bind, Option.bind_some]
    cases skipName msg i with
    | none => rfl
    | some j =>
      dsimp only
      split
      · rfl
      · exact ih _

/-- **`RecordCursor::new`** does not panic, and puts the cursor where the model has it. -/
theorem new_eq (msg : Bytes) {rounds : ℕ} (h : msg.length < rounds) :
    ∃ k, new msg rounds = some k ∧ Option.Rel Mirrors k (RecordCursor.new msg) := by
  unfold new RecordCursor.new
  split
  · exact ⟨none, rfl, .none⟩
  · next hlen =>
    have hheader : headerLen = 12 := rfl
    rw [indexU16_eq (by omega), Option.bind_eq_bind, Option.bind_some, skipQuestions_eq msg h,
      Option.bind_eq_bind, Option.bind_some]
    cases RecordCursor.skipQuestions msg (msg.readU16 4).toNat headerLen with
    | none => exact ⟨none, rfl, .none⟩
    | some i =>
      dsimp only
      rw [indexU16_eq (by omega : 6 + 2 ≤ msg.length), indexU16_eq (by omega : 8 + 2 ≤ msg.length),
        indexU16_eq (by omega : 10 + 2 ≤ msg.length)]
      exact ⟨_, rfl, .some ⟨rfl, rfl, nofun⟩⟩

/-- The first section from `sec` on with records left. -/
theorem run_sectionRound {left : List ℕ} (hleft : left.length = sections.length) {sec : ℕ}
    (hpassed : ∀ j < sec, left.getD j 0 = 0) {rounds : ℕ} (h : sections.length < rounds) :
    ∃ stop, run (sectionRound left) rounds sec = some stop ∧
      (∀ j < stop, left.getD j 0 = 0) ∧ (stop < sections.length → left.getD stop 0 ≠ 0) := by
  refine run_ends (fun s => ∀ j < s, left.getD j 0 = 0) _ (fun s => sections.length - s)
    (fun s hs => ?_) hpassed (by omega)
  unfold sectionRound
  split
  · next hlt =>
    have hget : left[s]? = some (left.getD s 0) := by
      rw [List.getD_eq_getElem?_getD, List.getElem?_eq_getElem (by omega)]
      rfl
    rw [hget, Option.bind_eq_bind, Option.bind_some]
    split
    · next hzero =>
      refine .inl ⟨s + 1, rfl, fun j hj => ?_, by omega⟩
      rcases Nat.lt_succ_iff_lt_or_eq.1 hj with hj | rfl
      · exact hs j hj
      · exact hzero
    · next hmore => exact .inr ⟨s, rfl, hs, fun _ => hmore⟩
  · next hge => exact .inr ⟨s, rfl, hs, fun hlt => absurd hlt hge⟩

/-- The counts a section leaves when one record of it is taken. -/
theorem pop_eq {c : RecordCursor} {sec : ℕ}
    (hzero : ∀ j < sec, [c.answers, c.authorities, c.additionals].getD j 0 = 0) :
    (sections.length ≤ sec → c.pop = none) ∧
      (sec < sections.length → [c.answers, c.authorities, c.additionals].getD sec 0 ≠ 0 →
        ∃ found d, sections[sec]? = some found ∧ c.pop = some (found, d) ∧ d.pos = c.pos ∧
          [d.answers, d.authorities, d.additionals] =
            [c.answers, c.authorities, c.additionals].set sec
              ([c.answers, c.authorities, c.additionals].getD sec 0 - 1)) := by
  obtain ⟨pos, answers, authorities, additionals⟩ := c
  have hlength : sections.length = 3 := rfl
  constructor
  · intro hsec
    have h0 : answers = 0 := hzero 0 (by omega)
    have h1 : authorities = 0 := hzero 1 (by omega)
    have h2 : additionals = 0 := hzero 2 (by omega)
    subst h0 h1 h2
    rfl
  · intro hsec hmore
    obtain rfl | rfl | rfl : sec = 0 ∨ sec = 1 ∨ sec = 2 := by omega
    · obtain ⟨n, rfl⟩ := Nat.exists_eq_succ_of_ne_zero (show answers ≠ 0 from hmore)
      exact ⟨_, _, rfl, rfl, rfl, rfl⟩
    · have h0 : answers = 0 := hzero 0 (by omega)
      obtain ⟨n, rfl⟩ := Nat.exists_eq_succ_of_ne_zero (show authorities ≠ 0 from hmore)
      subst h0
      exact ⟨_, _, rfl, rfl, rfl, rfl⟩
    · have h0 : answers = 0 := hzero 0 (by omega)
      have h1 : authorities = 0 := hzero 1 (by omega)
      obtain ⟨n, rfl⟩ := Nat.exists_eq_succ_of_ne_zero (show additionals ≠ 0 from hmore)
      subst h0 h1
      exact ⟨_, _, rfl, rfl, rfl, rfl⟩

/-- A record is read as in the model. -/
theorem readRecord_eq {msg : Bytes} {rounds sec : ℕ} (h : msg.length < rounds) {found : Section}
    (hfound : sections[sec]? = some found) (i : ℕ) :
    readRecord msg rounds sec i = some (Wire.readRecord msg found i) := by
  unfold readRecord Wire.readRecord
  rw [run_skipRound msg i h, Option.bind_eq_bind, Option.bind_some]
  cases skipName msg i with
  | none => rfl
  | some afterName =>
    dsimp only
    have hfixed : rrFixedLen = 10 := rfl
    split
    · rfl
    · next hin =>
      rw [indexU16_eq (by omega : afterName + 8 + 2 ≤ msg.length), Option.bind_eq_bind,
        Option.bind_some]
      split
      · rfl
      · rw [hfound, indexU16_eq (by omega : afterName + 2 ≤ msg.length),
          indexU16_eq (by omega : afterName + 2 + 2 ≤ msg.length)]
        rfl

/-- **`RecordCursor::next`** does not panic, and does what the model does. -/
theorem next_eq {msg : Bytes} {rounds : ℕ} (h : msg.length + sections.length < rounds)
    {k : Cursor} {c : RecordCursor} (hk : Mirrors k c) :
    ∃ k', next msg rounds k = some ((c.next msg).1, k') ∧ Mirrors k' (c.next msg).2 := by
  have hlength : k.left.length = sections.length := by
    rw [hk.left]
    rfl
  obtain ⟨sec, hsec, hzero, hmore⟩ := run_sectionRound hlength hk.passed (by omega : _ < rounds)
  obtain ⟨hdone, hpop⟩ := pop_eq (hk.left ▸ hzero)
  unfold next RecordCursor.next
  rw [hsec, Option.bind_eq_bind, Option.bind_some]
  by_cases hend : sections.length ≤ sec
  · rw [if_pos hend, hdone hend]
    exact ⟨_, rfl, ⟨hk.pos, hk.left, hzero⟩⟩
  · have hlt : sec < sections.length := Nat.not_le.1 hend
    obtain ⟨found, d, hfound, hd, hdpos, hdleft⟩ := hpop hlt (hk.left ▸ hmore hlt)
    have hget : k.left[sec]? = some (k.left.getD sec 0) := by
      rw [List.getD_eq_getElem?_getD, List.getElem?_eq_getElem (by omega)]
      rfl
    -- the cursor once the record is counted
    have hcounted : ∀ c' : RecordCursor, [c'.answers, c'.authorities, c'.additionals] =
          [d.answers, d.authorities, d.additionals] →
        Mirrors ⟨c'.pos, k.left.set sec (k.left.getD sec 0 - 1), sec⟩ c' := by
      intro c' hc'
      refine ⟨rfl, by rw [hk.left, hc', hdleft], fun j hj => ?_⟩
      have hne : sec ≠ j := (show j < sec from hj).ne'
      rw [List.getD_eq_getElem?_getD, List.getElem?_set_ne hne, ← List.getD_eq_getElem?_getD]
      exact hzero j hj
    rw [if_neg hend, hget, Option.bind_some, if_neg (hmore hlt), hd,
      readRecord_eq (by omega) hfound, hk.pos]
    dsimp only [Option.bind_eq_bind, Option.bind_some]
    cases Wire.readRecord msg found c.pos with
    | none =>
      rw [← hdpos]
      exact ⟨_, rfl, hcounted d rfl⟩
    | some r => exact ⟨_, rfl, hcounted { d with pos := r.2 } rfl⟩

/-- A cursor the walk over a message gets to, and the records it has yielded on the way. -/
inductive Reached (msg : Bytes) (rounds : ℕ) : Cursor → List RecordRef → Prop
  | start {k : Cursor} : new msg rounds = some (some k) → Reached msg rounds k []
  | yielded {k k' : Cursor} {rs : List RecordRef} {r : RecordRef} : Reached msg rounds k rs →
      next msg rounds k = some (.record r, k') → Reached msg rounds k' (rs ++ [r])

/-- The questions and the records yielded lie before the cursor. -/
structure Behind (msg : Bytes) (k : Cursor) (rs : List RecordRef) : Prop where
  questions : ∃ stop, RecordCursor.skipQuestions msg (msg.readU16 4).toNat headerLen = some stop ∧
    stop ≤ k.pos
  records : ∀ r ∈ rs, r.rdataOff + r.rdataLen ≤ k.pos

/-- **One step.**  A record that a cursor yields lies between where it stood and where it then
stands. -/
theorem next_record {msg : Bytes} {rounds : ℕ} (h : msg.length + sections.length < rounds)
    {k k' : Cursor} {c : RecordCursor} (hk : Mirrors k c) {r : RecordRef}
    (hnext : next msg rounds k = some (.record r, k')) :
    k.pos < r.ttlOff ∧ r.rdataOff = r.ttlOff + 6 ∧ r.rdataOff + r.rdataLen = k'.pos ∧
      k'.pos ≤ msg.length ∧ ∃ c', Mirrors k' c' := by
  obtain ⟨k'', hk'', hmirrors⟩ := next_eq h hk
  rw [hk''] at hnext
  obtain ⟨hstep, rfl⟩ := Prod.mk.inj (Option.some.inj hnext)
  have hrecord : c.next msg = (.record r, (c.next msg).2) := Prod.ext hstep rfl
  obtain ⟨found, d, stop, -, hread, hc'⟩ := next_eq_record_iff.1 hrecord
  obtain ⟨hname, hoff, hstop, hin, -⟩ := readRecord_bounds hread
  have hpos : k''.pos = stop := by rw [hmirrors.pos, hc']
  have hat := hk.pos
  exact ⟨by omega, hoff, by omega, by omega, _, hmirrors⟩

/-- **A run.**  A cursor stands behind all it has gone over. -/
theorem Reached.behind {msg : Bytes} {rounds : ℕ} (h : msg.length + sections.length < rounds)
    {k : Cursor} {rs : List RecordRef} (hk : Reached msg rounds k rs) :
    (∃ c, Mirrors k c) ∧ Behind msg k rs := by
  induction hk with
  | @start k hnew =>
    obtain ⟨k', hk', hrel⟩ := new_eq msg (by omega : msg.length < rounds)
    rw [hk'] at hnew
    obtain rfl := Option.some.inj hnew
    cases hc : RecordCursor.new msg with
    | none =>
      rw [hc] at hrel
      cases hrel
    | some c =>
      rw [hc] at hrel
      cases hrel with
      | some hmirrors =>
        refine ⟨⟨c, hmirrors⟩, ⟨c.pos, (new_eq_some_iff.1 hc).2.1, hmirrors.pos.ge⟩, nofun⟩
  | @yielded k k' rs r _ hnext ih =>
    obtain ⟨⟨c, hmirrors⟩, ⟨stop, hquestions, hle⟩, hrecords⟩ := ih
    obtain ⟨hname, hoff, hstop, -, hmirrors'⟩ := next_record h hmirrors hnext
    refine ⟨hmirrors', ⟨stop, hquestions, by omega⟩, fun p hp => ?_⟩
    rcases List.mem_append.1 hp with hp | hp
    · have := hrecords p hp
      omega
    · obtain rfl := List.mem_singleton.1 hp
      omega

end Cursor

/-! ## Reading a name -/

/-- Where `read_name_lower` is: the variables of its loop. -/
structure NameState where
  pos : ℕ
  jumps : ℕ
  out : Text

/-- A round of the loop of `read_name_lower`. -/
def nameRound (msg : Bytes) (s : NameState) : Option (Round NameState (Option Text)) :=
  match msg[s.pos]? with
  | none => some (.leave none)
  | some len =>
    if len &&& 0xC0 = 0 then
      if len = 0 then some (.leave (some s.out))
      else if msg.length < s.pos + 1 + len.toNat then some (.leave none)
      else
        let label := (msg.drop (s.pos + 1)).take len.toNat
        if !isPlainLabel label then some (.leave none)
        else if maxNameLen < s.out.length + len.toNat + 1 then some (.leave none)
        else some (.again ⟨s.pos + 1 + len.toNat, s.jumps, spelled s.out label⟩)
    else if len &&& 0xC0 = 0xC0 then
      if maxNameJumps < s.jumps + 1 then some (.leave none)
      else
        match msg[s.pos + 1]? with
        | none => some (.leave none)
        | some lo =>
          let dest := (len &&& 0x3F).toNat * 256 + lo.toNat
          if s.pos ≤ dest then some (.leave none) else some (.again ⟨dest, s.jumps + 1, s.out⟩)
    else some (.leave none)

theorem readNameFrom_eq_join (msg : Bytes) (fuel i jumps : ℕ) (out : Text) :
    readNameFrom msg fuel i jumps out = (run (nameRound msg) fuel ⟨i, jumps, out⟩).join := by
  induction fuel generalizing i jumps out with
  | zero => rfl
  | succ fuel ih =>
    unfold readNameFrom run nameRound
    dsimp only
    cases msg[i]? with
    | none => rfl
    | some len =>
      dsimp only
      split
      · split
        · rfl
        · split
          · rfl
          · split
            · rfl
            · split
              · rfl
              · exact ih _ _ _
      · split
        · split
          · rfl
          · cases msg[i + 1]? with
            | none => rfl
            | some lo =>
              dsimp only
              split
              · rfl
              · exact ih _ _ _
        · rfl

/-- What the loop of `read_name_lower` keeps. -/
def NameState.Within (s : NameState) : Prop := s.out.length ≤ maxNameLen ∧ s.jumps ≤ maxNameJumps

/-- What a round leaves with is a text no longer than allowed, and every further round spends a
character or a jump. -/
theorem nameRound_ends (msg : Bytes) (s : NameState) (hs : s.Within) :
    (∃ s', nameRound msg s = some (.again s') ∧ s'.Within ∧
      (maxNameLen - s'.out.length) + (maxNameJumps - s'.jumps) <
        (maxNameLen - s.out.length) + (maxNameJumps - s.jumps)) ∨
      ∃ r, nameRound msg s = some (.leave r) ∧ ∀ t ∈ r, t.length ≤ maxNameLen := by
  obtain ⟨hlen, hjumps⟩ := hs
  unfold nameRound
  cases msg[s.pos]? with
  | none => exact .inr ⟨_, rfl, nofun⟩
  | some len =>
    dsimp only
    split
    · split
      · refine .inr ⟨_, rfl, fun t ht => ?_⟩
        cases ht
        exact hlen
      · next hpos =>
        split
        · exact .inr ⟨_, rfl, nofun⟩
        · next hin =>
          split
          · exact .inr ⟨_, rfl, nofun⟩
          · split
            · exact .inr ⟨_, rfl, nofun⟩
            · next hfits =>
              -- the label has at least one character
              have hnat : len.toNat ≠ 0 := fun h0 => hpos (UInt8.toNat_inj.1 h0)
              have hlabel : ((msg.drop (s.pos + 1)).take len.toNat).length = len.toNat := by
                rw [List.length_take, List.length_drop]
                omega
              have hout : s.out.length + len.toNat ≤
                    (spelled s.out ((msg.drop (s.pos + 1)).take len.toNat)).length ∧
                  (spelled s.out ((msg.drop (s.pos + 1)).take len.toNat)).length ≤
                    s.out.length + 1 + len.toNat := by
                unfold spelled labelText
                rw [List.length_append, List.length_append, List.length_map, hlabel]
                split
                · simp
                · simp
              refine .inl ⟨_, rfl, ⟨?_, hjumps⟩, ?_⟩
              · dsimp only
                omega
              · dsimp only
                omega
    · split
      · split
        · exact .inr ⟨_, rfl, nofun⟩
        · next hmore =>
          cases msg[s.pos + 1]? with
          | none => exact .inr ⟨_, rfl, nofun⟩
          | some lo =>
            dsimp only
            split
            · exact .inr ⟨_, rfl, nofun⟩
            · refine .inl ⟨_, rfl, ⟨hlen, Nat.not_lt.1 hmore⟩, ?_⟩
              dsimp only
              omega
      · exact .inr ⟨_, rfl, nofun⟩

/-- **`read_name_lower` ends**, and what it reads is not too long. -/
theorem run_nameRound (msg : Bytes) (i : ℕ) {rounds : ℕ}
    (h : maxNameLen + maxNameJumps + 2 ≤ rounds) :
    run (nameRound msg) rounds ⟨i, 0, []⟩ = some (readNameLower msg i) ∧
      ∀ t ∈ readNameLower msg i, t.length ≤ maxNameLen := by
  have hstart : (⟨i, 0, []⟩ : NameState).Within := ⟨Nat.zero_le _, Nat.zero_le _⟩
  obtain ⟨r, hr, hlen⟩ := run_ends NameState.Within
    (fun r : Option Text => ∀ t ∈ r, t.length ≤ maxNameLen)
    (fun s => (maxNameLen - s.out.length) + (maxNameJumps - s.jumps)) (nameRound_ends msg) hstart
    (show _ < maxNameLen + maxNameJumps + 2 by simp only [List.length_nil]; omega)
  have hread : readNameLower msg i = r := by
    rw [readNameLower, readNameFrom_eq_join, hr]
    rfl
  rw [hread]
  exact ⟨run_more hr h, hlen⟩

/-- **The walkers are safe and agree.**  On any bytes, from any offset and with rounds enough,
every walker ends without an index outside the buffer.  A record that a cursor yields lies inside
the message, behind the questions and behind every record before it.  On a message with one
question whose name has no pointer `question_end` is where a new cursor stands.  And a name that
is read is the lowercase dotted form of the labels at its offset, pointers followed, of at most
255 characters. -/
theorem walkers_safe_and_agree (msg : Bytes) :
    ∃ enough, ∀ rounds, enough ≤ rounds →
      (∀ i, run (skipRound msg) rounds i = some (skipName msg i)) ∧
      questionEndRun msg rounds = some (questionEnd msg) ∧
      (∀ i, run (nameRound msg) rounds ⟨i, 0, []⟩ = some (readNameLower msg i)) ∧
      (∃ k, Cursor.new msg rounds = some k) ∧
      (∀ k rs, Cursor.Reached msg rounds k rs → Cursor.Behind msg k rs ∧
        ∃ step k', Cursor.next msg rounds k = some (step, k') ∧
          ∀ r, step = .record r → k.pos < r.ttlOff ∧ r.rdataOff = r.ttlOff + 6 ∧
            r.rdataOff + r.rdataLen = k'.pos ∧ k'.pos ≤ msg.length) ∧
      (msg.readU16 4 = 1 → PlainQuestion msg → ∀ e,
        questionEnd msg = some e ↔ ∃ k, Cursor.new msg rounds = some (some k) ∧ k.pos = e) ∧
      ∀ i t, readNameLower msg i = some t →
        ∃ n, NameAt msg i n ∧ t = plainText n ∧ t.length ≤ 255 := by
  refine ⟨msg.length + (maxNameLen + maxNameJumps + 2), fun rounds hrounds => ?_⟩
  have hsections : Cursor.sections.length = 3 := rfl
  have hnames : maxNameLen + maxNameJumps + 2 = 289 := rfl
  have hbytes : msg.length < rounds := by omega
  have hcursor : msg.length + Cursor.sections.length < rounds := by omega
  obtain ⟨k₀, hk₀, hrel⟩ := Cursor.new_eq msg hbytes
  refine ⟨fun i => run_skipRound msg i hbytes, questionEndRun_eq msg hbytes,
    fun i => (run_nameRound msg i (by omega)).1, ⟨k₀, hk₀⟩, fun k rs hreach => ?_,
    fun hone hplain e => ?_, fun i t ht => ?_⟩
  · obtain ⟨⟨c, hmirrors⟩, hbehind⟩ := hreach.behind hcursor
    obtain ⟨k', hk', -⟩ := Cursor.next_eq hcursor hmirrors
    refine ⟨hbehind, _, k', hk', fun r hr => ?_⟩
    rw [hr] at hk'
    obtain ⟨hname, hoff, hstop, hin, -⟩ := Cursor.next_record hcursor hmirrors hk'
    exact ⟨hname, hoff, hstop, hin⟩
  · rw [questionEnd_eq_new hone hplain, hk₀]
    cases hc : RecordCursor.new msg with
    | none =>
      rw [hc] at hrel
      cases hrel
      simp
    | some c =>
      rw [hc] at hrel
      cases hrel with
      | some hmirrors => simp [hmirrors.pos]
  · obtain ⟨n, hname, -, rfl⟩ := readNameLower_spec ht
    exact ⟨n, hname, rfl, (run_nameRound msg i (by omega : _ ≤ rounds)).2 _ ht⟩

end Ferrite.Dns
