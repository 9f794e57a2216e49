import Ferrite.Lib.Bytes

/-!
# One side of a dialogue

A party that talks to a peer over a pair of byte streams: it reads an exact number of bytes,
writes some, and ends with a result or an error.  The `Line` is everything the peer will do:
the bytes it sends, how many it takes, and how it fails when more is wanted of it.

* `bind_eq_ok`, `bind_eq_error` — how a talk of two parts ends;
* `readExact_eq_ok`, `writeAll_eq_ok` — when one operation succeeds, and what is left of the
  line then.
-/

namespace Dialogue

/-- How a line fails: with an error, or by nothing happening any more. -/
inductive Lost (E : Type) where
  | closed (why : E)
  | silent
deriving DecidableEq, Repr

def Lost.map {E F : Type} (f : E → F) : Lost E → Lost F
  | closed why => closed (f why)
  | silent => silent

/-- A connection to a peer. -/
structure Line (E : Type) where
  incoming : Bytes
  /-- How many bytes more the peer takes. -/
  room : ℕ
  ending : Lost E
  sent : Bytes
deriving DecidableEq, Repr

/-- A part of a dialogue; errors are of type `ε`. -/
def Talk (E ε α : Type) : Type := Line E → Except ε α × Line E

variable {E ε ε' α β : Type}

instance : Monad (Talk E ε) where
  pure a := fun l => (.ok a, l)
  bind x f := fun l =>
    match x l with
    | (.ok a, l') => f a l'
    | (.error e, l') => (.error e, l')

/-- The whole of a dialogue on a line. -/
def run (x : Talk E ε α) (l : Line E) : Except ε α × Line E := x l

/-- Give up. -/
def fail (e : ε) : Talk E ε α := fun l => (.error e, l)

def mapError (f : ε → ε') (x : Talk E ε α) : Talk E ε' α := fun l =>
  match x l with
  | (.ok a, l') => (.ok a, l')
  | (.error e, l') => (.error (f e), l')

/-- Exactly `n` bytes of the peer. -/
def readExact (n : ℕ) : Talk E (Lost E) Bytes := fun l =>
  if n ≤ l.incoming.length then
    (.ok (l.incoming.take n), { l with incoming := l.incoming.drop n })
  else (.error l.ending, { l with incoming := [] })

/-- All of the bytes, or as many as the peer takes. -/
def writeAll (bs : Bytes) : Talk E (Lost E) Unit := fun l =>
  if bs.length ≤ l.room then
    (.ok (), { l with room := l.room - bs.length, sent := l.sent ++ bs })
  else (.error l.ending, { l with room := 0, sent := l.sent ++ bs.take l.room })

/-! ## How a talk ends -/

theorem pure_run (a : α) (l : Line E) : (pure a : Talk E ε α) l = (.ok a, l) := rfl

theorem fail_run (e : ε) (l : Line E) : (fail e : Talk E ε α) l = (.error e, l) := rfl

/-- The second part runs on what the first left. -/
theorem bind_of_ok {x : Talk E ε α} {f : α → Talk E ε β} {l l' : Line E} {a : α}
    (h : x l = (.ok a, l')) : (x >>= f) l = f a l' := by
  show (match x l with
    | (.ok a, l') => f a l'
    | (.error e, l') => (.error e, l')) = _
  rw [h]

/-- An error of the first part is the end. -/
theorem bind_of_error {x : Talk E ε α} {f : α → Talk E ε β} {l l' : Line E} {e : ε}
    (h : x l = (.error e, l')) : (x >>= f) l = (.error e, l') := by
  show (match x l with
    | (.ok a, l') => f a l'
    | (.error e, l') => (.error e, l')) = _
  rw [h]

theorem bind_eq_ok {x : Talk E ε α} {f : α → Talk E ε β} {l l'' : Line E} {b : β} :
    (x >>= f) l = (.ok b, l'') ↔ ∃ a l', x l = (.ok a, l') ∧ f a l' = (.ok b, l'') := by
  constructor
  · intro h
    cases hx : x l with
    | mk r l' =>
      cases r with
      | ok a => exact ⟨a, l', rfl, (bind_of_ok hx).symm.trans h⟩
      | error e =>
        rw [bind_of_error hx] at h
        cases h
  · rintro ⟨a, l', hx, hf⟩
    exact (bind_of_ok hx).trans hf

theorem bind_eq_error {x : Talk E ε α} {f : α → Talk E ε β} {l l'' : Line E} {e : ε} :
    (x >>= f) l = (.error e, l'') ↔
      x l = (.error e, l'') ∨ ∃ a l', x l = (.ok a, l') ∧ f a l' = (.error e, l'') := by
  constructor
  · intro h
    cases hx : x l with
    | mk r l' =>
      cases r with
      | ok a => exact Or.inr ⟨a, l', rfl, (bind_of_ok hx).symm.trans h⟩
      | error e' =>
        rw [bind_of_error hx] at h
        cases h
        exact Or.inl rfl
  · rintro (hx | ⟨a, l', hx, hf⟩)
    · exact bind_of_error hx
    · exact (bind_of_ok hx).trans hf

theorem mapError_eq_ok {f : ε → ε'} {x : Talk E ε α} {l l' : Line E} {a : α} :
    mapError f x l = (.ok a, l') ↔ x l = (.ok a, l') := by
  unfold mapError
  cases x l with
  | mk r l'' => cases r <;> simp

theorem mapError_eq_error {f : ε → ε'} {x : Talk E ε α} {l l' : Line E} {e' : ε'} :
    mapError f x l = (.error e', l') ↔ ∃ e, f e = e' ∧ x l = (.error e, l') := by
  unfold mapError
  cases x l with
  | mk r l'' => cases r <;> simp

/-! ## Single operations -/

theorem readExact_eq_ok {n : ℕ} {l l' : Line E} {bs : Bytes} :
    readExact n l = (.ok bs, l') ↔
      bs.length = n ∧ l.incoming = bs ++ l'.incoming ∧ l' = { l with incoming := l'.incoming } := by
  unfold readExact
  constructor
  · intro h
    split at h
    · rename_i hle
      cases h
      exact ⟨by rw [List.length_take, Nat.min_eq_left hle], by simp, rfl⟩
    · cases h
  · rintro ⟨rfl, hin, hl⟩
    rw [hin, if_pos (by simp), List.take_left, List.drop_left, ← hl]

theorem readExact_eq_error {n : ℕ} {l l' : Line E} {e : Lost E} :
    readExact n l = (.error e, l') ↔
      l.incoming.length < n ∧ e = l.ending ∧ l' = { l with incoming := [] } := by
  unfold readExact
  split
  · rename_i hle
    simp only [Prod.mk.injEq, reduceCtorEq, false_and, false_iff, not_and]
    omega
  · rename_i hle
    simp only [Prod.mk.injEq, Except.error.injEq]
    constructor
    · rintro ⟨rfl, rfl⟩
      exact ⟨by omega, rfl, rfl⟩
    · rintro ⟨-, rfl, rfl⟩
      exact ⟨rfl, rfl⟩

theorem writeAll_eq_ok {bs : Bytes} {l l' : Line E} {u : Unit} :
    writeAll bs l = (.ok u, l') ↔ bs.length ≤ l.room ∧
      l' = { l with room := l.room - bs.length, sent := l.sent ++ bs } := by
  unfold writeAll
  split
  · rename_i hle
    simp only [Prod.mk.injEq, true_and, hle]
    exact eq_comm
  · rename_i hle
    simp [hle]

/-! ## What is said -/

/-- From `l` to `l'` a beginning of `bs` was said. -/
def Said (bs : Bytes) (l l' : Line E) : Prop := ∃ k, l'.sent = l.sent ++ bs.take k

theorem Said.nothing {bs : Bytes} {l l' : Line E} (h : l'.sent = l.sent) : Said bs l l' :=
  ⟨0, by rw [h, List.take_zero, List.append_nil]⟩

/-- A beginning of what is said, and more. -/
theorem Said.append {bs : Bytes} {l l' : Line E} (h : Said bs l l') (more : Bytes) :
    Said (bs ++ more) l l' := by
  obtain ⟨k, hk⟩ := h
  refine ⟨min k bs.length, ?_⟩
  rw [hk, List.take_append_of_le_length (Nat.min_le_right ..), List.take_eq_take_min]

/-- All of one part, and a beginning of the next. -/
theorem Said.after {bs more : Bytes} {l l' l'' : Line E} (h : l'.sent = l.sent ++ bs)
    (h' : Said more l' l'') : Said (bs ++ more) l l'' := by
  obtain ⟨k, hk⟩ := h'
  refine ⟨bs.length + k, ?_⟩
  rw [hk, h, List.take_length_add_append, List.append_assoc]

theorem said_writeAll (bs : Bytes) (l : Line E) : Said bs l (writeAll bs l).2 := by
  unfold writeAll
  split
  · exact ⟨bs.length, by rw [List.take_length]⟩
  · exact ⟨l.room, rfl⟩

theorem sent_readExact (n : ℕ) (l : Line E) : (readExact n l).2.sent = l.sent := by
  unfold readExact
  split <;> rfl

theorem mapError_snd (f : ε → ε') (x : Talk E ε α) (l : Line E) :
    (mapError f x l).2 = (x l).2 := by
  unfold mapError
  cases x l with
  | mk r l' => cases r <;> rfl

/-- A part that says nothing. -/
def Quiet (x : Talk E ε α) : Prop := ∀ l, (x l).2.sent = l.sent

theorem quiet_pure (a : α) : Quiet (pure a : Talk E ε α) := fun _ => rfl

theorem quiet_fail (e : ε) : Quiet (fail e : Talk E ε α) := fun _ => rfl

theorem quiet_readExact (n : ℕ) : Quiet (readExact n : Talk E (Lost E) Bytes) := sent_readExact n

theorem Quiet.mapError {x : Talk E ε α} (h : Quiet x) (f : ε → ε') :
    Quiet (Dialogue.mapError f x) := by
  intro l
  rw [mapError_snd]
  exact h l

/-- What the first part says is all that is said when the rest says nothing. -/
theorem Said.bind {x : Talk E ε α} {f : α → Talk E ε β} {bs : Bytes} {l : Line E}
    (h : Said bs l (x l).2) (hf : ∀ a, Quiet (f a)) : Said bs l ((x >>= f) l).2 := by
  cases hx : x l with
  | mk r l' =>
    rw [hx] at h
    cases r with
    | error e =>
      rw [bind_of_error hx]
      exact h
    | ok a =>
      obtain ⟨k, hk⟩ := h
      rw [bind_of_ok hx]
      exact ⟨k, (hf a l').trans hk⟩

theorem Quiet.bind {x : Talk E ε α} {f : α → Talk E ε β} (h : Quiet x) (hf : ∀ a, Quiet (f a)) :
    Quiet (x >>= f) := by
  intro l
  cases hx : x l with
  | mk r l' =>
    have hsent := h l
    rw [hx] at hsent
    cases r with
    | error e =>
      rw [bind_of_error hx]
      exact hsent
    | ok a =>
      rw [bind_of_ok hx]
      exact (hf a l').trans hsent

end Dialogue
