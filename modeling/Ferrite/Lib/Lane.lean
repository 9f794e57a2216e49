import Mathlib.Data.List.Basic
import Mathlib.Data.List.Infix

/-!
# One direction of a relay

A relay between two ends has two lanes.  A lane is what its source has sent, where each item
of that is now (with the source still, in the hands of the relay, or given to the destination)
and how the two ends are disposed.

Whatever a relay does to a lane is a `Step`, in which it may close the destination only when
it has nothing more to give.  `Faithful` is what such steps keep: nothing is lost, repeated or
put out of order (`Faithful.delivered_le`), and the end is passed on last
(`Faithful.all_of_shut`).
-/

/-- One direction of a relay. -/
structure Lane (α : Type) where
  /-- What the source has sent. -/
  sent : List α
  /-- The source will send no more. -/
  fin : Bool
  /-- What was sent and not read yet. -/
  unread : List α
  /-- What the relay has read and not given on yet. -/
  held : List α
  /-- What the destination was given. -/
  delivered : List α
  /-- How much more the destination takes. -/
  room : ℕ
  /-- The destination was shut down for writing. -/
  shut : Bool
deriving DecidableEq, Repr

namespace Lane

variable {α : Type}

/-- A lane on which nothing has happened. -/
def new (room : ℕ) : Lane α := ⟨[], false, [], [], [], room, false⟩

/-- The source sends something. -/
def arrive (l : Lane α) (xs : List α) : Lane α :=
  { l with sent := l.sent ++ xs, unread := l.unread ++ xs }

/-- The source sends no more. -/
def finish (l : Lane α) : Lane α := { l with fin := true }

/-- The destination makes room. -/
def drain (l : Lane α) (n : ℕ) : Lane α := { l with room := l.room + n }

/-- The relay reads `n` items. -/
def take (l : Lane α) (n : ℕ) : Lane α :=
  { l with unread := l.unread.drop n, held := l.held ++ l.unread.take n }

/-- The relay gives `n` items on. -/
def give (l : Lane α) (n : ℕ) : Lane α :=
  { l with
    held := l.held.drop n
    delivered := l.delivered ++ l.held.take n
    room := l.room - n }

/-- The relay shuts the destination down for writing. -/
def close (l : Lane α) : Lane α := { l with shut := true }

@[simp] theorem take_zero (l : Lane α) : l.take 0 = l := by
  simp [take]

@[simp] theorem give_zero (l : Lane α) : l.give 0 = l := by
  simp [give]

/-- What may become of a lane. -/
inductive Step (l : Lane α) : Lane α → Prop where
  | stay : Step l l
  | arrive (xs : List α) : l.fin = false → Step l (l.arrive xs)
  | finish : Step l l.finish
  | drain (n : ℕ) : Step l (l.drain n)
  | take (n : ℕ) : Step l (l.take n)
  | give (n : ℕ) : Step l (l.give n)
  | close : l.fin = true → l.unread = [] → l.held = [] → Step l l.close

/-- Everything that was sent is somewhere, in order, and the destination was shut down only
behind all of it. -/
structure Faithful (l : Lane α) : Prop where
  whole : l.sent = l.delivered ++ l.held ++ l.unread
  closed : l.shut = true → l.fin = true ∧ l.unread = [] ∧ l.held = []

theorem faithful_new (room : ℕ) : (new room : Lane α).Faithful :=
  ⟨rfl, fun h => absurd h (by simp [new])⟩

theorem Faithful.step {l l' : Lane α} (h : l.Faithful) (hstep : l.Step l') : l'.Faithful := by
  have hclosed := h.closed
  cases hstep with
  | stay => exact h
  | arrive xs hfin =>
    refine ⟨?_, ?_⟩
    · simp [arrive, h.whole]
    · intro hshut
      simp [(hclosed hshut).1] at hfin
  | finish => exact ⟨h.whole, fun hshut => ⟨rfl, (hclosed hshut).2⟩⟩
  | drain n => exact ⟨h.whole, hclosed⟩
  | take n =>
    refine ⟨?_, ?_⟩
    · simp [take, h.whole]
    · intro hshut
      obtain ⟨hfin, hunread, hheld⟩ := hclosed hshut
      simp [take, hfin, hunread, hheld]
  | give n =>
    refine ⟨?_, ?_⟩
    · have hsplit : l.held = l.held.take n ++ l.held.drop n := by simp
      rw [give, h.whole]
      simp only [List.append_assoc, List.append_cancel_left_eq]
      rw [← List.append_assoc, ← hsplit]
    · intro hshut
      obtain ⟨hfin, hunread, hheld⟩ := hclosed hshut
      simp [give, hfin, hunread, hheld]
  | close hfin hunread hheld => exact ⟨h.whole, fun _ => ⟨hfin, hunread, hheld⟩⟩

/-- What was delivered is the front of what was sent. -/
theorem Faithful.delivered_le {l : Lane α} (h : l.Faithful) : l.delivered <+: l.sent := by
  rw [h.whole, List.append_assoc]
  exact List.prefix_append _ _

/-- By the time the end is passed on, all was delivered. -/
theorem Faithful.all_of_shut {l : Lane α} (h : l.Faithful) (hshut : l.shut = true) :
    l.fin = true ∧ l.held = [] ∧ l.delivered = l.sent := by
  obtain ⟨hfin, hunread, hheld⟩ := h.closed hshut
  refine ⟨hfin, hheld, ?_⟩
  rw [h.whole, hunread, hheld]
  simp

/-- There is something to read, and room for it. -/
def Ready (l : Lane α) : Prop := l.unread ≠ [] ∧ 0 < l.room

/-- Something came nearer to the destination. -/
def Moved (l l' : Lane α) : Prop :=
  l.delivered.length < l'.delivered.length ∨ l'.unread.length < l.unread.length

theorem moved_take {l : Lane α} {n : ℕ} (hn : 0 < n) (h : n ≤ l.unread.length) :
    l.Moved (l.take n) := by
  right
  simp only [take, List.length_drop]
  omega

theorem moved_give {l : Lane α} {n : ℕ} (hn : 0 < n) (h : n ≤ l.held.length) :
    l.Moved (l.give n) := by
  left
  simp only [give, List.length_append, List.length_take]
  omega

instance (l l' : Lane α) : Decidable (l.Moved l') :=
  inferInstanceAs (Decidable (_ ∨ _))

end Lane
