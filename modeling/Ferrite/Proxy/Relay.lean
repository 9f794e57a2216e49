import Mathlib.Logic.Function.Basic
import Ferrite.Lib.Bytes
import Ferrite.Lib.Lane
import Ferrite.Lib.Lts

/-!
# The two relays of a spliced connection

Between two sockets the kernel moves the payload: `splice::relay` runs a `pump` for each
direction, which fills a pipe from the one socket and drains it into the other.  Any other
connection goes through `copy_bidirectional_idle`, one loop for both directions that reads a
chunk of whichever end has one and writes it out before it reads again.

Both are run here against the same world: what the ends send, how much they take, and what
each call of the relay returns, in any order.

* `ZeroCopy.step_inv`, `Generic.step_lane` — both relays only ever do what a relay may do
  (`Lane.Step`).
* `ZeroCopy.exists_moved` — neither pump waits for the other.
* `Generic.exists_moved`, `Generic.not_moved_of_writing_other` — the loop moves a byte unless
  it is busy with the other direction, and while it writes there it moves none.
* `relays_carry` — what the two have in common, over every schedule.
-/

namespace Ferrite.Proxy.Relay

/-- The directions: `up` is from the client to the egress. -/
inductive Dir where
  | up
  | down
deriving DecidableEq, Repr

/-- The other direction. -/
def Dir.other : Dir → Dir
  | up => down
  | down => up

/-- What a call for some bytes returns. -/
inductive Call where
  | ok (n : ℕ)
  | wouldBlock
  | error
deriving DecidableEq, Repr

/-- What happens in one direction.  The first three are the ends' doing, the others are calls
of the relay with what they return. -/
inductive Event where
  | arrive (bs : Bytes)
  | finish
  | drain (n : ℕ)
  | read (r : Call)
  | write (r : Call)
  | shutdown (done : Bool)
deriving DecidableEq, Repr

/-- What happens: something in one direction, or nothing for too long. -/
inductive Action where
  | act (d : Dir) (e : Event)
  | idle
deriving DecidableEq, Repr

/-- Nothing breaks: no call fails, no writer refuses to take anything, no timer runs out. -/
def Action.ordinary : Action → Bool
  | act _ (.read .error) => false
  | act _ (.write .error) => false
  | act _ (.write (.ok 0)) => false
  | act _ _ => true
  | idle => false

/-- What a read of at most `cap` bytes may return: nothing only at the end. -/
def mayRead (l : Lane UInt8) (cap : ℕ) : Call → Bool
  | .ok 0 => l.fin && l.unread.isEmpty
  | .ok n => n ≤ cap && n ≤ l.unread.length
  | .wouldBlock => true
  | .error => true

/-- What a write of what is held may return. -/
def mayWrite (l : Lane UInt8) : Call → Bool
  | .ok n => n ≤ l.held.length && n ≤ l.room
  | .wouldBlock => true
  | .error => true

/-- What a read does to the bytes. -/
def onRead (l : Lane UInt8) : Call → Lane UInt8
  | .ok n => l.take n
  | _ => l

/-- What a write does to the bytes. -/
def onWrite (l : Lane UInt8) : Call → Lane UInt8
  | .ok n => l.give n
  | _ => l

/-- What a shutdown does, if it succeeds. -/
def onShutdown (l : Lane UInt8) (done : Bool) : Lane UInt8 := if done then l.close else l

/-- What the ends do by themselves.  After its end a source sends nothing. -/
def outside (l : Lane UInt8) : Event → Option (Lane UInt8)
  | .arrive bs => if l.fin then none else some (l.arrive bs)
  | .finish => some l.finish
  | .drain n => some (l.drain n)
  | _ => none

theorem step_onRead (l : Lane UInt8) (r : Call) : l.Step (onRead l r) := by
  cases r with
  | ok n => exact .take n
  | wouldBlock => exact .stay
  | error => exact .stay

theorem step_onWrite (l : Lane UInt8) (r : Call) : l.Step (onWrite l r) := by
  cases r with
  | ok n => exact .give n
  | wouldBlock => exact .stay
  | error => exact .stay

theorem step_onShutdown {l : Lane UInt8} (done : Bool) (hfin : l.fin = true)
    (hunread : l.unread = []) (hheld : l.held = []) : l.Step (onShutdown l done) := by
  cases done with
  | true => exact .close hfin hunread hheld
  | false => exact .stay

/-- The ends leave alone what the relay holds, and an end that was reached stays one. -/
theorem of_outside {l l' : Lane UInt8} {e : Event} (h : outside l e = some l') :
    l.Step l' ∧ l'.held = l.held ∧ l'.delivered = l.delivered ∧
      l.unread.length ≤ l'.unread.length ∧
      (l.fin = true ∧ l.unread = [] → l'.fin = true ∧ l'.unread = []) := by
  cases e with
  | arrive bs =>
    simp only [outside, Option.ite_none_left_eq_some, Option.some.injEq] at h
    obtain ⟨hfin, rfl⟩ := h
    exact ⟨.arrive bs (by simpa using hfin), rfl, rfl, by simp [Lane.arrive],
      fun hend => absurd hend.1 hfin⟩
  | finish =>
    obtain rfl : l.finish = l' := by simpa [outside] using h
    exact ⟨.finish, rfl, rfl, le_rfl, fun hend => ⟨rfl, hend.2⟩⟩
  | drain n =>
    obtain rfl : l.drain n = l' := by simpa [outside] using h
    exact ⟨.drain n, rfl, rfl, le_rfl, id⟩
  | read r => simp [outside] at h
  | write r => simp [outside] at h
  | shutdown done => simp [outside] at h

/-! ## Zero copy -/

namespace ZeroCopy

/-- `CHUNK`. -/
def chunk : ℕ := 64 * 1024

/-- Where a pump is: in its loop, behind it, or returned. -/
inductive Phase where
  | looping
  | leaving
  | done
  | failed
deriving DecidableEq, Repr

/-- What `pump` keeps.  Its pipe is what the lane holds. -/
structure Pump where
  buffered : ℕ
  eof : Bool
  moved : ℕ
  phase : Phase
deriving DecidableEq, Repr

namespace Pump

def new : Pump := ⟨0, false, 0, .looping⟩

/-- Does the loop read next? -/
def reading (p : Pump) : Bool := p.phase == .looping && p.buffered == 0 && !p.eof

/-- Does it write next? -/
def writing (p : Pump) : Bool := p.phase == .looping && p.buffered != 0

/-- Has it broken out of the loop, at its head or behind a write that moved nothing? -/
def closing (p : Pump) : Bool :=
  p.phase == .leaving || (p.phase == .looping && p.buffered == 0 && p.eof)

/-- The arms of the read. -/
def onRead (p : Pump) : Call → Pump
  | .ok 0 => { p with eof := true }
  | .ok n => { p with buffered := n }
  | .wouldBlock => p
  | .error => { p with phase := .failed }

/-- The arms of the write. -/
def onWrite (p : Pump) : Call → Pump
  | .ok 0 => { p with phase := .leaving }
  | .ok n => { p with buffered := p.buffered - n, moved := p.moved + n }
  | .wouldBlock => p
  | .error => { p with phase := .failed }

end Pump

/-- One direction: its bytes and its pump. -/
structure Side where
  lane : Lane UInt8
  pump : Pump
deriving DecidableEq, Repr

/-- What may happen in one direction.  A `splice` out of a pipe that is not empty moves
something, or says why not. -/
def Side.step (x : Side) : Event → Option Side
  | .read r =>
    if x.pump.reading && mayRead x.lane chunk r then
      some ⟨Relay.onRead x.lane r, x.pump.onRead r⟩
    else none
  | .write r =>
    if x.pump.writing && mayWrite x.lane r && r != .ok 0 then
      some ⟨Relay.onWrite x.lane r, x.pump.onWrite r⟩
    else none
  | .shutdown done =>
    if x.pump.closing then
      some ⟨onShutdown x.lane done, { x.pump with phase := .done }⟩
    else none
  | e => (outside x.lane e).map fun l => { x with lane := l }

/-- What a step of one direction can be. -/
theorem Side.step_cases {x x' : Side} {e : Event} (h : x.step e = some x') :
    (∃ r, e = .read r ∧ x.pump.reading = true ∧ mayRead x.lane chunk r = true ∧
      x' = ⟨Relay.onRead x.lane r, x.pump.onRead r⟩) ∨
    (∃ r, e = .write r ∧ mayWrite x.lane r = true ∧ r ≠ .ok 0 ∧
      x' = ⟨Relay.onWrite x.lane r, x.pump.onWrite r⟩) ∨
    (∃ done, e = .shutdown done ∧ x.pump.closing = true ∧
      x' = ⟨onShutdown x.lane done, { x.pump with phase := .done }⟩) ∨
    ∃ l, outside x.lane e = some l ∧ x' = { x with lane := l } := by
  cases e with
  | read r =>
    simp only [step, Option.ite_none_right_eq_some, Bool.and_eq_true, Option.some.injEq] at h
    obtain ⟨⟨hread, hmay⟩, rfl⟩ := h
    exact .inl ⟨r, rfl, hread, hmay, rfl⟩
  | write r =>
    simp only [step, Option.ite_none_right_eq_some, Bool.and_eq_true, bne_iff_ne,
      Option.some.injEq] at h
    obtain ⟨⟨⟨-, hmay⟩, hne⟩, rfl⟩ := h
    exact .inr (.inl ⟨r, rfl, hmay, hne, rfl⟩)
  | shutdown done =>
    simp only [step, Option.ite_none_right_eq_some, Option.some.injEq] at h
    obtain ⟨hclosing, rfl⟩ := h
    exact .inr (.inr (.inl ⟨done, rfl, hclosing, rfl⟩))
  | arrive bs | finish | drain n =>
    simp only [step, Option.map_eq_some_iff] at h
    obtain ⟨l, hl, rfl⟩ := h
    exact .inr (.inr (.inr ⟨l, hl, rfl⟩))

/-- The whole relay: the two pumps, and whether the watchdog has ended them. -/
structure State where
  sides : Dir → Side
  reaped : Bool

def start (room : Dir → ℕ) : State where
  sides d := ⟨Lane.new (room d), .new⟩
  reaped := false

/-- One step of `relay`. -/
def step (s : State) : Action → Option State
  | .act d e =>
    if s.reaped && (outside (s.sides d).lane e).isNone then none
    else ((s.sides d).step e).map fun x => { s with sides := Function.update s.sides d x }
  | .idle => some { s with reaped := true }

/-- What holds of a direction at any time. -/
structure Side.Inv (x : Side) : Prop where
  buffered : x.pump.buffered = x.lane.held.length
  moved : x.pump.moved = x.lane.delivered.length
  eof : x.pump.eof = true → x.lane.fin = true ∧ x.lane.unread = []
  ended : x.pump.phase = .done → x.pump.eof = true
  phase : x.pump.phase ≠ .leaving

theorem Side.inv_read {x : Side} {r : Call} (hi : x.Inv) (hread : x.pump.reading = true)
    (hmay : mayRead x.lane chunk r = true) : Side.Inv ⟨Relay.onRead x.lane r, x.pump.onRead r⟩ := by
  simp only [Pump.reading, Bool.and_eq_true, beq_iff_eq, Bool.not_eq_true'] at hread
  obtain ⟨⟨hphase, hbuffered⟩, heof⟩ := hread
  have hheld : x.lane.held = [] := by
    rw [← List.length_eq_zero_iff, ← hi.buffered, hbuffered]
  cases r with
  | ok n =>
    cases n with
    | zero =>
      have hend : x.lane.fin = true ∧ x.lane.unread = [] := by
        simpa [mayRead] using hmay
      refine ⟨?_, hi.moved, fun _ => ?_, fun _ => rfl, hi.phase⟩
      · simp [Relay.onRead, Pump.onRead, Lane.take, hbuffered, hheld]
      · simpa [Relay.onRead, Lane.take] using hend
    | succ n =>
      have hn : n + 1 ≤ chunk ∧ n + 1 ≤ x.lane.unread.length := by
        simpa [mayRead] using hmay
      refine ⟨?_, hi.moved, ?_, hi.ended, hi.phase⟩
      · simp [Relay.onRead, Pump.onRead, Lane.take, hheld, hn.2]
      · intro h
        exact absurd h (by simp [Pump.onRead, heof])
  | wouldBlock => exact ⟨hi.buffered, hi.moved, hi.eof, hi.ended, hi.phase⟩
  | error => exact ⟨hi.buffered, hi.moved, hi.eof, by simp [Pump.onRead], by simp [Pump.onRead]⟩

theorem Side.inv_write {x : Side} {r : Call} (hi : x.Inv)
    (hmay : mayWrite x.lane r = true) (hne : r ≠ .ok 0) :
    Side.Inv ⟨Relay.onWrite x.lane r, x.pump.onWrite r⟩ := by
  cases r with
  | ok n =>
    cases n with
    | zero => exact absurd rfl hne
    | succ n =>
      have hn : n + 1 ≤ x.lane.held.length ∧ n + 1 ≤ x.lane.room := by
        simpa [mayWrite] using hmay
      refine ⟨?_, ?_, hi.eof, hi.ended, hi.phase⟩
      · simp [Relay.onWrite, Pump.onWrite, Lane.give, hi.buffered]
      · simp [Relay.onWrite, Pump.onWrite, Lane.give, hi.moved, hn.1]
  | wouldBlock => exact ⟨hi.buffered, hi.moved, hi.eof, hi.ended, hi.phase⟩
  | error => exact ⟨hi.buffered, hi.moved, hi.eof, by simp [Pump.onWrite], by simp [Pump.onWrite]⟩

/-- A pump that breaks out of its loop has read the end and given all on. -/
theorem Side.end_of_closing {x : Side} (hi : x.Inv) (h : x.pump.closing = true) :
    x.pump.eof = true ∧ x.lane.fin = true ∧ x.lane.unread = [] ∧ x.lane.held = [] := by
  have hphase := hi.phase
  simp only [Pump.closing, Bool.or_eq_true, Bool.and_eq_true, beq_iff_eq, hphase, false_or] at h
  obtain ⟨hfin, hunread⟩ := hi.eof h.2
  refine ⟨h.2, hfin, hunread, ?_⟩
  rw [← List.length_eq_zero_iff, ← hi.buffered, h.1.2]

theorem Side.step_inv {x x' : Side} {e : Event} (hi : x.Inv) (h : x.step e = some x') :
    x'.Inv ∧ x.lane.Step x'.lane := by
  rcases step_cases h with ⟨r, rfl, hread, hmay, rfl⟩ | ⟨r, rfl, hmay, hne, rfl⟩ |
    ⟨done, rfl, hclosing, rfl⟩ | ⟨l, hl, rfl⟩
  · exact ⟨inv_read hi hread hmay, step_onRead _ _⟩
  · exact ⟨inv_write hi hmay hne, step_onWrite _ _⟩
  · obtain ⟨heof, hfin, hunread, hheld⟩ := end_of_closing hi hclosing
    have hstep := step_onShutdown done hfin hunread hheld
    refine ⟨⟨?_, ?_, fun _ => ?_, fun _ => heof, by simp⟩, hstep⟩
    · cases done <;> exact hi.buffered
    · cases done <;> exact hi.moved
    · cases done <;> exact ⟨hfin, hunread⟩
  · obtain ⟨hstep, hheld, hdelivered, -, hend⟩ := of_outside hl
    refine ⟨⟨?_, ?_, fun heof => hend (hi.eof heof), hi.ended, hi.phase⟩, hstep⟩
    · rw [hheld, hi.buffered]
    · rw [hdelivered, hi.moved]

/-- Both directions are as they should be. -/
def State.Inv (s : State) : Prop := ∀ d, (s.sides d).Inv

theorem start_inv (room : Dir → ℕ) : (start room).Inv :=
  fun d => ⟨rfl, rfl, fun h => absurd h (by simp [start, Pump.new]),
    fun h => absurd h (by simp [start, Pump.new]), by simp [start, Pump.new]⟩

/-- A step of the relay is one of a direction, and leaves the other as it is. -/
theorem side_of_step {s s' : State} {d : Dir} {e : Event} (h : step s (.act d e) = some s') :
    ∃ x, (s.sides d).step e = some x ∧ s' = { s with sides := Function.update s.sides d x } := by
  simp only [step, Option.ite_none_left_eq_some, Option.map_eq_some_iff] at h
  obtain ⟨-, x, hx, rfl⟩ := h
  exact ⟨x, hx, rfl⟩

theorem step_inv {s s' : State} {a : Action} (hi : s.Inv) (h : step s a = some s') :
    s'.Inv ∧ ∀ d, (s.sides d).lane.Step (s'.sides d).lane := by
  cases a with
  | idle =>
    obtain rfl : { s with reaped := true } = s' := by simpa [step] using h
    exact ⟨hi, fun d => .stay⟩
  | act d e =>
    obtain ⟨x, hx, rfl⟩ := side_of_step h
    obtain ⟨hinv, hstep⟩ := Side.step_inv (hi d) hx
    constructor
    · intro d'
      by_cases hd : d' = d
      · subst hd
        simpa using hinv
      · simpa [Function.update_of_ne hd] using hi d'
    · intro d'
      by_cases hd : d' = d
      · subst hd
        simpa using hstep
      · simpa [Function.update_of_ne hd] using Lane.Step.stay

/-- Nothing has broken. -/
def State.Unbroken (s : State) : Prop := s.reaped = false ∧ ∀ d, (s.sides d).pump.phase ≠ .failed

theorem Side.unbroken_step {x x' : Side} {d : Dir} {e : Event}
    (ho : (Action.act d e).ordinary = true) (hx : x.pump.phase ≠ .failed)
    (h : x.step e = some x') : x'.pump.phase ≠ .failed := by
  rcases step_cases h with ⟨r, rfl, -, -, rfl⟩ | ⟨r, rfl, -, hne, rfl⟩ | ⟨done, rfl, -, rfl⟩ |
    ⟨l, -, rfl⟩
  · cases r with
    | ok n => cases n <;> exact hx
    | wouldBlock => exact hx
    | error => simp [Action.ordinary] at ho
  · cases r with
    | ok n =>
      cases n with
      | zero => exact absurd rfl hne
      | succ n => exact hx
    | wouldBlock => exact hx
    | error => simp [Action.ordinary] at ho
  · simp
  · exact hx

theorem unbroken_step {s s' : State} {a : Action} (ho : a.ordinary = true) (hs : s.Unbroken)
    (h : step s a = some s') : s'.Unbroken := by
  cases a with
  | idle => simp [Action.ordinary] at ho
  | act d e =>
    obtain ⟨x, hx, rfl⟩ := side_of_step h
    refine ⟨hs.1, ?_⟩
    intro d'
    by_cases hd : d' = d
    · subst hd
      simpa using Side.unbroken_step ho (hs.2 d') hx
    · simpa [Function.update_of_ne hd] using hs.2 d'

/-- A pump with a byte to read and room for it moves one: what is in its pipe, or that byte
into it. -/
theorem Side.exists_moved {x : Side} (hi : x.Inv) (hx : x.pump.phase ≠ .failed)
    (hready : x.lane.Ready) : ∃ e x', x.step e = some x' ∧ x.lane.Moved x'.lane := by
  obtain ⟨hunread, hroom⟩ := hready
  have hlen := List.length_pos_iff.2 hunread
  have heof : x.pump.eof = false := by
    by_contra h
    exact hunread (hi.eof (by simpa using h)).2
  have hphase : x.pump.phase = .looping := by
    cases hp : x.pump.phase with
    | looping => rfl
    | leaving => exact absurd hp hi.phase
    | done => simp [hi.ended hp] at heof
    | failed => exact absurd hp hx
  by_cases hbuffered : x.pump.buffered = 0
  · have hmay : mayRead x.lane chunk (.ok 1) = true := by
      simpa [mayRead, chunk] using Nat.succ_le_of_lt hlen
    refine ⟨.read (.ok 1), ⟨x.lane.take 1, x.pump.onRead (.ok 1)⟩, ?_, Lane.moved_take one_pos hlen⟩
    simp [Side.step, Pump.reading, hphase, hbuffered, heof, hmay, Relay.onRead]
  · have hheld : 0 < x.lane.held.length := by
      rw [← hi.buffered]
      omega
    have hmay : mayWrite x.lane (.ok 1) = true := by
      simp only [mayWrite, Bool.and_eq_true, decide_eq_true_eq]
      omega
    refine ⟨.write (.ok 1), ⟨x.lane.give 1, x.pump.onWrite (.ok 1)⟩, ?_, Lane.moved_give one_pos hheld⟩
    simp [Side.step, Pump.writing, hphase, hbuffered, hmay, Relay.onWrite]

/-- Neither direction waits for the other. -/
theorem exists_moved {s : State} {d : Dir} (hi : s.Inv) (hs : s.Unbroken)
    (hready : (s.sides d).lane.Ready) :
    ∃ e s', step s (.act d e) = some s' ∧ (s.sides d).lane.Moved (s'.sides d).lane := by
  obtain ⟨e, x, hx, hmoved⟩ := Side.exists_moved (hi d) (hs.2 d) hready
  refine ⟨e, { s with sides := Function.update s.sides d x }, ?_, ?_⟩
  · simp [step, hs.1, hx]
  · simpa using hmoved

end ZeroCopy

/-! ## The generic relay -/

namespace Generic

/-- The length of its buffers. -/
def bufLen : ℕ := 16 * 1024

/-- Where the loop is: at its `select!`, in `write_all_progressing`, passing an end on, or
returned. -/
inductive Phase where
  | select
  | writing (d : Dir)
  | closing (d : Dir)
  | returned
deriving DecidableEq, Repr

/-- The loop's state, and the counters of the `Counted` egress connection.  What is left of
the chunk that is being written is what its lane holds. -/
structure State where
  lanes : Dir → Lane UInt8
  isOpen : Dir → Bool
  phase : Phase
  up : ℕ
  down : ℕ

def start (room : Dir → ℕ) : State where
  lanes d := Lane.new (room d)
  isOpen _ := true
  phase := .select
  up := 0
  down := 0

namespace State

/-- `Counted`: a read from the egress is down-traffic. -/
def countRead (s : State) (d : Dir) (n : ℕ) : State :=
  if d = .down then { s with down := s.down + n } else s

/-- `Counted`: a write to the egress is up-traffic. -/
def countWrite (s : State) (d : Dir) (n : ℕ) : State :=
  if d = .up then { s with up := s.up + n } else s

def setLane (s : State) (d : Dir) (l : Lane UInt8) : State :=
  { s with lanes := Function.update s.lanes d l }

/-- The arms of a read. -/
def onRead (s : State) (d : Dir) : Call → State
  | .ok 0 => { s with isOpen := Function.update s.isOpen d false, phase := .closing d }
  | .ok n =>
    let s := s.setLane d ((s.lanes d).take n)
    { s.countRead d n with phase := .writing d }
  | .wouldBlock => s
  | .error => { s with phase := .returned }

/-- The arms of a write.  The loop of `write_all_progressing` ends when nothing is left. -/
def onWrite (s : State) (d : Dir) : Call → State
  | .ok 0 => { s with phase := .returned }
  | .ok n =>
    let l := (s.lanes d).give n
    { (s.setLane d l).countWrite d n with
      phase := if l.held.isEmpty then .select else .writing d }
  | .wouldBlock => s
  | .error => { s with phase := .returned }

end State

/-- One step of `copy_bidirectional_idle`. -/
def step (s : State) : Action → Option State
  | .act d (.read r) =>
    if s.phase == .select && s.isOpen d && mayRead (s.lanes d) bufLen r then some (s.onRead d r)
    else none
  | .act d (.write r) =>
    if s.phase == .writing d && mayWrite (s.lanes d) r then some (s.onWrite d r) else none
  | .act d (.shutdown done) =>
    if s.phase == .closing d then
      some { s.setLane d (onShutdown (s.lanes d) done) with phase := .select }
    else none
  | .act d e => (outside (s.lanes d) e).map (s.setLane d)
  | .idle =>
    match s.phase with
    | .select | .writing _ => some { s with phase := .returned }
    | _ => none

/-- What a step of the loop can be. -/
theorem step_cases {s s' : State} {a : Action} (h : step s a = some s') :
    (a = .idle ∧ s' = { s with phase := .returned }) ∨
    (∃ d r, a = .act d (.read r) ∧ s.phase = .select ∧ mayRead (s.lanes d) bufLen r = true ∧
      s' = s.onRead d r) ∨
    (∃ d r, a = .act d (.write r) ∧ s.phase = .writing d ∧ mayWrite (s.lanes d) r = true ∧
      s' = s.onWrite d r) ∨
    (∃ d done, a = .act d (.shutdown done) ∧ s.phase = .closing d ∧
      s' = { s.setLane d (onShutdown (s.lanes d) done) with phase := .select }) ∨
    ∃ d e l, a = .act d e ∧ outside (s.lanes d) e = some l ∧ s' = s.setLane d l := by
  cases a with
  | idle =>
    simp only [step] at h
    split at h <;> first | (cases h; exact .inl ⟨rfl, rfl⟩) | cases h
  | act d e =>
    cases e with
    | read r =>
      simp only [step, Option.ite_none_right_eq_some, Bool.and_eq_true, beq_iff_eq,
        Option.some.injEq] at h
      obtain ⟨⟨⟨hphase, -⟩, hmay⟩, rfl⟩ := h
      exact .inr (.inl ⟨d, r, rfl, hphase, hmay, rfl⟩)
    | write r =>
      simp only [step, Option.ite_none_right_eq_some, Bool.and_eq_true, beq_iff_eq,
        Option.some.injEq] at h
      obtain ⟨⟨hphase, hmay⟩, rfl⟩ := h
      exact .inr (.inr (.inl ⟨d, r, rfl, hphase, hmay, rfl⟩))
    | shutdown done =>
      simp only [step, Option.ite_none_right_eq_some, beq_iff_eq, Option.some.injEq] at h
      obtain ⟨hphase, rfl⟩ := h
      exact .inr (.inr (.inr (.inl ⟨d, done, rfl, hphase, rfl⟩)))
    | arrive bs | finish | drain n =>
      simp only [step, Option.map_eq_some_iff] at h
      obtain ⟨l, hl, rfl⟩ := h
      exact .inr (.inr (.inr (.inr ⟨d, _, l, rfl, hl, rfl⟩)))

/-- What holds of the loop at any time. -/
structure State.Inv (s : State) : Prop where
  /-- Only the direction that is being written holds anything. -/
  held : ∀ d, s.phase ≠ .returned → s.phase ≠ .writing d → (s.lanes d).held = []
  /-- While it is being written there is something left. -/
  left : ∀ d, s.phase = .writing d → (s.lanes d).held ≠ []
  ended : ∀ d, s.isOpen d = false → (s.lanes d).fin = true ∧ (s.lanes d).unread = []
  closing : ∀ d, s.phase = .closing d → s.isOpen d = false
  up : s.up = (s.lanes .up).delivered.length
  down : s.down = (s.lanes .down).delivered.length + (s.lanes .down).held.length

theorem start_inv (room : Dir → ℕ) : (start room).Inv where
  held _ _ _ := rfl
  left d h := by simp [start] at h
  ended d h := by simp [start] at h
  closing d h := by simp [start] at h
  up := rfl
  down := rfl

section

variable {s s' : State} {d : Dir}

@[simp] theorem lanes_setLane_self (s : State) (d : Dir) (l : Lane UInt8) :
    (s.setLane d l).lanes d = l := by
  simp [State.setLane]

theorem lanes_setLane_of_ne (s : State) (l : Lane UInt8) {d' : Dir} (h : d' ≠ d) :
    (s.setLane d l).lanes d' = s.lanes d' := by
  simp [State.setLane, h]

@[simp] theorem phase_setLane (s : State) (d : Dir) (l : Lane UInt8) :
    (s.setLane d l).phase = s.phase := rfl

@[simp] theorem isOpen_setLane (s : State) (d : Dir) (l : Lane UInt8) :
    (s.setLane d l).isOpen = s.isOpen := rfl

@[simp] theorem lanes_countRead (s : State) (d : Dir) (n : ℕ) :
    (s.countRead d n).lanes = s.lanes := by
  unfold State.countRead
  split_ifs <;> rfl

@[simp] theorem lanes_countWrite (s : State) (d : Dir) (n : ℕ) :
    (s.countWrite d n).lanes = s.lanes := by
  unfold State.countWrite
  split_ifs <;> rfl

@[simp] theorem isOpen_countRead (s : State) (d : Dir) (n : ℕ) :
    (s.countRead d n).isOpen = s.isOpen := by
  unfold State.countRead
  split_ifs <;> rfl

@[simp] theorem isOpen_countWrite (s : State) (d : Dir) (n : ℕ) :
    (s.countWrite d n).isOpen = s.isOpen := by
  unfold State.countWrite
  split_ifs <;> rfl

/-- What holds of each lane holds of each lane after one was set. -/
theorem forall_setLane {p : Dir → Lane UInt8 → Prop} {l : Lane UInt8}
    (h : ∀ d', d' ≠ d → p d' (s.lanes d')) (hl : p d l) : ∀ d', p d' ((s.setLane d l).lanes d') := by
  intro d'
  by_cases hd : d' = d
  · subst hd
    simpa using hl
  · rw [lanes_setLane_of_ne s l hd]
    exact h d' hd

/-- The ends may do what they like at any time. -/
theorem State.Inv.outside {e : Event} {l : Lane UInt8} (hi : s.Inv)
    (h : Relay.outside (s.lanes d) e = some l) : (s.setLane d l).Inv := by
  obtain ⟨-, hheld, hdelivered, -, hend⟩ := of_outside h
  have hcounts : ∀ d', ((s.setLane d l).lanes d').held = (s.lanes d').held ∧
      ((s.setLane d l).lanes d').delivered = (s.lanes d').delivered :=
    forall_setLane (p := fun d' l' => l'.held = (s.lanes d').held ∧
      l'.delivered = (s.lanes d').delivered) (fun _ _ => ⟨rfl, rfl⟩) ⟨hheld, hdelivered⟩
  exact {
    held := by
      intro d' hret hwriting
      rw [(hcounts d').1]
      exact hi.held d' hret hwriting
    left := by
      intro d' hwriting
      rw [(hcounts d').1]
      exact hi.left d' hwriting
    ended := forall_setLane
      (p := fun d' l' => s.isOpen d' = false → l'.fin = true ∧ l'.unread = [])
      (fun d' _ => hi.ended d') (fun hopen => hend (hi.ended d hopen))
    closing := hi.closing
    up := by
      rw [(hcounts .up).2]
      exact hi.up
    down := by
      rw [(hcounts .down).1, (hcounts .down).2]
      exact hi.down }

/-- A loop that returns keeps what it has. -/
theorem State.Inv.returned (hi : s.Inv) : State.Inv { s with phase := .returned } :=
  ⟨fun _ h => absurd rfl h, fun _ h => by simp at h, hi.ended, fun _ h => by simp at h,
    hi.up, hi.down⟩

/-- Nothing is held at the `select!`. -/
theorem State.Inv.held_of_select (hi : s.Inv) (hphase : s.phase = .select) (d : Dir) :
    (s.lanes d).held = [] :=
  hi.held d (by simp [hphase]) (by simp [hphase])

theorem State.Inv.onRead {r : Call} (hi : s.Inv) (hphase : s.phase = .select)
    (hmay : mayRead (s.lanes d) bufLen r = true) : (s.onRead d r).Inv := by
  have hheld := hi.held_of_select hphase
  cases r with
  | ok n =>
    cases n with
    | zero =>
      have hend : (s.lanes d).fin = true ∧ (s.lanes d).unread = [] := by
        simpa [mayRead] using hmay
      refine ⟨fun d' _ _ => hheld d', fun d' h => by simp [State.onRead] at h, ?_, ?_,
        hi.up, hi.down⟩
      · intro d' hopen
        by_cases hd : d' = d
        · subst hd
          exact hend
        · exact hi.ended d' (by simpa [State.onRead, hd] using hopen)
      · intro d' h
        obtain rfl : d = d' := by simpa [State.onRead] using h
        simp [State.onRead]
    | succ n =>
      have hn : n + 1 ≤ bufLen ∧ n + 1 ≤ (s.lanes d).unread.length := by
        simpa [mayRead] using hmay
      have hopen : s.isOpen d = true := by
        by_contra h
        simp [(hi.ended d (by simpa using h)).2] at hn
      refine ⟨?_, ?_, ?_, fun d' h => by simp [State.onRead] at h, ?_, ?_⟩
      · intro d' _ hwriting
        have hd : d' ≠ d := by
          rintro rfl
          exact hwriting rfl
        simpa [State.onRead, lanes_setLane_of_ne s _ hd] using hheld d'
      · intro d' hwriting
        obtain rfl : d = d' := by simpa [State.onRead] using hwriting
        rw [← List.length_pos_iff]
        simp [State.onRead, Lane.take, hheld, hn.2]
      · intro d' hclosed
        have hd : d' ≠ d := by
          rintro rfl
          simp [State.onRead, hopen] at hclosed
        simpa [State.onRead, lanes_setLane_of_ne s _ hd] using
          hi.ended d' (by simpa [State.onRead] using hclosed)
      · cases d <;> simp [State.onRead, State.setLane, State.countRead, Lane.take, hi.up]
      · cases d with
        | up => simp [State.onRead, State.setLane, State.countRead, hi.down]
        | down => simp [State.onRead, State.setLane, State.countRead, Lane.take, hi.down, hheld, hn.2]
  | wouldBlock => exact hi
  | error => exact hi.returned

theorem State.Inv.onWrite {r : Call} (hi : s.Inv) (hphase : s.phase = .writing d)
    (hmay : mayWrite (s.lanes d) r = true) : (s.onWrite d r).Inv := by
  cases r with
  | ok n =>
    cases n with
    | zero => exact hi.returned
    | succ n =>
      have hn : n + 1 ≤ (s.lanes d).held.length ∧ n + 1 ≤ (s.lanes d).room := by
        simpa [mayWrite] using hmay
      have hothers : ∀ d', d' ≠ d → (s.lanes d').held = [] := by
        intro d' hd
        refine hi.held d' (by simp [hphase]) ?_
        rw [hphase]
        simpa using hd.symm
      refine ⟨?_, ?_, ?_, ?_, ?_, ?_⟩
      · intro d' _ hwriting
        by_cases hd : d' = d
        · subst hd
          by_contra hne
          exact hwriting (by simpa [State.onWrite] using hne)
        · simpa [State.onWrite, lanes_setLane_of_ne s _ hd] using hothers d' hd
      · intro d' hwriting
        simp only [State.onWrite] at hwriting
        split_ifs at hwriting with hempty
        obtain rfl : d = d' := by simpa using hwriting
        simpa [State.onWrite] using hempty
      · simpa [State.onWrite] using forall_setLane (l := (s.lanes d).give (n + 1))
          (p := fun d' l' => s.isOpen d' = false → l'.fin = true ∧ l'.unread = [])
          (fun d' _ => hi.ended d') (hi.ended d)
      · intro d' h
        simp only [State.onWrite] at h
        split_ifs at h
      · cases d <;> simp [State.onWrite, State.setLane, State.countWrite, Lane.give, hi.up, hn.1]
      · cases d with
        | up => simp [State.onWrite, State.setLane, State.countWrite, hi.down]
        | down =>
          have hlen := hn.1
          simp [State.onWrite, State.setLane, State.countWrite, Lane.give, hi.down]
          omega
  | wouldBlock => exact hi
  | error => exact hi.returned

/-- An end is passed on behind all that came before it. -/
theorem State.Inv.end_of_closing (hi : s.Inv) (hphase : s.phase = .closing d) :
    (s.lanes d).fin = true ∧ (s.lanes d).unread = [] ∧ (s.lanes d).held = [] := by
  obtain ⟨hfin, hunread⟩ := hi.ended d (hi.closing d hphase)
  exact ⟨hfin, hunread, hi.held d (by simp [hphase]) (by simp [hphase])⟩

theorem State.Inv.onShutdown (hi : s.Inv) (hphase : s.phase = .closing d) (done : Bool) :
    State.Inv { s.setLane d (Relay.onShutdown (s.lanes d) done) with phase := .select } := by
  obtain ⟨hfin, hunread, hheld⟩ := hi.end_of_closing hphase
  have hkept : ∀ d', ((s.setLane d (Relay.onShutdown (s.lanes d) done)).lanes d').held = [] ∧
      ((s.setLane d (Relay.onShutdown (s.lanes d) done)).lanes d').delivered =
        (s.lanes d').delivered := by
    refine forall_setLane (p := fun d' l' => l'.held = [] ∧
      l'.delivered = (s.lanes d').delivered) (fun d' _ => ⟨?_, rfl⟩) ?_
    · exact hi.held d' (by simp [hphase]) (by simp [hphase])
    · cases done <;> exact ⟨hheld, rfl⟩
  have hdown := hi.down
  rw [hi.held .down (by simp [hphase]) (by simp [hphase])] at hdown
  exact {
    held := fun d' _ _ => (hkept d').1
    left := fun d' h => by simp at h
    ended := forall_setLane
      (p := fun d' l' => s.isOpen d' = false → l'.fin = true ∧ l'.unread = [])
      (fun d' _ => hi.ended d') (fun _ => by cases done <;> exact ⟨hfin, hunread⟩)
    closing := fun d' h => by simp at h
    up := by
      rw [(hkept .up).2]
      exact hi.up
    down := by
      rw [(hkept .down).1, (hkept .down).2]
      exact hdown }

theorem step_inv {a : Action} (hi : s.Inv) (h : step s a = some s') : s'.Inv := by
  rcases step_cases h with ⟨rfl, rfl⟩ | ⟨d, r, rfl, hphase, hmay, rfl⟩ |
    ⟨d, r, rfl, hphase, hmay, rfl⟩ | ⟨d, done, rfl, hphase, rfl⟩ | ⟨d, e, l, rfl, hl, rfl⟩
  · exact hi.returned
  · exact hi.onRead hphase hmay
  · exact hi.onWrite hphase hmay
  · exact hi.onShutdown hphase done
  · exact hi.outside hl

theorem lanes_onRead (s : State) (d : Dir) (r : Call) :
    (s.onRead d r).lanes = (s.setLane d (Relay.onRead (s.lanes d) r)).lanes := by
  cases r with
  | ok n => cases n <;> simp [State.onRead, Relay.onRead, State.setLane]
  | wouldBlock => simp [State.onRead, Relay.onRead, State.setLane]
  | error => simp [State.onRead, Relay.onRead, State.setLane]

theorem lanes_onWrite (s : State) (d : Dir) (r : Call) :
    (s.onWrite d r).lanes = (s.setLane d (Relay.onWrite (s.lanes d) r)).lanes := by
  cases r with
  | ok n => cases n <;> simp [State.onWrite, Relay.onWrite, State.setLane]
  | wouldBlock => simp [State.onWrite, Relay.onWrite, State.setLane]
  | error => simp [State.onWrite, Relay.onWrite, State.setLane]

theorem step_setLane {l : Lane UInt8} (h : (s.lanes d).Step l) :
    ∀ d', (s.lanes d').Step ((s.setLane d l).lanes d') :=
  forall_setLane (p := fun d' l' => (s.lanes d').Step l') (fun _ _ => .stay) h

/-- The loop does what a relay may do. -/
theorem step_lane {a : Action} (hi : s.Inv) (h : step s a = some s') :
    ∀ d, (s.lanes d).Step (s'.lanes d) := by
  rcases step_cases h with ⟨rfl, rfl⟩ | ⟨d, r, rfl, -, -, rfl⟩ | ⟨d, r, rfl, -, -, rfl⟩ |
    ⟨d, done, rfl, hphase, rfl⟩ | ⟨d, e, l, rfl, hl, rfl⟩
  · exact fun _ => .stay
  · rw [lanes_onRead]
    exact step_setLane (step_onRead _ _)
  · rw [lanes_onWrite]
    exact step_setLane (step_onWrite _ _)
  · obtain ⟨hfin, hunread, hheld⟩ := hi.end_of_closing hphase
    exact step_setLane (step_onShutdown done hfin hunread hheld)
  · exact step_setLane (of_outside hl).1

theorem unbroken_step {a : Action} (ho : a.ordinary = true) (hs : s.phase ≠ .returned)
    (h : step s a = some s') : s'.phase ≠ .returned := by
  rcases step_cases h with ⟨rfl, -⟩ | ⟨d, r, rfl, -, -, rfl⟩ | ⟨d, r, rfl, -, -, rfl⟩ |
    ⟨d, done, rfl, -, rfl⟩ | ⟨d, e, l, rfl, -, rfl⟩
  · simp [Action.ordinary] at ho
  · cases r with
    | ok n => cases n <;> simp [State.onRead]
    | wouldBlock => exact hs
    | error => simp [Action.ordinary] at ho
  · cases r with
    | ok n =>
      cases n with
      | zero => simp [Action.ordinary] at ho
      | succ n =>
        simp only [State.onWrite]
        split_ifs <;> simp
    | wouldBlock => exact hs
    | error => simp [Action.ordinary] at ho
  · simp
  · exact hs

/-- The loop is writing a chunk of a direction, or passing its end on. -/
def State.busyWith (s : State) (d : Dir) : Bool := s.phase == .writing d || s.phase == .closing d

/-- A loop that is not busy with the other direction moves a byte of this one, if there is one
and room for it. -/
theorem exists_moved (hi : s.Inv) (hs : s.phase ≠ .returned) (hbusy : s.busyWith d.other = false)
    (hready : (s.lanes d).Ready) :
    ∃ e s', step s (.act d e) = some s' ∧ (s.lanes d).Moved (s'.lanes d) := by
  obtain ⟨hunread, hroom⟩ := hready
  have hlen := List.length_pos_iff.2 hunread
  have hopen : s.isOpen d = true := by
    by_contra h
    exact hunread (hi.ended d (by simpa using h)).2
  have hphase : s.phase = .select ∨ s.phase = .writing d := by
    simp only [State.busyWith, Bool.or_eq_false_iff, beq_eq_false_iff_ne] at hbusy
    cases hp : s.phase with
    | select => exact .inl rfl
    | writing d' => cases d <;> cases d' <;> simp_all [Dir.other]
    | closing d' =>
      have hshut := hi.closing d' hp
      cases d <;> cases d' <;> simp_all [Dir.other]
    | returned => exact absurd hp hs
  rcases hphase with hphase | hphase
  · have hmay : mayRead (s.lanes d) bufLen (.ok 1) = true := by
      simpa [mayRead, bufLen] using Nat.succ_le_of_lt hlen
    refine ⟨.read (.ok 1), s.onRead d (.ok 1), ?_, ?_⟩
    · simp [step, hphase, hopen, hmay]
    · rw [lanes_onRead]
      simpa [Relay.onRead] using Lane.moved_take one_pos hlen
  · have hheld := List.length_pos_iff.2 (hi.left d hphase)
    have hmay : mayWrite (s.lanes d) (.ok 1) = true := by
      simp only [mayWrite, Bool.and_eq_true, decide_eq_true_eq]
      omega
    refine ⟨.write (.ok 1), s.onWrite d (.ok 1), ?_, ?_⟩
    · simp [step, hphase, hmay]
    · rw [lanes_onWrite]
      simpa [Relay.onWrite] using Lane.moved_give one_pos hheld

/-- While the loop writes a chunk of the other direction out, it moves nothing in this one. -/
theorem not_moved_of_writing_other {a : Action} (hphase : s.phase = .writing d.other)
    (h : step s a = some s') : ¬ (s.lanes d).Moved (s'.lanes d) := by
  rcases step_cases h with ⟨rfl, rfl⟩ | ⟨d', r, rfl, hselect, -, rfl⟩ |
    ⟨d', r, rfl, hwriting, -, rfl⟩ | ⟨d', done, rfl, hclosing, rfl⟩ | ⟨d', e, l, rfl, hl, rfl⟩
  · simp [Lane.Moved]
  · simp [hphase] at hselect
  · have hd : d ≠ d' := by
      rw [hphase] at hwriting
      cases d <;> cases d' <;> simp_all [Dir.other]
    rw [lanes_onWrite, lanes_setLane_of_ne s _ hd]
    simp [Lane.Moved]
  · simp [hphase] at hclosing
  · obtain ⟨-, -, hdelivered, hunread, -⟩ := of_outside hl
    by_cases hd : d = d'
    · subst hd
      simp only [Lane.Moved, lanes_setLane_self, hdelivered]
      omega
    · rw [lanes_setLane_of_ne s l hd]
      simp [Lane.Moved]

end

end Generic

/-! ## Both relays -/

/-- What both relays promise of a direction: the destination has the front of what was sent,
and it sees the end only behind all of it. -/
structure Carried (l : Lane UInt8) : Prop where
  inOrder : l.delivered <+: l.sent
  endLast : l.shut = true → l.fin = true ∧ l.held = [] ∧ l.delivered = l.sent

theorem carried_of_faithful {l : Lane UInt8} (h : l.Faithful) : Carried l :=
  ⟨h.delivered_le, h.all_of_shut⟩

theorem ZeroCopy.run_inv {room : Dir → ℕ} {as : List Action} {s : ZeroCopy.State}
    (h : Lts.exec ZeroCopy.step (ZeroCopy.start room) as = some s) :
    s.Inv ∧ ∀ d, (s.sides d).lane.Faithful := by
  refine @Lts.inv_of_exec_all _ _ ZeroCopy.step
    (fun s => s.Inv ∧ ∀ d, (s.sides d).lane.Faithful) ?_ _ _ _ ?_ h
  · intro s a s' hs hstep
    obtain ⟨hinv, hlane⟩ := ZeroCopy.step_inv hs.1 hstep
    exact ⟨hinv, fun d => (hs.2 d).step (hlane d)⟩
  · exact ⟨ZeroCopy.start_inv room, fun d => Lane.faithful_new (room d)⟩

theorem Generic.run_inv {room : Dir → ℕ} {as : List Action} {s : Generic.State}
    (h : Lts.exec Generic.step (Generic.start room) as = some s) :
    s.Inv ∧ ∀ d, (s.lanes d).Faithful := by
  refine @Lts.inv_of_exec_all _ _ Generic.step
    (fun s => s.Inv ∧ ∀ d, (s.lanes d).Faithful) ?_ _ _ _ ?_ h
  · intro s a s' hs hstep
    exact ⟨Generic.step_inv hs.1 hstep, fun d => (hs.2 d).step (Generic.step_lane hs.1 hstep d)⟩
  · exact ⟨Generic.start_inv room, fun d => Lane.faithful_new (room d)⟩

/-- **The relays.**  On every schedule both relays deliver, at every moment, the front of what
was sent, and pass an end on behind all of it.  The pumps count what they have delivered.  The
`Counted` connection counts what was written to the egress and what was read from it, so that
down-traffic includes what is being written to the client.  As long as nothing breaks, a pump
with a byte to read and room for it has a step that moves one, and so has the loop if it is
not busy with the other direction. -/
theorem relays_carry (room : Dir → ℕ) (as : List Action) :
    (∀ s, Lts.exec ZeroCopy.step (ZeroCopy.start room) as = some s → ∀ d,
      Carried (s.sides d).lane ∧
      (s.sides d).pump.moved = (s.sides d).lane.delivered.length ∧
      ((∀ a ∈ as, a.ordinary = true) → (s.sides d).lane.Ready →
        ∃ e s', ZeroCopy.step s (.act d e) = some s' ∧
          (s.sides d).lane.Moved (s'.sides d).lane)) ∧
    ∀ s, Lts.exec Generic.step (Generic.start room) as = some s →
      (∀ d, Carried (s.lanes d) ∧
        ((∀ a ∈ as, a.ordinary = true) → s.busyWith d.other = false → (s.lanes d).Ready →
          ∃ e s', Generic.step s (.act d e) = some s' ∧ (s.lanes d).Moved (s'.lanes d))) ∧
      s.up = (s.lanes .up).delivered.length ∧
      s.down = (s.lanes .down).delivered.length + (s.lanes .down).held.length := by
  constructor
  · intro s h d
    obtain ⟨hinv, hfaithful⟩ := ZeroCopy.run_inv h
    refine ⟨carried_of_faithful (hfaithful d), (hinv d).moved, ?_⟩
    intro ho hready
    have hunbroken : s.Unbroken :=
      Lts.inv_of_exec_of_mem ZeroCopy.step (fun _ _ _ => ZeroCopy.unbroken_step)
        ⟨rfl, fun _ => by simp [ZeroCopy.start, ZeroCopy.Pump.new]⟩ ho h
    exact ZeroCopy.exists_moved hinv hunbroken hready
  · intro s h
    obtain ⟨hinv, hfaithful⟩ := Generic.run_inv h
    refine ⟨fun d => ⟨carried_of_faithful (hfaithful d), ?_⟩, hinv.up, hinv.down⟩
    intro ho hbusy hready
    have hunbroken : s.phase ≠ .returned :=
      @Lts.inv_of_exec_of_mem _ _ Generic.step (fun s => s.phase ≠ .returned) _
        (fun _ _ _ => Generic.unbroken_step) _ _ _ (by simp [Generic.start]) ho h
    exact Generic.exists_moved hinv hunbroken hbusy hready

namespace Stalled

/-- The egress takes nothing, the client a byte. -/
def room : Dir → ℕ
  | .up => 0
  | .down => 1

/-- The client sends a byte, which is read, and the egress answers with one. -/
def schedule : List Action :=
  [.act .up (.arrive [1]), .act .up (.read (.ok 1)), .act .down (.arrive [2])]

/-- The egress sends a byte, which is read. -/
def answer : List Action := [.act .down (.arrive [2]), .act .down (.read (.ok 1))]

end Stalled

open Stalled in
/-- While the loop holds a byte that the egress does not take, the answer that the client would
take stays where it is.  And a byte is counted as down-traffic before the client has it. -/
theorem generic_relay_waits :
    (∃ s, Lts.exec Generic.step (Generic.start room) schedule = some s ∧
      (∀ a ∈ schedule, a.ordinary = true) ∧ (s.lanes .down).Ready ∧
      ∀ a s', Generic.step s a = some s' → ¬ (s.lanes .down).Moved (s'.lanes .down)) ∧
    ∃ s, Lts.exec Generic.step (Generic.start room) answer = some s ∧
      s.down ≠ (s.lanes .down).delivered.length := by
  refine ⟨⟨_, rfl, by decide, ⟨by decide, by decide⟩, ?_⟩, ⟨_, rfl, by decide⟩⟩
  intro a s' h
  exact Generic.not_moved_of_writing_other rfl h

end Ferrite.Proxy.Relay
