import Ferrite.Lib.Bytes
import Ferrite.Lib.Lane
import Ferrite.Lib.Lts
import Mathlib.Algebra.Order.BigOperators.Group.List
import Mathlib.Algebra.Group.Nat.Defs
import Mathlib.Data.List.Perm.Subperm

/-!
# A connection through the userspace tunnel

`proxy/src/egress/wireguard/user.rs`: a routed connection is a pipe in memory whose far end a
task, the `bridge`, holds, and a virtual TCP socket that the tunnel's one loop owns with all the
others.  Between the two are a bounded channel each way, a chunk the loop has not got rid of and
what the bridge has in hand.  The bridge, the loop, the caller and the peer act in any order.

Each direction is a lane.

* `up_step`, `down_step` — whatever happens is a step of the lane, or none;
* `tunnel_carries` — over every run: bytes keep their order, none is lost or repeated, an end is
  passed on behind all of them, and only so much is held;
* `Ports.allocPort_spec`, `ports_stay_apart` — the virtual ports.
-/

namespace Ferrite.Proxy.WgBridge

open Lts

/-! ## One connection -/

/-- `CALLER_QUEUE`, the depth of `to_caller`, and the size of a chunk. -/
def callerQueue : ℕ := 16
def toCallerDepth : ℕ := 64
def chunkSize : ℕ := 8192

/-- `ToCaller`. -/
inductive ToCaller where
  | data (bs : Bytes)
  | eof
deriving DecidableEq, Repr

/-- Why the bridge ended, and what it had in hand then. -/
inductive Ending where
  /-- The caller's stream did. -/
  | atEnd
  | broken
  | unsent (chunk : Bytes)
  | unwritten (rest : Bytes)
deriving DecidableEq, Repr

/-- Where the bridge is. -/
inductive Bridge where
  | selecting
  /-- `to_loop.send`. -/
  | sending (chunk : Bytes)
  /-- `io.write_all`, with what is left of it. -/
  | writing (rest : Bytes)
  /-- `close_tx.send`. -/
  | signalling (ending : Ending)
  | gone (ending : Ending)
deriving DecidableEq, Repr

/-- The caller's end of the pipe, the bridge, what the loop holds of a `Conn`, and the virtual
socket with its peer. -/
structure Conn where
  /-- What the caller wrote, what of it the bridge has not read, and whether it ended. -/
  written : Bytes
  unread : Bytes
  ended : Bool
  bridge : Bridge
  fromCaller : List Bytes
  pending : Bytes
  /-- What the socket took for the peer. -/
  taken : Bytes
  /-- What came from the peer, what of it is in the ring, and whether more can come. -/
  arrived : Bytes
  ring : Bytes
  mayRecv : Bool
  isActive : Bool
  toCaller : List ToCaller
  /-- What the caller was given, and whether its read side was shut. -/
  given : Bytes
  shut : Bool
  established : Bool
  eofSent : Bool
  closing : Bool
  /-- A signal of the bridge that the loop has not seen. -/
  signalled : Bool
  /-- `close` was called on the socket for a caller whose end the bridge has read.  A `close`
  after a failed write to the caller is not recorded. -/
  closed : Bool
  /-- The loop has dropped the connection. -/
  removed : Bool
deriving DecidableEq, Repr

/-- `open_conn`. -/
def Conn.new : Conn where
  written := []
  unread := []
  ended := false
  bridge := .selecting
  fromCaller := []
  pending := []
  taken := []
  arrived := []
  ring := []
  mayRecv := true
  isActive := true
  toCaller := []
  given := []
  shut := false
  established := false
  eofSent := false
  closing := false
  signalled := false
  closed := false
  removed := false

inductive Action where
  /-- The caller writes, or ends its stream. -/
  | write (bs : Bytes)
  | finish
  /-- The peer sends, ends its stream, or is gone. -/
  | arrive (bs : Bytes)
  | peerFin
  | die
  /-- The bridge: `io.read`, with an error when there is no count. -/
  | readIo (n : Option ℕ)
  | sendLoop
  | recvLoop
  /-- `io.write_all` gets on by so much, or fails. -/
  | writeIo (n : Option ℕ)
  | signal
  /-- `service_sockets`: `send_slice` takes so much; the next chunk is pulled. -/
  | sendSlice (n : ℕ)
  | pull
  /-- `pump_to_callers`: what the socket's state says, and `recv_slice` gives so much. -/
  | mark
  | recvSlice (n : ℕ)
  | passEof
  | close
  | reap
  /-- `close_rx.recv`, and a connect that failed. -/
  | noticeClose
  | settleFailed
deriving DecidableEq

namespace Conn

/-- Has the bridge let go of its ends? -/
def bridgeGone (c : Conn) : Bool :=
  match c.bridge with
  | .gone _ => true
  | _ => false

/-- Did the bridge end with the caller's stream? -/
def bridgeAtEnd (c : Conn) : Bool :=
  match c.bridge with
  | .signalling .atEnd => true
  | .gone .atEnd => true
  | _ => false

/-- The bridge reads from the caller. -/
def readIo (c : Conn) (n : Option ℕ) : Option Conn :=
  match c.bridge, n with
  | .selecting, some 0 =>
    if c.ended ∧ c.unread = [] then some { c with bridge := .signalling .atEnd } else none
  | .selecting, some n =>
    if n ≤ chunkSize ∧ n ≤ c.unread.length then
      some { c with unread := c.unread.drop n, bridge := .sending (c.unread.take n) }
    else none
  | .selecting, none => some { c with bridge := .signalling .broken }
  | _, _ => none

def sendLoop (c : Conn) : Option Conn :=
  match c.bridge with
  | .sending chunk =>
    -- the receiver went with the connection
    if c.removed then some { c with bridge := .signalling (.unsent chunk) }
    else if c.fromCaller.length < callerQueue then
      some { c with bridge := .selecting, fromCaller := c.fromCaller ++ [chunk] }
    else none
  | _ => none

def recvLoop (c : Conn) : Option Conn :=
  match c.bridge, c.toCaller with
  | .selecting, .data bs :: rest => some { c with bridge := .writing bs, toCaller := rest }
  | .selecting, .eof :: rest => some { c with toCaller := rest, shut := true }
  | .selecting, [] => if c.removed then some { c with bridge := .signalling .broken } else none
  | _, _ => none

def writeIo (c : Conn) (n : Option ℕ) : Option Conn :=
  match c.bridge, n with
  | .writing bs, some n =>
    if n ≤ bs.length then
      some { c with
        given := c.given ++ bs.take n
        bridge := if bs.drop n = [] then .selecting else .writing (bs.drop n) }
    else none
  | .writing bs, none => some { c with bridge := .signalling (.unwritten bs) }
  | _, _ => none

/-- `close_tx.send`. -/
def signal (c : Conn) : Option Conn :=
  match c.bridge with
  | .signalling ending => some { c with bridge := .gone ending, signalled := true }
  | _ => none

/-! `service_sockets`. -/

def sendSlice (c : Conn) (n : ℕ) : Option Conn :=
  if c.removed ∨ n = 0 ∨ c.pending.length < n then none
  else some { c with taken := c.taken ++ c.pending.take n, pending := c.pending.drop n }

def pull (c : Conn) : Option Conn :=
  match c.pending, c.fromCaller with
  | [], chunk :: rest =>
    if c.removed then none else some { c with pending := chunk, fromCaller := rest }
  | _, _ => none

/-! `pump_to_callers`. -/

def recvSlice (c : Conn) (n : ℕ) : Option Conn :=
  if c.removed ∨ c.ring = [] then none
  else if c.bridgeGone then some { c with established := true, closing := true }
  else if c.toCaller.length < toCallerDepth ∧ n ≠ 0 ∧ n ≤ chunkSize ∧ n ≤ c.ring.length then
    some { c with
      established := true
      ring := c.ring.drop n
      toCaller := c.toCaller ++ [.data (c.ring.take n)] }
  else none

def passEof (c : Conn) : Option Conn :=
  if c.removed ∨ !c.established ∨ c.eofSent ∨ c.mayRecv ∨ c.ring ≠ [] ∨ c.bridgeGone ∨
    toCallerDepth ≤ c.toCaller.length then none
  else some { c with eofSent := true, toCaller := c.toCaller ++ [.eof] }

def close (c : Conn) : Option Conn :=
  if c.removed ∨ !c.closing ∨ c.pending ≠ [] ∨ c.fromCaller ≠ [] then none
  else some { c with closed := c.closed || c.bridgeAtEnd }

def reap (c : Conn) : Option Conn :=
  if c.removed ∨ c.isActive ∨ !(c.closing || c.established) then none
  else some { c with removed := true }

def step (c : Conn) : Action → Option Conn
  | .write bs =>
    if c.ended then none else some { c with written := c.written ++ bs, unread := c.unread ++ bs }
  | .finish => some { c with ended := true }
  | .arrive bs =>
    if c.mayRecv then some { c with arrived := c.arrived ++ bs, ring := c.ring ++ bs } else none
  | .peerFin => some { c with mayRecv := false }
  | .die => some { c with mayRecv := false, isActive := false }
  | .readIo n => c.readIo n
  | .sendLoop => c.sendLoop
  | .recvLoop => c.recvLoop
  | .writeIo n => c.writeIo n
  | .signal => c.signal
  | .sendSlice n => c.sendSlice n
  | .pull => c.pull
  | .mark =>
    if c.removed then none
    else some { c with established := c.established || (c.mayRecv || c.ring ≠ []) }
  | .recvSlice n => c.recvSlice n
  | .passEof => c.passEof
  | .close => c.close
  | .reap => c.reap
  | .noticeClose => if c.signalled ∧ !c.removed then some { c with closing := true } else none
  | .settleFailed => if c.established ∨ c.removed then none else some { c with closing := true }

/-! ### What each can do -/

variable {c c' : Conn}

theorem readIo_cases {n : Option ℕ} (h : c.readIo n = some c') :
    c.bridge = .selecting ∧
      ((c.ended = true ∧ c.unread = [] ∧ c' = { c with bridge := .signalling .atEnd }) ∨
        (∃ m, m ≠ 0 ∧ m ≤ chunkSize ∧ m ≤ c.unread.length ∧
          c' = { c with unread := c.unread.drop m, bridge := .sending (c.unread.take m) }) ∨
        c' = { c with bridge := .signalling .broken }) := by
  unfold readIo at h
  split at h
  · rename_i hbridge
    obtain ⟨⟨hended, hunread⟩, heq⟩ := Option.ite_none_right_eq_some.1 h
    cases heq
    exact ⟨hbridge, .inl ⟨hended, hunread, rfl⟩⟩
  · rename_i m hzero hbridge
    obtain ⟨⟨hchunk, hlen⟩, heq⟩ := Option.ite_none_right_eq_some.1 h
    cases heq
    exact ⟨hbridge, .inr (.inl ⟨m, hzero, hchunk, hlen, rfl⟩)⟩
  · rename_i hbridge
    cases h
    exact ⟨hbridge, .inr (.inr rfl)⟩
  · cases h

theorem sendLoop_cases (h : c.sendLoop = some c') :
    ∃ chunk, c.bridge = .sending chunk ∧
      ((c.removed = true ∧ c' = { c with bridge := .signalling (.unsent chunk) }) ∨
        (c.fromCaller.length < callerQueue ∧
          c' = { c with bridge := .selecting, fromCaller := c.fromCaller ++ [chunk] })) := by
  unfold sendLoop at h
  split at h
  · rename_i chunk hbridge
    split at h
    · rename_i hremoved
      cases h
      exact ⟨chunk, hbridge, .inl ⟨hremoved, rfl⟩⟩
    · obtain ⟨hroom, heq⟩ := Option.ite_none_right_eq_some.1 h
      cases heq
      exact ⟨chunk, hbridge, .inr ⟨hroom, rfl⟩⟩
  · cases h

theorem recvLoop_cases (h : c.recvLoop = some c') :
    c.bridge = .selecting ∧
      ((∃ bs rest, c.toCaller = .data bs :: rest ∧
          c' = { c with bridge := .writing bs, toCaller := rest }) ∨
        (∃ rest, c.toCaller = .eof :: rest ∧ c' = { c with toCaller := rest, shut := true }) ∨
        (c.toCaller = [] ∧ c.removed = true ∧
          c' = { c with bridge := .signalling .broken })) := by
  unfold recvLoop at h
  split at h
  · rename_i bs rest hbridge hqueue
    cases h
    exact ⟨hbridge, .inl ⟨bs, rest, hqueue, rfl⟩⟩
  · rename_i rest hbridge hqueue
    cases h
    exact ⟨hbridge, .inr (.inl ⟨rest, hqueue, rfl⟩)⟩
  · rename_i hbridge hqueue
    obtain ⟨hremoved, heq⟩ := Option.ite_none_right_eq_some.1 h
    cases heq
    exact ⟨hbridge, .inr (.inr ⟨hqueue, hremoved, rfl⟩)⟩
  · cases h

theorem writeIo_cases {n : Option ℕ} (h : c.writeIo n = some c') :
    ∃ bs, c.bridge = .writing bs ∧
      ((∃ m ≤ bs.length, bs.drop m = [] ∧
          c' = { c with given := c.given ++ bs.take m, bridge := .selecting }) ∨
        (∃ m ≤ bs.length,
          c' = { c with given := c.given ++ bs.take m, bridge := .writing (bs.drop m) }) ∨
        c' = { c with bridge := .signalling (.unwritten bs) }) := by
  unfold writeIo at h
  split at h
  · rename_i bs m hbridge
    obtain ⟨hle, heq⟩ := Option.ite_none_right_eq_some.1 h
    cases heq
    refine ⟨bs, hbridge, ?_⟩
    by_cases hdone : bs.drop m = []
    · exact .inl ⟨m, hle, hdone, by rw [if_pos hdone]⟩
    · exact .inr (.inl ⟨m, hle, by rw [if_neg hdone]⟩)
  · rename_i bs hbridge
    cases h
    exact ⟨bs, hbridge, .inr (.inr rfl)⟩
  · cases h

theorem signal_cases (h : c.signal = some c') :
    ∃ ending, c.bridge = .signalling ending ∧
      c' = { c with bridge := .gone ending, signalled := true } := by
  unfold signal at h
  split at h
  · rename_i ending hbridge
    cases h
    exact ⟨ending, hbridge, rfl⟩
  · cases h

theorem sendSlice_cases {n : ℕ} (h : c.sendSlice n = some c') :
    n ≤ c.pending.length ∧
      c' = { c with taken := c.taken ++ c.pending.take n, pending := c.pending.drop n } := by
  obtain ⟨hguard, heq⟩ := Option.ite_none_left_eq_some.1 h
  cases heq
  simp only [not_or, Nat.not_lt] at hguard
  exact ⟨hguard.2.2, rfl⟩

theorem pull_cases (h : c.pull = some c') :
    ∃ chunk rest, c.pending = [] ∧ c.fromCaller = chunk :: rest ∧
      c' = { c with pending := chunk, fromCaller := rest } := by
  unfold pull at h
  split at h
  · rename_i chunk rest hpending hqueue
    obtain ⟨-, heq⟩ := Option.ite_none_left_eq_some.1 h
    cases heq
    exact ⟨chunk, rest, hpending, hqueue, rfl⟩
  · cases h

/-- The signals, which move nothing. -/
def Marked (c c' : Conn) : Prop :=
  ∃ established closing removed,
    c' = { c with established := established, closing := closing, removed := removed }

theorem recvSlice_cases {n : ℕ} (h : c.recvSlice n = some c') :
    Marked c c' ∨
      (c.ring ≠ [] ∧ c.toCaller.length < toCallerDepth ∧ n ≤ chunkSize ∧
        c' = { c with
          established := true
          ring := c.ring.drop n
          toCaller := c.toCaller ++ [.data (c.ring.take n)] }) := by
  obtain ⟨hguard, h⟩ := Option.ite_none_left_eq_some.1 h
  rw [not_or] at hguard
  split at h
  · cases h
    exact .inl ⟨_, _, _, rfl⟩
  · obtain ⟨hroom, heq⟩ := Option.ite_none_right_eq_some.1 h
    cases heq
    exact .inr ⟨hguard.2, hroom.1, hroom.2.2.1, rfl⟩

theorem passEof_cases (h : c.passEof = some c') :
    c.eofSent = false ∧ c.mayRecv = false ∧ c.ring = [] ∧ c.toCaller.length < toCallerDepth ∧
      c' = { c with eofSent := true, toCaller := c.toCaller ++ [.eof] } := by
  obtain ⟨hguard, heq⟩ := Option.ite_none_left_eq_some.1 h
  cases heq
  simp only [not_or, not_not, Nat.not_le, Bool.not_eq_true] at hguard
  obtain ⟨-, -, hopen, hrecv, hring, -, hroom⟩ := hguard
  exact ⟨hopen, hrecv, hring, hroom, rfl⟩

theorem close_cases (h : c.close = some c') :
    c.pending = [] ∧ c.fromCaller = [] ∧ c' = { c with closed := c.closed || c.bridgeAtEnd } := by
  obtain ⟨hguard, heq⟩ := Option.ite_none_left_eq_some.1 h
  cases heq
  simp only [not_or, not_not] at hguard
  exact ⟨hguard.2.2.1, hguard.2.2.2, rfl⟩

theorem marked_of_step {a : Action}
    (ha : a = .mark ∨ a = .reap ∨ a = .noticeClose ∨ a = .settleFailed)
    (h : c.step a = some c') : Marked c c' := by
  obtain rfl | rfl | rfl | rfl := ha
  · obtain ⟨-, heq⟩ := Option.ite_none_left_eq_some.1 h
    exact ⟨_, _, _, (Option.some.inj heq).symm⟩
  · obtain ⟨-, heq⟩ := Option.ite_none_left_eq_some.1 h
    exact ⟨_, _, _, (Option.some.inj heq).symm⟩
  · obtain ⟨-, heq⟩ := Option.ite_none_right_eq_some.1 h
    exact ⟨_, _, _, (Option.some.inj heq).symm⟩
  · obtain ⟨-, heq⟩ := Option.ite_none_left_eq_some.1 h
    exact ⟨_, _, _, (Option.some.inj heq).symm⟩

end Conn

/-! ## The lanes -/

/-- What the bridge has read and not passed on. -/
def Bridge.upHand : Bridge → Bytes
  | .sending chunk => chunk
  | .signalling (.unsent chunk) => chunk
  | .gone (.unsent chunk) => chunk
  | _ => []

/-- What the bridge has been given and not written. -/
def Bridge.downHand : Bridge → Bytes
  | .writing rest => rest
  | .signalling (.unwritten rest) => rest
  | .gone (.unwritten rest) => rest
  | _ => []

def ToCaller.bytes : ToCaller → Bytes
  | .data bs => bs
  | .eof => []

/-- From the caller to the peer. -/
def Conn.up (c : Conn) : Lane UInt8 where
  sent := c.written
  fin := c.ended
  unread := c.unread
  held := c.pending ++ c.fromCaller.flatten ++ c.bridge.upHand
  delivered := c.taken
  room := 0
  shut := c.closed

/-- From the peer to the caller. -/
def Conn.down (c : Conn) : Lane UInt8 where
  sent := c.arrived
  fin := !c.mayRecv
  unread := c.ring
  held := c.bridge.downHand ++ c.toCaller.flatMap ToCaller.bytes
  delivered := c.given
  room := 0
  shut := c.shut

/-! ## What holds between the steps -/

/-- The messages to the caller, with the end behind the data or not there. -/
def Queued (q : List ToCaller) (eof : Bool) : Prop :=
  ∃ ds : List Bytes, q = ds.map .data ++ if eof then [.eof] else []

/-- The order of the ends, and how much is held where. -/
structure Inv (c : Conn) : Prop where
  atEnd : c.bridgeAtEnd = true → c.ended = true ∧ c.unread = []
  closed : c.closed = true → c.ended = true ∧ c.unread = [] ∧
    c.pending ++ c.fromCaller.flatten ++ c.bridge.upHand = []
  eofSent : c.eofSent = true → c.mayRecv = false ∧ c.ring = []
  queued : ∃ eof, Queued c.toCaller eof ∧ (eof = true → c.eofSent = true)
  fromCaller : c.fromCaller.length ≤ callerQueue ∧ ∀ bs ∈ c.fromCaller, bs.length ≤ chunkSize
  pending : c.pending.length ≤ chunkSize
  upHand : c.bridge.upHand.length ≤ chunkSize
  toCaller : c.toCaller.length ≤ toCallerDepth ∧ ∀ m ∈ c.toCaller, m.bytes.length ≤ chunkSize
  downHand : c.bridge.downHand.length ≤ chunkSize

variable {c c' : Conn}

theorem Queued.nil : Queued [] false := ⟨[], rfl⟩

theorem Queued.data {q : List ToCaller} (h : Queued q false) (bs : Bytes) :
    Queued (q ++ [.data bs]) false := by
  obtain ⟨ds, rfl⟩ := h
  exact ⟨ds ++ [bs], by simp⟩

theorem Queued.eof {q : List ToCaller} (h : Queued q false) : Queued (q ++ [.eof]) true := by
  obtain ⟨ds, rfl⟩ := h
  exact ⟨ds, by simp⟩

theorem Queued.tail {bs : Bytes} {q : List ToCaller} {eof : Bool}
    (h : Queued (.data bs :: q) eof) : Queued q eof := by
  obtain ⟨ds, hds⟩ := h
  cases ds with
  | nil => cases eof <;> simp at hds
  | cons d ds =>
    simp only [List.map_cons, List.cons_append, List.cons.injEq] at hds
    exact ⟨ds, hds.2⟩

/-- Nothing stands behind the end. -/
theorem Queued.eof_last {q : List ToCaller} {eof : Bool} (h : Queued (.eof :: q) eof) :
    q = [] ∧ eof = true := by
  obtain ⟨ds, hds⟩ := h
  cases ds with
  | nil => cases eof <;> simp_all
  | cons d ds => simp at hds

theorem Inv.new : Inv .new where
  atEnd := by simp [Conn.new, Conn.bridgeAtEnd]
  closed := by simp [Conn.new]
  eofSent := by simp [Conn.new]
  queued := ⟨false, Queued.nil, by simp⟩
  fromCaller := ⟨Nat.zero_le _, by simp [Conn.new]⟩
  pending := Nat.zero_le _
  upHand := Nat.zero_le _
  toCaller := ⟨Nat.zero_le _, by simp [Conn.new]⟩
  downHand := Nat.zero_le _

/-- While the end is not in the queue, more may go in. -/
theorem Inv.queued_false (h : Inv c) (hopen : c.eofSent = false) : Queued c.toCaller false := by
  obtain ⟨eof, hq, heof⟩ := h.queued
  cases eof with
  | false => exact hq
  | true => simp [hopen] at heof

/-- The end is passed on once nothing is in the ring. -/
theorem Inv.open_of_ring (h : Inv c) (hring : c.ring ≠ []) : c.eofSent = false := by
  by_contra hsent
  exact hring (h.eofSent (Bool.eq_true_of_not_eq_false hsent)).2

/-- What the bridge has in hand for the peer stays. -/
theorem Inv.closed_hand (h : Inv c) {b : Bridge} (hb : b.upHand = c.bridge.upHand) :
    c.closed = true → c.ended = true ∧ c.unread = [] ∧
      c.pending ++ c.fromCaller.flatten ++ b.upHand = [] := by
  rw [hb]
  exact h.closed

/-- A signal moves nothing. -/
theorem Inv.marked (h : Inv c) (hmarked : Conn.Marked c c') : Inv c' := by
  obtain ⟨established, closing, removed, rfl⟩ := hmarked
  exact ⟨h.atEnd, h.closed, h.eofSent, h.queued, h.fromCaller, h.pending, h.upHand, h.toCaller,
    h.downHand⟩

theorem Inv.readIo (h : Inv c) {n : Option ℕ} (hstep : c.readIo n = some c') : Inv c' := by
  obtain ⟨hbridge, ⟨hended, hunread, rfl⟩ | ⟨m, hzero, hchunk, hlen, rfl⟩ | rfl⟩ :=
    Conn.readIo_cases hstep
  · exact ⟨fun _ => ⟨hended, hunread⟩, h.closed_hand (by rw [hbridge]; rfl), h.eofSent, h.queued,
      h.fromCaller, h.pending, Nat.zero_le _, h.toCaller, Nat.zero_le _⟩
  · refine ⟨by simp [Conn.bridgeAtEnd], ?_, h.eofSent, h.queued, h.fromCaller, h.pending,
      (List.length_take_le _ _).trans hchunk, h.toCaller, Nat.zero_le _⟩
    -- nothing is read any more from a caller whose end was passed on
    intro hclosed
    rw [(h.closed hclosed).2.1, List.length_nil, Nat.le_zero] at hlen
    exact absurd hlen hzero
  · exact ⟨by simp [Conn.bridgeAtEnd], h.closed_hand (by rw [hbridge]; rfl), h.eofSent, h.queued,
      h.fromCaller, h.pending, Nat.zero_le _, h.toCaller, Nat.zero_le _⟩

theorem Inv.sendLoop (h : Inv c) (hstep : c.sendLoop = some c') : Inv c' := by
  obtain ⟨chunk, hbridge, ⟨-, rfl⟩ | ⟨hroom, rfl⟩⟩ := Conn.sendLoop_cases hstep
  all_goals
    have hchunk := h.upHand
    rw [hbridge] at hchunk
  · exact ⟨by simp [Conn.bridgeAtEnd], h.closed_hand (by rw [hbridge]; rfl), h.eofSent, h.queued,
      h.fromCaller, h.pending, hchunk, h.toCaller, Nat.zero_le _⟩
  · refine ⟨by simp [Conn.bridgeAtEnd], ?_, h.eofSent, h.queued, ⟨?_, ?_⟩, h.pending,
      Nat.zero_le _, h.toCaller, Nat.zero_le _⟩
    · intro hclosed
      obtain ⟨hended, hunread, hheld⟩ := h.closed hclosed
      rw [hbridge] at hheld
      refine ⟨hended, hunread, ?_⟩
      simpa [Bridge.upHand] using hheld
    · rw [List.length_append]
      exact hroom
    · intro bs hbs
      obtain hbs | hbs := List.mem_append.1 hbs
      · exact h.fromCaller.2 bs hbs
      · rw [List.mem_singleton.1 hbs]
        exact hchunk

theorem Inv.recvLoop (h : Inv c) (hstep : c.recvLoop = some c') : Inv c' := by
  obtain ⟨eof, hq, heof⟩ := h.queued
  have hbounds := h.toCaller
  obtain ⟨hbridge, ⟨bs, rest, hqueue, rfl⟩ | ⟨rest, hqueue, rfl⟩ | ⟨hqueue, -, rfl⟩⟩ :=
    Conn.recvLoop_cases hstep
  · rw [hqueue] at hq hbounds
    refine ⟨by simp [Conn.bridgeAtEnd], h.closed_hand (by rw [hbridge]; rfl), h.eofSent,
      ⟨eof, hq.tail, heof⟩, h.fromCaller, h.pending, Nat.zero_le _,
      ⟨?_, fun m hm => hbounds.2 m (List.mem_cons_of_mem _ hm)⟩,
      hbounds.2 _ (List.mem_cons_self ..)⟩
    exact (Nat.le_succ _).trans hbounds.1
  · rw [hqueue] at hq
    obtain ⟨rfl, -⟩ := hq.eof_last
    exact ⟨h.atEnd, h.closed, h.eofSent, ⟨false, Queued.nil, by simp⟩, h.fromCaller, h.pending,
      h.upHand, ⟨Nat.zero_le _, by simp⟩, h.downHand⟩
  · exact ⟨by simp [Conn.bridgeAtEnd], h.closed_hand (by rw [hbridge]; rfl), h.eofSent, h.queued,
      h.fromCaller, h.pending, Nat.zero_le _, h.toCaller, Nat.zero_le _⟩

theorem Inv.writeIo (h : Inv c) {n : Option ℕ} (hstep : c.writeIo n = some c') : Inv c' := by
  obtain ⟨bs, hbridge, hcases⟩ := Conn.writeIo_cases hstep
  have hdown := h.downHand
  rw [hbridge] at hdown
  obtain ⟨m, -, -, rfl⟩ | ⟨m, -, rfl⟩ | rfl := hcases
  · exact ⟨by simp [Conn.bridgeAtEnd], h.closed_hand (by rw [hbridge]; rfl), h.eofSent, h.queued,
      h.fromCaller, h.pending, Nat.zero_le _, h.toCaller, Nat.zero_le _⟩
  · exact ⟨by simp [Conn.bridgeAtEnd], h.closed_hand (by rw [hbridge]; rfl), h.eofSent, h.queued,
      h.fromCaller, h.pending, Nat.zero_le _, h.toCaller,
      (List.drop_sublist m bs).length_le.trans hdown⟩
  · exact ⟨by simp [Conn.bridgeAtEnd], h.closed_hand (by rw [hbridge]; rfl), h.eofSent, h.queued,
      h.fromCaller, h.pending, Nat.zero_le _, h.toCaller, hdown⟩

theorem Inv.signal (h : Inv c) (hstep : c.signal = some c') : Inv c' := by
  obtain ⟨ending, hbridge, rfl⟩ := Conn.signal_cases hstep
  have hatEnd := h.atEnd
  have hclosed := h.closed
  have hup := h.upHand
  have hdown := h.downHand
  simp only [Conn.bridgeAtEnd, hbridge] at hatEnd hclosed hup hdown
  cases ending <;>
    exact ⟨hatEnd, hclosed, h.eofSent, h.queued, h.fromCaller, h.pending, hup, h.toCaller, hdown⟩

theorem Inv.sendSlice (h : Inv c) {n : ℕ} (hstep : c.sendSlice n = some c') : Inv c' := by
  obtain ⟨-, rfl⟩ := Conn.sendSlice_cases hstep
  refine ⟨h.atEnd, ?_, h.eofSent, h.queued, h.fromCaller,
    (List.drop_sublist n c.pending).length_le.trans h.pending, h.upHand, h.toCaller, h.downHand⟩
  intro hclosed
  obtain ⟨hended, hunread, hheld⟩ := h.closed hclosed
  simp only [List.append_eq_nil_iff] at hheld ⊢
  exact ⟨hended, hunread, ⟨by rw [hheld.1.1, List.drop_nil], hheld.1.2⟩, hheld.2⟩

theorem Inv.pull (h : Inv c) (hstep : c.pull = some c') : Inv c' := by
  obtain ⟨chunk, rest, hpending, hqueue, rfl⟩ := Conn.pull_cases hstep
  have hbounds := h.fromCaller
  have hclosed := h.closed
  rw [hqueue] at hbounds
  rw [hpending, hqueue, List.nil_append, List.flatten_cons] at hclosed
  exact ⟨h.atEnd, hclosed, h.eofSent, h.queued,
    ⟨(Nat.le_succ _).trans hbounds.1, fun bs hbs => hbounds.2 bs (List.mem_cons_of_mem _ hbs)⟩,
    hbounds.2 chunk (List.mem_cons_self ..), h.upHand, h.toCaller, h.downHand⟩

/-- A message behind the others in `to_caller`. -/
theorem Inv.toCaller_append (h : Inv c) {m : ToCaller} (hroom : c.toCaller.length < toCallerDepth)
    (hm : m.bytes.length ≤ chunkSize) :
    (c.toCaller ++ [m]).length ≤ toCallerDepth ∧
      ∀ m' ∈ c.toCaller ++ [m], m'.bytes.length ≤ chunkSize := by
  refine ⟨by rw [List.length_append]; exact hroom, ?_⟩
  intro m' hm'
  obtain hm' | hm' := List.mem_append.1 hm'
  · exact h.toCaller.2 m' hm'
  · rw [List.mem_singleton.1 hm']
    exact hm

theorem Inv.recvSlice (h : Inv c) {n : ℕ} (hstep : c.recvSlice n = some c') : Inv c' := by
  obtain hmarked | ⟨hring, hroom, hchunk, rfl⟩ := Conn.recvSlice_cases hstep
  · exact h.marked hmarked
  · have hopen := h.open_of_ring hring
    exact ⟨h.atEnd, h.closed, by simp [hopen], ⟨false, (h.queued_false hopen).data _, by simp⟩,
      h.fromCaller, h.pending, h.upHand,
      h.toCaller_append hroom ((List.length_take_le _ _).trans hchunk), h.downHand⟩

theorem Inv.passEof (h : Inv c) (hstep : c.passEof = some c') : Inv c' := by
  obtain ⟨hopen, hrecv, hring, hroom, rfl⟩ := Conn.passEof_cases hstep
  exact ⟨h.atEnd, h.closed, fun _ => ⟨hrecv, hring⟩,
    ⟨true, (h.queued_false hopen).eof, fun _ => rfl⟩, h.fromCaller, h.pending, h.upHand,
    h.toCaller_append hroom (Nat.zero_le _), h.downHand⟩

/-- The socket is closed behind everything when the bridge ended with the caller's stream. -/
theorem Inv.close (h : Inv c) (hstep : c.close = some c') : Inv c' := by
  obtain ⟨hpending, hqueue, rfl⟩ := Conn.close_cases hstep
  refine ⟨h.atEnd, ?_, h.eofSent, h.queued, h.fromCaller, h.pending, h.upHand, h.toCaller,
    h.downHand⟩
  intro hclosed
  rw [Bool.or_eq_true] at hclosed
  obtain hclosed | hend := hclosed
  · exact h.closed hclosed
  · have hhand : c.bridge.upHand = [] := by
      unfold Conn.bridgeAtEnd at hend
      split at hend
      · rename_i hbridge
        rw [hbridge]
        rfl
      · rename_i hbridge
        rw [hbridge]
        rfl
      · cases hend
    obtain ⟨hended, hunread⟩ := h.atEnd hend
    refine ⟨hended, hunread, ?_⟩
    rw [hpending, hqueue, hhand]
    rfl

theorem inv_step {a : Action} (h : Inv c) (hstep : c.step a = some c') : Inv c' := by
  cases a with
  | write bs =>
    obtain ⟨hopen, heq⟩ := Option.ite_none_left_eq_some.1 hstep
    cases heq
    refine ⟨?_, ?_, h.eofSent, h.queued, h.fromCaller, h.pending, h.upHand, h.toCaller,
      h.downHand⟩
    · intro hend
      exact absurd (h.atEnd hend).1 hopen
    · intro hclosed
      exact absurd (h.closed hclosed).1 hopen
  | finish =>
    cases hstep
    exact ⟨fun hend => ⟨rfl, (h.atEnd hend).2⟩, fun hclosed => ⟨rfl, (h.closed hclosed).2⟩,
      h.eofSent, h.queued, h.fromCaller, h.pending, h.upHand, h.toCaller, h.downHand⟩
  | arrive bs =>
    obtain ⟨hrecv, heq⟩ := Option.ite_none_right_eq_some.1 hstep
    cases heq
    refine ⟨h.atEnd, h.closed, ?_, h.queued, h.fromCaller, h.pending, h.upHand, h.toCaller,
      h.downHand⟩
    intro hsent
    exact absurd hrecv (by simp [(h.eofSent hsent).1])
  | peerFin | die =>
    cases hstep
    exact ⟨h.atEnd, h.closed, fun hsent => ⟨rfl, (h.eofSent hsent).2⟩, h.queued,
      h.fromCaller, h.pending, h.upHand, h.toCaller, h.downHand⟩
  | readIo n => exact h.readIo hstep
  | sendLoop => exact h.sendLoop hstep
  | recvLoop => exact h.recvLoop hstep
  | writeIo n => exact h.writeIo hstep
  | signal => exact h.signal hstep
  | sendSlice n => exact h.sendSlice hstep
  | pull => exact h.pull hstep
  | recvSlice n => exact h.recvSlice hstep
  | passEof => exact h.passEof hstep
  | close => exact h.close hstep
  | mark | reap | noticeClose | settleFailed =>
    exact h.marked (Conn.marked_of_step (by simp) hstep)

/-! ## The lanes -/

/-- From the caller to the peer: `readIo` takes, `sendSlice` gives, `close` closes. -/
theorem up_step {a : Action} (h : Inv c) (hstep : c.step a = some c') : c.up.Step c'.up := by
  have hstay : c'.up = c.up → c.up.Step c'.up := fun heq => heq ▸ .stay
  cases a with
  | write bs =>
    obtain ⟨hopen, heq⟩ := Option.ite_none_left_eq_some.1 hstep
    cases heq
    exact .arrive bs (by simpa [Conn.up] using hopen)
  | finish =>
    cases hstep
    exact .finish
  | arrive bs =>
    obtain ⟨-, heq⟩ := Option.ite_none_right_eq_some.1 hstep
    cases heq
    exact .stay
  | peerFin | die =>
    cases hstep
    exact .stay
  | readIo n =>
    obtain ⟨hbridge, ⟨-, -, rfl⟩ | ⟨m, -, -, -, rfl⟩ | rfl⟩ := Conn.readIo_cases hstep
    · exact hstay (by simp [Conn.up, hbridge, Bridge.upHand])
    · have htake : c.up.take m = Conn.up { c with
          unread := c.unread.drop m, bridge := .sending (c.unread.take m) } := by
        simp [Conn.up, Lane.take, hbridge, Bridge.upHand]
      rw [← htake]
      exact .take m
    · exact hstay (by simp [Conn.up, hbridge, Bridge.upHand])
  | sendLoop =>
    obtain ⟨chunk, hbridge, ⟨-, rfl⟩ | ⟨-, rfl⟩⟩ := Conn.sendLoop_cases hstep
    · exact hstay (by simp [Conn.up, hbridge, Bridge.upHand])
    · exact hstay (by simp [Conn.up, hbridge, Bridge.upHand])
  | recvLoop =>
    obtain ⟨hbridge, ⟨bs, rest, -, rfl⟩ | ⟨rest, -, rfl⟩ | ⟨-, -, rfl⟩⟩ :=
      Conn.recvLoop_cases hstep
    · exact hstay (by simp [Conn.up, hbridge, Bridge.upHand])
    · exact .stay
    · exact hstay (by simp [Conn.up, hbridge, Bridge.upHand])
  | writeIo n =>
    obtain ⟨bs, hbridge, ⟨m, -, -, rfl⟩ | ⟨m, -, rfl⟩ | rfl⟩ := Conn.writeIo_cases hstep
    · exact hstay (by simp [Conn.up, hbridge, Bridge.upHand])
    · exact hstay (by simp [Conn.up, hbridge, Bridge.upHand])
    · exact hstay (by simp [Conn.up, hbridge, Bridge.upHand])
  | signal =>
    obtain ⟨ending, hbridge, rfl⟩ := Conn.signal_cases hstep
    cases ending <;> exact hstay (by simp [Conn.up, hbridge, Bridge.upHand])
  | sendSlice n =>
    obtain ⟨hle, rfl⟩ := Conn.sendSlice_cases hstep
    have hgive : c.up.give n = Conn.up { c with
        taken := c.taken ++ c.pending.take n, pending := c.pending.drop n } := by
      simp [Conn.up, Lane.give, List.append_assoc, List.drop_append_of_le_length hle,
        List.take_append_of_le_length hle]
    rw [← hgive]
    exact .give n
  | pull =>
    obtain ⟨chunk, rest, hpending, hqueue, rfl⟩ := Conn.pull_cases hstep
    exact hstay (by simp [Conn.up, hpending, hqueue])
  | recvSlice n =>
    obtain ⟨established, closing, removed, rfl⟩ | ⟨-, -, -, rfl⟩ := Conn.recvSlice_cases hstep
    · exact .stay
    · exact .stay
  | passEof =>
    obtain ⟨-, -, -, -, rfl⟩ := Conn.passEof_cases hstep
    exact .stay
  | close =>
    have hclosed := (h.close hstep).closed
    obtain ⟨-, -, rfl⟩ := Conn.close_cases hstep
    by_cases hend : c.bridgeAtEnd = true
    · obtain ⟨hfin, hunread, hheld⟩ := hclosed (by simp [hend])
      have hclose : c.up.close = Conn.up { c with closed := c.closed || c.bridgeAtEnd } := by
        simp [Conn.up, Lane.close, hend]
      rw [← hclose]
      exact .close hfin hunread hheld
    · exact hstay (by simp [Conn.up, hend])
  | mark | reap | noticeClose | settleFailed =>
    obtain ⟨established, closing, removed, rfl⟩ := Conn.marked_of_step (by simp) hstep
    exact .stay

/-- From the peer to the caller: `recvSlice` takes, `writeIo` gives, and the end read from the
queue closes. -/
theorem down_step {a : Action} (h : Inv c) (hstep : c.step a = some c') :
    c.down.Step c'.down := by
  have hstay : c'.down = c.down → c.down.Step c'.down := fun heq => heq ▸ .stay
  cases a with
  | write bs =>
    obtain ⟨-, heq⟩ := Option.ite_none_left_eq_some.1 hstep
    cases heq
    exact .stay
  | finish =>
    cases hstep
    exact .stay
  | arrive bs =>
    obtain ⟨hrecv, heq⟩ := Option.ite_none_right_eq_some.1 hstep
    cases heq
    exact .arrive bs (by simp [Conn.down, hrecv])
  | peerFin | die =>
    cases hstep
    exact .finish
  | readIo n =>
    obtain ⟨hbridge, ⟨-, -, rfl⟩ | ⟨m, -, -, -, rfl⟩ | rfl⟩ := Conn.readIo_cases hstep
    · exact hstay (by simp [Conn.down, hbridge, Bridge.downHand])
    · exact hstay (by simp [Conn.down, hbridge, Bridge.downHand])
    · exact hstay (by simp [Conn.down, hbridge, Bridge.downHand])
  | sendLoop =>
    obtain ⟨chunk, hbridge, ⟨-, rfl⟩ | ⟨-, rfl⟩⟩ := Conn.sendLoop_cases hstep
    · exact hstay (by simp [Conn.down, hbridge, Bridge.downHand])
    · exact hstay (by simp [Conn.down, hbridge, Bridge.downHand])
  | recvLoop =>
    obtain ⟨hbridge, ⟨bs, rest, hqueue, rfl⟩ | ⟨rest, hqueue, rfl⟩ | ⟨-, -, rfl⟩⟩ :=
      Conn.recvLoop_cases hstep
    · exact hstay (by simp [Conn.down, hbridge, hqueue, Bridge.downHand, ToCaller.bytes])
    · -- the end was put there behind everything that had come
      obtain ⟨eof, hq, heof⟩ := h.queued
      rw [hqueue] at hq
      obtain ⟨rfl, rfl⟩ := hq.eof_last
      obtain ⟨hrecv, hring⟩ := h.eofSent (heof rfl)
      have hclose : c.down.close = Conn.down { c with toCaller := [], shut := true } := by
        simp [Conn.down, Lane.close, hqueue, ToCaller.bytes]
      rw [← hclose]
      refine .close ?_ hring ?_
      · simp [Conn.down, hrecv]
      · simp [Conn.down, hbridge, hqueue, Bridge.downHand, ToCaller.bytes]
    · exact hstay (by simp [Conn.down, hbridge, Bridge.downHand])
  | writeIo n =>
    obtain ⟨bs, hbridge, ⟨m, hle, hdone, rfl⟩ | ⟨m, hle, rfl⟩ | rfl⟩ := Conn.writeIo_cases hstep
    · have hgive : c.down.give m = Conn.down { c with
          given := c.given ++ bs.take m, bridge := .selecting } := by
        simp [Conn.down, Lane.give, hbridge, Bridge.downHand, hdone,
          List.drop_append_of_le_length hle, List.take_append_of_le_length hle]
      rw [← hgive]
      exact .give m
    · have hgive : c.down.give m = Conn.down { c with
          given := c.given ++ bs.take m, bridge := .writing (bs.drop m) } := by
        simp [Conn.down, Lane.give, hbridge, Bridge.downHand,
          List.drop_append_of_le_length hle, List.take_append_of_le_length hle]
      rw [← hgive]
      exact .give m
    · exact hstay (by simp [Conn.down, hbridge, Bridge.downHand])
  | signal =>
    obtain ⟨ending, hbridge, rfl⟩ := Conn.signal_cases hstep
    cases ending <;> exact hstay (by simp [Conn.down, hbridge, Bridge.downHand])
  | sendSlice n =>
    obtain ⟨-, rfl⟩ := Conn.sendSlice_cases hstep
    exact .stay
  | pull =>
    obtain ⟨chunk, rest, -, -, rfl⟩ := Conn.pull_cases hstep
    exact .stay
  | recvSlice n =>
    obtain ⟨established, closing, removed, rfl⟩ | ⟨-, -, -, rfl⟩ := Conn.recvSlice_cases hstep
    · exact .stay
    · have htake : c.down.take n = Conn.down { c with
          established := true
          ring := c.ring.drop n
          toCaller := c.toCaller ++ [.data (c.ring.take n)] } := by
        simp [Conn.down, Lane.take, ToCaller.bytes]
      rw [← htake]
      exact .take n
  | passEof =>
    obtain ⟨-, -, -, -, rfl⟩ := Conn.passEof_cases hstep
    exact hstay (by simp [Conn.down, ToCaller.bytes])
  | close =>
    obtain ⟨-, -, rfl⟩ := Conn.close_cases hstep
    exact .stay
  | mark | reap | noticeClose | settleFailed =>
    obtain ⟨established, closing, removed, rfl⟩ := Conn.marked_of_step (by simp) hstep
    exact .stay

/-! ## All runs -/

theorem sum_le_mul {ns : List ℕ} {k m : ℕ} (hlen : ns.length ≤ k) (hle : ∀ n ∈ ns, n ≤ m) :
    ns.sum ≤ k * m := by
  have hsum := List.sum_le_card_nsmul ns m hle
  rw [Nat.nsmul_eq_mul] at hsum
  exact hsum.trans (Nat.mul_le_mul_right m hlen)

theorem length_up_held (h : Inv c) : c.up.held.length ≤ (callerQueue + 2) * chunkSize := by
  have hqueue : c.fromCaller.flatten.length ≤ callerQueue * chunkSize := by
    rw [List.length_flatten]
    exact sum_le_mul (by simpa using h.fromCaller.1) (by simpa using h.fromCaller.2)
  have hpending := h.pending
  have hhand := h.upHand
  simp only [Conn.up, List.length_append]
  rw [Nat.add_mul]
  omega

theorem length_down_held (h : Inv c) : c.down.held.length ≤ (toCallerDepth + 1) * chunkSize := by
  have hqueue : (c.toCaller.flatMap ToCaller.bytes).length ≤ toCallerDepth * chunkSize := by
    rw [List.length_flatMap]
    exact sum_le_mul (by simpa using h.toCaller.1) (by simpa using h.toCaller.2)
  have hhand := h.downHand
  simp only [Conn.down, List.length_append]
  rw [Nat.add_mul]
  omega

/-- **The tunnel carries what it is given.**  Over every run of a connection, whatever its
caller, its peer, its bridge and the loop do in what order: what the peer's socket took is the
front of what the caller wrote, and what the caller was given the front of what arrived; the
socket is closed for a caller that ended its stream, and the caller's read side shut, only
behind all of it; and no more than eighteen chunks are held on the way up, sixty-five on the
way down. -/
theorem tunnel_carries {as : List Action} (h : exec Conn.step .new as = some c) :
    c.taken <+: c.written ∧ c.given <+: c.arrived ∧
      (c.closed = true → c.ended = true ∧ c.taken = c.written) ∧
      (c.shut = true → c.mayRecv = false ∧ c.given = c.arrived) ∧
      c.up.held.length ≤ 18 * chunkSize ∧ c.down.held.length ≤ 65 * chunkSize := by
  have hkept : ∀ c a c', Inv c ∧ c.up.Faithful ∧ c.down.Faithful → c.step a = some c' →
      Inv c' ∧ c'.up.Faithful ∧ c'.down.Faithful :=
    fun c a c' hc hstep => ⟨inv_step hc.1 hstep, hc.2.1.step (up_step hc.1 hstep),
      hc.2.2.step (down_step hc.1 hstep)⟩
  obtain ⟨hinv, hup, hdown⟩ := inv_of_exec_all Conn.step hkept
    ⟨Inv.new, Lane.faithful_new 0, Lane.faithful_new 0⟩ h
  refine ⟨hup.delivered_le, hdown.delivered_le, fun hclosed => ?_, fun hshut => ?_,
    length_up_held hinv, length_down_held hinv⟩
  · obtain ⟨hfin, -, hall⟩ := hup.all_of_shut hclosed
    exact ⟨hfin, hall⟩
  · obtain ⟨hfin, -, hall⟩ := hdown.all_of_shut hshut
    exact ⟨by simpa [Conn.down] using hfin, hall⟩

/-- A caller writes, is answered before the last of it has gone, and both ends finish. -/
def exchange : List Action :=
  [.write [1, 2, 3], .readIo (some 2), .sendLoop, .pull, .sendSlice 1, .finish, .mark, .arrive [7],
    .peerFin, .recvSlice 1, .passEof, .recvLoop, .writeIo (some 1), .recvLoop, .readIo (some 1),
    .sendLoop, .readIo (some 0), .signal, .noticeClose, .sendSlice 1, .pull, .sendSlice 1, .close]

theorem exchange_carried :
    ∃ c, exec Conn.step .new exchange = some c ∧ c.closed = true ∧ c.shut = true ∧
      c.taken <+: c.written ∧ c.given <+: c.arrived ∧
      (c.closed = true → c.ended = true ∧ c.taken = c.written) ∧
      (c.shut = true → c.mayRecv = false ∧ c.given = c.arrived) ∧
      c.up.held.length ≤ 18 * chunkSize ∧ c.down.held.length ≤ 65 * chunkSize :=
  ⟨_, rfl, rfl, rfl, @tunnel_carries _ exchange rfl⟩

/-! ## The virtual ports -/

/-- The ephemeral range. -/
def minPort : ℕ := 49152
def maxPort : ℕ := 65535
def portCount : ℕ := 16384

/-- The ports of the loop: `next_port`, and those the connections hold. -/
structure Ports where
  nextPort : ℕ
  held : List ℕ
deriving DecidableEq, Repr

namespace Ports

/-- The candidate behind another. -/
def after (p : ℕ) : ℕ := if p = maxPort then minPort else p + 1

/-- The loop of `alloc_port`, with what was chosen last and what would be tried next. -/
def scan (held : List ℕ) : ℕ → ℕ → ℕ → ℕ × ℕ
  | 0, candidate, chosen => (chosen, candidate)
  | n + 1, candidate, _ =>
    if candidate ∈ held then scan held n (after candidate) candidate
    else (candidate, after candidate)

/-- `alloc_port`. -/
def allocPort (s : Ports) : ℕ × ℕ := scan s.held portCount s.nextPort s.nextPort

inductive Action where
  /-- `open_conn`; the socket may refuse to connect. -/
  | openConn (connects : Bool)
  /-- The connection of an index is dropped. -/
  | reap (i : ℕ)
deriving DecidableEq

def step (s : Ports) : Action → Option Ports
  | .openConn connects =>
    some ⟨s.allocPort.2, if connects then s.allocPort.1 :: s.held else s.held⟩
  | .reap i => if i < s.held.length then some { s with held := s.held.eraseIdx i } else none

/-- `run_tunnel` begins. -/
def start : Ports := ⟨minPort, []⟩

def Ephemeral (p : ℕ) : Prop := minPort ≤ p ∧ p ≤ maxPort

variable {s s' : Ports} {held : List ℕ} {p candidate chosen : ℕ}

theorem Ephemeral.after (h : Ephemeral p) : Ephemeral (after p) := by
  unfold Ports.after
  split
  · exact ⟨le_rfl, by decide⟩
  · rename_i hlast
    exact ⟨h.1.trans (Nat.le_succ p), Nat.lt_of_le_of_ne h.2 hlast⟩

/-- The candidates go round the range. -/
theorem iterate_after (h : Ephemeral p) (i : ℕ) :
    after^[i] p = minPort + (p - minPort + i) % portCount := by
  induction i with
  | zero =>
    simp only [Ephemeral, minPort, maxPort, portCount] at *
    simp only [Function.iterate_zero_apply]
    omega
  | succ i ih =>
    rw [Function.iterate_succ_apply', ih, after]
    clear ih
    split
    · simp only [Ephemeral, minPort, maxPort, portCount] at *
      omega
    · simp only [Ephemeral, minPort, maxPort, portCount] at *
      omega

/-- Every port of the range comes up within one round. -/
theorem exists_iterate_eq {q : ℕ} (hp : Ephemeral p) (hq : Ephemeral q) :
    ∃ i < portCount, after^[i] p = q := by
  refine ⟨(q + portCount - p) % portCount, Nat.mod_lt _ (by decide), ?_⟩
  rw [iterate_after hp]
  simp only [Ephemeral, minPort, maxPort, portCount] at *
  omega

theorem scan_ephemeral (n : ℕ) (hcandidate : Ephemeral candidate) (hchosen : Ephemeral chosen) :
    Ephemeral (scan held n candidate chosen).1 ∧ Ephemeral (scan held n candidate chosen).2 := by
  induction n generalizing candidate chosen with
  | zero => exact ⟨hchosen, hcandidate⟩
  | succ n ih =>
    rw [scan]
    split
    · exact ih hcandidate.after hcandidate
    · exact ⟨hcandidate, hcandidate.after⟩

/-- The scan stops at a free port when it comes past one. -/
theorem scan_free (n : ℕ) (h : ∃ i < n, after^[i] candidate ∉ held) :
    (scan held n candidate chosen).1 ∉ held := by
  induction n generalizing candidate chosen with
  | zero =>
    obtain ⟨i, hi, -⟩ := h
    exact absurd hi (Nat.not_lt_zero i)
  | succ n ih =>
    rw [scan]
    split
    · rename_i htaken
      obtain ⟨i, hi, hfree⟩ := h
      cases i with
      | zero => exact absurd htaken hfree
      | succ i => exact ih ⟨i, Nat.lt_of_succ_lt_succ hi, hfree⟩
    · assumption

/-- **A free port is found if there is one.** -/
theorem allocPort_spec (h : Ephemeral s.nextPort) :
    s.allocPort.1 ∉ s.held ↔ ∃ p, Ephemeral p ∧ p ∉ s.held := by
  constructor
  · intro hfree
    exact ⟨_, (scan_ephemeral portCount h h).1, hfree⟩
  · rintro ⟨p, hp, hfree⟩
    obtain ⟨i, hi, rfl⟩ := exists_iterate_eq h hp
    exact scan_free portCount ⟨i, hi, hfree⟩

/-- Fewer connections than ports leave one free. -/
theorem exists_free (h : held.length < portCount) : ∃ p, Ephemeral p ∧ p ∉ held := by
  by_contra hnone
  push Not at hnone
  have hsub : List.range' minPort portCount ⊆ held := by
    intro p hp
    rw [List.mem_range'_1] at hp
    exact hnone p ⟨hp.1, Nat.le_of_lt_succ hp.2⟩
  have hnodup : (List.range' minPort portCount).Nodup := List.nodup_range' 1
  have hlen := (hnodup.subperm hsub).length_le
  rw [List.length_range'] at hlen
  omega

/-- What holds between the steps. -/
structure Inv (s : Ports) : Prop where
  next : Ephemeral s.nextPort
  held : ∀ p ∈ s.held, Ephemeral p
  nodup : s.held.Nodup

/-- A connection is opened while there are fewer than ports. -/
def Roomy (s : Ports) (a : Action) : Prop := a = .openConn true → s.held.length < portCount

theorem inv_step {a : Action} (h : Inv s) (hroom : Roomy s a) (hstep : s.step a = some s') :
    Inv s' := by
  cases a with
  | openConn connects =>
    cases hstep
    obtain ⟨hport, hnext⟩ := @scan_ephemeral s.held _ _ portCount h.next h.next
    cases connects with
    | false => exact ⟨hnext, h.held, h.nodup⟩
    | true =>
      have hfree := (allocPort_spec h.next).2 (exists_free (hroom rfl))
      refine ⟨hnext, ?_, List.nodup_cons.2 ⟨hfree, h.nodup⟩⟩
      intro p hp
      obtain rfl | hp := List.mem_cons.1 hp
      · exact hport
      · exact h.held p hp
  | reap i =>
    simp only [step, Option.ite_none_right_eq_some] at hstep
    obtain ⟨-, heq⟩ := hstep
    cases heq
    exact ⟨h.next, fun p hp => h.held p (List.mem_of_mem_eraseIdx hp),
      h.nodup.sublist (List.eraseIdx_sublist ..)⟩

end Ports

/-- **The virtual ports stay apart.**  Over every run of a tunnel that never has as many
connections as there are ephemeral ports, no two of the live ones have the same port, and each
is of the range, however often the counter has gone round. -/
theorem ports_stay_apart {s : Ports} {as : List Ports.Action}
    (hroom : Guarded Ports.step Ports.Roomy .start as)
    (h : exec Ports.step .start as = some s) :
    s.held.Nodup ∧ ∀ p ∈ s.held, Ports.Ephemeral p := by
  have hinv := inv_of_exec Ports.step (fun _ _ _ ha hs => Ports.inv_step hs ha)
    ⟨⟨le_rfl, by decide⟩, by simp [Ports.start], List.nodup_nil⟩ hroom h
  exact ⟨hinv.nodup, hinv.held⟩

/-- Two connections, of which the first goes, and a third that does not get its port. -/
def threeConns : List Ports.Action := [.openConn true, .openConn true, .reap 1, .openConn true]

theorem threeConns_stay_apart :
    ∃ s, exec Ports.step .start threeConns = some s ∧ s.held = [49154, 49153] ∧
      s.held.Nodup ∧ ∀ p ∈ s.held, Ports.Ephemeral p := by
  refine ⟨⟨49155, [49154, 49153]⟩, rfl, rfl, @ports_stay_apart _ threeConns ?_ rfl⟩
  refine ⟨fun _ => by decide, fun _ h1 => ?_⟩
  cases h1
  refine ⟨fun _ => by decide, fun _ h2 => ?_⟩
  cases h2
  refine ⟨nofun, fun _ h3 => ?_⟩
  cases h3
  exact ⟨fun _ => by decide, fun _ _ => trivial⟩

end Ferrite.Proxy.WgBridge
