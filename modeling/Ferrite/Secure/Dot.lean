import Ferrite.Lib.Frames
import Ferrite.Lib.Threads
import Ferrite.Dns.Answers
import Ferrite.Secure.Requests

/-!
# One connection of DNS over TLS

`secure/src/dot.rs`: a loop reads queries, each behind its length, and starts a task for
each; the tasks resolve in any order and hand their answers to the one writer over a channel
of bounded length.  A query in flight holds one of the connection's slots, and while it
waits for upstream one of the box's permits, for which everything else on the box competes.
The writer gets on only as fast as the client reads: nothing limits how long it waits.

`Moves` is what a step can do, `moves_of_step` that there is nothing else.
-/

namespace Ferrite.Secure.Dot

open Frames Dns Lts Threads

/-! ## The parties -/

/-- `PER_CONNECTION`. -/
def perConnection : ℕ := 32

/-- `MAX_CONCURRENT_QUERIES`. -/
def maxConcurrentQueries : ℕ := 256

/-- What `serve` is given: the peer and the device it named, and what the handler answers to
the query of a number, if anything. -/
structure Setup where
  codec : Codec
  peer : SocketAddr
  clientId : Option Text
  handle : ℕ → Bytes → Option Bytes

/-- `refused` of the handler: nothing for what is no message. -/
def refused (codec : Codec) (raw : Bytes) : Bytes :=
  if (codec.fromBytes raw).isNone then [] else buildError codec raw Dns.refused

/-- Where the reading loop is. -/
inductive Reader where
  | length
  | body (n : ℕ)
  /-- Waiting for room in the channel. -/
  | refusing (k : ℕ) (answer : Bytes)
  /-- Waiting for one of the connection's slots. -/
  | slot (k : ℕ) (raw : Bytes)
  | stopped

/-- Where the task of a query is. -/
inductive Task where
  | resolving (raw : Bytes)
  /-- The permit is given back; the slot is not. -/
  | sending (answer : Bytes)

/-- Where the writer is.  It is `done` when nothing is left but to shut the stream down, and
has `failed` when a write did and the channel is gone with it. -/
inductive Writer where
  | waiting
  | writing (k : ℕ) (answer : Bytes)
  | done
  | failed
deriving DecidableEq

/-- Why a query has no answer. -/
inductive Why where
  /-- No permit was free; so many were held. -/
  | shed (held : ℕ)
  /-- There was nothing to send. -/
  | silent
  /-- The writer had failed. -/
  | lost
deriving DecidableEq

/-- A connection, the permits of the box, and what happened so far. -/
structure Conn where
  arrived : Bytes
  unread : Bytes
  reader : Reader
  tasks : Table ℕ Task
  channel : List (ℕ × Bytes)
  writer : Writer
  /-- What the stream takes before the client has to read again. -/
  room : ℕ
  written : Bytes
  free : ℕ
  /-- Permits held elsewhere on the box. -/
  others : ℕ
  queries : List Bytes
  answers : List (ℕ × Bytes)
  dropped : List (ℕ × Why)

/-- A connection just accepted. -/
def start (others : ℕ) : Conn where
  arrived := []
  unread := []
  reader := .length
  tasks := ∅
  channel := []
  writer := .waiting
  room := 0
  written := []
  free := maxConcurrentQueries - others
  others := others
  queries := []
  answers := []
  dropped := []

/-! ## The steps -/

/-- One step of the client, of the connection's tasks, or of the rest of the box. -/
inductive Action where
  | arrive (bs : Bytes)
  /-- The client, or a buffer on the way to it, takes `n` bytes more. -/
  | clientReads (n : ℕ)
  | readLength
  /-- The query is there, and the gate looks at it. -/
  | readBody (gate : Gate) (now : ℤ)
  /-- End of the stream, an error, or nothing came in time. -/
  | stopReading
  | sendRefused
  | takeSlot
  | resolved (k : ℕ)
  | sendAnswer (k : ℕ)
  | receive
  | write
  /-- An error after `n` bytes of the frame. -/
  | writeFail (n : ℕ)
  | shutdown
  | othersTake
  | othersGive
deriving DecidableEq

namespace Conn

def isResolving : Task → Bool
  | .resolving _ => true
  | .sending _ => false

/-- The permits that are held. -/
def held (c : Conn) : ℕ := c.others + c.tasks.values.countP isResolving

/-- `tx.send`: waits for room, and fails once the receiver is gone. -/
def send (c : Conn) (k : ℕ) (answer : Bytes) : Option Conn :=
  match c.writer with
  | .failed => some { c with dropped := c.dropped ++ [(k, .lost)] }
  | _ =>
    if c.channel.length < perConnection then
      some { c with channel := c.channel ++ [(k, answer)] }
    else none

end Conn

namespace Conn

/-- The length of the next query; zero ends the connection. -/
def readLength (c : Conn) : Option Conn :=
  match c.reader, c.unread with
  | .length, hi :: lo :: rest =>
    let n := hi.toNat * 256 + lo.toNat
    if n = 0 ∨ maxMessage < n then some { c with unread := rest, reader := .stopped }
    else some { c with unread := rest, reader := .body n }
  | _, _ => none

/-- The query itself, and what the gate thinks of it. -/
def readBody (setup : Setup) (gate : Gate) (now : ℤ) (c : Conn) : Option Conn :=
  match c.reader with
  | .body n =>
    if n ≤ c.unread.length then
      let raw := c.unread.take n
      let k := c.queries.length
      let c := { c with unread := c.unread.drop n, queries := c.queries ++ [raw] }
      if !(gate.allows now setup.peer.ip setup.clientId).1 then
        let answer := refused setup.codec raw
        if answer.isEmpty then
          some { c with reader := .stopped, dropped := c.dropped ++ [(k, .silent)] }
        else some { c with reader := .refusing k answer }
      else some { c with reader := .slot k raw }
    else none
  | _ => none

def stopReading (c : Conn) : Option Conn :=
  match c.reader with
  | .length => some { c with reader := .stopped }
  | .body _ => some { c with reader := .stopped }
  | _ => none

def sendRefused (c : Conn) : Option Conn :=
  match c.reader with
  | .refusing k answer =>
    (c.send k answer).map fun c' =>
      { c' with reader := if c.writer = .failed then .stopped else .length }
  | _ => none

/-- A slot of the connection, and then a permit of the box if one is free. -/
def takeSlot (c : Conn) : Option Conn :=
  match c.reader with
  | .slot k raw =>
    if c.tasks.entries.length < perConnection then
      let c := { c with reader := .length }
      if c.free = 0 then some { c with dropped := c.dropped ++ [(k, .shed c.held)] }
      else some { c with free := c.free - 1, tasks := put c.tasks k (some (.resolving raw)) }
    else none
  | _ => none

/-- The handler is done with the query, and the permit given back. -/
def resolved (setup : Setup) (k : ℕ) (c : Conn) : Option Conn :=
  match c.tasks.lookup k with
  | some (.resolving raw) =>
    let c := { c with free := c.free + 1 }
    let answer := (setup.handle k raw).getD []
    if answer.isEmpty then
      some { c with tasks := put c.tasks k none, dropped := c.dropped ++ [(k, .silent)] }
    else some { c with tasks := put c.tasks k (some (.sending answer)) }
  | _ => none

/-- The answer is in the channel, and the slot given back. -/
def sendAnswer (k : ℕ) (c : Conn) : Option Conn :=
  match c.tasks.lookup k with
  | some (.sending answer) => ({ c with tasks := put c.tasks k none } : Conn).send k answer
  | _ => none

def receive (c : Conn) : Option Conn :=
  match c.writer, c.channel with
  | .waiting, (k, answer) :: rest => some { c with channel := rest, writer := .writing k answer }
  | _, _ => none

/-- `write_all` and `flush`: they wait until the client has taken the whole frame. -/
def write (c : Conn) : Option Conn :=
  match c.writer with
  | .writing k answer =>
    if (frame answer).length ≤ c.room then
      some { c with
        room := c.room - (frame answer).length, written := c.written ++ frame answer
        answers := c.answers ++ [(k, answer)], writer := .waiting }
    else none
  | _ => none

/-- The receiver goes, and what is in the channel with it. -/
def writeFail (n : ℕ) (c : Conn) : Option Conn :=
  match c.writer with
  | .writing k answer =>
    if n ≤ c.room then
      some { c with
        room := c.room - n, written := c.written ++ (frame answer).take n
        writer := .failed, channel := []
        dropped := c.dropped ++ (k, .lost) :: c.channel.map fun e => (e.1, .lost) }
    else none
  | _ => none

/-- The channel is empty and no sender is left. -/
def shutdown (c : Conn) : Option Conn :=
  match c.writer, c.reader, c.channel with
  | .waiting, .stopped, [] =>
    if c.tasks.entries.isEmpty then some { c with writer := .done } else none
  | _, _, _ => none

end Conn

/-- One step of anybody. -/
def step (setup : Setup) (c : Conn) : Action → Option Conn
  | .arrive bs => some { c with arrived := c.arrived ++ bs, unread := c.unread ++ bs }
  | .clientReads n => some { c with room := c.room + n }
  | .readLength => c.readLength
  | .readBody gate now => c.readBody setup gate now
  | .stopReading => c.stopReading
  | .sendRefused => c.sendRefused
  | .takeSlot => c.takeSlot
  | .resolved k => c.resolved setup k
  | .sendAnswer k => c.sendAnswer k
  | .receive => c.receive
  | .write => c.write
  | .writeFail n => c.writeFail n
  | .shutdown => c.shutdown
  | .othersTake =>
    if c.free = 0 then none else some { c with free := c.free - 1, others := c.others + 1 }
  | .othersGive =>
    if c.others = 0 then none else some { c with free := c.free + 1, others := c.others - 1 }

/-! ## What a step can do -/

/-- The steps of the connection's own tasks.  What the client sends and takes, the time running
out, the stream breaking and the rest of the box are not theirs. -/
def Action.own : Action → Bool
  | .arrive _ => false
  | .clientReads _ => false
  | .stopReading => false
  | .writeFail _ => false
  | .othersTake => false
  | .othersGive => false
  | _ => true

/-- The steps by what they do and what they find, and whether they are own ones. -/
inductive Moves (setup : Setup) (c : Conn) : Bool → Conn → Prop where
  | arrive (bs : Bytes) :
    Moves setup c false { c with arrived := c.arrived ++ bs, unread := c.unread ++ bs }
  | clientReads (n : ℕ) : Moves setup c false { c with room := c.room + n }
  | length {hi lo : UInt8} {rest : Bytes} (hreader : c.reader = .length)
      (hunread : c.unread = hi :: lo :: rest) (hpos : hi.toNat * 256 + lo.toNat ≠ 0) :
    Moves setup c true { c with unread := rest, reader := .body (hi.toNat * 256 + lo.toNat) }
  | zero {hi lo : UInt8} {rest : Bytes} (hreader : c.reader = .length)
      (hunread : c.unread = hi :: lo :: rest) :
    Moves setup c true { c with unread := rest, reader := .stopped }
  | stop (hreader : c.reader = .length ∨ ∃ n, c.reader = .body n) :
    Moves setup c false { c with reader := .stopped }
  | unheard {n : ℕ} (hreader : c.reader = .body n) (hn : n ≤ c.unread.length)
      (hempty : refused setup.codec (c.unread.take n) = []) :
    Moves setup c true { c with
      unread := c.unread.drop n, queries := c.queries ++ [c.unread.take n], reader := .stopped
      dropped := c.dropped ++ [(c.queries.length, .silent)] }
  | refused {n : ℕ} (hreader : c.reader = .body n) (hn : n ≤ c.unread.length)
      (hempty : refused setup.codec (c.unread.take n) ≠ []) :
    Moves setup c true { c with
      unread := c.unread.drop n, queries := c.queries ++ [c.unread.take n]
      reader := .refusing c.queries.length (refused setup.codec (c.unread.take n)) }
  | allowed {n : ℕ} (hreader : c.reader = .body n) (hn : n ≤ c.unread.length) :
    Moves setup c true { c with
      unread := c.unread.drop n, queries := c.queries ++ [c.unread.take n]
      reader := .slot c.queries.length (c.unread.take n) }
  | refusal {k : ℕ} {answer : Bytes} (hreader : c.reader = .refusing k answer)
      (hwriter : c.writer ≠ .failed) (hroom : c.channel.length < perConnection) :
    Moves setup c true { c with channel := c.channel ++ [(k, answer)], reader := .length }
  | refusalLost {k : ℕ} {answer : Bytes} (hreader : c.reader = .refusing k answer)
      (hwriter : c.writer = .failed) :
    Moves setup c true { c with dropped := c.dropped ++ [(k, .lost)], reader := .stopped }
  | shed {k : ℕ} {raw : Bytes} (hreader : c.reader = .slot k raw) (hfree : c.free = 0)
      (hslot : c.tasks.entries.length < perConnection) :
    Moves setup c true { c with reader := .length, dropped := c.dropped ++ [(k, .shed c.held)] }
  | spawn {k : ℕ} {raw : Bytes} (hreader : c.reader = .slot k raw) (hfree : c.free ≠ 0)
      (hslot : c.tasks.entries.length < perConnection) :
    Moves setup c true { c with
      reader := .length, free := c.free - 1, tasks := put c.tasks k (some (.resolving raw)) }
  | silent {k : ℕ} {raw : Bytes} (htask : c.tasks.lookup k = some (.resolving raw))
      (hempty : (setup.handle k raw).getD [] = []) :
    Moves setup c true { c with
      free := c.free + 1, tasks := put c.tasks k none, dropped := c.dropped ++ [(k, .silent)] }
  | resolved {k : ℕ} {raw answer : Bytes} (htask : c.tasks.lookup k = some (.resolving raw))
      (hanswer : setup.handle k raw = some answer) (hempty : answer ≠ []) :
    Moves setup c true { c with
      free := c.free + 1, tasks := put c.tasks k (some (.sending answer)) }
  | send {k : ℕ} {answer : Bytes} (htask : c.tasks.lookup k = some (.sending answer))
      (hwriter : c.writer ≠ .failed) (hroom : c.channel.length < perConnection) :
    Moves setup c true { c with tasks := put c.tasks k none, channel := c.channel ++ [(k, answer)] }
  | sendLost {k : ℕ} {answer : Bytes} (htask : c.tasks.lookup k = some (.sending answer))
      (hwriter : c.writer = .failed) :
    Moves setup c true { c with tasks := put c.tasks k none, dropped := c.dropped ++ [(k, .lost)] }
  | receive {k : ℕ} {answer : Bytes} {rest : List (ℕ × Bytes)} (hwriter : c.writer = .waiting)
      (hchannel : c.channel = (k, answer) :: rest) :
    Moves setup c true { c with channel := rest, writer := .writing k answer }
  | write {k : ℕ} {answer : Bytes} (hwriter : c.writer = .writing k answer)
      (htakes : (frame answer).length ≤ c.room) :
    Moves setup c true { c with
      room := c.room - (frame answer).length, written := c.written ++ frame answer
      answers := c.answers ++ [(k, answer)], writer := .waiting }
  | writeFail {k : ℕ} {answer : Bytes} (n : ℕ) (hwriter : c.writer = .writing k answer) :
    Moves setup c false { c with
      room := c.room - n, written := c.written ++ (frame answer).take n
      writer := .failed, channel := []
      dropped := c.dropped ++ (k, .lost) :: c.channel.map fun e => (e.1, .lost) }
  | shutdown (hwriter : c.writer = .waiting) (hreader : c.reader = .stopped)
      (hchannel : c.channel = []) (htasks : c.tasks.entries = []) :
    Moves setup c true { c with writer := .done }
  | othersTake (hfree : c.free ≠ 0) :
    Moves setup c false { c with free := c.free - 1, others := c.others + 1 }
  | othersGive (hothers : c.others ≠ 0) :
    Moves setup c false { c with free := c.free + 1, others := c.others - 1 }

variable {setup : Setup} {c c' : Conn} {own : Bool}

theorem send_cases {k : ℕ} {answer : Bytes} (h : c.send k answer = some c') :
    (c.writer = .failed ∧ c' = { c with dropped := c.dropped ++ [(k, .lost)] }) ∨
    (c.writer ≠ .failed ∧ c.channel.length < perConnection ∧
      c' = { c with channel := c.channel ++ [(k, answer)] }) := by
  unfold Conn.send at h
  split at h
  · rename_i hwriter
    exact Or.inl ⟨hwriter, (Option.some.inj h).symm⟩
  · rename_i hwriter
    rw [Option.ite_none_right_eq_some] at h
    exact Or.inr ⟨hwriter, h.1, (Option.some.inj h.2).symm⟩

theorem moves_of_readLength (h : c.readLength = some c') : Moves setup c true c' := by
  unfold Conn.readLength at h
  split at h
  · rename_i hi lo rest hreader hunread
    simp only at h
    split at h
    · cases h
      exact .zero hreader hunread
    · rename_i hn
      cases h
      exact .length hreader hunread fun hzero => hn (Or.inl hzero)
  · cases h

theorem moves_of_readBody {gate : Gate} {now : ℤ} (h : c.readBody setup gate now = some c') :
    Moves setup c true c' := by
  unfold Conn.readBody at h
  split at h
  · rename_i n hreader
    split at h
    · rename_i hn
      simp only at h
      split at h
      · split at h
        · rename_i hempty
          cases h
          exact .unheard hreader hn (List.isEmpty_iff.1 hempty)
        · rename_i hempty
          cases h
          exact .refused hreader hn fun hnil => hempty (List.isEmpty_iff.2 hnil)
      · cases h
        exact .allowed hreader hn
    · cases h
  · cases h

theorem moves_of_stopReading (h : c.stopReading = some c') : Moves setup c false c' := by
  unfold Conn.stopReading at h
  split at h
  · rename_i hreader
    cases h
    exact .stop (Or.inl hreader)
  · rename_i n hreader
    cases h
    exact .stop (Or.inr ⟨n, hreader⟩)
  · cases h

theorem moves_of_sendRefused (h : c.sendRefused = some c') : Moves setup c true c' := by
  unfold Conn.sendRefused at h
  split at h
  · rename_i k answer hreader
    obtain ⟨d, hsend, rfl⟩ := Option.map_eq_some_iff.1 h
    rcases send_cases hsend with ⟨hwriter, rfl⟩ | ⟨hwriter, hroom, rfl⟩
    · rw [if_pos hwriter]
      exact .refusalLost hreader hwriter
    · rw [if_neg hwriter]
      exact .refusal hreader hwriter hroom
  · cases h

theorem moves_of_takeSlot (h : c.takeSlot = some c') : Moves setup c true c' := by
  unfold Conn.takeSlot at h
  split at h
  · rename_i k raw hreader
    split at h
    · rename_i hslot
      simp only at h
      split at h
      · rename_i hfree
        cases h
        exact .shed hreader hfree hslot
      · rename_i hfree
        cases h
        exact .spawn hreader hfree hslot
    · cases h
  · cases h

theorem moves_of_resolved {k : ℕ} (h : c.resolved setup k = some c') : Moves setup c true c' := by
  unfold Conn.resolved at h
  split at h
  · rename_i raw htask
    simp only at h
    split at h
    · rename_i hempty
      cases h
      exact .silent htask (List.isEmpty_iff.1 hempty)
    · rename_i hempty
      cases hhandle : setup.handle k raw with
      | none => simp [hhandle] at hempty
      | some answer =>
        rw [hhandle] at h hempty
        cases h
        exact .resolved htask hhandle fun hnil => hempty (List.isEmpty_iff.2 hnil)
  · cases h

theorem moves_of_sendAnswer {k : ℕ} (h : c.sendAnswer k = some c') : Moves setup c true c' := by
  unfold Conn.sendAnswer at h
  split at h
  · rename_i answer htask
    rcases send_cases h with ⟨hwriter, rfl⟩ | ⟨hwriter, hroom, rfl⟩
    · exact .sendLost htask hwriter
    · exact .send htask hwriter hroom
  · cases h

theorem moves_of_shutdown (h : c.shutdown = some c') : Moves setup c true c' := by
  unfold Conn.shutdown at h
  split at h
  · rename_i hwriter hreader hchannel
    split at h
    · rename_i htasks
      cases h
      exact .shutdown hwriter hreader hchannel (List.isEmpty_iff.1 htasks)
    · cases h
  · cases h

/-- Every step is one of them. -/
theorem moves_of_step {a : Action} (h : step setup c a = some c') : Moves setup c a.own c' := by
  cases a with
  | arrive bs =>
    cases h
    exact .arrive bs
  | clientReads n =>
    cases h
    exact .clientReads n
  | readLength => exact moves_of_readLength h
  | readBody gate now => exact moves_of_readBody h
  | stopReading => exact moves_of_stopReading h
  | sendRefused => exact moves_of_sendRefused h
  | takeSlot => exact moves_of_takeSlot h
  | resolved k => exact moves_of_resolved h
  | sendAnswer k => exact moves_of_sendAnswer h
  | receive =>
    simp only [step, Conn.receive] at h
    split at h
    · rename_i k answer rest hwriter hchannel
      cases h
      exact .receive hwriter hchannel
    · cases h
  | write =>
    simp only [step, Conn.write] at h
    split at h
    · rename_i k answer hwriter
      obtain ⟨htakes, heq⟩ := Option.ite_none_right_eq_some.1 h
      cases heq
      exact .write hwriter htakes
    · cases h
  | writeFail n =>
    simp only [step, Conn.writeFail] at h
    split at h
    · rename_i k answer hwriter
      obtain ⟨-, heq⟩ := Option.ite_none_right_eq_some.1 h
      cases heq
      exact .writeFail n hwriter
    · cases h
  | shutdown => exact moves_of_shutdown h
  | othersTake =>
    simp only [step] at h
    split at h
    · cases h
    · rename_i hfree
      cases h
      exact .othersTake hfree
  | othersGive =>
    simp only [step] at h
    split at h
    · cases h
    · rename_i hothers
      cases h
      exact .othersGive hothers

end Ferrite.Secure.Dot
