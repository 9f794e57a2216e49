import Ferrite.Lib.Frames
import Ferrite.Lib.Lts
import Ferrite.Lib.Table
import Ferrite.Core.Wire

/-!
# Pooled connections to an upstream

`upstream/src/stream.rs` and `upstream/src/plain.rs`: queries over streams that are kept for
the next query, and over datagrams with a stream behind them for answers that do not fit.
Any number of calls run at once, each a thread of the places between its awaits; the server
at the other end answers each complete query at most once, at any later time, or closes.

On a stream nothing but the order ties an answer to its query.  What makes that enough is
that a connection has one holder, the pool or a call (`Inv.unique`), and that a connection
the pool holds, or one a call is about to write to, has nothing to come any more (`Clean`):
so what is read after a query was written is the answer to it (`Awaiting`).
-/

namespace Ferrite.Upstream.Streams

open Frames

/-! ## One exchange -/

/-- `MAX_IDLE`. -/
def maxIdle : ℕ := 4

/-- `IDLE_TTL`, in nanoseconds. -/
def idleTtl : ℕ := 10 * 10 ^ 9

/-- `MAX_UDP_SIZE`. -/
def maxUdpSize : ℕ := 4096

/-- Why a call failed. -/
inductive Failure where
  | queryTooLarge
  | io
  | connect
  | udp
  | mismatch
  | givenUp
deriving DecidableEq, Repr

/-- `is_truncated`. -/
def isTruncated (raw : Bytes) : Bool := 3 ≤ raw.length && raw.byteAt 2 &&& 0b00000010 != 0

/-- `response_matches_query`. -/
def responseMatchesQuery (query response : Bytes) : Bool :=
  if query.length < 12 || response.length < 12 then false
  else if query.take 2 ≠ response.take 2 then false
  else if response.byteAt 2 &&& 0b10000000 = 0 then false
  else if (query.drop 4).take 2 ≠ (response.drop 4).take 2 then false
  else
    match Wire.questionEnd query with
    | some stop =>
      stop ≤ response.length &&
        (query.drop 12).take (stop - 12) == (response.drop 12).take (stop - 12)
    | none => true

/-- The client's own ID, as `resolve_raw` keeps it. -/
def clientId (raw : Bytes) : Bytes := if 2 ≤ raw.length then raw.take 2 else [0, 0]

/-- The answer as `resolve_raw` hands it back, with the client's ID. -/
def restoreId (raw response : Bytes) : Bytes :=
  if 2 ≤ response.length then response.overwrite 0 (clientId raw) else response

/-! ## The parties -/

/-- A connection: what was written to it and by whom, which of the complete queries the
server has answered, in its order, and what of that is still to be read. -/
structure Conn where
  sent : Bytes
  writers : List ℕ
  answers : List (ℕ × Bytes)
  unread : Bytes
  closed : Bool

namespace Conn

/-- A connection just opened. -/
def fresh : Conn := ⟨[], [], [], [], false⟩

/-- Which of the queries have been answered. -/
def answered (c : Conn) : List ℕ := c.answers.map Prod.fst

end Conn

/-- Where a call is. -/
inductive Phase where
  /-- `send_udp`, waiting for a datagram. -/
  | udp
  /-- About to look for a warm connection. -/
  | take
  | connect
  | write (c : ℕ) (warm : Bool)
  | read (c : ℕ) (warm : Bool)
  /-- An answer in hand, the connection not yet given back. -/
  | put (c : ℕ) (response : Bytes)
  | done (result : Except Failure Bytes)

/-- The connection a call holds. -/
def Phase.conn : Phase → Option ℕ
  | write c _ => some c
  | read c _ => some c
  | put c _ => some c
  | _ => none

/-- A call of `exchange`, or of `resolve_raw` with the random ID it drew. -/
structure Call where
  raw : Bytes
  txid : Option UInt16
  phase : Phase

namespace Call

/-- What is sent to the server. -/
def query (k : Call) : Bytes :=
  match k.txid with
  | none => k.raw
  | some id => Wire.setId k.raw id

/-- What the caller gets for a response. -/
def finish (k : Call) (response : Bytes) : Bytes :=
  match k.txid with
  | none => response
  | some _ => restoreId k.raw response

/-- A warm connection that failed is replaced by a fresh one; a fresh one that failed is the
end. -/
def failed (warm : Bool) (why : Failure) : Phase := if warm then .connect else .done (.error why)

end Call

/-- A pool, the connections ever opened for it, and the calls. -/
structure World where
  conns : ℕ → Conn
  opened : ℕ
  /-- The idle connections and since when, the newest first. -/
  idle : List (ℕ × ℕ)
  calls : Table ℕ Call

namespace World

/-- Nothing has happened yet. -/
def init : World := ⟨fun _ => .fresh, 0, [], ∅⟩

/-- The call is now at the given place. -/
def goTo (w : World) (k : ℕ) (call : Call) (phase : Phase) : World :=
  { w with calls := w.calls.insert k { call with phase := phase } }

def setConn (w : World) (c : ℕ) (conn : Conn) : World :=
  { w with conns := Function.update w.conns c conn }

end World

/-- `take_idle`: the newest connection that has not aged out; expired ones are dropped. -/
def takeIdle (now : ℕ) : List (ℕ × ℕ) → Option ℕ × List (ℕ × ℕ)
  | [] => (none, [])
  | (c, since) :: idle => if now - since < idleTtl then (some c, idle) else takeIdle now idle

/-- `put_idle`: a full pool drops the connection. -/
def putIdle (now c : ℕ) (idle : List (ℕ × ℕ)) : List (ℕ × ℕ) :=
  if idle.length < maxIdle then (c, now) :: idle else idle

/-! ## The steps -/

/-- One step of a call or of the server. -/
inductive Action where
  | exchange (k : ℕ) (raw : Bytes)
  | resolveRaw (k : ℕ) (raw : Bytes) (txid : UInt16)
  | udpFail (k : ℕ)
  | datagram (k : ℕ) (data : Bytes)
  | takeIdle (k now : ℕ)
  | connect (k : ℕ)
  | connectFail (k : ℕ)
  | write (k : ℕ)
  /-- A timeout or an error after `n` bytes of the frame. -/
  | writeFail (k n : ℕ)
  | read (k : ℕ)
  | readFail (k : ℕ)
  | putIdle (k now : ℕ)
  /-- The caller gives the call up. -/
  | cancel (k : ℕ)
  /-- The server answers the `i`th query it got on the connection. -/
  | answer (c i : ℕ) (response : Bytes)
  | close (c : ℕ)

/-- One step of `exchange` and `resolve_raw`, for a call at its place. -/
def stepCall (w : World) (k : ℕ) (call : Call) (a : Action) : Option World :=
  match a, call.phase with
  | .udpFail _, .udp => some (w.goTo k call (.done (.error .udp)))
  | .datagram _ data, .udp =>
    let response := data.take maxUdpSize
    if !responseMatchesQuery call.query response then
      some (w.goTo k call (.done (.error .mismatch)))
    else if isTruncated response then some (w.goTo k call .take)
    else some (w.goTo k call (.done (.ok (call.finish response))))
  | .takeIdle _ now, .take =>
    let (found, idle) := takeIdle now w.idle
    match found with
    | some c => some ({ w with idle := idle }.goTo k call (.write c true))
    | none => some ({ w with idle := idle }.goTo k call .connect)
  | .connect _, .connect =>
    some ({ w.setConn w.opened .fresh with opened := w.opened + 1 }.goTo k call
      (.write w.opened false))
  | .connectFail _, .connect => some (w.goTo k call (.done (.error .connect)))
  | .write _, .write c warm =>
    if 65535 < call.query.length then some (w.goTo k call (Call.failed warm .queryTooLarge))
    else
      let conn := w.conns c
      some ((w.setConn c { conn with
        sent := conn.sent ++ frame call.query, writers := conn.writers ++ [k] }).goTo k call
          (.read c warm))
  | .writeFail _ n, .write c warm =>
    let conn := w.conns c
    some ((w.setConn c { conn with
      sent := conn.sent ++ (frame call.query).take n
      writers := if (frame call.query).length ≤ n then conn.writers ++ [k] else conn.writers }).goTo
        k call (Call.failed warm .io))
  | .read _, .read c _ =>
    -- nothing happens until a whole frame is there
    (readFrame (w.conns c).unread).map fun r =>
      (w.setConn c { w.conns c with unread := r.2 }).goTo k call (.put c r.1)
  | .readFail _, .read _ warm => some (w.goTo k call (Call.failed warm .io))
  | .putIdle _ now, .put c response =>
    some ({ w with idle := putIdle now c w.idle }.goTo k call (.done (.ok (call.finish response))))
  | .cancel _, .done _ => none
  | .cancel _, _ => some (w.goTo k call (.done (.error .givenUp)))
  | _, _ => none

/-- The call an action is a step of. -/
def Action.caller : Action → Option ℕ
  | exchange _ _ => none
  | resolveRaw _ _ _ => none
  | udpFail k => some k
  | datagram k _ => some k
  | takeIdle k _ => some k
  | connect k => some k
  | connectFail k => some k
  | write k => some k
  | writeFail k _ => some k
  | read k => some k
  | readFail k => some k
  | putIdle k _ => some k
  | cancel k => some k
  | answer _ _ _ => none
  | close _ => none

/-- One step of anybody. -/
def step (w : World) (a : Action) : Option World :=
  match a with
  | .exchange k raw =>
    if w.calls.lookup k = none then some { w with calls := w.calls.insert k ⟨raw, none, .take⟩ }
    else none
  | .resolveRaw k raw txid =>
    if w.calls.lookup k = none then some { w with calls := w.calls.insert k ⟨raw, some txid, .udp⟩ }
    else none
  | .answer c i response =>
    let conn := w.conns c
    if c < w.opened ∧ conn.closed = false ∧ i < (frames conn.sent).length ∧ i ∉ conn.answered ∧
        response.length < 2 ^ 16 then
      some (w.setConn c { conn with
        answers := conn.answers ++ [(i, response)], unread := conn.unread ++ frame response })
    else none
  | .close c => some (w.setConn c { w.conns c with closed := true })
  | a => a.caller.bind fun k => (w.calls.lookup k).bind fun call => stepCall w k call a

/-! ## What a connection has to come -/

/-- Nothing is to come: the connection carried whole frames, the server has answered them
all, and every answer has been read. -/
def Clean (c : Conn) : Prop :=
  ∃ asked : List Bytes, (∀ m ∈ asked, m.length < 2 ^ 16) ∧ c.sent = asked.flatMap frame ∧
    c.writers.length = asked.length ∧ (∀ i, i ∈ c.answered ↔ i < asked.length) ∧ c.unread = []

/-- One query is open, the last one, and it is the call's: its answer is all that is to come,
or all there is to read. -/
def Awaiting (c : Conn) (k : ℕ) (query : Bytes) : Prop :=
  ∃ asked : List Bytes, (∀ m ∈ asked ++ [query], m.length < 2 ^ 16) ∧
    c.sent = (asked ++ [query]).flatMap frame ∧ c.writers.length = asked.length + 1 ∧
    c.writers[asked.length]? = some k ∧
    (((∀ i, i ∈ c.answered ↔ i < asked.length) ∧ c.unread = []) ∨
      ((∀ i, i ∈ c.answered ↔ i < asked.length + 1) ∧
        ∃ a, (asked.length, a) ∈ c.answers ∧ a.length < 2 ^ 16 ∧ c.unread = frame a))

/-- What happens on a connection only adds to it. -/
structure Conn.Le (c c' : Conn) : Prop where
  sent : c.sent <+: c'.sent
  writers : c.writers <+: c'.writers
  answers : c.answers ⊆ c'.answers

theorem Conn.Le.refl (c : Conn) : Conn.Le c c :=
  ⟨List.prefix_refl _, List.prefix_refl _, fun _ h => h⟩

theorem clean_fresh : Clean .fresh :=
  ⟨[], by simp, rfl, rfl, by simp [Conn.answered, Conn.fresh], rfl⟩

/-- A clean connection has no query the server could still answer. -/
theorem Clean.mem_answered {c : Conn} (h : Clean c) {i : ℕ} (hi : i < (frames c.sent).length) :
    i ∈ c.answered := by
  obtain ⟨asked, hlen, hsent, -, hall, -⟩ := h
  rw [hsent, frames_flatMap hlen] at hi
  exact (hall i).2 hi

/-- Writing a query to a clean connection. -/
theorem Clean.write {c : Conn} (h : Clean c) {query : Bytes} (hq : query.length < 2 ^ 16) (k : ℕ) :
    Awaiting { c with sent := c.sent ++ frame query, writers := c.writers ++ [k] } k query := by
  obtain ⟨asked, hlen, hsent, hwriters, hall, hunread⟩ := h
  refine ⟨asked, ?_, ?_, ?_, ?_, Or.inl ⟨hall, hunread⟩⟩
  · intro m hm
    rcases List.mem_append.1 hm with hm | hm
    · exact hlen m hm
    · rw [List.mem_singleton.1 hm]
      exact hq
  · simp [hsent]
  · simp [hwriters]
  · rw [← hwriters]
    simp

/-- The server can answer an awaited query once, and no other. -/
theorem Awaiting.answer {c : Conn} {k : ℕ} {query : Bytes} (h : Awaiting c k query) {i : ℕ}
    {a : Bytes} (hi : i < (frames c.sent).length) (hnew : i ∉ c.answered)
    (ha : a.length < 2 ^ 16) :
    Awaiting { c with answers := c.answers ++ [(i, a)], unread := c.unread ++ frame a } k query := by
  obtain ⟨asked, hlen, hsent, hwriters, hk, hstate⟩ := h
  rw [hsent, frames_flatMap hlen, List.length_append, List.length_singleton] at hi
  rcases hstate with ⟨hall, hunread⟩ | ⟨hall, -⟩
  · have hlast : i = asked.length := by
      have := mt (hall i).2 hnew
      omega
    subst hlast
    refine ⟨asked, hlen, hsent, hwriters, hk, Or.inr ⟨?_, a, by simp, ha, by simp [hunread]⟩⟩
    intro j
    have hj : j ∈ c.answered ∨ j = asked.length ↔ j < asked.length + 1 := by
      rw [hall j]
      omega
    simpa [Conn.answered] using hj
  · exact absurd ((hall i).2 hi) hnew

/-- What is read from an awaited connection is the answer to the call's query, and nothing
is to come after it. -/
theorem Awaiting.read {c : Conn} {k : ℕ} {query a rest : Bytes} (h : Awaiting c k query)
    (hread : readFrame c.unread = some (a, rest)) :
    Clean { c with unread := rest } ∧
      ∃ i, c.writers[i]? = some k ∧ (frames c.sent)[i]? = some query ∧ (i, a) ∈ c.answers := by
  obtain ⟨asked, hlen, hsent, hwriters, hk, hstate⟩ := h
  rcases hstate with ⟨-, hunread⟩ | ⟨hall, a', hmem, ha', hunread⟩
  · rw [hunread] at hread
    simp [readFrame] at hread
  · have hframe : readFrame (frame a') = some (a', []) := by
      simpa using readFrame_frame ha' []
    rw [hunread, hframe] at hread
    obtain ⟨rfl, rfl⟩ := Prod.mk.inj (Option.some.inj hread)
    refine ⟨⟨asked ++ [query], hlen, hsent, by simpa using hwriters,
      by simpa [Conn.answered] using hall, rfl⟩,
      asked.length, hk, ?_, hmem⟩
    rw [hsent, frames_flatMap hlen, List.getElem?_concat_length]

/-! ## Who holds what -/

/-- The holders of connections: the pool, or a call. -/
inductive Holder where
  | pool
  | call (k : ℕ)
deriving DecidableEq

/-- The connections a holder has. -/
def Holds (w : World) : Holder → ℕ → Prop
  | .pool, c => c ∈ w.idle.map Prod.fst
  | .call k, c => ∃ call, w.calls.lookup k = some call ∧ call.phase.conn = some c

/-- On some connection the server answered the call's query with `a`. -/
def Replied (w : World) (k : ℕ) (query a : Bytes) : Prop :=
  ∃ c < w.opened, ∃ i, (w.conns c).writers[i]? = some k ∧
    (frames (w.conns c).sent)[i]? = some query ∧ (i, a) ∈ (w.conns c).answers

/-- What a call's result is: what the server answered to its query on a stream, or a
datagram that matches it, with the ID of the client. -/
def Result (w : World) (k : ℕ) (call : Call) (r : Bytes) : Prop :=
  ∃ a, r = call.finish a ∧ (Replied w k call.query a ∨
    call.txid.isSome ∧ responseMatchesQuery call.query a = true)

/-- Only `resolve_raw` waits for a datagram, and a call of it that got past that has a whole
header. -/
def Vetted (call : Call) : Prop :=
  match call.phase with
  | .udp => call.txid.isSome
  | .done (.error _) => True
  | _ => call.txid.isSome → 12 ≤ call.raw.length

/-- What is known of a call at its place. -/
def CallOk (w : World) (k : ℕ) (call : Call) : Prop :=
  Vetted call ∧ match call.phase with
  | .write c _ => Clean (w.conns c)
  | .read c _ => Awaiting (w.conns c) k call.query
  | .put c a => Clean (w.conns c) ∧ Replied w k call.query a
  | .done (.ok r) => Result w k call r
  | _ => True

/-- The invariant: a connection has one holder, what the pool holds is clean, and every call
is in order. -/
structure Inv (w : World) : Prop where
  nodup : (w.idle.map Prod.fst).Nodup
  unique : ∀ o o' c, Holds w o c → Holds w o' c → o = o'
  lt : ∀ o c, Holds w o c → c < w.opened
  clean : ∀ c ∈ w.idle.map Prod.fst, Clean (w.conns c)
  calls : ∀ k call, w.calls.lookup k = some call → CallOk w k call
  short : w.idle.length ≤ maxIdle

theorem inv_init : Inv .init where
  nodup := List.nodup_nil
  unique o o' c h _ := by
    cases o with
    | pool => simp [Holds, World.init] at h
    | call k =>
      obtain ⟨call, h, -⟩ := h
      simp [World.init] at h
  lt o c h := by
    cases o with
    | pool => simp [Holds, World.init] at h
    | call k =>
      obtain ⟨call, h, -⟩ := h
      simp [World.init] at h
  clean c h := by simp [World.init] at h
  calls k call h := by simp [World.init] at h
  short := by simp [World.init]

/-! ## Steps keep it -/

/-- Connections are only opened and added to. -/
structure World.Le (w w' : World) : Prop where
  opened : w.opened ≤ w'.opened
  conns : ∀ c < w.opened, Conn.Le (w.conns c) (w'.conns c)

theorem getElem?_of_prefix {A : Type} {l l' : List A} (h : l <+: l') {i : ℕ} {x : A}
    (hx : l[i]? = some x) : l'[i]? = some x := by
  obtain ⟨t, rfl⟩ := h
  rw [List.getElem?_append_left (List.getElem?_eq_some_iff.1 hx).1]
  exact hx

theorem Replied.mono {w w' : World} (h : World.Le w w') {k : ℕ} {query a : Bytes}
    (hr : Replied w k query a) : Replied w' k query a := by
  obtain ⟨c, hc, i, hk, hq, ha⟩ := hr
  have hle := h.conns c hc
  refine ⟨c, hc.trans_le h.opened, i, ?_, ?_, hle.answers ha⟩
  · exact getElem?_of_prefix hle.writers hk
  · obtain ⟨t, ht⟩ := hle.sent
    rw [← ht]
    exact getElem?_of_prefix (frames_append_extends _ t) hq

theorem Result.mono {w w' : World} (h : World.Le w w') {k : ℕ} {call : Call} {r : Bytes}
    (hr : Result w k call r) : Result w' k call r := by
  obtain ⟨a, hfinish, hreply | hudp⟩ := hr
  · exact ⟨a, hfinish, Or.inl (hreply.mono h)⟩
  · exact ⟨a, hfinish, Or.inr hudp⟩

/-- What happened to the connection is no matter for who has it. -/
def Keeps (c c' : Conn) : Prop :=
  (Clean c → Clean c') ∧ ∀ k query, Awaiting c k query → Awaiting c' k query

theorem keeps_of_eq {c c' : Conn} (h : c' = c) : Keeps c c' := by
  subst h
  exact ⟨id, fun _ _ => id⟩

/-- A call whose connection is as good as it was stays in order. -/
theorem CallOk.mono {w w' : World} (h : World.Le w w') {k : ℕ} {call : Call}
    (hok : CallOk w k call)
    (hconn : ∀ c, call.phase.conn = some c → Keeps (w.conns c) (w'.conns c)) :
    CallOk w' k call := by
  obtain ⟨hvetted, hok⟩ := hok
  refine ⟨hvetted, ?_⟩
  cases hphase : call.phase with
  | udp => trivial
  | take => trivial
  | connect => trivial
  | write c warm =>
    rw [hphase] at hok hconn
    exact (hconn c rfl).1 hok
  | read c warm =>
    rw [hphase] at hok hconn
    exact (hconn c rfl).2 k call.query hok
  | put c a =>
    rw [hphase] at hok hconn
    exact ⟨(hconn c rfl).1 hok.1, hok.2.mono h⟩
  | done result =>
    rw [hphase] at hok
    cases result with
    | error e => trivial
    | ok r => exact Result.mono h hok

/-- **What a step of a call has to do.**  It puts the call somewhere else; the connections
the call then has were its own, the pool's or nobody's, and those it gives the pool were its
own; connections of others are left alone. -/
theorem Inv.move {w w' : World} (h : Inv w) {k : ℕ} {call : Call}
    (hcalls : w'.calls = w.calls.insert k call) (hle : World.Le w w')
    (hothers : ∀ o c, o ≠ .call k → Holds w o c → w'.conns c = w.conns c)
    (hidle : ∀ c ∈ w'.idle.map Prod.fst, Holds w .pool c ∨ Holds w (.call k) c)
    (hnodup : (w'.idle.map Prod.fst).Nodup) (hshort : w'.idle.length ≤ maxIdle)
    (hclean : ∀ c ∈ w'.idle.map Prod.fst, Clean (w'.conns c))
    (hconn : ∀ c, call.phase.conn = some c → c ∉ w'.idle.map Prod.fst ∧ c < w'.opened ∧
      (Holds w (.call k) c ∨ Holds w .pool c ∨ w.opened ≤ c))
    (hok : CallOk w' k call) : Inv w' := by
  -- where a connection was before the step
  have hother : ∀ k' c, k' ≠ k → Holds w' (.call k') c → Holds w (.call k') c := by
    rintro k' c hne ⟨call', hcall', hphase⟩
    rw [hcalls, Table.lookup_insert_eq, if_neg hne] at hcall'
    exact ⟨call', hcall', hphase⟩
  have hself : ∀ c, Holds w' (.call k) c → call.phase.conn = some c := by
    rintro c ⟨call', hcall', hphase⟩
    rw [hcalls, Table.lookup_insert_eq, if_pos rfl] at hcall'
    exact Option.some.inj hcall' ▸ hphase
  -- a connection of another call is neither the pool's nor this call's afterwards
  have hclash : ∀ k' c, k' ≠ k → Holds w' (.call k') c →
      ¬ Holds w' .pool c ∧ ¬ Holds w' (.call k) c := by
    intro k' c hne hk'
    have hold := hother k' c hne hk'
    have hnotPool : ¬ Holds w .pool c := fun hp => by cases h.unique _ _ c hold hp
    have hnotSelf : ¬ Holds w (.call k) c := fun hs => by
      cases h.unique _ _ c hold hs
      exact hne rfl
    constructor
    · intro hp
      exact (hidle c hp).elim hnotPool hnotSelf
    · intro hs
      rcases (hconn c (hself c hs)).2.2 with hs' | hp' | hfresh
      · exact hnotSelf hs'
      · exact hnotPool hp'
      · exact absurd (h.lt _ c hold) (not_lt.2 hfresh)
  have hpool : ∀ c, Holds w' (.call k) c → ¬ Holds w' .pool c := fun c hs =>
    (hconn c (hself c hs)).1
  refine ⟨hnodup, ?_, ?_, hclean, ?_, hshort⟩
  · intro o o' c ho ho'
    cases o with
    | pool =>
      cases o' with
      | pool => rfl
      | call k' =>
        by_cases hk' : k' = k
        · subst hk'
          exact absurd ho (hpool c ho')
        · exact absurd ho (hclash k' c hk' ho').1
    | call k₁ =>
      cases o' with
      | pool =>
        by_cases hk₁ : k₁ = k
        · subst hk₁
          exact absurd ho' (hpool c ho)
        · exact absurd ho' (hclash k₁ c hk₁ ho).1
      | call k₂ =>
        by_cases hk₁ : k₁ = k
        · by_cases hk₂ : k₂ = k
          · rw [hk₁, hk₂]
          · exact absurd (hk₁ ▸ ho) (hclash k₂ c hk₂ ho').2
        · by_cases hk₂ : k₂ = k
          · exact absurd (hk₂ ▸ ho') (hclash k₁ c hk₁ ho).2
          · exact h.unique _ _ c (hother k₁ c hk₁ ho) (hother k₂ c hk₂ ho')
  · intro o c ho
    cases o with
    | pool => exact ((hidle c ho).elim (h.lt _ c) (h.lt _ c)).trans_le hle.opened
    | call k' =>
      by_cases hk' : k' = k
      · subst hk'
        exact (hconn c (hself c ho)).2.1
      · exact (h.lt _ c (hother k' c hk' ho)).trans_le hle.opened
  · intro k' call' hcall'
    by_cases hk' : k' = k
    · subst hk'
      rw [hcalls, Table.lookup_insert_eq, if_pos rfl] at hcall'
      exact Option.some.inj hcall' ▸ hok
    · rw [hcalls, Table.lookup_insert_eq, if_neg hk'] at hcall'
      refine (h.calls k' call' hcall').mono hle fun c hc => keeps_of_eq ?_
      exact hothers (.call k') c (fun heq => hk' (Holder.call.inj heq)) ⟨call', hcall', hc⟩

/-- A call that goes on without a connection. -/
theorem Inv.release {w : World} (h : Inv w) {k : ℕ} {call : Call} (hconn : call.phase.conn = none)
    (hok : CallOk { w with calls := w.calls.insert k call } k call) :
    Inv { w with calls := w.calls.insert k call } := by
  refine h.move rfl ⟨le_refl _, fun _ _ => Conn.Le.refl _⟩ (fun _ _ _ _ => rfl)
    (fun c hc => Or.inl hc) h.nodup h.short h.clean (fun c hc => ?_) hok
  rw [hconn] at hc
  cases hc

theorem Holds.pool_ne {w : World} (h : Inv w) {k c c' : ℕ} (hk : Holds w (.call k) c)
    (hc' : c' ∈ w.idle.map Prod.fst) : c' ≠ c := by
  rintro rfl
  cases h.unique (.call k) .pool c' hk hc'

theorem World.Le.setConn {w : World} {c : ℕ} {conn : Conn} (hconn : Conn.Le (w.conns c) conn)
    (k : ℕ) (call : Call) (phase : Phase) : World.Le w ((w.setConn c conn).goTo k call phase) := by
  refine ⟨le_refl _, fun c' _ => ?_⟩
  show Conn.Le _ (Function.update w.conns c conn c')
  by_cases hc : c' = c
  · subst hc
    rw [Function.update_self]
    exact hconn
  · rw [Function.update_of_ne hc]
    exact Conn.Le.refl _

/-- A call that adds to the connection it has, and keeps it or drops it. -/
theorem Inv.touch {w : World} (h : Inv w) {k : ℕ} {call : Call}
    (hcall : w.calls.lookup k = some call) {c : ℕ} (hc : call.phase.conn = some c) {conn : Conn}
    (hle : Conn.Le (w.conns c) conn) {phase : Phase}
    (hphase : ∀ c', phase.conn = some c' → c' = c)
    (hok : CallOk ((w.setConn c conn).goTo k call phase) k { call with phase := phase }) :
    Inv ((w.setConn c conn).goTo k call phase) := by
  have hholds : Holds w (.call k) c := ⟨call, hcall, hc⟩
  have hsame : ∀ c', c' ≠ c → ((w.setConn c conn).goTo k call phase).conns c' = w.conns c' :=
    fun c' hne => Function.update_of_ne hne ..
  refine h.move rfl (World.Le.setConn hle k call phase) ?_ (fun c hc => Or.inl hc) h.nodup h.short
    ?_ ?_ hok
  · intro o c' ho hc'
    refine hsame c' ?_
    rintro rfl
    exact ho (h.unique _ _ c' hc' hholds)
  · intro c' hc'
    rw [hsame c' (Holds.pool_ne h hholds hc')]
    exact h.clean c' hc'
  · intro c' hc'
    obtain rfl := hphase c' hc'
    exact ⟨fun hpool => Holds.pool_ne h hholds hpool rfl, h.lt _ c' hholds, Or.inl hholds⟩

/-- What `take_idle` leaves is in the order it was, and what it gives is not in it. -/
theorem takeIdle_sublist (now : ℕ) (idle : List (ℕ × ℕ)) :
    (takeIdle now idle).2.Sublist idle ∧ ∀ c, (takeIdle now idle).1 = some c →
      ∃ since, ((c, since) :: (takeIdle now idle).2).Sublist idle := by
  induction idle with
  | nil => exact ⟨List.Sublist.slnil, by simp [takeIdle]⟩
  | cons e idle ih =>
    obtain ⟨c, since⟩ := e
    rw [takeIdle]
    split
    · refine ⟨List.sublist_cons_self .., ?_⟩
      rintro c' ⟨⟩
      exact ⟨since, List.Sublist.refl _⟩
    · refine ⟨ih.1.cons _, fun c' hc' => ?_⟩
      obtain ⟨since', hsub⟩ := ih.2 c' hc'
      exact ⟨since', hsub.cons _⟩

theorem Inv.takeIdle {w : World} (h : Inv w) {k : ℕ} {call : Call} {now : ℕ}
    (hvetted : call.txid.isSome → 12 ≤ call.raw.length) {found : Option ℕ} {idle : List (ℕ × ℕ)}
    (htake : Streams.takeIdle now w.idle = (found, idle)) :
    Inv ({ w with idle := idle }.goTo k call
      (match found with | some c => .write c true | none => .connect)) := by
  obtain ⟨hsub, hfound⟩ := takeIdle_sublist now w.idle
  rw [htake] at hsub hfound
  have hmem : ∀ c ∈ idle.map Prod.fst, c ∈ w.idle.map Prod.fst := fun c hc =>
    (hsub.map Prod.fst).subset hc
  refine h.move rfl ⟨le_refl _, fun _ _ => Conn.Le.refl _⟩ (fun _ _ _ _ => rfl)
    (fun c hc => Or.inl (hmem c hc)) (h.nodup.sublist (hsub.map _)) (hsub.length_le.trans h.short)
    (fun c hc => h.clean c (hmem c hc)) ?_ ?_
  · intro c hc
    cases found with
    | none => cases hc
    | some c' =>
      obtain rfl : c' = c := Option.some.inj hc
      obtain ⟨since, hsub'⟩ := hfound c' rfl
      have hpool : Holds w .pool c' := (hsub'.map Prod.fst).subset (List.mem_cons_self ..)
      have hnodup := h.nodup.sublist (hsub'.map Prod.fst)
      exact ⟨(List.nodup_cons.1 hnodup).1, h.lt _ c' hpool, Or.inr (Or.inl hpool)⟩
  · cases found with
    | none => exact ⟨hvetted, trivial⟩
    | some c' =>
      obtain ⟨since, hsub'⟩ := hfound c' rfl
      exact ⟨hvetted, h.clean c' ((hsub'.map Prod.fst).subset (List.mem_cons_self ..))⟩

theorem Inv.connect {w : World} (h : Inv w) {k : ℕ} {call : Call}
    (hvetted : call.txid.isSome → 12 ≤ call.raw.length) :
    Inv ({ w.setConn w.opened .fresh with opened := w.opened + 1 }.goTo k call
      (.write w.opened false)) := by
  have hsame : ∀ c < w.opened, Function.update w.conns w.opened Conn.fresh c = w.conns c :=
    fun c hc => Function.update_of_ne hc.ne ..
  refine h.move rfl ⟨Nat.le_succ _, fun c hc => ?_⟩ ?_ (fun c hc => Or.inl hc) h.nodup h.short ?_ ?_ ?_
  · show Conn.Le _ (Function.update w.conns w.opened Conn.fresh c)
    rw [hsame c hc]
    exact Conn.Le.refl _
  · exact fun o c _ hc => hsame c (h.lt o c hc)
  · intro c hc
    show Clean (Function.update w.conns w.opened Conn.fresh c)
    rw [hsame c (h.lt .pool c hc)]
    exact h.clean c hc
  · rintro c ⟨⟩
    exact ⟨fun hc => lt_irrefl _ (h.lt .pool _ hc), Nat.lt_succ_self _, Or.inr (Or.inr (le_refl _))⟩
  · refine ⟨hvetted, ?_⟩
    show Clean (Function.update w.conns w.opened Conn.fresh w.opened)
    rw [Function.update_self]
    exact clean_fresh

theorem Inv.putIdle {w : World} (h : Inv w) {k : ℕ} {call : Call}
    (hcall : w.calls.lookup k = some call) {c : ℕ} {response : Bytes}
    (hphase : call.phase = .put c response) (now : ℕ) :
    Inv ({ w with idle := putIdle now c w.idle }.goTo k call
      (.done (.ok (call.finish response)))) := by
  have hholds : Holds w (.call k) c := ⟨call, hcall, by rw [hphase]; rfl⟩
  obtain ⟨hvetted, hok⟩ := h.calls k call hcall
  rw [Vetted, hphase] at hvetted
  rw [hphase] at hok
  obtain ⟨hclean, hreplied⟩ := hok
  have hidle : ∀ c' ∈ (Streams.putIdle now c w.idle).map Prod.fst,
      c' ∈ w.idle.map Prod.fst ∨ c' = c := by
    intro c' hc'
    unfold Streams.putIdle at hc'
    split at hc'
    · exact (List.mem_cons.1 hc').symm
    · exact Or.inl hc'
  refine h.move rfl ⟨le_refl _, fun _ _ => Conn.Le.refl _⟩ (fun _ _ _ _ => rfl) ?_ ?_ ?_ ?_ ?_ ?_
  · intro c' hc'
    rcases hidle c' hc' with hc' | rfl
    · exact Or.inl hc'
    · exact Or.inr hholds
  · show ((Streams.putIdle now c w.idle).map Prod.fst).Nodup
    unfold Streams.putIdle
    split
    · exact List.nodup_cons.2 ⟨fun hc => Holds.pool_ne h hholds hc rfl, h.nodup⟩
    · exact h.nodup
  · show (Streams.putIdle now c w.idle).length ≤ maxIdle
    unfold Streams.putIdle
    split
    · next hlt => exact hlt
    · exact h.short
  · intro c' hc'
    rcases hidle c' hc' with hc' | rfl
    · exact h.clean c' hc'
    · exact hclean
  · rintro c' ⟨⟩
  · exact ⟨hvetted, response, rfl, Or.inl hreplied⟩

theorem failed_conn (warm : Bool) (why : Failure) : (Call.failed warm why).conn = none := by
  cases warm <;> rfl

/-- A call that failed on a connection goes on without it. -/
theorem callOk_failed {w : World} {k : ℕ} {call : Call} {warm : Bool} {why : Failure}
    (hvetted : call.txid.isSome → 12 ≤ call.raw.length) :
    CallOk w k { call with phase := Call.failed warm why } := by
  cases warm with
  | true => exact ⟨hvetted, trivial⟩
  | false => exact ⟨trivial, trivial⟩

theorem le_setId (raw : Bytes) (id : UInt16) : (Wire.setId raw id).length = raw.length := by
  unfold Wire.setId
  split
  · exact Bytes.length_overwrite ..
  · rfl

theorem length_query (call : Call) : call.query.length = call.raw.length := by
  unfold Call.query
  split
  · rfl
  · exact le_setId ..

theorem le_of_responseMatchesQuery {query response : Bytes}
    (h : responseMatchesQuery query response = true) : 12 ≤ query.length := by
  unfold responseMatchesQuery at h
  split at h
  · cases h
  · next hlen =>
    simp only [Bool.or_eq_true, decide_eq_true_eq, not_or, not_lt] at hlen
    exact hlen.1

/-- A datagram that matches is the result, or sends the call to the pool. -/
theorem Inv.datagram {w : World} (h : Inv w) {k : ℕ} {call : Call}
    (hcall : w.calls.lookup k = some call) (hphase : call.phase = .udp) {response : Bytes}
    (hmatch : responseMatchesQuery call.query response = true) :
    Inv (w.goTo k call .take) ∧ Inv (w.goTo k call (.done (.ok (call.finish response)))) := by
  have hvetted := (h.calls k call hcall).1
  rw [Vetted, hphase] at hvetted
  have hlen : 12 ≤ call.raw.length := length_query call ▸ le_of_responseMatchesQuery hmatch
  exact ⟨h.release rfl ⟨fun _ => hlen, trivial⟩,
    h.release rfl ⟨fun _ => hlen, response, rfl, Or.inr ⟨hvetted, hmatch⟩⟩⟩

theorem Vetted.header {call : Call} (h : Vetted call) {c : ℕ} (hc : call.phase.conn = some c) :
    call.txid.isSome → 12 ≤ call.raw.length := by
  unfold Vetted at h
  cases hphase : call.phase with
  | write c warm => rwa [hphase] at h
  | read c warm => rwa [hphase] at h
  | put c a => rwa [hphase] at h
  | udp => simp [hphase, Phase.conn] at hc
  | take => simp [hphase, Phase.conn] at hc
  | connect => simp [hphase, Phase.conn] at hc
  | done r => simp [hphase, Phase.conn] at hc

/-- A call that reads its answer. -/
theorem Inv.read {w : World} (h : Inv w) {k : ℕ} {call : Call}
    (hcall : w.calls.lookup k = some call) {c : ℕ} {warm : Bool}
    (hphase : call.phase = .read c warm) {a rest : Bytes}
    (hread : readFrame (w.conns c).unread = some (a, rest)) :
    Inv ((w.setConn c { w.conns c with unread := rest }).goTo k call (.put c a)) := by
  obtain ⟨hvetted, hok⟩ := h.calls k call hcall
  rw [hphase] at hok
  obtain ⟨hclean, i, hk, hq, ha⟩ := Awaiting.read hok hread
  have hc : call.phase.conn = some c := by rw [hphase]; rfl
  have hlt : c < w.opened := h.lt (.call k) c ⟨call, hcall, hc⟩
  have hle : Conn.Le (w.conns c) { w.conns c with unread := rest } :=
    ⟨List.prefix_refl _, List.prefix_refl _, fun _ h => h⟩
  have hconn : ((w.setConn c { w.conns c with unread := rest }).goTo k call (.put c a)).conns c =
      { w.conns c with unread := rest } := Function.update_self ..
  refine h.touch hcall hc hle ?_ ⟨hvetted.header hc, ?_, ?_⟩
  · rintro c' ⟨⟩
    rfl
  · rw [hconn]
    exact hclean
  · refine ⟨c, hlt, i, ?_⟩
    rw [hconn]
    exact ⟨hk, hq, ha⟩

/-- A call that writes its query. -/
theorem Inv.write {w : World} (h : Inv w) {k : ℕ} {call : Call}
    (hcall : w.calls.lookup k = some call) {c : ℕ} {warm : Bool}
    (hphase : call.phase = .write c warm) (hlen : call.query.length < 2 ^ 16) :
    Inv ((w.setConn c { w.conns c with
      sent := (w.conns c).sent ++ frame call.query, writers := (w.conns c).writers ++ [k] }).goTo k
        call (.read c warm)) := by
  obtain ⟨hvetted, hok⟩ := h.calls k call hcall
  rw [hphase] at hok
  have hc : call.phase.conn = some c := by rw [hphase]; rfl
  have hle : Conn.Le (w.conns c) { w.conns c with
      sent := (w.conns c).sent ++ frame call.query, writers := (w.conns c).writers ++ [k] } :=
    ⟨List.prefix_append .., List.prefix_append .., fun _ h => h⟩
  refine h.touch hcall hc hle ?_ ⟨hvetted.header hc, ?_⟩
  · rintro c' ⟨⟩
    rfl
  · show Awaiting (Function.update w.conns c _ c) k call.query
    rw [Function.update_self]
    exact Clean.write hok hlen k

/-- A call whose write broke off drops the connection. -/
theorem Inv.writeFail {w : World} (h : Inv w) {k : ℕ} {call : Call}
    (hcall : w.calls.lookup k = some call) {c : ℕ} {warm : Bool}
    (hphase : call.phase = .write c warm) (sent : Bytes) {writers : List ℕ}
    (hwriters : (w.conns c).writers <+: writers) (why : Failure) :
    Inv ((w.setConn c { w.conns c with
      sent := (w.conns c).sent ++ sent, writers := writers }).goTo k call
        (Call.failed warm why)) := by
  have hc : call.phase.conn = some c := by rw [hphase]; rfl
  have hvetted := (h.calls k call hcall).1.header hc
  have hle : Conn.Le (w.conns c) { w.conns c with
      sent := (w.conns c).sent ++ sent, writers := writers } :=
    ⟨List.prefix_append .., hwriters, fun _ h => h⟩
  refine h.touch hcall hc hle ?_ (callOk_failed hvetted)
  intro c' hc'
  rw [failed_conn] at hc'
  cases hc'

/-- A step of a call keeps the invariant. -/
theorem inv_stepCall {w w' : World} (h : Inv w) {k : ℕ} {call : Call}
    (hcall : w.calls.lookup k = some call) {a : Action} (hstep : stepCall w k call a = some w') :
    Inv w' := by
  have hvetted := (h.calls k call hcall).1
  unfold stepCall at hstep
  split at hstep
  · -- `udpFail`
    obtain rfl := Option.some.inj hstep
    exact h.release rfl ⟨trivial, trivial⟩
  · -- `datagram`
    next hphase =>
    dsimp only at hstep
    split at hstep
    · obtain rfl := Option.some.inj hstep
      exact h.release rfl ⟨trivial, trivial⟩
    · next hmatch =>
      obtain ⟨htake, hdone⟩ := h.datagram hcall hphase (by simpa using hmatch)
      split at hstep
      · exact Option.some.inj hstep ▸ htake
      · exact Option.some.inj hstep ▸ hdone
  · -- `takeIdle`
    next now hphase =>
    rw [Vetted, hphase] at hvetted
    cases htake : takeIdle now w.idle with
    | mk found idle =>
      have hinv := h.takeIdle (k := k) hvetted htake
      rw [htake] at hstep
      cases found with
      | some c => exact Option.some.inj hstep ▸ hinv
      | none => exact Option.some.inj hstep ▸ hinv
  · -- `connect`
    next hphase =>
    rw [Vetted, hphase] at hvetted
    exact Option.some.inj hstep ▸ h.connect hvetted
  · -- `connectFail`
    obtain rfl := Option.some.inj hstep
    exact h.release rfl ⟨trivial, trivial⟩
  · -- `write`
    next c warm hphase =>
    split at hstep
    · obtain rfl := Option.some.inj hstep
      refine h.release (failed_conn ..) (callOk_failed (hvetted.header (c := c) ?_))
      rw [hphase]
      rfl
    · next hlen => exact Option.some.inj hstep ▸ h.write hcall hphase (by omega)
  · -- `writeFail`
    next n c warm hphase =>
    obtain rfl := Option.some.inj hstep
    refine h.writeFail hcall hphase _ ?_ _
    split
    · exact List.prefix_append ..
    · exact List.prefix_refl _
  · -- `read`
    next c warm hphase =>
    obtain ⟨⟨a, rest⟩, hread, rfl⟩ := Option.map_eq_some_iff.1 hstep
    exact h.read hcall hphase hread
  · -- `readFail`
    next c warm hphase =>
    obtain rfl := Option.some.inj hstep
    refine h.release (failed_conn ..) (callOk_failed (hvetted.header (c := c) ?_))
    rw [hphase]
    rfl
  · -- `putIdle`
    next now c response hphase => exact Option.some.inj hstep ▸ h.putIdle hcall hphase now
  · cases hstep
  · -- `cancel`
    obtain rfl := Option.some.inj hstep
    exact h.release rfl ⟨trivial, trivial⟩
  · cases hstep

/-- The server adds to a connection without spoiling it. -/
theorem Inv.server {w : World} (h : Inv w) {c : ℕ} {conn : Conn} (hle : Conn.Le (w.conns c) conn)
    (hkeeps : Keeps (w.conns c) conn) : Inv (w.setConn c conn) := by
  have hconn : ∀ c', Keeps (w.conns c') ((w.setConn c conn).conns c') := by
    intro c'
    show Keeps (w.conns c') (Function.update w.conns c conn c')
    by_cases hc : c' = c
    · subst hc
      rw [Function.update_self]
      exact hkeeps
    · exact keeps_of_eq (Function.update_of_ne hc ..)
  have hworld : World.Le w (w.setConn c conn) := by
    refine ⟨le_refl _, fun c' _ => ?_⟩
    show Conn.Le (w.conns c') (Function.update w.conns c conn c')
    by_cases hc : c' = c
    · subst hc
      rw [Function.update_self]
      exact hle
    · rw [Function.update_of_ne hc]
      exact Conn.Le.refl _
  have hholds : ∀ o c', Holds (w.setConn c conn) o c' → Holds w o c' := by
    intro o c' ho
    cases o <;> exact ho
  exact {
    nodup := h.nodup
    unique := fun o o' c' ho ho' => h.unique o o' c' (hholds o c' ho) (hholds o' c' ho')
    lt := fun o c' ho => h.lt o c' (hholds o c' ho)
    clean := fun c' hc' => (hconn c').1 (h.clean c' hc')
    calls := fun k call hcall => (h.calls k call hcall).mono hworld fun c' _ => hconn c'
    short := h.short }

/-- **Every step keeps the invariant.** -/
theorem inv_step {w w' : World} {a : Action} (h : Inv w) (hstep : step w a = some w') : Inv w' := by
  have hcaller : ∀ b : Action, (b.caller.bind fun k => (w.calls.lookup k).bind fun call =>
      stepCall w k call b) = some w' → Inv w' := by
    intro b hb
    obtain ⟨k, -, hb⟩ := Option.bind_eq_some_iff.1 hb
    obtain ⟨call, hcall, hb⟩ := Option.bind_eq_some_iff.1 hb
    exact inv_stepCall h hcall hb
  unfold step at hstep
  split at hstep
  · -- a new call of `exchange`
    simp only [Option.ite_none_right_eq_some, Option.some.injEq] at hstep
    obtain ⟨-, rfl⟩ := hstep
    exact h.release rfl ⟨by simp [Vetted], trivial⟩
  · -- a new call of `resolve_raw`
    simp only [Option.ite_none_right_eq_some, Option.some.injEq] at hstep
    obtain ⟨-, rfl⟩ := hstep
    exact h.release rfl ⟨by simp [Vetted], trivial⟩
  · -- the server answers
    simp only [Option.ite_none_right_eq_some, Option.some.injEq] at hstep
    obtain ⟨⟨-, -, hi, hnew, hlen⟩, rfl⟩ := hstep
    refine h.server ⟨List.prefix_refl _, List.prefix_refl _, List.subset_append_left ..⟩
      ⟨fun hclean => absurd (hclean.mem_answered hi) hnew, fun k query hawait => ?_⟩
    exact hawait.answer hi hnew hlen
  · -- the server closes
    obtain rfl := Option.some.inj hstep
    exact h.server ⟨List.prefix_refl _, List.prefix_refl _, fun _ h => h⟩ ⟨id, fun _ _ => id⟩
  · exact hcaller _ hstep

theorem inv_exec {as : List Action} {w : World} (h : Lts.exec step .init as = some w) : Inv w :=
  Lts.inv_of_exec_all step (fun _ _ _ => inv_step) inv_init h

/-! ## What a call returns -/

/-- The server has answered every query it got on the connection, and every answer has been
read. -/
def NothingToCome (c : Conn) : Prop :=
  c.unread = [] ∧ ∀ i < (frames c.sent).length, i ∈ c.answered

theorem Clean.nothingToCome {c : Conn} (h : Clean c) : NothingToCome c := by
  refine ⟨?_, fun i hi => h.mem_answered hi⟩
  obtain ⟨asked, -, -, -, -, hunread⟩ := h
  exact hunread

/-- A datagram that answers a query: a response, with the ID that was sent and the question
that was asked. -/
structure Answers (id : UInt16) (query data : Bytes) : Prop where
  header : 12 ≤ data.length
  sameId : data.take 2 = Bytes.ofU16 id
  response : data.byteAt 2 &&& 0b10000000 ≠ 0
  question : ∀ stop, Wire.questionEnd query = some stop →
    stop ≤ data.length ∧ (data.drop 12).take (stop - 12) = (query.drop 12).take (stop - 12)

theorem take_two_overwrite {m : Bytes} (hm : 2 ≤ m.length) (x y : UInt8) :
    (m.overwrite 0 [x, y]).take 2 = [x, y] := by
  obtain ⟨a, b, rest, rfl⟩ : ∃ a b rest, m = a :: b :: rest := by
    match m with
    | a :: b :: rest => exact ⟨a, b, rest, rfl⟩
  simp [Bytes.overwrite, List.mapIdx_cons]

theorem take_two_setId {raw : Bytes} (h : 2 ≤ raw.length) (id : UInt16) :
    (Wire.setId raw id).take 2 = Bytes.ofU16 id := by
  rw [Wire.setId, if_pos h]
  exact take_two_overwrite h _ _

/-- What `response_matches_query` accepts. -/
theorem answers_of_matches {raw data : Bytes} {id : UInt16}
    (h : responseMatchesQuery (Wire.setId raw id) data = true) :
    Answers id (Wire.setId raw id) data := by
  have hraw : 12 ≤ raw.length := le_setId raw id ▸ le_of_responseMatchesQuery h
  unfold responseMatchesQuery at h
  split at h
  · cases h
  next hlen =>
  split at h
  · cases h
  next hid =>
  split at h
  · cases h
  next hqr =>
  split at h
  · cases h
  simp only [Bool.or_eq_true, decide_eq_true_eq, not_or, not_lt] at hlen
  refine ⟨hlen.2, ?_, hqr, ?_⟩
  · rw [← not_not.1 hid]
    exact take_two_setId (by omega) id
  · intro stop hstop
    rw [hstop, Bool.and_eq_true, decide_eq_true_eq, beq_iff_eq] at h
    exact ⟨h.1, h.2.symm⟩

/-- An answer that has room for it carries the client's ID. -/
theorem take_two_restoreId {raw a : Bytes} (hraw : 12 ≤ raw.length)
    (h : 2 ≤ (restoreId raw a).length) : (restoreId raw a).take 2 = raw.take 2 := by
  obtain ⟨x, y, rest, rfl⟩ : ∃ x y rest, raw = x :: y :: rest := by
    match raw with
    | x :: y :: rest => exact ⟨x, y, rest, rfl⟩
  unfold restoreId at h ⊢
  split
  · next hlen => exact take_two_overwrite hlen x y
  · next hlen =>
    rw [if_neg hlen] at h
    exact absurd h hlen

/-- A datagram gets a call further only if it answers. -/
theorem answers_or_refused {w w' : World} {k : ℕ} {call : Call} {id : UInt16} {data : Bytes}
    (hcall : w.calls.lookup k = some call) (hid : call.txid = some id)
    (hstep : step w (.datagram k data) = some w') :
    Answers id (Wire.setId call.raw id) (data.take maxUdpSize) ∨
      ∃ call', w'.calls.lookup k = some call' ∧ call'.phase = .done (.error .mismatch) := by
  have hquery : call.query = Wire.setId call.raw id := by rw [Call.query, hid]
  have hstep : stepCall w k call (.datagram k data) = some w' := by
    simpa [step, Action.caller, hcall] using hstep
  cases hphase : call.phase with
  | udp =>
    simp only [stepCall, hphase] at hstep
    split at hstep
    · obtain rfl := Option.some.inj hstep
      exact Or.inr ⟨_, AList.lookup_insert _, rfl⟩
    · next hmatch =>
      left
      refine answers_of_matches ?_
      rw [← hquery]
      simpa using hmatch
  | take => simp [stepCall, hphase] at hstep
  | connect => simp [stepCall, hphase] at hstep
  | write c warm => simp [stepCall, hphase] at hstep
  | read c warm => simp [stepCall, hphase] at hstep
  | put c a => simp [stepCall, hphase] at hstep
  | done r => simp [stepCall, hphase] at hstep

/-- **An answer belongs to the query it is returned for.**  After any interleaving, what
`exchange` returned is what the server answered to that call's query; a connection that is
idle, or was just handed out, has nothing to come; at most four are idle; what `resolve_raw`
returned is the server's answer on a stream or a datagram that answers, with the client's ID
if it is long enough to have one; and a datagram that does not answer is refused. -/
theorem upstream_answers (as : List Action) (w : World) (h : Lts.exec step .init as = some w) :
    (∀ k call r, w.calls.lookup k = some call → call.phase = .done (.ok r) → call.txid = none →
      Replied w k call.raw r) ∧
    (∀ c ∈ w.idle.map Prod.fst, NothingToCome (w.conns c)) ∧
    (∀ k call c warm, w.calls.lookup k = some call → call.phase = .write c warm →
      NothingToCome (w.conns c)) ∧
    w.idle.length ≤ 4 ∧
    (∀ k call r id, w.calls.lookup k = some call → call.phase = .done (.ok r) →
      call.txid = some id → (2 ≤ r.length → r.take 2 = call.raw.take 2) ∧
        ∃ a, r = restoreId call.raw a ∧
          (Replied w k (Wire.setId call.raw id) a ∨ Answers id (Wire.setId call.raw id) a)) ∧
    ∀ k call id data w', w.calls.lookup k = some call → call.txid = some id →
      step w (.datagram k data) = some w' →
      Answers id (Wire.setId call.raw id) (data.take maxUdpSize) ∨
        ∃ call', w'.calls.lookup k = some call' ∧ call'.phase = .done (.error .mismatch) := by
  have hinv := inv_exec h
  refine ⟨?_, fun c hc => (hinv.clean c hc).nothingToCome, ?_, hinv.short, ?_, ?_⟩
  · intro k call r hcall hphase hplain
    obtain ⟨-, hok⟩ := hinv.calls k call hcall
    rw [hphase] at hok
    obtain ⟨a, rfl, hreplied | ⟨hsome, -⟩⟩ := hok
    · rw [Call.query, hplain] at hreplied
      rw [Call.finish, hplain]
      exact hreplied
    · rw [hplain] at hsome
      cases hsome
  · intro k call c warm hcall hphase
    obtain ⟨-, hok⟩ := hinv.calls k call hcall
    rw [hphase] at hok
    exact Clean.nothingToCome hok
  · intro k call r id hcall hphase hid
    obtain ⟨hvetted, hok⟩ := hinv.calls k call hcall
    rw [Vetted, hphase] at hvetted
    rw [hphase] at hok
    have hraw : 12 ≤ call.raw.length := hvetted (by rw [hid]; rfl)
    have hquery : call.query = Wire.setId call.raw id := by rw [Call.query, hid]
    obtain ⟨a, rfl, hfrom⟩ := hok
    have hfinish : call.finish a = restoreId call.raw a := by rw [Call.finish, hid]
    rw [hquery] at hfrom
    rw [hfinish]
    exact ⟨take_two_restoreId hraw, a, rfl,
      hfrom.imp_right fun hmatch => answers_of_matches hmatch.2⟩
  · intro k call id data w' hcall hid hstep
    exact answers_or_refused hcall hid hstep

/-- Two queries, the second over the connection the first one left. -/
def keptConnection : List Action :=
  [.exchange 0 [1, 2, 3], .takeIdle 0 0, .connect 0, .write 0, .answer 0 0 [9], .read 0,
    .putIdle 0 5, .exchange 1 [4, 5, 6], .takeIdle 1 6, .write 1, .answer 0 1 [8], .read 1,
    .putIdle 1 7]

theorem upstream_answers_keptConnection : ∃ w, Lts.exec step .init keptConnection = some w ∧
    Replied w 0 [1, 2, 3] [9] ∧ Replied w 1 [4, 5, 6] [8] ∧ w.idle = [(0, 7)] ∧
      NothingToCome (w.conns 0) := by
  have hall := upstream_answers keptConnection
  refine ⟨_, rfl, ?_, ?_, rfl, ?_⟩
  · exact (hall _ rfl).1 0 ⟨[1, 2, 3], none, .done (.ok [9])⟩ [9] rfl rfl rfl
  · exact (hall _ rfl).1 1 ⟨[4, 5, 6], none, .done (.ok [8])⟩ [8] rfl rfl rfl
  · exact (hall _ rfl).2.1 0 (List.mem_singleton_self _)

/-- What is missing where an answer is too short: the server answers over TCP with an empty
message, and what comes back has no ID. -/
theorem resolveRaw_without_id :
    ((Lts.exec step .init [.resolveRaw 0 [7, 7, 1, 0, 0, 0, 0, 0, 0, 0, 0, 0] 258,
        .datagram 0 [1, 2, 0x82, 0, 0, 0, 0, 0, 0, 0, 0, 0], .takeIdle 0 0, .connect 0, .write 0,
        .answer 0 0 [], .read 0, .putIdle 0 0]).bind fun w =>
      (w.calls.lookup 0).map fun call => match call.phase with
        | .done (.ok r) => (r, decide (r.take 2 = call.raw.take 2))
        | _ => ([], true)) = some ([], false) := by
  decide +kernel

end Ferrite.Upstream.Streams
