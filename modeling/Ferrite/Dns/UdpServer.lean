import Ferrite.Lib.Threads
import Ferrite.Dns.Truncation
import Ferrite.Dns.UdpBatch

/-!
# The UDP server

`udp_loop` and `dispatch` of `dns/src/server.rs`: a loop receives datagrams in batches and puts
each through the half of the pipeline that needs no network.  What is settled there is answered
with the batch; what is not gets a task and one of the box's permits, for which everything else
competes, and answers when it is done.  Without a permit the answer is SERVFAIL.

Datagrams are numbered as they are received.  `Moves` is what a step can do, `moves_of_step` that
there is nothing else.

* `Server.account` — where the numbers are; `step_account` — each is at exactly one place;
* `step_sound` — what is sent to whom, and why the others are not answered;
* `udp_server_keeps_account` — after any run; `udp_loop_never_waits` — a task in flight does not
  hold the loop up.
-/

namespace Ferrite.Dns.UdpServer

open Lts Threads UdpBatch

/-! ## The parties -/

/-- A datagram and its source, if that is of a family that can be answered. -/
structure Datagram where
  raw : Bytes
  src : Option SocketAddr
deriving DecidableEq

/-- What `decide` comes to: an answer, nothing, or a query for the network. -/
inductive Verdict where
  | answer (resp : Bytes)
  | drop
  | upstream
deriving DecidableEq

/-- Where the loop is. -/
inductive Loop where
  | receiving
  /-- The datagrams of the batch still to be worked through, and the replies so far. -/
  | working (todo : List ℕ) (replies : List (ℕ × Reply))

/-- Where the task of a datagram is; it holds its permit all along. -/
inductive Task where
  | resolving
  | sending (reply : Reply)

/-- Why a datagram has no answer. -/
inductive Why where
  /-- Its source cannot be answered. -/
  | family
  /-- `decide` dropped it. -/
  | dropped
  /-- The answer was empty. -/
  | empty
  /-- There was no permit, and not even an ID to answer to. -/
  | short
  /-- The socket did not take the reply. -/
  | unsent (reply : Reply)
deriving DecidableEq

/-- The server, the permits of the box, and what happened so far. -/
structure Server where
  received : List Datagram
  loop : Loop
  tasks : Table ℕ Task
  free : ℕ
  /-- Permits held elsewhere on the box. -/
  others : ℕ
  /-- What `decide` came to for which datagram. -/
  decided : List (ℕ × Verdict)
  /-- What the handler answered to which datagram. -/
  heard : List (ℕ × Bytes)
  /-- Which datagrams found no permit, and how many were held then. -/
  shed : List (ℕ × ℕ)
  sent : List (ℕ × Reply)
  lost : List (ℕ × Why)

/-- `MAX_CONCURRENT_QUERIES`. -/
def maxConcurrentQueries : ℕ := 256

def start (others : ℕ) : Server where
  received := []
  loop := .receiving
  tasks := ∅
  free := maxConcurrentQueries - others
  others := others
  decided := []
  heard := []
  shed := []
  sent := []
  lost := []

/-! ## The steps -/

/-- The answer of an overloaded server: the ID and the RD bit are the query's. -/
def servfail (raw : Bytes) : Option Bytes :=
  if 2 ≤ raw.length then
    some [raw.byteAt 0, raw.byteAt 1,
      if 3 ≤ raw.length ∧ raw.byteAt 2 &&& 0x01 ≠ 0 then 0x80 ||| 0x01 else 0x80, 0x02,
      0, 0, 0, 0, 0, 0, 0, 0]
  else none

/-- One step of the loop, of a task, or of the rest of the box. -/
inductive Action where
  | receive (ds : List Datagram)
  | dispatch (verdict : Verdict)
  /-- The batch is worked through; the kernel takes so much of the replies. -/
  | flush (kernel : Kernel)
  | resolved (k : ℕ) (resp : Bytes)
  | sendDatagram (k : ℕ) (ok : Bool)
  | othersTake
  | othersGive

namespace Server

/-- `dispatch`, for the datagram `k`. -/
def dispatch (s : Server) (k : ℕ) (todo : List ℕ) (replies : List (ℕ × Reply)) (raw : Bytes)
    (src : SocketAddr) (verdict : Verdict) : Server :=
  let s := { s with decided := s.decided ++ [(k, verdict)] }
  match verdict with
  | .answer resp =>
    let s := { s with heard := s.heard ++ [(k, resp)] }
    match forWire resp (clientUdpPayload raw) with
    | some resp => { s with loop := .working todo (replies ++ [(k, (resp, src))]) }
    | none => { s with loop := .working todo replies, lost := s.lost ++ [(k, .empty)] }
  | .drop => { s with loop := .working todo replies, lost := s.lost ++ [(k, .dropped)] }
  | .upstream =>
    if s.free = 0 then
      let s := { s with shed := s.shed ++ [(k, s.tasks.entries.length + s.others)] }
      match servfail raw with
      | some resp => { s with loop := .working todo (replies ++ [(k, (resp, src))]) }
      | none => { s with loop := .working todo replies, lost := s.lost ++ [(k, .short)] }
    else
      { s with
        loop := .working todo replies
        free := s.free - 1
        tasks := put s.tasks k (some .resolving) }

/-- The end of a task, with its permit. -/
def finish (s : Server) (k : ℕ) : Server :=
  { s with free := s.free + 1, tasks := put s.tasks k none }

def step (s : Server) : Action → Option Server
  | .receive ds =>
    match s.loop with
    | .receiving =>
      if ds.length ≤ batch then
        some { s with
          received := s.received ++ ds
          loop := .working (List.range' s.received.length ds.length) [] }
      else none
    | .working .. => none
  | .dispatch verdict =>
    match s.loop with
    | .working (k :: todo) replies =>
      match s.received[k]? with
      | some ⟨raw, some src⟩ => some (s.dispatch k todo replies raw src verdict)
      | _ => some { s with loop := .working todo replies, lost := s.lost ++ [(k, .family)] }
    | _ => none
  | .flush kernel =>
    match s.loop with
    | .working [] replies =>
      let n := (udpTurn kernel (replies.map Prod.snd)).1.length
      some { s with
        loop := .receiving
        sent := s.sent ++ replies.take n
        lost := s.lost ++ (replies.drop n).map fun r => (r.1, .unsent r.2) }
    | _ => none
  | .resolved k resp =>
    match s.tasks.lookup k, s.received[k]? with
    | some .resolving, some ⟨raw, some src⟩ =>
      let s := { s with heard := s.heard ++ [(k, resp)] }
      match forWire resp (clientUdpPayload raw) with
      | some resp => some { s with tasks := put s.tasks k (some (.sending (resp, src))) }
      | none => some { s.finish k with lost := s.lost ++ [(k, .empty)] }
    | _, _ => none
  | .sendDatagram k ok =>
    match s.tasks.lookup k with
    | some (.sending reply) =>
      if ok then some { s.finish k with sent := s.sent ++ [(k, reply)] }
      else some { s.finish k with lost := s.lost ++ [(k, .unsent reply)] }
    | _ => none
  | .othersTake =>
    if s.free = 0 then none else some { s with free := s.free - 1, others := s.others + 1 }
  | .othersGive =>
    if s.others = 0 then none else some { s with free := s.free + 1, others := s.others - 1 }

end Server

variable {s s' : Server}

/-- The steps by what they do and what they find. -/
inductive Moves (s : Server) : Server → Prop where
  | receive (ds : List Datagram) (hloop : s.loop = .receiving) :
    Moves s { s with
      received := s.received ++ ds
      loop := .working (List.range' s.received.length ds.length) [] }
  | unanswerable {k : ℕ} {todo : List ℕ} {replies : List (ℕ × Reply)}
      (hloop : s.loop = .working (k :: todo) replies)
      (hdatagram : ∀ raw src, s.received[k]? ≠ some ⟨raw, some src⟩) :
    Moves s { s with loop := .working todo replies, lost := s.lost ++ [(k, .family)] }
  | answered {k : ℕ} {todo : List ℕ} {replies : List (ℕ × Reply)} {raw resp sent : Bytes}
      {src : SocketAddr} (hloop : s.loop = .working (k :: todo) replies)
      (hdatagram : s.received[k]? = some ⟨raw, some src⟩)
      (hwire : forWire resp (clientUdpPayload raw) = some sent) :
    Moves s { s with
      loop := .working todo (replies ++ [(k, (sent, src))]), heard := s.heard ++ [(k, resp)]
      decided := s.decided ++ [(k, .answer resp)] }
  | silent {k : ℕ} {todo : List ℕ} {replies : List (ℕ × Reply)} {resp : Bytes}
      (hloop : s.loop = .working (k :: todo) replies) (hempty : resp = []) :
    Moves s { s with
      loop := .working todo replies, heard := s.heard ++ [(k, resp)]
      decided := s.decided ++ [(k, .answer resp)], lost := s.lost ++ [(k, .empty)] }
  | dropped {k : ℕ} {todo : List ℕ} {replies : List (ℕ × Reply)}
      (hloop : s.loop = .working (k :: todo) replies) :
    Moves s { s with
      loop := .working todo replies, decided := s.decided ++ [(k, .drop)]
      lost := s.lost ++ [(k, .dropped)] }
  | shed {k : ℕ} {todo : List ℕ} {replies : List (ℕ × Reply)} {raw resp : Bytes}
      {src : SocketAddr} (hloop : s.loop = .working (k :: todo) replies)
      (hdatagram : s.received[k]? = some ⟨raw, some src⟩) (hfree : s.free = 0)
      (hresp : servfail raw = some resp) :
    Moves s { s with
      loop := .working todo (replies ++ [(k, (resp, src))])
      decided := s.decided ++ [(k, .upstream)]
      shed := s.shed ++ [(k, s.tasks.entries.length + s.others)] }
  | short {k : ℕ} {todo : List ℕ} {replies : List (ℕ × Reply)} {raw : Bytes}
      (hloop : s.loop = .working (k :: todo) replies) (hfree : s.free = 0)
      (hresp : servfail raw = none) :
    Moves s { s with
      loop := .working todo replies
      decided := s.decided ++ [(k, .upstream)]
      shed := s.shed ++ [(k, s.tasks.entries.length + s.others)]
      lost := s.lost ++ [(k, .short)] }
  | spawn {k : ℕ} {todo : List ℕ} {replies : List (ℕ × Reply)}
      (hloop : s.loop = .working (k :: todo) replies) (hfree : s.free ≠ 0) :
    Moves s { s with
      loop := .working todo replies, decided := s.decided ++ [(k, .upstream)]
      free := s.free - 1, tasks := put s.tasks k (some .resolving) }
  | flush {replies : List (ℕ × Reply)} (n : ℕ) (hloop : s.loop = .working [] replies) :
    Moves s { s with
      loop := .receiving, sent := s.sent ++ replies.take n
      lost := s.lost ++ (replies.drop n).map fun r => (r.1, .unsent r.2) }
  | resolved {k : ℕ} {raw resp sent : Bytes} {src : SocketAddr}
      (htask : s.tasks.lookup k = some .resolving)
      (hdatagram : s.received[k]? = some ⟨raw, some src⟩)
      (hwire : forWire resp (clientUdpPayload raw) = some sent) :
    Moves s { s with
      heard := s.heard ++ [(k, resp)], tasks := put s.tasks k (some (.sending (sent, src))) }
  | resolvedSilent {k : ℕ} {resp : Bytes} (htask : s.tasks.lookup k = some .resolving)
      (hempty : resp = []) :
    Moves s { s with
      heard := s.heard ++ [(k, resp)], free := s.free + 1, tasks := put s.tasks k none
      lost := s.lost ++ [(k, .empty)] }
  | sendDatagram {k : ℕ} {reply : Reply} (htask : s.tasks.lookup k = some (.sending reply)) :
    Moves s { s with
      free := s.free + 1, tasks := put s.tasks k none, sent := s.sent ++ [(k, reply)] }
  | sendFailed {k : ℕ} {reply : Reply} (htask : s.tasks.lookup k = some (.sending reply)) :
    Moves s { s with
      free := s.free + 1, tasks := put s.tasks k none
      lost := s.lost ++ [(k, .unsent reply)] }
  | othersTake (hfree : s.free ≠ 0) :
    Moves s { s with free := s.free - 1, others := s.others + 1 }
  | othersGive (hothers : s.others ≠ 0) :
    Moves s { s with free := s.free + 1, others := s.others - 1 }

theorem forWire_eq_none {resp : Bytes} {n : ℕ} (h : forWire resp n = none) : resp = [] := by
  unfold forWire at h
  split at h
  · rename_i hempty
    exact List.isEmpty_iff.1 hempty
  · cases h

theorem moves_of_dispatch {k : ℕ} {todo : List ℕ} {replies : List (ℕ × Reply)} {raw : Bytes}
    {src : SocketAddr} (verdict : Verdict) (hloop : s.loop = .working (k :: todo) replies)
    (hdatagram : s.received[k]? = some ⟨raw, some src⟩) :
    Moves s (s.dispatch k todo replies raw src verdict) := by
  unfold Server.dispatch
  cases verdict with
  | answer resp =>
    simp only
    split
    · rename_i sent hwire
      exact .answered hloop hdatagram hwire
    · rename_i hwire
      exact .silent hloop (forWire_eq_none hwire)
  | drop => exact .dropped hloop
  | upstream =>
    simp only
    split
    · rename_i hfree
      split
      · rename_i resp hresp
        exact .shed hloop hdatagram hfree hresp
      · rename_i hresp
        exact .short hloop hfree hresp
    · rename_i hfree
      exact .spawn hloop hfree

theorem moves_of_step {a : Action} (h : s.step a = some s') : Moves s s' := by
  cases a with
  | receive ds =>
    simp only [Server.step] at h
    split at h
    · rename_i hloop
      split at h
      · cases h
        exact .receive ds hloop
      · cases h
    · cases h
  | dispatch verdict =>
    simp only [Server.step] at h
    split at h
    · rename_i k todo replies hloop
      split at h
      · rename_i raw src hdatagram
        cases h
        exact moves_of_dispatch verdict hloop hdatagram
      · rename_i hdatagram
        cases h
        exact .unanswerable hloop fun raw src => hdatagram raw src
    · cases h
  | flush kernel =>
    simp only [Server.step] at h
    split at h
    · rename_i replies hloop
      cases h
      exact .flush _ hloop
    · cases h
  | resolved k resp =>
    simp only [Server.step] at h
    split at h
    · rename_i raw src htask hdatagram
      split at h
      · rename_i sent hwire
        cases h
        exact .resolved htask hdatagram hwire
      · rename_i hwire
        cases h
        exact .resolvedSilent htask (forWire_eq_none hwire)
    · cases h
  | sendDatagram k ok =>
    simp only [Server.step] at h
    split at h
    · rename_i reply htask
      split at h
      · cases h
        exact .sendDatagram htask
      · cases h
        exact .sendFailed htask
    · cases h
  | othersTake =>
    simp only [Server.step, Option.ite_none_left_eq_some] at h
    obtain ⟨hfree, heq⟩ := h
    cases heq
    exact .othersTake hfree
  | othersGive =>
    simp only [Server.step, Option.ite_none_left_eq_some] at h
    obtain ⟨hothers, heq⟩ := h
    cases heq
    exact .othersGive hothers

/-! ## Where the datagrams are -/

/-- The datagrams the loop has not looked at yet. -/
def Loop.todo : Loop → List ℕ
  | .receiving => []
  | .working todo _ => todo

/-- The replies that wait for the end of the batch. -/
def Loop.replies : Loop → List (ℕ × Reply)
  | .receiving => []
  | .working _ replies => replies

/-- The numbers of all datagrams, by where they are. -/
def Server.account (s : Server) : List ℕ :=
  s.loop.todo ++ (s.loop.replies.map Prod.fst ++ (s.tasks.keys ++
    (s.sent.map Prod.fst ++ s.lost.map Prod.fst)))

/-- Every number is at exactly one place. -/
def Accounted (s : Server) : Prop := s.account.Perm (List.range s.received.length)

theorem count_account (s : Server) (x : ℕ) :
    s.account.count x = s.loop.todo.count x + ((s.loop.replies.map Prod.fst).count x +
      (s.tasks.keys.count x +
        ((s.sent.map Prod.fst).count x + (s.lost.map Prod.fst).count x))) := by
  simp only [Server.account, List.count_append]

/-- What a step does to the account: it moves numbers, and gives datagrams just received the
next ones. -/
theorem Moves.account (h : Moves s s') (hfree : ∀ k todo replies,
    s.loop = .working (k :: todo) replies → s.tasks.lookup k = none) (x : ℕ) :
    s'.account.count x + (List.range s.received.length).count x =
      s.account.count x + (List.range s'.received.length).count x := by
  rw [count_account, count_account]
  cases h with
  | receive ds hloop =>
    have hrange : List.range (s.received ++ ds).length =
        List.range s.received.length ++ List.range' s.received.length ds.length := by
      rw [List.range_eq_range', List.range_eq_range', List.length_append,
        ← List.range'_append_1, Nat.zero_add]
    rw [hrange, List.count_append]
    simp [hloop, Loop.todo, Loop.replies]
    omega
  | unanswerable hloop hdatagram =>
    simp [hloop, Loop.todo, Loop.replies, List.count_cons]
    omega
  | answered hloop hdatagram hwire =>
    simp [hloop, Loop.todo, Loop.replies, List.count_cons]
    omega
  | silent hloop hempty =>
    simp [hloop, Loop.todo, Loop.replies, List.count_cons]
    omega
  | dropped hloop =>
    simp [hloop, Loop.todo, Loop.replies, List.count_cons]
    omega
  | shed hloop hdatagram hfree hresp =>
    simp [hloop, Loop.todo, Loop.replies, List.count_cons]
    omega
  | short hloop hfree hresp =>
    simp [hloop, Loop.todo, Loop.replies, List.count_cons]
    omega
  | spawn hloop hpermit =>
    simp [hloop, Loop.todo, Loop.replies, List.count_cons,
      keys_put_some (hfree _ _ _ hloop) Task.resolving]
    omega
  | flush n hloop =>
    rename_i replies
    have hmap : ((replies.drop n).map fun r => (r.1, Why.unsent r.2)).map Prod.fst =
        (replies.drop n).map Prod.fst := by
      rw [List.map_map]
      rfl
    have hsplit : (replies.map Prod.fst).count x =
        ((replies.take n).map Prod.fst).count x + ((replies.drop n).map Prod.fst).count x := by
      rw [← List.count_append, ← List.map_append, List.take_append_drop]
    simp only [hloop, Loop.todo, Loop.replies, List.map_append, List.count_append, hmap, hsplit]
    simp
    omega
  | resolved htask hdatagram hwire =>
    simp [keys_put_of_lookup htask]
  | resolvedSilent htask hempty =>
    have := keys_put_none htask x
    simp
    omega
  | sendDatagram htask =>
    have := keys_put_none htask x
    simp
    omega
  | sendFailed htask =>
    have := keys_put_none htask x
    simp
    omega
  | othersTake hpermit => simp
  | othersGive hothers => simp

/-- The datagram the loop looks at has no task. -/
theorem Accounted.task_free (h : Accounted s) {k : ℕ} {todo : List ℕ}
    {replies : List (ℕ × Reply)} (hloop : s.loop = .working (k :: todo) replies) :
    s.tasks.lookup k = none := by
  by_contra hsome
  obtain ⟨task, htask⟩ := Option.ne_none_iff_exists'.1 hsome
  have hkey : k ∈ s.tasks.keys :=
    AList.mem_keys.1 (AList.lookup_isSome.1 (by rw [htask]; rfl))
  have hpos := List.count_pos_iff.2 hkey
  have hle : s.account.count k ≤ 1 := by
    rw [h.count_eq k]
    exact List.nodup_iff_count_le_one.1 List.nodup_range k
  rw [count_account, hloop] at hle
  simp [Loop.todo] at hle
  omega

theorem step_account (h : Moves s s') (hs : Accounted s) : Accounted s' := by
  refine List.perm_iff_count.2 fun x => ?_
  have hcount := h.account (fun k todo replies => hs.task_free) x
  have hold := hs.count_eq x
  omega

/-- A datagram the loop looks at was received. -/
theorem Accounted.received (h : Accounted s) {k : ℕ} (hk : k ∈ s.account) :
    ∃ d, s.received[k]? = some d := by
  have hlt : k < s.received.length := List.mem_range.1 (h.mem_iff.1 hk)
  exact ⟨s.received[k], List.getElem?_eq_getElem hlt⟩

/-! ## What is sent to whom -/

/-- The reply is for its datagram: it goes to the source, and says what the handler said, cut to
what the client takes, or that all permits were held. -/
def Replied (s : Server) (k : ℕ) (reply : Reply) : Prop :=
  ∃ raw, s.received[k]? = some ⟨raw, some reply.2⟩ ∧
    ((∃ resp, (k, resp) ∈ s.heard ∧ forWire resp (clientUdpPayload raw) = some reply.1) ∨
      ((k, maxConcurrentQueries) ∈ s.shed ∧ servfail raw = some reply.1))

/-- The reason holds. -/
def Why.Holds (s : Server) (k : ℕ) : Why → Prop
  | .family => ∃ raw, s.received[k]? = some ⟨raw, none⟩
  | .empty => (k, []) ∈ s.heard
  | .short => (k, maxConcurrentQueries) ∈ s.shed
  | .dropped => (k, .drop) ∈ s.decided
  | .unsent reply => Replied s k reply

/-- What happened stays so. -/
structure Later (s s' : Server) : Prop where
  received : s.received <+: s'.received
  decided : s.decided ⊆ s'.decided
  heard : s.heard ⊆ s'.heard
  shed : s.shed ⊆ s'.shed

theorem Moves.later (h : Moves s s') : Later s s' := by
  cases h <;> exact ⟨by simp, by simp, by simp, by simp⟩

theorem Later.getElem? (h : Later s s') {k : ℕ} {d : Datagram} (hk : s.received[k]? = some d) :
    s'.received[k]? = some d := by
  obtain ⟨more, hmore⟩ := h.received
  rw [← hmore]
  exact (List.getElem?_append_left (List.getElem?_eq_some_iff.1 hk).1).trans hk

theorem Replied.later {k : ℕ} {reply : Reply} (h : Replied s k reply) (hlater : Later s s') :
    Replied s' k reply := by
  obtain ⟨raw, hraw, ⟨resp, hheard, hwire⟩ | ⟨hshed, hresp⟩⟩ := h
  · exact ⟨raw, hlater.getElem? hraw, Or.inl ⟨resp, hlater.heard hheard, hwire⟩⟩
  · exact ⟨raw, hlater.getElem? hraw, Or.inr ⟨hlater.shed hshed, hresp⟩⟩

theorem Why.Holds.later {k : ℕ} {why : Why} (h : why.Holds s k) (hlater : Later s s') :
    why.Holds s' k := by
  cases why with
  | family =>
    obtain ⟨raw, hraw⟩ := h
    exact ⟨raw, hlater.getElem? hraw⟩
  | empty => exact hlater.heard h
  | short => exact hlater.shed h
  | dropped => exact hlater.decided h
  | unsent reply => exact Replied.later h hlater

/-- What holds of the replies, wherever they are, of the losses and of the permits. -/
structure Sound (s : Server) : Prop where
  replies : ∀ x ∈ s.loop.replies, Replied s x.1 x.2
  sending : ∀ k reply, s.tasks.lookup k = some (.sending reply) → Replied s k reply
  sent : ∀ x ∈ s.sent, Replied s x.1 x.2
  lost : ∀ x ∈ s.lost, x.2.Holds s x.1
  shed : ∀ x ∈ s.shed, x.2 = maxConcurrentQueries
  permits : s.free + s.tasks.entries.length + s.others = maxConcurrentQueries

/-- One step further, with what the step adds to the replies and the losses. -/
theorem Sound.step (h : Sound s) (hlater : Later s s')
    (hreplies : ∀ x ∈ s'.loop.replies, x ∈ s.loop.replies ∨ Replied s' x.1 x.2)
    (hsending : ∀ k reply, s'.tasks.lookup k = some (.sending reply) →
      s.tasks.lookup k = some (.sending reply) ∨ Replied s' k reply)
    (hsent : ∀ x ∈ s'.sent, x ∈ s.sent ∨ Replied s' x.1 x.2)
    (hlost : ∀ x ∈ s'.lost, x ∈ s.lost ∨ x.2.Holds s' x.1)
    (hshed : ∀ x ∈ s'.shed, x ∈ s.shed ∨ x.2 = maxConcurrentQueries)
    (hpermits : s'.free + s'.tasks.entries.length + s'.others = maxConcurrentQueries) :
    Sound s' where
  replies x hx := (hreplies x hx).elim (fun hx => (h.replies x hx).later hlater) id
  sending k reply hk :=
    (hsending k reply hk).elim (fun hk => (h.sending k reply hk).later hlater) id
  sent x hx := (hsent x hx).elim (fun hx => (h.sent x hx).later hlater) id
  lost x hx := (hlost x hx).elim (fun hx => (h.lost x hx).later hlater) id
  shed x hx := (hshed x hx).elim (h.shed x) id
  permits := hpermits

/-- A task that ends or goes on leaves the others as they are. -/
theorem lookup_put_sending {tasks : Table ℕ Task} {k u : ℕ} {p : Option Task} {reply : Reply}
    (h : (put tasks k p).lookup u = some (.sending reply)) :
    (u = k ∧ p = some (.sending reply)) ∨ tasks.lookup u = some (.sending reply) := by
  obtain h | ⟨-, h⟩ := lookup_put_iff.1 h
  · exact Or.inl h
  · exact Or.inr h

theorem permits_spawn {k : ℕ} (h : s.tasks.lookup k = none) (hfree : s.free ≠ 0)
    (hs : s.free + s.tasks.entries.length + s.others = maxConcurrentQueries) :
    s.free - 1 + (put s.tasks k (some .resolving)).entries.length + s.others =
      maxConcurrentQueries := by
  have hlength := length_put s.tasks k (some .resolving)
  simp [h] at hlength
  omega

theorem permits_end {k : ℕ} {task : Task} (h : s.tasks.lookup k = some task)
    (hs : s.free + s.tasks.entries.length + s.others = maxConcurrentQueries) :
    s.free + 1 + (put s.tasks k none).entries.length + s.others = maxConcurrentQueries := by
  have hlength := length_put s.tasks k none
  simp [h] at hlength
  omega

theorem step_sound (h : Moves s s') (hacc : Accounted s) (hs : Sound s) : Sound s' := by
  have hlater := h.later
  have hsame : ∀ {A : Type} {xs : List A} {q : A → Prop}, ∀ x ∈ xs, x ∈ xs ∨ q x :=
    fun x hx => Or.inl hx
  have hadd : ∀ {A : Type} {xs : List A} {y : A} {q : A → Prop}, q y →
      ∀ x ∈ xs ++ [y], x ∈ xs ∨ q x := by
    intro A xs y q hy x hx
    obtain hx | hx := List.mem_append.1 hx
    · exact Or.inl hx
    · exact Or.inr (List.mem_singleton.1 hx ▸ hy)
  have htasks : ∀ k (p : Option Task), (∀ reply, p = some (.sending reply) → Replied s' k reply) →
      ∀ u reply, (put s.tasks k p).lookup u = some (.sending reply) →
        s.tasks.lookup u = some (.sending reply) ∨ Replied s' u reply := by
    intro k p hp u reply hu
    obtain ⟨rfl, rfl⟩ | hu := lookup_put_sending hu
    · exact Or.inr (hp reply rfl)
    · exact Or.inl hu
  have htasks_same : ∀ u reply, s.tasks.lookup u = some (.sending reply) →
      s.tasks.lookup u = some (.sending reply) ∨ Replied s' u reply := fun u reply hu => Or.inl hu
  cases h with
  | receive ds hloop =>
    refine hs.step hlater ?_ htasks_same hsame hsame hsame hs.permits
    simp [Loop.replies]
  | unanswerable hloop hdatagram =>
    rename_i k todo replies
    refine hs.step hlater (by rw [hloop]; exact hsame) htasks_same hsame (hadd ?_) hsame
      hs.permits
    obtain ⟨⟨raw, src⟩, hk⟩ := hacc.received (by simp [Server.account, hloop, Loop.todo] : k ∈ _)
    cases src with
    | none => exact ⟨raw, hk⟩
    | some src => exact absurd hk (hdatagram raw src)
  | answered hloop hdatagram hwire =>
    rename_i k todo replies raw resp sent src
    refine hs.step hlater ?_ htasks_same hsame hsame hsame hs.permits
    rw [hloop]
    exact hadd ⟨raw, hdatagram, Or.inl ⟨resp, by simp, hwire⟩⟩
  | silent hloop hempty =>
    refine hs.step hlater (by rw [hloop]; exact hsame) htasks_same hsame (hadd ?_) hsame
      hs.permits
    subst hempty
    exact List.mem_append_right _ (List.mem_singleton_self _)
  | dropped hloop =>
    refine hs.step hlater (by rw [hloop]; exact hsame) htasks_same hsame (hadd ?_) hsame
      hs.permits
    exact List.mem_append_right _ (List.mem_singleton_self _)
  | shed hloop hdatagram hfree hresp =>
    rename_i k todo replies raw resp src
    have hall : s.tasks.entries.length + s.others = maxConcurrentQueries := by
      have := hs.permits
      omega
    refine hs.step hlater ?_ htasks_same hsame hsame (hadd hall) hs.permits
    rw [hloop]
    refine hadd ⟨raw, hdatagram, Or.inr ⟨?_, hresp⟩⟩
    rw [hall]
    exact List.mem_append_right _ (List.mem_singleton_self _)
  | short hloop hfree hresp =>
    have hall : s.tasks.entries.length + s.others = maxConcurrentQueries := by
      have := hs.permits
      omega
    refine hs.step hlater (by rw [hloop]; exact hsame) htasks_same hsame (hadd ?_) (hadd hall)
      hs.permits
    rw [hall]
    exact List.mem_append_right _ (List.mem_singleton_self _)
  | spawn hloop hfree =>
    refine hs.step hlater (by rw [hloop]; exact hsame) (htasks _ _ (by simp)) hsame hsame hsame
      (permits_spawn (hacc.task_free hloop) hfree hs.permits)
  | flush n hloop =>
    rename_i replies
    have hreplies := hs.replies
    rw [hloop] at hreplies
    refine hs.step hlater (by simp [Loop.replies]) htasks_same ?_ ?_ hsame hs.permits
    · intro x hx
      obtain hx | hx := List.mem_append.1 hx
      · exact Or.inl hx
      · exact Or.inr ((hreplies x (List.mem_of_mem_take hx)).later hlater)
    · intro x hx
      obtain hx | hx := List.mem_append.1 hx
      · exact Or.inl hx
      · obtain ⟨r, hr, rfl⟩ := List.mem_map.1 hx
        exact Or.inr ((hreplies r (List.mem_of_mem_drop hr)).later hlater)
  | resolved htask hdatagram hwire =>
    rename_i k raw resp sent src
    refine hs.step hlater hsame (htasks _ _ ?_) hsame hsame hsame ?_
    · intro reply hreply
      cases hreply
      exact ⟨raw, hdatagram, Or.inl ⟨resp, by simp, hwire⟩⟩
    · have hlength := length_put s.tasks k (some (.sending (sent, src)))
      have := hs.permits
      simp [htask] at hlength
      simp only
      omega
  | resolvedSilent htask hempty =>
    refine hs.step hlater hsame (htasks _ _ (by simp)) hsame (hadd ?_) hsame
      (permits_end htask hs.permits)
    subst hempty
    exact List.mem_append_right _ (List.mem_singleton_self _)
  | sendDatagram htask =>
    exact hs.step hlater hsame (htasks _ _ (by simp))
      (hadd ((hs.sending _ _ htask).later hlater)) hsame hsame (permits_end htask hs.permits)
  | sendFailed htask =>
    exact hs.step hlater hsame (htasks _ _ (by simp)) hsame
      (hadd ((hs.sending _ _ htask).later hlater)) hsame (permits_end htask hs.permits)
  | othersTake hfree =>
    have := hs.permits
    exact hs.step hlater hsame htasks_same hsame hsame hsame (by simp only; omega)
  | othersGive hothers =>
    have := hs.permits
    exact hs.step hlater hsame htasks_same hsame hsame hsame (by simp only; omega)

/-! ## Main results -/

theorem inv_of_run {others : ℕ} {as : List Action} (hothers : others ≤ maxConcurrentQueries)
    (h : exec Server.step (start others) as = some s) : Accounted s ∧ Sound s := by
  have hkept : ∀ s a s', Accounted s ∧ Sound s → s.step a = some s' → Accounted s' ∧ Sound s' :=
    fun s a s' hs hstep =>
      ⟨step_account (moves_of_step hstep) hs.1, step_sound (moves_of_step hstep) hs.1 hs.2⟩
  have hstart : Accounted (start others) := List.Perm.refl []
  refine inv_of_exec_all Server.step hkept ⟨hstart, ?_⟩ h
  refine ⟨by simp [start, Loop.replies], by simp [start], by simp [start], by simp [start],
    by simp [start], ?_⟩
  show maxConcurrentQueries - others + 0 + others = maxConcurrentQueries
  omega

/-- **No datagram is answered twice, or to somebody else.**  In every run, whatever is received,
decided and answered, in whatever order the tasks finish and whatever the rest of the box does,
each datagram is at exactly one place; what was sent for it went to its source and is the
handler's answer cut to what the client takes, or SERVFAIL when every permit was held; what was
not answered has a reason; and once the loop and the tasks are through, every datagram was
answered or has one. -/
theorem udp_server_keeps_account {others : ℕ} {as : List Action}
    (hothers : others ≤ maxConcurrentQueries) (h : exec Server.step (start others) as = some s) :
    s.account.Perm (List.range s.received.length) ∧
      (∀ x ∈ s.sent, Replied s x.1 x.2) ∧ (∀ x ∈ s.lost, x.2.Holds s x.1) ∧
      (∀ x ∈ s.shed, x.2 = maxConcurrentQueries) ∧
      s.free + s.tasks.entries.length + s.others = maxConcurrentQueries ∧
      (s.loop = .receiving → s.tasks.entries = [] →
        (s.sent.map Prod.fst ++ s.lost.map Prod.fst).Perm (List.range s.received.length)) := by
  obtain ⟨hacc, hsound⟩ := inv_of_run hothers h
  refine ⟨hacc, hsound.sent, hsound.lost, hsound.shed, hsound.permits, fun hloop htasks => ?_⟩
  simpa [Accounted, Server.account, hloop, Loop.todo, Loop.replies, AList.keys, htasks, List.keys]
    using hacc

/-- A query for the network and one answered from memory, in one batch, when one permit is left. -/
def burst : List Action :=
  [.receive [⟨[0, 7, 1], some reachable⟩, ⟨[0, 8, 1], some reachable⟩, ⟨[0, 9, 1], none⟩],
    .dispatch .upstream, .dispatch .upstream, .dispatch .drop, .flush ⟨fun _ => none, fun _ => 31⟩,
    .resolved 0 [0, 7, 0x81], .sendDatagram 0 true]

theorem burst_keeps_account :
    (exec Server.step (start 255) burst).map (fun s => s.sent) =
        some [(1, ([0, 8, 0x81, 2, 0, 0, 0, 0, 0, 0, 0, 0], reachable)),
          (0, ([0, 7, 0x81], reachable))] ∧
      ∀ s, exec Server.step (start 255) burst = some s →
        s.account.Perm (List.range s.received.length) :=
  ⟨by decide +kernel, fun _ h => (udp_server_keeps_account (by decide) h).1⟩

/-- **The loop does not wait.**  Whatever the tasks are at, and whether there are permits or not,
the loop is through with a batch after one step for each datagram and one for the replies. -/
theorem udp_loop_never_waits {todo : List ℕ} {replies : List (ℕ × Reply)}
    (hloop : s.loop = .working todo replies) (verdict : ℕ → Verdict) (kernel : Kernel) :
    ∃ s', exec Server.step s (todo.map (fun k => .dispatch (verdict k)) ++ [.flush kernel]) =
      some s' ∧ s'.loop = .receiving := by
  induction todo generalizing s replies with
  | nil => exact ⟨_, by simp [exec, Server.step, hloop]; rfl, rfl⟩
  | cons k todo ih =>
    have hstep : ∃ s₁ replies₁, s.step (.dispatch (verdict k)) = some s₁ ∧
        s₁.loop = .working todo replies₁ := by
      simp only [Server.step, hloop]
      split
      · rename_i raw src hdatagram
        unfold Server.dispatch
        split
        · simp only
          split
          · exact ⟨_, _, rfl, rfl⟩
          · exact ⟨_, _, rfl, rfl⟩
        · exact ⟨_, _, rfl, rfl⟩
        · simp only
          split
          · split
            · exact ⟨_, _, rfl, rfl⟩
            · exact ⟨_, _, rfl, rfl⟩
          · exact ⟨_, _, rfl, rfl⟩
      · exact ⟨_, _, rfl, rfl⟩
    obtain ⟨s₁, replies₁, hs₁, hloop₁⟩ := hstep
    obtain ⟨s', hs', hdone⟩ := ih hloop₁
    exact ⟨s', (exec_cons_eq_some Server.step).2 ⟨s₁, hs₁, hs'⟩, hdone⟩

end Ferrite.Dns.UdpServer
