import Ferrite.Lib.Frames

/-!
# Queries over TCP

`handle_tcp_connection` of `dns/src/server.rs`: the queries of a connection are read,
handled and answered one after the other, until the stream ends, a length is zero, no permit
is free, the handler fails or an answer cannot be written in time.

* `handle_eq_overFrames` — what is handled is the first messages of the stream;
* `overFrames_spec` — how many those are, and what is written for them;
* `tcp_answers_in_turn`, `tcp_pipelined` — the above for a whole connection, and what a
  client that sends many queries at once reads back.
-/

namespace Ferrite.Dns.Tcp

open Frames

/-- `MAX_TCP_PAYLOAD`. -/
def maxTcpPayload : ℕ := 65535

/-- How the writing of an answer ends: an error of the socket is not looked at, a timeout
ends the connection. -/
inductive Sent where
  | written
  /-- An error after `n` bytes. -/
  | broken (n : ℕ)
  /-- The time is up after `n` bytes. -/
  | late (n : ℕ)
deriving DecidableEq, Repr

/-- What a query meets: whether a permit is free, what the handler answers, and how the
writing of it ends. -/
structure Round where
  free : Bool
  response : Except Unit Bytes
  sent : Sent

/-- The queries a connection handed to the handler, and what it wrote. -/
structure Served where
  queries : List Bytes
  written : Bytes
deriving DecidableEq, Repr

/-- One query more in front. -/
def Served.after (query written : Bytes) (rest : Served) : Served :=
  ⟨query :: rest.queries, written ++ rest.written⟩

/-- `handle_tcp_connection` from the `i`th query on; a connection of so many bytes has at most
`limit` queries. -/
def handleTcpConnection (round : ℕ → Bytes → Round) : (limit i : ℕ) → Bytes → Served
  | limit + 1, i, hi :: lo :: rest =>
    let msgLen := hi.toNat * 256 + lo.toNat
    if msgLen = 0 ∨ maxTcpPayload < msgLen then ⟨[], []⟩
    else if rest.length < msgLen then ⟨[], []⟩
    else
      let raw := rest.take msgLen
      let r := round i raw
      if !r.free then ⟨[], []⟩
      else
        match r.response with
        | .error _ => ⟨[raw], []⟩
        | .ok response =>
          let next := handleTcpConnection round limit (i + 1) (rest.drop msgLen)
          if response.isEmpty then next.after raw []
          else
            match r.sent with
            | .written => next.after raw (frame response)
            -- the error is inside of what the timeout returns, where nobody looks
            | .broken n => next.after raw ((frame response).take n)
            | .late n => ⟨[raw], (frame response).take n⟩
  | _, _, _ => ⟨[], []⟩

/-! ## One query -/

/-- What a connection answers to its `i`th query, if anything. -/
def Round.answer (r : Round) : Bytes :=
  match r.response with
  | .error _ => []
  | .ok response => response

/-- What it writes for it. -/
def Round.writes (r : Round) : Bytes :=
  if r.answer = [] then []
  else
    match r.sent with
    | .written => frame r.answer
    | .broken n => (frame r.answer).take n
    | .late n => (frame r.answer).take n

/-- Does the connection go on behind it? -/
def Round.goesOn (r : Round) : Bool :=
  match r.response, r.sent with
  | .error _, _ => false
  | .ok response, .late _ => response.isEmpty
  | .ok _, _ => true

variable {round : ℕ → Bytes → Round} {limit i : ℕ} {stream raw rest : Bytes}

/-- Without a whole message that is not empty, nothing is handled. -/
theorem handle_of_none (h : ∀ raw rest, readFrame stream = some (raw, rest) → raw = []) :
    handleTcpConnection round limit i stream = ⟨[], []⟩ := by
  match limit, stream with
  | 0, _ => rfl
  | _ + 1, [] => rfl
  | _ + 1, [_] => rfl
  | limit + 1, hi :: lo :: tail =>
    rw [handleTcpConnection]
    simp only [readFrame] at h
    split
    · rfl
    · rename_i hlen
      split
      · rfl
      · rename_i hle
        rw [if_pos (by omega)] at h
        have hnil := congrArg List.length (h _ _ rfl)
        rw [List.length_take, List.length_nil] at hnil
        omega

/-- A whole message that is not empty is a query. -/
theorem handle_of_frame (h : readFrame stream = some (raw, rest)) (hraw : raw ≠ []) :
    handleTcpConnection round (limit + 1) i stream =
      if !(round i raw).free then ⟨[], []⟩
      else if (round i raw).goesOn then
        (handleTcpConnection round limit (i + 1) rest).after raw (round i raw).writes
      else ⟨[raw], (round i raw).writes⟩ := by
  match stream with
  | [] => simp [readFrame] at h
  | [_] => simp [readFrame] at h
  | hi :: lo :: tail =>
    have hhi := hi.toNat_lt
    have hlo := lo.toNat_lt
    simp only [readFrame, Option.ite_none_right_eq_some, Option.some.injEq, Prod.mk.injEq] at h
    obtain ⟨hle, rfl, rfl⟩ := h
    have hpos : hi.toNat * 256 + lo.toNat ≠ 0 := by
      intro hzero
      rw [hzero, List.take_zero] at hraw
      exact hraw rfl
    rw [handleTcpConnection]
    simp only
    rw [if_neg (by simp only [maxTcpPayload]; omega), if_neg (by omega)]
    split
    · rfl
    · unfold Round.goesOn Round.writes Round.answer
      cases hresponse : (round i (tail.take (hi.toNat * 256 + lo.toNat))).response with
      | error e => rfl
      | ok response =>
        cases response with
        | nil => cases (round i (tail.take (hi.toNat * 256 + lo.toNat))).sent <;> rfl
        | cons b bs => cases (round i (tail.take (hi.toNat * 256 + lo.toNat))).sent <;> rfl

/-! ## A whole connection -/

/-- The connection on the messages of its stream. -/
def overFrames (round : ℕ → Bytes → Round) : ℕ → List Bytes → Served
  | _, [] => ⟨[], []⟩
  | i, raw :: qs =>
    if raw = [] then ⟨[], []⟩
    else if !(round i raw).free then ⟨[], []⟩
    else if (round i raw).goesOn then (overFrames round (i + 1) qs).after raw (round i raw).writes
    else ⟨[raw], (round i raw).writes⟩

theorem handle_eq_overFrames (limit i : ℕ) (stream : Bytes) :
    handleTcpConnection round limit i stream = overFrames round i (framesUpTo limit stream) := by
  induction limit generalizing i stream with
  | zero => rfl
  | succ limit ih =>
    rw [framesUpTo]
    cases hread : readFrame stream with
    | none => exact handle_of_none (by simp [hread])
    | some r =>
      obtain ⟨raw, rest⟩ := r
      simp only [overFrames]
      by_cases hraw : raw = []
      · rw [if_pos hraw, handle_of_none (by simp [hread, hraw])]
      · rw [if_neg hraw, handle_of_frame hread hraw, ih]

/-- What of a stream of messages is handled: the first `n`. -/
structure Handles (round : ℕ → Bytes → Round) (i : ℕ) (qs : List Bytes) (n : ℕ) : Prop where
  le : n ≤ qs.length
  free : ∀ (j : ℕ) (raw : Bytes), j < n → qs[j]? = some raw →
    raw ≠ [] ∧ (round (i + j) raw).free = true
  goesOn : ∀ (j : ℕ) (raw : Bytes), j + 1 < n → qs[j]? = some raw →
    (round (i + j) raw).goesOn = true
  /-- The next is empty or finds no permit, or the last did not let the connection go on. -/
  stops : ∀ raw, qs[n]? = some raw → raw = [] ∨ (round (i + n) raw).free = false ∨
    ∃ (j : ℕ) (last : Bytes), n = j + 1 ∧ qs[j]? = some last ∧ (round (i + j) last).goesOn = false

/-- A query more in front, behind which the connection goes on. -/
theorem Handles.cons {qs : List Bytes} {n : ℕ} (h : Handles round (i + 1) qs n) (hraw : raw ≠ [])
    (hfree : (round i raw).free = true) (hgoes : (round i raw).goesOn = true) :
    Handles round i (raw :: qs) (n + 1) where
  le := by simpa using h.le
  free j q hj hq := by
    cases j with
    | zero =>
      cases hq
      exact ⟨hraw, hfree⟩
    | succ j =>
      rw [show i + (j + 1) = i + 1 + j by omega]
      exact h.free j q (by omega) hq
  goesOn j q hj hq := by
    cases j with
    | zero =>
      cases hq
      exact hgoes
    | succ j =>
      rw [show i + (j + 1) = i + 1 + j by omega]
      exact h.goesOn j q (by omega) hq
  stops q hq := by
    rw [show i + (n + 1) = i + 1 + n by omega]
    rcases h.stops q hq with hq | hq | ⟨j, last, rfl, hlast, hnot⟩
    · exact Or.inl hq
    · exact Or.inr (Or.inl hq)
    · refine Or.inr (Or.inr ⟨j + 1, last, rfl, hlast, ?_⟩)
      rwa [show i + (j + 1) = i + 1 + j by omega]

/-- A query behind which the connection does not go on. -/
theorem Handles.last (qs : List Bytes) (hraw : raw ≠ []) (hfree : (round i raw).free = true)
    (hgoes : (round i raw).goesOn = false) : Handles round i (raw :: qs) 1 where
  le := by simp
  free j q hj hq := by
    obtain rfl : j = 0 := by omega
    cases hq
    exact ⟨hraw, hfree⟩
  goesOn j q hj hq := by omega
  stops q hq := Or.inr (Or.inr ⟨0, raw, rfl, rfl, hgoes⟩)

/-- What is written for the queries, one after the other. -/
def writesOf (round : ℕ → Bytes → Round) (i : ℕ) (qs : List Bytes) : Bytes :=
  (qs.mapIdx fun j raw => (round (i + j) raw).writes).flatten

theorem writesOf_cons (qs : List Bytes) :
    writesOf round i (raw :: qs) = (round i raw).writes ++ writesOf round (i + 1) qs := by
  rw [writesOf, List.mapIdx_cons, List.flatten_cons, writesOf]
  congr 3
  funext j q
  rw [show i + (j + 1) = i + 1 + j by omega]

theorem overFrames_spec (qs : List Bytes) (i : ℕ) : ∃ n, Handles round i qs n ∧
    overFrames round i qs = ⟨qs.take n, writesOf round i (qs.take n)⟩ := by
  induction qs generalizing i with
  | nil => exact ⟨0, ⟨le_refl _, by simp, by simp, by simp⟩, rfl⟩
  | cons raw qs ih =>
    rw [overFrames]
    split
    · rename_i hraw
      exact ⟨0, ⟨Nat.zero_le _, by simp, by simp, by simp [hraw]⟩, rfl⟩
    · rename_i hraw
      split
      · rename_i hfree
        exact ⟨0, ⟨Nat.zero_le _, by simp, by simp, by simpa using Or.inr hfree⟩, rfl⟩
      · rename_i hfree
        rw [Bool.not_eq_true, Bool.not_eq_false'] at hfree
        split
        · rename_i hgoes
          obtain ⟨n, h, heq⟩ := ih (i + 1)
          refine ⟨n + 1, h.cons hraw hfree hgoes, ?_⟩
          rw [heq, Served.after, List.take_succ_cons, writesOf_cons]
        · rename_i hgoes
          rw [Bool.not_eq_true] at hgoes
          exact ⟨1, .last qs hraw hfree hgoes, by simp [writesOf]⟩

/-! ## What the client reads -/

/-- A socket that failed takes nothing any more. -/
def StaysBroken (round : ℕ → Bytes → Round) : Prop :=
  ∀ (i j : ℕ) (raw raw' : Bytes) (n : ℕ), i < j → (round i raw).sent = .broken n →
    (round j raw').sent = .broken 0

/-- The answers to the queries, in their order; some queries have none. -/
def answersOf (round : ℕ → Bytes → Round) (i : ℕ) (qs : List Bytes) : List Bytes :=
  (qs.mapIdx fun j raw => (round (i + j) raw).answer).filter (· ≠ [])

theorem answersOf_cons (qs : List Bytes) : answersOf round i (raw :: qs) =
    (if (round i raw).answer = [] then [] else [(round i raw).answer]) ++
      answersOf round (i + 1) qs := by
  rw [answersOf, List.mapIdx_cons, answersOf]
  have hshift : (fun (j : ℕ) (q : Bytes) => (round (i + (j + 1)) q).answer) =
      fun (j : ℕ) (q : Bytes) => (round (i + 1 + j) q).answer := by
    funext j q
    rw [show i + (j + 1) = i + 1 + j by omega]
  rw [hshift, List.filter_cons]
  split <;> simp_all

/-- Behind a failed write nothing is written. -/
theorem writesOf_of_broken (qs : List Bytes) (h : ∀ j raw, i ≤ j → (round j raw).sent = .broken 0) :
    writesOf round i qs = [] := by
  induction qs generalizing i with
  | nil => rfl
  | cons raw qs ih =>
    rw [writesOf_cons, ih fun j raw hj => h j raw (by omega), List.append_nil, Round.writes]
    split
    · rfl
    · rw [h i raw le_rfl]
      rfl

theorem writesOf_of_written (qs : List Bytes) (h : ∀ j raw, (round j raw).sent = .written) :
    writesOf round i qs = (answersOf round i qs).flatMap frame := by
  induction qs generalizing i with
  | nil => rfl
  | cons raw qs ih =>
    rw [writesOf_cons, ih, answersOf_cons, List.flatMap_append, Round.writes, h]
    split <;> simp

/-- What is written is a beginning of the answers in frames. -/
theorem writesOf_extends (hbroken : StaysBroken round) {qs : List Bytes}
    (hgoes : ∀ (j : ℕ) (raw : Bytes), j + 1 < qs.length → qs[j]? = some raw →
      (round (i + j) raw).goesOn = true) :
    writesOf round i qs <+: (answersOf round i qs).flatMap frame := by
  induction qs generalizing i with
  | nil => exact List.nil_prefix
  | cons raw qs ih =>
    rw [writesOf_cons, answersOf_cons, List.flatMap_append, Round.writes]
    have htail : writesOf round (i + 1) qs <+: (answersOf round (i + 1) qs).flatMap frame := by
      refine ih fun j q hj hq => ?_
      rw [show i + 1 + j = i + (j + 1) by omega]
      exact hgoes (j + 1) q (by simpa using hj) hq
    split
    · simpa using htail
    · rename_i hanswer
      rw [List.flatMap_singleton]
      cases hsent : (round i raw).sent with
      | written => exact (List.prefix_append_right_inj _).2 htail
      | broken n =>
        rw [writesOf_of_broken qs fun j q hj => hbroken i j raw q n (by omega) hsent]
        simp only [List.append_nil]
        exact (List.take_prefix _ _).trans (List.prefix_append _ _)
      | late n =>
        -- a timeout is the end, so no query follows
        cases qs with
        | nil =>
          simp only [writesOf, List.mapIdx_nil, List.flatten_nil, List.append_nil]
          exact (List.take_prefix _ _).trans (List.prefix_append _ _)
        | cons q qs =>
          have hon := hgoes 0 raw (by simp) rfl
          rw [Nat.add_zero, Round.goesOn, hsent] at hon
          rw [Round.answer] at hanswer
          cases hresponse : (round i raw).response with
          | error e => simp [hresponse] at hon
          | ok response => simp_all

/-! ## Main results -/

/-- **A connection answers in turn.**  Of the messages of the stream the first `n` are handled,
each whole, not empty and with a permit, until one that is empty, one that finds no permit, or
one behind which the connection does not go on; what is written is the answers in frames, in
the order of their queries, or a beginning of that when writing failed. -/
theorem tcp_answers_in_turn (round : ℕ → Bytes → Round) (hbroken : StaysBroken round)
    (stream : Bytes) : ∃ n, Handles round 0 (frames stream) n ∧
      (handleTcpConnection round stream.length 0 stream).queries = (frames stream).take n ∧
      (handleTcpConnection round stream.length 0 stream).written <+:
        (answersOf round 0 ((frames stream).take n)).flatMap frame ∧
      ((∀ j raw, (round j raw).sent = .written) →
        (handleTcpConnection round stream.length 0 stream).written =
          (answersOf round 0 ((frames stream).take n)).flatMap frame) := by
  obtain ⟨n, h, heq⟩ := overFrames_spec (frames stream) 0
  rw [handle_eq_overFrames, ← frames, heq]
  refine ⟨n, h, rfl, writesOf_extends hbroken fun j raw hj hraw => ?_,
    writesOf_of_written _⟩
  rw [List.length_take] at hj
  rw [List.getElem?_take_of_lt (by omega)] at hraw
  exact h.goesOn j raw (by omega) hraw

/-- A box that answers with the query twice, and finds its client gone at the second answer. -/
def gone (i : ℕ) (raw : Bytes) : Round :=
  ⟨true, .ok (raw ++ raw), if i = 0 then .written else .broken (if i = 1 then 3 else 0)⟩

theorem gone_answers_in_turn :
    handleTcpConnection gone 9 0 [0, 1, 7, 0, 1, 8, 0, 1, 9] =
        ⟨[[7], [8], [9]], [0, 2, 7, 7, 0, 2, 8]⟩ ∧
      ∃ n, Handles gone 0 (frames [0, 1, 7, 0, 1, 8, 0, 1, 9]) n := by
  have hbroken : StaysBroken gone := by
    intro i j raw raw' n hij hsent
    have hi : i ≠ 0 := by
      rintro rfl
      cases hsent
    simp only [gone]
    rw [if_neg (by omega), if_neg (by omega)]
  obtain ⟨n, h, -⟩ := tcp_answers_in_turn gone hbroken [0, 1, 7, 0, 1, 8, 0, 1, 9]
  exact ⟨by decide, n, h⟩

/-- **Pipelining.**  A client that sends any number of queries at once, each of a length that
fits, reads back from a box with permits to spare the answers to all of them in their order. -/
theorem tcp_pipelined (round : ℕ → Bytes → Round) {ms : List Bytes}
    (hms : ∀ m ∈ ms, m ≠ [] ∧ m.length < 2 ^ 16)
    (hround : ∀ j m, (round j m).free = true ∧ (round j m).sent = .written ∧
      ∃ response, (round j m).response = .ok response ∧ response.length < 2 ^ 16) :
    (handleTcpConnection round (ms.flatMap frame).length 0 (ms.flatMap frame)).queries = ms ∧
      frames (handleTcpConnection round (ms.flatMap frame).length 0 (ms.flatMap frame)).written =
        answersOf round 0 ms := by
  obtain ⟨n, h, heq⟩ := overFrames_spec (frames (ms.flatMap frame)) 0
  rw [handle_eq_overFrames, ← frames, heq]
  have hframes : frames (ms.flatMap frame) = ms := frames_flatMap fun m hm => (hms m hm).2
  rw [hframes] at h ⊢
  -- nothing stops the connection before the last query
  have hn : n = ms.length := by
    by_contra hne
    have hlt : n < ms.length := lt_of_le_of_ne h.le hne
    rcases h.stops _ (List.getElem?_eq_getElem hlt) with hq | hq | ⟨j, last, -, hlast, hq⟩
    · exact (hms _ (List.getElem_mem hlt)).1 hq
    · rw [(hround _ _).1] at hq
      cases hq
    · obtain ⟨-, hsent, response, hresponse, -⟩ := hround (0 + j) last
      rw [Round.goesOn, hresponse, hsent] at hq
      cases hq
  rw [hn, List.take_length]
  refine ⟨rfl, ?_⟩
  rw [writesOf_of_written ms fun j m => (hround j m).2.1, frames_flatMap]
  intro a ha
  obtain ⟨j, hj, rfl⟩ := List.mem_mapIdx.1 (List.mem_filter.1 ha).1
  obtain ⟨-, -, response, hresponse, hlen⟩ := hround (0 + j) ms[j]
  rw [Round.answer, hresponse]
  exact hlen

/-- A box that answers every query with the first byte of it. -/
def firstByte (_ : ℕ) (raw : Bytes) : Round := ⟨true, .ok (raw.take 1), .written⟩

theorem firstByte_pipelined :
    frames (handleTcpConnection firstByte 9 0 [0, 2, 7, 7, 0, 3, 8, 8, 8]).written =
      answersOf firstByte 0 [[7, 7], [8, 8, 8]] := by
  refine (@tcp_pipelined firstByte [[7, 7], [8, 8, 8]] (by decide) ?_).2
  intro j m
  have hlen : (m.take 1).length ≤ 1 := List.length_take_le ..
  exact ⟨rfl, rfl, _, rfl, by omega⟩

end Ferrite.Dns.Tcp
