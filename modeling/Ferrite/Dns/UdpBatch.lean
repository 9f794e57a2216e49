import Mathlib.Data.List.TakeWhile
import Ferrite.Core.Addr
import Ferrite.Lib.Bytes

/-!
# Replies sent in batches

`UdpBatch::send` hands its replies to `sendmmsg` in chunks and goes on behind what the
kernel took.  The kernel stops in front of a datagram it refuses, and says so only when that
datagram is the first of a call.

* `send_handed` — what goes out is what stands in front of the first reply that is refused.
* `send_result` — the error is the one of that reply.
* `refused_reply_costs_only_itself_iff` — the others all go out exactly when none of them
  stands behind a refused one.
-/

namespace Ferrite.Dns.UdpBatch

/-- Datagrams per system call. -/
def batch : ℕ := 32

/-- An error of the operating system. -/
structure IoError where
  errno : ℕ
deriving DecidableEq, Repr

/-- A reply, and where it goes. -/
abbrev Reply := Bytes × SocketAddr

/-- The kernel's side of a socket. -/
structure Kernel where
  /-- The destinations that are refused, and with what error. -/
  refuses : SocketAddr → Option IoError
  /-- How many more datagrams than one there is room for at each call, once the socket is
  writable. -/
  room : ℕ → ℕ

/-- Does the kernel take a reply? -/
def Kernel.accepts (k : Kernel) (r : Reply) : Bool := (k.refuses r.2).isNone

/-- The datagrams go out in order.  The call returns how many went before the first that
failed, or the error if that is the very first. -/
def Kernel.sendmmsg (k : Kernel) (call : ℕ) (msgs : List Reply) : Except IoError ℕ :=
  match msgs with
  | [] => .ok 0
  | r :: _ =>
    match k.refuses r.2 with
    | some e => .error e
    | none => .ok (min (k.room call + 1) (msgs.takeWhile k.accepts).length)

/-- A socket that is not writable is waited for, so that a chunk always gets an answer. -/
def sendChunk (k : Kernel) (call : ℕ) (chunk : List Reply) : Except IoError ℕ :=
  k.sendmmsg call chunk

/-- What a `send` comes to. -/
structure Sent where
  /-- What the kernel took, in order. -/
  handed : List Reply
  result : Except IoError Unit

/-- The loop of `send`: `sent` replies are out, and `handed` is what the kernel took. -/
def sendFrom (k : Kernel) (replies : List Reply) (call sent : ℕ) (handed : List Reply) : Sent :=
  if sent < replies.length then
    let chunk := (replies.drop sent).take batch
    match sendChunk k call chunk with
    | .error e => ⟨handed, .error e⟩
    | .ok n =>
      if n = 0 then ⟨handed, .ok ()⟩
      else sendFrom k replies (call + 1) (sent + n) (handed ++ chunk.take n)
  else ⟨handed, .ok ()⟩
termination_by replies.length - sent

/-- Send every reply in as few calls as the kernel takes. -/
def send (k : Kernel) (replies : List Reply) : Sent :=
  sendFrom k replies 0 0 []

/-- One turn of `udp_loop` behind its answers: what went out, and the error that was logged. -/
def udpTurn (k : Kernel) (replies : List Reply) : List Reply × Option IoError :=
  if replies.isEmpty then ([], none)
  else
    match (send k replies).result with
    | .error e => ((send k replies).handed, some e)
    | .ok () => ((send k replies).handed, none)

/-! ## What one call does -/

theorem accepts_iff {k : Kernel} {r : Reply} : k.accepts r = true ↔ k.refuses r.2 = none := by
  simp [Kernel.accepts]

theorem sendmmsg_ok {k : Kernel} {call n : ℕ} {msgs : List Reply} (hne : msgs ≠ [])
    (h : k.sendmmsg call msgs = .ok n) :
    0 < n ∧ n ≤ msgs.length ∧ ∀ r ∈ msgs.take n, k.accepts r = true := by
  cases msgs with
  | nil => exact absurd rfl hne
  | cons r rest =>
    cases hr : k.refuses r.2 with
    | some e => simp [Kernel.sendmmsg, hr] at h
    | none =>
      have haccepts := accepts_iff.2 hr
      have htaken := List.takeWhile_prefix (l := r :: rest) k.accepts
      obtain rfl : min (k.room call + 1) ((r :: rest).takeWhile k.accepts).length = n := by
        simpa [Kernel.sendmmsg, hr] using h
      refine ⟨?_, ?_, ?_⟩
      · simp [haccepts]
      · exact (min_le_right _ _).trans htaken.length_le
      · intro s hs
        rw [← List.take_take, ← List.prefix_iff_eq_take.1 htaken] at hs
        exact List.mem_takeWhile_imp (List.mem_of_mem_take hs)

theorem sendmmsg_error {k : Kernel} {call : ℕ} {msgs : List Reply} {e : IoError}
    (h : k.sendmmsg call msgs = .error e) : ∃ r ∈ msgs.head?, k.refuses r.2 = some e := by
  cases msgs with
  | nil => simp [Kernel.sendmmsg] at h
  | cons r rest =>
    refine ⟨r, rfl, ?_⟩
    cases hr : k.refuses r.2 with
    | none => simp [Kernel.sendmmsg, hr] at h
    | some e' => simpa [Kernel.sendmmsg, hr] using h

/-! ## What the loop does -/

/-- The replies in front of the first that is refused, and the error of that one. -/
def outcome (k : Kernel) (replies : List Reply) : Sent where
  handed := replies.takeWhile k.accepts
  result := (replies.findSome? fun r => k.refuses r.2).elim (.ok ()) .error

theorem outcome_of_all {k : Kernel} {replies : List Reply}
    (h : ∀ r ∈ replies, k.accepts r = true) : outcome k replies = ⟨replies, .ok ()⟩ := by
  have hquiet : replies.findSome? (fun r => k.refuses r.2) = none := by
    rw [List.findSome?_eq_none_iff]
    intro r hr
    exact accepts_iff.1 (h r hr)
  rw [outcome, List.takeWhile_eq_self_iff.2 h, hquiet]
  rfl

theorem outcome_of_refused {k : Kernel} {taken : List Reply} {r : Reply} {e : IoError}
    (h : ∀ r ∈ taken, k.accepts r = true) (hr : k.refuses r.2 = some e) (rest : List Reply) :
    outcome k (taken ++ r :: rest) = ⟨taken, .error e⟩ := by
  have hrefused : k.accepts r = false := by
    simp [Kernel.accepts, hr]
  have hquiet : taken.findSome? (fun r => k.refuses r.2) = none := by
    rw [List.findSome?_eq_none_iff]
    intro s hs
    exact accepts_iff.1 (h s hs)
  rw [outcome, List.takeWhile_append_of_pos h, List.findSome?_append, hquiet]
  simp [hrefused, hr]

/-- From any point of the loop at which everything in front of it was taken, the loop comes to
the same. -/
theorem sendFrom_eq (k : Kernel) (replies : List Reply) (call sent : ℕ)
    (h : ∀ r ∈ replies.take sent, k.accepts r = true) :
    sendFrom k replies call sent (replies.take sent) = outcome k replies := by
  -- The induction is on what is left to send: a turn that goes on has sent something.
  induction hleft : replies.length - sent using Nat.strong_induction_on generalizing call sent with
  | _ left ih =>
    rw [sendFrom]
    by_cases hmore : sent < replies.length
    · have hchunk : (replies.drop sent).take batch ≠ [] := by
        simp [batch, hmore]
      simp only [hmore, if_true]
      cases hcall : sendChunk k call ((replies.drop sent).take batch) with
      | error e =>
        obtain ⟨r, hhead, hr⟩ := sendmmsg_error hcall
        have hdrop : (replies.drop sent).head? = some r := by
          simpa [batch, List.head?_take] using hhead
        obtain ⟨rest, hrest⟩ := List.head?_eq_some_iff.1 hdrop
        have hout := outcome_of_refused h hr rest
        rw [← hrest, List.take_append_drop] at hout
        exact hout.symm
      | ok n =>
        obtain ⟨hpos, hlen, htaken⟩ := sendmmsg_ok hchunk hcall
        have hn : n ≤ batch := hlen.trans (List.length_take_le _ _)
        have hgrow : replies.take sent ++ ((replies.drop sent).take batch).take n =
            replies.take (sent + n) := by
          rw [List.take_take, min_eq_left hn, List.take_add]
        simp only [hpos.ne', if_false]
        rw [hgrow]
        apply ih _ _ _ _ _ rfl
        · omega
        · intro r hr
          rw [← hgrow, List.mem_append] at hr
          exact hr.elim (h r) (htaken r)
    · have hall : replies.take sent = replies := List.take_of_length_le (by omega)
      rw [hall] at h
      simp only [hmore, if_false, hall, outcome_of_all h]

/-- What `send` comes to. -/
theorem send_eq (k : Kernel) (replies : List Reply) : send k replies = outcome k replies := by
  have h := sendFrom_eq k replies 0 0 (by simp)
  rwa [List.take_zero] at h

/-! ## Whose reply is lost -/

/-- What is taken from the front is all there is to take exactly when nothing of it stands
behind something else. -/
theorem takeWhile_eq_filter_iff {α : Type} (p : α → Bool) (l : List α) :
    l.takeWhile p = l.filter p ↔ l.Pairwise fun a b => p b = true → p a = true := by
  induction l with
  | nil => simp
  | cons a l ih =>
    by_cases ha : p a = true
    · simp [ha, ih]
    · rw [List.takeWhile_cons_of_neg ha, List.filter_cons_of_neg ha, List.pairwise_cons,
        eq_comm, List.filter_eq_nil_iff]
      constructor
      · intro h
        exact ⟨fun b hb hpb => absurd hpb (h b hb),
          List.pairwise_of_forall_mem_list fun a _ b hb hpb => absurd hpb (h b hb)⟩
      · intro h b hb hpb
        exact ha (h.1 b hb hpb)

/-- **One refused reply.**  Every reply the kernel would take is handed to it once and in
order, by `send` and so by the turn of the loop that calls it, if and only if none of them
stands behind one that is refused. -/
theorem refused_reply_costs_only_itself_iff (k : Kernel) (replies : List Reply) :
    ((send k replies).handed = replies.filter k.accepts ↔
      replies.Pairwise fun r r' => k.accepts r' = true → k.accepts r = true) ∧
    (udpTurn k replies).1 = (send k replies).handed := by
  constructor
  · rw [send_eq]
    exact takeWhile_eq_filter_iff k.accepts replies
  · unfold udpTurn
    cases replies with
    | nil =>
      rw [send_eq]
      rfl
    | cons r rest => cases (send k (r :: rest)).result <;> rfl

/-- A client that cannot be reached, and one that can. -/
def unreachable : SocketAddr := .v4 ⟨10, 0, 0, 9⟩ 40000

def reachable : SocketAddr := .v4 ⟨10, 0, 0, 7⟩ 40000

/-- `EHOSTUNREACH` for the one. -/
def halfReached : Kernel where
  refuses dest := if dest = unreachable then some ⟨113⟩ else none
  room _ := 31

/-- The second client's answer is lost with the first one's. -/
theorem good_reply_lost_behind_refused :
    ¬ (send halfReached [([], unreachable), ([], reachable)]).handed =
        [([], unreachable), ([], reachable)].filter halfReached.accepts ∧
      (udpTurn halfReached [([], unreachable), ([], reachable)]) = ([], some ⟨113⟩) := by
  unfold udpTurn
  rw [send_eq]
  decide

end Ferrite.Dns.UdpBatch
