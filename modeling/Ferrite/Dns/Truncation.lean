import Ferrite.Dns.Invented

/-!
# Answers over UDP

`for_wire` sends an answer as it is if the client takes that much in one datagram, and else
what `truncate_response` leaves of it: the header with TC set and no records, and the first
question.  That is a message again if the question is the only one, and it fits if the
question does.

* `truncateResponse_of_question`, `truncateResponse_of_no_question` — what is left;
* `walk_truncated`, `new_truncated_eq_none` — how it reads;
* `udp_answer_fits_iff` — when what is sent is short enough and can be read.
-/

namespace Ferrite.Dns

open Bytes Wire

/-- `MAX_UDP_PAYLOAD`. -/
def maxUdpPayload : ℕ := 4096

/-- `client_udp_payload`. -/
def clientUdpPayload (query : Bytes) : ℕ := min (udpPayload query) maxUdpPayload

/-- `truncate_response`. -/
def truncateResponse (resp : Bytes) : Bytes :=
  if resp.length < 12 then resp
  else
    let out : Bytes := resp.take 12
    let out : Bytes := out.overwrite 2 [out.byteAt 2 ||| 0b00000010]
    let out : Bytes := out.overwrite 6 [0, 0, 0, 0, 0, 0]
    match questionEnd resp with
    | some stop => out ++ (resp.take stop).drop 12
    -- no readable question: the header announces none
    | none => out.overwrite 4 [0, 0]

/-- `for_wire`. -/
def forWire (resp : Bytes) (maxUdp : ℕ) : Option Bytes :=
  if resp.isEmpty then none
  else some (if maxUdp < resp.length then truncateResponse resp else resp)

/-! ## What is left of a long answer -/

/-- A truncated answer, read byte by byte. -/
theorem truncateResponse_eq {resp : Bytes} (h : headerLen ≤ resp.length) :
    ∃ a b f g c d, resp.take 6 = [a, b, f, g, c, d] ∧
      (∀ stop, questionEnd resp = some stop → truncateResponse resp =
        [a, b, f ||| 0b00000010, g, c, d, 0, 0, 0, 0, 0, 0] ++ questionBytes resp stop) ∧
      (questionEnd resp = none → truncateResponse resp =
        [a, b, f ||| 0b00000010, g, 0, 0, 0, 0, 0, 0, 0, 0]) := by
  match resp, h with
  | a :: b :: f :: g :: c :: d :: r₀ :: r₁ :: r₂ :: r₃ :: r₄ :: r₅ :: rest, _ =>
    refine ⟨a, b, f, g, c, d, rfl, ?_, ?_⟩
    · intro stop hq
      simp [truncateResponse, hq, overwrite, byteAt, questionBytes, headerLen]
    · intro hq
      simp [truncateResponse, hq, overwrite, byteAt]

/-- What a truncated answer that keeps its question is: as long as header and question, with the
ID and the number of questions of the answer, TC, no records, and the question. -/
structure KeepsQuestion (resp : Bytes) (stop : ℕ) (out : Bytes) : Prop where
  length : out.length = stop
  id : out.take 2 = resp.take 2
  truncated : out.byteAt 2 &&& 0b00000010 = 0b00000010
  questions : out.readU16 4 = resp.readU16 4
  answers : out.readU16 6 = 0
  authorities : out.readU16 8 = 0
  additionals : out.readU16 10 = 0
  question : AgreeOn resp out headerLen stop

theorem take_two_of_take_six {resp : Bytes} {a b f g c d : UInt8}
    (h : resp.take 6 = [a, b, f, g, c, d]) : resp.take 2 = [a, b] := by
  have htwo : (resp.take 6).take 2 = resp.take 2 := by
    rw [List.take_take]
    rfl
  rw [← htwo, h]
  rfl

theorem or_and_self (f m : UInt8) : (f ||| m) &&& m = m := by
  apply UInt8.toNat_inj.1
  rw [UInt8.toNat_and, UInt8.toNat_or]
  apply Nat.eq_of_testBit_eq
  intro i
  rw [Nat.testBit_and, Nat.testBit_or]
  cases f.toNat.testBit i <;> cases m.toNat.testBit i <;> rfl

theorem keepsQuestion_truncateResponse {resp : Bytes} {stop : ℕ} (h : questionEnd resp = some stop) :
    KeepsQuestion resp stop (truncateResponse resp) := by
  obtain ⟨hlt, hle⟩ := headerLen_lt_questionEnd h
  simp only [headerLen] at hlt
  obtain ⟨a, b, f, g, c, d, hsix, hsome, -⟩ := truncateResponse_eq (show 12 ≤ resp.length by omega)
  have hlen := length_questionBytes h
  have hag : AgreeOn resp (resp.take 6) 0 6 := fun i _ hi => List.getElem?_take_of_lt hi
  have hread : resp.readU16 4 = readU16 (resp.take 6) 4 := (hag.readU16 (by omega) le_rfl).symm
  rw [hsome stop h]
  refine ⟨?_, ?_, ?_, ?_, ?_, ?_, ?_, ?_⟩
  · simp only [List.length_append, List.length_cons, List.length_nil, hlen, headerLen]
    omega
  · rw [take_two_of_take_six hsix]
    rfl
  · simpa [byteAt] using or_and_self f 0b00000010
  · rw [hread, hsix]
    simp [readU16, byteAt]
  · simp [readU16, byteAt]
  · simp [readU16, byteAt]
  · simp [readU16, byteAt]
  · intro i hi hi'
    simp only [headerLen] at hi
    rw [List.getElem?_append_right hi, questionBytes, List.getElem?_drop, List.getElem?_take_of_lt]
    · simp only [List.length_cons, List.length_nil, headerLen]
      congr 1
      omega
    · simp only [List.length_cons, List.length_nil, headerLen]
      omega

/-! ## How it reads -/

/-- A message without records that ends behind its questions. -/
theorem holds_of_new {out : Bytes} (h : RecordCursor.new out = some ⟨out.length, 0, 0, 0⟩) :
    Holds out [] := by
  have hwalk : walk out = some ([], true) := walk_eq_some_iff.2 ⟨_, h, rfl⟩
  refine ⟨hwalk, ?_⟩
  rw [walkEnd_eq h hwalk]
  rfl

/-- With one question, the answer is a message. -/
theorem KeepsQuestion.holds {resp out : Bytes} {stop : ℕ} (h : KeepsQuestion resp stop out)
    (hq : questionEnd resp = some stop) (hone : resp.readU16 4 = 1) : Holds out [] := by
  apply holds_of_new
  rw [new_of_question hq h.question h.length.ge (by rw [h.questions, hone]), h.answers,
    h.authorities, h.additionals, h.length]
  rfl

/-- With more than one, the second question is looked for behind the end. -/
theorem KeepsQuestion.new_eq_none {resp out : Bytes} {stop : ℕ} (h : KeepsQuestion resp stop out)
    (hq : questionEnd resp = some stop) (hone : resp.readU16 4 ≠ 1) :
    RecordCursor.new out = none := by
  obtain ⟨-, hzero, -, i, hname, hstop⟩ := questionEnd_eq_some_iff.1 hq
  have hlt := (skipNameFrom_bounds (skipNameFrom_of_questionNameEnd hname)).1
  have hskip : skipName out headerLen = some i :=
    skipName_agree (skipNameFrom_of_questionNameEnd hname) (h.question.mono le_rfl (by omega))
      (by rw [h.length]; omega)
  obtain ⟨n, hn⟩ : ∃ n, (resp.readU16 4).toNat = n + 2 := by
    have h0 : (resp.readU16 4).toNat ≠ 0 := fun h0 => hzero (UInt16.toNat_inj.1 h0)
    have h1 : (resp.readU16 4).toNat ≠ 1 := fun h1 => hone (UInt16.toNat_inj.1 h1)
    exact ⟨(resp.readU16 4).toNat - 2, by omega⟩
  cases hnew : RecordCursor.new out with
  | none => rfl
  | some c =>
    have hquestions := (new_eq_some_iff.1 hnew).2.1
    rw [h.questions, hn] at hquestions
    unfold RecordCursor.skipQuestions at hquestions
    simp only [hskip] at hquestions
    rw [if_neg (by rw [h.length]; omega)] at hquestions
    unfold RecordCursor.skipQuestions at hquestions
    cases hnext : skipName out (i + 4) with
    | none => simp [hnext] at hquestions
    | some j =>
      have hb := skipName_bounds hnext
      rw [h.length] at hb
      omega

/-- Without a readable question, only the header is left. -/
theorem truncateResponse_of_no_question {resp : Bytes} (hlen : headerLen ≤ resp.length)
    (h : questionEnd resp = none) :
    (truncateResponse resp).length = headerLen ∧
      (truncateResponse resp).take 2 = resp.take 2 ∧
      (truncateResponse resp).byteAt 2 &&& 0b00000010 = 0b00000010 ∧
      Holds (truncateResponse resp) [] := by
  obtain ⟨a, b, f, g, c, d, hsix, -, hnone⟩ := truncateResponse_eq hlen
  rw [hnone h]
  refine ⟨rfl, ?_, ?_, holds_of_new ?_⟩
  · rw [take_two_of_take_six hsix]
    rfl
  · simpa [byteAt] using or_and_self f 0b00000010
  · simp [RecordCursor.new, headerLen, readU16, byteAt, RecordCursor.skipQuestions]

/-! ## What the client gets -/

/-- What is sent over UDP for an answer: no more than the query takes, with the ID of the
answer, readable, and the answer itself or a truncated one that holds what its counts say. -/
structure Fits (query resp sent : Bytes) : Prop where
  short : sent.length ≤ udpPayload query
  id : sent.take 2 = resp.take 2
  readable : isWellFormed sent = true
  content : sent = resp ∨
    (sent.byteAt 2 &&& 0b00000010 = 0b00000010 ∧ walkEnd sent = some sent.length)

theorem minUdpPayload_le_udpPayload (query : Bytes) : minUdpPayload ≤ udpPayload query := by
  unfold udpPayload
  cases walk query with
  | none => exact le_rfl
  | some w =>
    have hfold : ∀ (rs : List RecordRef) (p : ℕ), p ≤
        rs.foldl (fun p r => if r.isEdns then max p r.class'.toNat else p) p := by
      intro rs
      induction rs with
      | nil => exact fun p => le_rfl
      | cons r rs ih =>
        intro p
        refine le_trans ?_ (ih _)
        show p ≤ if r.isEdns then max p r.class'.toNat else p
        split
        · exact le_max_left _ _
        · exact le_rfl
    exact hfold w.1 minUdpPayload

/-- An answer over UDP is fit to be read if and only if it is short enough to be sent whole, or
its question is the only one and short enough. -/
theorem udp_answer_fits_iff (query resp : Bytes) (h : isWellFormed resp = true) :
    (∃ sent, forWire resp (clientUdpPayload query) = some sent ∧ Fits query resp sent) ↔
      (resp.length ≤ clientUdpPayload query ∨
        ∀ stop, questionEnd resp = some stop →
          resp.readU16 4 = 1 ∧ stop ≤ udpPayload query) := by
  obtain ⟨rs, hwalk⟩ := isWellFormed_iff.1 h
  obtain ⟨c, hnew, -⟩ := walk_eq_some_iff.1 hwalk
  have hlen : headerLen ≤ resp.length := (new_eq_some_iff.1 hnew).1
  have hsend : forWire resp (clientUdpPayload query) =
      some (if clientUdpPayload query < resp.length then truncateResponse resp else resp) := by
    unfold forWire
    rw [if_neg]
    simp only [headerLen] at hlen
    intro hempty
    rw [List.isEmpty_iff.1 hempty] at hlen
    simp at hlen
  simp only [hsend, Option.some.injEq, exists_eq_left']
  by_cases hshort : resp.length ≤ clientUdpPayload query
  · rw [if_neg (by omega)]
    refine ⟨fun _ => .inl hshort, fun _ => ?_⟩
    exact ⟨le_trans hshort (min_le_left _ _), rfl, h, .inl rfl⟩
  · rw [if_pos (by omega)]
    constructor
    · intro hfits
      refine .inr ?_
      intro stop hq
      have hkeeps := keepsQuestion_truncateResponse hq
      refine ⟨?_, hkeeps.length ▸ hfits.short⟩
      by_contra hone
      have hreads := hfits.readable
      rw [isWellFormed, walk, hkeeps.new_eq_none hq hone] at hreads
      cases hreads
    · rintro (hle | hcond)
      · exact absurd hle hshort
      · cases hq : questionEnd resp with
        | some stop =>
          obtain ⟨hone, hle⟩ := hcond stop hq
          have hkeeps := keepsQuestion_truncateResponse hq
          have hholds := hkeeps.holds hq hone
          exact ⟨hkeeps.length ▸ hle, hkeeps.id, isWellFormed_iff.2 ⟨_, hholds.walks⟩,
            .inr ⟨hkeeps.truncated, hholds.ends⟩⟩
        | none =>
          obtain ⟨hsize, hid, htc, hholds⟩ := truncateResponse_of_no_question hlen hq
          refine ⟨?_, hid, isWellFormed_iff.2 ⟨_, hholds.walks⟩, .inr ⟨htc, hholds.ends⟩⟩
          rw [hsize]
          exact le_trans (by decide) (minUdpPayload_le_udpPayload query)

namespace Example

/-- A query without EDNS, so that 512 bytes is all it takes. -/
def plainQuery : Bytes := [0, 7, 1, 0, 0, 1, 0, 0, 0, 0, 0, 0, 1, 0x78, 0, 0, 1, 0, 1]

/-- An answer with a TXT record of 600 bytes behind the given questions. -/
def longAnswer (count : UInt8) (questions : Bytes) : Bytes :=
  [0, 7, 0x81, 0x80, 0, count, 0, 1, 0, 0, 0, 0] ++ questions ++
    [0xC0, 0x0C, 0, 16, 0, 1, 0, 0, 0, 60, 2, 88] ++ List.replicate 600 0

/-- The question of `plainQuery`. -/
def questionX : Bytes := [1, 0x78, 0, 0, 1, 0, 1]

end Example

open Example

theorem udp_answer_fits_long :
    ∃ sent, forWire (longAnswer 1 questionX) (clientUdpPayload plainQuery) = some sent ∧
      Fits plainQuery (longAnswer 1 questionX) sent := by
  refine (udp_answer_fits_iff plainQuery (longAnswer 1 questionX) (by decide +kernel)).2 (.inr ?_)
  intro stop hq
  have hstop : questionEnd (longAnswer 1 questionX) = some 19 := by decide +kernel
  rw [hstop] at hq
  cases hq
  decide +kernel

/-- An answer with two questions: one is cut off and still counted. -/
theorem second_question_cut_off :
    isWellFormed (longAnswer 2 (questionX ++ questionX)) = true ∧
      (∃ sent, forWire (longAnswer 2 (questionX ++ questionX)) (clientUdpPayload plainQuery) =
        some sent ∧ isWellFormed sent = false) ∧
      ¬ ∃ sent, forWire (longAnswer 2 (questionX ++ questionX)) (clientUdpPayload plainQuery) =
        some sent ∧ Fits plainQuery (longAnswer 2 (questionX ++ questionX)) sent := by
  have hsent : forWire (longAnswer 2 (questionX ++ questionX)) (clientUdpPayload plainQuery) =
      some ([0, 7, 0x83, 0x80, 0, 2, 0, 0, 0, 0, 0, 0] ++ questionX) := by decide +kernel
  have hbad : isWellFormed ([0, 7, 0x83, 0x80, 0, 2, 0, 0, 0, 0, 0, 0] ++ questionX) = false := by
    decide +kernel
  refine ⟨by decide +kernel, ⟨_, hsent, hbad⟩, ?_⟩
  rintro ⟨sent, h, hfits⟩
  rw [hsent] at h
  cases h
  have hgood := hfits.readable
  rw [hbad] at hgood
  cases hgood

end Ferrite.Dns
