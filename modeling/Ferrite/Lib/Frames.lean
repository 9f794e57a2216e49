import Ferrite.Lib.Bytes

/-!
# Messages behind their length

A stream of messages, each behind its length in two bytes.

* `readFrame_frame` — what was framed is read back, whatever follows;
* `frames_flatMap` — the frames of a stream of framed messages are the messages;
* `frames_append_extends` — bytes that come later change no frame that is complete.
-/

namespace Frames

/-- A message behind its length. -/
def frame (m : Bytes) : Bytes := Bytes.ofU16 (UInt16.ofNat m.length) ++ m

/-- The first message of a stream, if all of it is there, and the bytes behind it. -/
def readFrame : Bytes → Option (Bytes × Bytes)
  | hi :: lo :: rest =>
    let n := hi.toNat * 256 + lo.toNat
    if n ≤ rest.length then some (rest.take n, rest.drop n) else none
  | _ => none

/-- The complete messages of a stream, at most `limit` of them. -/
def framesUpTo : (limit : ℕ) → Bytes → List Bytes
  | 0, _ => []
  | limit + 1, bs =>
    match readFrame bs with
    | none => []
    | some (m, rest) => m :: framesUpTo limit rest

/-- The complete messages of a stream. -/
def frames (bs : Bytes) : List Bytes := framesUpTo bs.length bs

theorem readFrame_frame {m : Bytes} (h : m.length < 2 ^ 16) (rest : Bytes) :
    readFrame (frame m ++ rest) = some (m, rest) := by
  have hlen : (UInt16.ofNat m.length).toNat = m.length := by
    rw [UInt16.toNat_ofNat']
    exact Nat.mod_eq_of_lt h
  have hn : (UInt8.ofNat (m.length / 256)).toNat * 256 + (UInt8.ofNat m.length).toNat =
      m.length := by
    rw [UInt8.toNat_ofNat', UInt8.toNat_ofNat']
    omega
  simp only [frame, Bytes.ofU16, hlen, List.cons_append, List.nil_append, readFrame, hn]
  rw [if_pos (by simp), List.take_left, List.drop_left]

theorem readFrame_eq_some_iff {bs m rest : Bytes} : readFrame bs = some (m, rest) ↔
    ∃ len, len.length = 2 ∧ bs = len ++ m ++ rest ∧ (Bytes.readU16 len 0).toNat = m.length := by
  have hlen : ∀ hi lo : UInt8, (Bytes.readU16 [hi, lo] 0).toNat = hi.toNat * 256 + lo.toNat := by
    intro hi lo
    have := hi.toNat_lt
    have := lo.toNat_lt
    show (UInt16.ofNat (hi.toNat * 256 + lo.toNat)).toNat = _
    rw [UInt16.toNat_ofNat']
    exact Nat.mod_eq_of_lt (by omega)
  constructor
  · intro h
    match bs with
    | [] => simp [readFrame] at h
    | [_] => simp [readFrame] at h
    | hi :: lo :: tail =>
      simp only [readFrame, Option.ite_none_right_eq_some, Option.some.injEq,
        Prod.mk.injEq] at h
      obtain ⟨hle, rfl, rfl⟩ := h
      refine ⟨[hi, lo], rfl, by simp, ?_⟩
      rw [hlen, List.length_take, Nat.min_eq_left hle]
  · rintro ⟨len, htwo, rfl, hm⟩
    obtain ⟨hi, lo, rfl⟩ := List.length_eq_two.1 htwo
    rw [hlen] at hm
    simp only [List.cons_append, List.nil_append, readFrame, hm]
    rw [if_pos (by simp), List.take_left, List.drop_left]

/-- Later bytes end up behind the message. -/
theorem readFrame_append {bs m rest : Bytes} (h : readFrame bs = some (m, rest)) (t : Bytes) :
    readFrame (bs ++ t) = some (m, rest ++ t) := by
  match bs with
  | [] => simp [readFrame] at h
  | [_] => simp [readFrame] at h
  | hi :: lo :: tail =>
    simp only [readFrame, List.cons_append, Option.ite_none_right_eq_some, Option.some.injEq,
      Prod.mk.injEq] at h ⊢
    obtain ⟨hle, hm, hrest⟩ := h
    refine ⟨by rw [List.length_append]; omega, ?_, ?_⟩
    · rw [List.take_append_of_le_length hle, hm]
    · rw [List.drop_append_of_le_length hle, hrest]

theorem framesUpTo_append_extends {limit limit' : ℕ} (h : limit ≤ limit') (s t : Bytes) :
    framesUpTo limit s <+: framesUpTo limit' (s ++ t) := by
  induction limit generalizing limit' s with
  | zero => exact List.nil_prefix
  | succ limit ih =>
    obtain ⟨limit', rfl⟩ : ∃ n, limit' = n + 1 := ⟨limit' - 1, by omega⟩
    cases hread : readFrame s with
    | none =>
      rw [framesUpTo, hread]
      exact List.nil_prefix
    | some r =>
      obtain ⟨m, rest⟩ := r
      simp only [framesUpTo, hread, readFrame_append hread t]
      exact (List.prefix_cons_inj m).2 (ih (by omega) rest)

theorem frames_append_extends (s t : Bytes) : frames s <+: frames (s ++ t) :=
  framesUpTo_append_extends (by simp) s t

theorem framesUpTo_flatMap {ms : List Bytes} (hms : ∀ m ∈ ms, m.length < 2 ^ 16) {limit : ℕ}
    (h : ms.length ≤ limit) : framesUpTo limit (ms.flatMap frame) = ms := by
  induction ms generalizing limit with
  | nil =>
    cases limit with
    | zero => rfl
    | succ limit => rfl
  | cons m ms ih =>
    obtain ⟨limit, rfl⟩ : ∃ n, limit = n + 1 :=
      ⟨limit - 1, by rw [List.length_cons] at h; omega⟩
    rw [List.flatMap_cons, framesUpTo, readFrame_frame (hms m (List.mem_cons_self ..))]
    simp only
    rw [ih (fun m' hm' => hms m' (List.mem_cons_of_mem _ hm')) (by simpa using h)]

theorem length_le_length_flatMap (ms : List Bytes) : ms.length ≤ (ms.flatMap frame).length := by
  induction ms with
  | nil => exact le_refl _
  | cons m ms ih =>
    rw [List.flatMap_cons, List.length_append, List.length_cons, frame, List.length_append]
    have : (Bytes.ofU16 (UInt16.ofNat m.length)).length = 2 := rfl
    omega

theorem frames_flatMap {ms : List Bytes} (hms : ∀ m ∈ ms, m.length < 2 ^ 16) :
    frames (ms.flatMap frame) = ms :=
  framesUpTo_flatMap hms (length_le_length_flatMap ms)

end Frames
