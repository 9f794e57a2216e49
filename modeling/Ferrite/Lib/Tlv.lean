import Ferrite.Lib.Bytes

/-!
# Fields of tag, length and payload

A buffer of fields, each a tag byte, a length byte and that many bytes of payload, with a
pad byte that is skipped and a stop byte that ends the list.  The length has one byte, so a
payload of 256 bytes or more is written with a length that is too short, and what follows
is read from the middle of it.

* `fields_put` — what reading makes of one written field, of any length;
* `fields_encode_iff` — a written list reads back exactly when every payload fits its length
  byte, for values that a cut payload cannot be mistaken for.
-/

namespace Tlv

/-- One field on the wire; the length is cut to a byte. -/
def put (tag : UInt8) (data : Bytes) : Bytes := tag :: UInt8.ofNat data.length :: data

section Reading

variable {A : Type} (pad stop : UInt8) (read : UInt8 → Bytes → A)

/-- The reading loop, which takes at least one byte a turn; `none` where a field runs past
the end of the buffer. -/
def loop : (turns : ℕ) → Bytes → Option (List A)
  | _, [] => some []
  | 0, _ => some []
  | turns + 1, tag :: rest =>
    if tag = pad then loop turns rest
    else if tag = stop then some []
    else
      match rest with
      | [] => none
      | len :: rest =>
        if len.toNat ≤ rest.length then
          (loop turns (rest.drop len.toNat)).map (read tag (rest.take len.toNat) :: ·)
        else none

/-- The fields of a buffer, each through `read`. -/
def fields (buf : Bytes) : Option (List A) := loop pad stop read buf.length buf

variable {pad stop read}

@[simp] theorem loop_nil (turns : ℕ) : loop pad stop read turns [] = some [] := by
  cases turns <;> rfl

/-- Turns beyond the length of the buffer change nothing. -/
theorem loop_of_le {turns : ℕ} {buf : Bytes} (h : buf.length ≤ turns) :
    loop pad stop read turns buf = fields pad stop read buf := by
  unfold fields
  induction turns using Nat.strong_induction_on generalizing buf with
  | _ turns ih =>
    match turns, buf with
    | _, [] => rw [loop_nil, loop_nil]
    | 0, _ :: _ => simp at h
    | turns + 1, tag :: rest =>
      rw [List.length_cons] at h ⊢
      unfold loop
      have hrest : loop pad stop read turns rest = loop pad stop read rest.length rest :=
        ih turns (by omega) (by omega)
      split_ifs
      · exact hrest
      · rfl
      · match rest with
        | [] => rfl
        | len :: rest =>
          rw [List.length_cons] at h
          dsimp only
          split_ifs
          · have hdrop : (rest.drop len.toNat).length ≤ rest.length := by
              rw [List.length_drop]
              omega
            -- both sides have turns enough for what is behind the field
            rw [ih turns (by omega) (by omega : (rest.drop len.toNat).length ≤ turns)]
            by_cases hturns : rest.length + 1 < turns + 1
            · rw [List.length_cons, ih (rest.length + 1) hturns (by omega)]
            · rw [List.length_cons, show rest.length + 1 = turns by omega,
                ih turns (by omega) (by omega)]
          · rfl

@[simp] theorem fields_nil : fields pad stop read [] = some [] := rfl

theorem fields_cons (tag : UInt8) (rest : Bytes) :
    fields pad stop read (tag :: rest) =
      if tag = pad then fields pad stop read rest
      else if tag = stop then some []
      else
        match rest with
        | [] => none
        | len :: rest =>
          if len.toNat ≤ rest.length then
            (fields pad stop read (rest.drop len.toNat)).map (read tag (rest.take len.toNat) :: ·)
          else none := by
  rw [fields, List.length_cons]
  unfold loop
  split_ifs
  · rfl
  · rfl
  · match rest with
    | [] => rfl
    | len :: rest =>
      dsimp only
      rw [loop_of_le (by simp only [List.length_drop, List.length_cons]; omega)]

/-- The stop byte ends the list, whatever is behind it. -/
theorem fields_stop (hstop : stop ≠ pad) (rest : Bytes) :
    fields pad stop read (stop :: rest) = some [] := by
  rw [fields_cons, if_neg hstop, if_pos rfl]

/-- **A written field as it is read.**  The reader takes as many bytes as the length byte
says and goes on from there. -/
theorem fields_put {tag : UInt8} (hpad : tag ≠ pad) (hstop : tag ≠ stop) (data rest : Bytes) :
    fields pad stop read (put tag data ++ rest) =
      (fields pad stop read (data.drop (data.length % 256) ++ rest)).map
        (read tag (data.take (data.length % 256)) :: ·) := by
  have hlen : (UInt8.ofNat data.length).toNat = data.length % 256 := UInt8.toNat_ofNat'
  have hle : data.length % 256 ≤ data.length := Nat.mod_le _ _
  have hfits : data.length % 256 ≤ (data ++ rest).length := by
    rw [List.length_append]
    omega
  rw [put, List.cons_append, List.cons_append, fields_cons, if_neg hpad, if_neg hstop]
  dsimp only
  rw [hlen, if_pos hfits, List.drop_append_of_le_length hle, List.take_append_of_le_length hle]

theorem fields_put_of_le {tag : UInt8} (hpad : tag ≠ pad) (hstop : tag ≠ stop) {data : Bytes}
    (h : data.length ≤ 255) (rest : Bytes) :
    fields pad stop read (put tag data ++ rest) =
      (fields pad stop read rest).map (read tag data :: ·) := by
  have hmod : data.length % 256 = data.length := Nat.mod_eq_of_lt (by omega)
  rw [fields_put hpad hstop, hmod, List.drop_length, List.take_length, List.nil_append]

/-- The induction over a buffer that reads: past a pad byte, to the stop byte, over a field. -/
theorem fields_induction {motive : Bytes → List A → Prop} (nil : motive [] [])
    (skip : ∀ rest as, motive rest as → motive (pad :: rest) as)
    (halt : stop ≠ pad → ∀ rest, motive (stop :: rest) [])
    (field : ∀ tag len rest as, tag ≠ pad → tag ≠ stop → len.toNat ≤ rest.length →
      motive (rest.drop len.toNat) as →
      motive (tag :: len :: rest) (read tag (rest.take len.toNat) :: as))
    {buf : Bytes} {as : List A} (h : fields pad stop read buf = some as) : motive buf as := by
  generalize hn : buf.length = n
  induction n using Nat.strong_induction_on generalizing buf as with
  | _ n ih =>
    match buf with
    | [] =>
      cases h
      exact nil
    | tag :: rest =>
      rw [List.length_cons] at hn
      rw [fields_cons] at h
      split_ifs at h with hpad hstop
      · subst hpad
        exact skip rest as (ih rest.length (by omega) h rfl)
      · subst hstop
        cases h
        exact halt hpad rest
      · match rest with
        | [] => cases h
        | len :: rest =>
          rw [List.length_cons] at hn
          dsimp only at h
          split_ifs at h with hlen
          obtain ⟨as', has', rfl⟩ := Option.map_eq_some_iff.1 h
          have hlt : (rest.drop len.toNat).length < n := by
            rw [List.length_drop]
            omega
          exact field tag len rest as' hpad hstop hlen (ih _ hlt has' rfl)

end Reading

variable {A : Type} {pad stop : UInt8} {read : UInt8 → Bytes → A}

/-- The fields as they are, unread. -/
def raw (pad stop : UInt8) (buf : Bytes) : Option (List (UInt8 × Bytes)) :=
  fields pad stop Prod.mk buf

/-- Reading the fields is reading each of the raw ones. -/
theorem fields_eq_map_raw {buf : Bytes} {as : List A} (h : fields pad stop read buf = some as) :
    ∃ fs, raw pad stop buf = some fs ∧ as = fs.map (fun f => read f.1 f.2) ∧
      ∀ f ∈ fs, f.1 ≠ pad ∧ f.1 ≠ stop ∧ f.2.length ≤ 255 := by
  refine fields_induction (motive := fun buf as => ∃ fs, raw pad stop buf = some fs ∧
    as = fs.map (fun f => read f.1 f.2) ∧
      ∀ f ∈ fs, f.1 ≠ pad ∧ f.1 ≠ stop ∧ f.2.length ≤ 255) ?_ ?_ ?_ ?_ h
  · exact ⟨[], rfl, rfl, by simp⟩
  · rintro rest as ⟨fs, hfs, has⟩
    refine ⟨fs, ?_, has⟩
    rw [raw, fields_cons, if_pos rfl]
    exact hfs
  · intro hstop rest
    exact ⟨[], fields_stop hstop rest, rfl, by simp⟩
  · rintro tag len rest as hpad hstop hlen ⟨fs, hfs, rfl, hall⟩
    refine ⟨(tag, rest.take len.toNat) :: fs, ?_, rfl, ?_⟩
    · rw [raw, fields_cons, if_neg hpad, if_neg hstop]
      dsimp only
      rw [if_pos hlen, show fields pad stop Prod.mk (rest.drop len.toNat) = some fs from hfs]
      rfl
    · rw [List.forall_mem_cons]
      refine ⟨⟨hpad, hstop, ?_⟩, hall⟩
      have hlt := len.toNat_lt
      rw [List.length_take]
      omega

/-- **When a written list reads back.**  Every value reads back from its own payload and
from no cut one: then the list does exactly when each payload fits its length byte. -/
theorem fields_encode_iff {tag : A → UInt8} {payload : A → Bytes} (hsp : stop ≠ pad)
    {as : List A} (htag : ∀ a ∈ as, tag a ≠ pad ∧ tag a ≠ stop)
    (hread : ∀ a ∈ as, read (tag a) (payload a) = a)
    (hcut : ∀ a ∈ as, 255 < (payload a).length →
      read (tag a) ((payload a).take ((payload a).length % 256)) ≠ a) (rest : Bytes) :
    fields pad stop read (as.flatMap (fun a => put (tag a) (payload a)) ++ stop :: rest) =
        some as ↔ ∀ a ∈ as, (payload a).length ≤ 255 := by
  induction as with
  | nil => simpa using fields_stop hsp rest
  | cons a as ih =>
    rw [List.forall_mem_cons] at htag hread hcut ⊢
    specialize ih htag.2 hread.2 hcut.2
    rw [List.flatMap_cons, List.append_assoc]
    by_cases hle : (payload a).length ≤ 255
    · rw [fields_put_of_le htag.1.1 htag.1.2 hle, hread.1, and_iff_right hle, ← ih]
      constructor
      · intro h
        obtain ⟨as', has', heq⟩ := Option.map_eq_some_iff.1 h
        rw [has', (List.cons.inj heq).2]
      · intro h
        rw [h, Option.map_some]
    · -- the first value whose payload is too long is read as another one
      refine iff_of_false (fun h => ?_) (fun h => hle h.1)
      rw [fields_put htag.1.1 htag.1.2] at h
      obtain ⟨as', -, heq⟩ := Option.map_eq_some_iff.1 h
      exact hcut.1 (by omega) (List.cons.inj heq).1

end Tlv
