import Ferrite.Lib.Bytes

/-!
# Little-endian fields

Numbers as bytes, the least significant one first, and records of fields of fixed widths.

* `ofLe_le` — a number that fits its width reads back;
* `leAt_fields` — so does every field of a record, at the sum of the widths before it.
-/

namespace LittleEndian

/-- The `w` lowest bytes of a number, the least significant one first. -/
def le : ℕ → ℕ → Bytes
  | 0, _ => []
  | w + 1, n => UInt8.ofNat n :: le w (n / 256)

/-- The number that bytes stand for, the least significant one first. -/
def ofLe (bs : Bytes) : ℕ := bs.foldr (fun b acc => b.toNat + 256 * acc) 0

@[simp] theorem length_le (w n : ℕ) : (le w n).length = w := by
  induction w generalizing n with
  | zero => rfl
  | succ w ih => rw [le, List.length_cons, ih]

theorem ofLe_le {w n : ℕ} (h : n < 256 ^ w) : ofLe (le w n) = n := by
  induction w generalizing n with
  | zero =>
    rw [Nat.pow_zero] at h
    obtain rfl : n = 0 := by omega
    rfl
  | succ w ih =>
    rw [Nat.pow_succ] at h
    have hrest := ih (n := n / 256) (by omega)
    rw [le]
    change (UInt8.ofNat n).toNat + 256 * ofLe (le w (n / 256)) = n
    rw [hrest, UInt8.toNat_ofNat']
    omega

/-- A field of `w` bytes at an offset, if the buffer has it. -/
def leAt (w : ℕ) (m : Bytes) (off : ℕ) : Option ℕ :=
  if off + w ≤ m.length then some (ofLe ((m.drop off).take w)) else none

/-- A stretch of the buffer, if it has it. -/
def slice (m : Bytes) (off len : ℕ) : Option Bytes :=
  if off + len ≤ m.length then some ((m.drop off).take len) else none

/-- What stands behind something that is there is a stretch. -/
theorem slice_of_drop {m x bs rest : Bytes} {off : ℕ} (h : m.drop off = x ++ (bs ++ rest))
    (hx : x ≠ []) : slice m (off + x.length) bs.length = some bs := by
  have hlen := congrArg List.length h
  have hpos := List.length_pos_iff.2 hx
  rw [List.length_drop, List.length_append, List.length_append] at hlen
  unfold slice
  rw [if_pos (by omega), ← List.drop_drop, h, List.drop_left', List.take_left']
  · rfl
  · rfl

theorem slice_eq_some {m bs : Bytes} {off len : ℕ} (h : slice m off len = some bs) :
    bs.length = len ∧ bs = (m.drop off).take len := by
  unfold slice at h
  rw [Option.ite_none_right_eq_some] at h
  obtain ⟨hle, hbs⟩ := h
  obtain rfl := Option.some.inj hbs
  refine ⟨?_, rfl⟩
  rw [List.length_take, List.length_drop]
  omega

/-! ## Records -/

/-- A record: its fields by their widths and values. -/
def fields (fs : List (ℕ × ℕ)) : Bytes := fs.flatMap fun f => le f.1 f.2

/-- The width of a record. -/
def width (fs : List (ℕ × ℕ)) : ℕ := (fs.map Prod.fst).sum

@[simp] theorem width_nil : width [] = 0 := rfl

@[simp] theorem width_cons (f : ℕ × ℕ) (fs : List (ℕ × ℕ)) : width (f :: fs) = f.1 + width fs := by
  rw [width, List.map_cons, List.sum_cons, width]

@[simp] theorem length_fields (fs : List (ℕ × ℕ)) : (fields fs).length = width fs := by
  rw [fields, List.length_flatMap, width]
  simp only [length_le]

/-- **A field reads back** at the width of the ones before it. -/
theorem leAt_fields {m rest : Bytes} {off w v : ℕ} {fs : List (ℕ × ℕ)}
    (h : m.drop off = fields fs ++ rest) (i : ℕ) (hi : fs[i]? = some (w, v)) (hw : 0 < w)
    (hv : v < 256 ^ w) : leAt w m (off + width (fs.take i)) = some v := by
  obtain ⟨hlt, hget⟩ := List.getElem?_eq_some_iff.1 hi
  have hsplit : fields fs = fields (fs.take i) ++ (le w v ++ fields (fs.drop (i + 1))) := by
    conv_lhs => rw [← List.take_append_drop i fs, List.drop_eq_getElem_cons hlt, hget]
    unfold fields
    rw [List.flatMap_append, List.flatMap_cons]
  have hlen := congrArg List.length h
  rw [List.length_drop, hsplit] at hlen
  simp only [List.length_append, length_fields, length_le] at hlen
  unfold leAt
  rw [if_pos (by omega), ← List.drop_drop, h, hsplit, List.append_assoc, List.append_assoc,
    List.drop_left' (length_fields _), List.take_left' (length_le w v), ofLe_le hv]

end LittleEndian
