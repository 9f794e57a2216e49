import Mathlib.Algebra.Order.Ring.Nat
import Mathlib.Data.List.Basic
import Mathlib.Tactic.Common

/-!
# Byte buffers

A buffer is a list of bytes that is read and patched at offsets.  Reads outside
it give zero, so that they are total; a development that relies on them shows the
bounds on its own.  Writes keep the length.

* `readU32_overwrite` — what is written reads back;
* `AgreeOn` — two buffers agree on a range of offsets, the way every frame
  condition about patches is stated.
-/

/-- A byte buffer. -/
abbrev Bytes := List UInt8

namespace Bytes

/-- The byte at an offset, zero outside the buffer. -/
def byteAt (m : Bytes) (i : ℕ) : UInt8 := m[i]?.getD 0

/-- A big-endian 16-bit field. -/
def readU16 (m : Bytes) (i : ℕ) : UInt16 :=
  UInt16.ofNat ((m.byteAt i).toNat * 256 + (m.byteAt (i + 1)).toNat)

/-- A big-endian 32-bit field. -/
def readU32 (m : Bytes) (i : ℕ) : UInt32 :=
  UInt32.ofNat ((m.byteAt i).toNat * 256 ^ 3 + (m.byteAt (i + 1)).toNat * 256 ^ 2 +
    (m.byteAt (i + 2)).toNat * 256 + (m.byteAt (i + 3)).toNat)

/-- `u16::to_be_bytes`. -/
def ofU16 (v : UInt16) : Bytes := [UInt8.ofNat (v.toNat / 256), UInt8.ofNat v.toNat]

/-- `u32::to_be_bytes`. -/
def ofU32 (v : UInt32) : Bytes :=
  [UInt8.ofNat (v.toNat / 256 ^ 3), UInt8.ofNat (v.toNat / 256 ^ 2), UInt8.ofNat (v.toNat / 256),
    UInt8.ofNat v.toNat]

/-- `copy_from_slice` into the buffer at an offset. -/
def overwrite (m : Bytes) (off : ℕ) (bs : Bytes) : Bytes :=
  m.mapIdx fun i b => if off ≤ i ∧ i < off + bs.length then bs.getD (i - off) b else b

@[simp] theorem length_overwrite (m : Bytes) (off : ℕ) (bs : Bytes) :
    (m.overwrite off bs).length = m.length := List.length_mapIdx

theorem getElem?_overwrite_of_lt {m : Bytes} {off : ℕ} {bs : Bytes} {i : ℕ} (h : i < off) :
    (m.overwrite off bs)[i]? = m[i]? := by
  have hi : ¬ (off ≤ i ∧ i < off + bs.length) := by omega
  simp [overwrite, hi]

theorem getElem?_overwrite_of_ge {m : Bytes} {off : ℕ} {bs : Bytes} {i : ℕ}
    (h : off + bs.length ≤ i) : (m.overwrite off bs)[i]? = m[i]? := by
  have hi : ¬ (off ≤ i ∧ i < off + bs.length) := by omega
  simp [overwrite, hi]

/-- Inside the written range the buffer holds what was written. -/
theorem byteAt_overwrite {m : Bytes} {off : ℕ} (bs : Bytes) (k : ℕ) (hk : k < bs.length)
    (hm : off + bs.length ≤ m.length) : (m.overwrite off bs).byteAt (off + k) = bs.byteAt k := by
  have hi : off ≤ off + k ∧ off + k < off + bs.length := by omega
  have hlt : off + k < m.length := by omega
  simp [byteAt, overwrite, hi, hk, hlt]

/-- Any two bytes are those of a number. -/
theorem ofU16_bytes (hi lo : UInt8) :
    ofU16 (UInt16.ofNat (hi.toNat * 256 + lo.toNat)) = [hi, lo] := by
  have hhi := hi.toNat_lt
  have hlo := lo.toNat_lt
  have hn : (UInt16.ofNat (hi.toNat * 256 + lo.toNat)).toNat = hi.toNat * 256 + lo.toNat := by
    rw [UInt16.toNat_ofNat']
    omega
  rw [ofU16, hn]
  congr 1
  · apply UInt8.toNat_inj.1
    rw [UInt8.toNat_ofNat']
    omega
  · congr 1
    apply UInt8.toNat_inj.1
    rw [UInt8.toNat_ofNat']
    omega

theorem readU16_overwrite {m : Bytes} {off : ℕ} (v : UInt16) (hm : off + 2 ≤ m.length) :
    (m.overwrite off (ofU16 v)).readU16 off = v := by
  have h0 := byteAt_overwrite (ofU16 v) 0 (by simp [ofU16]) hm
  have h1 := byteAt_overwrite (ofU16 v) 1 (by simp [ofU16]) hm
  have hlt := v.toNat_lt
  rw [Nat.add_zero] at h0
  rw [readU16, h0, h1]
  apply UInt16.toNat_inj.1
  simp only [byteAt, ofU16, UInt8.toNat_ofNat', UInt16.toNat_ofNat', List.getElem?_cons_zero,
    List.getElem?_cons_succ, Option.getD_some]
  omega

theorem readU32_overwrite {m : Bytes} {off : ℕ} (v : UInt32) (hm : off + 4 ≤ m.length) :
    (m.overwrite off (ofU32 v)).readU32 off = v := by
  have h0 := byteAt_overwrite (ofU32 v) 0 (by simp [ofU32]) hm
  have h1 := byteAt_overwrite (ofU32 v) 1 (by simp [ofU32]) hm
  have h2 := byteAt_overwrite (ofU32 v) 2 (by simp [ofU32]) hm
  have h3 := byteAt_overwrite (ofU32 v) 3 (by simp [ofU32]) hm
  have hlt := v.toNat_lt
  rw [Nat.add_zero] at h0
  rw [readU32, h0, h1, h2, h3]
  apply UInt32.toNat_inj.1
  simp only [byteAt, ofU32, UInt8.toNat_ofNat', UInt32.toNat_ofNat', List.getElem?_cons_zero,
    List.getElem?_cons_succ, Option.getD_some]
  omega

/-- A write replaces a stretch of the buffer. -/
theorem overwrite_eq {m : Bytes} {off : ℕ} {bs : Bytes} (h : off + bs.length ≤ m.length) :
    m.overwrite off bs = m.take off ++ (bs ++ m.drop (off + bs.length)) := by
  have hoff : (m.take off).length = off := by
    rw [List.length_take, Nat.min_eq_left (by omega)]
  apply List.ext_getElem?
  intro i
  by_cases hlt : i < off
  · rw [getElem?_overwrite_of_lt hlt, List.getElem?_append_left (by omega),
      List.getElem?_take_of_lt hlt]
  · rw [List.getElem?_append_right (by omega), hoff]
    by_cases hin : i < off + bs.length
    · have hi : off ≤ i ∧ i < off + bs.length := by omega
      have hm : i < m.length := by omega
      have hk : i - off < bs.length := by omega
      rw [List.getElem?_append_left hk]
      simp [overwrite, hi, hm, hk]
    · rw [getElem?_overwrite_of_ge (by omega), List.getElem?_append_right (by omega),
        List.getElem?_drop]
      congr 1
      omega

/-- Writing what is there already changes nothing. -/
theorem overwrite_self {m : Bytes} {off : ℕ} {bs : Bytes} (h : (m.drop off).take bs.length = bs) :
    m.overwrite off bs = m := by
  have hlen : min bs.length (m.length - off) = bs.length := by
    simpa using congrArg List.length h
  by_cases hfits : off + bs.length ≤ m.length
  · rw [overwrite_eq hfits]
    nth_rewrite 1 [← h]
    rw [← List.drop_drop, List.take_append_drop, List.take_append_drop]
  · -- nothing can be written behind the end
    obtain rfl : bs = [] := List.length_eq_zero_iff.1 (by omega)
    simp [overwrite, List.mapIdx_eq_iff]

/-! ## Agreement -/

/-- The buffers agree on the offsets from `a` up to, not including, `b`. -/
def AgreeOn (m m' : Bytes) (a b : ℕ) : Prop := ∀ i, a ≤ i → i < b → m'[i]? = m[i]?

theorem AgreeOn.mono {m m' : Bytes} {a b c d : ℕ} (h : AgreeOn m m' a b) (hac : a ≤ c)
    (hdb : d ≤ b) : AgreeOn m m' c d := fun i hi hi' => h i (by omega) (by omega)

theorem AgreeOn.symm {m m' : Bytes} {a b : ℕ} (h : AgreeOn m m' a b) : AgreeOn m' m a b :=
  fun i hi hi' => (h i hi hi').symm

theorem AgreeOn.byteAt {m m' : Bytes} {a b : ℕ} (h : AgreeOn m m' a b) {i : ℕ} (ha : a ≤ i)
    (hb : i < b) : m'.byteAt i = m.byteAt i := by
  rw [Bytes.byteAt, h i ha hb, Bytes.byteAt]

theorem AgreeOn.readU16 {m m' : Bytes} {a b : ℕ} (h : AgreeOn m m' a b) {i : ℕ} (ha : a ≤ i)
    (hb : i + 2 ≤ b) : m'.readU16 i = m.readU16 i := by
  simp only [Bytes.readU16]
  rw [h.byteAt ha (by omega), h.byteAt (by omega : a ≤ i + 1) (by omega)]

theorem AgreeOn.readU32 {m m' : Bytes} {a b : ℕ} (h : AgreeOn m m' a b) {i : ℕ} (ha : a ≤ i)
    (hb : i + 4 ≤ b) : m'.readU32 i = m.readU32 i := by
  simp only [Bytes.readU32]
  rw [h.byteAt ha (by omega), h.byteAt (by omega : a ≤ i + 1) (by omega),
    h.byteAt (by omega : a ≤ i + 2) (by omega), h.byteAt (by omega : a ≤ i + 3) (by omega)]

/-! ## Concatenation -/

theorem AgreeOn.trans {m m' m'' : Bytes} {a b : ℕ} (h : AgreeOn m m' a b) (h' : AgreeOn m' m'' a b) :
    AgreeOn m m'' a b := fun i hi hi' => (h' i hi hi').trans (h i hi hi')

theorem agreeOn_append (m t : Bytes) (a : ℕ) : AgreeOn m (m ++ t) a m.length :=
  fun _ _ hi => List.getElem?_append_left hi

theorem byteAt_append_right (m t : Bytes) {i k : ℕ} (h : i = m.length + k) :
    (m ++ t).byteAt i = t.byteAt k := by
  subst h
  rw [byteAt, byteAt, List.getElem?_append_right (by omega)]
  congr 2
  omega

theorem readU16_append_right (m t : Bytes) {i k : ℕ} (h : i = m.length + k) :
    (m ++ t).readU16 i = t.readU16 k := by
  simp only [readU16]
  rw [byteAt_append_right m t h, byteAt_append_right m t (k := k + 1) (by omega)]

theorem readU32_append_right (m t : Bytes) {i k : ℕ} (h : i = m.length + k) :
    (m ++ t).readU32 i = t.readU32 k := by
  simp only [readU32]
  rw [byteAt_append_right m t h, byteAt_append_right m t (k := k + 1) (by omega),
    byteAt_append_right m t (k := k + 2) (by omega),
    byteAt_append_right m t (k := k + 3) (by omega)]

theorem readU16_ofU16_append (v : UInt16) (t : Bytes) : (ofU16 v ++ t).readU16 0 = v := by
  have hlt := v.toNat_lt
  apply UInt16.toNat_inj.1
  simp only [readU16, byteAt, ofU16, List.cons_append, List.nil_append, List.getElem?_cons_zero,
    List.getElem?_cons_succ, Option.getD_some, UInt8.toNat_ofNat', UInt16.toNat_ofNat']
  omega

theorem readU32_ofU32_append (v : UInt32) (t : Bytes) : (ofU32 v ++ t).readU32 0 = v := by
  have hlt := v.toNat_lt
  apply UInt32.toNat_inj.1
  simp only [readU32, byteAt, ofU32, List.cons_append, List.nil_append, List.getElem?_cons_zero,
    List.getElem?_cons_succ, Option.getD_some, UInt8.toNat_ofNat', UInt32.toNat_ofNat']
  omega

/-- A byte, as a stretch of the buffer. -/
theorem take_drop_one {m : Bytes} {i : ℕ} (h : i < m.length) : (m.drop i).take 1 = [m.byteAt i] := by
  rw [List.drop_eq_getElem_cons h, List.take_succ_cons, List.take_zero, byteAt,
    List.getElem?_eq_getElem h, Option.getD_some]

/-- A 16-bit field is its two bytes. -/
theorem take_drop_of_readU16 {m : Bytes} {i : ℕ} (h : i + 2 ≤ m.length) :
    (m.drop i).take 2 = ofU16 (m.readU16 i) := by
  have h0 : i < m.length := by omega
  have h1 : i + 1 < m.length := by omega
  rw [List.drop_eq_getElem_cons h0, List.drop_eq_getElem_cons h1]
  have ha := (m[i]).toNat_lt
  have hb := (m[i + 1]).toNat_lt
  simp only [List.take_succ_cons, List.take_zero, ofU16, readU16, byteAt,
    List.getElem?_eq_getElem h0, List.getElem?_eq_getElem h1, Option.getD_some, UInt16.toNat_ofNat']
  refine List.cons_eq_cons.2 ⟨?_, List.cons_eq_cons.2 ⟨?_, rfl⟩⟩
  · apply UInt8.toNat_inj.1
    rw [UInt8.toNat_ofNat']
    omega
  · apply UInt8.toNat_inj.1
    rw [UInt8.toNat_ofNat']
    omega

/-- Buffers that agree on a range have the same stretch there. -/
theorem AgreeOn.take_drop {m m' : Bytes} {a b : ℕ} (h : AgreeOn m m' a b) {i n : ℕ} (ha : a ≤ i)
    (hb : i + n ≤ b) : (m'.drop i).take n = (m.drop i).take n := by
  apply List.ext_getElem?
  intro k
  by_cases hk : k < n
  · rw [List.getElem?_take_of_lt hk, List.getElem?_take_of_lt hk, List.getElem?_drop,
      List.getElem?_drop, h _ (by omega) (by omega)]
  · rw [List.getElem?_take_eq_none (by omega), List.getElem?_take_eq_none (by omega)]

end Bytes
