import Ferrite.Lib.Hops
import Ferrite.Proxy.Peek

/-!
# Where a ClientHello is split

To get past a filter that looks for a host name in one segment, the egress of
`proxy/src/egress/evasion.rs` sends a ClientHello in two, cut in the middle of the name.
Where the name is it asks `sni_host_range` of `edge/src/peek/sni.rs`, which goes through the
record a second time, after `parse_sni` has read the name from it: on positions in the
record, where that goes into the slice of each part.

* `parseClientHello_iff`, `recordHostRange_iff` — what each of the two reads, as hops over the
  entries of the record;
* `splits_the_name_iff` — they agree on a buffer exactly when its lengths and its names are in
  order, and wherever a range is found the cut falls inside it;
* `clamped_block_found` — a record whose extensions are said to go on behind it.
-/

namespace Ferrite.Proxy

/-! ## The second reading -/

/-- The loop of `host_name_range`. -/
def hostNameFrom : ℕ → ByteReader → ℕ → Option (ℕ × ℕ)
  | 0, _, _ => none
  | fuel + 1, r, stop =>
    if r.pos + 3 ≤ stop then do
      let (nameType, r) ← r.u8
      let (nameLen, r) ← r.u16
      let nameStart := r.pos
      if stop < nameStart + nameLen then none
      else if nameType = sniHostName ∧ 0 < nameLen then some (nameStart, nameLen)
      else hostNameFrom fuel { r with pos := nameStart + nameLen } stop
    else none

/-- `host_name_range`.  A round of its loop takes at least three bytes. -/
def hostNameRange (rec : Bytes) (dataStart dataLen : ℕ) : Option (ℕ × ℕ) := do
  let stop := min (dataStart + dataLen) rec.length
  let (_, r) ← ByteReader.u16 ⟨rec, dataStart⟩
  hostNameFrom dataLen r stop

/-- The loop of `sni_host_range` over the extensions. -/
def hostRangeFrom : ℕ → ByteReader → ℕ → Option (ℕ × ℕ)
  | 0, _, _ => none
  | fuel + 1, r, extEnd =>
    if r.pos + 4 ≤ extEnd then do
      let (extType, r) ← r.u16
      let (extLen, r) ← r.u16
      let extDataStart := r.pos
      let r ← r.skip extLen
      if extType = extServerName then hostNameRange r.b extDataStart extLen
      else hostRangeFrom fuel r extEnd
    else none

/-- `sni_host_range` on the first record. -/
def recordHostRange (rec : Bytes) : Option (ℕ × ℕ) := do
  let r ← (ByteReader.new rec).skip 5
  let (kind, r) ← r.u8
  if kind ≠ clientHello then none
  else
    let (_, r) ← r.u24
    let r ← r.skip (2 + 32)
    let (sessionIdLen, r) ← r.u8
    let r ← r.skip sessionIdLen.toNat
    let (cipherSuitesLen, r) ← r.u16
    let r ← r.skip cipherSuitesLen
    let (compressionLen, r) ← r.u8
    let r ← r.skip compressionLen.toNat
    let (extTotal, r) ← r.u16
    let extEnd := min (r.pos + extTotal) rec.length
    hostRangeFrom (rec.length + 1) r extEnd

/-- `sni_host_range`. -/
def sniHostRange (buf : Bytes) : Option (ℕ × ℕ) :=
  if buf.length < 5 ∨ buf.byteAt 0 ≠ tlsHandshake then none
  else
    let recordEnd := 5 + (buf.readU16 3).toNat
    if buf.length < recordEnd then none else recordHostRange (buf.take recordEnd)

/-- `split_position`, with the offset of the parameters. -/
def splitPosition (buf : Bytes) (segPosition : Option UInt16) : Option ℕ :=
  match segPosition.filter fun p => decide (0 < p.toNat ∧ p.toNat < buf.length) with
  | some p => some p.toNat
  | none => do
    let (start, len) ← sniHostRange buf
    let pos := start + len / 2
    if 0 < pos ∧ pos < buf.length then some pos else none

/-- `write_split`: what it writes, segment by segment. -/
def writeSplit (buf : Bytes) (segPosition : Option UInt16) : List Bytes :=
  match splitPosition buf segPosition with
  | some pos => [buf.take pos, buf.drop pos]
  | none => [buf]

/-! ## Reads by position -/

/-- The number at a position. -/
def numAt (b : Bytes) (p : ℕ) : ℕ := (b.byteAt p).toNat * 256 + (b.byteAt (p + 1)).toNat

/-- A part of the bytes, seen from its start. -/
theorem byteAt_slice {b : Bytes} {k n i : ℕ} (h : i < n) :
    Bytes.byteAt ((b.drop k).take n) i = b.byteAt (k + i) := by
  rw [Bytes.byteAt, Bytes.byteAt, List.getElem?_take_of_lt h, List.getElem?_drop]

theorem byteAt_drop (b : Bytes) (k i : ℕ) : Bytes.byteAt (b.drop k) i = b.byteAt (k + i) := by
  rw [Bytes.byteAt, Bytes.byteAt, List.getElem?_drop]

theorem numAt_drop (b : Bytes) (k i : ℕ) : numAt (b.drop k) i = numAt b (k + i) := by
  rw [numAt, numAt, byteAt_drop, byteAt_drop, Nat.add_assoc]

theorem numAt_slice {b : Bytes} {k n i : ℕ} (h : i + 2 ≤ n) :
    numAt ((b.drop k).take n) i = numAt b (k + i) := by
  rw [numAt, numAt, byteAt_slice (by omega), byteAt_slice (by omega), Nat.add_assoc]

/-- A part of a part. -/
theorem slice_slice {b : Bytes} {k n i m : ℕ} (h : i + m ≤ n) :
    (((b.drop k).take n).drop i).take m = (b.drop (k + i)).take m := by
  rw [List.drop_take, List.drop_drop, List.take_take, Nat.min_eq_left (by omega)]

namespace ByteReader

variable (r : ByteReader)

theorem u8_eq : r.u8 =
    if r.pos + 1 ≤ r.b.length then some (r.b.byteAt r.pos, { r with pos := r.pos + 1 }) else none := by
  unfold u8 Bytes.byteAt
  by_cases h : r.pos < r.b.length
  · simp [List.getElem?_eq_getElem h, Nat.succ_le_of_lt h]
  · have hnone : r.b[r.pos]? = none := List.getElem?_eq_none (Nat.le_of_not_lt h)
    have hnot : ¬ r.pos + 1 ≤ r.b.length := by omega
    simp [hnone, hnot]

theorem u16_eq : r.u16 =
    if r.pos + 2 ≤ r.b.length then some (numAt r.b r.pos, { r with pos := r.pos + 2 }) else none := by
  unfold u16 numAt Bytes.byteAt
  by_cases h : r.pos + 1 < r.b.length
  · have h' : r.pos < r.b.length := Nat.lt_of_succ_lt h
    simp [List.getElem?_eq_getElem h, List.getElem?_eq_getElem h', Nat.succ_le_of_lt h]
  · have hnone : r.b[r.pos + 1]? = none := List.getElem?_eq_none (Nat.le_of_not_lt h)
    have hnot : ¬ r.pos + 2 ≤ r.b.length := by omega
    cases r.b[r.pos]? <;> simp [hnone, hnot]

theorem skip_eq (n : ℕ) : r.skip n =
    if r.pos + n ≤ r.b.length then some { r with pos := r.pos + n } else none := by
  unfold skip
  by_cases h : r.pos + n ≤ r.b.length
  · rw [if_pos h, if_neg (by omega)]
  · rw [if_neg h, if_pos (by omega)]

theorem slice_eq (n : ℕ) : r.slice n =
    if r.pos + n ≤ r.b.length then some ((r.b.drop r.pos).take n, { r with pos := r.pos + n })
    else none := by
  unfold slice
  by_cases h : r.pos + n ≤ r.b.length
  · rw [if_pos h, if_neg (by omega)]
  · rw [if_neg h, if_pos (by omega)]

theorem u24_eq : ∃ v, r.u24 =
    if r.pos + 3 ≤ r.b.length then some (v, { r with pos := r.pos + 3 }) else none := by
  unfold u24
  by_cases h : r.pos + 2 < r.b.length
  · have h₁ : r.pos + 1 < r.b.length := Nat.lt_of_succ_lt h
    have h₀ : r.pos < r.b.length := Nat.lt_of_succ_lt h₁
    refine ⟨r.b[r.pos].toNat * 256 ^ 2 + r.b[r.pos + 1].toNat * 256 + r.b[r.pos + 2].toNat, ?_⟩
    simp [List.getElem?_eq_getElem h, List.getElem?_eq_getElem h₁, List.getElem?_eq_getElem h₀,
      Nat.succ_le_of_lt h]
  · have hnone : r.b[r.pos + 2]? = none := List.getElem?_eq_none (Nat.le_of_not_lt h)
    have hnot : ¬ r.pos + 3 ≤ r.b.length := by omega
    refine ⟨0, ?_⟩
    cases r.b[r.pos]? <;> cases r.b[r.pos + 1]? <;> simp [hnone, hnot]

end ByteReader

/-! ## The head of the message -/

namespace ByteReader

variable (r : ByteReader)

/-- Past a field with a length of one byte. -/
def skipU8 : Option ByteReader := do
  let (n, r) ← r.u8
  r.skip n.toNat

/-- Past a field with a length of two bytes. -/
def skipU16 : Option ByteReader := do
  let (n, r) ← r.u16
  r.skip n

theorem skipU8_eq : r.skipU8 =
    if r.pos + 1 + (r.b.byteAt r.pos).toNat ≤ r.b.length then
      some { r with pos := r.pos + 1 + (r.b.byteAt r.pos).toNat } else none := by
  unfold skipU8
  rw [u8_eq]
  by_cases h : r.pos + 1 ≤ r.b.length
  · rw [if_pos h, Option.bind_eq_bind, Option.bind_some]
    exact skip_eq _ _
  · rw [if_neg h, if_neg (by omega)]
    rfl

theorem skipU16_eq : r.skipU16 =
    if r.pos + 2 + numAt r.b r.pos ≤ r.b.length then
      some { r with pos := r.pos + 2 + numAt r.b r.pos } else none := by
  unfold skipU16
  rw [u16_eq]
  by_cases h : r.pos + 2 ≤ r.b.length
  · rw [if_pos h, Option.bind_eq_bind, Option.bind_some]
    exact skip_eq _ _
  · rw [if_neg h, if_neg (by omega)]
    rfl

end ByteReader

/-- Where the cipher suites of a message start that goes on at `p` after its kind: behind its
session id. -/
def cipherSuitesAt (b : Bytes) (p : ℕ) : ℕ := p + 37 + 1 + (b.byteAt (p + 37)).toNat

/-- Where its compression methods start. -/
def compressionAt (b : Bytes) (p : ℕ) : ℕ := cipherSuitesAt b p + 2 + numAt b (cipherSuitesAt b p)

/-- Where the length of its extensions stands, -/
def totalAt (b : Bytes) (p : ℕ) : ℕ :=
  compressionAt b p + 1 + (b.byteAt (compressionAt b p)).toNat

/-- and what it is. -/
def extTotal (b : Bytes) (p : ℕ) : ℕ := numAt b (totalAt b p)

/-- What both readings do from there on up to the extensions. -/
def helloHead (r : ByteReader) : Option (ℕ × ByteReader) := do
  let (_, r) ← r.u24
  let r ← r.skip (2 + 32)
  let r ← r.skipU8
  let r ← r.skipU16
  let r ← r.skipU8
  r.u16

theorem helloHead_eq (r : ByteReader) : helloHead r =
    if totalAt r.b r.pos + 2 ≤ r.b.length then
      some (extTotal r.b r.pos, { r with pos := totalAt r.b r.pos + 2 }) else none := by
  obtain ⟨v, hv⟩ := r.u24_eq
  have hite : ∀ {A B : Type} (c : Prop) [Decidable c] (a : A) (f : A → Option B),
      ((if c then some a else none) >>= f) = if c then f a else none := by
    intro A B c _ a f
    split <;> rfl
  have hsuites : r.pos + 37 + 1 ≤ cipherSuitesAt r.b r.pos := Nat.le_add_right ..
  have hmethods : cipherSuitesAt r.b r.pos + 2 ≤ compressionAt r.b r.pos := Nat.le_add_right ..
  have htotal : compressionAt r.b r.pos + 1 ≤ totalAt r.b r.pos := Nat.le_add_right ..
  unfold helloHead
  simp only [hv, hite, ByteReader.skip_eq, ByteReader.skipU8_eq, ByteReader.skipU16_eq,
    ByteReader.u16_eq]
  -- each step stops at the end of the bytes, and the last of them goes furthest
  show (if r.pos + 3 ≤ r.b.length then if r.pos + 37 ≤ r.b.length then
    if cipherSuitesAt r.b r.pos ≤ r.b.length then if compressionAt r.b r.pos ≤ r.b.length then
    if totalAt r.b r.pos ≤ r.b.length then if totalAt r.b r.pos + 2 ≤ r.b.length then
      some (extTotal r.b r.pos, { r with pos := totalAt r.b r.pos + 2 })
    else none else none else none else none else none else none) = _
  by_cases h : totalAt r.b r.pos + 2 ≤ r.b.length
  · rw [if_pos (by omega), if_pos (by omega), if_pos (by omega), if_pos (by omega),
      if_pos (by omega)]
  · rw [if_neg h]
    split_ifs <;> rfl

/-- A message that starts behind some bytes. -/
theorem totalAt_drop (b : Bytes) (k p : ℕ) : k + totalAt (b.drop k) p = totalAt b (k + p) := by
  have hbyte : ∀ i, Bytes.byteAt (b.drop k) i = b.byteAt (k + i) := byteAt_drop b k
  have hnum : ∀ i, numAt (b.drop k) i = numAt b (k + i) := numAt_drop b k
  have hsuites : k + cipherSuitesAt (b.drop k) p = cipherSuitesAt b (k + p) := by
    rw [cipherSuitesAt, cipherSuitesAt, hbyte, ← Nat.add_assoc k p 37]
    omega
  have hmethods : k + compressionAt (b.drop k) p = compressionAt b (k + p) := by
    rw [compressionAt, compressionAt, hnum, hsuites, ← hsuites]
    omega
  rw [totalAt, totalAt, hbyte, hmethods, ← hmethods]
  omega

theorem ByteReader.skip_skip (r : ByteReader) (m n : ℕ) {A : Type} (f : ByteReader → Option A) :
    ((r.skip m).bind fun r => (r.skip n).bind f) = (r.skip (m + n)).bind f := by
  rw [skip_eq, skip_eq]
  by_cases hm : r.pos + m ≤ r.b.length
  · rw [if_pos hm, Option.bind_some, skip_eq, Nat.add_assoc]
  · rw [if_neg hm, if_neg (by omega)]
    rfl

theorem parseClientHello_eq (rec : Bytes) : parseClientHello rec =
    (ByteReader.u8 (.new rec)).bind fun x =>
      if x.1 ≠ clientHello then some none
      else (helloHead x.2).bind fun y => (y.2.slice y.1).bind fun z =>
        extensionsFrom (z.1.length + 1) (.new z.1) := by
  unfold parseClientHello
  refine Option.bind_congr fun ⟨kind, r⟩ _ => ?_
  dsimp only
  split
  · rfl
  · simp only [helloHead, ByteReader.skipU8, ByteReader.skipU16, Option.bind_eq_bind,
      Option.bind_assoc, ByteReader.skip_skip]

theorem recordHostRange_eq (rec : Bytes) : recordHostRange rec =
    ((ByteReader.new rec).skip 5).bind fun r => r.u8.bind fun x =>
      if x.1 ≠ clientHello then none
      else (helloHead x.2).bind fun y =>
        hostRangeFrom (rec.length + 1) y.2 (min (y.2.pos + y.1) rec.length) := by
  unfold recordHostRange
  refine Option.bind_congr fun r _ => Option.bind_congr fun ⟨kind, r⟩ _ => ?_
  dsimp only
  split
  · rfl
  · simp only [helloHead, ByteReader.skipU8, ByteReader.skipU16, Option.bind_eq_bind,
      Option.bind_assoc]

/-! ## The record -/

/-- Where the extensions of a record start. -/
def extStart (rec : Bytes) : ℕ := totalAt rec 6 + 2

/-- Where they are said to end. -/
def blockEnd (rec : Bytes) : ℕ := extStart rec + extTotal rec 6

/-- The record has the head of a ClientHello. -/
structure HelloAt (rec : Bytes) : Prop where
  kind : rec.byteAt 5 = clientHello
  head : extStart rec ≤ rec.length

theorem six_le_extStart (rec : Bytes) : 6 ≤ extStart rec := by
  unfold extStart totalAt compressionAt cipherSuitesAt
  omega

theorem parseClientHello_drop_iff {rec : Bytes} {host : Text} :
    parseClientHello (rec.drop 5) = some (some host) ↔
      HelloAt rec ∧ blockEnd rec ≤ rec.length ∧
        extensionsFrom (extTotal rec 6 + 1)
          (.new ((rec.drop (extStart rec)).take (extTotal rec 6))) = some (some host) := by
  have hsix := six_le_extStart rec
  have hstart : 5 + (totalAt (rec.drop 5) 1 + 2) = extStart rec := by
    rw [← Nat.add_assoc, totalAt_drop rec 5 1]
    rfl
  have htotal : extTotal (rec.drop 5) 1 = extTotal rec 6 := by
    rw [extTotal, numAt_drop, totalAt_drop rec 5 1]
    rfl
  have hlen : (rec.drop 5).length = rec.length - 5 := List.length_drop
  have hkind : Bytes.byteAt (rec.drop 5) 0 = rec.byteAt 5 := byteAt_drop rec 5 0
  rw [parseClientHello_eq]
  by_cases hshort : rec.length < 6
  · have hnone : (ByteReader.new (rec.drop 5)).u8 = none := by
      rw [ByteReader.u8_eq]
      exact if_neg (by show ¬ 0 + 1 ≤ (rec.drop 5).length; omega)
    rw [hnone]
    constructor
    · nofun
    · rintro ⟨hhello, -⟩
      have hhead := hhello.head
      omega
  have hfirst : (ByteReader.new (rec.drop 5)).u8 = some (rec.byteAt 5, ⟨rec.drop 5, 1⟩) := by
    rw [ByteReader.u8_eq, ← hkind]
    exact if_pos (by show 0 + 1 ≤ (rec.drop 5).length; omega)
  rw [hfirst, Option.bind_some]
  dsimp only
  rw [helloHead_eq]
  dsimp only
  by_cases hkind : rec.byteAt 5 = clientHello
  · rw [if_neg (not_not_intro hkind)]
    by_cases hhead : extStart rec ≤ rec.length
    · rw [if_pos (by omega), Option.bind_some, ByteReader.slice_eq]
      dsimp only
      rw [htotal, List.drop_drop, hstart]
      by_cases hfits : blockEnd rec ≤ rec.length
      · have hblock : ((rec.drop (extStart rec)).take (extTotal rec 6)).length = extTotal rec 6 := by
          rw [List.length_take, List.length_drop]
          unfold blockEnd at hfits
          omega
        rw [if_pos (by unfold blockEnd at hfits; omega), Option.bind_some]
        dsimp only
        rw [hblock]
        exact ⟨fun h => ⟨⟨hkind, hhead⟩, hfits, h⟩, fun h => h.2.2⟩
      · rw [if_neg (by unfold blockEnd at hfits; omega)]
        exact ⟨nofun, fun h => absurd h.2.1 hfits⟩
    · rw [if_neg (by omega)]
      exact ⟨nofun, fun h => absurd h.1.head hhead⟩
  · rw [if_pos hkind]
    exact ⟨nofun, fun h => absurd h.1.kind hkind⟩

theorem recordHostRange_eq_some_iff {rec : Bytes} {x : ℕ × ℕ} : recordHostRange rec = some x ↔
    HelloAt rec ∧ hostRangeFrom (rec.length + 1) ⟨rec, extStart rec⟩
      (min (blockEnd rec) rec.length) = some x := by
  have hsix := six_le_extStart rec
  rw [recordHostRange_eq]
  by_cases hshort : rec.length < 6
  · have hnone : ((ByteReader.new rec).skip 5).bind ByteReader.u8 = none := by
      rw [ByteReader.skip_eq]
      split
      · rw [Option.bind_some, ByteReader.u8_eq]
        exact if_neg (by show ¬ 0 + 5 + 1 ≤ rec.length; omega)
      · rfl
    rw [← Option.bind_assoc, hnone]
    constructor
    · nofun
    · rintro ⟨hhello, -⟩
      have hhead := hhello.head
      omega
  have hskip : (ByteReader.new rec).skip 5 = some ⟨rec, 5⟩ := by
    rw [ByteReader.skip_eq]
    exact if_pos (by show 0 + 5 ≤ rec.length; omega)
  have hfirst : ByteReader.u8 ⟨rec, 5⟩ = some (rec.byteAt 5, ⟨rec, 6⟩) := by
    rw [ByteReader.u8_eq]
    exact if_pos (by show 5 + 1 ≤ rec.length; omega)
  rw [hskip, Option.bind_some, hfirst, Option.bind_some]
  dsimp only
  rw [helloHead_eq]
  dsimp only
  by_cases hkind : rec.byteAt 5 = clientHello
  · rw [if_neg (not_not_intro hkind)]
    by_cases hhead : extStart rec ≤ rec.length
    · rw [if_pos (show totalAt rec 6 + 2 ≤ rec.length from hhead), Option.bind_some]
      exact ⟨fun h => ⟨⟨hkind, hhead⟩, h⟩, fun h => h.2⟩
    · rw [if_neg (show ¬ totalAt rec 6 + 2 ≤ rec.length from hhead)]
      exact ⟨nofun, fun h => absurd h.1.head hhead⟩
  · rw [if_pos hkind]
    exact ⟨nofun, fun h => absurd h.1.kind hkind⟩

/-! ## The entries of the record -/

section Entries

variable (rec : Bytes)

/-- The extension behind the one at `p`, which has a type, a length and its data. -/
def nextExt (p : ℕ) : ℕ := p + 4 + numAt rec (p + 2)

/-- Is it a server name? -/
def isServerName (p : ℕ) : Bool := decide (numAt rec p = extServerName)

/-- It starts before `stop`, with room for its length, and its data end up to `limit`. -/
def extFits (stop limit p : ℕ) : Bool := decide (p + 4 ≤ stop ∧ nextExt rec p ≤ limit)

/-- The name behind the one at `p`, which has a type, a length and its bytes. -/
def nextName (p : ℕ) : ℕ := p + 3 + numAt rec (p + 1)

/-- Is it of the type `host_name`? -/
def isHostName (p : ℕ) : Bool := decide (rec.byteAt p = sniHostName)

/-- And not empty? -/
def isNamedHost (p : ℕ) : Bool := isHostName rec p && decide (0 < numAt rec (p + 1))

/-- It ends up to `stop`. -/
def nameFits (stop p : ℕ) : Bool := decide (p + 3 ≤ stop ∧ nextName rec p ≤ stop)

/-- The bytes of the name at `q`. -/
def nameBytes (q : ℕ) : Bytes := (rec.drop (q + 3)).take (numAt rec (q + 1))

/-- What a host is read as. -/
def hostOf (name : Bytes) : Option Text :=
  (fromUtf8 name).bind fun t => if t = [] then none else some (hostText t)

variable {rec}

@[simp] theorem extFits_iff {stop limit p : ℕ} :
    extFits rec stop limit p = true ↔ p + 4 ≤ stop ∧ nextExt rec p ≤ limit :=
  decide_eq_true_iff

@[simp] theorem nameFits_iff {stop p : ℕ} :
    nameFits rec stop p = true ↔ p + 3 ≤ stop ∧ nextName rec p ≤ stop :=
  decide_eq_true_iff

@[simp] theorem isServerName_iff {p : ℕ} :
    isServerName rec p = true ↔ numAt rec p = extServerName :=
  decide_eq_true_iff

@[simp] theorem isHostName_iff {p : ℕ} : isHostName rec p = true ↔ rec.byteAt p = sniHostName :=
  decide_eq_true_iff

@[simp] theorem isNamedHost_iff {p : ℕ} :
    isNamedHost rec p = true ↔ rec.byteAt p = sniHostName ∧ 0 < numAt rec (p + 1) := by
  simp [isNamedHost]

/-- The loop of `host_name_range` walks over the names. -/
theorem hostNameFrom_eq {stop : ℕ} (hstop : stop ≤ rec.length) (fuel p : ℕ) :
    hostNameFrom fuel ⟨rec, p⟩ stop =
      (Hops.find? (nameFits rec stop) (isNamedHost rec) (nextName rec) fuel p).map
        fun q => (q + 3, numAt rec (q + 1)) := by
  induction fuel generalizing p with
  | zero => rfl
  | succ fuel ih =>
    unfold hostNameFrom Hops.find?
    dsimp only
    by_cases hroom : p + 3 ≤ stop
    · have htype : ByteReader.u8 ⟨rec, p⟩ = some (rec.byteAt p, ⟨rec, p + 1⟩) := by
        rw [ByteReader.u8_eq]
        exact if_pos (by show p + 1 ≤ rec.length; omega)
      have hlen : ByteReader.u16 ⟨rec, p + 1⟩ = some (numAt rec (p + 1), ⟨rec, p + 3⟩) := by
        rw [ByteReader.u16_eq]
        exact if_pos (by show p + 1 + 2 ≤ rec.length; omega)
      rw [if_pos hroom, htype, Option.bind_eq_bind, Option.bind_some, hlen, Option.bind_eq_bind,
        Option.bind_some]
      dsimp only
      by_cases hends : nextName rec p ≤ stop
      · have hfits : nameFits rec stop p = true := nameFits_iff.2 ⟨hroom, hends⟩
        rw [if_neg (show ¬ stop < p + 3 + numAt rec (p + 1) from Nat.not_lt.2 hends), hfits]
        by_cases hhere : isNamedHost rec p = true
        · rw [if_pos (isNamedHost_iff.1 hhere), if_neg (by simp), if_pos hhere, Option.map_some]
        · rw [if_neg fun h => hhere (isNamedHost_iff.2 h), if_neg (by simp), if_neg hhere]
          exact ih _
      · have hfits : nameFits rec stop p = false := by
          rw [← Bool.not_eq_true, nameFits_iff]
          exact fun h => hends h.2
        rw [if_pos (show stop < p + 3 + numAt rec (p + 1) from Nat.lt_of_not_le hends), hfits]
        rfl
    · have hfits : nameFits rec stop p = false := by
        rw [← Bool.not_eq_true, nameFits_iff]
        exact fun h => hroom h.1
      rw [if_neg hroom, hfits]
      rfl

/-- The loop of `parse_server_name` walks over the same names, in the slice of its data. -/
theorem serverNameFrom_eq {k n : ℕ} (hin : k + n ≤ rec.length) (fuel i : ℕ) :
    serverNameFrom fuel ⟨(rec.drop k).take n, i⟩ =
      (Hops.find? (nameFits rec (k + n)) (isHostName rec) (nextName rec) fuel (k + i)).bind
        fun q => hostOf (nameBytes rec q) := by
  induction fuel generalizing i with
  | zero => rfl
  | succ fuel ih =>
    have hlength : ((rec.drop k).take n).length = n := by
      rw [List.length_take, List.length_drop]
      omega
    unfold serverNameFrom Hops.find? ByteReader.remaining
    dsimp only
    rw [hlength]
    by_cases hroom : i + 3 ≤ n
    · have hroom₁ : i < n := by omega
      have hroom₃ : i + 1 + 2 ≤ n := hroom
      have htype : ByteReader.u8 ⟨(rec.drop k).take n, i⟩ =
          some (rec.byteAt (k + i), ⟨(rec.drop k).take n, i + 1⟩) := by
        rw [ByteReader.u8_eq, ← byteAt_slice hroom₁]
        exact if_pos (by show i + 1 ≤ ((rec.drop k).take n).length; omega)
      have hlen : ByteReader.u16 ⟨(rec.drop k).take n, i + 1⟩ =
          some (numAt rec (k + i + 1), ⟨(rec.drop k).take n, i + 3⟩) := by
        rw [ByteReader.u16_eq, if_pos (by show i + 1 + 2 ≤ ((rec.drop k).take n).length; omega)]
        exact congrArg (fun v => some (v, _)) (numAt_slice hroom₃)
      have hhop : nextName rec (k + i) = k + (i + 3 + numAt rec (k + i + 1)) := by
        unfold nextName
        omega
      rw [if_neg (by omega), htype, Option.bind_eq_bind, Option.bind_some, hlen,
        Option.bind_eq_bind, Option.bind_some, ByteReader.slice_eq]
      dsimp only
      rw [hlength]
      by_cases hends : i + 3 + numAt rec (k + i + 1) ≤ n
      · have hfits : nameFits rec (k + n) (k + i) = true :=
          nameFits_iff.2 ⟨by omega, by omega⟩
        have hname : (((rec.drop k).take n).drop (i + 3)).take (numAt rec (k + i + 1)) =
            nameBytes rec (k + i) :=
          slice_slice hends
        rw [if_pos hends, Option.bind_eq_bind, Option.bind_some, hfits]
        dsimp only
        rw [hname]
        by_cases hhere : isHostName rec (k + i) = true
        · rw [if_pos (isHostName_iff.1 hhere), if_neg (by simp), if_pos hhere, Option.bind_some]
          rfl
        · rw [if_neg fun h => hhere (isHostName_iff.2 h), if_neg (by simp), if_neg hhere, hhop]
          exact ih _
      · have hfits : nameFits rec (k + n) (k + i) = false := by
          rw [← Bool.not_eq_true, nameFits_iff, hhop]
          omega
        rw [if_neg hends, hfits]
        rfl
    · have hfits : nameFits rec (k + n) (k + i) = false := by
        rw [← Bool.not_eq_true, nameFits_iff]
        omega
      rw [if_pos (by omega), hfits]
      rfl

/-- `host_name_range` is for an extension that stands in the record. -/
theorem hostRangeFrom_eq {extEnd : ℕ} (hend : extEnd ≤ rec.length) (fuel p : ℕ) :
    hostRangeFrom fuel ⟨rec, p⟩ extEnd =
      (Hops.find? (extFits rec extEnd rec.length) (isServerName rec) (nextExt rec) fuel p).bind
        fun e => hostNameRange rec (e + 4) (numAt rec (e + 2)) := by
  induction fuel generalizing p with
  | zero => rfl
  | succ fuel ih =>
    unfold hostRangeFrom Hops.find?
    dsimp only
    by_cases hroom : p + 4 ≤ extEnd
    · have htype : ByteReader.u16 ⟨rec, p⟩ = some (numAt rec p, ⟨rec, p + 2⟩) := by
        rw [ByteReader.u16_eq]
        exact if_pos (by show p + 2 ≤ rec.length; omega)
      have hlen : ByteReader.u16 ⟨rec, p + 2⟩ = some (numAt rec (p + 2), ⟨rec, p + 4⟩) := by
        rw [ByteReader.u16_eq]
        exact if_pos (by show p + 2 + 2 ≤ rec.length; omega)
      rw [if_pos hroom, htype, Option.bind_eq_bind, Option.bind_some, hlen, Option.bind_eq_bind,
        Option.bind_some, ByteReader.skip_eq]
      dsimp only
      by_cases hends : nextExt rec p ≤ rec.length
      · have hfits : extFits rec extEnd rec.length p = true := extFits_iff.2 ⟨hroom, hends⟩
        rw [if_pos (show p + 4 + numAt rec (p + 2) ≤ rec.length from hends), Option.bind_some, hfits]
        dsimp only
        by_cases hhere : isServerName rec p = true
        · rw [if_pos (isServerName_iff.1 hhere), if_neg (by simp), if_pos hhere, Option.bind_some]
        · rw [if_neg fun h => hhere (isServerName_iff.2 h), if_neg (by simp), if_neg hhere]
          exact ih _
      · have hfits : extFits rec extEnd rec.length p = false := by
          rw [← Bool.not_eq_true, extFits_iff]
          exact fun h => hends h.2
        rw [if_neg (show ¬ p + 4 + numAt rec (p + 2) ≤ rec.length from hends), hfits]
        rfl
    · have hfits : extFits rec extEnd rec.length p = false := by
        rw [← Bool.not_eq_true, extFits_iff]
        exact fun h => hroom h.1
      rw [if_neg hroom, hfits]
      rfl

/-- `parse_server_name` is for one that stands in the slice of the extensions. -/
theorem extensionsFrom_eq_iff {s n : ℕ} (hin : s + n ≤ rec.length) (fuel i : ℕ) {host : Text} :
    extensionsFrom fuel ⟨(rec.drop s).take n, i⟩ = some (some host) ↔
      (Hops.find? (extFits rec (s + n) (s + n)) (isServerName rec) (nextExt rec) fuel (s + i)).bind
        (fun e => parseServerName ((rec.drop (e + 4)).take (numAt rec (e + 2)))) = some host := by
  induction fuel generalizing i with
  | zero => simp [extensionsFrom, Hops.find?]
  | succ fuel ih =>
    have hlength : ((rec.drop s).take n).length = n := by
      rw [List.length_take, List.length_drop]
      omega
    unfold extensionsFrom Hops.find? ByteReader.remaining
    dsimp only
    rw [hlength]
    by_cases hroom : i + 4 ≤ n
    · have hroom₂ : i + 2 ≤ n := by omega
      have hroom₄ : i + 2 + 2 ≤ n := hroom
      have htype : ByteReader.u16 ⟨(rec.drop s).take n, i⟩ =
          some (numAt rec (s + i), ⟨(rec.drop s).take n, i + 2⟩) := by
        rw [ByteReader.u16_eq, if_pos (by show i + 2 ≤ ((rec.drop s).take n).length; omega)]
        exact congrArg (fun v => some (v, _)) (numAt_slice hroom₂)
      have hlen : ByteReader.u16 ⟨(rec.drop s).take n, i + 2⟩ =
          some (numAt rec (s + i + 2), ⟨(rec.drop s).take n, i + 4⟩) := by
        rw [ByteReader.u16_eq, if_pos (by show i + 2 + 2 ≤ ((rec.drop s).take n).length; omega)]
        exact congrArg (fun v => some (v, _)) (numAt_slice hroom₄)
      have hhop : nextExt rec (s + i) = s + (i + 4 + numAt rec (s + i + 2)) := by
        unfold nextExt
        omega
      rw [if_neg (by omega), htype, Option.bind_eq_bind, Option.bind_some, hlen,
        Option.bind_eq_bind, Option.bind_some, ByteReader.slice_eq]
      dsimp only
      rw [hlength]
      by_cases hends : i + 4 + numAt rec (s + i + 2) ≤ n
      · have hfits : extFits rec (s + n) (s + n) (s + i) = true :=
          extFits_iff.2 ⟨by omega, by omega⟩
        have hdata : (((rec.drop s).take n).drop (i + 4)).take (numAt rec (s + i + 2)) =
            (rec.drop (s + i + 4)).take (numAt rec (s + i + 2)) :=
          slice_slice hends
        rw [if_pos hends, Option.bind_some, hfits]
        dsimp only
        rw [hdata]
        by_cases hhere : isServerName rec (s + i) = true
        · rw [if_pos (isServerName_iff.1 hhere), if_neg (by simp), if_pos hhere, Option.bind_some]
          exact ⟨Option.some.inj, congrArg some⟩
        · rw [if_neg fun h => hhere (isServerName_iff.2 h), if_neg (by simp), if_neg hhere, hhop]
          exact ih _
      · have hfits : extFits rec (s + n) (s + n) (s + i) = false := by
          rw [← Bool.not_eq_true, extFits_iff, hhop]
          omega
        rw [if_neg hends, hfits]
        simp
    · have hfits : extFits rec (s + n) (s + n) (s + i) = false := by
        rw [← Bool.not_eq_true, extFits_iff]
        omega
      rw [if_pos (by omega), hfits]
      simp

theorem lt_nextExt (p : ℕ) : p < nextExt rec p := by
  unfold nextExt
  omega

theorem lt_nextName (p : ℕ) : p < nextName rec p := by
  unfold nextName
  omega

end Entries

/-! ## What the two readings find -/

/-- The extensions of `rec`, up to `stop` and each with its data up to `limit`, have the first
server name at `e`, and the names of that one the first of the sort looked for at `q`. -/
structure NameAt (rec : Bytes) (stop limit : ℕ) (sort : ℕ → Bool) (e q : ℕ) : Prop where
  toExt : Hops.Reaches (extFits rec stop limit) (isServerName rec) (nextExt rec) (extStart rec) e
  extFits : extFits rec stop limit e = true
  serverName : isServerName rec e = true
  toName : Hops.Reaches (nameFits rec (nextExt rec e)) sort (nextName rec) (e + 6) q
  nameFits : nameFits rec (nextExt rec e) q = true
  sort : sort q = true

/-- The name `sni_host_range` finds: up to the end of the record, and not empty. -/
abbrev RangeAt (rec : Bytes) : ℕ → ℕ → Prop :=
  NameAt rec (min (blockEnd rec) rec.length) rec.length (isNamedHost rec)

/-- The name `parse_sni` reads: up to the end of the extensions. -/
abbrev ParsedAt (rec : Bytes) : ℕ → ℕ → Prop :=
  NameAt rec (blockEnd rec) (blockEnd rec) (isHostName rec)

namespace NameAt

variable {rec : Bytes} {stop limit : ℕ} {sort : ℕ → Bool} {e q : ℕ}

theorem nextName_le (h : NameAt rec stop limit sort e q) : nextName rec q ≤ nextExt rec e :=
  (nameFits_iff.1 h.nameFits).2

theorem nextExt_le (h : NameAt rec stop limit sort e q) : nextExt rec e ≤ limit :=
  (extFits_iff.1 h.extFits).2

/-- There is only one such place. -/
theorem unique {e' q' : ℕ} (h : NameAt rec stop limit sort e q)
    (h' : NameAt rec stop limit sort e' q') : e' = e ∧ q' = q := by
  have hext : ∀ {e}, Hops.Reaches (Proxy.extFits rec stop limit) (isServerName rec) (nextExt rec)
      (extStart rec) e ∧ Proxy.extFits rec stop limit e = true ∧ isServerName rec e = true ↔
      Hops.find? (Proxy.extFits rec stop limit) (isServerName rec) (nextExt rec) stop
        (extStart rec) = some e :=
    (Hops.find?_eq_some_iff stop lt_nextExt (fun p hp => by have := (extFits_iff.1 hp).1; omega)
      (Nat.le_add_left stop _)).symm
  have hname : ∀ {q}, Hops.Reaches (Proxy.nameFits rec (nextExt rec e)) sort (nextName rec)
      (e + 6) q ∧ Proxy.nameFits rec (nextExt rec e) q = true ∧ sort q = true ↔
      Hops.find? (Proxy.nameFits rec (nextExt rec e)) sort (nextName rec) (nextExt rec e)
        (e + 6) = some q :=
    (Hops.find?_eq_some_iff (nextExt rec e) lt_nextName (fun p hp => by have := (nameFits_iff.1 hp).1; omega)
      (Nat.le_add_left (nextExt rec e) _)).symm
  have he := hext.1 ⟨h.toExt, h.extFits, h.serverName⟩
  have he' := hext.1 ⟨h'.toExt, h'.extFits, h'.serverName⟩
  obtain rfl : e = e' := Option.some.inj (he.symm.trans he')
  have hq := hname.1 ⟨h.toName, h.nameFits, h.sort⟩
  have hq' := hname.1 ⟨h'.toName, h'.nameFits, h'.sort⟩
  exact ⟨rfl, Option.some.inj (hq'.symm.trans hq)⟩

end NameAt

/-- What `host_name_range` finds in an extension that ends within the record. -/
theorem hostNameRange_eq_some_iff {rec : Bytes} {e : ℕ} (hin : nextExt rec e ≤ rec.length)
    {x : ℕ × ℕ} : hostNameRange rec (e + 4) (numAt rec (e + 2)) = some x ↔
      ∃ q, Hops.Reaches (nameFits rec (nextExt rec e)) (isNamedHost rec) (nextName rec) (e + 6) q ∧
        nameFits rec (nextExt rec e) q = true ∧ isNamedHost rec q = true ∧
        x = (q + 3, numAt rec (q + 1)) := by
  have hstop : min (e + 4 + numAt rec (e + 2)) rec.length = nextExt rec e := Nat.min_eq_left hin
  have hwalk : ∀ {q}, Hops.find? (nameFits rec (nextExt rec e)) (isNamedHost rec) (nextName rec)
      (numAt rec (e + 2)) (e + 6) = some q ↔ _ :=
    Hops.find?_eq_some_iff (nextExt rec e) lt_nextName
      (fun p hp => by have := (nameFits_iff.1 hp).1; omega) (by unfold nextExt; omega)
  unfold hostNameRange
  rw [hstop]
  by_cases hroom : e + 6 ≤ rec.length
  · have hlist : ByteReader.u16 ⟨rec, e + 4⟩ = some (numAt rec (e + 4), ⟨rec, e + 6⟩) := by
      rw [ByteReader.u16_eq]
      exact if_pos hroom
    rw [hlist, Option.bind_eq_bind, Option.bind_some]
    dsimp only
    rw [hostNameFrom_eq hin, Option.map_eq_some_iff]
    constructor
    · rintro ⟨q, hq, rfl⟩
      obtain ⟨hreach, hfits, hhere⟩ := hwalk.1 hq
      exact ⟨q, hreach, hfits, hhere, rfl⟩
    · rintro ⟨q, hreach, hfits, hhere, rfl⟩
      exact ⟨q, hwalk.2 ⟨hreach, hfits, hhere⟩, rfl⟩
  · have hlist : ByteReader.u16 ⟨rec, e + 4⟩ = none := by
      rw [ByteReader.u16_eq]
      exact if_neg hroom
    rw [hlist]
    constructor
    · nofun
    · rintro ⟨q, hreach, hfits, -, -⟩
      have hle := hreach.le lt_nextName
      have hend := (nameFits_iff.1 hfits).1
      omega

/-- What `parse_server_name` reads from the same extension. -/
theorem parseServerName_eq_some_iff {rec : Bytes} {e : ℕ} (hin : nextExt rec e ≤ rec.length)
    {host : Text} : parseServerName ((rec.drop (e + 4)).take (numAt rec (e + 2))) = some host ↔
      ∃ q, Hops.Reaches (nameFits rec (nextExt rec e)) (isHostName rec) (nextName rec) (e + 6) q ∧
        nameFits rec (nextExt rec e) q = true ∧ isHostName rec q = true ∧
        hostOf (nameBytes rec q) = some host := by
  have hlength : ((rec.drop (e + 4)).take (numAt rec (e + 2))).length = numAt rec (e + 2) := by
    rw [List.length_take, List.length_drop]
    unfold nextExt at hin
    omega
  have hwalk : ∀ {q}, Hops.find? (nameFits rec (nextExt rec e)) (isHostName rec) (nextName rec)
      (numAt rec (e + 2)) (e + 6) = some q ↔ _ :=
    Hops.find?_eq_some_iff (nextExt rec e) lt_nextName
      (fun p hp => by have := (nameFits_iff.1 hp).1; omega) (by unfold nextExt; omega)
  unfold parseServerName
  rw [hlength]
  by_cases hroom : 2 ≤ numAt rec (e + 2)
  · have hlist : ByteReader.u16 (.new ((rec.drop (e + 4)).take (numAt rec (e + 2)))) =
        some (numAt ((rec.drop (e + 4)).take (numAt rec (e + 2))) 0,
          ⟨(rec.drop (e + 4)).take (numAt rec (e + 2)), 2⟩) := by
      rw [ByteReader.u16_eq]
      exact if_pos (by show 0 + 2 ≤ ((rec.drop (e + 4)).take (numAt rec (e + 2))).length; omega)
    rw [hlist, Option.bind_eq_bind, Option.bind_some]
    dsimp only
    rw [serverNameFrom_eq hin, Option.bind_eq_some_iff]
    constructor
    · rintro ⟨q, hq, hhost⟩
      obtain ⟨hreach, hfits, hhere⟩ := hwalk.1 hq
      exact ⟨q, hreach, hfits, hhere, hhost⟩
    · rintro ⟨q, hreach, hfits, hhere, hhost⟩
      exact ⟨q, hwalk.2 ⟨hreach, hfits, hhere⟩, hhost⟩
  · have hlist : ByteReader.u16 (.new ((rec.drop (e + 4)).take (numAt rec (e + 2)))) = none := by
      rw [ByteReader.u16_eq]
      exact if_neg (by show ¬ 0 + 2 ≤ ((rec.drop (e + 4)).take (numAt rec (e + 2))).length; omega)
    rw [hlist]
    constructor
    · nofun
    · rintro ⟨q, hreach, hfits, -, -⟩
      have hle := hreach.le lt_nextName
      have hend := (nameFits_iff.1 hfits).1
      unfold nextExt at hend
      omega

/-- **What `sni_host_range` finds in a record.** -/
theorem recordHostRange_iff {rec : Bytes} {x : ℕ × ℕ} : recordHostRange rec = some x ↔
    HelloAt rec ∧ ∃ e q, RangeAt rec e q ∧ x = (q + 3, numAt rec (q + 1)) := by
  have hwalk : ∀ {e}, Hops.find? (extFits rec (min (blockEnd rec) rec.length) rec.length)
      (isServerName rec) (nextExt rec) (rec.length + 1) (extStart rec) = some e ↔ _ :=
    Hops.find?_eq_some_iff rec.length lt_nextExt
      (fun p hp => by have := (extFits_iff.1 hp).1; omega) (by omega)
  rw [recordHostRange_eq_some_iff, hostRangeFrom_eq (Nat.min_le_right _ _), Option.bind_eq_some_iff]
  refine and_congr_right fun _ => exists_congr fun e => ?_
  rw [hwalk]
  constructor
  · rintro ⟨⟨hreach, hfits, hhere⟩, hrange⟩
    obtain ⟨q, hnames, hname, hsort, rfl⟩ :=
      (hostNameRange_eq_some_iff (extFits_iff.1 hfits).2).1 hrange
    exact ⟨q, ⟨hreach, hfits, hhere, hnames, hname, hsort⟩, rfl⟩
  · rintro ⟨q, h, rfl⟩
    exact ⟨⟨h.toExt, h.extFits, h.serverName⟩,
      (hostNameRange_eq_some_iff h.nextExt_le).2 ⟨q, h.toName, h.nameFits, h.sort, rfl⟩⟩

/-- **What `parse_client_hello` reads from it.** -/
theorem parseClientHello_iff {rec : Bytes} {host : Text} :
    parseClientHello (rec.drop 5) = some (some host) ↔
      HelloAt rec ∧ blockEnd rec ≤ rec.length ∧
        ∃ e q, ParsedAt rec e q ∧ hostOf (nameBytes rec q) = some host := by
  rw [parseClientHello_drop_iff]
  refine and_congr_right fun _ => and_congr_right fun hblock => ?_
  have hwalk : ∀ {e}, Hops.find? (extFits rec (blockEnd rec) (blockEnd rec))
      (isServerName rec) (nextExt rec) (extTotal rec 6 + 1) (extStart rec) = some e ↔ _ :=
    Hops.find?_eq_some_iff (blockEnd rec) lt_nextExt
      (fun p hp => by have := (extFits_iff.1 hp).1; omega) (by unfold blockEnd; omega)
  refine Iff.trans (extensionsFrom_eq_iff hblock (extTotal rec 6 + 1) 0) ?_
  rw [Option.bind_eq_some_iff]
  refine exists_congr fun e => ?_
  refine Iff.trans (and_congr_left fun _ => hwalk) ?_
  constructor
  · rintro ⟨⟨hreach, hfits, hhere⟩, hread⟩
    have hin := (extFits_iff.1 hfits).2
    obtain ⟨q, hnames, hname, hsort, hhost⟩ :=
      (parseServerName_eq_some_iff (hin.trans hblock)).1 hread
    exact ⟨q, ⟨hreach, hfits, hhere, hnames, hname, hsort⟩, hhost⟩
  · rintro ⟨q, h, hhost⟩
    exact ⟨⟨h.toExt, h.extFits, h.serverName⟩,
      (parseServerName_eq_some_iff (h.nextExt_le.trans hblock)).2
        ⟨q, h.toName, h.nameFits, h.sort, hhost⟩⟩

/-! ## The two readings agree -/

/-- The first record of a TLS stream, once the buffer has all of it. -/
def firstRecord (buf : Bytes) : Option Bytes :=
  if buf.length < 5 ∨ buf.byteAt 0 ≠ tlsHandshake ∨
      buf.length < 5 + (buf.readU16 3).toNat then none
  else some (buf.take (5 + (buf.readU16 3).toNat))

theorem firstRecord_prefix {buf rec : Bytes} (h : firstRecord buf = some rec) : rec <+: buf := by
  unfold firstRecord at h
  split at h
  · cases h
  · cases h
    exact List.take_prefix _ _

theorem sniHostRange_eq (buf : Bytes) : sniHostRange buf = (firstRecord buf).bind recordHostRange := by
  unfold sniHostRange firstRecord
  dsimp only
  by_cases hhead : buf.length < 5 ∨ buf.byteAt 0 ≠ tlsHandshake
  · rw [if_pos hhead, if_pos (hhead.imp_right Or.inl)]
    rfl
  · obtain ⟨hlen, hkind⟩ := not_or.1 hhead
    rw [if_neg hhead]
    by_cases hfull : buf.length < 5 + (buf.readU16 3).toNat
    · rw [if_pos hfull, if_pos (Or.inr (Or.inr hfull))]
      rfl
    · rw [if_neg hfull, if_neg (not_or.2 ⟨hlen, not_or.2 ⟨hkind, hfull⟩⟩)]
      rfl

theorem parseSni_eq_found_iff {buf : Bytes} {host : Text} : parseSni buf = .found host ↔
    ∃ rec, firstRecord buf = some rec ∧ parseClientHello (rec.drop 5) = some (some host) := by
  unfold parseSni firstRecord
  dsimp only
  by_cases hlen : buf.length < 5
  · rw [if_pos hlen, if_pos (Or.inl hlen)]
    exact ⟨nofun, fun ⟨_, hrec, _⟩ => nomatch hrec⟩
  rw [if_neg hlen]
  by_cases hkind : buf.byteAt 0 ≠ tlsHandshake
  · rw [if_pos hkind, if_pos (Or.inr (Or.inl hkind))]
    exact ⟨nofun, fun ⟨_, hrec, _⟩ => nomatch hrec⟩
  rw [if_neg hkind]
  by_cases hfull : buf.length < 5 + (buf.readU16 3).toNat
  · rw [if_pos hfull, if_pos (Or.inr (Or.inr hfull))]
    exact ⟨nofun, fun ⟨_, hrec, _⟩ => nomatch hrec⟩
  rw [if_neg hfull, if_neg (not_or.2 ⟨hlen, not_or.2 ⟨hkind, hfull⟩⟩)]
  constructor
  · intro h
    refine ⟨_, rfl, ?_⟩
    split at h
    · next found hfound =>
      cases h
      exact hfound
    · cases h
  · rintro ⟨rec, hrec, h⟩
    obtain rfl := Option.some.inj hrec
    rw [h]

/-- What the code says of a buffer: the two readings find a name in the same buffers, it is the
same name, and a split without an offset falls inside it. -/
structure SplitsTheName (buf : Bytes) : Prop where
  agree : (∃ range, sniHostRange buf = some range) ↔ ∃ host, parseSni buf = .found host
  text : ∀ o l host, sniHostRange buf = some (o, l) → parseSni buf = .found host →
    ∃ t : Text, (buf.drop o).take l = t.toBytes ∧ hostText t = host ∧ host.toBytes.length ≤ l
  cut : ∀ o l, sniHostRange buf = some (o, l) → 2 ≤ l →
    ∃ pos, splitPosition buf none = some pos ∧ o < pos ∧ pos < o + l ∧ o + l ≤ buf.length ∧
      writeSplit buf none = [buf.take pos, buf.drop pos] ∧ (writeSplit buf none).flatten = buf

/-- The record is in order where the name is: its extensions end within it, the one of the name
ends within them, no empty host name stands before the name, and the name is text. -/
structure InOrder (rec : Bytes) (e q : ℕ) : Prop where
  block : blockEnd rec ≤ rec.length
  ext : nextExt rec e ≤ blockEnd rec
  first : Hops.Reaches (nameFits rec (nextExt rec e)) (isHostName rec) (nextName rec) (e + 6) q
  text : ∃ t : Text, nameBytes rec q = t.toBytes

section

variable {rec : Bytes} {e q : ℕ}

/-- The name has the length that it is said to have. -/
theorem NameAt.length_nameBytes {stop limit : ℕ} {sort : ℕ → Bool}
    (h : NameAt rec stop limit sort e q) (hlimit : limit ≤ rec.length) :
    (nameBytes rec q).length = numAt rec (q + 1) := by
  have hname := h.nextName_le
  have hext := h.nextExt_le
  rw [nameBytes, List.length_take, List.length_drop]
  unfold nextName at hname
  omega

theorem hostOf_eq_some_iff {name : Bytes} {host : Text} : hostOf name = some host ↔
    ∃ t : Text, name = t.toBytes ∧ t ≠ [] ∧ hostText t = host := by
  unfold hostOf
  rw [Option.bind_eq_some_iff]
  refine exists_congr fun t => and_congr Text.fromUtf8_eq_some_iff ?_
  by_cases ht : t = []
  · rw [if_pos ht]
    exact ⟨nofun, fun h => absurd ht h.1⟩
  · rw [if_neg ht]
    exact ⟨fun h => ⟨ht, Option.some.inj h⟩, fun h => congrArg some h.2⟩

/-- A host is not longer than its name. -/
theorem length_hostText_le (t : Text) : (hostText t).toBytes.length ≤ t.toBytes.length := by
  have hlower : (hostText t).toBytes.length = (t.trimEndMatches (· == '.')).toBytes.length := by
    rw [hostText, ← map_asciiLowerByte_toBytes, List.length_map]
  have htrim : t.trimEndMatches (· == '.') <+: t.reverse.reverse :=
    List.reverse_prefix.2 (List.dropWhile_suffix _)
  rw [List.reverse_reverse] at htrim
  obtain ⟨dots, hdots⟩ := htrim
  rw [hlower, ← congrArg Text.toBytes hdots, Text.toBytes_append, List.length_append]
  exact Nat.le_add_right _ _

/-- A name that is read is the one that is found. -/
theorem NameAt.rangeAt {host : Text} (hblock : blockEnd rec ≤ rec.length) (h : ParsedAt rec e q)
    (hhost : hostOf (nameBytes rec q) = some host) : RangeAt rec e q ∧ InOrder rec e q := by
  obtain ⟨t, hname, ht, -⟩ := hostOf_eq_some_iff.1 hhost
  have hlen : 0 < numAt rec (q + 1) := by
    rw [← h.length_nameBytes hblock, hname]
    exact List.length_pos_of_ne_nil (Text.toBytes_ne_nil ht)
  refine ⟨⟨?_, ?_, h.serverName, ?_, h.nameFits, ?_⟩, hblock, h.nextExt_le, h.toName, t, hname⟩
  · rw [Nat.min_eq_left hblock]
    refine h.toExt.of_fits lt_nextExt fun r _ hfits hhere => ⟨extFits_iff.2 ?_, hhere⟩
    obtain ⟨hstart, hend⟩ := extFits_iff.1 hfits
    exact ⟨hstart, hend.trans hblock⟩
  · obtain ⟨hstart, hend⟩ := extFits_iff.1 h.extFits
    exact extFits_iff.2 ⟨by omega, hend.trans hblock⟩
  · refine h.toName.of_fits lt_nextName fun r _ hfits hhere => ⟨hfits, ?_⟩
    rw [isNamedHost, hhere, Bool.false_and]
  · exact isNamedHost_iff.2 ⟨isHostName_iff.1 h.sort, hlen⟩

/-- And a name that is found where all is in order is read. -/
theorem NameAt.parsedAt (h : RangeAt rec e q) (hord : InOrder rec e q) :
    ParsedAt rec e q ∧ ∃ host, hostOf (nameBytes rec q) = some host := by
  obtain ⟨hhere, hlen⟩ := isNamedHost_iff.1 h.sort
  refine ⟨⟨?_, ?_, h.serverName, hord.first, h.nameFits, isHostName_iff.2 hhere⟩, ?_⟩
  · refine h.toExt.of_fits lt_nextExt fun r hnext hfits hhere => ⟨extFits_iff.2 ?_, hhere⟩
    obtain ⟨hstart, -⟩ := extFits_iff.1 hfits
    have he := (extFits_iff.1 h.extFits).1
    omega
  · have he := (extFits_iff.1 h.extFits).1
    exact extFits_iff.2 ⟨by omega, hord.ext⟩
  · obtain ⟨t, ht⟩ := hord.text
    refine ⟨hostText t, hostOf_eq_some_iff.2 ⟨t, ht, ?_, rfl⟩⟩
    rintro rfl
    have hnone := h.length_nameBytes (Nat.le_refl _)
    rw [ht] at hnone
    simp at hnone
    omega

end

/-- Where a range is found, a split without an offset falls inside it. -/
theorem splitPosition_of_range {buf : Bytes} {o l : ℕ} (h : sniHostRange buf = some (o, l))
    (hend : o + l ≤ buf.length) (hl : 2 ≤ l) : splitPosition buf none = some (o + l / 2) := by
  have hpos : 0 < o + l / 2 ∧ o + l / 2 < buf.length := by omega
  rw [splitPosition, Option.filter_none]
  dsimp only
  rw [h, Option.bind_eq_bind, Option.bind_some]
  exact if_pos hpos

/-- What a range is, in a buffer with a record. -/
theorem range_in_record {buf rec : Bytes} {o l e q : ℕ} (hrec : firstRecord buf = some rec)
    (h : RangeAt rec e q) (hol : (o, l) = (q + 3, numAt rec (q + 1))) :
    o + l ≤ buf.length ∧ (buf.drop o).take l = nameBytes rec q := by
  obtain ⟨rfl, rfl⟩ := Prod.mk.inj hol
  obtain ⟨tail, rfl⟩ := firstRecord_prefix hrec
  have hname := h.nextName_le
  have hext := h.nextExt_le
  unfold nextName at hname
  refine ⟨?_, ?_⟩
  · rw [List.length_append]
    omega
  · rw [nameBytes, List.drop_append_of_le_length (by omega), List.take_append_of_le_length]
    rw [List.length_drop]
    omega

/-- **The cut falls inside the name exactly where the record is in order.** -/
theorem splits_the_name_iff (buf : Bytes) : SplitsTheName buf ↔
    ∀ rec, firstRecord buf = some rec → HelloAt rec → ∀ e q, RangeAt rec e q →
      InOrder rec e q := by
  constructor
  · intro h rec hrec hhello e q hrange
    have hfound : sniHostRange buf = some (q + 3, numAt rec (q + 1)) := by
      rw [sniHostRange_eq, hrec]
      exact recordHostRange_iff.2 ⟨hhello, e, q, hrange, rfl⟩
    obtain ⟨host, hhost⟩ := h.agree.1 ⟨_, hfound⟩
    obtain ⟨rec', hrec', hread⟩ := parseSni_eq_found_iff.1 hhost
    obtain rfl : rec = rec' := Option.some.inj (hrec.symm.trans hrec')
    obtain ⟨-, hblock, e', q', hparsed, hname⟩ := parseClientHello_iff.1 hread
    obtain ⟨hrange', hord⟩ := hparsed.rangeAt hblock hname
    obtain ⟨rfl, rfl⟩ := hrange.unique hrange'
    exact hord
  · intro h
    have hlook : ∀ {x}, sniHostRange buf = some x ↔ ∃ rec, firstRecord buf = some rec ∧
        HelloAt rec ∧ ∃ e q, RangeAt rec e q ∧ x = (q + 3, numAt rec (q + 1)) := by
      intro x
      rw [sniHostRange_eq, Option.bind_eq_some_iff]
      exact exists_congr fun rec => and_congr_right fun _ => recordHostRange_iff
    have hread : ∀ {host}, parseSni buf = .found host ↔ ∃ rec, firstRecord buf = some rec ∧
        HelloAt rec ∧ ∃ e q, RangeAt rec e q ∧ hostOf (nameBytes rec q) = some host := by
      intro host
      rw [parseSni_eq_found_iff]
      refine exists_congr fun rec => and_congr_right fun hrec => ?_
      rw [parseClientHello_iff]
      refine and_congr_right fun hhello => ?_
      constructor
      · rintro ⟨hblock, e, q, hparsed, hname⟩
        exact ⟨e, q, (hparsed.rangeAt hblock hname).1, hname⟩
      · rintro ⟨e, q, hrange, hname⟩
        have hord := h rec hrec hhello e q hrange
        exact ⟨hord.block, e, q, (hrange.parsedAt hord).1, hname⟩
    refine ⟨⟨?_, ?_⟩, ?_, ?_⟩
    · rintro ⟨x, hx⟩
      obtain ⟨rec, hrec, hhello, e, q, hrange, -⟩ := hlook.1 hx
      obtain ⟨host, hhost⟩ := (hrange.parsedAt (h rec hrec hhello e q hrange)).2
      exact ⟨host, hread.2 ⟨rec, hrec, hhello, e, q, hrange, hhost⟩⟩
    · rintro ⟨host, hhost⟩
      obtain ⟨rec, hrec, hhello, e, q, hrange, -⟩ := hread.1 hhost
      exact ⟨_, hlook.2 ⟨rec, hrec, hhello, e, q, hrange, rfl⟩⟩
    · intro o l host hfound hhost
      obtain ⟨rec, hrec, hhello, e, q, hrange, hol⟩ := hlook.1 hfound
      obtain ⟨rec', hrec', -, e', q', hrange', hname⟩ := hread.1 hhost
      obtain rfl : rec = rec' := Option.some.inj (hrec.symm.trans hrec')
      obtain ⟨rfl, rfl⟩ := hrange.unique hrange'
      obtain ⟨t, ht, -, rfl⟩ := hostOf_eq_some_iff.1 hname
      refine ⟨t, (range_in_record hrec hrange hol).2.trans ht, rfl, ?_⟩
      rw [(Prod.mk.inj hol).2, ← hrange.length_nameBytes (Nat.le_refl _), ht]
      exact length_hostText_le t
    · intro o l hfound hl
      obtain ⟨rec, hrec, hhello, e, q, hrange, hol⟩ := hlook.1 hfound
      obtain ⟨hend, -⟩ := range_in_record hrec hrange hol
      have hcut := splitPosition_of_range hfound hend hl
      have hwrites : writeSplit buf none = [buf.take (o + l / 2), buf.drop (o + l / 2)] := by
        rw [writeSplit, hcut]
      refine ⟨_, hcut, by omega, by omega, hend, hwrites, ?_⟩
      rw [hwrites]
      simp

/-- A ClientHello for `ab`, in a record of 55 bytes.  Its extensions take 11 of them and are
said to take 12. -/
def clampedBlock : Bytes :=
  [0x16, 3, 1, 0, 55] ++ [1, 0, 0, 51] ++ [3, 3] ++ List.replicate 32 7 ++ [0] ++ [0, 0] ++ [0] ++
    [0, 12] ++ [0, 0, 0, 7] ++ [0, 5] ++ [0, 0, 2] ++ [97, 98]

/-- `parse_sni` stops at the length, `sni_host_range` cuts it down and goes on. -/
theorem clamped_block_found : sniHostRange clampedBlock = some (58, 2) ∧
    parseSni clampedBlock = .notFound ∧ ¬ SplitsTheName clampedBlock := by
  have hrange : sniHostRange clampedBlock = some (58, 2) := by decide
  have hparse : parseSni clampedBlock = .notFound := by decide
  refine ⟨hrange, hparse, fun h => ?_⟩
  obtain ⟨host, hhost⟩ := h.agree.1 ⟨_, hrange⟩
  rw [hparse] at hhost
  cases hhost

end Ferrite.Proxy
