import Ferrite.Lib.Bytes
import Ferrite.Core.Text

/-!
# Text as bytes

`str::as_bytes`, `std::str::from_utf8` and `String::from_utf8_lossy`.  An ASCII byte in the
encoding of a text is one of its characters, so a byte-wise search for ASCII finds the
characters.
-/

namespace Ferrite

/-- `str::as_bytes`. -/
def Text.toBytes (t : Text) : Bytes := t.flatMap String.utf8EncodeChar

/-- `std::str::from_utf8`. -/
def fromUtf8 (bytes : Bytes) : Option Text := bytes.toByteArray.utf8Decode?.map Array.toList

namespace Text

@[simp] theorem toBytes_nil : toBytes [] = [] := rfl

@[simp] theorem toBytes_append (s t : Text) : toBytes (s ++ t) = toBytes s ++ toBytes t :=
  List.flatMap_append

theorem toBytes_cons (c : Char) (t : Text) : toBytes (c :: t) = String.utf8EncodeChar c ++ toBytes t :=
  List.flatMap_cons

@[simp] theorem fromUtf8_toBytes (t : Text) : fromUtf8 t.toBytes = some t := by
  have henc : (toBytes t).toByteArray = List.utf8Encode t := rfl
  rw [fromUtf8, henc, List.utf8Decode?_utf8Encode]
  rfl

/-- Bytes that read as a text are the bytes of that text. -/
theorem fromUtf8_eq_some_iff {bytes : Bytes} {t : Text} :
    fromUtf8 bytes = some t ↔ bytes = t.toBytes := by
  constructor
  · intro h
    obtain ⟨chars, hchars, rfl⟩ := Option.map_eq_some_iff.1 h
    have hback := bytes.toByteArray.utf8Encode_get_utf8Decode? (h := by rw [hchars]; rfl)
    have henc : (toBytes chars.toList).toByteArray = List.utf8Encode chars.toList := rfl
    simp only [hchars, Option.get_some] at hback
    rw [← henc] at hback
    simpa using (congrArg (fun b => b.data.toList) hback).symm
  · rintro rfl
    exact fromUtf8_toBytes t

/-- Texts are told apart by their bytes. -/
theorem toBytes_injective : Function.Injective toBytes := by
  intro s t h
  have hread := congrArg fromUtf8 h
  rw [fromUtf8_toBytes, fromUtf8_toBytes] at hread
  exact Option.some.inj hread

theorem toBytes_ne_nil {t : Text} (h : t ≠ []) : toBytes t ≠ [] := by
  cases t with
  | nil => exact absurd rfl h
  | cons c t => simp [toBytes_cons]

/-- An ASCII byte of the encoding of a character is the character. -/
theorem mem_utf8EncodeChar {c : Char} {b : UInt8} (hb : b.toNat < 128)
    (h : b ∈ String.utf8EncodeChar c) : c.toNat = b.toNat := by
  have hval : c.toNat = c.val.toNat := rfl
  unfold String.utf8EncodeChar at h
  dsimp only at h
  split at h
  · rw [List.mem_singleton.1 h, UInt8.toNat_ofNat']
    omega
  · -- every byte of a longer encoding is at least 128
    have hmany : 128 ≤ b.toNat := by
      split_ifs at h <;> simp only [List.mem_cons, List.not_mem_nil, or_false] at h <;>
        rcases h with rfl | rfl | rfl | rfl <;> rw [UInt8.toNat_ofNat'] <;> omega
    omega

theorem utf8EncodeChar_of_ascii {c : Char} (h : c.toNat < 128) :
    String.utf8EncodeChar c = [UInt8.ofNat c.toNat] := by
  have hval : c.toNat = c.val.toNat := rfl
  unfold String.utf8EncodeChar
  dsimp only
  rw [if_pos (by omega)]
  rfl

theorem mem_toBytes {t : Text} {b : UInt8} (hb : b.toNat < 128) (h : b ∈ toBytes t) :
    ∃ c ∈ t, c.toNat = b.toNat := by
  obtain ⟨c, hc, hmem⟩ := List.mem_flatMap.1 h
  exact ⟨c, hc, mem_utf8EncodeChar hb hmem⟩

end Text

/-- `u8::to_ascii_lowercase`. -/
def asciiLowerByte (b : UInt8) : UInt8 :=
  if 0x41 ≤ b.toNat ∧ b.toNat ≤ 0x5A then UInt8.ofNat (b.toNat + 0x20) else b

theorem map_asciiLowerByte_utf8EncodeChar (c : Char) :
    (String.utf8EncodeChar c).map asciiLowerByte = String.utf8EncodeChar (asciiLower c) := by
  by_cases hupper : 65 ≤ c.toNat ∧ c.toNat ≤ 90
  · have hlower : (asciiLower c).toNat = c.toNat + 32 := by
      rw [toNat_asciiLower, if_pos hupper]
    have hbyte : (UInt8.ofNat c.toNat).toNat = c.toNat := by
      rw [UInt8.toNat_ofNat']
      omega
    rw [Text.utf8EncodeChar_of_ascii (by omega), Text.utf8EncodeChar_of_ascii (by omega), hlower,
      List.map_singleton, asciiLowerByte, hbyte, if_pos hupper]
  · -- no byte of any other character is a capital letter
    have hsame : asciiLower c = c := if_neg hupper
    have hfix : ∀ b ∈ String.utf8EncodeChar c, asciiLowerByte b = id b := by
      intro b hb
      refine if_neg fun hcapital => hupper ?_
      have := Text.mem_utf8EncodeChar (by omega) hb
      omega
    rw [hsame, List.map_congr_left hfix, List.map_id]

/-- Case folding of the bytes is case folding of the text. -/
theorem map_asciiLowerByte_toBytes (t : Text) :
    t.toBytes.map asciiLowerByte = t.toAsciiLowercase.toBytes := by
  induction t with
  | nil => rfl
  | cons c t ih =>
    rw [Text.toBytes_cons, List.map_append, ih, map_asciiLowerByte_utf8EncodeChar]
    exact (Text.toBytes_cons _ _).symm

/-! ## Reading bytes that may not be text -/

/-- `char::REPLACEMENT_CHARACTER`. -/
def replacementCharacter : Char := Char.ofNat 0xFFFD

/-- A byte that continues a character. -/
def isContinuation (b : UInt8) : Bool := 0x80 ≤ b.toNat && b.toNat ≤ 0xBF

/-- `utf8_char_width`: how many bytes a lead byte announces, 0 if it is none. -/
def utf8CharWidth (lead : ℕ) : ℕ :=
  if lead < 0x80 then 1
  else if 0xC2 ≤ lead ∧ lead ≤ 0xDF then 2
  else if 0xE0 ≤ lead ∧ lead ≤ 0xEF then 3
  else if 0xF0 ≤ lead ∧ lead ≤ 0xF4 then 4
  else 0

/-- May a byte follow this lead?  Overlong forms, surrogates and what lies beyond the last
code point are told apart here. -/
def secondFits (lead second : ℕ) : Bool :=
  (if lead = 0xE0 then 0xA0 else if lead = 0xF0 then 0x90 else 0x80) ≤ second &&
    second ≤ (if lead = 0xED then 0x9F else if lead = 0xF4 then 0x8F else 0xBF)

/-- The rest of a character whose first bits are read: `left` more bytes, or the
replacement character where one of them does not come. -/
def lossyTail : (value left : ℕ) → Bytes → Char × Bytes
  | value, 0, rest => (Char.ofNat value, rest)
  | _, _ + 1, [] => (replacementCharacter, [])
  | value, left + 1, b :: rest =>
    if isContinuation b then lossyTail (value * 64 + b.toNat % 64) left rest
    else (replacementCharacter, b :: rest)

/-- One character, and the bytes behind it. -/
def lossyChar (lead : UInt8) (rest : Bytes) : Char × Bytes :=
  match utf8CharWidth lead.toNat with
  | 0 => (replacementCharacter, rest)
  | 1 => (Char.ofNat lead.toNat, rest)
  | width + 2 =>
    match rest with
    | [] => (replacementCharacter, [])
    | b :: rest' =>
      if secondFits lead.toNat b.toNat then
        lossyTail (lead.toNat % 2 ^ (5 - width) * 64 + b.toNat % 64) width rest'
      else (replacementCharacter, rest)

/-- The loop of `from_utf8_lossy`, which takes at least one byte a turn. -/
def lossyLoop : (turns : ℕ) → Bytes → Text
  | _, [] => []
  | 0, _ => []
  | turns + 1, b :: rest => (lossyChar b rest).1 :: lossyLoop turns (lossyChar b rest).2

/-- `String::from_utf8_lossy`: every longest run of bytes that starts a character and does
not end it is replaced. -/
def fromUtf8Lossy (bytes : Bytes) : Text := lossyLoop bytes.length bytes

theorem toNat_lead (n : ℕ) (h : n < 256) : (UInt8.ofNat n).toNat = n := by
  rw [UInt8.toNat_ofNat']
  omega

/-- A byte that continues is read for its six bits. -/
theorem lossyTail_cons (value left x : ℕ) (rest : Bytes) :
    lossyTail value (left + 1) (UInt8.ofNat (x % 64 + 0x80) :: rest) =
      lossyTail (value * 64 + x % 64) left rest := by
  have hbyte := toNat_lead (x % 64 + 0x80) (by omega)
  have hcont : isContinuation (UInt8.ofNat (x % 64 + 0x80)) = true := by
    rw [isContinuation, hbyte, Bool.and_eq_true, decide_eq_true_eq, decide_eq_true_eq]
    omega
  have hbits : (x % 64 + 0x80) % 64 = x % 64 := by omega
  rw [lossyTail, if_pos hcont, hbyte, hbits]

/-- So is the byte after the lead, if the lead lets it follow. -/
theorem lossyChar_cons {lead x width : ℕ} {rest : Bytes} (hlead : lead < 256)
    (hw : utf8CharWidth lead = width + 2) (hfits : secondFits lead (x % 64 + 0x80) = true) :
    lossyChar (UInt8.ofNat lead) (UInt8.ofNat (x % 64 + 0x80) :: rest) =
      lossyTail (lead % 2 ^ (5 - width) * 64 + x % 64) width rest := by
  have hbits : (x % 64 + 0x80) % 64 = x % 64 := by omega
  unfold lossyChar
  rw [toNat_lead lead hlead, hw]
  simp only [toNat_lead (x % 64 + 0x80) (by omega), if_pos hfits, hbits]

theorem secondFits_iff {lead second : ℕ} : secondFits lead second = true ↔
    (if lead = 0xE0 then 0xA0 else if lead = 0xF0 then 0x90 else 0x80) ≤ second ∧
      second ≤ (if lead = 0xED then 0x9F else if lead = 0xF4 then 0x8F else 0xBF) := by
  rw [secondFits, Bool.and_eq_true, decide_eq_true_eq, decide_eq_true_eq]

/-- A whole character is read as it is. -/
theorem lossyChar_utf8EncodeChar (c : Char) (rest : Bytes) :
    ∃ lead tail, String.utf8EncodeChar c ++ rest = lead :: tail ∧
      lossyChar lead tail = (c, rest) := by
  have hofNat : Char.ofNat c.val.toNat = c := Char.ofNat_toNat c
  have hvalid : c.val.toNat < 0xD800 ∨ 0xDFFF < c.val.toNat ∧ c.val.toNat < 0x110000 := c.valid
  unfold String.utf8EncodeChar
  generalize c.val.toNat = v at *
  dsimp only
  split_ifs with h1 h2 h3
  · refine ⟨_, _, rfl, ?_⟩
    have hw : utf8CharWidth v = 1 := if_pos (by omega)
    unfold lossyChar
    rw [toNat_lead v (by omega), hw]
    exact Prod.ext hofNat rfl
  · refine ⟨_, _, rfl, ?_⟩
    refine (lossyChar_cons (x := v) (by omega) (show _ = 0 + 2 from ?_) ?_).trans ?_
    · unfold utf8CharWidth
      split_ifs <;> omega
    · rw [secondFits_iff]
      split_ifs <;> omega
    · have hbits : (v / 64 % 0x20 + 0xC0) % 2 ^ (5 - 0) * 64 + v % 64 = v := by omega
      rw [hbits]
      exact Prod.ext hofNat rfl
  · refine ⟨_, _, rfl, ?_⟩
    refine (lossyChar_cons (x := v / 64) (by omega) (show _ = 1 + 2 from ?_) ?_).trans ?_
    · unfold utf8CharWidth
      split_ifs <;> omega
    · rw [secondFits_iff]
      split_ifs <;> omega
    · refine (lossyTail_cons _ 0 v rest).trans ?_
      have hbits : ((v / 4096 % 0x10 + 0xE0) % 2 ^ (5 - 1) * 64 + v / 64 % 64) * 64 + v % 64 = v := by
        omega
      rw [hbits]
      exact Prod.ext hofNat rfl
  · refine ⟨_, _, rfl, ?_⟩
    refine (lossyChar_cons (x := v / 4096) (by omega) (show _ = 2 + 2 from ?_) ?_).trans ?_
    · unfold utf8CharWidth
      split_ifs <;> omega
    · rw [secondFits_iff]
      split_ifs <;> omega
    · refine (lossyTail_cons _ 1 (v / 64) _).trans ((lossyTail_cons _ 0 v rest).trans ?_)
      have hbits : (((v / 262144 % 0x08 + 0xF0) % 2 ^ (5 - 2) * 64 + v / 4096 % 64) * 64 +
          v / 64 % 64) * 64 + v % 64 = v := by
        omega
      rw [hbits]
      exact Prod.ext hofNat rfl

/-- What is text is read as it is. -/
theorem lossyLoop_toBytes {t : Text} {turns : ℕ} (h : t.length ≤ turns) :
    lossyLoop turns t.toBytes = t := by
  induction t generalizing turns with
  | nil => simp [lossyLoop]
  | cons c t ih =>
    obtain ⟨lead, tail, hbytes, hchar⟩ := lossyChar_utf8EncodeChar c (Text.toBytes t)
    cases turns with
    | zero => simp at h
    | succ turns =>
      rw [Text.toBytes_cons, hbytes, lossyLoop, hchar, ih (by simpa using h)]

theorem length_le_length_toBytes (t : Text) : t.length ≤ t.toBytes.length := by
  induction t with
  | nil => exact le_refl _
  | cons c t ih =>
    have hpos : 0 < (String.utf8EncodeChar c).length := by
      rw [String.length_utf8EncodeChar]
      exact Char.utf8Size_pos c
    rw [Text.toBytes_cons, List.length_cons, List.length_append]
    omega

@[simp] theorem fromUtf8Lossy_toBytes (t : Text) : fromUtf8Lossy t.toBytes = t :=
  lossyLoop_toBytes (length_le_length_toBytes t)

/-! ## Text that was cut -/

theorem length_toBytes (t : Text) : t.toBytes.length = t.byteLen := by
  rw [Text.toBytes, List.length_flatMap, Text.byteLen]
  simp only [String.length_utf8EncodeChar]

theorem length_toBytes_le (t : Text) : t.toBytes.length ≤ 4 * t.length := by
  induction t with
  | nil => exact le_refl _
  | cons c t ih =>
    have hfour : (String.utf8EncodeChar c).length ≤ 4 := by
      rw [String.length_utf8EncodeChar]
      exact Char.utf8Size_le_four c
    rw [Text.toBytes_cons, List.length_cons, List.length_append]
    omega

theorem length_lossyTail_le (value left : ℕ) (rest : Bytes) :
    (lossyTail value left rest).2.length ≤ rest.length := by
  fun_induction lossyTail value left rest with
  | case1 => exact le_refl _
  | case2 => exact le_refl _
  | case3 value left b rest hcont ih => exact ih.trans (Nat.le_succ _)
  | case4 => exact le_refl _

theorem length_lossyChar_le (lead : UInt8) (rest : Bytes) :
    (lossyChar lead rest).2.length ≤ rest.length := by
  fun_cases lossyChar lead rest with
  | case1 => exact le_refl _
  | case2 => exact le_refl _
  | case3 => exact le_refl _
  | case4 => exact (length_lossyTail_le ..).trans (Nat.le_succ _)
  | case5 => exact le_refl _

/-- Every character read takes a byte at least. -/
theorem length_lossyLoop_le (turns : ℕ) (bytes : Bytes) :
    (lossyLoop turns bytes).length ≤ bytes.length := by
  fun_induction lossyLoop turns bytes with
  | case1 => exact le_refl _
  | case2 => exact Nat.zero_le _
  | case3 turns b rest ih =>
    have hrest := length_lossyChar_le b rest
    rw [List.length_cons, List.length_cons]
    omega

/-- A text that lost more than a few bytes is not read as itself, for all the replacement
characters that may stand for the character at the cut. -/
theorem lossyLoop_take_ne {t : Text} {k : ℕ} (h : k + 12 < t.toBytes.length) (turns : ℕ) :
    lossyLoop turns (t.toBytes.take k) ≠ t := by
  induction t generalizing k turns with
  | nil => simp at h
  | cons c t ih =>
    have hsize : (String.utf8EncodeChar c).length ≤ 4 := by
      rw [String.length_utf8EncodeChar]
      exact Char.utf8Size_le_four c
    intro heq
    by_cases hk : (String.utf8EncodeChar c).length ≤ k
    · -- the first character is whole
      obtain ⟨lead, tail, hbytes, hchar⟩ := lossyChar_utf8EncodeChar c
        ((Text.toBytes t).take (k - (String.utf8EncodeChar c).length))
      rw [Text.toBytes_cons, List.take_append, List.take_of_length_le hk, hbytes] at heq
      rw [Text.toBytes_cons, List.length_append] at h
      cases turns with
      | zero => cases heq
      | succ turns =>
        rw [lossyLoop, hchar] at heq
        exact ih (by omega) turns (List.cons.inj heq).2
    · have hfew := length_lossyLoop_le turns ((Text.toBytes (c :: t)).take k)
      have hmany := length_toBytes_le (c :: t)
      rw [heq, List.length_take] at hfew
      omega

theorem fromUtf8Lossy_take_ne {t : Text} {k : ℕ} (h : k + 12 < t.toBytes.length) :
    fromUtf8Lossy (t.toBytes.take k) ≠ t :=
  lossyLoop_take_ne h _

end Ferrite
