import Mathlib.Algebra.Order.Ring.Nat
import Mathlib.Data.List.Basic
import Mathlib.Data.List.DropRight
import Mathlib.Data.List.Induction

/-!
# Text

A `str` is modelled by the list of its characters, which is how every function
here walks it.  The helpers are the standard library's, under its names: trimming
goes by the Unicode property `White_Space`, case folding is ASCII only.
-/

namespace Ferrite

/-- A string, as the list of its characters. -/
abbrev Text := List Char

/-- Texts are compared character by character. -/
instance Text.lawfulBEq : LawfulBEq Text := inferInstanceAs (LawfulBEq (List Char))

/-- `char::is_whitespace`: the Unicode property `White_Space`. -/
def isWhitespace (c : Char) : Bool :=
  let n := c.toNat
  (9 ≤ n && n ≤ 13) || n == 0x20 || n == 0x85 || n == 0xA0 || n == 0x1680 ||
    (0x2000 ≤ n && n ≤ 0x200A) || n == 0x2028 || n == 0x2029 || n == 0x202F || n == 0x205F ||
    n == 0x3000

/-- `char::to_ascii_lowercase`. -/
def asciiLower (c : Char) : Char :=
  if 'A' ≤ c ∧ c ≤ 'Z' then Char.ofNat (c.toNat + 32) else c

theorem isUpper_iff {c : Char} : ('A' ≤ c ∧ c ≤ 'Z') ↔ 65 ≤ c.toNat ∧ c.toNat ≤ 90 := Iff.rfl

theorem toNat_ofNat {n : ℕ} (h : n < 0xD800) : (Char.ofNat n).toNat = n := by
  have hvalid : n.isValidChar := Or.inl h
  rw [Char.ofNat, dif_pos hvalid]
  rfl

theorem toNat_asciiLower (c : Char) :
    (asciiLower c).toNat = if 65 ≤ c.toNat ∧ c.toNat ≤ 90 then c.toNat + 32 else c.toNat := by
  unfold asciiLower
  simp only [isUpper_iff]
  split
  · exact toNat_ofNat (by omega)
  · rfl

@[simp] theorem asciiLower_asciiLower (c : Char) : asciiLower (asciiLower c) = asciiLower c := by
  have hlower := toNat_asciiLower c
  refine if_neg fun hupper => ?_
  rw [isUpper_iff] at hupper
  split at hlower <;> omega

/-- Case folding reaches letters and nothing else. -/
theorem asciiLower_eq_iff {c d : Char} (hd : ¬ (97 ≤ d.toNat ∧ d.toNat ≤ 122)) (hd' : asciiLower d = d) :
    asciiLower c = d ↔ c = d := by
  refine ⟨fun h => ?_, fun h => h ▸ hd'⟩
  by_cases hupper : 65 ≤ c.toNat ∧ c.toNat ≤ 90
  · have hlower := toNat_asciiLower c
    rw [if_pos hupper, h] at hlower
    omega
  · exact (if_neg hupper).symm.trans h

/-- No letter is a blank. -/
theorem isWhitespace_asciiLower (c : Char) : isWhitespace (asciiLower c) = isWhitespace c := by
  by_cases hupper : 65 ≤ c.toNat ∧ c.toNat ≤ 90
  · have hlower := toNat_asciiLower c
    rw [if_pos hupper] at hlower
    have hno : ∀ d : Char, 65 ≤ d.toNat ∧ d.toNat ≤ 122 → isWhitespace d = false := by
      intro d hd
      rw [← Bool.not_eq_true]
      intro h
      simp only [isWhitespace, Bool.or_eq_true, Bool.and_eq_true, decide_eq_true_eq,
        beq_iff_eq] at h
      omega
    rw [hno _ (by omega), hno c (by omega)]
  · rw [asciiLower, if_neg (isUpper_iff.not.2 hupper)]

/-- What is taken from the Unicode tables behind `char::is_alphanumeric`: below 128 it is
`is_ascii_alphanumeric`. -/
def AsciiAlphanumeric (isAlphanumeric : Char → Bool) : Prop :=
  ∀ c : Char, c.toNat < 128 → isAlphanumeric c = c.isAlphanum

namespace Text

/-- `str::len`: the length in bytes. -/
def byteLen (s : Text) : ℕ := (s.map Char.utf8Size).sum

/-- A text in ASCII has a byte for each character. -/
theorem byteLen_of_ascii {s : Text} (h : ∀ c ∈ s, c.toNat < 128) : s.byteLen = s.length := by
  have hone : s.map Char.utf8Size = s.map fun _ => 1 := by
    refine List.map_congr_left fun c hc => Char.utf8Size_eq_one_iff.2 ?_
    have hlt : c.val.toNat < 128 := h c hc
    exact UInt32.le_iff_toNat_le.2 (by show c.val.toNat ≤ 127; omega)
  rw [byteLen, hone]
  simp

/-- `str::to_ascii_lowercase`. -/
def toAsciiLowercase (s : Text) : Text := s.map asciiLower

@[simp] theorem toAsciiLowercase_toAsciiLowercase (s : Text) :
    s.toAsciiLowercase.toAsciiLowercase = s.toAsciiLowercase := by
  simp [toAsciiLowercase]

/-- `str::eq_ignore_ascii_case`. -/
def eqIgnoreAsciiCase (s t : Text) : Bool := s.toAsciiLowercase == t.toAsciiLowercase

/-- `trim_end_matches`. -/
def trimEndMatches (p : Char → Bool) (s : Text) : Text := (s.reverse.dropWhile p).reverse

/-- `str::trim`. -/
def trim (s : Text) : Text := trimEndMatches isWhitespace (s.dropWhile isWhitespace)

/-- What is dropped at the end satisfies the test, and what stays does not end in it. -/
theorem trimEndMatches_append {p : Char → Bool} {s t : Text} (ht : ∀ c ∈ t, p c = true)
    (hs : ∀ c ∈ s.getLast?, p c = false) : trimEndMatches p (s ++ t) = s := by
  have ht' : ∀ c ∈ t.reverse, p c = true := fun c hc => ht c (List.mem_reverse.1 hc)
  have hstay : s.reverse.dropWhile p = s.reverse := by
    cases hrev : s.reverse with
    | nil => rfl
    | cons c cs =>
      have hlast : s.getLast? = some c := by rw [← List.head?_reverse, hrev]; rfl
      exact List.dropWhile_cons_of_neg (by simp [hs c hlast])
  rw [trimEndMatches, List.reverse_append, List.dropWhile_append_of_pos ht', hstay, List.reverse_reverse]

theorem trim_append {before s after : Text} (hbefore : ∀ c ∈ before, isWhitespace c = true)
    (hafter : ∀ c ∈ after, isWhitespace c = true) (hs : ∀ c ∈ s, isWhitespace c = false)
    (hne : s ≠ []) : trim (before ++ (s ++ after)) = s := by
  have hstart : (s ++ after).dropWhile isWhitespace = s ++ after := by
    cases s with
    | nil => exact absurd rfl hne
    | cons c s => exact List.dropWhile_cons_of_neg (by simp [hs c List.mem_cons_self])
  rw [trim, List.dropWhile_append_of_pos hbefore, hstart]
  exact trimEndMatches_append hafter fun c hc => hs c (List.mem_of_getLast? hc)

theorem trimEndMatches_trimEndMatches (p : Char → Bool) (s : Text) :
    trimEndMatches p (trimEndMatches p s) = trimEndMatches p s := by
  unfold trimEndMatches
  rw [List.reverse_reverse, List.dropWhile_idempotent]

theorem trim_append_left {b : Text} (h : ∀ c ∈ b, isWhitespace c = true) (t : Text) :
    (b ++ t).trim = t.trim := by
  unfold trim
  rw [List.dropWhile_append_of_pos h]

theorem trimEnd_append {c : Text} (h : ∀ a ∈ c, isWhitespace a = true) (t : Text) :
    trimEndMatches isWhitespace (t ++ c) = trimEndMatches isWhitespace t := by
  unfold trimEndMatches
  rw [List.reverse_append, List.dropWhile_append_of_pos fun a ha => h a (List.mem_reverse.1 ha)]

theorem trim_append_right {c : Text} (h : ∀ a ∈ c, isWhitespace a = true) (t : Text) :
    (t ++ c).trim = t.trim := by
  unfold trim
  rw [List.dropWhile_append]
  split
  · next hempty =>
    rw [List.isEmpty_iff.1 hempty, List.dropWhile_eq_nil_iff.2 h]
  · exact trimEnd_append h _

theorem trim_trimEnd (t : Text) : (trimEndMatches isWhitespace t).trim = t.trim := by
  have hparts := @List.takeWhile_append_dropWhile _ isWhitespace t.reverse
  have ht : t = trimEndMatches isWhitespace t ++ (t.reverse.takeWhile isWhitespace).reverse := by
    rw [trimEndMatches, ← List.reverse_append, hparts, List.reverse_reverse]
  have hblank : ∀ c ∈ (t.reverse.takeWhile isWhitespace).reverse, isWhitespace c = true :=
    fun c hc => List.mem_takeWhile_imp (List.mem_reverse.1 hc)
  conv_rhs => rw [ht]
  exact (trim_append_right hblank _).symm

theorem trim_trim (s : Text) : trim (trim s) = trim s := by
  show trim (trimEndMatches isWhitespace (s.dropWhile isWhitespace)) = trim s
  rw [trim_trimEnd]
  unfold trim
  rw [List.dropWhile_idempotent]

/-- Trimming stops on both sides of a character that is not blank. -/
theorem trim_around {k w : Text} {c : Char} (hc : isWhitespace c = false) : (k ++ c :: w).trim =
    k.dropWhile isWhitespace ++ c :: trimEndMatches isWhitespace w := by
  have hstart : ∀ x y : Text, (x ++ c :: y).dropWhile isWhitespace =
      x.dropWhile isWhitespace ++ c :: y := by
    intro x y
    rw [List.dropWhile_append]
    split
    · next hempty =>
      rw [List.isEmpty_iff.1 hempty, List.dropWhile_cons_of_neg (by simp [hc]), List.nil_append]
    · rfl
  unfold trim trimEndMatches
  rw [hstart, List.reverse_append, List.reverse_cons, List.append_assoc, List.singleton_append,
    hstart, List.reverse_append, List.reverse_cons, List.reverse_reverse, List.append_assoc,
    List.singleton_append]

/-- Blanks have no case. -/
theorem trim_toAsciiLowercase (s : Text) : s.toAsciiLowercase.trim = s.trim.toAsciiLowercase := by
  have hcomp : isWhitespace ∘ asciiLower = isWhitespace := funext isWhitespace_asciiLower
  have hstart : ∀ t : Text, t.toAsciiLowercase.dropWhile isWhitespace =
      Text.toAsciiLowercase (t.dropWhile isWhitespace) := by
    intro t
    rw [toAsciiLowercase, List.dropWhile_map, hcomp, toAsciiLowercase]
  unfold trim trimEndMatches
  rw [hstart]
  unfold toAsciiLowercase
  rw [← List.map_reverse, List.dropWhile_map, hcomp, List.map_reverse]

/-- A text without blanks stays. -/
theorem trim_of_forall {s : Text} (h : ∀ c ∈ s, isWhitespace c = false) : s.trim = s := by
  cases s with
  | nil => rfl
  | cons c s => simpa using @trim_append [] (c :: s) [] nofun nofun h (List.cons_ne_nil c s)

/-- `str::replace` of one text by another, left to right, without overlaps. -/
def replace (pat new : Text) (s : Text) : Text :=
  go s 0
where
  /-- `skip` characters of the last occurrence are still to be passed over. -/
  go : Text → ℕ → Text
    | [], _ => []
    | _ :: cs, skip + 1 => go cs skip
    | c :: cs, 0 =>
      if pat ≠ [] ∧ pat.isPrefixOf (c :: cs) then new ++ go cs (pat.length - 1)
      else c :: go cs 0

/-- `str::contains` of a text. -/
def hasInfix (s pat : Text) : Bool := s.tails.any pat.isPrefixOf

/-- `str::strip_prefix`. -/
def stripPrefix (s pat : Text) : Option Text :=
  if pat.isPrefixOf s then some (s.drop pat.length) else none

/-- `str::split_whitespace`. -/
def splitWhitespace (s : Text) : List Text := (s.splitOnP isWhitespace).filter (· ≠ [])

/-- `str::lines`: a line ends at `\n` or `\r\n`, and the last one needs no end. -/
def lines (s : Text) : List Text :=
  let parts := s.splitOn '\n'
  parts.dropLast.map (fun l => if l.getLast? = some '\r' then l.dropLast else l) ++
    parts.getLast?.toList.filter (· ≠ [])

/-! ### Names with dots -/

/-- The labels with dots between them. -/
def dotted : List Text → Text
  | [] => []
  | l :: rest => l ++ rest.flatMap fun l => '.' :: l

/-- The characters of a dotted text are those of its labels, and dots. -/
theorem mem_dotted {ls : List Text} {c : Char} (h : c ∈ dotted ls) : c = '.' ∨ ∃ l ∈ ls, c ∈ l := by
  cases ls with
  | nil => cases h
  | cons l ls =>
    rcases List.mem_append.1 h with h | h
    · exact Or.inr ⟨l, List.mem_cons_self, h⟩
    · obtain ⟨l', hl', hc⟩ := List.mem_flatMap.1 h
      rcases List.mem_cons.1 hc with rfl | hc
      · exact Or.inl rfl
      · exact Or.inr ⟨l', List.mem_cons_of_mem _ hl', hc⟩

theorem mem_dotted_of_mem {ls : List Text} {l : Text} (hl : l ∈ ls) {c : Char} (hc : c ∈ l) :
    c ∈ dotted ls := by
  cases ls with
  | nil => cases hl
  | cons l' ls =>
    rcases List.mem_cons.1 hl with rfl | hl
    · exact List.mem_append_left _ hc
    · exact List.mem_append_right _ (List.mem_flatMap.2 ⟨l, hl, List.mem_cons_of_mem _ hc⟩)

/-- A text that ends in a label without dots ends in no dot. -/
theorem trimEndMatches_dotted {ls : List Text} (h : ∀ l ∈ ls, l ≠ [] ∧ '.' ∉ l) {dots : Text}
    (hdots : ∀ c ∈ dots, c = '.') :
    (dotted ls ++ dots).trimEndMatches (· == '.') = dotted ls := by
  refine trimEndMatches_append (fun c hc => by simp [hdots c hc]) fun c hc => ?_
  have hlabel : ∀ (pre : Text) (l : Text), l ≠ [] → '.' ∉ l → (pre ++ l).getLast? = some c →
      (c == '.') = false := by
    intro pre l hl hdot hlast
    rw [List.getLast?_append_of_ne_nil _ hl] at hlast
    exact beq_false_of_ne fun hcd => hdot (hcd ▸ List.mem_of_getLast? hlast)
  cases ls with
  | nil => cases hc
  | cons l rest =>
    cases rest using List.reverseRecOn with
    | nil =>
      obtain ⟨hl, hdot⟩ := h l List.mem_cons_self
      exact hlabel [] l hl hdot (by simpa [dotted] using hc)
    | append_singleton rest l' =>
      obtain ⟨hl, hdot⟩ := h l' (by simp)
      exact hlabel (l ++ rest.flatMap (fun l => '.' :: l) ++ ['.']) l' hl hdot
        (by simpa [dotted] using hc)

/-- A label after the other with a dot behind each, and the last dot gone. -/
theorem trimEndMatches_flatMap_dot {ls : List Text} (h : ∀ l ∈ ls, l ≠ [] ∧ '.' ∉ l) :
    trimEndMatches (· == '.') (ls.flatMap (· ++ ['.'])) = dotted ls := by
  cases ls with
  | nil => rfl
  | cons l ls =>
    have hshift : ∀ (l : Text) (ls : List Text), (l :: ls).flatMap (· ++ ['.']) =
        dotted (l :: ls) ++ ['.'] := by
      intro l ls
      induction ls generalizing l with
      | nil => simp [dotted]
      | cons l' ls ih =>
        rw [List.flatMap_cons, ih l']
        simp [dotted]
    rw [hshift]
    exact trimEndMatches_dotted h fun c hc => List.mem_singleton.1 hc

theorem count_dotted {ls : List Text} (h : ∀ l ∈ ls, '.' ∉ l) :
    (dotted ls).count '.' = ls.length - 1 := by
  cases ls with
  | nil => rfl
  | cons l ls =>
    have hrest : ∀ ls : List Text, (∀ l ∈ ls, '.' ∉ l) →
        (ls.flatMap fun l => '.' :: l).count '.' = ls.length := by
      intro ls hls
      induction ls with
      | nil => rfl
      | cons l ls ih =>
        have hl := List.count_eq_zero.2 (hls l List.mem_cons_self)
        rw [List.flatMap_cons, List.count_append, List.count_cons_self, hl,
          ih fun l' hl' => hls l' (List.mem_cons_of_mem _ hl'), List.length_cons]
        omega
    have hl := List.count_eq_zero.2 (h l List.mem_cons_self)
    rw [dotted, List.count_append, hl, hrest ls fun l' hl' => h l' (List.mem_cons_of_mem _ hl')]
    simp

/-- Trailing dots come off a name, in either order with its case. -/
theorem toAsciiLowercase_trimEndMatches_dot (t : Text) :
    (t.trimEndMatches (· == '.')).toAsciiLowercase = t.toAsciiLowercase.trimEndMatches (· == '.') := by
  have hdot : ((· == '.') ∘ asciiLower : Char → Bool) = (· == '.') := by
    funext c
    have hiff : asciiLower c = '.' ↔ c = '.' := asciiLower_eq_iff (by decide) (by decide)
    exact Bool.eq_iff_iff.2 (by simpa using hiff)
  unfold trimEndMatches toAsciiLowercase
  rw [← List.map_reverse, List.dropWhile_map, hdot, ← List.map_reverse]

end Text

end Ferrite
