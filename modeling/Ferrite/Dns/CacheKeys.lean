import Ferrite.Dns.Cache
import Ferrite.Core.Utf8

/-!
# The keys of the cache

An insert builds its key with `cache_key`, a lookup with `with_key`, on the stack and with the
digits of the type written by hand.  `evict_domain` and `forget_name` find the entries of a name
by the text their keys start with.

* `withKey_eq` — the two builders agree, whatever fits the buffer;
* `cacheKey_inj_iff` — a key is read from its end, so a separator in the name does no harm;
* `isPrefixOf_cacheKey_iff` — read from its start it is the key of the name, or the name
  has a separator in it;
* `cache_keys_name_entries` — what the keys name and what the evictions drop.
-/

namespace Ferrite.Dns

open Bytes

/-! ## The key on the stack -/

/-- A buffer that is filled from the front. -/
structure KeyBuf where
  buf : Bytes
  len : ℕ

namespace KeyBuf

/-- Write behind what is there. -/
def push (s : KeyBuf) (bs : Bytes) : KeyBuf := ⟨s.buf.overwrite s.len bs, s.len + bs.length⟩

/-- What is there. -/
def written (s : KeyBuf) : Bytes := s.buf.take s.len

/-- The buffer of the given size holds exactly these bytes. -/
structure Holds (s : KeyBuf) (size : ℕ) (bs : Bytes) : Prop where
  written : s.written = bs
  len : s.len = bs.length
  size : s.buf.length = size

theorem Holds.push {s : KeyBuf} {size : ℕ} {bs : Bytes} (h : s.Holds size bs) (more : Bytes)
    (hfits : (bs ++ more).length ≤ size) : (s.push more).Holds size (bs ++ more) := by
  rw [List.length_append, ← h.len, ← h.size] at hfits
  have hlen : (s.buf.take s.len).length = s.len := List.length_take_of_le (by omega)
  refine ⟨?_, ?_, ?_⟩
  · show (s.buf.overwrite s.len more).take (s.len + more.length) = bs ++ more
    rw [overwrite_eq hfits, ← List.append_assoc,
      List.take_left' (by rw [List.length_append, hlen]), ← h.written, KeyBuf.written]
  · show s.len + more.length = (bs ++ more).length
    rw [h.len, List.length_append]
  · show (s.buf.overwrite s.len more).length = size
    rw [length_overwrite, h.size]

/-- What is there is changed where it lies. -/
theorem Holds.map {s : KeyBuf} {size : ℕ} {bs : Bytes} (h : s.Holds size bs) (f : UInt8 → UInt8) :
    Holds ⟨s.written.map f ++ s.buf.drop s.len, s.len⟩ size (bs.map f) := by
  have hlen : (s.written.map f).length = s.len := by
    rw [List.length_map, h.written, h.len]
  have hle : s.len ≤ s.buf.length := by
    rw [List.length_map, KeyBuf.written, List.length_take] at hlen
    omega
  refine ⟨?_, ?_, ?_⟩
  · show (s.written.map f ++ s.buf.drop s.len).take s.len = bs.map f
    rw [List.take_left' hlen, h.written]
  · show s.len = (bs.map f).length
    rw [List.length_map, h.len]
  · show (s.written.map f ++ s.buf.drop s.len).length = size
    rw [List.length_append, hlen, List.length_drop, ← h.size]
    omega

/-- The loop that writes byte by byte. -/
theorem Holds.foldl_push {bs : Bytes} {s : KeyBuf} {size : ℕ} (h : s.Holds size bs) (more : Bytes)
    (hfits : (bs ++ more).length ≤ size) :
    (more.foldl (fun s b => s.push [b]) s).Holds size (bs ++ more) := by
  induction more generalizing s bs with
  | nil => simpa using h
  | cons b more ih =>
    have hsplit : bs ++ b :: more = (bs ++ [b]) ++ more := by simp
    rw [hsplit] at hfits ⊢
    rw [List.length_append] at hfits
    exact ih (h.push [b] (by omega)) (by rw [List.length_append]; exact hfits)

end KeyBuf

namespace DnsCache

/-- `KEY_STACK_LEN`. -/
def keyStackLen : ℕ := 255 + 9

/-- The digits of the type, the last one first; the array has room for `room` of them. -/
def digitBytes : (room rest : ℕ) → Bytes
  | 0, _ => []
  | room + 1, rest =>
    UInt8.ofNat (0x30 + rest % 10) :: if rest / 10 = 0 then [] else digitBytes room (rest / 10)

/-- The key `with_key` builds in its buffer. -/
def keyOnStack (name : Text) (qtype : UInt16) (dnssec : Bool) : Bytes :=
  let s : KeyBuf := ⟨List.replicate keyStackLen 0, 0⟩
  let s := s.push name.toBytes
  let s : KeyBuf := ⟨s.written.map asciiLowerByte ++ s.buf.drop s.len, s.len⟩
  let s := s.push [0x2F]
  let s := (digitBytes 5 qtype.toNat).reverse.foldl (fun s b => s.push [b]) s
  let s := if dnssec then s.push [0x2F, 0x64, 0x6F] else s
  s.written

/-- `with_key`. -/
def withKey {R : Type} (name : Text) (qtype : UInt16) (dnssec : Bool) (f : Text → R) : R :=
  if keyStackLen < name.byteLen + 9 then f (cacheKey name qtype dnssec)
  else
    match fromUtf8 (keyOnStack name qtype dnssec) with
    | some key => f key
    | none => f (cacheKey name qtype dnssec)

theorem toBytes_digitChar {k : ℕ} (h : k < 10) :
    Text.toBytes [Nat.digitChar k] = [UInt8.ofNat (0x30 + k)] := by
  have hall : ∀ k < 10, Text.toBytes [Nat.digitChar k] = [UInt8.ofNat (0x30 + k)] := by
    decide
  exact hall k h

/-- The digits written by hand are those that are printed. -/
theorem reverse_digitBytes {room n : ℕ} (h : n < 10 ^ (room + 1)) :
    (digitBytes (room + 1) n).reverse = Text.toBytes (Nat.toDigits 10 n) := by
  induction room generalizing n with
  | zero =>
    have hn : n < 10 := by simpa using h
    rw [Nat.toDigits_of_lt_base hn, toBytes_digitChar hn, digitBytes, if_pos (by omega),
      Nat.mod_eq_of_lt hn]
    rfl
  | succ room ih =>
    rw [digitBytes, Nat.toDigits_eq_if (by omega)]
    by_cases hn : n < 10
    · rw [if_pos hn, if_pos (by omega), toBytes_digitChar hn, Nat.mod_eq_of_lt hn]
      rfl
    · have hrest : n / 10 < 10 ^ (room + 1) := by
        rw [Nat.div_lt_iff_lt_mul (by omega)]
        rwa [pow_succ] at h
      rw [if_neg hn, if_neg (by omega), List.reverse_cons, ih hrest, Text.toBytes_append,
        toBytes_digitChar (Nat.mod_lt _ (by omega))]

theorem length_digitBytes_le (room n : ℕ) : (digitBytes room n).length ≤ room := by
  induction room generalizing n with
  | zero => exact le_rfl
  | succ room ih =>
    rw [digitBytes, List.length_cons]
    split
    · simp
    · exact Nat.succ_le_succ (ih _)

theorem toBytes_cacheKey (name : Text) (qtype : UInt16) (dnssec : Bool) :
    (cacheKey name qtype dnssec).toBytes = name.toBytes.map asciiLowerByte ++ [0x2F] ++
      Text.toBytes (Nat.toDigits 10 qtype.toNat) ++ if dnssec then [0x2F, 0x64, 0x6F] else [] := by
  have hslash : Text.toBytes ['/'] = [0x2F] := by decide
  have hdo : Text.toBytes ['/', 'd', 'o'] = [0x2F, 0x64, 0x6F] := by decide
  rw [map_asciiLowerByte_toBytes, ← hslash, ← Text.toBytes_append, ← Text.toBytes_append]
  cases dnssec with
  | false => simp [cacheKey]
  | true => rw [if_pos rfl, ← hdo, ← Text.toBytes_append]; simp [cacheKey]

/-- A key that fits is built as `cache_key` builds it. -/
theorem keyOnStack_eq {name : Text} (qtype : UInt16) (dnssec : Bool)
    (h : name.byteLen + 9 ≤ keyStackLen) :
    keyOnStack name qtype dnssec = (cacheKey name qtype dnssec).toBytes := by
  have hname : name.toBytes.length = name.byteLen := length_toBytes name
  have hlower : (name.toBytes.map asciiLowerByte).length = name.byteLen := by
    rw [List.length_map, hname]
  have hdigits : (digitBytes 5 qtype.toNat).reverse = Text.toBytes (Nat.toDigits 10 qtype.toNat) :=
    reverse_digitBytes (by have := qtype.toNat_lt; omega)
  have hfive := length_digitBytes_le 5 qtype.toNat
  rw [← List.length_reverse, hdigits] at hfive
  -- the name, folded where it lies
  have hempty : KeyBuf.Holds ⟨List.replicate keyStackLen 0, 0⟩ keyStackLen [] :=
    ⟨rfl, rfl, List.length_replicate⟩
  have hcopied := hempty.push name.toBytes (by
    rw [List.nil_append, hname]
    omega)
  rw [List.nil_append] at hcopied
  -- the separator and the type behind it
  have hslash := (hcopied.map asciiLowerByte).push [0x2F] (by
    rw [List.length_append, hlower, List.length_singleton]
    omega)
  have htype := hslash.foldl_push (Text.toBytes (Nat.toDigits 10 qtype.toNat)) (by
    rw [List.length_append, List.length_append, hlower, List.length_singleton]
    omega)
  rw [toBytes_cacheKey, keyOnStack, hdigits]
  cases dnssec with
  | false => rw [if_neg Bool.false_ne_true, if_neg Bool.false_ne_true, List.append_nil, htype.written]
  | true =>
    rw [if_pos rfl, if_pos rfl]
    refine (htype.push _ ?_).written
    simp only [List.length_append, hlower, List.length_cons, List.length_nil]
    omega

/-- **The two builders agree.** -/
theorem withKey_eq {R : Type} (name : Text) (qtype : UInt16) (dnssec : Bool) (f : Text → R) :
    withKey name qtype dnssec f = f (cacheKey name qtype dnssec) := by
  unfold withKey
  split
  · rfl
  · rw [keyOnStack_eq qtype dnssec (by omega), Text.fromUtf8_toBytes]

/-! ## Reading a key from its end -/

theorem slash_notMem_toDigits (n : ℕ) : '/' ∉ Nat.toDigits 10 n := by
  intro h
  have hdigit := Nat.isDigit_of_mem_toDigits (by omega) le_rfl h
  exact absurd hdigit (by decide)

theorem toDigits_inj {m n : ℕ} (h : Nat.toDigits 10 m = Nat.toDigits 10 n) : m = n := by
  rw [← Nat.ofDigitChars_ten_toDigits (n := m), h, Nat.ofDigitChars_ten_toDigits]

/-- Where two texts with a separator in them are equal, the separators are the same one, or one
text has both. -/
theorem append_slash_eq {x y s t : Text} (h : x ++ '/' :: s = y ++ '/' :: t) :
    (x = y ∧ s = t) ∨ (∃ a, y = x ++ '/' :: a ∧ s = a ++ '/' :: t) ∨
      ∃ b, x = y ++ '/' :: b ∧ t = b ++ '/' :: s := by
  rcases List.append_eq_append_iff.1 h with ⟨a, rfl, hs⟩ | ⟨b, rfl, ht⟩
  · rcases List.cons_eq_append_iff.1 hs with ⟨rfl, hst⟩ | ⟨a', rfl, htail⟩
    · exact .inl ⟨(List.append_nil x).symm, (List.cons.inj hst).2.symm⟩
    · exact .inr (.inl ⟨a', rfl, htail⟩)
  · rcases List.cons_eq_append_iff.1 ht with ⟨rfl, hst⟩ | ⟨b', rfl, htail⟩
    · exact .inl ⟨List.append_nil y, (List.cons.inj hst).2⟩
    · exact .inr (.inr ⟨b', rfl, htail⟩)

theorem append_slash_inj {x y s t : Text} (hs : '/' ∉ s) (ht : '/' ∉ t)
    (h : x ++ '/' :: s = y ++ '/' :: t) : x = y ∧ s = t := by
  rcases append_slash_eq h with h | ⟨a, -, rfl⟩ | ⟨b, -, rfl⟩
  · exact h
  · simp at hs
  · simp at ht

/-- The flag shows in the last character. -/
theorem getLast?_cacheKey (name : Text) (qtype : UInt16) (dnssec : Bool) :
    (cacheKey name qtype dnssec).getLast? = some 'o' ↔ dnssec = true := by
  cases dnssec with
  | true =>
    rw [cacheKey, if_pos rfl, List.getLast?_append_of_ne_nil _ (by simp)]
    simp
  | false =>
    have hsplit : cacheKey name qtype false =
        (name.toAsciiLowercase ++ ['/']) ++ Nat.toDigits 10 qtype.toNat := by
      simp [cacheKey]
    rw [hsplit, List.getLast?_append_of_ne_nil _ Nat.toDigits_ne_nil]
    simp only [Bool.false_eq_true, iff_false]
    intro h
    have hdigit := Nat.isDigit_of_mem_toDigits (by omega) le_rfl (List.mem_of_getLast? h)
    exact absurd hdigit (by decide)

/-- **A key names one name, one type and one flag.** -/
theorem cacheKey_inj_iff {n₁ n₂ : Text} {q₁ q₂ : UInt16} {d₁ d₂ : Bool} :
    cacheKey n₁ q₁ d₁ = cacheKey n₂ q₂ d₂ ↔
      n₁.eqIgnoreAsciiCase n₂ = true ∧ q₁ = q₂ ∧ d₁ = d₂ := by
  rw [Text.eqIgnoreAsciiCase, beq_iff_eq]
  constructor
  · intro h
    obtain rfl : d₁ = d₂ := by
      rw [Bool.eq_iff_iff, ← getLast?_cacheKey n₁ q₁, ← getLast?_cacheKey n₂ q₂, h]
    have hfront := List.append_cancel_right h
    obtain ⟨hname, hdigits⟩ :=
      append_slash_inj (slash_notMem_toDigits _) (slash_notMem_toDigits _) hfront
    exact ⟨hname, UInt16.toNat_inj.1 (toDigits_inj hdigits), rfl⟩
  · rintro ⟨hname, rfl, rfl⟩
    rw [cacheKey, hname, cacheKey]

/-! ## Reading a key from its start -/

/-- A key of another name that starts like the keys of `name`: that name goes on behind a
separator, or `name` ends in what the key of a signed answer goes on with. -/
def Mistaken (name other : Text) (qtype : UInt16) (dnssec : Bool) : Prop :=
  (name.toAsciiLowercase ++ ['/']) <+: other.toAsciiLowercase ∨
    (dnssec = true ∧
      name.toAsciiLowercase = other.toAsciiLowercase ++ '/' :: Nat.toDigits 10 qtype.toNat)

theorem isPrefixOf_cacheKey_iff (name other : Text) (qtype : UInt16) (dnssec : Bool) :
    (name.toAsciiLowercase ++ ['/']).isPrefixOf (cacheKey other qtype dnssec) = true ↔
      other.eqIgnoreAsciiCase name = true ∨ Mistaken name other qtype dnssec := by
  have hkey : cacheKey other qtype dnssec = other.toAsciiLowercase ++ '/' ::
      (Nat.toDigits 10 qtype.toNat ++ if dnssec then ['/', 'd', 'o'] else []) := by
    simp [cacheKey]
  rw [List.isPrefixOf_iff_prefix, Text.eqIgnoreAsciiCase, beq_iff_eq, hkey, Mistaken]
  generalize name.toAsciiLowercase = n
  generalize other.toAsciiLowercase = m
  constructor
  · rintro ⟨rest, h⟩
    rw [List.append_assoc, List.singleton_append] at h
    rcases append_slash_eq h with ⟨rfl, -⟩ | ⟨a, rfl, -⟩ | ⟨b, rfl, hrest⟩
    · exact .inl rfl
    · exact .inr (.inl ⟨a, by simp⟩)
    · -- the separator behind the digits
      cases dnssec with
      | false =>
        rw [if_neg Bool.false_ne_true, List.append_nil] at hrest
        exact absurd (hrest ▸ by simp) (slash_notMem_toDigits qtype.toNat)
      | true =>
        rw [if_pos rfl] at hrest
        have hdo := (List.append_cons_inj_of_notMem (slash_notMem_toDigits _) (by decide)).1 hrest
        exact .inr (.inr ⟨rfl, by rw [hdo.1]⟩)
  · rintro (rfl | ⟨a, rfl⟩ | ⟨rfl, rfl⟩)
    · exact ⟨_, by rw [List.append_assoc, List.singleton_append]⟩
    · exact (List.prefix_append (n ++ ['/']) a).trans (List.prefix_append _ _)
    · exact ⟨['d', 'o'], by simp⟩

/-! ## What the evictions drop -/

/-- The entries of a name are dropped, whatever their type and flag; those of another name stay
unless their keys are mistaken for keys of the name. -/
structure DropsName (c c' : DnsCache) (name : Text) : Prop where
  gone : ∀ other qtype dnssec e, other.eqIgnoreAsciiCase name = true →
    (cacheKey other qtype dnssec, e) ∉ c'.entries
  kept : ∀ other qtype dnssec e, other.eqIgnoreAsciiCase name = false →
    ¬ Mistaken name other qtype dnssec → (cacheKey other qtype dnssec, e) ∈ c.entries →
    (cacheKey other qtype dnssec, e) ∈ c'.entries
  noneNew : ∀ e ∈ c'.entries, e ∈ c.entries

theorem dropsName_popUnder (c : DnsCache) (name : Text) :
    DropsName c { c with inner := c.inner.popAll ((c.entries.filter fun e =>
      (name.toAsciiLowercase ++ ['/']).isPrefixOf e.1).map Prod.fst) } name where
  gone other qtype dnssec e hname h := by
    have hpre := (mem_popUnder_iff.1 h).2
    rw [(isPrefixOf_cacheKey_iff name other qtype dnssec).2 (.inl hname)] at hpre
    cases hpre
  kept other qtype dnssec e hname hmistaken h := by
    refine mem_popUnder_iff.2 ⟨h, Bool.eq_false_iff.2 fun hpre => ?_⟩
    rcases (isPrefixOf_cacheKey_iff name other qtype dnssec).1 hpre with hsame | hmis
    · rw [hname] at hsame
      cases hsame
    · exact hmistaken hmis
  noneNew e h := (mem_popUnder_iff.1 h).1

/-- **The keys of the cache.**  Both builders build the same key; a key is that of one name, up
to case, one type and one flag; `evict_domain` drops the entries of its name and `forget_name`
those of its name without root dots. -/
theorem cache_keys_name_entries :
    (∀ {R : Type} (name : Text) (qtype : UInt16) (dnssec : Bool) (f : Text → R),
      withKey name qtype dnssec f = f (cacheKey name qtype dnssec)) ∧
    (∀ n₁ n₂ q₁ q₂ d₁ d₂, cacheKey n₁ q₁ d₁ = cacheKey n₂ q₂ d₂ ↔
      n₁.eqIgnoreAsciiCase n₂ = true ∧ q₁ = q₂ ∧ d₁ = d₂) ∧
    (∀ (c : DnsCache) (name : Text), DropsName c (c.evictDomain name) name) ∧
    ∀ (c : DnsCache) (name : Text),
      DropsName c (c.forgetName name) (name.trimEndMatches (· == '.')) := by
  refine ⟨withKey_eq, fun n₁ n₂ q₁ q₂ d₁ d₂ => cacheKey_inj_iff, ?_, ?_⟩
  · exact fun c name => dropsName_popUnder c name
  · exact fun c name => dropsName_popUnder c (name.trimEndMatches (· == '.'))

/-- A cache with one answer in it. -/
def holding (name : Text) : DnsCache := (new 8 0 0 3600).insert name 1 false ⟨[], 300⟩ 0

/-- `forget_name` of a name with a root dot looks for the name without it, and `evict_domain` of
a name takes along what goes on behind a separator. -/
theorem other_entries_dropped :
    (((holding ['a', '.']).forgetName ['a', '.']).entries.map Prod.fst =
        [cacheKey ['a', '.'] 1 false] ∧
      ((holding ['a']).forgetName ['a', '.']).entries = []) ∧
    (holding ['a', '/', 'b']).entries.map Prod.fst = [cacheKey ['a', '/', 'b'] 1 false] ∧
      ((holding ['a', '/', 'b']).evictDomain ['a']).entries = [] ∧
      Text.eqIgnoreAsciiCase ['a', '/', 'b'] ['a'] = false := by
  decide +kernel

end DnsCache

end Ferrite.Dns
