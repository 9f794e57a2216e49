import Mathlib.Data.List.Forall2
import Ferrite.Core.Ipv6Text
import Ferrite.Lib.Staged

/-!
# One key per client

Profiles, bypasses, pauses and rules are matched by the text `normalize_client_key` makes of
what somebody typed.  `Names` says what a text names, an address, a hardware address or a
client id, by grammars of its own; every text that names a client gets the key of that client,
but for two slips of `core/src/net.rs`.

* `normalize_named` — a text that names a client gets its key;
* `parseMac_eq_some_iff` — what `parse_mac` takes, which is more than its format: the number
  parser of the standard library lets a group have a plus sign and leading zeros;
* `client_keys_iff` — the keys are one per client, but for a prefix written `Id:` or `iD:` and
  hardware addresses with such groups.
-/

namespace Ferrite

/-! ## What a text names -/

/-- The value of some hexadecimal digits. -/
def hexValue (t : Text) : ℕ := (t.filterMap hexDigit).foldl (fun acc d => acc * 16 + d) 0

/-- Hexadecimal digits with a value in a byte. -/
structure HexNumber (t : Text) (b : UInt8) : Prop where
  ne_nil : t ≠ []
  digits : ∀ c ∈ t, (hexDigit c).isSome = true
  value : hexValue t = b.toNat

/-- A group of a hardware address: one or two hexadecimal digits. -/
def ByteSpelling (t : Text) (b : UInt8) : Prop := HexNumber t b ∧ t.length ≤ 2

/-- Groups with a colon or a hyphen between any two. -/
inductive Grouped : Text → List Text → Prop where
  | one (t : Text) : Grouped t [t]
  | more {t s : Text} {ts : List Text} {sep : Char} (hsep : sep = ':' ∨ sep = '-')
      (hs : Grouped s ts) : Grouped (t ++ sep :: s) (t :: ts)

/-- The spellings of a hardware address. -/
def MacSpelling (s : Text) (mac : Mac) : Prop :=
  ∃ ts, Grouped s ts ∧ List.Forall₂ ByteSpelling ts mac.toList

/-- The spellings of an address. -/
inductive IpSpelling : Text → IpAddr → Prop where
  | v4 (ip : Ipv4Addr) : IpSpelling ip.toText.toList (.v4 ip)
  | v6 {t : Text} {gs : List ℕ} {ip : Ipv6Addr} (hgroups : Ipv6Spelling t gs)
      (hip : Ipv6Addr.ofSegments gs = some ip) : IpSpelling t (.v6 ip)

/-- A device name: one DNS label. -/
structure IsClientId (id : Text) : Prop where
  length : 1 ≤ id.length ∧ id.length ≤ 63
  head : id.head? ≠ some '-'
  last : id.getLast? ≠ some '-'
  chars : ∀ c ∈ id, ('a' ≤ c ∧ c ≤ 'z') ∨ ('0' ≤ c ∧ c ≤ '9') ∨ c = '-'

/-- A client. -/
inductive Client where
  | address (ip : IpAddr)
  | mac (mac : Mac)
  | id (id : Text)

/-- The key of a client: what `ip_to_string` and `format_mac` write, and `id:` before an id. -/
def Client.key : Client → Text
  | .address ip => ipToString ip
  | .mac m => (formatMac m).toList
  | .id device => "id:".toList ++ device

/-- What a text names: an address with a scope or without, where a mapped one is the IPv4
address in it; a hardware address; or a client id behind its prefix, both in any case. -/
inductive Names : Text → Client → Prop where
  | address {t scope : Text} {ip : IpAddr} (ht : IpSpelling t ip)
      (hscope : ∀ c ∈ scope.head?, c = '%') : Names (t ++ scope) (.address (unmapV4 ip))
  | mac {t : Text} {m : Mac} (ht : MacSpelling t m) : Names t (.mac m)
  | id {p t device : Text} (hp : p.toAsciiLowercase = "id:".toList)
      (ht : t.trim.toAsciiLowercase = device) (hdevice : IsClientId device) :
      Names (p ++ t) (.id device)

/-! ## Characters -/

theorem idPrefix_eq : "id:".toList = ['i', 'd', ':'] := by simp

/-- The characters of the spellings of addresses. -/
def AddrChar (c : Char) : Prop := (hexDigit c).isSome = true ∨ c = ':' ∨ c = '.' ∨ c = '-'

instance (c : Char) : Decidable (AddrChar c) := inferInstanceAs (Decidable (_ ∨ _))

theorem AddrChar.toNat_lt {c : Char} (h : AddrChar c) : 45 ≤ c.toNat ∧ c.toNat ≤ 102 := by
  have hnum : ∀ {a b : Char}, a ≤ b ↔ a.toNat ≤ b.toNat := Iff.rfl
  have hchars : '0'.toNat = 48 ∧ '9'.toNat = 57 ∧ 'a'.toNat = 97 ∧ 'f'.toNat = 102 ∧
    'A'.toNat = 65 ∧ 'F'.toNat = 70 := by decide
  rcases h with hhex | rfl | rfl | rfl
  · unfold hexDigit at hhex
    simp only [hnum] at hhex
    split at hhex
    · omega
    · split at hhex
      · omega
      · split at hhex
        · omega
        · cases hhex
  · decide
  · decide
  · decide

theorem AddrChar.not_isWhitespace {c : Char} (h : AddrChar c) : isWhitespace c = false := by
  have hrange := h.toNat_lt
  rw [← Bool.not_eq_true]
  intro hblank
  simp only [isWhitespace, Bool.or_eq_true, Bool.and_eq_true, decide_eq_true_eq, beq_iff_eq] at hblank
  omega

theorem mem_intercalate {sep : Char} {ts : List Text} {c : Char} (h : c ∈ [sep].intercalate ts) :
    c = sep ∨ ∃ t ∈ ts, c ∈ t := by
  induction ts with
  | nil => cases h
  | cons t ts ih =>
    cases ts with
    | nil =>
      rw [List.intercalate_singleton] at h
      exact .inr ⟨t, List.mem_cons_self .., h⟩
    | cons u us =>
      rw [List.intercalate_cons_cons] at h
      rcases List.mem_append.1 h with h | h
      · rcases List.mem_append.1 h with h | h
        · exact .inr ⟨t, List.mem_cons_self .., h⟩
        · exact .inl (List.mem_singleton.1 h)
      · rcases ih h with h | ⟨v, hv, hc⟩
        · exact .inl h
        · exact .inr ⟨v, List.mem_cons_of_mem _ hv, hc⟩

theorem addrChar_ipv4 {ip : Ipv4Addr} {c : Char} (h : c ∈ ip.toText.toList) : AddrChar c := by
  rw [Ipv4Addr.toText, String.toList_ofList] at h
  rcases mem_intercalate h with rfl | ⟨t, ht, hc⟩
  · exact .inr (.inr (.inl rfl))
  · obtain ⟨o, -, rfl⟩ := List.mem_map.1 ht
    have hdigit := (Reader.octet_octetText o).2 c hc
    refine .inl ?_
    unfold decDigit at hdigit
    unfold hexDigit
    split at hdigit
    · next hrange =>
      rw [if_pos hrange]
      rfl
    · cases hdigit

theorem addrChar_groups {ts : List Text} {gs : List ℕ} (h : List.Forall₂ GroupSpelling ts gs)
    (quad : Option Ipv4Addr) {c : Char} (hc : c ∈ [':'].intercalate (ts ++ quadText quad)) :
    AddrChar c := by
  rcases mem_intercalate hc with rfl | ⟨t, ht, hc⟩
  · exact .inr (.inl rfl)
  · rcases List.mem_append.1 ht with ht | ht
    · obtain ⟨g, -, hg⟩ := forall₂_mem_left h ht
      exact .inl (hg.digits c hc)
    · cases quad with
      | none => cases ht
      | some v4 =>
        obtain rfl := List.mem_singleton.1 ht
        exact addrChar_ipv4 hc

theorem IpSpelling.addrChar {t : Text} {ip : IpAddr} (h : IpSpelling t ip) {c : Char} (hc : c ∈ t) :
    AddrChar c := by
  cases h with
  | v4 ip => exact addrChar_ipv4 hc
  | v6 hgroups _ =>
    cases hgroups with
    | @full ts gs quad hts _ => exact addrChar_groups hts quad hc
    | @short ts us gs hs quad hts hus _ =>
      rcases List.mem_append.1 hc with hc | hc
      · refine addrChar_groups hts none ?_
        simpa [quadText] using hc
      · simp only [List.mem_cons] at hc
        rcases hc with rfl | rfl | hc
        · exact .inr (.inl rfl)
        · exact .inr (.inl rfl)
        · exact addrChar_groups hus quad hc

/-- A text in groups has the characters of the groups and the separators. -/
theorem Grouped.mem {s : Text} {ts : List Text} (h : Grouped s ts) {c : Char} (hc : c ∈ s) :
    c = ':' ∨ c = '-' ∨ ∃ t ∈ ts, c ∈ t := by
  induction h with
  | one t => exact .inr (.inr ⟨t, List.mem_cons_self .., hc⟩)
  | more hsep _ ih =>
    rcases List.mem_append.1 hc with hc | hc
    · exact .inr (.inr ⟨_, List.mem_cons_self .., hc⟩)
    · rcases List.mem_cons.1 hc with rfl | hc
      · exact hsep.imp_right .inl
      · refine (ih hc).imp_right (Or.imp_right ?_)
        rintro ⟨t, ht, hc⟩
        exact ⟨t, List.mem_cons_of_mem _ ht, hc⟩

theorem MacSpelling.addrChar {s : Text} {mac : Mac} (h : MacSpelling s mac) {c : Char} (hc : c ∈ s) :
    AddrChar c := by
  obtain ⟨ts, hgrouped, hts⟩ := h
  rcases hgrouped.mem hc with rfl | rfl | ⟨t, ht, hc⟩
  · exact .inr (.inl rfl)
  · exact .inr (.inr (.inr rfl))
  · obtain ⟨b, -, hb⟩ := forall₂_mem_left hts ht
    exact .inl (hb.1.digits c hc)

/-! ## Hardware addresses -/

/-- What `u8::from_str_radix` takes: digits, after a plus sign or not. -/
def LooseByte (t : Text) (b : UInt8) : Prop :=
  ∃ sign ds, (sign = [] ∨ sign = ['+']) ∧ t = sign ++ ds ∧ HexNumber ds b

theorem u8FromStrRadix16_eq_some_iff {t : Text} {b : UInt8} :
    u8FromStrRadix16 t = some b ↔ LooseByte t b := by
  have hread : ∀ ds : Text, ds ≠ [] → (readU8 16 hexDigit ds = some b ↔ HexNumber ds b) := by
    intro ds hne
    rw [readU8_eq_some_iff (by omega)]
    exact ⟨fun h => ⟨hne, h.1, h.2⟩, fun h => ⟨h.digits, h.value⟩⟩
  have hplus : ∀ {ds : Text}, HexNumber ds b → ds.head? ≠ some '+' := by
    intro ds hds hhead
    obtain ⟨rest, rfl⟩ := List.head?_eq_some_iff.1 hhead
    exact absurd (hds.digits '+' (List.mem_cons_self ..)) (by decide)
  unfold LooseByte
  unfold u8FromStrRadix16
  split
  · constructor
    · nofun
    · rintro ⟨sign, ds, hsign, ht, hds⟩
      exact absurd (List.append_eq_nil_iff.1 ht.symm).2 hds.ne_nil
  · constructor
    · nofun
    · rintro ⟨sign, ds, rfl | rfl, ht, hds⟩
      · exact absurd (by rw [← show ['+'] = ds from ht]; rfl) (hplus hds)
      · exact absurd (List.cons.inj ht).2.symm hds.ne_nil
  · next ds hne =>
    have hds : ds ≠ [] := fun h => hne (by rw [h])
    rw [hread ds hds]
    constructor
    · exact fun h => ⟨['+'], ds, .inr rfl, rfl, h⟩
    · rintro ⟨sign, ds', rfl | rfl, ht, hds'⟩
      · exact absurd (by rw [← show '+' :: ds = ds' from ht]; rfl) (hplus hds')
      · exact (List.cons.inj ht).2 ▸ hds'
  · next h₁ h₂ h₃ =>
    rw [hread t h₁]
    constructor
    · exact fun h => ⟨[], t, .inl rfl, rfl, h⟩
    · rintro ⟨sign, ds, rfl | rfl, ht, hds⟩
      · exact ht ▸ hds
      · exact absurd ht (h₃ ds)

/-! ### Groups -/

/-- Neither separator stands in the group. -/
def NoSeparator (t : Text) : Prop := ':' ∉ t ∧ '-' ∉ t

theorem LooseByte.mem {t : Text} {b : UInt8} (h : LooseByte t b) {c : Char} (hc : c ∈ t) :
    c = '+' ∨ (hexDigit c).isSome = true := by
  obtain ⟨sign, ds, hsign, rfl, hds⟩ := h
  rcases List.mem_append.1 hc with hc | hc
  · rcases hsign with rfl | rfl
    · cases hc
    · exact .inl (List.mem_singleton.1 hc)
  · exact .inr (hds.digits c hc)

theorem LooseByte.noSeparator {t : Text} {b : UInt8} (h : LooseByte t b) : NoSeparator t :=
  ⟨fun hc => absurd (h.mem hc) (by decide), fun hc => absurd (h.mem hc) (by decide)⟩

theorem ByteSpelling.loose {t : Text} {b : UInt8} (h : ByteSpelling t b) : LooseByte t b :=
  ⟨[], t, .inl rfl, rfl, h.1⟩

/-- With every hyphen a colon. -/
def colons (s : Text) : Text := s.map fun c => if c = '-' then ':' else c

theorem colons_of_noSeparator {t : Text} (h : NoSeparator t) : colons t = t := map_dash_of_not_mem h.2

theorem Grouped.ne_nil {s : Text} {ts : List Text} (h : Grouped s ts) : ts ≠ [] := by
  cases h with
  | one => exact List.cons_ne_nil _ _
  | more => exact List.cons_ne_nil _ _

/-- The groups of a text are what splitting it gives. -/
theorem Grouped.splitOn {s : Text} {ts : List Text} (h : Grouped s ts)
    (hts : ∀ t ∈ ts, NoSeparator t) : (colons s).splitOn ':' = ts := by
  have hjoin : colons s = [':'].intercalate ts := by
    induction h with
    | one t =>
      rw [List.intercalate_singleton]
      exact colons_of_noSeparator (hts t (List.mem_cons_self ..))
    | @more t s ts sep hsep hs ih =>
      have ht := hts t (List.mem_cons_self ..)
      have hrest := ih fun u hu => hts u (List.mem_cons_of_mem _ hu)
      have hcolon : (if sep = '-' then ':' else sep) = ':' := by
        rcases hsep with rfl | rfl <;> rfl
      rw [List.intercalate_cons_of_ne_nil hs.ne_nil, ← hrest]
      show (t ++ sep :: s).map _ = _
      rw [List.map_append, List.map_cons, hcolon]
      show colons t ++ ':' :: colons s = _
      rw [colons_of_noSeparator ht]
      simp
  rw [hjoin]
  exact List.splitOn_intercalate _ (fun t ht => (hts t ht).1) h.ne_nil

/-- Every text has groups. -/
theorem exists_grouped (s : Text) : ∃ ts, Grouped s ts ∧ ∀ t ∈ ts, NoSeparator t := by
  induction s with
  | nil => exact ⟨[[]], .one [], by simp [NoSeparator]⟩
  | cons c s ih =>
    obtain ⟨ts, hgrouped, hts⟩ := ih
    by_cases hsep : c = ':' ∨ c = '-'
    · refine ⟨[] :: ts, @Grouped.more [] _ _ _ hsep hgrouped, fun t ht => ?_⟩
      rcases List.mem_cons.1 ht with rfl | ht
      · simp [NoSeparator]
      · exact hts t ht
    · have hgrow : ∀ t, NoSeparator t → NoSeparator (c :: t) := by
        intro t ht
        simp only [NoSeparator, List.mem_cons, not_or] at ht ⊢
        exact ⟨⟨fun h => hsep (.inl h.symm), ht.1⟩, ⟨fun h => hsep (.inr h.symm), ht.2⟩⟩
      cases hgrouped with
      | one =>
        refine ⟨[c :: s], .one _, fun t ht => ?_⟩
        obtain rfl := List.mem_singleton.1 ht
        exact hgrow s (hts s (List.mem_cons_self ..))
      | @more t s ts sep hsep' hs =>
        refine ⟨(c :: t) :: ts, @Grouped.more (c :: t) _ _ _ hsep' hs, fun u hu => ?_⟩
        rcases List.mem_cons.1 hu with rfl | hu
        · exact hgrow t (hts t (List.mem_cons_self ..))
        · exact hts u (List.mem_cons_of_mem _ hu)

/-- **What `parse_mac` takes**: six groups, each a number that fits a byte. -/
theorem parseMac_eq_some_iff {s : Text} {mac : Mac} : parseMac (String.ofList s) = some mac ↔
    ∃ ts, Grouped s ts ∧ List.Forall₂ LooseByte ts mac.toList := by
  obtain ⟨a, b, c, d, e, f, rfl⟩ := Mac.eq_literal mac
  have hsplit : ∀ ts, Grouped s ts → (∀ t ∈ ts, NoSeparator t) →
      ((String.ofList s).toList.map fun c => if c = '-' then ':' else c).splitOn ':' = ts := by
    intro ts hgrouped hts
    rw [String.toList_ofList]
    exact hgrouped.splitOn hts
  unfold parseMac
  constructor
  · intro h
    obtain ⟨ts, hgrouped, hts⟩ := exists_grouped s
    rw [hsplit ts hgrouped hts] at h
    split at h
    · next g₀ g₁ g₂ g₃ g₄ g₅ =>
      simp only [Option.bind_eq_bind, Option.bind_eq_some_iff, u8FromStrRadix16_eq_some_iff] at h
      obtain ⟨x₀, h₀, x₁, h₁, x₂, h₂, x₃, h₃, x₄, h₄, x₅, h₅, hmac⟩ := h
      cases hmac
      exact ⟨_, hgrouped, .cons h₀ (.cons h₁ (.cons h₂ (.cons h₃ (.cons h₄ (.cons h₅ .nil)))))⟩
    · cases h
  · rintro ⟨ts, hgrouped, hts⟩
    have hno : ∀ t ∈ ts, NoSeparator t := by
      intro t ht
      obtain ⟨x, -, hx⟩ := forall₂_mem_left hts ht
      exact hx.noSeparator
    rw [hsplit ts hgrouped hno]
    cases hts with
    | cons h₀ hts =>
    cases hts with
    | cons h₁ hts =>
    cases hts with
    | cons h₂ hts =>
    cases hts with
    | cons h₃ hts =>
    cases hts with
    | cons h₄ hts =>
    cases hts with
    | cons h₅ hts =>
    cases hts
    rw [← u8FromStrRadix16_eq_some_iff] at h₀ h₁ h₂ h₃ h₄ h₅
    simp [h₀, h₁, h₂, h₃, h₄, h₅]

/-! ## Addresses -/

theorem Reader.parse_ipSpelling {t : Text} {ip : IpAddr} (h : IpSpelling t ip) :
    Reader.parse Reader.ip t = some ip := by
  cases h with
  | v4 ip => exact Reader.parse_ipToString (.v4 ip)
  | v6 hgroups hip => exact Reader.parse_spelled hgroups hip

theorem ipSpelling_ipToString (ip : IpAddr) : IpSpelling (ipToString ip) ip := by
  cases ip with
  | v4 ip => exact .v4 ip
  | v6 ip => exact .v6 ip.toText_spelled ip.ofSegments_segments

/-- The scope is cut off. -/
theorem parseIp_append {t scope : Text} (ht : ∀ c ∈ t, AddrChar c)
    (hscope : ∀ c ∈ scope.head?, c = '%') : parseIp (t ++ scope) = Reader.parse Reader.ip t := by
  have hkeep : ∀ c ∈ t, decide (c ≠ '%') = true := by
    intro c hc
    refine decide_eq_true ?_
    rintro rfl
    exact absurd (ht '%' hc) (by decide)
  have hcut : (t ++ scope).takeWhile (· ≠ '%') = t := by
    rw [List.takeWhile_append_of_pos hkeep]
    cases scope with
    | nil => simp
    | cons c scope => simp [hscope c rfl]
  rw [parseIp, hcut]

/-- A hyphen ends the groups of an address. -/
theorem Reader.stops_hyphen (r : Text) : Reader.Stops ('-' :: r) := by
  refine ⟨fun c hc => ?_, fun r' hr => by cases hr⟩
  cases hc
  exact ⟨rfl, by decide⟩

/-- What a text in groups of digits has before its first hyphen. -/
theorem Grouped.pieces {s : Text} {ts : List Text} (h : Grouped s ts)
    (hts : ∀ t ∈ ts, ∃ g, GroupSpelling t g) : ∃ us gs rest, List.Forall₂ GroupSpelling us gs ∧
      us ≠ [] ∧ us.length ≤ ts.length ∧ s = Reader.pieces 0 us ++ rest ∧
        (rest = [] ∨ ∃ r, rest = '-' :: r) := by
  have hone : ∀ t, Reader.pieces 0 [t] = t := fun t => @List.intercalate_singleton _ [':'] t
  induction h with
  | one t =>
    obtain ⟨g, hg⟩ := hts t (List.mem_cons_self ..)
    exact ⟨[t], [g], [], .cons hg .nil, List.cons_ne_nil _ _, le_rfl, by simp [hone], .inl rfl⟩
  | @more t s ts sep hsep hs ih =>
    obtain ⟨g, hg⟩ := hts t (List.mem_cons_self ..)
    rcases hsep with rfl | rfl
    · obtain ⟨us, gs, rest, hus, hne, hlen, rfl, hrest⟩ := ih fun u hu =>
        hts u (List.mem_cons_of_mem _ hu)
      refine ⟨t :: us, g :: gs, rest, .cons hg hus, List.cons_ne_nil _ _, ?_, ?_, hrest⟩
      · simpa using hlen
      · show _ = [':'].intercalate (t :: us) ++ rest
        rw [List.intercalate_cons_of_ne_nil hne]
        show t ++ ':' :: ([':'].intercalate us ++ rest) = _
        simp
    · refine ⟨[t], [g], '-' :: s, .cons hg .nil, List.cons_ne_nil _ _, ?_, by simp [hone],
        .inr ⟨s, rfl⟩⟩
      simp

/-- Fewer than eight groups are no address, unless there is `::`. -/
theorem Reader.parse_grouped {s : Text} {ts : List Text} (h : Grouped s ts)
    (hts : ∀ t ∈ ts, ∃ g, GroupSpelling t g) (hfew : ts.length < 8) :
    Reader.parse Reader.ip s = none := by
  obtain ⟨us, gs, rest, hus, hne, hlen, rfl, hrest⟩ := h.pieces hts
  have hstops : Reader.Stops rest := by
    rcases hrest with rfl | ⟨r, rfl⟩
    · exact Reader.stops_nil
    · exact Reader.stops_hyphen r
  have hcount : us.length = gs.length := hus.length_eq
  have hgroups := Reader.groups_spelled hus none hstops 0
    (show gs.length + 0 ≤ 8 by omega)
  simp only [quadText, quadGroups, Option.map_none, Option.toList_none, List.append_nil,
    Option.elim_none, Option.isSome_none] at hgroups
  have hv4 : Reader.ipv4 (Reader.pieces 0 us ++ rest) = none := by
    cases hus with
    | nil => exact absurd rfl hne
    | cons ht _ =>
      rw [Reader.pieces_cons, if_pos rfl, List.nil_append, List.append_assoc]
      refine Reader.ipv4_group ht.digits fun c hc => ?_
      rcases Reader.head_pieces hc with rfl | hc
      · exact ⟨rfl, by decide⟩
      · exact hstops.1 c hc
  have hv6 : Reader.ipv6 (Reader.pieces 0 us ++ rest) = none := by
    have hnot : ¬ gs.length = 8 := by omega
    unfold Reader.ipv6
    rw [hgroups]
    dsimp only
    rw [if_neg hnot, if_neg Bool.false_ne_true]
    rcases hrest with rfl | ⟨r, rfl⟩
    · rfl
    · rfl
  unfold Reader.parse Reader.ip
  rw [hv4, hv6]
  rfl

/-- A text that starts with neither digit nor colon is no address. -/
theorem Reader.parse_none {t : Text} (h : Reader.Stops t) (hcolon : t.head? ≠ some ':') :
    Reader.parse Reader.ip t = none := by
  have hv4 : Reader.ipv4 t = none := by
    unfold Reader.ipv4
    rw [show Reader.octet t = none from
      Reader.number_eq_none fun c hc => Reader.decDigit_of_hexDigit (h.1 c hc).1]
    rfl
  have hv6 : Reader.ipv6 t = none := by
    unfold Reader.ipv6
    rw [Reader.groups_stops h]
    dsimp only
    rw [if_neg (by decide), if_neg Bool.false_ne_true]
    cases t with
    | nil => rfl
    | cons c t =>
      have hc : c ≠ ':' := fun h => hcolon (h ▸ rfl)
      split
      · next heq =>
        cases heq
        exact absurd rfl hc
      · rfl
  unfold Reader.parse Reader.ip
  rw [hv4, hv6]
  rfl

/-! ## The key -/

theorem normalizeClientId_eq_some_iff {t device : Text} : normalizeClientId t = some device ↔
    t.trim.toAsciiLowercase = device ∧ IsClientId device := by
  unfold normalizeClientId
  dsimp only
  rw [Option.ite_none_right_eq_some]
  have hok : ∀ id : Text, (1 ≤ id.length ∧ id.length ≤ 63 ∧ id.head? ≠ some '-' ∧
      id.getLast? ≠ some '-' ∧ (id.all fun c =>
        ('a' ≤ c && c ≤ 'z') || ('0' ≤ c && c ≤ '9') || c == '-') = true) ↔ IsClientId id := by
    intro id
    simp only [List.all_eq_true, Bool.or_eq_true, Bool.and_eq_true, decide_eq_true_eq, beq_iff_eq,
      or_assoc]
    constructor
    · rintro ⟨hmin, hmax, hhead, hlast, hchars⟩
      exact ⟨⟨hmin, hmax⟩, hhead, hlast, hchars⟩
    · rintro ⟨⟨hmin, hmax⟩, hhead, hlast, hchars⟩
      exact ⟨hmin, hmax, hhead, hlast, hchars⟩
  rw [hok]
  constructor
  · rintro ⟨hid, heq⟩
    cases heq
    exact ⟨rfl, hid⟩
  · rintro ⟨rfl, hid⟩
    exact ⟨hid, rfl⟩

/-- The prefix of a client id, as `normalize_client_key` looks for it. -/
def HasIdPrefix (s : Text) : Prop := ∃ p t, s = p ++ t ∧ (p = ['i', 'd', ':'] ∨ p = ['I', 'D', ':'])

theorem hasIdPrefix_iff {s : Text} :
    ("id:".toList.isPrefixOf s || "ID:".toList.isPrefixOf s) = true ↔ HasIdPrefix s := by
  have hupper : "ID:".toList = ['I', 'D', ':'] := by simp
  rw [idPrefix_eq, hupper, Bool.or_eq_true, List.isPrefixOf_iff_prefix, List.isPrefixOf_iff_prefix]
  constructor
  · rintro (⟨t, rfl⟩ | ⟨t, rfl⟩)
    · exact ⟨_, t, rfl, .inl rfl⟩
    · exact ⟨_, t, rfl, .inr rfl⟩
  · rintro ⟨p, t, rfl, rfl | rfl⟩
    · exact .inl ⟨t, rfl⟩
    · exact .inr ⟨t, rfl⟩

theorem normalize_id {s p t : Text} (hs : s.trim = p ++ t)
    (hp : p = ['i', 'd', ':'] ∨ p = ['I', 'D', ':']) :
    normalizeClientKey s = (normalizeClientId t).map ("id:".toList ++ ·) := by
  have hne : s.trim ≠ [] := by
    rw [hs]
    rcases hp with rfl | rfl <;> exact List.cons_ne_nil _ _
  have hdrop : s.trim.drop 3 = t := by
    rw [hs]
    rcases hp with rfl | rfl <;> rfl
  unfold normalizeClientKey
  dsimp only
  rw [if_neg hne, if_pos (hasIdPrefix_iff.2 ⟨p, t, hs, hp⟩), hdrop]

theorem normalize_other {s : Text} (hne : s.trim ≠ []) (hp : ¬ HasIdPrefix s.trim) :
    normalizeClientKey s = match parseIp s.trim with
      | some ip => some (ipToString (unmapV4 ip))
      | none => (parseMac (String.ofList s.trim)).map fun m => (formatMac m).toList := by
  unfold normalizeClientKey
  dsimp only
  rw [if_neg hne]
  refine (if_neg fun h => hp (hasIdPrefix_iff.1 h)).trans ?_
  cases parseIp s.trim with
  | none => rfl
  | some ip => rfl

theorem not_hasIdPrefix {s : Text} (h : ∀ c ∈ s.head?, AddrChar c ∨ c = '+') : ¬ HasIdPrefix s := by
  rintro ⟨p, t, rfl, rfl | rfl⟩
  · exact absurd (h 'i' rfl) (by decide)
  · exact absurd (h 'I' rfl) (by decide)

theorem ByteSpelling.group {t : Text} {b : UInt8} (h : ByteSpelling t b) : GroupSpelling t b.toNat :=
  ⟨h.1.ne_nil, h.2.trans (by omega), h.1.digits, h.1.value⟩

/-- The first character of a text that is not empty is one of it. -/
theorem addrChar_head {t rest : Text} (hne : t ≠ []) (ht : ∀ c ∈ t, AddrChar c) :
    ∀ c ∈ (t ++ rest).head?, AddrChar c ∨ c = '+' := by
  intro c hc
  cases t with
  | nil => exact absurd rfl hne
  | cons d t =>
    cases hc
    exact .inl (ht c (List.mem_cons_self ..))

theorem MacSpelling.ne_nil {s : Text} {mac : Mac} (h : MacSpelling s mac) : s ≠ [] := by
  obtain ⟨ts, hgrouped, hts⟩ := h
  cases hgrouped with
  | one =>
    have hlen := hts.length_eq
    simp at hlen
  | more => simp

/-- **A text that names a client gets its key**, unless it is an id behind a prefix in mixed case. -/
theorem normalize_named {s : Text} {client : Client} (h : Names s.trim client)
    (hp : ∀ device, client = .id device → HasIdPrefix s.trim) :
    normalizeClientKey s = some client.key := by
  obtain ⟨u, hu⟩ : ∃ u, u = s.trim := ⟨_, rfl⟩
  rw [← hu] at h hp
  cases h with
  | @address t scope ip ht hscope =>
    have hchars : ∀ c ∈ t, AddrChar c := fun c => ht.addrChar
    have hne : t ≠ [] := by
      rintro rfl
      cases Reader.parse_ipSpelling ht
    have hsne : s.trim ≠ [] := by
      rw [← hu]
      simp [hne]
    rw [normalize_other hsne (hu ▸ not_hasIdPrefix (addrChar_head hne hchars)), ← hu,
      parseIp_append hchars hscope, Reader.parse_ipSpelling ht]
    rfl
  | @mac t m ht =>
    have hchars : ∀ c ∈ s.trim, AddrChar c := fun c hc => ht.addrChar (hu ▸ hc)
    have hne : s.trim ≠ [] := hu ▸ ht.ne_nil
    have hprefix : ¬ HasIdPrefix s.trim := by
      have hhead := @addrChar_head _ [] hne hchars
      rw [List.append_nil] at hhead
      exact not_hasIdPrefix hhead
    have hip : parseIp s.trim = none := by
      obtain ⟨ts, hgrouped, hts⟩ := hu ▸ ht
      have hcut := @parseIp_append _ [] hchars nofun
      rw [List.append_nil] at hcut
      rw [hcut]
      refine Reader.parse_grouped hgrouped (fun t ht => ?_) ?_
      · obtain ⟨b, -, hb⟩ := forall₂_mem_left hts ht
        exact ⟨_, hb.group⟩
      · have hlen := hts.length_eq
        simp at hlen
        omega
    have hmac : parseMac (String.ofList s.trim) = some m := by
      obtain ⟨ts, hgrouped, hts⟩ := hu ▸ ht
      exact parseMac_eq_some_iff.2 ⟨ts, hgrouped, hts.imp fun t b => ByteSpelling.loose⟩
    rw [normalize_other hne hprefix, hip, hmac]
    rfl
  | @id p t device hlower ht hdevice =>
    obtain ⟨p', t', hsplit, hp'⟩ := hp device rfl
    have hlen : p.length = p'.length := by
      have hthree := congrArg List.length hlower
      rw [idPrefix_eq, Text.toAsciiLowercase, List.length_map] at hthree
      rcases hp' with rfl | rfl <;> exact hthree
    obtain ⟨rfl, rfl⟩ := List.append_inj hsplit hlen
    rw [normalize_id hu.symm hp', normalizeClientId_eq_some_iff.2 ⟨ht, hdevice⟩]
    rfl

/-- What the key of a client can name: an address that is not a mapped one, or a device name. -/
def Client.Valid : Client → Prop
  | .address ip => unmapV4 ip = ip
  | .mac _ => True
  | .id device => IsClientId device

theorem Names.valid {t : Text} {client : Client} (h : Names t client) : client.Valid := by
  cases h with
  | address => exact unmapV4_unmapV4 _
  | mac => trivial
  | id _ _ hdevice => exact hdevice

/-! ### Keys -/

theorem byteSpelling_hexText (o : UInt8) : ByteSpelling (hexText o) o := by
  have h : ∀ n : Fin 256, ((hexText (UInt8.ofNat n)).all fun c => (hexDigit c).isSome) = true ∧
      hexValue (hexText (UInt8.ofNat n)) = (UInt8.ofNat n).toNat := by decide +kernel
  have ho : UInt8.ofNat o.toNat = o := UInt8.ofNat_toNat
  obtain ⟨hdigits, hvalue⟩ := h ⟨o.toNat, o.toNat_lt⟩
  rw [ho] at hdigits hvalue
  exact ⟨⟨List.cons_ne_nil _ _, List.all_eq_true.1 hdigits, hvalue⟩, le_rfl⟩

theorem grouped_intercalate (t : Text) (ts : List Text) :
    Grouped ([':'].intercalate (t :: ts)) (t :: ts) := by
  induction ts generalizing t with
  | nil =>
    rw [List.intercalate_singleton]
    exact .one t
  | cons u us ih =>
    rw [List.intercalate_cons_cons]
    have hmore := @Grouped.more t _ _ ':' (.inl rfl) (ih u)
    simpa using hmore

theorem macSpelling_formatMac (mac : Mac) : MacSpelling (formatMac mac).toList mac := by
  obtain ⟨a, b, c, d, e, f, rfl⟩ := Mac.eq_literal mac
  refine ⟨[a, b, c, d, e, f].map hexText, ?_, ?_⟩
  · rw [formatMac, String.toList_ofList]
    exact grouped_intercalate _ _
  · rw [List.forall₂_map_left_iff]
    exact List.forall₂_same.2 fun o _ => byteSpelling_hexText o

/-- A device name has neither blanks nor capitals. -/
theorem IsClientId.plain {device : Text} (h : IsClientId device) {c : Char} (hc : c ∈ device) :
    isWhitespace c = false ∧ asciiLower c = c := by
  have hnum : ∀ {a b : Char}, a ≤ b ↔ a.toNat ≤ b.toNat := Iff.rfl
  have hbounds : 'a'.toNat = 97 ∧ 'z'.toNat = 122 ∧ '0'.toNat = 48 ∧ '9'.toNat = 57 ∧
    '-'.toNat = 45 := by decide
  have hrange : (45 ≤ c.toNat ∧ c.toNat ≤ 57) ∨ (97 ≤ c.toNat ∧ c.toNat ≤ 122) := by
    have hchar := h.chars c hc
    simp only [hnum] at hchar
    rcases hchar with hchar | hchar | rfl <;> omega
  constructor
  · rw [← Bool.not_eq_true]
    intro hblank
    simp only [isWhitespace, Bool.or_eq_true, Bool.and_eq_true, decide_eq_true_eq,
      beq_iff_eq] at hblank
    omega
  · refine if_neg fun hupper => ?_
    rw [isUpper_iff] at hupper
    omega

/-- The key of a client names it. -/
theorem names_key {client : Client} (h : client.Valid) : Names client.key client := by
  cases client with
  | address ip =>
    have hnames := @Names.address (ipToString ip) [] ip (ipSpelling_ipToString ip) nofun
    rw [List.append_nil, show unmapV4 ip = ip from h] at hnames
    exact hnames
  | mac m => exact .mac (macSpelling_formatMac m)
  | id device =>
    have hlower : device.toAsciiLowercase = device := by
      have hmap : device.map asciiLower = device.map fun c => c :=
        List.map_congr_left fun c hc => (h.plain hc).2
      rw [Text.toAsciiLowercase, hmap, List.map_id']
    have htrim : device.trim = device := Text.trim_of_forall fun c hc => (h.plain hc).1
    exact .id (by simp [Text.toAsciiLowercase, asciiLower]) (by rw [htrim, hlower]) h

/-- There is no blank around a key. -/
theorem trim_key {client : Client} (h : client.Valid) : client.key.trim = client.key := by
  refine Text.trim_of_forall fun c hc => ?_
  cases client with
  | address ip => exact ((ipSpelling_ipToString ip).addrChar hc).not_isWhitespace
  | mac m => exact ((macSpelling_formatMac m).addrChar hc).not_isWhitespace
  | id device =>
    rcases List.mem_append.1 hc with hc | hc
    · rw [idPrefix_eq] at hc
      have hblank : (['i', 'd', ':'].all fun c => !isWhitespace c) = true := by decide
      simpa using List.all_eq_true.1 hblank c hc
    · exact (h.plain hc).1

/-- **A key is its own key.** -/
theorem normalize_key {client : Client} (h : client.Valid) :
    normalizeClientKey client.key = some client.key := by
  have htrim := trim_key h
  refine normalize_named (htrim.symm ▸ names_key h) fun device hdevice => ?_
  rw [htrim, hdevice]
  exact ⟨_, device, rfl, .inl idPrefix_eq⟩

/-- What `normalize_client_key` gives is a key. -/
theorem exists_of_normalize {s k : Text} (h : normalizeClientKey s = some k) :
    ∃ client : Client, client.Valid ∧ k = client.key := by
  by_cases hne : s.trim = []
  · unfold normalizeClientKey at h
    dsimp only at h
    rw [if_pos hne] at h
    cases h
  · by_cases hp : HasIdPrefix s.trim
    · obtain ⟨p, t, hs, hp⟩ := hp
      rw [normalize_id hs hp, Option.map_eq_some_iff] at h
      obtain ⟨device, hdevice, rfl⟩ := h
      exact ⟨.id device, (normalizeClientId_eq_some_iff.1 hdevice).2, rfl⟩
    · rw [normalize_other hne hp] at h
      cases hip : parseIp s.trim with
      | some ip =>
        rw [hip] at h
        exact ⟨.address (unmapV4 ip), unmapV4_unmapV4 ip, (Option.some.inj h).symm⟩
      | none =>
        rw [hip] at h
        obtain ⟨m, -, rfl⟩ := Option.map_eq_some_iff.1 h
        exact ⟨.mac m, trivial, rfl⟩

/-- Two clients do not share a key. -/
theorem key_injective {client client' : Client} (hkey : client.key = client'.key) :
    client = client' := by
  have hhead : ∀ (device : Text) {k : Text}, (∀ c ∈ k, AddrChar c) → k ≠ (Client.id device).key := by
    intro device k hk heq
    have hi := hk 'i' (by rw [heq, Client.key, idPrefix_eq]; exact List.mem_cons_self ..)
    exact absurd hi (by decide)
  have hmac : ∀ m, Reader.parse Reader.ip (formatMac m).toList = none := by
    intro m
    obtain ⟨ts, hgrouped, hts⟩ := macSpelling_formatMac m
    refine Reader.parse_grouped hgrouped (fun t ht => ?_) ?_
    · obtain ⟨b, -, hb⟩ := forall₂_mem_left hts ht
      exact ⟨_, hb.group⟩
    · have hlen := hts.length_eq
      simp at hlen
      omega
  have hip : ∀ {ip ip'}, ipToString ip = ipToString ip' → ip = ip' := by
    intro ip ip' heq
    have hread := Reader.parse_ipToString ip
    rw [heq, Reader.parse_ipToString] at hread
    exact (Option.some.inj hread).symm
  have hipmac : ∀ ip m, ipToString ip ≠ (formatMac m).toList := by
    intro ip m heq
    have hread := Reader.parse_ipToString ip
    rw [heq, hmac] at hread
    cases hread
  cases client with
  | address ip =>
    cases client' with
    | address ip' => rw [hip hkey]
    | mac m' => exact absurd hkey (hipmac ip m')
    | id device => exact absurd hkey (hhead device fun c => (ipSpelling_ipToString ip).addrChar)
  | mac m =>
    cases client' with
    | address ip' => exact absurd hkey.symm (hipmac ip' m)
    | mac m' =>
      have hread := parseMac_formatMac m
      rw [String.toList_inj.1 hkey, parseMac_formatMac] at hread
      rw [Option.some.inj hread]
    | id device => exact absurd hkey (hhead device fun c => (macSpelling_formatMac m).addrChar)
  | id device =>
    cases client' with
    | address ip' =>
      exact absurd hkey.symm (hhead device fun c => (ipSpelling_ipToString ip').addrChar)
    | mac m' => exact absurd hkey.symm (hhead device fun c => (macSpelling_formatMac m').addrChar)
    | id device' => rw [List.append_cancel_left hkey]

/-! ## The slips -/

/-- A client id behind `Id:` or `iD:`, which nothing looks for. -/
def MixedPrefix (s : Text) : Prop :=
  ∃ p t, s.trim = p ++ t ∧ (p = ['I', 'd', ':'] ∨ p = ['i', 'D', ':']) ∧
    IsClientId t.trim.toAsciiLowercase

/-- A hardware address but for a group with a plus sign or with more than two digits. -/
def LooseMac (s : Text) : Prop :=
  ∃ ts, (∃ m : Mac, Grouped s ts ∧ List.Forall₂ LooseByte ts m.toList) ∧
    ∃ t ∈ ts, t.head? = some '+' ∨ 2 < t.length

/-- A number without a sign and with two digits at most is a group. -/
theorem LooseByte.spelling {t : Text} {b : UInt8} (h : LooseByte t b) (hsign : t.head? ≠ some '+')
    (hshort : t.length ≤ 2) : ByteSpelling t b := by
  obtain ⟨sign, ds, rfl | rfl, rfl, hds⟩ := h
  · exact ⟨hds, hshort⟩
  · exact absurd rfl hsign

theorem ByteSpelling.head {t : Text} {b : UInt8} (h : ByteSpelling t b) : t.head? ≠ some '+' := by
  intro hplus
  obtain ⟨rest, rfl⟩ := List.head?_eq_some_iff.1 hplus
  exact absurd (h.1.digits '+' (List.mem_cons_self ..)) (by decide)

/-- `parse_mac` takes hardware addresses only, but for the loose ones. -/
theorem macSpelling_iff (s : Text) :
    (∀ m, parseMac (String.ofList s) = some m → MacSpelling s m) ↔ ¬ LooseMac s := by
  constructor
  · rintro hall ⟨ts, ⟨m, hgrouped, hts⟩, t, ht, hloose⟩
    obtain ⟨us, hgrouped', hus⟩ := hall m (parseMac_eq_some_iff.2 ⟨ts, hgrouped, hts⟩)
    -- the groups of a text are one list
    have hsame : ts = us := by
      rw [← hgrouped.splitOn, ← hgrouped'.splitOn]
      · intro u hu
        obtain ⟨b, -, hb⟩ := forall₂_mem_left hus hu
        exact hb.loose.noSeparator
      · intro u hu
        obtain ⟨b, -, hb⟩ := forall₂_mem_left hts hu
        exact hb.noSeparator
    obtain ⟨b, -, hb⟩ := forall₂_mem_left hus (hsame ▸ ht)
    rcases hloose with hplus | hlong
    · exact hb.head hplus
    · exact absurd hb.2 (Nat.not_le.2 hlong)
  · intro hnot m hm
    obtain ⟨ts, hgrouped, hts⟩ := parseMac_eq_some_iff.1 hm
    have htight : ∀ t ∈ ts, t.head? ≠ some '+' ∧ t.length ≤ 2 := by
      intro t ht
      constructor
      · exact fun hplus => hnot ⟨ts, ⟨m, hgrouped, hts⟩, t, ht, .inl hplus⟩
      · exact Nat.not_lt.1 fun hlong => hnot ⟨ts, ⟨m, hgrouped, hts⟩, t, ht, .inr hlong⟩
    have hspell : ∀ {us bs}, List.Forall₂ LooseByte us bs →
        (∀ t ∈ us, t.head? ≠ some '+' ∧ t.length ≤ 2) → List.Forall₂ ByteSpelling us bs := by
      intro us bs hus
      induction hus with
      | nil => exact fun _ => .nil
      | cons hb _ ih =>
        intro hall
        obtain ⟨hsign, hshort⟩ := hall _ (List.mem_cons_self ..)
        exact .cons (hb.spelling hsign hshort) (ih fun t ht => hall t (List.mem_cons_of_mem _ ht))
    exact ⟨ts, hgrouped, hspell hts htight⟩

/-- An id behind a prefix in mixed case has no key. -/
theorem normalize_mixedPrefix {s p t : Text} (hs : s.trim = p ++ t)
    (hp : p = ['I', 'd', ':'] ∨ p = ['i', 'D', ':']) : normalizeClientKey s = none := by
  obtain ⟨c, rest, hcons, hc⟩ : ∃ c rest, s.trim = c :: rest ∧ (c = 'I' ∨ c = 'i') := by
    rcases hp with rfl | rfl
    · exact ⟨_, _, hs, .inl rfl⟩
    · exact ⟨_, _, hs, .inr rfl⟩
  have hne : s.trim ≠ [] := hcons ▸ List.cons_ne_nil _ _
  have hprefix : ¬ HasIdPrefix s.trim := by
    rintro ⟨q, u, hq, hq'⟩
    have heq : p = q := by
      refine List.append_inj_left (hs.symm.trans hq) ?_
      rcases hp with rfl | rfl <;> rcases hq' with rfl | rfl <;> rfl
    rcases hp with rfl | rfl <;> rcases hq' with rfl | rfl <;> cases heq
  have hchar : hexDigit c = none ∧ c ≠ '.' ∧ c ≠ ':' ∧ c ≠ '%' ∧ c ≠ '-' ∧ c ≠ '+' := by
    rcases hc with rfl | rfl <;> decide
  obtain ⟨hhex, hdot, hcolon, hpercent, hhyphen, hplus⟩ := hchar
  have hip : parseIp s.trim = none := by
    have hcut : s.trim.takeWhile (· ≠ '%') = c :: rest.takeWhile (· ≠ '%') := by
      rw [hcons, List.takeWhile_cons_of_pos (by simpa using hpercent)]
    rw [parseIp, hcut]
    refine Reader.parse_none ⟨fun d hd => ?_, fun r hr => ?_⟩ ?_
    · cases hd
      exact ⟨hhex, hdot⟩
    · exact absurd (List.cons.inj hr).1 hcolon
    · exact fun h => hcolon (Option.some.inj h)
  have hmac : parseMac (String.ofList s.trim) = none := by
    rw [Option.eq_none_iff_forall_ne_some]
    intro m hm
    obtain ⟨ts, hgrouped, hts⟩ := parseMac_eq_some_iff.1 hm
    rcases hgrouped.mem (hcons ▸ List.mem_cons_self .. : c ∈ s.trim) with h | h | ⟨t, ht, hct⟩
    · exact hcolon h
    · exact hhyphen h
    · obtain ⟨b, -, hb⟩ := forall₂_mem_left hts ht
      rcases hb.mem hct with h | h
      · exact hplus h
      · rw [hhex] at h
        cases h
  rw [normalize_other hne hprefix, hip, hmac]
  rfl

/-- The prefix of an id in any case is one of four. -/
theorem idPrefix_cases {p : Text} (h : p.toAsciiLowercase = "id:".toList) :
    (p = ['i', 'd', ':'] ∨ p = ['I', 'D', ':']) ∨ p = ['I', 'd', ':'] ∨ p = ['i', 'D', ':'] := by
  have hlower : ∀ {c : Char} (n : Nat), (asciiLower c).toNat = n →
      c.toNat = n ∨ (65 ≤ c.toNat ∧ c.toNat ≤ 90 ∧ c.toNat + 32 = n) := by
    intro c n hc
    rw [toNat_asciiLower] at hc
    split at hc
    · omega
    · exact .inl hc
  have hchar : ∀ {c : Char} (d : Char), c.toNat = d.toNat → c = d :=
    fun d hc => Char.ext (UInt32.toNat_inj.1 hc)
  rw [idPrefix_eq, Text.toAsciiLowercase] at h
  obtain ⟨c₁, rest₁, rfl, h₁, hrest₁⟩ := List.map_eq_cons_iff.1 h
  obtain ⟨c₂, rest₂, rfl, h₂, hrest₂⟩ := List.map_eq_cons_iff.1 hrest₁
  obtain ⟨c₃, rest₃, rfl, h₃, hrest₃⟩ := List.map_eq_cons_iff.1 hrest₂
  obtain rfl := List.map_eq_nil_iff.1 hrest₃
  have hc₁ : c₁ = 'i' ∨ c₁ = 'I' := by
    rcases hlower 105 (by rw [h₁]; rfl) with h | h
    · exact .inl (hchar 'i' h)
    · exact .inr (hchar 'I' (by change c₁.toNat = 73; omega))
  have hc₂ : c₂ = 'd' ∨ c₂ = 'D' := by
    rcases hlower 100 (by rw [h₂]; rfl) with h | h
    · exact .inl (hchar 'd' h)
    · exact .inr (hchar 'D' (by change c₂.toNat = 68; omega))
  have hc₃ : c₃ = ':' := by
    rcases hlower 58 (by rw [h₃]; rfl) with h | h
    · exact hchar ':' h
    · omega
  subst hc₃
  rcases hc₁ with rfl | rfl <;> rcases hc₂ with rfl | rfl <;> simp

/-- Only the key of a client a text names can be its key. -/
theorem key_of_names {s k : Text} {client : Client} (hclient : Names s.trim client)
    (hk : normalizeClientKey s = some k) : k = client.key := by
  have hnone : ∀ {t : Text} {device : Text}, s.trim = t → Names t (.id device) →
      HasIdPrefix t ∨ normalizeClientKey s = none := by
    intro t device ht hid
    cases hid with
    | @id p u _ hlower hu hdevice =>
      rcases idPrefix_cases hlower with hp | hp
      · exact .inl ⟨p, u, rfl, hp⟩
      · exact .inr (normalize_mixedPrefix ht hp)
  have hprefix : ∀ device, client = .id device → HasIdPrefix s.trim := by
    rintro device rfl
    refine (hnone rfl hclient).resolve_right ?_
    rw [hk]
    exact Option.some_ne_none k
  rw [normalize_named hclient hprefix] at hk
  exact (Option.some.inj hk).symm

/-- **One key per client.**  A key is its own key, and so are the texts of an unmapped address,
of a hardware address and of a client id; texts that name different clients get different keys.
A text gets the key of the client it names, and is taken for a hardware address only if it is
one, exactly if it is neither a client id behind `Id:` or `iD:` nor a hardware address with a
group that is signed or longer than two digits. -/
theorem client_keys_iff (s : Text) :
    (∀ k, normalizeClientKey s = some k → normalizeClientKey k = some k) ∧
      (∀ ip, normalizeClientKey (ipToString (unmapV4 ip)) = some (ipToString (unmapV4 ip))) ∧
      (∀ m, normalizeClientKey (formatMac m).toList = some (formatMac m).toList) ∧
      (∀ t device, normalizeClientId t = some device →
        normalizeClientKey ("id:".toList ++ device) = some ("id:".toList ++ device)) ∧
      (∀ s' client client', Names s.trim client → Names s'.trim client' → client ≠ client' →
        ∀ k, normalizeClientKey s = some k → normalizeClientKey s' ≠ some k) ∧
      (((∀ client, Names s.trim client → normalizeClientKey s = some client.key) ∧
          ∀ m, parseMac (String.ofList s) = some m → MacSpelling s m) ↔
        ¬ MixedPrefix s ∧ ¬ LooseMac s) := by
  have hnamed : (∀ client, Names s.trim client → normalizeClientKey s = some client.key) ↔
      ¬ MixedPrefix s := by
    constructor
    · rintro hall ⟨p, t, hs, hp, hid⟩
      have hlower : p.toAsciiLowercase = "id:".toList := by
        rw [idPrefix_eq]
        rcases hp with rfl | rfl <;> decide
      have hnames : Names s.trim (.id t.trim.toAsciiLowercase) := by
        rw [hs]
        exact .id hlower rfl hid
      have hkey := hall _ hnames
      rw [normalize_mixedPrefix hs hp] at hkey
      cases hkey
    · intro hnot client hclient
      refine normalize_named hclient fun device hdevice => ?_
      subst hdevice
      obtain ⟨u, hu⟩ : ∃ u, u = s.trim := ⟨_, rfl⟩
      rw [← hu] at hclient ⊢
      cases hclient with
      | @id p t _ hlower ht hid =>
        rcases idPrefix_cases hlower with hp | hp
        · exact ⟨p, t, rfl, hp⟩
        · exact absurd ⟨p, t, hu.symm, hp, ht ▸ hid⟩ hnot
  refine ⟨fun k hk => ?_, fun ip => ?_, fun m => ?_, fun t device hdevice => ?_,
    fun s' client client' hs hs' hne k hk hk' => ?_, and_congr hnamed (macSpelling_iff s)⟩
  · obtain ⟨client, hvalid, rfl⟩ := exists_of_normalize hk
    exact normalize_key hvalid
  · have hvalid : (Client.address (unmapV4 ip)).Valid := unmapV4_unmapV4 ip
    simpa only [Client.key] using normalize_key hvalid
  · have hvalid : (Client.mac m).Valid := trivial
    simpa only [Client.key] using normalize_key hvalid
  · have hvalid : (Client.id device).Valid := (normalizeClientId_eq_some_iff.1 hdevice).2
    simpa only [Client.key] using normalize_key hvalid
  · have hkey : client.key = client'.key := (key_of_names hs hk).symm.trans (key_of_names hs' hk')
    exact hne (key_injective hkey)

/-- A text with a prefix in mixed case names a client and has no key, and a hardware address may
have a plus sign in a group. -/
theorem client_keys_slips :
    (Names (Text.trim "Id:pixel".toList) (.id "pixel".toList) ∧
      normalizeClientKey "Id:pixel".toList = none ∧
      normalizeClientKey "id:pixel".toList = some "id:pixel".toList) ∧
      parseMac "+a:bb:cc:dd:ee:ff" = some (#v[10, 187, 204, 221, 238, 255]) ∧
      ¬ ∃ m, MacSpelling "+a:bb:cc:dd:ee:ff".toList m := by
  have htrim : Text.trim "Id:pixel".toList = ['I', 'd', ':'] ++ "pixel".toList := by decide +kernel
  have hpixel : IsClientId "pixel".toList := by
    have h : normalizeClientId "pixel".toList = some "pixel".toList := by decide +kernel
    exact (normalizeClientId_eq_some_iff.1 h).2
  have hplain : normalizeClientKey "id:pixel".toList = some "id:pixel".toList := by decide +kernel
  refine ⟨⟨?_, normalize_mixedPrefix htrim (.inl rfl), hplain⟩, by decide +kernel, ?_⟩
  · rw [htrim]
    exact .id (by decide +kernel) (by decide +kernel) hpixel
  · rintro ⟨m, ts, hgrouped, hts⟩
    have hplus : '+' ∈ "+a:bb:cc:dd:ee:ff".toList := by decide +kernel
    rcases hgrouped.mem hplus with h | h | ⟨t, ht, hc⟩
    · cases h
    · cases h
    · obtain ⟨b, -, hb⟩ := forall₂_mem_left hts ht
      exact absurd (hb.1.digits '+' hc) (by decide)

end Ferrite
