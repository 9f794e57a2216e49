import Mathlib.Algebra.Order.Ring.Nat
import Mathlib.Data.Fintype.Basic

/-!
# Addresses and their texts

The two kinds of address the DHCP server deals in, a four-octet `Ipv4Addr` and a
six-byte hardware address `Mac`, with the spellings the server stores them under:
`Ipv4Addr::to_string` and its parser from the standard library, `format_mac` and
`parse_mac` from `core/src/net.rs`.  Clients may also have an `Ipv6Addr`; its spelling
and what `core/src/net.rs` tells of an address are at the end.

What is proved here: each text reads back as the address it was written from
(`parseIpv4_toText`, `parseMac_formatMac`), so a table keyed by texts is a table
keyed by addresses; and the 32-bit view `toU32`/`ofU32` the lease pool counts in
is exact (`toU32_ofU32`).
-/

namespace Ferrite

/-! ## IPv4 addresses -/

/-- `std::net::Ipv4Addr`: four octets, most significant first. -/
structure Ipv4Addr where
  a : UInt8
  b : UInt8
  c : UInt8
  d : UInt8
deriving DecidableEq, Repr

namespace Ipv4Addr

/-- `Ipv4Addr::UNSPECIFIED`, `0.0.0.0`. -/
def unspecified : Ipv4Addr := ⟨0, 0, 0, 0⟩

/-- `is_unspecified`. -/
def isUnspecified (ip : Ipv4Addr) : Bool := ip == unspecified

/-- The four octets, in order. -/
def octets (ip : Ipv4Addr) : List UInt8 := [ip.a, ip.b, ip.c, ip.d]

/-- `u32::from(ip)`: the octets read as one big-endian number. -/
def toU32 (ip : Ipv4Addr) : ℕ :=
  ip.a.toNat * 2 ^ 24 + ip.b.toNat * 2 ^ 16 + ip.c.toNat * 2 ^ 8 + ip.d.toNat

/-- `Ipv4Addr::from(u32)`. -/
def ofU32 (n : ℕ) : Ipv4Addr :=
  ⟨UInt8.ofNat (n / 2 ^ 24), UInt8.ofNat (n / 2 ^ 16), UInt8.ofNat (n / 2 ^ 8), UInt8.ofNat n⟩

theorem toU32_ofU32 {n : ℕ} (h : n < 2 ^ 32) : (ofU32 n).toU32 = n := by
  simp only [toU32, ofU32, UInt8.toNat_ofNat']
  omega

theorem isUnspecified_iff {ip : Ipv4Addr} : ip.isUnspecified = true ↔ ip = unspecified := by
  simp [isUnspecified]

end Ipv4Addr

/-! ### IPv6 addresses -/

/-- `std::net::Ipv6Addr`: sixteen octets, most significant first. -/
structure Ipv6Addr where
  octets : List UInt8
  length_octets : octets.length = 16
deriving DecidableEq, Repr

/-- `Ipv6Addr::UNSPECIFIED`, `::`. -/
def Ipv6Addr.unspecified : Ipv6Addr := ⟨List.replicate 16 0, rfl⟩

/-- `std::net::IpAddr`. -/
inductive IpAddr where
  | v4 (ip : Ipv4Addr)
  | v6 (ip : Ipv6Addr)
deriving DecidableEq, Repr

/-! ### The text of an address -/

/-- The decimal digit `n % 10`. -/
def digitChar (n : ℕ) : Char := Char.ofNat ('0'.toNat + n % 10)

/-- An octet in decimal, without leading zeros. -/
def octetText (o : UInt8) : List Char :=
  (if 100 ≤ o.toNat then [digitChar (o.toNat / 100)] else []) ++
    (if 10 ≤ o.toNat then [digitChar (o.toNat / 10)] else []) ++ [digitChar o.toNat]

/-- The value of a decimal digit. -/
def decDigit (c : Char) : Option ℕ :=
  if '0' ≤ c ∧ c ≤ '9' then some (c.toNat - '0'.toNat) else none

/-- Read digits in base `radix` into a `u8`, failing on overflow. -/
def readU8 (radix : ℕ) (digit : Char → Option ℕ) (cs : List Char) : Option UInt8 :=
  (cs.foldlM (fun acc c => do
    let d ← digit c
    if acc * radix + d < 256 then some (acc * radix + d) else none) 0).map UInt8.ofNat

theorem le_foldl_digits {radix : ℕ} (hradix : 0 < radix) (ds : List ℕ) (acc : ℕ) :
    acc ≤ ds.foldl (fun acc d => acc * radix + d) acc := by
  induction ds generalizing acc with
  | nil => exact le_rfl
  | cons d ds ih =>
    have hgrow : acc ≤ acc * radix := Nat.le_mul_of_pos_right acc hradix
    rw [List.foldl_cons]
    exact (hgrow.trans (Nat.le_add_right _ d)).trans (ih _)

/-- One digit after the other, as long as the number is a `u8`. -/
theorem foldlM_digits {radix : ℕ} (hradix : 0 < radix) {digit : Char → Option ℕ}
    (cs : List Char) {acc : ℕ} (hacc : acc < 256) (v : ℕ) :
    (cs.foldlM (fun acc c => do
      let d ← digit c
      if acc * radix + d < 256 then some (acc * radix + d) else none) acc) = some v ↔
      (∀ c ∈ cs, (digit c).isSome = true) ∧ v < 256 ∧
        (cs.filterMap digit).foldl (fun acc d => acc * radix + d) acc = v := by
  induction cs generalizing acc with
  | nil =>
    rw [List.foldlM_nil, List.filterMap_nil, List.foldl_nil]
    constructor
    · rintro h
      cases h
      exact ⟨nofun, hacc, rfl⟩
    · rintro ⟨-, -, rfl⟩
      rfl
  | cons c cs ih =>
    rw [List.foldlM_cons, List.forall_mem_cons]
    cases hc : digit c with
    | none =>
      constructor
      · nofun
      · rintro ⟨⟨hbad, -⟩, -⟩
        cases hbad
    | some d =>
      have hle := le_foldl_digits hradix (cs.filterMap digit) (acc * radix + d)
      rw [Option.bind_eq_bind, Option.bind_some, List.filterMap_cons_some hc, List.foldl_cons]
      by_cases hlt : acc * radix + d < 256
      · rw [if_pos hlt, Option.bind_some]
        refine (ih hlt).trans ?_
        simp
      · rw [if_neg hlt]
        constructor
        · nofun
        · rintro ⟨-, hv, rfl⟩
          exact absurd (lt_of_le_of_lt hle hv) hlt

/-- Digits that fit a byte are read. -/
theorem readU8_eq_some_iff {radix : ℕ} (hradix : 0 < radix) {digit : Char → Option ℕ}
    {cs : List Char} {b : UInt8} : readU8 radix digit cs = some b ↔
      (∀ c ∈ cs, (digit c).isSome = true) ∧
        (cs.filterMap digit).foldl (fun acc d => acc * radix + d) 0 = b.toNat := by
  unfold readU8
  rw [Option.map_eq_some_iff]
  constructor
  · rintro ⟨n, hn, rfl⟩
    obtain ⟨hdigits, hlt, hvalue⟩ := (foldlM_digits hradix cs (by omega) n).1 hn
    exact ⟨hdigits, by rw [UInt8.toNat_ofNat_of_lt' hlt]; exact hvalue⟩
  · rintro ⟨hdigits, hvalue⟩
    exact ⟨b.toNat, (foldlM_digits hradix cs (by omega) _).2 ⟨hdigits, b.toNat_lt, hvalue⟩,
      UInt8.ofNat_toNat⟩

/-- One group of a dotted quad: one to three digits, no leading zero, at most 255. -/
def parseOctet (cs : List Char) : Option UInt8 :=
  if cs = [] ∨ 3 < cs.length ∨ (cs.head? = some '0' ∧ 1 < cs.length) then none
  else readU8 10 decDigit cs

/-- `Ipv4Addr::to_string`. -/
def Ipv4Addr.toText (ip : Ipv4Addr) : String :=
  String.ofList (['.'].intercalate (ip.octets.map octetText))

/-- `str::parse::<Ipv4Addr>`. -/
def parseIpv4 (s : String) : Option Ipv4Addr :=
  match s.toList.splitOn '.' with
  | [a, b, c, d] => do
    return ⟨← parseOctet a, ← parseOctet b, ← parseOctet c, ← parseOctet d⟩
  | _ => none

theorem octet_reads_back (o : UInt8) :
    parseOctet (octetText o) = some o ∧ '.' ∉ octetText o := by
  have h : ∀ n : Fin 256, parseOctet (octetText (UInt8.ofNat n)) = some (UInt8.ofNat n) ∧
      '.' ∉ octetText (UInt8.ofNat n) := by decide +kernel
  have ho : UInt8.ofNat o.toNat = o := UInt8.ofNat_toNat
  simpa [ho] using h ⟨o.toNat, o.toNat_lt⟩

/-- An address reads back from its text. -/
theorem parseIpv4_toText (ip : Ipv4Addr) : parseIpv4 ip.toText = some ip := by
  have hsplit : ip.toText.toList.splitOn '.' = ip.octets.map octetText := by
    rw [Ipv4Addr.toText, String.toList_ofList]
    refine List.splitOn_intercalate _ ?_ (by simp [Ipv4Addr.octets])
    intro l hl
    obtain ⟨o, -, rfl⟩ := List.mem_map.1 hl
    exact (octet_reads_back o).2
  simp only [parseIpv4, hsplit, Ipv4Addr.octets, List.map_cons, List.map_nil,
    (octet_reads_back _).1]
  rfl

theorem Ipv4Addr.toText_injective : Function.Injective Ipv4Addr.toText := by
  intro x y h
  have := parseIpv4_toText x
  rw [h, parseIpv4_toText y] at this
  exact (Option.some.inj this).symm

/-! ## Hardware addresses -/

/-- A MAC address, `[u8; 6]`. -/
abbrev Mac := Vector UInt8 6

/-- The lowercase hexadecimal digit `n % 16`. -/
def hexChar (n : ℕ) : Char :=
  if n % 16 < 10 then Char.ofNat ('0'.toNat + n % 16) else Char.ofNat ('a'.toNat + n % 16 - 10)

/-- `{:02x}`. -/
def hexText (o : UInt8) : List Char := [hexChar (o.toNat / 16), hexChar o.toNat]

/-- The value of a hexadecimal digit, in either case. -/
def hexDigit (c : Char) : Option ℕ :=
  if '0' ≤ c ∧ c ≤ '9' then some (c.toNat - '0'.toNat)
  else if 'a' ≤ c ∧ c ≤ 'f' then some (c.toNat - 'a'.toNat + 10)
  else if 'A' ≤ c ∧ c ≤ 'F' then some (c.toNat - 'A'.toNat + 10)
  else none

/-- `u8::from_str_radix(p, 16)`: an optional plus sign, then at least one digit. -/
def u8FromStrRadix16 : List Char → Option UInt8
  | [] => none
  | ['+'] => none
  | '+' :: ds => readU8 16 hexDigit ds
  | ds => readU8 16 hexDigit ds

/-- `format_mac`: `"aa:bb:cc:dd:ee:ff"`. -/
def formatMac (mac : Mac) : String :=
  String.ofList ([':'].intercalate (mac.toList.map hexText))

/-- `parse_mac`: six groups separated by `:` or `-`. -/
def parseMac (s : String) : Option Mac :=
  match (s.toList.map fun c => if c = '-' then ':' else c).splitOn ':' with
  | [a, b, c, d, e, f] => do
    return #v[← u8FromStrRadix16 a, ← u8FromStrRadix16 b, ← u8FromStrRadix16 c,
      ← u8FromStrRadix16 d, ← u8FromStrRadix16 e, ← u8FromStrRadix16 f]
  | _ => none

theorem hex_reads_back (o : UInt8) :
    u8FromStrRadix16 (hexText o) = some o ∧ ':' ∉ hexText o ∧ '-' ∉ hexText o := by
  have h : ∀ n : Fin 256, u8FromStrRadix16 (hexText (UInt8.ofNat n)) = some (UInt8.ofNat n) ∧
      ':' ∉ hexText (UInt8.ofNat n) ∧ '-' ∉ hexText (UInt8.ofNat n) := by decide +kernel
  have ho : UInt8.ofNat o.toNat = o := UInt8.ofNat_toNat
  simpa [ho] using h ⟨o.toNat, o.toNat_lt⟩

theorem Mac.eq_literal (mac : Mac) : ∃ a b c d e f, mac = #v[a, b, c, d, e, f] := by
  obtain ⟨⟨l⟩, hl⟩ := mac
  match l, hl with
  | [a, b, c, d, e, f], _ => exact ⟨a, b, c, d, e, f, rfl⟩

theorem map_dash_of_not_mem {cs : List Char} (h : '-' ∉ cs) :
    (cs.map fun c => if c = '-' then ':' else c) = cs := by
  conv_rhs => rw [← List.map_id cs]
  refine List.map_congr_left fun c hc => ?_
  rw [if_neg (by rintro rfl; exact h hc), id]

/-- A hardware address reads back from its text. -/
theorem parseMac_formatMac (mac : Mac) : parseMac (formatMac mac) = some mac := by
  obtain ⟨a, b, c, d, e, f, rfl⟩ := Mac.eq_literal mac
  have hdash : '-' ∉ [':'].intercalate ([a, b, c, d, e, f].map hexText) := by
    simp [List.intercalate, List.intersperse, (hex_reads_back _).2.2]
  have hsplit : ([':'].intercalate ([a, b, c, d, e, f].map hexText)).splitOn ':' =
      [a, b, c, d, e, f].map hexText := by
    refine List.splitOn_intercalate _ ?_ (by simp)
    intro l hl
    obtain ⟨o, -, rfl⟩ := List.mem_map.1 hl
    exact (hex_reads_back o).2.1
  have htext : (formatMac #v[a, b, c, d, e, f]).toList =
      [':'].intercalate ([a, b, c, d, e, f].map hexText) := String.toList_ofList
  rw [parseMac, htext, map_dash_of_not_mem hdash, hsplit]
  simp only [List.map_cons, List.map_nil, (hex_reads_back _).1]
  rfl

/-! ## Where a client is -/

/-- `Ipv6Addr::to_ipv4_mapped`: the address inside `::ffff:a.b.c.d`. -/
def Ipv6Addr.toIpv4Mapped (ip : Ipv6Addr) : Option Ipv4Addr :=
  match ip.octets with
  | [0, 0, 0, 0, 0, 0, 0, 0, 0, 0, 0xFF, 0xFF, a, b, c, d] => some ⟨a, b, c, d⟩
  | _ => none

/-- The eight 16-bit groups. -/
def Ipv6Addr.segments (ip : Ipv6Addr) : List ℕ :=
  (List.range 8).map fun i => (ip.octets.getD (2 * i) 0).toNat * 256 +
    (ip.octets.getD (2 * i + 1) 0).toNat

/-- The first longest run of zero groups: where it starts and how long it is. -/
def longestZeroRun (segs : List ℕ) : ℕ × ℕ :=
  (segs.zipIdx.foldl (fun (cur, best) (seg, i) =>
    if seg = 0 then
      let cur : ℕ × ℕ := (if cur.2 = 0 then i else cur.1, cur.2 + 1)
      (cur, if best.2 < cur.2 then cur else best)
    else ((0, 0), best)) (((0, 0), (0, 0)) : (ℕ × ℕ) × (ℕ × ℕ))).2

/-- Groups in lower-case hexadecimal, without leading zeros. -/
def hexGroups (segs : List ℕ) : List Char := [':'].intercalate (segs.map (Nat.toDigits 16))

/-- `Ipv6Addr::to_string`: the longest run of zero groups, if it has two or more, is
written `::`, and a mapped address in dotted form. -/
def Ipv6Addr.toText (ip : Ipv6Addr) : List Char :=
  match ip.toIpv4Mapped with
  | some v4 => "::ffff:".toList ++ v4.toText.toList
  | none =>
    let (start, len) := longestZeroRun ip.segments
    if 1 < len then
      hexGroups (ip.segments.take start) ++ [':', ':'] ++ hexGroups (ip.segments.drop (start + len))
    else hexGroups ip.segments

/-- `ip_to_string`. -/
def ipToString : IpAddr → List Char
  | .v4 ip => ip.toText.toList
  | .v6 ip => ip.toText

/-- `unmap_v4`. -/
def unmapV4 : IpAddr → IpAddr
  | .v4 ip => .v4 ip
  | .v6 ip =>
    match ip.toIpv4Mapped with
    | some v4 => .v4 v4
    | none => .v6 ip

theorem unmapV4_unmapV4 (ip : IpAddr) : unmapV4 (unmapV4 ip) = unmapV4 ip := by
  cases ip with
  | v4 ip => rfl
  | v6 ip =>
    cases hmapped : ip.toIpv4Mapped with
    | some v4 => simp [unmapV4, hmapped]
    | none => simp [unmapV4, hmapped]

/-- `is_local`: an address a device has inside a home network. -/
def isLocal (ip : IpAddr) : Bool :=
  match unmapV4 ip with
  | .v4 v4 =>
    -- private, loopback, link-local, unspecified, 100.64.0.0/10
    v4.a == 10 || (v4.a == 172 && v4.b &&& 0xF0 == 16) || (v4.a == 192 && v4.b == 168) ||
      v4.a == 127 || (v4.a == 169 && v4.b == 254) || v4.isUnspecified ||
      (v4.a == 100 && v4.b &&& 0xC0 == 64)
  | .v6 v6 =>
    let seg := v6.segments.headD 0
    v6.octets == List.replicate 15 0 ++ [1] || v6 == Ipv6Addr.unspecified ||
      seg &&& 0xFE00 == 0xFC00 || seg &&& 0xFFC0 == 0xFE80

end Ferrite
