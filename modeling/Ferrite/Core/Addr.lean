import Ferrite.Core.Net
import Ferrite.Core.Text

/-!
# Reading addresses

The address parser of the standard library (`core/src/net/parser.rs` there) and what
`core/src/net.rs` builds on it: the key a client is known by, and address ranges.
A reader takes a text and gives what it read with the text that is left.
-/

namespace Ferrite

/-- The first occurrence of a character cuts the text: `str::split_once`. -/
def Text.splitOnce (c : Char) (s : Text) : Option (Text × Text) :=
  if s.contains c then some (s.takeWhile (· ≠ c), (s.dropWhile (· ≠ c)).tail) else none

theorem Text.splitOnce_append {c : Char} {s : Text} (h : c ∉ s) (t : Text) :
    Text.splitOnce c (s ++ c :: t) = some (s, t) := by
  have hp : ∀ x ∈ s, decide (x ≠ c) = true := fun x hx => decide_eq_true fun hxc => h (hxc ▸ hx)
  have hcontains : (s ++ c :: t).contains c = true := by simp
  rw [Text.splitOnce, if_pos hcontains, List.takeWhile_append_of_pos hp, List.dropWhile_append_of_pos hp]
  simp

theorem Text.splitOnce_eq_some_iff {c : Char} {t s rest : Text} :
    Text.splitOnce c t = some (s, rest) ↔ t = s ++ c :: rest ∧ c ∉ s := by
  constructor
  · intro h
    unfold Text.splitOnce at h
    split at h
    · next hmem =>
      obtain ⟨rfl, rfl⟩ := Prod.mk.inj (Option.some.inj h)
      have hnot : c ∉ t.takeWhile (· ≠ c) := fun hc => by
        simpa using List.mem_takeWhile_imp hc
      have hparts := List.takeWhile_append_dropWhile (p := (· ≠ c)) (l := t)
      cases hdrop : t.dropWhile (· ≠ c) with
      | nil =>
        rw [hdrop, List.append_nil] at hparts
        rw [hparts] at hnot
        exact absurd (List.contains_iff_mem.1 hmem) hnot
      | cons d ds =>
        have hne : t.dropWhile (· ≠ c) ≠ [] := hdrop ▸ List.cons_ne_nil d ds
        have hhead := List.head_dropWhile_not (· ≠ c) hne
        have hdc : d = c := by
          simpa only [hdrop, List.head_cons, decide_eq_false_iff_not, not_not] using hhead
        rw [hdrop, hdc] at hparts
        exact ⟨hparts.symm, hnot⟩
    · cases h
  · rintro ⟨rfl, hc⟩
    exact Text.splitOnce_append hc rest

/-- `to_string` of a number. -/
def decimal (n : ℕ) : Text := Nat.toDigits 10 n

/-! ## The parser -/

/-- A reader of the standard library's address parser. -/
abbrev Reader (A : Type) := Text → Option (A × Text)

namespace Reader

/-- `read_given_char`. -/
def givenChar (c : Char) : Reader Unit
  | [] => none
  | d :: cs => if d = c then some ((), cs) else none

/-- `read_number`: all the digits there are, at most `maxDigits` of them, for a value
below `bound`. -/
def number (radix : ℕ) (digit : Char → Option ℕ) (maxDigits : Option ℕ) (zeroPrefix : Bool)
    (bound : ℕ) : Reader ℕ := fun cs =>
  let digits := (cs.takeWhile fun c => (digit c).isSome).filterMap digit
  let value := digits.foldl (fun acc d => acc * radix + d) 0
  if digits = [] ∨ (maxDigits.any fun m => m < digits.length) ∨
      (!zeroPrefix ∧ digits.head? = some 0 ∧ 1 < digits.length) ∨ bound ≤ value then none
  else some (value, cs.dropWhile fun c => (digit c).isSome)

/-- `read_separator`: before every item but the first. -/
def separated {A : Type} (sep : Char) (i : ℕ) (read : Reader A) : Reader A := fun cs =>
  if i = 0 then read cs else (givenChar sep cs).bind fun r => read r.2

/-- One group of a dotted quad. -/
def octet : Reader ℕ := number 10 decDigit (some 3) false 256

/-- `read_ipv4_addr`. -/
def ipv4 : Reader Ipv4Addr := fun cs => do
  let (a, cs) ← octet cs
  let (b, cs) ← separated '.' 1 octet cs
  let (c, cs) ← separated '.' 2 octet cs
  let (d, cs) ← separated '.' 3 octet cs
  return (⟨.ofNat a, .ofNat b, .ofNat c, .ofNat d⟩, cs)

/-- `read_groups` from the `i`th group on, with room for `left` more: the groups, whether
they ended in a dotted quad, and the text that is left. -/
def groups : (left i : ℕ) → Text → List ℕ × Bool × Text
  | 0, _, cs => ([], false, cs)
  | left + 1, i, cs =>
    match if 1 ≤ left then separated ':' i ipv4 cs else none with
    | some (v4, rest) =>
      ([v4.a.toNat * 256 + v4.b.toNat, v4.c.toNat * 256 + v4.d.toNat], true, rest)
    | none =>
      match separated ':' i (number 16 hexDigit (some 4) true 65536) cs with
      | some (g, rest) =>
        let (gs, v4, rest') := groups left (i + 1) rest
        (g :: gs, v4, rest')
      | none => ([], false, cs)

end Reader

/-- An address of eight groups. -/
def Ipv6Addr.ofSegments (segs : List ℕ) : Option Ipv6Addr :=
  let octets := segs.flatMap fun g => [UInt8.ofNat (g / 256), UInt8.ofNat g]
  if h : octets.length = 16 then some ⟨octets, h⟩ else none

namespace Reader

/-- `read_ipv6_addr`: eight groups, or fewer around one `::`. -/
def ipv6 : Reader Ipv6Addr := fun cs =>
  let (head, headV4, rest) := groups 8 0 cs
  if head.length = 8 then (Ipv6Addr.ofSegments head).map (·, rest)
  else if headV4 then none
  else
    match rest with
    | ':' :: ':' :: rest =>
      -- the `::` stands for at least one group
      let (tail, _, rest) := groups (7 - head.length) 0 rest
      let zeros := List.replicate (8 - head.length - tail.length) 0
      (Ipv6Addr.ofSegments (head ++ zeros ++ tail)).map (·, rest)
    | _ => none

/-- `read_ip_addr`. -/
def ip : Reader IpAddr := fun cs =>
  ((ipv4 cs).map fun r => (IpAddr.v4 r.1, r.2)).or ((ipv6 cs).map fun r => (IpAddr.v6 r.1, r.2))

/-- `read_port`. -/
def port : Reader ℕ := fun cs => do
  let (_, cs) ← givenChar ':' cs
  number 10 decDigit none true (2 ^ 16) cs

/-- `read_scope_id`, and 0 where there is none. -/
def scopeId : Reader ℕ := fun cs =>
  let read : Option (ℕ × Text) := do
    let (_, cs) ← givenChar '%' cs
    number 10 decDigit none true (2 ^ 32) cs
  some (read.getD (0, cs))

/-- `parse_with`: the reader takes the whole text. -/
def parse {A : Type} (read : Reader A) (s : Text) : Option A :=
  match read s with
  | some (a, []) => some a
  | _ => none

end Reader

/-- `std::net::SocketAddr`. -/
inductive SocketAddr where
  | v4 (ip : Ipv4Addr) (port : UInt16)
  | v6 (ip : Ipv6Addr) (port : UInt16) (scopeId : UInt32)
deriving DecidableEq, Repr

namespace SocketAddr

/-- `ip`. -/
def ip : SocketAddr → IpAddr
  | v4 ip _ => .v4 ip
  | v6 ip _ _ => .v6 ip

/-- `port`. -/
def port : SocketAddr → UInt16
  | v4 _ port => port
  | v6 _ port _ => port

/-- `read_socket_addr`. -/
def read : Reader SocketAddr := fun cs =>
  let readV4 : Option (SocketAddr × Text) := do
    let (ip, cs) ← Reader.ipv4 cs
    let (port, cs) ← Reader.port cs
    return (.v4 ip (.ofNat port), cs)
  let readV6 : Option (SocketAddr × Text) := do
    let (_, cs) ← Reader.givenChar '[' cs
    let (ip, cs) ← Reader.ipv6 cs
    let (scopeId, cs) ← Reader.scopeId cs
    let (_, cs) ← Reader.givenChar ']' cs
    let (port, cs) ← Reader.port cs
    return (.v6 ip (.ofNat port) (.ofNat scopeId), cs)
  readV4.or readV6

/-- `str::parse::<SocketAddr>`. -/
def parse (s : Text) : Option SocketAddr := Reader.parse read s

/-- How the standard library words a failure of `parse`. -/
def parseError : Text := "invalid socket address syntax".toList

end SocketAddr

/-! ## Clients and ranges -/

/-- `parse_ip`: what stands before a scope, as an address. -/
def parseIp (s : Text) : Option IpAddr := Reader.parse Reader.ip (s.takeWhile (· ≠ '%'))

/-- `normalize_client_id`: one DNS label.  Its length is in bytes; a text that is not
ASCII is refused anyway. -/
def normalizeClientId (s : Text) : Option Text :=
  let id := s.trim.toAsciiLowercase
  let ok := 1 ≤ id.length ∧ id.length ≤ 63 ∧ id.head? ≠ some '-' ∧ id.getLast? ≠ some '-' ∧
    id.all fun c => ('a' ≤ c && c ≤ 'z') || ('0' ≤ c && c ≤ '9') || c == '-'
  if ok then some id else none

/-- `normalize_client_key`: a client id, an address or a hardware address. -/
def normalizeClientKey (s : Text) : Option Text :=
  let s := s.trim
  if s = [] then none
  else if "id:".toList.isPrefixOf s || "ID:".toList.isPrefixOf s then
    (normalizeClientId (s.drop 3)).map ("id:".toList ++ ·)
  else
    match parseIp s with
    | some ip => some (ipToString (unmapV4 ip))
    | none => (parseMac (String.ofList s)).map fun mac => (formatMac mac).toList

/-- `str::parse::<u8>`: digits, after a plus sign if there is one. -/
def parseU8 (s : Text) : Option ℕ :=
  let digits := if s.head? = some '+' then s.tail else s
  if digits = [] then none
  else (readU8 10 decDigit digits).map UInt8.toNat

/-- `IpNetwork`. -/
structure IpNetwork where
  addr : IpAddr
  pfx : ℕ
deriving DecidableEq, Repr

/-- The number of bits of an address. -/
def IpAddr.width : IpAddr → ℕ
  | .v4 _ => 32
  | .v6 _ => 128

/-- `u32::from` and `u128::from`. -/
def IpAddr.toNat : IpAddr → ℕ
  | .v4 ip => ip.toU32
  | .v6 ip => ip.octets.foldl (fun acc o => acc * 256 + o.toNat) 0

namespace IpNetwork

/-- `IpNetwork::parse`. -/
def parse (s : Text) : Option IpNetwork := do
  let s := s.trim
  let (addr, pfx) ← match s.splitOnce '/' with
    | some (a, p) => (parseU8 p.trim).map fun p => (a.trim, some p)
    | none => some (s, none)
  let addr := unmapV4 (← parseIp addr)
  let pfx := pfx.getD addr.width
  if pfx ≤ addr.width then return ⟨addr, pfx⟩ else none

/-- The leading `pfx` of `width` bits, as `checked_shl` makes it. -/
def mask (width pfx : ℕ) : ℕ :=
  if pfx = 0 then 0 else (2 ^ width - 1) <<< (width - pfx) % 2 ^ width

/-- `IpNetwork::contains`. -/
def contains (net : IpNetwork) (ip : IpAddr) : Bool :=
  let ip := unmapV4 ip
  net.addr.width == ip.width &&
    net.addr.toNat &&& mask ip.width net.pfx == ip.toNat &&& mask ip.width net.pfx

end IpNetwork

end Ferrite
