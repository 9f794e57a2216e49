import Ferrite.Core.ClientKey
import Ferrite.Proxy.ProxyHeader

/-!
# Whose a connection is, passed on

The three ways a connection is passed on with the client it is from: the line of version 1 that
`v1_header` of `edge/src/peek/proxy_protocol.rs` writes, the block of version 2 a reverse proxy
writes, and the `Opening` of `edge/src/proto.rs` a relay sends first.

* `parse_v1Header` — the line reads back, whatever is behind it, with the client's canonical
  address, in mapped form next to an IPv6 address;
* `parse_v1Header_take` — and is not complete before its end;
* `parse_v2Header` — so does a block;
* `Opening.read_encode` — and an opening leaves what is behind it.
-/

namespace Ferrite

/-- `Ipv4Addr::to_ipv6_mapped`. -/
def Ipv4Addr.toIpv6Mapped (ip : Ipv4Addr) : Ipv6Addr :=
  ⟨[0, 0, 0, 0, 0, 0, 0, 0, 0, 0, 0xFF, 0xFF, ip.a, ip.b, ip.c, ip.d], rfl⟩

/-- `is_ipv4`. -/
def IpAddr.isIpv4 : IpAddr → Bool
  | .v4 _ => true
  | .v6 _ => false

namespace Proxy

open Bytes

namespace Header

/-! ## The line -/

/-- `canonical`. -/
def canonical : IpAddr → IpAddr
  | .v6 v6 => (v6.toIpv4Mapped.map IpAddr.v4).getD (.v6 v6)
  | .v4 v4 => .v4 v4

/-- `show`: an address in the family of the line. -/
def showIp (family : Text) (ip : IpAddr) : Text :=
  match ip with
  | .v4 v4 => if family = "TCP6".toList then ipToString (.v6 v4.toIpv6Mapped) else ipToString ip
  | .v6 _ => ipToString ip

/-- The family of the line. -/
def family (clientIp dstIp : IpAddr) : Text :=
  if clientIp.isIpv4 ∧ dstIp.isIpv4 then "TCP4".toList else "TCP6".toList

/-- `v1_header`. -/
def v1Header (client dst : SocketAddr) : Text :=
  let clientIp := canonical client.ip
  let dstIp := canonical dst.ip
  let family := family clientIp dstIp
  "PROXY ".toList ++ family ++ ' ' :: showIp family clientIp ++ ' ' :: showIp family dstIp ++
    ' ' :: decimal client.port.toNat ++ ' ' :: decimal dst.port.toNat ++ ['\r', '\n']

/-- What stands in the line for one end: its address, mapped if it is an IPv4 address and the
other one is not. -/
def written (ip other : IpAddr) : IpAddr :=
  match ip, other with
  | .v4 v4, .v6 _ => .v6 v4.toIpv6Mapped
  | ip, _ => ip

theorem canonical_eq (ip : IpAddr) : canonical ip = unmapV4 ip := by
  cases ip with
  | v4 ip => rfl
  | v6 ip =>
    rw [canonical, unmapV4]
    cases ip.toIpv4Mapped <;> rfl

theorem canonical_written (ip other : IpAddr) :
    canonical (written (canonical ip) other) = canonical ip := by
  have hcanonical : canonical (canonical ip) = canonical ip := by
    rw [canonical_eq, canonical_eq, unmapV4_unmapV4]
  cases hip : canonical ip with
  | v4 v4 => cases other <;> rfl
  | v6 v6 =>
    rw [hip] at hcanonical
    exact hcanonical

theorem family_comm (ip other : IpAddr) : family ip other = family other ip := by
  cases ip <;> cases other <;> rfl

theorem showIp_family (ip other : IpAddr) :
    showIp (family ip other) ip = ipToString (written ip other) := by
  have hne : "TCP4".toList ≠ "TCP6".toList := by simp
  cases ip with
  | v4 v4 =>
    cases other with
    | v4 _ => simp only [showIp, family, IpAddr.isIpv4, and_self, if_true, if_neg hne, written]
    | v6 _ => simp [showIp, family, IpAddr.isIpv4, written]
  | v6 v6 => rfl

/-- The words of a line. -/
def v1Text (clientIp dstIp : IpAddr) (port dstPort : UInt16) : List Text :=
  ["PROXY".toList, family clientIp dstIp, ipToString (written clientIp dstIp),
    ipToString (written dstIp clientIp), decimal port.toNat, decimal dstPort.toNat]

/-- A line without its end. -/
def v1Content (client dst : SocketAddr) : Text :=
  [' '].intercalate (v1Text (canonical client.ip) (canonical dst.ip) client.port dst.port)

theorem v1Header_eq (client dst : SocketAddr) :
    v1Header client dst = v1Content client dst ++ ['\r', '\n'] := by
  have hproxy : "PROXY ".toList = "PROXY".toList ++ [' '] := by simp
  unfold v1Header v1Content v1Text
  dsimp only
  rw [showIp_family, family_comm, showIp_family, family_comm, hproxy]
  simp only [List.intercalate_cons_cons, List.intercalate_singleton, List.append_assoc,
    List.cons_append, List.nil_append]

/-! ## Its words -/

/-- The characters of the words. -/
def WordChar (c : Char) : Prop := 32 < c.toNat ∧ c.toNat < 128

theorem wordChar_decimal {n : ℕ} {c : Char} (h : c ∈ decimal n) : WordChar c := by
  have hdigit := Nat.isDigit_of_mem_toDigits (by omega) le_rfl h
  rw [Char.isDigit_iff_toNat] at hdigit
  have hzero : '0'.toNat = 48 ∧ '9'.toNat = 57 := by decide
  constructor <;> omega

theorem wordChar_v1Text {clientIp dstIp : IpAddr} {port dstPort : UInt16} {word : Text}
    (h : word ∈ v1Text clientIp dstIp port dstPort) {c : Char} (hc : c ∈ word) : WordChar c := by
  have hip : ∀ {ip : IpAddr}, c ∈ ipToString ip → WordChar c := by
    intro ip hc
    have hrange := ((ipSpelling_ipToString ip).addrChar hc).toNat_lt
    exact ⟨by omega, by omega⟩
  have hfixed : ∀ word ∈ ["PROXY".toList, "TCP4".toList, "TCP6".toList], c ∈ word →
      WordChar c := by
    have hall : (["PROXY".toList, "TCP4".toList, "TCP6".toList].all fun word =>
        word.all fun c => 32 < c.toNat && c.toNat < 128) = true := by simp
    intro word hword hc
    simpa [WordChar] using List.all_eq_true.1 (List.all_eq_true.1 hall word hword) c hc
  have hfamily : family clientIp dstIp ∈ ["PROXY".toList, "TCP4".toList, "TCP6".toList] := by
    unfold family
    split <;> simp
  simp only [v1Text, List.mem_cons, List.not_mem_nil, or_false] at h
  rcases h with rfl | rfl | rfl | rfl | rfl | rfl
  · exact hfixed _ (List.mem_cons_self ..) hc
  · exact hfixed _ hfamily hc
  · exact hip hc
  · exact hip hc
  · exact wordChar_decimal hc
  · exact wordChar_decimal hc

/-! ## Its length -/

theorem length_intercalate {sep : Char} {n : ℕ} {ws : List Text} (h : ∀ w ∈ ws, w.length ≤ n) :
    ([sep].intercalate ws).length ≤ (n + 1) * ws.length := by
  induction ws with
  | nil => exact Nat.zero_le _
  | cons w ws ih =>
    have hw := h w (List.mem_cons_self ..)
    have hrest := ih fun v hv => h v (List.mem_cons_of_mem _ hv)
    cases ws with
    | nil =>
      rw [List.intercalate_singleton, List.length_singleton]
      omega
    | cons v vs =>
      rw [List.intercalate_cons_cons, List.length_append, List.length_append, List.length_singleton]
      show _ ≤ (n + 1) * ((v :: vs).length + 1)
      rw [Nat.mul_succ]
      omega

theorem length_hexGroups {gs : List ℕ} (h : ∀ g ∈ gs, g < 65536) :
    (hexGroups gs).length ≤ 5 * gs.length := by
  have hshort : ∀ w ∈ gs.map (Nat.toDigits 16), w.length ≤ 4 := by
    intro w hw
    obtain ⟨g, hg, rfl⟩ := List.mem_map.1 hw
    exact (groupSpelling_toDigits (h g hg)).short
  have hlen : (hexGroups gs).length ≤ (4 + 1) * (gs.map (Nat.toDigits 16)).length :=
    length_intercalate hshort
  rwa [List.length_map] at hlen

theorem length_toText (v4 : Ipv4Addr) : v4.toText.toList.length ≤ 16 := by
  have hoctet : ∀ o : UInt8, (octetText o).length ≤ 3 := by
    intro o
    unfold octetText
    split_ifs <;> simp
  rw [Ipv4Addr.toText, String.toList_ofList]
  refine length_intercalate (n := 3) fun w hw => ?_
  obtain ⟨o, -, rfl⟩ := List.mem_map.1 hw
  exact hoctet o

theorem length_ipToString (ip : IpAddr) : (ipToString ip).length ≤ 40 := by
  cases ip with
  | v4 v4 => exact (length_toText v4).trans (by omega)
  | v6 v6 =>
    have hsegments : v6.segments.length = 8 := by
      rw [Ipv6Addr.segments, List.length_map, List.length_range]
    have hgroups : ∀ gs, gs ⊆ v6.segments → (hexGroups gs).length ≤ 5 * gs.length :=
      fun gs hgs => length_hexGroups fun g hg => Ipv6Addr.segments_lt (hgs hg)
    show v6.toText.length ≤ 40
    unfold Ipv6Addr.toText
    cases v6.toIpv4Mapped with
    | some v4 =>
      have hlen := length_toText v4
      have hstart : "::ffff:".toList.length = 7 := by simp
      rw [List.length_append, hstart]
      omega
    | none =>
      dsimp only
      split
      · next hmany =>
        have hrun := (zeroRun_longest v6.segments).1
        have hhead := hgroups _ (List.take_subset (longestZeroRun v6.segments).1 _)
        have htail := hgroups _ (List.drop_subset ((longestZeroRun v6.segments).1 +
          (longestZeroRun v6.segments).2) _)
        rw [List.length_take] at hhead
        rw [List.length_drop] at htail
        simp only [List.length_append, List.length_cons, List.length_nil]
        omega
      · have hall := hgroups _ (List.Subset.refl _)
        omega

/-- The longest line is long enough for every pair of addresses. -/
theorem length_v1Header (client dst : SocketAddr) : (v1Header client dst).length ≤ v1Max := by
  have hport : ∀ port : UInt16, (decimal port.toNat).length ≤ 5 := by
    intro port
    have hlt := port.toNat_lt
    exact (Nat.length_toDigits_le_iff (by omega) (by omega)).2 (by omega)
  have hfixed :
      "PROXY".toList.length = 5 ∧ "TCP4".toList.length = 4 ∧ "TCP6".toList.length = 4 := by
    simp
  have hfamily : ∀ ip other, (family ip other).length = 4 := by
    intro ip other
    unfold family
    split
    · exact hfixed.2.1
    · exact hfixed.2.2
  have hclient := hport client.port
  have hdst := hport dst.port
  have hip := length_ipToString (written (canonical client.ip) (canonical dst.ip))
  have hip' := length_ipToString (written (canonical dst.ip) (canonical client.ip))
  have hmax : v1Max = 107 := rfl
  rw [v1Header_eq]
  simp only [v1Content, v1Text, List.intercalate_cons_cons, List.intercalate_singleton, List.length_append,
    List.length_cons, List.length_nil, hfixed.1, hfamily]
  omega

/-! ## It reads back -/

theorem mem_v1Content {client dst : SocketAddr} {c : Char} (h : c ∈ v1Content client dst) :
    c = ' ' ∨ WordChar c := by
  rcases mem_intercalate h with rfl | ⟨word, hword, hc⟩
  · exact .inl rfl
  · exact .inr (wordChar_v1Text hword hc)

theorem splitOn_v1Content (client dst : SocketAddr) : (v1Content client dst).splitOn ' ' =
    v1Text (canonical client.ip) (canonical dst.ip) client.port dst.port := by
  refine List.splitOn_intercalate ' ' (fun word hword hspace => ?_) (List.cons_ne_nil _ _)
  exact absurd (wordChar_v1Text hword hspace).1 (by decide)

theorem toBytes_v1Header (client dst : SocketAddr) :
    (v1Header client dst).toBytes = (v1Content client dst).toBytes ++ crlf := by
  have hend : Text.toBytes ['\r', '\n'] = crlf := by decide
  rw [v1Header_eq, Text.toBytes_append, hend]

/-- The line is ASCII. -/
theorem length_toBytes_v1Header (client dst : SocketAddr) :
    (v1Header client dst).toBytes.length = (v1Header client dst).length := by
  rw [length_toBytes]
  refine Text.byteLen_of_ascii fun c hc => ?_
  rw [v1Header_eq] at hc
  rcases List.mem_append.1 hc with hc | hc
  · rcases mem_v1Content hc with rfl | hc
    · decide
    · exact hc.2
  · have hend : (['\r', '\n'].all fun c => c.toNat < 128) = true := by decide
    simpa using List.all_eq_true.1 hend c hc

/-- There is no line end in a line before its end. -/
theorem findSubsequence_v1Header (client dst : SocketAddr) (tail : Bytes) :
    findSubsequence crlf ((v1Header client dst).toBytes ++ tail) =
      some (v1Content client dst).toBytes.length := by
  have hcr : '\r' ∉ v1Content client dst := by
    intro hmem
    rcases mem_v1Content hmem with h | h
    · cases h
    · exact absurd h.1 (by decide)
  rw [toBytes_v1Header, List.append_assoc, findSubsequence_append rfl (cr_notMem_toBytes hcr)]
  have hhere : findSubsequence crlf (crlf ++ tail) = some 0 :=
    if_pos (List.isPrefixOf_iff_prefix.2 (List.prefix_append crlf tail))
  rw [hhere, Option.map_some, Nat.zero_add]

theorem prefix_v1Header (client dst : SocketAddr) : v1Sig <+: (v1Header client dst).toBytes := by
  have hsig : Text.toBytes ("PROXY".toList ++ [' ']) = v1Sig := by decide
  rw [toBytes_v1Header, v1Content, v1Text, List.intercalate_cons_cons, Text.toBytes_append, hsig,
    List.append_assoc]
  exact List.prefix_append _ _

theorem parseU16_decimal (port : UInt16) : parseU16 (decimal port.toNat) = some port := by
  have hread := Reader.port_decimal port
  have hplus : (decimal port.toNat).head? ≠ some '+' := by
    intro hplus
    have hmem := List.mem_of_mem_head? hplus
    exact absurd (Nat.isDigit_of_mem_toDigits (by omega) le_rfl hmem) (by decide)
  have hnumber : Reader.number 10 decDigit none true (2 ^ 16) (decimal port.toNat) =
      some (port.toNat, []) := hread
  unfold parseU16 Reader.parse
  dsimp only
  rw [if_neg hplus, hnumber, Option.map_some, UInt16.ofNat_toNat]

/-- **A written line reads back**, whatever is behind it. -/
theorem parse_v1Header (client dst : SocketAddr) (tail : Bytes) :
    parse ((v1Header client dst).toBytes ++ tail) =
      .present (some (SocketAddr.new (written (canonical client.ip) (canonical dst.ip)) client.port))
        (v1Header client dst).toBytes.length := by
  have hlen : (v1Header client dst).toBytes.length = (v1Content client dst).toBytes.length + 2 := by
    rw [toBytes_v1Header, List.length_append]
    rfl
  have hmax := length_v1Header client dst
  rw [← length_toBytes_v1Header] at hmax
  have hline : ((v1Header client dst).toBytes ++ tail).take (v1Content client dst).toBytes.length =
      (v1Content client dst).toBytes := by
    rw [toBytes_v1Header, List.append_assoc, List.take_left']
    rfl
  have hwords : v1Words ((v1Content client dst).toBytes.length + 2) (v1Text (canonical client.ip)
      (canonical dst.ip) client.port dst.port) = .present (some (SocketAddr.new
        (written (canonical client.ip) (canonical dst.ip)) client.port))
        ((v1Content client dst).toBytes.length + 2) := by
    have hfamily : family (canonical client.ip) (canonical dst.ip) ≠ "UNKNOWN".toList ∧
        (family (canonical client.ip) (canonical dst.ip) = "TCP4".toList ∨
          family (canonical client.ip) (canonical dst.ip) = "TCP6".toList) := by
      have hne : "TCP4".toList ≠ "UNKNOWN".toList ∧ "TCP6".toList ≠ "UNKNOWN".toList := by
        simp
      unfold family
      split
      · exact ⟨hne.1, .inl rfl⟩
      · exact ⟨hne.2, .inr rfl⟩
    unfold v1Words v1Text
    dsimp only
    rw [if_neg (not_not.2 rfl), if_neg hfamily.1, if_pos hfamily.2]
    rw [Reader.parse_ipToString, parseU16_decimal]
  rw [parse_v1 ((prefix_v1Header client dst).trans (List.prefix_append _ tail)), hlen]
  unfold v1Line
  rw [findSubsequence_v1Header]
  dsimp only
  rw [if_neg (by omega), hline, Text.fromUtf8_toBytes]
  dsimp only
  rw [splitOn_v1Content, hwords]

/-- A line is not known before its end. -/
theorem parse_v1Header_take (client dst : SocketAddr) {k : ℕ}
    (hk : k < (v1Header client dst).toBytes.length) :
    parse ((v1Header client dst).toBytes.take k) = .incomplete := by
  have hpre : (v1Header client dst).toBytes.take k <+: (v1Header client dst).toBytes :=
    List.take_prefix k _
  have hlen : ((v1Header client dst).toBytes.take k).length = k :=
    List.length_take_of_le hk.le
  by_cases hsig : v1Sig <+: (v1Header client dst).toBytes.take k
  · rw [parse_v1 hsig]
    unfold v1Line
    cases hfind : findSubsequence crlf ((v1Header client dst).toBytes.take k) with
    | none =>
      have hmax := length_v1Header client dst
      rw [← length_toBytes_v1Header] at hmax
      exact if_neg (by omega)
    | some i =>
      -- the line end would lie in what is cut off
      obtain ⟨hmore, hin⟩ := findSubsequence_append_of_some hfind
        ((v1Header client dst).toBytes.drop k)
      have hend := findSubsequence_v1Header client dst []
      rw [List.append_nil] at hend
      rw [List.take_append_drop, hend] at hmore
      cases hmore
      rw [toBytes_v1Header, List.length_append] at hk
      omega
  · rcases List.prefix_or_prefix_of_prefix hpre (prefix_v1Header client dst) with hbuf | hbuf
    · rw [parse_other hsig, if_pos (.inl hbuf)]
      intro hv2
      exact absurd (hv2.length_le.trans hbuf.length_le) (by decide)
    · exact absurd hbuf hsig

/-! ## The block -/

/-- The two ends of a block of version 2. -/
inductive V2Ends where
  | tcp4 (src dst : Ipv4Addr)
  | tcp6 (src dst : Ipv6Addr)

/-- The family byte of the ends. -/
def V2Ends.family : V2Ends → UInt8
  | tcp4 _ _ => 0x11
  | tcp6 _ _ => 0x21

/-- The ends as they are written. -/
def V2Ends.bytes : V2Ends → Bytes
  | tcp4 src dst => src.octets ++ dst.octets
  | tcp6 src dst => src.octets ++ dst.octets

/-- The address at the client's end. -/
def V2Ends.source : V2Ends → IpAddr
  | tcp4 src _ => .v4 src
  | tcp6 src _ => .v6 src

/-- A header of version 2 for a connection that is passed on: its ends, their ports, and what
the proxy adds, all in a body of 65535 bytes at most. -/
structure V2Header where
  ends : V2Ends
  srcPort : UInt16
  dstPort : UInt16
  tlvs : Bytes
  fits : ends.bytes.length + 4 + tlvs.length < 2 ^ 16

/-- The body of a header. -/
def V2Header.body (h : V2Header) : Bytes :=
  h.ends.bytes ++ ofU16 h.srcPort ++ ofU16 h.dstPort ++ h.tlvs

/-- A header as a proxy writes it: version 2, command PROXY. -/
def V2Header.bytes (h : V2Header) : Bytes :=
  v2Sig ++ [0x21, h.ends.family] ++ ofU16 (.ofNat h.body.length) ++ h.body

theorem V2Header.length_body (h : V2Header) :
    h.body.length = h.ends.bytes.length + 4 + h.tlvs.length := by
  simp only [V2Header.body, List.length_append, ofU16, List.length_cons, List.length_nil]

theorem V2Header.v2Client_body (h : V2Header) :
    v2Client h.ends.family h.body = some (SocketAddr.new h.ends.source h.srcPort) := by
  have hlen := h.length_body
  have hport : ∀ bytes : Bytes, h.body = bytes ++ (ofU16 h.srcPort ++ (ofU16 h.dstPort ++ h.tlvs)) →
      h.body.readU16 bytes.length = h.srcPort := by
    intro bytes hbody
    rw [hbody, readU16_append_right bytes _ (Nat.add_zero _).symm, readU16_ofU16_append]
  cases hends : h.ends with
  | tcp4 src dst =>
    have hbytes : h.ends.bytes = [src.a, src.b, src.c, src.d, dst.a, dst.b, dst.c, dst.d] := by
      rw [hends]
      rfl
    have hread := hport h.ends.bytes (by simp only [V2Header.body, List.append_assoc])
    rw [hbytes] at hlen hread
    have hsrc : h.body.byteAt 0 = src.a ∧ h.body.byteAt 1 = src.b ∧ h.body.byteAt 2 = src.c ∧
        h.body.byteAt 3 = src.d := by
      rw [V2Header.body, hbytes]
      exact ⟨rfl, rfl, rfl, rfl⟩
    simp only [List.length_cons, List.length_nil] at hlen hread
    unfold v2Client
    rw [if_pos ⟨rfl, by omega⟩, hsrc.1, hsrc.2.1, hsrc.2.2.1, hsrc.2.2.2, hread]
    rfl
  | tcp6 src dst =>
    have hbytes : h.ends.bytes = src.octets ++ dst.octets := by
      rw [hends]
      rfl
    have hread := hport h.ends.bytes (by simp only [V2Header.body, List.append_assoc])
    have htake : h.body.take 16 = src.octets := by
      rw [V2Header.body, hbytes, List.append_assoc, List.append_assoc, List.append_assoc,
        List.take_left']
      exact src.length_octets
    rw [hbytes] at hlen hread
    rw [List.length_append, src.length_octets, dst.length_octets] at hlen hread
    unfold v2Client
    have hfamily : ¬ (0x21 : UInt8) = 0x11 := by decide
    rw [if_neg fun hfour => hfamily hfour.1, dif_pos ⟨rfl, by omega⟩, hread]
    simp only [htake]
    rfl

/-- **A block reads back**, whatever is behind it. -/
theorem parse_v2Header (h : V2Header) (tail : Bytes) : parse (h.bytes ++ tail) =
    .present (some (SocketAddr.new h.ends.source h.srcPort)) h.bytes.length := by
  have hsig : v2Sig.length = 12 := rfl
  have hbody : h.body.length < 2 ^ 16 := by
    rw [h.length_body]
    exact h.fits
  have hlen : h.bytes.length = 16 + h.body.length := by
    simp only [V2Header.bytes, List.length_append, hsig, ofU16, List.length_cons, List.length_nil]
  have hcommand : h.bytes.byteAt 12 = 0x21 ∧ h.bytes.byteAt 13 = h.ends.family := ⟨rfl, rfl⟩
  have hsize : (h.bytes.readU16 14).toNat = h.body.length := by
    have hread : h.bytes.readU16 14 = .ofNat h.body.length := by
      rw [V2Header.bytes, List.append_assoc]
      exact (readU16_append_right _ _ (k := 0) rfl).trans (readU16_ofU16_append _ _)
    rw [hread, UInt16.toNat_ofNat', Nat.mod_eq_of_lt hbody]
  have hwhole : (h.bytes.take h.bytes.length).drop 16 = h.body := by
    rw [List.take_length, V2Header.bytes]
    exact List.drop_left' rfl
  have hv2 :
      v2 h.bytes = .present (some (SocketAddr.new h.ends.source h.srcPort)) h.bytes.length := by
    have hversion : ¬ (0x21 : UInt8) >>> 4 ≠ 2 := by decide
    have hproxy : ¬ (0x21 : UInt8) &&& 0x0F = 0 := by decide
    unfold v2
    dsimp only
    rw [if_neg (by omega), hcommand.1, hcommand.2, hsize, if_neg hversion, if_neg (by omega),
      if_neg hproxy, ← hlen, hwhole, h.v2Client_body]
  have hpre : v2Sig <+: h.bytes := by
    rw [V2Header.bytes, List.append_assoc, List.append_assoc]
    exact List.prefix_append _ _
  have hcomplete : v2 h.bytes ≠ .incomplete := by
    rw [hv2]
    simp
  rw [parse_v2 (hpre.trans (List.prefix_append _ tail)), v2_append hcomplete tail, hv2]

end Header

/-! ## The opening -/

/-- `OPENING_VERSION`. -/
def openingVersion : UInt8 := 1

/-- `Opening`: whose a connection is that a relay passes on, and the port it came in on. -/
structure Opening where
  port : UInt16
  client : SocketAddr

namespace Opening

/-- How `read` fails. -/
inductive Error where
  | unexpectedEof
  | other (text : Text)

/-- A reader of a stream: what it read, with what is left. -/
abbrev Recv (A : Type) := StateT Bytes (Except Error) A

/-- `read_exact`. -/
def readExact (n : ℕ) : Recv {bs : Bytes // bs.length = n} := fun stream =>
  if h : n ≤ stream.length then .ok (⟨stream.take n, List.length_take_of_le h⟩, stream.drop n)
  else .error .unexpectedEof

/-- `read_u8`. -/
def readU8 : Recv UInt8 := do
  let bs ← readExact 1
  return bs.1.byteAt 0

/-- `read_u16`. -/
def readU16 : Recv UInt16 := do
  let bs ← readExact 2
  return bs.1.readU16 0

/-- `encode`. -/
def encode (o : Opening) : Bytes :=
  [openingVersion] ++ ofU16 o.port ++
    (match o.client.ip with
      | .v4 v4 => 4 :: v4.octets
      | .v6 v6 => 6 :: v6.octets) ++
    ofU16 o.client.port

/-- The address in an opening. -/
def readIp : Recv IpAddr := do
  let family ← readU8
  if family = 4 then
    let bs ← readExact 4
    return .v4 ⟨bs.1.byteAt 0, bs.1.byteAt 1, bs.1.byteAt 2, bs.1.byteAt 3⟩
  else if family = 6 then
    let bs ← readExact 16
    return .v6 ⟨bs.1, bs.2⟩
  else throw (.other "unknown address family".toList)

/-- `read`. -/
def read : Recv Opening := do
  if (← readU8) ≠ openingVersion then throw (.other "unknown opening".toList)
  let port ← readU16
  let ip ← readIp
  let clientPort ← readU16
  return ⟨port, SocketAddr.new ip clientPort⟩

theorem readExact_append {bs : Bytes} {n : ℕ} (h : bs.length = n) (tail : Bytes) :
    readExact n (bs ++ tail) = .ok (⟨bs, h⟩, tail) := by
  have hle : n ≤ (bs ++ tail).length := by
    rw [List.length_append, h]
    exact Nat.le_add_right n _
  unfold readExact
  rw [dif_pos hle]
  simp only [List.take_left' h, List.drop_left' h]

/-- A reader goes on where the one before it stopped. -/
theorem bind_of_ok {A B : Type} {read : Recv A} {next : A → Recv B} {stream rest : Bytes} {a : A}
    (h : read stream = .ok (a, rest)) : (read >>= next) stream = next a rest := by
  show (read stream >>= fun r => next r.1 r.2) = next a rest
  rw [h]
  rfl

theorem readU8_cons (b : UInt8) (tail : Bytes) : readU8 (b :: tail) = .ok (b, tail) :=
  bind_of_ok (readExact_append (rfl : [b].length = 1) tail)

theorem readU16_append (v : UInt16) (tail : Bytes) :
    readU16 (ofU16 v ++ tail) = .ok (v, tail) := by
  have hread := readU16_ofU16_append v []
  rw [List.append_nil] at hread
  refine (bind_of_ok (readExact_append (rfl : (ofU16 v).length = 2) tail)).trans ?_
  show Except.ok ((ofU16 v).readU16 0, tail) = _
  rw [hread]

theorem readIp_append (ip : IpAddr) (tail : Bytes) :
    readIp ((match ip with
      | .v4 v4 => 4 :: v4.octets
      | .v6 v6 => 6 :: v6.octets) ++ tail) = .ok (ip, tail) := by
  cases ip with
  | v4 v4 =>
    refine (bind_of_ok (readU8_cons 4 (v4.octets ++ tail))).trans ?_
    rw [if_pos rfl]
    exact bind_of_ok (readExact_append (rfl : v4.octets.length = 4) tail)
  | v6 v6 =>
    refine (bind_of_ok (readU8_cons 6 (v6.octets ++ tail))).trans ?_
    rw [if_neg (by decide), if_pos rfl]
    exact bind_of_ok (readExact_append v6.length_octets tail)

/-- **An opening leaves what is behind it.** -/
theorem read_encode (o : Opening) (tail : Bytes) : read (o.encode ++ tail) =
    .ok (⟨o.port, SocketAddr.new o.client.ip o.client.port⟩, tail) := by
  unfold encode read
  rw [List.append_assoc, List.append_assoc, List.append_assoc]
  refine (bind_of_ok (readU8_cons openingVersion _)).trans ?_
  rw [if_neg (not_not.2 rfl)]
  refine (bind_of_ok (readU16_append o.port _)).trans ?_
  refine (bind_of_ok (readIp_append o.client.ip _)).trans ?_
  exact bind_of_ok (readU16_append o.client.port tail)

end Opening

/-- **Whose a connection is survives being passed on.**  A line of version 1 reads back with
whatever behind it, as the client's canonical address and port, the address in mapped form where
it is an IPv4 address and the other end is not; it has at most 107 bytes and is incomplete before
its end.  A block of version 2 reads back as the source in it, and an opening as its port and its
client, leaving what is behind them. -/
theorem passed_on :
    (∀ client dst tail,
      Header.parse ((Header.v1Header client dst).toBytes ++ tail) =
        .present (some (SocketAddr.new
          (Header.written (Header.canonical client.ip) (Header.canonical dst.ip)) client.port))
          (Header.v1Header client dst).toBytes.length ∧
      Header.canonical (Header.written (Header.canonical client.ip) (Header.canonical dst.ip)) =
        Header.canonical client.ip ∧
      (Header.v1Header client dst).toBytes.length ≤ 107 ∧
      ∀ k < (Header.v1Header client dst).toBytes.length,
        Header.parse ((Header.v1Header client dst).toBytes.take k) = .incomplete) ∧
      (∀ (h : Header.V2Header) tail, Header.parse (h.bytes ++ tail) =
        .present (some (SocketAddr.new h.ends.source h.srcPort)) h.bytes.length) ∧
      ∀ (o : Opening) tail, Opening.read (o.encode ++ tail) =
        .ok (⟨o.port, SocketAddr.new o.client.ip o.client.port⟩, tail) := by
  refine ⟨fun client dst tail => ⟨Header.parse_v1Header client dst tail,
    Header.canonical_written _ _, ?_, fun k => Header.parse_v1Header_take client dst⟩,
    Header.parse_v2Header, Opening.read_encode⟩
  rw [Header.length_toBytes_v1Header]
  exact Header.length_v1Header client dst

/-- A header of version 2 with a block of four bytes behind the ports. -/
def passedV2 : Header.V2Header :=
  ⟨.tcp4 ⟨198, 51, 100, 7⟩ ⟨192, 0, 2, 1⟩, 40000, 443, [4, 0, 1, 0], by decide⟩

/-- It is read as the client it names, and the stream goes on behind it. -/
theorem passed_on_v2 :
    passedV2.bytes = v2Sig ++ [0x21, 0x11, 0, 16, 198, 51, 100, 7, 192, 0, 2, 1, 0x9C, 0x40,
      0x01, 0xBB, 4, 0, 1, 0] ∧
    Header.parse (passedV2.bytes ++ [0x16, 3, 1]) = .present (some (.v4 ⟨198, 51, 100, 7⟩ 40000)) 32 :=
  ⟨by decide, passed_on.2.1 passedV2 [0x16, 3, 1]⟩

/-- A client with an IPv4 address, passed on to an IPv6 address, comes back with the mapped one. -/
theorem passed_on_mapped :
    Header.parse (Header.v1Header (.v4 ⟨198, 51, 100, 7⟩ 40000)
      (.v6 ⟨[0x20, 1, 0x0D, 0xB8, 0, 0, 0, 0, 0, 0, 0, 0, 0, 0, 0, 1], rfl⟩ 443 0)).toBytes ≠
    .present (some (SocketAddr.new (Header.canonical (.v4 ⟨198, 51, 100, 7⟩)) 40000))
      (Header.v1Header (.v4 ⟨198, 51, 100, 7⟩ 40000)
        (.v6 ⟨[0x20, 1, 0x0D, 0xB8, 0, 0, 0, 0, 0, 0, 0, 0, 0, 0, 0, 1], rfl⟩ 443 0)).toBytes.length := by
  have hread := Header.parse_v1Header (.v4 ⟨198, 51, 100, 7⟩ 40000)
    (.v6 ⟨[0x20, 1, 0x0D, 0xB8, 0, 0, 0, 0, 0, 0, 0, 0, 0, 0, 0, 1], rfl⟩ 443 0) []
  rw [List.append_nil] at hread
  rw [hread]
  intro h
  cases h

end Proxy

end Ferrite
