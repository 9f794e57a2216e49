import Ferrite.Core.Utf8
import Ferrite.Dhcp.Message
import Ferrite.Lib.Tlv

/-!
# DHCP messages on the wire

`encode` and `decode` of `dhcp/src/options.rs` and `dhcp/src/message.rs`: the BOOTP header,
the magic cookie and the options as fields of tag, length and payload.  The decoder never
fails on one option: a typed one of the wrong size is kept raw, and a text that is no UTF-8
is read with replacement characters.

`decode_encode_iff` says when a message reads back from its bytes, with anything behind
them: exactly when the payload of each of its options has at most 255 bytes.  The encoder
writes the length of a longer one cut to a byte.
-/

namespace Ferrite.Dhcp

/-- `DecodeError`. -/
inductive DecodeError where
  | tooShort | badMagicCookie | truncatedOption
deriving DecidableEq, Repr

/-! ## Options -/

namespace MessageType

/-- `MessageType::from_u8`. -/
def fromU8 (v : UInt8) : Option MessageType :=
  match v.toNat with
  | 1 => some .discover
  | 2 => some .offer
  | 3 => some .request
  | 4 => some .decline
  | 5 => some .ack
  | 6 => some .nak
  | 7 => some .release
  | 8 => some .inform
  | _ => none

/-- `MessageType::to_u8`. -/
def toU8 : MessageType → UInt8
  | discover => 1
  | offer => 2
  | request => 3
  | decline => 4
  | ack => 5
  | nak => 6
  | release => 7
  | inform => 8

@[simp] theorem fromU8_toU8 (t : MessageType) : fromU8 t.toU8 = some t := by
  cases t <;> rfl

end MessageType

/-- `Ipv4Addr::from([u8; 4])` of the first four bytes, if there are four. -/
def ip (data : Bytes) : Option Ipv4Addr :=
  match data with
  | a :: b :: c :: d :: _ => some ⟨a, b, c, d⟩
  | _ => none

/-- `ip_list`: the whole groups of four, in order. -/
def ipList : Bytes → List Ipv4Addr
  | a :: b :: c :: d :: rest => ⟨a, b, c, d⟩ :: ipList rest
  | _ => []

/-- `u32be`: the first four bytes as one number, if there are four. -/
def u32be (data : Bytes) : Option UInt32 :=
  if 4 ≤ data.length then some (data.readU32 0) else none

/-- The padding byte between options. -/
def pad : UInt8 := 0

/-- The byte that ends them. -/
def endOption : UInt8 := 255

namespace DhcpOption

/-- `code`. -/
def code : DhcpOption → UInt8
  | subnetMask _ => 1
  | router _ => 3
  | dnsServers _ => 6
  | hostname _ => 12
  | domainName _ => 15
  | requestedIp _ => 50
  | leaseTime _ => 51
  | messageType _ => 53
  | serverIdentifier _ => 54
  | parameterRequestList _ => 55
  | renewalTime _ => 58
  | rebindingTime _ => 59
  | clientIdentifier _ => 61
  | unknown code _ => code

/-- The bytes `encode_into` puts behind the code and the length. -/
def payload : DhcpOption → Bytes
  | messageType t => [t.toU8]
  | serverIdentifier ip | requestedIp ip | subnetMask ip => ip.octets
  | leaseTime secs | renewalTime secs | rebindingTime secs => Bytes.ofU32 secs
  | router list | dnsServers list => list.flatMap Ipv4Addr.octets
  | hostname s | domainName s => Text.toBytes s.toList
  | parameterRequestList codes | clientIdentifier codes => codes
  | unknown _ data => data

/-- `encode_into`. -/
def encodeInto (o : DhcpOption) : Bytes := Tlv.put o.code o.payload

/-- `decode_one`. -/
def decodeOne (code : UInt8) (data : Bytes) : DhcpOption :=
  match code.toNat with
  | 1 => ((ip data).map subnetMask).getD (unknown code data)
  | 3 => router (ipList data)
  | 6 => dnsServers (ipList data)
  | 12 => hostname (String.ofList (fromUtf8Lossy data))
  | 15 => domainName (String.ofList (fromUtf8Lossy data))
  | 50 => ((ip data).map requestedIp).getD (unknown code data)
  | 51 => ((u32be data).map leaseTime).getD (unknown code data)
  | 53 => ((data.head?.bind MessageType.fromU8).map messageType).getD (unknown code data)
  | 54 => ((ip data).map serverIdentifier).getD (unknown code data)
  | 55 => parameterRequestList data
  | 58 => ((u32be data).map renewalTime).getD (unknown code data)
  | 59 => ((u32be data).map rebindingTime).getD (unknown code data)
  | 61 => clientIdentifier data
  | _ => unknown code data

end DhcpOption

namespace Options

/-- `options::decode`: the options up to the end mark. -/
def decode (buf : Bytes) : Except DecodeError (List DhcpOption) :=
  match Tlv.fields pad endOption DhcpOption.decodeOne buf with
  | some options => .ok options
  | none => .error .truncatedOption

/-- `options::encode`: the options in order, and the end mark. -/
def encode (options : List DhcpOption) : Bytes := options.flatMap DhcpOption.encodeInto ++ [endOption]

end Options

/-! ## Messages -/

/-- `MAGIC_COOKIE`. -/
def magicCookie : Bytes := [99, 130, 83, 99]

/-- `HEADER_LEN`. -/
def headerLen : ℕ := 236

/-- `MIN_LEN`. -/
def minLen : ℕ := headerLen + 4

namespace Op

/-- `Op::from_u8`. -/
def fromU8 (v : UInt8) : Option Op :=
  if v = 1 then some .bootRequest else if v = 2 then some .bootReply else none

/-- `Op::to_u8`. -/
def toU8 : Op → UInt8
  | bootRequest => 1
  | bootReply => 2

@[simp] theorem fromU8_toU8 (op : Op) : fromU8 op.toU8 = some op := by
  cases op <;> rfl

end Op

/-- The address at an offset of the header. -/
def addrAt (buf : Bytes) (o : ℕ) : Ipv4Addr :=
  ⟨buf.byteAt o, buf.byteAt (o + 1), buf.byteAt (o + 2), buf.byteAt (o + 3)⟩

namespace DhcpMessage

/-- `DhcpMessage::decode`.  An op code that is none is reported as a bad cookie. -/
def decode (buf : Bytes) : Except DecodeError DhcpMessage :=
  if buf.length < minLen then .error .tooShort
  else if (buf.drop headerLen).take 4 ≠ magicCookie then .error .badMagicCookie
  else
    match Op.fromU8 (buf.byteAt 0) with
    | none => .error .badMagicCookie
    | some op =>
      match Options.decode (buf.drop minLen) with
      | .error e => .error e
      | .ok options => .ok {
          op := op
          xid := buf.readU32 4
          secs := buf.readU16 8
          flags := buf.readU16 10
          ciaddr := addrAt buf 12
          yiaddr := addrAt buf 16
          siaddr := addrAt buf 20
          giaddr := addrAt buf 24
          -- the first six of the sixteen bytes of the field
          chaddr := #v[buf.byteAt 28, buf.byteAt 29, buf.byteAt 30, buf.byteAt 31, buf.byteAt 32,
            buf.byteAt 33]
          options := options }

/-- The fixed header: Ethernet, no hops; the rest of `chaddr`, `sname` and `file` stay zero. -/
def header (m : DhcpMessage) : Bytes :=
  [m.op.toU8, 1, 6, 0] ++ Bytes.ofU32 m.xid ++ Bytes.ofU16 m.secs ++ Bytes.ofU16 m.flags ++
    m.ciaddr.octets ++ m.yiaddr.octets ++ m.siaddr.octets ++ m.giaddr.octets ++
    m.chaddr.toList ++ List.replicate (10 + 64 + 128) 0

/-- `DhcpMessage::encode`. -/
def encode (m : DhcpMessage) : Bytes := m.header ++ magicCookie ++ Options.encode m.options

end DhcpMessage

/-! ## What an option reads back from -/

@[simp] theorem ip_octets (a : Ipv4Addr) : ip a.octets = some a := rfl

@[simp] theorem ipList_octets (ips : List Ipv4Addr) :
    ipList (ips.flatMap Ipv4Addr.octets) = ips := by
  induction ips with
  | nil => rfl
  | cons a ips ih =>
    rw [List.flatMap_cons]
    exact congrArg (a :: ·) ih

@[simp] theorem u32be_ofU32 (v : UInt32) : u32be (Bytes.ofU32 v) = some v := by
  have hread := Bytes.readU32_ofU32_append v []
  rw [List.append_nil] at hread
  rw [u32be, if_pos (by simp [Bytes.ofU32]), hread]

theorem length_flatMap_octets (ips : List Ipv4Addr) :
    (ips.flatMap Ipv4Addr.octets).length = 4 * ips.length := by
  induction ips with
  | nil => rfl
  | cons a ips ih =>
    rw [List.flatMap_cons, List.length_append, ih, List.length_cons]
    simp only [Ipv4Addr.octets, List.length_cons, List.length_nil]
    omega

theorem four_mul_length_ipList_le (data : Bytes) : 4 * (ipList data).length ≤ data.length := by
  fun_induction ipList data with
  | case1 a b c d rest ih =>
    simp only [List.length_cons]
    omega
  | case2 => exact Nat.zero_le _

theorem take_ne_of_lt {l : Bytes} {k : ℕ} (h : k < l.length) : l.take k ≠ l := by
  intro heq
  have hlen := congrArg List.length heq
  rw [List.length_take] at hlen
  omega

theorem eq_toList_of_ofList_eq {t : Text} {s : String} (h : String.ofList t = s) :
    t = s.toList := by
  rw [← h, String.toList_ofList]

theorem ipList_take_ne {ips : List Ipv4Addr} {k : ℕ}
    (h : k < (ips.flatMap Ipv4Addr.octets).length) :
    ipList ((ips.flatMap Ipv4Addr.octets).take k) ≠ ips := by
  intro heq
  have hle := four_mul_length_ipList_le ((ips.flatMap Ipv4Addr.octets).take k)
  rw [heq, ← length_flatMap_octets, List.length_take] at hle
  omega

namespace DhcpOption

/-- A raw option whose code has no type, or whose payload the type refuses. -/
def Plain (o : DhcpOption) : Prop :=
  o.code ≠ pad ∧ o.code ≠ endOption ∧
    ∀ code data, o = unknown code data → decodeOne code data = unknown code data

/-- Every typed option is plain. -/
theorem plain_of_ne_unknown {o : DhcpOption} (h : ∀ code data, o ≠ unknown code data) :
    o.Plain := by
  cases o with
  | unknown code data => exact absurd rfl (h code data)
  | _ =>
    exact ⟨by simp [code, pad], by simp [code, endOption],
      fun code data heq => absurd heq (h code data)⟩

/-- What is kept raw is kept whole, under its code. -/
theorem eq_of_decodeOne_eq_unknown {code c : UInt8} {data d : Bytes}
    (h : decodeOne code data = unknown c d) : c = code ∧ d = data := by
  have hgetD : ∀ {X : Type} (x : Option X) (f : X → DhcpOption),
      (∀ v, f v ≠ unknown c d) → (x.map f).getD (unknown code data) = unknown c d →
        c = code ∧ d = data := by
    intro X x f hf hx
    cases x with
    | none => exact ⟨(unknown.inj hx).1.symm, (unknown.inj hx).2.symm⟩
    | some v => exact absurd hx (hf v)
  unfold decodeOne at h
  split at h
  case h_14 => exact ⟨(unknown.inj h).1.symm, (unknown.inj h).2.symm⟩
  all_goals first
    | exact hgetD _ _ (by simp) h
    | exact absurd h (by simp)

theorem code_decodeOne (code : UInt8) (data : Bytes) : (decodeOne code data).code = code := by
  have hgetD : ∀ {X : Type} (x : Option X) (f : X → DhcpOption),
      (∀ v, (f v).code = code) → ((x.map f).getD (unknown code data)).code = code := by
    intro X x f hf
    cases x with
    | none => rfl
    | some v => exact hf v
  unfold decodeOne
  split
  case h_14 => rfl
  all_goals
    rename_i heq
    first
    | exact hgetD _ _ fun _ => UInt8.toNat_inj.1 heq.symm
    | exact UInt8.toNat_inj.1 heq.symm

/-- What the decoder gives is plain. -/
theorem plain_decodeOne {code : UInt8} (hpad : code ≠ pad) (hend : code ≠ endOption)
    (data : Bytes) : (decodeOne code data).Plain := by
  rw [Plain, code_decodeOne]
  refine ⟨hpad, hend, fun c d h => ?_⟩
  obtain ⟨rfl, rfl⟩ := eq_of_decodeOne_eq_unknown h
  exact h

/-- A plain option reads back from its payload. -/
theorem decodeOne_payload {o : DhcpOption} (h : o.Plain) : decodeOne o.code o.payload = o := by
  cases o with
  | unknown code data => exact h.2.2 code data rfl
  | hostname s => simp [code, payload, decodeOne]
  | domainName s => simp [code, payload, decodeOne]
  | _ => simp [code, payload, decodeOne]

/-- No option reads back from a payload that lost 256 bytes or more. -/
theorem decodeOne_take_ne {o : DhcpOption} (h : 255 < o.payload.length) :
    decodeOne o.code (o.payload.take (o.payload.length % 256)) ≠ o := by
  have hmod := Nat.mod_lt o.payload.length (by omega : 0 < 256)
  have hlt : o.payload.length % 256 < o.payload.length := by omega
  have hcut : o.payload.length % 256 + 12 < o.payload.length := by omega
  intro heq
  cases o with
  | messageType t => simp [payload] at h
  | serverIdentifier a | requestedIp a | subnetMask a => simp [payload, Ipv4Addr.octets] at h
  | leaseTime secs | renewalTime secs | rebindingTime secs => simp [payload, Bytes.ofU32] at h
  | router list => exact ipList_take_ne hlt (router.inj heq)
  | dnsServers list => exact ipList_take_ne hlt (dnsServers.inj heq)
  | hostname s => exact fromUtf8Lossy_take_ne hcut (eq_toList_of_ofList_eq (hostname.inj heq))
  | domainName s => exact fromUtf8Lossy_take_ne hcut (eq_toList_of_ofList_eq (domainName.inj heq))
  | parameterRequestList codes => exact take_ne_of_lt hlt (parameterRequestList.inj heq)
  | clientIdentifier codes => exact take_ne_of_lt hlt (clientIdentifier.inj heq)
  | unknown code data => exact take_ne_of_lt hlt (eq_of_decodeOne_eq_unknown heq).2.symm

/-- The payload of what was decoded: only a text can have grown. -/
theorem length_payload_decodeOne_le {code : UInt8} {data : Bytes} (h : data.length ≤ 255)
    (hhost : code ≠ 12) (hdomain : code ≠ 15) : (decodeOne code data).payload.length ≤ 255 := by
  have hgetD : ∀ {X : Type} (x : Option X) (f : X → DhcpOption),
      (∀ v, (f v).payload.length ≤ 255) →
        ((x.map f).getD (unknown code data)).payload.length ≤ 255 := by
    intro X x f hf
    cases x with
    | none => exact h
    | some v => exact hf v
  have hips : ((ipList data).flatMap Ipv4Addr.octets).length ≤ 255 := by
    rw [length_flatMap_octets]
    exact (four_mul_length_ipList_le data).trans h
  unfold decodeOne
  split
  case h_4 heq => exact absurd (UInt8.toNat_inj.1 heq) hhost
  case h_5 heq => exact absurd (UInt8.toNat_inj.1 heq) hdomain
  all_goals first
    | exact h
    | exact hips
    | exact hgetD _ _ fun _ => by simp [payload, Ipv4Addr.octets, Bytes.ofU32]

/-- The payload of a text is that of what was read. -/
theorem payload_decodeOne_text {code : UInt8} {data : Bytes} (h : code = 12 ∨ code = 15) :
    (decodeOne code data).payload = Text.toBytes (fromUtf8Lossy data) := by
  rcases h with rfl | rfl <;> simp [decodeOne, payload]

end DhcpOption

/-! ## Whole messages -/

/-- A list of plain options reads back exactly when each fits its length byte. -/
theorem Options.decode_encode_iff {options : List DhcpOption} (h : ∀ o ∈ options, o.Plain)
    (rest : Bytes) :
    Options.decode (Options.encode options ++ rest) = .ok options ↔
      ∀ o ∈ options, o.payload.length ≤ 255 := by
  have hfields := Tlv.fields_encode_iff (A := DhcpOption) (by decide : endOption ≠ pad)
    (fun o ho => ⟨(h o ho).1, (h o ho).2.1⟩) (fun o ho => DhcpOption.decodeOne_payload (h o ho))
    (fun o _ => DhcpOption.decodeOne_take_ne) rest
  rw [← hfields, Options.decode, Options.encode, List.append_assoc, List.singleton_append]
  unfold DhcpOption.encodeInto
  constructor
  · intro hdec
    split at hdec
    · rename_i os hos
      rw [hos, Except.ok.inj hdec]
    · cases hdec
  · intro hok
    rw [hok]

namespace DhcpMessage

theorem length_header (m : DhcpMessage) : m.header.length = headerLen := by
  simp only [header, headerLen, Bytes.ofU32, Bytes.ofU16, Ipv4Addr.octets, List.length_append,
    List.length_cons, List.length_nil, List.length_replicate, Vector.length_toList]

/-- The header is read as it was written; what the options are is up to the rest. -/
theorem decode_header (m : DhcpMessage) (rest : Bytes) :
    decode (m.header ++ magicCookie ++ rest) =
      match Options.decode rest with
      | .error e => .error e
      | .ok options => .ok { m with options := options } := by
  obtain ⟨a, b, c, d, e, f, hmac⟩ := Mac.eq_literal m.chaddr
  have hlen : (m.header ++ magicCookie).length = minLen := by
    rw [List.length_append, length_header]
    rfl
  have hcookie : ((m.header ++ magicCookie ++ rest).drop headerLen).take 4 = magicCookie := by
    rw [List.append_assoc, ← length_header m, List.drop_left]
    rfl
  have hdrop : (m.header ++ magicCookie ++ rest).drop minLen = rest := by
    rw [← hlen, List.drop_left]
  have hop : Op.fromU8 ((m.header ++ magicCookie ++ rest).byteAt 0) = some m.op :=
    Op.fromU8_toU8 m.op
  rw [decode, if_neg (by rw [List.length_append, hlen]; omega), if_neg (not_not.2 hcookie), hop,
    hdrop]
  cases Options.decode rest with
  | error e => rfl
  | ok options =>
    have hbytes : m.header ++ magicCookie ++ rest =
        [m.op.toU8, 1, 6, 0] ++ (Bytes.ofU32 m.xid ++ (Bytes.ofU16 m.secs ++
          (Bytes.ofU16 m.flags ++ (m.ciaddr.octets ++ (m.yiaddr.octets ++ (m.siaddr.octets ++
            (m.giaddr.octets ++ ([a, b, c, d, e, f] ++
              (List.replicate (10 + 64 + 128) 0 ++ (magicCookie ++ rest)))))))))) := by
      simp only [header, hmac, List.append_assoc]
      rfl
    rw [hbytes]
    generalize List.replicate (10 + 64 + 128) 0 ++ (magicCookie ++ rest) = tail
    have hxid := Bytes.readU32_ofU32_append m.xid []
    have hsecs := Bytes.readU16_ofU16_append m.secs []
    have hflags := Bytes.readU16_ofU16_append m.flags []
    refine congrArg Except.ok ?_
    calc _ = DhcpMessage.mk m.op ((Bytes.ofU32 m.xid ++ []).readU32 0)
          ((Bytes.ofU16 m.secs ++ []).readU16 0) ((Bytes.ofU16 m.flags ++ []).readU16 0) m.ciaddr
          m.yiaddr m.siaddr m.giaddr #v[a, b, c, d, e, f] options := rfl
      _ = { m with options := options } := by rw [hxid, hsecs, hflags, ← hmac]

/-- **When a message reads back from the wire**, whatever is behind it: exactly when each
of its options fits the byte its length has. -/
theorem decode_encode_iff {m : DhcpMessage} (h : ∀ o ∈ m.options, o.Plain) (rest : Bytes) :
    decode (m.encode ++ rest) = .ok m ↔ ∀ o ∈ m.options, o.payload.length ≤ 255 := by
  rw [← Options.decode_encode_iff h rest, encode, List.append_assoc _ _ rest, decode_header]
  constructor
  · intro hdec
    split at hdec
    · cases hdec
    · rename_i options hopts
      rw [hopts, ← congrArg DhcpMessage.options (Except.ok.inj hdec)]
  · intro hopts
    rw [hopts]

/-- What a datagram that decodes holds: the fields of its option area one by one. -/
theorem options_of_decode {buf : Bytes} {m : DhcpMessage} (h : decode buf = .ok m) :
    ∃ fs, Tlv.raw pad endOption (buf.drop minLen) = some fs ∧
      m.options = fs.map (fun f => DhcpOption.decodeOne f.1 f.2) ∧
      ∀ f ∈ fs, f.1 ≠ pad ∧ f.1 ≠ endOption ∧ f.2.length ≤ 255 := by
  unfold decode at h
  split_ifs at h
  split at h
  · cases h
  split at h
  · cases h
  rename_i options hopts
  cases h
  unfold Options.decode at hopts
  split at hopts
  · rename_i os hos
    cases hopts
    exact Tlv.fields_eq_map_raw hos
  · cases hopts

/-- Every host name and domain name of the datagram, read as text, has at most 255 bytes.
What is no UTF-8 is read as replacement characters, of three bytes each. -/
def TextsFit (buf : Bytes) : Prop :=
  ∀ fs, Tlv.raw pad endOption (buf.drop minLen) = some fs →
    ∀ f ∈ fs, f.1 = 12 ∨ f.1 = 15 → (Text.toBytes (fromUtf8Lossy f.2)).length ≤ 255

/-- **When a decoded datagram survives being written again.** -/
theorem decode_encode_of_decode_iff {buf : Bytes} {m : DhcpMessage} (h : decode buf = .ok m) :
    decode m.encode = .ok m ↔ TextsFit buf := by
  obtain ⟨fs, hfs, hopts, hall⟩ := options_of_decode h
  have hplain : ∀ o ∈ m.options, o.Plain := by
    rw [hopts]
    intro o ho
    obtain ⟨f, hf, rfl⟩ := List.mem_map.1 ho
    exact DhcpOption.plain_decodeOne (hall f hf).1 (hall f hf).2.1 f.2
  have hiff := decode_encode_iff hplain []
  rw [List.append_nil] at hiff
  rw [hiff, hopts, List.forall_mem_map]
  constructor
  · intro hshort fs' hfs' f hf htext
    rw [hfs] at hfs'
    cases hfs'
    rw [← DhcpOption.payload_decodeOne_text htext]
    exact hshort f hf
  · intro hfit f hf
    by_cases htext : f.1 = 12 ∨ f.1 = 15
    · rw [DhcpOption.payload_decodeOne_text htext]
      exact hfit fs hfs f hf htext
    · rw [not_or] at htext
      exact DhcpOption.length_payload_decodeOne_le (hall f hf).2.2 htext.1 htext.2

end DhcpMessage

end Ferrite.Dhcp
