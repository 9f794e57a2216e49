import Ferrite.Core.Net
import Ferrite.Core.Walk

/-!
# Decoded messages and the client's query

What the pipeline takes from the DNS crate: the decoded form of a message, and the
codec between it and the wire.  The codec is a parameter, `Codec`; what a result
needs of it is named there (`Codec.KeepsQuestion`, `Codec.KeepsTtls`), and
`Codec.ofRows` is a codec given by the messages it knows.

`dns/src/query.rs` and the two readers of `dns/src/handler.rs` that look at a query
before it is decided: the name asked for with its type, and the DO bit.
-/

namespace Ferrite.Dns

open Bytes

/-! ## Decoded messages -/

/-- A domain name as the DNS crate holds it: its labels. -/
abbrev Name := List Bytes

/-- `Name::to_lowercase`. -/
def Name.toLowercase (n : Name) : Name :=
  n.map fun label => label.map fun b : UInt8 => if 0x41 ≤ b ∧ b ≤ 0x5A then b + 0x20 else b

/-- `SvcParamKey::EchConfigList`. -/
def echConfigList : UInt16 := 5

/-- The data of an SVCB or HTTPS record. -/
structure Svcb where
  svcPriority : UInt16
  targetName : Name
  svcParams : List (UInt16 × Bytes)
deriving DecidableEq, Repr

/-- `RData`, as far as the pipeline tells record types apart. -/
inductive RData where
  | a (ip : Ipv4Addr)
  | aaaa (ip : Ipv6Addr)
  | cname (target : Name)
  | ptr (target : Name)
  | soa (mname rname : Name) (serial : UInt32) (refresh retry expire : Int32) (minimum : UInt32)
  | svcb (data : Svcb)
  | https (data : Svcb)
  | other (rtype : UInt16) (data : Bytes)
deriving DecidableEq, Repr

/-- A resource record. -/
structure Record where
  name : Name
  dnsClass : UInt16
  ttl : UInt32
  data : RData
deriving DecidableEq, Repr

/-- `Record::from_rdata`: class IN. -/
def Record.fromRdata (name : Name) (ttl : UInt32) (data : RData) : Record := ⟨name, 1, ttl, data⟩

/-- A question. -/
structure Query where
  name : Name
  queryType : UInt16
  queryClass : UInt16
deriving DecidableEq, Repr

/-- `Query::query`: class IN. -/
def Query.query (name : Name) (queryType : UInt16) : Query := ⟨name, queryType, 1⟩

/-- The header fields that are not counts. -/
structure Metadata where
  id : UInt16
  isResponse : Bool
  opCode : UInt8
  authoritative : Bool
  truncation : Bool
  recursionDesired : Bool
  recursionAvailable : Bool
  authenticData : Bool
  checkingDisabled : Bool
  responseCode : UInt16
deriving DecidableEq, Repr

/-- The EDNS0 data of a message. -/
structure Edns where
  rcodeHigh : UInt8
  version : UInt8
  dnssecOk : Bool
  maxPayload : UInt16
  options : List (UInt16 × Bytes)
deriving DecidableEq, Repr

/-- `Edns::new`. -/
def Edns.new : Edns := ⟨0, 0, false, 512, []⟩

/-- A decoded message; the OPT record and the SIG(0) or TSIG record stand apart from the
additional ones. -/
structure Message where
  metadata : Metadata
  queries : List Query
  answers : List Record
  authorities : List Record
  additionals : List Record
  signature : List Record
  edns : Option Edns
deriving DecidableEq, Repr

/-- `Message::new`. -/
def Message.new (id : UInt16) (isResponse : Bool) : Message :=
  ⟨⟨id, isResponse, 0, false, false, false, false, false, false, 0⟩, [], [], [], [], [], none⟩

/-- `Message::response` for a QUERY. -/
def Message.response (id : UInt16) : Message := Message.new id true

/-- Every record of a message, in wire order. -/
def Message.records (m : Message) : List Record :=
  m.answers ++ m.authorities ++ m.additionals ++ m.signature

/-- RCODEs the pipeline answers with. -/
def noError : UInt16 := 0
def servFail : UInt16 := 2
def nxDomain : UInt16 := 3
def refused : UInt16 := 5

/-! ## The codec -/

/-- What comes from the DNS crate and the standard library's Unicode tables:
`Message::from_bytes` and `to_bytes`, `Name::from_str` and `from_ascii`,
`Name::to_utf8`, and `str::to_lowercase`. -/
structure Codec where
  fromBytes : Bytes → Option Message
  toBytes : Message → Option Bytes
  nameFromStr : Text → Option Name
  nameFromAscii : Text → Option Name
  toUtf8 : Name → Text
  strToLowercase : Text → Text

/-- The RD bit of a header. -/
def recursionDesired (msg : Bytes) : Bool := msg.byteAt 2 &&& 0x01 ≠ 0

/-- The CD bit of a header. -/
def checkingDisabled (msg : Bytes) : Bool := msg.byteAt 3 &&& 0x10 ≠ 0

/-- QDCOUNT. -/
def questionCount (msg : Bytes) : UInt16 := msg.readU16 4

/-- The class of the first question. -/
def questionClass (msg : Bytes) : Option UInt16 :=
  (Wire.questionEnd msg).map fun stop => msg.readU16 (stop - 2)

/-- The header of the bytes says what the decoded message does. -/
structure HeaderOf (bytes : Bytes) (m : Message) : Prop where
  recursionDesired : recursionDesired bytes = m.metadata.recursionDesired
  checkingDisabled : checkingDisabled bytes = m.metadata.checkingDisabled
  questionCount : (questionCount bytes).toNat = m.queries.length

/-- The codec reads and writes the RD and CD bits, the number of questions and the
class of the first one as the wire has them. -/
structure Codec.KeepsQuestion (codec : Codec) : Prop where
  decoded : ∀ {bytes m}, codec.fromBytes bytes = some m → HeaderOf bytes m
  encoded : ∀ {m bytes}, codec.toBytes m = some bytes → HeaderOf bytes m
  decodedClass : ∀ {bytes m c}, codec.fromBytes bytes = some m → questionClass bytes = some c →
    m.queries.head?.map Query.queryClass = some c
  encodedClass : ∀ {m bytes c}, codec.toBytes m = some bytes →
    m.queries.head?.map Query.queryClass = some c → questionClass bytes = some c

/-- Messages the codec builds walk cleanly, and the TTLs of their records are those
of the message.  The OPT pseudo-record stands for the EDNS data and has none. -/
def Codec.KeepsTtls (codec : Codec) : Prop :=
  ∀ {m bytes}, codec.toBytes m = some bytes → ∃ rs, Wire.walk bytes = some (rs, true) ∧
    ∀ r ∈ rs, r.rtype ≠ Wire.typeOpt → ∃ rec ∈ m.records, rec.ttl = bytes.readU32 r.ttlOff

/-- A codec that knows the messages of a table, and no names. -/
def Codec.ofRows (rows : List (Bytes × Message)) : Codec where
  fromBytes bytes := (rows.find? fun row => row.1 = bytes).map Prod.snd
  toBytes m := (rows.find? fun row => row.2 = m).map Prod.fst
  nameFromStr _ := none
  nameFromAscii _ := none
  toUtf8 _ := []
  strToLowercase := id

theorem mem_rows_of_fromBytes {rows : List (Bytes × Message)} {bytes : Bytes} {m : Message}
    (h : (Codec.ofRows rows).fromBytes bytes = some m) : (bytes, m) ∈ rows := by
  obtain ⟨row, hrow, rfl⟩ := Option.map_eq_some_iff.1 h
  have hb : row.1 = bytes := by simpa using List.find?_some hrow
  exact hb ▸ List.mem_of_find?_eq_some hrow

theorem mem_rows_of_toBytes {rows : List (Bytes × Message)} {bytes : Bytes} {m : Message}
    (h : (Codec.ofRows rows).toBytes m = some bytes) : (bytes, m) ∈ rows := by
  obtain ⟨row, hrow, rfl⟩ := Option.map_eq_some_iff.1 h
  have hm : row.2 = m := by simpa using List.find?_some hrow
  exact hm ▸ List.mem_of_find?_eq_some hrow

theorem keepsQuestion_ofRows {rows : List (Bytes × Message)}
    (h : ∀ row ∈ rows, recursionDesired row.1 = row.2.metadata.recursionDesired ∧
      checkingDisabled row.1 = row.2.metadata.checkingDisabled ∧
      (questionCount row.1).toNat = row.2.queries.length ∧
      questionClass row.1 = row.2.queries.head?.map Query.queryClass) :
    (Codec.ofRows rows).KeepsQuestion where
  decoded hm := by
    obtain ⟨hrd, hcd, hcount, -⟩ := h _ (mem_rows_of_fromBytes hm)
    exact ⟨hrd, hcd, hcount⟩
  encoded hm := by
    obtain ⟨hrd, hcd, hcount, -⟩ := h _ (mem_rows_of_toBytes hm)
    exact ⟨hrd, hcd, hcount⟩
  decodedClass hm hc := (h _ (mem_rows_of_fromBytes hm)).2.2.2.symm.trans hc
  encodedClass hm hc := (h _ (mem_rows_of_toBytes hm)).2.2.2.trans hc

theorem keepsTtls_ofRows {rows : List (Bytes × Message)}
    (h : ∀ row ∈ rows, ((Wire.walk row.1).any fun w => w.2 && w.1.all fun r =>
      r.rtype == Wire.typeOpt || row.2.records.any fun rec => rec.ttl == row.1.readU32 r.ttlOff) =
        true) : (Codec.ofRows rows).KeepsTtls := by
  intro m bytes hm
  obtain ⟨⟨rs, ok⟩, hw, hall⟩ := Option.any_eq_true _ _ |>.1 (h _ (mem_rows_of_toBytes hm))
  rw [Bool.and_eq_true, List.all_eq_true] at hall
  obtain ⟨hok, hall⟩ := hall
  simp only at hok
  subst hok
  refine ⟨rs, hw, fun r hr hopt => ?_⟩
  have hr := hall r hr
  rw [Bool.or_eq_true, List.any_eq_true] at hr
  rcases hr with hr | ⟨rec, hrec, httl⟩
  · exact absurd (beq_iff_eq.1 hr) hopt
  · exact ⟨rec, hrec, beq_iff_eq.1 httl⟩

/-! ## The client's query -/

/-- `LazyQuery::id`. -/
def queryId (raw : Bytes) : UInt16 := if 2 ≤ raw.length then raw.readU16 0 else 0

/-- `question`: the name asked for, lowercase without the root dot, and its type.  An
escaped or IDN name is rendered by the codec. -/
def question (codec : Codec) (raw : Bytes) : Option (Text × UInt16) :=
  match Wire.question raw with
  | .found name qtype => some (name, qtype)
  | .unsupported => do
    let m ← codec.fromBytes raw
    let q ← m.queries.head?
    return ((codec.toUtf8 q.name.toLowercase).trimEndMatches (· == '.'), q.queryType)
  | .missing => none

/-- `dnssec_ok`: did the client set the DO bit? -/
def dnssecOk (codec : Codec) (raw : Bytes) : Bool :=
  match Wire.edns raw with
  | .opt opt => opt.dnssecOk
  | .none => false
  | .malformed => ((codec.fromBytes raw).bind Message.edns).any Edns.dnssecOk

/-- `DnsSwitches`. -/
structure DnsSwitches where
  stripEcs : Bool
  dnssec : Bool
  firefoxCanary : Bool
  blockPrivateRelay : Bool
  stripEch : Bool
deriving DecidableEq, Repr

/-- `want_dnssec`: the client asked for signatures and the feature is on. -/
def wantDnssec (codec : Codec) (switches : DnsSwitches) (raw : Bytes) : Bool :=
  switches.dnssec && dnssecOk codec raw

end Ferrite.Dns
