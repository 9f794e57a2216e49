import Ferrite.Core.Addr
import Ferrite.Dns.Answers

/-!
# Custom records

`dns/src/custom.rs`: the operator's records, the built-in ones and the names of DHCP
leases, in that order, each list searched for the queried type before a CNAME is taken.
The operator's are read from the configuration at startup and changed by the panel.
-/

namespace Ferrite.Dns

def typeAny : UInt16 := 255

/-- `CustomRecord`. -/
structure CustomRecord where
  domain : Text
  isWildcard : Bool
  wildcardSuffix : Text
  recordType : UInt16
  rdata : RData
  ttl : UInt32
deriving DecidableEq, Repr

/-- Does the record's pattern cover the name? -/
def CustomRecord.nameMatch (r : CustomRecord) (name : Text) : Bool :=
  if r.isWildcard then r.wildcardSuffix.isSuffixOf name && name != r.domain else name == r.domain

/-- `find_record`: a record of the queried type, else a CNAME. -/
def findRecord (records : List CustomRecord) (name : Text) (wantType : UInt16) :
    Option CustomRecord :=
  match records.find? fun r => r.nameMatch name && (r.recordType == wantType || wantType == typeAny)
  with
  | some exact => some exact
  | none =>
    if wantType ≠ Wire.typeCname then
      records.find? fun r => r.nameMatch name && r.recordType == Wire.typeCname
    else none

/-- `build_response`. -/
def buildResponse (codec : Codec) (query : Message) (name : Text) (record : CustomRecord) :
    Option DnsResponse := do
  let fqdn := if name.getLast? = some '.' then name else name ++ ['.']
  let owner ← codec.nameFromStr fqdn
  let bytes ← codec.toBytes { replyTo query true noError with
    answers := [Record.fromRdata owner record.ttl record.rdata] }
  return ⟨bytes, record.ttl⟩

/-- `CustomRecords`. -/
structure CustomRecords where
  records : List CustomRecord
  builtinRecords : List CustomRecord
  leaseRecords : List CustomRecord
deriving DecidableEq, Repr

/-- `CustomRecords::lookup`: the first list with a record for the name answers, even
when the answer cannot be built. -/
def CustomRecords.lookup (c : CustomRecords) (codec : Codec) (raw : Bytes) (name : Text)
    (qtype : UInt16) : Option DnsResponse := do
  let record ← ((findRecord c.records name qtype).or (findRecord c.builtinRecords name qtype)).or
    (findRecord c.leaseRecords name qtype)
  let query ← codec.fromBytes raw
  buildResponse codec query name record

/-! ## The operator's records -/

/-- `CustomRecordConfig`: a record as it is written. -/
structure CustomRecordConfig where
  domain : Text
  recordType : Text
  value : Text
  ttl : UInt32
deriving DecidableEq, Repr

/-- `normalise` of `custom.rs`. -/
def CustomRecords.normalise (domain : Text) : Text :=
  domain.toAsciiLowercase.trimEndMatches (· == '.')

/-- The type a record is written with; `toUppercase` is `str::to_uppercase`. -/
def parseType (toUppercase : Text → Text) (recordType : Text) : Except Text UInt16 :=
  let upper := toUppercase recordType
  if upper = "A".toList then .ok typeA
  else if upper = "AAAA".toList then .ok typeAaaa
  else if upper = "CNAME".toList then .ok Wire.typeCname
  else .error ("unsupported record type '".toList ++ upper ++ ['\''])

/-- The data a record is written with, for its type. -/
def parseRdata (codec : Codec) (recordType : UInt16) (value : Text) : Except Text RData :=
  if recordType = typeA then
    match Reader.parse Reader.ipv4 value with
    | some ip => .ok (.a ip)
    | none => .error ("invalid IPv4 '".toList ++ value ++ "' for A record".toList)
  else if recordType = typeAaaa then
    match Reader.parse Reader.ipv6 value with
    | some ip => .ok (.aaaa ip)
    | none => .error ("invalid IPv6 '".toList ++ value ++ "' for AAAA record".toList)
  else
    match codec.nameFromStr value with
    | some target => .ok (.cname target)
    | none => .error ("invalid CNAME target '".toList ++ value ++ ['\''])

/-- `parse_record`. -/
def parseRecord (codec : Codec) (toUppercase : Text → Text) (cfg : CustomRecordConfig) :
    Except Text CustomRecord := do
  let domain := CustomRecords.normalise cfg.domain
  let (isWildcard, wildcardSuffix) := match domain with
    | '*' :: '.' :: rest => (true, '.' :: rest)
    | _ => (false, [])
  let recordType ← parseType toUppercase cfg.recordType
  let rdata ← parseRdata codec recordType cfg.value
  return ⟨domain, isWildcard, wildcardSuffix, recordType, rdata, cfg.ttl⟩

/-- `load_from_config`, into an empty list: what does not parse is left out. -/
def loadFromConfig (codec : Codec) (toUppercase : Text → Text) (cfgs : List CustomRecordConfig) :
    List CustomRecord :=
  cfgs.filterMap fun cfg => (parseRecord codec toUppercase cfg).toOption

/-- Are the two records for the same domain and type? -/
def CustomRecord.sameKey (r r' : CustomRecord) : Bool :=
  r.domain == r'.domain && r.recordType == r'.recordType

/-- `CustomRecords::add`: a record replaces those of its domain and type. -/
def addTo (records : List CustomRecord) (record : CustomRecord) : List CustomRecord :=
  (records.filter fun r => !r.sameKey record) ++ [record]

/-- `CustomRecords::remove`, and whether there was anything to remove. -/
def removeFrom (records : List CustomRecord) (domain : Text) : List CustomRecord × Bool :=
  let kept := records.filter fun r => r.domain != CustomRecords.normalise domain
  (kept, kept.length < records.length)

/-- What a record that was read has of the text. -/
theorem parseRecord_eq_ok {codec : Codec} {toUppercase : Text → Text} {cfg : CustomRecordConfig}
    {r : CustomRecord} (h : parseRecord codec toUppercase cfg = .ok r) :
    r.domain = CustomRecords.normalise cfg.domain ∧
      parseType toUppercase cfg.recordType = .ok r.recordType := by
  unfold parseRecord at h
  cases htype : parseType toUppercase cfg.recordType with
  | error e => simp [htype, bind, Except.bind] at h
  | ok recordType =>
    cases hdata : parseRdata codec recordType cfg.value with
    | error e => simp [htype, hdata, bind, Except.bind] at h
    | ok rdata =>
      simp only [htype, hdata, bind, Except.bind, pure, Except.pure, Except.ok.injEq] at h
      subst h
      exact ⟨rfl, rfl⟩

/-- A custom answer was built by the codec. -/
theorem clean_lookup {codec : Codec} (hcodec : codec.KeepsTtls) {c : CustomRecords} {raw : Bytes}
    {name : Text} {qtype : UInt16} {resp : DnsResponse}
    (h : c.lookup codec raw name qtype = some resp) : Clean resp.bytes := by
  simp only [CustomRecords.lookup, buildResponse, Option.bind_eq_bind, Option.bind_eq_some_iff] at h
  obtain ⟨_, -, _, -, _, -, bytes, hbytes, hresp⟩ := h
  cases hresp
  exact hcodec.clean hbytes

end Ferrite.Dns
