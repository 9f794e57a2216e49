import Ferrite.Dns.Message
import Ferrite.Dns.Cache

/-!
# Answers ferrite makes up

The answers of `dns/src/handler.rs` that come from no upstream — a negative answer
with its SOA, an error, an address for a blocked name — each in two forms: written
straight onto the wire for the ordinary query with one readable question, and through
the codec for the rest.  Beside them the answers other parts build: the SafeSearch
chain (`dns/src/safesearch.rs`), an answer with ECH taken out and the canaries
(`dns/src/anti_doh.rs`), and the proxy's redirect (`proxy/src/lib.rs`).

What is proved here: `buildNegative_ttls`, `buildError_ttls` and `buildBlocked_ttls` —
whatever the query, these answers are empty or walk cleanly, and no record in them
outlives the TTL they were built with.
-/

namespace Ferrite.Dns

open Bytes Wire

/-! ## Lifetimes in an answer -/

/-- Nothing at all, or a message that walks cleanly. -/
def Clean (msg : Bytes) : Prop := msg = [] ∨ ∃ rs, walk msg = some (rs, true)

/-- The answer is empty, or walks cleanly to records of which none but OPT has a TTL
above `ttl`. -/
def TtlsAtMost (ttl : UInt32) (msg : Bytes) : Prop :=
  msg = [] ∨ ∃ rs, walk msg = some (rs, true) ∧
    ∀ r ∈ rs, r.rtype ≠ typeOpt → msg.readU32 r.ttlOff ≤ ttl

theorem TtlsAtMost.clean {ttl : UInt32} {msg : Bytes} (h : TtlsAtMost ttl msg) : Clean msg := by
  rcases h with h | ⟨rs, hw, -⟩
  · exact Or.inl h
  · exact Or.inr ⟨rs, hw⟩

/-- What the codec builds has the TTLs of the message, or is not there. -/
theorem Codec.KeepsTtls.encoded {codec : Codec} (hcodec : codec.KeepsTtls) {m : Message}
    {ttl : UInt32} (h : ∀ rec ∈ m.records, rec.ttl ≤ ttl) :
    TtlsAtMost ttl ((codec.toBytes m).getD []) := by
  cases henc : codec.toBytes m with
  | none => exact Or.inl rfl
  | some bytes =>
    obtain ⟨rs, hw, hrs⟩ := hcodec henc
    refine Or.inr ⟨rs, hw, fun r hr hopt => ?_⟩
    obtain ⟨rec, hrec, httl⟩ := hrs r hr hopt
    rw [Option.getD_some, ← httl]
    exact h rec hrec

theorem Codec.KeepsTtls.clean {codec : Codec} (hcodec : codec.KeepsTtls) {m : Message}
    {bytes : Bytes} (h : codec.toBytes m = some bytes) : Clean bytes := by
  obtain ⟨rs, hw, -⟩ := hcodec h
  exact Or.inr ⟨rs, hw⟩

theorem Codec.KeepsTtls.clean_getD {codec : Codec} (hcodec : codec.KeepsTtls) (m : Message) :
    Clean ((codec.toBytes m).getD []) := by
  cases h : codec.toBytes m with
  | none => exact Or.inl rfl
  | some bytes => exact hcodec.clean h

/-! ## Onto the wire -/

/-- `ResponseCode::low`: the four bits of an RCODE that stand in the header. -/
def rcodeLow (rcode : UInt16) : UInt8 := UInt8.ofNat (rcode.toNat % 16)

/-- The header and question of a query turned into those of its answer: QR, the given
AA bit, RD echoed, RA, the RCODE and the record counts.  `none` for a query with no
readable question, or more than one. -/
def replyHead (raw : Bytes) (flags : UInt8) (rcode : UInt16) (counts : Bytes) : Option Bytes :=
  match questionEnd raw with
  | none => none
  | some qEnd =>
    if raw.readU16 4 ≠ 1 then none
    else
      let flagged := overwrite (raw.take qEnd) 2
        [flags ||| (raw.byteAt 2 &&& 0x01), 0x80 ||| rcodeLow rcode]
      some (flagged.overwrite 6 counts)

/-- One record of class IN for the name in the question, which is pointed to. -/
def recordOnWire (rtype : UInt16) (ttl : UInt32) (rdata : Bytes) : Bytes :=
  [0xC0, UInt8.ofNat headerLen] ++ ofU16 rtype ++ ofU16 1 ++ ofU32 ttl ++
    ofU16 (UInt16.ofNat rdata.length) ++ rdata

theorem length_replyHead {raw head : Bytes} {flags : UInt8} {rcode : UInt16} {counts : Bytes}
    (h : replyHead raw flags rcode counts = some head) : questionEnd raw = some head.length := by
  unfold replyHead at h
  split at h
  · cases h
  · rename_i qEnd hq
    have hle := (questionEnd_eq_some_iff.1 hq).2.2.1
    split at h
    · cases h
    · cases h
      rw [hq, length_overwrite, length_overwrite, List.length_take, Nat.min_eq_left hle]

/-- Past the flags and the counts, the head is the query's own. -/
theorem replyHead_agree {raw head : Bytes} {flags : UInt8} {rcode : UInt16} {counts : Bytes}
    (hcounts : counts.length = 6) (h : replyHead raw flags rcode counts = some head) {i : ℕ}
    (hi : i < head.length) (hout : i < 2 ∨ (4 ≤ i ∧ i < 6) ∨ 12 ≤ i) : head[i]? = raw[i]? := by
  have hlen := length_replyHead h
  unfold replyHead at h
  rw [hlen] at h
  simp only [Option.ite_none_left_eq_some] at h
  obtain ⟨-, h⟩ := h
  have htake : (raw.take head.length)[i]? = raw[i]? := List.getElem?_take_of_lt hi
  rw [← htake]
  generalize head.length = n at h
  rw [← Option.some.inj h]
  rcases hout with hlt | hmid | hge
  · rw [getElem?_overwrite_of_lt (by omega), getElem?_overwrite_of_lt hlt]
  · rw [getElem?_overwrite_of_lt hmid.2, getElem?_overwrite_of_ge]
    simp only [List.length_cons, List.length_nil]
    omega
  · rw [getElem?_overwrite_of_ge (by omega), getElem?_overwrite_of_ge]
    simp only [List.length_cons, List.length_nil]
    omega

theorem byteAt_replyHead_counts {raw head : Bytes} {flags : UInt8} {rcode : UInt16}
    {counts : Bytes} (hcounts : counts.length = 6)
    (h : replyHead raw flags rcode counts = some head) {k : ℕ} (hk : k < 6) :
    head.byteAt (6 + k) = counts.byteAt k := by
  have hlen := length_replyHead h
  have hle := (questionEnd_eq_some_iff.1 hlen).2.2.1
  obtain ⟨-, -, -, i, hname, hstop⟩ := questionEnd_eq_some_iff.1 hlen
  have hlt := (skipNameFrom_bounds (skipNameFrom_of_questionNameEnd hname)).1
  simp only [headerLen] at hlt
  unfold replyHead at h
  rw [hlen] at h
  simp only [Option.ite_none_left_eq_some] at h
  have htake : (raw.take head.length).length = head.length := by
    rw [List.length_take, Nat.min_eq_left hle]
  generalize head.length = n at h htake hstop
  rw [← Option.some.inj h.2]
  exact byteAt_overwrite counts k (by omega) (by rw [length_overwrite, htake]; omega)

theorem rcodeLow_bits (rcode : UInt16) : (0x80 ||| rcodeLow rcode) &&& 0x0F = rcodeLow rcode := by
  have hall : ∀ n < 16, ((0x80 : UInt8) ||| UInt8.ofNat n) &&& 0x0F = UInt8.ofNat n := by
    decide
  exact hall _ (Nat.mod_lt _ (by omega))

/-- Whatever follows the head, the four bits of the RCODE are in it. -/
theorem code_replyHead {raw head : Bytes} {flags : UInt8} {rcode : UInt16} {counts : Bytes}
    (h : replyHead raw flags rcode counts = some head) (tail : Bytes) :
    (head ++ tail).byteAt 3 &&& 0x0F = rcodeLow rcode := by
  have hlen := length_replyHead h
  have hle := (questionEnd_eq_some_iff.1 hlen).2.2.1
  obtain ⟨-, -, -, i, hname, hstop⟩ := questionEnd_eq_some_iff.1 hlen
  have hlt := (skipNameFrom_bounds (skipNameFrom_of_questionNameEnd hname)).1
  simp only [headerLen] at hlt
  have hhead : (head ++ tail).byteAt 3 = head.byteAt 3 := by
    rw [byteAt, byteAt, List.getElem?_append_left (by omega)]
  unfold replyHead at h
  rw [hlen] at h
  simp only [Option.ite_none_left_eq_some] at h
  have htake : (raw.take head.length).length = head.length := by
    rw [List.length_take, Nat.min_eq_left hle]
  -- the counts are written behind the flags
  have hbyte : head.byteAt 3 = 0x80 ||| rcodeLow rcode := by
    generalize head.length = n at h htake hstop
    have hflags := @byteAt_overwrite (raw.take n) 2
      [flags ||| (raw.byteAt 2 &&& 0x01), 0x80 ||| rcodeLow rcode] 1 (by simp)
      (by simp only [List.length_cons, List.length_nil]; omega)
    rw [← Option.some.inj h.2, byteAt, getElem?_overwrite_of_lt (by omega)]
    exact hflags
  rw [hhead, hbyte, rcodeLow_bits]

/-- The cursor over an answer made from `replyHead` starts behind the question, with
the counts that were written. -/
theorem new_replyHead {raw head : Bytes} {flags : UInt8} {rcode : UInt16} {counts : Bytes}
    (hcounts : counts.length = 6) (h : replyHead raw flags rcode counts = some head)
    (tail : Bytes) :
    RecordCursor.new (head ++ tail) = some ⟨head.length, (counts.readU16 0).toNat,
      (counts.readU16 2).toNat, (counts.readU16 4).toNat⟩ := by
  have hend := length_replyHead h
  obtain ⟨-, -, hle, i, hname, hstop⟩ := questionEnd_eq_some_iff.1 hend
  have hlt := (skipNameFrom_bounds (skipNameFrom_of_questionNameEnd hname)).1
  have h12 : headerLen = 12 := rfl
  have happ := agreeOn_append head tail 0
  have hcount : ∀ k, k + 2 ≤ 6 → (head ++ tail).readU16 (6 + k) = counts.readU16 k := by
    intro k hk
    rw [happ.readU16 (Nat.zero_le _) (by omega)]
    simp only [readU16]
    rw [byteAt_replyHead_counts hcounts h (by omega : k < 6), Nat.add_assoc,
      byteAt_replyHead_counts hcounts h (by omega : k + 1 < 6)]
  have hone : (head ++ tail).readU16 4 = 1 := by
    have hag : AgreeOn raw head 4 6 :=
      fun j hj hj' => replyHead_agree hcounts h (by omega) (Or.inr (Or.inl ⟨hj, hj'⟩))
    rw [happ.readU16 (Nat.zero_le _) (by omega), hag.readU16 (Nat.le_refl _) (Nat.le_refl _)]
    unfold replyHead at h
    rw [hend] at h
    simp only [Option.ite_none_left_eq_some, not_ne_iff] at h
    exact h.1
  have hag : AgreeOn raw (head ++ tail) headerLen head.length := by
    intro j hj hj'
    rw [happ j (Nat.zero_le _) hj']
    exact replyHead_agree hcounts h hj' (Or.inr (Or.inr hj))
  rw [new_of_question hend hag (by rw [List.length_append]; omega) hone]
  rw [← hcount 0 (by omega), ← hcount 2 (by omega), ← hcount 4 (by omega)]

/-- A record written with `recordOnWire` reads back. -/
theorem readRecord_recordOnWire (head : Bytes) (sec : Section) (rtype : UInt16) (ttl : UInt32)
    {rdata : Bytes} (hlen : rdata.length < 2 ^ 16) :
    readRecord (head ++ recordOnWire rtype ttl rdata) sec head.length =
        some (⟨sec, rtype, 1, head.length + 6, head.length + 12, rdata.length⟩,
          head.length + 12 + rdata.length) ∧
      (head ++ recordOnWire rtype ttl rdata).readU32 (head.length + 6) = ttl := by
  have hsize : (recordOnWire rtype ttl rdata).length = 12 + rdata.length := by
    simp [recordOnWire, ofU16, ofU32]
    omega
  have hname : skipName (head ++ recordOnWire rtype ttl rdata) head.length =
      some (head.length + 2) := by
    have h0 : (head ++ recordOnWire rtype ttl rdata)[head.length]? = some 0xC0 := by
      rw [List.getElem?_append_right (Nat.le_refl _), Nat.sub_self]
      rfl
    unfold skipName skipNameFrom
    simp only [h0]
    rw [if_neg (by decide), if_pos (by decide),
      if_pos (by rw [List.length_append]; omega)]
  have htype : (head ++ recordOnWire rtype ttl rdata).readU16 (head.length + 2) = rtype := by
    rw [readU16_append_right head _ rfl]
    simp only [recordOnWire, List.append_assoc]
    rw [readU16_append_right [0xC0, UInt8.ofNat headerLen] _ (i := 2) (k := 0) rfl]
    exact readU16_ofU16_append rtype _
  have hclass : (head ++ recordOnWire rtype ttl rdata).readU16 (head.length + 2 + 2) = 1 := by
    rw [Nat.add_assoc, readU16_append_right head _ rfl]
    simp only [recordOnWire, List.append_assoc]
    rw [readU16_append_right [0xC0, UInt8.ofNat headerLen] _ (i := 4) (k := 2) rfl,
      readU16_append_right (ofU16 rtype) _ (i := 2) (k := 0) rfl]
    exact readU16_ofU16_append 1 _
  have hrdlen : (head ++ recordOnWire rtype ttl rdata).readU16 (head.length + 2 + 8) =
      UInt16.ofNat rdata.length := by
    rw [Nat.add_assoc, readU16_append_right head _ rfl]
    simp only [recordOnWire, List.append_assoc]
    rw [readU16_append_right [0xC0, UInt8.ofNat headerLen] _ (i := 10) (k := 8) rfl,
      readU16_append_right (ofU16 rtype) _ (i := 8) (k := 6) rfl,
      readU16_append_right (ofU16 1) _ (i := 6) (k := 4) rfl,
      readU16_append_right (ofU32 ttl) _ (i := 4) (k := 0) rfl]
    exact readU16_ofU16_append _ _
  have hnat : (UInt16.ofNat rdata.length).toNat = rdata.length := by
    rw [UInt16.toNat_ofNat', Nat.mod_eq_of_lt hlen]
  constructor
  · refine readRecord_eq_some_iff.2 ⟨head.length + 2, hname, ?_, ?_, ?_⟩
    · rw [htype, hclass, hrdlen, hnat]
    · rw [hrdlen, hnat]
    · rw [List.length_append]
      omega
  · rw [readU32_append_right head _ rfl]
    simp only [recordOnWire, List.append_assoc]
    rw [readU32_append_right [0xC0, UInt8.ofNat headerLen] _ (i := 6) (k := 4) rfl,
      readU32_append_right (ofU16 rtype) _ (i := 4) (k := 2) rfl,
      readU32_append_right (ofU16 1) _ (i := 2) (k := 0) rfl]
    exact readU32_ofU32_append ttl _

/-! ## Through the codec -/

/-- An answer to a decoded query: its id, RD bit and questions echoed, RA set. -/
def replyTo (query : Message) (authoritative : Bool) (rcode : UInt16) : Message :=
  let resp := Message.response query.metadata.id
  { resp with
    metadata := { resp.metadata with
      authoritative := authoritative
      recursionDesired := query.metadata.recursionDesired
      recursionAvailable := true
      responseCode := rcode }
    queries := query.queries }

/-! ## Errors -/

/-- `error_on_wire`. -/
def errorOnWire (raw : Bytes) (rcode : UInt16) : Option Bytes :=
  replyHead raw 0x80 rcode [0, 0, 0, 0, 0, 0]

/-- `error_encoded`; empty when the query does not decode. -/
def errorEncoded (codec : Codec) (raw : Bytes) (rcode : UInt16) : Bytes :=
  match codec.fromBytes raw with
  | none => []
  | some decoded => (codec.toBytes (replyTo decoded false rcode)).getD []

/-- `build_error`: an answer that is only an RCODE. -/
def buildError (codec : Codec) (raw : Bytes) (rcode : UInt16) : Bytes :=
  (errorOnWire raw rcode).getD (errorEncoded codec raw rcode)

/-- `build_servfail`. -/
def buildServfail (codec : Codec) (raw : Bytes) : Bytes := buildError codec raw servFail

theorem walk_errorOnWire {raw out : Bytes} {rcode : UInt16} (h : errorOnWire raw rcode = some out) :
    walk out = some ([], true) := by
  have hnew := new_replyHead rfl h []
  rw [List.append_nil] at hnew
  exact walk_eq_some_iff.2 ⟨_, hnew, rfl⟩

theorem buildError_ttls {codec : Codec} (hcodec : codec.KeepsTtls) (raw : Bytes) (rcode : UInt16)
    (ttl : UInt32) : TtlsAtMost ttl (buildError codec raw rcode) := by
  unfold buildError
  cases hwire : errorOnWire raw rcode with
  | some out => exact Or.inr ⟨[], walk_errorOnWire hwire, fun r hr => by cases hr⟩
  | none =>
    show TtlsAtMost ttl (errorEncoded codec raw rcode)
    unfold errorEncoded
    cases codec.fromBytes raw with
    | none => exact Or.inl rfl
    | some decoded => exact hcodec.encoded fun rec hrec => by cases hrec

/-! ## Negative answers -/

/-- `SOA_ADMIN_NAME`: `ferrite.invalid.` on the wire. -/
def soaAdminName : Bytes :=
  [7, 0x66, 0x65, 0x72, 0x72, 0x69, 0x74, 0x65, 7, 0x69, 0x6E, 0x76, 0x61, 0x6C, 0x69, 0x64, 0]

/-- The RDATA of the synthetic SOA that follows a question ending at `qEnd`: MNAME,
an RNAME pointing at it, the serial, and four times the TTL. -/
def soaRdata (qEnd : ℕ) (ttl : UInt32) : Bytes :=
  soaAdminName ++ ofU16 (0xC000 ||| UInt16.ofNat (qEnd + 12)) ++ ofU32 1 ++
    ofU32 ttl ++ ofU32 ttl ++ ofU32 ttl ++ ofU32 ttl

/-- `negative_on_wire`. -/
def negativeOnWire (raw : Bytes) (ttl : UInt32) (rcode : UInt16) : Option Bytes :=
  (replyHead raw 0x84 rcode [0, 0, 0, 1, 0, 0]).map fun head =>
    head ++ recordOnWire typeSoa ttl (soaRdata head.length ttl)

/-- `negative_encoded`. -/
def negativeEncoded (codec : Codec) (raw : Bytes) (ttl : UInt32) (rcode : UInt16) : Bytes :=
  match codec.fromBytes raw with
  | none => []
  | some decoded =>
    let resp := replyTo decoded true rcode
    let resp := match decoded.queries.head? with
      | some q =>
        let ns := (codec.nameFromAscii "ferrite.invalid.".toList).getD q.name
        let secs := ttl.toInt32
        let soa := Record.fromRdata q.name ttl (.soa ns ns 1 secs secs secs ttl)
        { resp with authorities := [soa] }
      | none => resp
    (codec.toBytes resp).getD []

/-- `build_negative`: NXDOMAIN or NODATA, with the SOA that bounds negative caching. -/
def buildNegative (codec : Codec) (raw : Bytes) (ttl : UInt32) (rcode : UInt16) : Bytes :=
  (negativeOnWire raw ttl rcode).getD (negativeEncoded codec raw ttl rcode)

/-- `build_nxdomain`. -/
def buildNxdomain (codec : Codec) (raw : Bytes) (ttl : UInt32) : Bytes :=
  buildNegative codec raw ttl nxDomain

/-- One record behind a head that announces one walks to that record. -/
theorem walk_recordOnWire {raw head : Bytes} {flags : UInt8} {rcode : UInt16} {counts : Bytes}
    {sec : Section} {c : RecordCursor} (hcounts : counts.length = 6)
    (h : replyHead raw flags rcode counts = some head)
    (hpop : RecordCursor.pop ⟨head.length, (counts.readU16 0).toNat, (counts.readU16 2).toNat,
      (counts.readU16 4).toNat⟩ = some (sec, c))
    (hleft : RecordCursor.left ⟨head.length, (counts.readU16 0).toNat, (counts.readU16 2).toNat,
      (counts.readU16 4).toNat⟩ = 1)
    (rtype : UInt16) (ttl : UInt32) {rdata : Bytes} (hlen : rdata.length < 2 ^ 16) :
    walk (head ++ recordOnWire rtype ttl rdata) =
      some ([⟨sec, rtype, 1, head.length + 6, head.length + 12, rdata.length⟩], true) := by
  obtain ⟨hread, -⟩ := readRecord_recordOnWire head sec rtype ttl hlen
  have hnew := new_replyHead hcounts h (recordOnWire rtype ttl rdata)
  refine walk_eq_some_iff.2 ⟨_, hnew, ?_⟩
  rw [hleft]
  simp [walkFrom, RecordCursor.next, hpop, hread]

theorem ttls_recordOnWire {raw head : Bytes} {flags : UInt8} {rcode : UInt16} {counts : Bytes}
    {sec : Section} {c : RecordCursor} (hcounts : counts.length = 6)
    (h : replyHead raw flags rcode counts = some head)
    (hpop : RecordCursor.pop ⟨head.length, (counts.readU16 0).toNat, (counts.readU16 2).toNat,
      (counts.readU16 4).toNat⟩ = some (sec, c))
    (hleft : RecordCursor.left ⟨head.length, (counts.readU16 0).toNat, (counts.readU16 2).toNat,
      (counts.readU16 4).toNat⟩ = 1)
    (rtype : UInt16) (ttl : UInt32) {rdata : Bytes} (hlen : rdata.length < 2 ^ 16) :
    TtlsAtMost ttl (head ++ recordOnWire rtype ttl rdata) := by
  obtain ⟨-, httl⟩ := readRecord_recordOnWire head sec rtype ttl hlen
  refine Or.inr ⟨_, walk_recordOnWire hcounts h hpop hleft rtype ttl hlen, fun r hr _ => ?_⟩
  obtain rfl := List.mem_singleton.1 hr
  rw [httl]
  exact UInt32.le_refl ttl

theorem negativeOnWire_ttls {raw out : Bytes} {ttl : UInt32} {rcode : UInt16}
    (h : negativeOnWire raw ttl rcode = some out) : TtlsAtMost ttl out := by
  obtain ⟨head, hhead, rfl⟩ := Option.map_eq_some_iff.1 h
  exact ttls_recordOnWire rfl hhead rfl rfl _ _ (by simp [soaRdata, soaAdminName, ofU16, ofU32])

theorem buildNegative_ttls {codec : Codec} (hcodec : codec.KeepsTtls) (raw : Bytes) (ttl : UInt32)
    (rcode : UInt16) : TtlsAtMost ttl (buildNegative codec raw ttl rcode) := by
  unfold buildNegative
  cases hwire : negativeOnWire raw ttl rcode with
  | some out => exact negativeOnWire_ttls hwire
  | none =>
    show TtlsAtMost ttl (negativeEncoded codec raw ttl rcode)
    unfold negativeEncoded
    cases codec.fromBytes raw with
    | none => exact Or.inl rfl
    | some decoded =>
      refine hcodec.encoded fun rec hrec => ?_
      cases hq : decoded.queries.head? with
      | none =>
        rw [hq] at hrec
        cases hrec
      | some q =>
        rw [hq] at hrec
        obtain rfl := List.mem_singleton.1 hrec
        exact UInt32.le_refl ttl

/-! ## Addresses -/

def typeA : UInt16 := 1
def typeAaaa : UInt16 := 28

/-- The record type and RDATA of an address. -/
def addressRdata : IpAddr → UInt16 × Bytes
  | .v4 ip => (typeA, ip.octets)
  | .v6 ip => (typeAaaa, ip.octets)

/-- `address_on_wire`. -/
def addressOnWire (raw : Bytes) (ip : IpAddr) (ttl : UInt32) : Option Bytes :=
  (replyHead raw 0x84 noError [0, 1, 0, 0, 0, 0]).map fun head =>
    head ++ recordOnWire (addressRdata ip).1 ttl (addressRdata ip).2

/-- The decoded data of an address record. -/
def RData.ofIp : IpAddr → RData
  | .v4 ip => .a ip
  | .v6 ip => .aaaa ip

/-- `address_encoded`. -/
def addressEncoded (codec : Codec) (raw : Bytes) (ip : IpAddr) (ttl : UInt32) : Bytes :=
  match codec.fromBytes raw with
  | none => []
  | some decoded =>
    let resp := replyTo decoded true noError
    let resp := match decoded.queries.head? with
      | some q => { resp with answers := [Record.fromRdata q.name ttl (.ofIp ip)] }
      | none => resp
    (codec.toBytes resp).getD []

/-- `build_address`. -/
def buildAddress (codec : Codec) (raw : Bytes) (ip : IpAddr) (ttl : UInt32) : Bytes :=
  (addressOnWire raw ip ttl).getD (addressEncoded codec raw ip ttl)

theorem length_addressRdata (ip : IpAddr) : (addressRdata ip).2.length < 2 ^ 16 := by
  cases ip with
  | v4 ip => simp [addressRdata, Ipv4Addr.octets]
  | v6 ip =>
    show ip.octets.length < 2 ^ 16
    rw [ip.length_octets]
    omega

theorem buildAddress_ttls {codec : Codec} (hcodec : codec.KeepsTtls) (raw : Bytes) (ip : IpAddr)
    (ttl : UInt32) : TtlsAtMost ttl (buildAddress codec raw ip ttl) := by
  unfold buildAddress
  cases hwire : addressOnWire raw ip ttl with
  | some out =>
    obtain ⟨head, hhead, rfl⟩ := Option.map_eq_some_iff.1 hwire
    exact ttls_recordOnWire rfl hhead rfl rfl _ _ (length_addressRdata ip)
  | none =>
    show TtlsAtMost ttl (addressEncoded codec raw ip ttl)
    unfold addressEncoded
    cases codec.fromBytes raw with
    | none => exact Or.inl rfl
    | some decoded =>
      refine hcodec.encoded fun rec hrec => ?_
      cases hq : decoded.queries.head? with
      | none =>
        rw [hq] at hrec
        cases hrec
      | some q =>
        rw [hq] at hrec
        obtain rfl := List.mem_singleton.1 hrec
        exact UInt32.le_refl ttl

/-! ## Blocked names -/

/-- `BlockResponse`. -/
inductive BlockResponse where
  | nxdomain
  | nodata
  | refused
  | nullIp
  | customIp
deriving DecidableEq, Repr

/-- `BlockAnswer`. -/
structure BlockAnswer where
  response : BlockResponse
  ipv4 : Option Ipv4Addr
  ipv6 : Option Ipv6Addr
deriving DecidableEq, Repr

/-- The address a blocked name resolves to, for the types that have one. -/
def blockAddress (qtype : UInt16) (answer : BlockAnswer) : Option IpAddr :=
  match answer.response with
  | .nullIp =>
    if qtype = typeA then some (.v4 .unspecified)
    else if qtype = typeAaaa then some (.v6 .unspecified)
    else none
  | .customIp =>
    if qtype = typeA then answer.ipv4.map .v4
    else if qtype = typeAaaa then answer.ipv6.map .v6
    else none
  | _ => none

/-- `build_blocked`: the answer for a blocked name, with its RCODE for the log. -/
def buildBlocked (codec : Codec) (raw : Bytes) (qtype : UInt16) (ttl : UInt32)
    (answer : BlockAnswer) : Bytes × UInt8 :=
  match answer.response with
  | .nxdomain => (buildNxdomain codec raw ttl, 3)
  | .refused => (buildError codec raw refused, 5)
  | _ =>
    match blockAddress qtype answer with
    | some ip => (buildAddress codec raw ip ttl, 0)
    | none => (buildNegative codec raw ttl noError, 0)

/-- **Blocked answers.**  In every block mode, nothing outlives the TTL. -/
theorem buildBlocked_ttls {codec : Codec} (hcodec : codec.KeepsTtls) (raw : Bytes)
    (qtype : UInt16) (ttl : UInt32) (answer : BlockAnswer) :
    TtlsAtMost ttl (buildBlocked codec raw qtype ttl answer).1 := by
  have hrest : TtlsAtMost ttl (match blockAddress qtype answer with
      | some ip => (buildAddress codec raw ip ttl, (0 : UInt8))
      | none => (buildNegative codec raw ttl noError, 0)).1 := by
    cases blockAddress qtype answer with
    | some ip => exact buildAddress_ttls hcodec raw ip ttl
    | none => exact buildNegative_ttls hcodec raw ttl noError
  unfold buildBlocked
  cases answer.response with
  | nxdomain => exact buildNegative_ttls hcodec raw ttl nxDomain
  | refused => exact buildError_ttls hcodec raw refused ttl
  | nodata => exact hrest
  | nullIp => exact hrest
  | customIp => exact hrest

/-! ## SafeSearch -/

/-- Lifetime of the synthetic CNAME. -/
def cnameTtl : UInt32 := 300

/-- `target_query`: a recursive query for the safe host. -/
def targetQuery (codec : Codec) (id : UInt16) (target : Text) (qtype : UInt16) : Option Bytes := do
  let name ← codec.nameFromStr (target ++ ['.'])
  let msg := Message.new id false
  codec.toBytes { msg with
    metadata := { msg.metadata with recursionDesired := true }
    queries := [Query.query name qtype] }

/-- `rewrite_answer`: the client's question, a CNAME to the safe host, and what the
upstream answered for it. -/
def rewriteAnswer (codec : Codec) (raw : Bytes) (name target : Text) (upstream : Bytes) :
    Option Bytes := do
  let asked ← codec.fromBytes raw
  let answered ← codec.fromBytes upstream
  let owner ← codec.nameFromStr (name ++ ['.'])
  let host ← codec.nameFromStr (target ++ ['.'])
  codec.toBytes { replyTo asked false answered.metadata.responseCode with
    answers := Record.fromRdata owner cnameTtl (.cname host) :: answered.answers
    authorities := answered.authorities }

theorem clean_rewriteAnswer {codec : Codec} (hcodec : codec.KeepsTtls) {raw : Bytes}
    {name target : Text} {upstream out : Bytes}
    (h : rewriteAnswer codec raw name target upstream = some out) : Clean out := by
  simp only [rewriteAnswer, Option.bind_eq_bind, Option.bind_eq_some_iff] at h
  obtain ⟨_, -, _, -, _, -, _, -, h⟩ := h
  exact hcodec.clean h

/-! ## Keeping devices on this resolver -/

/-- `canary`: the reason shown in the log, when the switch for the name is on. -/
def canary (name : Text) (switches : DnsSwitches) : Option Text :=
  if name = "use-application-dns.net".toList ∧ switches.firefoxCanary then
    some "canary:firefox-doh".toList
  else if name ∈ ["mask.icloud.com".toList, "mask-h2.icloud.com".toList] ∧
      switches.blockPrivateRelay then some "canary:private-relay".toList
  else none

/-- The record without its `ech` parameters. -/
def Record.withoutEch (r : Record) : Record :=
  match r.data with
  | .https d => { r with data := .https { d with
      svcParams := d.svcParams.filter fun p => p.1 ≠ echConfigList } }
  | .svcb d => { r with data := .svcb { d with
      svcParams := d.svcParams.filter fun p => p.1 ≠ echConfigList } }
  | _ => r

/-- The parameters of an HTTPS or SVCB record. -/
def Record.svcParams (r : Record) : List (UInt16 × Bytes) :=
  match r.data with
  | .https d | .svcb d => d.svcParams
  | _ => []

/-- `strip_ech`: `some` only when an `ech` parameter was removed. -/
def stripEch (codec : Codec) (bytes : Bytes) : Option Bytes := do
  let m ← codec.fromBytes bytes
  if m.answers.any fun r => r.withoutEch.svcParams.length != r.svcParams.length then
    codec.toBytes { m with answers := m.answers.map Record.withoutEch }
  else none

theorem clean_stripEch {codec : Codec} (hcodec : codec.KeepsTtls) {bytes out : Bytes}
    (h : stripEch codec bytes = some out) : Clean out := by
  simp only [stripEch, Option.bind_eq_bind, Option.bind_eq_some_iff,
    Option.ite_none_right_eq_some] at h
  obtain ⟨_, -, -, h⟩ := h
  exact hcodec.clean h

/-! ## The proxy's redirect -/

/-- The TTL of a redirect. -/
def synthTtl : UInt32 := 60

/-- `synth_response`: the advertised address, or NODATA for a type without one. -/
def synthResponse (codec : Codec) (query : Message) (qtype : UInt16) (v4 : Option Ipv4Addr)
    (v6 : Option Ipv6Addr) : DnsResponse :=
  let resp := replyTo query true noError
  let address := if qtype = typeA then v4.map RData.a
    else if qtype = typeAaaa then v6.map RData.aaaa
    else none
  let resp := match query.queries.head?, address with
    | some q, some data => { resp with answers := [Record.fromRdata q.name synthTtl data] }
    | _, _ => resp
  ⟨(codec.toBytes resp).getD [], synthTtl⟩

theorem clean_synthResponse {codec : Codec} (hcodec : codec.KeepsTtls) (query : Message)
    (qtype : UInt16) (v4 : Option Ipv4Addr) (v6 : Option Ipv6Addr) :
    Clean (synthResponse codec query qtype v4 v6).bytes :=
  hcodec.clean_getD _

end Ferrite.Dns
