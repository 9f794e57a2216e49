import Ferrite.Dns.Message
import Ferrite.Dns.Cache

/-!
# The query that is forwarded

`sanitize_query` of `dns/src/handler.rs`: the client's query with the DO bit forced
and, if the switch is on, the Client Subnet option dropped.  The two fields that are
normally touched lie in the OPT record's fixed part and are patched where they sit;
only the rest goes through the codec.

What is proved here:

* `asked_sanitizeQuery` — class, question count, RD and CD leave as they came;
* `forwarded_alike_iff` — two queries with one cache key are forwarded alike exactly
  when they were alike in those fields, which the key does not hold;
* `hasEcs_iff` — `has_ecs` finds a Client Subnet option wherever it stands in the list;
* `no_subnet_leaves_iff` — on the in-place path no subnet leaves exactly when no OPT
  record but the one `edns` looks at carries it.
-/

namespace Ferrite.Dns

open Bytes Wire

/-- The payload size advertised upstream when signatures are wanted. -/
def upstreamUdpPayload : UInt16 := 1232

/-- The fast path of `sanitize_query`; `none` where it goes through the codec. -/
def sanitizeInPlace (raw : Bytes) (stripEcs wantDo : Bool) : Option Bytes :=
  match edns raw with
  | .opt opt =>
    if stripEcs && opt.hasEcs then none
    else
      let out := setDnssecOk raw opt wantDo
      some (if wantDo then setUdpPayload out opt upstreamUdpPayload else out)
  | .none => if wantDo then none else some raw
  | .malformed => none

/-- What `sanitize_query` does to a decoded query. -/
def sanitizeMessage (m : Message) (stripEcs wantDo : Bool) : Message :=
  let stripped := if stripEcs then
      m.edns.map fun e => { e with options := e.options.filter fun o => o.1 ≠ optCodeEcs }
    else m.edns
  if wantDo then
    { m with edns := some { stripped.getD Edns.new with
        maxPayload := upstreamUdpPayload, dnssecOk := true } }
  else { m with edns := stripped.map fun e => { e with dnssecOk := false } }

/-- `sanitize_query`: on any parse or encode error the bytes go out as they came. -/
def sanitizeQuery (codec : Codec) (raw : Bytes) (stripEcs wantDo : Bool) : Bytes :=
  match sanitizeInPlace raw stripEcs wantDo with
  | some out => out
  | none =>
    match codec.fromBytes raw with
    | none => raw
    | some m => (codec.toBytes (sanitizeMessage m stripEcs wantDo)).getD raw

@[simp] theorem metadata_sanitizeMessage (m : Message) (stripEcs wantDo : Bool) :
    (sanitizeMessage m stripEcs wantDo).metadata = m.metadata := by
  unfold sanitizeMessage
  cases wantDo <;> rfl

@[simp] theorem queries_sanitizeMessage (m : Message) (stripEcs wantDo : Bool) :
    (sanitizeMessage m stripEcs wantDo).queries = m.queries := by
  unfold sanitizeMessage
  cases wantDo <;> rfl

/-- The flags byte with its DO bit forced. -/
def forceDo (wantDo : Bool) (flags : UInt8) : UInt8 :=
  if wantDo then flags ||| 0x80 else flags &&& 0x7F

/-- The query with the record at `off` (its TTL field) made to ask. -/
def patchOpt (wantDo : Bool) (raw : Bytes) (off : ℕ) : Bytes :=
  let out := raw.overwrite (off + 2) [forceDo wantDo (raw.byteAt (off + 2))]
  if wantDo then out.overwrite (off - 2) (ofU16 upstreamUdpPayload) else out

/-- The in-place path patches the first OPT record, or finds none and none wanted. -/
theorem sanitizeInPlace_eq_some_iff {raw out : Bytes} {stripEcs wantDo : Bool} :
    sanitizeInPlace raw stripEcs wantDo = some out ↔
      ∃ rs, walk raw = some (rs, true) ∧
        ((rs.find? RecordRef.isEdns = none ∧ wantDo = false ∧ out = raw) ∨
          ∃ r, rs.find? RecordRef.isEdns = some r ∧
            (stripEcs && hasEcs raw r.rdataOff r.rdataLen) = false ∧
            out = patchOpt wantDo raw r.ttlOff) := by
  unfold sanitizeInPlace
  rcases hw : walk raw with _ | ⟨rs, ok⟩
  · simp [edns, hw]
  · cases ok with
    | false => simp [edns, hw]
    | true =>
      simp only [Option.some.injEq, Prod.mk.injEq, and_true, exists_eq_left']
      cases hf : rs.find? RecordRef.isEdns with
      | none =>
        simp only [edns, hw, hf, Option.ite_none_left_eq_some, Option.some.injEq, true_and,
          reduceCtorEq, false_and, exists_false, or_false, Bool.not_eq_true, eq_comm (a := raw)]
      | some r =>
        simp only [edns, hw, hf, Option.ite_none_left_eq_some, Option.some.injEq, reduceCtorEq,
          false_and, false_or, exists_eq_left', Bool.not_eq_true]
        exact and_congr_right' eq_comm

@[simp] theorem length_patchOpt (wantDo : Bool) (raw : Bytes) (off : ℕ) :
    (patchOpt wantDo raw off).length = raw.length := by
  cases wantDo <;> simp [patchOpt]

/-- The offset lies in a field of the record that is written: the flags, or the payload size. -/
def Written (wantDo : Bool) (r : RecordRef) (i : ℕ) : Prop :=
  i = r.ttlOff + 2 ∨ (wantDo = true ∧ r.ttlOff - 2 ≤ i ∧ i < r.ttlOff)

theorem getElem?_patchOpt_of_not_written {wantDo : Bool} {raw : Bytes} {r : RecordRef} {i : ℕ}
    (h2 : 2 ≤ r.ttlOff) (hi : ¬ Written wantDo r i) :
    (patchOpt wantDo raw r.ttlOff)[i]? = raw[i]? := by
  simp only [Written, not_or, not_and] at hi
  have hflags : (raw.overwrite (r.ttlOff + 2)
      [forceDo wantDo (raw.byteAt (r.ttlOff + 2))])[i]? = raw[i]? := by
    rcases Nat.lt_or_gt_of_ne hi.1 with hlt | hgt
    · exact getElem?_overwrite_of_lt hlt
    · exact getElem?_overwrite_of_ge hgt
  cases wantDo with
  | false => exact hflags
  | true =>
    rw [← hflags]
    by_cases hlt : i < r.ttlOff - 2
    · exact getElem?_overwrite_of_lt hlt
    · refine getElem?_overwrite_of_ge ?_
      have := hi.2 rfl (by omega)
      simp only [ofU16, List.length_cons, List.length_nil]
      omega

/-- What is written of a record lies in its CLASS and TTL fields. -/
theorem inHead_of_written {wantDo : Bool} {r : RecordRef} {i : ℕ} (h : Written wantDo r i) :
    r.inHead i := by
  simp only [Written] at h
  simp only [RecordRef.inHead]
  omega

/-- **The in-place path.**  It is taken on messages that walk cleanly; it changes
nothing but the CLASS and TTL fields of the record `edns` finds, and with
`strip_ecs` that record carries no subnet. -/
theorem sanitizeInPlace_spec {raw out : Bytes} {stripEcs wantDo : Bool}
    (h : sanitizeInPlace raw stripEcs wantDo = some out) :
    ∃ rs, walk raw = some (rs, true) ∧ out.length = raw.length ∧
      (∀ i, (∀ r ∈ rs.find? RecordRef.isEdns, ¬ r.inHead i) → out[i]? = raw[i]?) ∧
      (stripEcs = true →
        ∀ r ∈ rs.find? RecordRef.isEdns, hasEcs raw r.rdataOff r.rdataLen = false) := by
  obtain ⟨rs, hw, ⟨hf, -, rfl⟩ | ⟨r, hf, hecs, rfl⟩⟩ := sanitizeInPlace_eq_some_iff.1 h
  · refine ⟨rs, hw, rfl, fun _ _ => rfl, fun _ r hr => ?_⟩
    rw [hf] at hr
    cases hr
  · have hb := walk_bounds hw (List.mem_of_find?_eq_some hf)
    refine ⟨rs, hw, length_patchOpt .., ?_, ?_⟩ <;> rw [hf]
    · intro i hi
      exact getElem?_patchOpt_of_not_written (by omega) fun hwr => hi r rfl (inHead_of_written hwr)
    · rintro rfl r' hr'
      cases hr'
      exact hecs

/-! ## What the upstream is asked -/

/-- What of a query can change its answer, besides the name, the type and the DO bit. -/
structure Asked where
  qclass : Option UInt16
  qdcount : UInt16
  rd : Bool
  cd : Bool
deriving DecidableEq, Repr

/-- The fields of `Asked` on the wire. -/
def asked (raw : Bytes) : Asked :=
  ⟨questionClass raw, questionCount raw, recursionDesired raw, checkingDisabled raw⟩

theorem questionEnd_of_question {codec : Codec} {raw : Bytes} {q : Text × UInt16}
    (h : question codec raw = some q) : ∃ stop, questionEnd raw = some stop := by
  cases hend : questionEnd raw with
  | some stop => exact ⟨stop, rfl⟩
  | none =>
    have hmissing : Wire.question raw = .missing := by
      unfold Wire.question
      rw [hend]
      split
      · rfl
      · cases readNameLower raw headerLen <;> rfl
    simp [question, hmissing] at h

theorem asked_agree {raw out : Bytes} {stop : ℕ} (h : questionEnd raw = some stop)
    (hag : AgreeOn raw out 0 stop) (hlen : out.length = raw.length) : asked out = asked raw := by
  have hstop : 12 ≤ stop := by
    obtain ⟨-, -, -, i, hname, rfl⟩ := questionEnd_eq_some_iff.1 h
    have hlt := (skipNameFrom_bounds (skipNameFrom_of_questionNameEnd hname)).1
    simp only [headerLen] at hlt
    omega
  simp only [asked, questionClass, questionCount, recursionDesired, checkingDisabled,
    questionEnd_agree h hag hlen, h, Option.map_some]
  rw [hag.readU16 (Nat.zero_le _) (by omega), hag.readU16 (Nat.zero_le _) (by omega),
    hag.byteAt (Nat.zero_le _) (by omega), hag.byteAt (Nat.zero_le _) (by omega)]

/-- Class, question count, RD and CD leave as they came. -/
theorem asked_sanitizeQuery {codec : Codec} (hcodec : codec.KeepsQuestion) {raw : Bytes}
    {q : Text × UInt16} (hq : question codec raw = some q) (stripEcs wantDo : Bool) :
    asked (sanitizeQuery codec raw stripEcs wantDo) = asked raw := by
  obtain ⟨stop, hstop⟩ := questionEnd_of_question hq
  unfold sanitizeQuery
  cases hfast : sanitizeInPlace raw stripEcs wantDo with
  | some out =>
    obtain ⟨rs, hw, hlen, hrest, -⟩ := sanitizeInPlace_spec hfast
    -- the patched fields lie behind the first question
    refine asked_agree hstop (fun i _ hi => hrest i fun r hr hin => ?_) hlen
    have := questionEnd_lt_of_inHead hstop hw (List.mem_of_find?_eq_some hr) hin
    omega
  | none =>
    cases hdec : codec.fromBytes raw with
    | none => rfl
    | some m =>
      cases henc : codec.toBytes (sanitizeMessage m stripEcs wantDo) with
      | none => simp [henc]
      | some out =>
        have hin := hcodec.decoded hdec
        have hout := hcodec.encoded henc
        have hclass : questionClass raw = some (raw.readU16 (stop - 2)) := by
          simp [questionClass, hstop]
        have hclass' : questionClass out = some (raw.readU16 (stop - 2)) :=
          hcodec.encodedClass henc (by simpa using hcodec.decodedClass hdec hclass)
        have hcount : questionCount out = questionCount raw := by
          apply UInt16.toNat_inj.1
          rw [hout.questionCount, hin.questionCount, queries_sanitizeMessage]
        simp only [henc, Option.getD_some, asked, hclass, hclass', hcount,
          hout.recursionDesired, hin.recursionDesired, hout.checkingDisabled,
          hin.checkingDisabled, metadata_sanitizeMessage]

/-! ## One key, one question? -/

/-- The cache key `decide` looks a query up under; `none` for a query it cannot read. -/
def cacheKeyOf (codec : Codec) (switches : DnsSwitches) (raw : Bytes) : Option Text :=
  (question codec raw).map fun q =>
    DnsCache.cacheKey q.1 q.2 (wantDnssec codec switches raw)

/-- The query `resolve_upstream` sends for a client's query. -/
def forwarded (codec : Codec) (switches : DnsSwitches) (raw : Bytes) : Bytes :=
  sanitizeQuery codec raw switches.stripEcs (wantDnssec codec switches raw)

/-- `decide` maps the two queries to one cache key. -/
def SameKey (codec : Codec) (switches : DnsSwitches) (q₁ q₂ : Bytes) : Prop :=
  ∃ key, cacheKeyOf codec switches q₁ = some key ∧ cacheKeyOf codec switches q₂ = some key

theorem asked_forwarded {codec : Codec} (hcodec : codec.KeepsQuestion) {switches : DnsSwitches}
    {raw : Bytes} {key : Text} (h : cacheKeyOf codec switches raw = some key) :
    asked (forwarded codec switches raw) = asked raw := by
  obtain ⟨q, hq, -⟩ := Option.map_eq_some_iff.1 h
  exact asked_sanitizeQuery hcodec hq _ _

/-- **Sharing an answer.**  Two queries with one cache key ask the upstream the same
question in the same mode exactly when they came in with the same class, question
count, RD and CD. -/
theorem forwarded_alike_iff {codec : Codec} (hcodec : codec.KeepsQuestion)
    (switches : DnsSwitches) {q₁ q₂ : Bytes} (hkey : SameKey codec switches q₁ q₂) :
    asked (forwarded codec switches q₁) = asked (forwarded codec switches q₂) ↔
      asked q₁ = asked q₂ := by
  obtain ⟨key, h₁, h₂⟩ := hkey
  rw [asked_forwarded hcodec h₁, asked_forwarded hcodec h₂]

namespace Example

/-- A query for `x`, type A, with the given flag bytes, class and OPT records. -/
def query (flags : Bytes) (qclass : UInt8) (opts : List Bytes) : Bytes :=
  [0x12, 0x34] ++ flags ++ [0, 1, 0, 0, 0, 0, 0, UInt8.ofNat opts.length] ++
    [1, 0x78, 0, 0, 1, 0, qclass] ++ opts.flatten

/-- An OPT record of payload size 1232 with the given options. -/
def opt (options : Bytes) : Bytes :=
  [0, 0, 41, 0x04, 0xD0, 0, 0, 0, 0, 0, UInt8.ofNat options.length] ++ options

/-- The subnet `192.0.2.0/24` as a Client Subnet option. -/
def subnet : Bytes := [0, 8, 0, 7, 0, 1, 24, 0, 192, 0, 2]

/-- Recursion desired, checking enabled: what a stub sends. -/
def stub : Bytes := query [0x01, 0x00] 1 []

/-- The same query with checking disabled, as a validating client sends it. -/
def validating : Bytes := query [0x01, 0x10] 1 []

/-- The same query in class CH. -/
def chaos : Bytes := query [0x01, 0x00] 3 []

/-- The decoded form of such a query. -/
def decoded (cd : Bool) (qclass : UInt16) (edns : Option Edns) : Message :=
  { Message.new 0x1234 false with
    metadata := { (Message.new 0x1234 false).metadata with
      recursionDesired := true, checkingDisabled := cd }
    queries := [⟨[[0x78]], 1, qclass⟩]
    edns := edns }

/-- The EDNS data of payload size 1232 with the given options. -/
def ednsWith (options : List (UInt16 × Bytes)) : Option Edns :=
  some { Edns.new with maxPayload := 1232, options := options }

/-- The codec on these queries, and on the query without its subnet. -/
def codec : Codec := .ofRows
  [(stub, decoded false 1 none), (validating, decoded true 1 none), (chaos, decoded false 3 none),
    (query [0x01, 0x00] 1 [opt subnet], decoded false 1 (ednsWith [(8, subnet.drop 4)])),
    (query [0x01, 0x00] 1 [opt []], decoded false 1 (ednsWith []))]

def switches : DnsSwitches := ⟨true, true, true, true, true⟩

end Example

/-- The key holds neither the CD bit nor the class: the validating client and the CH
query share the stub's entry, and the upstream is asked something else for each. -/
theorem shared_key_asks_differently :
    SameKey Example.codec Example.switches Example.stub Example.validating ∧
      (asked (forwarded Example.codec Example.switches Example.stub)).cd ≠
        (asked (forwarded Example.codec Example.switches Example.validating)).cd ∧
      SameKey Example.codec Example.switches Example.stub Example.chaos ∧
      (asked (forwarded Example.codec Example.switches Example.stub)).qclass ≠
        (asked (forwarded Example.codec Example.switches Example.chaos)).qclass := by
  refine ⟨⟨['x', '/', '1'], ?_, ?_⟩, ?_, ⟨['x', '/', '1'], ?_, ?_⟩, ?_⟩ <;> decide +kernel

/-- A query that carries a subnet goes through the codec, the stub's is forwarded as
it came, and the upstream is asked the same. -/
theorem subnet_and_stub_asked_alike :
    asked (forwarded Example.codec Example.switches
        (Example.query [0x01, 0x00] 1 [Example.opt Example.subnet])) =
      asked (forwarded Example.codec Example.switches Example.stub) := by
  have hcodec : Example.codec.KeepsQuestion := keepsQuestion_ofRows (by decide +kernel)
  refine (forwarded_alike_iff hcodec Example.switches ⟨['x', '/', '1'], ?_, ?_⟩).2 ?_ <;>
    decide +kernel

/-! ## No client subnet leaves -/

/-- An option starts at `j` in the option list that runs from `i` to `stop`: each
option is a code, a length and as many bytes. -/
inductive OptionAt (msg : Bytes) (stop : ℕ) : ℕ → ℕ → Prop
  | here {i : ℕ} : i + 4 ≤ stop → OptionAt msg stop i i
  | later {i j : ℕ} : i + 4 ≤ stop → OptionAt msg stop (i + 4 + (msg.readU16 (i + 2)).toNat) j →
      OptionAt msg stop i j

/-- The option list of the record's RDATA has a Client Subnet option. -/
def CarriesEcs (msg : Bytes) (r : RecordRef) : Prop :=
  ∃ j, OptionAt msg (r.rdataOff + r.rdataLen) r.rdataOff j ∧ msg.readU16 j = optCodeEcs

/-- No OPT record, in any section, carries a Client Subnet option. -/
def NoEcs (msg : Bytes) : Prop :=
  ∀ rs ok, walk msg = some (rs, ok) → ∀ r ∈ rs, r.rtype = typeOpt → ¬ CarriesEcs msg r

theorem OptionAt.start_le {msg : Bytes} {stop i j : ℕ} (h : OptionAt msg stop i j) :
    i + 4 ≤ stop := by
  cases h with
  | here h => exact h
  | later h _ => exact h

/-- The options are read from the RDATA only. -/
theorem OptionAt.agree {msg msg' : Bytes} {stop i j : ℕ} (h : OptionAt msg stop i j)
    (hag : AgreeOn msg msg' i stop) : OptionAt msg' stop i j ∧ msg'.readU16 j = msg.readU16 j := by
  induction h with
  | here hle => exact ⟨.here hle, hag.readU16 (Nat.le_refl _) (by omega)⟩
  | @later i j hle _ ih =>
    obtain ⟨hat, hcode⟩ := ih (hag.mono (by omega) (Nat.le_refl _))
    refine ⟨.later hle ?_, hcode⟩
    rwa [hag.readU16 (by omega : i ≤ i + 2) (by omega)]

/-- The loop of `has_ecs` sees every option, given a round for every byte left. -/
theorem hasEcsFrom_iff {msg : Bytes} {stop fuel i : ℕ} (hfuel : stop < i + fuel) :
    hasEcsFrom msg stop fuel i = true ↔
      ∃ j, OptionAt msg stop i j ∧ msg.readU16 j = optCodeEcs := by
  induction fuel generalizing i with
  | zero =>
    constructor
    · intro h
      cases h
    · rintro ⟨j, hj, -⟩
      have := hj.start_le
      omega
  | succ fuel ih =>
    unfold hasEcsFrom
    by_cases hle : i + 4 ≤ stop
    · rw [if_pos hle]
      by_cases hcode : msg.readU16 i = optCodeEcs
      · rw [if_pos hcode]
        exact ⟨fun _ => ⟨i, .here hle, hcode⟩, fun _ => rfl⟩
      · rw [if_neg hcode]
        have hlater : (∃ j, OptionAt msg stop i j ∧ msg.readU16 j = optCodeEcs) ↔
            ∃ j, OptionAt msg stop (i + 4 + (msg.readU16 (i + 2)).toNat) j ∧
              msg.readU16 j = optCodeEcs := by
          constructor
          · rintro ⟨j, hj, hc⟩
            cases hj with
            | here _ => exact absurd hc hcode
            | later _ hj => exact ⟨j, hj, hc⟩
          · rintro ⟨j, hj, hc⟩
            exact ⟨j, .later hle hj, hc⟩
        rw [hlater]
        by_cases hin : i + 4 + (msg.readU16 (i + 2)).toNat ≤ stop
        · rw [if_pos hin]
          exact ih (by omega)
        · rw [if_neg hin]
          constructor
          · intro h
            cases h
          · rintro ⟨j, hj, -⟩
            have := hj.start_le
            omega
    · rw [if_neg hle]
      constructor
      · intro h
        cases h
      · rintro ⟨j, hj, -⟩
        exact absurd hj.start_le hle

/-- `has_ecs` finds a Client Subnet option wherever it stands in the list. -/
theorem hasEcs_iff {msg : Bytes} {r : RecordRef} :
    hasEcs msg r.rdataOff r.rdataLen = true ↔ CarriesEcs msg r :=
  hasEcsFrom_iff (by omega)

theorem carriesEcs_agree {msg msg' : Bytes} {r : RecordRef}
    (hag : AgreeOn msg msg' r.rdataOff (r.rdataOff + r.rdataLen)) :
    CarriesEcs msg' r ↔ CarriesEcs msg r := by
  constructor
  · rintro ⟨j, hj, hcode⟩
    obtain ⟨hat, hread⟩ := hj.agree hag.symm
    exact ⟨j, hat, hread.trans hcode⟩
  · rintro ⟨j, hj, hcode⟩
    obtain ⟨hat, hread⟩ := hj.agree hag
    exact ⟨j, hat, hread.trans hcode⟩

/-- A patched query carries the subnets it came with. -/
theorem noEcs_sanitizeInPlace_iff {raw out : Bytes} {stripEcs wantDo : Bool}
    (h : sanitizeInPlace raw stripEcs wantDo = some out) : NoEcs out ↔ NoEcs raw := by
  obtain ⟨rs, hw, hlen, hrest, -⟩ := sanitizeInPlace_spec h
  have hwalk : walk out = some (rs.map (RecordRef.reread out), true) :=
    walk_frame hw hlen fun i hi => hrest i fun r hr => hi r (List.mem_of_find?_eq_some hr)
  have hecs : ∀ r ∈ rs, CarriesEcs out (r.reread out) ↔ CarriesEcs raw r := by
    intro r hr
    refine carriesEcs_agree fun i hi hi' => hrest i fun r₀ hr₀ hin => ?_
    -- the RDATA of one record lies outside the fixed part of another, and of its own
    have hr₀ := List.mem_of_find?_eq_some hr₀
    have hb := walk_bounds hw hr
    have hb₀ := walk_bounds hw hr₀
    simp only [RecordRef.inHead] at hin
    simp only [RecordRef.reread] at hi hi'
    rcases walk_apart hw hr hr₀ with rfl | hapart | hapart <;> omega
  constructor
  · intro hout rs' ok hw' r hr hopt hcarries
    obtain ⟨rfl, rfl⟩ := Prod.mk.inj (Option.some.inj (hw.symm.trans hw'))
    exact hout _ _ hwalk _ (List.mem_map.2 ⟨r, hr, rfl⟩) hopt ((hecs r hr).2 hcarries)
  · intro hraw rs' ok hw' r' hr' hopt hcarries
    obtain ⟨rfl, rfl⟩ := Prod.mk.inj (Option.some.inj (hwalk.symm.trans hw'))
    obtain ⟨r, hr, rfl⟩ := List.mem_map.1 hr'
    exact hraw _ _ hw r hr hopt ((hecs r hr).1 hcarries)

/-- **The subnet that is looked for.**  Where `sanitize_query` patches the query in
place, no Client Subnet option leaves exactly when none stands in an OPT record other
than the first of the additional section. -/
theorem no_subnet_leaves_iff (codec : Codec) {raw : Bytes} {wantDo : Bool}
    (hfast : (sanitizeInPlace raw true wantDo).isSome) :
    NoEcs (sanitizeQuery codec raw true wantDo) ↔
      ∀ rs ok, walk raw = some (rs, ok) → ∀ r ∈ rs, r.rtype = typeOpt →
        rs.find? RecordRef.isEdns ≠ some r → ¬ CarriesEcs raw r := by
  obtain ⟨out, hout⟩ := Option.isSome_iff_exists.1 hfast
  have hsan : sanitizeQuery codec raw true wantDo = out := by
    rw [sanitizeQuery, hout]
  rw [hsan, noEcs_sanitizeInPlace_iff hout]
  obtain ⟨rs, hw, -, -, hclean⟩ := sanitizeInPlace_spec hout
  constructor
  · intro hraw rs' ok hw' r hr hopt _
    exact hraw rs' ok hw' r hr hopt
  · intro hothers rs' ok hw' r hr hopt
    by_cases hfirst : rs'.find? RecordRef.isEdns = some r
    · obtain ⟨rfl, rfl⟩ := Prod.mk.inj (Option.some.inj (hw.symm.trans hw'))
      rw [← hasEcs_iff, hclean rfl r hfirst]
      exact Bool.false_ne_true
    · exact hothers rs' ok hw' r hr hopt hfirst

/-- Two OPT records, the subnet in the second: the query walks cleanly, is patched in
place, and the subnet leaves. -/
theorem second_opt_leaks_subnet :
    isWellFormed (Example.query [0x01, 0x00] 1 [Example.opt [], Example.opt Example.subnet]) =
        true ∧
      (sanitizeInPlace
        (Example.query [0x01, 0x00] 1 [Example.opt [], Example.opt Example.subnet])
        true false).isSome ∧
      ¬ NoEcs (sanitizeQuery Example.codec
        (Example.query [0x01, 0x00] 1 [Example.opt [], Example.opt Example.subnet])
        true false) := by
  refine ⟨by decide +kernel, by decide +kernel, fun h => ?_⟩
  refine h [⟨.additional, 41, 1232, 24, 30, 0⟩, ⟨.additional, 41, 1232, 35, 41, 11⟩] true
    (by decide +kernel) ⟨.additional, 41, 1232, 35, 41, 11⟩ (by decide) rfl ?_
  exact hasEcs_iff.1 (by decide +kernel)

/-- A query with one OPT record that holds a cookie keeps its subnet to itself. -/
theorem single_opt_keeps_subnet :
    NoEcs (sanitizeQuery Example.codec
      (Example.query [0x01, 0x00] 1 [Example.opt [0, 10, 0, 2, 0, 8]]) true true) := by
  refine (no_subnet_leaves_iff Example.codec (by decide +kernel)).2 fun rs ok hw r hr _ hne => ?_
  have hwalk : walk (Example.query [0x01, 0x00] 1 [Example.opt [0, 10, 0, 2, 0, 8]]) =
      some ([⟨.additional, 41, 1232, 24, 30, 6⟩], true) := by decide +kernel
  obtain ⟨rfl, -⟩ := Prod.mk.inj (Option.some.inj (hw.symm.trans hwalk))
  obtain rfl := List.mem_singleton.1 hr
  exact absurd (by decide) hne

end Ferrite.Dns
