import Ferrite.Dns.Accounting
import Ferrite.Dns.Ttl

/-!
# Keeping ECH keys from clients

A browser encrypts the name it connects to when the resolver hands it an `ech` parameter, in
an HTTPS or SVCB record.  With `strip_ech` on, the pipeline takes these parameters out of an
upstream's answer, in `resolve_upstream` and in a background refresh, when the client asked
for one of the two types.

An answer with a key in it gets past this in several ways: the client asked for another type,
the answer is for a SafeSearch host, the answer without the key does not encode, or it was in
the cache (or in flight) before the switch was turned.  `no_key_given` says there is no other:
over every run in which none of these happens, no answer to a query that came in with the
switch on has a key in it.  What is left of the argument is the cache: as long as the switch is
on, no entry of it has a key.
-/

namespace Ferrite.Dns

open Bytes Wire Mealy

variable {P : Type}

/-! ## Keys in a message -/

/-- No `ech` parameter among those of the record. -/
def Record.NoEch (r : Record) : Prop := ∀ p ∈ r.svcParams, p.1 ≠ echConfigList

/-- No HTTPS or SVCB record of the answer section has an `ech` parameter. -/
def Message.NoEch (m : Message) : Prop := ∀ r ∈ m.answers, r.NoEch

/-- What the pipeline relies on of the codec: what it writes it reads back, parameters and
all; it reads the same parameters whatever the id and the TTLs are; and it finds an HTTPS or
SVCB record only where the wire has one. -/
structure Codec.KeepsParams (codec : Codec) : Prop where
  empty : codec.fromBytes [] = none
  encoded : ∀ {m bytes}, codec.toBytes m = some bytes → ∃ m', codec.fromBytes bytes = some m' ∧
    ∀ r ∈ m'.answers, ∃ r₀ ∈ m.answers, r.svcParams = r₀.svcParams
  aged : ∀ {bytes m m'} (f : UInt32 → Option UInt32), codec.fromBytes bytes = some m →
    codec.fromBytes (rewriteTtls bytes f).1 = some m' →
      m'.answers.map Record.svcParams = m.answers.map Record.svcParams
  renumbered : ∀ {bytes m m'} (id : UInt16) (f : UInt32 → Option UInt32),
    codec.fromBytes bytes = some m → codec.fromBytes (rewriteTtls (setId bytes id) f).1 = some m' →
      m'.answers.map Record.svcParams = m.answers.map Record.svcParams
  typed : ∀ {bytes m rs}, codec.fromBytes bytes = some m → walk bytes = some (rs, true) →
    ∀ r ∈ m.answers, r.svcParams ≠ [] →
      ∃ x ∈ rs, x.inSection = .answer ∧ (x.rtype = 64 ∨ x.rtype = 65)

/-- What a client sees of the bytes has no key in it. -/
def Keyless (codec : Codec) (bytes : Bytes) : Prop :=
  ∀ m, codec.fromBytes bytes = some m → m.NoEch

/-- No answer on the wire is an HTTPS or SVCB record. -/
def NoSvcb (bytes : Bytes) : Prop :=
  bytes = [] ∨ ∃ rs, walk bytes = some (rs, true) ∧
    ∀ x ∈ rs, x.inSection = .answer → x.rtype ≠ 64 ∧ x.rtype ≠ 65

/-- The bytes are a message the codec reads, or one that holds no such record anyway. -/
def Known (codec : Codec) (bytes : Bytes) : Prop :=
  (codec.fromBytes bytes).isSome = true ∨ NoSvcb bytes

theorem Record.NoEch.congr {r r' : Record} (h : r.svcParams = r'.svcParams) (hr : r'.NoEch) :
    r.NoEch := by
  intro p hp
  exact hr p (h ▸ hp)

theorem Message.NoEch.congr {m m' : Message}
    (h : m'.answers.map Record.svcParams = m.answers.map Record.svcParams) (hm : m.NoEch) : m'.NoEch := by
  intro r hr
  have hmem : r.svcParams ∈ m.answers.map Record.svcParams := h ▸ List.mem_map_of_mem hr
  obtain ⟨r₀, hr₀, hparams⟩ := List.mem_map.1 hmem
  exact (hm r₀ hr₀).congr hparams.symm

section Codecs

variable {codec : Codec} (hcodec : codec.KeepsParams) {bytes : Bytes}

include hcodec

theorem NoSvcb.keyless (h : NoSvcb bytes) : Keyless codec bytes := by
  intro m hm r hr p hp
  rcases h with rfl | ⟨rs, hw, hrs⟩
  · rw [hcodec.empty] at hm
    cases hm
  · obtain ⟨x, hx, hanswer, htype⟩ :=
      hcodec.typed hm hw r hr (List.ne_nil_of_mem hp)
    obtain ⟨h64, h65⟩ := hrs x hx hanswer
    rcases htype with htype | htype
    · exact absurd htype h64
    · exact absurd htype h65

omit hcodec in
theorem NoSvcb.rewriteTtls (h : NoSvcb bytes) (f : UInt32 → Option UInt32) :
    NoSvcb (rewriteTtls bytes f).1 := by
  rcases h with rfl | ⟨rs, hw, hrs⟩
  · exact .inl rfl
  · exact .inr ⟨rs, (rewriteTtls_spec f hw).1, hrs⟩

omit hcodec in
theorem NoSvcb.setId (h : NoSvcb bytes) (id : UInt16) : NoSvcb (setId bytes id) := by
  rcases h with rfl | ⟨rs, hw, hrs⟩
  · exact .inl rfl
  · exact .inr ⟨rs, walk_setId hw id, hrs⟩

/-- TTLs may be rewritten. -/
theorem keyless_rewriteTtls (hknown : Known codec bytes) (h : Keyless codec bytes)
    (f : UInt32 → Option UInt32) : Keyless codec (rewriteTtls bytes f).1 := by
  rcases hknown with hsome | hnone
  · obtain ⟨m, hm⟩ := Option.isSome_iff_exists.1 hsome
    intro m' hm'
    exact (h m hm).congr (hcodec.aged f hm hm')
  · exact (hnone.rewriteTtls f).keyless hcodec

/-- So may the id, and then the TTLs. -/
theorem keyless_renumbered (hknown : Known codec bytes) (h : Keyless codec bytes) (id : UInt16)
    (f : UInt32 → Option UInt32) : Keyless codec (rewriteTtls (setId bytes id) f).1 := by
  rcases hknown with hsome | hnone
  · obtain ⟨m, hm⟩ := Option.isSome_iff_exists.1 hsome
    intro m' hm'
    exact (h m hm).congr (hcodec.renumbered id f hm hm')
  · exact ((hnone.setId id).rewriteTtls f).keyless hcodec

/-- What the codec writes of a message without keys has none. -/
theorem encoded_keyless {m : Message} (hm : m.NoEch) (h : codec.toBytes m = some bytes) :
    Known codec bytes ∧ Keyless codec bytes := by
  obtain ⟨m', hm', hparams⟩ := hcodec.encoded h
  refine ⟨.inl (by rw [hm']; rfl), fun m'' hm'' r hr => ?_⟩
  rw [hm'] at hm''
  cases hm''
  obtain ⟨r₀, hr₀, heq⟩ := hparams r hr
  exact (hm r₀ hr₀).congr heq

theorem encoded_keyless_getD {m : Message} (hm : m.NoEch) :
    Known codec ((codec.toBytes m).getD []) ∧ Keyless codec ((codec.toBytes m).getD []) := by
  cases henc : codec.toBytes m with
  | none => exact ⟨.inr (.inl rfl), NoSvcb.keyless hcodec (.inl rfl)⟩
  | some out => exact encoded_keyless hcodec hm henc

/-! ## Answers that are built -/

theorem keyless_buildError (raw : Bytes) (rcode : UInt16) :
    Known codec (buildError codec raw rcode) ∧ Keyless codec (buildError codec raw rcode) := by
  unfold buildError
  cases hwire : errorOnWire raw rcode with
  | some out =>
    have hnone : NoSvcb out := .inr ⟨[], walk_errorOnWire hwire, by simp⟩
    exact ⟨.inr hnone, hnone.keyless hcodec⟩
  | none =>
    rw [Option.getD_none, errorEncoded]
    cases codec.fromBytes raw with
    | none => exact ⟨.inr (.inl rfl), NoSvcb.keyless hcodec (.inl rfl)⟩
    | some decoded => exact encoded_keyless_getD hcodec (fun r hr => by cases hr)

theorem keyless_buildNegative (raw : Bytes) (ttl : UInt32) (rcode : UInt16) :
    Keyless codec (buildNegative codec raw ttl rcode) := by
  unfold buildNegative
  cases hwire : negativeOnWire raw ttl rcode with
  | some out =>
    obtain ⟨head, hhead, rfl⟩ := Option.map_eq_some_iff.1 hwire
    have hlen : (soaRdata head.length ttl).length < 2 ^ 16 := by
      simp [soaRdata, soaAdminName, ofU16, ofU32]
    have hw := walk_recordOnWire rfl hhead rfl rfl typeSoa ttl hlen
    refine NoSvcb.keyless hcodec (.inr ⟨_, hw, fun x hx hanswer => ?_⟩)
    obtain rfl := List.mem_singleton.1 hx
    cases hanswer
  | none =>
    rw [Option.getD_none, negativeEncoded]
    cases codec.fromBytes raw with
    | none => exact NoSvcb.keyless hcodec (.inl rfl)
    | some decoded =>
      refine (encoded_keyless_getD hcodec ?_).2
      cases decoded.queries.head? <;> exact fun r hr => by cases hr

theorem keyless_buildAddress (raw : Bytes) (ip : IpAddr) (ttl : UInt32) :
    Keyless codec (buildAddress codec raw ip ttl) := by
  unfold buildAddress
  cases hwire : addressOnWire raw ip ttl with
  | some out =>
    obtain ⟨head, hhead, rfl⟩ := Option.map_eq_some_iff.1 hwire
    have hw := walk_recordOnWire rfl hhead rfl rfl (addressRdata ip).1 ttl (length_addressRdata ip)
    refine NoSvcb.keyless hcodec (.inr ⟨_, hw, fun x hx _ => ?_⟩)
    obtain rfl := List.mem_singleton.1 hx
    cases ip <;> simp [addressRdata, typeA, typeAaaa]
  | none =>
    rw [Option.getD_none, addressEncoded]
    cases codec.fromBytes raw with
    | none => exact NoSvcb.keyless hcodec (.inl rfl)
    | some decoded =>
      refine (encoded_keyless_getD hcodec ?_).2
      cases decoded.queries.head? with
      | none => exact fun r hr => by cases hr
      | some q =>
        intro r hr
        obtain rfl := List.mem_singleton.1 hr
        cases ip <;> exact fun p hp => by cases hp

theorem keyless_buildBlocked (raw : Bytes) (qtype : UInt16) (ttl : UInt32) (answer : BlockAnswer) :
    Keyless codec (buildBlocked codec raw qtype ttl answer).1 := by
  unfold buildBlocked
  split
  · exact keyless_buildNegative hcodec raw ttl nxDomain
  · exact (keyless_buildError hcodec raw refused).2
  · split
    · exact keyless_buildAddress hcodec raw _ ttl
    · exact keyless_buildNegative hcodec raw ttl noError

/-- The proxy's redirect has addresses in it. -/
theorem keyless_synthResponse (query : Message) (qtype : UInt16) (v4 : Option Ipv4Addr)
    (v6 : Option Ipv6Addr) :
    Known codec (synthResponse codec query qtype v4 v6).bytes ∧
      Keyless codec (synthResponse codec query qtype v4 v6).bytes := by
  unfold synthResponse
  refine encoded_keyless_getD hcodec ?_
  split
  · next q data hq hdata =>
    intro r hr
    obtain rfl := List.mem_singleton.1 hr
    have haddress : (∃ ip, data = .a ip) ∨ ∃ ip, data = .aaaa ip := by
      split_ifs at hdata
      · obtain ⟨ip, -, rfl⟩ := Option.map_eq_some_iff.1 hdata
        exact .inl ⟨ip, rfl⟩
      · obtain ⟨ip, -, rfl⟩ := Option.map_eq_some_iff.1 hdata
        exact .inr ⟨ip, rfl⟩
    rcases haddress with ⟨ip, rfl⟩ | ⟨ip, rfl⟩ <;> exact fun p hp => by cases hp
  · exact fun r hr => by cases hr

/-- The SafeSearch chain has what the answer for the safe host has. -/
theorem keyless_rewriteAnswer {raw out upstream : Bytes} {name target : Text}
    (hup : Keyless codec upstream) (h : rewriteAnswer codec raw name target upstream = some out) :
    Known codec out ∧ Keyless codec out := by
  simp only [rewriteAnswer, Option.bind_eq_bind, Option.bind_eq_some_iff] at h
  obtain ⟨asked, -, answered, hanswered, owner, -, host, -, h⟩ := h
  refine encoded_keyless hcodec ?_ h
  intro r hr
  rcases List.mem_cons.1 hr with rfl | hr
  · exact fun p hp => by cases hp
  · exact hup answered hanswered r hr

/-! ## Taking the key out -/

omit hcodec in
theorem svcParams_withoutEch (r : Record) :
    r.withoutEch.svcParams = r.svcParams.filter fun p => p.1 ≠ echConfigList := by
  obtain ⟨name, dnsClass, ttl, data⟩ := r
  cases data <;> rfl

omit hcodec in
theorem noEch_withoutEch (r : Record) : r.withoutEch.NoEch := by
  intro p hp
  rw [svcParams_withoutEch] at hp
  exact of_decide_eq_true (List.mem_filter.1 hp).2

omit hcodec in
/-- A record that loses nothing had no key. -/
theorem noEch_of_length_eq {r : Record}
    (h : r.withoutEch.svcParams.length = r.svcParams.length) : r.NoEch := by
  intro p hp
  rw [svcParams_withoutEch, List.length_filter_eq_length_iff] at h
  exact of_decide_eq_true (h p hp)

/-- The answer without its keys encodes. -/
def Reencodes (codec : Codec) (bytes : Bytes) : Prop :=
  ∀ m, codec.fromBytes bytes = some m →
    (codec.toBytes { m with answers := m.answers.map Record.withoutEch }).isSome = true

/-- What stripping gives has no key. -/
theorem keyless_stripEch {out : Bytes} (h : stripEch codec bytes = some out) :
    Known codec out ∧ Keyless codec out := by
  simp only [stripEch, Option.bind_eq_bind, Option.bind_eq_some_iff,
    Option.ite_none_right_eq_some] at h
  obtain ⟨m, -, -, henc⟩ := h
  refine encoded_keyless hcodec ?_ henc
  intro r hr
  obtain ⟨r₀, -, rfl⟩ := List.mem_map.1 hr
  exact noEch_withoutEch r₀

omit hcodec in
/-- What stripping leaves alone, though it would encode, had none. -/
theorem keyless_of_stripEch_eq_none (hre : Reencodes codec bytes)
    (h : stripEch codec bytes = none) : Keyless codec bytes := by
  intro m hm r hr
  have hnot : ¬ (m.answers.any fun r => r.withoutEch.svcParams.length != r.svcParams.length) =
      true := by
    intro hany
    simp only [stripEch, hm, Option.bind_eq_bind, Option.bind_some, if_pos hany] at h
    have hsome := hre m hm
    rw [h] at hsome
    cases hsome
  refine noEch_of_length_eq ?_
  by_contra hne
  exact hnot (List.any_eq_true.2 ⟨r, hr, by simpa using hne⟩)

/-- The answer goes out without its keys: it has none, or the switch is on, the client
asked for HTTPS or SVCB records, and the answer without them encodes. -/
def Stripped (codec : Codec) (strip : Bool) (qtype : UInt16) (bytes : Bytes) : Prop :=
  Keyless codec bytes ∨
    (strip = true ∧ (qtype = 64 ∨ qtype = 65) ∧ Reencodes codec bytes)

theorem known_withoutEch (switches : DnsSwitches) (hknown : Known codec bytes) (qtype : UInt16) :
    Known codec (withoutEch codec switches bytes qtype) := by
  unfold withoutEch
  split_ifs
  · cases hech : stripEch codec bytes with
    | none => exact hknown
    | some out => exact (keyless_stripEch hcodec hech).1
  · exact hknown

theorem keyless_withoutEch (switches : DnsSwitches) {qtype : UInt16}
    (h : Stripped codec switches.stripEch qtype bytes) :
    Keyless codec (withoutEch codec switches bytes qtype) := by
  unfold withoutEch
  split_ifs with hon
  · cases hech : stripEch codec bytes with
    | some out => exact (keyless_stripEch hcodec hech).2
    | none =>
      rcases h with h | ⟨-, -, hre⟩
      · exact h
      · exact keyless_of_stripEch_eq_none hre hech
  · rcases h with h | ⟨hstrip, hqtype, -⟩
    · exact h
    · exact absurd ⟨hqtype, hstrip⟩ hon

end Codecs

/-! ## One query -/

/-- The data of a record of ferrite's own: an address or a name. -/
def RData.isCustom : RData → Bool
  | .a _ | .aaaa _ | .cname _ | .ptr _ => true
  | _ => false

/-- Every record of the three lists is of such data. -/
def CustomRecords.Written (c : CustomRecords) : Prop :=
  ∀ r ∈ c.records ++ c.builtinRecords ++ c.leaseRecords, r.rdata.isCustom = true

/-- A record that is read from the configuration is. -/
theorem isCustom_of_parseRecord {codec : Codec} {toUppercase : Text → Text}
    {cfg : CustomRecordConfig} {r : CustomRecord} (h : parseRecord codec toUppercase cfg = .ok r) :
    r.rdata.isCustom = true := by
  unfold parseRecord at h
  cases htype : parseType toUppercase cfg.recordType with
  | error e => simp [htype, bind, Except.bind] at h
  | ok recordType =>
    cases hdata : parseRdata codec recordType cfg.value with
    | error e => simp [htype, hdata, bind, Except.bind] at h
    | ok rdata =>
      simp only [htype, hdata, bind, Except.bind, pure, Except.pure, Except.ok.injEq] at h
      subst h
      unfold parseRdata at hdata
      split_ifs at hdata
      · split at hdata <;> cases hdata
        rfl
      · split at hdata <;> cases hdata
        rfl
      · split at hdata <;> cases hdata
        rfl

/-- Every answer in the cache is without keys. -/
def CacheKeyless (codec : Codec) (cache : DnsCache) : Prop :=
  ∀ e ∈ cache.entries, Keyless codec e.2.response.bytes

/-- Every answer in the cache is known. -/
def CacheKnown (codec : Codec) (cache : DnsCache) : Prop :=
  ∀ e ∈ cache.entries, Known codec e.2.response.bytes

/-- What the step adds to the cache has no key, and if the cache had none then neither has
the answer. -/
structure Outcome.Safe (codec : Codec) (cache : DnsCache) (o : Outcome P) : Prop where
  added : ∀ e ∈ o.cache.entries, e ∈ cache.entries ∨
    (Known codec e.2.response.bytes ∧ Keyless codec e.2.response.bytes)
  answered : CacheKnown codec cache → CacheKeyless codec cache →
    ∀ bytes, o.decision = .answer bytes → Keyless codec bytes

theorem mem_findRecord {records : List CustomRecord} {name : Text} {qtype : UInt16}
    {r : CustomRecord} (h : findRecord records name qtype = some r) : r ∈ records := by
  unfold findRecord at h
  split at h
  · next exact hfind =>
    cases h
    exact List.mem_of_find?_eq_some hfind
  · split_ifs at h
    exact List.mem_of_find?_eq_some h

theorem safe_or {codec : Codec} {cache : DnsCache} {a b : Option (Outcome P)}
    (ha : ∀ o ∈ a, o.Safe codec cache) (hb : ∀ o ∈ b, o.Safe codec cache) :
    ∀ o ∈ a.or b, o.Safe codec cache := by
  cases a with
  | some x => exact ha
  | none => exact hb

section Steps

variable {ctx : DnsCtx P} (hcodec : ctx.codec.KeepsParams) (cache : DnsCache) (q : Asking P)

include hcodec

theorem lookup_keyless (hwritten : ctx.customRecords.Written) {raw : Bytes} {name : Text}
    {qtype : UInt16} {resp : DnsResponse}
    (h : ctx.customRecords.lookup ctx.codec raw name qtype = some resp) :
    Known ctx.codec resp.bytes ∧ Keyless ctx.codec resp.bytes := by
  simp only [CustomRecords.lookup, buildResponse, Option.bind_eq_bind,
    Option.bind_eq_some_iff] at h
  obtain ⟨record, hrecord, query, -, owner, -, bytes, hbytes, hresp⟩ := h
  cases hresp
  have hmem : record ∈ ctx.customRecords.records ++ ctx.customRecords.builtinRecords ++
      ctx.customRecords.leaseRecords := by
    rw [List.mem_append, List.mem_append]
    rcases Option.or_eq_some_iff.1 hrecord with h | ⟨-, h⟩
    · rcases Option.or_eq_some_iff.1 h with h | ⟨-, h⟩
      · exact .inl (.inl (mem_findRecord h))
      · exact .inl (.inr (mem_findRecord h))
    · exact .inr (mem_findRecord h)
  refine encoded_keyless hcodec ?_ hbytes
  intro r hr p hp
  obtain rfl := List.mem_singleton.1 hr
  have hcustom := hwritten record hmem
  simp only [Record.svcParams, Record.fromRdata] at hp
  split at hp
  · next d hd =>
    rw [hd] at hcustom
    cases hcustom
  · next d hd =>
    rw [hd] at hcustom
    cases hcustom
  · cases hp

theorem blockedOutcome_safe {left : DnsCache} (hleft : left.entries = cache.entries)
    (upstream : Option Text) (refresh : Option Refresh) :
    (blockedOutcome ctx left q upstream refresh).Safe ctx.codec cache where
  added := fun e he => .inl (hleft ▸ he)
  answered := fun _ _ bytes h => by
    cases h
    exact keyless_buildBlocked hcodec q.raw q.qtype q.clientTtl ctx.lists.blockAnswer

theorem stepCustom_safe (hwritten : ctx.customRecords.Written) (now : ℕ) :
    ∀ o ∈ stepCustom ctx cache now q, o.Safe ctx.codec cache := by
  intro o ho
  obtain ⟨resp, hresp, rfl⟩ := Option.map_eq_some_iff.1 ho
  obtain ⟨hknown, hkeyless⟩ := lookup_keyless hcodec hwritten hresp
  refine ⟨fun e he => ?_, fun _ _ bytes h => ?_⟩
  · rcases DnsCache.mem_of_mem_insert he with he | he
    · exact .inr (he ▸ ⟨hknown, hkeyless⟩)
    · exact .inl he
  · cases h
    exact keyless_renumbered hcodec hknown hkeyless _ _

theorem stepCanary_safe : ∀ o ∈ stepCanary ctx cache q, o.Safe ctx.codec cache := by
  intro o ho
  obtain ⟨reason, -, rfl⟩ := Option.map_eq_some_iff.1 ho
  refine ⟨fun e he => .inl he, fun _ _ bytes h => ?_⟩
  cases h
  exact keyless_buildNegative hcodec q.raw q.clientTtl nxDomain

theorem stepBlocklist_safe : ∀ o ∈ stepBlocklist ctx cache q, o.Safe ctx.codec cache := by
  intro o ho
  unfold stepBlocklist at ho
  split at ho
  · cases ho
    exact blockedOutcome_safe hcodec cache q rfl none none
  · cases ho

theorem stepSafeSearch_safe (now : ℕ) :
    ∀ o ∈ stepSafeSearch ctx cache now q, o.Safe ctx.codec cache := by
  intro o ho
  unfold stepSafeSearch at ho
  split at ho
  · obtain ⟨target, -, rfl⟩ := Option.map_eq_some_iff.1 ho
    simp only
    split
    · next bytes remaining hhit =>
      refine ⟨fun e he => .inl he, fun _ hcache bytes' h => ?_⟩
      cases h
      obtain ⟨⟨cached, remaining'⟩, hget, hmap⟩ := Option.bind_eq_some_iff.1 hhit
      obtain ⟨out, hout, heq⟩ := Option.map_eq_some_iff.1 hmap
      cases heq
      obtain ⟨key, e, he, rfl⟩ := DnsCache.mem_of_getWithRemaining hget
      obtain ⟨hknown, hkeyless⟩ := keyless_rewriteAnswer hcodec (hcache _ he) hout
      exact keyless_rewriteTtls hcodec hknown hkeyless _
    · exact ⟨fun e he => .inl he, fun _ _ bytes h => by cases h⟩
  · cases ho

theorem stepRouting_safe : ∀ o ∈ stepRouting ctx cache q, o.Safe ctx.codec cache := by
  intro o ho
  simp only [stepRouting, Option.mem_def] at ho
  split at ho
  · obtain ⟨⟨resp, egressId⟩, hint, rfl⟩ := Option.map_eq_some_iff.1 ho
    refine ⟨fun e he => .inl he, fun _ _ bytes h => ?_⟩
    cases h
    unfold maybeIntercept at hint
    split at hint
    · cases hint
    · simp only [Option.bind_eq_bind, Option.bind_eq_some_iff] at hint
      obtain ⟨_, -, query, -, hresp⟩ := hint
      cases hresp
      obtain ⟨hknown, hkeyless⟩ := keyless_synthResponse hcodec query q.qtype _ _
      exact keyless_renumbered hcodec hknown hkeyless _ _
  · cases ho

theorem stepCache_safe (now : ℕ) (permit : Bool) :
    ∀ o ∈ stepCache ctx cache now permit q, o.Safe ctx.codec cache := by
  intro o ho
  obtain ⟨⟨cached, remaining, stale⟩, hhit, rfl⟩ := Option.map_eq_some_iff.1 ho
  have hleft : (if stale = true then refreshStale ctx cache permit q
      else (cache, none)).1.entries = cache.entries := by
    split
    · exact entries_refreshStale ctx cache permit q
    · rfl
  simp only
  split
  · exact blockedOutcome_safe hcodec cache q hleft _ _
  · refine ⟨fun e he => .inl (hleft ▸ he), fun hknown hcache bytes h => ?_⟩
    cases h
    obtain ⟨key, e, he, rfl⟩ := mem_of_cacheHit hhit
    exact keyless_renumbered hcodec (hknown _ he) (hcache _ he) _ _

theorem settle_safe (hwritten : ctx.customRecords.Written) (now : ℕ) (permit : Bool) :
    (settle ctx cache now permit q).Safe ctx.codec cache := by
  have hsteps := safe_or (safe_or (safe_or (safe_or (safe_or
    (stepCustom_safe hcodec cache q hwritten now) (stepCanary_safe hcodec cache q))
    (stepBlocklist_safe hcodec cache q)) (stepSafeSearch_safe hcodec cache q now))
    (stepRouting_safe hcodec cache q)) (stepCache_safe hcodec cache q now permit)
  unfold settle
  revert hsteps
  generalize ((((((stepCustom ctx cache now q).or (stepCanary ctx cache q)).or
    (stepBlocklist ctx cache q)).or (stepSafeSearch ctx cache now q)).or
    (stepRouting ctx cache q)).or (stepCache ctx cache now permit q)) = settled
  intro hsteps
  cases settled with
  | some o => exact hsteps o rfl
  | none => exact ⟨fun e he => .inl he, fun _ _ bytes h => by cases h⟩

omit q

/-- **One query, from memory.** -/
theorem decideAs_safe (hwritten : ctx.customRecords.Written) (now : ℕ) (verdict : Verdict)
    (permit : Bool) (raw : Bytes) (src : IpAddr) (clientId : Option Text) :
    (decideAs ctx cache now verdict permit raw src clientId).Safe ctx.codec cache := by
  have hdrop : Outcome.Safe ctx.codec cache (⟨.drop, cache, none, none⟩ : Outcome P) :=
    ⟨fun e he => .inl he, fun _ _ bytes h => by cases h⟩
  have herror : ∀ rcode, Outcome.Safe ctx.codec cache
      (⟨.answer (buildError ctx.codec raw rcode), cache, none, none⟩ : Outcome P) := by
    intro rcode
    refine ⟨fun e he => .inl he, fun _ _ bytes h => ?_⟩
    cases h
    exact (keyless_buildError hcodec raw rcode).2
  unfold decideAs
  cases verdict with
  | drop => exact hdrop
  | refuse => exact herror refused
  | pass =>
    simp only
    split
    · exact herror servFail
    · split
      · exact settle_safe hcodec cache _ hwritten now permit
      · split
        · exact herror servFail
        · exact hdrop

end Steps

/-! ## The upstream leg -/

/-- The answer goes out without keys: it has none, or it is one the pipeline takes them out
of, with the switch on. -/
def Pending.Cleaned (codec : Codec) (strip : Bool) (p : Pending P) (bytes : Bytes) : Prop :=
  Keyless codec bytes ∨ (strip = true ∧ p.rewrite = none ∧ (p.qtype = 64 ∨ p.qtype = 65) ∧
    Reencodes codec bytes)

theorem mem_of_mem_cacheAnswer {cache : DnsCache} {now : ℕ} {name : Text} {qtype : UInt16}
    {dnssec : Bool} {bytes : Bytes} {e : Text × CacheEntry}
    (h : e ∈ (cacheAnswer cache now name qtype dnssec bytes).entries) :
    e ∈ cache.entries ∨ e.2.response.bytes = bytes := by
  unfold cacheAnswer at h
  split at h
  · rcases DnsCache.mem_of_mem_insert h with h | h
    · exact .inr (by rw [h])
    · exact .inl h
  · exact .inl h

/-- A reply is taken as it is, or for a failure. -/
theorem readReply_cases (codec : Codec) (raw : Bytes) (reply : Option (Bytes × Text)) :
    readReply codec raw reply = (buildServfail codec raw, 2, none) ∨
      ∃ bytes label rc, reply = some (bytes, label) ∧
        readReply codec raw reply = (bytes, rc, some label) := by
  unfold readReply
  split
  · next bytes label =>
    cases rcode bytes with
    | none => exact .inl rfl
    | some rc => exact .inr ⟨bytes, label, rc, rfl, rfl⟩
  · exact .inl rfl

/-- So is the reply about a safe host, which is kept as it is. -/
theorem resolveSafeHost_cases (ctx : DnsCtx P) (cache : DnsCache) (now : ℕ) (raw : Bytes)
    (name : Text) (qtype : UInt16) (target : Text) (reply : Option (Bytes × Text)) :
    resolveSafeHost ctx cache now raw name qtype target reply =
        (buildServfail ctx.codec raw, cache) ∨
      ∃ bytes label rc, reply = some (bytes, label) ∧
        resolveSafeHost ctx cache now raw name qtype target reply =
          ((rewriteAnswer ctx.codec raw name target bytes).getD (buildServfail ctx.codec raw),
            if rc = (0 : UInt8) then cacheAnswer cache now target qtype false bytes else cache) := by
  unfold resolveSafeHost
  split
  · next bytes label _ =>
    cases rcode bytes with
    | none => exact .inl rfl
    | some rc => exact .inr ⟨bytes, label, rc, rfl, rfl⟩
  · exact .inl rfl

/-- What the upstream leg keeps of a reply. -/
def Pending.kept (codec : Codec) (switches : DnsSwitches) (p : Pending P) (bytes : Bytes) : Bytes :=
  match p.rewrite with
  | some _ => bytes
  | none => withoutEch codec switches bytes p.qtype

section Upstream

variable {ctx : DnsCtx P} (hcodec : ctx.codec.KeepsParams)

include hcodec

theorem keyless_kept {p : Pending P} {bytes : Bytes}
    (h : p.Cleaned ctx.codec ctx.switches.stripEch bytes) :
    Keyless ctx.codec (p.kept ctx.codec ctx.switches bytes) := by
  unfold Pending.kept
  split
  · next target hrewrite =>
    rcases h with h | ⟨-, hnone, -⟩
    · exact h
    · rw [hrewrite] at hnone
      cases hnone
  · refine keyless_withoutEch hcodec ctx.switches ?_
    rcases h with h | ⟨hstrip, -, hqtype, hre⟩
    · exact .inl h
    · exact .inr ⟨hstrip, hqtype, hre⟩

theorem known_kept {p : Pending P} {bytes : Bytes} (h : Known ctx.codec bytes) :
    Known ctx.codec (p.kept ctx.codec ctx.switches bytes) := by
  unfold Pending.kept
  split
  · exact h
  · exact known_withoutEch hcodec ctx.switches h p.qtype

omit hcodec in
/-- What the upstream leg adds to the cache is what it keeps of the reply. -/
theorem mem_of_mem_resolveUpstream {cache : DnsCache} {now : ℕ} {raw : Bytes} {p : Pending P}
    {reply : Option (Bytes × Text)} {e : Text × CacheEntry}
    (h : e ∈ (resolveUpstream ctx cache now raw p reply).cache.entries) :
    e ∈ cache.entries ∨ ∃ bytes label, reply = some (bytes, label) ∧
      e.2.response.bytes = p.kept ctx.codec ctx.switches bytes := by
  unfold resolveUpstream at h
  unfold Pending.kept
  cases hrewrite : p.rewrite with
  | some target =>
    simp only [hrewrite] at h ⊢
    rcases resolveSafeHost_cases ctx cache now raw p.name p.qtype target reply with
      hfail | ⟨bytes, label, rc, hreply, hhost⟩
    · rw [hfail] at h
      exact .inl h
    · rw [hhost] at h
      dsimp only at h
      split_ifs at h
      · rcases mem_of_mem_cacheAnswer h with h | h
        · exact .inl h
        · exact .inr ⟨bytes, label, hreply, h⟩
      · exact .inl h
  | none =>
    simp only [hrewrite] at h ⊢
    split at h
    · exact .inl h
    · dsimp only at h
      split_ifs at h with hgood
      · rcases mem_of_mem_cacheAnswer h with h | h
        · exact .inl h
        · -- a failure has another RCODE and is not kept
          rcases readReply_cases ctx.codec raw reply with hfail | ⟨bytes, label, rc, hreply, hread⟩
          · rw [hfail] at hgood
            exact absurd hgood.1 (by simp)
          · rw [hread] at h
            exact .inr ⟨bytes, label, hreply, h⟩
      · exact .inl h

/-- **One query, from the upstream**: the answer has no key if the reply is cleaned. -/
theorem resolveUpstream_keyless {cache : DnsCache} (now : ℕ) (raw : Bytes) {p : Pending P}
    {reply : Option (Bytes × Text)}
    (hreply : ∀ bytes label, reply = some (bytes, label) → Known ctx.codec bytes ∧
      p.Cleaned ctx.codec ctx.switches.stripEch bytes) :
    Keyless ctx.codec (resolveUpstream ctx cache now raw p reply).bytes := by
  obtain ⟨hknownErr, hkeylessErr⟩ := keyless_buildError hcodec raw servFail
  unfold resolveUpstream
  cases hrewrite : p.rewrite with
  | some target =>
    dsimp only
    rcases resolveSafeHost_cases ctx cache now raw p.name p.qtype target reply with
      hfail | ⟨bytes, label, rc, hsome, hhost⟩
    · rw [hfail]
      exact keyless_rewriteTtls hcodec hknownErr hkeylessErr _
    · have hkept := keyless_kept hcodec (hreply bytes label hsome).2
      simp only [Pending.kept, hrewrite] at hkept
      rw [hhost]
      cases hre : rewriteAnswer ctx.codec raw p.name target bytes with
      | none => exact keyless_rewriteTtls hcodec hknownErr hkeylessErr _
      | some out =>
        obtain ⟨hknown, hkeyless⟩ := keyless_rewriteAnswer hcodec hkept hre
        exact keyless_rewriteTtls hcodec hknown hkeyless _
  | none =>
    have hresponse : Known ctx.codec (withoutEch ctx.codec ctx.switches
          (readReply ctx.codec raw reply).1 p.qtype) ∧
        Keyless ctx.codec (withoutEch ctx.codec ctx.switches
          (readReply ctx.codec raw reply).1 p.qtype) := by
      rcases readReply_cases ctx.codec raw reply with hfail | ⟨bytes, label, rc, hsome, hread⟩
      · rw [hfail]
        exact ⟨known_withoutEch hcodec ctx.switches hknownErr p.qtype,
          keyless_withoutEch hcodec ctx.switches (.inl hkeylessErr)⟩
      · obtain ⟨hknown, hcleaned⟩ := hreply bytes label hsome
        have hkept := keyless_kept hcodec hcleaned
        simp only [Pending.kept, hrewrite] at hkept
        rw [hread]
        exact ⟨known_withoutEch hcodec ctx.switches hknown p.qtype, hkept⟩
    dsimp only
    split
    · exact keyless_buildBlocked hcodec raw p.qtype p.clientTtl ctx.lists.blockAnswer
    · exact keyless_rewriteTtls hcodec hresponse.1 hresponse.2 _

omit hcodec in
/-- What a refresh adds to the cache is its reply, without its keys. -/
theorem mem_of_mem_finishRefresh {cache : DnsCache} {now : ℕ} {r : Refresh} {reply : Option Bytes}
    {e : Text × CacheEntry} (h : e ∈ (finishRefresh ctx cache now r reply).entries) :
    e ∈ cache.entries ∨ ∃ bytes, reply = some bytes ∧
      e.2.response.bytes = withoutEch ctx.codec ctx.switches bytes r.qtype := by
  unfold finishRefresh at h
  rw [DnsCache.entries_endRefresh] at h
  split at h
  · next bytes =>
    split_ifs at h
    · rcases mem_of_mem_cacheAnswer h with h | h
      · exact .inl h
      · exact .inr ⟨bytes, rfl, h⟩
    · exact .inl h
  · exact .inl h

end Upstream

/-! ## Whole runs -/

/-- The context with the switch as it is now. -/
def DnsCtx.withStrip (ctx : DnsCtx P) (strip : Bool) : DnsCtx P :=
  { ctx with switches := { ctx.switches with stripEch := strip } }

/-- A query that waits for the upstream, and whether the switch was on when it came in. -/
structure Received (P : Type) where
  on : Bool
  raw : Bytes
  pending : Pending P

/-- The pipeline between two events, with the switch. -/
structure Resolver (P : Type) where
  strip : Bool
  cache : DnsCache
  waiting : List (Received P)
  refreshes : List Refresh

/-- What can happen: the panel writes the switch, a query comes in, the upstream answers a
waiting one or a refresh, or the cache is tended or filled from a snapshot.  The rest of the
context may be another at every event. -/
inductive EchEvent (P : Type) where
  | apply (strip : Bool)
  | query (ctx : DnsCtx P) (now : ℕ) (verdict : Verdict) (permit : Bool) (raw : Bytes)
      (src : IpAddr) (clientId : Option Text)
  | reply (ctx : DnsCtx P) (now : ℕ) (i : ℕ) (reply : Option (Bytes × Text))
  | refreshed (ctx : DnsCtx P) (now : ℕ) (i : ℕ) (reply : Option Bytes)
  | cacheOp (op : CacheOp)

namespace Resolver

/-- One event: the pipeline after it, and the answer given, with whether the switch was on
when its query came in. -/
def step (s : Resolver P) : EchEvent P → Resolver P × Option (Bool × Bytes)
  | .apply strip => ({ s with strip := strip }, none)
  | .query ctx now verdict permit raw src clientId =>
    let o := decideAs (ctx.withStrip s.strip) s.cache now verdict permit raw src clientId
    let s' := { s with cache := o.cache, refreshes := s.refreshes ++ o.refresh.toList }
    match o.decision with
    | .answer bytes => (s', some (s.strip, bytes))
    | .upstream p => ({ s' with waiting := s.waiting ++ [⟨s.strip, raw, p⟩] }, none)
    | .drop => (s', none)
  | .reply ctx now i reply =>
    match s.waiting[i]? with
    | some w =>
      let r := resolveUpstream (ctx.withStrip s.strip) s.cache now w.raw w.pending reply
      ({ s with cache := r.cache, waiting := s.waiting.eraseIdx i }, some (w.on, r.bytes))
    | none => (s, none)
  | .refreshed ctx now i reply =>
    match s.refreshes[i]? with
    | some r =>
      ({ s with cache := finishRefresh (ctx.withStrip s.strip) s.cache now r reply,
                refreshes := s.refreshes.eraseIdx i }, none)
    | none => (s, none)
  | .cacheOp op => ({ s with cache := s.cache.apply op }, none)

/-- The event is one the process can meet: the codec is the one it is built with, the records
are of its own kinds, and what upstreams send and snapshots hold decodes. -/
def Real (codec : Codec) : EchEvent P → Prop
  | .apply _ => True
  | .query ctx .. => ctx.codec = codec ∧ ctx.customRecords.Written
  | .reply ctx _ _ reply =>
    ctx.codec = codec ∧ ∀ r ∈ reply, (codec.fromBytes r.1).isSome = true
  | .refreshed ctx _ _ reply =>
    ctx.codec = codec ∧ ∀ bytes ∈ reply, (codec.fromBytes bytes).isSome = true
  | .cacheOp op => ∀ bytes, op.Puts bytes → (codec.fromBytes bytes).isSome = true

/-- No key gets in: the switch is turned on over a cache without keys; with the switch on, or
for a query that came in with it on, a reply goes out without its keys; and so does, with the
switch on, what a refresh or a snapshot brings. -/
def NoKeyIn (codec : Codec) (s : Resolver P) : EchEvent P → Prop
  | .apply strip => strip = true → CacheKeyless codec s.cache
  | .query .. => True
  | .reply _ _ i reply => ∀ w ∈ s.waiting[i]?, ∀ r ∈ reply, s.strip = true ∨ w.on = true →
      w.pending.Cleaned codec s.strip r.1
  | .refreshed _ _ i reply => ∀ r ∈ s.refreshes[i]?, ∀ bytes ∈ reply, s.strip = true →
      Stripped codec true r.qtype bytes
  | .cacheOp op => s.strip = true → ∀ bytes, op.Puts bytes → Keyless codec bytes

/-- What holds between events. -/
structure Inv (codec : Codec) (s : Resolver P) : Prop where
  known : CacheKnown codec s.cache
  keyless : s.strip = true → CacheKeyless codec s.cache

/-- A step that leaves the switch alone keeps the invariant if what it adds to the cache is
known, and has no key while the switch is on. -/
theorem Inv.of_added {codec : Codec} {s s' : Resolver P} (h : s.Inv codec)
    (hstrip : s'.strip = s.strip)
    (hadded : ∀ e ∈ s'.cache.entries, e ∈ s.cache.entries ∨
      (Known codec e.2.response.bytes ∧ (s.strip = true → Keyless codec e.2.response.bytes))) :
    s'.Inv codec where
  known := fun e he => by
    rcases hadded e he with he | he
    · exact h.known e he
    · exact he.1
  keyless := fun hon e he => by
    rw [hstrip] at hon
    rcases hadded e he with he | he
    · exact h.keyless hon e he
    · exact he.2 hon

section Runs

variable {codec : Codec} (hcodec : codec.KeepsParams) {s : Resolver P}

include hcodec

theorem step_query (ctx : DnsCtx P) (now : ℕ) (verdict : Verdict) (permit : Bool) (raw : Bytes)
    (src : IpAddr) (clientId : Option Text)
    (hreal : Real codec (.query ctx now verdict permit raw src clientId)) (h : s.Inv codec) :
    (s.step (.query ctx now verdict permit raw src clientId)).1.Inv codec ∧
      ∀ bytes, (s.step (.query ctx now verdict permit raw src clientId)).2 = some (true, bytes) →
        Keyless codec bytes := by
  obtain ⟨rfl, hwritten⟩ := hreal
  have hsafe : (decideAs (ctx.withStrip s.strip) s.cache now verdict permit raw src clientId).Safe
      (ctx.withStrip s.strip).codec s.cache :=
    decideAs_safe hcodec s.cache hwritten now verdict permit raw src clientId
  simp only [step]
  generalize decideAs (ctx.withStrip s.strip) s.cache now verdict permit raw src clientId = o
    at hsafe
  have hinv : ∀ s' : Resolver P, s'.strip = s.strip → s'.cache = o.cache → s'.Inv ctx.codec := by
    intro s' hstrip hcache
    refine h.of_added hstrip fun e he => ?_
    rw [hcache] at he
    rcases hsafe.added e he with he | ⟨hknown, hkeyless⟩
    · exact .inl he
    · exact .inr ⟨hknown, fun _ => hkeyless⟩
  cases hd : o.decision with
  | answer bytes =>
    refine ⟨hinv _ rfl rfl, fun bytes' hout => ?_⟩
    obtain ⟨hon, rfl⟩ := Prod.mk.inj (Option.some.inj hout)
    exact hsafe.answered h.known (h.keyless hon) bytes hd
  | upstream p => exact ⟨hinv _ rfl rfl, fun bytes hout => by cases hout⟩
  | drop => exact ⟨hinv _ rfl rfl, fun bytes hout => by cases hout⟩

theorem step_reply (ctx : DnsCtx P) (now i : ℕ) (reply : Option (Bytes × Text))
    (hreal : Real codec (.reply ctx now i reply)) (hin : NoKeyIn codec s (.reply ctx now i reply))
    (h : s.Inv codec) :
    (s.step (.reply ctx now i reply)).1.Inv codec ∧
      ∀ bytes, (s.step (.reply ctx now i reply)).2 = some (true, bytes) →
        Keyless codec bytes := by
  obtain ⟨rfl, hdecodes⟩ := hreal
  have hcodec' : (ctx.withStrip s.strip).codec.KeepsParams := hcodec
  simp only [step]
  cases hw : s.waiting[i]? with
  | none => exact ⟨h, fun bytes hout => by cases hout⟩
  | some w =>
    have hclean : ∀ bytes label, reply = some (bytes, label) → s.strip = true ∨ w.on = true →
        w.pending.Cleaned ctx.codec s.strip bytes :=
      fun bytes label hreply hon => hin w hw (bytes, label) hreply hon
    have hknown : ∀ bytes label, reply = some (bytes, label) → Known ctx.codec bytes :=
      fun bytes label hreply => .inl (hdecodes (bytes, label) hreply)
    refine ⟨h.of_added rfl fun e he => ?_, fun bytes hout => ?_⟩
    · rcases mem_of_mem_resolveUpstream he with he | ⟨bytes, label, hreply, hbytes⟩
      · exact .inl he
      · rw [hbytes]
        refine .inr ⟨known_kept hcodec' (hknown bytes label hreply), fun hon => ?_⟩
        exact keyless_kept hcodec' (hclean bytes label hreply (.inl hon))
    · obtain ⟨hon, rfl⟩ := Prod.mk.inj (Option.some.inj hout)
      exact resolveUpstream_keyless hcodec' now w.raw fun bytes label hreply =>
        ⟨hknown bytes label hreply, hclean bytes label hreply (.inr hon)⟩

theorem step_refreshed (ctx : DnsCtx P) (now i : ℕ) (reply : Option Bytes)
    (hreal : Real codec (.refreshed ctx now i reply))
    (hin : NoKeyIn codec s (.refreshed ctx now i reply)) (h : s.Inv codec) :
    (s.step (.refreshed ctx now i reply)).1.Inv codec := by
  obtain ⟨rfl, hdecodes⟩ := hreal
  have hcodec' : (ctx.withStrip s.strip).codec.KeepsParams := hcodec
  simp only [step]
  cases hr : s.refreshes[i]? with
  | none => exact h
  | some r =>
    refine h.of_added rfl fun e he => ?_
    rcases mem_of_mem_finishRefresh he with he | ⟨bytes, hreply, hbytes⟩
    · exact .inl he
    · rw [hbytes]
      refine .inr ⟨known_withoutEch hcodec' _ (.inl (hdecodes bytes hreply)) r.qtype, fun hon => ?_⟩
      have hstripped := hin r hr bytes hreply hon
      rw [← hon] at hstripped
      exact keyless_withoutEch hcodec' _ hstripped

/-- **One event** keeps the invariant, and what it answers has no key in it, if the query came
in with the switch on. -/
theorem step_inv {e : EchEvent P} (hreal : Real codec e) (hin : NoKeyIn codec s e)
    (h : s.Inv codec) :
    (s.step e).1.Inv codec ∧ ∀ bytes, (s.step e).2 = some (true, bytes) → Keyless codec bytes := by
  cases e with
  | apply strip => exact ⟨⟨h.known, hin⟩, fun bytes hout => by cases hout⟩
  | query ctx now verdict permit raw src clientId =>
    exact step_query hcodec ctx now verdict permit raw src clientId hreal h
  | reply ctx now i reply => exact step_reply hcodec ctx now i reply hreal hin h
  | refreshed ctx now i reply =>
    refine ⟨step_refreshed hcodec ctx now i reply hreal hin h, fun bytes hout => ?_⟩
    simp only [step] at hout
    split at hout <;> cases hout
  | cacheOp op =>
    refine ⟨h.of_added rfl fun e he => ?_, fun bytes hout => by cases hout⟩
    rcases DnsCache.mem_of_mem_apply he with he | hput
    · exact .inl he
    · exact .inr ⟨.inl (hreal _ hput), fun hon => hin hon _ hput⟩

end Runs

/-- A pipeline that has served nothing, with the switch as the configuration has it. -/
def start (strip : Bool) (capacity maxBytes minT maxT : ℕ) : Resolver P :=
  ⟨strip, DnsCache.new capacity maxBytes minT maxT, [], []⟩

end Resolver

open Resolver in
/-- **No key is given away.**  In every run in which no key gets in, no answer to a query that
came in with the switch on has an `ech` parameter in its answer section. -/
theorem no_key_given {codec : Codec} (hcodec : codec.KeepsParams) (strip : Bool)
    (capacity maxBytes minT maxT : ℕ) {es : List (EchEvent P)} (hreal : ∀ e ∈ es, Real codec e)
    (hin : ∀ x ∈ trace step (start strip capacity maxBytes minT maxT) es,
      NoKeyIn codec x.before x.event)
    {x : Entry (Resolver P) (EchEvent P) (Option (Bool × Bytes))}
    (hx : x ∈ trace step (start strip capacity maxBytes minT maxT) es)
    {bytes : Bytes} (hout : x.output = some (true, bytes)) : Keyless codec bytes := by
  have hstart : (start strip capacity maxBytes minT maxT : Resolver P).Inv codec :=
    ⟨fun e he => (by cases he), fun _ e he => (by cases he)⟩
  have hguard : ∀ y ∈ trace step (start strip capacity maxBytes minT maxT) es,
      Real codec y.event ∧ NoKeyIn codec y.before y.event := by
    intro y hy
    refine ⟨hreal _ ?_, hin y hy⟩
    rw [← map_event_trace step (start strip capacity maxBytes minT maxT) es]
    exact List.mem_map_of_mem hy
  have hkeep : ∀ (s : Resolver P) (e : EchEvent P), Real codec e ∧ NoKeyIn codec s e →
      s.Inv codec → (s.step e).1.Inv codec := fun s e hg h => (step_inv hcodec hg.1 hg.2 h).1
  have hinv := (inv_of_mem_trace step hkeep hstart hguard hx).1
  refine (step_inv hcodec (hguard x hx).1 (hguard x hx).2 hinv).2 bytes ?_
  rw [step_of_mem_trace step hx]
  exact hout

/-! ## A table of messages -/

/-- A table whose messages are of different lengths keeps the parameters. -/
theorem keepsParams_ofRows {rows : List (Bytes × Message)}
    (hlen : (rows.map fun row => row.1.length).Nodup)
    (hrows : ∀ row ∈ rows, row.1 ≠ [] ∧ ((walk row.1).any fun w => w.2 &&
      ((row.2.answers.all fun r => r.svcParams == []) ||
        w.1.any fun x => x.inSection == .answer && (x.rtype == 64 || x.rtype == 65))) = true) :
    (Codec.ofRows rows).KeepsParams := by
  have hsame : ∀ {a b : Bytes} {m m' : Message}, (a, m) ∈ rows → (b, m') ∈ rows →
      b.length = a.length → m' = m := by
    intro a b m m' ha hb heq
    exact (Prod.mk.inj (List.inj_on_of_nodup_map hlen hb ha heq)).2
  have hwalk : ∀ {a : Bytes} {m : Message}, (a, m) ∈ rows → ∃ rs, walk a = some (rs, true) := by
    intro a m ha
    obtain ⟨⟨rs, ok⟩, hw, hok⟩ := (Option.any_eq_true ..).1 (hrows _ ha).2
    rw [Bool.and_eq_true] at hok
    exact ⟨rs, hok.1 ▸ hw⟩
  refine ⟨?_, ?_, ?_, ?_, ?_⟩
  · by_contra h
    obtain ⟨m, hm⟩ := Option.ne_none_iff_exists'.1 h
    exact (hrows _ (mem_rows_of_fromBytes hm)).1 rfl
  · intro m bytes h
    have hrow := mem_rows_of_toBytes h
    cases hread : (Codec.ofRows rows).fromBytes bytes with
    | none =>
      rw [Codec.ofRows, Option.map_eq_none_iff, List.find?_eq_none] at hread
      exact absurd (decide_eq_true rfl) (hread _ hrow)
    | some m' =>
      refine ⟨m', rfl, fun r hr => ?_⟩
      rw [hsame hrow (mem_rows_of_fromBytes hread) rfl] at hr
      exact ⟨r, hr, rfl⟩
  · intro bytes m m' f hm hm'
    have hrow := mem_rows_of_fromBytes hm
    obtain ⟨rs, hw⟩ := hwalk hrow
    rw [hsame hrow (mem_rows_of_fromBytes hm') (rewriteTtls_spec f hw).2.1]
  · intro bytes m m' id f hm hm'
    have hrow := mem_rows_of_fromBytes hm
    obtain ⟨rs, hw⟩ := hwalk hrow
    have hlength := (rewriteTtls_spec f (walk_setId hw id)).2.1
    rw [length_setId] at hlength
    rw [hsame hrow (mem_rows_of_fromBytes hm') hlength]
  · intro bytes m rs hm hw r hr hparams
    obtain ⟨⟨rs', ok⟩, hw', hok⟩ := (Option.any_eq_true ..).1 (hrows _ (mem_rows_of_fromBytes hm)).2
    rw [hw] at hw'
    cases hw'
    rw [Bool.and_eq_true, Bool.or_eq_true, List.all_eq_true, List.any_eq_true] at hok
    rcases hok.2 with hnone | ⟨x, hx, htype⟩
    · exact absurd (beq_iff_eq.1 (hnone r hr)) hparams
    · refine ⟨x, hx, ?_⟩
      simpa using htype

namespace Keyed

/-- A query for the HTTPS records of a name. -/
def asks : Bytes := [0x12, 0x34, 1, 0, 0, 1, 0, 0, 0, 0, 0, 0, 1, 0x78, 0, 0, 65, 0, 1]

/-- Its answer, with these parameters on the wire. -/
def answer (params : Bytes) : Bytes :=
  [0x12, 0x34, 0x81, 0x80, 0, 1, 0, 1, 0, 0, 0, 0, 1, 0x78, 0, 0, 65, 0, 1] ++
    [0xC0, 12, 0, 65, 0, 1, 0, 0, 0, 60, 0, UInt8.ofNat (3 + params.length)] ++ [0, 1, 0] ++ params

/-- The answer as it is read. -/
def decoded (params : List (UInt16 × Bytes)) : Message where
  metadata := ⟨0x1234, true, 0, false, false, true, true, false, false, 0⟩
  queries := [⟨[[0x78]], 65, 1⟩]
  answers := [⟨[[0x78]], 1, 60, .https ⟨1, [], params⟩⟩]
  authorities := []
  additionals := []
  signature := []
  edns := none

/-- The answer with a key in it. -/
def keyed : Bytes := answer [0, 5, 0, 1, 0xAA]

def codec : Codec := .ofRows
  [(keyed, decoded [(5, [0xAA])]), (answer [], decoded [])]

def ctx : DnsCtx Unit := { Example.ctx with codec := codec }

def query : EchEvent Unit := .query ctx 0 .pass true asks Example.host none

def reply : EchEvent Unit := .reply ctx 0 0 (some (keyed, ['u']))

theorem keepsParams : codec.KeepsParams := keepsParams_ofRows (by decide) (by decide)

theorem real_query : Resolver.Real codec query := ⟨rfl, fun _ hr => by cases hr⟩

theorem real_reply : Resolver.Real codec reply := by
  refine ⟨rfl, fun r hr => ?_⟩
  cases hr
  decide

theorem not_keyless_keyed : ¬ Keyless codec keyed := by
  intro h
  have hread : codec.fromBytes keyed = some (decoded [(5, [0xAA])]) := by decide
  exact h _ hread _ (List.mem_singleton.2 rfl) (5, [0xAA]) (List.mem_singleton.2 rfl) rfl

theorem reencodes_keyed : Reencodes codec keyed := by
  intro m hm
  have hread : codec.fromBytes keyed = some (decoded [(5, [0xAA])]) := by decide
  rw [hread] at hm
  cases hm
  decide

end Keyed

/-- With the switch on the answer is cached without its key, and the next client gets it so. -/
theorem no_key_given_from_cache :
    ∃ x ∈ trace Resolver.step (.start true 10 0 0 0) [Keyed.query, Keyed.reply, Keyed.query],
      x.output = some (true, Keyed.answer []) ∧ Keyless Keyed.codec (Keyed.answer []) := by
  have hget : (trace Resolver.step (.start true 10 0 0 0)
      [Keyed.query, Keyed.reply, Keyed.query])[2]?.map Entry.output =
        some (some (true, Keyed.answer [])) := by decide +kernel
  obtain ⟨x, hx, hout⟩ := Option.map_eq_some_iff.1 hget
  have hmem := List.mem_of_getElem? hx
  have hreal : ∀ e ∈ [Keyed.query, Keyed.reply, Keyed.query], Resolver.Real Keyed.codec e := by
    intro e he
    simp only [List.mem_cons, List.not_mem_nil, or_false] at he
    rcases he with rfl | rfl | rfl
    · exact Keyed.real_query
    · exact Keyed.real_reply
    · exact Keyed.real_query
  have hwaiting : ((Resolver.step (.start true 10 0 0 0) Keyed.query).1.waiting.all fun w =>
      w.pending.rewrite == none && w.pending.qtype == 65) = true := by decide +kernel
  refine ⟨x, hmem, hout, no_key_given Keyed.keepsParams true 10 0 0 0 hreal (fun y hy => ?_) hmem
    hout⟩
  simp only [trace, List.mem_cons, List.not_mem_nil, or_false] at hy
  rcases hy with rfl | rfl | rfl
  · trivial
  · intro w hw r hr _
    cases hr
    have hpending := List.all_eq_true.1 hwaiting w (List.mem_of_getElem? hw)
    rw [Bool.and_eq_true, beq_iff_eq, beq_iff_eq] at hpending
    exact .inr ⟨rfl, hpending.1, .inr hpending.2, Keyed.reencodes_keyed⟩
  · trivial

/-- The switch is turned on with the answer in the cache, and the next client gets the key. -/
theorem cached_key_given :
    Keyed.codec.KeepsParams ∧
      (∀ e ∈ [Keyed.query, Keyed.reply, .apply true, Keyed.query], Resolver.Real Keyed.codec e) ∧
      ∃ x ∈ trace Resolver.step (.start false 10 0 0 0)
          [Keyed.query, Keyed.reply, .apply true, Keyed.query],
        x.output = some (true, Keyed.keyed) ∧ ¬ Keyless Keyed.codec Keyed.keyed := by
  have hget : (trace Resolver.step (.start false 10 0 0 0)
      [Keyed.query, Keyed.reply, .apply true, Keyed.query])[3]?.map Entry.output =
        some (some (true, Keyed.keyed)) := by decide +kernel
  obtain ⟨x, hx, hout⟩ := Option.map_eq_some_iff.1 hget
  refine ⟨Keyed.keepsParams, ?_, x, List.mem_of_getElem? hx, hout, Keyed.not_keyless_keyed⟩
  intro e he
  simp only [List.mem_cons, List.not_mem_nil, or_false] at he
  rcases he with rfl | rfl | rfl | rfl
  · exact Keyed.real_query
  · exact Keyed.real_reply
  · trivial
  · exact Keyed.real_query

end Ferrite.Dns
