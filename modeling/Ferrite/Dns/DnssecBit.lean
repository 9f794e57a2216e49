import Ferrite.Dns.Sanitize

/-!
# The DO bit of the forwarded query

The answer to a query is stored under a key that says whether signatures were asked for, and
`sanitize_query` makes the query say the same.  In place it does so for the OPT record that
`edns` finds, the first one, and leaves every other as the client wrote it.

* `firstPatched_patchOpt` — the two fields of the one record that are written;
* `sanitizeInPlace_idem` — a second pass finds them written;
* `forwarded_as_keyed_iff` — every OPT record asks as the key says, or a later one did not.
-/

namespace Ferrite.Dns

open Bytes Wire

/-- The OPT records of the additional section. -/
def optRecords (msg : Bytes) : List RecordRef := (recordsOf msg).filter RecordRef.isEdns

/-- The record asks for signatures if they are wanted, with room for them, and else does not. -/
def Asks (wantDo : Bool) (msg : Bytes) (r : RecordRef) : Prop :=
  ((msg.byteAt (r.ttlOff + 2) &&& 0x80) != 0) = wantDo ∧
    (wantDo = true → r.class' = upstreamUdpPayload)

/-- Apart from the DO bits and the payload sizes of the OPT records, the query is the same. -/
structure OnlyOptFields (wantDo : Bool) (raw out : Bytes) : Prop where
  length : out.length = raw.length
  elsewhere : ∀ i, (∀ r ∈ optRecords raw, ¬ Written wantDo r i) → out[i]? = raw[i]?
  flags : ∀ r ∈ optRecords raw,
    out.byteAt (r.ttlOff + 2) &&& 0x7F = raw.byteAt (r.ttlOff + 2) &&& 0x7F

/-! ## One record -/

theorem forceDo_bits (wantDo : Bool) (flags : UInt8) :
    ((forceDo wantDo flags &&& 0x80) != 0) = wantDo ∧
      forceDo wantDo flags &&& 0x7F = flags &&& 0x7F ∧
      forceDo wantDo (forceDo wantDo flags) = forceDo wantDo flags := by
  have hall : ∀ w : Bool, ∀ n < 256,
      ((forceDo w (UInt8.ofNat n) &&& 0x80) != 0) = w ∧
        forceDo w (UInt8.ofNat n) &&& 0x7F = UInt8.ofNat n &&& 0x7F ∧
        forceDo w (forceDo w (UInt8.ofNat n)) = forceDo w (UInt8.ofNat n) := by
    decide +kernel
  simpa using hall wantDo flags.toNat flags.toNat_lt

/-- The flags byte after the patch. -/
theorem byteAt_patchOpt (wantDo : Bool) {raw : Bytes} {off : ℕ} (h2 : 2 ≤ off)
    (hlen : off + 4 ≤ raw.length) :
    (patchOpt wantDo raw off).byteAt (off + 2) = forceDo wantDo (raw.byteAt (off + 2)) := by
  have hroom : off + 2 + [forceDo wantDo (raw.byteAt (off + 2))].length ≤ raw.length := by
    rw [List.length_singleton]
    omega
  have hflags := byteAt_overwrite [forceDo wantDo (raw.byteAt (off + 2))] 0 (by simp) hroom
  cases wantDo with
  | false => exact hflags
  | true =>
    rw [← show _ = forceDo true (raw.byteAt (off + 2)) from hflags]
    simp only [byteAt, patchOpt, if_true, Nat.add_zero]
    rw [getElem?_overwrite_of_ge]
    simp only [ofU16, List.length_cons, List.length_nil]
    omega

/-- The payload size after the patch. -/
theorem readU16_patchOpt {raw : Bytes} {off : ℕ} (h2 : 2 ≤ off) (hlen : off + 4 ≤ raw.length) :
    (patchOpt true raw off).readU16 (off - 2) = upstreamUdpPayload := by
  refine readU16_overwrite upstreamUdpPayload ?_
  rw [length_overwrite]
  omega

/-- A second patch writes what the first one wrote. -/
theorem patchOpt_patchOpt {wantDo : Bool} {raw : Bytes} {off : ℕ} (h2 : 2 ≤ off)
    (hlen : off + 4 ≤ raw.length) :
    patchOpt wantDo (patchOpt wantDo raw off) off = patchOpt wantDo raw off := by
  have hbyte := byteAt_patchOpt wantDo h2 hlen
  have hforced : forceDo wantDo ((patchOpt wantDo raw off).byteAt (off + 2)) =
      (patchOpt wantDo raw off).byteAt (off + 2) := by
    rw [hbyte, (forceDo_bits _ _).2.2]
  have hlen' : off + 4 ≤ (patchOpt wantDo raw off).length := by
    rw [length_patchOpt]
    exact hlen
  have hflags : (patchOpt wantDo raw off).overwrite (off + 2)
      [forceDo wantDo ((patchOpt wantDo raw off).byteAt (off + 2))] = patchOpt wantDo raw off := by
    apply overwrite_self
    rw [hforced]
    exact take_drop_one (by omega)
  rw [patchOpt, hflags]
  cases wantDo with
  | false => rfl
  | true =>
    refine overwrite_self ?_
    have htwo := take_drop_of_readU16 (m := patchOpt true raw off) (i := off - 2) (by omega)
    rwa [readU16_patchOpt h2 hlen] at htwo

/-- The patched query walks to the same records. -/
theorem walk_patchOpt (wantDo : Bool) {raw : Bytes} {rs : List RecordRef} {r : RecordRef}
    (h : walk raw = some (rs, true)) (hr : r ∈ rs) :
    walk (patchOpt wantDo raw r.ttlOff) =
      some (rs.map (RecordRef.reread (patchOpt wantDo raw r.ttlOff)), true) := by
  have hb := walk_bounds h hr
  refine walk_frame h (length_patchOpt ..) fun i hi => ?_
  exact getElem?_patchOpt_of_not_written (by omega) fun hw => hi r hr (inHead_of_written hw)

/-- The options of the record are as they were. -/
theorem hasEcs_patchOpt {wantDo : Bool} {raw : Bytes} {rs : List RecordRef} {r : RecordRef}
    (h : walk raw = some (rs, true)) (hr : r ∈ rs) :
    hasEcs (patchOpt wantDo raw r.ttlOff) r.rdataOff r.rdataLen =
      hasEcs raw r.rdataOff r.rdataLen := by
  have hb := walk_bounds h hr
  rw [Bool.eq_iff_iff, hasEcs_iff, hasEcs_iff]
  refine carriesEcs_agree fun i hi _ => getElem?_patchOpt_of_not_written (by omega) fun hw => ?_
  simp only [Written] at hw
  omega

/-- **A second pass changes nothing.** -/
theorem sanitizeInPlace_idem {raw out : Bytes} {stripEcs wantDo : Bool}
    (h : sanitizeInPlace raw stripEcs wantDo = some out) :
    sanitizeInPlace out stripEcs wantDo = some out := by
  obtain ⟨rs, hw, ⟨-, -, rfl⟩ | ⟨r, hf, hecs, rfl⟩⟩ := sanitizeInPlace_eq_some_iff.1 h
  · exact h
  · have hr := List.mem_of_find?_eq_some hf
    have hb := walk_bounds hw hr
    refine sanitizeInPlace_eq_some_iff.2 ⟨_, walk_patchOpt wantDo hw hr,
      .inr ⟨r.reread (patchOpt wantDo raw r.ttlOff), ?_, ?_, ?_⟩⟩
    · rw [List.find?_map]
      show (rs.find? RecordRef.isEdns).map _ = _
      rw [hf, Option.map_some]
    · show (stripEcs && hasEcs (patchOpt wantDo raw r.ttlOff) r.rdataOff r.rdataLen) = false
      rw [hasEcs_patchOpt hw hr, hecs]
    · exact (patchOpt_patchOpt (by omega) (by omega)).symm

/-! ## All of them -/

/-- What the first OPT record is, as the head of all of them. -/
theorem find?_isEdns_eq {msg : Bytes} {rs : List RecordRef} (h : walk msg = some (rs, true)) :
    rs.find? RecordRef.isEdns = (optRecords msg).head? := by
  rw [optRecords, recordsOf_eq h, List.head?_filter]

/-- The OPT records of a query in which no record was moved. -/
theorem optRecords_frame {raw out : Bytes} {rs : List RecordRef} (h : walk raw = some (rs, true))
    (hwalk : walk out = some (rs.map (RecordRef.reread out), true)) :
    optRecords out = (optRecords raw).map (RecordRef.reread out) := by
  rw [optRecords, optRecords, recordsOf_eq h, recordsOf_eq hwalk, List.filter_map]
  rfl

theorem mem_of_mem_optRecords {msg : Bytes} {rs : List RecordRef} {r : RecordRef}
    (h : walk msg = some (rs, true)) (hr : r ∈ optRecords msg) : r ∈ rs := by
  rw [optRecords, recordsOf_eq h] at hr
  exact List.mem_of_mem_filter hr

/-- A query whose first OPT record is patched, next to the query as it came. -/
structure FirstPatched (wantDo : Bool) (raw out : Bytes) (first : RecordRef)
    (others : List RecordRef) : Prop where
  records : optRecords raw = first :: others
  records' : optRecords out = (first :: others).map (RecordRef.reread out)
  only : OnlyOptFields wantDo raw out
  asks : Asks wantDo out (first.reread out)
  apart : ∀ r ∈ others, Asks wantDo out (r.reread out) ↔ Asks wantDo raw r

theorem asks_agree {wantDo : Bool} {raw out : Bytes} {rs : List RecordRef} {r : RecordRef}
    (h : walk raw = some (rs, true)) (hr : r ∈ rs)
    (hag : AgreeOn raw out (r.ttlOff - 2) (r.ttlOff + 3)) :
    Asks wantDo out (r.reread out) ↔ Asks wantDo raw r := by
  rw [reread_eq_self h hr (hag.mono le_rfl (by omega)), Asks, Asks,
    hag.byteAt (by omega) (by omega)]

theorem firstPatched_patchOpt (wantDo : Bool) {raw : Bytes} {rs : List RecordRef}
    {first : RecordRef} {others : List RecordRef} (h : walk raw = some (rs, true))
    (hopts : optRecords raw = first :: others) :
    FirstPatched wantDo raw (patchOpt wantDo raw first.ttlOff) first others := by
  have hmem : ∀ r ∈ optRecords raw, r ∈ rs := fun r hr => mem_of_mem_optRecords h hr
  have hfirst : first ∈ optRecords raw := by
    rw [hopts]
    exact List.mem_cons_self
  have hb := walk_bounds h (hmem first hfirst)
  have helse : ∀ i, ¬ Written wantDo first i →
      (patchOpt wantDo raw first.ttlOff)[i]? = raw[i]? :=
    fun i hi => getElem?_patchOpt_of_not_written (by omega) hi
  have hwalk := walk_patchOpt wantDo h (hmem first hfirst)
  -- the records behind the first one are out of reach
  have hsorted : (optRecords raw).Pairwise fun r r' => r.rdataOff + r.rdataLen + 5 ≤ r'.ttlOff := by
    rw [optRecords, recordsOf_eq h]
    exact (walk_pairwise h).filter _
  rw [hopts, List.pairwise_cons] at hsorted
  have hagree : ∀ r ∈ others,
      AgreeOn raw (patchOpt wantDo raw first.ttlOff) (r.ttlOff - 2) (r.ttlOff + 3) := by
    intro r hr i hi _
    have := hsorted.1 r hr
    refine helse i fun hw => ?_
    simp only [Written] at hw
    omega
  have hroom : first.ttlOff + 4 ≤ raw.length := by omega
  have hbyte := byteAt_patchOpt wantDo (by omega) hroom
  refine ⟨hopts, ?_, ⟨length_patchOpt .., ?_, ?_⟩, ⟨?_, ?_⟩, ?_⟩
  · rw [optRecords_frame h hwalk, hopts]
  · intro i hi
    exact helse i (hi first hfirst)
  · intro r hr
    rw [hopts] at hr
    rcases List.mem_cons.1 hr with rfl | hr
    · rw [hbyte, (forceDo_bits _ _).2.1]
    · rw [(hagree r hr).byteAt (by omega) (by omega)]
  · show ((_ &&& 0x80) != 0) = wantDo
    rw [show (first.reread (patchOpt wantDo raw first.ttlOff)).ttlOff = first.ttlOff from rfl, hbyte]
    exact (forceDo_bits _ _).1
  · rintro rfl
    exact readU16_patchOpt (by omega) (by omega)
  · intro r hr
    exact asks_agree h (hmem r (by rw [hopts]; exact List.mem_cons_of_mem _ hr)) (hagree r hr)

/-- **The query asks as it is keyed.**  Where `sanitize_query` works in place, every OPT record
of what it sends has the DO bit and the payload size that are wanted, nothing else is changed
and a second pass changes nothing, if and only if every OPT record of the query but the first
had them already. -/
theorem forwarded_as_keyed_iff (codec : Codec) (raw out : Bytes) (stripEcs wantDo : Bool)
    (h : sanitizeInPlace raw stripEcs wantDo = some out) :
    (sanitizeQuery codec raw stripEcs wantDo = out ∧
      (∀ r ∈ optRecords out, Asks wantDo out r) ∧
      OnlyOptFields wantDo raw out ∧
      sanitizeQuery codec out stripEcs wantDo = out) ↔
      ∀ r ∈ (optRecords raw).tail, Asks wantDo raw r := by
  have hsame : sanitizeQuery codec raw stripEcs wantDo = out := by
    rw [sanitizeQuery, h]
  have hagain : sanitizeQuery codec out stripEcs wantDo = out := by
    rw [sanitizeQuery, sanitizeInPlace_idem h]
  simp only [hsame, hagain, true_and, and_true]
  obtain ⟨rs, hw, ⟨hf, -, rfl⟩ | ⟨first, hf, -, rfl⟩⟩ := sanitizeInPlace_eq_some_iff.1 h
  · rw [find?_isEdns_eq hw, List.head?_eq_none_iff] at hf
    simp only [hf, List.tail_nil, List.not_mem_nil, false_implies, implies_true, true_and, iff_true]
    exact ⟨rfl, fun i _ => rfl, fun r _ => rfl⟩
  · rw [find?_isEdns_eq hw] at hf
    obtain ⟨others, hopts⟩ := List.head?_eq_some_iff.1 hf
    have hpatched := firstPatched_patchOpt wantDo hw hopts
    rw [hpatched.records', hopts, List.tail_cons]
    constructor
    · rintro ⟨hasks, -⟩ r hr
      exact (hpatched.apart r hr).1 (hasks _ (List.mem_map_of_mem (List.mem_cons_of_mem _ hr)))
    · intro hothers
      refine ⟨?_, hpatched.only⟩
      intro r' hr'
      obtain ⟨r, hr, rfl⟩ := List.mem_map.1 hr'
      rcases List.mem_cons.1 hr with rfl | hr
      · exact hpatched.asks
      · exact (hpatched.apart r hr).2 (hothers r hr)

/-- A query with a single OPT record, signatures wanted. -/
theorem single_opt_as_keyed :
    ∃ out, sanitizeInPlace (Example.query [0x01, 0x00] 1 [Example.opt []]) true true = some out ∧
      ∀ r ∈ optRecords out, Asks true out r := by
  have hpath : sanitizeInPlace (Example.query [0x01, 0x00] 1 [Example.opt []]) true true =
      some (patchOpt true (Example.query [0x01, 0x00] 1 [Example.opt []]) 24) := by
    decide +kernel
  have htail : (optRecords (Example.query [0x01, 0x00] 1 [Example.opt []])).tail = [] := by
    decide +kernel
  refine ⟨_, hpath, ?_⟩
  refine ((forwarded_as_keyed_iff Example.codec _ _ true true hpath).2 ?_).2.1
  rw [htail]
  simp

/-- Two OPT records, signatures wanted: the second one still does not ask for them. -/
theorem second_opt_does_not_ask :
    isWellFormed (Example.query [0x01, 0x00] 1 [Example.opt [], Example.opt []]) = true ∧
      ∃ out, sanitizeInPlace (Example.query [0x01, 0x00] 1 [Example.opt [], Example.opt []])
          true true = some out ∧
        ∃ r ∈ optRecords out, (out.byteAt (r.ttlOff + 2) &&& 0x80) = 0 ∧ ¬ Asks true out r := by
  have hpath : sanitizeInPlace (Example.query [0x01, 0x00] 1 [Example.opt [], Example.opt []])
      true true =
      some (patchOpt true (Example.query [0x01, 0x00] 1 [Example.opt [], Example.opt []]) 24) := by
    decide +kernel
  refine ⟨by decide +kernel, _, hpath, ⟨.additional, 41, 1232, 35, 41, 0⟩, by decide +kernel,
    by decide +kernel, ?_⟩
  intro h
  exact absurd h.1 (by decide +kernel)

end Ferrite.Dns
