import Ferrite.Dns.CacheTtl
import Ferrite.Dns.Cloaking

/-!
# The answers written onto the wire

`negative_on_wire`, `error_on_wire` and `address_on_wire` write an answer byte by byte behind a
copy of the query's header and question.

* `replyHead_eq` — the head is put together from the ID, the RD bit and the question of the
  query, and from nothing else;
* `echoes_replyHead` — what its flags say;
* `ownedBy_recordOnWire` — the record behind it belongs to the name in the question;
* `invented_answers_sound` — the three answers.
-/

namespace Ferrite.Dns

open Bytes Wire

/-! ## The head -/

/-- The question of a query, as it stands on the wire. -/
def questionBytes (raw : Bytes) (qEnd : ℕ) : Bytes := (raw.take qEnd).drop headerLen

/-- Where a question ends, there is a header in front of it and a name in it. -/
theorem headerLen_lt_questionEnd {raw : Bytes} {qEnd : ℕ} (h : questionEnd raw = some qEnd) :
    headerLen + 5 ≤ qEnd ∧ qEnd ≤ raw.length := by
  obtain ⟨-, -, hle, i, hname, hstop⟩ := questionEnd_eq_some_iff.1 h
  have hlt := (skipNameFrom_bounds (skipNameFrom_of_questionNameEnd hname)).1
  omega

/-- The head, put together. -/
theorem replyHead_eq {raw : Bytes} {qEnd : ℕ} (flags : UInt8) (rcode : UInt16) {counts : Bytes}
    (hcounts : counts.length = 6) (hq : questionEnd raw = some qEnd) (hone : raw.readU16 4 = 1) :
    replyHead raw flags rcode counts = some (raw.take 2 ++
      ([flags ||| (raw.byteAt 2 &&& 0x01), 0x80 ||| rcodeLow rcode] ++
        (ofU16 1 ++ (counts ++ questionBytes raw qEnd)))) := by
  obtain ⟨hlt, hle⟩ := headerLen_lt_questionEnd hq
  simp only [headerLen] at hlt
  have hlen : (raw.take qEnd).length = qEnd := List.length_take_of_le hle
  have hid : (raw.take qEnd).take 2 = raw.take 2 := by
    rw [List.take_take, Nat.min_eq_left (by omega)]
  have hqd : ((raw.take qEnd).drop 4).take 2 = ofU16 1 := by
    have hag : AgreeOn raw (raw.take qEnd) 0 qEnd := fun i _ hi => List.getElem?_take_of_lt hi
    rw [take_drop_of_readU16 (by omega), hag.readU16 (Nat.zero_le _) (by omega), hone]
  unfold replyHead
  simp only [hq, hone, ne_eq, not_true_eq_false, if_false, Option.some.injEq]
  -- the flags first, then the counts
  rw [@overwrite_eq (raw.take qEnd) 2 _ (by simp only [List.length_cons, List.length_nil]; omega),
    hid]
  have hflags : (raw.take 2).length = 2 := List.length_take_of_le (by omega)
  rw [@overwrite_eq _ 6 _ (by
    simp only [List.length_append, hflags, List.length_cons, List.length_nil, List.length_drop]
    omega)]
  obtain ⟨a, b, hab⟩ := List.length_eq_two.1 hflags
  have hfront : ((raw.take qEnd).drop 4).take 2 ++ ((raw.take qEnd).drop 4).drop 2 =
      (raw.take qEnd).drop 4 := List.take_append_drop ..
  rw [hqd, List.drop_drop] at hfront
  simp only [hab, hcounts, List.length_cons, List.length_nil, Nat.reduceAdd, ← hfront, questionBytes,
    headerLen]
  simp [ofU16]

/-! ## What the head says -/

/-- An answer that echoes the ID, the question and the RD bit of its query, and has the given
RCODE. -/
structure Echoes (raw : Bytes) (qEnd : ℕ) (rcode : UInt8) (out : Bytes) : Prop where
  id : out.take 2 = raw.take 2
  questions : out.readU16 4 = 1
  question : questionBytes out qEnd = questionBytes raw qEnd
  response : out.byteAt 2 &&& 0x80 = 0x80
  opcode : Wire.opcode out = some 0
  recursion : out.byteAt 2 &&& 0x01 = raw.byteAt 2 &&& 0x01
  codeBits : out.byteAt 3 &&& 0x0F = rcode

/-- The flags of the answers: QR is set, the opcode is QUERY and RD is left to the query. -/
def AnswerFlags (flags : UInt8) : Prop := flags = 0x80 ∨ flags = 0x84

theorem and_one_cases (b : UInt8) : b &&& 0x01 = 0 ∨ b &&& 0x01 = 1 := by
  have hmod : (b &&& 0x01).toNat = b.toNat % 2 := by
    rw [UInt8.toNat_and]
    exact Nat.and_one_is_mod _
  rcases Nat.mod_two_eq_zero_or_one b.toNat with h | h
  · exact .inl (UInt8.toNat_inj.1 (by rw [hmod, h]; rfl))
  · exact .inr (UInt8.toNat_inj.1 (by rw [hmod, h]; rfl))

theorem flags_bits {flags : UInt8} (hflags : AnswerFlags flags) (b : UInt8) :
    (flags ||| (b &&& 0x01)) &&& 0x80 = 0x80 ∧
      ((flags ||| (b &&& 0x01)) >>> 3) &&& 0x0F = 0 ∧
      (flags ||| (b &&& 0x01)) &&& 0x01 = b &&& 0x01 := by
  rcases hflags with rfl | rfl <;> rcases and_one_cases b with h | h <;> rw [h] <;> decide

/-- The bytes of an answer, one by one as far as the counts. -/
theorem replyHead_cons {raw head : Bytes} {qEnd : ℕ} {flags : UInt8} {rcode : UInt16}
    {counts : Bytes} (hcounts : counts.length = 6) (hq : questionEnd raw = some qEnd)
    (hone : raw.readU16 4 = 1) (h : replyHead raw flags rcode counts = some head) :
    ∃ a b, raw.take 2 = [a, b] ∧ head = a :: b :: (flags ||| (raw.byteAt 2 &&& 0x01)) ::
      (0x80 ||| rcodeLow rcode) :: 0 :: 1 :: (counts ++ questionBytes raw qEnd) := by
  obtain ⟨hlt, hle⟩ := headerLen_lt_questionEnd hq
  have htwo : (raw.take 2).length = 2 := List.length_take_of_le (by omega)
  obtain ⟨a, b, hab⟩ := List.length_eq_two.1 htwo
  rw [replyHead_eq flags rcode hcounts hq hone, hab] at h
  exact ⟨a, b, hab, (Option.some.inj h).symm⟩

theorem length_questionBytes {raw : Bytes} {qEnd : ℕ} (hq : questionEnd raw = some qEnd) :
    (questionBytes raw qEnd).length = qEnd - headerLen := by
  have hle := (headerLen_lt_questionEnd hq).2
  rw [questionBytes, List.length_drop, List.length_take_of_le hle]

theorem echoes_replyHead {raw head : Bytes} {qEnd : ℕ} {flags : UInt8} {rcode : UInt16}
    {counts : Bytes} (hcounts : counts.length = 6) (hflags : AnswerFlags flags)
    (hq : questionEnd raw = some qEnd) (hone : raw.readU16 4 = 1)
    (h : replyHead raw flags rcode counts = some head) (tail : Bytes) :
    Echoes raw qEnd (rcodeLow rcode) (head ++ tail) := by
  obtain ⟨a, b, hab, rfl⟩ := replyHead_cons hcounts hq hone h
  obtain ⟨hqr, hopcode, hrd⟩ := flags_bits hflags (raw.byteAt 2)
  refine ⟨?_, ?_, ?_, hqr, ?_, hrd, rcodeLow_bits rcode⟩
  · rw [hab]
    rfl
  · simp [readU16, byteAt]
  · have hlen := length_questionBytes hq
    rw [questionBytes, List.drop_take]
    simp only [headerLen, List.cons_append, List.drop_succ_cons] at hlen ⊢
    rw [List.append_assoc, List.drop_left' hcounts, List.take_left' hlen]
  · exact congrArg some hopcode

/-! ## The record behind it -/

/-- The message walks cleanly to the given records, and nothing is left over. -/
structure Holds (out : Bytes) (rs : List RecordRef) : Prop where
  walks : walk out = some (rs, true)
  ends : walkEnd out = some out.length

/-- The name at an offset of the answer is the one in the question. -/
def OwnedByQuestion (raw out : Bytes) (i : ℕ) : Prop :=
  ∃ name, NameAt raw headerLen name ∧ NameAt out i name

/-- A name of a question reads the same in every message with these bytes. -/
theorem exists_nameAt {raw out : Bytes} {fuel i e : ℕ} (h : questionNameEnd raw fuel i = some e)
    (hag : AgreeOn raw out i e) (hle : e ≤ out.length) :
    ∃ name, NameAt raw i name ∧ NameAt out i name := by
  induction fuel generalizing i with
  | zero => simp [questionNameEnd] at h
  | succ fuel ih =>
    have hb := skipNameFrom_bounds (skipNameFrom_of_questionNameEnd h)
    unfold questionNameEnd at h
    cases hlen : raw[i]? with
    | none => simp [hlen] at h
    | some len =>
      have hlen' : out[i]? = some len := by
        rw [hag i le_rfl hb.1, hlen]
      simp only [hlen] at h
      split_ifs at h with hzero hpointer hfits
      · subst hzero
        exact ⟨[], .root hlen, .root hlen'⟩
      · have hrest := skipNameFrom_bounds (skipNameFrom_of_questionNameEnd h)
        obtain ⟨name, hraw, hout⟩ := ih h (hag.mono (by omega) le_rfl)
        have hlabel : (out.drop (i + 1)).take len.toNat = (raw.drop (i + 1)).take len.toNat :=
          hag.take_drop (by omega) (by omega)
        have htype : len &&& 0xC0 = 0 := not_not.1 hpointer
        refine ⟨(raw.drop (i + 1)).take len.toNat :: name, .label hlen htype hzero (by omega) hraw, ?_⟩
        rw [← hlabel]
        exact .label hlen' htype hzero (by omega) hout

/-- The record behind the head is owned by the name in the question. -/
theorem ownedBy_recordOnWire {raw head : Bytes} {qEnd : ℕ} {flags : UInt8} {rcode : UInt16}
    {counts : Bytes} (hcounts : counts.length = 6) (hq : questionEnd raw = some qEnd)
    (h : replyHead raw flags rcode counts = some head) (rtype : UInt16) (ttl : UInt32)
    (rdata : Bytes) : OwnedByQuestion raw (head ++ recordOnWire rtype ttl rdata) qEnd := by
  obtain rfl : head.length = qEnd := Option.some.inj ((length_replyHead h).symm.trans hq)
  obtain ⟨-, -, hle, i, hname, hstop⟩ := questionEnd_eq_some_iff.1 hq
  have hb := skipNameFrom_bounds (skipNameFrom_of_questionNameEnd hname)
  have hag : AgreeOn raw (head ++ recordOnWire rtype ttl rdata) headerLen i := by
    intro j hj hj'
    simp only [headerLen] at hj
    rw [List.getElem?_append_left (by omega)]
    exact replyHead_agree hcounts h (by omega) (.inr (.inr hj))
  obtain ⟨name, hraw, hout⟩ := exists_nameAt hname hag (by rw [List.length_append]; omega)
  refine ⟨name, hraw, @NameAt.pointer _ _ 0xC0 12 _ ?_ (by decide) ?_ ?_ hout⟩
  · rw [List.getElem?_append_right le_rfl, Nat.sub_self]
    rfl
  · rw [List.getElem?_append_right (by omega), Nat.add_sub_cancel_left]
    rfl
  · simp only [headerLen] at hb
    show 12 < head.length
    omega

/-- One record behind a head that announces one is all there is. -/
theorem holds_recordOnWire {raw head : Bytes} {flags : UInt8} {rcode : UInt16} {counts : Bytes}
    {sec : Section} {c : RecordCursor} (hcounts : counts.length = 6)
    (h : replyHead raw flags rcode counts = some head)
    (hpop : RecordCursor.pop ⟨head.length, (counts.readU16 0).toNat, (counts.readU16 2).toNat,
      (counts.readU16 4).toNat⟩ = some (sec, c))
    (hleft : RecordCursor.left ⟨head.length, (counts.readU16 0).toNat, (counts.readU16 2).toNat,
      (counts.readU16 4).toNat⟩ = 1)
    (rtype : UInt16) (ttl : UInt32) {rdata : Bytes} (hlen : rdata.length < 2 ^ 16) :
    Holds (head ++ recordOnWire rtype ttl rdata)
      [⟨sec, rtype, 1, head.length + 6, head.length + 12, rdata.length⟩] := by
  have hwalk := walk_recordOnWire hcounts h hpop hleft rtype ttl hlen
  refine ⟨hwalk, ?_⟩
  rw [walkEnd_eq (new_replyHead hcounts h _) hwalk]
  simp [recordOnWire, ofU16, ofU32]
  omega

/-- `ferrite.invalid.` -/
def soaAdmin : Name :=
  [[0x66, 0x65, 0x72, 0x72, 0x69, 0x74, 0x65], [0x69, 0x6E, 0x76, 0x61, 0x6C, 0x69, 0x64]]

/-- A pointer to an offset that fits into one. -/
theorem pointer_bytes {off : ℕ} (h : off < 0x4000) :
    ∃ hi lo : UInt8, ofU16 (0xC000 ||| UInt16.ofNat off) = [hi, lo] ∧ hi &&& 0xC0 = 0xC0 ∧
      (hi &&& 0x3F).toNat * 256 + lo.toNat = off := by
  have hor : (0xC000 ||| UInt16.ofNat off).toNat = 0xC000 + off := by
    rw [UInt16.toNat_or, UInt16.toNat_ofNat', Nat.mod_eq_of_lt (by omega)]
    exact (Nat.two_pow_add_eq_or_of_lt (i := 14) h 3).symm
  have hbits : ∀ k < 64, UInt8.ofNat (192 + k) &&& 0xC0 = 0xC0 ∧
      (UInt8.ofNat (192 + k) &&& 0x3F).toNat = k := by
    decide
  have hdiv : (0xC000 + off) / 256 = 192 + off / 256 := by omega
  obtain ⟨hpointer, hhigh⟩ := hbits (off / 256) (by omega)
  refine ⟨_, _, rfl, ?_, ?_⟩
  · rw [hor, hdiv]
    exact hpointer
  · rw [hor, hdiv, hhigh, UInt8.toNat_ofNat']
    omega

/-- The names in the SOA: its first, and the second, which points at it. -/
theorem nameAt_soaRdata (head : Bytes) (ttl : UInt32) (h : head.length + 12 < 0x4000) :
    NameAt (head ++ recordOnWire typeSoa ttl (soaRdata head.length ttl)) (head.length + 12) soaAdmin ∧
      NameAt (head ++ recordOnWire typeSoa ttl (soaRdata head.length ttl)) (head.length + 29)
        soaAdmin := by
  obtain ⟨hi, lo, hbytes, hpointer, hoff⟩ := pointer_bytes h
  obtain ⟨rest, hrest⟩ : ∃ rest, soaRdata head.length ttl =
      labelsOnWire soaAdmin ++ 0 :: (hi :: lo :: rest) := by
    refine ⟨ofU32 1 ++ (ofU32 ttl ++ (ofU32 ttl ++ (ofU32 ttl ++ ofU32 ttl))), ?_⟩
    rw [soaRdata, hbytes]
    simp only [List.append_assoc]
    rfl
  obtain ⟨pre, hpre, hsplit⟩ : ∃ pre : Bytes, pre.length = head.length + 12 ∧
      head ++ recordOnWire typeSoa ttl (soaRdata head.length ttl) =
        pre ++ (labelsOnWire soaAdmin ++ 0 :: (hi :: lo :: rest)) := by
    refine ⟨head ++ (recordOnWire typeSoa ttl (soaRdata head.length ttl)).take 12, ?_, ?_⟩
    · simp [recordOnWire, ofU16, ofU32]
    · rw [← hrest, List.append_assoc]
      rfl
  have hfirst : NameAt (pre ++ (labelsOnWire soaAdmin ++ 0 :: (hi :: lo :: rest))) pre.length soaAdmin :=
    nameAt_labels (by decide) pre _
  have hnext : head.length + 29 = pre.length + 17 := by omega
  rw [hsplit, hnext, ← hpre]
  refine ⟨hfirst, @NameAt.pointer _ _ hi lo _ ?_ hpointer ?_ ?_ ?_⟩
  · rw [List.getElem?_append_right (by omega), Nat.add_sub_cancel_left]
    rfl
  · rw [List.getElem?_append_right (by omega), Nat.add_assoc, Nat.add_sub_cancel_left]
    rfl
  · omega
  · rw [hoff, ← hpre]
    exact hfirst

/-! ## The three answers -/

/-- An answer to the query with the given RCODE and records. -/
structure Answered (raw : Bytes) (qEnd : ℕ) (rcode : UInt8) (out : Bytes) (rs : List RecordRef) :
    Prop extends Echoes raw qEnd rcode out, Holds out rs where
  code : Wire.rcode out = some rcode

theorem rcode_of_no_edns {out : Bytes} {rs : List RecordRef} (hwalk : walk out = some (rs, true))
    (hlen : headerLen ≤ out.length) (hopt : ∀ r ∈ rs, r.isEdns = false) :
    Wire.rcode out = some (out.byteAt 3 &&& 0x0F) := by
  have hfold : ∀ h, rs.foldl (fun h r => if r.isEdns then (out.byteAt r.ttlOff).toNat else h) h = h := by
    clear hwalk
    induction rs with
    | nil => exact fun _ => rfl
    | cons r rs ih =>
      intro h
      rw [List.forall_mem_cons] at hopt
      simp [hopt.1, ih hopt.2]
  have hlow : (out.byteAt 3 &&& 0x0F).toNat ≤ 15 := by
    rw [UInt8.toNat_and]
    exact Nat.and_le_right
  unfold Wire.rcode
  rw [if_neg (by omega), hwalk]
  simp only [hfold, Nat.zero_mul, Nat.zero_add, Option.some.injEq]
  rw [Nat.min_eq_left (by omega), UInt8.ofNat_toNat]

/-- Without an OPT record the RCODE is the header's. -/
theorem answered_of_holds {raw out : Bytes} {qEnd : ℕ} {rcode : UInt8} {rs : List RecordRef}
    (hechoes : Echoes raw qEnd rcode out) (hholds : Holds out rs)
    (hlen : headerLen ≤ out.length) (hopt : ∀ r ∈ rs, r.isEdns = false) :
    Answered raw qEnd rcode out rs where
  toEchoes := hechoes
  toHolds := hholds
  code := by rw [rcode_of_no_edns hholds.walks hlen hopt, hechoes.codeBits]

/-- The answers depend on the ID, the RD bit and the question alone. -/
theorem replyHead_congr {raw raw' : Bytes} {qEnd : ℕ} (hq : questionEnd raw = some qEnd)
    (hone : raw.readU16 4 = 1) (hq' : questionEnd raw' = some qEnd) (hone' : raw'.readU16 4 = 1)
    (hid : raw'.take 2 = raw.take 2) (hrd : raw'.byteAt 2 &&& 0x01 = raw.byteAt 2 &&& 0x01)
    (hquestion : questionBytes raw' qEnd = questionBytes raw qEnd) (flags : UInt8) (rcode : UInt16)
    {counts : Bytes} (hcounts : counts.length = 6) :
    replyHead raw' flags rcode counts = replyHead raw flags rcode counts := by
  rw [replyHead_eq flags rcode hcounts hq hone, replyHead_eq flags rcode hcounts hq' hone', hid, hrd,
    hquestion]

theorem cacheTtl_negative {raw head : Bytes} {rcode : UInt16} (ttl : UInt32)
    (h : replyHead raw 0x84 rcode [0, 0, 0, 1, 0, 0] = some head) (hpos : 0 < ttl) :
    cacheTtl (head ++ recordOnWire typeSoa ttl (soaRdata head.length ttl)) = some ttl := by
  have hlen : (soaRdata head.length ttl).length = 39 := by
    simp [soaRdata, soaAdminName, ofU16, ofU32]
  have hshort : (soaRdata head.length ttl).length < 2 ^ 16 := by omega
  have hwalk : walk (head ++ recordOnWire typeSoa ttl (soaRdata head.length ttl)) =
      some ([⟨.authority, typeSoa, 1, head.length + 6, head.length + 12,
        (soaRdata head.length ttl).length⟩], true) :=
    walk_recordOnWire rfl h rfl rfl typeSoa ttl hshort
  have httl := (readRecord_recordOnWire head .authority typeSoa ttl hshort).2
  rw [hlen] at hwalk
  have hminimum : (head ++ recordOnWire typeSoa ttl (soaRdata head.length ttl)).readU32
      (head.length + 12 + 39 - 4) = ttl := by
    rw [readU32_append_right head _ (k := 47) (by omega)]
    simp only [recordOnWire, soaRdata, ← List.append_assoc]
    rw [readU32_append_right _ (ofU32 ttl) (k := 0) (by simp [soaAdminName, ofU16, ofU32])]
    simpa using readU32_ofU32_append ttl []
  have hsoa : isNegativeSoa ⟨.authority, typeSoa, 1, head.length + 6, head.length + 12, 39⟩ = true := rfl
  have hmin : min ttl ttl = ttl := by
    rw [Std.min_eq_if]
    split_ifs <;> rfl
  rw [cacheTtl_of_no_answer hwalk (by simp), List.find?_cons_of_pos hsoa, Option.map_some,
    negativeLifetime, httl, hminimum, hmin, filter_pos, if_pos hpos]

theorem error_sound {raw : Bytes} {qEnd : ℕ} (rcode : UInt16) (hq : questionEnd raw = some qEnd)
    (hone : raw.readU16 4 = 1) :
    ∃ out, errorOnWire raw rcode = some out ∧ Answered raw qEnd (rcodeLow rcode) out [] := by
  obtain ⟨head, hhead⟩ : ∃ head, errorOnWire raw rcode = some head :=
    ⟨_, replyHead_eq 0x80 rcode rfl hq hone⟩
  have hlen : head.length = qEnd := Option.some.inj ((length_replyHead hhead).symm.trans hq)
  have hechoes := echoes_replyHead rfl (.inl rfl) hq hone hhead []
  have hnew := new_replyHead rfl hhead []
  rw [List.append_nil] at hechoes hnew
  have hwalk := walk_errorOnWire hhead
  refine ⟨head, hhead, answered_of_holds hechoes ⟨hwalk, ?_⟩ ?_ (by simp)⟩
  · rw [walkEnd_eq hnew hwalk]
    rfl
  · have := (headerLen_lt_questionEnd hq).1
    omega

theorem negative_sound {raw : Bytes} {qEnd : ℕ} (ttl : UInt32) (rcode : UInt16)
    (hq : questionEnd raw = some qEnd) (hone : raw.readU16 4 = 1)
    (hname : qEnd ≤ headerLen + 255 + 4) :
    ∃ out, negativeOnWire raw ttl rcode = some out ∧
      Answered raw qEnd (rcodeLow rcode) out
        [⟨.authority, typeSoa, 1, qEnd + 6, qEnd + 12, 39⟩] ∧
      OwnedByQuestion raw out qEnd ∧ out.readU32 (qEnd + 6) = ttl ∧
      NameAt out (qEnd + 12) soaAdmin ∧ NameAt out (qEnd + 29) soaAdmin ∧
      (0 < ttl → cacheTtl out = some ttl) := by
  obtain ⟨head, hhead⟩ : ∃ head, replyHead raw 0x84 rcode [0, 0, 0, 1, 0, 0] = some head :=
    ⟨_, replyHead_eq 0x84 rcode rfl hq hone⟩
  obtain rfl : head.length = qEnd := Option.some.inj ((length_replyHead hhead).symm.trans hq)
  have hrdata : (soaRdata head.length ttl).length = 39 := by
    simp [soaRdata, soaAdminName, ofU16, ofU32]
  have hlt := (headerLen_lt_questionEnd hq).1
  have hshort : (soaRdata head.length ttl).length < 2 ^ 16 := by omega
  have hholds : Holds (head ++ recordOnWire typeSoa ttl (soaRdata head.length ttl))
      [⟨.authority, typeSoa, 1, head.length + 6, head.length + 12,
        (soaRdata head.length ttl).length⟩] :=
    holds_recordOnWire rfl hhead rfl rfl typeSoa ttl hshort
  rw [hrdata] at hholds
  obtain ⟨hmname, hrname⟩ := nameAt_soaRdata head ttl (by simp only [headerLen] at hname; omega)
  refine ⟨_, by rw [negativeOnWire, hhead, Option.map_some], ?_, ?_, ?_, hmname, hrname, ?_⟩
  · refine answered_of_holds (echoes_replyHead rfl (.inr rfl) hq hone hhead _) hholds ?_ ?_
    · rw [List.length_append]
      omega
    · simp [RecordRef.isEdns]
  · exact ownedBy_recordOnWire rfl hq hhead _ _ _
  · exact (readRecord_recordOnWire head .authority typeSoa ttl (by omega)).2
  · exact cacheTtl_negative ttl hhead

theorem address_sound {raw : Bytes} {qEnd : ℕ} (ip : IpAddr) (ttl : UInt32)
    (hq : questionEnd raw = some qEnd) (hone : raw.readU16 4 = 1) :
    ∃ out, addressOnWire raw ip ttl = some out ∧
      Answered raw qEnd 0 out [⟨.answer, (addressRdata ip).1, 1, qEnd + 6, qEnd + 12,
        (addressRdata ip).2.length⟩] ∧
      OwnedByQuestion raw out qEnd ∧ out.readU32 (qEnd + 6) = ttl ∧
      out.drop (qEnd + 12) = (addressRdata ip).2 := by
  obtain ⟨head, hhead⟩ : ∃ head, replyHead raw 0x84 noError [0, 1, 0, 0, 0, 0] = some head :=
    ⟨_, replyHead_eq 0x84 noError rfl hq hone⟩
  obtain rfl : head.length = qEnd := Option.some.inj ((length_replyHead hhead).symm.trans hq)
  have hlt := (headerLen_lt_questionEnd hq).1
  have hholds : Holds (head ++ recordOnWire (addressRdata ip).1 ttl (addressRdata ip).2)
      [⟨.answer, (addressRdata ip).1, 1, head.length + 6, head.length + 12,
        (addressRdata ip).2.length⟩] :=
    holds_recordOnWire rfl hhead rfl rfl (addressRdata ip).1 ttl (length_addressRdata ip)
  refine ⟨_, by rw [addressOnWire, hhead, Option.map_some], ?_, ?_, ?_, ?_⟩
  · refine answered_of_holds (echoes_replyHead rfl (.inr rfl) hq hone hhead _) hholds ?_ ?_
    · rw [List.length_append]
      omega
    · simp [RecordRef.isEdns]
  · exact ownedBy_recordOnWire rfl hq hhead _ _ _
  · exact (readRecord_recordOnWire head .answer _ ttl (length_addressRdata ip)).2
  · rw [List.drop_append, List.drop_eq_nil_of_le (by omega), List.nil_append,
      Nat.add_sub_cancel_left]
    simp [recordOnWire, ofU16, ofU32]

/-- **Answers ferrite invents.**  To a query with one question, whose name has at most 255
bytes, the three answers walk cleanly to the records they announce with no byte left over, echo
the query's ID, question and RD bit, and carry the low four bits of the RCODE, which is all of
it below 16.  The records belong to the name in the question, and the lifetime of a negative
answer is its TTL.  What else is in the query makes no difference. -/
theorem invented_answers_sound (raw : Bytes) (qEnd : ℕ) (ttl : UInt32) (rcode : UInt16) (ip : IpAddr)
    (hq : questionEnd raw = some qEnd) (hone : raw.readU16 4 = 1)
    (hname : qEnd ≤ headerLen + 255 + 4) :
    (∃ out, errorOnWire raw rcode = some out ∧ Answered raw qEnd (rcodeLow rcode) out []) ∧
    (∃ out, negativeOnWire raw ttl rcode = some out ∧
      Answered raw qEnd (rcodeLow rcode) out
        [⟨.authority, typeSoa, 1, qEnd + 6, qEnd + 12, 39⟩] ∧
      OwnedByQuestion raw out qEnd ∧ out.readU32 (qEnd + 6) = ttl ∧
      NameAt out (qEnd + 12) soaAdmin ∧ NameAt out (qEnd + 29) soaAdmin ∧
      (0 < ttl → cacheTtl out = some ttl)) ∧
    (∃ out, addressOnWire raw ip ttl = some out ∧
      Answered raw qEnd 0 out [⟨.answer, (addressRdata ip).1, 1, qEnd + 6, qEnd + 12,
        (addressRdata ip).2.length⟩] ∧
      OwnedByQuestion raw out qEnd ∧ out.readU32 (qEnd + 6) = ttl ∧
      out.drop (qEnd + 12) = (addressRdata ip).2) ∧
    (∀ raw', questionEnd raw' = some qEnd → raw'.readU16 4 = 1 → raw'.take 2 = raw.take 2 →
      raw'.byteAt 2 &&& 0x01 = raw.byteAt 2 &&& 0x01 →
      questionBytes raw' qEnd = questionBytes raw qEnd →
      errorOnWire raw' rcode = errorOnWire raw rcode ∧
      negativeOnWire raw' ttl rcode = negativeOnWire raw ttl rcode ∧
      addressOnWire raw' ip ttl = addressOnWire raw ip ttl) ∧
    (rcode.toNat < 16 → (rcodeLow rcode).toNat = rcode.toNat) := by
  refine ⟨error_sound rcode hq hone, negative_sound ttl rcode hq hone hname,
    address_sound ip ttl hq hone, ?_, ?_⟩
  · intro raw' hq' hone' hid hrd hquestion
    have hcongr := replyHead_congr hq hone hq' hone' hid hrd hquestion
    refine ⟨hcongr 0x80 rcode rfl, ?_, ?_⟩
    · rw [negativeOnWire, negativeOnWire, hcongr 0x84 rcode rfl]
    · rw [addressOnWire, addressOnWire, hcongr 0x84 noError rfl]
  · intro hlt
    rw [rcodeLow, UInt8.toNat_ofNat', Nat.mod_eq_of_lt hlt]
    omega

namespace Asked

/-- A query for `x`, with RD set. -/
def x : Bytes := [0x12, 0x34, 1, 0, 0, 1, 0, 0, 0, 0, 0, 0, 1, 0x78, 0, 0, 1, 0, 1]

end Asked

open Asked in
/-- `x` is refused, and the answer says so. -/
theorem invented_answers_refused :
    ∃ out, errorOnWire x 5 = some out ∧ Wire.rcode out = some 5 := by
  obtain ⟨⟨out, hout, hanswered⟩, -⟩ := invented_answers_sound x 19 60 5 (.v4 ⟨0, 0, 0, 0⟩)
    (by decide +kernel) (by decide +kernel) (by decide)
  exact ⟨out, hout, hanswered.code⟩

open Asked in
/-- BADVERS does not fit into the header, and reads as NOERROR. -/
theorem long_rcode_is_cut :
    ∃ out, errorOnWire x 16 = some out ∧ Wire.rcode out = some 0 ∧
      ¬ (Wire.rcode out).map UInt8.toNat = some (16 : UInt16).toNat := by
  refine ⟨_, rfl, ?_, ?_⟩ <;> decide +kernel

end Ferrite.Dns
