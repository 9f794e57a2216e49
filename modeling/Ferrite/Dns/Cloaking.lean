import Mathlib.Data.List.Forall2
import Ferrite.Dns.Ttl
import Ferrite.Lib.Staged

/-!
# CNAME cloaking

A blocked host can hide behind an alias, so the CNAME targets of an answer are checked
against the blocklist before the answer goes out.  The check reads them off the wire and,
at the first one it cannot spell, decodes the whole message instead.  Where the decoder
refuses a message the walk accepts, that fallback finds nothing and the answer passes.
The answer of a safe host, which SafeSearch asks for instead, is not checked at all.

* `NameAt` — the name at an offset of a message, pointers followed;
* `readNameLower_spec` — what the walk spells is the name there;
* `cnameBlockedTarget_isSome_iff` — a cloaked answer is caught if and only if it is `Seen`;
* `cloaked_answer_blocked_iff` — what the client is sent, from the upstream and from the
  cache.
-/

namespace Ferrite.Dns

open Bytes Wire

variable {P : Type}

/-! ## Names on the wire -/

/-- The labels of the name at an offset.  A pointer leads to an earlier place. -/
inductive NameAt (msg : Bytes) : ℕ → Name → Prop
  | root {i : ℕ} (hzero : msg[i]? = some 0) : NameAt msg i []
  | label {i : ℕ} {len : UInt8} {rest : Name} (hlen : msg[i]? = some len)
      (hlabel : len &&& 0xC0 = 0) (hpos : len ≠ 0) (hfits : i + 1 + len.toNat ≤ msg.length)
      (hrest : NameAt msg (i + 1 + len.toNat) rest) :
      NameAt msg i ((msg.drop (i + 1)).take len.toNat :: rest)
  | pointer {i : ℕ} {hi lo : UInt8} {name : Name} (hhi : msg[i]? = some hi)
      (hpointer : hi &&& 0xC0 = 0xC0) (hlo : msg[i + 1]? = some lo)
      (hback : (hi &&& 0x3F).toNat * 256 + lo.toNat < i)
      (hname : NameAt msg ((hi &&& 0x3F).toNat * 256 + lo.toNat) name) : NameAt msg i name

/-- There is one name at an offset. -/
theorem NameAt.unique {msg : Bytes} {i : ℕ} {n n' : Name} (h : NameAt msg i n)
    (h' : NameAt msg i n') : n = n' := by
  induction h generalizing n' with
  | root hzero =>
    cases h' with
    | root => rfl
    | label hlen _ hpos =>
      rw [hzero] at hlen
      cases hlen
      exact absurd rfl hpos
    | pointer hhi hpointer =>
      rw [hzero] at hhi
      cases hhi
      exact absurd hpointer (by decide)
  | label hlen hlabel hpos _ _ ih =>
    cases h' with
    | root hzero =>
      rw [hzero] at hlen
      cases hlen
      exact absurd rfl hpos
    | label hlen' _ _ _ hrest' =>
      rw [hlen] at hlen'
      cases hlen'
      rw [ih hrest']
    | pointer hhi hpointer =>
      rw [hlen] at hhi
      cases hhi
      rw [hlabel] at hpointer
      exact absurd hpointer (by decide)
  | pointer hhi hpointer hlo _ _ ih =>
    cases h' with
    | root hzero =>
      rw [hzero] at hhi
      cases hhi
      exact absurd hpointer (by decide)
    | label hlen hlabel =>
      rw [hhi] at hlen
      cases hlen
      rw [hlabel] at hpointer
      exact absurd hpointer (by decide)
    | pointer hhi' _ hlo' _ hname' =>
      rw [hhi] at hhi'
      cases hhi'
      rw [hlo] at hlo'
      cases hlo'
      exact ih hname'

/-- The labels of a name, each behind its length. -/
def labelsOnWire (n : Name) : Bytes := n.flatMap fun l => UInt8.ofNat l.length :: l

theorem isLabel_of_le : ∀ k < 64, UInt8.ofNat k &&& 0xC0 = 0 := by decide

/-- The name is where its labels are. -/
theorem nameAt_labels {n : Name} (h : ∀ l ∈ n, l ≠ [] ∧ l.length ≤ 63) (pre post : Bytes) :
    NameAt (pre ++ (labelsOnWire n ++ 0 :: post)) pre.length n := by
  induction n generalizing pre with
  | nil => exact .root (by simp [labelsOnWire])
  | cons l n ih =>
    obtain ⟨hne, hshort⟩ := h l List.mem_cons_self
    have hlen : (UInt8.ofNat l.length).toNat = l.length := by
      rw [UInt8.toNat_ofNat']
      omega
    have hpos : UInt8.ofNat l.length ≠ 0 := by
      intro hzero
      rw [hzero] at hlen
      exact hne (List.length_eq_zero_iff.1 hlen.symm)
    -- the bytes, with the label behind what came before
    obtain ⟨msg, hmsg⟩ : ∃ msg, msg = pre ++ (labelsOnWire (l :: n) ++ 0 :: post) := ⟨_, rfl⟩
    have hsplit : msg = (pre ++ UInt8.ofNat l.length :: l) ++ (labelsOnWire n ++ 0 :: post) := by
      simp [hmsg, labelsOnWire]
    have hlabel : (msg.drop (pre.length + 1)).take (UInt8.ofNat l.length).toNat = l := by
      have hdrop : msg = (pre ++ [UInt8.ofNat l.length]) ++ (l ++ (labelsOnWire n ++ 0 :: post)) := by
        simp [hsplit]
      have hbefore : pre.length + 1 = (pre ++ [UInt8.ofNat l.length]).length := by simp
      rw [hlen, hdrop, hbefore, List.drop_left, List.take_left]
    have hfits : pre.length + 1 + (UInt8.ofNat l.length).toNat ≤ msg.length := by
      rw [hlen, hsplit]
      simp only [List.length_append, List.length_cons]
      omega
    have hrest : NameAt msg (pre.length + 1 + (UInt8.ofNat l.length).toNat) n := by
      have hnext := ih (fun l' hl' => h l' (List.mem_cons_of_mem _ hl'))
        (pre ++ UInt8.ofNat l.length :: l)
      rw [← hsplit, List.length_append, List.length_cons] at hnext
      rw [hlen, Nat.add_assoc, Nat.add_comm 1]
      exact hnext
    rw [← hmsg]
    exact hlabel ▸ .label (by simp [hmsg, labelsOnWire]) (isLabel_of_le _ (by omega)) hpos hfits hrest

/-- A label the wire spells as the decoder would. -/
def PlainLabel (label : Bytes) : Prop := label ≠ [] ∧ isPlainLabel label = true

/-- The text of plain labels: lowercase, with dots between them. -/
def plainText : Name → Text
  | [] => []
  | label :: rest => labelText label ++ rest.flatMap fun l => '.' :: labelText l

theorem plainText_eq (n : Name) : plainText n = Text.dotted (n.map labelText) := by
  cases n with
  | nil => rfl
  | cons l n => simp [plainText, Text.dotted, List.flatMap_map]

/-- The loop of `read_name_lower` takes one label further. -/
def spelled (out : Text) (label : Bytes) : Text :=
  out ++ (if out = [] then [] else ['.']) ++ labelText label

theorem labelText_ne_nil {label : Bytes} (h : PlainLabel label) : labelText label ≠ [] := by
  simpa [labelText] using h.1

theorem foldl_spelled {n : Name} (hn : ∀ l ∈ n, PlainLabel l) {out : Text} (hout : out ≠ []) :
    n.foldl spelled out = out ++ n.flatMap fun l => '.' :: labelText l := by
  induction n generalizing out with
  | nil => simp
  | cons l n ih =>
    have hne : spelled out l ≠ [] := by simp [spelled, hout]
    rw [List.foldl_cons, ih (fun l' hl' => hn l' (List.mem_cons_of_mem _ hl')) hne]
    simp [spelled, hout]

theorem foldl_spelled_nil {n : Name} (hn : ∀ l ∈ n, PlainLabel l) :
    n.foldl spelled [] = plainText n := by
  cases n with
  | nil => rfl
  | cons l n =>
    have hl := hn l (List.mem_cons_self ..)
    have hfirst : spelled [] l = labelText l := by simp [spelled]
    rw [List.foldl_cons, hfirst,
      foldl_spelled (fun l' hl' => hn l' (List.mem_cons_of_mem _ hl')) (labelText_ne_nil hl)]
    rfl

theorem readNameFrom_spec {msg : Bytes} {fuel i jumps : ℕ} {out t : Text}
    (h : readNameFrom msg fuel i jumps out = some t) :
    ∃ n, NameAt msg i n ∧ (∀ l ∈ n, PlainLabel l) ∧ t = n.foldl spelled out := by
  induction fuel generalizing i jumps out with
  | zero => simp [readNameFrom] at h
  | succ fuel ih =>
    unfold readNameFrom at h
    split at h
    · cases h
    · rename_i len hlen
      split at h
      · rename_i hlabel
        split at h
        · rename_i hzero
          cases h
          exact ⟨[], .root (hzero ▸ hlen), nofun, rfl⟩
        · rename_i hpos
          split at h
          · cases h
          · rename_i hfits
            simp only at h
            split at h
            · cases h
            · rename_i hplain
              split at h
              · cases h
              · obtain ⟨n, hname, hn, rfl⟩ := ih h
                refine ⟨_, .label hlen hlabel hpos (by omega) hname, ?_, rfl⟩
                intro l hl
                rcases List.mem_cons.1 hl with rfl | hl
                · refine ⟨fun hnil => ?_, by simpa using hplain⟩
                  have hlength := congrArg List.length hnil
                  have hnat : len.toNat ≠ 0 := fun h0 => hpos (UInt8.toNat_inj.1 h0)
                  simp only [List.length_take, List.length_drop, List.length_nil] at hlength
                  omega
                · exact hn l hl
      · split at h
        · rename_i hpointer
          split at h
          · cases h
          · split at h
            · cases h
            · rename_i lo hlo
              simp only at h
              split at h
              · cases h
              · rename_i hback
                obtain ⟨n, hname, hn, rfl⟩ := ih h
                exact ⟨n, .pointer hlen hpointer hlo (Nat.not_le.1 hback) hname, hn, rfl⟩
        · cases h

/-- **What the walk spells is the name there**, and all its labels are plain. -/
theorem readNameLower_spec {msg : Bytes} {i : ℕ} {t : Text} (h : readNameLower msg i = some t) :
    ∃ n, NameAt msg i n ∧ (∀ l ∈ n, PlainLabel l) ∧ t = plainText n := by
  obtain ⟨n, hname, hn, rfl⟩ := readNameFrom_spec h
  exact ⟨n, hname, hn, foldl_spelled_nil hn⟩

/-! ## CNAME targets -/

/-- A CNAME record of the answer section. -/
def isAnswerCname (r : RecordRef) : Bool := r.rtype = typeCname && r.inSection = .answer

/-- The CNAME records of the answer section. -/
def cnames (msg : Bytes) : List RecordRef := (recordsOf msg).filter isAnswerCname

/-- The targets of the CNAME records among the answers. -/
def Message.cnameTargets (m : Message) : List Name :=
  m.answers.filterMap fun r =>
    match r.data with
    | .cname target => some target
    | _ => none

/-- How the engine spells a name: `to_utf8`, lowercase, without the root dot. -/
def Codec.spell (codec : Codec) (n : Name) : Text :=
  (codec.strToLowercase (codec.toUtf8 n)).trimEndMatches (· == '.')

/-- The targets are those of the wire. -/
def TargetsOf (msg : Bytes) (targets : List Name) : Prop :=
  List.Forall₂ (fun r n => NameAt msg r.rdataOff n) (cnames msg) targets

/-- The codec reads and writes the CNAME targets of the answer section as the wire has
them, and spells a name of plain labels as the wire does. -/
structure Codec.KeepsTargets (codec : Codec) : Prop where
  decoded : ∀ {bytes m rs}, codec.fromBytes bytes = some m → walk bytes = some (rs, true) →
    TargetsOf bytes m.cnameTargets
  encoded : ∀ {m bytes}, codec.toBytes m = some bytes →
    (∃ rs, walk bytes = some (rs, true)) ∧ TargetsOf bytes m.cnameTargets
  plain : ∀ n, (∀ l ∈ n, PlainLabel l) → codec.spell n = plainText n

/-- Some CNAME target of the answer section is blocked for the profile. -/
def Cloaks (codec : Codec) (lists : Lists P) (profile : Option P) (msg : Bytes) : Prop :=
  ∃ r ∈ cnames msg, ∃ n, NameAt msg r.rdataOff n ∧ lists.shouldBlockFor (codec.spell n) profile

/-- The first CNAME target that is blocked or cannot be spelled from the wire cannot be
spelled. -/
def Unspelled (lists : Lists P) (profile : Option P) (msg : Bytes) : Prop :=
  ∃ r ∈ (cnames msg).find? fun r =>
      (readNameLower msg r.rdataOff).all fun t => lists.shouldBlockFor t profile,
    readNameLower msg r.rdataOff = none

/-- What the check sees of a cloaked answer: a target it can spell, or the decoder's
reading of the message. -/
def Seen (codec : Codec) (lists : Lists P) (profile : Option P) (msg : Bytes) : Prop :=
  ¬ Unspelled lists profile msg ∨ (codec.fromBytes msg).isSome

instance (codec : Codec) (lists : Lists P) (profile : Option P) (msg : Bytes) :
    Decidable (Seen codec lists profile msg) :=
  inferInstanceAs (Decidable (¬ (∃ r ∈ _, _) ∨ _))

section

variable {codec : Codec} {lists : Lists P} {profile : Option P} {msg : Bytes}

theorem findCnameIn_eq (msg : Bytes) (pred : Text → Bool) (rs : List RecordRef) :
    findCnameIn msg pred rs =
      match (rs.filter isAnswerCname).find? fun r => (readNameLower msg r.rdataOff).all pred with
      | none => .noMatch
      | some r => (readNameLower msg r.rdataOff).elim .unsupported .matched := by
  induction rs with
  | nil => rfl
  | cons r rs ih =>
    unfold findCnameIn
    by_cases hr : r.rtype = typeCname ∧ r.inSection = .answer
    · have hcname : isAnswerCname r = true := by simpa [isAnswerCname] using hr
      rw [if_pos hr, List.filter_cons_of_pos hcname]
      cases hname : readNameLower msg r.rdataOff with
      | none => simp [hname]
      | some t =>
        by_cases hpred : pred t = true
        · simp [hname, hpred]
        · simp [hname, hpred, ih]
    · have hcname : ¬ isAnswerCname r = true := by simpa [isAnswerCname] using hr
      rw [if_neg hr, List.filter_cons_of_neg hcname, ih]

theorem findCnameTarget_eq {rs : List RecordRef} (hw : walk msg = some (rs, true))
    (pred : Text → Bool) :
    findCnameTarget msg pred =
      match (cnames msg).find? fun r => (readNameLower msg r.rdataOff).all pred with
      | none => .noMatch
      | some r => (readNameLower msg r.rdataOff).elim .unsupported .matched := by
  rw [findCnameTarget, hw, cnames, recordsOf_eq hw]
  exact findCnameIn_eq msg pred rs

/-- The decoder's half of the check goes through the targets. -/
theorem cnameBlockedTargetDecoded_eq (codec : Codec) (lists : Lists P) (msg : Bytes)
    (profile : Option P) :
    cnameBlockedTargetDecoded codec lists msg profile = (codec.fromBytes msg).bind fun m =>
      (m.cnameTargets.map codec.spell).find? fun t => lists.shouldBlockFor t profile := by
  unfold cnameBlockedTargetDecoded Message.cnameTargets
  rw [Option.bind_eq_bind]
  refine Option.bind_congr fun m _ => ?_
  rw [List.map_filterMap]
  refine congrArg (List.find? _) (List.filterMap_congr fun r _ => ?_)
  cases r.data <;> rfl

/-- **The check on a cloaked answer.** -/
theorem cnameBlockedTarget_isSome_iff (hcodec : codec.KeepsTargets) {rs : List RecordRef}
    (hw : walk msg = some (rs, true)) {name : Text} (hallowed : lists.isAllowedFor name profile = false)
    (hcloaks : Cloaks codec lists profile msg) :
    (cnameBlockedTarget codec lists msg name profile).isSome ↔ Seen codec lists profile msg := by
  obtain ⟨r, hr, n, hname, hblocked⟩ := hcloaks
  unfold cnameBlockedTarget Seen Unspelled
  rw [hallowed, findCnameTarget_eq hw]
  simp only [Bool.false_eq_true, if_false]
  cases hfind : (cnames msg).find? fun r =>
      (readNameLower msg r.rdataOff).all fun t => lists.shouldBlockFor t profile with
  | none =>
    -- every target can be spelled and none is blocked, the cloaked one included
    have hnone := List.find?_eq_none.1 hfind r hr
    cases ht : readNameLower msg r.rdataOff with
    | none => simp [ht] at hnone
    | some t =>
      obtain ⟨n', hname', hn', rfl⟩ := readNameLower_spec ht
      rw [hname.unique hname', hcodec.plain n' hn'] at hblocked
      simp [ht, hblocked] at hnone
  | some r' =>
    cases ht : readNameLower msg r'.rdataOff with
    | some t => simp [ht]
    | none =>
      simp only [ht, Option.elim_none, Option.mem_def, Option.some.injEq, exists_eq_left', not_true,
        false_or, cnameBlockedTargetDecoded_eq]
      cases hm : codec.fromBytes msg with
      | none => simp
      | some m =>
        obtain ⟨n', hn', hat⟩ := forall₂_mem_left (hcodec.decoded hm hw) hr
        rw [hname.unique hat] at hblocked
        simp only [Option.bind_some, Option.isSome_some, iff_true]
        rw [List.find?_isSome]
        exact ⟨_, List.mem_map_of_mem hn', hblocked⟩

end

/-! ## Answers that are built -/

/-- What the codec writes of a message without CNAME records among its answers has none. -/
theorem cnames_encoded {codec : Codec} (hcodec : codec.KeepsTargets) {m : Message}
    (h : m.cnameTargets = []) : cnames ((codec.toBytes m).getD []) = [] := by
  cases henc : codec.toBytes m with
  | none => rfl
  | some bytes =>
    have htargets := (hcodec.encoded henc).2
    rw [h] at htargets
    exact List.forall₂_nil_right_iff.1 htargets

theorem cnames_buildError {codec : Codec} (hcodec : codec.KeepsTargets) (raw : Bytes)
    (rcode : UInt16) : cnames (buildError codec raw rcode) = [] := by
  unfold buildError
  cases hwire : errorOnWire raw rcode with
  | some out =>
    rw [Option.getD_some, cnames, recordsOf_eq (walk_errorOnWire hwire)]
    rfl
  | none =>
    rw [Option.getD_none, errorEncoded]
    cases codec.fromBytes raw with
    | none => rfl
    | some decoded => exact cnames_encoded hcodec rfl

theorem cnames_buildNegative {codec : Codec} (hcodec : codec.KeepsTargets) (raw : Bytes)
    (ttl : UInt32) (rcode : UInt16) : cnames (buildNegative codec raw ttl rcode) = [] := by
  unfold buildNegative
  cases hwire : negativeOnWire raw ttl rcode with
  | some out =>
    obtain ⟨head, hhead, rfl⟩ := Option.map_eq_some_iff.1 hwire
    have hlen : (soaRdata head.length ttl).length < 2 ^ 16 := by
      simp [soaRdata, soaAdminName, ofU16, ofU32]
    have hw := walk_recordOnWire rfl hhead rfl rfl typeSoa ttl hlen
    rw [Option.getD_some, cnames, recordsOf_eq hw]
    rfl
  | none =>
    rw [Option.getD_none, negativeEncoded]
    cases codec.fromBytes raw with
    | none => rfl
    | some decoded =>
      refine cnames_encoded hcodec ?_
      cases decoded.queries.head? <;> rfl

theorem cnames_buildAddress {codec : Codec} (hcodec : codec.KeepsTargets) (raw : Bytes)
    (ip : IpAddr) (ttl : UInt32) : cnames (buildAddress codec raw ip ttl) = [] := by
  unfold buildAddress
  cases hwire : addressOnWire raw ip ttl with
  | some out =>
    obtain ⟨head, hhead, rfl⟩ := Option.map_eq_some_iff.1 hwire
    have hw := walk_recordOnWire rfl hhead rfl rfl (addressRdata ip).1 ttl (length_addressRdata ip)
    rw [Option.getD_some, cnames, recordsOf_eq hw]
    cases ip <;> rfl
  | none =>
    rw [Option.getD_none, addressEncoded]
    cases codec.fromBytes raw with
    | none => rfl
    | some decoded =>
      refine cnames_encoded hcodec ?_
      cases decoded.queries.head? with
      | none => rfl
      | some q => cases ip <;> rfl

/-- A blocked answer has no CNAME record. -/
theorem cnames_buildBlocked {codec : Codec} (hcodec : codec.KeepsTargets) (raw : Bytes)
    (qtype : UInt16) (ttl : UInt32) (answer : BlockAnswer) :
    cnames (buildBlocked codec raw qtype ttl answer).1 = [] := by
  unfold buildBlocked
  split
  · exact cnames_buildNegative hcodec raw ttl nxDomain
  · exact cnames_buildError hcodec raw refused
  · split
    · exact cnames_buildAddress hcodec raw _ ttl
    · exact cnames_buildNegative hcodec raw ttl noError

/-- The header of what the codec writes has the low four bits of the message's RCODE. -/
def Codec.KeepsCode (codec : Codec) : Prop :=
  ∀ {m bytes}, codec.toBytes m = some bytes →
    bytes.byteAt 3 &&& 0x0F = rcodeLow m.metadata.responseCode

theorem code_encoded {codec : Codec} (hcode : codec.KeepsCode) {m : Message} {rcode : UInt16}
    (hm : m.metadata.responseCode = rcode) (hne : (codec.toBytes m).getD [] ≠ []) :
    ((codec.toBytes m).getD []).byteAt 3 &&& 0x0F = rcodeLow rcode := by
  cases henc : codec.toBytes m with
  | none => simp [henc] at hne
  | some bytes => exact (hcode henc).trans (congrArg rcodeLow hm)

theorem code_buildError {codec : Codec} (hcode : codec.KeepsCode) {raw : Bytes} {rcode : UInt16}
    (hne : buildError codec raw rcode ≠ []) :
    (buildError codec raw rcode).byteAt 3 &&& 0x0F = rcodeLow rcode := by
  unfold buildError at hne ⊢
  cases hwire : errorOnWire raw rcode with
  | some out =>
    have hcode' := code_replyHead hwire []
    rwa [List.append_nil] at hcode'
  | none =>
    rw [hwire, Option.getD_none, errorEncoded] at hne
    rw [Option.getD_none, errorEncoded]
    cases hm : codec.fromBytes raw with
    | none => simp [hm] at hne
    | some decoded =>
      simp only [hm] at hne
      exact code_encoded hcode rfl hne

theorem code_buildNegative {codec : Codec} (hcode : codec.KeepsCode) {raw : Bytes} {ttl : UInt32}
    {rcode : UInt16} (hne : buildNegative codec raw ttl rcode ≠ []) :
    (buildNegative codec raw ttl rcode).byteAt 3 &&& 0x0F = rcodeLow rcode := by
  unfold buildNegative at hne ⊢
  cases hwire : negativeOnWire raw ttl rcode with
  | some out =>
    obtain ⟨head, hhead, rfl⟩ := Option.map_eq_some_iff.1 hwire
    exact code_replyHead hhead _
  | none =>
    rw [hwire, Option.getD_none, negativeEncoded] at hne
    rw [Option.getD_none, negativeEncoded]
    cases hm : codec.fromBytes raw with
    | none => simp [hm] at hne
    | some decoded =>
      simp only [hm] at hne
      refine code_encoded hcode ?_ hne
      cases decoded.queries.head? <;> rfl

theorem code_buildAddress {codec : Codec} (hcode : codec.KeepsCode) {raw : Bytes} {ip : IpAddr}
    {ttl : UInt32} (hne : buildAddress codec raw ip ttl ≠ []) :
    (buildAddress codec raw ip ttl).byteAt 3 &&& 0x0F = rcodeLow noError := by
  unfold buildAddress at hne ⊢
  cases hwire : addressOnWire raw ip ttl with
  | some out =>
    obtain ⟨head, hhead, rfl⟩ := Option.map_eq_some_iff.1 hwire
    exact code_replyHead hhead _
  | none =>
    rw [hwire, Option.getD_none, addressEncoded] at hne
    rw [Option.getD_none, addressEncoded]
    cases hm : codec.fromBytes raw with
    | none => simp [hm] at hne
    | some decoded =>
      simp only [hm] at hne
      refine code_encoded hcode ?_ hne
      cases decoded.queries.head? <;> rfl

/-- A blocked answer is no SERVFAIL. -/
theorem code_buildBlocked {codec : Codec} (hcode : codec.KeepsCode) {raw : Bytes} {qtype : UInt16}
    {ttl : UInt32} {answer : BlockAnswer} (hne : (buildBlocked codec raw qtype ttl answer).1 ≠ []) :
    (buildBlocked codec raw qtype ttl answer).1.byteAt 3 &&& 0x0F ≠ rcodeLow servFail := by
  unfold buildBlocked at hne ⊢
  split at hne
  · rw [buildNxdomain, code_buildNegative hcode hne]
    decide
  · rw [code_buildError hcode hne]
    decide
  · split at hne
    · rw [code_buildAddress hcode hne]
      decide
    · rw [code_buildNegative hcode hne]
      decide

/-- To a query with one question there is one. -/
theorem buildBlocked_ne_nil (codec : Codec) {raw : Bytes} {stop : ℕ} (hq : questionEnd raw = some stop)
    (hone : raw.readU16 4 = 1) (qtype : UInt16) (ttl : UInt32) (answer : BlockAnswer) :
    (buildBlocked codec raw qtype ttl answer).1 ≠ [] := by
  have hhead (flags : UInt8) (rcode : UInt16) (counts : Bytes) :
      ∃ head, replyHead raw flags rcode counts = some head ∧ head ≠ [] := by
    have hsome : ∃ head, replyHead raw flags rcode counts = some head := by
      unfold replyHead
      simp [hq, hone]
    obtain ⟨head, hhead⟩ := hsome
    refine ⟨head, hhead, ?_⟩
    rintro rfl
    have hlen := length_replyHead hhead
    obtain ⟨-, -, -, i, -, hstop⟩ := questionEnd_eq_some_iff.1 hlen
    simp at hstop
  unfold buildBlocked
  split
  · obtain ⟨head, h, hne⟩ := hhead 0x84 nxDomain [0, 0, 0, 1, 0, 0]
    simp [buildNxdomain, buildNegative, negativeOnWire, h, hne]
  · obtain ⟨head, h, hne⟩ := hhead 0x80 refused [0, 0, 0, 0, 0, 0]
    simp [buildError, errorOnWire, h, hne]
  · split
    · obtain ⟨head, h, hne⟩ := hhead 0x84 noError [0, 1, 0, 0, 0, 0]
      simp [buildAddress, addressOnWire, h, hne]
    · obtain ⟨head, h, hne⟩ := hhead 0x84 noError [0, 0, 0, 1, 0, 0]
      simp [buildNegative, negativeOnWire, h, hne]

/-! ## Answers that are passed on -/

theorem cnames_rewriteTtls (f : UInt32 → Option UInt32) {msg : Bytes} {rs : List RecordRef}
    (hw : walk msg = some (rs, true)) : cnames (rewriteTtls msg f).1 = cnames msg := by
  rw [cnames, cnames, recordsOf_eq (rewriteTtls_spec f hw).1, recordsOf_eq hw]

theorem cnames_patchCached {msg : Bytes} {rs : List RecordRef} (hw : walk msg = some (rs, true))
    (id : UInt16) (ttl : UInt32) : cnames (patchCached msg id ttl) = cnames msg := by
  have hset : cnames (setId msg id) = cnames msg := by
    rw [cnames, cnames, recordsOf_eq (walk_setId hw id), recordsOf_eq hw]
  exact (cnames_rewriteTtls _ (walk_setId hw id)).trans hset

theorem cnames_capTtls (msg : Bytes) (ttl : UInt32) : cnames (capTtls msg ttl) = cnames msg := by
  by_cases hclean : isWellFormed msg = true
  · obtain ⟨rs, hw⟩ := isWellFormed_iff.1 hclean
    exact cnames_rewriteTtls _ hw
  · rw [capTtls, Wire.capTtls, rewriteTtls, if_neg hclean]

/-- Capping the lifetimes leaves the header. -/
theorem byteAt_capTtls (msg : Bytes) (ttl : UInt32) {i : ℕ} (hi : i < headerLen) :
    (capTtls msg ttl).byteAt i = msg.byteAt i := by
  by_cases hclean : isWellFormed msg = true
  · obtain ⟨rs, hw⟩ := isWellFormed_iff.1 hclean
    obtain ⟨-, -, helse, -⟩ := rewriteTtls_spec (fun old => if ttl < old then some ttl else none) hw
    rw [byteAt, byteAt]
    refine congrArg (Option.getD · 0) (helse i fun r hr => Or.inr ?_)
    have hbounds := (walk_bounds hw hr).1
    simp only [headerLen] at hi
    simp only [RecordRef.inTtl]
    omega
  · rw [capTtls, Wire.capTtls, rewriteTtls, if_neg hclean]

theorem length_capTtls (msg : Bytes) (ttl : UInt32) : (capTtls msg ttl).length = msg.length := by
  by_cases hclean : isWellFormed msg = true
  · obtain ⟨rs, hw⟩ := isWellFormed_iff.1 hclean
    exact (rewriteTtls_spec _ hw).2.1
  · rw [capTtls, Wire.capTtls, rewriteTtls, if_neg hclean]

/-- SERVFAIL is not the blocked answer. -/
theorem capTtls_buildServfail_ne {codec : Codec} (hcode : codec.KeepsCode) {raw : Bytes}
    (ttl : UInt32) {qtype : UInt16} {ttl' : UInt32} {answer : BlockAnswer}
    (hne : (buildBlocked codec raw qtype ttl' answer).1 ≠ []) :
    capTtls (buildServfail codec raw) ttl ≠ (buildBlocked codec raw qtype ttl' answer).1 := by
  intro heq
  have hservfail : buildServfail codec raw ≠ [] := by
    intro hnil
    have hlength := congrArg List.length heq
    rw [length_capTtls, hnil] at hlength
    exact hne (List.length_eq_zero_iff.1 hlength.symm)
  refine code_buildBlocked hcode hne ?_
  rw [← heq, byteAt_capTtls _ _ (by decide)]
  exact code_buildError hcode hservfail

/-- An answer rewritten for SafeSearch begins with a CNAME record, and is not the blocked answer
either. -/
theorem capTtls_rewriteAnswer_ne {codec : Codec} (hcodec : codec.KeepsTargets) {raw : Bytes}
    {name target : Text} {upstream out : Bytes}
    (h : rewriteAnswer codec raw name target upstream = some out) (ttl : UInt32) (qtype : UInt16)
    (ttl' : UInt32) (answer : BlockAnswer) :
    capTtls out ttl ≠ (buildBlocked codec raw qtype ttl' answer).1 := by
  intro heq
  simp only [rewriteAnswer, Option.bind_eq_bind, Option.bind_eq_some_iff] at h
  obtain ⟨_, -, _, -, owner, -, host, -, henc⟩ := h
  obtain ⟨-, htargets⟩ := hcodec.encoded henc
  have hnone : cnames out = [] := by
    rw [← cnames_capTtls out ttl, heq, cnames_buildBlocked hcodec]
  rw [TargetsOf, hnone, List.forall₂_nil_left_iff] at htargets
  simp [Message.cnameTargets, Record.fromRdata] at htargets

theorem Cloaks.cnames_ne_nil {codec : Codec} {lists : Lists P} {profile : Option P} {msg : Bytes}
    (h : Cloaks codec lists profile msg) : cnames msg ≠ [] := by
  obtain ⟨r, hr, -⟩ := h
  exact List.ne_nil_of_mem hr

theorem cnameTargets_withoutEch (m : Message) :
    ({ m with answers := m.answers.map Record.withoutEch } : Message).cnameTargets =
      m.cnameTargets := by
  unfold Message.cnameTargets
  rw [List.filterMap_map]
  refine List.filterMap_congr fun r _ => ?_
  cases hdata : r.data <;> simp [Record.withoutEch, hdata]

/-- Taking ECH parameters out leaves the CNAME targets, and a cloaked answer cloaked. -/
theorem cloaks_withoutEch {codec : Codec} (hcodec : codec.KeepsTargets) (switches : DnsSwitches)
    {lists : Lists P} {profile : Option P} {msg : Bytes} {rs : List RecordRef}
    (hw : walk msg = some (rs, true)) (h : Cloaks codec lists profile msg) (qtype : UInt16) :
    (∃ rs', walk (withoutEch codec switches msg qtype) = some (rs', true)) ∧
      Cloaks codec lists profile (withoutEch codec switches msg qtype) := by
  unfold withoutEch
  split
  · cases hech : stripEch codec msg with
    | none => exact ⟨⟨rs, hw⟩, h⟩
    | some out =>
      simp only [stripEch, Option.bind_eq_bind, Option.bind_eq_some_iff,
        Option.ite_none_right_eq_some] at hech
      obtain ⟨m, hm, -, hout⟩ := hech
      obtain ⟨hwalk, htargets⟩ := hcodec.encoded hout
      rw [cnameTargets_withoutEch] at htargets
      obtain ⟨r, hr, n, hname, hblocked⟩ := h
      obtain ⟨n', hn', hname'⟩ := forall₂_mem_left (hcodec.decoded hm hw) hr
      obtain ⟨r', hr', hname''⟩ := forall₂_mem_left htargets.flip hn'
      rw [hname.unique hname'] at hblocked
      exact ⟨hwalk, r', hr', n', hname'', hblocked⟩
  · exact ⟨⟨rs, hw⟩, h⟩

/-! ## What the client is sent -/

theorem walk_of_rcode {msg : Bytes} {rc : UInt8} (h : rcode msg = some rc) :
    ∃ rs, walk msg = some (rs, true) := by
  rcases clean_of_rcode h with rfl | hw
  · cases h
  · exact hw

/-- From the upstream: the blocked answer goes out, and nothing is cached, if and only if
the check sees the cloaked name. -/
theorem resolveUpstream_blocked_iff {ctx : DnsCtx P} (hcodec : ctx.codec.KeepsTargets)
    (cache : DnsCache) (now : ℕ) (raw : Bytes) {p : Pending P} {u : Bytes} (label : Text)
    (hrewrite : p.rewrite = none) (hfiltering : p.filteringEnabled = true)
    (hallowed : ctx.lists.isAllowedFor p.name p.profile = false) (hrc : rcode u = some 0)
    (hcloaks : Cloaks ctx.codec ctx.lists p.profile u) :
    ((resolveUpstream ctx cache now raw p (some (u, label))).bytes =
        (buildBlocked ctx.codec raw p.qtype p.clientTtl ctx.lists.blockAnswer).1 ∧
      (resolveUpstream ctx cache now raw p (some (u, label))).cache = cache) ↔
      Seen ctx.codec ctx.lists p.profile (withoutEch ctx.codec ctx.switches u p.qtype) := by
  obtain ⟨rs, hw⟩ := walk_of_rcode hrc
  obtain ⟨⟨rs', hw'⟩, hcloaks'⟩ := cloaks_withoutEch hcodec ctx.switches hw hcloaks p.qtype
  rw [← cnameBlockedTarget_isSome_iff hcodec hw' hallowed hcloaks']
  unfold resolveUpstream
  simp only [hrewrite, readReply, hrc, hfiltering, and_self, if_true]
  cases hblocked : cnameBlockedTarget ctx.codec ctx.lists
      (withoutEch ctx.codec ctx.switches u p.qtype) p.name p.profile with
  | some target => simp
  | none =>
    simp only [Option.isSome_none, Bool.false_eq_true, iff_false, not_and]
    intro hbytes
    -- what is passed on still has the CNAME records, and a blocked answer has none
    have hsent := cnames_capTtls (withoutEch ctx.codec ctx.switches u p.qtype) p.clientTtl
    rw [hbytes, cnames_buildBlocked hcodec] at hsent
    exact absurd hsent.symm hcloaks'.cnames_ne_nil

/-- For a query that SafeSearch rewrites, whatever the upstream says of the safe host is passed on
behind the rewritten name, or is a failure. -/
theorem resolveUpstream_rewritten {ctx : DnsCtx P} (hcodec : ctx.codec.KeepsTargets)
    (hcode : ctx.codec.KeepsCode) (cache : DnsCache) (now : ℕ) (raw : Bytes) {p : Pending P}
    (reply : Option (Bytes × Text)) {target : Text} (hrewrite : p.rewrite = some target)
    (hne : (buildBlocked ctx.codec raw p.qtype p.clientTtl ctx.lists.blockAnswer).1 ≠ []) :
    (resolveUpstream ctx cache now raw p reply).bytes ≠
      (buildBlocked ctx.codec raw p.qtype p.clientTtl ctx.lists.blockAnswer).1 := by
  have hbytes : (resolveUpstream ctx cache now raw p reply).bytes =
      capTtls (resolveSafeHost ctx cache now raw p.name p.qtype target reply).1 p.clientTtl := by
    unfold resolveUpstream
    rw [hrewrite]
  rw [hbytes]
  unfold resolveSafeHost
  split
  · rename_i u label _
    split
    · simp only
      cases hrewritten : rewriteAnswer ctx.codec raw p.name target u with
      | some out => exact capTtls_rewriteAnswer_ne hcodec hrewritten _ _ _ _
      | none => exact capTtls_buildServfail_ne hcode _ hne
    · exact capTtls_buildServfail_ne hcode _ hne
  · exact capTtls_buildServfail_ne hcode _ hne

/-- From the cache: the same for a hit, fresh or stale. -/
theorem stepCache_blocked_iff {ctx : DnsCtx P} (hcodec : ctx.codec.KeepsTargets)
    {cache : DnsCache} {now : ℕ} (permit : Bool) {q : Asking P} {cached : DnsResponse}
    {remaining : UInt32} {stale : Bool} (hhit : cacheHit cache now q = some (cached, remaining, stale))
    (hfiltering : q.filteringEnabled = true)
    (hallowed : ctx.lists.isAllowedFor q.name q.profile = false)
    (hclean : isWellFormed cached.bytes = true)
    (hcloaks : Cloaks ctx.codec ctx.lists q.profile cached.bytes) :
    ∃ o, stepCache ctx cache now permit q = some o ∧ o.cache.entries = cache.entries ∧
      (o.decision =
          .answer (buildBlocked ctx.codec q.raw q.qtype q.clientTtl ctx.lists.blockAnswer).1 ↔
        Seen ctx.codec ctx.lists q.profile cached.bytes) := by
  obtain ⟨rs, hw⟩ := isWellFormed_iff.1 hclean
  rw [← cnameBlockedTarget_isSome_iff hcodec hw hallowed hcloaks]
  have hentries : (if stale = true then refreshStale ctx cache permit q
      else (cache, none)).1.entries = cache.entries := by
    split
    · exact entries_refreshStale ctx cache permit q
    · rfl
  refine ⟨_, by rw [stepCache, hhit]; rfl, ?_⟩
  simp only [hfiltering, if_true]
  cases hblocked : cnameBlockedTarget ctx.codec ctx.lists cached.bytes q.name q.profile with
  | some target => exact ⟨hentries, by simp [blockedOutcome]⟩
  | none =>
    refine ⟨hentries, ?_⟩
    simp only [Option.isSome_none, Bool.false_eq_true, iff_false, Decision.answer.injEq]
    intro hbytes
    have hsent := cnames_patchCached hw (queryId q.raw) (min remaining q.clientTtl)
    rw [hbytes, cnames_buildBlocked hcodec] at hsent
    exact absurd hsent.symm hcloaks.cnames_ne_nil

/-- The safe host's cached answer, if the query is one that SafeSearch rewrites. -/
def safeSearchHit (ctx : DnsCtx P) (cache : DnsCache) (now : ℕ) (q : Asking P) (target : Text) :
    Option DnsResponse :=
  (cache.getWithRemaining target q.qtype false now).bind fun (cached, _) =>
    (rewriteAnswer ctx.codec q.raw q.name target cached.bytes).map fun _ => cached

/-- The cached answer that a query is answered from, if it is answered from one: the safe host's, or
the name's own where no step before the cache settles the query. -/
def answeredFrom (ctx : DnsCtx P) (cache : DnsCache) (now : ℕ) (q : Asking P) : Option DnsResponse :=
  if (((stepCustom ctx cache now q).or (stepCanary ctx cache q)).or
      (stepBlocklist ctx cache q)).isSome then none
  else
    match if q.filteringEnabled then ctx.lists.safeSearchTarget q.name q.profile else none with
    | some target => safeSearchHit ctx cache now q target
    | none =>
      if (stepRouting ctx cache q).isSome then none
      else (cacheHit cache now q).map Prod.fst

theorem settle_answeredFrom {ctx : DnsCtx P} {cache : DnsCache} {now : ℕ} (permit : Bool)
    {q : Asking P} {cached : DnsResponse} (hfiltering : q.filteringEnabled = true)
    (h : answeredFrom ctx cache now q = some cached) :
    (∃ target out remaining, ctx.lists.safeSearchTarget q.name q.profile = some target ∧
      rewriteAnswer ctx.codec q.raw q.name target cached.bytes = some out ∧
      (settle ctx cache now permit q).decision = .answer (capTtls out (min remaining q.clientTtl))) ∨
    (ctx.lists.safeSearchTarget q.name q.profile = none ∧
      (∃ remaining stale, cacheHit cache now q = some (cached, remaining, stale)) ∧
      ∀ o, stepCache ctx cache now permit q = some o → settle ctx cache now permit q = o) := by
  unfold answeredFrom at h
  split at h
  · cases h
  rename_i hbefore
  rw [Option.not_isSome_iff_eq_none] at hbefore
  cases htarget : ctx.lists.safeSearchTarget q.name q.profile with
  | some target =>
    rw [htarget] at h
    simp only [safeSearchHit, Option.bind_eq_some_iff, Option.map_eq_some_iff, Prod.exists] at h
    obtain ⟨_, remaining, hhit, out, hout, rfl⟩ := h
    refine Or.inl ⟨target, out, remaining, rfl, hout, ?_⟩
    simp [settle, hbefore, stepSafeSearch, hfiltering, htarget, hhit, hout]
  | none =>
    rw [htarget] at h
    simp only at h
    split at h
    · cases h
    rename_i hrouting
    rw [Option.not_isSome_iff_eq_none] at hrouting
    obtain ⟨⟨_, remaining, stale⟩, hhit, rfl⟩ := Option.map_eq_some_iff.1 h
    refine Or.inr ⟨rfl, ⟨remaining, stale, hhit⟩, fun o ho => ?_⟩
    simp [settle, hbefore, stepSafeSearch, hfiltering, htarget, hrouting, ho]

/-- For every client with filtering on and every clean answer with a blocked CNAME target
to a name that is not allowed for the client: the client is sent the blocked answer, and
the cache keeps its entries, if and only if SafeSearch does not rewrite the query, the check
sees the target, and there is a blocked answer to send.  The answer comes from the upstream, or
it is the one, fresh or stale, that the cache answers the query from. -/
theorem cloaked_answer_blocked_iff (ctx : DnsCtx P) (hcodec : ctx.codec.KeepsTargets)
    (hcode : ctx.codec.KeepsCode) (cache : DnsCache) (now : ℕ) :
    (∀ (raw : Bytes) (p : Pending P) (u : Bytes) (label : Text) (blocked : Bytes),
      blocked = (buildBlocked ctx.codec raw p.qtype p.clientTtl ctx.lists.blockAnswer).1 →
      p.filteringEnabled = true → ctx.lists.isAllowedFor p.name p.profile = false →
      rcode u = some 0 → Cloaks ctx.codec ctx.lists p.profile u →
      (((resolveUpstream ctx cache now raw p (some (u, label))).bytes = blocked ∧ blocked ≠ [] ∧
        (resolveUpstream ctx cache now raw p (some (u, label))).cache = cache) ↔
        p.rewrite = none ∧
          Seen ctx.codec ctx.lists p.profile (withoutEch ctx.codec ctx.switches u p.qtype) ∧
          blocked ≠ [])) ∧
    ∀ (permit : Bool) (raw : Bytes) (src : IpAddr) (clientId : Option Text) (name : Text)
      (qtype : UInt16) (q : Asking P) (cached : DnsResponse) (blocked : Bytes),
      opcode raw = some 0 → question ctx.codec raw = some (name, qtype) →
      q = identify ctx raw src clientId name qtype →
      blocked = (buildBlocked ctx.codec q.raw q.qtype q.clientTtl ctx.lists.blockAnswer).1 →
      answeredFrom ctx cache now q = some cached → q.filteringEnabled = true →
      ctx.lists.isAllowedFor q.name q.profile = false → isWellFormed cached.bytes = true →
      Cloaks ctx.codec ctx.lists q.profile cached.bytes →
      (((decideAs ctx cache now .pass permit raw src clientId).decision = .answer blocked ∧
        blocked ≠ [] ∧
        (decideAs ctx cache now .pass permit raw src clientId).cache.entries = cache.entries) ↔
        ctx.lists.safeSearchTarget q.name q.profile = none ∧
          Seen ctx.codec ctx.lists q.profile cached.bytes ∧ blocked ≠ []) := by
  constructor
  · rintro raw p u label blocked rfl hfiltering hallowed hrc hcloaks
    cases hrewrite : p.rewrite with
    | some target =>
      refine iff_of_false (fun ⟨hbytes, hne, _⟩ => ?_) nofun
      exact resolveUpstream_rewritten hcodec hcode cache now raw _ hrewrite hne hbytes
    | none =>
      have hiff := resolveUpstream_blocked_iff hcodec cache now raw label hrewrite hfiltering
        hallowed hrc hcloaks
      tauto
  · rintro permit raw src clientId name qtype q cached blocked hopcode hquestion hq rfl hfrom
      hfiltering hallowed hclean hcloaks
    have hdecide : decideAs ctx cache now .pass permit raw src clientId =
        settle ctx cache now permit q := by
      simp only [decideAs, hopcode, ne_eq, not_true, if_false, hquestion, ← hq]
    rw [hdecide]
    obtain ⟨target, out, remaining, htarget, hout, hsettle⟩ | ⟨htarget, ⟨remaining, stale, hhit⟩,
      hsettle⟩ := settle_answeredFrom permit hfiltering hfrom
    · refine iff_of_false (fun ⟨hbytes, _, _⟩ => ?_) (fun h => by simp [htarget] at h)
      rw [hsettle, Decision.answer.injEq] at hbytes
      exact capTtls_rewriteAnswer_ne hcodec hout _ _ _ _ hbytes
    · obtain ⟨o, ho, hentries, hiff⟩ :=
        stepCache_blocked_iff hcodec permit hhit hfiltering hallowed hclean hcloaks
      rw [hsettle o ho]
      tauto

/-! ## A codec for plain names -/

theorem asciiLower_eq_dot : ∀ n < 256, asciiLower (Char.ofNat n) = '.' → n = 0x2E := by
  decide +kernel

theorem dot_notMem_labelText {label : Bytes} (h : PlainLabel label) : '.' ∉ labelText label := by
  intro hmem
  obtain ⟨b, hb, hdot⟩ := List.mem_map.1 hmem
  have hbyte : b = 0x2E := UInt8.toNat_inj.1 (asciiLower_eq_dot b.toNat b.toNat_lt hdot)
  obtain ⟨i, hi, hget⟩ := List.mem_iff_getElem.1 hb
  have hplain := h.2
  simp only [isPlainLabel, Bool.and_eq_true, List.all_eq_true, List.mem_mapIdx] at hplain
  have hi' := hplain.2 _ ⟨i, by simpa using hi, rfl⟩
  simp [hget, hbyte] at hi'

/-- A codec over a table of messages without CNAME records, which writes plain names as
`to_utf8` does. -/
theorem keepsTargets_ofRows {rows : List (Bytes × Message)}
    (h : ∀ row ∈ rows, isWellFormed row.1 = true ∧ cnames row.1 = [] ∧ row.2.cnameTargets = []) :
    ({ Codec.ofRows rows with toUtf8 := fun n => plainText n ++ ['.'] } : Codec).KeepsTargets where
  decoded hm _ := by
    obtain ⟨-, hwire, hmessage⟩ := h _ (mem_rows_of_fromBytes hm)
    rw [TargetsOf, hwire, hmessage]
    exact .nil
  encoded hm := by
    obtain ⟨hwalk, hwire, hmessage⟩ := h _ (mem_rows_of_toBytes hm)
    rw [TargetsOf, hwire, hmessage]
    exact ⟨isWellFormed_iff.1 hwalk, .nil⟩
  plain n hn := by
    have htrim : (Text.dotted (n.map labelText) ++ ['.']).trimEndMatches (· == '.') =
        Text.dotted (n.map labelText) := by
      refine Text.trimEndMatches_dotted (fun l hl => ?_) fun c hc => List.mem_singleton.1 hc
      obtain ⟨label, hlabel, rfl⟩ := List.mem_map.1 hl
      exact ⟨labelText_ne_nil (hn label hlabel), dot_notMem_labelText (hn label hlabel)⟩
    rw [← plainText_eq] at htrim
    exact htrim

theorem keepsCode_ofRows {rows : List (Bytes × Message)}
    (h : ∀ row ∈ rows, row.1.byteAt 3 &&& 0x0F = rcodeLow row.2.metadata.responseCode) :
    (Codec.ofRows rows).KeepsCode :=
  fun hm => h _ (mem_rows_of_toBytes hm)

namespace Cloaked

/-- The example's codec, with the names. -/
def codec : Codec := { Example.codec with toUtf8 := fun n => plainText n ++ ['.'] }

/-- Filtering is on, and `t` is blocked. -/
def ctx : DnsCtx Unit :=
  { Example.ctx with
    codec := codec
    lists := { Example.ctx.lists with
      blockingEnabled := true
      shouldBlockFor := fun t _ => t == ['t'] } }

/-- The stub's query for `x`, on its way upstream. -/
def pending : Pending Unit := (identify ctx Example.stub Example.host none ['x'] 1).pending false none

/-- An answer to it with the given records. -/
def answer (records : List Bytes) : Bytes :=
  [0x12, 0x34, 0x81, 0x80, 0, 1, 0, UInt8.ofNat records.length, 0, 0, 0, 0, 1, 0x78, 0, 0, 1, 0, 1] ++
    records.flatten

/-- A record for `x` of the given type and data. -/
def record (rtype : UInt8) (rdata : Bytes) : Bytes :=
  [0xC0, 12, 0, rtype, 0, 1, 0, 0, 1, 0x2C, 0, UInt8.ofNat rdata.length] ++ rdata

/-- `x` is an alias of `t`. -/
def aliased : Bytes := answer [record 5 [1, 0x74, 0]]

/-- Before that, an alias whose label has a dot in it, and an address of three bytes. -/
def smuggled : Bytes :=
  answer [record 5 [3, 0x61, 0x2E, 0x62, 0], record 1 [192, 0, 2], record 5 [1, 0x74, 0]]

theorem keepsTargets : ctx.codec.KeepsTargets := keepsTargets_ofRows (by decide)

theorem keepsCode : ctx.codec.KeepsCode := by
  have hcode : Example.codec.KeepsCode := keepsCode_ofRows (by decide)
  intro m bytes hm
  exact hcode hm

/-- The alias in the cache. -/
def aliasedCache : DnsCache := (DnsCache.new 10 0 0 0).insert ['x'] 1 false ⟨aliased, 300⟩ 0

/-- The name `t` where the bytes say so. -/
theorem nameAt_t {msg : Bytes} {i : ℕ} (hlen : msg[i]? = some 1) (hlabel : msg[i + 1]? = some 0x74)
    (hroot : msg[i + 2]? = some 0) : NameAt msg i [[0x74]] := by
  have hfits : i + 2 < msg.length := (List.getElem?_eq_some_iff.1 hroot).1
  have htext : (msg.drop (i + 1)).take (1 : UInt8).toNat = [0x74] := by
    obtain ⟨hlt, hget⟩ := List.getElem?_eq_some_iff.1 hlabel
    rw [List.drop_eq_getElem_cons hlt, hget]
    rfl
  exact htext ▸ .label hlen (by decide) (by decide) (Nat.le_of_lt hfits) (.root hroot)

end Cloaked

open Cloaked in
/-- The alias is caught, from the upstream and from the cache. -/
theorem cloaked_answer_blocked_alias :
    (resolveUpstream ctx (.new 10 0 0 0) 0 Example.stub pending (some (aliased, ['u']))).bytes =
        buildNxdomain ctx.codec Example.stub 60 ∧
      (decideAs ctx aliasedCache 1 .pass false Example.stub Example.host none).decision =
        .answer (buildNxdomain ctx.codec Example.stub 60) := by
  have hcloaks : Cloaks ctx.codec ctx.lists none aliased :=
    ⟨⟨.answer, 5, 1, 25, 31, 3⟩, by decide +kernel, [[0x74]], nameAt_t (by decide +kernel)
      (by decide +kernel) (by decide +kernel), by decide +kernel⟩
  have hfrom : answeredFrom ctx aliasedCache 1
      (identify ctx Example.stub Example.host none ['x'] 1) = some ⟨aliased, 300⟩ := by decide +kernel
  exact ⟨((cloaked_answer_blocked_iff ctx keepsTargets keepsCode (.new 10 0 0 0) 0).1 Example.stub
      pending aliased ['u'] _ rfl rfl rfl (by decide +kernel) hcloaks).2
        ⟨rfl, by decide +kernel, by decide +kernel⟩ |>.1,
    ((cloaked_answer_blocked_iff ctx keepsTargets keepsCode aliasedCache 1).2 false Example.stub
      Example.host none ['x'] 1 _ ⟨aliased, 300⟩ _ (by decide +kernel) (by decide +kernel) rfl rfl hfrom
      rfl rfl (by decide +kernel) hcloaks).2 ⟨rfl, by decide +kernel, by decide +kernel⟩ |>.1⟩

open Cloaked in
/-- Behind a name the walk cannot spell, in a message the decoder refuses, it passes, and
is kept for the next client. -/
theorem cloaked_answer_passes :
    Cloaks ctx.codec ctx.lists none smuggled ∧ rcode smuggled = some 0 ∧
      isWellFormed smuggled = true ∧ ctx.codec.fromBytes smuggled = none ∧
      (resolveUpstream ctx (.new 10 0 0 0) 0 Example.stub pending (some (smuggled, ['u']))).bytes =
        capTtls smuggled 60 ∧
      capTtls smuggled 60 ≠ buildNxdomain ctx.codec Example.stub 60 := by
  refine ⟨⟨⟨.answer, 5, 1, 57, 63, 3⟩, by decide +kernel, [[0x74]], nameAt_t (by decide +kernel)
    (by decide +kernel) (by decide +kernel), by decide +kernel⟩, by decide +kernel, by decide +kernel,
    by decide +kernel, by decide +kernel, by decide +kernel⟩

end Ferrite.Dns
