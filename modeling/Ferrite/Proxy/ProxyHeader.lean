import Ferrite.Proxy.Peek

/-!
# The PROXY header

`edge/src/peek/proxy_protocol.rs`: the header a reverse proxy puts in front of a connection
it passes on, a line of text (version 1) or a binary block (version 2).

* `parse_append` — once what has arrived decides, more bytes decide nothing else;
* `parse_of_append` — and a header is known as soon as all of it has arrived.
-/

namespace Ferrite.Proxy

open Bytes

/-! ## Looking for a separator -/

/-- Where a needle is first found, more bytes behind it change nothing. -/
theorem findSubsequence_append_of_some {needle bs : Bytes} {i : ℕ}
    (h : findSubsequence needle bs = some i) (more : Bytes) :
    findSubsequence needle (bs ++ more) = some i ∧ i + needle.length ≤ bs.length := by
  induction bs generalizing i with
  | nil => cases h
  | cons b bs ih =>
    rw [List.cons_append, findSubsequence]
    rw [findSubsequence] at h
    by_cases hhere : needle.isPrefixOf (b :: bs) = true
    · rw [if_pos hhere] at h
      cases h
      have hpre := List.isPrefixOf_iff_prefix.1 hhere
      have hmore : needle.isPrefixOf (b :: (bs ++ more)) = true :=
        List.isPrefixOf_iff_prefix.2 (hpre.trans (List.prefix_append (b :: bs) more))
      rw [if_pos hmore, Nat.zero_add]
      exact ⟨rfl, hpre.length_le⟩
    · rw [if_neg hhere] at h
      obtain ⟨j, hj, rfl⟩ := Option.map_eq_some_iff.1 h
      obtain ⟨hfind, hle⟩ := ih hj
      -- a needle that starts here would reach past where it is found
      have hlater : ¬ needle.isPrefixOf (b :: (bs ++ more)) = true := by
        intro hpre
        refine hhere (List.isPrefixOf_iff_prefix.2 ?_)
        refine List.prefix_of_prefix_length_le (List.isPrefixOf_iff_prefix.1 hpre)
          (List.prefix_append (b :: bs) more) ?_
        rw [List.length_cons]
        omega
      rw [if_neg hlater, hfind]
      refine ⟨rfl, ?_⟩
      rw [List.length_cons]
      omega

/-- What is found within the bytes that are there was found without the others. -/
theorem findSubsequence_of_append {needle bs more : Bytes} {i : ℕ} (hne : needle ≠ [])
    (h : findSubsequence needle (bs ++ more) = some i) (hle : i + needle.length ≤ bs.length) :
    findSubsequence needle bs = some i := by
  induction bs generalizing i with
  | nil =>
    have hlen := List.length_pos_iff.2 hne
    rw [List.length_nil] at hle
    omega
  | cons b bs ih =>
    rw [List.cons_append, findSubsequence] at h
    rw [findSubsequence]
    split_ifs at h with hmore
    · cases h
      have hpre : needle <+: b :: bs := by
        refine List.prefix_of_prefix_length_le (List.isPrefixOf_iff_prefix.1 hmore)
          (List.prefix_append (b :: bs) more) ?_
        omega
      rw [if_pos (List.isPrefixOf_iff_prefix.2 hpre)]
    · obtain ⟨j, hj, rfl⟩ := Option.map_eq_some_iff.1 h
      have hnot : ¬ needle.isPrefixOf (b :: bs) = true := by
        intro hpre
        exact hmore (List.isPrefixOf_iff_prefix.2
          ((List.isPrefixOf_iff_prefix.1 hpre).trans (List.prefix_append (b :: bs) more)))
      rw [List.length_cons] at hle
      rw [if_neg hnot, ih hj (by omega)]
      rfl

/-! ## The parser -/

/-- `V2_SIG`. -/
def v2Sig : Bytes := [13, 10, 13, 10, 0, 13, 10, 0x51, 0x55, 0x49, 0x54, 10]

/-- How a header of version 1 starts, `PROXY `. -/
def v1Sig : Bytes := [0x50, 0x52, 0x4F, 0x58, 0x59, 0x20]

/-- `V1_MAX`: the longest line, its end included. -/
def v1Max : ℕ := 107

/-- The end of a line. -/
def crlf : Bytes := [13, 10]

/-- `Header`. -/
inductive Header where
  | incomplete
  | absent
  | present (client : Option SocketAddr) (len : ℕ)
  | invalid
deriving DecidableEq, Repr

/-- `SocketAddr::new`. -/
def SocketAddr.new (ip : IpAddr) (port : UInt16) : SocketAddr :=
  match ip with
  | .v4 ip => .v4 ip port
  | .v6 ip => .v6 ip port 0

/-- `str::parse::<u16>`: digits, after a plus sign if there is one. -/
def parseU16 (s : Text) : Option UInt16 :=
  let digits := if s.head? = some '+' then s.tail else s
  (Reader.parse (Reader.number 10 decDigit none true (2 ^ 16)) digits).map UInt16.ofNat

/-- What the words of a line of `len` bytes say. -/
def v1Words (len : ℕ) : List Text → Header
  | proxy :: kind :: rest =>
    if proxy ≠ "PROXY".toList then .invalid
    else if kind = "UNKNOWN".toList then .present none len
    else if kind = "TCP4".toList ∨ kind = "TCP6".toList then
      match rest with
      | [src, _, sport, _] =>
        match Reader.parse Reader.ip src, parseU16 sport with
        | some ip, some port => .present (some (SocketAddr.new ip port)) len
        | _, _ => .invalid
      | _ => .invalid
    else .invalid
  | _ => .invalid

/-- `v1_line`. -/
def v1Line (buf : Bytes) : Header :=
  match findSubsequence crlf buf with
  | none => if v1Max ≤ buf.length then .invalid else .incomplete
  | some lineEnd =>
    let len := lineEnd + 2
    if v1Max < len then .invalid
    else
      match fromUtf8 (buf.take lineEnd) with
      | none => .invalid
      | some line => v1Words len (line.splitOn ' ')

/-- The client a block of version 2 names, by its address family. -/
def v2Client (family : UInt8) (a : Bytes) : Option SocketAddr :=
  if family = 0x11 ∧ 12 ≤ a.length then
    some (.v4 ⟨a.byteAt 0, a.byteAt 1, a.byteAt 2, a.byteAt 3⟩ (a.readU16 8))
  else if h : family = 0x21 ∧ 36 ≤ a.length then
    some (.v6 ⟨a.take 16, List.length_take_of_le (Nat.le_trans (by decide) h.2)⟩ (a.readU16 32) 0)
  else none

/-- `v2`. -/
def v2 (buf : Bytes) : Header :=
  if buf.length < 16 then .incomplete
  else
    let verCmd := buf.byteAt 12
    let len := 16 + (buf.readU16 14).toNat
    if verCmd >>> 4 ≠ 2 then .invalid
    else if buf.length < len then .incomplete
    else if verCmd &&& 0x0F = 0 then .present none len
    else .present (v2Client (buf.byteAt 13) ((buf.take len).drop 16)) len

/-- `parse`. -/
def Header.parse (buf : Bytes) : Header :=
  if (buf.length < v1Sig.length ∧ buf <+: v1Sig) ∨ (buf.length < v2Sig.length ∧ buf <+: v2Sig) ∨
      buf = [] then .incomplete
  else if v1Sig <+: buf then v1Line buf
  else if v2Sig <+: buf then v2 buf
  else .absent

/-! ## As more arrives -/

theorem v1Words_len {len : ℕ} {words : List Text} {client : Option SocketAddr} {len' : ℕ}
    (h : v1Words len words = .present client len') : len' = len := by
  unfold v1Words at h
  split at h
  · split_ifs at h
    · cases h
      rfl
    · split at h
      · split at h
        · cases h
          rfl
        · cases h
      · cases h
  · cases h

theorem v1Line_ne_absent (buf : Bytes) : v1Line buf ≠ .absent := by
  have hwords : ∀ len words, v1Words len words ≠ .absent := by
    intro len words
    unfold v1Words
    split
    · split_ifs
      · simp
      · simp
      · split
        · split <;> simp
        · simp
      · simp
    · simp
  simp only [v1Line]
  split
  · split_ifs <;> simp
  · split_ifs
    · simp
    · split
      · simp
      · exact hwords _ _

theorem v2_ne_absent (buf : Bytes) : v2 buf ≠ .absent := by
  simp only [v2]
  split_ifs <;> simp

/-- The line is whole: what is behind it does not count. -/
theorem v1Line_append_of_some {buf : Bytes} {i : ℕ} (h : findSubsequence crlf buf = some i)
    (more : Bytes) : v1Line (buf ++ more) = v1Line buf := by
  obtain ⟨hmore, hle⟩ := findSubsequence_append_of_some h more
  have htake : (buf ++ more).take i = buf.take i :=
    List.take_append_of_le_length (Nat.le_trans (Nat.le_add_right _ _) hle)
  unfold v1Line
  rw [h, hmore]
  simp only [htake]

theorem v1Line_append {buf : Bytes} (h : v1Line buf ≠ .incomplete) (more : Bytes) :
    v1Line (buf ++ more) = v1Line buf := by
  cases hfind : findSubsequence crlf buf with
  | some i => exact v1Line_append_of_some hfind more
  | none =>
    have hlong : v1Max ≤ buf.length := by
      by_contra hshort
      refine h ?_
      unfold v1Line
      rw [hfind]
      exact if_neg hshort
    have hinvalid : v1Line buf = .invalid := by
      unfold v1Line
      rw [hfind]
      exact if_pos hlong
    rw [hinvalid]
    unfold v1Line
    cases hmore : findSubsequence crlf (buf ++ more) with
    | none =>
      refine if_pos ?_
      rw [List.length_append]
      omega
    | some j =>
      -- the line ends behind what was there, so it is too long
      have hj : ¬ j + crlf.length ≤ buf.length := by
        intro hle
        rw [findSubsequence_of_append (by decide) hmore hle] at hfind
        cases hfind
      have hlen : crlf.length = 2 := rfl
      exact if_pos (by omega)

theorem v1Line_of_append {buf more : Bytes} {client : Option SocketAddr} {len : ℕ}
    (h : v1Line (buf ++ more) = .present client len) :
    (∃ i, findSubsequence crlf (buf ++ more) = some i ∧ len = i + 2) ∧
      (len ≤ buf.length → v1Line buf = .present client len) := by
  cases hmore : findSubsequence crlf (buf ++ more) with
  | none =>
    unfold v1Line at h
    rw [hmore] at h
    simp only at h
    split_ifs at h
  | some i =>
    have hlen : len = i + 2 := by
      unfold v1Line at h
      rw [hmore] at h
      simp only at h
      split_ifs at h
      split at h
      · cases h
      · exact v1Words_len h
    refine ⟨⟨i, rfl, hlen⟩, fun hle => ?_⟩
    have hfind := findSubsequence_of_append (by decide) hmore (hlen ▸ hle)
    rw [← v1Line_append_of_some hfind more]
    exact h

/-- The fields of a block lie in its first sixteen bytes. -/
theorem v2_fields_append {buf : Bytes} (h : 16 ≤ buf.length) (more : Bytes) :
    (buf ++ more).byteAt 12 = buf.byteAt 12 ∧ (buf ++ more).byteAt 13 = buf.byteAt 13 ∧
      (buf ++ more).readU16 14 = buf.readU16 14 := by
  have hagree := agreeOn_append buf more 0
  exact ⟨hagree.byteAt (by omega) (by omega), hagree.byteAt (by omega) (by omega),
    hagree.readU16 (by omega) (by omega)⟩

theorem v2_eq_incomplete_iff {buf : Bytes} :
    v2 buf = .incomplete ↔ buf.length < 16 ∨
      (buf.byteAt 12 >>> 4 = 2 ∧ buf.length < 16 + (buf.readU16 14).toNat) := by
  unfold v2
  by_cases hshort : buf.length < 16
  · simp [hshort]
  · by_cases hversion : buf.byteAt 12 >>> 4 = 2
    · by_cases hwhole : buf.length < 16 + (buf.readU16 14).toNat
      · simp [hversion, hwhole]
      · simp only [hshort, hversion, hwhole, if_false, ne_eq, not_true, false_or, and_false]
        split_ifs <;> simp
    · simp [hshort, hversion]

/-- The block is whole: what is behind it does not count. -/
theorem v2_append {buf : Bytes} (h : v2 buf ≠ .incomplete) (more : Bytes) :
    v2 (buf ++ more) = v2 buf := by
  rw [ne_eq, v2_eq_incomplete_iff, not_or] at h
  obtain ⟨hlong, hwhole⟩ := h
  obtain ⟨hver, hfamily, hbody⟩ := v2_fields_append (Nat.not_lt.1 hlong) more
  have hlong' : ¬ (buf ++ more).length < 16 := by
    rw [List.length_append]
    omega
  unfold v2
  rw [if_neg hlong, if_neg hlong', hver, hfamily, hbody]
  by_cases hversion : buf.byteAt 12 >>> 4 = 2
  · have hwhole : ¬ buf.length < 16 + (buf.readU16 14).toNat := fun hlt => hwhole ⟨hversion, hlt⟩
    have hwhole' : ¬ (buf ++ more).length < 16 + (buf.readU16 14).toNat := by
      rw [List.length_append]
      omega
    simp only [hversion, hwhole, hwhole', if_false, ne_eq, not_true,
      List.take_append_of_le_length (Nat.not_lt.1 hwhole)]
  · simp only [hversion, if_true, ne_eq, not_false_eq_true]

theorem v2_len {buf : Bytes} {client : Option SocketAddr} {len : ℕ}
    (h : v2 buf = .present client len) : len = 16 + (buf.readU16 14).toNat ∧ len ≤ buf.length := by
  have hne : v2 buf ≠ .incomplete := by
    rw [h]
    simp
  rw [ne_eq, v2_eq_incomplete_iff, not_or] at hne
  obtain ⟨hlong, hwhole⟩ := hne
  unfold v2 at h
  rw [if_neg hlong] at h
  by_cases hversion : buf.byteAt 12 >>> 4 = 2
  · have hwhole : ¬ buf.length < 16 + (buf.readU16 14).toNat := fun hlt => hwhole ⟨hversion, hlt⟩
    simp only [hversion, hwhole, if_false, ne_eq, not_true] at h
    split_ifs at h
    · cases h
      exact ⟨rfl, Nat.not_lt.1 hwhole⟩
    · cases h
      exact ⟨rfl, Nat.not_lt.1 hwhole⟩
  · simp only [hversion, if_true, ne_eq, not_false_eq_true] at h
    cases h

theorem v2_of_append {buf more : Bytes} {client : Option SocketAddr} {len : ℕ}
    (h : v2 (buf ++ more) = .present client len) (hle : len ≤ buf.length) :
    v2 buf = .present client len := by
  obtain ⟨hlen, -⟩ := v2_len h
  have hlong : 16 ≤ buf.length := by omega
  have hne : v2 buf ≠ .incomplete := by
    rw [ne_eq, v2_eq_incomplete_iff]
    rintro (hshort | ⟨-, hpart⟩)
    · omega
    · rw [(v2_fields_append hlong more).2.2] at hlen
      omega
  rw [← v2_append hne more]
  exact h

namespace Header

theorem parse_v1 {buf : Bytes} (h : v1Sig <+: buf) : parse buf = v1Line buf := by
  have hlen : 6 ≤ buf.length := h.length_le
  have hne : buf ≠ [] := by
    rintro rfl
    exact absurd hlen (by decide)
  have hv2 : ¬ buf <+: v2Sig := fun h' => absurd (h.trans h') (by decide)
  unfold parse
  rw [if_neg, if_pos h]
  rintro (⟨hshort, -⟩ | ⟨-, h'⟩ | h')
  · exact absurd hshort (Nat.not_lt.2 hlen)
  · exact hv2 h'
  · exact hne h'

theorem parse_v2 {buf : Bytes} (h : v2Sig <+: buf) : parse buf = v2 buf := by
  have hlen : 12 ≤ buf.length := h.length_le
  have hne : buf ≠ [] := by
    rintro rfl
    exact absurd hlen (by decide)
  have hv1 : ¬ v1Sig <+: buf := by
    intro h'
    exact absurd (List.prefix_of_prefix_length_le h' h (by decide)) (by decide)
  have hv1' : ¬ buf <+: v1Sig := fun h' => absurd (h.trans h') (by decide)
  unfold parse
  rw [if_neg, if_neg hv1, if_pos h]
  rintro (⟨-, h'⟩ | ⟨hshort, -⟩ | h')
  · exact hv1' h'
  · exact absurd hshort (Nat.not_lt.2 hlen)
  · exact hne h'

/-- Otherwise there is a header only if one may still come. -/
theorem parse_other {buf : Bytes} (hv1 : ¬ v1Sig <+: buf) (hv2 : ¬ v2Sig <+: buf) :
    parse buf = if buf <+: v1Sig ∨ buf <+: v2Sig then .incomplete else .absent := by
  have hshort : ∀ sig : Bytes, ¬ sig <+: buf → buf <+: sig → buf.length < sig.length := by
    intro sig hsig hbuf
    refine Nat.lt_of_le_of_ne hbuf.length_le fun heq => hsig ?_
    rw [hbuf.eq_of_length heq]
  unfold parse
  by_cases h : buf <+: v1Sig ∨ buf <+: v2Sig
  · rw [if_pos h, if_pos]
    rcases h with h | h
    · exact .inl ⟨hshort v1Sig hv1 h, h⟩
    · exact .inr (.inl ⟨hshort v2Sig hv2 h, h⟩)
  · rw [if_neg h, if_neg, if_neg hv1, if_neg hv2]
    rintro (⟨-, h'⟩ | ⟨-, h'⟩ | rfl)
    · exact h (.inl h')
    · exact h (.inr h')
    · exact h (.inl (List.nil_prefix))

/-- **Once it is decided, it stays so.** -/
theorem parse_append {buf : Bytes} (h : parse buf ≠ .incomplete) (more : Bytes) :
    parse (buf ++ more) = parse buf := by
  have hpre := List.prefix_append buf more
  by_cases hv1 : v1Sig <+: buf
  · rw [parse_v1 hv1] at h ⊢
    rw [parse_v1 (hv1.trans hpre)]
    exact v1Line_append h more
  by_cases hv2 : v2Sig <+: buf
  · rw [parse_v2 hv2] at h ⊢
    rw [parse_v2 (hv2.trans hpre)]
    exact v2_append h more
  rw [parse_other hv1 hv2] at h ⊢
  have hnot : ¬ (buf <+: v1Sig ∨ buf <+: v2Sig) := fun h' => h (if_pos h')
  rw [not_or] at hnot
  have hstart : ∀ sig : Bytes, ¬ sig <+: buf → ¬ buf <+: sig → ¬ sig <+: buf ++ more := by
    intro sig hsig hbuf hmore
    rcases List.prefix_or_prefix_of_prefix hmore hpre with h' | h'
    · exact hsig h'
    · exact hbuf h'
  rw [parse_other (hstart v1Sig hv1 hnot.1) (hstart v2Sig hv2 hnot.2), if_neg, if_neg]
  · rw [not_or]
    exact hnot
  · rintro (h' | h')
    · exact hnot.1 (hpre.trans h')
    · exact hnot.2 (hpre.trans h')

/-- A header is as long as it says, and as soon as so much has arrived it is known. -/
theorem parse_of_append {buf more : Bytes} {client : Option SocketAddr} {len : ℕ}
    (h : parse (buf ++ more) = .present client len) (hle : len ≤ buf.length) :
    parse buf = .present client len := by
  have hpre := List.prefix_append buf more
  by_cases hv1 : v1Sig <+: buf ++ more
  · rw [parse_v1 hv1] at h
    obtain ⟨⟨i, hfind, hlen⟩, hline⟩ := v1Line_of_append h
    have hbuf : v1Sig <+: buf := by
      rcases List.prefix_or_prefix_of_prefix hv1 hpre with h' | ⟨t, ht⟩
      · exact h'
      · -- a line end would lie in the signature
        have hshort := findSubsequence_of_append (by decide) hfind (hlen ▸ hle)
        have hsig := (findSubsequence_append_of_some hshort t).1
        rw [ht] at hsig
        have hnone : findSubsequence crlf v1Sig = none := by decide
        rw [hnone] at hsig
        cases hsig
    rw [parse_v1 hbuf]
    exact hline hle
  · by_cases hv2 : v2Sig <+: buf ++ more
    · rw [parse_v2 hv2] at h
      have hlong : 16 ≤ buf.length := by
        have hlen := (v2_len h).1
        omega
      have hbuf : v2Sig <+: buf :=
        List.prefix_of_prefix_length_le hv2 hpre (Nat.le_trans (by decide) hlong)
      rw [parse_v2 hbuf]
      exact v2_of_append h hle
    · rw [parse_other hv1 hv2] at h
      split_ifs at h

theorem len_le {buf : Bytes} {client : Option SocketAddr} {len : ℕ}
    (h : parse buf = .present client len) : len ≤ buf.length := by
  by_cases hv1 : v1Sig <+: buf
  · rw [parse_v1 hv1, ← List.append_nil buf] at h
    obtain ⟨⟨i, hfind, rfl⟩, -⟩ := v1Line_of_append h
    rw [List.append_nil] at hfind
    exact (findSubsequence_append_of_some hfind []).2
  · by_cases hv2 : v2Sig <+: buf
    · rw [parse_v2 hv2] at h
      exact (v2_len h).2
    · rw [parse_other hv1 hv2] at h
      split_ifs at h

/-- That there is none is known from twelve bytes on. -/
theorem parse_of_append_absent {buf more : Bytes} (h : parse (buf ++ more) = .absent)
    (hlen : 12 ≤ buf.length) : parse buf = .absent := by
  have hpre := List.prefix_append buf more
  have hv1 : ¬ v1Sig <+: buf := by
    intro hv1
    rw [parse_v1 (hv1.trans hpre)] at h
    exact v1Line_ne_absent _ h
  have hv2 : ¬ v2Sig <+: buf := by
    intro hv2
    rw [parse_v2 (hv2.trans hpre)] at h
    exact v2_ne_absent _ h
  rw [parse_other hv1 hv2, if_neg]
  rintro (h' | h')
  · exact absurd (Nat.le_trans hlen h'.length_le) (by decide)
  · exact hv2 (h'.eq_of_length (Nat.le_antisymm h'.length_le hlen) ▸ List.prefix_refl _)

/-- A header does not start like a TLS record. -/
theorem head?_of_present {buf : Bytes} {client : Option SocketAddr} {len : ℕ}
    (h : parse buf = .present client len) : ∃ b, buf.head? = some b ∧ b ≠ tlsHandshake := by
  by_cases hv1 : v1Sig <+: buf
  · obtain ⟨more, rfl⟩ := hv1
    exact ⟨0x50, rfl, by decide⟩
  · by_cases hv2 : v2Sig <+: buf
    · obtain ⟨more, rfl⟩ := hv2
      exact ⟨13, rfl, by decide⟩
    · rw [parse_other hv1 hv2] at h
      split_ifs at h

/-- Before a TLS record there is no header. -/
theorem parse_of_tls {buf : Bytes} (h : buf.head? = some tlsHandshake) : parse buf = .absent := by
  have hstart : ∀ sig : Bytes, sig.head? ≠ some tlsHandshake → sig ≠ [] →
      ¬ sig <+: buf ∧ ¬ buf <+: sig := by
    intro sig hsig hne
    cases buf with
    | nil => cases h
    | cons b buf =>
      cases sig with
      | nil => exact absurd rfl hne
      | cons a sig =>
        cases h
        refine ⟨fun h' => hsig ?_, fun h' => hsig ?_⟩
        · rw [(List.cons_prefix_cons.1 h').1]
          rfl
        · rw [← (List.cons_prefix_cons.1 h').1]
          rfl
  obtain ⟨hv1, hv1'⟩ := hstart v1Sig (by decide) (by decide)
  obtain ⟨hv2, hv2'⟩ := hstart v2Sig (by decide) (by decide)
  rw [parse_other hv1 hv2, if_neg (not_or.2 ⟨hv1', hv2'⟩)]

end Header

end Ferrite.Proxy
