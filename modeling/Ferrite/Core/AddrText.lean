import Ferrite.Core.Addr

/-!
# Addresses read from their own text

An address and a port, written one after the other with a colon between them, as
`format!("{}:{}", ip, port)` does, and read as a `SocketAddr` again.

* `SocketAddr.parse_v4` — an address of version 4 is read back;
* `SocketAddr.parse_v6` — one of version 6 never is: it would need brackets.
-/

namespace Ferrite

namespace Reader

/-! ## Digits -/

/-- Where a number ends. -/
theorem cut_digits {digit : Char → Option ℕ} {ds : Text}
    (hds : ∀ c ∈ ds, (digit c).isSome = true) (rest : Text)
    (hrest : ∀ c ∈ rest.head?, digit c = none) :
    (ds ++ rest).takeWhile (fun c => (digit c).isSome) = ds ∧
      (ds ++ rest).dropWhile (fun c => (digit c).isSome) = rest := by
  rw [List.takeWhile_append_of_pos hds, List.dropWhile_append_of_pos hds]
  cases rest with
  | nil => exact ⟨List.append_nil ds, rfl⟩
  | cons c rest =>
    have hc : digit c = none := hrest c rfl
    simp [hc]

/-- Digits that read as a number also do so before something that is no digit. -/
theorem number_append {radix bound v : ℕ} {digit : Char → Option ℕ} {maxDigits : Option ℕ}
    {zeroPrefix : Bool} {ds rest : Text} (hds : ∀ c ∈ ds, (digit c).isSome = true)
    (hrest : ∀ c ∈ rest.head?, digit c = none)
    (h : number radix digit maxDigits zeroPrefix bound ds = some (v, [])) :
    number radix digit maxDigits zeroPrefix bound (ds ++ rest) = some (v, rest) := by
  obtain ⟨htake, hdrop⟩ := cut_digits hds rest hrest
  have hall : ds.takeWhile (fun c => (digit c).isSome) = ds := by
    simpa using (cut_digits hds [] nofun).1
  unfold number at h ⊢
  dsimp only at h ⊢
  rw [hall] at h
  rw [htake, hdrop]
  split at h
  · cases h
  · next hok =>
    rw [if_neg hok, (Prod.mk.inj (Option.some.inj h)).1]

theorem decDigit_of_isDigit {c : Char} (h : c.isDigit = true) :
    decDigit c = some (c.toNat - '0'.toNat) := by
  obtain ⟨hlo, hhi⟩ := Char.isDigit_iff_toNat.1 h
  exact if_pos ⟨hlo, hhi⟩

/-- The value of some digits. -/
theorem foldl_decDigit {ds : Text} (h : ∀ c ∈ ds, c.isDigit = true) :
    (ds.filterMap decDigit).foldl (fun acc d => acc * 10 + d) 0 = Nat.ofDigitChars 10 ds 0 := by
  have hvalues : ds.filterMap decDigit = ds.map fun c => c.toNat - '0'.toNat := by
    rw [← List.filterMap_eq_map]
    exact List.filterMap_congr fun c hc => decDigit_of_isDigit (h c hc)
  rw [hvalues, List.foldl_map, Nat.ofDigitChars_eq_foldl]
  simp only [Nat.mul_comm 10]

/-- The digits of a number have its value. -/
theorem foldl_decimal (n : ℕ) : ((decimal n).filterMap decDigit).foldl
    (fun acc d => acc * 10 + d) 0 = n := by
  have hdigits : ∀ c ∈ decimal n, c.isDigit = true :=
    fun c hc => Nat.isDigit_of_mem_toDigits (by omega) le_rfl hc
  rw [foldl_decDigit hdigits]
  exact Nat.ofDigitChars_ten_toDigits

/-- A port reads back. -/
theorem port_decimal (port : UInt16) :
    Reader.port (':' :: decimal port.toNat) = some (port.toNat, []) := by
  have hsome : ∀ c ∈ decimal port.toNat, (decDigit c).isSome = true := by
    intro c hc
    rw [decDigit_of_isDigit (Nat.isDigit_of_mem_toDigits (by omega) le_rfl hc)]
    rfl
  have hcut := cut_digits hsome [] nofun
  rw [List.append_nil] at hcut
  have hne : (decimal port.toNat).filterMap decDigit ≠ [] := by
    obtain ⟨c, hc⟩ := List.exists_mem_of_ne_nil _ (Nat.toDigits_ne_nil (n := port.toNat) (b := 10))
    obtain ⟨d, hd⟩ := Option.isSome_iff_exists.1 (hsome c hc)
    exact List.ne_nil_of_mem (List.mem_filterMap.2 ⟨c, hc, hd⟩)
  have hlt : ¬ 2 ^ 16 ≤ port.toNat := Nat.not_le.2 port.toNat_lt
  show number 10 decDigit none true (2 ^ 16) (decimal port.toNat) = _
  unfold number
  dsimp only
  rw [hcut.1, hcut.2, foldl_decimal]
  exact if_neg (by simp only [hne, hlt, Option.any_none, Bool.not_true, Bool.false_eq_true,
    false_and, or_self, not_false_eq_true])

/-! ## Version 4 -/

theorem octet_octetText (o : UInt8) :
    octet (octetText o) = some (o.toNat, []) ∧ ∀ c ∈ octetText o, (decDigit c).isSome = true := by
  have h : ∀ n : Fin 256, octet (octetText (UInt8.ofNat n)) = some ((UInt8.ofNat n).toNat, []) ∧
      ((octetText (UInt8.ofNat n)).all fun c => (decDigit c).isSome) = true := by decide +kernel
  have ho : UInt8.ofNat o.toNat = o := UInt8.ofNat_toNat
  obtain ⟨hread, hall⟩ := h ⟨o.toNat, o.toNat_lt⟩
  rw [ho] at hread hall
  exact ⟨hread, List.all_eq_true.1 hall⟩

/-- An address of version 4 reads back, before something that is no digit. -/
theorem ipv4_toText (ip : Ipv4Addr) {rest : Text} (hrest : ∀ c ∈ rest.head?, decDigit c = none) :
    ipv4 (ip.toText.toList ++ rest) = some (ip, rest) := by
  have hoctet : ∀ (o : UInt8) {rest : Text}, (∀ c ∈ rest.head?, decDigit c = none) →
      octet (octetText o ++ rest) = some (o.toNat, rest) := fun o _ hrest =>
    number_append (octet_octetText o).2 hrest (octet_octetText o).1
  have hdot : ∀ (rest : Text), ∀ c ∈ ('.' :: rest).head?, decDigit c = none := by
    intro rest c hc
    cases hc
    rfl
  have hsep : ∀ (i : ℕ) (o : UInt8) {rest : Text}, i ≠ 0 → (∀ c ∈ rest.head?, decDigit c = none) →
      separated '.' i octet ('.' :: (octetText o ++ rest)) = some (o.toNat, rest) := by
    intro i o rest hi hrest
    unfold separated
    rw [if_neg hi]
    exact hoctet o hrest
  have htext : ip.toText.toList ++ rest = octetText ip.a ++ '.' :: (octetText ip.b ++ '.' ::
      (octetText ip.c ++ '.' :: (octetText ip.d ++ rest))) := by
    simp [Ipv4Addr.toText, Ipv4Addr.octets, List.intercalate, List.intersperse]
  unfold ipv4
  rw [htext, hoctet _ (hdot _), Option.bind_eq_bind, Option.bind_some]
  dsimp only
  rw [hsep 1 _ (by omega) (hdot _), Option.bind_some]
  dsimp only
  rw [hsep 2 _ (by omega) (hdot _), Option.bind_some]
  dsimp only
  rw [hsep 3 _ (by omega) hrest, Option.bind_some]
  simp

/-! ## Version 6 -/

/-- A quad has a dot behind its first number. -/
theorem ipv4_eq_none {cs : Text} (h : '.' ∉ cs ∨ cs.head? = some ':') : ipv4 cs = none := by
  have hoctet : ∀ v rest, octet cs = some (v, rest) → givenChar '.' rest = none := by
    intro v rest hread
    rcases h with hdot | hcolon
    · have hsuffix : rest <:+ cs := by
        unfold octet number at hread
        dsimp only at hread
        split at hread
        · cases hread
        · rw [← (Prod.mk.inj (Option.some.inj hread)).2]
          exact List.dropWhile_suffix _
      cases rest with
      | nil => rfl
      | cons c rest =>
        refine if_neg ?_
        rintro rfl
        exact hdot (hsuffix.subset (List.mem_cons_self ..))
    · obtain ⟨cs, rfl⟩ := List.head?_eq_some_iff.1 hcolon
      cases hread
  unfold ipv4
  cases hread : octet cs with
  | none => rfl
  | some r =>
    rw [Option.bind_eq_bind, Option.bind_some]
    dsimp only
    unfold separated
    rw [if_neg (by omega), hoctet r.1 r.2 hread]
    rfl

end Reader

/-- Hexadecimal digits and colons. -/
def HexOrColon (c : Char) : Prop := (hexDigit c).isSome = true ∨ c = ':'

theorem hexDigit_of_mem_toDigits {n : ℕ} {c : Char} (h : c ∈ Nat.toDigits 16 n) :
    (hexDigit c).isSome = true := by
  have hchar : ∀ d < 16, (hexDigit (Nat.digitChar d)).isSome = true := by decide
  induction n using Nat.strong_induction_on with
  | _ n ih =>
    rw [Nat.toDigits_eq_if (by omega)] at h
    split at h
    · next hlt =>
      obtain rfl := List.mem_singleton.1 h
      exact hchar n hlt
    · next hge =>
      rcases List.mem_append.1 h with h | h
      · exact ih (n / 16) (by omega) h
      · obtain rfl := List.mem_singleton.1 h
        exact hchar _ (Nat.mod_lt _ (by omega))

theorem mem_hexGroups {segs : List ℕ} {c : Char} (h : c ∈ hexGroups segs) : HexOrColon c := by
  induction segs with
  | nil => cases h
  | cons seg segs ih =>
    cases segs with
    | nil =>
      have hseg : hexGroups [seg] = Nat.toDigits 16 seg := List.intercalate_singleton
      exact Or.inl (hexDigit_of_mem_toDigits (hseg ▸ h))
    | cons next segs =>
      have hcons : hexGroups (seg :: next :: segs) =
          Nat.toDigits 16 seg ++ ':' :: hexGroups (next :: segs) := by
        simp [hexGroups]
      rw [hcons] at h
      rcases List.mem_append.1 h with h | h
      · exact Or.inl (hexDigit_of_mem_toDigits h)
      · rcases List.mem_cons.1 h with rfl | h
        · exact Or.inr rfl
        · exact ih h

/-- The text of an address of version 6 has neither dot nor bracket, unless it starts with a
colon. -/
theorem Ipv6Addr.toText_shape (ip : Ipv6Addr) :
    ('.' ∉ ip.toText ∧ '[' ∉ ip.toText) ∨ ∃ rest, ip.toText = ':' :: rest := by
  unfold Ipv6Addr.toText
  cases ip.toIpv4Mapped with
  | some v4 => exact Or.inr ⟨_, rfl⟩
  | none =>
    have hplain : ∀ c ∈ (if 1 < (longestZeroRun ip.segments).2 then
        hexGroups (ip.segments.take (longestZeroRun ip.segments).1) ++ [':', ':'] ++
          hexGroups (ip.segments.drop ((longestZeroRun ip.segments).1 +
            (longestZeroRun ip.segments).2))
        else hexGroups ip.segments), HexOrColon c := by
      intro c hmem
      split at hmem
      · simp only [List.mem_append, List.mem_cons, List.not_mem_nil, or_false] at hmem
        rcases hmem with (hmem | hmem | hmem) | hmem
        · exact mem_hexGroups hmem
        · exact Or.inr hmem
        · exact Or.inr hmem
        · exact mem_hexGroups hmem
      · exact mem_hexGroups hmem
    refine Or.inl ⟨fun hmem => ?_, fun hmem => ?_⟩
    · exact absurd (hplain '.' hmem) (by unfold HexOrColon; decide)
    · exact absurd (hplain '[' hmem) (by unfold HexOrColon; decide)

namespace SocketAddr

/-- `format!("{}:{}", ip, port)`, for an address of version 4. -/
theorem parse_v4 (ip : Ipv4Addr) (port : UInt16) :
    parse (ipToString (.v4 ip) ++ ':' :: decimal port.toNat) = some (.v4 ip port) := by
  have hip : Reader.ipv4 (ipToString (.v4 ip) ++ ':' :: decimal port.toNat) =
      some (ip, ':' :: decimal port.toNat) := by
    refine Reader.ipv4_toText ip fun c hc => ?_
    cases hc
    rfl
  have hport : UInt16.ofNat port.toNat = port := UInt16.ofNat_toNat
  unfold parse Reader.parse read
  rw [hip, Option.bind_eq_bind, Option.bind_some]
  dsimp only
  rw [Reader.port_decimal, Option.bind_eq_bind, Option.bind_some, hport]
  rfl

/-- And for one of version 6. -/
theorem parse_v6 (ip : Ipv6Addr) (port : UInt16) :
    parse (ipToString (.v6 ip) ++ ':' :: decimal port.toNat) = none := by
  have hdigit : ∀ c ∈ decimal port.toNat, c.isDigit = true := fun c hc =>
    Nat.isDigit_of_mem_toDigits (by omega) le_rfl hc
  have hv4 : Reader.ipv4 (ipToString (.v6 ip) ++ ':' :: decimal port.toNat) = none := by
    refine Reader.ipv4_eq_none (ip.toText_shape.imp (fun hshape hmem => ?_) ?_)
    · rcases List.mem_append.1 hmem with hmem | hmem
      · exact hshape.1 hmem
      · rcases List.mem_cons.1 hmem with hmem | hmem
        · cases hmem
        · exact absurd (hdigit _ hmem) (by decide)
    · rintro ⟨rest, hrest⟩
      rw [ipToString, hrest]
      rfl
  have hv6 : Reader.givenChar '[' (ipToString (.v6 ip) ++ ':' :: decimal port.toNat) = none := by
    rw [ipToString]
    cases htext : ip.toText with
    | nil => rfl
    | cons c rest =>
      refine if_neg ?_
      rintro rfl
      rcases ip.toText_shape with ⟨-, hbracket⟩ | ⟨rest, hcolon⟩
      · exact hbracket (htext ▸ List.mem_cons_self ..)
      · rw [htext] at hcolon
        cases hcolon
  unfold parse Reader.parse read
  rw [hv4, hv6]
  rfl

end SocketAddr

end Ferrite
