import Ferrite.Core.ClientKey

/-!
# What a network contains

`IpNetwork::parse` of `core/src/net.rs` reads an address and a prefix length.  `InRange` says
which addresses that means, in the family the address is written in; a network of mapped
addresses with a prefix of 96 bits or more is the IPv4 network of the bits behind them.

* `contains_iff` — `contains` compares the leading bits;
* `parse_toText` — a network reads back from its text;
* `networks_iff` — a network contains what its text says, unless a prefix is written behind
  a mapped address: `parse` unmaps the address first and then takes the prefix for one of the
  IPv4 address.
-/

namespace Ferrite

/-! ## The leading bits -/

/-- The addresses of a range: those of its family that share its leading bits. -/
def IpNetwork.Covers (net : IpNetwork) (ip : IpAddr) : Prop :=
  net.addr.width = ip.width ∧
    ∀ i < net.pfx, net.addr.toNat.testBit (ip.width - 1 - i) = ip.toNat.testBit (ip.width - 1 - i)

theorem testBit_mask {width pfx : ℕ} (h : pfx ≤ width) (i : ℕ) :
    (IpNetwork.mask width pfx).testBit i = (decide (width - pfx ≤ i) && decide (i < width)) := by
  unfold IpNetwork.mask
  by_cases hpfx : pfx = 0
  · subst hpfx
    simp
  · rw [if_neg hpfx, Nat.testBit_mod_two_pow, Nat.testBit_shiftLeft, Nat.testBit_two_pow_sub_one]
    by_cases hlow : width - pfx ≤ i
    · by_cases hhigh : i < width
      · simp [hlow, hhigh]
        omega
      · simp [hhigh]
    · simp [hlow]

/-- `contains` compares the leading bits. -/
theorem contains_iff {net : IpNetwork} (h : net.pfx ≤ net.addr.width) (ip : IpAddr) :
    net.contains ip = true ↔ net.Covers (unmapV4 ip) := by
  unfold IpNetwork.contains IpNetwork.Covers
  simp only [Bool.and_eq_true, beq_iff_eq]
  refine and_congr_right fun hwidth => ?_
  rw [hwidth] at h
  constructor
  · intro heq i hi
    have hbit := congrArg (fun n => n.testBit ((unmapV4 ip).width - 1 - i)) heq
    simp only [Nat.testBit_and, testBit_mask h] at hbit
    have hlow : (unmapV4 ip).width - net.pfx ≤ (unmapV4 ip).width - 1 - i := by omega
    have hhigh : (unmapV4 ip).width - 1 - i < (unmapV4 ip).width := by omega
    simpa [hlow, hhigh] using hbit
  · intro hbits
    refine Nat.eq_of_testBit_eq fun i => ?_
    rw [Nat.testBit_and, Nat.testBit_and, testBit_mask h]
    by_cases hlow : (unmapV4 ip).width - net.pfx ≤ i
    · by_cases hhigh : i < (unmapV4 ip).width
      · have hbit := hbits ((unmapV4 ip).width - 1 - i) (by omega)
        have hi : (unmapV4 ip).width - 1 - ((unmapV4 ip).width - 1 - i) = i := by omega
        rw [hi] at hbit
        rw [hbit]
      · simp [hhigh]
    · simp [hlow]

/-- The mask with its steps checked: a difference below zero overflows, a shift by all the bits
there are is what `checked_shl` refuses. -/
def IpNetwork.checkedMask (width pfx : ℕ) : Option ℕ :=
  if pfx ≤ width then
    some (if width - pfx < width then (2 ^ width - 1) <<< (width - pfx) % 2 ^ width else 0)
  else none

theorem checkedMask_eq {width pfx : ℕ} (h : pfx ≤ width) :
    IpNetwork.checkedMask width pfx = some (IpNetwork.mask width pfx) := by
  unfold IpNetwork.checkedMask IpNetwork.mask
  rw [if_pos h]
  by_cases hpfx : pfx = 0
  · rw [if_pos hpfx, if_neg (by omega)]
  · rw [if_neg hpfx, if_pos (by omega)]

/-! ## Reading a network -/

/-- The address a text begins with, and the prefix length behind it. -/
inductive Written : Text → IpAddr → Option ℕ → Prop where
  | bare {t : Text} {ip : IpAddr} (ht : '/' ∉ t) (hip : parseIp t = some ip) : Written t ip none
  | ranged {a p : Text} {ip : IpAddr} {pfx : ℕ} (ha : '/' ∉ a) (hip : parseIp a.trim = some ip)
      (hpfx : parseU8 p.trim = some pfx) : Written (a ++ '/' :: p) ip (some pfx)

/-- What `parse` cuts a text into. -/
theorem written_iff {t : Text} {ip : IpAddr} {pfx : Option ℕ} : Written t ip pfx ↔
    ∃ a, (match t.splitOnce '/' with
      | some (a, p) => (parseU8 p.trim).map fun p => (a.trim, some p)
      | none => some (t, none)) = some (a, pfx) ∧ parseIp a = some ip := by
  constructor
  · intro h
    cases h with
    | bare ht hip =>
      have hsplit : t.splitOnce '/' = none := by
        unfold Text.splitOnce
        rw [if_neg (by simpa using ht)]
      rw [hsplit]
      exact ⟨t, rfl, hip⟩
    | @ranged a p _ pfx ha hip hpfx =>
      rw [Text.splitOnce_append ha]
      refine ⟨a.trim, ?_, hip⟩
      dsimp only
      rw [hpfx]
      rfl
  · rintro ⟨a, hcut, hip⟩
    split at hcut
    · next a' p hsplit =>
      obtain ⟨rfl, ha⟩ := Text.splitOnce_eq_some_iff.1 hsplit
      obtain ⟨n, hn, hpair⟩ := Option.map_eq_some_iff.1 hcut
      cases hpair
      exact .ranged ha hip hn
    · next hsplit =>
      cases hcut
      refine .bare (fun hmem => ?_) hip
      unfold Text.splitOnce at hsplit
      rw [if_pos (by simpa using hmem)] at hsplit
      cases hsplit

theorem Written.unique {t : Text} {ip ip' : IpAddr} {pfx pfx' : Option ℕ} (h : Written t ip pfx)
    (h' : Written t ip' pfx') : ip = ip' ∧ pfx = pfx' := by
  obtain ⟨a, hcut, hip⟩ := written_iff.1 h
  obtain ⟨a', hcut', hip'⟩ := written_iff.1 h'
  rw [hcut] at hcut'
  cases hcut'
  rw [hip] at hip'
  exact ⟨Option.some.inj hip', rfl⟩

/-- `parse` unmaps the address and holds the prefix against the family it has then. -/
theorem parse_eq_some_iff {s : Text} {net : IpNetwork} : IpNetwork.parse s = some net ↔
    ∃ ip pfx, Written s.trim ip pfx ∧ net = ⟨unmapV4 ip, pfx.getD (unmapV4 ip).width⟩ ∧
      net.pfx ≤ net.addr.width := by
  have hread : ∀ ip (pfx : Option ℕ), (if pfx.getD (unmapV4 ip).width ≤ (unmapV4 ip).width then
      some (⟨unmapV4 ip, pfx.getD (unmapV4 ip).width⟩ : IpNetwork) else none) = some net ↔
      net = ⟨unmapV4 ip, pfx.getD (unmapV4 ip).width⟩ ∧ net.pfx ≤ net.addr.width := by
    intro ip pfx
    rw [Option.ite_none_right_eq_some, Option.some.injEq]
    constructor
    · rintro ⟨hle, rfl⟩
      exact ⟨rfl, hle⟩
    · rintro ⟨rfl, hle⟩
      exact ⟨hle, rfl⟩
  have hparse : IpNetwork.parse s = some net ↔ ∃ r : Text × Option ℕ,
      (match s.trim.splitOnce '/' with
        | some (a, p) => (parseU8 p.trim).map fun p => (a.trim, some p)
        | none => some (s.trim, none)) = some r ∧
      ∃ ip, parseIp r.1 = some ip ∧ net = ⟨unmapV4 ip, r.2.getD (unmapV4 ip).width⟩ ∧
        net.pfx ≤ net.addr.width := by
    have hbind : IpNetwork.parse s = (match s.trim.splitOnce '/' with
        | some (a, p) => (parseU8 p.trim).map fun p => (a.trim, some p)
        | none => some (s.trim, none)).bind fun r => (parseIp r.1).bind fun ip =>
          if r.2.getD (unmapV4 ip).width ≤ (unmapV4 ip).width then
            some ⟨unmapV4 ip, r.2.getD (unmapV4 ip).width⟩ else none := by
      unfold IpNetwork.parse
      dsimp only
      cases s.trim.splitOnce '/' <;> rfl
    simp only [hbind, Option.bind_eq_some_iff, hread]
  rw [hparse]
  constructor
  · rintro ⟨⟨a, pfx⟩, hcut, ip, hip, hnet⟩
    exact ⟨ip, pfx, written_iff.2 ⟨a, hcut, hip⟩, hnet⟩
  · rintro ⟨ip, pfx, hwritten, hnet⟩
    obtain ⟨a, hcut, hip⟩ := written_iff.1 hwritten
    exact ⟨(a, pfx), hcut, ip, hip, hnet⟩

/-- A range that was read has no more bits than its address. -/
theorem pfx_le_width {s : Text} {net : IpNetwork} (h : IpNetwork.parse s = some net) :
    net.pfx ≤ net.addr.width := by
  obtain ⟨ip, pfx, -, -, hle⟩ := parse_eq_some_iff.1 h
  exact hle

/-! ## Writing a network -/

/-- `IpNetwork::fmt`. -/
def IpNetwork.toText (net : IpNetwork) : Text :=
  if net.pfx = net.addr.width then ipToString net.addr
  else ipToString net.addr ++ '/' :: decimal net.pfx

/-- The characters of a prefix length, and the number it reads back as. -/
theorem parseU8_decimal {n : ℕ} (h : n ≤ 128) : parseU8 (decimal n) = some n ∧
    ∀ c ∈ decimal n, isWhitespace c = false := by
  have hdigit : ∀ c ∈ decimal n, c.isDigit = true :=
    fun c hc => Nat.isDigit_of_mem_toDigits (by omega) le_rfl hc
  have hsome : ∀ c ∈ decimal n, (decDigit c).isSome = true := by
    intro c hc
    rw [Reader.decDigit_of_isDigit (hdigit c hc)]
    rfl
  have hback : (UInt8.ofNat n).toNat = n := UInt8.toNat_ofNat_of_lt' (h.trans_lt (by decide))
  have hread : readU8 10 decDigit (decimal n) = some (UInt8.ofNat n) :=
    (readU8_eq_some_iff (by omega)).2 ⟨hsome, (Reader.foldl_decimal n).trans hback.symm⟩
  have hplus : (decimal n).head? ≠ some '+' := fun hhead =>
    absurd (hdigit '+' (List.mem_of_head? hhead)) (by decide)
  have hne : decimal n ≠ [] := Nat.toDigits_ne_nil
  refine ⟨?_, fun c hc => AddrChar.not_isWhitespace (.inl ?_)⟩
  · unfold parseU8
    rw [if_neg hplus, if_neg hne, hread, Option.map_some, hback]
  · by_contra hnone
    rw [Option.not_isSome_iff_eq_none] at hnone
    have hbad := hsome c hc
    rw [Reader.decDigit_of_hexDigit hnone] at hbad
    cases hbad

/-- **A network reads back from its text.** -/
theorem parse_toText {s : Text} {net : IpNetwork} (h : IpNetwork.parse s = some net) :
    IpNetwork.parse net.toText = some net := by
  obtain ⟨ip, pfx, -, rfl, hle⟩ := parse_eq_some_iff.1 h
  obtain ⟨addr, haddr⟩ : ∃ addr, addr = unmapV4 ip := ⟨_, rfl⟩
  have hunmap : unmapV4 addr = addr := by rw [haddr, unmapV4_unmapV4]
  rw [← haddr] at hle ⊢
  have hchars : ∀ c ∈ ipToString addr, AddrChar c := fun c => (ipSpelling_ipToString addr).addrChar
  have hslash : '/' ∉ ipToString addr := fun hmem => absurd (hchars _ hmem) (by decide)
  have htrim : Text.trim (ipToString addr) = ipToString addr :=
    Text.trim_of_forall fun c hc => (hchars c hc).not_isWhitespace
  have hread : parseIp (ipToString addr) = some addr := by
    have hparse := parseIp_append hchars (show ∀ c ∈ ([] : Text).head?, c = '%' from nofun)
    rwa [List.append_nil, Reader.parse_ipToString] at hparse
  unfold IpNetwork.toText
  split
  · next hfull =>
    refine parse_eq_some_iff.2 ⟨addr, none, ?_, ?_, hle⟩
    · rw [htrim]
      exact .bare hslash hread
    · rw [hunmap]
      exact congrArg (IpNetwork.mk addr) hfull
  · have hwidth : addr.width ≤ 128 := by
      cases addr with
      | v4 ip => exact (by decide : 32 ≤ 128)
      | v6 ip => exact le_rfl
    obtain ⟨hdigits, hblank⟩ := parseU8_decimal (hle.trans hwidth)
    refine parse_eq_some_iff.2 ⟨addr, some (pfx.getD addr.width), ?_, ?_, hle⟩
    · rw [Text.trim_of_forall]
      · refine .ranged hslash (by rw [htrim, hread]) ?_
        rw [Text.trim_of_forall hblank]
        exact hdigits
      · intro c hc
        rcases List.mem_append.1 hc with hc | hc
        · exact (hchars c hc).not_isWhitespace
        · rcases List.mem_cons.1 hc with rfl | hc
          · rfl
          · exact hblank c hc
    · rw [hunmap]
      rfl

/-! ## What a text means -/

/-- The IPv4 address written as an IPv6 address. -/
def IsMapped (ip : IpAddr) : Prop := ∃ v6 v4, ip = .v6 v6 ∧ v6.toIpv4Mapped = some v4

/-- The addresses a text means, a mapped one counting as the IPv4 address in it: those that share
the leading bits of the written address, in the family it is written in.  A network of mapped
addresses with a prefix of 96 bits or more is the IPv4 network of the bits behind them. -/
def InRange (written : IpAddr) (pfx : ℕ) (ip : IpAddr) : Prop :=
  (IsMapped written ∧ 96 ≤ pfx →
    (⟨unmapV4 written, pfx - 96⟩ : IpNetwork).Covers (unmapV4 ip)) ∧
  (¬ (IsMapped written ∧ 96 ≤ pfx) → (⟨written, pfx⟩ : IpNetwork).Covers (unmapV4 ip))

/-- A text is accepted if it is a network of mapped IPv4 addresses, and if it is accepted it is
the network it says. -/
structure MeansWhatItSays (s : Text) : Prop where
  accepted : ∀ ip pfx, Written s.trim ip pfx → IsMapped ip → 96 ≤ pfx.getD 128 →
    pfx.getD 128 ≤ 128 → (IpNetwork.parse s).isSome = true
  contains : ∀ net, IpNetwork.parse s = some net → ∃ ip pfx, Written s.trim ip pfx ∧
    ∀ x, net.contains x = true ↔ InRange ip (pfx.getD ip.width) x

theorem unmapV4_of_not_mapped {ip : IpAddr} (h : ¬ IsMapped ip) : unmapV4 ip = ip := by
  cases ip with
  | v4 ip => rfl
  | v6 ip =>
    cases hmapped : ip.toIpv4Mapped with
    | some v4 => exact absurd ⟨ip, v4, rfl, hmapped⟩ h
    | none => rw [unmapV4, hmapped]

theorem IsMapped.unmapV4 {ip : IpAddr} (h : IsMapped ip) : ∃ v4, Ferrite.unmapV4 ip = .v4 v4 := by
  obtain ⟨v6, v4, rfl, hmapped⟩ := h
  exact ⟨v4, by rw [Ferrite.unmapV4, hmapped]⟩

/-- A mapped address starts with 80 zero bits. -/
theorem IsMapped.toNat_lt {ip : IpAddr} (h : IsMapped ip) : ip.toNat < 2 ^ 48 := by
  obtain ⟨v6, v4, rfl, hmapped⟩ := h
  unfold Ipv6Addr.toIpv4Mapped at hmapped
  split at hmapped
  · next a b c d hoctets =>
    have hfull : (0xFF : UInt8).toNat = 255 := rfl
    have ha := a.toNat_lt
    have hb := b.toNat_lt
    have hc := c.toNat_lt
    have hd := d.toNat_lt
    simp only [IpAddr.toNat, hoctets, List.foldl_cons, List.foldl_nil, UInt8.toNat_zero, hfull]
    omega
  · cases hmapped

/-- `::` has the leading bits of every mapped address. -/
theorem covers_unspecified {ip : IpAddr} (h : IsMapped ip) {pfx : ℕ} (hpfx : pfx ≤ 32) :
    (⟨ip, pfx⟩ : IpNetwork).Covers (.v6 Ipv6Addr.unspecified) := by
  have hsmall := h.toNat_lt
  obtain ⟨v6, v4, rfl, -⟩ := h
  refine ⟨rfl, fun i (hi : i < pfx) => ?_⟩
  change (IpAddr.v6 v6).toNat.testBit (127 - i) = Nat.testBit 0 (127 - i)
  have hlow : (IpAddr.v6 v6).toNat < 2 ^ (127 - i) :=
    hsmall.trans_le (Nat.pow_le_pow_right (by omega) (by omega))
  rw [Nat.testBit_lt_two_pow hlow, Nat.zero_testBit]

/-- A prefix behind a mapped address that is not read as the text says. -/
def MappedPrefix (s : Text) : Prop :=
  ∃ ip pfx, Written s.trim ip (some pfx) ∧ IsMapped ip ∧ (pfx ≤ 32 ∨ (96 ≤ pfx ∧ pfx ≤ 128))

theorem not_mappedPrefix {s : Text} (h : MeansWhatItSays s) : ¬ MappedPrefix s := by
  rintro ⟨ip, pfx, hwritten, hmapped, hpfx⟩
  obtain ⟨v4, hv4⟩ := hmapped.unmapV4
  rcases hpfx with hpfx | ⟨hlow, hhigh⟩
  · -- the text says an IPv6 network, and `::` is in it
    have hparse : IpNetwork.parse s = some ⟨.v4 v4, pfx⟩ :=
      parse_eq_some_iff.2 ⟨ip, some pfx, hwritten, by rw [hv4]; rfl, hpfx⟩
    obtain ⟨ip', pfx', hwritten', hall⟩ := h.contains _ hparse
    obtain ⟨rfl, rfl⟩ := hwritten'.unique hwritten
    have hin : InRange ip' pfx (.v6 Ipv6Addr.unspecified) := by
      refine ⟨fun hbits => ?_, fun _ => covers_unspecified hmapped hpfx⟩
      have hbound := hbits.2
      omega
    have hcontains := (hall _).2 hin
    rw [contains_iff hpfx] at hcontains
    have hwidth : 32 = 128 := hcontains.1
    cases hwidth
  · -- the text says an IPv4 network, and is refused
    obtain ⟨net, hnet⟩ := Option.isSome_iff_exists.1 (h.accepted ip pfx hwritten hmapped hlow hhigh)
    obtain ⟨ip', pfx', hwritten', rfl, hle⟩ := parse_eq_some_iff.1 hnet
    obtain ⟨rfl, rfl⟩ := hwritten'.unique hwritten
    rw [hv4] at hle
    have hbound : pfx ≤ 32 := hle
    omega

theorem meansWhatItSays {s : Text} (h : ¬ MappedPrefix s) : MeansWhatItSays s := by
  refine ⟨fun ip pfx hwritten hmapped hlow hhigh => ?_, fun net hnet => ?_⟩
  · cases pfx with
    | none =>
      have hparse := parse_eq_some_iff.2 ⟨ip, none, hwritten, rfl, le_rfl⟩
      exact Option.isSome_iff_exists.2 ⟨_, hparse⟩
    | some pfx => exact absurd ⟨ip, pfx, hwritten, hmapped, .inr ⟨hlow, hhigh⟩⟩ h
  · have hle := pfx_le_width hnet
    obtain ⟨ip, pfx, hwritten, rfl, -⟩ := parse_eq_some_iff.1 hnet
    refine ⟨ip, pfx, hwritten, fun x => ?_⟩
    rw [contains_iff hle]
    by_cases hmapped : IsMapped ip
    · cases pfx with
      | none =>
        -- a mapped address alone is a network of one address
        have hwidth : ip.width = 128 ∧ (unmapV4 ip).width = 32 := by
          obtain ⟨v4, hv4⟩ := hmapped.unmapV4
          obtain ⟨v6, -, rfl, -⟩ := hmapped
          exact ⟨rfl, by rw [hv4]; rfl⟩
        rw [Option.getD_none, Option.getD_none, hwidth.1, hwidth.2]
        constructor
        · exact fun hcovers => ⟨fun _ => hcovers, fun hbits => absurd ⟨hmapped, by omega⟩ hbits⟩
        · exact fun hin => hin.1 ⟨hmapped, by omega⟩
      | some pfx =>
        obtain ⟨v4, hv4⟩ := hmapped.unmapV4
        rw [hv4] at hle
        exact absurd ⟨ip, pfx, hwritten, hmapped, .inl hle⟩ h
    · rw [unmapV4_of_not_mapped hmapped]
      constructor
      · exact fun hcovers => ⟨fun hbits => absurd hbits.1 hmapped, fun _ => hcovers⟩
      · exact fun hin => hin.2 fun hbits => hmapped hbits.1

/-- **A network contains what its text says**, unless a prefix of 32 bits or less, or of 96 or
more, is written behind a mapped address: the first is taken for a prefix of the IPv4 address
and the second is refused.  Every network reads back from its text, and its mask is made without
an overflow. -/
theorem networks_iff (s : Text) :
    (∀ net, IpNetwork.parse s = some net → IpNetwork.parse net.toText = some net ∧
      IpNetwork.checkedMask net.addr.width net.pfx =
        some (IpNetwork.mask net.addr.width net.pfx)) ∧
      (MeansWhatItSays s ↔ ¬ MappedPrefix s) := by
  refine ⟨fun net hnet => ?_, not_mappedPrefix, meansWhatItSays⟩
  exact ⟨parse_toText hnet, checkedMask_eq (pfx_le_width hnet)⟩

/-- `::ffff:1.2.3.0/120` is refused, and `::ffff:1.2.3.4/24` is the IPv4 network of 24 bits. -/
theorem mapped_prefixes : IpNetwork.parse "::ffff:1.2.3.0/120".toList = none ∧
    IpNetwork.parse "::ffff:1.2.3.4/24".toList = some ⟨.v4 ⟨1, 2, 3, 4⟩, 24⟩ ∧
    ¬ MeansWhatItSays "::ffff:1.2.3.0/120".toList ∧
    ¬ MeansWhatItSays "::ffff:1.2.3.4/24".toList := by
  have hbad : ∀ (s a p : Text) (d : UInt8) (pfx : ℕ), Text.trim s = a ++ '/' :: p → '/' ∉ a →
      parseIp (Text.trim a) =
        some (.v6 ⟨[0, 0, 0, 0, 0, 0, 0, 0, 0, 0, 0xFF, 0xFF, 1, 2, 3, d], rfl⟩) →
      parseU8 (Text.trim p) = some pfx → pfx ≤ 32 ∨ (96 ≤ pfx ∧ pfx ≤ 128) →
      ¬ MeansWhatItSays s := by
    intro s a p d pfx hs ha hip hread hpfx h
    have hwritten := Written.ranged ha hip hread
    rw [← hs] at hwritten
    exact not_mappedPrefix h ⟨_, pfx, hwritten, ⟨_, ⟨1, 2, 3, d⟩, rfl, rfl⟩, hpfx⟩
  refine ⟨by decide +kernel, by decide +kernel, ?_, ?_⟩
  · exact hbad _ "::ffff:1.2.3.0".toList "120".toList 0 120 (by decide +kernel) (by decide +kernel)
      (by decide +kernel) (by decide +kernel) (by decide)
  · exact hbad _ "::ffff:1.2.3.4".toList "24".toList 4 24 (by decide +kernel) (by decide +kernel)
      (by decide +kernel) (by decide +kernel) (by decide)

end Ferrite
