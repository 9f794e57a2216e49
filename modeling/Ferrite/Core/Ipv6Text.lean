import Ferrite.Core.AddrText

/-!
# The spellings of an IPv6 address

RFC 4291 has many spellings of one address: any case, leading zeros or none, a run of zero
groups written `::` or not, the last two groups as a dotted quad.  `Ipv6Spelling` is that
grammar, and the parser of the standard library reads every spelling as what it spells.
`Ipv6Addr::to_string` writes one of them.

* `Reader.groups_spelled` — what the loop over the groups takes, and where it stops;
* `Reader.ipv6_spelled` — a spelling is read as its groups;
* `Reader.parse_ipToString` — an address reads back from its text.
-/

namespace Ferrite

/-- A group: one to four hexadecimal digits. -/
structure GroupSpelling (t : Text) (g : ℕ) : Prop where
  ne_nil : t ≠ []
  short : t.length ≤ 4
  digits : ∀ c ∈ t, (hexDigit c).isSome = true
  value : (t.filterMap hexDigit).foldl (fun acc d => acc * 16 + d) 0 = g

/-- The dotted quad at the end, if there is one. -/
def quadText (quad : Option Ipv4Addr) : List Text := (quad.map fun v4 => v4.toText.toList).toList

/-- The two groups a dotted quad stands for. -/
def quadGroups (quad : Option Ipv4Addr) : List ℕ :=
  quad.elim [] fun v4 => [v4.a.toNat * 256 + v4.b.toNat, v4.c.toNat * 256 + v4.d.toNat]

/-- The spellings of eight groups. -/
inductive Ipv6Spelling : Text → List ℕ → Prop where
  | full {ts : List Text} {gs : List ℕ} {quad : Option Ipv4Addr}
      (hgroups : List.Forall₂ GroupSpelling ts gs)
      (hlen : gs.length + (quadGroups quad).length = 8) :
      Ipv6Spelling ([':'].intercalate (ts ++ quadText quad)) (gs ++ quadGroups quad)
  | short {ts us : List Text} {gs hs : List ℕ} {quad : Option Ipv4Addr}
      (hhead : List.Forall₂ GroupSpelling ts gs) (htail : List.Forall₂ GroupSpelling us hs)
      (hlen : gs.length + (hs.length + (quadGroups quad).length) ≤ 7) :
      Ipv6Spelling
        ([':'].intercalate ts ++ ':' :: ':' :: [':'].intercalate (us ++ quadText quad))
        (gs ++ List.replicate (8 - gs.length - (hs ++ quadGroups quad).length) 0 ++
          (hs ++ quadGroups quad))

namespace Reader

/-! ## Groups -/

theorem decDigit_of_hexDigit {c : Char} (h : hexDigit c = none) : decDigit c = none := by
  unfold hexDigit at h
  unfold decDigit
  split at h
  · cases h
  · next hno => exact if_neg hno

/-- Where the loop over the groups stops. -/
def Stops (rest : Text) : Prop :=
  (∀ c ∈ rest.head?, hexDigit c = none ∧ c ≠ '.') ∧
    ∀ r, rest = ':' :: r → ∀ c ∈ r.head?, hexDigit c = none

theorem stops_nil : Stops [] := ⟨nofun, nofun⟩

theorem stops_run (r : Text) : Stops (':' :: ':' :: r) := by
  refine ⟨fun c hc => ?_, fun r' hr c hc => ?_⟩
  · cases hc
    exact ⟨rfl, by decide⟩
  · cases hr
    cases hc
    rfl

/-- A number needs a digit. -/
theorem number_eq_none {radix bound : ℕ} {digit : Char → Option ℕ} {maxDigits : Option ℕ}
    {zeroPrefix : Bool} {cs : Text} (h : ∀ c ∈ cs.head?, digit c = none) :
    number radix digit maxDigits zeroPrefix bound cs = none := by
  have htake : cs.takeWhile (fun c => (digit c).isSome) = [] := by
    cases cs with
    | nil => rfl
    | cons c cs => simp [h c rfl]
  unfold number
  dsimp only
  rw [htake]
  exact if_pos (.inl rfl)

/-- A quad needs a dot behind its first digits. -/
theorem ipv4_eq_none_of_digits {cs : Text}
    (h : ∀ c ∈ (cs.dropWhile fun c => (decDigit c).isSome).head?, c ≠ '.') : ipv4 cs = none := by
  unfold ipv4
  cases hread : octet cs with
  | none => rfl
  | some r =>
    have hrest : r.2 = cs.dropWhile fun c => (decDigit c).isSome := by
      unfold octet number at hread
      dsimp only at hread
      split at hread
      · cases hread
      · exact (congrArg Prod.snd (Option.some.inj hread)).symm
    have hdot : givenChar '.' r.2 = none := by
      rw [hrest]
      cases hcs : cs.dropWhile fun c => (decDigit c).isSome with
      | nil => rfl
      | cons c rest => exact if_neg (h c (by rw [hcs]; rfl))
    rw [Option.bind_eq_bind, Option.bind_some]
    dsimp only
    unfold separated
    rw [if_neg (by omega), hdot]
    rfl

/-- Nothing is read where the loop stops. -/
theorem groups_stops {rest : Text} (h : Stops rest) (left i : ℕ) :
    groups left i rest = ([], false, rest) := by
  have hnone : ∀ {A : Type} (read : Reader A),
      (∀ cs : Text, (∀ c ∈ cs.head?, hexDigit c = none) → read cs = none) →
        separated ':' i read rest = none := by
    intro A read hread
    unfold separated
    split
    · exact hread rest fun c hc => (h.1 c hc).1
    · cases rest with
      | nil => rfl
      | cons c r =>
        by_cases hc : c = ':'
        · subst hc
          exact hread r (h.2 r rfl)
        · show (givenChar ':' (c :: r)).bind _ = none
          rw [show givenChar ':' (c :: r) = none from if_neg hc]
          rfl
  have hquad : separated ':' i ipv4 rest = none := by
    refine hnone ipv4 fun cs hcs => ?_
    unfold ipv4
    rw [show octet cs = none from number_eq_none fun c hc => decDigit_of_hexDigit (hcs c hc)]
    rfl
  have hgroup : separated ':' i (number 16 hexDigit (some 4) true 65536) rest = none :=
    hnone _ fun cs hcs => number_eq_none hcs
  cases left with
  | zero => rfl
  | succ left =>
    unfold groups
    rw [hquad, hgroup]
    simp

theorem hexDigit_lt {c : Char} {d : ℕ} (h : hexDigit c = some d) : d < 16 := by
  have hnum : ∀ {a b : Char}, a ≤ b ↔ a.toNat ≤ b.toNat := Iff.rfl
  unfold hexDigit at h
  simp only [hnum] at h
  split at h
  · next hc =>
    have hbound : '9'.toNat = 57 ∧ '0'.toNat = 48 := by decide
    cases h
    omega
  · split at h
    · next hc =>
      have hbound : 'f'.toNat = 102 ∧ 'a'.toNat = 97 := by decide
      cases h
      omega
    · split at h
      · next hc =>
        have hbound : 'F'.toNat = 70 ∧ 'A'.toNat = 65 := by decide
        cases h
        omega
      · cases h

/-- So many digits have a value below the power. -/
theorem foldl_digits_lt {ds : List ℕ} (h : ∀ d ∈ ds, d < 16) (acc : ℕ) :
    ds.foldl (fun acc d => acc * 16 + d) acc < (acc + 1) * 16 ^ ds.length := by
  induction ds generalizing acc with
  | nil => simp
  | cons d ds ih =>
    have hd := h d (List.mem_cons_self ..)
    calc (d :: ds).foldl (fun acc d => acc * 16 + d) acc
        < (acc * 16 + d + 1) * 16 ^ ds.length :=
          ih (fun d' hd' => h d' (List.mem_cons_of_mem _ hd')) _
      _ ≤ ((acc + 1) * 16) * 16 ^ ds.length := Nat.mul_le_mul_right _ (by omega)
      _ = (acc + 1) * 16 ^ (d :: ds).length := by
          rw [List.length_cons, Nat.pow_succ, Nat.mul_assoc, Nat.mul_comm 16]

/-- A group is read as a number, up to what is no digit. -/
theorem number_group {t : Text} {g : ℕ} (ht : GroupSpelling t g) {rest : Text}
    (hrest : ∀ c ∈ rest.head?, hexDigit c = none) :
    number 16 hexDigit (some 4) true 65536 (t ++ rest) = some (g, rest) := by
  refine number_append ht.digits hrest ?_
  have hall : t.takeWhile (fun c => (hexDigit c).isSome) = t :=
    List.takeWhile_eq_self_iff.2 ht.digits
  have hrestless : t.dropWhile (fun c => (hexDigit c).isSome) = [] :=
    List.dropWhile_eq_nil_iff.2 ht.digits
  have hlen : (t.filterMap hexDigit).length = t.length := List.filterMap_length_eq_length.2 ht.digits
  have hne : t.filterMap hexDigit ≠ [] := by
    rw [← List.length_pos_iff, hlen]
    exact List.length_pos_iff.2 ht.ne_nil
  have hlt : g < 65536 := by
    have hds : ∀ d ∈ t.filterMap hexDigit, d < 16 := by
      intro d hd
      obtain ⟨c, -, hc⟩ := List.mem_filterMap.1 hd
      exact hexDigit_lt hc
    calc g = (t.filterMap hexDigit).foldl (fun acc d => acc * 16 + d) 0 := ht.value.symm
      _ < (0 + 1) * 16 ^ (t.filterMap hexDigit).length := foldl_digits_lt hds 0
      _ ≤ (0 + 1) * 16 ^ 4 :=
        Nat.mul_le_mul_left _ (Nat.pow_le_pow_right (by omega) (hlen ▸ ht.short))
  have hshort : ¬ 4 < (t.filterMap hexDigit).length := by
    have := ht.short
    omega
  unfold number
  dsimp only
  rw [hall, hrestless, ht.value]
  exact if_neg (by simp [hne, hshort, hlt])

/-- The pieces of an address from the `i`th on, each but the very first behind a colon. -/
def pieces (i : ℕ) (ts : List Text) : Text :=
  if i = 0 then [':'].intercalate ts else ts.flatMap (':' :: ·)

theorem pieces_cons (i : ℕ) (t : Text) (ts : List Text) :
    pieces i (t :: ts) = (if i = 0 then [] else [':']) ++ (t ++ pieces (i + 1) ts) := by
  have hjoin : ∀ (us : List Text) (u : Text),
      [':'].intercalate (u :: us) = u ++ us.flatMap (':' :: ·) := by
    intro us
    induction us with
    | nil => simp
    | cons v us ih =>
      intro u
      rw [List.intercalate_cons_cons, ih]
      simp
  unfold pieces
  rw [if_neg (Nat.succ_ne_zero i)]
  split
  · exact hjoin ts t
  · simp

/-- Behind the first piece there is a colon, or what follows. -/
theorem head_pieces {i : ℕ} {ts : List Text} {rest : Text} {c : Char}
    (h : c ∈ (pieces (i + 1) ts ++ rest).head?) : c = ':' ∨ c ∈ rest.head? := by
  cases ts with
  | nil => exact .inr h
  | cons t ts =>
    rw [pieces_cons, if_neg (Nat.succ_ne_zero i)] at h
    cases h
    exact .inl rfl

/-- Behind a separator. -/
theorem separated_eq {A : Type} (i : ℕ) (read : Reader A) (cs : Text) :
    separated ':' i read ((if i = 0 then [] else [':']) ++ cs) = read cs := by
  unfold separated
  split
  · rfl
  · rfl

theorem quad_toText (v4 : Ipv4Addr) {rest : Text} (h : Stops rest) :
    ipv4 (v4.toText.toList ++ rest) = some (v4, rest) :=
  ipv4_toText v4 fun c hc => decDigit_of_hexDigit (h.1 c hc).1

/-- A group of digits, before a colon or where the loop stops, is no quad. -/
theorem ipv4_group {t rest : Text} (ht : ∀ c ∈ t, (hexDigit c).isSome = true)
    (hrest : ∀ c ∈ rest.head?, hexDigit c = none ∧ c ≠ '.') : ipv4 (t ++ rest) = none := by
  refine ipv4_eq_none_of_digits fun c hc => ?_
  rintro rfl
  induction t with
  | nil =>
    cases rest with
    | nil => cases hc
    | cons d rest =>
      have hd := (hrest d rfl).1
      rw [List.nil_append, List.dropWhile_cons_of_neg (by simp [decDigit_of_hexDigit hd])] at hc
      cases hc
      exact (hrest '.' rfl).2 rfl
  | cons d t ih =>
    rw [List.cons_append, List.dropWhile_cons] at hc
    split at hc
    · exact ih (fun c hc => ht c (List.mem_cons_of_mem _ hc)) hc
    · cases hc
      exact absurd (ht '.' (List.mem_cons_self ..)) (by decide)

/-- **The loop over the groups** takes the groups that are spelled there, and a dotted quad at
their end, and stops behind them. -/
theorem groups_spelled {ts : List Text} {gs : List ℕ} (h : List.Forall₂ GroupSpelling ts gs)
    (quad : Option Ipv4Addr) {rest : Text} (hrest : Stops rest) {left : ℕ} (i : ℕ)
    (hleft : gs.length + (quadGroups quad).length ≤ left) :
    groups left i (pieces i (ts ++ quadText quad) ++ rest) =
      (gs ++ quadGroups quad, quad.isSome, rest) := by
  induction h generalizing left i with
  | nil =>
    cases quad with
    | none =>
      have hnothing : pieces i ([] ++ quadText none) = [] := by
        unfold pieces
        split <;> rfl
      rw [hnothing]
      exact groups_stops hrest left i
    | some v4 =>
      have hleft : 2 ≤ left := by simpa [quadGroups] using hleft
      obtain ⟨left, rfl⟩ : ∃ k, left = k + 1 + 1 := ⟨left - 2, by omega⟩
      have hquad :
          separated ':' i ipv4 (pieces i ([] ++ quadText (some v4)) ++ rest) = some (v4, rest) := by
        have hnothing : pieces (i + 1) [] = [] := rfl
        show separated ':' i ipv4 (pieces i [v4.toText.toList] ++ rest) = _
        rw [pieces_cons, hnothing, List.append_nil, List.append_assoc, separated_eq, quad_toText v4 hrest]
      unfold groups
      rw [if_pos (by omega), hquad]
      rfl
  | @cons t g ts gs ht hts ih =>
    obtain ⟨left, rfl⟩ : ∃ k, left = k + 1 := by
      rw [List.length_cons] at hleft
      exact ⟨left - 1, by omega⟩
    have hfollow : ∀ c ∈ (pieces (i + 1) (ts ++ quadText quad) ++ rest).head?,
        hexDigit c = none ∧ c ≠ '.' := by
      intro c hc
      rcases head_pieces hc with rfl | hc
      · exact ⟨rfl, by decide⟩
      · exact hrest.1 c hc
    have hquad : separated ':' i ipv4 (pieces i (t :: ts ++ quadText quad) ++ rest) = none := by
      rw [List.cons_append, pieces_cons, List.append_assoc, separated_eq, List.append_assoc]
      exact ipv4_group ht.digits hfollow
    have hgroup : separated ':' i (number 16 hexDigit (some 4) true 65536)
        (pieces i (t :: ts ++ quadText quad) ++ rest) =
          some (g, pieces (i + 1) (ts ++ quadText quad) ++ rest) := by
      rw [List.cons_append, pieces_cons, List.append_assoc, separated_eq, List.append_assoc]
      exact number_group ht fun c hc => (hfollow c hc).1
    have hmore : groups left (i + 1) (pieces (i + 1) (ts ++ quadText quad) ++ rest) =
        (gs ++ quadGroups quad, quad.isSome, rest) := by
      refine ih (i + 1) ?_
      rw [List.length_cons] at hleft
      omega
    unfold groups
    rw [hquad, hgroup]
    simp [hmore]

/-- **A spelling is read as its groups.** -/
theorem ipv6_spelled {t : Text} {gs : List ℕ} (h : Ipv6Spelling t gs) :
    ipv6 t = (Ipv6Addr.ofSegments gs).map (·, []) := by
  cases h with
  | @full ts gs quad hgroups hlen =>
    have hread := groups_spelled hgroups quad stops_nil 0 (le_of_eq hlen)
    rw [List.append_nil] at hread
    have hall : (gs ++ quadGroups quad).length = 8 := by rw [List.length_append, hlen]
    unfold ipv6
    rw [show [':'].intercalate (ts ++ quadText quad) = pieces 0 (ts ++ quadText quad) from rfl, hread]
    exact if_pos hall
  | @short ts us gs hs quad hhead htail hlen =>
    have hhead : groups 8 0 ([':'].intercalate ts ++
        ':' :: ':' :: [':'].intercalate (us ++ quadText quad)) =
          (gs, false, ':' :: ':' :: [':'].intercalate (us ++ quadText quad)) := by
      have hread := groups_spelled hhead none
        (stops_run ([':'].intercalate (us ++ quadText quad))) 0
        (show gs.length + (quadGroups none).length ≤ 8 by show gs.length + 0 ≤ 8; omega)
      simpa only [quadText, quadGroups, pieces, if_pos, Option.map_none, Option.toList_none,
        List.append_nil, Option.elim_none, Option.isSome_none] using hread
    have htail : groups (7 - gs.length) 0 ([':'].intercalate (us ++ quadText quad)) =
        (hs ++ quadGroups quad, quad.isSome, []) := by
      have hread := groups_spelled htail quad stops_nil 0
        (show hs.length + (quadGroups quad).length ≤ 7 - gs.length by omega)
      rw [List.append_nil] at hread
      exact hread
    have hfew : ¬ gs.length = 8 := by omega
    unfold ipv6
    rw [hhead]
    dsimp only
    rw [if_neg hfew, if_neg Bool.false_ne_true]
    show (Ipv6Addr.ofSegments (gs ++ List.replicate (8 - gs.length -
      (groups (7 - gs.length) 0 ([':'].intercalate (us ++ quadText quad))).1.length) 0 ++
        (groups (7 - gs.length) 0 ([':'].intercalate (us ++ quadText quad))).1)).map
          (·, (groups (7 - gs.length) 0 ([':'].intercalate (us ++ quadText quad))).2.2) = _
    rw [htail]

/-- No spelling of an address of version 6 starts like one of version 4. -/
theorem ipv4_spelled {t : Text} {gs : List ℕ} (h : Ipv6Spelling t gs) : ipv4 t = none := by
  have hgroup : ∀ {t g} (ts : List Text) (rest : Text), GroupSpelling t g →
      (∀ c ∈ rest.head?, c = ':') → ipv4 ([':'].intercalate (t :: ts) ++ rest) = none := by
    intro t g ts rest ht hrest
    rw [show [':'].intercalate (t :: ts) = pieces 0 (t :: ts) from rfl, pieces_cons, if_pos rfl,
      List.nil_append, List.append_assoc]
    refine ipv4_group ht.digits fun c hc => ?_
    obtain rfl : c = ':' := (head_pieces hc).elim id (hrest c)
    exact ⟨rfl, by decide⟩
  cases h with
  | @full ts gs quad hgroups hlen =>
    cases hgroups with
    | nil => cases quad <;> simp [quadGroups] at hlen
    | cons ht hts => simpa using hgroup _ [] ht nofun
  | short hhead htail hlen =>
    cases hhead with
    | nil =>
      unfold ipv4
      rw [show octet _ = none from number_eq_none fun c hc => by cases hc; rfl]
      rfl
    | cons ht hts => exact hgroup _ _ ht fun c hc => by cases hc; rfl

/-- An address reads back from each of its spellings. -/
theorem parse_spelled {t : Text} {ip : Ipv6Addr} {gs : List ℕ} (h : Ipv6Spelling t gs)
    (hip : Ipv6Addr.ofSegments gs = some ip) : parse Reader.ip t = some (.v6 ip) := by
  unfold parse Reader.ip
  rw [ipv4_spelled h, ipv6_spelled h, hip]
  rfl

end Reader

/-! ## The text of an address -/

/-- The octets of an address, and its groups of two. -/
theorem Ipv6Addr.exists_octets (ip : Ipv6Addr) : ∃ a b c d e f g h i j k l m n o p : UInt8,
    ip.octets = [a, b, c, d, e, f, g, h, i, j, k, l, m, n, o, p] ∧
      ip.segments = [a.toNat * 256 + b.toNat, c.toNat * 256 + d.toNat, e.toNat * 256 + f.toNat,
        g.toNat * 256 + h.toNat, i.toNat * 256 + j.toNat, k.toNat * 256 + l.toNat,
        m.toNat * 256 + n.toNat, o.toNat * 256 + p.toNat] := by
  obtain ⟨octets, hlen⟩ := ip
  match octets, hlen with
  | [a, b, c, d, e, f, g, h, i, j, k, l, m, n, o, p], hlen =>
    exact ⟨a, b, c, d, e, f, g, h, i, j, k, l, m, n, o, p, rfl, rfl⟩

theorem Ipv6Addr.ofSegments_segments (ip : Ipv6Addr) :
    Ipv6Addr.ofSegments ip.segments = some ip := by
  have hpair : ∀ a b : UInt8, UInt8.ofNat ((a.toNat * 256 + b.toNat) / 256) = a ∧
      UInt8.ofNat (a.toNat * 256 + b.toNat) = b := by
    intro a b
    have ha := a.toNat_lt
    have hb := b.toNat_lt
    constructor
    · apply UInt8.toNat_inj.1
      rw [UInt8.toNat_ofNat']
      omega
    · apply UInt8.toNat_inj.1
      rw [UInt8.toNat_ofNat']
      omega
  obtain ⟨a, b, c, d, e, f, g, h, i, j, k, l, m, n, o, p, hoctets, hsegments⟩ := ip.exists_octets
  rw [hsegments, Ipv6Addr.ofSegments]
  simp only [List.flatMap_cons, List.flatMap_nil, (hpair _ _).1, (hpair _ _).2, List.cons_append,
    List.nil_append, ← hoctets, ip.length_octets, dite_true]

/-- The digits of a group are one of its spellings. -/
theorem groupSpelling_toDigits {g : ℕ} (h : g < 65536) : GroupSpelling (Nat.toDigits 16 g) g := by
  refine ⟨Nat.toDigits_ne_nil, (Nat.length_toDigits_le_iff (by omega) (by omega)).2 h,
    fun c hc => hexDigit_of_mem_toDigits hc, ?_⟩
  have hchar : ∀ d < 16, hexDigit (Nat.digitChar d) = some d := by decide
  clear h
  induction g using Nat.strong_induction_on with
  | _ g ih =>
    rw [Nat.toDigits_eq_if (by omega)]
    split
    · next hlt => simp [hchar g hlt]
    · next hge =>
      have hlast : g % 16 < 16 := Nat.mod_lt _ (by omega)
      rw [List.filterMap_append, List.foldl_append, ih (g / 16) (by omega)]
      simp only [List.filterMap_cons, hchar _ hlast, List.filterMap_nil, List.foldl_cons,
        List.foldl_nil]
      omega

/-- A stretch of zero groups. -/
def ZeroRun (segs : List ℕ) (run : ℕ × ℕ) : Prop :=
  run.1 + run.2 ≤ segs.length ∧ ∀ j, run.1 ≤ j → j < run.1 + run.2 → segs[j]? = some 0

theorem ZeroRun.snoc {segs : List ℕ} {run : ℕ × ℕ} (h : ZeroRun segs run) (seg : ℕ) :
    ZeroRun (segs ++ [seg]) run := by
  refine ⟨?_, fun j hlo hhi => ?_⟩
  · have := h.1
    simp only [List.length_append, List.length_singleton]
    omega
  · have := h.1
    rw [List.getElem?_append_left (by omega)]
    exact h.2 j hlo hhi

/-- What the scan for the longest run of zero groups finds is one. -/
theorem zeroRun_longest (segs : List ℕ) : ZeroRun segs (longestZeroRun segs) := by
  have hscan : ∀ step : (ℕ × ℕ) × (ℕ × ℕ) → ℕ × ℕ → (ℕ × ℕ) × (ℕ × ℕ),
      (∀ cur best seg i, step (cur, best) (seg, i) =
        if seg = 0 then
          let cur : ℕ × ℕ := (if cur.2 = 0 then i else cur.1, cur.2 + 1)
          (cur, if best.2 < cur.2 then cur else best)
        else ((0, 0), best)) →
      ∀ (rest pre : List ℕ) (cur best : ℕ × ℕ), ZeroRun pre best → ZeroRun pre cur →
        (cur.2 ≠ 0 → cur.1 + cur.2 = pre.length) →
          ZeroRun (pre ++ rest) ((rest.zipIdx pre.length).foldl step (cur, best)).2 := by
    intro step hstep rest
    induction rest with
    | nil =>
      intro pre cur best hbest _ _
      simpa using hbest
    | cons seg rest ih =>
      intro pre cur best hbest hcur hend
      rw [List.zipIdx_cons, List.foldl_cons, List.append_cons, hstep]
      have hlen : (pre ++ [seg]).length = pre.length + 1 := by simp
      rw [← hlen]
      dsimp only
      split
      · next hzero =>
        subst hzero
        have hgrown : ZeroRun (pre ++ [0]) (if cur.2 = 0 then pre.length else cur.1, cur.2 + 1) ∧
            (if cur.2 = 0 then pre.length else cur.1) + (cur.2 + 1) = (pre ++ [0]).length := by
          have hsum : (if cur.2 = 0 then pre.length else cur.1) + cur.2 = pre.length := by
            split
            · omega
            · next hne => exact hend hne
          refine ⟨⟨by dsimp only; omega, fun j hlo hhi => ?_⟩, by omega⟩
          dsimp only at hlo hhi
          by_cases hj : j = pre.length
          · subst hj
            simp
          · rw [List.getElem?_append_left (by omega)]
            split at hlo
            · omega
            · next hne => exact hcur.2 j hlo (by have := hend hne; omega)
        refine ih _ _ _ ?_ hgrown.1 fun _ => hgrown.2
        split
        · exact hgrown.1
        · exact hbest.snoc 0
      · refine ih _ _ _ (hbest.snoc seg) ⟨by simp, fun j _ hhi => ?_⟩ fun h => absurd rfl h
        exact absurd hhi (by simp)
  exact hscan _ (fun _ _ _ _ => rfl) segs [] (0, 0) (0, 0) ⟨by simp, by simp⟩ ⟨by simp, by simp⟩
    (by simp)

theorem Ipv6Addr.segments_lt {ip : Ipv6Addr} {g : ℕ} (h : g ∈ ip.segments) : g < 65536 := by
  obtain ⟨i, -, rfl⟩ := List.mem_map.1 h
  have hhi := (ip.octets.getD (2 * i) 0).toNat_lt
  have hlo := (ip.octets.getD (2 * i + 1) 0).toNat_lt
  omega

/-- The digits of groups are spellings of them. -/
theorem groupsSpelling_toDigits {gs : List ℕ} (h : ∀ g ∈ gs, g < 65536) :
    List.Forall₂ GroupSpelling (gs.map (Nat.toDigits 16)) gs := by
  rw [List.forall₂_map_left_iff]
  exact List.forall₂_same.2 fun g hg => groupSpelling_toDigits (h g hg)

/-- A stretch of zero groups, and what is around it. -/
theorem ZeroRun.split {segs : List ℕ} {run : ℕ × ℕ} (h : ZeroRun segs run) :
    segs.take run.1 ++ List.replicate run.2 0 ++ segs.drop (run.1 + run.2) = segs := by
  obtain ⟨hin, hzero⟩ := h
  have hmiddle : (segs.drop run.1).take run.2 = List.replicate run.2 0 := by
    refine List.eq_replicate_iff.2 ⟨?_, fun g hg => ?_⟩
    · rw [List.length_take, List.length_drop]
      omega
    · obtain ⟨j, hj, rfl⟩ := List.mem_iff_getElem.1 hg
      rw [List.length_take, List.length_drop] at hj
      have hget := hzero (run.1 + j) (Nat.le_add_right ..) (by omega)
      rw [List.getElem_take, List.getElem_drop]
      exact (List.getElem?_eq_some_iff.1 hget).2
  rw [← hmiddle, List.append_assoc, ← List.drop_drop, List.take_append_drop, List.take_append_drop]

/-- The groups of a mapped address. -/
theorem Ipv6Addr.segments_of_mapped {ip : Ipv6Addr} {v4 : Ipv4Addr} (hmapped : ip.toIpv4Mapped = some v4) :
    ip.segments = [0, 0, 0, 0, 0, 65535] ++ quadGroups (some v4) := by
  obtain ⟨a, b, c, d, e, f, g, h, i, j, k, l, m, n, o, p, hoctets, hsegments⟩ := ip.exists_octets
  unfold Ipv6Addr.toIpv4Mapped at hmapped
  rw [hoctets] at hmapped
  have hzero : (0 : UInt8).toNat = 0 := rfl
  have hfull : (0xFF : UInt8).toNat = 255 := rfl
  split at hmapped
  · next hlist =>
    cases hlist
    cases hmapped
    rw [hsegments, hzero, hfull]
    rfl
  · cases hmapped

/-- **The text of an address** is one of its spellings. -/
theorem Ipv6Addr.toText_spelled (ip : Ipv6Addr) : Ipv6Spelling ip.toText ip.segments := by
  have hlength : ip.segments.length = 8 := by
    unfold Ipv6Addr.segments
    rw [List.length_map, List.length_range]
  unfold Ipv6Addr.toText
  cases hmapped : ip.toIpv4Mapped with
  | some v4 =>
    have hgroup : GroupSpelling ['f', 'f', 'f', 'f'] 65535 :=
      ⟨List.cons_ne_nil _ _, le_rfl, by simp [hexDigit], by simp [hexDigit]⟩
    have htail : List.Forall₂ GroupSpelling [['f', 'f', 'f', 'f']] [65535] := .cons hgroup .nil
    have hspelled := @Ipv6Spelling.short [] _ [] _ (some v4) .nil htail
      (show 0 + (1 + 2) ≤ 7 by omega)
    rw [Ipv6Addr.segments_of_mapped hmapped]
    simpa [quadText, quadGroups] using hspelled
  | none =>
    have hrun := zeroRun_longest ip.segments
    dsimp only
    split
    · next hmany =>
      have hsplit := hrun.split
      have hin := hrun.1
      have hhead : ∀ g ∈ ip.segments.take (longestZeroRun ip.segments).1, g < 65536 :=
        fun g hg => Ipv6Addr.segments_lt (List.mem_of_mem_take hg)
      have htail : ∀ g ∈ ip.segments.drop ((longestZeroRun ip.segments).1 +
          (longestZeroRun ip.segments).2), g < 65536 :=
        fun g hg => Ipv6Addr.segments_lt (List.mem_of_mem_drop hg)
      have hspelled := @Ipv6Spelling.short _ _ _ _ none (groupsSpelling_toDigits hhead)
        (groupsSpelling_toDigits htail) (by
          rw [List.length_take, List.length_drop]
          show _ + (_ + 0) ≤ 7
          omega)
      have hlen : 8 - (ip.segments.take (longestZeroRun ip.segments).1).length -
          (ip.segments.drop ((longestZeroRun ip.segments).1 +
            (longestZeroRun ip.segments).2)).length = (longestZeroRun ip.segments).2 := by
        rw [List.length_take, List.length_drop]
        omega
      simp only [quadText, quadGroups, Option.map_none, Option.toList_none, Option.elim_none,
        List.append_nil, hlen] at hspelled
      rw [hsplit] at hspelled
      simpa only [hexGroups, List.append_assoc, List.cons_append, List.nil_append] using hspelled
    · have hspelled := @Ipv6Spelling.full _ _ none
        (groupsSpelling_toDigits fun g hg => Ipv6Addr.segments_lt hg)
        (show ip.segments.length + 0 = 8 by rw [hlength])
      simpa [quadText, quadGroups, hexGroups] using hspelled

/-- **An address reads back from its text.** -/
theorem Reader.parse_ipToString (ip : IpAddr) : Reader.parse Reader.ip (ipToString ip) = some ip := by
  cases ip with
  | v4 ip =>
    have hread := @Reader.ipv4_toText ip [] nofun
    rw [List.append_nil] at hread
    unfold Reader.parse Reader.ip ipToString
    rw [hread]
    rfl
  | v6 ip => exact Reader.parse_spelled ip.toText_spelled ip.ofSegments_segments

end Ferrite
