import Ferrite.Core.TtlRewrites
import Ferrite.Dns.Lifetimes

/-!
# The lifetime of a rewritten answer

`cache_ttl` reads the TTL field of every answer record, and the rewrites change that of every
record but OPT.  For an OPT record in the answer section the two disagree about what the field
is, and then the lifetime of a rewritten answer is not the rewritten lifetime.

* `scan_eq_some_iff` — the scan finds the least TTL of the answer records;
* `least_cap_iff`, `least_set_iff` — what the rewrites make of it;
* `cacheTtl_negative_cap` — without an answer record the SOA's part is cut as it should be;
* `lifetime_commutes_iff` — when the lifetime follows the rewrites.
-/

namespace Ferrite.Dns

open Bytes Wire

/-- The least TTL among the answer records. -/
structure LeastTtl (msg : Bytes) (rs : List RecordRef) (ttl : UInt32) : Prop where
  attained : ∃ a ∈ rs, a.inSection = .answer ∧ msg.readU32 a.ttlOff = ttl
  least : ∀ a ∈ rs, a.inSection = .answer → ttl ≤ msg.readU32 a.ttlOff

theorem LeastTtl.unique {msg : Bytes} {rs : List RecordRef} {t u : UInt32}
    (ht : LeastTtl msg rs t) (hu : LeastTtl msg rs u) : t = u := by
  obtain ⟨a, ha, hans, rfl⟩ := ht.attained
  obtain ⟨b, hb, hans', rfl⟩ := hu.attained
  exact UInt32.le_antisymm (ht.least b hb hans') (hu.least a ha hans)

theorem scan_eq_some_iff {msg : Bytes} {rs : List RecordRef} {ttl : UInt32} :
    (rs.foldl (cacheScan msg) (none, none)).1 = some ttl ↔ LeastTtl msg rs ttl := by
  constructor
  · intro h
    exact ⟨(scan_mem h).resolve_left nofun, (scan_le h).2⟩
  · intro h
    cases hscan : (rs.foldl (cacheScan msg) (none, none)).1 with
    | none =>
      obtain ⟨a, ha, hans, -⟩ := h.attained
      exact absurd hans ((scan_none_iff.1 hscan).2 a ha)
    | some u =>
      have hu : LeastTtl msg rs u := ⟨(scan_mem hscan).resolve_left nofun, (scan_le hscan).2⟩
      rw [h.unique hu]

/-- The lifetime of an answer with answer records. -/
theorem cacheTtl_of_least {msg : Bytes} {rs : List RecordRef} {ttl : UInt32}
    (h : walk msg = some (rs, true)) (hleast : LeastTtl msg rs ttl) :
    cacheTtl msg = (some ttl).filter (0 < ·) := by
  simp only [cacheTtl, h, scan_eq_some_iff.2 hleast, Option.some_or]

/-- The lifetime of an answer without any. -/
theorem cacheTtl_of_no_answer {msg : Bytes} {rs : List RecordRef}
    (h : walk msg = some (rs, true)) (hno : ∀ r ∈ rs, r.inSection ≠ .answer) :
    cacheTtl msg = ((rs.find? isNegativeSoa).map (negativeLifetime msg)).filter (0 < ·) := by
  have hnone : (rs.foldl (cacheScan msg) (none, none)).1 = none := scan_none_iff.2 ⟨rfl, hno⟩
  simp only [cacheTtl, h, hnone, Option.none_or, scan_soa]

theorem exists_least (msg : Bytes) {rs : List RecordRef}
    (h : ∃ r ∈ rs, r.inSection = .answer) : ∃ ttl, LeastTtl msg rs ttl := by
  cases hscan : (rs.foldl (cacheScan msg) (none, none)).1 with
  | none =>
    obtain ⟨a, ha, hans⟩ := h
    exact absurd hans ((scan_none_iff.1 hscan).2 a ha)
  | some ttl => exact ⟨ttl, scan_eq_some_iff.1 hscan⟩

section

variable {msg : Bytes} {rs : List RecordRef} {t x : UInt32} {out : Bytes × Bool}

/-- Capping cuts the least TTL if an answer record is not OPT, or the least is not above the
ceiling anyway. -/
theorem least_cap_iff (hx : LeastTtl msg rs x) (hcap : Rewritten msg rs (fun old => min old t) out) :
    LeastTtl out.1 rs (min x t) ↔
      ∃ a ∈ rs, a.inSection = .answer ∧ (a.rtype ≠ typeOpt ∨ msg.readU32 a.ttlOff ≤ t) := by
  constructor
  · intro h
    obtain ⟨a, ha, hans, hmin⟩ := h.attained
    refine ⟨a, ha, hans, ?_⟩
    by_cases hopt : a.rtype = typeOpt
    · right
      rw [hcap.ttls a ha, if_pos hopt] at hmin
      rw [hmin]
      exact Std.min_le_right
    · exact .inl hopt
  · rintro ⟨b, hb, hans, hcut⟩
    have hleast : ∀ a ∈ rs, a.inSection = .answer → min x t ≤ out.1.readU32 a.ttlOff := by
      intro a ha hans
      have hle := hx.least a ha hans
      rw [hcap.ttls a ha]
      split_ifs
      · exact UInt32.le_trans Std.min_le_left hle
      · exact Std.le_min_iff.2 ⟨UInt32.le_trans Std.min_le_left hle, Std.min_le_right⟩
    refine ⟨?_, hleast⟩
    by_cases hxt : x ≤ t
    · -- the shortest record is still the shortest
      obtain ⟨a, ha, hans, rfl⟩ := hx.attained
      refine ⟨a, ha, hans, ?_⟩
      rw [hcap.ttls a ha, Std.min_eq_if, if_pos hxt]
      split_ifs <;> rfl
    · -- the ceiling is met by the record that was cut
      have hlong : ¬ msg.readU32 b.ttlOff ≤ t := fun h => hxt (UInt32.le_trans (hx.least b hb hans) h)
      have hopt : b.rtype ≠ typeOpt := hcut.resolve_right hlong
      refine ⟨b, hb, hans, ?_⟩
      rw [hcap.ttls b hb, if_neg hopt, Std.min_eq_if, Std.min_eq_if, if_neg hlong, if_neg hxt]

/-- After a `set` the TTL that was set is the least if no OPT record is shorter, and some
record has it. -/
theorem least_set_iff (hset : Rewritten msg rs (fun _ => t) out) :
    LeastTtl out.1 rs t ↔
      (∃ a ∈ rs, a.inSection = .answer ∧ (a.rtype = typeOpt → msg.readU32 a.ttlOff = t)) ∧
      ∀ a ∈ rs, a.inSection = .answer → a.rtype = typeOpt → t ≤ msg.readU32 a.ttlOff := by
  have hread : ∀ a ∈ rs, out.1.readU32 a.ttlOff = t ↔
      (a.rtype = typeOpt → msg.readU32 a.ttlOff = t) := by
    intro a ha
    rw [hset.ttls a ha]
    by_cases hopt : a.rtype = typeOpt <;> simp [hopt]
  have hle : ∀ a ∈ rs, t ≤ out.1.readU32 a.ttlOff ↔
      (a.rtype = typeOpt → t ≤ msg.readU32 a.ttlOff) := by
    intro a ha
    rw [hset.ttls a ha]
    by_cases hopt : a.rtype = typeOpt <;> simp [hopt]
  constructor
  · intro h
    obtain ⟨a, ha, hans, htt⟩ := h.attained
    exact ⟨⟨a, ha, hans, (hread a ha).1 htt⟩, fun a ha hans => (hle a ha).1 (h.least a ha hans)⟩
  · rintro ⟨⟨a, ha, hans, htt⟩, hleast⟩
    exact ⟨⟨a, ha, hans, (hread a ha).2 htt⟩, fun a ha hans => (hle a ha).2 (hleast a ha hans)⟩

/-- The SOA of a negative answer is cut as it should be: it is no OPT record, and its MINIMUM
stays. -/
theorem negativeLifetime_cap {soa : RecordRef}
    (hcap : Rewritten msg rs (fun old => min old t) out) (hsoa : soa ∈ rs)
    (hneg : isNegativeSoa soa = true) :
    negativeLifetime out.1 soa = min (negativeLifetime msg soa) t := by
  obtain ⟨⟨-, htype⟩, hlen⟩ :
      (soa.inSection = .authority ∧ soa.rtype = typeSoa) ∧ soaMinRdata ≤ soa.rdataLen := by
    simpa [isNegativeSoa] using hneg
  have hopt : soa.rtype ≠ typeOpt := by
    rw [htype]
    decide
  have hmin : out.1.readU32 (soa.rdataOff + soa.rdataLen - 4) =
      msg.readU32 (soa.rdataOff + soa.rdataLen - 4) := by
    simp only [soaMinRdata] at hlen
    exact (hcap.rdata soa hsoa).readU32 (by omega) (by omega)
  have hswap : ∀ a b c : UInt32, c ≤ min (min a t) b ↔ c ≤ min (min a b) t := by
    intro a b c
    simp only [Std.le_min_iff]
    tauto
  unfold negativeLifetime
  rw [hmin, hcap.ttls soa hsoa, if_neg hopt]
  exact UInt32.le_antisymm ((hswap ..).1 (UInt32.le_refl _)) ((hswap ..).2 (UInt32.le_refl _))

/-- The lifetime after a rewrite is the given one exactly when that is the least TTL. -/
theorem cacheTtl_eq_some_iff {y : UInt32} (h : walk msg = some (rs, true)) (hy : 0 < y)
    (hans : ∃ r ∈ rs, r.inSection = .answer) : cacheTtl msg = some y ↔ LeastTtl msg rs y := by
  constructor
  · intro hcache
    obtain ⟨x, hx⟩ := exists_least msg hans
    rw [cacheTtl_of_least h hx] at hcache
    obtain ⟨hxy, -⟩ := Option.filter_eq_some_iff.1 hcache
    cases hxy
    exact hx
  · intro hleast
    rw [cacheTtl_of_least h hleast]
    simp [hy]

/-- The lifetime follows the ceiling. -/
def CapCommutes (msg : Bytes) (t : UInt32) : Prop :=
  cacheTtl (Wire.capTtls msg t).1 = (cacheTtl msg).map fun ttl => min ttl t

/-- The lifetime is the TTL that was set. -/
def SetCommutes (msg : Bytes) (t : UInt32) : Prop := cacheTtl (Wire.setTtls msg t).1 = some t

theorem filter_pos (a : UInt32) : (some a).filter (0 < ·) = if 0 < a then some a else none := by
  simp only [Option.filter, decide_eq_true_eq]

theorem filter_pos_min (ht : 0 < t) (o : Option UInt32) :
    (o.map fun ttl => min ttl t).filter (0 < ·) = (o.filter (0 < ·)).map fun ttl => min ttl t := by
  cases o with
  | none => rfl
  | some ttl =>
    have hmin : 0 < min ttl t ↔ 0 < ttl := by
      rw [Std.min_eq_if]
      split_ifs with hle
      · rfl
      · exact iff_of_true ht (UInt32.lt_trans ht (UInt32.not_le.1 hle))
    rw [Option.map_some, filter_pos, filter_pos]
    by_cases hpos : 0 < ttl
    · rw [if_pos hpos, if_pos (hmin.2 hpos)]
      rfl
    · rw [if_neg hpos, if_neg (fun h => hpos (hmin.1 h))]
      rfl

theorem filter_pos_inj {a b : UInt32} :
    (some a).filter (0 < ·) = (some b).filter (0 < ·) ↔ a = b := by
  have hzero : ∀ c : UInt32, ¬ 0 < c → c = 0 := by
    intro c hc
    exact UInt32.le_antisymm (UInt32.not_lt.1 hc) (by simp)
  constructor
  · intro h
    rw [filter_pos, filter_pos] at h
    by_cases ha : 0 < a
    · by_cases hb : 0 < b
      · simpa [ha, hb] using h
      · simp [ha, hb] at h
    · by_cases hb : 0 < b
      · simp [ha, hb] at h
      · rw [hzero a ha, hzero b hb]
  · rintro rfl
    rfl

theorem capCommutes_of_no_answer (h : walk msg = some (rs, true))
    (hno : ∀ r ∈ rs, r.inSection ≠ .answer) (ht : 0 < t) : CapCommutes msg t := by
  have hcap := rewritten_capTtls h t
  rw [CapCommutes, cacheTtl_of_no_answer h hno, cacheTtl_of_no_answer hcap.walks hno,
    ← filter_pos_min ht]
  cases hsoa : rs.find? isNegativeSoa with
  | none => rfl
  | some soa =>
    have hlife := negativeLifetime_cap hcap (List.mem_of_find?_eq_some hsoa)
      (List.find?_some hsoa)
    simp only [Option.map_some, hlife]

theorem capCommutes_iff_of_answer (h : walk msg = some (rs, true))
    (hans : ∃ r ∈ rs, r.inSection = .answer) (ht : 0 < t) :
    CapCommutes msg t ↔
      ∃ a ∈ rs, a.inSection = .answer ∧ (a.rtype ≠ typeOpt ∨ msg.readU32 a.ttlOff ≤ t) := by
  have hcap := rewritten_capTtls h t
  obtain ⟨x, hx⟩ := exists_least msg hans
  obtain ⟨y, hy⟩ := exists_least (Wire.capTtls msg t).1 hans
  rw [CapCommutes, cacheTtl_of_least h hx, cacheTtl_of_least hcap.walks hy, ← filter_pos_min ht,
    Option.map_some, filter_pos_inj, ← least_cap_iff hx hcap]
  constructor
  · rintro rfl
    exact hy
  · intro hmin
    exact hy.unique hmin

theorem setCommutes_iff (h : walk msg = some (rs, true))
    (hans : ∃ r ∈ rs, r.inSection = .answer) (ht : 0 < t) :
    SetCommutes msg t ↔
      (∃ a ∈ rs, a.inSection = .answer ∧ (a.rtype = typeOpt → msg.readU32 a.ttlOff = t)) ∧
      ∀ a ∈ rs, a.inSection = .answer → a.rtype = typeOpt → t ≤ msg.readU32 a.ttlOff := by
  have hset := rewritten_setTtls h t
  rw [SetCommutes, cacheTtl_eq_some_iff hset.walks ht hans, least_set_iff hset]

end

/-- The answer records of a message. -/
def answersOf (msg : Bytes) : List RecordRef := (recordsOf msg).filter (·.inSection = .answer)

/-- **Lifetimes and ceilings.**  The lifetime of a capped answer is the capped lifetime if and
only if the answer section is empty, or has a record that is not OPT, or one whose field is not
above the ceiling.  The lifetime of an answer whose TTLs were set is the TTL that was set if
and only if no OPT record among the answers has less in that field, and some answer record is
not OPT or has just that. -/
theorem lifetime_commutes_iff (m : Bytes) (t : UInt32) (hm : isWellFormed m = true) (ht : 0 < t) :
    (CapCommutes m t ↔ answersOf m = [] ∨
      ∃ a ∈ answersOf m, a.rtype ≠ typeOpt ∨ m.readU32 a.ttlOff ≤ t) ∧
    (answersOf m ≠ [] → (SetCommutes m t ↔
      (∃ a ∈ answersOf m, a.rtype = typeOpt → m.readU32 a.ttlOff = t) ∧
      ∀ a ∈ answersOf m, a.rtype = typeOpt → t ≤ m.readU32 a.ttlOff)) := by
  obtain ⟨rs, h⟩ := isWellFormed_iff.1 hm
  have hmem : ∀ a, a ∈ answersOf m ↔ a ∈ rs ∧ a.inSection = .answer := by
    intro a
    simp [answersOf, recordsOf_eq h]
  by_cases hans : ∃ r ∈ rs, r.inSection = .answer
  · have hne : answersOf m ≠ [] := by
      obtain ⟨r, hr, hsec⟩ := hans
      exact List.ne_nil_of_mem ((hmem r).2 ⟨hr, hsec⟩)
    refine ⟨?_, fun _ => ?_⟩
    · rw [capCommutes_iff_of_answer h hans ht, or_iff_right hne]
      simp only [hmem, and_assoc]
    · rw [setCommutes_iff h hans ht]
      simp only [hmem, and_assoc, and_imp]
  · have hno : ∀ r ∈ rs, r.inSection ≠ .answer := by
      intro r hr hsec
      exact hans ⟨r, hr, hsec⟩
    have hnil : answersOf m = [] := by
      rw [List.eq_nil_iff_forall_not_mem]
      intro a ha
      exact hno a ((hmem a).1 ha).1 ((hmem a).1 ha).2
    exact ⟨iff_of_true (capCommutes_of_no_answer h hno ht) (.inl hnil), fun hne => absurd hnil hne⟩

namespace Rooted

/-- An answer for the root with one record of the given type, with 300 in its TTL field. -/
def answer (rtype : UInt8) : Bytes :=
  [0, 7, 0x81, 0x80, 0, 1, 0, 1, 0, 0, 0, 0] ++ [0, 0, 1, 0, 1] ++
    [0, 0, rtype, 0, 1, 0, 0, 1, 0x2C, 0, 4, 192, 0, 2, 1]

end Rooted

open Rooted in
/-- An address follows both. -/
theorem lifetime_commutes_address :
    CapCommutes (answer 1) 60 ∧ SetCommutes (answer 1) 60 := by
  have hans : answersOf (answer 1) = [⟨.answer, 1, 1, 22, 28, 4⟩] := by decide +kernel
  have htype : (1 : UInt16) ≠ typeOpt := by decide
  obtain ⟨hcap, hset⟩ := lifetime_commutes_iff (answer 1) 60 (by decide +kernel) (by decide)
  refine ⟨hcap.2 (.inr ?_), (hset (by simp [hans])).2 ⟨?_, ?_⟩⟩
  · simp [hans, htype]
  · simp [hans, htype]
  · simp [hans, htype]

open Rooted in
/-- An OPT record in the place of the address keeps its field, and the lifetime is read from
it. -/
theorem opt_answer_outlives_ceiling :
    isWellFormed (answer 41) = true ∧ answersOf (answer 41) ≠ [] ∧
      ¬ CapCommutes (answer 41) 60 ∧ ¬ SetCommutes (answer 41) 60 := by
  unfold CapCommutes SetCommutes
  decide +kernel

end Ferrite.Dns
