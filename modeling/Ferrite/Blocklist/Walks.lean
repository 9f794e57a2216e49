import Ferrite.Blocklist.Precedence
import Ferrite.Core.Utf8

/-!
# One walk, written three times

`matched_key`, `domain_in_set` and `check_blocked_in` go up the hierarchy of a name in a loop of
their own each, over a test, a hash set and a map keyed by bytes.

* `climb_eq` — the loop visits the parents of the name, the longest first;
* `matchedKeyLoop_eq`, `domainInSetLoop_eq`, `fstWalk_eq` — what the three loops compute;
* `isRegistrableOrDeeper_iff` — the guard, if a suffix that is looked up is one of the name;
* `hierarchy_walks_agree` — they are one relation, and what a bare public suffix adds to it.
-/

namespace Ferrite.Blocklist

/-! ## The loops -/

/-- What is behind the first dot. -/
def afterDot : Name → Option Name
  | [] => none
  | c :: cs => if c = '.' then some cs else afterDot cs

/-- `while let Some(dot) = rest.find('.')`: a label less every turn, until a turn returns. -/
def climb {β : Type} (visit : Name → Option β) : (turns : ℕ) → Name → Option β
  | 0, _ => none
  | turns + 1, rest => (afterDot rest).bind fun rest => (visit rest).or (climb visit turns rest)

/-- `matched_key`, with its loop. -/
def matchedKeyLoop (env : Crates) (domain : Name) (contains : Name → Bool) : Option Name :=
  if contains domain then some domain
  else climb (fun rest => if contains rest && isRegistrableOrDeeper env rest then some rest else none)
    domain.length domain

/-- `domain_in_set`, with its loop. -/
def domainInSetLoop (env : Crates) (domain : Name) (set : Finset Name) : Bool :=
  if domain ∈ set then true
  else (climb (fun rest => if decide (rest ∈ set) && isRegistrableOrDeeper env rest then some true
    else none) domain.length domain).getD false

/-- The part of `check_blocked_in` behind the manual entries, with its loop: the keys of the map
are bytes. -/
def fstWalk (env : Crates) (domain : Name) (fst : Finset Bytes) : Bool :=
  if domain.toBytes ∈ fst then true
  else (climb (fun rest => if decide (rest.toBytes ∈ fst) && isRegistrableOrDeeper env rest then
    some true else none) domain.length domain).getD false

/-- The keys of a map that was built for these names. -/
def keysOf (set : Finset Name) : Finset Bytes := set.image Text.toBytes

theorem parents_eq (name : Name) :
    parents name = (afterDot name).elim [] fun rest => rest :: parents rest := by
  induction name with
  | nil => rfl
  | cons c cs ih =>
    rw [parents, afterDot]
    split
    · rfl
    · exact ih

theorem length_afterDot_lt {name rest : Name} (h : afterDot name = some rest) :
    rest.length < name.length := by
  induction name with
  | nil => cases h
  | cons c cs ih =>
    rw [afterDot] at h
    rw [List.length_cons]
    split at h
    · cases h
      exact Nat.lt_succ_self _
    · exact (ih h).trans (Nat.lt_succ_self _)

/-- The loop visits the parents in their order. -/
theorem climb_eq {β : Type} (visit : Name → Option β) {turns : ℕ} {name : Name}
    (h : name.length ≤ turns) : climb visit turns name = (parents name).findSome? visit := by
  induction turns generalizing name with
  | zero =>
    rw [List.length_eq_zero_iff.1 (Nat.le_zero.1 h)]
    rfl
  | succ turns ih =>
    rw [climb, parents_eq]
    cases hdot : afterDot name with
    | none => rfl
    | some rest =>
      have hlt := length_afterDot_lt hdot
      show (visit rest).or (climb visit turns rest) = _
      rw [ih (by omega)]
      show _ = (rest :: parents rest).findSome? visit
      rw [List.findSome?_cons]
      cases visit rest <;> rfl

/-- A turn that returns where a test holds. -/
theorem findSome?_ite {β : Type} (p : Name → Bool) (f : Name → β) (names : List Name) :
    (names.findSome? fun k => if p k then some (f k) else none) = (names.find? p).map f := by
  induction names with
  | nil => rfl
  | cons k names ih =>
    rw [List.findSome?_cons, List.find?_cons]
    cases p k with
    | false => exact ih
    | true => rfl

section

variable (env : Crates) (domain : Name)

theorem matchedKeyLoop_eq (contains : Name → Bool) :
    matchedKeyLoop env domain contains = matchedKey env domain contains := by
  have hfirst := findSome?_ite (fun k => contains k && isRegistrableOrDeeper env k) id
    (parents domain)
  rw [Option.map_id, id] at hfirst
  rw [matchedKeyLoop, matchedKey, climb_eq _ le_rfl, ← hfirst]
  rfl

/-- Whether the loop returns at all. -/
theorem getD_climb (p : Name → Bool) :
    (climb (fun rest => if p rest then some true else none) domain.length domain).getD false =
      (parents domain).any p := by
  rw [climb_eq _ le_rfl, findSome?_ite p fun _ => true, Bool.eq_iff_iff, List.any_eq_true,
    ← List.find?_isSome]
  cases (parents domain).find? p <;> simp

theorem domainInSetLoop_eq (set : Finset Name) :
    domainInSetLoop env domain set = domainInSet env domain set := by
  rw [domainInSetLoop, domainInSet,
    getD_climb domain fun k => decide (k ∈ set) && isRegistrableOrDeeper env k]
  by_cases h : domain ∈ set <;> simp [h]

theorem mem_keysOf_iff {set : Finset Name} {name : Name} : name.toBytes ∈ keysOf set ↔ name ∈ set :=
  Text.toBytes_injective.mem_finset_image

theorem fstWalk_eq (set : Finset Name) :
    fstWalk env domain (keysOf set) = domainInSet env domain set := by
  simp only [fstWalk, mem_keysOf_iff]
  exact domainInSetLoop_eq env domain set

/-- `check_blocked_in` is the manual entries, the services and the walk over the map. -/
theorem checkBlockedIn_eq (s : Sets) (set : Finset Name) :
    checkBlockedIn env s domain set = (s.blacklist.contains env domain ||
      s.blockedServices.contains env domain || fstWalk env domain (keysOf set)) := by
  rw [fstWalk_eq, checkBlockedIn, domainInSet, Bool.or_assoc]

end

/-! ## The guard -/

/-- The name is `suffix`, or ends in it at a label boundary. -/
def LabelSuffix (name suffix : Name) : Prop := name = suffix ∨ ∃ pre, name = pre ++ '.' :: suffix

/-- What `psl::suffix` is taken for: the suffix it returns is one of the name it is asked for. -/
def Crates.LooksUpSuffixes (env : Crates) : Prop :=
  ∀ name suffix, env.suffix name = some suffix → LabelSuffix name suffix

/-- The name has a label in front of its public suffix. -/
def AtOrBelowRegistrable (env : Crates) (name : Name) : Prop :=
  ∀ suffix, env.suffix name = some suffix → ∃ pre, name = pre ++ '.' :: suffix

/-- The name is a public suffix and no more. -/
def IsPublicSuffix (env : Crates) (name : Name) : Prop := env.suffix name = some name

section

variable {env : Crates}

theorem isRegistrableOrDeeper_iff (hpsl : env.LooksUpSuffixes) {name : Name} :
    isRegistrableOrDeeper env name = true ↔ AtOrBelowRegistrable env name := by
  unfold isRegistrableOrDeeper AtOrBelowRegistrable
  cases hsuffix : env.suffix name with
  | none => simp
  | some suffix =>
    simp only [decide_eq_true_eq, Option.some.injEq, forall_eq']
    constructor
    · intro hlt
      rcases hpsl name suffix hsuffix with rfl | hpre
      · exact absurd hlt (lt_irrefl _)
      · exact hpre
    · rintro ⟨pre, rfl⟩
      rw [List.length_append, List.length_cons]
      omega

theorem not_registrable_of_isPublicSuffix {name : Name} (h : IsPublicSuffix env name) :
    isRegistrableOrDeeper env name = false := by
  rw [isRegistrableOrDeeper, h]
  simp

end

/-! ## The relation -/

/-- The entry `k` of the set reaches the name. -/
def Reaches (env : Crates) (set : Finset Name) (domain k : Name) : Prop :=
  k ∈ set ∧ (k = domain ∨ (∃ pre, domain = pre ++ '.' :: k) ∧ AtOrBelowRegistrable env k)

section

variable {env : Crates} {set : Finset Name} {domain : Name}

theorem reaches_iff (hpsl : env.LooksUpSuffixes) {k : Name} :
    Reaches env set domain k ↔ k ∈ set ∧ Covers env domain k := by
  rw [Reaches, Covers, isRegistrableOrDeeper_iff hpsl]

theorem Reaches.suffix {k : Name} (h : Reaches env set domain k) : k <:+ domain := by
  rcases h.2 with rfl | ⟨⟨pre, rfl⟩, -⟩
  · exact List.suffix_rfl
  · exact ⟨pre ++ ['.'], by simp⟩

/-- The parents get shorter. -/
theorem parents_pairwise (name : Name) : (parents name).Pairwise fun k k' => k'.length < k.length := by
  induction name with
  | nil => exact List.Pairwise.nil
  | cons c cs ih =>
    rw [parents]
    split
    · refine List.pairwise_cons.2 ⟨fun k hk => ?_, ih⟩
      obtain ⟨pre, rfl⟩ := mem_parents_iff.1 hk
      rw [List.length_append, List.length_cons]
      omega
    · exact ih

/-- What is found first is the longest that could be found. -/
theorem le_of_find?_parents {p : Name → Bool} {k k' : Name}
    (h : (parents domain).find? p = some k) (hk' : k' ∈ parents domain) (hp : p k' = true) :
    k'.length ≤ k.length := by
  obtain ⟨-, before, after, hsplit, hfirst⟩ := List.find?_eq_some_iff_append.1 h
  have hsorted := parents_pairwise domain
  rw [hsplit] at hk' hsorted
  rcases List.mem_append.1 hk' with hbefore | hafter
  · have := hfirst k' hbefore
    simp [hp] at this
  · rcases List.mem_cons.1 hafter with rfl | hafter
    · exact le_rfl
    · exact ((List.pairwise_cons.1 (List.pairwise_append.1 hsorted).2.1).1 k' hafter).le

/-- `matched_key` returns the longest entry that reaches the name. -/
theorem matchedKey_eq_some_iff (hpsl : env.LooksUpSuffixes) {k : Name} :
    matchedKey env domain (fun k => decide (k ∈ set)) = some k ↔
      Reaches env set domain k ∧ ∀ k', Reaches env set domain k' → k'.length ≤ k.length := by
  have hlongest : ∀ k, matchedKey env domain (fun k => decide (k ∈ set)) = some k →
      Reaches env set domain k ∧ ∀ k', Reaches env set domain k' → k'.length ≤ k.length := by
    intro k h
    unfold matchedKey at h
    by_cases hexact : domain ∈ set
    · rw [if_pos (decide_eq_true hexact)] at h
      cases h
      exact ⟨⟨hexact, .inl rfl⟩, fun k' hk' => hk'.suffix.length_le⟩
    · rw [if_neg (by simpa using hexact)] at h
      have hk := List.find?_some h
      rw [Bool.and_eq_true, decide_eq_true_eq] at hk
      have hparent := mem_parents_iff.1 (List.mem_of_find?_eq_some h)
      refine ⟨⟨hk.1, .inr ⟨hparent, (isRegistrableOrDeeper_iff hpsl).1 hk.2⟩⟩, ?_⟩
      rintro k' ⟨hk', rfl | ⟨hpre, hreg⟩⟩
      · exact absurd hk' hexact
      · refine le_of_find?_parents h (mem_parents_iff.2 hpre) ?_
        rw [Bool.and_eq_true, decide_eq_true_eq]
        exact ⟨hk', (isRegistrableOrDeeper_iff hpsl).2 hreg⟩
  refine ⟨hlongest k, ?_⟩
  rintro ⟨hk, hmax⟩
  -- something is found, and of two entries that reach the name the longer one ends in the other
  have hfound : (matchedKey env domain fun k => decide (k ∈ set)).isSome = true :=
    isSome_matchedKey_iff.2 ⟨k, by simpa using hk.1, ((reaches_iff hpsl).1 hk).2⟩
  obtain ⟨k₀, hk₀⟩ := Option.isSome_iff_exists.1 hfound
  obtain ⟨hreach, hmax₀⟩ := hlongest k₀ hk₀
  have hsuffix : k <:+ k₀ := List.suffix_of_suffix_length_le hk.suffix hreach.suffix (hmax₀ k hk)
  rw [hk₀, hsuffix.eq_of_length_le (hmax k₀ hreach)]

/-- A bare public suffix in the set reaches no name but itself. -/
theorem domainInSet_insert_of_ne {suffix other : Name} (hsuffix : IsPublicSuffix env suffix)
    (hne : other ≠ suffix) :
    domainInSet env other (insert suffix set) = domainInSet env other set := by
  rw [Bool.eq_iff_iff, domainInSet_iff, domainInSet_iff]
  constructor
  · rintro ⟨k, hk, hcovers⟩
    rcases Finset.mem_insert.1 hk with rfl | hk
    · rcases hcovers with rfl | ⟨-, hreg⟩
      · exact absurd rfl hne
      · rw [not_registrable_of_isPublicSuffix hsuffix] at hreg
        cases hreg
    · exact ⟨k, hk, hcovers⟩
  · rintro ⟨k, hk, hcovers⟩
    exact ⟨k, Finset.mem_insert_of_mem hk, hcovers⟩

end

/-- **One relation.**  The walk of `check_blocked_in` over a map with these keys, `matched_key`
and `domain_in_set` agree: they find the name in the set, or a proper parent of it that is in
the set and at or below the registrable boundary.  `matched_key` returns the longest.  A bare
public suffix in the set adds itself and nothing under it. -/
theorem hierarchy_walks_agree (env : Crates) (hpsl : env.LooksUpSuffixes) (domain : Name)
    (set : Finset Name) :
    (∀ s, checkBlockedIn env s domain set = (s.blacklist.contains env domain ||
      s.blockedServices.contains env domain || fstWalk env domain (keysOf set))) ∧
    fstWalk env domain (keysOf set) = domainInSetLoop env domain set ∧
    (matchedKeyLoop env domain fun k => decide (k ∈ set)).isSome = domainInSetLoop env domain set ∧
    (domainInSetLoop env domain set = true ↔ domain ∈ set ∨
      ∃ k ∈ set, (∃ pre, domain = pre ++ '.' :: k) ∧ AtOrBelowRegistrable env k) ∧
    (∀ k, matchedKeyLoop env domain (fun k => decide (k ∈ set)) = some k ↔
      Reaches env set domain k ∧ ∀ k', Reaches env set domain k' → k'.length ≤ k.length) ∧
    ∀ suffix, IsPublicSuffix env suffix →
      domainInSetLoop env suffix (insert suffix set) = true ∧
      ∀ other, other ≠ suffix →
        domainInSetLoop env other (insert suffix set) = domainInSetLoop env other set := by
  simp only [matchedKeyLoop_eq, domainInSetLoop_eq]
  refine ⟨fun s => checkBlockedIn_eq env domain s set, fstWalk_eq env domain set, ?_, ?_, ?_, ?_⟩
  · rw [Bool.eq_iff_iff, isSome_matchedKey_iff, domainInSet_iff]
    simp
  · rw [domainInSet_iff]
    constructor
    · rintro ⟨k, hk, rfl | ⟨hpre, hreg⟩⟩
      · exact .inl hk
      · exact .inr ⟨k, hk, hpre, (isRegistrableOrDeeper_iff hpsl).1 hreg⟩
    · rintro (hk | ⟨k, hk, hpre, hreg⟩)
      · exact ⟨domain, hk, .inl rfl⟩
      · exact ⟨k, hk, .inr ⟨hpre, (isRegistrableOrDeeper_iff hpsl).2 hreg⟩⟩
  · exact fun k => matchedKey_eq_some_iff hpsl
  · intro suffix hsuffix
    refine ⟨domainInSet_iff.2 ⟨suffix, Finset.mem_insert_self .., .inl rfl⟩, ?_⟩
    exact fun other hne => domainInSet_insert_of_ne hsuffix hne

namespace Example

/-- A public suffix list that knows `co.uk` and `uk`. -/
def pslUk : Crates :=
  { env with suffix := fun n => ["co.uk".toList, "uk".toList].find? (hasSuffix n) }

theorem pslUk_looksUpSuffixes : pslUk.LooksUpSuffixes := by
  intro name suffix h
  exact hasSuffix_iff.1 (List.find?_some h)

/-- `www.evil.co.uk`. -/
def wwwEvilUk : Name := "www.evil.co.uk".toList

end Example

/-- An entry for `co.uk` does not reach `www.evil.co.uk`; one for `evil.co.uk` does. -/
theorem hierarchy_walks_agree_uk :
    domainInSetLoop Example.pslUk Example.wwwEvilUk {"evil.co.uk".toList} = true ∧
      domainInSetLoop Example.pslUk Example.wwwEvilUk (insert "co.uk".toList ∅) =
        domainInSetLoop Example.pslUk Example.wwwEvilUk ∅ := by
  have hagree := hierarchy_walks_agree Example.pslUk Example.pslUk_looksUpSuffixes Example.wwwEvilUk
  refine ⟨(hagree {"evil.co.uk".toList}).2.2.2.1.2 (.inr ?_), ?_⟩
  · refine ⟨_, Finset.mem_singleton_self _, ⟨"www".toList, by decide +kernel⟩, ?_⟩
    rw [← isRegistrableOrDeeper_iff Example.pslUk_looksUpSuffixes]
    decide +kernel
  · have hbare : IsPublicSuffix Example.pslUk "co.uk".toList := by
      unfold IsPublicSuffix
      decide +kernel
    exact ((hagree ∅).2.2.2.2.2 "co.uk".toList hbare).2 _ (by decide +kernel)

end Ferrite.Blocklist
