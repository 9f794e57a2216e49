import Mathlib.Data.List.Sort
import Ferrite.Blocklist.ListNames
import Ferrite.Blocklist.Stream

/-!
# What the rules of an Adblock list say

`||d` blocks a domain and `@@||d` exempts it, where `^`, `$` with options, or the end of the
line comes behind the domain.  The lists of both polarities read such rules with one function,
except that a list that blocks does not cut the options off its exceptions, and compares names
as they are written.

* `blockRule`, `exceptionRule`, `allowRule` — what a line says;
* `adblock_says_iff` — the keys of a list are what its rules say exactly if each name that is
  blocked and exempted is exempted in the spelling of its block rule by a rule that the list
  understands, no name is dots alone, and the names find room.
-/

namespace Ferrite.Blocklist

variable (isAlphanumeric : Char → Bool)

/-! ## What a line says -/

/-- The plain domain that a rule names: up to `^`, `$` or the end. -/
def ruleName (rest : Text) : Option Name :=
  let d := (Text.trim (rest.takeWhile fun c => decide (c ≠ '^') && decide (c ≠ '$'))).toAsciiLowercase
  if isValidDomain isAlphanumeric d then some d else none

/-- The name that a line blocks. -/
def blockRule (line : Text) : Option Name :=
  (line.trim.stripPrefix "||".toList).bind fun rest =>
    if (ruleParts rest).2 then none else ruleName isAlphanumeric rest

/-- The name that a line exempts. -/
def exceptionRule (line : Text) : Option Name :=
  (line.trim.stripPrefix "@@||".toList).bind (ruleName isAlphanumeric)

/-- The name that a line exempts on all sites. -/
def allowRule (line : Text) : Option Name :=
  (line.trim.stripPrefix "@@||".toList).bind fun rest =>
    if (ruleParts rest).2 then none else ruleName isAlphanumeric rest

/-- A name without trailing dots. -/
def bare (d : Name) : Name := d.trimEndMatches (· == '.')

/-- The name is blocked by some line, and no line exempts it. -/
def Blocked (lines : List Text) (key : Name) : Prop :=
  key ≠ [] ∧ (∃ line ∈ lines, ∃ d, blockRule isAlphanumeric line = some d ∧ bare d = key) ∧
    ¬ ∃ line ∈ lines, ∃ e, exceptionRule isAlphanumeric line = some e ∧ bare e = key

/-- The names that the lines exempt on all sites. -/
def allowedNames (lines : List Text) : List Name :=
  ((lines.filterMap (allowRule isAlphanumeric)).map bare).filter (· ≠ [])

/-- What a list does with the lines is what they say. -/
structure Says (lines lines' : List Text) : Prop where
  keys : ∀ key, key ∈ (finishedSet isAlphanumeric .adblock .block lines').prepareKeys.iter ↔
    ∃ d, Blocked isAlphanumeric lines d ∧ Text.toBytes d = key
  order : (finishedSet isAlphanumeric .adblock .block lines').prepareKeys.iter =
    (finishedSet isAlphanumeric .adblock .block lines).prepareKeys.iter
  /-- What is kept, and what `finish` removes from the set. -/
  counts : (finishedSet isAlphanumeric .adblock .block lines').spans.length +
      ((fedSet isAlphanumeric .adblock .block lines').spans.length -
        (finishedSet isAlphanumeric .adblock .block lines').spans.length) =
    lines.countP fun line => (blockRule isAlphanumeric line).isSome
  allowed : (fedSet isAlphanumeric .adblock .allow lines').iter.map trimDots =
    (allowedNames isAlphanumeric lines').map Text.toBytes

/-- Some line exempts the name in this spelling, without an option before its `^`. -/
def Recorded (lines : List Text) (d : Name) : Prop :=
  ∃ line ∈ lines, ∃ rest, line.trim.stripPrefix "@@||".toList = some rest ∧
    ruleName isAlphanumeric rest = some d ∧ '$' ∉ rest.takeWhile (· ≠ '^')

/-! ## What the parsers read -/

variable {isAlphanumeric}

theorem ruleParts_fst (rest : Text) : (ruleParts rest).1 = rest.takeWhile (· ≠ '$') := by
  unfold ruleParts Text.splitOnce
  by_cases h : '$' ∈ rest
  · rw [if_pos (List.contains_iff_mem.2 h)]
  · rw [if_neg (mt List.contains_iff_mem.1 h)]
    refine (List.takeWhile_eq_self_iff.2 fun c hc => ?_).symm
    rw [decide_eq_true_eq]
    rintro rfl
    exact h hc

theorem takeWhile_takeWhile_and {α : Type} (p q : α → Bool) (xs : List α) :
    (xs.takeWhile q).takeWhile p = xs.takeWhile fun x => p x && q x := by
  rw [List.takeWhile_takeWhile]
  simp only [Bool.decide_and, Bool.decide_eq_true]

/-- The domain of a rule without its options. -/
theorem ruleHead_ruleParts (rest : Text) : ruleHead (ruleParts rest).1 =
    Text.trim (rest.takeWhile fun c => decide (c ≠ '^') && decide (c ≠ '$')) := by
  unfold ruleHead
  rw [ruleParts_fst, takeWhile_takeWhile_and]

theorem ruleName_eq_some {rest : Text} {d : Name} : ruleName isAlphanumeric rest = some d ↔
    (ruleHead (ruleParts rest).1).toAsciiLowercase = d ∧ isValidDomain isAlphanumeric d = true := by
  unfold ruleName
  rw [ruleHead_ruleParts]
  dsimp only
  rw [Option.ite_none_right_eq_some]
  constructor
  · rintro ⟨hvalid, h⟩
    obtain rfl := Option.some.inj h
    exact ⟨rfl, hvalid⟩
  · rintro ⟨rfl, hvalid⟩
    exact ⟨hvalid, rfl⟩

/-- The path test of a rule is one on its domain. -/
theorem taken_adblock_iff (hA : AsciiAlphanumeric isAlphanumeric) {t : Text} {d : Name} :
    Taken isAlphanumeric .adblock t d ↔
      t.toAsciiLowercase = d ∧ isValidDomain isAlphanumeric d = true := by
  unfold Taken
  constructor
  · rintro ⟨hlower, hvalid, -⟩
    exact ⟨hlower, hvalid⟩
  · rintro ⟨rfl, hvalid⟩
    exact ⟨rfl, hvalid, nofun, fun _ => notMem_of_isValidDomain hA (by decide) (by decide) (by decide) hvalid⟩

theorem adblockRuleDomain_eq (hA : AsciiAlphanumeric isAlphanumeric) (rest : Text) :
    adblockRuleDomain isAlphanumeric (ruleParts rest).1 = ruleName isAlphanumeric rest := by
  refine Option.ext fun d => ?_
  rw [adblockRuleDomain_eq_some, taken_adblock_iff hA, ruleName_eq_some]

/-- A list that blocks takes from a line what the line blocks. -/
theorem namesOf_block (hA : AsciiAlphanumeric isAlphanumeric) (line : Text) :
    namesOf isAlphanumeric .adblock .block line = (blockRule isAlphanumeric line).toList := by
  rw [namesOf_adblock]
  unfold blockRule ruleDomains ruleSign
  dsimp only
  cases line.trim.stripPrefix "||".toList with
  | none => rfl
  | some rest =>
    rw [Option.elim_some, Option.bind_some, adblockRuleDomain_eq hA]
    split <;> rfl

/-- A list that allows takes from a line what the line exempts on all sites. -/
theorem namesOf_allow (hA : AsciiAlphanumeric isAlphanumeric) (line : Text) :
    namesOf isAlphanumeric .adblock .allow line = (allowRule isAlphanumeric line).toList := by
  rw [namesOf_adblock]
  unfold allowRule ruleDomains ruleSign
  dsimp only
  cases line.trim.stripPrefix "@@||".toList with
  | none => rfl
  | some rest =>
    rw [Option.elim_some, Option.bind_some, adblockRuleDomain_eq hA]
    split <;> rfl

/-- An exception whose options are not cut off is understood if there are none before its `^`. -/
theorem mem_exceptionsOf_block (hA : AsciiAlphanumeric isAlphanumeric) (line : Text) (d : Name) :
    d ∈ exceptionsOf isAlphanumeric .adblock .block line ↔
      ∃ rest, line.trim.stripPrefix "@@||".toList = some rest ∧
        ruleName isAlphanumeric rest = some d ∧ '$' ∉ rest.takeWhile (· ≠ '^') := by
  have hhead : ∀ rest : Text, Taken isAlphanumeric .adblock (ruleHead rest) d ↔
      ruleName isAlphanumeric rest = some d ∧ '$' ∉ rest.takeWhile (· ≠ '^') := by
    intro rest
    rw [taken_adblock_iff hA, ruleName_eq_some]
    have hcut : '$' ∉ rest.takeWhile (· ≠ '^') → ruleHead (ruleParts rest).1 = ruleHead rest := by
      intro hno
      have hsame : (rest.takeWhile fun c => decide (c ≠ '^') && decide (c ≠ '$')) =
          rest.takeWhile (· ≠ '^') := by
        have hswap : (fun c : Char => decide (c ≠ '^') && decide (c ≠ '$')) =
            fun c => decide (c ≠ '$') && decide (c ≠ '^') := funext fun c => Bool.and_comm _ _
        rw [hswap, ← takeWhile_takeWhile_and]
        refine List.takeWhile_eq_self_iff.2 fun c hc => ?_
        rw [decide_eq_true_eq]
        rintro rfl
        exact hno hc
      rw [ruleHead_ruleParts, ruleHead, hsame]
    constructor
    · rintro ⟨rfl, hvalid⟩
      have hno : '$' ∉ rest.takeWhile (· ≠ '^') := fun hmem =>
        notMem_of_isValidDomain hA (by decide) (by decide) (by decide) hvalid
          (mem_trim (by decide) hmem)
      exact ⟨⟨by rw [hcut hno], hvalid⟩, hno⟩
    · rintro ⟨⟨hlower, hvalid⟩, hno⟩
      rw [hcut hno] at hlower
      exact ⟨hlower, hvalid⟩
  rw [mem_exceptionsOf_iff, and_iff_right ⟨rfl, rfl⟩]
  unfold exempted
  cases line.trim.stripPrefix "@@||".toList with
  | none => simp
  | some rest => simp [hhead]

/-! ## What the set holds -/

theorem namesIn_block (hA : AsciiAlphanumeric isAlphanumeric) (lines : List Text) :
    namesIn isAlphanumeric .adblock .block lines = lines.filterMap (blockRule isAlphanumeric) := by
  unfold namesIn
  rw [List.filterMap_eq_flatMap_toList, funext (namesOf_block hA)]

theorem namesIn_allow (hA : AsciiAlphanumeric isAlphanumeric) (lines : List Text) :
    namesIn isAlphanumeric .adblock .allow lines = lines.filterMap (allowRule isAlphanumeric) := by
  unfold namesIn
  rw [List.filterMap_eq_flatMap_toList, funext (namesOf_allow hA)]

/-- The keys of a list are the names of its block rules that no exception spells the same. -/
theorem mem_keys_iff (hA : AsciiAlphanumeric isAlphanumeric) {lines : List Text}
    (hfits : Fits isAlphanumeric .adblock .block lines) (key : Bytes) :
    key ∈ (finishedSet isAlphanumeric .adblock .block lines).prepareKeys.iter ↔
      ∃ line ∈ lines, ∃ d, blockRule isAlphanumeric line = some d ∧
        ¬ Recorded isAlphanumeric lines d ∧ Text.toBytes (bare d) = key := by
  obtain ⟨-, -, hmem⟩ := (finishedSet_holds hfits).2.prepareKeys
  have hexc : ∀ d, exceptionsIn isAlphanumeric .adblock .block lines d = true ↔
      Recorded isAlphanumeric lines d := by
    intro d
    unfold exceptionsIn Recorded
    rw [List.any_eq_true]
    refine exists_congr fun line => and_congr_right fun _ => ?_
    rw [decide_eq_true_eq, mem_exceptionsOf_block hA]
  rw [hmem, namesIn_block hA]
  constructor
  · rintro ⟨name, hname, rfl⟩
    obtain ⟨d, hd, rfl⟩ := List.mem_map.1 hname
    obtain ⟨hd, hno⟩ := List.mem_filter.1 hd
    obtain ⟨line, hline, hrule⟩ := List.mem_filterMap.1 hd
    refine ⟨line, hline, d, hrule, fun hrec => ?_, (trimDots_toBytes d).symm⟩
    rw [(hexc d).2 hrec] at hno
    cases hno
  · rintro ⟨line, hline, d, hrule, hno, rfl⟩
    refine ⟨d.toBytes, List.mem_map_of_mem (List.mem_filter.2 ⟨List.mem_filterMap.2 ⟨line, hline, hrule⟩, ?_⟩),
      trimDots_toBytes d⟩
    rw [Bool.not_eq_true', Bool.eq_false_iff, ne_eq, hexc]
    exact hno

/-- What a rule for exceptions names, its line exempts. -/
theorem Recorded.exempted {lines : List Text} {d : Name} (h : Recorded isAlphanumeric lines d) :
    ∃ line ∈ lines, exceptionRule isAlphanumeric line = some d := by
  obtain ⟨line, hline, rest, hrest, hname, -⟩ := h
  refine ⟨line, hline, ?_⟩
  unfold exceptionRule
  rw [hrest, Option.bind_some, hname]

theorem Recorded.perm {lines lines' : List Text} {d : Name} (hp : lines'.Perm lines) :
    Recorded isAlphanumeric lines' d ↔ Recorded isAlphanumeric lines d :=
  exists_congr fun _ => and_congr_left fun _ => hp.mem_iff

variable (isAlphanumeric) in
theorem length_finishedSet_le (polarity : ListPolarity) (lines : List Text) :
    (finishedSet isAlphanumeric .adblock polarity lines).spans.length ≤
      (fedSet isAlphanumeric .adblock polarity lines).spans.length :=
  List.length_filter_le _ _

/-! ## When a list does what its rules say -/

variable (isAlphanumeric) in
/-- No name is blocked and exempted in two ways, and none of those that stay is dots alone. -/
def SpelledAlike (lines : List Text) : Prop :=
  ∀ line ∈ lines, ∀ d, blockRule isAlphanumeric line = some d →
    Recorded isAlphanumeric lines d ∨
      (bare d ≠ [] ∧ ∀ line' ∈ lines, ∀ e, exceptionRule isAlphanumeric line' = some e → bare e ≠ bare d)

variable (isAlphanumeric) in
/-- No name that is exempted on all sites is dots alone. -/
def AllowsNames (lines : List Text) : Prop :=
  ∀ line ∈ lines, ∀ e, allowRule isAlphanumeric line = some e → bare e ≠ []

variable (isAlphanumeric) in
/-- The names of the rules find room in the sets, in any order of the lines. -/
def FindRoom (lines : List Text) : Prop :=
  ∀ lines', lines'.Perm lines → Fits isAlphanumeric .adblock .block lines' ∧
    Fits isAlphanumeric .adblock .allow lines'

theorem allowedNames_eq {lines : List Text} (h : AllowsNames isAlphanumeric lines) :
    allowedNames isAlphanumeric lines = (lines.filterMap (allowRule isAlphanumeric)).map bare := by
  refine List.filter_eq_self.2 fun d hd => ?_
  obtain ⟨e, he, rfl⟩ := List.mem_map.1 hd
  obtain ⟨line, hline, hrule⟩ := List.mem_filterMap.1 he
  exact decide_eq_true (h line hline e hrule)

/-- Dots alone stay in the set of an allowlist, and leave an empty name. -/
theorem allowsNames_of_says (hA : AsciiAlphanumeric isAlphanumeric) {lines : List Text}
    (h : ∀ lines', lines'.Perm lines → Says isAlphanumeric lines lines') :
    AllowsNames isAlphanumeric lines := by
  intro line hline e hrule hbare
  -- the rule comes first in one order of the lines, and finds the set empty
  have hperm : (line :: lines.erase line).Perm lines := (List.perm_cons_erase hline).symm
  have hallowed := (h _ hperm).allowed
  have hname : e ∈ namesOf isAlphanumeric .adblock .allow line := by
    rw [namesOf_allow hA, hrule]
    exact List.mem_singleton_self e
  obtain ⟨hlower, hne, hlen⟩ := namesOf_spec hname
  have hchunk : 253 ≤ chunkBytes := by decide
  have hfirst : DomainSet.new.FindsRoom e.toBytes := fun _ _ => Or.inr (by decide)
  obtain ⟨hlayout, hone⟩ :=
    DomainSet.step_spec (.push e.toBytes) DomainSet.layout_new DomainSet.holds_new hfirst
  have hpushed : DomainSet.nameStep [] (.push e.toBytes) = [e.toBytes] := by
    show DomainSet.pushName [] e.toBytes (fun _ => true) = _
    rw [DomainSet.pushName_eq (Text.toBytes_ne_nil hne) (by omega), hlower, List.nil_append]
  rw [hpushed] at hone
  obtain ⟨rest, hrest⟩ := DomainSet.exists_holds_pushes
    (((lines.erase line).filterMap (allowRule isAlphanumeric)).map Text.toBytes) hlayout hone
  have hset : fedSet isAlphanumeric .adblock .allow (line :: lines.erase line) =
      ((((lines.erase line).filterMap (allowRule isAlphanumeric)).map Text.toBytes).map .push).foldl
        DomainSet.step (DomainSet.new.step (.push e.toBytes)) := by
    unfold fedSet
    rw [flatMap_pushesOf, namesIn_allow hA, List.filterMap_cons_some hrule]
    rfl
  rw [hset, hrest.iter_eq, List.singleton_append, List.map_cons, trimDots_toBytes] at hallowed
  have hmem : Text.toBytes (bare e) ∈
      (allowedNames isAlphanumeric (line :: lines.erase line)).map Text.toBytes := by
    rw [← hallowed]
    exact List.mem_cons_self
  obtain ⟨d, hd, heq⟩ := List.mem_map.1 hmem
  obtain rfl := Text.toBytes_injective heq
  exact of_decide_eq_true (List.mem_filter.1 hd).2 hbare

/-- **A list does what its rules say**, in any order of its lines, exactly if no name is blocked
and exempted in two spellings, no name is dots alone, and all find room. -/
theorem adblock_says_iff (isAlphanumeric : Char → Bool) (hA : AsciiAlphanumeric isAlphanumeric)
    (lines : List Text) :
    (∀ lines', lines'.Perm lines → Says isAlphanumeric lines lines') ↔
      SpelledAlike isAlphanumeric lines ∧ AllowsNames isAlphanumeric lines ∧
        FindRoom isAlphanumeric lines := by
  constructor
  · intro h
    have hallows := allowsNames_of_says hA h
    have hroom : FindRoom isAlphanumeric lines := by
      intro lines' hperm
      have hsays := h lines' hperm
      constructor
      · refine (length_fedSet_le .adblock .block lines').2 ?_
        have hcounts := hsays.counts
        have hle := length_finishedSet_le isAlphanumeric .block lines'
        rw [← hperm.countP_eq] at hcounts
        rw [namesIn_block hA, List.length_filterMap_eq_countP]
        omega
      · refine (length_fedSet_le .adblock .allow lines').2 ?_
        have hallows' : AllowsNames isAlphanumeric lines' :=
          fun line hline => hallows line (hperm.subset hline)
        have hlen := congrArg List.length hsays.allowed
        rw [List.length_map, List.length_map, allowedNames_eq hallows', List.length_map,
          DomainSet.iter, List.length_map] at hlen
        rw [namesIn_allow hA]
        exact hlen
    refine ⟨fun line hline d hrule => ?_, hallows, hroom⟩
    by_cases hrec : Recorded isAlphanumeric lines d
    · exact Or.inl hrec
    · have hkey := (mem_keys_iff hA (hroom lines (List.Perm.refl _)).1 _).2
        ⟨line, hline, d, hrule, hrec, rfl⟩
      obtain ⟨k, hblocked, hk⟩ := ((h lines (List.Perm.refl _)).keys _).1 hkey
      obtain rfl := Text.toBytes_injective hk
      exact Or.inr ⟨hblocked.1, fun line' hline' e he hbare => hblocked.2.2 ⟨line', hline', e, he, hbare⟩⟩
  · rintro ⟨hspelled, hallows, hroom⟩
    have hkeys : ∀ lines', lines'.Perm lines → ∀ key,
        key ∈ (finishedSet isAlphanumeric .adblock .block lines').prepareKeys.iter ↔
          ∃ d, Blocked isAlphanumeric lines d ∧ Text.toBytes d = key := by
      intro lines' hperm key
      rw [mem_keys_iff hA (hroom lines' hperm).1]
      constructor
      · rintro ⟨line, hline, d, hrule, hno, rfl⟩
        have hline' := hperm.subset hline
        obtain ⟨hne, hfree⟩ := (hspelled line hline' d hrule).resolve_left (mt (Recorded.perm hperm).2 hno)
        refine ⟨bare d, ⟨hne, ⟨line, hline', d, hrule, rfl⟩, ?_⟩, rfl⟩
        rintro ⟨l, hl, e, he, hbare⟩
        exact hfree l hl e he hbare
      · rintro ⟨_, ⟨hne, ⟨line, hline, d, hrule, rfl⟩, hfree⟩, rfl⟩
        refine ⟨line, hperm.symm.subset hline, d, hrule, fun hrec => hfree ?_, rfl⟩
        obtain ⟨l, hl, he⟩ := ((Recorded.perm hperm).1 hrec).exempted
        exact ⟨l, hl, d, he, rfl⟩
    intro lines' hperm
    obtain ⟨hblock, hallow⟩ := hroom lines' hperm
    refine ⟨hkeys lines' hperm, ?_, ?_, ?_⟩
    · have hsorted := fun lines' (hperm : lines'.Perm lines) =>
        (finishedSet_holds (hroom lines' hperm).1).2.prepareKeys.2.1
      refine List.Pairwise.eq_of_mem_iff (hsorted lines' hperm) (hsorted lines (List.Perm.refl _))
        fun key => ?_
      rw [hkeys lines' hperm, hkeys lines (List.Perm.refl _)]
    · have hlen := (fedSet_holds hblock).2.length_eq
      have hle := length_finishedSet_le isAlphanumeric .block lines'
      rw [List.length_map, namesIn_block hA, List.length_filterMap_eq_countP, hperm.countP_eq] at hlen
      omega
    · have hallows' : AllowsNames isAlphanumeric lines' :=
        fun line hline => hallows line (hperm.subset hline)
      rw [(fedSet_holds hallow).2.iter_eq, namesIn_allow hA, allowedNames_eq hallows', List.map_map,
        List.map_map]
      exact List.map_congr_left fun d _ => trimDots_toBytes d

/-! ### An exception with an option -/

/-- The option of the exception comes right behind the domain. -/
def optioned : List Text := ["||ads.com^".toList, "@@||ads.com$third-party".toList]

theorem adblock_says_iff_optioned :
    (∀ lines', lines'.Perm optioned → Says Char.isAlphanum optioned lines') ↔
      SpelledAlike Char.isAlphanum optioned ∧ AllowsNames Char.isAlphanum optioned ∧
        FindRoom Char.isAlphanum optioned :=
  adblock_says_iff Char.isAlphanum (fun _ _ => rfl) optioned

/-- The domain is exempted, and its key stays. -/
theorem optioned_exception_is_lost :
    ¬ ∀ lines', lines'.Perm optioned → Says Char.isAlphanum optioned lines' := by
  intro h
  have hkey : Text.toBytes "ads.com".toList ∈
      (finishedSet Char.isAlphanum .adblock .block optioned).prepareKeys.iter := by decide +kernel
  obtain ⟨d, hblocked, hd⟩ := ((h optioned (List.Perm.refl _)).keys _).1 hkey
  obtain rfl := Text.toBytes_injective hd
  exact hblocked.2.2 ⟨"@@||ads.com$third-party".toList, by decide +kernel, "ads.com".toList,
    by decide +kernel, by decide +kernel⟩

end Ferrite.Blocklist
