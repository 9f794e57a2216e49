import Mathlib.Data.List.TakeWhile
import Ferrite.Blocklist.DomainSet
import Ferrite.Blocklist.Parser

/-!
# The names of a list, line by line

What a list parser keeps comes from single lines: the first line of data tells the format, and
from then on each line adds its names to those of the lines before, whatever they were.  Only
the exceptions of an Adblock list reach over lines, when it is finished.

* `mem_parseContent_iff` — the names of a list are those of its lines, without the exceptions;
* `trimDots_toBytes` — trailing dots come off the bytes as they come off the text.
-/

namespace Ferrite.Blocklist

/-! ## Dots at the end of bytes -/

theorem trimDots_append_dot (b : Bytes) : trimDots (b ++ [46]) = trimDots b := by
  unfold trimDots
  rw [List.reverse_append, List.reverse_singleton, List.singleton_append,
    List.dropWhile_cons_of_pos (by rfl)]

theorem trimDots_append_of_ne {b : Bytes} {x : UInt8} (h : x ≠ 46) : trimDots (b ++ [x]) = b ++ [x] := by
  unfold trimDots
  rw [List.reverse_append, List.reverse_singleton, List.singleton_append,
    List.dropWhile_cons_of_neg (by simpa using h)]
  simp

/-- The dots at the end of a name are the bytes of dots at its end. -/
theorem trimDots_toBytes (d : Name) :
    trimDots d.toBytes = Text.toBytes (d.trimEndMatches (· == '.')) := by
  induction d using List.reverseRecOn with
  | nil => rfl
  | append_singleton d c ih =>
    have hone : Text.toBytes [c] = String.utf8EncodeChar c := by simp [Text.toBytes]
    rw [Text.toBytes_append, hone]
    unfold Text.trimEndMatches at ih ⊢
    rw [List.reverse_append, List.reverse_singleton, List.singleton_append]
    by_cases hdot : c = '.'
    · have henc : String.utf8EncodeChar c = [46] := by
        subst hdot
        decide
      rw [henc, trimDots_append_dot, ih, List.dropWhile_cons_of_pos (by simp [hdot])]
    · -- the last byte of another character is no dot
      have hne : String.utf8EncodeChar c ≠ [] := by
        rw [← hone]
        exact Text.toBytes_ne_nil (List.cons_ne_nil _ _)
      obtain ⟨init, last, henc⟩ := (List.eq_nil_or_concat' (String.utf8EncodeChar c)).resolve_left hne
      have hlast : last ≠ 46 := by
        rintro rfl
        have hmem : (46 : UInt8) ∈ String.utf8EncodeChar c := by
          rw [henc]
          exact List.mem_append_right _ List.mem_cons_self
        have hnat : c.toNat = 46 := Text.mem_utf8EncodeChar (by decide) hmem
        exact hdot (Char.toNat_inj.1 hnat)
      rw [henc, ← List.append_assoc, trimDots_append_of_ne hlast, List.append_assoc, ← henc, ← hone,
        ← Text.toBytes_append, List.dropWhile_cons_of_neg (by simpa using hdot), List.reverse_cons,
        List.reverse_reverse]

/-! ## One line -/

/-- A loop whose step appends to what there was appends to what there was. -/
theorem foldl_append_of {α β : Type} {f : List α → β → List α} (h : ∀ xs b, f xs b = xs ++ f [] b)
    (xs : List α) (bs : List β) : bs.foldl f xs = xs ++ bs.foldl f [] := by
  induction bs generalizing xs with
  | nil => simp
  | cons b bs ih => rw [List.foldl_cons, List.foldl_cons, ih, h xs, ih (f [] b), List.append_assoc]

/-- A candidate is appended to what there was, or not. -/
theorem pushLowercaseIf_append (domains : List Name) (domain : Text) (accept : Name → Bool) :
    pushLowercaseIf domains domain accept = domains ++ pushLowercaseIf [] domain accept := by
  unfold pushLowercaseIf
  split
  · simp
  · split <;> simp

variable (isAlphanumeric : Char → Bool)

theorem feedHosts_append (domains : List Name) (line : Text) :
    feedHosts isAlphanumeric domains line = domains ++ feedHosts isAlphanumeric [] line := by
  unfold feedHosts
  split
  · simp
  · split
    · simp
    · exact foldl_append_of (fun xs b => pushLowercaseIf_append xs b _) _ _

theorem feedPlain_append (domains : List Name) (line : Text) :
    feedPlain isAlphanumeric domains line = domains ++ feedPlain isAlphanumeric [] line := by
  unfold feedPlain
  dsimp only
  split
  · simp
  · exact pushLowercaseIf_append _ _ _

theorem AdblockParser.feed_append (p : AdblockParser) (line : Text) :
    (p.feed isAlphanumeric line).domains =
        p.domains ++ (AdblockParser.empty.feed isAlphanumeric line).domains ∧
      (p.feed isAlphanumeric line).exceptions =
        p.exceptions ∪ (AdblockParser.empty.feed isAlphanumeric line).exceptions := by
  unfold AdblockParser.feed
  dsimp only
  split
  · simp [AdblockParser.empty]
  split
  · split
    · refine ⟨by simp [AdblockParser.empty], ?_⟩
      rw [AdblockParser.empty, Finset.insert_empty, Finset.union_singleton]
    · simp [AdblockParser.empty]
  split
  · split
    · simp [AdblockParser.empty]
    split
    · rename_i domain _
      have hpush := pushLowercaseIf_append p.domains domain fun _ => true
      exact ⟨hpush, by simp [AdblockParser.empty]⟩
    · simp [AdblockParser.empty]
  · split
    · split <;> simp [AdblockParser.empty]
    · simp [AdblockParser.empty]

theorem AdblockExceptionsParser.feed_append (p : AdblockExceptionsParser) (line : Text) :
    (p.feed isAlphanumeric line).domains =
      p.domains ++ (AdblockExceptionsParser.empty.feed isAlphanumeric line).domains := by
  unfold AdblockExceptionsParser.feed
  dsimp only
  split
  · simp [AdblockExceptionsParser.empty]
  split
  · split
    · simp [AdblockExceptionsParser.empty]
    split
    · rename_i domain _
      have hpush := pushLowercaseIf_append p.domains domain fun _ => true
      exact hpush
    · simp [AdblockExceptionsParser.empty]
  · split
    · split <;> simp [AdblockExceptionsParser.empty]
    · simp [AdblockExceptionsParser.empty]

/-! ## All lines -/

namespace ParserState

/-- The format and the polarity that the parser is for. -/
def For : ParserState → Format → ListPolarity → Prop
  | .hosts _, format, _ => format = .hosts
  | .plain _, format, _ => format = .plain
  | .adblock _, format, polarity => format = .adblock ∧ polarity = .block
  | .adblockAllow _, format, polarity => format = .adblock ∧ polarity = .allow
  | .detecting _ _, _, _ => False

/-- The exceptions collected so far. -/
def exceptions : ParserState → Finset Name
  | .adblock p => p.exceptions
  | _ => ∅

end ParserState

/-- The names that a line gives the parser of a format, on its own. -/
def namesOf (format : Format) (polarity : ListPolarity) (line : Text) : List Name :=
  ((ParserState.ofFormat format polarity).feedChosen isAlphanumeric line).domains

/-- The names that it exempts from the blocks of its list. -/
def exceptionsOf (format : Format) (polarity : ListPolarity) (line : Text) : Finset Name :=
  ((ParserState.ofFormat format polarity).feedChosen isAlphanumeric line).exceptions

/-- The names of all lines, in their order. -/
def namesIn (format : Format) (polarity : ListPolarity) (lines : List Text) : List Name :=
  lines.flatMap (namesOf isAlphanumeric format polarity)

/-- The names that some line exempts. -/
def exceptionsIn (format : Format) (polarity : ListPolarity) (lines : List Text) (d : Name) : Bool :=
  lines.any fun line => decide (d ∈ exceptionsOf isAlphanumeric format polarity line)

variable {isAlphanumeric} {state : ParserState} {format : Format} {polarity : ListPolarity}

theorem for_ofFormat (format : Format) (polarity : ListPolarity) :
    (ParserState.ofFormat format polarity).For format polarity ∧
      (ParserState.ofFormat format polarity).domains = [] ∧
      (ParserState.ofFormat format polarity).exceptions = ∅ := by
  cases format <;> cases polarity <;> simp [ParserState.ofFormat, ParserState.For,
    ParserState.domains, ParserState.exceptions, AdblockParser.empty, AdblockExceptionsParser.empty]

/-- A chosen parser stays what it is, and adds the line's names and exceptions to its own. -/
theorem feedChosen_append (h : state.For format polarity) (line : Text) :
    (state.feedChosen isAlphanumeric line).For format polarity ∧
      (state.feedChosen isAlphanumeric line).domains =
        state.domains ++ namesOf isAlphanumeric format polarity line ∧
      (state.feedChosen isAlphanumeric line).exceptions =
        state.exceptions ∪ exceptionsOf isAlphanumeric format polarity line := by
  cases state with
  | detecting header bytes => exact h.elim
  | hosts domains =>
    obtain rfl : format = .hosts := h
    exact ⟨rfl, feedHosts_append _ _ _, (Finset.union_empty _).symm⟩
  | plain domains =>
    obtain rfl : format = .plain := h
    exact ⟨rfl, feedPlain_append _ _ _, (Finset.union_empty _).symm⟩
  | adblock p =>
    obtain ⟨rfl, rfl⟩ : format = .adblock ∧ polarity = .block := h
    obtain ⟨hdomains, hexceptions⟩ := p.feed_append isAlphanumeric line
    exact ⟨⟨rfl, rfl⟩, hdomains, hexceptions⟩
  | adblockAllow p =>
    obtain ⟨rfl, rfl⟩ : format = .adblock ∧ polarity = .allow := h
    exact ⟨⟨rfl, rfl⟩, p.feed_append isAlphanumeric line, (Finset.union_empty _).symm⟩

variable (isAlphanumeric) in
theorem foldl_feedChosen (h : state.For format polarity) (lines : List Text) :
    let last := lines.foldl (ParserState.feedChosen isAlphanumeric) state
    last.For format polarity ∧
      last.domains = state.domains ++ lines.flatMap (namesOf isAlphanumeric format polarity) ∧
      ∀ d, d ∈ last.exceptions ↔
        d ∈ state.exceptions ∨ ∃ line ∈ lines, d ∈ exceptionsOf isAlphanumeric format polarity line := by
  induction lines generalizing state with
  | nil => exact ⟨h, by simp, by simp⟩
  | cons line lines ih =>
    obtain ⟨hfor, hdomains, hexceptions⟩ := feedChosen_append h line
    obtain ⟨hfor', hdomains', hexceptions'⟩ := ih hfor
    refine ⟨hfor', ?_, fun d => ?_⟩
    · rw [List.foldl_cons, hdomains', hdomains, List.flatMap_cons, List.append_assoc]
    · rw [List.foldl_cons, hexceptions', hexceptions, Finset.mem_union, List.exists_mem_cons_iff]
      exact or_assoc

/-- A chosen parser gives its names without the exceptions. -/
theorem finish_eq (h : state.For format polarity) :
    state.finish.1 = state.domains.filter fun d => decide (d ∉ state.exceptions) := by
  cases state with
  | detecting header bytes => exact h.elim
  | hosts domains => simp [ParserState.finish, ParserState.domains, ParserState.exceptions]
  | plain domains => simp [ParserState.finish, ParserState.domains, ParserState.exceptions]
  | adblock p => rfl
  | adblockAllow p => simp [ParserState.finish, ParserState.domains, ParserState.exceptions,
      AdblockExceptionsParser.finish]

/-- The format of a list: that of the first line that shows one, or plain once a megabyte of
lines has shown none. -/
def formatOf : (bytes : ℕ) → List Text → Option Format
  | _, [] => none
  | bytes, line :: lines =>
    match detectFormat line with
    | some format => some format
    | none =>
      if maxHeaderBytes < bytes + line.byteLen + 1 then some .plain
      else formatOf (bytes + line.byteLen + 1) lines

theorem foldl_feed_chosen (h : state.For format polarity) (lines : List Text) :
    lines.foldl (ParserState.feed isAlphanumeric polarity) state =
      lines.foldl (ParserState.feedChosen isAlphanumeric) state := by
  induction lines generalizing state with
  | nil => rfl
  | cons line lines ih =>
    have hstep : state.feed isAlphanumeric polarity line = state.feedChosen isAlphanumeric line := by
      cases state with
      | detecting header bytes => exact h.elim
      | hosts domains => rfl
      | plain domains => rfl
      | adblock p => rfl
      | adblockAllow p => rfl
    rw [List.foldl_cons, List.foldl_cons, hstep]
    exact ih (feedChosen_append h line).1

/-- The lines before the format was known are not lost. -/
theorem foldl_feed_of_some {bytes : ℕ} {lines : List Text} (header : List Text)
    (h : formatOf bytes lines = some format) :
    lines.foldl (ParserState.feed isAlphanumeric polarity) (.detecting header bytes) =
      (header ++ lines).foldl (ParserState.feedChosen isAlphanumeric)
        (ParserState.ofFormat format polarity) := by
  induction lines generalizing header bytes with
  | nil => cases h
  | cons line lines ih =>
    -- once the parser is chosen the header is in it, and the other lines follow
    have hswitch : ∀ format : Format,
        lines.foldl (ParserState.feed isAlphanumeric polarity)
            (ParserState.switchTo isAlphanumeric polarity (header ++ [line]) format) =
          (header ++ line :: lines).foldl (ParserState.feedChosen isAlphanumeric)
            (ParserState.ofFormat format polarity) := by
      intro format
      have hfor : (ParserState.switchTo isAlphanumeric polarity (header ++ [line]) format).For
          format polarity := (foldl_feedChosen isAlphanumeric (for_ofFormat format polarity).1 _).1
      rw [foldl_feed_chosen hfor, ParserState.switchTo, ← List.foldl_append, List.append_assoc,
        List.singleton_append]
    rw [List.foldl_cons, ParserState.feed]
    rw [formatOf] at h
    cases hdetect : detectFormat line with
    | some format' =>
      rw [hdetect] at h
      obtain rfl : format' = format := Option.some.inj h
      exact hswitch format'
    | none =>
      rw [hdetect] at h
      dsimp only at h ⊢
      by_cases hmax : maxHeaderBytes < bytes + line.byteLen + 1
      · rw [if_pos hmax] at h ⊢
        obtain rfl := Option.some.inj h
        exact hswitch .plain
      · rw [if_neg hmax] at h ⊢
        rw [ih _ h, List.append_assoc, List.singleton_append]

/-- A list whose format stays unknown gives nothing. -/
theorem foldl_feed_of_none {bytes : ℕ} {lines : List Text} (header : List Text)
    (h : formatOf bytes lines = none) :
    (lines.foldl (ParserState.feed isAlphanumeric polarity) (.detecting header bytes)).finish =
      ([], none) := by
  induction lines generalizing header bytes with
  | nil => rfl
  | cons line lines ih =>
    rw [List.foldl_cons, ParserState.feed]
    rw [formatOf] at h
    cases hdetect : detectFormat line with
    | some format =>
      rw [hdetect] at h
      cases h
    | none =>
      rw [hdetect] at h
      dsimp only at h ⊢
      by_cases hmax : maxHeaderBytes < bytes + line.byteLen + 1
      · rw [if_pos hmax] at h
        cases h
      · rw [if_neg hmax] at h ⊢
        exact ih _ h

/-- **What a list gives**: the names of its lines, without the exceptions of its lines. -/
theorem parseContent_of_some {content : Text} (h : formatOf 0 content.lines = some format) :
    (parseContent isAlphanumeric content polarity).1 =
      (namesIn isAlphanumeric format polarity content.lines).filter fun d =>
        !exceptionsIn isAlphanumeric format polarity content.lines d := by
  obtain ⟨hstart, hnone, hnone'⟩ := for_ofFormat format polarity
  obtain ⟨hfor, hdomains, hexceptions⟩ := foldl_feedChosen isAlphanumeric hstart content.lines
  unfold parseContent
  rw [foldl_feed_of_some [] h, List.nil_append, finish_eq hfor, hdomains, hnone, List.nil_append]
  refine List.filter_congr fun d _ => ?_
  rw [hnone'] at hexceptions
  rw [Bool.eq_iff_iff, decide_eq_true_eq, hexceptions]
  simp [exceptionsIn]

theorem parseContent_of_none {content : Text} (h : formatOf 0 content.lines = none) :
    (parseContent isAlphanumeric content polarity).1 = [] := by
  unfold parseContent
  rw [foldl_feed_of_none [] h]

theorem mem_parseContent_iff (content : Text) (d : Name) :
    d ∈ (parseContent isAlphanumeric content polarity).1 ↔
      ∃ format, formatOf 0 content.lines = some format ∧
        (∃ line ∈ content.lines, d ∈ namesOf isAlphanumeric format polarity line) ∧
        ∀ line ∈ content.lines, d ∉ exceptionsOf isAlphanumeric format polarity line := by
  cases hformat : formatOf 0 content.lines with
  | none =>
    rw [parseContent_of_none hformat]
    simp
  | some format =>
    rw [parseContent_of_some hformat]
    simp [namesIn, exceptionsIn]

/-! ## The text of a name -/

/-- The domain of a rule as it is written: what precedes the first `^`. -/
def ruleHead (body : Text) : Text := Text.trim (body.takeWhile (· ≠ '^'))

/-- How the rules start that a list of the polarity is made of. -/
def ruleSign : ListPolarity → Text
  | .block => "||".toList
  | .allow => "@@||".toList

/-- What a rule names whose options do not scope it. -/
def scopedHead (rest : Text) : List Text :=
  if (ruleParts rest).2 then [] else [ruleHead (ruleParts rest).1]

/-- What a line offers as names: the words behind an address that blocks, the line before its
comment, the domain of a rule. -/
def candidates : Format → ListPolarity → Text → List Text
  | .hosts, _, line =>
    match (beforeHash line).trim.splitWhitespace with
    | [] => []
    | ip :: parts => if ip ∈ sinkholes then parts else []
  | .plain, _, line => if isAdblockSyntax line.trim then [] else [(beforeHash line.trim).trim]
  | .adblock, polarity, line => (line.trim.stripPrefix (ruleSign polarity)).elim [] scopedHead

/-- What a line offers as an exception.  Its options are not cut off. -/
def exempted (line : Text) : List Text :=
  (line.trim.stripPrefix "@@||".toList).elim [] fun rest => [ruleHead rest]

variable (isAlphanumeric) in
/-- A candidate is taken as the name it is in lower case. -/
def Taken (format : Format) (t : Text) (d : Name) : Prop :=
  t.toAsciiLowercase = d ∧ isValidDomain isAlphanumeric d = true ∧
    (format = .hosts → d ∉ localhostAliases) ∧ (format = .adblock → '/' ∉ t)

theorem isValidDomain_ne_nil {d : Name} (h : isValidDomain isAlphanumeric d = true) : d ≠ [] := by
  rintro rfl
  cases h

theorem isValidDomain_byteLen {d : Name} (h : isValidDomain isAlphanumeric d = true) :
    d.byteLen ≤ 253 := by
  unfold isValidDomain at h
  by_contra hlong
  rw [if_pos (Or.inr (not_le.1 hlong))] at h
  cases h

/-- A character that no name has is not in a text that is one in lower case. -/
theorem notMem_of_isValidDomain (hA : AsciiAlphanumeric isAlphanumeric) {t : Text} {c : Char}
    (hc : c.toNat < 128) (hsign : (c.isAlphanum || c == '-' || c == '.' || c == '_') = false)
    (hsame : asciiLower c = c) (h : isValidDomain isAlphanumeric t.toAsciiLowercase = true) : c ∉ t := by
  intro hmem
  have hlower : c ∈ t.toAsciiLowercase := by
    rw [← hsame]
    exact List.mem_map_of_mem hmem
  have hall : (t.toAsciiLowercase.all fun c =>
      isAlphanumeric c || c == '-' || c == '.' || c == '_') = true := by
    unfold isValidDomain at h
    split at h
    · cases h
    · split at h
      · cases h
      · exact h
  have hgood := List.all_eq_true.1 hall c hlower
  rw [hA c hc, hsign] at hgood
  cases hgood

theorem mem_pushLowercaseIf {domains : List Name} {t : Text} {accept : Name → Bool} {d : Name} :
    d ∈ pushLowercaseIf domains t accept ↔
      d ∈ domains ∨ (t ≠ [] ∧ accept t.toAsciiLowercase = true ∧ t.toAsciiLowercase = d) := by
  unfold pushLowercaseIf
  by_cases ht : t = []
  · simp [ht]
  · by_cases hacc : accept t.toAsciiLowercase = true
    · simp [ht, hacc, eq_comm]
    · simp [ht, hacc]

theorem mem_foldl_pushLowercaseIf {domains : List Name} {parts : List Text} {accept : Name → Bool}
    {d : Name} :
    d ∈ parts.foldl (fun domains t => pushLowercaseIf domains t accept) domains ↔
      d ∈ domains ∨ ∃ t ∈ parts, t ≠ [] ∧ accept t.toAsciiLowercase = true ∧ t.toAsciiLowercase = d := by
  induction parts generalizing domains with
  | nil => simp
  | cons t parts ih =>
    rw [List.foldl_cons, ih, mem_pushLowercaseIf, or_assoc, List.exists_mem_cons_iff]

theorem adblockRuleDomain_eq_some {body : Text} {d : Name} :
    adblockRuleDomain isAlphanumeric body = some d ↔
      Taken isAlphanumeric .adblock (ruleHead body) d := by
  unfold adblockRuleDomain Taken
  show (if (ruleHead body).contains '/' then none
    else if (ruleHead body).toAsciiLowercase ≠ [] ∧
        isValidDomain isAlphanumeric (ruleHead body).toAsciiLowercase = true then
      some (ruleHead body).toAsciiLowercase
    else none) = some d ↔ _
  by_cases hslash : '/' ∈ ruleHead body
  · rw [if_pos (List.contains_iff_mem.2 hslash)]
    exact iff_of_false nofun fun h => h.2.2.2 rfl hslash
  · rw [if_neg (mt List.contains_iff_mem.1 hslash)]
    split
    · rename_i hvalid
      constructor
      · intro h
        obtain rfl := Option.some.inj h
        exact ⟨rfl, hvalid.2, nofun, fun _ => hslash⟩
      · intro h
        rw [h.1]
    · rename_i hvalid
      refine iff_of_false nofun fun h => hvalid ?_
      rw [h.1]
      exact ⟨isValidDomain_ne_nil h.2.1, h.2.1⟩

theorem stripPrefix_eq_some {s pat rest : Text} : s.stripPrefix pat = some rest ↔ s = pat ++ rest := by
  unfold Text.stripPrefix
  rw [Option.ite_none_right_eq_some, List.isPrefixOf_iff_prefix]
  constructor
  · rintro ⟨⟨t, rfl⟩, h⟩
    rw [← Option.some.inj h, List.drop_left]
  · rintro rfl
    exact ⟨List.prefix_append _ _, by rw [List.drop_left]⟩

/-- A rule is neither blank nor a comment, and a rule of one kind is none of the other. -/
theorem rule_kinds {line rest : Text} (h : line = "||".toList ++ rest) :
    isAdblockComment line = false ∧ line.stripPrefix "@@||".toList = none := by
  subst h
  exact ⟨rfl, rfl⟩

theorem exception_kinds {line rest : Text} (h : line = "@@||".toList ++ rest) :
    isAdblockComment line = false := by
  subst h
  rfl

variable (isAlphanumeric) in
/-- The domain that a rule without a scope gives its list. -/
def ruleDomains (rest : Text) : List Name :=
  if (ruleParts rest).2 then [] else (adblockRuleDomain isAlphanumeric (ruleParts rest).1).toList

theorem pushLowercaseIf_domain {body : Text} {e : Name}
    (he : adblockRuleDomain isAlphanumeric body = some e) :
    pushLowercaseIf [] e (fun _ => true) = [e] := by
  obtain ⟨hlower, hvalid, -, -⟩ := adblockRuleDomain_eq_some.1 he
  unfold pushLowercaseIf
  rw [if_neg (isValidDomain_ne_nil hvalid), if_pos rfl, ← hlower,
    Text.toAsciiLowercase_toAsciiLowercase, List.nil_append]

/-- A line of an Adblock list gives the domain of its rule, if it is one of the list's. -/
theorem namesOf_adblock (polarity : ListPolarity) (line : Text) :
    namesOf isAlphanumeric .adblock polarity line =
      (line.trim.stripPrefix (ruleSign polarity)).elim [] (ruleDomains isAlphanumeric) := by
  cases polarity with
  | block =>
    show (AdblockParser.empty.feed isAlphanumeric line).domains =
      (line.trim.stripPrefix "||".toList).elim [] _
    unfold AdblockParser.feed
    dsimp only
    cases hrule : line.trim.stripPrefix "||".toList with
    | some rest =>
      obtain ⟨hcomment, hexception⟩ := rule_kinds (stripPrefix_eq_some.1 hrule)
      rw [hcomment, hexception, Option.elim_some, ruleDomains]
      dsimp only [Bool.false_eq_true, if_false]
      by_cases hscoped : (ruleParts rest).2 = true
      · rw [if_pos hscoped, if_pos hscoped]
        rfl
      · rw [if_neg hscoped, if_neg hscoped]
        cases hdomain : adblockRuleDomain isAlphanumeric (ruleParts rest).1 with
        | none => rfl
        | some e => exact pushLowercaseIf_domain hdomain
    | none =>
      rw [Option.elim_none]
      dsimp only
      split
      · rfl
      split
      · split <;> rfl
      · split
        · split <;> rfl
        · rfl
  | allow =>
    show (AdblockExceptionsParser.empty.feed isAlphanumeric line).domains =
      (line.trim.stripPrefix "@@||".toList).elim [] _
    unfold AdblockExceptionsParser.feed
    dsimp only
    cases hrule : line.trim.stripPrefix "@@||".toList with
    | some rest =>
      have hcomment := exception_kinds (stripPrefix_eq_some.1 hrule)
      rw [hcomment, Option.elim_some, ruleDomains]
      dsimp only [Bool.false_eq_true, if_false]
      by_cases hscoped : (ruleParts rest).2 = true
      · rw [if_pos hscoped, if_pos hscoped]
        rfl
      · rw [if_neg hscoped, if_neg hscoped]
        cases hdomain : adblockRuleDomain isAlphanumeric (ruleParts rest).1 with
        | none => rfl
        | some e => exact pushLowercaseIf_domain hdomain
    | none =>
      rw [Option.elim_none]
      dsimp only
      split
      · rfl
      · split
        · split <;> rfl
        · rfl

theorem mem_ruleDomains {rest : Text} {d : Name} :
    d ∈ ruleDomains isAlphanumeric rest ↔
      ∃ t ∈ scopedHead rest, Taken isAlphanumeric .adblock t d := by
  unfold ruleDomains scopedHead
  by_cases hscoped : (ruleParts rest).2 = true
  · rw [if_pos hscoped, if_pos hscoped]
    simp
  · rw [if_neg hscoped, if_neg hscoped, Option.mem_toList,
      adblockRuleDomain_eq_some]
    simp

/-- The test of a candidate. -/
def accepts (isAlphanumeric : Char → Bool) : Format → Name → Bool
  | .hosts, d => decide (d ∉ localhostAliases) && isValidDomain isAlphanumeric d
  | _, d => isValidDomain isAlphanumeric d

theorem accepts_iff (format : Format) (d : Name) :
    accepts isAlphanumeric format d = true ↔
      isValidDomain isAlphanumeric d = true ∧ (format = .hosts → d ∉ localhostAliases) := by
  cases format <;> simp [accepts, and_comm]

/-- Outside Adblock lists a line's candidates are pushed one after the other. -/
theorem namesOf_eq_foldl (hformat : format ≠ .adblock) (line : Text) :
    namesOf isAlphanumeric format polarity line =
      (candidates format polarity line).foldl
        (fun domains t => pushLowercaseIf domains t (accepts isAlphanumeric format)) [] := by
  cases format with
  | hosts =>
    show feedHosts isAlphanumeric [] line = _
    unfold feedHosts candidates
    cases hsplit : (beforeHash line).trim.splitWhitespace with
    | nil => simp [hsplit]
    | cons ip parts =>
      simp only [hsplit]
      by_cases hip : ip ∈ sinkholes
      · rw [if_neg (not_not.2 hip), if_pos hip]
        rfl
      · rw [if_pos hip, if_neg hip]
        rfl
  | plain =>
    show feedPlain isAlphanumeric [] line = _
    unfold feedPlain candidates
    dsimp only
    by_cases hsyntax : isAdblockSyntax line.trim = true
    · rw [if_pos (Or.inr hsyntax), if_pos hsyntax]
      rfl
    · rw [if_neg hsyntax]
      by_cases hblank : line.trim = []
      · rw [if_pos (Or.inl hblank), hblank]
        rfl
      · rw [if_neg (not_or.2 ⟨hblank, hsyntax⟩)]
        rfl
  | adblock => exact absurd rfl hformat

/-- **The names of a line** are its candidates that are valid names. -/
theorem mem_namesOf_iff (format : Format) (polarity : ListPolarity) (line : Text) (d : Name) :
    d ∈ namesOf isAlphanumeric format polarity line ↔
      ∃ t ∈ candidates format polarity line, Taken isAlphanumeric format t d := by
  by_cases hformat : format = .adblock
  · subst hformat
    rw [namesOf_adblock]
    show _ ↔ ∃ t ∈ (line.trim.stripPrefix (ruleSign polarity)).elim [] scopedHead, _
    cases line.trim.stripPrefix (ruleSign polarity) with
    | none => simp
    | some rest => exact mem_ruleDomains
  · rw [namesOf_eq_foldl hformat, mem_foldl_pushLowercaseIf]
    unfold Taken
    constructor
    · rintro (h | ⟨t, ht, -, hacc, rfl⟩)
      · cases h
      · obtain ⟨hvalid, halias⟩ := (accepts_iff ..).1 hacc
        exact ⟨t, ht, rfl, hvalid, halias, fun h => absurd h hformat⟩
    · rintro ⟨t, ht, rfl, hvalid, halias, -⟩
      refine Or.inr ⟨t, ht, ?_, (accepts_iff ..).2 ⟨hvalid, halias⟩, rfl⟩
      rintro rfl
      exact isValidDomain_ne_nil hvalid rfl

/-- The exceptions of a line are those it offers that are valid names. -/
theorem mem_exceptionsOf_iff (format : Format) (polarity : ListPolarity) (line : Text) (d : Name) :
    d ∈ exceptionsOf isAlphanumeric format polarity line ↔
      (format = .adblock ∧ polarity = .block) ∧
        ∃ t ∈ exempted line, Taken isAlphanumeric .adblock t d := by
  have hnone : ∀ state : ParserState, state.For format polarity → ¬ (format = .adblock ∧ polarity = .block) →
      state.exceptions = ∅ := by
    intro state hfor hno
    cases state with
    | adblock p => exact absurd hfor hno
    | _ => rfl
  by_cases hblock : format = .adblock ∧ polarity = .block
  · obtain ⟨rfl, rfl⟩ := hblock
    rw [and_iff_right ⟨rfl, rfl⟩]
    show d ∈ (AdblockParser.empty.feed isAlphanumeric line).exceptions ↔ _
    unfold AdblockParser.feed exempted
    dsimp only
    cases hrule : line.trim.stripPrefix "@@||".toList with
    | some rest =>
      rw [exception_kinds (stripPrefix_eq_some.1 hrule), Option.elim_some]
      dsimp only [Bool.false_eq_true, if_false]
      simp only [List.mem_singleton, exists_eq_left, ← adblockRuleDomain_eq_some]
      cases adblockRuleDomain isAlphanumeric rest with
      | none => simp [AdblockParser.empty]
      | some e => simp [AdblockParser.empty, eq_comm]
    | none =>
      rw [Option.elim_none]
      refine iff_of_false ?_ (by simp)
      dsimp only
      split
      · exact Finset.notMem_empty d
      split
      · split
        · exact Finset.notMem_empty d
        · split <;> exact Finset.notMem_empty d
      · split
        · split <;> exact Finset.notMem_empty d
        · exact Finset.notMem_empty d
  · unfold exceptionsOf
    rw [hnone _ (feedChosen_append (for_ofFormat format polarity).1 line).1 hblock]
    exact iff_of_false (Finset.notMem_empty d) fun h => hblock h.1

/-! ## Names of dots -/

/-- A test of text, on its bytes. -/
def onText (p : Name → Bool) (b : Bytes) : Bool := (fromUtf8 b).any p

@[simp] theorem onText_toBytes (p : Name → Bool) (t : Name) : onText p t.toBytes = p t := by
  rw [onText, Text.fromUtf8_toBytes, Option.any_some]

variable (isAlphanumeric) in
/-- What a line has its parser do to the set. -/
def pushesOf : Format → ListPolarity → Text → List DomainSet.Op
  | .adblock, polarity, line =>
    (namesOf isAlphanumeric .adblock polarity line).map fun d => .push d.toBytes
  | format, polarity, line =>
    (candidates format polarity line).map fun t =>
      .pushLowercaseIf t.toBytes (onText (accepts isAlphanumeric format))

variable (isAlphanumeric) in
/-- The set of a parser that has been fed the lines. -/
def fedSet (format : Format) (polarity : ListPolarity) (lines : List Text) : DomainSet :=
  (lines.flatMap (pushesOf isAlphanumeric format polarity)).foldl DomainSet.step .new

variable (isAlphanumeric) in
/-- The set that its `finish` gives: the exceptions of an Adblock list are removed. -/
def finishedSet (format : Format) (polarity : ListPolarity) (lines : List Text) : DomainSet :=
  (fedSet isAlphanumeric format polarity lines).retain
    (onText fun d => !exceptionsIn isAlphanumeric format polarity lines d)

variable (isAlphanumeric) in
/-- The set that `ListParser` gives for the lines of a list. -/
def listSet (polarity : ListPolarity) (lines : List Text) : DomainSet :=
  match formatOf 0 lines with
  | none => .new
  | some format => finishedSet isAlphanumeric format polarity lines

variable (isAlphanumeric) in
/-- No push of the parser finds the set full. -/
def Fits (format : Format) (polarity : ListPolarity) (lines : List Text) : Prop :=
  DomainSet.new.NeverFull (lines.flatMap (pushesOf isAlphanumeric format polarity))

/-- A candidate pushed into the set is one pushed into the list. -/
theorem pushName_toBytes (names : List Name) (t : Text) {p : Name → Bool}
    (hp : ∀ d, p d = true → isValidDomain isAlphanumeric d = true) :
    DomainSet.pushName (names.map Text.toBytes) t.toBytes (onText p) =
      (pushLowercaseIf names t p).map Text.toBytes := by
  have hlower : t.toBytes.map asciiLowerByte = t.toAsciiLowercase.toBytes := map_asciiLowerByte_toBytes t
  unfold DomainSet.pushName pushLowercaseIf
  rw [hlower, onText_toBytes]
  by_cases ht : t = []
  · subst ht
    rfl
  · rw [if_neg ht]
    by_cases hacc : p t.toAsciiLowercase = true
    · have hlen : t.toBytes.length ≤ chunkBytes := by
        have hvalid := hp _ hacc
        have hsame : t.toBytes.length = t.toAsciiLowercase.byteLen := by
          rw [← length_toBytes, ← hlower, List.length_map]
        have hshort := isValidDomain_byteLen hvalid
        have hchunk : 253 ≤ chunkBytes := by decide
        omega
      rw [if_pos ⟨Text.toBytes_ne_nil ht, hlen, hacc⟩, if_pos hacc, List.map_append, List.map_singleton]
    · rw [if_neg fun h => hacc h.2.2, if_neg hacc]

/-- The names of a line are in lower case and short. -/
theorem namesOf_spec {line : Text} {d : Name}
    (hd : d ∈ namesOf isAlphanumeric format polarity line) :
    d.toBytes.map asciiLowerByte = d.toBytes ∧ d ≠ [] ∧ d.toBytes.length ≤ 253 := by
  obtain ⟨t, -, hlower, hvalid, -⟩ := (mem_namesOf_iff format polarity line d).1 hd
  refine ⟨?_, isValidDomain_ne_nil hvalid, ?_⟩
  · rw [map_asciiLowerByte_toBytes, ← hlower, Text.toAsciiLowercase_toAsciiLowercase]
  · rw [length_toBytes]
    exact isValidDomain_byteLen hvalid

/-- An Adblock parser pushes the names of the lines. -/
theorem flatMap_pushesOf (polarity : ListPolarity) (lines : List Text) :
    lines.flatMap (pushesOf isAlphanumeric .adblock polarity) =
      ((namesIn isAlphanumeric .adblock polarity lines).map Text.toBytes).map .push := by
  unfold namesIn
  rw [List.map_map, List.map_flatMap]
  rfl

/-- A parser removes nothing while it is fed. -/
theorem pushes_pushesOf {line : Text} {op : DomainSet.Op}
    (hop : op ∈ pushesOf isAlphanumeric format polarity line) : op.pushes = true := by
  cases format <;> obtain ⟨x, -, rfl⟩ := List.mem_map.1 hop <;> rfl

/-- What a line does to the set it does to the list of names. -/
theorem foldl_pushesOf (line : Text) (names : List Name) :
    (pushesOf isAlphanumeric format polarity line).foldl DomainSet.nameStep
        (names.map Text.toBytes) =
      (names ++ namesOf isAlphanumeric format polarity line).map Text.toBytes := by
  by_cases hformat : format = .adblock
  · subst hformat
    have hpushes : pushesOf isAlphanumeric .adblock polarity line =
        ((namesOf isAlphanumeric .adblock polarity line).map Text.toBytes).map .push := by
      rw [List.map_map]
      rfl
    have hsized : DomainSet.Sized ((namesOf isAlphanumeric .adblock polarity line).map Text.toBytes) := by
      intro b hb
      obtain ⟨d, hd, rfl⟩ := List.mem_map.1 hb
      obtain ⟨-, hne, hlen⟩ := namesOf_spec hd
      have hchunk : 253 ≤ chunkBytes := by decide
      exact ⟨Text.toBytes_ne_nil hne, by omega⟩
    rw [hpushes, DomainSet.foldl_nameStep_push hsized, List.map_append, List.map_map]
    congr 1
    exact List.map_congr_left fun d hd => (namesOf_spec hd).1
  · have hpushes : pushesOf isAlphanumeric format polarity line =
        (candidates format polarity line).map fun t =>
          .pushLowercaseIf t.toBytes (onText (accepts isAlphanumeric format)) := by
      cases format with
      | adblock => exact absurd rfl hformat
      | hosts => rfl
      | plain => rfl
    have hfold : ∀ names : List Name, names ++ namesOf isAlphanumeric format polarity line =
        (candidates format polarity line).foldl
          (fun domains t => pushLowercaseIf domains t (accepts isAlphanumeric format)) names := by
      intro names
      rw [namesOf_eq_foldl hformat]
      exact (foldl_append_of (fun xs t => pushLowercaseIf_append xs t _) names _).symm
    have hvalid : ∀ d, accepts isAlphanumeric format d = true →
        isValidDomain isAlphanumeric d = true := fun d hd => ((accepts_iff format d).1 hd).1
    rw [hfold, hpushes]
    induction candidates format polarity line generalizing names with
    | nil => rfl
    | cons t ts ih =>
      rw [List.map_cons, List.foldl_cons, List.foldl_cons]
      have hpush : DomainSet.nameStep (names.map Text.toBytes)
            (.pushLowercaseIf t.toBytes (onText (accepts isAlphanumeric format))) =
          (pushLowercaseIf names t (accepts isAlphanumeric format)).map Text.toBytes :=
        pushName_toBytes names t hvalid
      rw [hpush]
      exact ih _

/-- What all lines do to the set they do to the list of names. -/
theorem foldl_nameStep_lines (lines : List Text) :
    (lines.flatMap (pushesOf isAlphanumeric format polarity)).foldl DomainSet.nameStep [] =
      (namesIn isAlphanumeric format polarity lines).map Text.toBytes := by
  have hnames : ∀ names : List Name,
      (lines.flatMap (pushesOf isAlphanumeric format polarity)).foldl DomainSet.nameStep
          (names.map Text.toBytes) =
        (names ++ lines.flatMap (namesOf isAlphanumeric format polarity)).map Text.toBytes := by
    induction lines with
    | nil => intro names; simp
    | cons line lines ih =>
      intro names
      rw [List.flatMap_cons, List.foldl_append, foldl_pushesOf, ih, List.flatMap_cons,
        List.append_assoc]
  have hall := hnames []
  rw [List.map_nil, List.nil_append] at hall
  exact hall

/-- **The set of a parser holds the names that the list does**, if it never was full. -/
theorem fedSet_holds {lines : List Text} (hfits : Fits isAlphanumeric format polarity lines) :
    (fedSet isAlphanumeric format polarity lines).Layout ∧
      (fedSet isAlphanumeric format polarity lines).Holds
        ((namesIn isAlphanumeric format polarity lines).map Text.toBytes) := by
  obtain ⟨hlayout, hholds⟩ := DomainSet.run_holds DomainSet.layout_new DomainSet.holds_new hfits
  rw [foldl_nameStep_lines] at hholds
  exact ⟨hlayout, hholds⟩

/-- A set that took every name never was full. -/
theorem length_fedSet_le (format : Format) (polarity : ListPolarity) (lines : List Text) :
    (fedSet isAlphanumeric format polarity lines).spans.length ≤
        (namesIn isAlphanumeric format polarity lines).length ∧
      ((fedSet isAlphanumeric format polarity lines).spans.length =
        (namesIn isAlphanumeric format polarity lines).length →
          Fits isAlphanumeric format polarity lines) := by
  have hpush : ∀ op ∈ lines.flatMap (pushesOf isAlphanumeric format polarity),
      op.pushes = true := by
    intro op hop
    obtain ⟨line, -, hop⟩ := List.mem_flatMap.1 hop
    exact pushes_pushesOf hop
  have h := DomainSet.length_pushes hpush DomainSet.layout_new DomainSet.holds_new
  rw [foldl_nameStep_lines, List.length_map] at h
  exact h

theorem filter_onText (p : Name → Bool) (names : List Name) :
    (names.map Text.toBytes).filter (onText p) = (names.filter p).map Text.toBytes := by
  have hcomp : onText p ∘ Text.toBytes = p := funext fun d => onText_toBytes p d
  rw [List.filter_map, hcomp]

/-- After `finish` the exceptions are gone. -/
theorem finishedSet_holds {lines : List Text} (hfits : Fits isAlphanumeric format polarity lines) :
    (finishedSet isAlphanumeric format polarity lines).Layout ∧
      (finishedSet isAlphanumeric format polarity lines).Holds
        (((namesIn isAlphanumeric format polarity lines).filter fun d =>
          !exceptionsIn isAlphanumeric format polarity lines d).map Text.toBytes) := by
  obtain ⟨hlayout, hholds⟩ := fedSet_holds hfits
  refine ⟨hlayout.retain _, ?_⟩
  have hkept := hholds.retain (onText fun d => !exceptionsIn isAlphanumeric format polarity lines d)
  rw [filter_onText] at hkept
  exact hkept

/-- The set of a list holds names that are parsed from it, even if it was full. -/
theorem listSet_holds_sublist (isAlphanumeric : Char → Bool) (content : Text) (polarity : ListPolarity) :
    ∃ names : List Name, (listSet isAlphanumeric polarity content.lines).Holds (names.map Text.toBytes) ∧
      names.Sublist (parseContent isAlphanumeric content polarity).1 := by
  unfold listSet
  cases hformat : formatOf 0 content.lines with
  | none => exact ⟨[], DomainSet.holds_new, List.nil_sublist _⟩
  | some format =>
    obtain ⟨-, kept, hholds, hsub⟩ := DomainSet.run_holds_sublist
      (content.lines.flatMap (pushesOf isAlphanumeric format polarity)) DomainSet.layout_new
      DomainSet.holds_new (List.Sublist.refl [])
    rw [foldl_nameStep_lines] at hsub
    obtain ⟨names, hnames, rfl⟩ := List.sublist_map_iff.1 hsub
    have hkept := hholds.retain
      (onText fun d => !exceptionsIn isAlphanumeric format polarity content.lines d)
    rw [filter_onText] at hkept
    refine ⟨_, hkept, ?_⟩
    rw [parseContent_of_some hformat]
    exact hnames.filter _

end Ferrite.Blocklist
