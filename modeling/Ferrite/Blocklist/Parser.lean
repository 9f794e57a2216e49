import Ferrite.Blocklist.CacheFiles
import Ferrite.Blocklist.Refresh
import Ferrite.Core.Addr

/-!
# Parsing a list

`blocklist/src/parser.rs` and the streaming parser of `blocklist/src/loader.rs`: a list is
read line by line; its first line of data tells whether it is a hosts file, a plain list
or an Adblock list, and the lines before it are replayed into the parser chosen.  A
`DomainSet` is a list of names here.

* `wellFormed_of_mem_parseContent` — what is accepted is lower case and a valid name.
-/

namespace Ferrite.Blocklist

/-! ## The line parsers -/

section Parsers

variable (isAlphanumeric : Char → Bool)

/-- `is_valid_domain`, over the Unicode table of `char::is_alphanumeric`. -/
def isValidDomain (domain : Name) : Bool :=
  if domain = [] ∨ 253 < domain.byteLen then false
  else if !domain.contains '.' then false
  else domain.all fun c => isAlphanumeric c || c == '-' || c == '.' || c == '_'

/-- `DomainSet::push_lowercase_if`. -/
def pushLowercaseIf (domains : List Name) (domain : Text) (accept : Name → Bool) : List Name :=
  if domain = [] then domains
  else if accept domain.toAsciiLowercase then domains ++ [domain.toAsciiLowercase]
  else domains

/-- What precedes the first `#` of a line. -/
def beforeHash (line : Text) : Text := line.takeWhile (· ≠ '#')

/-- The addresses that block in a hosts file. -/
def sinkholes : List Text := ["0.0.0.0".toList, "127.0.0.1".toList, "::1".toList]

/-- The aliases a hosts file has for the machine itself. -/
def localhostAliases : List Name :=
  ["localhost".toList, "localhost.localdomain".toList, "broadcasthost".toList]

/-- `HostsParser::feed`. -/
def feedHosts (domains : List Name) (line : Text) : List Name :=
  match (beforeHash line).trim.splitWhitespace with
  | [] => domains
  | ip :: parts =>
    if ip ∉ sinkholes then domains
    else parts.foldl (fun domains domain => pushLowercaseIf domains domain fun d =>
      decide (d ∉ localhostAliases) && isValidDomain isAlphanumeric d) domains

/-- `is_adblock_syntax`.  A `$` counts only before a comment. -/
def isAdblockSyntax (line : Text) : Bool :=
  "||".toList.isPrefixOf line || "@@".toList.isPrefixOf line || line.hasInfix "##".toList ||
    line.hasInfix "#?#".toList || line.hasInfix "#@#".toList || line.hasInfix "#$#".toList ||
    (beforeHash line).contains '$'

/-- `PlainParser::feed`.  The syntax is checked before comments go, or a cosmetic rule would
leave its bare domain. -/
def feedPlain (domains : List Name) (line : Text) : List Name :=
  let line := line.trim
  if line = [] ∨ isAdblockSyntax line then domains
  else pushLowercaseIf domains (beforeHash line).trim (isValidDomain isAlphanumeric)

/-- `adblock_rule_domain`: the domain of a rule without a path. -/
def adblockRuleDomain (body : Text) : Option Name :=
  let head := Text.trim (body.takeWhile (· ≠ '^'))
  if head.contains '/' then none
  else
    let domain := head.toAsciiLowercase
    if domain ≠ [] ∧ isValidDomain isAlphanumeric domain then some domain else none

/-- Does the rule's option list scope it to other sites? -/
def isScoped (options : Text) : Bool :=
  (options.splitOn ',').any fun o => "domain=".toList.isPrefixOf (Text.trim o)

/-- The body of a rule, and whether its options scope it. -/
def ruleParts (rest : Text) : Text × Bool :=
  match Text.splitOnce '$' rest with
  | some (pattern, options) => (pattern, isScoped options)
  | none => (rest, false)

/-- `AdblockParser`. -/
structure AdblockParser where
  domains : List Name
  exceptions : Finset Name
  scopedSkipped : ℕ
  cosmeticSkipped : ℕ
  unsupportedSkipped : ℕ

/-- A line that is a comment, or blank. -/
def isAdblockComment (line : Text) : Bool :=
  line = [] || line.head? = some '!' || line.head? = some '#'

/-- Is a filter rule one that hides elements? -/
def isCosmetic (line : Text) : Bool :=
  line.hasInfix "##".toList || line.hasInfix "#?#".toList || line.hasInfix "#@#".toList

namespace AdblockParser

def empty : AdblockParser := ⟨[], ∅, 0, 0, 0⟩

/-- `AdblockParser::feed`. -/
def feed (p : AdblockParser) (line : Text) : AdblockParser :=
  let line := line.trim
  if isAdblockComment line then p
  else
    match line.stripPrefix "@@||".toList with
    | some rest =>
      match adblockRuleDomain isAlphanumeric rest with
      | some domain => { p with exceptions := insert domain p.exceptions }
      | none => p
    | none =>
      match line.stripPrefix "||".toList with
      | some rest =>
        let (pattern, limited) := ruleParts rest
        if limited then { p with scopedSkipped := p.scopedSkipped + 1 }
        else
          match adblockRuleDomain isAlphanumeric pattern with
          | some domain => { p with domains := pushLowercaseIf p.domains domain fun _ => true }
          | none => { p with unsupportedSkipped := p.unsupportedSkipped + 1 }
      | none =>
        if isAdblockSyntax line then
          if isCosmetic line then { p with cosmeticSkipped := p.cosmeticSkipped + 1 }
          else { p with unsupportedSkipped := p.unsupportedSkipped + 1 }
        else p

/-- `AdblockParser::finish`: the list's exceptions undo its own blocks. -/
def finish (p : AdblockParser) : List Name × AdblockStats :=
  let kept := p.domains.filter fun d => decide (d ∉ p.exceptions)
  (kept, ⟨kept.length, p.exceptions.card, p.domains.length - kept.length, p.scopedSkipped,
    p.cosmeticSkipped, p.unsupportedSkipped⟩)

end AdblockParser

/-- `AdblockExceptionsParser`. -/
structure AdblockExceptionsParser where
  domains : List Name
  exceptionRules : ℕ
  scopedSkipped : ℕ
  cosmeticSkipped : ℕ
  unsupportedSkipped : ℕ

namespace AdblockExceptionsParser

def empty : AdblockExceptionsParser := ⟨[], 0, 0, 0, 0⟩

/-- `AdblockExceptionsParser::feed`. -/
def feed (p : AdblockExceptionsParser) (line : Text) : AdblockExceptionsParser :=
  let line := line.trim
  if isAdblockComment line then p
  else
    match line.stripPrefix "@@||".toList with
    | some rest =>
      let p := { p with exceptionRules := p.exceptionRules + 1 }
      let (pattern, limited) := ruleParts rest
      if limited then { p with scopedSkipped := p.scopedSkipped + 1 }
      else
        match adblockRuleDomain isAlphanumeric pattern with
        | some domain => { p with domains := pushLowercaseIf p.domains domain fun _ => true }
        | none => { p with unsupportedSkipped := p.unsupportedSkipped + 1 }
    | none =>
      if isAdblockSyntax line then
        if isCosmetic line then { p with cosmeticSkipped := p.cosmeticSkipped + 1 }
        else { p with unsupportedSkipped := p.unsupportedSkipped + 1 }
      else p

/-- `AdblockExceptionsParser::finish`. -/
def finish (p : AdblockExceptionsParser) : List Name × AdblockStats :=
  (p.domains, ⟨p.domains.length, p.exceptionRules, 0, p.scopedSkipped, p.cosmeticSkipped,
    p.unsupportedSkipped⟩)

end AdblockExceptionsParser

/-! ## The list parser -/

/-- `Format`. -/
inductive Format where
  | hosts
  | plain
  | adblock
deriving DecidableEq, Repr

/-- The format a line reveals, if it does. -/
def detectFormat (line : Text) : Option Format :=
  let trimmed := line.trim
  if trimmed = [] then none
  else if "[Adblock".toList.isPrefixOf trimmed then some .adblock
  else if trimmed.head? = some '!' ∨ trimmed.head? = some '#' then none
  else if sinkholes.any (·.isPrefixOf trimmed) then some .hosts
  else if isAdblockSyntax trimmed then some .adblock
  else some .plain

/-- `MAX_HEADER_BYTES`. -/
def maxHeaderBytes : ℕ := 2 ^ 20

/-- `ParserState`. -/
inductive ParserState where
  | detecting (header : List Text) (bytes : ℕ)
  | hosts (domains : List Name)
  | plain (domains : List Name)
  | adblock (p : AdblockParser)
  | adblockAllow (p : AdblockExceptionsParser)

namespace ParserState

/-- The parser for a format and a polarity, with nothing read yet. -/
def ofFormat : Format → ListPolarity → ParserState
  | .hosts, _ => .hosts []
  | .plain, _ => .plain []
  | .adblock, .block => .adblock .empty
  | .adblock, .allow => .adblockAllow .empty

/-- A line for the parser that was chosen. -/
def feedChosen : ParserState → Text → ParserState
  | .detecting header bytes, _ => .detecting header bytes
  | .hosts domains, line => .hosts (feedHosts isAlphanumeric domains line)
  | .plain domains, line => .plain (feedPlain isAlphanumeric domains line)
  | .adblock p, line => .adblock (p.feed isAlphanumeric line)
  | .adblockAllow p, line => .adblockAllow (p.feed isAlphanumeric line)

/-- `ListParser::switch_to`. -/
def switchTo (polarity : ListPolarity) (header : List Text) (format : Format) : ParserState :=
  header.foldl (feedChosen isAlphanumeric) (ofFormat format polarity)

/-- `ListParser::feed`. -/
def feed (polarity : ListPolarity) (state : ParserState) (line : Text) : ParserState :=
  match state with
  | .detecting header bytes =>
    let bytes := bytes + line.byteLen + 1
    let header := header ++ [line]
    match detectFormat line with
    | some format => switchTo isAlphanumeric polarity header format
    | none =>
      if maxHeaderBytes < bytes then switchTo isAlphanumeric polarity header .plain
      else .detecting header bytes
  | state => feedChosen isAlphanumeric state line

/-- `ListParser::finish`. -/
def finish : ParserState → List Name × Option AdblockStats
  | .detecting _ _ => ([], none)
  | .hosts domains => (domains, none)
  | .plain domains => (domains, none)
  | .adblock p => (p.finish.1, some p.finish.2)
  | .adblockAllow p => (p.finish.1, some p.finish.2)

end ParserState

/-- `parse_content`. -/
def parseContent (content : Text) (polarity : ListPolarity) : List Name × Option AdblockStats :=
  (content.lines.foldl (ParserState.feed isAlphanumeric polarity) (.detecting [] 0)).finish

end Parsers

/-! ## What is accepted -/

section

variable {isAlphanumeric : Char → Bool}

/-- A lowercased name that passes the check. -/
structure WellFormed (isAlphanumeric : Char → Bool) (d : Name) : Prop where
  lower : d.toAsciiLowercase = d
  valid : isValidDomain isAlphanumeric d = true

variable (isAlphanumeric) in
/-- All of them are. -/
def AllWellFormed (domains : List Name) : Prop := ∀ d ∈ domains, WellFormed isAlphanumeric d

theorem AllWellFormed.push {domains : List Name} (h : AllWellFormed isAlphanumeric domains)
    {domain : Text} {accept : Name → Bool}
    (hnew : accept domain.toAsciiLowercase = true →
      isValidDomain isAlphanumeric domain.toAsciiLowercase = true) :
    AllWellFormed isAlphanumeric (pushLowercaseIf domains domain accept) := by
  unfold pushLowercaseIf
  split
  · exact h
  · split
    · rename_i hacc
      intro d hd
      rcases List.mem_append.1 hd with hd | hd
      · exact h d hd
      · exact List.mem_singleton.1 hd ▸ ⟨Text.toAsciiLowercase_toAsciiLowercase domain, hnew hacc⟩
    · exact h

theorem AllWellFormed.feedHosts {domains : List Name} (h : AllWellFormed isAlphanumeric domains)
    (line : Text) : AllWellFormed isAlphanumeric (feedHosts isAlphanumeric domains line) := by
  unfold Blocklist.feedHosts
  split
  · exact h
  · rename_i ip parts _
    split
    · exact h
    · clear * - h
      induction parts generalizing domains with
      | nil => exact h
      | cons domain parts ih =>
        exact ih (h.push fun hacc => (Bool.and_eq_true_iff.1 hacc).2)

theorem AllWellFormed.feedPlain {domains : List Name} (h : AllWellFormed isAlphanumeric domains)
    (line : Text) : AllWellFormed isAlphanumeric (feedPlain isAlphanumeric domains line) := by
  unfold Blocklist.feedPlain
  dsimp only
  split
  · exact h
  · exact h.push id

/-- The domain of a rule can be kept as it is. -/
theorem AllWellFormed.pushRule {domains : List Name} (h : AllWellFormed isAlphanumeric domains)
    {body : Text} {d : Name} (hd : adblockRuleDomain isAlphanumeric body = some d) :
    AllWellFormed isAlphanumeric (pushLowercaseIf domains d fun _ => true) := by
  refine h.push fun _ => ?_
  unfold adblockRuleDomain at hd
  dsimp only at hd
  split at hd
  · cases hd
  · split at hd
    · rename_i hvalid
      cases hd
      rw [Text.toAsciiLowercase_toAsciiLowercase]
      exact hvalid.2
    · cases hd

theorem AllWellFormed.feedAdblock {p : AdblockParser} (h : AllWellFormed isAlphanumeric p.domains)
    (line : Text) : AllWellFormed isAlphanumeric (p.feed isAlphanumeric line).domains := by
  unfold AdblockParser.feed
  dsimp only
  split
  · exact h
  split
  · split <;> exact h
  split
  · split
    · exact h
    split
    · rename_i d hd
      exact AllWellFormed.pushRule h hd
    · exact h
  · split
    · split <;> exact h
    · exact h

theorem AllWellFormed.feedExceptions {p : AdblockExceptionsParser}
    (h : AllWellFormed isAlphanumeric p.domains) (line : Text) :
    AllWellFormed isAlphanumeric (p.feed isAlphanumeric line).domains := by
  unfold AdblockExceptionsParser.feed
  dsimp only
  split
  · exact h
  split
  · split
    · exact h
    split
    · rename_i d hd
      exact AllWellFormed.pushRule h hd
    · exact h
  · split
    · split <;> exact h
    · exact h

/-- The names a parser has kept so far. -/
def ParserState.domains : ParserState → List Name
  | .detecting _ _ => []
  | .hosts domains => domains
  | .plain domains => domains
  | .adblock p => p.domains
  | .adblockAllow p => p.domains

theorem AllWellFormed.feedChosen {state : ParserState}
    (h : AllWellFormed isAlphanumeric state.domains) (line : Text) :
    AllWellFormed isAlphanumeric (state.feedChosen isAlphanumeric line).domains := by
  cases state with
  | detecting header bytes => exact h
  | hosts domains => exact AllWellFormed.feedHosts h line
  | plain domains => exact AllWellFormed.feedPlain h line
  | adblock p => exact AllWellFormed.feedAdblock h line
  | adblockAllow p => exact AllWellFormed.feedExceptions h line

/-- A chosen parser starts with nothing, and the header is fed to it. -/
theorem allWellFormed_switchTo (polarity : ListPolarity) (header : List Text) (format : Format) :
    AllWellFormed isAlphanumeric
      (ParserState.switchTo isAlphanumeric polarity header format).domains := by
  have hempty : AllWellFormed isAlphanumeric (ParserState.ofFormat format polarity).domains := by
    cases format <;> cases polarity <;> exact nofun
  unfold ParserState.switchTo
  induction header using List.reverseRecOn with
  | nil => exact hempty
  | append_singleton header line ih =>
    rw [List.foldl_append]
    exact ih.feedChosen line

theorem AllWellFormed.feed {state : ParserState} (h : AllWellFormed isAlphanumeric state.domains)
    (polarity : ListPolarity) (line : Text) :
    AllWellFormed isAlphanumeric (state.feed isAlphanumeric polarity line).domains := by
  cases state with
  | detecting header bytes =>
    unfold ParserState.feed
    dsimp only
    split
    · exact allWellFormed_switchTo polarity _ _
    · split
      · exact allWellFormed_switchTo polarity _ _
      · exact nofun
  | hosts domains => exact AllWellFormed.feedChosen h line
  | plain domains => exact AllWellFormed.feedChosen h line
  | adblock p => exact AllWellFormed.feedChosen h line
  | adblockAllow p => exact AllWellFormed.feedChosen h line

theorem AllWellFormed.finish {state : ParserState}
    (h : AllWellFormed isAlphanumeric state.domains) :
    AllWellFormed isAlphanumeric state.finish.1 := by
  cases state with
  | detecting header bytes => exact nofun
  | hosts domains => exact h
  | plain domains => exact h
  | adblock p => exact fun d hd => h d (List.mem_of_mem_filter hd)
  | adblockAllow p => exact h

/-- **What is accepted is well formed.** -/
theorem wellFormed_of_mem_parseContent {content : Text} {polarity : ListPolarity} {d : Name}
    (h : d ∈ (parseContent isAlphanumeric content polarity).1) : WellFormed isAlphanumeric d := by
  have hall : AllWellFormed isAlphanumeric
      (content.lines.foldl (ParserState.feed isAlphanumeric polarity) (.detecting [] 0)).domains := by
    generalize content.lines = lines
    induction lines using List.reverseRecOn with
    | nil => exact nofun
    | append_singleton lines line ih =>
      rw [List.foldl_append]
      exact ih.feed polarity line
  exact hall.finish d h

end

end Ferrite.Blocklist
