import Ferrite.Core.Text
import Mathlib.Data.Finset.Basic

/-!
# Domain names

`blocklist/src/names.rs`: normalisation, label-boundary suffixes, the hierarchy
walk that stops at the registrable domain, and pattern entries.  The public suffix
list and the regular expressions come from other crates, so they are fields of
`Crates`, as is the catalog of services.
-/

namespace Ferrite.Blocklist

/-- A domain name in text form. -/
abbrev Name := Text

/-- `regex::Regex`, as far as it is used: which names it matches. -/
abbrev Regex := Name → Bool

/-- A catalog service: the id configs reference, its display name, whether a tunnel rule may
route it, and the domains it owns. -/
structure CatalogService where
  id : Text
  name : Text
  routable : Bool
  domains : List Name
deriving DecidableEq

/-- What the engine takes from elsewhere: `psl::suffix`, `regex::escape`, the regex
builder (case-insensitive or not) with its error text, and the service catalog. -/
structure Crates where
  suffix : Name → Option Name
  escape : Text → Text
  build : Bool → Text → Except Text Regex
  catalog : List CatalogService

/-! ## The hierarchy walk -/

/-- The names the walk visits after `domain` itself: what follows each dot,
longest first. -/
def parents : Name → List Name
  | [] => []
  | c :: cs => if c = '.' then cs :: parents cs else parents cs

/-- `is_registrable_or_deeper`: the name extends beyond its public suffix. -/
def isRegistrableOrDeeper (env : Crates) (name : Name) : Bool :=
  match env.suffix name with
  | some suffix => decide (suffix.length < name.length)
  | none => true

/-- `matched_key`: the name or the first parent that matches. -/
def matchedKey (env : Crates) (domain : Name) (contains : Name → Bool) : Option Name :=
  if contains domain then some domain
  else (parents domain).find? fun k => contains k && isRegistrableOrDeeper env k

/-- `domain_in_set`. -/
def domainInSet (env : Crates) (domain : Name) (set : Finset Name) : Bool :=
  decide (domain ∈ set) ||
    (parents domain).any fun k => decide (k ∈ set) && isRegistrableOrDeeper env k

/-- `has_suffix`: `name` is `suffix` or ends in it at a label boundary. -/
def hasSuffix (name suffix : Name) : Bool :=
  name == suffix || ('.' :: suffix).isSuffixOf name

/-! ## Entries -/

/-- `regex_body`: what stands inside a `/regex/` entry. -/
def regexBody (entry : Text) : Option Text :=
  let e := entry.trim
  if 2 < e.length ∧ e.head? = some '/' ∧ e.getLast? = some '/' then some (e.drop 1).dropLast
  else none

/-- `is_pattern`. -/
def isPattern (entry : Text) : Bool := entry.contains '*' || (regexBody entry).isSome

/-- `normalise`: a `/regex/` entry keeps its case. -/
def normalise (domain : Text) : Name :=
  if (regexBody domain).isSome then domain.trim
  else domain.toAsciiLowercase.trimEndMatches (· == '.')

/-- Names no sensible entry matches all of. -/
def unrelatedNames : List Name :=
  ["example.com".toList, "a.b.c.d.example.org".toList, "zz9-ferrite-probe.invalid".toList,
    "x.y".toList]

/-- `wildcard_to_regex`: the pattern anchored at both ends, a star for anything. -/
def wildcardToRegex (env : Crates) (pattern : Text) : Except Text Regex :=
  if pattern.all (· == '*') then .error "wildcard pattern cannot match everything".toList
  else
    match env.build false
      ('^' :: Text.replace "\\*".toList ".*".toList (env.escape pattern) ++ ['$']) with
    | .ok re => .ok re
    | .error e => .error ("invalid wildcard '".toList ++ pattern ++ "': ".toList ++ e)

/-- `pattern_to_regex`: a wildcard, or a regex that does not match every name. -/
def patternToRegex (env : Crates) (entry : Text) : Except Text Regex :=
  match regexBody entry with
  | none => wildcardToRegex env entry
  | some body =>
    match env.build true body with
    | .error e => .error ("invalid regex '".toList ++ entry ++ "': ".toList ++ e)
    | .ok re =>
      if re [] || unrelatedNames.all re then
        .error ("regex '".toList ++ entry ++ "' would match every name".toList)
      else .ok re

/-! ## Manual entries -/

/-- `ManualList`: exact names, matched with the walk, and patterns in the order added. -/
structure ManualList where
  exact : Finset Name
  wildcards : List (Text × Regex)

namespace ManualList

/-- `ManualList::contains`. -/
def contains (env : Crates) (l : ManualList) (domain : Name) : Bool :=
  domainInSet env domain l.exact || l.wildcards.any fun w => w.2 domain

/-- `ManualList::add`: an invalid pattern is refused and nothing changes. -/
def add (env : Crates) (l : ManualList) (domain : Text) : Except Text ManualList :=
  let d := normalise domain
  if isPattern d then
    match patternToRegex env d with
    | .error e => .error e
    | .ok re =>
      if l.wildcards.any fun w => w.1 == d then .ok l
      else .ok { l with wildcards := l.wildcards ++ [(d, re)] }
  else .ok { l with exact := insert d l.exact }

/-- `ManualList::remove`. -/
def remove (l : ManualList) (domain : Text) : ManualList :=
  let d := normalise domain
  if isPattern d then { l with wildcards := l.wildcards.filter fun w => w.1 != d }
  else { l with exact := l.exact.erase d }

/-- One configured entry of `from_entries`; an invalid pattern is skipped. -/
def seed (env : Crates) (l : ManualList) (entry : Text) : ManualList :=
  let norm := normalise entry
  if isPattern norm then
    match patternToRegex env norm with
    | .ok re => { l with wildcards := l.wildcards ++ [(norm, re)] }
    | .error _ => l
  else { l with exact := insert norm l.exact }

/-- `ManualList::from_entries`. -/
def fromEntries (env : Crates) (entries : List Text) : ManualList :=
  entries.foldl (seed env) ⟨∅, []⟩

end ManualList

/-! ## Catalog services -/

/-- `services::find`. -/
def findService (env : Crates) (id : Text) : Option CatalogService :=
  env.catalog.find? fun s => s.id == id

/-- The known ids of `services::normalize_ids`: trimmed, lowercase, repeats dropped. -/
def normalizeIds (env : Crates) (ids : List Text) : List Text :=
  ((ids.map fun raw => raw.trim.toAsciiLowercase).filter (· ≠ [])).eraseDups.filter fun id =>
    (findService env id).isSome

/-- `services::domains_of`. -/
def domainsOf (env : Crates) (ids : List Text) : List Name :=
  (ids.filterMap (findService env)).flatMap CatalogService.domains

/-- `ServiceBlock`: the services blocked for every device. -/
structure ServiceBlock where
  ids : List Text
  domains : Finset Name

namespace ServiceBlock

/-- `ServiceBlock::new`. -/
def new (env : Crates) (ids : List Text) : ServiceBlock :=
  let ids := normalizeIds env ids
  ⟨ids, (domainsOf env ids).toFinset⟩

/-- `ServiceBlock::contains`. -/
def contains (env : Crates) (b : ServiceBlock) (domain : Name) : Bool :=
  decide (b.domains ≠ ∅) && domainInSet env domain b.domains

end ServiceBlock

end Ferrite.Blocklist
