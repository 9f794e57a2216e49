import Ferrite.Blocklist.ListNames
import Ferrite.Blocklist.Precedence
import Ferrite.Dns.Cloaking
import Ferrite.Proxy.Intercept
import Ferrite.Proxy.Peek

/-!
# One spelling for a name

Five parts of the program read names on their own: the list parser and the manual entries,
the question of a DNS query, the CNAME targets of an answer, the server name of a
ClientHello and the host of a request.  A block takes effect where they agree on the text
of a name.

The wire walk spells plain labels and leaves the others to the DNS crate, which renders an
`xn--` label in Unicode; everything else keeps it as it stands.

* `ListsName.mem_parseContent` — what the parser keeps of a list whose text names it;
* `question_asks` — what a query for a name is read as;
* `spell_names` — what a CNAME target is read as, if no label decodes;
* `blocked_of_listed` — the engine blocks the one spelling;
* `blocked_everywhere_iff` — a listed name is blocked at every place if and only if none of
  its labels decodes and the answer with the alias is one the CNAME check sees through.
-/

namespace Ferrite.App

open Blocklist Dns Proxy

/-! ## Names -/

/-- A label of letters, digits and hyphens, in lower case. -/
structure IsLdhLabel (l : Text) : Prop where
  ne_nil : l ≠ []
  short : l.length ≤ 63
  chars : ∀ c ∈ l, (97 ≤ c.toNat ∧ c.toNat ≤ 122) ∨ (48 ≤ c.toNat ∧ c.toNat ≤ 57) ∨ c = '-'
  first : l.head? ≠ some '-'
  last : l.getLast? ≠ some '-'

/-- A domain name of such labels. -/
structure LdhName where
  labels : List Text
  ne_nil : labels ≠ []
  ldh : ∀ l ∈ labels, IsLdhLabel l
  short : (Text.dotted labels).length ≤ 253

/-- The name as the engine knows it. -/
def LdhName.text (d : LdhName) : Text := Text.dotted d.labels

/-- A text spells the name: in some case, with or without the root dot. -/
def Spells (t : Text) (d : LdhName) : Prop :=
  ∃ dots, (dots = [] ∨ dots = ['.']) ∧ t.toAsciiLowercase = d.text ++ dots

/-- A name on the wire is that name, in some case. -/
def Names (n : Dns.Name) (d : LdhName) : Prop := n.map Wire.labelText = d.labels

instance (n : Dns.Name) (d : LdhName) : Decidable (Names n d) :=
  inferInstanceAs (Decidable (_ = d.labels))

section

variable {d : LdhName}

theorem IsLdhLabel.dot_notMem {l : Text} (h : IsLdhLabel l) : '.' ∉ l :=
  fun hmem => absurd (h.chars '.' hmem) (by decide)

/-- The characters of a name. -/
theorem LdhName.mem_text {c : Char} (h : c ∈ d.text) :
    (97 ≤ c.toNat ∧ c.toNat ≤ 122) ∨ (48 ≤ c.toNat ∧ c.toNat ≤ 57) ∨ c = '-' ∨ c = '.' := by
  rcases Text.mem_dotted h with rfl | ⟨l, hl, hc⟩
  · exact Or.inr (Or.inr (Or.inr rfl))
  · rcases (d.ldh l hl).chars c hc with h | h | h
    · exact Or.inl h
    · exact Or.inr (Or.inl h)
    · exact Or.inr (Or.inr (Or.inl h))

theorem LdhName.labels_dotless (d : LdhName) : ∀ l ∈ d.labels, l ≠ [] ∧ '.' ∉ l :=
  fun l hl => ⟨(d.ldh l hl).ne_nil, (d.ldh l hl).dot_notMem⟩

/-- However a name is spelled, its text in lower case without dots at the end is one. -/
theorem Spells.text_eq {t : Text} (h : Spells t d) :
    t.toAsciiLowercase.trimEndMatches (· == '.') = d.text := by
  obtain ⟨dots, hdots, ht⟩ := h
  rw [ht]
  refine Text.trimEndMatches_dotted d.labels_dotless fun c hc => ?_
  rcases hdots with rfl | rfl
  · cases hc
  · exact List.mem_singleton.1 hc

theorem Spells.hostText_eq {t : Text} (h : Spells t d) : hostText t = d.text :=
  (Text.toAsciiLowercase_trimEndMatches_dot t).trans h.text_eq

theorem LdhName.text_ne_nil (d : LdhName) : d.text ≠ [] := by
  obtain ⟨l, rest, hlabels⟩ := List.exists_cons_of_ne_nil d.ne_nil
  have hl := (d.ldh l (hlabels ▸ List.mem_cons_self)).ne_nil
  simp [LdhName.text, hlabels, Text.dotted, hl]

theorem Spells.ne_nil {t : Text} (h : Spells t d) : t ≠ [] := by
  rintro rfl
  obtain ⟨dots, -, ht⟩ := h
  exact d.text_ne_nil (List.append_eq_nil_iff.1 ht.symm).1

/-- The characters of a text that spells a name. -/
theorem Spells.mem {t : Text} (h : Spells t d) {c : Char} (hc : c ∈ t) :
    (48 ≤ c.toNat ∧ c.toNat ≤ 57) ∨ (65 ≤ c.toNat ∧ c.toNat ≤ 90) ∨
      (97 ≤ c.toNat ∧ c.toNat ≤ 122) ∨ c.toNat = 45 ∨ c.toNat = 46 := by
  obtain ⟨dots, hdots, ht⟩ := h
  have hdot : '.'.toNat = 46 := rfl
  have hhyphen : '-'.toNat = 45 := rfl
  have hmem : asciiLower c ∈ d.text ++ dots := ht ▸ List.mem_map_of_mem hc
  have hlower := toNat_asciiLower c
  split at hlower
  · omega
  · have hsame : asciiLower c = c := if_neg ‹_›
    rw [hsame] at hmem
    rcases List.mem_append.1 hmem with hmem | hmem
    · rcases LdhName.mem_text hmem with h | h | rfl | rfl <;> omega
    · rcases hdots with rfl | rfl
      · cases hmem
      · rw [List.mem_singleton.1 hmem]
        omega

/-- No character of it ends the host of a request. -/
theorem Spells.mem_host {t : Text} (h : Spells t d) :
    ∀ c ∈ t, isWhitespace c = false ∧ c ≠ ':' ∧ c ≠ '[' := by
  intro c hc
  have hchar := h.mem hc
  have hcolon : ':'.toNat = 58 := rfl
  have hbracket : '['.toNat = 91 := rfl
  refine ⟨?_, ?_, ?_⟩
  · simp only [isWhitespace, Bool.or_eq_false_iff, Bool.and_eq_false_iff, decide_eq_false_iff_not,
      beq_eq_false_iff_ne]
    omega
  · rintro rfl
    omega
  · rintro rfl
    omega

/-- A name spells itself. -/
theorem LdhName.spells_text (d : LdhName) : Spells d.text d := by
  refine ⟨[], Or.inl rfl, ?_⟩
  rw [List.append_nil, Text.toAsciiLowercase]
  refine (List.map_congr_left fun c hc => ?_).trans (List.map_id _)
  have hhyphen : '-'.toNat = 45 := rfl
  have hdot : '.'.toNat = 46 := rfl
  refine if_neg fun hupper => ?_
  have hrange := isUpper_iff.1 hupper
  rcases LdhName.mem_text hc with h | h | rfl | rfl <;> omega

/-! ## The lists -/

theorem regexBody_eq_none {t : Text} (h : '/' ∉ t) : regexBody t = none := by
  refine if_neg fun ⟨_, hhead, _⟩ => h ?_
  have hmem : '/' ∈ t.trim := List.mem_of_head? hhead
  have hdrop : '/' ∈ t.dropWhile isWhitespace := by
    have hrev := (List.dropWhile_suffix isWhitespace).subset (List.mem_reverse.1 hmem)
    exact List.mem_reverse.1 hrev
  exact (List.dropWhile_suffix isWhitespace).subset hdrop

/-- A text that a parser takes for a name: it has a dot, is not too long, and in a hosts file
does not stand for the machine itself. -/
structure Acceptable (format : Format) (t : Text) : Prop where
  dot : '.' ∈ t
  short : t.length ≤ 253
  notAlias : format = .hosts → t.toAsciiLowercase ∉ localhostAliases

/-- The text of a list names the domain: in the list's format a line offers a text that spells
it, and no exception of an Adblock list is for that text. -/
def ListsName (content : Text) (d : LdhName) : Prop :=
  ∃ format, formatOf 0 content.lines = some format ∧
    ∃ line ∈ content.lines, ∃ t ∈ candidates format .block line, Spells t d ∧ Acceptable format t ∧
      (format = .adblock → ∀ other ∈ content.lines, ∀ e ∈ exempted other,
        e.toAsciiLowercase ≠ t.toAsciiLowercase)

theorem Spells.ascii {t : Text} (h : Spells t d) : ∀ c ∈ t, c.toNat < 128 := by
  intro c hc
  have hchar := h.mem hc
  omega

theorem isAlphanum_of_toNat {c : Char}
    (h : (97 ≤ c.toNat ∧ c.toNat ≤ 122) ∨ (48 ≤ c.toNat ∧ c.toNat ≤ 57)) : c.isAlphanum = true := by
  have hkinds : c.isAlphanum = (c.isUpper || (decide (97 ≤ c.val) && decide (c.val ≤ 122)) ||
      (decide (48 ≤ c.val) && decide (c.val ≤ 57))) := rfl
  simp only [hkinds, Bool.or_eq_true, Bool.and_eq_true, decide_eq_true_eq, UInt32.le_iff_toNat_le]
  rcases h with h | h
  · exact Or.inl (Or.inr h)
  · exact Or.inr h

/-- A text that spells a name, and that a parser takes, is a valid domain. -/
theorem isValidDomain_of_spells {isAlphanumeric : Char → Bool} (hA : AsciiAlphanumeric isAlphanumeric)
    {t : Text} (h : Spells t d) (hdot : '.' ∈ t) (hshort : t.length ≤ 253) :
    isValidDomain isAlphanumeric t.toAsciiLowercase = true := by
  have hascii : ∀ c ∈ t.toAsciiLowercase, c.toNat < 128 := by
    intro c hc
    obtain ⟨c', hc', rfl⟩ := List.mem_map.1 hc
    have hlower := toNat_asciiLower c'
    have hchar := h.mem hc'
    split at hlower <;> omega
  have hlen : ¬ (t.toAsciiLowercase = [] ∨ 253 < t.toAsciiLowercase.byteLen) := by
    rw [Text.byteLen_of_ascii hascii, Text.toAsciiLowercase, List.length_map, List.map_eq_nil_iff]
    exact not_or.2 ⟨h.ne_nil, not_lt.2 hshort⟩
  have hmem : '.' ∈ t.toAsciiLowercase := List.mem_map.2 ⟨'.', hdot, rfl⟩
  rw [isValidDomain, if_neg hlen, if_neg (by simpa using hmem), List.all_eq_true]
  intro c hc
  obtain ⟨dots, hdots, ht⟩ := h
  rw [hA c (hascii c hc)]
  rw [ht] at hc
  rcases List.mem_append.1 hc with hc | hc
  · rcases LdhName.mem_text hc with h | h | rfl | rfl
    · rw [isAlphanum_of_toNat (Or.inl h)]
      rfl
    · rw [isAlphanum_of_toNat (Or.inr h)]
      rfl
    · rfl
    · rfl
  · rcases hdots with rfl | rfl
    · cases hc
    · rw [List.mem_singleton.1 hc]
      rfl

/-- **What the text of a list names, the parser keeps**, in the spelling of the list. -/
theorem ListsName.mem_parseContent {isAlphanumeric : Char → Bool}
    (hA : AsciiAlphanumeric isAlphanumeric) {content : Text} (h : ListsName content d) :
    ∃ entry ∈ (parseContent isAlphanumeric content .block).1, Spells entry d := by
  obtain ⟨format, hformat, line, hline, t, ht, hspells, hok, hexempt⟩ := h
  have hvalid := isValidDomain_of_spells hA hspells hok.dot hok.short
  have hslash : '/' ∉ t := fun hc => absurd (hspells.mem hc) (by decide)
  refine ⟨t.toAsciiLowercase, (mem_parseContent_iff content _).2 ⟨format, hformat, ⟨line, hline, ?_⟩,
    fun other hother hexception => ?_⟩, ?_⟩
  · exact (mem_namesOf_iff ..).2 ⟨t, ht, rfl, hvalid, hok.notAlias, fun _ => hslash⟩
  · obtain ⟨⟨rfl, -⟩, e, he, hlower, -⟩ := (mem_exceptionsOf_iff ..).1 hexception
    exact hexempt rfl other hother e he hlower
  · obtain ⟨dots, hdots, hlower⟩ := hspells
    exact ⟨dots, hdots, by rw [Text.toAsciiLowercase_toAsciiLowercase, hlower]⟩

/-- A manual entry is kept under the one spelling. -/
theorem Spells.normalise_eq {t : Text} (h : Spells t d) : normalise t = d.text := by
  have hslash : '/' ∉ t := fun hc => absurd (h.mem hc) (by decide)
  rw [normalise, regexBody_eq_none hslash]
  exact h.text_eq

theorem LdhName.isPattern_eq_false (d : LdhName) : isPattern d.text = false := by
  have hslash : '/' ∉ d.text := fun hc => absurd (LdhName.mem_text hc) (by decide)
  have hstar : '*' ∉ d.text := fun hc => absurd (LdhName.mem_text hc) (by decide)
  rw [isPattern, regexBody_eq_none hslash]
  simp [hstar]

theorem exact_subset_fromEntries (env : Crates) (entries : List Text) (l : ManualList) :
    l.exact ⊆ (entries.foldl (ManualList.seed env) l).exact := by
  induction entries generalizing l with
  | nil => exact Finset.Subset.refl _
  | cons e entries ih =>
    refine Finset.Subset.trans ?_ (ih _)
    unfold ManualList.seed
    dsimp only
    split
    · split <;> exact Finset.Subset.refl _
    · exact Finset.subset_insert _ _

/-- The name is in the text of a list the loader parsed, or in the manual blacklist. -/
inductive Listed (isAlphanumeric : Char → Bool) (env : Crates) (s : Sets) (profile : Option Profile)
    (d : LdhName) : Prop
  | list {content : Text} (hlists : ListsName content d)
      (hserved : buildFst (parseContent isAlphanumeric content .block).1 ⊆ blockMap s profile)
  | configured {entries : List Text} {entry : Text} (hentry : entry ∈ entries)
      (hspells : Spells entry d) (hlist : s.blacklist = .fromEntries env entries)
  | added {before after : ManualList} {entry : Text} (hspells : Spells entry d)
      (hadd : before.add env entry = .ok after) (hlist : s.blacklist = after)

/-- Nothing allows the name for the profile. -/
structure NotAllowed (env : Crates) (s : Sets) (profile : Option Profile) (name : Text) : Prop where
  byProfile : ¬ (profileAllowTier env profile).Applies name
  byWhitelist : ¬ (whitelistTier env s profile).Applies name

variable {isAlphanumeric : Char → Bool} {env : Crates} {s : Sets} {profile : Option Profile}

/-- What is listed is kept under the one spelling. -/
theorem Listed.applies (hA : AsciiAlphanumeric isAlphanumeric) (h : Listed isAlphanumeric env s profile d) :
    (blockTier env s profile).Applies d.text := by
  cases h with
  | @list content hlists hserved =>
    obtain ⟨entry, hentry, hspells⟩ := hlists.mem_parseContent hA
    have hlower := (wellFormed_of_mem_parseContent hentry).lower
    have hkey : d.text ∈ blockMap s profile := by
      refine hserved (List.mem_toFinset.2 (List.mem_map.2 ⟨entry, hentry, ?_⟩))
      rw [← hspells.text_eq, hlower]
    exact Or.inr (Or.inr ⟨d.text, hkey, Or.inl rfl⟩)
  | @configured entries entry hentry hspells hlist =>
    have hkey : d.text ∈ s.blacklist.exact := by
      obtain ⟨before, after, rfl⟩ := List.append_of_mem hentry
      rw [hlist, ManualList.fromEntries, List.foldl_append, List.foldl_cons]
      refine exact_subset_fromEntries env after _ ?_
      rw [ManualList.seed, hspells.normalise_eq, d.isPattern_eq_false]
      exact Finset.mem_insert_self _ _
    exact Or.inl (Or.inl ⟨d.text, hkey, Or.inl rfl⟩)
  | @added before after entry hspells hadd hlist =>
    have hkey : d.text ∈ s.blacklist.exact := by
      rw [ManualList.add, hspells.normalise_eq, d.isPattern_eq_false] at hadd
      rw [hlist, ← Except.ok.inj hadd]
      exact Finset.mem_insert_self _ _
    exact Or.inl (Or.inl ⟨d.text, hkey, Or.inl rfl⟩)

/-- **The engine blocks the one spelling** of a listed name that nothing allows. -/
theorem blocked_of_listed (hA : AsciiAlphanumeric isAlphanumeric)
    (h : Listed isAlphanumeric env s profile d)
    (hallowed : NotAllowed env s profile d.text) :
    shouldBlockUncached env s d.text profile = true := by
  refine shouldBlockUncached_iff.2 (.later hallowed.byProfile ?_)
  by_cases hblock : (profileBlockTier env profile).Applies d.text
  · exact .here hblock
  refine .later hblock (.later hallowed.byWhitelist ?_)
  by_cases hdeny : (defaultDenyTier s profile).Applies d.text
  · exact .here hdeny
  exact .later hdeny (.here (h.applies hA))

end

/-! ## The DNS crate -/

/-- The text of a label, as it stands. -/
def rawText (label : Bytes) : Text := label.map fun b => Char.ofNat b.toNat

/-- What is taken from `Name::to_utf8` and `str::to_lowercase`: a label of letters, digits
and hyphens is written as it stands, unless it begins with `xn--` and decodes; then it is
written in Unicode.  `toUnicode` is the decoder. -/
structure RendersIdn (codec : Codec) (toUnicode : Text → Option Text) : Prop where
  written : ∀ n : Dns.Name, n ≠ [] → (∀ l ∈ n, IsLdhLabel (Wire.labelText l)) →
    codec.toUtf8 n = n.flatMap fun l => (toUnicode (rawText l)).getD (rawText l) ++ ['.']
  lowered : ∀ t : Text, (∀ c ∈ t, c.toNat < 128) → codec.strToLowercase t = t.toAsciiLowercase
  idn : ∀ {l u}, toUnicode l = some u → "xn--".toList.isPrefixOf l.toAsciiLowercase = true
  unicode : ∀ {l u}, toUnicode l = some u → '.' ∉ u ∧ ∃ c ∈ u, 128 ≤ c.toNat
  caseless : ∀ {l u}, toUnicode l = some u → (toUnicode l.toAsciiLowercase).isSome = true

/-- A query for the name, which the decoder reads if the wire walk does not. -/
structure Asks (codec : Codec) (raw : Bytes) (n : Dns.Name) : Prop where
  decoded : Wire.readNameLower raw Wire.headerLen = none →
    ∃ m q, codec.fromBytes raw = some m ∧ m.queries.head? = some q ∧ q.name = n
  wire : NameAt raw Wire.headerLen n
  ends : (Wire.questionEnd raw).isSome = true

/-- The name as the DNS crate writes it. -/
def rendered (toUnicode : Text → Option Text) (d : LdhName) : Text :=
  Text.dotted (d.labels.map fun l => (toUnicode l).getD l)

section

variable {d : LdhName} {codec : Codec} {toUnicode : Text → Option Text} {n : Dns.Name}

theorem labelText_eq (label : Bytes) : Wire.labelText label = (rawText label).toAsciiLowercase := by
  simp [Wire.labelText, rawText, Text.toAsciiLowercase]

/-- Lower case on the wire is lower case in the text. -/
theorem asciiLower_byte : ∀ n < 256,
    Char.ofNat (if 0x41 ≤ UInt8.ofNat n ∧ UInt8.ofNat n ≤ 0x5A then UInt8.ofNat n + 0x20
      else UInt8.ofNat n).toNat = asciiLower (Char.ofNat n) := by
  decide +kernel

/-- The lowercased name has the labels of the name. -/
theorem map_rawText_toLowercase (n : Dns.Name) :
    n.toLowercase.map rawText = n.map Wire.labelText := by
  unfold Dns.Name.toLowercase rawText Wire.labelText
  simp only [List.map_map]
  refine List.map_congr_left fun label _ => ?_
  simp only [Function.comp_apply, List.map_map]
  refine List.map_congr_left fun b _ => ?_
  simpa using asciiLower_byte b.toNat b.toNat_lt

/-- A plain label does not begin with `xn--`. -/
theorem not_xn_of_plain {label : Bytes} (h : Wire.isPlainLabel label = true) :
    "xn--".toList.isPrefixOf (Wire.labelText label) = false := by
  have hbyte : ∀ b m : UInt8, asciiLower (Char.ofNat b.toNat) = Char.ofNat m.toNat →
      (if 0x41 ≤ b ∧ b ≤ 0x5A then b + 0x20 else b) = m := by
    intro b m hbm
    have hlower := asciiLower_byte b.toNat b.toNat_lt
    rw [UInt8.ofNat_toNat, hbm] at hlower
    have hnat := congrArg Char.toNat hlower
    rw [toNat_ofNat (by have := (if 0x41 ≤ b ∧ b ≤ 0x5A then b + 0x20 else b).toNat_lt; omega),
      toNat_ofNat (by have := m.toNat_lt; omega)] at hnat
    exact UInt8.toNat_inj.1 hnat
  rw [← Bool.not_eq_true]
  intro hxn
  match label with
  | [] | [_] | [_, _] | [_, _, _] => simp [Wire.labelText, List.isPrefixOf] at hxn
  | a :: b :: c :: e :: rest =>
    have hprefix := List.isPrefixOf_iff_prefix.1 hxn
    have hxn : ['x', 'n', '-', '-'] <+: Wire.labelText (a :: b :: c :: e :: rest) := hprefix
    simp only [Wire.labelText, List.map_cons, List.cons_prefix_cons] at hxn
    obtain ⟨ha, hb, hc, he, -⟩ := hxn
    have hlower : (if 0x41 ≤ a ∧ a ≤ 0x5A then a + 0x20 else a) = 0x78 := hbyte a 0x78 ha.symm
    have hlower' : (if 0x41 ≤ b ∧ b ≤ 0x5A then b + 0x20 else b) = 0x6E := hbyte b 0x6E hb.symm
    have hhyphen : (if 0x41 ≤ c ∧ c ≤ 0x5A then c + 0x20 else c) = 0x2D := hbyte c 0x2D hc.symm
    have hhyphen' : (if 0x41 ≤ e ∧ e ≤ 0x5A then e + 0x20 else e) = 0x2D := hbyte e 0x2D he.symm
    simp [Wire.isPlainLabel, hlower, hlower', hhyphen, hhyphen'] at h

/-- The DNS crate leaves a plain label as it stands. -/
theorem RendersIdn.plain (hcodec : RendersIdn codec toUnicode) {label : Bytes}
    (h : Wire.isPlainLabel label = true) : toUnicode (Wire.labelText label) = none := by
  cases hu : toUnicode (Wire.labelText label) with
  | none => rfl
  | some u =>
    have hxn := hcodec.idn hu
    rw [labelText_eq, Text.toAsciiLowercase_toAsciiLowercase, ← labelText_eq, not_xn_of_plain h] at hxn
    cases hxn

/-- What the DNS crate writes, label by label. -/
theorem RendersIdn.toUtf8_eq (hcodec : RendersIdn codec toUnicode) (hne : n ≠ [])
    (hldh : ∀ l ∈ n, IsLdhLabel (Wire.labelText l)) :
    codec.toUtf8 n = ((n.map rawText).map fun l => (toUnicode l).getD l).flatMap (· ++ ['.']) := by
  rw [hcodec.written n hne hldh, List.flatMap_map, List.flatMap_map]

/-- The labels the DNS crate writes are not empty and have no dots. -/
theorem RendersIdn.dotless (hcodec : RendersIdn codec toUnicode) {l : Text} (hl : l ≠ [] ∧ '.' ∉ l) :
    (toUnicode l).getD l ≠ [] ∧ '.' ∉ (toUnicode l).getD l := by
  cases hu : toUnicode l with
  | none => exact hl
  | some u =>
    obtain ⟨hdot, c, hc, -⟩ := hcodec.unicode hu
    exact ⟨List.ne_nil_of_mem hc, hdot⟩

theorem Names.ne_nil (h : Names n d) : n ≠ [] := by
  rintro rfl
  exact d.ne_nil h.symm

theorem Names.ldh (h : Names n d) : ∀ l ∈ n, IsLdhLabel (Wire.labelText l) :=
  fun _ hl => d.ldh _ (h ▸ List.mem_map_of_mem hl)

/-- The lowercased name is the same name. -/
theorem Names.toLowercase (h : Names n d) : Names n.toLowercase d := by
  have hlower : n.toLowercase.map Wire.labelText = (n.map Wire.labelText).map Text.toAsciiLowercase := by
    rw [← map_rawText_toLowercase n, List.map_map]
    exact List.map_congr_left fun l _ => labelText_eq l
  rw [Names, hlower, List.map_map, ← h]
  refine List.map_congr_left fun l _ => ?_
  rw [Function.comp_apply, labelText_eq, Text.toAsciiLowercase_toAsciiLowercase]

/-- The fallback of `question` reads the name as the DNS crate writes it. -/
theorem RendersIdn.toUtf8_toLowercase (hcodec : RendersIdn codec toUnicode) (hn : Names n d) :
    (codec.toUtf8 n.toLowercase).trimEndMatches (· == '.') = rendered toUnicode d := by
  rw [hcodec.toUtf8_eq hn.toLowercase.ne_nil hn.toLowercase.ldh, map_rawText_toLowercase, hn]
  refine Text.trimEndMatches_flatMap_dot fun l hl => ?_
  obtain ⟨l', hl', rfl⟩ := List.mem_map.1 hl
  exact hcodec.dotless (d.labels_dotless l' hl')

/-- The wire and the DNS crate read a name of plain labels alike. -/
theorem RendersIdn.plainText_eq_rendered (hcodec : RendersIdn codec toUnicode) (hn : Names n d)
    (hplain : ∀ l ∈ n, PlainLabel l) : plainText n = rendered toUnicode d := by
  rw [plainText_eq, rendered, ← hn, List.map_map]
  refine congrArg Text.dotted (List.map_congr_left fun l hl => ?_)
  rw [Function.comp_apply, hcodec.plain (hplain l hl).2, Option.getD_none]

/-- **What a query is read as**: the name as the DNS crate writes it. -/
theorem question_asks (hcodec : RendersIdn codec toUnicode) (hn : Names n d) {raw : Bytes}
    (hasks : Asks codec raw n) :
    ∃ qtype, question codec raw = some (rendered toUnicode d, qtype) := by
  obtain ⟨stop, hstop⟩ := Option.isSome_iff_exists.1 hasks.ends
  have hheader : ¬ (raw.length < Wire.headerLen ∨ raw.readU16 4 = 0) := by
    rintro (h | h)
    · simp [Wire.questionEnd, h] at hstop
    · simp [Wire.questionEnd, h] at hstop
  unfold question Wire.question
  rw [if_neg hheader, hstop]
  cases hread : Wire.readNameLower raw Wire.headerLen with
  | some t =>
    obtain ⟨n', hname, hplain, rfl⟩ := readNameLower_spec hread
    obtain rfl := hname.unique hasks.wire
    exact ⟨_, congrArg (fun t => some (t, _)) (hcodec.plainText_eq_rendered hn hplain)⟩
  | none =>
    obtain ⟨m, q, hm, hq, hname⟩ := hasks.decoded hread
    refine ⟨q.queryType, ?_⟩
    simp only [hm, hq, Option.bind_eq_bind, Option.bind_some, hname]
    exact congrArg (fun t => some (t, q.queryType)) (hcodec.toUtf8_toLowercase hn)

/-- A name of which no label decodes is written as it stands. -/
theorem rendered_eq (h : ∀ l ∈ d.labels, toUnicode l = none) : rendered toUnicode d = d.text := by
  rw [rendered, LdhName.text]
  refine congrArg Text.dotted ((List.map_congr_left fun l hl => ?_).trans (List.map_id _))
  rw [h l hl, Option.getD_none, id_eq]

theorem toNat_lt_of_asciiLower {c : Char} (h : (97 ≤ (asciiLower c).toNat ∧ (asciiLower c).toNat ≤ 122) ∨
    (48 ≤ (asciiLower c).toNat ∧ (asciiLower c).toNat ≤ 57) ∨ asciiLower c = '-') : c.toNat < 128 := by
  have hlower := toNat_asciiLower c
  have hhyphen : '-'.toNat = 45 := rfl
  split at hlower
  · omega
  · rcases h with h | h | h
    · omega
    · omega
    · rw [h] at hlower
      omega

/-- Labels with a dot behind each, in lower case. -/
theorem toAsciiLowercase_flatMap_rawText (n : Dns.Name) :
    Text.toAsciiLowercase ((n.map rawText).flatMap (· ++ ['.'])) =
      (n.map Wire.labelText).flatMap (· ++ ['.']) := by
  rw [Text.toAsciiLowercase, List.map_flatMap, List.flatMap_map, List.flatMap_map]
  refine List.flatMap_congr fun l _ => ?_
  rw [List.map_append, labelText_eq]
  rfl

/-- **What a CNAME target is read as**, if none of its labels decodes. -/
theorem spell_names (hcodec : RendersIdn codec toUnicode) (hn : Names n d)
    (h : ∀ l ∈ d.labels, toUnicode l = none) : codec.spell n = d.text := by
  have hraw : ∀ l ∈ n, toUnicode (rawText l) = none := by
    intro l hl
    cases hu : toUnicode (rawText l) with
    | none => rfl
    | some u =>
      have hmem : Wire.labelText l ∈ d.labels := hn ▸ List.mem_map_of_mem hl
      have hsome := hcodec.caseless hu
      rw [← labelText_eq, h _ hmem] at hsome
      cases hsome
  have hutf8 : codec.toUtf8 n = (n.map rawText).flatMap (· ++ ['.']) := by
    rw [hcodec.toUtf8_eq hn.ne_nil hn.ldh, List.map_map, List.flatMap_map, List.flatMap_map]
    refine List.flatMap_congr fun l hl => ?_
    rw [Function.comp_apply, hraw l hl, Option.getD_none]
  have hascii : ∀ c ∈ codec.toUtf8 n, c.toNat < 128 := by
    intro c hc
    rw [hutf8] at hc
    obtain ⟨l, hl, hc⟩ := List.mem_flatMap.1 hc
    rcases List.mem_append.1 hc with hc | hc
    · obtain ⟨label, hlabel, rfl⟩ := List.mem_map.1 hl
      have hmem : asciiLower c ∈ Wire.labelText label := labelText_eq label ▸ List.mem_map_of_mem hc
      exact toNat_lt_of_asciiLower ((hn.ldh label hlabel).chars _ hmem)
    · rw [List.mem_singleton.1 hc]
      decide
  rw [Codec.spell, hcodec.lowered _ hascii, hutf8, toAsciiLowercase_flatMap_rawText, hn, LdhName.text]
  exact Text.trimEndMatches_flatMap_dot d.labels_dotless

end

/-! ## Every place -/

/-- An answer that walks cleanly, with an alias to the name. -/
def Aliases (bytes : Bytes) (d : LdhName) : Prop :=
  ∃ rs r n, Wire.walk bytes = some (rs, true) ∧ r ∈ cnames bytes ∧ NameAt bytes r.rdataOff n ∧ Names n d

/-- The name is blocked wherever the program meets it: a query for it, an answer with an alias
to it, a ClientHello and a request that name it. -/
structure BlockedEverywhere (codec : Codec) (lists : Dns.Lists CompiledProfile)
    (profile : Option CompiledProfile) (d : LdhName) (bytes : Bytes) : Prop where
  query : ∀ {raw n}, Names n d → Asks codec raw n →
    ∃ name qtype, question codec raw = some (name, qtype) ∧ lists.shouldBlockFor name profile = true
  cname : ∀ {queried}, lists.isAllowedFor queried profile = false →
    (cnameBlockedTarget codec lists bytes queried profile).isSome = true
  sni : ∀ {hello : Hello} {t : Text} (tail : Bytes), Spells t d → hello.Fits t.toBytes →
    ∃ host, parseSni (hello.encode t.toBytes ++ tail) = .found host ∧
      lists.shouldBlockFor host profile = true
  http : ∀ {request : Request} {t before port after : Text}, Spells t d →
    (∀ c ∈ before, isWhitespace c = true) → (∀ c ∈ after, isWhitespace c = true) → IsPort port →
    request.Valid (before ++ ((t ++ port) ++ after)) →
    ∃ host, parseHttpHost (request.encode (before ++ ((t ++ port) ++ after))) = .found host ∧
      lists.shouldBlockFor host profile = true

section

variable {d : LdhName} {codec : Codec} {toUnicode : Text → Option Text}
  {lists : Dns.Lists CompiledProfile} {profile : Option CompiledProfile}

/-- If none of its labels decodes, the check on an answer with an alias to a blocked name
turns on what it sees of the answer. -/
theorem cname_blocked_iff (hcodec : RendersIdn codec toUnicode) (hkeeps : codec.KeepsTargets)
    (h : ∀ l ∈ d.labels, toUnicode l = none) (hblocked : lists.shouldBlockFor d.text profile = true)
    {bytes : Bytes} (halias : Aliases bytes d) {queried : Text}
    (hallowed : lists.isAllowedFor queried profile = false) :
    (cnameBlockedTarget codec lists bytes queried profile).isSome ↔ Seen codec lists profile bytes := by
  obtain ⟨rs, r, n, hwalk, hr, hname, hn⟩ := halias
  exact cnameBlockedTarget_isSome_iff hkeeps hwalk hallowed
    ⟨r, hr, n, hname, spell_names hcodec hn h ▸ hblocked⟩

/-- If none of its labels decodes, every place reads the one spelling. -/
theorem blockedEverywhere_of_seen (hcodec : RendersIdn codec toUnicode) (hkeeps : codec.KeepsTargets)
    (h : ∀ l ∈ d.labels, toUnicode l = none) (hblocked : lists.shouldBlockFor d.text profile = true)
    {bytes : Bytes} (halias : Aliases bytes d) (hseen : Seen codec lists profile bytes) :
    BlockedEverywhere codec lists profile d bytes where
  query hn hasks := by
    obtain ⟨qtype, hquestion⟩ := question_asks hcodec hn hasks
    exact ⟨_, qtype, hquestion, rendered_eq h ▸ hblocked⟩
  cname hallowed := (cname_blocked_iff hcodec hkeeps h hblocked halias hallowed).2 hseen
  sni tail hspells hfits :=
    ⟨_, parseSni_encode hfits hspells.ne_nil tail, hspells.hostText_eq ▸ hblocked⟩
  http hspells hbefore hafter hport hvalid := by
    have hhost := hostWithoutPort_eq hbefore hafter hspells.ne_nil hspells.mem_host hport
    rw [hspells.hostText_eq] at hhost
    exact ⟨_, parseHttpHost_encode hvalid (hhost ▸ d.text_ne_nil), hhost ▸ hblocked⟩

/-- A name of which a label decodes is no longer itself, nor a name below it. -/
theorem not_covers_rendered (hcodec : RendersIdn codec toUnicode) {l : Text} (hl : l ∈ d.labels)
    (hu : (toUnicode l).isSome = true) (env : Crates) : ¬ Covers env (rendered toUnicode d) d.text := by
  rintro (heq | ⟨⟨pre, hpre⟩, -⟩)
  · -- the label has a character that no name has
    obtain ⟨u, hu⟩ := Option.isSome_iff_exists.1 hu
    obtain ⟨-, c, hc, hnat⟩ := hcodec.unicode hu
    have hmem : c ∈ d.text := by
      rw [heq, rendered]
      refine Text.mem_dotted_of_mem (List.mem_map.2 ⟨l, hl, rfl⟩) ?_
      rwa [hu, Option.getD_some]
    have hhyphen : '-'.toNat = 45 := rfl
    have hdot : '.'.toNat = 46 := rfl
    rcases LdhName.mem_text hmem with h | h | rfl | rfl <;> omega
  · -- both have as many dots as they have labels, less one
    have hdots : (rendered toUnicode d).count '.' = d.labels.length - 1 := by
      rw [rendered, Text.count_dotted, List.length_map]
      intro l' hl'
      obtain ⟨l, hl, rfl⟩ := List.mem_map.1 hl'
      exact (hcodec.dotless (d.labels_dotless l hl)).2
    have hdots' : d.text.count '.' = d.labels.length - 1 :=
      Text.count_dotted fun l hl => (d.labels_dotless l hl).2
    have hcount := congrArg (List.count '.') hpre
    rw [hdots, List.count_append, List.count_cons_self, hdots'] at hcount
    omega

/-- No cached verdict for the profile differs from that of the lists. -/
def Fresh {C : Type} (env : Crates) (b : Filtering C) (now : ℕ) (profile : Option CompiledProfile) :
    Prop :=
  ∀ {domain v}, ((profile.elim b.cache CompiledProfile.cache).get domain now).1 = some v →
    v = checkBlockedIn env b.sets domain (profile.elim b.sets.block fun p => p.rules.fst)

theorem Fresh.shouldBlockFor_eq {C : Type} {env : Crates} {b : Filtering C} {now : ℕ}
    (h : Fresh env b now profile) (domain : Blocklist.Name) :
    b.shouldBlockFor env now domain profile =
      shouldBlockUncached env b.sets domain (profile.map CompiledProfile.rules) := by
  have hlists : b.isBlockedFor env now domain profile =
      checkBlockedIn env b.sets domain (profile.elim b.sets.block fun p => p.rules.fst) := by
    unfold Filtering.isBlockedFor
    dsimp only
    cases hget : ((profile.elim b.cache CompiledProfile.cache).get domain now).1 with
    | none => rw [Option.getD_none]
    | some v => rw [Option.getD_some, h hget]
  rw [Filtering.shouldBlockFor, shouldBlockUncached, hlists]
  cases profile <;> rfl

/-- Nothing but the name, in the manual blacklist. -/
def onlyListed (env : Crates) (d : LdhName) : Sets :=
  ⟨.fromEntries env [d.text], ⟨∅, []⟩, ⟨[], ∅⟩, ∅, ∅, []⟩

theorem fromEntries_text (env : Crates) (d : LdhName) :
    ManualList.fromEntries env [d.text] = ⟨{d.text}, []⟩ := by
  rw [ManualList.fromEntries, List.foldl_cons, List.foldl_nil, ManualList.seed,
    d.spells_text.normalise_eq, d.isPattern_eq_false]
  rfl

theorem listed_onlyListed (isAlphanumeric : Char → Bool) (env : Crates) (d : LdhName) :
    Listed isAlphanumeric env (onlyListed env d) none d :=
  .configured (List.mem_singleton_self _) d.spells_text rfl

/-- Without a profile, a whitelist and allowlists nothing is allowed. -/
theorem notAllowed_of_empty {s : Sets} (hwhitelist : s.whitelist = ⟨∅, []⟩) (hallow : s.allow = ∅)
    (env : Crates) (name : Text) : NotAllowed env s none name where
  byProfile := nofun
  byWhitelist := by
    rintro ((⟨k, hk, -⟩ | ⟨re, hre, -⟩) | ⟨k, hk, -⟩)
    · rw [hwhitelist] at hk
      exact absurd hk (Finset.notMem_empty k)
    · rw [hwhitelist] at hre
      cases hre
    · have hmap : allowMap s none = ∅ := hallow
      rw [hmap] at hk
      exact absurd hk (Finset.notMem_empty k)

/-- With one name listed, only what it covers is blocked. -/
theorem shouldBlockUncached_onlyListed {env : Crates} {name : Text} (h : ¬ Covers env name d.text) :
    shouldBlockUncached env (onlyListed env d) name none = false := by
  have hallowed : NotAllowed env (onlyListed env d) none name := notAllowed_of_empty rfl rfl env name
  refine shouldBlockUncached_iff.2 (.later hallowed.byProfile (.later nofun (.later hallowed.byWhitelist
    (.later (fun hdeny => hdeny.1) (.later ?_ (.here trivial))))))
  rintro ((⟨k, hk, hc⟩ | ⟨re, hre, -⟩) | ⟨k, hk, -⟩ | ⟨k, hk, -⟩)
  · rw [onlyListed, fromEntries_text] at hk
    exact h (Finset.mem_singleton.1 hk ▸ hc)
  · rw [onlyListed, fromEntries_text] at hre
    cases hre
  · exact absurd hk (Finset.notMem_empty k)
  · exact absurd hk (Finset.notMem_empty k)

/-- A name that is listed and that nothing allows, in an engine without old verdicts. -/
structure Stands {C : Type} (isAlphanumeric : Char → Bool) (env : Crates) (b : Filtering C) (now : ℕ)
    (profile : Option CompiledProfile) (d : LdhName) : Prop where
  fresh : Fresh env b now profile
  listed : Listed isAlphanumeric env b.sets (profile.map CompiledProfile.rules) d
  notAllowed : NotAllowed env b.sets (profile.map CompiledProfile.rules) d.text

section

variable {C : Type} {isAlphanumeric : Char → Bool} {env : Crates} {b : Filtering C} {now : ℕ}

/-- The engine blocks it, however it is asked. -/
theorem Stands.blocked (hA : AsciiAlphanumeric isAlphanumeric)
    (h : Stands isAlphanumeric env b now profile d) : b.shouldBlockFor env now d.text profile = true :=
  (Fresh.shouldBlockFor_eq h.fresh _).trans (blocked_of_listed hA h.listed h.notAllowed)

/-- The engine does not allow it. -/
theorem Stands.isAllowedFor_eq (h : Stands isAlphanumeric env b now profile d) :
    b.isAllowedFor env d.text profile = false := by
  have hprofile : (profile.any fun p => p.rules.allows env d.text) = false := by
    rw [← Bool.not_eq_true]
    intro hallows
    refine h.notAllowed.byProfile (profileAllow_iff.1 ?_)
    rwa [Option.any_map]
  rw [Filtering.isAllowedFor, hprofile, Bool.false_or, ← Bool.not_eq_true, whitelisted_iff]
  exact h.notAllowed.byWhitelist

/-- The engine that has just the name. -/
theorem stands_onlyListed (isAlphanumeric : Char → Bool) (env : Crates) (now : ℕ) (d : LdhName) :
    Stands isAlphanumeric env (Filtering.new true [] [] (onlyListed env d) 0 0 : Filtering C) now none d :=
  ⟨nofun, listed_onlyListed isAlphanumeric env d, notAllowed_of_empty rfl rfl env d.text⟩

end

/-- **A listed name is blocked at every place if and only if none of its labels decodes** and
the CNAME check sees through the answer with the alias.  If none decodes, the second condition
decides for each engine on its own. -/
theorem blocked_everywhere_iff {C : Type} {isAlphanumeric : Char → Bool}
    (hA : AsciiAlphanumeric isAlphanumeric) (env : Crates) (hcodec : RendersIdn codec toUnicode)
    (hkeeps : codec.KeepsTargets) (hasked : ∃ raw n, Names n d ∧ Asks codec raw n) (now : ℕ)
    (safeSearch : Text → Option CompiledProfile → Option Text) (answer : BlockAnswer) {bytes : Bytes}
    (halias : Aliases bytes d) :
    ((∀ (b : Filtering C) profile, Stands isAlphanumeric env b now profile d →
        BlockedEverywhere codec (view env b now safeSearch answer) profile d bytes) ↔
      (∀ l ∈ d.labels, toUnicode l = none) ∧
        ∀ (b : Filtering C) profile, Stands isAlphanumeric env b now profile d →
          Seen codec (view env b now safeSearch answer) profile bytes) ∧
    ((∀ l ∈ d.labels, toUnicode l = none) →
      ∀ (b : Filtering C) profile, Stands isAlphanumeric env b now profile d →
        (BlockedEverywhere codec (view env b now safeSearch answer) profile d bytes ↔
          Seen codec (view env b now safeSearch answer) profile bytes)) := by
  have hexact : (∀ l ∈ d.labels, toUnicode l = none) →
      ∀ (b : Filtering C) profile, Stands isAlphanumeric env b now profile d →
        (BlockedEverywhere codec (view env b now safeSearch answer) profile d bytes ↔
          Seen codec (view env b now safeSearch answer) profile bytes) := by
    intro h b profile hstands
    have hblocked : (view env b now safeSearch answer).shouldBlockFor d.text profile = true :=
      hstands.blocked hA
    have hallowed : (view env b now safeSearch answer).isAllowedFor d.text profile = false :=
      hstands.isAllowedFor_eq
    exact ⟨fun hplaces => (cname_blocked_iff hcodec hkeeps h hblocked halias hallowed).1
        (hplaces.cname hallowed),
      blockedEverywhere_of_seen hcodec hkeeps h hblocked halias⟩
  refine ⟨⟨fun h => ?_, fun ⟨h, hseen⟩ b profile hstands =>
    (hexact h b profile hstands).2 (hseen b profile hstands)⟩, hexact⟩
  have hlabels : ∀ l ∈ d.labels, toUnicode l = none := by
    intro l hl
    by_contra hu
    have hsome : (toUnicode l).isSome = true := Option.isSome_iff_ne_none.2 hu
    -- the engine that has just the name, and a query for it
    have hstands := stands_onlyListed (C := C) isAlphanumeric env now d
    obtain ⟨raw, n, hn, hasks⟩ := hasked
    obtain ⟨name, qtype, hquestion, hblocked⟩ := (h _ none hstands).query hn hasks
    obtain ⟨qtype', hquestion'⟩ := question_asks hcodec hn hasks
    obtain ⟨rfl, -⟩ := Prod.mk.inj (Option.some.inj (hquestion'.symm.trans hquestion))
    have hpasses := shouldBlockUncached_onlyListed (not_covers_rendered hcodec hl hsome env)
    have hlists := Fresh.shouldBlockFor_eq hstands.fresh (rendered toUnicode d)
    exact Bool.false_ne_true (hpasses.symm.trans (hlists.symm.trans hblocked))
  exact ⟨hlabels, fun b profile hstands => (hexact hlabels b profile hstands).1 (h b profile hstands)⟩

end

namespace Idn

/-- A decoder that knows one label. -/
def toUnicode (l : Text) : Option Text :=
  if l = "xn--mnchen-3ya".toList then some "münchen".toList else none

/-- The DNS crate on the messages of a table. -/
def codecOf (rows : List (Bytes × Message)) : Codec :=
  { Codec.ofRows rows with
    toUtf8 := fun n => n.flatMap fun l => (toUnicode (rawText l)).getD (rawText l) ++ ['.']
    strToLowercase := Text.toAsciiLowercase }

theorem toUnicode_eq_some {l u : Text} (h : toUnicode l = some u) :
    l = "xn--mnchen-3ya".toList ∧ u = "münchen".toList := by
  unfold toUnicode at h
  split at h
  · exact ⟨‹_›, (Option.some.inj h).symm⟩
  · cases h

theorem rendersIdn (rows : List (Bytes × Message)) : RendersIdn (codecOf rows) toUnicode where
  written _ _ _ := rfl
  lowered _ _ := rfl
  idn h := by
    obtain ⟨rfl, -⟩ := toUnicode_eq_some h
    decide
  unicode h := by
    obtain ⟨-, rfl⟩ := toUnicode_eq_some h
    exact ⟨by decide, 'ü', by decide, by decide⟩
  caseless h := by
    obtain ⟨rfl, -⟩ := toUnicode_eq_some h
    decide

theorem keepsTargets {rows : List (Bytes × Message)}
    (h : ∀ row ∈ rows, Wire.isWellFormed row.1 = true ∧ cnames row.1 = [] ∧ row.2.cnameTargets = []) :
    (codecOf rows).KeepsTargets where
  decoded := (keepsTargets_ofRows h).decoded
  encoded := (keepsTargets_ofRows h).encoded
  plain n hn := by
    have hutf8 : (codecOf rows).toUtf8 n = (n.map rawText).flatMap (· ++ ['.']) := by
      rw [List.flatMap_map]
      refine List.flatMap_congr fun l hl => ?_
      have hnone : toUnicode (rawText l) = none := by
        cases hu : toUnicode (rawText l) with
        | none => rfl
        | some u =>
          have hsome := (rendersIdn rows).caseless hu
          rw [← labelText_eq, (rendersIdn rows).plain (hn l hl).2] at hsome
          cases hsome
      rw [hnone, Option.getD_none]
    have hlower : (codecOf rows).strToLowercase ((codecOf rows).toUtf8 n) =
        (n.map Wire.labelText).flatMap (· ++ ['.']) := by
      rw [hutf8]
      exact toAsciiLowercase_flatMap_rawText n
    rw [Codec.spell, hlower, plainText_eq]
    refine Text.trimEndMatches_flatMap_dot fun l hl => ?_
    obtain ⟨label, hlabel, rfl⟩ := List.mem_map.1 hl
    exact ⟨labelText_ne_nil (hn label hlabel), dot_notMem_labelText (hn label hlabel)⟩

/-- The name of these labels on the wire. -/
def nameOf (d : LdhName) : Dns.Name := d.labels.map fun l => l.map fun c => UInt8.ofNat c.toNat

/-- The labels of a name, each behind its length. -/
def encode (n : Dns.Name) : Bytes := n.flatMap fun l => UInt8.ofNat l.length :: l

/-- The name is where its labels are. -/
theorem nameAt_encode {n : Dns.Name} (h : ∀ l ∈ n, l ≠ [] ∧ l.length ≤ 63) (pre post : Bytes) :
    NameAt (pre ++ (encode n ++ 0 :: post)) pre.length n :=
  nameAt_labels h pre post

/-- A query for its address. -/
def query (d : LdhName) : Bytes :=
  [0x12, 0x34, 1, 0, 0, 1, 0, 0, 0, 0, 0, 0] ++ (encode (nameOf d) ++ 0 :: [0, 1, 0, 1])

/-- The query, decoded. -/
def decoded (d : LdhName) : Message :=
  { Example.decoded false 1 none with queries := [⟨nameOf d, 1, 1⟩] }

theorem isLdhLabel_of_all {l : Text} (hne : l ≠ []) (hshort : l.length ≤ 63)
    (hall : (l.all fun c => decide ((97 ≤ c.toNat ∧ c.toNat ≤ 122) ∨ (48 ≤ c.toNat ∧ c.toNat ≤ 57) ∨
      c = '-')) = true) (hends : l.head? ≠ some '-' ∧ l.getLast? ≠ some '-') : IsLdhLabel l :=
  ⟨hne, hshort, fun c hc => of_decide_eq_true (List.all_eq_true.1 hall c hc), hends.1, hends.2⟩

/-- `ads.example`. -/
def ads : LdhName where
  labels := ["ads".toList, "example".toList]
  ne_nil := by decide
  ldh := by
    intro l hl
    rcases List.mem_pair.1 hl with rfl | rfl <;>
      exact isLdhLabel_of_all (by decide) (by decide) (by decide) (by decide)
  short := by decide

/-- `münchen.de`, as it is registered. -/
def munich : LdhName where
  labels := ["xn--mnchen-3ya".toList, "de".toList]
  ne_nil := by decide
  ldh := by
    intro l hl
    rcases List.mem_pair.1 hl with rfl | rfl <;>
      exact isLdhLabel_of_all (by decide) (by decide) (by decide) (by decide)
  short := by decide

def codec : Codec := codecOf [(query ads, decoded ads), (query munich, decoded munich)]

theorem keepsTargets_codec : codec.KeepsTargets := keepsTargets (by decide)

theorem asks_ads : Names (nameOf ads) ads ∧ Asks codec (query ads) (nameOf ads) :=
  ⟨by decide, fun _ => ⟨decoded ads, ⟨nameOf ads, 1, 1⟩, by decide, rfl, rfl⟩,
    nameAt_encode (by decide) _ _, by decide⟩

theorem asks_munich : Names (nameOf munich) munich ∧ Asks codec (query munich) (nameOf munich) :=
  ⟨by decide, fun _ => ⟨decoded munich, ⟨nameOf munich, 1, 1⟩, by decide, rfl, rfl⟩,
    nameAt_encode (by decide) _ _, by decide⟩

/-- The engine with the name alone in its blacklist. -/
def engine (d : LdhName) : Filtering Unit := .new true [] [] (onlyListed Blocklist.Example.env d) 0 0

/-- What both pipelines see of it. -/
def lists (d : LdhName) : Dns.Lists CompiledProfile :=
  view Blocklist.Example.env (engine d) 0 (fun _ _ => none) ⟨.nxdomain, none, none⟩

/-- A hosts file that names `ads.example`. -/
def hostsFile : Text := "# ads\n0.0.0.0 Ads.Example.\n".toList

/-- The engine with the hosts file alone. -/
def listEngine : Filtering Unit :=
  .new true [] [] ⟨⟨∅, []⟩, ⟨∅, []⟩, ⟨[], ∅⟩,
    buildFst (parseContent Char.isAlphanum hostsFile .block).1, ∅, []⟩ 0 0

/-- The data of an alias to the name. -/
def target (d : LdhName) : Bytes := Cloaked.record 5 (encode (nameOf d) ++ [0])

/-- `x` is an alias of `ads.example`. -/
def aliased : Bytes := Cloaked.answer [target ads]

/-- Before that, an alias whose label has a dot in it, and an address of three bytes. -/
def smuggled : Bytes :=
  Cloaked.answer [Cloaked.record 5 [3, 0x61, 0x2E, 0x62, 0], Cloaked.record 1 [192, 0, 2], target ads]

/-- An answer that ends with an alias to a name. -/
theorem aliases_of_last {bytes : Bytes} {d : LdhName} {i : ℕ} {r : Wire.RecordRef}
    (hformed : Wire.isWellFormed bytes = true) (hr : r ∈ cnames bytes) (hi : r.rdataOff = i)
    (hbytes : bytes = bytes.take i ++ (encode (nameOf d) ++ [0])) (hlen : (bytes.take i).length = i)
    (hlabels : ∀ l ∈ nameOf d, l ≠ [] ∧ l.length ≤ 63) (hn : Names (nameOf d) d) : Aliases bytes d := by
  obtain ⟨rs, hwalk⟩ := Wire.isWellFormed_iff.1 hformed
  refine ⟨rs, r, nameOf d, hwalk, hr, ?_, hn⟩
  have hname := nameAt_encode hlabels (bytes.take i) []
  rwa [hlen, ← hbytes, ← hi] at hname

theorem aliases_aliased : Aliases aliased ads :=
  aliases_of_last (by decide +kernel) (r := ⟨.answer, 5, 1, 25, 31, 13⟩) (by decide +kernel) rfl
    (by decide) (by decide) (by decide) (by decide)

theorem aliases_smuggled : Aliases smuggled ads :=
  aliases_of_last (by decide +kernel) (r := ⟨.answer, 5, 1, 57, 63, 13⟩) (by decide +kernel) rfl
    (by decide) (by decide) (by decide) (by decide)

theorem listsName_ads : ListsName hostsFile ads :=
  ⟨.hosts, by decide +kernel, "0.0.0.0 Ads.Example.".toList, by decide +kernel, "Ads.Example.".toList,
    by decide +kernel, ⟨['.'], Or.inr rfl, by decide⟩, ⟨by decide, by decide, fun _ => by decide⟩, nofun⟩

end Idn

open Idn in
/-- A hosts file that names `ads.example` blocks it at every place. -/
theorem blocked_everywhere_ads :
    BlockedEverywhere codec (view Blocklist.Example.env listEngine 0 (fun _ _ => none)
      ⟨.nxdomain, none, none⟩) none ads aliased :=
  ((blocked_everywhere_iff (fun _ _ => rfl) Blocklist.Example.env (rendersIdn _) keepsTargets_codec
    ⟨_, _, asks_ads⟩ 0 _ _ aliases_aliased).2 (by decide +kernel) listEngine none
    ⟨nofun, .list listsName_ads (Finset.Subset.refl _), notAllowed_of_empty rfl rfl _ ads.text⟩).2
    (by decide +kernel)

open Idn in
/-- A query for `xn--mnchen-3ya.de` is looked up as `münchen.de`: with the name in the
blacklist, it passes.  Behind a name the walk cannot spell, in an answer the DNS crate refuses,
so does an alias to `ads.example`. -/
theorem idn_query_passes :
    (Stands Char.isAlphanum Blocklist.Example.env (engine munich) 0 none munich ∧
      Asks codec (query munich) (nameOf munich) ∧
      question codec (query munich) = some ("münchen.de".toList, 1) ∧
      (lists munich).shouldBlockFor "münchen.de".toList none = false ∧
      (lists munich).shouldBlockFor "xn--mnchen-3ya.de".toList none = true ∧
      ∀ bytes, ¬ BlockedEverywhere codec (lists munich) none munich bytes) ∧
    Stands Char.isAlphanum Blocklist.Example.env (engine ads) 0 none ads ∧ Aliases smuggled ads ∧
      (lists ads).isAllowedFor ['x'] none = false ∧
      cnameBlockedTarget codec (lists ads) smuggled ['x'] none = none := by
  have hquestion : question codec (query munich) = some ("münchen.de".toList, 1) := by decide +kernel
  have hpasses : (lists munich).shouldBlockFor "münchen.de".toList none = false := by decide +kernel
  refine ⟨⟨stands_onlyListed _ _ 0 munich, asks_munich.2, hquestion, hpasses, by decide +kernel,
    fun bytes h => ?_⟩, stands_onlyListed _ _ 0 ads, aliases_smuggled, by decide +kernel,
    by decide +kernel⟩
  obtain ⟨name, qtype, hread, hblocked⟩ := h.query asks_munich.1 asks_munich.2
  obtain ⟨rfl, -⟩ := Prod.mk.inj (Option.some.inj (hquestion.symm.trans hread))
  exact Bool.false_ne_true (hpasses.symm.trans hblocked)

end Ferrite.App
