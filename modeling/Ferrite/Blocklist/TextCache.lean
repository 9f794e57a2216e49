import Mathlib.Data.List.Sort
import Ferrite.Blocklist.ListNames

/-!
# The domain cache of a list

`save_text_cache` and `load_fresh_text_cache` of `blocklist/src/refresh.rs`, and
`DomainSet::from_lines`.  The domains are written with newlines between them, 64 KiB at a time,
to a temporary file that replaces the cache by a rename; what is read becomes the one chunk of
a set, whose spans are those of its lines.

* `saveTextCache_path` — the cache is the joined domains, or what it was if a step failed;
* `fromLines_holds` — the lines of a file of at most `u32::MAX` bytes are read back;
* `text_cache_loses_nothing` — both, for the set that a list parser gives;
* `long_cache_loses_names` — of a longer file the names past the limit are lost.
-/

namespace Ferrite.Blocklist

/-! ## Reading -/

/-- The spans of the lines that start at an offset: without a `\r` at their end, if they are not
blank and end below the limit. -/
def lineSpans : (offset : ℕ) → List Bytes → List (UInt32 × UInt32)
  | _, [] => []
  | start, line :: lines =>
    let rest := lineSpans (start + line.length + 1) lines
    let line := if line.getLast? = some 13 then line.dropLast else line
    if line ≠ [] ∧ start + line.length ≤ maxTextBytes then
      (UInt32.ofNat start, UInt32.ofNat (start + line.length)) :: rest
    else rest

/-- `DomainSet::from_lines`. -/
def DomainSet.fromLines (text : Bytes) : DomainSet :=
  ⟨[text], max text.length 1, lineSpans 0 (text.splitOn 10)⟩

/-- `load_fresh_text_cache`, of a file that may be too old. -/
def loadFreshTextCache (fresh : Bool) (file : Option Bytes) : Option DomainSet := do
  let bytes ← if fresh then file else none
  let _ ← fromUtf8 bytes
  let domains := DomainSet.fromLines bytes
  if domains.spans = [] then none else some domains

/-! ## Writing -/

/-- The cache file and its temporary sibling. -/
structure TextFiles where
  path : Option Bytes
  temp : Option Bytes
deriving DecidableEq, Repr

/-- How the steps of a save end.  A write that fails has written some bytes. -/
structure SaveFates where
  create : Bool
  write : ℕ → Option ℕ
  flush : Bool
  rename : Bool
  remove : Bool

/-- `CHUNK_BYTES` of `save_text_cache`. -/
def writeBytes : ℕ := 64 * 1024

/-- The state of the loop: the chunk, what is in the file, how many writes were made, and
whether one failed. -/
structure Writer where
  chunk : Bytes
  file : Bytes
  writes : ℕ
  failed : Bool
deriving DecidableEq, Repr

namespace Writer

variable (write : ℕ → Option ℕ)

/-- `file.write_all(chunk)`. -/
def writeAll (w : Writer) : Writer :=
  match write w.writes with
  | none => { w with file := w.file ++ w.chunk, writes := w.writes + 1 }
  | some k => { w with file := w.file ++ w.chunk.take k, writes := w.writes + 1, failed := true }

/-- The loop over the domains from the `i`-th on; a write that fails ends it. -/
def loop : (i : ℕ) → Writer → List Bytes → Writer
  | _, w, [] => w
  | i, w, domain :: domains =>
    let w := { w with chunk := (if 0 < i then w.chunk ++ [10] else w.chunk) ++ domain }
    if writeBytes ≤ w.chunk.length then
      let w := w.writeAll write
      if w.failed then w else loop (i + 1) { w with chunk := [] } domains
    else loop (i + 1) w domains

/-- All writes of a save. -/
def run (domains : List Bytes) : Writer :=
  let w := loop write 0 ⟨[], [], 0, false⟩ domains
  if w.failed then w else w.writeAll write

end Writer

/-- `save_text_cache`. -/
def saveTextCache (fates : SaveFates) (domains : DomainSet) (dir : TextFiles) : TextFiles :=
  if fates.create then
    let w := Writer.run fates.write domains.iter
    let left := if fates.remove then none else some w.file
    if w.failed || !fates.flush then { dir with temp := left }
    else if fates.rename then { path := some w.file, temp := none }
    else { dir with temp := left }
  else dir

/-- The domains with newlines between them. -/
def joined (domains : List Bytes) : Bytes := [10].intercalate domains

/-! ## What is written -/

namespace Writer

variable {write : ℕ → Option ℕ}

/-- The text that is still to come after `i` domains. -/
def ahead (i : ℕ) (domains : List Bytes) : Bytes :=
  if 0 < i then domains.flatMap (10 :: ·) else joined domains

theorem joined_cons (domain : Bytes) (domains : List Bytes) :
    joined (domain :: domains) = domain ++ domains.flatMap (10 :: ·) := by
  unfold joined
  induction domains generalizing domain with
  | nil => simp
  | cons d domains ih => rw [List.intercalate_cons_cons, ih, List.flatMap_cons]; simp

theorem ahead_cons (i : ℕ) (domain : Bytes) (domains : List Bytes) :
    ahead i (domain :: domains) = (if 0 < i then [10] else []) ++ domain ++ ahead (i + 1) domains := by
  unfold ahead
  rw [if_pos (Nat.succ_pos i)]
  by_cases hi : 0 < i
  · rw [if_pos hi, if_pos hi, List.flatMap_cons]
    simp
  · rw [if_neg hi, if_neg hi, joined_cons]
    simp

/-- A writer that has not failed has made all its writes; one that has did one in vain. -/
structure Sound (write : ℕ → Option ℕ) (w : Writer) : Prop where
  done : w.failed = false → ∀ i < w.writes, write i = none
  lost : w.failed = true → ∃ i < w.writes, write i ≠ none

theorem Sound.writeAll {w : Writer} (h : w.Sound write) (hok : w.failed = false) :
    (w.writeAll write).Sound write ∧
      ((w.writeAll write).failed = false → (w.writeAll write).file = w.file ++ w.chunk) := by
  unfold Writer.writeAll
  cases hw : write w.writes with
  | none =>
    refine ⟨⟨fun _ i hi => ?_, fun hf => ?_⟩, fun _ => rfl⟩
    · rcases Nat.lt_succ_iff_lt_or_eq.1 hi with hi | rfl
      · exact h.done hok i hi
      · exact hw
    · rw [hok] at hf
      cases hf
  | some k =>
    refine ⟨⟨nofun, fun _ => ⟨w.writes, Nat.lt_succ_self _, ?_⟩⟩, nofun⟩
    rw [hw]
    exact Option.some_ne_none k

/-- The loop writes the text that is ahead, or fails. -/
theorem Sound.loop {w : Writer} (h : w.Sound write) (hok : w.failed = false) (i : ℕ)
    (domains : List Bytes) :
    (Writer.loop write i w domains).Sound write ∧
      ((Writer.loop write i w domains).failed = false →
        (Writer.loop write i w domains).file ++ (Writer.loop write i w domains).chunk =
          w.file ++ w.chunk ++ ahead i domains) := by
  induction domains generalizing w i with
  | nil =>
    have hnil : ahead i [] = [] := by unfold ahead joined; split <;> rfl
    rw [hnil, List.append_nil]
    exact ⟨h, fun _ => rfl⟩
  | cons domain domains ih =>
    rw [ahead_cons]
    unfold Writer.loop
    dsimp only
    generalize hchunk : (if 0 < i then w.chunk ++ [10] else w.chunk) ++ domain = chunk
    have hchunk' : chunk = w.chunk ++ ((if 0 < i then [10] else []) ++ domain) := by
      rw [← hchunk]
      split <;> simp
    have hnext : ({ w with chunk := chunk } : Writer).Sound write := ⟨h.done, h.lost⟩
    split
    · obtain ⟨hwrote, hfile⟩ := hnext.writeAll hok
      split
      · rename_i hfailed
        refine ⟨hwrote, fun hno => ?_⟩
        rw [hfailed] at hno
        cases hno
      · rename_i hfine
        rw [Bool.not_eq_true] at hfine
        obtain ⟨hsound, htext⟩ := ih (w := { ({ w with chunk := chunk } : Writer).writeAll write with chunk := [] })
          ⟨hwrote.done, hwrote.lost⟩ hfine (i + 1)
        refine ⟨hsound, fun hend => ?_⟩
        rw [htext hend, hfile hfine, hchunk']
        simp
    · obtain ⟨hsound, htext⟩ := ih hnext hok (i + 1)
      refine ⟨hsound, fun hend => ?_⟩
      rw [htext hend, hchunk']
      simp

/-- **The writes put the joined domains into the file**, if none of them fails. -/
theorem run_spec (write : ℕ → Option ℕ) (domains : List Bytes) :
    (run write domains).Sound write ∧
      ((run write domains).failed = false → (run write domains).file = joined domains) := by
  have hstart : Sound write ⟨[], [], 0, false⟩ := ⟨fun _ i hi => absurd hi (Nat.not_lt_zero i), nofun⟩
  obtain ⟨hsound, htext⟩ := hstart.loop rfl 0 domains
  unfold run
  dsimp only
  split
  · rename_i hfailed
    refine ⟨hsound, fun hno => ?_⟩
    rw [hfailed] at hno
    cases hno
  · rename_i hfine
    rw [Bool.not_eq_true] at hfine
    obtain ⟨hlast, hfile⟩ := hsound.writeAll hfine
    refine ⟨hlast, fun hend => ?_⟩
    rw [hfile hend, htext hfine]
    rfl

end Writer

/-- Every step of a save is done: the file is made, each write is made whole, and the file is
flushed and renamed. -/
def SaveFates.AllDone (fates : SaveFates) (domains : List Bytes) : Prop :=
  fates.create = true ∧ (∀ i < (Writer.run fates.write domains).writes, fates.write i = none) ∧
    fates.flush = true ∧ fates.rename = true

/-- A save that is done writes the joined domains. -/
theorem saveTextCache_of_done {fates : SaveFates} {domains : DomainSet} (dir : TextFiles)
    (h : fates.AllDone domains.iter) :
    (saveTextCache fates domains dir).path = some (joined domains.iter) := by
  obtain ⟨hcreate, hwrites, hflush, hrename⟩ := h
  obtain ⟨hsound, hfile⟩ := Writer.run_spec fates.write domains.iter
  have hfine : (Writer.run fates.write domains.iter).failed = false := by
    rw [← Bool.not_eq_true]
    intro hfailed
    obtain ⟨i, hi, hlost⟩ := hsound.lost hfailed
    exact hlost (hwrites i hi)
  unfold saveTextCache
  rw [if_pos hcreate]
  dsimp only
  rw [hfine, hflush, if_neg (by decide), if_pos hrename, hfile hfine]

/-- **A save of which any step fails** leaves the cache as it was. -/
theorem saveTextCache_of_failed {fates : SaveFates} {domains : DomainSet} (dir : TextFiles)
    (h : ¬ fates.AllDone domains.iter) : (saveTextCache fates domains dir).path = dir.path := by
  obtain ⟨hsound, -⟩ := Writer.run_spec fates.write domains.iter
  unfold saveTextCache
  split
  · rename_i hcreate
    dsimp only
    split
    · rfl
    · rename_i hfine
      split
      · rename_i hrename
        rw [Bool.or_eq_true, not_or, Bool.not_eq_true, Bool.not_eq_true', Bool.not_eq_false] at hfine
        exact absurd ⟨hcreate, hsound.done hfine.1, hfine.2, hrename⟩ h
      · rfl
  · rfl

/-! ## What is read back -/

/-- A name that a line can hold. -/
def LineSafe (name : Bytes) : Prop := name ≠ [] ∧ (10 : UInt8) ∉ name ∧ (13 : UInt8) ∉ name

/-- Where a name lies in the text read. -/
theorem at_line {text before name after : Bytes} (spans : List (UInt32 × UInt32)) (hne : name ≠ [])
    (htext : text = before ++ (name ++ after)) (hlen : text.length ≤ maxTextBytes) :
    (DomainSet.mk [text] (max text.length 1) spans).At
      (UInt32.ofNat before.length, UInt32.ofNat (before.length + name.length)) name := by
  have hpos : 0 < name.length := List.length_pos_iff.2 hne
  have hsum : text.length = before.length + (name.length + after.length) := by
    rw [htext, List.length_append, List.length_append]
  unfold maxTextBytes at hlen
  have hstart : (UInt32.ofNat before.length).toNat = before.length :=
    UInt32.toNat_ofNat_of_lt' (by unfold UInt32.size; omega)
  have hstop : (UInt32.ofNat (before.length + name.length)).toNat = before.length + name.length :=
    UInt32.toNat_ofNat_of_lt' (by unfold UInt32.size; omega)
  have hlt : before.length < max text.length 1 := by omega
  refine ⟨by rw [hstart, hstop], before, after, ?_, ?_⟩
  · rw [hstart, Nat.div_eq_of_lt hlt, htext]
    rfl
  · rw [hstart, Nat.mod_eq_of_lt hlt]

/-- The spans of the lines are those of the names. -/
theorem forall₂_lineSpans {text before : Bytes} {names : List Bytes} (spans : List (UInt32 × UInt32))
    (hsafe : ∀ name ∈ names, LineSafe name) (htext : text = before ++ joined names)
    (hlen : text.length ≤ maxTextBytes) :
    List.Forall₂ (DomainSet.mk [text] (max text.length 1) spans).At
      (lineSpans before.length names) names := by
  induction names generalizing before with
  | nil => exact List.Forall₂.nil
  | cons name names ih =>
    obtain ⟨hne, -, hcr⟩ := hsafe name List.mem_cons_self
    have hline : (if name.getLast? = some 13 then name.dropLast else name) = name :=
      if_neg fun h => hcr (List.mem_of_getLast? h)
    rw [Writer.joined_cons] at htext
    have hsum : text.length = before.length + (name.length + (names.flatMap (10 :: ·)).length) := by
      rw [htext, List.length_append, List.length_append]
    unfold lineSpans
    dsimp only
    rw [hline, if_pos ⟨hne, by omega⟩]
    refine List.Forall₂.cons (at_line spans hne htext hlen) ?_
    cases names with
    | nil => exact List.Forall₂.nil
    | cons n ns =>
      have hbefore : before.length + name.length + 1 = (before ++ name ++ [10]).length := by
        rw [List.length_append, List.length_append, List.length_singleton]
      rw [hbefore]
      refine ih (fun m hm => hsafe m (List.mem_cons_of_mem _ hm)) ?_
      rw [htext, Writer.joined_cons, List.flatMap_cons]
      simp

/-- **The lines of a file are read back**, if the file is not too long. -/
theorem fromLines_holds {names : List Bytes} (hsafe : ∀ name ∈ names, LineSafe name)
    (hlen : (joined names).length ≤ maxTextBytes) :
    (DomainSet.fromLines (joined names)).Holds names := by
  cases names with
  | nil => exact List.Forall₂.nil
  | cons name names =>
    have hsplit : (joined (name :: names)).splitOn 10 = name :: names :=
      List.splitOn_intercalate 10 (fun l hl => (hsafe l hl).2.1) (List.cons_ne_nil _ _)
    have htext : joined (name :: names) = [] ++ joined (name :: names) := rfl
    have h := forall₂_lineSpans (lineSpans 0 (name :: names)) hsafe htext hlen
    unfold DomainSet.fromLines
    rw [hsplit]
    exact h

/-! ## Nothing is lost -/

/-- The names of a list are lines of their own. -/
theorem lineSafe_of_mem_parseContent {isAlphanumeric : Char → Bool}
    (hA : AsciiAlphanumeric isAlphanumeric) {content : Text} {polarity : ListPolarity} {d : Name}
    (hd : d ∈ (parseContent isAlphanumeric content polarity).1) : LineSafe d.toBytes := by
  obtain ⟨hlower, hvalid⟩ := wellFormed_of_mem_parseContent hd
  have hfree : ∀ c : Char, c.toNat < 128 →
      (c.isAlphanum || c == '-' || c == '.' || c == '_') = false → asciiLower c = c → c ∉ d :=
    fun c hc hsign hsame => notMem_of_isValidDomain hA hc hsign hsame (by rw [hlower]; exact hvalid)
  refine ⟨Text.toBytes_ne_nil (isValidDomain_ne_nil hvalid), fun hmem => ?_, fun hmem => ?_⟩
  · obtain ⟨c, hc, hnat⟩ := Text.mem_toBytes (by decide) hmem
    obtain rfl : c = '\n' := Char.toNat_inj.1 hnat
    exact hfree '\n' (by decide) (by decide) (by decide) hc
  · obtain ⟨c, hc, hnat⟩ := Text.mem_toBytes (by decide) hmem
    obtain rfl : c = '\r' := Char.toNat_inj.1 hnat
    exact hfree '\r' (by decide) (by decide) (by decide) hc

/-- The file of a list is text. -/
theorem joined_toBytes (names : List Name) :
    joined (names.map Text.toBytes) = Text.toBytes (joinLines names) := by
  unfold joined joinLines
  induction names with
  | nil => rfl
  | cons d names ih =>
    cases names with
    | nil => simp
    | cons d' names =>
      have hnewline : Text.toBytes ['\n'] = [10] := by decide
      rw [List.map_cons] at ih
      rw [List.map_cons, List.map_cons, List.intercalate_cons_cons, ih, List.intercalate_cons_cons,
        Text.toBytes_append, Text.toBytes_append, hnewline]

/-- Sets that hold the same names have the same keys. -/
theorem prepareKeys_iter_eq {s t : DomainSet} {names : List Bytes} (hs : s.Holds names)
    (ht : t.Holds names) : s.prepareKeys.iter = t.prepareKeys.iter := by
  obtain ⟨-, hsorted, hmem⟩ := hs.prepareKeys
  obtain ⟨-, hsorted', hmem'⟩ := ht.prepareKeys
  exact List.Pairwise.eq_of_mem_iff hsorted hsorted' fun key => (hmem key).trans (hmem' key).symm

/-- **The cache loses nothing** of the set of a list.  A save leaves the joined domains, or the
file of before if any step failed; read back, a file of at most `u32::MAX` bytes gives the same
domains in the same order, and the same keys. -/
theorem text_cache_loses_nothing (isAlphanumeric : Char → Bool)
    (hA : AsciiAlphanumeric isAlphanumeric) (content : Text) (polarity : ListPolarity)
    (fates : SaveFates) (dir : TextFiles) :
    let s := listSet isAlphanumeric polarity content.lines
    let saved := (saveTextCache fates s dir).path
    (fates.AllDone s.iter → saved = some (joined s.iter)) ∧
      (¬ fates.AllDone s.iter → saved = dir.path) ∧
      ((joined s.iter).length ≤ maxTextBytes →
        (DomainSet.fromLines (joined s.iter)).iter = s.iter ∧
          (DomainSet.fromLines (joined s.iter)).prepareKeys.iter = s.prepareKeys.iter ∧
          (s.iter ≠ [] → loadFreshTextCache true (some (joined s.iter)) =
            some (DomainSet.fromLines (joined s.iter)))) := by
  intro s saved
  refine ⟨saveTextCache_of_done dir, saveTextCache_of_failed dir, fun hlen => ?_⟩
  obtain ⟨names, hholds, hsub⟩ := listSet_holds_sublist isAlphanumeric content polarity
  have hiter : s.iter = names.map Text.toBytes := hholds.iter_eq
  have hsafe : ∀ name ∈ names.map Text.toBytes, LineSafe name := by
    intro name hname
    obtain ⟨d, hd, rfl⟩ := List.mem_map.1 hname
    exact lineSafe_of_mem_parseContent hA (hsub.subset hd)
  rw [hiter] at hlen ⊢
  have hread := fromLines_holds hsafe hlen
  refine ⟨hread.iter_eq, prepareKeys_iter_eq hread hholds, fun hne => ?_⟩
  have hspans : (DomainSet.fromLines (joined (names.map Text.toBytes))).spans ≠ [] := by
    intro hnil
    have hlength := hread.length_eq
    rw [hnil] at hlength
    exact hne (List.length_eq_zero_iff.1 hlength.symm)
  have htext : fromUtf8 (joined (names.map Text.toBytes)) = some (joinLines names) := by
    rw [joined_toBytes, Text.fromUtf8_toBytes]
  unfold loadFreshTextCache
  rw [if_pos rfl]
  show (fromUtf8 (joined (names.map Text.toBytes))).bind _ = _
  rw [htext, Option.bind_some, if_neg hspans]

/-- A save whose steps all succeed. -/
def allFine : SaveFates := ⟨true, fun _ => none, true, true, true⟩

/-- A hosts file with two names. -/
def twoNames : Text := "0.0.0.0 ads.com\n0.0.0.0 B.net".toList

theorem text_cache_loses_nothing_two :
    let s := listSet Char.isAlphanum .block twoNames.lines
    (saveTextCache allFine s ⟨none, none⟩).path = some (joined s.iter) ∧
      (DomainSet.fromLines (joined s.iter)).iter = s.iter := by
  have h := text_cache_loses_nothing Char.isAlphanum (fun _ _ => rfl) twoNames .block allFine ⟨none, none⟩
  exact ⟨h.1 ⟨rfl, fun _ _ => rfl, rfl, rfl⟩, (h.2.2 (by decide +kernel)).1⟩

/-! ### A cache past the limit -/

/-- A list of one short rule, over and over. -/
def repeated (n : ℕ) : Text := ['\n'].intercalate (List.replicate n "||a.b^".toList)

/-- The only domain of the list. -/
def shortName : Bytes := Text.toBytes "a.b".toList

theorem lines_intercalate {ls : List Text} (hne : ls ≠ [])
    (hsafe : ∀ l ∈ ls, l ≠ [] ∧ '\n' ∉ l ∧ '\r' ∉ l) :
    Text.lines (['\n'].intercalate ls) = ls := by
  have hsplit : (['\n'].intercalate ls).splitOn '\n' = ls :=
    List.splitOn_intercalate '\n' (fun l hl => (hsafe l hl).2.1) hne
  have hstrip : ls.dropLast.map (fun l => if l.getLast? = some '\r' then l.dropLast else l) =
      ls.dropLast.map id := by
    refine List.map_congr_left fun l hl => if_neg fun hlast => ?_
    exact (hsafe l (List.dropLast_subset _ hl)).2.2 (List.mem_of_getLast? hlast)
  obtain ⟨init, last, hlast⟩ := (List.eq_nil_or_concat' ls).resolve_left hne
  have hkeep : last ≠ [] := (hsafe last (by rw [hlast]; exact List.mem_append_right _ List.mem_cons_self)).1
  unfold Text.lines
  dsimp only
  rw [hsplit, hstrip, List.map_id, hlast, List.dropLast_concat, List.getLast?_concat]
  simp [hkeep]

theorem repeated_lines (n : ℕ) :
    (repeated (n + 1)).lines = List.replicate (n + 1) "||a.b^".toList := by
  refine lines_intercalate (List.ne_nil_of_length_eq_add_one List.length_replicate) fun l hl => ?_
  rw [List.eq_of_mem_replicate hl]
  exact ⟨by decide, by decide, by decide⟩

/-- The lines of a file that start below the limit are no more than fit below it. -/
theorem length_lineSpans_replicate_le {line : Bytes} (hcr : line.getLast? ≠ some 13) (n start : ℕ) :
    (lineSpans start (List.replicate n line)).length * (line.length + 1) ≤ maxTextBytes + 1 - start := by
  induction n generalizing start with
  | zero =>
    show 0 * (line.length + 1) ≤ _
    omega
  | succ n ih =>
    have hrest := ih (start + line.length + 1)
    rw [List.replicate_succ]
    unfold lineSpans
    dsimp only
    rw [if_neg hcr]
    split
    · rename_i hkept
      rw [List.length_cons, Nat.succ_mul]
      omega
    · omega

/-- As long as the set is not full it holds the domain once for each rule. -/
theorem repeated_holds {n : ℕ} (hn : (n + 1) * 3 < 1022 * (chunkBytes - 3)) :
    (listSet Char.isAlphanum .block (repeated (n + 1)).lines).Holds
      (List.replicate (n + 1) shortName) := by
  have hformat : formatOf 0 (List.replicate (n + 1) "||a.b^".toList) = some .adblock := by
    have hdetect : detectFormat "||a.b^".toList = some .adblock := by decide
    rw [List.replicate_succ, formatOf, hdetect]
  have hone : namesOf Char.isAlphanum .adblock .block "||a.b^".toList = ["a.b".toList] := by
    decide
  have hnames : ∀ n, namesIn Char.isAlphanum .adblock .block (List.replicate n "||a.b^".toList) =
      List.replicate n "a.b".toList := by
    intro n
    induction n with
    | zero => rfl
    | succ n ih =>
      unfold namesIn at ih ⊢
      rw [List.replicate_succ, List.flatMap_cons, ih, hone, List.replicate_succ, List.singleton_append]
  have hfits : Fits Char.isAlphanum .adblock .block (List.replicate (n + 1) "||a.b^".toList) := by
    unfold Fits
    rw [flatMap_pushesOf, hnames, List.map_replicate]
    have hlen : (Text.toBytes "a.b".toList).length = 3 := by decide
    refine DomainSet.neverFull_of_short 3 DomainSet.layout_new DomainSet.holds_new ?_ ?_
    · intro name hname
      rw [List.eq_of_mem_replicate hname, hlen]
    · have hused : DomainSet.new.used (chunkBytes - 3) = 0 := by decide
      rw [List.map_replicate, hlen, List.sum_replicate_nat, hused, Nat.zero_add]
      exact hn
  have hkept : ∀ d, exceptionsIn Char.isAlphanum .adblock .block
      (List.replicate (n + 1) "||a.b^".toList) d = false := by
    have hno : exempted "||a.b^".toList = [] := by decide
    intro d
    unfold exceptionsIn
    rw [List.any_eq_false]
    intro line hline
    rw [List.eq_of_mem_replicate hline, decide_eq_true_eq, mem_exceptionsOf_iff, hno]
    simp
  obtain ⟨-, hholds⟩ := finishedSet_holds hfits
  have hall := List.filter_eq_self.2 fun (d : Name) (_ : d ∈ List.replicate (n + 1) "a.b".toList) => by
    show (!exceptionsIn Char.isAlphanum .adblock .block
      (List.replicate (n + 1) "||a.b^".toList) d) = true
    rw [hkept d]
    rfl
  rw [hnames, hall, List.map_replicate] at hholds
  rw [repeated_lines]
  unfold listSet
  rw [hformat]
  exact hholds

/-- Rules past the limit of the file are lost. -/
theorem repeated_loses {n : ℕ} (hn : (n + 1) * 3 < 1022 * (chunkBytes - 3))
    (hlong : maxTextBytes + 1 < (n + 1) * 4) :
    (DomainSet.fromLines (joined
      (listSet Char.isAlphanum .block (repeated (n + 1)).lines).iter)).iter ≠
        (listSet Char.isAlphanum .block (repeated (n + 1)).lines).iter := by
  rw [(repeated_holds hn).iter_eq]
  intro heq
  have hlen := congrArg List.length heq
  have hline : shortName = [97, 46, 98] := by decide
  have hsplit : (joined (List.replicate (n + 1) shortName)).splitOn 10 =
      List.replicate (n + 1) shortName := by
    refine List.splitOn_intercalate 10 (fun l hl => ?_)
      (List.ne_nil_of_length_eq_add_one List.length_replicate)
    rw [List.eq_of_mem_replicate hl, hline]
    decide
  have hcr : shortName.getLast? ≠ some 13 := by
    rw [hline]
    decide
  have hle := length_lineSpans_replicate_le hcr (n + 1) 0
  have hthree : shortName.length = 3 := by rw [hline]; rfl
  rw [DomainSet.iter, List.length_map, DomainSet.fromLines, hsplit, List.length_replicate] at hlen
  rw [hlen, hthree] at hle
  omega

/-- So many rules make a cache of more than four gigabytes, which loses a name. -/
theorem long_cache_loses_names :
    (DomainSet.fromLines (joined
      (listSet Char.isAlphanum .block (repeated 1073741825).lines).iter)).iter ≠
        (listSet Char.isAlphanum .block (repeated 1073741825).lines).iter := by
  have hchunk : chunkBytes = 4194304 := by decide
  have hmax : maxTextBytes = 4294967295 := by decide
  exact repeated_loses (n := 1073741824) (by rw [hchunk]; omega) (by rw [hmax]; omega)

end Ferrite.Blocklist
