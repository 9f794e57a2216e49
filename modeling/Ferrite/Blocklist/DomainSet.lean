import Mathlib.Data.List.Lex
import Ferrite.Lib.Bytes
import Ferrite.Lib.Chunks
import Ferrite.Core.Utf8

/-!
# The domains of a list

`blocklist/src/domains.rs`: the text of a list lies in chunks of four megabytes, and each
domain is a span of two 32-bit numbers, which count through all chunks.  A candidate is
written down first and cut off again if it is not wanted; a domain that goes leaves its text
where it is.

* `Holds` — the spans of a set are those of a list of names, each inside its chunk;
* `run_holds` — after any run of pushes and removals the set holds what a list would, as long
  as no push finds the set full;
* `iter_take_iff` — and only so long; `length_pushes` — a push that finds it full is missing;
* `Holds.prepareKeys` — `prepare_keys` leaves each name once, without trailing dots and in
  the order of bytes.
-/

namespace Ferrite.Blocklist

/-- `CHUNK_BYTES`. -/
def chunkBytes : ℕ := 4 * 2 ^ 20

/-- `MAX_TEXT_BYTES`. -/
def maxTextBytes : ℕ := 2 ^ 32 - 1

/-- The order of bytes: strings are compared byte by byte, as numbers. -/
def byteOrder (b : Bytes) : List ℕ := b.map UInt8.toNat

theorem byteOrder_injective : Function.Injective byteOrder :=
  List.map_injective_iff.2 fun _ _ => UInt8.toNat_inj.1

/-- A domain without its trailing dots. -/
def trimDots (b : Bytes) : Bytes := (b.reverse.dropWhile (· == 46)).reverse

/-- `DomainSet`. -/
structure DomainSet where
  chunks : List Bytes
  chunkBytes : ℕ
  spans : List (UInt32 × UInt32)
deriving DecidableEq, Repr

namespace DomainSet

/-- `DomainSet::new`. -/
def new : DomainSet := ⟨[], Blocklist.chunkBytes, []⟩

/-- There is room for the domain at the end of the last chunk. -/
def hasRoom (s : DomainSet) (domain : Bytes) : Bool :=
  s.chunks.getLast?.any fun c => c.length + domain.length ≤ s.chunkBytes

/-- Another chunk would take the text past its limit. -/
def atLimit (s : DomainSet) : Bool := maxTextBytes < (s.chunks.length + 1) * s.chunkBytes

/-- `DomainSet::push_lowercase_if`, with what it returns. -/
def pushLowercaseIf (s : DomainSet) (domain : Bytes) (accept : Bytes → Bool) : DomainSet × Bool :=
  if domain = [] ∨ s.chunkBytes < domain.length then (s, false)
  else if !s.hasRoom domain && s.atLimit then (s, false)
  else
    let chunks := if s.hasRoom domain then s.chunks else s.chunks ++ [[]]
    let index := chunks.length - 1
    let chunk := chunks.getLastD []
    let lowered := domain.map asciiLowerByte
    if accept lowered then
      let start := index * s.chunkBytes + chunk.length
      ({ s with
        chunks := chunks.set index (chunk ++ lowered)
        spans := s.spans ++ [(UInt32.ofNat start, UInt32.ofNat (start + lowered.length))] }, true)
    else ({ s with chunks := chunks }, false)

/-- `DomainSet::push`. -/
def push (s : DomainSet) (domain : Bytes) : DomainSet := (s.pushLowercaseIf domain fun _ => true).1

/-- `DomainSet::slice`.  A span that leaves its chunk panics. -/
def slice (s : DomainSet) (span : UInt32 × UInt32) : Bytes :=
  Chunks.read s.chunks s.chunkBytes span.1.toNat (span.2 - span.1).toNat

/-- `DomainSet::iter`. -/
def iter (s : DomainSet) : List Bytes := s.spans.map s.slice

/-- `DomainSet::retain`. -/
def retain (s : DomainSet) (keep : Bytes → Bool) : DomainSet :=
  { s with spans := s.spans.filter fun span => keep (s.slice span) }

/-- The loop of `prepare_keys` that cuts the dots at the end of a span, which starts at `first`
in its chunk: how long the span is after it. -/
def cutDots (chunk : Bytes) (first : ℕ) : ℕ → ℕ
  | 0 => 0
  | len + 1 => if chunk[first + len]? = some 46 then cutDots chunk first len else len + 1

/-- A span without the dots at its end. -/
def trimSpan (s : DomainSet) (span : UInt32 × UInt32) : UInt32 × UInt32 :=
  let start := span.1.toNat
  let chunk := s.chunks.getD (start / s.chunkBytes) []
  (span.1, UInt32.ofNat (start + cutDots chunk (start % s.chunkBytes) (span.2 - span.1).toNat))

/-- `DomainSet::prepare_keys`.  Where two names are the same it does not matter which span
comes first. -/
def prepareKeys (s : DomainSet) : DomainSet :=
  { s with spans := Chunks.sortDedup (fun span => byteOrder (s.slice span)) (s.spans.map s.trimSpan) }

/-! ## What a set holds -/

/-- The span is where the name lies. -/
structure At (s : DomainSet) (span : UInt32 × UInt32) (name : Bytes) : Prop where
  stop : span.2.toNat = span.1.toNat + name.length
  lies : Chunks.Lies s.chunks s.chunkBytes span.1.toNat name

/-- **The abstraction.**  The spans are those of the names, in order. -/
def Holds (s : DomainSet) (names : List Bytes) : Prop := List.Forall₂ s.At s.spans names

variable {s : DomainSet} {span : UInt32 × UInt32} {name : Bytes} {names : List Bytes}

theorem At.len (h : s.At span name) : (span.2 - span.1).toNat = name.length := by
  have hstop := h.stop
  rw [UInt32.toNat_sub_of_le _ _ (UInt32.le_iff_toNat_le.2 (by omega))]
  omega

theorem At.slice_eq (h : s.At span name) : s.slice span = name := by
  rw [slice, h.len]
  exact Chunks.read_of_lies h.lies

/-- The span lies inside its chunk. -/
def Inside (s : DomainSet) (span : UInt32 × UInt32) : Prop :=
  span.1.toNat ≤ span.2.toNat ∧ ∃ chunk, s.chunks[span.1.toNat / s.chunkBytes]? = some chunk ∧
    span.1.toNat % s.chunkBytes + (span.2.toNat - span.1.toNat) ≤ chunk.length

theorem At.inside (h : s.At span name) : s.Inside span := by
  obtain ⟨chunk, hchunk, hle⟩ := h.lies.inside
  have hstop := h.stop
  exact ⟨by omega, chunk, hchunk, by omega⟩

theorem Holds.iter_eq (h : s.Holds names) : s.iter = names := by
  unfold Holds at h
  unfold iter
  generalize s.spans = spans at h ⊢
  induction h with
  | nil => rfl
  | cons hat _ ih => rw [List.map_cons, hat.slice_eq, ih]

theorem Holds.mem_iff (h : s.Holds names) : name ∈ names ↔ ∃ span ∈ s.spans, s.slice span = name := by
  rw [← h.iter_eq]
  exact List.mem_map

/-- Every span of a set that holds names is the span of one. -/
theorem Holds.at_slice (h : s.Holds names) (hspan : span ∈ s.spans) : s.At span (s.slice span) := by
  unfold Holds at h
  generalize s.spans = spans at h hspan
  induction h with
  | nil => cases hspan
  | cons hat _ ih =>
    rcases List.mem_cons.1 hspan with rfl | hspan
    · exact hat.slice_eq.symm ▸ hat
    · exact ih hspan

/-- No span of a set that holds names leaves its chunk. -/
theorem Holds.inside (h : s.Holds names) (hspan : span ∈ s.spans) : s.Inside span :=
  (h.at_slice hspan).inside

theorem holds_of_at {spans : List (UInt32 × UInt32)} (h : ∀ span ∈ spans, s.At span (s.slice span)) :
    List.Forall₂ s.At spans (spans.map s.slice) := by
  rw [List.forall₂_map_right_iff, List.forall₂_same]
  exact h

/-- What holds of the chunks of a set that was new once. -/
structure Layout (s : DomainSet) : Prop where
  width : s.chunkBytes = Blocklist.chunkBytes
  text : s.chunks.length * Blocklist.chunkBytes ≤ maxTextBytes
  short : ∀ c ∈ s.chunks, c.length ≤ Blocklist.chunkBytes

theorem layout_new : new.Layout := ⟨rfl, Nat.zero_le _, nofun⟩

theorem holds_new : new.Holds [] := List.Forall₂.nil

/-! ### One step -/

/-- A push that is not refused for its length finds room for the domain. -/
def FindsRoom (s : DomainSet) (domain : Bytes) : Prop :=
  domain ≠ [] → domain.length ≤ Blocklist.chunkBytes → s.hasRoom domain = true ∨ s.atLimit = false

/-- The chunks once there is room at the end of the last one. -/
def roomy (s : DomainSet) (domain : Bytes) : List Bytes :=
  if s.hasRoom domain then s.chunks else s.chunks ++ [[]]

theorem Layout.roomy (h : s.Layout) {domain : Bytes} (hlen : domain.length ≤ Blocklist.chunkBytes)
    (hroom : s.hasRoom domain = true ∨ s.atLimit = false) :
    ({ s with chunks := s.roomy domain } : DomainSet).Layout ∧
      ∃ chunk, (s.roomy domain)[(s.roomy domain).length - 1]? = some chunk ∧
        chunk.length + domain.length ≤ Blocklist.chunkBytes := by
  rw [← List.getLast?_eq_getElem?]
  by_cases hhas : s.hasRoom domain = true
  · have hsame : s.roomy domain = s.chunks := if_pos hhas
    rw [hsame]
    refine ⟨⟨h.width, h.text, h.short⟩, ?_⟩
    unfold hasRoom at hhas
    cases hlast : s.chunks.getLast? with
    | none =>
      rw [hlast] at hhas
      cases hhas
    | some chunk =>
      rw [hlast, h.width] at hhas
      exact ⟨chunk, rfl, of_decide_eq_true hhas⟩
  · have hmore : s.roomy domain = s.chunks ++ [[]] := if_neg hhas
    have hlimit : s.atLimit = false := hroom.resolve_left hhas
    rw [hmore]
    refine ⟨⟨h.width, ?_, ?_⟩, [], by simp, by simpa using hlen⟩
    · have htext := of_decide_eq_false hlimit
      rw [h.width] at htext
      simpa using htext
    · intro c hc
      rcases List.mem_append.1 hc with hc | hc
      · exact h.short c hc
      · simp [List.mem_singleton.1 hc]

theorem At.roomy (h : s.At span name) (domain : Bytes) :
    ({ s with chunks := s.roomy domain } : DomainSet).At span name := by
  refine ⟨h.stop, ?_⟩
  show Chunks.Lies (s.roomy domain) _ _ _
  unfold DomainSet.roomy
  split
  · exact h.lies
  · exact h.lies.append [[]]

/-- What a push does: it refuses the domain for its length or its test, or because there is no
room, and else appends it lowercased. -/
theorem pushLowercaseIf_eq (h : s.Layout) {domain : Bytes} (accept : Bytes → Bool)
    (hroom : s.FindsRoom domain) (hne : domain ≠ []) (hlen : domain.length ≤ Blocklist.chunkBytes) :
    ∃ chunk, (s.roomy domain)[(s.roomy domain).length - 1]? = some chunk ∧
      chunk.length + domain.length ≤ Blocklist.chunkBytes ∧
      s.pushLowercaseIf domain accept =
        let lowered := domain.map asciiLowerByte
        let start := ((s.roomy domain).length - 1) * s.chunkBytes + chunk.length
        if accept lowered then
          ({ s with
            chunks := (s.roomy domain).set ((s.roomy domain).length - 1) (chunk ++ lowered)
            spans := s.spans ++ [(UInt32.ofNat start, UInt32.ofNat (start + lowered.length))] },
            true)
        else ({ s with chunks := s.roomy domain }, false) := by
  obtain ⟨-, chunk, hchunk, hfits⟩ := h.roomy hlen (hroom hne hlen)
  refine ⟨chunk, hchunk, hfits, ?_⟩
  have hlast : (s.roomy domain).getLastD [] = chunk := by
    rw [List.getLastD_eq_getLast?, List.getLast?_eq_getElem?, hchunk]
    rfl
  unfold pushLowercaseIf
  rw [if_neg (by rw [h.width, not_or]; exact ⟨hne, by omega⟩),
    if_neg (by rcases hroom hne hlen with hr | hr <;> simp [hr])]
  show (if accept (domain.map asciiLowerByte) then _ else _) = _
  rw [← hlast]
  rfl

/-- The span written for a new name. -/
theorem At.new (h : s.Layout) {i : ℕ} {chunk lowered : Bytes} (hi : s.chunks[i]? = some chunk)
    (hne : lowered ≠ []) (hfits : chunk.length + lowered.length ≤ Blocklist.chunkBytes)
    (spans : List (UInt32 × UInt32)) :
    (DomainSet.mk (s.chunks.set i (chunk ++ lowered)) s.chunkBytes spans).At
      (UInt32.ofNat (i * s.chunkBytes + chunk.length),
        UInt32.ofNat (i * s.chunkBytes + chunk.length + lowered.length)) lowered := by
  have hpos : 0 < lowered.length := List.length_pos_iff.2 hne
  have hwidth := h.width
  have htext := h.text
  have hi' : i < s.chunks.length := (List.getElem?_eq_some_iff.1 hi).1
  have hend : i * s.chunkBytes + chunk.length + lowered.length ≤ maxTextBytes := by
    have hmul : (i + 1) * s.chunkBytes ≤ s.chunks.length * s.chunkBytes := Nat.mul_le_mul_right _ hi'
    rw [Nat.add_mul, Nat.one_mul] at hmul
    rw [hwidth] at hmul ⊢
    omega
  unfold maxTextBytes at hend
  have hstart : (UInt32.ofNat (i * s.chunkBytes + chunk.length)).toNat =
      i * s.chunkBytes + chunk.length := UInt32.toNat_ofNat_of_lt' (by unfold UInt32.size; omega)
  have hstop : (UInt32.ofNat (i * s.chunkBytes + chunk.length + lowered.length)).toNat =
      i * s.chunkBytes + chunk.length + lowered.length :=
    UInt32.toNat_ofNat_of_lt' (by unfold UInt32.size; omega)
  refine ⟨by rw [hstart, hstop], ?_⟩
  rw [hstart]
  have hroom : chunk.length < s.chunkBytes := by omega
  exact Chunks.lies_push hi hroom lowered

/-- A list of names takes a name, lowercased, if it is a name and passes the test. -/
def pushName (names : List Bytes) (domain : Bytes) (accept : Bytes → Bool) : List Bytes :=
  if domain ≠ [] ∧ domain.length ≤ Blocklist.chunkBytes ∧ accept (domain.map asciiLowerByte) then
    names ++ [domain.map asciiLowerByte]
  else names

theorem pushName_of_not {names : List Bytes} {domain : Bytes} {accept : Bytes → Bool}
    (h : ¬ (domain ≠ [] ∧ domain.length ≤ Blocklist.chunkBytes)) :
    pushName names domain accept = names :=
  if_neg fun h' => h ⟨h'.1, h'.2.1⟩

/-- A domain that is empty or too long for a chunk is refused. -/
theorem pushLowercaseIf_of_size (h : s.Layout) {domain : Bytes} (accept : Bytes → Bool)
    (hsize : ¬ (domain ≠ [] ∧ domain.length ≤ Blocklist.chunkBytes)) :
    s.pushLowercaseIf domain accept = (s, false) := by
  unfold pushLowercaseIf
  refine if_pos ?_
  rw [h.width]
  by_contra hno
  rw [not_or, not_lt] at hno
  exact hsize hno

/-- **A push is one on the list of names**, and says whether it took the name. -/
theorem pushLowercaseIf_spec (h : s.Layout) (hn : s.Holds names) {domain : Bytes}
    (accept : Bytes → Bool) (hroom : s.FindsRoom domain) :
    (s.pushLowercaseIf domain accept).1.Layout ∧
      (s.pushLowercaseIf domain accept).1.Holds (pushName names domain accept) ∧
      ((s.pushLowercaseIf domain accept).2 = true ↔
        domain ≠ [] ∧ domain.length ≤ Blocklist.chunkBytes ∧
          accept (domain.map asciiLowerByte) = true) := by
  by_cases hlen : domain ≠ [] ∧ domain.length ≤ Blocklist.chunkBytes
  · obtain ⟨hlayout, -⟩ := h.roomy hlen.2 (hroom hlen.1 hlen.2)
    obtain ⟨chunk, hchunk, hfits, heq⟩ := pushLowercaseIf_eq h accept hroom hlen.1 hlen.2
    rw [heq]
    dsimp only
    have hold : ∀ span name, s.At span name →
        ({ s with chunks := s.roomy domain } : DomainSet).At span name := fun _ _ hat => hat.roomy domain
    by_cases hacc : accept (domain.map asciiLowerByte) = true
    · have hpush : pushName names domain accept = names ++ [domain.map asciiLowerByte] :=
        if_pos ⟨hlen.1, hlen.2, hacc⟩
      rw [if_pos hacc, hpush]
      refine ⟨⟨hlayout.width, ?_, ?_⟩, ?_, iff_of_true rfl ⟨hlen.1, hlen.2, hacc⟩⟩
      · rw [List.length_set]
        exact hlayout.text
      · intro c hc
        rcases List.mem_or_eq_of_mem_set hc with hc | rfl
        · exact hlayout.short c hc
        · rw [List.length_append, List.length_map]
          exact hfits
      · refine List.rel_append ?_ (List.Forall₂.cons ?_ List.Forall₂.nil)
        · refine hn.imp fun span name hat => ?_
          exact ⟨hat.stop, (hold span name hat).lies.push hchunk _⟩
        · exact At.new hlayout hchunk (mt List.map_eq_nil_iff.1 hlen.1)
            (by rw [List.length_map]; exact hfits) _
    · have hpush : pushName names domain accept = names := if_neg fun h' => hacc h'.2.2
      rw [if_neg hacc, hpush]
      refine ⟨hlayout, hn.imp hold, iff_of_false nofun fun h' => hacc h'.2.2⟩
  · rw [pushLowercaseIf_of_size h accept hlen, pushName_of_not hlen]
    exact ⟨h, hn, iff_of_false nofun fun h' => hlen ⟨h'.1, h'.2.1⟩⟩

/-- Removing names from the set removes them from the list. -/
theorem Holds.retain (hn : s.Holds names) (keep : Bytes → Bool) :
    (s.retain keep).Holds (names.filter keep) := by
  have hkept : List.Forall₂ s.At (s.spans.filter fun span => keep (s.slice span))
      (names.filter keep) := by
    unfold Holds at hn
    generalize s.spans = spans at hn
    induction hn with
    | nil => exact List.Forall₂.nil
    | cons hat _ ih =>
      rw [List.filter_cons, List.filter_cons, hat.slice_eq]
      split
      · exact List.Forall₂.cons hat ih
      · exact ih
  exact hkept.imp fun _ _ hat => ⟨hat.stop, hat.lies⟩

theorem Layout.retain (h : s.Layout) (keep : Bytes → Bool) : (s.retain keep).Layout :=
  ⟨h.width, h.text, h.short⟩

/-! ### A run -/

/-- What is done to a set. -/
inductive Op where
  | push (domain : Bytes)
  | pushLowercaseIf (domain : Bytes) (accept : Bytes → Bool)
  | retain (keep : Bytes → Bool)

/-- An operation on the set. -/
def step (s : DomainSet) : Op → DomainSet
  | .push domain => s.push domain
  | .pushLowercaseIf domain accept => (s.pushLowercaseIf domain accept).1
  | .retain keep => s.retain keep

/-- The same on a list of names. -/
def nameStep (names : List Bytes) : Op → List Bytes
  | .push domain => pushName names domain fun _ => true
  | .pushLowercaseIf domain accept => pushName names domain accept
  | .retain keep => names.filter keep

/-- The operation does not find the set full, if it adds a name. -/
def Op.fits (s : DomainSet) : Op → Prop
  | .push domain => s.FindsRoom domain
  | .pushLowercaseIf domain accept =>
    accept (domain.map asciiLowerByte) = true → s.FindsRoom domain
  | .retain _ => True

/-- **The text stays below its limit** all through the run. -/
def NeverFull (s : DomainSet) : List Op → Prop
  | [] => True
  | op :: ops => op.fits s ∧ (s.step op).NeverFull ops

/-- A set that is full stays as it is. -/
theorem pushLowercaseIf_of_full (h : s.Layout) {domain : Bytes} (accept : Bytes → Bool)
    (hfull : ¬ s.FindsRoom domain) : s.pushLowercaseIf domain accept = (s, false) := by
  unfold FindsRoom at hfull
  push Not at hfull
  obtain ⟨hne, hlen, hhas, hlimit⟩ := hfull
  unfold pushLowercaseIf
  rw [if_neg (by rw [h.width, not_or]; exact ⟨hne, by omega⟩), if_pos (by simp [hhas, hlimit])]

theorem step_spec (op : Op) (h : s.Layout) (hn : s.Holds names) (hfits : op.fits s) :
    (s.step op).Layout ∧ (s.step op).Holds (nameStep names op) := by
  cases op with
  | push domain =>
    obtain ⟨h', hn', -⟩ := pushLowercaseIf_spec h hn (fun _ => true) hfits
    exact ⟨h', hn'⟩
  | pushLowercaseIf domain accept =>
    by_cases hroom : s.FindsRoom domain
    · obtain ⟨h', hn', -⟩ := pushLowercaseIf_spec h hn accept hroom
      exact ⟨h', hn'⟩
    · -- the name is refused on both sides, for want of room and by its test
      have hnames : nameStep names (.pushLowercaseIf domain accept) = names :=
        if_neg fun htaken => hroom (hfits htaken.2.2)
      have hsame : s.step (.pushLowercaseIf domain accept) = s :=
        congrArg Prod.fst (pushLowercaseIf_of_full h accept hroom)
      rw [hnames, hsame]
      exact ⟨h, hn⟩
  | retain keep => exact ⟨h.retain keep, hn.retain keep⟩

/-- After a run the set holds what the list holds. -/
theorem run_holds {ops : List Op} (h : s.Layout) (hn : s.Holds names) (hfits : s.NeverFull ops) :
    (ops.foldl step s).Layout ∧ (ops.foldl step s).Holds (ops.foldl nameStep names) := by
  induction ops generalizing s names with
  | nil => exact ⟨h, hn⟩
  | cons op ops ih =>
    obtain ⟨h', hn'⟩ := step_spec op h hn hfits.1
    exact ih h' hn' hfits.2

/-! ### A set that was full -/

theorem nameStep_sublist {names names' : List Bytes} (h : names.Sublist names') (op : Op) :
    (nameStep names op).Sublist (nameStep names' op) := by
  have hpush : ∀ domain accept,
      (pushName names domain accept).Sublist (pushName names' domain accept) := by
    intro domain accept
    unfold pushName
    split
    · exact h.append (List.Sublist.refl _)
    · exact h
  cases op with
  | push domain => exact hpush domain fun _ => true
  | pushLowercaseIf domain accept => exact hpush domain accept
  | retain keep => exact h.filter keep

/-- **An operation that finds the set full** does nothing to it, and adds a name to the list. -/
theorem step_of_full {op : Op} (h : s.Layout) (names : List Bytes) (hfull : ¬ op.fits s) :
    s.step op = s ∧ ∃ name, nameStep names op = names ++ [name] := by
  have hpush : ∀ {domain : Bytes} {accept : Bytes → Bool}, ¬ s.FindsRoom domain →
      accept (domain.map asciiLowerByte) = true →
      (s.pushLowercaseIf domain accept).1 = s ∧
        ∃ name, pushName names domain accept = names ++ [name] := by
    intro domain accept hroom hacc
    refine ⟨by rw [pushLowercaseIf_of_full h accept hroom], _, if_pos ?_⟩
    unfold FindsRoom at hroom
    push Not at hroom
    exact ⟨hroom.1, hroom.2.1, hacc⟩
  cases op with
  | push domain => exact hpush hfull rfl
  | pushLowercaseIf domain accept =>
    unfold Op.fits at hfull
    push Not at hfull
    exact hpush hfull.2 hfull.1
  | retain keep => exact absurd trivial hfull

/-- **Whatever a run did**, the set holds names that the list holds, in their order. -/
theorem run_holds_sublist {kept : List Bytes} (ops : List Op) (h : s.Layout) (hn : s.Holds kept)
    (hsub : kept.Sublist names) :
    (ops.foldl step s).Layout ∧
      ∃ kept', (ops.foldl step s).Holds kept' ∧ kept'.Sublist (ops.foldl nameStep names) := by
  induction ops generalizing s kept names with
  | nil => exact ⟨h, kept, hn, hsub⟩
  | cons op ops ih =>
    rw [List.foldl_cons, List.foldl_cons]
    by_cases hfits : op.fits s
    · obtain ⟨h', hn'⟩ := step_spec op h hn hfits
      exact ih h' hn' (nameStep_sublist hsub op)
    · obtain ⟨hsame, name, hname⟩ := step_of_full h names hfits
      rw [hsame, hname]
      exact ih h hn (hsub.trans (List.sublist_append_left names [name]))

theorem Holds.length_eq (hn : s.Holds names) : s.spans.length = names.length :=
  List.Forall₂.length_eq hn

/-- Names that a set does not refuse for their length. -/
def Sized (names : List Bytes) : Prop :=
  ∀ name ∈ names, name ≠ [] ∧ name.length ≤ Blocklist.chunkBytes

theorem pushName_eq {names : List Bytes} {domain : Bytes} (hne : domain ≠ [])
    (hlen : domain.length ≤ Blocklist.chunkBytes) :
    pushName names domain (fun _ => true) = names ++ [domain.map asciiLowerByte] :=
  if_pos ⟨hne, hlen, rfl⟩

/-- What a list of names holds after pushes. -/
theorem foldl_nameStep_push {more : List Bytes} (hsized : Sized more) (names : List Bytes) :
    (more.map Op.push).foldl nameStep names = names ++ more.map (List.map asciiLowerByte) := by
  induction more generalizing names with
  | nil => simp
  | cons domain more ih =>
    obtain ⟨hne, hlen⟩ := hsized domain List.mem_cons_self
    have hstep : nameStep names (.push domain) = names ++ [domain.map asciiLowerByte] :=
      pushName_eq hne hlen
    rw [List.map_cons, List.foldl_cons, hstep, ih fun name h => hsized name (List.mem_cons_of_mem _ h)]
    simp

/-- The operation is a push. -/
def Op.pushes : Op → Bool
  | .retain _ => false
  | _ => true

/-- What pushes add to a list does not depend on it. -/
theorem foldl_nameStep_of_pushes {ops : List Op} (hpush : ∀ op ∈ ops, op.pushes = true)
    (names : List Bytes) : ops.foldl nameStep names = names ++ ops.foldl nameStep [] := by
  induction ops generalizing names with
  | nil => simp
  | cons op ops ih =>
    have hstep : nameStep names op = names ++ nameStep [] op := by
      have hname : ∀ domain accept,
          pushName names domain accept = names ++ pushName [] domain accept := by
        intro domain accept
        unfold pushName
        split <;> simp
      cases op with
      | push domain => exact hname domain fun _ => true
      | pushLowercaseIf domain accept => exact hname domain accept
      | retain keep => cases hpush _ List.mem_cons_self
    have hrest := ih fun op hop => hpush op (List.mem_cons_of_mem _ hop)
    rw [List.foldl_cons, List.foldl_cons, hstep, hrest, hrest (nameStep [] op), List.append_assoc]

/-- **A push that finds the set full is missing in it.** -/
theorem length_pushes {ops : List Op} (hpush : ∀ op ∈ ops, op.pushes = true) (h : s.Layout)
    (hn : s.Holds names) :
    (ops.foldl step s).spans.length ≤ (ops.foldl nameStep names).length ∧
      ((ops.foldl step s).spans.length = (ops.foldl nameStep names).length →
        s.NeverFull ops) := by
  induction ops generalizing s names with
  | nil => exact ⟨hn.length_eq.le, fun _ => trivial⟩
  | cons op ops ih =>
    have hpush' : ∀ op ∈ ops, op.pushes = true := fun op hop => hpush op (List.mem_cons_of_mem _ hop)
    rw [List.foldl_cons, List.foldl_cons]
    by_cases hfits : op.fits s
    · obtain ⟨h', hn'⟩ := step_spec op h hn hfits
      obtain ⟨hle, hfull⟩ := ih hpush' h' hn'
      exact ⟨hle, fun heq => ⟨hfits, hfull heq⟩⟩
    · obtain ⟨hsame, name, hname⟩ := step_of_full h names hfits
      obtain ⟨hle, -⟩ := ih hpush' h hn
      have hmore := foldl_nameStep_of_pushes hpush' (names ++ [name])
      have hold := foldl_nameStep_of_pushes hpush' names
      rw [hsame, hname, hmore]
      rw [hold] at hle
      simp only [List.length_append, List.length_singleton] at hle ⊢
      exact ⟨by omega, fun heq => absurd heq (by omega)⟩

/-- Pushes leave what is there, also in a set that is full. -/
theorem exists_holds_pushes (more : List Bytes) (h : s.Layout) (hn : s.Holds names) :
    ∃ rest, ((more.map Op.push).foldl step s).Holds (names ++ rest) := by
  induction more generalizing s names with
  | nil => exact ⟨[], by rw [List.append_nil]; exact hn⟩
  | cons domain more ih =>
    rw [List.map_cons, List.foldl_cons]
    by_cases hroom : s.FindsRoom domain
    · obtain ⟨h', hn'⟩ := step_spec (.push domain) h hn hroom
      obtain ⟨new, hnew⟩ : ∃ new, nameStep names (.push domain) = names ++ new := by
        show ∃ new, pushName names domain (fun _ => true) = names ++ new
        unfold pushName
        split
        · exact ⟨_, rfl⟩
        · exact ⟨[], (List.append_nil _).symm⟩
      rw [hnew] at hn'
      obtain ⟨rest, hrest⟩ := ih h' hn'
      exact ⟨new ++ rest, by rw [← List.append_assoc]; exact hrest⟩
    · have hsame : s.step (.push domain) = s := by
        show (s.pushLowercaseIf domain _).1 = s
        rw [pushLowercaseIf_of_full h _ hroom]
      rw [hsame]
      exact ih h hn

/-! ### How much fits -/

/-- The bytes that an operation offers. -/
def Op.size : Op → ℕ
  | .push domain => domain.length
  | .pushLowercaseIf domain _ => domain.length
  | .retain _ => 0

/-- The text up to the end of the last chunk, if `width` bytes of each chunk count. -/
def used (width : ℕ) (s : DomainSet) : ℕ :=
  (s.chunks.length - 1) * width + (s.chunks.getLastD []).length

/-- A chunk is left behind only for a domain that does not fit into it any more. -/
theorem used_roomy {width waste : ℕ} (s : DomainSet) {domain : Bytes}
    (hwidth : width + domain.length ≤ s.chunkBytes + 1 + waste) :
    ({ s with chunks := s.roomy domain } : DomainSet).used width ≤ s.used width + waste := by
  unfold used DomainSet.roomy
  by_cases hhas : s.hasRoom domain = true
  · simp only [if_pos hhas]
    omega
  · simp only [if_neg hhas]
    rcases List.eq_nil_or_concat' s.chunks with hnil | ⟨init, last, hlast⟩
    · simp [hnil]
    · have hover : s.chunkBytes < last.length + domain.length := by
        unfold hasRoom at hhas
        rw [hlast, List.getLast?_concat, Option.any_some, decide_eq_true_eq] at hhas
        omega
      have hmul : (init.length + 1) * width = init.length * width + width := Nat.succ_mul _ _
      simp only [hlast, List.length_append, List.length_singleton, Nat.add_sub_cancel,
        List.getLastD_concat, List.length_nil]
      omega

theorem used_push {width waste : ℕ} (h : s.Layout) {domain : Bytes} (accept : Bytes → Bool)
    (hroom : s.FindsRoom domain) (hwidth : width + domain.length ≤ Blocklist.chunkBytes + 1 + waste) :
    (s.pushLowercaseIf domain accept).1.used width ≤ s.used width + (waste + domain.length) := by
  by_cases hlen : domain ≠ [] ∧ domain.length ≤ Blocklist.chunkBytes
  · obtain ⟨chunk, hchunk, -, heq⟩ := pushLowercaseIf_eq h accept hroom hlen.1 hlen.2
    rw [← h.width] at hwidth
    have hroomy := s.used_roomy hwidth
    unfold used at hroomy ⊢
    rw [heq]
    dsimp only at hroomy ⊢
    rw [List.getLastD_eq_getLast?, List.getLast?_eq_getElem?, hchunk, Option.getD_some] at hroomy
    split
    · have hlt := (List.getElem?_eq_some_iff.1 hchunk).1
      rw [List.length_set, List.getLastD_eq_getLast?, List.getLast?_eq_getElem?, List.length_set,
        List.getElem?_set_self hlt, Option.getD_some, List.length_append, List.length_map]
      omega
    · dsimp only
      rw [List.getLastD_eq_getLast?, List.getLast?_eq_getElem?, hchunk, Option.getD_some]
      omega
  · rw [pushLowercaseIf_of_size h accept hlen]
    exact Nat.le_add_right _ _

/-- A run finds room all through if its domains and what they leave behind fit into 1022
chunks: one more chunk is then always below the limit. -/
theorem neverFull_of_cost {ops : List Op} (width : ℕ) (waste : Op → ℕ) (h : s.Layout)
    (hn : s.Holds names)
    (hwidth : ∀ op ∈ ops, width + op.size ≤ Blocklist.chunkBytes + 1 + waste op)
    (hsize : s.used width + (ops.map fun op => waste op + op.size).sum < 1022 * width) :
    s.NeverFull ops := by
  induction ops generalizing s names with
  | nil => trivial
  | cons op ops ih =>
    rw [List.map_cons, List.sum_cons] at hsize
    have hlimit : s.atLimit = false := by
      have hused : (s.chunks.length - 1) * width < 1022 * width := by
        unfold used at hsize
        omega
      have hcount := Nat.lt_of_mul_lt_mul_right hused
      have hmul : (s.chunks.length + 1) * Blocklist.chunkBytes ≤ 1023 * Blocklist.chunkBytes :=
        Nat.mul_le_mul_right _ (by omega)
      have hmax : 1023 * Blocklist.chunkBytes ≤ maxTextBytes := by decide
      unfold atLimit
      rw [h.width]
      exact decide_eq_false (by omega)
    have hroom (domain : Bytes) : s.FindsRoom domain := fun _ _ => Or.inr hlimit
    have hfits : op.fits s := by
      cases op with
      | push domain => exact hroom domain
      | pushLowercaseIf domain accept => exact fun _ => hroom domain
      | retain keep => trivial
    have hused : (s.step op).used width ≤ s.used width + (waste op + op.size) := by
      have hop := hwidth op List.mem_cons_self
      cases op with
      | push domain => exact used_push h _ (hroom domain) hop
      | pushLowercaseIf domain accept => exact used_push h accept (hroom domain) hop
      | retain keep => exact Nat.le_add_right _ _
    obtain ⟨h', hn'⟩ := step_spec op h hn hfits
    exact ⟨hfits, ih h' hn' (fun op hop => hwidth op (List.mem_cons_of_mem _ hop)) (by omega)⟩

/-- **Half of the limit is always enough**: at worst every other chunk stays empty. -/
theorem neverFull_of_size {ops : List Op} (h : s.Layout) (hn : s.Holds names)
    (hsize : s.used Blocklist.chunkBytes + (ops.map fun op => op.size + op.size).sum <
      1022 * Blocklist.chunkBytes) : s.NeverFull ops :=
  neverFull_of_cost _ _ h hn (fun op _ => by omega) hsize

/-- Short names leave little behind. -/
theorem neverFull_of_short {more : List Bytes} (size : ℕ) (h : s.Layout) (hn : s.Holds names)
    (hshort : ∀ name ∈ more, name.length ≤ size)
    (hsize : s.used (Blocklist.chunkBytes - size) + (more.map List.length).sum <
      1022 * (Blocklist.chunkBytes - size)) : s.NeverFull (more.map .push) := by
  refine neverFull_of_cost (Blocklist.chunkBytes - size) (fun _ => 0) h hn ?_ ?_
  · intro op hop
    obtain ⟨name, hname, rfl⟩ := List.mem_map.1 hop
    have hle := hshort name hname
    show _ - size + name.length ≤ _ + 1 + 0
    omega
  · rw [List.map_map]
    simpa [Function.comp_def, Op.size] using hsize

/-- The dots at the end of a span are those at the end of its name. -/
theorem cutDots_eq {chunk before name after : Bytes} (hchunk : chunk = before ++ (name ++ after)) :
    cutDots chunk before.length name.length = (trimDots name).length := by
  induction name using List.reverseRecOn generalizing after with
  | nil => rfl
  | append_singleton name b ih =>
    have hb : chunk[before.length + name.length]? = some b := by
      rw [hchunk, List.getElem?_append_right (by omega)]
      simp
    rw [List.length_append, List.length_singleton, cutDots, hb]
    unfold trimDots at ih ⊢
    rw [List.reverse_append, List.reverse_singleton, List.singleton_append]
    by_cases hdot : b = 46
    · rw [if_pos (by rw [hdot]), List.dropWhile_cons_of_pos (by rw [hdot]; rfl)]
      have hshorter : chunk = before ++ (name ++ ([b] ++ after)) := by rw [hchunk, List.append_assoc]
      exact ih hshorter
    · rw [if_neg fun h => hdot (Option.some.inj h), List.dropWhile_cons_of_neg (by simpa using hdot)]
      simp

theorem trimDots_eq_take (b : Bytes) : trimDots b = b.take (trimDots b).length := by
  have hpre : trimDots b <+: b := by
    unfold trimDots
    rw [← List.reverse_suffix, List.reverse_reverse]
    exact List.dropWhile_suffix _
  exact List.prefix_iff_eq_take.1 hpre

/-- A span cut at its dots is the span of the name without them. -/
theorem At.trimSpan (h : s.At span name) : s.At (s.trimSpan span) (trimDots name) := by
  obtain ⟨before, after, hchunk, hlen⟩ := h.lies
  have hget : s.chunks.getD (span.1.toNat / s.chunkBytes) [] = before ++ (name ++ after) := by
    rw [List.getD_eq_getElem?_getD, hchunk, Option.getD_some]
  have hcut : cutDots (before ++ (name ++ after)) before.length name.length =
      (trimDots name).length := cutDots_eq rfl
  have hle : (trimDots name).length ≤ name.length := by
    rw [trimDots_eq_take]
    exact List.length_take_le' _ _
  have hstop := h.stop
  have hlt : span.2.toNat < 2 ^ 32 := span.2.toNat_lt
  constructor
  · show (UInt32.ofNat _).toNat = span.1.toNat + _
    rw [hget, h.len, ← hlen, hcut]
    exact UInt32.toNat_ofNat_of_lt' (by unfold UInt32.size; omega)
  · show Chunks.Lies s.chunks s.chunkBytes span.1.toNat (trimDots name)
    rw [trimDots_eq_take]
    exact h.lies.take _

/-- **`prepare_keys` leaves each name once**, without the dots at its end, in the order of
bytes. -/
theorem Holds.prepareKeys (hn : s.Holds names) :
    s.prepareKeys.Holds s.prepareKeys.iter ∧
      s.prepareKeys.iter.Pairwise (fun a b => byteOrder a < byteOrder b) ∧
      ∀ key, key ∈ s.prepareKeys.iter ↔ ∃ name ∈ names, trimDots name = key := by
  have htrim : ({ s with spans := s.spans.map s.trimSpan } : DomainSet).Holds
      (names.map trimDots) := by
    show List.Forall₂ _ (s.spans.map s.trimSpan) _
    rw [List.forall₂_map_left_iff, List.forall₂_map_right_iff]
    exact hn.imp fun _ _ hat => ⟨hat.trimSpan.stop, hat.trimSpan.lies⟩
  refine ⟨holds_of_at fun span hspan => ?_, ?_, fun key => ?_⟩
  · have hat := htrim.at_slice (Chunks.mem_of_mem_sortDedup hspan)
    exact ⟨hat.stop, hat.lies⟩
  · exact List.pairwise_map.2 (Chunks.pairwise_sortDedup _ _)
  · have hkey : key ∈ s.prepareKeys.iter ↔ byteOrder key ∈
        s.prepareKeys.spans.map fun span => byteOrder (s.slice span) := by
      unfold iter
      rw [List.mem_map, List.mem_map]
      exact exists_congr fun span => and_congr_right fun _ => byteOrder_injective.eq_iff.symm
    rw [hkey]
    show byteOrder key ∈ (Chunks.sortDedup _ _).map _ ↔ _
    rw [Chunks.mem_map_sortDedup, List.mem_map]
    have htrimmed := htrim.iter_eq
    unfold iter at htrimmed
    constructor
    · rintro ⟨span, hspan, hslice⟩
      have hmem : key ∈ names.map trimDots := by
        rw [← htrimmed, ← byteOrder_injective hslice]
        exact List.mem_map_of_mem hspan
      exact List.mem_map.1 hmem
    · intro h
      rw [← List.mem_map, ← htrimmed] at h
      obtain ⟨span, hspan, rfl⟩ := List.mem_map.1 h
      exact ⟨span, hspan, rfl⟩

end DomainSet

end Ferrite.Blocklist
