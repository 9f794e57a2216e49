import Ferrite.Blocklist.Names

/-!
# Manual entries come and go

`blocklist/src/manual.rs`: entries are added, listed and removed by the form that `normalise`
gives them, and filed as exact names or as patterns by the shape of that form.  A `/regex/`
keeps its case and loses the blanks around it; anything else loses its case and the dots at
its end.  What looks like a regex only once its dots are gone keeps its blanks.

* `remove_add` — an entry that was not there can be added and removed again;
* `normalise_normalise_iff` — a listed form is its own form, unless blanks stand around a regex;
* `listed_entries_removed_iff` — what is listed can be removed by its own text exactly if no
  such entry was taken.
-/

namespace Ferrite

namespace Blocklist

theorem regexBody_trim (e : Text) : regexBody e.trim = regexBody e := by
  unfold regexBody
  rw [Text.trim_trim]

/-- A `/regex/` with blanks around it. -/
def Padded (s : Text) : Prop := (regexBody s).isSome = true ∧ s.trim ≠ s

instance (s : Text) : Decidable (Padded s) := inferInstanceAs (Decidable (_ ∧ _))

/-- **A normal form is its own**, unless it is a regex with blanks around it. -/
theorem normalise_normalise_iff (e : Text) :
    normalise (normalise e) = normalise e ↔ ¬ Padded (normalise e) := by
  by_cases hregex : (regexBody e).isSome = true
  · have hform : normalise e = e.trim := if_pos hregex
    have hagain : normalise e.trim = e.trim := by
      unfold normalise
      rw [regexBody_trim, if_pos hregex, Text.trim_trim]
    rw [hform, hagain]
    exact iff_of_true rfl fun hpad => hpad.2 (Text.trim_trim e)
  · have hform : normalise e = e.toAsciiLowercase.trimEndMatches (· == '.') := if_neg hregex
    by_cases hshape : (regexBody (normalise e)).isSome = true
    · have hagain : normalise (normalise e) = (normalise e).trim := if_pos hshape
      rw [hagain]
      constructor
      · intro hsame hpad
        exact hpad.2 hsame
      · intro hpad
        by_contra hne
        exact hpad ⟨hshape, hne⟩
    · refine iff_of_true ?_ fun hpad => hshape hpad.1
      rw [normalise, if_neg hshape, hform, Text.toAsciiLowercase_trimEndMatches_dot,
        Text.toAsciiLowercase_toAsciiLowercase, Text.trimEndMatches_trimEndMatches]

/-! ## The lists that can be reached -/

namespace ManualList

/-- `ManualList::entries`.  The order of the exact names is that of a hash set. -/
def entries (l : ManualList) : Multiset Text := l.exact.val + (l.wildcards.map Prod.fst : List Text)

/-- What is done to a list. -/
inductive Edit where
  | add (e : Text)
  | remove (e : Text)

variable (env : Crates)

/-- An edit; an entry that is refused changes nothing. -/
def edit (l : ManualList) : Edit → ManualList
  | .add e =>
    match l.add env e with
    | .ok l' => l'
    | .error _ => l
  | .remove e => l.remove e

/-- The list after edits of what the configuration gave. -/
def edited (config : List Text) (edits : List Edit) : ManualList :=
  edits.foldl (edit env) (fromEntries env config)

/-- `validate_entry`: a pattern has to compile, a plain name always passes. -/
def accepts (e : Text) : Prop :=
  isPattern (normalise e) = true → ∃ re, patternToRegex env (normalise e) = .ok re

/-- Each entry is filed under its shape, and is the normal form of one that was taken. -/
structure Filed (taken : Text → Prop) (l : ManualList) : Prop where
  exact_ : ∀ d ∈ l.exact, isPattern d = false ∧ ∃ e, taken e ∧ normalise e = d
  wildcards : ∀ w ∈ l.wildcards, isPattern w.1 = true ∧ ∃ e, taken e ∧ normalise e = w.1

variable {env} {taken : Text → Prop} {l : ManualList}

theorem mem_entries {s : Text} : s ∈ l.entries ↔ s ∈ l.exact ∨ ∃ w ∈ l.wildcards, w.1 = s := by
  unfold entries
  rw [Multiset.mem_add, Multiset.mem_coe, List.mem_map]
  rfl

/-- What an accepted entry does. -/
theorem add_eq_ok {e : Text} {l' : ManualList} (h : l.add env e = .ok l') :
    accepts env e ∧
      ((isPattern (normalise e) = false ∧ l' = { l with exact := insert (normalise e) l.exact }) ∨
        (isPattern (normalise e) = true ∧
          ((l' = l ∧ ∃ w ∈ l.wildcards, w.1 = normalise e) ∨
            ∃ re, l' = { l with wildcards := l.wildcards ++ [(normalise e, re)] }))) := by
  unfold add at h
  dsimp only at h
  by_cases hpattern : isPattern (normalise e) = true
  · rw [if_pos hpattern] at h
    cases hregex : patternToRegex env (normalise e) with
    | error err =>
      rw [hregex] at h
      cases h
    | ok re =>
      rw [hregex] at h
      dsimp only at h
      refine ⟨fun _ => ⟨re, hregex⟩, Or.inr ⟨hpattern, ?_⟩⟩
      split at h
      · rename_i hthere
        cases h
        obtain ⟨w, hw, hsame⟩ := List.any_eq_true.1 hthere
        exact Or.inl ⟨rfl, w, hw, beq_iff_eq.1 hsame⟩
      · cases h
        exact Or.inr ⟨re, rfl⟩
  · rw [if_neg hpattern] at h
    cases h
    exact ⟨fun h => absurd h hpattern, Or.inl ⟨Bool.not_eq_true _ ▸ hpattern, rfl⟩⟩

/-- **An entry that was not there can be taken back.** -/
theorem remove_add {e : Text} {l' : ManualList} (h : l.add env e = .ok l')
    (hnew : normalise e ∉ l.entries) : l'.remove e = l := by
  rw [mem_entries, not_or] at hnew
  obtain ⟨-, ⟨hshape, rfl⟩ | ⟨hshape, ⟨rfl, hthere⟩ | ⟨re, rfl⟩⟩⟩ := add_eq_ok h
  · unfold remove
    dsimp only
    rw [if_neg (by rw [hshape]; exact Bool.false_ne_true), Finset.erase_insert hnew.1]
  · exact absurd hthere hnew.2
  · unfold remove
    dsimp only
    rw [if_pos hshape, List.filter_append]
    have hkeep : (l.wildcards.filter fun w => w.1 != normalise e) = l.wildcards := by
      refine List.filter_eq_self.2 fun w hw => bne_iff_ne.2 fun hsame => ?_
      exact hnew.2 ⟨w, hw, hsame⟩
    simp [hkeep]

/-- What is listed is removed by its own text if that text is its own normal form. -/
theorem not_mem_remove_self {s : Text} (hfiled : Filed taken l) (hs : normalise s = s) :
    s ∉ (l.remove s).entries := by
  unfold remove
  dsimp only
  rw [hs]
  split
  · rename_i hshape
    rw [mem_entries]
    rintro (h | ⟨w, hw, rfl⟩)
    · rw [(hfiled.exact_ s h).1] at hshape
      cases hshape
    · exact bne_iff_ne.1 (List.mem_filter.1 hw).2 rfl
  · rename_i hshape
    rw [mem_entries]
    rintro (h | ⟨w, hw, rfl⟩)
    · exact Finset.notMem_erase s l.exact h
    · exact hshape (hfiled.wildcards w hw).1

/-- A regex with blanks around it is looked for without them. -/
theorem mem_remove_padded {w : Text × Regex} (hw : w ∈ l.wildcards) (hpad : Padded w.1) :
    w.1 ∈ (l.remove w.1).entries := by
  have hform : normalise w.1 = w.1.trim := if_pos hpad.1
  have hshape : isPattern w.1.trim = true := by
    unfold isPattern
    rw [regexBody_trim, hpad.1, Bool.or_true]
  unfold remove
  dsimp only
  rw [hform, if_pos hshape, mem_entries]
  exact Or.inr ⟨w, List.mem_filter.2 ⟨hw, bne_iff_ne.2 (Ne.symm hpad.2)⟩, rfl⟩

/-! ### A run -/

theorem Filed.mono {taken' : Text → Prop} (h : Filed taken l) (hle : ∀ e, taken e → taken' e) :
    Filed taken' l :=
  ⟨fun d hd => ⟨(h.exact_ d hd).1, (h.exact_ d hd).2.imp fun e he => ⟨hle e he.1, he.2⟩⟩,
    fun w hw => ⟨(h.wildcards w hw).1, (h.wildcards w hw).2.imp fun e he => ⟨hle e he.1, he.2⟩⟩⟩

/-- A name is filed. -/
theorem Filed.insert (h : Filed taken l) {e : Text} (hshape : isPattern (normalise e) = false)
    (he : taken e) : Filed taken { l with exact := Insert.insert (normalise e) l.exact } := by
  refine ⟨fun d hd => ?_, h.wildcards⟩
  rcases Finset.mem_insert.1 hd with rfl | hd
  · exact ⟨hshape, e, he, rfl⟩
  · exact h.exact_ d hd

/-- A pattern is filed. -/
theorem Filed.append (h : Filed taken l) {e : Text} (hshape : isPattern (normalise e) = true)
    (he : taken e) (re : Regex) :
    Filed taken { l with wildcards := l.wildcards ++ [(normalise e, re)] } := by
  refine ⟨h.exact_, fun w hw => ?_⟩
  rcases List.mem_append.1 hw with hw | hw
  · exact h.wildcards w hw
  · obtain rfl := List.mem_singleton.1 hw
    exact ⟨hshape, e, he, rfl⟩

theorem Filed.edit (h : Filed taken l) {edit : Edit}
    (he : ∀ e, edit = .add e → accepts env e → taken e) : Filed taken (l.edit env edit) := by
  cases edit with
  | add e =>
    show Filed taken (match l.add env e with | .ok l' => l' | .error _ => l)
    cases hadd : l.add env e with
    | error err => exact h
    | ok l' =>
      obtain ⟨hacc, ⟨hshape, rfl⟩ | ⟨hshape, ⟨rfl, -⟩ | ⟨re, rfl⟩⟩⟩ := add_eq_ok hadd
      · exact h.insert hshape (he e rfl hacc)
      · exact h
      · exact h.append hshape (he e rfl hacc) re
  | remove e =>
    show Filed taken (l.remove e)
    unfold remove
    dsimp only
    split
    · exact ⟨h.exact_, fun w hw => h.wildcards w (List.mem_of_mem_filter hw)⟩
    · exact ⟨fun d hd => h.exact_ d (Finset.mem_of_mem_erase hd), h.wildcards⟩

theorem Filed.seed (h : Filed taken l) {e : Text} (he : accepts env e → taken e) :
    Filed taken (l.seed env e) := by
  unfold ManualList.seed
  dsimp only
  by_cases hshape : isPattern (normalise e) = true
  · rw [if_pos hshape]
    cases hregex : patternToRegex env (normalise e) with
    | error err => exact h
    | ok re => exact h.append hshape (he fun _ => ⟨re, hregex⟩) re
  · rw [if_neg hshape]
    exact h.insert (Bool.not_eq_true _ ▸ hshape) (he fun hp => absurd hp hshape)

variable (env) in
/-- The entries that were taken: of those that the configuration gives or an edit adds, the
accepted ones. -/
def Given (config : List Text) (edits : List Edit) (e : Text) : Prop :=
  (e ∈ config ∨ Edit.add e ∈ edits) ∧ accepts env e

theorem filed_fromEntries (config : List Text) :
    Filed (Given env config []) (fromEntries env config) := by
  unfold fromEntries
  induction config using List.reverseRecOn with
  | nil => exact ⟨nofun, nofun⟩
  | append_singleton config e ih =>
    rw [List.foldl_append]
    have hmore : ∀ e', Given env config [] e' → Given env (config ++ [e]) [] e' :=
      fun e' h => ⟨h.1.imp_left (List.mem_append_left _), h.2⟩
    exact (ih.mono hmore).seed fun hacc => ⟨Or.inl (List.mem_append_right _ List.mem_cons_self), hacc⟩

/-- **In every reached list** each entry is filed under its shape, and came from one taken. -/
theorem filed_edited (config : List Text) (edits : List Edit) :
    Filed (Given env config edits) (edited env config edits) := by
  unfold edited
  induction edits using List.reverseRecOn with
  | nil => exact filed_fromEntries config
  | append_singleton edits edit ih =>
    rw [List.foldl_append]
    have hmore : ∀ e, Given env config edits e → Given env config (edits ++ [edit]) e :=
      fun e h => ⟨h.1.imp_right (List.mem_append_left _), h.2⟩
    refine (ih.mono hmore).edit fun e he hacc => ⟨Or.inr ?_, hacc⟩
    exact List.mem_append_right _ (he ▸ List.mem_cons_self)

/-- **Manual entries can be taken back.**  In every list that edits reach, an entry that was not
there can be added and removed with nothing changed; all that is listed can be removed by its
own text exactly if no pattern listed is a regex with blanks around it, and none is as long as
no entry was taken whose form is one. -/
theorem listed_entries_removed_iff (env : Crates) (config : List Text) (edits : List Edit) :
    let l := edited env config edits
    (∀ e l', l.add env e = .ok l' → normalise e ∉ l.entries →
      (l'.remove e).entries = l.entries ∧
        ∀ domain, (l'.remove e).contains env domain = l.contains env domain) ∧
    ((∀ s ∈ l.entries, s ∉ (l.remove s).entries) ↔ ∀ w ∈ l.wildcards, ¬ Padded w.1) ∧
    ((∀ e, Given env config edits e → ¬ Padded (normalise e)) →
      ∀ s ∈ l.entries, s ∉ (l.remove s).entries) := by
  intro l
  have hfiled : Filed (Given env config edits) l := filed_edited config edits
  have hall : (∀ w ∈ l.wildcards, ¬ Padded w.1) → ∀ s ∈ l.entries, s ∉ (l.remove s).entries := by
    intro hclean s hs
    refine not_mem_remove_self hfiled ?_
    rcases mem_entries.1 hs with h | ⟨w, hw, rfl⟩
    · obtain ⟨hshape, e, -, rfl⟩ := hfiled.exact_ s h
      refine (normalise_normalise_iff e).2 fun hpad => ?_
      unfold isPattern at hshape
      rw [hpad.1, Bool.or_true] at hshape
      cases hshape
    · obtain ⟨-, e, -, he⟩ := hfiled.wildcards w hw
      have hpad := hclean w hw
      rw [← he] at hpad ⊢
      exact (normalise_normalise_iff e).2 hpad
  refine ⟨fun e l' hadd hnew => ?_, ⟨fun h w hw hpad => ?_, hall⟩, fun hclean => hall fun w hw => ?_⟩
  · rw [remove_add hadd hnew]
    exact ⟨rfl, fun _ => rfl⟩
  · exact h w.1 (mem_entries.2 (Or.inr ⟨w, hw, rfl⟩)) (mem_remove_padded hw hpad)
  · obtain ⟨-, e, hgiven, he⟩ := hfiled.wildcards w hw
    rw [← he]
    exact hclean e hgiven

/-! ### A regex behind a blank -/

/-- Crates whose builder takes every pattern, as one that matches names with its text. -/
def plainCrates : Crates := ⟨fun _ => none, id, fun _ body => .ok fun name => name.hasInfix body, []⟩

/-- The dot hides the regex from `normalise`, which leaves the blank in front of it. -/
def blankRegex : Text := " /foo/.".toList

theorem listed_entries_removed_iff_name :
    let l := edited plainCrates [] [.add "Ads.com.".toList]
    ∀ s ∈ l.entries, s ∉ (l.remove s).entries := by
  refine (listed_entries_removed_iff plainCrates [] [.add "Ads.com.".toList]).2.2 fun e he => ?_
  obtain ⟨h | h, -⟩ := he
  · cases h
  · obtain rfl : e = "Ads.com.".toList := Edit.add.inj (List.mem_singleton.1 h)
    decide +kernel

/-- The entry is listed with the blank, and cannot be removed by what is listed. -/
theorem blank_regex_stays :
    let l := edited plainCrates [] [.add blankRegex]
    " /foo/".toList ∈ l.entries ∧ " /foo/".toList ∈ (l.remove " /foo/".toList).entries := by
  intro l
  have hnames : l.wildcards.map Prod.fst = [" /foo/".toList] := by decide +kernel
  obtain ⟨w, hw, hname⟩ : ∃ w ∈ l.wildcards, w.1 = " /foo/".toList := by
    rw [← List.mem_map, hnames]
    exact List.mem_cons_self
  have hpad : Padded w.1 := by
    rw [hname]
    decide +kernel
  rw [← hname]
  exact ⟨mem_entries.2 (Or.inr ⟨w, hw, rfl⟩), mem_remove_padded hw hpad⟩

end ManualList

end Blocklist

end Ferrite
