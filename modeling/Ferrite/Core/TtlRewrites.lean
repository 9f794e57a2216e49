import Ferrite.Core.Walk

/-!
# Rewriting the TTLs of a message

`cap_ttls` and `set_ttls` walk a message a second time and write into it as they go.
`rewriteTtls_spec` says which bytes change.  Here the rest is added for any rewrite that
`Settles`, as the two do:

* `rewriteTtls_snd_iff` — what is returned says whether anything changed;
* `rewriteTtls_twice` — there is nothing left to do for a second rewrite;
* `ttl_rewrites_exact` — the two rewrites, on every byte string.
-/

namespace Ferrite.Wire

open Bytes

/-- A rewrite names only other TTLs, and is content with those it names. -/
structure Settles (f : UInt32 → Option UInt32) : Prop where
  other : ∀ ttl, f ttl ≠ some ttl
  content : ∀ ttl, f ((f ttl).getD ttl) = none

/-- A record the rewrite has a new TTL for. -/
def renewed (f : UInt32 → Option UInt32) (msg : Bytes) (r : RecordRef) : Bool :=
  decide (r.rtype ≠ typeOpt) && (f (msg.readU32 r.ttlOff)).isSome

section

variable {f : UInt32 → Option UInt32} {msg : Bytes} {rs : List RecordRef}

theorem patchTtl_of_not_renewed {r : RecordRef} (h : renewed f msg r = false) :
    patchTtl f msg r = msg := by
  unfold patchTtl
  unfold renewed at h
  by_cases hopt : r.rtype = typeOpt
  · simp [hopt]
  · have hnone : f (msg.readU32 r.ttlOff) = none := by simpa [hopt] using h
    simp [hopt, hnone]

/-- One round of the rewrite: the change of this record, or of one behind it. -/
theorem rewriteFrom_succ_snd {n : ℕ} {c c' : RecordCursor} {r : RecordRef}
    (h : c.next msg = (.record r, c')) :
    (rewriteFrom f (n + 1) c msg).2 =
      (renewed f msg r || (rewriteFrom f n c' (patchTtl f msg r)).2) := by
  simp only [rewriteFrom, h, patchTtl, renewed]
  by_cases hopt : r.rtype = typeOpt
  · simp [hopt]
  · cases hf : f (msg.readU32 r.ttlOff) <;> simp [hopt]

/-- A loop that reports no change has made none. -/
theorem rewriteFrom_of_false {n : ℕ} {c : RecordCursor} (h : (rewriteFrom f n c msg).2 = false) :
    (rewriteFrom f n c msg).1 = msg := by
  induction n generalizing c with
  | zero => rfl
  | succ n ih =>
    cases hnext : c.next msg with
    | mk step c' =>
      cases step with
      | record r =>
        rw [rewriteFrom_succ_snd hnext, Bool.or_eq_false_iff] at h
        rw [patchTtl_of_not_renewed h.1] at h
        rw [rewriteFrom_succ_record hnext, patchTtl_of_not_renewed h.1]
        exact ih h.2
      | done => simp [rewriteFrom, hnext]
      | malformed => simp [rewriteFrom, hnext]

/-- What the loop reports, given the records it will visit. -/
theorem rewriteFrom_snd {n : ℕ} {c : RecordCursor} (h : walkFrom msg n c = (rs, true)) :
    (rewriteFrom f n c msg).2 = rs.any (renewed f msg) := by
  induction n generalizing c msg rs with
  | zero =>
    obtain ⟨rfl, -⟩ := Prod.mk.inj h
    rfl
  | succ n ih =>
    rcases walkFrom_succ_cases msg n c with ⟨hp, hw⟩ | ⟨sec, d, hp, hr, hw⟩ |
      ⟨sec, d, r, stop, hp, hr, hw⟩
    · rw [hw] at h
      obtain ⟨rfl, -⟩ := Prod.mk.inj h
      simp [rewriteFrom, RecordCursor.next, hp]
    · rw [hw] at h
      cases (Prod.mk.inj h).2
    · rw [hw] at h
      obtain ⟨hrs, hok⟩ := Prod.mk.inj h
      have hnext : c.next msg = (.record r, { d with pos := stop }) :=
        next_eq_record_iff.2 ⟨sec, d, stop, hp, hr, rfl⟩
      have hbehind := agreeOn_patchTtl f hr
      have hwalk := walkFrom_congr (n := n) (c := { d with pos := stop }) (length_patchTtl f msg r)
        hbehind
      rw [rewriteFrom_succ_snd hnext, ih (hwalk.trans (Prod.ext rfl hok)), ← hrs, List.any_cons]
      refine congrArg (renewed f msg r || ·) ?_
      -- the records behind are read in the patched buffer as in the one before
      rw [Bool.eq_iff_iff, List.any_eq_true, List.any_eq_true]
      refine exists_congr fun r' => and_congr_right fun hr' => ?_
      have hb := walkFrom_bounds hr'
      have hsame := hbehind.readU32 (i := r'.ttlOff) (by simp only at hb; omega) (by omega)
      rw [renewed, renewed, hsame]

/-- What a rewrite reports on a message that walks cleanly. -/
theorem rewriteTtls_snd (h : walk msg = some (rs, true)) :
    (rewriteTtls msg f).2 = rs.any (renewed f msg) := by
  obtain ⟨c, hc, hw⟩ := walk_eq_some_iff.1 h
  rw [rewriteTtls, if_pos (isWellFormed_iff.2 ⟨rs, h⟩), hc]
  exact rewriteFrom_snd hw

theorem rewriteTtls_of_false (h : (rewriteTtls msg f).2 = false) : (rewriteTtls msg f).1 = msg := by
  unfold rewriteTtls at h ⊢
  split_ifs at h ⊢
  · cases hc : RecordCursor.new msg with
    | none => rfl
    | some c =>
      rw [hc] at h
      exact rewriteFrom_of_false h
  · rfl

/-- What is returned says whether anything changed. -/
theorem rewriteTtls_snd_iff (hf : Settles f) (h : walk msg = some (rs, true)) :
    (rewriteTtls msg f).2 = true ↔ (rewriteTtls msg f).1 ≠ msg := by
  constructor
  · intro hflag hsame
    rw [rewriteTtls_snd h, List.any_eq_true] at hflag
    obtain ⟨r, hr, hnew⟩ := hflag
    obtain ⟨hopt, hsome⟩ : r.rtype ≠ typeOpt ∧ (f (msg.readU32 r.ttlOff)).isSome = true := by
      simpa [renewed] using hnew
    obtain ⟨new, hnew⟩ := Option.isSome_iff_exists.1 hsome
    -- the TTL of that record reads as it did, and yet as the new one
    have httl := (rewriteTtls_spec f h).2.2.2 r hr
    rw [hsame, newTtl, if_neg hopt, hnew, Option.getD_some] at httl
    exact hf.other _ (by rw [hnew, httl])
  · intro hne
    by_contra hflag
    exact hne (rewriteTtls_of_false (by simpa using hflag))

/-- A second rewrite finds nothing to do. -/
theorem rewriteTtls_twice (hf : Settles f) (msg : Bytes) :
    (rewriteTtls (rewriteTtls msg f).1 f).1 = (rewriteTtls msg f).1 := by
  by_cases hwell : isWellFormed msg = true
  · obtain ⟨rs, h⟩ := isWellFormed_iff.1 hwell
    obtain ⟨hwalk, -, -, httl⟩ := rewriteTtls_spec f h
    refine rewriteTtls_of_false ?_
    rw [rewriteTtls_snd hwalk, List.any_eq_false]
    intro r hr
    simp only [renewed, httl r hr, newTtl]
    by_cases hopt : r.rtype = typeOpt
    · simp [hopt]
    · simp [hopt, hf.content]
  · have hsame : (rewriteTtls msg f).1 = msg := by simp [rewriteTtls, hwell]
    rw [hsame, hsame]

end

/-! ## The two rewrites -/

/-- What a rewrite by `g` makes of a message with the records `rs`. -/
structure Rewritten (msg : Bytes) (rs : List RecordRef) (g : UInt32 → UInt32) (out : Bytes × Bool) :
    Prop where
  length : out.1.length = msg.length
  walks : walk out.1 = some (rs, true)
  rdata : ∀ r ∈ rs, AgreeOn msg out.1 r.rdataOff (r.rdataOff + r.rdataLen)
  elsewhere : ∀ i, (∀ r ∈ rs, r.rtype = typeOpt ∨ ¬ r.inTtl i) → out.1[i]? = msg[i]?
  ttls : ∀ r ∈ rs, out.1.readU32 r.ttlOff =
    if r.rtype = typeOpt then msg.readU32 r.ttlOff else g (msg.readU32 r.ttlOff)
  changed : out.2 = true ↔ out.1 ≠ msg

theorem rewritten_rewriteTtls {f : UInt32 → Option UInt32} {msg : Bytes} {rs : List RecordRef}
    (hf : Settles f) (h : walk msg = some (rs, true)) :
    Rewritten msg rs (fun ttl => (f ttl).getD ttl) (rewriteTtls msg f) := by
  obtain ⟨hwalk, hlen, helse, httl⟩ := rewriteTtls_spec f h
  refine ⟨hlen, hwalk, ?_, helse, httl, rewriteTtls_snd_iff hf h⟩
  intro r hr i hi hi'
  refine helse i fun r' hr' => Or.inr ?_
  have hb := walk_bounds h hr
  have hb' := walk_bounds h hr'
  simp only [RecordRef.inTtl]
  rcases walk_apart h hr hr' with rfl | hapart | hapart <;> omega

theorem settles_cap (t : UInt32) : Settles fun ttl => if t < ttl then some t else none where
  other ttl h := by
    simp only [Option.ite_none_right_eq_some, Option.some.injEq] at h
    obtain ⟨hlt, rfl⟩ := h
    exact absurd hlt (UInt32.lt_irrefl _)
  content ttl := by
    by_cases hlt : t < ttl
    · simp [hlt]
    · simp [hlt]

theorem settles_set (t : UInt32) : Settles fun ttl => if ttl ≠ t then some t else none where
  other ttl h := by
    simp only [Option.ite_none_right_eq_some, Option.some.injEq] at h
    exact h.1 h.2.symm
  content ttl := by
    by_cases hne : ttl = t
    · simp [hne]
    · simp [hne]

theorem rewritten_capTtls {msg : Bytes} {rs : List RecordRef} (h : walk msg = some (rs, true))
    (t : UInt32) : Rewritten msg rs (fun old => min old t) (capTtls msg t) := by
  have hmin : (fun ttl => (if t < ttl then some t else none).getD ttl) = fun old => min old t := by
    funext ttl
    rw [Std.min_eq_if]
    by_cases hlt : t < ttl
    · simp [hlt, UInt32.not_le.2 hlt]
    · simp [hlt, UInt32.not_lt.1 hlt]
  rw [← hmin]
  exact rewritten_rewriteTtls (settles_cap t) h

theorem rewritten_setTtls {msg : Bytes} {rs : List RecordRef} (h : walk msg = some (rs, true))
    (t : UInt32) : Rewritten msg rs (fun _ => t) (setTtls msg t) := by
  have hset : (fun ttl => (if ttl ≠ t then some t else none).getD ttl) = fun _ => t := by
    funext ttl
    by_cases hne : ttl = t <;> simp [hne]
  rw [← hset]
  exact rewritten_rewriteTtls (settles_set t) h

/-- **TTL rewrites.**  A message that does not walk cleanly is left as it is.  Any other walks
to the same records, with the same bytes but for the TTLs of the records that are not OPT;
these become `min old t` or `t`.  The result says whether a byte changed, and a second rewrite
changes none. -/
theorem ttl_rewrites_exact (m : Bytes) (t : UInt32) :
    (isWellFormed m = false → capTtls m t = (m, false) ∧ setTtls m t = (m, false)) ∧
    (∀ rs, walk m = some (rs, true) →
      Rewritten m rs (fun old => min old t) (capTtls m t) ∧
      Rewritten m rs (fun _ => t) (setTtls m t)) ∧
    (capTtls (capTtls m t).1 t).1 = (capTtls m t).1 ∧
    (setTtls (setTtls m t).1 t).1 = (setTtls m t).1 := by
  refine ⟨?_, ?_, rewriteTtls_twice (settles_cap t) m, rewriteTtls_twice (settles_set t) m⟩
  · intro hbad
    simp [capTtls, setTtls, rewriteTtls, hbad]
  · intro rs h
    exact ⟨rewritten_capTtls h t, rewritten_setTtls h t⟩

end Ferrite.Wire
