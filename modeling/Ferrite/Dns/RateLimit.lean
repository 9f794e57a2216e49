import Mathlib.Tactic.FieldSimp
import Ferrite.Core.Networks
import Ferrite.Lib.TokenBucket
import Ferrite.Dns.Gate

/-!
# What the client gate limits

`ClientGate::take` is a draw from a token bucket of a minute's worth of queries
(`take_fst`, `bucketOf_take`), one bucket a client, and `sweep` forgets only buckets that
are full again (`Tracks.sweep`).  So the verdicts of one client over a run of the gate are
the draws of one bucket at the instants it asked (`verdictsOf_log`): its passes are bounded
over every window, and neither other clients nor sweeps are seen in them.

The access lists come last: `check` drops whom they keep out.
-/

namespace Ferrite.Dns

open TokenBucket (level left draws passes Sound)

/-- What happens to the buckets: a client asks, or the janitor sweeps. -/
inductive GateEvent where
  | take (ip : IpAddr) (now : ℕ)
  | sweep (now : ℕ)
deriving DecidableEq

/-- When it happens. -/
def GateEvent.now : GateEvent → ℕ
  | take _ now => now
  | sweep now => now

/-- The instants a client asks at. -/
def asks (ip : IpAddr) (es : List GateEvent) : List ℕ :=
  es.filterMap fun
    | .take ip' now => if ip' = ip then some now else none
    | .sweep _ => none

/-- The verdicts of one client, with their instants, out of those of all. -/
def verdictsOf (ip : IpAddr) (log : List (IpAddr × ℕ × Bool)) : List (ℕ × Bool) :=
  log.filterMap fun v => if v.1 = ip then some v.2 else none

/-- An instant in seconds. -/
def seconds (now : ℕ) : ℚ := now / 10 ^ 9

/-- The passes of a window that starts at `start` and lasts `length` seconds. -/
def passesIn (start length : ℚ) (vs : List (ℕ × Bool)) : ℕ :=
  vs.countP fun v =>
    decide (start ≤ seconds v.1) && decide (seconds v.1 ≤ start + length) && v.2

namespace ClientGate

/-- The verdicts of a run, in their order: who asked, when, and whether `take` let it
pass. -/
def log (g : ClientGate) : List GateEvent → List (IpAddr × ℕ × Bool)
  | [] => []
  | .take ip now :: es => (ip, now, (g.take ip now).1) :: log (g.take ip now).2 es
  | .sweep now :: es => log (g.sweep now) es

/-- The most queries a client has in hand. -/
def capacity (g : ClientGate) : ℚ := g.perMinute.toNat

/-- A client's bucket, on the clock of seconds. -/
def bucketOf (g : ClientGate) (ip : IpAddr) : Option (TokenBucket.Bucket ℚ) :=
  (g.buckets.lookup ip).map fun b => ⟨b.tokens, seconds b.since⟩

end ClientGate

/-! ## `take` and `sweep` as operations on a bucket -/

section

variable {g : ClientGate} {ip ip' : IpAddr} {now : ℕ}

theorem seconds_le_seconds {m n : ℕ} : seconds m ≤ seconds n ↔ m ≤ n := by
  rw [seconds, seconds, div_le_div_iff_of_pos_right (by norm_num), Nat.cast_le]

/-- The time that passed, as `take` works it out. -/
theorem seconds_sub {m n : ℕ} (h : m ≤ n) :
    (((n - m : ℕ) : ℚ) / 10 ^ 9) = seconds n - seconds m := by
  rw [seconds, seconds, Nat.cast_sub h, sub_div]

theorem capacity_nonneg (g : ClientGate) : 0 ≤ g.capacity := Nat.cast_nonneg _

theorem rate_nonneg (g : ClientGate) : 0 ≤ g.capacity / 60 :=
  div_nonneg (capacity_nonneg g) (by norm_num)

/-- What `take` finds in the bucket is its level. -/
theorem tokens_eq_level (hg : Sound (g.bucketOf ip) (seconds now)) :
    min (((g.buckets.lookup ip).getD ⟨g.capacity, now⟩).tokens +
      ((now - ((g.buckets.lookup ip).getD ⟨g.capacity, now⟩).since : ℕ) : ℚ) / 10 ^ 9 *
        g.capacity / 60) g.capacity =
    level g.capacity (g.capacity / 60) (g.bucketOf ip) (seconds now) := by
  unfold ClientGate.bucketOf at hg ⊢
  cases hb : g.buckets.lookup ip with
  | none => simp [level]
  | some b =>
    rw [hb] at hg
    have hsince : b.since ≤ now := seconds_le_seconds.1 (hg _ rfl).2
    simp only [Option.getD_some, Option.map_some, level]
    rw [seconds_sub hsince]
    congr 2
    ring

/-- `take` lets a query pass if its client's bucket holds a token. -/
theorem take_fst (hg : Sound (g.bucketOf ip) (seconds now)) :
    (g.take ip now).1 =
      decide (1 ≤ level g.capacity (g.capacity / 60) (g.bucketOf ip) (seconds now)) := by
  rw [← tokens_eq_level hg]
  rfl

@[simp] theorem take_perMinute : (g.take ip now).2.perMinute = g.perMinute := rfl

@[simp] theorem take_capacity : (g.take ip now).2.capacity = g.capacity := rfl

/-- `take` leaves in the bucket what a draw leaves, and the other buckets alone. -/
theorem bucketOf_take (hg : Sound (g.bucketOf ip) (seconds now)) :
    (g.take ip now).2.bucketOf ip =
      some (left g.capacity (g.capacity / 60) (g.bucketOf ip) (seconds now)) := by
  rw [left, ← tokens_eq_level hg]
  unfold ClientGate.bucketOf ClientGate.take
  simp only [Table.lookup_insert_eq, if_true, Option.map_some]
  rfl

theorem bucketOf_take_ne (h : ip' ≠ ip) : (g.take ip' now).2.bucketOf ip = g.bucketOf ip := by
  unfold ClientGate.bucketOf ClientGate.take
  simp [h.symm]

@[simp] theorem sweep_capacity : (g.sweep now).capacity = g.capacity := by
  unfold ClientGate.sweep ClientGate.capacity
  split <;> rfl

/-- A sweep takes a client's bucket away only if it was left alone for a minute. -/
theorem bucketOf_sweep (hn : 0 < g.perMinute) (ip : IpAddr) (now : ℕ) :
    (g.sweep now).bucketOf ip = g.bucketOf ip ∨
      (g.sweep now).bucketOf ip = none ∧
        ∀ x, g.bucketOf ip = some x → 60 ≤ seconds now - x.since := by
  have hne : g.perMinute ≠ 0 := fun h => by simp [h] at hn
  unfold ClientGate.bucketOf ClientGate.sweep
  rw [if_neg hne]
  cases hb : g.buckets.lookup ip with
  | none => exact Or.inl (by simp [Table.lookup_retain, hb])
  | some b =>
    by_cases hkept : now - b.since < 60 * 10 ^ 9
    · exact Or.inl (by rw [Table.lookup_retain, hb, Option.filter_some, decide_eq_true hkept]; rfl)
    · refine Or.inr ⟨by rw [Table.lookup_retain, hb, Option.filter_some,
        decide_eq_false hkept]; rfl, ?_⟩
      rintro x ⟨⟩
      have hlong : 60 * 10 ^ 9 ≤ now - b.since := not_lt.1 hkept
      have hle : b.since ≤ now := by omega
      rw [← seconds_sub hle, le_div_iff₀ (by norm_num)]
      exact_mod_cast hlong

/-! ## One client over a run -/

/-- The gate's bucket of a client, seen from an instant on, is as good as `b`. -/
structure Tracks (g : ClientGate) (ip : IpAddr) (b : Option (TokenBucket.Bucket ℚ)) (t : ℕ) :
    Prop where
  sound : Sound (g.bucketOf ip) (seconds t)
  level_eq : ∀ u, seconds t ≤ u →
    level g.capacity (g.capacity / 60) (g.bucketOf ip) u =
      level g.capacity (g.capacity / 60) b u

variable {b : Option (TokenBucket.Bucket ℚ)} {t : ℕ}

theorem Tracks.mono (h : Tracks g ip b t) (ht : t ≤ now) : Tracks g ip b now where
  sound := h.sound.mono (seconds_le_seconds.2 ht)
  level_eq u hu := h.level_eq u ((seconds_le_seconds.2 ht).trans hu)

/-- A client's own query draws from the bucket. -/
theorem Tracks.take (h : Tracks g ip b now) :
    Tracks (g.take ip now).2 ip
      (some (left g.capacity (g.capacity / 60) b (seconds now))) now := by
  have hleft : left g.capacity (g.capacity / 60) (g.bucketOf ip) (seconds now) =
      left g.capacity (g.capacity / 60) b (seconds now) := by
    rw [left, left, h.level_eq _ (le_refl _)]
  have hsound := TokenBucket.sound_left (capacity_nonneg g) (rate_nonneg g) h.sound
  constructor
  · rw [bucketOf_take h.sound]
    exact hsound
  · intro u _
    rw [bucketOf_take h.sound, hleft, take_capacity]

/-- Another client's query is not seen. -/
theorem Tracks.take_ne (h : Tracks g ip b now) (hne : ip' ≠ ip) :
    Tracks (g.take ip' now).2 ip b now := by
  constructor
  · rw [bucketOf_take_ne hne]
    exact h.sound
  · rw [bucketOf_take_ne hne]
    exact h.level_eq

/-- Neither is a sweep: a bucket it forgets had a minute to fill. -/
theorem Tracks.sweep (hn : 0 < g.perMinute) (h : Tracks g ip b now) :
    Tracks (g.sweep now) ip b now := by
  rcases bucketOf_sweep hn ip now with hsame | ⟨hgone, hidle⟩
  · constructor
    · rw [hsame]
      exact h.sound
    · rw [hsame, sweep_capacity]
      exact h.level_eq
  · constructor
    · rw [hgone]
      rintro x ⟨⟩
    · intro u hu
      rw [hgone, sweep_capacity, ← h.level_eq u hu]
      cases hb : g.bucketOf ip with
      | none => rfl
      | some x =>
        have hfull : level g.capacity (g.capacity / 60) (some x) u = g.capacity :=
          TokenBucket.level_eq_cap (rate_nonneg g) (h.sound x hb).1 (d := 60) (by ring)
            ((hidle x hb).trans (by linarith))
        rw [hfull]
        rfl

/-- The verdicts of one client over a run are the draws of one bucket at the instants it
asked: nothing else that happens to the gate is seen in them. -/
theorem verdictsOf_log (hn : 0 < g.perMinute) {es : List GateEvent}
    (hsorted : es.Pairwise fun x y => x.now ≤ y.now) (hg : ∀ e ∈ es, Tracks g ip b e.now) :
    (verdictsOf ip (g.log es)).map (fun v => (seconds v.1, v.2)) =
      draws g.capacity (g.capacity / 60) b ((asks ip es).map seconds) := by
  induction es generalizing g b with
  | nil => rfl
  | cons e es ih =>
    obtain ⟨hfirst, hrest⟩ := List.pairwise_cons.1 hsorted
    have he : Tracks g ip b e.now := hg e (List.mem_cons_self ..)
    cases e with
    | take ip' now =>
      by_cases hip : ip' = ip
      · subst hip
        have hafter := ih (g := (g.take ip' now).2) hn hrest fun e he' =>
          he.take.mono (hfirst e he')
        have hpass : (g.take ip' now).1 =
            decide (1 ≤ level g.capacity (g.capacity / 60) b (seconds now)) := by
          have hlevel := he.level_eq _ (le_refl _)
          exact (take_fst he.sound).trans (by rw [hlevel]; rfl)
        simp only [ClientGate.log, verdictsOf, asks, List.filterMap_cons, if_true, List.map_cons,
          draws, hpass]
        exact congrArg _ hafter
      · have hafter := ih (g := (g.take ip' now).2) hn hrest fun e he' =>
          (he.take_ne hip).mono (hfirst e he')
        simp only [ClientGate.log, verdictsOf, asks, List.filterMap_cons, if_neg hip]
        exact hafter
    | sweep now =>
      have hn' : 0 < (g.sweep now).perMinute := by
        unfold ClientGate.sweep
        split <;> exact hn
      have hafter := ih (g := g.sweep now) hn' hrest fun e he' =>
        (he.sweep hn).mono (hfirst e he')
      simp only [sweep_capacity] at hafter
      exact hafter

/-- A gate that knows no client holds a full bucket for each. -/
theorem tracks_of_empty (h : g.buckets = ∅) (ip : IpAddr) (t : ℕ) : Tracks g ip none t := by
  have hnone : g.bucketOf ip = none := by
    unfold ClientGate.bucketOf
    rw [h, AList.lookup_empty]
    rfl
  constructor
  · rw [hnone]
    rintro x ⟨⟩
  · intro u _
    rw [hnone]

/-- The instants one client asks at come in order too. -/
theorem pairwise_asks {es : List GateEvent} (hsorted : es.Pairwise fun x y => x.now ≤ y.now) :
    ((asks ip es).map seconds).Pairwise (· ≤ ·) := by
  rw [List.pairwise_map, asks, List.pairwise_filterMap]
  refine hsorted.imp ?_
  intro x y hxy m hm n hn
  rw [seconds_le_seconds]
  cases x with
  | sweep _ => simp at hm
  | take ip₁ t₁ =>
    cases y with
    | sweep _ => simp at hn
    | take ip₂ t₂ =>
      simp only [Option.ite_none_right_eq_some, Option.some.injEq] at hm hn
      obtain ⟨-, rfl⟩ := hm
      obtain ⟨-, rfl⟩ := hn
      exact hxy

/-- The passes of a window, on the clock of seconds. -/
theorem passesIn_eq (start length : ℚ) (vs : List (ℕ × Bool)) :
    passesIn start length vs =
      passes start (start + length) (vs.map fun v => (seconds v.1, v.2)) := by
  rw [passesIn, passes, List.countP_map]
  rfl

theorem map_seconds_injective :
    Function.Injective (List.map fun v : ℕ × Bool => (seconds v.1, v.2)) := by
  refine List.map_injective_iff.2 ?_
  rintro ⟨m, p⟩ ⟨n, q⟩ h
  obtain ⟨ht, rfl⟩ := Prod.mk.inj h
  have hmn : m = n := le_antisymm (seconds_le_seconds.1 ht.le) (seconds_le_seconds.1 ht.ge)
  rw [hmn]

/-- What is said of everybody, in order, is known from what is said of each. -/
theorem eq_of_verdictsOf {l l' : List (IpAddr × ℕ × Bool)}
    (hasked : l.map (fun v => (v.1, v.2.1)) = l'.map (fun v => (v.1, v.2.1)))
    (h : ∀ ip, verdictsOf ip l = verdictsOf ip l') : l = l' := by
  induction l generalizing l' with
  | nil => exact (List.map_eq_nil_iff.1 hasked.symm).symm
  | cons v l ih =>
    obtain ⟨v', l', rfl, hv, hrest⟩ := List.map_eq_cons_iff.1 hasked.symm
    obtain ⟨ip, now, pass⟩ := v
    obtain ⟨ip', now', pass'⟩ := v'
    obtain ⟨rfl, rfl⟩ := Prod.mk.inj hv
    have hpass : pass = pass' := by
      have := h ip'
      simp only [verdictsOf, List.filterMap_cons, if_true, List.cons.injEq, Prod.mk.injEq] at this
      exact this.1.2
    subst hpass
    refine congrArg _ (ih hrest.symm fun ip => ?_)
    have := h ip
    by_cases hip : ip' = ip
    · simp only [verdictsOf, List.filterMap_cons, if_pos hip, List.cons.injEq, true_and] at this
      exact this
    · simp only [verdictsOf, List.filterMap_cons, if_neg hip] at this
      exact this

/-- Who asks in a run, and when. -/
theorem map_log (g : ClientGate) (es : List GateEvent) :
    (g.log es).map (fun v => (v.1, v.2.1)) = es.filterMap fun
      | .take ip now => some (ip, now)
      | .sweep _ => none := by
  induction es generalizing g with
  | nil => rfl
  | cons e es ih =>
    cases e with
    | take ip now => simp [ClientGate.log, ih]
    | sweep now => simp [ClientGate.log, ih]

end

/-! ## The access lists -/

/-- The ranges an access list names. -/
def networks (entries : List Text) : List IpNetwork := entries.filterMap IpNetwork.parse

theorem any_contains_iff (entries : List Text) (ip : IpAddr) :
    ((networks entries).any fun n => n.contains ip) = true ↔
      ∃ net ∈ networks entries, net.Covers (unmapV4 ip) := by
  rw [List.any_eq_true]
  refine exists_congr fun net => and_congr_right fun hnet => ?_
  obtain ⟨s, -, hs⟩ := List.mem_filterMap.1 hnet
  exact contains_iff (pfx_le_width hs) ip

/-- An address the lists keep out: it is in a denied range, or there are allowed ranges and
it is in none. -/
def KeptOut (allowed denied : List Text) (ip : IpAddr) : Prop :=
  (∃ net ∈ networks denied, net.Covers ip) ∨
    (networks allowed ≠ [] ∧ ∀ net ∈ networks allowed, ¬ net.Covers ip)

/-- `admits` after `set_acl`. -/
theorem admits_setAcl (g : ClientGate) (allowed denied : List Text) (ip : IpAddr) :
    (g.setAcl allowed denied).admits ip = false ↔ KeptOut allowed denied (unmapV4 ip) := by
  have hallowed := any_contains_iff allowed ip
  have hdenied := any_contains_iff denied ip
  unfold ClientGate.setAcl ClientGate.admits KeptOut
  simp only [networks] at hallowed hdenied ⊢
  rw [← hdenied]
  split
  · next hany => simp [hany]
  · next hany =>
    have hnone : (∀ net ∈ List.filterMap IpNetwork.parse allowed, ¬ net.Covers (unmapV4 ip)) ↔
        ((List.filterMap IpNetwork.parse allowed).any fun n => n.contains ip) = false := by
      rw [Bool.eq_false_iff, Ne, hallowed]
      simp
    rw [hnone]
    simp [hany]

/-- `set_acl` notes that there are lists whenever one of them keeps somebody out. -/
theorem hasAcl_of_keptOut {g : ClientGate} {allowed denied : List Text} {ip : IpAddr}
    (h : KeptOut allowed denied ip) : (g.setAcl allowed denied).hasAcl = true := by
  unfold ClientGate.setAcl
  simp only [Bool.or_eq_true, decide_eq_true_eq]
  rcases h with ⟨net, hnet, -⟩ | ⟨hne, -⟩
  · exact Or.inr (List.ne_nil_of_mem hnet)
  · exact Or.inl hne

/-- `check` reads a mapped address as the address inside it. -/
theorem check_unmapV4 (g : ClientGate) (ip : IpAddr) (now : ℕ) :
    g.check (unmapV4 ip) now = g.check ip now := by
  unfold ClientGate.check
  rw [unmapV4_unmapV4]

/-- `check` drops whom the lists keep out, unless it is the box itself. -/
theorem check_of_keptOut {allowed denied : List Text} {ip : IpAddr} (g : ClientGate) (now : ℕ)
    (hloop : isLoopback (unmapV4 ip) = false) (h : KeptOut allowed denied (unmapV4 ip)) :
    ((g.setAcl allowed denied).check ip now).1 = .drop := by
  have hadmits : (g.setAcl allowed denied).admits (unmapV4 ip) = false := by
    rw [admits_setAcl, unmapV4_unmapV4]
    exact h
  unfold ClientGate.check
  simp [hloop, hasAcl_of_keptOut h, hadmits]

/-! ## The gate -/

/-- **What the gate limits.**  Under one limit of `n` queries a minute no client passes more
than `n + n * T / 60` times in any window of `T` seconds, its verdicts follow from its own
calls, and a sweep changes none.  And `check` drops every address, but the box's own, that
is in a denied range, or in none of the allowed ones where there are any. -/
theorem client_gate_limits (g : ClientGate) (hn : 0 < g.perMinute) (hfresh : g.buckets = ∅) :
    (∀ (es : List GateEvent) (ip : IpAddr) (start length : ℚ),
      (es.Pairwise fun x y => x.now ≤ y.now) → 0 ≤ length →
      (passesIn start length (verdictsOf ip (g.log es)) : ℚ) ≤
        g.perMinute.toNat + g.perMinute.toNat * length / 60) ∧
    (∀ (es es' : List GateEvent) (ip : IpAddr),
      (es.Pairwise fun x y => x.now ≤ y.now) → (es'.Pairwise fun x y => x.now ≤ y.now) →
      asks ip es = asks ip es' → verdictsOf ip (g.log es) = verdictsOf ip (g.log es')) ∧
    (∀ (es es' : List GateEvent) (now : ℕ),
      ((es ++ .sweep now :: es').Pairwise fun x y => x.now ≤ y.now) →
      g.log (es ++ .sweep now :: es') = g.log (es ++ es')) ∧
    ∀ (g' : ClientGate) (allowed denied : List Text) (ip : IpAddr) (now : ℕ),
      g'.check (unmapV4 ip) now = g'.check ip now ∧
      (isLoopback (unmapV4 ip) = false → KeptOut allowed denied (unmapV4 ip) →
        ((g'.setAcl allowed denied).check ip now).1 = .drop) := by
  -- every client's verdicts are the draws of one bucket, full at the start
  have hdraws : ∀ {es : List GateEvent} (ip : IpAddr),
      (es.Pairwise fun x y => x.now ≤ y.now) →
      (verdictsOf ip (g.log es)).map (fun v => (seconds v.1, v.2)) =
        TokenBucket.draws g.capacity (g.capacity / 60) none ((asks ip es).map seconds) :=
    fun ip hsorted => verdictsOf_log hn hsorted fun e _ => tracks_of_empty hfresh ip e.now
  have hown : ∀ {es es' : List GateEvent} {ip : IpAddr},
      (es.Pairwise fun x y => x.now ≤ y.now) → (es'.Pairwise fun x y => x.now ≤ y.now) →
      asks ip es = asks ip es' → verdictsOf ip (g.log es) = verdictsOf ip (g.log es') := by
    intro es es' ip hs hs' hsame
    refine map_seconds_injective ?_
    rw [hdraws ip hs, hdraws ip hs', hsame]
  refine ⟨?_, fun es es' ip hs hs' => hown hs hs', ?_, fun g' allowed denied ip now =>
    ⟨check_unmapV4 g' ip now, check_of_keptOut g' now⟩⟩
  · intro es ip start length hs hlength
    rw [passesIn_eq, hdraws ip hs]
    have hwindow : start ≤ start + length := by linarith
    have hfull : ∀ t ∈ (asks ip es).map seconds, TokenBucket.Sound (none : Option _) t := by
      rintro t - x ⟨⟩
    refine (TokenBucket.passes_le (capacity_nonneg g) (rate_nonneg g) hwindow
      (pairwise_asks hs) hfull).trans (le_of_eq ?_)
    rw [add_sub_cancel_left, ClientGate.capacity]
    ring
  · intro es es' now hs
    have hs' : (es ++ es').Pairwise fun x y => x.now ≤ y.now :=
      hs.sublist (List.Sublist.append_left (List.sublist_cons_self ..) es)
    refine eq_of_verdictsOf ?_ fun ip => hown hs hs' ?_
    · simp [map_log]
    · simp [asks]

/-- Two queries a minute: the third within a second is refused, whoever else asks and
whether or not the janitor comes by. -/
theorem client_gate_limits_two :
    (ClientGate.new 2 [] []).log [.take (.v4 ⟨10, 0, 0, 7⟩) 0, .take (.v4 ⟨10, 0, 0, 8⟩) 1,
        .take (.v4 ⟨10, 0, 0, 7⟩) 2, .sweep 3, .take (.v4 ⟨10, 0, 0, 7⟩) 4] =
      [(.v4 ⟨10, 0, 0, 7⟩, 0, true), (.v4 ⟨10, 0, 0, 8⟩, 1, true),
        (.v4 ⟨10, 0, 0, 7⟩, 2, true), (.v4 ⟨10, 0, 0, 7⟩, 4, false)] := by
  have hsweep := (client_gate_limits (ClientGate.new 2 [] []) (by decide) rfl).2.2.1
    [.take (.v4 ⟨10, 0, 0, 7⟩) 0, .take (.v4 ⟨10, 0, 0, 8⟩) 1, .take (.v4 ⟨10, 0, 0, 7⟩) 2]
    [.take (.v4 ⟨10, 0, 0, 7⟩) 4] 3 (by decide)
  simp only [List.cons_append, List.nil_append] at hsweep
  rw [hsweep]
  decide +kernel

end Ferrite.Dns
