import Ferrite.Lib.Threads
import Ferrite.Blocklist.Gating

/-!
# Pauses under concurrency

The operations of `blocklist/src/pause.rs`, taken apart at their lock and atomic-store
steps and run by any number of threads.  The deadlines are behind a lock; the two flags
the query path reads are atomics beside it.  `pause_clients`, `resume_clients` and
`expire` store their flag while they hold the lock, `pause_global` and `resume_global`
after they have released it, so two of these can take the lock in one order and store
in the other: then filtering is off and nothing will turn it on
(`late_store_outlives_pause`).

* `PauseInv` — the invariant: a flag that is wrong is about to be stored by a thread in
  flight;
* `pauseStep_inv` — every step keeps it, a global store when it is `InOrder`, and
  `late_store_leaves_flag_wrong` otherwise;
* `pauses_end_of_stores_in_order` — in a run without late stores the flags are right
  whenever nothing is in flight, and `expire` leaves no pause that has run out.
-/

namespace Ferrite.Blocklist

open Lts
open Threads (put lookup_put_iff)

/-! ## The operations, step by step -/

/-- A call on `Pauses`. -/
inductive PauseOp where
  | pauseGlobal (til : ℤ)
  | pauseClients (keys : List Text) (til : ℤ)
  | resumeGlobal
  | resumeClients (keys : List Text)
  | expire (now : ℤ)
deriving DecidableEq

/-- Where a thread is in its call. -/
inductive PausePlace where
  /-- Nothing has been done yet. -/
  | begin (op : PauseOp)
  /-- The lock is released, the global flag is still to be stored. -/
  | storeGlobal (flag : Bool)
  /-- `pause_clients`, holding the lock. -/
  | storeAny
  /-- `expire` has found the global flag off. -/
  | loadAny (now : ℤ)
  | lockExpire (now : ℤ)
  /-- `expire`, holding the lock: the global pause has lapsed. -/
  | storeLapsed (now : ℤ)
  /-- `expire`, holding the lock, before it goes through the clients. -/
  | retain (now : ℤ)
  /-- `resume_clients` or `expire`, holding the lock. -/
  | storeRest
deriving DecidableEq

namespace PausePlace

/-- The thread holds the lock. -/
def holds : PausePlace → Bool
  | .storeAny | .storeLapsed _ | .retain _ | .storeRest => true
  | .begin _ | .storeGlobal _ | .loadAny _ | .lockExpire _ => false

/-- What the thread will store in the global flag. -/
def storesGlobal : PausePlace → Option Bool
  | .storeGlobal flag => some flag
  | .storeLapsed _ => some false
  | .begin _ | .storeAny | .loadAny _ | .lockExpire _ | .retain _ | .storeRest => none

/-- The thread has changed the clients and not yet stored their flag. -/
def storesAny : PausePlace → Bool
  | .storeAny | .storeRest => true
  | .begin _ | .storeGlobal _ | .loadAny _ | .lockExpire _ | .storeLapsed _ | .retain _ => false

end PausePlace

/-- The pauses and the calls in flight. -/
abbrev PauseSystem := Threads.System Pauses PausePlace

/-- A thread holds the lock. -/
def PauseSystem.locked (s : PauseSystem) : Bool := s.threads.any fun _ p => p.holds

/-- One step of a call. -/
def pauseNext (s : PauseSystem) : PausePlace → Option (Pauses × Option PausePlace)
  | .begin (.pauseGlobal til) =>
    if PauseSystem.locked s then none
    else some ({ s.shared with globalUntil := some til }, some (.storeGlobal true))
  | .begin .resumeGlobal =>
    if PauseSystem.locked s then none
    else some ({ s.shared with globalUntil := none }, some (.storeGlobal false))
  | .storeGlobal flag => some ({ s.shared with global := flag }, none)
  | .begin (.pauseClients keys til) =>
    let keys := keys.filterMap normalizeClientKey
    if keys = [] then some (s.shared, none)
    else if PauseSystem.locked s then none
    else some ({ s.shared with
      clients := keys.foldl (fun t key => t.insert key til) s.shared.clients }, some .storeAny)
  | .storeAny => some ({ s.shared with anyClients := true }, none)
  | .begin (.resumeClients keys) =>
    if PauseSystem.locked s then none
    else some ({ s.shared with
      clients := (keys.filterMap normalizeClientKey).foldl (fun t key => t.erase key)
        s.shared.clients }, some .storeRest)
  | .storeRest =>
    some ({ s.shared with anyClients := !s.shared.clients.entries.isEmpty }, none)
  -- `expire` looks at the flags before it takes the lock
  | .begin (.expire now) =>
    some (s.shared, some (if s.shared.global then .lockExpire now else .loadAny now))
  | .loadAny now => some (s.shared, if s.shared.anyClients then some (.lockExpire now) else none)
  | .lockExpire now =>
    if PauseSystem.locked s then none
    else if s.shared.globalUntil.any (· ≤ now) then
      some ({ s.shared with globalUntil := none }, some (.storeLapsed now))
    else some (s.shared, some (.retain now))
  | .storeLapsed now => some ({ s.shared with global := false }, some (.retain now))
  | .retain now =>
    some ({ s.shared with clients := s.shared.clients.retain fun _ til => now < til },
      some .storeRest)

/-- One action of the system. -/
abbrev pauseStep : PauseSystem → Threads.Action PauseOp → Option PauseSystem :=
  Threads.step .begin pauseNext

/-- Nothing paused, nothing in flight. -/
def PauseSystem.start : PauseSystem := ⟨.default, ∅⟩

/-! ## The invariant -/

/-- Some thread is still to store what the deadline says. -/
def PauseSystem.globalOwed (s : PauseSystem) (t : Option ℕ) : Prop :=
  ∃ u p, some u ≠ t ∧ s.threads.lookup u = some p ∧
    p.storesGlobal = some s.shared.globalUntil.isSome

/-- **The invariant.**  At most one thread holds the lock, and a flag that is not what
the state behind the lock says is about to be stored. -/
structure PauseInv (s : PauseSystem) : Prop where
  one : ∀ {t u p q}, s.threads.lookup t = some p → s.threads.lookup u = some q →
    p.holds = true → q.holds = true → t = u
  global : s.shared.global = s.shared.globalUntil.isSome ∨ PauseSystem.globalOwed s none
  lapsed : ∀ {t now}, s.threads.lookup t = some (.storeLapsed now) → s.shared.globalUntil = none
  any : (∀ t p, s.threads.lookup t = some p → p.storesAny = false) →
    s.shared.anyClients = !s.shared.clients.entries.isEmpty
  paused : ∀ {t}, s.threads.lookup t = some .storeAny → s.shared.clients.entries ≠ []

/-- The guard: a thread stores the global flag only while its value is what the deadline
says, or another store that has it is still to come. -/
def InOrder (s : PauseSystem) : Threads.Action PauseOp → Prop
  | .run t => ∀ flag, s.threads.lookup t = some (.storeGlobal flag) →
      flag = s.shared.globalUntil.isSome ∨ PauseSystem.globalOwed s (some t)
  | .start .. => True

instance (s : PauseSystem) (t : Option ℕ) : Decidable (PauseSystem.globalOwed s t) :=
  decidable_of_iff (∃ e ∈ s.threads.entries, some e.1 ≠ t ∧
      e.2.storesGlobal = some s.shared.globalUntil.isSome)
    ⟨fun ⟨e, he, hne, hs⟩ => ⟨e.1, e.2, hne, Table.mem_entries_iff.1 he, hs⟩,
      fun ⟨u, p, hne, hu, hs⟩ => ⟨⟨u, p⟩, Table.mem_entries_iff.2 hu, hne, hs⟩⟩

instance (s : PauseSystem) (a : Threads.Action PauseOp) : Decidable (InOrder s a) :=
  match a with
  | .start .. => isTrue trivial
  | .run t =>
    match ht : s.threads.lookup t with
    | some (.storeGlobal flag) =>
      decidable_of_iff (flag = s.shared.globalUntil.isSome ∨ PauseSystem.globalOwed s (some t))
        (by simp [InOrder, ht])
    | none => isTrue fun flag h => by simp [ht] at h
    | some (.begin _) | some .storeAny | some (.loadAny _) | some (.lockExpire _)
    | some (.storeLapsed _) | some (.retain _) | some .storeRest =>
      isTrue fun flag h => by simp [ht] at h

theorem locked_of_holds {s : PauseSystem} {t : ℕ} {p : PausePlace} (h : s.threads.lookup t = some p)
    (hp : p.holds = true) : PauseSystem.locked s = true :=
  Table.any_eq_true_iff.2 ⟨t, p, h, hp⟩

section Next

variable {s : PauseSystem} {t : ℕ} {p : PausePlace} {shared : Pauses} {p' : Option PausePlace}

/-- What a step of a call can be. -/
inductive PauseMove (s : PauseSystem) : PausePlace → Pauses → Option PausePlace → Prop where
  | pauseGlobal (til : ℤ) : PauseSystem.locked s = false →
      PauseMove s (.begin (.pauseGlobal til)) { s.shared with globalUntil := some til }
        (some (.storeGlobal true))
  | resumeGlobal : PauseSystem.locked s = false →
      PauseMove s (.begin .resumeGlobal) { s.shared with globalUntil := none }
        (some (.storeGlobal false))
  | storeGlobal (flag : Bool) :
      PauseMove s (.storeGlobal flag) { s.shared with global := flag } none
  | pauseNobody (keys : List Text) (til : ℤ) : keys.filterMap normalizeClientKey = [] →
      PauseMove s (.begin (.pauseClients keys til)) s.shared none
  | pauseClients (keys : List Text) (til : ℤ) : keys.filterMap normalizeClientKey ≠ [] →
      PauseSystem.locked s = false →
      PauseMove s (.begin (.pauseClients keys til)) { s.shared with
        clients := (keys.filterMap normalizeClientKey).foldl (fun t key => t.insert key til)
          s.shared.clients } (some .storeAny)
  | storeAny : PauseMove s .storeAny { s.shared with anyClients := true } none
  | resumeClients (keys : List Text) : PauseSystem.locked s = false →
      PauseMove s (.begin (.resumeClients keys)) { s.shared with
        clients := (keys.filterMap normalizeClientKey).foldl (fun t key => t.erase key)
          s.shared.clients } (some .storeRest)
  | storeRest :
      PauseMove s .storeRest { s.shared with anyClients := !s.shared.clients.entries.isEmpty } none
  | expireOn (now : ℤ) : s.shared.global = true →
      PauseMove s (.begin (.expire now)) s.shared (some (.lockExpire now))
  | expireOff (now : ℤ) : s.shared.global = false →
      PauseMove s (.begin (.expire now)) s.shared (some (.loadAny now))
  | anyOn (now : ℤ) : s.shared.anyClients = true →
      PauseMove s (.loadAny now) s.shared (some (.lockExpire now))
  | anyOff (now : ℤ) : s.shared.anyClients = false → PauseMove s (.loadAny now) s.shared none
  | lapse (now : ℤ) : PauseSystem.locked s = false →
      PauseMove s (.lockExpire now) { s.shared with globalUntil := none } (some (.storeLapsed now))
  | keep (now : ℤ) : PauseSystem.locked s = false →
      (∀ til, s.shared.globalUntil = some til → now < til) →
      PauseMove s (.lockExpire now) s.shared (some (.retain now))
  | storeLapsed (now : ℤ) :
      PauseMove s (.storeLapsed now) { s.shared with global := false } (some (.retain now))
  | retain (now : ℤ) :
      PauseMove s (.retain now)
        { s.shared with clients := s.shared.clients.retain fun _ til => now < til }
        (some .storeRest)

theorem pauseMove_of_next (h : pauseNext s p = some (shared, p')) : PauseMove s p shared p' := by
  cases p with
  | begin op =>
    cases op with
    | pauseGlobal til =>
      simp only [pauseNext, Option.ite_none_left_eq_some, Bool.not_eq_true] at h
      obtain ⟨hfree, h⟩ := h
      cases h
      exact .pauseGlobal til hfree
    | resumeGlobal =>
      simp only [pauseNext, Option.ite_none_left_eq_some, Bool.not_eq_true] at h
      obtain ⟨hfree, h⟩ := h
      cases h
      exact .resumeGlobal hfree
    | pauseClients keys til =>
      simp only [pauseNext] at h
      split at h
      · rename_i hkeys
        cases h
        exact .pauseNobody keys til hkeys
      · rename_i hkeys
        simp only [Option.ite_none_left_eq_some, Bool.not_eq_true] at h
        obtain ⟨hfree, h⟩ := h
        cases h
        exact .pauseClients keys til hkeys hfree
    | resumeClients keys =>
      simp only [pauseNext, Option.ite_none_left_eq_some, Bool.not_eq_true] at h
      obtain ⟨hfree, h⟩ := h
      cases h
      exact .resumeClients keys hfree
    | expire now =>
      cases h
      split
      · rename_i hon
        exact .expireOn now hon
      · rename_i hoff
        exact .expireOff now (Bool.not_eq_true _ ▸ hoff)
  | storeGlobal flag =>
    cases h
    exact .storeGlobal flag
  | storeAny =>
    cases h
    exact .storeAny
  | loadAny now =>
    cases h
    split
    · rename_i hon
      exact .anyOn now hon
    · rename_i hoff
      exact .anyOff now (Bool.not_eq_true _ ▸ hoff)
  | lockExpire now =>
    simp only [pauseNext, Option.ite_none_left_eq_some, Bool.not_eq_true] at h
    obtain ⟨hfree, h⟩ := h
    split at h
    · cases h
      exact .lapse now hfree
    · rename_i hnot
      cases h
      refine .keep now hfree ?_
      intro til htil
      rw [htil, Option.any_some, decide_eq_true_eq, not_le] at hnot
      exact hnot
  | storeLapsed now =>
    cases h
    exact .storeLapsed now
  | retain now =>
    cases h
    exact .retain now
  | storeRest =>
    cases h
    exact .storeRest

/-- What a step does to the lock: a thread that holds it afterwards held it before, or it was
free. -/
theorem pauseNext_holds (h : pauseNext s p = some (shared, p')) {q : PausePlace}
    (hq : p' = some q) (hholds : q.holds = true) : p.holds = true ∨ PauseSystem.locked s = false := by
  cases pauseMove_of_next h with
  | pauseClients _ _ _ hfree | resumeClients _ hfree | lapse _ hfree | keep _ hfree _
  | pauseGlobal _ hfree | resumeGlobal hfree => exact Or.inr hfree
  | storeLapsed _ | retain _ => exact Or.inl rfl
  | expireOn _ _ | expireOff _ _ | anyOn _ _ =>
    cases hq
    cases hholds
  | storeGlobal _ | pauseNobody _ _ _ | storeAny | storeRest | anyOff _ _ => cases hq

/-- A step changes the deadline only under the lock, and then it is its own to store. -/
theorem pauseNext_globalUntil (h : pauseNext s p = some (shared, p')) :
    shared.globalUntil = s.shared.globalUntil ∨
      (PauseSystem.locked s = false ∧ p.holds = false ∧
        ∃ q, p' = some q ∧ q.storesGlobal = some shared.globalUntil.isSome) := by
  cases pauseMove_of_next h with
  | pauseGlobal _ hfree | resumeGlobal hfree | lapse _ hfree =>
    exact Or.inr ⟨hfree, rfl, _, rfl, rfl⟩
  | _ => exact Or.inl rfl

/-- The global flag changes only in a step that stores it. -/
theorem pauseNext_global (h : pauseNext s p = some (shared, p')) :
    shared.global = p.storesGlobal.getD s.shared.global := by
  cases pauseMove_of_next h <;> rfl

/-- The clients change only in a step that leaves their flag to be stored; otherwise the
flag is theirs if the step stores it, and the same if not. -/
theorem pauseNext_clients (h : pauseNext s p = some (shared, p')) :
    ((PauseSystem.locked s = false ∨ p.holds = true) ∧ shared.anyClients = s.shared.anyClients ∧
      ∃ q, p' = some q ∧ q.storesAny = true ∧ (q = .storeAny → shared.clients.entries ≠ [])) ∨
    (shared.clients = s.shared.clients ∧
      (p = .storeAny ∧ shared.anyClients = true ∨
        p = .storeRest ∧ shared.anyClients = !s.shared.clients.entries.isEmpty ∨
        p.storesAny = false ∧ shared.anyClients = s.shared.anyClients) ∧
      ∀ q, p' = some q → q ≠ .storeAny) := by
  cases pauseMove_of_next h with
  | pauseClients keys til hkeys hfree =>
    exact Or.inl ⟨Or.inl hfree, rfl, _, rfl, rfl,
      fun _ => Pauses.entries_foldl_insert_ne_nil hkeys _ til⟩
  | resumeClients keys hfree => exact Or.inl ⟨Or.inl hfree, rfl, _, rfl, rfl, nofun⟩
  | retain now => exact Or.inl ⟨Or.inr rfl, rfl, _, rfl, rfl, nofun⟩
  | storeAny => exact Or.inr ⟨rfl, Or.inl ⟨rfl, rfl⟩, nofun⟩
  | storeRest => exact Or.inr ⟨rfl, Or.inr (Or.inl ⟨rfl, rfl⟩), nofun⟩
  | storeGlobal _ | pauseNobody _ _ _ | anyOff _ _ =>
    exact Or.inr ⟨rfl, Or.inr (Or.inr ⟨rfl, rfl⟩), nofun⟩
  | pauseGlobal _ _ | resumeGlobal _ | expireOn _ _ | expireOff _ _ | anyOn _ _ | lapse _ _
  | keep _ _ _ | storeLapsed _ =>
    refine Or.inr ⟨rfl, Or.inr (Or.inr ⟨rfl, rfl⟩), ?_⟩
    intro q hq
    cases hq
    nofun

/-- A thread that comes to owe a store of the global flag owes what the deadline says. -/
theorem pauseNext_storesGlobal (h : pauseNext s p = some (shared, p')) {q : PausePlace} {flag : Bool}
    (hp' : p' = some q) (hq : q.storesGlobal = some flag) : flag = shared.globalUntil.isSome := by
  cases pauseMove_of_next h with
  | pauseGlobal _ _ | resumeGlobal _ | lapse _ _ =>
    cases hp'
    cases hq
    rfl
  | storeGlobal _ | pauseNobody _ _ _ | storeAny | anyOff _ _ | storeRest => cases hp'
  | pauseClients _ _ _ _ | resumeClients _ _ | expireOn _ _ | expireOff _ _ | anyOn _ _ | keep _ _ _
  | storeLapsed _ | retain _ =>
    cases hp'
    cases hq

end Next

/-! ## Every step keeps the invariant -/

/-- A call that begins holds no lock and owes no store. -/
theorem start_inv_pause {s : PauseSystem} (hi : PauseInv s) {t : ℕ} {op : PauseOp}
    (ht : s.threads.lookup t = none) : PauseInv ⟨s.shared, put s.threads t (some (.begin op))⟩ where
  one := by
    intro u v p q hu hv hp hq
    rcases lookup_put_iff.1 hu with ⟨-, h⟩ | ⟨-, hu⟩
    · cases h
      cases hp
    · rcases lookup_put_iff.1 hv with ⟨-, h⟩ | ⟨-, hv⟩
      · cases h
        cases hq
      · exact hi.one hu hv hp hq
  global := by
    rcases hi.global with h | ⟨u, p, hne, hu, hp⟩
    · exact Or.inl h
    · refine Or.inr ⟨u, p, hne, lookup_put_iff.2 (Or.inr ⟨?_, hu⟩), hp⟩
      rintro rfl
      rw [ht] at hu
      cases hu
  lapsed := by
    intro u now hu
    rcases lookup_put_iff.1 hu with ⟨-, h⟩ | ⟨-, hu⟩
    · cases h
    · exact hi.lapsed hu
  any := by
    intro h
    refine hi.any fun u p hu => ?_
    by_cases hut : u = t
    · rw [hut, ht] at hu
      cases hu
    · exact h u p (lookup_put_iff.2 (Or.inr ⟨hut, hu⟩))
  paused := by
    intro u hu
    rcases lookup_put_iff.1 hu with ⟨-, h⟩ | ⟨-, hu⟩
    · cases h
    · exact hi.paused hu

section Run

variable {s : PauseSystem} {t : ℕ} {p : PausePlace} {shared : Pauses} {p' : Option PausePlace}

/-- While another thread holds the lock, it is not free and this one does not hold it. -/
theorem not_mine {u : ℕ} {q : PausePlace} (hi : PauseInv s) (ht : s.threads.lookup t = some p)
    (hne : u ≠ t) (hu : s.threads.lookup u = some q) (hq : q.holds = true) :
    ¬ (p.holds = true ∨ PauseSystem.locked s = false) := by
  rintro (hp | hfree)
  · exact hne (hi.one hu ht hq hp)
  · rw [locked_of_holds hu hq] at hfree
    cases hfree

theorem run_global (hi : PauseInv s) (ht : s.threads.lookup t = some p)
    (hg : InOrder s (.run t)) (hnext : pauseNext s p = some (shared, p')) :
    shared.global = shared.globalUntil.isSome ∨
      PauseSystem.globalOwed ⟨shared, put s.threads t p'⟩ none := by
  rcases pauseNext_globalUntil hnext with huntil | ⟨-, -, q, hq, hstores⟩
  · have hflag := pauseNext_global hnext
    -- a store still owed by another thread stays owed
    have howed : PauseSystem.globalOwed s (some t) →
        PauseSystem.globalOwed ⟨shared, put s.threads t p'⟩ none := by
      rintro ⟨u, q, hne, hu, hq⟩
      have hut : u ≠ t := fun h => hne (congrArg some h)
      exact ⟨u, q, nofun, lookup_put_iff.2 (Or.inr ⟨hut, hu⟩), by rw [hq, huntil]⟩
    cases hp : p.storesGlobal with
    | none =>
      rw [hp, Option.getD_none] at hflag
      rcases hi.global with h | ⟨u, q, -, hu, hq⟩
      · exact Or.inl (by rw [hflag, huntil, h])
      · refine Or.inr (howed ⟨u, q, ?_, hu, hq⟩)
        intro hut
        rw [Option.some.inj hut, ht] at hu
        rw [Option.some.inj hu, hq] at hp
        cases hp
    | some flag =>
      rw [hp, Option.getD_some] at hflag
      cases p with
      | storeGlobal flag' =>
        cases hp
        rcases hg flag ht with h | h
        · exact Or.inl (by rw [hflag, huntil, h])
        · exact Or.inr (howed h)
      | storeLapsed now =>
        cases hp
        exact Or.inl (by rw [hflag, huntil, hi.lapsed ht]; rfl)
      | begin _ | storeAny | loadAny _ | lockExpire _ | retain _ | storeRest => cases hp
  · exact Or.inr ⟨t, q, nofun, lookup_put_iff.2 (Or.inl ⟨rfl, hq⟩), hstores⟩

theorem run_inv (hi : PauseInv s) (ht : s.threads.lookup t = some p) (hg : InOrder s (.run t))
    (hnext : pauseNext s p = some (shared, p')) : PauseInv ⟨shared, put s.threads t p'⟩ where
  one := by
    intro u v q r hu hv hq hr
    rcases lookup_put_iff.1 hu with ⟨rfl, hmine⟩ | ⟨hut, hu'⟩
    · rcases lookup_put_iff.1 hv with ⟨rfl, -⟩ | ⟨hvt, hv'⟩
      · rfl
      · exact absurd (pauseNext_holds hnext hmine hq) (not_mine hi ht hvt hv' hr)
    · rcases lookup_put_iff.1 hv with ⟨rfl, hmine⟩ | ⟨-, hv'⟩
      · exact absurd (pauseNext_holds hnext hmine hr) (not_mine hi ht hut hu' hq)
      · exact hi.one hu' hv' hq hr
  global := run_global hi ht hg hnext
  lapsed := by
    intro u now hu
    rcases lookup_put_iff.1 hu with ⟨-, hmine⟩ | ⟨hut, hu⟩
    · simpa using (pauseNext_storesGlobal hnext hmine rfl).symm
    · rcases pauseNext_globalUntil hnext with huntil | ⟨hfree, -⟩
      · rw [huntil]
        exact hi.lapsed hu
      · exact absurd (Or.inr hfree) (not_mine hi ht hut hu rfl)
  any := by
    intro hnone
    rcases pauseNext_clients hnext with ⟨-, -, q, hq, hstores, -⟩ | ⟨hclients, hflag, -⟩
    · rw [hnone t q (lookup_put_iff.2 (Or.inl ⟨rfl, hq⟩))] at hstores
      cases hstores
    · rw [hclients]
      rcases hflag with ⟨rfl, hflag⟩ | ⟨-, hflag⟩ | ⟨hp, hflag⟩
      · simpa [hflag] using hi.paused ht
      · exact hflag
      · rw [hflag]
        refine hi.any fun u q hu => ?_
        by_cases hut : u = t
        · rw [hut, ht] at hu
          exact Option.some.inj hu ▸ hp
        · exact hnone u q (lookup_put_iff.2 (Or.inr ⟨hut, hu⟩))
  paused := by
    intro u hu
    rcases pauseNext_clients hnext with ⟨hlock, -, q, hq, -, hfull⟩ | ⟨hclients, -, hnot⟩
    · rcases lookup_put_iff.1 hu with ⟨-, hmine⟩ | ⟨hut, hu⟩
      · rw [hq] at hmine
        exact hfull (Option.some.inj hmine)
      · exact absurd hlock.symm (not_mine hi ht hut hu rfl)
    · rcases lookup_put_iff.1 hu with ⟨-, hmine⟩ | ⟨-, hu⟩
      · exact absurd rfl (hnot _ hmine)
      · rw [hclients]
        exact hi.paused hu

end Run

/-- **Every step keeps the invariant**, as long as no global store is late. -/
theorem pauseStep_inv (s : PauseSystem) (a : Threads.Action PauseOp) (s' : PauseSystem) (hg : InOrder s a)
    (hi : PauseInv s) (h : pauseStep s a = some s') : PauseInv s' := by
  obtain ⟨t, op, rfl, ht, rfl⟩ | ⟨t, p, shared, p', rfl, ht, hnext, rfl⟩ := Threads.step_cases _ _ h
  · exact start_inv_pause hi ht
  · exact run_inv hi ht hg hnext

theorem pauseInv_start : PauseInv .start where
  one h := by cases h
  global := Or.inl rfl
  lapsed h := by cases h
  any _ := rfl
  paused h := by cases h

theorem PauseInv.flagsRight {s : PauseSystem} (hi : PauseInv s) (hq : Threads.Quiet s) :
    s.shared.FlagsRight where
  global := by
    rcases hi.global with h | ⟨u, p, -, hu, -⟩
    · exact h
    · rw [hq u] at hu
      cases hu
  clients := hi.any fun u p hu => by
    rw [hq u] at hu
    cases hu

/-- The guard is exact: after a late store the flag is wrong and no store that would right
it is to come. -/
theorem late_store_leaves_flag_wrong {s : PauseSystem} {t : ℕ} (h : ¬ InOrder s (.run t)) :
    ∃ s', pauseStep s (.run t) = some s' ∧
      ¬ (s'.shared.global = s'.shared.globalUntil.isSome ∨ PauseSystem.globalOwed s' none) := by
  simp only [InOrder, not_forall, not_or] at h
  obtain ⟨flag, ht, hflag, howed⟩ := h
  refine ⟨⟨{ s.shared with global := flag }, put s.threads t none⟩, ?_, ?_⟩
  · simp only [Threads.step, ht]
    rfl
  · rintro (h | ⟨u, q, -, hu, hq⟩)
    · exact hflag h
    · rcases lookup_put_iff.1 hu with ⟨-, hmine⟩ | ⟨hut, hu⟩
      · cases hmine
      · exact howed ⟨u, q, fun h => hut (Option.some.inj h), hu, hq⟩

/-! ## After an expiry -/

/-- The call pauses something. -/
def PauseOp.pauses : PauseOp → Bool
  | .pauseGlobal _ | .pauseClients .. => true
  | .resumeGlobal | .resumeClients _ | .expire _ => false

/-- The thread is in a call that pauses something. -/
def PausePlace.pauses : PausePlace → Bool
  | .begin op => op.pauses
  | .storeGlobal flag => flag
  | .storeAny => true
  | .loadAny _ | .lockExpire _ | .storeLapsed _ | .retain _ | .storeRest => false

/-- No deadline at or before `now` is left. -/
def Pauses.Cleared (p : Pauses) (now : ℤ) : Prop :=
  (∀ til, p.globalUntil = some til → now < til) ∧
    ∀ key til, p.clients.lookup key = some til → now < til

/-- While nothing is being paused: a flag that is off means that there is nothing behind it. -/
structure Winding (s : PauseSystem) : Prop where
  noPause : ∀ {t p}, s.threads.lookup t = some p → p.pauses = false
  globalOff : s.shared.global = false → s.shared.globalUntil = none
  anyOff : s.shared.anyClients = false → ∀ key, s.shared.clients.lookup key = none
  resumed : ∀ {t flag}, s.threads.lookup t = some (.storeGlobal flag) → s.shared.globalUntil = none

/-- The thread is on its way to clear what has run out by `now`, or this is done. -/
def Clearing (now : ℤ) (t : ℕ) (s : PauseSystem) : Prop :=
  s.shared.Cleared now ∨ s.threads.lookup t = some (.begin (.expire now)) ∨
    (s.threads.lookup t = some (.loadAny now) ∧ s.shared.globalUntil = none) ∨
    s.threads.lookup t = some (.lockExpire now) ∨
    ((s.threads.lookup t = some (.storeLapsed now) ∨ s.threads.lookup t = some (.retain now)) ∧
      ∀ til, s.shared.globalUntil = some til → now < til)

section Shrink

variable {s : PauseSystem} {t : ℕ} {p : PausePlace} {shared : Pauses} {p' : Option PausePlace}

/-- A step of a call that pauses nothing only takes pauses away. -/
theorem pauseNext_shrinks (h : pauseNext s p = some (shared, p')) (hp : p.pauses = false) :
    (shared.globalUntil = s.shared.globalUntil ∨ shared.globalUntil = none) ∧
      (∀ key til, shared.clients.lookup key = some til → s.shared.clients.lookup key = some til) ∧
      ∀ q, p' = some q → q.pauses = false := by
  have hplace : ∀ {q r : PausePlace}, r.pauses = false → some r = some q → q.pauses = false := by
    intro q r hr hq
    cases hq
    exact hr
  cases pauseMove_of_next h with
  | pauseGlobal _ _ | pauseNobody _ _ _ | pauseClients _ _ _ _ | storeAny => cases hp
  | resumeGlobal _ | lapse _ _ => exact ⟨Or.inr rfl, fun _ _ hk => hk, fun q => hplace rfl⟩
  | resumeClients keys _ =>
    refine ⟨Or.inl rfl, fun key til hk => ?_, fun q => hplace rfl⟩
    simp only [Table.lookup_foldl_erase] at hk
    split at hk
    · cases hk
    · exact hk
  | retain now =>
    refine ⟨Or.inl rfl, fun key til hk => ?_, fun q => hplace rfl⟩
    rw [Table.lookup_retain] at hk
    exact (Option.filter_eq_some_iff.1 hk).1
  | expireOn _ _ | expireOff _ _ | anyOn _ _ | keep _ _ _ | storeLapsed _ =>
    exact ⟨Or.inl rfl, fun _ _ hk => hk, fun q => hplace rfl⟩
  | storeGlobal _ | anyOff _ _ | storeRest => exact ⟨Or.inl rfl, fun _ _ hk => hk, nofun⟩

/-- While nothing is being paused, a step of a thread keeps the flags that way. -/
theorem run_winding (hi : PauseInv s) (hw : Winding s) (ht : s.threads.lookup t = some p)
    (hnext : pauseNext s p = some (shared, p')) : Winding ⟨shared, put s.threads t p'⟩ := by
  obtain ⟨huntil, hclients, hplaces⟩ := pauseNext_shrinks hnext (hw.noPause ht)
  have hnone : s.shared.globalUntil = none → shared.globalUntil = none := by
    intro h
    rcases huntil with hu | hu
    · rw [hu, h]
    · exact hu
  have hempty : (∀ key, s.shared.clients.lookup key = none) →
      ∀ key, shared.clients.lookup key = none := by
    intro h key
    rw [Option.eq_none_iff_forall_ne_some]
    intro til hk
    have hold := hclients key til hk
    rw [h key] at hold
    cases hold
  refine ⟨fun {u q} hu => ?_, fun hoff => ?_, fun hoff => ?_, fun {u flag} hu => ?_⟩
  · rcases lookup_put_iff.1 hu with ⟨-, hmine⟩ | ⟨-, hu⟩
    · exact hplaces q hmine
    · exact hw.noPause hu
  · have hflag := pauseNext_global hnext
    cases hp : p.storesGlobal with
    | none =>
      rw [hp, Option.getD_none] at hflag
      exact hnone (hw.globalOff (hflag ▸ hoff))
    | some flag =>
      cases p with
      | storeGlobal flag' => exact hnone (hw.resumed ht)
      | storeLapsed now => exact hnone (hi.lapsed ht)
      | begin _ | storeAny | loadAny _ | lockExpire _ | retain _ | storeRest => cases hp
  · rcases pauseNext_clients hnext with ⟨-, hsame, -⟩ | ⟨hkept, hflag, -⟩
    · exact hempty (hw.anyOff (hsame ▸ hoff))
    · rcases hflag with ⟨rfl, -⟩ | ⟨-, hflag⟩ | ⟨-, hsame⟩
      · cases hw.noPause ht
      · intro key
        rw [hoff] at hflag
        have hnil : s.shared.clients.entries = [] := by simpa using hflag.symm
        rw [Option.eq_none_iff_forall_ne_some]
        intro til hk
        rw [hkept, ← Table.mem_entries_iff, hnil] at hk
        cases hk
      · exact hempty (hw.anyOff (hsame ▸ hoff))
  · rcases lookup_put_iff.1 hu with ⟨-, hmine⟩ | ⟨-, hu⟩
    · have hstores : shared.globalUntil.isSome = flag := (pauseNext_storesGlobal hnext hmine rfl).symm
      have hfalse : flag = false := hplaces _ hmine
      simpa [hfalse] using hstores
    · exact hnone (hw.resumed hu)

/-- What is cleared stays so while nothing is being paused. -/
theorem run_cleared {now : ℤ} (hw : Winding s) (ht : s.threads.lookup t = some p)
    (hnext : pauseNext s p = some (shared, p')) (hc : s.shared.Cleared now) : shared.Cleared now := by
  obtain ⟨huntil, hclients, -⟩ := pauseNext_shrinks hnext (hw.noPause ht)
  refine ⟨fun til htil => ?_, fun key til hk => hc.2 key til (hclients key til hk)⟩
  rcases huntil with hu | hu
  · exact hc.1 til (hu ▸ htil)
  · rw [hu] at htil
    cases htil

/-- The expiry itself: each of its steps brings it nearer to the end, where all is cleared. -/
theorem run_clearing_self {now : ℤ} (hw : Winding s) (ht : s.threads.lookup t = some p)
    (hnext : pauseNext s p = some (shared, p')) (hc : Clearing now t s) :
    Clearing now t ⟨shared, put s.threads t p'⟩ := by
  have hat : ∀ q, p' = some q → (put s.threads t p').lookup t = some q :=
    fun q hq => lookup_put_iff.2 (Or.inl ⟨rfl, hq⟩)
  rcases hc with hc | hc | ⟨hc, hnone⟩ | hc | ⟨hc | hc, hglobal⟩
  · exact Or.inl (run_cleared hw ht hnext hc)
  · cases Option.some.inj (ht.symm.trans hc)
    cases pauseMove_of_next hnext with
    | expireOn _ hon => exact Or.inr (Or.inr (Or.inr (Or.inl (hat _ rfl))))
    | expireOff _ hoff => exact Or.inr (Or.inr (Or.inl ⟨hat _ rfl, hw.globalOff hoff⟩))
  · cases Option.some.inj (ht.symm.trans hc)
    cases pauseMove_of_next hnext with
    | anyOn _ hon => exact Or.inr (Or.inr (Or.inr (Or.inl (hat _ rfl))))
    | anyOff _ hoff =>
      refine Or.inl ⟨fun til htil => ?_, fun key til hk => ?_⟩
      · rw [hnone] at htil
        cases htil
      · rw [hw.anyOff hoff key] at hk
        cases hk
  · cases Option.some.inj (ht.symm.trans hc)
    cases pauseMove_of_next hnext with
    | lapse _ _ => exact Or.inr (Or.inr (Or.inr (Or.inr ⟨Or.inl (hat _ rfl), nofun⟩)))
    | keep _ _ hlater => exact Or.inr (Or.inr (Or.inr (Or.inr ⟨Or.inr (hat _ rfl), hlater⟩)))
  · cases Option.some.inj (ht.symm.trans hc)
    cases hnext
    exact Or.inr (Or.inr (Or.inr (Or.inr ⟨Or.inr (hat _ rfl), hglobal⟩)))
  · cases Option.some.inj (ht.symm.trans hc)
    cases hnext
    refine Or.inl ⟨hglobal, fun key til hk => ?_⟩
    rw [Table.lookup_retain] at hk
    simpa using (Option.filter_eq_some_iff.1 hk).2

/-- A step of another thread does not set the expiry back. -/
theorem run_clearing_other {now : ℤ} {u : ℕ} (hw : Winding s) (ht : s.threads.lookup t = some p)
    (hut : u ≠ t) (hnext : pauseNext s p = some (shared, p')) (hc : Clearing now u s) :
    Clearing now u ⟨shared, put s.threads t p'⟩ := by
  have hkept : ∀ q, s.threads.lookup u = some q → (put s.threads t p').lookup u = some q :=
    fun q hq => lookup_put_iff.2 (Or.inr ⟨hut, hq⟩)
  obtain ⟨huntil, -, -⟩ := pauseNext_shrinks hnext (hw.noPause ht)
  rcases hc with hc | hc | ⟨hc, hnone⟩ | hc | ⟨hc, hglobal⟩
  · exact Or.inl (run_cleared hw ht hnext hc)
  · exact Or.inr (Or.inl (hkept _ hc))
  · refine Or.inr (Or.inr (Or.inl ⟨hkept _ hc, ?_⟩))
    rcases huntil with h | h
    · rw [h, hnone]
    · exact h
  · exact Or.inr (Or.inr (Or.inr (Or.inl (hkept _ hc))))
  · refine Or.inr (Or.inr (Or.inr (Or.inr ⟨hc.imp (hkept _) (hkept _), fun til htil => ?_⟩)))
    rcases huntil with h | h
    · exact hglobal til (h ▸ htil)
    · rw [h] at htil
      cases htil

end Shrink

/-- The action starts a pause. -/
def startsPause : Threads.Action PauseOp → Bool
  | .start _ op => op.pauses
  | .run _ => false

/-- A call that pauses nothing may begin. -/
theorem start_winding {s : PauseSystem} (hw : Winding s) {t : ℕ} {op : PauseOp}
    (hop : op.pauses = false) : Winding ⟨s.shared, put s.threads t (some (.begin op))⟩ where
  noPause := by
    intro u q hu
    rcases lookup_put_iff.1 hu with ⟨-, h⟩ | ⟨-, hu⟩
    · cases h
      exact hop
    · exact hw.noPause hu
  globalOff := hw.globalOff
  anyOff := hw.anyOff
  resumed := by
    intro u flag hu
    rcases lookup_put_iff.1 hu with ⟨-, h⟩ | ⟨-, hu⟩
    · cases h
    · exact hw.resumed hu

theorem start_clearing {s : PauseSystem} {now : ℤ} {t u : ℕ} {op : PauseOp}
    (ht : s.threads.lookup t = none) (hc : Clearing now u s) :
    Clearing now u ⟨s.shared, put s.threads t (some (.begin op))⟩ := by
  have hkept : ∀ q, s.threads.lookup u = some q →
      (put s.threads t (some (.begin op))).lookup u = some q := by
    intro q hq
    refine lookup_put_iff.2 (Or.inr ⟨?_, hq⟩)
    rintro rfl
    rw [ht] at hq
    cases hq
  rcases hc with hc | hc | ⟨hc, hnone⟩ | hc | ⟨hc, hglobal⟩
  · exact Or.inl hc
  · exact Or.inr (Or.inl (hkept _ hc))
  · exact Or.inr (Or.inr (Or.inl ⟨hkept _ hc, hnone⟩))
  · exact Or.inr (Or.inr (Or.inr (Or.inl (hkept _ hc))))
  · exact Or.inr (Or.inr (Or.inr (Or.inr ⟨hc.imp (hkept _) (hkept _), hglobal⟩)))

/-- Once an expiry is under way and nothing is paused any more, all that has run out is
cleared when nothing is in flight. -/
theorem cleared_of_exec {s s' : PauseSystem} {as : List (Threads.Action PauseOp)} {now : ℤ} {t : ℕ}
    (hi : PauseInv s) (hw : Winding s) (hg : Guarded pauseStep InOrder s as)
    (hrun : exec pauseStep s as = some s') (hnone : ∀ a ∈ as, startsPause a = false)
    (hexpire : .start t (.expire now) ∈ as ∨ Clearing now t s) (hq : Threads.Quiet s') :
    s'.shared.Cleared now := by
  induction as generalizing s with
  | nil =>
    cases hrun
    rcases hexpire with h | hc | h | ⟨h, -⟩ | h | ⟨h | h, -⟩
    · cases h
    · exact hc
    all_goals
      rw [hq t] at h
      cases h
  | cons a as ih =>
    obtain ⟨s₁, hstep, hrun⟩ := (exec_cons_eq_some _).1 hrun
    have hi₁ := pauseStep_inv s a s₁ hg.1 hi hstep
    have hnone₁ : ∀ b ∈ as, startsPause b = false := fun b hb => hnone b (List.mem_cons_of_mem _ hb)
    have ha := hnone a (List.mem_cons_self ..)
    obtain ⟨u, op, rfl, hu, rfl⟩ | ⟨u, p, shared, p', rfl, hu, hnext, rfl⟩ := Threads.step_cases _ _ hstep
    · refine ih hi₁ (start_winding hw ha) (hg.2 _ hstep) hrun hnone₁ ?_
      rcases hexpire with hmem | hc
      · rcases List.mem_cons.1 hmem with heq | hmem
        · cases heq
          exact Or.inr (Or.inr (Or.inl (lookup_put_iff.2 (Or.inl ⟨rfl, rfl⟩))))
        · exact Or.inl hmem
      · exact Or.inr (start_clearing hu hc)
    · refine ih hi₁ (run_winding hi hw hu hnext) (hg.2 _ hstep) hrun hnone₁ ?_
      rcases hexpire with hmem | hc
      · rcases List.mem_cons.1 hmem with heq | hmem
        · cases heq
        · exact Or.inl hmem
      · right
        by_cases htu : t = u
        · subst htu
          exact run_clearing_self hw hu hnext hc
        · exact run_clearing_other hw hu htu hnext hc

/-! ## Whole runs -/

/-- No pause that has run out by `now` keeps filtering off: the box-wide flag stands for a
later deadline, and so does every client's entry. -/
structure Pauses.NoneOverdue (p : Pauses) (now : ℤ) : Prop where
  global : p.global = true → ∃ til, p.globalUntil = some til ∧ now < til
  clients : ∀ clientIp mac, p.clientPaused clientIp mac = true →
    ∃ key ∈ clientIp :: mac.toList, ∃ til, p.clients.lookup key = some til ∧ now < til

theorem noneOverdue_of_cleared {p : Pauses} {now : ℤ} (hf : p.FlagsRight) (hc : p.Cleared now) :
    p.NoneOverdue now where
  global := by
    intro hglobal
    rw [hf.global, Option.isSome_iff_exists] at hglobal
    obtain ⟨til, htil⟩ := hglobal
    exact ⟨til, htil, hc.1 til htil⟩
  clients := by
    intro clientIp mac hpaused
    have hkey : ∃ key ∈ clientIp :: mac.toList, (p.clients.lookup key).isSome = true := by
      simp only [Pauses.clientPaused, Bool.and_eq_true, Bool.or_eq_true, Option.any_eq_true] at hpaused
      rcases hpaused.2 with h | ⟨m, hm, h⟩
      · exact ⟨clientIp, List.mem_cons_self .., h⟩
      · exact ⟨m, List.mem_cons_of_mem _ (Option.mem_toList.2 hm), h⟩
    obtain ⟨key, hmem, hsome⟩ := hkey
    obtain ⟨til, htil⟩ := Option.isSome_iff_exists.1 hsome
    exact ⟨key, hmem, til, htil, hc.2 key til htil⟩

/-- **A pause ends.**  In every run of pauses, resumes and expiries, however interleaved, in
which no global store is late, both flags say what is behind the lock whenever nothing is in
flight.  And if the run goes on with an `expire` and without another pause, then no pause
that had run out by then keeps filtering off once nothing is in flight again. -/
theorem pauses_end_of_stores_in_order (as : List (Threads.Action PauseOp)) (s : PauseSystem)
    (hg : Guarded pauseStep InOrder .start as) (hrun : exec pauseStep .start as = some s)
    (hq : Threads.Quiet s) :
    s.shared.FlagsRight ∧
      ∀ (bs : List (Threads.Action PauseOp)) (s' : PauseSystem) (t : ℕ) (now : ℤ),
        Guarded pauseStep InOrder s bs → exec pauseStep s bs = some s' → Threads.Quiet s' →
        .start t (.expire now) ∈ bs → (∀ b ∈ bs, startsPause b = false) →
        s'.shared.FlagsRight ∧ s'.shared.NoneOverdue now := by
  have hi : PauseInv s := inv_of_exec pauseStep pauseStep_inv pauseInv_start hg hrun
  have hflags := hi.flagsRight hq
  refine ⟨hflags, fun bs s' t now hg' hrun' hq' hexpire hnone => ?_⟩
  have hidle : ∀ t p, s.threads.lookup t ≠ some p := fun t p h => by
    rw [hq t] at h
    cases h
  have hw : Winding s := by
    refine ⟨fun h => absurd h (hidle _ _), fun hoff => ?_, fun hoff key => ?_,
      fun h => absurd h (hidle _ _)⟩
    · rw [hflags.global] at hoff
      simpa using hoff
    · rw [hflags.clients, Bool.not_eq_false', List.isEmpty_iff] at hoff
      rw [Option.eq_none_iff_forall_ne_some]
      intro til hk
      rw [← Table.mem_entries_iff, hoff] at hk
      cases hk
  have hi' : PauseInv s' := inv_of_exec pauseStep pauseStep_inv hi hg' hrun'
  have hflags' := hi'.flagsRight hq'
  exact ⟨hflags', noneOverdue_of_cleared hflags'
    (cleared_of_exec hi hw hg' hrun' hnone (Or.inl hexpire) hq')⟩

namespace PauseExample

/-- A pause and a resume take the lock one after the other; the resume stores first. -/
def crossed : List (Threads.Action PauseOp) :=
  [.start 0 (.pauseGlobal 100), .run 0, .start 1 .resumeGlobal, .run 1, .run 1, .run 0]

/-- The same two with the stores in order, then a phone and the whole box are paused. -/
def ordered : List (Threads.Action PauseOp) :=
  [.start 0 (.pauseGlobal 100), .run 0, .start 1 .resumeGlobal, .run 1, .run 0, .run 1,
    .start 2 (.pauseClients ["id:pixel".toList] 90), .start 3 (.pauseGlobal 95), .run 2, .run 2,
    .run 3, .run 3]

/-- The tick at 100, which has a step more when the box-wide pause has run out. -/
def tick (steps : ℕ) : List (Threads.Action PauseOp) :=
  .start 4 (.expire 100) :: List.replicate steps (.run 4)

end PauseExample

open PauseExample in
/-- Both pauses have run out by 100, and the tick ends them. -/
theorem pauses_end_at_tick :
    ∃ s s', exec pauseStep .start ordered = some s ∧ Threads.Quiet s ∧ s.shared.FlagsRight ∧
      s.shared.global = true ∧ exec pauseStep s (tick 5) = some s' ∧ Threads.Quiet s' ∧
      s'.shared.FlagsRight ∧ s'.shared.NoneOverdue 100 := by
  have hruns : ∃ s s', exec pauseStep .start ordered = some s ∧ Threads.Quiet s ∧ s.shared.global = true ∧
      Guarded pauseStep InOrder s (tick 5) ∧ exec pauseStep s (tick 5) = some s' ∧ Threads.Quiet s' :=
    ⟨_, _, rfl, fun t => rfl, rfl, by decide +kernel, rfl, fun t => rfl⟩
  obtain ⟨s, s', hrun, hq, hglobal, hg', hrun', hq'⟩ := hruns
  have hg : Guarded pauseStep InOrder .start ordered := by decide +kernel
  obtain ⟨hflags, hends⟩ := pauses_end_of_stores_in_order ordered s hg hrun hq
  have hends := hends (tick 5) s' 4 100 hg' hrun' hq' (List.mem_cons_self ..) (by decide)
  exact ⟨s, s', hrun, hq, hflags, hglobal, hrun', hq', hends⟩

open PauseExample in
/-- **A late store outlives the pause**: the box is not paused, nothing is in flight, and the
flag says that it is; the tick looks at the deadline, finds none, and leaves the flag alone. -/
theorem late_store_outlives_pause :
    ∃ s s', exec pauseStep .start crossed = some s ∧ Threads.Quiet s ∧ s.shared.globalUntil = none ∧
      s.shared.global = true ∧ ¬ s.shared.FlagsRight ∧
      exec pauseStep s (tick 4) = some s' ∧ Threads.Quiet s' ∧ s'.shared.global = true ∧
      ¬ s'.shared.NoneOverdue 100 := by
  refine ⟨_, _, rfl, fun t => rfl, rfl, rfl, fun hf => ?_, rfl, fun t => rfl, ?_, fun hf => ?_⟩
  · cases hf.global
  · rfl
  · obtain ⟨til, htil, -⟩ := hf.global rfl
    cases htil

end Ferrite.Blocklist
