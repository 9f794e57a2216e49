import Ferrite.Api.Sync
import Ferrite.Lib.Threads

/-!
# Following a primary, step by step

`sync_once` of `api/src/sync.rs` and `persist_config` of `app/src/lib.rs`, access by access.
A sync copies the configuration under a read lock and plans from the copy; it replaces the
configuration under a write lock, has it written to the file and starts the box again.  The
fingerprint of what was applied last keeps a box that cannot be brought in line from
restarting for ever.  Edits of the panel, other syncs and restarts come in between.

* `sync_goes_on` — a sync gets to its end: it waits for the lock of the file alone;
* `follows_primary` — what each sync does, in any run.

The configuration is edited by any function.  The file is written under `config_lock`, whose
holder's copy is in the lock here.
-/

namespace Ferrite.Api

open ConfigFile Lts Threads

variable {R : Type} (crates : SyncCrates)

/-! ## The box -/

/-- `SyncStatus`. -/
structure SyncStatus where
  lastAttempt : Option ℤ
  lastOk : Option ℤ
  lastChange : Option ℤ
  changed : List Text
  error : Option Text
  applied : Option Text
deriving DecidableEq, Repr

/-- `SyncStatus::default`. -/
def SyncStatus.default : SyncStatus := ⟨none, none, none, [], none, none⟩

/-- A secondary: the configuration it runs with and the file it is kept in, what syncing
has done and what `sync-status.json` says about that, and the copy that the holder of
`config_lock` is about to write. -/
structure Secondary (R : Type) where
  live : Config R
  file : Config R
  status : SyncStatus
  statusFile : SyncStatus
  lock : Option (Config R)

/-- What one call of `sync_once` meets: what reading the primary gives, the clock at its
three readings, and whether the two files can be written. -/
structure Attempt (R : Type) where
  fetched : Except Text (Config R)
  attemptAt : ℤ
  okAt : ℤ
  changeAt : ℤ
  persists : Bool
  saves : Bool

/-- A plan: the chosen sections, the primary, and the copy it was made from. -/
structure Planned (R : Type) where
  sections : List SyncSection
  primary : Config R
  copy : Config R

/-- The configuration of the plan. -/
def Planned.merged (p : Planned R) : Config R := (plan crates p.copy p.primary p.sections).1

/-- The sections that differ. -/
def Planned.changed (p : Planned R) : List SyncSection :=
  (plan crates p.copy p.primary p.sections).2

/-- What a thread does: an edit of the live configuration, a `persist_config`, or a
`sync_once`. -/
inductive SyncOp (R : Type)
  | edit (f : Config R → Config R)
  | persist (ok : Bool)
  | sync (a : Attempt R)

/-- Where a thread is, before its next access to what is shared. -/
inductive SyncPlace (R : Type)
  | edit (f : Config R → Config R)
  /-- `persist_config`, for the panel: the lock and the copy, then the write. -/
  | lock (ok : Bool)
  | write (ok : Bool)
  /-- `sync_once`: the sections, the primary and the copy, the status. -/
  | start (a : Attempt R)
  | fetch (a : Attempt R) (sections : List SyncSection)
  | look (a : Attempt R) (result : Except Text (Planned R))
  /-- The replace, and `persist_config`. -/
  | replace (a : Attempt R) (p : Planned R) (status : SyncStatus)
  | persist (a : Attempt R) (p : Planned R) (status : SyncStatus) (previous : Config R)
  | save (a : Attempt R) (p : Planned R) (status : SyncStatus) (previous : Config R)
  | restore (a : Attempt R) (p : Planned R) (status : SyncStatus) (previous : Config R)
  /-- The status goes back, and the call returns. -/
  | finish (a : Attempt R) (result : Except Text (Planned R)) (status : SyncStatus)
      (answer : Except Text Bool)

/-- Where an operation starts. -/
def SyncOp.entry : SyncOp R → SyncPlace R
  | .edit f => .edit f
  | .persist ok => .lock ok
  | .sync a => .start a

/-- The message when the same would be applied again. -/
def stillDiffer (changed : List SyncSection) : Text :=
  names changed ++ " still differ after applying them — not restarting again".toList

/-- The message when the file cannot be written. -/
def couldntWrite : Text := "couldn't write the config file".toList

/-- What `sync_once` makes of its plan and of the status it has read. -/
def check (a : Attempt R) (result : Except Text (Planned R)) (status : SyncStatus) : SyncPlace R :=
  let status := { status with lastAttempt := some a.attemptAt }
  match result with
  | .error e => .finish a result { status with error := some e } (.error e)
  | .ok p =>
    let status := { status with lastOk := some a.okAt, error := none }
    if p.changed crates = [] then .finish a result status (.ok false)
    else if status.applied = some (fingerprint crates (p.merged crates) p.sections) then
      let e := stillDiffer (p.changed crates)
      .finish a result { status with error := some e } (.error e)
    else .replace a p status

namespace Secondary

/-- The lock of `persist_config`, and the copy made under it. -/
def acquire (b : Secondary R) : Option (Secondary R) :=
  match b.lock with
  | none => some { b with lock := some b.live }
  | some _ => none

/-- The write of `persist_config`, at whose end the lock is free again. -/
def write (b : Secondary R) (ok : Bool) : Option (Secondary R) :=
  b.lock.map fun copy => { b with file := if ok then copy else b.file, lock := none }

/-- The end of a call: an applied plan goes into the status, and the status into its file. -/
def finish (b : Secondary R) (a : Attempt R) (result : Except Text (Planned R)) (status : SyncStatus)
    (answer : Except Text Bool) : Secondary R :=
  match result, answer with
  | .ok p, .ok true =>
    let status := { status with
      lastChange := some a.changeAt
      changed := (p.changed crates).map sectionName
      applied := some (fingerprint crates (p.merged crates) p.sections) }
    { b with status := status, statusFile := if a.saves then status else b.statusFile }
  | _, _ => { b with status := status }

/-- The next process. -/
def restart (b : Secondary R) : Secondary R :=
  { b with live := b.file, status := b.statusFile, lock := none }

end Secondary

/-- A secondary and the threads in it. -/
abbrev SyncSystem (R : Type) := System (Secondary R) (SyncPlace R)

/-- One access. -/
def syncNext (s : SyncSystem R) : SyncPlace R → Option (Secondary R × Option (SyncPlace R))
  | .edit f => some ({ s.shared with live := f s.shared.live }, none)
  | .lock ok => s.shared.acquire.map fun b => (b, some (.write ok))
  | .write ok => (s.shared.write ok).map fun b => (b, none)
  | .start a => some (s.shared, some (.fetch a s.shared.live.sync.sections))
  | .fetch a sections =>
    some (s.shared, some (.look a (a.fetched.map fun primary => ⟨sections, primary, s.shared.live⟩)))
  | .look a result => some (s.shared, some (check crates a result s.shared.status))
  | .replace a p status =>
    some ({ s.shared with live := p.merged crates }, some (.persist a p status s.shared.live))
  | .persist a p status previous =>
    s.shared.acquire.map fun b => (b, some (.save a p status previous))
  | .save a p status previous => (s.shared.write a.persists).map fun b =>
    (b, some (if a.persists then .finish a (.ok p) status (.ok true) else .restore a p status previous))
  | .restore a p status previous =>
    some ({ s.shared with live := previous },
      some (.finish a (.ok p) { status with error := some couldntWrite } (.error couldntWrite)))
  | .finish a result status answer => some (s.shared.finish crates a result status answer, none)

/-- What happens to a secondary: a thread goes on, or the box starts again, which ends the
threads. -/
inductive SyncAction (R : Type)
  | thread (a : Threads.Action (SyncOp R))
  | restart

def syncStep (s : SyncSystem R) : SyncAction R → Option (SyncSystem R)
  | .thread a => Threads.step SyncOp.entry (syncNext crates) s a
  | .restart => some ⟨s.shared.restart, ∅⟩

/-! ## Places -/

namespace SyncPlace

/-- Does the next access write the live configuration? -/
def writesLive : SyncPlace R → Bool
  | .edit _ | .replace .. | .restore .. => true
  | _ => false

/-- Does the thread hold `config_lock`? -/
def holds : SyncPlace R → Bool
  | .write _ | .save .. => true
  | _ => false

/-- Is a sync between its copy and its replace? -/
def planned : SyncPlace R → Bool
  | .look _ (.ok _) | .replace .. => true
  | _ => false

/-- Is a sync that applies its plan between the replace and its end? -/
def applying : SyncPlace R → Bool
  | .persist .. | .save .. | .finish _ (.ok _) _ (.ok true) => true
  | _ => false

/-- The call of a sync, and the sections it has chosen. -/
def sync : SyncPlace R → Option (Attempt R × List SyncSection)
  | .fetch a sections => some (a, sections)
  | .look a (.ok p) | .replace a p _ | .persist a p _ _ | .save a p _ _ | .restore a p _ _
  | .finish a (.ok p) _ _ => some (a, p.sections)
  | .start a | .look a (.error _) | .finish a (.error _) _ _ => some (a, [])
  | .edit _ | .lock _ | .write _ => none

/-- How many accesses a thread has before it, at most. -/
def left : SyncPlace R → ℕ
  | .start _ => 8
  | .fetch .. => 7
  | .look .. => 6
  | .replace .. => 5
  | .persist .. => 4
  | .save .. => 3
  | .restore .. | .lock _ => 2
  | .edit _ | .write _ | .finish .. => 1

end SyncPlace

/-- The guard: while a sync is at a place of the kind, nothing else writes the live
configuration. -/
def Undisturbed (kind : SyncPlace R → Bool) (s : SyncSystem R) : SyncAction R → Prop
  | .thread (.run t) => (s.threads.lookup t).any SyncPlace.writesLive = true →
    ∀ e ∈ s.threads.entries, e.1 ≠ t → kind e.2 = false
  | _ => True

instance (kind : SyncPlace R → Bool) (s : SyncSystem R) (a : SyncAction R) :
    Decidable (Undisturbed kind s a) := by
  unfold Undisturbed
  split <;> infer_instance

/-! ## One access -/

section

variable {crates} {s s' : SyncSystem R} {a : SyncAction R} {t : ℕ} {p : SyncPlace R}
  {shared : Secondary R} {p' : Option (SyncPlace R)}

/-- What an action does. -/
theorem syncStep_cases (h : syncStep crates s a = some s') :
    (∃ t op, a = .thread (.start t op) ∧ s.threads.lookup t = none ∧
      s' = ⟨s.shared, put s.threads t (some (SyncOp.entry op))⟩) ∨
    (∃ t p shared p', a = .thread (.run t) ∧ s.threads.lookup t = some p ∧
      syncNext crates s p = some (shared, p') ∧ s' = ⟨shared, put s.threads t p'⟩) ∨
    a = .restart ∧ s' = ⟨s.shared.restart, ∅⟩ := by
  cases a with
  | restart => exact Or.inr (Or.inr ⟨rfl, (Option.some.inj h).symm⟩)
  | thread a =>
    obtain ⟨t, op, rfl, ht, rfl⟩ | ⟨t, p, shared, p', rfl, ht, hnext, rfl⟩ := Threads.step_cases _ _ h
    · exact Or.inl ⟨t, op, rfl, ht, rfl⟩
    · exact Or.inr (Or.inl ⟨t, p, shared, p', rfl, ht, hnext, rfl⟩)

/-- An access that can be held up leads to one place. -/
theorem map_pair_eq_some {A B : Type} {o : Option A} {x : A} {q q' : B} :
    (o.map fun y => (y, q)) = some (x, q') ↔ o = some x ∧ q = q' := by
  simp [Option.map_eq_some_iff]

theorem acquire_eq_some {b b' : Secondary R} :
    b.acquire = some b' ↔ b.lock = none ∧ b' = { b with lock := some b.live } := by
  unfold Secondary.acquire
  cases hlock : b.lock with
  | none => simp [eq_comm]
  | some copy => simp

theorem write_eq_some {b b' : Secondary R} {ok : Bool} : b.write ok = some b' ↔
    ∃ copy, b.lock = some copy ∧ b' = { b with file := if ok then copy else b.file, lock := none } := by
  simp [Secondary.write, eq_comm]

@[simp] theorem live_finish (b : Secondary R) (a : Attempt R) (result : Except Text (Planned R))
    (status : SyncStatus) (answer : Except Text Bool) :
    (b.finish crates a result status answer).live = b.live := by
  unfold Secondary.finish
  split <;> rfl

@[simp] theorem file_finish (b : Secondary R) (a : Attempt R) (result : Except Text (Planned R))
    (status : SyncStatus) (answer : Except Text Bool) :
    (b.finish crates a result status answer).file = b.file := by
  unfold Secondary.finish
  split <;> rfl

@[simp] theorem lock_finish (b : Secondary R) (a : Attempt R) (result : Except Text (Planned R))
    (status : SyncStatus) (answer : Except Text Bool) :
    (b.finish crates a result status answer).lock = b.lock := by
  unfold Secondary.finish
  split <;> rfl

/-- What a sync makes of its plan: it ends there, or it goes on to apply it. -/
theorem check_cases (crates : SyncCrates) (a : Attempt R) (result : Except Text (Planned R))
    (status : SyncStatus) :
    (∃ status' answer, check crates a result status = .finish a result status' answer ∧
      status'.applied = status.applied ∧ answer ≠ .ok true ∧
      ∀ p, result = .ok p → p.changed crates = [] ∨
        status.applied = some (fingerprint crates (p.merged crates) p.sections)) ∨
    ∃ p status', result = .ok p ∧ check crates a result status = .replace a p status' ∧
      status'.applied = status.applied ∧ p.changed crates ≠ [] ∧
      status.applied ≠ some (fingerprint crates (p.merged crates) p.sections) := by
  unfold check
  cases result with
  | error e => exact Or.inl ⟨_, _, rfl, rfl, nofun, fun p h => by cases h⟩
  | ok p =>
    dsimp only
    by_cases hchanged : p.changed crates = []
    · rw [if_pos hchanged]
      refine Or.inl ⟨_, _, rfl, rfl, nofun, ?_⟩
      rintro _ ⟨⟩
      exact Or.inl hchanged
    · rw [if_neg hchanged]
      by_cases happlied : status.applied = some (fingerprint crates (p.merged crates) p.sections)
      · rw [if_pos happlied]
        refine Or.inl ⟨_, _, rfl, rfl, nofun, ?_⟩
        rintro _ ⟨⟩
        exact Or.inr happlied
      · rw [if_neg happlied]
        exact Or.inr ⟨p, _, rfl, rfl, rfl, hchanged, happlied⟩

/-- An access that is no write of the live configuration leaves it as it is. -/
theorem live_of_next (h : syncNext crates s p = some (shared, p')) (hp : p.writesLive = false) :
    shared.live = s.shared.live := by
  cases p with
  | edit f => cases hp
  | replace a p status => cases hp
  | restore a p status previous => cases hp
  | lock ok | persist a p status previous =>
    obtain ⟨hb, rfl⟩ := map_pair_eq_some.1 h
    obtain ⟨-, rfl⟩ := acquire_eq_some.1 hb
    rfl
  | write ok | save a p status previous =>
    obtain ⟨hb, rfl⟩ := map_pair_eq_some.1 h
    obtain ⟨copy, -, rfl⟩ := write_eq_some.1 hb
    rfl
  | start a | fetch a sections | look a result =>
    cases h
    rfl
  | finish a result status answer =>
    cases h
    exact live_finish ..

theorem holds_check (a : Attempt R) (result : Except Text (Planned R)) (status : SyncStatus) :
    (check crates a result status).holds = false := by
  obtain ⟨status', answer, h, -⟩ | ⟨p, status', -, h, -⟩ := check_cases crates a result status <;>
    rw [h] <;> rfl

/-- What an access does to the lock and to the file: it takes the lock, it writes the file and
gives the lock back, or it touches neither. -/
theorem lock_of_next (h : syncNext crates s p = some (shared, p')) :
    (p.holds = false ∧ s.shared.lock = none ∧ shared.lock = some s.shared.live ∧
      shared.file = s.shared.file ∧ ∃ q, p' = some q ∧ q.holds = true) ∨
    (p.holds = true ∧ (∃ copy, s.shared.lock = some copy ∧
        (shared.file = copy ∨ shared.file = s.shared.file)) ∧
      shared.lock = none ∧ ∀ q, p' = some q → q.holds = false) ∨
    (p.holds = false ∧ shared.lock = s.shared.lock ∧ shared.file = s.shared.file ∧
      ∀ q, p' = some q → q.holds = false) := by
  cases p with
  | lock ok | persist a p status previous =>
    obtain ⟨hb, rfl⟩ := map_pair_eq_some.1 h
    obtain ⟨hlock, rfl⟩ := acquire_eq_some.1 hb
    exact Or.inl ⟨rfl, hlock, rfl, rfl, _, rfl, rfl⟩
  | write ok =>
    obtain ⟨hb, rfl⟩ := map_pair_eq_some.1 h
    obtain ⟨copy, hlock, rfl⟩ := write_eq_some.1 hb
    exact Or.inr (Or.inl ⟨rfl, ⟨copy, hlock, ite_eq_or_eq ..⟩, rfl, fun q hq => by cases hq⟩)
  | save a p status previous =>
    obtain ⟨hb, rfl⟩ := map_pair_eq_some.1 h
    obtain ⟨copy, hlock, rfl⟩ := write_eq_some.1 hb
    refine Or.inr (Or.inl ⟨rfl, ⟨copy, hlock, ite_eq_or_eq ..⟩, rfl, ?_⟩)
    rintro _ ⟨⟩
    split <;> rfl
  | edit f | finish a result status answer =>
    cases h
    exact Or.inr (Or.inr ⟨rfl, by simp, by simp, fun q hq => by cases hq⟩)
  | look a result =>
    cases h
    refine Or.inr (Or.inr ⟨rfl, rfl, rfl, ?_⟩)
    rintro _ ⟨⟩
    exact holds_check ..
  | start a | fetch a sections | replace a p status | restore a p status previous =>
    cases h
    refine Or.inr (Or.inr ⟨rfl, rfl, rfl, ?_⟩)
    rintro _ ⟨⟩
    rfl

/-! ## The lock -/

/-- Who holds `config_lock`: a thread if it is taken, and then one alone. -/
structure Locked (s : SyncSystem R) : Prop where
  held : s.shared.lock.isSome = true → ∃ t p, s.threads.lookup t = some p ∧ p.holds = true
  free : s.shared.lock = none → ∀ t p, s.threads.lookup t = some p → p.holds = false
  alone : ∀ t u p q, s.threads.lookup t = some p → s.threads.lookup u = some q →
    p.holds = true → q.holds = true → t = u

theorem locked_start (hl : Locked s) {op : SyncOp R} (ht : s.threads.lookup t = none) :
    Locked ⟨s.shared, put s.threads t (some op.entry)⟩ := by
  have hentry : op.entry.holds = false := by cases op <;> rfl
  have hold : ∀ u q, (put s.threads t (some op.entry)).lookup u = some q → q.holds = true →
      s.threads.lookup u = some q := by
    intro u q hu hq
    obtain ⟨-, heq⟩ | ⟨-, hu⟩ := lookup_put_iff.1 hu
    · cases heq
      rw [hentry] at hq
      cases hq
    · exact hu
  refine ⟨fun hlock => ?_, fun hlock u q hu => ?_, fun u v q r hu hv hq hr => ?_⟩
  · obtain ⟨u, q, hu, hq⟩ := hl.held hlock
    refine ⟨u, q, lookup_put_iff.2 (Or.inr ⟨?_, hu⟩), hq⟩
    rintro rfl
    rw [ht] at hu
    cases hu
  · cases hq : q.holds with
    | false => rfl
    | true => exact hq.symm.trans (hl.free hlock u q (hold u q hu hq))
  · exact hl.alone u v q r (hold u q hu hq) (hold v r hv hr) hq hr

theorem locked_run (hl : Locked s) (ht : s.threads.lookup t = some p)
    (h : syncNext crates s p = some (shared, p')) : Locked ⟨shared, put s.threads t p'⟩ := by
  obtain ⟨hp, hlock, hnew, -, q₀, rfl, hq₀⟩ | ⟨hp, -, hnew, hp'⟩ | ⟨hp, hsame, -, hp'⟩ := lock_of_next h
  · -- nobody held the lock, and now this thread does
    have honly : ∀ u q, (put s.threads t (some q₀)).lookup u = some q → q.holds = true → u = t := by
      intro u q hu hq
      obtain ⟨rfl, -⟩ | ⟨-, hu⟩ := lookup_put_iff.1 hu
      · rfl
      · rw [hl.free hlock u q hu] at hq
        cases hq
    refine ⟨fun _ => ⟨t, q₀, lookup_put_iff.2 (Or.inl ⟨rfl, rfl⟩), hq₀⟩, fun hfree => ?_,
      fun u v q r hu hv hq hr => (honly u q hu hq).trans (honly v r hv hr).symm⟩
    rw [hnew] at hfree
    cases hfree
  · -- this thread held it alone, and now nobody does
    have hnone : ∀ u q, (put s.threads t p').lookup u = some q → q.holds = false := by
      intro u q hu
      obtain ⟨-, hq⟩ | ⟨hne, hu⟩ := lookup_put_iff.1 hu
      · exact hp' q hq
      · cases hq : q.holds with
        | false => rfl
        | true => exact absurd (hl.alone u t q p hu ht hq hp) hne
    refine ⟨fun hlock => ?_, fun _ => hnone, fun u v q r hu hv hq hr => ?_⟩
    · rw [hnew] at hlock
      cases hlock
    · rw [hnone u q hu] at hq
      cases hq
  · have hold : ∀ u q, (put s.threads t p').lookup u = some q → q.holds = true →
        s.threads.lookup u = some q := by
      intro u q hu hq
      obtain ⟨-, heq⟩ | ⟨-, hu⟩ := lookup_put_iff.1 hu
      · rw [hp' q heq] at hq
        cases hq
      · exact hu
    refine ⟨fun hlock => ?_, fun hlock u q hu => ?_, fun u v q r hu hv hq hr => ?_⟩
    · rw [hsame] at hlock
      obtain ⟨u, q, hu, hq⟩ := hl.held hlock
      refine ⟨u, q, lookup_put_iff.2 (Or.inr ⟨?_, hu⟩), hq⟩
      rintro rfl
      rw [ht] at hu
      cases hu
      rw [hp] at hq
      cases hq
    · cases hq : q.holds with
      | false => rfl
      | true => exact hq.symm.trans (hl.free (hsame ▸ hlock) u q (hold u q hu hq))
    · exact hl.alone u v q r (hold u q hu hq) (hold v r hv hr) hq hr

/-- Nothing in flight. -/
theorem locked_empty {b : Secondary R} (hlock : b.lock = none) : Locked (⟨b, ∅⟩ : SyncSystem R) where
  held h := by
    rw [hlock] at h
    cases h
  free _ t p h := by cases h
  alone t u p q h := by cases h

theorem locked_step (hl : Locked s) (h : syncStep crates s a = some s') : Locked s' := by
  obtain ⟨t, op, rfl, ht, rfl⟩ | ⟨t, p, shared, p', rfl, ht, hnext, rfl⟩ | ⟨rfl, rfl⟩ := syncStep_cases h
  · exact locked_start hl ht
  · exact locked_run hl ht hnext
  · exact locked_empty rfl

/-! ## What a place says of the box -/

/-- Until its replace, a sync has a copy of what is live. -/
def CopyCurrent (b : Secondary R) : SyncPlace R → Prop
  | .look _ (.ok p) | .replace _ p _ => b.live = p.copy
  | _ => True

variable (crates) in
/-- From its replace on, what a sync has planned is live, then about to be written, and at
last in the file. -/
def LeftInForce (b : Secondary R) : SyncPlace R → Prop
  | .persist _ p _ _ => b.live = p.merged crates
  | .save _ p _ _ => b.live = p.merged crates ∧ b.lock = some b.live
  | .finish _ (.ok p) _ (.ok true) =>
    b.live = p.merged crates ∧ b.file = b.live ∧ ∀ copy, b.lock = some copy → copy = b.live
  | _ => True

variable (crates) in
/-- A plan that is to be applied: it changes something, and is not what the status has as
applied last. -/
def Planned.Due (p : Planned R) (status : SyncStatus) : Prop :=
  p.changed crates ≠ [] ∧
    status.applied ≠ some (fingerprint crates (p.merged crates) p.sections)

variable (crates) in
/-- A sync plans with what it has read, and applies a plan that is due. -/
def Decided : SyncPlace R → Prop
  | .look a (.ok p) => a.fetched = .ok p.primary
  | .replace a p status | .persist a p status _ | .save a p status _ =>
    a.fetched = .ok p.primary ∧ p.Due crates status
  | .restore a p _ _ => a.fetched = .ok p.primary ∧ a.persists = false
  | .finish a (.ok p) status answer =>
    a.fetched = .ok p.primary ∧ (a.persists = true → (answer = .ok true ↔ p.Due crates status))
  | _ => True

/-- What is said of each place is kept, if it holds where a thread starts, and an access hands it
on to its own next place and leaves it for the other threads. -/
theorem each_syncStep {rel : Secondary R → SyncPlace R → Prop}
    (hentry : ∀ b op, rel b (SyncOp.entry op))
    (hown : ∀ t p shared q, s.threads.lookup t = some p →
      syncNext crates s p = some (shared, some q) → rel shared q)
    (hothers : ∀ t p shared p' u q, a = .thread (.run t) → s.threads.lookup t = some p →
      syncNext crates s p = some (shared, p') → u ≠ t → s.threads.lookup u = some q → rel shared q)
    (hi : Each rel s) (h : syncStep crates s a = some s') : Each rel s' := by
  obtain ⟨t, op, rfl, ht, rfl⟩ | ⟨t, p, shared, p', rfl, ht, hnext, rfl⟩ | ⟨rfl, rfl⟩ := syncStep_cases h
  · refine each_put (fun u q _ hu => hi u q hu) fun q hq => ?_
    cases hq
    exact hentry ..
  · exact each_put (fun u q hne hu => hothers t p shared p' u q rfl ht hnext hne hu)
      fun q hq => hown t p shared q ht (hq ▸ hnext)
  · intro t q h
    cases h

theorem copyCurrent_of_planned_eq_false {b : Secondary R} {q : SyncPlace R} (h : q.planned = false) :
    CopyCurrent b q := by
  unfold CopyCurrent
  split
  · cases h
  · cases h
  · trivial

theorem leftInForce_of_applying_eq_false {b : Secondary R} {q : SyncPlace R}
    (h : q.applying = false) : LeftInForce crates b q := by
  unfold LeftInForce
  split
  · cases h
  · cases h
  · cases h
  · trivial

theorem applying_finish (a : Attempt R) (result : Except Text (Planned R)) (status : SyncStatus)
    {answer : Except Text Bool} (h : answer ≠ .ok true) :
    (SyncPlace.finish a result status answer).applying = false := by
  match result, answer, h with
  | .error _, _, _ => rfl
  | .ok _, .error _, _ => rfl
  | .ok _, .ok false, _ => rfl
  | .ok _, .ok true, h => exact absurd rfl h

/-- A write of the live configuration finds no other sync at a place of the kind. -/
theorem Undisturbed.eq_false {kind : SyncPlace R → Bool} (hg : Undisturbed kind s (.thread (.run t)))
    (ht : s.threads.lookup t = some p) (hp : p.writesLive = true) {u : ℕ} {q : SyncPlace R}
    (hne : u ≠ t) (hu : s.threads.lookup u = some q) : kind q = false :=
  hg (by rw [ht]; exact hp) ⟨u, q⟩ (Table.mem_entries_iff.2 hu) hne

/-- A sync's own access, until its replace. -/
theorem copyCurrent_own (hp : CopyCurrent s.shared p) {q : SyncPlace R}
    (hnext : syncNext crates s p = some (shared, some q)) : CopyCurrent shared q := by
  cases p with
  | fetch a sections =>
    cases hnext
    cases a.fetched with
    | error e => trivial
    | ok primary => exact rfl
  | look a result =>
    cases hnext
    obtain ⟨status', answer, hcheck, -⟩ | ⟨p, status', rfl, hcheck, -⟩ :=
      check_cases crates a result s.shared.status
    · rw [hcheck]
      trivial
    · rw [hcheck]
      exact hp
  | lock ok | persist a p status previous =>
    obtain ⟨-, ⟨⟩⟩ := map_pair_eq_some.1 hnext
    trivial
  | save a p status previous =>
    obtain ⟨-, ⟨⟩⟩ := map_pair_eq_some.1 hnext
    split <;> trivial
  | write ok => simp [syncNext] at hnext
  | edit f | finish a result status answer => cases hnext
  | start a | replace a p status | restore a p status previous =>
    cases hnext
    trivial

/-- **A sync nobody disturbs before its replace** has a copy of what is live. -/
theorem copyCurrent_step (hg : Undisturbed SyncPlace.planned s a) (hi : Each CopyCurrent s)
    (h : syncStep crates s a = some s') : Each CopyCurrent s' := by
  refine each_syncStep (fun b op => ?_) (fun t p shared q ht => copyCurrent_own (hi t p ht)) ?_ hi h
  · cases op <;> trivial
  · rintro t p shared p' u q rfl ht hnext hne hu
    cases hp : p.writesLive with
    | true => exact copyCurrent_of_planned_eq_false (hg.eq_false ht hp hne hu)
    | false =>
      have hq := hi u q hu
      unfold CopyCurrent at hq ⊢
      rw [live_of_next hnext hp]
      exact hq

/-- What a sync has planned stays in force while another thread makes an access that does not
write the live configuration. -/
theorem leftInForce_other (hl : Locked s) (ht : s.threads.lookup t = some p)
    (hnext : syncNext crates s p = some (shared, p')) (hlive : shared.live = s.shared.live) {u : ℕ}
    {q : SyncPlace R} (hne : u ≠ t) (hu : s.threads.lookup u = some q)
    (hq : LeftInForce crates s.shared q) : LeftInForce crates shared q := by
  have hlock := lock_of_next hnext
  match q, hq with
  | .persist _ p _ _, hq => exact hlive.trans hq
  | .save a₀ p₀ status₀ previous₀, ⟨hq, hcopy⟩ =>
    refine ⟨hlive.trans hq, ?_⟩
    obtain ⟨-, hfree, -⟩ | ⟨hp, -⟩ | ⟨-, hsame, -⟩ := hlock
    · rw [hfree] at hcopy
      cases hcopy
    · exact absurd (hl.alone u t _ p hu ht rfl hp) hne
    · rw [hsame, hcopy, hlive]
  | .finish _ (.ok p) _ (.ok true), ⟨hq, hfile, hcopy⟩ =>
    refine ⟨hlive.trans hq, ?_⟩
    rw [hlive]
    obtain ⟨-, -, hnew, hsame, -⟩ | ⟨-, ⟨copy, hheld, hwritten⟩, hnew, -⟩ | ⟨-, hsame, hsame', -⟩ := hlock
    · refine ⟨hsame.trans hfile, fun copy hc => ?_⟩
      exact (Option.some.inj (hnew.symm.trans hc)).symm
    · refine ⟨?_, fun copy hc => ?_⟩
      · rcases hwritten with h | h
        · exact h.trans (hcopy copy hheld)
        · exact h.trans hfile
      · rw [hnew] at hc
        cases hc
    · exact ⟨hsame'.trans hfile, fun copy hc => hcopy copy (hsame ▸ hc)⟩
  | .finish _ (.error _) _ _, _ => trivial
  | .finish _ (.ok _) _ (.ok false), _ => trivial
  | .finish _ (.ok _) _ (.error _), _ => trivial
  | .edit _, _ => trivial
  | .lock _, _ => trivial
  | .write _, _ => trivial
  | .start _, _ => trivial
  | .fetch .., _ => trivial
  | .look .., _ => trivial
  | .replace .., _ => trivial
  | .restore .., _ => trivial

/-- A sync's own access, from its replace on. -/
theorem leftInForce_own (hp : LeftInForce crates s.shared p) {q : SyncPlace R}
    (hnext : syncNext crates s p = some (shared, some q)) : LeftInForce crates shared q := by
  cases p with
  | replace a p status =>
    cases hnext
    exact rfl
  | persist a p status previous =>
    obtain ⟨hb, hq⟩ := map_pair_eq_some.1 hnext
    obtain ⟨-, rfl⟩ := acquire_eq_some.1 hb
    cases hq
    exact ⟨hp, rfl⟩
  | save a p status previous =>
    obtain ⟨hb, hq⟩ := map_pair_eq_some.1 hnext
    obtain ⟨copy, hcopy, rfl⟩ := write_eq_some.1 hb
    cases hq
    by_cases hok : a.persists = true
    · rw [if_pos hok, if_pos hok]
      refine ⟨hp.1, ?_, fun copy hc => by cases hc⟩
      exact Option.some.inj (hcopy.symm.trans hp.2)
    · rw [if_neg hok, if_neg hok]
      trivial
  | look a result =>
    cases hnext
    obtain ⟨status', answer, hcheck, -, hne, -⟩ | ⟨p, status', rfl, hcheck, -⟩ :=
      check_cases crates a result s.shared.status
    · rw [hcheck]
      exact leftInForce_of_applying_eq_false (applying_finish a result status' hne)
    · rw [hcheck]
      trivial
  | lock ok =>
    obtain ⟨-, ⟨⟩⟩ := map_pair_eq_some.1 hnext
    trivial
  | write ok => simp [syncNext] at hnext
  | edit f | finish a result status answer => cases hnext
  | start a | fetch a sections | restore a p status previous =>
    cases hnext
    trivial

/-- **A sync nobody disturbs after its replace** leaves what it has planned in force and in
the file. -/
theorem leftInForce_step (hl : Locked s) (hg : Undisturbed SyncPlace.applying s a)
    (hi : Each (LeftInForce crates) s) (h : syncStep crates s a = some s') :
    Each (LeftInForce crates) s' := by
  refine each_syncStep (fun b op => ?_) (fun t p shared q ht => leftInForce_own (hi t p ht)) ?_ hi h
  · cases op <;> trivial
  · rintro t p shared p' u q rfl ht hnext hne hu
    cases hp : p.writesLive with
    | true => exact leftInForce_of_applying_eq_false (hg.eq_false ht hp hne hu)
    | false => exact leftInForce_other hl ht hnext (live_of_next hnext hp) hne hu (hi u q hu)

variable (crates) in
/-- What a run keeps in which nobody disturbs a sync after its replace. -/
def InForce (s : SyncSystem R) : Prop := Locked s ∧ Each (LeftInForce crates) s

theorem decided_own (hp : Decided crates p) {q : SyncPlace R}
    (hnext : syncNext crates s p = some (shared, some q)) : Decided crates q := by
  cases p with
  | fetch a sections =>
    cases hnext
    cases hfetched : a.fetched with
    | error e => trivial
    | ok primary => exact hfetched
  | look a result =>
    cases hnext
    obtain ⟨status', answer, hcheck, happlied, hne, hnot⟩ | ⟨p, status', rfl, hcheck, happlied, hdue⟩ :=
      check_cases crates a result s.shared.status
    · rw [hcheck]
      cases result with
      | error e => trivial
      | ok p =>
        refine ⟨hp, fun _ => iff_of_false hne fun ⟨hchanged, hfp⟩ => ?_⟩
        rw [happlied] at hfp
        exact (hnot p rfl).elim hchanged hfp
    · rw [hcheck]
      exact ⟨hp, hdue.1, happlied ▸ hdue.2⟩
  | replace a p status =>
    cases hnext
    exact hp
  | persist a p status previous =>
    obtain ⟨-, ⟨⟩⟩ := map_pair_eq_some.1 hnext
    exact hp
  | save a p status previous =>
    obtain ⟨-, ⟨⟩⟩ := map_pair_eq_some.1 hnext
    by_cases hok : a.persists = true
    · rw [if_pos hok]
      exact ⟨hp.1, fun _ => iff_of_true rfl hp.2⟩
    · rw [if_neg hok]
      exact ⟨hp.1, Bool.not_eq_true _ ▸ hok⟩
  | restore a p status previous =>
    cases hnext
    refine ⟨hp.1, fun hok => ?_⟩
    rw [hp.2] at hok
    cases hok
  | lock ok =>
    obtain ⟨-, ⟨⟩⟩ := map_pair_eq_some.1 hnext
    trivial
  | write ok => simp [syncNext] at hnext
  | edit f | finish a result status answer => cases hnext
  | start a =>
    cases hnext
    trivial

/-- A sync plans with what it has read, and applies a plan that is due. -/
theorem decided_step (hi : Each (fun _ => Decided crates) s) (h : syncStep crates s a = some s') :
    Each (fun _ => Decided crates) s' := by
  refine each_syncStep (fun b op => ?_) (fun t p shared q ht => decided_own (hi t p ht)) ?_ hi h
  · cases op <;> trivial
  · exact fun t p shared p' u q _ _ _ _ hu => hi u q hu

/-! ## Every run -/

variable {b : Secondary R} {as : List (SyncAction R)}

theorem left_check (a : Attempt R) (result : Except Text (Planned R)) (status : SyncStatus) :
    (check crates a result status).left < 6 := by
  obtain ⟨status', answer, h, -⟩ | ⟨p, status', -, h, -⟩ := check_cases crates a result status <;>
    rw [h] <;> simp [SyncPlace.left]

theorem left_of_next {q : SyncPlace R} (hnext : syncNext crates s p = some (shared, some q)) :
    q.left < p.left := by
  cases p with
  | look a result =>
    cases hnext
    exact left_check ..
  | lock ok | persist a p status previous =>
    obtain ⟨-, ⟨⟩⟩ := map_pair_eq_some.1 hnext
    simp [SyncPlace.left]
  | save a p status previous =>
    obtain ⟨-, ⟨⟩⟩ := map_pair_eq_some.1 hnext
    split <;> simp [SyncPlace.left]
  | write ok => simp [syncNext] at hnext
  | edit f | finish a result status answer => cases hnext
  | start a | fetch a sections | replace a p status | restore a p status previous =>
    cases hnext
    simp [SyncPlace.left]

/-- Only the lock holds an access up. -/
theorem isSome_next (hlock : s.shared.lock.isSome = p.holds) : (syncNext crates s p).isSome = true := by
  cases p with
  | lock ok | persist a p status previous =>
    have hnone : s.shared.lock = none := Option.isSome_eq_false_iff.1 hlock |> Option.isNone_iff_eq_none.1
    simp [syncNext, Secondary.acquire, hnone]
  | write ok | save a p status previous => simpa [syncNext, Secondary.write, SyncPlace.holds] using hlock
  | _ => rfl

theorem isSome_run (ht : s.threads.lookup t = some p) (h : (syncNext crates s p).isSome = true) :
    (syncStep crates s (.thread (.run t))).isSome = true := by
  simp only [syncStep, Threads.step, ht]
  rwa [Option.isSome_map]

/-- The run of a thread is an access of its place. -/
theorem run_cases (h : syncStep crates s (.thread (.run t)) = some s')
    (ht : s.threads.lookup t = some p) :
    ∃ shared p', syncNext crates s p = some (shared, p') ∧ s' = ⟨shared, put s.threads t p'⟩ := by
  obtain ⟨_, _, ha, -⟩ | ⟨u, q, shared, p', ha, hu, hnext, rfl⟩ | ⟨ha, -⟩ := syncStep_cases h
  · cases ha
  · cases ha
    cases ht.symm.trans hu
    exact ⟨shared, p', hnext, rfl⟩
  · cases ha

/-- **A sync gets to its end**: a thread in flight can go on, or waits for `config_lock`, and
then the thread that has it can go on.  Each access brings it closer. -/
theorem sync_goes_on (hlock : b.lock = none) (hrun : exec (syncStep crates) ⟨b, ∅⟩ as = some s)
    (ht : s.threads.lookup t = some p) :
    ((syncStep crates s (.thread (.run t))).isSome = true ∨ s.shared.lock.isSome = true ∧
      ∃ u q, s.threads.lookup u = some q ∧ q.holds = true ∧
        (syncStep crates s (.thread (.run u))).isSome = true) ∧
    ∀ s' q, syncStep crates s (.thread (.run t)) = some s' → s'.threads.lookup t = some q →
      q.left < p.left := by
  have hl : Locked s := inv_of_exec_all _ (fun _ _ _ hi h => locked_step hi h) (locked_empty hlock) hrun
  constructor
  · cases hlocked : s.shared.lock.isSome with
    | false =>
      have hfree := hl.free (Option.not_isSome_iff_eq_none.1 (by rw [hlocked]; exact Bool.false_ne_true))
      exact Or.inl (isSome_run ht (isSome_next (hlocked.trans (hfree t p ht).symm)))
    | true =>
      obtain ⟨u, q, hu, hq⟩ := hl.held hlocked
      exact Or.inr ⟨rfl, u, q, hu, hq, isSome_run hu (isSome_next (hlocked.trans hq.symm))⟩
  · intro s' q hstep hq
    obtain ⟨shared, p', hnext, rfl⟩ := run_cases hstep ht
    obtain ⟨-, rfl⟩ | ⟨hne, -⟩ := lookup_put_iff.1 hq
    · exact left_of_next hnext
    · exact absurd rfl hne

/-- Nothing is in flight. -/
theorem each_empty (rel : Secondary R → SyncPlace R → Prop) (b : Secondary R) : Each rel ⟨b, ∅⟩ :=
  fun t q h => by cases h

theorem decided_of_exec (hrun : exec (syncStep crates) ⟨b, ∅⟩ as = some s) :
    Each (fun _ => Decided crates) s :=
  inv_of_exec_all _ (fun _ _ _ hi h => decided_step hi h) (each_empty _ b) hrun

theorem copyCurrent_of_exec (hg : Guarded (syncStep crates) (Undisturbed SyncPlace.planned) ⟨b, ∅⟩ as)
    (hrun : exec (syncStep crates) ⟨b, ∅⟩ as = some s) : Each CopyCurrent s :=
  inv_of_exec _ (fun _ _ _ hg hi h => copyCurrent_step hg hi h) (each_empty _ b) hg hrun

theorem leftInForce_of_exec (hlock : b.lock = none)
    (hg : Guarded (syncStep crates) (Undisturbed SyncPlace.applying) ⟨b, ∅⟩ as)
    (hrun : exec (syncStep crates) ⟨b, ∅⟩ as = some s) : Each (LeftInForce crates) s := by
  have hinv : InForce crates s := inv_of_exec _
    (fun _ _ _ hg hi h => ⟨locked_step hi.1 h, leftInForce_step hi.1 hg hi.2 h⟩)
    ⟨locked_empty hlock, each_empty _ b⟩ hg hrun
  exact hinv.2

/-- In every run of edits, syncs, writes of the file and restarts, of every access of a sync
whose configuration can be written:

* it changes no field outside the sections, if nothing else has written the live
  configuration between a sync's copy and its replace;
* with the access that ends a sync which applied its plan, nothing is left to plan, and the
  next process starts with what is live, if nothing else has written the live configuration
  between a sync's replace and its end;
* a sync that found a chosen section different from the primary's applies the primary if and
  only if what it read as applied last is not the same.  (The JSON of a section tells the
  copy's and the primary's apart.) -/
theorem follows_primary (hlock : b.lock = none) (hrun : exec (syncStep crates) ⟨b, ∅⟩ as = some s)
    (hstep : syncStep crates s (.thread (.run t)) = some s') (ht : s.threads.lookup t = some p)
    {call : Attempt R} {sections : List SyncSection} (hsync : p.sync = some (call, sections))
    (hpersists : call.persists = true) :
    (Guarded (syncStep crates) (Undisturbed SyncPlace.planned) ⟨b, ∅⟩ as →
      Kept sections s.shared.live s'.shared.live) ∧
    ∀ plan status answer, p = .finish call (.ok plan) status answer →
      call.fetched = .ok plan.primary ∧
      (Guarded (syncStep crates) (Undisturbed SyncPlace.applying) ⟨b, ∅⟩ as → answer = .ok true →
        Api.plan crates s'.shared.live plan.primary sections = (s'.shared.live, []) ∧
          (∀ x ∈ sections, content s'.shared.live x = content plan.primary x) ∧
          s'.shared.restart.live = s'.shared.live) ∧
      ((∀ x ∈ sections, crates.TellsApart plan.copy plan.primary x) →
        (∃ x ∈ sections, content plan.copy x ≠ content plan.primary x) →
        (answer = .ok true ↔ status.applied ≠ some (fingerprint crates plan.primary sections))) := by
  obtain ⟨shared, p', hnext, rfl⟩ := run_cases hstep ht
  have hdecided : Decided crates p := decided_of_exec hrun t p ht
  refine ⟨fun hg => ?_, ?_⟩
  · cases hp : p.writesLive with
    | false =>
      rw [live_of_next hnext hp]
      exact .refl sections s.shared.live
    | true =>
      cases p with
      | replace a plan status =>
        have hcopy : s.shared.live = plan.copy := copyCurrent_of_exec hg hrun t _ ht
        cases hsync
        cases hnext
        rw [hcopy]
        exact kept_merged plan.copy plan.primary plan.sections
      | restore a plan status previous =>
        cases hsync
        rw [hdecided.2] at hpersists
        cases hpersists
      | edit f => cases hsync
      | _ => cases hp
  · rintro plan status answer rfl
    cases hsync
    cases hnext
    refine ⟨hdecided.1, fun hg hanswer => ?_, fun hjson hdiffers => ?_⟩
    · subst hanswer
      obtain ⟨hlive, hfile, -⟩ := leftInForce_of_exec hlock hg hrun t _ ht
      have hmerged : s.shared.live = merged plan.copy plan.primary plan.sections := hlive
      simp only [live_finish, Secondary.restart, file_finish, hfile, and_true]
      rw [hmerged]
      refine ⟨plan_merged plan.copy plan.primary plan.sections, fun x hx => ?_⟩
      rw [content_merged, if_pos hx]
    · have hchanged : plan.changed crates ≠ [] := by
        obtain ⟨x, hx, hne⟩ := hdiffers
        exact fun hnil => hne ((plan_changed_eq_nil_iff hjson).1 hnil x hx)
      have hfp : fingerprint crates (plan.merged crates) plan.sections =
          fingerprint crates plan.primary plan.sections := fingerprint_merged ..
      rw [hdecided.2 hpersists, Planned.Due, hfp, and_iff_right hchanged]

end

namespace FollowedRecord

/-- What the primary serves. -/
def nas : Dns.CustomRecordConfig :=
  ⟨"nas.lan".toList, "A".toList, "192.168.1.20".toList, 300⟩

/-- Its JSON. -/
def nasJson : Text :=
  ("[\x7b\"domain\":\"nas.lan\",\"ttl\":300,\"type\":\"A\",\"value\":\"192.168.1.20\"" ++
    "\x7d]").toList

/-- The two texts of the records section, and the digest of one of them. -/
def recordCrates : SyncCrates where
  json
    | .records, records => if records = [] then "[]".toList else nasJson
    | _, _ => []
  digest text :=
    if text = nasJson then
      "156297c8e2d61e3b1fff9945ca4150aac77039da2ee966baf53e3f5db0016147".toList
    else []

/-- A box as it is set up, that follows the records. -/
def fresh : Config Unit :=
  let config : Config Unit := .default "/data".toList ()
  { config with sync := { config.sync with sections := [.records] } }

def primary : Config Unit := { fresh with customRecords := [nas] }

def secondary : Secondary Unit := ⟨fresh, fresh, .default, .default, none⟩

/-- A sync at a time. -/
def attempt (now : ℤ) : Attempt Unit := ⟨.ok primary, now, now, now, true, true⟩

/-- So many accesses of a thread. -/
def accesses (t n : ℕ) : List (SyncAction Unit) := List.replicate n (.thread (.run t))

/-- A sync that begins, and as many accesses of it. -/
def syncs (now : ℤ) (n : ℕ) : List (SyncAction Unit) :=
  .thread (.start 0 (.sync (attempt now))) :: accesses 0 n

/-- An edit, and the write of the file. -/
def edits (f : Config Unit → Config Unit) : List (SyncAction Unit) :=
  .thread (.start 1 (.edit f)) :: accesses 1 1 ++ .thread (.start 1 (.persist true)) :: accesses 1 2

/-- The owner deletes the records, once they have been synced. -/
def deleted : List (SyncAction Unit) :=
  syncs 100 7 ++ .restart :: (edits (fun _ => fresh) ++ syncs 400 3)

/-- The owner turns debug logging on while a sync has its copy. -/
def overtaken : List (SyncAction Unit) :=
  syncs 100 2 ++ (edits (fun config => { config with debugLogging := true }) ++ accesses 0 1)

end FollowedRecord

open FollowedRecord in
/-- A secondary that has none of the records takes the primary's. -/
theorem follows_primary_first :
    ∃ s s', exec (syncStep recordCrates) ⟨secondary, ∅⟩ (syncs 100 6) = some s ∧
      syncStep recordCrates s (.thread (.run 0)) = some s' ∧
      Kept [.records] s.shared.live s'.shared.live ∧
      content s'.shared.live .records = [nas] ∧ s'.shared.restart.live = s'.shared.live := by
  have hjson : recordCrates.TellsApart fresh primary .records := by
    rw [SyncCrates.TellsApart]
    decide
  obtain ⟨s, s', status, hrun, hstep, ht⟩ : ∃ s s' status,
      exec (syncStep recordCrates) ⟨secondary, ∅⟩ (syncs 100 6) = some s ∧
      syncStep recordCrates s (.thread (.run 0)) = some s' ∧
      s.threads.lookup 0 =
        some (.finish (attempt 100) (.ok ⟨[.records], primary, fresh⟩) status (.ok true)) :=
    ⟨_, _, _, rfl, rfl, rfl⟩
  obtain ⟨hkept, hends⟩ := follows_primary (b := secondary) rfl hrun hstep ht rfl rfl
  obtain ⟨-, happlied, hwhen⟩ := hends _ _ _ rfl
  have hnew := (hwhen (fun x hx => List.mem_singleton.1 hx ▸ hjson)
    ⟨.records, List.mem_singleton_self _, by decide⟩).1 rfl
  obtain ⟨-, hcontent, hrestart⟩ := happlied (by decide +kernel) rfl
  exact ⟨s, s', hrun, hstep, hkept (by decide +kernel), hcontent .records (List.mem_singleton_self _),
    hrestart⟩

open FollowedRecord in
/-- The records are synced, the box restarts, its owner deletes the record, and the next
sync stops although the records differ.  And an edit that comes while a sync has its copy is
undone by the sync. -/
theorem local_edit_stops_the_sync :
    (∃ s status, exec (syncStep recordCrates) ⟨secondary, ∅⟩ deleted = some s ∧
      s.threads.lookup 0 = some (.finish (attempt 400) (.ok ⟨[.records], primary, fresh⟩) status
        (.error (stillDiffer [.records]))) ∧
      stillDiffer [.records] =
        "records still differ after applying them — not restarting again".toList ∧
      content s.shared.live .records ≠ content primary .records) ∧
    ∃ s s', exec (syncStep recordCrates) ⟨secondary, ∅⟩ overtaken = some s ∧
      syncStep recordCrates s (.thread (.run 0)) = some s' ∧
      s.shared.live.debugLogging = true ∧ s.shared.file.debugLogging = true ∧
      s'.shared.live.debugLogging = false ∧ ¬ Kept [.records] s.shared.live s'.shared.live := by
  refine ⟨⟨_, _, rfl, rfl, by decide, by decide +kernel⟩, _, _, rfl, rfl, rfl, rfl, rfl, fun h => ?_⟩
  exact absurd h.debugLogging (by decide +kernel)

end Ferrite.Api
