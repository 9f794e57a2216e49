import Ferrite.Lib.Lts
import Ferrite.Lib.Table
import Ferrite.Core.Text

/-!
# Signing out

`app/src/sessions.rs` and the session half of `api/src/auth.rs`.  Sessions live in a
map and in storage; a request reads the map and may write what it read back, a renewal
is stored by a task of its own, and signing out takes the session from the map and then
from storage.  Here these are separate steps that any number of requests take in any
order, and the process may restart between any two of them.

So a request that took its copy before the sign-out can bring the session back, and a
renewal stored after it does so at the next restart: `signed_out_session_comes_back`.

What is proved about every run:

* `step_out` — a session that is in neither place and that nobody holds stays out,
  whatever happens;
* `signed_out_stays_out` — in a run in which nobody holds a session, and it is not back
  in the map, when its sign-out returns, no request is let in with it afterwards.
-/

namespace Ferrite.Api

open Lts

/-- `Session`, under the fingerprint of the password it was issued under. -/
structure Session where
  passwordFp : Text
  expires : ℤ
  created : ℤ
  lastSeen : ℤ
  agent : Text
  ip : Text
deriving DecidableEq, Repr

/-- `SESSION_TTL`, in seconds. -/
def sessionTtl : ℤ := 7 * 24 * 60 * 60

/-- `SESSION_RENEW_EVERY`. -/
def sessionRenewEvery : ℤ := 24 * 60 * 60

/-- `TOUCH_EVERY`. -/
def touchEvery : ℤ := 30

/-- `is_authenticated` on the copy it took: the session has not lapsed and was issued
under the current password. -/
def Session.isValid (session : Session) (passwordFp : Text) (now : ℤ) : Bool :=
  !(session.expires ≤ now || session.passwordFp ≠ passwordFp)

/-- The session is due to be pushed forward. -/
def Session.isDue (session : Session) (now : ℤ) : Bool :=
  sessionRenewEvery ≤ sessionTtl - (session.expires - now)

/-- The session as `is_authenticated` and `rebind_session` write it back. -/
def Session.renew (session : Session) (passwordFp : Text) (now : ℤ) : Session :=
  { session with passwordFp := passwordFp, expires := now + sessionTtl, lastSeen := now }

/-! ## The steps -/

/-- What is under way: a request that holds a copy of a session, a session on its way to
storage, a key on its way out of it.  `signOut` marks the delete a logout or a revoke
waits for. -/
inductive Task where
  | authenticating (key : Text) (copy : Session) (passwordFp : Text)
  | rebinding (key : Text) (copy : Session) (passwordFp : Text)
  | persisting (key : Text) (session : Session)
  | deleting (key : Text) (signOut : Bool)
deriving DecidableEq, Repr

/-- The panel's sessions: in memory and in storage, the fingerprint of the current
password, what is under way, the keys of tokens seen so far, and the keys that were
signed out. -/
structure Panel where
  map : Table Text Session
  store : Table Text Session
  password : Option Text
  tasks : List Task
  seen : List Text
  signedOut : List Text

/-- One atomic step of one request, task or restart. -/
inductive Action where
  | login (key : Text) (session : Session)
  | get (key : Text)
  | act (i : ℕ) (now : ℤ)
  | setPassword (passwordFp : Option Text)
  | rebindGet (key : Text) (passwordFp : Text)
  | rebindAct (i : ℕ) (now : ℤ)
  | remove (key : Text)
  | forget (key : Text)
  | save (i : ℕ) (ok : Bool)
  | delete (i : ℕ) (ok : Bool)
  | restart (now : ℤ)

namespace Panel

/-- The task goes, and others come. -/
def finish (s : Panel) (i : ℕ) (next : List Task) : Panel :=
  { s with tasks := s.tasks.eraseIdx i ++ next }

/-- `Sessions::update`: memory now, storage by a task. -/
def update (s : Panel) (i : ℕ) (key : Text) (session : Session) : Panel :=
  { s.finish i [.persisting key session] with map := s.map.insert key session }

/-- `Sessions::touch`. -/
def touch (s : Panel) (key : Text) (now : ℤ) : Panel :=
  match s.map.lookup key with
  | some session => { s with map := s.map.insert key { session with lastSeen := now } }
  | none => s

/-- What `is_authenticated` does with its copy. -/
def act (s : Panel) (i : ℕ) (key : Text) (copy : Session) (passwordFp : Text) (now : ℤ) : Panel :=
  if !copy.isValid passwordFp now then
    -- `Sessions::forget`: storage follows by a task
    { s.finish i [.deleting key false] with map := s.map.erase key }
  else if copy.isDue now then s.update i key (copy.renew passwordFp now)
  else if touchEvery ≤ now - copy.lastSeen then (s.finish i []).touch key now
  else s.finish i []

/-- One step; `none` when it is not enabled.  Tokens are random, so a login's key is
none that was seen before. -/
def step (s : Panel) : Action → Option Panel
  | .login key session =>
    if key ∈ s.seen then none
    else some { s with
      map := s.map.insert key session
      tasks := s.tasks ++ [.persisting key session]
      seen := key :: s.seen }
  | .get key =>
    -- without a password or a session the request is turned away at once
    match s.password, s.map.lookup key with
    | some passwordFp, some copy =>
      some { s with tasks := s.tasks ++ [.authenticating key copy passwordFp] }
    | _, _ => some s
  | .act i now =>
    match s.tasks[i]? with
    | some (.authenticating key copy passwordFp) => some (s.act i key copy passwordFp now)
    | _ => none
  | .setPassword passwordFp => some { s with password := passwordFp }
  | .rebindGet key passwordFp =>
    match s.map.lookup key with
    | some copy => some { s with tasks := s.tasks ++ [.rebinding key copy passwordFp] }
    | none => some s
  | .rebindAct i now =>
    match s.tasks[i]? with
    | some (.rebinding key copy passwordFp) => some (s.update i key (copy.renew passwordFp now))
    | _ => none
  | .remove key =>
    some { s with
      map := s.map.erase key
      tasks := s.tasks ++ [.deleting key true]
      seen := key :: s.seen }
  | .forget key =>
    some { s with map := s.map.erase key, tasks := s.tasks ++ [.deleting key false] }
  | .save i ok =>
    match s.tasks[i]? with
    | some (.persisting key session) =>
      some { s.finish i [] with store := if ok then s.store.insert key session else s.store }
    | _ => none
  | .delete i ok =>
    match s.tasks[i]? with
    | some (.deleting key signOut) =>
      some { s.finish i [] with
        store := if ok then s.store.erase key else s.store
        signedOut := if signOut then key :: s.signedOut else s.signedOut }
    | _ => none
  | .restart now =>
    -- `load_sessions` drops what has lapsed; tasks die with the process
    let rows := s.store.retain fun _ session => now < session.expires
    some { s with map := rows, store := rows, tasks := [] }

/-- What `is_authenticated` returns for a request that takes its copy now; `now` is when
it judges it. -/
def authenticates (s : Panel) (key : Text) (now : ℤ) : Bool :=
  match s.password, s.map.lookup key with
  | some passwordFp, some copy => copy.isValid passwordFp now
  | _, _ => false

/-- A panel with any sessions in memory and in storage, and nothing under way. -/
def start (map store : Table Text Session) (password : Option Text) (seen : List Text) : Panel :=
  ⟨map, store, password, [], seen, []⟩

end Panel

/-- The task may put the session back: it is to be stored, or a copy of it that counts
as valid is to be written. -/
def Task.holds (key : Text) : Task → Bool
  | .authenticating k copy passwordFp => k == key && copy.passwordFp == passwordFp
  | .rebinding k _ _ => k == key
  | .persisting k _ => k == key
  | .deleting _ _ => false

/-! ## A session that is out -/

/-- The session is in neither place, nobody holds it, and no login will get its key. -/
structure Panel.Out (s : Panel) (key : Text) : Prop where
  map : s.map.lookup key = none
  store : s.store.lookup key = none
  tasks : ∀ t ∈ s.tasks, t.holds key = false
  seen : key ∈ s.seen

theorem lookup_insert_none {t : Table Text Session} {k key : Text} {session : Session}
    (hne : k ≠ key) (h : t.lookup key = none) : (t.insert k session).lookup key = none := by
  rw [Table.lookup_insert_eq, if_neg (Ne.symm hne), h]

theorem lookup_erase_none {t : Table Text Session} {k key : Text} (h : t.lookup key = none) :
    (t.erase k).lookup key = none := by
  rw [Table.lookup_erase_eq, h, ite_self]

namespace Panel

variable {s s' : Panel} {key : Text}

theorem holds_append {task : Task} (h : ∀ t ∈ s.tasks, t.holds key = false)
    (htask : task.holds key = false) : ∀ t ∈ s.tasks ++ [task], t.holds key = false := by
  intro t ht
  rcases List.mem_append.1 ht with ht | ht
  · exact h t ht
  · rw [List.mem_singleton.1 ht]
    exact htask

theorem holds_finish {i : ℕ} {next : List Task} (h : ∀ t ∈ s.tasks, t.holds key = false)
    (hnext : ∀ t ∈ next, t.holds key = false) :
    ∀ t ∈ (s.finish i next).tasks, t.holds key = false := by
  intro t ht
  rcases List.mem_append.1 ht with ht | ht
  · exact h t (List.mem_of_mem_eraseIdx ht)
  · exact hnext t ht

theorem Out.ne_of_lookup (h : s.Out key) {k : Text} {copy : Session}
    (hcopy : s.map.lookup k = some copy) : k ≠ key := by
  rintro rfl
  rw [h.map] at hcopy
  cases hcopy

theorem Out.update (h : s.Out key) {i : ℕ} {k : Text} (hne : k ≠ key) (session : Session) :
    (s.update i k session).Out key where
  map := lookup_insert_none hne h.map
  store := h.store
  tasks := holds_finish h.tasks fun t ht => by
    rw [List.mem_singleton.1 ht]
    exact beq_false_of_ne hne
  seen := h.seen

theorem Out.act (h : s.Out key) {i : ℕ} {k : Text} {copy : Session} {passwordFp : Text}
    (ht : s.tasks[i]? = some (.authenticating k copy passwordFp)) (now : ℤ) :
    (s.act i k copy passwordFp now).Out key := by
  have hhold := h.tasks _ (List.mem_of_getElem? ht)
  unfold Panel.act
  split
  · exact ⟨lookup_erase_none h.map, h.store,
      holds_finish h.tasks fun t ht => by rw [List.mem_singleton.1 ht]; rfl, h.seen⟩
  · rename_i hvalid
    -- a valid copy was issued under the password, so it is not a copy of this session
    have hfp : copy.passwordFp = passwordFp := by
      simp only [Session.isValid, Bool.not_not, Bool.or_eq_true, decide_eq_true_eq, not_or] at hvalid
      exact not_ne_iff.1 hvalid.2
    have hne : k ≠ key := by
      rintro rfl
      simp [Task.holds, hfp] at hhold
    split
    · exact h.update hne _
    · split
      · unfold touch
        split
        · exact ⟨lookup_insert_none hne h.map, h.store,
            holds_finish h.tasks fun t ht => (by cases ht), h.seen⟩
        · exact ⟨h.map, h.store, holds_finish h.tasks fun t ht => (by cases ht), h.seen⟩
      · exact ⟨h.map, h.store, holds_finish h.tasks fun t ht => (by cases ht), h.seen⟩

/-- **Out is out.**  No step of any request, task or restart brings back a session that
is in neither place and that nobody holds. -/
theorem step_out {a : Action} (hout : s.Out key) (h : s.step a = some s') : s'.Out key := by
  cases a with
  | login k session =>
    simp only [step, Option.ite_none_left_eq_some, Option.some.injEq] at h
    obtain ⟨hfresh, rfl⟩ := h
    have hne : k ≠ key := by
      rintro rfl
      exact hfresh hout.seen
    exact ⟨lookup_insert_none hne hout.map, hout.store,
      holds_append hout.tasks (beq_false_of_ne hne), List.mem_cons_of_mem _ hout.seen⟩
  | get k =>
    simp only [step] at h
    split at h
    · rename_i passwordFp copy _ hcopy
      cases h
      have hne := hout.ne_of_lookup hcopy
      exact ⟨hout.map, hout.store, holds_append hout.tasks (by simp [Task.holds, hne]), hout.seen⟩
    · cases h
      exact hout
  | act i now =>
    simp only [step] at h
    split at h
    · rename_i ht
      cases h
      exact hout.act ht now
    · cases h
  | setPassword passwordFp =>
    cases h
    exact ⟨hout.map, hout.store, hout.tasks, hout.seen⟩
  | rebindGet k passwordFp =>
    simp only [step] at h
    split at h
    · rename_i copy hcopy
      cases h
      have hne := hout.ne_of_lookup hcopy
      exact ⟨hout.map, hout.store, holds_append hout.tasks (beq_false_of_ne hne), hout.seen⟩
    · cases h
      exact hout
  | rebindAct i now =>
    simp only [step] at h
    split at h
    · rename_i k copy passwordFp ht
      cases h
      have hhold := hout.tasks _ (List.mem_of_getElem? ht)
      exact hout.update (ne_of_beq_false hhold) _
    · cases h
  | remove k =>
    cases h
    exact ⟨lookup_erase_none hout.map, hout.store, holds_append hout.tasks rfl,
      List.mem_cons_of_mem _ hout.seen⟩
  | forget k =>
    cases h
    exact ⟨lookup_erase_none hout.map, hout.store, holds_append hout.tasks rfl, hout.seen⟩
  | save i ok =>
    simp only [step] at h
    split at h
    · rename_i k session ht
      cases h
      have hne : k ≠ key := ne_of_beq_false (hout.tasks _ (List.mem_of_getElem? ht))
      refine ⟨hout.map, ?_, holds_finish hout.tasks fun t ht => (by cases ht), hout.seen⟩
      simp only
      split
      · exact lookup_insert_none hne hout.store
      · exact hout.store
    · cases h
  | delete i ok =>
    simp only [step] at h
    split at h
    · cases h
      refine ⟨hout.map, ?_, holds_finish hout.tasks fun t ht => (by cases ht), hout.seen⟩
      simp only
      split
      · exact lookup_erase_none hout.store
      · exact hout.store
    · cases h
  | restart now =>
    cases h
    have hrows : (s.store.retain fun _ session => decide (now < session.expires)).lookup key =
        none := by
      rw [Table.lookup_retain, hout.store, Option.filter_none]
    exact ⟨hrows, hrows, fun t ht => (by cases ht), hout.seen⟩

end Panel

/-! ## Every run -/

/-- When a sign-out returns, its delete went through, the session is not back in the map
and nobody holds it. -/
def NobodyHolds (s : Panel) : Action → Prop
  | .delete i ok =>
    match s.tasks[i]? with
    | some (.deleting key true) =>
      ok = true ∧ s.map.lookup key = none ∧ ∀ t ∈ s.tasks, t.holds key = false
    | _ => True
  | _ => True

instance (s : Panel) (a : Action) : Decidable (NobodyHolds s a) := by
  unfold NobodyHolds
  split
  · split <;> infer_instance
  · infer_instance

/-- What holds between steps: what was signed out is out, and the keys on their way out
have been seen. -/
structure Panel.Inv (s : Panel) : Prop where
  out : ∀ key ∈ s.signedOut, s.Out key
  seen : ∀ key, Task.deleting key true ∈ s.tasks → key ∈ s.seen

namespace Panel

variable {s s' : Panel} {a : Action}

theorem deleting_of_finish {i : ℕ} {next : List Task} {key : Text}
    (hnext : Task.deleting key true ∉ next)
    (h : Task.deleting key true ∈ (s.finish i next).tasks) : Task.deleting key true ∈ s.tasks := by
  rcases List.mem_append.1 h with h | h
  · exact List.mem_of_mem_eraseIdx h
  · exact absurd h hnext

/-- A judged request neither sees a new key nor signs one out, and what it leaves behind
is not a sign-out's delete. -/
theorem act_books (s : Panel) (i : ℕ) (k : Text) (copy : Session) (passwordFp : Text) (now : ℤ) :
    (s.act i k copy passwordFp now).seen = s.seen ∧
      (s.act i k copy passwordFp now).signedOut = s.signedOut ∧
      ∀ key, Task.deleting key true ∈ (s.act i k copy passwordFp now).tasks →
        Task.deleting key true ∈ s.tasks := by
  unfold Panel.act
  split
  · exact ⟨rfl, rfl, fun key => deleting_of_finish (by simp)⟩
  · split
    · exact ⟨rfl, rfl, fun key => deleting_of_finish (by simp)⟩
    · split
      · unfold touch
        split <;> exact ⟨rfl, rfl, fun key => deleting_of_finish (by simp)⟩
      · exact ⟨rfl, rfl, fun key => deleting_of_finish (by simp)⟩

/-- What a step does to the books: seen keys stay seen, the deletes of sign-outs come
from `remove`, and only their last step signs a key out. -/
theorem step_books (h : s.step a = some s') :
    (∀ key ∈ s.seen, key ∈ s'.seen) ∧
      (∀ key, Task.deleting key true ∈ s'.tasks →
        Task.deleting key true ∈ s.tasks ∨ key ∈ s'.seen) ∧
      ∀ key ∈ s'.signedOut, key ∈ s.signedOut ∨
        ∃ i ok, a = .delete i ok ∧ s.tasks[i]? = some (.deleting key true) := by
  cases a with
  | login k session =>
    simp only [step, Option.ite_none_left_eq_some, Option.some.injEq] at h
    obtain ⟨-, rfl⟩ := h
    exact ⟨fun _ => List.mem_cons_of_mem _, fun key hmem => Or.inl (by simpa using hmem),
      fun _ => Or.inl⟩
  | get k =>
    simp only [step] at h
    split at h <;> cases h
    · exact ⟨fun _ => id, fun key hmem => Or.inl (by simpa using hmem), fun _ => Or.inl⟩
    · exact ⟨fun _ => id, fun _ => Or.inl, fun _ => Or.inl⟩
  | act i now =>
    simp only [step] at h
    split at h
    · rename_i k copy passwordFp _
      cases h
      obtain ⟨hseen, hout, htasks⟩ := s.act_books i k copy passwordFp now
      rw [hseen, hout]
      exact ⟨fun _ => id, fun key hmem => Or.inl (htasks key hmem), fun _ => Or.inl⟩
    · cases h
  | setPassword passwordFp =>
    cases h
    exact ⟨fun _ => id, fun _ => Or.inl, fun _ => Or.inl⟩
  | rebindGet k passwordFp =>
    simp only [step] at h
    split at h <;> cases h
    · exact ⟨fun _ => id, fun key hmem => Or.inl (by simpa using hmem), fun _ => Or.inl⟩
    · exact ⟨fun _ => id, fun _ => Or.inl, fun _ => Or.inl⟩
  | rebindAct i now =>
    simp only [step] at h
    split at h
    · cases h
      exact ⟨fun _ => id, fun key hmem => Or.inl (deleting_of_finish (by simp) hmem),
        fun _ => Or.inl⟩
    · cases h
  | remove k =>
    cases h
    refine ⟨fun _ => List.mem_cons_of_mem _, fun key hmem => ?_, fun _ => Or.inl⟩
    rcases List.mem_append.1 hmem with hmem | hmem
    · exact Or.inl hmem
    · cases List.mem_singleton.1 hmem
      exact Or.inr List.mem_cons_self
  | forget k =>
    cases h
    exact ⟨fun _ => id, fun key hmem => Or.inl (by simpa using hmem), fun _ => Or.inl⟩
  | save i ok =>
    simp only [step] at h
    split at h
    · cases h
      exact ⟨fun _ => id, fun key hmem => Or.inl (deleting_of_finish (by simp) hmem),
        fun _ => Or.inl⟩
    · cases h
  | delete i ok =>
    simp only [step] at h
    split at h
    · rename_i k signOut ht
      cases h
      refine ⟨fun _ => id, fun key hmem => Or.inl (deleting_of_finish (by simp) hmem),
        fun key hmem => ?_⟩
      cases signOut with
      | false => exact Or.inl hmem
      | true =>
        rcases List.mem_cons.1 hmem with rfl | hmem
        · exact Or.inr ⟨i, ok, rfl, ht⟩
        · exact Or.inl hmem
    · cases h
  | restart now =>
    cases h
    exact ⟨fun _ => id, fun key hmem => (by cases hmem), fun _ => Or.inl⟩

/-- A sign-out that returns while nobody holds the session leaves it out. -/
theorem delete_out {i : ℕ} {ok : Bool} {key : Text}
    (ht : s.tasks[i]? = some (.deleting key true)) (hg : NobodyHolds s (.delete i ok))
    (hseen : key ∈ s.seen) (h : s.step (.delete i ok) = some s') : s'.Out key := by
  simp only [NobodyHolds, ht] at hg
  obtain ⟨rfl, hmap, htasks⟩ := hg
  simp only [step, ht, Option.some.injEq] at h
  subst h
  refine ⟨hmap, ?_, holds_finish htasks fun t ht => (by cases ht), hseen⟩
  show (s.store.erase key).lookup key = none
  rw [Table.lookup_erase_eq, if_pos rfl]

theorem step_inv (hg : NobodyHolds s a) (hs : s.Inv) (h : s.step a = some s') : s'.Inv := by
  obtain ⟨hseen, htasks, hout⟩ := step_books h
  constructor
  · intro key hkey
    rcases hout key hkey with hkey | ⟨i, ok, rfl, ht⟩
    · exact step_out (hs.out key hkey) h
    · exact delete_out ht hg (hs.seen key (List.mem_of_getElem? ht)) h
  · intro key hmem
    rcases htasks key hmem with hmem | hmem
    · exact hseen key (hs.seen key hmem)
    · exact hmem

end Panel

/-- **Signed out is signed out.**  In every run, restarts included, in which nobody holds
a session when its sign-out returns, no request that comes with its token afterwards is
let in, whatever the password. -/
theorem signed_out_stays_out {map store : Table Text Session} {password : Option Text}
    {seen : List Text} {as : List Action} {s : Panel}
    (hg : Guarded Panel.step NobodyHolds (Panel.start map store password seen) as)
    (h : exec Panel.step (Panel.start map store password seen) as = some s)
    {key : Text} (hkey : key ∈ s.signedOut) (now : ℤ) : s.authenticates key now = false := by
  have hstart : (Panel.start map store password seen).Inv :=
    ⟨fun key hkey => (by cases hkey), fun key hmem => (by cases hmem)⟩
  have hinv : s.Inv := inv_of_exec Panel.step (fun _ _ _ hg hs h => Panel.step_inv hg hs h) hstart hg h
  unfold Panel.authenticates
  rw [(hinv.out key hkey).map]
  cases s.password <;> rfl

namespace Example

def password : Text := ['p']
def key : Text := ['k']

/-- A session signed in at 0, in memory and in storage. -/
def session : Session := ⟨password, sessionTtl, 0, 0, [], []⟩

def panel : Panel :=
  .start ((∅ : Table Text Session).insert key session) ((∅ : Table Text Session).insert key session)
    (some password) [key]

/-- A request two days later takes its copy; the session is signed out, in memory and in
storage; then the request renews it. -/
def overtaken : List Action :=
  [.get key, .remove key, .delete 1 true, .act 0 172800]

/-- The renewal comes first, but is stored after the sign-out, and the box restarts. -/
def storedLate : List Action :=
  [.get key, .act 0 172800, .remove key, .delete 1 true, .save 0 true, .restart 172900]

/-- The renewal is stored before the session is signed out, and the box restarts. -/
def inOrder : List Action :=
  [.get key, .act 0 172800, .save 0 true, .remove key, .delete 0 true, .get key, .restart 172900]

end Example

/-- A request that took its copy before the sign-out brings the session back, and a
renewal stored after it does so at the next restart. -/
theorem signed_out_session_comes_back :
    (∃ s, exec Panel.step Example.panel Example.overtaken = some s ∧
      Example.key ∈ s.signedOut ∧ s.authenticates Example.key 172801 = true) ∧
    ∃ s, exec Panel.step Example.panel Example.storedLate = some s ∧
      Example.key ∈ s.signedOut ∧ s.authenticates Example.key 172901 = true := by
  refine ⟨⟨_, rfl, ?_, ?_⟩, ⟨_, rfl, ?_, ?_⟩⟩ <;> decide +kernel

/-- Renewed, stored, signed out, restarted: the session stays out. -/
theorem renewed_session_signed_out :
    ∃ s, exec Panel.step Example.panel Example.inOrder = some s ∧
      Example.key ∈ s.signedOut ∧ s.authenticates Example.key 172901 = false := by
  have hg : Guarded Panel.step NobodyHolds Example.panel Example.inOrder := by decide +kernel
  have hkey : (exec Panel.step Example.panel Example.inOrder).any
      (fun s => decide (Example.key ∈ s.signedOut)) = true := by decide +kernel
  obtain ⟨s, hs, hmem⟩ := (Option.any_eq_true _ _).1 hkey
  exact ⟨s, hs, of_decide_eq_true hmem, signed_out_stays_out hg hs (of_decide_eq_true hmem) 172901⟩

end Ferrite.Api
