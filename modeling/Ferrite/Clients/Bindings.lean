import Ferrite.Lib.Lts
import Ferrite.Lib.Table
import Ferrite.Core.Net

/-!
# The addresses of a device, in both directions

`clients/src/registry.rs` keeps which device holds an address (`ip_to_mac`) and, beside
it, which addresses a device holds (`mac_to_ips`).  Each map has locks of its own, so a
change of a binding is up to four steps that other tasks come between: the insert into
the first map, then in the second the `retain` and the `remove_if` of `forget_reverse`,
then the push.

A task is here the list of the steps it has still to take.  The results:

* `agrees_when_quiet` — over every interleaving in which each step on the second map
  still finds the first one as its task left it, or finds the task that will undo it,
  the two maps agree once no task has a step left;
* `late_step_lasts` — a step that finds neither leaves them disagreeing, until the
  address is bound again.
-/

namespace Ferrite.Clients

/-- What a task has still to do to `mac_to_ips`. -/
inductive Todo
  | forget (ip : IpAddr) (mac : Mac)
  | removeIfEmpty (mac : Mac)
  | push (ip : IpAddr) (mac : Mac)
deriving DecidableEq, Repr

/-- The two maps, and the steps each task has left. -/
structure Bindings where
  ipToMac : Table IpAddr Mac
  macToIps : Table Mac (List IpAddr)
  tasks : List (List Todo)

/-- A registry nobody has been bound in. -/
def Bindings.empty : Bindings := ⟨∅, ∅, []⟩

/-- One atomic step: a call of `bind_ip` or `unbind_ip` begins with its step on
`ip_to_mac`, and `advance` is the next step of a task. -/
inductive Act
  | bindIp (ip : IpAddr) (mac : Mac)
  | unbindIp (ip : IpAddr)
  | advance (task : ℕ)
deriving Repr

/-- What `bind_ip` has left after its insert, from the device that held the address. -/
def afterInsert (ip : IpAddr) (mac : Mac) : Option Mac → List Todo
  | some previous => if previous = mac then [] else [.forget ip previous, .push ip mac]
  | none => [.push ip mac]

/-- What `unbind_ip` has left after its remove. -/
def afterRemove (ip : IpAddr) : Option Mac → List Todo
  | some mac => [.forget ip mac]
  | none => []

/-- The addresses a table lists for a device. -/
def heldIn (t : Table Mac (List IpAddr)) (mac : Mac) : List IpAddr := (t.lookup mac).getD []

/-- A step on `mac_to_ips`, and what its task then has to do before the rest. -/
def runTodo (t : Table Mac (List IpAddr)) : Todo → Table Mac (List IpAddr) × List Todo
  | .forget ip mac =>
    match t.lookup mac with
    | some ips =>
      let kept := ips.filter (· ≠ ip)
      (t.insert mac kept, if kept = [] then [.removeIfEmpty mac] else [])
    | none => (t, [])
  | .removeIfEmpty mac => (if t.lookup mac = some [] then t.erase mac else t, [])
  | .push ip mac =>
    let ips := heldIn t mac
    (t.insert mac (if ip ∈ ips then ips else ips ++ [ip]), [])

def step (s : Bindings) : Act → Option Bindings
  | .bindIp ip mac =>
    some { s with
      ipToMac := s.ipToMac.insert ip mac
      tasks := s.tasks ++ [afterInsert ip mac (s.ipToMac.lookup ip)] }
  | .unbindIp ip =>
    some { s with
      ipToMac := s.ipToMac.erase ip
      tasks := s.tasks ++ [afterRemove ip (s.ipToMac.lookup ip)] }
  | .advance i =>
    match s.tasks[i]? with
    | some (todo :: rest) =>
      let (t, more) := runTodo s.macToIps todo
      some { s with macToIps := t, tasks := s.tasks.set i (more ++ rest) }
    | _ => none

namespace Bindings

/-- Some task has this step left. -/
def Pending (s : Bindings) (todo : Todo) : Prop := ∃ task ∈ s.tasks, todo ∈ task

instance (s : Bindings) (todo : Todo) : Decidable (s.Pending todo) :=
  inferInstanceAs (Decidable (∃ task ∈ s.tasks, todo ∈ task))

/-- No step is in flight. -/
def Quiet (s : Bindings) : Prop := ∀ task ∈ s.tasks, task = []

instance (s : Bindings) : Decidable s.Quiet :=
  inferInstanceAs (Decidable (∀ task ∈ s.tasks, task = []))

/-- **The index**: the second map lists for each device exactly the addresses the first
gives it, each once, and no device has an empty list. -/
structure Agrees (s : Bindings) : Prop where
  listed_iff : ∀ ip mac, ip ∈ heldIn s.macToIps mac ↔ s.ipToMac.lookup ip = some mac
  nodup : ∀ mac, (heldIn s.macToIps mac).Nodup
  nonempty : ∀ mac, s.macToIps.lookup mac ≠ some []

end Bindings

/-- A step on the second map comes in time: a push finds the address still bound to the
device, or a removal of it to come; a removal finds the address bound elsewhere, or a
push of it to come. -/
def InTime (s : Bindings) : Act → Prop
  | .advance i =>
    match s.tasks[i]? with
    | some (.push ip mac :: _) => s.ipToMac.lookup ip = some mac ∨ s.Pending (.forget ip mac)
    | some (.forget ip mac :: _) => s.ipToMac.lookup ip ≠ some mac ∨ s.Pending (.push ip mac)
    | _ => True
  | _ => True

instance (s : Bindings) (a : Act) : Decidable (InTime s a) := by
  unfold InTime
  split <;> (try split) <;> infer_instance

/-! ## What a step on the second map does -/

theorem heldIn_insert (t : Table Mac (List IpAddr)) (mac m : Mac) (ips : List IpAddr) :
    heldIn (t.insert mac ips) m = if m = mac then ips else heldIn t m := by
  unfold heldIn
  rw [Table.lookup_insert_eq]
  split <;> rfl

theorem heldIn_forget (t : Table Mac (List IpAddr)) (ip : IpAddr) (mac m : Mac) :
    heldIn (runTodo t (.forget ip mac)).1 m =
      if m = mac then (heldIn t m).filter (· ≠ ip) else heldIn t m := by
  unfold runTodo
  cases hlookup : t.lookup mac with
  | some ips =>
    simp only [hlookup]
    rw [heldIn_insert]
    by_cases hm : m = mac
    · subst hm
      simp [heldIn, hlookup]
    · simp [hm]
  | none =>
    simp only [hlookup]
    by_cases hm : m = mac
    · subst hm
      simp [heldIn, hlookup]
    · simp [hm]

theorem heldIn_removeIfEmpty (t : Table Mac (List IpAddr)) (mac m : Mac) :
    heldIn (runTodo t (.removeIfEmpty mac)).1 m = heldIn t m := by
  unfold runTodo heldIn
  simp only
  split
  · rename_i hempty
    rw [Table.lookup_erase_eq]
    by_cases hm : m = mac
    · subst hm
      simp [hempty]
    · rw [if_neg hm]
  · rfl

theorem heldIn_push (t : Table Mac (List IpAddr)) (ip : IpAddr) (mac m : Mac) :
    heldIn (runTodo t (.push ip mac)).1 m =
      if m = mac then (if ip ∈ heldIn t m then heldIn t m else heldIn t m ++ [ip])
      else heldIn t m := by
  unfold runTodo
  simp only
  rw [heldIn_insert]
  by_cases hm : m = mac
  · subst hm
    rfl
  · simp [hm]

theorem mem_forget_iff {t : Table Mac (List IpAddr)} {ip ip' : IpAddr} {mac m : Mac} :
    ip' ∈ heldIn (runTodo t (.forget ip mac)).1 m ↔ ip' ∈ heldIn t m ∧ ¬ (ip' = ip ∧ m = mac) := by
  rw [heldIn_forget]
  by_cases hm : m = mac
  · simp [hm]
  · simp [hm]

theorem mem_push_iff {t : Table Mac (List IpAddr)} {ip ip' : IpAddr} {mac m : Mac} :
    ip' ∈ heldIn (runTodo t (.push ip mac)).1 m ↔ ip' ∈ heldIn t m ∨ (ip' = ip ∧ m = mac) := by
  rw [heldIn_push]
  by_cases hm : m = mac
  · rw [if_pos hm]
    split
    · rename_i hmem
      simp only [hm, and_true]
      exact ⟨Or.inl, fun h => h.elim id fun h => h ▸ hm ▸ hmem⟩
    · simp [hm]
  · simp [hm]

theorem nodup_runTodo {t : Table Mac (List IpAddr)} (h : ∀ mac, (heldIn t mac).Nodup)
    (todo : Todo) (m : Mac) : (heldIn (runTodo t todo).1 m).Nodup := by
  cases todo with
  | forget ip mac =>
    rw [heldIn_forget]
    split
    · exact (h m).filter _
    · exact h m
  | removeIfEmpty mac =>
    rw [heldIn_removeIfEmpty]
    exact h m
  | push ip mac =>
    rw [heldIn_push]
    split
    · split
      · exact h m
      · rename_i hnew
        exact List.nodup_append_comm.1 (List.nodup_cons.2 ⟨hnew, h m⟩)
    · exact h m

/-- An empty list is one that was there before, or one the task then removes. -/
theorem lookup_eq_nil_runTodo {t : Table Mac (List IpAddr)} {todo : Todo} {m : Mac}
    (h : (runTodo t todo).1.lookup m = some []) :
    .removeIfEmpty m ∈ (runTodo t todo).2 ∨ (t.lookup m = some [] ∧ todo ≠ .removeIfEmpty m) := by
  cases todo with
  | forget ip mac =>
    unfold runTodo at h ⊢
    cases hlookup : t.lookup mac with
    | some ips =>
      simp only [hlookup, Table.lookup_insert_eq] at h ⊢
      by_cases hm : m = mac
      · subst hm
        rw [if_pos rfl] at h
        left
        rw [if_pos (Option.some.inj h)]
        exact List.mem_singleton_self _
      · rw [if_neg hm] at h
        exact Or.inr ⟨h, nofun⟩
    | none =>
      simp only [hlookup] at h ⊢
      exact Or.inr ⟨h, nofun⟩
  | removeIfEmpty mac =>
    right
    simp only [runTodo] at h
    split at h
    · rename_i hempty
      rw [Table.lookup_erase_eq] at h
      by_cases hm : m = mac
      · simp [hm] at h
      · rw [if_neg hm] at h
        exact ⟨h, fun heq => hm (Todo.removeIfEmpty.inj heq).symm⟩
    · rename_i hkept
      refine ⟨h, fun heq => hkept ?_⟩
      cases heq
      exact h
  | push ip mac =>
    right
    simp only [runTodo, Table.lookup_insert_eq] at h
    by_cases hm : m = mac
    · rw [if_pos hm] at h
      split at h
      · rename_i hmem
        rw [Option.some.inj h] at hmem
        cases hmem
      · simp at h
    · rw [if_neg hm] at h
      exact ⟨h, nofun⟩

/-! ## What is left to do -/

variable {s s' : Bindings}

/-- What taking a step of task `i` is. -/
theorem step_advance {i : ℕ} (h : step s (.advance i) = some s') :
    ∃ todo rest, s.tasks[i]? = some (todo :: rest) ∧
      s' = { s with
        macToIps := (runTodo s.macToIps todo).1
        tasks := s.tasks.set i ((runTodo s.macToIps todo).2 ++ rest) } := by
  simp only [step] at h
  split at h
  · rename_i todo rest htask
    exact ⟨todo, rest, htask, (Option.some.inj h).symm⟩
  · cases h

/-- A step left is the one taken now, or still left afterwards. -/
theorem pending_set {i : ℕ} {todo x : Todo} {rest more : List Todo}
    {t : Table Mac (List IpAddr)} (htask : s.tasks[i]? = some (todo :: rest)) (h : s.Pending x) :
    x = todo ∨ Bindings.Pending ⟨s.ipToMac, t, s.tasks.set i (more ++ rest)⟩ x := by
  obtain ⟨hi, htask⟩ := List.getElem?_eq_some_iff.1 htask
  obtain ⟨task, hmem, hx⟩ := h
  obtain ⟨j, hj, rfl⟩ := List.mem_iff_getElem.1 hmem
  by_cases hij : j = i
  · subst hij
    rw [htask] at hx
    rcases List.mem_cons.1 hx with hx | hx
    · exact Or.inl hx
    · exact Or.inr ⟨_, List.mem_set hi _, List.mem_append_right _ hx⟩
  · right
    refine ⟨s.tasks[j], ?_, hx⟩
    exact List.mem_iff_getElem.2
      ⟨j, by rw [List.length_set]; exact hj, List.getElem_set_of_ne (Ne.symm hij) _ _⟩

theorem pending_of_set {i : ℕ} {todo x : Todo} {rest more : List Todo}
    {t : Table Mac (List IpAddr)} (htask : s.tasks[i]? = some (todo :: rest))
    (h : Bindings.Pending ⟨s.ipToMac, t, s.tasks.set i (more ++ rest)⟩ x) :
    x ∈ more ∨ s.Pending x := by
  obtain ⟨task, hmem, hx⟩ := h
  rcases List.mem_or_eq_of_mem_set hmem with hmem | rfl
  · exact Or.inr ⟨task, hmem, hx⟩
  · rcases List.mem_append.1 hx with hx | hx
    · exact Or.inl hx
    · exact Or.inr ⟨_, List.mem_of_getElem? htask, List.mem_cons_of_mem _ hx⟩

theorem pending_append {x : Todo} {t : Table IpAddr Mac} {u : Table Mac (List IpAddr)}
    {task : List Todo} :
    Bindings.Pending ⟨t, u, s.tasks ++ [task]⟩ x ↔ s.Pending x ∨ x ∈ task := by
  simp [Bindings.Pending, or_and_right, exists_or]

/-! ## The invariant -/

/-- What holds at every moment: where the maps differ, a task has the step left that
will settle it. -/
structure Settling (s : Bindings) : Prop where
  bound : ∀ ip mac, ip ∈ heldIn s.macToIps mac →
    s.ipToMac.lookup ip = some mac ∨ s.Pending (.forget ip mac)
  listed : ∀ ip mac, s.ipToMac.lookup ip = some mac →
    ip ∈ heldIn s.macToIps mac ∨ s.Pending (.push ip mac)
  nodup : ∀ mac, (heldIn s.macToIps mac).Nodup
  swept : ∀ mac, s.macToIps.lookup mac = some [] → s.Pending (.removeIfEmpty mac)

theorem settling_empty : Settling .empty where
  bound ip mac h := by cases h
  listed ip mac h := by cases h
  nodup mac := List.nodup_nil
  swept mac h := by cases h

/-- A call that changes who holds `ip`, and leaves the steps that follow from it. -/
theorem settling_rebind (h : Settling s) {ip : IpAddr} {t : Table IpAddr Mac} {task : List Todo}
    (hother : ∀ ip', ip' ≠ ip → t.lookup ip' = s.ipToMac.lookup ip')
    (hforget : ∀ mac, s.ipToMac.lookup ip = some mac →
      t.lookup ip = some mac ∨ .forget ip mac ∈ task)
    (hpush : ∀ mac, t.lookup ip = some mac →
      s.ipToMac.lookup ip = some mac ∨ .push ip mac ∈ task) :
    Settling ⟨t, s.macToIps, s.tasks ++ [task]⟩ where
  bound ip' mac hmem := by
    rw [pending_append]
    rcases h.bound ip' mac hmem with hold | hpending
    · by_cases hip : ip' = ip
      · subst hip
        exact (hforget mac hold).imp id Or.inr
      · exact Or.inl ((hother ip' hip).trans hold)
    · exact Or.inr (Or.inl hpending)
  listed ip' mac hnew := by
    rw [pending_append]
    by_cases hip : ip' = ip
    · subst hip
      rcases hpush mac hnew with hold | hmem
      · exact (h.listed ip' mac hold).imp id Or.inl
      · exact Or.inr (Or.inr hmem)
    · rw [hother ip' hip] at hnew
      exact (h.listed ip' mac hnew).imp id Or.inl
  nodup := h.nodup
  swept mac hempty := pending_append.2 (Or.inl (h.swept mac hempty))

theorem settling_bindIp (h : Settling s) (ip : IpAddr) (mac : Mac) :
    Settling ⟨s.ipToMac.insert ip mac, s.macToIps,
      s.tasks ++ [afterInsert ip mac (s.ipToMac.lookup ip)]⟩ := by
  refine @settling_rebind s h ip _ _ ?_ ?_ ?_
  · intro ip' hip
    rw [Table.lookup_insert_eq, if_neg hip]
  · intro previous hprevious
    rw [Table.lookup_insert_eq, if_pos rfl, hprevious]
    by_cases heq : previous = mac
    · exact Or.inl (by rw [heq])
    · simp [afterInsert, heq]
  · intro mac' hmac
    rw [Table.lookup_insert_eq, if_pos rfl] at hmac
    cases hmac
    cases hprevious : s.ipToMac.lookup ip with
    | none => simp [afterInsert]
    | some previous =>
      by_cases heq : previous = mac
      · exact Or.inl (by rw [heq])
      · simp [afterInsert, heq]

theorem settling_unbindIp (h : Settling s) (ip : IpAddr) :
    Settling ⟨s.ipToMac.erase ip, s.macToIps,
      s.tasks ++ [afterRemove ip (s.ipToMac.lookup ip)]⟩ := by
  refine @settling_rebind s h ip _ _ ?_ ?_ ?_
  · intro ip' hip
    rw [Table.lookup_erase_eq, if_neg hip]
  · intro mac hmac
    simp [hmac, afterRemove]
  · intro mac hmac
    rw [Table.lookup_erase_eq, if_pos rfl] at hmac
    cases hmac

theorem settling_advance (h : Settling s) {i : ℕ} (htime : InTime s (.advance i))
    (hstep : step s (.advance i) = some s') : Settling s' := by
  obtain ⟨todo, rest, htask, rfl⟩ := step_advance hstep
  have hkeep {x : Todo} (hx : s.Pending x) (hne : x ≠ todo) :=
    (@pending_set s i todo x rest (runTodo s.macToIps todo).2
      (runTodo s.macToIps todo).1 htask hx).resolve_left hne
  have hswept (mac : Mac) (hempty : (runTodo s.macToIps todo).1.lookup mac = some []) :
      Bindings.Pending ⟨s.ipToMac, (runTodo s.macToIps todo).1,
        s.tasks.set i ((runTodo s.macToIps todo).2 ++ rest)⟩ (.removeIfEmpty mac) := by
    rcases lookup_eq_nil_runTodo hempty with hmore | ⟨hold, hne⟩
    · obtain ⟨hi, -⟩ := List.getElem?_eq_some_iff.1 htask
      exact ⟨_, List.mem_set hi _, List.mem_append_left _ hmore⟩
    · exact hkeep (h.swept mac hold) (Ne.symm hne)
  refine ⟨?_, ?_, nodup_runTodo h.nodup todo, hswept⟩
  · intro ip' mac' hmem
    cases todo with
    | forget ip mac =>
      obtain ⟨hold, hother⟩ := mem_forget_iff.1 hmem
      refine (h.bound ip' mac' hold).imp id fun hpending => hkeep hpending ?_
      rintro heq
      cases heq
      exact hother ⟨rfl, rfl⟩
    | removeIfEmpty mac =>
      rw [heldIn_removeIfEmpty] at hmem
      exact (h.bound ip' mac' hmem).imp id fun hpending => hkeep hpending nofun
    | push ip mac =>
      simp only [InTime, htask] at htime
      rcases mem_push_iff.1 hmem with hold | ⟨rfl, rfl⟩
      · exact (h.bound ip' mac' hold).imp id fun hpending => hkeep hpending nofun
      · exact htime.imp id fun hpending => hkeep hpending nofun
  · intro ip' mac' hbound
    cases todo with
    | forget ip mac =>
      simp only [InTime, htask] at htime
      rw [mem_forget_iff]
      by_cases hthis : ip' = ip ∧ mac' = mac
      · obtain ⟨rfl, rfl⟩ := hthis
        exact Or.inr (hkeep (htime.resolve_left (not_not_intro hbound)) nofun)
      · exact (h.listed ip' mac' hbound).imp (fun hmem => ⟨hmem, hthis⟩)
          fun hpending => hkeep hpending nofun
    | removeIfEmpty mac =>
      rw [heldIn_removeIfEmpty]
      exact (h.listed ip' mac' hbound).imp id fun hpending => hkeep hpending nofun
    | push ip mac =>
      rw [mem_push_iff]
      by_cases hthis : ip' = ip ∧ mac' = mac
      · exact Or.inl (Or.inr hthis)
      · refine (h.listed ip' mac' hbound).imp Or.inl fun hpending => hkeep hpending ?_
        rintro heq
        cases heq
        exact hthis ⟨rfl, rfl⟩

theorem settling_step {a : Act} (htime : InTime s a) (h : Settling s)
    (hstep : step s a = some s') : Settling s' := by
  cases a with
  | bindIp ip mac =>
    cases hstep
    exact settling_bindIp h ip mac
  | unbindIp ip =>
    cases hstep
    exact settling_unbindIp h ip
  | advance i => exact settling_advance h htime hstep

theorem not_pending_of_quiet (h : s.Quiet) (todo : Todo) : ¬ s.Pending todo := by
  rintro ⟨task, hmem, hx⟩
  rw [h task hmem] at hx
  cases hx

theorem agrees_of_settling (h : Settling s) (hquiet : s.Quiet) : s.Agrees where
  listed_iff ip mac :=
    ⟨fun hmem => (h.bound ip mac hmem).resolve_right (not_pending_of_quiet hquiet _),
      fun hbound => (h.listed ip mac hbound).resolve_right (not_pending_of_quiet hquiet _)⟩
  nodup := h.nodup
  nonempty mac hempty := not_pending_of_quiet hquiet _ (h.swept mac hempty)

/-- Over every interleaving of any number of calls whose steps on the second map all
come in time: whenever no step is in flight, the two maps agree. -/
theorem agrees_when_quiet (acts : List Act) (hrun : Lts.exec step .empty acts = some s)
    (htime : Lts.Guarded step InTime .empty acts) (hquiet : s.Quiet) : s.Agrees :=
  agrees_of_settling
    (Lts.inv_of_exec step (fun _ _ _ ht h hs => settling_step ht h hs) settling_empty htime hrun)
    hquiet

/-- An address and two devices. -/
def desk : IpAddr := .v4 ⟨192, 168, 1, 10⟩
def laptop : Mac := #v[0xaa, 0xbb, 0xcc, 0x11, 0x22, 0x33]
def phone : Mac := #v[0xaa, 0xbb, 0xcc, 0x44, 0x55, 0x66]

/-- Two tasks bind the address to two devices; the first takes its push before the
second takes its own steps. -/
def inOrder : List Act :=
  [.bindIp desk laptop, .bindIp desk phone, .advance 0, .advance 1, .advance 1, .advance 1]

/-- The same two tasks, but the first takes its push last. -/
def latePush : List Act :=
  [.bindIp desk laptop, .bindIp desk phone, .advance 1, .advance 1, .advance 0]

theorem agrees_inOrder :
    ∃ s, Lts.exec step .empty inOrder = some s ∧ Lts.Guarded step InTime .empty inOrder ∧
      s.Quiet ∧ s.Agrees := by
  obtain ⟨s, hs⟩ : ∃ s, Lts.exec step .empty inOrder = some s := ⟨_, rfl⟩
  have htime : Lts.Guarded step InTime .empty inOrder := by decide
  have hquiet : s.Quiet := by
    cases hs
    decide
  exact ⟨s, hs, htime, hquiet, agrees_when_quiet inOrder hs htime hquiet⟩

/-- With the late push both devices list the address, and it is bound to the second. -/
theorem late_push_disagrees :
    ∃ acts s, Lts.exec step .empty acts = some s ∧ s.Quiet ∧
      desk ∈ heldIn s.macToIps laptop ∧ s.ipToMac.lookup desk = some phone ∧ ¬ s.Agrees := by
  obtain ⟨s, hs⟩ : ∃ s, Lts.exec step .empty latePush = some s := ⟨_, rfl⟩
  have hlisted : desk ∈ heldIn s.macToIps laptop := by
    cases hs
    decide
  have hbound : s.ipToMac.lookup desk = some phone := by
    cases hs
    decide
  refine ⟨latePush, s, hs, ?_, hlisted, hbound, ?_⟩
  · cases hs
    decide
  · intro h
    have := (h.listed_iff desk laptop).1 hlisted
    rw [hbound] at this
    exact absurd this (by decide)

/-! ## A step that comes late -/

/-- A step takes no binding away and leaves no removal or push that was not left. -/
theorem pending_of_advance {i : ℕ} (hstep : step s (.advance i) = some s') :
    s'.ipToMac = s.ipToMac ∧
      (∀ ip mac, s'.Pending (.forget ip mac) → s.Pending (.forget ip mac)) ∧
      ∀ ip mac, s'.Pending (.push ip mac) → s.Pending (.push ip mac) := by
  obtain ⟨todo, rest, htask, rfl⟩ := step_advance hstep
  have hmore : ∀ x ∈ (runTodo s.macToIps todo).2, ∃ mac, x = .removeIfEmpty mac := by
    intro x hx
    unfold runTodo at hx
    split at hx
    · split at hx
      · simp only at hx
        split at hx
        · exact ⟨_, List.mem_singleton.1 hx⟩
        · cases hx
      · cases hx
    · cases hx
    · cases hx
  refine ⟨rfl, fun ip mac h => ?_, fun ip mac h => ?_⟩
  · refine (pending_of_set htask h).resolve_left fun hx => ?_
    obtain ⟨_, heq⟩ := hmore _ hx
    cases heq
  · refine (pending_of_set htask h).resolve_left fun hx => ?_
    obtain ⟨_, heq⟩ := hmore _ hx
    cases heq

/-- Listed where it is not bound with no removal to come, or bound where it is not
listed with no push to come. -/
def Stranded (s : Bindings) (ip : IpAddr) (mac : Mac) : Prop :=
  (ip ∈ heldIn s.macToIps mac ∧ s.ipToMac.lookup ip ≠ some mac ∧ ¬ s.Pending (.forget ip mac)) ∨
    (ip ∉ heldIn s.macToIps mac ∧ s.ipToMac.lookup ip = some mac ∧ ¬ s.Pending (.push ip mac))

theorem stranded_advance {ip : IpAddr} {mac : Mac} {i : ℕ} (h : Stranded s ip mac)
    (hstep : step s (.advance i) = some s') : Stranded s' ip mac := by
  obtain ⟨hsame, hforget, hpush⟩ := pending_of_advance hstep
  obtain ⟨todo, rest, htask, rfl⟩ := step_advance hstep
  have hpending : s.Pending todo := ⟨_, List.mem_of_getElem? htask, List.mem_cons_self⟩
  rcases h with ⟨hmem, hbound, hnone⟩ | ⟨hmem, hbound, hnone⟩
  · refine Or.inl ⟨?_, hbound, fun h => hnone (hforget ip mac h)⟩
    cases todo with
    | forget ip' mac' =>
      refine mem_forget_iff.2 ⟨hmem, ?_⟩
      rintro ⟨rfl, rfl⟩
      exact hnone hpending
    | removeIfEmpty mac' =>
      show ip ∈ heldIn (runTodo _ _).1 mac
      rw [heldIn_removeIfEmpty]
      exact hmem
    | push ip' mac' => exact mem_push_iff.2 (Or.inl hmem)
  · refine Or.inr ⟨?_, hbound, fun h => hnone (hpush ip mac h)⟩
    cases todo with
    | forget ip' mac' => exact fun h => hmem (mem_forget_iff.1 h).1
    | removeIfEmpty mac' =>
      show ip ∉ heldIn (runTodo _ _).1 mac
      rw [heldIn_removeIfEmpty]
      exact hmem
    | push ip' mac' =>
      intro h
      rcases mem_push_iff.1 h with h | ⟨rfl, rfl⟩
      · exact hmem h
      · exact hnone hpending

theorem stranded_of_late {i : ℕ} (hlate : ¬ InTime s (.advance i))
    (hstep : step s (.advance i) = some s') : ∃ ip mac, Stranded s' ip mac := by
  obtain ⟨-, hforget, hpush⟩ := pending_of_advance hstep
  obtain ⟨todo, rest, htask, rfl⟩ := step_advance hstep
  cases todo with
  | forget ip mac =>
    simp only [InTime, htask, not_or, not_not] at hlate
    refine ⟨ip, mac, Or.inr ⟨?_, hlate.1, fun h => hlate.2 (hpush ip mac h)⟩⟩
    exact fun h => (mem_forget_iff.1 h).2 ⟨rfl, rfl⟩
  | removeIfEmpty mac => simp [InTime, htask] at hlate
  | push ip mac =>
    simp only [InTime, htask, not_or] at hlate
    refine ⟨ip, mac, Or.inl ⟨?_, hlate.1, fun h => hlate.2 (hforget ip mac h)⟩⟩
    exact mem_push_iff.2 (Or.inr ⟨rfl, rfl⟩)

theorem not_agrees_of_stranded {ip : IpAddr} {mac : Mac} (h : Stranded s ip mac) : ¬ s.Agrees := by
  intro hagrees
  rcases h with ⟨hmem, hbound, -⟩ | ⟨hmem, hbound, -⟩
  · exact hbound ((hagrees.listed_iff ip mac).1 hmem)
  · exact hmem ((hagrees.listed_iff ip mac).2 hbound)

/-- One step that comes late, and the maps disagree however the tasks under way then
finish. -/
theorem late_step_lasts {s₁ : Bindings} {i : ℕ} {rest : List ℕ}
    (hlate : ¬ InTime s (.advance i)) (hstep : step s (.advance i) = some s₁)
    (hrest : Lts.exec step s₁ (rest.map .advance) = some s') : ¬ s'.Agrees := by
  obtain ⟨ip, mac, h⟩ := stranded_of_late hlate hstep
  have hlasts : Stranded s' ip mac := by
    clear hstep hlate
    induction rest generalizing s₁ with
    | nil =>
      cases hrest
      exact h
    | cons j rest ih =>
      obtain ⟨s₂, hs₂, hrest⟩ := (Lts.exec_cons_eq_some step).1 hrest
      exact ih hrest (stranded_advance h hs₂)
  exact not_agrees_of_stranded hlasts

end Ferrite.Clients
