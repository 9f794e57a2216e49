import Ferrite.Lib.Lts
import Ferrite.Core.Addr
import Ferrite.Storage.Sqlite

/-!
# Devices never seen before

`clients/src/registry.rs`: a MAC that is noted and not in `first_seen` is put there, written to
the storage while recording is on, and then announced unless the first scan after startup is
still to come.  The three steps are apart, any number of `note_mac` calls are on their way at
once, and the box may go down and start again between any two steps, when `first_seen` is read
back from the database.  (The memory backend forgets every device in a restart.)

* `Known` — what a step has to leave alone for a MAC to stay known;
* `announced_once_step` — one step; `new_device_announced_once` — over a run, restarts
  included, in which the MAC stays known, it is announced at most once;
* `baseline_is_quiet` — until the first scan has been through, nothing is announced.
-/

namespace Ferrite.Clients

open Lts Storage

/-- A MAC as the storage and the events spell it. -/
def macText (mac : Mac) : Text := (formatMac mac).toList

/-- `NewDevice`. -/
structure NewDevice where
  mac : Text
  ip : IpAddr
  firstSeen : ℤ
deriving DecidableEq

/-- A `note_mac` call that found its MAC new; `recorded` when the write to the storage is behind
it. -/
structure Noting where
  mac : Mac
  ip : IpAddr
  firstSeen : ℤ
  recorded : Bool
deriving DecidableEq

/-- The database, which is what a restart leaves, the switches, what of the registry first sightings need, and what was
announced. -/
structure Household where
  storage : Sqlite.Db
  recordsAnything : Bool
  firstSeen : Table Mac ℤ
  baseline : Bool
  noting : List Noting
  announced : List NewDevice

/-- A row of `load_devices` in the registry. -/
def restoreDevice (t : Table Mac ℤ) (device : StoredDevice) : Table Mac ℤ :=
  match parseMac (String.ofList device.mac) with
  | some mac => t.insert mac device.firstSeen
  | none => t

/-- A row of `load_ip_bindings`: bound before devices kept a first sighting, so known. -/
def restoreBinding (t : Table Mac ℤ) (binding : Text × Text) : Table Mac ℤ :=
  match parseIp binding.1, parseMac (String.ofList binding.2) with
  | some _, some mac => if (t.lookup mac).isSome then t else t.insert mac 0
  | _, _ => t

/-- `new`, as far as first sightings go; each of the two reads may fail. -/
def restore (storage : Sqlite.Db) (records devicesLoad bindingsLoad : Bool) : Table Mac ℤ :=
  if !records then ∅
  else
    let t := if devicesLoad then (Sqlite.loadDevices storage).foldl restoreDevice ∅ else ∅
    if bindingsLoad then (Sqlite.loadIpBindings storage).foldl restoreBinding t else t

/-- A box that has never run. -/
def Household.fresh (storage : Sqlite.Db) (records : Bool) : Household where
  storage := { storage with devices := ∅, ipBindings := ∅ }
  recordsAnything := records
  firstSeen := ∅
  baseline := true
  noting := []
  announced := []

/-- One step of a call, of the scan or of the box. -/
inductive DeviceStep where
  /-- `note_mac`, up to its entry in `first_seen`. -/
  | note (ip : IpAddr) (mac : Mac) (now : ℤ)
  /-- Its write to the storage, by the storage's clock; it may fail. -/
  | record (i : ℕ) (now : ℤ) (ok : Bool)
  /-- The rest of it. -/
  | announce (i : ℕ)
  /-- `persist_device` and `persist_binding`. -/
  | persistDevice (mac : Mac) (name : Text) (now : ℤ)
  | persistBinding (ip : Text) (mac : Mac) (now : ℤ)
  /-- The end of `refresh_neighbor_table`. -/
  | scanDone
  | setRecording (records : Bool)
  /-- The steps of `forget_learned_devices`. -/
  | deleteStored
  | clearFirstSeen
  | startBaseline
  | restart (devicesLoad bindingsLoad : Bool)

namespace Household

def step (s : Household) : DeviceStep → Option Household
  | .note ip mac now =>
    if (s.firstSeen.lookup mac).isSome then some s
    else
      some { s with
        firstSeen := s.firstSeen.insert mac now
        noting := s.noting ++ [⟨mac, ip, now, false⟩] }
  | .record i now ok =>
    match s.noting[i]? with
    | some call =>
      if call.recorded then none
      else
        some { s with
          storage := if s.recordsAnything && ok then
            Sqlite.upsertDevice s.storage now (macText call.mac) none else s.storage
          noting := s.noting.set i { call with recorded := true } }
    | none => none
  | .announce i =>
    match s.noting[i]? with
    | some call =>
      if !call.recorded then none
      else if s.baseline then some { s with noting := s.noting.eraseIdx i }
      else
        some { s with
          noting := s.noting.eraseIdx i
          announced := s.announced ++ [⟨macText call.mac, call.ip, call.firstSeen⟩] }
    | none => none
  | .persistDevice mac name now =>
    some { s with
      storage := if s.recordsAnything then
        Sqlite.upsertDevice s.storage now (macText mac) (some name) else s.storage }
  | .persistBinding ip mac now =>
    some { s with
      storage := if s.recordsAnything then
        Sqlite.upsertIpBinding s.storage now ip (macText mac) else s.storage }
  | .scanDone => some { s with baseline := false }
  | .setRecording records => some { s with recordsAnything := records }
  | .deleteStored =>
    some { s with storage := Sqlite.deleteAllDevices (Sqlite.deleteAllIpBindings s.storage) }
  | .clearFirstSeen => some { s with firstSeen := ∅ }
  | .startBaseline => some { s with baseline := true }
  | .restart devicesLoad bindingsLoad =>
    some { s with
      firstSeen := restore s.storage s.recordsAnything devicesLoad bindingsLoad
      baseline := true
      noting := [] }

end Household

/-! ## One step -/

section

variable {s s' : Household}

/-- A sighting of a MAC that is known changes nothing. -/
theorem step_note {ip : IpAddr} {mac : Mac} {now : ℤ} (h : s.step (.note ip mac now) = some s') :
    s' = s ∨ s.firstSeen.lookup mac = none ∧ s' = { s with
      firstSeen := s.firstSeen.insert mac now
      noting := s.noting ++ [⟨mac, ip, now, false⟩] } := by
  simp only [Household.step] at h
  split at h
  · exact Or.inl (Option.some.inj h).symm
  · rename_i hnew
    exact Or.inr ⟨Option.not_isSome_iff_eq_none.1 hnew, (Option.some.inj h).symm⟩

theorem step_record {i : ℕ} {now : ℤ} {ok : Bool} (h : s.step (.record i now ok) = some s') :
    ∃ call, s.noting[i]? = some call ∧ s' = { s with
      storage := if s.recordsAnything && ok then
        Sqlite.upsertDevice s.storage now (macText call.mac) none else s.storage
      noting := s.noting.set i { call with recorded := true } } := by
  simp only [Household.step] at h
  split at h
  · rename_i call hcall
    split at h
    · cases h
    · exact ⟨call, hcall, (Option.some.inj h).symm⟩
  · cases h

/-- A call that ends announces its device unless the first scan is still to come. -/
theorem step_announce {i : ℕ} (h : s.step (.announce i) = some s') :
    ∃ call told, s.noting[i]? = some call ∧ call.recorded = true ∧
      (told = [] ∨ s.baseline = false ∧ told = [⟨macText call.mac, call.ip, call.firstSeen⟩]) ∧
      s' = { s with noting := s.noting.eraseIdx i, announced := s.announced ++ told } := by
  simp only [Household.step] at h
  split at h
  · rename_i call hcall
    split at h
    · cases h
    · rename_i hrec
      simp only [Bool.not_eq_true, Bool.not_eq_false'] at hrec
      split at h
      · cases h
        exact ⟨call, [], hcall, hrec, Or.inl rfl, by rw [List.append_nil]⟩
      · rename_i hbase
        cases h
        exact ⟨call, _, hcall, hrec, Or.inr ⟨Bool.not_eq_true _ ▸ hbase, rfl⟩, rfl⟩
  · cases h

end

/-! ## What stays known -/

/-- The step does not make the box forget the MAC: nothing is deleted, the MAC's own first
sighting is written, and a restart reads it back. -/
def Known (mac : Mac) (s : Household) : DeviceStep → Prop
  | .record i _ ok => ∀ call, s.noting[i]? = some call → call.mac = mac →
      s.recordsAnything = true ∧ ok = true
  | .deleteStored => False
  | .clearFirstSeen => False
  | .restart devicesLoad _ => s.recordsAnything = true ∧ devicesLoad = true
  | _ => True

/-- There is a row for the MAC. -/
def Stored (s : Household) (mac : Mac) : Prop := (s.storage.devices.lookup (macText mac)).isSome

theorem macText_injective {m m' : Mac} (h : macText m = macText m') : m = m' := by
  have hread := parseMac_formatMac m
  rw [String.toList_inj.1 h, parseMac_formatMac] at hread
  exact (Option.some.inj hread).symm

theorem lookup_upsertDevice (storage : Sqlite.Db) (now : ℤ) (mac : Text) (name : Option Text)
    (m : Text) : ((Sqlite.upsertDevice storage now mac name).devices.lookup m).isSome =
      (decide (m = mac) || (storage.devices.lookup m).isSome) := by
  rw [Sqlite.upsertDevice, Rows.lookup_upsert]
  by_cases h : m = mac <;> simp [h]

/-- Rows only add to what is known. -/
theorem isSome_restoreDevice {t : Table Mac ℤ} {mac : Mac} (device : StoredDevice)
    (h : (t.lookup mac).isSome) : ((restoreDevice t device).lookup mac).isSome := by
  unfold restoreDevice
  cases parseMac (String.ofList device.mac) with
  | none => exact h
  | some m =>
    rw [Table.lookup_insert_eq]
    split
    · rfl
    · exact h

theorem isSome_restoreBinding {t : Table Mac ℤ} {mac : Mac} (binding : Text × Text)
    (h : (t.lookup mac).isSome) : ((restoreBinding t binding).lookup mac).isSome := by
  unfold restoreBinding
  split
  · split
    · exact h
    · rw [Table.lookup_insert_eq]
      split
      · rfl
      · exact h
  · exact h

theorem isSome_foldl {A : Type} {f : Table Mac ℤ → A → Table Mac ℤ} {mac : Mac}
    (hf : ∀ t a, (t.lookup mac).isSome → ((f t a).lookup mac).isSome) (as : List A)
    {t : Table Mac ℤ} (h : (t.lookup mac).isSome) : ((as.foldl f t).lookup mac).isSome := by
  induction as generalizing t with
  | nil => exact h
  | cons a as ih => exact ih (hf t a h)

/-- A row for the MAC makes it known. -/
theorem isSome_foldl_restoreDevice {mac : Mac} {devices : List StoredDevice} {device : StoredDevice}
    (hmem : device ∈ devices) (hmac : device.mac = macText mac) (t : Table Mac ℤ) :
    ((devices.foldl restoreDevice t).lookup mac).isSome := by
  induction devices generalizing t with
  | nil => cases hmem
  | cons d devices ih =>
    rcases List.mem_cons.1 hmem with rfl | hmem
    · refine isSome_foldl (fun t d => isSome_restoreDevice d) devices ?_
      rw [restoreDevice, hmac, macText, String.ofList_toList, parseMac_formatMac]
      simp only
      rw [Table.lookup_insert_eq, if_pos rfl]
      rfl
    · exact ih hmem _

/-- What is stored is known after a restart that reads it. -/
theorem isSome_restore {storage : Sqlite.Db} {mac : Mac} (bindingsLoad : Bool)
    (h : (storage.devices.lookup (macText mac)).isSome) :
    ((restore storage true true bindingsLoad).lookup mac).isSome := by
  obtain ⟨row, hrow⟩ := Option.isSome_iff_exists.1 h
  have hmem : (⟨macText mac, row.hostname, row.firstSeen⟩ : StoredDevice) ∈
      Sqlite.loadDevices storage := by
    rw [Sqlite.loadDevices]
    exact List.mem_map.2 ⟨⟨macText mac, row⟩, Table.mem_entries_iff.2 hrow, rfl⟩
  have hknown := isSome_foldl_restoreDevice hmem rfl ∅
  unfold restore
  simp only [Bool.not_true, Bool.false_eq_true, if_false, if_true]
  split
  · exact isSome_foldl (fun t b => isSome_restoreBinding b) _ hknown
  · exact hknown

/-! ## One MAC over a run -/

/-- What of the announced devices and the calls on their way is about a MAC. -/
def Household.mentions (s : Household) (mac : Mac) : ℕ :=
  (s.announced.map NewDevice.mac).count (macText mac) + s.noting.countP (fun c => c.mac = mac)

/-- The MAC was announced or is about to be at most once; it is known then, and stored if the
write is behind it. -/
structure AtMostOnce (mac : Mac) (s : Household) : Prop where
  once : s.mentions mac ≤ 1
  known : 1 ≤ s.mentions mac → (s.firstSeen.lookup mac).isSome
  announced : macText mac ∈ s.announced.map NewDevice.mac → Stored s mac
  recorded : ∀ call ∈ s.noting, call.mac = mac → call.recorded = true → Stored s mac

variable {mac : Mac} {s s' : Household}

/-- The storage only grew, and nothing else changed. -/
theorem AtMostOnce.of_storage (h : AtMostOnce mac s) (storage : Sqlite.Db)
    (hle : ∀ m, (s.storage.devices.lookup m).isSome → (storage.devices.lookup m).isSome) :
    AtMostOnce mac { s with storage := storage } :=
  ⟨h.once, h.known, fun ha => hle _ (h.announced ha),
    fun c hc hm hr => hle _ (h.recorded c hc hm hr)⟩

theorem le_upsertDevice (storage : Sqlite.Db) (b : Bool) (now : ℤ) (m : Text)
    (name : Option Text) (m' : Text) (h : (storage.devices.lookup m').isSome) :
    ((if b then Sqlite.upsertDevice storage now m name else storage).devices.lookup m').isSome := by
  cases b with
  | false => exact h
  | true =>
    rw [if_pos rfl, lookup_upsertDevice, h, Bool.or_true]

theorem announced_once_note (h : AtMostOnce mac s) {ip : IpAddr} {m : Mac} {now : ℤ}
    (hnew : s.firstSeen.lookup m = none) :
    AtMostOnce mac { s with
      firstSeen := s.firstSeen.insert m now, noting := s.noting ++ [⟨m, ip, now, false⟩] } := by
  have hrecorded : ∀ call ∈ s.noting ++ [⟨m, ip, now, false⟩], call.mac = mac →
      call.recorded = true → Stored s mac := by
    intro call hcall hmac hrec
    rcases List.mem_append.1 hcall with hcall | hcall
    · exact h.recorded call hcall hmac hrec
    · rw [List.mem_singleton.1 hcall] at hrec
      cases hrec
  by_cases hm : m = mac
  · subst hm
    -- a MAC that is not known was not mentioned yet
    have hzero : s.mentions m = 0 := by
      by_contra hne
      have hknown := h.known (Nat.one_le_iff_ne_zero.2 hne)
      rw [hnew] at hknown
      cases hknown
    refine ⟨?_, fun _ => ?_, h.announced, hrecorded⟩
    · simp only [Household.mentions] at hzero ⊢
      rw [List.countP_append, List.countP_singleton]
      simp only [decide_true, if_true]
      omega
    · simp only
      rw [Table.lookup_insert_eq, if_pos rfl]
      rfl
  · have hsame : Household.mentions { s with
        firstSeen := s.firstSeen.insert m now, noting := s.noting ++ [⟨m, ip, now, false⟩] } mac =
          s.mentions mac := by
      simp [Household.mentions, hm]
    refine ⟨hsame ▸ h.once, fun hone => ?_, h.announced, hrecorded⟩
    rw [hsame] at hone
    simp only
    rw [Table.lookup_insert_eq, if_neg (Ne.symm hm)]
    exact h.known hone

theorem announced_once_record (h : AtMostOnce mac s) {i : ℕ} {call : Noting} {now : ℤ} {ok : Bool}
    (hcall : s.noting[i]? = some call)
    (hkeeps : call.mac = mac → s.recordsAnything = true ∧ ok = true) :
    AtMostOnce mac { s with
      storage := if s.recordsAnything && ok then
        Sqlite.upsertDevice s.storage now (macText call.mac) none else s.storage
      noting := s.noting.set i { call with recorded := true } } := by
  obtain ⟨hi, hget⟩ := List.getElem?_eq_some_iff.1 hcall
  have hle := le_upsertDevice s.storage (s.recordsAnything && ok) now (macText call.mac) none
  have hsame : Household.mentions { s with
      storage := if s.recordsAnything && ok then
        Sqlite.upsertDevice s.storage now (macText call.mac) none else s.storage
      noting := s.noting.set i { call with recorded := true } } mac = s.mentions mac := by
    simp only [Household.mentions]
    rw [List.countP_set hi, hget]
    have hpos : call.mac = mac → 1 ≤ s.noting.countP fun c => c.mac = mac := fun hm =>
      List.countP_pos_iff.2 ⟨call, List.mem_of_getElem? hcall, by simpa using hm⟩
    by_cases hm : call.mac = mac
    · have := hpos hm
      simp only [hm, decide_true, if_true]
      omega
    · simp [hm]
  refine ⟨hsame ▸ h.once, fun hone => h.known (hsame ▸ hone), fun ha => hle _ (h.announced ha), ?_⟩
  intro c hc hm hr
  rcases List.mem_or_eq_of_mem_set hc with hc | rfl
  · exact hle _ (h.recorded c hc hm hr)
  · -- the call that was just recorded
    obtain ⟨hrec, rfl⟩ := hkeeps hm
    show (Sqlite.Db.devices _ |>.lookup _).isSome
    rw [hrec, Bool.true_and, if_pos rfl, lookup_upsertDevice]
    simp [← hm]

theorem announced_once_announce (h : AtMostOnce mac s) {i : ℕ} {call : Noting}
    (hcall : s.noting[i]? = some call) (hrec : call.recorded = true) {told : List NewDevice}
    (htold : told = [] ∨ told = [⟨macText call.mac, call.ip, call.firstSeen⟩]) :
    AtMostOnce mac { s with
      noting := s.noting.eraseIdx i, announced := s.announced ++ told } := by
  obtain ⟨hi, hget⟩ := List.getElem?_eq_some_iff.1 hcall
  have hperm := List.getElem_cons_eraseIdx_perm hi
  rw [hget] at hperm
  have hcount := hperm.countP_eq fun c => c.mac = mac
  rw [List.countP_cons] at hcount
  have hle : Household.mentions { s with
      noting := s.noting.eraseIdx i, announced := s.announced ++ told } mac ≤ s.mentions mac := by
    simp only [Household.mentions, List.map_append, List.count_append]
    rcases htold with rfl | rfl
    · simp
      omega
    · simp only [List.map_cons, List.map_nil, List.count_singleton]
      by_cases hm : call.mac = mac
      · simp [hm] at hcount ⊢
        omega
      · have hne : macText call.mac ≠ macText mac := fun heq => hm (macText_injective heq)
        simp [hm, hne] at hcount ⊢
        omega
  refine ⟨hle.trans h.once, fun hone => h.known (hone.trans hle), ?_, ?_⟩
  · intro hmem
    rw [List.map_append, List.mem_append] at hmem
    rcases hmem with hmem | hmem
    · exact h.announced hmem
    · rcases htold with rfl | rfl
      · cases hmem
      · have hm := macText_injective (List.mem_singleton.1 hmem)
        exact h.recorded call (List.mem_of_getElem? hcall) hm.symm hrec
  · exact fun c hc => h.recorded c (List.mem_of_mem_eraseIdx hc)

theorem announced_once_step {a : DeviceStep} (hknown : Known mac s a) (h : AtMostOnce mac s)
    (hstep : s.step a = some s') : AtMostOnce mac s' := by
  cases a with
  | note ip m now =>
    obtain rfl | ⟨hnew, rfl⟩ := step_note hstep
    · exact h
    · exact announced_once_note h hnew
  | record i now ok =>
    obtain ⟨call, hcall, rfl⟩ := step_record hstep
    exact announced_once_record h hcall (hknown call hcall)
  | announce i =>
    obtain ⟨call, told, hcall, hrec, htold, rfl⟩ := step_announce hstep
    exact announced_once_announce h hcall hrec (htold.imp_right And.right)
  | persistDevice m name now =>
    cases hstep
    exact h.of_storage _ (le_upsertDevice _ _ _ _ _)
  | persistBinding ip m now =>
    cases hstep
    refine h.of_storage _ fun m' hm' => ?_
    split
    · exact hm'
    · exact hm'
  | scanDone =>
    cases hstep
    exact ⟨h.once, h.known, h.announced, h.recorded⟩
  | setRecording records =>
    cases hstep
    exact ⟨h.once, h.known, h.announced, h.recorded⟩
  | deleteStored => exact hknown.elim
  | clearFirstSeen => exact hknown.elim
  | startBaseline =>
    cases hstep
    exact ⟨h.once, h.known, h.announced, h.recorded⟩
  | restart devicesLoad bindingsLoad =>
    cases hstep
    obtain ⟨hrec, rfl⟩ := hknown
    have hle : Household.mentions { s with
        firstSeen := restore s.storage s.recordsAnything true bindingsLoad
        baseline := true
        noting := [] } mac ≤ (s.announced.map NewDevice.mac).count (macText mac) := by
      simp [Household.mentions]
    refine ⟨?_, fun hone => ?_, h.announced, by simp⟩
    · have := h.once
      rw [Household.mentions] at this
      omega
    · -- it was announced before, so it is stored, and read back
      have hmem := List.count_pos_iff.1 (hone.trans hle)
      rw [hrec]
      exact isSome_restore bindingsLoad (h.announced hmem)

theorem announced_once_fresh (mac : Mac) (storage : Sqlite.Db) (records : Bool) :
    AtMostOnce mac (.fresh storage records) where
  once := by simp [Household.mentions, Household.fresh]
  known := by simp [Household.mentions, Household.fresh]
  announced := by simp [Household.fresh]
  recorded := by simp [Household.fresh]

/-- Before the end of the first scan a step announces nothing. -/
theorem quiet_step {a : DeviceStep} (ha : a ≠ .scanDone) (hbase : s.baseline = true)
    (hstep : s.step a = some s') : s'.baseline = true ∧ s'.announced = s.announced := by
  cases a with
  | note ip m now =>
    obtain rfl | ⟨-, rfl⟩ := step_note hstep <;> exact ⟨hbase, rfl⟩
  | record i now ok =>
    obtain ⟨call, -, rfl⟩ := step_record hstep
    exact ⟨hbase, rfl⟩
  | announce i =>
    obtain ⟨call, told, -, -, rfl | ⟨hscanned, -⟩, rfl⟩ := step_announce hstep
    · exact ⟨hbase, List.append_nil _⟩
    · rw [hbase] at hscanned
      cases hscanned
  | persistDevice m name now =>
    cases hstep
    exact ⟨hbase, rfl⟩
  | persistBinding ip m now =>
    cases hstep
    exact ⟨hbase, rfl⟩
  | scanDone => exact absurd rfl ha
  | setRecording records =>
    cases hstep
    exact ⟨hbase, rfl⟩
  | deleteStored =>
    cases hstep
    exact ⟨hbase, rfl⟩
  | clearFirstSeen =>
    cases hstep
    exact ⟨hbase, rfl⟩
  | startBaseline =>
    cases hstep
    exact ⟨rfl, rfl⟩
  | restart devicesLoad bindingsLoad =>
    cases hstep
    exact ⟨rfl, rfl⟩

/-- Until the first scan has been through, nothing is announced. -/
theorem baseline_is_quiet {as : List DeviceStep} (hscan : ∀ a ∈ as, a ≠ .scanDone)
    (hbase : s.baseline = true) (h : exec Household.step s as = some s') :
    s'.announced = s.announced := by
  induction as generalizing s with
  | nil =>
    cases h
    rfl
  | cons a as ih =>
    rw [List.forall_mem_cons] at hscan
    obtain ⟨t, ht, h⟩ := (exec_cons_eq_some Household.step).1 h
    obtain ⟨hb, hann⟩ := quiet_step hscan.1 hbase ht
    exact (ih hscan.2 hb h).trans hann

/-- A step of a box that goes on recording, whose storage works and that nobody tells to
forget. -/
def DeviceStep.careful : DeviceStep → Bool
  | .record _ _ ok => ok
  | .setRecording records => records
  | .deleteStored => false
  | .clearFirstSeen => false
  | .restart devicesLoad _ => devicesLoad
  | _ => true

theorem recordsAnything_step {a : DeviceStep} (ha : a.careful = true)
    (hrec : s.recordsAnything = true) (hstep : s.step a = some s') : s'.recordsAnything = true := by
  cases a with
  | note ip m now =>
    obtain rfl | ⟨-, rfl⟩ := step_note hstep <;> exact hrec
  | record i now ok =>
    obtain ⟨call, -, rfl⟩ := step_record hstep
    exact hrec
  | announce i =>
    obtain ⟨call, told, -, -, -, rfl⟩ := step_announce hstep
    exact hrec
  | setRecording records =>
    cases hstep
    exact ha
  | _ =>
    cases hstep
    exact hrec

/-- In a run of careful steps every MAC stays known. -/
theorem guarded_of_careful (mac : Mac) {as : List DeviceStep} (has : ∀ a ∈ as, a.careful = true)
    (hrec : s.recordsAnything = true) : Guarded Household.step (Known mac) s as := by
  induction as generalizing s with
  | nil => trivial
  | cons a as ih =>
    rw [List.forall_mem_cons] at has
    refine ⟨?_, fun t ht => ih has.2 (recordsAnything_step has.1 hrec ht)⟩
    cases a with
    | record i now ok => exact fun _ _ _ => ⟨hrec, has.1⟩
    | deleteStored => exact absurd has.1 Bool.false_ne_true
    | clearFirstSeen => exact absurd has.1 Bool.false_ne_true
    | restart devicesLoad bindingsLoad => exact ⟨hrec, has.1⟩
    | _ => trivial

/-- **A device is news once.**  In every run of a box, with any number of sightings on their way
at once and a restart between any two steps, in which nothing makes the box forget a MAC, the
MAC is announced at most once, and is stored when it was; and after a restart nothing is
announced before the first scan is through. -/
theorem new_device_announced_once (mac : Mac) (storage : Sqlite.Db) (records : Bool)
    {as : List DeviceStep} {s : Household}
    (hknown : Guarded Household.step (Known mac) (.fresh storage records) as)
    (h : exec Household.step (.fresh storage records) as = some s) :
    (s.announced.map NewDevice.mac).count (macText mac) ≤ 1 ∧
      (macText mac ∈ s.announced.map NewDevice.mac → Stored s mac) ∧
      ∀ bs devicesLoad bindingsLoad s', (∀ b ∈ bs, b ≠ .scanDone) →
        exec Household.step s (.restart devicesLoad bindingsLoad :: bs) = some s' →
          s'.announced = s.announced := by
  have hinv := inv_of_exec Household.step (fun _ _ _ hg hi => announced_once_step hg hi)
    (announced_once_fresh mac storage records) hknown h
  refine ⟨?_, hinv.announced, fun bs devicesLoad bindingsLoad s' hscan hrun => ?_⟩
  · have := hinv.once
    rw [Household.mentions] at this
    omega
  · obtain ⟨t, ht, hrun⟩ := (exec_cons_eq_some Household.step).1 hrun
    obtain ⟨hb, hann⟩ : t.baseline = true ∧ t.announced = s.announced := by
      cases ht
      exact ⟨rfl, rfl⟩
    exact (baseline_is_quiet hscan hb hrun).trans hann

/-- A phone comes, is announced, and comes again after a restart. -/
def phoneTwice : List DeviceStep :=
  [.scanDone, .note (.v4 ⟨192, 168, 1, 20⟩) #v[2, 0, 0, 0, 0, 1] 5, .record 0 6 true, .announce 0,
    .restart true true, .scanDone, .note (.v4 ⟨192, 168, 1, 21⟩) #v[2, 0, 0, 0, 0, 1] 90]

theorem phone_announced_once :
    ∃ s, exec Household.step (.fresh Sqlite.openStorage true) phoneTwice = some s ∧
      s.announced.map NewDevice.mac = ["02:00:00:00:00:01".toList] ∧
      (s.announced.map NewDevice.mac).count (macText #v[2, 0, 0, 0, 0, 1]) ≤ 1 := by
  have hcareful : ∀ a ∈ phoneTwice, a.careful = true := by decide
  obtain ⟨s, hrun, hnews⟩ :
      ∃ s, exec Household.step (.fresh Sqlite.openStorage true) phoneTwice = some s ∧
        s.announced.map NewDevice.mac = ["02:00:00:00:00:01".toList] := ⟨_, rfl, rfl⟩
  exact ⟨s, hrun, hnews,
    (new_device_announced_once _ _ _ (guarded_of_careful _ hcareful rfl) hrun).1⟩

end Ferrite.Clients
