import Ferrite.App.ConfigFile
import Ferrite.Core.Addr
import Ferrite.Lib.Lts
import Ferrite.Lib.Table
import Mathlib.Data.List.Sort

/-!
# Device names for encrypted DNS

A device that is answered away from home has a name in `[secure_dns] devices`, and `owners`
says whose it is.  The name is the secret: whoever knows it is let in from the internet.
`device_for` of `api/src/setup.rs` finds the name of a client, first by the client, then by a
label made from what the client is called, or makes one; it is called by the panel and by the
pages on which a device sets itself up.

A label goes by what a client is called, and two clients may be called the same.  The name
`device_for` finds by it may then be another client's, and with `make` it becomes the asker's.
`device_stays` says that nothing else can take a name from its owner: over every run in which
no call finds another client's name by its label, a name stays with the client it was made
for until the device is removed.
-/

namespace Ferrite.Api.Setup

open ConfigFile (ClientAliasConfig)

/-! ## Labels -/

/-- What `device_label` writes for a character of a name in lower case. -/
def latin (c : Char) : Text :=
  if ('a' ≤ c && c ≤ 'z') || ('0' ≤ c && c ≤ '9') then [c]
  -- the apostrophe
  else if c.toNat = 39 then []
  else
    match c with
    | 'а' => ['a']
    | 'б' => ['b']
    | 'в' => ['v']
    | 'г' => ['h']
    | 'ґ' => ['g']
    | 'д' => ['d']
    | 'е' | 'э' => ['e']
    | 'є' => ['y', 'e']
    | 'ё' => ['y', 'o']
    | 'ж' => ['z', 'h']
    | 'з' => ['z']
    | 'и' | 'ы' => ['y']
    | 'і' => ['i']
    | 'ї' => ['y', 'i']
    | 'й' => ['y']
    | 'к' => ['k']
    | 'л' | 'ł' => ['l']
    | 'м' => ['m']
    | 'н' | 'ñ' | 'ń' => ['n']
    | 'о' | 'ó' | 'ö' | 'ô' => ['o']
    | 'п' => ['p']
    | 'р' => ['r']
    | 'с' | 'ś' | 'š' => ['s']
    | 'т' => ['t']
    | 'у' | 'ü' | 'ú' | 'ù' => ['u']
    | 'ф' => ['f']
    | 'х' => ['k', 'h']
    | 'ц' => ['t', 's']
    | 'ч' | 'č' => ['c', 'h']
    | 'ш' => ['s', 'h']
    | 'щ' => ['s', 'h', 'c', 'h']
    | 'ю' => ['y', 'u']
    | 'я' => ['y', 'a']
    | 'ä' | 'á' | 'à' | 'â' | 'ą' => ['a']
    | 'é' | 'è' | 'ê' | 'ę' | 'ë' => ['e']
    | 'ç' | 'ć' => ['c']
    | 'ź' | 'ż' | 'ž' => ['z']
    | 'ß' => ['s', 's']
    | 'ь' | 'ъ' | '’' | 'ʼ' => []
    | _ => ['-']

/-- `device_label`: one DNS label from a person's name for a device.  What is written is
ASCII, so that cutting it to 40 bytes is cutting it to 40 characters. -/
def deviceLabel (toLowercase : Text → Text) (name : Text) : Text :=
  let out := (toLowercase name).flatMap latin
  let label := ['-'].intercalate ((out.splitOn '-').filter (· ≠ []))
  let label := Text.trimEndMatches (· == '-') (label.take 40)
  (normalizeClientId label).getD "device".toList

/-- Is the device named for the label: the label, or the label, a dash and four letters or
digits? -/
def goesBy (label d : Text) : Bool :=
  d == label || (label.isPrefixOf d &&
    match d.drop label.length with
    | '-' :: tail =>
      Text.byteLen tail == 4 && tail.all fun c => ('a' ≤ c && c ≤ 'z') || ('0' ≤ c && c ≤ '9')
    | _ => false)

/-- `labelled_device`: the first of the devices that is named for the label. -/
def labelledDevice (devices : List Text) (label : Text) : Option Text :=
  devices.find? (goesBy label)

/-- `ALPHABET`. -/
def alphabet : Text := "abcdefghijklmnopqrstuvwxyz0123456789".toList

/-- `suffix`: a character for each of four random bytes. -/
def suffix (random : Vector UInt8 4) : Text :=
  random.toList.map fun b => alphabet.getD (b.toNat % 36) 'a'

/-! ## The section and its calls -/

/-- `SelfSetup`. -/
inductive SelfSetup where
  | off
  | named
  | anyone
deriving DecidableEq, Repr

/-- `[secure_dns]`, as far as device names go. -/
structure SecureDnsConfig where
  enabled : Bool
  hostname : Text
  dotPort : UInt16
  dohPort : UInt16
  devices : List Text
  selfSetup : SelfSetup
  owners : Table Text Text

/-- Arguments of `device_for`. -/
structure Call where
  name : Text
  owner : Option Text
  make : Bool
deriving DecidableEq, Repr

/-- The client a call is for: `device_for` takes addresses and hardware addresses only. -/
def Call.client (c : Call) : Option Text :=
  (c.owner.bind normalizeClientKey).filter fun k => !"id:".toList.isPrefixOf k

namespace SecureDnsConfig

/-- The first device of a client, in the order of the names: `owners` is a `BTreeMap`. -/
def deviceOf (sd : SecureDnsConfig) (o : Text) : Option Text :=
  (((sd.owners.entries.filter fun e => e.2 == o && sd.devices.contains e.1).map
    fun e => e.1).insertionSort fun a b => List.lex b a = false).head?

/-- The name is saved as the client's, if the call is for one. -/
def own (owners : Table Text Text) (id : Text) : Option Text → Table Text Text
  | some o => if owners.lookup id = some o then owners else owners.insert id o
  | none => owners

end SecureDnsConfig

section Names

variable (toLowercase : Text → Text)

/-- The name a call finds: the client's own, else the first that goes by its label. -/
def lookedUp (sd : SecureDnsConfig) (c : Call) : Option Text :=
  (c.client.bind sd.deviceOf).or (labelledDevice sd.devices (deviceLabel toLowercase c.name))

/-- `device_for`: the name, whether it was made now, and the section after it. -/
def deviceFor (sd : SecureDnsConfig) (c : Call) (random : Vector UInt8 4) :
    Option (Text × Bool) × SecureDnsConfig :=
  match lookedUp toLowercase sd c with
  | some id =>
    (some (id, false),
      if c.make then { sd with owners := SecureDnsConfig.own sd.owners id c.client } else sd)
  | none =>
    if c.make then
      let id := deviceLabel toLowercase c.name ++ '-' :: suffix random
      (some (id, true),
        { sd with
          devices := sd.devices ++ [id]
          owners := SecureDnsConfig.own sd.owners id c.client })
    else (none, sd)

/-! ## Who calls it -/

/-- `Asker`: a device on the setup page, as far as the box knows it. -/
structure Asker where
  ip : IpAddr
  mac : Option Text
  /-- Its name in Clients, and the key it is named by. -/
  aliased : Option (Text × Text)
  seenAs : Option Text
deriving DecidableEq, Repr

/-- `owner_key`. -/
def ownerKey (asker : Asker) : Text :=
  ((asker.aliased.map fun a => a.2).or asker.mac).getD (ipToString asker.ip)

/-- Why the setup page answers nothing. -/
inductive Refused where
  | away
  | off
  | closed
deriving DecidableEq, Repr

/-- `judge`: the mode, for a device at home. -/
def judge (sd : SecureDnsConfig) (asker : Asker) : Except Refused SelfSetup :=
  if !isLocal asker.ip then .error .away
  else if !(sd.enabled && sd.hostname != [] && (sd.dotPort != 0 || sd.dohPort != 0)) then
    .error .off
  else if sd.selfSetup = .off then .error .closed
  else .ok sd.selfSetup

/-- The requests that end in `device_for`. -/
inductive Request where
  /-- `GET /api/secure-dns/device`. -/
  | device (name : Text) (client : Option Text)
  /-- `POST /api/secure-dns/device`. -/
  | makeDevice (name : Text) (client : Option Text)
  /-- `GET /api/setup`. -/
  | view (asker : Asker)
  /-- `POST /api/setup`. -/
  | claim (asker : Asker) (name : Option Text)
deriving DecidableEq, Repr

/-- The call a request makes, if it comes to one. -/
def Request.call (sd : SecureDnsConfig) : Request → Option Call
  | device name client => some ⟨name, client, false⟩
  | makeDevice name client =>
    if !sd.enabled || sd.hostname == [] then none else some ⟨name, client, true⟩
  | view asker =>
    match judge sd asker with
    | .error _ => none
    | .ok mode =>
      if mode = .named ∧ asker.aliased = none then none
      else
        ((asker.aliased.map fun a => a.1).or asker.seenAs).map fun name =>
          ⟨name, some (ownerKey asker), false⟩
  | claim asker name =>
    match judge sd asker with
    | .error _ => none
    | .ok mode =>
      match asker.aliased, mode with
      | some (name, _), _ => some ⟨name, some (ownerKey asker), true⟩
      | none, .anyone =>
        let given := (name.map fun n => (Text.trim n).take 64).filter (· ≠ [])
        some ⟨(given.or asker.seenAs).getD "device".toList, some (ownerKey asker), true⟩
      | none, _ => none

/-! ## What else happens to the section -/

/-- The owner `tidy_device_owners` finds for a device: the client it is named for. -/
def namesake (aliases : List ClientAliasConfig) (learned : Table Text Text) (id : Text) :
    Option Text :=
  ((aliases.filter fun a => (labelledDevice [id] (deviceLabel toLowercase a.name)).isSome).findSome?
    fun a => (a.mac.or a.ip).bind normalizeClientKey).or (learned.lookup id)

/-- `tidy_device_owners`: a device that is gone loses its owner, and one without an owner
gets the client it is named for. -/
def tidyDeviceOwners (aliases : List ClientAliasConfig) (learned : Table Text Text)
    (sd : SecureDnsConfig) : SecureDnsConfig :=
  { sd with
    owners := sd.devices.foldl (fun owners id =>
      if (owners.lookup id).isSome then owners
      else
        match namesake toLowercase aliases learned id with
        | some o => owners.insert id o
        | none => owners) (sd.owners.retain fun id _ => sd.devices.contains id) }

/-- The device names `put_secure_dns` saves: as client ids, each once. -/
def tidyDevices (devices : List Text) : List Text :=
  (devices.map fun d => (normalizeClientId d).getD d).reverse.dedup.reverse

/-- What happens to the section: a request, the tidying after a change, or a new section
from the panel. -/
inductive Event where
  | request (r : Request) (random : Vector UInt8 4)
  | tidy (aliases : List ClientAliasConfig) (learned : Table Text Text)
  | put (cfg : SecureDnsConfig)

/-- The section after an event. -/
def Event.step (sd : SecureDnsConfig) : Event → SecureDnsConfig
  | request r random =>
    match r.call sd with
    | some c => (deviceFor toLowercase sd c random).2
    | none => sd
  | tidy aliases learned => tidyDeviceOwners toLowercase aliases learned sd
  | put cfg => { cfg with devices := tidyDevices cfg.devices }

/-! ## What a call does -/

variable {toLowercase}

theorem deviceOf_eq_some {sd : SecureDnsConfig} {o id : Text} (h : sd.deviceOf o = some id) :
    sd.owners.lookup id = some o ∧ id ∈ sd.devices := by
  have hmem := List.mem_of_head? h
  rw [List.mem_insertionSort] at hmem
  obtain ⟨e, he, rfl⟩ := List.mem_map.1 hmem
  obtain ⟨hentry, hown⟩ := List.mem_filter.1 he
  rw [Bool.and_eq_true, beq_iff_eq, List.contains_iff_mem] at hown
  refine ⟨Table.mem_entries_iff.1 ?_, hown.2⟩
  rw [← hown.1]
  exact hentry

theorem lookup_own (owners : Table Text Text) (id : Text) (client : Option Text) (x : Text) :
    (SecureDnsConfig.own owners id client).lookup x =
      if x = id then client.or (owners.lookup id) else owners.lookup x := by
  cases client with
  | none =>
    by_cases hx : x = id
    · rw [if_pos hx, hx]
      rfl
    · rw [if_neg hx]
      rfl
  | some o =>
    by_cases ho : owners.lookup id = some o
    · rw [SecureDnsConfig.own, if_pos ho, ho]
      split_ifs with hx
      · rw [hx, ho]
        rfl
      · rfl
    · rw [SecureDnsConfig.own, if_neg ho, Table.lookup_insert_eq]
      rfl

theorem suffix_letter (b : UInt8) :
    (('a' ≤ alphabet.getD (b.toNat % 36) 'a' && alphabet.getD (b.toNat % 36) 'a' ≤ 'z') ||
      ('0' ≤ alphabet.getD (b.toNat % 36) 'a' && alphabet.getD (b.toNat % 36) 'a' ≤ '9')) = true ∧
      (alphabet.getD (b.toNat % 36) 'a').utf8Size = 1 := by
  have h : ∀ n : Fin 36, (('a' ≤ alphabet.getD n.val 'a' && alphabet.getD n.val 'a' ≤ 'z') ||
      ('0' ≤ alphabet.getD n.val 'a' && alphabet.getD n.val 'a' ≤ '9')) = true ∧
      (alphabet.getD n.val 'a').utf8Size = 1 := by decide
  exact h ⟨b.toNat % 36, Nat.mod_lt _ (by omega)⟩

/-- A name that is made goes by its label. -/
theorem goesBy_append_suffix (label : Text) (random : Vector UInt8 4) :
    goesBy label (label ++ '-' :: suffix random) = true := by
  have hsizes : (suffix random).map Char.utf8Size = List.replicate 4 1 := by
    rw [List.eq_replicate_iff]
    refine ⟨by simp [suffix], fun n hn => ?_⟩
    rw [suffix, List.map_map] at hn
    obtain ⟨b, -, rfl⟩ := List.mem_map.1 hn
    exact (suffix_letter b).2
  have hlen : Text.byteLen (suffix random) = 4 := by
    rw [Text.byteLen, hsizes]
    rfl
  have hletters : (suffix random).all
      (fun c => ('a' ≤ c && c ≤ 'z') || ('0' ≤ c && c ≤ '9')) = true := by
    rw [suffix, List.all_map, List.all_eq_true]
    exact fun b _ => (suffix_letter b).1
  rw [goesBy, List.drop_left, List.isPrefixOf_iff_prefix.2 (List.prefix_append _ _)]
  simp only [hlen, hletters, beq_self_eq_true, Bool.and_self, Bool.or_true]

/-- A name that is made was not in the list. -/
theorem not_mem_of_labelledDevice_eq_none {devices : List Text} {label : Text}
    (h : labelledDevice devices label = none) (random : Vector UInt8 4) :
    label ++ '-' :: suffix random ∉ devices := by
  intro hmem
  have hno := List.find?_eq_none.1 h _ hmem
  exact hno (goesBy_append_suffix label random)

/-- No call finds another client's name by its label: where the client has no name of its
own, the first that goes by the label is nobody's or the client's. -/
def FindsNoOthers (toLowercase : Text → Text) (sd : SecureDnsConfig) (c : Call) : Prop :=
  ∀ o, c.client = some o → sd.deviceOf o = none →
    ∀ d, labelledDevice sd.devices (deviceLabel toLowercase c.name) = some d →
      ∀ k, sd.owners.lookup d = some k → k = o

instance (toLowercase : Text → Text) (sd : SecureDnsConfig) (c : Call) :
    Decidable (FindsNoOthers toLowercase sd c) :=
  decidable_of_iff (∀ o ∈ c.client, sd.deviceOf o = none →
      ∀ d ∈ labelledDevice sd.devices (deviceLabel toLowercase c.name),
        ∀ k ∈ sd.owners.lookup d, k = o) Iff.rfl

/-- A call that does find one returns it, and with `make` takes it. -/
theorem deviceFor_takes {sd : SecureDnsConfig} {c : Call} (h : ¬ FindsNoOthers toLowercase sd c)
    (random : Vector UInt8 4) :
    ∃ o k d, c.client = some o ∧ sd.owners.lookup d = some k ∧ k ≠ o ∧
      (deviceFor toLowercase sd c random).1 = some (d, false) ∧
      (c.make = true → (deviceFor toLowercase sd c random).2.owners.lookup d = some o) := by
  unfold FindsNoOthers at h
  push Not at h
  obtain ⟨o, ho, hmine, d, hd, k, hk, hne⟩ := h
  have hfound : lookedUp toLowercase sd c = some d := by
    rw [lookedUp, ho, Option.bind_some, hmine, Option.none_or, hd]
  refine ⟨o, k, d, ho, hk, hne, ?_, fun hmake => ?_⟩
  · simp only [deviceFor, hfound]
  · simp only [deviceFor, hfound, if_pos hmake]
    rw [lookup_own, if_pos rfl, ho]
    rfl

/-- The name is in the list, and is the client's. -/
def Holds (sd : SecureDnsConfig) (id o : Text) : Prop :=
  id ∈ sd.devices ∧ sd.owners.lookup id = some o

/-- What a call for a client finds is not another client's. -/
theorem ne_of_lookedUp {sd : SecureDnsConfig} {c : Call} {id d o k : Text}
    (hc : FindsNoOthers toLowercase sd c) (hclient : c.client = some o)
    (hfound : lookedUp toLowercase sd c = some d) (hid : sd.owners.lookup id = some k)
    (hne : k ≠ o) : d ≠ id := by
  rintro rfl
  rw [lookedUp, hclient, Option.bind_some] at hfound
  cases hmine : sd.deviceOf o with
  | some d' =>
    rw [hmine, Option.some_or] at hfound
    cases hfound
    rw [(deviceOf_eq_some hmine).1] at hid
    exact hne (Option.some.inj hid).symm
  | none =>
    rw [hmine, Option.none_or] at hfound
    exact hne (hc o hclient hmine d hfound k hid)

/-- **One call.**  A name keeps its owner through a call that finds no other client's name,
and a call for another client does not return it. -/
theorem deviceFor_holds {sd : SecureDnsConfig} {c : Call} {id k : Text}
    (hc : FindsNoOthers toLowercase sd c) (h : Holds sd id k) (random : Vector UInt8 4) :
    Holds (deviceFor toLowercase sd c random).2 id k ∧
      ∀ o, c.client = some o → k ≠ o → ∀ made,
        (deviceFor toLowercase sd c random).1 ≠ some (id, made) := by
  unfold deviceFor
  cases hfound : lookedUp toLowercase sd c with
  | some d =>
    have hne : ∀ o, c.client = some o → k ≠ o → d ≠ id := fun o ho hko =>
      ne_of_lookedUp hc ho hfound h.2 hko
    refine ⟨?_, fun o ho hko made heq => ?_⟩
    · dsimp only
      split_ifs
      · refine ⟨h.1, ?_⟩
        rw [lookup_own]
        split_ifs with hid
        · subst hid
          cases hclient : c.client with
          | none => exact h.2
          | some o =>
            by_cases hko : k = o
            · rw [hko]
              rfl
            · exact absurd rfl (hne o hclient hko)
        · exact h.2
      · exact h
    · cases heq
      exact hne o ho hko rfl
  | none =>
    have hlabel : labelledDevice sd.devices (deviceLabel toLowercase c.name) = none :=
      (Option.or_eq_none_iff.1 hfound).2
    -- the name that is made is a new one
    have hnew : id ≠ deviceLabel toLowercase c.name ++ '-' :: suffix random := by
      intro heq
      exact not_mem_of_labelledDevice_eq_none hlabel random (heq ▸ h.1)
    dsimp only
    split_ifs
    · refine ⟨⟨List.mem_append_left _ h.1, ?_⟩, fun o _ _ made heq => ?_⟩
      · rw [lookup_own, if_neg hnew]
        exact h.2
      · exact hnew (Prod.mk.inj (Option.some.inj heq)).1.symm
    · exact ⟨h, fun o _ _ made heq => by cases heq⟩

/-- What a call with `make` returns is its client's from then on. -/
theorem holds_of_deviceFor {sd : SecureDnsConfig} {c : Call} {id o : Text} {made : Bool}
    {random : Vector UInt8 4} (hmake : c.make = true) (hclient : c.client = some o)
    (h : (deviceFor toLowercase sd c random).1 = some (id, made)) :
    Holds (deviceFor toLowercase sd c random).2 id o := by
  unfold deviceFor at h ⊢
  cases hfound : lookedUp toLowercase sd c with
  | some d =>
    rw [hfound] at h
    cases h
    have hmem : id ∈ sd.devices := by
      rw [lookedUp, hclient, Option.bind_some, Option.or_eq_some_iff] at hfound
      rcases hfound with hmine | ⟨-, hlabel⟩
      · exact (deviceOf_eq_some hmine).2
      · exact List.mem_of_find?_eq_some hlabel
    dsimp only
    rw [if_pos hmake]
    exact ⟨hmem, by rw [lookup_own, if_pos rfl, hclient]; rfl⟩
  | none =>
    simp only [hfound, if_pos hmake] at h ⊢
    obtain ⟨hid, -⟩ := Prod.mk.inj (Option.some.inj h)
    rw [hid]
    refine ⟨List.mem_append_right _ List.mem_cons_self, ?_⟩
    rw [lookup_own, if_pos rfl, hclient]
    rfl

/-- Tidying leaves a name that has an owner alone. -/
theorem holds_tidyDeviceOwners {sd : SecureDnsConfig} {id k : Text} (h : Holds sd id k)
    (aliases : List ClientAliasConfig) (learned : Table Text Text) :
    Holds (tidyDeviceOwners toLowercase aliases learned sd) id k := by
  have hfold : ∀ (devices : List Text) (owners : Table Text Text), owners.lookup id = some k →
      (devices.foldl (fun owners id =>
        if (owners.lookup id).isSome then owners
        else
          match namesake toLowercase aliases learned id with
          | some o => owners.insert id o
          | none => owners) owners).lookup id = some k := by
    intro devices
    induction devices with
    | nil => exact fun owners howns => howns
    | cons d devices ih =>
      intro owners howns
      refine ih _ ?_
      dsimp only
      split_ifs with hsome
      · exact howns
      · split
        · have hne : id ≠ d := by
            rintro rfl
            exact hsome (by rw [howns]; rfl)
          rw [Table.lookup_insert_eq, if_neg hne]
          exact howns
        · exact howns
  refine ⟨h.1, hfold _ _ ?_⟩
  rw [Table.lookup_retain, h.2, Option.filter_some, if_pos (List.contains_iff_mem.2 h.1)]

/-! ## Runs -/

/-- No request finds another client's name by its label, and a section from the panel that
keeps a device keeps its owner. -/
def Event.Ok (toLowercase : Text → Text) (sd : SecureDnsConfig) : Event → Prop
  | request r _ => ∀ c, r.call sd = some c → FindsNoOthers toLowercase sd c
  | tidy _ _ => True
  | put cfg => ∀ id ∈ tidyDevices cfg.devices, id ∈ sd.devices →
      cfg.owners.lookup id = sd.owners.lookup id

instance (toLowercase : Text → Text) (sd : SecureDnsConfig) :
    (e : Event) → Decidable (e.Ok toLowercase sd)
  | .request r _ =>
    decidable_of_iff (∀ c ∈ r.call sd, FindsNoOthers toLowercase sd c) Iff.rfl
  | .tidy _ _ => isTrue trivial
  | .put cfg => inferInstanceAs (Decidable (∀ id ∈ tidyDevices cfg.devices, id ∈ sd.devices →
      cfg.owners.lookup id = sd.owners.lookup id))

/-- The event does not remove the device. -/
def Event.Keeps (id : Text) : Event → Prop
  | put cfg => id ∈ tidyDevices cfg.devices
  | _ => True

/-- The section after an event, as a step of a run. -/
def Event.next (toLowercase : Text → Text) (sd : SecureDnsConfig) (e : Event) :
    Option SecureDnsConfig :=
  some (e.step toLowercase sd)

/-- **One event** that does not remove the device leaves it to its owner. -/
theorem Event.step_holds {sd : SecureDnsConfig} {e : Event} {id k : Text}
    (hok : e.Ok toLowercase sd) (hkeeps : e.Keeps id) (h : Holds sd id k) :
    Holds (e.step toLowercase sd) id k := by
  cases e with
  | request r random =>
    simp only [Event.step]
    split
    · next c hcall => exact (deviceFor_holds (hok c hcall) h random).1
    · exact h
  | tidy aliases learned => exact holds_tidyDeviceOwners h aliases learned
  | put cfg => exact ⟨hkeeps, (hok id hkeeps h.1).trans h.2⟩

/-- **A device name belongs to one client.**  Over every run in which no request finds
another client's name by its label: what a request with `make` returned for one client is
not returned to another, and stays the first one's, until the device is removed. -/
theorem device_stays {s₀ s₁ s₂ : SecureDnsConfig} {before between : List Event} {r r' : Request}
    {random random' : Vector UInt8 4} {c c' : Call} {o o' id : Text} {made : Bool}
    (hok : Lts.Guarded (Event.next toLowercase) (Event.Ok toLowercase) s₀
      (before ++ .request r random :: (between ++ [.request r' random'])))
    (hs₁ : Lts.exec (Event.next toLowercase) s₀ before = some s₁)
    (hcall : r.call s₁ = some c) (hmake : c.make = true) (ho : c.client = some o)
    (hid : (deviceFor toLowercase s₁ c random).1 = some (id, made))
    (hs₂ : Lts.exec (Event.next toLowercase) s₁ (.request r random :: between) = some s₂)
    (hkeeps : ∀ e ∈ between, e.Keeps id)
    (hcall' : r'.call s₂ = some c') (ho' : c'.client = some o') (hne : o' ≠ o) :
    (∀ made', (deviceFor toLowercase s₂ c' random').1 ≠ some (id, made')) ∧
      (deviceFor toLowercase s₂ c' random').2.owners.lookup id = s₂.owners.lookup id := by
  obtain ⟨-, hok₁⟩ := hok.of_append _ hs₁
  rw [← List.cons_append] at hok₁
  obtain ⟨hbetween, hlast⟩ := hok₁.of_append _ hs₂
  obtain ⟨t, ht, hs₂⟩ := (Lts.exec_cons_eq_some _).1 hs₂
  have hfirst : t = (deviceFor toLowercase s₁ c random).2 := by
    rw [← Option.some.inj ht, Event.step, hcall]
  have hstart : Holds t id o := hfirst ▸ holds_of_deviceFor hmake ho hid
  -- the events in between leave the name to its owner
  have hguard : Lts.Guarded (Event.next toLowercase)
      (fun sd e => e.Ok toLowercase sd ∧ e.Keeps id) t between :=
    Lts.Guarded.and_of_forall_mem _ (hbetween.2 t ht) hkeeps
  have hstep : ∀ sd e sd', e.Ok toLowercase sd ∧ e.Keeps id → Holds sd id o →
      Event.next toLowercase sd e = some sd' → Holds sd' id o := by
    intro sd e sd' hg hsd hnext
    cases hnext
    exact Event.step_holds hg.1 hg.2 hsd
  have hheld := Lts.inv_of_exec _ hstep hstart hguard hs₂
  obtain ⟨hafter, hreturn⟩ := deviceFor_holds (hlast.1 c' hcall') hheld random'
  exact ⟨hreturn o' ho' hne.symm, hafter.2.trans hheld.2.symm⟩

end Names

namespace Household

/-- Encrypted DNS, switched on, with no device yet. -/
def fresh : SecureDnsConfig where
  enabled := true
  hostname := "dns.test".toList
  dotPort := 853
  dohPort := 443
  devices := []
  selfSetup := .named
  owners := ∅

/-- The panel gives a client a device name. -/
def naming (name client : String) : Request := .makeDevice name.toList (some client.toList)

/-- The random bytes of the suffix `aaaa`. -/
def zeros : Vector UInt8 4 := #v[0, 0, 0, 0]

/-- The call such a request makes. -/
def nameIt (name client : String) : Call := ⟨name.toList, some client.toList, true⟩

/-- The section once the first phone has its name. -/
def onePhone : SecureDnsConfig :=
  Event.step Text.toAsciiLowercase fresh (.request (naming "Phone" "192.168.1.50") zeros)

end Household

open Household in
/-- A second client that is called differently is not given the phone's name. -/
theorem device_stays_laptop :
    (∀ made, (deviceFor Text.toAsciiLowercase onePhone (nameIt "Laptop" "192.168.1.51") zeros).1 ≠
        some ("phone-aaaa".toList, made)) ∧
      (deviceFor Text.toAsciiLowercase onePhone (nameIt "Laptop" "192.168.1.51")
        zeros).2.owners.lookup "phone-aaaa".toList =
          onePhone.owners.lookup "phone-aaaa".toList := by
  have hok : Lts.Guarded (Event.next Text.toAsciiLowercase) (Event.Ok Text.toAsciiLowercase) fresh
      ([] ++ .request (naming "Phone" "192.168.1.50") zeros ::
        ([] ++ [.request (naming "Laptop" "192.168.1.51") zeros])) := by
    decide +kernel
  have ho : (nameIt "Phone" "192.168.1.50").client = some "192.168.1.50".toList := by
    decide +kernel
  have ho' : (nameIt "Laptop" "192.168.1.51").client = some "192.168.1.51".toList := by
    decide +kernel
  have hid : (deviceFor Text.toAsciiLowercase fresh (nameIt "Phone" "192.168.1.50") zeros).1 =
      some ("phone-aaaa".toList, true) := by
    decide +kernel
  exact device_stays hok rfl rfl rfl ho hid rfl (by simp) rfl ho' (by decide)

open Household in
/-- A second client that is called the same is given the first one's name, and becomes its
owner. -/
theorem second_phone_takes_it :
    (deviceFor Text.toAsciiLowercase fresh (nameIt "Phone" "192.168.1.50") zeros).1 =
        some ("phone-aaaa".toList, true) ∧
      onePhone.owners.lookup "phone-aaaa".toList = some "192.168.1.50".toList ∧
      (deviceFor Text.toAsciiLowercase onePhone (nameIt "Phone" "192.168.1.51") zeros).1 =
        some ("phone-aaaa".toList, false) ∧
      (deviceFor Text.toAsciiLowercase onePhone (nameIt "Phone" "192.168.1.51")
        zeros).2.owners.lookup "phone-aaaa".toList = some "192.168.1.51".toList := by
  decide +kernel

end Ferrite.Api.Setup
