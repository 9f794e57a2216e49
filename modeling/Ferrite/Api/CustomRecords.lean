import Ferrite.Lib.Lts
import Ferrite.Blocklist.Names
import Ferrite.Dns.Custom

/-!
# Custom records in the panel

`api/src/custom_records.rs`: a record is added to or taken out of the running records,
and then of the list in the configuration, from which the next start reads them.  The
running records are compared as the engine reads them, the list as it is written.

* `inStep_step` — a call that finds the entries it is about spelled as it expects keeps
  the two in step;
* `restart_changes_nothing` — over any calls of that kind, the records a restart loads
  answer every question as the running ones do.
-/

namespace Ferrite.Api

open Dns

/-- The running records of the operator, and the list in the live configuration. -/
structure RecordState where
  engine : List CustomRecord
  config : List CustomRecordConfig
deriving DecidableEq, Repr

/-- A call of the panel. -/
inductive RecordCall
  | add (cfg : CustomRecordConfig)
  | delete (domain : Text)
deriving DecidableEq, Repr

section

variable (codec : Codec) (toUppercase : Text → Text)

/-- A start: the records are those of the configuration. -/
def RecordState.load (cfgs : List CustomRecordConfig) : RecordState :=
  ⟨loadFromConfig codec toUppercase cfgs, cfgs⟩

/-- The entry `add_record` works with. -/
def RecordState.entered (cfg : CustomRecordConfig) : CustomRecordConfig :=
  { cfg with domain := Blocklist.normalise cfg.domain }

/-- `add_record`: the engine first, which refuses what it cannot read. -/
def addRecord (s : RecordState) (cfg : CustomRecordConfig) : Except Text RecordState := do
  let cfg := RecordState.entered cfg
  let record ← parseRecord codec toUppercase cfg
  let kept := s.config.filter fun r => r.domain != cfg.domain || r.recordType != cfg.recordType
  return ⟨addTo s.engine record, kept ++ [cfg]⟩

/-- `delete_record`. -/
def deleteRecord (s : RecordState) (domain : Text) : Except Text RecordState :=
  let domain := Blocklist.normalise domain
  let (engine, removed) := removeFrom s.engine domain
  if !removed then .error ("no custom record for '".toList ++ domain ++ ['\''])
  else .ok ⟨engine, s.config.filter fun r => Blocklist.normalise r.domain != domain⟩

/-- One call; a refused one changes nothing. -/
def recordStep (s : RecordState) : RecordCall → Option RecordState
  | .add cfg => some ((addRecord codec toUppercase s cfg).toOption.getD s)
  | .delete domain => some ((deleteRecord s domain).toOption.getD s)

/-- The running records are those of the list. -/
def InStep (s : RecordState) : Prop := s.engine = loadFromConfig codec toUppercase s.config

/-- The entries a call is about are spelled as it expects: one that is replaced has the
domain and type of the new one to the letter, and one is for the domain to be deleted by
the blocklist's reading of it just when it is by the engine's. -/
def SpelledAlike (s : RecordState) : RecordCall → Prop
  | .add cfg =>
    let cfg := RecordState.entered cfg
    ∀ record ∈ (parseRecord codec toUppercase cfg).toOption, ∀ r ∈ s.config,
      ∀ p ∈ (parseRecord codec toUppercase r).toOption, p.sameKey record = true →
        r.domain = cfg.domain ∧ r.recordType = cfg.recordType
  | .delete domain =>
    let domain := Blocklist.normalise domain
    (removeFrom s.engine domain).2 = true → ∀ r ∈ s.config,
      ∀ p ∈ (parseRecord codec toUppercase r).toOption,
        (Blocklist.normalise r.domain = domain ↔ p.domain = CustomRecords.normalise domain)

instance (s : RecordState) (call : RecordCall) :
    Decidable (SpelledAlike codec toUppercase s call) := by
  unfold SpelledAlike
  split <;> infer_instance

variable {codec toUppercase} {s s' : RecordState}

/-! ## The two lists stay in step -/

theorem mem_toOption_iff {r : CustomRecordConfig} {p : CustomRecord} :
    p ∈ (parseRecord codec toUppercase r).toOption ↔ parseRecord codec toUppercase r = .ok p := by
  cases parseRecord codec toUppercase r <;> simp [Except.toOption]

/-- What is filtered by one test before it is read and by another after. -/
theorem loadFromConfig_filter {cfgs : List CustomRecordConfig} {keep : CustomRecordConfig → Bool}
    {keepRead : CustomRecord → Bool}
    (h : ∀ r ∈ cfgs, ∀ p ∈ (parseRecord codec toUppercase r).toOption, keep r = keepRead p) :
    loadFromConfig codec toUppercase (cfgs.filter keep) =
      (loadFromConfig codec toUppercase cfgs).filter keepRead := by
  unfold loadFromConfig
  rw [List.filterMap_filter, List.filter_filterMap]
  refine List.filterMap_congr fun r hr => ?_
  cases hread : (parseRecord codec toUppercase r).toOption with
  | none => simp
  | some p =>
    rw [h r hr p hread]
    cases hkeep : keepRead p <;> simp [Option.filter, hkeep]

theorem inStep_add (h : InStep codec toUppercase s) {cfg : CustomRecordConfig}
    (hspelled : SpelledAlike codec toUppercase s (.add cfg))
    (hadd : addRecord codec toUppercase s cfg = .ok s') : InStep codec toUppercase s' := by
  unfold addRecord at hadd
  cases hread : parseRecord codec toUppercase (RecordState.entered cfg) with
  | error e => simp [hread, bind, Except.bind] at hadd
  | ok record =>
    simp only [hread, bind, Except.bind, pure, Except.pure, Except.ok.injEq] at hadd
    subst hadd
    have hkept : ∀ r ∈ s.config, ∀ p ∈ (parseRecord codec toUppercase r).toOption,
        (r.domain != (RecordState.entered cfg).domain ||
          r.recordType != (RecordState.entered cfg).recordType) = !p.sameKey record := by
      intro r hr p hp
      have hiff : (r.domain = (RecordState.entered cfg).domain ∧
          r.recordType = (RecordState.entered cfg).recordType) ↔ p.sameKey record = true := by
        refine ⟨?_, hspelled record (mem_toOption_iff.2 hread) r hr p hp⟩
        rintro ⟨hdomain, htype⟩
        obtain ⟨hd, ht⟩ := parseRecord_eq_ok (mem_toOption_iff.1 hp)
        obtain ⟨hd', ht'⟩ := parseRecord_eq_ok hread
        rw [hdomain, ← hd'] at hd
        rw [htype, ht'] at ht
        simp [CustomRecord.sameKey, hd, Except.ok.inj ht]
      rw [Bool.eq_iff_iff, Bool.not_eq_true', ← Bool.not_eq_true, ← hiff]
      simp only [Bool.or_eq_true, bne_iff_ne]
      exact (not_and_or).symm
    have hlast : loadFromConfig codec toUppercase [RecordState.entered cfg] = [record] := by
      simp [loadFromConfig, hread, Except.toOption]
    show addTo s.engine record = loadFromConfig codec toUppercase (_ ++ _)
    rw [loadFromConfig, List.filterMap_append]
    show _ = loadFromConfig codec toUppercase _ ++ loadFromConfig codec toUppercase _
    rw [loadFromConfig_filter hkept, hlast, ← h]
    rfl

theorem inStep_delete (h : InStep codec toUppercase s) {domain : Text}
    (hspelled : SpelledAlike codec toUppercase s (.delete domain))
    (hdelete : deleteRecord s domain = .ok s') : InStep codec toUppercase s' := by
  unfold deleteRecord at hdelete
  simp only at hdelete
  split at hdelete
  · cases hdelete
  · rename_i hremoved
    simp only [Bool.not_eq_true, Bool.not_eq_false'] at hremoved
    cases hdelete
    show (removeFrom s.engine _).1 = loadFromConfig codec toUppercase _
    rw [loadFromConfig_filter (fun r hr p hp => ?_), ← h]
    · rfl
    · have hiff := hspelled hremoved r hr p hp
      rw [Bool.eq_iff_iff]
      simp [hiff]

theorem inStep_step {call : RecordCall} (hspelled : SpelledAlike codec toUppercase s call)
    (h : InStep codec toUppercase s) (hstep : recordStep codec toUppercase s call = some s') :
    InStep codec toUppercase s' := by
  cases call with
  | add cfg =>
    cases hstep
    cases hadd : addRecord codec toUppercase s cfg with
    | error e => exact h
    | ok s' => exact inStep_add h hspelled hadd
  | delete domain =>
    cases hstep
    cases hdelete : deleteRecord s domain with
    | error e => exact h
    | ok s' => exact inStep_delete h hspelled hdelete

end

/-- Records loaded from any list, and any calls that find the entries they are about
spelled alike: what a restart would load from the list the calls have left gives the same
record for every name and type as the running records do. -/
theorem restart_changes_nothing (codec : Codec) (toUppercase : Text → Text)
    (cfgs : List CustomRecordConfig) (calls : List RecordCall) {s : RecordState}
    (hrun : Lts.exec (recordStep codec toUppercase) (.load codec toUppercase cfgs) calls = some s)
    (hspelled : Lts.Guarded (recordStep codec toUppercase) (SpelledAlike codec toUppercase)
      (.load codec toUppercase cfgs) calls) (name : Text) (qtype : UInt16) :
    findRecord s.engine name qtype =
      findRecord (loadFromConfig codec toUppercase s.config) name qtype := by
  have h : InStep codec toUppercase s :=
    Lts.inv_of_exec (recordStep codec toUppercase) (fun _ _ _ hg h hs => inStep_step hg h hs)
      (show InStep codec toUppercase (.load codec toUppercase cfgs) from rfl) hspelled hrun
  exact congrArg (findRecord · name qtype) h

namespace RouterLan

/-- Upper-casing of the letters record types are written with. -/
def upper (t : Text) : Text :=
  t.map fun c => if 'a' ≤ c ∧ c ≤ 'z' then Char.ofNat (c.toNat - 32) else c

/-- A record written by hand, and one for the same name from the panel. -/
def byHand : CustomRecordConfig := ⟨"Router.LAN.".toList, "A".toList, "192.168.1.1".toList, 300⟩
def fromPanel : CustomRecordConfig := ⟨"Router.lan".toList, "A".toList, "192.168.1.2".toList, 60⟩

end RouterLan

open RouterLan in
/-- Over a list in the panel's own spelling the record is replaced in both. -/
theorem restart_changes_nothing_router :
    let cfg : CustomRecordConfig := ⟨"router.lan".toList, "A".toList, "192.168.1.1".toList, 300⟩
    ∃ s, Lts.exec (recordStep (.ofRows []) upper) (.load (.ofRows []) upper [cfg])
        [.add fromPanel, .delete "other.lan".toList] = some s ∧
      findRecord s.engine "router.lan".toList 1 =
        findRecord (loadFromConfig (.ofRows []) upper s.config) "router.lan".toList 1 := by
  intro cfg
  refine ⟨_, rfl, restart_changes_nothing (.ofRows []) upper [cfg]
    [.add fromPanel, .delete "other.lan".toList] rfl ?_ _ _⟩
  decide

open RouterLan in
/-- With the record written by hand in another spelling both stay in the list, and a
restart brings the old address back. -/
theorem restart_brings_back_the_old_record :
    ∃ s, Lts.exec (recordStep (.ofRows []) upper) (.load (.ofRows []) upper [byHand])
        [.add fromPanel] = some s ∧
      (findRecord s.engine "router.lan".toList 1).map CustomRecord.rdata =
        some (.a ⟨192, 168, 1, 2⟩) ∧
      (findRecord (loadFromConfig (.ofRows []) upper s.config) "router.lan".toList 1).map
        CustomRecord.rdata = some (.a ⟨192, 168, 1, 1⟩) :=
  ⟨_, rfl, by decide, by decide⟩

end Ferrite.Api
