import Ferrite.Lib.Lts
import Ferrite.Proxy.Routing

/-!
# Fail closed

A rule with `fail_closed` promises that its connections are refused rather than sent out
directly when its egress is down.  `splice_through` keeps the promise for an egress that is
unhealthy or does not connect.  It knows nothing of an egress that could not be built: `compile`
leaves the rules out that lead to it, and their connections go by a wider rule or by none.
And it reads the snapshot three times: a reload in between may bring rules for clients whose
names were not looked up.

`fail_closed_or_dropped` says there is nothing else.  Reloads and the steps of any number of
connections come in any order; in every run in which each egress that a fail-closed rule needs
is taken over or builds, and each connection is routed with its client looked up or without
rules for clients, such a connection ends at its own egress or is dropped.  That a connection
from outside is carried only for a name a rule routes holds in every run.
-/

namespace Ferrite.Proxy

open Blocklist Dns Lts

variable {P : Type}

/-! ## Which egresses are active -/

namespace Active

/-- The egress of the last snapshot that an egress of the new config goes on with. -/
def takenOver (prev : Option Snapshot) (e : EgressConfig) : Option Egress :=
  prev.bind fun p =>
    ((p.egressConfigs.zip p.egresses).find? fun (pc, _) => pc.id == e.id &&
      egressRuntimeEq pc e).map Prod.snd

/-- What a round of the loop adds. -/
def made (machine : WgHost) (prev : Option Snapshot) (e : EgressConfig) : Option Egress :=
  if e.enabled then (takenOver prev e).or (Egress.fromConfig machine e).toOption else none

theorem step_eq (machine : WgHost) (prev : Option Snapshot) (a : Active) (e : EgressConfig) :
    step machine prev a e = (made machine prev e).elim a (a.push e) := by
  unfold step made
  cases e.enabled with
  | false => rfl
  | true =>
    simp only [Bool.not_true, Bool.false_eq_true, if_false, if_true]
    rw [← takenOver]
    cases takenOver prev e with
    | some existing => rfl
    | none => cases Egress.fromConfig machine e <;> rfl

end Active

theorem id_of_fromConfig {machine : WgHost} {e : EgressConfig} {egress : Egress}
    (h : Egress.fromConfig machine e = .ok egress) : egress.id = e.id := by
  unfold Egress.fromConfig at h
  split_ifs at h
  · cases h
    rfl
  · unfold socks5FromConfig at h
    split at h
    · split at h
      · cases h
        rfl
      · cases h
    · cases h
  · unfold wgFromConfig at h
    split at h
    · next text _ =>
      cases hparse : machine.parse text with
      | error e => simp [hparse, bind, Except.bind] at h
      | ok _ =>
        cases hchoice : backendChoice e with
        | error e => simp [hparse, hchoice, bind, Except.bind] at h
        | ok choice =>
          simp only [hparse, hchoice, bind, Except.bind] at h
          split at h
          · cases h
          · cases h
            rfl
          · cases h
            rfl
          · cases h
            rfl
          · cases h
            rfl
    · cases h
  · cases h
    rfl

/-- Each egress of the snapshot has the id of the config beside it. -/
def Snapshot.Own (snap : Snapshot) : Prop :=
  ∀ x ∈ snap.egressConfigs.zip snap.egresses, x.2.id = x.1.id

namespace Active

theorem id_of_made {machine : WgHost} {prev : Option Snapshot} (hprev : ∀ p ∈ prev, p.Own)
    {e : EgressConfig} {egress : Egress} (h : made machine prev e = some egress) :
    egress.id = e.id := by
  unfold made at h
  split_ifs at h
  rcases Option.or_eq_some_iff.1 h with h | ⟨-, h⟩
  · obtain ⟨p, hp, hold⟩ := Option.bind_eq_some_iff.1 h
    obtain ⟨⟨pc, found⟩, hfind, rfl⟩ := Option.map_eq_some_iff.1 hold
    have hsame := List.find?_some hfind
    rw [Bool.and_eq_true, beq_iff_eq] at hsame
    exact (hprev p hp _ (List.mem_of_find?_eq_some hfind)).trans hsame.1
  · cases hbuild : Egress.fromConfig machine e with
    | ok built =>
      rw [hbuild] at h
      cases h
      exact id_of_fromConfig hbuild
    | error _ =>
      rw [hbuild] at h
      cases h

/-- What the loop holds after some of the egresses. -/
structure Made (machine : WgHost) (prev : Option Snapshot) (es : List EgressConfig) (a : Active) :
    Prop where
  own : ∀ x ∈ a.egressConfigs.zip a.egresses, x.2.id = x.1.id
  active : ∀ id, (a.byId.lookup id).isSome = true ↔
    ∃ e ∈ es, (made machine prev e).isSome = true ∧ e.id = id

theorem made_ofConfig {machine : WgHost} {prev : Option Snapshot} (hprev : ∀ p ∈ prev, p.Own)
    (cfg : ProxyConfig) : Made machine prev cfg.egresses (ofConfig machine prev cfg) := by
  have hloop : ∀ (es done : List EgressConfig) (a : Active), Made machine prev done a →
      Made machine prev (done ++ es) (es.foldl (step machine prev) a) := by
    intro es
    induction es with
    | nil =>
      intro done a ha
      rw [List.append_nil]
      exact ha
    | cons e es ih =>
      intro done a ha
      rw [List.append_cons, List.foldl_cons, step_eq]
      refine ih (done ++ [e]) _ ?_
      cases hmade : made machine prev e with
      | none =>
        refine ⟨ha.own, fun id => ?_⟩
        rw [Option.elim_none, ha.active]
        simp [hmade]
      | some egress =>
        have hid := id_of_made hprev hmade
        refine ⟨fun x hx => ?_, fun id => ?_⟩
        · simp only [Option.elim_some, push] at hx
          rw [List.zip_append a.aligned, List.mem_append] at hx
          rcases hx with hx | hx
          · exact ha.own x hx
          · obtain rfl : x = (e, egress) := by simpa using hx
            exact hid
        · simp only [Option.elim_some, push]
          rw [List.lookup_cons]
          by_cases hsame : id = egress.id
          · subst hsame
            simp [hmade, hid]
          · have hother : ¬ e.id = id := fun h => hsame (by rw [hid, h])
            simp only [beq_eq_false_iff_ne.2 hsame, ha.active]
            simp [hmade, hother]
  exact hloop cfg.egresses [] empty ⟨fun x hx => (by cases hx), fun id => (by simp [empty])⟩

end Active

/-- The ids of the enabled egresses, each with a place. -/
def enabledIds (cfg : ProxyConfig) : List (Text × ℕ) :=
  ((cfg.egresses.filter EgressConfig.enabled).map EgressConfig.id).zipIdx

theorem isSome_lookup_enabledIds {cfg : ProxyConfig} {id : Text} :
    ((enabledIds cfg).lookup id).isSome = true ↔
      ∃ e ∈ cfg.egresses, e.enabled = true ∧ e.id = id := by
  have hzip : ∀ (l : List Text) (n : ℕ), ((l.zipIdx n).lookup id).isSome = true ↔ id ∈ l := by
    intro l
    induction l with
    | nil => simp
    | cons x l ih =>
      intro n
      rw [List.zipIdx_cons, List.lookup_cons]
      by_cases hx : id = x
      · simp [hx]
      · simp [beq_eq_false_iff_ne.2 hx, ih, hx]
  unfold enabledIds
  rw [hzip, List.mem_map]
  simp only [List.mem_filter]
  constructor
  · rintro ⟨e, ⟨he, hon⟩, hid⟩
    exact ⟨e, he, hon, hid⟩
  · rintro ⟨e, he, hon, hid⟩
    exact ⟨e, ⟨he, hon⟩, hid⟩

/-- Every fail-closed rule whose egress is enabled has one that is taken over or builds. -/
def AllBuild (machine : WgHost) (prev : Option Snapshot) (cfg : ProxyConfig) : Prop :=
  ∀ rule ∈ cfg.rules, rule.failClosed = true →
    (∃ e ∈ cfg.egresses, e.enabled = true ∧ e.id = rule.egress) →
    ∃ e ∈ cfg.egresses, e.enabled = true ∧ e.id = rule.egress ∧
      ((Active.takenOver prev e).isSome = true ∨
        (Egress.fromConfig machine e).toOption.isSome = true)

/-! ## The configured rule -/

/-- Of the rules whose egress is enabled, this one is the most specific for the host and the
client. -/
def Configured (env : Crates) (cfg : ProxyConfig) (host : Text) (who : Peer) (rule : RuleConfig) :
    Prop :=
  ∃ r, Wins env (enabledIds cfg) cfg.rules
    (CompiledRule.takes host who.clientIp who.clientMac who.device) rule r

/-- The snapshot has the rules of the config whose egress is active. -/
structure Compiled (env : Crates) (cfg : ProxyConfig) (snap : Snapshot) (byId : List (Text × ℕ)) :
    Prop where
  rules : snap.rules = compile env cfg.rules byId
  egress : ∀ id i, byId.lookup id = some i → snap.egresses[i]?.map Egress.id = some id
  enabled : ∀ id, (byId.lookup id).isSome = true → ((enabledIds cfg).lookup id).isSome = true

/-- Every fail-closed rule whose egress is enabled has an active one. -/
def Live (cfg : ProxyConfig) (byId : List (Text × ℕ)) : Prop :=
  ∀ rule ∈ cfg.rules, rule.failClosed = true → ((enabledIds cfg).lookup rule.egress).isSome = true →
    (byId.lookup rule.egress).isSome = true

theorem compiled_buildSnapshot {machine : WgHost} {prev : Option Snapshot}
    (hprev : ∀ p ∈ prev, p.Own) (env : Crates) (localIpv4 : Option Ipv4Addr) (cfg : ProxyConfig) :
    (buildSnapshot machine env localIpv4 cfg prev).Own ∧
      Compiled env cfg (buildSnapshot machine env localIpv4 cfg prev)
        (Active.ofConfig machine prev cfg).byId := by
  have hmade : Active.Made machine prev cfg.egresses (Active.ofConfig machine prev cfg) :=
    Active.made_ofConfig hprev cfg
  refine ⟨hmade.own, rfl, (Active.ofConfig machine prev cfg).indexed, fun id hid => ?_⟩
  obtain ⟨e, he, hsome, rfl⟩ := (hmade.active id).1 hid
  refine isSome_lookup_enabledIds.2 ⟨e, he, ?_, rfl⟩
  unfold Active.made at hsome
  by_contra hoff
  rw [if_neg hoff] at hsome
  cases hsome

theorem live_of_allBuild {machine : WgHost} {prev : Option Snapshot} (hprev : ∀ p ∈ prev, p.Own)
    {cfg : ProxyConfig} (h : AllBuild machine prev cfg) :
    Live cfg (Active.ofConfig machine prev cfg).byId := by
  intro rule hrule hclosed henabled
  obtain ⟨e, he, hon, hid, hbuilds⟩ := h rule hrule hclosed (isSome_lookup_enabledIds.1 henabled)
  refine ((Active.made_ofConfig hprev cfg).active _).2 ⟨e, he, ?_, hid⟩
  unfold Active.made
  rw [if_pos hon, Option.isSome_or]
  rcases hbuilds with h | h <;> simp [h]

/-- A rule is compiled alike wherever its egress is. -/
theorem compileRule_eq_map {env : Crates} {idx idx' : List (Text × ℕ)} {rule : RuleConfig} {i j : ℕ}
    (h : idx.lookup rule.egress = some i) (h' : idx'.lookup rule.egress = some j) :
    compileRule env idx rule = (compileRule env idx' rule).map fun r => { r with egressIdx := i } := by
  unfold compileRule
  rw [h, h']
  dsimp only
  cases rule.service with
  | some id =>
    dsimp only
    cases (findService env id).filter CatalogService.routable with
    | none => rfl
    | some svc =>
      rw [List.map_map]
      rfl
  | none =>
    dsimp only
    split_ifs
    · cases wildcardToRegex env rule.pattern <;> rfl
    · rfl

theorem failClosed_of_mem_compileRule {env : Crates} {idx : List (Text × ℕ)} {rule : RuleConfig}
    {r : CompiledRule} (h : r ∈ compileRule env idx rule) : r.failClosed = rule.failClosed := by
  unfold compileRule at h
  split at h
  · cases h
  · dsimp only at h
    split at h
    · split at h
      · cases h
      · obtain ⟨domain, -, rfl⟩ := List.mem_map.1 h
        rfl
    · split_ifs at h
      · split at h
        · rw [List.mem_singleton.1 h]
        · cases h
      · rw [List.mem_singleton.1 h]

section Routes

variable {env : Crates} {cfg : ProxyConfig} {snap : Snapshot} {byId : List (Text × ℕ)}
  (hsnap : Compiled env cfg snap byId)

include hsnap

/-- What is compiled for the snapshot is compiled for the config, but for the place of its
egress. -/
theorem exists_compiled {rule : RuleConfig} {r : CompiledRule} (h : r ∈ compileRule env byId rule) :
    ∃ r' ∈ compileRule env (enabledIds cfg) rule, r = { r' with egressIdx := r.egressIdx } := by
  have hidx := egress_of_mem_compileRule h
  obtain ⟨j, hj⟩ := Option.isSome_iff_exists.1 (hsnap.enabled rule.egress (by rw [hidx]; rfl))
  rw [compileRule_eq_map hidx hj] at h
  obtain ⟨r', hr', heq⟩ := List.mem_map.1 h
  exact ⟨r', hr', heq.symm⟩

/-- **The configured rule routes**, when its egress is active. -/
theorem route_of_configured {host : Text} {who : Peer} {rule : RuleConfig}
    (hrule : Configured env cfg host who rule) (hlive : (byId.lookup rule.egress).isSome = true) :
    ∃ r, snap.route host who.clientIp who.clientMac who.device = some r ∧
      r.failClosed = rule.failClosed ∧
      snap.egresses[r.egressIdx]?.map Egress.id = some rule.egress := by
  obtain ⟨r, hwins⟩ := hrule
  obtain ⟨earlier, later, before, after, hrules, hcompiled, hlt⟩ := hwins.first
  obtain ⟨i, hi⟩ := Option.isSome_iff_exists.1 hlive
  have hplace := egress_of_mem_compileRule hwins.mem.2
  have hown : compileRule env byId rule =
      before.map (fun r => { r with egressIdx := i }) ++ { r with egressIdx := i } ::
        after.map fun r => { r with egressIdx := i } := by
    rw [compileRule_eq_map hi hplace, hcompiled, List.map_append, List.map_cons]
  have hclosed : r.failClosed = rule.failClosed := failClosed_of_mem_compileRule hwins.mem.2
  -- what comes before it, or after it, did so among the rules of the config
  have hbest : FirstMatch.FirstBest (fun r => r.specificity.toNat)
      (CompiledRule.takes host who.clientIp who.clientMac who.device)
      (cfg.rules.flatMap (compileRule env byId)) { r with egressIdx := i } := by
    refine ⟨hwins.holds, earlier.flatMap (compileRule env byId) ++
      before.map (fun r => { r with egressIdx := i }),
      after.map (fun r => { r with egressIdx := i }) ++ later.flatMap (compileRule env byId),
      ?_, ?_, ?_⟩
    · rw [hrules, List.flatMap_append, List.flatMap_cons, hown]
      simp only [List.append_assoc, List.cons_append]
    · intro x hx htakes
      refine UInt32.lt_iff_toNat_lt.1 ?_
      rcases List.mem_append.1 hx with hx | hx
      · obtain ⟨rule', hrule', hx⟩ := List.mem_flatMap.1 hx
        obtain ⟨x', hx', heq⟩ := exists_compiled hsnap hx
        rw [heq] at htakes ⊢
        exact hlt x' (List.mem_append_left _ (List.mem_flatMap.2 ⟨rule', hrule', hx'⟩)) htakes
      · obtain ⟨x', hx', rfl⟩ := List.mem_map.1 hx
        exact hlt x' (List.mem_append_right _ hx') htakes
    · intro x hx htakes
      refine UInt32.le_iff_toNat_le.1 ?_
      have hall : ∃ rule' ∈ cfg.rules, x ∈ compileRule env byId rule' := by
        rcases List.mem_append.1 hx with hx | hx
        · exact ⟨rule, hwins.mem.1, by rw [hown]; simp [hx]⟩
        · obtain ⟨rule', hrule', hx⟩ := List.mem_flatMap.1 hx
          exact ⟨rule', by rw [hrules]; simp [hrule'], hx⟩
      obtain ⟨rule', hrule', hx⟩ := hall
      obtain ⟨x', hx', heq⟩ := exists_compiled hsnap hx
      rw [heq] at htakes ⊢
      exact hwins.highest x' (List.mem_flatMap.2 ⟨rule', hrule', hx'⟩) htakes
  refine ⟨{ r with egressIdx := i }, ?_, hclosed, hsnap.egress _ _ hi⟩
  unfold Snapshot.route
  rw [hsnap.rules]
  exact hbest.find?

/-- A rule that routes is one of the config, with an enabled egress. -/
theorem exists_rule_of_route {host ip : Text} {mac device : Option Text} {r : CompiledRule}
    (h : snap.route host ip mac device = some r) :
    ∃ rule ∈ cfg.rules, ∃ r' ∈ compileRule env (enabledIds cfg) rule,
      r'.takes host ip mac device = true := by
  unfold Snapshot.route at h
  rw [hsnap.rules] at h
  obtain ⟨rule, hrule, hr⟩ := List.mem_flatMap.1 (FirstMatch.mem_byRank.1 (List.mem_of_find?_eq_some h))
  obtain ⟨r', hr', heq⟩ := exists_compiled hsnap hr
  have htakes := List.find?_some h
  rw [heq] at htakes
  exact ⟨rule, hrule, r', hr', htakes⟩

end Routes

/-! ## Breakers -/

/-- `FAILURE_THRESHOLD` and `COOLDOWN_SECS`. -/
def failureThreshold : UInt32 := 3
def cooldownSecs : ℕ := 30

/-- `Breaker`. -/
structure Breaker where
  consecutiveFailures : UInt32
  openedUntil : ℕ

namespace Breaker

/-- `Breaker::default`. -/
def closed : Breaker := ⟨0, 0⟩

/-- `is_healthy`. -/
def isHealthy (b : Breaker) (now : ℕ) : Bool := b.openedUntil == 0 || b.openedUntil ≤ now

/-- `record_success`. -/
def recordSuccess (_ : Breaker) : Breaker := ⟨0, 0⟩

/-- `record_failure`. -/
def recordFailure (b : Breaker) (now : ℕ) : Breaker :=
  let n := b.consecutiveFailures + 1
  ⟨n, if failureThreshold ≤ n then now + cooldownSecs else b.openedUntil⟩

end Breaker

/-- `Egress::is_healthy`, where `tunnelUp` says whether the tunnel has shaken hands. -/
def Egress.isHealthy (tunnelUp : Bool) : Egress → Bool
  | .wireguard .. => tunnelUp
  | .direct _ | .socks5 .. | .directEvasion .. => true

/-! ## Connections -/

/-- How a connection ends: dropped, sent out by `direct_connect`, or through an egress. -/
inductive End where
  | dropped
  | direct (connected : Bool)
  | carried (egress : Egress)
deriving DecidableEq

/-- How far `splice_through` has got. -/
inductive Stage where
  | accepted
  | identified
  | admitted
  | unrouted
  | routed (egress : Egress) (failClosed : Bool)
  | done (e : End)
deriving DecidableEq

/-- A connection: what was looked up of its client, and, for the statements only, what there
was to look up and the config it was routed under. -/
structure Conn where
  addr : Option IpAddr
  host : Text
  peer : Peer
  identity : Peer
  config : ProxyConfig
  stage : Stage

/-- `away`: the client is not at home. -/
def Conn.away (c : Conn) : Bool := c.addr.any fun ip => !isLocal ip

/-- Everything there is to look up of a client. -/
def identityOf (registry : Registry) (addr : Option IpAddr) : Peer :=
  let device := addr.bind registry.deviceAt
  { clientIp := (addr.map ipToString).getD []
    clientMac := (device.bind registry.ownerMac).or (addr.bind registry.getMac)
    device := device }

/-- What a connect comes to: `ConnectErrorKind` tells a transport that failed from a
destination that did. -/
inductive Attempt where
  | ok
  | egress
  | destination
deriving DecidableEq

/-- The proxy: its config, the snapshot made of it, the breakers and the connections. -/
structure ProxyState where
  cfg : ProxyConfig
  snap : Snapshot
  breakers : Text → Breaker
  conns : List Conn

/-- What can happen.  A connection takes its steps one by one, each with the snapshot and the
lists of its time; how the machine builds egresses and what a connect comes to is open. -/
inductive ProxyAct (P : Type) where
  | reload (machine : WgHost) (localIpv4 : Option Ipv4Addr) (cfg : ProxyConfig)
  | accept (addr : Option IpAddr) (host : Text)
  | identify (i : ℕ) (lists : Dns.Lists P) (registry : Registry)
  | letIn (i : ℕ) (lists : Dns.Lists P)
  | route (i : ℕ)
  | connect (i now : ℕ) (tunnelUp probeUnhealthy : Bool) (attempt : Attempt) (connected : Bool)

namespace ProxyState

/-- `is_egress_healthy`. -/
def isEgressHealthy (s : ProxyState) (now : ℕ) (tunnelUp probeUnhealthy : Bool) (id : Text) : Bool :=
  let breakerOk := (s.breakers id).isHealthy now
  let intrinsicOk := ((s.snap.egresses.find? fun e => e.id == id).map (Egress.isHealthy tunnelUp)).getD
    true
  breakerOk && intrinsicOk && !probeUnhealthy

/-- `note_success` and `note_failure`. -/
def note (s : ProxyState) (id : Text) (f : Breaker → Breaker) : ProxyState :=
  { s with breakers := Function.update s.breakers id (f (s.breakers id)) }

/-- A connection has taken a step. -/
def put (s : ProxyState) (i : ℕ) (c : Conn) : ProxyState := { s with conns := s.conns.set i c }

end ProxyState

namespace Conn

/-- Who is it?  The client is looked up when something keys on it. -/
def identify (c : Conn) (snap : Snapshot) (lists : Dns.Lists P) (registry : Registry) : Conn :=
  { c with
    peer := peerOf lists registry snap.hasClientRules c.addr
    identity := identityOf registry c.addr
    stage := .identified }

/-- Is it let in, and is its host blocked? -/
def letIn (c : Conn) (snap : Snapshot) (lists : Dns.Lists P) : Conn :=
  if !Proxy.admitted c.away c.peer.device snap.routesAway ||
      hostBlockedForClient lists c.host c.peer.clientIp c.peer.clientMac c.peer.device then
    { c with stage := .done .dropped }
  else { c with stage := .admitted }

/-- Which egress? -/
def route (c : Conn) (cfg : ProxyConfig) (snap : Snapshot) : Conn :=
  let decision := (snap.route c.host c.peer.clientIp c.peer.clientMac c.peer.device).bind fun r =>
    snap.egresses[r.egressIdx]?.map fun egress => (egress, r.failClosed)
  let stage : Stage := match decision with
    | some (egress, failClosed) => .routed egress failClosed
    | none => if c.away then .done .dropped else .unrouted
  { c with config := cfg, stage := stage }

/-- How does it end, with this egress? -/
def endThrough (healthy failClosed : Bool) (egress : Egress) (attempt : Attempt) (connected : Bool) :
    End :=
  if failClosed && !healthy then .dropped
  else if attempt = .ok then .carried egress
  else if failClosed then .dropped
  else .direct connected

end Conn

/-- The stage `splice_through` gets to, without its connect. -/
def Splice.stage : Splice → Stage
  | .dropped => .done .dropped
  | .direct => .unrouted
  | .routed egress failClosed _ => .routed egress failClosed

/-- With nothing in between, the steps decide what `splice_through` does. -/
theorem steps_eq_spliceThrough (c : Conn) (cfg : ProxyConfig) (snap : Snapshot) (lists : Dns.Lists P)
    (registry : Registry) :
    let c' := (c.identify snap lists registry).letIn snap lists
    (if c'.stage = .admitted then (c'.route cfg snap).stage else c'.stage) =
      (spliceThrough lists registry snap c.addr c.host).stage := by
  intro c'
  let peer := peerOf lists registry snap.hasClientRules c.addr
  by_cases hdropped : (!Proxy.admitted (c.addr.any fun ip => !isLocal ip) peer.device snap.routesAway ||
      hostBlockedForClient lists c.host peer.clientIp peer.clientMac peer.device) = true
  · have hc' : c' = { c.identify snap lists registry with stage := .done .dropped } := if_pos hdropped
    have hsplice : spliceThrough lists registry snap c.addr c.host = .dropped := if_pos hdropped
    rw [hc', hsplice]
    rfl
  · have hc' : c' = { c.identify snap lists registry with stage := .admitted } := if_neg hdropped
    rw [hc', if_pos rfl, spliceThrough]
    dsimp only
    rw [if_neg hdropped]
    have hunrouted : (if c.away = true then Stage.done .dropped else .unrouted) =
        Splice.stage (if c.away = true then .dropped else .direct) := by
      cases c.away <;> rfl
    simp only [Conn.route, Conn.identify]
    cases snap.route c.host peer.clientIp peer.clientMac peer.device with
    | none =>
      exact hunrouted
    | some r =>
      rw [Option.bind_some, Option.bind_some]
      cases snap.egresses[r.egressIdx]? with
      | none =>
        exact hunrouted
      | some egress => rfl

/-- One step. -/
def proxyStep (env : Crates) (s : ProxyState) : ProxyAct P → Option ProxyState
  | .reload machine localIpv4 cfg =>
    some { s with cfg := cfg, snap := buildSnapshot machine env localIpv4 cfg (some s.snap) }
  | .accept addr host =>
    some { s with conns := s.conns ++ [⟨addr, host, ⟨[], none, none⟩, ⟨[], none, none⟩, s.cfg,
      .accepted⟩] }
  | .identify i lists registry => do
    let c ← s.conns[i]?
    match c.stage with
    | .accepted => some (s.put i (c.identify s.snap lists registry))
    | _ => none
  | .letIn i lists => do
    let c ← s.conns[i]?
    match c.stage with
    | .identified => some (s.put i (c.letIn s.snap lists))
    | _ => none
  | .route i => do
    let c ← s.conns[i]?
    match c.stage with
    | .admitted => some (s.put i (c.route s.cfg s.snap))
    | _ => none
  | .connect i now tunnelUp probeUnhealthy attempt connected => do
    let c ← s.conns[i]?
    match c.stage with
    | .unrouted => some (s.put i { c with stage := .done (.direct connected) })
    | .routed egress failClosed =>
      let healthy := s.isEgressHealthy now tunnelUp probeUnhealthy egress.id
      let e := Conn.endThrough healthy failClosed egress attempt connected
      let s' := s.put i { c with stage := .done e }
      -- the breaker hears of a connect that was tried, and of its transport only
      if failClosed && !healthy then some s'
      else
        match attempt with
        | .ok => some (s'.note egress.id Breaker.recordSuccess)
        | .egress => some (s'.note egress.id fun b => b.recordFailure now)
        | .destination => some s'
    | _ => none

/-- `from_config`. -/
def ProxyState.start (machine : WgHost) (env : Crates) (localIpv4 : Option Ipv4Addr)
    (cfg : ProxyConfig) : ProxyState :=
  ⟨cfg, buildSnapshot machine env localIpv4 cfg none, fun _ => .closed, []⟩

/-- The steps of a connection. -/
inductive Conn.Moves (s : ProxyState) : ProxyAct P → Conn → Conn → Prop where
  | identify {i : ℕ} {lists : Dns.Lists P} {registry : Registry} {c : Conn} :
      Moves s (.identify i lists registry) c (c.identify s.snap lists registry)
  | letIn {i : ℕ} {lists : Dns.Lists P} {c : Conn} : Moves s (.letIn i lists) c (c.letIn s.snap lists)
  | route {i : ℕ} {c : Conn} : s.conns[i]? = some c → c.stage = .admitted →
      Moves s (.route i) c (c.route s.cfg s.snap)
  | direct {i now : ℕ} {tunnelUp probeUnhealthy : Bool} {attempt : Attempt} {connected : Bool}
      {c : Conn} : c.stage = .unrouted →
      Moves s (.connect i now tunnelUp probeUnhealthy attempt connected) c
        { c with stage := .done (.direct connected) }
  | through {i now : ℕ} {tunnelUp probeUnhealthy : Bool} {attempt : Attempt} {connected : Bool}
      {c : Conn} {egress : Egress} {failClosed healthy : Bool} :
      c.stage = .routed egress failClosed →
      Moves s (.connect i now tunnelUp probeUnhealthy attempt connected) c
        { c with stage := .done (endThrough healthy failClosed egress attempt connected) }

/-- **What a step can do.**  The snapshot is that of a new config, a connection comes in, or
one of them moves. -/
theorem proxyStep_cases {env : Crates} {s s' : ProxyState} {a : ProxyAct P}
    (h : proxyStep env s a = some s') :
    (∃ machine localIpv4 cfg, a = .reload machine localIpv4 cfg ∧ s' = { s with
      cfg := cfg, snap := buildSnapshot machine env localIpv4 cfg (some s.snap) }) ∨
    (s'.cfg = s.cfg ∧ s'.snap = s.snap ∧ ∀ c' ∈ s'.conns, c' ∈ s.conns ∨ c'.stage = .accepted ∨
      ∃ c ∈ s.conns, c.Moves s a c') := by
  have hput : ∀ {i : ℕ} {c c' : Conn}, s.conns[i]? = some c → c.Moves s a c' →
      ∀ x ∈ s.conns.set i c', x ∈ s.conns ∨ x.stage = .accepted ∨ ∃ c ∈ s.conns, c.Moves s a x := by
    intro i c c' hc hmoves x hx
    rcases List.mem_or_eq_of_mem_set hx with hx | rfl
    · exact .inl hx
    · exact .inr (.inr ⟨c, List.mem_of_getElem? hc, hmoves⟩)
  cases a with
  | reload machine localIpv4 cfg =>
    cases h
    exact .inl ⟨machine, localIpv4, cfg, rfl, rfl⟩
  | accept addr host =>
    cases h
    refine .inr ⟨rfl, rfl, fun c' hc' => ?_⟩
    rcases List.mem_append.1 hc' with hc' | hc'
    · exact .inl hc'
    · rw [List.mem_singleton.1 hc']
      exact .inr (.inl rfl)
  | identify i lists registry =>
    obtain ⟨c, hc, h⟩ := Option.bind_eq_some_iff.1 h
    split at h
    · cases h
      exact .inr ⟨rfl, rfl, hput hc .identify⟩
    · cases h
  | letIn i lists =>
    obtain ⟨c, hc, h⟩ := Option.bind_eq_some_iff.1 h
    split at h
    · cases h
      exact .inr ⟨rfl, rfl, hput hc .letIn⟩
    · cases h
  | route i =>
    obtain ⟨c, hc, h⟩ := Option.bind_eq_some_iff.1 h
    split at h
    · next hstage =>
      cases h
      exact .inr ⟨rfl, rfl, hput hc (.route hc hstage)⟩
    · cases h
  | connect i now tunnelUp probeUnhealthy attempt connected =>
    obtain ⟨c, hc, h⟩ := Option.bind_eq_some_iff.1 h
    split at h
    · next hstage =>
      cases h
      exact .inr ⟨rfl, rfl, hput hc (.direct hstage)⟩
    · next hstage =>
      right
      dsimp only at h
      split_ifs at h
      · cases h
        exact ⟨rfl, rfl, hput hc (.through hstage)⟩
      · split at h
        · cases h
          exact ⟨rfl, rfl, hput hc (.through hstage)⟩
        · cases h
          exact ⟨rfl, rfl, hput hc (.through hstage)⟩
        · cases h
          exact ⟨rfl, rfl, hput hc (.through hstage)⟩
    · cases h

/-! ## From outside, only for a name a rule routes -/

/-- A rule of the config takes the host for the client, and has an enabled egress. -/
def Conn.Taken (env : Crates) (c : Conn) : Prop :=
  ∃ rule ∈ c.config.rules, ∃ r ∈ compileRule env (enabledIds c.config) rule,
    r.takes c.host c.peer.clientIp c.peer.clientMac c.peer.device = true

/-- From outside the connection has got so far only for a name a rule routes. -/
def Conn.AwayTaken (env : Crates) (c : Conn) : Prop :=
  match c.stage with
  | .routed .. => c.Taken env
  | .unrouted => c.away = false
  | .done e => e = .dropped ∨ c.away = false ∨ c.Taken env
  | .accepted | .identified | .admitted => True

/-- The snapshot is one of the config. -/
structure ProxyState.Compiled (env : Crates) (s : ProxyState) : Prop where
  own : s.snap.Own
  compiled : ∃ byId, Proxy.Compiled env s.cfg s.snap byId

theorem compiled_step {env : Crates} {s s' : ProxyState} {a : ProxyAct P} (h : s.Compiled env)
    (hstep : proxyStep env s a = some s') : s'.Compiled env := by
  rcases proxyStep_cases hstep with ⟨machine, localIpv4, cfg, rfl, rfl⟩ | ⟨hcfg, hsnap, -⟩
  · have hprev : ∀ p ∈ some s.snap, p.Own := by
      intro p hp
      cases hp
      exact h.own
    have hbuilt : (buildSnapshot machine env localIpv4 cfg (some s.snap)).Own ∧ _ :=
      compiled_buildSnapshot hprev env localIpv4 cfg
    exact ⟨hbuilt.1, _, hbuilt.2⟩
  · refine ⟨hsnap ▸ h.own, ?_⟩
    rw [hcfg, hsnap]
    exact h.compiled

theorem awayTaken_moves {env : Crates} {s : ProxyState} (hs : s.Compiled env) {a : ProxyAct P}
    {c c' : Conn} (h : c.AwayTaken env) (hmoves : c.Moves s a c') : c'.AwayTaken env := by
  cases hmoves with
  | identify => trivial
  | letIn =>
    unfold Conn.letIn
    split_ifs
    · exact .inl rfl
    · trivial
  | route hc hstage =>
    obtain ⟨byId, hcompiled⟩ := hs.compiled
    unfold Conn.AwayTaken Conn.route
    dsimp only
    cases hroute : s.snap.route c.host c.peer.clientIp c.peer.clientMac c.peer.device with
    | some r =>
      have hr : r ∈ s.snap.rules := List.mem_of_find?_eq_some hroute
      rw [Option.bind_some, List.getElem?_eq_getElem (s.snap.indexed r hr)]
      exact exists_rule_of_route hcompiled hroute
    | none =>
      rw [Option.bind_none]
      cases haway : c.away with
      | true => exact .inl rfl
      | false => exact haway
  | direct hstage =>
    unfold Conn.AwayTaken at h
    rw [hstage] at h
    exact .inr (.inl h)
  | through hstage =>
    unfold Conn.AwayTaken at h
    rw [hstage] at h
    exact .inr (.inr h)

theorem awayTaken_step {env : Crates} {s s' : ProxyState} {a : ProxyAct P}
    (h : s.Compiled env ∧ ∀ c ∈ s.conns, c.AwayTaken env) (hstep : proxyStep env s a = some s') :
    s'.Compiled env ∧ ∀ c ∈ s'.conns, c.AwayTaken env := by
  refine ⟨compiled_step h.1 hstep, fun c' hc' => ?_⟩
  rcases proxyStep_cases hstep with ⟨machine, localIpv4, cfg, rfl, rfl⟩ | ⟨-, -, hconns⟩
  · exact h.2 c' hc'
  · rcases hconns c' hc' with hold | hnew | ⟨c, hc, hmoves⟩
    · exact h.2 c' hold
    · unfold Conn.AwayTaken
      rw [hnew]
      trivial
    · exact awayTaken_moves h.1 (h.2 c hc) hmoves

/-! ## Fail closed, never direct -/

/-- Carried by the egress of the rule, or dropped. -/
def End.Kept (rule : RuleConfig) (e : End) : Prop :=
  e = .dropped ∨ ∃ egress, e = .carried egress ∧ egress.id = rule.egress

/-- The connection goes by its configured rule, if that one is fail-closed. -/
def Conn.Closed (env : Crates) (c : Conn) : Prop :=
  ∀ rule, Configured env c.config c.host c.identity rule → rule.failClosed = true →
    match c.stage with
    | .routed egress failClosed => failClosed = true ∧ egress.id = rule.egress
    | .unrouted => False
    | .done e => e.Kept rule
    | .accepted | .identified | .admitted => True

/-- The egresses build, and the client is known where rules ask for it: every egress a
fail-closed rule needs is taken over or builds, and a connection is routed with everything
looked up of its client, or by a snapshot without rules for clients. -/
def Builds (s : ProxyState) : ProxyAct P → Prop
  | .reload machine _ cfg => AllBuild machine (some s.snap) cfg
  | .route i => ∀ c ∈ s.conns[i]?, c.peer = c.identity ∨ s.snap.hasClientRules = false
  | _ => True

/-- The snapshot has every fail-closed rule of the config. -/
structure ProxyState.Alive (env : Crates) (s : ProxyState) : Prop where
  own : s.snap.Own
  live : ∃ byId, Proxy.Compiled env s.cfg s.snap byId ∧ Live s.cfg byId

theorem alive_step {env : Crates} {s s' : ProxyState} {a : ProxyAct P} (hbuilds : Builds s a)
    (h : s.Alive env) (hstep : proxyStep env s a = some s') : s'.Alive env := by
  rcases proxyStep_cases hstep with ⟨machine, localIpv4, cfg, rfl, rfl⟩ | ⟨hcfg, hsnap, -⟩
  · have hprev : ∀ p ∈ some s.snap, p.Own := by
      intro p hp
      cases hp
      exact h.own
    have hbuilt : (buildSnapshot machine env localIpv4 cfg (some s.snap)).Own ∧ _ :=
      compiled_buildSnapshot hprev env localIpv4 cfg
    exact ⟨hbuilt.1, _, hbuilt.2, live_of_allBuild hprev hbuilds⟩
  · refine ⟨hsnap ▸ h.own, ?_⟩
    rw [hcfg, hsnap]
    exact h.live

theorem kept_endThrough {rule : RuleConfig} {egress : Egress} (h : egress.id = rule.egress)
    (healthy : Bool) (attempt : Attempt) (connected : Bool) :
    (Conn.endThrough healthy true egress attempt connected).Kept rule := by
  unfold Conn.endThrough
  split_ifs with hdown hok hclosed
  · exact .inl rfl
  · exact .inr ⟨egress, rfl, h⟩
  · exact .inl rfl
  · exact absurd rfl hclosed

/-- **One connection** goes by its configured rule from the moment it is routed. -/
theorem closed_moves {env : Crates} {s : ProxyState} (hs : s.Alive env) {a : ProxyAct P}
    (hbuilds : Builds s a) {c c' : Conn} (h : c.Closed env) (hmoves : c.Moves s a c') :
    c'.Closed env := by
  intro rule hrule hclosed
  cases hmoves with
  | identify => trivial
  | letIn =>
    unfold Conn.letIn
    split_ifs
    · exact .inl rfl
    · trivial
  | @route i _ hc hstage =>
    obtain ⟨byId, hcompiled, hlive⟩ := hs.live
    have hrule : Configured env s.cfg c.host c.identity rule := hrule
    obtain ⟨w, hwins⟩ := id hrule
    have hactive : (byId.lookup rule.egress).isSome = true := by
      refine hlive rule hwins.mem.1 hclosed ?_
      rw [egress_of_mem_compileRule hwins.mem.2]
      rfl
    obtain ⟨r, hroute, hfail, hid⟩ := route_of_configured hcompiled hrule hactive
    have hsame : s.snap.route c.host c.peer.clientIp c.peer.clientMac c.peer.device = some r := by
      rcases hbuilds c hc with hknown | hunscoped
      · rw [hknown]
        exact hroute
      · rw [← hroute]
        exact Snapshot.route_of_unscoped hunscoped ..
    obtain ⟨egress, hegress, hid⟩ := Option.map_eq_some_iff.1 hid
    unfold Conn.route
    dsimp only
    rw [hsame, Option.bind_some, hegress]
    exact ⟨hfail.trans hclosed, hid⟩
  | direct hstage =>
    have hnone := h rule hrule hclosed
    rw [hstage] at hnone
    exact hnone.elim
  | @through _ _ _ _ attempt connected _ egress failClosed healthy hstage =>
    have hown := h rule hrule hclosed
    rw [hstage] at hown
    obtain ⟨rfl, hid⟩ := hown
    exact kept_endThrough hid healthy attempt connected

theorem closed_step {env : Crates} {s s' : ProxyState} {a : ProxyAct P} (hbuilds : Builds s a)
    (h : s.Alive env ∧ ∀ c ∈ s.conns, c.Closed env) (hstep : proxyStep env s a = some s') :
    s'.Alive env ∧ ∀ c ∈ s'.conns, c.Closed env := by
  refine ⟨alive_step hbuilds h.1 hstep, fun c' hc' => ?_⟩
  rcases proxyStep_cases hstep with ⟨machine, localIpv4, cfg, rfl, rfl⟩ | ⟨-, -, hconns⟩
  · exact h.2 c' hc'
  · rcases hconns c' hc' with hold | hnew | ⟨c, hc, hmoves⟩
    · exact h.2 c' hold
    · intro rule _ _
      rw [hnew]
      trivial
    · exact closed_moves h.1 hbuilds (h.2 c hc) hmoves

/-- **Fail closed.**  Reloads and connections in any order: if the egresses build and clients
are known, a connection whose most specific rule is fail-closed is carried by the egress of
that rule or dropped.  In every run a connection from outside is carried only for a name that
a rule routes. -/
theorem fail_closed_or_dropped (machine : WgHost) (env : Crates) (localIpv4 : Option Ipv4Addr)
    (cfg : ProxyConfig) {as : List (ProxyAct P)} {s : ProxyState}
    (hrun : exec (proxyStep env) (.start machine env localIpv4 cfg) as = some s)
    {c : Conn} (hc : c ∈ s.conns) {e : End} (hdone : c.stage = .done e) :
    (AllBuild machine none cfg →
      Guarded (proxyStep env) Builds (.start machine env localIpv4 cfg) as →
      ∀ rule, Configured env c.config c.host c.identity rule → rule.failClosed = true →
        e = .dropped ∨ ∃ egress, e = .carried egress ∧ egress.id = rule.egress) ∧
    (c.away = true → e ≠ .dropped →
      ∃ rule ∈ c.config.rules, ∃ r ∈ compileRule env (enabledIds c.config) rule,
        r.takes c.host c.peer.clientIp c.peer.clientMac c.peer.device = true) := by
  have hnone : ∀ p ∈ (none : Option Snapshot), p.Own := fun p hp => by cases hp
  have hbuilt : (buildSnapshot machine env localIpv4 cfg none).Own ∧ _ :=
    compiled_buildSnapshot hnone env localIpv4 cfg
  constructor
  · intro hbuild hguard rule hrule hclosed
    have hstart : (ProxyState.start machine env localIpv4 cfg).Alive env ∧
        ∀ c ∈ (ProxyState.start machine env localIpv4 cfg).conns, c.Closed env :=
      ⟨⟨hbuilt.1, _, hbuilt.2, live_of_allBuild hnone hbuild⟩, fun c hc => (by cases hc)⟩
    have hinv : s.Alive env ∧ ∀ c ∈ s.conns, c.Closed env :=
      inv_of_exec (proxyStep env) (fun _ _ _ hbuilds hs hstep => closed_step hbuilds hs hstep) hstart
        hguard hrun
    have hkept := hinv.2 c hc rule hrule hclosed
    rw [hdone] at hkept
    exact hkept
  · intro haway hcarried
    have hstart : (ProxyState.start machine env localIpv4 cfg).Compiled env ∧
        ∀ c ∈ (ProxyState.start machine env localIpv4 cfg).conns, c.AwayTaken env :=
      ⟨⟨hbuilt.1, _, hbuilt.2⟩, fun c hc => (by cases hc)⟩
    have hinv : s.Compiled env ∧ ∀ c ∈ s.conns, c.AwayTaken env :=
      inv_of_exec_all (proxyStep env) (fun _ _ _ hs hstep => awayTaken_step hs hstep) hstart hrun
    have htaken := hinv.2 c hc
    unfold Conn.AwayTaken at htaken
    rw [hdone] at htaken
    rcases htaken with hdropped | hlocal | htaken
    · exact absurd hdropped hcarried
    · rw [hlocal] at haway
      cases haway
    · exact htaken

namespace Tunnel

/-- One name goes through a tunnel of the kernel's, or not at all. -/
def rule : RuleConfig := ⟨['a'], none, ['n'], true, []⟩

def egress : EgressConfig :=
  ⟨['n'], [], true, "wireguard".toList, none, none, none, none, some ['c'], none, none, none,
    some "kernel".toList⟩

def cfg : ProxyConfig := ⟨true, none, none, false, none, none, [egress], [rule]⟩

/-- A machine whose kernel carries tunnels, or not. -/
def machine (kernel : Bool) : WgHost := ⟨fun _ => .ok (), if kernel then .ok () else .error []⟩

/-- The proxy starts, and somebody at home connects to the name. -/
def start (kernel : Bool) : ProxyState := .start (machine kernel) Phone.crates none cfg

def acts : List (ProxyAct CompiledProfile) :=
  [.accept (some (.v4 ⟨192, 168, 1, 9⟩)) ['a'], .identify 0 Phone.ctx.lists Phone.registry,
    .letIn 0 Phone.ctx.lists, .route 0, .connect 0 0 true false .ok true]

/-- The connection of a run has ended so. -/
def endsWith (kernel : Bool) (e : End) : Bool :=
  (exec (proxyStep Phone.crates) (start kernel) acts).any fun s => s.conns.any fun c =>
    decide (c.stage = .done e) && decide (c.host = ['a']) && decide (c.config.egresses = [egress]) &&
      decide (c.config.rules = [rule])

/-- The rule is the one for the name, whoever asks. -/
theorem configured {c : ProxyConfig} (hegresses : c.egresses = [egress]) (hrules : c.rules = [rule])
    (who : Peer) : Configured Phone.crates c ['a'] who rule := by
  have hids : enabledIds c = [(['n'], 0)] := by
    unfold enabledIds
    rw [hegresses]
    rfl
  have hcompiled : compileRule Phone.crates (enabledIds c) rule =
      [⟨.exact ['a'], ['a'], 0, true, [], labelCount ['a'] * 2 + 1⟩] := by
    rw [hids]
    rfl
  refine ⟨⟨.exact ['a'], ['a'], 0, true, [], labelCount ['a'] * 2 + 1⟩, rfl, ?_, [], [], [], [], hrules,
    hcompiled, by simp⟩
  intro r' hr' _
  rw [hrules, List.flatMap_cons, hcompiled] at hr'
  obtain rfl : r' = _ := by simpa using hr'
  exact UInt32.le_refl _

theorem exists_of_endsWith {kernel : Bool} {e : End} (h : endsWith kernel e = true) :
    ∃ s, exec (proxyStep Phone.crates) (start kernel) acts = some s ∧
      ∃ c ∈ s.conns, c.stage = .done e ∧
        Configured Phone.crates c.config c.host c.identity rule := by
  obtain ⟨s, hs, hconns⟩ := (Option.any_eq_true ..).1 h
  obtain ⟨c, hc, htest⟩ := List.any_eq_true.1 hconns
  simp only [Bool.and_eq_true, decide_eq_true_eq] at htest
  obtain ⟨⟨⟨hstage, hhost⟩, hegresses⟩, hrules⟩ := htest
  exact ⟨s, hs, c, hc, hstage, hhost ▸ configured hegresses hrules c.identity⟩

theorem allBuild : AllBuild (machine true) none cfg := by
  intro rule' hrule' _ _
  obtain rfl := List.mem_singleton.1 hrule'
  exact ⟨egress, List.mem_singleton.2 rfl, rfl, rfl, .inr (by decide)⟩

/-- No step of a connection changes the snapshot. -/
theorem snap_of_step {s s' : ProxyState} {a : ProxyAct CompiledProfile}
    (h : proxyStep Phone.crates s a = some s')
    (ha : ∀ machine localIpv4 cfg, a ≠ .reload machine localIpv4 cfg) : s'.snap = s.snap := by
  rcases proxyStep_cases h with ⟨machine, localIpv4, cfg, rfl, -⟩ | ⟨-, hsnap, -⟩
  · exact absurd rfl (ha machine localIpv4 cfg)
  · exact hsnap

theorem builds : Guarded (proxyStep Phone.crates) Builds (start true) acts := by
  have hunscoped : (start true).snap.hasClientRules = false := by decide
  refine ⟨trivial, fun s₁ h₁ => ⟨trivial, fun s₂ h₂ => ⟨trivial, fun s₃ h₃ => ⟨fun c hc => .inr ?_,
    fun s₄ _ => ⟨trivial, fun s₅ _ => trivial⟩⟩⟩⟩⟩
  rw [snap_of_step h₃ (by simp), snap_of_step h₂ (by simp), snap_of_step h₁ (by simp)]
  exact hunscoped

end Tunnel

open Tunnel in
/-- With a tunnel the connection goes through it. -/
theorem fail_closed_through_tunnel :
    ∃ s, exec (proxyStep Phone.crates) (start true) acts = some s ∧
      ∃ c ∈ s.conns, ∃ e, c.stage = .done e ∧
        (e = .dropped ∨ ∃ egress, e = .carried egress ∧ egress.id = ['n']) := by
  have hends : endsWith true (.carried (.wireguard ['n'] .kernel)) = true := by decide +kernel
  obtain ⟨s, hrun, c, hc, hdone, hrule⟩ := exists_of_endsWith hends
  exact ⟨s, hrun, c, hc, _, hdone, (fail_closed_or_dropped (machine true) Phone.crates none cfg hrun hc
    hdone).1 allBuild builds rule hrule rfl⟩

open Tunnel in
/-- Without one in the kernel the egress is not built, and the connection goes out directly. -/
theorem unbuilt_goes_direct :
    cfg.enabled = true ∧ rule.failClosed = true ∧
      (∃ e ∈ cfg.egresses, e.enabled = true ∧ e.id = rule.egress) ∧
    ∃ s, exec (proxyStep Phone.crates) (start false) acts = some s ∧
      ∃ c ∈ s.conns, Configured Phone.crates c.config c.host c.identity rule ∧
        c.stage = .done (.direct true) := by
  have hends : endsWith false (.direct true) = true := by decide +kernel
  obtain ⟨s, hrun, c, hc, hdone, hrule⟩ := exists_of_endsWith hends
  exact ⟨rfl, rfl, ⟨egress, List.mem_singleton.2 rfl, rfl, rfl⟩, s, hrun, c, hc, hrule, hdone⟩

end Ferrite.Proxy
