import Ferrite.Lib.Lts
import Ferrite.Api.Update

/-!
# A live change and a restart

`AppState::init` hands the configuration to the components by one piece of code, and
`update_settings` hands each change on by another.  Here the two are compared, over any
number of changes: what queries are decided by in the running box, and in the box a
restart would build from the configuration that is live by then.

They agree on everything but the zones.  The engine is told its local zones at startup
only, while the router gets new ones at once (`new_zone_is_not_exempt`); and zones that
`main` detected are gone from the router after a change of the upstreams.

What is proved:

* `step_follows` — what one change keeps;
* `live_matches_restart_iff` — after every run of changes, exactly when the two agree.
-/

namespace Ferrite.Api

open App Upstream Dns Lts Setting

/-! ## What queries are decided by -/

/-- What the settings decide queries by. -/
structure Inputs where
  ttlBounds : ℕ × ℕ
  staleWindow : ℕ
  clientTtl : UInt32
  switches : DnsSwitches
  /-- Whether there are access lists, and the lists. -/
  access : Bool × Acl
  rateLimit : UInt32
  blockAnswer : BlockAnswer
  /-- Whether any client is bypassed, and which. -/
  bypass : Bool × Finset Text
  /-- What the router sends elsewhere. -/
  zones : List ZoneEntry
  /-- What a profile's default-deny leaves alone. -/
  localZones : Finset Blocklist.Name
deriving DecidableEq

/-- The inputs of a running box. -/
def inputs (app : AppState) : Inputs where
  ttlBounds := (app.dnsCache.minSecs, app.dnsCache.maxSecs)
  staleWindow := app.dnsCache.staleWindow
  clientTtl := app.clientTtl
  switches := app.dnsSwitches
  access := (app.clientGate.hasAcl, app.clientGate.acl)
  rateLimit := app.clientGate.perMinute
  blockAnswer := app.blocklist.blockAnswer
  bypass := (app.blocklist.hasClientBypass, app.blocklist.clientBypass)
  zones := app.upstreamPool.zones
  localZones := app.blocklist.localZones.toFinset

/-- The access lists a configuration comes to. -/
def accessOf (dns : DnsConfig) : Bool × Acl :=
  let gate := ClientGate.new dns.rateLimit dns.allowedClients dns.deniedClients
  (gate.hasAcl, gate.acl)

/-- The bypassed clients a configuration comes to. -/
def bypassOf (cfg : BlocklistConfig) : Bool × Finset Text :=
  (normalizeClientKeys cfg.clientBypass ≠ ∅, normalizeClientKeys cfg.clientBypass)

/-- The inputs a configuration comes to, over the zones given. -/
def inputsOf (c : Config) (zones : List ZoneEntry) (localZones : Finset Blocklist.Name) :
    Inputs where
  ttlBounds := normalizeTtlBounds c.dns.minTtl c.dns.maxTtl
  staleWindow := min c.dns.staleWindow maxStaleAge
  clientTtl := c.dns.clientTtl
  switches := switchesOf c.dns
  access := accessOf c.dns
  rateLimit := c.dns.rateLimit
  blockAnswer := c.blocklist.blockAnswer
  bypass := bypassOf c.blocklist
  zones := zones
  localZones := localZones

/-- The names of zones as the engine keeps them. -/
def exemptNames (zones : List ZoneConfig) : Finset Blocklist.Name :=
  ((zones.map ZoneConfig.name).map Blocklist.normalise).toFinset

theorem inputs_build (config persistent : Config) (sessions : Table Text Session)
    (routes : Routes) :
    inputs (.build config persistent sessions routes) =
      inputsOf config routes.zones (exemptNames config.zones) := rfl

/-- Only what is given for the zones counts of them, not the configuration's. -/
theorem inputsOf_inj {c : Config} {configured : List ZoneConfig} {zones zones' : List ZoneEntry}
    {exempt exempt' : Finset Blocklist.Name} :
    inputsOf { c with zones := configured } zones exempt = inputsOf c zones' exempt' ↔
      zones = zones' ∧ exempt = exempt' := by
  simp [inputsOf]

/-! ### What a change hands on -/

section Applied

variable (p : SettingsPatch)

@[simp] theorem applyCache_minSecs (dns : DnsConfig) (cache : DnsCache) :
    (applyCache p dns cache).minSecs = cache.minSecs := by
  unfold applyCache
  split <;> split <;> rfl

@[simp] theorem applyCache_maxSecs (dns : DnsConfig) (cache : DnsCache) :
    (applyCache p dns cache).maxSecs = cache.maxSecs := by
  unfold applyCache
  split <;> split <;> rfl

theorem applyCache_staleWindow (dns : DnsConfig) (cache : DnsCache) :
    (applyCache p dns cache).staleWindow =
      if p.dnsServeStale.isSome || p.dnsStaleMaxAge.isSome then min dns.staleWindow maxStaleAge
      else cache.staleWindow := by
  unfold applyCache
  split <;> split <;> rfl

@[simp] theorem applyBlocklist_localZones (answer : Option BlockAnswer) (cfg : BlocklistConfig)
    (engine : Engine) : (applyBlocklist p answer cfg engine).localZones = engine.localZones := by
  unfold applyBlocklist
  split <;> rfl

@[simp] theorem applyBlocklist_blockAnswer (answer : Option BlockAnswer) (cfg : BlocklistConfig)
    (engine : Engine) :
    (applyBlocklist p answer cfg engine).blockAnswer = answer.getD engine.blockAnswer := by
  unfold applyBlocklist
  split <;> rfl

theorem applyBlocklist_bypass (answer : Option BlockAnswer) (cfg : BlocklistConfig)
    (engine : Engine) :
    ((applyBlocklist p answer cfg engine).hasClientBypass,
        (applyBlocklist p answer cfg engine).clientBypass) =
      if p.blocklistClientBypass.isSome then bypassOf cfg
      else (engine.hasClientBypass, engine.clientBypass) := by
  unfold applyBlocklist
  split <;> rfl

@[simp] theorem applyGate_perMinute (dns : DnsConfig) (gate : ClientGate) :
    (applyGate p dns gate).perMinute = p.dnsRateLimit.getD gate.perMinute := by
  unfold applyGate
  split <;> cases p.dnsRateLimit <;> rfl

theorem applyGate_access (dns : DnsConfig) (gate : ClientGate) :
    ((applyGate p dns gate).hasAcl, (applyGate p dns gate).acl) =
      if p.dnsAllowedClients.isSome || p.dnsDeniedClients.isSome then accessOf dns
      else (gate.hasAcl, gate.acl) := by
  unfold applyGate
  split <;> cases p.dnsRateLimit <;> rfl

end Applied

/-! ## Starting -/

/-- The zones a box is started with. -/
def startupZones (detected zones : List ZoneConfig) : List ZoneConfig :=
  if zones = [] then detected else zones

theorem runtimeConfig_eq (detected : List ZoneConfig) (c : Config) :
    runtimeConfig detected c = { c with zones := startupZones detected c.zones } := by
  unfold runtimeConfig startupZones
  split
  · rfl
  · rfl

/-! ## Changing -/

/-- A call of `update_settings`, with the machine as it is at the time. -/
structure Call where
  host : Host
  headers : Headers
  patch : SettingsPatch

/-- A call that succeeds. -/
def change (crates : Upstream.Crates) (app : AppState) (call : Call) : Option AppState :=
  match updateSettings crates call.host call.headers call.patch app with
  | (app', .ok _) => some app'
  | (_, .error _) => none

/-- The zones configured after the calls. -/
def zonesAfter (zones : List ZoneConfig) (calls : List Call) : List ZoneConfig :=
  calls.foldl (fun zs call => call.patch.zones.getD zs) zones

/-- Some call names `upstream` or `zones`. -/
def someNamesRoutes (calls : List Call) : Bool := calls.any fun call => call.patch.namesRoutes

theorem change_eq_some {crates : Upstream.Crates} {app app' : AppState} {call : Call}
    (h : change crates app call = some app') :
    ∃ reply, updateSettings crates call.host call.headers call.patch app = (app', .ok reply) := by
  unfold change at h
  split at h
  · rename_i reply heq
    cases h
    exact ⟨reply, heq⟩
  · cases h

/-- The box goes by its live configuration.  `started` are the zones it was started with,
and `renewed` says whether its routes were replaced since. -/
structure Follows (crates : Upstream.Crates) (started : List ZoneConfig) (renewed : Bool)
    (app : AppState) : Prop where
  inputs : inputs app = inputsOf app.books.live app.upstreamPool.zones (exemptNames started)
  pool : ∃ pool, UpstreamPool.fromConfig crates app.books.live.upstream = .ok pool
  routed : zoneEntries (if renewed then app.books.live.zones else started) =
    .ok app.upstreamPool.zones

theorem follows_init {crates : Upstream.Crates} {detected : List ZoneConfig} {c : Config}
    {sessions : Table Text Session} {app : AppState}
    (h : AppState.init crates (runtimeConfig detected c) c sessions = .ok app) :
    Follows crates (startupZones detected c.zones) false app ∧ app.books.live = c := by
  obtain ⟨r, hpool, hzones, rfl⟩ := AppState.init_eq_ok_iff.1 h
  rw [runtimeConfig_eq] at hpool hzones ⊢
  exact ⟨⟨rfl, ⟨r.default, hpool⟩, hzones⟩, rfl⟩

/-- The components go by the configuration a patch was accepted into, if they went by the
one before it: what the patch names they are told, and the rest has not changed. -/
theorem inputs_applied {p : SettingsPatch} {app : AppState} {books : Books} {r : Routes}
    {exempt : Finset Blocklist.Name}
    (hin : inputs app = inputsOf app.books.live app.upstreamPool.zones exempt)
    (hacc : Accepted p app.books.live books.live) :
    inputs (applyRest p (patchedBlockAnswer p app.books.live)
        { applyFirst p { app with books := books } with upstreamPool := r }) =
      inputsOf books.live r.zones exempt := by
  simp only [inputs, inputsOf, Inputs.mk.injEq] at hin
  obtain ⟨httl, hstale, hclient, hsw, haccess, hrate, hans, hbypass, -, hlocal⟩ := hin
  simp only [inputs, inputsOf, Inputs.mk.injEq]
  refine ⟨?ttl, ?stale, ?client, ?switches, ?access, ?rate, ?answer, ?bypass, rfl, ?exempt⟩
  case ttl =>
    show ((applyCache p books.live.dns _).minSecs, (applyCache p books.live.dns _).maxSecs) = _
    rw [applyCache_minSecs, applyCache_maxSecs]
    by_cases hp : (p.dnsMinTtl.isSome || p.dnsMaxTtl.isSome) = true
    · show ((if _ then _ else _ : DnsCache).minSecs, (if _ then _ else _ : DnsCache).maxSecs) = _
      rw [if_pos hp]
      rfl
    · show ((if _ then _ else _ : DnsCache).minSecs, (if _ then _ else _ : DnsCache).maxSecs) = _
      rw [if_neg hp]
      obtain ⟨hmin, hmax⟩ : p.dnsMinTtl = none ∧ p.dnsMaxTtl = none := by simpa using hp
      rw [hacc.minTtl, hacc.maxTtl, hmin, hmax]
      exact httl
  case stale =>
    show (applyCache p books.live.dns _).staleWindow = _
    rw [applyCache_staleWindow]
    split
    · rfl
    · rename_i hp
      rw [hacc.stale (by simpa using hp), ← hstale]
      show (if _ then _ else _ : DnsCache).staleWindow = _
      split <;> rfl
  case client =>
    show p.dnsClientTtl.getD app.clientTtl = books.live.dns.clientTtl
    rw [hacc.clientTtl, hclient]
  case switches =>
    show (if p.namesSwitch then switchesOf books.live.dns else app.dnsSwitches) = _
    split
    · rfl
    · rename_i hp
      rw [hacc.switches (by simpa using hp), hsw]
  case access =>
    show ((applyGate p books.live.dns app.clientGate).hasAcl,
      (applyGate p books.live.dns app.clientGate).acl) = accessOf books.live.dns
    rw [applyGate_access]
    split
    · rfl
    · rename_i hp
      obtain ⟨hallowed, hdenied⟩ := hacc.access (by simpa using hp)
      rw [haccess, accessOf, accessOf, hallowed, hdenied]
      rfl
  case rate =>
    show (applyGate p books.live.dns app.clientGate).perMinute = books.live.dns.rateLimit
    rw [applyGate_perMinute, hacc.rateLimit, hrate]
  case answer =>
    show (applyBlocklist p _ _ app.blocklist).blockAnswer = books.live.blocklist.blockAnswer
    rw [applyBlocklist_blockAnswer, hacc.blockAnswer, hans]
  case bypass =>
    show ((applyBlocklist p _ books.live.blocklist app.blocklist).hasClientBypass,
      (applyBlocklist p _ books.live.blocklist app.blocklist).clientBypass) =
      bypassOf books.live.blocklist
    rw [applyBlocklist_bypass]
    split
    · rfl
    · rename_i hp
      rw [hbypass, bypassOf, bypassOf, hacc.bypass (by simpa using hp)]
  case exempt =>
    show (applyBlocklist p _ _ app.blocklist).localZones.toFinset = exempt
    rw [applyBlocklist_localZones, hlocal]

/-- **One change.**  The box goes by its live configuration afterwards too; the zones it
was started with stay what the engine exempts. -/
theorem step_follows {crates : Upstream.Crates} {started : List ZoneConfig} {renewed : Bool}
    {app app' : AppState} {call : Call} (h : Follows crates started renewed app)
    (hstep : change crates app call = some app') :
    Follows crates started (renewed || call.patch.namesRoutes) app' ∧
      app'.books.live.zones = call.patch.zones.getD app.books.live.zones := by
  obtain ⟨reply, hupdate⟩ := change_eq_some hstep
  obtain ⟨hashed, out, r, hok, hr, rfl⟩ := updateSettings_of_ok hupdate
  have hacc := accepted hok
  refine ⟨⟨inputs_applied h.inputs hacc, ?pool, ?routed⟩, hacc.zones⟩
  case pool =>
    by_cases hp : call.patch.namesRoutes = true
    · rw [if_pos hp] at hr
      exact ⟨r.default, (buildRoutes_eq_ok hr).1⟩
    · obtain ⟨pool, hpool⟩ := h.pool
      rw [← (hacc.routes_kept (by simpa using hp)).1] at hpool
      exact ⟨pool, hpool⟩
  case routed =>
    by_cases hp : call.patch.namesRoutes = true
    · rw [if_pos hp] at hr
      rw [hp, Bool.or_true, if_pos rfl]
      exact (Routes.new_eq_ok_iff.1 (buildRoutes_eq_ok hr).2).1
    · rw [if_neg hp] at hr
      have hno : call.patch.namesRoutes = false := by simpa using hp
      have hrouted := h.routed
      rw [← (hacc.routes_kept hno).2, ← hr] at hrouted
      rw [hno, Bool.or_false]
      exact hrouted

/-- **Every run of changes.** -/
theorem run_follows {crates : Upstream.Crates} {started : List ZoneConfig} {renewed : Bool}
    {app app' : AppState} {calls : List Call} (h : Follows crates started renewed app)
    (hrun : exec (change crates) app calls = some app') :
    Follows crates started (renewed || someNamesRoutes calls) app' ∧
      app'.books.live.zones = zonesAfter app.books.live.zones calls := by
  induction calls generalizing app renewed with
  | nil =>
    cases hrun
    exact ⟨by simpa [someNamesRoutes] using h, rfl⟩
  | cons call calls ih =>
    obtain ⟨app₁, hstep, hrun⟩ := (exec_cons_eq_some (change crates)).1 hrun
    obtain ⟨hfollows, hzones⟩ := step_follows h hstep
    obtain ⟨hfollows', hzones'⟩ := ih hfollows hrun
    refine ⟨?_, ?_⟩
    · rw [Bool.or_assoc] at hfollows'
      exact hfollows'
    · rw [hzones', hzones]
      rfl

theorem zonesAfter_of_not_named {zones : List ZoneConfig} {calls : List Call}
    (h : someNamesRoutes calls = false) : zonesAfter zones calls = zones := by
  induction calls generalizing zones with
  | nil => rfl
  | cons call calls ih =>
    simp only [someNamesRoutes, List.any_cons, Bool.or_eq_false_iff] at h
    have hz : call.patch.zones = none := by
      simpa using (Bool.or_eq_false_iff.1 h.1).2
    show zonesAfter (call.patch.zones.getD zones) calls = zones
    rw [hz]
    exact ih h.2

/-! ## The comparison -/

/-- A restart on the configuration that is live builds a box that decides by the same. -/
def MatchesRestart (crates : Upstream.Crates) (detected : List ZoneConfig) (app : AppState) :
    Prop :=
  ∃ fresh, AppState.init crates (runtimeConfig detected app.books.live) app.books.live
      app.books.sessions = .ok fresh ∧
    inputs fresh = inputs app

/-- The zones after the calls have the names the box was started with; and if none are
configured by then, no call touched the routes unless there are none to detect. -/
def KeepsZones (detected zones : List ZoneConfig) (calls : List Call) : Prop :=
  exemptNames (startupZones detected (zonesAfter zones calls)) =
      exemptNames (startupZones detected zones) ∧
    (someNamesRoutes calls = true → zonesAfter zones calls = [] → detected = [])

/-- A box that goes by its configuration matches a restart exactly when the zones do. -/
theorem matchesRestart_iff {crates : Upstream.Crates} {detected started : List ZoneConfig}
    {renewed : Bool} {app : AppState} (h : Follows crates started renewed app) :
    MatchesRestart crates detected app ↔
      zoneEntries (startupZones detected app.books.live.zones) = .ok app.upstreamPool.zones ∧
      exemptNames (startupZones detected app.books.live.zones) = exemptNames started := by
  unfold MatchesRestart
  rw [h.inputs, runtimeConfig_eq]
  constructor
  · rintro ⟨fresh, hinit, hsame⟩
    obtain ⟨r, -, hzones, rfl⟩ := AppState.init_eq_ok_iff.1 hinit
    rw [inputs_build] at hsame
    obtain ⟨hrouted, hexempt⟩ := inputsOf_inj.1 hsame
    rw [hrouted] at hzones
    exact ⟨hzones, hexempt⟩
  · rintro ⟨hzones, hexempt⟩
    obtain ⟨pool, hpool⟩ := h.pool
    refine ⟨_, AppState.init_eq_ok_iff.2 ⟨⟨app.upstreamPool.zones, pool⟩, hpool, hzones, rfl⟩, ?_⟩
    rw [inputs_build]
    exact inputsOf_inj.2 ⟨rfl, hexempt⟩

/-- **Live changes and a restart.**  After every run of successful changes, the box decides
by what a restart on its configuration would have it decide by, exactly when the run kept
the zones. -/
theorem live_matches_restart_iff {crates : Upstream.Crates} {detected : List ZoneConfig}
    {c : Config} {sessions : Table Text Session} {app app' : AppState} {calls : List Call}
    (hinit : AppState.init crates (runtimeConfig detected c) c sessions = .ok app)
    (hrun : exec (change crates) app calls = some app') :
    MatchesRestart crates detected app' ↔ KeepsZones detected c.zones calls := by
  obtain ⟨hstart, hlive⟩ := follows_init hinit
  obtain ⟨hfollows, hzones⟩ := run_follows hstart hrun
  rw [hlive] at hzones
  rw [matchesRestart_iff hfollows, hzones, and_comm]
  refine and_congr_right fun _ => ?_
  have hrouted := hfollows.routed
  rw [hzones, Bool.false_or] at hrouted
  by_cases hnamed : someNamesRoutes calls = true
  · rw [if_pos hnamed] at hrouted
    by_cases hnone : zonesAfter c.zones calls = []
    · rw [hnone] at hrouted ⊢
      rw [zoneEntries_nil] at hrouted
      rw [← Except.ok.inj hrouted]
      show zoneEntries detected = .ok [] ↔ _
      constructor
      · intro h _ _
        exact zoneEntries_eq_nil h
      · intro h
        rw [h hnamed rfl, zoneEntries_nil]
    · rw [startupZones, if_neg hnone]
      exact ⟨fun _ _ h => absurd h hnone, fun _ => hrouted⟩
  · have hno : someNamesRoutes calls = false := by simpa using hnamed
    rw [if_neg hnamed] at hrouted
    rw [zonesAfter_of_not_named hno]
    exact ⟨fun _ h => absurd h hnamed, fun _ => hrouted⟩

/-! ### On the box as it is shipped -/

theorem init_shipped : AppState.init bareCrates (runtimeConfig [] shipped) shipped ∅ =
    .ok shippedBox :=
  AppState.init_eq_ok_iff.2 ⟨shippedRoutes, by decide, zoneEntries_nil, rfl⟩

/-- A call without a session. -/
def callWith (patch : SettingsPatch) : Call := ⟨bareHost, ⟨none, none⟩, patch⟩

/-- Another TTL for clients is what a restart would give them too. -/
theorem new_ttl_matches_restart :
    ∃ app app', AppState.init bareCrates (runtimeConfig [] shipped) shipped ∅ = .ok app ∧
      exec (change bareCrates) app [callWith { dnsClientTtl := some 120 }] = some app' ∧
      MatchesRestart bareCrates [] app' := by
  have hrun : exec (change bareCrates) shippedBox
      [callWith { dnsClientTtl := some 120 }] = some _ := rfl
  exact ⟨_, _, init_shipped, hrun,
    (live_matches_restart_iff init_shipped hrun).2 ⟨rfl, fun h => (by cases h)⟩⟩

/-- Only fields that take no restart. -/
def SettingsPatch.IsHot (p : SettingsPatch) : Prop :=
  p.storageBackend = none ∧ p.storagePath = none ∧ p.blocklistCacheDir = none ∧
    p.dnsBindAddr = none ∧ p.apiBindAddr = none

/-- A zone added while the box runs is routed at once, but not exempt from default-deny
until the next restart. -/
theorem new_zone_is_not_exempt :
    ¬ ∀ (crates : Upstream.Crates) (detected : List ZoneConfig) (c : Config)
      (sessions : Table Text Session) (app app' : AppState) (calls : List Call),
      AppState.init crates (runtimeConfig detected c) c sessions = .ok app →
      (∀ call ∈ calls, call.patch.IsHot) →
      exec (change crates) app calls = some app' → MatchesRestart crates detected app' := by
  intro h
  let zones : List ZoneConfig := [⟨"corp.example".toList, "192.168.1.1:53".toList⟩]
  have hrun : exec (change bareCrates) shippedBox
      [callWith { zones := some zones }] = some _ := rfl
  have hmatch := h bareCrates [] shipped ∅ _ _ [callWith { zones := some zones }] init_shipped
    (by simp [callWith, SettingsPatch.IsHot]) hrun
  obtain ⟨hstart, -⟩ := follows_init init_shipped
  obtain ⟨hfollows, -⟩ := run_follows hstart hrun
  have hexempt : exemptNames zones = exemptNames [] := ((matchesRestart_iff hfollows).1 hmatch).2
  exact absurd hexempt (by decide +kernel)

end Ferrite.Api
