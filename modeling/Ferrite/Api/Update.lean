import Ferrite.Api.Settings

/-!
# A settings change, as a whole

`update_settings`: the password is hashed, the fields are taken under the lock
(`Api/Settings`), and what was accepted goes to the components.

A field that is refused ends the request, but the fields before it have been written by
then: `refused_ttl_leaves_new_key`.  What is proved about every request:

* `updateSettings_of_ok` — what an accepted one leaves, field by field (`Accepted`) and
  in the components;
* `updateSettings_of_error` — one that fails was refused under the lock or before it,
  never after;
* `failed_change_leaves_no_trace_iff` — it leaves the configuration and the sessions as
  they were exactly when nothing ahead of the refused field would have changed them.
-/

namespace Ferrite.Api

open App Upstream Dns Setting

/-- The hash of a new password, made before the lock is taken. -/
def hashedPassword (host : Host) (p : SettingsPatch) : Except Text (Option (Option Text)) :=
  match p.password with
  | none => .ok none
  | some none => .ok (some none)
  | some (some pw) =>
    if pw = [] then .error "password cannot be empty; use null to disable password auth".toList
    else
      match host.hashPassword pw with
      | .ok hash => .ok (some (some hash))
      | .error e => .error ("password hash failed: ".toList ++ e)

/-! ## After the lock -/

namespace SettingsPatch

/-- `upstream` or `zones` is given. -/
def namesRoutes (p : SettingsPatch) : Bool := p.upstream.isSome || p.zones.isSome

/-- One of the DNS switches is given. -/
def namesSwitch (p : SettingsPatch) : Bool :=
  p.dnsStripEcs.isSome || p.dnsDnssec.isSome || p.dnsFirefoxCanary.isSome ||
    p.dnsBlockPrivateRelay.isSome || p.dnsStripEch.isSome

end SettingsPatch

/-- What is handed on before the routes: the log's patterns and the cache's bounds. -/
def applyFirst (p : SettingsPatch) (app : AppState) : AppState :=
  let dns := app.books.live.dns
  { app with
    logIgnore := p.dnsLogIgnore.getD app.logIgnore
    dnsCache :=
      if p.dnsMinTtl.isSome || p.dnsMaxTtl.isSome then
        app.dnsCache.setTtlBounds dns.minTtl dns.maxTtl
      else app.dnsCache }

/-- `ZoneRouter::replace`, with the pool that was built under the lock. -/
def applyRoutes (crates : Upstream.Crates) (p : SettingsPatch) (app : AppState) :
    Except Text AppState :=
  if p.namesRoutes then do
    let pool ← UpstreamPool.fromConfig crates app.books.live.upstream
    let routes ← Routes.new app.books.live.zones pool
    return { app with upstreamPool := routes }
  else return app

/-- The DNS cache, after the routes. -/
def applyCache (p : SettingsPatch) (dns : DnsConfig) (cache : DnsCache) : DnsCache :=
  let cache :=
    if p.dnsCacheSize.isSome || p.dnsCacheMaxMb.isSome then
      cache.resize dns.cacheSize (saturatingMul dns.cacheMaxMb (1024 * 1024))
    else cache
  if p.dnsServeStale.isSome || p.dnsStaleMaxAge.isSome then cache.setStaleWindow dns.staleWindow
  else cache

/-- The blocklist engine.  The zones it knows are not among what it is told. -/
def applyBlocklist (p : SettingsPatch) (answer : Option BlockAnswer) (cfg : BlocklistConfig)
    (engine : Engine) : Engine :=
  let engine := { engine with
    cache := p.blocklistDecisionCacheSize.elim engine.cache engine.cache.resize
    enabled := p.blocklistEnabled.getD engine.enabled }
  let engine :=
    if p.blocklistClientBypass.isSome then engine.setClientBypass cfg.clientBypass else engine
  { engine with blockAnswer := answer.getD engine.blockAnswer }

/-- The client gate. -/
def applyGate (p : SettingsPatch) (dns : DnsConfig) (gate : ClientGate) : ClientGate :=
  let gate := p.dnsRateLimit.elim gate gate.setRateLimit
  if p.dnsAllowedClients.isSome || p.dnsDeniedClients.isSome then
    gate.setAcl dns.allowedClients dns.deniedClients
  else gate

/-- The rest of what is handed on. -/
def applyRest (p : SettingsPatch) (answer : Option BlockAnswer) (app : AppState) : AppState :=
  let live := app.books.live
  { app with
    dnsCache := applyCache p live.dns app.dnsCache
    blocklist := applyBlocklist p answer live.blocklist app.blocklist
    dnsSwitches := if p.namesSwitch then switchesOf live.dns else app.dnsSwitches
    clientTtl := p.dnsClientTtl.getD app.clientTtl
    clientGate := applyGate p live.dns app.clientGate
    recordSwitches := ⟨p.logQueries.getD app.recordSwitches.queries,
      p.keepStats.getD app.recordSwitches.stats⟩ }

/-- The answer to a request that was accepted. -/
inductive Reply where
  | noChanges
  | ok (hotChanged restartChanged : List Text)
deriving DecidableEq, Repr

/-- Which fields were written; some of them may need a restart. -/
def Reply.of (changed : List Changed) : Reply :=
  if changed = [] then .noChanges
  else .ok (changed.filterMap fun c => match c with | .hot key => some key | .restart _ => none)
    (changed.filterMap fun c => match c with | .hot _ => none | .restart key => some key)

/-- `update_settings`. -/
def updateSettings (crates : Upstream.Crates) (host : Host) (headers : Headers)
    (p : SettingsPatch) (app : AppState) : AppState × Except Text Reply :=
  match hashedPassword host p with
  | .error e => (app, .error e)
  | .ok hashed =>
    match Stage.run (settings crates host headers p hashed app.books.live) app.books with
    | (books, .error e) => ({ app with books := books }, .error e)
    | (books, .ok changed) =>
      let app' := applyFirst p { app with books := books }
      match applyRoutes crates p app' with
      | .error e => (app', .error e)
      | .ok app'' =>
        (applyRest p (patchedBlockAnswer p app.books.live) app'', .ok (.of changed))

/-! ## What the lock leaves -/

section Accepted

variable {crates : Upstream.Crates} {host : Host} {headers : Headers} {p : SettingsPatch}
  {hashed : Option (Option Text)} {cfg : Config} {b : Books} {out : List Changed}

/-- A field that says the same in every state ends up so. -/
theorem get_of_said {st : Setting} {o : Option st.V}
    (hst : st ∈ settings crates host headers p hashed cfg) (hsaid : ∀ b, st.ask b = .ok o)
    (hok : (Stage.run (settings crates host headers p hashed cfg) b).2 = .ok out) :
    st.field.get (Stage.run (settings crates host headers p hashed cfg) b).1 =
      o.getD (st.field.get b) := by
  obtain ⟨b₀, o', -, hask, hget⟩ :=
    Stage.get_run (settings_apart crates host headers p hashed cfg) hst hok
  rw [hsaid] at hask
  cases hask
  exact hget

/-- `dns_client_ttl` is written as it is given, if it is not refused. -/
theorem clientTtl_of_accepted
    (hok : (Stage.run (settings crates host headers p hashed cfg) b).2 = .ok out) :
    (Stage.run (settings crates host headers p hashed cfg) b).1.live.dns.clientTtl =
      p.dnsClientTtl.getD b.live.dns.clientTtl := by
  have hst : Setting.dnsClientTtl p ∈ settings crates host headers p hashed cfg := by
    simp [settings]
  obtain ⟨b₀, o, -, hask, hget⟩ :=
    Stage.get_run (settings_apart crates host headers p hashed cfg) hst hok
  unfold Setting.dnsClientTtl checked at hask
  cases httl : p.dnsClientTtl with
  | none =>
    rw [httl] at hask
    cases hask
    exact hget
  | some ttl =>
    rw [httl] at hask
    dsimp only at hask
    split at hask
    · cases hask
    · cases hask
      exact hget

/-- What the lock leaves of the upstreams and zones, when the patch names either: they
were built in full. -/
theorem live_of_routes
    (hok : (Stage.run (settings crates host headers p hashed cfg) b).2 = .ok out) :
    let live := (Stage.run (settings crates host headers p hashed cfg) b).1.live
    (p.namesRoutes = true → ∃ r, buildRoutes crates live.upstream live.zones = .ok r) ∧
      live.upstream = p.upstream.getD b.live.upstream ∧
      live.zones = p.zones.getD b.live.zones := by
  intro live
  have hst : routes crates p ∈ settings crates host headers p hashed cfg := by simp [settings]
  have hrun : ∃ (b₀ : Books) (o : Option (List UpstreamConfig × List ZoneConfig)),
      (b₀.live.upstream, b₀.live.zones) = (b.live.upstream, b.live.zones) ∧
      (if p.namesRoutes then
        (buildRoutes crates (p.upstream.getD b₀.live.upstream) (p.zones.getD b₀.live.zones)).map
          fun _ => some (p.upstream.getD b₀.live.upstream, p.zones.getD b₀.live.zones)
      else .ok none) = .ok o ∧
      (live.upstream, live.zones) = o.getD (b.live.upstream, b.live.zones) :=
    Stage.get_run (settings_apart crates host headers p hashed cfg) hst hok
  obtain ⟨b₀, o, hb₀, hask, hget⟩ := hrun
  obtain ⟨hup₀, hz₀⟩ := Prod.mk.inj hb₀
  rw [hup₀, hz₀] at hask
  by_cases hp : p.namesRoutes = true
  · rw [if_pos hp] at hask
    cases hbuild : buildRoutes crates (p.upstream.getD b.live.upstream)
        (p.zones.getD b.live.zones) with
    | error e =>
      rw [hbuild] at hask
      cases hask
    | ok r =>
      rw [hbuild] at hask
      cases hask
      obtain ⟨hup, hz⟩ := Prod.mk.inj hget
      exact ⟨fun _ => ⟨r, by rw [hup, hz]; exact hbuild⟩, hup, hz⟩
  · rw [if_neg hp] at hask
    cases hask
    obtain ⟨hup, hz⟩ := Prod.mk.inj hget
    obtain ⟨hnoup, hnoz⟩ : p.upstream = none ∧ p.zones = none := by
      simpa [SettingsPatch.namesRoutes] using hp
    rw [hnoup, hnoz]
    exact ⟨fun h => absurd h hp, hup, hz⟩

/-- What an accepted patch makes of the configuration, as far as queries are decided by
it. -/
structure Accepted (p : SettingsPatch) (before after : Config) : Prop where
  minTtl : after.dns.minTtl = p.dnsMinTtl.getD before.dns.minTtl
  maxTtl : after.dns.maxTtl = p.dnsMaxTtl.getD before.dns.maxTtl
  clientTtl : after.dns.clientTtl = p.dnsClientTtl.getD before.dns.clientTtl
  stale : (p.dnsServeStale.isSome || p.dnsStaleMaxAge.isSome) = false →
    after.dns.staleWindow = before.dns.staleWindow
  rateLimit : after.dns.rateLimit = p.dnsRateLimit.getD before.dns.rateLimit
  access : (p.dnsAllowedClients.isSome || p.dnsDeniedClients.isSome) = false →
    after.dns.allowedClients = before.dns.allowedClients ∧
      after.dns.deniedClients = before.dns.deniedClients
  blockAnswer : after.blocklist.blockAnswer =
    (patchedBlockAnswer p before).getD before.blocklist.blockAnswer
  bypass : p.blocklistClientBypass = none →
    after.blocklist.clientBypass = before.blocklist.clientBypass
  switches : p.namesSwitch = false → switchesOf after.dns = switchesOf before.dns
  upstream : after.upstream = p.upstream.getD before.upstream
  zones : after.zones = p.zones.getD before.zones

theorem Accepted.routes_kept {before after : Config} (h : Accepted p before after)
    (hp : p.namesRoutes = false) :
    after.upstream = before.upstream ∧ after.zones = before.zones := by
  obtain ⟨hup, hz⟩ : p.upstream = none ∧ p.zones = none := by
    simpa [SettingsPatch.namesRoutes] using hp
  rw [h.upstream, h.zones, hup, hz]
  exact ⟨rfl, rfl⟩

theorem accepted
    (hok : (Stage.run (settings crates host headers p hashed b.live) b).2 = .ok out) :
    Accepted p b.live (Stage.run (settings crates host headers p hashed b.live) b).1.live := by
  have hmem : ∀ st : Setting, st ∈ settings crates host headers p hashed b.live →
      ∀ o, (∀ b, st.ask b = .ok o) →
      st.field.get (Stage.run (settings crates host headers p hashed b.live) b).1 =
        o.getD (st.field.get b) := fun st hst o hsaid => get_of_said hst hsaid hok
  set live := (Stage.run (settings crates host headers p hashed b.live) b).1.live
  constructor
  case minTtl => exact hmem (Setting.dnsMinTtl p) (by simp [settings]) _ fun _ => rfl
  case maxTtl => exact hmem (Setting.dnsMaxTtl p) (by simp [settings]) _ fun _ => rfl
  case clientTtl => exact clientTtl_of_accepted hok
  case stale =>
    intro h
    have hkeep : (live.dns.staleMaxAge, live.dns.serveStale) =
        (b.live.dns.staleMaxAge, b.live.dns.serveStale) :=
      hmem (Setting.dnsServeStale p) (by simp [settings]) none fun _ => if_neg (by simp [h])
    obtain ⟨hage, hon⟩ := Prod.mk.inj hkeep
    show live.dns.staleWindow = b.live.dns.staleWindow
    rw [DnsConfig.staleWindow, hage, hon, DnsConfig.staleWindow]
  case rateLimit => exact hmem (Setting.dnsRateLimit p) (by simp [settings]) _ fun _ => rfl
  case access =>
    intro h
    exact Prod.mk.inj
      (hmem (Setting.dnsClientAccess p) (by simp [settings]) none fun _ => if_neg (by simp [h]))
  case blockAnswer =>
    exact hmem (Setting.blockAnswer (patchedBlockAnswer p b.live)) (by simp [settings]) _ fun _ => rfl
  case bypass =>
    intro h
    refine hmem (Setting.blocklistClientBypass p) (by simp [settings]) none fun _ => ?_
    unfold Setting.blocklistClientBypass checked
    rw [h]
  case switches =>
    intro h
    simp only [SettingsPatch.namesSwitch, Bool.or_eq_false_iff, Option.isSome_eq_false_iff,
      Option.isNone_iff_eq_none] at h
    obtain ⟨⟨⟨⟨hecs, hdo⟩, hcanary⟩, hrelay⟩, hech⟩ := h
    have h1 : live.dns.stripEcs = p.dnsStripEcs.getD b.live.dns.stripEcs :=
      hmem (Setting.dnsStripEcs p) (by simp [settings]) _ fun _ => rfl
    have h2 : live.dns.dnssec = p.dnsDnssec.getD b.live.dns.dnssec :=
      hmem (Setting.dnsDnssec p) (by simp [settings]) _ fun _ => rfl
    have h3 : live.dns.firefoxCanary = p.dnsFirefoxCanary.getD b.live.dns.firefoxCanary :=
      hmem (Setting.dnsFirefoxCanary p) (by simp [settings]) _ fun _ => rfl
    have h4 : live.dns.blockPrivateRelay =
        p.dnsBlockPrivateRelay.getD b.live.dns.blockPrivateRelay :=
      hmem (Setting.dnsBlockPrivateRelay p) (by simp [settings]) _ fun _ => rfl
    have h5 : live.dns.stripEch = p.dnsStripEch.getD b.live.dns.stripEch :=
      hmem (Setting.dnsStripEch p) (by simp [settings]) _ fun _ => rfl
    show switchesOf live.dns = switchesOf b.live.dns
    rw [switchesOf, h1, h2, h3, h4, h5, hecs, hdo, hcanary, hrelay, hech]
    rfl
  case upstream => exact (live_of_routes hok).2.1
  case zones => exact (live_of_routes hok).2.2

theorem buildRoutes_eq_ok {upstream : List UpstreamConfig} {zones : List ZoneConfig} {r : Routes}
    (h : buildRoutes crates upstream zones = .ok r) :
    UpstreamPool.fromConfig crates upstream = .ok r.default ∧ Routes.new zones r.default = .ok r := by
  unfold buildRoutes at h
  split at h
  · cases h
  · obtain ⟨pool, hpool, hr⟩ := bind_eq_ok_iff.1 h
    obtain ⟨-, rfl⟩ := Routes.new_eq_ok_iff.1 hr
    exact ⟨hpool, hr⟩

/-- The routes can be replaced after the lock: what was built under it is built again. -/
theorem applyRoutes_of_accepted {app : AppState}
    (hok : (Stage.run (settings crates host headers p hashed cfg) b).2 = .ok out)
    (happ : app.books = (Stage.run (settings crates host headers p hashed cfg) b).1) :
    ∃ r, applyRoutes crates p app = .ok { app with upstreamPool := r } ∧
      if p.namesRoutes then buildRoutes crates app.books.live.upstream app.books.live.zones = .ok r
      else r = app.upstreamPool := by
  unfold applyRoutes
  by_cases hp : p.namesRoutes = true
  · obtain ⟨r, hr⟩ := (live_of_routes hok).1 hp
    rw [← happ] at hr
    obtain ⟨hpool, hroutes⟩ := buildRoutes_eq_ok hr
    rw [if_pos hp]
    refine ⟨r, ?_, ?_⟩
    · exact bind_eq_ok_iff.2 ⟨r.default, hpool, bind_eq_ok_iff.2 ⟨r, hroutes, rfl⟩⟩
    · rw [if_pos hp]
      exact hr
  · rw [if_neg hp]
    refine ⟨app.upstreamPool, rfl, ?_⟩
    rw [if_neg hp]

end Accepted

/-! ## What a request comes to -/

section Request

variable {crates : Upstream.Crates} {host : Host} {headers : Headers} {p : SettingsPatch}
  {app app' : AppState}

/-- A request that is accepted: the lock let every field through, and the components got
what it left. -/
theorem updateSettings_of_ok {reply : Reply}
    (h : updateSettings crates host headers p app = (app', .ok reply)) :
    ∃ hashed out r,
      let run := Stage.run (settings crates host headers p hashed app.books.live) app.books
      run.2 = .ok out ∧
      (if p.namesRoutes then buildRoutes crates run.1.live.upstream run.1.live.zones = .ok r
        else r = app.upstreamPool) ∧
      app' = applyRest p (patchedBlockAnswer p app.books.live)
        { applyFirst p { app with books := run.1 } with upstreamPool := r } := by
  unfold updateSettings at h
  split at h
  · cases h
  · rename_i hashed hpw
    generalize hrun : Stage.run (settings crates host headers p hashed app.books.live) app.books
      = run at h
    obtain ⟨books, res⟩ := run
    cases res with
    | error e => cases h
    | ok out =>
      have hok : (Stage.run (settings crates host headers p hashed app.books.live) app.books).2 =
          .ok out := by rw [hrun]
      have hbooks : (applyFirst p { app with books := books }).books =
          (Stage.run (settings crates host headers p hashed app.books.live) app.books).1 := by
        rw [hrun]
        rfl
      obtain ⟨r, hr, hbuilt⟩ := applyRoutes_of_accepted hok hbooks
      refine ⟨hashed, out, r, hok, ?_, ?_⟩
      · rw [hrun]
        exact hbuilt
      · dsimp only at h
        rw [hr] at h
        rw [hrun]
        exact (Prod.mk.inj h).1.symm

/-- A request that fails was refused under the lock or before it, and nothing reached the
components. -/
theorem updateSettings_of_error {e : Text}
    (h : updateSettings crates host headers p app = (app', .error e)) :
    (hashedPassword host p = .error e ∧ app' = app) ∨
      ∃ hashed, hashedPassword host p = .ok hashed ∧
        let run := Stage.run (settings crates host headers p hashed app.books.live) app.books
        run.2 = .error e ∧ app' = { app with books := run.1 } := by
  unfold updateSettings at h
  split at h
  · rename_i e' hpw
    cases h
    exact Or.inl ⟨hpw, rfl⟩
  · rename_i hashed hpw
    generalize hrun : Stage.run (settings crates host headers p hashed app.books.live) app.books
      = run at h
    obtain ⟨books, res⟩ := run
    cases res with
    | error e' =>
      cases h
      exact Or.inr ⟨hashed, hpw, by rw [hrun], by rw [hrun]⟩
    | ok out =>
      have hok : (Stage.run (settings crates host headers p hashed app.books.live) app.books).2 =
          .ok out := by rw [hrun]
      have hbooks : (applyFirst p { app with books := books }).books =
          (Stage.run (settings crates host headers p hashed app.books.live) app.books).1 := by
        rw [hrun]
        rfl
      obtain ⟨r, hr, -⟩ := applyRoutes_of_accepted hok hbooks
      dsimp only at h
      rw [hr] at h
      cases h

/-! ## A request that fails -/

/-- The request is refused before it writes anything new: over its password, or over a
field such that every field ahead of it is absent from the patch or has the value that is
there already. -/
def RefusedBeforeWriting (crates : Upstream.Crates) (host : Host) (headers : Headers)
    (p : SettingsPatch) (b : Books) : Prop :=
  match hashedPassword host p with
  | .error _ => True
  | .ok hashed => Stage.RefusedFirst (settings crates host headers p hashed b.live) b

/-- **A failed change.**  It leaves the configuration and the sessions as they were
exactly when nothing ahead of the refused field asked for anything new. -/
theorem failed_change_leaves_no_trace_iff {e : Text}
    (h : updateSettings crates host headers p app = (app', .error e)) :
    (app'.books.live = app.books.live ∧ app'.books.sessions = app.books.sessions ∧
      app'.books.persisting = app.books.persisting) ↔
    RefusedBeforeWriting crates host headers p app.books := by
  have hbooks : (app'.books.live = app.books.live ∧ app'.books.sessions = app.books.sessions ∧
      app'.books.persisting = app.books.persisting) ↔ app'.books = app.books := by
    cases app'.books
    cases app.books
    simp
  rw [hbooks]
  unfold RefusedBeforeWriting
  rcases updateSettings_of_error h with ⟨hpw, rfl⟩ | ⟨hashed, hpw, herr, rfl⟩
  · rw [hpw]
    simp
  · rw [hpw]
    exact Stage.refused_unchanged_iff
      (settings_apart crates host headers p hashed app.books.live) herr

/-- A password always asks for something new when its caller is signed in: the caller's
session is issued anew. -/
theorem not_quiet_password {b : Books} {hash token : Text} {session : Session}
    (htoken : extractSessionToken headers = some token)
    (hsession : b.sessions.lookup (host.sessionKey token) = some session) :
    ¬ (password host headers (some (some hash))).Quiet b := by
  rintro ⟨o, ho, hquiet⟩
  have hpersist : b.persisting = (rebindSession host headers hash b).persisting :=
    congrArg (fun v : Option Text × Table Text Session × List (Text × Session) => v.2.2)
      (hquiet _ (Except.ok.inj ho).symm)
  unfold rebindSession at hpersist
  rw [htoken] at hpersist
  dsimp only at hpersist
  rw [hsession] at hpersist
  simp at hpersist

/-- A machine on which no file can be written and no password hashed. -/
def bareHost : Host where
  files := ⟨fun _ => false, fun _ => false, fun _ => false⟩
  hashPassword _ := .error "no entropy".toList
  sessionKey token := token
  passwordFingerprint hash := hash
  now := 0

/-- A build that trusts no server. -/
def bareCrates : Upstream.Crates where
  serverName _ := .error "invalid dns name".toList
  clientConfig := .error "no root certificates".toList
  scheme _ := .error "relative URL without a base".toList
  httpClient := .error "no TLS backend".toList
  resolver _ _ := .error "no QUIC".toList

/-- `Config::default`. -/
def shipped : Config := .default "/data".toList

/-- The routes of the box as it is shipped. -/
def shippedRoutes : Routes where
  zones := []
  default := ⟨[.plain ⟨.v4 ⟨8, 8, 8, 8⟩ 53, "8.8.8.8:53".toList⟩,
    .plain ⟨.v4 ⟨8, 8, 4, 4⟩ 53, "8.8.4.4:53".toList⟩]⟩

/-- The box as it is shipped. -/
def shippedBox : AppState := .build shipped shipped ∅ shippedRoutes

/-- A blank API key alone is refused and changes nothing. -/
theorem blank_key_leaves_no_trace :
    ∃ app' e, updateSettings bareCrates bareHost ⟨none, none⟩ { apiKey := some (some [' ']) }
        shippedBox = (app', .error e) ∧
      app'.books.live = shippedBox.books.live ∧
      app'.books.sessions = shippedBox.books.sessions ∧
      app'.books.persisting = shippedBox.books.persisting := by
  have hrun : updateSettings bareCrates bareHost ⟨none, none⟩ { apiKey := some (some [' ']) }
      shippedBox =
      (shippedBox, .error "api_key cannot be empty; use null to disable key auth".toList) := rfl
  refine ⟨_, _, hrun, (failed_change_leaves_no_trace_iff hrun).2 ?_⟩
  refine ⟨[_, _, _, _], _, _, _, rfl, rfl, ?_⟩
  have hquiet : ∀ q : Setting, q.ask shippedBox.books = .ok none → q.Quiet shippedBox.books :=
    fun q hq => ⟨none, hq, by simp⟩
  simp only [List.forall_mem_cons]
  exact ⟨hquiet _ rfl, hquiet _ rfl, hquiet _ rfl, hquiet _ rfl, List.forall_mem_nil _⟩

/-- A request that sets a key and a TTL out of range fails over the TTL, and the key is
the new one. -/
theorem refused_ttl_leaves_new_key :
    ¬ ∀ (crates : Upstream.Crates) (host : Host) (headers : Headers) (p : SettingsPatch)
      (app app' : AppState) (e : Text),
      updateSettings crates host headers p app = (app', .error e) →
      app'.books.live = app.books.live ∧ app'.books.sessions = app.books.sessions ∧
        app'.books.persisting = app.books.persisting := by
  intro h
  have hlive := (h bareCrates bareHost ⟨none, none⟩
    { apiKey := some (some "secret".toList), dnsClientTtl := some 9999 } shippedBox _ _ rfl).1
  have hkey : some "secret".toList = none := congrArg (fun c : Config => c.api.apiKey) hlive
  cases hkey

end Request

end Ferrite.Api
