import Ferrite.App.ConfigFile

/-!
# What a secondary takes from its primary

`api/src/sync.rs`: a secondary reads the configuration of its primary and takes the chosen
sections.  `plan` copies the fields of a section, `part` lists them a second time to compare
them, and a fingerprint says what was applied last.

* `content_take` and `take_of_content_eq` — the two lists name the same fields: a copy
  makes what is compared equal, and copies nothing else;
* `kept_merged` — a plan keeps every field outside the sections;
* `plan_merged` — planning again after a plan finds nothing to do.

How JSON is written and the digest are parameters.
-/

namespace Ferrite.Api

open ConfigFile

variable {R : Type}

/-! ## What is copied and what is compared -/

/-- What `part` lists of a section. -/
abbrev Content : SyncSection → Type
  | .filtering => BlocklistConfig × AllowlistConfig
  | .records => List Dns.CustomRecordConfig
  | .devices => List ClientAliasConfig
  | .dns => (ℕ × ℕ × UInt32 × List Text × Bool × Bool × Bool × Bool × Bool × Bool × ℕ × UInt32 ×
      List Text × List Text) × List Upstream.UpstreamConfig × List Upstream.ZoneConfig
  | .tunnels => ProxyConfig

/-- The values `part` puts into the JSON of a section. -/
def content (c : Config R) : (s : SyncSection) → Content s
  -- the size of the decision cache is written as `null` whatever it is
  | .filtering => ({ c.blocklist with decisionCacheSize := 0 }, c.allowlist)
  | .records => c.customRecords
  | .devices => c.clientAliases
  | .dns =>
    ((c.dns.minTtl, c.dns.maxTtl, c.dns.clientTtl, c.dns.logIgnore, c.dns.stripEcs, c.dns.dnssec,
      c.dns.firefoxCanary, c.dns.blockPrivateRelay, c.dns.stripEch, c.dns.serveStale,
      c.dns.staleMaxAge, c.dns.rateLimit, c.dns.allowedClients, c.dns.deniedClients),
      c.upstream, c.zones)
  | .tunnels => c.proxy

/-- What is taken from other crates: `serde_json`, for the values of a section, and the
SHA-256 of a text in hex. -/
structure SyncCrates where
  json : (s : SyncSection) → Content s → Text
  digest : Text → Text

/-- The JSON of a section tells the two configurations apart when the section does. -/
def SyncCrates.TellsApart (crates : SyncCrates) (c c' : Config R) (s : SyncSection) : Prop :=
  crates.json s (content c s) = crates.json s (content c' s) → content c s = content c' s

variable (crates : SyncCrates)

/-- `part`. -/
def part (c : Config R) (s : SyncSection) : Text := crates.json s (content c s)

/-- `fingerprint`. -/
def fingerprint (c : Config R) (sections : List SyncSection) : Text :=
  crates.digest (sections.flatMap (part crates c))

/-- One round of the loop of `plan`: a section is taken from the primary. -/
def take (primary out : Config R) : SyncSection → Config R
  | .filtering => { out with
      -- the decision cache is sized for this box's memory
      blocklist := { primary.blocklist with decisionCacheSize := out.blocklist.decisionCacheSize }
      allowlist := primary.allowlist }
  | .records => { out with customRecords := primary.customRecords }
  | .devices => { out with clientAliases := primary.clientAliases }
  | .dns => { out with
      dns := { out.dns with
        minTtl := primary.dns.minTtl
        maxTtl := primary.dns.maxTtl
        clientTtl := primary.dns.clientTtl
        logIgnore := primary.dns.logIgnore
        stripEcs := primary.dns.stripEcs
        dnssec := primary.dns.dnssec
        firefoxCanary := primary.dns.firefoxCanary
        blockPrivateRelay := primary.dns.blockPrivateRelay
        stripEch := primary.dns.stripEch
        serveStale := primary.dns.serveStale
        staleMaxAge := primary.dns.staleMaxAge
        rateLimit := primary.dns.rateLimit
        allowedClients := primary.dns.allowedClients
        deniedClients := primary.dns.deniedClients }
      upstream := primary.upstream
      zones := primary.zones }
  | .tunnels => { out with proxy := primary.proxy }

/-- The configuration with the chosen sections taken from the primary. -/
def merged (localConfig primary : Config R) (sections : List SyncSection) : Config R :=
  sections.foldl (take primary) localConfig

/-- `plan`. -/
def plan (localConfig primary : Config R) (sections : List SyncSection) :
    Config R × List SyncSection :=
  let out := merged localConfig primary sections
  (out, sections.filter fun s => part crates localConfig s != part crates out s)

/-- `section_name`. -/
def sectionName : SyncSection → Text
  | .filtering => "filtering".toList
  | .records => "records".toList
  | .devices => "devices".toList
  | .dns => "dns".toList
  | .tunnels => "tunnels".toList

/-- `names`. -/
def names (sections : List SyncSection) : Text :=
  ", ".toList.intercalate (sections.map sectionName)

/-! ## The two lists of fields -/

/-- No field outside the sections differs. -/
structure Kept (sections : List SyncSection) (c c' : Config R) : Prop where
  storage : c'.storage = c.storage
  api : c'.api = c.api
  panel : c'.panel = c.panel
  sync : c'.sync = c.sync
  others : c'.others = c.others
  debugLogging : c'.debugLogging = c.debugLogging
  webDir : c'.webDir = c.webDir
  bindAddr : c'.dns.bindAddr = c.dns.bindAddr
  cacheSize : c'.dns.cacheSize = c.dns.cacheSize
  cacheMaxMb : c'.dns.cacheMaxMb = c.dns.cacheMaxMb
  decisionCacheSize : c'.blocklist.decisionCacheSize = c.blocklist.decisionCacheSize
  filtering : .filtering ∉ sections → c'.blocklist = c.blocklist ∧ c'.allowlist = c.allowlist
  records : .records ∉ sections → c'.customRecords = c.customRecords
  devices : .devices ∉ sections → c'.clientAliases = c.clientAliases
  dns : .dns ∉ sections → c'.dns = c.dns ∧ c'.upstream = c.upstream ∧ c'.zones = c.zones
  tunnels : .tunnels ∉ sections → c'.proxy = c.proxy

namespace Kept

variable {sections : List SyncSection} {c c' c'' : Config R}

theorem refl (sections : List SyncSection) (c : Config R) : Kept sections c c where
  storage := rfl
  api := rfl
  panel := rfl
  sync := rfl
  others := rfl
  debugLogging := rfl
  webDir := rfl
  bindAddr := rfl
  cacheSize := rfl
  cacheMaxMb := rfl
  decisionCacheSize := rfl
  filtering _ := ⟨rfl, rfl⟩
  records _ := rfl
  devices _ := rfl
  dns _ := ⟨rfl, rfl, rfl⟩
  tunnels _ := rfl

theorem trans (h : Kept sections c c') (h' : Kept sections c' c'') : Kept sections c c'' where
  storage := h'.storage.trans h.storage
  api := h'.api.trans h.api
  panel := h'.panel.trans h.panel
  sync := h'.sync.trans h.sync
  others := h'.others.trans h.others
  debugLogging := h'.debugLogging.trans h.debugLogging
  webDir := h'.webDir.trans h.webDir
  bindAddr := h'.bindAddr.trans h.bindAddr
  cacheSize := h'.cacheSize.trans h.cacheSize
  cacheMaxMb := h'.cacheMaxMb.trans h.cacheMaxMb
  decisionCacheSize := h'.decisionCacheSize.trans h.decisionCacheSize
  filtering hs := ⟨(h'.filtering hs).1.trans (h.filtering hs).1,
    (h'.filtering hs).2.trans (h.filtering hs).2⟩
  records hs := (h'.records hs).trans (h.records hs)
  devices hs := (h'.devices hs).trans (h.devices hs)
  dns hs := ⟨(h'.dns hs).1.trans (h.dns hs).1, (h'.dns hs).2.1.trans (h.dns hs).2.1,
    (h'.dns hs).2.2.trans (h.dns hs).2.2⟩
  tunnels hs := (h'.tunnels hs).trans (h.tunnels hs)

/-- Taking a section keeps every field outside it. -/
theorem take {s : SyncSection} (hs : s ∈ sections) (primary c : Config R) :
    Kept sections c (Api.take primary c s) := by
  cases s with
  | filtering => exact { refl sections c with filtering := fun h => absurd hs h }
  | records => exact { refl sections c with records := fun h => absurd hs h }
  | devices => exact { refl sections c with devices := fun h => absurd hs h }
  | dns => exact { refl sections c with dns := fun h => absurd hs h }
  | tunnels => exact { refl sections c with tunnels := fun h => absurd hs h }

end Kept

theorem kept_merged (localConfig primary : Config R) (sections : List SyncSection) :
    Kept sections localConfig (merged localConfig primary sections) := by
  suffices h : ∀ rest : List SyncSection, rest ⊆ sections → ∀ c : Config R,
      Kept sections c (rest.foldl (take primary) c) from h sections (List.Subset.refl _) localConfig
  intro rest
  induction rest with
  | nil => exact fun _ c => .refl sections c
  | cons s rest ih =>
    intro hsub c
    have hs : s ∈ sections := hsub (List.mem_cons_self ..)
    exact (Kept.take hs primary c).trans
      (ih (fun x hx => hsub (List.mem_cons_of_mem s hx)) (take primary c s))

/-- **A copy makes what is compared equal**, and changes no other section. -/
theorem content_take (primary out : Config R) (s s' : SyncSection) :
    content (take primary out s') s = if s' = s then content primary s else content out s := by
  cases s' <;> cases s <;> rfl

/-- A copy that finds the section equal changes nothing. -/
theorem take_of_content_eq {primary out : Config R} {s : SyncSection}
    (h : content out s = content primary s) : take primary out s = out := by
  cases s with
  | filtering =>
    simp only [content, Prod.mk.injEq] at h
    have hblocklist : { primary.blocklist with
        decisionCacheSize := out.blocklist.decisionCacheSize } = out.blocklist := by
      have hrest := congrArg
        (fun b : BlocklistConfig => { b with decisionCacheSize := out.blocklist.decisionCacheSize })
        h.1
      exact hrest.symm
    simp only [take, hblocklist, ← h.2]
  | records => simp only [content] at h; simp only [take, ← h]
  | devices => simp only [content] at h; simp only [take, ← h]
  | dns =>
    simp only [content, Prod.mk.injEq] at h
    obtain ⟨⟨h1, h2, h3, h4, h5, h6, h7, h8, h9, h10, h11, h12, h13, h14⟩, hup, hzones⟩ := h
    simp only [take, ← h1, ← h2, ← h3, ← h4, ← h5, ← h6, ← h7, ← h8, ← h9, ← h10, ← h11, ← h12,
      ← h13, ← h14, ← hup, ← hzones]
  | tunnels => simp only [content] at h; simp only [take, ← h]

theorem content_merged (localConfig primary : Config R) (sections : List SyncSection)
    (s : SyncSection) :
    content (merged localConfig primary sections) s =
      if s ∈ sections then content primary s else content localConfig s := by
  unfold merged
  induction sections generalizing localConfig with
  | nil => rfl
  | cons s' sections ih =>
    rw [List.foldl_cons, ih, content_take]
    by_cases hmem : s ∈ sections
    · simp [hmem]
    · by_cases hs : s' = s
      · simp [hs]
      · simp [hmem, hs, Ne.symm hs]

/-- A plan over sections that do not differ changes nothing. -/
theorem merged_of_content_eq {localConfig primary : Config R} {sections : List SyncSection}
    (h : ∀ s ∈ sections, content localConfig s = content primary s) :
    merged localConfig primary sections = localConfig := by
  unfold merged
  induction sections with
  | nil => rfl
  | cons s sections ih =>
    rw [List.foldl_cons, take_of_content_eq (h s (List.mem_cons_self ..))]
    exact ih fun s' hs' => h s' (List.mem_cons_of_mem s hs')

section

variable {crates}

/-- What is applied has the fingerprint of the primary. -/
theorem fingerprint_merged (localConfig primary : Config R) (sections : List SyncSection) :
    fingerprint crates (merged localConfig primary sections) sections =
      fingerprint crates primary sections := by
  unfold fingerprint
  congr 1
  refine List.flatMap_congr fun s hs => ?_
  unfold part
  rw [content_merged, if_pos hs]

/-- Planning again after a plan finds nothing to do. -/
theorem plan_merged (localConfig primary : Config R) (sections : List SyncSection) :
    plan crates (merged localConfig primary sections) primary sections =
      (merged localConfig primary sections, []) := by
  have hsame : merged (merged localConfig primary sections) primary sections =
      merged localConfig primary sections :=
    merged_of_content_eq fun s hs => by rw [content_merged, if_pos hs]
  simp [plan, hsame]

/-- Where JSON tells sections apart, a plan that lists no change found no difference. -/
theorem plan_changed_eq_nil_iff {localConfig primary : Config R} {sections : List SyncSection}
    (hjson : ∀ s ∈ sections, crates.TellsApart localConfig primary s) :
    (plan crates localConfig primary sections).2 = [] ↔
      ∀ s ∈ sections, content localConfig s = content primary s := by
  simp only [plan, List.filter_eq_nil_iff, bne_iff_ne, ne_eq, not_not]
  refine forall₂_congr fun s hs => ?_
  rw [part, part, content_merged, if_pos hs]
  exact ⟨hjson s hs, congrArg _⟩

end

end Ferrite.Api
