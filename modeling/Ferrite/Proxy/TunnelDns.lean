import Ferrite.Lib.Dialogue
import Ferrite.Lib.Expiring
import Ferrite.Lib.Frames
import Ferrite.Lib.Threads
import Ferrite.Core.Addr
import Ferrite.Dns.Answers

/-!
# Names resolved through a tunnel

`proxy/src/egress/wireguard/dns.rs` and `resolve_host` of `egress/direct.rs`: a name routed to a
WireGuard egress is asked of the tunnel's own DNS server, over a TCP stream through the tunnel,
and what comes back is cached.  The box's upstreams are asked only when the tunnel has no server
or none that answers.

Any number of connections resolve names at once over one cache, and may be given up at any
await.  Of entries that expire at the same instant a full cache drops the first of its table,
where the source drops the first that its hash map comes to.

* `lookup_eq_some` — one question: the first message the stream holds, by its RCODE;
* `fromServer_spec`, `resolveAway_spec` — one call, as far as the network goes;
* `tunnel_cache_is_true` — over a run, what the cache says;
* `tunnel_asks_upstream_last` — over a run, what leaves the tunnel;
* `store_drops_soonest` — what a full cache gives up.
-/

namespace Ferrite.Proxy.TunnelDns

open Dialogue Dns Expiring Lts Threads

/-! ## One question -/

/-- Durations are in nanoseconds. -/
def secs (n : ℕ) : ℕ := n * 1000000000

/-- `DNS_MIN_TTL` and `DNS_MAX_TTL`. -/
def dnsMinTtl : ℕ := secs 30
def dnsMaxTtl : ℕ := secs 3600

/-- `DNS_CACHE_CAP`. -/
def dnsCacheCap : ℕ := 1024

/-- The TTL of a record, in the caching window. -/
def clampTtl (ttl : UInt32) : ℕ := max dnsMinTtl (min (secs ttl.toNat) dnsMaxTtl)

/-- `DnsAnswer`. -/
inductive DnsAnswer where
  | found (ip : IpAddr) (ttl : ℕ)
  | noData
  | nxDomain
deriving DecidableEq, Repr

/-- The address of an A or AAAA record. -/
def addressOf : RData → Option IpAddr
  | .a ip => some (.v4 ip)
  | .aaaa ip => some (.v6 ip)
  | _ => none

/-- The query for a host; neither the name nor the message need be one. -/
def queryFor (codec : Codec) (host : Text) (rtype : UInt16) : Option Bytes := do
  let name ← codec.nameFromStr (host.trimEndMatches (· == '.') ++ ['.'])
  let msg := Message.new 0 false
  codec.toBytes { msg with
    metadata := { msg.metadata with recursionDesired := true }
    queries := [Query.query name rtype] }

/-- The stream's part of `lookup`. -/
def exchange (query : Bytes) : Talk Text (Lost Text) Bytes := do
  writeAll (Frames.frame query)
  let len ← readExact 2
  readExact (len.readU16 0).toNat

/-- The end of `lookup`; `none` is an error. -/
def classify (parsed : Message) : Option DnsAnswer :=
  if parsed.metadata.responseCode = noError then
    match parsed.answers.findSome? fun rr =>
      (addressOf rr.data).map fun ip => (ip, clampTtl rr.ttl) with
    | some (ip, ttl) => some (.found ip ttl)
    | none => some .noData
  else if parsed.metadata.responseCode = nxDomain then some .nxDomain
  else none

/-- `lookup`, on what `open` comes to; `none` is an error, and so is a stream that is silent for
`DNS_TIMEOUT`. -/
def lookup (codec : Codec) (host : Text) (rtype : UInt16) (stream : Option (Line Text)) :
    Option DnsAnswer := do
  let query ← queryFor codec host rtype
  let line ← stream
  match run (exchange query) line with
  | (.ok resp, _) => (codec.fromBytes resp).bind classify
  | (.error _, _) => none

/-! ## One call -/

/-- What the network does in a call: the stream to the tunnel's server for each type, if it
opens, and what the upstreams say. -/
structure Heard where
  tunnel : UInt16 → Option (Line Text)
  upstream : UInt16 → Option Bytes

/-- `query_addr`. -/
def queryAddr (codec : Codec) (host : Text) (rtype : UInt16) (resp : Option Bytes) :
    Option IpAddr := do
  let _ ← queryFor codec host rtype
  let parsed ← codec.fromBytes (← resp)
  parsed.answers.findSome? fun rr => addressOf rr.data

/-- `resolve_host`: what the upstreams are asked, and the address. -/
def resolveHost (codec : Codec) (host : Text) (heard : Heard) : List Bytes × Option IpAddr :=
  match Reader.parse Reader.ip host with
  | some ip => ([], some ip)
  | none =>
    let asked := (queryFor codec host typeA).toList
    match queryAddr codec host typeA (heard.upstream typeA) with
    | some ip => (asked, some ip)
    | none =>
      (asked ++ (queryFor codec host typeAaaa).toList,
        queryAddr codec host typeAaaa (heard.upstream typeAaaa))

/-- The loop over the record types: what is to be cached, with its TTL, or nothing. -/
def fromServer (codec : Codec) (host : Text) (heard : Heard) :
    List UInt16 → Option (Option IpAddr × ℕ)
  | [] => none
  | rtype :: rtypes =>
    match lookup codec host rtype (heard.tunnel rtype) with
    | some (.found ip ttl) => some (some ip, ttl)
    | some .noData => fromServer codec host heard rtypes
    | some .nxDomain => some (none, dnsMinTtl)
    | none => none

/-- `resolve` between the read and the write of the cache: what the upstreams are asked, and what
is to be cached.  Without anything to cache the call fails. -/
def resolveAway (codec : Codec) (dns : List IpAddr) (host : Text) (heard : Heard) :
    List Bytes × Option (Option IpAddr × ℕ) :=
  match (if dns.head?.isSome then fromServer codec host heard [typeA, typeAaaa] else none) with
  | some answer => ([], some answer)
  | none =>
    let (asked, ip) := resolveHost codec host heard
    (asked, ip.map fun ip => (some ip, dnsMinTtl))

/-! ## All calls of an egress -/

/-- The key of a host in the cache. -/
def cacheKey (host : Text) : Text := (host.trimEndMatches (· == '.')).toAsciiLowercase

/-- What an entry came from. -/
structure Origin where
  host : Text
  heard : Heard

/-- Where a call of `resolve` is. -/
inductive Call where
  | away (host : Text)
  | storing (origin : Origin) (ip : Option IpAddr) (ttl : ℕ)

/-- A `TunnelResolver` with its calls: the clock, what was cached, the latest first, and what
the upstreams were asked. -/
structure Resolver where
  cache : Cache Text (Option IpAddr)
  clock : ℕ
  calls : Table ℕ Call
  stored : List (Put Text (Option IpAddr) Origin)
  asked : List (Origin × Bytes)

/-- A step of one call. -/
inductive CallStep where
  /-- The read of the cache. -/
  | start (t : ℕ) (host : Text) (now : ℕ)
  /-- The network's part. -/
  | hear (t : ℕ) (heard : Heard)
  /-- The write: room is made at `now`, and the entry is dated `start`. -/
  | store (t : ℕ) (now start : ℕ)
  /-- The connection is gone, and the call with it. -/
  | cancel (t : ℕ)

/-- `new`. -/
def Resolver.new : Resolver := ⟨∅, 0, ∅, [], []⟩

variable (codec : Codec) (dns : List IpAddr)

def Resolver.step (s : Resolver) : CallStep → Option Resolver
  | .start t host now =>
    if (s.calls.lookup t).isSome ∨ now < s.clock then none
    else
      let (said, cache) := Expiring.get s.cache (cacheKey host) now
      some { s with
        cache := cache
        clock := now
        calls := put s.calls t (if said.isSome then none else some (.away host)) }
  | .hear t heard =>
    match s.calls.lookup t with
    | some (.away host) =>
      let (asked, answer) := resolveAway codec dns host heard
      some { s with
        calls := put s.calls t (answer.map fun (ip, ttl) => .storing ⟨host, heard⟩ ip ttl)
        asked := s.asked ++ asked.map fun query => (⟨host, heard⟩, query) }
    | _ => none
  | .store t now start =>
    match s.calls.lookup t with
    | some (.storing origin ip ttl) =>
      if now < s.clock ∨ start < now then none
      else
        some { s with
          cache := Expiring.put dnsCacheCap s.cache (cacheKey origin.host) ip now start ttl
          clock := start
          calls := put s.calls t none
          stored := ⟨cacheKey origin.host, ip, start, ttl, origin⟩ :: s.stored }
    | _ => none
  | .cancel t => some { s with calls := put s.calls t none }

/-! ## What one question brings -/

/-- The tunnel's server replied `m` to the question for one type: the question fitted on the
stream, and the first message on it is `m`. -/
def Replied (host : Text) (rtype : UInt16) (stream : Option (Line Text)) (m : Message) : Prop :=
  ∃ query line resp rest, queryFor codec host rtype = some query ∧ stream = some line ∧
    (Frames.frame query).length ≤ line.room ∧ Frames.readFrame line.incoming = some (resp, rest) ∧
    codec.fromBytes resp = some m

theorem exchange_eq_ok {query resp : Bytes} {line : Line Text} :
    (∃ line', run (exchange query) line = (.ok resp, line')) ↔
      (Frames.frame query).length ≤ line.room ∧
        ∃ rest, Frames.readFrame line.incoming = some (resp, rest) := by
  unfold run exchange
  simp only [bind_eq_ok, writeAll_eq_ok, readExact_eq_ok, Frames.readFrame_eq_some_iff]
  constructor
  · rintro ⟨line', ⟨⟩, l₁, ⟨hroom, rfl⟩, len, l₂, ⟨htwo, hin, hl₂⟩, hlen, hin₂, -⟩
    refine ⟨hroom, line'.incoming, len, htwo, ?_, hlen.symm⟩
    rw [hl₂] at hin₂
    rw [List.append_assoc, ← hin₂]
    exact hin
  · rintro ⟨hroom, rest, len, htwo, hin, hlen⟩
    exact ⟨⟨rest, line.room - (Frames.frame query).length, line.ending,
        line.sent ++ Frames.frame query⟩, (), _, ⟨hroom, rfl⟩, len, ⟨resp ++ rest, _, _, _⟩,
      ⟨htwo, by rw [hin, List.append_assoc], rfl⟩, hlen.symm, rfl, rfl⟩

variable {codec dns} {host : Text} {rtype : UInt16} {stream : Option (Line Text)} {heard : Heard}

/-- **One question.**  What comes of it is what the reply says. -/
theorem lookup_eq_some {answer : DnsAnswer} : lookup codec host rtype stream = some answer ↔
    ∃ m, Replied codec host rtype stream m ∧ classify m = some answer := by
  unfold lookup Replied
  simp only [Option.bind_eq_bind, Option.bind_eq_some_iff]
  constructor
  · rintro ⟨query, hquery, line, hline, h⟩
    split at h
    · rename_i resp line' hrun
      obtain ⟨m, hm, hanswer⟩ := Option.bind_eq_some_iff.1 h
      obtain ⟨hroom, rest, hframe⟩ := exchange_eq_ok.1 ⟨line', hrun⟩
      exact ⟨m, ⟨query, line, resp, rest, hquery, hline, hroom, hframe, hm⟩, hanswer⟩
    · cases h
  · rintro ⟨m, ⟨query, line, resp, rest, hquery, hline, hroom, hframe, hm⟩, hanswer⟩
    obtain ⟨line', hrun⟩ := exchange_eq_ok.2 ⟨hroom, rest, hframe⟩
    refine ⟨query, hquery, line, hline, ?_⟩
    rw [hrun]
    show (codec.fromBytes resp).bind classify = some answer
    rw [hm]
    exact hanswer

/-- The server named an address, and how long it holds. -/
def Found (codec : Codec) (o : Origin) (ip : IpAddr) (ttl : ℕ) : Prop :=
  ∃ rtype ∈ [typeA, typeAaaa], ∃ m, Replied codec o.host rtype (o.heard.tunnel rtype) m ∧
    m.metadata.responseCode = noError ∧
    ∃ rr ∈ m.answers, addressOf rr.data = some ip ∧ ttl = clampTtl rr.ttl

/-- The server said that there is no such name. -/
def Denied (codec : Codec) (o : Origin) : Prop :=
  ∃ rtype ∈ [typeA, typeAaaa], ∃ m, Replied codec o.host rtype (o.heard.tunnel rtype) m ∧
    m.metadata.responseCode = nxDomain

/-- The server knows the name, but no address of it. -/
def NoAddress (codec : Codec) (o : Origin) (rtype : UInt16) : Prop :=
  ∃ m, Replied codec o.host rtype (o.heard.tunnel rtype) m ∧
    m.metadata.responseCode = noError ∧ ∀ rr ∈ m.answers, addressOf rr.data = none

/-- No reply, or one that says nothing of the name. -/
def Unanswered (codec : Codec) (o : Origin) (rtype : UInt16) : Prop :=
  ∀ m, Replied codec o.host rtype (o.heard.tunnel rtype) m →
    m.metadata.responseCode ≠ noError ∧ m.metadata.responseCode ≠ nxDomain

/-- The tunnel has no server, or nothing of use came from it. -/
def GivenUp (codec : Codec) (dns : List IpAddr) (o : Origin) : Prop :=
  dns = [] ∨ Unanswered codec o typeA ∨
    (NoAddress codec o typeA ∧ (Unanswered codec o typeAaaa ∨ NoAddress codec o typeAaaa))

/-- The host is an address, or an upstream named one. -/
def FromUpstream (codec : Codec) (o : Origin) (ip : IpAddr) : Prop :=
  Reader.parse Reader.ip o.host = some ip ∨
    ∃ rtype ∈ [typeA, typeAaaa], ∃ resp m, o.heard.upstream rtype = some resp ∧
      codec.fromBytes resp = some m ∧ ∃ rr ∈ m.answers, addressOf rr.data = some ip

/-- What may be cached, and for how long. -/
inductive Told (codec : Codec) (dns : List IpAddr) (o : Origin) : Option IpAddr → ℕ → Prop where
  | found {ip ttl} (hserver : dns ≠ []) (h : Found codec o ip ttl) : Told codec dns o (some ip) ttl
  | denied (hserver : dns ≠ []) (h : Denied codec o) : Told codec dns o none dnsMinTtl
  | upstream {ip} (h : GivenUp codec dns o) (hip : FromUpstream codec o ip) :
      Told codec dns o (some ip) dnsMinTtl

theorem clampTtl_bounds (ttl : UInt32) : dnsMinTtl ≤ clampTtl ttl ∧ clampTtl ttl ≤ dnsMaxTtl := by
  have : dnsMinTtl ≤ dnsMaxTtl := by decide
  unfold clampTtl
  omega

theorem Told.ttl_bounds {o : Origin} {r : Option IpAddr} {ttl : ℕ} (h : Told codec dns o r ttl) :
    dnsMinTtl ≤ ttl ∧ ttl ≤ dnsMaxTtl := by
  have hle : dnsMinTtl ≤ dnsMaxTtl := by decide
  cases h with
  | found _ h =>
    obtain ⟨_, _, _, _, _, rr, _, _, rfl⟩ := h
    exact clampTtl_bounds rr.ttl
  | denied => exact ⟨le_rfl, hle⟩
  | upstream => exact ⟨le_rfl, hle⟩

theorem classify_found {m : Message} {ip : IpAddr} {ttl : ℕ}
    (h : classify m = some (.found ip ttl)) : m.metadata.responseCode = noError ∧
      ∃ rr ∈ m.answers, addressOf rr.data = some ip ∧ ttl = clampTtl rr.ttl := by
  unfold classify at h
  split at h
  · rename_i hok
    split at h
    · rename_i hfirst
      cases h
      obtain ⟨rr, hrr, hmap⟩ := List.exists_of_findSome?_eq_some hfirst
      obtain ⟨ip', hip, heq⟩ := Option.map_eq_some_iff.1 hmap
      cases heq
      exact ⟨hok, rr, hrr, hip, rfl⟩
    · cases h
  · split at h <;> cases h

theorem classify_noData {m : Message} (h : classify m = some .noData) :
    m.metadata.responseCode = noError ∧ ∀ rr ∈ m.answers, addressOf rr.data = none := by
  unfold classify at h
  split at h
  · rename_i hok
    split at h
    · cases h
    · rename_i hnone
      refine ⟨hok, fun rr hrr => ?_⟩
      have := List.findSome?_eq_none_iff.1 hnone rr hrr
      rwa [Option.map_eq_none_iff] at this
  · split at h <;> cases h

theorem classify_nxDomain {m : Message} (h : classify m = some .nxDomain) :
    m.metadata.responseCode = nxDomain := by
  unfold classify at h
  split at h
  · split at h <;> cases h
  · split at h
    · rename_i hnx
      exact hnx
    · cases h

theorem classify_none {m : Message} (h : classify m = none) :
    m.metadata.responseCode ≠ noError ∧ m.metadata.responseCode ≠ nxDomain := by
  unfold classify at h
  split at h
  · split at h <;> cases h
  · rename_i hok
    split at h
    · cases h
    · rename_i hnx
      exact ⟨hok, hnx⟩

theorem noAddress_of_lookup {o : Origin}
    (h : lookup codec o.host rtype (o.heard.tunnel rtype) = some .noData) :
    NoAddress codec o rtype := by
  obtain ⟨m, hm, hclass⟩ := lookup_eq_some.1 h
  exact ⟨m, hm, classify_noData hclass⟩

theorem unanswered_of_lookup {o : Origin}
    (h : lookup codec o.host rtype (o.heard.tunnel rtype) = none) : Unanswered codec o rtype := by
  intro m hm
  refine classify_none ?_
  by_contra hclass
  obtain ⟨answer, hanswer⟩ := Option.ne_none_iff_exists'.1 hclass
  rw [lookup_eq_some.2 ⟨m, hm, hanswer⟩] at h
  cases h

/-- **The loop over the types.**  An address, a denial, or nothing of use. -/
theorem fromServer_spec (o : Origin) :
    match fromServer codec o.host o.heard [typeA, typeAaaa] with
    | some (some ip, ttl) => Found codec o ip ttl
    | some (none, ttl) => ttl = dnsMinTtl ∧ Denied codec o
    | none => Unanswered codec o typeA ∨
        (NoAddress codec o typeA ∧ (Unanswered codec o typeAaaa ∨ NoAddress codec o typeAaaa)) := by
  have hfound : ∀ rtype ∈ [typeA, typeAaaa], ∀ ip ttl,
      lookup codec o.host rtype (o.heard.tunnel rtype) = some (.found ip ttl) →
        Found codec o ip ttl := by
    intro rtype hrtype ip ttl h
    obtain ⟨m, hm, hclass⟩ := lookup_eq_some.1 h
    exact ⟨rtype, hrtype, m, hm, classify_found hclass⟩
  have hdenied : ∀ rtype ∈ [typeA, typeAaaa],
      lookup codec o.host rtype (o.heard.tunnel rtype) = some .nxDomain → Denied codec o := by
    intro rtype hrtype h
    obtain ⟨m, hm, hclass⟩ := lookup_eq_some.1 h
    exact ⟨rtype, hrtype, m, hm, classify_nxDomain hclass⟩
  cases hA : lookup codec o.host typeA (o.heard.tunnel typeA) with
  | none =>
    simp only [fromServer, hA]
    exact Or.inl (unanswered_of_lookup hA)
  | some answer =>
    cases answer with
    | found ip ttl =>
      simp only [fromServer, hA]
      exact hfound typeA (by simp) ip ttl hA
    | nxDomain =>
      simp only [fromServer, hA]
      exact ⟨trivial, hdenied typeA (by simp) hA⟩
    | noData =>
      have hnoA := noAddress_of_lookup hA
      cases hAaaa : lookup codec o.host typeAaaa (o.heard.tunnel typeAaaa) with
      | none =>
        simp only [fromServer, hA, hAaaa]
        exact Or.inr ⟨hnoA, Or.inl (unanswered_of_lookup hAaaa)⟩
      | some answer =>
        cases answer with
        | found ip ttl =>
          simp only [fromServer, hA, hAaaa]
          exact hfound typeAaaa (by simp) ip ttl hAaaa
        | nxDomain =>
          simp only [fromServer, hA, hAaaa]
          exact ⟨trivial, hdenied typeAaaa (by simp) hAaaa⟩
        | noData =>
          simp only [fromServer, hA, hAaaa]
          exact Or.inr ⟨hnoA, Or.inr (noAddress_of_lookup hAaaa)⟩

theorem queryAddr_eq_some {resp : Option Bytes} {ip : IpAddr}
    (h : queryAddr codec host rtype resp = some ip) : ∃ bytes m, resp = some bytes ∧
      codec.fromBytes bytes = some m ∧ ∃ rr ∈ m.answers, addressOf rr.data = some ip := by
  unfold queryAddr at h
  simp only [Option.bind_eq_bind, Option.bind_eq_some_iff] at h
  obtain ⟨_, _, bytes, hbytes, m, hm, hfirst⟩ := h
  obtain ⟨rr, hrr, hip⟩ := List.exists_of_findSome?_eq_some hfirst
  exact ⟨bytes, m, hbytes, hm, rr, hrr, hip⟩

theorem fromUpstream_of_resolveHost {o : Origin} {ip : IpAddr}
    (h : (resolveHost codec o.host o.heard).2 = some ip) : FromUpstream codec o ip := by
  unfold resolveHost at h
  split at h
  · rename_i ip' hip
    cases h
    exact Or.inl hip
  · simp only at h
    split at h
    · rename_i ip' hip
      cases h
      exact Or.inr ⟨typeA, by simp, queryAddr_eq_some hip⟩
    · exact Or.inr ⟨typeAaaa, by simp, queryAddr_eq_some h⟩

/-- The upstreams are asked for the one type, and for the other if that brought nothing. -/
theorem mem_resolveHost {o : Origin} {query : Bytes}
    (h : query ∈ (resolveHost codec o.host o.heard).1) : Reader.parse Reader.ip o.host = none ∧
      (queryFor codec o.host typeA = some query ∨
        (queryFor codec o.host typeAaaa = some query ∧
          queryAddr codec o.host typeA (o.heard.upstream typeA) = none)) := by
  unfold resolveHost at h
  split at h
  · cases h
  · rename_i hname
    simp only at h
    split at h
    · rw [Option.mem_toList] at h
      exact ⟨hname, Or.inl h⟩
    · rename_i hA
      rw [List.mem_append, Option.mem_toList, Option.mem_toList] at h
      exact ⟨hname, h.imp_right fun h => ⟨h, hA⟩⟩

/-- **One call.**  What is to be cached was told, and the upstreams are asked only when the
tunnel's server was given up on. -/
theorem resolveAway_spec (o : Origin) :
    (∀ r ttl, (resolveAway codec dns o.host o.heard).2 = some (r, ttl) → Told codec dns o r ttl) ∧
      ∀ query ∈ (resolveAway codec dns o.host o.heard).1, GivenUp codec dns o ∧
        query ∈ (resolveHost codec o.host o.heard).1 := by
  have hup : ∀ r ttl, (resolveHost codec o.host o.heard).2.map
      (fun ip => (some ip, dnsMinTtl)) = some (r, ttl) → GivenUp codec dns o →
        Told codec dns o r ttl := by
    intro r ttl h hgiven
    obtain ⟨ip, hip, heq⟩ := Option.map_eq_some_iff.1 h
    cases heq
    exact .upstream hgiven (fromUpstream_of_resolveHost hip)
  cases dns with
  | nil =>
    exact ⟨fun r ttl h => hup r ttl h (Or.inl rfl), fun query hq => ⟨Or.inl rfl, hq⟩⟩
  | cons server servers =>
    have hsome : server :: servers ≠ [] := by simp
    have hspec := @fromServer_spec codec o
    unfold resolveAway
    rw [List.head?_cons, Option.isSome_some, if_pos rfl]
    cases hserver : fromServer codec o.host o.heard [typeA, typeAaaa] with
    | none =>
      rw [hserver] at hspec
      exact ⟨fun r ttl h => hup r ttl h (Or.inr hspec), fun query hq => ⟨Or.inr hspec, hq⟩⟩
    | some answer =>
      obtain ⟨r, ttl⟩ := answer
      rw [hserver] at hspec
      refine ⟨fun r' ttl' h => ?_, fun query hq => by cases hq⟩
      cases h
      cases r with
      | none =>
        obtain ⟨rfl, hdenied⟩ := hspec
        exact .denied hsome hdenied
      | some ip => exact .found hsome hspec

/-! ## All runs -/

/-- What holds of the cache, of what was cached and of what the upstreams were asked. -/
structure Good (codec : Codec) (dns : List IpAddr) (s : Resolver) : Prop where
  remembers : Remembers s.cache s.stored
  bounded : s.cache.entries.length ≤ dnsCacheCap
  told : ∀ p ∈ s.stored, p.key = cacheKey p.note.host ∧ p.start ≤ s.clock ∧
    Told codec dns p.note p.value p.ttl
  storing : ∀ t o r ttl, s.calls.lookup t = some (.storing o r ttl) → Told codec dns o r ttl
  asked : ∀ x ∈ s.asked, GivenUp codec dns x.1 ∧ x.2 ∈ (resolveHost codec x.1.host x.1.heard).1

theorem Good.new : Good codec dns Resolver.new where
  remembers := Remembers.empty
  bounded := Nat.zero_le _
  told := by simp [Resolver.new]
  storing := by simp [Resolver.new]
  asked := by simp [Resolver.new]

variable {s s' : Resolver} {a : CallStep}

/-- What a step does. -/
theorem step_cases (h : s.step codec dns a = some s') :
    (∃ t host now, a = .start t host now ∧ s.clock ≤ now ∧ s' =
      { s with
        cache := (Expiring.get s.cache (cacheKey host) now).2
        clock := now
        calls := put s.calls t (if (Expiring.get s.cache (cacheKey host) now).1.isSome then none
          else some (.away host)) }) ∨
    (∃ t heard host, a = .hear t heard ∧ s.calls.lookup t = some (.away host) ∧ s' =
      { s with
        calls := put s.calls t ((resolveAway codec dns host heard).2.map
          fun x => .storing ⟨host, heard⟩ x.1 x.2)
        asked := s.asked ++ (resolveAway codec dns host heard).1.map
          fun query => (⟨host, heard⟩, query) }) ∨
    (∃ t now start o r ttl, a = .store t now start ∧
      s.calls.lookup t = some (.storing o r ttl) ∧ s.clock ≤ now ∧ now ≤ start ∧ s' =
      { s with
        cache := Expiring.put dnsCacheCap s.cache (cacheKey o.host) r now start ttl
        clock := start
        calls := put s.calls t none
        stored := ⟨cacheKey o.host, r, start, ttl, o⟩ :: s.stored }) ∨
    ∃ t, a = .cancel t ∧ s' = { s with calls := put s.calls t none } := by
  cases a with
  | start t host now =>
    rw [Resolver.step] at h
    split at h
    · cases h
    · rename_i hfree
      rw [not_or, Nat.not_lt] at hfree
      exact Or.inl ⟨t, host, now, rfl, hfree.2, (Option.some.inj h).symm⟩
  | hear t heard =>
    rw [Resolver.step] at h
    split at h
    · rename_i host hcall
      exact Or.inr (Or.inl ⟨t, heard, host, rfl, hcall, (Option.some.inj h).symm⟩)
    · cases h
  | store t now start =>
    rw [Resolver.step] at h
    split at h
    · rename_i o r ttl hcall
      split at h
      · cases h
      · rename_i htime
        rw [not_or, Nat.not_lt, Nat.not_lt] at htime
        exact Or.inr (Or.inr (Or.inl ⟨t, now, start, o, r, ttl, rfl, hcall, htime.1, htime.2,
          (Option.some.inj h).symm⟩))
    · cases h
  | cancel t => exact Or.inr (Or.inr (Or.inr ⟨t, rfl, (Option.some.inj h).symm⟩))

/-- A call that only goes on or ends leaves the others where they are. -/
theorem Good.storing_put (h : Good codec dns s) {t : ℕ} {call : Option Call}
    (hcall : ∀ o r ttl, call = some (.storing o r ttl) → Told codec dns o r ttl) :
    ∀ u o r ttl, (put s.calls t call).lookup u = some (.storing o r ttl) →
      Told codec dns o r ttl := by
  intro u o r ttl hu
  obtain ⟨-, hu⟩ | ⟨-, hu⟩ := lookup_put_iff.1 hu
  · exact hcall o r ttl hu
  · exact h.storing u o r ttl hu

theorem good_step (h : Good codec dns s) (hstep : s.step codec dns a = some s') :
    Good codec dns s' := by
  obtain ⟨t, host, now, -, hnow, rfl⟩ | ⟨t, heard, host, -, -, rfl⟩ |
    ⟨t, now, start, o, r, ttl, -, hcall, hnow, hstart, rfl⟩ | ⟨t, -, rfl⟩ := step_cases hstep
  · -- a read
    refine ⟨h.remembers.get _ now, (length_get_le ..).trans h.bounded, ?_, ?_, h.asked⟩
    · intro p hp
      obtain ⟨hkey, hclock, htold⟩ := h.told p hp
      exact ⟨hkey, hclock.trans hnow, htold⟩
    · refine h.storing_put fun o r ttl hcall => ?_
      split at hcall <;> cases hcall
  · -- the network's part
    obtain ⟨htold, hasked⟩ := @resolveAway_spec codec dns ⟨host, heard⟩
    refine ⟨h.remembers, h.bounded, h.told, ?_, ?_⟩
    · refine h.storing_put fun o r ttl hcall => ?_
      obtain ⟨⟨r', ttl'⟩, hanswer, heq⟩ := Option.map_eq_some_iff.1 hcall
      cases heq
      exact htold r' ttl' hanswer
    · intro x hx
      obtain hx | hx := List.mem_append.1 hx
      · exact h.asked x hx
      · obtain ⟨query, hquery, rfl⟩ := List.mem_map.1 hx
        exact hasked query hquery
  · -- a write
    refine ⟨h.remembers.put dnsCacheCap now ⟨cacheKey o.host, r, start, ttl, o⟩,
      length_put_le (by decide) .., ?_, h.storing_put (by simp), h.asked⟩
    intro p hp
    obtain rfl | hp := List.mem_cons.1 hp
    · exact ⟨rfl, le_rfl, h.storing t o r ttl hcall⟩
    · obtain ⟨hkey, hclock, htold⟩ := h.told p hp
      exact ⟨hkey, hclock.trans (hnow.trans hstart), htold⟩
  · exact ⟨h.remembers, h.bounded, h.told, h.storing_put (by simp), h.asked⟩

/-- How many names were ever cached. -/
def Resolver.names (s : Resolver) : ℕ := (s.stored.map Put.key).toFinset.card

/-- As long as there are fewer names than places, nothing live is lost. -/
def Roomy (s : Resolver) : Prop := s.names < dnsCacheCap → KeepsLive s.cache s.stored s.clock

theorem roomy_step (hgood : Good codec dns s) (h : Roomy s)
    (hstep : s.step codec dns a = some s') : Roomy s' := by
  obtain ⟨t, host, now, -, hnow, rfl⟩ | ⟨t, heard, host, -, -, rfl⟩ |
    ⟨t, now, start, o, r, ttl, -, -, hnow, hstart, rfl⟩ | ⟨t, -, rfl⟩ := step_cases hstep
  · intro hfew
    exact ((h hfew).later hnow).get _
  · exact h
  · intro hfew
    have hle : s.names ≤ ((⟨cacheKey o.host, r, start, ttl, o⟩ :: s.stored).map
        Put.key).toFinset.card := by
      refine Finset.card_le_card ?_
      rw [List.map_cons, List.toFinset_cons]
      exact Finset.subset_insert ..
    have hold : s.names < dnsCacheCap := hle.trans_lt hfew
    have hroom := hgood.remembers.length_le.trans_lt hold
    exact (((h hold).later (hnow.trans hstart)).put hroom ⟨cacheKey o.host, r, start, ttl, o⟩)
  · exact h

/-- **The cache is true.**  Whatever calls are on their way, it has at most 1024 entries; what it
says of a name is the latest that was cached of it, not yet expired, and what was cached was
told: by the tunnel's server, or, for thirty seconds, by an upstream after the server was given
up on.  That a name does not exist is only ever had from the server.  With fewer names than
places it says all it could. -/
theorem tunnel_cache_is_true {steps : List CallStep}
    (h : exec (Resolver.step codec dns) .new steps = some s) :
    s.cache.entries.length ≤ 1024 ∧
    ∀ host now, s.clock ≤ now →
      (∀ r, (Expiring.get s.cache (cacheKey host) now).1 = some r →
        ∃ p, latest s.stored (cacheKey host) = some p ∧ p.value = r ∧
          cacheKey p.note.host = cacheKey host ∧ p.start ≤ now ∧ now < p.start + p.ttl ∧
          secs 30 ≤ p.ttl ∧ p.ttl ≤ secs 3600 ∧ Told codec dns p.note r p.ttl) ∧
      (s.names < 1024 → ∀ p, latest s.stored (cacheKey host) = some p →
        now < p.start + p.ttl → (Expiring.get s.cache (cacheKey host) now).1 = some p.value) := by
  have hkept : ∀ s a s', Good codec dns s ∧ Roomy s → s.step codec dns a = some s' →
      Good codec dns s' ∧ Roomy s' :=
    fun s a s' hs hstep => ⟨good_step hs.1 hstep, roomy_step hs.1 hs.2 hstep⟩
  obtain ⟨hgood, hroomy⟩ :=
    inv_of_exec_all (Resolver.step codec dns) hkept ⟨Good.new, fun _ => KeepsLive.empty _⟩ h
  refine ⟨hgood.bounded, fun host now hnow => ⟨fun r hr => ?_, fun hfew p hp hlive => ?_⟩⟩
  · obtain ⟨p, hp, rfl, hlive⟩ := hgood.remembers.hit hr
    obtain ⟨hmem, hkey⟩ := mem_of_latest hp
    obtain ⟨hhost, hclock, htold⟩ := hgood.told p hmem
    obtain ⟨hmin, hmax⟩ := htold.ttl_bounds
    exact ⟨p, hp, rfl, hhost.symm.trans hkey, hclock.trans hnow, hlive, hmin, hmax, htold⟩
  · exact ((hroomy hfew).later hnow).hit hp hlive

/-! ### A name that does not exist -/

/-- The question for the host `a`, and the reply that there is no such name. -/
def absentQuery : Bytes := [0, 0, 1, 0, 0, 1, 0, 0, 0, 0, 0, 0, 1, 97, 0, 0, 1, 0, 1]
def absentReply : Bytes := [0, 0, 0x81, 0x83, 0, 1, 0, 0, 0, 0, 0, 0, 1, 97, 0, 0, 1, 0, 1]

def absentCodec : Codec :=
  { Codec.ofRows [
      (absentQuery, ⟨⟨0, false, 0, false, false, true, false, false, false, 0⟩,
        [Query.query [[97]] typeA], [], [], [], [], none⟩),
      (absentReply, ⟨⟨0, true, 0, false, false, true, true, false, false, nxDomain⟩,
        [Query.query [[97]] typeA], [], [], [], [], none⟩)] with
    nameFromStr := fun t => if t = ['a', '.'] then some [[97]] else none }

/-- The tunnel's server denies the name on a stream with a message behind that. -/
def absentHeard : Heard where
  tunnel _ := some ⟨Frames.frame absentReply ++ [0], 100, .silent, []⟩
  upstream _ := none

/-- The run: the question is asked and answered, and the answer cached. -/
def absentRun : List CallStep := [.start 7 ['a'] 1, .hear 7 absentHeard, .store 7 2 3]

theorem absent_is_remembered : ∃ s : Resolver,
    exec (Resolver.step absentCodec [.v4 .unspecified]) .new absentRun = some s ∧
      (Expiring.get s.cache (cacheKey ['A', '.']) 4).1 = some none ∧
      ∃ p, latest s.stored (cacheKey ['A', '.']) = some p ∧
        Told absentCodec [.v4 .unspecified] p.note none p.ttl := by
  refine ⟨_, rfl, rfl, ?_⟩
  obtain ⟨-, hcache⟩ :=
    @tunnel_cache_is_true absentCodec [.v4 .unspecified] _ absentRun rfl
  obtain ⟨p, hp, -, -, -, -, -, -, htold⟩ := (hcache ['A', '.'] 4 (by decide)).1 none rfl
  exact ⟨p, hp, htold⟩

/-- **What leaves the tunnel.**  Of the upstreams only the host of a call is asked, and only when
the tunnel has no server, or that one did not answer, or knew the name without an address; for
AAAA only when A brought no address there either. -/
theorem tunnel_asks_upstream_last {steps : List CallStep}
    (h : exec (Resolver.step codec dns) .new steps = some s) {o : Origin} {query : Bytes}
    (hquery : (o, query) ∈ s.asked) :
    GivenUp codec dns o ∧ Reader.parse Reader.ip o.host = none ∧
      (queryFor codec o.host typeA = some query ∨
        (queryFor codec o.host typeAaaa = some query ∧
          queryAddr codec o.host typeA (o.heard.upstream typeA) = none)) := by
  have hgood : Good codec dns s :=
    inv_of_exec_all (Resolver.step codec dns) (fun s a s' => good_step) Good.new h
  obtain ⟨hgiven, hmem⟩ := hgood.asked _ hquery
  exact ⟨hgiven, mem_resolveHost hmem⟩

/-- An egress without a DNS server asks an upstream. -/
theorem serverless_asks_upstream : ∃ s : Resolver, ∃ o,
    exec (Resolver.step absentCodec []) .new [.start 7 ['a'] 1, .hear 7 absentHeard] = some s ∧
      (o, absentQuery) ∈ s.asked ∧ GivenUp absentCodec [] o ∧
      Reader.parse Reader.ip o.host = none := by
  refine ⟨_, ⟨['a'], absentHeard⟩, rfl, List.mem_cons_self .., ?_⟩
  obtain ⟨hgiven, hname, -⟩ := @tunnel_asks_upstream_last absentCodec [] _
    [.start 7 ['a'] 1, .hear 7 absentHeard] rfl ⟨['a'], absentHeard⟩ absentQuery
    (List.mem_cons_self ..)
  exact ⟨hgiven, hname⟩

/-- A full cache gives up what expires soonest: a live entry that a write drops was one of at
least 1024 live ones, and no entry that stays expires sooner. -/
theorem store_drops_soonest {t now start : ℕ} {o : Origin} {r : Option IpAddr} {ttl : ℕ}
    (hcall : s.calls.lookup t = some (.storing o r ttl))
    (hstep : s.step codec dns (.store t now start) = some s') {key : Text}
    {e : Entry (Option IpAddr)} (hkey : key ≠ cacheKey o.host) (h : s.cache.lookup key = some e)
    (hlive : now < e.expires) (hgone : s'.cache.lookup key = none) :
    1024 ≤ (s.cache.retain fun _ e => now < e.expires).entries.length ∧
      ∀ key₁ e₁, key₁ ≠ cacheKey o.host → s'.cache.lookup key₁ = some e₁ →
        e.expires ≤ e₁.expires := by
  simp only [Resolver.step, hcall, Option.ite_none_left_eq_some] at hstep
  obtain ⟨-, heq⟩ := hstep
  rw [← Option.some.inj heq] at hgone ⊢
  exact expires_le_of_dropped hkey h hlive hgone

end Ferrite.Proxy.TunnelDns
