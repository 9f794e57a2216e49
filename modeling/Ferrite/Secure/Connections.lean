import Ferrite.Lib.Frames
import Ferrite.Lib.Lts
import Ferrite.Proxy.Arrival
import Ferrite.Secure.Requests

/-!
# Connections to encrypted DNS

The ways a query comes in: the box's own listeners, the port shared with Tunnels, a stream of
the relay, HTTP/3, and HTTP through a reverse proxy.  `secure/src/lib.rs`, `dot.rs`, `doh3.rs`
and `handle` of `proxy/src/intercept.rs` each have their part in whom a query is taken to be
from.

`Setup.step` is one action of a run: any interleaving of connections, queries and changes of the
two lists.  What a client puts in its stream, its TLS name, its path and its headers is in the
actions.  A client of HTTP/3 may move: QUIC lets a connection go on from another address, and the
box asks for the address once.

* `claims_of_handle` — whom a connection on the shared port is handed over for;
* `forwardedFor_forward` — whom the headers of a reverse proxy name.
-/

namespace Ferrite.Secure

open Proxy

/-! ## Who brings a stream -/

/-- `Default_`. -/
inductive Default where
  | tls
  | https
deriving DecidableEq

/-- Where a stream comes in. -/
inductive Way where
  | own (default : Default)
  | shared
  | relay (port : UInt16)
  | quic
deriving DecidableEq

/-- How a reverse proxy says whom it forwards for: its own `X-Real-IP` in place of any other,
or the last entry of `X-Forwarded-For`, in a header of its own or in the client's. -/
inductive Adds where
  | realIp
  | ownHeader
  | sameHeader
deriving DecidableEq

/-- The values of a header in one, as a proxy joins them. -/
def joinValues (values : List Bytes) : Bytes := [44, 32].intercalate values

/-- The headers a reverse proxy passes on, with its own value. -/
def Adds.forward (adds : Adds) (value : Bytes) (headers : Headers) : Headers :=
  match adds with
  | .realIp => (headers.filter fun h => h.1 ≠ xRealIp) ++ [(xRealIp, value)]
  | .ownHeader => headers ++ [(xForwardedFor, value)]
  | .sameHeader => (headers.filter fun h => h.1 ≠ xForwardedFor) ++
      [(xForwardedFor, joinValues (headers.getAll xForwardedFor ++ [value]))]

/-- Whose stream it is and who brings it: the client itself (or a relay that gives its
address), a proxy that passes the client's stream on behind `header`, or a reverse proxy with
a stream of its own. -/
inductive Source where
  | client (real : SocketAddr)
  | passed (proxy real : SocketAddr) (header : Bytes)
  | reverseProxy (proxy : SocketAddr) (adds : Adds)
deriving DecidableEq

namespace Source

/-- The peer of the socket, or of the relay's `Opening`. -/
def socket : Source → SocketAddr
  | client real => real
  | passed proxy _ _ => proxy
  | reverseProxy proxy _ => proxy

/-- What comes before the client's bytes. -/
def header : Source → Bytes
  | passed _ _ header => header
  | _ => []

/-- The client whose bytes the stream has. -/
def owner : Source → Option SocketAddr
  | client real => some real
  | passed _ real _ => some real
  | reverseProxy _ _ => none

/-- A proxy that puts a header in front does not name someone else in it. -/
def Honest : Source → Prop
  | passed _ real header => header = [] ∨
      Header.parse header = .present none header.length ∨
      Header.parse header = .present (some real) header.length
  | _ => True

instance : (source : Source) → Decidable source.Honest
  | client _ => isTrue trivial
  | passed _ _ _ => inferInstanceAs (Decidable (_ ∨ _))
  | reverseProxy _ _ => isTrue trivial

/-- The relay and QUIC bring a client's own stream only. -/
def ComesBy (source : Source) : Way → Prop
  | .own _ | .shared => True
  | .relay _ | .quic => source = .client source.socket

instance (source : Source) : (way : Way) → Decidable (source.ComesBy way)
  | .own _ | .shared => isTrue trivial
  | .relay _ | .quic => inferInstanceAs (Decidable (source = .client source.socket))

/-- What may stand at the beginning of the stream: anything behind the header, and from a
reverse proxy its TLS. -/
def Sends (source : Source) (bytes : Bytes) : Prop :=
  match source with
  | client _ => True
  | passed _ _ header => header <+: bytes
  | reverseProxy _ _ => bytes.head? = some tlsHandshake

instance (bytes : Bytes) : (source : Source) → Decidable (source.Sends bytes)
  | client _ => isTrue trivial
  | passed _ _ header => inferInstanceAs (Decidable (header <+: bytes))
  | reverseProxy _ _ => inferInstanceAs (Decidable (bytes.head? = some tlsHandshake))

end Source

/-! ## Connections -/

/-- How far a connection is. -/
inductive Phase where
  /-- in `handle` of Tunnels, where its socket is trusted or not -/
  | accepted (trusted : Bool)
  /-- in `serve`, with what the TLS library reads before the bytes still to come -/
  | handed (peer : SocketAddr) (stream : Bytes) (default : Default)
  | doh (peer : SocketAddr) (sniId : Option Text)
  | dot (peer : SocketAddr) (sniId : Option Text) (unread : Bytes)
  | quic (peer : SocketAddr)
  | doh3 (peer : SocketAddr) (sniId : Option Text)
deriving DecidableEq

structure Conn where
  source : Source
  phase : Phase
deriving DecidableEq

/-- A query that came to the gate: whose it is, the list it met, and whether it went on to the
resolver. -/
structure Judged where
  real : SocketAddr
  devices : List Text
  asked : Asked
  resolved : Bool
deriving DecidableEq

structure World where
  gate : Gate
  conns : ℕ → Option Conn
  judged : List Judged

/-- What a run does not change; `decodes` says that `refused` finds a query in a message. -/
structure Setup where
  hostname : Text
  shared : Option Default
  decode : Text → Option Bytes
  decodes : Bytes → Bool

inductive Action where
  | setDevices (devices : List Text)
  | setProxies (proxies : List Text)
  | accept (c : ℕ) (way : Way) (source : Source)
  | peeks (c : ℕ) (reads : List Bytes)
  | handshake (c : ℕ) (bytes : Bytes) (sni : Option Text) (alpn : Option Text)
  | migrates (c : ℕ) (real : SocketAddr)
  | request (c : ℕ) (req : Request) (free : Bool) (now : ℤ)
  | forwards (c : ℕ) (client : SocketAddr) (value : Bytes) (req : Request) (free : Bool) (now : ℤ)
  | sends (c : ℕ) (bytes : Bytes)
  | reads (c : ℕ) (free : Bool) (now : ℤ)

namespace World

def start (gate : Gate) : World := ⟨gate, fun _ => none, []⟩

def setPhase (w : World) (c : ℕ) (source : Source) (phase : Phase) : World :=
  { w with conns := Function.update w.conns c (some ⟨source, phase⟩) }

def close (w : World) (c : ℕ) : World := { w with conns := Function.update w.conns c none }

/-- A query comes to `resolve`. -/
def ask (w : World) (real : SocketAddr) (asked : Asked) (free : Bool) (now : ℤ) : World :=
  let done := resolve w.gate now free asked
  { w with
    gate := done.2
    judged := w.judged ++ [⟨real, w.gate.devices, asked, done.1.isResolved⟩] }

/-- A query over DNS over TLS comes to the gate. -/
def askDot (w : World) (real : SocketAddr) (asked : Asked) (free : Bool) (now : ℤ) : World :=
  let allowed := w.gate.allows now asked.peer.ip asked.id
  { w with
    gate := allowed.2
    judged := w.judged ++ [⟨real, w.gate.devices, asked, allowed.1 && free⟩] }

end World

/-- What is left of the bytes when the header is drained. -/
def behindHeader (whose : Whose) (bytes : Bytes) : Bytes :=
  match whose.header with
  | .present _ len => bytes.drop len
  | _ => bytes

namespace Setup

variable (setup : Setup)

/-- `claims`. -/
def claims (sni : Text) : Bool := setup.shared.isSome && isOurs sni setup.hostname

/-- `claims_unnamed`. -/
def claimsUnnamed (gate : Gate) (peer : SocketAddr) : Bool :=
  setup.shared.isSome && gate.trusts peer.ip

/-- Where a connection starts. -/
def accepted (gate : Gate) (source : Source) : Way → Phase
  | .own default => .handed (canonical source.socket) source.header default
  | .shared => .accepted (gate.trusts (canonical source.socket).ip)
  | .relay port => .handed (canonical source.socket) [] (if port = 853 then .tls else .https)
  | .quic => .quic (canonical source.socket)

/-- `take`: the connection goes to `serve` with what was read of it and is no header. -/
def take (whose : Whose) (bytes : Bytes) : Option Phase := do
  let default ← setup.shared
  let peer ← whose.peer
  return .handed (canonical peer) (behindHeader whose bytes) default

/-- `handle` up to the hand-off; `none` is a connection that is not for encrypted DNS. -/
def handle (gate : Gate) (via : SocketAddr) (trusted : Bool) (reads : List Bytes) : Option Phase :=
  match peek .tls (.start trusted (some via)) reads with
  | .host whose host => if setup.claims host then setup.take whose reads.flatten else none
  | .unnamed whose =>
    if setup.claimsUnnamed gate via then setup.take whose reads.flatten else none
  | _ => none

/-- Whether `serve` takes the connection for HTTP. -/
def https (default : Default) : Option Text → Bool
  | some alpn => alpn == "h2".toList || alpn == "http/1.1".toList
  | none => default == .https

/-- `serve` after the handshake.  A proxy cannot say over DNS over TLS whom it forwards for. -/
def serve (gate : Gate) (peer : SocketAddr) (default : Default) (sni alpn : Option Text) :
    Option Phase :=
  let sniId := sni.bind (clientIdFromSni · setup.hostname)
  if https default alpn then some (.doh peer sniId)
  else if gate.trusts peer.ip then none
  else some (.dot peer sniId [])

/-- One action.  A handshake needs a TLS record, and over QUIC the box's own name. -/
def step (w : World) : Action → Option World
  | .setDevices devices => some { w with gate := w.gate.setDevices devices }
  | .setProxies proxies => some { w with gate := w.gate.setProxies proxies }
  | .accept c way source =>
    if w.conns c = none ∧ source.Honest ∧ source.ComesBy way then
      some (w.setPhase c source (accepted w.gate source way))
    else none
  | .peeks c reads =>
    match w.conns c with
    | some ⟨source, .accepted trusted⟩ =>
      if source.Sends reads.flatten then
        match setup.handle w.gate (canonical source.socket) trusted reads with
        | some phase => some (w.setPhase c source phase)
        | none => some (w.close c)
      else none
    | _ => none
  | .handshake c bytes sni alpn =>
    match w.conns c with
    | some ⟨source, .handed peer stream default⟩ =>
      if (stream ++ bytes).head? = some tlsHandshake then
        match setup.serve w.gate peer default sni alpn with
        | some phase => some (w.setPhase c source phase)
        | none => some (w.close c)
      else some (w.close c)
    | some ⟨source, .quic peer⟩ =>
      if sni.all (isOurs · setup.hostname) then
        some (w.setPhase c source (.doh3 peer (sni.bind (clientIdFromSni · setup.hostname))))
      else some (w.close c)
    | _ => none
  | .migrates c real =>
    match w.conns c with
    -- `remote_address` has been read, and migration is left on
    | some ⟨.client _, .doh3 peer sniId⟩ => some (w.setPhase c (.client real) (.doh3 peer sniId))
    | _ => none
  | .request c req free now =>
    match w.conns c with
    | some ⟨source, .doh peer sniId⟩ => do
      let real ← source.owner
      match answer setup.decode w.gate peer sniId req with
      | .ok asked => some (w.ask real asked free now)
      | .error _ => some w
    | some ⟨source, .doh3 peer sniId⟩ => do
      let real ← source.owner
      match request3 setup.decode peer sniId req with
      | .ok asked => some (w.ask real asked free now)
      | .error _ => some w
    | _ => none
  | .forwards c client value req free now =>
    match w.conns c with
    | some ⟨.reverseProxy _ adds, .doh peer sniId⟩ =>
      if 44 ∉ value ∧ (toStr value).bind readClient = some (unmapV4 client.ip) then
        let req := { req with headers := adds.forward value req.headers }
        match answer setup.decode w.gate peer sniId req with
        | .ok asked => some (w.ask client asked free now)
        | .error _ => some w
      else none
    | _ => none
  | .sends c bytes =>
    match w.conns c with
    | some ⟨source, .dot peer sniId unread⟩ =>
      some (w.setPhase c source (.dot peer sniId (unread ++ bytes)))
    | _ => none
  | .reads c free now =>
    match w.conns c with
    | some ⟨source, .dot peer sniId unread⟩ => do
      let real ← source.owner
      let (raw, rest) ← Frames.readFrame unread
      if raw = [] then some (w.close c)
      else
        let asked : Asked := ⟨raw, sniId, peer⟩
        let w' := w.askDot real asked free now
        -- a refusal that answers nothing ends the connection
        if (w.gate.allows now peer.ip sniId).1 = false ∧ setup.decodes raw = false then
          some (w'.close c)
        else some (w'.setPhase c source (.dot peer sniId rest))
    | _ => none

end Setup

/-! ## Whose a stream is -/

/-- The stream itself says whose it is. -/
def Source.Named : Source → Prop
  | .passed _ real header => Header.parse header = .present (some real) header.length
  | _ => True

/-- What a client says of itself over HTTP is not believed. -/
def Source.Sure (gate : Gate) : Source → Prop
  | .client real => gate.trusts real.ip = false
  | .passed proxy real header =>
    (Source.passed proxy real header).Named ∧ gate.trusts real.ip = false
  | .reverseProxy _ adds => adds = .realIp

/-- The proxy on the way, if there is one, is a trusted one. -/
def Source.Through (gate : Gate) : Source → Prop
  | .client _ => True
  | .passed proxy _ _ | .reverseProxy proxy _ => gate.trusts proxy.ip = true

/-- The peer of a connection of this source: the client if the stream says so. -/
def Source.Claims (source : Source) (peer : SocketAddr) : Prop :=
  match source with
  | .client real => peer = canonical real
  | .passed _ real _ => source.Named → peer = canonical real
  | .reverseProxy proxy _ => peer = canonical proxy

theorem ip_new (ip : IpAddr) (port : UInt16) : (SocketAddr.new ip port).ip = ip := by
  cases ip <;> rfl

theorem port_new (ip : IpAddr) (port : UInt16) : (SocketAddr.new ip port).port = port := by
  cases ip <;> rfl

@[simp]
theorem ip_canonical (a : SocketAddr) : (canonical a).ip = unmapV4 a.ip := ip_new ..

@[simp]
theorem canonical_canonical (a : SocketAddr) : canonical (canonical a) = canonical a := by
  unfold canonical
  rw [ip_new, port_new, unmapV4_unmapV4]

theorem trusts_unmapV4 (gate : Gate) (ip : IpAddr) : gate.trusts (unmapV4 ip) = gate.trusts ip := by
  unfold Gate.trusts
  rw [unmapV4_unmapV4]

theorem isLocal_unmapV4 (ip : IpAddr) : isLocal (unmapV4 ip) = isLocal ip := by
  unfold isLocal
  rw [unmapV4_unmapV4]

variable {setup : Setup} {gate : Gate}

/-- Who `handle` hands a connection over for. -/
theorem handed_of_handle {via : SocketAddr} {trusted : Bool} {reads : List Bytes} {phase : Phase}
    (h : setup.handle gate via trusted reads = some phase) :
    ∃ peer default, (after trusted (some via) reads.flatten).whose.peer = some peer ∧
      phase = .handed (canonical peer)
        (behindHeader (after trusted (some via) reads.flatten).whose reads.flatten) default := by
  obtain ⟨whose, name, hpeek, htake⟩ : ∃ whose name,
      peek .tls (.start trusted (some via)) reads = Whose.peeked whose name ∧
        setup.take whose reads.flatten = some phase := by
    unfold Setup.handle at h
    split at h
    · next whose host hpeek =>
      split_ifs at h
      exact ⟨whose, some host, hpeek, h⟩
    · next whose hpeek =>
      split_ifs at h
      exact ⟨whose, none, hpeek, h⟩
    · cases h
  cases whose_of_peek hpeek
  obtain ⟨default, -, htake⟩ := Option.bind_eq_some_iff.1 htake
  obtain ⟨peer, hpeer, htake⟩ := Option.bind_eq_some_iff.1 htake
  cases htake
  exact ⟨peer, default, hpeer, rfl⟩

/-- **The hand-off.**  Whatever a stream says behind what its source says, the connection it
becomes has the peer of the source, or is no TLS. -/
theorem claims_of_handle {source : Source} {trusted : Bool} {reads : List Bytes} {phase : Phase}
    (hsends : source.Sends reads.flatten)
    (hclient : ∀ real, source = .client real → trusted = false)
    (h : setup.handle gate (canonical source.socket) trusted reads = some phase) :
    ∃ peer stream default, phase = .handed peer stream default ∧
      (stream = [] ∨ stream.head? = some tlsHandshake → source.Claims peer) := by
  obtain ⟨peer, default, hpeer, rfl⟩ := handed_of_handle h
  refine ⟨_, _, default, rfl, fun hstream => ?_⟩
  cases source with
  | client real =>
    cases hclient real rfl
    cases hpeer
    exact canonical_canonical _
  | passed proxy real header =>
    intro hnamed
    obtain ⟨more, hmore⟩ := hsends
    rw [← hmore] at hpeer hstream
    cases trusted with
    | false =>
      -- the header is still in front, and that is no TLS record
      obtain ⟨b, hb, hne⟩ := Header.head?_of_present hnamed
      have hhead : (header ++ more).head? = some b := by
        rw [List.head?_append, hb]
        rfl
      have hkept : behindHeader (after false (some (canonical proxy)) (header ++ more)).whose
          (header ++ more) = header ++ more := rfl
      simp only [Source.socket, hkept] at hstream
      rcases hstream with hnil | htls
      · rw [hnil] at hhead
        cases hhead
      · rw [hhead] at htls
        exact absurd (Option.some.inj htls) hne
    | true =>
      have hne : Header.parse header ≠ .incomplete := by
        rw [hnamed]
        simp
      rw [after_trusted, Header.parse_append hne more, hnamed] at hpeer
      cases hpeer
      exact canonical_canonical _
  | reverseProxy proxy adds =>
    cases trusted with
    | false =>
      cases hpeer
      exact canonical_canonical _
    | true =>
      rw [after_trusted, Header.parse_of_tls hsends] at hpeer
      cases hpeer
      exact canonical_canonical _

/-! ## What a reverse proxy passes on -/

theorem getAll_append (headers headers' : Headers) (name : Text) :
    Headers.getAll (headers ++ headers') name = headers.getAll name ++ headers'.getAll name := by
  simp [Headers.getAll]

/-- Headers without those of one name. -/
theorem getAll_filter_ne (headers : Headers) (name name' : Text) :
    Headers.getAll (headers.filter fun h => h.1 ≠ name') name =
      if name = name' then [] else headers.getAll name := by
  unfold Headers.getAll
  rw [List.filter_filter]
  split_ifs with heq
  · subst heq
    simp
  · refine congrArg _ (List.filter_congr fun h _ => ?_)
    by_cases hname : h.1 = name
    · simp [hname, heq]
    · simp [hname]

theorem getAll_single (name name' : Text) (value : Bytes) :
    Headers.getAll [(name', value)] name = if name' = name then [value] else [] := by
  unfold Headers.getAll
  split_ifs with heq
  · simp [heq]
  · simp [heq]

theorem comma_notMem {value : Bytes} {v : Text} (h : 44 ∉ value) (hv : toStr value = some v) :
    ',' ∉ v := by
  unfold toStr at hv
  split_ifs at hv with hall
  cases hv
  intro hmem
  obtain ⟨b, hb, hchar⟩ := List.mem_map.1 hmem
  have hascii : b.toNat < 0xD800 := by
    have hlt := b.toNat_lt
    omega
  have hnat : b.toNat = 44 := by
    have hto := congrArg Char.toNat hchar
    rw [toNat_ofNat hascii] at hto
    exact hto
  have hbyte : b = 44 := UInt8.toNat_inj.1 hnat
  exact h (hbyte ▸ hb)

theorem joinValues_concat (first : Bytes) (values : List Bytes) (value : Bytes) :
    ∃ front, joinValues (first :: values ++ [value]) = front ++ [44, 32] ++ value := by
  induction values generalizing first with
  | nil => exact ⟨first, by simp [joinValues, List.intercalate_cons_cons]⟩
  | cons next values ih =>
    obtain ⟨front, hfront⟩ := ih next
    refine ⟨first ++ [44, 32] ++ front, ?_⟩
    unfold joinValues at hfront ⊢
    rw [List.cons_append, List.cons_append, List.intercalate_cons_cons, ← List.cons_append, hfront]
    simp

/-- The last of the values a proxy joins is the last entry. -/
theorem lastEntry_joinValues {values : List Bytes} {value : Bytes} {s v : Text}
    (hcomma : 44 ∉ value) (hv : toStr value = some v)
    (h : toStr (joinValues (values ++ [value])) = some s) :
    readClient (lastEntry s) = readClient v := by
  have hnot := comma_notMem hcomma hv
  cases values with
  | nil =>
    have hjoin : joinValues ([] ++ [value]) = value := by simp [joinValues]
    rw [hjoin, hv] at h
    cases h
    rw [lastEntry_of_notMem hnot]
  | cons first values =>
    obtain ⟨front, hjoin⟩ := joinValues_concat first values value
    rw [hjoin, toStr_append, toStr_append, hv] at h
    have hblank : toStr [44, 32] = some [',', ' '] := by decide
    rw [hblank] at h
    cases hfront : toStr front with
    | none =>
      rw [hfront] at h
      cases h
    | some t =>
      rw [hfront] at h
      cases h
      have hsplit : t ++ [',', ' '] ++ v = t ++ ',' :: (' ' :: v) := by simp
      dsimp only
      rw [hsplit, lastEntry_append (by simpa using hnot), readClient_blank]

/-- A proxy that adds to `X-Forwarded-For` passes on the other headers as they are. -/
theorem getAll_forward {adds : Adds} (hadds : adds ≠ .realIp) {name : Text}
    (hname : name ≠ xForwardedFor) (value : Bytes) (headers : Headers) :
    (adds.forward value headers).getAll name = headers.getAll name := by
  cases adds with
  | realIp => exact absurd rfl hadds
  | ownHeader =>
    unfold Adds.forward
    rw [getAll_append, getAll_single, if_neg (Ne.symm hname), List.append_nil]
  | sameHeader =>
    unfold Adds.forward
    rw [getAll_append, getAll_filter_ne, if_neg hname, getAll_single, if_neg (Ne.symm hname),
      List.append_nil]

/-- **What a reverse proxy says.**  Where it sets `X-Real-IP`, or the client sent none, the
headers name the client or nobody. -/
theorem forwardedFor_forward {adds : Adds} {value : Bytes} {headers : Headers} {ip ip' : IpAddr}
    (hcomma : 44 ∉ value) (hvalue : (toStr value).bind readClient = some ip)
    (hsure : adds = .realIp ∨ (headers.get xRealIp).bind toStr = none)
    (h : forwardedFor (adds.forward value headers) = some ip') : ip' = ip := by
  obtain ⟨v, hv, hread⟩ := Option.bind_eq_some_iff.1 hvalue
  have hreal : adds ≠ .realIp → ((adds.forward value headers).get xRealIp).bind toStr = none := by
    intro hadds
    unfold Headers.get
    rw [getAll_forward hadds (by decide)]
    exact hsure.resolve_left hadds
  cases adds with
  | realIp =>
    have hget : (Adds.realIp.forward value headers).get xRealIp = some value := by
      unfold Headers.get Adds.forward
      rw [getAll_append, getAll_filter_ne, getAll_single, if_pos rfl, if_pos rfl]
      rfl
    rw [forwardedFor_of_realIp hget hv, hread] at h
    exact (Option.some.inj h).symm
  | ownHeader =>
    have hlast : ((Adds.ownHeader.forward value headers).getAll xForwardedFor).getLast? =
        some value := by
      unfold Adds.forward
      rw [getAll_append, getAll_single, if_pos rfl, List.getLast?_concat]
    rw [forwardedFor_of_last (hreal (by decide)) hlast, hv, Option.bind_some,
      lastEntry_of_notMem (comma_notMem hcomma hv), hread] at h
    exact (Option.some.inj h).symm
  | sameHeader =>
    have hlast : ((Adds.sameHeader.forward value headers).getAll xForwardedFor).getLast? =
        some (joinValues (headers.getAll xForwardedFor ++ [value])) := by
      unfold Adds.forward
      rw [getAll_append, getAll_single, if_pos rfl, List.getLast?_concat]
    rw [forwardedFor_of_last (hreal (by decide)) hlast] at h
    obtain ⟨s, hs, h⟩ := Option.bind_eq_some_iff.1 h
    rw [lastEntry_joinValues hcomma hv hs, hread] at h
    exact (Option.some.inj h).symm

end Ferrite.Secure
