import Ferrite.Secure.Connections

/-!
# Strangers are turned away

Whom the gate of encrypted DNS judges, and whom it lets through, over every run: a run has
everything a client may send, so an address that does not depend on the run does not depend on
the client.

* `step_inv` — the connection of a stream that says whose it is has that address;
* `strangers_turned_away` — a query is judged at its client's address, and a stranger's is
  resolved only with an id of the list, unless a client's own word is believed or a client of
  HTTP/3 has moved.

A client is believed in three cases: a reverse proxy passes on an `X-Real-IP` that it did not
set, a trusted proxy passes on a stream without saying whose it is, and the client's own address
is in the list of proxies.
-/

namespace Ferrite.Secure

open Proxy

variable {setup : Setup} {gate : Gate}

/-! ## The invariant -/

/-- The query was judged at its client's address, and a stranger's went on only with an id of
the list. -/
def Judged.Safe (j : Judged) : Prop :=
  j.asked.peer.ip = unmapV4 j.real.ip ∧
    (j.resolved = true → isLocal j.real.ip = false → ∃ id ∈ j.devices, j.asked.id = some id)

/-- The connection is taken to be from where its source says. -/
def Conn.Ok (conn : Conn) : Prop :=
  match conn.phase with
  | .accepted trusted => ∀ real, conn.source = .client real → trusted = false
  | .handed peer stream _ =>
    stream = [] ∨ stream.head? = some tlsHandshake → conn.source.Claims peer
  | .doh peer _ | .dot peer _ _ => conn.source.Claims peer
  | .quic _ | .doh3 _ _ => conn.source = .client conn.source.socket

structure Inv (w : World) : Prop where
  conns : ∀ c conn, w.conns c = some conn → conn.Ok
  judged : ∀ j ∈ w.judged, j.Safe

/-- What keeps the invariant: over HTTP a client's word on itself is not believed, and over HTTP/3
a client asks from where it connected; a reverse proxy is trusted and sets `X-Real-IP` unless the
client sent none, and a stream that a proxy passes on says whose it is. -/
def Meets (w : World) : Action → Prop
  | .accept _ .shared (.client real) => w.gate.trusts real.ip = false
  | .request c _ _ _ =>
    (∀ source peer sniId, w.conns c = some ⟨source, .doh peer sniId⟩ → source.Sure w.gate) ∧
      ∀ real peer sniId, w.conns c = some ⟨.client real, .doh3 peer sniId⟩ →
        peer.ip = unmapV4 real.ip
  | .forwards c _ _ req _ _ => ∀ proxy adds phase, w.conns c = some ⟨.reverseProxy proxy adds, phase⟩ →
      w.gate.trusts proxy.ip = true ∧
        (adds = .realIp ∨ (req.headers.get xRealIp).bind toStr = none)
  | .reads c _ _ => ∀ source phase, w.conns c = some ⟨source, phase⟩ → source.Named
  | _ => True

variable {w : World}

theorem Inv.update (h : Inv w) {c : ℕ} {conn : Option Conn} (hok : ∀ k, conn = some k → k.Ok) :
    Inv { w with conns := Function.update w.conns c conn } where
  conns := by
    intro c' k hk
    dsimp only at hk
    by_cases heq : c' = c
    · subst heq
      rw [Function.update_self] at hk
      exact hok k hk
    · rw [Function.update_of_ne heq] at hk
      exact h.conns c' k hk
  judged := h.judged

theorem Inv.setPhase (h : Inv w) {c : ℕ} {source : Source} {phase : Phase}
    (hok : Conn.Ok ⟨source, phase⟩) : Inv (w.setPhase c source phase) :=
  h.update fun _ hk => Option.some.inj hk ▸ hok

theorem Inv.close (h : Inv w) (c : ℕ) : Inv (w.close c) :=
  h.update (by simp)

theorem Inv.setGate (h : Inv w) (gate : Gate) : Inv { w with gate := gate } :=
  ⟨h.conns, h.judged⟩

/-- One query more, judged at its client's address. -/
theorem Inv.judge (h : Inv w) (gate : Gate) {real : SocketAddr} {asked : Asked} {resolved : Bool}
    (hpeer : asked.peer.ip = unmapV4 real.ip)
    (hresolved : resolved = true →
      isLocal asked.peer.ip = true ∨ ∃ d ∈ w.gate.devices, asked.id = some d) :
    Inv { w with
      gate := gate
      judged := w.judged ++ [⟨real, w.gate.devices, asked, resolved⟩] } where
  conns := h.conns
  judged := by
    intro j hj
    rcases List.mem_append.1 hj with hj | hj
    · exact h.judged j hj
    · rw [List.mem_singleton] at hj
      subst hj
      refine ⟨hpeer, fun hres haway => (hresolved hres).resolve_left fun hlocal => ?_⟩
      rw [hpeer, isLocal_unmapV4, haway] at hlocal
      cases hlocal

theorem Inv.ask (h : Inv w) {real : SocketAddr} {asked : Asked}
    (hpeer : asked.peer.ip = unmapV4 real.ip) (free : Bool) (now : ℤ) :
    Inv (w.ask real asked free now) := by
  refine h.judge _ hpeer fun hres => ?_
  cases hreply : (resolve w.gate now free asked).1 with
  | text status body =>
    rw [hreply] at hres
    cases hres
  | refused raw =>
    rw [hreply] at hres
    cases hres
  | resolved raw peer id => exact isLocal_or_mem_of_resolve hreply

theorem Inv.askDot (h : Inv w) {real : SocketAddr} {asked : Asked}
    (hpeer : asked.peer.ip = unmapV4 real.ip) (free : Bool) (now : ℤ) :
    Inv (w.askDot real asked free now) := by
  refine h.judge _ hpeer fun hres => ?_
  exact isLocal_or_mem_of_allows (Bool.and_eq_true_iff.1 hres).1

/-! ## Every step keeps it -/

theorem Source.Claims.peer_ip {source : Source} {peer real : SocketAddr} (h : source.Claims peer)
    (hnamed : source.Named) (hreal : source.owner = some real) : peer.ip = unmapV4 real.ip := by
  cases source with
  | client real' =>
    cases hreal
    rw [h, ip_canonical]
  | passed proxy real' header =>
    cases hreal
    rw [h hnamed, ip_canonical]
  | reverseProxy proxy adds => cases hreal

theorem Source.Sure.named {source : Source} (h : source.Sure gate) : source.Named := by
  cases source with
  | client real => trivial
  | passed proxy real header => exact h.1
  | reverseProxy proxy adds => trivial

theorem Source.Sure.trusts {source : Source} {real : SocketAddr} (h : source.Sure gate)
    (hreal : source.owner = some real) : gate.trusts real.ip = false := by
  cases source with
  | client real' =>
    cases hreal
    exact h
  | passed proxy real' header =>
    cases hreal
    exact h.2
  | reverseProxy proxy adds => cases hreal

theorem ok_accepted {c : ℕ} {way : Way} {source : Source} (hway : source.ComesBy way)
    (hmeets : Meets w (.accept c way source)) :
    Conn.Ok ⟨source, Setup.accepted w.gate source way⟩ := by
  have hclaims : source.header = [] ∨ source.header.head? = some tlsHandshake →
      source.Claims (canonical source.socket) := by
    intro hstream
    cases source with
    | client real => rfl
    | reverseProxy proxy adds => rfl
    | passed proxy real header =>
      intro hnamed
      obtain ⟨b, hb, hne⟩ := Header.head?_of_present hnamed
      rcases hstream with hnil | htls
      · cases (show header = [] from hnil)
        cases hb
      · rw [show header.head? = some tlsHandshake from htls] at hb
        exact absurd (Option.some.inj hb).symm hne
  cases way with
  | own default => exact hclaims
  | shared =>
    rintro real rfl
    unfold Source.socket
    rw [ip_canonical, trusts_unmapV4]
    exact hmeets
  | relay port =>
    intro _
    rw [hway]
    rfl
  | quic => exact hway

theorem ok_of_serve {source : Source} {peer : SocketAddr} {default : Default}
    {sni alpn : Option Text} {phase : Phase} (hclaims : source.Claims peer)
    (h : setup.serve gate peer default sni alpn = some phase) : Conn.Ok ⟨source, phase⟩ := by
  unfold Setup.serve at h
  split_ifs at h
  · cases h
    exact hclaims
  · cases h
    exact hclaims

/-- A request of the client itself, over HTTP/1.1 or HTTP/2. -/
theorem Inv.request (h : Inv w) {c : ℕ} {source : Source} {peer : SocketAddr}
    {sniId : Option Text} (hconn : w.conns c = some ⟨source, .doh peer sniId⟩)
    (hsure : source.Sure w.gate) {real : SocketAddr} (hreal : source.owner = some real)
    {req : Request} {asked : Asked} (hasked : answer setup.decode w.gate peer sniId req = .ok asked)
    (free : Bool) (now : ℤ) : Inv (w.ask real asked free now) := by
  have hclaims : source.Claims peer := h.conns c _ hconn
  have hpeer := hclaims.peer_ip hsure.named hreal
  refine h.ask ?_ free now
  rcases peer_of_answer hasked with ⟨-, heq⟩ | ⟨htrusts, -⟩
  · rw [heq, hpeer]
  · rw [hpeer, trusts_unmapV4, hsure.trusts hreal] at htrusts
    cases htrusts

/-- A request over HTTP/3, from a client that is still where it connected from. -/
theorem Inv.request3 (h : Inv w) {c : ℕ} {source : Source} {peer : SocketAddr}
    {sniId : Option Text} (hconn : w.conns c = some ⟨source, .doh3 peer sniId⟩)
    (hhome : ∀ real, source = .client real → peer.ip = unmapV4 real.ip) {real : SocketAddr}
    (hreal : source.owner = some real) {req : Request} {asked : Asked}
    (hasked : Secure.request3 setup.decode peer sniId req = .ok asked) (free : Bool) (now : ℤ) :
    Inv (w.ask real asked free now) := by
  have hsource : source = .client source.socket := h.conns c _ hconn
  refine h.ask ?_ free now
  rw [peer_of_request3 hasked, hhome _ hsource]
  rw [hsource] at hreal
  cases hreal
  rfl

/-- A request that a reverse proxy forwards. -/
theorem Inv.forwards (h : Inv w) {c : ℕ} {proxy : SocketAddr} {adds : Adds} {peer : SocketAddr}
    {sniId : Option Text} (hconn : w.conns c = some ⟨.reverseProxy proxy adds, .doh peer sniId⟩)
    (htrusts : w.gate.trusts proxy.ip = true) {client : SocketAddr} {value : Bytes}
    (hcomma : 44 ∉ value) (hvalue : (toStr value).bind readClient = some (unmapV4 client.ip))
    {req : Request} (hsure : adds = .realIp ∨ (req.headers.get xRealIp).bind toStr = none)
    {asked : Asked} (hasked : answer setup.decode w.gate peer sniId
      { req with headers := adds.forward value req.headers } = .ok asked)
    (free : Bool) (now : ℤ) : Inv (w.ask client asked free now) := by
  have hclaims : peer = canonical proxy := h.conns c _ hconn
  refine h.ask ?_ free now
  rcases peer_of_answer hasked with ⟨hnot, -⟩ | ⟨-, ip, hfor, heq⟩
  · rw [hclaims, ip_canonical, trusts_unmapV4, htrusts] at hnot
    cases hnot
  · rw [heq, ip_new]
    exact forwardedFor_forward hcomma hvalue hsure hfor

/-- A query over DNS over TLS. -/
theorem Inv.reads (h : Inv w) {c : ℕ} {source : Source} {peer : SocketAddr} {sniId : Option Text}
    {unread : Bytes} (hconn : w.conns c = some ⟨source, .dot peer sniId unread⟩)
    (hnamed : source.Named) {free : Bool} {now : ℤ} {w' : World}
    (hstep : setup.step w (.reads c free now) = some w') : Inv w' := by
  have hclaims : source.Claims peer := h.conns c _ hconn
  simp only [Setup.step] at hstep
  rw [hconn] at hstep
  obtain ⟨real, hreal, hstep⟩ := Option.bind_eq_some_iff.1 hstep
  obtain ⟨⟨raw, rest⟩, -, hstep⟩ := Option.bind_eq_some_iff.1 hstep
  have hpeer := hclaims.peer_ip hnamed hreal
  have hasked : Inv (w.askDot real ⟨raw, sniId, peer⟩ free now) := h.askDot hpeer free now
  split_ifs at hstep
  · cases hstep
    exact h.close c
  · cases hstep
    exact hasked.close c
  · cases hstep
    exact hasked.setPhase hclaims

/-- The bytes that are peeked at. -/
theorem Inv.peeks (h : Inv w) {c : ℕ} {source : Source} {trusted : Bool}
    (hconn : w.conns c = some ⟨source, .accepted trusted⟩) {reads : List Bytes} {w' : World}
    (hstep : setup.step w (.peeks c reads) = some w') : Inv w' := by
  simp only [Setup.step] at hstep
  rw [hconn] at hstep
  dsimp only at hstep
  split_ifs at hstep with hsends
  split at hstep
  · next phase hhandle =>
    cases hstep
    obtain ⟨peer, stream, default, rfl, hclaims⟩ :=
      claims_of_handle hsends (h.conns c _ hconn) hhandle
    exact h.setPhase hclaims
  · cases hstep
    exact h.close c

/-- A TLS handshake. -/
theorem Inv.handshake (h : Inv w) {c : ℕ} {source : Source} {peer : SocketAddr} {stream : Bytes}
    {default : Default} (hconn : w.conns c = some ⟨source, .handed peer stream default⟩)
    {bytes : Bytes} {sni alpn : Option Text} {w' : World}
    (hstep : setup.step w (.handshake c bytes sni alpn) = some w') : Inv w' := by
  simp only [Setup.step] at hstep
  rw [hconn] at hstep
  dsimp only at hstep
  split_ifs at hstep with htls
  · -- a record at the start is the stream's own, or nothing came before it
    have hstream : stream = [] ∨ stream.head? = some tlsHandshake := by
      cases stream with
      | nil => exact .inl rfl
      | cons b stream => exact .inr htls
    split at hstep
    · next phase hserve =>
      cases hstep
      exact h.setPhase (ok_of_serve (h.conns c _ hconn hstream) hserve)
    · cases hstep
      exact h.close c
  · cases hstep
    exact h.close c

/-- **One step** keeps the invariant if it meets the condition. -/
theorem step_inv {a : Action} {w' : World} (hmeets : Meets w a) (h : Inv w)
    (hstep : setup.step w a = some w') : Inv w' := by
  have hstep' := hstep
  cases a with
  | setDevices devices =>
    cases hstep
    exact h.setGate _
  | setProxies proxies =>
    cases hstep
    exact h.setGate _
  | accept c way source =>
    simp only [Setup.step] at hstep
    split_ifs at hstep with hcan
    cases hstep
    exact h.setPhase (ok_accepted hcan.2.2 hmeets)
  | peeks c reads =>
    simp only [Setup.step] at hstep
    split at hstep
    · next source trusted hconn => exact h.peeks hconn hstep'
    · cases hstep
  | handshake c bytes sni alpn =>
    simp only [Setup.step] at hstep
    split at hstep
    · next source peer stream default hconn => exact h.handshake hconn hstep'
    · next source peer hconn =>
      have hok : Conn.Ok ⟨source, .quic peer⟩ := h.conns c _ hconn
      split_ifs at hstep
      · cases hstep
        exact h.setPhase hok
      · cases hstep
        exact h.close c
    · cases hstep
  | migrates c real =>
    simp only [Setup.step] at hstep
    split at hstep
    · cases hstep
      exact h.setPhase rfl
    · cases hstep
  | request c req free now =>
    simp only [Setup.step] at hstep
    split at hstep
    · next source peer sniId hconn =>
      obtain ⟨real, hreal, hstep⟩ := Option.bind_eq_some_iff.1 hstep
      split at hstep
      · next asked hasked =>
        cases hstep
        exact h.request hconn (hmeets.1 source peer sniId hconn) hreal hasked free now
      · cases hstep
        exact h
    · next source peer sniId hconn =>
      obtain ⟨real, hreal, hstep⟩ := Option.bind_eq_some_iff.1 hstep
      have hhome : ∀ real, source = .client real → peer.ip = unmapV4 real.ip := by
        rintro real rfl
        exact hmeets.2 real peer sniId hconn
      split at hstep
      · next asked hasked =>
        cases hstep
        exact h.request3 hconn hhome hreal hasked free now
      · cases hstep
        exact h
    · cases hstep
  | forwards c client value req free now =>
    simp only [Setup.step] at hstep
    split at hstep
    · next proxy adds peer sniId hconn =>
      obtain ⟨htrusts, hsure⟩ := hmeets proxy adds _ hconn
      split_ifs at hstep with hvalue
      split at hstep
      · next asked hasked =>
        cases hstep
        exact h.forwards hconn htrusts hvalue.1 hvalue.2 hsure hasked free now
      · cases hstep
        exact h
    · cases hstep
  | sends c bytes =>
    simp only [Setup.step] at hstep
    split at hstep
    · next source peer sniId unread hconn =>
      have hok : Conn.Ok ⟨source, .dot peer sniId unread⟩ := h.conns c _ hconn
      cases hstep
      exact h.setPhase hok
    · cases hstep
  | reads c free now =>
    simp only [Setup.step] at hstep
    split at hstep
    · next source peer sniId unread hconn =>
      exact h.reads hconn (hmeets source _ hconn) hstep'
    · cases hstep

/-! ## A client that says it is at home -/

/-- A ClientHello for HTTP/1.1 that names no host. -/
def bareHello : Bytes :=
  [0x16, 3, 1, 0, 62, 1, 0, 0, 58, 3, 3] ++ List.replicate 32 7 ++ [0, 0, 2, 0xC0, 0x2F, 1, 0] ++
    [0, 15, 0, 16, 0, 11, 0, 9, 8, 0x68, 0x74, 0x74, 0x70, 0x2F, 0x31, 0x2E, 0x31]

def http11 : Text := "http/1.1".toList

def home : IpAddr := .v4 ⟨192, 168, 1, 20⟩

/-- A query without a device, from a client that names an address at home. -/
def lie : Request where
  method := .post
  path := "/dns-query".toList
  query := none
  headers := [(contentType, Text.toBytes dnsMessage), (xRealIp, Text.toBytes "192.168.1.20".toList)]
  body := some (List.replicate 12 0)

/-- Its message, from a peer. -/
def unnamed (peer : SocketAddr) : Asked := ⟨List.replicate 12 0, none, peer⟩

/-- What `lie` comes to where it is believed. -/
def believed (peer : SocketAddr) : Asked := unnamed (SocketAddr.new home peer.port)

theorem readHead_lie {decode : Text → Option Bytes} {headers : Headers}
    (htype : headers.getAll contentType = lie.headers.getAll contentType) :
    readHead decode { lie with headers := headers } none = .ok (none, .inBody) := by
  have htyped : ((headers.get contentType).bind toStr).any
      (fun v => v.eqIgnoreAsciiCase dnsMessage) = true := by
    unfold Headers.get
    rw [htype]
    decide
  have hpath : pathId lie.path none = some none := by decide
  unfold readHead
  dsimp only
  rw [hpath]
  dsimp only [lie]
  rw [htyped]
  rfl

/-- Over HTTP/3 it is a query of the peer, whatever its headers say of it. -/
theorem request3_lie (decode : Text → Option Bytes) (peer : SocketAddr) :
    request3 decode peer none lie = .ok (unnamed peer) := by
  unfold request3
  rw [show lie = { lie with headers := lie.headers } from rfl, readHead_lie rfl]
  rfl

theorem answer_lie {decode : Text → Option Bytes} {peer : SocketAddr} {headers : Headers}
    (htrusts : gate.trusts peer.ip = true)
    (htype : headers.getAll contentType = lie.headers.getAll contentType)
    (hreal : headers.getAll xRealIp = lie.headers.getAll xRealIp) :
    answer decode gate peer none { lie with headers := headers } = .ok (believed peer) := by
  have hfor : forwardedFor headers = some home := by
    have hget : headers.get xRealIp = some (Text.toBytes "192.168.1.20".toList) := by
      unfold Headers.get
      rw [hreal]
      decide
    have hstr : toStr (Text.toBytes "192.168.1.20".toList) = some "192.168.1.20".toList := by
      decide
    have hread : readClient "192.168.1.20".toList = some home := by decide
    rw [forwardedFor_of_realIp hget hstr, hread]
  have hpeer : namedPeer gate peer headers = .ok (SocketAddr.new home peer.port) := by
    unfold namedPeer
    rw [htrusts, if_pos rfl, hfor]
  unfold answer
  rw [readHead_lie htype]
  dsimp only [bind, Except.bind]
  rw [hpeer]
  rfl

/-- From a peer at home it is resolved, without a device. -/
theorem judged_unnamed (w : World) (real : SocketAddr) {peer : SocketAddr}
    (hlocal : isLocal peer.ip = true) :
    (⟨real, w.gate.devices, unnamed peer, true⟩ : Judged) ∈
      (w.ask real (unnamed peer) true 0).judged := by
  have hallows : w.gate.allows 0 (unnamed peer).peer.ip none = (true, w.gate) := by
    unfold Gate.allows
    rw [show isLocal (unnamed peer).peer.ip = true from hlocal]
    rfl
  have hresolve : (resolve w.gate 0 true (unnamed peer)).1.isResolved = true := by
    unfold resolve
    rw [show (unnamed peer).id = none from rfl, hallows]
    rfl
  unfold World.ask
  dsimp only
  rw [hresolve]
  exact List.mem_append_right _ (List.mem_singleton_self _)

/-! ## How it comes to be asked -/

theorem head?_bareHello : bareHello.head? = some tlsHandshake := rfl

theorem named_bareHello {s : PeekState} (h : s.buf = bareHello) :
    s.named .tls = .error (.unnamed s.whose) := by
  have hname : nameIn .tls bareHello = some none := by decide
  unfold PeekState.named
  rw [h, hname]
  rfl

theorem peek_bareHello (via : Option SocketAddr) :
    peek .tls (.start true via) [bareHello] = .unnamed ⟨.absent, via⟩ := by
  have hcap : ¬ peekCap < ([] ++ bareHello).length := by decide
  have hstep : peekStep .tls (.start true via) bareHello = .error (.unnamed ⟨.absent, via⟩) := by
    unfold peekStep PeekState.start
    dsimp only
    rw [if_neg hcap, List.nil_append, if_neg (by decide), Header.parse_of_tls head?_bareHello]
    exact named_bareHello rfl
  unfold peek
  rw [hstep]

/-- Behind a header it is the header that says whose the connection is. -/
theorem peek_header_bareHello {via : Option SocketAddr} {header : Bytes}
    {client : Option SocketAddr} (hparse : Header.parse header = .present client header.length)
    (hlen : header.length ≤ peekCap) :
    peek .tls (.start true via) [header, bareHello] =
      .unnamed ⟨.present client header.length, (client.map canonical).or via⟩ := by
  have hfirst : peekStep .tls (.start true via) header =
      .ok ⟨[], true, ⟨.present client header.length, (client.map canonical).or via⟩⟩ := by
    unfold peekStep PeekState.start
    simp [Nat.not_lt.2 hlen, hparse]
  have hcap : ¬ peekCap < ([] ++ bareHello).length := by decide
  have hsecond : peekStep .tls
      ⟨[], true, ⟨.present client header.length, (client.map canonical).or via⟩⟩ bareHello =
      .error (.unnamed ⟨.present client header.length, (client.map canonical).or via⟩) := by
    unfold peekStep
    dsimp only
    rw [if_neg hcap, if_pos rfl, List.nil_append]
    exact named_bareHello rfl
  unfold peek
  rw [hfirst]
  dsimp only
  unfold peek
  rw [hsecond]

/-- The ways on which a stream of this source gets to HTTP/1.1 or HTTP/2. -/
def Setup.Reaches (setup : Setup) (source : Source) : Way → Prop
  | .own _ => source.header = []
  | .shared => setup.shared.isSome = true ∧ source.header.length ≤ peekCap
  | .relay _ => True
  | .quic => False

/-- On the shared port a connection that names no host is taken from a trusted proxy. -/
theorem handle_bareHello {source : Source} (hhonest : source.Honest)
    (hshared : setup.shared.isSome = true) (hlen : source.header.length ≤ peekCap)
    (hsocket : gate.trusts source.socket.ip = true)
    (hnamed : ∀ real, source.owner = some real → source.Named → gate.trusts real.ip = true) :
    ∃ reads peer default, source.Sends reads.flatten ∧ gate.trusts peer.ip = true ∧
      setup.handle gate (canonical source.socket) true reads =
        some (.handed peer bareHello default) := by
  obtain ⟨default, hdefault⟩ := Option.isSome_iff_exists.1 hshared
  have hclaims : setup.claimsUnnamed gate (canonical source.socket) = true := by
    unfold Setup.claimsUnnamed
    rw [hshared, ip_canonical, trusts_unmapV4, hsocket]
    rfl
  have hvia : gate.trusts (canonical (canonical source.socket)).ip = true := by
    rw [canonical_canonical, ip_canonical, trusts_unmapV4, hsocket]
  have hbare : setup.handle gate (canonical source.socket) true [bareHello] =
      some (.handed (canonical (canonical source.socket)) bareHello default) := by
    unfold Setup.handle Setup.take
    rw [peek_bareHello, hdefault]
    dsimp only
    rw [if_pos hclaims]
    rfl
  have hheader : ∀ proxy real header client, source = .passed proxy real header →
      Header.parse header = .present client header.length →
      setup.handle gate (canonical source.socket) true [header, bareHello] =
        some (.handed (canonical ((client.map canonical).getD (canonical source.socket)))
          bareHello default) := by
    rintro proxy real header client rfl hparse
    unfold Setup.handle Setup.take
    rw [peek_header_bareHello hparse hlen, hdefault]
    dsimp only
    rw [if_pos hclaims]
    cases client with
    | none => simp [behindHeader]
    | some a => simp [behindHeader]
  cases source with
  | client real => exact ⟨_, _, default, trivial, hvia, hbare⟩
  | reverseProxy proxy adds => exact ⟨[bareHello], _, default, head?_bareHello, hvia, hbare⟩
  | passed proxy real header =>
    have hsends : header <+: [header, bareHello].flatten := by simp
    rcases hhonest with rfl | hparse | hparse
    · exact ⟨_, _, default, List.nil_prefix, hvia, hbare⟩
    · exact ⟨_, _, default, hsends, hvia, hheader proxy real header none rfl hparse⟩
    · refine ⟨_, _, default, hsends, ?_, hheader proxy real header (some real) rfl hparse⟩
      rw [Option.map_some, Option.getD_some, canonical_canonical, ip_canonical, trusts_unmapV4]
      exact hnamed real rfl hparse

theorem step_accept {way : Way} {source : Source} (hhonest : source.Honest)
    (hcomes : source.ComesBy way) :
    setup.step (.start gate) (.accept 0 way source) =
      some ((World.start gate).setPhase 0 source (Setup.accepted gate source way)) :=
  if_pos ⟨rfl, hhonest, hcomes⟩

theorem conns_setPhase (w : World) (c : ℕ) (source : Source) (phase : Phase) :
    (w.setPhase c source phase).conns c = some ⟨source, phase⟩ := Function.update_self ..

theorem step_handshake {c : ℕ} {source : Source} {peer : SocketAddr} {stream bytes : Bytes}
    {default : Default} (hconn : w.conns c = some ⟨source, .handed peer stream default⟩)
    (htls : (stream ++ bytes).head? = some tlsHandshake) :
    setup.step w (.handshake c bytes none (some http11)) =
      some (w.setPhase c source (.doh peer none)) := by
  have hserve : setup.serve w.gate peer default none (some http11) = some (.doh peer none) := rfl
  simp only [Setup.step]
  rw [hconn]
  dsimp only
  rw [if_pos htls, hserve]

/-- **A believed connection.**  A stream from a trusted socket that does not say whose it is, or
says so for a client that is trusted, gets to HTTP with a trusted peer. -/
theorem exec_to_doh {way : Way} {source : Source} (hhonest : source.Honest)
    (hcomes : source.ComesBy way) (hreaches : setup.Reaches source way)
    (hsocket : gate.trusts source.socket.ip = true)
    (hnamed : ∀ real, source.owner = some real → source.Named → gate.trusts real.ip = true) :
    ∃ acts w peer, Lts.exec setup.step (.start gate) acts = some w ∧ w.gate = gate ∧
      gate.trusts peer.ip = true ∧ w.conns 0 = some ⟨source, .doh peer none⟩ := by
  have hpeer : gate.trusts (canonical source.socket).ip = true := by
    rw [ip_canonical, trusts_unmapV4, hsocket]
  have haccept : ∀ acts, Lts.exec setup.step (.start gate) (.accept 0 way source :: acts) =
      Lts.exec setup.step ((World.start gate).setPhase 0 source
        (Setup.accepted gate source way)) acts := by
    intro acts
    rw [Lts.exec, step_accept hhonest hcomes]
    rfl
  -- by its own listener and the relay it is two steps
  have hdirect : ∀ default, Setup.accepted gate source way =
      .handed (canonical source.socket) [] default → ∃ acts w peer,
      Lts.exec setup.step (.start gate) acts = some w ∧ w.gate = gate ∧
      gate.trusts peer.ip = true ∧ w.conns 0 = some ⟨source, .doh peer none⟩ := by
    intro default hphase
    have htls : ([] ++ bareHello).head? = some tlsHandshake := rfl
    refine ⟨[.accept 0 way source, .handshake 0 bareHello none (some http11)],
      ((World.start gate).setPhase 0 source (.handed (canonical source.socket) [] default)).setPhase
        0 source (.doh (canonical source.socket) none),
      canonical source.socket, ?_, rfl, hpeer, conns_setPhase ..⟩
    rw [haccept, hphase, Lts.exec, step_handshake (conns_setPhase ..) htls]
    rfl
  cases way with
  | own default => exact hdirect default (congrArg (Phase.handed _ · default) hreaches)
  | relay port => exact hdirect _ rfl
  | quic => exact hreaches.elim
  | shared =>
    obtain ⟨reads, peer, default, hsends, htrusts, hhandle⟩ :=
      handle_bareHello hhonest hreaches.1 hreaches.2 hsocket hnamed
    have htls : (bareHello ++ []).head? = some tlsHandshake := rfl
    let w₁ := (World.start gate).setPhase 0 source
      (.accepted (gate.trusts (canonical source.socket).ip))
    let w₂ := w₁.setPhase 0 source (.handed peer bareHello default)
    have hpeeks : setup.step w₁ (.peeks 0 reads) = some w₂ := by
      simp only [Setup.step]
      rw [conns_setPhase]
      dsimp only
      rw [if_pos hsends, hpeer]
      dsimp only [w₁, World.setPhase, World.start]
      rw [hhandle]
      rfl
    refine ⟨[.accept 0 .shared source, .peeks 0 reads, .handshake 0 [] none (some http11)],
      w₂.setPhase 0 source (.doh peer none), peer, ?_, rfl, htrusts, conns_setPhase ..⟩
    rw [haccept, Lts.exec, Setup.accepted, hpeeks, Option.bind_some, Lts.exec,
      step_handshake (conns_setPhase ..) htls]
    rfl

theorem isLocal_home (port : UInt16) : isLocal (SocketAddr.new home port).ip = true := by
  rw [ip_new]
  decide

/-- A run in which a client's query is resolved though it names no device. -/
def Deceived (setup : Setup) (gate : Gate) (real : SocketAddr) : Prop :=
  ∃ acts w, Lts.exec setup.step (.start gate) acts = some w ∧
    ∃ j ∈ w.judged, j.real = real ∧ j.resolved = true ∧ j.asked.id = none

theorem deceived_of_step {acts : List Action} {a : Action} {real peer : SocketAddr}
    (hlocal : isLocal peer.ip = true)
    (hexec : Lts.exec setup.step (.start gate) acts = some w)
    (hstep : setup.step w a = some (w.ask real (unnamed peer) true 0)) :
    Deceived setup gate real := by
  refine ⟨acts ++ [a], w.ask real (unnamed peer) true 0, ?_, _, judged_unnamed w real hlocal,
    rfl, rfl, rfl⟩
  rw [Lts.exec_append, hexec, Option.bind_some, Lts.exec, hstep]
  rfl

/-- A client whose word is believed over HTTP. -/
theorem deceived_of_not_sure {way : Way} {source : Source} {real : SocketAddr}
    (hhonest : source.Honest) (hcomes : source.ComesBy way) (hreaches : setup.Reaches source way)
    (hthrough : source.Through gate) (howner : source.owner = some real)
    (hsure : ¬ source.Sure gate) : Deceived setup gate real := by
  have htrusts : source.Named → gate.trusts real.ip = true := by
    intro hnamed
    rw [← Bool.not_eq_false]
    intro hnot
    refine hsure ?_
    cases source with
    | client real' =>
      cases howner
      exact hnot
    | passed proxy real' header =>
      cases howner
      exact ⟨hnamed, hnot⟩
    | reverseProxy proxy adds => cases howner
  have hsocket : gate.trusts source.socket.ip = true := by
    cases source with
    | client real' =>
      cases howner
      exact htrusts trivial
    | passed proxy real' header => exact hthrough
    | reverseProxy proxy adds => exact hthrough
  obtain ⟨acts, w, peer, hexec, hgate, hpeer, hconn⟩ :=
    exec_to_doh hhonest hcomes hreaches hsocket fun real' hreal' hnamed => by
      rw [howner] at hreal'
      cases hreal'
      exact htrusts hnamed
  have hanswer : answer setup.decode w.gate peer none lie = .ok (believed peer) :=
    answer_lie (hgate ▸ hpeer) rfl rfl
  have hstep : setup.step w (.request 0 lie true 0) =
      some (w.ask real (believed peer) true 0) := by
    simp only [Setup.step]
    rw [hconn]
    dsimp only
    rw [howner, Option.bind_eq_bind, Option.bind_some, hanswer]
  exact deceived_of_step (isLocal_home peer.port) hexec hstep

/-- A client whose own `X-Real-IP` a reverse proxy passes on. -/
theorem deceived_of_forwards {way : Way} {proxy : SocketAddr} {adds : Adds} {client : SocketAddr}
    {value : Bytes} (hcomes : (Source.reverseProxy proxy adds).ComesBy way)
    (hreaches : setup.Reaches (.reverseProxy proxy adds) way)
    (htrusts : gate.trusts proxy.ip = true) (hadds : adds ≠ .realIp) (hcomma : 44 ∉ value)
    (hvalue : (toStr value).bind readClient = some (unmapV4 client.ip)) :
    Deceived setup gate client := by
  obtain ⟨acts, w, peer, hexec, hgate, hpeer, hconn⟩ :=
    exec_to_doh (show (Source.reverseProxy proxy adds).Honest from trivial) hcomes hreaches htrusts
      fun real' hreal' => by cases hreal'
  have hanswer : answer setup.decode w.gate peer none
      { lie with headers := adds.forward value lie.headers } = .ok (believed peer) :=
    answer_lie (hgate ▸ hpeer) (getAll_forward hadds (by decide) ..)
      (getAll_forward hadds (by decide) ..)
  have hstep : setup.step w (.forwards 0 client value lie true 0) =
      some (w.ask client (believed peer) true 0) := by
    simp only [Setup.step]
    rw [hconn]
    dsimp only
    rw [if_pos ⟨hcomma, hvalue⟩, hanswer]
  exact deceived_of_step (isLocal_home peer.port) hexec hstep

/-- A client that connected over HTTP/3 at home, and has moved. -/
theorem deceived_of_migrates (setup : Setup) (gate : Gate) {first : SocketAddr} (real : SocketAddr)
    (hlocal : isLocal first.ip = true) : Deceived setup gate real := by
  let peer := canonical first
  let opened := ((World.start gate).setPhase 0 (.client first) (.quic peer)).setPhase 0
    (.client first) (.doh3 peer none)
  let moved := opened.setPhase 0 (.client real) (.doh3 peer none)
  have hpeer : isLocal peer.ip = true := by rw [ip_canonical, isLocal_unmapV4, hlocal]
  have hmoved : Lts.exec setup.step (.start gate)
      [.accept 0 .quic (.client first), .handshake 0 [] none none, .migrates 0 real] = some moved := by
    have haccept : setup.step (.start gate) (.accept 0 .quic (.client first)) =
        some ((World.start gate).setPhase 0 (.client first) (.quic peer)) :=
      step_accept trivial rfl
    rw [Lts.exec, haccept, Option.bind_some, Lts.exec]
    simp only [Setup.step, conns_setPhase, Option.all_none, if_true,
      Option.bind_none, Option.bind_some, Lts.exec]
    rfl
  have hconn : moved.conns 0 = some ⟨.client real, .doh3 peer none⟩ := conns_setPhase ..
  have hstep : setup.step moved (.request 0 lie true 0) =
      some (moved.ask real (unnamed peer) true 0) := by
    simp only [Setup.step]
    rw [hconn]
    dsimp only [Source.owner]
    rw [Option.bind_eq_bind, Option.bind_some, request3_lie]
  exact deceived_of_step hpeer hmoved hstep

/-- **Strangers.**  In every run whose steps meet the condition a query is judged at its client's
address, and a stranger's is resolved only with an id of the list.  A stream whose client is
believed over HTTP, a reverse proxy that does not set `X-Real-IP`, and a connection over HTTP/3
whose client has left home, are each enough for a stranger to be resolved without one. -/
theorem strangers_turned_away (setup : Setup) (gate : Gate) :
    (∀ acts w, Lts.exec setup.step (.start gate) acts = some w →
      Lts.Guarded setup.step Meets (.start gate) acts → ∀ j ∈ w.judged, j.Safe) ∧
    (∀ way source real, source.Honest → source.ComesBy way → setup.Reaches source way →
      source.Through gate → source.owner = some real → ¬ source.Sure gate →
        Deceived setup gate real) ∧
    (∀ way proxy adds client value, (Source.reverseProxy proxy adds).ComesBy way →
      setup.Reaches (.reverseProxy proxy adds) way → gate.trusts proxy.ip = true →
      adds ≠ .realIp → 44 ∉ value → (toStr value).bind readClient = some (unmapV4 client.ip) →
        Deceived setup gate client) ∧
    ∀ first real : SocketAddr, isLocal first.ip = true → Deceived setup gate real := by
  refine ⟨fun acts w hexec hguarded => ?_, fun way source real => deceived_of_not_sure,
    fun way proxy adds client value => deceived_of_forwards,
    fun first real => deceived_of_migrates setup gate real⟩
  have hstart : Inv (World.start gate) := by
    refine ⟨fun c conn hconn => ?_, fun j hj => ?_⟩
    · cases hconn
    · cases hj
  exact (Lts.inv_of_exec setup.step (fun w a w' => step_inv) hstart hguarded hexec).judged

namespace Forwarded

def box : Setup := ⟨"dns.example.com".toList, none, fun _ => none, fun _ => true⟩

def lists : Gate := (Gate.empty.setDevices ["pixel".toList]).setProxies ["192.168.1.5".toList]

def proxy : SocketAddr := .v4 ⟨192, 168, 1, 5⟩ 40000

def stranger : SocketAddr := .v4 ⟨198, 51, 100, 7⟩ 51000

/-- The stranger's request comes through a proxy that adds to `X-Forwarded-For`. -/
def run : List Action :=
  [.accept 0 (.own .https) (.reverseProxy proxy .sameHeader),
    .handshake 0 bareHello none (some http11),
    .forwards 0 stranger (Text.toBytes "198.51.100.7".toList) lie true 0]

/-- The stranger connects over HTTP/3 at home, and asks when it has left. -/
def left : List Action :=
  [.accept 0 .quic (.client (SocketAddr.new home 51000)), .handshake 0 [] none none, .migrates 0 stranger,
    .request 0 { lie with headers := lie.headers.take 1 } true 0]

/-- In the run the stranger is resolved without a device, as if it were at home. -/
def TakenHome (acts : List Action) : Prop :=
  ∃ w, Lts.exec box.step (.start lists) acts = some w ∧
    ∃ j ∈ w.judged, j.real = stranger ∧ isLocal j.real.ip = false ∧ j.asked.peer.ip = home ∧
      j.resolved = true ∧ j.asked.id = none

theorem takenHome_of_any {acts : List Action}
    (h : ((Lts.exec box.step (.start lists) acts).map World.judged).any (fun js => js.any fun j =>
      decide (j.real = stranger ∧ isLocal j.real.ip = false ∧ j.asked.peer.ip = home ∧
        j.resolved = true ∧ j.asked.id = none)) = true) : TakenHome acts := by
  obtain ⟨js, hjs, hany⟩ := (Option.any_eq_true _ _).1 h
  obtain ⟨w, hexec, rfl⟩ := Option.map_eq_some_iff.1 hjs
  obtain ⟨j, hj, hwhat⟩ := List.any_eq_true.1 hany
  exact ⟨w, hexec, j, hj, of_decide_eq_true hwhat⟩

end Forwarded

open Forwarded in
/-- A stranger that sends `X-Real-IP: 192.168.1.20` is resolved without a device, as if it were
at home.  So is one that has been at home. -/
theorem lie_is_resolved : TakenHome run ∧ TakenHome left :=
  ⟨takenHome_of_any (by decide +kernel), takenHome_of_any (by decide +kernel)⟩

end Ferrite.Secure
