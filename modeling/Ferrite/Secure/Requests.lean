import Ferrite.Lib.Staged
import Ferrite.Proxy.ProxyHeader

/-!
# Who encrypted DNS answers

`secure/src/gate.rs`, `secure/src/doh.rs` and `secure/src/doh3.rs`: the gate with its list of
devices and of trusted proxies, the device a request names in its path or its TLS name, the
client a reverse proxy names in its headers, and a request from its head to the resolver.

* `isLocal_or_mem_of_resolve` — what is resolved comes from home, or carries a listed id;
* `forwardedFor_of_realIp`, `forwardedFor_of_lastEntry` — whom the headers name.
-/

namespace Ferrite.Secure

/-! ## The gate -/

/-- `TurnedAway`. -/
structure TurnedAway where
  device : Option Text
  time : ℤ
deriving DecidableEq

/-- `Gate`. -/
structure Gate where
  devices : List Text
  proxies : List IpNetwork
  turnedAway : UInt64
  last : Option TurnedAway
deriving DecidableEq

namespace Gate

/-- `Gate::default`. -/
def empty : Gate := ⟨[], [], 0, none⟩

/-- `set_devices`. -/
def setDevices (gate : Gate) (devices : List Text) : Gate := { gate with devices := devices }

/-- `set_proxies`: what is no address or network is left out. -/
def setProxies (gate : Gate) (proxies : List Text) : Gate :=
  { gate with proxies := proxies.filterMap IpNetwork.parse }

/-- `trusts`. -/
def trusts (gate : Gate) (peer : IpAddr) : Bool :=
  gate.proxies.any fun net => net.contains (unmapV4 peer)

/-- `allows`: one that may not be answered is counted. -/
def allows (gate : Gate) (now : ℤ) (peer : IpAddr) (id : Option Text) : Bool × Gate :=
  if isLocal peer || id.any gate.devices.contains then (true, gate)
  else (false, { gate with turnedAway := gate.turnedAway + 1, last := some ⟨id, now⟩ })

end Gate

/-! ## The device a query names -/

/-- `str::strip_suffix`. -/
def stripSuffix (s pat : Text) : Option Text :=
  (Text.stripPrefix s.reverse pat.reverse).map List.reverse

/-- `client_id_from_sni`: the one label in front of `hostname`. -/
def clientIdFromSni (sni hostname : Text) : Option Text := do
  let sni := (sni.trimEndMatches (· == '.')).toAsciiLowercase
  let label ← stripSuffix (← stripSuffix sni hostname) ['.']
  if label.contains '.' then none else normalizeClientId label

/-- `is_ours`. -/
def isOurs (sni hostname : Text) : Bool :=
  let sni := (sni.trimEndMatches (· == '.')).toAsciiLowercase
  sni == hostname || (stripSuffix sni hostname).any fun front => front.getLast? == some '.'

/-- `path_id`: `none` is no DNS path at all. -/
def pathId (path : Text) (sniId : Option Text) : Option (Option Text) := do
  let rest ← path.stripPrefix "/dns-query".toList
  let rest := rest.trimEndMatches (· == '/')
  if rest = [] then return sniId
  let id ← rest.stripPrefix ['/']
  return some (← normalizeClientId id)

/-! ## The client a reverse proxy names -/

/-- `HeaderMap`: names in lower case, the values of a name in the order they came. -/
abbrev Headers := List (Text × Bytes)

/-- `get_all`. -/
def Headers.getAll (headers : Headers) (name : Text) : List Bytes :=
  (headers.filter fun h => h.1 = name).map Prod.snd

/-- `get`. -/
def Headers.get (headers : Headers) (name : Text) : Option Bytes := (headers.getAll name).head?

/-- `HeaderValue::to_str`: visible ASCII only. -/
def toStr (value : Bytes) : Option Text :=
  if value.all fun b => b == 9 || (32 ≤ b && b < 127) then
    some (value.map fun b => Char.ofNat b.toNat)
  else none

def xRealIp : Text := "x-real-ip".toList
def xForwardedFor : Text := "x-forwarded-for".toList
def contentType : Text := "content-type".toList

/-- An address, alone or with a port. -/
def readClient (s : Text) : Option IpAddr :=
  let s := s.trim
  ((Reader.parse Reader.ip s).or ((SocketAddr.parse s).map SocketAddr.ip)).map unmapV4

/-- What stands behind the last comma. -/
def lastEntry (s : Text) : Text := (s.reverse.takeWhile (· ≠ ',')).reverse

/-- `forwarded_for`. -/
def forwardedFor (headers : Headers) : Option IpAddr :=
  match (headers.get xRealIp).bind toStr with
  | some v => readClient v
  | none => do
    let last ← (headers.getAll xForwardedFor).getLast?
    readClient (lastEntry (← toStr last))

/-! ## A request -/

/-- `MAX_MESSAGE`. -/
def maxMessage : ℕ := 65535

/-- `DNS_MESSAGE`. -/
def dnsMessage : Text := "application/dns-message".toList

/-- The methods `read_head` tells apart. -/
inductive Method where
  | get
  | post
  | other
deriving DecidableEq

/-- A request as the HTTP library hands it over.  There is no body if it did not arrive. -/
structure Request where
  method : Method
  path : Text
  query : Option Text
  headers : Headers
  body : Option Bytes
deriving DecidableEq

/-- What is done with a request: `Reply::text`, the answer of `refused`, or the query goes to
`handle_query_as`. -/
inductive Reply where
  | text (status : ℕ) (body : Text)
  | refused (raw : Bytes)
  | resolved (raw : Bytes) (peer : SocketAddr) (id : Option Text)
deriving DecidableEq

/-- The query went to the resolver. -/
def Reply.isResolved : Reply → Bool
  | resolved .. => true
  | _ => false

/-- `Query`. -/
inductive Query where
  | inUrl (raw : Bytes)
  | inBody
deriving DecidableEq

/-- `too_large`. -/
def tooLarge : Reply := .text 413 "message too large\n".toList

/-- A query on its way to the gate: what it asks, which device it names and where it comes
from. -/
structure Asked where
  raw : Bytes
  id : Option Text
  peer : SocketAddr
deriving DecidableEq

section Answering

variable (decode : Text → Option Bytes)

/-- `read_head`; `decode` is that of base64url without padding. -/
def readHead (req : Request) (sniId : Option Text) : Except Reply (Option Text × Query) :=
  match pathId req.path sniId with
  | none => .error (.text 404 "not found\n".toList)
  | some id =>
    match req.method with
    | .get =>
      let param : Option Text := req.query.bind fun q =>
        (q.splitOn '&').findSome? fun kv => Text.stripPrefix kv "dns=".toList
      match param with
      | none => .error (.text 400 "missing dns parameter\n".toList)
      | some param =>
        match decode (param.trimEndMatches (· == '=')) with
        | some raw => .ok (id, .inUrl raw)
        | none => .error (.text 400 "dns isn't base64url\n".toList)
    | .post =>
      let typed := ((req.headers.get contentType).bind toStr).any fun v =>
        v.eqIgnoreAsciiCase dnsMessage
      if typed then .ok (id, .inBody)
      else .error (.text 415 "expected application/dns-message\n".toList)
    | .other => .error (.text 405 "GET or POST\n".toList)

/-- The message, from the URL or the body; `lost` answers a body that did not arrive. -/
def readRaw (lost : Reply) (req : Request) : Query → Except Reply Bytes
  | .inUrl raw => .ok raw
  | .inBody =>
    match req.body with
    | none => .error lost
    | some body => if maxMessage < body.length then .error tooLarge else .ok body

/-- The peer of a request in `answer`: for a trusted proxy, the client it names. -/
def namedPeer (gate : Gate) (peer : SocketAddr) (headers : Headers) : Except Reply SocketAddr :=
  if gate.trusts peer.ip then
    match forwardedFor headers with
    | some ip => .ok (Proxy.SocketAddr.new ip peer.port)
    | none => .error (.text 400 "the proxy didn't say whom it forwards for (X-Real-IP)\n".toList)
  else .ok peer

/-- `answer` of `doh.rs` up to `resolve`. -/
def answer (gate : Gate) (peer : SocketAddr) (sniId : Option Text) (req : Request) :
    Except Reply Asked := do
  let (id, query) ← readHead decode req sniId
  let peer ← namedPeer gate peer req.headers
  let raw ← readRaw tooLarge req query
  return ⟨raw, id, peer⟩

/-- `request` of `doh3.rs` up to `resolve`. -/
def request3 (peer : SocketAddr) (sniId : Option Text) (req : Request) : Except Reply Asked := do
  let (id, query) ← readHead decode req sniId
  let raw ← readRaw (.text 400 "the body didn't arrive\n".toList) req query
  return ⟨raw, id, peer⟩

end Answering

/-- `resolve`; `free` says that a query more may wait for upstream. -/
def resolve (gate : Gate) (now : ℤ) (free : Bool) (asked : Asked) : Reply × Gate :=
  if asked.raw.length < 12 ∨ maxMessage < asked.raw.length then
    (.text 400 "not a DNS message\n".toList, gate)
  else
    match gate.allows now asked.peer.ip asked.id with
    | (false, gate) => (.refused asked.raw, gate)
    | (true, gate) =>
      if free then (.resolved asked.raw asked.peer asked.id, gate)
      else (.text 503 "busy\n".toList, gate)

/-! ## Specifications -/

variable {decode : Text → Option Bytes} {gate : Gate} {peer : SocketAddr} {sniId : Option Text}
  {req : Request} {asked : Asked}

theorem isLocal_or_mem_of_allows {now : ℤ} {peer : IpAddr} {id : Option Text}
    (h : (gate.allows now peer id).1 = true) :
    isLocal peer = true ∨ ∃ d ∈ gate.devices, id = some d := by
  unfold Gate.allows at h
  split_ifs at h with hok
  rcases Bool.or_eq_true_iff.1 hok with hlocal | hlisted
  · exact .inl hlocal
  · cases id with
    | none => cases hlisted
    | some d => exact .inr ⟨d, List.contains_iff_mem.1 hlisted, rfl⟩

/-- **The gate.**  What is resolved comes from home, or carries an id of the list. -/
theorem isLocal_or_mem_of_resolve {now : ℤ} {free : Bool} {raw : Bytes} {peer : SocketAddr}
    {id : Option Text} (h : (resolve gate now free asked).1 = .resolved raw peer id) :
    isLocal asked.peer.ip = true ∨ ∃ d ∈ gate.devices, asked.id = some d := by
  cases hallows : gate.allows now asked.peer.ip asked.id with
  | mk ok gate' =>
    cases ok with
    | true =>
      have hok : (gate.allows now asked.peer.ip asked.id).1 = true := by rw [hallows]
      exact isLocal_or_mem_of_allows hok
    | false =>
      unfold resolve at h
      rw [hallows] at h
      split at h
      · cases h
      · cases h

/-- Over HTTP/1.1 and HTTP/2 a query is judged where it comes from, or where the headers of a
trusted proxy say. -/
theorem peer_of_answer (h : answer decode gate peer sniId req = .ok asked) :
    (gate.trusts peer.ip = false ∧ asked.peer = peer) ∨
      (gate.trusts peer.ip = true ∧ ∃ ip, forwardedFor req.headers = some ip ∧
        asked.peer = Proxy.SocketAddr.new ip peer.port) := by
  obtain ⟨⟨id, query⟩, -, h⟩ := bind_eq_ok_iff.1 h
  obtain ⟨client, hclient, h⟩ := bind_eq_ok_iff.1 h
  obtain ⟨raw, -, h⟩ := bind_eq_ok_iff.1 h
  cases h
  unfold namedPeer at hclient
  cases htrusts : gate.trusts peer.ip with
  | false =>
    rw [htrusts] at hclient
    cases hclient
    exact .inl ⟨rfl, rfl⟩
  | true =>
    rw [htrusts, if_pos rfl] at hclient
    cases hfor : forwardedFor req.headers with
    | none =>
      rw [hfor] at hclient
      cases hclient
    | some ip =>
      rw [hfor] at hclient
      cases hclient
      exact .inr ⟨rfl, ip, rfl, rfl⟩

/-- Over HTTP/3 it is judged where it comes from. -/
theorem peer_of_request3 (h : request3 decode peer sniId req = .ok asked) : asked.peer = peer := by
  obtain ⟨⟨id, query⟩, -, h⟩ := bind_eq_ok_iff.1 h
  obtain ⟨raw, -, h⟩ := bind_eq_ok_iff.1 h
  cases h
  rfl

/-! ## Whom the headers name -/

theorem forwardedFor_of_realIp {headers : Headers} {value : Bytes} {v : Text}
    (h : headers.get xRealIp = some value) (hv : toStr value = some v) :
    forwardedFor headers = readClient v := by
  have hget : (headers.get xRealIp).bind toStr = some v := by rw [h, Option.bind_some, hv]
  unfold forwardedFor
  rw [hget]

/-- Without an `X-Real-IP` the last entry counts. -/
theorem forwardedFor_of_last {headers : Headers} {value : Bytes}
    (hreal : (headers.get xRealIp).bind toStr = none)
    (h : (headers.getAll xForwardedFor).getLast? = some value) :
    forwardedFor headers = (toStr value).bind fun v => readClient (lastEntry v) := by
  unfold forwardedFor
  rw [hreal, h]
  rfl

/-- What stands before a comma is not in the last entry. -/
theorem lastEntry_append {t : Text} (h : ',' ∉ t) (s : Text) : lastEntry (s ++ ',' :: t) = t := by
  have hall : ∀ c ∈ t.reverse, (decide (c ≠ ',')) = true := by
    intro c hc
    rw [decide_eq_true_iff]
    rintro rfl
    exact h (List.mem_reverse.1 hc)
  have hreverse : (s ++ ',' :: t).reverse = t.reverse ++ ',' :: s.reverse := by simp
  unfold lastEntry
  rw [hreverse, List.takeWhile_append_of_pos hall]
  simp

theorem lastEntry_of_notMem {t : Text} (h : ',' ∉ t) : lastEntry t = t := by
  have hall : ∀ c ∈ t.reverse, (decide (c ≠ ',')) = true := by
    intro c hc
    rw [decide_eq_true_iff]
    rintro rfl
    exact h (List.mem_reverse.1 hc)
  unfold lastEntry
  rw [← List.append_nil t.reverse, List.takeWhile_append_of_pos hall]
  simp

/-- The blank in front of an entry does not matter. -/
theorem readClient_blank (t : Text) : readClient (' ' :: t) = readClient t := by
  have htrim : Text.trim (' ' :: t) = t.trim := rfl
  unfold readClient
  rw [htrim]

theorem toStr_append (a b : Bytes) :
    toStr (a ++ b) = (toStr a).bind fun s => (toStr b).map fun t => s ++ t := by
  unfold toStr
  rw [List.all_append]
  cases a.all _ with
  | false => rfl
  | true => cases b.all _ with
    | false => rfl
    | true => simp

end Ferrite.Secure
