import Ferrite.Lib.Dialogue
import Ferrite.Core.Utf8
import Ferrite.Core.AddrText

/-!
# The SOCKS5 egress

`proxy/src/egress/socks5.rs`: a proxy is greeted, given the name and password if it wants
them, and asked to connect to a host by name; what it answers decides whether the stream
behind its answer is the destination's, and otherwise whether the proxy or the destination is
to blame.

`Granted` is an answer as RFC 1928 writes it, `serverReads` how a proxy reads the client.

* `handshakeOn_eq_ok`, `handshakeOn_error` — how a handshake ends, by what the proxy says;
* `socks5_tunnel` — it succeeds exactly with a proxy that grants the connection, and the stream
  is then the destination's;
* `socks5_blame` — which failures are laid to the destination, and when it never ends;
* `socks5_credentials` — what the proxy is told in any case.
-/

namespace Ferrite.Proxy.Socks5

open Dialogue Bytes

/-! ## The client -/

/-- `FeriteError`, as far as it can come up here. -/
inductive FeriteError where
  | dns (text : Text)
  | io (text : Text)
deriving DecidableEq, Repr

/-- `ConnectErrorKind`. -/
inductive ConnectErrorKind where
  | egress
  | destination
deriving DecidableEq, Repr

/-- `ConnectError`. -/
structure ConnectError where
  kind : ConnectErrorKind
  err : FeriteError
deriving DecidableEq, Repr

/-- What of `Socks5Egress` a connection needs. -/
structure Socks5Egress where
  proxyAddr : Text
  auth : Option (Text × Text)
deriving DecidableEq, Repr

/-- `io_err`. -/
def ioErr (e : Text) : FeriteError := .dns ("socks5 io: ".toList ++ e)

/-- A text behind its length in one byte. -/
def counted (t : Text) : Bytes := UInt8.ofNat t.toBytes.length :: t.toBytes

/-- `user_pass_auth`. -/
def userPassAuth (auth : Option (Text × Text)) : Talk Text (Lost FeriteError) Unit :=
  match auth with
  | none => fail (.closed (.dns "socks5: server requires auth but none configured".toList))
  | some (user, pass) =>
    if 255 < user.toBytes.length ∨ 255 < pass.toBytes.length then
      fail (.closed (.dns "socks5: username/password too long".toList))
    else do
      mapError (Lost.map .io) (writeAll (0x01 :: (counted user ++ counted pass)))
      let reply ← mapError (Lost.map .io) (readExact 2)
      if reply.byteAt 1 ≠ 0x00 then
        fail (.closed (.dns "socks5: authentication failed".toList))

/-- The greeting offers one way to authenticate. -/
def greeting (auth : Option (Text × Text)) : Bytes :=
  if auth.isSome then [0x05, 0x01, 0x02] else [0x05, 0x01, 0x00]

/-- The CONNECT request. -/
def request (host : Text) (port : UInt16) : Bytes :=
  [0x05, 0x01, 0x00, 0x03] ++ counted host ++ ofU16 port

/-- What follows the proxy's choice of a method. -/
def authenticate (auth : Option (Text × Text)) (method : UInt8) :
    Talk Text (Lost FeriteError) Unit :=
  if method = 0x00 then pure ()
  else if method = 0x02 then userPassAuth auth
  else if method = 0xFF then
    fail (.closed (.dns "socks5: no acceptable auth methods".toList))
  else fail (.closed (.dns ("socks5: unexpected method ".toList ++ decimal method.toNat)))

/-- `negotiate`, on the connection to the proxy. -/
def negotiate (auth : Option (Text × Text)) (host : Text) (port : UInt16) :
    Talk Text (Lost FeriteError) Unit := do
  mapError (Lost.map .io) (writeAll (greeting auth))
  let method ← mapError (Lost.map .io) (readExact 2)
  if method.byteAt 0 ≠ 0x05 then
    fail (.closed (.dns "socks5: bad version in method reply".toList))
  else do
    authenticate auth (method.byteAt 1)
    mapError (Lost.map .io) (writeAll (request host port))

/-- `host:port` in a message. -/
def hostPort (host : Text) (port : UInt16) : Text := host ++ ':' :: decimal port.toNat

/-- `classify_reply`. -/
def classifyReply (code : UInt8) (host : Text) (port : UInt16) : ConnectError :=
  let err := FeriteError.dns ("socks5: CONNECT to ".toList ++ hostPort host port ++
    " failed (reply code ".toList ++ decimal code.toNat ++ ")".toList)
  if 0x02 ≤ code ∧ code ≤ 0x06 then ⟨.destination, err⟩ else ⟨.egress, err⟩

/-- A phase under `timeout`: nothing happening becomes an error of its own. -/
def inTime {α : Type} (kind : ConnectErrorKind) (late : FeriteError)
    (x : Talk Text (Lost FeriteError) α) : Talk Text (Lost ConnectError) α :=
  mapError (fun e => .closed ⟨kind, match e with
    | .closed err => err
    | .silent => late⟩) x

/-- A read without a timeout: it may wait for ever. -/
def drain (n : ℕ) : Talk Text (Lost ConnectError) Bytes :=
  mapError (Lost.map fun e => ⟨.egress, ioErr e⟩) (readExact n)

/-- The bound address is of no use, but stands in front of the tunneled bytes. -/
def drainBound (atyp : UInt8) : Talk Text (Lost ConnectError) Bytes :=
  if atyp = 0x01 then drain (4 + 2)
  else if atyp = 0x04 then drain (16 + 2)
  else if atyp = 0x03 then do
    let l ← drain 1
    drain ((l.byteAt 0).toNat + 2)
  else fail (.closed ⟨.egress, .dns ("socks5: bad reply ATYP ".toList ++ decimal atyp.toNat)⟩)

/-- `handshake`, on the connection to the proxy. -/
def handshakeOn (s : Socks5Egress) (host : Text) (port : UInt16) :
    Talk Text (Lost ConnectError) Unit := do
  inTime .egress (.dns ("socks5 ".toList ++ s.proxyAddr ++ ": proxy handshake timed out".toList))
    (negotiate s.auth host port)
  let head ← inTime .destination
    (.dns ("socks5: CONNECT to ".toList ++ hostPort host port ++ " timed out".toList))
    (mapError (Lost.map ioErr) (readExact 4))
  if head.byteAt 1 ≠ 0x00 then fail (.closed (classifyReply (head.byteAt 1) host port))
  else do
    let _ ← drainBound (head.byteAt 3)
    pure ()

/-- `handshake`; `proxy` is what connecting to the proxy comes to.  An error `silent` is none:
the handshake waits for ever. -/
def handshake (s : Socks5Egress) (host : Text) (port : UInt16)
    (proxy : Except (Lost Text) (Line Text)) : Except (Lost ConnectError) (Line Text) :=
  if 255 < host.toBytes.length then
    .error (.closed ⟨.destination, .dns "socks5: hostname too long for ATYP=domain".toList⟩)
  else
    match proxy with
    | .error (.closed why) =>
       .error (.closed ⟨.egress,
        .dns ("socks5 connect ".toList ++ s.proxyAddr ++ ": ".toList ++ why)⟩)
    | .error .silent =>
      .error (.closed ⟨.egress,
        .dns ("socks5 ".toList ++ s.proxyAddr ++ ": proxy handshake timed out".toList)⟩)
    | .ok line =>
      match run (handshakeOn s host port) line with
      | (.ok (), line) => .ok line
      | (.error e, _) => .error e

/-! ## The proxy, as RFC 1928 has it -/

/-- An address of a reply. -/
inductive Bound where
  | v4 (ip : { bs : Bytes // bs.length = 4 })
  | domain (name : { bs : Bytes // bs.length < 256 })
  | v6 (ip : { bs : Bytes // bs.length = 16 })

def Bound.atyp : Bound → UInt8
  | v4 _ => 0x01
  | domain _ => 0x03
  | v6 _ => 0x04

def Bound.addr : Bound → Bytes
  | v4 ip => ip.1
  | domain name => UInt8.ofNat name.1.length :: name.1
  | v6 ip => ip.1

/-- What a proxy says that grants a connection.  It asked for the password if `auth` is there,
with a version of its own in front of the reply to it; versions and reserved bytes are free. -/
structure Granted where
  auth : Option UInt8
  version : UInt8
  reserved : UInt8
  bound : Bound
  port : UInt16

/-- The choice of a method, and the word on the password. -/
def methodBytes : Option UInt8 → Bytes
  | none => [0x05, 0x00]
  | some version => [0x05, 0x02, version, 0x00]

def Granted.encode (g : Granted) : Bytes :=
  methodBytes g.auth ++
    ([g.version, 0x00, g.reserved, g.bound.atyp] ++ (g.bound.addr ++ ofU16 g.port))

/-- What the client says to it. -/
def credentials : Option (Text × Text) → Bytes
  | none => []
  | some (user, pass) => 0x01 :: (counted user ++ counted pass)

/-! ## How the client's parts end -/

/-- There is a name and a password, and they fit in a message. -/
def HasCredentials (auth : Option (Text × Text)) : Prop :=
  ∃ user pass, auth = some (user, pass) ∧ user.toBytes.length ≤ 255 ∧ pass.toBytes.length ≤ 255

/-- What the client says to a proxy that asks for a password or does not. -/
def said (auth : Option (Text × Text)) (asked : Bool) (host : Text) (port : UInt16) : Bytes :=
  greeting auth ++ ((if asked then credentials auth else []) ++ request host port)

variable {auth : Option (Text × Text)} {host : Text} {port : UInt16} {l l' : Line Text}

theorem byteAt_one_of_length {bs : Bytes} (h : bs.length = 2) :
    bs = [bs.byteAt 0, bs.byteAt 1] := by
  match bs, h with
  | [a, b], _ => rfl

theorem userPassAuth_eq_ok : userPassAuth auth l = (.ok (), l') ↔
    HasCredentials auth ∧ (credentials auth).length ≤ l.room ∧
      (∃ version, l.incoming = [version, 0x00] ++ l'.incoming) ∧
      l' = ⟨l'.incoming, l.room - (credentials auth).length, l.ending,
        l.sent ++ credentials auth⟩ := by
  cases auth with
  | none => simp [userPassAuth, fail_run, HasCredentials]
  | some pair =>
    obtain ⟨user, pass⟩ := pair
    unfold userPassAuth
    simp only
    split
    · rename_i hlong
      simp only [fail_run, Prod.mk.injEq, reduceCtorEq, false_and, false_iff]
      rintro ⟨⟨u, p, heq, hu, hp⟩, -⟩
      cases heq
      omega
    · rename_i hlong
      simp only [bind_eq_ok, mapError_eq_ok, writeAll_eq_ok, readExact_eq_ok]
      constructor
      · rintro ⟨-, l₁, ⟨hroom, rfl⟩, reply, l₂, ⟨hlen, hin, hl₂⟩, hreply⟩
        split at hreply
        · rename_i hbad
          simp [fail_run] at hreply
        · rename_i hzero
          simp only [pure_run, Prod.mk.injEq, true_and] at hreply
          subst hreply
          rw [not_not] at hzero
          refine ⟨⟨user, pass, rfl, by omega, by omega⟩, hroom, ⟨reply.byteAt 0, ?_⟩, ?_⟩
          · rw [← hzero, ← byteAt_one_of_length hlen]
            exact hin
          · rw [hl₂]
            rfl
      · rintro ⟨-, hroom, ⟨version, hin⟩, hl'⟩
        refine ⟨(), _, ⟨hroom, rfl⟩, [version, 0x00], l', ⟨rfl, hin, hl'⟩, ?_⟩
        rfl

theorem authenticate_eq_ok {method : UInt8} : authenticate auth method l = (.ok (), l') ↔
    (method = 0x00 ∧ l' = l) ∨ (method = 0x02 ∧ userPassAuth auth l = (.ok (), l')) := by
  unfold authenticate
  split
  · rename_i hzero
    simp [hzero, pure_run, eq_comm]
  · rename_i hzero
    split
    · rename_i htwo
      simp [htwo]
    · rename_i htwo
      split <;> simp [fail_run, hzero, htwo]

/-- **Negotiation.**  It succeeds when the proxy chooses a method, takes what it is told, and
accepts the password if it asked for one. -/
theorem negotiate_eq_ok : negotiate auth host port l = (.ok (), l') ↔
    ∃ a : Option UInt8, (a.isSome → HasCredentials auth) ∧
      (said auth a.isSome host port).length ≤ l.room ∧ l.incoming = methodBytes a ++ l'.incoming ∧
      l' = ⟨l'.incoming, l.room - (said auth a.isSome host port).length, l.ending,
        l.sent ++ said auth a.isSome host port⟩ := by
  unfold negotiate
  simp only [bind_eq_ok, mapError_eq_ok, writeAll_eq_ok, readExact_eq_ok]
  constructor
  · rintro ⟨-, l₁, ⟨hroom, rfl⟩, method, l₂, ⟨hlen, hin, hl₂⟩, h⟩
    split at h
    · simp [fail_run] at h
    · rename_i hfive
      rw [not_not] at hfive
      rw [bind_eq_ok] at h
      obtain ⟨⟨⟩, l₃, hauth, hlast⟩ := h
      rw [mapError_eq_ok, writeAll_eq_ok] at hlast
      obtain ⟨hroom', rfl⟩ := hlast
      have hmethod := byteAt_one_of_length hlen
      simp only at hin
      rcases authenticate_eq_ok.1 hauth with ⟨hzero, rfl⟩ | ⟨htwo, hauth⟩
      · rw [hl₂] at hroom'
        refine ⟨none, by simp, ?_, ?_, ?_⟩
        · simp [said]
          simp at hroom'
          omega
        · rw [hin, hmethod, hfive, hzero]
          rfl
        · rw [hl₂]
          simp [said, Nat.sub_sub]
      · obtain ⟨hhas, hroom₃, ⟨version, hin₃⟩, hl₃⟩ := userPassAuth_eq_ok.1 hauth
        rw [hl₂] at hroom₃
        rw [hl₃, hl₂] at hroom'
        refine ⟨some version, fun _ => hhas, ?_, ?_, ?_⟩
        · simp [said]
          simp at hroom' hroom₃
          omega
        · rw [hin, hmethod, hfive, htwo, hin₃]
          rfl
        · rw [hl₃, hl₂]
          simp [said, Nat.sub_sub, Nat.add_assoc]
  · rintro ⟨a, hhas, hroom, hin, hl'⟩
    cases a with
    | none =>
      simp [said] at hroom
      refine ⟨(), _, ⟨by omega, rfl⟩, [0x05, 0x00],
        ⟨l'.incoming, l.room - (greeting auth).length, l.ending, l.sent ++ greeting auth⟩,
        ⟨rfl, hin, rfl⟩, ?_⟩
      rw [if_neg (by simp [byteAt]), bind_eq_ok]
      refine ⟨(), _, authenticate_eq_ok.2 (Or.inl ⟨rfl, rfl⟩), ?_⟩
      rw [mapError_eq_ok, writeAll_eq_ok]
      refine ⟨by simp only; omega, ?_⟩
      rw [hl']
      simp [said, Nat.sub_sub]
    | some version =>
      simp [said] at hroom
      have hauth : userPassAuth auth ⟨[version, 0x00] ++ l'.incoming,
          l.room - (greeting auth).length, l.ending, l.sent ++ greeting auth⟩ =
            (.ok (), ⟨l'.incoming, l.room - (greeting auth).length - (credentials auth).length,
              l.ending, l.sent ++ greeting auth ++ credentials auth⟩) :=
        userPassAuth_eq_ok.2 ⟨hhas rfl, by simp only; omega, ⟨version, rfl⟩, rfl⟩
      refine ⟨(), _, ⟨by omega, rfl⟩, [0x05, 0x02], ⟨[version, 0x00] ++ l'.incoming,
        l.room - (greeting auth).length, l.ending, l.sent ++ greeting auth⟩, ⟨rfl, hin, rfl⟩, ?_⟩
      rw [if_neg (by simp [byteAt]), bind_eq_ok]
      refine ⟨(), _, authenticate_eq_ok.2 (Or.inr ⟨rfl, hauth⟩), ?_⟩
      rw [mapError_eq_ok, writeAll_eq_ok]
      refine ⟨by simp only; omega, ?_⟩
      rw [hl']
      simp [said, Nat.sub_sub, Nat.add_assoc]

theorem drain_eq_ok {n : ℕ} {bs : Bytes} : drain n l = (.ok bs, l') ↔
    bs.length = n ∧ l.incoming = bs ++ l'.incoming ∧ l' = { l with incoming := l'.incoming } := by
  rw [drain, mapError_eq_ok, readExact_eq_ok]

/-- Six, eighteen or so many bytes are an address and a port. -/
theorem split_port {n : ℕ} {bs : Bytes} (h : bs.length = n + 2) :
    ∃ addr port, addr.length = n ∧ bs = addr ++ ofU16 port := by
  have htwo : (bs.drop n).length = 2 := by rw [List.length_drop]; omega
  obtain ⟨hi, lo, hdrop⟩ : ∃ hi lo, bs.drop n = [hi, lo] := by
    match bs.drop n, htwo with
    | [hi, lo], _ => exact ⟨hi, lo, rfl⟩
  refine ⟨bs.take n, UInt16.ofNat (hi.toNat * 256 + lo.toNat), ?_, ?_⟩
  · rw [List.length_take]
    omega
  · rw [ofU16_bytes, ← hdrop, List.take_append_drop]

theorem drainBound_eq_ok {atyp : UInt8} : (∃ bs, drainBound atyp l = (.ok bs, l')) ↔
    ∃ (bound : Bound) (port : UInt16), bound.atyp = atyp ∧
      l.incoming = bound.addr ++ ofU16 port ++ l'.incoming ∧
      l' = { l with incoming := l'.incoming } := by
  unfold drainBound
  constructor
  · rintro ⟨bs, h⟩
    split at h
    · rename_i hone
      obtain ⟨hlen, hin, hl'⟩ := drain_eq_ok.1 h
      obtain ⟨addr, port, haddr, rfl⟩ := split_port hlen
      exact ⟨.v4 ⟨addr, haddr⟩, port, hone.symm, hin, hl'⟩
    · split at h
      · rename_i hfour
        obtain ⟨hlen, hin, hl'⟩ := drain_eq_ok.1 h
        obtain ⟨addr, port, haddr, rfl⟩ := split_port hlen
        exact ⟨.v6 ⟨addr, haddr⟩, port, hfour.symm, hin, hl'⟩
      · split at h
        · rename_i hthree
          obtain ⟨count, l₁, hcount, hdrain⟩ := bind_eq_ok.1 h
          obtain ⟨hlen₁, hin₁, hl₁⟩ := drain_eq_ok.1 hcount
          obtain ⟨hlen, hin, hl'⟩ := drain_eq_ok.1 hdrain
          obtain ⟨addr, port, haddr, rfl⟩ := split_port hlen
          obtain ⟨n, rfl⟩ : ∃ n, count = [n] := List.length_eq_one_iff.1 hlen₁
          have hn : n.toNat = addr.length := haddr.symm
          have hlt := n.toNat_lt
          refine ⟨.domain ⟨addr, by omega⟩, port, hthree.symm, ?_, ?_⟩
          · have hcount : UInt8.ofNat addr.length = n := by rw [← hn, UInt8.ofNat_toNat]
            simp [hin₁, hin, Bound.addr, hcount]
          · rw [hl', hl₁]
        · simp [fail_run] at h
  · rintro ⟨bound, port, rfl, hin, hl'⟩
    cases bound with
    | v4 ip =>
      refine ⟨ip.1 ++ ofU16 port, ?_⟩
      rw [Bound.atyp, if_pos rfl]
      exact drain_eq_ok.2 ⟨by rw [List.length_append, ip.2]; rfl, hin, hl'⟩
    | v6 ip =>
      refine ⟨ip.1 ++ ofU16 port, ?_⟩
      rw [Bound.atyp, if_neg (by decide), if_pos rfl]
      exact drain_eq_ok.2 ⟨by rw [List.length_append, ip.2]; rfl, hin, hl'⟩
    | domain name =>
      refine ⟨name.1 ++ ofU16 port, ?_⟩
      rw [Bound.atyp, if_neg (by decide), if_neg (by decide), if_pos rfl, bind_eq_ok]
      refine ⟨[UInt8.ofNat name.1.length],
        { l with incoming := name.1 ++ ofU16 port ++ l'.incoming },
        drain_eq_ok.2 ⟨rfl, hin, rfl⟩, drain_eq_ok.2 ⟨?_, rfl, hl'⟩⟩
      have hlt := name.2
      simp only [byteAt, List.getElem?_cons_zero, Option.getD_some, UInt8.toNat_ofNat',
        List.length_append]
      rw [Nat.mod_eq_of_lt hlt]
      rfl

theorem inTime_eq_ok {α : Type} {kind : ConnectErrorKind} {late : FeriteError}
    {x : Talk Text (Lost FeriteError) α} {a : α} :
    inTime kind late x l = (.ok a, l') ↔ x l = (.ok a, l') := by
  rw [inTime, mapError_eq_ok]

/-- **The tunnel begins where the proxy's answer ends.** -/
theorem handshakeOn_eq_ok {s : Socks5Egress} : handshakeOn s host port l = (.ok (), l') ↔
    ∃ g : Granted, (g.auth.isSome → HasCredentials s.auth) ∧
      (said s.auth g.auth.isSome host port).length ≤ l.room ∧
      l.incoming = g.encode ++ l'.incoming ∧
      l' = ⟨l'.incoming, l.room - (said s.auth g.auth.isSome host port).length, l.ending,
        l.sent ++ said s.auth g.auth.isSome host port⟩ := by
  unfold handshakeOn
  simp only [bind_eq_ok, inTime_eq_ok, mapError_eq_ok, readExact_eq_ok]
  constructor
  · rintro ⟨⟨⟩, l₁, hneg, head, l₂, ⟨hlen, hin₂, hl₂⟩, h⟩
    obtain ⟨a, hhas, hroom, hin₁, hl₁⟩ := negotiate_eq_ok.1 hneg
    split at h
    · simp [fail_run] at h
    · rename_i hzero
      rw [not_not] at hzero
      obtain ⟨bs, l₃, hdrain, hpure⟩ := bind_eq_ok.1 h
      simp only [pure_run, Prod.mk.injEq, true_and] at hpure
      subst hpure
      obtain ⟨bound, bport, hatyp, hin₃, hl₃⟩ := drainBound_eq_ok.1 ⟨bs, hdrain⟩
      match head, hlen with
      | [ver, code, rsv, atyp], _ =>
        simp only [byteAt, List.getElem?_cons_zero, List.getElem?_cons_succ, Option.getD_some]
          at hzero hatyp
        refine ⟨⟨a, ver, rsv, bound, bport⟩, hhas, hroom, ?_, ?_⟩
        · rw [hin₁, hin₂, hin₃, hzero, ← hatyp]
          simp [Granted.encode]
        · rw [hl₃, hl₂, hl₁]
  · rintro ⟨⟨a, ver, rsv, bound, bport⟩, hhas, hroom, hin, hl'⟩
    simp only [Granted.encode, List.append_assoc] at hin hhas hroom hl'
    refine ⟨(),
      ⟨[ver, 0x00, rsv, bound.atyp] ++ (bound.addr ++ (ofU16 bport ++ l'.incoming)), _, _, _⟩,
      negotiate_eq_ok.2 ⟨a, hhas, hroom, hin, rfl⟩, [ver, 0x00, rsv, bound.atyp],
      ⟨bound.addr ++ (ofU16 bport ++ l'.incoming), _, _, _⟩, ⟨rfl, rfl, rfl⟩, ?_⟩
    rw [if_neg (by simp [byteAt]), bind_eq_ok]
    have hdrain : ∃ bs, drainBound bound.atyp ⟨bound.addr ++ (ofU16 bport ++ l'.incoming),
        l.room - (said s.auth a.isSome host port).length, l.ending,
        l.sent ++ said s.auth a.isSome host port⟩ = (.ok bs, l') :=
      drainBound_eq_ok.2 ⟨bound, bport, rfl, by simp, hl'⟩
    obtain ⟨bs, hdrain⟩ := hdrain
    exact ⟨bs, l', hdrain, rfl⟩

/-! ## How the proxy reads the client -/

/-- A byte and so many bytes behind it. -/
def readCounted : Bytes → Option (Bytes × Bytes)
  | [] => none
  | n :: bs => if n.toNat ≤ bs.length then some (bs.take n.toNat, bs.drop n.toNat) else none

/-- A client as a proxy understands it. -/
structure Heard where
  methods : Bytes
  credentials : Option (Bytes × Bytes)
  host : Bytes
  port : UInt16
deriving DecidableEq, Repr

/-- Name and password, if the proxy asked for them. -/
def readCredentials : Bool → Bytes → Option (Option (Bytes × Bytes) × Bytes)
  | true, 0x01 :: bs => do
    let (user, bs) ← readCounted bs
    let (pass, bs) ← readCounted bs
    return (some (user, pass), bs)
  | true, _ => none
  | false, bs => some (none, bs)

def readRequest : Bytes → Option (Bytes × UInt16)
  | 0x05 :: 0x01 :: 0x00 :: 0x03 :: bs => do
    let (host, port) ← readCounted bs
    match port with
    | [hi, lo] => some (host, UInt16.ofNat (hi.toNat * 256 + lo.toNat))
    | _ => none
  | _ => none

/-- All that a client says. -/
def serverReads (asked : Bool) : Bytes → Option Heard
  | 0x05 :: bs => do
    let (methods, bs) ← readCounted bs
    let (credentials, bs) ← readCredentials asked bs
    let (host, port) ← readRequest bs
    return ⟨methods, credentials, host, port⟩
  | _ => none

theorem readCounted_counted {t : Text} (h : t.toBytes.length ≤ 255) (rest : Bytes) :
    readCounted (counted t ++ rest) = some (t.toBytes, rest) := by
  have hn : (UInt8.ofNat t.toBytes.length).toNat = t.toBytes.length := by
    rw [UInt8.toNat_ofNat']
    omega
  rw [counted, List.cons_append, readCounted, hn, if_pos (by simp), List.take_left, List.drop_left]

theorem ofU16_read (port : UInt16) :
    ∃ hi lo, ofU16 port = [hi, lo] ∧ UInt16.ofNat (hi.toNat * 256 + lo.toNat) = port := by
  refine ⟨_, _, rfl, ?_⟩
  have hlt := port.toNat_lt
  apply UInt16.toNat_inj.1
  rw [UInt16.toNat_ofNat', UInt8.toNat_ofNat', UInt8.toNat_ofNat']
  omega

theorem readCredentials_credentials {asked : Bool} (h : asked → HasCredentials auth)
    (rest : Bytes) :
    readCredentials asked ((if asked then credentials auth else []) ++ rest) =
      some (if asked then auth.map fun a => (a.1.toBytes, a.2.toBytes) else none, rest) := by
  cases asked with
  | false => rfl
  | true =>
    obtain ⟨user, pass, rfl, huser, hpass⟩ := h rfl
    simp only [if_pos, credentials, List.cons_append, List.append_assoc, readCredentials,
      readCounted_counted huser, readCounted_counted hpass, Option.bind_eq_bind,
      Option.bind_some, Option.map_some, Option.pure_def]

theorem readRequest_request (h : host.toBytes.length ≤ 255) :
    readRequest (request host port) = some (host.toBytes, port) := by
  obtain ⟨hi, lo, hport, hread⟩ := ofU16_read port
  simp only [request, List.cons_append, List.nil_append, readRequest, readCounted_counted h, hport,
    Option.bind_eq_bind, Option.bind_some, hread]

/-- A proxy understands what the client says: the one way to authenticate it offers, name and
password when asked for, host and port. -/
theorem serverReads_said {asked : Bool} (h : asked → HasCredentials auth)
    (hhost : host.toBytes.length ≤ 255) :
    serverReads asked (said auth asked host port) =
      some ⟨if auth.isSome then [0x02] else [0x00],
        if asked then auth.map fun a => (a.1.toBytes, a.2.toBytes) else none,
        host.toBytes, port⟩ := by
  have hgreeting : ∃ method : UInt8, greeting auth = [0x05, 0x01, method] ∧
      (if auth.isSome then [0x02] else [0x00]) = [method] := by
    unfold greeting
    split
    · exact ⟨0x02, rfl, rfl⟩
    · exact ⟨0x00, rfl, rfl⟩
  obtain ⟨method, hbytes, hmethod⟩ := hgreeting
  have hcount (rest : Bytes) : readCounted (0x01 :: method :: rest) = some ([method], rest) := by
    simp [readCounted]
  rw [said, hbytes, hmethod]
  simp only [List.cons_append, List.nil_append, serverReads, hcount, Option.bind_eq_bind,
    Option.bind_some, readCredentials_credentials h, readRequest_request hhost, Option.pure_def]

/-! ## Who is to blame -/

/-- The proxy came through the negotiation, and `rest` is what it says then. -/
def Negotiated (s : Socks5Egress) (host : Text) (port : UInt16) (line : Line Text)
    (rest : Bytes) : Prop :=
  ∃ a : Option UInt8, (a.isSome → HasCredentials s.auth) ∧
    (said s.auth a.isSome host port).length ≤ line.room ∧ line.incoming = methodBytes a ++ rest

/-- A reply that breaks off in the middle of its address. -/
def BreaksOff (bs : Bytes) : Prop :=
  ∃ (version reserved : UInt8) (bound : Bound) (port : UInt16) (part more : Bytes),
    bs = [version, 0x00, reserved, bound.atyp] ++ part ∧ more ≠ [] ∧
      part ++ more = bound.addr ++ ofU16 port

/-- A reply that the destination is to blame for: none, or one of the codes that say so. -/
def BlamesDestination (bs : Bytes) : Prop :=
  bs.length < 4 ∨ ∃ (version code : UInt8) (rest : Bytes), bs = version :: code :: rest ∧
    0x02 ≤ code ∧ code ≤ 0x06

theorem drain_eq_error {n : ℕ} {e : Lost ConnectError} : drain n l = (.error e, l') ↔
    l.incoming.length < n ∧ e = l.ending.map (fun e => ⟨.egress, ioErr e⟩) ∧
      l' = { l with incoming := [] } := by
  rw [drain, mapError_eq_error]
  constructor
  · rintro ⟨e', rfl, h⟩
    obtain ⟨hlt, rfl, hl'⟩ := readExact_eq_error.1 h
    exact ⟨hlt, rfl, hl'⟩
  · rintro ⟨hlt, rfl, hl'⟩
    exact ⟨_, rfl, readExact_eq_error.2 ⟨hlt, rfl, hl'⟩⟩

/-- An error behind the head is the proxy's, or none ever comes. -/
theorem drainBound_error {atyp : UInt8} {e : Lost ConnectError}
    (h : drainBound atyp l = (.error e, l')) : e = .silent ∨ ∃ err, e = .closed ⟨.egress, err⟩ := by
  have hdrain {n : ℕ} {l₁ l₂ : Line Text} (h : drain n l₁ = (.error e, l₂)) :
      e = .silent ∨ ∃ err, e = .closed ⟨.egress, err⟩ := by
    obtain ⟨-, rfl, -⟩ := drain_eq_error.1 h
    cases l₁.ending with
    | closed why => exact Or.inr ⟨_, rfl⟩
    | silent => exact Or.inl rfl
  unfold drainBound at h
  split at h
  · exact hdrain h
  · split at h
    · exact hdrain h
    · split at h
      · rcases bind_eq_error.1 h with h | ⟨count, l₁, -, h⟩
        · exact hdrain h
        · exact hdrain h
      · simp only [fail_run, Prod.mk.injEq, Except.error.injEq] at h
        exact Or.inr ⟨_, h.1.symm⟩

theorem drain_silent {n : ℕ} :
    (∃ l', drain n l = (.error .silent, l')) ↔ l.incoming.length < n ∧ l.ending = .silent := by
  simp only [drain_eq_error]
  constructor
  · rintro ⟨l', hlt, hending, -⟩
    refine ⟨hlt, ?_⟩
    cases hl : l.ending with
    | closed why =>
      rw [hl] at hending
      cases hending
    | silent => rfl
  · rintro ⟨hlt, hending⟩
    exact ⟨_, hlt, by rw [hending]; rfl, rfl⟩

/-- What is missing of `n` bytes and a port can be made up. -/
theorem exists_more {n : ℕ} {bs : Bytes} (h : bs.length < n + 2) :
    ∃ more addr port, more ≠ [] ∧ addr.length = n ∧ bs ++ more = addr ++ ofU16 port := by
  obtain ⟨addr, port, haddr, heq⟩ := split_port
    (show (bs ++ List.replicate (n + 2 - bs.length) 0).length = n + 2 by
      rw [List.length_append, List.length_replicate]
      omega)
  refine ⟨_, addr, port, ?_, haddr, heq⟩
  intro hnil
  have hlen := congrArg List.length hnil
  rw [List.length_replicate, List.length_nil] at hlen
  omega

theorem lt_of_more {bs more whole : Bytes} (hmore : more ≠ []) (h : bs ++ more = whole) :
    bs.length < whole.length := by
  rw [← h, List.length_append]
  have := List.length_pos_iff.2 hmore
  omega

theorem length_ofU16 (port : UInt16) : (ofU16 port).length = 2 := rfl

/-- The handshake waits for ever when the proxy falls silent inside the address it bound. -/
theorem drainBound_silent {atyp : UInt8} : (∃ l', drainBound atyp l = (.error .silent, l')) ↔
    l.ending = .silent ∧ ∃ (bound : Bound) (port : UInt16) (more : Bytes), bound.atyp = atyp ∧
      more ≠ [] ∧ l.incoming ++ more = bound.addr ++ ofU16 port := by
  unfold drainBound
  constructor
  · rintro ⟨l', h⟩
    split at h
    · rename_i hone
      obtain ⟨hlt, hending⟩ := drain_silent.1 ⟨l', h⟩
      obtain ⟨more, addr, port, hmore, haddr, heq⟩ := exists_more hlt
      exact ⟨hending, .v4 ⟨addr, haddr⟩, port, more, hone.symm, hmore, heq⟩
    · split at h
      · rename_i hfour
        obtain ⟨hlt, hending⟩ := drain_silent.1 ⟨l', h⟩
        obtain ⟨more, addr, port, hmore, haddr, heq⟩ := exists_more hlt
        exact ⟨hending, .v6 ⟨addr, haddr⟩, port, more, hfour.symm, hmore, heq⟩
      · split at h
        · rename_i hthree
          rcases bind_eq_error.1 h with h | ⟨count, l₁, hcount, h⟩
          · obtain ⟨hlt, hending⟩ := drain_silent.1 ⟨l', h⟩
            have hnil : l.incoming = [] := List.length_eq_zero_iff.1 (by omega)
            refine ⟨hending, .domain ⟨[], by simp⟩, 0, [0, 0, 0], hthree.symm, by simp, ?_⟩
            rw [hnil]
            rfl
          · obtain ⟨hlen, hin, hl₁⟩ := drain_eq_ok.1 hcount
            obtain ⟨n, rfl⟩ : ∃ n, count = [n] := List.length_eq_one_iff.1 hlen
            obtain ⟨hlt, hending⟩ := drain_silent.1 ⟨l', h⟩
            obtain ⟨more, addr, port, hmore, haddr, heq⟩ := exists_more hlt
            have hn : n.toNat = addr.length := haddr.symm
            have hltn := n.toNat_lt
            have hcount : UInt8.ofNat addr.length = n := by rw [← hn, UInt8.ofNat_toNat]
            rw [hl₁] at hending
            refine ⟨hending, .domain ⟨addr, by omega⟩, port, more, hthree.symm, hmore, ?_⟩
            simp [hin, Bound.addr, hcount, heq]
        · simp [fail_run] at h
  · rintro ⟨hending, bound, port, more, rfl, hmore, heq⟩
    have hlt := lt_of_more hmore heq
    rw [List.length_append, length_ofU16] at hlt
    cases bound with
    | v4 ip =>
      rw [Bound.atyp, if_pos rfl]
      refine drain_silent.2 ⟨?_, hending⟩
      have hip := ip.2
      simp only [Bound.addr] at hlt
      omega
    | v6 ip =>
      rw [Bound.atyp, if_neg (by decide), if_pos rfl]
      refine drain_silent.2 ⟨?_, hending⟩
      have hip := ip.2
      simp only [Bound.addr] at hlt
      omega
    | domain name =>
      rw [Bound.atyp, if_neg (by decide), if_neg (by decide), if_pos rfl]
      cases hin : l.incoming with
      | nil =>
        obtain ⟨l', h⟩ := drain_silent.2 (⟨by simp [hin], hending⟩ : l.incoming.length < 1 ∧ _)
        exact ⟨l', bind_of_error h⟩
      | cons n tail =>
        have hltn := name.2
        simp only [hin, Bound.addr, List.cons_append, List.cons.injEq] at heq
        obtain ⟨rfl, htail⟩ := heq
        have hlt := lt_of_more hmore htail
        rw [List.length_append, length_ofU16] at hlt
        have hone : drain 1 l =
            (.ok [UInt8.ofNat name.1.length], ⟨tail, l.room, l.ending, l.sent⟩) :=
          drain_eq_ok.2 ⟨rfl, hin, rfl⟩
        obtain ⟨l', h⟩ := (drain_silent (l := ⟨tail, l.room, l.ending, l.sent⟩)).2
          ⟨show tail.length < (UInt8.ofNat name.1.length).toNat + 2 by
            rw [UInt8.toNat_ofNat']
            omega, hending⟩
        exact ⟨l', (bind_of_ok hone).trans h⟩

theorem inTime_error {α : Type} {kind : ConnectErrorKind} {late : FeriteError}
    {x : Talk Text (Lost FeriteError) α} {e : Lost ConnectError}
    (h : inTime kind late x l = (.error e, l')) : ∃ err, e = .closed ⟨kind, err⟩ := by
  obtain ⟨e', rfl, -⟩ := mapError_eq_error.1 h
  exact ⟨_, rfl⟩

theorem negotiated_iff {s : Socks5Egress} {rest : Bytes} :
    Negotiated s host port l rest ↔
      ∃ l', negotiate s.auth host port l = (.ok (), l') ∧ l'.incoming = rest ∧
        l'.ending = l.ending := by
  constructor
  · rintro ⟨a, hhas, hroom, hin⟩
    exact ⟨⟨rest, _, _, _⟩, negotiate_eq_ok.2 ⟨a, hhas, hroom, hin, rfl⟩, rfl, rfl⟩
  · rintro ⟨l', h, rfl, -⟩
    obtain ⟨a, hhas, hroom, hin, -⟩ := negotiate_eq_ok.1 h
    exact ⟨a, hhas, hroom, hin⟩

theorem Negotiated.unique {s : Socks5Egress} {rest rest' : Bytes}
    (h : Negotiated s host port l rest) (h' : Negotiated s host port l rest') : rest = rest' := by
  obtain ⟨l₁, hneg, rfl, -⟩ := negotiated_iff.1 h
  obtain ⟨l₂, hneg', rfl, -⟩ := negotiated_iff.1 h'
  rw [hneg] at hneg'
  cases hneg'
  rfl

/-- A reply with code zero and a whole head blames nobody. -/
theorem head_blames_nobody (version reserved atyp : UInt8) (rest : Bytes) :
    ¬ BlamesDestination ([version, 0x00, reserved, atyp] ++ rest) := by
  rintro (hlen | ⟨version', code, rest', heq, hle, -⟩)
  · simp only [List.cons_append, List.length_cons] at hlen
    omega
  · simp only [List.cons_append, List.cons.injEq] at heq
    rw [← heq.2.1] at hle
    exact absurd hle (by decide)

theorem BreaksOff.not_blames {bs : Bytes} (h : BreaksOff bs) : ¬ BlamesDestination bs := by
  obtain ⟨version, reserved, bound, port, part, more, rfl, -, -⟩ := h
  exact head_blames_nobody _ _ _ _

/-- The errors of a handshake on a connection to the proxy. -/
theorem handshakeOn_error {s : Socks5Egress} {e : Lost ConnectError}
    (h : handshakeOn s host port l = (.error e, l')) :
    (∃ err, e = .closed ⟨.egress, err⟩ ∧ ∀ rest, Negotiated s host port l rest →
      ¬ BlamesDestination rest ∧ ¬ (l.ending = .silent ∧ BreaksOff rest)) ∨
    (∃ err rest, e = .closed ⟨.destination, err⟩ ∧ Negotiated s host port l rest ∧
      BlamesDestination rest) ∨
    (∃ rest, e = .silent ∧ l.ending = .silent ∧ Negotiated s host port l rest ∧
      BreaksOff rest) := by
  unfold handshakeOn at h
  rcases bind_eq_error.1 h with h | ⟨⟨⟩, l₁, hneg, h⟩
  · obtain ⟨err, rfl⟩ := inTime_error h
    refine Or.inl ⟨err, rfl, fun rest hrest => ?_⟩
    obtain ⟨l₂, hok, -⟩ := negotiated_iff.1 hrest
    rw [inTime_eq_ok.2 hok] at h
    cases h
  · rw [inTime_eq_ok] at hneg
    have hending : l₁.ending = l.ending := by
      obtain ⟨a, -, -, -, hl₁⟩ := negotiate_eq_ok.1 hneg
      rw [hl₁]
    have hrest : Negotiated s host port l l₁.incoming := negotiated_iff.2 ⟨l₁, hneg, rfl, hending⟩
    rcases bind_eq_error.1 h with h | ⟨head, l₂, hhead, h⟩
    · obtain ⟨err, rfl⟩ := inTime_error h
      obtain ⟨e₁, -, h₁⟩ := mapError_eq_error.1 h
      obtain ⟨e₂, -, h₂⟩ := mapError_eq_error.1 h₁
      exact Or.inr (Or.inl ⟨err, _, rfl, hrest, Or.inl (readExact_eq_error.1 h₂).1⟩)
    · rw [inTime_eq_ok, mapError_eq_ok, readExact_eq_ok] at hhead
      obtain ⟨hlen, hin, hl₂⟩ := hhead
      match head, hlen with
      | [version, code, reserved, atyp], _ =>
        split at h
        · rename_i hcode
          replace hcode : code ≠ 0x00 := hcode
          simp only [fail_run, Prod.mk.injEq, Except.error.injEq] at h
          obtain ⟨rfl, -⟩ := h
          by_cases hrange : 0x02 ≤ code ∧ code ≤ 0x06
          · exact Or.inr (Or.inl ⟨_, _, congrArg Lost.closed (if_pos hrange), hrest,
              Or.inr ⟨version, code, _, hin, hrange⟩⟩)
          · refine Or.inl ⟨_, congrArg Lost.closed (if_neg hrange), fun rest hrest' => ?_⟩
            · rw [hrest'.unique hrest, hin]
              refine ⟨?_, ?_⟩
              · rintro (hlen | ⟨version', code', rest', heq, hle⟩)
                · simp only [List.cons_append, List.length_cons] at hlen
                  omega
                · simp only [List.cons_append, List.cons.injEq] at heq
                  exact hrange (heq.2.1 ▸ hle)
              · rintro ⟨-, _, _, _, _, _, _, heq, -⟩
                simp only [List.cons_append, List.cons.injEq] at heq
                exact hcode heq.2.1
        · rename_i hcode
          replace hcode : code = 0x00 := not_not.1 hcode
          subst hcode
          rcases bind_eq_error.1 h with h | ⟨bs, l₃, -, h⟩
          · have hl₂' : l₂.ending = l.ending := by rw [hl₂, ← hending]
            rcases drainBound_error h with rfl | ⟨err, rfl⟩
            · obtain ⟨hsilent, bound, bport, more, hatyp, hmore, heq⟩ :=
                drainBound_silent.1 ⟨l', h⟩
              replace hatyp : bound.atyp = atyp := hatyp
              subst hatyp
              exact Or.inr (Or.inr ⟨_, rfl, hl₂' ▸ hsilent, hrest, version, reserved, bound, bport,
                l₂.incoming, more, hin, hmore, heq⟩)
            · refine Or.inl ⟨err, rfl, fun rest hrest' => ?_⟩
              rw [hrest'.unique hrest, hin]
              refine ⟨head_blames_nobody _ _ _ _, ?_⟩
              rintro ⟨hsilent, version', reserved', bound, bport, part, more, heq, hmore, hwhole⟩
              simp only [List.cons_append, List.nil_append, List.cons.injEq] at heq
              obtain ⟨-, -, -, rfl, rfl⟩ := heq
              obtain ⟨l₄, hloop⟩ := drainBound_silent.2
                ⟨hl₂'.trans hsilent, bound, bport, more, rfl, hmore, hwhole⟩
              have hsame := h.symm.trans hloop
              cases hsame
          · simp [pure_run] at h

theorem handshake_eq_ok {s : Socks5Egress} {line line' : Line Text} :
    handshake s host port (.ok line) = .ok line' ↔
      host.toBytes.length ≤ 255 ∧ run (handshakeOn s host port) line = (.ok (), line') := by
  unfold handshake
  by_cases hlong : 255 < host.toBytes.length
  · rw [if_pos hlong]
    simp only [reduceCtorEq, false_iff, not_and]
    omega
  · rw [if_neg hlong]
    simp only
    cases hrun : run (handshakeOn s host port) line with
    | mk r line₁ =>
      cases r with
      | ok u => simp [Nat.not_lt.1 hlong]
      | error e => simp

theorem handshake_eq_error {s : Socks5Egress} {line : Line Text} {e : Lost ConnectError} :
    handshake s host port (.ok line) = .error e ↔
      (255 < host.toBytes.length ∧
        .closed ⟨.destination, .dns "socks5: hostname too long for ATYP=domain".toList⟩ = e) ∨
      (host.toBytes.length ≤ 255 ∧
        ∃ line', run (handshakeOn s host port) line = (.error e, line')) := by
  unfold handshake
  by_cases hlong : 255 < host.toBytes.length
  · rw [if_pos hlong]
    simp [hlong, Nat.not_le.2 hlong]
  · rw [if_neg hlong]
    simp only
    cases hrun : run (handshakeOn s host port) line with
    | mk r line₁ =>
      cases r with
      | ok u => simp [hlong]
      | error e => simp [hlong, Nat.not_lt.1 hlong]

/-- Addresses of one kind that begin alike are of one length. -/
theorem length_addr {b b' : Bound} (h : b.atyp = b'.atyp) {s t : Bytes}
    (heq : b.addr ++ s = b'.addr ++ t) : b.addr.length = b'.addr.length := by
  cases b with
  | v4 ip =>
    cases b' with
    | v4 ip' => exact ip.2.trans ip'.2.symm
    | domain name' => cases h
    | v6 ip' => cases h
  | domain name =>
    cases b' with
    | v4 ip' => cases h
    | domain name' =>
      have hlt := name.2
      have hlt' := name'.2
      simp only [Bound.addr, List.cons_append, List.cons.injEq] at heq
      have hcount := congrArg UInt8.toNat heq.1
      rw [UInt8.toNat_ofNat', UInt8.toNat_ofNat'] at hcount
      simp only [Bound.addr, List.length_cons]
      omega
    | v6 ip' => cases h
  | v6 ip =>
    cases b' with
    | v4 ip' => cases h
    | domain name' => cases h
    | v6 ip' => exact ip.2.trans ip'.2.symm

/-- A handshake that is granted found a reply that blames nobody and does not break off. -/
theorem not_of_handshakeOn_ok {s : Socks5Egress} {u : Unit}
    (h : handshakeOn s host port l = (.ok u, l')) {rest : Bytes}
    (hrest : Negotiated s host port l rest) : ¬ BlamesDestination rest ∧ ¬ BreaksOff rest := by
  obtain ⟨g, hhas, hroom, hin, -⟩ := handshakeOn_eq_ok.1 h
  have hgranted : Negotiated s host port l ([g.version, 0x00, g.reserved, g.bound.atyp] ++
      (g.bound.addr ++ ofU16 g.port ++ l'.incoming)) :=
    ⟨g.auth, hhas, hroom, by rw [hin]; simp [Granted.encode]⟩
  rw [hrest.unique hgranted]
  refine ⟨head_blames_nobody _ _ _ _, ?_⟩
  rintro ⟨version, reserved, bound, bport, part, more, heq, hmore, hwhole⟩
  simp only [List.cons_append, List.nil_append, List.cons.injEq] at heq
  obtain ⟨-, -, -, hatyp, rfl⟩ := heq
  have hlen := lt_of_more hmore hwhole
  rw [List.length_append, List.length_append, List.length_append, length_ofU16,
    length_ofU16] at hlen
  have hsame := length_addr hatyp (s := ofU16 g.port ++ (l'.incoming ++ more)) (t := ofU16 bport)
    (by simpa using hwhole)
  omega

/-- Which error a handshake on a connection to the proxy ends with. -/
theorem blame_of_error {s : Socks5Egress} {e : Lost ConnectError}
    (h : handshakeOn s host port l = (.error e, l')) :
    ((∃ err, e = .closed ⟨.destination, err⟩) ↔
      ∃ rest, Negotiated s host port l rest ∧ BlamesDestination rest) ∧
    (e = .silent ↔ l.ending = .silent ∧
      ∃ rest, Negotiated s host port l rest ∧ BreaksOff rest) := by
  rcases handshakeOn_error h with ⟨err, rfl, hnot⟩ | ⟨err, rest, rfl, hrest, hblames⟩ |
    ⟨rest, rfl, hsilent, hrest, hbreaks⟩
  · refine ⟨⟨?_, ?_⟩, ⟨by simp, ?_⟩⟩
    · rintro ⟨err', heq⟩
      cases heq
    · rintro ⟨rest, hrest, hblames⟩
      exact absurd hblames (hnot rest hrest).1
    · rintro ⟨hsilent, rest, hrest, hbreaks⟩
      exact absurd ⟨hsilent, hbreaks⟩ (hnot rest hrest).2
  · refine ⟨⟨fun _ => ⟨rest, hrest, hblames⟩, fun _ => ⟨err, rfl⟩⟩, ⟨by simp, ?_⟩⟩
    rintro ⟨-, rest', hrest', hbreaks⟩
    rw [hrest'.unique hrest] at hbreaks
    exact absurd hblames hbreaks.not_blames
  · refine ⟨⟨by simp, ?_⟩, ⟨fun _ => ⟨hsilent, rest, hrest, hbreaks⟩, fun _ => rfl⟩⟩
    rintro ⟨rest', hrest', hblames⟩
    rw [hrest'.unique hrest] at hblames
    exact absurd hblames hbreaks.not_blames

/-! ## What the proxy is told -/

theorem said_write (f : Lost Text → Lost FeriteError) (bs : Bytes) (l : Line Text) :
    Said bs l (mapError f (writeAll bs) l).2 := by
  rw [mapError_snd]
  exact said_writeAll bs l

theorem sent_read {ε : Type} (f : Lost Text → ε) (n : ℕ) (l : Line Text) :
    (mapError f (readExact n) l).2.sent = l.sent := by
  rw [mapError_snd]
  exact sent_readExact n l

theorem said_userPassAuth (auth : Option (Text × Text)) (l : Line Text) :
    Said (credentials auth) l (userPassAuth auth l).2 := by
  cases auth with
  | none => exact .nothing rfl
  | some pair =>
    obtain ⟨user, pass⟩ := pair
    unfold userPassAuth
    simp only
    split
    · exact .nothing rfl
    · refine (said_write ..).bind fun _ => ((quiet_readExact 2).mapError _).bind fun reply => ?_
      split
      · exact quiet_fail _
      · exact quiet_pure _

/-- Name and password, if that is the method the proxy chose. -/
def asked (auth : Option (Text × Text)) (method : UInt8) : Bytes :=
  if method = 0x02 then credentials auth else []

theorem said_authenticate (auth : Option (Text × Text)) (method : UInt8) (l : Line Text) :
    Said (asked auth method) l (authenticate auth method l).2 := by
  unfold authenticate asked
  by_cases hzero : method = 0x00
  · rw [if_pos hzero]
    exact .nothing rfl
  · rw [if_neg hzero]
    by_cases htwo : method = 0x02
    · rw [if_pos htwo, if_pos htwo]
      exact said_userPassAuth auth l
    · rw [if_neg htwo, if_neg htwo]
      split <;> exact .nothing rfl

theorem sent_of_authenticate {method : UInt8} {u : Unit}
    (h : authenticate auth method l = (.ok u, l')) : l'.sent = l.sent ++ asked auth method := by
  rcases authenticate_eq_ok.1 h with ⟨rfl, rfl⟩ | ⟨rfl, h⟩
  · exact (List.append_nil _).symm
  · obtain ⟨-, -, -, hl'⟩ := userPassAuth_eq_ok.1 h
    rw [hl']
    rfl

/-- All that a negotiation may say, with the bytes of the proxy it depends on. -/
def sayable (auth : Option (Text × Text)) (host : Text) (port : UInt16) (incoming : Bytes) :
    Bytes :=
  greeting auth ++ (asked auth (incoming.byteAt 1) ++ request host port)

theorem said_negotiate (l : Line Text) :
    Said (sayable auth host port l.incoming) l (negotiate auth host port l).2 := by
  unfold negotiate
  have hsaid := said_write (Lost.map .io) (greeting auth) l
  cases hwrite : mapError (Lost.map FeriteError.io) (writeAll (greeting auth)) l with
  | mk r l₁ =>
    rw [hwrite] at hsaid
    cases r with
    | error e =>
      rw [bind_of_error hwrite]
      exact hsaid.append _
    | ok u =>
      rw [bind_of_ok hwrite]
      have hgreeted := (writeAll_eq_ok.1 (mapError_eq_ok.1 hwrite)).2
      have hsent := sent_read (Lost.map FeriteError.io) 2 l₁
      cases hread : mapError (Lost.map FeriteError.io) (readExact 2) l₁ with
      | mk r l₂ =>
        rw [hread] at hsent
        have hsent₂ : l₂.sent = l.sent ++ greeting auth := by
          rw [hgreeted] at hsent
          exact hsent
        cases r with
        | error e =>
          rw [bind_of_error hread]
          exact .after hsent₂ (.nothing rfl)
        | ok method =>
          rw [bind_of_ok hread]
          -- the method is the second byte of the line
          have hmethod : l.incoming.byteAt 1 = method.byteAt 1 := by
            obtain ⟨hlen, hin, -⟩ := readExact_eq_ok.1 (mapError_eq_ok.1 hread)
            rw [hgreeted] at hin
            rw [hin, byteAt_one_of_length hlen]
            rfl
          rw [sayable, hmethod]
          refine .after hsent₂ ?_
          split
          · exact .nothing rfl
          · have hasked := said_authenticate auth (method.byteAt 1) l₂
            cases hauth : authenticate auth (method.byteAt 1) l₂ with
            | mk r l₃ =>
              rw [hauth] at hasked
              cases r with
              | error e =>
                rw [bind_of_error hauth]
                exact hasked.append _
              | ok u =>
                rw [bind_of_ok hauth]
                exact .after (sent_of_authenticate hauth) (said_write ..)

theorem quiet_drainBound (atyp : UInt8) : Quiet (drainBound atyp) := by
  have hdrain (n : ℕ) : Quiet (drain n) := (quiet_readExact n).mapError _
  unfold drainBound
  split
  · exact hdrain _
  · split
    · exact hdrain _
    · split
      · exact (hdrain 1).bind fun _ => hdrain _
      · exact quiet_fail _

/-- Behind the negotiation nothing is said. -/
theorem said_handshakeOn (s : Socks5Egress) (host : Text) (port : UInt16) (l : Line Text) :
    Said (sayable s.auth host port l.incoming) l (handshakeOn s host port l).2 := by
  unfold handshakeOn
  refine Said.bind ?_ fun _ => (((quiet_readExact 4).mapError _).mapError _).bind fun head => ?_
  · rw [inTime, mapError_snd]
    exact said_negotiate l
  · split
    · exact quiet_fail _
    · exact (quiet_drainBound _).bind fun _ => quiet_pure _

/-! ## Main results -/

/-- **The tunnel is the destination's.**  The handshake succeeds exactly when the proxy, which may
say anything, says what RFC 1928 has a proxy say that grants a connection and takes all it is
told; then the stream starts with the byte behind its answer, and what it was told is, read by
a proxy, the host and the port, with name and password only if it asked for them. -/
theorem socks5_tunnel (s : Socks5Egress) (host : Text) (port : UInt16) (line line' : Line Text) :
    (handshake s host port (.ok line) = .ok line' ↔ host.toBytes.length ≤ 255 ∧
      ∃ g : Granted, (g.auth.isSome → HasCredentials s.auth) ∧
        (said s.auth g.auth.isSome host port).length ≤ line.room ∧
        line.incoming = g.encode ++ line'.incoming ∧
        line' = ⟨line'.incoming, line.room - (said s.auth g.auth.isSome host port).length,
          line.ending, line.sent ++ said s.auth g.auth.isSome host port⟩) ∧
    ∀ g : Granted, host.toBytes.length ≤ 255 → (g.auth.isSome → HasCredentials s.auth) →
      serverReads g.auth.isSome (said s.auth g.auth.isSome host port) =
        some ⟨if s.auth.isSome then [0x02] else [0x00],
          if g.auth.isSome then s.auth.map fun a => (a.1.toBytes, a.2.toBytes) else none,
          host.toBytes, port⟩ := by
  refine ⟨?_, fun g hhost hauth => serverReads_said hauth hhost⟩
  rw [handshake_eq_ok]
  exact and_congr_right fun _ => handshakeOn_eq_ok

/-- **Who is to blame.**  A handshake fails for the destination's sake exactly when its name is
too long, or the proxy came through the negotiation and then did not answer, or answered with
one of the codes of RFC 1928 that speak of the destination; it waits for ever exactly when the
proxy falls silent inside the address it bound; every other failure is the proxy's. -/
theorem socks5_blame (s : Socks5Egress) (host : Text) (port : UInt16) (line : Line Text) :
    ((∃ err, handshake s host port (.ok line) = .error (.closed ⟨.destination, err⟩)) ↔
      255 < host.toBytes.length ∨
        ∃ rest, Negotiated s host port line rest ∧ BlamesDestination rest) ∧
    (handshake s host port (.ok line) = .error .silent ↔ host.toBytes.length ≤ 255 ∧
      line.ending = .silent ∧ ∃ rest, Negotiated s host port line rest ∧ BreaksOff rest) := by
  by_cases hlong : 255 < host.toBytes.length
  · simp only [handshake_eq_error, hlong, Nat.not_le.2 hlong, true_and, false_and, or_false,
      true_or, iff_true, reduceCtorEq, and_true]
    exact ⟨_, rfl⟩
  · have hfits : host.toBytes.length ≤ 255 := Nat.not_lt.1 hlong
    simp only [handshake_eq_error, hlong, hfits, true_and, false_and, false_or]
    cases hrun : run (handshakeOn s host port) line with
    | mk r line₁ =>
      cases r with
      | ok u =>
        have hnot (rest : Bytes) (h : Negotiated s host port line rest) :
            ¬ BlamesDestination rest ∧ ¬ BreaksOff rest := not_of_handshakeOn_ok hrun h
        constructor
        · simpa using fun rest h => (hnot rest h).1
        · simpa using fun _ rest h => (hnot rest h).2
      | error e => simpa [eq_comm] using blame_of_error hrun

/-- **The password is for a proxy that asks.**  Whatever a proxy does, and however the handshake
ends, it was told a beginning of greeting and request, with name and password in between only
if the method it chose is theirs; an egress without them never says any. -/
theorem socks5_credentials (s : Socks5Egress) (host : Text) (port : UInt16) (line : Line Text) :
    ∃ k, (run (handshakeOn s host port) line).2.sent = line.sent ++
      (greeting s.auth ++ ((if line.incoming.byteAt 1 = 0x02 then credentials s.auth else []) ++
        request host port)).take k :=
  said_handshakeOn s host port line

end Ferrite.Proxy.Socks5
