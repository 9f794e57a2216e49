import Ferrite.Core.Addr
import Ferrite.Core.Utf8

/-!
# The host a connection names

`edge/src/peek/sni.rs` and `proxy/src/http_host.rs`: the listener reads the first bytes of
a connection, a TLS ClientHello or the head of an HTTP request, for the host it is for.

* `parseSni_encode` — from a ClientHello the server name is read, lower case and without
  trailing dots, whatever comes before and after it;
* `parseHttpHost_encode` — and so is the host of a request, without its port.
-/

namespace Ferrite.Proxy

/-! ## The reader -/

/-- `Reader`: a cursor over a byte slice. -/
structure ByteReader where
  b : Bytes
  pos : ℕ

namespace ByteReader

/-- `Reader::new`. -/
def new (b : Bytes) : ByteReader := ⟨b, 0⟩

/-- `Reader::remaining`. -/
def remaining (r : ByteReader) : ℕ := r.b.length - r.pos

/-- `Reader::u8`. -/
def u8 (r : ByteReader) : Option (UInt8 × ByteReader) := do
  let v ← r.b[r.pos]?
  return (v, { r with pos := r.pos + 1 })

/-- `Reader::u16`. -/
def u16 (r : ByteReader) : Option (ℕ × ByteReader) := do
  let hi ← r.b[r.pos]?
  let lo ← r.b[r.pos + 1]?
  return (hi.toNat * 256 + lo.toNat, { r with pos := r.pos + 2 })

/-- `Reader::u24`. -/
def u24 (r : ByteReader) : Option (ℕ × ByteReader) := do
  let a ← r.b[r.pos]?
  let b ← r.b[r.pos + 1]?
  let c ← r.b[r.pos + 2]?
  return (a.toNat * 256 ^ 2 + b.toNat * 256 + c.toNat, { r with pos := r.pos + 3 })

/-- `Reader::skip`. -/
def skip (r : ByteReader) (n : ℕ) : Option ByteReader :=
  if r.b.length < r.pos + n then none else some { r with pos := r.pos + n }

/-- `Reader::slice`. -/
def slice (r : ByteReader) (n : ℕ) : Option (Bytes × ByteReader) :=
  if r.b.length < r.pos + n then none
  else some ((r.b.drop r.pos).take n, { r with pos := r.pos + n })

end ByteReader

/-! ## TLS -/

/-- `SniResult`. -/
inductive SniResult where
  | found (host : Text)
  | incomplete
  | notFound
deriving DecidableEq, Repr

def tlsHandshake : UInt8 := 0x16
def clientHello : UInt8 := 0x01
def extServerName : ℕ := 0x0000
def sniHostName : UInt8 := 0x00

/-- The loop of `parse_server_name`. -/
def serverNameFrom : ℕ → ByteReader → Option Text
  | 0, _ => none
  | fuel + 1, r =>
    if r.remaining < 3 then none
    else do
      let (nameType, r) ← r.u8
      let (nameLen, r) ← r.u16
      let (name, r) ← r.slice nameLen
      if nameType = sniHostName then
        let host ← fromUtf8 name
        if host = [] then none
        else some (host.trimEndMatches (· == '.')).toAsciiLowercase
      else serverNameFrom fuel r

/-- `parse_server_name`.  A round of its loop takes at least three bytes. -/
def parseServerName (data : Bytes) : Option Text := do
  let (_, r) ← (ByteReader.new data).u16
  serverNameFrom data.length r

/-- The loop over the extensions: `some none` when there is no server name. -/
def extensionsFrom : ℕ → ByteReader → Option (Option Text)
  | 0, _ => none
  | fuel + 1, er =>
    if er.remaining < 4 then some none
    else do
      let (extType, er) ← er.u16
      let (extLen, er) ← er.u16
      let (extData, er) ← er.slice extLen
      if extType = extServerName then some (parseServerName extData)
      else extensionsFrom fuel er

/-- `parse_client_hello`. -/
def parseClientHello (rec : Bytes) : Option (Option Text) := do
  let (kind, r) ← (ByteReader.new rec).u8
  if kind ≠ clientHello then some none
  else
    let (_, r) ← r.u24
    let r ← r.skip 2
    let r ← r.skip 32
    let (sessionIdLen, r) ← r.u8
    let r ← r.skip sessionIdLen.toNat
    let (cipherSuitesLen, r) ← r.u16
    let r ← r.skip cipherSuitesLen
    let (compressionLen, r) ← r.u8
    let r ← r.skip compressionLen.toNat
    let (extTotal, r) ← r.u16
    let (extBlock, _) ← r.slice extTotal
    extensionsFrom (extBlock.length + 1) (.new extBlock)

/-- `parse_sni`: only the first record is looked at. -/
def parseSni (buf : Bytes) : SniResult :=
  if buf.length < 5 then .incomplete
  else if buf.byteAt 0 ≠ tlsHandshake then .notFound
  else
    let recordEnd := 5 + (buf.readU16 3).toNat
    if buf.length < recordEnd then .incomplete
    else
      match parseClientHello ((buf.take recordEnd).drop 5) with
      | some (some host) => .found host
      | _ => .notFound

/-! ## HTTP -/

/-- `HostResult`. -/
inductive HostResult where
  | found (host : Text)
  | incomplete
  | notFound
deriving DecidableEq, Repr

/-- `MAX_HEAD`. -/
def maxHead : ℕ := 8 * 1024

/-- `find_subsequence`, of something that is not empty. -/
def findSubsequence (needle : Bytes) : Bytes → Option ℕ
  | [] => none
  | b :: bs =>
    if needle.isPrefixOf (b :: bs) then some 0 else (findSubsequence needle bs).map (· + 1)

/-- `str::split` at `\r\n`. -/
def splitCrlf : Text → List Text
  | [] => [[]]
  | '\r' :: '\n' :: rest => [] :: splitCrlf rest
  | c :: rest =>
    match splitCrlf rest with
    | [] => [[c]]
    | line :: lines => (c :: line) :: lines

/-- `looks_like_http`: `METHOD target HTTP/1.x`. -/
def looksLikeHttp (line : Text) : Bool :=
  let parts := line.splitOn ' '
  (parts.getLast?.any fun v => "HTTP/".toList.isPrefixOf v) && parts.length == 3

/-- `str::rsplit_once` at a character. -/
def rsplitOnce (c : Char) (s : Text) : Option (Text × Text) :=
  (Text.splitOnce c s.reverse).map fun (after, before) => (before.reverse, after.reverse)

/-- `host_without_port`. -/
def hostWithoutPort (value : Text) : Text :=
  let h := value.trim
  let bare : Text := match h.stripPrefix ['['] with
    | some rest => rest.takeWhile (· ≠ ']')
    | none =>
      match rsplitOnce ':' h with
      | some (host, port) => if port ≠ [] ∧ port.all Char.isDigit then host else h
      | none => h
  (bare.trimEndMatches (· == '.')).toAsciiLowercase

/-- What a header line says of the host, if it is that header. -/
def hostLine (line : Text) : Option Text :=
  match Text.splitOnce ':' line with
  | some (name, value) =>
    if name.trim.eqIgnoreAsciiCase "host".toList then some (hostWithoutPort value) else none
  | none => none

/-- The end of a head. -/
def crlfCrlf : Bytes := [13, 10, 13, 10]

/-- `parse_http_host`. -/
def parseHttpHost (buf : Bytes) : HostResult :=
  match findSubsequence crlfCrlf buf with
  | none => if maxHead < buf.length then .notFound else .incomplete
  | some headEnd =>
    match fromUtf8 (buf.take headEnd) with
    | none => .notFound
    | some head =>
      match splitCrlf head with
      | [] => .notFound
      | requestLine :: lines =>
        if !looksLikeHttp requestLine then .notFound
        else
          match lines.findSome? hostLine with
          | none | some [] => .notFound
          | some host => .found host

/-! ## Reading a ClientHello back -/

/-- A 16-bit number, big-endian. -/
def u16Bytes (n : ℕ) : Bytes := [UInt8.ofNat (n / 256), UInt8.ofNat n]

namespace ByteReader

/-- What is left to read. -/
structure Reads (r : ByteReader) (rest : Bytes) : Prop where
  inside : r.pos ≤ r.b.length
  rest : r.b.drop r.pos = rest

variable {r : ByteReader} {rest : Bytes}

theorem reads_new (b : Bytes) : (new b).Reads b := ⟨Nat.zero_le _, rfl⟩

theorem Reads.remaining (h : r.Reads rest) : r.remaining = rest.length := by
  rw [← h.rest, List.length_drop, ByteReader.remaining]

theorem Reads.getElem? (h : r.Reads rest) (i : ℕ) : r.b[r.pos + i]? = rest[i]? := by
  rw [← h.rest, List.getElem?_drop]

/-- The cursor after some bytes. -/
theorem Reads.advance {bs : Bytes} (h : r.Reads (bs ++ rest)) :
    Reads { r with pos := r.pos + bs.length } rest := by
  have hlength := congrArg List.length h.rest
  rw [List.length_drop, List.length_append] at hlength
  refine ⟨?_, ?_⟩
  · have hinside := h.inside
    show r.pos + bs.length ≤ r.b.length
    omega
  · show r.b.drop (r.pos + bs.length) = rest
    rw [← List.drop_drop, h.rest, List.drop_left]

theorem Reads.u8 {v : UInt8} (h : r.Reads (v :: rest)) :
    ∃ r', r.u8 = some (v, r') ∧ r'.Reads rest := by
  have hv : r.b[r.pos]? = some v := h.getElem? 0
  exact ⟨_, by simp [ByteReader.u8, hv], @Reads.advance r rest [v] h⟩

theorem Reads.u16 {n : ℕ} (h : r.Reads (u16Bytes n ++ rest)) (hn : n < 65536) :
    ∃ r', r.u16 = some (n, r') ∧ r'.Reads rest := by
  have hhi : r.b[r.pos]? = some (UInt8.ofNat (n / 256)) := h.getElem? 0
  have hlo : r.b[r.pos + 1]? = some (UInt8.ofNat n) := h.getElem? 1
  refine ⟨_, ?_, h.advance⟩
  simp only [ByteReader.u16, hhi, hlo, Option.bind_eq_bind, Option.bind_some, Option.pure_def,
    UInt8.toNat_ofNat', u16Bytes, List.length_cons, List.length_nil]
  congr 2
  omega

/-- Any two bytes are a number. -/
theorem Reads.u16_of_length {bs : Bytes} (h : r.Reads (bs ++ rest)) (hlen : bs.length = 2) :
    ∃ v r', r.u16 = some (v, r') ∧ r'.Reads rest := by
  obtain ⟨a, b, rfl⟩ := List.length_eq_two.1 hlen
  have ha : r.b[r.pos]? = some a := h.getElem? 0
  have hb : r.b[r.pos + 1]? = some b := h.getElem? 1
  exact ⟨a.toNat * 256 + b.toNat, _, by simp [ByteReader.u16, ha, hb], h.advance⟩

theorem Reads.u24 {bs : Bytes} (h : r.Reads (bs ++ rest)) (hlen : bs.length = 3) :
    ∃ v r', r.u24 = some (v, r') ∧ r'.Reads rest := by
  obtain ⟨a, b, c, rfl⟩ := List.length_eq_three.1 hlen
  have ha : r.b[r.pos]? = some a := h.getElem? 0
  have hb : r.b[r.pos + 1]? = some b := h.getElem? 1
  have hc : r.b[r.pos + 2]? = some c := h.getElem? 2
  exact ⟨a.toNat * 256 ^ 2 + b.toNat * 256 + c.toNat, _, by simp [ByteReader.u24, ha, hb, hc], h.advance⟩

/-- There is room for what is there. -/
theorem Reads.fits {bs : Bytes} (h : r.Reads (bs ++ rest)) : ¬ r.b.length < r.pos + bs.length := by
  have hlength := congrArg List.length h.rest
  rw [List.length_drop, List.length_append] at hlength
  have hinside := h.inside
  omega

theorem Reads.skip {bs : Bytes} {n : ℕ} (h : r.Reads (bs ++ rest)) (hlen : bs.length = n) :
    ∃ r', r.skip n = some r' ∧ r'.Reads rest := by
  subst hlen
  exact ⟨_, if_neg h.fits, h.advance⟩

theorem Reads.slice {bs : Bytes} {n : ℕ} (h : r.Reads (bs ++ rest)) (hlen : bs.length = n) :
    ∃ r', r.slice n = some (bs, r') ∧ r'.Reads rest := by
  subst hlen
  have hbs : (r.b.drop r.pos).take bs.length = bs := by rw [h.rest, List.take_left]
  exact ⟨_, by rw [ByteReader.slice, if_neg h.fits, hbs], h.advance⟩

end ByteReader

/-- An extension: its type and its data. -/
structure Extension where
  kind : ℕ
  data : Bytes

/-- An extension on the wire. -/
def Extension.encode (e : Extension) : Bytes := u16Bytes e.kind ++ u16Bytes e.data.length ++ e.data

/-- A ClientHello but for the host it names: what stands before and after the name. -/
structure Hello where
  recordVersion : Bytes
  handshakeLen : Bytes
  version : Bytes
  random : Bytes
  sessionId : Bytes
  cipherSuites : Bytes
  compression : Bytes
  earlier : List Extension
  listLen : Bytes
  moreNames : Bytes
  later : Bytes

namespace Hello

/-- The data of its server name extension. -/
def serverName (h : Hello) (host : Bytes) : Bytes :=
  h.listLen ++ (sniHostName :: u16Bytes host.length ++ host ++ h.moreNames)

def extensions (h : Hello) (host : Bytes) : Bytes :=
  h.earlier.flatMap Extension.encode ++
    ((⟨extServerName, h.serverName host⟩ : Extension).encode ++ h.later)

def record (h : Hello) (host : Bytes) : Bytes :=
  clientHello :: (h.handshakeLen ++ (h.version ++ (h.random ++
    (UInt8.ofNat h.sessionId.length :: (h.sessionId ++
    (u16Bytes h.cipherSuites.length ++ (h.cipherSuites ++
    (UInt8.ofNat h.compression.length :: (h.compression ++
    (u16Bytes (h.extensions host).length ++ h.extensions host))))))))))

/-- The ClientHello in one record. -/
def encode (h : Hello) (host : Bytes) : Bytes :=
  tlsHandshake :: (h.recordVersion ++ (u16Bytes (h.record host).length ++ h.record host))

/-- Everything has the length its field has room for, and no earlier extension is a server
name. -/
structure Fits (h : Hello) (host : Bytes) : Prop where
  recordVersion : h.recordVersion.length = 2
  handshakeLen : h.handshakeLen.length = 3
  version : h.version.length = 2
  random : h.random.length = 32
  sessionId : h.sessionId.length < 256
  cipherSuites : h.cipherSuites.length < 65536
  compression : h.compression.length < 256
  earlier : ∀ e ∈ h.earlier, e.kind ≠ extServerName ∧ e.kind < 65536 ∧ e.data.length < 65536
  listLen : h.listLen.length = 2
  serverName : (h.serverName host).length < 65536
  extensions : (h.extensions host).length < 65536
  record : (h.record host).length < 65536

end Hello

/-- `str::trim_end_matches` and `to_ascii_lowercase`: how both parsers leave a host. -/
def hostText (t : Text) : Text := (t.trimEndMatches (· == '.')).toAsciiLowercase

theorem parseServerName_encode {h : Hello} {t : Text} (hfits : h.Fits t.toBytes) (ht : t ≠ []) :
    parseServerName (h.serverName t.toBytes) = some (hostText t) := by
  have hlen : t.toBytes.length < 65536 := by
    have hall := hfits.serverName
    simp only [Hello.serverName, List.length_append, List.length_cons] at hall
    omega
  obtain ⟨_, r₁, h₁, hr₁⟩ := (ByteReader.reads_new (h.serverName t.toBytes)).u16_of_length hfits.listLen
  obtain ⟨r₂, h₂, hr₂⟩ := hr₁.u8
  have hr₂' : r₂.Reads (u16Bytes t.toBytes.length ++ (t.toBytes ++ h.moreNames)) := by
    simpa using hr₂
  obtain ⟨r₃, h₃, hr₃⟩ := hr₂'.u16 hlen
  obtain ⟨r₄, h₄, -⟩ := hr₃.slice rfl
  have hmore : ¬ r₁.remaining < 3 := by
    rw [hr₁.remaining]
    simp [u16Bytes]
  obtain ⟨fuel, hfuel⟩ : ∃ fuel, (h.serverName t.toBytes).length = fuel + 1 := by
    refine ⟨_, (Nat.succ_pred_eq_of_pos ?_).symm⟩
    simp [Hello.serverName]
  simp only [parseServerName, h₁, Option.bind_eq_bind, Option.bind_some, hfuel, serverNameFrom,
    if_neg hmore, h₂, h₃, h₄, if_true, Text.fromUtf8_toBytes, if_neg ht]
  rfl

theorem extensionsFrom_encode {h : Hello} {t : Text} (hfits : h.Fits t.toBytes) (ht : t ≠ []) :
    ∀ {fuel : ℕ} {er : ByteReader}, er.Reads (h.extensions t.toBytes) →
      (h.extensions t.toBytes).length < fuel → extensionsFrom fuel er = some (some (hostText t)) := by
  have hearlier := hfits.earlier
  have hserver := parseServerName_encode hfits ht
  have hfit := hfits.serverName
  unfold Hello.extensions
  generalize h.serverName t.toBytes = data at hserver hfit
  generalize h.earlier = earlier at hearlier
  induction earlier with
  | nil =>
    intro fuel er hreads hfuel
    obtain ⟨fuel, rfl⟩ : ∃ k, fuel = k + 1 := ⟨fuel - 1, by omega⟩
    have hreads' : er.Reads (u16Bytes extServerName ++ (u16Bytes data.length ++ (data ++ h.later))) := by
      simpa [Extension.encode] using hreads
    obtain ⟨r₁, h₁, hr₁⟩ := hreads'.u16 (by decide)
    obtain ⟨r₂, h₂, hr₂⟩ := hr₁.u16 hfit
    obtain ⟨r₃, h₃, -⟩ := hr₂.slice rfl
    have hmore : ¬ er.remaining < 4 := by
      rw [hreads'.remaining]
      simp [u16Bytes]
    simp only [extensionsFrom, if_neg hmore, h₁, h₂, h₃, Option.bind_eq_bind, Option.bind_some, if_true,
      hserver]
  | cons e earlier ih =>
    intro fuel er hreads hfuel
    obtain ⟨fuel, rfl⟩ : ∃ k, fuel = k + 1 := ⟨fuel - 1, by omega⟩
    obtain ⟨hkind, hkindFits, hdataFits⟩ := hearlier e List.mem_cons_self
    generalize htail : List.flatMap Extension.encode earlier ++
      ((⟨extServerName, data⟩ : Extension).encode ++ h.later) = tail at ih
    have hreads' : er.Reads (u16Bytes e.kind ++ (u16Bytes e.data.length ++ (e.data ++ tail))) := by
      rw [← htail]
      simpa [Extension.encode] using hreads
    obtain ⟨r₁, h₁, hr₁⟩ := hreads'.u16 hkindFits
    obtain ⟨r₂, h₂, hr₂⟩ := hr₁.u16 hdataFits
    obtain ⟨r₃, h₃, hr₃⟩ := hr₂.slice rfl
    have hmore : ¬ er.remaining < 4 := by
      rw [hreads'.remaining]
      simp [u16Bytes]
    have hshort : tail.length < fuel := by
      rw [← htail]
      simp only [List.flatMap_cons, Extension.encode, u16Bytes, List.length_append, List.length_cons,
        List.length_nil] at hfuel ⊢
      omega
    simp only [extensionsFrom, if_neg hmore, h₁, h₂, h₃, Option.bind_eq_bind, Option.bind_some, hkind,
      if_false]
    exact ih (fun e' he' => hearlier e' (List.mem_cons_of_mem _ he')) hr₃ hshort

theorem parseClientHello_encode {h : Hello} {t : Text} (hfits : h.Fits t.toBytes) (ht : t ≠ []) :
    parseClientHello (h.record t.toBytes) = some (some (hostText t)) := by
  have hsession : (UInt8.ofNat h.sessionId.length).toNat = h.sessionId.length := by
    rw [UInt8.toNat_ofNat']
    exact Nat.mod_eq_of_lt hfits.sessionId
  have hcompression : (UInt8.ofNat h.compression.length).toNat = h.compression.length := by
    rw [UInt8.toNat_ofNat']
    exact Nat.mod_eq_of_lt hfits.compression
  obtain ⟨r₁, h₁, hr₁⟩ := (ByteReader.reads_new (h.record t.toBytes)).u8
  obtain ⟨_, r₂, h₂, hr₂⟩ := hr₁.u24 hfits.handshakeLen
  obtain ⟨r₃, h₃, hr₃⟩ := hr₂.skip hfits.version
  obtain ⟨r₄, h₄, hr₄⟩ := hr₃.skip hfits.random
  obtain ⟨r₅, h₅, hr₅⟩ := hr₄.u8
  obtain ⟨r₆, h₆, hr₆⟩ := hr₅.skip rfl
  obtain ⟨r₇, h₇, hr₇⟩ := hr₆.u16 hfits.cipherSuites
  obtain ⟨r₈, h₈, hr₈⟩ := hr₇.skip rfl
  obtain ⟨r₉, h₉, hr₉⟩ := hr₈.u8
  obtain ⟨r₁₀, h₁₀, hr₁₀⟩ := hr₉.skip rfl
  obtain ⟨r₁₁, h₁₁, hr₁₁⟩ := hr₁₀.u16 hfits.extensions
  have hall : r₁₁.Reads (h.extensions t.toBytes ++ []) := by simpa using hr₁₁
  obtain ⟨r₁₂, h₁₂, -⟩ := hall.slice rfl
  have hext : extensionsFrom ((h.extensions t.toBytes).length + 1) (.new (h.extensions t.toBytes)) =
      some (some (hostText t)) :=
    extensionsFrom_encode hfits ht (ByteReader.reads_new _) (Nat.lt_succ_self _)
  simp only [parseClientHello, h₁, h₂, h₃, h₄, h₅, hsession, h₆, h₇, h₈, h₉, hcompression, h₁₀, h₁₁, h₁₂,
    Option.bind_eq_bind, Option.bind_some, ne_eq, not_true, if_false, hext]

/-- **The server name of a ClientHello is read**, whatever follows the record. -/
theorem parseSni_encode {h : Hello} {t : Text} (hfits : h.Fits t.toBytes) (ht : t ≠ []) (tail : Bytes) :
    parseSni (h.encode t.toBytes ++ tail) = .found (hostText t) := by
  obtain ⟨a, b, hversion⟩ := List.length_eq_two.1 hfits.recordVersion
  have hn : (h.record t.toBytes).length < 65536 := hfits.record
  have hbuf : h.encode t.toBytes ++ tail =
      [tlsHandshake, a, b, UInt8.ofNat ((h.record t.toBytes).length / 256),
        UInt8.ofNat (h.record t.toBytes).length] ++ (h.record t.toBytes ++ tail) := by
    simp [Hello.encode, hversion, u16Bytes]
  have hlen : ((h.encode t.toBytes ++ tail).readU16 3).toNat = (h.record t.toBytes).length := by
    rw [hbuf]
    simp only [Bytes.readU16, Bytes.byteAt, List.cons_append, List.getElem?_cons_succ,
      List.getElem?_cons_zero, Option.getD_some, UInt8.toNat_ofNat', UInt16.toNat_ofNat']
    omega
  have hrecord : ((h.encode t.toBytes ++ tail).take (5 + (h.record t.toBytes).length)).drop 5 =
      h.record t.toBytes := by
    rw [List.drop_take, Nat.add_sub_cancel_left, hbuf]
    exact List.take_left
  have htotal : (h.encode t.toBytes ++ tail).length = 5 + (h.record t.toBytes).length + tail.length := by
    rw [hbuf]
    simp only [List.length_append, List.length_cons, List.length_nil]
    omega
  have hkind : (h.encode t.toBytes ++ tail).byteAt 0 = tlsHandshake := by
    rw [hbuf]
    rfl
  unfold parseSni
  rw [if_neg (by omega), if_neg (by simp [hkind]), hlen]
  dsimp only
  rw [if_neg (by omega), hrecord, parseClientHello_encode hfits ht]

/-! ## Reading a request back -/

/-- A line of a head: it is not empty, and no line end is in it. -/
structure IsLine (l : Text) : Prop where
  ne_nil : l ≠ []
  no_cr : '\r' ∉ l
  no_lf : '\n' ∉ l

/-- The lines of a head, put together. -/
def joinCrlf : List Text → Text
  | [] => []
  | [l] => l
  | l :: l' :: ls => l ++ '\r' :: '\n' :: joinCrlf (l' :: ls)

theorem splitCrlf_cons {c : Char} (hc : c ≠ '\r') (rest : Text) :
    splitCrlf (c :: rest) = match splitCrlf rest with
      | [] => [[c]]
      | line :: lines => (c :: line) :: lines := by
  rw [splitCrlf]
  rintro _ rfl -
  exact absurd rfl hc

theorem splitCrlf_of_line {l : Text} (h : '\r' ∉ l) : splitCrlf l = [l] := by
  induction l with
  | nil => rfl
  | cons c l ih =>
    rw [splitCrlf_cons (fun hc => h (hc ▸ List.mem_cons_self)),
      ih fun hmem => h (List.mem_cons_of_mem _ hmem)]

theorem splitCrlf_append {l : Text} (h : '\r' ∉ l) (rest : Text) :
    splitCrlf (l ++ '\r' :: '\n' :: rest) = l :: splitCrlf rest := by
  induction l with
  | nil => rfl
  | cons c l ih =>
    rw [List.cons_append, splitCrlf_cons (fun hc => h (hc ▸ List.mem_cons_self)),
      ih fun hmem => h (List.mem_cons_of_mem _ hmem)]

theorem splitCrlf_joinCrlf {ls : List Text} (hne : ls ≠ []) (h : ∀ l ∈ ls, IsLine l) :
    splitCrlf (joinCrlf ls) = ls := by
  induction ls with
  | nil => exact absurd rfl hne
  | cons l ls ih =>
    have hl := (h l List.mem_cons_self).no_cr
    cases ls with
    | nil => exact splitCrlf_of_line hl
    | cons l' ls =>
      rw [joinCrlf, splitCrlf_append hl, ih (by simp) fun x hx => h x (List.mem_cons_of_mem _ hx)]

/-- A search goes past bytes without the first byte of what is looked for. -/
theorem findSubsequence_append {needle xs : Bytes} {a : UInt8} (hhead : needle.head? = some a)
    (h : a ∉ xs) (ys : Bytes) : findSubsequence needle (xs ++ ys) =
      (findSubsequence needle ys).map (· + xs.length) := by
  obtain ⟨rest, rfl⟩ := List.head?_eq_some_iff.1 hhead
  induction xs with
  | nil => simp
  | cons x xs ih =>
    have hx : a ≠ x := fun hx => h (hx ▸ List.mem_cons_self)
    have hno : (a :: rest).isPrefixOf (x :: (xs ++ ys)) = false := by
      simp [List.isPrefixOf, hx]
    rw [List.cons_append, findSubsequence, hno, ih fun hmem => h (List.mem_cons_of_mem _ hmem)]
    cases findSubsequence (a :: rest) ys with
    | none => rfl
    | some n => simp [Nat.add_assoc]

theorem cr_notMem_toBytes {l : Text} (h : '\r' ∉ l) : (13 : UInt8) ∉ l.toBytes := by
  intro hmem
  obtain ⟨c, hc, hval⟩ := Text.mem_toBytes (by decide) hmem
  have hcr : c = '\r' := Char.toNat_inj.1 hval
  exact h (hcr ▸ hc)

/-- A line end with more than another one behind it is passed over. -/
theorem findSubsequence_crlf {xs : Bytes} (h : xs.head? ≠ some 13) :
    findSubsequence crlfCrlf (13 :: 10 :: xs) = (findSubsequence crlfCrlf xs).map (· + 2) := by
  have hno : crlfCrlf.isPrefixOf (13 :: 10 :: xs) = false := by
    cases xs with
    | nil => rfl
    | cons x xs =>
      have hx : (13 : UInt8) ≠ x := fun hx => h (hx ▸ rfl)
      simp [crlfCrlf, List.isPrefixOf, hx]
  have hlf : crlfCrlf.isPrefixOf (10 :: xs) = false := rfl
  rw [findSubsequence, hno, findSubsequence, hlf]
  cases findSubsequence crlfCrlf xs <;> rfl

theorem head?_joinCrlf {l : Text} (h : IsLine l) (ls : List Text) (rest : Bytes) :
    ((joinCrlf (l :: ls)).toBytes ++ rest).head? ≠ some 13 := by
  obtain ⟨more, hmore⟩ : ∃ more, joinCrlf (l :: ls) = l ++ more := by
    cases ls with
    | nil => exact ⟨[], (List.append_nil l).symm⟩
    | cons l' ls => exact ⟨_, rfl⟩
  rw [hmore, Text.toBytes_append, List.append_assoc]
  intro hhead
  rw [List.head?_append_of_ne_nil _ (Text.toBytes_ne_nil h.ne_nil)] at hhead
  exact cr_notMem_toBytes h.no_cr (List.mem_of_head? hhead)

/-- The blank line is found where the head ends. -/
theorem findSubsequence_joinCrlf {ls : List Text} (hne : ls ≠ []) (h : ∀ l ∈ ls, IsLine l)
    (body : Bytes) :
    findSubsequence crlfCrlf ((joinCrlf ls).toBytes ++ (crlfCrlf ++ body)) =
      some (joinCrlf ls).toBytes.length := by
  induction ls with
  | nil => exact absurd rfl hne
  | cons l ls ih =>
    have hl := cr_notMem_toBytes (h l List.mem_cons_self).no_cr
    cases ls with
    | nil =>
      rw [joinCrlf, findSubsequence_append rfl hl]
      simp [findSubsequence, crlfCrlf, List.isPrefixOf]
    | cons l' ls =>
      have hls : ∀ x ∈ l' :: ls, IsLine x := fun x hx => h x (List.mem_cons_of_mem _ hx)
      have hbytes : (joinCrlf (l :: l' :: ls)).toBytes =
          l.toBytes ++ 13 :: 10 :: (joinCrlf (l' :: ls)).toBytes := by
        rw [joinCrlf, Text.toBytes_append]
        rfl
      rw [hbytes, List.append_assoc, findSubsequence_append rfl hl, List.cons_append, List.cons_append,
        findSubsequence_crlf (head?_joinCrlf (hls l' List.mem_cons_self) ls _), ih (by simp) hls]
      simp only [Option.map_some, List.length_append, List.length_cons]
      congr 1
      omega

/-- A request but for the value of its `Host` header: the lines before and after it, the
name the header is given, and the body. -/
structure Request where
  requestLine : Text
  earlier : List Text
  field : Text
  later : List Text
  body : Bytes

namespace Request

/-- The lines of the head. -/
def lines (r : Request) (value : Text) : List Text :=
  r.requestLine :: (r.earlier ++ (r.field ++ ':' :: value) :: r.later)

/-- The request on the wire. -/
def encode (r : Request) (value : Text) : Bytes :=
  (joinCrlf (r.lines value)).toBytes ++ (crlfCrlf ++ r.body)

/-- It is a request of HTTP/1, and the header is its first `Host`. -/
structure Valid (r : Request) (value : Text) : Prop where
  http : looksLikeHttp r.requestLine = true
  lines : ∀ l ∈ r.lines value, IsLine l
  earlier : ∀ l ∈ r.earlier, ∀ name value, Text.splitOnce ':' l = some (name, value) →
    name.trim.eqIgnoreAsciiCase "host".toList = false
  colon : ':' ∉ r.field
  field : r.field.trim.eqIgnoreAsciiCase "host".toList = true

end Request

/-- **The host of a request is read**, whatever its head and body. -/
theorem parseHttpHost_encode {r : Request} {value : Text} (hvalid : r.Valid value)
    (hvalue : hostWithoutPort value ≠ []) :
    parseHttpHost (r.encode value) = .found (hostWithoutPort value) := by
  have hne : r.lines value ≠ [] := by simp [Request.lines]
  have hfind := findSubsequence_joinCrlf hne hvalid.lines r.body
  have hearlier : r.earlier.findSome? hostLine = none := by
    rw [List.findSome?_eq_none_iff]
    intro l hl
    unfold hostLine
    cases hsplit : Text.splitOnce ':' l with
    | none => rfl
    | some p => exact if_neg (Bool.eq_false_iff.1 (hvalid.earlier l hl p.1 p.2 hsplit))
  have hline : hostLine (r.field ++ ':' :: value) = some (hostWithoutPort value) := by
    rw [hostLine, Text.splitOnce_append hvalid.colon]
    exact if_pos hvalid.field
  have hhost : (r.earlier ++ (r.field ++ ':' :: value) :: r.later).findSome? hostLine =
      some (hostWithoutPort value) := by
    rw [List.findSome?_append, hearlier, List.findSome?_cons, hline]
    rfl
  unfold parseHttpHost Request.encode
  rw [hfind]
  dsimp only
  rw [List.take_left, Text.fromUtf8_toBytes]
  dsimp only
  rw [splitCrlf_joinCrlf hne hvalid.lines]
  simp only [Request.lines, hvalid.http, Bool.not_true, Bool.false_eq_true, if_false, hhost]

/-- A port, as a `Host` header has it behind the name. -/
def IsPort (port : Text) : Prop :=
  port = [] ∨ ∃ digits : Text, port = ':' :: digits ∧ digits ≠ [] ∧ digits.all Char.isDigit = true

theorem isDigit_iff {c : Char} : c.isDigit = true ↔ 48 ≤ c.toNat ∧ c.toNat ≤ 57 := by
  unfold Char.isDigit
  rw [Bool.and_eq_true, decide_eq_true_eq, decide_eq_true_eq]
  exact Iff.rfl

/-- The value of a `Host` header is the name as it is, without blanks around it and a port
behind it. -/
theorem hostWithoutPort_eq {t before port after : Text} (hbefore : ∀ c ∈ before, isWhitespace c = true)
    (hafter : ∀ c ∈ after, isWhitespace c = true) (hne : t ≠ [])
    (ht : ∀ c ∈ t, isWhitespace c = false ∧ c ≠ ':' ∧ c ≠ '[') (hport : IsPort port) :
    hostWithoutPort (before ++ ((t ++ port) ++ after)) = hostText t := by
  have hplain : ∀ c ∈ t ++ port, isWhitespace c = false := by
    intro c hc
    rcases List.mem_append.1 hc with hc | hc
    · exact (ht c hc).1
    · rcases hport with rfl | ⟨digits, rfl, -, hdigits⟩
      · cases hc
      · rcases List.mem_cons.1 hc with rfl | hc
        · decide
        · have hdigit := isDigit_iff.1 (List.all_eq_true.1 hdigits c hc)
          simp only [isWhitespace, Bool.or_eq_false_iff, Bool.and_eq_false_iff, decide_eq_false_iff_not,
            beq_eq_false_iff_ne]
          omega
  have htrim := Text.trim_append hbefore hafter hplain (by simp [hne])
  have hcolon : ':' ∉ t := fun hc => (ht ':' hc).2.1 rfl
  have hbracket : (t ++ port).stripPrefix ['['] = none := by
    cases t with
    | nil => exact absurd rfl hne
    | cons c t =>
      have hc : ('[' == c) = false := by simpa using (ht c List.mem_cons_self).2.2.symm
      simp [Text.stripPrefix, List.isPrefixOf, hc]
  unfold hostWithoutPort hostText
  rw [htrim]
  dsimp only
  rw [hbracket]
  rcases hport with rfl | ⟨digits, rfl, hdigits, hall⟩
  · have hnone : rsplitOnce ':' t = none := by simp [rsplitOnce, Text.splitOnce, hcolon]
    simp only [List.append_nil, hnone]
  · have hdcolon : ':' ∉ digits.reverse := by
      intro hc
      have hdigit := List.all_eq_true.1 hall ':' (List.mem_reverse.1 hc)
      exact absurd hdigit (by decide)
    have hsome : rsplitOnce ':' (t ++ ':' :: digits) = some (t, digits) := by
      rw [rsplitOnce, List.reverse_append, List.reverse_cons, List.append_assoc, List.singleton_append,
        Text.splitOnce_append hdcolon]
      simp
    simp only [hsome, hdigits, hall, ne_eq, not_false_eq_true, and_self, if_true]

end Ferrite.Proxy
