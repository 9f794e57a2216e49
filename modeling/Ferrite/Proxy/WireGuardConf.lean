import Ferrite.Lib.Statements
import Ferrite.Proxy.ProxyHeader

/-!
# WireGuard configs

`proxy/src/egress/wireguard/conf.rs`: a `.conf` text is read line by line, and every key keeps
the value of the last line that has it.  `cut` is the same text in sections.

* `parse_eq_ok` — what a config says, by its sections;
* `Noise.parse_eq` — comments, blank lines, spacing, the case of keys and what is not known do
  not change it;
* `one_peer_iff` — its peer is one section of the text exactly if a section restates what the
  ones before it state, the ones after it restate nothing otherwise, and only it lists networks.
-/

namespace Ferrite.Proxy.WireGuard

open Statements

/-! ## The parser -/

/-- A key: 32 bytes. -/
abbrev Key := {bytes : Bytes // bytes.length = 32}

/-- `WgConf`. -/
structure WgConf where
  privateKey : Key
  addresses : List (IpAddr × ℕ)
  dns : List IpAddr
  mtu : Option UInt32
  peerPublicKey : Key
  presharedKey : Option Key
  endpoint : Text
  allowedIps : List (IpAddr × ℕ)
  persistentKeepalive : Option UInt16
deriving DecidableEq

/-- `Section`. -/
inductive Section where
  | none
  | interface
  | peer
deriving DecidableEq

/-- `cfg`: the text of an error. -/
def cfg (msg : Text) : Text := "wireguard config: ".toList ++ msg

/-- `strip_comment`. -/
def stripComment (line : Text) : Text := line.takeWhile fun c => c ≠ '#' ∧ c ≠ ';'

/-- `split_list`. -/
def splitList (value : Text) : List Text := ((value.splitOn ',').map Text.trim).filter (· ≠ [])

/-- `decode_key`, with the decoder of the `base64` crate. -/
def decodeKey (base64 : Text → Option Bytes) (what : String) (value : Text) : Except Text Key :=
  match base64 value.trim with
  | none => .error (cfg (what.toList ++ " is not valid base64".toList))
  | some bytes =>
    if h : bytes.length = 32 then .ok ⟨bytes, h⟩
    else .error (cfg (what.toList ++ " must decode to 32 bytes".toList))

/-- `parse_cidr`. -/
def parseCidr (item : Text) : Except Text (IpAddr × ℕ) :=
  let invalid := cfg ("invalid address '".toList ++ item ++ ['\''])
  match item.splitOnce '/' with
  | some (ip, pfx) =>
    match Reader.parse Reader.ip ip.trim with
    | none => .error invalid
    | some ip =>
      match parseU8 pfx.trim with
      | none => .error (cfg ("invalid prefix in '".toList ++ item ++ ['\'']))
      | some pfx =>
        if ip.width < pfx then
          .error (cfg ("prefix /".toList ++ decimal pfx ++ " out of range in '".toList ++ item ++
            ['\'']))
        else .ok (ip, pfx)
  | none =>
    match Reader.parse Reader.ip item.trim with
    | none => .error invalid
    | some ip => .ok (ip, ip.width)

/-- An address of a DNS server. -/
def parseDns (item : Text) : Except Text IpAddr :=
  match Reader.parse Reader.ip item with
  | none => .error (cfg ("invalid DNS address '".toList ++ item ++ ['\'']))
  | some ip => .ok ip

/-- `str::parse::<u32>`: digits, after a plus sign if there is one. -/
def parseU32 (s : Text) : Option UInt32 :=
  let digits := if s.head? = some '+' then s.tail else s
  (Reader.parse (Reader.number 10 decDigit none true (2 ^ 32)) digits).map UInt32.ofNat

/-- The MTU of the tunnel. -/
def parseMtu (value : Text) : Except Text UInt32 :=
  match parseU32 value with
  | none => .error (cfg ("invalid MTU '".toList ++ value ++ ['\'']))
  | some mtu => .ok mtu

/-- The keepalive interval of the peer. -/
def parseKeepalive (value : Text) : Except Text UInt16 :=
  match parseU16 value with
  | none => .error (cfg ("invalid PersistentKeepalive '".toList ++ value ++ ['\'']))
  | some seconds => .ok seconds

/-- The keys that are known in some section. -/
inductive Setting where
  | privateKey
  | address
  | dns
  | mtu
  | listenPort
  | publicKey
  | presharedKey
  | endpoint
  | allowedIps
  | persistentKeepalive
deriving DecidableEq

/-- The arms of the `match` in `parse`: what a key is in a section. -/
def Setting.find : Section → Text → Option Setting
  | .none, _ => none
  | .interface, key =>
    if key = "privatekey".toList then some .privateKey
    else if key = "address".toList then some .address
    else if key = "dns".toList then some .dns
    else if key = "mtu".toList then some .mtu
    else if key = "listenport".toList then some .listenPort
    else none
  | .peer, key =>
    if key = "publickey".toList then some .publicKey
    else if key = "presharedkey".toList then some .presharedKey
    else if key = "endpoint".toList then some .endpoint
    else if key = "allowedips".toList then some .allowedIps
    else if key = "persistentkeepalive".toList then some .persistentKeepalive
    else none

/-- What `parse` has read so far. -/
structure Values where
  privateKey : Option Key
  addresses : List (IpAddr × ℕ)
  dns : List IpAddr
  mtu : Option UInt32
  peerPublicKey : Option Key
  presharedKey : Option Key
  endpoint : Option Text
  allowedIps : List (IpAddr × ℕ)
  persistentKeepalive : Option UInt16

/-- Before the first line. -/
def Values.empty : Values := ⟨none, [], [], none, none, none, none, [], none⟩

/-- What a section is called. -/
def Section.named (name : Text) : Section :=
  let name := name.trim.toAsciiLowercase
  if name = "interface".toList then .interface
  else if name = "peer".toList then .peer
  else .none

/-- `strip_prefix('[')` and `strip_suffix(']')`. -/
def sectionName (line : Text) : Option Text :=
  (line.stripPrefix ['[']).bind fun s => if s.getLast? = some ']' then some s.dropLast else none

/-- How a line reads. -/
inductive Line where
  | blank
  | header (sec : Section)
  | entry (key value : Text)
  | malformed (line : Text)

/-- The line of a round of `parse`. -/
def readLine (raw : Text) : Line :=
  let line := (stripComment raw).trim
  if line = [] then .blank
  else
    match sectionName line with
    | some name => .header (.named name)
    | none =>
      match line.splitOnce '=' with
      | some (key, value) => .entry key.trim.toAsciiLowercase value.trim
      | none => .malformed line

section

variable (base64 : Text → Option Bytes)

/-- The value of a key that is known. -/
def Values.set (v : Values) (s : Setting) (value : Text) : Except Text Values :=
  match s with
  | .privateKey =>
    (decodeKey base64 "PrivateKey" value).map fun k => { v with privateKey := some k }
  | .address =>
    ((splitList value).mapM parseCidr).map fun ips => { v with addresses := v.addresses ++ ips }
  | .dns => ((splitList value).mapM parseDns).map fun ips => { v with dns := v.dns ++ ips }
  | .mtu => (parseMtu value).map fun mtu => { v with mtu := some mtu }
  | .listenPort => .ok v
  | .publicKey =>
    (decodeKey base64 "PublicKey" value).map fun k => { v with peerPublicKey := some k }
  | .presharedKey =>
    (decodeKey base64 "PresharedKey" value).map fun k => { v with presharedKey := some k }
  | .endpoint => .ok { v with endpoint := some value }
  | .allowedIps =>
    ((splitList value).mapM parseCidr).map fun ips => { v with allowedIps := v.allowedIps ++ ips }
  | .persistentKeepalive =>
    (parseKeepalive value).map fun seconds => { v with persistentKeepalive := some seconds }

/-- A round of the loop of `parse`. -/
def parseLine (s : Section × Values) (raw : Text) : Except Text (Section × Values) :=
  match readLine raw with
  | .blank => .ok s
  | .header sec => .ok (sec, s.2)
  | .entry key value =>
    match Setting.find s.1 key with
    | some setting => (s.2.set base64 setting value).map fun v => (s.1, v)
    | none => .ok s
  | .malformed line =>
    .error (cfg ("malformed line (expected key = value): '".toList ++ line ++ ['\'']))

/-- `ok_or_else` of something that has to be there. -/
def required {A : Type} (a : Option A) (msg : String) : Except Text A :=
  a.elim (.error (cfg msg.toList)) .ok

/-- `require_nonempty`. -/
def requireNonempty {A : Type} (v : List A) (msg : String) : Except Text (List A) :=
  if v.isEmpty then .error (cfg msg.toList) else .ok v

/-- The config there is at the end. -/
def Values.finish (v : Values) : Except Text WgConf := do
  let privateKey ← required v.privateKey "[Interface] PrivateKey is required"
  let addresses ← requireNonempty v.addresses "[Interface] Address is required"
  let peerPublicKey ← required v.peerPublicKey "[Peer] PublicKey is required"
  let endpoint ← required v.endpoint "[Peer] Endpoint is required"
  return ⟨privateKey, addresses, v.dns, v.mtu, peerPublicKey, v.presharedKey, endpoint,
    v.allowedIps, v.persistentKeepalive⟩

/-- `parse`. -/
def parse (text : Text) : Except Text WgConf := do
  let (_, v) ← text.lines.foldlM (parseLine base64) (.none, .empty)
  v.finish

/-! ## The text in sections -/

/-- A section: what it is, and the known keys in it with their values. -/
structure Block where
  sec : Section
  entries : List (Setting × Text)

/-- What a line has of a section. -/
def entryIn (sec : Section) (raw : Text) : List (Setting × Text) :=
  match readLine raw with
  | .entry key value => ((Setting.find sec key).map (·, value)).toList
  | _ => []

/-- Lines in sections: the rest of the one at hand, and the ones after it. -/
def cut (sec : Section) : List Text → List (Setting × Text) × List Block
  | [] => ([], [])
  | raw :: rest =>
    match readLine raw with
    | .header sec' => ([], ⟨sec', (cut sec' rest).1⟩ :: (cut sec' rest).2)
    | _ => (entryIn sec raw ++ (cut sec rest).1, (cut sec rest).2)

/-- The sections of a text. -/
def blocks (text : Text) : List Block := (cut .none text.lines).2

/-- The value an entry states for a key. -/
def stated {A : Type} (what : Setting) (read : Text → Except Text A) (e : Setting × Text) :
    Option A :=
  if e.1 = what then (read e.2).toOption else none

/-- The items an entry lists for a key. -/
def listed {A : Type} (what : Setting) (read : Text → Except Text A) (e : Setting × Text) :
    List A :=
  (stated what (fun value => (splitList value).mapM read) e).getD []

/-- What a [Peer] section states. -/
structure Peer where
  publicKey : Option Key
  presharedKey : Option Key
  endpoint : Option Text
  keepalive : Option UInt16
  allowedIps : List (IpAddr × ℕ)
deriving DecidableEq

/-- The peer of a section: the last value of each key in it, and all the networks. -/
def Block.peer (b : Block) : Peer where
  publicKey := last (b.entries.map (stated .publicKey (decodeKey base64 "PublicKey")))
  presharedKey := last (b.entries.map (stated .presharedKey (decodeKey base64 "PresharedKey")))
  endpoint := last (b.entries.map (stated .endpoint .ok))
  keepalive := last (b.entries.map (stated .persistentKeepalive parseKeepalive))
  allowedIps := b.entries.flatMap (listed .allowedIps parseCidr)

/-- The peers of a text. -/
def peers (text : Text) : List Peer :=
  ((blocks text).filter (·.sec = .peer)).map (Block.peer base64)

/-- What the [Interface] sections state. -/
structure Interface where
  privateKey : Option Key
  addresses : List (IpAddr × ℕ)
  dns : List IpAddr
  mtu : Option UInt32

/-- The interface of a text. -/
def interface (text : Text) : Interface :=
  let entries := ((blocks text).filter (·.sec = .interface)).flatMap Block.entries
  ⟨last (entries.map (stated .privateKey (decodeKey base64 "PrivateKey"))),
    entries.flatMap (listed .address parseCidr), entries.flatMap (listed .dns parseDns),
    last (entries.map (stated .mtu parseMtu))⟩

/-! ## What a line changes -/

/-- What an entry does to every field. -/
structure Recorded (v : Values) (e : Setting × Text) (v' : Values) : Prop where
  privateKey : v'.privateKey =
    (stated .privateKey (decodeKey base64 "PrivateKey") e).or v.privateKey
  addresses : v'.addresses = v.addresses ++ listed .address parseCidr e
  dns : v'.dns = v.dns ++ listed .dns parseDns e
  mtu : v'.mtu = (stated .mtu parseMtu e).or v.mtu
  peerPublicKey : v'.peerPublicKey =
    (stated .publicKey (decodeKey base64 "PublicKey") e).or v.peerPublicKey
  presharedKey : v'.presharedKey =
    (stated .presharedKey (decodeKey base64 "PresharedKey") e).or v.presharedKey
  endpoint : v'.endpoint = (stated .endpoint .ok e).or v.endpoint
  allowedIps : v'.allowedIps = v.allowedIps ++ listed .allowedIps parseCidr e
  persistentKeepalive : v'.persistentKeepalive =
    (stated .persistentKeepalive parseKeepalive e).or v.persistentKeepalive

/-- An entry sets or lengthens the field of its key, and leaves the others. -/
theorem recorded {v v' : Values} {e : Setting × Text} (h : v.set base64 e.1 e.2 = .ok v') :
    Recorded base64 v e v' := by
  obtain ⟨s, value⟩ := e
  cases s with
  | listenPort =>
    cases h
    constructor <;> simp [stated, listed]
  | endpoint =>
    cases h
    constructor <;> simp [stated, listed, Except.toOption]
  | _ =>
    obtain ⟨a, ha, rfl⟩ := map_eq_ok_iff.1 h
    constructor <;> simp [stated, listed, Except.toOption, ha]

/-- The loop takes the entries one after another. -/
theorem foldlM_parseLine {lines : List Text} {sec sec' : Section} {v v' : Values}
    (h : lines.foldlM (parseLine base64) (sec, v) = .ok (sec', v')) :
    ((cut sec lines).1 ++ (cut sec lines).2.flatMap Block.entries).foldlM
      (fun v e => v.set base64 e.1 e.2) v = .ok v' := by
  induction lines generalizing sec v with
  | nil =>
    cases h
    rfl
  | cons raw rest ih =>
    obtain ⟨⟨sec₁, v₁⟩, hstep, hrest⟩ := bind_eq_ok_iff.1 h
    have hrest := ih hrest
    unfold parseLine at hstep
    rw [cut]
    cases hread : readLine raw with
    | blank =>
      rw [hread] at hstep
      cases hstep
      simpa only [entryIn, hread, List.nil_append] using hrest
    | header s =>
      rw [hread] at hstep
      cases hstep
      simpa only [List.nil_append, List.flatMap_cons] using hrest
    | entry key value =>
      rw [hread] at hstep
      simp only [entryIn, hread]
      cases hfind : Setting.find sec key with
      | none =>
        simp only [hfind] at hstep
        cases hstep
        simpa only [Option.map_none, Option.toList_none, List.nil_append] using hrest
      | some s =>
        simp only [hfind] at hstep
        obtain ⟨v₂, hset, hpair⟩ := map_eq_ok_iff.1 hstep
        cases hpair
        simp only [Option.map_some, Option.toList_some, List.cons_append, List.nil_append,
          List.foldlM_cons]
        exact bind_eq_ok_iff.2 ⟨v₁, hset, hrest⟩
    | malformed line =>
      rw [hread] at hstep
      cases hstep

/-- The section a key belongs to. -/
def Setting.home : Setting → Section
  | privateKey | address | dns | mtu | listenPort => .interface
  | publicKey | presharedKey | endpoint | allowedIps | persistentKeepalive => .peer

theorem Setting.find_eq_some {sec : Section} {key : Text} {s : Setting}
    (h : Setting.find sec key = some s) : s.home = sec := by
  cases sec with
  | none => cases h
  | interface =>
    unfold Setting.find at h
    dsimp only at h
    split_ifs at h <;> cases h <;> rfl
  | peer =>
    unfold Setting.find at h
    dsimp only at h
    split_ifs at h <;> cases h <;> rfl

/-- An entry is of the section it is in. -/
theorem home_of_mem_cut {lines : List Text} {sec : Section} :
    (∀ e ∈ (cut sec lines).1, e.1.home = sec) ∧
      ∀ b ∈ (cut sec lines).2, ∀ e ∈ b.entries, e.1.home = b.sec := by
  induction lines generalizing sec with
  | nil => exact ⟨nofun, nofun⟩
  | cons raw rest ih =>
    have hentry : ∀ e ∈ entryIn sec raw, e.1.home = sec := by
      intro e he
      unfold entryIn at he
      split at he
      · obtain ⟨s, hs, rfl⟩ := Option.map_eq_some_iff.1 (Option.mem_toList.1 he)
        exact Setting.find_eq_some hs
      · cases he
    rw [cut]
    split
    · next s hread =>
      refine ⟨nofun, fun b hb => ?_⟩
      rcases List.mem_cons.1 hb with rfl | hb
      · exact ih.1
      · exact ih.2 b hb
    · refine ⟨fun e he => ?_, ih.2⟩
      rcases List.mem_append.1 he with he | he
      · exact hentry e he
      · exact ih.1 e he

/-- In front of the first section there is nothing. -/
theorem cut_none (lines : List Text) : (cut .none lines).1 = [] := by
  rw [List.eq_nil_iff_forall_not_mem]
  intro e he
  have hhome := home_of_mem_cut.1 e he
  revert hhome
  cases e.1 <;> exact nofun

theorem stated_of_home {A : Type} {what : Setting} {e : Setting × Text}
    (h : e.1.home ≠ what.home) (read : Text → Except Text A) : stated what read e = none := by
  refine if_neg fun heq => h ?_
  rw [heq]

/-- Sections of the other kind state nothing for a key. -/
theorem last_blocks {A : Type} (what : Setting) (read : Text → Except Text A) (text : Text) :
    last (((blocks text).flatMap Block.entries).map (stated what read)) =
      last (((blocks text).filter (·.sec = what.home)).map fun b =>
        last (b.entries.map (stated what read))) := by
  rw [List.map_flatMap, last_flatMap]
  refine last_map_filter fun b hb hsec => last_eq_none_iff.2 fun u hu => ?_
  obtain ⟨e, he, rfl⟩ := List.mem_map.1 hu
  refine stated_of_home ?_ read
  rw [home_of_mem_cut.2 b hb e he]
  simpa using hsec

theorem flatMap_blocks {A : Type} (what : Setting) (read : Text → Except Text A) (text : Text) :
    ((blocks text).flatMap Block.entries).flatMap (listed what read) =
      ((blocks text).filter (·.sec = what.home)).flatMap fun b =>
        b.entries.flatMap (listed what read) := by
  rw [List.flatMap_assoc]
  refine flatMap_filter fun b hb hsec => List.flatMap_eq_nil_iff.2 fun e he => ?_
  unfold listed
  rw [stated_of_home, Option.getD_none]
  rw [home_of_mem_cut.2 b hb e he]
  simpa using hsec

/-- The fields of the interface of a config. -/
def WgConf.interface (conf : WgConf) : Interface :=
  ⟨some conf.privateKey, conf.addresses, conf.dns, conf.mtu⟩

/-- The fields of the peer of a config. -/
def WgConf.peer (conf : WgConf) : Peer :=
  ⟨some conf.peerPublicKey, conf.presharedKey, some conf.endpoint, conf.persistentKeepalive,
    conf.allowedIps⟩

theorem required_eq_ok {A : Type} {a : Option A} {msg : String} {b : A}
    (h : required a msg = .ok b) : a = some b := by
  cases a with
  | none => cases h
  | some a =>
    cases h
    rfl

theorem finish_eq_ok {v : Values} {conf : WgConf} (h : v.finish = .ok conf) :
    v = ⟨some conf.privateKey, conf.addresses, conf.dns, conf.mtu, some conf.peerPublicKey,
      conf.presharedKey, some conf.endpoint, conf.allowedIps, conf.persistentKeepalive⟩ := by
  obtain ⟨privateKey, hprivate, h⟩ := bind_eq_ok_iff.1 h
  obtain ⟨addresses, haddresses, h⟩ := bind_eq_ok_iff.1 h
  obtain ⟨publicKey, hpublic, h⟩ := bind_eq_ok_iff.1 h
  obtain ⟨endpoint, hendpoint, h⟩ := bind_eq_ok_iff.1 h
  cases h
  have haddresses : v.addresses = addresses := by
    unfold requireNonempty at haddresses
    split at haddresses
    · cases haddresses
    · exact Except.ok.inj haddresses
  rw [← required_eq_ok hprivate, ← required_eq_ok hpublic, ← required_eq_ok hendpoint,
    ← haddresses]

/-- **What a config says**: the last value of each key over the sections of its kind, and all
that is listed. -/
theorem parse_eq_ok {text : Text} {conf : WgConf} (h : parse base64 text = .ok conf) :
    interface base64 text = conf.interface ∧
      last ((peers base64 text).map Peer.publicKey) = conf.peer.publicKey ∧
      last ((peers base64 text).map Peer.presharedKey) = conf.peer.presharedKey ∧
      last ((peers base64 text).map Peer.endpoint) = conf.peer.endpoint ∧
      last ((peers base64 text).map Peer.keepalive) = conf.peer.keepalive ∧
      (peers base64 text).flatMap Peer.allowedIps = conf.peer.allowedIps := by
  obtain ⟨⟨sec, v⟩, hloop, hfinish⟩ := bind_eq_ok_iff.1 h
  have hrun := foldlM_parseLine base64 hloop
  rw [cut_none, List.nil_append] at hrun
  change List.foldlM _ _ ((blocks text).flatMap Block.entries) = _ at hrun
  have hset : ∀ {A : Type} {get : Values → Option A} (what : Setting) (read : Text → Except Text A),
      (∀ v e v', Recorded base64 v e v' → get v' = (stated what read e).or (get v)) →
      get .empty = none → get v = last (((blocks text).filter (·.sec = what.home)).map fun b =>
        last (b.entries.map (stated what read))) := by
    intro A get what read hget hempty
    have hsets : Sets (fun v e => v.set base64 e.1 e.2) get (stated what read) :=
      fun v e v' h => hget v e v' (recorded base64 h)
    rw [hsets.run hrun, last_blocks, hempty, Option.or_none]
  have hlist : ∀ {A : Type} {get : Values → List A} (what : Setting) (read : Text → Except Text A),
      (∀ v e v', Recorded base64 v e v' → get v' = get v ++ listed what read e) →
      get .empty = [] → get v = ((blocks text).filter (·.sec = what.home)).flatMap fun b =>
        b.entries.flatMap (listed what read) := by
    intro A get what read hget hempty
    have hlengthens : Lengthens (fun v e => v.set base64 e.1 e.2) get (listed what read) :=
      fun v e v' h => hget v e v' (recorded base64 h)
    rw [hlengthens.run hrun, flatMap_blocks, hempty, List.nil_append]
  have hprivate := hset .privateKey (decodeKey base64 "PrivateKey") (fun v e v' h => h.privateKey)
    rfl
  have haddresses := hlist .address parseCidr (fun v e v' h => h.addresses) rfl
  have hdns := hlist .dns parseDns (fun v e v' h => h.dns) rfl
  have hmtu := hset .mtu parseMtu (fun v e v' h => h.mtu) rfl
  have hpublic := hset .publicKey (decodeKey base64 "PublicKey") (fun v e v' h => h.peerPublicKey)
    rfl
  have hpreshared :=
    hset .presharedKey (decodeKey base64 "PresharedKey") (fun v e v' h => h.presharedKey) rfl
  have hendpoint := hset .endpoint .ok (fun v e v' h => h.endpoint) rfl
  have hkeepalive :=
    hset .persistentKeepalive parseKeepalive (fun v e v' h => h.persistentKeepalive) rfl
  have hallowed := hlist .allowedIps parseCidr (fun v e v' h => h.allowedIps) rfl
  obtain rfl := finish_eq_ok hfinish
  refine ⟨?_, ?_, ?_, ?_, ?_, ?_⟩
  · simp only [interface, List.map_flatMap, last_flatMap, List.flatMap_assoc]
    exact (congr (congr (congr (congrArg Interface.mk hprivate) haddresses) hdns) hmtu).symm
  · rw [peers, List.map_map]
    exact hpublic.symm
  · rw [peers, List.map_map]
    exact hpreshared.symm
  · rw [peers, List.map_map]
    exact hendpoint.symm
  · rw [peers, List.map_map]
    exact hkeepalive.symm
  · rw [peers, List.flatMap_map]
    exact hallowed.symm

/-! ## One peer -/

/-- A section decides a key among others: it states the key if one before it does, and what the
ones after it state last is what it states. -/
def Settles {A : Type} (get : Peer → Option A) (before : List Peer) (p : Peer)
    (after : List Peer) : Prop :=
  (∀ q ∈ before, get q ≠ none → get p ≠ none) ∧
    ∀ a, last (after.map get) = some a → get p = some a

/-- A section decides everything, and the others list no networks. -/
structure Restates (before : List Peer) (p : Peer) (after : List Peer) : Prop where
  publicKey : Settles Peer.publicKey before p after
  presharedKey : Settles Peer.presharedKey before p after
  endpoint : Settles Peer.endpoint before p after
  keepalive : Settles Peer.keepalive before p after
  allowedIps : ∀ q ∈ before ++ after, q.allowedIps = []

theorem settles_iff {A : Type} {get : Peer → Option A} {before after : List Peer} {p : Peer} :
    Settles get before p after ↔ last ((before ++ p :: after).map get) = get p := by
  rw [List.map_append, List.map_cons, last_eq_iff, List.forall_mem_map]
  rfl

/-- The peer of a config is one section exactly if a section decides everything. -/
theorem peer_mem_iff {text : Text} {conf : WgConf} (h : parse base64 text = .ok conf) :
    conf.peer ∈ peers base64 text ↔ ∃ before p after,
      peers base64 text = before ++ p :: after ∧ Restates before p after := by
  obtain ⟨-, hpublic, hpreshared, hendpoint, hkeepalive, hallowed⟩ := parse_eq_ok base64 h
  constructor
  · intro hmem
    obtain ⟨before, after, hsplit⟩ := List.append_of_mem hmem
    rw [hsplit] at hpublic hpreshared hendpoint hkeepalive hallowed
    exact ⟨before, _, after, hsplit, settles_iff.2 hpublic, settles_iff.2 hpreshared,
      settles_iff.2 hendpoint, settles_iff.2 hkeepalive, flatMap_eq_iff.1 hallowed⟩
  · rintro ⟨before, p, after, hsplit, hrestates⟩
    rw [hsplit] at hpublic hpreshared hendpoint hkeepalive hallowed
    have heq : p = conf.peer := by
      obtain ⟨publicKey, presharedKey, endpoint, keepalive, allowedIps⟩ := p
      rw [settles_iff.1 hrestates.publicKey] at hpublic
      rw [settles_iff.1 hrestates.presharedKey] at hpreshared
      rw [settles_iff.1 hrestates.endpoint] at hendpoint
      rw [settles_iff.1 hrestates.keepalive] at hkeepalive
      rw [flatMap_eq_iff.2 hrestates.allowedIps] at hallowed
      dsimp only at hpublic hpreshared hendpoint hkeepalive hallowed
      rw [hpublic, hpreshared, hendpoint, hkeepalive, hallowed]
    rw [hsplit, ← heq]
    exact List.mem_append_right _ (List.mem_cons_self ..)

/-! ## What does not count -/

/-- Blanks only. -/
def Blank (t : Text) : Prop := ∀ c ∈ t, isWhitespace c = true

/-- A comment, or nothing. -/
def Comment (t : Text) : Prop := ∀ c ∈ t.head?, c = '#' ∨ c = ';'

/-- A text without a comment in it. -/
def NoComment (t : Text) : Prop := ∀ c ∈ t, c ≠ '#' ∧ c ≠ ';'

/-- The text of a key: one that is not taken for a section or for a key and its value. -/
structure KeyText (t : Text) : Prop where
  noComment : NoComment t
  noEquals : '=' ∉ t
  noBracket : '[' ∉ t

/-- The same text but for the blanks around it. -/
def SameText (t t' : Text) : Prop :=
  ∃ u b c b' c', Blank b ∧ Blank c ∧ Blank b' ∧ Blank c' ∧ t = b ++ (u ++ c) ∧ t' = b' ++ (u ++ c')

/-- The same word but for the blanks around it and its case. -/
def SameWord (t t' : Text) : Prop := t.trim.toAsciiLowercase = t'.trim.toAsciiLowercase

/-- The section in force behind some lines. -/
def inForce (sec : Section) (lines : List Text) : Section :=
  lines.foldl (fun sec raw => match readLine raw with
    | .header sec' => sec'
    | _ => sec) sec

/-- A line of a section that is not known. -/
def Passed (raw : Text) : Prop :=
  readLine raw = .blank ∨ ∃ key value, readLine raw = .entry key value

/-- Two texts that differ in something that does not count. -/
inductive Noise : List Text → List Text → Prop where
  /-- A blank line, or a comment on a line of its own. -/
  | blank {before after : List Text} {blanks note : Text} (hblanks : Blank blanks)
      (hnote : Comment note) : Noise (before ++ after) (before ++ (blanks ++ note) :: after)
  /-- A comment behind a line. -/
  | comment {before after : List Text} {line note : Text} (hnote : Comment note) :
      Noise (before ++ line :: after) (before ++ (line ++ note) :: after)
  /-- Blanks around a line. -/
  | spacing {before after : List Text} {line line' : Text} (h : SameText line line') :
      Noise (before ++ line :: after) (before ++ line' :: after)
  /-- Another spelling of a key, and blanks around it and its value. -/
  | key {before after : List Text} {key key' value value' : Text} (hkey : KeyText key)
      (hkey' : KeyText key') (hsame : SameWord key key') (hvalue : SameText value value') :
      Noise (before ++ (key ++ '=' :: value) :: after) (before ++ (key' ++ '=' :: value') :: after)
  /-- Another spelling of a section. -/
  | header {before after : List Text} {name name' : Text} (hname : NoComment name)
      (hname' : NoComment name') (hsame : SameWord name name') :
      Noise (before ++ ('[' :: name ++ [']']) :: after) (before ++ ('[' :: name' ++ [']']) :: after)
  /-- A key that is not known in its section. -/
  | unknownKey {before after : List Text} {key value : Text} (hkey : KeyText key)
      (hunknown : Setting.find (inForce .none before) key.trim.toAsciiLowercase = none) :
      Noise (before ++ after) (before ++ (key ++ '=' :: value) :: after)
  /-- A section that is not known, in front of another one or at the end. -/
  | unknownSection {before after body : List Text} {name : Text}
      (hname : NoComment name)
      (hunknown : Section.named name = .none) (hbody : ∀ raw ∈ body, Passed raw)
      (hafter : ∀ raw ∈ after.head?, ∃ sec, readLine raw = .header sec) :
      Noise (before ++ after) (before ++ (('[' :: name ++ [']']) :: body ++ after))

end

/-! ### Comments -/

theorem stripComment_append {note : Text} (hnote : Comment note) (t : Text) :
    stripComment (t ++ note) = stripComment t := by
  have hstop : note.takeWhile (fun c => c ≠ '#' ∧ c ≠ ';') = [] := by
    cases note with
    | nil => rfl
    | cons c rest =>
      refine List.takeWhile_cons_of_neg fun hkeep => ?_
      rcases hnote c rfl with rfl | rfl <;> simp at hkeep
  unfold stripComment
  rw [List.takeWhile_append]
  split
  · next hall =>
    rw [hstop, List.append_nil]
    exact ((List.takeWhile_prefix _).eq_of_length hall).symm
  · rfl

theorem stripComment_of_noComment {t : Text} (h : NoComment t) (rest : Text) :
    stripComment (t ++ rest) = t ++ stripComment rest := by
  unfold stripComment
  rw [List.takeWhile_append_of_pos fun c hc => decide_eq_true (h c hc)]

theorem Blank.noComment {b : Text} (h : Blank b) : NoComment b := by
  intro c hc
  have hblank := h c hc
  constructor
  · rintro rfl
    exact absurd hblank (by decide)
  · rintro rfl
    exact absurd hblank (by decide)

/-- Blanks around a text stay around it, in front of its comment or in it. -/
theorem trim_stripComment {u b c : Text} (hb : Blank b) (hc : Blank c) :
    (stripComment (b ++ (u ++ c))).trim = (stripComment u).trim := by
  rw [stripComment_of_noComment hb.noComment, Text.trim_append_left hb]
  have hcut :
      stripComment (u ++ c) = stripComment u ∨ stripComment (u ++ c) = stripComment u ++ c := by
    unfold stripComment
    rw [List.takeWhile_append]
    split
    · next hall =>
      have hc' : c.takeWhile (fun c => c ≠ '#' ∧ c ≠ ';') = c :=
        List.takeWhile_eq_self_iff.2 fun a ha => decide_eq_true (hc.noComment a ha)
      rw [hc', (List.takeWhile_prefix _).eq_of_length hall]
      exact .inr rfl
    · exact .inl rfl
  rcases hcut with hcut | hcut
  · rw [hcut]
  · rw [hcut, Text.trim_append_right hc]

theorem SameText.trim_stripComment {t t' : Text} (h : SameText t t') :
    (stripComment t).trim = (stripComment t').trim := by
  obtain ⟨u, b, c, b', c', hb, hc, hb', hc', rfl, rfl⟩ := h
  rw [WireGuard.trim_stripComment hb hc, WireGuard.trim_stripComment hb' hc']

/-! ### Lines -/

theorem readLine_congr {raw raw' : Text} (h : (stripComment raw).trim = (stripComment raw').trim) :
    readLine raw = readLine raw' := by
  unfold readLine
  rw [h]

theorem readLine_blank {blanks note : Text} (hblanks : Blank blanks) (hnote : Comment note) :
    readLine (blanks ++ note) = .blank := by
  have hempty : (stripComment (blanks ++ note)).trim = [] := by
    rw [stripComment_append hnote, ← List.append_nil blanks,
      stripComment_of_noComment hblanks.noComment, Text.trim_append_left hblanks]
    rfl
  unfold readLine
  exact if_pos hempty

theorem readLine_key {key : Text} (h : KeyText key) (value : Text) :
    readLine (key ++ '=' :: value) =
      .entry key.trim.toAsciiLowercase (stripComment value).trim := by
  have hequals : stripComment ('=' :: value) = '=' :: stripComment value :=
    List.takeWhile_cons_of_pos (by decide)
  have hkey : ∀ c ∈ key.dropWhile isWhitespace, c ∈ key :=
    fun c hc => List.dropWhile_subset _ hc
  unfold readLine
  rw [stripComment_of_noComment h.noComment, hequals, Text.trim_around (by decide)]
  obtain ⟨k, hk⟩ : ∃ k, k = key.dropWhile isWhitespace := ⟨_, rfl⟩
  have htrim : Text.trim k = key.trim := by
    rw [hk, Text.trim, List.dropWhile_idempotent]
    rfl
  rw [← hk] at hkey ⊢
  have hname : sectionName (k ++ '=' :: Text.trimEndMatches isWhitespace (stripComment value)) =
      none := by
    have hprefix : Text.stripPrefix
        (k ++ '=' :: Text.trimEndMatches isWhitespace (stripComment value)) ['['] = none := by
      refine if_neg fun hpre => ?_
      cases k with
      | nil => simp [List.isPrefixOf] at hpre
      | cons c k =>
        have hc : '[' ≠ c := fun hc => h.noBracket (hc ▸ hkey c (List.mem_cons_self ..))
        simp [List.isPrefixOf, hc] at hpre
    rw [sectionName, hprefix]
    rfl
  dsimp only
  rw [if_neg (by simp), hname, Text.splitOnce_append fun hmem => h.noEquals (hkey _ hmem)]
  dsimp only
  rw [htrim, Text.trim_trimEnd]

theorem readLine_header {name : Text} (h : NoComment name) :
    readLine ('[' :: name ++ [']']) = .header (.named name) := by
  have hopen : stripComment ('[' :: name ++ [']']) = '[' :: name ++ [']'] := by
    have hwhole : NoComment ('[' :: name ++ [']']) := by
      intro c hc
      rcases List.mem_append.1 hc with hc | hc
      · rcases List.mem_cons.1 hc with rfl | hc
        · decide
        · exact h c hc
      · rw [List.mem_singleton.1 hc]
        decide
    have hstrip := stripComment_of_noComment hwhole []
    rw [List.append_nil] at hstrip
    rw [hstrip]
    exact List.append_nil _
  have htrim : Text.trim ('[' :: name ++ [']']) = '[' :: name ++ [']'] := by
    have hend : ∀ c ∈ ('[' :: name ++ [']']).getLast?, isWhitespace c = false := by
      intro c hc
      rw [List.getLast?_append] at hc
      cases hc
      rfl
    have htrim := @Text.trimEndMatches_append isWhitespace _ [] nofun hend
    rw [List.append_nil] at htrim
    exact htrim
  have hname : sectionName ('[' :: name ++ [']']) = some name := by
    have hprefix : Text.stripPrefix ('[' :: name ++ [']']) ['['] = some (name ++ [']']) :=
      if_pos rfl
    rw [sectionName, hprefix, Option.bind_some, if_pos (by simp), List.dropLast_concat]
  unfold readLine
  dsimp only
  rw [hopen, htrim, if_neg (by simp), hname]

/-! ### Texts -/

variable (base64 : Text → Option Bytes)

theorem parseLine_congr {raw raw' : Text} (h : readLine raw = readLine raw')
    (s : Section × Values) : parseLine base64 s raw = parseLine base64 s raw' := by
  unfold parseLine
  rw [h]

/-- A line that changes nothing. -/
theorem parseLine_passed {raw : Text} {s : Section × Values} (h : readLine raw = .blank ∨
    ∃ key value, readLine raw = .entry key value ∧ Setting.find s.1 key = none) :
    parseLine base64 s raw = .ok s := by
  unfold parseLine
  rcases h with h | ⟨key, value, h, hfind⟩
  · rw [h]
  · rw [h]
    simp only [hfind]

/-- `parse` from some line on. -/
def parseFrom (s : Section × Values) (lines : List Text) : Except Text WgConf :=
  lines.foldlM (parseLine base64) s >>= fun r => r.2.finish

theorem parseFrom_cons (s : Section × Values) (raw : Text) (lines : List Text) :
    parseFrom base64 s (raw :: lines) =
      parseLine base64 s raw >>= fun s => parseFrom base64 s lines := by
  unfold parseFrom
  rw [List.foldlM_cons, bind_assoc]

theorem parseFrom_append (s : Section × Values) (before lines : List Text) :
    parseFrom base64 s (before ++ lines) =
      before.foldlM (parseLine base64) s >>= fun s => parseFrom base64 s lines := by
  unfold parseFrom
  rw [List.foldlM_append, bind_assoc]

theorem parseFrom_of_ok {s s' : Section × Values} {raw : Text} {lines : List Text}
    (h : parseLine base64 s raw = .ok s') :
    parseFrom base64 s (raw :: lines) = parseFrom base64 s' lines := by
  rw [parseFrom_cons, h]
  rfl

theorem foldlM_inForce {lines : List Text} {s s' : Section × Values}
    (h : lines.foldlM (parseLine base64) s = .ok s') : s'.1 = inForce s.1 lines := by
  induction lines generalizing s with
  | nil =>
    cases h
    rfl
  | cons raw lines ih =>
    obtain ⟨s₁, hstep, hrest⟩ := bind_eq_ok_iff.1 h
    rw [ih hrest, inForce, inForce, List.foldl_cons]
    congr 1
    unfold parseLine at hstep
    cases hread : readLine raw with
    | blank =>
      rw [hread] at hstep
      cases hstep
      rfl
    | header sec =>
      rw [hread] at hstep
      cases hstep
      rfl
    | entry key value =>
      rw [hread] at hstep
      dsimp only at hstep ⊢
      split at hstep
      · obtain ⟨v, -, rfl⟩ := map_eq_ok_iff.1 hstep
        rfl
      · cases hstep
        rfl
    | malformed line =>
      rw [hread] at hstep
      cases hstep

/-- What is read behind a prefix decides. -/
theorem parseFrom_congr {before lines lines' : List Text} {s : Section × Values}
    (h : ∀ v, parseFrom base64 (inForce s.1 before, v) lines =
      parseFrom base64 (inForce s.1 before, v) lines') :
    parseFrom base64 s (before ++ lines) = parseFrom base64 s (before ++ lines') := by
  rw [parseFrom_append, parseFrom_append]
  cases hbefore : before.foldlM (parseLine base64) s with
  | error e => rfl
  | ok s' =>
    have hforce := foldlM_inForce base64 hbefore
    obtain ⟨sec, v⟩ := s'
    obtain rfl : sec = _ := hforce
    exact h v

/-- A section that is not known is passed over. -/
theorem parseFrom_unknownSection {name : Text} {body after : List Text} (hname : NoComment name)
    (hunknown : Section.named name = .none) (hbody : ∀ raw ∈ body, Passed raw)
    (hafter : ∀ raw ∈ after.head?, ∃ sec, readLine raw = .header sec) (s : Section × Values) :
    parseFrom base64 s (('[' :: name ++ [']']) :: body ++ after) = parseFrom base64 s after := by
  have hopen : parseLine base64 s ('[' :: name ++ [']']) = .ok (.none, s.2) := by
    unfold parseLine
    rw [readLine_header hname, hunknown]
  have hpass : ∀ body : List Text, (∀ raw ∈ body, Passed raw) →
      parseFrom base64 (.none, s.2) (body ++ after) = parseFrom base64 (.none, s.2) after := by
    intro body hbody
    induction body with
    | nil => rfl
    | cons raw body ih =>
      have hline : parseLine base64 (.none, s.2) raw = .ok (.none, s.2) := by
        refine parseLine_passed base64 ((hbody raw (List.mem_cons_self ..)).imp_right ?_)
        rintro ⟨key, value, hread⟩
        exact ⟨key, value, hread, rfl⟩
      rw [List.cons_append, parseFrom_of_ok base64 hline]
      exact ih fun r hr => hbody r (List.mem_cons_of_mem _ hr)
  rw [List.cons_append, parseFrom_of_ok base64 hopen, hpass body hbody]
  cases after with
  | nil => rfl
  | cons raw after =>
    obtain ⟨sec, hread⟩ := hafter raw rfl
    have hheader : ∀ s : Section × Values, parseLine base64 s raw = .ok (sec, s.2) := by
      intro s
      unfold parseLine
      rw [hread]
    rw [parseFrom_of_ok base64 (hheader _), parseFrom_of_ok base64 (hheader _)]

/-- **What does not count**: comments, blank lines, spacing, the case of keys and of names of
sections, and what is not known. -/
theorem Noise.parse_eq {text text' : Text} (h : Noise text.lines text'.lines) :
    parse base64 text = parse base64 text' := by
  change parseFrom base64 (.none, .empty) text.lines = parseFrom base64 (.none, .empty) text'.lines
  have hline : ∀ {before after : List Text} {raw raw' : Text}, readLine raw = readLine raw' →
      parseFrom base64 (.none, .empty) (before ++ raw :: after) =
        parseFrom base64 (.none, .empty) (before ++ raw' :: after) := by
    intro before after raw raw' hread
    refine parseFrom_congr base64 fun v => ?_
    rw [parseFrom_cons, parseFrom_cons, parseLine_congr base64 hread]
  generalize text.lines = lines at h ⊢
  generalize text'.lines = lines' at h ⊢
  cases h with
  | blank hblanks hnote =>
    refine parseFrom_congr base64 fun v => ?_
    rw [parseFrom_of_ok base64 (parseLine_passed base64 (.inl (readLine_blank hblanks hnote)))]
  | comment hnote =>
    refine hline (readLine_congr ?_)
    rw [stripComment_append hnote]
  | spacing hsame => exact hline (readLine_congr hsame.trim_stripComment)
  | key hkey hkey' hsame hvalue =>
    refine hline ?_
    rw [readLine_key hkey, readLine_key hkey', hvalue.trim_stripComment]
    exact congrArg (fun k => Line.entry k _) hsame
  | header hname hname' hsame =>
    refine hline ?_
    rw [readLine_header hname, readLine_header hname', Section.named, Section.named]
    rw [show Text.toAsciiLowercase _ = _ from hsame]
  | @unknownKey before after key value hkey hunknown =>
    refine parseFrom_congr base64 fun v => ?_
    have hpassed := parseLine_passed base64 (s := (inForce .none before, v))
      (.inr ⟨_, _, readLine_key hkey value, hunknown⟩)
    exact (parseFrom_of_ok base64 hpassed).symm
  | unknownSection hname hunknown hbody hafter =>
    refine parseFrom_congr base64 fun v => ?_
    rw [parseFrom_unknownSection base64 hname hunknown hbody hafter]

/-- **A config gives one peer** exactly if one of its [Peer] sections decides everything: it
restates every key that a section before it states, what the sections after it state last is what
it states, and no other one lists networks.  The interface is what the [Interface] sections say,
and what does not count changes nothing. -/
theorem one_peer_iff :
    (∀ text conf, parse base64 text = .ok conf →
      interface base64 text = conf.interface ∧
        (conf.peer ∈ peers base64 text ↔ ∃ before p after,
          peers base64 text = before ++ p :: after ∧ Restates before p after)) ∧
      ∀ text text', Noise text.lines text'.lines → parse base64 text = parse base64 text' := by
  refine ⟨fun text conf h => ⟨(parse_eq_ok base64 h).1, peer_mem_iff base64 h⟩, ?_⟩
  exact fun text text' h => h.parse_eq base64

/-- The same byte 32 times. -/
def sampleKey (b : UInt8) : Key := ⟨List.replicate 32 b, List.length_replicate⟩

/-- What the decoder gives for four keys. -/
def sampleBase64 (t : Text) : Option Bytes :=
  if t = "AQEBAQEBAQEBAQEBAQEBAQEBAQEBAQEBAQEBAQEBAQE=".toList then some (sampleKey 1).1
  else if t = "AgICAgICAgICAgICAgICAgICAgICAgICAgICAgICAgI=".toList then some (sampleKey 2).1
  else if t = "AwMDAwMDAwMDAwMDAwMDAwMDAwMDAwMDAwMDAwMDAwM=".toList then some (sampleKey 3).1
  else if t = "BAQEBAQEBAQEBAQEBAQEBAQEBAQEBAQEBAQEBAQEBAQ=".toList then some (sampleKey 4).1
  else none

/-- The config of a tunnel to one peer, with comments, keys in odd case and keys that are not
known. -/
def onePeer : Text := [
  "# home",
  "[INTERFACE]",
  "privatekey=AQEBAQEBAQEBAQEBAQEBAQEBAQEBAQEBAQEBAQEBAQE= ; ours",
  "  Address = 10.0.0.2/32",
  "Table = off",
  "",
  "[Peer]  # the router",
  "PUBLICKEY = AgICAgICAgICAgICAgICAgICAgICAgICAgICAgICAgI=",
  "Endpoint = 192.0.2.1:51820",
  "AllowedIPs = 10.0.0.0/8, 192.168.0.0/16",
  "Name = router",
  "persistentKeepAlive = 25"].flatMap fun line => line.toList ++ ['\n']

/-- What it reads as. -/
def home : WgConf where
  privateKey := sampleKey 1
  addresses := [(.v4 ⟨10, 0, 0, 2⟩, 32)]
  dns := []
  mtu := none
  peerPublicKey := sampleKey 2
  presharedKey := none
  endpoint := "192.0.2.1:51820".toList
  allowedIps := [(.v4 ⟨10, 0, 0, 0⟩, 8), (.v4 ⟨192, 168, 0, 0⟩, 16)]
  persistentKeepalive := some 25

/-- The peer is the one the text states, and a comment in front of the text changes nothing. -/
theorem one_peer_home :
    parse sampleBase64 onePeer = .ok home ∧ home.peer ∈ peers sampleBase64 onePeer ∧
      parse sampleBase64 ("; to the router\n".toList ++ onePeer) = .ok home := by
  have hparse : parse sampleBase64 onePeer = .ok home := by
    decide +kernel
  have hpeers : peers sampleBase64 onePeer = [home.peer] := by
    decide +kernel
  have hlines : Text.lines ("; to the router\n".toList ++ onePeer) =
      [] ++ ([] ++ "; to the router".toList) :: onePeer.lines := by
    decide +kernel
  obtain ⟨hread, hnoise⟩ := one_peer_iff sampleBase64
  refine ⟨hparse, ?_, ?_⟩
  · have hsettles : ∀ {A : Type} (get : Peer → Option A), Settles get [] home.peer [] :=
      fun get => ⟨fun q hq => absurd hq List.not_mem_nil, fun a ha => by cases ha⟩
    exact ((hread onePeer home hparse).2).2 ⟨[], home.peer, [], hpeers, hsettles _, hsettles _,
      hsettles _, hsettles _, fun q hq => absurd hq List.not_mem_nil⟩
  · rw [← hparse]
    refine (hnoise onePeer _ ?_).symm
    rw [hlines]
    have hnote : Comment "; to the router".toList := fun c hc => .inr (Option.some.inj hc).symm
    have hblank : Noise ([] ++ onePeer.lines)
        ([] ++ ([] ++ "; to the router".toList) :: onePeer.lines) :=
      .blank (fun c hc => absurd hc List.not_mem_nil) hnote
    exact hblank

/-- The config of a tunnel to one of two peers, of which only the first has a preshared key. -/
def twoPeers : Text := [
  "[Interface]",
  "PrivateKey = AQEBAQEBAQEBAQEBAQEBAQEBAQEBAQEBAQEBAQEBAQE=",
  "Address = 10.0.0.2/32",
  "[Peer]",
  "PublicKey = AgICAgICAgICAgICAgICAgICAgICAgICAgICAgICAgI=",
  "PresharedKey = AwMDAwMDAwMDAwMDAwMDAwMDAwMDAwMDAwMDAwMDAwM=",
  "Endpoint = 192.0.2.1:51820",
  "AllowedIPs = 10.0.0.0/8",
  "[Peer]",
  "PublicKey = BAQEBAQEBAQEBAQEBAQEBAQEBAQEBAQEBAQEBAQEBAQ=",
  "Endpoint = 192.0.2.2:51820",
  "AllowedIPs = 0.0.0.0/0"].flatMap fun line => line.toList ++ ['\n']

/-- What it reads as. -/
def mixed : WgConf where
  privateKey := sampleKey 1
  addresses := [(.v4 ⟨10, 0, 0, 2⟩, 32)]
  dns := []
  mtu := none
  peerPublicKey := sampleKey 4
  presharedKey := some (sampleKey 3)
  endpoint := "192.0.2.2:51820".toList
  allowedIps := [(.v4 ⟨10, 0, 0, 0⟩, 8), (.v4 ⟨0, 0, 0, 0⟩, 0)]
  persistentKeepalive := none

/-- The key of the second peer comes with the preshared key of the first and the networks of
both. -/
theorem two_peers_mixed :
    ∃ conf, parse sampleBase64 twoPeers = .ok conf ∧ conf.peerPublicKey = sampleKey 4 ∧
      conf.presharedKey = some (sampleKey 3) ∧ conf.peer ∉ peers sampleBase64 twoPeers := by
  have h : parse sampleBase64 twoPeers = .ok mixed ∧ mixed.peer ∉ peers sampleBase64 twoPeers := by
    decide +kernel
  exact ⟨mixed, h.1, rfl, rfl, h.2⟩

end Ferrite.Proxy.WireGuard
