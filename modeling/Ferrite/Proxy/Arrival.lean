import Ferrite.Lib.Incremental
import Ferrite.Proxy.ProxyHeader

/-!
# How the first bytes arrive

`handle` in `proxy/src/intercept.rs` reads a connection until it knows whose it is and which
host it is for: from a trusted proxy a PROXY header comes first, then a ClientHello or the
head of a request.  After every read it asks its parsers about the whole buffer.

The parsers of the header and of the ClientHello give no answer that more bytes would change,
so there it does not matter how the bytes arrive.  The parser of the request does: more than
8192 bytes without a blank line are no request, and whether it ever sees such a buffer depends
on the reads.  `cuts_agree_iff` says for which streams it matters: those with a host whose
blank line starts at 8190 to 12284.  Before that no buffer is too long, and after it every way
of reading meets one.
-/

namespace Ferrite.Proxy

open Incremental

/-! ## The loop -/

/-- `Protocol`. -/
inductive Protocol where
  | tls
  | http
deriving DecidableEq, Repr

/-- `PEEK_CAP`. -/
def peekCap : ℕ := 16 * 1024

/-- The most one read gives. -/
def readSize : ℕ := 4096

/-- What the PROXY header said, and who the connection is taken to be from. -/
structure Whose where
  header : Header
  peer : Option SocketAddr
deriving DecidableEq

/-- How the loop ends. -/
inductive Peeked where
  | closed
  | overCap
  | badHeader
  | unnamed (whose : Whose)
  | host (whose : Whose) (host : Text)
deriving DecidableEq

/-- The variables of the loop. -/
structure PeekState where
  buf : Bytes
  headerRead : Bool
  whose : Whose

/-- The host the buffer names: `none` when it takes more bytes to tell, `some none` when it
names none. -/
def nameIn (proto : Protocol) (buf : Bytes) : Option (Option Text) :=
  match proto with
  | .tls =>
    match parseSni buf with
    | .found host => some (some host)
    | .incomplete => none
    | .notFound => some none
  | .http =>
    match parseHttpHost buf with
    | .found host => some (some host)
    | .incomplete => none
    | .notFound => some none

/-- How the loop ends for what the buffer names. -/
def Whose.peeked (whose : Whose) : Option Text → Peeked
  | some host => .host whose host
  | none => .unnamed whose

/-- The end of a round: the name is known, or the loop goes on. -/
def PeekState.named (proto : Protocol) (s : PeekState) : Except Peeked PeekState :=
  match nameIn proto s.buf with
  | some name => .error (s.whose.peeked name)
  | none => .ok s

/-- `to_canonical` of the address. -/
def canonical (a : SocketAddr) : SocketAddr := SocketAddr.new (unmapV4 a.ip) a.port

/-- One round of the loop, with the bytes it reads. -/
def peekStep (proto : Protocol) (s : PeekState) (bytes : Bytes) : Except Peeked PeekState :=
  let buf := s.buf ++ bytes
  if peekCap < buf.length then .error .overCap
  else if s.headerRead then PeekState.named proto { s with buf := buf }
  else
    match Header.parse buf with
    | .incomplete => .ok { s with buf := buf }
    | .absent => PeekState.named proto ⟨buf, true, { s.whose with header := .absent }⟩
    | .present client len =>
      let s' : PeekState :=
        ⟨buf.drop len, true, ⟨.present client len, (client.map canonical).or s.whose.peer⟩⟩
      if s'.buf = [] then .ok s' else s'.named proto
    | .invalid => .error .badHeader

/-- The loop of `handle`.  After the last read the client has closed. -/
def peek (proto : Protocol) (s : PeekState) : List Bytes → Peeked
  | [] => .closed
  | bytes :: reads =>
    match peekStep proto s bytes with
    | .ok s' => peek proto s' reads
    | .error done => done

/-- Before the first read: a header is looked for only from a trusted proxy. -/
def PeekState.start (trusted : Bool) (via : Option SocketAddr) : PeekState :=
  ⟨[], !trusted, ⟨.incomplete, via⟩⟩

/-! ## The parsers -/

theorem parseSni_append {buf : Bytes} (h : parseSni buf ≠ .incomplete) (more : Bytes) :
    parseSni (buf ++ more) = parseSni buf := by
  have hlong : ¬ buf.length < 5 := fun hshort => h (if_pos hshort)
  have hlong' : ¬ (buf ++ more).length < 5 := by
    rw [List.length_append]
    omega
  have hagree := Bytes.agreeOn_append buf more 0
  have hkind : (buf ++ more).byteAt 0 = buf.byteAt 0 := hagree.byteAt (by omega) (by omega)
  have hlen : (buf ++ more).readU16 3 = buf.readU16 3 := hagree.readU16 (by omega) (by omega)
  unfold parseSni at h ⊢
  rw [if_neg hlong] at h ⊢
  rw [if_neg hlong', hkind, hlen]
  by_cases htls : buf.byteAt 0 ≠ tlsHandshake
  · rw [if_pos htls, if_pos htls]
  · rw [if_neg htls] at h ⊢
    rw [if_neg htls]
    have hwhole : ¬ buf.length < 5 + (buf.readU16 3).toNat := fun hpart => h (if_pos hpart)
    have hwhole' : ¬ (buf ++ more).length < 5 + (buf.readU16 3).toNat := by
      rw [List.length_append]
      omega
    simp only [hwhole, hwhole', if_false, List.take_append_of_le_length (Nat.not_lt.1 hwhole)]

/-- A request is read once its blank line is there, from what comes before it. -/
theorem parseHttpHost_append {buf : Bytes} {i : ℕ} (h : findSubsequence crlfCrlf buf = some i)
    (more : Bytes) : parseHttpHost (buf ++ more) = parseHttpHost buf := by
  obtain ⟨hmore, hle⟩ := findSubsequence_append_of_some h more
  have htake : (buf ++ more).take i = buf.take i :=
    List.take_append_of_le_length (Nat.le_trans (Nat.le_add_right _ _) hle)
  unfold parseHttpHost
  rw [h, hmore]
  dsimp only
  rw [htake]

theorem parseHttpHost_of_none {buf : Bytes} (h : findSubsequence crlfCrlf buf = none) :
    parseHttpHost buf = if maxHead < buf.length then .notFound else .incomplete := by
  unfold parseHttpHost
  rw [h]

/-- A request that has its blank line is not waited for. -/
theorem parseHttpHost_ne_incomplete {buf : Bytes} {i : ℕ}
    (h : findSubsequence crlfCrlf buf = some i) : parseHttpHost buf ≠ .incomplete := by
  unfold parseHttpHost
  rw [h]
  dsimp only
  split
  · simp
  · split
    · simp
    · split_ifs
      · simp
      · split <;> simp

/-- A beginning of a request: as the whole if the blank line is in it, and otherwise it is
waited for until it is too long. -/
theorem parseHttpHost_prefix {p b : Bytes} (hp : p <+: b) :
    (∃ i, findSubsequence crlfCrlf b = some i ∧ i + 4 ≤ p.length ∧
      parseHttpHost p = parseHttpHost b) ∨
    ((∀ i, findSubsequence crlfCrlf b = some i → p.length < i + 4) ∧
      parseHttpHost p = if maxHead < p.length then .notFound else .incomplete) := by
  obtain ⟨more, rfl⟩ := hp
  cases hfind : findSubsequence crlfCrlf p with
  | some i =>
    obtain ⟨hmore, hle⟩ := findSubsequence_append_of_some hfind more
    exact .inl ⟨i, hmore, hle, (parseHttpHost_append hfind more).symm⟩
  | none =>
    refine .inr ⟨fun i hi => ?_, parseHttpHost_of_none hfind⟩
    by_contra hle
    rw [findSubsequence_of_append (by decide) hi (Nat.not_lt.1 hle)] at hfind
    cases hfind

/-- The request names a host, and its blank line comes so late that a beginning without it can
be too long. -/
def LateHead (b : Bytes) : Prop :=
  ∃ i host, findSubsequence crlfCrlf b = some i ∧ maxHead ≤ i + 2 ∧ parseHttpHost b = .found host

theorem stableOn_tls (b : Bytes) : StableOn (nameIn .tls) b := by
  rintro p name ⟨more, rfl⟩ h
  have hne : parseSni p ≠ .incomplete := by
    intro hinc
    simp [nameIn, hinc] at h
  unfold nameIn at h ⊢
  simp only at h ⊢
  rw [parseSni_append hne more]
  exact h

/-- Such a request is the only one of which a beginning says what the whole does not. -/
theorem parseHttpHost_stable_iff (b : Bytes) :
    (∀ p, p <+: b → parseHttpHost p ≠ .incomplete → parseHttpHost b = parseHttpHost p) ↔
      ¬ LateHead b := by
  constructor
  · rintro h ⟨i, host, hfind, hi, hb⟩
    have hle := (findSubsequence_append_of_some hfind []).2
    have hfour : crlfCrlf.length = 4 := rfl
    have hlen : (b.take (maxHead + 1)).length = maxHead + 1 := List.length_take_of_le (by omega)
    have hno : parseHttpHost (b.take (maxHead + 1)) = .notFound := by
      rcases parseHttpHost_prefix (List.take_prefix (maxHead + 1) b) with
        ⟨j, hj, hin, -⟩ | ⟨-, heq⟩
      · rw [hfind] at hj
        cases hj
        omega
      · rw [heq, hlen, if_pos (Nat.lt_succ_self _)]
    have hsame := h _ (List.take_prefix (maxHead + 1) b) (by simp [hno])
    rw [hno, hb] at hsame
    cases hsame
  · intro h p hp hne
    rcases parseHttpHost_prefix hp with ⟨i, -, -, heq⟩ | ⟨hlate, heq⟩
    · exact heq.symm
    · by_cases hlong : maxHead < p.length
      · rw [heq, if_pos hlong]
        cases hfind : findSubsequence crlfCrlf b with
        | none =>
          have hlong' : maxHead < b.length := Nat.lt_of_lt_of_le hlong hp.length_le
          rw [parseHttpHost_of_none hfind, if_pos hlong']
        | some i =>
          have hi := hlate i hfind
          cases hb : parseHttpHost b with
          | found host => exact absurd ⟨i, host, hfind, by omega, hb⟩ h
          | incomplete => exact absurd hb (parseHttpHost_ne_incomplete hfind)
          | notFound => rfl
      · rw [if_neg hlong] at heq
        exact absurd heq hne

theorem stableOn_http {b : Bytes} (h : ¬ LateHead b) : StableOn (nameIn .http) b := by
  intro p name hp hname
  have hne : parseHttpHost p ≠ .incomplete := by
    intro hinc
    simp [nameIn, hinc] at hname
  simp only [nameIn] at hname ⊢
  rw [(parseHttpHost_stable_iff b).2 h p hp hne]
  exact hname

/-! ## The loop asks about what has arrived -/

section Asking

variable (trusted : Bool) (via : Option SocketAddr) (proto : Protocol)

/-- The variables of the loop once these bytes have arrived. -/
def after (p : Bytes) : PeekState :=
  if trusted then
    match Header.parse p with
    | .absent => ⟨p, true, ⟨.absent, via⟩⟩
    | .present client len =>
      ⟨p.drop len, true, ⟨.present client len, (client.map canonical).or via⟩⟩
    | .incomplete | .invalid => ⟨p, false, ⟨.incomplete, via⟩⟩
  else ⟨p, true, ⟨.incomplete, via⟩⟩

/-- What these bytes decide. -/
def decided (p : Bytes) : Option Peeked :=
  if trusted = true ∧ Header.parse p = .invalid then some .badHeader
  else if (after trusted via p).headerRead then
    (nameIn proto (after trusted via p).buf).map (after trusted via p).whose.peeked
  else none

/-- The question of a round: is the buffer too long, and do the bytes decide? -/
def ask (p bytes : Bytes) : Option Peeked :=
  if peekCap < ((after trusted via p).buf ++ bytes).length then some .overCap
  else decided trusted via proto (p ++ bytes)

variable {trusted via proto}

/-- Behind a header that has been read only the buffer grows. -/
theorem after_append {p : Bytes} (h : (after trusted via p).headerRead = true) (more : Bytes) :
    after trusted via (p ++ more) =
      { after trusted via p with buf := (after trusted via p).buf ++ more } := by
  unfold after at h ⊢
  cases trusted with
  | false => rfl
  | true =>
    simp only [if_true] at h ⊢
    cases hparse : Header.parse p with
    | incomplete =>
      rw [hparse] at h
      cases h
    | invalid =>
      rw [hparse] at h
      cases h
    | absent =>
      have hne : Header.parse p ≠ .incomplete := by simp [hparse]
      rw [Header.parse_append hne more, hparse]
    | present client len =>
      have hne : Header.parse p ≠ .incomplete := by simp [hparse]
      rw [Header.parse_append hne more, hparse]
      simp only [List.drop_append_of_le_length (Header.len_le hparse)]

/-- The buffer is all that arrived until a header is read. -/
theorem after_of_not_headerRead {p : Bytes} (h : (after trusted via p).headerRead = false) :
    after trusted via p = ⟨p, false, ⟨.incomplete, via⟩⟩ := by
  unfold after at h ⊢
  cases trusted with
  | false => cases h
  | true =>
    simp only [if_true] at h ⊢
    split at h
    · cases h
    · cases h
    · rfl
    · rfl

theorem after_trusted (p : Bytes) : after true via p =
    match Header.parse p with
    | .absent => ⟨p, true, ⟨.absent, via⟩⟩
    | .present client len =>
      ⟨p.drop len, true, ⟨.present client len, (client.map canonical).or via⟩⟩
    | .incomplete | .invalid => ⟨p, false, ⟨.incomplete, via⟩⟩ := if_pos rfl

theorem nameIn_nil (proto : Protocol) : nameIn proto [] = none := by
  cases proto <;> rfl

theorem named_eq (proto : Protocol) (s : PeekState) :
    s.named proto = match (nameIn proto s.buf).map s.whose.peeked with
      | some done => .error done
      | none => .ok s := by
  unfold PeekState.named
  cases nameIn proto s.buf <;> rfl

/-- **One round** puts the question to what has arrived. -/
theorem peekStep_after {p : Bytes} (h : decided trusted via proto p = none) (bytes : Bytes) :
    peekStep proto (after trusted via p) bytes =
      match ask trusted via proto p bytes with
      | some done => .error done
      | none => .ok (after trusted via (p ++ bytes)) := by
  unfold peekStep ask
  dsimp only
  split_ifs with hcap hread
  · rfl
  · -- the header was read before: only the buffer grows
    have happend := after_append hread bytes
    have hvalid : ¬ (trusted = true ∧ Header.parse (p ++ bytes) = .invalid) := by
      rintro ⟨rfl, hinvalid⟩
      rw [after_trusted, hinvalid] at happend
      have hflag := congrArg PeekState.headerRead happend
      rw [hread] at hflag
      cases hflag
    unfold decided
    rw [if_neg hvalid, happend, if_pos hread, named_eq]
  · -- the buffer is all that arrived, and no header was read in it
    have hread : (after trusted via p).headerRead = false := Bool.eq_false_iff.2 hread
    rw [after_of_not_headerRead hread]
    have htrusted : trusted = true := by
      cases trusted with
      | true => rfl
      | false => cases hread
    subst htrusted
    unfold decided
    rw [after_trusted]
    dsimp only
    cases hparse : Header.parse (p ++ bytes) with
    | incomplete => simp
    | invalid => simp
    | absent => simp [named_eq]
    | present client len =>
      simp only [reduceCtorEq, and_false, if_false, if_true]
      split_ifs with hnil
      · rw [hnil, nameIn_nil]
        rfl
      · rw [named_eq]

/-- **The loop** ends with the first decision. -/
theorem peek_after {p : Bytes} (h : decided trusted via proto p = none) (reads : List Bytes) :
    peek proto (after trusted via p) reads =
      (feed (ask trusted via proto) p reads).getD .closed := by
  induction reads generalizing p with
  | nil => rfl
  | cons bytes reads ih =>
    rw [peek, peekStep_after h, feed]
    cases hask : ask trusted via proto p bytes with
    | some done => rfl
    | none =>
      refine ih ?_
      unfold ask at hask
      split_ifs at hask
      exact hask

theorem decided_nil : decided trusted via proto [] = none := by
  unfold decided after
  cases trusted with
  | false => simp [Header.parse, nameIn_nil]
  | true => simp [Header.parse]

theorem peek_start (reads : List Bytes) :
    peek proto (.start trusted via) reads =
      (feed (ask trusted via proto) [] reads).getD .closed := by
  have hstart : PeekState.start trusted via = after trusted via [] := by
    cases trusted <;> rfl
  rw [hstart]
  exact peek_after decided_nil reads

end Asking

/-! ## Streams whose reads do not matter -/

/-- The length of the header in front, when there is one to read or none to wait for. -/
def headerLen (trusted : Bool) (s : Bytes) : Option ℕ :=
  if trusted then
    match Header.parse s with
    | .absent => some 0
    | .present _ len => some len
    | .incomplete | .invalid => none
  else some 0

section Streams

variable {trusted : Bool} {via : Option SocketAddr} {proto : Protocol} {s p : Bytes} {len : ℕ}

theorem headerRead_iff : (after trusted via s).headerRead = true ↔
    ∃ len, headerLen trusted s = some len := by
  unfold after headerLen
  cases trusted with
  | false => simp
  | true => cases Header.parse s <;> simp

/-- What a header that was read leaves in the buffer. -/
theorem buf_after (h : headerLen trusted s = some len) :
    (after trusted via s).buf = s.drop len := by
  unfold headerLen at h
  unfold after
  cases trusted with
  | false =>
    cases h
    rfl
  | true =>
    simp only [if_true] at h ⊢
    cases hparse : Header.parse s with
    | absent =>
      rw [hparse] at h
      cases h
      rfl
    | present client n =>
      rw [hparse] at h
      cases h
      rfl
    | incomplete =>
      rw [hparse] at h
      cases h
    | invalid =>
      rw [hparse] at h
      cases h

theorem headerLen_le (h : headerLen trusted s = some len) : len ≤ s.length := by
  unfold headerLen at h
  split_ifs at h
  · split at h
    · cases h
      exact Nat.zero_le _
    · next hparse =>
      cases h
      exact Header.len_le hparse
    · cases h
    · cases h
  · cases h
    exact Nat.zero_le _

/-- A header that was read is the header of the stream. -/
theorem headerLen_prefix (h : headerLen trusted p = some len) (hp : p <+: s) :
    headerLen trusted s = some len := by
  obtain ⟨more, rfl⟩ := hp
  unfold headerLen at h ⊢
  cases trusted with
  | false => exact h
  | true =>
    simp only [if_true] at h ⊢
    have hne : Header.parse p ≠ .incomplete := by
      intro hinc
      rw [hinc] at h
      cases h
    rw [Header.parse_append hne more]
    exact h

/-- A beginning of a stream whose header has not been read is a short one. -/
theorem length_lt_of_headerLen (h : headerLen trusted s = some len) (hp : p <+: s)
    (hnone : headerLen trusted p = none) : p.length < max len 12 := by
  obtain ⟨more, rfl⟩ := hp
  by_contra hlong
  unfold headerLen at h hnone
  cases trusted with
  | false => cases hnone
  | true =>
    simp only [if_true] at h hnone
    cases hparse : Header.parse (p ++ more) with
    | absent =>
      rw [Header.parse_of_append_absent hparse (by omega)] at hnone
      cases hnone
    | present client n =>
      rw [hparse] at h
      cases h
      rw [Header.parse_of_append hparse (by omega)] at hnone
      cases hnone
    | incomplete =>
      rw [hparse] at h
      cases h
    | invalid =>
      rw [hparse] at h
      cases h

theorem decided_of_headerLen (h : headerLen trusted p = some len) :
    decided trusted via proto p =
      (nameIn proto (p.drop len)).map (after trusted via p).whose.peeked := by
  have hvalid : ¬ (trusted = true ∧ Header.parse p = .invalid) := by
    rintro ⟨rfl, hinvalid⟩
    simp [headerLen, hinvalid] at h
  unfold decided
  rw [if_neg hvalid, if_pos (headerRead_iff.2 ⟨len, h⟩), buf_after h]

/-- Before the header is read nothing is decided, if it is one. -/
theorem decided_of_headerLen_none (h : headerLen trusted s = some len) (hp : p <+: s)
    (hnone : headerLen trusted p = none) : decided trusted via proto p = none := by
  obtain ⟨more, rfl⟩ := hp
  have hvalid : ¬ (trusted = true ∧ Header.parse p = .invalid) := by
    rintro ⟨rfl, hinvalid⟩
    have hne : Header.parse p ≠ .incomplete := by simp [hinvalid]
    simp [headerLen, Header.parse_append hne more, hinvalid] at h
  have hread : ¬ (after trusted via p).headerRead = true := by
    rw [headerRead_iff, hnone]
    simp
  unfold decided
  rw [if_neg hvalid, if_neg hread]

theorem whose_of_prefix (h : headerLen trusted p = some len) (hp : p <+: s) :
    (after trusted via p).whose = (after trusted via s).whose := by
  obtain ⟨more, rfl⟩ := hp
  rw [after_append (headerRead_iff.2 ⟨len, h⟩) more]

/-- The loop's question is stable where that for a name is. -/
theorem stableOn_decided
    (h : ∀ len, headerLen trusted s = some len → StableOn (nameIn proto) (s.drop len)) :
    StableOn (decided trusted via proto) s := by
  rintro p done ⟨more, rfl⟩ hp
  cases hlen : headerLen trusted p with
  | some len =>
    have hpre := List.prefix_append p more
    have hmore := headerLen_prefix hlen hpre
    rw [decided_of_headerLen hlen] at hp
    obtain ⟨name, hname, rfl⟩ := Option.map_eq_some_iff.1 hp
    rw [decided_of_headerLen hmore, h len hmore _ name (hpre.drop len) hname,
      whose_of_prefix hlen hpre]
    rfl
  | none =>
    have hread : ¬ (after trusted via p).headerRead = true := by
      rw [headerRead_iff, hlen]
      simp
    unfold decided at hp ⊢
    rw [if_neg hread] at hp
    split_ifs at hp with hinvalid
    have hne : Header.parse p ≠ .incomplete := by simp [hinvalid.2]
    rw [Header.parse_append hne more, if_pos hinvalid]
    exact hp

theorem ask_cases (p bytes : Bytes) :
    ask trusted via proto p bytes = decided trusted via proto (p ++ bytes) ∨
      ask trusted via proto p bytes = some .overCap := by
  unfold ask
  split_ifs
  · exact .inr rfl
  · exact .inl rfl

/-- Where the question is stable the loop gives what the whole stream decides. -/
theorem peek_of_stableOn (h : StableOn (decided trusted via proto) s) {reads : List Bytes}
    (hreads : reads.flatten = s) (hcap : peek proto (.start trusted via) reads ≠ .overCap) :
    peek proto (.start trusted via) reads = (decided trusted via proto s).getD .closed := by
  rw [peek_start] at hcap ⊢
  have hbad : feed (ask trusted via proto) [] reads ≠ some .overCap := by
    intro hbad
    rw [hbad] at hcap
    exact hcap rfl
  rw [feed_of_stableOn h ask_cases (by rw [List.nil_append, hreads]) decided_nil hbad]

theorem peeked_inj {whose whose' : Whose} {name name' : Option Text}
    (h : whose.peeked name = whose'.peeked name') : whose = whose' := by
  cases name <;> cases name' <;> cases h <;> rfl

/-- Whose a TLS connection is taken to be does not depend on the reads. -/
theorem whose_of_peek {reads : List Bytes} {whose : Whose} {name : Option Text}
    (h : peek .tls (.start trusted via) reads = whose.peeked name) :
    whose = (after trusted via reads.flatten).whose := by
  have hcap : peek .tls (.start trusted via) reads ≠ .overCap := by
    rw [h]
    cases name <;> simp [Whose.peeked]
  have hstable : StableOn (decided trusted via .tls) reads.flatten :=
    stableOn_decided fun len _ => stableOn_tls _
  rw [peek_of_stableOn hstable rfl hcap] at h
  unfold decided at h
  split_ifs at h
  · cases name <;> cases h
  · cases hname : nameIn .tls (after trusted via reads.flatten).buf with
    | none =>
      rw [hname] at h
      cases name <;> cases h
    | some name' =>
      rw [hname] at h
      exact (peeked_inj h).symm
  · cases name <;> cases h

/-- A header longer than the buffer may get is never read. -/
theorem peek_of_long_header (h : headerLen trusted s = some len) (hlong : peekCap < len)
    {reads : List Bytes} (hreads : reads.flatten = s) :
    peek proto (.start trusted via) reads = .overCap := by
  have hfeed : ∀ (reads : List Bytes) (seen : Bytes), seen ++ reads.flatten = s →
      headerLen trusted seen = none → feed (ask trusted via proto) seen reads = some .overCap := by
    intro reads
    induction reads with
    | nil =>
      intro seen hs hnone
      rw [List.flatten_nil, List.append_nil] at hs
      rw [hs, h] at hnone
      cases hnone
    | cons bytes reads ih =>
      intro seen hs hnone
      rw [List.flatten_cons, ← List.append_assoc] at hs
      have hbuf : (after trusted via seen).buf = seen := by
        rw [after_of_not_headerRead]
        rw [Bool.eq_false_iff, ne_eq, headerRead_iff, hnone]
        simp
      by_cases hcap : peekCap < (seen ++ bytes).length
      · refine feed_cons_of_some ?_ reads
        unfold ask
        rw [hbuf, if_pos hcap]
      · have hp : seen ++ bytes <+: s := ⟨reads.flatten, hs⟩
        have hnext : headerLen trusted (seen ++ bytes) = none := by
          cases hlen : headerLen trusted (seen ++ bytes) with
          | none => rfl
          | some n =>
            have hsame := headerLen_prefix hlen hp
            rw [h] at hsame
            cases hsame
            exact absurd (headerLen_le hlen) (by omega)
        rw [feed_cons_of_none]
        · exact ih _ hs hnext
        · unfold ask
          rw [hbuf, if_neg hcap]
          exact decided_of_headerLen_none h hp hnext
  have hstart : headerLen trusted [] = none := by
    cases trusted with
    | true => rfl
    | false =>
      cases h
      exact absurd hlong (by decide)
  rw [peek_start, hfeed reads [] (by rw [List.nil_append, hreads]) hstart]
  rfl

end Streams

/-! ## Requests with a late blank line -/

section Late

variable {trusted : Bool} {via : Option SocketAddr} {s p : Bytes} {len i : ℕ} {host : Text}
  (hlen : headerLen trusted s = some len)
  (hfind : findSubsequence crlfCrlf (s.drop len) = some i)

include hlen hfind

/-- Not too long yet. -/
theorem decided_early (hi : maxHead ≤ i + 2) (hp : p <+: s) (hle : p.length ≤ len + maxHead) :
    decided trusted via .http p = none := by
  cases hread : headerLen trusted p with
  | none => exact decided_of_headerLen_none hlen hp hread
  | some n =>
    have hsame := headerLen_prefix hread hp
    rw [hlen] at hsame
    cases hsame
    have hshort : (p.drop len).length ≤ maxHead := by
      rw [List.length_drop]
      omega
    have hwait : parseHttpHost (p.drop len) = .incomplete := by
      rcases parseHttpHost_prefix (hp.drop len) with ⟨j, hj, hin, -⟩ | ⟨-, heq⟩
      · rw [hfind] at hj
        cases hj
        omega
      · rw [heq, if_neg (Nat.not_lt.2 hshort)]
    rw [decided_of_headerLen hread]
    simp [nameIn, hwait]

omit hfind in
/-- What is longer has the header in it. -/
theorem headerLen_of_long (hp : p <+: s) (hlong : len + maxHead ≤ p.length) :
    headerLen trusted p = some len := by
  cases hread : headerLen trusted p with
  | none =>
    have hshort := length_lt_of_headerLen hlen hp hread
    have hmax : maxHead = 8192 := rfl
    omega
  | some n =>
    have hsame := headerLen_prefix hread hp
    rw [hlen] at hsame
    exact hsame.symm

/-- Too long, and the blank line is still to come. -/
theorem decided_late (hp : p <+: s) (hlong : len + maxHead < p.length)
    (hshort : p.length < len + (i + 4)) :
    decided trusted via .http p = some (.unnamed (after trusted via s).whose) := by
  have hread := headerLen_of_long hlen hp (Nat.le_of_lt hlong)
  have hwhose : (after trusted via p).whose = (after trusted via s).whose :=
    whose_of_prefix hread hp
  have hno : parseHttpHost (p.drop len) = .notFound := by
    rcases parseHttpHost_prefix (hp.drop len) with ⟨j, hj, hin, -⟩ | ⟨-, heq⟩
    · rw [hfind] at hj
      cases hj
      rw [List.length_drop] at hin
      omega
    · rw [heq, if_pos]
      rw [List.length_drop]
      omega
  rw [decided_of_headerLen hread, ← hwhose]
  simp [nameIn, hno, Whose.peeked]

/-- The blank line is there. -/
theorem decided_whole (hi : maxHead ≤ i + 2) (hhost : parseHttpHost (s.drop len) = .found host)
    (hp : p <+: s) (hlong : len + (i + 4) ≤ p.length) :
    decided trusted via .http p = some (.host (after trusted via s).whose host) := by
  have hread := headerLen_of_long hlen hp (by omega)
  have hwhose : (after trusted via p).whose = (after trusted via s).whose :=
    whose_of_prefix hread hp
  have hfound : parseHttpHost (p.drop len) = .found host := by
    rcases parseHttpHost_prefix (hp.drop len) with ⟨j, -, -, heq⟩ | ⟨hlate, -⟩
    · rw [heq, hhost]
    · have hlt := hlate i hfind
      rw [List.length_drop] at hlt
      omega
  rw [decided_of_headerLen hread, ← hwhose]
  simp [nameIn, hfound, Whose.peeked]

/-- So late that every way of reading has a buffer that is too long before it. -/
theorem peek_of_far (hfar : maxHead + readSize < i + 4) {reads : List Bytes}
    (hreads : Cut readSize s reads) (hcap : peek .http (.start trusted via) reads ≠ .overCap) :
    peek .http (.start trusted via) reads = .unnamed (after trusted via s).whose := by
  have hi : maxHead ≤ i + 2 := by
    have hsize : readSize = 4096 := rfl
    omega
  have hend : len + (i + 4) ≤ s.length := by
    have hle := (findSubsequence_append_of_some hfind []).2
    have hfour : crlfCrlf.length = 4 := rfl
    rw [List.length_drop] at hle
    omega
  have hfeed : ∀ (reads : List Bytes) (seen : Bytes), (∀ c ∈ reads, c.length ≤ readSize) →
      seen ++ reads.flatten = s → seen.length ≤ len + maxHead →
      feed (ask trusted via .http) seen reads ≠ some .overCap →
      feed (ask trusted via .http) seen reads = some (.unnamed (after trusted via s).whose) := by
    intro reads
    induction reads with
    | nil =>
      intro seen _ hs hseen _
      rw [List.flatten_nil, List.append_nil] at hs
      rw [hs] at hseen
      omega
    | cons bytes reads ih =>
      intro seen hsizes hs hseen hbad
      rw [List.flatten_cons, ← List.append_assoc] at hs
      have hp : seen ++ bytes <+: s := ⟨reads.flatten, hs⟩
      have hsize := hsizes bytes List.mem_cons_self
      rcases ask_cases seen bytes with hask | hask
      · by_cases hlong : len + maxHead < (seen ++ bytes).length
        · refine feed_cons_of_some (hask.trans ?_) reads
          refine decided_late hlen hfind hp hlong ?_
          rw [List.length_append]
          omega
        · have hnone := hask.trans (decided_early hlen hfind hi hp (Nat.not_lt.1 hlong))
          rw [feed_cons_of_none hnone] at hbad ⊢
          exact ih _ (fun c hc => hsizes c (List.mem_cons_of_mem _ hc)) hs (Nat.not_lt.1 hlong) hbad
      · exact absurd (feed_cons_of_some hask reads) hbad
  rw [peek_start] at hcap ⊢
  rw [hfeed reads [] hreads.length_le (by rw [List.nil_append, hreads.flatten]) (by simp)]
  · rfl
  · intro hbad
    rw [hbad] at hcap
    exact hcap rfl

/-- Read byte by byte, nothing is decided before the buffer is too long. -/
theorem feed_singles (hi : maxHead ≤ i + 2) (hheader : len ≤ peekCap) (reads : List Bytes) :
    feed (ask trusted via .http) []
        ((s.take (len + maxHead)).map (fun x => [x]) ++ reads) =
      feed (ask trusted via .http) (s.take (len + maxHead)) reads := by
  have hsmall : maxHead ≤ peekCap := by decide
  have hflatten : ((s.take (len + maxHead)).map fun x => [x]).flatten = s.take (len + maxHead) :=
    (cut_singles (by decide : 0 < 1) _).flatten
  rw [feed_undecided, hflatten, List.nil_append]
  intro p c hc hp _
  obtain ⟨x, -, rfl⟩ := List.mem_map.1 hc
  rw [List.nil_append, hflatten] at hp
  have hwhole : p ++ [x] <+: s := hp.trans (List.take_prefix ..)
  have hlength : (p ++ [x]).length ≤ len + maxHead :=
    hp.length_le.trans (List.length_take_le _ _)
  rw [List.length_append, List.length_singleton] at hlength
  have hbuf : ¬ peekCap < ((after trusted via p).buf ++ [x]).length := by
    rw [List.length_append, List.length_singleton]
    cases hread : headerLen trusted p with
    | some n =>
      have hsame := headerLen_prefix hread ((List.prefix_append p [x]).trans hwhole)
      rw [hlen] at hsame
      cases hsame
      rw [buf_after hread, List.length_drop]
      omega
    | none =>
      have hshort := length_lt_of_headerLen hlen ((List.prefix_append p [x]).trans hwhole) hread
      have hnot : (after trusted via p).headerRead = false := by
        rw [Bool.eq_false_iff, ne_eq, headerRead_iff, hread]
        simp
      rw [after_of_not_headerRead hnot]
      have htwelve : 12 ≤ peekCap := by decide
      show ¬ peekCap < p.length + 1
      omega
  unfold ask
  rw [if_neg hbuf]
  refine decided_early hlen hfind hi hwhole ?_
  rw [List.length_append, List.length_singleton]
  exact hlength

/-- From there on one read decides. -/
theorem peek_of_read {mid : Bytes} {reads : List Bytes} {done : Peeked} (hi : maxHead ≤ i + 2)
    (hheader : len ≤ peekCap) (hmid : maxHead + mid.length ≤ peekCap)
    (hlength : len + maxHead ≤ s.length)
    (hdone : decided trusted via .http (s.take (len + maxHead) ++ mid) = some done) :
    peek .http (.start trusted via)
      ((s.take (len + maxHead)).map (fun x => [x]) ++ mid :: reads) = done := by
  have hread : headerLen trusted (s.take (len + maxHead)) = some len := by
    refine headerLen_of_long hlen (List.take_prefix ..) ?_
    rw [List.length_take_of_le hlength]
  have hask : ask trusted via .http (s.take (len + maxHead)) mid = some done := by
    unfold ask
    rw [if_neg, hdone]
    rw [buf_after hread, List.length_append, List.length_drop, List.length_take_of_le hlength]
    omega
  rw [peek_start, feed_singles hlen hfind hi hheader, feed_cons_of_some hask]
  rfl

end Late

/-! ## All streams -/

/-- Every two ways of reading the stream that stay within the cap end the same way. -/
def CutsAgree (trusted : Bool) (via : Option SocketAddr) (proto : Protocol) (s : Bytes) : Prop :=
  ∀ reads reads', Cut readSize s reads → Cut readSize s reads' →
    peek proto (.start trusted via) reads ≠ .overCap →
    peek proto (.start trusted via) reads' ≠ .overCap →
      peek proto (.start trusted via) reads = peek proto (.start trusted via) reads'

/-- A request with a host, behind a header that can be read, whose blank line is late enough
for a buffer to be too long before it, and early enough for one read to get there. -/
def Straddles (trusted : Bool) (proto : Protocol) (s : Bytes) : Prop :=
  proto = .http ∧ ∃ len i host, headerLen trusted s = some len ∧ len ≤ peekCap ∧
    findSubsequence crlfCrlf (s.drop len) = some i ∧ maxHead ≤ i + 2 ∧
    i + 4 ≤ maxHead + readSize ∧ parseHttpHost (s.drop len) = .found host

theorem cutsAgree_of_not_straddles {trusted : Bool} {via : Option SocketAddr} {proto : Protocol}
    {s : Bytes} (h : ¬ Straddles trusted proto s) : CutsAgree trusted via proto s := by
  intro reads reads' hreads hreads' hcap hcap'
  by_cases hstable : ∀ len, headerLen trusted s = some len → StableOn (nameIn proto) (s.drop len)
  · rw [peek_of_stableOn (stableOn_decided hstable) hreads.flatten hcap,
      peek_of_stableOn (stableOn_decided hstable) hreads'.flatten hcap']
  · push Not at hstable
    obtain ⟨len, hlen, hunstable⟩ := hstable
    cases proto with
    | tls => exact absurd (stableOn_tls _) hunstable
    | http =>
      obtain ⟨i, host, hfind, hi, hhost⟩ : LateHead (s.drop len) := by
        by_contra hlate
        exact hunstable (stableOn_http hlate)
      by_cases hlong : peekCap < len
      · exact absurd (peek_of_long_header hlen hlong hreads.flatten) hcap
      · have hfar : maxHead + readSize < i + 4 := by
          by_contra hnear
          exact h ⟨rfl, len, i, host, hlen, Nat.not_lt.1 hlong, hfind, hi, Nat.not_lt.1 hnear, hhost⟩
        rw [peek_of_far hlen hfind hfar hreads hcap, peek_of_far hlen hfind hfar hreads' hcap']

/-- Byte by byte the request has none, and with one read up to its blank line it has its host. -/
theorem cuts_of_straddles {trusted : Bool} {proto : Protocol} {s : Bytes}
    (h : Straddles trusted proto s) (via : Option SocketAddr) :
    ∃ reads reads' host, Cut readSize s reads ∧ Cut readSize s reads' ∧
      peek proto (.start trusted via) reads = .unnamed (after trusted via s).whose ∧
      peek proto (.start trusted via) reads' = .host (after trusted via s).whose host := by
  obtain ⟨rfl, len, i, host, hlen, hheader, hfind, hi, hnear, hhost⟩ := h
  have hend : len + (i + 4) ≤ s.length := by
    have hle := (findSubsequence_append_of_some hfind []).2
    have hfour : crlfCrlf.length = 4 := rfl
    rw [List.length_drop] at hle
    have hbehind := headerLen_le hlen
    omega
  have hsize : readSize = 4096 := rfl
  have hhead : maxHead = 8192 := rfl
  have hcap : peekCap = 16384 := rfl
  have hpieces : ∀ n, s = s.take (len + maxHead) ++
      ((s.drop (len + maxHead)).take n ++ (s.drop (len + maxHead)).drop n) := by
    intro n
    rw [List.take_append_drop, List.take_append_drop]
  have hmid : ∀ n, n ≤ i + 4 - maxHead → ((s.drop (len + maxHead)).take n).length = n := by
    intro n hn
    refine List.length_take_of_le ?_
    rw [List.length_drop]
    omega
  have hupto : ∀ n, s.take (len + maxHead) ++ (s.drop (len + maxHead)).take n =
      s.take (len + maxHead + n) := fun n => (List.take_add ..).symm
  -- a read of `n` bytes once nothing more may come
  have hcut : ∀ n, 0 < n → n ≤ i + 4 - maxHead → Cut readSize s
      ((s.take (len + maxHead)).map (fun x => [x]) ++ (s.drop (len + maxHead)).take n ::
        ((s.drop (len + maxHead)).drop n).map fun x => [x]) := by
    intro n hpos hn
    have hne : (s.drop (len + maxHead)).take n ≠ [] := by
      rw [← List.length_pos_iff, hmid n hn]
      exact hpos
    have hcut := (cut_singles (by decide : 0 < readSize) (s.take (len + maxHead))).append
      ((cut_single hne (by rw [hmid n hn]; omega)).append
        (cut_singles (by decide : 0 < readSize) ((s.drop (len + maxHead)).drop n)))
    rw [← hpieces n] at hcut
    exact hcut
  refine ⟨_, _, host, hcut 1 (by omega) (by omega), hcut (i + 4 - maxHead) (by omega) le_rfl, ?_, ?_⟩
  · refine peek_of_read hlen hfind hi hheader (by rw [hmid 1 (by omega)]; omega) (by omega) ?_
    rw [hupto]
    refine decided_late hlen hfind (List.take_prefix ..) ?_ ?_
    · rw [List.length_take_of_le (by omega)]
      omega
    · rw [List.length_take_of_le (by omega)]
      omega
  · refine peek_of_read hlen hfind hi hheader (by rw [hmid _ le_rfl]; omega) (by omega) ?_
    rw [hupto]
    refine decided_whole hlen hfind hi hhost (List.take_prefix ..) ?_
    rw [List.length_take_of_le (by omega)]
    omega

/-- **How the bytes arrive.**  The ways of reading a stream agree if and only if it is not such
a request.  The parsers of the PROXY header and of the ClientHello give no answer that more
bytes would change, and that of the request none if the blank line is not late. -/
theorem cuts_agree_iff (trusted : Bool) (via : Option SocketAddr) (proto : Protocol) (s : Bytes) :
    (CutsAgree trusted via proto s ↔ ¬ Straddles trusted proto s) ∧
    (∀ more, Header.parse s ≠ .incomplete → Header.parse (s ++ more) = Header.parse s) ∧
    (∀ more, parseSni s ≠ .incomplete → parseSni (s ++ more) = parseSni s) ∧
    ((∀ p, p <+: s → parseHttpHost p ≠ .incomplete → parseHttpHost s = parseHttpHost p) ↔
      ¬ LateHead s) := by
  refine ⟨⟨fun hagree hstraddles => ?_, cutsAgree_of_not_straddles⟩,
    fun more h => Header.parse_append h more, fun more h => parseSni_append h more,
    parseHttpHost_stable_iff s⟩
  obtain ⟨reads, reads', host, hreads, hreads', hnone, hhost⟩ := cuts_of_straddles hstraddles via
  have heq := hagree reads reads' hreads hreads' (by rw [hnone]; simp) (by rw [hhost]; simp)
  rw [hnone, hhost] at heq
  cases heq

namespace Cookies

def requestLine : Text := "GET / HTTP/1.1".toList

def host : Text := "Host: a.example".toList

/-- A cookie of 9000 bytes. -/
def cookie : Text := "Cookie: ".toList ++ List.replicate 9000 'a'

/-- A request with the cookie behind its `Host`. -/
def request : Request := ⟨requestLine, [], "Host".toList, [cookie], []⟩

def value : Text := " a.example".toList

theorem lines_request : request.lines value = [requestLine, host, cookie] := by
  have hline : "Host".toList ++ ':' :: value = host := by decide
  unfold Request.lines request
  rw [List.nil_append, hline]

theorem isLine_cookie : IsLine cookie := by
  have hnot : ∀ c, c ≠ 'a' → c ∉ "Cookie: ".toList → c ∉ cookie := by
    intro c hne hc hmem
    rcases List.mem_append.1 hmem with hmem | hmem
    · exact hc hmem
    · exact hne (List.eq_of_mem_replicate hmem)
  have hname : "Cookie: ".toList ≠ [] := by simp
  exact ⟨List.append_ne_nil_of_left_ne_nil hname _,
    hnot _ (by decide) (by decide), hnot _ (by decide) (by decide)⟩

theorem valid : request.Valid value where
  http := by decide
  lines := by
    intro l hl
    rw [lines_request] at hl
    simp only [List.mem_cons, List.not_mem_nil, or_false] at hl
    rcases hl with rfl | rfl | rfl
    · exact ⟨by decide, by decide, by decide⟩
    · exact ⟨by decide, by decide, by decide⟩
    · exact isLine_cookie
  earlier := fun l hl => by cases hl
  colon := by decide
  field := by decide

theorem byteLen_cookie : cookie.byteLen = 9008 := by
  unfold cookie Text.byteLen
  rw [List.map_append, List.sum_append, List.map_replicate, List.sum_replicate_nat]
  decide

/-- The blank line starts at 9041. -/
theorem blank_line : findSubsequence crlfCrlf (request.encode value) = some 9041 := by
  have hne : request.lines value ≠ [] := by
    rw [lines_request]
    simp
  have hlength : (joinCrlf (request.lines value)).toBytes.length = 9041 := by
    have hpre : (requestLine ++ '\r' :: '\n' :: (host ++ ['\r', '\n'])).byteLen = 33 := by
      decide
    have hjoin : joinCrlf [requestLine, host, cookie] =
        (requestLine ++ '\r' :: '\n' :: (host ++ ['\r', '\n'])) ++ cookie := by
      simp [joinCrlf]
    have hsum : ∀ a b : Text, Text.byteLen (a ++ b) = a.byteLen + b.byteLen := by
      intro a b
      simp [Text.byteLen]
    rw [length_toBytes, lines_request, hjoin, hsum, hpre, byteLen_cookie]
  have hfind := findSubsequence_joinCrlf hne valid.lines request.body
  rw [hlength] at hfind
  exact hfind

theorem straddles : Straddles false .http (request.encode value) := by
  refine ⟨rfl, 0, 9041, hostWithoutPort value, rfl, Nat.zero_le _, ?_, by decide, by decide, ?_⟩
  · exact blank_line
  · exact parseHttpHost_encode valid (by decide)

end Cookies

/-- Read in one way the request is dropped, read in another it has its host. -/
theorem cookies_disagree :
    ¬ CutsAgree false none .http (Cookies.request.encode Cookies.value) := by
  intro hagree
  obtain ⟨reads, reads', host, hreads, hreads', hnone, hhost⟩ :=
    cuts_of_straddles Cookies.straddles none
  have heq := hagree reads reads' hreads hreads' (by rw [hnone]; simp) (by rw [hhost]; simp)
  rw [hnone, hhost] at heq
  cases heq

end Ferrite.Proxy
