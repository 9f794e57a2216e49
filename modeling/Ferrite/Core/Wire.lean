import Ferrite.Lib.Bytes
import Ferrite.Core.Text

/-!
# DNS messages on the wire

`core/src/wire.rs`: reading and patching a message where it lies.  A
`RecordCursor` steps through the record sections; `walk` is the loop every reader
runs over it, as the list of records it yields and whether it came to a clean end.
The loops of the source have no bound of their own.  Here a name is read with one
unit of fuel for each byte of the message, which is enough because every round
moves on, and the record loop ends with the records the header announces.
-/

namespace Ferrite.Wire

open Bytes

/-- The fixed DNS header. -/
def headerLen : ℕ := 12

def typeOpt : UInt16 := 41
def typeSoa : UInt16 := 6
def typeCname : UInt16 := 5

/-- EDNS option code for Client Subnet. -/
def optCodeEcs : UInt16 := 8

/-- The fixed part of a record after the name. -/
def rrFixedLen : ℕ := 10

/-- MNAME and RNAME as pointers plus five 32-bit fields. -/
def soaMinRdata : ℕ := 22

/-- The UDP answer size without EDNS0. -/
def minUdpPayload : ℕ := 512

/-! ## The question -/

/-- The loop of `question_end`: past the labels of the first question's name. -/
def questionNameEnd (msg : Bytes) : ℕ → ℕ → Option ℕ
  | 0, _ => none
  | fuel + 1, i =>
    match msg[i]? with
    | none => none
    | some len =>
      if len = 0 then some (i + 1)
      -- a compression pointer may not stand in a question name
      else if len &&& 0xC0 ≠ 0 then none
      else if msg.length < i + 1 + len.toNat then none
      else questionNameEnd msg fuel (i + 1 + len.toNat)

/-- `question_end`: the offset just past the first question. -/
def questionEnd (msg : Bytes) : Option ℕ :=
  if msg.length < headerLen then none
  else if msg.readU16 4 = 0 then none
  else
    match questionNameEnd msg (msg.length + 1) headerLen with
    | none => none
    | some i => if i + 4 ≤ msg.length then some (i + 4) else none

/-- `opcode`. -/
def opcode (msg : Bytes) : Option UInt8 :=
  msg[2]?.map fun flags : UInt8 => (flags >>> 3) &&& 0x0F

/-- `set_id`. -/
def setId (msg : Bytes) (id : UInt16) : Bytes :=
  if 2 ≤ msg.length then msg.overwrite 0 (ofU16 id) else msg

/-! ## Walking the records -/

/-- The loop of `skip_name`. -/
def skipNameFrom (msg : Bytes) : ℕ → ℕ → Option ℕ
  | 0, _ => none
  | fuel + 1, i =>
    match msg[i]? with
    | none => none
    | some len =>
      if len &&& 0xC0 = 0 then
        if len = 0 then some (i + 1)
        else if msg.length < i + 1 + len.toNat then none
        else skipNameFrom msg fuel (i + 1 + len.toNat)
      -- a pointer ends the name
      else if len &&& 0xC0 = 0xC0 then
        if i + 1 < msg.length then some (i + 2) else none
      else none

/-- `skip_name`: the offset just past the name. -/
def skipName (msg : Bytes) (i : ℕ) : Option ℕ := skipNameFrom msg (msg.length + 1) i

/-- The section a record was found in. -/
inductive Section where
  | answer
  | authority
  | additional
deriving DecidableEq, Repr

/-- One record, located rather than decoded. -/
structure RecordRef where
  inSection : Section
  rtype : UInt16
  class' : UInt16
  ttlOff : ℕ
  rdataOff : ℕ
  rdataLen : ℕ
deriving DecidableEq, Repr

/-- A cursor: where the next record starts and how many are left in each section. -/
structure RecordCursor where
  pos : ℕ
  answers : ℕ
  authorities : ℕ
  additionals : ℕ
deriving DecidableEq, Repr

/-- What a cursor step produced. -/
inductive Step where
  | record (r : RecordRef)
  | done
  | malformed
deriving DecidableEq, Repr

namespace RecordCursor

/-- The loop of `RecordCursor::new` over the questions. -/
def skipQuestions (msg : Bytes) : ℕ → ℕ → Option ℕ
  | 0, i => some i
  | n + 1, i =>
    match skipName msg i with
    | none => none
    | some j => if msg.length < j + 4 then none else skipQuestions msg n (j + 4)

/-- `RecordCursor::new`. -/
def new (msg : Bytes) : Option RecordCursor :=
  if msg.length < headerLen then none
  else
    (skipQuestions msg (msg.readU16 4).toNat headerLen).map fun i =>
      ⟨i, (msg.readU16 6).toNat, (msg.readU16 8).toNat, (msg.readU16 10).toNat⟩

/-- The records left to visit. -/
def left (c : RecordCursor) : ℕ := c.answers + c.authorities + c.additionals

/-- The section of the next record, and the counts once it is visited. -/
def pop (c : RecordCursor) : Option (Section × RecordCursor) :=
  match c.answers, c.authorities, c.additionals with
  | n + 1, _, _ => some (.answer, { c with answers := n })
  | 0, n + 1, _ => some (.authority, { c with authorities := n })
  | 0, 0, n + 1 => some (.additional, { c with additionals := n })
  | 0, 0, 0 => none

end RecordCursor

/-- The record that starts at `i`, and where it ends. -/
def readRecord (msg : Bytes) (sec : Section) (i : ℕ) : Option (RecordRef × ℕ) :=
  match skipName msg i with
  | none => none
  | some afterName =>
    let rdataOff := afterName + rrFixedLen
    if msg.length < rdataOff then none
    else
      let rdataLen := (msg.readU16 (afterName + 8)).toNat
      if msg.length < rdataOff + rdataLen then none
      else some (⟨sec, msg.readU16 afterName, msg.readU16 (afterName + 2), afterName + 4,
        rdataOff, rdataLen⟩, rdataOff + rdataLen)

/-- `RecordCursor::next`. -/
def RecordCursor.next (msg : Bytes) (c : RecordCursor) : Step × RecordCursor :=
  match c.pop with
  | none => (.done, c)
  | some (sec, c') =>
    match readRecord msg sec c.pos with
    | none => (.malformed, c')
    | some (r, stop) => (.record r, { c' with pos := stop })

/-- The loop over a cursor with `n` records left: the records it yields, and whether
it ends in `done`. -/
def walkFrom (msg : Bytes) : ℕ → RecordCursor → List RecordRef × Bool
  | 0, _ => ([], true)
  | n + 1, c =>
    match c.next msg with
    | (.record r, c') => (r :: (walkFrom msg n c').1, (walkFrom msg n c').2)
    | (.done, _) => ([], true)
    | (.malformed, _) => ([], false)

/-- The walk over a whole message; `none` when the header or a question is malformed. -/
def walk (msg : Bytes) : Option (List RecordRef × Bool) :=
  (RecordCursor.new msg).map fun c => walkFrom msg c.left c

/-- `is_well_formed`: every section walks cleanly to its end. -/
def isWellFormed (msg : Bytes) : Bool := (walk msg).any fun w => w.2

/-! ## Reading facts off a message -/

/-- An OPT pseudo-record where EDNS0 has it. -/
def RecordRef.isEdns (r : RecordRef) : Bool := r.rtype = typeOpt && r.inSection = .additional

/-- `rcode`: the header's four bits and the extended ones of the last OPT record. -/
def rcode (msg : Bytes) : Option UInt8 :=
  if msg.length < headerLen then none
  else
    match walk msg with
    | some (rs, true) =>
      let low := (msg.byteAt 3 &&& 0x0F).toNat
      let high := rs.foldl (fun h r => if r.isEdns then (msg.byteAt r.ttlOff).toNat else h) 0
      some (UInt8.ofNat (min (high * 16 + low) 255))
    | _ => none

/-- `udp_payload`: the largest size an OPT record advertises, at least 512. -/
def udpPayload (query : Bytes) : ℕ :=
  match walk query with
  | none => minUdpPayload
  | some (rs, _) =>
    rs.foldl (fun p r => if r.isEdns then max p r.class'.toNat else p) minUdpPayload

/-- The least answer TTL, and the first authority SOA's negative lifetime. -/
def cacheScan (msg : Bytes) (acc : Option UInt32 × Option UInt32) (r : RecordRef) :
    Option UInt32 × Option UInt32 :=
  match r.inSection with
  | .answer =>
    let ttl := msg.readU32 r.ttlOff
    (some (acc.1.elim ttl fun m => min m ttl), acc.2)
  | .authority =>
    if r.rtype = typeSoa ∧ acc.2 = none ∧ soaMinRdata ≤ r.rdataLen then
      (acc.1, some (min (msg.readU32 r.ttlOff) (msg.readU32 (r.rdataOff + r.rdataLen - 4))))
    else acc
  | .additional => acc

/-- `cache_ttl`. -/
def cacheTtl (msg : Bytes) : Option UInt32 :=
  match walk msg with
  | some (rs, true) =>
    let acc := rs.foldl (cacheScan msg) (none, none)
    (acc.1.or acc.2).filter (0 < ·)
  | _ => none

/-! ## Rewriting TTLs -/

/-- The loop of `rewrite_ttls`: the cursor reads the buffer as patched so far. -/
def rewriteFrom (f : UInt32 → Option UInt32) : ℕ → RecordCursor → Bytes → Bytes × Bool
  | 0, _, msg => (msg, false)
  | n + 1, c, msg =>
    match c.next msg with
    | (.record r, c') =>
      if r.rtype = typeOpt then rewriteFrom f n c' msg
      else
        match f (msg.readU32 r.ttlOff) with
        | some new => ((rewriteFrom f n c' (msg.overwrite r.ttlOff (ofU32 new))).1, true)
        | none => rewriteFrom f n c' msg
    | (.done, _) | (.malformed, _) => (msg, false)

/-- `rewrite_ttls`: validate first, then patch; and whether anything was rewritten. -/
def rewriteTtls (msg : Bytes) (f : UInt32 → Option UInt32) : Bytes × Bool :=
  if isWellFormed msg then
    match RecordCursor.new msg with
    | some c => rewriteFrom f c.left c msg
    | none => (msg, false)
  else (msg, false)

/-- `cap_ttls`. -/
def capTtls (msg : Bytes) (maxTtl : UInt32) : Bytes × Bool :=
  rewriteTtls msg fun ttl => if maxTtl < ttl then some maxTtl else none

/-- `set_ttls`. -/
def setTtls (msg : Bytes) (ttl : UInt32) : Bytes × Bool :=
  rewriteTtls msg fun current => if current ≠ ttl then some ttl else none

/-! ## EDNS0 -/

/-- The loop of `has_ecs` over the options up to `stop`. -/
def hasEcsFrom (msg : Bytes) (stop : ℕ) : ℕ → ℕ → Bool
  | 0, _ => false
  | fuel + 1, i =>
    if i + 4 ≤ stop then
      if msg.readU16 i = optCodeEcs then true
      else if i + 4 + (msg.readU16 (i + 2)).toNat ≤ stop then
        hasEcsFrom msg stop fuel (i + 4 + (msg.readU16 (i + 2)).toNat)
      else false
    else false

/-- `has_ecs`: does the RDATA carry a Client Subnet option? -/
def hasEcs (msg : Bytes) (off len : ℕ) : Bool := hasEcsFrom msg (off + len) (len + 1) off

/-- The OPT record of a message, located. -/
structure EdnsRef where
  payloadOff : ℕ
  payload : UInt16
  ttlOff : ℕ
  dnssecOk : Bool
  hasEcs : Bool
deriving DecidableEq, Repr

/-- Result of looking for the OPT record. -/
inductive EdnsScan where
  | opt (o : EdnsRef)
  | none
  | malformed
deriving DecidableEq, Repr

/-- `edns`: the first OPT record of the additional section. -/
def edns (msg : Bytes) : EdnsScan :=
  match walk msg with
  | some (rs, true) =>
    match rs.find? RecordRef.isEdns with
    | some r => .opt ⟨r.ttlOff - 2, r.class', r.ttlOff,
        (msg.byteAt (r.ttlOff + 2) &&& 0x80) != 0, Wire.hasEcs msg r.rdataOff r.rdataLen⟩
    | Option.none => .none
  | _ => .malformed

/-- `set_dnssec_ok`. -/
def setDnssecOk (msg : Bytes) (opt : EdnsRef) (want : Bool) : Bytes :=
  let flags := msg.byteAt (opt.ttlOff + 2)
  msg.overwrite (opt.ttlOff + 2) [if want then flags ||| 0x80 else flags &&& 0x7F]

/-- `set_udp_payload`. -/
def setUdpPayload (msg : Bytes) (opt : EdnsRef) (payload : UInt16) : Bytes :=
  msg.overwrite opt.payloadOff (ofU16 payload)

/-! ## Names -/

/-- `is_plain_label`. -/
def isPlainLabel (label : Bytes) : Bool :=
  let lower := label.map fun b => if 0x41 ≤ b ∧ b ≤ 0x5A then b + 0x20 else b
  !(lower.take 4 == [0x78, 0x6E, 0x2D, 0x2D]) &&
    (lower.mapIdx fun i b => (0x61 ≤ b && b ≤ 0x7A) || (0x30 ≤ b && b ≤ 0x39) || b == 0x5F ||
      (b == 0x2D && 0 < i) || (b == 0x2A && i == 0)).all id

/-- The text of a label, lowercased. -/
def labelText (label : Bytes) : Text := label.map fun b => asciiLower (Char.ofNat b.toNat)

def maxNameJumps : ℕ := 32
def maxNameLen : ℕ := 255

/-- The loop of `read_name_lower`: the text read so far, and the jumps taken. -/
def readNameFrom (msg : Bytes) : ℕ → ℕ → ℕ → Text → Option Text
  | 0, _, _, _ => none
  | fuel + 1, i, jumps, out =>
    match msg[i]? with
    | none => none
    | some len =>
      if len &&& 0xC0 = 0 then
        if len = 0 then some out
        else if msg.length < i + 1 + len.toNat then none
        else
          let label := (msg.drop (i + 1)).take len.toNat
          if !isPlainLabel label then none
          else if maxNameLen < out.length + len.toNat + 1 then none
          else readNameFrom msg fuel (i + 1 + len.toNat) jumps
            (out ++ (if out = [] then [] else ['.']) ++ labelText label)
      else if len &&& 0xC0 = 0xC0 then
        if maxNameJumps < jumps + 1 then none
        else
          match msg[i + 1]? with
          | none => none
          | some lo =>
            let dest := (len &&& 0x3F).toNat * 256 + lo.toNat
            if i ≤ dest then none else readNameFrom msg fuel dest (jumps + 1) out
      else none

/-- `read_name_lower`.  A name takes at most one round for each of its 255
characters and one for each jump. -/
def readNameLower (msg : Bytes) (i : ℕ) : Option Text :=
  readNameFrom msg (maxNameLen + maxNameJumps + 2) i 0 []

/-- What reading the first question produced. -/
inductive QuestionScan where
  | found (name : Text) (qtype : UInt16)
  | unsupported
  | missing
deriving DecidableEq, Repr

/-- `question`. -/
def question (msg : Bytes) : QuestionScan :=
  if msg.length < headerLen ∨ msg.readU16 4 = 0 then .missing
  else
    match readNameLower msg headerLen, questionEnd msg with
    | none, some _ => .unsupported
    | none, none => .missing
    | some _, none => .missing
    | some name, some stop => .found name (msg.readU16 (stop - 4))

/-- Outcome of scanning the answer section for CNAME targets. -/
inductive CnameScan where
  | noMatch
  | matched (target : Text)
  | unsupported
deriving DecidableEq, Repr

/-- The loop of `find_cname_target` over the records visited. -/
def findCnameIn (msg : Bytes) (pred : Text → Bool) : List RecordRef → CnameScan
  | [] => .noMatch
  | r :: rs =>
    if r.rtype = typeCname ∧ r.inSection = .answer then
      match readNameLower msg r.rdataOff with
      | some target => if pred target then .matched target else findCnameIn msg pred rs
      | none => .unsupported
    else findCnameIn msg pred rs

/-- `find_cname_target`. -/
def findCnameTarget (msg : Bytes) (pred : Text → Bool) : CnameScan :=
  match walk msg with
  | none => .noMatch
  | some (rs, _) => findCnameIn msg pred rs

end Ferrite.Wire
