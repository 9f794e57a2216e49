import Ferrite.Core.Utf8
import Ferrite.Lib.LittleEndian
import Ferrite.Lib.Staged

/-!
# Reading archives

`api/src/import/zip.rs`: the central directory of a ZIP archive, and its stored and deflated
entries.  The decoder of the `flate2` crate is a parameter.

* `read_eq_ok` — what is read is the whole data of the entry;
* `entries_archive`, `read_entriesOf` — an archive as a writer makes it is read back;
* `archive_read_whole` — both together.
-/

namespace Ferrite.Api.Zip

open LittleEndian

/-! ## The reader -/

/-- `MAX_ENTRY`. -/
def maxEntry : ℕ := 64 * 1024 * 1024

/-- `Entry`. -/
structure Entry where
  name : Text
  method : ℕ
  compressed : ℕ
  uncompressed : ℕ
  localOffset : ℕ
deriving DecidableEq

/-- `PK\x01\x02`, at every entry of the directory. -/
def centralSig : Bytes := [0x50, 0x4B, 1, 2]

/-- `PK\x03\x04`, in front of every file. -/
def localSig : Bytes := [0x50, 0x4B, 3, 4]

/-- `PK\x05\x06`, at the end of the directory. -/
def endSig : Bytes := [0x50, 0x4B, 5, 6]

/-- `ok_or`. -/
def okOr {A : Type} (a : Option A) (error : Text) : Except Text A := a.elim (.error error) .ok

/-- `u16_at`. -/
def u16At (data : Bytes) (off : ℕ) : Except Text ℕ :=
  okOr (leAt 2 data off) "the archive is cut short".toList

/-- `u32_at`. -/
def u32At (data : Bytes) (off : ℕ) : Except Text ℕ :=
  okOr (leAt 4 data off) "the archive is cut short".toList

/-- What stops the reading of a directory. -/
def damaged : Text := "the archive's directory is damaged".toList

/-- The last signature of an end of a directory, in the last 64 KiB. -/
def findEnd (data : Bytes) : Option ℕ :=
  let tailFrom := data.length - (22 + 0xFFFF)
  (List.range' tailFrom (data.length - 21 - tailFrom)).reverse.find? fun i =>
    endSig.isPrefixOf (data.drop i)

/-- The entries of the directory from an offset on. -/
def entriesFrom (data : Bytes) : (count off : ℕ) → Except Text (List Entry)
  | 0, _ => .ok []
  | count + 1, off =>
    if ¬ centralSig <+: data.drop off then .error damaged
    else do
      let flags ← u16At data (off + 8)
      if flags % 2 ≠ 0 then .error "encrypted archives aren't supported".toList
      else
        let nameLen ← u16At data (off + 28)
        let extraLen ← u16At data (off + 30)
        let commentLen ← u16At data (off + 32)
        let name ← okOr (slice data (off + 46) nameLen) damaged
        let method ← u16At data (off + 10)
        let compressed ← u32At data (off + 20)
        let uncompressed ← u32At data (off + 24)
        let localOffset ← u32At data (off + 42)
        let rest ← entriesFrom data count (off + (46 + nameLen + extraLen + commentLen))
        return ⟨fromUtf8Lossy name, method, compressed, uncompressed, localOffset⟩ :: rest

/-- `entries`. -/
def entries (data : Bytes) : Except Text (List Entry) := do
  let eocd ← okOr (findEnd data) "not a ZIP archive".toList
  let count ← u16At data (eocd + 10)
  let cdOffset ← u32At data (eocd + 16)
  if count = 0xFFFF ∨ cdOffset = 0xFFFFFFFF then
    .error "ZIP64 archives aren't supported".toList
  else entriesFrom data count cdOffset

/-- What a decoder makes of some data: what it gives, and how it fails behind that. -/
structure Inflated where
  out : Bytes
  error : Option Text
deriving DecidableEq

/-- `take(limit).read_to_end`: a failure behind the limit is not seen. -/
def Inflated.readToEnd (i : Inflated) (limit : ℕ) : Except Text Bytes :=
  if limit ≤ i.out.length then .ok (i.out.take limit)
  else i.error.elim (.ok i.out) .error

/-- `read`, with the decoder of `flate2`. -/
def read (inflate : Bytes → Inflated) (data : Bytes) (entry : Entry) : Except Text Bytes :=
  if maxEntry < entry.uncompressed then
    .error (entry.name ++ " is too large to import".toList)
  else if ¬ localSig <+: data.drop entry.localOffset then
    .error (entry.name ++ " is damaged in the archive".toList)
  else do
    let nameLen ← u16At data (entry.localOffset + 26)
    let extraLen ← u16At data (entry.localOffset + 28)
    let start := entry.localOffset + (30 + nameLen + extraLen)
    let raw ← okOr (slice data start entry.compressed)
      (entry.name ++ " is cut short in the archive".toList)
    if entry.method = 0 then return raw
    else if entry.method = 8 then
      match (inflate raw).readToEnd (maxEntry + 1) with
      | .error e => .error (entry.name ++ " won't decompress: ".toList ++ e)
      | .ok out =>
        if maxEntry < out.length then .error (entry.name ++ " is too large to import".toList)
        else return out
    else .error (entry.name ++ " uses compression method ".toList ++ Nat.toDigits 10 entry.method)

/-! ## What is read -/

theorem okOr_eq_ok {A : Type} {a : Option A} {error : Text} {b : A} :
    okOr a error = .ok b ↔ a = some b := by
  cases a with
  | none => exact ⟨nofun, nofun⟩
  | some a =>
    exact ⟨fun h => congrArg some (Except.ok.inj h), fun h => congrArg _ (Option.some.inj h)⟩

theorem readToEnd_eq_ok {i : Inflated} {limit : ℕ} {out : Bytes}
    (h : i.readToEnd (limit + 1) = .ok out) (hlimit : out.length ≤ limit) : i = ⟨out, none⟩ := by
  obtain ⟨bytes, error⟩ := i
  unfold Inflated.readToEnd at h
  split at h
  · next hlong =>
    -- the reading stopped at the limit, which is more than there may be
    cases h
    rw [List.length_take] at hlimit
    omega
  · cases error with
    | none =>
      cases h
      rfl
    | some e => cases h

/-- **What is read is the whole data of the entry**: as it is stored, or all that the decoder
gives, without a failure. -/
theorem read_eq_ok {inflate : Bytes → Inflated} {data contents : Bytes} {entry : Entry}
    (h : read inflate data entry = .ok contents) :
    entry.uncompressed ≤ maxEntry ∧ ∃ start raw, slice data start entry.compressed = some raw ∧
      ((entry.method = 0 ∧ contents = raw) ∨
        (entry.method = 8 ∧ inflate raw = ⟨contents, none⟩ ∧ contents.length ≤ maxEntry)) := by
  unfold read at h
  split at h
  · cases h
  · next hsize =>
    refine ⟨Nat.not_lt.1 hsize, ?_⟩
    split at h
    · cases h
    · obtain ⟨nameLen, -, h⟩ := bind_eq_ok_iff.1 h
      obtain ⟨extraLen, -, h⟩ := bind_eq_ok_iff.1 h
      obtain ⟨raw, hraw, h⟩ := bind_eq_ok_iff.1 h
      refine ⟨_, raw, okOr_eq_ok.1 hraw, ?_⟩
      split at h
      · next hstored =>
        cases h
        exact .inl ⟨hstored, rfl⟩
      · split at h
        · next hdeflated =>
          split at h
          · cases h
          · next out hout =>
            split at h
            · cases h
            · next hfits =>
              cases h
              exact .inr ⟨hdeflated, readToEnd_eq_ok hout (Nat.not_lt.1 hfits), Nat.not_lt.1 hfits⟩
        · cases h

/-! ## A writer -/

section

variable (inflate : Bytes → Inflated)

/-- How the contents of a file are packed: as they are, or as data the decoder gives them for. -/
inductive Packed (contents : Bytes) where
  | stored
  | deflated (raw : Bytes) (hinflate : inflate raw = ⟨contents, none⟩) (hraw : raw.length < 2 ^ 32)

/-- A file of an archive, within the limits of the fields it is described by.  What the reader
does not look at is anything a writer chooses. -/
structure File where
  name : Text
  contents : Bytes
  packed : Packed inflate contents
  madeBy : ℕ
  needed : ℕ
  flags : ℕ
  stamp : ℕ
  crc : ℕ
  disk : ℕ
  internal : ℕ
  external : ℕ
  localExtra : Bytes
  centralExtra : Bytes
  comment : Bytes
  name_fits : name.toBytes.length < 2 ^ 16
  contents_fit : contents.length ≤ maxEntry
  not_encrypted : flags % 2 = 0 ∧ flags < 2 ^ 16
  localExtra_fits : localExtra.length < 2 ^ 16
  centralExtra_fits : centralExtra.length < 2 ^ 16
  comment_fits : comment.length < 2 ^ 16

variable {inflate}

/-- The compression method. -/
def Packed.method {contents : Bytes} : Packed inflate contents → ℕ
  | stored => 0
  | deflated .. => 8

/-- The data in the archive. -/
def Packed.raw {contents : Bytes} : Packed inflate contents → Bytes
  | stored => contents
  | deflated raw _ _ => raw

/-- The fields in front of a file. -/
def File.localFields (f : File inflate) : List (ℕ × ℕ) :=
  [(4, 0x04034B50), (2, f.needed), (2, f.flags), (2, f.packed.method), (4, f.stamp), (4, f.crc),
    (4, f.packed.raw.length), (4, f.contents.length), (2, f.name.toBytes.length),
    (2, f.localExtra.length)]

/-- A file in an archive. -/
def File.localRecord (f : File inflate) : Bytes :=
  fields f.localFields ++ (f.name.toBytes ++ (f.localExtra ++ f.packed.raw))

/-- The fields of a file in the directory. -/
def File.centralFields (f : File inflate) (offset : ℕ) : List (ℕ × ℕ) :=
  [(4, 0x02014B50), (2, f.madeBy), (2, f.needed), (2, f.flags), (2, f.packed.method),
    (4, f.stamp), (4, f.crc), (4, f.packed.raw.length), (4, f.contents.length),
    (2, f.name.toBytes.length), (2, f.centralExtra.length), (2, f.comment.length), (2, f.disk),
    (2, f.internal), (4, f.external), (4, offset)]

/-- A file in the directory. -/
def File.centralRecord (f : File inflate) (offset : ℕ) : Bytes :=
  fields (f.centralFields offset) ++ (f.name.toBytes ++ (f.centralExtra ++ f.comment))

/-- The entry that describes a file. -/
def File.entry (f : File inflate) (offset : ℕ) : Entry :=
  ⟨f.name, f.packed.method, f.packed.raw.length, f.contents.length, offset⟩

/-- The files, one after another. -/
def localRecords (files : List (File inflate)) : Bytes := files.flatMap File.localRecord

/-- The directory of files of which the first one is at an offset. -/
def directory : (offset : ℕ) → List (File inflate) → Bytes
  | _, [] => []
  | offset, f :: files =>
    f.centralRecord offset ++ directory (offset + f.localRecord.length) files

/-- The entries of the directory. -/
def entriesOf : (offset : ℕ) → List (File inflate) → List Entry
  | _, [] => []
  | offset, f :: files => f.entry offset :: entriesOf (offset + f.localRecord.length) files

/-- The end of the directory. -/
def endRecord (files : List (File inflate)) (comment : Bytes) : Bytes :=
  fields [(4, 0x06054B50), (2, 0), (2, 0), (2, files.length), (2, files.length),
    (4, (directory 0 files).length), (4, (localRecords files).length), (2, comment.length)] ++
    comment

variable (inflate)

/-- An archive that is none of ZIP64, with a comment in which no other end of a directory can
begin. -/
structure Archive where
  files : List (File inflate)
  comment : Bytes
  count_fits : files.length < 0xFFFF
  offset_fits : (localRecords files).length < 0xFFFFFFFF
  comment_fits : comment.length < 2 ^ 16
  last_end : ∀ i, 0 < i → i + 22 ≤ (endRecord files comment).length →
    ¬ endSig <+: (endRecord files comment).drop i

variable {inflate}

/-- An archive as it is written. -/
def Archive.bytes (a : Archive inflate) : Bytes :=
  localRecords a.files ++ (directory 0 a.files ++ endRecord a.files a.comment)

end

/-! ## Fields -/

section

variable {data rest : Bytes} {off n v : ℕ} {fs : List (ℕ × ℕ)}

theorem u16At_fields (h : data.drop off = fields fs ++ rest) (i : ℕ) (hn : width (fs.take i) = n)
    (hi : fs[i]? = some (2, v)) (hv : v < 2 ^ 16) : u16At data (off + n) = .ok v := by
  rw [← hn]
  exact okOr_eq_ok.2 (leAt_fields h i hi (by omega) hv)

theorem u32At_fields (h : data.drop off = fields fs ++ rest) (i : ℕ) (hn : width (fs.take i) = n)
    (hi : fs[i]? = some (4, v)) (hv : v < 2 ^ 32) : u32At data (off + n) = .ok v := by
  rw [← hn]
  exact okOr_eq_ok.2 (leAt_fields h i hi (by omega) hv)

end

variable {inflate : Bytes → Inflated}

/-! ## Files -/

theorem maxEntry_lt : maxEntry < 2 ^ 32 := by decide

theorem Packed.method_lt {contents : Bytes} (packed : Packed inflate contents) :
    packed.method < 2 ^ 16 := by
  cases packed with
  | stored => exact (by decide : 0 < 2 ^ 16)
  | deflated => exact (by decide : 8 < 2 ^ 16)

theorem Packed.raw_fits {contents : Bytes} (h : contents.length ≤ maxEntry)
    (packed : Packed inflate contents) : packed.raw.length < 2 ^ 32 := by
  cases packed with
  | stored => exact h.trans_lt maxEntry_lt
  | deflated raw _ hraw => exact hraw

theorem File.length_localFields (f : File inflate) : (fields f.localFields).length = 30 := by
  simp [File.localFields]

theorem File.length_centralFields (f : File inflate) (off : ℕ) :
    (fields (f.centralFields off)).length = 46 := by
  simp [File.centralFields]

theorem File.length_centralRecord (f : File inflate) (off : ℕ) :
    (f.centralRecord off).length =
      46 + f.name.toBytes.length + f.centralExtra.length + f.comment.length := by
  rw [File.centralRecord, List.length_append, List.length_append, List.length_append,
    f.length_centralFields, ← Nat.add_assoc, ← Nat.add_assoc]

/-- **A file is read back** where its record stands. -/
theorem read_localRecord {f : File inflate} {data rest : Bytes} {off : ℕ}
    (h : data.drop off = f.localRecord ++ rest) :
    read inflate data (f.entry off) = .ok f.contents := by
  have hfields : data.drop off = fields f.localFields ++
      ((f.name.toBytes ++ (f.localExtra ++ f.packed.raw)) ++ rest) := by
    rw [h, File.localRecord, List.append_assoc]
  have hsig : localSig <+: data.drop off := by
    rw [hfields]
    exact ⟨_, rfl⟩
  have hname : u16At data (off + 26) = .ok f.name.toBytes.length :=
    u16At_fields hfields 8 (by simp [File.localFields]) rfl f.name_fits
  have hextra : u16At data (off + 28) = .ok f.localExtra.length :=
    u16At_fields hfields 9 (by simp [File.localFields]) rfl f.localExtra_fits
  have hraw : slice data (off + (30 + f.name.toBytes.length + f.localExtra.length))
      f.packed.raw.length = some f.packed.raw := by
    have hsplit : data.drop off = (fields f.localFields ++ (f.name.toBytes ++ f.localExtra)) ++
        (f.packed.raw ++ rest) := by
      rw [hfields]
      simp only [List.append_assoc]
    have hslice := slice_of_drop hsplit (List.cons_ne_nil _ _)
    rwa [List.length_append, f.length_localFields, List.length_append, ← Nat.add_assoc 30] at hslice
  have hfits := f.contents_fit
  unfold read File.entry
  dsimp only
  rw [if_neg (Nat.not_lt.2 hfits), if_neg (not_not.2 hsig), hname, ok_bind, hextra, ok_bind,
    okOr_eq_ok.2 hraw, ok_bind]
  cases hpacked : f.packed with
  | stored => rfl
  | deflated raw hinflate _ =>
    have hout : (inflate raw).readToEnd (maxEntry + 1) = .ok f.contents := by
      rw [hinflate]
      exact if_neg (by dsimp only; omega)
    simp only [Packed.method, Packed.raw, hout]
    rw [if_neg (by omega), if_pos trivial, if_neg (Nat.not_lt.2 hfits)]
    rfl

/-! ## The directory -/

theorem drop_of_drop {m x rest : Bytes} {off : ℕ} (h : m.drop off = x ++ rest) :
    m.drop (off + x.length) = rest := by
  rw [← List.drop_drop, h, List.drop_left]

/-- **The directory is read back** where it stands. -/
theorem entriesFrom_directory {files : List (File inflate)} {data rest : Bytes} {off pos : ℕ}
    (h : data.drop pos = directory off files ++ rest)
    (hoff : off + (localRecords files).length < 2 ^ 32) :
    entriesFrom data files.length pos = .ok (entriesOf off files) := by
  induction files generalizing off pos with
  | nil => rfl
  | cons f files ih =>
    rw [localRecords, List.flatMap_cons, List.length_append, ← Nat.add_assoc] at hoff
    rw [directory, List.append_assoc] at h
    have hfields : data.drop pos = fields (f.centralFields off) ++
        ((f.name.toBytes ++ (f.centralExtra ++ f.comment)) ++
          (directory (off + f.localRecord.length) files ++ rest)) := by
      rw [h, File.centralRecord, List.append_assoc]
    have hsig : centralSig <+: data.drop pos := by
      rw [hfields]
      exact ⟨_, rfl⟩
    have hflags : u16At data (pos + 8) = .ok f.flags :=
      u16At_fields hfields 3 (by simp [File.centralFields]) rfl f.not_encrypted.2
    have hname : u16At data (pos + 28) = .ok f.name.toBytes.length :=
      u16At_fields hfields 9 (by simp [File.centralFields]) rfl f.name_fits
    have hextra : u16At data (pos + 30) = .ok f.centralExtra.length :=
      u16At_fields hfields 10 (by simp [File.centralFields]) rfl f.centralExtra_fits
    have hcomment : u16At data (pos + 32) = .ok f.comment.length :=
      u16At_fields hfields 11 (by simp [File.centralFields]) rfl f.comment_fits
    have hbytes : slice data (pos + 46) f.name.toBytes.length = some f.name.toBytes := by
      rw [List.append_assoc] at hfields
      have hslice := slice_of_drop hfields (List.cons_ne_nil _ _)
      rwa [f.length_centralFields] at hslice
    have hmethod : u16At data (pos + 10) = .ok f.packed.method :=
      u16At_fields hfields 4 (by simp [File.centralFields]) rfl f.packed.method_lt
    have hcompressed : u32At data (pos + 20) = .ok f.packed.raw.length :=
      u32At_fields hfields 7 (by simp [File.centralFields]) rfl (f.packed.raw_fits f.contents_fit)
    have huncompressed : u32At data (pos + 24) = .ok f.contents.length :=
      u32At_fields hfields 8 (by simp [File.centralFields]) rfl
        (f.contents_fit.trans_lt maxEntry_lt)
    have hlt : off < 2 ^ 32 := by omega
    have hoffset : u32At data (pos + 42) = .ok off :=
      u32At_fields hfields 15 (by simp [File.centralFields]) rfl hlt
    have hrest : entriesFrom data files.length (pos + (46 + f.name.toBytes.length +
        f.centralExtra.length + f.comment.length)) =
          .ok (entriesOf (off + f.localRecord.length) files) := by
      have hnext := drop_of_drop h
      rw [f.length_centralRecord off] at hnext
      exact ih hnext hoff
    show entriesFrom data (files.length + 1) pos = _
    rw [entriesFrom, if_neg (not_not.2 hsig), hflags, ok_bind, if_neg (not_not.2 f.not_encrypted.1),
      hname, ok_bind, hextra, ok_bind, hcomment, ok_bind, okOr_eq_ok.2 hbytes, ok_bind, hmethod,
      ok_bind, hcompressed, ok_bind, huncompressed, ok_bind, hoffset, ok_bind, hrest, ok_bind,
      fromUtf8Lossy_toBytes]
    rfl

/-- The last index that passes a test. -/
theorem find?_reverse_range' {p : ℕ → Bool} {start len n : ℕ} (hstart : start ≤ n)
    (hn : n < start + len) (hp : p n = true) (hlast : ∀ i, n < i → i < start + len → p i = false) :
    (List.range' start len).reverse.find? p = some n := by
  induction len with
  | zero => omega
  | succ len ih =>
    rw [List.range'_concat, List.reverse_append, List.reverse_singleton, List.singleton_append,
      List.find?_cons, Nat.one_mul]
    by_cases hhere : n = start + len
    · rw [← hhere, hp]
    · rw [hlast (start + len) (by omega) (by omega)]
      exact ih (by omega) fun i hi hlen => hlast i hi (by omega)

theorem length_endRecord (files : List (File inflate)) (comment : Bytes) :
    (endRecord files comment).length = 22 + comment.length := by
  rw [endRecord, List.length_append, length_fields]
  rfl

/-- The end of the directory is found behind anything, where no other one begins in it. -/
theorem findEnd_append {before e : Bytes} (hsig : endSig <+: e) (hlong : 22 ≤ e.length)
    (hshort : e.length ≤ 22 + 0xFFFF)
    (hlast : ∀ i, 0 < i → i + 22 ≤ e.length → ¬ endSig <+: e.drop i) :
    findEnd (before ++ e) = some before.length := by
  have hlen : (before ++ e).length = before.length + e.length := List.length_append
  have hhere : endSig.isPrefixOf ((before ++ e).drop before.length) = true := by
    rw [List.drop_left, List.isPrefixOf_iff_prefix]
    exact hsig
  unfold findEnd
  refine find?_reverse_range' (by omega) (by omega) hhere fun i hi hlt => ?_
  have hnone := hlast (i - before.length) (by omega) (by omega)
  rw [List.drop_append, List.drop_eq_nil_of_le hi.le, List.nil_append]
  exact Bool.eq_false_iff.2 fun h => hnone (List.isPrefixOf_iff_prefix.1 h)

theorem findEnd_archive (a : Archive inflate) :
    findEnd a.bytes = some (localRecords a.files ++ directory 0 a.files).length := by
  have hcomment := a.comment_fits
  have hlen := length_endRecord a.files a.comment
  rw [Archive.bytes, ← List.append_assoc]
  exact findEnd_append ⟨_, rfl⟩ (by omega) (by omega) a.last_end

/-- **The directory of an archive is read back.** -/
theorem entries_archive (a : Archive inflate) :
    entries a.bytes = .ok (entriesOf 0 a.files) := by
  have hend : a.bytes.drop (localRecords a.files ++ directory 0 a.files).length =
      endRecord a.files a.comment := by
    rw [Archive.bytes, ← List.append_assoc, List.drop_left]
  have hdir : a.bytes.drop (localRecords a.files).length =
      directory 0 a.files ++ endRecord a.files a.comment := List.drop_left
  have hcountLt : a.files.length < 2 ^ 16 := a.count_fits.trans (by decide)
  have hoffsetLt : (localRecords a.files).length < 2 ^ 32 := a.offset_fits.trans (by decide)
  have hcount : u16At a.bytes ((localRecords a.files ++ directory 0 a.files).length + 10) =
      .ok a.files.length := u16At_fields hend 4 (by simp) rfl hcountLt
  have hoffset : u32At a.bytes ((localRecords a.files ++ directory 0 a.files).length + 16) =
      .ok (localRecords a.files).length := u32At_fields hend 6 (by simp) rfl hoffsetLt
  have hsmall : ¬ (a.files.length = 0xFFFF ∨ (localRecords a.files).length = 0xFFFFFFFF) :=
    not_or.2 ⟨a.count_fits.ne, a.offset_fits.ne⟩
  rw [entries, okOr_eq_ok.2 (findEnd_archive a), ok_bind, hcount, ok_bind, hoffset, ok_bind,
    if_neg hsmall]
  refine entriesFrom_directory hdir ?_
  rw [Nat.zero_add]
  exact hoffsetLt

theorem names_entriesOf (off : ℕ) (files : List (File inflate)) :
    (entriesOf off files).map Entry.name = files.map File.name := by
  induction files generalizing off with
  | nil => rfl
  | cons f files ih =>
    rw [entriesOf, List.map_cons, List.map_cons, ih]
    rfl

/-- **Each file is read back** through its entry. -/
theorem read_entriesOf {files : List (File inflate)} {data rest : Bytes} {off : ℕ}
    (h : data.drop off = localRecords files ++ rest) :
    List.Forall₂ (fun entry f => read inflate data entry = .ok f.contents) (entriesOf off files)
      files := by
  induction files generalizing off with
  | nil => exact .nil
  | cons f files ih =>
    rw [localRecords, List.flatMap_cons, List.append_assoc] at h
    exact .cons (read_localRecord h) (ih (drop_of_drop h))

/-- **An archive is read whole or refused.**  The entries of an archive are its files in order, and
each is read back as it was packed.  Of any bytes at all, what an entry is read as is the whole
stretch that the entry names, or everything that the decoder gives for it without a failure; and
neither the stated size nor what was decoded is more than may be read. -/
theorem archive_read_whole (inflate : Bytes → Inflated) :
    (∀ a : Archive inflate, ∃ es, entries a.bytes = .ok es ∧
      es.map Entry.name = a.files.map File.name ∧
      List.Forall₂ (fun entry f => read inflate a.bytes entry = .ok f.contents) es a.files) ∧
    ∀ (data : Bytes) (es : List Entry), entries data = .ok es → ∀ entry ∈ es, ∀ contents,
      read inflate data entry = .ok contents →
        entry.uncompressed ≤ maxEntry ∧ ∃ start raw, slice data start entry.compressed = some raw ∧
          raw.length = entry.compressed ∧
          ((entry.method = 0 ∧ contents = raw) ∨
            (entry.method = 8 ∧ inflate raw = ⟨contents, none⟩ ∧ contents.length ≤ maxEntry)) := by
  refine ⟨fun a => ⟨entriesOf 0 a.files, entries_archive a, names_entriesOf 0 a.files, ?_⟩,
    fun data es hes entry hentry contents h => ?_⟩
  · have hbytes : a.bytes.drop 0 =
        localRecords a.files ++ (directory 0 a.files ++ endRecord a.files a.comment) := rfl
    exact read_entriesOf hbytes
  · obtain ⟨hsize, start, raw, hraw, hcontents⟩ := read_eq_ok h
    exact ⟨hsize, start, raw, hraw, (slice_eq_some hraw).1, hcontents⟩

namespace Example

/-- A decoder that knows one deflated text, ten times `a`. -/
def decoder (raw : Bytes) : Inflated :=
  if raw = [0x4B, 0x4C, 0x84, 1, 0] then ⟨List.replicate 10 0x61, none⟩
  else ⟨[], some "corrupt deflate stream".toList⟩

def stored : File decoder where
  name := "hi.txt".toList
  contents := [0x68, 0x69]
  packed := .stored
  madeBy := 20
  needed := 20
  flags := 0
  stamp := 0
  crc := 3633523372
  disk := 0
  internal := 0
  external := 0
  localExtra := []
  centralExtra := []
  comment := []
  name_fits := by decide
  contents_fit := by decide
  not_encrypted := by decide
  localExtra_fits := by decide
  centralExtra_fits := by decide
  comment_fits := by decide

def deflated : File decoder :=
  { stored with
    name := "a.txt".toList
    contents := List.replicate 10 0x61
    packed := .deflated [0x4B, 0x4C, 0x84, 1, 0] (by decide) (by decide)
    crc := 1276235248
    comment := [0x61]
    name_fits := by decide
    contents_fit := by decide
    comment_fits := by decide }

/-- Both files, and a comment on the archive. -/
def archive : Archive decoder where
  files := [stored, deflated]
  comment := [0x74, 0x77, 0x6F]
  count_fits := by decide
  offset_fits := by decide +kernel
  comment_fits := by decide
  last_end := by
    have hend : ∀ i < 4, 0 < i → ¬ endSig <+: (endRecord [stored, deflated] [0x74, 0x77, 0x6F]).drop i := by
      decide +kernel
    intro i hpos hi
    rw [length_endRecord] at hi
    exact hend i (by simp at hi; omega) hpos

end Example

open Example in
/-- A stored and a deflated file are read back. -/
theorem archive_read_whole_two : ∃ es, entries archive.bytes = .ok es ∧
    es.map Entry.name = ["hi.txt".toList, "a.txt".toList] ∧
    List.Forall₂ (fun entry f => read decoder archive.bytes entry = .ok f.contents) es
      [stored, deflated] :=
  (archive_read_whole decoder).1 archive

/-- An archive of one stored file that is empty, and of which the directory states one byte. -/
def misstated : Bytes :=
  fields [(4, 0x04034B50), (2, 20), (2, 0), (2, 0), (4, 0), (4, 0), (4, 0), (4, 1), (2, 0), (2, 0)]
    ++ fields [(4, 0x02014B50), (2, 20), (2, 20), (2, 0), (2, 0), (4, 0), (4, 0), (4, 0), (4, 1),
      (2, 0), (2, 0), (2, 0), (2, 0), (2, 0), (4, 0), (4, 0)]
    ++ fields [(4, 0x06054B50), (2, 0), (2, 0), (2, 1), (2, 1), (4, 46), (4, 30), (2, 0)]

/-- An archive of no files, with the end of another directory for a comment. -/
def endInComment : Bytes :=
  endRecord ([] : List (File fun _ => ⟨[], none⟩))
    (fields [(4, 0x06054B50), (2, 0), (2, 0), (2, 1), (2, 1), (4, 0), (4, 0), (2, 0)])

/-- The end of an archive of 65535 files. -/
def fullEnd (size offset : ℕ) : Bytes :=
  fields [(4, 0x06054B50), (2, 0), (2, 0), (2, 0xFFFF), (2, 0xFFFF), (4, size), (4, offset), (2, 0)]

/-- A stated size is not compared with the contents.  And an archive is not read where its comment
is such that another directory ends in it, where a file is longer than may be read, and where it
has as many files as only ZIP64 counts. -/
theorem size_not_compared :
    entries misstated = .ok [⟨[], 0, 0, 1, 0⟩] ∧
      read (fun _ => ⟨[], none⟩) misstated ⟨[], 0, 0, 1, 0⟩ = .ok [] ∧
      entries endInComment = .error damaged ∧
      (∀ data, read (fun _ => ⟨[], none⟩) data ⟨[], 0, maxEntry + 1, maxEntry + 1, 0⟩ =
        .error " is too large to import".toList) ∧
      ∀ before size offset, entries (before ++ fullEnd size offset) =
        .error "ZIP64 archives aren't supported".toList := by
  refine ⟨by decide +kernel, by decide +kernel, by decide +kernel, fun data => if_pos (by decide),
    fun before size offset => ?_⟩
  have hend : (before ++ fullEnd size offset).drop before.length = fullEnd size offset ++ [] := by
    rw [List.drop_left, List.append_nil]
  have hlen : (fullEnd size offset).length = 22 := by simp [fullEnd]
  have hfind : findEnd (before ++ fullEnd size offset) = some before.length :=
    findEnd_append ⟨_, rfl⟩ hlen.ge (by omega) fun i hi hle => by omega
  have hcount : u16At (before ++ fullEnd size offset) (before.length + 10) = .ok 0xFFFF :=
    u16At_fields hend 4 (by simp) rfl (by decide)
  have hoffset : ∃ at', u32At (before ++ fullEnd size offset) (before.length + 16) = .ok at' := by
    refine ⟨_, okOr_eq_ok.2 (if_pos ?_)⟩
    rw [List.length_append, hlen]
    omega
  obtain ⟨at', hoffset⟩ := hoffset
  rw [entries, okOr_eq_ok.2 hfind, ok_bind, hcount, ok_bind, hoffset, ok_bind, if_pos (.inl rfl)]

end Ferrite.Api.Zip
