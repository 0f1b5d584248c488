import Oliphaunt.TS.TarFields

/-!
# Reading back what was written

The writer makes the headers of an archive, and two readers take them apart: the check
of the framing and `extractTar`. This module follows one entry through both. The framing
accepts every entry (`validateTarBlocks_entries`); `extractTar` reads the text that
`readText` says, which is the text that was written unless a name field began with
U+FEFF.
-/

namespace Oliphaunt.PhysicalArchive

open FileTree Tar TarArchive List
open Bytes (dropMark textDecode)

theorem encodeText_append (s t : Text) : encodeText (s ++ t) = encodeText s ++ encodeText t :=
  Bytes.utf8_ofList_append s t

theorem encodeText_nuls (n : Nat) :
    encodeText (List.replicate n (Char.ofNat 0)) = zeros n := by
  have hchar : String.utf8EncodeChar (Char.ofNat 0) = [0] := Bytes.utf8EncodeChar_of_lt (by decide)
  rw [encodeText, Bytes.utf8_ofList]
  induction n with
  | zero => rfl
  | succ n ih =>
    rw [replicate_succ, flatMap_cons, ih, hchar]
    rfl

theorem dropMark_append_nuls (text : Text) (n : Nat) :
    dropMark (text ++ List.replicate n (Char.ofNat 0)) =
      dropMark text ++ List.replicate n (Char.ofNat 0) := by
  cases text with
  | nil =>
    refine Bytes.dropMark_eq_self ?_
    cases n with
    | zero => exact nofun
    | succ n =>
      intro h
      have hchar : Char.ofNat 0 = '\uFEFF' := Option.some.inj h
      exact absurd hchar (by decide)
  | cons c text =>
    rw [cons_append, dropMark, dropMark]
    split
    · rfl
    · rfl

variable {width : Nat} {text : Text} {bytes : List UInt8} {es : List (Text × List UInt8 × Char)}

/-- A text in a NUL-padded field is read back with the padding, and without a leading byte
order mark. -/
theorem textDecode_field :
    textDecode (field width (encodeText text)) = some (String.ofList (dropMark text ++
      List.replicate (width - (encodeText text).length) (Char.ofNat 0))) := by
  rw [field, ← encodeText_nuls, ← encodeText_append, encodeText, Bytes.textDecode_utf8,
    dropMark_append_nuls]

theorem decodeTarString_of (h : textDecode bytes = some (String.ofList text)) :
    decodeTarString bytes = .ok text := by
  rw [decodeTarString, h]
  exact congrArg Except.ok String.toList_ofList

theorem decodeTarText_of (h : textDecode bytes = some (String.ofList text)) :
    decodeTarText bytes = .ok text := by
  rw [decodeTarText, h]
  exact congrArg Except.ok String.toList_ofList

theorem length_octalField (hw : 0 < width) (n : Nat) : (octalField width n).length = width := by
  rw [octalField, length_append, length_octal, length_singleton]
  omega

/-- The header of the writer as a header of tar. -/
def ustarHeader (name lead : List UInt8) (type : Char) (size : Nat) (sum : List UInt8)
    (hname : name.length ≤ 100) (hlead : lead.length ≤ 155) (hsum : sum.length = 8) : Header where
  name := field 100 name
  mode := octalField 8 (if type = '5' then 0o700 else 0o600)
  uid := octalField 8 0
  gid := octalField 8 0
  size := octalField 12 size
  mtime := octalField 12 0
  checksum := sum
  typeflag := UInt8.ofNat type.toNat
  linkname := zeros 100
  magic := [0x75, 0x73, 0x74, 0x61, 0x72, 0x00]
  version := [0x30, 0x30]
  owner := zeros 80
  namePrefix := field 155 lead
  trailer := zeros 12
  name_length := length_field hname
  mode_length := length_octalField (by omega) _
  uid_length := length_octalField (by omega) _
  gid_length := length_octalField (by omega) _
  size_length := length_octalField (by omega) _
  mtime_length := length_octalField (by omega) _
  checksum_length := hsum
  linkname_length := length_zeros 100
  magic_length := rfl
  version_length := rfl
  owner_length := length_zeros 80
  namePrefix_length := length_field hlead
  trailer_length := length_zeros 12

section Entry

variable {name lead : List UInt8} {type : Char} {size : Nat} {sum : List UInt8}
  (hname : name.length ≤ 100) (hlead : lead.length ≤ 155) (hsum : sum.length = 8)

theorem bytes_ustarHeader :
    (ustarHeader name lead type size sum hname hlead hsum).bytes =
      tarHeader name lead type size sum := rfl

include hname hlead hsum

theorem isZero_tarHeader : isZero (tarHeader name lead type size sum) = false := by
  rw [Bool.eq_false_iff]
  intro hzero
  rw [isZero, all_eq_true] at hzero
  have hmagic := (ustarHeader name lead type size sum hname hlead hsum).slice_magic
  have hmem : (0x75 : UInt8) ∈ tarHeader name lead type size sum := by
    have hslice : (0x75 : UInt8) ∈ slice 257 263 (tarHeader name lead type size sum) := by
      rw [← bytes_ustarHeader hname hlead hsum, hmagic]
      exact .head _
    exact mem_of_mem_drop (mem_of_mem_take hslice)
  exact absurd (hzero _ hmem) (by decide)

theorem checksum_tarHeader (hother : other.length = 8) :
    checksum (tarHeader name lead type size sum) = checksum (tarHeader name lead type size other) :=
  (ustarHeader name lead type size other hname hlead hother).checksum_withChecksum sum hsum

end Entry

/-- The header that `appendRawTarEntry` writes. -/
def entryHeader (name lead : Text) (type : Char) (size : Nat) : List UInt8 :=
  let header := tarHeader (encodeText name) (encodeText lead) type size
  header (octal 6 (byteSum (header (List.replicate 8 0x20))) ++ [0, 0x20])

/-- What the readers find in the fields of a header: the sizes of the fields. -/
structure Fits (name lead : Text) (size : Nat) : Prop where
  name : (encodeText name).length ≤ 100
  lead : (encodeText lead).length ≤ 155
  size : size < 8 ^ 11

section Written

variable {name lead : Text} {type : Char} {size : Nat}

theorem length_sumField (n : Nat) : (octal 6 n ++ [0, 0x20]).length = 8 := by
  rfl

def Fits.header (h : Fits name lead size) (type : Char) : Header :=
  ustarHeader (encodeText name) (encodeText lead) type size
    (octal 6 (byteSum (tarHeader (encodeText name) (encodeText lead) type size
      (List.replicate 8 0x20))) ++ [0, 0x20]) h.name h.lead (length_sumField _)

section

variable (h : Fits name lead size)

include h

theorem Fits.bytes_header (type : Char) :
    (h.header type).bytes = entryHeader name lead type size := rfl

theorem Fits.checksum_header (type : Char) : (h.header type).checksum =
      octal 6 (checksum (entryHeader name lead type size)) ++ [0, 0x20] := by
  have hspaces : (List.replicate 8 (0x20 : UInt8)).length = 8 := rfl
  have hblank := (ustarHeader (encodeText name) (encodeText lead) type size
    (List.replicate 8 0x20) h.name h.lead hspaces).byteSum_spaces rfl
  rw [bytes_ustarHeader] at hblank
  have hsum : byteSum (tarHeader (encodeText name) (encodeText lead) type size
      (List.replicate 8 0x20)) = checksum (entryHeader name lead type size) := by
    rw [hblank, entryHeader, checksum_tarHeader h.name h.lead (length_sumField _) hspaces]
  rw [← hsum]
  rfl

theorem Fits.length_header (type : Char) :
    (entryHeader name lead type size).length = blockSize := by
  rw [← h.bytes_header type, Header.length_bytes]

theorem Fits.isZero_header (type : Char) : isZero (entryHeader name lead type size) = false :=
  isZero_tarHeader h.name h.lead (length_sumField _)

end

/-- The two types that the writer knows. -/
def IsWritten (type : Char) : Prop := type = '0' ∨ type = '5'

theorem Fits.tarType_header (h : Fits name lead size) (htype : IsWritten type) :
    tarType (entryHeader name lead type size) = type := by
  rw [tarType, ← h.bytes_header type, Header.get_typeflag]
  show (if UInt8.ofNat type.toNat = 0 then '0'
    else Char.ofNat (UInt8.ofNat type.toNat).toNat) = type
  rcases htype with rfl | rfl
  · decide
  · decide

/-- A number that fits the field is read back. -/
theorem parseTarOctal_octalField (hw : 1 < width) (hsafe : width ≤ 18) (hn : n < 8 ^ (width - 1))
    (label : String) (allowEmpty : Bool) :
    parseTarOctal (octalField width n) label allowEmpty = .ok n := by
  refine parseTarOctal_field (by omega) (by omega) hn ?_ label allowEmpty
  intro b hb
  exact .inl (mem_singleton.mp hb)

/-- The framing accepts the numbers of a written header. -/
theorem Fits.validateTarNumbers (h : Fits name lead size) (type : Char) :
    validateTarNumbers (entryHeader name lead type size) = .ok size := by
  have hsum : parseTarOctal (h.header type).checksum "checksum" false =
      .ok (checksum (h.header type).bytes) := by
    rw [h.checksum_header]
    exact parseTarOctal_field (by omega) (by omega) (checksum_lt (h.length_header type))
      (by simp) _ _
  have hmode : parseTarOctal (h.header type).mode "mode" false =
      .ok (if type = '5' then 0o700 else 0o600) :=
    parseTarOctal_octalField (by omega) (by omega) (by split <;> decide) _ _
  have huid : parseTarOctal (h.header type).uid "uid" true = .ok 0 :=
    parseTarOctal_octalField (by omega) (by omega) (by decide) _ _
  have hgid : parseTarOctal (h.header type).gid "gid" true = .ok 0 :=
    parseTarOctal_octalField (by omega) (by omega) (by decide) _ _
  have hsize : parseTarOctal (h.header type).size "size" false = .ok size :=
    parseTarOctal_octalField (by omega) (by omega) h.size _ _
  have hmtime : parseTarOctal (h.header type).mtime "mtime" true = .ok 0 :=
    parseTarOctal_octalField (by omega) (by omega) (by decide) _ _
  have hperm : ¬ 0o777 < (if type = '5' then 0o700 else 0o600) := by
    split <;> decide
  rw [← h.bytes_header type]
  simp only [PhysicalArchive.validateTarNumbers, Header.slice_checksum, Header.slice_mode,
    Header.slice_uid, Header.slice_gid, Header.slice_size, Header.slice_mtime, hsum, hmode, huid,
    hgid, hsize, hmtime, hperm, ne_eq, not_true_eq_false, if_false]

theorem textDecode_magic :
    textDecode [0x75, 0x73, 0x74, 0x61, 0x72, 0x00] = some (String.ofList "ustar\x00".toList) :=
  Bytes.textDecode_ascii (by decide +kernel)

theorem textDecode_version : textDecode [0x30, 0x30] = some (String.ofList "00".toList) :=
  Bytes.textDecode_ascii (by decide +kernel)

theorem textDecode_zeros (n : Nat) :
    textDecode (zeros n) = some (String.ofList (List.replicate n (Char.ofNat 0))) :=
  @textDecode_field n []

/-- The framing accepts the texts of a written header. -/
theorem Fits.validateTarTexts (h : Fits name lead size) (htype : IsWritten type)
    (hdir : type = '5' → size = 0) :
    validateTarTexts (entryHeader name lead type size) size = .ok () := by
  have hmagic : decodeTarText (h.header type).magic = _ := decodeTarText_of textDecode_magic
  have hversion : decodeTarText (h.header type).version = _ := decodeTarText_of textDecode_version
  have hlink : decodeTarText (h.header type).linkname = _ := decodeTarText_of (textDecode_zeros 100)
  have hcut : (List.replicate 100 (Char.ofNat 0)).takeWhile (· ≠ Char.ofNat 0) = [] := by decide
  have hboth : ¬ (type ≠ '0' ∧ type ≠ '5') := by
    rcases htype with rfl | rfl <;> simp
  have hempty : ¬ (type = '5' ∧ size ≠ 0) := fun hand => hand.2 (hdir hand.1)
  have hread : tarType (h.header type).bytes = type := h.tarType_header htype
  rw [← h.bytes_header type]
  simp only [PhysicalArchive.validateTarTexts, Header.slice_magic, Header.slice_version,
    Header.slice_linkname, hmagic, hversion, hlink, hread, if_neg hboth, if_neg hempty, hcut]
  rfl

/-- The path of a written header, with a mark dropped from either part. -/
theorem Fits.tarHeaderPath (h : Fits name lead size) (hname : Char.ofNat 0 ∉ name)
    (hlead : Char.ofNat 0 ∉ lead) :
    tarHeaderPath (entryHeader name lead type size) =
      .ok (if dropMark lead ≠ [] then dropMark lead ++ '/' :: dropMark name
        else dropMark name) := by
  have hdecodeName : decodeTarString (h.header type).name = _ := decodeTarString_of textDecode_field
  have hdecodeLead : decodeTarString (h.header type).namePrefix = _ :=
    decodeTarString_of textDecode_field
  rw [← h.bytes_header type]
  simp only [TarArchive.tarHeaderPath, Header.slice_name, Header.slice_namePrefix, hdecodeName,
    hdecodeLead, cutNul_append_nuls fun hmem => hname ((Bytes.dropMark_suffix name).mem hmem),
    cutNul_append_nuls fun hmem => hlead ((Bytes.dropMark_suffix lead).mem hmem)]

variable {contents : List UInt8}

theorem Fits.blocks (h : Fits name lead contents.length) (type : Char) (rest : List UInt8) :
    (entryHeader name lead type contents.length ++
        (contents ++ (zeros (padding contents.length) ++ rest))).length =
      blockSize + (contents.length + 511) / 512 * 512 + rest.length ∧
    (contents ++ (zeros (padding contents.length) ++ rest)).drop
      ((contents.length + 511) / 512 * 512) = rest := by
  have hblocks := add_padding contents.length
  constructor
  · rw [length_append, length_append, length_append, length_zeros,
      h.length_header type]
    omega
  · rw [← hblocks, ← append_assoc]
    refine drop_left' ?_
    rw [length_append, length_zeros]

/-- The contents are read back up to the limit of one entry. -/
theorem Fits.readPayload (h : Fits name lead contents.length) (type : Char) (rest : List UInt8) :
    readPayload (entryHeader name lead type contents.length)
        (contents ++ (zeros (padding contents.length) ++ rest)) =
      if maxEntryBytes < contents.length then
        .error s!"tar entry exceeds the {maxEntryBytes}-byte size limit"
      else .ok (contents, rest) := by
  have hsize : parseOctal (h.header type).size "tar entry size" = .ok contents.length :=
    parseOctal_field (by omega) (by omega) h.size (by simp) _
  obtain ⟨hlength, hdrop⟩ := h.blocks type rest
  rw [length_append, h.length_header] at hlength
  rw [← h.bytes_header type]
  simp only [TarArchive.readPayload, Header.slice_size, hsize]
  split
  · rfl
  · have htake : (contents ++ (zeros (padding contents.length) ++ rest)).take contents.length =
        contents := take_left
    rw [if_neg (by omega), if_neg (by omega), htake, hdrop]

theorem Fits.validateLinkName (h : Fits name lead size) (type : Char) :
    validateLinkName (entryHeader name lead type size) = .ok () := by
  have hlink : decodeTarString (h.header type).linkname = _ :=
    decodeTarString_of (textDecode_zeros 100)
  rw [← h.bytes_header type]
  simp only [TarArchive.validateLinkName, Header.slice_linkname, hlink]
  rfl

theorem Fits.validateTarHeaderFormat (h : Fits name lead size) (type : Char) :
    validateTarHeaderFormat (entryHeader name lead type size) = .ok () := by
  have hmagic : decodeTarString (h.header type).magic = _ := decodeTarString_of textDecode_magic
  have hversion : decodeTarString (h.header type).version = _ :=
    decodeTarString_of textDecode_version
  rw [← h.bytes_header type]
  simp only [TarArchive.validateTarHeaderFormat, Header.slice_magic, Header.slice_version, hmagic,
    hversion]
  rfl

end Written

/-- The reader's state before an entry of an archive without pax records. -/
def plainPax (entries : Nat) : Pax := ⟨none, [], none, entries⟩

/-- The text that `extractTar` finds in the header of a path. -/
def readText (path : Text) : Text :=
  match splitUstarPath path with
  | none => path
  | some (name, lead) =>
    if dropMark lead ≠ [] then dropMark lead ++ '/' :: dropMark name
    else dropMark name

/-- What `extractTar` makes of one written entry. -/
def readEntry (entries : Nat) (path : Text) (contents : List UInt8) (type : Char)
    (rest : List UInt8) : Except String Block :=
  if maxEntries < entries + 1 then .error s!"tar archive exceeds the {maxEntries}-entry limit"
  else if maxEntryBytes < contents.length then
    .error s!"tar entry exceeds the {maxEntryBytes}-byte size limit"
  else
    match sanitizeTarPath (readText path) with
    | .error e => .error e
    | .ok none => .ok (.records (plainPax (entries + 1)) rest)
    | .ok (some read) => .ok (.entry ⟨read, type, contents⟩ (plainPax (entries + 1)) rest)

section Entry

variable {path name lead : Text} {contents : List UInt8} {type : Char}

/-- The parts of a path that is cut in two, and the fields that they fit. -/
theorem split_parts (h : splitUstarPath path = some (name, lead)) :
    ((lead = [] ∧ path = name) ∨ (lead ≠ [] ∧ path = lead ++ '/' :: name)) ∧
      (encodeText name).length ≤ 100 ∧ (encodeText lead).length ≤ 155 := by
  rw [splitUstarPath] at h
  split at h
  · rename_i hshort
    obtain ⟨rfl, rfl⟩ := Prod.mk.inj (Option.some.inj h)
    exact ⟨.inl ⟨rfl, rfl⟩, hshort, Nat.zero_le _⟩
  · obtain ⟨⟨lead', name'⟩, hlast, heq⟩ := Option.map_eq_some_iff.mp h
    obtain ⟨rfl, rfl⟩ := Prod.mk.inj heq
    obtain ⟨hpath, hok⟩ := lastSplit_eq_some hlast
    simp only [Bool.and_eq_true, decide_eq_true_eq] at hok
    exact ⟨.inr ⟨hok.1.1, hpath⟩, hok.2, hok.1.2⟩

theorem not_mem_parts (h : splitUstarPath path = some (name, lead)) (hc : c ∉ path) :
    c ∉ name ∧ c ∉ lead := by
  rcases (split_parts h).1 with ⟨rfl, rfl⟩ | ⟨-, rfl⟩
  · exact ⟨hc, not_mem_nil⟩
  · constructor
    · exact fun hmem => hc (mem_append_right _ (.tail _ hmem))
    · exact fun hmem => hc (mem_append_left _ hmem)

/-- What the writer appends for one entry. -/
theorem appendTarEntry_ok (h : appendTarEntry path contents type = .ok bytes) :
    ∃ name lead, splitUstarPath path = some (name, lead) ∧ Fits name lead contents.length ∧
      bytes = entryHeader name lead type contents.length ++
        (contents ++ zeros (padding contents.length)) := by
  rw [appendTarEntry] at h
  split at h
  · cases h
  cases hsplit : splitUstarPath path with
  | none =>
    rename_i hnone
    exact absurd hsplit hnone
  | some split =>
    obtain ⟨name, lead⟩ := split
    simp only [appendRawTarEntry, hsplit] at h
    split at h
    · cases h
    rename_i hsize
    obtain ⟨-, hname, hlead⟩ := split_parts hsplit
    refine ⟨name, lead, rfl, ⟨hname, hlead, Nat.lt_of_not_le hsize⟩, ?_⟩
    rw [← Except.ok.inj h, append_assoc]
    rfl

end Entry

/-- Entries and their bytes: each a header, the contents and their padding. -/
inductive Written : List (Text × List UInt8 × Char) → List UInt8 → Prop
  | nil : Written [] []
  | cons {path name lead : Text} {contents back : List UInt8} {type : Char}
      {es : List (Text × List UInt8 × Char)} (split : splitUstarPath path = some (name, lead))
      (fits : Fits name lead contents.length) (rest : Written es back) :
      Written ((path, contents, type) :: es) (entryHeader name lead type contents.length ++
        (contents ++ (zeros (padding contents.length) ++ back)))

theorem Written.of_ok (h : appendTarEntries es = .ok bytes) : Written es bytes := by
  induction es generalizing bytes with
  | nil => exact Except.ok.inj h ▸ .nil
  | cons e es ih =>
    rw [appendTarEntries] at h
    split at h
    · cases h
    rename_i front hfront
    split at h
    · cases h
    rename_i back hback
    obtain ⟨name, lead, hsplit, hfits, rfl⟩ := appendTarEntry_ok hfront
    rw [← Except.ok.inj h, append_assoc, append_assoc]
    exact .cons hsplit hfits (ih hback)

/-- **One written entry, read back.** -/
theorem readBlock_written (hsplit : splitUstarPath path = some (name, lead))
    (hfits : Fits name lead contents.length) (htype : IsWritten type) (hnul : Char.ofNat 0 ∉ path)
    (entries : Nat) (rest : List UInt8) :
    readBlock (plainPax entries) (entryHeader name lead type contents.length)
        (contents ++ (zeros (padding contents.length) ++ rest)) =
      readEntry entries path contents type rest := by
  obtain ⟨hname, hlead⟩ := not_mem_parts hsplit hnul
  have hpath :
      tarHeaderPath (entryHeader name lead type contents.length) = .ok (readText path) := by
    rw [hfits.tarHeaderPath hname hlead, readText, hsplit]
  have hplain : ¬ (type = 'x' ∨ type = 'g' ∨ type = 'L') := by
    rcases htype with rfl | rfl <;> decide
  have hentry : entryPath (plainPax entries).counted
      (entryHeader name lead type contents.length) = sanitizeTarPath (readText path) := by
    simp only [entryPath, plainPax, Pax.counted, Option.getD_none, nil_append, hpath]
    rfl
  simp only [readBlock, hfits.isZero_header type, hfits.validateTarHeaderFormat type,
    hfits.readPayload type rest, hfits.validateLinkName type, hfits.tarType_header htype, readEntry,
    if_neg hplain, hentry]
  show (if maxEntries < entries + 1 then _ else _) = _
  split
  · rfl
  by_cases hlarge : maxEntryBytes < contents.length
  · simp only [if_pos hlarge]
  · simp only [if_neg hlarge]
    cases sanitizeTarPath (readText path) with
    | error e => rfl
    | ok read => cases read <;> rfl

/-- What `extractTar` makes of written entries. -/
def readEntries (tree : Tree) : Nat → List (Text × List UInt8 × Char) → Except String Tree
  | _, [] => .ok tree
  | entries, (path, contents, type) :: rest =>
    match readEntry entries path contents type [] with
    | .error e => .error e
    | .ok (.entry entry _ _) =>
      match addEntry tree entry with
      | .error e => .error e
      | .ok tree => readEntries tree (entries + 1) rest
    | .ok _ => readEntries tree (entries + 1) rest

/-- The entries that the writer is given: types it knows, and no NUL in a path. -/
structure Writable (entry : Text × List UInt8 × Char) : Prop where
  type : IsWritten entry.2.2
  nul : Char.ofNat 0 ∉ entry.1
  directory : entry.2.2 = '5' → entry.2.1 = []

instance (entry : Text × List UInt8 × Char) : Decidable (Writable entry) :=
  decidable_of_iff ((entry.2.2 = '0' ∨ entry.2.2 = '5') ∧ Char.ofNat 0 ∉ entry.1 ∧
    (entry.2.2 = '5' → entry.2.1 = [])) ⟨fun h => ⟨h.1, h.2.1, h.2.2⟩, fun h => ⟨h.1, h.2, h.3⟩⟩

/-- The readers see the terminator after the last entry. -/
theorem terminator_blocks :
    (zeros (blockSize * 2)).take blockSize = zeros blockSize ∧
      (zeros (blockSize * 2)).drop blockSize = zeros blockSize := by
  constructor
  · rw [zeros, take_replicate, blockSize]
    rfl
  · rw [zeros, drop_replicate, blockSize]
    rfl

/-- The writer succeeds on paths that can be split and sizes that fit. -/
theorem exists_appendTarEntries
    (h : ∀ e ∈ es, (splitUstarPath e.1).isSome = true ∧ e.2.1.length < 8 ^ 11) :
    ∃ bytes, appendTarEntries es = .ok bytes := by
  induction es with
  | nil => exact ⟨[], rfl⟩
  | cons e es ih =>
    obtain ⟨path, contents, type⟩ := e
    obtain ⟨hsplit, hsize⟩ := h _ (.head _)
    obtain ⟨back, hback⟩ := ih fun e he => h e (.tail _ he)
    obtain ⟨split, hsplit⟩ := Option.isSome_iff_exists.mp hsplit
    have hsome : splitUstarPath path = some split := hsplit
    have hfit : ¬ 8 ^ 11 ≤ contents.length := Nat.not_le.mpr hsize
    have hfront : ∃ front, appendTarEntry path contents type = .ok front := by
      rw [appendTarEntry, hsome, if_neg nofun, appendRawTarEntry, hsome]
      simp only [if_neg hfit]
      exact ⟨_, rfl⟩
    obtain ⟨front, hfront⟩ := hfront
    rw [appendTarEntries, hfront]
    simp only [hback]
    exact ⟨_, rfl⟩

section Archive

variable {es : List (Text × List UInt8 × Char)} {bytes : List UInt8} {fuel : Nat}

theorem exists_fuel (h : n < fuel) : ∃ k, fuel = k + 1 ∧ n ≤ k :=
  ⟨fuel - 1, by omega, by omega⟩

theorem extractLoop_entries (h : Written es bytes) (hes : ∀ e ∈ es, Writable e)
    (hfuel : es.length < fuel) (tree : Tree) (entries : Nat) :
    extractLoop fuel (plainPax entries) tree (bytes ++ zeros (blockSize * 2)) =
      (readEntries tree entries es).map fun tree => ⟨tree.files, tree.directories⟩ := by
  induction h generalizing fuel tree entries with
  | nil =>
    obtain ⟨fuel, rfl, -⟩ := exists_fuel hfuel
    have hread : readBlock (plainPax entries) (zeros blockSize) (zeros blockSize) =
        .ok .terminator := by
      rw [readBlock, if_pos (isZero_zeros _), if_neg (by simp [plainPax]),
        if_neg (by simp [isZero_zeros])]
    rw [nil_append, extractLoop, if_neg (by simp [length_zeros, blockSize]),
      terminator_blocks.1, terminator_blocks.2, hread]
    rfl
  | @cons path name lead contents back type es hsplit hfits _ ih =>
    obtain ⟨fuel, rfl, hmore⟩ := exists_fuel hfuel
    have hwritable := hes _ (.head _)
    have hrest := ih (fun e he => hes e (.tail _ he)) hmore
    have hlength := (hfits.blocks type (back ++ zeros (blockSize * 2))).1
    have hheader := hfits.length_header type
    have hblock := readBlock_written hsplit hfits hwritable.type hwritable.nul entries
      (back ++ zeros (blockSize * 2))
    simp only [append_assoc]
    rw [extractLoop, if_neg (by omega), take_left' hheader, drop_left' hheader,
      hblock, readEntries]
    simp only [readEntry]
    by_cases hcount : maxEntries < entries + 1
    · simp only [if_pos hcount]
      rfl
    by_cases hlarge : maxEntryBytes < contents.length
    · simp only [if_neg hcount, if_pos hlarge]
      rfl
    simp only [if_neg hcount, if_neg hlarge]
    cases sanitizeTarPath (readText path) with
    | error e => rfl
    | ok read =>
      cases read with
      | none => exact hrest tree (entries + 1)
      | some read =>
        simp only
        cases addEntry tree ⟨read, type, contents⟩ with
        | error e => rfl
        | ok tree' => exact hrest tree' (entries + 1)

theorem validateTarBlocks_entries (h : Written es bytes) (hes : ∀ e ∈ es, Writable e)
    (hfuel : es.length < fuel) :
    validateTarBlocks fuel (bytes ++ zeros (blockSize * 2)) = .ok () := by
  induction h generalizing fuel with
  | nil =>
    obtain ⟨fuel, rfl, -⟩ := exists_fuel hfuel
    rw [nil_append, validateTarBlocks, if_neg (by simp [length_zeros, blockSize]),
      terminator_blocks.1, if_pos (isZero_zeros _), if_neg (by simp [isZero_zeros])]
  | @cons path name lead contents back type es hsplit hfits _ ih =>
    obtain ⟨fuel, rfl, hmore⟩ := exists_fuel hfuel
    have hwritable := hes _ (.head _)
    have hrest := ih (fun e he => hes e (.tail _ he)) hmore
    have hheader := hfits.length_header type
    obtain ⟨hlength, hdrop⟩ := hfits.blocks type (back ++ zeros (blockSize * 2))
    have hdirectory : type = '5' → contents.length = 0 := fun htype =>
      congrArg List.length (hwritable.directory htype)
    simp only [append_assoc]
    rw [validateTarBlocks, if_neg (by omega)]
    simp only [take_left' hheader, hfits.isZero_header type, hfits.validateTarNumbers type,
      hfits.validateTarTexts hwritable.type hdirectory]
    rw [if_neg Bool.false_ne_true, if_neg (by omega), ← drop_drop, drop_left' hheader,
      hdrop]
    exact hrest

/-- The bytes of entries, headers and padding included. -/
def entriesSize : List (Text × List UInt8 × Char) → Nat
  | [] => 0
  | e :: es => blockSize + (e.2.1.length + 511) / 512 * 512 + entriesSize es

theorem length_appendTarEntries (h : Written es bytes) : bytes.length = entriesSize es := by
  induction h with
  | nil => rfl
  | cons _ hfits _ ih => rw [(hfits.blocks _ _).1, ih, entriesSize]

theorem length_le_entriesSize (es : List (Text × List UInt8 × Char)) :
    es.length ≤ entriesSize es := by
  induction es with
  | nil => exact Nat.le_refl 0
  | cons e es ih =>
    rw [entriesSize, length_cons, blockSize]
    omega

theorem entriesSize_mod (es : List (Text × List UInt8 × Char)) : entriesSize es % 512 = 0 := by
  induction es with
  | nil => rfl
  | cons e es ih =>
    rw [entriesSize, blockSize]
    omega

theorem length_written (h : Written es bytes) :
    (bytes ++ zeros (blockSize * 2)).length = entriesSize es + 1024 := by
  rw [length_append, length_zeros, length_appendTarEntries h, blockSize]

/-- Written entries pass the check of the framing. -/
theorem validateTarFraming_written (h : Written es bytes) (hes : ∀ e ∈ es, Writable e) :
    validateTarFraming (bytes ++ zeros (blockSize * 2)) = .ok () := by
  have hmod := entriesSize_mod es
  have hcount := length_le_entriesSize es
  rw [validateTarFraming, length_written h, if_neg]
  · exact validateTarBlocks_entries h hes (by omega)
  · rw [blockSize]
    omega

/-- `extractTar` reads back what was written, one entry after the other. -/
theorem extractTar_written (h : Written es bytes) (hes : ∀ e ∈ es, Writable e)
    (hsize : entriesSize es + 1024 ≤ maxArchiveBytes) :
    extractTar (bytes ++ zeros (blockSize * 2)) =
      (readEntries Tree.empty 0 es).map fun tree => ⟨tree.files, tree.directories⟩ := by
  have hcount := length_le_entriesSize es
  rw [extractTar, length_written h, if_neg (by omega)]
  exact extractLoop_entries h hes (by omega) Tree.empty 0

end Archive

end Oliphaunt.PhysicalArchive
