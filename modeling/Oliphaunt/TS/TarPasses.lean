import Oliphaunt.TS.TarFields

/-!
# The two passes over an archive

An archive is framed by `validateTarFraming` and then read by `extractTar`. Each pass
walks from header to header by the size that it reads in the one before, and each has
a parser of its own for it: `parseTarOctal` strips the padding at both ends, while
`parseOctal` cuts the field at its first NUL. `parseOctal_of_parseTarOctal` compares
the two on one field, `frames_eq_iff_sizesPlain` the passes on a whole archive.

* `frames_nested_header_ne` — an archive that the two passes frame differently.
-/

namespace Oliphaunt.PhysicalArchive

open FileTree Tar TarArchive

/-! ## The frames that a pass sees -/

/-- Where a pass finds a header, the type of its entry and the size of its payload. -/
structure EntryFrame where
  offset : Nat
  type : Char
  size : Nat
deriving DecidableEq

/-- The headers that the loop of `validateTarFraming` takes from `bytes`, which stand at
`offset` in the archive. -/
def validatedLoop : Nat → Nat → List UInt8 → List EntryFrame
  | 0, _, _ => []
  | fuel + 1, offset, bytes =>
    let header := bytes.take blockSize
    if bytes.length < blockSize ∨ isZero header then []
    else
      match validateTarNumbers header with
      | .error _ => []
      | .ok size =>
        let entryLength := blockSize + (size + 511) / 512 * 512
        ⟨offset, tarType header, size⟩ ::
          validatedLoop fuel (offset + entryLength) (bytes.drop entryLength)

def validatedFrames (bytes : List UInt8) : List EntryFrame :=
  validatedLoop (bytes.length + 1) 0 bytes

/-- The payload that a turn of `extractTar` takes. -/
def payloadSize (header rest : List UInt8) : Nat :=
  match readPayload header rest with
  | .error _ => 0
  | .ok (payload, _) => payload.length

/-- The headers that the loop of `extractTar` takes, those of records included. -/
def extractedLoop : Nat → Nat → Pax → List UInt8 → List EntryFrame
  | 0, _, _, _ => []
  | fuel + 1, offset, pax, archive =>
    let header := archive.take blockSize
    let rest := archive.drop blockSize
    let frame : EntryFrame := ⟨offset, tarType header, payloadSize header rest⟩
    if archive.length < blockSize then []
    else
      match readBlock pax header rest with
      | .error _ => []
      | .ok .terminator => []
      | .ok (.records pax more) =>
        frame :: extractedLoop fuel (offset + (archive.length - more.length)) pax more
      | .ok (.entry _ pax more) =>
        frame :: extractedLoop fuel (offset + (archive.length - more.length)) pax more

def extractedFrames (archive : List UInt8) : List EntryFrame :=
  extractedLoop (archive.length + 1) 0 Pax.start archive

def isOctalChar (c : Char) : Bool := 0x30 ≤ c.toNat ∧ c.toNat ≤ 0x37

/-- The text of the size field of a header. -/
def sizeText (header : List UInt8) : Text :=
  match Bytes.textDecode (slice 124 136 header) with
  | some text => text.toList
  | none => []

/-- The number that the digits of a size field spell. -/
def sizeValue (header : List UInt8) : Nat :=
  parseDigits 8 (((sizeText header).dropWhile isPad).takeWhile isOctalChar)

/-- A NUL stands in the padding before the digits of a size. -/
def hasLeadingNul (header : List UInt8) : Bool :=
  ((sizeText header).takeWhile isPad).contains (Char.ofNat 0)

/-- From header to header, the sizes other than zero have their digits before any NUL. -/
def sizesPlain : Nat → List UInt8 → Bool
  | 0, _ => true
  | fuel + 1, bytes =>
    let header := bytes.take blockSize
    if isZero header then true
    else if hasLeadingNul header && sizeValue header != 0 then false
    else sizesPlain fuel (bytes.drop (blockSize + (sizeValue header + 511) / 512 * 512))

variable {label : String}

/-- The framing pass accepts octal digits between padding. -/
theorem parseTarOctal_ok {field : List UInt8} {value : Nat}
    (h : parseTarOctal field label false = .ok value) :
    ∃ decoded lead digits tail, Bytes.textDecode field = some decoded ∧
      OctalText decoded.toList lead digits tail ∧ value = parseDigits 8 digits ∧
      ¬ maxSafeInteger < value := by
  simp only [parseTarOctal, Bool.false_eq_true, and_false, if_false] at h
  split at h
  · cases h
  rename_i decoded hdecoded
  split at h <;> try cases h
  rename_i htext
  split at h <;> cases h
  rename_i hsafe
  have hpad : ∀ {text : Text} {c : Char}, c ∈ text.takeWhile isPad → isPad c = true :=
    fun hc => List.all_eq_true.mp List.all_takeWhile _ hc
  refine ⟨decoded, decoded.toList.takeWhile isPad, _,
    ((decoded.toList.dropWhile isPad).reverse.takeWhile isPad).reverse, hdecoded,
    ⟨?_, fun c => hpad, fun c hc => hpad (List.mem_reverse.mp hc), fun hnil => htext (.inl hnil),
      ?_⟩, rfl, hsafe⟩
  · rw [← List.reverse_append, show (fun c : Char => decide (c = Char.ofNat 0) || decide (c = ' '))
      = isPad from rfl, List.takeWhile_append_dropWhile, List.reverse_reverse,
      List.takeWhile_append_dropWhile]
  · intro c hc
    have hany : ¬ (c.toNat < 0x30 || 0x37 < c.toNat) = true :=
      fun hbad => htext (.inr (List.any_eq_true.mpr ⟨c, hc, hbad⟩))
    simp only [Bool.or_eq_true, decide_eq_true_eq] at hany
    omega

theorem OctalText.digits_eq (h : OctalText text lead digits tail) :
    (text.dropWhile isPad).takeWhile isOctalChar = digits := by
  rw [h.dropWhile_pad, List.takeWhile_append_of_pos (p := isOctalChar) fun c hc =>
    decide_eq_true (h.digits_octal c hc)]
  cases htail : tail with
  | nil => exact List.append_nil _
  | cons c rest =>
    rcases eq_of_isPad (h.tail_pad c (htail ▸ .head _)) with rfl | rfl
    · exact List.append_nil _
    · exact List.append_nil _

variable {size : Nat}

/-- `parseOctal` finds the same number, or none of it behind a NUL. -/
theorem parseOctal_of_parseTarOctal {header : List UInt8}
    (h : parseTarOctal (slice 124 136 header) label false = .ok size) (label' : String) :
    size = sizeValue header ∧
      parseOctal (slice 124 136 header) label' =
        .ok (if hasLeadingNul header then 0 else size) := by
  obtain ⟨decoded, lead, digits, tail, hdecoded, hfield, rfl, hsafe⟩ := parseTarOctal_ok h
  have htext : sizeText header = decoded.toList := by rw [sizeText, hdecoded]
  rw [sizeValue, hasLeadingNul, htext, hfield.digits_eq, hfield.takeWhile_pad]
  exact ⟨rfl, hfield.parseOctal hdecoded hsafe label'⟩

theorem validateTarNumbers_size {header : List UInt8} (h : validateTarNumbers header = .ok size) :
    parseTarOctal (slice 124 136 header) "size" false = .ok size := by
  rw [validateTarNumbers] at h
  repeat' split at h
  all_goals cases h
  assumption

/-- Extraction takes the payload that its own reading of the size announces. -/
theorem readPayload_ok {header rest payload more : List UInt8}
    (hsize : parseOctal (slice 124 136 header) "tar entry size" = .ok size)
    (h : readPayload header rest = .ok (payload, more)) :
    payload.length = size ∧ (size + 511) / 512 * 512 ≤ rest.length ∧
      more = rest.drop ((size + 511) / 512 * 512) := by
  rw [readPayload, hsize] at h
  simp only at h
  split at h
  · cases h
  split at h
  · cases h
  split at h <;> cases h
  rename_i hpayload hpadding
  exact ⟨List.length_take_of_le (Nat.le_of_not_lt hpayload), Nat.le_of_not_lt hpadding, rfl⟩

theorem readBlock_payload {pax : Pax} {header rest : List UInt8} {block : Block}
    (hzero : isZero header = false) (h : readBlock pax header rest = .ok block) :
    ∃ payload more next, readPayload header rest = .ok (payload, more) ∧
      (block = .records next more ∨ ∃ entry, block = .entry entry next more) := by
  rw [readBlock, hzero, if_neg Bool.false_ne_true] at h
  split at h
  · cases h
  simp only at h
  split at h
  · cases h
  split at h
  · cases h
  rename_i payload more hpayload
  refine ⟨payload, more, ?_⟩
  simp only [hpayload, true_and]
  split at h
  · cases h
  split at h
  · rw [readMeta] at h
    repeat' split at h
    all_goals cases h
    all_goals exact ⟨_, .inl rfl⟩
  split at h
  · cases h
  split at h
  · exact ⟨_, .inl (Except.ok.inj h).symm⟩
  · exact ⟨_, .inr ⟨_, (Except.ok.inj h).symm⟩⟩

variable {result : ExtractedArchive} {bytes : List UInt8} {fuel : Nat}

/-- One turn of each loop, on a header that both passes read. -/
theorem loops_cons (offset : Nat) {pax : Pax} {tree : Tree}
    (hzero : isZero (bytes.take blockSize) = false)
    (hvalid : validateTarBlocks (fuel + 1) bytes = .ok ())
    (hextract : extractLoop (fuel + 1) pax tree bytes = .ok result) :
    ∃ size taken next tree', size = sizeValue (bytes.take blockSize) ∧
      taken = (if hasLeadingNul (bytes.take blockSize) then 0 else size) ∧
      validatedLoop (fuel + 1) offset bytes =
        ⟨offset, tarType (bytes.take blockSize), size⟩ ::
          validatedLoop fuel (offset + (blockSize + (size + 511) / 512 * 512))
            (bytes.drop (blockSize + (size + 511) / 512 * 512)) ∧
      extractedLoop (fuel + 1) offset pax bytes =
        ⟨offset, tarType (bytes.take blockSize), taken⟩ ::
          extractedLoop fuel (offset + (blockSize + (taken + 511) / 512 * 512)) next
            (bytes.drop (blockSize + (taken + 511) / 512 * 512)) ∧
      validateTarBlocks fuel (bytes.drop (blockSize + (size + 511) / 512 * 512)) = .ok () ∧
      extractLoop fuel next tree' (bytes.drop (blockSize + (taken + 511) / 512 * 512)) =
        .ok result := by
  rw [validateTarBlocks] at hvalid
  split at hvalid
  · cases hvalid
  rename_i hlength
  simp only [hzero, if_neg Bool.false_ne_true] at hvalid
  split at hvalid
  · cases hvalid
  rename_i size hnumbers
  split at hvalid
  · cases hvalid
  split at hvalid
  · cases hvalid
  obtain ⟨hvalue, hoctal⟩ := parseOctal_of_parseTarOctal
    (validateTarNumbers_size hnumbers) "tar entry size"
  rw [extractLoop, if_neg hlength] at hextract
  cases hread : readBlock pax (bytes.take blockSize) (bytes.drop blockSize) with
  | error e => simp only [hread, reduceCtorEq] at hextract
  | ok block =>
    obtain ⟨payload, more, next, hpayload, hblock⟩ := readBlock_payload hzero hread
    obtain ⟨hlen, hroom, hmore⟩ := readPayload_ok hoctal hpayload
    rw [List.length_drop] at hroom
    rw [List.drop_drop] at hmore
    have hmoved : bytes.length - more.length = blockSize +
        ((if hasLeadingNul (bytes.take blockSize) then 0 else size) + 511) / 512 * 512 := by
      rw [hmore, List.length_drop]
      omega
    have hloop : extractedLoop (fuel + 1) offset pax bytes =
        ⟨offset, tarType (bytes.take blockSize), payload.length⟩ ::
          extractedLoop fuel (offset + (bytes.length - more.length)) next more := by
      rw [extractedLoop, if_neg hlength]
      rcases hblock with rfl | ⟨entry, rfl⟩ <;> simp only [hread, payloadSize, hpayload]
    obtain ⟨tree', htree⟩ : ∃ tree', extractLoop fuel next tree' more = .ok result := by
      rw [hread] at hextract
      rcases hblock with rfl | ⟨entry, rfl⟩
      · exact ⟨tree, hextract⟩
      · dsimp only at hextract
        split at hextract
        · cases hextract
        · exact ⟨_, hextract⟩
    refine ⟨size, _, next, tree', hvalue, rfl, ?_, ?_, hvalid, hmore ▸ htree⟩
    · rw [validatedLoop]
      simp only [hzero, hlength, hnumbers, Bool.false_eq_true, or_self, if_false]
    · rw [hloop, hlen, hmoved, hmore]

/-- From any position at which both passes stand: they frame alike exactly if every size is
plain. -/
theorem loops_eq_iff {offset : Nat} {pax : Pax} {tree : Tree}
    (hvalid : validateTarBlocks fuel bytes = .ok ())
    (hextract : extractLoop fuel pax tree bytes = .ok result) :
    extractedLoop fuel offset pax bytes = validatedLoop fuel offset bytes ↔
      sizesPlain fuel bytes = true := by
  induction fuel generalizing offset pax tree bytes with
  | zero => exact iff_of_true rfl rfl
  | succ fuel ih =>
    by_cases hzero : isZero (bytes.take blockSize) = true
    · -- the terminator: no pass reads a header
      have hnone : extractedLoop (fuel + 1) offset pax bytes = [] := by
        rw [extractedLoop]
        simp only [readBlock, hzero, if_true]
        split
        · rfl
        split
        · rfl
        · rfl
        · rename_i hread
          repeat' split at hread
          all_goals cases hread
        · rename_i hread
          repeat' split at hread
          all_goals cases hread
      rw [hnone, validatedLoop, sizesPlain]
      simp [hzero]
    obtain ⟨size, taken, next, tree', hsize, htaken, hframes, htakes, hvalid', hextract'⟩ :=
      loops_cons offset (by simpa using hzero) hvalid hextract
    rw [hframes, htakes, List.cons.injEq, EntryFrame.mk.injEq, sizesPlain, if_neg hzero, ← hsize]
    by_cases hnul : hasLeadingNul (bytes.take blockSize) = true
    · rw [if_pos hnul] at htaken
      subst htaken
      by_cases hpos : size = 0
      · subst hpos
        simpa [hnul] using ih hvalid' hextract'
      · simp [hnul, hpos, Ne.symm hpos]
    · rw [if_neg hnul] at htaken
      subst htaken
      simpa [hnul] using ih hvalid' hextract'

/-- The two passes see the same entries exactly in the archives in which no size other
than zero has a NUL before its digits. -/
theorem frames_eq_iff_sizesPlain {bytes : List UInt8} {archive : ExtractedArchive}
    (hframing : validateTarFraming bytes = .ok ()) (hextract : extractTar bytes = .ok archive) :
    extractedFrames bytes = validatedFrames bytes ↔ sizesPlain (bytes.length + 1) bytes = true := by
  rw [validateTarFraming] at hframing
  split at hframing
  · cases hframing
  rw [extractTar] at hextract
  split at hextract
  · cases hextract
  exact loops_eq_iff hframing hextract

/-- The header of a file named by one byte, with the texts of its size and checksum. -/
def fileHeader (name : UInt8) (size sum : List UInt8) : List UInt8 :=
  field 100 [name] ++ (octal 7 0o644 ++ [0]) ++ zeros 16 ++ field 12 size ++ zeros 12 ++
    field 8 sum ++ [0x30] ++ zeros 100 ++ [0x75, 0x73, 0x74, 0x61, 0x72, 0, 0x30, 0x30] ++ zeros 247

/-- A file of one block, which is itself a header. -/
def nestedHeader (size : List UInt8) : List UInt8 :=
  fileHeader 0x61 size (octal 7 1599) ++ fileHeader 0x62 [0x30] (octal 7 1455) ++ zeros 1024

/-- A turn of `extractTar` at the header of a file; the decoder is not run on ASCII texts. -/
theorem loops_file {pax : Pax} {tree tree' : Tree} {header rest : List UInt8} (offset : Nat)
    (name : Text) (path : Path) (payload more : List UInt8)
    (h : header.length = blockSize ∧ header.all (·.toNat < 0x80) ∧ isZero header = false ∧
      validateTarHeaderFormat header = .ok () ∧ tarType header = '0' ∧
      cutNul (Bytes.ascii (slice 0 100 header)) = name ∧
      cutNul (Bytes.ascii (slice 345 500 header)) = [] ∧
      cutNul (Bytes.ascii (slice 157 257 header)) = [] ∧ sanitizeTarPath name = .ok (some path) ∧
      readPayload header rest = .ok (payload, more) ∧ pax.nextPax = none ∧ pax.globalPax = [] ∧
      pax.nextLongName = none ∧ pax.entries + 1 ≤ maxEntries)
    (hadd : addEntry tree ⟨path, '0', payload⟩ = .ok tree') :
    extractLoop (fuel + 1) pax tree (header ++ rest) =
        extractLoop fuel pax.counted.consumed tree' more ∧
      extractedLoop (fuel + 1) offset pax (header ++ rest) = ⟨offset, '0', payload.length⟩ ::
        extractedLoop fuel (offset + (blockSize + rest.length - more.length))
          pax.counted.consumed more := by
  obtain ⟨hblock, hheader, hzero, hformat, htype, hname, hlead, hlink, hsanitize, hpayload, hnext,
    hglobal, hlong, hentries⟩ := h
  have hdecode : ∀ i j, decodeTarString (slice i j header) =
      .ok (Bytes.ascii (slice i j header)) := by
    intro i j
    have hascii : ∀ b ∈ slice i j header, b.toNat < 0x80 := fun b hb =>
      of_decide_eq_true (List.all_eq_true.mp hheader b
        (List.mem_of_mem_drop (List.mem_of_mem_take hb)))
    rw [decodeTarString, Bytes.textDecode_ascii hascii]
    exact congrArg Except.ok String.toList_ofList
  have hunlinked : validateLinkName header = .ok () := by
    simp only [validateLinkName, hdecode, hlink, ne_eq, not_true, if_false]
  have hpath : entryPath pax.counted header = .ok (some path) := by
    simp only [entryPath, Pax.counted, hnext, hglobal, hlong, tarHeaderPath, hdecode, hname, hlead]
    exact hsanitize
  have hread : readBlock pax header rest =
      .ok (.entry ⟨path, '0', payload⟩ pax.counted.consumed more) := by
    rw [readBlock, hzero, if_neg Bool.false_ne_true, hformat]
    show (if maxEntries < pax.entries + 1 then _ else _) = _
    simp only [if_neg (Nat.not_lt.mpr hentries), hpayload, hunlinked, htype, hpath]
    rfl
  have hlength : ¬ (header ++ rest).length < blockSize := by
    rw [List.length_append, hblock]
    omega
  rw [extractLoop, extractedLoop, List.take_left' hblock, List.drop_left' hblock, hread,
    if_neg hlength, if_neg hlength, List.length_append, hblock, htype, payloadSize, hpayload]
  simp only [hadd, and_self]

set_option maxRecDepth 8000 in
/-- A payload that looks like a header, behind a size without padding inside. -/
theorem frames_nested_header_eq :
    let bytes := nestedHeader [0x31, 0x30, 0x30, 0x30]
    extractedFrames bytes = validatedFrames bytes ↔ sizesPlain (bytes.length + 1) bytes = true := by
  have hframing : validateTarFraming (nestedHeader [0x31, 0x30, 0x30, 0x30]) = .ok () := by
    decide +kernel
  have hlength : (nestedHeader [0x31, 0x30, 0x30, 0x30]).length = 2048 := by decide +kernel
  have hextract : extractTar (nestedHeader [0x31, 0x30, 0x30, 0x30]) =
      .ok ⟨[(["a"], fileHeader 0x62 [0x30] (octal 7 1455))], []⟩ := by
    rw [extractTar, hlength, if_neg (by decide), nestedHeader, List.append_assoc,
      (loops_file 0 ['a'] ["a"] (fileHeader 0x62 [0x30] (octal 7 1455)) (zeros 1024)
        (by decide +kernel) rfl).1]
    decide +kernel
  exact frames_eq_iff_sizesPlain hframing hextract

set_option maxRecDepth 8000 in
/-- With a NUL before the digits, the block that was framed as a payload is extracted as
the header of another file. -/
theorem frames_nested_header_ne :
    let bytes := nestedHeader [0, 0x31, 0x30, 0x30, 0x30]
    validateTarFraming bytes = .ok () ∧
      extractTar bytes = .ok ⟨[(["a"], []), (["b"], [])], []⟩ ∧
      validatedFrames bytes = [⟨0, '0', 512⟩] ∧
      extractedFrames bytes = [⟨0, '0', 0⟩, ⟨512, '0', 0⟩] := by
  have hlength : (nestedHeader [0, 0x31, 0x30, 0x30, 0x30]).length = 2048 := by decide +kernel
  have hfirst := @loops_file 2048 .start .empty ⟨[(["a"], [])], [], [["a"]]⟩
    (fileHeader 0x61 [0, 0x31, 0x30, 0x30, 0x30] (octal 7 1599))
    (fileHeader 0x62 [0x30] (octal 7 1455) ++ zeros 1024) 0 ['a'] ["a"] []
    (fileHeader 0x62 [0x30] (octal 7 1455) ++ zeros 1024) (by decide +kernel) rfl
  have hsecond := @loops_file 2047 ⟨none, [], none, 1⟩ ⟨[(["a"], [])], [], [["a"]]⟩ _
    (fileHeader 0x62 [0x30] (octal 7 1455)) (zeros 1024) 512 ['b'] ["b"] [] (zeros 1024)
    (by decide +kernel) rfl
  refine ⟨by decide +kernel, ?_, by decide +kernel, ?_⟩
  · rw [extractTar, hlength, if_neg (by decide), nestedHeader, List.append_assoc, hfirst.1]
    exact hsecond.1.trans (by decide +kernel)
  · rw [extractedFrames, hlength, nestedHeader, List.append_assoc, hfirst.2]
    exact congrArg _ (hsecond.2.trans (by decide +kernel))

end Oliphaunt.PhysicalArchive
