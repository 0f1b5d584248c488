import Oliphaunt.Model.Bytes
import Oliphaunt.Model.FileTree
import Oliphaunt.Model.Tar
import Oliphaunt.TS.SqlScan

/-!
# Reading a tar archive

`extractTar` reads the blocks of an archive one header after the other. `readBlock` is
one turn of its loop up to the entry that the header names, pax records and long names
included; `addEntry` is what the turn does with the entry. The keys of the result are
the paths as the lists of their segments.

The tree is checked entry by entry against the ones before it. A file is refused below
a file that came before, but not above one: `extracted_tree_iff` says for which
archives the result is a tree.
-/

namespace Oliphaunt.TarArchive

open FileTree Tar

/-- The characters of a text. -/
abbrev Text := List Char

def maxArchiveBytes : Nat := 2 * 1024 * 1024 * 1024
def maxEntryBytes : Nat := 512 * 1024 * 1024
def maxEntries : Nat := 65536
def maxPathBytes : Nat := 1024
def maxPathDepth : Nat := 64

def maxSafeInteger : Nat := 9007199254740991

def decodeTarString (bytes : List UInt8) : Except String Text :=
  match Bytes.textDecode bytes with
  | some text => .ok text.toList
  | none => .error "The encoded data was not valid for encoding utf-8"

/-- What `.` does not match. -/
def isLineTerminator (c : Char) : Bool :=
  c = '\n' || c = '\r' || c.toNat = 0x2028 || c.toNat = 0x2029

/-- `.replace(/\0.*$/, '')` -/
def cutNul : Text → Text
  | [] => []
  | c :: rest =>
    if c = Char.ofNat 0 ∧ rest.all (fun c => !isLineTerminator c) then [] else c :: cutNul rest

def trim (text : Text) : Text :=
  ((text.dropWhile Sql.isWhitespace).reverse.dropWhile Sql.isWhitespace).reverse

/-- `Number.parseInt` of digits. -/
def parseDigits (base : Nat) (text : Text) : Nat :=
  text.foldl (fun acc c => acc * base + (c.toNat - 0x30)) 0

def parseOctal (bytes : List UInt8) (label : String) : Except String Nat :=
  match decodeTarString bytes with
  | .error e => .error e
  | .ok decoded =>
    let text := trim (cutNul decoded)
    if text = [] then .ok 0
    else if text.any fun c => c.toNat < 0x30 || 0x37 < c.toNat then
      .error (label ++ " is not an octal tar field")
    else if maxSafeInteger < parseDigits 8 text then
      .error (label ++ " is outside the safe integer range")
    else .ok (parseDigits 8 text)

def pathText (path : Path) : String := "/".intercalate path

/-- The proper ancestors, the shortest first. -/
def parentPaths (path : Path) : List Path :=
  ((List.range path.length).drop 1).map path.take

/-- `path.replace(/^\.\/+/, '')` -/
def dropDotSlash : Text → Text
  | '.' :: '/' :: rest => rest.dropWhile (· = '/')
  | path => path

def sanitizeTarPath (path : Text) : Except String (Option Path) :=
  let shown := String.ofList path
  if path.contains '\\' then .error ("tar entry path contains a backslash: " ++ shown)
  else
    let normalized := dropDotSlash path
    if normalized = [] ∨ normalized = ['.'] then .ok none
    else if normalized.head? = some '/' then
      .error ("tar entry path must be relative: " ++ shown)
    else if normalized.contains (Char.ofNat 0) then .error "tar entry path contains a NUL byte"
    else
      let segments := (normalized.splitOn '/').filter (· ≠ [])
      if maxPathBytes < (Bytes.utf8 (String.ofList normalized)).length ∨
          maxPathDepth < segments.length then
        .error ("tar entry path exceeds portability limits: " ++ shown)
      else if segments.any fun segment => segment = ['.'] || segment = ['.', '.'] then
        .error ("tar entry path escapes the install root: " ++ shown)
      else .ok (some (segments.map String.ofList))

def tarHeaderPath (header : List UInt8) : Except String Text :=
  match decodeTarString (slice 0 100 header) with
  | .error e => .error e
  | .ok name =>
    match decodeTarString (slice 345 500 header) with
    | .error e => .error e
    | .ok lead =>
      let name := cutNul name
      let lead := cutNul lead
      .ok (if lead ≠ [] then lead ++ '/' :: name else name)

/-- The own properties of an object, in the order in which they were set. -/
abbrev PaxValues := List (Text × Text)

def PaxValues.hasOwn (values : PaxValues) (key : Text) : Bool := values.any fun v => v.1 = key

def PaxValues.get (values : PaxValues) (key : Text) : Option Text :=
  (values.find? fun v => v.1 = key).map Prod.snd

/-- `values[key] = value`; a text cannot be made the prototype. -/
def PaxValues.set (values : PaxValues) (key value : Text) : PaxValues :=
  if key = "__proto__".toList then values else values ++ [(key, value)]

/-- One record: its key, its value and the rest of the payload. -/
def parsePaxRecord (payload : List UInt8) : Except String (Text × Text × List UInt8) :=
  match payload.findIdx? (· = 0x20) with
  | none => .error "malformed pax header record"
  | some space =>
    match decodeTarString (payload.take space) with
    | .error e => .error e
    | .ok lengthText =>
      let length := parseDigits 10 lengthText
      if lengthText = [] ∨ (lengthText.any fun c => c.toNat < 0x30 || 0x39 < c.toNat) then
        .error "invalid pax header record length"
      else if maxSafeInteger < length ∨ length = 0 then .error "invalid pax header record length"
      else if payload.length < length ∨ length ≤ space + 1 ∨ payload[length - 1]? ≠ some 0x0a then
        .error "malformed pax header key/value record"
      else
        match decodeTarString (slice (space + 1) length payload) with
        | .error e => .error e
        | .ok record =>
          let key := record.takeWhile (· ≠ '=')
          if ¬ record.contains '=' ∨ key = [] ∨ record.getLast? ≠ some '\n' then
            .error "malformed pax header key/value record"
          else .ok (key, (record.drop (key.length + 1)).dropLast, payload.drop length)

/-- `parsePaxPayload`; every record takes at least one byte. -/
def parsePaxRecords : Nat → List UInt8 → PaxValues → Except String PaxValues
  | _, [], values => .ok values
  | 0, _, _ => .error "malformed pax header record"
  | fuel + 1, payload, values =>
    match parsePaxRecord payload with
    | .error e => .error e
    | .ok (key, value, rest) =>
      if values.hasOwn key then .error ("pax header repeats key: " ++ String.ofList key)
      else parsePaxRecords fuel rest (values.set key value)

def validatePaxSemantics (values : PaxValues) : Except String Unit :=
  match values.find? fun v => v.1 = "size".toList || v.1 = "linkpath".toList ||
      "GNU.sparse.".toList.isPrefixOf v.1 with
  | some v => .error ("tar archive contains unsupported pax key: " ++ String.ofList v.1)
  | none => .ok ()

def parsePaxPayload (payload : List UInt8) : Except String PaxValues :=
  match parsePaxRecords payload.length payload [] with
  | .error e => .error e
  | .ok values =>
    match validatePaxSemantics values with
    | .error e => .error e
    | .ok () => .ok values

structure Pax where
  nextPax : Option PaxValues
  globalPax : PaxValues
  nextLongName : Option Text
  entries : Nat

namespace Pax

def start : Pax := ⟨none, [], none, 0⟩

/-- One more header has been read. -/
def counted (pax : Pax) : Pax := { pax with entries := pax.entries + 1 }

/-- The records for one entry have been used. -/
def consumed (pax : Pax) : Pax := { pax with nextPax := none, nextLongName := none }

end Pax

structure TarEntry where
  path : Path
  type : Char
  payload : List UInt8

inductive Block where
  | terminator
  | records (pax : Pax) (rest : List UInt8)
  | entry (entry : TarEntry) (pax : Pax) (rest : List UInt8)

def validateTarHeaderFormat (header : List UInt8) : Except String Unit :=
  match decodeTarString (slice 257 263 header) with
  | .error e => .error e
  | .ok magic =>
    match decodeTarString (slice 263 265 header) with
    | .error e => .error e
    | .ok version =>
      if (magic = "ustar\x00".toList ∧ version = "00".toList) ∨
          (magic = "ustar ".toList ∧ version = " \x00".toList) then .ok ()
      else .error "tar entry does not use a supported ustar header"

/-- The type of an entry; a zero byte is the type of a file. -/
def tarType (header : List UInt8) : Char :=
  match slice 156 157 header with
  | [byte] => if byte = 0 then '0' else Char.ofNat byte.toNat
  | _ => '0'

/-- The payload of an entry and what follows its padding. -/
def readPayload (header rest : List UInt8) : Except String (List UInt8 × List UInt8) :=
  match parseOctal (slice 124 136 header) "tar entry size" with
  | .error e => .error e
  | .ok size =>
    if maxEntryBytes < size then
      .error s!"tar entry exceeds the {maxEntryBytes}-byte size limit"
    else if rest.length < size then
      .error "tar archive ended in the middle of an entry payload"
    else if rest.length < (size + 511) / 512 * 512 then
      .error "tar archive ended in the middle of entry padding"
    else .ok (rest.take size, rest.drop ((size + 511) / 512 * 512))

def validateLinkName (header : List UInt8) : Except String Unit :=
  match decodeTarString (slice 157 257 header) with
  | .error e => .error e
  | .ok linkName =>
    if cutNul linkName ≠ [] then .error "tar archive contains a non-empty link target"
    else .ok ()

/-- The path that the records before a header, or the header itself, give to its entry. -/
def entryPath (pax : Pax) (header : List UInt8) : Except String (Option Path) :=
  let values := pax.nextPax.getD [] ++ pax.globalPax
  if (values.get "linkpath".toList).getD [] ≠ [] then
    .error "tar archive contains a non-empty pax link target"
  else
    match (values.get "path".toList).or pax.nextLongName with
    | some text => sanitizeTarPath text
    | none =>
      match tarHeaderPath header with
      | .error e => .error e
      | .ok text => sanitizeTarPath text

/-- A header that stands for records of the entry after it, or of all of them. -/
def readMeta (pax : Pax) (type : Char) (payload rest : List UInt8) : Except String Block :=
  if type = 'g' then
    match parsePaxPayload payload with
    | .error e => .error e
    | .ok additions =>
      match additions.find? fun v => pax.globalPax.hasOwn v.1 with
      | some v => .error ("tar archive repeats global pax key: " ++ String.ofList v.1)
      | none => .ok (.records { pax with globalPax := pax.globalPax ++ additions } rest)
  else if pax.nextPax.isSome ∨ pax.nextLongName.isSome then
    .error "tar archive repeats per-entry path metadata before an entry"
  else if type = 'x' then
    match parsePaxPayload payload with
    | .error e => .error e
    | .ok values => .ok (.records { pax with nextPax := some values } rest)
  else
    match decodeTarString payload with
    | .error e => .error e
    | .ok text =>
      let name := (text.reverse.dropWhile (· = Char.ofNat 0)).reverse
      .ok (.records { pax with nextLongName := some name } rest)

/-- One turn of the loop, up to the entry. -/
def readBlock (pax : Pax) (header rest : List UInt8) : Except String Block :=
  if isZero header then
    if pax.nextPax.isSome ∨ pax.nextLongName.isSome then
      .error "tar archive ends with dangling per-entry path metadata"
    else if rest.length < blockSize ∨ ¬ isZero rest then
      .error "tar archive has an invalid terminator"
    else .ok .terminator
  else
    match validateTarHeaderFormat header with
    | .error e => .error e
    | .ok () =>
      let pax := pax.counted
      if maxEntries < pax.entries then
        .error s!"tar archive exceeds the {maxEntries}-entry limit"
      else
        match readPayload header rest with
        | .error e => .error e
        | .ok (payload, rest) =>
          match validateLinkName header with
          | .error e => .error e
          | .ok () =>
            let type := tarType header
            if type = 'x' ∨ type = 'g' ∨ type = 'L' then readMeta pax type payload rest
            else
              match entryPath pax header with
              | .error e => .error e
              | .ok path =>
                match path with
                | none => .ok (.records pax.consumed rest)
                | some path => .ok (.entry ⟨path, type, payload⟩ pax.consumed rest)

structure ExtractedArchive where
  files : List (Path × List UInt8)
  directories : List Path
deriving DecidableEq, Repr

structure Tree where
  files : List (Path × List UInt8)
  directories : List Path
  explicitPaths : List Path

def Tree.empty : Tree := ⟨[], [], []⟩

def Tree.hasFile (tree : Tree) (path : Path) : Bool := (tree.files.map Prod.fst).contains path

/-- The paths up to `path` that are not there yet, the shortest first. -/
def addDirectoryWithAncestors (directories : List Path) (path : Path) : List Path :=
  (parentPaths path ++ [path]).foldl
    (fun directories p => if directories.contains p then directories else directories ++ [p])
    directories

def addEntry (tree : Tree) (entry : TarEntry) : Except String Tree :=
  let shown := pathText entry.path
  if tree.explicitPaths.contains entry.path then
    .error ("tar archive repeats entry path: " ++ shown)
  else
    let explicitPaths := tree.explicitPaths ++ [entry.path]
    match (parentPaths entry.path).find? tree.hasFile with
    | some ancestor =>
      .error ("tar entry " ++ shown ++ " is nested below file: " ++ pathText ancestor)
    | none =>
      if entry.type = '5' then
        if entry.payload ≠ [] then
          .error ("tar directory entry has a non-empty payload: " ++ shown)
        else if tree.hasFile entry.path then
          .error ("tar entry repeats an existing file as a directory: " ++ shown)
        else
          .ok { tree with
            directories := addDirectoryWithAncestors tree.directories entry.path
            explicitPaths }
      else if entry.type ≠ '0' then
        .error ("unsupported tar entry type '" ++ String.ofList [entry.type] ++ "' for " ++ shown)
      else if tree.directories.contains entry.path then
        .error ("tar archive repeats entry path: " ++ shown)
      else .ok { tree with files := tree.files ++ [(entry.path, entry.payload)], explicitPaths }

/-- The loop; every turn takes a block at least. -/
def extractLoop : Nat → Pax → Tree → List UInt8 → Except String ExtractedArchive
  | 0, _, _, _ => .error "tar archive is missing its two-block terminator"
  | fuel + 1, pax, tree, archive =>
    if archive.length < blockSize then
      .error "tar archive is missing its two-block terminator"
    else
      match readBlock pax (archive.take blockSize) (archive.drop blockSize) with
      | .error e => .error e
      | .ok .terminator => .ok ⟨tree.files, tree.directories⟩
      | .ok (.records pax rest) => extractLoop fuel pax tree rest
      | .ok (.entry entry pax rest) =>
        match addEntry tree entry with
        | .error e => .error e
        | .ok tree => extractLoop fuel pax tree rest

def extractTar (archive : List UInt8) : Except String ExtractedArchive :=
  if maxArchiveBytes < archive.length then
    .error s!"tar archive exceeds the {maxArchiveBytes}-byte extraction limit"
  else extractLoop (archive.length + 1) Pax.start Tree.empty archive

end Oliphaunt.TarArchive
