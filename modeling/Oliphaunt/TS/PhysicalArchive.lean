import Oliphaunt.TS.StorageDelta
import Oliphaunt.TS.TarArchive

/-!
# Physical archives

`encodePhysicalArchive` writes a snapshot of PGDATA as a ustar archive, and
`decodePhysicalArchive` reads one back: it checks the framing of the tar, extracts it,
and validates the snapshot that it holds.
-/

namespace Oliphaunt.PhysicalArchive

open FileTree Tar TarArchive
open OpfsPool (wasixPhysicalIdentity isEntryName stringify)

structure StoredSnapshot where
  directories : List Path
  files : List (Path × List UInt8)
deriving DecidableEq, Repr

/-- The paths of the model are texts of Unicode scalar values, whose UTF-8 can be read back.
JavaScript's `TextEncoder` writes a lone surrogate as U+FFFD, so that a path which has one is
out of the model. -/
def encodeText (text : Text) : List UInt8 := Bytes.utf8 (String.ofList text)

/-- `segments.join('/')` -/
def joinPath (path : Path) : Text := ['/'].intercalate (path.map String.toList)

def splitUstarPath (path : Text) : Option (Text × Text) :=
  if (encodeText path).length ≤ 100 then some (path, [])
  else
    (lastSplit '/' (fun lead name => lead ≠ [] && (encodeText lead).length ≤ 155 &&
      (encodeText name).length ≤ 100) path).map fun s => (s.2, s.1)

/-- `writeOctal` of a number that fits. -/
def octalField (width value : Nat) : List UInt8 := octal (width - 1) value ++ [0]

/-- The header with the given bytes for its checksum. -/
def tarHeader (name lead : List UInt8) (type : Char) (size : Nat) (sum : List UInt8) :
    List UInt8 :=
  field 100 name ++ (octalField 8 (if type = '5' then 0o700 else 0o600) ++ (octalField 8 0 ++
    (octalField 8 0 ++ (octalField 12 size ++ (octalField 12 0 ++ (sum ++
    ([UInt8.ofNat type.toNat] ++ (zeros 100 ++ ([0x75, 0x73, 0x74, 0x61, 0x72, 0x00] ++
    ([0x30, 0x30] ++ (zeros 80 ++ (field 155 lead ++ zeros 12))))))))))))

def appendRawTarEntry (path : Text) (contents : List UInt8) (type : Char) :
    Except String (List UInt8) :=
  match splitUstarPath path with
  | none => .error ("tar path cannot be represented: " ++ String.ofList path)
  | some (name, lead) =>
    if 8 ^ 11 ≤ contents.length then .error "tar numeric field overflow"
    else
      let header := tarHeader (encodeText name) (encodeText lead) type contents.length
      let sum := byteSum (header (List.replicate 8 0x20))
      .ok (header (octal 6 sum ++ [0, 0x20]) ++ contents ++ zeros (padding contents.length))

def appendTarEntry (path : Text) (contents : List UInt8) (type : Char) :
    Except String (List UInt8) :=
  if splitUstarPath path = none then
    .error ("physical archive path cannot be represented by ustar: " ++ String.ofList path)
  else appendRawTarEntry path contents type

/-- The entries of an archive, one after the other. -/
def appendTarEntries : List (Text × List UInt8 × Char) → Except String (List UInt8)
  | [] => .ok []
  | (path, contents, type) :: rest =>
    match appendTarEntry path contents type with
    | .error e => .error e
    | .ok bytes =>
      match appendTarEntries rest with
      | .error e => .error e
      | .ok more => .ok (bytes ++ more)

def archiveManifestPath : Path := [".oliphaunt", "backup-manifest.properties"]

def archiveManifest : String :=
  "archiveLayout=oliphaunt-physical-archive-v1\n" ++ "product=oliphaunt\n" ++
    "engineFamily=wasix\n" ++ "physicalFormat=" ++ wasixPhysicalIdentity.physicalFormat ++ "\n" ++
    "postgresMajor=" ++ toString wasixPhysicalIdentity.postgresMajor ++ "\n"

/-- What `encodePhysicalArchive` appends before the terminator. -/
def archiveEntries (snapshot : StoredSnapshot) : List (Text × List UInt8 × Char) :=
  ("pgdata/".toList, [], '5') ::
    (snapshot.directories.map fun path => (joinPath ("pgdata" :: path) ++ ['/'], [], '5')) ++
    (snapshot.files.map fun file => (joinPath ("pgdata" :: file.1), file.2, '0')) ++
    [(joinPath archiveManifestPath, Bytes.utf8 archiveManifest, '0')]

def encodePhysicalArchive (snapshot : StoredSnapshot) : Except String (List UInt8) :=
  match appendTarEntries (archiveEntries snapshot) with
  | .error e => .error e
  | .ok bytes => .ok (bytes ++ zeros (blockSize * 2))

def corruptArchive (detail : String) : String := "physical archive " ++ detail

/-- A decoder that replaces invalid bytes returns no octal number for them either. -/
def parseTarOctal (bytes : List UInt8) (label : String) (allowEmpty : Bool) : Except String Nat :=
  let stripped := fun c : Char => c = Char.ofNat 0 || c = ' '
  match Bytes.textDecode bytes with
  | none => .error (corruptArchive ("contains an invalid tar " ++ label))
  | some decoded =>
    let text := ((decoded.toList.dropWhile stripped).reverse.dropWhile stripped).reverse
    if text = [] ∧ allowEmpty then .ok 0
    else if text = [] ∨ (text.any fun c => c.toNat < 0x30 || 0x37 < c.toNat) then
      .error (corruptArchive ("contains an invalid tar " ++ label))
    else if maxSafeInteger < parseDigits 8 text then
      .error (corruptArchive ("contains an oversized tar " ++ label))
    else .ok (parseDigits 8 text)

def decodeTarText (bytes : List UInt8) : Except String Text :=
  match Bytes.textDecode bytes with
  | some text => .ok text.toList
  | none => .error (corruptArchive "contains non-UTF-8 tar metadata")

/-- The numbers of a header: its checksum is right, its mode is one of permissions. -/
def validateTarNumbers (header : List UInt8) : Except String Nat :=
  match parseTarOctal (slice 148 156 header) "checksum" false with
  | .error e => .error e
  | .ok expected =>
    if expected ≠ checksum header then .error (corruptArchive "contains an invalid tar checksum")
    else
      match parseTarOctal (slice 100 108 header) "mode" false with
      | .error e => .error e
      | .ok mode =>
        match parseTarOctal (slice 108 116 header) "uid" true with
        | .error e => .error e
        | .ok _ =>
          match parseTarOctal (slice 116 124 header) "gid" true with
          | .error e => .error e
          | .ok _ =>
            match parseTarOctal (slice 124 136 header) "size" false with
            | .error e => .error e
            | .ok size =>
              match parseTarOctal (slice 136 148 header) "mtime" true with
              | .error e => .error e
              | .ok _ =>
                if 0o777 < mode then
                  .error (corruptArchive "contains unsupported tar permission bits")
                else .ok size

/-- The texts of a header, and its type. -/
def validateTarTexts (header : List UInt8) (size : Nat) : Except String Unit :=
  match decodeTarText (slice 257 263 header) with
  | .error e => .error e
  | .ok magic =>
    match decodeTarText (slice 263 265 header) with
    | .error e => .error e
    | .ok version =>
      if ¬ ((magic = "ustar\x00".toList ∧ version = "00".toList) ∨
          (magic = "ustar ".toList ∧ version = " \x00".toList)) then
        .error (corruptArchive "contains an unsupported tar header")
      else if tarType header ≠ '0' ∧ tarType header ≠ '5' then
        .error (corruptArchive ("contains unsupported tar entry type " ++
          stringify (String.ofList [tarType header])))
      else
        match decodeTarText (slice 157 257 header) with
        | .error e => .error e
        | .ok linkName =>
          if linkName.takeWhile (· ≠ Char.ofNat 0) ≠ [] then
            .error (corruptArchive "contains a tar link target")
          else if tarType header = '5' ∧ size ≠ 0 then
            .error (corruptArchive "contains a directory entry with data")
          else .ok ()

/-- The loop of `validateTarFraming`; every turn takes a block at least. -/
def validateTarBlocks : Nat → List UInt8 → Except String Unit
  | 0, _ => .error (corruptArchive "is missing a tar terminator")
  | fuel + 1, bytes =>
    if bytes.length < blockSize then .error (corruptArchive "is missing a tar terminator")
    else
      let header := bytes.take blockSize
      if isZero header then
        if bytes.length < blockSize * 2 ∨ ¬ isZero bytes then
          .error (corruptArchive "has trailing data after its tar terminator")
        else .ok ()
      else
        match validateTarNumbers header with
        | .error e => .error e
        | .ok size =>
          match validateTarTexts header size with
          | .error e => .error e
          | .ok () =>
            let entryLength := blockSize + (size + 511) / 512 * 512
            if bytes.length < entryLength then
              .error (corruptArchive "ends in the middle of an entry")
            else validateTarBlocks fuel (bytes.drop entryLength)

def validateTarFraming (bytes : List UInt8) : Except String Unit :=
  if bytes.length < blockSize * 2 ∨ bytes.length % blockSize ≠ 0 then
    .error (corruptArchive "has invalid tar framing")
  else validateTarBlocks (bytes.length + 1) bytes

def validateStoredPath (path : Path) : Except String Unit :=
  if path = [] ∨ path.head? = some "" then
    .error (corruptArchive ("contains invalid snapshot path " ++ stringify (pathText path)))
  else if ¬ path.all isEntryName then
    .error (corruptArchive ("contains unsafe snapshot path " ++ stringify (pathText path)))
  else .ok ()

/-- The paths one after the other, with those before them. -/
def validatePaths : List Path → List Path → Except String Unit
  | [], _ => .ok ()
  | path :: rest, paths =>
    match validateStoredPath path with
    | .error e => .error e
    | .ok () =>
      if paths.contains path then
        .error (corruptArchive ("repeats snapshot path " ++ stringify (pathText path)))
      else validatePaths rest (path :: paths)

def validateParents (directories : List Path) (files : List (Path × List UInt8)) (path : Path) :
    Except String Unit :=
  match (parentPaths path).find? fun parent => !directories.contains parent ||
      (files.map Prod.fst).contains parent with
  | none => .ok ()
  | some parent =>
    if (files.map Prod.fst).contains parent then
      .error (corruptArchive ("contains path " ++ stringify (pathText path) ++ " below file " ++
        stringify (pathText parent)))
    else
      .error (corruptArchive ("contains path " ++ stringify (pathText path) ++
        " without parent directory " ++ stringify (pathText parent)))

def fileBytes (files : List (Path × List UInt8)) (path : Path) : Option (List UInt8) :=
  (files.find? fun file => file.1 = path).map Prod.snd

/-- `PG_VERSION`, `global/pg_control` and `pg_wal` -/
def validateEssentials (directories : List Path) (files : List (Path × List UInt8)) :
    Except String Unit :=
  match fileBytes files ["PG_VERSION"], fileBytes files ["global", "pg_control"] with
  | some pgVersion, some pgControl =>
    if ¬ directories.contains ["pg_wal"] then
      .error (corruptArchive "is missing PG_VERSION, global/pg_control, or pg_wal")
    else if pgControl = [] then .error (corruptArchive "contains an empty global/pg_control")
    else
      match Bytes.textDecode pgVersion with
      | none => .error (corruptArchive "contains a non-UTF-8 PG_VERSION")
      | some text =>
        let major := toString wasixPhysicalIdentity.postgresMajor
        if String.ofList (trim text.toList) ≠ major then
          .error (corruptArchive ("contains PG_VERSION " ++
            stringify (String.ofList (trim text.toList)) ++ ", expected " ++ stringify major))
        else .ok ()
  | _, _ => .error (corruptArchive "is missing PG_VERSION, global/pg_control, or pg_wal")

def validateSnapshotSemantics (directories : List Path) (files : List (Path × List UInt8)) :
    Except String Unit :=
  let paths := directories ++ files.map Prod.fst
  match IncrementalStorage.volatileDatabaseFiles.find? fun name => paths.contains [name] with
  | some name =>
    .error (corruptArchive ("contains transient PostgreSQL process state " ++ stringify name))
  | none =>
    match paths.findSome? fun path => match validateParents directories files path with
      | .error e => some e
      | .ok () => none with
    | some e => .error e
    | none => validateEssentials directories files

/-- The rows in the order of `localeCompare` are the rows. -/
def validateStoredSnapshot (snapshot : StoredSnapshot) : Except String StoredSnapshot :=
  match validatePaths (snapshot.directories ++ snapshot.files.map Prod.fst) [] with
  | .error e => .error e
  | .ok () =>
    match validateSnapshotSemantics snapshot.directories snapshot.files with
    | .error e => .error e
    | .ok () =>
      .ok { snapshot with directories := IncrementalStorage.sortByDepth snapshot.directories }

/-- The directories of PGDATA, without the root and the directory of the manifest. -/
def archiveDirectories : List Path → Except String (List Path)
  | [] => .ok []
  | path :: rest =>
    if path = ["pgdata"] ∨ path = [".oliphaunt"] then archiveDirectories rest
    else
      match path with
      | "pgdata" :: relative => (archiveDirectories rest).map (relative :: ·)
      | _ => .error (corruptArchive ("contains unexpected directory " ++ stringify (pathText path)))

def archiveFiles : List (Path × List UInt8) → Except String (List (Path × List UInt8))
  | [] => .ok []
  | (path, bytes) :: rest =>
    if path = archiveManifestPath then archiveFiles rest
    else
      match path with
      | "pgdata" :: segment :: more =>
        if segment :: more = [".oliphaunt.json"] then
          .error (corruptArchive "contains destination-owned database-root metadata")
        else (archiveFiles rest).map ((segment :: more, bytes) :: ·)
      | _ => .error (corruptArchive ("contains unexpected file " ++ stringify (pathText path)))

/-- What `decodePhysicalArchive` makes of an extracted archive. -/
def readSnapshot (archive : ExtractedArchive) : Except String StoredSnapshot :=
  match fileBytes archive.files archiveManifestPath with
  | none => .error (corruptArchive "has a missing or incompatible backup manifest")
  | some manifest =>
    if Bytes.textDecode manifest ≠ some archiveManifest then
      .error (corruptArchive "has a missing or incompatible backup manifest")
    else
      match archiveDirectories archive.directories with
      | .error e => .error e
      | .ok directories =>
        match archiveFiles archive.files with
        | .error e => .error e
        | .ok files =>
          if (fileBytes files ["backup_label"]).getD [] = [] then
            .error (corruptArchive "has a missing or empty pgdata/backup_label")
          else if ¬ directories.contains ["base"] then
            .error (corruptArchive "is missing pgdata/base")
          else validateStoredSnapshot ⟨directories, files⟩

/-- A tar that cannot be extracted is reported as malformed. -/
def decodePhysicalArchive (bytes : List UInt8) : Except String StoredSnapshot :=
  match validateTarFraming bytes with
  | .error e => .error e
  | .ok () =>
    match extractTar bytes with
    | .error _ => .error (corruptArchive "is malformed")
    | .ok archive => readSnapshot archive

end Oliphaunt.PhysicalArchive
