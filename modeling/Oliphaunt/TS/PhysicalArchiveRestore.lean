import Mathlib.Data.List.Perm.Basic
import Oliphaunt.TS.PhysicalArchiveRoundTrip

/-!
# Restoring a physical archive

* `decoded_snapshot_same` — what is decoded is the snapshot that was encoded;
* `decoded_snapshot_adds_parent` — a parent that was not listed is added;
* `accepted_iff_restorable` — the encoded snapshots that can be decoded;
* `segment_not_restored` — a full segment of a table cannot.

The reader has limits that the writer does not check, and it may drop a byte order mark
from a long path.
-/

namespace Oliphaunt.PhysicalArchive

open FileTree Tar TarArchive List
open OpfsPool (isEntryName)

section Unmarked

variable {snapshot : StoredSnapshot} {bytes : List UInt8}

theorem Encoded.readDirectory_eq (h : Encoded snapshot bytes) (hd : d ∈ snapshot.directories)
    (hmark : Unmarked d) : readDirectory d = d := by
  obtain ⟨name, lead, hsplit⟩ := h.split (mem_entries_directory hd)
  rw [readDirectory, readPath_directoryText (h.directories d hd).2 hmark (by rw [hsplit]; simp)]
  rfl

theorem Encoded.readFile_eq (h : Encoded snapshot bytes) (hf : f ∈ snapshot.files)
    (hmark : Unmarked f.1) : readFile f.1 = f.1 := by
  obtain ⟨name, lead, hsplit⟩ := h.split (mem_entries_file hf)
  rw [readFile, readPath_fileText (h.files f hf) hmark (by rw [hsplit]; simp)]
  rfl

theorem Encoded.filesRead_eq (h : Encoded snapshot bytes)
    (hmark : ∀ f ∈ snapshot.files, Unmarked f.1) : filesRead snapshot = snapshot.files := by
  refine (map_congr_left fun f hf => ?_).trans (map_id _)
  rw [h.readFile_eq hf (hmark f hf)]
  rfl

end Unmarked

/-- **Round trip.** A snapshot that lists the parents of its directories, under valid paths
without byte order marks and none twice, is decoded as it was encoded, up to order: the same
directories, the same files and the same bytes. -/
theorem decoded_snapshot_same {snapshot decoded : StoredSnapshot} {bytes : List UInt8}
    (hpaths : ∀ p ∈ snapshot.directories ++ snapshot.files.map Prod.fst,
      validateStoredPath p = .ok () ∧ Unmarked p)
    (hdistinct : (snapshot.directories ++ snapshot.files.map Prod.fst).Nodup)
    (hparents : ∀ d ∈ snapshot.directories, ∀ p ∈ parentPaths d, p ∈ snapshot.directories)
    (hencode : encodePhysicalArchive snapshot = .ok bytes)
    (hdecode : decodePhysicalArchive bytes = .ok decoded) :
    decoded.directories.Perm snapshot.directories ∧ decoded.files.Perm snapshot.files ∧
      ∀ p, fileBytes decoded.files p = fileBytes snapshot.files p := by
  have hdirectory : ∀ d ∈ snapshot.directories, IsStored d ∧ Unmarked d := by
    intro d hd
    obtain ⟨hstored, hmark⟩ := hpaths d (mem_append_left _ hd)
    exact ⟨validateStoredPath_ok_iff.mp hstored, hmark⟩
  have hfile : ∀ f ∈ snapshot.files, IsStored f.1 ∧ Unmarked f.1 := by
    intro f hf
    obtain ⟨hstored, hmark⟩ := hpaths f.1 (mem_append_right _ (mem_map_of_mem hf))
    exact ⟨validateStoredPath_ok_iff.mp hstored, hmark⟩
  have hencoded : Encoded snapshot bytes :=
    ⟨fun d hd => (hdirectory d hd).1, fun f hf => (hfile f hf).1, hencode⟩
  obtain ⟨relative, hrelative, hnodup, hmem⟩ := exists_directories snapshot
  obtain ⟨-, -, -, -, -, -, hsnapshot⟩ := (hencoded.decode_ok_iff hrelative).mp hdecode
  obtain ⟨-, rfl⟩ := validateStoredSnapshot_ok_iff.mp hsnapshot
  have hfiles := hencoded.filesRead_eq fun f hf => (hfile f hf).2
  have hsame : relative.Perm snapshot.directories := by
    rw [perm_ext_iff_of_nodup hnodup (nodup_append.mp hdistinct).1]
    intro p
    rw [hmem]
    constructor
    · rintro ⟨hne, d, hd, hle⟩
      rw [hencoded.readDirectory_eq hd (hdirectory d hd).2] at hle
      by_cases heq : p = d
      · exact heq ▸ hd
      · exact hparents d hd p (mem_parentPaths.mpr ⟨hne, hle, heq⟩)
    · intro hp
      refine ⟨(hdirectory p hp).1.1, p, hp, ?_⟩
      simp only [hencoded.readDirectory_eq hp (hdirectory p hp).2, prefix_rfl]
  refine ⟨(mergeSort_perm _ _).trans hsame, ?_, fun p => ?_⟩
  · rw [hfiles]
  · rw [hfiles]

theorem eq_ok_of_isOk {ε α : Type} {result : Except ε α} (h : result.isOk = true) :
    ∃ value, result = .ok value := by
  cases result with
  | error e => cases h
  | ok value => exact ⟨value, rfl⟩

variable {snapshot : StoredSnapshot}

/-- An encoded snapshot that is decoded, from what can be evaluated of it. -/
theorem exists_decoded (hpaths : ∀ p ∈ snapshot.directories ++ snapshot.files.map Prod.fst,
      validateStoredPath p = .ok ()) (hwritten : ∀ e ∈ archiveEntries snapshot,
      (splitUstarPath e.1).isSome = true ∧ e.2.1.length < 8 ^ 11) (hlimits : WithinLimits snapshot)
    (hlegible : ∀ p ∈ pathsRead snapshot, Legible (below p))
    (htree : (addEntries Tree.empty ((directoriesRead snapshot).map directoryEntry ++
      (archiveFilesRead snapshot).map fileEntry)).isOk = true)
    (hrelative : archiveDirectories (treeDirectories snapshot) = .ok relative)
    (hfiles : ∀ f ∈ filesRead snapshot, f.1 ≠ [] ∧ f.1 ≠ [".oliphaunt.json"])
    (hlabel : (fileBytes (filesRead snapshot) ["backup_label"]).getD [] ≠ [])
    (hbase : ["base"] ∈ relative)
    (hvalid : (validateStoredSnapshot ⟨relative, filesRead snapshot⟩).isOk = true) :
    ∃ bytes, encodePhysicalArchive snapshot = .ok bytes ∧
      decodePhysicalArchive bytes =
        .ok ⟨IncrementalStorage.sortByDepth relative, filesRead snapshot⟩ := by
  obtain ⟨entries, hentries⟩ := exists_appendTarEntries hwritten
  have hencode : encodePhysicalArchive snapshot = .ok (entries ++ zeros (blockSize * 2)) := by
    rw [encodePhysicalArchive, hentries]
  have hencoded : Encoded snapshot (entries ++ zeros (blockSize * 2)) := by
    refine ⟨fun d hd => ?_, fun f hf => ?_, hencode⟩
    · exact validateStoredPath_ok_iff.mp (hpaths d (mem_append_left _ hd))
    · exact validateStoredPath_ok_iff.mp
        (hpaths f.1 (mem_append_right _ (mem_map_of_mem hf)))
  obtain ⟨tree, htree⟩ := eq_ok_of_isOk htree
  obtain ⟨result, hresult⟩ := eq_ok_of_isOk hvalid
  refine ⟨_, hencode, (hencoded.decode_ok_iff hrelative).mpr
    ⟨hlimits, hlegible, ⟨tree, htree⟩, hfiles, hlabel, hbase, ?_⟩⟩
  rw [hresult, (validateStoredSnapshot_ok_iff.mp hresult).2]

instance (path : Path) : Decidable (Legible path) :=
  inferInstanceAs (Decidable (_ ∧ _ ∧ _))

instance (snapshot : StoredSnapshot) : Decidable (WithinLimits snapshot) :=
  decidable_of_iff (entriesSize (archiveEntries snapshot) + 1024 ≤ maxArchiveBytes ∧
    snapshot.directories.length + snapshot.files.length + 2 ≤ maxEntries ∧
    ∀ f ∈ snapshot.files, f.2.length ≤ maxEntryBytes)
    ⟨fun h => ⟨h.1, h.2.1, h.2.2⟩, fun h => ⟨h.1, h.2, h.3⟩⟩

instance (path : Path) : Decidable (Unmarked path) :=
  inferInstanceAs (Decidable (∀ _ ∈ _, _))

/-- A snapshot with the given directories next to those that every one has. -/
def clusterWith (directories : List Path) : StoredSnapshot where
  directories := [["base"], ["global"], ["pg_wal"]] ++ directories
  files := [(["PG_VERSION"], [0x31, 0x38, 0x0a]), (["backup_label"], [0x31]),
    (["global", "pg_control"], [0x31])]

/-- The least cluster comes back. -/
theorem decoded_snapshot_same_cluster : ∃ bytes decoded,
    encodePhysicalArchive (clusterWith []) = .ok bytes ∧
    decodePhysicalArchive bytes = .ok decoded ∧
    decoded.directories.Perm (clusterWith []).directories ∧
    decoded.files.Perm (clusterWith []).files ∧
    ∀ p, fileBytes decoded.files p = fileBytes (clusterWith []).files p := by
  have hrelative : archiveDirectories (treeDirectories (clusterWith [])) =
      .ok (clusterWith []).directories := by rfl
  obtain ⟨bytes, hencode, hdecode⟩ := exists_decoded (by decide +kernel) (by decide +kernel)
    (by decide +kernel) (by decide +kernel) (by decide +kernel) hrelative (by decide +kernel)
    (by decide +kernel) (by decide +kernel) (by decide +kernel)
  exact ⟨bytes, _, hencode, hdecode, decoded_snapshot_same (by decide +kernel) (by decide +kernel)
    (by decide +kernel) hencode hdecode⟩

/-- A directory whose parent is not listed comes back with its parent. -/
theorem decoded_snapshot_adds_parent : ∃ bytes decoded,
    (∀ p ∈ (clusterWith [["a", "b"]]).directories ++ (clusterWith [["a", "b"]]).files.map Prod.fst,
      validateStoredPath p = .ok () ∧ Unmarked p) ∧
    ((clusterWith [["a", "b"]]).directories ++
      (clusterWith [["a", "b"]]).files.map Prod.fst).Nodup ∧
    encodePhysicalArchive (clusterWith [["a", "b"]]) = .ok bytes ∧
    decodePhysicalArchive bytes = .ok decoded ∧
    ["a"] ∈ decoded.directories ∧ ["a"] ∉ (clusterWith [["a", "b"]]).directories := by
  have hrelative : archiveDirectories (treeDirectories (clusterWith [["a", "b"]])) =
      .ok [["base"], ["global"], ["pg_wal"], ["a"], ["a", "b"]] := by rfl
  obtain ⟨bytes, hencode, hdecode⟩ := exists_decoded (by decide +kernel) (by decide +kernel)
    (by decide +kernel) (by decide +kernel) (by decide +kernel) hrelative (by decide +kernel)
    (by decide +kernel) (by decide +kernel) (by decide +kernel)
  refine ⟨bytes, _, by decide +kernel, by decide +kernel, hencode, hdecode, ?_, by decide +kernel⟩
  exact IncrementalStorage.mem_sortByDepth.mpr (by decide +kernel)

/-! ## Snapshots that can be restored -/

/-- The limits of the reader, and what it needs of the paths as it reads them. -/
structure Restorable (snapshot : StoredSnapshot) : Prop where
  limits : WithinLimits snapshot
  depth : ∀ p ∈ pathsRead snapshot, p.length < maxPathDepth
  dots : ∀ p ∈ pathsRead snapshot, "." ∉ p ∧ ".." ∉ p
  distinct : ([] :: pathsRead snapshot).Nodup
  leaves : ∀ f ∈ snapshot.files, ∀ d ∈ snapshot.directories, ¬ readFile f.1 <+: readDirectory d
  parents : ∀ f ∈ snapshot.files, (readFile f.1).dropLast ≠ [] →
    ∃ d ∈ snapshot.directories, (readFile f.1).dropLast <+: readDirectory d
  owned : ∀ f ∈ snapshot.files, readFile f.1 ≠ [".oliphaunt.json"]
  persistent : ∀ p ∈ pathsRead snapshot, ∀ name ∈ IncrementalStorage.volatileDatabaseFiles,
    p.head? ≠ some name

variable {p : Path}

theorem legible_below :
    Legible (below p) ↔ p.length < maxPathDepth ∧ "." ∉ p ∧ ".." ∉ p := by
  rw [Legible, below, length_cons, mem_cons, mem_cons]
  simp only [show ("." = "pgdata") = False from by decide,
    show (".." = "pgdata") = False from by decide, false_or]
  exact Iff.rfl

theorem below_injective : Function.Injective below := fun _ _ h => (List.cons.inj h).2

theorem insertedPaths (snapshot : StoredSnapshot) :
    directoriesRead snapshot ++ (archiveFilesRead snapshot).map Prod.fst =
      ([] :: pathsRead snapshot).map below ++ [archiveManifestPath] := by
  simp only [directoriesRead, archiveFilesRead, filesRead, pathsRead, map_append,
    map_cons, map_map, map_nil, cons_append, append_assoc]
  rfl

theorem nodup_insertedPaths :
    (directoriesRead snapshot ++ (archiveFilesRead snapshot).map Prod.fst).Nodup ↔
      ([] :: pathsRead snapshot).Nodup := by
  rw [insertedPaths]
  constructor
  · exact fun h => (nodup_append.mp h).1.of_map _
  · intro h
    refine nodup_append.mpr ⟨h.map below_injective, nodup_singleton _, ?_⟩
    rintro p hp q hq rfl
    obtain ⟨path, -, rfl⟩ := mem_map.mp hp
    exact absurd (List.cons.inj (mem_singleton.mp hq)).1 (by decide)

theorem mem_archiveFilesRead :
    p ∈ (archiveFilesRead snapshot).map Prod.fst ↔
      (∃ f ∈ snapshot.files, p = below (readFile f.1)) ∨ p = archiveManifestPath := by
  rw [archiveFilesRead, filesRead]
  simp only [map_append, map_map, mem_append, mem_map, map_cons,
    map_nil, mem_singleton, Function.comp]
  refine or_congr (exists_congr fun f => and_congr Iff.rfl ?_) Iff.rfl
  exact eq_comm

/-- The directories of the extracted tree are those that were encoded, with all above them. -/
theorem below_mem_treeDirectories :
    below p ∈ treeDirectories snapshot ↔
      p = [] ∨ ∃ d ∈ snapshot.directories, p <+: readDirectory d := by
  rw [mem_treeDirectories]
  constructor
  · rintro ⟨path, heq, hpath⟩
    rwa [below_injective heq]
  · exact fun h => ⟨p, rfl, h⟩

/-- A path above another lies above its parent, or is its parent. -/
theorem isAbove_iff_dropLast : IsAbove p q ↔ q ≠ [] ∧ p <+: q.dropLast := by
  constructor
  · rintro ⟨hle, hne⟩
    have hq : q ≠ [] := by
      rintro rfl
      exact hne (prefix_nil.mp hle)
    refine ⟨hq, ?_⟩
    rw [← dropLast_append_getLast hq, prefix_concat_iff] at hle
    rcases hle with heq | hle
    · exact absurd (heq.trans (dropLast_append_getLast hq)) hne
    · exact hle
  · rintro ⟨hq, hle⟩
    have hup : q.dropLast <+: q := dropLast_prefix q
    refine ⟨hle.trans hup, ?_⟩
    rintro rfl
    have hlength := hle.length_le
    have hpos := length_pos_of_ne_nil hq
    rw [length_dropLast] at hlength
    omega

section Restore

variable {snapshot : StoredSnapshot}

/-- The entries of a restorable snapshot go into the tree one by one without a conflict. -/
theorem Restorable.tree (h : Restorable snapshot) :
    ∃ tree, addEntries Tree.empty ((directoriesRead snapshot).map directoryEntry ++
      (archiveFilesRead snapshot).map fileEntry) = .ok tree := by
  have hnil : ∀ f ∈ snapshot.files, readFile f.1 ≠ [] := by
    intro f hf heq
    refine (nodup_cons.mp h.distinct).1 ?_
    rw [← heq]
    exact mem_append_right _ (mem_map.mpr ⟨f, hf, rfl⟩)
  have hapart : ∀ p ∈ (archiveFilesRead snapshot).map Prod.fst, p ∉ treeDirectories snapshot := by
    intro p hp
    rcases mem_archiveFilesRead.mp hp with ⟨f, hf, rfl⟩ | rfl
    · rw [below_mem_treeDirectories]
      rintro (hempty | ⟨d, hd, hle⟩)
      · exact hnil f hf hempty
      · exact h.leaves f hf d hd hle
    · rw [mem_treeDirectories]
      rintro ⟨path, heq, -⟩
      exact absurd (List.cons.inj heq).1 (by decide)
  refine addEntries_archive_ok (nodup_insertedPaths.mpr h.distinct)
    (fun f hf => hapart f.1 (mem_map_of_mem hf)) ?_
  intro g hg p hp hmem
  obtain ⟨hne, habove⟩ := mem_parentPaths.mp hp
  rcases mem_archiveFilesRead.mp (mem_map_of_mem hg : g.1 ∈ _) with ⟨f, hf, heq⟩ | heq
  · -- what lies above a file of PGDATA is a directory of the tree
    refine hapart p hmem ?_
    cases p with
    | nil => exact absurd rfl hne
    | cons first rest =>
      rw [heq] at habove
      obtain ⟨rfl, hle⟩ := cons_prefix_cons.mp habove.1
      rw [show "pgdata" :: rest = below rest from rfl, below_mem_treeDirectories]
      by_cases hrest : rest = []
      · exact .inl hrest
      · right
        have hproper : IsAbove rest (readFile f.1) :=
          ⟨hle, fun h => habove.2 (congrArg below h)⟩
        have hparent := (isAbove_iff_dropLast.mp hproper).2
        obtain ⟨d, hd, hdir⟩ := h.parents f hf fun hempty => by
          rw [hempty] at hparent
          exact hrest (prefix_nil.mp hparent)
        exact ⟨d, hd, hparent.trans hdir⟩
  · rw [heq] at habove
    rcases mem_archiveFilesRead.mp hmem with ⟨f, -, rfl⟩ | rfl
    · exact absurd (cons_prefix_cons.mp habove.1).1 (by decide)
    · exact habove.2 rfl

variable {files : List (Path × List UInt8)} {bytes : List UInt8} {p : Path}
  {directories : List Path}

theorem fileBytes_eq_some (h : fileBytes files p = some bytes) : (p, bytes) ∈ files := by
  obtain ⟨file, hfind, rfl⟩ := Option.map_eq_some_iff.mp h
  have hpath : file.1 = p := by simpa using List.find?_some hfind
  rw [← hpath]
  exact mem_of_find?_eq_some hfind

theorem fileBytes_of_mem (hnodup : (files.map Prod.fst).Nodup) (h : (p, bytes) ∈ files) :
    fileBytes files p = some bytes := by
  induction files with
  | nil => cases h
  | cons f files ih =>
    rw [map_cons, nodup_cons] at hnodup
    rw [fileBytes, List.find?_cons]
    rcases mem_cons.mp h with rfl | h
    · simp
    · have hother : f.1 ≠ p := by
        rintro rfl
        exact hnodup.1 (mem_map.mpr ⟨_, h, rfl⟩)
      rw [decide_eq_false hother]
      exact ih hnodup.2 h

/-- A file whose path is read as it is keeps its bytes. -/
theorem Restorable.fileBytes (h : Restorable snapshot) (hread : readFile p = p)
    (hfile : fileBytes snapshot.files p = some bytes) :
    fileBytes (filesRead snapshot) p = some bytes := by
  have hnodup : ((filesRead snapshot).map Prod.fst).Nodup := by
    rw [filesRead, map_map]
    exact (nodup_append.mp (nodup_cons.mp h.distinct).2).2.1
  refine fileBytes_of_mem hnodup (mem_map.mpr ⟨_, fileBytes_eq_some hfile, ?_⟩)
  rw [hread]

theorem validateEssentials_present (h : validateEssentials directories files = .ok ()) :
    ∃ pgVersion pgControl, fileBytes files ["PG_VERSION"] = some pgVersion ∧
      fileBytes files ["global", "pg_control"] = some pgControl ∧ ["pg_wal"] ∈ directories := by
  rw [validateEssentials] at h
  split at h <;> try cases h
  rename_i pgVersion pgControl hversion hcontrol
  split at h <;> try cases h
  rename_i hwal
  rw [not_not, contains_iff_mem] at hwal
  exact ⟨pgVersion, pgControl, hversion, hcontrol, hwal⟩

theorem validateEssentials_congr
    (hversion : fileBytes files ["PG_VERSION"] = fileBytes files' ["PG_VERSION"])
    (hcontrol : fileBytes files ["global", "pg_control"] =
      fileBytes files' ["global", "pg_control"])
    (hwal : directories.contains ["pg_wal"] = directories'.contains ["pg_wal"]) :
    validateEssentials directories files = validateEssentials directories' files' := by
  rw [validateEssentials, hversion, hcontrol, hwal, ← validateEssentials]

/-- The snapshot of the tree is valid when the one that was encoded is. -/
theorem Restorable.valid (h : Restorable snapshot) (hvalid : Valid snapshot)
    (hencoded : Encoded snapshot bytes) {relative : List Path} (hnodup : relative.Nodup)
    (hmem : ∀ p, p ∈ relative ↔ p ≠ [] ∧ ∃ d ∈ snapshot.directories, p <+: readDirectory d) :
    Valid ⟨relative, filesRead snapshot⟩ := by
  have hfile : ∀ {p}, p ∈ (filesRead snapshot).map Prod.fst →
      ∃ f ∈ snapshot.files, readFile f.1 = p := by
    intro p hp
    rw [filesRead, map_map] at hp
    exact mem_map.mp hp
  have hleaf : ∀ {p}, p ∈ (filesRead snapshot).map Prod.fst → p ∉ relative := by
    intro p hp hrelative
    obtain ⟨f, hf, rfl⟩ := hfile hp
    obtain ⟨-, d, hd, hle⟩ := (hmem _).mp hrelative
    exact h.leaves f hf d hd hle
  have hdistinct := nodup_cons.mp h.distinct
  have hlegible : ∀ p ∈ pathsRead snapshot, Legible (below p) := fun p hp =>
    legible_below.mpr ⟨h.depth p hp, h.dots p hp⟩
  refine ⟨?_, ?_, ?_, ?_, ?_⟩
  · intro p hp
    rcases mem_append.mp hp with hp | hp
    · obtain ⟨hne, d, hd, hle⟩ := (hmem p).mp hp
      obtain ⟨name, lead, hsplit⟩ := hencoded.split (mem_entries_directory hd)
      have hread : Legible (readPath (directoryText d)) := by
        rw [hencoded.readPath_directory hd]
        exact hlegible _ (mem_append_left _ (mem_map_of_mem hd))
      exact ⟨hne, fun part hpart => (hencoded.plain_directory hd).readPath_names hsplit hread part
        (mem_of_mem_tail (hle.subset hpart))⟩
    · obtain ⟨f, hf, rfl⟩ := hfile hp
      have hmemRead : readFile f.1 ∈ pathsRead snapshot :=
        mem_append_right _ (mem_map.mpr ⟨f, hf, rfl⟩)
      obtain ⟨name, lead, hsplit⟩ := hencoded.split (mem_entries_file hf)
      have hread : Legible (readPath (fileText f.1)) := by
        rw [hencoded.readPath_file hf]
        exact hlegible _ hmemRead
      refine ⟨fun heq => hdistinct.1 (heq ▸ hmemRead), fun part hpart => ?_⟩
      exact (hencoded.plain_file hf).readPath_names hsplit hread part (mem_of_mem_tail hpart)
  · refine nodup_append.mpr ⟨hnodup, ?_, ?_⟩
    · rw [filesRead, map_map]
      exact (nodup_append.mp hdistinct.2).2.1
    · rintro p hp q hq rfl
      exact hleaf hq hp
  · intro name hname hp
    rcases mem_append.mp hp with hp | hp
    · obtain ⟨-, d, hd, hle⟩ := (hmem _).mp hp
      refine h.persistent _ (mem_append_left _ (mem_map_of_mem hd)) name hname ?_
      obtain ⟨rest, hrest⟩ := hle
      rw [← hrest]
      rfl
    · obtain ⟨f, hf, heq⟩ := hfile hp
      refine h.persistent (readFile f.1)
        (mem_append_right _ (mem_map.mpr ⟨f, hf, rfl⟩)) name hname ?_
      rw [heq]
      rfl
  · intro p hp q hq
    obtain ⟨hne, habove⟩ := mem_parentPaths.mp hq
    have hdirectory : q ∈ relative := by
      rcases mem_append.mp hp with hp | hp
      · obtain ⟨-, d, hd, hle⟩ := (hmem p).mp hp
        exact (hmem q).mpr ⟨hne, d, hd, habove.1.trans hle⟩
      · obtain ⟨f, hf, rfl⟩ := hfile hp
        have hparent := (isAbove_iff_dropLast.mp habove).2
        obtain ⟨d, hd, hle⟩ := h.parents f hf fun hempty => by
          rw [hempty] at hparent
          exact hne (prefix_nil.mp hparent)
        exact (hmem q).mpr ⟨hne, d, hd, hparent.trans hle⟩
    exact ⟨hdirectory, fun hleafed => hleaf hleafed hdirectory⟩
  · obtain ⟨pgVersion, pgControl, hversion, hcontrol, hwal⟩ :=
      validateEssentials_present hvalid.essentials
    have hwalRead : ["pg_wal"] ∈ relative := by
      refine (hmem _).mpr ⟨cons_ne_nil _ _, _, hwal, ?_⟩
      simp only [show readDirectory ["pg_wal"] = ["pg_wal"] from by decide +kernel,
        prefix_rfl]
    rw [← hvalid.essentials]
    refine validateEssentials_congr ?_ ?_ ?_
    · rw [h.fileBytes (by decide +kernel) hversion, hversion]
    · rw [h.fileBytes (by decide +kernel) hcontrol, hcontrol]
    · rw [contains_iff_mem.mpr hwalRead, contains_iff_mem.mpr hwal]

end Restore

/-- **What the reader accepts.** Of the valid snapshots that the writer encodes, with `base`
and a backup label, exactly the restorable ones can be decoded. -/
theorem accepted_iff_restorable {snapshot stored : StoredSnapshot} {bytes : List UInt8}
    (hstored : validateStoredSnapshot snapshot = .ok stored)
    (hbase : ["base"] ∈ snapshot.directories)
    (hlabel : (fileBytes snapshot.files ["backup_label"]).getD [] ≠ [])
    (hencode : encodePhysicalArchive snapshot = .ok bytes) :
    (∃ decoded, decodePhysicalArchive bytes = .ok decoded) ↔ Restorable snapshot := by
  have hvalid := (validateStoredSnapshot_ok_iff.mp hstored).1
  have hencoded : Encoded snapshot bytes :=
    ⟨fun d hd => hvalid.stored d (mem_append_left _ hd),
      fun f hf => hvalid.stored f.1 (mem_append_right _ (mem_map_of_mem hf)), hencode⟩
  obtain ⟨relative, hrelative, hnodup, hmem⟩ := exists_directories snapshot
  constructor
  · rintro ⟨decoded, hdecode⟩
    obtain ⟨hlimits, hlegible, ⟨tree, htree⟩, hnamed, -, -, hsnapshot⟩ :=
      (hencoded.decode_ok_iff hrelative).mp hdecode
    obtain ⟨hinserted, hapart, -, -⟩ := addEntries_archive htree
    have hread := (validateStoredSnapshot_ok_iff.mp hsnapshot).1
    have hfile : ∀ f ∈ snapshot.files, (readFile f.1, f.2) ∈ filesRead snapshot := fun f hf =>
      mem_map_of_mem (f := fun f : Path × List UInt8 => (readFile f.1, f.2)) hf
    have hparents : ∀ f ∈ snapshot.files, ∀ q, q ≠ [] → IsAbove q (readFile f.1) → q ∈ relative :=
      fun f hf q hne habove => (hread.parents (readFile f.1)
        (mem_append_right _ (mem_map_of_mem (hfile f hf))) q
        (mem_parentPaths.mpr ⟨hne, habove⟩)).1
    refine ⟨hlimits, fun p hp => (legible_below.mp (hlegible p hp)).1,
      fun p hp => (legible_below.mp (hlegible p hp)).2, nodup_insertedPaths.mp hinserted,
      ?_, ?_, fun f hf => (hnamed _ (hfile f hf)).2, ?_⟩
    · intro f hf d hd hle
      obtain ⟨g, hg, hpath⟩ := mem_map.mp
        (mem_archiveFilesRead.mpr (.inl ⟨f, hf, rfl⟩) : below (readFile f.1) ∈ _)
      refine hapart g hg ?_
      rw [hpath]
      exact below_mem_treeDirectories.mpr (.inr ⟨d, hd, hle⟩)
    · intro f hf hne
      have hnonempty : readFile f.1 ≠ [] := (hnamed _ (hfile f hf)).1
      have habove := isAbove_iff_dropLast.mpr ⟨hnonempty, prefix_refl _⟩
      exact ((hmem _).mp (hparents f hf _ hne habove)).2
    · intro p hp name hname hhead
      have hfirst : [name] <+: p := by
        cases p with
        | nil => cases hhead
        | cons first rest =>
          obtain rfl : first = name := Option.some.inj hhead
          exact ⟨rest, rfl⟩
      refine hread.persistent name hname ?_
      rcases mem_append.mp hp with hp | hp
      · obtain ⟨d, hd, rfl⟩ := mem_map.mp hp
        exact mem_append_left _ ((hmem _).mpr ⟨cons_ne_nil _ _, d, hd, hfirst⟩)
      · obtain ⟨f, hf, rfl⟩ := mem_map.mp hp
        by_cases heq : [name] = readFile f.1
        · rw [heq]
          exact mem_append_right _ (mem_map_of_mem (hfile f hf))
        · exact mem_append_left _ (hparents f hf _ (cons_ne_nil _ _) ⟨hfirst, heq⟩)
  · intro h
    have hread := h.valid hvalid hencoded hnodup hmem
    refine ⟨_, (hencoded.decode_ok_iff hrelative).mpr
      ⟨h.limits, fun p hp => legible_below.mpr ⟨h.depth p hp, h.dots p hp⟩, h.tree, ?_, ?_, ?_,
        validateStoredSnapshot_ok_iff.mpr ⟨hread, rfl⟩⟩⟩
    · intro g hg
      obtain ⟨f, hf, rfl⟩ := mem_map.mp hg
      refine ⟨fun hempty => (nodup_cons.mp h.distinct).1 ?_, h.owned f hf⟩
      rw [← hempty]
      exact mem_append_right _ (mem_map.mpr ⟨f, hf, rfl⟩)
    · cases hbytes : fileBytes snapshot.files ["backup_label"] with
      | none =>
        rw [hbytes] at hlabel
        exact absurd rfl hlabel
      | some label =>
        rw [h.fileBytes (by decide +kernel) hbytes]
        rwa [hbytes] at hlabel
    · refine (hmem _).mpr ⟨cons_ne_nil _ _, _, hbase, ?_⟩
      simp only [show readDirectory ["base"] = ["base"] from by decide +kernel,
        prefix_rfl]

/-- The writer fails only on a path or a size that does not fit its header. -/
theorem encodePhysicalArchive_ok (h : ∀ e ∈ archiveEntries snapshot,
      (splitUstarPath e.1).isSome = true ∧ e.2.1.length < 8 ^ 11) :
    ∃ bytes, encodePhysicalArchive snapshot = .ok bytes := by
  obtain ⟨entries, hentries⟩ := exists_appendTarEntries h
  rw [encodePhysicalArchive, hentries]
  exact ⟨_, rfl⟩

/-- The least cluster satisfies the premises. -/
theorem accepted_iff_restorable_cluster : ∃ stored bytes,
    validateStoredSnapshot (clusterWith []) = .ok stored ∧
    encodePhysicalArchive (clusterWith []) = .ok bytes ∧
    ((∃ decoded, decodePhysicalArchive bytes = .ok decoded) ↔ Restorable (clusterWith [])) := by
  obtain ⟨bytes, hencode⟩ :=
    encodePhysicalArchive_ok (by decide +kernel :
      ∀ e ∈ archiveEntries (clusterWith []), (splitUstarPath e.1).isSome = true ∧ _)
  obtain ⟨stored, hstored⟩ :=
    eq_ok_of_isOk (by decide +kernel : (validateStoredSnapshot (clusterWith [])).isOk = true)
  exact ⟨stored, bytes, hstored, hencode,
    accepted_iff_restorable hstored (by decide +kernel) (by decide +kernel) hencode⟩

/-- A snapshot with one full segment of a table, which has 1 GiB. -/
def clusterWithSegment : StoredSnapshot where
  directories := (clusterWith []).directories
  files := (["base", "1"], List.replicate (1024 * 1024 * 1024) 0) :: (clusterWith []).files

theorem clusterWithSegment_written : ∀ e ∈ archiveEntries clusterWithSegment,
    (splitUstarPath e.1).isSome = true ∧ e.2.1.length < 8 ^ 11 := by
  have hother : ∀ e ∈ archiveEntries (clusterWith []),
      (splitUstarPath e.1).isSome = true ∧ e.2.1.length < 8 ^ 11 := by decide +kernel
  intro e he
  rcases mem_archiveEntries.mp he with h | h | ⟨f, hf, rfl⟩ | h
  · exact hother e (mem_archiveEntries.mpr (.inl h))
  · exact hother e (mem_archiveEntries.mpr (.inr (.inl h)))
  · rcases mem_cons.mp hf with rfl | hf
    · rw [length_replicate]
      decide
    · exact hother _ (mem_archiveEntries.mpr (.inr (.inr (.inl ⟨f, hf, rfl⟩))))
  · exact hother e (mem_archiveEntries.mpr (.inr (.inr (.inr h))))

/-- The snapshot is encoded, but not decoded: an entry of an archive has 512 MiB at most. -/
theorem segment_not_restored : ∃ stored bytes,
    validateStoredSnapshot clusterWithSegment = .ok stored ∧
    ["base"] ∈ clusterWithSegment.directories ∧
    (fileBytes clusterWithSegment.files ["backup_label"]).getD [] ≠ [] ∧
    [".oliphaunt.json"] ∉ clusterWithSegment.files.map Prod.fst ∧
    encodePhysicalArchive clusterWithSegment = .ok bytes ∧
    ∀ decoded, decodePhysicalArchive bytes ≠ .ok decoded := by
  obtain ⟨bytes, hencode⟩ := encodePhysicalArchive_ok clusterWithSegment_written
  obtain ⟨stored, hstored⟩ := eq_ok_of_isOk
    (by decide +kernel : (validateStoredSnapshot clusterWithSegment).isOk = true)
  refine ⟨stored, bytes, hstored, by decide +kernel, by decide +kernel, by decide +kernel, hencode,
    fun decoded hdecode => ?_⟩
  have hvalid := (validateStoredSnapshot_ok_iff.mp hstored).1
  have hencoded : Encoded clusterWithSegment bytes :=
    ⟨fun d hd => hvalid.stored d (mem_append_left _ hd),
      fun f hf => hvalid.stored f.1 (mem_append_right _ (mem_map_of_mem hf)), hencode⟩
  obtain ⟨relative, hrelative, -⟩ := exists_directories clusterWithSegment
  obtain ⟨hlimits, -⟩ := (hencoded.decode_ok_iff hrelative).mp hdecode
  have hlength := hlimits.lengths (["base", "1"], List.replicate (1024 * 1024 * 1024) 0)
    (.head _)
  rw [length_replicate] at hlength
  exact absurd hlength (by decide)

end Oliphaunt.PhysicalArchive
