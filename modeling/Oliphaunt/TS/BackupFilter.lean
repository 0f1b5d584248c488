import Oliphaunt.TS.TarTree

/-!
# The files of an online backup

`snapshotPhysicalBackupBulk` reads the live PGDATA without its transient state,
`refreshBackupPgControl` reads the control file once more, and `mergeBackupSnapshots`
adds the WAL files and the texts that `pg_backup_stop` returns.

A directory and what it contains are kept or dropped by their own names. A directory of
temporary files is dropped, and a file in it is kept when its own name is not a
temporary one: `backup_lists_parents_iff` says for which trees this does not happen.

* `backup_keeps_file_of_dropped_directory` — a file without its directory.
-/

namespace Oliphaunt.BackupFilter

open FileTree OpfsPool IncrementalStorage PhysicalArchive TarArchive List

def transientFiles : List String :=
  ["postmaster.pid", "postmaster.opts", "postgresql.auto.conf.tmp", "current_logfiles.tmp",
    "backup_label", "tablespace_map", "backup_manifest"]

def transientStateDirectories : List String :=
  ["pg_dynshmem", "pg_notify", "pg_replslot", "pg_serial", "pg_snapshots", "pg_stat_tmp",
    "pg_subtrans"]

def isTransientBackupEntry (path : Path) : Bool :=
  let name := path.getLast?.getD ""
  (transientFiles.map fun file => [file]).contains path ||
    (name = ".DS_Store" || "pg_internal.init".toList.isPrefixOf name.toList ||
      "pgsql_tmp".toList.isPrefixOf name.toList) ||
    (1 < path.length && transientStateDirectories.contains (path.head?.getD ""))

/-- `pathWithin(path, 'pg_wal')` -/
def withinWal (path : Path) : Bool := path.head? = some "pg_wal"

def snapshotStorageDirectory (skipFile skipDirectoryContents : Path → Bool)
    (directory : Directory) : StoredSnapshot :=
  let entries := filteredWalk skipFile skipDirectoryContents directory.tree
    (depth directory.tree) []
  ⟨directoriesOf entries, filesOf entries⟩

def withoutPostStopState (snapshot : StoredSnapshot) : StoredSnapshot where
  directories := snapshot.directories.filter fun path =>
    !withinWal path && !isTransientBackupEntry path
  files := snapshot.files.filter fun file =>
    !withinWal file.1 && file.1 ≠ ["backup_label"] && file.1 ≠ ["tablespace_map"] &&
      !isTransientBackupEntry file.1

def skipDirectoryContents (path : Path) : Bool :=
  path = ["pg_wal"] || (transientStateDirectories.map fun name => [name]).contains path

def snapshotPhysicalBackupBulk (directory : Directory) : StoredSnapshot :=
  withoutPostStopState
    (snapshotStorageDirectory isTransientBackupEntry skipDirectoryContents directory)

def pgControlPath : Path := ["global", "pg_control"]

def refreshBackupPgControl (snapshot : StoredSnapshot) (pgControl : Contents) :
    Except String StoredSnapshot :=
  if pgControl = [] then .error "final PGDATA global/pg_control is empty"
  else .ok { snapshot with
    files := (snapshot.files.filter fun file => file.1 ≠ pgControlPath) ++
      [(pgControlPath, pgControl)] }

/-- `Map.set` -/
def setFile (files : List (Path × Contents)) (path : Path) (bytes : Contents) :
    List (Path × Contents) :=
  files.filter (fun file => file.1 ≠ path) ++ [(path, bytes)]

/-- The order of rows of one depth is left out. -/
def mergeBackupSnapshots (beforeStop : StoredSnapshot) (walFiles : List (String × Contents))
    (backupLabel : String) (tablespaceMap : Option String) : StoredSnapshot :=
  let files := beforeStop.files.filter fun file => !withinWal file.1
  let files := walFiles.foldl (fun files wal => setFile files ["pg_wal", wal.1] wal.2) files
  let files := setFile files ["backup_label"] (Bytes.utf8 backupLabel)
  { directories := sortByDepth
      ((beforeStop.directories.filter fun path => !withinWal path) ++ [["pg_wal"]])
    files := match tablespaceMap with
      | none => files
      | some text =>
        if text = "" then files else setFile files ["tablespace_map"] (Bytes.utf8 text) }

/-- What is encoded: the live directory, read twice, and what the server returned. -/
def backupSnapshot (directory : Directory) (walFiles : List (String × Contents))
    (backupLabel : String) (tablespaceMap : Option String) : Except String StoredSnapshot :=
  match directory.tree.get pgControlPath with
  | some (.file pgControl) =>
    match refreshBackupPgControl (snapshotPhysicalBackupBulk directory) pgControl with
    | .error e => .error e
    | .ok beforeStop => .ok (mergeBackupSnapshots beforeStop walFiles backupLabel tablespaceMap)
  | _ => .error "global/pg_control is not a file"

variable {p q : Path}

/-- The path of an entry that stays in the backup. -/
structure Kept (path : Path) : Prop where
  volatile : isVolatilePath path = false
  wal : withinWal path = false
  transient : isTransientBackupEntry path = false

/-- Directories whose contents are not read contain nothing that is kept. -/
theorem Kept.contents_read (h : Kept q) (hr : Between [] r q) :
    skipDirectoryContents r = false := by
  obtain ⟨⟨-, hne⟩, ⟨rest, rfl⟩, hproper⟩ := hr
  have hrest : rest ≠ [] := fun hnil => hproper (by rw [hnil, append_nil])
  rw [skipDirectoryContents, Bool.or_eq_false_iff]
  constructor
  · rw [decide_eq_false_iff_not]
    rintro rfl
    have hwal := h.wal
    exact absurd hwal (by rw [withinWal]; simp)
  · rw [← Bool.not_eq_true, contains_iff_mem]
    intro hmem
    obtain ⟨name, hname, rfl⟩ := mem_map.mp hmem
    have htransient := h.transient
    rw [isTransientBackupEntry, Bool.or_eq_false_iff] at htransient
    have hlength : 1 < ([name] ++ rest).length := by
      have := length_pos_of_ne_nil hrest
      rw [length_append, length_singleton]
      omega
    have hstate := htransient.2
    rw [decide_eq_true hlength, Bool.true_and] at hstate
    have hhead : transientStateDirectories.contains name = false := hstate
    rw [contains_iff_mem.mpr hname] at hhead
    cases hhead

section Bulk

variable {directory : Directory}

theorem mem_bulk_walk :
    (q, n) ∈ filteredWalk isTransientBackupEntry skipDirectoryContents directory.tree
        (depth directory.tree) [] ∧ withinWal q = false ∧ isTransientBackupEntry q = false ↔
      (q, n) ∈ directory.tree ∧ q ≠ [] ∧ Kept q := by
  have hreach : Reaches directory.tree (depth directory.tree + 1) [] := by
    intro e he
    have := length_le_depth he
    omega
  rw [mem_filteredWalk directory.formed hreach rfl]
  constructor
  · rintro ⟨⟨⟨htree, -, hne⟩, hvolatile, -⟩, hwal, htransient⟩
    exact ⟨htree, hne.symm, hvolatile, hwal, htransient⟩
  · rintro ⟨htree, hne, hq⟩
    exact ⟨⟨⟨htree, nil_prefix, hne.symm⟩, hq.volatile, fun _ => hq.transient,
      fun r hr => hq.contents_read hr⟩, hq.wal, hq.transient⟩

theorem mem_bulk_directories :
    q ∈ (snapshotPhysicalBackupBulk directory).directories ↔
      (q, Node.directory) ∈ directory.tree ∧ q ≠ [] ∧ Kept q := by
  rw [snapshotPhysicalBackupBulk, withoutPostStopState, mem_filter, Bool.and_eq_true,
    Bool.not_eq_true', Bool.not_eq_true', snapshotStorageDirectory, mem_directoriesOf,
    mem_bulk_walk]

/-- The texts of `pg_backup_stop` are transient files of the live directory. -/
theorem ne_of_not_transient (h : isTransientBackupEntry q = false) :
    q ≠ ["backup_label"] ∧ q ≠ ["tablespace_map"] := by
  constructor
  · rintro rfl
    exact absurd h (by decide +kernel)
  · rintro rfl
    exact absurd h (by decide +kernel)

theorem mem_bulk_files {bytes : Contents} :
    (q, bytes) ∈ (snapshotPhysicalBackupBulk directory).files ↔
      (q, Node.file bytes) ∈ directory.tree ∧ q ≠ [] ∧ Kept q := by
  rw [snapshotPhysicalBackupBulk, withoutPostStopState, mem_filter, Bool.and_eq_true,
    Bool.and_eq_true, Bool.and_eq_true, Bool.not_eq_true', Bool.not_eq_true',
    snapshotStorageDirectory, mem_filesOf, decide_eq_true_eq, decide_eq_true_eq, ← mem_bulk_walk]
  constructor
  · rintro ⟨hwalk, ⟨⟨hwal, -⟩, -⟩, htransient⟩
    exact ⟨hwalk, hwal, htransient⟩
  · rintro ⟨hwalk, hwal, htransient⟩
    obtain ⟨hlabel, hmap⟩ := ne_of_not_transient htransient
    exact ⟨hwalk, ⟨⟨hwal, hlabel⟩, hmap⟩, htransient⟩

end Bulk

variable {files : List (Path × Contents)}

theorem mem_keepFiles (keep : Path → Bool) :
    p ∈ (files.filter fun file => keep file.1).map Prod.fst ↔
      p ∈ files.map Prod.fst ∧ keep p = true := by
  simp only [mem_map, mem_filter]
  constructor
  · rintro ⟨f, ⟨hf, hkeep⟩, rfl⟩
    exact ⟨⟨f, hf, rfl⟩, hkeep⟩
  · rintro ⟨⟨f, hf, rfl⟩, hkeep⟩
    exact ⟨f, ⟨hf, hkeep⟩, rfl⟩

theorem mem_setFile :
    p ∈ (setFile files path bytes).map Prod.fst ↔ p ∈ files.map Prod.fst ∨ p = path := by
  rw [setFile, map_append, mem_append, map_singleton, mem_singleton,
    mem_keepFiles fun q => decide (q ≠ path)]
  by_cases heq : p = path <;> simp [heq]

theorem mem_setWal {walFiles : List (String × Contents)} :
    p ∈ (walFiles.foldl (fun files wal => setFile files ["pg_wal", wal.1] wal.2) files).map
        Prod.fst ↔
      p ∈ files.map Prod.fst ∨ ∃ wal ∈ walFiles, p = ["pg_wal", wal.1] := by
  induction walFiles generalizing files with
  | nil => simp
  | cons wal walFiles ih =>
    rw [foldl_cons, ih, mem_setFile]
    simp only [mem_cons, exists_eq_or_imp, or_assoc]

/-! ## The snapshot that is encoded -/

/-- The parent of everything below the root is a directory of the snapshot. -/
def ParentsListed (snapshot : StoredSnapshot) : Prop :=
  ∀ p ∈ snapshot.directories ++ snapshot.files.map Prod.fst, p.dropLast ≠ [] →
    p.dropLast ∈ snapshot.directories

/-- What lies in a transient directory is transient itself, or dropped for its root. -/
def TransientContents (tree : PathTree Contents) : Prop :=
  ∀ p ∈ tree.paths, p.dropLast ≠ [] → isTransientBackupEntry p.dropLast = true →
    isTransientBackupEntry p = true ∨ withinWal p = true ∨ isVolatilePath p = true

section Snapshot

variable {directory : Directory} {walFiles : List (String × Contents)} {backupLabel : String}
  {tablespaceMap : Option String} {snapshot : StoredSnapshot}

section

variable (h : backupSnapshot directory walFiles backupLabel tablespaceMap = .ok snapshot)

include h

theorem backupSnapshot_ok : ∃ pgControl, (pgControlPath, Node.file pgControl) ∈ directory.tree ∧
      snapshot = mergeBackupSnapshots { snapshotPhysicalBackupBulk directory with
        files := setFile (snapshotPhysicalBackupBulk directory).files pgControlPath pgControl }
        walFiles backupLabel tablespaceMap := by
  rw [backupSnapshot] at h
  split at h <;> try cases h
  rename_i pgControl hcontrol
  rw [refreshBackupPgControl] at h
  split at h
  · cases h
  · rename_i beforeStop hrefresh
    split at hrefresh
    · cases hrefresh
    · exact ⟨pgControl, PathTree.mem_of_get hcontrol, by
        rw [← Except.ok.inj h, ← Except.ok.inj hrefresh, setFile]⟩

variable {p : Path}

/-- The directories of a finished backup: the kept ones and `pg_wal`. -/
theorem mem_backup_directories : p ∈ snapshot.directories ↔
      ((p, Node.directory) ∈ directory.tree ∧ p ≠ [] ∧ Kept p) ∨ p = ["pg_wal"] := by
  obtain ⟨pgControl, -, rfl⟩ := backupSnapshot_ok h
  simp only [mergeBackupSnapshots]
  rw [mem_sortByDepth, mem_append, mem_filter, mem_bulk_directories, mem_singleton]
  refine or_congr_left ⟨And.left, fun h => ⟨h, ?_⟩⟩
  rw [h.2.2.wal]
  rfl

/-- The files of a finished backup: the kept ones, the control file, the WAL segments and the
texts of `pg_backup_stop`. -/
theorem mem_backup_files : p ∈ snapshot.files.map Prod.fst ↔
      (∃ bytes, (p, Node.file bytes) ∈ directory.tree ∧ p ≠ [] ∧ Kept p) ∨ p = pgControlPath ∨
      (∃ wal ∈ walFiles, p = ["pg_wal", wal.1]) ∨ p = ["backup_label"] ∨
      (p = ["tablespace_map"] ∧ ∃ text, tablespaceMap = some text ∧ text ≠ "") := by
  obtain ⟨pgControl, -, rfl⟩ := backupSnapshot_ok h
  have hbulk : p ∈ ((setFile (snapshotPhysicalBackupBulk directory).files pgControlPath
      pgControl).filter fun file => !withinWal file.1).map Prod.fst ↔
        (∃ bytes, (p, Node.file bytes) ∈ directory.tree ∧ p ≠ [] ∧ Kept p) ∨ p = pgControlPath := by
    rw [mem_keepFiles fun q => !withinWal q, mem_setFile]
    constructor
    · rintro ⟨hfile | hcontrol, -⟩
      · obtain ⟨⟨q, bytes⟩, hf, rfl⟩ := mem_map.mp hfile
        exact .inl ⟨bytes, mem_bulk_files.mp hf⟩
      · exact .inr hcontrol
    · rintro (⟨bytes, hfile⟩ | rfl)
      · exact ⟨.inl (mem_map_of_mem (mem_bulk_files.mpr hfile)), by rw [hfile.2.2.wal]; rfl⟩
      · exact ⟨.inr rfl, by decide⟩
  simp only [mergeBackupSnapshots]
  cases tablespaceMap with
  | none => simp only [mem_setFile, mem_setWal, hbulk, or_assoc, reduceCtorEq, false_and,
      exists_false, and_false, or_false]
  | some text =>
    by_cases htext : text = ""
    · simp only [mem_setFile, mem_setWal, hbulk, or_assoc, htext, Option.some.injEq,
        exists_eq_left', if_true, ne_eq, not_true_eq_false, and_false, or_false]
    · simp only [mem_setFile, mem_setWal, hbulk, or_assoc, htext, Option.some.injEq,
        exists_eq_left', if_false, ne_eq, not_false_eq_true, and_true]

end

/-- Of an entry that is kept, the parent is kept too unless its own name is transient. -/
theorem kept_parent_iff (hp : Kept p) (hparent : p.dropLast ≠ []) :
    Kept p.dropLast ↔ isTransientBackupEntry p.dropLast = false := by
  have hle : p.dropLast <+: p := dropLast_prefix p
  refine ⟨Kept.transient, fun h => ⟨?_, ?_, h⟩⟩
  · rw [← isVolatilePath_under hle hparent]
    exact hp.volatile
  · have hwal := hp.wal
    obtain ⟨rest, hrest⟩ := hle
    rw [withinWal] at hwal ⊢
    rw [← hrest, List.head?_append_of_ne_nil _ hparent] at hwal
    exact hwal

/-- An entry of the directory that is kept has its parent when that is not transient. -/
theorem parent_listed_iff
    (h : backupSnapshot directory walFiles backupLabel tablespaceMap = .ok snapshot)
    (hp : p ∈ directory.tree.paths) (hkept : Kept p) (hparent : p.dropLast ≠ []) :
    p.dropLast ∈ snapshot.directories ↔ isTransientBackupEntry p.dropLast = false := by
  obtain ⟨n, hn⟩ := PathTree.mem_paths.mp hp
  have hdirectory : (p.dropLast, Node.directory) ∈ directory.tree :=
    directory.formed.parent p n hn (fun hnil => hparent (by rw [hnil]; rfl))
  rw [mem_backup_directories h, ← kept_parent_iff hkept hparent]
  constructor
  · rintro (⟨-, -, hkeep⟩ | hwal)
    · exact hkeep
    · have hle : p.dropLast <+: p := dropLast_prefix p
      obtain ⟨rest, hrest⟩ := hle
      have hnot := hkept.wal
      rw [← hrest, hwal, withinWal] at hnot
      exact absurd hnot (by simp)
  · exact fun hkeep => .inl ⟨hdirectory, hparent, hkeep⟩

/-- **The parents of a backup.** A backup lists the parent directory of every entry it
contains exactly when everything in a transient directory of the live tree is dropped as well:
it is transient by its own name, under `pg_wal` or volatile. -/
theorem backup_lists_parents_iff
    (h : backupSnapshot directory walFiles backupLabel tablespaceMap = .ok snapshot) :
    ParentsListed snapshot ↔ TransientContents directory.tree := by
  constructor
  · intro hlisted p hp hparent htransient
    by_contra hnot
    simp only [not_or, Bool.not_eq_true] at hnot
    obtain ⟨hplain, hwal, hvolatile⟩ := hnot
    have hkept : Kept p := ⟨hvolatile, hwal, hplain⟩
    have hne : p ≠ [] := fun hnil => hparent (by rw [hnil]; rfl)
    obtain ⟨n, hn⟩ := PathTree.mem_paths.mp hp
    have hmem : p ∈ snapshot.directories ++ snapshot.files.map Prod.fst := by
      cases n with
      | directory =>
        exact mem_append_left _ ((mem_backup_directories h).mpr (.inl ⟨hn, hne, hkept⟩))
      | file bytes =>
        exact mem_append_right _
          ((mem_backup_files h).mpr (.inl ⟨bytes, hn, hne, hkept⟩))
    have hlist := (parent_listed_iff h hp hkept hparent).mp (hlisted p hmem hparent)
    cases htransient.symm.trans hlist
  · intro hcontents p hp hparent
    -- only the entries of the live directory can have a transient parent
    have hlive : ∀ n, (p, n) ∈ directory.tree → Kept p → p.dropLast ∈ snapshot.directories := by
      intro n hn hkept
      have hpath := PathTree.mem_paths.mpr ⟨n, hn⟩
      refine (parent_listed_iff h hpath hkept hparent).mpr (Bool.eq_false_iff.mpr fun ht => ?_)
      rcases hcontents p hpath hparent ht with htransient | hwal | hvolatile
      · exact Bool.false_ne_true (hkept.transient.symm.trans htransient)
      · exact Bool.false_ne_true (hkept.wal.symm.trans hwal)
      · exact Bool.false_ne_true (hkept.volatile.symm.trans hvolatile)
    rcases mem_append.mp hp with hp | hp
    · rcases (mem_backup_directories h).mp hp with ⟨hn, -, hkept⟩ | rfl
      · exact hlive _ hn hkept
      · exact absurd rfl hparent
    · rcases (mem_backup_files h).mp hp with
        ⟨bytes, hn, -, hkept⟩ | rfl | ⟨wal, -, rfl⟩ | rfl | ⟨rfl, -⟩
      · exact hlive _ hn hkept
      · obtain ⟨pgControl, hcontrol, -⟩ := backupSnapshot_ok h
        exact hlive _ hcontrol ⟨by decide +kernel, by decide +kernel, by decide +kernel⟩
      · exact (mem_backup_directories h).mpr (.inr rfl)
      · exact absurd rfl hparent
      · exact absurd rfl hparent

end Snapshot

/-- A live directory with the given entries next to those of every one. -/
def liveTree (entries : PathTree Contents) : PathTree Contents :=
  [([], .directory), (["base"], .directory), (["global"], .directory),
    (pgControlPath, .file [1])] ++ entries

/-- A parallel query has a file set under `base/pgsql_tmp`. -/
def fileSet : PathTree Contents :=
  [(["base", "pgsql_tmp"], .directory),
    (["base", "pgsql_tmp", "pgsql_tmp7.0.fileset"], .directory),
    (["base", "pgsql_tmp", "pgsql_tmp7.0.fileset", "o0of1.p0.0"], .file [1])]

theorem wellFormed_of_parents {tree : PathTree Contents} (hnodup : tree.paths.Nodup)
    (hroot : ([], Node.directory) ∈ tree)
    (hparents : ∀ e ∈ tree, e.1 ≠ [] → (e.1.dropLast, Node.directory) ∈ tree) :
    tree.WellFormed := ⟨hnodup, hroot, fun p n hmem => hparents (p, n) hmem⟩

theorem liveTree_fileSet_formed : (liveTree fileSet).WellFormed :=
  wellFormed_of_parents (by decide +kernel) (by decide +kernel) (by decide +kernel)

theorem liveTree_fileSet_names : ∀ p ∈ (liveTree fileSet).paths, p.all isEntryName = true := by
  decide +kernel

def busyDirectory : Directory :=
  ⟨liveTree fileSet, liveTree_fileSet_formed, liveTree_fileSet_names⟩

theorem liveTree_idle_formed : (liveTree []).WellFormed :=
  wellFormed_of_parents (by decide +kernel) (by decide +kernel) (by decide +kernel)

theorem liveTree_idle_names : ∀ p ∈ (liveTree []).paths, p.all isEntryName = true := by
  decide +kernel

def idleDirectory : Directory := ⟨liveTree [], liveTree_idle_formed, liveTree_idle_names⟩

/-- A live directory without temporary file sets, whose backup lists all parents. -/
theorem backup_lists_parents_idle : ∃ snapshot,
    backupSnapshot idleDirectory [("000000010000000000000001", [1])] "label" none = .ok snapshot ∧
    (ParentsListed snapshot ↔ TransientContents idleDirectory.tree) := by
  have hok : ∃ snapshot, backupSnapshot idleDirectory [("000000010000000000000001", [1])] "label"
      none = .ok snapshot := ⟨_, rfl⟩
  obtain ⟨snapshot, hok⟩ := hok
  exact ⟨snapshot, hok, backup_lists_parents_iff hok⟩

/-- The directories of the file set are dropped, its file is kept. -/
theorem backup_keeps_file_of_dropped_directory : ∃ snapshot,
    backupSnapshot busyDirectory [("000000010000000000000001", [1])] "label" none = .ok snapshot ∧
    ["base", "pgsql_tmp", "pgsql_tmp7.0.fileset", "o0of1.p0.0"] ∈ snapshot.files.map Prod.fst ∧
    ["base", "pgsql_tmp", "pgsql_tmp7.0.fileset"] ∉ snapshot.directories ∧
    ¬ ParentsListed snapshot := by
  have hok : ∃ snapshot, backupSnapshot busyDirectory [("000000010000000000000001", [1])] "label"
      none = .ok snapshot := ⟨_, rfl⟩
  obtain ⟨snapshot, hok⟩ := hok
  have hfile : ["base", "pgsql_tmp", "pgsql_tmp7.0.fileset", "o0of1.p0.0"] ∈
      snapshot.files.map Prod.fst :=
    (mem_backup_files hok).mpr (.inl ⟨[1], by decide +kernel, by decide,
      by decide +kernel, by decide +kernel, by decide +kernel⟩)
  have hdirectory : ["base", "pgsql_tmp", "pgsql_tmp7.0.fileset"] ∉ snapshot.directories := by
    rw [mem_backup_directories hok]
    rintro (⟨-, -, hkept⟩ | heq)
    · exact absurd hkept.transient (by decide +kernel)
    · exact absurd heq (by decide)
  refine ⟨snapshot, hok, hfile, hdirectory, fun hlisted => ?_⟩
  exact hdirectory (hlisted _ (mem_append_right _ hfile) (by decide))

end Oliphaunt.BackupFilter
