import Mathlib.Data.List.Nodup
import Oliphaunt.TS.PhysicalArchivePaths

/-!
# Decoding an encoded snapshot

What `decodePhysicalArchive` makes of the bytes of `encodePhysicalArchive`, entry by
entry: the limits of the reader, the paths that it has for the ones that were written,
the tree that it builds, and the snapshot that it validates at the end.
-/

namespace Oliphaunt.PhysicalArchive

open FileTree Tar TarArchive List
open OpfsPool (isEntryName)

/-- The entry that the reader has for a written one. -/
def entryRead (e : Text × List UInt8 × Char) : TarEntry := ⟨readPath e.1, e.2.2, e.2.1⟩

/-- The sanitizer either takes the path that is read, or none. -/
def Sanitized (text : Text) : Prop :=
  ∀ path, sanitizeTarPath (readText text) = .ok path ↔
    path = some (readPath text) ∧ Legible (readPath text)

variable {es : List (Text × List UInt8 × Char)} {seen relative : List Path} {p path : Path}
  {bytes : List UInt8}

/-- The reader accepts a list of entries exactly if it respects the limits and its insertions
succeed. -/
theorem readEntries_ok_iff (hes : ∀ e ∈ es, Sanitized e.1) {tree last : Tree} {entries : Nat}
    (hentries : entries ≤ maxEntries) : readEntries tree entries es = .ok last ↔
      entries + es.length ≤ maxEntries ∧
      (∀ e ∈ es, e.2.1.length ≤ maxEntryBytes ∧ Legible (readPath e.1)) ∧
      addEntries tree (es.map entryRead) = .ok last := by
  induction es generalizing tree entries with
  | nil =>
    rw [readEntries, map_nil, addEntries]
    simp [hentries]
  | cons e es ih =>
    obtain ⟨path, contents, type⟩ := e
    have hsanitized : Sanitized path := hes _ (.head _)
    have hrest := fun e he => hes e (.tail _ he)
    simp only [readEntries, readEntry, length_cons, forall_mem_cons, map_cons]
    by_cases hcount : maxEntries < entries + 1
    · simp only [if_pos hcount, reduceCtorEq, false_iff, not_and]
      omega
    by_cases hlarge : maxEntryBytes < contents.length
    · simp only [if_neg hcount, if_pos hlarge, reduceCtorEq, false_iff, not_and]
      omega
    simp only [if_neg hcount, if_neg hlarge]
    cases hread : sanitizeTarPath (readText path) with
    | error e =>
      have hillegible : ¬ Legible (readPath path) := by
        intro hlegible
        have := (hsanitized _).mpr ⟨rfl, hlegible⟩
        rw [hread] at this
        cases this
      simp only [hillegible, and_false, false_and, reduceCtorEq]
    | ok read =>
      obtain ⟨rfl, hlegible⟩ := (hsanitized _).mp hread
      have hsize : contents.length ≤ maxEntryBytes := Nat.not_lt.mp hlarge
      rw [addEntries]
      simp only [entryRead, hlegible, hsize, true_and]
      cases addEntry tree ⟨readPath path, type, contents⟩ with
      | error e => simp only [and_false, reduceCtorEq]
      | ok tree' =>
        simp only
        rw [ih hrest (Nat.not_lt.mp hcount), Nat.add_assoc, Nat.add_comm 1]

def directoryEntry (path : Path) : TarEntry := ⟨path, '5', []⟩
def fileEntry (file : Path × List UInt8) : TarEntry := ⟨file.1, '0', file.2⟩

variable {tree last : Tree}

theorem addEntries_append {xs ys : List TarEntry} :
    addEntries tree (xs ++ ys) = .ok last ↔
      ∃ middle, addEntries tree xs = .ok middle ∧ addEntries middle ys = .ok last := by
  induction xs generalizing tree with
  | nil => simp [addEntries]
  | cons entry rest ih =>
    rw [cons_append, addEntries_cons]
    simp only [ih, addEntries_cons]
    constructor
    · rintro ⟨next, hnext, middle, hmiddle, hlast⟩
      exact ⟨middle, ⟨next, hnext, hmiddle⟩, hlast⟩
    · rintro ⟨middle, ⟨next, hnext, hmiddle⟩, hlast⟩
      exact ⟨next, hnext, middle, hmiddle, hlast⟩

theorem nodup_snoc (h : seen.Nodup) (hnew : p ∉ seen) : (seen ++ [p]).Nodup := by
  rw [← concat_eq_append]
  exact h.concat hnew

theorem nodup_snoc_iff {rest : List Path} :
    (seen ++ p :: rest).Nodup ↔ p ∉ seen ∧ ((seen ++ [p]) ++ rest).Nodup := by
  rw [append_assoc, singleton_append]
  constructor
  · intro h
    refine ⟨fun hmem => ?_, h⟩
    exact (nodup_append.mp h).2.2 p hmem p (.head _) rfl
  · exact And.right

variable {ds : List Path}

theorem addEntries_directories (hfiles : tree.files = [])
    (hnodup : tree.explicitPaths.Nodup) :
    addEntries tree (ds.map directoryEntry) = .ok last ↔
      (tree.explicitPaths ++ ds).Nodup ∧
      last = ⟨[], ds.foldl addDirectoryWithAncestors tree.directories,
        tree.explicitPaths ++ ds⟩ := by
  induction ds generalizing tree with
  | nil =>
    obtain ⟨files, directories, explicitPaths⟩ := tree
    obtain rfl : files = [] := hfiles
    rw [map_nil, addEntries, append_nil]
    simp only [Except.ok.injEq, foldl_nil, hnodup, true_and]
    exact eq_comm
  | cons d ds ih =>
    rw [map_cons, addEntries_cons, nodup_snoc_iff]
    have hadd : ∀ next, addEntry tree (directoryEntry d) = .ok next ↔ d ∉ tree.explicitPaths ∧
        next = ⟨tree.files, addDirectoryWithAncestors tree.directories d,
          tree.explicitPaths ++ [d]⟩ := by
      intro next
      rw [addEntry_ok_iff]
      constructor
      · rintro ⟨hnew, -, hinserted⟩
        cases hinserted with
        | directory => exact ⟨hnew, rfl⟩
        | file htype => cases htype
      · rintro ⟨hnew, rfl⟩
        rw [hfiles]
        refine ⟨hnew, fun _ _ => not_mem_nil, ?_⟩
        rw [← hfiles]
        exact .directory rfl rfl (by rw [hfiles]; exact not_mem_nil)
    simp only [hadd]
    constructor
    · rintro ⟨next, ⟨hnew, rfl⟩, hrest⟩
      obtain ⟨hall, hlast⟩ := (ih (by exact hfiles) (nodup_snoc hnodup hnew)).mp hrest
      exact ⟨⟨hnew, hall⟩, by rw [hlast, append_assoc]; rfl⟩
    · rintro ⟨⟨hnew, hall⟩, hlast⟩
      refine ⟨_, ⟨hnew, rfl⟩, (ih (by exact hfiles) (nodup_snoc hnodup hnew)).mpr ⟨hall, ?_⟩⟩
      rw [hlast, append_assoc]
      rfl

variable {fs : List (Path × List UInt8)}

theorem addEntries_fileEntries
    (hnodup : tree.explicitPaths.Nodup) (h : addEntries tree (fs.map fileEntry) = .ok last) :
    (tree.explicitPaths ++ fs.map Prod.fst).Nodup ∧ (∀ f ∈ fs, f.1 ∉ tree.directories) ∧
      last = ⟨tree.files ++ fs, tree.directories, tree.explicitPaths ++ fs.map Prod.fst⟩ := by
  induction fs generalizing tree with
  | nil =>
    obtain rfl : tree = last := Except.ok.inj h
    refine ⟨by rwa [map_nil, append_nil], fun _ hf => absurd hf not_mem_nil, ?_⟩
    rw [map_nil, append_nil, append_nil]
  | cons f fs ih =>
    rw [map_cons, addEntries_cons] at h
    obtain ⟨next, hnext, hrest⟩ := h
    obtain ⟨hnew, -, hinserted⟩ := addEntry_ok_iff.mp hnext
    cases hinserted with
    | directory htype => cases htype
    | file htype hdirectory =>
      obtain ⟨hall, hapart, hlast⟩ := ih (nodup_snoc hnodup hnew) hrest
      refine ⟨?_, ?_, ?_⟩
      · rw [map_cons, nodup_snoc_iff]
        exact ⟨hnew, hall⟩
      · intro g hg
        rcases mem_cons.mp hg with rfl | hg
        · exact hdirectory
        · exact hapart g hg
      · rw [hlast, append_assoc, append_assoc]
        rfl

/-- Files are inserted when their paths are new, no directories, and not below files. -/
theorem addEntries_fileEntries_ok (hnodup : (tree.explicitPaths ++ fs.map Prod.fst).Nodup)
    (hapart : ∀ f ∈ fs, f.1 ∉ tree.directories)
    (hparents : ∀ f ∈ fs, ∀ p ∈ parentPaths f.1, p ∉ (tree.files ++ fs).map Prod.fst) :
    addEntries tree (fs.map fileEntry) =
      .ok ⟨tree.files ++ fs, tree.directories, tree.explicitPaths ++ fs.map Prod.fst⟩ := by
  induction fs generalizing tree with
  | nil =>
    rw [map_nil, map_nil, append_nil, append_nil]
    rfl
  | cons f fs ih =>
    rw [map_cons, nodup_snoc_iff] at hnodup
    have hfirst : addEntry tree (fileEntry f) =
        .ok ⟨tree.files ++ [f], tree.directories, tree.explicitPaths ++ [f.1]⟩ := by
      refine addEntry_ok_iff.mpr ⟨hnodup.1, ?_, .file rfl (hapart f (.head _))⟩
      intro p hp hmem
      refine hparents f (.head _) p hp ?_
      rw [map_append]
      exact mem_append_left _ hmem
    rw [map_cons, addEntries_cons]
    refine ⟨_, hfirst, ?_⟩
    have hrest := @ih ⟨tree.files ++ [f], tree.directories, tree.explicitPaths ++ [f.1]⟩
      hnodup.2 (fun g hg => hapart g (.tail _ hg)) (by
        intro g hg p hp
        have := hparents g (.tail _ hg) p hp
        rwa [append_assoc])
    rw [hrest, append_assoc, append_assoc]
    rfl

/-! ## The directories with the ones above them -/

variable {directories : List Path}

theorem mem_foldl_addDirectory (hds : ∀ d ∈ ds, d ≠ []) :
    p ∈ ds.foldl addDirectoryWithAncestors directories ↔
      p ∈ directories ∨ (p ≠ [] ∧ ∃ d ∈ ds, p <+: d) := by
  induction ds generalizing directories with
  | nil => simp
  | cons d ds ih =>
    rw [foldl_cons, ih fun e he => hds e (.tail _ he),
      mem_addDirectoryWithAncestors (hds d (.head _))]
    simp only [mem_cons, exists_eq_or_imp]
    constructor
    · rintro ((h | ⟨hne, hle⟩) | ⟨hne, hlater⟩)
      · exact .inl h
      · exact .inr ⟨hne, .inl hle⟩
      · exact .inr ⟨hne, .inr hlater⟩
    · rintro (h | ⟨hne, hle | hlater⟩)
      · exact .inl (.inl h)
      · exact .inl (.inr ⟨hne, hle⟩)
      · exact .inr ⟨hne, hlater⟩

theorem nodup_insertAll {ps : List Path} (h : directories.Nodup) :
    (ps.foldl (fun ds p => if ds.contains p then ds else ds ++ [p]) directories).Nodup := by
  induction ps generalizing directories with
  | nil => exact h
  | cons p ps ih =>
    rw [foldl_cons]
    split
    · exact ih h
    · rename_i hnew
      rw [contains_iff_mem] at hnew
      exact ih (nodup_snoc h hnew)

theorem nodup_foldl_addDirectory (h : directories.Nodup) :
    (ds.foldl addDirectoryWithAncestors directories).Nodup := by
  induction ds generalizing directories with
  | nil => exact h
  | cons d ds ih => exact ih (nodup_insertAll h)

/-! ## The snapshot of an extracted archive -/

/-- A path of the archive for a path of PGDATA. -/
def below (path : Path) : Path := "pgdata" :: path

theorem archiveDirectories_cons (path : Path) (rest : List Path) :
    archiveDirectories (below path :: rest) =
      if path = [] then archiveDirectories rest else (archiveDirectories rest).map (path :: ·) := by
  by_cases hroot : path = []
  · subst hroot
    rfl
  · have hother : ¬ (below path = ["pgdata"] ∨ below path = [".oliphaunt"]) := by
      rintro (heq | heq)
      · exact hroot (List.cons.inj heq).2
      · exact absurd (List.cons.inj heq).1 (by decide)
    conv_lhs => unfold archiveDirectories
    rw [if_neg hother, if_neg hroot]
    rfl

theorem archiveFiles_cons (path : Path) (bytes : List UInt8) (rest : List (Path × List UInt8)) :
    archiveFiles ((below path, bytes) :: rest) =
      if path = [] then .error (corruptArchive ("contains unexpected file " ++
        OpfsPool.stringify (pathText (below path))))
      else if path = [".oliphaunt.json"] then
        .error (corruptArchive "contains destination-owned database-root metadata")
      else (archiveFiles rest).map ((path, bytes) :: ·) := by
  have hmanifest : below path ≠ archiveManifestPath := fun heq =>
    absurd (List.cons.inj heq).1 (by decide)
  conv_lhs => unfold archiveFiles
  cases path with
  | nil => rfl
  | cons segment more => rfl

theorem archiveDirectories_below (h : ∀ d ∈ ds, ∃ path, d = below path) :
    ∃ relative, archiveDirectories ds = .ok relative ∧
      (∀ p, p ∈ relative ↔ p ≠ [] ∧ below p ∈ ds) ∧ (ds.Nodup → relative.Nodup) := by
  induction ds with
  | nil => exact ⟨[], rfl, by simp, fun h => h⟩
  | cons d ds ih =>
    obtain ⟨relative, hok, hmem, hnodup⟩ := ih fun e he => h e (.tail _ he)
    obtain ⟨path, rfl⟩ := h d (.head _)
    by_cases hroot : path = []
    · subst hroot
      refine ⟨relative, ?_, ?_, fun hall => hnodup (nodup_cons.mp hall).2⟩
      · rw [archiveDirectories_cons, if_pos rfl, hok]
      · intro p
        rw [hmem, mem_cons]
        constructor
        · exact fun hp => ⟨hp.1, .inr hp.2⟩
        · rintro ⟨hne, heq | hp⟩
          · exact absurd (List.cons.inj heq).2 hne
          · exact ⟨hne, hp⟩
    · refine ⟨path :: relative, ?_, ?_, ?_⟩
      · rw [archiveDirectories_cons, if_neg hroot, hok]
        rfl
      · intro p
        rw [mem_cons, hmem, mem_cons]
        constructor
        · rintro (rfl | hp)
          · exact ⟨hroot, .inl rfl⟩
          · exact ⟨hp.1, .inr hp.2⟩
        · rintro ⟨hne, heq | hp⟩
          · exact .inl (List.cons.inj heq).2
          · exact .inr ⟨hne, hp⟩
      · intro hall
        obtain ⟨hnew, hrest⟩ := nodup_cons.mp hall
        refine nodup_cons.mpr ⟨fun hp => hnew ((hmem path).mp hp).2, hnodup hrest⟩

theorem archiveFiles_below {out : List (Path × List UInt8)} {manifest : List UInt8} :
    archiveFiles (fs.map (fun f => (below f.1, f.2)) ++ [(archiveManifestPath, manifest)]) =
        .ok out ↔
      (∀ f ∈ fs, f.1 ≠ [] ∧ f.1 ≠ [".oliphaunt.json"]) ∧ out = fs := by
  induction fs generalizing out with
  | nil =>
    show Except.ok [] = Except.ok out ↔ _
    simp [eq_comm]
  | cons f fs ih =>
    obtain ⟨path, bytes⟩ := f
    rw [map_cons, cons_append, archiveFiles_cons]
    simp only [forall_mem_cons]
    by_cases hempty : path = []
    · rw [if_pos hempty]
      simp only [hempty, ne_eq, not_true_eq_false, false_and, reduceCtorEq]
    by_cases hjson : path = [".oliphaunt.json"]
    · rw [if_neg hempty, if_pos hjson]
      simp only [hjson, ne_eq, not_true_eq_false, and_false, false_and, reduceCtorEq]
    simp only [ne_eq, hempty, hjson, not_false_eq_true, true_and]
    constructor
    · intro h
      cases hrest : archiveFiles (fs.map (fun f => (below f.1, f.2)) ++
          [(archiveManifestPath, manifest)]) with
      | error e =>
        rw [hrest] at h
        cases h
      | ok rest =>
        rw [hrest] at h
        obtain ⟨hall, rfl⟩ := ih.mp hrest
        exact ⟨hall, (Except.ok.inj h).symm⟩
    · rintro ⟨hall, rfl⟩
      rw [ih.mpr ⟨hall, rfl⟩]
      rfl

/-- What a stored path is, as a property. -/
theorem validateStoredPath_ok_iff : validateStoredPath path = .ok () ↔ IsStored path := by
  rw [validateStoredPath, IsStored]
  by_cases hempty : path = []
  · simp [hempty]
  have hall : path.all isEntryName = true ↔ ∀ part ∈ path, isEntryName part = true :=
    all_eq_true
  by_cases hhead : path.head? = some ""
  · rw [if_pos (.inr hhead)]
    have hfirst : "" ∈ path := mem_of_head? hhead
    have hnot : ¬ ∀ part ∈ path, isEntryName part = true := fun h =>
      (isEntryName_iff.mp (h _ hfirst)).1 rfl
    simp only [hnot, and_false, reduceCtorEq]
  · rw [if_neg (not_or.mpr ⟨hempty, hhead⟩), ← hall]
    split
    · rename_i hbad
      simp only [hbad, and_false, reduceCtorEq]
    · rename_i hgood
      simp only [not_not.mp hgood, hempty, ne_eq, not_false_eq_true, and_true]

theorem validatePaths_ok_iff {paths : List Path} : validatePaths paths seen = .ok () ↔
      (∀ p ∈ paths, IsStored p) ∧ paths.Nodup ∧ ∀ p ∈ paths, p ∉ seen := by
  induction paths generalizing seen with
  | nil => simp [validatePaths]
  | cons p paths ih =>
    rw [validatePaths, forall_mem_cons, nodup_cons, forall_mem_cons,
      ← validateStoredPath_ok_iff]
    cases validateStoredPath p with
    | error e => simp only [reduceCtorEq, false_and]
    | ok =>
      simp only [true_and]
      by_cases hseen : seen.contains p = true
      · rw [if_pos hseen]
        rw [contains_iff_mem] at hseen
        simp only [hseen, not_true_eq_false, false_and, and_false, reduceCtorEq]
      · rw [if_neg hseen, ih]
        rw [contains_iff_mem] at hseen
        simp only [mem_cons, not_or]
        constructor
        · rintro ⟨hstored, hnodup, hnew⟩
          exact ⟨hstored, ⟨fun hp => (hnew p hp).1 rfl, hnodup⟩, hseen, fun q hq => (hnew q hq).2⟩
        · rintro ⟨hstored, ⟨hp, hnodup⟩, -, hnew⟩
          exact ⟨hstored, hnodup, fun q hq => ⟨fun heq => hp (heq ▸ hq), hnew q hq⟩⟩

variable {files : List (Path × List UInt8)}

/-- Every parent is a directory and no file. -/
theorem validateParents_ok_iff : validateParents directories files path = .ok () ↔
      ∀ p ∈ parentPaths path, p ∈ directories ∧ p ∉ files.map Prod.fst := by
  have hfind : ((parentPaths path).find? fun parent => !directories.contains parent ||
      (files.map Prod.fst).contains parent) = none ↔
        ∀ p ∈ parentPaths path, p ∈ directories ∧ p ∉ files.map Prod.fst := by
    rw [List.find?_eq_none]
    simp only [Bool.or_eq_true, Bool.not_eq_true', contains_iff_mem, not_or,
      ← Bool.not_eq_true, not_not]
  rw [validateParents, ← hfind]
  split
  · rename_i hnone
    simp only [hnone]
  · rename_i parent hsome
    simp only [hsome, reduceCtorEq, iff_false]
    split <;> exact nofun

/-- What `validateStoredSnapshot` accepts. -/
structure Valid (snapshot : StoredSnapshot) : Prop where
  stored : ∀ p ∈ snapshot.directories ++ snapshot.files.map Prod.fst, IsStored p
  nodup : (snapshot.directories ++ snapshot.files.map Prod.fst).Nodup
  persistent : ∀ name ∈ IncrementalStorage.volatileDatabaseFiles,
    [name] ∉ snapshot.directories ++ snapshot.files.map Prod.fst
  parents : ∀ p ∈ snapshot.directories ++ snapshot.files.map Prod.fst, ∀ q ∈ parentPaths p,
    q ∈ snapshot.directories ∧ q ∉ snapshot.files.map Prod.fst
  essentials : validateEssentials snapshot.directories snapshot.files = .ok ()

theorem firstParentError_eq_none {error : Path → Option String}
    (h : ∀ p, error p = none ↔ validateParents directories files p = .ok ()) :
    (directories ++ files.map Prod.fst).findSome? error = none ↔
      ∀ p ∈ directories ++ files.map Prod.fst, ∀ q ∈ parentPaths p,
        q ∈ directories ∧ q ∉ files.map Prod.fst := by
  rw [List.findSome?_eq_none_iff]
  refine forall₂_congr fun p hp => ?_
  rw [← validateParents_ok_iff, h]

/-- The three checks on a whole snapshot. -/
theorem validateSnapshotSemantics_ok_iff :
    validateSnapshotSemantics directories files = .ok () ↔
      (∀ name ∈ IncrementalStorage.volatileDatabaseFiles,
        [name] ∉ directories ++ files.map Prod.fst) ∧
      (∀ p ∈ directories ++ files.map Prod.fst, ∀ q ∈ parentPaths p,
        q ∈ directories ∧ q ∉ files.map Prod.fst) ∧
      validateEssentials directories files = .ok () := by
  have hvolatile : (IncrementalStorage.volatileDatabaseFiles.find? fun name =>
      (directories ++ files.map Prod.fst).contains [name]) = none ↔
        ∀ name ∈ IncrementalStorage.volatileDatabaseFiles,
          [name] ∉ directories ++ files.map Prod.fst := by
    rw [List.find?_eq_none]
    simp only [contains_iff_mem]
  rw [validateSnapshotSemantics, ← hvolatile]
  split
  · rename_i hsome
    simp only [hsome, reduceCtorEq, false_and]
  · rename_i hnone
    simp only [hnone, true_and]
    split
    · rename_i hsome
      refine iff_of_false (by simp) fun h => ?_
      refine absurd (hsome.symm.trans ((firstParentError_eq_none fun p => ?_).mpr h.1)) (by simp)
      cases validateParents directories files p <;> simp
    · rename_i hall
      refine ⟨fun h => ⟨(firstParentError_eq_none fun p => ?_).mp hall, h⟩, And.right⟩
      cases validateParents directories files p <;> simp

variable {snapshot result : StoredSnapshot}

/-- A valid snapshot comes back with its directories sorted by depth. -/
theorem validateStoredSnapshot_ok_iff :
    validateStoredSnapshot snapshot = .ok result ↔ Valid snapshot ∧
      result = ⟨IncrementalStorage.sortByDepth snapshot.directories, snapshot.files⟩ := by
  have hvalid : Valid snapshot ↔
      validatePaths (snapshot.directories ++ snapshot.files.map Prod.fst) [] = .ok () ∧
        validateSnapshotSemantics snapshot.directories snapshot.files = .ok () := by
    rw [validatePaths_ok_iff, validateSnapshotSemantics_ok_iff]
    constructor
    · exact fun h => ⟨⟨h.stored, h.nodup, fun _ _ => not_mem_nil⟩, h.persistent, h.parents,
        h.essentials⟩
    · rintro ⟨⟨hstored, hnodup, -⟩, hpersistent, hparents, hessentials⟩
      exact ⟨hstored, hnodup, hpersistent, hparents, hessentials⟩
  rw [validateStoredSnapshot, hvalid]
  cases validatePaths (snapshot.directories ++ snapshot.files.map Prod.fst) [] with
  | error e => simp only [reduceCtorEq, false_and]
  | ok =>
    cases validateSnapshotSemantics snapshot.directories snapshot.files with
    | error e => simp only [reduceCtorEq, and_false, false_and]
    | ok =>
      simp only [and_self, true_and, Except.ok.injEq]
      exact eq_comm

/-! ## What an encoded snapshot is read as -/

/-- The path that is read for a directory. -/
def readDirectory (path : Path) : Path := (readPath (directoryText path)).tail

/-- The path that is read for a file. -/
def readFile (path : Path) : Path := (readPath (fileText path)).tail

/-- The directories of the archive, as they are read. -/
def directoriesRead (snapshot : StoredSnapshot) : List Path :=
  below [] :: snapshot.directories.map fun d => below (readDirectory d)

/-- The files of PGDATA, as they are read. -/
def filesRead (snapshot : StoredSnapshot) : List (Path × List UInt8) :=
  snapshot.files.map fun f => (readFile f.1, f.2)

def archiveFilesRead (snapshot : StoredSnapshot) : List (Path × List UInt8) :=
  (filesRead snapshot).map (fun f => (below f.1, f.2)) ++
    [(archiveManifestPath, Bytes.utf8 archiveManifest)]

/-- A snapshot of stored paths that was encoded. -/
structure Encoded (snapshot : StoredSnapshot) (bytes : List UInt8) : Prop where
  directories : ∀ d ∈ snapshot.directories, IsStored d
  files : ∀ f ∈ snapshot.files, IsStored f.1
  written : encodePhysicalArchive snapshot = .ok bytes

theorem Written.split (h : Written es bytes) :
    ∀ e ∈ es, ∃ name lead, splitUstarPath e.1 = some (name, lead) := by
  induction h with
  | nil => exact fun e he => absurd he not_mem_nil
  | cons hsplit _ _ ih => exact forall_mem_cons.mpr ⟨⟨_, _, hsplit⟩, ih⟩

section Encoded

variable {snapshot : StoredSnapshot} {bytes : List UInt8} {e : Text × List UInt8 × Char}

/-- The entries of an archive: the root, the directories, the files and the manifest. -/
theorem mem_archiveEntries : e ∈ archiveEntries snapshot ↔
      e = (directoryText [], [], '5') ∨
      (∃ d ∈ snapshot.directories, e = (directoryText d, [], '5')) ∨
      (∃ f ∈ snapshot.files, e = (fileText f.1, f.2, '0')) ∨
      e = (joinPath archiveManifestPath, Bytes.utf8 archiveManifest, '0') := by
  rw [archiveEntries]
  simp only [cons_append, mem_cons, mem_append, mem_map, not_mem_nil,
    or_false, or_assoc]
  refine or_congr Iff.rfl (or_congr ?_ (or_congr ?_ Iff.rfl))
  · exact ⟨fun ⟨d, hd, h⟩ => ⟨d, hd, h.symm⟩, fun ⟨d, hd, h⟩ => ⟨d, hd, h.symm⟩⟩
  · exact ⟨fun ⟨d, hd, h⟩ => ⟨d, hd, h.symm⟩, fun ⟨d, hd, h⟩ => ⟨d, hd, h.symm⟩⟩

/-- An encoded snapshot is its entries and the terminator. -/
theorem Encoded.bytes_eq (h : Encoded snapshot bytes) :
    ∃ entries, Written (archiveEntries snapshot) entries ∧
      bytes = entries ++ zeros (blockSize * 2) := by
  have hwritten := h.written
  rw [encodePhysicalArchive] at hwritten
  split at hwritten
  · cases hwritten
  · rename_i entries hentries
    exact ⟨entries, .of_ok hentries, (Except.ok.inj hwritten).symm⟩

theorem Encoded.split (h : Encoded snapshot bytes) (he : e ∈ archiveEntries snapshot) :
    ∃ name lead, splitUstarPath e.1 = some (name, lead) := by
  obtain ⟨entries, hentries, -⟩ := h.bytes_eq
  exact hentries.split e he

section Paths

variable {d : Path} {f : Path × List UInt8}

theorem mem_entries_directory (hd : d ∈ snapshot.directories) :
    (directoryText d, [], '5') ∈ archiveEntries snapshot :=
  mem_archiveEntries.mpr (.inr (.inl ⟨d, hd, rfl⟩))

theorem mem_entries_file (hf : f ∈ snapshot.files) :
    (fileText f.1, f.2, '0') ∈ archiveEntries snapshot :=
  mem_archiveEntries.mpr (.inr (.inr (.inl ⟨f, hf, rfl⟩)))

section

variable (h : Encoded snapshot bytes)

include h

theorem Encoded.plain_directory (hd : d ∈ snapshot.directories) : Plain (directoryText d) :=
  .directory (h.directories d hd).2

theorem Encoded.plain_file (hf : f ∈ snapshot.files) : Plain (fileText f.1) := .file (h.files f hf)

/-- The paths of PGDATA are read below `pgdata` again. -/
theorem Encoded.readPath_directory (hd : d ∈ snapshot.directories) :
    readPath (directoryText d) = below (readDirectory d) := by
  obtain ⟨name, lead, hsplit⟩ := h.split (mem_entries_directory hd)
  obtain ⟨rest, hrest⟩ := (h.plain_directory hd).readPath_below hsplit
  rw [readDirectory, hrest]
  rfl

theorem Encoded.readPath_file (hf : f ∈ snapshot.files) :
    readPath (fileText f.1) = below (readFile f.1) := by
  obtain ⟨name, lead, hsplit⟩ := h.split (mem_entries_file hf)
  obtain ⟨rest, hrest⟩ := (h.plain_file hf).readPath_below hsplit
  rw [readFile, hrest]
  rfl

end

end Paths

theorem readPath_manifest : readPath (joinPath archiveManifestPath) = archiveManifestPath := by
  decide +kernel

theorem sanitized_manifest : Sanitized (joinPath archiveManifestPath) := by
  have hread : sanitizeTarPath (readText (joinPath archiveManifestPath)) =
      .ok (some archiveManifestPath) := by rfl
  have hlegible : Legible archiveManifestPath := by
    rw [Legible]
    decide +kernel
  intro path
  rw [hread, readPath_manifest]
  simp only [Except.ok.injEq, hlegible, and_true]
  exact eq_comm

section

variable (h : Encoded snapshot bytes)

include h

theorem Encoded.sanitized : ∀ e ∈ archiveEntries snapshot, Sanitized e.1 := by
  intro e he path
  obtain ⟨name, lead, hsplit⟩ := h.split he
  rcases mem_archiveEntries.mp he with rfl | ⟨d, hd, rfl⟩ | ⟨f, hf, rfl⟩ | rfl
  · exact (Plain.directory fun _ hp => absurd hp not_mem_nil).sanitizeTarPath hsplit
  · exact (h.plain_directory hd).sanitizeTarPath hsplit
  · exact (h.plain_file hf).sanitizeTarPath hsplit
  · exact sanitized_manifest path

theorem Encoded.writable : ∀ e ∈ archiveEntries snapshot, Writable e := by
  intro e he
  rcases mem_archiveEntries.mp he with rfl | ⟨d, hd, rfl⟩ | ⟨f, hf, rfl⟩ | rfl
  · exact ⟨.inr rfl, (Plain.directory fun _ hp => absurd hp not_mem_nil).nul, fun _ => rfl⟩
  · exact ⟨.inr rfl, (h.plain_directory hd).nul, fun _ => rfl⟩
  · exact ⟨.inl rfl, (h.plain_file hf).nul, nofun⟩
  · exact ⟨.inl rfl, by decide +kernel, nofun⟩

theorem Encoded.entries_read : (archiveEntries snapshot).map entryRead =
      (directoriesRead snapshot).map directoryEntry ++
        (archiveFilesRead snapshot).map fileEntry := by
  have hdirectories :
      (snapshot.directories.map fun d => (directoryText d, ([] : List UInt8), '5')).map
      entryRead = snapshot.directories.map fun d => directoryEntry (below (readDirectory d)) := by
    rw [map_map]
    refine map_congr_left fun d hd => ?_
    show (⟨readPath (directoryText d), '5', []⟩ : TarEntry) = _
    rw [h.readPath_directory hd]
    rfl
  have hfiles : (snapshot.files.map fun f => (fileText f.1, f.2, '0')).map entryRead =
      snapshot.files.map fun f => fileEntry (below (readFile f.1), f.2) := by
    rw [map_map]
    refine map_congr_left fun f hf => ?_
    show (⟨readPath (fileText f.1), '0', f.2⟩ : TarEntry) = _
    rw [h.readPath_file hf]
    rfl
  have hentries : archiveEntries snapshot = (directoryText [], [], '5') ::
      (snapshot.directories.map fun d => (directoryText d, [], '5')) ++
      (snapshot.files.map fun f => (fileText f.1, f.2, '0')) ++
      [(joinPath archiveManifestPath, Bytes.utf8 archiveManifest, '0')] := rfl
  have hroot : entryRead (directoryText [], [], '5') = directoryEntry (below []) := by
    rfl
  have hmanifest : entryRead (joinPath archiveManifestPath, Bytes.utf8 archiveManifest, '0') =
      fileEntry (archiveManifestPath, Bytes.utf8 archiveManifest) := by
    rfl
  rw [hentries, map_append, map_append, map_cons, hdirectories, hfiles,
    append_assoc, hroot]
  simp only [directoriesRead, archiveFilesRead, filesRead, map_cons, map_append,
    map_map, map_nil, hmanifest]
  rfl

end

/-- The limits of the reader on the size of an archive. -/
structure WithinLimits (snapshot : StoredSnapshot) : Prop where
  size : entriesSize (archiveEntries snapshot) + 1024 ≤ maxArchiveBytes
  count : snapshot.directories.length + snapshot.files.length + 2 ≤ maxEntries
  lengths : ∀ f ∈ snapshot.files, f.2.length ≤ maxEntryBytes

/-- The paths of PGDATA, as they are read. -/
def pathsRead (snapshot : StoredSnapshot) : List Path :=
  snapshot.directories.map readDirectory ++ snapshot.files.map fun f => readFile f.1

theorem length_archiveEntries (snapshot : StoredSnapshot) :
    (archiveEntries snapshot).length = snapshot.directories.length + snapshot.files.length + 2 := by
  rw [archiveEntries, length_append, length_append, length_cons, length_map,
    length_map, length_singleton]
  omega

/-- The limits of the reader, stated of the snapshot. -/
theorem Encoded.entries_within_iff (h : Encoded snapshot bytes) :
    (∀ e ∈ archiveEntries snapshot, e.2.1.length ≤ maxEntryBytes ∧ Legible (readPath e.1)) ↔
      (∀ f ∈ snapshot.files, f.2.length ≤ maxEntryBytes) ∧
      ∀ p ∈ pathsRead snapshot, Legible (below p) := by
  have hroot : Legible (below []) := by
    rw [Legible]
    decide +kernel
  have hmanifest : Legible archiveManifestPath := by
    rw [Legible]
    decide +kernel
  constructor
  · intro hall
    refine ⟨fun f hf => ?_, fun p hp => ?_⟩
    · exact (hall _ (mem_entries_file hf)).1
    · rcases mem_append.mp hp with hp | hp
      · obtain ⟨d, hd, rfl⟩ := mem_map.mp hp
        have := (hall _ (mem_entries_directory hd)).2
        rwa [h.readPath_directory hd] at this
      · obtain ⟨f, hf, rfl⟩ := mem_map.mp hp
        have := (hall _ (mem_entries_file hf)).2
        rwa [h.readPath_file hf] at this
  · rintro ⟨hlengths, hlegible⟩ e he
    rcases mem_archiveEntries.mp he with rfl | ⟨d, hd, rfl⟩ | ⟨f, hf, rfl⟩ | rfl
    · exact ⟨Nat.zero_le _, by exact hroot⟩
    · refine ⟨Nat.zero_le _, ?_⟩
      rw [h.readPath_directory hd]
      exact hlegible _ (mem_append_left _ (mem_map_of_mem hd))
    · refine ⟨hlengths f hf, ?_⟩
      rw [h.readPath_file hf]
      exact hlegible _ (mem_append_right _ (mem_map.mpr ⟨f, hf, rfl⟩))
    · exact ⟨by decide +kernel, by exact hmanifest⟩

/-- **Extraction of an encoded snapshot** succeeds within the limits, with legible paths and
without a conflict. -/
theorem Encoded.extract_ok_iff (h : Encoded snapshot bytes) {archive : ExtractedArchive} :
    extractTar bytes = .ok archive ↔
      WithinLimits snapshot ∧ (∀ p ∈ pathsRead snapshot, Legible (below p)) ∧
      ∃ tree, addEntries Tree.empty ((directoriesRead snapshot).map directoryEntry ++
        (archiveFilesRead snapshot).map fileEntry) = .ok tree ∧
        archive = ⟨tree.files, tree.directories⟩ := by
  obtain ⟨entries, hentries, hbytes⟩ := h.bytes_eq
  by_cases hsize : entriesSize (archiveEntries snapshot) + 1024 ≤ maxArchiveBytes
  · have hread := fun tree => @readEntries_ok_iff _ h.sanitized Tree.empty tree 0 (Nat.zero_le _)
    rw [length_archiveEntries, h.entries_within_iff, h.entries_read] at hread
    rw [hbytes, extractTar_written hentries h.writable hsize]
    constructor
    · intro hok
      cases hrun : readEntries Tree.empty 0 (archiveEntries snapshot) with
      | error e =>
        rw [hrun] at hok
        cases hok
      | ok tree =>
        rw [hrun] at hok
        obtain ⟨hcount, ⟨hlengths, hlegible⟩, htree⟩ := (hread tree).mp hrun
        exact ⟨⟨hsize, by omega, hlengths⟩, hlegible, tree, htree, (Except.ok.inj hok).symm⟩
    · rintro ⟨hlimits, hlegible, tree, htree, rfl⟩
      have hcount := hlimits.count
      rw [(hread tree).mpr ⟨by omega, ⟨hlimits.lengths, hlegible⟩, htree⟩]
      rfl
  · refine iff_of_false ?_ fun hall => hsize hall.1.size
    rw [extractTar, hbytes, length_written hentries, if_pos (by omega)]
    simp

end Encoded

/-! ## The tree and the snapshot -/

/-- The directories of the tree: those that are read, and the ones above them. -/
def treeDirectories (snapshot : StoredSnapshot) : List Path :=
  (directoriesRead snapshot).foldl addDirectoryWithAncestors []

/-- The extracted directories are closed upwards. -/
theorem mem_treeDirectories : p ∈ treeDirectories snapshot ↔
      ∃ path, p = below path ∧
        (path = [] ∨ ∃ d ∈ snapshot.directories, path <+: readDirectory d) := by
  have hne : ∀ d ∈ directoriesRead snapshot, d ≠ [] := by
    intro d hd
    rcases mem_cons.mp hd with rfl | hd
    · exact cons_ne_nil _ _
    · obtain ⟨e, -, rfl⟩ := mem_map.mp hd
      exact cons_ne_nil _ _
  rw [treeDirectories, mem_foldl_addDirectory hne, directoriesRead]
  simp only [not_mem_nil, false_or, mem_cons, mem_map, exists_eq_or_imp,
    exists_exists_and_eq_and]
  constructor
  · rintro ⟨hp, hroot | ⟨d, hd, hle⟩⟩
    · cases p with
      | nil => exact absurd rfl hp
      | cons first rest =>
        obtain ⟨rfl, hrest⟩ := cons_prefix_cons.mp hroot
        exact ⟨rest, rfl, .inl (prefix_nil.mp hrest)⟩
    · cases p with
      | nil => exact absurd rfl hp
      | cons first rest =>
        obtain ⟨rfl, hrest⟩ := cons_prefix_cons.mp hle
        exact ⟨rest, rfl, .inr ⟨d, hd, hrest⟩⟩
  · rintro ⟨path, rfl, rfl | ⟨d, hd, hle⟩⟩
    · exact ⟨cons_ne_nil _ _, .inl (prefix_refl _)⟩
    · exact ⟨cons_ne_nil _ _, .inr ⟨d, hd, cons_prefix_cons.mpr ⟨rfl, hle⟩⟩⟩

/-- The directories of PGDATA that are read from the tree. -/
theorem exists_directories (snapshot : StoredSnapshot) :
    ∃ relative, archiveDirectories (treeDirectories snapshot) = .ok relative ∧ relative.Nodup ∧
      ∀ p, p ∈ relative ↔ p ≠ [] ∧ ∃ d ∈ snapshot.directories, p <+: readDirectory d := by
  obtain ⟨relative, hok, hmem, hnodup⟩ := archiveDirectories_below
    (fun d hd => (mem_treeDirectories.mp hd).imp fun _ h => h.1 :
      ∀ d ∈ treeDirectories snapshot, ∃ path, d = below path)
  refine ⟨relative, hok, hnodup (nodup_foldl_addDirectory nodup_nil), fun p => ?_⟩
  rw [hmem, mem_treeDirectories]
  refine and_congr_right fun hne => ?_
  constructor
  · rintro ⟨path, heq, hpath⟩
    obtain ⟨-, rfl⟩ := List.cons.inj heq
    exact hpath.resolve_left hne
  · exact fun hd => ⟨p, rfl, .inr hd⟩

/-- What the insertions of an archive say about its paths. -/
theorem addEntries_archive
    (h : addEntries Tree.empty ((directoriesRead snapshot).map directoryEntry ++
      (archiveFilesRead snapshot).map fileEntry) = .ok tree) :
    (directoriesRead snapshot ++ (archiveFilesRead snapshot).map Prod.fst).Nodup ∧
      (∀ f ∈ archiveFilesRead snapshot, f.1 ∉ treeDirectories snapshot) ∧
      tree.files = archiveFilesRead snapshot ∧ tree.directories = treeDirectories snapshot := by
  obtain ⟨middle, hdirectories, hfiles⟩ := addEntries_append.mp h
  obtain ⟨hnodup, rfl⟩ := (addEntries_directories rfl nodup_nil).mp hdirectories
  obtain ⟨hall, hapart, rfl⟩ := addEntries_fileEntries hnodup hfiles
  exact ⟨hall, hapart, rfl, rfl⟩

/-- And when they succeed. -/
theorem addEntries_archive_ok
    (hnodup : (directoriesRead snapshot ++ (archiveFilesRead snapshot).map Prod.fst).Nodup)
    (hapart : ∀ f ∈ archiveFilesRead snapshot, f.1 ∉ treeDirectories snapshot)
    (hparents : ∀ f ∈ archiveFilesRead snapshot, ∀ p ∈ parentPaths f.1,
      p ∉ (archiveFilesRead snapshot).map Prod.fst) :
    ∃ tree, addEntries Tree.empty ((directoriesRead snapshot).map directoryEntry ++
      (archiveFilesRead snapshot).map fileEntry) = .ok tree := by
  have hdirectories : addEntries Tree.empty ((directoriesRead snapshot).map directoryEntry) =
      .ok ⟨[], treeDirectories snapshot, directoriesRead snapshot⟩ :=
    (addEntries_directories rfl nodup_nil).mpr ⟨(nodup_append.mp hnodup).1, rfl⟩
  exact ⟨_, addEntries_append.mpr ⟨_, hdirectories,
    addEntries_fileEntries_ok hnodup hapart hparents⟩⟩

theorem textDecode_manifest :
    Bytes.textDecode (Bytes.utf8 archiveManifest) = some archiveManifest :=
  Bytes.textDecode_utf8_of_not_mark (by decide +kernel)

theorem fileBytes_manifest (snapshot : StoredSnapshot) :
    fileBytes (archiveFilesRead snapshot) archiveManifestPath =
      some (Bytes.utf8 archiveManifest) := by
  have hother : ((filesRead snapshot).map fun f => (below f.1, f.2)).find?
      (fun file => file.1 = archiveManifestPath) = none := by
    rw [List.find?_eq_none]
    intro f hf
    obtain ⟨g, -, rfl⟩ := mem_map.mp hf
    simp only [decide_eq_true_eq]
    exact fun heq => absurd (List.cons.inj heq).1 (by decide)
  rw [fileBytes, archiveFilesRead, List.find?_append, hother, Option.none_or,
    List.find?_cons_of_pos (by simp)]
  rfl

/-- The last part of decoding: manifest, backup label and the stored snapshot. -/
theorem readSnapshot_ok_iff
    (hrelative : archiveDirectories (treeDirectories snapshot) = .ok relative) :
    readSnapshot ⟨archiveFilesRead snapshot, treeDirectories snapshot⟩ = .ok result ↔
      (∀ f ∈ filesRead snapshot, f.1 ≠ [] ∧ f.1 ≠ [".oliphaunt.json"]) ∧
      (fileBytes (filesRead snapshot) ["backup_label"]).getD [] ≠ [] ∧ ["base"] ∈ relative ∧
      validateStoredSnapshot ⟨relative, filesRead snapshot⟩ = .ok result := by
  have hfiles :=
    fun out => @archiveFiles_below (filesRead snapshot) out (Bytes.utf8 archiveManifest)
  simp only [readSnapshot, fileBytes_manifest, textDecode_manifest, ne_eq, not_true_eq_false,
    if_false, hrelative]
  split
  · rename_i e herror
    refine iff_of_false nofun fun h => ?_
    have hok := (hfiles _).mpr ⟨h.1, rfl⟩
    cases herror.symm.trans hok
  · rename_i out hout
    obtain ⟨hnamed, rfl⟩ := (hfiles _).mp hout
    by_cases hlabel : (fileBytes (filesRead snapshot) ["backup_label"]).getD [] = []
    · rw [if_pos hlabel]
      exact iff_of_false nofun fun h => h.2.1 hlabel
    by_cases hbase : ["base"] ∈ relative
    · rw [if_neg hlabel, if_neg (by rw [contains_iff_mem]; exact not_not.mpr hbase)]
      exact ⟨fun h => ⟨hnamed, hlabel, hbase, h⟩, fun h => h.2.2.2⟩
    · rw [if_neg hlabel, if_pos (by rw [contains_iff_mem]; exact hbase)]
      exact iff_of_false nofun fun h => hbase h.2.2.1

/-- **Decoding of an encoded snapshot**, from the bytes to the validated snapshot. -/
theorem Encoded.decode_ok_iff (h : Encoded snapshot bytes)
    (hrelative : archiveDirectories (treeDirectories snapshot) = .ok relative) :
    decodePhysicalArchive bytes = .ok result ↔
      WithinLimits snapshot ∧ (∀ p ∈ pathsRead snapshot, Legible (below p)) ∧
      (∃ tree, addEntries Tree.empty ((directoriesRead snapshot).map directoryEntry ++
        (archiveFilesRead snapshot).map fileEntry) = .ok tree) ∧
      (∀ f ∈ filesRead snapshot, f.1 ≠ [] ∧ f.1 ≠ [".oliphaunt.json"]) ∧
      (fileBytes (filesRead snapshot) ["backup_label"]).getD [] ≠ [] ∧ ["base"] ∈ relative ∧
      validateStoredSnapshot ⟨relative, filesRead snapshot⟩ = .ok result := by
  have hframing : validateTarFraming bytes = .ok () := by
    obtain ⟨entries, hentries, hbytes⟩ := h.bytes_eq
    rw [hbytes]
    exact validateTarFraming_written hentries h.writable
  simp only [decodePhysicalArchive, hframing]
  constructor
  · intro hok
    split at hok
    · cases hok
    rename_i archive harchive
    obtain ⟨hlimits, hlegible, tree, htree, rfl⟩ := h.extract_ok_iff.mp harchive
    obtain ⟨-, -, hfiles, hdirectories⟩ := addEntries_archive htree
    rw [hfiles, hdirectories, readSnapshot_ok_iff hrelative] at hok
    exact ⟨hlimits, hlegible, ⟨tree, htree⟩, hok⟩
  · rintro ⟨hlimits, hlegible, ⟨tree, htree⟩, hsnapshot⟩
    obtain ⟨-, -, hfiles, hdirectories⟩ := addEntries_archive htree
    rw [h.extract_ok_iff.mpr ⟨hlimits, hlegible, tree, htree, rfl⟩, hfiles, hdirectories]
    exact (readSnapshot_ok_iff hrelative).mpr hsnapshot

end Oliphaunt.PhysicalArchive
