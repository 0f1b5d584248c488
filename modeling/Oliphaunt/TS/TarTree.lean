import Mathlib.Data.List.Pairwise
import Oliphaunt.TS.PhysicalArchiveEntries

/-!
# The tree of an extracted archive

`extractTar` inserts one entry after the other. What the insertions have in common is
`Layered`: no file is a directory, and the directories come with the ones above them.
This excludes every conflict but one: a file may be inserted above a file that is
there already, since the parents of a file are not directories of the result.

* `extracted_tree_iff` — when what is extracted is a tree;
* `extracted_file_above_file` — the one conflict.
-/

namespace Oliphaunt.TarArchive

open FileTree Tar List
open PhysicalArchive (appendTarEntries exists_appendTarEntries extractTar_written)

/-- A proper ancestor. -/
def IsAbove (p q : Path) : Prop := p <+: q ∧ p ≠ q

instance (p q : Path) : Decidable (IsAbove p q) := inferInstanceAs (Decidable (_ ∧ _))

variable {p : Path} {q : Path}

theorem mem_parentPaths : p ∈ parentPaths q ↔ p ≠ [] ∧ IsAbove p q := by
  rw [parentPaths, mem_map]
  constructor
  · rintro ⟨n, hn, rfl⟩
    obtain ⟨i, hi, rfl⟩ := mem_iff_getElem.mp hn
    have hlength : 1 + i < q.length := by
      rw [length_drop, length_range] at hi
      omega
    rw [getElem_drop, getElem_range]
    refine ⟨?_, take_prefix _ _, ?_⟩
    · intro hnil
      have := congrArg List.length hnil
      rw [length_take, length_nil] at this
      omega
    · intro hself
      have := congrArg List.length hself
      rw [length_take] at this
      omega
  · rintro ⟨hne, habove, hproper⟩
    have hle := habove.length_le
    have hpos := length_pos_of_ne_nil hne
    have hlt : p.length < q.length := by
      rcases Nat.lt_or_eq_of_le hle with hlt | heq
      · exact hlt
      · exact absurd (habove.eq_of_length heq) hproper
    refine ⟨p.length, ?_, (prefix_iff_eq_take.mp habove).symm⟩
    refine mem_iff_getElem.mpr ⟨p.length - 1, ?_, ?_⟩
    · rw [length_drop, length_range]
      omega
    · rw [getElem_drop, getElem_range]
      omega

variable {directories : List Path}

theorem mem_insertAll {ps : List Path} :
    p ∈ ps.foldl (fun ds p => if ds.contains p then ds else ds ++ [p]) directories ↔
      p ∈ directories ∨ p ∈ ps := by
  induction ps generalizing directories with
  | nil => simp
  | cons q ps ih =>
    rw [foldl_cons, ih, mem_cons]
    split
    · rename_i hmem
      rw [contains_iff_mem] at hmem
      constructor
      · exact fun h => h.imp_right Or.inr
      · rintro (h | rfl | h)
        · exact .inl h
        · exact .inl hmem
        · exact .inr h
    · rw [mem_append, mem_singleton, or_assoc]

theorem mem_addDirectoryWithAncestors (hq : q ≠ []) :
    p ∈ addDirectoryWithAncestors directories q ↔ p ∈ directories ∨ (p ≠ [] ∧ p <+: q) := by
  rw [addDirectoryWithAncestors, mem_insertAll, mem_append, mem_parentPaths,
    mem_singleton]
  refine or_congr_right ?_
  constructor
  · rintro (⟨hne, habove, -⟩ | rfl)
    · exact ⟨hne, habove⟩
    · exact ⟨hq, prefix_refl p⟩
  · rintro ⟨hne, hle⟩
    by_cases heq : p = q
    · exact .inr heq
    · exact .inl ⟨hne, hle, heq⟩

variable {tree : Tree}

theorem Tree.hasFile_iff :
    tree.hasFile p = true ↔ p ∈ tree.files.map Prod.fst := by
  rw [Tree.hasFile, contains_iff_mem]

/-- What an entry that is inserted does to the tree. -/
inductive Inserted (tree : Tree) (entry : TarEntry) : Tree → Prop
  | directory (htype : entry.type = '5') (hpayload : entry.payload = [])
      (hfile : entry.path ∉ tree.files.map Prod.fst) :
      Inserted tree entry ⟨tree.files, addDirectoryWithAncestors tree.directories entry.path,
        tree.explicitPaths ++ [entry.path]⟩
  | file (htype : entry.type = '0') (hdirectory : entry.path ∉ tree.directories) :
      Inserted tree entry ⟨tree.files ++ [(entry.path, entry.payload)], tree.directories,
        tree.explicitPaths ++ [entry.path]⟩

variable {entry : TarEntry} {next : Tree}

/-- An entry is inserted unless its path was listed before or one of its parents is a file. -/
theorem addEntry_ok_iff : addEntry tree entry = .ok next ↔
      entry.path ∉ tree.explicitPaths ∧
      (∀ p ∈ parentPaths entry.path, p ∉ tree.files.map Prod.fst) ∧ Inserted tree entry next := by
  have hparents : (parentPaths entry.path).find? tree.hasFile = none ↔
      ∀ p ∈ parentPaths entry.path, p ∉ tree.files.map Prod.fst := by
    rw [List.find?_eq_none]
    simp only [Tree.hasFile_iff]
  rw [addEntry]
  by_cases hrepeated : tree.explicitPaths.contains entry.path = true
  · rw [contains_iff_mem] at hrepeated
    simp [hrepeated]
  have hnew : entry.path ∉ tree.explicitPaths := by
    rwa [contains_iff_mem] at hrepeated
  simp only [if_neg hrepeated]
  cases hfind : (parentPaths entry.path).find? tree.hasFile with
  | some ancestor =>
    have hnot : ¬ ∀ p ∈ parentPaths entry.path, p ∉ tree.files.map Prod.fst := by
      rw [← hparents, hfind]
      exact nofun
    simp only [hnot, false_and, and_false, reduceCtorEq]
  | none =>
    have hnone := hparents.mp hfind
    constructor
    · intro h
      refine ⟨hnew, hnone, ?_⟩
      simp only at h
      split at h
      · rename_i htype
        split at h
        · cases h
        rename_i hpayload
        split at h
        · cases h
        rename_i hfile
        rw [Tree.hasFile_iff] at hfile
        rw [← Except.ok.inj h]
        exact .directory htype (not_not.mp hpayload) hfile
      · split at h
        · cases h
        rename_i htype
        split at h
        · cases h
        rename_i hdirectory
        rw [contains_iff_mem] at hdirectory
        rw [← Except.ok.inj h]
        exact .file (not_not.mp htype) hdirectory
    · rintro ⟨-, -, hinserted⟩
      cases hinserted with
      | directory htype hpayload hfile =>
        rw [if_pos htype, if_neg (not_not.mpr hpayload), if_neg]
        rwa [Tree.hasFile_iff]
      | file htype hdirectory =>
        have hplain : entry.type ≠ '5' := by
          rw [htype]
          decide
        rw [if_neg hplain, if_neg (not_not.mpr htype), if_neg]
        rwa [contains_iff_mem]

/-- `addEntry` for one entry after the other. -/
def addEntries (tree : Tree) : List TarEntry → Except String Tree
  | [] => .ok tree
  | entry :: rest =>
    match addEntry tree entry with
    | .error e => .error e
    | .ok tree => addEntries tree rest

variable {last : Tree}

theorem addEntries_cons : addEntries tree (entry :: rest) = .ok last ↔
      ∃ next, addEntry tree entry = .ok next ∧ addEntries next rest = .ok last := by
  rw [addEntries]
  cases addEntry tree entry with
  | error e => simp
  | ok next => simp

/-- The paths of the entries that are files, in their order. -/
def filePaths (entries : List TarEntry) : List Path :=
  (entries.filter fun entry => entry.type = '0').map TarEntry.path

/-- No file is a directory, and a directory comes with the ones above it. -/
structure Layered (tree : Tree) : Prop where
  apart : ∀ p ∈ tree.files.map Prod.fst, p ∉ tree.directories
  closed : ∀ d ∈ tree.directories, ∀ p, p ≠ [] → p <+: d → p ∈ tree.directories
  named : ∀ p ∈ tree.files.map Prod.fst, p ≠ []

theorem Layered.empty : Layered Tree.empty :=
  ⟨fun _ h => absurd h not_mem_nil, fun _ h => absurd h not_mem_nil,
    fun _ h => absurd h not_mem_nil⟩

/-- Every insertion keeps the layers. -/
theorem Layered.addEntry (h : Layered tree) (hpath : entry.path ≠ [])
    (hadd : addEntry tree entry = .ok next) : Layered next := by
  obtain ⟨-, hparents, hinserted⟩ := addEntry_ok_iff.mp hadd
  cases hinserted with
  | directory htype hpayload hfile =>
    refine ⟨?_, ?_, h.named⟩
    · intro p hp hmem
      rcases (mem_addDirectoryWithAncestors hpath).mp hmem with hold | ⟨hne, hle⟩
      · exact h.apart p hp hold
      · by_cases heq : p = entry.path
        · exact hfile (heq ▸ hp)
        · exact hparents p (mem_parentPaths.mpr ⟨hne, hle, heq⟩) hp
    · intro d hd p hne hle
      refine (mem_addDirectoryWithAncestors hpath).mpr ?_
      rcases (mem_addDirectoryWithAncestors hpath).mp hd with hold | ⟨-, habove⟩
      · exact .inl (h.closed d hold p hne hle)
      · exact .inr ⟨hne, hle.trans habove⟩
  | file htype hdirectory =>
    have hmem : ∀ p ∈ (tree.files ++ [(entry.path, entry.payload)]).map Prod.fst,
        p ∈ tree.files.map Prod.fst ∨ p = entry.path := by
      intro p hp
      rwa [map_append, mem_append, map_singleton, mem_singleton] at hp
    refine ⟨?_, h.closed, ?_⟩
    · intro p hp
      rcases hmem p hp with hold | rfl
      · exact h.apart p hold
      · exact hdirectory
    · intro p hp
      rcases hmem p hp with hold | rfl
      · exact h.named p hold
      · exact hpath

variable {entries : List TarEntry}

/-- So do all insertions of an archive. -/
theorem Layered.addEntries (h : Layered tree) (hpaths : ∀ e ∈ entries, e.path ≠ [])
    (hadd : addEntries tree entries = .ok last) : Layered last := by
  induction entries generalizing tree with
  | nil =>
    obtain rfl : tree = last := Except.ok.inj hadd
    exact h
  | cons entry rest ih =>
    obtain ⟨next, hnext, hrest⟩ := addEntries_cons.mp hadd
    exact ih (h.addEntry (hpaths entry (.head _)) hnext)
      (fun e he => hpaths e (.tail _ he)) hrest

/-- The files of the tree are those of the entries, and no file comes after one above it. -/
theorem addEntries_files (hpaths : ∀ e ∈ entries, e.path ≠ [])
    (htree : ∀ p ∈ tree.files.map Prod.fst, p ≠ []) (hadd : addEntries tree entries = .ok last)
    (hordered : (tree.files.map Prod.fst).Pairwise fun p q => ¬ IsAbove p q) :
    last.files.map Prod.fst = tree.files.map Prod.fst ++ filePaths entries ∧
      (last.files.map Prod.fst).Pairwise fun p q => ¬ IsAbove p q := by
  induction entries generalizing tree with
  | nil =>
    obtain rfl : tree = last := Except.ok.inj hadd
    exact ⟨(append_nil _).symm, hordered⟩
  | cons entry rest ih =>
    obtain ⟨next, hnext, hrest⟩ := addEntries_cons.mp hadd
    have hne := hpaths entry (.head _)
    have hrestPaths := fun e he => hpaths e (.tail entry he)
    obtain ⟨-, hparents, hinserted⟩ := addEntry_ok_iff.mp hnext
    cases hinserted with
    | directory htype hpayload hfile =>
      have hskip : filePaths (entry :: rest) = filePaths rest := by
        rw [filePaths, filter_cons_of_neg, filePaths]
        rw [htype]
        decide
      rw [hskip]
      have hrun := ih hrestPaths (by exact htree) hrest (by exact hordered)
      exact hrun
    | file htype hdirectory =>
      have hkeep : filePaths (entry :: rest) = entry.path :: filePaths rest := by
        rw [filePaths, filter_cons_of_pos, map_cons, filePaths]
        rw [htype]
        decide
      have hfiles : (tree.files ++ [(entry.path, entry.payload)]).map Prod.fst =
          tree.files.map Prod.fst ++ [entry.path] := by
        rw [map_append, map_singleton]
      obtain ⟨hlast, hpairs⟩ := ih hrestPaths (by
        intro p hp
        rw [hfiles, mem_append, mem_singleton] at hp
        rcases hp with hold | rfl
        · exact htree p hold
        · exact hne) hrest (by
        rw [hfiles, pairwise_append]
        refine ⟨hordered, pairwise_singleton _ _, ?_⟩
        intro p hp q hq habove
        obtain rfl := mem_singleton.mp hq
        exact hparents p (mem_parentPaths.mpr ⟨htree p hp, habove⟩) hp)
      refine ⟨?_, hpairs⟩
      rw [hlast, hfiles, hkeep, append_assoc, singleton_append]

/-! ## The entries of an archive -/

/-- The entries that the loop reads, the tree left aside. -/
def entriesLoop : Nat → Pax → List UInt8 → List TarEntry
  | 0, _, _ => []
  | fuel + 1, pax, archive =>
    if archive.length < blockSize then []
    else
      match readBlock pax (archive.take blockSize) (archive.drop blockSize) with
      | .error _ => []
      | .ok .terminator => []
      | .ok (.records pax rest) => entriesLoop fuel pax rest
      | .ok (.entry entry pax rest) => entry :: entriesLoop fuel pax rest

def tarEntries (archive : List UInt8) : List TarEntry :=
  entriesLoop (archive.length + 1) Pax.start archive

variable {path : Path}

theorem sanitizeTarPath_ne_nil (h : sanitizeTarPath text = .ok (some path)) : path ≠ [] := by
  rw [sanitizeTarPath] at h
  split at h
  · cases h
  simp only at h
  split at h
  · cases h
  rename_i hempty
  split at h
  · cases h
  rename_i hrelative
  split at h
  · cases h
  split at h
  · cases h
  split at h
  · cases h
  rw [← Option.some.inj (Except.ok.inj h)]
  intro hnil
  have hall : ∀ segment ∈ (dropDotSlash text).splitOn '/', segment = [] := by
    have := map_eq_nil_iff.mp hnil
    rw [filter_eq_nil_iff] at this
    intro segment hsegment
    have := this segment hsegment
    simpa using this
  -- a text that does not begin with the separator has a first segment
  cases hnormal : dropDotSlash text with
  | nil => exact hempty (.inl hnormal)
  | cons c rest =>
    have hc : c ≠ '/' := by
      rintro rfl
      rw [hnormal] at hrelative
      exact hrelative rfl
    have hsplit : (c :: rest).splitOn '/' =
        List.modifyHead (List.cons c) (rest.splitOn '/') := by
      rw [List.splitOn, splitOnP_cons_eq_if_modifyHead, if_neg (by simpa using hc),
        List.splitOn]
    rw [hnormal, hsplit] at hall
    cases hrest : rest.splitOn '/' with
    | nil => exact splitOnP_ne_nil _ rest hrest
    | cons segment segments =>
      have := hall (c :: segment) (by rw [hrest, modifyHead_cons]; exact .head _)
      cases this

variable {pax : Pax} {next : Pax}

theorem readMeta_ne_entry : readMeta pax type payload rest ≠ .ok (.entry entry next more) := by
  intro h
  rw [readMeta] at h
  split at h
  · split at h
    · cases h
    split at h <;> cases h
  split at h
  · cases h
  split at h
  · split at h <;> cases h
  · split at h <;> cases h

variable {header : List UInt8}

theorem entryPath_ne_nil (h : entryPath pax header = .ok (some path)) : path ≠ [] := by
  simp only [entryPath] at h
  split at h
  · cases h
  split at h
  · exact sanitizeTarPath_ne_nil h
  · split at h <;> try cases h
    exact sanitizeTarPath_ne_nil h

theorem readBlock_entry_ne_nil (h : readBlock pax header rest = .ok (.entry entry next more)) :
    entry.path ≠ [] := by
  rw [readBlock] at h
  split at h
  · split at h
    · cases h
    split at h <;> cases h
  split at h
  · cases h
  simp only at h
  split at h
  · cases h
  split at h
  · cases h
  split at h
  · cases h
  split at h
  · exact absurd h readMeta_ne_entry
  split at h
  · cases h
  rename_i hpath
  split at h
  · cases h
  · obtain ⟨rfl, -, -⟩ := Block.entry.inj (Except.ok.inj h)
    exact entryPath_ne_nil hpath

variable {fuel : Nat} {archive : List UInt8}

theorem mem_entriesLoop (h : entry ∈ entriesLoop fuel pax archive) : entry.path ≠ [] := by
  induction fuel generalizing pax archive with
  | zero => cases h
  | succ fuel ih =>
    rw [entriesLoop] at h
    split at h
    · cases h
    split at h
    · cases h
    · cases h
    · exact ih h
    · rename_i first next rest hread
      rcases mem_cons.mp h with rfl | hrest
      · exact readBlock_entry_ne_nil hread
      · exact ih hrest

/-- What is extracted is the result of inserting the entries one by one. -/
theorem extractLoop_ok (h : extractLoop fuel pax tree archive = .ok result) :
    ∃ last, addEntries tree (entriesLoop fuel pax archive) = .ok last ∧
      result = ⟨last.files, last.directories⟩ := by
  induction fuel generalizing pax tree archive with
  | zero => cases h
  | succ fuel ih =>
    rw [extractLoop] at h
    rw [entriesLoop]
    by_cases hlength : archive.length < blockSize
    · rw [if_pos hlength] at h
      cases h
    rw [if_neg hlength] at h ⊢
    cases hread : readBlock pax (archive.take blockSize) (archive.drop blockSize) with
    | error e =>
      rw [hread] at h
      cases h
    | ok block =>
      rw [hread] at h
      cases block with
      | terminator => exact ⟨tree, rfl, (Except.ok.inj h).symm⟩
      | records next rest => exact ih h
      | entry entry next rest =>
        dsimp only at h ⊢
        split at h
        · cases h
        rename_i inserted hinserted
        obtain ⟨last, hlast, hresult⟩ := ih h
        exact ⟨last, addEntries_cons.mpr ⟨inserted, hinserted, hlast⟩, hresult⟩

/-- A file has nothing below it, and is no directory. -/
structure IsTree (archive : ExtractedArchive) : Prop where
  leaves : ∀ p ∈ archive.files.map Prod.fst,
    ∀ q ∈ archive.files.map Prod.fst ++ archive.directories, ¬ IsAbove p q
  apart : ∀ p ∈ archive.files.map Prod.fst, p ∉ archive.directories

/-- No file comes after a file below it. -/
def UpperFilesFirst (entries : List TarEntry) : Prop :=
  (filePaths entries).Pairwise fun p q => ¬ IsAbove q p

/-- In a layered tree only files can lie below a file. -/
theorem Layered.isTree_iff (h : Layered tree)
    (hordered : (tree.files.map Prod.fst).Pairwise fun p q => ¬ IsAbove p q) :
    IsTree ⟨tree.files, tree.directories⟩ ↔
      (tree.files.map Prod.fst).Pairwise fun p q => ¬ IsAbove q p := by
  constructor
  · intro htree
    refine pairwise_iff_forall_sublist.mpr ?_
    intro p q hsub
    have hp : p ∈ tree.files.map Prod.fst := hsub.subset (.head _)
    have hq : q ∈ tree.files.map Prod.fst :=
      hsub.subset (.tail _ (.head _))
    exact htree.leaves q hq p (mem_append_left _ hp)
  · intro hfirst
    have hboth : (tree.files.map Prod.fst).Pairwise fun p q => ¬ IsAbove p q ∧ ¬ IsAbove q p :=
      hordered.and hfirst
    refine ⟨?_, h.apart⟩
    intro p hp q hq habove
    rcases mem_append.mp hq with hfile | hdirectory
    · have hsymm : Std.Symm fun p q : Path => ¬ IsAbove p q ∧ ¬ IsAbove q p :=
        ⟨fun _ _ h => ⟨h.2, h.1⟩⟩
      exact (hboth.forall hp hfile habove.2).1 habove
    · exact h.apart p hp (h.closed q hdirectory p (h.named p hp) habove.1)

/-- **What is extracted is a tree** exactly if no file of the archive comes after a file below
it. -/
theorem extracted_tree_iff {archive : List UInt8} {result : ExtractedArchive}
    (h : extractTar archive = .ok result) :
    IsTree result ↔ UpperFilesFirst (tarEntries archive) := by
  rw [extractTar] at h
  split at h
  · cases h
  obtain ⟨last, hlast, rfl⟩ := extractLoop_ok h
  have hpaths : ∀ e ∈ tarEntries archive, e.path ≠ [] := fun e he => mem_entriesLoop he
  have hlayered := Layered.empty.addEntries hpaths hlast
  obtain ⟨hfiles, hordered⟩ :=
    addEntries_files hpaths (fun _ h => absurd h not_mem_nil) hlast List.Pairwise.nil
  rw [hlayered.isTree_iff hordered, hfiles]
  exact Iff.rfl

/-- A directory and a file in it. -/
theorem extracted_tree_nested_file : ∃ bytes,
    appendTarEntries [("a".toList, [], '5'), ("a/b".toList, [1], '0')] =
      .ok bytes ∧
    extractTar (bytes ++ zeros (blockSize * 2)) = .ok ⟨[(["a", "b"], [1])], [["a"]]⟩ ∧
    (IsTree ⟨[(["a", "b"], [1])], [["a"]]⟩ ↔
      UpperFilesFirst (tarEntries (bytes ++ zeros (blockSize * 2)))) := by
  obtain ⟨bytes, hbytes⟩ : ∃ bytes,
      appendTarEntries [("a".toList, [], '5'), ("a/b".toList, [1], '0')] =
        .ok bytes := exists_appendTarEntries (by decide +kernel)
  have hread : extractTar (bytes ++ zeros (blockSize * 2)) =
      .ok ⟨[(["a", "b"], [1])], [["a"]]⟩ := by
    rw [extractTar_written (.of_ok hbytes) (by decide +kernel) (by decide +kernel)]
    rfl
  exact ⟨bytes, hbytes, hread, extracted_tree_iff hread⟩

/-- A file is inserted above a file that came before it. -/
theorem extracted_file_above_file : ∃ bytes,
    appendTarEntries [("a/b".toList, [1], '0'), ("a".toList, [2], '0')] =
      .ok bytes ∧
    extractTar (bytes ++ zeros (blockSize * 2)) = .ok ⟨[(["a", "b"], [1]), (["a"], [2])], []⟩ ∧
    ¬ IsTree ⟨[(["a", "b"], [1]), (["a"], [2])], []⟩ := by
  obtain ⟨bytes, hbytes⟩ : ∃ bytes,
      appendTarEntries [("a/b".toList, [1], '0'), ("a".toList, [2], '0')] =
        .ok bytes := exists_appendTarEntries (by decide +kernel)
  refine ⟨bytes, hbytes, ?_, ?_⟩
  · rw [extractTar_written (.of_ok hbytes) (by decide +kernel) (by decide +kernel)]
    rfl
  · intro htree
    exact htree.leaves ["a"] (by decide) ["a", "b"] (by decide) (by decide)

end Oliphaunt.TarArchive
