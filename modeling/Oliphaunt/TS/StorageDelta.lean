import Mathlib.Data.List.Dedup
import Mathlib.Data.List.Sort
import Oliphaunt.TS.OpfsPool

/-!
# Deltas of a live directory

`snapshotStorageDelta` reads what a store must change to hold the live directory:
the whole directory when there is no change journal or no stored generation, and
otherwise only what lies at and under the paths of the journal.

Either way the delta is the same function of the directory and of a scope of paths
(`snapshotStorageDelta_captures`): the nodes of the directory in the scope, and the
persisted paths of the scope that are gone or have changed type.
-/

namespace Oliphaunt.IncrementalStorage

open FileTree OpfsPool PathTree List

/-- The directory that the database runs on. -/
structure Directory where
  tree : PathTree Contents
  formed : tree.WellFormed
  names : ∀ p ∈ tree.paths, p.all isEntryName = true

structure StorageDelta where
  directories : List Path
  files : List (Path × Contents)
  deleted : List Path
deriving DecidableEq, Repr

def volatileDatabaseFiles : List String := ["postmaster.opts", "postmaster.pid"]

def isVolatilePath : Path → Bool
  | [] => false
  | root :: _ => volatileDatabaseFiles.contains root

/-- The type of an entry, without the bytes of a file. -/
def entryType {α : Type} : Node α → Node Unit
  | .directory => .directory
  | .file _ => .file ()

/-- `compareDirectoryDepth`, up to `localeCompare` of paths of one depth. -/
def sortByDepth (paths : List Path) : List Path := paths.mergeSort fun p q => p.length ≤ q.length

/-- `comparePathDepthDescending`, up to `localeCompare` of paths of one depth. -/
def sortByDepthDescending (paths : List Path) : List Path :=
  paths.mergeSort fun p q => q.length ≤ p.length

/-- No path of the directory is longer. -/
def depth (tree : PathTree Contents) : Nat := tree.foldr (fun e n => max e.1.length n) 0

/-- `walk(parent)` of `snapshotStorageDirectory` with its filters, to a depth of `fuel`. -/
def filteredWalk (skipFile skipDirectoryContents : Path → Bool) (tree : PathTree Contents) :
    Nat → Path → PathTree Contents
  | 0, _ => []
  | fuel + 1, parent =>
    (tree.children parent).flatMap fun e =>
      if parent = [] ∧ isVolatilePath e.1 then []
      else
        match e.2 with
        | .directory =>
          (e.1, .directory) :: if skipDirectoryContents e.1 then []
            else filteredWalk skipFile skipDirectoryContents tree fuel e.1
        | .file bytes => if skipFile e.1 then [] else [(e.1, .file bytes)]

/-- `walk(parent)` where no filters are given. -/
def walk (tree : PathTree Contents) (fuel : Nat) (parent : Path) : PathTree Contents :=
  filteredWalk (fun _ => false) (fun _ => false) tree fuel parent

/-- `inspect(path)` of `snapshotStorageDelta`, to a depth of `fuel`. -/
def inspect (tree : PathTree Contents) : Nat → Path → PathTree Contents
  | 0, _ => []
  | fuel + 1, path =>
    if isVolatilePath path then []
    else
      match tree.get path with
      | none => []
      | some (.file bytes) => [(path, .file bytes)]
      | some .directory =>
        (if path = [] then [] else [(path, .directory)]) ++
          (tree.children path).flatMap fun e => inspect tree fuel e.1

def directoriesOf (current : PathTree Contents) : List Path :=
  current.filterMap fun e => match e.2 with
    | .directory => some e.1
    | .file _ => none

def filesOf (current : PathTree Contents) : List (Path × Contents) :=
  current.filterMap fun e => match e.2 with
    | .directory => none
    | .file bytes => some (e.1, bytes)

/-- The persisted paths that `current` has not, or has with another type. -/
def staleEntries (current : PathTree Contents) (persistedEntries : PathTree Unit) : PathTree Unit :=
  persistedEntries.filter fun e => (current.get e.1).map entryType ≠ some e.2

def validateTouchedPath (path : Path) : Except String Path :=
  if path.all isEntryName then .ok path
  else .error ("Wasmer returned an unsafe changed PGDATA path " ++ stringify (pathText path))

/-- The paths that lie at or under none of those before them. -/
def dropCovered : List Path → List Path → List Path
  | _, [] => []
  | before, path :: rest =>
    (if before.any (· <+: path) then [] else [path]) ++ dropCovered (before ++ [path]) rest

def collapseTouchedPaths (values : List Path) : Except String (List Path) :=
  match values.mapM validateTouchedPath with
  | .error e => .error e
  | .ok paths => .ok (dropCovered [] (sortByDepth paths.dedup))

/-- The journal is what `changedPaths()` returns, and `none` where the host has no
mutation tracking. -/
def snapshotStorageDelta (directory : Directory) (journal : Option (List Path))
    (persistedEntries : PathTree Unit) (forceFull : Bool) : Except String StorageDelta :=
  match forceFull, journal with
  | true, _ | false, none =>
    let current := walk directory.tree (depth directory.tree + 1) []
    .ok
      { directories := directoriesOf current
        files := filesOf current
        deleted := sortByDepthDescending (staleEntries current persistedEntries).paths }
  | false, some values =>
    match collapseTouchedPaths values with
    | .error e => .error e
    | .ok touched =>
      let current := touched.flatMap (inspect directory.tree (depth directory.tree + 1))
      let persisted := persistedEntries.filter fun e => touched.any (· <+: e.1)
      .ok
        { directories := sortByDepth (directoriesOf current)
          files := filesOf current
          deleted := sortByDepthDescending (staleEntries current persisted).paths }

/-- What there is at each path. -/
abbrev View := Path → Option (Node Contents)

/-- What a store is to hold of the directory: all but the root and the volatile files. -/
def Directory.persistable (directory : Directory) : View := fun p =>
  if p = [] ∨ isVolatilePath p = true then none else directory.tree.get p

/-- The delta holds what the directory has in the scope, and deletes what is persisted
there with another type or no longer exists. -/
structure Captures (live : View) (persisted : PathTree Unit) (scope : Path → Prop)
    (delta : StorageDelta) : Prop where
  closed : ∀ p q, scope p → p <+: q → scope q
  directories : ∀ p, p ∈ delta.directories ↔ scope p ∧ live p = some .directory
  files : ∀ p bytes, (p, bytes) ∈ delta.files ↔ scope p ∧ live p = some (.file bytes)
  deleted : ∀ p, p ∈ delta.deleted ↔
    scope p ∧ ∃ type, (p, type) ∈ persisted ∧ (live p).map entryType ≠ some type

variable {tree : PathTree Contents} {e : Path × Node Contents} {q p : Path} {fuel : Nat}
  {n : Node Contents} {before : List Path} {journal : Option (List Path)} {forceFull : Bool}

theorem length_le_depth (h : e ∈ tree) : e.1.length ≤ depth tree := by
  induction tree with
  | nil => cases h
  | cons e' tree ih =>
    have hdepth : depth (e' :: tree) = max e'.1.length (depth tree) := rfl
    rcases mem_cons.mp h with rfl | h
    · omega
    · have hle := ih h
      omega

variable {p : Path}

/-- Volatility is decided by the first name of a path. -/
theorem isVolatilePath_under (h : p <+: q) (hne : p ≠ []) :
    isVolatilePath q = isVolatilePath p := by
  obtain ⟨rest, rfl⟩ := h
  cases p with
  | nil => exact absurd rfl hne
  | cons root p => rfl

theorem ne_nil_of_isVolatilePath (h : isVolatilePath p = true) : p ≠ [] := by
  rintro rfl
  cases h

/-- A node under `p` is within the reach of a walk from `p`. -/
def Reaches (tree : PathTree Contents) (fuel : Nat) (p : Path) : Prop :=
  ∀ e ∈ tree, e.1.length < p.length + fuel

theorem Reaches.child (h : Reaches tree (fuel + 1) p) (he : e ∈ tree.children p) :
    Reaches tree fuel e.1 := by
  intro e' he'
  have hlen := (prefix_of_mem_children he).2
  have hlt := h e' he'
  omega

/-- A path lies strictly between two others. -/
def Between (p r q : Path) : Prop := (p <+: r ∧ p ≠ r) ∧ r <+: q ∧ r ≠ q

section Walk

variable {skipFile skipContents : Path → Bool} {q r : Path} {n m : Node Contents}

theorem not_between_child (he : (r, m) ∈ tree.children p) (t : Path) : ¬ Between p t r := by
  rintro ⟨⟨hpt, hpne⟩, htr, htne⟩
  have hlength : r.length = p.length + 1 := (prefix_of_mem_children he).2
  have hlt : p.length < t.length :=
    Nat.lt_of_le_of_ne hpt.length_le fun hsame => hpne (hpt.eq_of_length hsame)
  exact htne (htr.eq_of_length_le (by omega))

/-- A child of `p` above `q` is the first path between them. -/
theorem between_child (he : (r, m) ∈ tree.children p) (hr : r <+: q ∧ r ≠ q) :
    Between p t q ↔ t = r ∨ Between r t q := by
  obtain ⟨hpr, hlength⟩ := prefix_of_mem_children he
  have hlength : r.length = p.length + 1 := hlength
  constructor
  · rintro ⟨⟨hpt, hne⟩, htq⟩
    have hlt : p.length < t.length :=
      Nat.lt_of_le_of_ne hpt.length_le fun hsame => hne (hpt.eq_of_length hsame)
    by_cases hsame : t = r
    · exact .inl hsame
    · exact .inr ⟨⟨prefix_of_prefix_length_le hr.1 htq.1 (by omega), Ne.symm hsame⟩, htq⟩
  · intro ht
    have hunder : r <+: t ∧ t <+: q ∧ t ≠ q := by
      rcases ht with rfl | ⟨⟨hrt, -⟩, htq⟩
      · exact ⟨prefix_refl _, hr⟩
      · exact ⟨hrt, htq⟩
    refine ⟨⟨hpr.trans hunder.1, ?_⟩, hunder.2⟩
    rintro rfl
    have hle := hunder.1.length_le
    omega

/-- What a walk from `p` keeps of what lies under it. -/
def Walked (skipFile skipContents : Path → Bool) (p q : Path) (n : Node Contents) : Prop :=
  isVolatilePath q = false ∧ (n ≠ .directory → skipFile q = false) ∧
    ∀ r, Between p r q → skipContents r = false

variable {fuel : Nat} {p : Path}

/-- A walk lists what lies below its start, without what the filter skips. -/
theorem mem_filteredWalk (hformed : tree.WellFormed) (hreach : Reaches tree (fuel + 1) p)
    (hp : isVolatilePath p = false) : (q, n) ∈ filteredWalk skipFile skipContents tree fuel p ↔
      tree.Below p (q, n) ∧ Walked skipFile skipContents p q n := by
  induction fuel generalizing p with
  | zero =>
    simp only [filteredWalk, not_mem_nil, false_iff]
    rintro ⟨⟨hq, hpre, hne⟩, -⟩
    have hlt := hreach _ hq
    exact hne (hpre.eq_of_length_le (by omega))
  | succ fuel ih =>
    rw [filteredWalk, mem_flatMap, hformed.below_iff, ← exists_and_right]
    refine exists_congr fun e => ?_
    rw [and_assoc]
    refine and_congr_right fun he => ?_
    obtain ⟨r, m⟩ := e
    obtain ⟨hpre, -⟩ := prefix_of_mem_children he
    have hrne := (mem_children.mp he).2.1
    by_cases hvolatile : p = [] ∧ isVolatilePath r = true
    · rw [if_pos hvolatile]
      simp only [not_mem_nil, false_iff]
      rintro ⟨hq, hkept, -⟩
      have hunder : r <+: q := by
        rcases hq with hq | ⟨-, -, hunder, -⟩
        · exact (Prod.mk.inj hq).1 ▸ prefix_refl r
        · exact hunder
      rw [isVolatilePath_under hunder hrne, hvolatile.2] at hkept
      cases hkept
    rw [if_neg hvolatile]
    have hr : isVolatilePath r = false := by
      by_cases hroot : p = []
      · exact Bool.eq_false_iff.mpr fun h => hvolatile ⟨hroot, h⟩
      · rw [isVolatilePath_under hpre hroot, hp]
    have hself : ∀ k, k = .directory ∨ skipFile r = false →
        Walked skipFile skipContents p r k := fun k hk =>
      ⟨hr, fun hne => hk.resolve_left hne, fun t ht => absurd ht (not_between_child he t)⟩
    cases m with
    | file bytes =>
      cases hskip : skipFile r with
      | true =>
        simp only [if_true, not_mem_nil, false_iff]
        rintro ⟨hq | ⟨hdirectory, -⟩, -, hfile, -⟩
        · cases hq
          cases hskip.symm.trans (hfile (by simp))
        · cases hdirectory
      | false =>
        simp only [Bool.false_eq_true, if_false, mem_singleton, reduceCtorEq, false_and, or_false]
        refine ⟨fun hq => ⟨hq, ?_⟩, And.left⟩
        cases hq
        exact hself _ (.inr hskip)
    | directory =>
      simp only [mem_cons, true_and, or_and_right]
      refine or_congr ⟨fun hq => ⟨hq, ?_⟩, And.left⟩ ?_
      · cases hq
        exact hself _ (.inl rfl)
      · rw [← and_iff_right_of_imp (a := tree.Below r (q, n))
          (b := (q, n) ∈
            if skipContents r then [] else filteredWalk skipFile skipContents tree fuel r)
          (fun hmem => by
            split at hmem <;> try cases hmem
            exact ((ih (hreach.child he) hr).mp hmem).1)]
        refine and_congr_right fun hbelow => ?_
        simp only [Walked, between_child he hbelow.2, forall_eq_or_imp]
        cases hcontents : skipContents r with
        | true => simp
        | false =>
          simp only [Bool.false_eq_true, if_false, true_and]
          rw [ih (hreach.child he) hr]
          exact and_iff_right hbelow

theorem mem_walk (hformed : tree.WellFormed) (hreach : Reaches tree (fuel + 1) p)
    (hp : isVolatilePath p = false) :
    (q, n) ∈ walk tree fuel p ↔ tree.Below p (q, n) ∧ isVolatilePath q = false := by
  rw [walk, mem_filteredWalk hformed hreach hp]
  simp [Walked]

end Walk

theorem mem_inspect (hformed : tree.WellFormed) (hreach : Reaches tree fuel p) :
    (q, n) ∈ inspect tree fuel p ↔
      (q, n) ∈ tree ∧ p <+: q ∧ q ≠ [] ∧ isVolatilePath q = false := by
  induction fuel generalizing p with
  | zero =>
    simp only [inspect, not_mem_nil, false_iff]
    rintro ⟨hq, hpre, -, -⟩
    have hlt : q.length < p.length + 0 := hreach _ hq
    have hle := hpre.length_le
    omega
  | succ fuel ih =>
    rw [inspect]
    by_cases hvol : isVolatilePath p = true
    · rw [if_pos hvol]
      simp only [not_mem_nil, false_iff]
      rintro ⟨-, hpre, -, hqvol⟩
      rw [isVolatilePath_under hpre (ne_nil_of_isVolatilePath hvol), hvol] at hqvol
      cases hqvol
    rw [if_neg hvol]
    have hpvol : isVolatilePath p = false := Bool.eq_false_iff.mpr hvol
    cases hget : tree.get p with
    | none =>
      simp only [not_mem_nil, false_iff]
      rintro ⟨hq, hpre, -, -⟩
      exact get_eq_none.mp hget
        (hformed.mem_of_prefix (mem_paths.mpr ⟨n, hq⟩) hpre)
    | some node =>
      have hp := mem_of_get hget
      cases node with
      | file bytes =>
        simp only [mem_singleton, Prod.mk.injEq]
        constructor
        · rintro ⟨rfl, rfl⟩
          refine ⟨hp, prefix_refl _, ?_, hpvol⟩
          rintro rfl
          cases node_unique hformed.nodup hp hformed.root
        · rintro ⟨hq, hpre, -, -⟩
          obtain rfl := hformed.file_maximal hp (mem_paths.mpr ⟨n, hq⟩) hpre
          exact ⟨rfl, node_unique hformed.nodup hq hp⟩
      | directory =>
        simp only [mem_append, mem_flatMap]
        constructor
        · rintro (hself | ⟨e, he, hmem⟩)
          · split at hself
            · cases hself
            rename_i hne
            obtain ⟨rfl, rfl⟩ := Prod.mk.inj (mem_singleton.mp hself)
            exact ⟨hp, prefix_refl _, hne, hpvol⟩
          · obtain ⟨hq, hunder, hne, hqvol⟩ := (ih (hreach.child he)).mp hmem
            exact ⟨hq, (prefix_of_mem_children he).1.trans hunder, hne, hqvol⟩
        · rintro ⟨hq, hpre, hne, hqvol⟩
          by_cases heq : p = q
          · subst heq
            obtain rfl := node_unique hformed.nodup hq hp
            exact .inl (by rw [if_neg hne]; exact mem_singleton.mpr rfl)
          · obtain ⟨e, he, hunder⟩ := exists_child hformed hq hpre heq
            exact .inr ⟨e, he, (ih (hreach.child he)).mpr ⟨hq, hunder, hne, hqvol⟩⟩

variable {paths : List Path}

theorem mem_sortByDepth : p ∈ sortByDepth paths ↔ p ∈ paths :=
  mem_mergeSort

theorem mem_sortByDepthDescending :
    p ∈ sortByDepthDescending paths ↔ p ∈ paths :=
  mem_mergeSort

theorem mem_of_mem_dropCovered (h : p ∈ dropCovered before paths) : p ∈ paths := by
  induction paths generalizing before with
  | nil => cases h
  | cons path rest ih =>
    rw [dropCovered, mem_append] at h
    rcases h with h | h
    · split at h
      · cases h
      · rw [mem_singleton.mp h]
        exact .head _
    · exact .tail _ (ih h)

/-- What is dropped lies under a path that is kept. -/
theorem dropCovered_covers (hbefore : ∀ b ∈ before, ∃ k ∈ kept, k <+: b) (hp : p ∈ paths) :
    ∃ k ∈ kept ++ dropCovered before paths, k <+: p := by
  induction paths generalizing kept before with
  | nil => cases hp
  | cons path rest ih =>
    -- the head is covered, either by a path kept before it or by itself
    have hhead : ∃ k ∈ kept ++ (if before.any (· <+: path) then [] else [path]), k <+: path := by
      split
      · rename_i hany
        obtain ⟨b, hb, hunder⟩ := any_eq_true.mp hany
        obtain ⟨k, hk, hkb⟩ := hbefore b hb
        exact ⟨k, mem_append_left _ hk, hkb.trans (of_decide_eq_true hunder)⟩
      · exact ⟨path, by simp, prefix_refl _⟩
    rw [dropCovered, ← append_assoc]
    rcases mem_cons.mp hp with rfl | hp
    · obtain ⟨k, hk, hkp⟩ := hhead
      exact ⟨k, mem_append_left _ hk, hkp⟩
    · refine ih ?_ hp
      intro b hb
      rcases mem_append.mp hb with hb | hb
      · obtain ⟨k, hk, hkb⟩ := hbefore b hb
        exact ⟨k, mem_append_left _ hk, hkb⟩
      · rw [mem_singleton.mp hb]
        exact hhead

variable {values : List Path}

theorem mapM_validateTouchedPath
    (h : ∀ p ∈ values, p.all isEntryName = true) :
      values.mapM validateTouchedPath = .ok values := by
  induction values with
  | nil => rfl
  | cons p values ih =>
    have hp : validateTouchedPath p = .ok p := by
      rw [validateTouchedPath, if_pos (h p (.head _))]
    rw [mapM_cons, hp, ih fun q hq => h q (.tail _ hq)]
    rfl

theorem eq_of_mapM_validateTouchedPath
    (h : values.mapM validateTouchedPath = .ok paths) : paths = values := by
  induction values generalizing paths with
  | nil =>
    cases h
    rfl
  | cons p values ih =>
    rw [mapM_cons, validateTouchedPath] at h
    split at h <;> try cases h
    cases hrest : values.mapM validateTouchedPath with
    | error e =>
      rw [hrest] at h
      cases h
    | ok rest =>
      rw [hrest] at h
      cases h
      rw [ih hrest]

/-- The collapsed journal covers what the journal covers. -/
theorem collapseTouchedPaths_covers (h : collapseTouchedPaths values = .ok touched) (p : Path) :
    (∃ root ∈ touched, root <+: p) ↔ ∃ root ∈ values, root <+: p := by
  rw [collapseTouchedPaths] at h
  split at h
  · cases h
  rename_i paths hpaths
  obtain rfl := eq_of_mapM_validateTouchedPath hpaths
  cases h
  have hsame : ∀ {r : Path}, r ∈ sortByDepth paths.dedup ↔ r ∈ paths := by
    intro r
    rw [mem_sortByDepth, mem_dedup]
  constructor
  · rintro ⟨root, hroot, hunder⟩
    exact ⟨root, hsame.mp (mem_of_mem_dropCovered hroot), hunder⟩
  · rintro ⟨root, hroot, hunder⟩
    have hnone : ∀ b ∈ ([] : List Path), ∃ k ∈ ([] : List Path), k <+: b :=
      fun b hb => absurd hb not_mem_nil
    obtain ⟨k, hk, hkroot⟩ := dropCovered_covers hnone (hsame.mpr hroot)
    exact ⟨k, hk, hkroot.trans hunder⟩

variable {current : PathTree Contents}

theorem mem_directoriesOf :
    p ∈ directoriesOf current ↔ (p, Node.directory) ∈ current := by
  rw [directoriesOf, mem_filterMap]
  constructor
  · rintro ⟨⟨q, m⟩, hmem, hq⟩
    cases m with
    | directory =>
      obtain rfl : q = p := Option.some.inj hq
      exact hmem
    | file bytes => cases hq
  · intro hmem
    exact ⟨_, hmem, rfl⟩

theorem mem_filesOf : (p, bytes) ∈ filesOf current ↔ (p, Node.file bytes) ∈ current := by
  rw [filesOf, mem_filterMap]
  constructor
  · rintro ⟨⟨q, m⟩, hmem, hq⟩
    cases m with
    | directory => cases hq
    | file bytes' =>
      obtain ⟨rfl, rfl⟩ := Prod.mk.inj (Option.some.inj hq)
      exact hmem
  · intro hmem
    exact ⟨_, hmem, rfl⟩

variable {directory : Directory}

theorem Directory.persistable_eq_some : directory.persistable p = some n ↔
      (p, n) ∈ directory.tree ∧ p ≠ [] ∧ isVolatilePath p = false := by
  rw [Directory.persistable]
  split
  · rename_i h
    constructor
    · intro hnone
      cases hnone
    · rintro ⟨-, hne, hvol⟩
      rcases h with h | h
      · exact absurd h hne
      · cases hvol.symm.trans h
  · rename_i h
    rw [not_or, Bool.not_eq_true] at h
    constructor
    · intro hget
      exact ⟨mem_of_get hget, h⟩
    · rintro ⟨hmem, -⟩
      exact get_of_mem directory.formed.nodup hmem

/-- A store that holds a path is to hold the directories above it. -/
theorem Directory.persistable_above (directory : Directory) (hpre : p <+: q) (hne : p ≠ [])
    (hq : directory.persistable q = some n) : directory.persistable p ≠ none := by
  obtain ⟨hmem, -, hvol⟩ := Directory.persistable_eq_some.mp hq
  obtain ⟨m, hm⟩ := mem_paths.mp
    (directory.formed.mem_of_prefix (mem_paths.mpr ⟨n, hmem⟩) hpre)
  rw [isVolatilePath_under hpre hne] at hvol
  rw [Directory.persistable_eq_some.mpr ⟨hm, hne, hvol⟩]
  exact Option.some_ne_none m

variable {persistedEntries : PathTree Unit} {delta : StorageDelta}

/-- A delta made of what is read in a scope captures the directory there. -/
theorem captures_of_current {scope : Path → Prop}
    (hclosed : ∀ p q, scope p → p <+: q → scope q)
    (hcurrent : ∀ p n, (p, n) ∈ current ↔ scope p ∧ directory.persistable p = some n)
    (hdirectories : ∀ p, p ∈ delta.directories ↔ p ∈ directoriesOf current)
    (hfiles : delta.files = filesOf current)
    (hdeleted : ∀ p, p ∈ delta.deleted ↔ scope p ∧
      ∃ type, (p, type) ∈ staleEntries current persistedEntries) :
    Captures directory.persistable persistedEntries scope delta where
  closed := hclosed
  directories p := by rw [hdirectories, mem_directoriesOf, hcurrent]
  files p bytes := by rw [hfiles, mem_filesOf, hcurrent]
  deleted p := by
    rw [hdeleted]
    refine and_congr_right fun hp => exists_congr fun type => ?_
    have hget : current.get p = directory.persistable p := by
      refine get_of_mem_iff fun n => ?_
      rw [hcurrent]
      exact and_iff_right hp
    rw [staleEntries, mem_filter, decide_eq_true_iff, hget]

theorem snapshotStorageDelta_full (hfull : forceFull = true ∨ journal = none)
    (h : snapshotStorageDelta directory journal persistedEntries forceFull = .ok delta) :
    Captures directory.persistable persistedEntries (fun _ => True) delta := by
  have hdelta : delta =
      { directories := directoriesOf (walk directory.tree (depth directory.tree + 1) [])
        files := filesOf (walk directory.tree (depth directory.tree + 1) [])
        deleted := sortByDepthDescending
          (staleEntries (walk directory.tree (depth directory.tree + 1) [])
            persistedEntries).paths } := by
    unfold snapshotStorageDelta at h
    split at h
    · exact (Except.ok.inj h).symm
    · exact (Except.ok.inj h).symm
    · rcases hfull with hfull | hfull <;> cases hfull
  have hreach : Reaches directory.tree (depth directory.tree + 1 + 1) [] := by
    intro e he
    have hle := length_le_depth he
    omega
  subst hdelta
  refine captures_of_current (fun _ _ _ _ => trivial) (fun p n => ?_) (fun p => Iff.rfl) rfl
    (fun p => ?_)
  · rw [mem_walk directory.formed hreach rfl, Directory.persistable_eq_some, true_and]
    constructor
    · rintro ⟨⟨hmem, -, hne⟩, hvol⟩
      exact ⟨hmem, hne.symm, hvol⟩
    · rintro ⟨hmem, hne, hvol⟩
      exact ⟨⟨hmem, nil_prefix, hne.symm⟩, hvol⟩
  · rw [mem_sortByDepthDescending, mem_paths, true_and]

theorem snapshotStorageDelta_journal
    (h : snapshotStorageDelta directory (some values) persistedEntries false = .ok delta) :
    Captures directory.persistable persistedEntries (fun p => ∃ root ∈ values, root <+: p)
      delta := by
  unfold snapshotStorageDelta at h
  simp only at h
  split at h
  · cases h
  rename_i touched htouched
  have hcover := collapseTouchedPaths_covers htouched
  cases h
  refine captures_of_current ?_ (fun p n => ?_) (fun p => mem_sortByDepth) rfl (fun p => ?_)
  · rintro p q ⟨root, hroot, hunder⟩ hpq
    exact ⟨root, hroot, hunder.trans hpq⟩
  · rw [mem_flatMap, ← hcover, Directory.persistable_eq_some]
    have hreach : ∀ root, Reaches directory.tree (depth directory.tree + 1) root := by
      intro root e he
      have hle := length_le_depth he
      omega
    constructor
    · rintro ⟨root, hroot, hmem⟩
      obtain ⟨hp, hunder, hne, hvol⟩ := (mem_inspect directory.formed (hreach root)).mp hmem
      exact ⟨⟨root, hroot, hunder⟩, hp, hne, hvol⟩
    · rintro ⟨⟨root, hroot, hunder⟩, hp, hne, hvol⟩
      exact ⟨root, hroot, (mem_inspect directory.formed (hreach root)).mpr ⟨hp, hunder, hne, hvol⟩⟩
  · rw [mem_sortByDepthDescending, mem_paths, ← hcover, ← exists_and_left]
    refine exists_congr fun type => ?_
    rw [staleEntries, staleEntries, mem_filter, mem_filter, mem_filter,
      any_eq_true]
    simp only [decide_eq_true_iff]
    constructor
    · rintro ⟨⟨hmem, hroot⟩, htype⟩
      exact ⟨hroot, hmem, htype⟩
    · rintro ⟨hroot, hmem, htype⟩
      exact ⟨⟨hmem, hroot⟩, htype⟩

/-- A delta can be read unless the journal has an invalid path. -/
theorem snapshotStorageDelta_ok
    (h : ∀ values, journal = some values → ∀ p ∈ values, p.all isEntryName = true) :
    ∃ delta, snapshotStorageDelta directory journal persistedEntries forceFull = .ok delta := by
  unfold snapshotStorageDelta
  split
  · exact ⟨_, rfl⟩
  · exact ⟨_, rfl⟩
  · rename_i values
    rw [collapseTouchedPaths, mapM_validateTouchedPath (h values rfl)]
    exact ⟨_, rfl⟩

end Oliphaunt.IncrementalStorage
