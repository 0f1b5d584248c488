import Mathlib.Data.List.Dedup
import Oliphaunt.Model.Transition
import Oliphaunt.TS.OpfsPool

/-!
# The first open of a pooled database

`openPool` is `DirectOpfsPool.open` on a disk that serves every request: it reads
the state, makes the entries from the cluster seed where there are none, and
hydrates the pool. It returns whether the database was new.

`FirstOpen` takes the same open apart into its storage effects, on a directory that
is new. Seed backings are written by parallel workers, `state.json` is created empty
and has its text once its writable is closed. Each effect may fail, and a crash may
come after each.

* `later_open_is_new_iff` — a later open finds the database new unless `state.json` is
  empty;
* `later_open_is_corrupt` — a crash that leaves it empty.
-/

namespace Oliphaunt.OpfsPool

open FileTree Transition List

/-- `WasixDirectoryMount`; the files are the entries of an object. -/
structure Seed where
  directories : List Path
  files : List (Path × Contents)

def trim (text : String) : String :=
  let space := Sql.isWhitespace
  String.ofList (((text.toList.dropWhile space).reverse.dropWhile space).reverse)

def versionPath : Path := ["PG_VERSION"]

def volatileFiles : List Path := [["postmaster.opts"], ["postmaster.pid"]]

/-- What an open needs of the seed: a directory tree with valid names in which
`PG_VERSION` and `global/pg_control` pass `#validateEssentials`. -/
structure Seed.Valid (seed : Seed) (physicalIdentity : PhysicalIdentity) : Prop where
  nodup : (seed.directories.dedup ++ seed.files.map Prod.fst).Nodup
  valid : ∀ p ∈ seed.directories ++ seed.files.map Prod.fst, isStoredPath p = true
  parent : ∀ p ∈ seed.directories ++ seed.files.map Prod.fst,
    p.dropLast ≠ [] → p.dropLast ∈ seed.directories
  version : ∃ bytes, (versionPath, bytes) ∈ seed.files ∧ bytes ≠ [] ∧ bytes.length ≤ 32 ∧
    (Bytes.textDecode bytes).map trim = some (toString physicalIdentity.postgresMajor)
  control : ∃ bytes, (controlPath, bytes) ∈ seed.files ∧ bytes ≠ []

inductive OpenState where
  | new
  | existing
deriving DecidableEq, Repr

/-- The directories of the seed as entries. -/
def Seed.directoryEntries (seed : Seed) : PathTree Nat := seed.directories.dedup.map (·, .directory)

/-- The state that `initializePoolState` writes, from the backings of the seed files. -/
def initialState (name : String) (physicalIdentity : PhysicalIdentity) (seed : Seed)
    (files : PathTree Nat) : PoolState where
  name := name
  phase := .initializing
  physicalIdentity := physicalIdentity
  entries := seed.directoryEntries ++ files

/-- `writeAtomicDataFile` with a new backing for every file. -/
def writeSeedFiles : List (Path × Contents) → Disk → Disk × PathTree Nat
  | [], disk => (disk, [])
  | (path, bytes) :: rest, disk =>
    let created := disk.create
    let closed := { created with files := Function.update created.files disk.next (some [bytes]) }
    let (last, entries) := writeSeedFiles rest closed
    (last, (path, .file disk.next) :: entries)

def initializePoolState (disk : Disk) (name : String) (seed : Seed)
    (physicalIdentity : PhysicalIdentity) : Disk × PoolState :=
  let (disk, files) := writeSeedFiles seed.files disk
  let state := initialState name physicalIdentity seed files
  ({ disk with state := .content state }, state)

/-- `removeEntry(DATA_DIRECTORY, { recursive: true })`, then the seed again. -/
def resetPoolClusterSeed (disk : Disk) (name : String) (seed : Seed)
    (physicalIdentity : PhysicalIdentity) : Disk × PoolState :=
  initializePoolState { disk with files := fun _ => none } name seed physicalIdentity

/-- The content of an entry of the state, when it is a file. -/
def storedFile (disk : Disk) (state : PoolState) (path : Path) : Option Contents :=
  match state.entries.get path with
  | some (.file backing) => disk.read backing
  | _ => none

/-- The first file of the state whose backing is not there. -/
def missingBacking (disk : Disk) (state : PoolState) : Option (Path × Node Nat) :=
  state.entries.find? fun e => match e.2 with
    | .directory => false
    | .file backing => (disk.read backing).isNone

def validateEssentials (disk : Disk) (state : PoolState) : Except StorageError Unit :=
  match storedFile disk state versionPath with
  | none => .error (corrupt state.name "is missing PG_VERSION")
  | some bytes =>
    if bytes.length = 0 ∨ 32 < bytes.length then
      .error (corrupt state.name "contains an invalid PG_VERSION")
    else
      match (Bytes.textDecode bytes).map trim with
      | none => .error (corrupt state.name "contains a malformed PG_VERSION")
      | some actual =>
        let expected := toString state.physicalIdentity.postgresMajor
        if actual ≠ expected then
          .error (corrupt state.name ("contains PG_VERSION " ++ stringify actual ++ ", expected " ++
            stringify expected))
        else
          match storedFile disk state controlPath with
          | none => .error (corrupt state.name "is missing global/pg_control")
          | some control =>
            if control.length = 0 then
              .error (corrupt state.name "contains an empty global/pg_control")
            else .ok ()

def hydrate (disk : Disk) (state : PoolState) : Except StorageError Unit :=
  match missingBacking disk state with
  | some (path, .file backing) =>
    .error (corrupt state.name ("is missing backing " ++ stringify (backingText backing) ++
      " for " ++ stringify (pathText path)))
  | _ => validateEssentials disk state

/-- `DirectOpfsPool.open` with the outcome that the caller sees. The spares that it
opens, closes and creates after `#hydrate` decide nothing about it. -/
def openPool (disk : Disk) (name : String) (seed : Seed) (physicalIdentity : PhysicalIdentity) :
    Except StorageError OpenState :=
  match readPoolState disk name physicalIdentity with
  | .error e => .error e
  | .ok stored =>
    let (disk, state) := match stored with
      | none => initializePoolState disk name seed physicalIdentity
      | some state =>
        match state.phase with
        | .initializing => resetPoolClusterSeed disk name seed physicalIdentity
        | .ready => (disk, state)
    match hydrate disk state with
    | .error e => .error e
    | .ok () => .ok (match state.phase with | .ready => .existing | .initializing => .new)

/-! ## One effect at a time -/

/-- A seed file whose backing is created and not yet closed. -/
structure SeedWorker where
  path : Path
  bytes : Contents
  backing : Nat
deriving DecidableEq, Repr

inductive Stage where
  | directory
  | data
  | reading
  | seeding (todo : List (Path × Contents)) (work : List SeedWorker) (written : PathTree Nat)
      (failed : Bool)
  | creatingState (entries : PathTree Nat)
  | closingState (entries : PathTree Nat)
  | hydrating
  | sparing
  | returned
  | failed
deriving DecidableEq, Repr

structure FirstOpen where
  disk : Disk
  stage : Stage

/-- The effects of the open, and the failure of the one it is at. -/
inductive OpenAction where
  /-- the directory, `data`, or the end of the reads -/
  | proceed
  | createBacking
  | closeBacking (i : Nat)
  | failBacking (i : Nat)
  | createState
  | closeState
  /-- `#restoreSpares` removes a backing that no entry names -/
  | removeUnused (backing : Nat)
  /-- `#removeVolatileEntries` publishes the entries without the volatile files -/
  | publishWithoutVolatile
  | createSpare
  | fail
deriving DecidableEq, Repr

section Machine

variable (name : String) (physicalIdentity : PhysicalIdentity) (seed : Seed)

/-- `getFileHandle(STATE_FILE, { create: true })` -/
def StateFile.create : StateFile → StateFile
  | .absent => .empty
  | file => file

def isVolatile : Path × Node Nat → Bool
  | (_, .directory) => false
  | (path, .file _) => volatileFiles.contains path

/-- The state without the volatile files. -/
def PoolState.withoutVolatile (state : PoolState) : PoolState :=
  { state with entries := state.entries.filter fun e => !isVolatile e }

def seedStep (disk : Disk) (todo : List (Path × Contents)) (work : List SeedWorker)
    (written : PathTree Nat) (failed : Bool) : OpenAction → Option FirstOpen
  | .createBacking =>
    match todo with
    | [] => none
    | (path, bytes) :: rest =>
      if failed ∨ maxParallelIo ≤ work.length then none
      else some ⟨disk.create, .seeding rest (work ++ [⟨path, bytes, disk.next⟩]) written failed⟩
  | .closeBacking i =>
    match work[i]? with
    | none => none
    | some w =>
      let closed := { disk with files := Function.update disk.files w.backing (some [w.bytes]) }
      some ⟨closed, .seeding todo (work.eraseIdx i) (written ++ [(w.path, .file w.backing)]) failed⟩
  | .failBacking i =>
    match work[i]? with
    | none => none
    | some _ => some ⟨disk, .seeding todo (work.eraseIdx i) written true⟩
  | .fail => if todo = [] then none else some ⟨disk, .seeding todo work written true⟩
  | .proceed =>
    if work = [] then
      if failed then some ⟨disk, .failed⟩
      else if todo = [] then some ⟨disk, .creatingState (seed.directoryEntries ++ written)⟩
      else none
    else none
  | _ => none

/-- `#restoreSpares` and `#removeVolatileEntries` of the hydrated pool. -/
def hydratedStep (disk : Disk) (state : PoolState) : OpenAction → Option FirstOpen
  | .removeUnused backing =>
    if backing ∈ backings state.entries then none else some ⟨disk.remove backing, .hydrating⟩
  | .publishWithoutVolatile =>
    some ⟨{ disk with state := .content state.withoutVolatile }, .sparing⟩
  | .proceed => some ⟨disk, .sparing⟩
  | .fail => some ⟨disk, .failed⟩
  | _ => none

def openStep (s : FirstOpen) (a : OpenAction) : Option FirstOpen :=
  match s.stage, a with
  | .directory, .proceed => some { s with stage := .data }
  | .data, .proceed => some { s with stage := .reading }
  | .reading, .proceed => some { s with stage := .seeding seed.files [] [] false }
  | .seeding todo work written failed, a => seedStep seed s.disk todo work written failed a
  | .creatingState entries, .createState =>
    some ⟨{ s.disk with state := s.disk.state.create }, .closingState entries⟩
  | .closingState entries, .closeState =>
    let state : PoolState := ⟨name, .initializing, physicalIdentity, entries⟩
    some ⟨{ s.disk with state := .content state }, .hydrating⟩
  | .hydrating, a =>
    match s.disk.state with
    | .content state => hydratedStep s.disk state a
    | _ => none
  | .sparing, .createSpare => some { s with disk := s.disk.create }
  | .sparing, .proceed => some { s with stage := .returned }
  | .returned, _ | .failed, _ => none
  | _, .fail => some { s with stage := .failed }
  | _, _ => none

/-- The disk of a database that nobody has opened. -/
def newDisk : Disk where
  state := .absent
  foreign := false
  files := fun _ => none
  next := 0

def firstOpen : FirstOpen := ⟨newDisk, .directory⟩

end Machine

theorem writeSeedFiles_paths (files : List (Path × Contents)) (disk : Disk) :
    (writeSeedFiles files disk).2.paths = files.map Prod.fst := by
  induction files generalizing disk with
  | nil => rfl
  | cons e files ih =>
    rw [map_cons, ← ih]
    rfl

/-- Backings below the next name are left alone. -/
theorem writeSeedFiles_frame (files : List (Path × Contents)) (disk : Disk) (hb : b < disk.next) :
    (writeSeedFiles files disk).1.files b = disk.files b := by
  induction files generalizing disk with
  | nil => rfl
  | cons e files ih =>
    have hne : b ≠ disk.next := Nat.ne_of_lt hb
    refine (ih _ (Nat.lt_succ_of_lt hb)).trans ?_
    simp [Disk.create, hne]

/-- Every file gets an entry, and every entry a backing with the bytes of a file. -/
theorem writeSeedFiles_written (files : List (Path × Contents)) (disk : Disk) :
    (∀ f ∈ files, ∃ b, (f.1, Node.file b) ∈ (writeSeedFiles files disk).2 ∧
        (writeSeedFiles files disk).1.files b = some [f.2]) ∧
      ∀ e ∈ (writeSeedFiles files disk).2, ∃ b bytes, e.2 = .file b ∧
        (writeSeedFiles files disk).1.files b = some [bytes] := by
  induction files generalizing disk with
  | nil => exact ⟨nofun, nofun⟩
  | cons f files ih =>
    have hfirst : (writeSeedFiles (f :: files) disk).1.files disk.next = some [f.2] := by
      refine (writeSeedFiles_frame files _ (Nat.lt_succ_self disk.next)).trans ?_
      simp
    refine ⟨forall_mem_cons.mpr ⟨⟨disk.next, .head _, hfirst⟩, fun g hg => ?_⟩,
      forall_mem_cons.mpr ⟨⟨disk.next, f.2, rfl, hfirst⟩, (ih _).2⟩⟩
    obtain ⟨b, hmem, hfile⟩ := (ih _).1 g hg
    exact ⟨b, .tail _ hmem, hfile⟩

theorem initialState_paths (name : String) (identity : PhysicalIdentity) (seed : Seed)
    (files : PathTree Nat) : (initialState name identity seed files).entries.paths =
      seed.directories.dedup ++ files.paths := by
  simp [initialState, Seed.directoryEntries, PathTree.paths, Function.comp_def]

section Initialize

variable {name : String} {identity : PhysicalIdentity} {seed : Seed}

section

variable (hseed : seed.Valid identity)

include hseed

/-- A file of the seed is found again under its path. -/
theorem storedFile_initialize (disk : Disk) (h : (p, bytes) ∈ seed.files) :
    let made := initializePoolState disk name seed identity
    storedFile made.1 made.2 p = some bytes := by
  intro made
  obtain ⟨b, hmem, hfile⟩ := (writeSeedFiles_written seed.files disk).1 _ h
  have hnodup : made.2.entries.paths.Nodup := by
    refine (congrArg List.Nodup (initialState_paths name identity seed _)).mpr ?_
    rw [writeSeedFiles_paths]
    exact hseed.nodup
  have hget : made.2.entries.get p = some (.file b) :=
    PathTree.get_of_mem hnodup (mem_append_right _ hmem)
  have hread : made.1.read b = some bytes := by
    refine (congrArg (·.bind List.head?) hfile).trans ?_
    rfl
  rw [storedFile, hget]
  exact hread

theorem hydrate_initialize (disk : Disk) : let made := initializePoolState disk name seed identity
    hydrate made.1 made.2 = .ok () := by
  intro made
  have hnone : missingBacking made.1 made.2 = none := by
    rw [missingBacking, List.find?_eq_none]
    rintro ⟨p, n⟩ hmem hmissing
    rcases mem_append.mp hmem with hdir | hfile
    · obtain ⟨q, -, hq⟩ := mem_map.mp hdir
      obtain ⟨rfl, rfl⟩ := Prod.mk.inj hq
      cases hmissing
    · obtain ⟨b, bytes, rfl, hb⟩ := (writeSeedFiles_written seed.files disk).2 _ hfile
      have hread : made.1.read b = some bytes := (congrArg (·.bind List.head?) hb).trans rfl
      have hnot : (made.1.read b).isNone = true := hmissing
      rw [hread] at hnot
      cases hnot
  obtain ⟨version, hversion, hne, hlen, htext⟩ := hseed.version
  obtain ⟨control, hcontrol, hcontrolNe⟩ := hseed.control
  have hversionFile : storedFile made.1 made.2 versionPath = some version :=
    storedFile_initialize hseed disk hversion
  have hcontrolFile : storedFile made.1 made.2 controlPath = some control :=
    storedFile_initialize hseed disk hcontrol
  have hversionLen := length_pos_iff.mpr hne
  have hcontrolLen := length_pos_iff.mpr hcontrolNe
  have hsize : ¬ (version.length = 0 ∨ 32 < version.length) := by omega
  have hidentity : made.2.physicalIdentity = identity := rfl
  simp only [hydrate, hnone, validateEssentials, hversionFile, hcontrolFile, htext, hidentity,
    if_neg hsize, ne_eq, not_true_eq_false, if_false, if_neg (Nat.ne_of_gt hcontrolLen)]

variable {disk : Disk}

/-- An open that makes the entries from the seed finds the database new. -/
theorem openPool_of_absent (hstate : disk.state = .absent) (hforeign : disk.foreign = false) :
    openPool disk name seed identity = .ok .new := by
  have hread : readPoolState disk name identity = .ok none := by
    rw [readPoolState, hstate]
    simp [hforeign]
  simp only [openPool, hread, hydrate_initialize hseed disk]
  rfl

theorem openPool_of_initializing (hread : readPoolState disk name identity = .ok (some state))
    (hphase : state.phase = .initializing) : openPool disk name seed identity = .ok .new := by
  simp only [openPool, hread, hphase, resetPoolClusterSeed, hydrate_initialize hseed]
  rfl

end

end Initialize

/-! ## The disks of a first open -/

section Run

variable {name : String} {identity : PhysicalIdentity} {seed : Seed}

/-- What is seeded so far: the workers and the written entries have backings of their
own, and as long as nothing has failed no file of the seed is lost. -/
structure Seeded (seed : Seed) (next : Nat) (todo : List (Path × Contents))
    (work : List SeedWorker) (written : PathTree Nat) (failed : Bool) : Prop where
  files : ∀ p n, (p, n) ∈ written → ∃ b, n = Node.file b
  below : ∀ b ∈ backings written ++ work.map SeedWorker.backing, b < next
  distinct : (backings written ++ work.map SeedWorker.backing).Nodup
  complete : failed = false →
    (written.paths ++ work.map SeedWorker.path ++ todo.map Prod.fst).Perm (seed.files.map Prod.fst)

/-- A state of the first open that reads back as initialising. -/
structure Initializing (name : String) (physicalIdentity : PhysicalIdentity) (state : PoolState) :
    Prop where
  name : state.name = name
  phase : state.phase = .initializing
  identity : state.physicalIdentity = physicalIdentity
  readable : Readable state.entries

/-- What each stage knows of `state.json`. -/
def StageFile (name : String) (physicalIdentity : PhysicalIdentity) (seed : Seed) (s : FirstOpen) :
    Prop :=
  match s.stage with
  | .directory | .data | .reading => s.disk.state = .absent
  | .seeding todo work written failed =>
    s.disk.state = .absent ∧ Seeded seed s.disk.next todo work written failed
  | .creatingState entries => s.disk.state = .absent ∧ Readable entries
  | .closingState entries => s.disk.state = .empty ∧ Readable entries
  | .hydrating | .sparing | .returned =>
    ∃ state, s.disk.state = .content state ∧ Initializing name physicalIdentity state
  | .failed =>
    s.disk.state = .absent ∨ s.disk.state = .empty ∨
      ∃ state, s.disk.state = .content state ∧ Initializing name physicalIdentity state

theorem backings_append (s t : PathTree Nat) : backings (s ++ t) = backings s ++ backings t :=
  filterMap_append

variable {next : Nat} {work : List SeedWorker} {written : PathTree Nat} {failed : Bool}
  {todo : List (Path × Contents)} {state : PoolState} {disk : Disk} {a : OpenAction} {t : FirstOpen}

/-- A worker takes the next file of the seed. -/
theorem Seeded.create (h : Seeded seed next ((path, bytes) :: rest) work written failed) :
    Seeded seed (next + 1) rest (work ++ [⟨path, bytes, next⟩]) written failed := by
  have hheld : backings written ++
      (work ++ [(⟨path, bytes, next⟩ : SeedWorker)]).map SeedWorker.backing =
        (backings written ++ work.map SeedWorker.backing) ++ [next] := by simp
  refine ⟨h.files, ?_, ?_, ?_⟩
  · intro b hb
    rw [hheld, mem_append, mem_singleton] at hb
    rcases hb with hb | rfl
    · exact Nat.lt_succ_of_lt (h.below b hb)
    · exact Nat.lt_succ_self b
  · rw [hheld]
    refine nodup_append.mpr ⟨h.distinct, nodup_singleton next, ?_⟩
    intro b hb c hc
    rw [mem_singleton.mp hc]
    exact Nat.ne_of_lt (h.below b hb)
  · intro hfailed
    have := h.complete hfailed
    simpa using this

/-- A worker has written its file. -/
theorem Seeded.close (h : Seeded seed next todo work written failed) (hw : work[i]? = some w) :
    Seeded seed next todo (work.eraseIdx i) (written ++ [(w.path, .file w.backing)]) failed := by
  have hperm := perm_eraseIdx hw
  have hheld : (backings (written ++ [(w.path, .file w.backing)]) ++
      (work.eraseIdx i).map SeedWorker.backing).Perm
        (backings written ++ work.map SeedWorker.backing) := by
    rw [backings_append, append_assoc]
    exact (hperm.map SeedWorker.backing).append_left (backings written)
  refine ⟨?_, ?_, hheld.nodup_iff.mpr h.distinct, ?_⟩
  · intro p n hn
    rcases mem_append.mp hn with hn | hn
    · exact h.files p n hn
    · obtain ⟨-, rfl⟩ := Prod.mk.inj (mem_singleton.mp hn)
      exact ⟨w.backing, rfl⟩
  · intro b hb
    exact h.below b (hheld.mem_iff.mp hb)
  · intro hfailed
    refine List.Perm.trans ?_ (h.complete hfailed)
    have hpaths := ((hperm.map SeedWorker.path).append_left written.paths).append_right
      (todo.map Prod.fst)
    simpa [PathTree.paths] using hpaths

/-- A failure stops the list; the workers on their way may still finish. -/
theorem Seeded.fail (h : Seeded seed next todo work written failed) (hrest : rest.Sublist work) :
    Seeded seed next todo rest written true := by
  have hheld : (backings written ++ rest.map SeedWorker.backing).Sublist
      (backings written ++ work.map SeedWorker.backing) :=
    (hrest.map SeedWorker.backing).append_left (backings written)
  refine ⟨h.files, fun b hb => h.below b (hheld.subset hb), h.distinct.sublist hheld, ?_⟩
  intro hfailed
  cases hfailed

/-- Once every file of the seed is written, the entries can be read back. -/
theorem Seeded.readable (hseed : seed.Valid identity) (h : Seeded seed next [] [] written false) :
    Readable (seed.directoryEntries ++ written) := by
  have hperm : written.paths.Perm (seed.files.map Prod.fst) := by
    simpa using h.complete rfl
  have hpaths :
      (seed.directoryEntries ++ written).paths = seed.directories.dedup ++ written.paths := by
    simp [Seed.directoryEntries, PathTree.paths, Function.comp_def]
  have hmem : ∀ p ∈ (seed.directoryEntries ++ written).paths,
      p ∈ seed.directories ++ seed.files.map Prod.fst := by
    intro p hp
    rw [hpaths, mem_append, mem_dedup, hperm.mem_iff] at hp
    exact mem_append.mpr hp
  have hnone : backings seed.directoryEntries = [] := by
    rw [backings, Seed.directoryEntries, filterMap_map]
    exact filterMap_eq_nil_iff.mpr fun _ _ => rfl
  refine ⟨?_, fun p hp => hseed.valid p (hmem p hp), ?_, ?_⟩
  · rw [hpaths]
    exact (hperm.append_left _).nodup_iff.mpr hseed.nodup
  · rw [backings_append, hnone, nil_append]
    simpa using h.distinct
  · intro p hp hne
    refine mem_append_left _ (mem_map.mpr ⟨p.dropLast, ?_, rfl⟩)
    exact mem_dedup.mpr (hseed.parent p (hmem p hp) hne)

theorem Readable.withoutVolatile (h : Readable state.entries) :
    Readable state.withoutVolatile.entries := by
  have hsub : state.withoutVolatile.entries.Sublist state.entries := filter_sublist
  have hpaths : ∀ p ∈ state.withoutVolatile.entries.paths, p ∈ state.entries.paths :=
    (hsub.map Prod.fst).subset
  refine ⟨h.nodup.sublist (hsub.map _), fun p hp => h.valid p (hpaths p hp),
    h.distinct.sublist (hsub.filterMap _), ?_⟩
  intro p hp hne
  exact mem_filter.mpr ⟨h.parent p (hpaths p hp) hne, rfl⟩

theorem seedStep_stageFile (hseed : seed.Valid identity) (hstate : disk.state = .absent)
    (h : Seeded seed disk.next todo work written failed)
    (hstep : seedStep seed disk todo work written failed a = some t) :
    StageFile name identity seed t := by
  simp only [seedStep] at hstep
  split at hstep <;> try cases hstep
  · split at hstep <;> try cases hstep
    split at hstep <;> cases hstep
    exact ⟨hstate, h.create⟩
  · split at hstep <;> cases hstep
    rename_i hw
    exact ⟨hstate, h.close hw⟩
  · split at hstep <;> cases hstep
    exact ⟨hstate, h.fail (eraseIdx_sublist work _)⟩
  · split at hstep <;> cases hstep
    exact ⟨hstate, h.fail (List.Sublist.refl work)⟩
  · split at hstep <;> try cases hstep
    rename_i hwork
    split at hstep
    · cases hstep
      exact .inl hstate
    · rename_i hfailed
      split at hstep <;> cases hstep
      rename_i htodo
      rw [hwork, htodo, Bool.eq_false_iff.mpr hfailed] at h
      exact ⟨hstate, h.readable hseed⟩

theorem hydratedStep_stageFile (hstate : disk.state = .content state)
    (h : Initializing name identity state) (hstep : hydratedStep disk state a = some t) :
    StageFile name identity seed t := by
  simp only [hydratedStep] at hstep
  split at hstep
  · split at hstep <;> cases hstep
    exact ⟨state, hstate, h⟩
  all_goals cases hstep
  · exact ⟨_, rfl, h.name, h.phase, h.identity, h.readable.withoutVolatile⟩
  · exact ⟨state, hstate, h⟩
  · exact .inr (.inr ⟨state, hstate, h⟩)

/-- **Each storage effect of a first open** leaves `state.json` absent, empty, or with the
text of an initializing state. -/
theorem openStep_stageFile (hseed : seed.Valid identity) (s : FirstOpen) (a : OpenAction)
    (t : FirstOpen) (h : StageFile name identity seed s)
    (hstep : openStep name identity seed s a = some t) :
    StageFile name identity seed t := by
  obtain ⟨disk, stage⟩ := s
  cases stage with
  | directory | data =>
    cases a <;> cases hstep
    · exact h
    · exact .inl h
  | reading =>
    cases a <;> cases hstep
    · exact ⟨h, by simp, by simp [backings], nodup_nil, fun _ => List.Perm.refl _⟩
    · exact .inl h
  | seeding todo work written failed => exact seedStep_stageFile hseed h.1 h.2 hstep
  | creatingState entries =>
    cases a <;> cases hstep
    · refine ⟨?_, h.2⟩
      show disk.state.create = _
      rw [show disk.state = .absent from h.1]
      rfl
    · exact .inl h.1
  | closingState entries =>
    cases a <;> cases hstep
    · exact ⟨_, rfl, rfl, rfl, rfl, h.2⟩
    · exact .inr (.inl h.1)
  | hydrating =>
    obtain ⟨state, hstate, hinit⟩ := h
    have hdisk : disk.state = .content state := hstate
    simp only [openStep, hdisk] at hstep
    exact hydratedStep_stageFile hdisk hinit hstep
  | sparing =>
    cases a <;> cases hstep
    · exact h
    · exact h
    · exact .inr (.inr h)
  | returned | failed => cases a <;> cases hstep

theorem openStep_foreign (s : FirstOpen) (a : OpenAction) (t : FirstOpen)
    (h : s.disk.foreign = false) (hstep : openStep name identity seed s a = some t) :
    t.disk.foreign = false := by
  unfold openStep at hstep
  split at hstep
  case h_4 =>
    unfold seedStep at hstep
    grind [Disk.create]
  case h_7 =>
    unfold hydratedStep at hstep
    grind [Disk.remove]
  all_goals grind [Disk.create]

/-- What a crash of a first open can leave behind. -/
theorem firstOpen_reaches (hseed : seed.Valid identity)
    (hrun : run (openStep name identity seed) firstOpen as = some s) :
    s.disk.foreign = false ∧ (s.disk.state = .absent ∨ s.disk.state = .empty ∨
      ∃ state, s.disk.state = .content state ∧ Initializing name identity state) := by
  have hstart : firstOpen.disk.foreign = false ∧ StageFile name identity seed firstOpen :=
    ⟨rfl, rfl⟩
  have hfile : s.disk.foreign = false ∧ StageFile name identity seed s := by
    refine run_invariant (P := fun s => s.disk.foreign = false ∧
      StageFile name identity seed s) ?_ hstart hrun
    intro s a t h hstep
    exact ⟨openStep_foreign s a t h.1 hstep, openStep_stageFile hseed s a t h.2 hstep⟩
  refine ⟨hfile.1, ?_⟩
  obtain ⟨disk, stage⟩ := s
  have h := hfile.2
  cases stage with
  | directory | data | reading => exact .inl h
  | seeding | creatingState => exact .inl h.1
  | closingState => exact .inr (.inl h.1)
  | hydrating | sparing | returned => exact .inr (.inr h)
  | failed => exact h

end Run

/-- After every crash or failure of the first open the next one starts anew, unless
`state.json` was left between its creation and the close of its writable. -/
theorem later_open_is_new_iff {name : String} {physicalIdentity : PhysicalIdentity} {seed : Seed}
    (hasserted : assertWasixPhysicalIdentity physicalIdentity = .ok physicalIdentity)
    (hseed : seed.Valid physicalIdentity)
    {as : List OpenAction} {s : FirstOpen}
    (hrun : run (openStep name physicalIdentity seed) firstOpen as = some s) :
    openPool s.disk name seed physicalIdentity = .ok .new ↔ s.disk.state ≠ .empty := by
  obtain ⟨hforeign, hstate⟩ := firstOpen_reaches hseed hrun
  constructor
  · intro hopen hempty
    simp only [openPool, readPoolState, hempty, reduceCtorEq] at hopen
  · intro hne
    rcases hstate with hstate | hstate | ⟨state, hstate, hinit⟩
    · exact openPool_of_absent hseed hstate hforeign
    · exact absurd hstate hne
    · obtain ⟨rfl, hphase, hidentity, hreadable⟩ := hinit
      exact openPool_of_initializing hseed
        (readPoolState_content hstate hidentity hasserted hreadable) hphase

/-- The least seed that an open accepts. -/
def leastSeed : Seed where
  directories := [["global"]]
  files := [(versionPath, [0x31, 0x38, 0x0a]), (controlPath, [1])]

theorem leastSeed_valid : leastSeed.Valid wasixPhysicalIdentity where
  nodup := by decide +kernel
  valid := by decide +kernel
  parent := by decide +kernel
  version := ⟨[0x31, 0x38, 0x0a], by decide, by decide, by decide, by decide +kernel⟩
  control := ⟨[1], by decide, by decide⟩

/-- Both seed files are written, `state.json` is not yet created. -/
def seededRun : List OpenAction :=
  [.proceed, .proceed, .proceed, .createBacking, .createBacking, .closeBacking 1, .closeBacking 0,
    .proceed]

/-- A crash after the seed files and before `state.json`: the next open starts over. -/
theorem later_open_is_new_after_seeding :
    (run (openStep "db" wasixPhysicalIdentity leastSeed) firstOpen seededRun).map
      (fun s => openPool s.disk "db" leastSeed wasixPhysicalIdentity) = some (.ok .new) := by
  have hstage : (run (openStep "db" wasixPhysicalIdentity leastSeed) firstOpen seededRun).map
      (fun s => decide (s.disk.state = .empty)) = some false := by decide +kernel
  obtain ⟨s, hrun, hempty⟩ := Option.map_eq_some_iff.mp hstage
  rw [hrun, Option.map_some]
  exact congrArg some
    ((later_open_is_new_iff (by decide +kernel) leastSeed_valid hrun).mpr
      (of_decide_eq_false hempty))

/-- A crash right after the creation of `state.json`: every later open fails. -/
theorem later_open_is_corrupt :
    (run (openStep "db" wasixPhysicalIdentity leastSeed) firstOpen
      (seededRun ++ [.createState])).map
      (fun s => openPool s.disk "db" leastSeed wasixPhysicalIdentity) =
    some (.error (.corrupt
      "OPFS storage \"db\" has unsupported or mismatched state metadata")) := by
  decide +kernel

end Oliphaunt.OpfsPool
