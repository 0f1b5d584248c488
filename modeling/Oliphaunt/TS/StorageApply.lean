import Oliphaunt.TS.StorageDelta

/-!
# Applying a delta to a store

The IndexedDB store and the map of persisted entries delete path by path and then put;
the pool of OPFS backings deletes recursively, some paths before it puts and some
after. `applyDelta_get` and `applyPooledOpfsDelta_ok` say that both end with the live
directory, when the delta captures it in a scope outside of which the store held it
already.
-/

namespace Oliphaunt.IncrementalStorage

open FileTree OpfsPool PathTree List

/-! ## Rows: IndexedDB and the persisted entries -/

/-- Deletes, then directories, then files; `row` is what is kept of a file's bytes. -/
def applyDelta {α : Type} (row : Contents → α) (entries : PathTree α) (delta : StorageDelta) :
    PathTree α :=
  let entries := delta.deleted.foldl delete entries
  let entries := delta.directories.foldl (fun es p => es.set p .directory) entries
  delta.files.foldl (fun es f => es.set f.1 (.file (row f.2))) entries

def applyStorageDeltaToEntries : PathTree Unit → StorageDelta → PathTree Unit :=
  applyDelta fun _ => ()

/-- The entry rows; the metadata row does not depend on the delta. -/
def applyStoredDatabaseDelta : PathTree Contents → StorageDelta → PathTree Contents := applyDelta id

def splitStorageDeltaDeletes (delta : StorageDelta) : List Path × List Path :=
  let upserts := delta.directories ++ delta.files.map Prod.fst
  (delta.deleted.filter upserts.contains, delta.deleted.filter fun p => !upserts.contains p)

/-- `writeAtomicDataFile` with the backing `newBackingName()` -/
def writeAtomicDataFile (disk : Disk) (bytes : Contents) : Disk :=
  let created := disk.create
  { created with files := Function.update created.files disk.next (some [bytes]) }

/-- The loop over the files of a delta, whose order is left to `comparePostgresPaths`. -/
def putFiles : List (Path × Contents) → Disk → PathTree Nat → Disk × PathTree Nat
  | [], disk, entries => (disk, entries)
  | (path, bytes) :: rest, disk, entries =>
    putFiles rest (writeAtomicDataFile disk bytes) (entries.set path (.file disk.next))

def updateEntries (delta : StorageDelta) (disk : Disk) (entries : PathTree Nat) :
    Disk × PathTree Nat :=
  let deletes := splitStorageDeltaDeletes delta
  let entries := deletes.1.foldl deleteUnder entries
  let entries := delta.directories.foldl (fun es p => es.set p .directory) entries
  let (disk, entries) := putFiles delta.files disk entries
  (disk, deletes.2.foldl deleteUnder entries)

/-- The unreferenced backings that a prune has removed by the time it ends or fails. -/
def pruneUnreferencedData (disk : Disk) (entries : PathTree Nat) (removed : List Nat) : Disk :=
  let kept := backings entries
  { disk with files := fun b => if b ∈ removed ∧ b ∉ kept then none else disk.files b }

structure Pruned where
  before : List Nat
  after : List Nat

inductive ApplyFault where
  /-- the store fails after it has written some of the files -/
  | write (written : Nat) (message : String)
  /-- the text of `state.json` is not written, or the transaction aborts -/
  | publish (message : String)
deriving DecidableEq, Repr

inductive ApplyError where
  | storage (error : StorageError)
  | host (message : String)
deriving DecidableEq, Repr

def validateDeltaPaths (delta : StorageDelta) (name : String) : Except StorageError Unit :=
  match (delta.directories ++ delta.files.map Prod.fst ++ delta.deleted).find?
      fun p => ¬ isStoredPath p with
  | some path => .error (corrupt name ("received invalid path " ++ stringify (pathText path)))
  | none => .ok ()

/-- `writePoolState`; a writable that is not closed leaves the file as it was, and
creates it where it was not there. -/
def writePoolState (disk : Disk) (state : PoolState) (fault : Option ApplyFault) :
    Disk × Except ApplyError Unit :=
  match fault with
  | some (.publish message) =>
    let left := match disk.state with
      | .absent => StateFile.empty
      | held => held
    ({ disk with state := left }, .error (.host message))
  | _ => ({ disk with state := .content state }, .ok ())

def applyPooledOpfsDelta (disk : Disk) (name : String) (physicalIdentity : PhysicalIdentity)
    (delta : StorageDelta) (pruned : Pruned) (fault : Option ApplyFault) :
    Disk × Except ApplyError Unit :=
  match validateDeltaPaths delta name with
  | .error e => (disk, .error (.storage e))
  | .ok () =>
    match readPoolState disk name physicalIdentity with
    | .error e => (disk, .error (.storage e))
    | .ok existing =>
      let entries := (existing.map PoolState.entries).getD []
      let disk := pruneUnreferencedData disk entries pruned.before
      match fault with
      | some (.write written message) =>
        ((putFiles (delta.files.take written) disk entries).1.create, .error (.host message))
      | _ =>
        let (disk, entries) := updateEntries delta disk entries
        match validateEntryRelationships entries name with
        | .error e => (disk, .error (.storage e))
        | .ok () =>
          let state := { name, phase := .ready, physicalIdentity, entries }
          match writePoolState disk state fault with
          | (disk, .error e) => (disk, .error e)
          | (disk, .ok ()) => (pruneUnreferencedData disk entries pruned.after, .ok ())

/-- A node with the row of its bytes in place of the bytes. -/
def mapNode {α : Type} (row : Contents → α) : Node Contents → Node α
  | .directory => .directory
  | .file bytes => .file (row bytes)

def StorageDelta.upserts {α : Type} (row : Contents → α) (delta : StorageDelta) :
    List (Path × Node α) :=
  delta.directories.map (fun p => (p, .directory)) ++
    delta.files.map fun f => (f.1, .file (row f.2))

section Captured

variable {α : Type} {row : Contents → α} {live : View} {persisted : PathTree Unit}
  {scope : Path → Prop} {delta : StorageDelta}

section

variable (h : Captures live persisted scope delta)

include h

variable {p : Path} {v : Path → Option (Node α)}

/-- What a delta puts is what the directory has in the scope. -/
theorem Captures.mem_upserts :
    (p, n) ∈ delta.upserts row ↔ scope p ∧ (live p).map (mapNode row) = some n := by
  rw [StorageDelta.upserts, mem_append, mem_map, mem_map]
  constructor
  · rintro (⟨q, hq, heq⟩ | ⟨⟨q, bytes⟩, hq, heq⟩)
    · obtain ⟨rfl, rfl⟩ := Prod.mk.inj heq
      obtain ⟨hscope, hlive⟩ := (h.directories q).mp hq
      exact ⟨hscope, by rw [hlive]; rfl⟩
    · obtain ⟨rfl, rfl⟩ := Prod.mk.inj heq
      obtain ⟨hscope, hlive⟩ := (h.files q bytes).mp hq
      exact ⟨hscope, by rw [hlive]; rfl⟩
  · rintro ⟨hscope, hn⟩
    obtain ⟨m, hlive, rfl⟩ := Option.map_eq_some_iff.mp hn
    cases m with
    | directory => exact .inl ⟨p, (h.directories p).mpr ⟨hscope, hlive⟩, rfl⟩
    | file bytes => exact .inr ⟨(p, bytes), (h.files p bytes).mpr ⟨hscope, hlive⟩, rfl⟩

/-- A delta puts exactly the live paths of its scope. -/
theorem Captures.mem_upsert_paths :
    p ∈ delta.directories ++ delta.files.map Prod.fst ↔ scope p ∧ live p ≠ none := by
  rw [mem_append, mem_map]
  constructor
  · rintro (hp | ⟨⟨q, bytes⟩, hq, rfl⟩)
    · obtain ⟨hscope, hlive⟩ := (h.directories p).mp hp
      exact ⟨hscope, by rw [hlive]; exact Option.some_ne_none _⟩
    · obtain ⟨hscope, hlive⟩ := (h.files q bytes).mp hq
      exact ⟨hscope, by rw [hlive]; exact Option.some_ne_none _⟩
  · rintro ⟨hscope, hne⟩
    obtain ⟨n, hlive⟩ := Option.ne_none_iff_exists'.mp hne
    cases n with
    | directory => exact .inl ((h.directories p).mpr ⟨hscope, hlive⟩)
    | file bytes => exact .inr ⟨(p, bytes), (h.files p bytes).mpr ⟨hscope, hlive⟩, rfl⟩

theorem Captures.putAll_live (hscope : scope p) (hlive : live p = some n) :
    putAll (delta.upserts row) v p = some (mapNode row n) := by
  have hsome : (live p).map (mapNode row) = some (mapNode row n) := by
    rw [hlive]
    rfl
  refine putAll_of_mem (h.mem_upserts.mpr ⟨hscope, hsome⟩) fun m hm => ?_
  have hm := (h.mem_upserts.mp hm).2
  rw [hsome] at hm
  exact (Option.some.inj hm).symm

theorem Captures.putAll_other (hp : scope p → live p = none) :
    putAll (delta.upserts row) v p = v p := by
  refine putAll_of_not_mem fun n hn => ?_
  obtain ⟨hscope, hn⟩ := h.mem_upserts.mp hn
  rw [hp hscope] at hn
  cases hn

end

theorem foldl_set_upserts (entries : PathTree α) :
    delta.files.foldl (fun es f => es.set f.1 (.file (row f.2)))
        (delta.directories.foldl (fun es p => es.set p .directory) entries) =
      (delta.upserts row).foldl (fun es e => es.set e.1 e.2) entries := by
  rw [StorageDelta.upserts, foldl_append, foldl_map, foldl_map]

variable {entries : PathTree α}

/-- Rows that hold the directory outside the scope, and nothing in it that is not
persisted, hold the whole directory after the delta. -/
theorem applyDelta_get (h : Captures live persisted scope delta)
    (hout : ∀ p, ¬ scope p → entries.get p = (live p).map (mapNode row))
    (hin : ∀ p n, entries.get p = some n → ∃ type, (p, type) ∈ persisted) (p : Path) :
    (applyDelta row entries delta).get p = (live p).map (mapNode row) := by
  have hget : (applyDelta row entries delta).get p =
      putAll (delta.upserts row) (delta.deleted.foldl delete entries).get p := by
    rw [← get_foldl_set, ← foldl_set_upserts]
    rfl
  rw [hget]
  by_cases hscope : scope p
  · cases hlive : live p with
    | some n => exact h.putAll_live hscope hlive
    | none =>
      rw [h.putAll_other fun _ => hlive, get_foldl_delete]
      split
      · rfl
      rename_i hkept
      -- a row at a path that is gone is persisted, so the delta deletes it
      cases hrow : entries.get p with
      | none => rfl
      | some n =>
        obtain ⟨type, htype⟩ := hin p n hrow
        refine absurd ((h.deleted p).mpr ⟨hscope, type, htype, ?_⟩) hkept
        rw [hlive]
        exact nofun
  · rw [h.putAll_other fun hp => absurd hp hscope, get_foldl_delete,
      if_neg fun hp => hscope ((h.deleted p).mp hp).1]
    exact hout p hscope

theorem applyDelta_nodup (h : entries.paths.Nodup) :
    (applyDelta row entries delta).paths.Nodup := by
  have hdelete : ∀ (ps : List Path) (es : PathTree α), es.paths.Nodup →
      (ps.foldl delete es).paths.Nodup := by
    intro ps es hes
    induction ps generalizing es with
    | nil => exact hes
    | cons p ps ih => exact ih _ (nodup_delete hes p)
  have hset : ∀ (us : List (Path × Node α)) (es : PathTree α), es.paths.Nodup →
      (us.foldl (fun es e => es.set e.1 e.2) es).paths.Nodup := by
    intro us es hes
    induction us generalizing es with
    | nil => exact hes
    | cons u us ih => exact ih _ (nodup_set hes u.1 u.2)
  rw [applyDelta, foldl_set_upserts]
  exact hset _ _ (hdelete _ _ h)

end Captured

/-! ## What the backings of entries hold -/

/-- The node of an entry, with the bytes that its backing holds. -/
def resolve (disk : Disk) : Node Nat → Option (Node Contents)
  | .directory => some .directory
  | .file backing => (disk.read backing).map .file

def poolView (disk : Disk) (entries : PathTree Nat) : View :=
  fun p => (entries.get p).bind (resolve disk)

/-- Every file has a backing of its own that is on the disk. -/
structure Held (disk : Disk) (entries : PathTree Nat) : Prop where
  nodup : entries.paths.Nodup
  backed : ∀ p b, (p, Node.file b) ∈ entries → b < disk.next ∧ disk.read b ≠ none
  own : ∀ p q b, (p, Node.file b) ∈ entries → (q, Node.file b) ∈ entries → p = q

section Backings

variable {disk : Disk} {entries : PathTree Nat}

theorem Held.deleteUnder (h : Held disk entries) (p : Path) :
    Held disk (entries.deleteUnder p) where
  nodup := nodup_deleteUnder h.nodup p
  backed q b hq := h.backed q b (mem_deleteUnder.mp hq).1
  own q r b hq hr := h.own q r b (mem_deleteUnder.mp hq).1 (mem_deleteUnder.mp hr).1

theorem Held.foldl_deleteUnder (h : Held disk entries) (ps : List Path) :
    Held disk (ps.foldl PathTree.deleteUnder entries) := by
  induction ps generalizing entries with
  | nil => exact h
  | cons p ps ih => exact ih (h.deleteUnder p)

variable {p : Path}

theorem mem_of_mem_set_directory (h : (q, Node.file b) ∈ entries.set p .directory) :
    (q, Node.file b) ∈ entries := by
  rcases mem_set.mp h with ⟨h, -⟩ | ⟨-, h⟩
  · exact h
  · cases h

theorem Held.set_directory (h : Held disk entries) (p : Path) :
    Held disk (entries.set p .directory) where
  nodup := nodup_set h.nodup p .directory
  backed q b hq := h.backed q b (mem_of_mem_set_directory hq)
  own q r b hq hr := h.own q r b (mem_of_mem_set_directory hq) (mem_of_mem_set_directory hr)

theorem Held.foldl_set_directory (h : Held disk entries) (ps : List Path) :
    Held disk (ps.foldl (fun es p => es.set p .directory) entries) := by
  induction ps generalizing entries with
  | nil => exact h
  | cons p ps ih => exact ih (h.set_directory p)

theorem writeAtomicDataFile_read (disk : Disk) (bytes : Contents) (b : Nat) :
    (writeAtomicDataFile disk bytes).read b =
      if b = disk.next then some bytes else disk.read b := by
  rw [Disk.read, writeAtomicDataFile]
  by_cases hb : b = disk.next
  · subst hb
    simp
  · simp [Disk.create, hb, Disk.read]

section

variable (h : Held disk entries)

include h

/-- A new backing for one path leaves the other files where they are. -/
theorem Held.writeFile (path : Path) (bytes : Contents) :
    Held (writeAtomicDataFile disk bytes) (entries.set path (.file disk.next)) where
  nodup := nodup_set h.nodup path _
  backed p b hp := by
    show b < disk.next + 1 ∧ _
    rw [writeAtomicDataFile_read]
    rcases mem_set.mp hp with ⟨hp, -⟩ | ⟨-, heq⟩
    · obtain ⟨hlt, hread⟩ := h.backed p b hp
      rw [if_neg (Nat.ne_of_lt hlt)]
      exact ⟨Nat.lt_succ_of_lt hlt, hread⟩
    · obtain rfl := Node.file.inj heq
      rw [if_pos rfl]
      exact ⟨Nat.lt_succ_self _, Option.some_ne_none _⟩
  own p q b hp hq := by
    rcases mem_set.mp hp with ⟨hp, -⟩ | ⟨rfl, hb⟩
    · have hlt := (h.backed p b hp).1
      rcases mem_set.mp hq with ⟨hq, -⟩ | ⟨-, hb⟩
      · exact h.own p q b hp hq
      · obtain rfl := Node.file.inj hb
        exact absurd hlt (Nat.lt_irrefl _)
    · obtain rfl := Node.file.inj hb
      rcases mem_set.mp hq with ⟨hq, -⟩ | ⟨rfl, -⟩
      · exact absurd (h.backed q _ hq).1 (Nat.lt_irrefl _)
      · rfl

theorem Held.poolView_writeFile (path : Path) (bytes : Contents) :
    poolView (writeAtomicDataFile disk bytes) (entries.set path (.file disk.next)) =
      Function.update (poolView disk entries) path (some (.file bytes)) := by
  funext q
  rw [poolView, get_set, Function.update_apply]
  by_cases hq : q = path
  · rw [if_pos hq, if_pos hq, Option.bind_some, resolve, writeAtomicDataFile_read, if_pos rfl]
    rfl
  rw [if_neg hq, if_neg hq, poolView]
  cases hget : entries.get q with
  | none => rfl
  | some n =>
    cases n with
    | directory => rfl
    | file b =>
      have hlt := (h.backed q b (mem_of_get hget)).1
      rw [Option.bind_some, Option.bind_some, resolve, resolve, writeAtomicDataFile_read,
        if_neg (Nat.ne_of_lt hlt)]

/-- The files of a delta, one after the other. -/
theorem Held.putFiles (files : List (Path × Contents)) :
    Held (putFiles files disk entries).1 (putFiles files disk entries).2 ∧
      poolView (putFiles files disk entries).1 (putFiles files disk entries).2 =
        putAll (files.map fun f => (f.1, .file f.2)) (poolView disk entries) := by
  induction files generalizing disk entries with
  | nil => exact ⟨h, rfl⟩
  | cons f files ih =>
    obtain ⟨hheld, hview⟩ := ih (h.writeFile f.1 f.2)
    refine ⟨hheld, hview.trans ?_⟩
    rw [h.poolView_writeFile]
    rfl

end

/-- A loop that stops anywhere leaves the earlier backings and the state alone. -/
theorem putFiles_frame (files : List (Path × Contents)) (disk : Disk) (entries : PathTree Nat) :
    (putFiles files disk entries).1.state = disk.state ∧
      (putFiles files disk entries).1.foreign = disk.foreign ∧
      disk.next ≤ (putFiles files disk entries).1.next ∧
      ∀ b < disk.next, (putFiles files disk entries).1.read b = disk.read b := by
  induction files generalizing disk entries with
  | nil => exact ⟨rfl, rfl, Nat.le_refl _, fun _ _ => rfl⟩
  | cons f files ih =>
    obtain ⟨hstate, hforeign, hnext, hread⟩ :=
      ih (writeAtomicDataFile disk f.2) (entries.set f.1 (.file disk.next))
    refine ⟨hstate, hforeign, Nat.le_of_succ_le hnext, ?_⟩
    intro b hb
    refine (hread b (Nat.lt_succ_of_lt hb)).trans ?_
    rw [writeAtomicDataFile_read, if_neg (Nat.ne_of_lt hb)]

theorem poolView_foldl_deleteUnder (ps : List Path) (q : Path) :
    poolView disk (ps.foldl deleteUnder entries) q =
      if ∃ p ∈ ps, p <+: q then none else poolView disk entries q := by
  rw [poolView, get_foldl_deleteUnder]
  split
  · rfl
  · rfl

theorem poolView_foldl_set_directory (ps : List Path) :
    poolView disk (ps.foldl (fun es p => es.set p .directory) entries) =
      putAll (ps.map fun p => (p, .directory)) (poolView disk entries) := by
  induction ps generalizing entries with
  | nil => rfl
  | cons p ps ih =>
    refine ih.trans (congrArg (putAll _) ?_)
    funext q
    show _ = Function.update (poolView disk entries) p (some .directory) q
    rw [poolView, get_set, Function.update_apply]
    split
    · rfl
    · rfl

section

variable (h : Held disk entries)

include h

/-- The view depends only on the backings that the entries name. -/
theorem Held.transport (hnext : disk.next ≤ disk'.next)
    (hread : ∀ b ∈ backings entries, disk'.read b = disk.read b) :
    Held disk' entries ∧ poolView disk' entries = poolView disk entries := by
  refine ⟨⟨h.nodup, fun p b hp => ?_, h.own⟩, ?_⟩
  · obtain ⟨hlt, hsome⟩ := h.backed p b hp
    rw [hread b (mem_backings.mpr ⟨p, hp⟩)]
    exact ⟨Nat.lt_of_lt_of_le hlt hnext, hsome⟩
  · funext q
    rw [poolView, poolView]
    cases hget : entries.get q with
    | none => rfl
    | some n =>
      cases n with
      | directory => rfl
      | file b =>
        have hb := hread b (mem_backings.mpr ⟨q, mem_of_get hget⟩)
        rw [Option.bind_some, Option.bind_some, resolve, resolve, hb]

theorem Held.with_state (state : StateFile) :
    Held { disk with state } entries ∧
      poolView { disk with state } entries = poolView disk entries :=
  h.transport (Nat.le_refl _) fun _ _ => rfl

/-- Pruning removes only data that no entry names. -/
theorem Held.prune (removed : List Nat) :
    Held (pruneUnreferencedData disk entries removed) entries ∧
      poolView (pruneUnreferencedData disk entries removed) entries = poolView disk entries := by
  refine h.transport (Nat.le_refl _) ?_
  intro b hb
  rw [Disk.read, pruneUnreferencedData]
  simp only [hb, not_true_eq_false, and_false, if_false]
  rfl

theorem Held.mem_of_poolView (hp : p ∈ entries.paths) : poolView disk entries p ≠ none := by
  obtain ⟨n, hn⟩ := mem_paths.mp hp
  rw [poolView, get_of_mem h.nodup hn, Option.bind_some]
  cases n with
  | directory => exact Option.some_ne_none _
  | file b =>
    rw [resolve, ne_eq, Option.map_eq_none_iff]
    exact (h.backed p b hn).2

end

theorem mem_directory_of_poolView (h : poolView disk entries p = some .directory) :
    (p, Node.directory) ∈ entries := by
  rw [poolView, Option.bind_eq_some_iff] at h
  obtain ⟨n, hget, hn⟩ := h
  cases n with
  | directory => exact mem_of_get hget
  | file b =>
    obtain ⟨bytes, -, hbytes⟩ := Option.map_eq_some_iff.mp hn
    cases hbytes

end Backings

section Pool

variable {disk : Disk} {entries : PathTree Nat} {persisted : PathTree Unit} {scope : Path → Prop}
  {delta : StorageDelta}

theorem mapNode_id (n : Node Contents) : mapNode id n = n := by
  cases n <;> rfl

variable {p : Path} {directory : Directory} {view : View}

theorem mem_replacements : p ∈ (splitStorageDeltaDeletes delta).1 ↔
    p ∈ delta.deleted ∧ p ∈ delta.directories ++ delta.files.map Prod.fst := by
  rw [splitStorageDeltaDeletes, mem_filter, contains_iff_mem]

theorem mem_removals : p ∈ (splitStorageDeltaDeletes delta).2 ↔
    p ∈ delta.deleted ∧ p ∉ delta.directories ++ delta.files.map Prod.fst := by
  rw [splitStorageDeltaDeletes, mem_filter, Bool.not_eq_true', ← Bool.not_eq_true,
    contains_iff_mem]

theorem Held.update (h : Held disk entries) (delta : StorageDelta) :
    Held (updateEntries delta disk entries).1 (updateEntries delta disk entries).2 := by
  have hput := (((h.foldl_deleteUnder (splitStorageDeltaDeletes delta).1).foldl_set_directory
    delta.directories).putFiles delta.files).1
  exact hput.foldl_deleteUnder _

/-- The view after an update: replacements go first, then the puts, then the removals. -/
theorem Held.update_view (h : Held disk entries) (delta : StorageDelta) (q : Path) :
    poolView (updateEntries delta disk entries).1 (updateEntries delta disk entries).2 q =
      if ∃ p ∈ (splitStorageDeltaDeletes delta).2, p <+: q then none
      else putAll (delta.upserts id)
        (poolView disk
          ((splitStorageDeltaDeletes delta).1.foldl PathTree.deleteUnder entries)) q := by
  have hput := (((h.foldl_deleteUnder (splitStorageDeltaDeletes delta).1).foldl_set_directory
    delta.directories).putFiles delta.files).2
  rw [updateEntries, poolView_foldl_deleteUnder, hput,
    poolView_foldl_set_directory]
  rw [StorageDelta.upserts, putAll, putAll, putAll, foldl_append]
  rfl

/-- Recursive deletes lose nothing: what lies under a replaced path is put again, and
nothing live lies under a removed one. -/
theorem Captures.update_view (h : Captures directory.persistable persisted scope delta)
    (hheld : Held disk entries)
    (hout : ∀ p, ¬ scope p → poolView disk entries p = directory.persistable p)
    (hin : ∀ p n, poolView disk entries p = some n → ∃ type, (p, type) ∈ persisted)
    (hroot : [] ∉ persisted.paths) :
    poolView (updateEntries delta disk entries).1 (updateEntries delta disk entries).2 =
      directory.persistable := by
  funext q
  rw [hheld.update_view delta q]
  have hdeletedScope : ∀ p ∈ delta.deleted, p <+: q → scope q :=
    fun p hp hunder => h.closed p q ((h.deleted p).mp hp).1 hunder
  by_cases hscope : scope q
  · cases hlive : directory.persistable q with
    | some n =>
      rw [if_neg, h.putAll_live hscope hlive, mapNode_id]
      rintro ⟨p, hp, hunder⟩
      obtain ⟨hdeleted, hnot⟩ := mem_removals.mp hp
      obtain ⟨hpscope, type, htype, -⟩ := (h.deleted p).mp hdeleted
      have hne : p ≠ [] := fun hp => hroot (hp ▸ mem_paths.mpr ⟨type, htype⟩)
      exact hnot (h.mem_upsert_paths.mpr
        ⟨hpscope, directory.persistable_above hunder hne hlive⟩)
    | none =>
      rw [h.putAll_other fun _ => hlive, poolView_foldl_deleteUnder]
      split
      · rfl
      rename_i hkept
      split
      · rfl
      cases hold : poolView disk entries q with
      | none => rfl
      | some n =>
        obtain ⟨type, htype⟩ := hin q n hold
        have hdeleted : q ∈ delta.deleted := by
          refine (h.deleted q).mpr ⟨hscope, type, htype, ?_⟩
          rw [hlive]
          exact nofun
        have hnot : q ∉ delta.directories ++ delta.files.map Prod.fst :=
          fun hq => (h.mem_upsert_paths.mp hq).2 hlive
        exact absurd ⟨q, mem_removals.mpr ⟨hdeleted, hnot⟩, prefix_refl q⟩ hkept
  · rw [if_neg fun ⟨p, hp, hunder⟩ => hscope (hdeletedScope p (mem_removals.mp hp).1 hunder),
      h.putAll_other fun hp => absurd hp hscope, poolView_foldl_deleteUnder,
      if_neg fun ⟨p, hp, hunder⟩ => hscope (hdeletedScope p (mem_replacements.mp hp).1 hunder)]
    exact hout q hscope

theorem updateEntries_frame (delta : StorageDelta) (disk : Disk) (entries : PathTree Nat) :
    (updateEntries delta disk entries).1.state = disk.state ∧
      (updateEntries delta disk entries).1.foreign = disk.foreign ∧
      disk.next ≤ (updateEntries delta disk entries).1.next ∧
      ∀ b < disk.next, (updateEntries delta disk entries).1.read b = disk.read b :=
  putFiles_frame delta.files disk _

/-- Entries that hold a live directory can be published and read back. -/
theorem Held.readable (h : Held disk entries)
    (hview : poolView disk entries = directory.persistable) : Readable entries := by
  have hlive : ∀ p ∈ entries.paths, ∃ n, (p, n) ∈ directory.tree ∧ p ≠ [] ∧
      isVolatilePath p = false := by
    intro p hp
    obtain ⟨n, hn⟩ := Option.ne_none_iff_exists'.mp (h.mem_of_poolView hp)
    rw [hview] at hn
    exact ⟨n, Directory.persistable_eq_some.mp hn⟩
  refine ⟨h.nodup, ?_, backings_nodup h.nodup h.own, ?_⟩
  · intro p hp
    obtain ⟨n, hn, hne, -⟩ := hlive p hp
    rw [isStoredPath, directory.names p (mem_paths.mpr ⟨n, hn⟩), Bool.and_true]
    exact decide_eq_true hne
  · intro p hp hparent
    obtain ⟨n, hn, hne, hvol⟩ := hlive p hp
    have hdir := directory.formed.parent p n hn hne
    have hparentVol : isVolatilePath p.dropLast = false := by
      have hle : p.dropLast <+: p := dropLast_prefix p
      rw [← isVolatilePath_under hle hparent, hvol]
    refine @mem_directory_of_poolView disk _ _ ?_
    rw [hview]
    exact Directory.persistable_eq_some.mpr ⟨hdir, hparent, hparentVol⟩

def storedEntries (disk : Disk) : PathTree Nat :=
  match disk.state with
  | .content state => state.entries
  | _ => []

/-- A database that opens: nothing stored yet, or a state that can be read, with its
backings. -/
inductive Recorded (disk : Disk) (name : String) (physicalIdentity : PhysicalIdentity) : Prop where
  | absent (hstate : disk.state = .absent) (hforeign : disk.foreign = false)
  | content (state : PoolState) (hstate : disk.state = .content state) (hname : state.name = name)
      (hidentity : state.physicalIdentity = physicalIdentity) (hreadable : Readable state.entries)
      (hheld : Held disk state.entries)

variable {name : String} {physicalIdentity : PhysicalIdentity}

section

variable (h : Recorded disk name physicalIdentity)

include h

theorem Recorded.held : Held disk (storedEntries disk) := by
  cases h with
  | absent hstate hforeign =>
    rw [storedEntries, hstate]
    exact ⟨nodup_nil, fun p b hp => absurd hp not_mem_nil,
      fun p q b hp => absurd hp not_mem_nil⟩
  | content state hstate hname hidentity hreadable hheld =>
    rw [storedEntries, hstate]
    exact hheld

theorem Recorded.stored_paths (hp : p ∈ (storedEntries disk).paths) : isStoredPath p = true := by
  cases h with
  | absent hstate hforeign =>
    rw [storedEntries, hstate] at hp
    cases hp
  | content state hstate hname hidentity hreadable hheld =>
    rw [storedEntries, hstate] at hp
    exact hreadable.valid p hp

/-- A recorded pool is read back with the entries of its state. -/
theorem Recorded.read
    (hasserted : assertWasixPhysicalIdentity physicalIdentity = .ok physicalIdentity) :
    ∃ existing, readPoolState disk name physicalIdentity = .ok existing ∧
      (existing.map PoolState.entries).getD [] = storedEntries disk := by
  cases h with
  | absent hstate hforeign =>
    refine ⟨none, ?_, ?_⟩
    · rw [readPoolState, hstate, hforeign]
      rfl
    · rw [storedEntries, hstate]
      rfl
  | content state hstate hname hidentity hreadable hheld =>
    have hread := readPoolState_content hstate hidentity hasserted hreadable
    rw [hname] at hread
    refine ⟨some state, hread, ?_⟩
    rw [storedEntries, hstate]
    rfl

/-- A disk with the same state file and the same referenced backings. -/
theorem Recorded.transport (hstate : disk'.state = disk.state)
    (hforeign : disk'.foreign = disk.foreign) (hnext : disk.next ≤ disk'.next)
    (hread : ∀ b ∈ backings (storedEntries disk), disk'.read b = disk.read b) :
    Recorded disk' name physicalIdentity ∧
      poolView disk' (storedEntries disk') = poolView disk (storedEntries disk) := by
  have hentries : storedEntries disk' = storedEntries disk := by
    rw [storedEntries, hstate]
    rfl
  obtain ⟨hheld', hview⟩ := h.held.transport hnext hread
  refine ⟨?_, by rw [hentries, hview]⟩
  cases h with
  | absent habsent hnone => exact .absent (hstate.trans habsent) (hforeign.trans hnone)
  | content state hcontent hname hidentity hreadable hheld =>
    refine .content state (hstate.trans hcontent) hname hidentity hreadable ?_
    rw [storedEntries, hcontent] at hheld'
    exact hheld'

end

/-- The paths of a captured delta are valid. -/
theorem validateDeltaPaths_ok (h : Captures directory.persistable persisted scope delta)
    (hpersisted : ∀ p ∈ persisted.paths, isStoredPath p = true) :
    validateDeltaPaths delta name = .ok () := by
  have hnone : ((delta.directories ++ delta.files.map Prod.fst ++ delta.deleted).find?
      fun p => decide (¬ isStoredPath p)) = none := by
    rw [List.find?_eq_none]
    intro p hp hbad
    refine of_decide_eq_true hbad ?_
    rcases mem_append.mp hp with hp | hp
    · obtain ⟨n, hlive⟩ := Option.ne_none_iff_exists'.mp (h.mem_upsert_paths.mp hp).2
      obtain ⟨hn, hne, -⟩ := Directory.persistable_eq_some.mp hlive
      rw [isStoredPath, directory.names p (mem_paths.mpr ⟨n, hn⟩), Bool.and_true]
      exact decide_eq_true hne
    · obtain ⟨-, type, htype, -⟩ := (h.deleted p).mp hp
      exact hpersisted p (mem_paths.mpr ⟨type, htype⟩)
  rw [validateDeltaPaths, hnone]

/-- What the persisted entries say of a store: its paths and their types. -/
structure Mirrors (persisted : PathTree Unit) (view : View) : Prop where
  nodup : persisted.paths.Nodup
  types : ∀ p, persisted.get p = (view p).map entryType

theorem Mirrors.mem_of_view (h : Mirrors persisted view) (hn : view p = some n) :
    (p, entryType n) ∈ persisted := by
  refine mem_of_get ?_
  rw [h.types, hn]
  rfl

theorem Mirrors.view_of_mem (h : Mirrors persisted view) (hp : p ∈ persisted.paths) :
    view p ≠ none := by
  intro hnone
  refine get_eq_none.mp ?_ hp
  rw [h.types, hnone]
  rfl

theorem Recorded.persisted_paths (h : Recorded disk name physicalIdentity)
    (hmirrors : Mirrors persisted (poolView disk (storedEntries disk))) (hp : p ∈ persisted.paths) :
    isStoredPath p = true := by
  refine h.stored_paths ?_
  by_contra hnot
  refine hmirrors.view_of_mem hp ?_
  rw [poolView, get_eq_none.mpr hnot]
  rfl

/-- Without a fault the pool ends with the live directory. -/
theorem applyPooledOpfsDelta_ok (h : Captures directory.persistable persisted scope delta)
    (hrecorded : Recorded disk name physicalIdentity)
    (hasserted : assertWasixPhysicalIdentity physicalIdentity = .ok physicalIdentity)
    (hmirrors : Mirrors persisted (poolView disk (storedEntries disk)))
    (hout : ∀ p, ¬ scope p → poolView disk (storedEntries disk) p = directory.persistable p)
    (pruned : Pruned) :
    ∃ disk', applyPooledOpfsDelta disk name physicalIdentity delta pruned none = (disk', .ok ()) ∧
      Recorded disk' name physicalIdentity ∧
      poolView disk' (storedEntries disk') = directory.persistable := by
  obtain ⟨existing, hread, hentries⟩ := hrecorded.read hasserted
  have hpaths : ∀ p ∈ persisted.paths, isStoredPath p = true :=
    fun p hp => hrecorded.persisted_paths hmirrors hp
  have hroot : [] ∉ persisted.paths := by
    intro hmem
    have hstored := hpaths [] hmem
    cases hstored
  obtain ⟨hheld, hview⟩ := hrecorded.held.prune pruned.before
  -- the entries after the delta, and the backings that they name
  have hlive := h.update_view hheld (fun p hp => by rw [hview, hout p hp])
    (fun p n hn => ⟨_, hmirrors.mem_of_view (hview ▸ hn)⟩) hroot
  have hupdated := hheld.update delta
  have hreadable := hupdated.readable hlive
  simp only [applyPooledOpfsDelta, validateDeltaPaths_ok h hpaths, hread, hentries,
    validateEntryRelationships_ok hreadable, writePoolState]
  refine ⟨_, rfl, ?_⟩
  obtain ⟨hpublished, hpublishedView⟩ := hupdated.with_state (.content
    { name, phase := .ready, physicalIdentity
      entries := (updateEntries delta (pruneUnreferencedData disk (storedEntries disk)
        pruned.before) (storedEntries disk)).2 })
  obtain ⟨hlast, hlastView⟩ := hpublished.prune pruned.after
  exact ⟨.content _ rfl rfl rfl hreadable hlast, hlastView.trans (hpublishedView.trans hlive)⟩

theorem Recorded.prune (h : Recorded disk name physicalIdentity) (removed : List Nat) :
    Recorded (pruneUnreferencedData disk (storedEntries disk) removed) name physicalIdentity ∧
      poolView (pruneUnreferencedData disk (storedEntries disk) removed)
          (storedEntries (pruneUnreferencedData disk (storedEntries disk) removed)) =
        poolView disk (storedEntries disk) := by
  refine h.transport rfl rfl (Nat.le_refl _) ?_
  intro b hb
  rw [Disk.read, pruneUnreferencedData]
  simp only [hb, not_true_eq_false, and_false, if_false]
  rfl

theorem Recorded.frame (h : Recorded disk name physicalIdentity)
    (hframe : disk'.state = disk.state ∧ disk'.foreign = disk.foreign ∧ disk.next ≤ disk'.next ∧
      ∀ b < disk.next, disk'.read b = disk.read b) : Recorded disk' name physicalIdentity ∧
      poolView disk' (storedEntries disk') = poolView disk (storedEntries disk) := by
  obtain ⟨hstate, hforeign, hnext, hread⟩ := hframe
  refine h.transport hstate hforeign hnext fun b hb => ?_
  obtain ⟨p, hp⟩ := mem_backings.mp hb
  exact hread b (h.held.backed p b hp).1

theorem create_read (hb : b < disk.next) : disk.create.read b = disk.read b := by
  simp [Disk.read, Disk.create, Nat.ne_of_lt hb]

/-- A fault while data is written leaves backings that no entry names. -/
theorem Recorded.writeFault (h : Recorded disk name physicalIdentity)
    (files : List (Path × Contents)) (entries : PathTree Nat) :
    Recorded (putFiles files disk entries).1.create name physicalIdentity ∧
      poolView (putFiles files disk entries).1.create
          (storedEntries (putFiles files disk entries).1.create) =
        poolView disk (storedEntries disk) := by
  obtain ⟨hstate, hforeign, hnext, hread⟩ := putFiles_frame files disk entries
  refine h.frame ⟨hstate, hforeign, Nat.le_succ_of_le hnext, fun b hb => ?_⟩
  exact (create_read (Nat.lt_of_lt_of_le hb hnext)).trans (hread b hb)

/-- A fault while the state is written leaves the old state or an unwritten one. -/
theorem Recorded.publishFault (h : Recorded disk name physicalIdentity) (state : PoolState)
    (message : String) :
    ∃ disk', writePoolState disk state (some (.publish message)) = (disk', .error (.host message)) ∧
      ((Recorded disk' name physicalIdentity ∧
          poolView disk' (storedEntries disk') = poolView disk (storedEntries disk)) ∨
        (disk.state = .absent ∧ disk'.state = .empty)) := by
  refine ⟨_, rfl, ?_⟩
  cases hstate : disk.state with
  | absent => exact .inr ⟨rfl, rfl⟩
  | empty =>
    exact .inl (h.frame ⟨hstate.symm, rfl, Nat.le_refl _, fun _ _ => rfl⟩)
  | content held =>
    exact .inl (h.frame ⟨hstate.symm, rfl, Nat.le_refl _, fun _ _ => rfl⟩)

/-- A fault leaves the pool as it was, except that the first publication may leave a
`state.json` that is empty. -/
theorem applyPooledOpfsDelta_fault (hrecorded : Recorded disk name physicalIdentity)
    (hasserted : assertWasixPhysicalIdentity physicalIdentity = .ok physicalIdentity)
    (delta : StorageDelta) (pruned : Pruned)
    (fault : ApplyFault) :
    ∃ disk' e, applyPooledOpfsDelta disk name physicalIdentity delta pruned (some fault) =
        (disk', .error e) ∧
      ((Recorded disk' name physicalIdentity ∧
          poolView disk' (storedEntries disk') = poolView disk (storedEntries disk)) ∨
        (disk.state = .absent ∧ disk'.state = .empty)) := by
  obtain ⟨existing, hread, hentries⟩ := hrecorded.read hasserted
  obtain ⟨hpruned, hprunedView⟩ := hrecorded.prune pruned.before
  rw [applyPooledOpfsDelta]
  cases validateDeltaPaths delta name with
  | error e => exact ⟨disk, _, rfl, .inl ⟨hrecorded, rfl⟩⟩
  | ok _ =>
    simp only [hread, hentries]
    cases fault with
    | write written message =>
      obtain ⟨hsame, hview⟩ :=
        hpruned.writeFault (delta.files.take written) (storedEntries disk)
      exact ⟨_, _, rfl, .inl ⟨hsame, hview.trans hprunedView⟩⟩
    | publish message =>
      have hframe := updateEntries_frame delta
        (pruneUnreferencedData disk (storedEntries disk) pruned.before) (storedEntries disk)
      obtain ⟨hsame, hview⟩ := hpruned.frame hframe
      cases validateEntryRelationships (updateEntries delta
        (pruneUnreferencedData disk (storedEntries disk) pruned.before) (storedEntries disk)).2
        name with
      | error e => exact ⟨_, _, rfl, .inl ⟨hsame, hview.trans hprunedView⟩⟩
      | ok _ =>
        obtain ⟨disk', hwrite, hleft⟩ := hsame.publishFault
          { name, phase := .ready, physicalIdentity
            entries := (updateEntries delta (pruneUnreferencedData disk (storedEntries disk)
              pruned.before) (storedEntries disk)).2 } message
        simp only [hwrite]
        refine ⟨_, _, rfl, ?_⟩
        rcases hleft with ⟨hrecorded', hview'⟩ | ⟨habsent, hempty⟩
        · exact .inl ⟨hrecorded', hview'.trans (hview.trans hprunedView)⟩
        · exact .inr ⟨hframe.1.symm.trans habsent, hempty⟩

/-- An empty `state.json` lets no delta through. -/
theorem applyPooledOpfsDelta_empty (hempty : disk.state = .empty) (delta : StorageDelta)
    (pruned : Pruned) (fault : Option ApplyFault) :
    ∃ e, applyPooledOpfsDelta disk name physicalIdentity delta pruned fault = (disk, .error e) := by
  rw [applyPooledOpfsDelta]
  cases validateDeltaPaths delta name with
  | error e => exact ⟨_, rfl⟩
  | ok _ =>
    simp only [readPoolState, hempty]
    exact ⟨_, rfl⟩

end Pool

end Oliphaunt.IncrementalStorage
