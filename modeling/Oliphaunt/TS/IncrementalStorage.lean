import Oliphaunt.Model.Transition
import Oliphaunt.TS.StorageApply

/-!
# Leases on incremental storage

`IncrementalStorageLease` keeps a store up to date with the live directory. `sync`
reads a delta, has the store apply it, records the new paths and clears the change
journal; each of these may fail.

Edits of the directory and calls of `sync` and `close` are the actions of a run. The
journal of the directory names every path that an edit changes, or a path above it
(`Journaled`). `incremental_storage_exact` and `sync_recovers` are the results.
-/

namespace Oliphaunt.IncrementalStorage

open FileTree OpfsPool Transition Option

inductive Store where
  | indexedDb (metadata : Bool) (entries : PathTree Contents)
  | pooled (name : String) (physicalIdentity : PhysicalIdentity) (disk : Disk)

namespace Store

def view : Store → View
  | .indexedDb _ entries => entries.get
  | .pooled _ _ disk => poolView disk (storedEntries disk)

/-- `apply(delta)`; a transaction of IndexedDB that fails has no effect. -/
def apply (store : Store) (delta : StorageDelta) (pruned : Pruned) (fault : Option ApplyFault) :
    Store × Except ApplyError Unit :=
  match store with
  | .indexedDb metadata entries =>
    match fault with
    | none => (.indexedDb true (applyStoredDatabaseDelta entries delta), .ok ())
    | some (.write _ message) | some (.publish message) =>
      (.indexedDb metadata entries, .error (.host message))
  | .pooled name physicalIdentity disk =>
    let (disk, result) := applyPooledOpfsDelta disk name physicalIdentity delta pruned fault
    (.pooled name physicalIdentity disk, result)

def entryTypes {α : Type} (entries : PathTree α) : PathTree Unit :=
  entries.map fun e => (e.1, entryType e.2)

/-- The paths of the snapshot that `read()` returns. -/
def snapshot : Store → Option (PathTree Unit)
  | .indexedDb metadata entries => if metadata then some (entryTypes entries) else none
  | .pooled _ _ disk =>
    match disk.state with
    | .content state => some (entryTypes state.entries)
    | _ => none

/-- `initializationState` is `'new'`. -/
def isNew : Store → Bool
  | .indexedDb metadata _ => !metadata
  | .pooled _ _ disk =>
    match disk.state with
    | .content state => state.phase ≠ .ready
    | _ => true

/-- What `read()` accepts: rows only with their metadata, and a pool that opens. -/
def Sound : Store → Prop
  | .indexedDb metadata entries => entries.paths.Nodup ∧ (metadata = false → entries = [])
  | .pooled name physicalIdentity disk =>
    assertWasixPhysicalIdentity physicalIdentity = .ok physicalIdentity ∧
      Recorded disk name physicalIdentity

/-- A pool whose first `state.json` was created and not written. -/
def Unwritten : Store → Prop
  | .indexedDb _ _ => False
  | .pooled _ _ disk => disk.state = .empty

end Store

inductive CommitState where
  | notPersisted
  | persisted
  | unchanged
  | unknown
deriving DecidableEq, Repr

inductive ErrorCode where
  | corrupt
  | incompatible
  | publicationFailed
  | unavailable
deriving DecidableEq, Repr

structure WasixStorageError where
  message : String
  code : ErrorCode
  commitState : CommitState
deriving DecidableEq, Repr

/-- Errors of the pool say that its generation is unchanged. -/
def ofStorageError : StorageError → WasixStorageError
  | .corrupt message => ⟨message, .corrupt, .unchanged⟩
  | .incompatible message => ⟨message, .incompatible, .unchanged⟩

structure Lease where
  label : String
  store : Store
  closed : Bool
  hasStoredGeneration : Bool
  initializationPending : Bool
  persistedEntries : PathTree Unit

inductive SyncFault where
  | snapshot (message : String)
  | apply (fault : ApplyFault)
  | clear (message : String)
deriving DecidableEq, Repr

def SyncFault.ofApply : Option SyncFault → Option ApplyFault
  | some (.apply fault) => some fault
  | _ => none

namespace Lease

/-- `acquireIncrementalStorage`, once the store has been read. -/
def acquire (label : String) (store : Store) : Lease where
  label := label
  store := store
  closed := false
  hasStoredGeneration := store.snapshot.isSome
  initializationPending := store.isNew
  persistedEntries := store.snapshot.getD []

def writeFailureCommitState (lease : Lease) : CommitState :=
  match lease.store with
  | .indexedDb _ _ => .notPersisted
  | .pooled _ _ _ => .unknown

def failure (lease : Lease) (commitState : CommitState) (message : String) : WasixStorageError :=
  ⟨"could not persist " ++ lease.label ++ ": " ++ message, .publicationFailed, commitState⟩

/-- `directory.clearChanges?.()`, with what is reported when it fails. -/
def clearChanges (lease : Lease) (journal : Option (List Path)) (commitState : CommitState)
    (fault : Option SyncFault) : Option (List Path) × Except WasixStorageError Unit :=
  match fault with
  | some (.clear message) => (journal, .error (lease.failure commitState message))
  | _ => (journal.map fun _ => [], .ok ())

/-- The part of `sync` from the delta on. -/
def publish (lease : Lease) (journal : Option (List Path)) (delta : StorageDelta)
    (pruned : Pruned) (fault : Option SyncFault) :
    Lease × Option (List Path) × Except WasixStorageError Unit :=
  if lease.initializationPending = false ∧ lease.hasStoredGeneration = true ∧
      delta.directories = [] ∧ delta.files = [] ∧ delta.deleted = [] then
    (lease, lease.clearChanges journal .unchanged fault)
  else
    match lease.store.apply delta pruned (SyncFault.ofApply fault) with
    | (store, .error (.storage e)) => ({ lease with store }, journal, .error (ofStorageError e))
    | (store, .error (.host message)) =>
      ({ lease with store }, journal,
        .error (lease.failure lease.writeFailureCommitState message))
    | (store, .ok ()) =>
      let persistedEntries := applyStorageDeltaToEntries lease.persistedEntries delta
      ({ lease with
          store, persistedEntries, hasStoredGeneration := true, initializationPending := false },
        lease.clearChanges journal .persisted fault)

def sync (lease : Lease) (directory : Directory) (journal : Option (List Path)) (pruned : Pruned)
    (fault : Option SyncFault) : Lease × Option (List Path) × Except WasixStorageError Unit :=
  if lease.closed then
    (lease, journal, .error ⟨lease.label ++ " is closed", .unavailable, .unchanged⟩)
  else
    match fault with
    | some (.snapshot message) =>
      (lease, journal, .error (lease.failure lease.writeFailureCommitState message))
    | _ =>
      match snapshotStorageDelta directory journal lease.persistedEntries
          (!lease.hasStoredGeneration) with
      | .error message =>
        (lease, journal, .error (lease.failure lease.writeFailureCommitState message))
      | .ok delta => lease.publish journal delta pruned fault

end Lease

/-- `last` is the directory of the last sync that was published. -/
structure State where
  lease : Lease
  directory : Directory
  journal : Option (List Path)
  last : View

inductive Action where
  | edit (directory : Directory) (touched : List Path)
  | sync (pruned : Pruned) (fault : Option SyncFault)
  | close (clean : Bool) (pruned : Pruned) (fault : Option SyncFault)

/-- The sync has returned, or failed only after the store had committed. -/
def isPublished : Except WasixStorageError Unit → Bool
  | .ok () => true
  | .error e => e.commitState = .persisted

def State.sync (s : State) (pruned : Pruned) (fault : Option SyncFault) : State :=
  let (lease, journal, result) := s.lease.sync s.directory s.journal pruned fault
  { s with
    lease, journal
    last := if isPublished result then s.directory.persistable else s.last }

def step (s : State) : Action → Option State
  | .edit directory touched =>
    some { s with directory, journal := s.journal.map (· ++ touched) }
  | .sync pruned fault => some (s.sync pruned fault)
  | .close clean pruned fault =>
    if s.lease.closed then some s
    else
      let s := if clean then s.sync pruned fault else s
      some { s with lease := { s.lease with closed := true } }

/-- The journal names every path where the directory differs from the store, or a path
above it. -/
def State.Covered (s : State) : Prop :=
  s.lease.hasStoredGeneration = true → ∀ values, s.journal = some values → ∀ p,
    s.directory.persistable p ≠ s.lease.store.view p → ∃ root ∈ values, root <+: p

/-- An edit adds the paths that it changes to the journal, or paths above them. -/
def Journaled (s : State) : Action → Prop
  | .edit directory touched => ∀ p,
    s.directory.persistable p ≠ directory.persistable p → ∃ root ∈ touched, root <+: p
  | _ => True

/-- A lease has been acquired on a store that could be read. -/
structure Start (s : State) : Prop where
  acquired : ∃ label, s.lease = Lease.acquire label s.lease.store
  sound : s.lease.store.Sound
  covered : s.Covered
  last : s.last = s.lease.store.view

variable {α : Type} {disk : Disk} {directory : Directory} {persisted : PathTree Unit} {view : View}
  {scope : Path → Prop}

theorem get_entryTypes (entries : PathTree α) (p : Path) :
    (Store.entryTypes entries).get p = (entries.get p).map entryType := by
  induction entries with
  | nil => rfl
  | cons e entries ih =>
    refine (PathTree.get_cons _ _ _).trans ?_
    rw [PathTree.get_cons]
    split
    · rfl
    · exact ih

theorem entryType_eq_mapNode (n : Node Contents) : entryType n = mapNode (fun _ => ()) n := by
  cases n <;> rfl

theorem entryType_of_resolve (h : resolve disk n = some m) : entryType m = entryType n := by
  cases n with
  | directory =>
    cases h
    rfl
  | file b =>
    obtain ⟨bytes, -, rfl⟩ := map_eq_some_iff.mp h
    rfl

theorem nodup_entryTypes {entries : PathTree α} (h : entries.paths.Nodup) :
    (Store.entryTypes entries).paths.Nodup := by
  have hpaths : (Store.entryTypes entries).paths = entries.paths := by
    simp [Store.entryTypes, PathTree.paths, Function.comp_def]
  rw [hpaths]
  exact h

theorem mirrors_rows (h : entries.paths.Nodup) :
    Mirrors (Store.entryTypes entries) entries.get :=
  ⟨nodup_entryTypes h, get_entryTypes entries⟩

/-- The records of a pool mirror its contents. -/
theorem Held.mirrors (h : Held disk entries) :
    Mirrors (Store.entryTypes entries) (poolView disk entries) := by
  refine ⟨nodup_entryTypes h.nodup, fun p => ?_⟩
  rw [get_entryTypes]
  cases hget : entries.get p with
  | none => rw [poolView, hget]; rfl
  | some n =>
    have hpath := PathTree.mem_paths.mpr ⟨n, PathTree.mem_of_get hget⟩
    obtain ⟨m, hm⟩ := ne_none_iff_exists'.mp (h.mem_of_poolView hpath)
    have hresolve : resolve disk n = some m := by
      rw [poolView, hget] at hm
      exact hm
    rw [hm, map_some, map_some, entryType_of_resolve hresolve]

theorem mirrors_nil : Mirrors [] (fun _ => none) := ⟨List.nodup_nil, fun _ => rfl⟩

namespace Store

/-- What a store reports when a lease is acquired mirrors what it holds. -/
theorem Sound.mirrors_snapshot {store : Store} (h : store.Sound) :
    Mirrors (store.snapshot.getD []) store.view := by
  cases store with
  | indexedDb metadata entries =>
    obtain ⟨hnodup, hempty⟩ := h
    cases metadata with
    | true => exact mirrors_rows hnodup
    | false =>
      rw [hempty rfl]
      exact mirrors_nil
  | pooled name physicalIdentity disk =>
    obtain ⟨-, hrecorded⟩ := h
    cases hrecorded with
    | absent hstate hforeign =>
      rw [view, storedEntries, snapshot, hstate]
      exact mirrors_nil
    | content state hstate hname hidentity hreadable hheld =>
      rw [view, storedEntries, snapshot, hstate]
      exact hheld.mirrors

variable {store : Store} {directory : Directory} {persisted : PathTree Unit}
  {scope : Path → Prop} {delta : StorageDelta}

/-- Without a fault, a delta that covers every difference brings the store to the live
directory. -/
theorem Sound.apply_ok (h : store.Sound)
    (hcaptures : Captures directory.persistable persisted scope delta)
    (hmirrors : Mirrors persisted store.view)
    (hout : ∀ p, ¬ scope p → store.view p = directory.persistable p) (pruned : Pruned) :
    ∃ store', store.apply delta pruned none = (store', .ok ()) ∧ store'.Sound ∧
      store'.view = directory.persistable := by
  have hid : ∀ v : Option (Node Contents), v.map (mapNode id) = v := by
    intro v
    cases v with
    | none => rfl
    | some n => rw [map_some, mapNode_id]
  cases store with
  | indexedDb metadata entries =>
    refine ⟨_, rfl, ⟨applyDelta_nodup h.1, nofun⟩, ?_⟩
    funext p
    have hget := @applyDelta_get _ id _ _ _ _ entries hcaptures
      (fun q hq => (hout q hq).trans (hid _).symm)
      (fun q n hn => ⟨_, hmirrors.mem_of_view hn⟩) p
    exact hget.trans (hid _)
  | pooled name physicalIdentity disk =>
    obtain ⟨disk', happly, hrecorded, hview⟩ :=
      applyPooledOpfsDelta_ok hcaptures h.2 h.1 hmirrors hout pruned
    rw [apply, happly]
    exact ⟨_, rfl, ⟨h.1, hrecorded⟩, hview⟩

/-- A fault leaves the view as it was. The pool may be left with an unwritten `state.json`. -/
theorem Sound.apply_fault (h : store.Sound) (delta : StorageDelta) (pruned : Pruned)
    (fault : ApplyFault) :
    ∃ store' e, store.apply delta pruned (some fault) = (store', .error e) ∧
      (store'.Sound ∨ store'.Unwritten) ∧ store'.view = store.view := by
  cases store with
  | indexedDb metadata entries =>
    cases fault with
    | write written message => exact ⟨_, _, rfl, .inl h, rfl⟩
    | publish message => exact ⟨_, _, rfl, .inl h, rfl⟩
  | pooled name physicalIdentity disk =>
    obtain ⟨disk', e, happly, hleft⟩ := applyPooledOpfsDelta_fault h.2 h.1 delta pruned fault
    rw [apply, happly]
    refine ⟨_, e, rfl, ?_⟩
    rcases hleft with ⟨hrecorded, hview⟩ | ⟨habsent, hempty⟩
    · exact ⟨.inl ⟨h.1, hrecorded⟩, hview⟩
    · refine ⟨.inr hempty, ?_⟩
      -- nothing was stored before, and nothing is stored now
      rw [view, view, storedEntries, storedEntries, habsent, hempty]
      rfl

/-- A pool with an unwritten `state.json` refuses every delta. -/
theorem Unwritten.apply (h : store.Unwritten) (delta : StorageDelta) (pruned : Pruned)
    (fault : Option ApplyFault) : ∃ e, store.apply delta pruned fault = (store, .error e) := by
  cases store with
  | indexedDb metadata entries => exact h.elim
  | pooled name physicalIdentity disk =>
    obtain ⟨e, happly⟩ := applyPooledOpfsDelta_empty h delta pruned fault
    rw [Store.apply, happly]
    exact ⟨e, rfl⟩

end Store

variable {delta : StorageDelta}

/-- The lease's record of the paths follows the delta in the same way as the store. -/
theorem Mirrors.applyDelta (h : Mirrors persisted view)
    (hcaptures : Captures directory.persistable persisted scope delta)
    (hout : ∀ p, ¬ scope p → view p = directory.persistable p) :
    Mirrors (applyStorageDeltaToEntries persisted delta) directory.persistable := by
  have hmap : ∀ v : Option (Node Contents), v.map (mapNode fun _ => ()) = v.map entryType := by
    intro v
    cases v with
    | none => rfl
    | some n => rw [map_some, map_some, entryType_eq_mapNode]
  refine ⟨applyDelta_nodup h.nodup, fun p => ?_⟩
  have hget := @applyDelta_get _ (fun _ => ()) _ _ _ _ persisted hcaptures
    (fun q hq => by rw [h.types, hout q hq, hmap])
    (fun q n hn => ⟨n, PathTree.mem_of_get hn⟩) p
  exact hget.trans (hmap _)

variable {s : State}

/-- The delta that a sync reads captures the directory in a scope outside of which the
store holds it already. -/
theorem State.Covered.captures (h : s.Covered)
    (hdelta : snapshotStorageDelta s.directory s.journal s.lease.persistedEntries
      (!s.lease.hasStoredGeneration) = .ok delta) :
    ∃ scope, Captures s.directory.persistable s.lease.persistedEntries scope delta ∧
      ∀ p, ¬ scope p → s.lease.store.view p = s.directory.persistable p := by
  cases hstored : s.lease.hasStoredGeneration with
  | false =>
    rw [hstored] at hdelta
    exact ⟨_, snapshotStorageDelta_full (.inl rfl) hdelta, fun p hp => absurd trivial hp⟩
  | true =>
    rw [hstored] at hdelta
    cases hjournal : s.journal with
    | none =>
      exact ⟨_, snapshotStorageDelta_full (.inr hjournal) hdelta, fun p hp => absurd trivial hp⟩
    | some values =>
      rw [hjournal] at hdelta
      refine ⟨_, snapshotStorageDelta_journal hdelta, fun p hp => ?_⟩
      by_contra hne
      exact hp (h hstored values hjournal p (Ne.symm hne))

/-- An empty delta: the store holds the directory as it is. -/
theorem Captures.eq_of_empty (h : Captures live persisted scope delta)
    (hmirrors : Mirrors persisted view) (hout : ∀ p, ¬ scope p → view p = live p)
    (hdirectories : delta.directories = []) (hfiles : delta.files = [])
    (hdeleted : delta.deleted = []) : view = live := by
  funext p
  by_cases hscope : scope p
  · have hlive : live p = none := by
      cases hp : live p with
      | none => rfl
      | some n =>
        have hmem := h.mem_upsert_paths.mpr ⟨hscope, by rw [hp]; exact some_ne_none n⟩
        rw [hdirectories, hfiles] at hmem
        cases hmem
    rw [hlive]
    cases hp : view p with
    | none => rfl
    | some n =>
      have hmem := (h.deleted p).mpr ⟨hscope, _, hmirrors.mem_of_view hp, by
        rw [hlive]
        exact nofun⟩
      rw [hdeleted] at hmem
      cases hmem
  · exact hout p hscope

structure Invariant (s : State) : Prop where
  store : s.lease.store.Sound ∨ s.lease.store.Unwritten
  mirrors : Mirrors s.lease.persistedEntries s.lease.store.view
  last : s.lease.store.view = s.last
  covered : s.Covered

/-- A lease that is acquired from a store whose journal covers the differences starts in the
invariant. -/
theorem Start.invariant (h : Start s) : Invariant s where
  store := .inl h.sound
  mirrors := by
    obtain ⟨label, hlease⟩ := h.acquired
    have hmirrors := h.sound.mirrors_snapshot
    have hentries : s.lease.persistedEntries = s.lease.store.snapshot.getD [] :=
      congrArg Lease.persistedEntries hlease
    rw [hentries]
    exact hmirrors
  last := h.last.symm
  covered := h.covered

/-- An edit that the journal names keeps the differences covered. -/
theorem Invariant.edit (h : Invariant s) (hjournaled : Journaled s (.edit directory touched)) :
    Invariant { s with directory, journal := s.journal.map (· ++ touched) } :=
  { h with
    covered := by
      intro hstored values hvalues p hne
      obtain ⟨before, hbefore, rfl⟩ := map_eq_some_iff.mp hvalues
      by_cases hsame : s.directory.persistable p = directory.persistable p
      · -- the difference is older than the edit
        obtain ⟨root, hroot, hunder⟩ := h.covered hstored before hbefore p (hsame ▸ hne)
        exact ⟨root, List.mem_append_left _ hroot, hunder⟩
      · obtain ⟨root, hroot, hunder⟩ := hjournaled p hsame
        exact ⟨root, List.mem_append_right _ hroot, hunder⟩ }

/-- After a publication the view is the live directory, and an empty journal covers it. -/
theorem Invariant.of_exact (hsound : s.lease.store.Sound ∨ s.lease.store.Unwritten)
    (hmirrors : Mirrors s.lease.persistedEntries s.lease.store.view)
    (hlast : s.lease.store.view = s.last)
    (hexact : s.lease.store.view = s.directory.persistable) : Invariant s :=
  ⟨hsound, hmirrors, hlast, fun _ _ _ p hne => absurd (congrFun hexact p).symm hne⟩

/-- A sync that fails before its commit leaves everything but the store's backings. -/
theorem Invariant.failed (h : Invariant s) {store : Store}
    (hstore : store.Sound ∨ store.Unwritten) (hview : store.view = s.lease.store.view) :
    Invariant { s with lease := { s.lease with store } } where
  store := hstore
  mirrors := by
    show Mirrors s.lease.persistedEntries store.view
    rw [hview]
    exact h.mirrors
  last := hview.trans h.last
  covered := by
    intro hstored values hvalues p hne
    refine h.covered hstored values hvalues p ?_
    rw [← hview]
    exact hne

theorem isPublished_ofStorageError (e : StorageError) :
    isPublished (.error (ofStorageError e)) = false := by
  cases e <;> rfl

theorem isPublished_writeFailure (lease : Lease) (message : String) :
    isPublished (.error (lease.failure lease.writeFailureCommitState message)) = false := by
  have hstate : lease.writeFailureCommitState ≠ .persisted := by
    unfold Lease.writeFailureCommitState
    split
    · decide
    · decide
  exact decide_eq_false hstate

/-- What a call of `publish` makes of a state. -/
def State.publish (s : State) (delta : StorageDelta) (pruned : Pruned) (fault : Option SyncFault) :
    State :=
  let (lease, journal, result) := s.lease.publish s.journal delta pruned fault
  { s with
    lease, journal
    last := if isPublished result then s.directory.persistable else s.last }

/-- Publishing a delta keeps the invariant, whichever part of it fails. -/
theorem Invariant.publish (h : Invariant s)
    (hdelta : snapshotStorageDelta s.directory s.journal s.lease.persistedEntries
      (!s.lease.hasStoredGeneration) = .ok delta) (pruned : Pruned) (fault : Option SyncFault) :
    Invariant (s.publish delta pruned fault) := by
  obtain ⟨scope, hcaptures, hout⟩ := h.covered.captures hdelta
  rw [State.publish, Lease.publish]
  by_cases hskip : s.lease.initializationPending = false ∧ s.lease.hasStoredGeneration = true ∧
      delta.directories = [] ∧ delta.files = [] ∧ delta.deleted = []
  · rw [if_pos hskip]
    obtain ⟨-, -, hdirectories, hfiles, hdeleted⟩ := hskip
    have hexact := hcaptures.eq_of_empty h.mirrors hout hdirectories hfiles hdeleted
    refine .of_exact h.store h.mirrors ?_ hexact
    show s.lease.store.view = if _ then s.directory.persistable else s.last
    rw [hexact, ← h.last, hexact, ite_self]
  rw [if_neg hskip]
  rcases h.store with hsound | hunwritten
  · cases hfault : SyncFault.ofApply fault with
    | none =>
      obtain ⟨store, happly, hsound', hview⟩ := hsound.apply_ok hcaptures h.mirrors hout pruned
      rw [happly]
      have hmirrors := h.mirrors.applyDelta hcaptures hout
      have hpublished : isPublished (s.lease.clearChanges s.journal .persisted fault).2 = true := by
        unfold Lease.clearChanges
        split
        · rfl
        · rfl
      refine .of_exact (.inl hsound') ?_ ?_ hview
      · show Mirrors (applyStorageDeltaToEntries s.lease.persistedEntries delta) store.view
        rw [hview]
        exact hmirrors
      · show store.view = if isPublished (s.lease.clearChanges s.journal .persisted fault).2 = true
          then s.directory.persistable else s.last
        rw [if_pos hpublished, hview]
    | some f =>
      obtain ⟨store, e, happly, hstore, hview⟩ := hsound.apply_fault delta pruned f
      rw [happly]
      cases e with
      | storage e =>
        simp only [isPublished_ofStorageError]
        exact h.failed hstore hview
      | host message =>
        simp only [isPublished_writeFailure]
        exact h.failed hstore hview
  · -- a pool without a written state refuses every delta
    obtain ⟨e, happly⟩ := hunwritten.apply delta pruned (SyncFault.ofApply fault)
    rw [happly]
    cases e with
    | storage e =>
      simp only [isPublished_ofStorageError]
      exact h
    | host message =>
      simp only [isPublished_writeFailure]
      exact h

/-- A sync keeps the invariant, whether it succeeds, is refused or fails on the way. -/
theorem Invariant.sync (h : Invariant s) (pruned : Pruned) (fault : Option SyncFault) :
    Invariant (s.sync pruned fault) := by
  unfold State.sync Lease.sync
  by_cases hclosed : s.lease.closed = true
  · rw [if_pos hclosed]
    exact h
  rw [if_neg hclosed]
  split
  rename_i lease journal result hsync
  split at hsync
  · obtain ⟨rfl, hrest⟩ := Prod.mk.inj hsync
    obtain ⟨rfl, rfl⟩ := Prod.mk.inj hrest
    rw [isPublished_writeFailure]
    exact h
  · cases hdelta : snapshotStorageDelta s.directory s.journal s.lease.persistedEntries
      (!s.lease.hasStoredGeneration) with
    | error message =>
      rw [hdelta] at hsync
      obtain ⟨rfl, hrest⟩ := Prod.mk.inj hsync
      obtain ⟨rfl, rfl⟩ := Prod.mk.inj hrest
      rw [isPublished_writeFailure]
      exact h
    | ok delta =>
      have hpublish := h.publish hdelta pruned fault
      rw [hdelta] at hsync
      rw [State.publish, show s.lease.publish s.journal delta pruned fault = _ from hsync]
        at hpublish
      exact hpublish

/-- Every action keeps the invariant: edits, syncs and the close. -/
theorem Invariant.step (h : Invariant s) (hjournaled : Journaled s a) (hstep : step s a = some t) :
    Invariant t := by
  cases a with
  | edit directory touched =>
    cases hstep
    exact h.edit hjournaled
  | sync pruned fault =>
    cases hstep
    exact h.sync pruned fault
  | close clean pruned fault =>
    rw [IncrementalStorage.step] at hstep
    split at hstep <;> cases hstep
    · exact h
    · have hlast : Invariant (if clean = true then s.sync pruned fault else s) := by
        split
        · exact h.sync pruned fault
        · exact h
      exact ⟨hlast.store, hlast.mirrors, hlast.last, hlast.covered⟩

/-! ## The store is the directory of the last sync -/

/-- A delta brings either store, and the record of its paths, to the live directory
without the volatile files; and along every run of edits, syncs and closes the store
is the directory of the last sync. -/
theorem incremental_storage_exact :
    (∀ (store : Store) (directory : Directory) (journal : List Path) (persisted : PathTree Unit)
        (pruned : Pruned),
      store.Sound → Mirrors persisted store.view →
      (∀ p ∈ journal, p.all isEntryName = true) →
      (∀ p, directory.persistable p ≠ store.view p → ∃ root ∈ journal, root <+: p) →
      ∃ delta store',
        snapshotStorageDelta directory (some journal) persisted false = .ok delta ∧
        store.apply delta pruned none = (store', .ok ()) ∧
        store'.view = directory.persistable ∧
        Mirrors (applyStorageDeltaToEntries persisted delta) store'.view) ∧
    (∀ (s t : State) (actions : List Action),
      Start s → Along step Journaled s actions → run step s actions = some t →
      t.lease.store.view = t.last ∧ Mirrors t.lease.persistedEntries t.lease.store.view) := by
  constructor
  · intro store directory journal persisted pruned hsound hmirrors hvalid hcover
    obtain ⟨delta, hdelta⟩ := @snapshotStorageDelta_ok (some journal) false directory persisted
      (fun values hvalues => Option.some.inj hvalues ▸ hvalid)
    have hcaptures := snapshotStorageDelta_journal hdelta
    have hout : ∀ p, ¬ (∃ root ∈ journal, root <+: p) →
        store.view p = directory.persistable p := by
      intro p hp
      by_contra hne
      exact hp (hcover p (Ne.symm hne))
    obtain ⟨store', happly, -, hview⟩ := hsound.apply_ok hcaptures hmirrors hout pruned
    refine ⟨delta, store', hdelta, happly, hview, ?_⟩
    rw [hview]
    exact hmirrors.applyDelta hcaptures hout
  · intro s t actions hstart halong hrun
    have hinv := run_invariant_along (C := Journaled) (P := Invariant)
      (fun s a t h hc hstep => h.step hc hstep) hstart.invariant halong hrun
    exact ⟨hinv.last, hinv.mirrors⟩

def replacedTree : PathTree Contents := [([], .directory), (["a"], .file [2])]

theorem replacedTree_formed : replacedTree.WellFormed := by
  refine ⟨by decide, .head _, ?_⟩
  intro p n hmem hne
  have hp : p = [] ∨ p = ["a"] := by
    have hpath := PathTree.mem_paths.mpr ⟨n, hmem⟩
    simpa [PathTree.paths, replacedTree] using hpath
  rcases hp with rfl | rfl
  · exact absurd rfl hne
  · exact .head _

theorem replacedTree_names : ∀ p ∈ replacedTree.paths, p.all isEntryName = true := by
  decide +kernel

/-- A file `a` where the store holds a directory `a` with a file in it. -/
def replacedDirectory : Directory := ⟨replacedTree, replacedTree_formed, replacedTree_names⟩

def replacedRows : PathTree Contents := [(["a"], .directory), (["a", "b"], .file [1])]

/-- The change journal of the replaced directory covers every difference from the rows. -/
theorem replaced_covered (p : Path)
    (hne : replacedDirectory.persistable p ≠ replacedRows.get p) :
    ∃ root ∈ [["a"]], root <+: p := by
  refine ⟨["a"], List.mem_singleton.mpr rfl, ?_⟩
  by_contra hout
  refine hne ?_
  have hrows : replacedRows.get p = none := by
    rw [PathTree.get_eq_none, show replacedRows.paths = [["a"], ["a", "b"]] from rfl]
    rintro hmem
    rcases List.mem_cons.mp hmem with rfl | hmem
    · exact hout ⟨[], rfl⟩
    · rw [List.mem_singleton.mp hmem] at hout
      exact hout ⟨["b"], rfl⟩
  have htree : p ≠ [] → replacedDirectory.tree.get p = none := by
    intro hroot
    rw [PathTree.get_eq_none, show replacedDirectory.tree.paths = [[], ["a"]] from rfl]
    intro hmem
    rcases List.mem_cons.mp hmem with rfl | hmem
    · exact hroot rfl
    · rw [List.mem_singleton.mp hmem] at hout
      exact hout ⟨[], rfl⟩
  rw [hrows, Directory.persistable]
  split
  · rfl
  · rename_i hroot
    exact htree fun h => hroot (.inl h)

def replacedState : State where
  lease := Lease.acquire "IndexedDB storage \"db\"" (.indexedDb true replacedRows)
  directory := replacedDirectory
  journal := some [["a"]]
  last := replacedRows.get

/-- A directory with a file below it becomes a file of the same name. -/
theorem incremental_storage_exact_type_change :
    (∃ delta store',
      snapshotStorageDelta replacedDirectory (some [["a"]]) (Store.entryTypes replacedRows) false =
        .ok delta ∧
      (Store.indexedDb true replacedRows).apply delta ⟨[], []⟩ none = (store', .ok ()) ∧
      store'.view = replacedDirectory.persistable ∧
      Mirrors (applyStorageDeltaToEntries (Store.entryTypes replacedRows) delta) store'.view) ∧
    ∃ t, run step replacedState [.sync ⟨[], []⟩ none] = some t ∧
      t.lease.store.view = t.last ∧
      Mirrors t.lease.persistedEntries t.lease.store.view := by
  have hsound : (Store.indexedDb true replacedRows).Sound :=
    ⟨by decide, nofun⟩
  have hstart : Start replacedState :=
    ⟨⟨_, rfl⟩, hsound, fun _ values hvalues p hne => Option.some.inj hvalues ▸
      replaced_covered p hne, rfl⟩
  constructor
  · exact incremental_storage_exact.1 _ replacedDirectory [["a"]] _ ⟨[], []⟩ hsound
      (mirrors_rows hsound.1) (by decide +kernel) replaced_covered
  · exact ⟨_, rfl, incremental_storage_exact.2 replacedState _ [.sync ⟨[], []⟩ none] hstart
      ⟨trivial, fun _ _ => trivial⟩ rfl⟩

/-- Syncs that fail lose nothing: whatever failed before, a sync of an open lease that meets
no fault succeeds and brings the store to the live directory, unless the pool was left with
an unwritten `state.json`. -/
theorem sync_recovers {s t : State} {actions : List Action} (hstart : Start s)
    (hjournaled : Along step Journaled s actions) (hrun : run step s actions = some t)
    (hopen : t.lease.closed = false) (hwritten : ¬ t.lease.store.Unwritten)
    (hvalid : ∀ values, t.journal = some values → ∀ p ∈ values, p.all isEntryName = true)
    (pruned : Pruned) :
    (t.lease.sync t.directory t.journal pruned none).2.2 = .ok () ∧
      (t.sync pruned none).lease.store.view = t.directory.persistable := by
  have hinv : Invariant t := run_invariant_along (fun s a t h hc hstep => h.step hc hstep)
    hstart.invariant hjournaled hrun
  obtain ⟨delta, hdelta⟩ := snapshotStorageDelta_ok hvalid
  obtain ⟨scope, hcaptures, hout⟩ := hinv.covered.captures hdelta
  have hsync : t.lease.sync t.directory t.journal pruned none =
      t.lease.publish t.journal delta pruned none := by
    simp [Lease.sync, hopen, hdelta]
  rw [State.sync, hsync, Lease.publish]
  split
  · -- nothing differs
    rename_i hskip
    obtain ⟨-, -, hdirectories, hfiles, hdeleted⟩ := hskip
    exact ⟨rfl, hcaptures.eq_of_empty hinv.mirrors hout hdirectories hfiles hdeleted⟩
  · obtain ⟨store, happly, -, hview⟩ :=
      (hinv.store.resolve_right hwritten).apply_ok hcaptures hinv.mirrors hout pruned
    rw [show SyncFault.ofApply none = none from rfl, happly]
    exact ⟨rfl, hview⟩

/-- The first sync cannot read the directory. -/
def unread : List Action := [.sync ⟨[], []⟩ (some (.snapshot "busy"))]

/-- After a sync that could not read the directory, the next one publishes the change of type. -/
theorem sync_recovers_after_fault : ∃ t, run step replacedState unread = some t ∧
    (t.sync ⟨[], []⟩ none).lease.store.view = replacedDirectory.persistable := by
  have hstart : Start replacedState := ⟨⟨_, rfl⟩, ⟨by decide, nofun⟩,
    fun _ values hvalues p hne => Option.some.inj hvalues ▸ replaced_covered p hne, rfl⟩
  refine ⟨_, rfl, (@sync_recovers _ _ unread hstart ⟨trivial, fun _ _ => trivial⟩ rfl rfl id
    (fun values h => ?_) _).2⟩
  obtain rfl : [["a"]] = values := Option.some.inj h
  decide +kernel

end Oliphaunt.IncrementalStorage
