import Oliphaunt.TS.OpfsCrash

/-!
# The namespace of the pool and its index of children

`DirectOpfsPool` keeps, next to the entries, the children of every directory. The index is
rebuilt by the requests that change the entries and read by those that need an empty
directory, so that an entry changed without a rebuild, or a rebuild left out on the way to
an error, would show in later answers.

`Indexed` adds the index to the pool, `namespace_consistent` is the result for whole runs.
-/

namespace Oliphaunt.OpfsPool

open FileTree Transition

structure Indexed where
  state : State
  children : ChildIndex

namespace Pool

/-- `#dispatch`, with the index where the source reads it. -/
def dispatchIn (s : Pool) (children : ChildIndex) (request : Request) (effects : Effects) :
    Pool × Result :=
  match request with
  | .removeDirectory path => s.removeDirectoryIn children path
  | .rename src dst => s.renameIn children src dst
  | request => s.dispatch request effects

/-- `#open` makes a new entry: every check up to `#takeSpare` has passed. -/
def opensNew (s : Pool) (path : Path) (flags : OpenFlags) (effects : Effects) : Bool :=
  (validatePath path false).isOk && (s.entries.get path).isNone &&
    (flags.create || flags.createNew) && (s.requireDirectory path.dropLast true).isOk &&
      (s.takeSpare path effects.first).2.isOk

/-- The request gets to its call of `#rebuildChildren`. -/
def rebuilds (s : Pool) (request : Request) (effects : Effects) (result : Result) : Bool :=
  match request with
  | .createDirectory _ | .removeDirectory _ | .removeFile _ => result.isOk
  | .rename src dst => src ≠ dst && result.isOk
  | .open path flags => s.opensNew path flags effects
  | .unlink value => (s.descriptor value).any fun d => (s.path d.record).isSome
  | _ => false

end Pool

section Step

variable (name : String) (physicalIdentity : PhysicalIdentity)

def Indexed.step (s : Indexed) : Action → Option Indexed
  | .request request effects =>
    if s.state.phase = .idle then
      let out := s.state.pool.dispatchIn s.children request effects
      some {
        state := { s.state with pool := out.1 }
        children :=
          if s.state.pool.rebuilds request effects out.2 then rebuildChildren out.1.entries
          else s.children }
    else none
  | a => (OpfsPool.step name physicalIdentity s.state a).map fun state => { s with state := state }

end Step

/-- `#hydrate` ends with a rebuild. -/
def Indexed.hydrated (disk : Disk) (state : PoolState) (spares : List Nat) : Indexed :=
  let state := OpfsPool.hydrated disk state spares
  ⟨state, rebuildChildren state.pool.entries⟩

/-- The namespace, the index, the records and the descriptors fit together. -/
structure Consistent (s : Pool) (children : ChildIndex) : Prop where
  root : s.entries.get [] = some .directory
  parent : ∀ p n, s.entries.get p = some n → p ≠ [] → s.entries.get p.dropLast = some .directory
  index : children = rebuildChildren s.entries
  path : ∀ p r, s.entries.get p = some (.file r) → s.path r = some p
  own : ∀ p q r, s.entries.get p = some (.file r) → s.entries.get q = some (.file r) → p = q
  references : ∀ r, s.references r = s.descriptors.countP fun d => d.2.record = r
  free : ∀ r ∈ s.spares ++ s.pendingReclaims,
    (∀ p, s.entries.get p ≠ some (.file r)) ∧ ∀ d ∈ s.descriptors, d.2.record ≠ r

/-! ## The index is read and rebuilt where it matters -/

variable {s : Pool}

/-- With the right index the requests are those of the pool. -/
theorem dispatchIn_rebuilt (s : Pool) (request : Request) (effects : Effects) :
    s.dispatchIn (rebuildChildren s.entries) request effects = s.dispatch request effects := by
  cases request <;> rfl

theorem setContents_entries (s : Pool) (r : Nat) (bytes : Contents) :
    (s.setContents r bytes).entries = s.entries := by
  simp only [Pool.setContents]
  repeat' split
  all_goals rfl

theorem setRecordSize_entries (s : Pool) (r size : Nat) (effect : Option Failure) :
    (s.setRecordSize r size effect).1.entries = s.entries := by
  simp only [Pool.setRecordSize]
  repeat' split
  all_goals first | rfl | exact setContents_entries ..

theorem flushRecord_entries (s : Pool) (r : Nat) (effect : Option Failure) :
    (s.flushRecord r effect).1.entries = s.entries := by
  simp only [Pool.flushRecord]
  repeat' split
  all_goals rfl

theorem queueReclaim_entries (s : Pool) (r : Nat) : (s.queueReclaim r).entries = s.entries := by
  simp only [Pool.queueReclaim]
  repeat' split
  all_goals rfl

theorem openRecord_entries (s : Pool) (r : Nat) (flags : OpenFlags) (effect : Option Failure) :
    (s.openRecord r flags effect).1.entries = s.entries := by
  have htruncate : (s.openTruncate r flags effect).1.entries = s.entries := by
    simp only [Pool.openTruncate]
    repeat' split
    all_goals first | rfl | exact setRecordSize_entries ..
  rw [← htruncate, Pool.openRecord]
  split <;> rename_i heq <;> rw [heq]
  rfl

variable {path : Path}

theorem takeSpare_error (h : s.takeSpare path effect = (t, .error e)) : t.entries = s.entries := by
  simp only [Pool.takeSpare] at h
  repeat' split at h
  all_goals cases h
  all_goals rfl

variable {effects : Effects}

theorem openFile_entries (h : s.opensNew path flags effects = false) :
    (s.openFile path flags effects).1.entries = s.entries := by
  simp only [Pool.openFile]
  split
  · rfl
  · rename_i hpath
    split
    · repeat' split
      all_goals first | rfl | exact openRecord_entries ..
    · rename_i hget
      split
      · rfl
      · split
        · rfl
        · rename_i hparent
          split
          · rename_i hspare
            exact takeSpare_error hspare
          · rename_i hspare
            simp [Pool.opensNew, hpath, hget, hparent, hspare, Except.isOk, Except.toBool] at h
            simp_all

/-- The requests on paths that make all their checks first. -/
def Request.checksFirst : Request → Bool
  | .createDirectory _ | .removeDirectory _ | .rename _ _ | .removeFile _ => true
  | _ => false

variable {request : Request}

/-- A refused request that checks its arguments first has changed nothing. -/
theorem dispatch_refused (hrequest : request.checksFirst = true)
    (hrefused : (s.dispatch request effects).2.isOk = false) :
    (s.dispatch request effects).1 = s := by
  revert hrefused
  cases request with
  | createDirectory path =>
    simp only [Pool.dispatch, Pool.createDirectory]
    repeat' split
    all_goals simp [Except.isOk, Except.toBool]
  | removeDirectory path =>
    simp only [Pool.dispatch, Pool.removeDirectory, Pool.removeDirectoryIn]
    repeat' split
    all_goals simp [Except.isOk, Except.toBool]
  | rename src dst =>
    simp only [Pool.dispatch, Pool.rename, Pool.renameIn]
    repeat' split
    all_goals simp [Except.isOk, Except.toBool]
  | removeFile path =>
    simp only [Pool.dispatch, Pool.removeFile]
    repeat' split
    all_goals simp [Except.isOk, Except.toBool]
  | «open» | close | write | flush | truncate | unlink => cases hrequest

theorem rename_self (s : Pool) (path : Path) : (s.rename path path).1 = s := by
  simp only [Pool.rename, Pool.renameIn]
  repeat' split
  all_goals first | rfl | contradiction

/-- A request that does not rebuild the index leaves the entries as they are. -/
theorem dispatch_entries (h : s.rebuilds request effects (s.dispatch request effects).2 = false) :
    (s.dispatch request effects).1.entries = s.entries := by
  cases request with
  | createDirectory | removeDirectory | removeFile => rw [dispatch_refused rfl h]
  | rename src dst =>
    by_cases heq : src = dst
    · rw [heq, Pool.dispatch, rename_self]
    · rw [dispatch_refused rfl (by simpa [Pool.rebuilds, heq] using h)]
  | «open» path flags => exact openFile_entries h
  | close value =>
    simp only [Pool.dispatch, Pool.closeDescriptor]
    repeat' split
    all_goals first | rfl | exact queueReclaim_entries ..
  | write value offset bytes =>
    simp only [Pool.dispatch, Pool.writeFile]
    repeat' split
    all_goals first | rfl | exact setContents_entries ..
  | flush value =>
    simp only [Pool.dispatch, Pool.flushFile]
    split
    · rfl
    · exact flushRecord_entries ..
  | truncate value size =>
    simp only [Pool.dispatch, Pool.truncateFile]
    split
    · rfl
    · exact setRecordSize_entries ..
  | unlink value =>
    simp only [Pool.rebuilds, Pool.dispatch, Pool.unlinkDescriptor] at h ⊢
    repeat' split
    all_goals first | rfl | simp_all

theorem advanceAt_entries {s : State} (h : s.advanceAt work i ok left = some out) :
    out.1.pool.entries = s.pool.entries := by
  simp only [State.advanceAt] at h
  split at h <;> try cases h
  obtain ⟨⟨t, next, failed⟩, hnext, rfl⟩ := Option.map_eq_some_iff.mp h
  have ht : t.pool.entries = s.pool.entries := by
    simp only [State.advance] at hnext
    split at hnext <;> cases hnext <;> rfl
  cases next <;> exact ht

theorem flushNext_entries (s : State) (r : Nat) (effect : Option Failure) (next : Phase) :
    (s.flushNext r effect next).pool.entries = s.pool.entries := by
  rcases flushNext_pool s r effect next with hreject | ⟨hpool, -⟩
  · rw [hreject]
    rfl
  · rw [hpool, flushRecord_entries]

theorem finish_entries (s : State) (boundary : Boundary) :
    (s.finish boundary).pool.entries = s.pool.entries := by
  simp only [State.finish]
  split <;> rfl

variable {identity : PhysicalIdentity} {name : String}

/-- Outside requests nothing changes the namespace: a sync only moves contents. -/
theorem step_entries {s : State} (ha : ∀ request effects, a ≠ .request request effects)
    (h : step name identity s a = some t) : t.pool.entries = s.pool.entries := by
  simp only [step, State.createBacking] at h
  split at h
  case h_1 => exact absurd rfl (ha _ _)
  case h_3 | h_8 =>
    cases h
    exact flushNext_entries ..
  case h_6 | h_11 =>
    obtain ⟨out, hadvance, rfl⟩ := Option.map_eq_some_iff.mp h
    exact advanceAt_entries hadvance
  case h_9 =>
    split at h <;> cases h
    · rw [State.publish]
      split
      · rfl
      · exact finish_entries ..
    · rfl
  all_goals (repeat' split at h) <;> cases h <;> first | rfl | exact finish_entries ..

/-- Every step keeps the index equal to the children computed from the entries. -/
theorem Indexed.step_ok (s : Indexed) (a : Action) (t : Indexed)
    (h : (Invariant name identity s.state.pool ∧ PhaseOk s.state) ∧
      s.children = rebuildChildren s.state.pool.entries) (hstep : s.step name identity a = some t) :
    (Invariant name identity t.state.pool ∧ PhaseOk t.state) ∧
      t.children = rebuildChildren t.state.pool.entries := by
  obtain ⟨hinv, hindex⟩ := h
  cases a with
  | request request effects =>
    obtain ⟨hidle, ⟨⟩⟩ := Option.ite_none_right_eq_some.mp hstep
    simp only [hindex, dispatchIn_rebuilt]
    refine ⟨OpfsPool.step_ok s.state (.request request effects)
      { s.state with pool := (s.state.pool.dispatch request effects).1 } hinv ?_, ?_⟩
    · simp only [OpfsPool.step, hidle]
    · split
      · rfl
      · rename_i hkeep
        rw [dispatch_entries (Bool.eq_false_iff.mpr hkeep)]
  | sync | flushNext | materialize | start | advance | materialized | publish | settle =>
    obtain ⟨state, hstate, rfl⟩ := Option.map_eq_some_iff.mp hstep
    refine ⟨OpfsPool.step_ok s.state _ state hinv hstate, ?_⟩
    rw [step_entries (fun _ _ heq => by cases heq) hstate]
    exact hindex

/-- In the invariant the entries form a tree, and the rebuilt index lists exactly the
children. -/
theorem Invariant.consistent (h : Invariant name identity s) :
    Consistent s (rebuildChildren s.entries) := by
  have hfile : ∀ {p r}, s.entries.get p = some (.file r) → s.path r = some p :=
    fun hp => (h.names.owner _ _).mp (PathTree.mem_of_get hp)
  have hget : ∀ {p n}, (p, n) ∈ s.entries → s.entries.get p = some n :=
    PathTree.get_of_mem h.names.formed.nodup
  refine ⟨hget h.names.formed.root, ?_, rfl, fun _ _ => hfile, ?_, h.counted.count, ?_⟩
  · intro p n hp hne
    exact hget (h.names.formed.parent p n (PathTree.mem_of_get hp) hne)
  · intro p q r hp hq
    exact Option.some.inj ((hfile hp).symm.trans (hfile hq))
  · intro r hr
    obtain ⟨hpath, hreferences, -⟩ := h.reclaims.free r (List.perm_append_comm.mem_iff.mp hr)
    rw [h.counted.count, List.countP_eq_zero] at hreferences
    refine ⟨?_, fun d hd hrecord => hreferences d hd (decide_eq_true hrecord)⟩
    intro p hp
    cases hpath.symm.trans (hfile hp)

/-- In every state that requests, refused or not, and syncs reach, the namespace, the index
of children, the records and the descriptors fit together. -/
theorem namespace_consistent {name : String} {physicalIdentity : PhysicalIdentity} {disk : Disk}
    {state : PoolState} {spares : List Nat}
    (hopen : Openable name physicalIdentity disk state spares) {as : List Action} {s : Indexed}
    (hrun : run (Indexed.step name physicalIdentity) (Indexed.hydrated disk state spares) as =
      some s) :
    Consistent s.state.pool s.children := by
  have hstart : (Invariant name physicalIdentity (Indexed.hydrated disk state spares).state.pool ∧
      PhaseOk (Indexed.hydrated disk state spares).state) ∧
      (Indexed.hydrated disk state spares).children =
        rebuildChildren (Indexed.hydrated disk state spares).state.pool.entries :=
    ⟨⟨hopen.invariant, trivial⟩, rfl⟩
  have hs := run_invariant (P := fun s => (Invariant name physicalIdentity s.state.pool ∧
    PhaseOk s.state) ∧
      s.children = rebuildChildren s.state.pool.entries) Indexed.step_ok hstart hrun
  rw [hs.2]
  exact hs.1.1.consistent

/-- A run with an open, a removal and two syncs. -/
theorem namespace_consistent_small :
    ∃ s, run (Indexed.step "db" wasixPhysicalIdentity) (Indexed.hydrated smallDisk smallState [1])
      reuseRun = some s ∧ Consistent s.state.pool s.children := by
  have hsome : (run (Indexed.step "db" wasixPhysicalIdentity)
      (Indexed.hydrated smallDisk smallState [1]) reuseRun).isSome = true := by decide +kernel
  obtain ⟨s, hrun⟩ := Option.isSome_iff_exists.mp hsome
  exact ⟨s, hrun, namespace_consistent smallDisk_openable hrun⟩

end Oliphaunt.OpfsPool
