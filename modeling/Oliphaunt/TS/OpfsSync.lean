import Oliphaunt.Model.Transition
import Oliphaunt.TS.OpfsRequests

/-!
# Syncs of the OPFS pool, one storage effect at a time

`step` interleaves requests with `DirectOpfsPool.sync`. A sync goes through phases:
it flushes the dirty records, gives every staged file a backing, writes `state.json`
if the namespace is dirty, releases the reclaimed backings, and makes new spares. Each
step of it is one storage effect, so that a crash point is a state; requests are
answered only while no sync runs.

Backings are created by up to `maxParallelIo` workers, which advance in any order. The
orders that the source gets from `localeCompare` are left to the labels: a flush queue
is any order of the dirty records in which `postgresRank` does not decrease.

`started` and `events` record, for the sync that runs or ran last, the records that
were dirty at its start and its writes and flushes; `outcome` is how it ended.
-/

namespace Oliphaunt.OpfsPool

open FileTree

def preopenedFileReserve : Nat := 32

/-- `path.startsWith('pg_wal/')` -/
def isWalPath : Path → Bool
  | "pg_wal" :: _ :: _ => true
  | _ => false

/-- `postgresRank(record.path ?? '')` -/
def postgresRank : Option Path → Nat
  | none => 1
  | some path => if isWalPath path then 0 else if path = controlPath then 2 else 1

def Pool.isWalRecord (s : Pool) (r : Nat) : Bool := (s.path r).any isWalPath

/-- The records of a list in an order of `compareFlushOrder`. -/
def Pool.FlushOrder (s : Pool) (records queue : List Nat) : Prop :=
  queue.Perm records ∧ queue.Pairwise fun r r' => postgresRank (s.path r) ≤ postgresRank (s.path r')

instance (s : Pool) (records queue : List Nat) : Decidable (s.FlushOrder records queue) :=
  inferInstanceAs (Decidable (_ ∧ _))

/-- The records that `#materializeStagedFiles` gives a backing. -/
def Pool.stagedFiles (s : Pool) : List Nat :=
  (List.range s.nextRecord).filter fun r => (s.staged r).isSome && (s.path r).isSome

/-! ## The state of a sync -/

inductive Boundary where
  | operation
  | full
  | close
deriving DecidableEq, Repr

/-- The records that a sync flushes first: those of `#flushWal` or of `#flushAll`. -/
def Pool.SyncQueue (s : Pool) : Boundary → List Nat → Prop
  | .operation, queue => queue = s.dirty.filter s.isWalRecord
  | .full, queue | .close, queue => s.FlushOrder s.dirty queue

instance (s : Pool) : ∀ boundary queue, Decidable (s.SyncQueue boundary queue)
  | .operation, queue => inferInstanceAs (Decidable (queue = s.dirty.filter s.isWalRecord))
  | .full, queue | .close, queue => inferInstanceAs (Decidable (s.FlushOrder s.dirty queue))

inductive WorkStage where
  | opening
  | writing
  | flushing
  | discarding
deriving DecidableEq, Repr

/-- A worker of `#materializeStagedFiles`, or of `#maintainSpares` when it has no record,
with the backing it has created. -/
structure Worker where
  record : Option Nat
  backing : Nat
  stage : WorkStage
deriving DecidableEq, Repr

inductive Phase where
  | idle
  | flushing (boundary : Boundary) (queue : List Nat)
  | materializing (boundary : Boundary) (todo : List Nat) (work : List Worker) (failed : Bool)
  | publishing (boundary : Boundary) (queue : List Nat)
  | sparing (missing : Nat) (work : List Worker) (failed : Bool)
deriving DecidableEq, Repr

inductive Effect where
  | written
  | flushed
deriving DecidableEq, Repr

/-- A storage effect on the file of a record, with the path it had. -/
structure Event where
  record : Nat
  path : Option Path
  effect : Effect
deriving DecidableEq, Repr

structure State where
  pool : Pool
  phase : Phase
  started : Option (Boundary × List Nat)
  events : List Event
  outcome : Option Bool

inductive Action where
  | request (request : Request) (effects : Effects)
  | sync (boundary : Boundary) (queue : List Nat)
  | flushNext (effect : Option Failure)
  /-- the flushes are done, the staged files are taken up in this order -/
  | materialize (todo : List Nat)
  /-- a worker creates the next backing, or fails to -/
  | start (ok : Bool)
  /-- the next effect of a worker; a failed write leaves these bytes -/
  | advance (worker : Nat) (ok : Bool) (left : Contents)
  /-- the workers are done; the flush order before a publication -/
  | materialized (queue : List Nat)
  | publish (ok : Bool)
  | settle
deriving DecidableEq, Repr

namespace Pool

def publishReclaims (s : Pool) : Pool :=
  { s with
    dirty := s.dirty.filter (· ∉ s.pendingReclaims)
    spares := s.spares ++ s.pendingReclaims
    pendingReclaims := [] }

/-- `writePoolState` has closed the state file. -/
def publish (s : Pool) (state : PoolState) : Pool :=
  { s with
    disk := { s.disk with state := .content state }
    namespaceDirty := false
    initializationComplete := state.phase = .ready
    published := s.entries
    publishedGeneration := s.generation
    history := fun r => (s.contents r).toList }

/-- The staged file of a record has reached its backing. -/
def materialize (s : Pool) (r b : Nat) : Pool :=
  { s with
    disk := s.disk.flush b
    backing := Function.update s.backing r (some b)
    staged := Function.update s.staged r none }.clearDirty r

def addSpare (s : Pool) (b : Nat) : Pool :=
  { s with
    backing := Function.update s.backing s.nextRecord (some b)
    spares := s.spares ++ [s.nextRecord]
    nextRecord := s.nextRecord + 1 }

end Pool

namespace State

/-- The sync rejects. -/
def reject (s : State) : State := { s with phase := .idle, outcome := some false }

def event (s : State) (r : Nat) (effect : Effect) : State :=
  { s with events := s.events ++ [⟨r, s.pool.path r, effect⟩] }

/-- `#flushRecord` for the head of a queue. -/
def flushNext (s : State) (r : Nat) (effect : Option Failure) (next : Phase) : State :=
  let flushes := r ∈ s.pool.dirty ∧ s.pool.staged r = none
  match s.pool.flushRecord r effect with
  | (pool, .ok ()) =>
    let s := if flushes then s.event r .flushed else s
    { s with pool := pool, phase := next }
  | (_, .error _) => s.reject

/-- `#createBacking`, with the worker for it. -/
def createBacking (s : State) (record : Option Nat) : State × Worker :=
  ({ s with pool := { s.pool with disk := s.pool.disk.create } },
    ⟨record, s.pool.disk.next, .opening⟩)

/-- The next effect of a worker: what is left of it, and whether its operation failed. -/
def advance (s : State) (w : Worker) (ok : Bool) (left : Contents) :
    Option (State × Option Worker × Bool) :=
  match w.stage, w.record, ok with
  | .opening, some _, true => some (s, some { w with stage := .writing }, false)
  | .opening, none, true => some ({ s with pool := s.pool.addSpare w.backing }, none, false)
  | .writing, some r, true =>
    let bytes := (s.pool.staged r).getD []
    let s := { s with pool := { s.pool with disk := s.pool.disk.write w.backing bytes } }
    some (s.event r .written, some { w with stage := .flushing }, false)
  | .writing, some _, false =>
    let s := { s with pool := { s.pool with disk := s.pool.disk.write w.backing left } }
    some (s, some { w with stage := .discarding }, false)
  | .flushing, some r, true =>
    let s := s.event r .flushed
    some ({ s with pool := s.pool.materialize r w.backing }, none, false)
  | .opening, _, false | .flushing, some _, false =>
    some (s, some { w with stage := .discarding }, false)
  | .discarding, _, true =>
    some ({ s with pool := { s.pool with disk := s.pool.disk.remove w.backing } }, none, true)
  | .discarding, _, false => some (s, none, true)
  | _, none, _ => none

/-- One worker of a list advances; the new list, and whether an operation failed. -/
def advanceAt (s : State) (work : List Worker) (i : Nat) (ok : Bool) (left : Contents) :
    Option (State × List Worker × Bool) :=
  match work[i]? with
  | none => none
  | some w =>
    (s.advance w ok left).map fun (s, next, failed) =>
      match next with
      | none => (s, work.eraseIdx i, failed)
      | some w => (s, work.set i w, failed)

/-- The end of a sync that has published, or had nothing to publish. -/
def finish (s : State) (boundary : Boundary) : State :=
  let s := { s with pool := s.pool.publishReclaims }
  if boundary = .close then { s with phase := .idle, outcome := some true }
  else { s with phase := .sparing (preopenedFileReserve - s.pool.spares.length) [] false }

def completesInitialization (s : State) (boundary : Boundary) : Bool :=
  !s.pool.initializationComplete && boundary = .full

/-- The phase that `serializePoolState` is given. -/
def nextPhase (s : State) (boundary : Boundary) : PoolPhase :=
  if s.pool.initializationComplete || s.completesInitialization boundary then .ready
  else .initializing

end State

section Step

variable (name : String) (physicalIdentity : PhysicalIdentity)

def State.publish (s : State) (boundary : Boundary) : State :=
  match serializeEntries s.pool.backing s.pool.entries with
  | none => s.reject
  | some entries =>
    let state : PoolState := ⟨name, s.nextPhase boundary, physicalIdentity, entries⟩
    { s with pool := s.pool.publish state }.finish boundary

def step (s : State) (a : Action) : Option State :=
  match s.phase, a with
  | .idle, .request request effects =>
    some { s with pool := (s.pool.dispatch request effects).1 }
  | .idle, .sync boundary queue =>
    if s.pool.SyncQueue boundary queue then
      some { s with
        phase := .flushing boundary queue
        started := some (boundary, s.pool.dirty)
        events := []
        outcome := none }
    else none
  | .flushing boundary (r :: queue), .flushNext effect =>
    some (s.flushNext r effect (.flushing boundary queue))
  | .flushing boundary [], .materialize todo =>
    if s.pool.FlushOrder s.pool.stagedFiles todo then
      some { s with phase := .materializing boundary todo [] false }
    else none
  | .materializing boundary (r :: todo) work false, .start ok =>
    if maxParallelIo ≤ work.length then none
    else if ok then
      let (s, w) := s.createBacking (some r)
      some { s with phase := .materializing boundary todo (work ++ [w]) false }
    else some { s with phase := .materializing boundary todo work true }
  | .materializing boundary todo work failed, .advance i ok left =>
    (s.advanceAt work i ok left).map fun (s, work, failed') =>
      { s with phase := .materializing boundary todo work (failed || failed') }
  | .materializing boundary todo [] failed, .materialized queue =>
    if failed then some s.reject
    else if todo ≠ [] then none
    else if s.pool.namespaceDirty || s.completesInitialization boundary then
      if s.pool.FlushOrder s.pool.dirty queue then
        some { s with phase := .publishing boundary queue }
      else none
    else some (s.finish boundary)
  | .publishing boundary (r :: queue), .flushNext effect =>
    some (s.flushNext r effect (.publishing boundary queue))
  | .publishing boundary [], .publish ok =>
    if ok then some (s.publish name physicalIdentity boundary) else some s.reject
  | .sparing (missing + 1) work false, .start ok =>
    if maxParallelIo ≤ work.length then none
    else if ok then
      let (s, w) := s.createBacking none
      some { s with phase := .sparing missing (work ++ [w]) false }
    else some { s with phase := .sparing missing work true }
  | .sparing missing work failed, .advance i ok left =>
    (s.advanceAt work i ok left).map fun (s, work, failed') =>
      { s with phase := .sparing missing work (failed || failed') }
  | .sparing missing [] failed, .settle =>
    if missing = 0 ∨ failed then some { s with phase := .idle, outcome := some true } else none
  | _, _ => none

end Step

/-! ## The pool after an open -/

/-- `#hydrate` and `#restoreSpares`: a record for every file of the state and for every
spare, numbered like its backing. The volatile files that the open then removes are
removed by requests. -/
def hydrated (disk : Disk) (state : PoolState) (spares : List Nat) : State where
  pool := {
    entries := ([], .directory) :: state.entries
    path := fun r => (state.entries.find? fun e => e.2 = .file r).map Prod.fst
    backing := fun r => if r ∈ backings state.entries ++ spares then some r else none
    staged := fun _ => none
    references := fun _ => 0
    nextRecord := disk.next
    dirty := []
    spares := spares
    pendingReclaims := []
    descriptors := []
    nextDescriptor := 1
    namespaceDirty := false
    initializationComplete := state.phase = .ready
    disk := disk
    generation := fun _ => 0
    published := ([], .directory) :: state.entries
    publishedGeneration := fun _ => 0
    history := fun r => (disk.read r).toList }
  phase := .idle
  started := none
  events := []
  outcome := none

end Oliphaunt.OpfsPool
