import Oliphaunt.Rust.WasixOwner

/-!
# Oliphaunt — the WASIX Rust callback transaction and its interleavings

`AsyncOliphaunt::transaction` with `begin_transaction`, `AsyncTransaction::finish`,
`settle` and `Drop`, together with the owner thread, as one transition function.
A step is the code between two awaits of one task, or one half of the handling
of a message: `receive` takes it off the queue and looks at its receiver,
`execute` does the rest. A future may be dropped between any two steps.

Plain commands and statements are admitted in one step. A statement checks
`ensure_active` before it waits for a permit and not again when it enters the
queue, so the guard may have failed by then; admission does not look at it.
-/

namespace Oliphaunt.Wasix

/-- `ensure_open`, a free permit and the close cutoff of `enqueue_ordinary`. -/
def State.admits (s : State) (epoch : Nat) : Prop :=
  s.state = .opened ∧ s.ownerAlive = true ∧ epoch = s.closeEpoch ∧
    s.queue.countP OwnerMessage.isOrdinary < ownerQueueCapacity

instance (s : State) (epoch : Nat) : Decidable (s.admits epoch) :=
  inferInstanceAs (Decidable (_ ∧ _ ∧ _ ∧ _))

/-- `enqueue_ordinary` gives up: the owner is not open, or a close came between. -/
def State.refuses (s : State) (epoch : Nat) : Prop :=
  s.state ≠ .opened ∨ s.ownerAlive = false ∨ epoch ≠ s.closeEpoch

instance (s : State) (epoch : Nat) : Decidable (s.refuses epoch) :=
  inferInstanceAs (Decidable (_ ∨ _ ∨ _))

/-- `enqueue_control` fails only once the receiving end is gone. -/
def State.enqueueControl (s : State) (message : OwnerMessage) : State :=
  if s.ownerAlive then s.push message else s

def ownerStopped : Error := .lifecycle "WASIX database owner has stopped"

/-- `Drop for AsyncTransaction`. -/
def dropTransaction (s : State) (client token : Nat) : State :=
  let guard := s.guards client
  if guard.settlementStarted ∧ ¬ guard.settlementObserved then
    s.enqueueControl (.finishAbandoned token client)
  else
    match guard.state with
    | .active =>
      (s.setGuard client { guard with state := .finishing }).enqueueControl
        (.rollbackBestEffort token client)
    | .failed => s.enqueueControl (.abandonFailed token none)
    | _ => s

/-- The `transaction()` future ends, returned or dropped, with its handle. -/
def endTransaction (s : State) (client token : Nat) : State :=
  (dropTransaction s client token).setClient client .gone

/-- `begin_transaction` up to its first await. -/
def startTransaction (s : State) (client : Nat) : State :=
  { s.setClient client (.waiting s.nextTransaction s.closeEpoch) with
    nextTransaction := s.nextTransaction + 1 }

def admitBegin (s : State) (client token epoch : Nat) : Option State :=
  if s.refuses epoch then some (s.setClient client .gone)
  else if s.admits epoch then
    some ((s.setClient client (.beginning token .empty)).push (.begin token client))
  else none

/-- The poll that takes the reply of `Begin`. -/
def observeBegin (s : State) (client token : Nat) : Slot (Except Error Unit) → Option State
  | .empty => none
  | .sent (.ok ()) => some ((s.setGuard client .active).setClient client (.body token))
  | .sent (.error _) | .closed => some (s.setClient client .gone)

/-- The claim of `finish`: the exchange of the state and `settlement_started`. -/
def TransactionOutcomeGuard.claim (g : TransactionOutcomeGuard) : TransactionOutcomeGuard :=
  { g with state := .finishing, settlementStarted := true }

def TransactionOutcomeGuard.observed (g : TransactionOutcomeGuard) : TransactionOutcomeGuard :=
  { g with settlementObserved := true }

/-- `finish` on a guard whose state is active, up to the await of its outcome. -/
def startFinish (s : State) (client token : Nat) (commit settling : Bool) : State :=
  let guard := (s.guards client).claim
  if s.ownerAlive then
    ((s.setGuard client guard).setClient client (.finishing token settling .empty)).push
      (.finish token client commit)
  else
    let failed := s.setGuard client (guard.observed.retainFailure ownerStopped false)
    if settling then endTransaction failed client token else failed

/-- What `finish` keeps of the outcome of its `Finish`. -/
def TransactionOutcomeGuard.observeFinish (g : TransactionOutcomeGuard) (ownerAlive : Bool)
    (reply : Option TransactionFinishOutcome) : TransactionOutcomeGuard :=
  match reply with
  | none =>
    g.observed.retainFailure
      (.lifecycle "WASIX database owner stopped while settling a transaction") false
  | some outcome =>
    -- the acknowledgement cannot be queued any more
    if ¬ ownerAlive then g.observed.retainFailure ownerStopped false
    else
      match outcome with
      | .attempted _ => g.observed
      | .notAttempted error => g.observed.retainFailure error false

/-- The poll that takes the outcome of `Finish` and acknowledges it. -/
def observeFinish (s : State) (client token : Nat) (settling : Bool)
    (reply : Option TransactionFinishOutcome) : State :=
  let seen := s.setGuard client ((s.guards client).observeFinish s.ownerAlive reply)
  let acknowledged := if reply.isSome then seen.enqueueControl (.finishObserved token) else seen
  if settling then endTransaction acknowledged client token
  else acknowledged.setClient client (.body token)

def takeFinish (s : State) (client token : Nat) (settling : Bool) :
    Slot TransactionFinishOutcome → Option State
  | .empty => none
  | .closed => some (observeFinish s client token settling none)
  | .sent outcome => some (observeFinish s client token settling (some outcome))

/-- `settle` up to its first await. -/
def settle (s : State) (client token : Nat) (callbackOk : Bool) : State :=
  match (s.guards client).state with
  | .active => startFinish s client token callbackOk true
  | .failed =>
    if s.ownerAlive then
      (s.setClient client (.retiring token .empty)).push (.abandonFailed token (some client))
    else endTransaction s client token
  | _ => endTransaction s client token

inductive Action where
  -- AsyncOliphaunt::transaction
  | start (client : Nat)
  | admitBegin (client : Nat)
  | pollBegin (client : Nat)
  | statement (client : Nat) (operation : String)
  | rollback (client : Nat)
  /-- the future of `rollback()` is dropped inside the callback -/
  | cancelRollback (client : Nat)
  | pollFinish (client : Nat)
  | callback (client : Nat) (ok : Bool)
  | pollRetired (client : Nat)
  /-- the future of `transaction()` is dropped -/
  | drop (client : Nat)
  -- other handles
  | submit (work : Work)
  | dropOperation (op : Nat)
  | close
  /-- the last handle is dropped -/
  | shutdown
  -- the owner thread
  | receive
  | execute (engine : Engine)

/-- One command enters the queue with a new reply channel. -/
def State.submit (s : State) (message : Nat → OwnerMessage) : Option State :=
  if s.admits s.closeEpoch then
    some (State.push { s with
      receivers := Function.update s.receivers s.nextOp true
      nextOp := s.nextOp + 1 } (message s.nextOp))
  else none

/-- `queue.recv()` and the look at the reply's receiver. -/
def ownerReceive (s : State) : Option State :=
  match s.ownerAlive, s.current, s.queue with
  | true, none, message :: rest =>
    let popped : State := { s with queue := rest }
    if s.isAbandoned message then
      match message with
      | .finish token client _ => some (abandonUnobservedFinish popped token client)
      | _ => some popped
    else some { popped with current := some message }
  | _, _, _ => none

def ownerExecute (s : State) (e : Engine) : Option State :=
  match s.ownerAlive, s.current with
  | true, some message =>
    if e.Honest then some (handleMessage { s with current := none } e message) else none
  | _, _ => none

def step (s : State) : Action → Option State
  | .start c => if s.clients c = .unused ∧ s.state = .opened then some (startTransaction s c)
      else none
  | .admitBegin c =>
    match s.clients c with
    | .waiting token epoch => admitBegin s c token epoch
    | _ => none
  | .pollBegin c =>
    match s.clients c with
    | .beginning token reply => observeBegin s c token reply
    | _ => none
  | .statement c operation =>
    match s.clients c with
    | .body token => s.submit fun op => .statement token c op operation
    | _ => none
  | .rollback c =>
    match s.clients c with
    | .body token =>
      if (s.guards c).state = .active then some (startFinish s c token false false) else none
    | _ => none
  | .cancelRollback c =>
    match s.clients c with
    | .finishing token false _ => some (s.setClient c (.body token))
    | _ => none
  | .pollFinish c =>
    match s.clients c with
    | .finishing token settling reply => takeFinish s c token settling reply
    | _ => none
  | .callback c ok =>
    match s.clients c with
    | .body token => some (settle s c token ok)
    | _ => none
  | .pollRetired c =>
    match s.clients c with
    | .retiring _ .empty => none
    | .retiring token _ => some (endTransaction s c token)
    | _ => none
  | .drop c =>
    match s.clients c with
    | .waiting _ _ | .beginning _ _ => some (s.setClient c .gone)
    | .body token | .finishing token _ _ | .retiring token _ => some (endTransaction s c token)
    | _ => none
  | .submit work => s.submit fun op => .command op work
  | .dropOperation op => some { s with receivers := Function.update s.receivers op false }
  | .close =>
    if s.state = .opened ∧ s.ownerAlive then
      some (State.push { s with state := .closing, closeEpoch := s.closeEpoch + 1 } .close)
    else none
  | .shutdown => if s.ownerAlive then some (s.push .shutdown) else none
  | .receive => ownerReceive s
  | .execute e => ownerExecute s e

end Oliphaunt.Wasix
