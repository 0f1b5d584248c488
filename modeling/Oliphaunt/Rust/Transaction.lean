import Oliphaunt.Model.Transition
import Oliphaunt.Rust.Executor

/-!
# Oliphaunt — callback transactions of the native Rust SDK

`native/sdks/rust/src/database.rs`: `AsyncOliphaunt::transaction` sends `Begin`,
runs the callback, and settles with `COMMIT` or `ROLLBACK` followed by a release
of the pin. Every one of these futures may be dropped while it awaits; what the
drop still does is decided by `Drop for AsyncTransaction` and `Drop for
SessionPin`.

The system `step` interleaves these futures with the owner thread, with plain
work on the same handle, with `close()` and with the final drop of the handle.
Which of several senders waiting for capacity is admitted next is left open.
-/

namespace Oliphaunt.Rust

def State.ordinaryCount (s : State) : Nat := (s.queue.filter Command.isOrdinary).length

/-- Why `send` refuses an ordinary command, if it does. -/
def State.sendRefusal (s : State) : Option Error :=
  if s.closed ∨ s.closing then some (s.unsubmittedError .engineStopped)
  else if s.transactionPoisoned then
    some (s.unsubmittedError (.engine sessionStateUnknown))
  else none

def State.push (s : State) (command : Command) : State :=
  { s with queue := s.queue ++ [command] }

/-- `send_transaction_settlement` and `send_cleanup` admit until teardown. -/
def State.admitsControl (s : State) : Bool := !(s.closed || s.teardownStarted)

/-- The best-effort controls of the drop handlers. -/
def State.sendCleanup (s : State) (command : Command) : State :=
  if s.admitsControl then s.push command else s

def State.setGuardState (s : State) (c : Nat) (state : GuardState) : State :=
  s.setGuard c { s.guards c with state := state }

/-- The end of `commit` and of `finish_explicit_rollback` once the release is
known. -/
def State.finishRelease (s : State) (c : Nat) (release : Except Error Unit) : State :=
  let settled := match release with
    | .ok () => s
    | .error _ => s.poison
  (settled.setGuardState c .released).setClient c .gone

/-- `SessionPin::release` up to its await. -/
def State.startRelease (s : State) (c token : Nat) : State :=
  if s.admitsControl then
    (s.push (.releasePin token (some c))).setClient c (.release token none)
  else s.finishRelease c (.error .engineStopped)

/-- `finish_explicit_rollback` up to the release. -/
def State.finishExplicitRollback (s : State) (c token : Nat) : State :=
  let marked := if (s.guards c).state = .finishing then s.poison else s
  let taken := marked.setGuard c { marked.guards c with terminalError := none }
  taken.startRelease c token

/-- What `rollback()` does with the reply to its `ROLLBACK`. -/
def State.observeRollback (s : State) (c : Nat) (reply : Except Error Response) : State :=
  match reply with
  | .error error => s.poison.setGuard c ((s.guards c).failRollback error)
  | .ok response =>
    match response.parseCommand with
    | .error message =>
      s.poison.setGuard c ((s.guards c).failRollback (.response message))
    | .ok result =>
      if result.commandTag ≠ some "ROLLBACK" then
        s.poison.setGuard c ((s.guards c).failRollback (.engine
          ("PostgreSQL transaction command expected ROLLBACK, got " ++
            result.commandTag.getD "no command tag")))
      else if result.readyStatus ≠ .idle then
        s.poison.setGuard c ((s.guards c).failRollback (.engine
          ("PostgreSQL transaction command ROLLBACK returned unexpected ReadyForQuery state " ++
            readyStatusDebug result.readyStatus)))
      else s.setGuardState c .rolledBack

/-- After `rollback()` returns: back in the callback, or on to
`finish_explicit_rollback`. -/
def State.afterRollback (s : State) (c token : Nat) (settling : Bool) : State :=
  if settling then s.finishExplicitRollback c token else s.setClient c (.body token)

/-- `AsyncTransaction::rollback` up to its await; the guard is active. -/
def State.startRollback (s : State) (c token : Nat) (settling : Bool) : State :=
  let claimed := s.setGuardState c .finishing
  if s.admitsControl then
    (claimed.push (.pinnedExec token c .rollback)).setClient c (.rollback token settling none)
  else (claimed.observeRollback c (.error .engineStopped)).afterRollback c token settling

/-- The part of `commit` after its `COMMIT`: everything but a proven `COMMIT`
and PostgreSQL's own `ROLLBACK` leaves the outcome unknown. -/
def State.observeCommit (s : State) (c token : Nat) (reply : Except Error Response) : State :=
  let known := match reply with
    | .error _ => false
    | .ok response =>
      decide (response.Completes "COMMIT" .idle) || decide (response.Completes "ROLLBACK" .idle)
  let marked := if known then s else s.poison
  (marked.setGuardState c .released).startRelease c token

/-- `AsyncTransaction::commit` up to its await; the guard is active. -/
def State.startCommit (s : State) (c token : Nat) : State :=
  let claimed := s.setGuardState c .finishing
  if s.admitsControl then
    (claimed.push (.pinnedExec token c .commit)).setClient c (.commit token none)
  else claimed.observeCommit c token (.error .engineStopped)

/-- `Drop for AsyncTransaction` while it still has its pin. -/
def State.dropTransaction (s : State) (c token : Nat) : State :=
  let swapped := (s.setGuardState c .released).setClient c .gone
  match (s.guards c).state with
  | .active => swapped.sendCleanup (.rollbackAndReleasePin token)
  -- a COMMIT or ROLLBACK is already admitted: its outcome is unknown
  | .finishing => swapped.poison.sendCleanup (.releasePin token none)
  | _ => swapped.sendCleanup (.releasePin token none)

/-- Plain work on the database handle. -/
inductive Work where
  | exec
  | structuredExec (operation : String)
  | stream
  | backup
  | backupTo
deriving DecidableEq, Repr

def Work.command (op : Nat) : Work → Command
  | .exec => .exec op
  | .structuredExec operation => .structuredExec op operation
  | .stream => .stream op
  | .backup => .backup op
  | .backupTo => .backupTo op

inductive Action where
  /-- the owner takes the next command and looks whether it is abandoned -/
  | receive
  /-- the owner runs `execute_command`; the engine answers as given -/
  | execute (e : Engine)
  /-- a poll of `send` for plain work, with its cancellation request if any -/
  | submit (work : Work) (cancellation : Option Nat)
  /-- the future of a plain operation or of a statement is dropped -/
  | dropOp (op : Nat)
  | cancel (request : Nat)
  | close
  /-- the last handle is dropped -/
  | dropHandle
  /-- `transaction()` is polled for the first time -/
  | transaction (c : Nat)
  /-- a poll of `send(Command::Begin)` -/
  | pollSend (c : Nat)
  | pollBegin (c : Nat)
  /-- the callback polls a statement of its handle -/
  | statement (c : Nat) (operation : String)
  /-- the callback calls `rollback()` -/
  | rollback (c : Nat)
  | pollRollback (c : Nat)
  /-- the callback drops its `rollback()` future and goes on -/
  | abandonRollback (c : Nat)
  /-- the callback returns -/
  | finishBody (c : Nat) (succeeded : Bool)
  /-- the settlement claims the guard -/
  | settle (c : Nat)
  | pollCommit (c : Nat)
  | pollRelease (c : Nat)
  /-- the `transaction()` future is dropped -/
  | drop (c : Nat)

/-- `queue.receive` and the abandonment check of `owner_thread`. -/
def ownerReceive (s : State) : Option State :=
  match s.current, s.queue with
  | none, command :: rest =>
    let received := { s with queue := rest }
    some (if s.isAbandoned command then received else { received with current := some command })
  | _, _ => none

/-- `execute_command` on the command that was received. -/
def ownerExecute (s : State) (e : Engine) : Option State :=
  match s.current with
  | none => none
  | some command =>
    if e.Honest then some (executeCommand { s with current := none } e command).1 else none

def submitWork (s : State) (work : Work) (cancellation : Option Nat) : Option State :=
  if s.sendRefusal.isSome ∨ ordinaryQueueCapacity ≤ s.ordinaryCount then none
  else
    let command := work.command s.nextOp
    let wrapped := match cancellation with
      | none => command
      | some request => .cancellable command request
    some { s.push wrapped with
      receivers := Function.update s.receivers s.nextOp true
      nextOp := s.nextOp + 1 }

/-- `EngineExecutor::close`: the first caller sets the cutoff and queues `Close`. -/
def closeDatabase (s : State) : State :=
  if s.closed ∨ s.closeInProgress then s
  else { s.push .close with closeInProgress := true, closing := true }

/-- `Drop for EngineExecutor`. -/
def dropExecutor (s : State) : State :=
  if s.closed then s else { s with terminalDrop := true }.scheduleTerminalDropClose

/-- A poll of `send(Command::Begin)`. -/
def pollSendBegin (s : State) (c : Nat) : Option State :=
  if s.clients c ≠ .sending then none
  else if s.sendRefusal.isSome then some (s.setClient c .gone)
  else if ordinaryQueueCapacity ≤ s.ordinaryCount then none
  else some ((s.push (.begin c)).setClient c (.beginning none))

/-- A poll of the `Begin` reply: the token becomes an `AsyncTransaction`. -/
def pollBeginReply (s : State) (c : Nat) : Option State :=
  match s.clients c with
  | .beginning (some (.ok token)) => some ((s.setGuard c .active).setClient c (.body token))
  | .beginning (some (.error _)) => some (s.setClient c .gone)
  | _ => none

/-- A statement of the callback: `ensure_active`, then an ordinary command. -/
def pollStatement (s : State) (c : Nat) (operation : String) : Option State :=
  match s.clients c with
  | .body token =>
    if (s.guards c).state ≠ .active then none
    else if s.sendRefusal.isSome ∨ ordinaryQueueCapacity ≤ s.ordinaryCount then none
    else some { s.push (.pinnedStructuredExec token c s.nextOp operation) with
      receivers := Function.update s.receivers s.nextOp true
      nextOp := s.nextOp + 1 }
  | _ => none

/-- The callback returns: an inactive guard goes to `finish_explicit_rollback`. -/
def returnBody (s : State) (c : Nat) (succeeded : Bool) : Option State :=
  match s.clients c with
  | .body token =>
    if (s.guards c).state = .active then some (s.setClient c (.settle token succeeded))
    else some (s.finishExplicitRollback c token)
  | _ => none

/-- `commit` or `rollback_and_release` up to the first await. A guard that
failed since the callback returned makes `commit` return at once. -/
def settleBody (s : State) (c : Nat) : Option State :=
  match s.clients c with
  | .settle token true =>
    if (s.guards c).state = .active then some (s.startCommit c token)
    else some (s.dropTransaction c token)
  | .settle token false =>
    if (s.guards c).state = .active then some (s.startRollback c token true)
    else some (s.finishExplicitRollback c token)
  | _ => none

/-- The `transaction()` future is dropped where it stands. -/
def dropFuture (s : State) (c : Nat) : Option State :=
  match s.clients c with
  | .unused | .gone => none
  | .sending | .beginning _ => some (s.setClient c .gone)
  | .body token | .settle token _ | .rollback token _ _ | .commit token _ =>
    some (s.dropTransaction c token)
  -- only the `SessionPin` inside `release` is left
  | .release token _ =>
    some (((s.setGuardState c .released).setClient c .gone).sendCleanup (.releasePin token none))

def step (s : State) : Action → Option State
  | .receive => ownerReceive s
  | .execute e => ownerExecute s e
  | .submit work cancellation => submitWork s work cancellation
  | .dropOp op => some { s with receivers := Function.update s.receivers op false }
  | .cancel request => some { s with cancelled := Function.update s.cancelled request true }
  | .close => some (closeDatabase s)
  | .dropHandle => some (dropExecutor s)
  | .transaction c => if s.clients c = .unused then some (s.setClient c .sending) else none
  | .pollSend c => pollSendBegin s c
  | .pollBegin c => pollBeginReply s c
  | .statement c operation => pollStatement s c operation
  | .rollback c =>
    match s.clients c with
    | .body token =>
      if (s.guards c).state = .active then some (s.startRollback c token false) else none
    | _ => none
  | .pollRollback c =>
    match s.clients c with
    | .rollback token settling (some reply) =>
      some ((s.observeRollback c reply).afterRollback c token settling)
    | _ => none
  | .abandonRollback c =>
    match s.clients c with
    | .rollback token false _ => some (s.setClient c (.body token))
    | _ => none
  | .finishBody c succeeded => returnBody s c succeeded
  | .settle c => settleBody s c
  | .pollCommit c =>
    match s.clients c with
    | .commit token (some reply) => some (s.observeCommit c token reply)
    | _ => none
  | .pollRelease c =>
    match s.clients c with
    | .release _ (some reply) => some (s.finishRelease c reply)
    | _ => none
  | .drop c => dropFuture s c

end Oliphaunt.Rust
