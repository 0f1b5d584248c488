import Mathlib.Logic.Function.Basic
import Oliphaunt.Model.Postgres
import Oliphaunt.Model.Transition

/-!
# Oliphaunt — the WASIX Rust database owner

`wasix/sdks/rust/src/async_api.rs` over `oliphaunt/client.rs`: one owner thread
runs the direct client and drains a queue of commands and controls; callback
transactions live in the tasks of their callers. Ownership of the session is
handed over through one-shot replies. For the settlement of a transaction the
caller acknowledges its reply (`FinishObserved`, or `FinishAbandoned` from the
drop); for `Begin` there is no acknowledgement.

One message is one owner step after its receiver was looked at
(`reply.is_closed()`), and what PostgreSQL answers is chosen by the environment.
Raw streams, backups and tools run through `Direct.other`, which may end with
any of the flags they can set. Panics of the owner are outside the model.
-/

namespace Oliphaunt.Wasix

inductive Error where
  | lifecycle (message : String)
  | transactionActive (message : String)
  | postgres (message : String)
  | message (message : String)
deriving DecidableEq, Repr

/-- On whose behalf the open transaction block was started. -/
inductive BlockOwner where
  | transaction (token : Nat)
  | other
deriving DecidableEq, Repr

/-- What the direct client knows of its session, and PostgreSQL's block. -/
structure Direct where
  inTransaction : Bool
  transactionOutcomeUnknown : Bool
  backupModeExitUnconfirmed : Bool
  closed : Bool
  block : Option BlockOwner

def Direct.checkReady (d : Direct) : Option Error :=
  if d.closed then some (.lifecycle "Oliphaunt is closed")
  else if d.transactionOutcomeUnknown then
    some (.message "Oliphaunt PostgreSQL session state is unknown; close and reopen it")
  else if d.backupModeExitUnconfirmed then
    some (.message "Oliphaunt backup-mode exit is unconfirmed; close and reopen it")
  else none

def Direct.unknown (d : Direct) : Direct := { d with transactionOutcomeUnknown := true }

/-- `backend.send_buffered` on behalf of `who`: a block that stays open keeps its
owner. -/
def Direct.exchange (d : Direct) (who : BlockOwner) (inBlock : Bool) : Direct :=
  { d with block := if inBlock then some (d.block.getD who) else none }

/-- `BEGIN` for a transaction: whatever block is open afterwards is its own. -/
def Direct.exchangeBegin (d : Direct) (token : Nat) (inBlock : Bool) : Direct :=
  { d with block := if inBlock then some (.transaction token) else none }

/-- A parser failure of a one-command response. -/
def parseError (r : Response) (message : String) : Error :=
  if r.postgresError then .postgres message else .message message

/-- `transaction_command_inner` once the request was sent: a failure leaves the
session known only at an idle boundary. -/
def Direct.transactionResponse (d : Direct) (sql : String) (result : Except Error Response) :
    Direct × Except Error CommandResult :=
  match result with
  | .error error => (d.unknown, .error error)
  | .ok response =>
    match response.ready with
    | .error message =>
      (d.unknown, .error (.message (sql ++ " returned an invalid readiness boundary: " ++ message)))
    | .ok ready =>
      match response.parseCommand with
      | .ok command => (d, .ok command)
      | .error message =>
        (if ready ≠ .idle then d.unknown else d, .error (parseError response message))

def Direct.ownerBeginTransaction (d : Direct) (token : Nat) (o : Outcome Error) :
    Direct × Except Error Unit :=
  match d.checkReady with
  | some error => (d, .error error)
  | none =>
    if d.inTransaction then
      (d, .error (.transactionActive "a transaction is already active"))
    else
      let r := (d.exchangeBegin token o.inBlock).transactionResponse "BEGIN" o.result
      match r.2 with
      | .error (.postgres message) => (r.1, .error (.postgres message))
      | .error error => (r.1.unknown, .error error)
      | .ok begin =>
        if begin.commandTag = some "BEGIN" ∧ begin.readyStatus = .transaction then
          ({ r.1 with inTransaction := true }, .ok ())
        else if begin.commandTag = some "ROLLBACK" ∧ begin.readyStatus = .idle then
          (r.1, .error (.message "PostgreSQL rolled back instead of beginning the transaction"))
        else
          ({ r.1 with transactionOutcomeUnknown := decide (begin.readyStatus ≠ .idle) },
            .error (.message ("transaction begin returned PostgreSQL command tag " ++
              begin.commandTag.getD "None")))

/-- The command of `owner_commit_transaction` and `owner_rollback_transaction`. -/
def finishCommand (commit : Bool) : String := if commit then "COMMIT" else "ROLLBACK"

/-- `owner_finish_transaction` for `COMMIT` or `ROLLBACK`. -/
def Direct.ownerFinishTransaction (d : Direct) (token : Nat) (commit : Bool)
    (o : Outcome Error) : Direct × Except Error Unit :=
  if ¬ d.inTransaction then (d, .error (.message "transaction is no longer active"))
  else
    let command := finishCommand commit
    match d.checkReady with
    | some error => ({ d with inTransaction := false }, .error error)
    | none =>
      let r := (d.exchange (.transaction token) o.inBlock).transactionResponse command o.result
      let left : Direct := { r.1 with inTransaction := false }
      match r.2 with
      | .error error => (left, .error error)
      | .ok result =>
        if result.commandTag = some command ∧ result.readyStatus = .idle then (left, .ok ())
        else if commit ∧ result.commandTag = some "ROLLBACK" ∧ result.readyStatus = .idle then
          (left, .error (.message
            "PostgreSQL rolled back the transaction instead of committing"))
        else
          ({ left with transactionOutcomeUnknown := decide (result.readyStatus ≠ .idle) },
            .error (.message ("transaction " ++ command ++
              " returned PostgreSQL command tag " ++ result.commandTag.getD "None")))

def Direct.ownerPoisonUnobservedTransactionSettlement (d : Direct) : Direct :=
  { d with transactionOutcomeUnknown := true, inTransaction := false }

/-- `owner_abandon_unknown_transaction` emits no PostgreSQL bytes. -/
def Direct.ownerAbandonUnknownTransaction (d : Direct) : Direct × Except Error Unit :=
  if ¬ d.inTransaction then (d, .error (.message "transaction is no longer active"))
  else if ¬ d.transactionOutcomeUnknown then
    (d, .error (.message "cannot abandon a transaction whose protocol state is still known"))
  else ({ d with inTransaction := false }, .ok ())

/-- `validate_managed_transaction_response`, success or failure. -/
def keepsTransaction (r : Response) : Bool :=
  match r.tags, r.ready with
  | .ok tags, .ok status => !tags.any lifecycleTags.contains && decide (status ≠ .idle)
  | _, _ => false

/-- `run_structured_request` for a transaction. -/
def Direct.runTransactionRequest (d : Direct) (token : Nat) (operation : String)
    (o : Outcome Error) : Direct × Except Error Unit :=
  match d.checkReady with
  | some error => (d, .error error)
  | none =>
    if ¬ d.inTransaction then (d, .error (.message "transaction is no longer active"))
    else
      let called := d.exchange (.transaction token) o.inBlock
      match o.result with
      | .error error => (called.unknown, .error error)
      | .ok response =>
        if keepsTransaction response then (called, .ok ())
        else (called.unknown, .error (.message (operation ++
          " did not preserve the SDK-managed transaction boundary;" ++
          " close and reopen the database")))

/-- The recovery `ROLLBACK` is proven: its own tag and an idle boundary. -/
def rollbackConfirmed (o : Outcome Error) : Bool :=
  match o.result with
  | .error _ => false
  | .ok r => decide (r.Completes "ROLLBACK" .idle)

/-- `run_structured_request` for the database. -/
def Direct.runDatabaseRequest (d : Direct) (operation : String) (first second : Outcome Error) :
    Direct × Except Error Unit :=
  match d.checkReady with
  | some error => (d, .error error)
  | none =>
    if d.inTransaction then
      (d, .error (.transactionActive
        "a callback transaction is active; use its transaction handle"))
    else
      let called := d.exchange .other first.inBlock
      match first.result with
      | .error error => (called.unknown, .error error)
      | .ok response =>
        match response.ready with
        | .error _ => (called.unknown, .error (.message (operation ++
            " returned an invalid readiness boundary; the session is now unusable")))
        | .ok .idle => (called, .ok ())
        | .ok _ =>
          let recovered := called.exchange .other second.inBlock
          if rollbackConfirmed second then (recovered, .ok ())
          else (recovered.unknown, .error (.message (operation ++
            " left the embedded session in a transaction and rollback recovery failed")))

/-- `exec_protocol_raw_inner`. -/
def Direct.execProtocolRaw (d : Direct) (o : Outcome Error) : Direct × Except Error Unit :=
  match d.checkReady with
  | some error => (d, .error error)
  | none =>
    let called := d.exchange .other o.inBlock
    match o.result with
    | .error error => (called.unknown, .error error)
    | .ok _ => (called, .ok ())

/-- The outcome of a raw stream, a backup or a tool. -/
structure OtherEffect where
  inBlock : Bool
  unknown : Bool
  exitUnconfirmed : Bool
  result : Except Error Unit

def Direct.other (d : Direct) (effect : OtherEffect) : Direct × Except Error Unit :=
  match d.checkReady with
  | some error => (d, .error error)
  | none =>
    let called := d.exchange .other effect.inBlock
    ({ called with
      transactionOutcomeUnknown := called.transactionOutcomeUnknown || effect.unknown
      backupModeExitUnconfirmed := called.backupModeExitUnconfirmed || effect.exitUnconfirmed },
      effect.result)

/-- `close_inner`: with a transaction open the database stays open; a teardown
retires it whatever its result. -/
def Direct.close (d : Direct) (teardown : Except Error Unit) : Direct × Except Error Unit :=
  if d.closed then (d, .ok ())
  else if d.inTransaction then
    (d, .error (.transactionActive "cannot close while a transaction is active"))
  else ({ d with closed := true }, teardown)

inductive GuardState where
  | active
  | finishing
  | rolledBack
  | committed
  | failed
deriving DecidableEq, Repr

structure TransactionOutcomeGuard where
  state : GuardState
  terminalError : Option Error
  terminalFailureWasRollback : Bool
  settlementStarted : Bool
  settlementObserved : Bool
deriving DecidableEq, Repr

def TransactionOutcomeGuard.active : TransactionOutcomeGuard where
  state := .active
  terminalError := none
  terminalFailureWasRollback := false
  settlementStarted := false
  settlementObserved := false

def TransactionOutcomeGuard.retainFailure (g : TransactionOutcomeGuard) (error : Error)
    (rollbackWasAttempted : Bool) : TransactionOutcomeGuard :=
  match g.terminalError with
  | none =>
    { g with state := .failed, terminalError := some error,
             terminalFailureWasRollback := rollbackWasAttempted }
  | some _ => { g with state := .failed }

def TransactionOutcomeGuard.retainedError (g : TransactionOutcomeGuard) : Error :=
  g.terminalError.getD (.message "transaction failed")

inductive TransactionFinishOutcome where
  | attempted (result : Except Error Unit)
  | notAttempted (error : Error)
deriving DecidableEq

/-- Plain work on the database handle. -/
inductive Work where
  | structured (operation : String)
  | raw
  /-- raw streams, backups and tools -/
  | other
deriving DecidableEq, Repr

inductive OwnerMessage where
  | command (op : Nat) (work : Work)
  | statement (token client op : Nat) (operation : String)
  | begin (token client : Nat)
  | finish (token client : Nat) (commit : Bool)
  | finishObserved (token : Nat)
  | finishAbandoned (token client : Nat)
  | rollbackBestEffort (token client : Nat)
  | abandonFailed (token : Nat) (reply : Option Nat)
  | close
  | shutdown
deriving DecidableEq, Repr

/-- Messages that consume bounded admission. -/
def OwnerMessage.isOrdinary : OwnerMessage → Bool
  | .command .. | .statement .. | .begin .. => true
  | _ => false

def ownerQueueCapacity : Nat := 64

/-- A one-shot channel as its receiver sees it. -/
inductive Slot (α : Type) where
  | empty
  /-- the sender was dropped -/
  | closed
  | sent (value : α)
deriving DecidableEq

/-- Where a `transaction()` future stands, with the reply it has been sent but
has not polled yet. -/
inductive Client where
  | unused
  /-- waits for the order lock and a permit since the given close epoch -/
  | waiting (token epoch : Nat)
  | beginning (token : Nat) (reply : Slot (Except Error Unit))
  /-- the callback runs -/
  | body (token : Nat)
  /-- `finish` awaits its outcome, in the callback or in `settle` -/
  | finishing (token : Nat) (settling : Bool) (reply : Slot TransactionFinishOutcome)
  /-- `settle` retires a failed transaction -/
  | retiring (token : Nat) (reply : Slot (Except Error Unit))
  /-- completed or dropped -/
  | gone
deriving DecidableEq

def Client.Alive (c : Client) : Prop := c ≠ .unused ∧ c ≠ .gone

inductive OwnerState where
  | opened
  | closing
  | closed
  | stopped
deriving DecidableEq, Repr

structure State where
  queue : List OwnerMessage
  /-- received, its receiver looked at, and not handled yet -/
  current : Option OwnerMessage
  database : Direct
  activeTransaction : Option Nat
  /-- the owner thread still holds the receiving end of the queue -/
  ownerAlive : Bool
  state : OwnerState
  closeEpoch : Nat
  nextTransaction : Nat
  clients : Nat → Client
  guards : Nat → TransactionOutcomeGuard
  /-- plain reply channels whose receiver is still alive -/
  receivers : Nat → Bool
  nextOp : Nat

/-- A database that has just been opened. The guard of a future is created when
its `Begin` reply is taken; until then its slot reads as committed. -/
def start : State where
  queue := []
  current := none
  database :=
    { inTransaction := false, transactionOutcomeUnknown := false,
      backupModeExitUnconfirmed := false, closed := false, block := none }
  activeTransaction := none
  ownerAlive := true
  state := .opened
  closeEpoch := 0
  nextTransaction := 1
  clients := fun _ => .unused
  guards := fun _ => { TransactionOutcomeGuard.active with state := .committed }
  receivers := fun _ => false
  nextOp := 0

def State.setClient (s : State) (c : Nat) (v : Client) : State :=
  { s with clients := Function.update s.clients c v }

def State.setGuard (s : State) (c : Nat) (g : TransactionOutcomeGuard) : State :=
  { s with guards := Function.update s.guards c g }

def State.push (s : State) (message : OwnerMessage) : State :=
  { s with queue := s.queue ++ [message] }

/-- What the environment answers while one message is handled. -/
structure Engine where
  first : Outcome Error
  second : Outcome Error
  other : OtherEffect
  teardown : Except Error Unit

def Engine.Honest (e : Engine) : Prop := e.first.Honest ∧ e.second.Honest

instance (e : Engine) : Decidable e.Honest := inferInstanceAs (Decidable (_ ∧ _))

/-- `oneshot::Sender::send` on the reply of a `Begin`. -/
def State.sendBegin (s : State) (c : Nat) (value : Except Error Unit) : State × Bool :=
  match s.clients c with
  | .beginning token .empty => (s.setClient c (.beginning token (.sent value)), true)
  | _ => (s, false)

/-- `oneshot::Sender::send` on the reply of a `Finish`. -/
def State.sendFinish (s : State) (c : Nat) (value : TransactionFinishOutcome) : State × Bool :=
  match s.clients c with
  | .finishing token settling .empty =>
    (s.setClient c (.finishing token settling (.sent value)), true)
  | _ => (s, false)

/-- `oneshot::Sender::send` on the reply of an `AbandonFailed`. -/
def State.sendRetired (s : State) (c : Nat) (value : Except Error Unit) : State :=
  match s.clients c with
  | .retiring token .empty => s.setClient c (.retiring token (.sent value))
  | _ => s

/-- `reply.is_closed()`. -/
def State.isAbandoned (s : State) : OwnerMessage → Bool
  | .command op _ | .statement _ _ op _ => !s.receivers op
  | .begin token c => decide (s.clients c ≠ .beginning token .empty)
  | .finish token c _ =>
    decide (s.clients c ≠ .finishing token true .empty ∧
      s.clients c ≠ .finishing token false .empty)
  | _ => false

def abandonUnobservedFinish (s : State) (token client : Nat) : State :=
  if s.activeTransaction ≠ some token then s
  else
    { s.setGuard client ((s.guards client).retainFailure (.message
        "transaction settlement completed without being observed; close the database") false) with
      database := s.database.ownerPoisonUnobservedTransactionSettlement
      activeTransaction := none }

/-- A dropped message closes its reply channel. -/
def State.dropMessage (s : State) : OwnerMessage → State
  | .begin _ c =>
    match s.clients c with
    | .beginning token .empty => s.setClient c (.beginning token .closed)
    | _ => s
  | .finish _ c _ =>
    match s.clients c with
    | .finishing token settling .empty => s.setClient c (.finishing token settling .closed)
    | _ => s
  | .abandonFailed _ (some c) =>
    match s.clients c with
    | .retiring token .empty => s.setClient c (.retiring token .closed)
    | _ => s
  | _ => s

/-- The owner closes the database and returns: the queue is dropped with
everything left in it. -/
def State.stop (s : State) (database : Direct) (state : OwnerState) : State :=
  let dropped := s.queue.foldl State.dropMessage s
  { dropped with
    queue := [], database := database, activeTransaction := none, ownerAlive := false,
    state := state }

/-- `owner_command` for a statement: an unknown outcome is retained by the guard. -/
def State.observeStatement (s : State) (client : Nat) (result : Except Error Unit) : State :=
  match result with
  | .error error =>
    if s.database.transactionOutcomeUnknown then
      s.setGuard client ((s.guards client).retainFailure error false)
    else s
  | .ok () => s

/-- The reply of a `Begin` that succeeded; a receiver that is gone by now has its
transaction rolled back. -/
def deliverBegin (s : State) (token client : Nat) (o : Outcome Error) : State :=
  let sent := s.sendBegin client (.ok ())
  if sent.2 then sent.1
  else
    { sent.1 with
      database := (sent.1.database.ownerFinishTransaction token false o).1
      activeTransaction := none }

/-- `OwnerControl::Finish` once its receiver was found alive. -/
def finishOutcome (s : State) (token client : Nat) (commit : Bool) (e : Engine) :
    State × TransactionFinishOutcome :=
  if s.activeTransaction ≠ some token then
    let error := Error.message "transaction is no longer active"
    (s.setGuard client ((s.guards client).retainFailure error false), .notAttempted error)
  else if s.database.transactionOutcomeUnknown then
    let error := (s.guards client).retainedError
    let left : State := { s with database := s.database.ownerAbandonUnknownTransaction.1 }
    (left.setGuard client ((s.guards client).retainFailure error false), .notAttempted error)
  else
    let r := s.database.ownerFinishTransaction token commit e.first
    let left : State := { s with database := r.1 }
    match r.2 with
    | .ok () =>
      let state := if commit then GuardState.committed else GuardState.rolledBack
      (left.setGuard client { s.guards client with state := state }, .attempted r.2)
    | .error error =>
      (left.setGuard client ((s.guards client).retainFailure error !commit), .attempted r.2)

/-- `run_database_owner` and `handle_database_control` for one message. -/
def handleMessage (s : State) (e : Engine) : OwnerMessage → State
  | .command _ work =>
    if s.activeTransaction.isSome then s
    else
      let r := match work with
        | .structured operation => s.database.runDatabaseRequest operation e.first e.second
        | .raw => s.database.execProtocolRaw e.first
        | .other => s.database.other e.other
      { s with database := r.1 }
  | .statement token client _ operation =>
    if s.activeTransaction = some token then
      let r := s.database.runTransactionRequest token operation e.first
      State.observeStatement { s with database := r.1 } client r.2
    else s.observeStatement client (.error (.message "transaction is no longer active"))
  | .begin token client =>
    if s.activeTransaction.isSome then
      (s.sendBegin client (.error (.transactionActive "a transaction is already active"))).1
    else
      let r := s.database.ownerBeginTransaction token e.first
      let began : State := { s with database := r.1 }
      match r.2 with
      | .error error => (began.sendBegin client (.error error)).1
      | .ok () => deliverBegin { began with activeTransaction := some token } token client e.second
  | .finish token client commit =>
    let r := finishOutcome s token client commit e
    let sent := r.1.sendFinish client r.2
    if sent.2 then sent.1 else abandonUnobservedFinish sent.1 token client
  | .finishObserved token =>
    if s.activeTransaction = some token then { s with activeTransaction := none } else s
  | .finishAbandoned token client => abandonUnobservedFinish s token client
  | .rollbackBestEffort token client =>
    if s.activeTransaction ≠ some token then s
    else if s.database.transactionOutcomeUnknown then
      let error := (s.guards client).retainedError
      { s.setGuard client ((s.guards client).retainFailure error false) with
        database := s.database.ownerAbandonUnknownTransaction.1
        activeTransaction := none }
    else
      let r := s.database.ownerFinishTransaction token false e.first
      let guard := match r.2 with
        | .ok () => { s.guards client with state := .rolledBack }
        | .error error => (s.guards client).retainFailure error true
      { s.setGuard client guard with database := r.1, activeTransaction := none }
  | .abandonFailed token reply =>
    let r : Direct × Except Error Unit :=
      if s.activeTransaction = some token then s.database.ownerAbandonUnknownTransaction
      else (s.database, .error (.message "transaction is no longer active"))
    let left : State := { s with
      database := r.1
      activeTransaction := if s.activeTransaction = some token then none
        else s.activeTransaction }
    match reply with
    | none => left
    | some client => left.sendRetired client r.2
  | .close =>
    -- with a transaction active the attempt is retryable and admission reopens
    if s.activeTransaction.isSome then { s with state := .opened }
    else s.stop (s.database.close e.teardown).1 .closed
  | .shutdown =>
    let rolledBack : Direct :=
      match s.activeTransaction with
      | some token => (s.database.ownerFinishTransaction token false e.first).1
      | none => s.database
    let r := rolledBack.close e.teardown
    s.stop r.1 (match r.2 with | .ok () => .closed | .error _ => .stopped)

end Oliphaunt.Wasix
