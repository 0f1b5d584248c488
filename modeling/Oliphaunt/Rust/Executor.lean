import Mathlib.Algebra.Group.Nat.Defs
import Mathlib.Logic.Function.Basic
import Oliphaunt.Model.Postgres

/-!
# Oliphaunt — the native Rust executor

`native/sdks/rust/src/executor.rs` and `session.rs`: one owner thread drains a
FIFO of commands and is the only caller of the engine session. The commands
carry one-shot replies (`reply.rs`): a sender learns that its receiver is gone
only when the receiver was dropped *before* the send.

A reply that was delivered but not polled yet is part of the location of its
`transaction()` future (`Client`).

One `execute_command` is one step, and what the engine answers to its calls is
chosen by the environment (`Engine`). Panics of the engine, which stop the
owner, are outside the model; so are the values of successful plain operations.
-/

namespace Oliphaunt.Rust

/-- The SDK errors that the executor distinguishes. -/
inductive Error where
  | transactionActive
  | engineStopped
  | engine (message : String)
  /-- a response the parsers of the query package refuse -/
  | response (message : String)
  /-- a broker completion: its detail, whether the request was started, and
  whether the database has to be reopened -/
  | broker (detail : String) (notStarted requiresReopen : Bool)
deriving DecidableEq, Repr

def Error.requiresReopen : Error → Bool
  | .broker _ _ reopen => reopen
  | _ => true

/-- `Display for Error`. -/
def Error.text : Error → String
  | .transactionActive => "a transaction is active; use the active transaction handle"
  | .engineStopped => "native database session has stopped"
  | .engine message | .response message => message
  | .broker detail _ _ => detail

def sessionStateUnknown : String := "PostgreSQL session state is unknown; close the database"

def inactiveTransactionError : Error := .engine "transaction is no longer active"

/-- Ordinary application work is bounded; lifecycle and transaction-recovery
commands are not counted. -/
def ordinaryQueueCapacity : Nat := 256

inductive GuardState where
  | active
  | finishing
  | rolledBack
  | failed
  | released
deriving DecidableEq, Repr

structure TransactionGuard where
  state : GuardState
  terminalError : Option Error
  terminalFailureWasRollback : Bool
deriving DecidableEq, Repr

def TransactionGuard.active : TransactionGuard where
  state := .active
  terminalError := none
  terminalFailureWasRollback := false

/-- The first failure is retained with its kind; every failure is terminal. -/
def TransactionGuard.failWithKind (g : TransactionGuard) (error : Error)
    (wasRollback : Bool) : TransactionGuard :=
  match g.terminalError with
  | none =>
    { state := .failed, terminalError := some error,
      terminalFailureWasRollback := wasRollback }
  | some _ => { g with state := .failed }

def TransactionGuard.fail (g : TransactionGuard) (error : Error) : TransactionGuard :=
  g.failWithKind error false

def TransactionGuard.failRollback (g : TransactionGuard) (error : Error) :
    TransactionGuard :=
  g.failWithKind error true

/-- The control statements a pin may send. -/
inductive Control where
  | commit
  | rollback
deriving DecidableEq, Repr

/-- Owner commands. Plain operations and transaction statements reply to a
numbered one-shot channel, transaction controls to the future that sent them. -/
inductive Command where
  /-- mobile bindings: a command with its own cancellation request -/
  | cancellable (command : Command) (request : Nat)
  | exec (op : Nat)
  | structuredExec (op : Nat) (operation : String)
  | pinnedExec (token client : Nat) (control : Control)
  | pinnedStructuredExec (token client op : Nat) (operation : String)
  | stream (op : Nat)
  | begin (client : Nat)
  | releasePin (token : Nat) (reply : Option Nat)
  | rollbackAndReleasePin (token : Nat)
  | backup (op : Nat)
  | backupTo (op : Nat)
  | close
deriving DecidableEq, Repr

def Command.isOrdinary : Command → Bool
  | .pinnedExec .. | .releasePin .. | .rollbackAndReleasePin _ | .close => false
  | _ => true

/-- Where a `transaction()` future stands, with the reply it has been sent but
has not polled yet. -/
inductive Client where
  | unused
  /-- `send(Command::Begin)` waits for admission -/
  | sending
  /-- `Begin` is admitted; its reply is awaited -/
  | beginning (reply : Option (Except Error Nat))
  /-- the callback runs -/
  | body (token : Nat)
  /-- the callback has returned and its guard was active -/
  | settle (token : Nat) (succeeded : Bool)
  /-- `rollback().await`, in the callback or in `rollback_and_release` -/
  | rollback (token : Nat) (settling : Bool) (reply : Option (Except Error Response))
  /-- `commit` awaits its `COMMIT` -/
  | commit (token : Nat) (reply : Option (Except Error Response))
  /-- the pin was taken and `release().await` runs -/
  | release (token : Nat) (reply : Option (Except Error Unit))
  /-- completed or dropped -/
  | gone
deriving DecidableEq

/-- The future is alive: polled at least once, neither completed nor dropped. -/
def Client.Alive (c : Client) : Prop := c ≠ .unused ∧ c ≠ .gone

/-- On whose behalf the open transaction block was started. -/
inductive BlockOwner where
  | pin (token : Nat)
  | other
deriving DecidableEq, Repr

structure State where
  queue : List Command
  /-- received by the owner thread and not executed yet -/
  current : Option Command
  activePin : Option Nat
  nextPin : Nat
  transactionPoisoned : Bool
  /-- the broker completion that `remember_failure` retains -/
  brokerFailure : Option Error
  closing : Bool
  closeInProgress : Bool
  teardownStarted : Bool
  closed : Bool
  terminalDrop : Bool
  clients : Nat → Client
  guards : Nat → TransactionGuard
  /-- plain reply channels whose receiver is still alive -/
  receivers : Nat → Bool
  nextOp : Nat
  /-- requests whose cancellation was asked for -/
  cancelled : Nat → Bool
  /-- PostgreSQL's open transaction block -/
  block : Option BlockOwner
  /-- calls of the engine made so far: raw exchanges, streams and backups -/
  calls : Nat

/-- A session that has just been opened. A guard exists only from the poll that
takes the token on; until then its slot reads as released. -/
def start : State where
  queue := []
  current := none
  activePin := none
  nextPin := 1
  transactionPoisoned := false
  brokerFailure := none
  closing := false
  closeInProgress := false
  teardownStarted := false
  closed := false
  terminalDrop := false
  clients := fun _ => .unused
  guards := fun _ => { TransactionGuard.active with state := .released }
  receivers := fun _ => false
  nextOp := 0
  cancelled := fun _ => false
  block := none
  calls := 0

inductive ProtocolStreamOutcome where
  | readyForQuery (result : Except Error Unit)
  | sessionStateUnknown (error : Error)
deriving DecidableEq

/-- What the environment answers to the engine calls of one command. No command
makes more than two protocol calls. -/
structure Engine where
  first : Outcome Error
  second : Outcome Error
  stream : ProtocolStreamOutcome
  streamInBlock : Bool
  /-- the chunk callback panicked during the stream -/
  callbackPanic : Option Error
  backup : Except Error Unit

def Engine.Honest (e : Engine) : Prop := e.first.Honest ∧ e.second.Honest

instance (e : Engine) : Decidable e.Honest := inferInstanceAs (Decidable (_ ∧ _))

/-- `poison_transaction_state`. -/
def State.poison (s : State) : State := { s with transactionPoisoned := true }

def State.setClient (s : State) (c : Nat) (v : Client) : State :=
  { s with clients := Function.update s.clients c v }

def State.setGuard (s : State) (c : Nat) (g : TransactionGuard) : State :=
  { s with guards := Function.update s.guards c g }

def State.rememberFailure (s : State) : Error → State
  | .broker detail notStarted reopen =>
    { s with brokerFailure := some (.broker detail notStarted reopen) }
  | _ => s

/-- `unsubmitted_error`: the retained broker completion, as one that did not
start, or the fallback. -/
def State.unsubmittedError (s : State) (fallback : Error) : Error :=
  match s.brokerFailure with
  | some (.broker detail _ reopen) => .broker detail true reopen
  | _ => fallback

/-- `session.exec_protocol_raw` (or its streaming form) on behalf of `who`. A
block that was open before the exchange and is open after it keeps its owner. -/
def State.exchange (s : State) (who : BlockOwner) (inBlock : Bool) : State :=
  { s with
    block := if inBlock then some (s.block.getD who) else none
    calls := s.calls + 1 }

/-- `BEGIN` for a pin: whatever block is open afterwards is the pin's. -/
def State.exchangeBegin (s : State) (token : Nat) (inBlock : Bool) : State :=
  { s with
    block := if inBlock then some (.pin token) else none
    calls := s.calls + 1 }

/-- The one-command reading of an exchange. -/
def parseExchange (o : Outcome Error) : Except Error CommandResult :=
  match o.result with
  | .error error => .error error
  | .ok r => r.parseCommand.mapError Error.response

/-- The recovery `ROLLBACK` is proven: its own tag and an idle boundary. -/
def rollbackConfirmed (o : Outcome Error) : Bool :=
  parseExchange o = .ok { commandTag := some "ROLLBACK", readyStatus := .idle }

def State.isAbandoned (s : State) : Command → Bool
  | .cancellable command request => s.cancelled request || s.isAbandoned command
  | .exec op | .structuredExec op _ | .pinnedStructuredExec _ _ op _ | .stream op
  | .backup op | .backupTo op => !s.receivers op
  | .begin client => decide (s.clients client ≠ .beginning none)
  | .pinnedExec .. | .releasePin .. | .rollbackAndReleasePin _ | .close => false

/-- `Debug for ReadyStatus`. -/
def readyStatusDebug : ReadyStatus → String
  | .idle => "Idle"
  | .transaction => "InTransaction"
  | .failed => "FailedTransaction"

/-- `validate_managed_transaction_response`: a statement of a callback
transaction completes no lifecycle command and leaves the block open. -/
def validateManagedTransactionResponse (r : Response) : Except String ReadyStatus :=
  match r.tags, r.ready with
  | .error message, _ => .error message
  | .ok _, .error message => .error message
  | .ok tags, .ok status =>
    match tags.find? lifecycleTags.contains with
    | some command => .error ("PostgreSQL completed " ++ command ++
        ", which changed the SDK-managed transaction lifecycle")
    | none =>
      if status = .idle then
        .error "PostgreSQL returned idle readiness after SDK-managed transaction work"
      else .ok status

/-- The primary failure of a `BEGIN` that did not open a transaction. -/
def beginFailure (r : Response) : Error :=
  match r.parseCommand with
  | .ok result => .engine
      ("PostgreSQL transaction command expected BEGIN with InTransaction readiness, got " ++
        result.commandTag.getD "no command tag" ++ " with " ++
        readyStatusDebug result.readyStatus)
  | .error message => .response message

def beginTransaction (s : State) (token : Nat) (e : Engine) : State × Except Error Unit :=
  let began := s.exchangeBegin token e.first.inBlock
  match e.first.result with
  | .error error => (began.poison, .error error)
  | .ok response =>
    if response.Completes "BEGIN" .transaction then (began, .ok ())
    else
      let primary := beginFailure response
      match response.ready with
      | .ok .idle => (began, .error primary)
      | .error _ => (began.poison, .error primary)
      | .ok _ =>
        let recovered := began.exchange (.pin token) e.second.inBlock
        if rollbackConfirmed e.second then (recovered, .error primary)
        else (recovered.poison, .error primary)

def executeStructuredOperation (s : State) (operation : String) (e : Engine) :
    State × Except Error Response :=
  let called := s.exchange .other e.first.inBlock
  match e.first.result with
  | .error error => (called.poison, .error error)
  | .ok response =>
    match response.ready with
    | .error message =>
      (called.poison, .error (.engine (operation ++
        " returned an invalid readiness boundary and the embedded session is now unusable: "
        ++ message)))
    | .ok .idle => (called, .ok response)
    | .ok _ =>
      let recovered := called.exchange .other e.second.inBlock
      if rollbackConfirmed e.second then (recovered, .ok response)
      else
        let cause := match parseExchange e.second with
          | .error error => error.text
          | .ok _ => "unexpected ROLLBACK response"
        (recovered.poison, .error (.engine (operation ++
          " left the embedded session in a transaction and rollback recovery failed: "
          ++ cause)))

def failTransactionGuard (s : State) (client : Nat) (error : Error) : State :=
  (s.setGuard client ((s.guards client).fail error)).poison

def executeTransactionStructuredOperation (s : State) (token client : Nat)
    (operation : String) (e : Engine) : State × Except Error Response :=
  if (s.guards client).state ≠ .active then (s, .error inactiveTransactionError)
  else
    let called := s.exchange (.pin token) e.first.inBlock
    match e.first.result with
    | .error error => (failTransactionGuard called client error, .error error)
    | .ok response =>
      match validateManagedTransactionResponse response with
      | .ok _ => (called, .ok response)
      | .error message =>
        let terminal := Error.engine (operation ++
          " changed transaction ownership outside the SDK-managed transaction lifecycle;" ++
          " the session is now unusable: " ++ message)
        (failTransactionGuard called client terminal, .error terminal)

/-- `execute_raw_operation`; every caller passes no guard. -/
def executeRawOperation (s : State) (who : BlockOwner) (e : Engine) :
    State × Except Error Response :=
  let called := s.exchange who e.first.inBlock
  match e.first.result with
  | .error error =>
    if error.requiresReopen then ((called.rememberFailure error).poison, .error error)
    else (called, .error error)
  | .ok response => (called, .ok response)

/-- `execute_stream`, with the result its outcome stands for. -/
def executeStream (s : State) (e : Engine) : State × Except Error Unit :=
  let called := s.exchange .other e.streamInBlock
  match e.stream, e.callbackPanic with
  | .readyForQuery _, some panic => (called, .error panic)
  | .readyForQuery result, none => (called, result)
  | .sessionStateUnknown error, _ => ((called.rememberFailure error).poison, .error error)

/-- `session.backup` and `session.backup_to`: only a broker failure that asks
for a reopen poisons. -/
def executeBackup (s : State) (e : Engine) : State × Except Error Unit :=
  let called := { s with calls := s.calls + 1 }
  match e.backup with
  | .error (.broker detail notStarted true) =>
    ((called.rememberFailure (.broker detail notStarted true)).poison, e.backup)
  | _ => (called, e.backup)

/-- `allocate_pin`: the token space is that of a `u64`. -/
def allocatePin (nextPin : Nat) : Except Error Nat :=
  if nextPin + 1 < 2 ^ 64 then .ok nextPin
  else .error (.engine "native transaction token space is exhausted")

def rollbackActivePin (s : State) (token : Nat) (o : Outcome Error) : State :=
  if s.activePin ≠ some token then s
  else if s.transactionPoisoned then
    -- sending ROLLBACK could act on a different protocol state
    { s with activePin := none }
  else
    let called := s.exchange (.pin token) o.inBlock
    let settled := if rollbackConfirmed o then called else called.poison
    { settled with activePin := none }

/-- `Sender::send` on the reply of a `Begin`: stored, and reported as delivered,
only while its receiver is alive. -/
def State.sendBegin (s : State) (client : Nat) (value : Except Error Nat) : State × Bool :=
  match s.clients client with
  | .beginning none => (s.setClient client (.beginning (some value)), true)
  | _ => (s, false)

/-- `Sender::send` on the reply of a transaction control. -/
def State.sendControl (s : State) (client : Nat) (value : Except Error Response) : State :=
  match s.clients client with
  | .rollback token settling none => s.setClient client (.rollback token settling (some value))
  | .commit token none => s.setClient client (.commit token (some value))
  | _ => s

/-- `Sender::send` on the reply of a pin release. -/
def State.sendRelease (s : State) (client : Nat) (value : Except Error Unit) : State :=
  match s.clients client with
  | .release token none => s.setClient client (.release token (some value))
  | _ => s

/-- `Sender::drop`: the receiver of a command that never completes its reply is
told that the engine stopped. -/
def State.dropCommand (s : State) : Command → State
  | .cancellable command _ => s.dropCommand command
  | .begin client => (s.sendBegin client (.error .engineStopped)).1
  | .pinnedExec _ client _ => s.sendControl client (.error .engineStopped)
  | .releasePin _ (some client) => s.sendRelease client (.error .engineStopped)
  | _ => s

/-- `owner_thread` after a terminal close: the commands left in the queue are
dropped and nothing is admitted or executed any more. -/
def State.stop (s : State) : State :=
  let dropped := s.queue.foldl State.dropCommand s
  { dropped with
    teardownStarted := true
    queue := []
    closeInProgress := false
    closing := false
    closed := true }

def State.scheduleTerminalDropClose (s : State) : State :=
  if s.terminalDrop ∧ ¬ s.closed ∧ ¬ s.closeInProgress then
    { s with closeInProgress := true, closing := true, queue := s.queue ++ [.close] }
  else s

/-- What the reply channel of a command ends up with, values of successes left
out; `none` for a command without a reply. -/
abbrev Answer := Option (Except Error Unit)

def answerOf {α : Type} (r : Except Error α) : Answer := some (r.map fun _ => ())

/-- `execute_command`: the new state and what was sent to the reply channel. -/
def executeCommand (s : State) (e : Engine) : Command → State × Answer
  | .cancellable command request =>
    if s.cancelled request then (s.dropCommand command, some (.error .engineStopped))
    else executeCommand s e command
  | .exec _ =>
    if s.activePin.isSome then (s, some (.error .transactionActive))
    else
      let r := executeRawOperation s .other e
      (r.1, answerOf r.2)
  | .structuredExec _ operation =>
    if s.activePin.isSome then (s, some (.error .transactionActive))
    else
      let r := executeStructuredOperation s operation e
      (r.1, answerOf r.2)
  | .pinnedExec token client _ =>
    if s.activePin ≠ some token then
      (s.sendControl client (.error inactiveTransactionError),
        some (.error inactiveTransactionError))
    else if s.transactionPoisoned then
      let error := (s.guards client).terminalError.getD (.engine sessionStateUnknown)
      (s.sendControl client (.error error), some (.error error))
    else
      let r := executeRawOperation s (.pin token) e
      (r.1.sendControl client r.2, answerOf r.2)
  | .pinnedStructuredExec token client _ operation =>
    if s.activePin = some token then
      let r := executeTransactionStructuredOperation s token client operation e
      (r.1, answerOf r.2)
    else (s, some (.error inactiveTransactionError))
  | .stream _ =>
    if s.activePin.isSome then (s, some (.error .transactionActive))
    else
      let r := executeStream s e
      (r.1, answerOf r.2)
  | .begin client =>
    if s.activePin.isSome then
      ((s.sendBegin client (.error .transactionActive)).1, some (.error .transactionActive))
    else
      match allocatePin s.nextPin with
      | .error error => ((s.sendBegin client (.error error)).1, some (.error error))
      | .ok token =>
        let r := beginTransaction { s with nextPin := s.nextPin + 1 } token e
        match r.2 with
        | .error error => ((r.1.sendBegin client (.error error)).1, some (.error error))
        | .ok () =>
          let pinned : State := { r.1 with activePin := some token }
          let sent := pinned.sendBegin client (.ok token)
          if sent.2 then (sent.1, some (.ok ()))
          else (rollbackActivePin sent.1 token e.second, some (.ok ()))
  | .releasePin token reply =>
    let r : State × Except Error Unit :=
      if s.activePin = some token then ({ s with activePin := none }, .ok ())
      else (s, .error inactiveTransactionError)
    match reply with
    | none => (r.1, none)
    | some client => (r.1.sendRelease client r.2, some r.2)
  | .rollbackAndReleasePin token => (rollbackActivePin s token e.first, none)
  | .backup _ | .backupTo _ =>
    if s.activePin.isSome then (s, some (.error .transactionActive))
    else
      let r := executeBackup s e
      (r.1, some r.2)
  | .close =>
    match s.activePin with
    | some token =>
      if s.terminalDrop then ((rollbackActivePin s token e.first).stop, none)
      else
        -- RetryableClose: admission reopens, then a racing final drop is rechecked
        ({ s with closeInProgress := false, closing := false }.scheduleTerminalDropClose, none)
    | none => (s.stop, none)

end Oliphaunt.Rust
