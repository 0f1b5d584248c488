import Oliphaunt.Model.Transition
import Oliphaunt.TS.Boundary

/-!
# Oliphaunt — the React Native database

`NativeOliphauntDatabase` and its transaction handle, of
`native/sdks/react-native/src/client.ts`. Database calls are admitted one after
the other on `#operationTail`; a callback transaction is one such call, and the
statements of its handle are admitted on a chain of its own, `#tail`. With an
operation timeout an admission may expire while it waits, which rejects the call
and leaves its place in the chain, or be found late at its turn.

A step runs an operation with all its exchanges: what other code can do meanwhile
(chain calls, let them expire, return from the callback) touches nothing that the
operation goes on with. The native module's answers are chosen by the
environment; a readable `ReadyForQuery` reports whether PostgreSQL is inside a
block, and a broker failure that requires no reopening means that the request
was not started. `sent` records the exchanges, `settled` the transactions that
had their turn.

Calls from inside a stream chunk callback are rejected before they touch
anything and `cancel` reaches no chain; neither is a step of the model.
-/

namespace Oliphaunt.ReactNative

inductive Failure where
  /-- `isBrokerFailure` -/
  | broker (message reason : String) (requiresReopen : Bool)
  | error (message : String)
  | caused (message : String) (cause : Failure)
  | aggregate (primary secondary : Failure) (message : String)
deriving DecidableEq, Repr

def brokerDeadlineError (reason : String) (requiresReopen : Bool) : Failure :=
  .broker ("broker operation " ++ reason ++ " before admission") reason requiresReopen

/-- The request was not started, and the session is as it was. -/
def Failure.NotStarted : Failure → Prop
  | .broker _ _ requiresReopen => requiresReopen = false
  | _ => False

instance (failure : Failure) : Decidable failure.NotStarted := by
  unfold Failure.NotStarted
  split <;> infer_instance

/-- `transactionBoundaryError` of this client. -/
def boundaryError (command : Control) (actualTag : Option String)
    (expectedStatus actualStatus : ReadyStatus) : Failure :=
  .error ("PostgreSQL transaction command expected " ++ command.sql ++ "/" ++
    expectedStatus.text ++ ", got " ++ actualTag.getD "no command tag" ++ "/" ++
    actualStatus.text)

inductive Operation where
  /-- `execute`, `query`, `queryRaw`, `exec`, `describe` -/
  | structured (plan : Plan)
  | execProtocolRaw
  | execProtocolRawStream
  | backup
  | transaction
deriving DecidableEq, Repr

/-- A place in `#operationTail`. -/
structure Queued where
  call : Nat
  operation : Operation
  /-- its timer has rejected the call -/
  expired : Bool
deriving DecidableEq, Repr

inductive HandleOperation where
  | statement (plan : Plan)
  | rollback
deriving DecidableEq, Repr

/-- A place in the `#tail` of the handle. -/
structure Waiting where
  operation : HandleOperation
  expired : Bool
deriving DecidableEq, Repr

inductive TransactionState where
  | active
  | finishing
  | rolledBack
  | failed
  | expired
deriving DecidableEq, Repr

/-- `OliphauntTransactionHandle`. -/
structure Handle where
  state : TransactionState
  tail : List Waiting
  /-- `#failure`: the error and whether the block still needs a `ROLLBACK` -/
  failure : Option (Failure × Bool)
  firstFailure : Option Failure
  /-- `rollback()` was called while the handle was active -/
  rollbackCalled : Bool

def Handle.fresh : Handle where
  state := .active
  tail := []
  failure := none
  firstFailure := none
  rollbackCalled := false

/-- What an exchange is for. -/
inductive Command where
  -- of a callback transaction
  | begin
  | commit
  | statement
  /-- of a callback transaction, or the recovery of any call -/
  | rollback
  /-- any other exchange of another call -/
  | ordinary
deriving DecidableEq, Repr

/-- An exchange that reached the native module, and how the handle stood then. -/
structure Sent where
  call : Nat
  command : Command
  pending : Nat
  rollbackCalled : Bool
deriving DecidableEq, Repr

/-- A transaction whose promise has settled, and how the database stood then. -/
structure Settled where
  call : Nat
  error : Option Failure
  inBlock : Bool
  poisoned : Bool

/-- Where the running transaction is. -/
inductive Phase where
  | body
  /-- the callback has returned or thrown, and the handle's chain is awaited -/
  | draining (thrown : Option Failure)
deriving DecidableEq, Repr

structure State where
  /-- the topology is `broker` -/
  broker : Bool
  /-- an operation timeout is configured -/
  timeout : Bool
  closed : Bool
  closing : Bool
  closeTeardownStarted : Bool
  activeTransaction : Bool
  poisoned : Option Failure
  operationTail : List Queued
  running : Option (Nat × Phase)
  handle : Handle
  /-- PostgreSQL is inside a transaction block -/
  inBlock : Bool
  nextCall : Nat
  sent : List Sent
  settled : List Settled

/-- A database that has just been opened. -/
def opened (broker timeout : Bool) : State where
  broker := broker
  timeout := timeout
  closed := false
  closing := false
  closeTeardownStarted := false
  activeTransaction := false
  poisoned := none
  operationTail := []
  running := none
  handle := { Handle.fresh with state := .expired }
  inBlock := false
  nextCall := 0
  sent := []
  settled := []

/-- `#poison`: a broker failure poisons only if it requires reopening. -/
def State.poison (s : State) (cause : Failure) (replace : Bool) : State :=
  match cause with
  | .broker _ _ requiresReopen => if requiresReopen then { s with poisoned := some cause } else s
  | _ =>
    if ¬ replace ∧ s.poisoned.isSome then s
    else
      { s with poisoned := some (.caused
        "Oliphaunt PostgreSQL session state is unknown; close the database" cause) }

def State.assertHealthy (s : State) : Except Failure Unit :=
  match s.poisoned with
  | some failure => .error failure
  | none => .ok ()

def State.assertAvailable (s : State) : Except Failure Unit :=
  if s.closed then .error (.error "Oliphaunt database is closed")
  else if s.closeTeardownStarted then .error (.error "Oliphaunt database is closed")
  else if s.closing then .error (.error "Oliphaunt database is closing")
  else s.assertHealthy

/-- How the turn of an admission comes. -/
inductive Admission where
  | inTime
  /-- the timer rejects it first -/
  | timer
  /-- the deadline is found passed -/
  | late
deriving DecidableEq, Repr

/-- `#admit` up to its body; `none` when there is no deadline to miss. -/
def State.admitted (s : State) (admission : Admission) : Option (Except Failure Unit) :=
  if admission = .timer then
    if s.timeout then some (.error (brokerDeadlineError "deadline" s.poisoned.isSome)) else none
  else
    match s.assertHealthy with
    | .error failure => some (.error failure)
    | .ok () =>
      if s.broker ∧ s.closeTeardownStarted then
        some (.error (brokerDeadlineError "cancelled" true))
      else if admission = .late then
        if s.timeout then some (.error (brokerDeadlineError "deadline" false)) else none
      else some (.ok ())

/-- What an operation's parser makes of a response. -/
inductive Parsed (β : Type) where
  | ok (value : β)
  | failed (message : String)
  /-- it read another transaction status than the boundary check -/
  | disagrees

/-- What the environment answers to one request of the caller. -/
structure Reply where
  outcome : Outcome Failure
  parsed : Parsed Unit

/-- PostgreSQL can be in the outcome's state after it was in `before`. -/
def Believable (before : Bool) (o : Outcome Failure) : Prop :=
  o.Honest ∧
    match o.result with
    | .error failure => failure.NotStarted → o.inBlock = before
    | .ok _ => True

instance (before : Bool) (o : Outcome Failure) : Decidable (Believable before o) := by
  unfold Believable
  split <;> infer_instance

def State.send (s : State) (call : Nat) (command : Command) (o : Outcome Failure) : State :=
  { s with
    inBlock := o.inBlock
    sent := s.sent ++ [{
      call := call
      command := command
      pending := s.handle.tail.length
      rollbackCalled := s.handle.rollbackCalled }] }

/-- `#runKnownExchangeUnlocked`: the parsed value and the status, or the failure and the
status it was observed with. -/
def runKnownExchange {β : Type} (s : State) (call : Nat) (command : Command) (managed : Bool)
    (o : Outcome Failure) (parse : Response → Parsed β) :
    Option (State × Except (Failure × Option ReadyStatus) (β × ReadyStatus)) :=
  if ¬ Believable s.inBlock o then none
  else
    let t := s.send call command o
    match o.result with
    | .error failure => some (t.poison failure false, .error (failure, none))
    | .ok response =>
      match (if managed then inspectManagedTransactionResponse response
        else inspectReadyForQuery response) with
      | .error message => some (t.poison (.error message) false, .error (.error message, none))
      | .ok status =>
        match parse response with
        | .ok value => some (t, .ok (value, status))
        | .failed message => some (t, .error (.error message, some status))
        | .disagrees =>
          let failure := .error "structured parser disagreed with the ReadyForQuery boundary"
          some (t.poison failure false, .error (failure, some status))

/-- `parseCommandResponse` as the parser of a control command. -/
def parseControl (response : Response) : Parsed (Option String) :=
  match parseCommandResponse response with
  | .ok result => .ok result.commandTag
  | .error message => .failed message

/-- The exchange of a control command. -/
def runControl (s : State) (call : Nat) (command : Command) (o : Outcome Failure) :
    Option (State × Except (Failure × Option ReadyStatus) (Option String × ReadyStatus)) :=
  runKnownExchange s call command false o parseControl

/-- `#recoverToIdleUnlocked`: the failure it throws, if recovery is not proven. -/
def recoverToIdle (s : State) (call : Nat) (primary : Failure) (o : Outcome Failure) :
    Option (State × Option Failure) :=
  let unproven (t : State) (recovery : Failure) : State × Option Failure :=
    let failure := .aggregate primary recovery
      "Oliphaunt operation failed and automatic ROLLBACK could not prove recovery"
    (t.poison failure true, some failure)
  match runControl s call .rollback o with
  | none => none
  | some (t, .error (failure, _)) => some (unproven t failure)
  | some (t, .ok (tag, status)) =>
    if status = .idle ∧ tag = some "ROLLBACK" then some (t, none)
    else some (unproven t (boundaryError .rollback tag .idle status))

/-- An operation fails with `failure` after PostgreSQL was seen in `status`. -/
def failRecovered (s : State) (call : Nat) (failure : Failure) (status : Option ReadyStatus)
    (recovery : Outcome Failure) : Option (State × Option Failure) :=
  if status = some .transaction ∨ status = some .failed then
    match recoverToIdle s call failure recovery with
    | none => none
    | some (t, some unproven) => some (t, some unproven)
    | some (t, none) => some (t, some failure)
  else some (s, some failure)

/-- `#runOrdinaryExchangeUnlocked`: the failure it throws. -/
def runOrdinaryExchange (s : State) (call : Nat) (reply : Reply) (recovery : Outcome Failure) :
    Option (State × Option Failure) :=
  match runKnownExchange s call .ordinary false reply.outcome fun _ => reply.parsed with
  | none => none
  | some (t, .error (failure, status)) => failRecovered t call failure status recovery
  | some (t, .ok ((), status)) =>
    if status = .idle then some (t, none)
    else
      failRecovered t call
        (.error ("structured operation ended with PostgreSQL transaction status '" ++
          status.text ++ "' outside a callback transaction")) (some status) recovery

/-- `#beginControlUnlocked`: the failure it throws. -/
def beginControl (s : State) (call : Nat) (o recovery : Outcome Failure) :
    Option (State × Option Failure) :=
  match runControl s call .begin o with
  | none => none
  | some (t, .error (failure, status)) => failRecovered t call failure status recovery
  | some (t, .ok (tag, status)) =>
    if tag = some "BEGIN" ∧ status = .transaction then some (t, none)
    else
      failRecovered t call (boundaryError .begin tag .transaction status) (some status) recovery

inductive Committed where
  | committed
  | rolledBack
deriving DecidableEq, Repr

/-- `#commitControlUnlockedBody`. -/
def commitControlBody (s : State) (call : Nat) (o : Outcome Failure) :
    Option (State × Except Failure Committed) :=
  let unknown (t : State) (failure : Failure) : State × Except Failure Committed :=
    (t.poison (.caused "COMMIT outcome is unknown; close the database" failure) false,
      .error failure)
  match runControl s call .commit o with
  | none => none
  | some (t, .error (failure, _)) => some (unknown t failure)
  | some (t, .ok (tag, status)) =>
    if tag = some "COMMIT" ∧ status = .idle then some (t, .ok .committed)
    else if tag = some "ROLLBACK" ∧ status = .idle then some (t, .ok .rolledBack)
    else some (unknown t (boundaryError .commit tag .idle status))

/-- `#commitControlUnlocked`. -/
def commitControl (s : State) (call : Nat) (admission : Admission) (o : Outcome Failure) :
    Option (State × Except Failure Committed) :=
  match s.admitted admission with
  | none => none
  | some (.error failure) => some (s, .error failure)
  | some (.ok ()) => commitControlBody s call o

/-- `#rollbackControlUnlockedBody`: the failure it throws. -/
def rollbackControlBody (s : State) (call : Nat) (o : Outcome Failure) :
    Option (State × Option Failure) :=
  let unknown (t : State) (failure : Failure) : State × Option Failure :=
    (t.poison (.caused "ROLLBACK failed; PostgreSQL session state is unknown" failure) false,
      some failure)
  match runControl s call .rollback o with
  | none => none
  | some (t, .error (failure, _)) => some (unknown t failure)
  | some (t, .ok (tag, status)) =>
    if tag = some "ROLLBACK" ∧ status = .idle then some (t, none)
    else
      let failure := boundaryError .rollback tag .idle status
      some (unknown (t.poison failure false) failure)

/-- `#rollbackControlUnlocked`. -/
def rollbackControl (s : State) (call : Nat) (admission : Admission) (o : Outcome Failure) :
    Option (State × Option Failure) :=
  match s.admitted admission with
  | none => none
  | some (.error failure) => some (s, some failure)
  | some (.ok ()) => rollbackControlBody s call o

def State.setHandle (s : State) (h : Handle) : State := { s with handle := h }

/-- A method of the handle up to its admission; a handle that is not active refuses. -/
def Handle.enqueue (h : Handle) (op : HandleOperation) : Handle :=
  if h.state = .active then
    match op with
    | .statement _ => { h with tail := h.tail ++ [{ operation := op, expired := false }] }
    | .rollback =>
      { h with
        state := .finishing
        rollbackCalled := true
        tail := h.tail ++ [{ operation := op, expired := false }] }
  else h

def Handle.markFailed (h : Handle) (failure : Failure) (needsRollback : Bool) : Handle :=
  { h with failure := some (h.failure.getD (failure, needsRollback)), state := .failed }

/-- An operation of the handle rejects. -/
def Handle.reject (h : Handle) (failure : Failure) : Handle :=
  { h with firstFailure := some (h.firstFailure.getD failure) }

/-- `#runTransactionExchange`: the failure it throws. -/
def runTransactionExchange (s : State) (call : Nat) (reply : Reply) :
    Option (State × Option Failure) :=
  match runKnownExchange s call .statement true reply.outcome fun _ => reply.parsed with
  | none => none
  | some (t, .error (failure, status)) =>
    if status = none ∨ status = some .idle then
      some ((t.setHandle (t.handle.markFailed failure false)).poison failure false, some failure)
    else some (t, some failure)
  | some (t, .ok ((), status)) =>
    if status = .transaction then some (t, none)
    else
      let failure := .error ("callback transaction operation ended with PostgreSQL status '" ++
        status.text ++ "'")
      let marked := t.setHandle (t.handle.markFailed failure (status = .failed))
      some (if status = .idle then marked.poison failure false else marked, some failure)

/-- The answers to the exchanges of one operation. -/
structure Replies where
  describe : Reply
  exchange : Reply
  recovery : Outcome Failure
  /-- the failure of a caller's parameter codec -/
  bind : Option Failure

/-- `runQueryPlan` over an exchange: the failure it throws. -/
def runQueryPlan (exchange : State → Reply → Option (State × Option Failure)) (s : State)
    (plan : Plan) (replies : Replies) : Option (State × Option Failure) :=
  match plan with
  | .complete => exchange s replies.exchange
  | .describe =>
    match exchange s replies.describe with
    | none => none
    | some (t, some failure) => some (t, some failure)
    | some (t, none) =>
      match replies.bind with
      | some failure => some (t, some failure)
      | none => exchange t replies.exchange

/-- The body of an admitted operation of the handle: the failure it throws. -/
def runHandleBody (s : State) (call : Nat) (op : HandleOperation) (control : Admission)
    (replies : Replies) : Option (State × Option Failure) :=
  match op with
  | .statement plan => runQueryPlan (fun s => runTransactionExchange s call) s plan replies
  | .rollback =>
    match rollbackControl s call control replies.exchange.outcome with
    | none => none
    | some (t, some failure) =>
      some (t.setHandle (t.handle.markFailed failure false), some failure)
    | some (t, none) => some (t.setHandle { t.handle with state := .rolledBack }, none)

/-- The turn of the first place in the handle's chain. -/
def startHandleOperation (s : State) (call : Nat) (w : Waiting) (rest : List Waiting)
    (late : Bool) (control : Admission) (replies : Replies) : Option State :=
  let popped := s.setHandle { s.handle with tail := rest }
  if w.expired then some popped
  else
    match popped.admitted (if late then .late else .inTime) with
    | none => none
    | some (.error failure) => some (popped.setHandle (popped.handle.reject failure))
    | some (.ok ()) =>
      match runHandleBody popped call w.operation control replies with
      | none => none
      | some (t, some failure) => some (t.setHandle (t.handle.reject failure))
      | some (t, none) => some t

/-- The timer of a waiting operation of the handle. -/
def expireHandleOperation (s : State) (index : Nat) : Option State :=
  match s.handle.tail[index]? with
  | some w =>
    if s.timeout ∧ w.expired = false then
      some (s.setHandle ({ s.handle with
        tail := s.handle.tail.set index { w with expired := true } }.reject
          (brokerDeadlineError "deadline" s.poisoned.isSome)))
    else none
  | none => none

/-- The promise of a transaction settles; its handle expires. -/
def State.settle (s : State) (call : Nat) (error : Option Failure) : State :=
  { s with
    running := none
    activeTransaction := false
    handle := { s.handle with state := .expired }
    settled := s.settled ++ [{
      call := call
      error := error
      inBlock := s.inBlock
      poisoned := s.poisoned.isSome }] }

/-- What `sealAndDrain` returns. -/
inductive Settlement where
  | ready
  | rolledBack
  | failed (error : Failure) (needsRollback : Bool)
deriving DecidableEq, Repr

def Handle.settlement (h : Handle) : Settlement :=
  match h.state, h.failure with
  | .rolledBack, _ => .rolledBack
  | .failed, some (error, needsRollback) => .failed error needsRollback
  | .failed, none => .failed (.error "transaction failed without retaining its cause") false
  | _, _ => .ready

/-- `sealAndDrain` up to its await. -/
def Handle.seal (h : Handle) : Handle :=
  if h.state = .active then { h with state := .finishing } else h

/-- `ROLLBACK`, then reject with `primary`. -/
def settleRollback (s : State) (call : Nat) (primary : Failure) (control : Admission)
    (o : Outcome Failure) : Option State :=
  match rollbackControl s call control o with
  | none => none
  | some (t, some failure) => some (t.settle call (some (.aggregate primary failure
      "Oliphaunt transaction failed and automatic ROLLBACK could not prove recovery")))
  | some (t, none) => some (t.settle call (some primary))

/-- The callback has thrown and the handle's chain is drained. -/
def settleThrown (s : State) (call : Nat) (thrown : Failure) (control : Admission)
    (o : Outcome Failure) : Option State :=
  match s.handle.settlement with
  | .ready => settleRollback s call thrown control o
  | .failed error needsRollback =>
    if needsRollback then settleRollback s call thrown control o
    else if error ≠ thrown then
      some (s.settle call (some (.aggregate thrown error
        "Oliphaunt transaction callback failed after an independent database failure")))
    else some (s.settle call (some thrown))
  | .rolledBack => some (s.settle call (some thrown))

/-- The callback has returned and the handle's chain is drained. -/
def settleReturned (s : State) (call : Nat) (control : Admission) (o : Outcome Failure) :
    Option State :=
  match s.handle.settlement with
  | .rolledBack => some (s.settle call none)
  | .failed error needsRollback =>
    if needsRollback then settleRollback s call error control o
    else some (s.settle call (some error))
  | .ready =>
    match commitControl s call control o with
    | none => none
    | some (t, .error failure) => some (t.settle call (some failure))
    | some (t, .ok .rolledBack) =>
      some (t.settle call (some (t.handle.firstFailure.getD
        (boundaryError .commit (some "ROLLBACK") .idle .idle))))
    | some (t, .ok .committed) => some (t.settle call none)

/-- A method of the database up to its admission; a refused call changes nothing. -/
def callOperation (s : State) (op : Operation) : State :=
  match s.assertAvailable with
  | .error _ => s
  | .ok () =>
    if s.activeTransaction then s
    else
      { s with
        operationTail := s.operationTail ++
          [{ call := s.nextCall, operation := op, expired := false }]
        nextCall := s.nextCall + 1
        activeTransaction := decide (op = .transaction) }

/-- The timer of a waiting call. -/
def expireOperation (s : State) (index : Nat) : Option State :=
  match s.operationTail[index]? with
  | some q =>
    if s.timeout ∧ q.expired = false then
      some { s with
        operationTail := s.operationTail.set index { q with expired := true }
        activeTransaction := if q.operation = .transaction then false else s.activeTransaction }
    else none
  | none => none

/-- A raw exchange, whole or streamed: only a failure of the transport poisons. -/
def runRaw (s : State) (call : Nat) (o : Outcome Failure) : Option State :=
  if ¬ Believable s.inBlock o then none
  else
    match o.result with
    | .error failure => some ((s.send call .ordinary o).poison failure false)
    | .ok _ => some (s.send call .ordinary o)

/-- A backup leaves the transaction state alone; only a broker failure poisons. -/
def runBackup (s : State) (call : Nat) (o : Outcome Failure) : State :=
  let t := s.send call .ordinary { o with inBlock := s.inBlock }
  match o.result with
  | .error (.broker message reason requiresReopen) =>
    t.poison (.broker message reason requiresReopen) false
  | _ => t

/-- The body of an admitted call. -/
def runBody (s : State) (call : Nat) (op : Operation) (replies : Replies) : Option State :=
  match op with
  | .structured plan =>
    (runQueryPlan (fun s reply => runOrdinaryExchange s call reply replies.recovery) s plan
      replies).map Prod.fst
  | .execProtocolRaw => runRaw s call replies.exchange.outcome
  | .execProtocolRawStream => runRaw s call replies.exchange.outcome
  | .backup => some (runBackup s call replies.exchange.outcome)
  | .transaction =>
    match beginControl (s.setHandle .fresh) call replies.exchange.outcome replies.recovery with
    | none => none
    | some (t, some failure) => some (t.settle call (some failure))
    | some (t, none) => some { t with running := some (call, .body) }

/-- The turn of the first place in `#operationTail`. -/
def startOperation (s : State) (q : Queued) (rest : List Queued) (late : Bool)
    (replies : Replies) : Option State :=
  let popped := { s with operationTail := rest }
  if q.expired then some popped
  else
    match popped.admitted (if late then .late else .inTime) with
    | none => none
    | some (.error _) =>
      -- the promise of the call rejects, that of a transaction unpins the session
      some (if q.operation = .transaction then { popped with activeTransaction := false }
        else popped)
    | some (.ok ()) => runBody popped q.call q.operation replies

/-- `close()` up to its attempt. -/
def startClose (s : State) : State :=
  if s.closing ∨ s.closed ∨ s.activeTransaction then s
  else { s with closing := true, closeTeardownStarted := s.broker }

/-- The close attempt settles; a failure that is not terminal reopens the database. -/
def finishClose (s : State) (closes : Bool) : State :=
  if closes then { s with closing := false, closed := true, closeTeardownStarted := true }
  else { s with closing := false, closeTeardownStarted := false }

inductive Action where
  -- callers
  | call (op : Operation)
  | handleCall (op : HandleOperation)
  | callbackReturns
  | callbackThrows (failure : Failure)
  | close
  -- timers
  | expire (index : Nat)
  | handleExpire (index : Nat)
  -- turns, with the answers of the native module
  | start (late : Bool) (replies : Replies)
  | handleStart (late : Bool) (control : Admission) (replies : Replies)
  | drained (control : Admission) (o : Outcome Failure)
  | closeSettles (closes : Bool)

def step (s : State) : Action → Option State
  | .call op => some (callOperation s op)
  | .handleCall op => some (s.setHandle (s.handle.enqueue op))
  | .callbackReturns =>
    match s.running with
    | some (call, .body) =>
      some { s with running := some (call, .draining none), handle := s.handle.seal }
    | _ => none
  | .callbackThrows failure =>
    match s.running with
    | some (call, .body) =>
      some { s with running := some (call, .draining (some failure)), handle := s.handle.seal }
    | _ => none
  | .close => some (startClose s)
  | .expire index => expireOperation s index
  | .handleExpire index => expireHandleOperation s index
  | .start late replies =>
    match s.running, s.operationTail with
    | none, q :: rest => startOperation s q rest late replies
    | _, _ => none
  | .handleStart late control replies =>
    match s.running, s.handle.tail with
    | some (call, _), w :: rest => startHandleOperation s call w rest late control replies
    | _, _ => none
  | .drained control o =>
    match s.running, s.handle.tail with
    | some (call, .draining none), [] => settleReturned s call control o
    | some (call, .draining (some thrown)), [] => settleThrown s call thrown control o
    | _, _ => none
  | .closeSettles closes =>
    if s.closing ∧ (s.broker ∨ (s.running = none ∧ s.operationTail = [])) then
      some (finishClose s closes)
    else none

/-! ## Answers of the native module -/

/-- PostgreSQL completes a command and reports the status it is in. -/
def completes (tag : String) (status : ReadyStatus) : Outcome Failure where
  result := .ok { ready := .ok status, tags := .ok [tag], command := .ok (some tag) }
  inBlock := status ≠ .idle

/-- The answers to an operation of one exchange. -/
def answers (o : Outcome Failure) : Replies where
  describe := { outcome := o, parsed := .ok () }
  exchange := { outcome := o, parsed := .ok () }
  recovery := o
  bind := none

/-- `transaction()` gets its turn, and PostgreSQL opens a block. -/
def begun : List Action :=
  [.call .transaction, .start false (answers (completes "BEGIN" .transaction))]

/-- A statement is called, and the native module answers. -/
def stated (o : Outcome Failure) : List Action :=
  [.handleCall (.statement .complete), .handleStart false .inTime (answers o)]

end Oliphaunt.ReactNative
