import Oliphaunt.Model.Transition
import Oliphaunt.TS.Boundary

/-!
# Oliphaunt — the native TypeScript database

`native/sdks/ts/src/client.ts`: `OliphauntDatabaseBase` and its transaction
handle over a runtime binding. Database calls are chained on `#operationTail`
and run one after the other; a callback transaction is one such operation that
runs the statements of its handle on a chain of its own, `#tail`.

A step is the code of one continuation up to its next await. What a caller does
and what the binding answers is chosen by the environment, and continuations that
are ready may run in any order. `calls` records what reached the binding.

Calls made from inside a stream chunk callback are rejected before they touch
anything (`#streamCallbackActive`) and are not steps of the model.
-/

namespace Oliphaunt.NativeTs

inductive Error where
  | error (message : String)
  | caused (message : String) (cause : Error)
  | aggregate (callback secondary : Error) (message : String)
deriving DecidableEq, Repr

/-- The functions of `RuntimeBinding` that take the handle of the session. -/
inductive Call where
  | execProtocolRaw
  | execProtocolStream
  | backup
  | cancel
  | close
deriving DecidableEq, Repr

/-- The calls that make PostgreSQL work. -/
def Call.isSession : Call → Bool
  | .cancel | .close => false
  | _ => true

inductive Operation where
  /-- `execute`, `query`, `queryRaw`, `exec`, `describe` -/
  | structured (plan : Plan)
  | execProtocolRaw
  | execProtocolRawStream
  | backup
  | transaction
deriving DecidableEq, Repr

inductive HandleState where
  | active
  | finishing
  | closed
deriving DecidableEq, Repr

/-- What is chained on the `#tail` of a transaction handle. -/
inductive HandleOperation where
  | statement (plan : Plan)
  | rollback
deriving DecidableEq, Repr

/-- The exchange that the running operation of a handle awaits. -/
inductive HandleExchange where
  | describe
  | statement
  | rollback
deriving DecidableEq, Repr

/-- `OliphauntTransactionHandle`. -/
structure Handle where
  state : HandleState
  tail : List HandleOperation
  running : Option HandleExchange
  /-- the promise of `rollback()`, with its result once it has settled -/
  rollbackAttempt : Option (Option (Except Error Unit))
  rolledBack : Bool
  firstFailure : Option Error

def Handle.fresh : Handle where
  state := .active
  tail := []
  running := none
  rollbackAttempt := none
  rolledBack := false
  firstFailure := none

/-- Where the running operation waits. -/
inductive Phase where
  -- structured work of the database
  | describe
  | structured
  /-- the automatic `ROLLBACK` of an operation that ends with the given error -/
  | recovering (error : Error)
  | raw
  | stream
  | backup
  -- a callback transaction
  | begin
  /-- the `ROLLBACK` after an unexpected `BEGIN`; its own failure may be dropped -/
  | beginRecovering (error : Error) (dropFailure : Bool)
  | body
  /-- the callback has returned or thrown, and the handle's chain is awaited -/
  | draining (thrown : Option Error)
  | rollingBack (thrown : Error)
  | commit
deriving DecidableEq, Repr

structure State where
  closed : Bool
  closing : Bool
  runtimeCloseActive : Bool
  activeTransaction : Bool
  sessionFailure : Option Error
  operationTail : List Operation
  running : Option (Operation × Phase)
  handle : Handle
  calls : List Call
  /-- operations whose promise has settled, with the error of a rejection -/
  settled : List (Operation × Option Error)

/-- A database that has just been published. -/
def opened : State where
  closed := false
  closing := false
  runtimeCloseActive := false
  activeTransaction := false
  sessionFailure := none
  operationTail := []
  running := none
  handle := { Handle.fresh with state := .closed }
  calls := []
  settled := []

def State.call (s : State) (c : Call) : State := { s with calls := s.calls ++ [c] }

/-- `#poison`: the first failure is kept. -/
def State.poison (s : State) (error : Error) (message : String) : State :=
  { s with sessionFailure := some (s.sessionFailure.getD (.caused message error)) }

def State.assertHealthy (s : State) : Except Error Unit :=
  match s.sessionFailure with
  | some failure =>
    .error (.caused "Oliphaunt session state is unknown; close the database" failure)
  | none => .ok ()

def State.assertOpen (s : State) : Except Error Unit :=
  if s.closed then .error (.error "Oliphaunt database is closed")
  else if s.closing then .error (.error "Oliphaunt database is closing")
  else s.assertHealthy

/-- The promise of the running operation settles; that of a transaction also
deactivates its handle and unpins the session. -/
def State.finish (s : State) (op : Operation) (error : Option Error) : State :=
  let done := { s with running := none, settled := s.settled ++ [(op, error)] }
  if op = .transaction then
    { done with activeTransaction := false, handle := { s.handle with state := .closed } }
  else done

/-- A call that is rejected before it is chained. -/
def State.reject (s : State) (op : Operation) (error : Error) : State :=
  { s with settled := s.settled ++ [(op, some error)] }

def State.await (s : State) (op : Operation) (phase : Phase) : State :=
  { s with running := some (op, phase) }

/-- `runNativeOperation`: a binding that resolves to nothing has failed. -/
def runNativeOperation (result : Except Error (Option Response)) : Except Error Response :=
  match result with
  | .error error => .error error
  | .ok none => .error (.error "native oliphaunt runtime operation returned no result")
  | .ok (some response) => .ok response

/-- How `#executeTransactionControlUnlocked` goes on after its exchange. -/
inductive ControlStep where
  | done
  | rolledBack
  | failed (error : Error)
  /-- recover to idle, then throw -/
  | recover (error : Error) (dropFailure : Bool)
deriving DecidableEq, Repr

/-- `#executeTransactionControlUnlocked` once the binding has answered. -/
def observeControl (s : State) (control : Control) (result : Except Error Response) :
    State × ControlStep :=
  match result with
  | .error error =>
    (s.poison error (control.sql ++ " transport outcome is unknown"), .failed error)
  | .ok response =>
    match inspectReadyForQuery response with
    | .error message =>
      (s.poison (.error message) (control.sql ++ " did not reach a valid ReadyForQuery boundary"),
        .failed (.error message))
    | .ok status =>
      match parseCommandResponse response with
      | .error message =>
        match control with
        | .begin =>
          if status ≠ .idle then (s, .recover (.error message) true)
          else (s, .failed (.error message))
        | _ =>
          (s.poison (.error message) (control.sql ++
            " did not return its exact command boundary"), .failed (.error message))
      | .ok command =>
        let error := Error.error (transactionBoundaryError control command.commandTag status)
        match control with
        | .begin =>
          if command.commandTag = some "BEGIN" ∧ status = .transaction then (s, .done)
          else if status ≠ .idle then (s, .recover error false)
          else (s, .failed error)
        | _ =>
          if control = .commit ∧ command.commandTag = some "ROLLBACK" ∧ status = .idle then
            (s, .rolledBack)
          else if command.commandTag = some control.sql ∧ status = .idle then (s, .done)
          else
            (s.poison error (control.sql ++ " returned an unrecognized transaction boundary"),
              .failed error)

/-- The error of `#recoverDatabaseBoundaryUnlocked`. -/
def recoveryError (cause : Error) : Error :=
  .caused "PostgreSQL session could not be recovered to idle; close the database" cause

/-- `#recoverDatabaseBoundaryUnlocked` fails. -/
def State.recoveryFailed (s : State) (cause : Error) : State :=
  s.poison cause "PostgreSQL automatic rollback did not prove recovery"

/-- `#recoverDatabaseBoundaryUnlocked` up to its exchange. -/
def startRecovery (s : State) (op : Operation) (phase : Phase) (failed : Error → Error) : State :=
  match s.assertHealthy with
  | .error cause => (s.recoveryFailed cause).finish op (some (failed (recoveryError cause)))
  | .ok () => (s.call .execProtocolRaw).await op phase

/-- The exchange of `#runStructuredUnlocked` in the scope `database`, decoded. -/
inductive StructuredStep where
  | done
  | failed (error : Error)
  /-- the response left a block open: recover, then throw -/
  | recover (error : Error)
deriving DecidableEq, Repr

def observeDatabaseExchange (s : State) (result : Except Error Response) :
    State × StructuredStep :=
  match result with
  | .error error =>
    (s.poison error "structured PostgreSQL transport outcome is unknown", .failed error)
  | .ok response =>
    match inspectReadyForQuery response with
    | .error message =>
      (s.poison (.error message)
        "structured PostgreSQL response has no valid readiness boundary", .failed (.error message))
    | .ok status =>
      match parseCommandResponse response with
      | .error message =>
        (s, if status ≠ .idle then .recover (.error message) else .failed (.error message))
      | .ok _ =>
        (s, if status ≠ .idle then .recover (.error
            ("structured database operation ended with PostgreSQL transaction status " ++
              status.text ++ "; Oliphaunt rolled it back"))
          else .done)

/-- The exchange of `#runStructuredUnlocked` in the scope `transaction`, decoded. -/
def observeTransactionExchange (s : State) (result : Except Error Response) :
    State × Except Error Unit :=
  match result with
  | .error error =>
    (s.poison error "structured PostgreSQL transport outcome is unknown", .error error)
  | .ok response =>
    match inspectManagedTransactionResponse response with
    | .error message =>
      (s.poison (.error message)
        "callback transaction ownership escaped or its response boundary was invalid",
        .error (.error message))
    | .ok _ =>
      match parseCommandResponse response with
      | .error message => (s, .error (.error message))
      | .ok _ => (s, .ok ())

/-- How a streaming call settles: an error of the chunk callback that the adapter
reports as its own is a proven recovery. -/
inductive StreamResult where
  | ok
  | callback (error : Error)
  | failed (error : Error)
deriving DecidableEq, Repr

/-- A database method up to the chaining of its operation. -/
def callOperation (s : State) (op : Operation) : State :=
  if s.activeTransaction then
    s.reject op (.error "physical session is pinned; use the active OliphauntTransaction")
  else
    match s.assertOpen with
    | .error error => s.reject op error
    | .ok () =>
      -- a transaction pins the session before its BEGIN runs
      { s with
        operationTail := s.operationTail ++ [op]
        activeTransaction := decide (op = .transaction) }

/-- The first operation of the chain starts. -/
def startOperation (s : State) (op : Operation) : State :=
  match s.assertHealthy with
  | .error error => s.finish op (some error)
  | .ok () =>
    match op with
    | .structured .complete => (s.call .execProtocolRaw).await op .structured
    | .structured .describe => (s.call .execProtocolRaw).await op .describe
    | .execProtocolRaw => (s.call .execProtocolRaw).await op .raw
    | .execProtocolRawStream => (s.call .execProtocolStream).await op .stream
    | .backup => (s.call .backup).await op .backup
    | .transaction => (s.call .execProtocolRaw).await op .begin

/-- What a transaction throws after its callback failed with `error`. -/
def callbackFailure (s : State) (error : Error) (rollbackFailure : Option Error) : Error :=
  match rollbackFailure with
  | some failure =>
    if failure ≠ error then
      .aggregate error failure "transaction callback and rollback both failed"
    else databaseFailure
  | none => databaseFailure
where
  databaseFailure : Error :=
    match s.sessionFailure with
    | none => error
    | some failure =>
      let failure := s.handle.firstFailure.getD failure
      if failure ≠ error then
        .aggregate error failure
          "transaction callback and an independent database failure both occurred"
      else error

/-- The callback has thrown `error` and the handle's chain has settled. -/
def settleFailed (s : State) (op : Operation) (error : Error) : State :=
  match s.handle.rollbackAttempt with
  | some (some (.error failure)) => s.finish op (some (callbackFailure s error (some failure)))
  | some _ => s.finish op (some (callbackFailure s error none))
  | none =>
    match s.assertHealthy with
    | .error _ => s.finish op (some (callbackFailure s error none))
    | .ok () => (s.call .execProtocolRaw).await op (.rollingBack error)

/-- The callback has returned and the handle's chain has settled. -/
def settleReturned (s : State) (op : Operation) : State :=
  match s.handle.rollbackAttempt with
  | some (some (.error failure)) => settleFailed s op failure
  | _ =>
    if s.handle.rolledBack then s.finish op none
    else
      match s.sessionFailure, s.handle.firstFailure with
      | some _, some failure => s.finish op (some failure)
      | _, _ =>
        match s.assertHealthy with
        | .error error => s.finish op (some error)
        | .ok () => (s.call .execProtocolRaw).await op .commit

/-- The binding has answered the running operation. `bind` is the failure of a
caller's parameter codec. -/
def observeReply (s : State) (op : Operation) (result : Except Error (Option Response))
    (bind : Option Error) : Phase → Option State
  | .describe =>
    let r := observeDatabaseExchange s (runNativeOperation result)
    match r.2 with
    | .failed error => some (r.1.finish op (some error))
    | .recover error => some (startRecovery r.1 op (.recovering error) id)
    | .done =>
      match bind with
      | some error => some (r.1.finish op (some error))
      | none => some ((r.1.call .execProtocolRaw).await op .structured)
  | .structured =>
    let r := observeDatabaseExchange s (runNativeOperation result)
    match r.2 with
    | .failed error => some (r.1.finish op (some error))
    | .recover error => some (startRecovery r.1 op (.recovering error) id)
    | .done => some (r.1.finish op none)
  | .recovering error =>
    let r := observeControl s .rollback (runNativeOperation result)
    match r.2 with
    | .failed cause => some ((r.1.recoveryFailed cause).finish op (some (recoveryError cause)))
    | _ => some (r.1.finish op (some error))
  | .raw =>
    match runNativeOperation result with
    | .error error =>
      some ((s.poison error "raw PostgreSQL transport outcome is unknown").finish op (some error))
    | .ok _ => some (s.finish op none)
  | .backup =>
    match runNativeOperation result with
    | .error error => some (s.finish op (some error))
    | .ok _ => some (s.finish op none)
  | .begin =>
    let r := observeControl s .begin (runNativeOperation result)
    match r.2 with
    | .failed error => some (r.1.finish op (some error))
    | .recover error dropFailure =>
      some (startRecovery r.1 op (.beginRecovering error dropFailure)
        fun failure => if dropFailure then error else failure)
    | _ => some ({ r.1 with handle := .fresh }.await op .body)
  | .beginRecovering error dropFailure =>
    let r := observeControl s .rollback (runNativeOperation result)
    match r.2 with
    | .failed cause =>
      some ((r.1.recoveryFailed cause).finish op
        (some (if dropFailure then error else recoveryError cause)))
    | _ => some (r.1.finish op (some error))
  | .rollingBack error =>
    let r := observeControl s .rollback (runNativeOperation result)
    match r.2 with
    | .failed failure => some (r.1.finish op (some (callbackFailure r.1 error (some failure))))
    | _ => some (r.1.finish op (some (callbackFailure r.1 error none)))
  | .commit =>
    let r := observeControl s .commit (runNativeOperation result)
    match r.2 with
    | .failed error => some (r.1.finish op (some error))
    | .rolledBack =>
      some (r.1.finish op (some (s.handle.firstFailure.getD
        (.error (transactionTagError "COMMIT" (some "ROLLBACK"))))))
    | _ => some (r.1.finish op none)
  | _ => none

def observeStream (s : State) (op : Operation) : StreamResult → State
  | .ok => s.finish op none
  | .callback error => s.finish op (some error)
  | .failed error =>
    (s.poison error "streaming raw PostgreSQL recovery was not proven").finish op (some error)

def State.setHandle (s : State) (h : Handle) : State := { s with handle := h }

def Handle.seal (h : Handle) : Handle :=
  if h.state = .active then { h with state := .finishing } else h

/-- A method of the handle up to the chaining of its operation; a handle that is
not active rejects it. -/
def Handle.enqueue (h : Handle) (op : HandleOperation) : Handle :=
  if h.state = .active then
    match op with
    | .statement _ => { h with tail := h.tail ++ [op] }
    | .rollback =>
      { h with tail := h.tail ++ [op], state := .finishing, rollbackAttempt := some none }
  else h

/-- An operation of the chain has settled. -/
def Handle.settle (h : Handle) (error : Option Error) : Handle :=
  { h with running := none, firstFailure := h.firstFailure.orElse fun _ => error }

/-- The `rollback()` of the handle has settled. -/
def Handle.settleRollback (h : Handle) (result : Except Error Unit) : Handle :=
  match result with
  | .ok () =>
    { h.settle none with
      rolledBack := true, state := .closed, rollbackAttempt := some (some result) }
  | .error error =>
    { h.settle (some error) with state := .closed, rollbackAttempt := some (some result) }

/-- The first operation of the handle's chain starts. A statement goes to the
binding directly; only the control of `rollback()` asserts the session's health. -/
def startHandleOperation (s : State) (rest : List HandleOperation) : HandleOperation → State
  | .statement plan =>
    let exchange := match plan with
      | .complete => HandleExchange.statement
      | .describe => HandleExchange.describe
    (s.call .execProtocolRaw).setHandle { s.handle with tail := rest, running := some exchange }
  | .rollback =>
    match s.assertHealthy with
    | .error error => s.setHandle ({ s.handle with tail := rest }.settleRollback (.error error))
    | .ok () =>
      (s.call .execProtocolRaw).setHandle
        { s.handle with tail := rest, running := some .rollback }

/-- The binding has answered the running operation of the handle. -/
def observeHandleReply (s : State) (result : Except Error (Option Response))
    (bind : Option Error) : HandleExchange → State
  | .describe =>
    let r := observeTransactionExchange s (runNativeOperation result)
    match r.2, bind with
    | .error error, _ => r.1.setHandle (s.handle.settle (some error))
    | .ok (), some error => r.1.setHandle (s.handle.settle (some error))
    | .ok (), none =>
      (r.1.call .execProtocolRaw).setHandle { s.handle with running := some .statement }
  | .statement =>
    let r := observeTransactionExchange s (runNativeOperation result)
    match r.2 with
    | .error error => r.1.setHandle (s.handle.settle (some error))
    | .ok () => r.1.setHandle (s.handle.settle none)
  | .rollback =>
    let r := observeControl s .rollback (runNativeOperation result)
    match r.2 with
    | .failed error => r.1.setHandle (s.handle.settleRollback (.error error))
    | _ => r.1.setHandle (s.handle.settleRollback (.ok ()))

/-- `close()` up to the chaining of its attempt. -/
def startClose (s : State) : State :=
  if s.closing ∨ s.closed ∨ s.activeTransaction then s else { s with closing := true }

/-- The close attempt once every admitted operation has settled; a retryable
outcome reopens admission. -/
def runClose (s : State) (retryable : Bool) : State :=
  let called := s.call .close
  if retryable then { called with closing := false, runtimeCloseActive := false }
  else { called with closing := false, runtimeCloseActive := true, closed := true }

inductive Action where
  -- callers
  | call (op : Operation)
  | handleCall (op : HandleOperation)
  | callbackReturns
  | callbackThrows (error : Error)
  | cancel
  | close
  -- continuations
  | start
  | handleStart
  | drained
  | runClose (retryable : Bool)
  -- the binding
  | reply (result : Except Error (Option Response)) (bind : Option Error)
  | streamReply (result : StreamResult)
  | handleReply (result : Except Error (Option Response)) (bind : Option Error)

def step (s : State) : Action → Option State
  | .call op => some (callOperation s op)
  | .handleCall op => some (s.setHandle (s.handle.enqueue op))
  | .callbackReturns =>
    match s.running with
    | some (op, .body) => some ((s.setHandle s.handle.seal).await op (.draining none))
    | _ => none
  | .callbackThrows error =>
    match s.running with
    | some (op, .body) => some ((s.setHandle s.handle.seal).await op (.draining (some error)))
    | _ => none
  | .cancel => if s.closed ∨ s.runtimeCloseActive then some s else some (s.call .cancel)
  | .close => some (startClose s)
  | .start =>
    match s.running, s.operationTail with
    | none, op :: rest => some (startOperation { s with operationTail := rest } op)
    | _, _ => none
  | .handleStart =>
    match s.handle.running, s.handle.tail with
    | none, op :: rest => some (startHandleOperation s rest op)
    | _, _ => none
  | .drained =>
    match s.running, s.handle.running, s.handle.tail with
    | some (op, .draining none), none, [] => some (settleReturned s op)
    | some (op, .draining (some error)), none, [] => some (settleFailed s op error)
    | _, _, _ => none
  | .runClose retryable =>
    match s.closing, s.running, s.operationTail with
    | true, none, [] => some (runClose s retryable)
    | _, _, _ => none
  | .reply result bind =>
    match s.running with
    | some (op, phase) => observeReply s op result bind phase
    | none => none
  | .streamReply result =>
    match s.running with
    | some (op, .stream) => some (observeStream s op result)
    | _ => none
  | .handleReply result bind =>
    match s.handle.running with
    | some exchange => some (observeHandleReply s result bind exchange)
    | none => none

end Oliphaunt.NativeTs
