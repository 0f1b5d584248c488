import Oliphaunt.Model.Transition
import Oliphaunt.TS.Boundary
import Oliphaunt.TS.SqlChain

/-!
# Oliphaunt — the callback transaction of the WASIX TypeScript database

`WasixDatabaseImpl.transaction` and `WasixTransactionImpl` of
`wasix/sdks/ts/src/core/database.ts`, over a PostgreSQL session that obeys the
rules of transaction blocks. A run is one call of `transaction()`: its `BEGIN`,
the calls on its handle in any order with the exchanges they queue, and the
settlement of the returned promise.

What the engine answers is chosen by the environment (`Answer`): it may lose an
exchange or return bytes without a valid boundary, and then PostgreSQL may be
anywhere; otherwise PostgreSQL ran statements of the text, in order and up to
the first error. It reads the text with its own lexer, in the string mode of the
server, and runs nothing of a text that the lexer refuses. A statement inside an
SQL function body is not run by itself, so the statements that ran are a selection
of those of the text.
-/

namespace Oliphaunt.WasixTs

open TransactionBlock Sql

/-- The words of one statement. -/
abbrev Words := List (Option (List Char))

/-- The statements that PostgreSQL reads in a text, in a string mode of the server. -/
def readings (standardConformingStrings : Bool) (sql : String) : List Words :=
  PostgresLexer.statements standardConformingStrings sql.toList

abbrev Pg := Session Words

/-- A frontend request of the transaction. -/
inductive Request where
  /-- `execute`, `query` and `queryRaw`: one planned statement -/
  | execute (sql : String) (plan : Plan)
  /-- `exec`: a text of statements -/
  | exec (sql : String)
  | describe (sql : String)
  | control (c : Control)
deriving DecidableEq, Repr

/-- The statements that PostgreSQL may run for the request. -/
def Request.Runs (request : Request) (standard : Bool) (ran : List Words) : Prop :=
  match request with
  | .execute sql .complete => ran.length ≤ 1 ∧ ran.Sublist (readings standard sql)
  | .execute _ .describe => ran = []
  | .exec sql => ran.Sublist (readings standard sql)
  | .describe _ => ran = []
  | .control c => ran = readings standard c.sql

instance (request : Request) (standard : Bool) (ran : List Words) :
    Decidable (request.Runs standard ran) := by
  unfold Request.Runs
  split <;> infer_instance

/-- How the engine answers a request. -/
inductive Answer where
  /-- `exec` rejects, with an error of the storage or another one -/
  | lost (storage : Bool) (message : String) (after : Pg)
  /-- a response without a valid boundary -/
  | garbled (message : String) (after : Pg)
  /-- PostgreSQL rejects the text as a whole -/
  | refused (message : String)
  /-- the statements that ran in the given string mode; the text of the error if the last
  one failed -/
  | ran (standard : Bool) (run : List (Words × Verdict)) (message : String)

def readyStatus (pg : Pg) : ReadyStatus :=
  match pg.block with
  | none => .idle
  | some b => if b.failed then .failed else .transaction

/-- The response of a session that reported `tags` and then perhaps an error. -/
def respond (pg : Pg) (tags : List String) (error : Option String) : Response where
  ready := .ok (readyStatus pg)
  tags := .ok tags
  command :=
    match error with
    | some message => .error message
    | none => .ok tags.getLast?
  postgresError := error.isSome

/-- The commands of the statements that ran. -/
def commands (run : List (Words × Verdict)) : List (Words × Command × Verdict) :=
  run.map fun r => (r.1, Command.ofWords r.1, r.2)

/-- One exchange: PostgreSQL after it and what `exec` returned, `none` if PostgreSQL cannot
answer so. -/
def Answer.deliver (answer : Answer) (request : Request) (pg : Pg) :
    Option (Pg × Except (Bool × String) Response) :=
  match answer with
  | .lost storage message after => some (after, .error (storage, message))
  | .garbled message after =>
    some (after, .ok { ready := .error message, tags := .error message, command := .error message })
  | .refused message => some (pg.fail, .ok (respond pg.fail [] (some message)))
  | .ran standard run message =>
    if request.Runs standard (run.map Prod.fst) then
      let r := execAll pg (commands run)
      some (r.1, .ok (respond r.1 r.2.1 (if r.2.2 then some message else none)))
    else none

inductive HandleState where
  | active
  | finishing
  | closed
deriving DecidableEq, Repr

/-- How the promise of `transaction()` settles. -/
inductive Settlement where
  /-- resolved after COMMIT had the outcome `committed` -/
  | committed
  /-- resolved after `rollback()` -/
  | rolledBack
  /-- rejected, with its primary error -/
  | rejected (message : String)
deriving DecidableEq, Repr

inductive Phase where
  | opening
  | callback
  /-- the callback has returned or thrown, and the handle's chain is awaited -/
  | draining (thrown : Option String)
  | settled (settlement : Settlement)
deriving DecidableEq, Repr

structure State where
  postgres : Pg
  transactionFailure : Option String
  persistenceFailure : Option String
  phase : Phase
  handle : HandleState
  /-- the chain `#tail` of the handle -/
  tail : List Request
  /-- the result of `rollback()`, once it has one -/
  rollbackAttempt : Option (Except String Unit)
  firstFailure : Option String
  /-- the block PostgreSQL was in after `BEGIN` -/
  openedBlock : Option Nat

/-- `transaction()` on a healthy database whose session is idle, or inside a block that
raw protocol traffic left open. -/
def initial (failed : Option Bool) (savepoints : Nat) : State where
  postgres := .start failed savepoints
  transactionFailure := none
  persistenceFailure := none
  phase := .opening
  handle := .active
  tail := []
  rollbackAttempt := none
  firstFailure := none
  openedBlock := none

def State.assertHealthy (s : State) : Except String Unit :=
  if s.transactionFailure.isSome then
    .error ("Oliphaunt WASIX database cannot be used after a transaction outcome became unknown;" ++
      " close and reopen it")
  else if s.persistenceFailure.isSome then
    .error ("Oliphaunt WASIX database cannot be used after a persistence boundary failed;" ++
      " close and reopen it")
  else .ok ()

def State.recordUnknownExchange (s : State) (storage : Bool) (message : String) : State :=
  if storage then { s with persistenceFailure := some message }
  else { s with transactionFailure := some (s.transactionFailure.getD message) }

/-- The check of a response before anything else is read from it. -/
def Request.inspect (request : Request) (r : Response) : Except String ReadyStatus :=
  match request with
  | .control _ => inspectReadyForQuery r
  | _ => inspectManagedTransactionResponse r

/-- `#exchangeKnownUnlocked`. -/
def exchangeKnown (s : State) (request : Request) (answer : Answer) :
    Option (State × Except String (Response × ReadyStatus)) :=
  match s.assertHealthy with
  | .error message => some (s, .error message)
  | .ok () =>
    match answer.deliver request s.postgres with
    | none => none
    | some (pg, .error (storage, message)) =>
      some ({ s with postgres := pg }.recordUnknownExchange storage message, .error message)
    | some (pg, .ok response) =>
      match request.inspect response with
      | .error message =>
        some ({ s with postgres := pg }.recordUnknownExchange false message, .error message)
      | .ok status => some ({ s with postgres := pg }, .ok (response, status))

/-- The results of `#executeTransactionControlUnlocked`. -/
inductive ControlOutcome where
  | done
  | committed
  | rolledBack
deriving DecidableEq, Repr

/-- The boundary that a control command has to reach. -/
def Control.outcome (c : Control) (tag : Option String) (status : ReadyStatus) :
    Option ControlOutcome :=
  match c with
  | .begin => if tag = some "BEGIN" ∧ status = .transaction then some .done else none
  | .commit =>
    if tag = some "COMMIT" ∧ status = .idle then some .committed
    else if tag = some "ROLLBACK" ∧ status = .idle then some .rolledBack
    else none
  | .rollback => if tag = some "ROLLBACK" ∧ status = .idle then some .done else none

/-- `#executeTransactionControlUnlocked` for `COMMIT` and `ROLLBACK`. -/
def endControl (s : State) (c : Control) (answer : Answer) :
    Option (State × Except String ControlOutcome) :=
  match exchangeKnown s (.control c) answer with
  | none => none
  | some (t, .error message) => some (t, .error message)
  | some (t, .ok (response, status)) =>
    match parseCommandResponse response with
    | .error message => some ({ t with transactionFailure := some message }, .error message)
    | .ok result =>
      match Control.outcome c result.commandTag status with
      | some outcome => some (t, .ok outcome)
      | none =>
        let message := transactionBoundaryError c result.commandTag status
        some ({ t with transactionFailure := some message }, .error message)

/-- The `ROLLBACK` that undoes an unexpected `BEGIN`; the failure is `message` unless the
rollback's own is kept. -/
def undoBegin (s : State) (status : ReadyStatus) (message : String) (keepOwn : Bool)
    (cleanup : Answer) : Option (State × Except String ControlOutcome) :=
  if status = .idle then some (s, .error message)
  else
    match endControl s .rollback cleanup with
    | none => none
    | some (t, .error own) => some (t, .error (if keepOwn then own else message))
    | some (t, .ok _) => some (t, .error message)

/-- `#executeTransactionControlUnlocked` for `BEGIN`. -/
def beginControl (s : State) (answer cleanup : Answer) :
    Option (State × Except String ControlOutcome) :=
  match exchangeKnown s (.control .begin) answer with
  | none => none
  | some (t, .error message) => some (t, .error message)
  | some (t, .ok (response, status)) =>
    match parseCommandResponse response with
    | .error message => undoBegin t status message false cleanup
    | .ok result =>
      match Control.outcome .begin result.commandTag status with
      | some outcome => some (t, .ok outcome)
      | none =>
        undoBegin t status (transactionBoundaryError .begin result.commandTag status) true cleanup

/-- The methods of the handle that send something. -/
inductive Call where
  | execute (sql : String) (plan : Plan)
  | exec (sql : String)
  | describe (sql : String)
  | rollback
deriving DecidableEq, Repr

def HandleState.assertActive : HandleState → Except String Unit
  | .active => .ok ()
  | .finishing => .error "transaction is finishing"
  | .closed => .error "transaction is no longer active"

/-- A method of the handle up to the chaining of its operation. -/
def State.admitCall (s : State) (call : Call) : Except String State :=
  match call with
  | .execute sql plan => do
    assertNoTransactionChain sql
    s.handle.assertActive
    return { s with tail := s.tail ++ [.execute sql plan] }
  | .exec sql => do
    assertNoTransactionChain sql
    assertNoTopLevelCopy sql
    s.handle.assertActive
    return { s with tail := s.tail ++ [.exec sql] }
  | .describe sql => do
    s.handle.assertActive
    return { s with tail := s.tail ++ [.describe sql] }
  | .rollback => do
    s.handle.assertActive
    return { s with handle := .finishing, tail := s.tail ++ [.control .rollback] }

/-- An operation of the chain rejects; the first failure is kept. -/
def State.operationFailed (s : State) (message : String) : State :=
  { s with firstFailure := some (s.firstFailure.getD message) }

/-- What follows a settled `rollback()`. -/
def State.rollbackSettled (s : State) (result : Except String Unit) : State :=
  { s with handle := .closed, rollbackAttempt := some result }

/-- The chain's next operation; `decoded` is the failure of its decoder, if it has one. -/
def State.runOperation (s : State) (request : Request) (rest : List Request) (answer : Answer)
    (decoded : Option String) : Option State :=
  match request with
  | .control c =>
    match endControl { s with tail := rest } c answer with
    | none => none
    | some (t, .error message) =>
      some ((t.operationFailed message).rollbackSettled (.error message))
    | some (t, .ok _) => some (t.rollbackSettled (.ok ()))
  | _ =>
    match exchangeKnown { s with tail := rest } request answer, decoded with
    | none, _ => none
    | some (t, .error message), _ => some (t.operationFailed message)
    | some (t, .ok _), some message => some (t.operationFailed message)
    | some (t, .ok _), none =>
      match request with
      -- the described statement is bound and sent before the chain goes on
      | .execute sql .describe => some { t with tail := .execute sql .complete :: rest }
      | _ => some t

def State.syncPersistence (s : State) (sync : Except String Unit) : State :=
  match sync with
  | .error message => { s with persistenceFailure := some message }
  | .ok () => s

/-- The promise of `transaction()` settles and the handle is deactivated. -/
def State.settle (s : State) (settlement : Settlement) : State :=
  { s with handle := .closed, phase := .settled settlement }

/-- The promise settles after the persistence boundary, whose failure takes over. -/
def State.settleSynced (s : State) (sync : Except String Unit) (settlement : Settlement) : State :=
  match sync with
  | .error message => (s.syncPersistence sync).settle (.rejected message)
  | .ok () => s.settle settlement

/-- `transaction()` once its `BEGIN` is answered. -/
def State.opened (s : State) (answer cleanup : Answer) (sync : Except String Unit) :
    Option State :=
  match beginControl s answer cleanup with
  | none => none
  | some (t, .ok _) =>
    some { t with phase := .callback, openedBlock := t.postgres.block.map Block.id }
  | some (t, .error message) =>
    match t.assertHealthy with
    | .ok () => some (t.settleSynced sync (.rejected message))
    | .error _ => some (t.settle (.rejected message))

/-- The callback has thrown, or `rollback()` has failed, with the given error. -/
def State.settleFailed (s : State) (message : String) (answer : Answer)
    (sync : Except String Unit) : Option State :=
  match s.rollbackAttempt with
  | some (.ok ()) => some (s.settleSynced sync (.rejected message))
  | some (.error _) => some (s.settle (.rejected message))
  | none =>
    match s.assertHealthy with
    | .error _ => some (s.settle (.rejected message))
    | .ok () =>
      match endControl s .rollback answer with
      | none => none
      | some (t, .error _) => some (t.settle (.rejected message))
      | some (t, .ok _) => some (t.settleSynced sync (.rejected message))

/-- `COMMIT`, and the settlement its outcome leads to. -/
def State.settleCommit (s : State) (answer : Answer) (sync : Except String Unit) : Option State :=
  match endControl s .commit answer with
  | none => none
  | some (t, .error message) => some (t.settle (.rejected message))
  | some (t, .ok .committed) => some (t.settleSynced sync .committed)
  | some (t, .ok _) =>
    some (t.settleSynced sync (.rejected (t.firstFailure.getD
      "PostgreSQL rolled back the transaction instead of committing")))

/-- The settlement once the chain is drained. -/
def State.finish (s : State) (thrown : Option String) (answer : Answer)
    (sync : Except String Unit) : Option State :=
  match thrown, s.rollbackAttempt with
  | some message, _ => s.settleFailed message answer sync
  | none, some (.error message) => s.settleFailed message answer sync
  | none, some (.ok ()) => some (s.settleSynced sync .rolledBack)
  | none, none =>
    match s.transactionFailure, s.firstFailure with
    | some _, some message => some (s.settle (.rejected message))
    | _, _ => s.settleCommit answer sync

inductive Action where
  | begin (answer cleanup : Answer) (sync : Except String Unit)
  | call (call : Call)
  | run (answer : Answer) (decoded : Option String)
  | endBody (thrown : Option String)
  | finish (answer : Answer) (sync : Except String Unit)

/-- The handle's chain runs while the callback runs and until it is drained. -/
def Phase.isOpen : Phase → Bool
  | .callback | .draining _ => true
  | _ => false

def step (s : State) (a : Action) : Option State :=
  match a with
  | .begin answer cleanup sync =>
    if s.phase = .opening then s.opened answer cleanup sync else none
  | .call call =>
    if s.phase = .opening then none
    else
      match s.admitCall call with
      | .ok t => some t
      | .error _ => some s
  | .run answer decoded =>
    if s.phase.isOpen then
      match s.tail with
      | [] => none
      | request :: rest => s.runOperation request rest answer decoded
    else none
  | .endBody thrown =>
    if s.phase = .callback then
      some { s with
        phase := .draining thrown
        handle := if s.handle = .active then .finishing else s.handle }
    else none
  | .finish answer sync =>
    match s.phase, s.tail with
    | .draining thrown, [] => s.finish thrown answer sync
    | _, _ => none

end Oliphaunt.WasixTs
