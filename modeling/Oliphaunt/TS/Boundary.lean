import Oliphaunt.Model.Postgres

/-!
# Oliphaunt — requests and response boundaries of the TypeScript query package

What the TypeScript clients share from `query/ts/src/query.ts`: how a statement
is planned, and the checks they run on every response before anything else is
read from it, over the readings of a response.
-/

namespace Oliphaunt

/-- `QueryPlan`: ready to send, or described first to bind its parameters. -/
inductive Plan where
  | complete
  | describe
deriving DecidableEq, Repr

def inspectReadyForQuery (r : Response) : Except String ReadyStatus := r.ready

/-- `inspectManagedTransactionResponse`: the operation of a callback transaction
leaves PostgreSQL in a block and completes no command of the transaction
lifecycle. -/
def inspectManagedTransactionResponse (r : Response) : Except String ReadyStatus :=
  match r.ready, r.tags with
  | .error message, _ => .error message
  | .ok _, .error message => .error message
  | .ok .idle, .ok _ =>
    .error ("structured callback transaction operation ended PostgreSQL transaction ownership;" ++
      " close the database")
  | .ok status, .ok tags =>
    match tags.find? lifecycleTags.contains with
    | some tag =>
      .error ("PostgreSQL command tag " ++ tag ++
        " violated callback transaction ownership; close the database")
    | none => .ok status

/-- A response that passes the check leaves a block open and completed no command of
the transaction lifecycle. -/
theorem inspectManagedTransactionResponse_ok
    (h : inspectManagedTransactionResponse r = .ok status) :
    r.ready = .ok status ∧ status ≠ .idle ∧
      ∃ tags, r.tags = .ok tags ∧ ∀ tag ∈ tags, tag ∉ lifecycleTags := by
  unfold inspectManagedTransactionResponse at h
  split at h <;> try cases h
  · rename_i tags hnot hready htags
    split at h <;> cases h
    rename_i hnone
    refine ⟨hready, hnot, tags, htags, ?_⟩
    intro tag htag hmem
    exact List.find?_eq_none.mp hnone tag htag (List.contains_iff_mem.mpr hmem)

def parseCommandResponse (r : Response) : Except String CommandResult := r.parseCommand

def ReadyStatus.text : ReadyStatus → String
  | .idle => "idle"
  | .transaction => "transaction"
  | .failed => "failed"

/-- The three commands that the SDKs send themselves. -/
inductive Control where
  | begin
  | commit
  | rollback
deriving DecidableEq, Repr

def Control.sql : Control → String
  | .begin => "BEGIN"
  | .commit => "COMMIT"
  | .rollback => "ROLLBACK"

def transactionTagError (expected : String) (actual : Option String) : String :=
  "PostgreSQL transaction command expected " ++ expected ++ ", got " ++
    actual.getD "no command tag"

def transactionBoundaryError (expected : Control) (actual : Option String)
    (status : ReadyStatus) : String :=
  "PostgreSQL transaction command expected " ++ expected.sql ++
    " with its matching readiness status, got " ++ actual.getD "no command tag" ++ " with " ++
    status.text

end Oliphaunt
