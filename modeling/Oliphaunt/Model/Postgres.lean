import Mathlib.Tactic.Common

/-!
# Oliphaunt — the PostgreSQL session behind the SDKs

Every SDK drives one physical PostgreSQL session through an engine that takes
a frontend request and returns a backend response. What the SDKs decide on is
not the response bytes but what their response parsers read off them, so an
exchange is described by these readings (`Response`): every combination of
readings is allowed, including ones no well-behaved backend produces.

The session itself is reduced to what the transaction properties are about:
whether PostgreSQL is inside a transaction block after the exchange. The only
fact assumed about the backend is that a readable `ReadyForQuery` reports that
state (`Outcome.Honest`); when no response is read, anything may have happened.
-/

namespace Oliphaunt

/-- The transaction status carried by `ReadyForQuery`. -/
inductive ReadyStatus where
  | idle
  | transaction
  | failed
deriving DecidableEq, Repr

/-- What the response parsers of the query packages read off one backend
response. -/
structure Response where
  /-- the single terminal `ReadyForQuery`, or why the boundary is invalid -/
  ready : Except String ReadyStatus
  /-- the `CommandComplete` tags in order, or why one is malformed -/
  tags : Except String (List String)
  /-- the one-command parser: its failure text or the command tag -/
  command : Except String (Option String)
  /-- the failure of the one-command parser is a PostgreSQL `ErrorResponse` -/
  postgresError : Bool := false
deriving DecidableEq

/-- Result of the one-command parsers. -/
structure CommandResult where
  commandTag : Option String
  readyStatus : ReadyStatus
deriving DecidableEq, Repr

/-- `parse_simple_command_response` / `parseSimpleCommandResponse`: a response
without a valid boundary is not a command result. -/
def Response.parseCommand (r : Response) : Except String CommandResult :=
  match r.command, r.ready with
  | .error e, _ => .error e
  | .ok _, .error e => .error e
  | .ok tag, .ok status => .ok { commandTag := tag, readyStatus := status }

/-- The response completes `tag` and leaves the session in `status`. -/
def Response.Completes (r : Response) (tag : String) (status : ReadyStatus) : Prop :=
  r.parseCommand = .ok { commandTag := some tag, readyStatus := status }

instance (r : Response) (tag : String) (status : ReadyStatus) :
    Decidable (r.Completes tag status) :=
  inferInstanceAs (Decidable (_ = _))

/-- The command tags that end or replace a callback transaction. -/
def lifecycleTags : List String :=
  ["BEGIN", "START TRANSACTION", "COMMIT", "PREPARE TRANSACTION", "COMMIT PREPARED",
    "ROLLBACK PREPARED"]

/-- One exchange with the engine: what it returned, and whether PostgreSQL is
inside a transaction block afterwards. -/
structure Outcome (ε : Type) where
  result : Except ε Response
  inBlock : Bool

/-- A readable `ReadyForQuery` reports the state of the session. -/
def Outcome.Honest {ε : Type} (o : Outcome ε) : Prop :=
  match o.result with
  | .error _ => True
  | .ok r =>
    match r.ready with
    | .error _ => True
    | .ok status => o.inBlock = decide (status ≠ .idle)

instance {ε : Type} (o : Outcome ε) : Decidable o.Honest := by
  unfold Outcome.Honest
  split
  · infer_instance
  · split <;> infer_instance

variable {r : Response}

theorem Response.parseCommand_ready (h : r.parseCommand = .ok c) : r.ready = .ok c.readyStatus := by
  unfold Response.parseCommand at h
  split at h <;> cases h
  · rename_i hready
    exact hready

theorem Response.Completes.ready (h : r.Completes tag status) : r.ready = .ok status :=
  Response.parseCommand_ready h

/-- A readable idle boundary means that no block is open. -/
theorem Outcome.Honest.idle {o : Outcome ε} (h : o.Honest) (hr : o.result = .ok r)
    (hready : r.ready = .ok .idle) : o.inBlock = false := by
  simpa [Outcome.Honest, hr, hready] using h

end Oliphaunt
