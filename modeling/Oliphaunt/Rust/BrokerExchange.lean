import Oliphaunt.Model.Frontend
import Oliphaunt.Model.Transition

/-!
# The broker's exchange loop

One SQL connection of the broker: the loop of `exchange` reads a frontend frame,
and either starts a protocol stream with it, feeds it to the stream that runs, or
first waits for that stream to finish. What it does depends on the tag of the
frame before (`closedInput`).

The stream runs on the worker thread and in the handle of the C layer, which
accepts further input only under its own rules (`Stream.active`, `Stream.feed`)
and is over when the scanner sees a ReadyForQuery. The backend behind it follows
`FrontendProtocol.react`; it reads, processes and writes in its own time. A frame
is its kind here: nothing of its body is looked at.

`deadlocked` is the state of the loop that must not occur: it waits for the end of
a stream, and neither the worker nor the backend has a step left. `SimpleCopyOnly`
is the side condition under which it does not.
-/

namespace Oliphaunt.BrokerExchange

open FrontendProtocol

/-- The frames that `exchange` passes on to a stream whose input is closed. -/
def isCopy : Kind → Bool
  | .copyData | .copyDone | .copyFail => true
  | _ => false

/-- The frames after which `exchange` takes the input of the stream for closed. -/
def closesInput : Kind → Bool
  | .query | .sync | .copyDone | .copyFail => true
  | _ => false

/-- `request_closes_stream_input` of a request of one frame. -/
def requestClosesStreamInput : Kind → Bool
  | .query | .sync | .terminate => true
  | _ => false

/-- Backend messages, as far as the scanner tells them apart: CopyInResponse,
ErrorResponse and ReadyForQuery. -/
inductive Message where
  | copyIn
  | error
  | ready
  | other
deriving DecidableEq, Repr

/-- A stream that runs: the frame it was started with, `stream_input_closed`,
`stream_copy_input` and `output_ready`. -/
structure Stream where
  first : Kind
  inputClosed : Bool
  copyInput : Bool
  ready : Bool
deriving DecidableEq, Repr

def Stream.begin (frame : Kind) : Stream where
  first := frame
  inputClosed := requestClosesStreamInput frame
  copyInput := false
  ready := false

/-- `scan_stream_ready_locked`, one message. -/
def Stream.scan (st : Stream) : Message → Stream
  | .copyIn => { st with copyInput := true }
  | .error => { st with copyInput := false }
  | .ready => { st with copyInput := false, ready := true }
  | .other => st

/-- The stream has a token for more input. -/
def Stream.active (st : Stream) : Bool := !st.ready && (!st.inputClosed || st.copyInput)

/-- What accepted input does to the stream, `none` when a COPY does not take it. -/
def Stream.feed (st : Stream) (frame : Kind) : Option Stream :=
  if st.copyInput then
    if isCopy frame then some { st with copyInput := frame = .copyData } else none
  else some { st with inputClosed := requestClosesStreamInput frame }

/-- The one command of the connection that the worker may have: not yet taken, in
execution, or answered. -/
inductive Job where
  | idle
  | queued (frame : Kind)
  | executing (stream : Stream)
  | replied (ok : Bool)
deriving DecidableEq, Repr

/-- Where the loop stands: at `read_frontend`, in `done.recv()` or among its attempts
to feed, with the frame it has read. -/
inductive Loop where
  | reading
  | receiving (frame : Kind)
  | feeding (frame : Kind)
  | ended
deriving DecidableEq, Repr

structure State where
  loop : Loop
  closedInput : Bool
  job : Job
  /-- the input buffer of the handle -/
  input : Option Kind
  /-- read by the backend and not yet processed -/
  received : List Kind
  mode : Mode
  /-- sent by the backend and not yet written -/
  unwritten : List Message
  /-- the client has sent extended query messages after its last Query or Sync -/
  openSeries : Bool
deriving DecidableEq, Repr

def State.init : State where
  loop := .reading
  closedInput := false
  job := .idle
  input := none
  received := []
  mode := .normal
  unwritten := []
  openSeries := false

inductive Action where
  /-- the next frame of the client is read -/
  | read (frame : Kind)
  /-- `done.recv()` returns -/
  | done
  /-- one round of the feed loop -/
  | feed
  /-- the handle refuses the input: its token has ended, or it is too long -/
  | feedError
  /-- the worker takes the command -/
  | take
  /-- the stream sees that it is over -/
  | finish
  /-- the backend takes the input -/
  | pull
  /-- the backend processes a frame and sends messages -/
  | process (outcome : Verdict) (messages : List Message)
  /-- the backend writes a message -/
  | write
deriving DecidableEq, Repr

def nextSeries (openSeries : Bool) : Kind → Bool
  | .query | .sync => false
  | .extended | .execute => true
  | _ => openSeries

/-- A new stream for the frame. -/
def State.start (s : State) (frame : Kind) : State :=
  { s with loop := .reading, job := .queued frame, closedInput := closesInput frame }

/-- The loop after it has looked for the end of the stream (`job`). -/
def State.dispatch (s : State) (job : Job) (frame : Kind) : State :=
  if job = .idle then s.start frame
  else if s.closedInput ∧ !isCopy frame then { s with job := job, loop := .receiving frame }
  else { s with job := job, loop := .feeding frame }

def State.read (s : State) (frame : Kind) : State :=
  let s := { s with openSeries := nextSeries s.openSeries frame }
  if frame = .terminate then { s with loop := .ended }
  else
    match s.job with
    | .replied false => { s with loop := .ended }
    | .replied true => s.dispatch .idle frame
    | job => s.dispatch job frame

def State.feed (s : State) (frame : Kind) : State :=
  match s.job with
  | .executing st =>
    if st.active then
      if s.input.isSome then s
      else
        match st.feed frame with
        | none => { s with loop := .ended }
        | some st =>
          { s with
            loop := .reading
            job := .executing st
            input := some frame
            closedInput := closesInput frame }
    else s
  | .replied _ => { s with loop := .ended }
  | _ => s

def step (s : State) : Action → Option State
  | .read frame => if s.loop = .reading then some (s.read frame) else none
  | .done =>
    match s.loop, s.job with
    | .receiving frame, .replied true => some (s.start frame)
    | .receiving _, .replied false => some { s with loop := .ended }
    | _, _ => none
  | .feed =>
    match s.loop with
    | .feeding frame => some (s.feed frame)
    | _ => none
  | .feedError =>
    match s.loop with
    | .feeding _ => some { s with loop := .ended }
    | _ => none
  | .take =>
    match s.job with
    | .queued frame =>
      if s.input.isSome then some { s with job := .replied false }
      else some { s with job := .executing (.begin frame), input := some frame }
    | _ => none
  | .finish =>
    match s.job with
    | .executing st =>
      if st.ready then some { s with job := .replied true }
      else if s.mode = .closed ∧ s.unwritten = [] then some { s with job := .replied false }
      else none
    | _ => none
  | .pull =>
    match s.input with
    | some frame => some { s with input := none, received := s.received ++ [frame] }
    | none => none
  | .process outcome messages =>
    match s.received with
    | [] => none
    | frame :: rest =>
      if s.mode = .closed ∨ .ready ∈ messages then none
      else
        let (mode, ready) := react s.mode frame outcome
        some { s with
          received := rest
          mode := mode
          unwritten := s.unwritten ++ messages ++ if ready then [.ready] else [] }
  | .write =>
    match s.unwritten with
    | [] => none
    | message :: rest =>
      match s.job with
      | .executing st => some { s with unwritten := rest, job := .executing (st.scan message) }
      | _ => some { s with unwritten := rest }

/-- The loop waits for the end of a stream that runs, while the backend has read and
answered everything, waits for input (that of a COPY included) and owes no
ReadyForQuery. -/
def deadlocked (s : State) : Bool :=
  match s.loop, s.job with
  | .receiving _, .executing st =>
    !st.ready && s.input.isNone && s.received.isEmpty && !s.unwritten.contains .ready &&
      s.mode != .closed
  | _, _ => false

/-- The stream of the connection was started with a Query and is not over. -/
def queryRuns : Job → Bool
  | .queued .query => true
  | .executing st => st.first = .query
  | _ => false

/-- The frames that lie before the backend. -/
def State.delivered (s : State) : List Kind := s.received ++ s.input.toList

/-- A frame that ends COPY data lies before the backend. -/
def State.copyEnds (s : State) : Bool := s.delivered.any fun f => f = .copyDone || f = .copyFail

def Loop.isReceiving : Loop → Bool
  | .receiving _ => true
  | _ => false

/-- COPY data is ended only in the stream of the Query it belongs to, no Execute
starts a COPY, and no Query stands in an open series of extended query messages.
The loop has no frame that waits for the end of a stream when a COPY asks for data,
and reads none during the COPY of a Query before the end of the data. -/
def SimpleCopyOnly (s : State) : Action → Prop
  | .read frame =>
    ((frame = .copyDone ∨ frame = .copyFail) → queryRuns s.job = true) ∧
      (frame = .query → s.openSeries = false) ∧
      (s.mode = .copyIn false → (s.read frame).loop.isReceiving = true → s.copyEnds = true)
  | .process .copyIn _ => s.received.head? ≠ some .execute ∧ s.loop.isReceiving = false
  | _ => True

instance : ∀ (s : State) (a : Action), Decidable (SimpleCopyOnly s a)
  | _, .read _ | _, .process .copyIn _ => inferInstanceAs (Decidable (_ ∧ _))
  | _, .process .ok _ | _, .process .fail _ | _, .process .lost _ => instDecidableTrue
  | _, .done | _, .feed | _, .feedError | _, .take | _, .finish | _, .pull | _, .write =>
      instDecidableTrue

end Oliphaunt.BrokerExchange
