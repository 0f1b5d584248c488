import Oliphaunt.Model.Bytes

/-!
# Broker management frames and the session that reads them

The helper answers a management request with one frame: a 13 byte header (magic,
kind, payload length as a big-endian `u64`) and the payload. `writeFrame` and
`readFrame` embed the two ends of `ipc.rs`; the writer puts every byte on the
stream, the reader is given the bytes that arrive before the end of the stream.

`readFrame_writeFrame` says what becomes of a frame: the reader applies a length
limit that the writer does not have. `NativeBrokerSession.backup` is the client
call around it, with the step that makes a failed read the end of the session.
-/

namespace Oliphaunt.Broker

open Bytes

inductive Error where
  | engine (message : String)
  | engineStopped
deriving DecidableEq, Repr

inductive ResponseFrame where
  | ok (bytes : List UInt8)
  | error (message : String)
deriving DecidableEq, Repr

/-- `PGOB` -/
def magic : List UInt8 := [0x50, 0x47, 0x4f, 0x42]

def headerLen : Nat := 13

def maxFrameLen : Nat := 128 * 1024 * 1024

def frameHeader (kind : UInt8) (len : Nat) : List UInt8 := magic ++ kind :: bigEndian 8 len

def writeFrame (kind : UInt8) (payload : List UInt8) : Except Error (List UInt8) :=
  if payload.length < 2 ^ 64 then .ok (frameHeader kind payload.length ++ payload)
  else .error (.engine "broker frame payload is too large")

def readFrame (input : List UInt8) : Except Error ((UInt8 × List UInt8) × List UInt8) :=
  match take headerLen input with
  | none => .error (.engine "read broker frame header: failed to fill whole buffer")
  | some (header, rest) =>
    if header.take 4 ≠ magic then .error (.engine "broker frame magic mismatch")
    else
      let kind := header.getD 4 0
      let len := ofBigEndian (header.drop 5)
      if maxFrameLen < len then
        .error (.engine s!"broker frame payload length {len} exceeds limit {maxFrameLen}")
      else
        match take len rest with
        | none => .error (.engine "read broker frame payload: failed to fill whole buffer")
        | some (payload, rest) => .ok ((kind, payload), rest)

def ResponseFrame.kind : ResponseFrame → UInt8
  | .ok _ => 101
  | .error _ => 102

def ResponseFrame.payload : ResponseFrame → List UInt8
  | .ok bytes => bytes
  | .error message => utf8 message

def writeResponse (frame : ResponseFrame) : Except Error (List UInt8) :=
  writeFrame frame.kind frame.payload

def decodeResponse (kind : UInt8) (payload : List UInt8) : Except Error ResponseFrame :=
  if kind = 101 then .ok (.ok payload)
  else if kind = 102 then
    match utf8Decode payload with
    | some message => .ok (.error message)
    | none => .error (.engine ("broker error frame is not UTF-8: " ++ utf8ErrorText payload))
  else .error (.engine s!"unknown broker response frame {kind}")

def readResponse (input : List UInt8) : Except Error (ResponseFrame × List UInt8) :=
  match readFrame input with
  | .error error => .error error
  | .ok ((kind, payload), rest) =>
    match decodeResponse kind payload with
    | .error error => .error error
    | .ok frame => .ok (frame, rest)

theorem length_frameHeader (kind : UInt8) (len : Nat) :
    (frameHeader kind len).length = headerLen := by
  simp [frameHeader, magic, headerLen]

variable {kind : UInt8}

/-- What the reader makes of a header the writer wrote: the payload is read
unless its length is over the limit. -/
theorem readFrame_header (input : List UInt8) (hlen : len < 2 ^ 64) :
    readFrame (frameHeader kind len ++ input) =
      if maxFrameLen < len then
        .error (.engine s!"broker frame payload length {len} exceeds limit {maxFrameLen}")
      else
        match take len input with
        | none => .error (.engine "read broker frame payload: failed to fill whole buffer")
        | some (payload, rest) => .ok ((kind, payload), rest) := by
  have hmagic : (frameHeader kind len).take 4 = magic := rfl
  have hkind : (frameHeader kind len).getD 4 0 = kind := rfl
  have hfield : ofBigEndian ((frameHeader kind len).drop 5) = len := by
    exact ofBigEndian_bigEndian (by omega)
  rw [readFrame, take_append _ (length_frameHeader kind len)]
  simp only [hmagic, hkind, hfield, ne_eq, not_true_eq_false, if_false]

variable {frame : List UInt8}

theorem readFrame_writeFrame (rest : List UInt8) (hwrite : writeFrame kind payload = .ok frame) :
    readFrame (frame ++ rest) =
      if maxFrameLen < payload.length then
        .error (.engine
          s!"broker frame payload length {payload.length} exceeds limit {maxFrameLen}")
      else .ok ((kind, payload), rest) := by
  rw [writeFrame] at hwrite
  split_ifs at hwrite with hlen
  cases hwrite
  rw [List.append_assoc, readFrame_header _ hlen, take_append _ rfl]

theorem decodeResponse_payload (frame : ResponseFrame) :
    decodeResponse frame.kind frame.payload = .ok frame := by
  cases frame with
  | ok bytes => rfl
  | error message => simp [decodeResponse, ResponseFrame.kind, ResponseFrame.payload]

variable {response : ResponseFrame}

theorem readResponse_writeResponse
    (rest : List UInt8) (hwrite : writeResponse response = .ok frame) :
    readResponse (frame ++ rest) =
      if maxFrameLen < response.payload.length then
        .error (.engine
          s!"broker frame payload length {response.payload.length} exceeds limit {maxFrameLen}")
      else .ok (response, rest) := by
  rw [readResponse, readFrame_writeFrame rest hwrite]
  split_ifs with hlong
  · rfl
  · simp only [decodeResponse_payload]

theorem writeResponse_of_length_le (h : response.payload.length ≤ maxFrameLen) :
    writeResponse response =
      .ok (frameHeader response.kind response.payload.length ++ response.payload) := by
  have hlen : response.payload.length < 2 ^ 64 := by
    have hmax : maxFrameLen < 2 ^ 64 := by decide
    omega
  rw [writeResponse, writeFrame, if_pos hlen]

/-- `NativeBrokerSession`: the terminal failure if there is one, whether the helper
process and the SQL connection are still held, and the management stream with
the bytes of it that nobody has read. -/
structure NativeBrokerSession where
  closed : Bool
  failure : Option Error
  child : Bool
  transport : Bool
  control : Option (List UInt8)
deriving DecidableEq, Repr

/-- What polling the helper process says. -/
inductive Poll where
  | running
  | exited (status : String)
  | failed (error : String)
deriving DecidableEq, Repr

namespace NativeBrokerSession

/-- The helper is killed; `reaped` says whether its exit was confirmed, without
which the session keeps the process handle. -/
def markBrokerFailed (s : NativeBrokerSession) (error : Error) (reaped : Bool) :
    NativeBrokerSession :=
  { s with
    failure := some (s.failure.getD error)
    transport := false
    control := none
    child := s.child && !reaped }

def ensureTransport (s : NativeBrokerSession) (poll : Poll) (reaped : Bool) :
    NativeBrokerSession × Except Error Unit :=
  if s.closed then (s, .error .engineStopped)
  else
    match s.failure with
    | some error => (s, .error error)
    | none =>
      if s.child then
        match poll with
        | .failed error =>
          let error := .engine
            s!"poll native broker helper: {error}; close and reopen the database"
          (s.markBrokerFailed error reaped, .error error)
        | .exited status =>
          let error := .engine
            s!"native broker helper exited unexpectedly ({status}); close and reopen the database"
          ({ s with child := false, transport := false, failure := some error }, .error error)
        | .running =>
          if s.transport then (s, .ok ())
          else
            let error := .engine
              "native broker transport is unavailable; close and reopen the database"
            (s.markBrokerFailed error reaped, .error error)
      else
        let error := .engine
          "native broker helper is unavailable; close and reopen the database"
        (s.markBrokerFailed error reaped, .error error)

def readResponseOrMarkFailed (s : NativeBrokerSession)
    (response : Except Error (ResponseFrame × List UInt8)) (reaped : Bool) :
    NativeBrokerSession × Except Error ResponseFrame :=
  match response with
  | .ok (frame, rest) => ({ s with control := some rest }, .ok frame)
  | .error error => (s.markBrokerFailed error reaped, .error error)

/-- The backup call: `sent` is the outcome of writing the request, `arriving` are
the bytes that come back before the end of the stream. -/
def backup (s : NativeBrokerSession) (poll : Poll) (sent : Except Error Unit)
    (arriving : List UInt8) (reaped : Bool) :
    NativeBrokerSession × Except Error (List UInt8) :=
  match s.ensureTransport poll reaped with
  | (s, .error error) => (s, .error error)
  | (s, .ok ()) =>
    match s.control with
    | none => (s, .error .engineStopped)
    | some unread =>
      let response :=
        match sent with
        | .error error => .error error
        | .ok () => readResponse (unread ++ arriving)
      match s.readResponseOrMarkFailed response reaped with
      | (s, .error error) => (s, .error error)
      | (s, .ok (.ok bytes)) => (s, .ok bytes)
      | (s, .ok (.error message)) => (s, .error (.engine message))

end NativeBrokerSession

/-- A session with nothing wrong and no call in progress. -/
def NativeBrokerSession.live : NativeBrokerSession where
  closed := false
  failure := none
  child := true
  transport := true
  control := some []

/-- What the caller of `backup` is to see when the helper answered `response`. -/
def ResponseFrame.result : ResponseFrame → Except Error (List UInt8)
  | .ok bytes => .ok bytes
  | .error message => .error (.engine message)

/-- The call on a live session whose request was written: its answer and the next
session are decided by what the reader makes of the bytes. -/
theorem NativeBrokerSession.backup_live (arriving : List UInt8) (reaped : Bool) :
    live.backup .running (.ok ()) arriving reaped =
      match readResponse arriving with
      | .error error => (live.markBrokerFailed error reaped, .error error)
      | .ok (frame, rest) => ({ live with control := some rest }, frame.result) := by
  rw [backup]
  simp only [ensureTransport, live, Bool.false_eq_true, if_false, if_true, List.nil_append]
  cases readResponse arriving with
  | error error => rfl
  | ok read =>
    obtain ⟨frame, rest⟩ := read
    cases frame <;> rfl

theorem NativeBrokerSession.backup_live_of_read
    (reaped : Bool) (hread : ∀ rest, readResponse (frame ++ rest) = .ok (response, rest)) :
    live.backup .running (.ok ()) frame reaped = (live, response.result) := by
  have hread := hread []
  rw [List.append_nil] at hread
  rw [backup_live, hread]
  rfl

end Oliphaunt.Broker
