import Oliphaunt.Model.Double
import Oliphaunt.Rust.BrokerFrames

/-!
# The TypeScript reader of broker management frames

`broker-frames.ts` reads what the helper's Rust writer wrote, with the same
length limit and with `TextDecoder` for the text of an error.
`BrokerHandle.requestOk` is the call around it.

* `response_reaches_clients_iff` — which responses reach both clients;
* `oversized_backup_fails_session` — a backup that fails the session.
-/

namespace Oliphaunt.BrokerTs

open Bytes Double Oliphaunt.Broker

def readExactly (length : Nat) (input : List UInt8) :
    Except String (List UInt8 × List UInt8) :=
  match take length input with
  | some read => .ok read
  | none => .error s!"socket ended before {length} byte(s) were available"

def readFrame (input : List UInt8) : Except String ((UInt8 × List UInt8) × List UInt8) :=
  match readExactly headerLen input with
  | .error error => .error error
  | .ok (header, rest) =>
    if header.take 4 ≠ magic then .error "broker frame magic mismatch"
    else
      match header[4]? with
      | none => .error "broker frame header is missing a kind byte"
      | some kind =>
        -- `Number` of a `bigint`
        let length := toDouble (ofBigEndian (header.drop 5))
        if maxFrameLen < length then
          .error (s!"broker frame payload length {numberText length} " ++
            s!"exceeds limit {maxFrameLen}")
        else
          match readExactly length rest with
          | .error error => .error error
          | .ok (payload, rest) => .ok ((kind, payload), rest)

/-- `decoderError` is what the platform's `TextDecoder` says of bytes that it refuses. -/
def decodeBrokerResponse (decoderError : String) (kind : UInt8) (payload : List UInt8) :
    Except String ResponseFrame :=
  if kind = 101 then .ok (.ok payload)
  else if kind = 102 then
    match textDecode payload with
    | some message => .ok (.error message)
    | none => .error ("broker error frame is not UTF-8: " ++ decoderError)
  else .error s!"unknown broker response frame {kind}"

def readBrokerResponse (decoderError : String) (input : List UInt8) :
    Except String (ResponseFrame × List UInt8) :=
  match readFrame input with
  | .error error => .error error
  | .ok ((kind, payload), rest) =>
    match decodeBrokerResponse decoderError kind payload with
    | .error error => .error error
    | .ok frame => .ok (frame, rest)

theorem readExactly_append (rest : List UInt8) (h : bytes.length = length) :
    readExactly length (bytes ++ rest) = .ok (bytes, rest) := by
  rw [readExactly, take_append rest h]

variable {frame : List UInt8} {response : ResponseFrame} {decoderError : String}

theorem readFrame_writeFrame (rest : List UInt8) (hwrite : writeFrame kind payload = .ok frame) :
    readFrame (frame ++ rest) =
      if maxFrameLen < payload.length then
        .error (s!"broker frame payload length {numberText (toDouble payload.length)} " ++
          s!"exceeds limit {maxFrameLen}")
      else .ok ((kind, payload), rest) := by
  rw [writeFrame] at hwrite
  split_ifs at hwrite with hlen
  cases hwrite
  have hmagic : (frameHeader kind payload.length).take 4 = magic := rfl
  have hkind : (frameHeader kind payload.length)[4]? = some kind := rfl
  have hfield : ofBigEndian ((frameHeader kind payload.length).drop 5) = payload.length := by
    exact ofBigEndian_bigEndian (by omega)
  rw [readFrame, List.append_assoc, readExactly_append _ (length_frameHeader kind _)]
  simp only [hmagic, hkind, hfield, ne_eq, not_true_eq_false, if_false,
    lt_toDouble_iff (show maxFrameLen < 2 ^ 53 by decide)]
  split_ifs with hlong
  · rfl
  · have hexact : toDouble payload.length = payload.length :=
      toDouble_of_lt (Nat.lt_of_le_of_lt (Nat.le_of_not_lt hlong) (by decide))
    rw [hexact, readExactly_append rest rfl]

/-- The text of an error frame comes back as the decoder reads it. -/
theorem decodeBrokerResponse_payload (decoderError : String) (frame : ResponseFrame) :
    decodeBrokerResponse decoderError frame.kind frame.payload = .ok frame ↔
      ∀ message, frame = .error message → ¬ HasMark message := by
  cases frame with
  | ok bytes => simp [decodeBrokerResponse, ResponseFrame.kind, ResponseFrame.payload]
  | error message =>
    have hdecode := textDecode_utf8_iff message
    simp only [decodeBrokerResponse, ResponseFrame.kind, ResponseFrame.payload,
      ResponseFrame.error.injEq, forall_eq']
    rw [← hdecode, if_neg (by decide), if_pos trivial]
    cases textDecode (utf8 message) with
    | none => simp
    | some decoded => simp

theorem readBrokerResponse_writeResponse (decoderError : String) (rest : List UInt8)
    (hwrite : writeResponse response = .ok frame) :
    readBrokerResponse decoderError (frame ++ rest) = .ok (response, rest) ↔
      response.payload.length ≤ maxFrameLen ∧
        ∀ message, response = .error message → ¬ HasMark message := by
  rw [readBrokerResponse, readFrame_writeFrame rest hwrite,
    ← decodeBrokerResponse_payload decoderError]
  split_ifs with hlong
  · simp only [false_iff, not_and]
    omega
  · have hshort : response.payload.length ≤ maxFrameLen := by omega
    simp only [hshort, true_and]
    cases decodeBrokerResponse decoderError response.kind response.payload with
    | error error => simp
    | ok decoded => simp

/-- `BrokerHandle`: which resources it still holds, and the unread bytes of its
management stream. -/
structure BrokerHandle where
  closed : Bool
  failed : Bool
  failure : Option String
  client : Bool
  stream : Option (List UInt8)
  child : Bool
  ipcDir : Bool
deriving DecidableEq, Repr

/-- Which of the cleanup steps of `markFailed` succeed. -/
structure Cleanup where
  clientClosed : Bool
  streamClosed : Bool
  reaped : Bool
  treeRemoved : Bool
deriving DecidableEq, Repr

namespace BrokerHandle

def markFailed (h : BrokerHandle) (error : String) (cleanup : Cleanup) : BrokerHandle :=
  let child := h.child && !cleanup.reaped
  { h with
    failed := true
    failure := if h.failed then h.failure else some error
    client := h.client && !cleanup.clientClosed
    stream := if cleanup.streamClosed then none else h.stream
    child := child
    ipcDir := h.ipcDir && (child || !cleanup.treeRemoved) }

def ensureStream (h : BrokerHandle) : Except String (List UInt8) :=
  if h.closed then .error "native broker session is closed"
  else if h.failed then
    .error "native broker helper failed; close and reopen the database before running more work"
  else
    match h.stream with
    | none => .error
        ("native broker stream is unavailable; close and reopen the database before running " ++
          "more work")
    | some unread => .ok unread

/-- One management request: `sent` is the outcome of writing it, `arriving` are the
bytes that come back before the end of the stream. -/
def request (h : BrokerHandle) (decoderError : String) (sent : Except String Unit)
    (arriving : List UInt8) (cleanup : Cleanup) : BrokerHandle × Except String ResponseFrame :=
  match h.ensureStream with
  | .error error => (h, .error error)
  | .ok unread =>
    let response : Except String (ResponseFrame × List UInt8) :=
      match sent with
      | .error error => .error error
      | .ok () => readBrokerResponse decoderError (unread ++ arriving)
    match response with
    | .error error => (h.markFailed error cleanup, .error error)
    | .ok (frame, rest) => ({ h with stream := some rest }, .ok frame)

def requestOk (h : BrokerHandle) (decoderError : String) (sent : Except String Unit)
    (arriving : List UInt8) (cleanup : Cleanup) : BrokerHandle × Except String (List UInt8) :=
  match h.request decoderError sent arriving cleanup with
  | (h, .error error) => (h, .error error)
  | (h, .ok (.ok bytes)) => (h, .ok bytes)
  | (h, .ok (.error message)) => (h, .error message)

/-- A handle with nothing wrong and no request in progress. -/
def live : BrokerHandle where
  closed := false
  failed := false
  failure := none
  client := true
  stream := some []
  child := true
  ipcDir := true

end BrokerHandle

/-- What the caller of `requestOk` is to see when the helper answered `response`. -/
def result : ResponseFrame → Except String (List UInt8)
  | .ok bytes => .ok bytes
  | .error message => .error message

theorem BrokerHandle.requestOk_live_of_read (cleanup : Cleanup)
    (hread : ∀ rest, readBrokerResponse decoderError (frame ++ rest) = .ok (response, rest)) :
    live.requestOk decoderError (.ok ()) frame cleanup = (live, result response) := by
  have hread := hread []
  rw [List.append_nil] at hread
  have hstream : live.ensureStream = .ok [] := rfl
  rw [requestOk, request, hstream]
  simp only [List.nil_append, hread]
  cases response <;> rfl

/-- The frame written for a response is read by both clients as that response,
and a call that was waiting for it returns it and keeps its session. -/
structure ReachesClients (response : ResponseFrame) (frame : List UInt8) : Prop where
  written : writeResponse response = .ok frame
  rust : ∀ rest, readResponse (frame ++ rest) = .ok (response, rest)
  ts : ∀ decoderError rest, readBrokerResponse decoderError (frame ++ rest) = .ok (response, rest)
  rustSession : ∀ reaped, NativeBrokerSession.live.backup .running (.ok ()) frame reaped =
    (NativeBrokerSession.live, response.result)
  tsHandle : ∀ decoderError cleanup,
    BrokerHandle.live.requestOk decoderError (.ok ()) frame cleanup =
      (BrokerHandle.live, result response)

/-- A response of the helper reaches both clients exactly when its payload is at
most the readers' limit and it is not an error text that begins with U+FEFF. -/
theorem response_reaches_clients_iff (response : ResponseFrame) :
    (∃ frame, ReachesClients response frame) ↔
      response.payload.length ≤ maxFrameLen ∧
        ∀ message, response = .error message → ¬ HasMark message := by
  constructor
  · rintro ⟨frame, h⟩
    exact (readBrokerResponse_writeResponse "" [] h.written).mp (h.ts "" [])
  · rintro ⟨hlen, hmark⟩
    have hwritten := writeResponse_of_length_le hlen
    have hrust := fun rest => readResponse_writeResponse rest hwritten
    simp only [if_neg (Nat.not_lt.mpr hlen)] at hrust
    have hts := fun decoderError rest =>
      (readBrokerResponse_writeResponse decoderError rest hwritten).mpr ⟨hlen, hmark⟩
    exact ⟨_, hwritten, hrust, hts,
      fun reaped => NativeBrokerSession.backup_live_of_read reaped hrust,
      fun decoderError cleanup =>
        BrokerHandle.requestOk_live_of_read cleanup (hts decoderError)⟩

/-- A backup one byte over the limit: the helper writes its frame, the Rust
session that waits for it ends up failed, and its helper is killed. -/
theorem oversized_backup_fails_session :
    ∃ archive frame : List UInt8, archive.length = maxFrameLen + 1 ∧
      writeResponse (.ok archive) = .ok frame ∧
      NativeBrokerSession.live.backup .running (.ok ()) frame true =
        ({ closed := false
           failure := some (.engine "broker frame payload length 134217729 exceeds limit 134217728")
           child := false
           transport := false
           control := none },
         .error (.engine "broker frame payload length 134217729 exceeds limit 134217728")) ∧
      ∀ decoderError, readBrokerResponse decoderError frame ≠ .ok (.ok archive, []) := by
  have hlength : (List.replicate (maxFrameLen + 1) (0 : UInt8)).length = maxFrameLen + 1 :=
    List.length_replicate
  generalize List.replicate (maxFrameLen + 1) (0 : UInt8) = archive at hlength
  have hwritten : writeResponse (.ok archive) =
      .ok (frameHeader 101 archive.length ++ archive) := by
    rw [writeResponse, writeFrame, if_pos]
    · rfl
    · rw [show (ResponseFrame.ok archive).payload = archive from rfl, hlength]
      decide
  have hread := readResponse_writeResponse [] hwritten
  have hts := fun decoderError => readBrokerResponse_writeResponse decoderError [] hwritten
  rw [List.append_nil, show (ResponseFrame.ok archive).payload = archive from rfl,
    hlength] at hread hts
  refine ⟨archive, _, hlength, hwritten, ?_, fun decoderError h => ?_⟩
  · rw [NativeBrokerSession.backup_live, hlength, hread]
    rfl
  · rw [hlength] at h
    exact absurd ((hts decoderError).mp h).1 (by omega)

end Oliphaunt.BrokerTs
