import Oliphaunt.Model.QueryResponse

/-!
# Oliphaunt — the response parser of the TypeScript query package

`parseOperation` of `query/ts/src/query.ts` with the `ByteCursor` it reads from. The
parser walks the whole response and keeps the first failure: a message that cannot
be read, that comes out of order or that is an ErrorResponse does not end the walk.
What an assignment in front of a throw leaves behind is not modelled, since nothing
reads it once there is a failure.

Left out: the row count read off a command tag, the cause and the notices that a
thrown error carries, and the transaction status attached to it.
-/

namespace Oliphaunt.QueryTs

open Bytes ByteReader Query

def invalidUtf8 (label : String) (index : Nat) : String :=
  s!"{label} is not valid UTF-8 at byte {index}"

/-- The byte at `index` lies between `min` and `max`. -/
def requireRange (byte : Option UInt8) (index min max : Nat) (label : String) :
    Except String Unit :=
  match byte with
  | none => .error (invalidUtf8 label index)
  | some byte =>
    if byte.toNat < min ∨ max < byte.toNat then .error (invalidUtf8 label index) else .ok ()

def requireContinuation (byte : Option UInt8) (index : Nat) (label : String) :
    Except String Unit := requireRange byte index 0x80 0xbf label

/-- `validateUtf8` of the bytes from `index` on; every turn takes a byte. -/
def validateUtf8Loop (label : String) : Nat → Nat → List UInt8 → Except String Unit
  | 0, _, _ => .ok ()
  | _ + 1, _, [] => .ok ()
  | fuel + 1, index, byte :: rest => do
    let first := byte.toNat
    if first ≤ 0x7f then validateUtf8Loop label fuel (index + 1) rest
    else if 0xc2 ≤ first ∧ first ≤ 0xdf then
      requireContinuation rest[0]? (index + 1) label
      validateUtf8Loop label fuel (index + 2) (rest.drop 1)
    else if 0xe0 ≤ first ∧ first ≤ 0xef then
      if first = 0xe0 then requireRange rest[0]? (index + 1) 0xa0 0xbf label
      else if first = 0xed then requireRange rest[0]? (index + 1) 0x80 0x9f label
      else requireContinuation rest[0]? (index + 1) label
      requireContinuation rest[1]? (index + 2) label
      validateUtf8Loop label fuel (index + 3) (rest.drop 2)
    else if 0xf0 ≤ first ∧ first ≤ 0xf4 then
      if first = 0xf0 then requireRange rest[0]? (index + 1) 0x90 0xbf label
      else if first = 0xf4 then requireRange rest[0]? (index + 1) 0x80 0x8f label
      else requireContinuation rest[0]? (index + 1) label
      requireContinuation rest[1]? (index + 2) label
      requireContinuation rest[2]? (index + 3) label
      validateUtf8Loop label fuel (index + 4) (rest.drop 3)
    else .error (invalidUtf8 label index)

def validateUtf8 (bytes : List UInt8) (label : String) : Except String Unit :=
  validateUtf8Loop label bytes.length 0 bytes

/-- The platform decoder reads the bytes; `validateUtf8` only says where they are wrong. -/
def decodeUtf8Strict (bytes : List UInt8) (label : String) : Except String String :=
  match textDecode bytes with
  | some text => .ok text
  | none =>
    match validateUtf8 bytes label with
    | .error e => .error e
    | .ok () => .error s!"{label} is not valid UTF-8"

def readBytes (count : Nat) (label : String) : Reader (List UInt8) := fun input =>
  if input.length < count then .error s!"truncated {label}"
  else .ok (input.take count, input.drop count)

def readU8 (label : String) : Reader UInt8 := fun input =>
  match input with
  | [] => .error s!"truncated {label}"
  | byte :: rest => .ok (byte, rest)

def readU32 (label : String) : Reader Nat := do
  let bytes ← readBytes 4 label
  pure (ofBigEndian bytes)

def signed32 (value : Nat) : Int :=
  if 0x7fffffff < value then (value : Int) - 0x100000000 else value

def signed16 (value : Nat) : Int := if 0x7fff < value then (value : Int) - 0x10000 else value

def readI32 (label : String) : Reader Int := do
  let value ← readU32 label
  pure (signed32 value)

def readI16 (label : String) : Reader Int := do
  let bytes ← readBytes 2 label
  pure (signed16 (ofBigEndian bytes))

def readCString (label : String) : Reader String := fun input =>
  let raw := input.takeWhile (· ≠ 0)
  if input.length ≤ raw.length then .error s!"{label} is missing null terminator"
  else
    match decodeUtf8Strict raw label with
    | .error e => .error e
    | .ok value => .ok (value, input.drop (raw.length + 1))

/-- Read a whole message; `requireEnd` has the label of its text. -/
def readAll {α : Type} (m : Reader α) (label : String) (body : List UInt8) : Except String α :=
  whole m s!"{label} contained trailing bytes" body

def parseField : Reader QueryField := do
  let name ← readCString "field name"
  let tableOid ← readU32 "field table oid"
  let tableAttribute ← readI16 "field table attribute"
  let typeOid ← readU32 "field type oid"
  let typeSize ← readI16 "field type size"
  let typeModifier ← readI32 "field type modifier"
  let format ← readI16 "field format"
  pure ⟨name, tableOid, tableAttribute, typeOid, typeSize, typeModifier, .ofCode format⟩

def parseRowDescription : Reader (List QueryField) := do
  let count ← readI16 "RowDescription field count"
  if count < 0 then throw s!"invalid RowDescription field count {count}"
  else times parseField count.toNat

def parseValue : Reader (Option (List UInt8)) := do
  let length ← readI32 "DataRow value length"
  if length = -1 then pure none
  else if length < 0 then throw s!"invalid DataRow value length {length}"
  else do
    let value ← readBytes length.toNat "DataRow value"
    pure (some value)

def parseDataRow (expectedColumns : Nat) : Reader Row := do
  let count ← readI16 "DataRow column count"
  if count < 0 then throw s!"invalid DataRow column count {count}"
  else if count ≠ expectedColumns then
    throw (s!"DataRow column count {count} does not match RowDescription count " ++
      s!"{expectedColumns}")
  else times parseValue count.toNat

/-- `RawQueryRow.text` of a value. -/
def rowText (row : Row) (column : Nat) : Except String (Option String) :=
  match row[column]? with
  | none => .error s!"query row has no column at index {column}"
  | some none => .ok none
  | some (some value) => (decodeUtf8Strict value "query value").map some

/-- A decoded column: NULL, the bytes of a value that is not text, or what the decoder of
the field made of the text. -/
inductive QueryValue (α : Type) where
  | null
  | bytes (value : List UInt8)
  | decoded (value : α)
deriving DecidableEq, Repr

/-- `decodeValue`; `decoder` stands for the caller's decoder of the type, the value mode
and the built-in decoders. -/
def decodeValue {α : Type} (decoder : String → QueryField → Except String α)
    (value : Option (List UInt8)) (field : QueryField) : Except String (QueryValue α) :=
  match value with
  | none => .ok .null
  | some bytes =>
    if field.format ≠ .text then .ok (.bytes bytes)
    else do
      let decodedText ← decodeUtf8Strict bytes "query value"
      (decoder decodedText field).map .decoded

/-- The loop of `parseDiagnosticFields`; every turn takes a byte. -/
def diagnosticLoop (label : String) : Nat → List UInt8 → Except String (List DiagnosticField)
  | 0, _ => .error s!"{label} is missing terminator"
  | _ + 1, [] => .error s!"{label} is missing terminator"
  | fuel + 1, code :: rest =>
    if code = 0 then if rest = [] then .ok [] else .error s!"{label} contained trailing bytes"
    else
      match readCString s!"{label} field" rest with
      | .error e => .error e
      | .ok (value, rest) => (diagnosticLoop label fuel rest).map (⟨code, value⟩ :: ·)

def parseDiagnosticFields (label : String) (body : List UInt8) :
    Except String (List DiagnosticField) :=
  diagnosticLoop label (body.length + 1) body

def parseReadyForQuery (body : List UInt8) : Except String ReadyStatus :=
  match body with
  | [status] =>
    if status = 0x49 then .ok .idle
    else if status = 0x54 then .ok .transaction
    else if status = 0x45 then .ok .failed
    else .error ("ReadyForQuery contained invalid transaction status " ++ hexTag status)
  | body => .error s!"ReadyForQuery contained {body.length} bytes, expected 1"

def validateParameterStatus : Reader Unit := do
  let _ ← readCString "ParameterStatus name"
  let _ ← readCString "ParameterStatus value"
  pure ()

def validateNotificationResponse : Reader Unit := do
  let _ ← readI32 "NotificationResponse process id"
  let _ ← readCString "NotificationResponse channel"
  let _ ← readCString "NotificationResponse payload"
  pure ()

/-- The tag and the body of the next message. -/
def readMessage : Reader (UInt8 × List UInt8) := do
  let tag ← readU8 "backend message tag"
  let length ← readI32 "backend message length"
  if length < 4 then throw s!"invalid backend message length {length}"
  else do
    let body ← readBytes (length.toNat - 4) "backend message body"
    pure (tag, body)

/-- What a parser throws: an ErrorResponse of the server, or another error. -/
inductive Failure where
  | postgres (fields : List DiagnosticField)
  | error (message : String)
deriving DecidableEq, Repr

inductive OperationMode where
  | extendedSingle
  | simpleSingle
  | simpleExec
deriving DecidableEq, Repr

inductive ExtendedStage where
  | start
  | parsed
  | bound
  | described
  | completed
deriving DecidableEq, Repr

structure OperationState where
  statements : List Statement := []
  notices : List (List DiagnosticField) := []
  statementNotices : List (List DiagnosticField) := []
  fields : Option (List QueryField) := none
  rows : List Row := []
  failure : Option Failure := none
  recoveryFailure : Option String := none
  sawErrorResponse : Bool := false
  completionCount : Nat := 0
  extendedStage : ExtendedStage := .start
  status : Option ReadyStatus := none
deriving DecidableEq, Repr

/-- `failure ??= …`. -/
def OperationState.fail (s : OperationState) (failure : Failure) : OperationState :=
  { s with failure := s.failure.or (some failure) }

structure Operation where
  statements : List Statement
  notices : List (List DiagnosticField)
  transactionStatus : ReadyStatus
deriving DecidableEq, Repr

/-- The `switch` over the tag; an error is thrown into the `catch` around it. -/
def operationMessage (mode : OperationMode) (s : OperationState) (tag : UInt8)
    (body rest : List UInt8) : Except String OperationState :=
  match Message.ofTag tag with
  | .rowDescription =>
    if mode ≠ .simpleExec ∧ 0 < s.completionCount then
      .error "RowDescription arrived after statement completion"
    else if mode = .extendedSingle ∧ s.extendedStage ≠ .bound then
      .error "RowDescription arrived before ParseComplete and BindComplete"
    else if s.fields.isSome then
      .ok (s.fail (.error "result received two RowDescriptions"))
    else do
      let fields ← readAll parseRowDescription "RowDescription" body
      pure { s with
        fields := some fields
        extendedStage := if mode = .extendedSingle then .described else s.extendedStage }
  | .dataRow =>
    match s.fields with
    | none =>
      if 0 < s.completionCount then .error "DataRow arrived after statement completion"
      else .error "DataRow arrived before RowDescription"
    | some fields =>
      if mode = .extendedSingle ∧ s.extendedStage ≠ .described then
        .error "DataRow arrived before the result description"
      else do
        let row ← readAll (parseDataRow fields.length) "DataRow" body
        pure { s with rows := s.rows ++ [row] }
  | .commandComplete =>
    if mode ≠ .simpleExec ∧ 0 < s.completionCount then
      .error ("queryRaw() received multiple result completions; use exec() for " ++
        "multi-statement SQL")
    else if mode = .extendedSingle ∧ s.extendedStage ≠ .described then
      .error "CommandComplete arrived before the extended-query result description"
    else do
      let commandTag ← readAll (readCString "CommandComplete tag") "CommandComplete" body
      pure { s with
        statements := s.statements ++
          [⟨if s.fields.isNone then .command else .rows, s.fields.getD [], s.rows, commandTag,
            s.statementNotices⟩]
        fields := none
        rows := []
        statementNotices := []
        completionCount := s.completionCount + 1
        extendedStage := if mode = .extendedSingle then .completed else s.extendedStage }
  | .errorResponse => do
    let fields ← parseDiagnosticFields "ErrorResponse" body
    let failure :=
      if mode ≠ .simpleExec ∧ 0 < s.completionCount then
        .error "ErrorResponse arrived after statement completion"
      else .postgres fields
    pure { s.fail failure with sawErrorResponse := true }
  | .copy =>
    .ok (s.fail (.error ("query() does not support COPY protocol responses; use a raw protocol " ++
      "API for COPY traffic")))
  | .readyForQuery => do
    let status ← parseReadyForQuery body
    let s := { s with status := some status }
    pure (if rest = [] then s else s.fail (.error "backend returned bytes after ReadyForQuery"))
  | .parseComplete =>
    if mode ≠ .extendedSingle then .error "simple-query response contained ParseComplete"
    else if s.extendedStage ≠ .start then .error "ParseComplete arrived out of order"
    else do
      readAll (pure ()) "ParseComplete" body
      pure { s with extendedStage := .parsed }
  | .bindComplete =>
    if mode ≠ .extendedSingle then .error "simple-query response contained BindComplete"
    else if s.extendedStage ≠ .parsed then
      .error "BindComplete arrived before ParseComplete or out of order"
    else do
      readAll (pure ()) "BindComplete" body
      pure { s with extendedStage := .bound }
  | .closeComplete => .error "unsolicited CloseComplete in query response"
  | .emptyQueryResponse =>
    if s.fields.isSome ∨ s.rows ≠ [] then
      .error "EmptyQueryResponse arrived during a row result"
    else if mode ≠ .simpleExec ∧ 0 < s.completionCount then
      .error ("queryRaw() received multiple result completions; use exec() for " ++
        "multi-statement SQL")
    else if mode = .extendedSingle ∧ s.extendedStage ≠ .described then
      .error "EmptyQueryResponse arrived before the extended-query result description"
    else do
      readAll (pure ()) "EmptyQueryResponse" body
      pure { s with
        statementNotices := []
        completionCount := s.completionCount + 1
        extendedStage := if mode = .extendedSingle then .completed else s.extendedStage }
  | .noData =>
    if mode ≠ .extendedSingle then .error "simple-query response contained NoData"
    else if s.extendedStage ≠ .bound then
      .error "NoData arrived before ParseComplete and BindComplete"
    else do
      readAll (pure ()) "NoData" body
      pure { s with extendedStage := .described }
  | .parameterStatus => do
    readAll validateParameterStatus "ParameterStatus" body
    pure s
  | .noticeResponse => do
    let notice ← parseDiagnosticFields "NoticeResponse" body
    pure { s with
      notices := s.notices ++ [notice], statementNotices := s.statementNotices ++ [notice] }
  | .notificationResponse => do
    readAll validateNotificationResponse "NotificationResponse" body
    pure s
  | .parameterDescription | .unexpected =>
    .ok (s.fail (.error ("unexpected backend message tag " ++ hexTag tag)))

/-- One turn of the loop. -/
def operationStep (mode : OperationMode) (s : OperationState) (tag : UInt8)
    (body rest : List UInt8) : OperationState :=
  if s.sawErrorResponse && !(Message.ofTag tag).followsError then
    let message := s!"query response contained {hexTag tag} after ErrorResponse"
    { s with recoveryFailure := s.recoveryFailure.or (some message) }
  else
    match operationMessage mode s tag body rest with
    | .ok next => next
    | .error e => s.fail (.error e)

variable {count : Nat} {input : List UInt8}

theorem readBytes_of_lt (label : String) (h : input.length < count) :
    readBytes count label input = .error s!"truncated {label}" :=
  if_pos h

theorem readBytes_of_le (label : String) (h : count ≤ input.length) :
    readBytes count label input = .ok (input.take count, input.drop count) :=
  if_neg (by omega)

/-- What the cursor reads as a message, whatever the text of its errors. -/
theorem readMessage_cons (tag : UInt8) (rest : List UInt8) :
    (readMessage (tag :: rest)).toOption =
      let length := signed32 (ofBigEndian (rest.take 4))
      if rest.length < 4 ∨ length < 4 ∨ (rest.drop 4).length < length.toNat - 4 then none
      else some ((tag, (rest.drop 4).take (length.toNat - 4)),
        (rest.drop 4).drop (length.toNat - 4)) := by
  simp only [readMessage, bind_apply, readU8, readI32, readU32]
  by_cases hheader : rest.length < 4
  · simp only [hheader, true_or, if_true]
    simp only [bind, Except.bind, readBytes_of_lt _ hheader]
    rfl
  simp only [hheader, false_or]
  simp only [bind, Except.bind, readBytes_of_le _ (Nat.le_of_not_lt hheader), pure_apply]
  by_cases hlength : signed32 (ofBigEndian (rest.take 4)) < 4
  · simp only [hlength, true_or, if_true]
    rfl
  simp only [hlength, false_or, if_false]
  by_cases hbody : (rest.drop 4).length < (signed32 (ofBigEndian (rest.take 4))).toNat - 4
  · simp only [hbody, if_true, bind, StateT.bind, Except.bind, readBytes_of_lt _ hbody]
    rfl
  · simp only [hbody, if_false, bind, StateT.bind, Except.bind,
      readBytes_of_le _ (Nat.le_of_not_lt hbody)]
    rfl

theorem readMessage_length (h : readMessage input = .ok (message, rest)) :
    rest.length < input.length := by
  cases input with
  | nil => cases h
  | cons tag tail =>
    have hread := readMessage_cons tag tail
    rw [h] at hread
    dsimp only [Except.toOption] at hread
    split_ifs at hread
    obtain ⟨-, rfl⟩ := Prod.mk.inj (Option.some.inj hread)
    rw [List.length_drop, List.length_drop, List.length_cons]
    omega

/-- The loop over the messages. After ReadyForQuery the rest of the bytes is discarded. -/
def messageLoop {σ : Type} (step : σ → UInt8 → List UInt8 → List UInt8 → σ)
    (ready : σ → Bool) (state : σ) (input : List UInt8) : Except String σ :=
  if input = [] then .ok state
  else
    match hread : readMessage input with
    | .error e => .error e
    | .ok ((tag, body), rest) =>
      let next := step state tag body rest
      if ready next then .ok next else messageLoop step ready next rest
termination_by input.length
decreasing_by exact readMessage_length hread

/-- What is decided after the loop. -/
def operationResult (mode : OperationMode) (s : OperationState) : Except Failure Operation :=
  match s.status with
  | none => .error (s.failure.getD (.error "query response ended before ReadyForQuery"))
  | some status =>
    match s.recoveryFailure with
    | some message => .error (.error message)
    | none =>
      let s := if s.fields.isSome ∨ s.rows ≠ [] then
        s.fail (.error "query response ended before CommandComplete") else s
      let s := if ¬ s.sawErrorResponse ∧ s.completionCount = 0 then
        s.fail (.error "query response omitted CommandComplete or EmptyQueryResponse") else s
      let s := if ¬ s.sawErrorResponse ∧ mode = .extendedSingle ∧ s.extendedStage ≠ .completed then
        s.fail (.error ("extended-query response omitted ParseComplete, BindComplete, " ++
          "result description, or completion")) else s
      match s.failure with
      | some failure => .error failure
      | none =>
        .ok { statements := s.statements, notices := s.notices, transactionStatus := status }

def parseOperation (bytes : List UInt8) (mode : OperationMode) : Except Failure Operation :=
  match messageLoop (operationStep mode) (fun s => s.status.isSome) {} bytes with
  | .error e => .error (.error e)
  | .ok s => operationResult mode s

structure RawQueryResult where
  kind : ResultKind
  fields : List QueryField
  rows : List Row
  commandTag : Option String
  notices : List (List DiagnosticField)
  transactionStatus : ReadyStatus
deriving DecidableEq, Repr

def singleRawResult (operation : Operation) : RawQueryResult :=
  match operation.statements with
  | [] => ⟨.command, [], [], none, operation.notices, operation.transactionStatus⟩
  | s :: rest =>
    ⟨s.kind, s.fields, s.rows, some s.commandTag,
      if rest = [] then operation.notices else s.notices, operation.transactionStatus⟩

def parseSimpleQueryRawResponse (bytes : List UInt8) : Except Failure RawQueryResult :=
  (parseOperation bytes .simpleSingle).map singleRawResult

/-! ## The loop, message by message -/

/-- What holds of the empty rest, where a message cannot be read, and of a message if it
holds of what follows, holds of every response. -/
theorem message_induction {P : List UInt8 → Prop} (nil : P [])
    (error : ∀ input e, input ≠ [] → readMessage input = .error e → P input)
    (message : ∀ input tag body rest, input ≠ [] →
      readMessage input = .ok ((tag, body), rest) → P rest → P input)
    (input : List UInt8) : P input := by
  induction hlength : input.length using Nat.strongRecOn generalizing input with
  | _ length ih =>
    by_cases hne : input = []
    · rw [hne]
      exact nil
    · cases hread : readMessage input with
      | error e => exact error input e hne hread
      | ok read =>
        obtain ⟨⟨tag, body⟩, rest⟩ := read
        have hrest := readMessage_length hread
        exact message input tag body rest hne hread (ih rest.length (by omega) rest rfl)

/-- The loop from a state on, and what is decided after it. -/
def operationRun (mode : OperationMode) (s : OperationState) (input : List UInt8) :
    Except Failure Operation :=
  match messageLoop (operationStep mode) (fun s => s.status.isSome) s input with
  | .error e => .error (.error e)
  | .ok s => operationResult mode s

section Run

variable {mode : OperationMode} {s : OperationState} {P : OperationState → Prop}
variable {input body rest : List UInt8} {e : String} {tag : UInt8}

theorem parseOperation_eq : parseOperation input mode = operationRun mode {} input := by
  rw [parseOperation, operationRun]

theorem operationRun_nil (s : OperationState) :
    operationRun mode s [] = operationResult mode s := by
  rw [operationRun, messageLoop, if_pos rfl]

theorem operationRun_error (s : OperationState) (hne : input ≠ [])
    (hread : readMessage input = .error e) : operationRun mode s input = .error (.error e) := by
  have hloop : messageLoop (operationStep mode) (fun s => s.status.isSome) s input = .error e := by
    rw [messageLoop, if_neg hne]
    split
    · rename_i hread'
      rw [hread] at hread'
      rw [Except.error.inj hread']
    · rename_i hread'
      cases hread.symm.trans hread'
  rw [operationRun, hloop]

theorem operationRun_ok (s : OperationState) (hne : input ≠ [])
    (hread : readMessage input = .ok ((tag, body), rest)) :
    operationRun mode s input =
      if (operationStep mode s tag body rest).status.isSome then
        operationResult mode (operationStep mode s tag body rest)
      else operationRun mode (operationStep mode s tag body rest) rest := by
  have hloop : messageLoop (operationStep mode) (fun s => s.status.isSome) s input =
      if (operationStep mode s tag body rest).status.isSome then
        .ok (operationStep mode s tag body rest)
      else messageLoop (operationStep mode) (fun s => s.status.isSome)
        (operationStep mode s tag body rest) rest := by
    conv_lhs => rw [messageLoop, if_neg hne]
    split
    · rename_i hread'
      cases hread.symm.trans hread'
    · rename_i hread'
      cases hread.symm.trans hread'
      rfl
  rw [operationRun, hloop]
  split_ifs
  · rfl
  · rfl

/-- The `catch` around the `switch`. -/
def OperationState.settle (s : OperationState) : Except String OperationState → OperationState
  | .ok next => next
  | .error e => s.fail (.error e)

theorem operationStep_eq (tag : UInt8) (body rest : List UInt8) (h : s.sawErrorResponse = false) :
    operationStep mode s tag body rest =
      s.settle (operationMessage mode s tag body rest) := by
  rw [operationStep, h, if_neg (by simp)]
  cases operationMessage mode s tag body rest with
  | ok next => rfl
  | error e => rfl

/-- What holds of a state for its failures alone, a message keeps: only an ErrorResponse is
more than a failure of the parser's own. -/
theorem operationMessage_keeps
    (hsame : ∀ t : OperationState, t.failure = s.failure → t.recoveryFailure = s.recoveryFailure →
      t.sawErrorResponse = s.sawErrorResponse → P t) (hfail : ∀ t e, P t → P (t.fail (.error e)))
    (herror : Message.ofTag tag = .errorResponse →
      Ensures P (operationMessage mode s tag body rest)) :
    Ensures P (operationMessage mode s tag body rest) := by
  cases hmessage : Message.ofTag tag
  case errorResponse => exact herror hmessage
  all_goals simp only [operationMessage, hmessage]
  case rowDescription =>
    exact .guard fun _ => .guard fun _ =>
      .ite (fun _ => .ok (hfail s _ (hsame s rfl rfl rfl))) fun _ =>
        .bind fun _ => .ok (hsame _ rfl rfl rfl)
  case dataRow =>
    cases s.fields with
    | none => exact .guard fun _ => .error _
    | some fields =>
      exact .guard fun _ => .bind fun _ => .ok (hsame _ rfl rfl rfl)
  case readyForQuery =>
    refine .bind fun status => .ok ?_
    by_cases hrest : rest = []
    · rw [if_pos hrest]
      exact hsame _ rfl rfl rfl
    · rw [if_neg hrest]
      exact hfail _ _ (hsame _ rfl rfl rfl)
  case commandComplete | parseComplete | bindComplete | noData =>
    exact .guard fun _ => .guard fun _ => .bind fun _ => .ok (hsame _ rfl rfl rfl)
  case emptyQueryResponse =>
    exact .guard fun _ => .guard fun _ => .guard fun _ => .bind fun _ => .ok (hsame _ rfl rfl rfl)
  case parameterStatus | noticeResponse | notificationResponse =>
    exact .bind fun _ => .ok (hsame _ rfl rfl rfl)
  case closeComplete =>
    exact .error _
  case copy | parameterDescription | unexpected =>
    exact .ok (hfail s _ (hsame s rfl rfl rfl))

end Run

end Oliphaunt.QueryTs
