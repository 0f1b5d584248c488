import Oliphaunt.Model.Effect
import Oliphaunt.Model.Frontend
import Oliphaunt.TS.BackupFilter
import Oliphaunt.TS.QueryResponse
import Oliphaunt.TS.WalRange

/-!
# Oliphaunt — an online backup and the server's backup mode

`createPhysicalArchive` with `stopPhysicalBackup` and
`responseConfirmsCommandCompletion` of `storage/physical-archive.ts`. The callback that
sends a packet to the server and the reads of the directory are an `Environment` on a
world that they may change in any way; each call returns or throws. What was sent, and
what came back, is kept in `Session.calls` for the statements only.

`Server` has what is assumed of PostgreSQL: after an ErrorResponse to `pg_backup_start`
backup mode is not entered, and after a completed `pg_backup_stop` it is left. A backup
ends with backup mode not entered or left, or says that it does not know
(`backup_mode_closed`).

Left out: the `cause` of an error, and the order in which the WAL segments are read.
-/

namespace Oliphaunt.BackupMode

open Bytes FrontendProtocol FileTree OpfsPool PhysicalArchive BackupFilter QueryTs Query List Effect
open WalRange (requiredBackupWalNames)

/-- `simpleQuery`, for a text without NUL. -/
def simpleQuery (sql : String) : List UInt8 := (⟨0x51, utf8 sql ++ [0]⟩ : Frame).encode

def startPacket : List UInt8 :=
  simpleQuery ("SELECT pg_walfile_name(pg_backup_start(label => 'oliphaunt physical backup', " ++
    "fast => true)), pg_size_bytes(current_setting('wal_segment_size'))::text")

def stopPacket : List UInt8 :=
  simpleQuery ("SELECT pg_walfile_name(lsn), labelfile, spcmapfile FROM " ++
    "pg_backup_stop(wait_for_archive => false)")

/-- The loop of `responseConfirmsCommandCompletion`; a frame that is not complete ends it. -/
def confirmsLoop (sawCommandComplete : Bool) (response : List UInt8) : Bool :=
  match hsplit : splitFrame response with
  | none => false
  | some (frame, next) =>
    if frame.tag = 0x45 then false
    else
      let sawCommandComplete := sawCommandComplete || frame.tag = 0x43
      if frame.tag = 0x5a then
        sawCommandComplete && next.isEmpty &&
          (frame.body = [0x49] || frame.body = [0x54] || frame.body = [0x45])
      else confirmsLoop sawCommandComplete next
termination_by response.length
decreasing_by exact splitFrame_length hsplit

def responseConfirmsCommandCompletion (response : List UInt8) : Bool := confirmsLoop false response

inductive BackupModeState where
  | notEntered
  | exitRequired
  | exited
  | exitUnconfirmed
deriving DecidableEq, Repr

/-- What is thrown. -/
inductive Thrown (ε : Type) where
  /-- by the callback or the directory -/
  | foreign (value : ε)
  | postgres (fields : List DiagnosticField)
  | error (message : String)
  | aggregate (primary cleanup : Thrown ε) (message : String)
  | backupModeExitUnconfirmed (primary cleanup : Thrown ε) (message : String)
deriving DecidableEq, Repr

/-- What the backup is given. `number` is the platform's `Number(text)` where that is a safe
integer that is not negative, `describe` its `String(value)`, and `arrayCapacity` how
many elements an array takes. -/
structure Environment (W ε : Type) where
  exec : List UInt8 → W → Except ε (List UInt8) × W
  snapshotStorageDirectory : W → Except ε StoredSnapshot × W
  readFile : Path → W → Except ε Contents × W
  number : String → Option Nat
  describe : ε → String
  arrayCapacity : Nat

/-- A call of the callback: the packet, and what came back. -/
structure Call (ε : Type) where
  packet : List UInt8
  outcome : Except ε (List UInt8)

structure Session (W ε : Type) where
  world : W
  state : BackupModeState := .notEntered
  calls : List (Call ε) := []

section Program

variable {W ε : Type} (env : Environment W ε)

def backupFailureMessage : Thrown ε → String
  | .foreign value => env.describe value
  | .postgres fields =>
    ((fields.find? (·.code = 0x4d)).map (·.value)).getD "PostgreSQL ErrorResponse"
  | .error message => message
  | .aggregate _ _ message => message
  | .backupModeExitUnconfirmed _ _ message => message

def backupCleanupFailure (primary cleanup : Thrown ε) : Thrown ε :=
  .aggregate primary cleanup ("physical backup failed: " ++ backupFailureMessage env primary ++
    "; PostgreSQL left backup mode but cleanup validation also failed: " ++
    backupFailureMessage env cleanup)

def backupModeExitUnconfirmed (primary cleanup : Thrown ε) : Thrown ε :=
  .backupModeExitUnconfirmed primary cleanup
    ("physical backup failed: " ++ backupFailureMessage env primary ++
      "; PostgreSQL could not confirm leaving backup mode cleanly: " ++
      backupFailureMessage env cleanup)

abbrev Backup (W ε α : Type) := Effect (Session W ε) (Thrown ε) α

def exec (packet : List UInt8) : Backup W ε (List UInt8) := fun s =>
  let result := env.exec packet s.world
  (result.1.mapError .foreign,
    { s with world := result.2, calls := s.calls ++ [⟨packet, result.1⟩] })

/-- A read of the directory. -/
def read {α : Type} (f : W → Except ε α × W) : Backup W ε α := fun s =>
  let result := f s.world
  (result.1.mapError .foreign, { s with world := result.2 })

def setState (state : BackupModeState) : Backup W ε Unit := modify fun s => { s with state }

def fail {α : Type} (message : String) : Backup W ε α := throw (.error message)

def liftError {α : Type} (x : Except String α) : Backup W ε α := lift (x.mapError .error)

structure StopBackupFiles where
  stopWal : String
  backupLabel : String
  tablespaceMap : Option String
deriving DecidableEq, Repr

/-- `exited` with its files or its validation error. -/
inductive StopBackupAttempt (ε : Type) where
  | exited (files : Except (Thrown ε) StopBackupFiles)
  | exitUnconfirmed (error : Thrown ε)

/-- What `stopPhysicalBackup` reads off a response that confirms the exit. -/
def stopBackupFiles (result : RawQueryResult) : Except (Thrown ε) StopBackupFiles :=
  if result.commandTag ≠ some "SELECT 1" then
    .error (.error "pg_backup_stop returned an unexpected PostgreSQL command tag")
  else
    match result.rows.head? with
    | none => .error (.error "pg_backup_stop returned an unexpected result")
    | some row =>
      if row.length ≠ 3 then .error (.error "pg_backup_stop returned an unexpected result")
      else do
        let stopWal ← (rowText row 0).mapError .error
        let backupLabel ← (rowText row 1).mapError .error
        let tablespaceMap ← (rowText row 2).mapError .error
        match stopWal, backupLabel with
        | none, _ => .error (.error "pg_backup_stop returned an unexpected result")
        | some _, none => .error (.error "pg_backup_stop returned an empty backup label")
        | some stopWal, some backupLabel =>
          if backupLabel = "" then .error (.error "pg_backup_stop returned an empty backup label")
          else .ok ⟨stopWal, backupLabel, tablespaceMap⟩

/-- What `stopPhysicalBackup` makes of a response. -/
def stopAttempt (response : List UInt8) : StopBackupAttempt ε :=
  let exitConfirmed := responseConfirmsCommandCompletion response
  match parseSimpleQueryRawResponse response with
  | .error (.postgres fields) => .exitUnconfirmed (.postgres fields)
  | .error (.error message) =>
    if exitConfirmed then .exited (.error (.error message))
    else
      .exitUnconfirmed
        (.error "pg_backup_stop did not return a successful PostgreSQL command completion")
  | .ok result =>
    if !exitConfirmed then
      .exitUnconfirmed
        (.error "pg_backup_stop did not return a successful PostgreSQL command completion")
    else .exited (stopBackupFiles result)

def stopPhysicalBackup : Backup W ε (StopBackupAttempt ε) :=
  catching (do
    let response ← exec env stopPacket
    pure (stopAttempt response)) fun error => pure (.exitUnconfirmed error)

/-- `createPhysicalArchive` up to the parsed response of `pg_backup_start`. -/
def startBackup : Backup W ε RawQueryResult := do
  let startResponse ← catching (exec env startPacket) fun error => do
    setState .exitUnconfirmed
    throw error
  match parseSimpleQueryRawResponse startResponse with
  | .ok start => do
    setState .exitRequired
    pure start
  | .error (.postgres fields) => throw (.postgres fields)
  | .error (.error message) => do
    setState .exitRequired
    if !responseConfirmsCommandCompletion startResponse then
      fail "pg_backup_start did not return a successful PostgreSQL command tag"
    else fail message

/-- The first WAL segment and the text of the segment size. -/
def startValues (start : RawQueryResult) : Backup W ε (String × String) :=
  if start.commandTag ≠ some "SELECT 1" then
    fail "pg_backup_start did not return a successful PostgreSQL command tag"
  else
    match start.rows with
    | [row] =>
      if row.length ≠ 2 then fail "pg_backup_start returned an unexpected result"
      else do
        let startWal ← liftError (rowText row 0)
        let walSegmentSizeText ← liftError (rowText row 1)
        match startWal, walSegmentSizeText with
        | some startWal, some walSegmentSizeText => pure (startWal, walSegmentSizeText)
        | _, _ => fail "pg_backup_start returned an unexpected result"
    | _ => fail "pg_backup_start returned an unexpected result"

/-- The state of the attempt, and its files. -/
def settleStop : StopBackupAttempt ε → Backup W ε StopBackupFiles
  | .exitUnconfirmed error => do
    setState .exitUnconfirmed
    throw error
  | .exited files => do
    setState .exited
    lift files

/-- One of the required WAL segments. -/
def readWalFile (walSegmentSize : Option Nat) (name : String) : Backup W ε (String × Contents) := do
  let bytes ← read (env.readFile ["pg_wal", name])
  if some bytes.length ≠ walSegmentSize then
    fail ("physical backup WAL segment " ++ name ++ " has the wrong size")
  else pure (name, bytes)

/-- The body of the outer `try`. -/
def backupBody : Backup W ε (List UInt8) := do
  let start ← startBackup env
  let (startWal, walSegmentSizeText) ← startValues start
  let walSegmentSize := env.number walSegmentSizeText
  let bulk ← read env.snapshotStorageDirectory
  let pgControl ← read (env.readFile pgControlPath)
  let beforeStop ← liftError (refreshBackupPgControl (withoutPostStopState bulk) pgControl)
  let stop ← stopPhysicalBackup env
  let files ← settleStop stop
  let walNames ← liftError
    (requiredBackupWalNames env.arrayCapacity startWal files.stopWal walSegmentSize)
  let walFiles ← forEach (readWalFile env walSegmentSize) walNames
  liftError (encodePhysicalArchive
    (mergeBackupSnapshots beforeStop walFiles files.backupLabel files.tablespaceMap))

/-- The outer `catch`, where the exit is still required. -/
def cleanup (primaryError : Thrown ε) : Backup W ε (List UInt8) := do
  let attempt ← stopPhysicalBackup env
  match attempt with
  | .exitUnconfirmed error => do
    setState .exitUnconfirmed
    throw (backupModeExitUnconfirmed env primaryError error)
  | .exited files => do
    setState .exited
    match files with
    | .error validationError => throw (backupCleanupFailure env primaryError validationError)
    | .ok _ => throw primaryError

def createPhysicalArchive : Backup W ε (List UInt8) :=
  catching (backupBody env) fun primaryError s =>
    if s.state = .exitRequired ∨ s.state = .exitUnconfirmed then cleanup env primaryError s
    else throw primaryError s

end Program

/-- The response has an ErrorResponse among its complete frames. -/
def Refused (response : List UInt8) : Prop :=
  ∃ frames body rest, (∀ f ∈ frames, Frame.Fits f) ∧ (⟨0x45, body⟩ : Frame).Fits ∧
    response = encodeAll frames ++ ((⟨0x45, body⟩ : Frame).encode ++ rest)

/-- The response is complete frames without an ErrorResponse, among them a CommandComplete,
and ends with its ReadyForQuery. -/
def Completed (response : List UInt8) : Prop :=
  ∃ frames status, response = encodeAll (frames ++ [⟨0x5a, [status]⟩]) ∧
    (∀ f ∈ frames, f.Fits ∧ f.tag ≠ 0x45 ∧ f.tag ≠ 0x5a) ∧ (∃ f ∈ frames, f.tag = 0x43) ∧
    (status = 0x49 ∨ status = 0x54 ∨ status = 0x45)

variable {f : Frame} {saw : Bool} {input body : List UInt8}

/-- One turn of the loop takes one frame. An ErrorResponse ends it, and a ReadyForQuery
decides it. -/
theorem confirmsLoop_encode (hfits : f.Fits) (rest : List UInt8) (saw : Bool) :
    confirmsLoop saw (f.encode ++ rest) =
      if f.tag = 0x45 then false
      else if f.tag = 0x5a then
        (saw || f.tag = 0x43) && rest.isEmpty &&
          (f.body = [0x49] || f.body = [0x54] || f.body = [0x45])
      else confirmsLoop (saw || f.tag = 0x43) rest := by
  conv_lhs => rw [confirmsLoop]
  split
  · rename_i hsplit
    rw [splitFrame_encode hfits] at hsplit
    cases hsplit
  · rename_i hsplit
    rw [splitFrame_encode hfits] at hsplit
    cases hsplit
    rfl

variable {response : List UInt8}

theorem completed_of_confirms (h : confirmsLoop saw response = true) :
    ∃ frames status, response = encodeAll (frames ++ [⟨0x5a, [status]⟩]) ∧
      (∀ f ∈ frames, f.Fits ∧ f.tag ≠ 0x45 ∧ f.tag ≠ 0x5a) ∧
      (saw = true ∨ ∃ f ∈ frames, f.tag = 0x43) ∧
      (status = 0x49 ∨ status = 0x54 ∨ status = 0x45) := by
  induction response using frame_induction generalizing saw with
  | incomplete bytes hsplit =>
    rw [confirmsLoop] at h
    split at h <;> try cases h
    rename_i hsome
    cases hsplit.symm.trans hsome
  | frame f rest hfits ih =>
    rw [confirmsLoop_encode hfits] at h
    split_ifs at h with herror hready
    · -- The ReadyForQuery that ends the response.
      simp only [Bool.and_eq_true, Bool.or_eq_true, decide_eq_true_eq, List.isEmpty_iff] at h
      obtain ⟨⟨hsaw, rfl⟩, hbody⟩ := h
      have htag : f.tag ≠ 0x43 := by
        rw [hready]
        decide
      have hstatus : ∃ status, f.body = [status] ∧
          (status = 0x49 ∨ status = 0x54 ∨ status = 0x45) := by
        rcases hbody with (hbody | hbody) | hbody
        · exact ⟨_, hbody, .inl rfl⟩
        · exact ⟨_, hbody, .inr (.inl rfl)⟩
        · exact ⟨_, hbody, .inr (.inr rfl)⟩
      obtain ⟨status, hbody, hstatus⟩ := hstatus
      have hframe : f = ⟨0x5a, [status]⟩ := by
        cases f
        simp_all
      refine ⟨[], status, ?_, by simp, .inl (hsaw.resolve_right htag), hstatus⟩
      rw [hframe]
      simp
    · obtain ⟨frames, status, hrest, hframes, hcommand, hstatus⟩ := ih h
      refine ⟨f :: frames, status, ?_, ?_, ?_, hstatus⟩
      · rw [hrest]
        rfl
      · intro g hg
        rcases List.mem_cons.mp hg with rfl | hg
        · exact ⟨hfits, herror, hready⟩
        · exact hframes g hg
      · simp only [Bool.or_eq_true, decide_eq_true_eq] at hcommand
        rcases hcommand with (hsaw | htag) | ⟨g, hg, htag⟩
        · exact .inl hsaw
        · exact .inr ⟨f, .head _, htag⟩
        · exact .inr ⟨g, .tail f hg, htag⟩

theorem confirms_of_completed (hframes : ∀ f ∈ frames, f.Fits ∧ f.tag ≠ 0x45 ∧ f.tag ≠ 0x5a)
    (hcommand : saw = true ∨ ∃ f ∈ frames, f.tag = 0x43)
    (hstatus : status = 0x49 ∨ status = 0x54 ∨ status = 0x45) :
    confirmsLoop saw (encodeAll (frames ++ [⟨0x5a, [status]⟩])) = true := by
  induction frames generalizing saw with
  | nil =>
    have hsaw : saw = true := by
      rcases hcommand with hsaw | ⟨f, hf, -⟩
      · exact hsaw
      · cases hf
    have hfits : (⟨0x5a, [status]⟩ : Frame).Fits := by
      rw [Frame.Fits]
      simp
    rw [nil_append, encodeAll_cons, confirmsLoop_encode hfits]
    rcases hstatus with rfl | rfl | rfl
    · simp [hsaw]
    · simp [hsaw]
    · simp [hsaw]
  | cons f frames ih =>
    obtain ⟨hfits, herror, hready⟩ := hframes f (.head _)
    rw [cons_append, encodeAll_cons, confirmsLoop_encode hfits, if_neg herror, if_neg hready]
    refine ih (fun g hg => hframes g (.tail f hg)) ?_
    rcases hcommand with hsaw | ⟨g, hg, htag⟩
    · exact .inl (by rw [hsaw]; rfl)
    · rcases mem_cons.mp hg with rfl | hg
      · exact .inl (by simp [htag])
      · exact .inr ⟨g, hg, htag⟩

/-- **What counts as a confirmation**: frames that fit, none of them an ErrorResponse, one
CommandComplete, and a last ReadyForQuery with a known status and nothing behind it. -/
theorem confirms_iff :
    responseConfirmsCommandCompletion response = true ↔ Completed response := by
  constructor
  · intro h
    obtain ⟨frames, status, hresponse, hframes, hcommand, hstatus⟩ := completed_of_confirms h
    exact ⟨frames, status, hresponse, hframes, hcommand.resolve_left (by decide), hstatus⟩
  · rintro ⟨frames, status, rfl, hframes, hcommand, hstatus⟩
    exact confirms_of_completed hframes (.inr hcommand) hstatus

/-! ## Where a PostgresError comes from -/

variable {rest : List UInt8} {tag : UInt8}

theorem readMessage_frame (h : readMessage input = .ok ((tag, body), rest)) :
    (⟨tag, body⟩ : Frame).Fits ∧ input = (⟨tag, body⟩ : Frame).encode ++ rest := by
  refine splitFrame_eq_some ?_
  cases input with
  | nil => cases h
  | cons first tail =>
    have hread := readMessage_cons first tail
    rw [h] at hread
    dsimp only [Except.toOption] at hread
    split_ifs at hread with hrefused
    simp only [not_or, Nat.not_lt, Int.not_lt] at hrefused
    obtain ⟨hheader, hlength, hbody⟩ := hrefused
    obtain ⟨hmessage, hrest⟩ := Prod.mk.inj (Option.some.inj hread)
    obtain ⟨htag, hbody'⟩ := Prod.mk.inj hmessage
    -- A length that is not negative is the unsigned one.
    have hvalue : lengthField (first :: tail) = ofBigEndian (tail.take 4) := rfl
    have htake : (tail.take 4).length = 4 := by
      rw [length_take]
      omega
    have hlt := ofBigEndian_lt (tail.take 4)
    rw [htake] at hlt
    have hsigned : (signed32 (ofBigEndian (tail.take 4))).toNat = ofBigEndian (tail.take 4) ∧
        4 ≤ ofBigEndian (tail.take 4) := by
      rw [signed32] at hlength ⊢
      split_ifs at hlength ⊢
      · omega
      · omega
    rw [hsigned.1] at hbody' hrest hbody
    rw [length_drop] at hbody
    rw [splitFrame, hvalue, if_neg (by rw [length_cons]; omega), htag, hbody', hrest]
    have hdrop : (first :: tail).drop (ofBigEndian (tail.take 4) + 1) =
        (tail.drop 4).drop (ofBigEndian (tail.take 4) - 4) := by
      rw [drop_succ_cons, drop_drop]
      congr 1
      omega
    rw [hdrop]

theorem tag_of_errorResponse (h : Message.ofTag tag = .errorResponse) :
    tag = 0x45 := by
  have htags : ∀ n < 256, Message.ofTag (UInt8.ofNat n) = .errorResponse → n = 0x45 := by
    decide +kernel
  rw [← UInt8.ofNat_toNat (x := tag)] at h ⊢
  rw [htags tag.toNat tag.toNat_lt h]
  rfl

/-- The parser has read no ErrorResponse. -/
structure Unrefused (s : OperationState) : Prop where
  failure : ∀ fields, s.failure ≠ some (.postgres fields)
  sawErrorResponse : s.sawErrorResponse = false

variable {s : OperationState}

theorem Unrefused.fail (h : Unrefused s) (message : String) :
    Unrefused (s.fail (.error message)) := by
  refine ⟨fun fields hfields => ?_, h.sawErrorResponse⟩
  rw [OperationState.fail] at hfields
  cases hfailure : s.failure with
  | none =>
    rw [hfailure] at hfields
    cases hfields
  | some failure =>
    rw [hfailure] at hfields
    exact h.failure fields (hfailure.trans hfields)

theorem Unrefused.failWhen (h : Unrefused s) (message : String) [Decidable c] :
    Unrefused (if c then s.fail (.error message) else s) := by
  split_ifs
  · exact h.fail message
  · exact h

theorem operationMessage_unrefused (mode : OperationMode)
    (body rest : List UInt8) (h : Unrefused s) (htag : Message.ofTag tag ≠ .errorResponse) :
    ByteReader.Ensures Unrefused (operationMessage mode s tag body rest) :=
  operationMessage_keeps
    (fun _ hfailure _ hsaw => ⟨hfailure ▸ h.failure, hsaw ▸ h.sawErrorResponse⟩)
    (fun _ e ht => ht.fail e) fun hmessage => absurd hmessage htag

/-- Only an ErrorResponse makes the parser refuse as a PostgresError: no other message, read
or not, leads there. -/
theorem operationStep_unrefused (mode : OperationMode)
    (body rest : List UInt8) (h : Unrefused s) (htag : Message.ofTag tag ≠ .errorResponse) :
    Unrefused (operationStep mode s tag body rest) := by
  rw [operationStep_eq tag body rest h.sawErrorResponse]
  have hmessage := operationMessage_unrefused mode body rest h htag
  revert hmessage
  cases operationMessage mode s tag body rest with
  | error e => exact fun _ => h.fail e
  | ok next => exact fun hmessage => hmessage next rfl

variable {mode : OperationMode}

/-- After the loop only an ErrorResponse is a PostgresError. -/
theorem operationResult_unrefused (h : Unrefused s)
    (fields : List DiagnosticField) : operationResult mode s ≠ .error (.postgres fields) := by
  intro hresult
  rw [operationResult] at hresult
  cases hstatus : s.status with
  | none =>
    rw [hstatus] at hresult
    cases hfailure : s.failure with
    | none =>
      rw [hfailure] at hresult
      cases hresult
    | some failure =>
      rw [hfailure] at hresult
      exact h.failure fields (hfailure.trans (congrArg some (Except.error.inj hresult)))
  | some status =>
    rw [hstatus] at hresult
    cases hrecovery : s.recoveryFailure with
    | some message =>
      rw [hrecovery] at hresult
      cases hresult
    | none =>
      simp only [hrecovery] at hresult
      split at hresult
      · rename_i failure hfailure
        exact (((h.failWhen _).failWhen _).failWhen _).failure fields
          (hfailure.trans (congrArg some (Except.error.inj hresult)))
      · cases hresult

theorem Refused.cons (hfits : f.Fits) (h : Refused rest) : Refused (f.encode ++ rest) := by
  obtain ⟨frames, body, more, hframes, hbody, rfl⟩ := h
  refine ⟨f :: frames, body, more, ?_, hbody, ?_⟩
  · intro g hg
    rcases mem_cons.mp hg with rfl | hg
    · exact hfits
    · exact hframes g hg
  · rw [encodeAll_cons, append_assoc]

/-- Only ReadyForQuery with a status ends the loop of the parser. -/
theorem ready_of_parsed (h : Unrefused s) (htag : tag = 0x5a)
    (hbody : body = [0x49] ∨ body = [0x54] ∨ body = [0x45]) :
    (operationStep mode s tag body rest).status.isSome = true := by
  rw [operationStep_eq tag body rest h.sawErrorResponse]
  have hmessage : Message.ofTag tag = .readyForQuery := by
    rw [htag]
    decide
  have hparse : ∃ status, parseReadyForQuery body = .ok status := by
    rcases hbody with rfl | rfl | rfl
    · exact ⟨_, rfl⟩
    · exact ⟨_, rfl⟩
    · exact ⟨_, rfl⟩
  obtain ⟨status, hparse⟩ := hparse
  simp only [operationMessage, hmessage, hparse]
  show (if rest = [] then _ else _ : OperationState).status.isSome = true
  split_ifs
  · rfl
  · rfl

/-- A response that is parsed to a PostgresError has an ErrorResponse, and confirms
nothing. -/
theorem refused_of_postgres :
    ∀ s fields, Unrefused s → operationRun mode s input = .error (.postgres fields) →
      Refused input ∧ ∀ saw, confirmsLoop saw input = false := by
  induction input using message_induction with
  | nil =>
    intro s fields h hrun
    rw [operationRun_nil] at hrun
    exact absurd hrun (operationResult_unrefused h fields)
  | error input e hne hread =>
    intro s fields h hrun
    rw [operationRun_error s hne hread] at hrun
    cases hrun
  | message input tag body rest hne hread ih =>
    intro s fields h hrun
    obtain ⟨hfits, hinput⟩ := readMessage_frame hread
    by_cases htag : tag = 0x45
    · subst htag
      refine ⟨⟨[], body, rest, by simp, hfits, by rw [hinput]; rfl⟩, fun saw => ?_⟩
      rw [hinput, confirmsLoop_encode hfits, if_pos rfl]
    · have hmessage : Message.ofTag tag ≠ .errorResponse := by
        intro hmessage
        exact htag (tag_of_errorResponse hmessage)
      have hnext := operationStep_unrefused mode body rest h hmessage
      rw [operationRun_ok s hne hread] at hrun
      split_ifs at hrun with hready
      · exact absurd hrun (operationResult_unrefused hnext fields)
      · obtain ⟨hrefused, hconfirms⟩ := ih _ fields hnext hrun
        rw [hinput]
        refine ⟨hrefused.cons hfits, fun saw => ?_⟩
        rw [confirmsLoop_encode hfits, if_neg htag]
        split_ifs with hz
        · -- The parser goes on only after a ReadyForQuery without a status.
          by_contra hconfirmed
          simp only [Bool.not_eq_false, Bool.and_eq_true, Bool.or_eq_true, decide_eq_true_eq,
            or_assoc] at hconfirmed
          exact hready (ready_of_parsed h hz hconfirmed.2)
        · exact hconfirms _

/-- A response that is parsed to a PostgresError holds an ErrorResponse and does not confirm
the command: the two readings of one response cannot disagree. -/
theorem refused_of_parsed (h : parseSimpleQueryRawResponse response = .error (.postgres fields)) :
    Refused response ∧ ¬ Completed response := by
  have hrun : parseOperation response .simpleSingle = .error (.postgres fields) := by
    rw [parseSimpleQueryRawResponse] at h
    cases hparse : parseOperation response .simpleSingle with
    | error failure =>
      rw [hparse] at h
      exact congrArg Except.error (Except.error.inj h)
    | ok operation =>
      rw [hparse] at h
      cases h
  rw [parseOperation_eq] at hrun
  obtain ⟨hrefused, hconfirms⟩ := refused_of_postgres {} fields ⟨nofun, rfl⟩ hrun
  refine ⟨hrefused, fun hcompleted => ?_⟩
  have hconfirmed := confirms_iff.mpr hcompleted
  rw [responseConfirmsCommandCompletion, hconfirms] at hconfirmed
  cases hconfirmed

section Mode

variable {W ε : Type} {env : Environment W ε} {inBackup : W → Prop}

/-- What is assumed of the server, whose backup mode is `inBackup`. -/
structure Server (env : Environment W ε) (inBackup : W → Prop) : Prop where
  /-- an ErrorResponse to `pg_backup_start` means that backup mode was not entered -/
  start_refused : ∀ w response, ¬ inBackup w → (env.exec startPacket w).1 = .ok response →
    Refused response → ¬ inBackup (env.exec startPacket w).2
  /-- a completed response to `pg_backup_stop` means that it ran -/
  stop_completed : ∀ w response, (env.exec stopPacket w).1 = .ok response →
    Completed response → ¬ inBackup (env.exec stopPacket w).2
  /-- reading files does not change backup mode -/
  snapshot_keeps : ∀ w, ¬ inBackup w → ¬ inBackup (env.snapshotStorageDirectory w).2
  readFile_keeps : ∀ w path, ¬ inBackup w → ¬ inBackup (env.readFile path w).2

/-- The call is a `pg_backup_stop` whose response confirms the exit. -/
def Call.ConfirmsExit (call : Call ε) : Prop :=
  call.packet = stopPacket ∧ ∃ response, call.outcome = .ok response ∧ Completed response

/-- The call is a `pg_backup_start` that the server refused. -/
def Call.StartRefused (call : Call ε) : Prop :=
  call.packet = startPacket ∧ ∃ response, call.outcome = .ok response ∧ Refused response

/-- No exit was confirmed yet. -/
def Unconfirmed (s : Session W ε) : Prop := ∀ call ∈ s.calls, ¬ call.ConfirmsExit

/-- Backup mode was left, as the last call confirms. -/
def Left (inBackup : W → Prop) (s : Session W ε) : Prop :=
  ¬ inBackup s.world ∧ ∃ before call, s.calls = before ++ [call] ∧
    (∀ earlier ∈ before, ¬ earlier.ConfirmsExit) ∧ call.ConfirmsExit

/-- Backup mode was not entered: the server refused the only call. -/
def NotEntered (inBackup : W → Prop) (s : Session W ε) : Prop :=
  ¬ inBackup s.world ∧ ∃ call, s.calls = [call] ∧ call.StartRefused

theorem startPacket_ne_stopPacket : startPacket ≠ stopPacket := by decide +kernel

/-! ## What each part of the backup keeps -/

/-- The exit is still to be made, and no response confirmed one. -/
def Required (s : Session W ε) : Prop :=
  (s.state = .exitRequired ∨ s.state = .exitUnconfirmed) ∧ Unconfirmed s

/-- No call was made yet. -/
def Fresh (inBackup : W → Prop) (s : Session W ε) : Prop :=
  s.state = .notEntered ∧ s.calls = [] ∧ ¬ inBackup s.world

/-- What an attempt to leave backup mode says about the session. -/
def Attempted (inBackup : W → Prop) : StopBackupAttempt ε → Session W ε → Prop
  | .exited _, s => Left inBackup s
  | .exitUnconfirmed _, s => Unconfirmed s

/-- The state of the `try` where it throws. -/
def Failed (inBackup : W → Prop) (s : Session W ε) : Prop :=
  (s.state = .notEntered ∧ NotEntered inBackup s) ∨ Required s ∨
    (s.state = .exited ∧ Left inBackup s)

variable {α : Type} {I : Session W ε → Prop} {s : Session W ε} {call : Call ε}

theorem read_keeps {f : W → Except ε α × W} (h : ∀ s, I s → I { s with world := (f s.world).2 }) :
    Triple I (read f : Backup W ε α) (fun _ => I) (fun _ => I) := by
  intro s hs
  refine ⟨fun a t ht => ?_, fun e t ht => ?_⟩ <;> exact (Prod.mk.inj ht).2 ▸ h s hs

/-- What throws or returns without touching the session. -/
theorem liftError_keeps (x : Except String α) :
    Triple I (liftError x : Backup W ε α) (fun _ => I) (fun _ => I) :=
  .lift (fun _ _ _ hs => hs) (fun _ _ _ hs => hs)

/-- The session after a call. -/
def Session.called (env : Environment W ε) (packet : List UInt8) (s : Session W ε) : Session W ε :=
  { s with
    world := (env.exec packet s.world).2
    calls := s.calls ++ [⟨packet, (env.exec packet s.world).1⟩] }

/-- The rule of a call to the server: its outcome and the call itself are recorded together. -/
theorem exec_spec (packet : List UInt8)
    (hok : ∀ s response, P s → (env.exec packet s.world).1 = .ok response →
      Q response (s.called env packet))
    (herror : ∀ s e, P s → (env.exec packet s.world).1 = .error e →
      E (.foreign e) (s.called env packet)) : Triple P (exec env packet) Q E := by
  intro s hs
  have hexec : exec env packet s =
      ((env.exec packet s.world).1.mapError .foreign, s.called env packet) := rfl
  rw [hexec]
  cases houtcome : (env.exec packet s.world).1 with
  | ok response => exact ends_ok (hok s response hs houtcome)
  | error value => exact ends_error (herror s value hs houtcome)

/-- A call that confirms no exit leaves the session unconfirmed. -/
theorem Unconfirmed.called (h : Unconfirmed s)
    (hcall : ¬ (⟨packet, (env.exec packet s.world).1⟩ : Call ε).ConfirmsExit) :
    Unconfirmed (s.called env packet) := by
  intro call hmem
  rcases mem_append.mp hmem with hmem | hmem
  · exact h call hmem
  · rw [mem_singleton.mp hmem]
    exact hcall

/-- A response to `pg_backup_stop` is taken as the exit exactly when it is a completed one. -/
theorem stopAttempt_cases (response : List UInt8) :
    (Completed response ∧ ∃ files, (stopAttempt response : StopBackupAttempt ε) = .exited files) ∨
      (¬ Completed response ∧
        ∃ error, (stopAttempt response : StopBackupAttempt ε) = .exitUnconfirmed error) := by
  rw [stopAttempt]
  by_cases hconfirms : responseConfirmsCommandCompletion response = true
  · have hcompleted := confirms_iff.mp hconfirms
    cases hparse : parseSimpleQueryRawResponse response with
    | ok result => exact .inl ⟨hcompleted, stopBackupFiles result, by simp [hconfirms]⟩
    | error failure =>
      cases failure with
      | postgres fields => exact absurd hcompleted (refused_of_parsed hparse).2
      | error message => exact .inl ⟨hcompleted, .error (.error message), by simp [hconfirms]⟩
  · have hcompleted : ¬ Completed response := fun h => hconfirms (confirms_iff.mpr h)
    cases parseSimpleQueryRawResponse response with
    | ok result => exact .inr ⟨hcompleted, _, by simp only [hconfirms]; rfl⟩
    | error failure =>
      cases failure with
      | postgres fields => exact .inr ⟨hcompleted, _, rfl⟩
      | error message => exact .inr ⟨hcompleted, _, by simp only [hconfirms]; rfl⟩

/-- `pg_backup_stop` never throws: it left backup mode, or no response confirms it. -/
theorem stop_spec (hServer : Server env inBackup) :
    Triple (Unconfirmed : Session W ε → Prop) (stopPhysicalBackup env)
      (Attempted inBackup) (fun _ _ => False) := by
  refine .catching (R := fun _ s => Unconfirmed s) (.bind (R := fun response s =>
    (Completed response → Left inBackup s) ∧ (¬ Completed response → Unconfirmed s)) ?_ ?_) ?_
  · refine exec_spec stopPacket (fun s response hs hresponse => ⟨fun hcompleted => ?_,
      fun hcompleted => hs.called ?_⟩) fun s e hs herror => hs.called ?_
    · exact ⟨hServer.stop_completed s.world response hresponse hcompleted, s.calls, _, rfl, hs,
        rfl, response, hresponse, hcompleted⟩
    · rintro ⟨-, response', hresponse', hcompleted'⟩
      rw [show (env.exec stopPacket s.world).1 = .ok response' from hresponse'] at hresponse
      rw [Except.ok.inj hresponse] at hcompleted'
      exact hcompleted hcompleted'
    · rintro ⟨-, response, hresponse, -⟩
      rw [show (env.exec stopPacket s.world).1 = .ok response from hresponse] at herror
      cases herror
  · intro response
    refine .pure fun s hs => ?_
    rcases stopAttempt_cases response with ⟨hcompleted, files, hfiles⟩ | ⟨hcompleted, error, herror⟩
    · rw [hfiles]
      exact hs.1 hcompleted
    · rw [herror]
      exact hs.2 hcompleted
  · intro e
    exact .pure fun s hs => hs

/-- `pg_backup_start`: it was refused, or the exit is required from here on. -/
theorem start_spec (hServer : Server env inBackup) :
    Triple (Fresh inBackup) (startBackup env) (fun _ s => Required s)
      (fun _ s => Failed inBackup s) := by
  have hunconfirmed : ∀ s : Session W ε, s.calls = [] → Unconfirmed (s.called env startPacket) := by
    intro s hcalls
    refine Unconfirmed.called (fun call hcall => ?_) ?_
    · rw [hcalls] at hcall
      cases hcall
    · rintro ⟨hpacket, -⟩
      exact startPacket_ne_stopPacket hpacket
  refine .bind (R := fun response s => s.state = .notEntered ∧ Unconfirmed s ∧
    (Refused response → NotEntered inBackup s)) ?_ ?_
  · refine .catching (R := fun _ s => Unconfirmed s) (exec_spec startPacket
      (fun s response hs hresponse => ⟨hs.1, hunconfirmed s hs.2.1, fun hrefused => ?_⟩)
      fun s e hs herror => hunconfirmed s hs.2.1) fun e => ?_
    · refine ⟨hServer.start_refused s.world response hs.2.2 hresponse hrefused, _,
        by rw [Session.called, hs.2.1]; rfl, rfl, response, hresponse, hrefused⟩
    · exact .bind (R := fun _ s => Required s) (.modify fun s hs => ⟨.inr rfl, hs⟩)
        fun _ => .throw fun s hs => .inr (.inl hs)
  · intro response
    cases hparse : parseSimpleQueryRawResponse response with
    | ok start =>
      exact .bind (R := fun _ s => Required s) (.modify fun s hs => ⟨.inl rfl, hs.2.1⟩)
        fun _ => .pure fun s hs => hs
    | error failure =>
      cases failure with
      | postgres fields =>
        exact .throw fun s hs => .inl ⟨hs.1, hs.2.2 (refused_of_parsed hparse).1⟩
      | error message =>
        exact .bind (R := fun _ s => Required s) (.modify fun s hs => ⟨.inl rfl, hs.2.1⟩)
          fun _ => .ite (fun _ => .throw fun s hs => .inr (.inl hs))
            fun _ => .throw fun s hs => .inr (.inl hs)

theorem startValues_spec (start : RawQueryResult) :
    Triple I (startValues start : Backup W ε (String × String)) (fun _ => I) (fun _ => I) := by
  refine .ite (fun _ => .throw fun _ hs => hs) fun _ => ?_
  split
  · refine .ite (fun _ => .throw fun _ hs => hs) fun _ => ?_
    refine .bind (R := fun _ => I) (liftError_keeps _) fun startWal =>
      .bind (R := fun _ => I) (liftError_keeps _) fun walSegmentSizeText => ?_
    split
    · exact .pure fun _ hs => hs
    · exact .throw fun _ hs => hs
  · exact .throw fun _ hs => hs

/-- After an attempt to stop, the body goes on only if backup mode was left. -/
theorem settleStop_spec (attempt : StopBackupAttempt ε) :
    Triple (Attempted inBackup attempt) (settleStop attempt : Backup W ε _)
      (fun _ s => s.state = .exited ∧ Left inBackup s) (fun _ s => Failed inBackup s) := by
  cases attempt with
  | exitUnconfirmed error =>
    exact .bind (R := fun _ s => Required s) (.modify fun s hs => ⟨.inr rfl, hs⟩)
      fun _ => .throw fun s hs => .inr (.inl hs)
  | exited files =>
    exact .bind (R := fun _ s => s.state = .exited ∧ Left inBackup s)
      (.modify fun s hs => ⟨rfl, hs⟩)
      fun _ => .lift (fun _ _ _ hs => hs) fun _ _ _ hs => .inr (.inr hs)

/-- The body of a backup ends with backup mode left, or fails in a state that says what is
known of it. -/
theorem body_spec (hServer : Server env inBackup) :
    Triple (Fresh inBackup) (backupBody env) (fun _ s => s.state = .exited ∧ Left inBackup s)
      (fun _ s => Failed inBackup s) := by
  -- What the steps before and after the stop keep.
  have hrequired : ∀ (_ : Thrown ε) (s : Session W ε), Required s → Failed inBackup s :=
    fun _ _ hs => .inr (.inl hs)
  have hexited : ∀ (_ : Thrown ε) (s : Session W ε), s.state = .exited ∧ Left inBackup s →
      Failed inBackup s := fun _ _ hs => .inr (.inr hs)
  refine (start_spec hServer).bind fun start => ?_
  refine ((startValues_spec start).errors hrequired).bind fun values => ?_
  refine ((read_keeps fun s hs => hs).errors hrequired).bind fun bulk => ?_
  refine ((read_keeps fun s hs => hs).errors hrequired).bind fun pgControl => ?_
  refine ((liftError_keeps _).errors hrequired).bind fun beforeStop => ?_
  refine Triple.bind ((stop_spec hServer).conseq (fun _ hs => hs.2) (fun _ _ hs => hs)
    fun _ _ hs => hs.elim) fun stop => ?_
  refine (settleStop_spec stop).bind fun files => ?_
  refine ((liftError_keeps _).errors hexited).bind fun walNames => ?_
  refine ((Triple.forEach (fun name => ?_) walNames).errors hexited).bind fun walFiles => ?_
  · refine (read_keeps fun s hs => ?_).bind fun bytes =>
      .ite (fun _ => .throw fun _ hs => hs) fun _ => .pure fun _ hs => hs
    exact ⟨hs.1, hServer.readFile_keeps s.world _ hs.2.1, hs.2.2⟩
  exact (liftError_keeps _).errors hexited

/-- How the backup ends where it throws. -/
def EndsSafely (inBackup : W → Prop) (e : Thrown ε) (s : Session W ε) : Prop :=
  NotEntered inBackup s ∨ Left inBackup s ∨
    (∃ primary cleanup message, e = .backupModeExitUnconfirmed primary cleanup message) ∧
      Unconfirmed s

/-- The cleanup after a failed body ends with backup mode left or reports that it is
unconfirmed. -/
theorem cleanup_spec (hServer : Server env inBackup) (primaryError : Thrown ε) :
    Triple (Unconfirmed : Session W ε → Prop) (cleanup env primaryError)
      (fun _ _ => False) (EndsSafely inBackup) := by
  refine Triple.bind ((stop_spec hServer).errors fun _ _ hs => hs.elim) fun attempt => ?_
  cases attempt with
  | exitUnconfirmed error =>
    exact .bind (R := fun _ s => Unconfirmed s) (.modify fun s hs => hs) fun _ =>
      .throw fun s hs => .inr (.inr ⟨⟨_, _, _, rfl⟩, hs⟩)
  | exited files =>
    refine .bind (R := fun _ s => Left inBackup s) (.modify fun s hs => hs) fun _ => ?_
    cases files with
    | error validationError => exact .throw fun s hs => .inr (.inl hs)
    | ok files => exact .throw fun s hs => .inr (.inl hs)

/-- The whole backup: a result means that backup mode was left, and an error is safe. -/
theorem create_spec (hServer : Server env inBackup) :
    Triple (Fresh inBackup) (createPhysicalArchive env) (fun _ s => Left inBackup s)
      (EndsSafely inBackup) := by
  refine .catching ((body_spec hServer).conseq (fun _ hs => hs) (fun _ _ hs => hs.2)
    fun _ _ hs => hs) fun primaryError s hs => ?_
  rcases hs with ⟨hstate, hs⟩ | ⟨hstate, hs⟩ | ⟨hstate, hs⟩
  · rw [if_neg (by simp [hstate])]
    exact Triple.throw (P := NotEntered inBackup) (fun _ hs => .inl hs) s hs
  · rw [if_pos hstate]
    have hcleanup := cleanup_spec hServer primaryError s hs
    exact ⟨fun a t ht => (hcleanup.1 a t ht).elim, hcleanup.2⟩
  · rw [if_neg (by simp [hstate])]
    exact Triple.throw (P := Left inBackup) (fun _ hs => .inr (.inl hs)) s hs

/-- After a confirmed exit nothing is sent. -/
theorem Left.last (h : Left inBackup s) {after : List (Call ε)}
    (hcalls : s.calls = before ++ call :: after) (hexit : call.ConfirmsExit) : after = [] := by
  obtain ⟨-, earlier, last, hlast, hearlier, -⟩ := h
  by_contra hafter
  -- Otherwise the call is one of the earlier ones.
  have hsplit : (before ++ call :: after.dropLast) ++ [after.getLast hafter] =
      earlier ++ [last] := by
    rw [← hlast, hcalls, append_assoc, cons_append, dropLast_append_getLast]
  have hearlier' : before ++ call :: after.dropLast = earlier := append_inj_left' hsplit rfl
  refine hearlier call ?_ hexit
  rw [← hearlier']
  exact mem_append_right before (.head _)

/-- Backup mode was not entered or its exit is confirmed, or the error says that it is not;
and nothing asks for the exit again after it is confirmed. -/
def ClosedOrReported (inBackup : W → Prop) (outcome : Except (Thrown ε) (List UInt8))
    (s : Session W ε) : Prop :=
  ((∃ primary cleanup message,
        outcome = .error (.backupModeExitUnconfirmed primary cleanup message)) ∨
      ¬ inBackup s.world ∧
        ((∃ call, s.calls = [call] ∧ call.StartRefused) ∨ ∃ call ∈ s.calls, call.ConfirmsExit)) ∧
    ∀ before call after, s.calls = before ++ call :: after → call.ConfirmsExit →
      ∀ later ∈ after, later.packet ≠ stopPacket

theorem Left.closed (h : Left inBackup s) (outcome : Except (Thrown ε) (List UInt8)) :
    ClosedOrReported inBackup outcome s := by
  refine ⟨.inr ⟨h.1, .inr ?_⟩, fun before call after hcalls hexit later hlater => ?_⟩
  · obtain ⟨-, before, call, hcalls, -, hexit⟩ := h
    rw [hcalls]
    exact ⟨call, mem_append_right before (.head _), hexit⟩
  · rw [h.last hcalls hexit] at hlater
    cases hlater

theorem Unconfirmed.closed (h : Unconfirmed s) {after : List (Call ε)}
    (hcalls : s.calls = before ++ call :: after) : ¬ call.ConfirmsExit := by
  refine h call ?_
  rw [hcalls]
  exact mem_append_right before (.head _)

/-- **No backup leaves the server in backup mode unnoticed.** From a server outside backup
mode, whatever the calls return, a backup ends with backup mode not entered or left, or with
the error that says it is unconfirmed; and after a confirmed exit no further `pg_backup_stop`
is sent. -/
theorem backup_mode_closed (env : Environment W ε) (inBackup : W → Prop)
    (hServer : Server env inBackup) (w : W) (hw : ¬ inBackup w) :
    ClosedOrReported inBackup (createPhysicalArchive env { world := w }).1
      (createPhysicalArchive env { world := w }).2 := by
  have hspec := create_spec hServer { world := w } ⟨rfl, rfl, hw⟩
  revert hspec
  generalize createPhysicalArchive env { world := w } = run
  obtain ⟨outcome, s⟩ := run
  intro hspec
  cases outcome with
  | ok bytes => exact (hspec.1 bytes s rfl).closed _
  | error e =>
    rcases hspec.2 e s rfl with hs | hs | ⟨⟨primary, cleanup, message, rfl⟩, hs⟩
    · -- The only call was `pg_backup_start`.
      obtain ⟨hworld, call, hcalls, hrefused⟩ := hs
      refine ⟨.inr ⟨hworld, .inl ⟨call, hcalls, hrefused⟩⟩, ?_⟩
      intro before other after hother hexit later hlater
      rw [show s.calls = [call] from hcalls] at hother
      have hlength := congrArg List.length hother
      simp only [length_append, length_cons, length_nil] at hlength
      have hnil : after = [] := length_eq_zero_iff.mp (by omega)
      rw [hnil] at hlater
      cases hlater
    · exact hs.closed _
    · exact ⟨.inl ⟨primary, cleanup, message, rfl⟩,
        fun before call after hcalls hexit => absurd hexit (hs.closed hcalls)⟩

/-- The connection is lost while the server enters backup mode; the exit is confirmed. -/
def lostStart : Environment Bool String where
  exec packet _ :=
    if packet = startPacket then (.error "connection lost", true)
    else (.ok (encodeAll [⟨0x43, utf8 "SELECT 1" ++ [0]⟩, ⟨0x5a, [0x49]⟩]), false)
  snapshotStorageDirectory w := (.error "not read", w)
  readFile _ w := (.error "not read", w)
  number _ := none
  describe := id
  arrayCapacity := 0

theorem lostStart_server : Server lostStart (· = true) where
  start_refused w response _ hresponse _ := by
    simp only [lostStart, if_true] at hresponse
    cases hresponse
  stop_completed w response _ _ := by
    simp [lostStart, startPacket_ne_stopPacket.symm]
  snapshot_keeps _ h := h
  readFile_keeps _ _ h := h

/-- The response to `pg_backup_start` is lost. The backup sends one `pg_backup_stop`, which
the server completes. -/
theorem backup_mode_closed_lost_start :
    (createPhysicalArchive lostStart { world := false }).2.calls.map (·.packet) =
        [startPacket, stopPacket] ∧
      ClosedOrReported (· = true) (createPhysicalArchive lostStart { world := false }).1
        (createPhysicalArchive lostStart { world := false }).2 :=
  ⟨by decide +kernel, backup_mode_closed lostStart (· = true) lostStart_server false (by decide)⟩

end Mode

end Oliphaunt.BackupMode
