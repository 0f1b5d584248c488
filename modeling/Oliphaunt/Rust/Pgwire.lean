import Oliphaunt.Model.Frontend

/-!
# Ready boundaries of a broker request

`pgwire.rs` counts the ReadyForQuery messages a request will be answered with
before it sends anything, and `receive` then reads until it has seen that many.

`readies_respond` is the count the server makes of its own: every Query and Sync
of the request, less the ones it leaves out, plus the FunctionCalls. The same
walk over the request (`boundaryCount`) is shared with the TypeScript client.
-/

namespace Oliphaunt.Pgwire

open Bytes FrontendProtocol

def maxFrontendMessage : Nat := 128 * 1024 * 1024

/-- A frame that the client takes for a ready boundary: Query or Sync. -/
def isBoundary (tag : UInt8) : Bool := tag = 0x51 ∨ tag = 0x53

/-- Terminate and password messages. -/
def isControl (tag : UInt8) : Bool := tag = 0x58 ∨ tag = 0x70

/-- Query, Sync, CopyDone and CopyFail. -/
def endsRequest (tag : UInt8) : Bool := tag = 0x51 ∨ tag = 0x53 ∨ tag = 0x63 ∨ tag = 0x66

/-- One round of the loop: the count so far and the last tag. -/
def countFrame (control : String) (s : Nat × UInt8) (tag : UInt8) :
    Except String (Nat × UInt8) :=
  if isControl tag then .error control
  else .ok (if isBoundary tag then s.1 + 1 else s.1, tag)

/-- The loop and the check after it. -/
def boundaryCount (errors : WalkErrors String) (control incomplete : String)
    (request : List UInt8) : Except String Nat :=
  match walk errors (countFrame control) (0, 0) request with
  | .error error => .error error
  | .ok (count, last) =>
    if count = 0 ∨ !endsRequest last then .error incomplete else .ok count

def completionCount (request : List UInt8) : Except String Nat :=
  if maxFrontendMessage < request.length then .error "broker request exceeds size limit"
  else
    boundaryCount
      { truncated := "truncated frontend frame"
        short := "invalid frontend frame length"
        overrun := "invalid frontend frame length" }
      "connection control is not a query request"
      "broker request must include a complete Query or Sync boundary"
      request

/-- The Query and Sync frames of a request. -/
def boundaries (frames : List Frame) : Nat := frames.countP fun f => isBoundary f.tag

variable {control : String} {frames : List Frame}

theorem visitAll_countFrame (h : visitAll (countFrame control) s frames = .ok t) :
    t.1 = s.1 + boundaries frames := by
  induction frames generalizing s with
  | nil =>
    cases h
    rfl
  | cons f rest ih =>
    rw [visitAll, countFrame] at h
    by_cases hcontrol : isControl f.tag
    · rw [if_pos hcontrol] at h
      cases h
    · rw [if_neg hcontrol] at h
      rw [ih h, boundaries, boundaries, List.countP_cons]
      split_ifs <;> omega

variable {request : List UInt8} {n : Nat}

theorem boundaryCount_eq_ok (h : boundaryCount errors control incomplete request = .ok n) :
    ∃ last, walk errors (countFrame control) (0, 0) request = .ok (n, last) := by
  rw [boundaryCount] at h
  cases hwalk : walk errors (countFrame control) (0, 0) request with
  | error error => rw [hwalk] at h; cases h
  | ok t =>
    rw [hwalk] at h
    dsimp only at h
    split_ifs at h
    cases h
    exact ⟨t.2, rfl⟩

/-- A request that is counted is short enough and passes the walk. -/
theorem completionCount_eq_ok (h : completionCount request = .ok n) :
    request.length ≤ maxFrontendMessage ∧ ∃ errors control last,
      walk errors (countFrame control) (0, 0) request = .ok (n, last) := by
  rw [completionCount] at h
  split_ifs at h with hlong
  obtain ⟨last, hwalk⟩ := boundaryCount_eq_ok h
  exact ⟨by omega, _, _, last, hwalk⟩

/-- A request that is accepted is a sequence of frames. -/
theorem exists_frames_of_completionCount
    (h : completionCount request = .ok n) : ∃ frames : List Frame, encodeAll frames = request := by
  obtain ⟨-, errors, control, last, hwalk⟩ := completionCount_eq_ok h
  obtain ⟨frames, -, hbytes, -⟩ := walk_eq_ok hwalk
  exact ⟨frames, hbytes⟩

/-- The count is the number of Query and Sync frames. -/
theorem completionCount_encodeAll (h : completionCount (encodeAll frames) = .ok n) :
    n = boundaries frames := by
  obtain ⟨hlength, errors, control, last, hwalk⟩ := completionCount_eq_ok h
  have hfits : ∀ f ∈ frames, f.Fits := by
    intro f hf
    have hle := length_le_encodeAll hf
    have hmax : maxFrontendMessage ≤ 2 ^ 32 := by decide
    rw [Frame.Fits]
    omega
  rw [walk_encodeAll hfits] at hwalk
  have hcount := visitAll_countFrame hwalk
  omega

/-- The server takes the frame up as one that ends with a ReadyForQuery. -/
def takesUp : Mode → Kind → Bool
  | .normal, .query => true
  | .normal, .sync => true
  | .normal, .functionCall => true
  | .skipping, .sync => true
  | _, _ => false

/-- ReadyForQuery messages that are due when the present work ends. -/
def owed : Mode → Nat
  | .copyIn false => 1
  | _ => 0

/-- Query and Sync frames that the server does not take up: it discards them after
an error, ignores them during a COPY or has ended the connection. -/
def dropped : Mode → List (Frame × Reply) → Nat
  | _, [] => 0
  | mode, (f, r) :: rest =>
    (if isBoundary f.tag ∧ !takesUp mode (.ofTag f.tag) then 1 else 0) +
      dropped (react mode (.ofTag f.tag) r.outcome).1 rest

/-- Frames that the server takes up and never finishes: a COPY without its end, or
a connection that is lost on the way. -/
def abandoned : Mode → List (Frame × Reply) → Nat
  | mode, [] => owed mode
  | mode, (f, r) :: rest =>
    let next := (react mode (.ofTag f.tag) r.outcome).1
    (if next = .closed then owed mode + (takesUp mode (.ofTag f.tag)).toNat else 0) +
      abandoned next rest

/-- FunctionCall frames that the server takes up. -/
def calls : Mode → List (Frame × Reply) → Nat
  | _, [] => 0
  | mode, (f, r) :: rest =>
    (if takesUp mode (.ofTag f.tag) ∧ !isBoundary f.tag then 1 else 0) +
      calls (react mode (.ofTag f.tag) r.outcome).1 rest

/-- One frame: what is due afterwards is what was due before and what was taken
up, less what is sent and what is lost with the connection. -/
theorem react_owed (mode : Mode) (kind : Kind) (outcome : Verdict) :
    (react mode kind outcome).2.toNat + owed (react mode kind outcome).1 +
        (if (react mode kind outcome).1 = .closed then owed mode + (takesUp mode kind).toNat
          else 0) =
      owed mode + (takesUp mode kind).toNat := by
  cases mode with
  | normal => cases kind <;> cases outcome <;> rfl
  | skipping => cases kind <;> cases outcome <;> rfl
  | copyIn extended => cases extended <;> cases kind <;> cases outcome <;> rfl
  | closed => cases kind <;> cases outcome <;> rfl

/-- The server's own count, over a whole request. -/
theorem readies_respond (hreplies : ∀ step ∈ steps, step.2.WellFormed) (mode : Mode) :
    readies (respond mode steps) + abandoned mode steps + dropped mode steps =
      owed mode + boundaries (steps.map Prod.fst) + calls mode steps := by
  induction steps generalizing mode with
  | nil => simp [respond, readies, abandoned, dropped, boundaries, calls]
  | cons step rest ih =>
    obtain ⟨f, r⟩ := step
    have hrest := ih (fun s hs => hreplies s (.tail _ hs))
      (react mode (.ofTag f.tag) r.outcome).1
    have hstep := react_owed mode (.ofTag f.tag) r.outcome
    have hhead : boundaries ((f :: rest.map Prod.fst)) =
        boundaries (rest.map Prod.fst) + if isBoundary f.tag then 1 else 0 := by
      rw [boundaries, boundaries, List.countP_cons]
    rw [respond, readies_append, readies_answer (hreplies _ (.head _)), List.map_cons,
      hhead, abandoned, dropped, calls]
    -- the frame is taken up or not, and is a boundary or not
    cases htaken : takesUp mode (.ofTag f.tag) <;> cases hboundary : isBoundary f.tag <;>
      simp only [htaken, Bool.toNat_true, Bool.toNat_false, Bool.not_true, Bool.not_false,
        Bool.false_eq_true, and_true, and_false, if_true, if_false] at hstep ⊢ <;>
      omega

def readBackend (input : List UInt8) : Except String (List UInt8 × List UInt8) :=
  match take 5 input with
  | none => .error "failed to fill whole buffer"
  | some (header, rest) =>
    let length := ofBigEndian (header.drop 1)
    if ¬ (4 ≤ length ∧ length < maxFrontendMessage) then
      .error "invalid backend message length"
    else
      match take (length - 4) rest with
      | none => .error "failed to fill whole buffer"
      | some (body, rest) => .ok (header ++ body, rest)

/-- A ReadyForQuery has one status byte, `I`, `T` or `E`. -/
def validReady (bytes : List UInt8) : Bool :=
  bytes.length = 6 ∧ (bytes.getD 5 0 = 0x49 ∨ bytes.getD 5 0 = 0x54 ∨ bytes.getD 5 0 = 0x45)

theorem readBackend_length (h : readBackend input = .ok (frame, rest)) :
    rest.length < input.length := by
  rw [readBackend] at h
  cases hheader : take 5 input with
  | none => rw [hheader] at h; cases h
  | some read =>
    obtain ⟨header, tail⟩ := read
    rw [hheader] at h
    dsimp only at h
    split_ifs at h
    cases hbody : take (ofBigEndian (header.drop 1) - 4) tail with
    | none => rw [hbody] at h; cases h
    | some read =>
      rw [hbody] at h
      obtain ⟨-, rfl⟩ := Prod.mk.inj (Except.ok.inj h)
      have h1 := take_eq_some hheader
      have h2 := take_eq_some hbody
      omega

/-- Reads until `boundaries` ReadyForQuery messages have come; the first error of
the callback is kept and the rest is still read. `input` are the bytes that
arrive before the end of the stream. -/
def receive {ε : Type} (callback : List UInt8 → Option ε) (boundaries : Nat)
    (callbackError : Option ε) (input : List UInt8) :
    Except String (Option ε × List UInt8) :=
  match boundaries with
  | 0 => .ok (callbackError, input)
  | left + 1 =>
    match h : readBackend input with
    | .error error => .error error
    | .ok (bytes, rest) =>
      have := readBackend_length h
      let callbackError := if callbackError.isNone then callback bytes else callbackError
      if bytes.head? = some readyTag then
        if validReady bytes then receive callback left callbackError rest
        else .error "invalid ReadyForQuery frame"
      else receive callback (left + 1) callbackError rest
termination_by input.length

/-- What is left of a response after its `n`-th ReadyForQuery. -/
def afterReady : Nat → List Frame → Option (List Frame)
  | 0, frames => some frames
  | _ + 1, [] => none
  | n + 1, f :: rest => if f.tag = readyTag then afterReady n rest else afterReady (n + 1) rest

/-- The reader stops at the last ReadyForQuery exactly if it waits for all of them. -/
theorem afterReady_last_iff (n : Nat) (frames : List Frame) :
    (∃ left, afterReady n frames = some left ∧ readies left = 0) ↔ n = readies frames := by
  induction frames generalizing n with
  | nil =>
    cases n with
    | zero => simp [afterReady, readies]
    | succ n => simp [afterReady, readies]
  | cons f rest ih =>
    by_cases hready : f.tag = readyTag
    · have hcount : readies (f :: rest) = readies rest + 1 := by
        simp [readies, hready]
      cases n with
      | zero => simp [afterReady, hcount]
      | succ n =>
        rw [afterReady, if_pos hready, hcount, ih n]
        omega
    · have hcount : readies (f :: rest) = readies rest := by
        simp [readies, hready]
      cases n with
      | zero => simp [afterReady, hcount, eq_comm]
      | succ n => rw [afterReady, if_neg hready, hcount, ih (n + 1)]

/-- A backend message that both clients read: its length is under their limit. -/
def Sized (f : Frame) : Prop := f.body.length + 4 < maxFrontendMessage

variable {f : Frame}

theorem Sized.fits (h : Sized f) : f.Fits := by
  have hmax : maxFrontendMessage ≤ 2 ^ 32 := by decide
  rw [Frame.Fits]
  rw [Sized] at h
  omega

theorem take_header (f : Frame) (rest : List UInt8) :
    take 5 (f.encode ++ rest) =
      some (f.tag :: bigEndian 4 (f.body.length + 4), f.body ++ rest) := by
  rw [show f.encode ++ rest =
      (f.tag :: bigEndian 4 (f.body.length + 4)) ++ (f.body ++ rest) by simp [Frame.encode]]
  exact take_append _ (by simp)

theorem readBackend_encode (hsized : Sized f) (rest : List UInt8) :
    readBackend (f.encode ++ rest) = .ok (f.encode, rest) := by
  have hfield : ofBigEndian ((f.tag :: bigEndian 4 (f.body.length + 4)).drop 1) =
      f.body.length + 4 := ofBigEndian_bigEndian hsized.fits
  rw [readBackend, take_header]
  dsimp only
  rw [hfield, if_neg (not_not.mpr ⟨by omega, hsized⟩), Nat.add_sub_cancel, take_append rest rfl]
  simp [Frame.encode]

/-- The messages of a response as the readers want them. -/
def Readable (f : Frame) : Prop :=
  Sized f ∧ (f.tag = readyTag → ∃ status ∈ [0x49, 0x54, 0x45], f = readyFrame status)

theorem validReady_encode (hf : Readable f) (htag : f.tag = readyTag) :
    validReady f.encode = true := by
  obtain ⟨status, hstatus, rfl⟩ := hf.2 htag
  simp only [List.mem_cons, List.not_mem_nil, or_false] at hstatus
  rcases hstatus with rfl | rfl | rfl <;> rfl

/-- `receive` stops right behind the last ReadyForQuery it was told of. -/
theorem receive_encodeAll (callback : List UInt8 → Option ε) (n : Nat)
    (hframes : ∀ f ∈ frames, Readable f) (e : Option ε) :
    (receive callback n e (encodeAll frames)).toOption.map Prod.snd =
      (afterReady n frames).map encodeAll := by
  induction frames generalizing n e with
  | nil =>
    cases n with
    | zero => rw [receive, afterReady]; rfl
    | succ n =>
      have hend : readBackend (encodeAll []) = .error "failed to fill whole buffer" := rfl
      rw [receive, afterReady]
      split
      · rfl
      · next hread => cases hread
  | cons f rest ih =>
    have hf := hframes f (.head _)
    have ih := fun n e => ih n (fun g hg => hframes g (.tail f hg)) e
    cases n with
    | zero => rw [receive, afterReady]; rfl
    | succ n =>
      have hread := readBackend_encode hf.1 (encodeAll rest)
      rw [encodeAll_cons, receive, afterReady]
      split
      · next error herror => rw [hread] at herror; cases herror
      · next bytes left hok =>
        rw [hread] at hok
        obtain ⟨rfl, rfl⟩ := Prod.mk.inj (Except.ok.inj hok)
        have hhead : f.encode.head? = some f.tag := rfl
        simp only [hhead, Option.some.injEq]
        by_cases htag : f.tag = readyTag
        · rw [if_pos htag, if_pos htag, if_pos (validReady_encode hf htag)]
          exact ih n _
        · rw [if_neg htag, if_neg htag]
          exact ih (n + 1) _

end Oliphaunt.Pgwire
