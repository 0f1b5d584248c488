import Oliphaunt.Model.Frontend
import Oliphaunt.Model.Transition

/-!
# Direct execution of raw requests

`oliphaunt_exec_protocol` gives a request to the embedded backend through a shared
input buffer and waits on a shared output buffer. The backend runs on a thread of
its own: it reads some bytes, processes a frame once it is complete, and writes
its answer in pieces. Every piece is scanned for a ReadyForQuery, and the first one
ends the wait.

The steps are the critical sections of the handle's mutex. The state also keeps,
for each request, everything the backend has answered to it so far (`responses`):
a frame belongs to the request its bytes came with, however late it is processed.
-/

namespace Oliphaunt.Native

open Bytes FrontendProtocol

/-! ## Requests and the output buffer -/

def validateFrontendProtocolFrames (request : List UInt8) : Except String Unit :=
  if request.length = 0 then .error "malformed frontend protocol request: empty request"
  else
    walk
      { truncated := "malformed frontend protocol request: truncated message header"
        short := "malformed frontend protocol request: " ++
          "message length is smaller than protocol header"
        overrun := "malformed frontend protocol request: truncated message body" }
      (fun _ _ => .ok ()) () request

/-- The output buffer with its scan offset and `output_ready`. -/
structure Output where
  bytes : List UInt8
  scanOff : Nat
  ready : Bool
deriving DecidableEq, Repr

/-- The loop of `scan_ready_for_query_locked` at offset `off`. A frame that is not
complete ends it without storing the offset. -/
def scanFrom (out : Output) (off : Nat) : Output × Bool :=
  if off + 5 ≤ out.bytes.length then
    let msgLen := lengthField (out.bytes.drop off)
    if msgLen < 4 then (out, false)
    else if out.bytes.length - off < 1 + msgLen then (out, false)
    else if (out.bytes.drop off).head? = some readyTag then
      ({ out with ready := true, scanOff := off + (1 + msgLen) }, true)
    else scanFrom out (off + (1 + msgLen))
  else ({ out with scanOff := off }, out.ready)
termination_by out.bytes.length - off

def scanReadyForQuery (out : Output) : Output × Bool := scanFrom out out.scanOff

def Output.empty : Output := { bytes := [], scanOff := 0, ready := false }

structure State where
  /-- the part of the input buffer that has not been read -/
  input : List UInt8
  output : Output
  /-- a call waits for its response -/
  waiting : Bool
  /-- the requests that were given to the backend, oldest first -/
  requests : List (List UInt8)
  /-- what the calls of these requests returned -/
  returned : List (Except String (List UInt8))
  /-- read by the backend and not yet processed -/
  received : List UInt8
  mode : Mode
  /-- answered by the backend and not yet written -/
  unwritten : List UInt8
  /-- how many bytes of the requests have been processed -/
  processed : Nat
  /-- what the backend has answered to each request -/
  responses : List (List UInt8)
  exited : Bool
deriving DecidableEq

def State.init : State where
  input := []
  output := .empty
  waiting := false
  requests := []
  returned := []
  received := []
  mode := .normal
  unwritten := []
  processed := 0
  responses := []
  exited := false

inductive Action where
  | call (request : List UInt8)
  /-- `oliphaunt_embedded_read` takes so many bytes -/
  | read (count : Nat)
  /-- the backend processes the next complete frame -/
  | process (reply : Reply)
  /-- `oliphaunt_embedded_write` of so many bytes -/
  | write (count : Nat)
  /-- the backend thread ends -/
  | exit
  /-- the waiting call looks at the output buffer -/
  | wake
deriving DecidableEq, Repr

/-- Which request the byte at `offset` of all requests together belongs to. -/
def owner : List (List UInt8) → Nat → Nat
  | [], _ => 0
  | request :: rest, offset =>
    if offset < request.length then 0 else owner rest (offset - request.length) + 1

/-- `oliphaunt_exec_protocol` up to its wait. A request that is malformed, and any
request once the backend is gone, fails without a trace; a request that finds
the input buffer in use fails after it has reset the output buffer. -/
def State.call (s : State) (request : List UInt8) : State :=
  match validateFrontendProtocolFrames request with
  | .error _ => s
  | .ok () =>
    if s.exited then s
    else if s.input ≠ [] then { s with output := .empty }
    else
      { s with
        output := .empty
        input := request
        waiting := true
        requests := s.requests ++ [request]
        responses := s.responses ++ [[]] }

/-- The backend takes the frame `f` off its received bytes. -/
def State.process (s : State) (f : Frame) (rest : List UInt8) (reply : Reply) : State :=
  let bytes := encodeAll (answer s.mode f reply)
  { s with
    received := rest
    mode := (react s.mode (.ofTag f.tag) reply.outcome).1
    unwritten := s.unwritten ++ bytes
    processed := s.processed + f.encode.length
    responses := s.responses.modify (owner s.requests s.processed) (· ++ bytes) }

/-- The wait ends with the bytes of the output buffer, or with an error when the
backend is gone; otherwise it goes on. -/
def State.wake (s : State) : State :=
  let (out, ready) := scanReadyForQuery s.output
  if ready then
    { s with
      output := { out with bytes := [] }
      waiting := false
      returned := s.returned ++ [.ok out.bytes] }
  else if s.exited then
    { s with
      output := out
      waiting := false
      returned := s.returned ++ [.error "embedded backend exited before ReadyForQuery"] }
  else { s with output := out }

def step (s : State) : Action → Option State
  | .call request => if s.waiting then none else some (s.call request)
  | .read count =>
    if 0 < count ∧ count ≤ s.input.length ∧ !s.exited then
      some { s with
        input := s.input.drop count
        received := s.received ++ s.input.take count }
    else none
  | .process reply =>
    if s.exited ∨ s.mode = .closed ∨ ¬ reply.Sendable then none
    else
      match splitFrame s.received with
      | none => none
      | some (f, rest) => some (s.process f rest reply)
  | .write count =>
    if 0 < count ∧ count ≤ s.unwritten.length ∧ !s.exited then
      let out := { s.output with bytes := s.output.bytes ++ s.unwritten.take count }
      some { s with
        unwritten := s.unwritten.drop count
        output := (scanReadyForQuery out).1 }
    else none
  | .exit =>
    if s.mode = .closed ∧ s.unwritten = [] then some { s with exited := true } else none
  | .wake => if s.waiting then some s.wake else none

/-- A frame that is answered with a ReadyForQuery of its own. -/
def closesRequest : Kind → Bool
  | .query | .sync | .functionCall => true
  | _ => false

/-- A frame after whose failure the backend skips to the next Sync. -/
def startsSeries : Kind → Bool
  | .extended | .execute => true
  | _ => false

/-- A frame that a COPY does not pass over. -/
def endsCopy : Kind → Bool
  | .copyData | .flush | .sync => false
  | _ => true

/-- How far the check of a request has come: before and in a series of extended query
messages, and behind the frame that closes the request. -/
inductive Place where
  | plain
  | series
  | closed

def Place.visit (place : Place) (tag : UInt8) : Except Unit Place :=
  match place, Kind.ofTag tag with
  | .closed, _ => .error ()
  | _, .sync => .ok .closed
  | .plain, .query | .plain, .functionCall => .ok .closed
  | .series, .query | .series, .functionCall => .error ()
  | _, .extended | _, .execute => .ok .series
  | place, _ => .ok place

/-- The request has one Query, Sync or FunctionCall frame, and it is the last; behind an
extended query message it is a Sync, the only frame that is not skipped after an error. -/
def oneBoundary (request : List UInt8) : Bool :=
  match walk (ε := Unit) ⟨(), (), ()⟩ Place.visit .plain request with
  | .ok .closed => true
  | _ => false

def seesEnd (seen : Bool) (tag : UInt8) : Except Unit Bool := .ok (seen || endsCopy (.ofTag tag))

/-- The bytes begin with an Execute, and the frames behind it end the data of its COPY. -/
def copyEnds (bytes : List UInt8) : Bool :=
  match splitFrame bytes with
  | none => false
  | some (f, rest) =>
    f.kind = .execute &&
      match walk (ε := Unit) ⟨(), (), ()⟩ seesEnd false rest with
      | .ok seen => seen
      | .error _ => false

/-- Every request that a step sends has one boundary, and a COPY that asks for data finds
them in its own request. -/
def OneBoundary (s : State) : Action → Prop
  | .call request => oneBoundary request = true
  | .process reply => reply.outcome = .copyIn → copyEnds (s.received ++ s.input) = true
  | _ => True

instance : ∀ (s : State) (a : Action), Decidable (OneBoundary s a)
  | _, .call request => inferInstanceAs (Decidable (oneBoundary request = true))
  | _, .process _ => inferInstanceAs (Decidable (_ → _))
  | _, .read _ | _, .write _ | _, .exit | _, .wake => instDecidableTrue

/-- What the backend may still have to process of such a request: frames that close
nothing, and the one that does. -/
def Remaining (frames : List Frame) : Prop :=
  ∃ body last, frames = body ++ [last] ∧ closesRequest last.kind = true ∧
    ∀ f ∈ body, closesRequest f.kind = false

/-- No frame but a Sync closes the request. -/
def SyncOnly (frames : List Frame) : Prop :=
  ∀ f ∈ frames, f.kind ≠ .query ∧ f.kind ≠ .functionCall

theorem SyncOnly.tail {f : Frame} {rest : List Frame} (h : SyncOnly (f :: rest)) :
    SyncOnly rest := (List.forall_mem_cons.mp h).2

/-- From this mode the frames lead to a ReadyForQuery, whatever fails on the way. -/
def Answerable : Mode → List Frame → Prop
  | .normal, frames => (∃ f ∈ frames, startsSeries f.kind = true) → SyncOnly frames
  | .skipping, frames => SyncOnly frames
  | .copyIn true, frames => SyncOnly frames ∧ ∃ f ∈ frames, endsCopy f.kind = true
  | .copyIn false, _ => False
  | .closed, _ => True

theorem Remaining.ne_nil (h : Remaining frames) : frames ≠ [] := by
  obtain ⟨body, last, rfl, -⟩ := h
  simp

theorem Remaining.cons_of_not_closes (hf : closesRequest f.kind = false) (h : Remaining rest) :
    Remaining (f :: rest) := by
  obtain ⟨body, last, rfl, hlast, hbody⟩ := h
  refine ⟨f :: body, last, rfl, hlast, fun g hg => ?_⟩
  rcases List.mem_cons.mp hg with rfl | hg
  · exact hf
  · exact hbody g hg

theorem Remaining.cons {f : Frame} {rest : List Frame} (h : Remaining (f :: rest)) :
    (rest = [] ∧ closesRequest f.kind = true) ∨
      (Remaining rest ∧ closesRequest f.kind = false) := by
  obtain ⟨body, last, heq, hlast, hbody⟩ := h
  cases body with
  | nil =>
    obtain ⟨rfl, rfl⟩ := List.cons.inj heq
    exact .inl ⟨rfl, hlast⟩
  | cons g body =>
    obtain ⟨rfl, rfl⟩ := List.cons.inj heq
    exact .inr ⟨⟨body, last, rfl, hlast, fun m hm => hbody m (.tail f hm)⟩, hbody f (.head _)⟩

/-- Frames that pass the check, from any place of it. -/
theorem visitAll_visit (h : visitAll Place.visit place frames = .ok .closed) :
    place = .closed ∧ frames = [] ∨ place ≠ .closed ∧ Remaining frames ∧
      (place = .series ∨ (∃ f ∈ frames, startsSeries f.kind = true) → SyncOnly frames) := by
  induction frames generalizing place with
  | nil =>
    cases h
    exact .inl ⟨rfl, rfl⟩
  | cons f rest ih =>
    simp only [visitAll, Place.visit] at h
    have hclosed : visitAll Place.visit .closed rest = .ok .closed → rest = [] := fun h =>
      (ih h).elim And.right fun h => absurd rfl h.1
    have hlast : rest = [] → closesRequest f.kind = true → Remaining (f :: rest) := by
      rintro rfl hcloses
      exact ⟨[], f, rfl, hcloses, by simp⟩
    cases place with
    | closed => cases h
    | plain | series =>
      refine .inr ⟨by simp, ?_⟩
      cases hkind : f.kind with
      | sync =>
        obtain rfl := hclosed (by simpa [hkind] using h)
        exact ⟨hlast rfl (by rw [hkind]; rfl), by simp [SyncOnly, hkind]⟩
      | query | functionCall =>
        first
        | -- behind an extended query message it does not pass
          simp [hkind] at h; done
        | obtain rfl := hclosed (by simpa [hkind] using h)
          exact ⟨hlast rfl (by rw [hkind]; rfl), by simp [hkind, startsSeries]⟩
      | extended | execute =>
        simp only [hkind] at h
        obtain ⟨-, hrest, hsync⟩ := (ih h).resolve_left (by simp)
        refine ⟨hrest.cons_of_not_closes (by rw [hkind]; rfl), fun _ => ?_⟩
        exact List.forall_mem_cons.mpr ⟨by simp [hkind], hsync (.inl rfl)⟩
      | flush | copyData | copyDone | copyFail | terminate | unknown =>
        simp only [hkind] at h
        obtain ⟨-, hrest, hsync⟩ := (ih h).resolve_left (by simp)
        refine ⟨hrest.cons_of_not_closes (by rw [hkind]; rfl), fun hseries => ?_⟩
        refine List.forall_mem_cons.mpr ⟨by simp [hkind], hsync (hseries.imp_right ?_)⟩
        simp [hkind, startsSeries]

theorem oneBoundary_frames (h : oneBoundary request = true) :
    ∃ frames, encodeAll frames = request ∧ (∀ f ∈ frames, f.Fits) ∧ Remaining frames ∧
      Answerable .normal frames := by
  rw [oneBoundary] at h
  split at h
  · next hwalk =>
    obtain ⟨frames, hfits, hbytes, hall⟩ := walk_eq_ok hwalk
    obtain ⟨-, hremaining, hsync⟩ := (visitAll_visit hall).resolve_left (by simp)
    exact ⟨frames, hbytes, hfits, hremaining, fun hseries => hsync (.inr hseries)⟩
  · cases h

theorem visitAll_seesEnd (h : visitAll seesEnd seen frames = .ok true) :
    seen = true ∨ ∃ f ∈ frames, endsCopy f.kind = true := by
  induction frames generalizing seen with
  | nil =>
    cases h
    exact .inl rfl
  | cons f rest ih =>
    rcases ih h with hseen | ⟨g, hg, hends⟩
    · rcases Bool.or_eq_true_iff.mp hseen with hseen | hends
      · exact .inl hseen
      · exact .inr ⟨f, .head _, hends⟩
    · exact .inr ⟨g, .tail f hg, hends⟩

variable {f : Frame} {left : List Frame}

theorem copyEnds_encodeAll (hfits : ∀ g ∈ f :: left, g.Fits)
    (h : copyEnds (encodeAll (f :: left)) = true) :
    f.kind = .execute ∧ ∃ g ∈ left, endsCopy g.kind = true := by
  rw [copyEnds, encodeAll_cons, splitFrame_encode (hfits f (.head _))] at h
  simp only [walk_encodeAll fun g hg => hfits g (.tail f hg), Bool.and_eq_true,
    decide_eq_true_eq] at h
  obtain ⟨hkind, hends⟩ := h
  split at hends
  · next seen hall =>
    subst hends
    exact ⟨hkind, (visitAll_seesEnd hall).resolve_left (by simp)⟩
  · cases hends

variable {mode : Mode} {outcome : Verdict}

/-- The last frame of a request is answered, or the connection is lost. -/
theorem react_closing (hcloses : closesRequest f.kind = true) (h : Answerable mode [f])
    (hcopy : outcome ≠ .copyIn) :
    (react mode f.kind outcome).2 = true ∨
      (react mode f.kind outcome).2 = false ∧ (react mode f.kind outcome).1 = .closed := by
  have hsync : SyncOnly [f] → f.kind = .sync := fun h => by
    have hf := h f (.head _)
    cases hkind : f.kind <;> simp_all [closesRequest]
  cases mode with
  | normal => cases hkind : f.kind <;> cases outcome <;> simp_all [react, closesRequest]
  | skipping =>
    rw [hsync h]
    cases outcome <;> simp [react]
  | closed => exact .inr ⟨rfl, rfl⟩
  | copyIn extended =>
    cases extended with
    | false => exact h.elim
    | true =>
      obtain ⟨hs, g, hg, hends⟩ := h
      rw [List.mem_singleton.mp hg, hsync hs] at hends
      cases hends

/-- A frame in normal mode that does not close its request. -/
theorem react_normal (hcloses : closesRequest f.kind = false) (h : Answerable .normal (f :: left))
    (hcopy : outcome = .copyIn → ∃ g ∈ left, endsCopy g.kind = true) :
    (react .normal f.kind outcome).2 = false ∧
      Answerable (react .normal f.kind outcome).1 left := by
  have hplain : Answerable .normal left := fun ⟨g, hg, hs⟩ => (h ⟨g, .tail f hg, hs⟩).tail
  cases hkind : f.kind with
  | query | sync | functionCall => simp [hkind, closesRequest] at hcloses
  | extended | execute =>
    have hs : SyncOnly left := (h ⟨f, .head _, by rw [hkind]; rfl⟩).tail
    cases outcome with
    | ok => exact ⟨rfl, hplain⟩
    | fail => exact ⟨rfl, hs⟩
    | lost => exact ⟨rfl, trivial⟩
    | copyIn => first | exact ⟨rfl, hs, hcopy rfl⟩ | exact ⟨rfl, hplain⟩
  | flush | copyData | copyDone | copyFail =>
    cases outcome <;> first | exact ⟨rfl, hplain⟩ | exact ⟨rfl, trivial⟩
  | terminate | unknown => exact ⟨rfl, trivial⟩

/-- A frame that the backend meets while it reads COPY data. -/
theorem react_copying (hcloses : closesRequest f.kind = false)
    (h : Answerable (.copyIn true) (f :: left)) :
    (react (.copyIn true) f.kind outcome).2 = false ∧
      Answerable (react (.copyIn true) f.kind outcome).1 left := by
  obtain ⟨hs, hends⟩ := h
  have hleft := hs.tail
  have hplain : Answerable .normal left := fun _ => hleft
  -- a frame that the COPY passes over leaves its end behind it
  have hpasses : endsCopy f.kind = false → Answerable (.copyIn true) left := fun hf => by
    obtain ⟨g, hg, hg'⟩ := hends
    rcases List.mem_cons.mp hg with rfl | hg
    · rw [hf] at hg'
      cases hg'
    · exact ⟨hleft, g, hg, hg'⟩
  cases hkind : f.kind with
  | query | sync | functionCall => simp [hkind, closesRequest] at hcloses
  | flush | copyData =>
    have hcopying := hpasses (by rw [hkind]; rfl)
    cases outcome <;> first | exact ⟨rfl, hcopying⟩ | exact ⟨rfl, hleft⟩ | exact ⟨rfl, trivial⟩
  | _ =>
    cases outcome <;> first | exact ⟨rfl, hleft⟩ | exact ⟨rfl, hplain⟩ | exact ⟨rfl, trivial⟩

/-- One frame of a request: the last one is answered, or the connection is lost, and every
other one leaves frames that lead to an answer. -/
theorem react_answerable (hremaining : Remaining (f :: left)) (h : Answerable mode (f :: left))
    (hcopy : outcome = .copyIn → f.kind = .execute ∧ ∃ g ∈ left, endsCopy g.kind = true) :
    (react mode f.kind outcome).2 = true ∧ left = [] ∨
      (react mode f.kind outcome).2 = false ∧
        (left = [] → (react mode f.kind outcome).1 = .closed) ∧
        (left ≠ [] → Answerable (react mode f.kind outcome).1 left) := by
  rcases hremaining.cons with ⟨rfl, hcloses⟩ | ⟨hrest, hcloses⟩
  · have hasked : outcome ≠ .copyIn := by
      rintro rfl
      rw [(hcopy rfl).1] at hcloses
      cases hcloses
    rcases react_closing hcloses h hasked with hready | ⟨hready, hclosed⟩
    · exact .inl ⟨hready, rfl⟩
    · exact .inr ⟨hready, fun _ => hclosed, fun hne => absurd rfl hne⟩
  · suffices hnext : (react mode f.kind outcome).2 = false ∧
        Answerable (react mode f.kind outcome).1 left from
      .inr ⟨hnext.1, fun hnil => absurd hnil hrest.ne_nil, fun _ => hnext.2⟩
    cases mode with
    | normal => exact react_normal hcloses h fun hasked => (hcopy hasked).2
    | skipping =>
      cases hkind : f.kind with
      | query | sync | functionCall => simp [hkind, closesRequest] at hcloses
      | _ => cases outcome <;> first | exact ⟨rfl, SyncOnly.tail h⟩ | exact ⟨rfl, trivial⟩
    | closed => exact ⟨rfl, trivial⟩
    | copyIn extended =>
      cases extended with
      | false => exact h.elim
      | true => exact react_copying hcloses h

end Oliphaunt.Native
