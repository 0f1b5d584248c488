import Mathlib.Algebra.Group.Int.Defs
import Oliphaunt.Rust.Pgwire

/-!
# Ready boundaries of a TypeScript request

`pgwire.ts` makes the same count as the broker's `pgwire.rs` and reads the
response in `execProtocolStream`. `requestReadyBoundaries_toOption` says that the
two accept the same requests with the same count.

`ready_boundaries_match_iff` compares the count with what the server sends. The
count is made from the frames alone, so it is right exactly when the Query and
Sync frames the server leaves without an answer make up for the FunctionCalls it
answers.

* `ready_boundaries_miscounted` — requests whose boundaries are miscounted.
-/

namespace Oliphaunt.PgwireTs

open Bytes FrontendProtocol Oliphaunt.Pgwire

def maxFrameLen : Nat := 128 * 1024 * 1024

def requestReadyBoundaries (request : List UInt8) : Except String Nat :=
  if request.length = 0 ∨ maxFrameLen < request.length then
    .error "invalid PostgreSQL request length"
  else
    -- the length is read as a signed number here: a negative one is under four
    boundaryCount
      { truncated := "truncated PostgreSQL frontend header"
        short := "invalid PostgreSQL frontend frame length"
        overrun := "invalid PostgreSQL frontend frame length" }
      "PostgreSQL connection control is not a query request"
      "buffered PostgreSQL request must include Query or Sync and end at a query or COPY boundary"
      request

theorem boundaryCount_toOption (errors errors' : WalkErrors String)
    (control control' incomplete incomplete' : String) (request : List UInt8) :
    (boundaryCount errors control incomplete request).toOption =
      (boundaryCount errors' control' incomplete' request).toOption := by
  have hvisit : ∀ s tag, (countFrame control s tag).toOption =
      (countFrame control' s tag).toOption := by
    intro s tag
    rw [countFrame, countFrame]
    split_ifs <;> rfl
  have hwalk : (walk errors (countFrame control) (0, 0) request).toOption =
      (walk errors' (countFrame control') (0, 0) request).toOption :=
    walk_toOption hvisit (0, 0) request
  rw [boundaryCount, boundaryCount]
  cases hone : walk errors (countFrame control) (0, 0) request with
  | error error =>
    cases htwo : walk errors' (countFrame control') (0, 0) request with
    | error other => rfl
    | ok t => rw [hone, htwo] at hwalk; cases hwalk
  | ok s =>
    cases htwo : walk errors' (countFrame control') (0, 0) request with
    | error other => rw [hone, htwo] at hwalk; cases hwalk
    | ok t =>
      rw [hone, htwo] at hwalk
      cases hwalk
      dsimp only
      split_ifs <;> rfl

/-- The two clients accept the same requests with the same count. -/
theorem requestReadyBoundaries_toOption (request : List UInt8) :
    (requestReadyBoundaries request).toOption = (completionCount request).toOption := by
  rw [requestReadyBoundaries, completionCount]
  by_cases hempty : request = []
  · subst hempty
    decide +kernel
  · have hlength : request.length ≠ 0 := fun h => hempty (List.length_eq_zero_iff.mp h)
    have hmax : maxFrameLen = maxFrontendMessage := rfl
    by_cases hlong : maxFrontendMessage < request.length
    · rw [if_pos (.inr (hmax ▸ hlong)), if_pos hlong]
      rfl
    · rw [if_neg (by tauto), if_neg hlong]
      exact boundaryCount_toOption _ _ _ _ _ _ request

/-- A 32 bit number read as a signed one. -/
def readI32 (bytes : List UInt8) : Int :=
  let n := ofBigEndian bytes
  if n < 2 ^ 31 then n else n - 2 ^ 32

def readBackendFrame (input : List UInt8) : Except String (List UInt8 × List UInt8) :=
  match take 5 input with
  | none => .error "socket ended before 5 byte(s) were available"
  | some (header, rest) =>
    let length := readI32 (header.drop 1)
    if length < 4 ∨ (maxFrameLen : Int) < length then
      .error s!"invalid PostgreSQL message length {length}"
    else
      let size := length.toNat - 4
      match take size rest with
      | none => .error s!"socket ended before {size} byte(s) were available"
      | some (body, rest) =>
        let frame := header ++ body
        if frame.head? = some readyTag ∧ !validReady frame then
          .error "invalid PostgreSQL ReadyForQuery frame"
        else .ok (frame, rest)

theorem readBackendFrame_length (h : readBackendFrame input = .ok (frame, rest)) :
    rest.length < input.length := by
  rw [readBackendFrame] at h
  cases hheader : take 5 input with
  | none => rw [hheader] at h; cases h
  | some read =>
    obtain ⟨header, tail⟩ := read
    rw [hheader] at h
    dsimp only at h
    split_ifs at h
    cases hbody : take ((readI32 (header.drop 1)).toNat - 4) tail with
    | none => rw [hbody] at h; cases h
    | some read =>
      rw [hbody] at h
      dsimp only at h
      split_ifs at h
      obtain ⟨-, rfl⟩ := Prod.mk.inj (Except.ok.inj h)
      have h1 := take_eq_some hheader
      have h2 := take_eq_some hbody
      omega

/-- The reading half of `execProtocolStream`: what is left of `input` when the last
of the `remaining` boundaries has come. -/
def readUntilBoundaries (onChunk : List UInt8 → Except String Unit) (remaining : Nat)
    (input : List UInt8) : Except String (List UInt8) :=
  match remaining with
  | 0 => .ok input
  | left + 1 =>
    match h : readBackendFrame input with
    | .error error => .error error
    | .ok (frame, rest) =>
      have := readBackendFrame_length h
      match onChunk frame with
      | .error error => .error error
      | .ok () =>
        if frame.head? = some readyTag then readUntilBoundaries onChunk left rest
        else readUntilBoundaries onChunk (left + 1) rest
termination_by input.length

/-- The whole call, when the request itself is written without an error. -/
def execProtocolStream (onChunk : List UInt8 → Except String Unit) (request input : List UInt8) :
    Except String (List UInt8) :=
  match requestReadyBoundaries request with
  | .error error => .error error
  | .ok remaining => readUntilBoundaries onChunk remaining input

theorem readBackendFrame_encode (hf : Readable f) (rest : List UInt8) :
    readBackendFrame (f.encode ++ rest) = .ok (f.encode, rest) := by
  have hfield : readI32 ((f.tag :: bigEndian 4 (f.body.length + 4)).drop 1) =
      ((f.body.length + 4 : Nat) : Int) := by
    have hmax : maxFrontendMessage ≤ 2 ^ 31 := by decide
    have hsized : f.body.length + 4 < maxFrontendMessage := hf.1
    rw [List.drop_succ_cons, List.drop_zero, readI32, ofBigEndian_bigEndian hf.1.fits,
      if_pos (by omega)]
  have hframe : f.tag :: bigEndian 4 (f.body.length + 4) ++ f.body = f.encode := by
    simp [Frame.encode]
  have hlimit : ¬ (((f.body.length + 4 : Nat) : Int) < 4 ∨
      (maxFrameLen : Int) < ((f.body.length + 4 : Nat) : Int)) := by
    have hsized : f.body.length + 4 < maxFrontendMessage := hf.1
    have hmax : maxFrameLen = maxFrontendMessage := rfl
    omega
  have hready : ¬ (f.encode.head? = some readyTag ∧ (!validReady f.encode) = true) := by
    rintro ⟨htag, hinvalid⟩
    rw [validReady_encode hf (Option.some.inj htag)] at hinvalid
    cases hinvalid
  rw [readBackendFrame, take_header]
  dsimp only
  rw [hfield, if_neg hlimit, Int.toNat_natCast, Nat.add_sub_cancel, take_append rest rfl]
  dsimp only
  rw [hframe, if_neg hready]

theorem readUntilBoundaries_encodeAll (hchunk : ∀ chunk, onChunk chunk = .ok ()) (n : Nat)
    (hframes : ∀ f ∈ frames, Readable f) :
    (readUntilBoundaries onChunk n (encodeAll frames)).toOption =
      (afterReady n frames).map encodeAll := by
  induction frames generalizing n with
  | nil =>
    cases n with
    | zero => rw [readUntilBoundaries, afterReady]; rfl
    | succ n =>
      have hend : readBackendFrame (encodeAll []) =
          .error "socket ended before 5 byte(s) were available" := rfl
      rw [readUntilBoundaries, afterReady]
      split
      · rfl
      · next hread => cases hread
  | cons f rest ih =>
    have hf := hframes f (.head _)
    have ih := fun n => ih n (fun g hg => hframes g (.tail f hg))
    cases n with
    | zero => rw [readUntilBoundaries, afterReady]; rfl
    | succ n =>
      have hread := readBackendFrame_encode hf (encodeAll rest)
      rw [encodeAll_cons, readUntilBoundaries, afterReady]
      split
      · next error herror => rw [hread] at herror; cases herror
      · next bytes left hok =>
        rw [hread] at hok
        obtain ⟨rfl, rfl⟩ := Prod.mk.inj (Except.ok.inj hok)
        have hhead : f.encode.head? = some f.tag := rfl
        simp only [hchunk, hhead, Option.some.injEq]
        by_cases htag : f.tag = readyTag
        · rw [if_pos htag, if_pos htag]
          exact ih n
        · rw [if_neg htag, if_neg htag]
          exact ih (n + 1)

/-! ## The count against the server -/

/-- The readers of both clients, told of `n` boundaries, come to the end of the
response: they stop, and no ReadyForQuery is left behind. -/
def ReadToTheEnd (n : Nat) (response : List Frame) : Prop :=
  (∀ (ε : Type) (callback : List UInt8 → Option ε), ∃ e left,
      receive callback n none (encodeAll response) = .ok (e, encodeAll left) ∧
        readies left = 0) ∧
    ∀ onChunk : List UInt8 → Except String Unit, (∀ chunk, onChunk chunk = .ok ()) →
      ∃ left, readUntilBoundaries onChunk n (encodeAll response) = .ok (encodeAll left) ∧
        readies left = 0

theorem readToTheEnd_of_count (hresponse : ∀ f ∈ response, Readable f) :
    ReadToTheEnd (readies response) response := by
  obtain ⟨left, hleft, hnone⟩ := (afterReady_last_iff _ response).mpr rfl
  refine ⟨fun ε callback => ?_, fun onChunk hchunk => ?_⟩
  · have hreceive := receive_encodeAll callback (readies response) hresponse none
    rw [hleft, Option.map_some, Option.map_eq_some_iff] at hreceive
    obtain ⟨⟨e, bytes⟩, hok, hbytes⟩ := hreceive
    refine ⟨e, left, ?_, hnone⟩
    cases hread : receive callback (readies response) none (encodeAll response) with
    | error error => rw [hread] at hok; cases hok
    | ok read =>
      rw [hread] at hok
      cases hok
      rw [← hbytes]
  · have hread := readUntilBoundaries_encodeAll hchunk (readies response) hresponse
    rw [hleft, Option.map_some] at hread
    refine ⟨left, ?_, hnone⟩
    cases hend : readUntilBoundaries onChunk (readies response) (encodeAll response) with
    | error error => rw [hend] at hread; cases hread
    | ok bytes =>
      rw [hend] at hread
      exact congrArg Except.ok (Option.some.inj hread)

/-- The two clients accept the same requests with the same count. A request that is
accepted is a sequence of frames, and whatever its statements do, the count is
the number of ReadyForQuery messages of the response exactly when the Query and
Sync frames the server drops or abandons are as many as the FunctionCalls it
takes up; both readers then come to the end of the response. -/
theorem ready_boundaries_match_iff (request : List UInt8) :
    (requestReadyBoundaries request).toOption = (completionCount request).toOption ∧
      ∀ n, completionCount request = .ok n →
        (∃ frames, encodeAll frames = request) ∧
        ∀ steps : List (Frame × Reply), encodeAll (steps.map Prod.fst) = request →
          (∀ step ∈ steps, step.2.WellFormed) →
            (n = readies (respond .normal steps) ↔
              dropped .normal steps + abandoned .normal steps = calls .normal steps) ∧
            ((∀ f ∈ respond .normal steps, Readable f) →
              n = readies (respond .normal steps) → ReadToTheEnd n (respond .normal steps)) := by
  refine ⟨requestReadyBoundaries_toOption request, fun n hn =>
    ⟨exists_frames_of_completionCount hn, fun steps hsteps hreplies => ⟨?_, ?_⟩⟩⟩
  · rw [← hsteps] at hn
    have hcount := completionCount_encodeAll hn
    have hserver := readies_respond hreplies .normal
    rw [← hcount, show owed .normal = 0 from rfl] at hserver
    omega
  · rintro hreadable rfl
    exact readToTheEnd_of_count hreadable

/-- An extended series whose Parse fails, so that its Bind and Execute are discarded, and a
Query behind its Sync: two boundaries are counted, two ReadyForQuery messages are sent, and
both readers come to the end. -/
theorem ready_boundaries_match_failed_series :
    let series : List (Frame × Reply) :=
      [(⟨0x50, [0, 0, 0, 0]⟩, ⟨.fail, [⟨0x45, [0]⟩], 0x49⟩),
        (⟨0x42, [0, 0, 0, 0, 0, 0, 0, 0]⟩, ⟨.ok, [], 0x49⟩),
        (⟨0x45, [0, 0, 0, 0, 0]⟩, ⟨.ok, [], 0x49⟩),
        (⟨0x53, []⟩, ⟨.ok, [], 0x49⟩), (⟨0x51, [0]⟩, ⟨.ok, [⟨0x43, [0]⟩], 0x49⟩)]
    completionCount (encodeAll (series.map Prod.fst)) = .ok 2 ∧
      2 = readies (respond .normal series) ∧ ReadToTheEnd 2 (respond .normal series) := by
  intro series
  have hcount : completionCount (encodeAll (series.map Prod.fst)) = .ok 2 := by decide +kernel
  obtain ⟨hmatch, hread⟩ :=
    ((ready_boundaries_match_iff _).2 2 hcount).2 series rfl (by decide +kernel)
  have hcounted := hmatch.mpr (by decide +kernel)
  have hresponse : respond .normal series =
      [⟨0x45, [0]⟩, readyFrame 0x49, ⟨0x43, [0]⟩, readyFrame 0x49] := by decide +kernel
  refine ⟨hcount, hcounted, hread (fun f hf => ?_) hcounted⟩
  have hready : Readable (readyFrame 0x49) :=
    ⟨by rw [Sized]; decide, fun _ => ⟨0x49, .head _, rfl⟩⟩
  rw [hresponse] at hf
  simp only [List.mem_cons, List.not_mem_nil, or_false] at hf
  rcases hf with rfl | rfl | rfl | rfl
  · exact ⟨by rw [Sized]; decide, fun htag => absurd htag (by decide)⟩
  · exact hready
  · exact ⟨by rw [Sized]; decide, fun htag => absurd htag (by decide)⟩
  · exact hready

/-- Parse, Query, Sync with a Parse that fails: both clients count two boundaries,
the server discards the Query and sends one ReadyForQuery, and the reader waits
for a second one. A FunctionCall before a Sync is not counted: the reader
stops after the first of two ReadyForQuery messages. -/
theorem ready_boundaries_miscounted :
    let parse : Frame := ⟨0x50, [0, 0, 0, 0]⟩
    let query : Frame := ⟨0x51, [0]⟩
    let sync : Frame := ⟨0x53, []⟩
    let call : Frame := ⟨0x46, [0, 0, 0, 0, 0, 0, 0, 0, 0, 0]⟩
    let done : Reply := ⟨.ok, [], 0x49⟩
    let failed : Reply := ⟨.fail, [⟨0x45, [0]⟩], 0x49⟩
    (completionCount (encodeAll [parse, query, sync]) = .ok 2 ∧
      requestReadyBoundaries (encodeAll [parse, query, sync]) = .ok 2 ∧
      readies (respond .normal [(parse, failed), (query, done), (sync, done)]) = 1) ∧
    completionCount (encodeAll [call, sync]) = .ok 1 ∧
      requestReadyBoundaries (encodeAll [call, sync]) = .ok 1 ∧
      readies (respond .normal [(call, done), (sync, done)]) = 2 := by
  decide +kernel

end Oliphaunt.PgwireTs
