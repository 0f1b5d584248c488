import Oliphaunt.Model.Bytes

/-!
# PostgreSQL frontend and backend messages

A message on the wire is a tag byte, a four byte length that counts itself, and a
body. `walk` is the loop every reader of a whole request is an instance of: it
checks the length of each frame and visits its tag. `walk_eq_ok` says what a
request that passes is (the encoding of frames that were all visited).

The second half is what the server does with the frames (`react`): a Query, a
FunctionCall and a Sync end with one ReadyForQuery; after an error in the extended
query protocol everything up to the next Sync is discarded; Sync and Flush are
ignored while the server reads COPY data, and COPY data outside of a COPY is
ignored too. What a statement does is an `Verdict`, chosen from outside.
-/

namespace FrontendProtocol

open Bytes List

structure Frame where
  tag : UInt8
  body : List UInt8
deriving DecidableEq, Repr

def Frame.encode (f : Frame) : List UInt8 :=
  f.tag :: (bigEndian 4 (f.body.length + 4) ++ f.body)

/-- The length of the frame fits its length field. -/
def Frame.Fits (f : Frame) : Prop := f.body.length + 4 < 2 ^ 32

instance (f : Frame) : Decidable f.Fits := inferInstanceAs (Decidable (_ < _))

def encodeAll (frames : List Frame) : List UInt8 := frames.flatMap Frame.encode

@[simp] theorem encodeAll_nil : encodeAll [] = [] := rfl

@[simp] theorem encodeAll_cons (f : Frame) (rest : List Frame) :
    encodeAll (f :: rest) = f.encode ++ encodeAll rest := rfl

theorem encodeAll_append (fs gs : List Frame) :
    encodeAll (fs ++ gs) = encodeAll fs ++ encodeAll gs := flatMap_append

/-- The length field of the frame that begins `bytes`. -/
def lengthField (bytes : List UInt8) : Nat := ofBigEndian ((bytes.drop 1).take 4)

theorem Frame.length_encode (f : Frame) : f.encode.length = f.body.length + 5 := by
  simp [Frame.encode]
  omega

variable {f : Frame}

theorem lengthField_encode (hfits : f.Fits) (rest : List UInt8) :
    lengthField (f.encode ++ rest) = f.body.length + 4 := by
  have hfield : ((f.encode ++ rest).drop 1).take 4 = bigEndian 4 (f.body.length + 4) := by
    exact take_left' (length_bigEndian _ _)
  rw [lengthField, hfield]
  exact ofBigEndian_bigEndian hfits

theorem drop_encode (f : Frame) (rest : List UInt8) :
    (f.encode ++ rest).drop (f.body.length + 5) = rest :=
  drop_left' f.length_encode

theorem length_le_encodeAll (hf : f ∈ frames) : f.body.length + 5 ≤ (encodeAll frames).length := by
  induction frames with
  | nil => cases hf
  | cons g rest ih =>
    rw [encodeAll_cons, length_append, Frame.length_encode]
    rcases mem_cons.mp hf with rfl | hf
    · omega
    · have hrest := ih hf
      omega

/-- The frame that begins `bytes` and the rest, `none` while it is not complete. -/
def splitFrame : List UInt8 → Option (Frame × List UInt8)
  | [] => none
  | tag :: rest =>
    let len := lengthField (tag :: rest)
    if (tag :: rest).length < 5 ∨ len < 4 ∨ (tag :: rest).length < len + 1 then none
    else some (⟨tag, (rest.drop 4).take (len - 4)⟩, (tag :: rest).drop (len + 1))

theorem splitFrame_encode (hfits : f.Fits) (rest : List UInt8) :
    splitFrame (f.encode ++ rest) = some (f, rest) := by
  have hfield := lengthField_encode hfits rest
  have hdrop := drop_encode f rest
  have hlength : (f.encode ++ rest).length = f.body.length + 5 + rest.length := by
    rw [length_append, Frame.length_encode]
  have hbody : ((bigEndian 4 (f.body.length + 4) ++ f.body ++ rest).drop 4).take f.body.length =
      f.body := by
    rw [append_assoc, drop_left' (length_bigEndian _ _), take_left' rfl]
  have hcons : f.encode ++ rest =
      f.tag :: (bigEndian 4 (f.body.length + 4) ++ f.body ++ rest) := rfl
  rw [hcons] at hfield hdrop hlength ⊢
  simp only [splitFrame, hfield, hlength, Nat.add_sub_cancel, hbody, hdrop]
  rw [if_neg (by omega)]

variable {bytes rest : List UInt8}

section

variable (h : splitFrame bytes = some (f, rest))

include h

/-- Bytes that begin with a complete frame are the encoding of that frame and a
rest. -/
theorem splitFrame_eq_some : f.Fits ∧ bytes = f.encode ++ rest := by
  cases bytes with
  | nil => cases h
  | cons tag tail =>
    rw [splitFrame] at h
    split_ifs at h with hshort
    obtain ⟨rfl, rfl⟩ := Prod.mk.inj (Option.some.inj h)
    have hlong : 4 ≤ tail.length := by
      rw [length_cons] at hshort
      omega
    have hheader : (tail.take 4).length = 4 := by
      rw [length_take]
      omega
    have hvalue : lengthField (tag :: tail) = ofBigEndian (tail.take 4) := rfl
    have hlt := ofBigEndian_lt (tail.take 4)
    rw [hheader, ← hvalue] at hlt
    set len := lengthField (tag :: tail)
    rw [length_cons] at hshort
    have hlength : ((tail.drop 4).take (len - 4)).length + 4 = len := by
      rw [length_take, length_drop]
      omega
    refine ⟨?_, ?_⟩
    · rw [Frame.Fits, hlength]
      exact hlt
    · have hbytes := bigEndian_ofBigEndian (tail.take 4)
      rw [hheader, ← hvalue] at hbytes
      have hdrop : tail.drop len = (tail.drop 4).drop (len - 4) := by
        rw [drop_drop]
        congr 1
        omega
      rw [Frame.encode, hlength, hbytes, drop_succ_cons, cons_append,
        append_assoc, hdrop, take_append_drop, take_append_drop]

theorem splitFrame_append (more : List UInt8) :
    splitFrame (bytes ++ more) = some (f, rest ++ more) := by
  obtain ⟨hfits, rfl⟩ := splitFrame_eq_some h
  rw [append_assoc, splitFrame_encode hfits]

theorem splitFrame_length : rest.length < bytes.length := by
  obtain ⟨-, rfl⟩ := splitFrame_eq_some h
  rw [length_append, Frame.length_encode]
  omega

end

/-- Bytes by their frames: no complete frame, or a frame and a rest. -/
theorem frame_induction {P : List UInt8 → Prop}
    (incomplete : ∀ bytes, splitFrame bytes = none → P bytes)
    (frame : ∀ (f : Frame) rest, f.Fits → P rest → P (f.encode ++ rest)) (bytes : List UInt8) :
    P bytes := by
  induction hlength : bytes.length using Nat.strongRecOn generalizing bytes with
  | _ length ih =>
    cases hsplit : splitFrame bytes with
    | none => exact incomplete bytes hsplit
    | some found =>
      obtain ⟨f, rest⟩ := found
      have hlt := splitFrame_length hsplit
      obtain ⟨hfits, rfl⟩ := splitFrame_eq_some hsplit
      exact frame f rest hfits (ih rest.length (by omega) rest rfl)

/-! ## Walking over the frames of a request -/

/-- How a reader reports a malformed request. -/
structure WalkErrors (ε : Type) where
  truncated : ε
  short : ε
  overrun : ε

section Walk

variable {ε σ : Type} (errors : WalkErrors ε) (visit : σ → UInt8 → Except ε σ)

def walk (s : σ) (bytes : List UInt8) : Except ε σ :=
  match bytes with
  | [] => .ok s
  | tag :: rest =>
    if (tag :: rest).length < 5 then .error errors.truncated
    else if lengthField (tag :: rest) < 4 then .error errors.short
    else if (tag :: rest).length < lengthField (tag :: rest) + 1 then .error errors.overrun
    else
      match visit s tag with
      | .error error => .error error
      | .ok t => walk t ((tag :: rest).drop (lengthField (tag :: rest) + 1))
termination_by bytes.length
decreasing_by
  simp only [length_drop, length_cons]
  omega

/-- The visits of a walk without the bytes. -/
def visitAll (s : σ) : List Frame → Except ε σ
  | [] => .ok s
  | f :: rest =>
    match visit s f.tag with
    | .error error => .error error
    | .ok t => visitAll t rest

variable {errors visit}

theorem walk_nil (s : σ) : walk errors visit s [] = .ok s := by
  rw [walk]

theorem walk_encode (hfits : f.Fits) (s : σ) (rest : List UInt8) :
    walk errors visit s (f.encode ++ rest) =
      match visit s f.tag with
      | .error error => .error error
      | .ok t => walk errors visit t rest := by
  have hfield := lengthField_encode hfits rest
  have hdrop := drop_encode f rest
  have hlength : (f.encode ++ rest).length = f.body.length + 5 + rest.length := by
    rw [length_append, Frame.length_encode]
  have hcons : f.encode ++ rest =
      f.tag :: (bigEndian 4 (f.body.length + 4) ++ f.body ++ rest) := rfl
  rw [hcons] at hfield hdrop hlength ⊢
  rw [walk, hfield, hlength, if_neg (by omega), if_neg (by omega), if_neg (by omega), hdrop]

theorem walk_encodeAll (hfits : ∀ f ∈ frames, f.Fits) (s : σ) :
    walk errors visit s (encodeAll frames) = visitAll visit s frames := by
  induction frames generalizing s with
  | nil => exact walk_nil s
  | cons f rest ih =>
    rw [encodeAll_cons, walk_encode (hfits f (.head _)), visitAll]
    cases visit s f.tag with
    | error error => rfl
    | ok t => exact ih (fun g hg => hfits g (.tail f hg)) t

/-- A request that passes is the encoding of frames that were all visited. -/
theorem walk_eq_ok (h : walk errors visit s bytes = .ok t) :
    ∃ frames : List Frame, (∀ f ∈ frames, f.Fits) ∧ encodeAll frames = bytes ∧
      visitAll visit s frames = .ok t := by
  fun_induction walk errors visit s bytes with
  | case1 s => exact ⟨[], by simp, rfl, h⟩
  | case2 | case3 | case4 | case5 => cases h
  | case6 s tag rest hlong hfield hbody m hvisit ih =>
    obtain ⟨frames, hfits, hbytes, hall⟩ := ih h
    have hsplit : splitFrame (tag :: rest) =
        some (⟨tag, (rest.drop 4).take (lengthField (tag :: rest) - 4)⟩,
          (tag :: rest).drop (lengthField (tag :: rest) + 1)) := by
      exact if_neg (by tauto)
    obtain ⟨hf, hframe⟩ := splitFrame_eq_some hsplit
    refine ⟨⟨tag, (rest.drop 4).take (lengthField (tag :: rest) - 4)⟩ :: frames, ?_, ?_, ?_⟩
    · intro g hg
      rcases mem_cons.mp hg with rfl | hg
      · exact hf
      · exact hfits g hg
    · rw [encodeAll_cons, hbytes]
      exact hframe.symm
    · rw [visitAll, hvisit]
      exact hall

/-- Two walks that differ in what they report accept the same requests with the
same result. -/
theorem walk_toOption {visit' : σ → UInt8 → Except δ σ}
    (hvisit : ∀ s tag, (visit s tag).toOption = (visit' s tag).toOption) (s : σ)
    (bytes : List UInt8) :
    (walk errors visit s bytes).toOption = (walk errors' visit' s bytes).toOption := by
  fun_induction walk errors visit s bytes with
  | case1 s => rw [walk_nil]; rfl
  | case2 s tag rest hlong => rw [walk, if_pos hlong]; rfl
  | case3 s tag rest hlong hfield => rw [walk, if_neg hlong, if_pos hfield]; rfl
  | case4 s tag rest hlong hfield hbody =>
    rw [walk, if_neg hlong, if_neg hfield, if_pos hbody]; rfl
  | case5 s tag rest hlong hfield hbody error herror =>
    have hvisit := hvisit s tag
    rw [walk, if_neg hlong, if_neg hfield, if_neg hbody]
    rw [herror] at hvisit
    cases hother : visit' s tag with
    | error other => rfl
    | ok m => rw [hother] at hvisit; cases hvisit
  | case6 s tag rest hlong hfield hbody m hm ih =>
    have hvisit := hvisit s tag
    rw [walk, if_neg hlong, if_neg hfield, if_neg hbody]
    rw [hm] at hvisit
    cases hother : visit' s tag with
    | error other => rw [hother] at hvisit; cases hvisit
    | ok other =>
      rw [hother] at hvisit
      cases hvisit
      exact ih

end Walk

inductive Kind where
  | query
  | sync
  | functionCall
  /-- Parse, Bind, Describe and Close -/
  | extended
  | execute
  | flush
  | copyData
  | copyDone
  | copyFail
  | terminate
  | unknown
deriving DecidableEq, Repr

def Kind.ofTag (tag : UInt8) : Kind :=
  if tag = 0x51 then .query                                       -- Q
  else if tag = 0x53 then .sync                                   -- S
  else if tag = 0x46 then .functionCall                           -- F
  else if tag = 0x50 ∨ tag = 0x42 ∨ tag = 0x44 ∨ tag = 0x43 then .extended  -- P B D C
  else if tag = 0x45 then .execute                                -- E
  else if tag = 0x48 then .flush                                  -- H
  else if tag = 0x64 then .copyData                               -- d
  else if tag = 0x63 then .copyDone                               -- c
  else if tag = 0x66 then .copyFail                               -- f
  else if tag = 0x58 then .terminate                              -- X
  else .unknown

abbrev Frame.kind (f : Frame) : Kind := .ofTag f.tag

/-- What becomes of the work a message starts or goes on with. -/
inductive Verdict where
  | ok
  | fail
  /-- a COPY FROM STDIN asks for its data -/
  | copyIn
  /-- the server ends the connection -/
  | lost
deriving DecidableEq, Repr

inductive Mode where
  | normal
  /-- discarding messages up to the next Sync -/
  | skipping
  /-- reading COPY data for a Query, or for an Execute -/
  | copyIn (extended : Bool)
  | closed
deriving DecidableEq, Repr

/-- A COPY ends with an error: the Query it belongs to is over, an Execute leaves
the server looking for the Sync. -/
def copyFailed (extended : Bool) : Mode × Bool :=
  if extended then (.skipping, false) else (.normal, true)

/-- The next mode, and whether a ReadyForQuery is sent. A message that has no place
in a COPY aborts it; a server that ends the connection instead is the outcome
`lost`. -/
def react : Mode → Kind → Verdict → Mode × Bool
  | .closed, _, _ => (.closed, false)
  | _, .unknown, _ => (.closed, false)
  | _, .terminate, _ => (.closed, false)
  | _, _, .lost => (.closed, false)
  | .normal, .query, .copyIn => (.copyIn false, false)
  | .normal, .query, _ => (.normal, true)
  | .normal, .sync, _ => (.normal, true)
  | .normal, .functionCall, _ => (.normal, true)
  | .normal, .execute, .copyIn => (.copyIn true, false)
  | .normal, .execute, .fail => (.skipping, false)
  | .normal, .extended, .fail => (.skipping, false)
  | .normal, _, _ => (.normal, false)
  | .skipping, .sync, _ => (.normal, true)
  | .skipping, _, _ => (.skipping, false)
  | .copyIn extended, .sync, _ => (.copyIn extended, false)
  | .copyIn extended, .flush, _ => (.copyIn extended, false)
  | .copyIn extended, .copyData, .fail => copyFailed extended
  | .copyIn extended, .copyData, _ => (.copyIn extended, false)
  | .copyIn false, .copyDone, .copyIn => (.copyIn false, false)
  | .copyIn extended, .copyDone, .fail => copyFailed extended
  | .copyIn extended, .copyDone, _ => (.normal, !extended)
  | .copyIn extended, _, _ => copyFailed extended

def readyTag : UInt8 := 0x5a

def readyFrame (status : UInt8) : Frame := ⟨readyTag, [status]⟩

/-- What the server does with one frame: the outcome, the messages it sends for it,
and the transaction status of the ReadyForQuery if one follows. -/
structure Reply where
  outcome : Verdict
  messages : List Frame
  status : UInt8
deriving DecidableEq, Repr

/-- The messages are no ReadyForQuery and the status is one of `I`, `T` and `E`. -/
def Reply.WellFormed (r : Reply) : Prop :=
  (∀ m ∈ r.messages, m.tag ≠ readyTag) ∧ r.status ∈ [0x49, 0x54, 0x45]

instance (r : Reply) : Decidable r.WellFormed := inferInstanceAs (Decidable (_ ∧ _))

/-- The messages can be put on the wire too. -/
def Reply.Sendable (r : Reply) : Prop := r.WellFormed ∧ ∀ m ∈ r.messages, m.Fits

instance (r : Reply) : Decidable r.Sendable := inferInstanceAs (Decidable (_ ∧ _))

/-- The messages sent for one frame. -/
def answer (mode : Mode) (f : Frame) (r : Reply) : List Frame :=
  r.messages ++ if (react mode (.ofTag f.tag) r.outcome).2 then [readyFrame r.status] else []

/-- The messages sent for a request, frame after frame. -/
def respond : Mode → List (Frame × Reply) → List Frame
  | _, [] => []
  | mode, (f, r) :: rest =>
    answer mode f r ++ respond (react mode (.ofTag f.tag) r.outcome).1 rest

/-- The number of ReadyForQuery messages. -/
def readies (messages : List Frame) : Nat := messages.countP fun m => m.tag == readyTag

theorem readies_append (ms ns : List Frame) : readies (ms ++ ns) = readies ms + readies ns :=
  countP_append

theorem readies_answer (hr : r.WellFormed) (mode : Mode) (f : Frame) :
    readies (answer mode f r) = (react mode (.ofTag f.tag) r.outcome).2.toNat := by
  have hmessages : readies r.messages = 0 := by
    rw [readies, countP_eq_zero]
    intro m hm
    simpa using hr.1 m hm
  rw [answer, readies_append, hmessages]
  cases (react mode (.ofTag f.tag) r.outcome).2 <;> rfl

end FrontendProtocol
