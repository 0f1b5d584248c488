import Oliphaunt.Model.Frontend
import Oliphaunt.Model.Reader

/-!
# Messages of the extended query protocol

The frontend messages Parse, Bind, Describe, Execute and Sync as PostgreSQL reads
them: names and texts up to a zero byte, counts in two bytes, a value as its length in
four bytes and its bytes, NULL as the length -1. `decodeAll` reads a whole request. A
request that was put together from messages whose parts fit their fields is read as
those messages (`decodeAll_encode`).
-/

namespace FrontendProtocol

open Bytes ByteReader List

inductive ExtendedMessage where
  | parse (statement query : List UInt8) (types : List Nat)
  | bind (portal statement : List UInt8) (formats : List Nat)
      (values : List (Option (List UInt8))) (results : List Nat)
  | describe (target : UInt8) (name : List UInt8)
  | execute (portal : List UInt8) (limit : Nat)
  | sync
deriving DecidableEq, Repr

def terminated (text : List UInt8) : List UInt8 := text ++ [0]

/-- The length that stands for NULL. -/
def nullLength : Nat := 0xffffffff

def encodeValue : Option (List UInt8) → List UInt8
  | none => bigEndian 4 nullLength
  | some value => bigEndian 4 value.length ++ value

/-- The number of elements, and the elements. -/
def counted {α : Type} (chunk : α → List UInt8) (as : List α) : List UInt8 :=
  bigEndian 2 as.length ++ as.flatMap chunk

def ExtendedMessage.frame : ExtendedMessage → Frame
  | .parse statement query types =>
    ⟨0x50, terminated statement ++ (terminated query ++ counted (bigEndian 4) types)⟩
  | .bind portal statement formats values results =>
    ⟨0x42, terminated portal ++ (terminated statement ++ (counted (bigEndian 2) formats ++
      (counted encodeValue values ++ counted (bigEndian 2) results)))⟩
  | .describe target name => ⟨0x44, target :: terminated name⟩
  | .execute portal limit => ⟨0x45, terminated portal ++ bigEndian 4 limit⟩
  | .sync => ⟨0x53, []⟩

def readText : Reader (List UInt8) := fun input =>
  let text := input.takeWhile (· ≠ 0)
  if input.length ≤ text.length then .error "missing terminator"
  else .ok (text, input.drop (text.length + 1))

def readBlock (n : Nat) : Reader (List UInt8) := fun input =>
  if input.length < n then .error "insufficient data left in message"
  else .ok (input.take n, input.drop n)

def readNumber (width : Nat) : Reader Nat := do
  let bytes ← readBlock width
  pure (ofBigEndian bytes)

/-- Read a count, and as many elements. -/
def readCounted {α : Type} (m : Reader α) : Reader (List α) := do
  let count ← readNumber 2
  times m count

def readValue : Reader (Option (List UInt8)) := do
  let length ← readNumber 4
  if length = nullLength then pure none
  else if 2 ^ 31 ≤ length then throw "invalid message format"
  else do
    let value ← readBlock length
    pure (some value)

def decode (f : Frame) : Except String ExtendedMessage :=
  if f.tag = 0x50 then
    whole (do
      let statement ← readText
      let query ← readText
      let types ← readCounted (readNumber 4)
      pure (.parse statement query types)) "invalid message format" f.body
  else if f.tag = 0x42 then
    whole (do
      let portal ← readText
      let statement ← readText
      let formats ← readCounted (readNumber 2)
      let values ← readCounted readValue
      let results ← readCounted (readNumber 2)
      pure (.bind portal statement formats values results)) "invalid message format" f.body
  else if f.tag = 0x44 then
    whole (do
      let target ← readNumber 1
      let name ← readText
      pure (.describe (UInt8.ofNat target) name)) "invalid message format" f.body
  else if f.tag = 0x45 then
    whole (do
      let portal ← readText
      let limit ← readNumber 4
      pure (.execute portal limit)) "invalid message format" f.body
  else if f.tag = 0x53 then whole (pure .sync) "invalid message format" f.body
  else .error "invalid frontend message type"

def decodeAll (bytes : List UInt8) : Except String (List ExtendedMessage) :=
  match hsplit : splitFrame bytes with
  | none => if bytes = [] then .ok [] else .error "incomplete message"
  | some (frame, rest) => do
    let message ← decode frame
    let messages ← decodeAll rest
    pure (message :: messages)
termination_by bytes.length
decreasing_by exact splitFrame_length hsplit

/-! ## What is written is read -/

/-- The parts of a message fit their fields. -/
def ExtendedMessage.Encodable : ExtendedMessage → Prop
  | .parse statement query types =>
    0 ∉ statement ∧ 0 ∉ query ∧ types.length < 2 ^ 16 ∧ ∀ oid ∈ types, oid < 2 ^ 32
  | .bind portal statement formats values results =>
    0 ∉ portal ∧ 0 ∉ statement ∧ (formats.length < 2 ^ 16 ∧ ∀ code ∈ formats, code < 2 ^ 16) ∧
      (values.length < 2 ^ 16 ∧ ∀ value, some value ∈ values → value.length < 2 ^ 31) ∧
      results.length < 2 ^ 16 ∧ ∀ code ∈ results, code < 2 ^ 16
  | .describe _ name => 0 ∉ name
  | .execute portal limit => 0 ∉ portal ∧ limit < 2 ^ 32
  | .sync => True

theorem reads_text {text : List UInt8} (h : 0 ∉ text) : Reads readText (terminated text) text := by
  intro rest
  have htext : (terminated text ++ rest).takeWhile (· ≠ 0) = text := by
    rw [terminated, append_assoc, takeWhile_append_of_pos]
    · simp
    · intro b hb
      exact decide_eq_true fun heq => h (heq ▸ hb)
  have hdrop : (terminated text ++ rest).drop (text.length + 1) = rest :=
    drop_left' (by rw [terminated, length_append]; rfl)
  rw [readText]
  simp only [htext, hdrop]
  refine if_neg ?_
  rw [terminated, length_append, length_append, length_singleton]
  omega

theorem reads_block (block : List UInt8) : Reads (readBlock block.length) block block := by
  intro rest
  rw [readBlock, if_neg (by rw [length_append]; omega), take_left, drop_left]

theorem reads_number {width n : Nat} (h : n < 256 ^ width) :
    Reads (readNumber width) (bigEndian width n) n := by
  have hblock : Reads (readBlock width) (bigEndian width n) (bigEndian width n) := by
    have hreads := reads_block (bigEndian width n)
    rwa [length_bigEndian] at hreads
  have hnumber := hblock.bind (f := fun bytes => pure (ofBigEndian bytes)) (.pure _)
  rw [append_nil, ofBigEndian_bigEndian h] at hnumber
  exact hnumber

theorem reads_counted {α β : Type} {m : Reader α} {chunk : β → List UInt8} {bs : List β}
    (value : β → α) (hcount : bs.length < 2 ^ 16) (h : ∀ b ∈ bs, Reads m (chunk b) (value b)) :
    Reads (readCounted m) (counted chunk bs) (bs.map value) :=
  (reads_number (by omega)).bind (Reads.times h)

theorem reads_numbers {width : Nat} {ns : List Nat} (hcount : ns.length < 2 ^ 16)
    (h : ∀ n ∈ ns, n < 256 ^ width) :
    Reads (readCounted (readNumber width)) (counted (bigEndian width) ns) ns := by
  have hread := reads_counted id hcount fun n hn => reads_number (h n hn)
  rwa [map_id] at hread

theorem reads_value (value : Option (List UInt8)) (h : ∀ v, value = some v → v.length < 2 ^ 31) :
    Reads readValue (encodeValue value) value := by
  cases value with
  | none =>
    have hnumber : Reads (readNumber 4) (bigEndian 4 nullLength) nullLength :=
      reads_number (by decide)
    show Reads readValue (bigEndian 4 nullLength) none
    refine hnumber.bind ?_
    exact .pure none
  | some v =>
    have hlength := h v rfl
    have hnumber : Reads (readNumber 4) (bigEndian 4 v.length) v.length :=
      reads_number (by omega)
    refine hnumber.bind ?_
    rw [if_neg (by rw [nullLength]; omega), if_neg (by omega)]
    have hblock := (reads_block v).bind (f := fun value => pure (some value)) (.pure (some v))
    rw [append_nil] at hblock
    exact hblock

theorem reads_values {values : List (Option (List UInt8))} (hcount : values.length < 2 ^ 16)
    (h : ∀ value, some value ∈ values → value.length < 2 ^ 31) :
    Reads (readCounted readValue) (counted encodeValue values) values := by
  have hread := reads_counted id hcount fun value hvalue =>
    reads_value value fun v hv => h v (hv ▸ hvalue)
  rwa [map_id] at hread

theorem reads_last {α β : Type} {m : Reader α} {g : α → β} {chunk : List UInt8} {a : α}
    (h : Reads m chunk a) : Reads (m >>= fun a => pure (g a)) chunk (g a) := by
  have hbind := h.bind (f := fun a => pure (g a)) (.pure (g a))
  rwa [append_nil] at hbind

theorem decode_frame {message : ExtendedMessage} (h : message.Encodable) :
    decode message.frame = .ok message := by
  cases message with
  | parse statement query types =>
    obtain ⟨hstatement, hquery, hcount, htypes⟩ := h
    exact Reads.whole ((reads_text hstatement).bind ((reads_text hquery).bind
      (reads_last (reads_numbers hcount htypes)))) _
  | bind portal statement formats values results =>
    obtain ⟨hportal, hstatement, ⟨hformats, hcodes⟩, ⟨hcount, hvalues⟩, hresults, hcodes'⟩ := h
    exact Reads.whole ((reads_text hportal).bind ((reads_text hstatement).bind
      ((reads_numbers hformats hcodes).bind ((reads_values hcount hvalues).bind
        (reads_last (reads_numbers hresults hcodes')))))) _
  | describe target name =>
    have htarget : Reads (readNumber 1) [target] target.toNat := by
      have hread := @reads_number 1 target.toNat target.toNat_lt
      have hbytes : bigEndian 1 target.toNat = [target] := by
        rw [bigEndian, bigEndian, Nat.mod_eq_of_lt target.toNat_lt, UInt8.ofNat_toNat]
        rfl
      rwa [hbytes] at hread
    have hdecode : decode (ExtendedMessage.describe target name).frame =
        .ok (.describe (UInt8.ofNat target.toNat) name) :=
      Reads.whole (htarget.bind (reads_last (reads_text h))) _
    rw [hdecode, UInt8.ofNat_toNat]
  | execute portal limit =>
    obtain ⟨hportal, hlimit⟩ := h
    exact Reads.whole ((reads_text hportal).bind (reads_last (reads_number hlimit))) _
  | sync => rfl

theorem decodeAll_nil : decodeAll [] = .ok [] := by
  rw [decodeAll]
  rfl

theorem decodeAll_cons {f : Frame} (hfits : f.Fits) (rest : List UInt8) :
    decodeAll (f.encode ++ rest) =
      decode f >>= fun message => decodeAll rest >>= fun messages =>
        pure (message :: messages) := by
  conv_lhs => rw [decodeAll]
  split
  · rename_i hsplit
    rw [splitFrame_encode hfits] at hsplit
    cases hsplit
  · rename_i hsplit
    rw [splitFrame_encode hfits] at hsplit
    cases hsplit
    rfl

/-- A request of messages whose parts fit is read as these messages. -/
theorem decodeAll_encode {messages : List ExtendedMessage}
    (h : ∀ message ∈ messages, message.Encodable ∧ message.frame.Fits) :
    decodeAll (encodeAll (messages.map ExtendedMessage.frame)) = .ok messages := by
  induction messages with
  | nil => exact decodeAll_nil
  | cons message messages ih =>
    obtain ⟨hencodable, hfits⟩ := h message (.head _)
    rw [map_cons, encodeAll_cons, decodeAll_cons hfits, decode_frame hencodable,
      ih fun m hm => h m (.tail message hm)]
    rfl

end FrontendProtocol
