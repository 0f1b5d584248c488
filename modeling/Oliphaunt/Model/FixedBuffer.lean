import Oliphaunt.Model.Bytes

/-!
# Writing into a buffer of a fixed length

A writer fills a buffer whose length was computed beforehand. Single elements behind
the end are dropped, as a typed array drops them; a block that does not fit is an
error. `Filled` says what a writer has done so far: every operation whose bytes fit
appends them, and operations in sequence append their bytes in sequence (`Writes`). So
operations that add up to the length of the buffer return exactly the concatenation of
their bytes (`Writes.finish`).
-/

namespace FixedBuffer

open Bytes List

structure Writer where
  bytes : List UInt8
  offset : Nat
deriving DecidableEq, Repr

def Writer.new (length : Nat) : Writer := ⟨List.replicate length 0, 0⟩

/-- Store the elements one by one; those behind the end are dropped. -/
def Writer.store (w : Writer) : List UInt8 → Writer
  | [] => w
  | value :: rest => Writer.store ⟨w.bytes.set w.offset value, w.offset + 1⟩ rest

/-- Copy a block; `none` when it does not fit. -/
def Writer.copy (w : Writer) (block : List UInt8) : Option Writer :=
  if w.bytes.length < w.offset + block.length then none
  else some ⟨w.bytes.take w.offset ++ block ++ w.bytes.drop (w.offset + block.length),
    w.offset + block.length⟩

/-- The buffer, `none` unless it is full. -/
def Writer.finish (w : Writer) : Option (List UInt8) :=
  if w.offset = w.bytes.length then some w.bytes else none

/-- The writer has written `written` and `room` bytes are left. -/
structure Filled (w : Writer) (written : List UInt8) (room : Nat) : Prop where
  bytes : w.bytes = written ++ List.replicate room 0
  offset : w.offset = written.length

theorem filled_new (length : Nat) : Filled (Writer.new length) [] length := ⟨rfl, rfl⟩

variable {w : Writer} {written : List UInt8} {room : Nat}

theorem Filled.store (h : Filled w written (values.length + room)) :
    Filled (w.store values) (written ++ values) room := by
  induction values generalizing w written with
  | nil =>
    rw [append_nil]
    rw [length_nil, Nat.zero_add] at h
    exact h
  | cons value rest ih =>
    have hnext : Filled ⟨w.bytes.set w.offset value, w.offset + 1⟩ (written ++ [value])
        (rest.length + room) := by
      refine ⟨?_, ?_⟩
      · have hroom : (value :: rest).length + room = (rest.length + room) + 1 := by
          rw [length_cons]
          omega
        rw [h.bytes, h.offset, hroom, replicate_succ, set_append_right _ _ (Nat.le_refl _),
          Nat.sub_self, set_cons_zero, append_assoc]
        rfl
      · rw [h.offset, length_append]
        rfl
    have hstored := ih hnext
    rw [append_assoc] at hstored
    exact hstored

theorem Filled.copy (h : Filled w written (block.length + room)) :
    ∃ next, w.copy block = some next ∧ Filled next (written ++ block) room := by
  have hlength : w.bytes.length = written.length + (block.length + room) := by
    rw [h.bytes, length_append, length_replicate]
  refine ⟨_, if_neg (by rw [h.offset]; omega), ?_, ?_⟩
  · show w.bytes.take w.offset ++ block ++ w.bytes.drop (w.offset + block.length) = _
    rw [h.bytes, h.offset, take_left, ← replicate_append_replicate, ← append_assoc,
      drop_left' (by rw [length_append, length_replicate])]
  · show w.offset + block.length = _
    rw [h.offset, length_append]

theorem Filled.finish (h : Filled w written 0) : w.finish = some written := by
  have hbytes : w.bytes = written := by
    rw [h.bytes]
    exact append_nil written
  rw [Writer.finish, hbytes, if_pos h.offset]

section Sequence

variable {ε : Type}

/-- Where its bytes fit, the operation succeeds and appends them. -/
def Writes (op : Writer → Except ε Writer) (chunk : List UInt8) : Prop :=
  ∀ w written room, Filled w written (chunk.length + room) →
    ∃ next, op w = .ok next ∧ Filled next (written ++ chunk) room

theorem Writes.pure : Writes (fun w => (.ok w : Except ε Writer)) [] := by
  intro w written room h
  refine ⟨w, rfl, ?_⟩
  rw [append_nil]
  rw [length_nil, Nat.zero_add] at h
  exact h

theorem Writes.store (values : List UInt8) :
    Writes (fun w => (.ok (w.store values) : Except ε Writer)) values :=
  fun _ _ _ h => ⟨_, rfl, h.store⟩

theorem Writes.copy (block : List UInt8) (e : ε) :
    Writes (fun w => (w.copy block).elim (.error e) .ok) block := by
  intro w written room h
  obtain ⟨next, hcopy, hnext⟩ := h.copy
  refine ⟨next, ?_, hnext⟩
  show (w.copy block).elim _ _ = _
  rw [hcopy]
  rfl

variable {op : Writer → Except ε Writer} {chunk : List UInt8}

theorem Writes.bind {next : Writer → Except ε Writer} (hop : Writes op chunk)
    (hnext : Writes next more) :
    Writes (fun w => op w >>= next) (chunk ++ more) := by
  intro w written room h
  rw [length_append, Nat.add_assoc] at h
  obtain ⟨v, hv, hfilled⟩ := hop w written (more.length + room) h
  obtain ⟨u, hu, hdone⟩ := hnext v _ _ hfilled
  refine ⟨u, ?_, ?_⟩
  · show op w >>= next = _
    rw [hv]
    exact hu
  · rw [← append_assoc]
    exact hdone

/-- One operation for each element. -/
def forEach {α : Type} (op : α → Writer → Except ε Writer) : List α → Writer → Except ε Writer
  | [], w => .ok w
  | a :: rest, w => op a w >>= forEach op rest

theorem Writes.forEach {op : α → Writer → Except ε Writer} {chunk : α → List UInt8}
    (hop : ∀ a ∈ as, Writes (op a) (chunk a)) :
    Writes (FixedBuffer.forEach op as) (as.flatMap chunk) := by
  induction as with
  | nil => exact .pure
  | cons a rest ih =>
    exact (hop a (.head _)).bind (ih fun b hb => hop b (.tail a hb))

/-- Operations whose bytes add up to the length of the buffer fill it. -/
theorem Writes.finish (length : Nat) (h : Writes op chunk) (hlength : length = chunk.length) :
    ∃ w, op (Writer.new length) = .ok w ∧ w.finish = some chunk := by
  obtain ⟨w, hw, hfilled⟩ := h (Writer.new length) [] 0 (by rw [hlength]; exact filled_new _)
  exact ⟨w, hw, hfilled.finish⟩

end Sequence

end FixedBuffer
