import Oliphaunt.Model.Bytes

/-!
# Readers of bytes that may fail

A reader takes bytes from the front and returns a value with what is left, or an
error text. `Ensures` is a postcondition of a result, and `Reads` says that a reader
takes exactly the given bytes. The rules follow the way readers are put together.
-/

namespace ByteReader

abbrev Reader (α : Type) := StateT (List UInt8) (Except String) α

section Results

variable {α β ε : Type}

variable {x : Except ε α}

/-- If there is a value, the postcondition holds of it. -/
def Ensures (P : α → Prop) (x : Except ε α) : Prop := ∀ a, x = .ok a → P a

variable {P : α → Prop}

theorem Ensures.error (e : ε) : Ensures P (.error e) := fun _ h => nomatch h

theorem Ensures.ok (h : P a) : Ensures P (.ok a : Except ε α) :=
  fun _ heq => Except.ok.inj heq ▸ h

theorem Ensures.bind {P : β → Prop} (h : ∀ a, Ensures P (f a)) : Ensures P (x >>= f) := by
  cases x with
  | error e => exact .error e
  | ok a => exact h a

variable {y : Except ε α} {p : Prop}

theorem Ensures.ite [Decidable p] (hx : p → Ensures P x) (hy : ¬ p → Ensures P y) :
    Ensures P (if p then x else y) := by
  split
  · exact hx ‹_›
  · exact hy ‹_›

theorem Ensures.guard [Decidable p] (h : ¬ p → Ensures P y) :
    Ensures P (if p then .error e else y) :=
  .ite (fun _ => .error e) h

end Results

section Readers

variable {α β : Type}

theorem bind_apply (m : Reader α) (f : α → Reader β) (input : List UInt8) :
    (m >>= f) input = (m input) >>= fun r => f r.1 r.2 := rfl

theorem pure_apply (a : α) (input : List UInt8) :
    (pure a : Reader α) input = .ok (a, input) := rfl

variable {m : Reader α} {a : α}

theorem bind_ok {f : α → Reader β} (h : m input = .ok (a, rest)) : (m >>= f) input = f a rest := by
  rw [bind_apply, h]
  rfl

/-- Read `n` times. -/
def times (m : Reader α) : Nat → Reader (List α)
  | 0 => pure []
  | n + 1 => do
    let a ← m
    let rest ← times m n
    pure (a :: rest)

variable {b : β}

/-- The reader takes exactly `chunk` from the front and returns `a`. -/
def Reads (m : Reader α) (chunk : List UInt8) (a : α) : Prop :=
  ∀ rest, m (chunk ++ rest) = .ok (a, rest)

theorem Reads.pure (a : α) : Reads (Pure.pure a) [] a := fun _ => rfl

theorem Reads.bind {f : α → Reader β} (hm : Reads m chunk a) (hf : Reads (f a) more b) :
    Reads (m >>= f) (chunk ++ more) b := by
  intro rest
  rw [List.append_assoc, bind_ok (hm (more ++ rest))]
  exact hf rest

theorem Reads.times {bs : List β} (h : ∀ b ∈ bs, Reads m (chunk b) (value b)) :
    Reads (times m bs.length) (bs.flatMap chunk) (bs.map value) := by
  induction bs with
  | nil => exact .pure []
  | cons b rest ih =>
    have hrest := ih fun c hc => h c (.tail b hc)
    have hall := (hrest.bind (f := fun as => Pure.pure (value b :: as)) (.pure _))
    rw [List.append_nil] at hall
    exact (h b (.head _)).bind hall

end Readers

section Whole

variable {α : Type}

/-- Run a reader on a whole message: nothing may be left. -/
def whole (m : Reader α) (trailing : String) (body : List UInt8) : Except String α :=
  match m body with
  | .error e => .error e
  | .ok (a, []) => .ok a
  | .ok (_, _ :: _) => .error trailing

variable {m : Reader α}

theorem Reads.whole (h : Reads m body a) (trailing : String) :
    ByteReader.whole m trailing body = .ok a := by
  have hbody := h []
  rw [List.append_nil] at hbody
  rw [ByteReader.whole, hbody]

end Whole

end ByteReader
