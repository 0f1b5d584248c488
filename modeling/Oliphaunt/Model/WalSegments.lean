import Oliphaunt.Model.Hex

/-!
# Names of WAL segments

PostgreSQL numbers the segments of its write-ahead log and names the file of a
segment by the timeline, the log and the index in the log, eight hexadecimal
digits each. How many segments a log of 2^32 bytes has depends on the size of a
segment.

* `Position` — a segment of a timeline; `name` — its file name;
* `position?_eq_some_iff` — reading a name is the inverse of writing it;
* `range` — the names of consecutive segments;
* `Covers` — two names and a size of which a range can be asked, and `Request`,
  which has every way in which it cannot.
-/

namespace Wal

open List Hex

/-- A power of two from 1 MiB to 1 GiB. -/
def ValidSize (size : Nat) : Prop := 2 ^ 20 ≤ size ∧ size ≤ 2 ^ 30 ∧ size.isPowerOfTwo

def segmentsPerLog (size : Nat) : Nat := 2 ^ 32 / size

structure Position where
  timeline : Nat
  segment : Nat
deriving DecidableEq, Repr

/-- The timeline and the log have eight digits each. -/
structure Position.Valid (perLog : Nat) (p : Position) : Prop where
  timeline_lt : p.timeline < 2 ^ 32
  segment_lt : p.segment < 2 ^ 32 * perLog

def name (perLog : Nat) (p : Position) : List Char :=
  digits 8 p.timeline ++ (digits 8 (p.segment / perLog) ++
    digits 8 (p.segment % perLog))

/-- The segment that a name stands for. -/
def position? (perLog : Nat) (text : List Char) : Option Position :=
  if text.length = 24 ∧ text.all isDigit = true ∧ value (text.drop 16) < perLog then
    some ⟨value (text.take 8),
      value ((text.drop 8).take 8) * perLog + value (text.drop 16)⟩
  else none

/-- The names of the segments `first` to `last`. -/
def range (perLog timeline first last : Nat) : List (List Char) :=
  (List.range' first (last + 1 - first)).map fun segment => name perLog ⟨timeline, segment⟩

variable {size : Nat}

theorem ValidSize.segmentsPerLog_bounds (h : ValidSize size) :
    0 < segmentsPerLog size ∧ segmentsPerLog size ≤ 2 ^ 12 := by
  obtain ⟨hlow, hhigh, -⟩ := h
  refine ⟨Nat.div_pos (by omega) (by omega), ?_⟩
  calc 2 ^ 32 / size ≤ 2 ^ 32 / 2 ^ 20 := Nat.div_le_div_left hlow (by omega)
    _ = 2 ^ 12 := by decide

/-- The test for a power of two by its bits. -/
theorem validSize_iff_and (size : Nat) :
    ValidSize size ↔ ¬ (size < 1024 * 1024 ∨ 1024 * 1024 * 1024 < size ∨
      size &&& (size - 1) ≠ 0) := by
  unfold ValidSize
  by_cases hsize : size = 0
  · subst hsize
    simp
  · rw [← Nat.and_sub_one_eq_zero_iff_isPowerOfTwo hsize]
    omega

theorem ValidSize.dvd (h : ValidSize size) : 2 ^ 32 % size = 0 := by
  obtain ⟨-, hhigh, k, rfl⟩ := h
  have hk : k ≤ 30 := (Nat.pow_le_pow_iff_right (by omega)).mp hhigh
  exact Nat.mod_eq_zero_of_dvd (Nat.pow_dvd_pow 2 (by omega))

section Names

variable {perLog : Nat}

section

variable (p : Position)

include p

theorem name_length : (name perLog p).length = 24 := by
  simp [name]

theorem name_all : (name perLog p).all isDigit = true := by
  simp only [name, all_append, all_digits, Bool.and_self]

theorem name_take : (name perLog p).take 8 = digits 8 p.timeline := by
  rw [name, take_left' (length_digits 8 _)]

theorem name_drop : (name perLog p).drop 8 =
    digits 8 (p.segment / perLog) ++ digits 8 (p.segment % perLog) := by
  rw [name, drop_left' (length_digits 8 _)]

theorem name_log : ((name perLog p).drop 8).take 8 = digits 8 (p.segment / perLog) := by
  rw [name_drop, take_left' (length_digits 8 _)]

theorem name_index : (name perLog p).drop 16 = digits 8 (p.segment % perLog) := by
  rw [show 16 = 8 + 8 from rfl, ← drop_drop, name_drop,
    drop_left' (length_digits 8 _)]

end

variable {p : Position} {text : List Char}

theorem position?_name (hpos : 0 < perLog) (hle : perLog ≤ 2 ^ 32) (h : p.Valid perLog) :
    position? perLog (name perLog p) = some p := by
  have hlog : p.segment / perLog < 2 ^ 32 :=
    Nat.div_lt_of_lt_mul (by rw [Nat.mul_comm]; exact h.segment_lt)
  have hindex := Nat.mod_lt p.segment hpos
  have hwidth : (2 : Nat) ^ 32 = 16 ^ 8 := by decide
  have htimeline := h.timeline_lt
  have hvalue : value ((name perLog p).drop 16) = p.segment % perLog := by
    rw [name_index, value_digits (Nat.lt_of_lt_of_le hindex hle)]
  rw [position?, if_pos ⟨name_length p, name_all p, by rw [hvalue]; exact hindex⟩, hvalue,
    name_take,
    name_log, value_digits htimeline, value_digits hlog]
  congr 2
  rw [Nat.mul_comm]
  exact Nat.div_add_mod p.segment perLog

theorem name_of_position? (h : position? perLog text = some p) :
    p.Valid perLog ∧ text = name perLog p := by
  unfold position? at h
  split_ifs at h with hvalid
  obtain ⟨hlength, hall, hindex⟩ := hvalid
  have hp := Option.some.inj h
  have hsplit : text = text.take 8 ++ ((text.drop 8).take 8 ++ text.drop 16) := by
    rw [show 16 = 8 + 8 from rfl, ← drop_drop, take_append_drop, take_append_drop]
  have hpart (part : List Char) (hmem : ∀ c ∈ part, c ∈ text) (hwidth : part.length = 8) :
      digits 8 (value part) = part ∧ value part < 2 ^ 32 := by
    have hpartAll : part.all isDigit = true :=
      all_eq_true.mpr fun c hc => all_eq_true.mp hall c (hmem c hc)
    have hdigits := digits_value hpartAll
    rw [hwidth] at hdigits
    exact hdigits
  obtain ⟨htimeline, htimelineLt⟩ := hpart (text.take 8)
    (fun c hc => mem_of_mem_take hc) (by simp [hlength])
  obtain ⟨hlog, hlogLt⟩ := hpart ((text.drop 8).take 8)
    (fun c hc => mem_of_mem_drop (mem_of_mem_take hc)) (by simp [hlength])
  obtain ⟨hlast, -⟩ := hpart (text.drop 16)
    (fun c hc => mem_of_mem_drop hc) (by simp [hlength])
  subst hp
  refine ⟨⟨htimelineLt, ?_⟩, ?_⟩
  · show value ((text.drop 8).take 8) * perLog + value (text.drop 16) < 2 ^ 32 * perLog
    calc value ((text.drop 8).take 8) * perLog + value (text.drop 16)
        < (value ((text.drop 8).take 8) + 1) * perLog := by
          rw [Nat.add_mul, Nat.one_mul]
          omega
      _ ≤ 2 ^ 32 * perLog := Nat.mul_le_mul_right perLog hlogLt
  · have hdiv : (value ((text.drop 8).take 8) * perLog + value (text.drop 16)) / perLog =
        value ((text.drop 8).take 8) := by
      rw [Nat.mul_comm, Nat.mul_add_div (by omega), Nat.div_eq_of_lt hindex, Nat.add_zero]
    have hmod : (value ((text.drop 8).take 8) * perLog + value (text.drop 16)) % perLog =
        value (text.drop 16) := by
      rw [Nat.mul_comm, Nat.mul_add_mod, Nat.mod_eq_of_lt hindex]
    rw [name, hdiv, hmod, htimeline, hlog, hlast]
    exact hsplit

/-- Reading a name inverts writing it, and no other text is read. -/
theorem position?_eq_some_iff (hpos : 0 < perLog) (hle : perLog ≤ 2 ^ 32) :
    position? perLog text = some p ↔ p.Valid perLog ∧ text = name perLog p := by
  refine ⟨name_of_position?, ?_⟩
  rintro ⟨hvalid, rfl⟩
  exact position?_name hpos hle hvalid

end Names

theorem range_empty (perLog timeline first last : Nat) (h : last < first) :
    range perLog timeline first last = [] := by
  rw [range, Nat.sub_eq_zero_of_le h]
  rfl

theorem range_cons (perLog timeline first last : Nat) (h : first ≤ last) :
    range perLog timeline first last =
      name perLog ⟨timeline, first⟩ :: range perLog timeline (first + 1) last := by
  have hcount : last + 1 - first = (last + 1 - (first + 1)) + 1 := by omega
  rw [range, hcount, range'_succ, map_cons, range]

/-- Names of two segments of one timeline, the first not after the last. -/
structure Covers (size : Nat) (start stop : List Char) (timeline first last : Nat) : Prop where
  size_valid : ValidSize size
  start_valid : Position.Valid (segmentsPerLog size) ⟨timeline, first⟩
  start_eq : start = name (segmentsPerLog size) ⟨timeline, first⟩
  stop_valid : Position.Valid (segmentsPerLog size) ⟨timeline, last⟩
  stop_eq : stop = name (segmentsPerLog size) ⟨timeline, last⟩
  first_le : first ≤ last

theorem ValidSize.segmentsPerLog_le (h : ValidSize size) : segmentsPerLog size ≤ 2 ^ 32 := by
  have := h.segmentsPerLog_bounds.2
  omega

section Requests

variable {size : Nat} {start stop : List Char} {timeline first last : Nat}

section

variable (h : Covers size start stop timeline first last)

include h

theorem Covers.position?_start :
    position? (segmentsPerLog size) start = some ⟨timeline, first⟩ :=
  (position?_eq_some_iff h.size_valid.segmentsPerLog_bounds.1
    h.size_valid.segmentsPerLog_le).mpr ⟨h.start_valid, h.start_eq⟩

theorem Covers.position?_stop : position? (segmentsPerLog size) stop = some ⟨timeline, last⟩ :=
  (position?_eq_some_iff h.size_valid.segmentsPerLog_bounds.1
    h.size_valid.segmentsPerLog_le).mpr ⟨h.stop_valid, h.stop_eq⟩

variable {segment : Nat}

theorem Covers.valid (hle : segment ≤ last) :
    Position.Valid (segmentsPerLog size) ⟨timeline, segment⟩ :=
  ⟨h.stop_valid.timeline_lt, Nat.lt_of_le_of_lt hle h.stop_valid.segment_lt⟩

theorem Covers.position?_segment (hle : segment ≤ last) :
    position? (segmentsPerLog size) (name (segmentsPerLog size) ⟨timeline, segment⟩) =
      some ⟨timeline, segment⟩ :=
  position?_name h.size_valid.segmentsPerLog_bounds.1 h.size_valid.segmentsPerLog_le
    (h.valid hle)

end

end Requests

/-- What a request for a range can be: each reason to refuse it, and the range. -/
inductive Request (size : Nat) (start stop : List Char) : Prop where
  | size (h : ¬ ValidSize size)
  | start (hsize : ValidSize size) (h : position? (segmentsPerLog size) start = none)
  | stop (hsize : ValidSize size) {p : Position}
      (hstart : position? (segmentsPerLog size) start = some p)
      (h : position? (segmentsPerLog size) stop = none)
  | timelines (hsize : ValidSize size) {p q : Position}
      (hstart : position? (segmentsPerLog size) start = some p)
      (hstop : position? (segmentsPerLog size) stop = some q) (h : p.timeline ≠ q.timeline)
  | reversed (hsize : ValidSize size) {p q : Position}
      (hstart : position? (segmentsPerLog size) start = some p)
      (hstop : position? (segmentsPerLog size) stop = some q) (htimeline : p.timeline = q.timeline)
      (h : q.segment < p.segment)
  | covers (timeline first last : Nat) (h : Covers size start stop timeline first last)

theorem request (size : Nat) (start stop : List Char) : Request size start stop := by
  by_cases hsize : ValidSize size
  · cases hstart : position? (segmentsPerLog size) start with
    | none => exact .start hsize hstart
    | some p =>
      cases hstop : position? (segmentsPerLog size) stop with
      | none => exact .stop hsize hstart hstop
      | some q =>
        by_cases htimeline : p.timeline = q.timeline
        · by_cases hle : p.segment ≤ q.segment
          · obtain ⟨hstartValid, hstartName⟩ := name_of_position? hstart
            obtain ⟨hstopValid, hstopName⟩ := name_of_position? hstop
            obtain ⟨timeline, first⟩ := p
            obtain ⟨_, last⟩ := q
            obtain rfl : timeline = _ := htimeline
            exact .covers timeline first last
              ⟨hsize, hstartValid, hstartName, hstopValid, hstopName, hle⟩
          · exact .reversed hsize hstart hstop htimeline (Nat.lt_of_not_le hle)
        · exact .timelines hsize hstart hstop htimeline
  · exact .size hsize

end Wal
