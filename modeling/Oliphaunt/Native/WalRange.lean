import Oliphaunt.Model.Utf8
import Oliphaunt.Model.WalSegments

/-!
# The WAL range of a backup in C

`parse_wal_file` and `oliphaunt_visit_wal_range` of
`liboliphaunt_archive_tar.c`. A name is a C string: its bytes up to the zero
byte, or the null pointer. The digits are collected in 32 bits and the number of
a segment in 64.

* `visitLoop_eq` — the loop calls the visitor for the names of the range in
  order, until it fails;
* `visitWalRange_covers`, `visitWalRange_refuses` — the range of a request, and
  an error without a call for every other one.
-/

namespace Oliphaunt.NativeWal

open List
open Wal (Covers Position name position? range segmentsPerLog)

open Utf8 (byte)

/-- The value of a digit, as the two branches of the source compute it. -/
def digitValue (b : UInt8) : Option UInt32 :=
  if byte '0' ≤ b ∧ b ≤ byte '9' then some (b - byte '0').toUInt32
  else if byte 'A' ≤ b ∧ b ≤ byte 'F' then some ((b - byte 'A').toUInt32 + 10)
  else none

/-- The loop over the digits of one part. -/
def parsePart (part : UInt32) : List UInt8 → Option UInt32
  | [] => some part
  | b :: rest =>
    match digitValue b with
    | none => none
    | some value => parsePart ((part <<< 4) ||| value) rest

def malformed : String := "physical backup returned a malformed WAL filename"

def parseWalFile (walFile : Option (List UInt8)) (segmentsPerXlogid : Nat) :
    Except String Position :=
  match walFile with
  | none => .error malformed
  | some bytes =>
    if bytes.length ≠ 24 then .error malformed
    else
      match parsePart 0 (bytes.take 8), parsePart 0 ((bytes.drop 8).take 8),
        parsePart 0 (bytes.drop 16) with
      | some timeline, some log, some index =>
        if segmentsPerXlogid ≤ index.toNat then
          .error ("physical backup WAL filename has a segment index outside the configured " ++
            "WAL segment size")
        else
          .ok ⟨timeline.toNat,
            (log.toNat * segmentsPerXlogid % 2 ^ 64 + index.toNat) % 2 ^ 64⟩
      | _, _, _ => .error malformed

section Visit

variable {σ : Type}

/-- A visitor gets its context and a name, and fails with a status other than
zero. -/
abbrev Visitor (σ : Type) := σ → List UInt8 → Int × σ

/-- The status, the message of `set_error` and the visitor's context. -/
structure Result (σ : Type) where
  status : Int
  error : Option String
  context : σ

/-- The call of a visitor, which may be the null pointer. -/
def call (visitor : Option (Visitor σ)) (context : σ) (walFile : List UInt8) : Int × σ :=
  match visitor with
  | none => (0, context)
  | some visit => visit context walFile

/-- What `snprintf` writes into the 25 bytes of `wal_file`. -/
def walFileName (timeline log segment : Nat) : List UInt8 :=
  ((Hex.format 8 timeline ++ (Hex.format 8 (log % 2 ^ 32) ++
    Hex.format 8 (segment % 2 ^ 32))).map byte).take 24

def visitLoop (timeline segmentsPerXlogid stop : Nat) (visitor : Option (Visitor σ))
    (ordinal : Nat) (hle : ordinal ≤ stop) (context : σ) : Result σ :=
  let visited := call visitor context (walFileName timeline (ordinal / segmentsPerXlogid)
    (ordinal % segmentsPerXlogid))
  if visited.1 ≠ 0 then ⟨-1, none, visited.2⟩
  else if hlast : ordinal = stop then ⟨0, none, visited.2⟩
  else visitLoop timeline segmentsPerXlogid stop visitor (ordinal + 1) (by omega) visited.2
termination_by stop - ordinal

def visitWalRange (startWalFile stopWalFile : Option (List UInt8)) (walSegmentSize : Nat)
    (visitor : Option (Visitor σ)) (context : σ) : Result σ :=
  if walSegmentSize < 1024 * 1024 ∨ 1024 * 1024 * 1024 < walSegmentSize ∨
      walSegmentSize &&& (walSegmentSize - 1) ≠ 0 ∨ 2 ^ 32 % walSegmentSize ≠ 0 then
    ⟨-1, some "physical backup returned an invalid WAL segment size", context⟩
  else
    let segmentsPerXlogid := 2 ^ 32 / walSegmentSize
    match parseWalFile startWalFile segmentsPerXlogid with
    | .error message => ⟨-1, some message, context⟩
    | .ok start =>
      match parseWalFile stopWalFile segmentsPerXlogid with
      | .error message => ⟨-1, some message, context⟩
      | .ok stop =>
        if start.timeline ≠ stop.timeline then
          ⟨-1, some "physical backup WAL range changes timeline", context⟩
        else if hreversed : stop.segment < start.segment then
          ⟨-1, some "physical backup returned a reversed WAL range", context⟩
        else
          visitLoop start.timeline segmentsPerXlogid stop.segment visitor start.segment
            (Nat.le_of_not_lt hreversed) context

/-- The calls for a list of names: each in turn, until one fails. -/
def visitAll (visitor : Option (Visitor σ)) : List (List UInt8) → σ → Result σ
  | [], context => ⟨0, none, context⟩
  | name :: names, context =>
    let visited := call visitor context name
    if visited.1 ≠ 0 then ⟨-1, none, visited.2⟩ else visitAll visitor names visited.2

end Visit

/-- The character of a byte. -/
def toChar (b : UInt8) : Char := Char.ofNat b.toNat

theorem digitValue_eq (b : UInt8) :
    digitValue b = (Hex.digit? (toChar b)).map UInt32.ofNat := by
  have hall : ∀ n < 256, digitValue (UInt8.ofNat n) =
      (Hex.digit? (toChar (UInt8.ofNat n))).map UInt32.ofNat := by
    decide +kernel
  have h := hall b.toNat b.toNat_lt
  rwa [UInt8.ofNat_toNat] at h

variable {n : Nat} {p : Position} {c : Char}

theorem shift_or_toNat {part : UInt32} (hpart : part.toNat < 2 ^ 28) (hn : n < 16) :
    ((part <<< 4) ||| UInt32.ofNat n).toNat = part.toNat * 16 + n := by
  have hshift : (part <<< 4).toNat = part.toNat <<< 4 := by
    show part.toNat <<< 4 % 2 ^ 32 = part.toNat <<< 4
    omega
  have hvalue : (UInt32.ofNat n).toNat = n := by
    rw [UInt32.toNat_ofNat']
    omega
  rw [UInt32.toNat_or, hshift, hvalue, ← Nat.shiftLeft_add_eq_or_of_lt hn, Nat.shiftLeft_eq]

/-- Eight digits fit into 32 bits, so that the shifts compute the number. -/
theorem parsePart_eq (bytes : List UInt8) (part : UInt32)
    (h : (part.toNat + 1) * 16 ^ bytes.length ≤ 2 ^ 32) :
    (parsePart part bytes).map UInt32.toNat =
      if (bytes.map toChar).all Hex.isDigit = true then
        some ((bytes.map toChar).foldl (fun number c => number * 16 + (Hex.digit? c).getD 0)
          part.toNat)
      else none := by
  induction bytes generalizing part with
  | nil => rfl
  | cons b bytes ih =>
    rw [parsePart, digitValue_eq]
    cases hdigit : Hex.digit? (toChar b) with
    | none => simp [Hex.isDigit, hdigit]
    | some n =>
      have hn := (Hex.digitChar_of_digit? hdigit).2
      have hpow : 0 < 16 ^ bytes.length := Nat.pow_pos (by omega)
      rw [length_cons, Nat.pow_succ, ← Nat.mul_assoc, Nat.mul_right_comm] at h
      have hpart : part.toNat < 2 ^ 28 := by
        have : (part.toNat + 1) * 16 * 1 ≤ (part.toNat + 1) * 16 * 16 ^ bytes.length :=
          Nat.mul_le_mul_left _ hpow
        omega
      have hnext := shift_or_toNat hpart hn
      have hbound : (part.toNat * 16 + n + 1) * 16 ^ bytes.length ≤ 2 ^ 32 :=
        Nat.le_trans (Nat.mul_le_mul_right _ (by omega)) h
      show (parsePart ((part <<< 4) ||| UInt32.ofNat n) bytes).map UInt32.toNat = _
      rw [ih _ (by rw [hnext]; exact hbound), hnext, map_cons, all_cons, foldl_cons,
        hdigit]
      simp [Hex.isDigit, hdigit]

variable {bytes : List UInt8}

theorem parsePart_value (h : bytes.length = 8) :
    (parsePart 0 bytes).map UInt32.toNat =
      if (bytes.map toChar).all Hex.isDigit = true then some (Hex.value (bytes.map toChar))
      else none := by
  refine parsePart_eq bytes 0 ?_
  rw [h]
  decide

theorem all_parts (text : List Char) : text.all Hex.isDigit = true ↔
    (text.take 8).all Hex.isDigit = true ∧ ((text.drop 8).take 8).all Hex.isDigit = true ∧
      (text.drop 16).all Hex.isDigit = true := by
  have hsplit : text = text.take 8 ++ ((text.drop 8).take 8 ++ text.drop 16) := by
    rw [show 16 = 8 + 8 from rfl, ← drop_drop, take_append_drop, take_append_drop]
  rw [← Bool.and_eq_true, ← Bool.and_eq_true, ← all_append, ← all_append, ← hsplit]

theorem exists_of_map_eq_some (h : o.map UInt32.toNat = some n) :
    ∃ x, o = some x ∧ x.toNat = n := by
  cases o with
  | none => cases h
  | some x => exact ⟨x, rfl, Option.some.inj h⟩

variable {perLog : Nat}

/-- The C parser reads every name, -/
theorem parseWalFile_ok (hle : perLog ≤ 2 ^ 12) (h : position? perLog (bytes.map toChar) = some p) :
    parseWalFile (some bytes) perLog = .ok p := by
  unfold position? at h
  split_ifs at h with hname
  obtain ⟨hlength, hall, hindex⟩ := hname
  rw [length_map] at hlength
  rw [all_parts] at hall
  obtain ⟨hall₁, hall₂, hall₃⟩ := hall
  simp only [← map_take, ← map_drop] at h hall₁ hall₂ hall₃ hindex
  have h₁ := @parsePart_value (bytes.take 8) (by simp [hlength])
  have h₂ := @parsePart_value ((bytes.drop 8).take 8) (by simp [hlength])
  have h₃ := @parsePart_value (bytes.drop 16) (by simp [hlength])
  rw [if_pos hall₁] at h₁
  rw [if_pos hall₂] at h₂
  rw [if_pos hall₃] at h₃
  obtain ⟨timeline, htimeline, hvalue₁⟩ := exists_of_map_eq_some h₁
  obtain ⟨log, hlog, hvalue₂⟩ := exists_of_map_eq_some h₂
  obtain ⟨index, hparsed, hvalue₃⟩ := exists_of_map_eq_some h₃
  rw [← hvalue₁, ← hvalue₂, ← hvalue₃] at h
  rw [← hvalue₃] at hindex
  have hlogBound : log.toNat * perLog ≤ 2 ^ 32 * 2 ^ 12 :=
    Nat.mul_le_mul (Nat.le_of_lt log.toNat_lt) hle
  have hword : (log.toNat * perLog % 2 ^ 64 + index.toNat) % 2 ^ 64 =
      log.toNat * perLog + index.toNat := by
    omega
  simp only [parseWalFile, hlength, ne_eq, not_true_eq_false, if_false, htimeline, hlog, hparsed,
    if_neg (Nat.not_le.mpr hindex), hword]
  exact congrArg Except.ok (Option.some.inj h)

theorem all_of_parsePart (hlength : bytes.length = 8) (h : parsePart 0 bytes = some x) :
    (bytes.map toChar).all Hex.isDigit = true ∧ x.toNat = Hex.value (bytes.map toChar) := by
  have hvalue := parsePart_value hlength
  rw [h] at hvalue
  split_ifs at hvalue with hall
  · exact ⟨hall, Option.some.inj hvalue⟩
  · cases hvalue

theorem parseWalFile_error (h : position? perLog (bytes.map toChar) = none) :
    ∃ message, parseWalFile (some bytes) perLog = .error message := by
  unfold position? at h
  split_ifs at h with hname
  by_cases hlength : bytes.length = 24
  · simp only [parseWalFile, hlength, ne_eq, not_true_eq_false, if_false]
    cases htimeline : parsePart 0 (bytes.take 8) with
    | none => exact ⟨_, rfl⟩
    | some timeline =>
      cases hlog : parsePart 0 ((bytes.drop 8).take 8) with
      | none => exact ⟨_, rfl⟩
      | some log =>
        cases hindex : parsePart 0 (bytes.drop 16) with
        | none => exact ⟨_, rfl⟩
        | some index =>
          -- all digits are well formed, so that only the index can be wrong
          obtain ⟨hall₁, -⟩ := all_of_parsePart (by simp [hlength]) htimeline
          obtain ⟨hall₂, -⟩ := all_of_parsePart (by simp [hlength]) hlog
          obtain ⟨hall₃, hvalue⟩ := all_of_parsePart (by simp [hlength]) hindex
          simp only [map_take, map_drop] at hall₁ hall₂ hall₃ hvalue
          have hlarge : perLog ≤ index.toNat := by
            rw [hvalue]
            refine Nat.le_of_not_lt fun hlt => hname ⟨?_, ?_, hlt⟩
            · rw [length_map, hlength]
            · exact (all_parts _).mpr ⟨hall₁, hall₂, hall₃⟩
          simp only [if_pos hlarge]
          exact ⟨_, rfl⟩
  · exact ⟨malformed, if_pos hlength⟩

theorem ascii_of_isDigit (h : Hex.isDigit c = true) : c.toNat < 0x80 := by
  obtain ⟨n, hn⟩ := Option.isSome_iff_exists.mp h
  obtain ⟨rfl, hlt⟩ := Hex.digitChar_of_digit? hn
  have hall : ∀ n < 16, (Hex.digitChar n).toNat < 0x80 := by decide
  exact hall n hlt

theorem encode_name (perLog : Nat) (p : Position) :
    Utf8.encode (name perLog p) = (name perLog p).map byte :=
  Utf8.encode_ascii fun _ hc =>
    ascii_of_isDigit (all_eq_true.mp (Wal.name_all p) _ hc)

theorem toChar_byte (h : c.toNat < 0x80) : toChar (byte c) = c := by
  rw [toChar, Utf8.toNat_byte h, Char.ofNat_toNat]

theorem map_toChar_name (perLog : Nat) (p : Position) :
    (Utf8.encode (name perLog p)).map toChar = name perLog p := by
  rw [encode_name, map_map]
  refine (map_congr_left fun c hc => ?_).trans (map_id _)
  exact toChar_byte (ascii_of_isDigit (all_eq_true.mp (Wal.name_all p) c hc))

theorem walFileName_eq (hpos : 0 < perLog) (hle : perLog ≤ 2 ^ 32)
    (h : Position.Valid perLog ⟨timeline, ordinal⟩) :
    walFileName timeline (ordinal / perLog) (ordinal % perLog) =
      Utf8.encode (name perLog ⟨timeline, ordinal⟩) := by
  have hwidth : (2 : Nat) ^ 32 = 16 ^ 8 := by decide
  have hlog : ordinal / perLog < 2 ^ 32 :=
    Nat.div_lt_of_lt_mul (by rw [Nat.mul_comm]; exact h.segment_lt)
  have hindex := Nat.lt_of_lt_of_le (Nat.mod_lt ordinal hpos) hle
  have htimeline : timeline < 2 ^ 32 := h.timeline_lt
  rw [walFileName, Nat.mod_eq_of_lt hlog, Nat.mod_eq_of_lt hindex]
  rw [Hex.format_eq_digits (by omega) htimeline, Hex.format_eq_digits (by omega) hlog,
    Hex.format_eq_digits (by omega) hindex, encode_name]
  refine take_of_length_le ?_
  exact Nat.le_of_eq (@Wal.name_length perLog ⟨timeline, ordinal⟩)

theorem name_of_parseWalFile (hle : perLog ≤ 2 ^ 12) (h : parseWalFile file perLog = .ok p) :
    p.Valid perLog ∧ file = some (Utf8.encode (name perLog p)) := by
  cases file with
  | none => cases h
  | some bytes =>
    cases hposition : position? perLog (bytes.map toChar) with
    | none =>
      obtain ⟨message, herror⟩ := parseWalFile_error hposition
      cases herror.symm.trans h
    | some q =>
      obtain rfl : q = p := Except.ok.inj ((parseWalFile_ok hle hposition).symm.trans h)
      obtain ⟨hvalid, hname⟩ := Wal.name_of_position? hposition
      have hbyte (b : UInt8) : byte (toChar b) = b := by
        have hall : ∀ n < 256, byte (toChar (UInt8.ofNat n)) = UInt8.ofNat n := by decide +kernel
        have := hall b.toNat b.toNat_lt
        rwa [UInt8.ofNat_toNat] at this
      refine ⟨hvalid, congrArg some ?_⟩
      rw [encode_name, ← hname, map_map]
      exact ((map_congr_left fun b _ => hbyte b).trans (map_id _)).symm

section Visit

variable {σ : Type} {timeline size : Nat}

/-- The loop visits the names in order and stops at the first error. -/
theorem visitLoop_eq (hpos : 0 < perLog) (hperLog : perLog ≤ 2 ^ 32)
    (hstop : Position.Valid perLog ⟨timeline, stop⟩) (visitor : Option (Visitor σ)) (ordinal : Nat)
    (hle : ordinal ≤ stop) (context : σ) :
    visitLoop timeline perLog stop visitor ordinal hle context =
      visitAll visitor ((range perLog timeline ordinal stop).map Utf8.encode) context := by
  induction hleft : stop - ordinal generalizing ordinal context with
  | zero =>
    obtain rfl : ordinal = stop := by omega
    rw [visitLoop, Wal.range_cons _ _ _ _ hle, Wal.range_empty _ _ _ _ (by omega),
      walFileName_eq hpos hperLog hstop, map_cons, map_nil, visitAll]
    simp only [dif_pos, visitAll]
  | succ left ih =>
    have hvalid : Position.Valid perLog ⟨timeline, ordinal⟩ :=
      ⟨hstop.timeline_lt, Nat.lt_of_le_of_lt hle hstop.segment_lt⟩
    have hne : ordinal ≠ stop := by omega
    rw [visitLoop, Wal.range_cons _ _ _ _ hle, walFileName_eq hpos hperLog hvalid, map_cons,
      visitAll]
    simp only [dif_neg hne]
    rw [ih (ordinal + 1) (by omega) _ (by omega)]

/-- The size check of the source, with its last condition implied by the others. -/
theorem validSize_iff (size : Nat) :
    Wal.ValidSize size ↔ ¬ (size < 1024 * 1024 ∨ 1024 * 1024 * 1024 < size ∨
      size &&& (size - 1) ≠ 0 ∨ 2 ^ 32 % size ≠ 0) := by
  have hand := Wal.validSize_iff_and size
  constructor
  · intro h
    have hdvd := h.dvd
    have hbits := hand.mp h
    omega
  · intro h
    exact hand.mpr fun hbits => h (by omega)

/-- **The range of a valid request** is visited once, in order and completely. -/
theorem visitWalRange_covers (h : Covers size start stop timeline first last)
    (visitor : Option (Visitor σ)) (context : σ) :
    visitWalRange (some (Utf8.encode start)) (some (Utf8.encode stop)) size visitor context =
      visitAll visitor ((range (segmentsPerLog size) timeline first last).map Utf8.encode)
        context := by
  obtain ⟨hpos, hbound⟩ := h.size_valid.segmentsPerLog_bounds
  have hstart : parseWalFile (some (Utf8.encode start)) (segmentsPerLog size) =
      .ok ⟨timeline, first⟩ := by
    refine parseWalFile_ok hbound ?_
    rw [h.start_eq, map_toChar_name, ← h.start_eq]
    exact h.position?_start
  have hstop : parseWalFile (some (Utf8.encode stop)) (segmentsPerLog size) =
      .ok ⟨timeline, last⟩ := by
    refine parseWalFile_ok hbound ?_
    rw [h.stop_eq, map_toChar_name, ← h.stop_eq]
    exact h.position?_stop
  have hloop := visitLoop_eq hpos h.size_valid.segmentsPerLog_le h.stop_valid visitor first
    h.first_le context
  rw [← hloop, visitWalRange, if_neg ((validSize_iff size).mp h.size_valid)]
  unfold segmentsPerLog at hstart hstop ⊢
  simp only [hstart, hstop, ne_eq, not_true_eq_false, if_false,
    dif_neg (Nat.not_lt.mpr h.first_le)]

/-- Every other request fails before a name is visited. -/
theorem visitWalRange_refuses
    (h : ¬ ∃ start stop timeline first last, startFile = some (Utf8.encode start) ∧
      stopFile = some (Utf8.encode stop) ∧ Covers size start stop timeline first last)
    (visitor : Option (Visitor σ)) (context : σ) :
    ∃ message, visitWalRange startFile stopFile size visitor context =
      ⟨-1, some message, context⟩ := by
  by_cases hsize : Wal.ValidSize size
  · have hbound := hsize.segmentsPerLog_bounds.2
    rw [visitWalRange, if_neg ((validSize_iff size).mp hsize)]
    have hperLog : 2 ^ 32 / size = segmentsPerLog size := rfl
    simp only [hperLog]
    cases hstart : parseWalFile startFile (segmentsPerLog size) with
    | error message => exact ⟨message, rfl⟩
    | ok p =>
      cases hstop : parseWalFile stopFile (segmentsPerLog size) with
      | error message => exact ⟨message, rfl⟩
      | ok q =>
        by_cases htimeline : p.timeline = q.timeline
        · by_cases hreversed : q.segment < p.segment
          · simp only [htimeline, ne_eq, not_true_eq_false, if_false, dif_pos hreversed]
            exact ⟨_, rfl⟩
          · obtain ⟨hpValid, hpName⟩ := name_of_parseWalFile hbound hstart
            obtain ⟨hqValid, hqName⟩ := name_of_parseWalFile hbound hstop
            obtain ⟨timeline, first⟩ := p
            obtain ⟨_, last⟩ := q
            obtain rfl : timeline = _ := htimeline
            exact absurd ⟨_, _, timeline, first, last, hpName, hqName,
              ⟨hsize, hpValid, rfl, hqValid, rfl, Nat.le_of_not_lt hreversed⟩⟩ h
        · simp only [ne_eq, htimeline, not_false_eq_true, if_true]
          exact ⟨_, rfl⟩
  · rw [validSize_iff, Classical.not_not] at hsize
    rw [visitWalRange, if_pos hsize]
    exact ⟨_, rfl⟩

end Visit

end Oliphaunt.NativeWal
