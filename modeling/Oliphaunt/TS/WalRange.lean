import Oliphaunt.Model.Double
import Oliphaunt.Model.WalSegments
import Oliphaunt.TS.OpfsPool

/-!
# The WAL range of a backup in TypeScript

`parseWalName` and `requiredBackupWalNames` of `storage/physical-archive.ts`.
The number of a segment is a double; `toDouble_segment` says that no number of a
segment is rounded. An array takes as many names as the engine can grow it to
(`capacity`), and one more push throws.

* `requiredBackupWalNames_covers` — the answer for two names of one timeline;
* `requiredBackupWalNames_refuses` — every other request is an error.
-/

namespace Oliphaunt.WalRange

open List Double
open Wal (Covers Position ValidSize position? range segmentsPerLog)

open OpfsPool (stringify)

/-- Read a name. The numbers of segments go through `round`, and `print` prints a
name that is refused. -/
def parseName (round : Nat → Nat) (print : String → String) (name : String)
    (segmentSize : Nat) : Except String Position :=
  let text := name.toList
  let invalid := "PostgreSQL returned an invalid WAL filename " ++ print name
  if text.length ≠ 24 ∨ text.all Hex.isDigit = false then .error invalid
  else
    let timeline := Hex.value (text.take 8)
    let log := Hex.value ((text.drop 8).take 8)
    let index := Hex.value (text.drop 16)
    let segmentsPerLog := 0x100000000 / segmentSize
    if segmentsPerLog ≤ index then .error invalid
    else .ok ⟨timeline, round (round (log * segmentsPerLog) + index)⟩

/-- The checks of a request; `collect` gets the timeline, the first segment and the
last one. -/
def requiredNames (validSize : Bool) (parse : String → Except String Position)
    (collect : Nat → Nat → Nat → Except String (List String)) (startName stopName : String) :
    Except String (List String) :=
  if validSize then do
    let start ← parse startName
    let stop ← parse stopName
    if start.timeline ≠ stop.timeline then .error "physical backup WAL range crosses timelines"
    else if stop.segment < start.segment then .error "physical backup WAL range is reversed"
    else collect start.timeline start.segment stop.segment
  else .error "PostgreSQL returned an invalid WAL segment size"

def parseWalName : String → Nat → Except String Position := parseName toDouble stringify

/-- Three numbers of eight digits each, in upper case. -/
def walName (timeline log index : Nat) : String :=
  String.ofList (Hex.format 8 timeline ++ (Hex.format 8 log ++ Hex.format 8 index))

/-- The loop that pushes the names, from `segment` on. No array of JavaScript has
2^32 elements, and engines stop earlier: `capacity` is the engine's. -/
def pushNames (capacity timeline segmentsPerLog stop segment : Nat) (names : List String) :
    Except String (List String) :=
  if segment ≤ stop then
    if names.length < capacity then
      pushNames capacity timeline segmentsPerLog stop (segment + 1)
        (names ++ [walName timeline (segment / segmentsPerLog) (segment % segmentsPerLog)])
    else .error "Invalid array length"
  else .ok names
termination_by stop + 1 - segment

/-- `segmentSize` is `none` where the source has no safe integer. -/
def requiredBackupWalNames (capacity : Nat) (startName stopName : String)
    (segmentSize : Option Nat) : Except String (List String) :=
  match segmentSize with
  | none => .error "PostgreSQL returned an invalid WAL segment size"
  | some segmentSize =>
    requiredNames
      (¬ (segmentSize < 1024 * 1024 ∨ 1024 * 1024 * 1024 < segmentSize ∨
        segmentSize &&& (segmentSize - 1) ≠ 0))
      (parseWalName · segmentSize)
      (fun timeline first last =>
        pushNames capacity timeline (0x100000000 / segmentSize) last first [])
      startName stopName

variable {size segment perLog timeline capacity : Nat} {start : String}

/-- No number of a segment that can be named is rounded. -/
theorem toDouble_segment (hsize : ValidSize size) (h : segment < 2 ^ 32 * segmentsPerLog size) :
    toDouble segment = segment ∧ toDouble (segment + 1) = segment + 1 := by
  have hbound : segment < 2 ^ 44 :=
    calc segment < 2 ^ 32 * segmentsPerLog size := h
      _ ≤ 2 ^ 32 * 2 ^ 12 := Nat.mul_le_mul_left _ hsize.segmentsPerLog_bounds.2
      _ = 2 ^ 44 := by decide
  exact ⟨toDouble_of_lt (by omega), toDouble_of_lt (by omega)⟩

/-- The reading of a name where the numbers of segments are exact. -/
theorem parseName_eq {round : Nat → Nat} (hround : ∀ n < 2 ^ 32 * segmentsPerLog size, round n = n)
    (print : String → String) (name : String) : parseName round print name size =
      (position? (segmentsPerLog size) name.toList).elim
        (.error ("PostgreSQL returned an invalid WAL filename " ++ print name)) .ok := by
  have hperLog : 0x100000000 / size = segmentsPerLog size := rfl
  simp only [parseName, hperLog]
  by_cases hformat : name.toList.length ≠ 24 ∨ name.toList.all Hex.isDigit = false
  · have hposition : position? (segmentsPerLog size) name.toList = none :=
      if_neg fun h => hformat.elim (· h.1) (by rw [h.2.1]; exact nofun)
    rw [if_pos hformat, hposition]
    rfl
  · by_cases hindex : segmentsPerLog size ≤ Hex.value (name.toList.drop 16)
    · have hposition : position? (segmentsPerLog size) name.toList = none :=
        if_neg fun h => absurd h.2.2 (Nat.not_lt.mpr hindex)
      rw [if_neg hformat, if_pos hindex, hposition]
      rfl
    · have hposition : position? (segmentsPerLog size) name.toList = some _ :=
        if_pos ⟨by omega, by simpa using fun h => hformat (.inr h), Nat.lt_of_not_le hindex⟩
      have hsegment := (Wal.name_of_position? hposition).1.segment_lt
      rw [if_neg hformat, if_neg hindex, hposition,
        hround _ (Nat.lt_of_le_of_lt (Nat.le_add_right _ _) hsegment), hround _ hsegment]
      rfl

theorem parseWalName_eq (hsize : ValidSize size) (name : String) : parseWalName name size =
      (position? (segmentsPerLog size) name.toList).elim
        (.error ("PostgreSQL returned an invalid WAL filename " ++ stringify name)) .ok :=
  parseName_eq (fun _ h => (toDouble_segment hsize h).1) stringify name

theorem walName_eq (hpos : 0 < perLog) (hle : perLog ≤ 2 ^ 32)
    (h : Position.Valid perLog ⟨timeline, segment⟩) :
    walName timeline (segment / perLog) (segment % perLog) =
      String.ofList (Wal.name perLog ⟨timeline, segment⟩) := by
  have hwidth : (2 : Nat) ^ 32 = 16 ^ 8 := by decide
  have hlog : segment / perLog < 2 ^ 32 :=
    Nat.div_lt_of_lt_mul (by rw [Nat.mul_comm]; exact h.segment_lt)
  have hindex := Nat.mod_lt segment hpos
  have htimeline : timeline < 2 ^ 32 := h.timeline_lt
  rw [walName, Hex.format_eq_digits (by omega) htimeline, Hex.format_eq_digits (by omega) hlog,
    Hex.format_eq_digits (by omega) (Nat.lt_of_lt_of_le hindex hle)]
  rfl

/-- The loop pushes the names of the segments that are left, unless the array
gets too long. -/
theorem pushNames_eq (hpos : 0 < perLog) (hle : perLog ≤ 2 ^ 32)
    (hstop : Position.Valid perLog ⟨timeline, stop⟩) (segment : Nat) (names : List String)
    (hnames : names.length ≤ capacity) : pushNames capacity timeline perLog stop segment names =
      if names.length + (stop + 1 - segment) ≤ capacity then
        .ok (names ++ (range perLog timeline segment stop).map String.ofList)
      else .error "Invalid array length" := by
  induction hleft : stop + 1 - segment generalizing segment names with
  | zero =>
    rw [pushNames, if_neg (by omega), if_pos (by omega),
      Wal.range_empty _ _ _ _ (by omega), map_nil, append_nil]
  | succ left ih =>
    have hsegment : segment ≤ stop := by omega
    have hvalid : Position.Valid perLog ⟨timeline, segment⟩ :=
      ⟨hstop.timeline_lt, Nat.lt_of_le_of_lt hsegment hstop.segment_lt⟩
    rw [pushNames, if_pos hsegment]
    by_cases hroom : names.length < capacity
    · rw [if_pos hroom, walName_eq hpos hle hvalid,
        ih (segment + 1) _ (by rw [length_append]; exact hroom) (by omega),
        Wal.range_cons _ _ _ _ hsegment]
      simp only [length_append, length_singleton, map_cons, append_assoc,
        singleton_append, Nat.add_assoc, Nat.add_comm 1 left]
    · rw [if_neg hroom, if_neg (by omega)]

section Request

variable {size : Nat} {start stop : String} {parse : String → Except String Position}
  {invalid : String → String}

theorem requiredNames_covers (h : Covers size start.toList stop.toList timeline first last)
    (hparse : ∀ name, parse name =
      (position? (segmentsPerLog size) name.toList).elim (.error (invalid name)) .ok)
    (collect : Nat → Nat → Nat → Except String (List String)) :
    requiredNames true parse collect start stop = collect timeline first last := by
  rw [requiredNames, if_pos rfl, hparse, hparse, h.position?_start, h.position?_stop]
  simp only [Option.elim, bind, Except.bind, ne_eq, not_true_eq_false, if_false,
    if_neg (Nat.not_lt.mpr h.first_le)]

theorem requiredNames_refuses (hvalid : validSize = true → ValidSize size)
    (h : ¬ ∃ timeline first last, Covers size start.toList stop.toList timeline first last)
    (hparse : ValidSize size → ∀ name, parse name =
      (position? (segmentsPerLog size) name.toList).elim (.error (invalid name)) .ok)
    (collect : Nat → Nat → Nat → Except String (List String)) :
    ∃ message, requiredNames validSize parse collect start stop = .error message := by
  cases validSize with
  | false => exact ⟨_, rfl⟩
  | true =>
    rw [requiredNames, if_pos rfl, hparse (hvalid rfl), hparse (hvalid rfl)]
    rcases Wal.request size start.toList stop.toList with
      hsize | ⟨-, hnone⟩ | ⟨-, hstart, hnone⟩ | ⟨-, hstart, hstop, htimeline⟩ |
      ⟨-, hstart, hstop, htimeline, hlt⟩ | ⟨timeline, first, last, hcovers⟩
    · exact absurd (hvalid rfl) hsize
    · rw [hnone]
      exact ⟨_, rfl⟩
    · rw [hstart, hnone]
      exact ⟨_, rfl⟩
    · rw [hstart, hstop]
      simp only [Option.elim, bind, Except.bind, if_pos htimeline]
      exact ⟨_, rfl⟩
    · rw [hstart, hstop]
      simp only [Option.elim, bind, Except.bind, ne_eq, htimeline, not_true_eq_false, if_false,
        if_pos hlt]
      exact ⟨_, rfl⟩
    · exact absurd ⟨timeline, first, last, hcovers⟩ h

end Request

theorem requiredBackupWalNames_covers (capacity : Nat)
    (h : Covers size start.toList stop.toList timeline first last) :
    requiredBackupWalNames capacity start stop (some size) =
      if last + 1 - first ≤ capacity then
        .ok ((range (segmentsPerLog size) timeline first last).map String.ofList)
      else .error "Invalid array length" := by
  have hloop := pushNames_eq h.size_valid.segmentsPerLog_bounds.1 h.size_valid.segmentsPerLog_le
    h.stop_valid first [] (Nat.zero_le capacity)
  rw [length_nil, Nat.zero_add, nil_append] at hloop
  rw [← hloop, requiredBackupWalNames,
    decide_eq_true ((Wal.validSize_iff_and size).mp h.size_valid)]
  exact requiredNames_covers h (parseWalName_eq h.size_valid) _

theorem requiredBackupWalNames_refuses (capacity : Nat) (h : ∀ size, segmentSize = some size →
      ¬ ∃ timeline first last, Covers size start.toList stop.toList timeline first last) :
    ∃ message, requiredBackupWalNames capacity start stop segmentSize = .error message := by
  cases segmentSize with
  | none => exact ⟨_, rfl⟩
  | some size =>
    rw [requiredBackupWalNames]
    exact requiredNames_refuses
      (fun hvalid => (Wal.validSize_iff_and size).mpr (of_decide_eq_true hvalid)) (h size rfl)
      parseWalName_eq _

end Oliphaunt.WalRange
