import Oliphaunt.Native.WalRange
import Oliphaunt.TS.WalRange

/-!
# The WAL range of a backup in Rust, and in all three

`parse_wal_name` and `required_backup_wal_names` of `data_dir.rs`. The names are
pushed to a vector whose memory is reserved before; `reserve` says whether the
count fits a `usize` and the allocator grants it.

* `requiredBackupWalNames_covers`, `requiredBackupWalNames_refuses` — as for the
  other two;
* `wal_range_exact` — TypeScript, C and Rust enumerate the same segments;
* `long_range_refused` — valid ranges that are refused for their length.
-/

namespace Oliphaunt.RustWal

open WalRange (parseName requiredNames walName)
open Wal (Covers ValidSize name range segmentsPerLog)

section

-- How `{name:?}` prints a name, and whether memory for so many names can be reserved.
variable (debug : String → String) (reserve : Nat → Bool)

/-- The source checks bytes: a name of 24 digits is ASCII, so that its bytes are its
characters. The numbers are of 64 bits. -/
def parseWalName : String → Nat → Except String Wal.Position := parseName (· % 2 ^ 64) debug

def requiredBackupWalNames (startName stopName : String) (segmentSize : Nat) :
    Except String (List String) :=
  requiredNames
    (1024 * 1024 ≤ segmentSize ∧ segmentSize ≤ 1024 * 1024 * 1024 ∧
      segmentSize = 2 ^ segmentSize.log2)
    (parseWalName debug · segmentSize)
    (fun timeline first last =>
      let segmentsPerLog := 2 ^ 32 / segmentSize
      let count := last - first + 1
      if reserve count then
        .ok ((List.range' first count).map fun segment =>
          walName timeline (segment / segmentsPerLog) (segment % segmentsPerLog))
      else .error "physical backup WAL range is too large")
    startName stopName

theorem validSize_iff (size : Nat) :
    ValidSize size ↔ 1024 * 1024 ≤ size ∧ size ≤ 1024 * 1024 * 1024 ∧
      size = 2 ^ size.log2 := by
  constructor
  · rintro ⟨hlow, hhigh, k, rfl⟩
    exact ⟨hlow, hhigh, by rw [Nat.log2_two_pow]⟩
  · rintro ⟨hlow, hhigh, hpow⟩
    exact ⟨hlow, hhigh, size.log2, hpow⟩

variable {size : Nat} {start : String}

theorem parseWalName_eq (hsize : ValidSize size) (name : String) : parseWalName debug name size =
      (Wal.position? (segmentsPerLog size) name.toList).elim
        (.error ("PostgreSQL returned an invalid WAL filename " ++ debug name)) .ok := by
  refine WalRange.parseName_eq (fun n hn => Nat.mod_eq_of_lt ?_) debug name
  calc n < 2 ^ 32 * segmentsPerLog size := hn
    _ ≤ 2 ^ 32 * 2 ^ 12 := Nat.mul_le_mul_left _ hsize.segmentsPerLog_bounds.2
    _ ≤ 2 ^ 64 := by decide

theorem requiredBackupWalNames_covers
    (h : Covers size start.toList stop.toList timeline first last) :
    requiredBackupWalNames debug reserve start stop size =
      if reserve (last + 1 - first) then
        .ok ((range (segmentsPerLog size) timeline first last).map String.ofList)
      else .error "physical backup WAL range is too large" := by
  have hcount : last - first + 1 = last + 1 - first := by
    have := h.first_le
    omega
  have hnames : ((List.range' first (last + 1 - first)).map fun segment =>
      walName timeline (segment / (2 ^ 32 / size)) (segment % (2 ^ 32 / size))) =
      (range (segmentsPerLog size) timeline first last).map String.ofList := by
    rw [range, List.map_map]
    refine List.map_congr_left fun segment hsegment => ?_
    rw [List.mem_range'_1] at hsegment
    exact WalRange.walName_eq h.size_valid.segmentsPerLog_bounds.1 h.size_valid.segmentsPerLog_le
      (h.valid (by omega))
  rw [requiredBackupWalNames, decide_eq_true ((validSize_iff size).mp h.size_valid),
    WalRange.requiredNames_covers h (parseWalName_eq debug h.size_valid)]
  simp only [hcount, hnames]

theorem requiredBackupWalNames_refuses
    (h : ¬ ∃ timeline first last, Covers size start.toList stop.toList timeline first last) :
    ∃ message, requiredBackupWalNames debug reserve start stop size = .error message :=
  WalRange.requiredNames_refuses
    (fun hvalid => (validSize_iff size).mpr (of_decide_eq_true hvalid)) h (parseWalName_eq debug) _

end

/-- **One enumeration.** For two names of one timeline the three enumerations give
the same names, those of all segments from the first to the last, and each of the
names is read back as its segment by all three; no number of a segment is rounded.
TypeScript needs an array that takes the names and Rust the memory for them, and
each refuses the whole range otherwise. Every other request is an error in all
three. -/
theorem wal_range_exact (debug : String → String) (reserve : Nat → Bool) (capacity : Nat) :
    (∀ size start stop timeline first last,
      Covers size start stop timeline first last →
        (∀ segment, first ≤ segment → segment ≤ last →
          Double.toDouble (segment + 1) = segment + 1 ∧
          WalRange.parseWalName
              (String.ofList (name (segmentsPerLog size) ⟨timeline, segment⟩)) size =
            .ok ⟨timeline, segment⟩ ∧
          NativeWal.parseWalFile
              (some (Utf8.encode (name (segmentsPerLog size) ⟨timeline, segment⟩)))
              (2 ^ 32 / size) =
            .ok ⟨timeline, segment⟩ ∧
          parseWalName debug
              (String.ofList (name (segmentsPerLog size) ⟨timeline, segment⟩)) size =
            .ok ⟨timeline, segment⟩) ∧
        WalRange.requiredBackupWalNames capacity (String.ofList start) (String.ofList stop)
            (some size) =
          (if last + 1 - first ≤ capacity then
            .ok ((range (segmentsPerLog size) timeline first last).map String.ofList)
          else .error "Invalid array length") ∧
        (∀ (σ : Type) (visitor : Option (NativeWal.Visitor σ)) (context : σ),
          NativeWal.visitWalRange (some (Utf8.encode start)) (some (Utf8.encode stop)) size
              visitor context =
            NativeWal.visitAll visitor
              ((range (segmentsPerLog size) timeline first last).map Utf8.encode)
              context) ∧
        requiredBackupWalNames debug reserve (String.ofList start) (String.ofList stop) size =
          (if reserve (last + 1 - first) then
            .ok ((range (segmentsPerLog size) timeline first last).map String.ofList)
          else .error "physical backup WAL range is too large")) ∧
    (∀ (start stop : String) (segmentSize : Option Nat),
      (∀ size, segmentSize = some size →
        ¬ ∃ timeline first last, Covers size start.toList stop.toList timeline first last) →
      ∃ message, WalRange.requiredBackupWalNames capacity start stop segmentSize = .error message) ∧
    (∀ (σ : Type) (startFile stopFile : Option (List UInt8)) (size : Nat)
        (visitor : Option (NativeWal.Visitor σ)) (context : σ),
      (¬ ∃ start stop timeline first last, startFile = some (Utf8.encode start) ∧
        stopFile = some (Utf8.encode stop) ∧ Covers size start stop timeline first last) →
      ∃ message, NativeWal.visitWalRange startFile stopFile size visitor context =
        ⟨-1, some message, context⟩) ∧
    ∀ (start stop : String) (size : Nat),
      (¬ ∃ timeline first last,
        Covers size start.toList stop.toList timeline first last) →
      ∃ message, requiredBackupWalNames debug reserve start stop size = .error message := by
  refine ⟨fun size start stop timeline first last h => ?_, fun start stop segmentSize h =>
    WalRange.requiredBackupWalNames_refuses capacity h,
      fun σ startFile stopFile size visitor context h =>
    NativeWal.visitWalRange_refuses h visitor context, fun start stop size h =>
    requiredBackupWalNames_refuses debug reserve h⟩
  have hstrings : Covers size (String.ofList start).toList (String.ofList stop).toList timeline
      first last := by
    rw [String.toList_ofList, String.toList_ofList]
    exact h
  refine ⟨fun segment _ hle => ⟨?_, ?_, ?_, ?_⟩,
    WalRange.requiredBackupWalNames_covers capacity hstrings,
    fun σ visitor context => NativeWal.visitWalRange_covers h visitor context,
    requiredBackupWalNames_covers debug reserve hstrings⟩
  · exact (WalRange.toDouble_segment h.size_valid (h.valid hle).segment_lt).2
  · rw [WalRange.parseWalName_eq h.size_valid, String.toList_ofList, h.position?_segment hle]
    rfl
  · refine NativeWal.parseWalFile_ok h.size_valid.segmentsPerLog_bounds.2 ?_
    rw [NativeWal.map_toChar_name]
    exact h.position?_segment hle
  · rw [parseWalName_eq debug h.size_valid, String.toList_ofList, h.position?_segment hle]
    rfl

theorem covers_of_names {start stop : String} (hle : first ≤ last) (hlast : last < 2 ^ 32 * 256)
    (hstart : start.toList = name 256 ⟨1, first⟩) (hstop : stop.toList = name 256 ⟨1, last⟩) :
    Covers (2 ^ 24) start.toList stop.toList 1 first last := by
  have hperLog : segmentsPerLog (2 ^ 24) = 256 := by decide
  have hsize : ValidSize (2 ^ 24) := ⟨by decide, by decide, 24, rfl⟩
  have htimeline : 1 < 2 ^ 32 := by decide
  refine ⟨hsize, ?_, ?_, ?_, ?_, hle⟩ <;> rw [hperLog]
  · exact ⟨htimeline, Nat.lt_of_le_of_lt hle hlast⟩
  · exact hstart
  · exact ⟨htimeline, hlast⟩
  · exact hstop

/-- A range of 16 MiB segments that runs into the next log. -/
theorem wal_range_exact_next_log :
    Covers (2 ^ 24) "0000000100000000000000FE".toList "000000010000000100000001".toList
        1 254 257 ∧
      WalRange.requiredBackupWalNames 4 (String.ofList "0000000100000000000000FE".toList)
        (String.ofList "000000010000000100000001".toList) (some (2 ^ 24)) =
        .ok ["0000000100000000000000FE", "0000000100000000000000FF",
          "000000010000000100000000", "000000010000000100000001"] ∧
      requiredBackupWalNames id (fun _ => true) (String.ofList "0000000100000000000000FE".toList)
        (String.ofList "000000010000000100000001".toList) (2 ^ 24) =
        .ok ["0000000100000000000000FE", "0000000100000000000000FF",
          "000000010000000100000000", "000000010000000100000001"] := by
  have hcovers : Covers (2 ^ 24) "0000000100000000000000FE".toList
      "000000010000000100000001".toList 1 254 257 :=
    covers_of_names (by decide) (by decide) (by decide) (by decide)
  have hexact := (wal_range_exact id (fun _ => true) 4).1 _ _ _ _ _ _ hcovers
  refine ⟨hcovers, ?_, ?_⟩
  · rw [hexact.2.1]
    decide
  · rw [hexact.2.2.2]
    decide

/-- A valid range can be too long for every array of JavaScript, and the memory for
a vector can be refused for any range. -/
theorem long_range_refused :
    Covers (2 ^ 24) "000000010000000000000000".toList "0000000100FFFFFF000000FF".toList
        1 0 (2 ^ 32 - 1) ∧
      (∀ capacity < 2 ^ 32,
        WalRange.requiredBackupWalNames capacity "000000010000000000000000"
          "0000000100FFFFFF000000FF" (some (2 ^ 24)) = .error "Invalid array length") ∧
      requiredBackupWalNames id (fun _ => false) "000000010000000000000000"
        "0000000100FFFFFF000000FF" (2 ^ 24) = .error "physical backup WAL range is too large" := by
  have hcovers : Covers (2 ^ 24) "000000010000000000000000".toList
      "0000000100FFFFFF000000FF".toList 1 0 (2 ^ 32 - 1) :=
    covers_of_names (by decide) (by decide) (by decide) (by decide)
  refine ⟨hcovers, fun capacity hcapacity => ?_, ?_⟩
  · rw [WalRange.requiredBackupWalNames_covers capacity hcovers, if_neg (by omega)]
  · rw [requiredBackupWalNames_covers id (fun _ => false) hcovers]
    rfl

end Oliphaunt.RustWal
