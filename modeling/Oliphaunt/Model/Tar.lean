import Mathlib.Tactic.Common
import Mathlib.Algebra.GroupWithZero.Nat
import Mathlib.Data.List.Basic

/-!
# Tar headers

An archive is a list of bytes in blocks of 512. A header is one block with fields at
fixed places; `Header` holds the fields, each of the width of its place, so that
`slice` finds every field again in the bytes of a header (`Header.slice_name` and the
lemmas after it).

* `octal w n` — a number in `w` octal digits; `octalValue` reads it back;
* `checksum` — the sum of a header's bytes with spaces in the place of the checksum;
* `padding n` — what is missing of `n` bytes to whole blocks;
* `lastSplit` — the last place where a path can be cut in two at a separator.
-/

namespace Tar

open List

def blockSize : Nat := 512

def slice {α : Type} (start stop : Nat) (bytes : List α) : List α :=
  (bytes.drop start).take (stop - start)

variable {α : Type} {n : Nat}

theorem slice_skip {rest : List α} (hfront : front.length = n) (hstart : n ≤ start)
    (hstop : start ≤ stop) :
    slice start stop (front ++ rest) = slice (start - n) (stop - n) rest := by
  subst hfront
  have hwidth : stop - front.length - (start - front.length) = stop - start := by omega
  rw [slice, slice, drop_append, drop_eq_nil_of_le hstart, nil_append, hwidth]

theorem slice_here {rest : List α} (hfront : front.length = n) :
    slice 0 n (front ++ rest) = front := by
  subst hfront
  rw [slice, drop_zero, Nat.sub_zero, take_left]

theorem slice_flatten (parts : List (List α)) (hi : i < parts.length) :
    slice ((parts.map List.length).take i).sum ((parts.map List.length).take (i + 1)).sum
      parts.flatten = parts[i] := by
  induction parts generalizing i with
  | nil => exact absurd hi (Nat.not_lt_zero i)
  | cons part rest ih =>
    cases i with
    | zero => exact slice_here (by simp)
    | succ i =>
      have hrest := ih (Nat.lt_of_succ_lt_succ hi)
      have hle :
          ((rest.map List.length).take i).sum ≤ ((rest.map List.length).take (i + 1)).sum := by
        rw [take_add_one, sum_append]
        exact Nat.le_add_right ..
      rw [map_cons, take_succ_cons, take_succ_cons, sum_cons, sum_cons,
        flatten_cons, slice_skip rfl (Nat.le_add_right ..) (Nat.add_le_add_left hle _),
        Nat.add_sub_cancel_left, Nat.add_sub_cancel_left, hrest]
      rfl

def isOctalDigit (byte : UInt8) : Bool := 0x30 ≤ byte.toNat ∧ byte.toNat ≤ 0x37

def octalDigit (n : Nat) : UInt8 := UInt8.ofNat (0x30 + n % 8)

/-- `n` in `w` octal digits, the most significant first. -/
def octal : Nat → Nat → List UInt8
  | 0, _ => []
  | w + 1, n => octal w (n / 8) ++ [octalDigit n]

def octalValue (digits : List UInt8) : Nat :=
  digits.foldl (fun acc byte => acc * 8 + (byte.toNat - 0x30)) 0

@[simp] theorem length_octal (w n : Nat) : (octal w n).length = w := by
  induction w generalizing n with
  | zero => rfl
  | succ w ih => rw [octal, length_append, ih]; rfl

theorem toNat_octalDigit (n : Nat) : (octalDigit n).toNat = 0x30 + n % 8 := by
  rw [octalDigit, UInt8.toNat_ofNat']
  omega

theorem isOctalDigit_octalDigit (n : Nat) : isOctalDigit (octalDigit n) = true := by
  rw [isOctalDigit, decide_eq_true_iff, toNat_octalDigit]
  omega

theorem isOctalDigit_of_mem_octal (h : byte ∈ octal w n) : isOctalDigit byte = true := by
  induction w generalizing n with
  | zero => cases h
  | succ w ih =>
    rcases mem_append.mp h with h | h
    · exact ih h
    · rw [mem_singleton.mp h]
      exact isOctalDigit_octalDigit n

theorem octalValue_append_singleton (digits : List UInt8) (byte : UInt8) :
    octalValue (digits ++ [byte]) = octalValue digits * 8 + (byte.toNat - 0x30) := by
  rw [octalValue, octalValue, foldl_append]
  rfl

theorem octalValue_octal (h : n < 8 ^ w) : octalValue (octal w n) = n := by
  induction w generalizing n with
  | zero =>
    have hn : n = 0 := by simpa using h
    subst hn
    rfl
  | succ w ih =>
    have hdiv : n / 8 < 8 ^ w := by
      exact Nat.div_lt_of_lt_mul (by omega)
    rw [octal, octalValue_append_singleton, ih hdiv, toNat_octalDigit]
    omega

/-- The bytes that fill `n` bytes up to whole blocks. -/
def padding (n : Nat) : Nat := (blockSize - n % blockSize) % blockSize

theorem add_padding (n : Nat) : n + padding n = (n + 511) / 512 * 512 := by
  rw [padding, blockSize]
  omega

def zeros (n : Nat) : List UInt8 := List.replicate n 0

@[simp] theorem length_zeros (n : Nat) : (zeros n).length = n := length_replicate

def isZero (bytes : List UInt8) : Bool := bytes.all (· == 0)

theorem isZero_zeros (n : Nat) : isZero (zeros n) = true := by
  simp [isZero, zeros]

/-- The fields of a header. `namePrefix` stands after `name` with a slash in between. -/
structure Header where
  name : List UInt8
  mode : List UInt8
  uid : List UInt8
  gid : List UInt8
  size : List UInt8
  mtime : List UInt8
  checksum : List UInt8
  typeflag : UInt8
  linkname : List UInt8
  magic : List UInt8
  version : List UInt8
  owner : List UInt8
  namePrefix : List UInt8
  trailer : List UInt8
  name_length : name.length = 100
  mode_length : mode.length = 8
  uid_length : uid.length = 8
  gid_length : gid.length = 8
  size_length : size.length = 12
  mtime_length : mtime.length = 12
  checksum_length : checksum.length = 8
  linkname_length : linkname.length = 100
  magic_length : magic.length = 6
  version_length : version.length = 2
  owner_length : owner.length = 80
  namePrefix_length : namePrefix.length = 155
  trailer_length : trailer.length = 12

/-- The bytes of a field, filled up with zeros. -/
def field (width : Nat) (bytes : List UInt8) : List UInt8 := bytes ++ zeros (width - bytes.length)

theorem length_field (h : bytes.length ≤ width) : (field width bytes).length = width := by
  rw [field, length_append, length_zeros]
  omega

namespace Header

def bytes (h : Header) : List UInt8 :=
  h.name ++ (h.mode ++ (h.uid ++ (h.gid ++ (h.size ++ (h.mtime ++ (h.checksum ++ ([h.typeflag] ++
    (h.linkname ++ (h.magic ++ (h.version ++ (h.owner ++ (h.namePrefix ++ h.trailer))))))))))))

def fields (h : Header) : List (List UInt8) :=
  [h.name, h.mode, h.uid, h.gid, h.size, h.mtime, h.checksum, [h.typeflag], h.linkname, h.magic,
    h.version, h.owner, h.namePrefix, h.trailer]

def widths : List Nat := [100, 8, 8, 8, 12, 12, 8, 1, 100, 6, 2, 80, 155, 12]

theorem length_fields (h : Header) : h.fields.map List.length = widths := by
  simp [fields, widths, h.name_length, h.mode_length, h.uid_length, h.gid_length, h.size_length,
    h.mtime_length, h.checksum_length, h.linkname_length, h.magic_length, h.version_length,
    h.owner_length, h.namePrefix_length, h.trailer_length]

theorem flatten_fields (h : Header) : h.fields.flatten = h.bytes := by
  simp [fields, bytes]

theorem length_bytes (h : Header) : h.bytes.length = blockSize := by
  rw [← h.flatten_fields, length_flatten, h.length_fields]
  rfl

/-- **Every field of a header is found at its place**; the lemmas below are its cases. -/
theorem slice_field (h : Header) (i : Fin 14) :
    slice (widths.take i).sum (widths.take (i + 1)).sum h.bytes = h.fields.get i := by
  rw [← h.flatten_fields, ← h.length_fields]
  exact slice_flatten h.fields i.isLt

variable (h : Header)

theorem slice_name : slice 0 100 h.bytes = h.name := h.slice_field 0
theorem slice_mode : slice 100 108 h.bytes = h.mode := h.slice_field 1
theorem slice_uid : slice 108 116 h.bytes = h.uid := h.slice_field 2
theorem slice_gid : slice 116 124 h.bytes = h.gid := h.slice_field 3
theorem slice_size : slice 124 136 h.bytes = h.size := h.slice_field 4
theorem slice_mtime : slice 136 148 h.bytes = h.mtime := h.slice_field 5
theorem slice_checksum : slice 148 156 h.bytes = h.checksum := h.slice_field 6
theorem get_typeflag : slice 156 157 h.bytes = [h.typeflag] := h.slice_field 7
theorem slice_linkname : slice 157 257 h.bytes = h.linkname := h.slice_field 8
theorem slice_magic : slice 257 263 h.bytes = h.magic := h.slice_field 9
theorem slice_version : slice 263 265 h.bytes = h.version := h.slice_field 10
theorem slice_namePrefix : slice 345 500 h.bytes = h.namePrefix := h.slice_field 12

end Header

def byteSum : List UInt8 → Nat
  | [] => 0
  | byte :: bytes => byte.toNat + byteSum bytes

/-- The sum of a header's bytes with eight spaces for the checksum. -/
def checksum (header : List UInt8) : Nat :=
  byteSum (header.take 148) + 8 * 0x20 + byteSum (header.drop 156)

theorem byteSum_append (xs ys : List UInt8) : byteSum (xs ++ ys) = byteSum xs + byteSum ys := by
  induction xs with
  | nil => rw [nil_append, byteSum, Nat.zero_add]
  | cons byte xs ih => rw [cons_append, byteSum, byteSum, ih, Nat.add_assoc]

theorem byteSum_le (bytes : List UInt8) : byteSum bytes ≤ 255 * bytes.length := by
  induction bytes with
  | nil => exact Nat.le_refl 0
  | cons byte bytes ih =>
    have hbyte := byte.toNat_lt
    rw [byteSum, length_cons]
    omega

theorem checksum_append (hfront : front.length = 148) (hmid : mid.length = 8) :
    checksum (front ++ (mid ++ back)) = byteSum front + 8 * 0x20 + byteSum back := by
  rw [checksum, take_left' hfront, ← append_assoc,
    drop_left' (by rw [length_append, hfront, hmid])]

theorem checksum_lt (h : header.length = blockSize) : checksum header < 8 ^ 6 := by
  have hfront := byteSum_le (header.take 148)
  have hback := byteSum_le (header.drop 156)
  rw [length_take, h, blockSize] at hfront
  rw [length_drop, h, blockSize] at hback
  rw [checksum, show (8 : Nat) ^ 6 = 262144 from rfl]
  omega

namespace Header

/-- The header with another checksum field. -/
def withChecksum (h : Header) (field : List UInt8) (hfield : field.length = 8) : Header :=
  { h with checksum := field, checksum_length := hfield }

theorem bytes_split (h : Header) :
    ∃ front back, front.length = 148 ∧ h.bytes = front ++ (h.checksum ++ back) ∧
      ∀ (field : List UInt8) (hfield : field.length = 8),
        (h.withChecksum field hfield).bytes = front ++ (field ++ back) := by
  refine ⟨h.name ++ h.mode ++ h.uid ++ h.gid ++ h.size ++ h.mtime, [h.typeflag] ++ (h.linkname ++
    (h.magic ++ (h.version ++ (h.owner ++ (h.namePrefix ++ h.trailer))))), ?_, ?_, ?_⟩
  · simp [h.name_length, h.mode_length, h.uid_length, h.gid_length, h.size_length, h.mtime_length]
  · simp only [bytes, append_assoc]
  · intro field hfield
    simp only [bytes, withChecksum, append_assoc]

/-- The checksum does not depend on the field that it is written to. -/
theorem checksum_withChecksum (h : Header) (field : List UInt8) (hfield : field.length = 8) :
    Tar.checksum (h.withChecksum field hfield).bytes = Tar.checksum h.bytes := by
  obtain ⟨front, back, hfront, hbytes, hwith⟩ := h.bytes_split
  rw [hwith field hfield, hbytes, checksum_append hfront hfield,
    checksum_append hfront h.checksum_length]

/-- A header whose checksum field holds spaces sums up to its checksum. -/
theorem byteSum_spaces (h : Header) (hspaces : h.checksum = List.replicate 8 0x20) :
    byteSum h.bytes = Tar.checksum h.bytes := by
  obtain ⟨front, back, hfront, hbytes, -⟩ := h.bytes_split
  rw [hbytes, checksum_append hfront h.checksum_length, byteSum_append, byteSum_append, hspaces,
    show byteSum (List.replicate 8 0x20) = 8 * 0x20 from rfl]
  omega

end Header

/-! ## Cutting a path in two -/

section Split

variable {α : Type} [DecidableEq α]

/-- What stands before and after each separator, from the first to the last. -/
def splits (separator : α) : List α → List (List α × List α)
  | [] => []
  | c :: rest =>
    let later := (splits separator rest).map fun s => (c :: s.1, s.2)
    if c = separator then ([], rest) :: later else later

/-- The last split that is acceptable. -/
def lastSplit (separator : α) (ok : List α → List α → Bool) (path : List α) :
    Option (List α × List α) :=
  (splits separator path).reverse.find? fun s => ok s.1 s.2

variable {separator : α}

theorem eq_of_mem_splits (h : (front, back) ∈ splits separator path) :
    path = front ++ separator :: back := by
  induction path generalizing front with
  | nil => cases h
  | cons c rest ih =>
    have hlater : (front, back) ∈ (splits separator rest).map (fun s => (c :: s.1, s.2)) →
        c :: rest = front ++ separator :: back := by
      intro hmem
      obtain ⟨⟨front', back'⟩, hfound, heq⟩ := mem_map.mp hmem
      obtain ⟨rfl, rfl⟩ := Prod.mk.inj heq
      rw [cons_append, ← ih hfound]
    rw [splits] at h
    split at h
    · rename_i hc
      rcases mem_cons.mp h with heq | h
      · obtain ⟨rfl, rfl⟩ := Prod.mk.inj heq
        rw [hc]
        rfl
      · exact hlater h
    · exact hlater h

theorem lastSplit_eq_some (h : lastSplit separator ok path = some (front, back)) :
    path = front ++ separator :: back ∧ ok front back = true := by
  have hmem := mem_reverse.mp (mem_of_find?_eq_some h)
  have hok := @List.find?_some _ (fun s : List α × List α => ok s.1 s.2) _ _ h
  exact ⟨eq_of_mem_splits hmem, hok⟩

end Split

end Tar
