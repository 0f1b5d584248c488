import Mathlib.Tactic.Common
import Mathlib.Data.List.Induction
import Mathlib.Algebra.Group.Nat.Defs

/-!
# Byte strings, big-endian numbers and UTF-8 text

Byte strings are lists of `UInt8`. A reader consumes a byte string from the
front and returns what it read together with the rest, so a round trip is always
stated with an arbitrary rest.

* `bigEndian w n` / `ofBigEndian` — a number in `w` bytes, most significant first;
* `utf8` / `utf8Decode` — a text and the strict decoder;
* `utf8ErrorText` — what Rust's decoder says of bytes that are not a text;
* `textDecode` — the strict decoder as browsers define it, which drops one
  leading byte order mark. It returns the text that was encoded exactly when
  that text does not begin with U+FEFF (`textDecode_utf8_iff`).
-/

namespace Bytes

open List

/-! ## Taking bytes from the front -/

/-- The first `n` bytes and the rest, `none` when there are fewer. -/
def take (n : Nat) (input : List UInt8) : Option (List UInt8 × List UInt8) :=
  if n ≤ input.length then some (input.take n, input.drop n) else none

variable {n : Nat} {bytes : List UInt8} {text : String}

theorem take_append (rest : List UInt8) (h : bytes.length = n) :
    take n (bytes ++ rest) = some (bytes, rest) := by
  subst h
  simp [take]

theorem take_eq_some {read : List UInt8} (h : take n input = some (read, rest)) :
    rest.length + n = input.length := by
  rw [take] at h
  split_ifs at h with hn
  obtain ⟨-, rfl⟩ := Prod.mk.inj (Option.some.inj h)
  rw [length_drop]
  omega

def bigEndian : Nat → Nat → List UInt8
  | 0, _ => []
  | w + 1, n => bigEndian w (n / 256) ++ [UInt8.ofNat (n % 256)]

def ofBigEndian (bytes : List UInt8) : Nat :=
  bytes.foldl (fun acc byte => acc * 256 + byte.toNat) 0

@[simp] theorem length_bigEndian (w n : Nat) : (bigEndian w n).length = w := by
  induction w generalizing n with
  | zero => rfl
  | succ w ih => rw [bigEndian, length_append, ih]; rfl

theorem ofBigEndian_append_singleton (bytes : List UInt8) (byte : UInt8) :
    ofBigEndian (bytes ++ [byte]) = ofBigEndian bytes * 256 + byte.toNat := by
  rw [ofBigEndian, ofBigEndian, foldl_append]
  rfl

theorem ofBigEndian_bigEndian (h : n < 256 ^ w) : ofBigEndian (bigEndian w n) = n := by
  induction w generalizing n with
  | zero =>
    have hn : n = 0 := by simpa using h
    subst hn
    rfl
  | succ w ih =>
    have hdiv : n / 256 < 256 ^ w := by
      exact Nat.div_lt_of_lt_mul (by omega)
    have hbyte : (UInt8.ofNat (n % 256)).toNat = n % 256 := by
      rw [UInt8.toNat_ofNat']
      omega
    rw [bigEndian, ofBigEndian_append_singleton, ih hdiv, hbyte]
    omega

theorem ofBigEndian_lt (bytes : List UInt8) : ofBigEndian bytes < 256 ^ bytes.length := by
  induction bytes using List.reverseRecOn with
  | nil => decide
  | append_singleton bytes byte ih =>
    rw [ofBigEndian_append_singleton, length_append, length_singleton, pow_succ]
    have hbyte := byte.toNat_lt
    omega

theorem bigEndian_ofBigEndian (bytes : List UInt8) :
    bigEndian bytes.length (ofBigEndian bytes) = bytes := by
  induction bytes using List.reverseRecOn with
  | nil => rfl
  | append_singleton bytes byte ih =>
    have hbyte := byte.toNat_lt
    have hdiv : (ofBigEndian bytes * 256 + byte.toNat) / 256 = ofBigEndian bytes := by omega
    have hmod : (ofBigEndian bytes * 256 + byte.toNat) % 256 = byte.toNat := by omega
    rw [ofBigEndian_append_singleton, length_append, length_singleton, bigEndian,
      hdiv, hmod, ih, UInt8.ofNat_toNat]

def utf8 (text : String) : List UInt8 := text.toByteArray.data.toList

/-- The strict decoder: `none` when the bytes are not valid UTF-8. -/
def utf8Decode (bytes : List UInt8) : Option String := String.fromUTF8? ⟨bytes.toArray⟩

/-- `Utf8Error` of Rust: the bytes up to `validUpTo` are valid, and the next `errorLen`
cannot begin a character; without a length the bytes end inside a character. -/
structure Utf8Error where
  validUpTo : Nat
  errorLen : Option Nat
deriving DecidableEq, Repr

def Utf8Error.message (error : Utf8Error) : String :=
  match error.errorLen with
  | some len => s!"invalid utf-8 sequence of {len} bytes from index {error.validUpTo}"
  | none => s!"incomplete utf-8 byte sequence from index {error.validUpTo}"

/-- The bytes that may follow `first` in a character, in their order; `none` if no character
begins with it. -/
def utf8Follow (first : Nat) : Option (List (Nat × Nat)) :=
  let continuation := (0x80, 0xbf)
  if first ≤ 0x7f then some []
  else if 0xc2 ≤ first ∧ first ≤ 0xdf then some [continuation]
  else if first = 0xe0 then some [(0xa0, 0xbf), continuation]
  else if first = 0xed then some [(0x80, 0x9f), continuation]
  else if 0xe1 ≤ first ∧ first ≤ 0xef then some [continuation, continuation]
  else if first = 0xf0 then some [(0x90, 0xbf), continuation, continuation]
  else if 0xf1 ≤ first ∧ first ≤ 0xf3 then some [continuation, continuation, continuation]
  else if first = 0xf4 then some [(0x80, 0x8f), continuation, continuation]
  else none

/-- The first of the bytes behind a first byte that is wrong: how many before it are right,
`none` where the bytes end. -/
def utf8Wrong (good : Nat) : List (Nat × Nat) → List UInt8 → Option (Option Nat)
  | [], _ => none
  | _ :: _, [] => some none
  | (low, high) :: ranges, byte :: rest =>
    if low ≤ byte.toNat ∧ byte.toNat ≤ high then utf8Wrong (good + 1) ranges rest
    else some (some good)

/-- `run_utf8_validation` from `index` on; every turn takes a byte. -/
def utf8ErrorLoop : Nat → Nat → List UInt8 → Option Utf8Error
  | 0, _, _ => none
  | _ + 1, _, [] => none
  | fuel + 1, index, first :: rest =>
    match utf8Follow first.toNat with
    | none => some ⟨index, some 1⟩
    | some ranges =>
      match utf8Wrong 1 ranges rest with
      | some errorLen => some ⟨index, errorLen⟩
      | none => utf8ErrorLoop fuel (index + 1 + ranges.length) (rest.drop ranges.length)

/-- What `str::from_utf8` says of bytes that it refuses. -/
def utf8ErrorText (bytes : List UInt8) : String :=
  ((utf8ErrorLoop bytes.length 0 bytes).map Utf8Error.message).getD ""

@[simp] theorem utf8Decode_utf8 (text : String) : utf8Decode (utf8 text) = some text := by
  have hbytes : (⟨(utf8 text).toArray⟩ : ByteArray) = text.toByteArray := by
    simp [utf8]
  rw [utf8Decode, hbytes, String.fromUTF8?, dif_pos text.isValidUTF8]
  rfl

theorem utf8_append (s t : String) : utf8 (s ++ t) = utf8 s ++ utf8 t := by
  simp [utf8, String.toByteArray_append]

/-- U+FEFF, which begins a text only as a byte order mark. -/
def byteOrderMark : String := "\uFEFF"

/-- The strict decoder of the Encoding Standard: one leading byte order mark is
dropped before the bytes are decoded. -/
def textDecode (bytes : List UInt8) : Option String :=
  if utf8 byteOrderMark <+: bytes then utf8Decode (bytes.drop (utf8 byteOrderMark).length)
  else utf8Decode bytes

/-- The text begins with U+FEFF. -/
def HasMark (text : String) : Prop := text.toList.head? = some '\uFEFF'

instance (text : String) : Decidable (HasMark text) :=
  inferInstanceAs (Decidable (text.toList.head? = some '\uFEFF'))

theorem HasMark.eq_append (h : HasMark text) : ∃ rest, text = byteOrderMark ++ rest := by
  obtain ⟨tail, htail⟩ := List.head?_eq_some_iff.mp h
  refine ⟨String.ofList tail, ?_⟩
  rw [← String.toList_inj, htail]
  simp [byteOrderMark]

/-- A text begins with a byte order mark exactly if its bytes do. -/
theorem mark_prefix_iff (text : String) : utf8 byteOrderMark <+: utf8 text ↔ HasMark text := by
  constructor
  · rintro ⟨rest, hrest⟩
    have hencode : ("\uFEFF".toList).utf8Encode ++ ⟨rest.toArray⟩ = text.toList.utf8Encode := by
      rw [String.utf8Encode_toList, String.utf8Encode_toList]
      apply ByteArray.ext
      apply Array.ext'
      simpa [utf8, byteOrderMark] using hrest
    have hprefix := isPrefix_of_utf8Encode_append_eq_utf8Encode _ hencode
    obtain ⟨tail, htail⟩ := hprefix
    rw [HasMark, ← htail]
    rfl
  · intro h
    obtain ⟨rest, rfl⟩ := h.eq_append
    exact prefix_append _ _

theorem textDecode_utf8_of_not_mark (h : ¬ HasMark text) : textDecode (utf8 text) = some text := by
  rw [textDecode, if_neg (fun hp => h ((mark_prefix_iff text).mp hp)), utf8Decode_utf8]

theorem textDecode_mark_append (rest : String) :
    textDecode (utf8 (byteOrderMark ++ rest)) = some rest := by
  rw [utf8_append, textDecode, if_pos (prefix_append _ _), drop_left, utf8Decode_utf8]

/-- The decoder gives the encoded text back exactly when that text does not
begin with U+FEFF. -/
theorem textDecode_utf8_iff (text : String) :
    textDecode (utf8 text) = some text ↔ ¬ HasMark text := by
  refine ⟨fun h hmark => ?_, textDecode_utf8_of_not_mark⟩
  obtain ⟨rest, rfl⟩ := hmark.eq_append
  rw [textDecode_mark_append] at h
  have hlength := congrArg String.length (Option.some.inj h)
  rw [String.length_append] at hlength
  have hone : byteOrderMark.length = 1 := rfl
  omega

/-! ## Texts as lists of characters -/

/-- The text without a leading U+FEFF. -/
def dropMark : List Char → List Char
  | [] => []
  | c :: rest => if c = '\uFEFF' then rest else c :: rest

theorem utf8_ofList (text : List Char) :
    utf8 (String.ofList text) = text.flatMap String.utf8EncodeChar := by
  rw [utf8, String.toByteArray_ofList, List.utf8Encode, toList_data_toByteArray]

theorem utf8_ofList_append (s t : List Char) :
    utf8 (String.ofList (s ++ t)) = utf8 (String.ofList s) ++ utf8 (String.ofList t) := by
  rw [utf8_ofList, utf8_ofList, utf8_ofList, flatMap_append]

/-- What the decoder returns for any text: the text without its mark. -/
theorem textDecode_utf8 (text : List Char) :
    textDecode (utf8 (String.ofList text)) = some (String.ofList (dropMark text)) := by
  cases text with
  | nil => exact textDecode_utf8_of_not_mark (by decide)
  | cons c rest =>
    by_cases hc : c = '\uFEFF'
    · subst hc
      have hmark : String.ofList ('\uFEFF' :: rest) = byteOrderMark ++ String.ofList rest := by
        simp [byteOrderMark]
      rw [hmark, textDecode_mark_append, dropMark, if_pos rfl]
    · rw [dropMark, if_neg hc]
      refine textDecode_utf8_of_not_mark ?_
      rw [HasMark, String.toList_ofList, List.head?_cons]
      exact fun h => hc (Option.some.inj h)

theorem dropMark_suffix (text : List Char) : dropMark text <:+ text := by
  cases text with
  | nil => exact suffix_refl _
  | cons c rest =>
    rw [dropMark]
    split
    · exact suffix_cons c rest
    · exact suffix_refl _

theorem dropMark_eq_self {text : List Char} (h : text.head? ≠ some '\uFEFF') :
    dropMark text = text := by
  cases text with
  | nil => rfl
  | cons c rest =>
    rw [dropMark, if_neg]
    rintro rfl
    exact h rfl

/-- Bytes below 0x80 as the characters that they encode. -/
def ascii (bytes : List UInt8) : List Char := bytes.map fun b => Char.ofNat b.toNat

theorem toNat_ascii {b : UInt8} (h : b.toNat < 0x80) : (Char.ofNat b.toNat).toNat = b.toNat := by
  have hvalid : b.toNat.isValidChar := .inl (by omega)
  rw [Char.ofNat, dif_pos hvalid]
  rfl

theorem utf8EncodeChar_of_lt (h : c.toNat < 0x80) :
    String.utf8EncodeChar c = [UInt8.ofNat c.toNat] := by
  have hle : c.val ≤ 0x7f := by
    exact Nat.le_of_lt_succ h
  have hsize : c.utf8Size = 1 := if_pos hle
  rw [String.utf8EncodeChar_eq_singleton hsize]
  rfl

theorem utf8_ascii (h : ∀ b ∈ bytes, b.toNat < 0x80) :
    utf8 (String.ofList (ascii bytes)) = bytes := by
  rw [utf8_ofList]
  induction bytes with
  | nil => rfl
  | cons b bytes ih =>
    have hb := h b (.head _)
    rw [ascii, map_cons, flatMap_cons, utf8EncodeChar_of_lt (by rw [toNat_ascii hb]; exact hb),
      toNat_ascii hb, UInt8.ofNat_toNat]
    exact congrArg _ (ih fun b' hb' => h b' (.tail _ hb'))

theorem textDecode_ascii (h : ∀ b ∈ bytes, b.toNat < 0x80) :
    textDecode bytes = some (String.ofList (ascii bytes)) := by
  have hdecode := textDecode_utf8 (ascii bytes)
  rw [utf8_ascii h] at hdecode
  rw [hdecode, dropMark_eq_self]
  cases bytes with
  | nil => exact nofun
  | cons b bytes =>
    have hb := h b (.head _)
    intro hmark
    have hchar : Char.ofNat b.toNat = '\uFEFF' := Option.some.inj hmark
    have hcode := congrArg Char.toNat hchar
    rw [toNat_ascii hb] at hcode
    have hvalue : ('\uFEFF').toNat = 0xfeff := rfl
    omega

end Bytes
