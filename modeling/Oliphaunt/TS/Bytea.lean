import Oliphaunt.Rust.Bytea

/-!
# Bytea text in both query libraries

`decodeBytea` of the TypeScript query library reads a string, that is UTF-16
code units; `decode_text_bytea` of the Rust crate reads the bytes the server
sent. PostgreSQL prints a `bytea` value in one of two forms, and both functions
read both.

Outside ASCII the escape form has no meaning that both keep: TypeScript takes the
low byte of every code unit, Rust every byte of the encoding.

* `bytea_text` — both forms are read back, and the decoders agree on ASCII;
* `accented_letter_differs` — a letter on which they differ.
-/

namespace Oliphaunt.Bytea

open ByteaText
open Codes (utf8Codes utf16Codes utf8Codes_text utf16Codes_text)
open RustQuery (decodeTextBytea)
open Utf16 (Text)

def decodeBytea (value : Text) : Except String (List UInt8) :=
  let codes := value.map UInt16.toNat
  if [0x5c, 0x78].isPrefixOf codes then
    -- the text passes the test when it is an even number of hexadecimal digits
    match hexPairs (codes.drop 2) with
    | none => .error "invalid PostgreSQL hex bytea text"
    | some bytes => .ok (bytes.map UInt8.ofNat)
  else
    match escapes codes with
    | none => .error "invalid PostgreSQL escape bytea text"
    -- `Uint8Array.from` keeps the low byte of a number
    | some bytes => .ok (bytes.map UInt8.ofNat)

/-- Both decoders refuse the text, or both accept it, with the same bytes exactly
where the text is ASCII. -/
def Alike (text : List Char) (ts : Except String (List UInt8))
    (rust : Except RustQuery.DecodeError (List UInt8)) : Prop :=
  (∃ message error, ts = .error message ∧ rust = .error error) ∨
    ∃ bytes bytes', ts = .ok bytes ∧ rust = .ok bytes' ∧ (bytes = bytes' ↔ Ascii text)

variable {text : List Char}

theorem hex_alike (column : Nat) (text : List Char) :
    Alike ('\\' :: 'x' :: text) (decodeBytea (Utf16.encode ('\\' :: 'x' :: text)))
      (decodeTextBytea column (Utf8.encode ('\\' :: 'x' :: text))) := by
  have hmarked (e : Codes) := (isPrefixOf_text e ('\\' :: 'x' :: text)).mpr ⟨text, rfl⟩
  have hdrop (e : Codes) : (e.text ('\\' :: 'x' :: text)).drop 2 = e.text text := by
    rw [e.text_cons_ascii (by decide), e.text_cons_ascii (by decide)]
    rfl
  simp only [decodeBytea, decodeTextBytea, ← utf16Codes_text, ← utf8Codes_text, hmarked, if_true,
    hdrop]
  rw [hexPairs_text utf16Codes utf8Codes]
  cases hpairs : hexPairs (utf8Codes.text text) with
  | none =>
    refine .inl ?_
    split_ifs
    · exact ⟨_, _, rfl, rfl⟩
    · exact ⟨_, _, rfl, rfl⟩
  | some bytes =>
    rw [if_neg (not_not.mpr (even_of_hexPairs hpairs))]
    refine .inr ⟨_, _, rfl, rfl, iff_of_true rfl fun c hc => ?_⟩
    simp only [List.mem_cons] at hc
    rcases hc with rfl | rfl | hc
    · decide
    · decide
    · exact ascii_of_hexPairs hpairs c hc

theorem escape_alike (column : Nat) (hother : ¬ ∃ rest, text = '\\' :: 'x' :: rest) :
    Alike text (decodeBytea (Utf16.encode text)) (decodeTextBytea column (Utf8.encode text)) := by
  have hmarked (e : Codes) := mt (isPrefixOf_text e text).mp hother
  simp only [decodeBytea, decodeTextBytea, ← utf16Codes_text, ← utf8Codes_text,
    if_neg (hmarked _)]
  have hlonger (c : Char) (hc : 0x80 ≤ c.toNat) :
      (utf16Codes.char c).length < (utf8Codes.char c).length := by
    show ((Utf16.encodeChar c).map _).length < ((String.utf8EncodeChar c).map _).length
    rw [List.length_map, List.length_map]
    exact Utf16.length_encodeChar_lt hc
  rcases escapes_alike hlonger text with ⟨hunits, hbytes⟩ | ⟨bytes, bytes', hunits, hbytes, -, hlt⟩
  · rw [hunits, hbytes]
    exact .inl ⟨_, _, rfl, rfl⟩
  · refine .inr ⟨_, _, by rw [hunits], by rw [hbytes], fun heq => ?_, fun hascii => ?_⟩
    · by_contra hnot
      have hlength := congrArg List.length heq
      rw [List.length_map, List.length_map] at hlength
      exact absurd hlength (Nat.ne_of_lt (hlt hnot))
    · rw [hascii.codes] at hunits hbytes
      rw [Option.some.inj (hunits.symm.trans hbytes)]

theorem decoders_alike (column : Nat) (text : List Char) :
    Alike text (decodeBytea (Utf16.encode text)) (decodeTextBytea column (Utf8.encode text)) := by
  by_cases hhex : ∃ rest, text = '\\' :: 'x' :: rest
  · obtain ⟨rest, rfl⟩ := hhex
    exact hex_alike column rest
  · exact escape_alike column hhex

theorem ofNat_toNat_bytes (bytes : List UInt8) :
    (bytes.map UInt8.toNat).map UInt8.ofNat = bytes := by
  have hid : UInt8.ofNat ∘ UInt8.toNat = id := funext fun b => UInt8.ofNat_toNat
  rw [List.map_map, hid, List.map_id]

theorem hexForm_decodes (bytes : List UInt8) :
    decodeBytea (Utf16.encode (hexForm bytes)) = .ok bytes ∧ Ascii (hexForm bytes) := by
  have hascii : Ascii (hexForm bytes) := by
    intro c hc
    simp only [hexForm, List.mem_cons] at hc
    rcases hc with rfl | rfl | hc
    · decide
    · decide
    · exact ascii_hexDigits bytes c hc
  refine ⟨?_, hascii⟩
  have hdrop : ((hexForm bytes).map Char.toNat).drop 2 = (hexDigits bytes).map Char.toNat := rfl
  simp only [decodeBytea, ← utf16Codes_text]
  rw [hascii.codes, hdrop, hexPairs_hexDigits]
  exact congrArg Except.ok (ofNat_toNat_bytes bytes)

theorem escapeForm_decodes (bytes : List UInt8) :
    decodeBytea (Utf16.encode (escapeForm bytes)) = .ok bytes ∧ Ascii (escapeForm bytes) := by
  have hascii := ascii_escapeForm bytes
  refine ⟨?_, hascii⟩
  have hmarked := mt (isPrefixOf_text utf16Codes (escapeForm bytes)).mp
    fun ⟨rest, hrest⟩ => escapeForm_not_hex bytes rest hrest
  simp only [decodeBytea, ← utf16Codes_text, if_neg hmarked]
  rw [hascii.codes, escapes_escapeForm]
  exact congrArg Except.ok (ofNat_toNat_bytes bytes)

/-- Where the first decoder gives the bytes of an ASCII text, the other gives the
same. -/
theorem Alike.rust_ok (h : Alike text ts rust) (hts : ts = .ok bytes) (hascii : Ascii text) :
    rust = .ok bytes := by
  rcases h with ⟨message, error, herror, -⟩ | ⟨bytes', raw, hok, hrust, heq⟩
  · cases herror.symm.trans hts
  · rw [hrust, ← heq.mpr hascii, Except.ok.inj (hok.symm.trans hts)]

/-- Both decoders give back a byte string from either form in which PostgreSQL
prints it. On every text they agree whether it is accepted, and on the bytes
exactly where the text is ASCII. -/
theorem bytea_text (column : Nat) :
    (∀ bytes,
      decodeBytea (Utf16.encode (hexForm bytes)) = .ok bytes ∧
      decodeTextBytea column (Utf8.encode (hexForm bytes)) = .ok bytes ∧
      decodeBytea (Utf16.encode (escapeForm bytes)) = .ok bytes ∧
      decodeTextBytea column (Utf8.encode (escapeForm bytes)) = .ok bytes) ∧
    ∀ text, Alike text (decodeBytea (Utf16.encode text))
      (decodeTextBytea column (Utf8.encode text)) := by
  refine ⟨fun bytes => ?_, decoders_alike column⟩
  obtain ⟨hhex, hhexAscii⟩ := hexForm_decodes bytes
  obtain ⟨hescape, hescapeAscii⟩ := escapeForm_decodes bytes
  exact ⟨hhex, (decoders_alike column _).rust_ok hhex hhexAscii, hescape,
    (decoders_alike column _).rust_ok hescape hescapeAscii⟩

/-- A letter outside ASCII is one byte for TypeScript and two for Rust. -/
theorem accented_letter_differs :
    decodeBytea (Utf16.encode ['é']) = .ok [0xe9] ∧
      decodeTextBytea 0 (Utf8.encode ['é']) = .ok [0xc3, 0xa9] := by
  decide +kernel

end Oliphaunt.Bytea
