import Oliphaunt.Model.Utf8
import Oliphaunt.Rust.QueryResponse
import Oliphaunt.TS.QueryResponse

/-!
# Oliphaunt — text on the wire

What the two packages read where the server sent a text: in a column value, a field
name, a command tag and a diagnostic field. The Rust crate returns the text. The
TypeScript package decodes with a `TextDecoder` that is not told to keep a byte
order mark, so a leading U+FEFF is lost (`text_unchanged_iff`).

* `leading_mark_lost` — a text that loses it.
-/

namespace Oliphaunt.QueryTs

open Bytes ByteReader Query List

/-- The text as the platform decoder returns it. -/
def withoutMark (text : String) : String := String.ofList (dropMark text.toList)

theorem withoutMark_eq_self : withoutMark text = text ↔ ¬ HasMark text := by
  have hdecode := textDecode_utf8 text.toList
  rw [String.ofList_toList] at hdecode
  rw [← textDecode_utf8_iff, hdecode, Option.some_inj]
  rfl

theorem textDecode_utf8_eq (text : String) : textDecode (utf8 text) = some (withoutMark text) := by
  have hdecode := textDecode_utf8 text.toList
  rwa [String.ofList_toList] at hdecode

theorem decodeUtf8Strict_utf8 (text label : String) :
    decodeUtf8Strict (utf8 text) label = .ok (withoutMark text) := by
  rw [decodeUtf8Strict, textDecode_utf8_eq]

theorem takeWhile_terminated (rest : List UInt8) (h : (0 : UInt8) ∉ raw) :
    (raw ++ 0 :: rest).takeWhile (· ≠ 0) = raw := by
  rw [takeWhile_append_of_pos]
  · simp
  · intro b hb
    exact decide_eq_true fun heq => h (heq ▸ hb)

theorem drop_terminated (raw rest : List UInt8) :
    (raw ++ 0 :: rest).drop (raw.length + 1) = rest := by
  rw [← drop_drop, drop_left]
  rfl

section Terminated

variable {text : String} (hnul : Char.ofNat 0 ∉ text.toList)

include hnul

/-- A terminated text in TypeScript, where it loses a leading mark. -/
theorem readCString_utf8 (label : String) (rest : List UInt8) :
    readCString label (utf8 text ++ 0 :: rest) = .ok (withoutMark text, rest) := by
  have hraw := takeWhile_terminated rest (Utf8.zero_notMem_utf8 hnul)
  have hlength : ¬ (utf8 text ++ 0 :: rest).length ≤ (utf8 text).length := by
    rw [length_append, length_cons]
    omega
  simp only [readCString, hraw, if_neg hlength, decodeUtf8Strict_utf8, drop_terminated]

/-- A terminated text in Rust, where it is returned unchanged. -/
theorem readCstring_utf8 (label : String) (rest : List UInt8) :
    RustQuery.readCstring label (utf8 text ++ 0 :: rest) = .ok (text, rest) := by
  have hraw := takeWhile_terminated rest (Utf8.zero_notMem_utf8 hnul)
  have hlength : ¬ (utf8 text ++ 0 :: rest).length ≤ (utf8 text).length := by
    rw [length_append, length_cons]
    omega
  simp only [RustQuery.readCstring, hraw, if_neg hlength, utf8Decode_utf8, drop_terminated]

theorem commandTag_utf8 :
    readAll (readCString "CommandComplete tag") "CommandComplete" (utf8 text ++ [0]) =
        .ok (withoutMark text) ∧
      RustQuery.parseCommandComplete (utf8 text ++ [0]) = .ok text := by
  constructor
  · rw [readAll, whole, readCString_utf8 hnul]
  · rw [RustQuery.parseCommandComplete, whole, readCstring_utf8 hnul]

theorem diagnosticFields_utf8 (label : String) (hcode : code ≠ 0) :
    parseDiagnosticFields label (code :: (utf8 text ++ [0, 0])) = .ok [⟨code, withoutMark text⟩] ∧
      RustQuery.parseDiagnosticFields label (code :: (utf8 text ++ [0, 0])) =
        .ok [⟨code, text⟩] := by
  constructor
  · simp only [parseDiagnosticFields, diagnosticLoop, length_cons, if_neg hcode,
      readCString_utf8 hnul]
    rfl
  · simp only [RustQuery.parseDiagnosticFields, RustQuery.diagnosticLoop, length_cons,
      if_neg hcode, readCstring_utf8 hnul]
    rfl

/-- What stands behind the name of a field. -/
def fieldAttributes (tableOid tableAttribute typeOid typeSize typeModifier format : Nat) :
    List UInt8 :=
  bigEndian 4 tableOid ++ (bigEndian 2 tableAttribute ++ (bigEndian 4 typeOid ++
    (bigEndian 2 typeSize ++ (bigEndian 4 typeModifier ++ bigEndian 2 format))))

variable {bytes : List UInt8} {count : Nat}

omit hnul in
theorem readBytes_append (label : String) (rest : List UInt8) (h : bytes.length = count) :
    readBytes count label (bytes ++ rest) = .ok (bytes, rest) := by
  subst h
  rw [readBytes_of_le label (by rw [length_append]; omega), take_left, drop_left]

omit hnul in
theorem take_append (label : String) (rest : List UInt8) (h : bytes.length = count) :
    RustQuery.take count label (bytes ++ rest) = .ok (bytes, rest) :=
  readBytes_append label rest h

section Numbers

omit hnul

variable {bytes : List UInt8} (label : String) (rest : List UInt8)

theorem readU32_append (h : bytes.length = 4) :
    readU32 label (bytes ++ rest) = .ok (ofBigEndian bytes, rest) :=
  bind_ok (readBytes_append label rest h)

theorem readI32_append (h : bytes.length = 4) :
    readI32 label (bytes ++ rest) = .ok (signed32 (ofBigEndian bytes), rest) :=
  bind_ok (readU32_append label rest h)

theorem readI16_append (h : bytes.length = 2) :
    readI16 label (bytes ++ rest) = .ok (signed16 (ofBigEndian bytes), rest) :=
  bind_ok (readBytes_append label rest h)

theorem rust_readU32_append (h : bytes.length = 4) :
    RustQuery.readU32 label (bytes ++ rest) = .ok (ofBigEndian bytes, rest) :=
  bind_ok (take_append label rest h)

theorem rust_readI32_append (h : bytes.length = 4) :
    RustQuery.readI32 label (bytes ++ rest) =
      .ok ((BitVec.ofNat 32 (ofBigEndian bytes)).toInt, rest) :=
  bind_ok (take_append label rest h)

theorem rust_readI16_append (h : bytes.length = 2) :
    RustQuery.readI16 label (bytes ++ rest) =
      .ok ((BitVec.ofNat 16 (ofBigEndian bytes)).toInt, rest) :=
  bind_ok (take_append label rest h)

end Numbers

theorem fieldName_utf8 (tableOid tableAttribute typeOid typeSize typeModifier format : Nat)
    (rest : List UInt8) :
    (parseField (utf8 text ++ 0 :: (fieldAttributes tableOid tableAttribute typeOid typeSize
        typeModifier format ++ rest))).map (fun read => (read.1.name, read.2)) =
        .ok (withoutMark text, rest) ∧
      (RustQuery.parseField (utf8 text ++ 0 :: (fieldAttributes tableOid tableAttribute typeOid
        typeSize typeModifier format ++ rest))).map (fun read => (read.1.name, read.2)) =
        .ok (text, rest) := by
  have h4 : ∀ n, (bigEndian 4 n).length = 4 := fun n => length_bigEndian 4 n
  have h2 : ∀ n, (bigEndian 2 n).length = 2 := fun n => length_bigEndian 2 n
  simp only [fieldAttributes, append_assoc]
  constructor
  · rw [parseField, bind_ok (readCString_utf8 hnul _ _), bind_ok (readU32_append _ _ (h4 _)),
      bind_ok (readI16_append _ _ (h2 _)), bind_ok (readU32_append _ _ (h4 _)),
      bind_ok (readI16_append _ _ (h2 _)), bind_ok (readI32_append _ _ (h4 _)),
      bind_ok (readI16_append _ _ (h2 _))]
    rfl
  · rw [RustQuery.parseField, bind_ok (readCstring_utf8 hnul _ _),
      bind_ok (rust_readU32_append _ _ (h4 _)), bind_ok (rust_readI16_append _ _ (h2 _)),
      bind_ok (rust_readU32_append _ _ (h4 _)), bind_ok (rust_readI16_append _ _ (h2 _)),
      bind_ok (rust_readI32_append _ _ (h4 _)), bind_ok (rust_readI16_append _ _ (h2 _))]
    rfl

end Terminated

/-- For every text without NUL: the Rust readers return it as a column value, a field name,
a command tag and a diagnostic field, and each TypeScript reader returns it exactly when
it does not begin with U+FEFF. -/
theorem text_unchanged_iff (text : String) (hnul : Char.ofNat 0 ∉ text.toList) (field : QueryField)
    (hformat : field.format = .text)
    (tableOid tableAttribute typeOid typeSize typeModifier format : Nat) (rest : List UInt8)
    (label : String) (code : UInt8) (hcode : code ≠ 0) :
    ((rowText [some (utf8 text)] 0 = .ok (some text) ↔ ¬ HasMark text) ∧
      (decodeValue (fun decodedText _ => .ok decodedText) (some (utf8 text)) field =
        .ok (.decoded text) ↔ ¬ HasMark text) ∧
      ((parseField (utf8 text ++ 0 :: (fieldAttributes tableOid tableAttribute typeOid typeSize
          typeModifier format ++ rest))).map (fun read => (read.1.name, read.2)) =
        .ok (text, rest) ↔ ¬ HasMark text) ∧
      (readAll (readCString "CommandComplete tag") "CommandComplete" (utf8 text ++ [0]) =
        .ok text ↔ ¬ HasMark text) ∧
      (parseDiagnosticFields label (code :: (utf8 text ++ [0, 0])) = .ok [⟨code, text⟩] ↔
        ¬ HasMark text)) ∧
    RustQuery.rowText [some (utf8 text)] 0 = .ok (some text) ∧
    (RustQuery.parseField (utf8 text ++ 0 :: (fieldAttributes tableOid tableAttribute typeOid
        typeSize typeModifier format ++ rest))).map (fun read => (read.1.name, read.2)) =
      .ok (text, rest) ∧
    RustQuery.parseCommandComplete (utf8 text ++ [0]) = .ok text ∧
    RustQuery.parseDiagnosticFields label (code :: (utf8 text ++ [0, 0])) = .ok [⟨code, text⟩] := by
  obtain ⟨hname, hnameRust⟩ := fieldName_utf8 hnul tableOid tableAttribute typeOid typeSize
    typeModifier format rest
  obtain ⟨htag, htagRust⟩ := commandTag_utf8 hnul
  obtain ⟨hfields, hfieldsRust⟩ := diagnosticFields_utf8 hnul label hcode
  have hvalue : rowText [some (utf8 text)] 0 = .ok (some (withoutMark text)) := by
    simp only [rowText, List.getElem?_cons_zero, decodeUtf8Strict_utf8]
    rfl
  have hdecoded : decodeValue (fun decodedText _ => .ok decodedText) (some (utf8 text)) field =
      .ok (.decoded (withoutMark text)) := by
    simp only [decodeValue, hformat, ne_eq, not_true_eq_false, if_false, decodeUtf8Strict_utf8]
    rfl
  refine ⟨⟨?_, ?_, ?_, ?_, ?_⟩, ?_, hnameRust, htagRust, hfieldsRust⟩
  · rw [hvalue, ← withoutMark_eq_self]
    simp only [Except.ok.injEq, Option.some_inj]
  · rw [hdecoded, ← withoutMark_eq_self]
    simp only [Except.ok.injEq, QueryValue.decoded.injEq]
  · rw [hname, ← withoutMark_eq_self]
    simp only [Except.ok.injEq, Prod.mk.injEq, and_true]
  · rw [htag, ← withoutMark_eq_self, Except.ok.injEq]
  · rw [hfields, ← withoutMark_eq_self]
    simp only [Except.ok.injEq, List.cons.injEq, DiagnosticField.mk.injEq, true_and, and_true]
  · simp only [RustQuery.rowText, List.getElem?_cons_zero, utf8Decode_utf8]

/-- A text with letters outside ASCII, and U+FEFF inside. -/
theorem text_unchanged_inner_mark :
    (rowText [some (utf8 "é\uFEFF")] 0 = .ok (some "é\uFEFF") ↔ ¬ HasMark "é\uFEFF") ∧
      RustQuery.rowText [some (utf8 "é\uFEFF")] 0 = .ok (some "é\uFEFF") :=
  have h := text_unchanged_iff "é\uFEFF" (by decide) ⟨"", 0, 0, 25, -1, -1, .text⟩ rfl
    0 0 25 0 0 0 [] "NoticeResponse" 0x4d (by decide)
  ⟨h.1.1, h.2.1⟩

/-- A leading U+FEFF is lost in every one of the TypeScript readers. -/
theorem leading_mark_lost :
    rowText [some (utf8 "\uFEFFa")] 0 = .ok (some "a") ∧
      RustQuery.rowText [some (utf8 "\uFEFFa")] 0 = .ok (some "\uFEFFa") ∧
      readAll (readCString "CommandComplete tag") "CommandComplete" (utf8 "\uFEFFa" ++ [0]) =
        .ok "a" ∧
      parseDiagnosticFields "NoticeResponse" (0x4d :: (utf8 "\uFEFFa" ++ [0, 0])) =
        .ok [⟨0x4d, "a"⟩] ∧
      (parseField (utf8 "\uFEFFa" ++ 0 :: fieldAttributes 0 0 25 0 0 0)).map
        (fun read => (read.1.name, read.2)) = .ok ("a", []) := by
  decide +kernel

end Oliphaunt.QueryTs
