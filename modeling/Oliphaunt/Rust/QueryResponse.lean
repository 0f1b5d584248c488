import Oliphaunt.Model.QueryResponse

/-!
# Oliphaunt — the readers of text in the Rust query crate

The readers of `query/rust/src/lib.rs` that return a text of the server: a field of a
row description, a command tag, a diagnostic field and a column value.
-/

namespace Oliphaunt.RustQuery

open Bytes ByteReader Query

def take (len : Nat) (label : String) : Reader (List UInt8) := fun input =>
  if input.length < len then .error s!"truncated {label}"
  else .ok (input.take len, input.drop len)

def readU32 (label : String) : Reader Nat := do
  let bytes ← take 4 label
  pure (ofBigEndian bytes)

def readI32 (label : String) : Reader Int := do
  let bytes ← take 4 label
  pure (BitVec.ofNat 32 (ofBigEndian bytes)).toInt

def readI16 (label : String) : Reader Int := do
  let bytes ← take 2 label
  pure (BitVec.ofNat 16 (ofBigEndian bytes)).toInt

def readCstring (label : String) : Reader String := fun input =>
  let raw := input.takeWhile (· ≠ 0)
  if input.length ≤ raw.length then .error s!"{label} is missing null terminator"
  else
    match utf8Decode raw with
    | none => .error (s!"{label} is not valid UTF-8: " ++ utf8ErrorText raw)
    | some value => .ok (value, input.drop (raw.length + 1))

def parseField : Reader QueryField := do
  let name ← readCstring "field name"
  let tableOid ← readU32 "field table oid"
  let tableAttribute ← readI16 "field table attribute"
  let typeOid ← readU32 "field type oid"
  let typeSize ← readI16 "field type size"
  let typeModifier ← readI32 "field type modifier"
  let format ← readI16 "field format"
  pure ⟨name, tableOid, tableAttribute, typeOid, typeSize, typeModifier, .ofCode format⟩

/-- `QueryRow::text`. -/
def rowText (row : Row) (column : Nat) : Except String (Option String) :=
  match row[column]? with
  | none => .error s!"query row has no column at index {column}"
  | some none => .ok none
  | some (some value) =>
    match utf8Decode value with
    | none => .error ("query value is not valid UTF-8: " ++ utf8ErrorText value)
    | some text => .ok (some text)

def parseCommandComplete (body : List UInt8) : Except String String :=
  whole (readCstring "CommandComplete tag") "CommandComplete contained trailing bytes" body

/-- The loop of `parse_diagnostic_fields`; every turn takes a byte. -/
def diagnosticLoop (label : String) : Nat → List UInt8 → Except String (List DiagnosticField)
  | 0, _ => .error s!"{label} is missing terminator"
  | _ + 1, [] => .error s!"{label} is missing terminator"
  | fuel + 1, code :: rest =>
    if code = 0 then if rest = [] then .ok [] else .error s!"{label} contained trailing bytes"
    else
      match readCstring s!"{label} field" rest with
      | .error e => .error e
      | .ok (value, rest) => (diagnosticLoop label fuel rest).map (⟨code, value⟩ :: ·)

def parseDiagnosticFields (label : String) (body : List UInt8) :
    Except String (List DiagnosticField) :=
  diagnosticLoop label (body.length + 1) body

end Oliphaunt.RustQuery
