import Oliphaunt.Model.ByteaText

/-!
# Bytea text in the Rust query crate

`decode_text_bytea` reads the bytes of a `bytea` value in text form: the hexadecimal
form after `\x`, and otherwise the escape form.
-/

namespace Oliphaunt.RustQuery

inductive DecodeError where
  | invalidValue (column : Nat) (target message : String)
  deriving DecidableEq

def invalidValue {α : Type} (column : Nat) (message : String) : Except DecodeError α :=
  .error (.invalidValue column "Vec<u8>" message)

def decodeTextBytea (column : Nat) (raw : List UInt8) : Except DecodeError (List UInt8) :=
  let codes := raw.map UInt8.toNat
  if [0x5c, 0x78].isPrefixOf codes then
    if (codes.drop 2).length % 2 ≠ 0 then invalidValue column "hex bytea has odd length"
    else
      match ByteaText.hexPairs (codes.drop 2) with
      | none => invalidValue column "hex bytea contains a non-hex digit"
      | some bytes => .ok (bytes.map UInt8.ofNat)
  else
    match ByteaText.escapes codes with
    | none => invalidValue column "invalid escaped bytea sequence"
    | some bytes => .ok (bytes.map UInt8.ofNat)

end Oliphaunt.RustQuery
