import Oliphaunt.Model.Frontend
import Oliphaunt.Rust.SqlScan

/-!
# Oliphaunt — the extended statement of the Rust query crate

`extended_statement` of `query/rust/src/lib.rs`: three checks, and the messages Parse,
Bind, Describe, Execute and Sync one after the other.
-/

namespace Oliphaunt.RustQuery

open Bytes FrontendProtocol

inductive ValueFormat where
  | text
  | binary
deriving DecidableEq, Repr

def ValueFormat.code : ValueFormat → Nat
  | .text => 0
  | .binary => 1

/-- No type OID asks the server to infer the type; no value is NULL. -/
structure Parameter where
  typeOid : Option UInt32
  format : ValueFormat
  value : Option (List UInt8)
deriving DecidableEq, Repr

def maxI16 : Nat := 32767

def validateStatementInput (sql : String) (parameterCount : Nat) : Except String Unit :=
  if (utf8 sql).contains 0 then .error "extended query SQL must not contain NUL bytes"
  else if maxI16 < parameterCount then
    .error s!"extended query supports at most {maxI16} parameters, got {parameterCount}"
  else .ok ()

def validateExecutionParameters (params : List Parameter) : Except String Unit :=
  match params.findIdx? (fun parameter => parameter.typeOid = some 0) with
  | some index =>
    .error (s!"execution parameter {index} explicitly declares PostgreSQL type OID 0; omit the " ++
      "type OID to request server inference")
  | none => .ok ()

/-- The body of a message with its tag and length; the length is an `i32`. -/
def pushFrontendMessage (out : List UInt8) (tag : UInt8) (body : List UInt8) :
    Except String (List UInt8) :=
  if body.length + 4 < 2 ^ 31 then .ok (out ++ (⟨tag, body⟩ : Frame).encode)
  else .error "frontend protocol message is too large"

def pushCstring (out value : List UInt8) : Except String (List UInt8) :=
  if value.contains 0 then .error "frontend protocol string must not contain NUL bytes"
  else .ok (out ++ value ++ [0])

def pushSizedValue (out value : List UInt8) : Except String (List UInt8) :=
  if value.length < 2 ^ 31 then .ok (out ++ bigEndian 4 value.length ++ value)
  else .error "query parameter is too large"

/-- The values of the parameters, each behind the ones before. -/
def pushValues : List UInt8 → List Parameter → Except String (List UInt8)
  | out, [] => .ok out
  | out, parameter :: rest =>
    match parameter.value with
    | none => pushValues (out ++ bigEndian 4 0xffffffff) rest
    | some value => do
      let out ← pushSizedValue out value
      pushValues out rest

def pushParse (out : List UInt8) (sql : String) (params : List Parameter) :
    Except String (List UInt8) := do
  let body ← pushCstring [] []
  let body ← pushCstring body (utf8 sql)
  let body := body ++ bigEndian 2 params.length
  let body := body ++ params.flatMap fun parameter =>
    bigEndian 4 (parameter.typeOid.getD 0).toNat
  pushFrontendMessage out 0x50 body

def pushBind (out : List UInt8) (params : List Parameter) (resultFormatCode : Nat) :
    Except String (List UInt8) := do
  let body ← pushCstring [] []
  let body ← pushCstring body []
  let body := body ++ bigEndian 2 params.length
  let body := body ++ params.flatMap fun parameter => bigEndian 2 parameter.format.code
  let body := body ++ bigEndian 2 params.length
  let body ← pushValues body params
  let body := body ++ bigEndian 2 1
  let body := body ++ bigEndian 2 resultFormatCode
  pushFrontendMessage out 0x42 body

def extendedStatement (sql : String) (params : List Parameter) (resultFormatCode : Nat) :
    Except String (List UInt8) := do
  RustSql.rejectCopyStatements sql
  validateStatementInput sql params.length
  validateExecutionParameters params
  let packet ← pushParse [] sql params
  let packet ← pushBind packet params resultFormatCode
  let packet ← pushFrontendMessage packet 0x44 [0x50, 0]
  let packet ← pushFrontendMessage packet 0x45 [0, 0, 0, 0, 0]
  pushFrontendMessage packet 0x53 []

end Oliphaunt.RustQuery
