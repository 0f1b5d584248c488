import Oliphaunt.Model.Postgres
import Oliphaunt.Model.Reader

/-!
# Oliphaunt — what the response parsers read

The kinds of backend messages that the parsers of the query packages tell apart,
and the values that they return. Both packages have these types.
-/

namespace Oliphaunt.Query

/-- What the parsers call a message, by its tag. -/
inductive Message where
  | rowDescription
  | dataRow
  | commandComplete
  | errorResponse
  /-- one of the COPY messages `G`, `H`, `W`, `d`, `c` -/
  | copy
  | readyForQuery
  | parseComplete
  | bindComplete
  | closeComplete
  | emptyQueryResponse
  | noData
  | parameterDescription
  | parameterStatus
  | noticeResponse
  | notificationResponse
  | unexpected
deriving DecidableEq, Repr

def Message.ofTag (tag : UInt8) : Message :=
  if tag = 0x54 then .rowDescription
  else if tag = 0x44 then .dataRow
  else if tag = 0x43 then .commandComplete
  else if tag = 0x45 then .errorResponse
  else if [0x47, 0x48, 0x57, 0x64, 0x63].contains tag then .copy
  else if tag = 0x5a then .readyForQuery
  else if tag = 0x31 then .parseComplete
  else if tag = 0x32 then .bindComplete
  else if tag = 0x33 then .closeComplete
  else if tag = 0x49 then .emptyQueryResponse
  else if tag = 0x6e then .noData
  else if tag = 0x74 then .parameterDescription
  else if tag = 0x53 then .parameterStatus
  else if tag = 0x4e then .noticeResponse
  else if tag = 0x41 then .notificationResponse
  else .unexpected

/-- A message that may still follow an ErrorResponse. -/
def Message.followsError : Message → Bool
  | .noticeResponse | .parameterStatus | .notificationResponse | .readyForQuery => true
  | _ => false

inductive QueryFormat where
  | text
  | binary
  | other (code : Int)
deriving DecidableEq, Repr

def QueryFormat.ofCode (code : Int) : QueryFormat :=
  if code = 0 then .text else if code = 1 then .binary else .other code

structure QueryField where
  name : String
  tableOid : Nat
  tableAttribute : Int
  typeOid : Nat
  typeSize : Int
  typeModifier : Int
  format : QueryFormat
deriving DecidableEq, Repr

/-- A row as it came: a value's bytes, or NULL. -/
abbrev Row := List (Option (List UInt8))

structure DiagnosticField where
  code : UInt8
  value : String
deriving DecidableEq, Repr

inductive ResultKind where
  | command
  | rows
deriving DecidableEq, Repr

/-- One completed statement of a response. -/
structure Statement where
  kind : ResultKind
  fields : List QueryField
  rows : List Row
  commandTag : String
  notices : List (List DiagnosticField)
deriving DecidableEq, Repr

/-- A tag as both packages print it. -/
def hexTag (tag : UInt8) : String :=
  let digits := Nat.toDigits 16 tag.toNat
  "0x" ++ String.ofList (List.replicate (2 - digits.length) '0' ++ digits)

end Oliphaunt.Query
