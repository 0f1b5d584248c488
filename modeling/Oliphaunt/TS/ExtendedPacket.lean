import Mathlib.Algebra.Group.Int.Defs
import Oliphaunt.Model.FixedBuffer
import Oliphaunt.Model.FrontendMessages
import Oliphaunt.Model.Utf8
import Oliphaunt.Rust.ExtendedStatement

/-!
# Oliphaunt — extended-query packets

`encodeParseBindExecute` of `query/ts/src/query.ts` with its `ByteWriter`, whose buffer
has a length that is computed apart from the writes. The buffer is filled exactly and
the packet is read as Parse, Bind, Describe, Execute and Sync of the statement and its
parameters. The Rust crate returns the same bytes where its checks let the statement
pass: it refuses a top-level COPY and more parameters than an `i16` counts
(`packet_exact`).

Texts are sequences of Unicode scalar values.

* `copy_packet_differs` — a statement that only one of the two encodes.
-/

namespace Oliphaunt.ExtendedPacket

open Bytes FixedBuffer FrontendProtocol List ExtendedMessage
open RustQuery (Parameter extendedStatement maxI16 pushBind pushCstring pushFrontendMessage
  pushParse pushSizedValue pushValues validateStatementInput)

def u8 (value : UInt8) (packet : Writer) : Except String Writer := .ok (packet.store [value])

def i16 (value : Nat) (packet : Writer) : Except String Writer :=
  .ok (packet.store (bigEndian 2 value))

/-- The bytes of a number modulo 2^32. -/
def i32 (value : Int) (packet : Writer) : Except String Writer :=
  .ok (packet.store (bigEndian 4 (value % 2 ^ 32).toNat))

def message (tag : UInt8) (bodyLength : Nat) (packet : Writer) : Except String Writer := do
  let packet ← u8 tag packet
  i32 (bodyLength + 4) packet

/-- `Uint8Array.prototype.set` throws where the block does not fit. -/
def bytes (value : List UInt8) (packet : Writer) : Except String Writer :=
  (packet.copy value).elim (.error "offset is out of bounds") .ok

def finish (packet : Writer) : Except String (List UInt8) :=
  packet.finish.elim (.error "extended query packet length invariant failed") .ok

inductive NormalizedParam where
  | null
  | text (value : List UInt8)
  | binary (value : List UInt8)
deriving DecidableEq, Repr

def NormalizedParam.value : NormalizedParam → Option (List UInt8)
  | .null => none
  | .text value => some value
  | .binary value => some value

def NormalizedParam.format : NormalizedParam → Nat
  | .binary _ => 1
  | _ => 0

def bindLength (parameters : List NormalizedParam) : Nat :=
  parameters.foldl (fun length parameter =>
    length + (4 + match parameter with
      | .null => 0
      | .text value => value.length
      | .binary value => value.length)) (10 + parameters.length * 2)

def parseBodyLength (sqlBytes : List UInt8) (parameterTypeOids : List Nat) : Nat :=
  sqlBytes.length + 4 + parameterTypeOids.length * 4

def writeParse (sqlBytes : List UInt8) (parameterTypeOids : List Nat) (packet : Writer) :
    Except String Writer := do
  let packet ← message 0x50 (parseBodyLength sqlBytes parameterTypeOids) packet
  let packet ← u8 0 packet
  let packet ← bytes sqlBytes packet
  let packet ← u8 0 packet
  let packet ← i16 parameterTypeOids.length packet
  forEach (fun typeOid => i32 (Int.ofNat typeOid)) parameterTypeOids packet

def writeValue (parameter : NormalizedParam) (packet : Writer) : Except String Writer :=
  match parameter with
  | .null => i32 (-1) packet
  | .text value => do
    let packet ← i32 value.length packet
    bytes value packet
  | .binary value => do
    let packet ← i32 value.length packet
    bytes value packet

def writeBindExecute (parameters : List NormalizedParam) (packet : Writer) :
    Except String Writer := do
  let packet ← message 0x42 (bindLength parameters) packet
  let packet ← u8 0 packet
  let packet ← u8 0 packet
  let packet ← i16 parameters.length packet
  let packet ← forEach (fun parameter : NormalizedParam => i16 parameter.format) parameters packet
  let packet ← i16 parameters.length packet
  let packet ← forEach writeValue parameters packet
  let packet ← i16 1 packet
  let packet ← i16 0 packet
  let packet ← message 0x44 2 packet
  let packet ← u8 0x50 packet
  let packet ← u8 0 packet
  let packet ← message 0x45 5 packet
  let packet ← u8 0 packet
  let packet ← i32 0 packet
  message 0x53 0 packet

def encodeParseBindExecute (sql : String) (parameterTypeOids : List Nat)
    (parameters : List NormalizedParam) : Except String (List UInt8) := do
  let sqlBytes := utf8 sql
  let packet := Writer.new
    (parseBodyLength sqlBytes parameterTypeOids + bindLength parameters + 32)
  let packet ← writeParse sqlBytes parameterTypeOids packet
  let packet ← writeBindExecute parameters packet
  finish packet

/-- The messages of a packet. -/
def packetMessages (sql : String) (parameterTypeOids : List Nat)
    (parameters : List NormalizedParam) : List ExtendedMessage :=
  [.parse [] (utf8 sql) parameterTypeOids,
    .bind [] [] (parameters.map (·.format)) (parameters.map (·.value)) [0],
    .describe 0x50 [], .execute [] 0, .sync]

theorem writes_u8 (value : UInt8) : Writes (u8 value) [value] := Writes.store _

theorem writes_i16 (value : Nat) : Writes (i16 value) (bigEndian 2 value) := Writes.store _

theorem writes_bytes (value : List UInt8) : Writes (bytes value) value := Writes.copy _ _

theorem writes_i32 {value : Nat} (h : value < 2 ^ 32) :
    Writes (i32 (value : Int)) (bigEndian 4 value) := by
  have hvalue : ((value : Int) % 2 ^ 32).toNat = value := by omega
  have hop : i32 (value : Int) = fun packet => .ok (packet.store (bigEndian 4 value)) := by
    funext packet
    rw [i32, hvalue]
  rw [hop]
  exact Writes.store _

theorem writes_minus_one : Writes (i32 (-1)) (bigEndian 4 nullLength) := Writes.store _

variable {tag : UInt8}

/-- The head of a message: its tag and a length that counts itself. -/
theorem writes_message (h : bodyLength + 4 < 2 ^ 32) :
    Writes (message tag bodyLength) (tag :: bigEndian 4 (bodyLength + 4)) :=
  (writes_u8 tag).bind (writes_i32 h)

theorem length_flatMap_bigEndian (width : Nat) (ns : List Nat) :
    (ns.flatMap (bigEndian width)).length = ns.length * width := by
  induction ns with
  | nil => rw [flatMap_nil, length_nil, length_nil, Nat.zero_mul]
  | cons n rest ih =>
    rw [flatMap_cons, length_append, length_bigEndian, ih, length_cons, Nat.succ_mul]
    omega

/-- The length that is computed for Parse is that of its body. -/
theorem parse_body_length (sql : List UInt8) (oids : List Nat) :
    (parse [] sql oids).frame.body.length = parseBodyLength sql oids := by
  rw [frame, parseBodyLength]
  simp only [counted, length_append, length_bigEndian, length_flatMap_bigEndian, terminated,
    length_nil, length_singleton]
  omega

variable {oids : List Nat}

theorem writes_parse (hlength : parseBodyLength sqlBytes oids + 4 < 2 ^ 31)
    (hoids : ∀ oid ∈ oids, oid < 2 ^ 32) :
    Writes (writeParse sqlBytes oids) (parse [] sqlBytes oids).frame.encode := by
  have hencode : (parse [] sqlBytes oids).frame.encode =
      (0x50 :: bigEndian 4 (parseBodyLength sqlBytes oids + 4)) ++ ([0] ++ (sqlBytes ++ ([0] ++
        (bigEndian 2 oids.length ++ oids.flatMap (bigEndian 4))))) := by
    rw [Frame.encode, parse_body_length]
    simp [frame, terminated, counted]
  rw [hencode]
  exact (writes_message (by omega)).bind ((writes_u8 0).bind ((writes_bytes sqlBytes).bind
    ((writes_u8 0).bind ((writes_i16 oids.length).bind
      (Writes.forEach fun oid hoid => writes_i32 (hoids oid hoid))))))

/-! ## Bind and what follows it -/

theorem length_value (parameter : NormalizedParam) :
    (encodeValue parameter.value).length = 4 + match parameter with
      | .null => 0
      | .text value => value.length
      | .binary value => value.length := by
  cases parameter with
  | null => rfl
  | text value =>
    show (bigEndian 4 value.length ++ value).length = _
    rw [length_append, length_bigEndian]
  | binary value =>
    show (bigEndian 4 value.length ++ value).length = _
    rw [length_append, length_bigEndian]

/-- The length that is added up beforehand is that of the values. -/
theorem bindLength_eq (parameters : List NormalizedParam) :
    bindLength parameters = 10 + parameters.length * 2 +
      ((parameters.map (·.value)).flatMap encodeValue).length := by
  rw [bindLength]
  generalize 10 + parameters.length * 2 = start
  induction parameters generalizing start with
  | nil => rfl
  | cons parameter rest ih =>
    rw [foldl_cons, ih, map_cons, flatMap_cons, length_append, length_value]
    omega

/-- The length that is computed for Bind is that of its body. -/
theorem bind_body_length (parameters : List NormalizedParam) :
    (bind [] [] (parameters.map (·.format)) (parameters.map (·.value))
      [0]).frame.body.length = bindLength parameters := by
  rw [frame, bindLength_eq]
  simp only [counted, length_append, length_bigEndian, length_flatMap_bigEndian, terminated,
    length_nil, length_singleton, length_map]
  omega

variable {parameter : NormalizedParam}

theorem writes_value (h : ∀ value, parameter.value = some value → value.length < 2 ^ 31) :
    Writes (writeValue parameter) (encodeValue parameter.value) := by
  cases parameter with
  | null => exact writes_minus_one
  | text value =>
    have hlength := h value rfl
    exact (writes_i32 (by omega)).bind (writes_bytes value)
  | binary value =>
    have hlength := h value rfl
    exact (writes_i32 (by omega)).bind (writes_bytes value)

variable {value : List UInt8}

/-- A value is part of the Bind message. -/
theorem value_lt_bindLength (hmem : parameter ∈ parameters)
    (hvalue : parameter.value = some value) :
    value.length < bindLength parameters := by
  rw [bindLength_eq]
  have hlength : value.length ≤ (encodeValue parameter.value).length := by
    rw [hvalue]
    show value.length ≤ (bigEndian 4 value.length ++ value).length
    rw [length_append]
    omega
  have hpart : (encodeValue parameter.value).length ≤
      ((parameters.map (·.value)).flatMap encodeValue).length := by
    induction parameters with
    | nil => cases hmem
    | cons other rest ih =>
      rw [map_cons, flatMap_cons, length_append]
      rcases mem_cons.mp hmem with rfl | hmem
      · omega
      · have := ih hmem
        omega
  omega

theorem writes_bindExecute (hlength : bindLength parameters + 4 < 2 ^ 31) :
    Writes (writeBindExecute parameters)
      (encodeAll ([bind [] [] (parameters.map (·.format))
        (parameters.map (·.value)) [0], .describe 0x50 [], .execute [] 0,
        .sync].map frame)) := by
  have hencode : encodeAll ([bind [] [] (parameters.map (·.format))
      (parameters.map (·.value)) [0], .describe 0x50 [], .execute [] 0,
      .sync].map frame) =
      (0x42 :: bigEndian 4 (bindLength parameters + 4)) ++ ([0] ++ ([0] ++
        (bigEndian 2 parameters.length ++ ((parameters.flatMap fun parameter =>
          bigEndian 2 parameter.format) ++ (bigEndian 2 parameters.length ++
        ((parameters.flatMap fun parameter => encodeValue parameter.value) ++
        (bigEndian 2 1 ++ (bigEndian 2 0 ++ ((0x44 :: bigEndian 4 (2 + 4)) ++ ([0x50] ++ ([0] ++
        ((0x45 :: bigEndian 4 (5 + 4)) ++ ([0] ++ (bigEndian 4 0 ++
        (0x53 :: bigEndian 4 (0 + 4)))))))))))))))) := by
    rw [map_cons, encodeAll_cons, Frame.encode, bind_body_length]
    simp [frame, terminated, counted, encodeAll, Frame.encode, flatMap_map]
  rw [hencode]
  exact (writes_message (by omega)).bind ((writes_u8 0).bind ((writes_u8 0).bind
    ((writes_i16 _).bind ((Writes.forEach fun _ _ => writes_i16 _).bind ((writes_i16 _).bind
    ((Writes.forEach fun parameter hmem => writes_value fun value hvalue => by
      have := value_lt_bindLength hmem hvalue
      omega).bind
    ((writes_i16 1).bind ((writes_i16 0).bind ((writes_message (by omega)).bind
    ((writes_u8 _).bind ((writes_u8 0).bind ((writes_message (by omega)).bind
    ((writes_u8 0).bind ((writes_i32 (show 0 < 2 ^ 32 by omega)).bind
    (writes_message (by omega))))))))))))))))

/-- The parameter as the Rust crate has it: the type OID 0 is no type OID. -/
def rustParameter (parameter : Nat × NormalizedParam) : Parameter where
  typeOid := if parameter.1 = 0 then none else some (UInt32.ofNat parameter.1)
  format := if parameter.2.format = 1 then .binary else .text
  value := parameter.2.value

theorem format_lt (parameter : NormalizedParam) : parameter.format < 2 ^ 16 := by
  cases parameter with
  | null => exact Nat.two_pow_pos 16
  | text value => exact Nat.two_pow_pos 16
  | binary value => exact Nat.one_lt_two_pow (by omega)

theorem rustParameter_oid {parameter : Nat × NormalizedParam} (h : parameter.1 < 2 ^ 32) :
    ((rustParameter parameter).typeOid.getD 0).toNat = parameter.1 := by
  rw [rustParameter]
  by_cases hzero : parameter.1 = 0
  · rw [if_pos hzero, hzero]
    rfl
  · rw [if_neg hzero]
    show (UInt32.ofNat parameter.1).toNat = parameter.1
    exact Nat.mod_eq_of_lt h

theorem rustParameter_format (parameter : Nat × NormalizedParam) :
    (rustParameter parameter).format.code = parameter.2.format := by
  obtain ⟨oid, parameter⟩ := parameter
  cases parameter with
  | null => rfl
  | text value => rfl
  | binary value => rfl

variable {parameters : List (Nat × NormalizedParam)}

/-- The Rust check of the parameters lets these pass. -/
theorem validateExecutionParameters_ok (h : ∀ parameter ∈ parameters, parameter.1 < 2 ^ 32) :
    RustQuery.validateExecutionParameters (parameters.map rustParameter) = .ok () := by
  have hnone : (parameters.map rustParameter).findIdx?
      (fun parameter => decide (parameter.typeOid = some 0)) = none := by
    rw [List.findIdx?_eq_none_iff]
    intro parameter hmem
    obtain ⟨source, hsource, rfl⟩ := mem_map.mp hmem
    rw [decide_eq_false_iff_not]
    intro hzero
    have hoid := rustParameter_oid (h source hsource)
    rw [hzero] at hoid
    rw [rustParameter, if_pos (show source.1 = 0 from hoid.symm)] at hzero
    cases hzero
  rw [RustQuery.validateExecutionParameters, hnone]

theorem pushValues_eq (h : ∀ parameter ∈ parameters, ∀ value, parameter.2.value = some value →
      value.length < 2 ^ 31) (out : List UInt8) :
    pushValues out (parameters.map rustParameter) =
      .ok (out ++ (parameters.map (·.2.value)).flatMap encodeValue) := by
  induction parameters generalizing out with
  | nil => rw [map_nil, map_nil, flatMap_nil, append_nil]; rfl
  | cons parameter rest ih =>
    have hrest := ih fun other hother => h other (.tail parameter hother)
    have hvalue : (rustParameter parameter).value = parameter.2.value := rfl
    rw [map_cons, map_cons, flatMap_cons, pushValues, hvalue]
    cases hcase : parameter.2.value with
    | none =>
      show pushValues _ _ = _
      rw [hrest, append_assoc]
      rfl
    | some value =>
      have hlength := h parameter (.head _) value hcase
      show (pushSizedValue out value >>= fun out => _) = _
      rw [pushSizedValue, if_pos hlength]
      show pushValues _ _ = _
      rw [hrest]
      simp [encodeValue]

variable {out : List UInt8}

theorem pushFrontendMessage_eq (h : body.length + 4 < 2 ^ 31) :
    pushFrontendMessage out tag body = .ok (out ++ (⟨tag, body⟩ : Frame).encode) :=
  if_pos h

theorem pushCstring_eq (h : 0 ∉ value) : pushCstring out value = .ok (out ++ terminated value) := by
  rw [pushCstring, if_neg (by simpa using h), terminated, append_assoc]

theorem flatMap_oids (h : ∀ parameter ∈ parameters, parameter.1 < 2 ^ 32) :
    ((parameters.map rustParameter).flatMap fun parameter =>
      bigEndian 4 (parameter.typeOid.getD 0).toNat) =
      (parameters.map (·.1)).flatMap (bigEndian 4) := by
  induction parameters with
  | nil => rfl
  | cons parameter rest ih =>
    rw [map_cons, map_cons, flatMap_cons, flatMap_cons,
      rustParameter_oid (h parameter (.head _)),
      ih fun other hother => h other (.tail parameter hother)]

theorem flatMap_formats (parameters : List (Nat × NormalizedParam)) :
    ((parameters.map rustParameter).flatMap fun parameter => bigEndian 2 parameter.format.code) =
      (parameters.map (·.2.format)).flatMap (bigEndian 2) := by
  induction parameters with
  | nil => rfl
  | cons parameter rest ih =>
    rw [map_cons, map_cons, flatMap_cons, flatMap_cons, rustParameter_format,
      ih]

variable {sql : String}

theorem pushParse_eq (hsql : 0 ∉ utf8 sql) (hoids : ∀ parameter ∈ parameters, parameter.1 < 2 ^ 32)
    (hlength : parseBodyLength (utf8 sql) (parameters.map (·.1)) + 4 < 2 ^ 31) :
    pushParse [] sql (parameters.map rustParameter) =
      .ok (parse [] (utf8 sql) (parameters.map (·.1))).frame.encode := by
  have hbody := parse_body_length (utf8 sql) (parameters.map (·.1))
  rw [← hbody] at hlength
  have hframe : [] ++ terminated [] ++ terminated (utf8 sql) ++
      bigEndian 2 (parameters.map rustParameter).length ++
      ((parameters.map rustParameter).flatMap fun parameter =>
        bigEndian 4 (parameter.typeOid.getD 0).toNat) =
      (parse [] (utf8 sql) (parameters.map (·.1))).frame.body := by
    rw [flatMap_oids hoids]
    simp [frame, counted]
  simp only [pushParse, pushCstring_eq not_mem_nil, pushCstring_eq hsql]
  show pushFrontendMessage [] 0x50 _ = _
  rw [hframe, pushFrontendMessage_eq hlength]
  rfl

theorem pushBind_eq (hlength : bindLength (parameters.map (·.2)) + 4 < 2 ^ 31) :
    pushBind out (parameters.map rustParameter) 0 =
      .ok (out ++ (bind [] [] ((parameters.map (·.2)).map (·.format))
        ((parameters.map (·.2)).map (·.value)) [0]).frame.encode) := by
  have hvalues : ∀ parameter ∈ parameters, ∀ value, parameter.2.value = some value →
      value.length < 2 ^ 31 := by
    intro parameter hmem value hvalue
    have hlt := value_lt_bindLength (mem_map_of_mem (f := (·.2)) hmem) hvalue
    omega
  have hbody := bind_body_length (parameters.map (·.2))
  rw [← hbody] at hlength
  simp only [pushBind, pushCstring_eq not_mem_nil]
  show (pushValues _ _ >>= fun body => _) = _
  rw [pushValues_eq hvalues]
  show pushFrontendMessage out 0x42 _ = _
  have hframe : [] ++ terminated [] ++ terminated [] ++
      bigEndian 2 (parameters.map rustParameter).length ++
      ((parameters.map rustParameter).flatMap fun parameter =>
        bigEndian 2 parameter.format.code) ++
      bigEndian 2 (parameters.map rustParameter).length ++
      (parameters.map (·.2.value)).flatMap encodeValue ++ bigEndian 2 1 ++ bigEndian 2 0 =
      (bind [] [] ((parameters.map (·.2)).map (·.format))
        ((parameters.map (·.2)).map (·.value)) [0]).frame.body := by
    rw [flatMap_formats]
    simp [frame, counted, Function.comp_def]
  rw [hframe, pushFrontendMessage_eq hlength]
  rfl

/-- What the checks let pass is written as the messages of the packet. -/
theorem extendedStatement_ok
    (hsql : 0 ∉ utf8 sql) (hoids : ∀ parameter ∈ parameters, parameter.1 < 2 ^ 32)
    (hparse : parseBodyLength (utf8 sql) (parameters.map (·.1)) + 4 < 2 ^ 31)
    (hbind : bindLength (parameters.map (·.2)) + 4 < 2 ^ 31)
    (hcopy : RustSql.rejectCopyStatements sql = .ok ()) (hcount : parameters.length ≤ 32767) :
    extendedStatement sql (parameters.map rustParameter) 0 =
      .ok (encodeAll ((packetMessages sql (parameters.map (·.1))
        (parameters.map (·.2))).map frame)) := by
  have hinput : validateStatementInput sql (parameters.map rustParameter).length =
      .ok () := by
    rw [validateStatementInput, if_neg (by simpa using hsql), length_map,
      if_neg (by rw [maxI16]; omega)]
  have hdescribe : ∀ out, pushFrontendMessage out 0x44 [0x50, 0] =
      .ok (out ++ (describe 0x50 []).frame.encode) :=
    fun _ => pushFrontendMessage_eq (by decide)
  have hexecute : ∀ out, pushFrontendMessage out 0x45 [0, 0, 0, 0, 0] =
      .ok (out ++ (execute [] 0).frame.encode) :=
    fun _ => pushFrontendMessage_eq (by decide)
  have hsync : ∀ out, pushFrontendMessage out 0x53 [] =
      .ok (out ++ sync.frame.encode) :=
    fun _ => pushFrontendMessage_eq (by decide)
  have hok : ∀ {α β : Type} (a : α) (f : α → Except String β), (.ok a >>= f) = f a :=
    fun _ _ => rfl
  simp only [extendedStatement, hcopy, hinput, validateExecutionParameters_ok hoids,
    pushParse_eq hsql hoids hparse, pushBind_eq hbind, hdescribe, hexecute, hsync, hok]
  simp [packetMessages, encodeAll]

/-- What the Rust crate encodes has no top-level COPY and at most 32767 parameters. -/
theorem extendedStatement_refused (h : extendedStatement sql params code = .ok packet) :
    RustSql.rejectCopyStatements sql = .ok () ∧ params.length ≤ 32767 := by
  rw [extendedStatement] at h
  cases hcopy : RustSql.rejectCopyStatements sql with
  | error e =>
    rw [hcopy] at h
    cases h
  | ok _ =>
    refine ⟨rfl, ?_⟩
    rw [hcopy] at h
    by_contra hcount
    have hrefused : ∃ e, validateStatementInput sql params.length = .error e := by
      rw [validateStatementInput]
      split_ifs with hnul hmax
      · exact ⟨_, rfl⟩
      · exact ⟨_, rfl⟩
      · rw [maxI16] at hmax
        omega
    obtain ⟨e, he⟩ := hrefused
    simp only [he] at h
    cases h

/-- The buffer is filled exactly. -/
theorem encodeParseBindExecute_eq {parameters : List NormalizedParam}
    (hoids : ∀ oid ∈ oids, oid < 2 ^ 32) (hparse : parseBodyLength (utf8 sql) oids + 4 < 2 ^ 31)
    (hbind : bindLength parameters + 4 < 2 ^ 31) : encodeParseBindExecute sql oids parameters =
      .ok (encodeAll ((packetMessages sql oids parameters).map frame)) := by
  have hwrites := (writes_parse hparse hoids).bind (writes_bindExecute hbind)
  obtain ⟨w, hw, hfinish⟩ := hwrites.finish
    (parseBodyLength (utf8 sql) oids + bindLength parameters + 32) (by
      rw [length_append, Frame.length_encode, parse_body_length, map_cons,
        encodeAll_cons, length_append, Frame.length_encode, bind_body_length]
      simp [encodeAll, frame, terminated, Frame.encode]
      omega)
  show (writeParse _ _ _ >>= fun packet => writeBindExecute _ packet >>= finish) = _
  have hpacket : encodeAll ((packetMessages sql oids parameters).map frame) =
      (parse [] (utf8 sql) oids).frame.encode ++
        encodeAll ([bind [] [] (parameters.map (·.format))
          (parameters.map (·.value)) [0], .describe 0x50 [], .execute [] 0,
          .sync].map frame) := by
    rw [packetMessages, map_cons, encodeAll_cons]
  rw [← bind_assoc, hw, hpacket]
  show finish w = _
  rw [finish, hfinish]
  rfl

/-- The packet is exactly the five messages, and the Rust crate writes the same bytes for
every statement that its checks let pass. -/
theorem packet_exact (sql : String) (hsql : Char.ofNat 0 ∉ sql.toList)
    (parameters : List (Nat × NormalizedParam)) (hcount : parameters.length ≤ 65535)
    (hoids : ∀ parameter ∈ parameters, parameter.1 < 2 ^ 32)
    (hparse : (parse [] (utf8 sql)
      (parameters.map (·.1))).frame.body.length + 4 < 2 ^ 31)
    (hbind : (bind [] [] (parameters.map (·.2.format))
      (parameters.map (·.2.value)) [0]).frame.body.length + 4 < 2 ^ 31) :
    ∃ packet,
      encodeParseBindExecute sql (parameters.map (·.1)) (parameters.map (·.2)) = .ok packet ∧
      decodeAll packet = .ok [.parse [] (utf8 sql) (parameters.map (·.1)),
        .bind [] [] (parameters.map (·.2.format)) (parameters.map (·.2.value)) [0],
        .describe 0x50 [], .execute [] 0, .sync] ∧
      (extendedStatement sql (parameters.map rustParameter) 0 = .ok packet ↔
        RustSql.rejectCopyStatements sql = .ok () ∧ parameters.length ≤ 32767) := by
  have hzero : 0 ∉ utf8 sql := Utf8.zero_notMem_utf8 hsql
  have hoids' : ∀ oid ∈ parameters.map (·.1), oid < 2 ^ 32 := by
    intro oid hmem
    obtain ⟨parameter, hparameter, rfl⟩ := mem_map.mp hmem
    exact hoids parameter hparameter
  have hformats : parameters.map (·.2.format) = (parameters.map (·.2)).map (·.format) := by
    rw [map_map]
    rfl
  have hvalues : parameters.map (·.2.value) = (parameters.map (·.2)).map (·.value) := by
    rw [map_map]
    rfl
  rw [hformats, hvalues] at hbind ⊢
  have hparse' := hparse
  have hbind' := hbind
  rw [parse_body_length] at hparse'
  rw [bind_body_length] at hbind'
  refine ⟨_, encodeParseBindExecute_eq hoids' hparse' hbind', ?_, ?_⟩
  · refine decodeAll_encode fun message hmem => ?_
    -- The five messages fit their fields.
    simp only [packetMessages, mem_cons, not_mem_nil, or_false] at hmem
    rcases hmem with rfl | rfl | rfl | rfl | rfl
    · refine ⟨⟨not_mem_nil, hzero, ?_, hoids'⟩, ?_⟩
      · rw [length_map]
        omega
      · rw [Frame.Fits]
        omega
    · refine ⟨⟨not_mem_nil, not_mem_nil, ⟨?_, ?_⟩, ⟨?_, ?_⟩, ?_, ?_⟩, ?_⟩
      · rw [length_map, length_map]
        omega
      · intro code hcode
        obtain ⟨parameter, -, rfl⟩ := mem_map.mp hcode
        exact format_lt parameter
      · rw [length_map, length_map]
        omega
      · intro value hvalue
        obtain ⟨parameter, hparameter, hvalue⟩ := mem_map.mp hvalue
        have hlt := value_lt_bindLength hparameter hvalue
        omega
      · decide
      · decide
      · rw [Frame.Fits]
        omega
    · exact ⟨not_mem_nil, by decide⟩
    · exact ⟨⟨not_mem_nil, by decide⟩, by decide⟩
    · exact ⟨trivial, by decide⟩
  · constructor
    · intro haccepted
      have hchecks := extendedStatement_refused haccepted
      rwa [length_map] at hchecks
    · rintro ⟨hcopy, hfew⟩
      exact extendedStatement_ok hzero hoids hparse' hbind' hcopy hfew

/-- A typed text, a null without a type and a binary value. -/
theorem packet_exact_mixed : ∃ packet,
    encodeParseBindExecute "SELECT $1, $2, $3" [23, 0, 17]
        [.text [0x37], .null, .binary [0, 0xff]] = .ok packet ∧
      decodeAll packet = .ok [.parse [] (utf8 "SELECT $1, $2, $3") [23, 0, 17],
        .bind [] [] [0, 0, 1] [some [0x37], none, some [0, 0xff]] [0],
        .describe 0x50 [], .execute [] 0, .sync] ∧
      (extendedStatement "SELECT $1, $2, $3" [⟨some 23, .text, some [0x37]⟩, ⟨none, .text, none⟩,
          ⟨some 17, .binary, some [0, 0xff]⟩] 0 = .ok packet ↔
        RustSql.rejectCopyStatements "SELECT $1, $2, $3" = .ok () ∧ 3 ≤ 32767) :=
  packet_exact "SELECT $1, $2, $3" (by decide)
    [(23, .text [0x37]), (0, .null), (17, .binary [0, 0xff])] (by decide) (by decide) (by decide)
    (by decide)

/-- The Rust crate refuses a COPY that the TypeScript encoder writes. -/
theorem copy_packet_differs :
    (encodeParseBindExecute "COPY t TO STDOUT" [] []).toOption.isSome = true ∧
      (extendedStatement "COPY t TO STDOUT" [] 0).toOption = none := by
  decide +kernel

end Oliphaunt.ExtendedPacket
