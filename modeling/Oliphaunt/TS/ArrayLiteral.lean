import Oliphaunt.Model.Utf16

/-!
# Array literals

An array parameter travels as PostgreSQL array text. `encodeArrayLiteral` writes
it: every element but a null is quoted, with the backslash and the quote
escaped. `ArrayTextParser` reads such a text back, and reads what PostgreSQL
itself prints: elements without quotes, escapes outside quotes, and a text that
begins with its dimensions.

A JavaScript string is its list of code units, so that also a lone surrogate is
a character here. The parser of the source keeps the whole input and an offset
that only grows; here it keeps the input from that offset on.

* `parse_encodeArrayLiteral` — what is written is read back.
-/

namespace Oliphaunt.ArrayLiteral

open Utf16 (Text unit units)

def byteaOid : Nat := 17

/-- A value made by one of the parameter helpers, as `parameterMetadata` keeps
it. -/
inductive Wrapper where
  | null (typeOid : Option Nat)
  | text (value : Text) (typeOid : Option Nat)
  | binary (value : List UInt8) (typeOid : Option Nat)

def Wrapper.typeOid : Wrapper → Option Nat
  | .null typeOid => typeOid
  | .text _ typeOid => typeOid
  | .binary _ typeOid => typeOid

/-- An element of an array parameter. `S` are the numbers, big integers,
booleans, dates and plain records. -/
inductive ArrayValue (S : Type) where
  | null
  | undefined
  | array (values : List (ArrayValue S))
  | wrapper (value : Wrapper)
  | string (value : Text)
  | scalar (value : S)
  | binary (value : List UInt8)
  | unsupported

def hexDigit (n : Nat) : UInt16 :=
  if n < 10 then UInt16.ofNat (0x30 + n) else UInt16.ofNat (0x57 + n)

def bytesToHex (bytes : List UInt8) : Text :=
  bytes.flatMap fun byte => [hexDigit (byte.toNat / 16), hexDigit (byte.toNat % 16)]

def replaceAll (searched : UInt16) (replacement : Text) (value : Text) : Text :=
  value.flatMap fun c => if c = searched then replacement else [c]

def quoteArrayElement (value : Text) : Text :=
  unit '"' ::
    (replaceAll (unit '"') (units "\\\"") (replaceAll (unit '\\') (units "\\\\") value) ++
      [unit '"'])

def unsupportedObject (typeOid : Nat) : String :=
  s!"cannot safely encode object for PostgreSQL OID {typeOid}; use a typed helper or encoder"

def encodeBinary (bytes : List UInt8) : Option Nat → Except String Text
  | none => .ok (quoteArrayElement (units "\\x" ++ bytesToHex bytes))
  | some elementTypeOid =>
    if elementTypeOid ≠ byteaOid then .error (unsupportedObject elementTypeOid)
    else .ok (quoteArrayElement (units "\\x" ++ bytesToHex bytes))

def encodeWrapper (wrapper : Wrapper) (elementTypeOid : Option Nat) : Except String Text := do
  if let (some declared, some resolved) := (wrapper.typeOid, elementTypeOid) then
    if declared ≠ resolved then
      .error (s!"array element declares PostgreSQL OID {declared}, " ++
        s!"but the array resolves element OID {resolved}")
  match wrapper with
  | .null _ => .ok (units "NULL")
  | .binary value _ => encodeBinary value elementTypeOid
  | .text value _ => .ok (quoteArrayElement value)

section Encoder

-- `scalarText`, `dateText` and `json`, with the checks against the element type that go with
-- each of them.
variable {S : Type} (scalarElement : S → Option Nat → Except String Text)

mutual

def encodeArrayElement (elementTypeOid : Option Nat) : ArrayValue S → Except String Text
  | .null => .ok (units "NULL")
  | .undefined => .error "PostgreSQL arrays cannot contain undefined"
  | .array values => do
    let elements ← encodeElements elementTypeOid values
    .ok (unit '{' :: (List.intercalate (units ",") elements ++ [unit '}']))
  | .wrapper wrapper => encodeWrapper wrapper elementTypeOid
  | .string value => .ok (quoteArrayElement value)
  | .scalar value => do
    let text ← scalarElement value elementTypeOid
    .ok (quoteArrayElement text)
  | .binary value => encodeBinary value elementTypeOid
  | .unsupported => .error "PostgreSQL array element is unsupported; use an explicit helper"

def encodeElements (elementTypeOid : Option Nat) :
    List (ArrayValue S) → Except String (List Text)
  | [] => .ok []
  | value :: values => do
    let element ← encodeArrayElement elementTypeOid value
    let elements ← encodeElements elementTypeOid values
    .ok (element :: elements)

end

/-- The literal of an array: the same text as that of an array inside another. -/
def encodeArrayLiteral (values : List (ArrayValue S)) (elementTypeOid : Option Nat) :
    Except String Text := do
  let elements ← encodeElements scalarElement elementTypeOid values
  .ok (unit '{' :: (List.intercalate (units ",") elements ++ [unit '}']))

end Encoder

inductive ParsedArrayValue where
  | text (value : Text)
  | null
  | array (values : List ParsedArrayValue)

/-- What a reader took from the front of the input, and the input it left. -/
structure Parsed (α : Type) (input : Text) where
  value : α
  rest : Text
  rest_le : rest.length ≤ input.length

/-- The same result for a reader that had already passed over some input. -/
def Parsed.widen {α β : Type} {input whole : Text} (p : Parsed α input)
    (hle : input.length ≤ whole.length) (f : α → β) : Parsed β whole :=
  ⟨f p.value, p.rest, Nat.le_trans p.rest_le hle⟩

/-- Inside quotes, after the text `value` of the element so far. -/
def quotedElement (value : Text) : Text → Except String (Text × Text)
  | [] => .error "unterminated quoted PostgreSQL array value"
  | character :: rest =>
    if character = unit '"' then .ok (value, rest)
    else if character = unit '\\' then
      match rest with
      | [] => .error "unterminated PostgreSQL array escape"
      | escaped :: rest => quotedElement (value ++ [escaped]) rest
    else quotedElement (value ++ [character]) rest

/-- Outside quotes, after the text `value` of the element so far. -/
def unquotedElement (value : Text) : Text → Except String (Text × Text)
  | [] => .ok (value, [])
  | character :: rest =>
    if character = unit ',' ∨ character = unit '}' then .ok (value, character :: rest)
    else if character = unit '\\' then
      match rest with
      | [] => .error "unterminated PostgreSQL array escape"
      | escaped :: rest => unquotedElement (value ++ [escaped]) rest
    else unquotedElement (value ++ [character]) rest

variable {value input rest : Text} {value' : Text} {c : UInt16}

theorem quotedElement_length (h : quotedElement value input = .ok (value', rest)) :
    rest.length ≤ input.length := by
  fun_induction quotedElement value input with
  | case1 => cases h
  | case2 =>
    obtain ⟨-, rfl⟩ := Prod.mk.inj (Except.ok.inj h)
    simp
  | case3 => cases h
  | case4 _ _ _ _ ih => exact Nat.le_trans (ih h) (by simp; omega)
  | case5 _ _ _ _ _ ih => exact Nat.le_trans (ih h) (by simp)

theorem unquotedElement_length (h : unquotedElement value input = .ok (value', rest)) :
    rest.length ≤ input.length := by
  fun_induction unquotedElement value input with
  | case1 | case2 =>
    obtain ⟨-, rfl⟩ := Prod.mk.inj (Except.ok.inj h)
    exact Nat.le_refl _
  | case3 => cases h
  | case4 _ _ _ _ ih => exact Nat.le_trans (ih h) (by simp; omega)
  | case5 _ _ _ _ _ ih => exact Nat.le_trans (ih h) (by simp)

def element (input : Text) : Except String (Parsed ParsedArrayValue input) :=
  if input.head? = some (unit '"') then
    match h : quotedElement [] input.tail with
    | .error message => .error message
    | .ok (value, rest) =>
      .ok ⟨.text value, rest, Nat.le_trans (quotedElement_length h) (by simp)⟩
  else
    match h : unquotedElement [] input with
    | .error message => .error message
    | .ok (value, rest) =>
      .ok ⟨if value = units "NULL" then .null else .text value, rest, unquotedElement_length h⟩

theorem length_tail_lt (h : input.head? = some c) : input.tail.length < input.length := by
  cases input with
  | nil => cases h
  | cons _ _ => simp

mutual

def level (input : Text) : Except String (Parsed (List ParsedArrayValue) input) :=
  if hopen : input.head? = some (unit '{') then
    if input.tail.head? = some (unit '}') then
      .ok ⟨[], input.tail.tail, by simp; omega⟩
    else
      (levelLoop [] input.tail).map (·.widen (Nat.le_of_lt (length_tail_lt hopen)) id)
  else .error "PostgreSQL array text must start with \x7b"
termination_by (input.length, 0)
decreasing_by
  exact Prod.Lex.left _ _ (length_tail_lt hopen)

/-- One value of a level. -/
def levelItem (input : Text) : Except String (Parsed ParsedArrayValue input) :=
  if input.head? = some (unit '{') then (level input).map (·.widen (Nat.le_refl _) .array)
  else element input
termination_by (input.length, 1)
decreasing_by
  exact Prod.Lex.right _ (by omega)

/-- The `for (;;)` of a level, after the values of `result`. -/
def levelLoop (result : List ParsedArrayValue) (input : Text) :
    Except String (Parsed (List ParsedArrayValue) input) := do
  let item ← levelItem input
  if item.rest.head? = some (unit '}') then
    .ok ⟨result ++ [item.value], item.rest.tail, Nat.le_trans (by simp) item.rest_le⟩
  else if hcomma : item.rest.head? = some (unit ',') then
    (levelLoop (result ++ [item.value]) item.rest.tail).map
      (·.widen (Nat.le_trans (Nat.le_of_lt (length_tail_lt hcomma)) item.rest_le) id)
  else .error "invalid PostgreSQL array delimiter"
termination_by (input.length, 2)
decreasing_by
  · exact Prod.Lex.right _ (by omega)
  · exact Prod.Lex.left _ _ (Nat.lt_of_lt_of_le (length_tail_lt hcomma) item.rest_le)

end

/-- The input after the first `=`. -/
def afterDimensions : Text → Option Text
  | [] => none
  | c :: rest => if c = unit '=' then some rest else afterDimensions rest

def parse (input : Text) : Except String (List ParsedArrayValue) := do
  let start ←
    if input.head? = some (unit '[') then
      (afterDimensions input).elim (.error "invalid PostgreSQL array dimensions") .ok
    else .ok input
  let result ← level start
  if result.rest ≠ [] then .error "PostgreSQL array text has trailing data"
  else .ok result.value

/-- The reader succeeds with `value` and leaves `rest`. -/
def Yields {α : Type} {input : Text} (r : Except String (Parsed α input)) (value : α)
    (rest : Text) : Prop :=
  ∃ hle, r = .ok ⟨value, rest, hle⟩

theorem quotedElement_quote (value rest : Text) :
    quotedElement value (unit '"' :: rest) = .ok (value, rest) := by
  unfold quotedElement
  rw [if_pos rfl]

theorem quotedElement_backslash (value : Text) (escaped : UInt16) (rest : Text) :
    quotedElement value (unit '\\' :: escaped :: rest) =
      quotedElement (value ++ [escaped]) rest := by
  have hne : unit '\\' ≠ unit '"' := by decide
  rw [quotedElement, if_neg hne, if_pos rfl]

theorem quotedElement_other (value : Text) (rest : Text) (hquote : character ≠ unit '"')
    (hslash : character ≠ unit '\\') :
    quotedElement value (character :: rest) = quotedElement (value ++ [character]) rest := by
  rw [quotedElement.eq_def]
  simp only [if_neg hquote, if_neg hslash]

theorem quotedElement_escaped (value s rest : Text) :
    quotedElement value (replaceAll (unit '"') (units "\\\"")
      (replaceAll (unit '\\') (units "\\\\") s) ++ unit '"' :: rest) = .ok (value ++ s, rest) := by
  induction s generalizing value with
  | nil =>
    rw [List.append_nil]
    exact quotedElement_quote value rest
  | cons c s ih =>
    have hne : unit '\\' ≠ unit '"' := by decide
    have happend : value ++ c :: s = (value ++ [c]) ++ s := by simp
    rw [happend, ← ih (value ++ [c])]
    -- a backslash and a quote come as two characters, every other character as itself
    by_cases hslash : c = unit '\\'
    · subst hslash
      simp [replaceAll, units, quotedElement_backslash, hne]
    · by_cases hquote : c = unit '"'
      · subst hquote
        simp [replaceAll, units, quotedElement_backslash, hslash]
      · simp [replaceAll, quotedElement_other, hslash, hquote]

theorem element_of_quoted (h : quotedElement [] input = .ok (value, rest)) :
    Yields (element (unit '"' :: input)) (.text value) rest := by
  have hquote : (unit '"' :: input).head? = some (unit '"') := rfl
  rw [element, if_pos hquote]
  split
  next message herror => cases herror.symm.trans h
  next value' rest' hok =>
    obtain ⟨rfl, rfl⟩ := Prod.mk.inj (Except.ok.inj (hok.symm.trans h))
    exact ⟨_, rfl⟩

theorem element_of_unquoted (hhead : input.head? = some c) (hc : c ≠ unit '"')
    (h : unquotedElement [] input = .ok (units "NULL", rest)) :
    Yields (element input) .null rest := by
  have hquote :
      input.head? ≠ some (unit '"') := fun heq => hc (Option.some.inj (hhead.symm.trans heq))
  rw [element, if_neg hquote]
  split
  next message herror => cases herror.symm.trans h
  next value' rest' hok =>
    obtain ⟨rfl, rfl⟩ := Prod.mk.inj (Except.ok.inj (hok.symm.trans h))
    exact ⟨_, rfl⟩

/-- What follows an element: the comma before the next one, or the end of the
level. -/
def Delimited (rest : Text) : Prop := ∃ c tail, rest = c :: tail ∧ (c = unit ',' ∨ c = unit '}')

theorem element_quoteArrayElement (s rest : Text) :
    Yields (element (quoteArrayElement s ++ rest)) (.text s) rest := by
  have hread := quotedElement_escaped [] s rest
  have htext : quoteArrayElement s ++ rest = unit '"' ::
      (replaceAll (unit '"') (units "\\\"") (replaceAll (unit '\\') (units "\\\\") s) ++
        unit '"' :: rest) := by
    simp [quoteArrayElement]
  rw [htext]
  exact element_of_quoted hread

theorem element_null (hrest : Delimited rest) :
    Yields (element (units "NULL" ++ rest)) .null rest := by
  obtain ⟨c, tail, rfl, hc⟩ := hrest
  have hstop (value : Text) : unquotedElement value (c :: tail) = .ok (value, c :: tail) := by
    unfold unquotedElement
    rw [if_pos hc]
  refine element_of_unquoted (c := unit 'N') rfl (by decide) ?_
  show unquotedElement [] (unit 'N' :: unit 'U' :: unit 'L' :: unit 'L' :: c :: tail) = _
  have hplain (value : Text) (d e : UInt16) (more : Text)
      (hd : d ≠ unit ',' ∧ d ≠ unit '}' ∧ d ≠ unit '\\') :
      unquotedElement value (d :: e :: more) = unquotedElement (value ++ [d]) (e :: more) := by
    rw [unquotedElement, if_neg (by simp [hd.1, hd.2.1]), if_neg hd.2.2]
  rw [hplain _ _ _ _ (by decide), hplain _ _ _ _ (by decide), hplain _ _ _ _ (by decide),
    hplain _ _ _ _ (by decide), hstop]
  rfl

theorem level_empty (rest : Text) : Yields (level (unit '{' :: unit '}' :: rest)) [] rest := by
  have hopen : (unit '{' :: unit '}' :: rest).head? = some (unit '{') := rfl
  have hclose : (unit '{' :: unit '}' :: rest).tail.head? = some (unit '}') := rfl
  rw [level, dif_pos hopen, if_pos hclose]
  exact ⟨_, rfl⟩

variable {values : List ParsedArrayValue}

theorem level_of_levelLoop
    (hhead : input.head? ≠ some (unit '}')) (h : Yields (levelLoop [] input) values rest) :
    Yields (level (unit '{' :: input)) values rest := by
  obtain ⟨hle, hloop⟩ := h
  have hopen : (unit '{' :: input).head? = some (unit '{') := rfl
  rw [level, dif_pos hopen]
  simp only [List.tail_cons, if_neg hhead, hloop]
  exact ⟨_, rfl⟩

theorem levelLoop_last {result : List ParsedArrayValue}
    {value : ParsedArrayValue} (h : Yields (levelItem input) value (unit '}' :: rest)) :
    Yields (levelLoop result input) (result ++ [value]) rest := by
  obtain ⟨hle, hitem⟩ := h
  rw [levelLoop, hitem]
  exact ⟨_, rfl⟩

theorem levelLoop_more {more : Text} {value : ParsedArrayValue}
    (h : Yields (levelItem input) value (unit ',' :: more))
    (hmore : Yields (levelLoop (result ++ [value]) more) values rest) :
    Yields (levelLoop result input) values rest := by
  obtain ⟨hle, hitem⟩ := h
  obtain ⟨hle', hloop⟩ := hmore
  have hopen : (unit ',' :: more).head? ≠ some (unit '}') := by
    show some (unit ',') ≠ some (unit '}')
    decide
  have hcomma : (unit ',' :: more).head? = some (unit ',') := rfl
  rw [levelLoop, hitem]
  simp only [bind, Except.bind, if_neg hopen, dif_pos hcomma, List.tail_cons, hloop]
  exact ⟨_, rfl⟩

section RoundTrip

variable {S : Type}

mutual

/-- A nested list of strings and nulls, as the value of a parameter. -/
def ParsedArrayValue.toArrayValue : ParsedArrayValue → ArrayValue S
  | .text value => .string value
  | .null => .null
  | .array values => .array (toArrayValues values)

def toArrayValues : List ParsedArrayValue → List (ArrayValue S)
  | [] => []
  | value :: values => value.toArrayValue :: toArrayValues values

end

variable (scalarElement : S → Option Nat → Except String Text) (elementTypeOid : Option Nat)

/-- The text of one value is read back whatever delimited text follows it. -/
def ItemReads (value : ParsedArrayValue) : Prop :=
  ∃ text, encodeArrayElement scalarElement elementTypeOid value.toArrayValue = .ok text ∧
    (∀ rest, (text ++ rest).head? ≠ some (unit '}')) ∧
    ∀ rest, Delimited rest → Yields (levelItem (text ++ rest)) value rest

/-- The texts of the values of one level are read back up to the brace that
closes it. -/
def LevelReads (values : List ParsedArrayValue) : Prop :=
  ∃ elements, encodeElements scalarElement elementTypeOid (toArrayValues values) = .ok elements ∧
    ∀ rest, Yields (level (unit '{' :: (List.intercalate (units ",") elements ++
      unit '}' :: rest))) values rest

theorem itemReads_text (value : Text) :
    ItemReads scalarElement elementTypeOid (.text value) := by
  refine ⟨quoteArrayElement value, rfl, fun rest => ?_, fun rest _ => ?_⟩
  · show some (unit '"') ≠ some (unit '}')
    decide
  · have hbrace : (quoteArrayElement value ++ rest).head? ≠ some (unit '{') := by
      show some (unit '"') ≠ some (unit '{')
      decide
    rw [levelItem, if_neg hbrace]
    exact element_quoteArrayElement value rest

theorem itemReads_null : ItemReads scalarElement elementTypeOid .null := by
  refine ⟨units "NULL", rfl, fun rest => ?_, fun rest hrest => ?_⟩
  · show some (unit 'N') ≠ some (unit '}')
    decide
  · have hbrace : (units "NULL" ++ rest).head? ≠ some (unit '{') := by
      show some (unit 'N') ≠ some (unit '{')
      decide
    rw [levelItem, if_neg hbrace]
    exact element_null hrest

theorem itemReads_array (h : LevelReads scalarElement elementTypeOid values) :
    ItemReads scalarElement elementTypeOid (.array values) := by
  obtain ⟨elements, hencode, hlevel⟩ := h
  refine ⟨unit '{' :: (List.intercalate (units ",") elements ++ [unit '}']), ?_,
    fun rest => ?_, fun rest _ => ?_⟩
  · rw [ParsedArrayValue.toArrayValue, encodeArrayElement, hencode]
    rfl
  · show some (unit '{') ≠ some (unit '}')
    decide
  · obtain ⟨hle, hread⟩ := hlevel rest
    have hbrace : (unit '{' :: (List.intercalate (units ",") elements ++
      unit '}' :: rest)).head? = some (unit '{') := rfl
    have htext : unit '{' :: (List.intercalate (units ",") elements ++ [unit '}']) ++ rest =
      unit '{' :: (List.intercalate (units ",") elements ++ unit '}' :: rest) := by simp
    rw [htext, levelItem, if_pos hbrace, hread]
    exact ⟨_, rfl⟩

theorem intercalate_singleton (text : Text) : List.intercalate (units ",") [text] = text := by
  simp [List.intercalate]

theorem intercalate_cons (text next : Text) (elements : List Text) (rest : Text) :
    List.intercalate (units ",") (text :: next :: elements) ++ rest =
      text ++ unit ',' :: (List.intercalate (units ",") (next :: elements) ++ rest) := by
  simp [List.intercalate, units]

theorem levelLoop_reads (value : ParsedArrayValue) (values : List ParsedArrayValue)
    (h : ∀ v ∈ value :: values, ItemReads scalarElement elementTypeOid v) :
    ∃ text elements,
      encodeElements scalarElement elementTypeOid (toArrayValues (value :: values)) =
        .ok (text :: elements) ∧
      (∀ rest, (List.intercalate (units ",") (text :: elements) ++ rest).head? ≠
        some (unit '}')) ∧
      ∀ result rest, Yields (levelLoop result
        (List.intercalate (units ",") (text :: elements) ++ unit '}' :: rest))
        (result ++ value :: values) rest := by
  induction values generalizing value with
  | nil =>
    obtain ⟨text, hencode, hhead, hitem⟩ := h value (.head _)
    refine ⟨text, [], ?_, ?_, fun result rest => ?_⟩
    · rw [toArrayValues, toArrayValues, encodeElements, hencode]
      rfl
    · rw [intercalate_singleton]
      exact hhead
    · rw [intercalate_singleton]
      exact levelLoop_last (hitem (unit '}' :: rest) ⟨_, _, rfl, .inr rfl⟩)
  | cons next values ih =>
    obtain ⟨text, hencode, hhead, hitem⟩ := h value (.head _)
    obtain ⟨text', elements, hmore, -, hloop⟩ :=
      ih next (fun v hv => h v (.tail _ hv))
    refine ⟨text, text' :: elements, ?_, fun rest => ?_, fun result rest => ?_⟩
    · rw [toArrayValues, encodeElements, hencode, hmore]
      rfl
    · rw [intercalate_cons]
      exact hhead _
    · have hrest := hloop (result ++ [value]) rest
      rw [List.append_assoc] at hrest
      rw [intercalate_cons]
      exact levelLoop_more (hitem _ ⟨_, _, rfl, .inl rfl⟩) hrest

theorem levelReads_of_items (values : List ParsedArrayValue)
    (h : ∀ v ∈ values, ItemReads scalarElement elementTypeOid v) :
    LevelReads scalarElement elementTypeOid values := by
  cases values with
  | nil => exact ⟨[], rfl, fun rest => level_empty rest⟩
  | cons value values =>
    obtain ⟨text, elements, hencode, hhead, hloop⟩ :=
      levelLoop_reads scalarElement elementTypeOid value values h
    exact ⟨text :: elements, hencode, fun rest => level_of_levelLoop (hhead _) (hloop [] rest)⟩

mutual

/-- By induction on the value: nested arrays are read back as they were. -/
theorem itemReads : ∀ value, ItemReads scalarElement elementTypeOid value
  | .text value => itemReads_text scalarElement elementTypeOid value
  | .null => itemReads_null scalarElement elementTypeOid
  | .array values =>
    itemReads_array scalarElement elementTypeOid
      (levelReads_of_items scalarElement elementTypeOid values (itemReads_mem values))

theorem itemReads_mem : ∀ (values : List ParsedArrayValue), ∀ v ∈ values,
    ItemReads scalarElement elementTypeOid v
  | [] => nofun
  | value :: values => fun v hv => by
    rcases List.mem_cons.mp hv with heq | hv
    · rw [heq]
      exact itemReads value
    · exact itemReads_mem values v hv

end

/-- An array parameter of strings and nulls, nested to any depth, comes back from
its literal as it was: no character of a string is lost or read as structure,
and a null is not the string `NULL`. -/
theorem parse_encodeArrayLiteral (values : List ParsedArrayValue) :
    encodeArrayLiteral scalarElement (toArrayValues values) elementTypeOid >>= parse =
      .ok values := by
  obtain ⟨elements, hencode, hlevel⟩ :=
    levelReads_of_items scalarElement elementTypeOid values
      (itemReads_mem scalarElement elementTypeOid values)
  obtain ⟨hle, hread⟩ := hlevel []
  have hopen : (unit '{' :: (List.intercalate (units ",") elements ++ [unit '}'])).head? ≠
      some (unit '[') := by
    show some (unit '{') ≠ some (unit '[')
    decide
  rw [encodeArrayLiteral, hencode]
  show parse (unit '{' :: (List.intercalate (units ",") elements ++ [unit '}'])) = .ok values
  show (level _ >>= _) = _
  rw [hread]
  rfl

end RoundTrip

end Oliphaunt.ArrayLiteral
