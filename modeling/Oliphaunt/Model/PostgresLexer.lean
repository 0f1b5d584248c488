import Oliphaunt.Model.Statements

/-!
# The lexer of PostgreSQL

How PostgreSQL divides a SQL text into tokens: white space with the vertical tab,
`--` and nested block comments, quoted identifiers, dollar quotes, numbers and
parameters, and strings. An ordinary string escapes with backslashes unless
`standard_conforming_strings` is on, an `E''` string always does, and a bit string
(`B''`, `X''`) ends at the next quote. A string goes on in another quoted segment
after white space that has a newline; the further segments are read as the first.

* `token` — one token, `none` where a comment or a quote has no end;
* `Lexes` — a text has no such place;
* `statements` — the statements of a text, as their tokens outside parentheses;
* `afterNumber_split` — what the text of a number looks like.

A number ends where its digits end, and a name may begin there. Recent versions
refuse a text in which one does; nothing here rests on that.
-/

namespace PostgresLexer

open Statements List

def quote : Char := Char.ofNat 0x27

def doubleQuote : Char := Char.ofNat 0x22

def backslash : Char := Char.ofNat 0x5c

def isSpace (c : Char) : Bool := [0x9, 0xa, 0xb, 0xc, 0xd, 0x20].contains c.toNat

def isNewline (c : Char) : Bool := c = '\n' || c = '\r'

def isDigit (c : Char) : Bool := 0x30 ≤ c.toNat && c.toNat ≤ 0x39

def isHexDigit (c : Char) : Bool :=
  isDigit c || (0x41 ≤ c.toNat && c.toNat ≤ 0x46) || (0x61 ≤ c.toNat && c.toNat ≤ 0x66)

def isIdentStart (c : Char) : Bool :=
  c = '_' || (0x41 ≤ c.toNat && c.toNat ≤ 0x5a) || (0x61 ≤ c.toNat && c.toNat ≤ 0x7a) ||
    0x80 ≤ c.toNat

/-- A later character of a dollar quote's tag. -/
def isTagCont (c : Char) : Bool := isIdentStart c || isDigit c

def isIdentCont (c : Char) : Bool := isTagCont c || c = '$'

/-- What follows the line. -/
def afterLine (cs : List Char) : List Char := (cs.dropWhile fun c => !isNewline c).tail

/-- What follows a block comment, inside `depth` open ones. -/
def afterBlock : Nat → List Char → Option (List Char)
  | 0, cs => some cs
  | _ + 1, [] => none
  | _ + 1, [_] => none
  | depth + 1, c :: d :: cs =>
    if c = '/' ∧ d = '*' then afterBlock (depth + 2) cs
    else if c = '*' ∧ d = '/' then afterBlock depth cs
    else afterBlock (depth + 1) (d :: cs)

/-- What follows the closing quote. -/
def afterQuote (quote : Char) (escapes : Bool) : List Char → Option (List Char)
  | [] => none
  | [c] => if c = quote then some [] else none
  | c :: d :: cs =>
    if escapes ∧ c = backslash then afterQuote quote escapes cs
    else if c = quote then if d = quote then afterQuote quote escapes cs else some (d :: cs)
    else afterQuote quote escapes (d :: cs)

/-- The white space in front of a further segment of a string: what follows the opening
quote of the segment, if the white space has a newline. -/
def nextSegment (newline : Bool) (cs : List Char) : Option (List Char) :=
  match cs with
  | [] => none
  | c :: cs =>
    if isSpace c then nextSegment (newline || isNewline c) cs
    else if c = '-' ∧ cs.head? = some '-' then nextSegment true (afterLine cs.tail)
    else if c = quote ∧ newline then some cs
    else none
termination_by cs.length
decreasing_by
  · exact Nat.lt_succ_self _
  · refine Nat.lt_succ_of_le ?_
    exact ((tail_suffix _).trans
      ((dropWhile_suffix _).trans (tail_suffix _))).length_le

variable {escapes : Bool} {cs rest : List Char}

theorem afterQuote_suffix (h : afterQuote q escapes cs = some rest) : rest <:+ cs := by
  fun_induction afterQuote q escapes cs with
  | case1 => cases h
  | case2 => exact Option.some.inj h ▸ nil_suffix
  | case3 => cases h
  | case4 c d cs _ ih => exact (ih h).trans (suffix_cons_cons ..)
  | case5 cs _ ih => exact (ih h).trans (suffix_cons_cons ..)
  | case6 d cs _ _ => exact Option.some.inj h ▸ suffix_cons _ _
  | case7 c d cs _ _ ih => exact (ih h).trans (suffix_cons _ _)

theorem nextSegment_length {segment : List Char} (h : nextSegment newline cs = some segment) :
    segment.length < cs.length := by
  fun_induction nextSegment newline cs with
  | case1 => cases h
  | case2 newline c cs _ ih => exact Nat.lt_succ_of_lt (ih h)
  | case3 newline c cs _ _ ih =>
    have hline : (afterLine cs.tail).length ≤ cs.length := ((tail_suffix _).trans
      ((dropWhile_suffix _).trans (tail_suffix _))).length_le
    have := ih h
    rw [length_cons]
    omega
  | case4 newline cs _ _ _ =>
    rw [← Option.some.inj h]
    exact Nat.lt_succ_self _
  | case5 => cases h

/-- How a string is read. -/
inductive StringKind where
  | ordinary (escapes : Bool)
  /-- a bit string, in which neither a backslash nor a second quote is special -/
  | bits
deriving DecidableEq, Repr

/-- What follows the closing quote of a segment. -/
def afterSegment : StringKind → List Char → Option (List Char)
  | .ordinary escapes, cs => afterQuote quote escapes cs
  | .bits, cs =>
    match cs.dropWhile (· ≠ quote) with
    | [] => none
    | _ :: rest => some rest

theorem afterSegment_suffix (h : afterSegment kind cs = some rest) : rest <:+ cs := by
  cases kind with
  | ordinary escapes => exact afterQuote_suffix h
  | bits =>
    simp only [afterSegment] at h
    split at h <;> cases h
    rename_i c hrest
    exact (suffix_cons c rest).trans (hrest ▸ dropWhile_suffix _)

/-- What follows the further segments of a string. -/
def afterSegments (kind : StringKind) (cs : List Char) : Option (List Char) :=
  match hsegment : nextSegment false cs with
  | none => some cs
  | some segment =>
    match hquote : afterSegment kind segment with
    | none => none
    | some rest => afterSegments kind rest
termination_by cs.length
decreasing_by
  exact Nat.lt_of_le_of_lt (afterSegment_suffix hquote).length_le (nextSegment_length hsegment)

/-- What follows a string, after its opening quote. -/
def afterString (kind : StringKind) (cs : List Char) : Option (List Char) :=
  (afterSegment kind cs).bind (afterSegments kind)

/-- The delimiter of a dollar quote, after its first dollar sign. -/
def dollarDelimiter (cs : List Char) : Option (List Char) :=
  let tag := cs.takeWhile isTagCont
  if (cs.dropWhile isTagCont).head? = some '$' ∧ tag.head?.all isIdentStart then
    some ('$' :: tag ++ ['$'])
  else none

/-- What follows the next occurrence of the delimiter. -/
def afterDelimiter (delimiter : List Char) : List Char → Option (List Char)
  | [] => none
  | c :: cs =>
    if delimiter.isPrefixOf (c :: cs) then some ((c :: cs).drop delimiter.length)
    else afterDelimiter delimiter cs

/-- What follows the digits, which single underscores may separate. -/
def afterDigits (digit : Char → Bool) : List Char → List Char
  | [] => []
  | [c] => if digit c then [] else [c]
  | c :: d :: cs =>
    if digit c then afterDigits digit (d :: cs)
    else if c = '_' ∧ digit d then afterDigits digit cs
    else c :: d :: cs

/-- The digits of a radix, by the letter that stands for it after a zero. -/
def radixDigit (letter : Char) : Option (Char → Bool) :=
  if letter = 'x' ∨ letter = 'X' then some isHexDigit
  else if letter = 'o' ∨ letter = 'O' then some fun c => 0x30 ≤ c.toNat && c.toNat ≤ 0x37
  else if letter = 'b' ∨ letter = 'B' then some fun c => c = '0' || c = '1'
  else none

/-- What follows an integer with a radix, after its zero. -/
def afterRadix (cs : List Char) : Option (List Char) :=
  match cs with
  | [] => none
  | letter :: digits =>
    (radixDigit letter).bind fun digit =>
      let rest := afterDigits digit digits
      if rest = digits then none else some rest

/-- What follows the fraction of a number; two points are an operator. -/
def afterFraction (cs : List Char) : List Char :=
  match cs with
  | [] => []
  | c :: rest =>
    if c ≠ '.' ∨ rest.head? = some '.' then c :: rest
    else if rest.head?.any isDigit then afterDigits isDigit rest
    else rest

def dropSign : List Char → List Char
  | [] => []
  | c :: cs => if c = '+' ∨ c = '-' then cs else c :: cs

/-- What follows the exponent of a number. -/
def afterExponent (cs : List Char) : List Char :=
  match cs with
  | [] => []
  | c :: rest =>
    if (c = 'e' ∨ c = 'E') ∧ (dropSign rest).head?.any isDigit then
      afterDigits isDigit (dropSign rest)
    else c :: rest

/-- What follows the number or parameter that begins with `c`, if there is one. -/
def afterNumber (c : Char) (cs : List Char) : Option (List Char) :=
  if c = '$' ∧ cs.head?.any isDigit then some (afterDigits isDigit cs)
  else if c = '.' ∧ cs.head?.any isDigit then some (afterExponent (afterDigits isDigit cs))
  else if isDigit c then
    match if c = '0' then afterRadix cs else none with
    | some rest => some rest
    | none => some (afterExponent (afterFraction (afterDigits isDigit cs)))
  else none

/-- The letter in front of a bit string. -/
def isBitLetter (c : Char) : Bool := c = 'b' || c = 'B' || c = 'x' || c = 'X'

/-- A name, or a single character. -/
def plainToken (c : Char) (cs : List Char) : Found Char × List Char :=
  if c = '(' then (.openParen, cs)
  else if c = ')' then (.closeParen, cs)
  else if c = ';' then (.semicolon, cs)
  else if isIdentStart c then (.word (c :: cs.takeWhile isIdentCont), cs.dropWhile isIdentCont)
  else (.other, cs)

/-- The token at `c :: cs` and what follows it, `none` if it has no end. -/
def token (standardConformingStrings : Bool) (c : Char) (cs : List Char) :
    Option (Found Char × List Char) :=
  if isSpace c then some (.skipped, cs)
  else if c = '-' ∧ cs.head? = some '-' then some (.skipped, afterLine cs.tail)
  else if c = '/' ∧ cs.head? = some '*' then (afterBlock 1 cs.tail).map (.skipped, ·)
  else if (c = 'e' ∨ c = 'E') ∧ cs.head? = some quote then
    (afterString (.ordinary true) cs.tail).map (.other, ·)
  else if isBitLetter c ∧ cs.head? = some quote then (afterString .bits cs.tail).map (.other, ·)
  else if c = quote then (afterString (.ordinary !standardConformingStrings) cs).map (.other, ·)
  else if c = doubleQuote then (afterQuote doubleQuote false cs).map (.other, ·)
  else
    match afterNumber c cs, if c = '$' then dollarDelimiter cs else none with
    | some rest, _ => some (.other, rest)
    | none, some delimiter =>
      (afterDelimiter delimiter (cs.drop (delimiter.length - 1))).map (.other, ·)
    | none, none => some (plainToken c cs)

theorem afterBlock_suffix (h : afterBlock depth cs = some rest) : rest <:+ cs := by
  fun_induction afterBlock depth cs with
  | case1 cs => exact Option.some.inj h ▸ suffix_rfl
  | case2 => cases h
  | case3 => cases h
  | case4 depth c d cs _ ih => exact (ih h).trans (suffix_cons_cons ..)
  | case5 depth c d cs _ _ ih => exact (ih h).trans (suffix_cons_cons ..)
  | case6 depth c d cs _ _ ih => exact (ih h).trans (suffix_cons _ _)

theorem afterSegments_length
    (h : afterSegments kind cs = some rest) : rest.length ≤ cs.length := by
  fun_induction afterSegments kind cs with
  | case1 cs _ => exact Option.some.inj h ▸ Nat.le_refl _
  | case2 => cases h
  | case3 cs segment hsegment rest' hquote ih =>
    have hrest := ih h
    have hless := (afterSegment_suffix hquote).length_le
    have hnext := nextSegment_length hsegment
    omega

theorem afterString_length (h : afterString kind cs = some rest) : rest.length ≤ cs.length := by
  obtain ⟨first, hfirst, hrest⟩ := Option.bind_eq_some_iff.mp h
  exact Nat.le_trans (afterSegments_length hrest) (afterSegment_suffix hfirst).length_le

theorem afterDelimiter_suffix (h : afterDelimiter delimiter cs = some rest) : rest <:+ cs := by
  induction cs with
  | nil => cases h
  | cons c cs ih =>
    simp only [afterDelimiter] at h
    split at h
    · exact Option.some.inj h ▸ drop_suffix _ _
    · exact (ih h).trans (suffix_cons c cs)

/-! ## The text of a number -/

theorem afterDigits_split (digit : Char → Bool) (cs : List Char) :
    ∃ used, cs = used ++ afterDigits digit cs ∧ (∀ c ∈ used, digit c = true ∨ c = '_') ∧
      (cs.head?.any digit = true → used ≠ []) := by
  fun_induction afterDigits digit cs with
  | case1 => exact ⟨[], rfl, by simp, by simp⟩
  | case2 c hc => exact ⟨[c], rfl, by simp [hc], by simp⟩
  | case3 c hc => exact ⟨[], rfl, by simp, by simp [hc]⟩
  | case4 c d cs hc ih =>
    obtain ⟨used, hcs, hused, -⟩ := ih
    exact ⟨c :: used, congrArg (c :: ·) hcs, by simpa [hc] using hused, by simp⟩
  | case5 c d cs _ hd ih =>
    obtain ⟨used, hcs, hused, -⟩ := ih
    exact ⟨c :: d :: used, congrArg (c :: d :: ·) hcs, by simpa [hd] using hused, by simp⟩
  | case6 c d cs hc _ => exact ⟨[], rfl, by simp, by simp [hc]⟩

/-- The text of a decimal number or the rest of one: digits, underscores and points, an
exponent's letter with something behind it, and its sign with a digit behind it. -/
def decimalText : List Char → Bool
  | [] => true
  | c :: cs =>
    (isDigit c || c = '.' || c = '_' || ((c = 'e' || c = 'E') && !cs.isEmpty) ||
      ((c = '+' || c = '-') && cs.head?.any isDigit)) && decimalText cs

variable {used more : List Char}

theorem decimalText_digit (hc : isDigit c = true ∨ c = '_') (hmore : decimalText more = true) :
    decimalText (c :: more) = true := by
  rw [decimalText, hmore, Bool.and_true]
  rcases hc with hc | rfl
  · rw [hc]
    rfl
  · rfl

theorem decimalText_letter (hc : c = 'e' ∨ c = 'E') (hmore : decimalText (d :: more) = true) :
    decimalText (c :: d :: more) = true := by
  rw [decimalText, hmore, Bool.and_true]
  rcases hc with rfl | rfl <;> rfl

theorem decimalText_sign (hc : c = '+' ∨ c = '-') (hd : isDigit d = true)
    (hmore : decimalText (d :: more) = true) : decimalText (c :: d :: more) = true := by
  rw [decimalText, hmore, head?_cons, Option.any_some, hd]
  rcases hc with rfl | rfl <;> rfl

theorem decimalText_append (hused : ∀ c ∈ used, isDigit c = true ∨ c = '_')
    (hmore : decimalText more = true) : decimalText (used ++ more) = true := by
  induction used with
  | nil => exact hmore
  | cons c used ih =>
    exact decimalText_digit (hused c (.head _)) (ih fun d hd => hused d (.tail _ hd))

theorem decimalText_digits (hused : ∀ c ∈ used, isDigit c = true ∨ c = '_') :
    decimalText used = true := by
  rw [← append_nil used]
  exact decimalText_append hused rfl

theorem decimalText_of_suffix (h : more <:+ used) (hused : decimalText used = true) :
    decimalText more = true := by
  obtain ⟨before, rfl⟩ := h
  induction before with
  | nil => exact hused
  | cons c before ih =>
    rw [cons_append, decimalText, Bool.and_eq_true] at hused
    exact ih hused.2

theorem dropSign_split (cs : List Char) : cs = dropSign cs ∨
    ∃ sign, (sign = '+' ∨ sign = '-') ∧ cs = sign :: dropSign cs := by
  cases cs with
  | nil => exact .inl rfl
  | cons c cs =>
    rw [dropSign]
    split
    · exact .inr ⟨c, ‹_›, rfl⟩
    · exact .inl rfl

theorem afterExponent_split (cs : List Char) :
    ∃ used, cs = used ++ afterExponent cs ∧ decimalText used = true := by
  unfold afterExponent
  split
  · exact ⟨[], rfl, rfl⟩
  rename_i c rest
  split
  case isFalse => exact ⟨[], rfl, rfl⟩
  case isTrue hexponent =>
    obtain ⟨hletter, hdigit⟩ := hexponent
    obtain ⟨used, hsplit, hused, hne⟩ := afterDigits_split isDigit (dropSign rest)
    obtain ⟨d, used, rfl⟩ := exists_cons_of_ne_nil (hne hdigit)
    have hd : isDigit d = true := by
      rw [hsplit] at hdigit
      exact hdigit
    have htext := decimalText_digits hused
    rcases dropSign_split rest with hrest | ⟨sign, hsign, hrest⟩
    · refine ⟨c :: d :: used, ?_, ?_⟩
      · rw [cons_append, ← hsplit, ← hrest]
      · exact decimalText_letter hletter htext
    · refine ⟨c :: sign :: d :: used, ?_, ?_⟩
      · rw [cons_append, cons_append, ← hsplit, ← hrest]
      · exact decimalText_letter hletter (decimalText_sign hsign hd htext)

theorem afterFraction_split (cs : List Char) : ∃ used, cs = used ++ afterFraction cs ∧
    ∀ more, decimalText more = true → decimalText (used ++ more) = true := by
  have hpointed : ∀ {more}, decimalText more = true → decimalText ('.' :: more) = true := by
    intro more hmore
    rw [decimalText, hmore]
    rfl
  unfold afterFraction
  split
  · exact ⟨[], rfl, fun _ => id⟩
  rename_i c rest
  split
  · exact ⟨[], rfl, fun _ => id⟩
  rename_i hpoint
  obtain rfl : c = '.' := by
    by_contra hne
    exact hpoint (.inl hne)
  split
  · obtain ⟨used, hsplit, hused, -⟩ := afterDigits_split isDigit rest
    refine ⟨'.' :: used, congrArg ('.' :: ·) hsplit, fun more hmore => ?_⟩
    exact hpointed (decimalText_append hused hmore)
  · exact ⟨['.'], rfl, fun more hmore => hpointed hmore⟩

/-- The letter and the digits of an integer with a radix. -/
def radixText : List Char → Bool
  | [] => false
  | letter :: digits =>
    isIdentStart letter && letter.toNat < 0x80 && letter ≠ 'e' && letter ≠ 'E' &&
      digits.all isIdentCont

theorem radixText_of_digits (hradix : radixDigit letter = some digit)
    (hused : ∀ c ∈ used, digit c = true ∨ c = '_') : radixText (letter :: used) = true := by
  have hall : ∀ digit' : Char → Bool, (∀ c, digit' c = true → isHexDigit c = true) →
      some digit' = some digit → used.all isIdentCont = true := by
    intro digit' hhex heq
    rw [all_eq_true]
    intro c hc
    rcases hused c hc with hdigit | rfl
    · have hc' := hhex c (Option.some.inj heq ▸ hdigit)
      simp only [isHexDigit, Bool.or_eq_true] at hc'
      rcases hc' with (hc' | hc') | hc'
      · simp [isIdentCont, isTagCont, hc']
      · simp [isIdentCont, isTagCont, isIdentStart] at hc' ⊢
        omega
      · simp [isIdentCont, isTagCont, isIdentStart] at hc' ⊢
        omega
    · decide
  unfold radixDigit at hradix
  split_ifs at hradix with hx ho hb
  · rcases hx with rfl | rfl <;> exact hall _ (fun _ => id) hradix
  · have hoctal := hall _ (fun c hc => by
      simp only [isHexDigit, isDigit, Bool.or_eq_true, Bool.and_eq_true, decide_eq_true_eq] at hc ⊢
      omega) hradix
    rcases ho with rfl | rfl <;> exact hoctal
  · have hbinary := hall _ (fun c hc => by
      rcases Bool.or_eq_true _ _ ▸ hc with h | h <;> (rw [of_decide_eq_true h]; decide)) hradix
    rcases hb with rfl | rfl <;> exact hbinary

theorem afterRadix_split (h : afterRadix cs = some rest) :
    ∃ used, cs = used ++ rest ∧ radixText used = true := by
  unfold afterRadix at h
  split at h
  · cases h
  rename_i letter digits
  obtain ⟨digit, hradix, hdigits⟩ := Option.bind_eq_some_iff.mp h
  obtain ⟨used, hsplit, hused, -⟩ := afterDigits_split digit digits
  dsimp only at hdigits
  split at hdigits <;> cases hdigits
  exact ⟨letter :: used, congrArg (letter :: ·) hsplit, radixText_of_digits hradix hused⟩

/-- How a number or parameter begins. -/
def startsNumber (c : Char) (cs : List Char) : Bool :=
  isDigit c || c = '.' || (c = '$' && cs.head?.any isDigit)

/-- A number is its first character and the text of a decimal number, or a zero, a letter
for the radix and digits. -/
theorem afterNumber_split (h : afterNumber c cs = some rest) :
    startsNumber c cs = true ∧ ∃ used, cs = used ++ rest ∧
      (decimalText used = true ∨ c = '0' ∧ radixText used = true) := by
  unfold afterNumber at h
  obtain ⟨digits, hdigits, hused, -⟩ := afterDigits_split isDigit cs
  split at h
  case isTrue hparameter =>
    cases h
    exact ⟨by simp [startsNumber, hparameter], digits, hdigits, .inl (decimalText_digits hused)⟩
  split at h
  case isTrue hpoint =>
    cases h
    obtain ⟨exponent, hexponent, htext⟩ := afterExponent_split (afterDigits isDigit cs)
    refine ⟨by simp [startsNumber, hpoint], digits ++ exponent, ?_,
      .inl (decimalText_append hused htext)⟩
    rw [append_assoc, ← hexponent, ← hdigits]
  split at h
  case isFalse => cases h
  rename_i hdigit
  refine ⟨by simp [startsNumber, hdigit], ?_⟩
  split at h
  case h_1 hradix =>
    cases h
    split at hradix
    case isTrue hzero =>
      obtain ⟨used, hsplit, htext⟩ := afterRadix_split hradix
      exact ⟨used, hsplit, .inr ⟨hzero, htext⟩⟩
    case isFalse => cases hradix
  case h_2 =>
    cases h
    obtain ⟨fraction, hfraction, happend⟩ := afterFraction_split (afterDigits isDigit cs)
    obtain ⟨exponent, hexponent, htext⟩ :=
      afterExponent_split (afterFraction (afterDigits isDigit cs))
    refine ⟨digits ++ (fraction ++ exponent), ?_,
      .inl (decimalText_append hused (happend _ htext))⟩
    rw [append_assoc, append_assoc, ← hexponent, ← hfraction, ← hdigits]

theorem plainToken_suffix (c : Char) (cs : List Char) : (plainToken c cs).2 <:+ cs := by
  unfold plainToken
  split_ifs <;> first | exact suffix_rfl | exact dropWhile_suffix _

/-- A token consumes its characters, so the lexer terminates. -/
theorem token_length (h : token standard c cs = some (found, rest)) : rest.length ≤ cs.length := by
  have hmap : ∀ {found' : Found Char} {o : Option (List Char)},
      (∀ rest, o = some rest → rest.length ≤ cs.length) →
      o.map (found', ·) = some (found, rest) → rest.length ≤ cs.length := by
    intro found' o ho hrest
    obtain ⟨rest', hrest', heq⟩ := Option.map_eq_some_iff.mp hrest
    exact (Prod.mk.inj heq).2 ▸ ho rest' hrest'
  have hsome : ∀ {found' : Found Char} {rest' : List Char}, rest'.length ≤ cs.length →
      some (found', rest') = some (found, rest) → rest.length ≤ cs.length := fun hrest heq =>
    (Prod.mk.inj (Option.some.inj heq)).2 ▸ hrest
  have htail : cs.tail.length ≤ cs.length := (tail_suffix cs).length_le
  unfold token at h
  split at h
  · exact hsome (Nat.le_refl _) h
  split at h
  · exact hsome ((tail_suffix _).trans
      ((dropWhile_suffix _).trans (tail_suffix cs))).length_le h
  split at h
  · exact hmap (fun rest' hrest' => Nat.le_trans (afterBlock_suffix hrest').length_le htail) h
  split at h
  · exact hmap (fun rest' hrest' => Nat.le_trans (afterString_length hrest') htail) h
  split at h
  · exact hmap (fun rest' hrest' => Nat.le_trans (afterString_length hrest') htail) h
  split at h
  · exact hmap (fun rest' hrest' => afterString_length hrest') h
  split at h
  · exact hmap (fun rest' hrest' => (afterQuote_suffix hrest').length_le) h
  split at h
  · rename_i hnumber
    obtain ⟨-, used, hsplit, -⟩ := afterNumber_split hnumber
    exact hsome (by simp [hsplit]) h
  · exact hmap (fun rest' hrest' =>
      ((afterDelimiter_suffix hrest').trans (drop_suffix _ _)).length_le) h
  · exact hsome (plainToken_suffix c cs).length_le h

/-- The lexer, which stops where a token has no end. -/
def lexer (standardConformingStrings : Bool) : Lexer Char (Found Char) where
  turn c cs := (token standardConformingStrings c cs).getD (.other, [])
  rest_le c cs := by
    cases h : token standardConformingStrings c cs with
    | none => exact Nat.zero_le _
    | some result => exact token_length h

/-- The text has no comment or quote without an end. -/
def Lexes (standardConformingStrings : Bool) (text : List Char) : Prop :=
  ∀ place ∈ (lexer standardConformingStrings).places text,
    (token standardConformingStrings place.1 place.2).isSome

instance (standardConformingStrings : Bool) (text : List Char) :
    Decidable (Lexes standardConformingStrings text) :=
  List.decidableBAll _ _

/-- Some statement begins with the keyword, given in lower case. Keywords fold the ASCII
letters only. -/
def statementStartsWith (standardConformingStrings : Bool) (keyword : String) (text : List Char) :
    Bool :=
  leads (fun word => word.map Char.toLower = keyword.toList) true
    (items true 0 ((lexer standardConformingStrings).founds text))

/-- The statements that PostgreSQL reads, as the words of their tokens outside parentheses;
a text that it cannot divide into tokens has none. -/
def statements (standardConformingStrings : Bool) (text : List Char) :
    List (List (Option (List Char))) :=
  if Lexes standardConformingStrings text then
    Statements.statements (items true 0 ((lexer standardConformingStrings).founds text))
  else []

end PostgresLexer
