import Oliphaunt.Model.PostgresLexer

/-!
# Oliphaunt — the SQL scan of the TypeScript query package

`containsTransactionChain` of `query/ts/src/query.ts` and the scanner it rests
on. The scanner walks the top-level tokens of a SQL text, outside comments,
quotes and parentheses, and tells its visitor for each token the lower-cased
word (if it is one), whether it starts a statement and the statement's number.
It runs twice because a plain string may or may not escape with backslashes.

Texts are lists of characters; a position of the source is what is left of the
text there.
-/

namespace Oliphaunt.Sql

open List

open PostgresLexer (afterBlock afterQuote afterLine afterDelimiter)

def singleQuote : Char := Char.ofNat 0x27

def doubleQuote : Char := Char.ofNat 0x22

def backslash : Char := Char.ofNat 0x5c

/-- The class `\s` of JavaScript regular expressions. -/
def isWhitespace (c : Char) : Bool :=
  [0x9, 0xa, 0xb, 0xc, 0xd, 0x20, 0xa0, 0x1680, 0x2028, 0x2029, 0x202f, 0x205f, 0x3000,
    0xfeff].contains c.toNat || (0x2000 ≤ c.toNat && c.toNat ≤ 0x200a)

def isPostgresIdentifierStart (c : Char) : Bool :=
  c = '_' || (0x41 ≤ c.toNat && c.toNat ≤ 0x5a) || (0x61 ≤ c.toNat && c.toNat ≤ 0x7a) ||
    0x80 ≤ c.toNat

def isPostgresIdentifierContinuation (c : Char) : Bool :=
  isPostgresIdentifierStart c || c = '$' || (0x30 ≤ c.toNat && c.toNat ≤ 0x39)

/-- The rest of the text after a `--` comment. -/
def skipLine : List Char → List Char
  | [] => []
  | c :: cs => if c = '\n' ∨ c = '\r' then cs else skipLine cs

/-- `skipBlockComment` inside `depth` open comments. -/
def skipBlockComment : Nat → List Char → List Char
  | 0, cs => cs
  | _ + 1, [] => []
  | _ + 1, [_] => []
  | depth + 1, c :: d :: cs =>
    if c = '/' ∧ d = '*' then skipBlockComment (depth + 2) cs
    else if c = '*' ∧ d = '/' then skipBlockComment depth cs
    else skipBlockComment (depth + 1) (d :: cs)

/-- `skipSingleQuote` after the opening quote. -/
def skipSingleQuote (escapeBackslash : Bool) : List Char → List Char
  | [] => []
  | [_] => []
  | c :: d :: cs =>
    if escapeBackslash ∧ c = backslash then skipSingleQuote escapeBackslash cs
    else if c = singleQuote ∧ d = singleQuote then skipSingleQuote escapeBackslash cs
    else if c = singleQuote then d :: cs
    else skipSingleQuote escapeBackslash (d :: cs)

/-- `skipDoubleQuote` after the opening quote. -/
def skipDoubleQuote : List Char → List Char
  | [] => []
  | [_] => []
  | c :: d :: cs =>
    if c = doubleQuote ∧ d = doubleQuote then skipDoubleQuote cs
    else if c = doubleQuote then d :: cs
    else skipDoubleQuote (d :: cs)

/-- `dollarQuoteDelimiter` of a text that goes on after a `$`. -/
def dollarQuoteDelimiter : List Char → Option (List Char)
  | [] => none
  | c :: cs =>
    if c = '$' then some ['$', '$']
    else if ¬ isPostgresIdentifierStart c then none
    else
      let inTag := fun d => d ≠ '$' && isPostgresIdentifierContinuation d
      if (cs.dropWhile inTag).head? = some '$' then some ('$' :: c :: cs.takeWhile inTag ++ ['$'])
      else none

/-- What follows the next occurrence of the delimiter. -/
def skipPast (delimiter : List Char) : List Char → List Char
  | [] => []
  | c :: cs =>
    if delimiter.isPrefixOf (c :: cs) then (c :: cs).drop delimiter.length
    else skipPast delimiter cs

/-- The rest of the text after a dollar-quoted string that starts with `c`. -/
def skipDollarQuote (c : Char) (cs : List Char) : Option (List Char) :=
  if c = '$' then
    (dollarQuoteDelimiter cs).map fun delimiter =>
      skipPast delimiter (cs.drop (delimiter.length - 1))
  else none

/-! What is skipped ends where it ends for PostgreSQL, or else with the text. -/

variable {cs : List Char}

theorem skipLine_eq (cs : List Char) : skipLine cs = afterLine cs := by
  induction cs with
  | nil => rfl
  | cons c cs ih =>
    have hline : (!PostgresLexer.isNewline c) = true ↔ ¬ (c = '\n' ∨ c = '\r') := by
      simp [PostgresLexer.isNewline]
    rw [skipLine, afterLine, dropWhile_cons]
    split
    · rw [if_neg (hline.not.mpr (not_not_intro ‹_›))]
      rfl
    · rw [if_pos (hline.mpr ‹_›)]
      exact ih

theorem skipBlockComment_eq (depth : Nat) (cs : List Char) :
    skipBlockComment depth cs = (afterBlock depth cs).getD [] := by
  fun_induction afterBlock depth cs with
  | case1 cs => simp only [skipBlockComment, Option.getD_some]
  | case2 | case3 => rfl
  | case4 depth c d cs hopen ih => rw [skipBlockComment, if_pos hopen, ih]
  | case5 depth c d cs hopen hclose ih =>
    rw [skipBlockComment, if_neg hopen, if_pos hclose, ih]
  | case6 depth c d cs hopen hclose ih =>
    rw [skipBlockComment, if_neg hopen, if_neg hclose, ih]

theorem backslash_eq : PostgresLexer.backslash = backslash := rfl

theorem skipSingleQuote_eq (escapes : Bool) (cs : List Char) :
    skipSingleQuote escapes cs = (afterQuote singleQuote escapes cs).getD [] := by
  fun_induction skipSingleQuote escapes cs with
  | case1 => rfl
  | case2 c =>
    rw [afterQuote]
    split <;> rfl
  | case3 c d cs hescape ih => rw [afterQuote, backslash_eq, if_pos hescape, ih]
  | case4 c d cs hescape hquotes ih =>
    rw [afterQuote, backslash_eq, if_neg hescape, if_pos hquotes.1, if_pos hquotes.2, ih]
  | case5 d cs hescape hquotes =>
    rw [afterQuote, backslash_eq, if_neg hescape, if_pos rfl, if_neg fun hd => hquotes ⟨rfl, hd⟩]
    rfl
  | case6 c d cs hescape hquotes hquote ih =>
    rw [afterQuote, backslash_eq, if_neg hescape, if_neg hquote, ih]

theorem skipDoubleQuote_eq (cs : List Char) :
    skipDoubleQuote cs = (afterQuote doubleQuote false cs).getD [] := by
  have hescape : ∀ c : Char, ¬ (false = true ∧ c = PostgresLexer.backslash) := by simp
  fun_induction skipDoubleQuote cs with
  | case1 => rfl
  | case2 c =>
    rw [afterQuote]
    split <;> rfl
  | case3 c d cs hquotes ih =>
    rw [afterQuote, if_neg (hescape c), if_pos hquotes.1, if_pos hquotes.2, ih]
  | case4 d cs hquotes =>
    rw [afterQuote, if_neg (hescape _), if_pos rfl, if_neg fun hd => hquotes ⟨rfl, hd⟩]
    rfl
  | case5 c d cs hquotes hquote ih =>
    rw [afterQuote, if_neg (hescape c), if_neg hquote, ih]

theorem skipPast_eq (delimiter cs : List Char) :
    skipPast delimiter cs = (afterDelimiter delimiter cs).getD [] := by
  induction cs with
  | nil => rfl
  | cons c cs ih =>
    rw [skipPast, afterDelimiter, ih]
    split <;> rfl

theorem getD_suffix (h : ∀ rest, o = some rest → rest <:+ cs) : o.getD [] <:+ cs := by
  cases o with
  | none => exact nil_suffix
  | some rest => exact h rest rfl

theorem skipSingleQuote_suffix (escapes : Bool) (cs : List Char) :
    skipSingleQuote escapes cs <:+ cs := by
  rw [skipSingleQuote_eq]
  exact getD_suffix fun _ => PostgresLexer.afterQuote_suffix

theorem skipDollarQuote_suffix (h : skipDollarQuote c cs = some rest) : rest <:+ cs := by
  unfold skipDollarQuote at h
  split at h <;> try cases h
  obtain ⟨delimiter, -, rfl⟩ := Option.map_eq_some_iff.mp h
  rw [skipPast_eq]
  exact (getD_suffix fun _ => PostgresLexer.afterDelimiter_suffix).trans (drop_suffix _ _)

/-- What one turn of the scanner's loop finds at its position. -/
inductive Lexeme where
  /-- whitespace or a comment -/
  | skipped
  | word (text : List Char)
  /-- a quoted text or any other character -/
  | other
  | openParen
  | closeParen
  | semicolon
deriving DecidableEq, Repr

/-- One turn of the loop at the text `c :: cs`: what is there and what is left after it,
for a notion of whitespace. -/
def lexeme (space : Char → Bool) (plainStringsEscapeBackslashes : Bool) (c : Char)
    (cs : List Char) : Lexeme × List Char :=
  if space c then (.skipped, cs)
  else if c = '-' ∧ cs.head? = some '-' then (.skipped, skipLine cs.tail)
  else if c = '/' ∧ cs.head? = some '*' then (.skipped, skipBlockComment 1 cs.tail)
  else if (c = 'e' ∨ c = 'E') ∧ cs.head? = some singleQuote then
    (.other, skipSingleQuote true cs.tail)
  else if c = singleQuote then (.other, skipSingleQuote plainStringsEscapeBackslashes cs)
  else if c = doubleQuote then (.other, skipDoubleQuote cs)
  else
    match skipDollarQuote c cs with
    | some rest => (.other, rest)
    | none =>
      if c = '(' then (.openParen, cs)
      else if c = ')' then (.closeParen, cs)
      else if c = ';' then (.semicolon, cs)
      else if isPostgresIdentifierStart c then
        (.word (c :: cs.takeWhile isPostgresIdentifierContinuation),
          cs.dropWhile isPostgresIdentifierContinuation)
      else (.other, cs)

/-- A turn of the scan leaves a rest of its input. -/
theorem lexeme_suffix (space : Char → Bool) (plain : Bool) (c : Char) (cs : List Char) :
    (lexeme space plain c cs).2 <:+ cs := by
  unfold lexeme
  split
  · exact suffix_rfl
  split
  · rw [skipLine_eq]
    exact (tail_suffix _).trans ((dropWhile_suffix _).trans (tail_suffix cs))
  split
  · rw [skipBlockComment_eq]
    exact (getD_suffix fun _ => PostgresLexer.afterBlock_suffix).trans (tail_suffix cs)
  split
  · exact (skipSingleQuote_suffix _ _).trans (tail_suffix cs)
  split
  · exact skipSingleQuote_suffix _ _
  split
  · rw [skipDoubleQuote_eq]
    exact getD_suffix fun _ => PostgresLexer.afterQuote_suffix
  split
  · rename_i hdollar
    exact skipDollarQuote_suffix hdollar
  · split_ifs <;> first | exact suffix_rfl | exact dropWhile_suffix _

/-- One call of the scanner's visitor. -/
structure Token where
  /-- the word as it stands in the text, if the token is one -/
  word : Option (List Char)
  first : Bool
  statement : Nat
deriving DecidableEq, Repr

/-- A call of the visitor, made outside parentheses only. -/
def visit (depth : Nat) (token : Token) (rest : List Token) : List Token :=
  if depth = 0 then token :: rest else rest

/-- The calls of the visitor that `scanTopLevelTokens` makes, for a notion of
whitespace: the scanner's own is `isWhitespace`. -/
def topLevelTokens (space : Char → Bool) (plainStringsEscapeBackslashes : Bool)
    (text : List Char) (depth : Nat) (statementStart : Bool) (statement : Nat) : List Token :=
  match text with
  | [] => []
  | c :: cs =>
    let found := lexeme space plainStringsEscapeBackslashes c cs
    let token (word : Option (List Char)) : Token :=
      { word := word, first := statementStart, statement := statement }
    match found.1 with
    | .skipped =>
      topLevelTokens space plainStringsEscapeBackslashes found.2 depth statementStart statement
    | .word text =>
      visit depth (token (some text))
        (topLevelTokens space plainStringsEscapeBackslashes found.2 depth false statement)
    | .other =>
      visit depth (token none)
        (topLevelTokens space plainStringsEscapeBackslashes found.2 depth false statement)
    | .openParen =>
      visit depth (token none)
        (topLevelTokens space plainStringsEscapeBackslashes found.2 (depth + 1) false statement)
    | .closeParen =>
      topLevelTokens space plainStringsEscapeBackslashes found.2 (depth - 1) statementStart
        statement
    | .semicolon =>
      -- Inside parentheses a semicolon is a character like any other.
      if depth = 0 then
        topLevelTokens space plainStringsEscapeBackslashes found.2 depth true (statement + 1)
      else topLevelTokens space plainStringsEscapeBackslashes found.2 depth false statement
termination_by text.length
decreasing_by all_goals exact Nat.lt_succ_of_le (lexeme_suffix _ _ _ _).length_le

/-- Run a visitor over the tokens until it answers `true`. -/
def scanTopLevelTokens {σ : Type} (visit : σ → Token → σ × Bool) : σ → List Token → Bool
  | _, [] => false
  | s, token :: rest =>
    let r := visit s token
    if r.2 then true else scanTopLevelTokens visit r.1 rest

/-- `toLowerCase` on one character. The Kelvin sign and the dotted capital I are the
only characters outside ASCII whose lower case contains an ASCII letter; what
becomes of the others cannot be told apart by comparing with a keyword. -/
def lowerChar (c : Char) : List Char :=
  if c.toNat = 0x212a then ['k']
  else if c.toNat = 0x130 then ['i', Char.ofNat 0x307]
  else [c.toLower]

def toLowerCase (word : List Char) : List Char := word.flatMap lowerChar

/-- The visited word is the given lower-case one. -/
def wordIs (word : Option (List Char)) (lower : String) : Bool :=
  match word with
  | some w => toLowerCase w = lower.toList
  | none => false

def containsTopLevelCopy (sql : String) : Bool :=
  let scan := fun plain => scanTopLevelTokens (fun (_ : Unit) token =>
    ((), token.first && wordIs token.word "copy")) ()
    (topLevelTokens isWhitespace plain sql.toList 0 true 0)
  scan false || scan true

inductive ChainState where
  | afterControl
  | afterQualifier
  | afterAnd
  | ineligible
deriving DecidableEq, Repr

/-- The first token of a statement. -/
def ChainState.first (token : Token) : ChainState :=
  if token.first ∧ (wordIs token.word "rollback" ∨ wordIs token.word "abort") then .afterControl
  else .ineligible

/-- A later word of a statement; `none` when it completes a chain. -/
def ChainState.next (state : ChainState) (word : Option (List Char)) : Option ChainState :=
  if word = none then some .ineligible
  else if state = .afterControl ∧ (wordIs word "work" ∨ wordIs word "transaction") then
    some .afterQualifier
  else if (state = .afterControl ∨ state = .afterQualifier) ∧ wordIs word "and" then
    some .afterAnd
  else if state = .afterAnd ∧ wordIs word "chain" then none
  else some .ineligible

/-- The visitor of `scanTransactionChain`; its memory is the current statement and
how far a chain has been read. -/
def visitChain (memory : Option Nat × ChainState) (token : Token) :
    (Option Nat × ChainState) × Bool :=
  if some token.statement ≠ memory.1 then ((some token.statement, .first token), false)
  else
    match memory.2.next token.word with
    | some state => ((memory.1, state), false)
    | none => (memory, true)

def scanTransactionChain (sql : String) (plainStringsEscapeBackslashes : Bool) : Bool :=
  scanTopLevelTokens visitChain (none, .ineligible)
    (topLevelTokens isWhitespace plainStringsEscapeBackslashes sql.toList 0 true 0)

def containsTransactionChain (sql : String) : Bool :=
  scanTransactionChain sql false || scanTransactionChain sql true

def assertNoTransactionChain (sql : String) : Except String Unit :=
  if containsTransactionChain sql then
    .error ("callback transactions do not support ROLLBACK/ABORT ... AND CHAIN;" ++
      " return or throw from the callback instead")
  else .ok ()

def assertNoTopLevelCopy (sql : String) : Except String Unit :=
  if containsTopLevelCopy sql then
    .error "structured SQL does not support COPY; use a raw protocol API for COPY traffic"
  else .ok ()

end Oliphaunt.Sql
