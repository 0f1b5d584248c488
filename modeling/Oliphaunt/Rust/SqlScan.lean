import Oliphaunt.Model.Bytes
import Oliphaunt.Model.Statements

/-!
# Oliphaunt — the SQL scan of the Rust query crate

`contains_top_level_copy` and `contains_transaction_chain` of
`query/rust/src/lib.rs` with the iterator `TopLevelSqlTokens` they rest on. The
iterator walks the UTF-8 bytes of a SQL text and yields the words and other
tokens outside parentheses, and the semicolons between statements.

A byte index of the source is what is left of the bytes there.
-/

namespace Oliphaunt.RustSql

open Statements List

def quoteByte : UInt8 := 0x27

def doubleQuoteByte : UInt8 := 0x22

def backslashByte : UInt8 := 0x5c

def dollarByte : UInt8 := 0x24

/-- `u8::is_ascii_whitespace`: the vertical tab is not one. -/
def isAsciiWhitespace (byte : UInt8) : Bool := [0x09, 0x0a, 0x0c, 0x0d, 0x20].contains byte

def isAsciiAlphabetic (byte : UInt8) : Bool :=
  (0x41 ≤ byte.toNat && byte.toNat ≤ 0x5a) || (0x61 ≤ byte.toNat && byte.toNat ≤ 0x7a)

def isPostgresIdentifierStart (byte : UInt8) : Bool :=
  isAsciiAlphabetic byte || byte = 0x5f || 0x80 ≤ byte.toNat

def isPostgresIdentifierContinuation (byte : UInt8) : Bool :=
  isPostgresIdentifierStart byte || (0x30 ≤ byte.toNat && byte.toNat ≤ 0x39) || byte = dollarByte

def toAsciiLowercase (byte : UInt8) : UInt8 :=
  if 0x41 ≤ byte.toNat ∧ byte.toNat ≤ 0x5a then byte + 0x20 else byte

def eqIgnoreAsciiCase (word keyword : List UInt8) : Bool :=
  word.map toAsciiLowercase == keyword.map toAsciiLowercase

/-- `skip_quoted` after the opening quote. -/
def skipQuoted (quote : UInt8) (backslashEscapes : Bool) : List UInt8 → List UInt8
  | [] => []
  | [_] => []
  | byte :: next :: rest =>
    if byte = quote then
      if next = quote then skipQuoted quote backslashEscapes rest else next :: rest
    else if backslashEscapes ∧ byte = backslashByte then skipQuoted quote backslashEscapes rest
    else skipQuoted quote backslashEscapes (next :: rest)

/-- `skip_block_comment` inside `depth` open comments. -/
def skipBlockComment : Nat → List UInt8 → List UInt8
  | 0, bytes => bytes
  | _ + 1, [] => []
  | _ + 1, [_] => []
  | depth + 1, byte :: next :: rest =>
    if byte = 0x2f ∧ next = 0x2a then skipBlockComment (depth + 2) rest
    else if byte = 0x2a ∧ next = 0x2f then skipBlockComment depth rest
    else skipBlockComment (depth + 1) (next :: rest)

/-- What a `--` comment leaves: the line end that ends it, and the rest. -/
def skipLine (bytes : List UInt8) : List UInt8 :=
  bytes.dropWhile fun byte => byte ≠ 0x0a && byte ≠ 0x0d

/-- `dollar_quote_delimiter` of bytes that go on after a `$`. -/
def dollarQuoteDelimiter (tail : List UInt8) : Option (List UInt8) :=
  let tag := tail.takeWhile fun byte => byte ≠ dollarByte
  if tail.length ≤ tag.length then none
  else if tag.head?.all isPostgresIdentifierStart &&
      (tag.tail.all fun byte => isPostgresIdentifierContinuation byte && byte ≠ dollarByte) then
    some (dollarByte :: tag ++ [dollarByte])
  else none

/-- What follows the first window that is the delimiter. -/
def skipPast (delimiter : List UInt8) : List UInt8 → List UInt8
  | [] => []
  | byte :: rest =>
    if delimiter.isPrefixOf (byte :: rest) then (byte :: rest).drop delimiter.length
    else skipPast delimiter rest

/-- `skip_dollar_quote` of bytes that go on after a `$`. -/
def skipDollarQuote (delimiter tail : List UInt8) : List UInt8 :=
  skipPast delimiter (tail.drop (delimiter.length - 1))

theorem skipQuoted_suffix (quote : UInt8) (escapes : Bool) (bytes : List UInt8) :
    skipQuoted quote escapes bytes <:+ bytes := by
  fun_induction skipQuoted quote escapes bytes with
  | case1 => exact suffix_rfl
  | case2 byte => exact nil_suffix
  | case3 rest ih => exact ih.trans (suffix_cons_cons ..)
  | case4 next rest _ => exact suffix_cons _ _
  | case5 byte next rest _ _ ih => exact ih.trans (suffix_cons_cons ..)
  | case6 byte next rest _ _ ih => exact ih.trans (suffix_cons _ _)

theorem skipBlockComment_suffix (depth : Nat) (bytes : List UInt8) :
    skipBlockComment depth bytes <:+ bytes := by
  fun_induction skipBlockComment depth bytes with
  | case1 bytes => exact suffix_rfl
  | case2 => exact suffix_rfl
  | case3 depth byte => exact nil_suffix
  | case4 depth byte next rest _ ih => exact ih.trans (suffix_cons_cons ..)
  | case5 depth byte next rest _ _ ih => exact ih.trans (suffix_cons_cons ..)
  | case6 depth byte next rest _ _ ih => exact ih.trans (suffix_cons _ _)

theorem skipPast_suffix (delimiter bytes : List UInt8) : skipPast delimiter bytes <:+ bytes := by
  induction bytes with
  | nil => exact suffix_rfl
  | cons byte rest ih =>
    simp only [skipPast]
    split
    · exact drop_suffix _ _
    · exact ih.trans (suffix_cons byte rest)

/-- One arm of the loop in `TopLevelSqlTokens::next`, at the bytes `byte :: rest`. -/
def turn (ordinaryBackslashEscapes : Bool) (byte : UInt8) (rest : List UInt8) :
    Found UInt8 × List UInt8 :=
  if isAsciiWhitespace byte then (.skipped, rest)
  else if byte = 0x2d ∧ rest.head? = some 0x2d then (.skipped, skipLine rest.tail)
  else if byte = 0x2f ∧ rest.head? = some 0x2a then (.skipped, skipBlockComment 1 rest.tail)
  else if byte = quoteByte then (.other, skipQuoted quoteByte ordinaryBackslashEscapes rest)
  else if byte = doubleQuoteByte then (.other, skipQuoted doubleQuoteByte false rest)
  else
    match if byte = dollarByte then dollarQuoteDelimiter rest else none with
    | some delimiter => (.other, skipDollarQuote delimiter rest)
    | none =>
      if byte = 0x28 then (.openParen, rest)
      else if byte = 0x29 then (.closeParen, rest)
      else if byte = 0x3b then (.semicolon, rest)
      else if isPostgresIdentifierStart byte then
        let word := byte :: rest.takeWhile isPostgresIdentifierContinuation
        let after := rest.dropWhile isPostgresIdentifierContinuation
        if eqIgnoreAsciiCase word [0x45] ∧ after.head? = some quoteByte then
          (.other, skipQuoted quoteByte true after.tail)
        else (.word word, after)
      else (.other, rest)

theorem turn_suffix (escapes : Bool) (byte : UInt8) (rest : List UInt8) :
    (turn escapes byte rest).2 <:+ rest := by
  unfold turn
  split
  · exact suffix_rfl
  split
  · exact (dropWhile_suffix _).trans (tail_suffix rest)
  split
  · exact (skipBlockComment_suffix _ _).trans (tail_suffix rest)
  split
  · exact skipQuoted_suffix _ _ _
  split
  · exact skipQuoted_suffix _ _ _
  split
  · exact (skipPast_suffix _ _).trans (drop_suffix _ _)
  split_ifs <;> try exact suffix_rfl
  dsimp only
  split
  · exact (skipQuoted_suffix _ _ _).trans ((tail_suffix _).trans (dropWhile_suffix _))
  · exact dropWhile_suffix _

def lexer (ordinaryBackslashEscapes : Bool) : Lexer UInt8 (Found UInt8) where
  turn := turn ordinaryBackslashEscapes
  rest_le byte rest := (turn_suffix ordinaryBackslashEscapes byte rest).length_le

/-- What the iterator `TopLevelSqlTokens` yields. Its arm for a closing parenthesis has the
guard `depth > 0`, so one without an opening parenthesis is yielded as another token. -/
def topLevelSqlTokens (sql : String) (ordinaryBackslashEscapes : Bool) : List (Item UInt8) :=
  items true 0 ((lexer ordinaryBackslashEscapes).founds (Bytes.utf8 sql))

def containsTopLevelCopy (sql : String) (ordinaryBackslashEscapes : Bool) : Bool :=
  leads (fun word => eqIgnoreAsciiCase word (Bytes.utf8 "COPY")) true
    (topLevelSqlTokens sql ordinaryBackslashEscapes)

inductive TransactionChainState where
  | statementStart
  | afterControl
  | afterQualifier
  | afterAnd
  | ineligible
deriving DecidableEq, Repr

/-- The arm for a word, given which keyword it is; `none` when the guard returns `true`. -/
def TransactionChainState.next (state : TransactionChainState) (wordIs : String → Bool) :
    Option TransactionChainState :=
  match state with
  | .statementStart =>
    if wordIs "ROLLBACK" || wordIs "ABORT" then some .afterControl else some .ineligible
  | .afterControl =>
    if wordIs "WORK" || wordIs "TRANSACTION" then some .afterQualifier
    else if wordIs "AND" then some .afterAnd
    else some .ineligible
  | .afterQualifier => if wordIs "AND" then some .afterAnd else some .ineligible
  | .afterAnd => if wordIs "CHAIN" then none else some .ineligible
  | .ineligible => some .ineligible

/-- The loop of `contains_transaction_chain`. -/
def chains {α : Type} (wordIs : List α → String → Bool) :
    TransactionChainState → List (Item α) → Bool
  | _, [] => false
  | _, .boundary :: rest => chains wordIs .statementStart rest
  | _, .other :: rest => chains wordIs .ineligible rest
  | state, .word text :: rest =>
    match state.next (wordIs text) with
    | none => true
    | some state' => chains wordIs state' rest

def containsTransactionChain (sql : String) (ordinaryBackslashEscapes : Bool) : Bool :=
  chains (fun word keyword => eqIgnoreAsciiCase word (Bytes.utf8 keyword)) .statementStart
    (topLevelSqlTokens sql ordinaryBackslashEscapes)

def rejectCopyStatements (sql : String) : Except String Unit :=
  if containsTopLevelCopy sql false || containsTopLevelCopy sql true then
    .error ("COPY is not supported by buffered SQL APIs; use exec_protocol_raw or " ++
      "exec_protocol_raw_stream with a complete COPY protocol flow")
  else .ok ()

def rejectTransactionChain (sql : String) : Except String Unit :=
  if containsTransactionChain sql false || containsTransactionChain sql true then
    .error ("ROLLBACK ... AND CHAIN and ABORT ... AND CHAIN are not allowed inside an " ++
      "SDK-managed callback transaction; roll back through the transaction handle and start " ++
      "a new transaction explicitly")
  else .ok ()

/-- The keywords that the loop compares words with. -/
def chainKeywords : List String := ["ROLLBACK", "ABORT", "WORK", "TRANSACTION", "AND", "CHAIN"]

theorem TransactionChainState.next_congr (h : ∀ keyword ∈ chainKeywords, p keyword = q keyword)
    (state : TransactionChainState) : state.next p = state.next q := by
  have hrollback := h "ROLLBACK" (by decide)
  have habort := h "ABORT" (by decide)
  have hwork := h "WORK" (by decide)
  have htransaction := h "TRANSACTION" (by decide)
  have hand := h "AND" (by decide)
  have hchain := h "CHAIN" (by decide)
  cases state <;> simp only [next, hrollback, habort, hwork, htransaction, hand, hchain]

/-- The loop of `contains_transaction_chain` as a search through the items. -/
def chaining {α : Type} (wordIs : List α → String → Bool) : Scan α TransactionChainState where
  start := .statementStart
  idle := .ineligible
  next state text := state.next (wordIs text)
  next_idle _ := rfl

theorem chains_eq (wordIs : List α → String → Bool) (state : TransactionChainState)
    (found : List (Item α)) : chains wordIs state found = (chaining wordIs).finds state found := by
  induction found generalizing state with
  | nil => rfl
  | cons item rest ih =>
    cases item with
    | boundary => exact ih _
    | other => exact ih _
    | word text =>
      have hnext : (chaining wordIs).next state text = state.next (wordIs text) := rfl
      rw [chains, Scan.finds, hnext]
      cases state.next (wordIs text) with
      | none => rfl
      | some state' => exact ih state'

end Oliphaunt.RustSql
