import Oliphaunt.Rust.SqlScan
import Oliphaunt.TS.SqlScan

/-!
# Oliphaunt — the TypeScript SQL guards over turns

The TypeScript scanner calls a visitor with a word, a mark for the first token and
a statement number. Its tokens are the items between the semicolons, numbered
(`topLevelTokens_eq`), without one for an unmatched closing parenthesis. So its two
guards are the two loops of the Rust crate on the items, `scan_copy_eq` for COPY and
`scan_chain_eq` for chained rollbacks, and so two scans: `containsTopLevelCopy_eq` and
`containsTransactionChain_eq`.
-/

namespace Oliphaunt.Sql

open Statements ChainState
open RustSql (TransactionChainState chaining chains)

def Lexeme.found : Lexeme → Found Char
  | .skipped => .skipped
  | .word text => .word text
  | .other => .other
  | .openParen => .openParen
  | .closeParen => .closeParen
  | .semicolon => .semicolon

/-- The turns of the scanner's loop, for a notion of whitespace. -/
def lexer (space : Char → Bool) (plainStringsEscapeBackslashes : Bool) :
    Lexer Char (Found Char) where
  turn c cs :=
    ((lexeme space plainStringsEscapeBackslashes c cs).1.found,
      (lexeme space plainStringsEscapeBackslashes c cs).2)
  rest_le c cs := (lexeme_suffix space plainStringsEscapeBackslashes c cs).length_le

/-- The tokens that items stand for, from statement `n` on. -/
def numbered : Bool → Nat → List (Item Char) → List Token
  | _, _, [] => []
  | _, n, .boundary :: rest => numbered true (n + 1) rest
  | start, n, .word text :: rest => ⟨some text, start, n⟩ :: numbered false n rest
  | start, n, .other :: rest => ⟨none, start, n⟩ :: numbered false n rest

variable {n : Nat} {start : Bool} {found : List (Item Char)} {memory : Option Nat × ChainState}
  {state : TransactionChainState}

theorem visit_numbered (word : Option (List Char)) (hstart : start = true → depth = 0)
    (h : rest = numbered false n found) : visit depth ⟨word, start, n⟩ rest =
      numbered start n (emit depth (word.elim .other .word) found) := by
  by_cases hdepth : depth = 0
  · rw [visit, if_pos hdepth, emit, if_pos hdepth, h]
    cases word with
    | none => rfl
    | some text => rfl
  · have hnot : start = false := Bool.eq_false_iff.mpr (mt hstart hdepth)
    rw [visit, if_neg hdepth, emit, if_neg hdepth, hnot, h]

theorem topLevelTokens_eq (space : Char → Bool) (plain : Bool) (text : List Char) (depth : Nat)
    (start : Bool) (n : Nat) (hstart : start = true → depth = 0) :
    topLevelTokens space plain text depth start n =
      numbered start n (items false depth ((lexer space plain).founds text)) := by
  induction hlen : text.length using Nat.strongRecOn generalizing text depth start n with
  | ind k ih =>
    cases text with
    | nil =>
      rw [topLevelTokens, Lexer.founds_nil]
      rfl
    | cons c cs =>
      have hless : (lexeme space plain c cs).2.length < k := by
        rw [← hlen]
        exact Nat.lt_succ_of_le (lexeme_suffix space plain c cs).length_le
      have hrest := fun depth start n hstart =>
        ih _ hless (lexeme space plain c cs).2 depth start n hstart rfl
      rw [topLevelTokens, Lexer.founds_cons]
      simp only [lexer] at hrest ⊢
      cases hfound : (lexeme space plain c cs).1 with
      | skipped => exact hrest depth start n hstart
      | word text => exact visit_numbered (some text) hstart (hrest depth false n (by simp))
      | other => exact visit_numbered none hstart (hrest depth false n (by simp))
      | openParen => exact visit_numbered none hstart (hrest (depth + 1) false n (by simp))
      | closeParen =>
        cases depth with
        | zero => exact hrest 0 start n hstart
        | succ depth => exact hrest depth start n fun h => absurd (hstart h) (by omega)
      | semicolon =>
        cases depth with
        | zero => exact hrest 0 true (n + 1) fun _ => rfl
        | succ depth =>
          have hnot : start = false := Bool.eq_false_iff.mpr (mt hstart (by omega))
          subst hnot
          exact hrest (depth + 1) false n (by simp)

def isCopy (word : List Char) : Bool := wordIs (some word) "copy"

/-- The visitor of `containsTopLevelCopy`. -/
def visitCopy (_ : Unit) (token : Token) : Unit × Bool :=
  ((), token.first && wordIs token.word "copy")

/-- The COPY visitor answers whether a statement begins with the word. -/
theorem scan_copy_eq (found : List (Item Char)) (start : Bool) (n : Nat) :
    scanTopLevelTokens visitCopy () (numbered start n found) = leads isCopy start found := by
  induction found generalizing start n with
  | nil => rfl
  | cons item rest ih =>
    cases item with
    | boundary => exact ih true (n + 1)
    | word text =>
      show (if start && isCopy text then true else _) = (start && isCopy text || _)
      rw [ih false n]
      cases start && isCopy text <;> rfl
    | other =>
      simp only [numbered, scanTopLevelTokens, visitCopy, wordIs, Bool.and_false,
        Bool.false_eq_true, if_false, leads]
      exact ih false n

/-- What the COPY scan of a text answers in one string mode. -/
def copies (plain : Bool) (text : List Char) : Bool :=
  (opening isCopy).answers false 0 true ((lexer isWhitespace plain).founds text)

theorem containsTopLevelCopy_eq (sql : String) :
    containsTopLevelCopy sql = (copies false sql.toList || copies true sql.toList) := by
  have hscan : ∀ plain, scanTopLevelTokens visitCopy ()
      (topLevelTokens isWhitespace plain sql.toList 0 true 0) = copies plain sql.toList := by
    intro plain
    rw [topLevelTokens_eq _ _ _ _ _ _ fun _ => rfl, scan_copy_eq, leads_eq, Scan.finds_items,
      copies]
  rw [← hscan, ← hscan]
  rfl

/-- The word is the keyword, whatever its case. -/
def wordIsKeyword (word : List Char) (keyword : String) : Bool :=
  wordIs (some word) keyword.toLower

def ChainState.toRust : ChainState → TransactionChainState
  | .afterControl => .afterControl
  | .afterQualifier => .afterQualifier
  | .afterAnd => .afterAnd
  | .ineligible => .ineligible

/-- The visitor's memory and the state of the Rust loop, in front of a token of statement
`n`: either the statement is new, or the visitor is in it. -/
def SameChain (start : Bool) (n : Nat) (memory : Option Nat × ChainState)
    (state : TransactionChainState) : Prop :=
  (start = true ∧ (∀ m ∈ memory.1, m < n) ∧ state = .statementStart) ∨
    (start = false ∧ memory.1 = some n ∧ state = memory.2.toRust)

theorem SameChain.later (h : SameChain start n memory state) :
    SameChain true (n + 1) memory .statementStart := by
  refine .inl ⟨rfl, fun m hm => ?_, rfl⟩
  rcases h with ⟨-, hless, -⟩ | ⟨-, hsame, -⟩
  · have := hless m hm
    omega
  · rw [hsame, Option.mem_some_iff] at hm
    omega

section

variable (word : Option (List Char))

include word

theorem ChainState.first_toRust (n : Nat) : word.elim (some .ineligible)
        (fun text => TransactionChainState.next .statementStart (wordIsKeyword text)) =
      some (first { word := word, first := true, statement := n }).toRust := by
  have hrollback : "ROLLBACK".toLower = "rollback" := by decide +kernel
  have habort : "ABORT".toLower = "abort" := by decide +kernel
  cases word with
  | none => rfl
  | some text =>
    simp only [Option.elim_some, TransactionChainState.next, wordIsKeyword, hrollback, habort,
      first, true_and, Bool.or_eq_true]
    split <;> rfl

theorem ChainState.next_toRust (state : ChainState) : word.elim (some .ineligible)
        (fun text => state.toRust.next (wordIsKeyword text)) =
      (state.next word).map toRust := by
  have hwork : "WORK".toLower = "work" := by decide +kernel
  have htransaction : "TRANSACTION".toLower = "transaction" := by decide +kernel
  have hand : "AND".toLower = "and" := by decide +kernel
  have hchain : "CHAIN".toLower = "chain" := by decide +kernel
  cases word with
  | none => simp [next, toRust]
  | some text =>
    cases state with
    | afterControl =>
      simp only [Option.elim_some, toRust, TransactionChainState.next, wordIsKeyword,
        hwork, htransaction, hand, next, reduceCtorEq, if_false, true_and, true_or,
        false_and, Bool.or_eq_true]
      split
      · rfl
      · split <;> rfl
    | afterQualifier =>
      simp only [Option.elim_some, toRust, TransactionChainState.next, wordIsKeyword,
        hand, next, reduceCtorEq, if_false, true_and, or_true, false_and]
      split <;> rfl
    | afterAnd =>
      simp only [Option.elim_some, toRust, TransactionChainState.next, wordIsKeyword,
        hchain, next, reduceCtorEq, if_false, true_and, or_self, false_and]
      split <;> rfl
    | ineligible =>
      rfl

theorem chains_token (wordIs : List Char → String → Bool) (state : TransactionChainState)
    (found : List (Item Char)) : chains wordIs state (word.elim .other .word :: found) =
      match word.elim (some .ineligible) (fun text => state.next (wordIs text)) with
      | none => true
      | some state' => chains wordIs state' found := by
  cases word with
  | none => rfl
  | some text => rfl

/-- A token, and the state in front of the one after it. -/
theorem scan_chain_token (hsame : SameChain start n memory state)
    (h : ∀ memory' state', SameChain false n memory' state' →
      scanTopLevelTokens visitChain memory' rest = chains wordIsKeyword state' found) :
    scanTopLevelTokens visitChain memory (⟨word, start, n⟩ :: rest) =
      chains wordIsKeyword state (word.elim .other .word :: found) := by
  rw [chains_token]
  rcases hsame with ⟨rfl, hless, rfl⟩ | ⟨rfl, hmemory, rfl⟩
  · have hnew : some n ≠ memory.1 := fun heq =>
      absurd (hless n (Option.mem_def.mpr heq.symm)) (Nat.lt_irrefl n)
    rw [first_toRust word n]
    simp only [scanTopLevelTokens, visitChain, ne_eq, hnew, not_false_eq_true, if_true,
      Bool.false_eq_true, if_false]
    exact h _ _ (.inr ⟨rfl, rfl, rfl⟩)
  · rw [next_toRust]
    simp only [scanTopLevelTokens, visitChain, hmemory, ne_eq, not_true_eq_false, if_false]
    cases memory.2.next word with
    | none => rfl
    | some next => exact h _ _ (.inr ⟨rfl, rfl, rfl⟩)

end

/-- The chain visitor answers what the Rust loop answers on the items. -/
theorem scan_chain_eq (hsame : SameChain start n memory state) :
    scanTopLevelTokens visitChain memory (numbered start n found) =
      chains wordIsKeyword state found := by
  induction found generalizing start n memory state with
  | nil => rfl
  | cons item rest ih =>
    cases item with
    | boundary => exact ih hsame.later
    | word text => exact scan_chain_token (some text) hsame fun _ _ => ih
    | other => exact scan_chain_token none hsame fun _ _ => ih

/-- What the chain scan of a text answers in one string mode. -/
def chainsIn (plain : Bool) (text : List Char) : Bool :=
  (chaining wordIsKeyword).answers false 0 .statementStart ((lexer isWhitespace plain).founds text)

theorem containsTransactionChain_eq (sql : String) :
    containsTransactionChain sql = (chainsIn false sql.toList || chainsIn true sql.toList) := by
  have hscan : ∀ plain, scanTransactionChain sql plain = chainsIn plain sql.toList := by
    intro plain
    rw [scanTransactionChain, topLevelTokens_eq _ _ _ _ _ _ fun _ => rfl,
      scan_chain_eq (.inl ⟨rfl, by simp, rfl⟩), RustSql.chains_eq, Scan.finds_items, chainsIn]
  rw [containsTransactionChain, hscan, hscan]

end Oliphaunt.Sql
