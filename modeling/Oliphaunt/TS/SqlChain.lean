import Oliphaunt.Model.TransactionBlock
import Oliphaunt.TS.SqlFollows

/-!
# Oliphaunt — what the chain scan finds

The TypeScript guard against chained rollbacks beside PostgreSQL's lexer, for a text
whose statements PostgreSQL runs.

* `reads_of_rollback` — the scan succeeds on the words of every statement that is a
  chained rollback to PostgreSQL;
* `containsTransactionChain_of_statement` — so the guard finds every chained rollback
  that PostgreSQL reads in a text, if up to the chain it reads the text as PostgreSQL
  does (`ChainRead`).
-/

namespace Oliphaunt.Sql

open TransactionBlock Statements List
open RustSql (TransactionChainState chaining)

variable {word : Option (List Char)} {lower : String}

/-- A keyword of PostgreSQL is the same word to the scan. -/
theorem wordIs_of_keyword (h : keyword word = lower) (hne : lower ≠ "")
    (hascii : (lower.toList.all fun c => c.toNat < 128) = true) : wordIs word lower = true := by
  cases word with
  | none => exact absurd h.symm hne
  | some w =>
    have hw : w.map Char.toLower = lower.toList := by rw [← h, keyword, String.toList_ofList]
    simp only [wordIs, decide_eq_true_eq]
    have hascii' : ∀ c ∈ lower.toList, c.toNat < 128 := by simpa using hascii
    rw [toLowerCase_of_ascii (hw ▸ hascii'), hw]

/-- The guard's scan for a chained rollback. -/
abbrev chainScan : Scan Char TransactionChainState := chaining wordIsKeyword

variable {words rest : List (Option (List Char))} {state : TransactionChainState}

/-- At a word that is a keyword to PostgreSQL the scan goes by that keyword. -/
theorem next_keyword (h : keyword word = lower) (hne : lower ≠ "")
    (hascii : (lower.toList.all fun c => c.toNat < 128) = true) :
    ∃ text, word = some text ∧ ∀ state, chainScan.next state text =
      TransactionChainState.next state fun keyword => decide (keyword.toLower = lower) := by
  have hword := wordIs_of_keyword h hne hascii
  cases word with
  | none => cases hword
  | some text =>
    refine ⟨text, rfl, fun state => congrArg state.next (funext fun keyword => ?_)⟩
    simp only [wordIs, decide_eq_true_eq] at hword
    simp only [wordIsKeyword, wordIs, hword, String.toList_inj, eq_comm]

/-- The scan goes on over a keyword. -/
theorem reads_keyword (h : keyword word = lower) (hne : lower ≠ "")
    (hascii : (lower.toList.all fun c => c.toNat < 128) = true)
    (hnext : (state.next fun keyword => decide (keyword.toLower = lower)) = some state')
    (hrest : chainScan.reads state' rest = true) : chainScan.reads state (word :: rest) = true := by
  obtain ⟨text, rfl, htext⟩ := next_keyword h hne hascii
  rw [Scan.reads, htext, hnext]
  exact hrest

theorem reads_clause (hstate : state = .afterControl ∨ state = .afterQualifier)
    (h : chainClause (words.map keyword) = some true) : chainScan.reads state words = true := by
  unfold chainClause at h
  split at h
  case h_2 heq =>
    obtain ⟨word, rest, rfl, hand, hrest⟩ := map_eq_cons_iff.mp heq
    obtain ⟨word', rest', rfl, hchain, -⟩ := map_eq_cons_iff.mp hrest
    have hnext : (state.next fun keyword => decide (keyword.toLower = "and")) = some .afterAnd := by
      rcases hstate with rfl | rfl <;> decide +kernel
    have hlast : (TransactionChainState.next .afterAnd fun keyword =>
        decide (keyword.toLower = "chain")) = none := by decide +kernel
    refine reads_keyword hand (by decide) (by decide) hnext ?_
    obtain ⟨text, rfl, htext⟩ := next_keyword hchain (by decide) (by decide)
    rw [Scan.reads, htext, hlast]
  all_goals cases h

/-- After the control word an optional qualifier and the clause complete a chain. -/
theorem reads_afterControl (h : chainClause (dropQualifier (words.map keyword)) = some true) :
    chainScan.reads .afterControl words = true := by
  have hqualified : ∀ {word rest lower}, words = word :: rest → keyword word = lower →
      (lower = "work" ∨ lower = "transaction") →
      chainClause (rest.map keyword) = some true → chainScan.reads .afterControl words = true := by
    rintro word rest lower rfl hword hlower hrest
    have hnext : (TransactionChainState.next .afterControl fun keyword =>
        decide (keyword.toLower = lower)) = some .afterQualifier := by
      rcases hlower with rfl | rfl <;> decide +kernel
    exact reads_keyword hword (by rcases hlower with rfl | rfl <;> decide)
      (by rcases hlower with rfl | rfl <;> decide) hnext (reads_clause (.inr rfl) hrest)
  unfold dropQualifier at h
  split at h
  · rename_i heq
    obtain ⟨word, rest, hwords, hword, hrest⟩ := map_eq_cons_iff.mp heq
    exact hqualified hwords hword (.inl rfl) (hrest ▸ h)
  · rename_i heq
    obtain ⟨word, rest, hwords, hword, hrest⟩ := map_eq_cons_iff.mp heq
    exact hqualified hwords hword (.inr rfl) (hrest ▸ h)
  · exact reads_clause (.inl rfl) h

/-- The scan succeeds on every statement that is a chained rollback to PostgreSQL. -/
theorem reads_of_rollback (h : Command.ofWords words = .rollback true) :
    chainScan.reads .statementStart words = true := by
  obtain ⟨first, keywords, hkeywords, hcontrol, hclause⟩ := Command.ofKeywords_rollback h
  obtain ⟨word, rest, rfl, hword, rfl⟩ := map_eq_cons_iff.mp hkeywords
  have hnext : (TransactionChainState.next .statementStart fun keyword =>
      decide (keyword.toLower = first)) = some .afterControl := by
    rcases hcontrol with rfl | rfl <;> decide +kernel
  exact reads_keyword hword (by rcases hcontrol with rfl | rfl <;> decide)
    (by rcases hcontrol with rfl | rfl <;> decide) hnext (reads_afterControl hclause)

/-- Up to the first chained rollback, the guard reads the text as PostgreSQL does. -/
def ChainRead (standardConformingStrings : Bool) (text : List Char) : Prop :=
  ∀ place ∈ chainScan.visited (PostgresLexer.lexer standardConformingStrings) true 0 .statementStart
      ((PostgresLexer.lexer standardConformingStrings).places text),
    readsPlace isWhitespace standardConformingStrings place.1 place.2.1 place.2.2

instance (standardConformingStrings : Bool) (text : List Char) :
    Decidable (ChainRead standardConformingStrings text) :=
  List.decidableBAll _ _

/-- **Every chained rollback that PostgreSQL reads in a text is found by the guard**, if it
reads the text as PostgreSQL does up to the first one. -/
theorem containsTransactionChain_of_statement (hread : ChainRead standard sql.toList)
    (hwords : words ∈ PostgresLexer.statements standard sql.toList)
    (hcommand : Command.ofWords words = .rollback true) : containsTransactionChain sql = true := by
  rw [PostgresLexer.statements] at hwords
  split at hwords
  case isFalse => cases hwords
  rename_i hlex
  have hfinds := (chainScan.finds_iff _).mpr ⟨words, hwords, reads_of_rollback hcommand⟩
  rw [Scan.finds_items] at hfinds
  have hscan : chainsIn (!standard) sql.toList = true :=
    answers_of_postgres spaces_isWhitespace false hlex hread hfinds
  rw [containsTransactionChain_eq, Bool.or_eq_true]
  cases standard with
  | true => exact .inl hscan
  | false => exact .inr hscan

/-- A no-break space hides one: to PostgreSQL it begins the name that the dollar signs
belong to. -/
example : containsTransactionChain "SELECT 1 AS \u00a0$x$; ROLLBACK AND CHAIN" = false ∧
    (PostgresLexer.statements true "SELECT 1 AS \u00a0$x$; ROLLBACK AND CHAIN".toList).map
      Command.ofWords = [.other, .rollback true] := by
  decide +kernel

end Oliphaunt.Sql
