import Oliphaunt.TS.SqlFollows

/-!
# Oliphaunt — what the COPY guards find

The COPY guards of the two languages against PostgreSQL's lexer. What stands behind
the first COPY that leads a statement does not matter to them; up to it they have to
read the text as PostgreSQL does.

* `copy_guards_complete` — then both find it, whatever string mode the server is in;
* `copy_guards_miss` — a text for each thing that is read differently.
-/

namespace Oliphaunt.Sql

open Statements
open RustSql (isAsciiSpace)
open PostgresLexer (Lexes statementStartsWith)

theorem postgres_isCopy (word : List Char) :
    decide (word.map Char.toLower = "copy".toList) = isCopy word := by
  rw [← isCopy_eq, eqIgnoreAsciiCase_encode]
  congr 1

/-- Up to the first COPY that leads a statement, both guards read the text as PostgreSQL
does. -/
def GuardsRead (standardConformingStrings : Bool) (text : List Char) : Prop :=
  ∀ place ∈ (opening isCopy).visited (PostgresLexer.lexer standardConformingStrings) true 0 true
      ((PostgresLexer.lexer standardConformingStrings).places text),
    readsPlace isWhitespace standardConformingStrings place.1 place.2.1 place.2.2 ∧
      readsPlace isAsciiSpace standardConformingStrings place.1 place.2.1 place.2.2

instance (standardConformingStrings : Bool) (text : List Char) :
    Decidable (GuardsRead standardConformingStrings text) :=
  List.decidableBAll _ _

/-- **Every COPY that PostgreSQL reads at the start of a statement is found by both guards**,
in a text that they read as PostgreSQL does up to the first one. -/
theorem copy_guards_complete (standardConformingStrings : Bool) (sql : String)
    (hlex : Lexes standardConformingStrings sql.toList)
    (hreads : GuardsRead standardConformingStrings sql.toList)
    (hcopy : statementStartsWith standardConformingStrings "copy" sql.toList = true) :
    containsTopLevelCopy sql = true ∧
      (RustSql.containsTopLevelCopy sql false || RustSql.containsTopLevelCopy sql true) = true := by
  have hfound : (opening isCopy).answers true 0 true
      ((PostgresLexer.lexer standardConformingStrings).founds sql.toList) = true := by
    rw [← Scan.finds_items, ← leads_eq, ← funext postgres_isCopy]
    exact hcopy
  have hts : copies (!standardConformingStrings) sql.toList = true :=
    answers_of_postgres spaces_isWhitespace false hlex (fun place hplace => (hreads place hplace).1)
      hfound
  have hrust : RustSql.containsTopLevelCopy sql (!standardConformingStrings) = true := by
    rw [rust_copies]
    exact answers_of_postgres spaces_isAsciiSpace true hlex
      (fun place hplace => (hreads place hplace).2) hfound
  rw [containsTopLevelCopy_eq]
  cases standardConformingStrings with
  | true => exact ⟨Bool.or_eq_true_iff.mpr (.inl hts), Bool.or_eq_true_iff.mpr (.inl hrust)⟩
  | false => exact ⟨Bool.or_eq_true_iff.mpr (.inr hts), Bool.or_eq_true_iff.mpr (.inr hrust)⟩

/-- A string that goes on in a further segment, a number, a bit string, a vertical tab inside
a statement and a no-break space behind the COPY do not disturb the guards. -/
theorem copy_guards_complete_segments :
    let sql := "SELECT 'a'\n'\\',\x0b1.5E-3$$;$$, X'0F'\n'1' /* ; /* */ */; copy \u00a0t FROM STDIN"
    containsTopLevelCopy sql = true ∧
      (RustSql.containsTopLevelCopy sql false || RustSql.containsTopLevelCopy sql true) = true :=
  copy_guards_complete true _ (by decide +kernel) (by decide +kernel) (by decide +kernel)

/-- What the guards miss. Both miss a COPY behind an `E''` string that goes on in a segment
with an escaped quote, behind a number with an exponent that runs on into a dollar quote,
and, where ordinary strings escape, behind a bit string with a backslash in front of its
quote; the Rust guard misses one behind a vertical tab; the TypeScript guard misses one
behind a name that begins with a no-break space and looks like a dollar quote after it. -/
theorem copy_guards_miss :
    (∀ text ∈ [(true, "SELECT E''\n'\\'', '\\'; COPY t FROM STDIN"),
        (true, "SELECT 1e5$a$;$a$; COPY t FROM STDIN"),
        (false, "SELECT B'\\', \"'\", '\\''; COPY t FROM STDIN")],
      Lexes text.1 text.2.toList ∧ statementStartsWith text.1 "copy" text.2.toList = true ∧
        containsTopLevelCopy text.2 = false ∧
        (RustSql.containsTopLevelCopy text.2 false ||
          RustSql.containsTopLevelCopy text.2 true) = false) ∧
    (Lexes true "\x0bCOPY t FROM STDIN".toList ∧
      statementStartsWith true "copy" "\x0bCOPY t FROM STDIN".toList = true ∧
      (RustSql.containsTopLevelCopy "\x0bCOPY t FROM STDIN" false ||
        RustSql.containsTopLevelCopy "\x0bCOPY t FROM STDIN" true) = false) ∧
    (Lexes true "SELECT 1 AS \u00a0$x$; COPY t FROM STDIN".toList ∧
      statementStartsWith true "copy"
        "SELECT 1 AS \u00a0$x$; COPY t FROM STDIN".toList = true ∧
      containsTopLevelCopy "SELECT 1 AS \u00a0$x$; COPY t FROM STDIN" = false) := by
  decide +kernel

end Oliphaunt.Sql
