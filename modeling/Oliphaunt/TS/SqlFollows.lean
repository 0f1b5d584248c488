import Mathlib.Data.List.TakeWhile
import Oliphaunt.TS.SqlGuards

/-!
# Oliphaunt — the guards' scanner beside PostgreSQL's lexer

The scanner of the guards, in the string mode of the server, against PostgreSQL's
lexer. Most tokens are one turn of the scanner. A string that goes on after a
newline is one token to PostgreSQL and several to the scanner, and so are a number
and a bit string; this does no harm as long as the scanner finds the end
(`readsToken`), since it meets no parenthesis and no semicolon on the way.

* `passes_string`, `passes_decimal` — the scanner gets past a string and a number;
* `follows_of_token` — the scanner follows PostgreSQL at a place where both agree on
  white space and the scanner finds the end of the token;
* `follows_of_tab` — it follows PostgreSQL past a vertical tab that is a token to it,
  where the scan is not at work;
* `answers_of_postgres` — so a scan finds through the scanner what it finds in
  PostgreSQL's tokens.
-/

namespace Oliphaunt.Sql

open Statements List Option
open RustSql (inTag isAsciiSpace)
open PostgresLexer (quote isBitLetter isDigit startsNumber decimalText radixText plainToken
  afterNumber afterNumber_split)
open PostgresLexer (afterQuote afterBlock afterLine afterSegments afterString afterDelimiter
  nextSegment dollarDelimiter token isSpace isIdentStart isIdentCont isTagCont)

theorem quote_eq : quote = singleQuote := rfl

theorem doubleQuote_eq : PostgresLexer.doubleQuote = doubleQuote := rfl

variable {cs rest : List Char}

theorem skipSingleQuote_of_afterQuote (h : afterQuote quote escapes cs = some rest) :
    skipSingleQuote escapes cs = rest :=
  (skipSingleQuote_eq escapes cs).trans (congrArg (·.getD []) h)

theorem isIdentCont_eq : isIdentCont = isPostgresIdentifierContinuation := by
  funext c
  simp only [isIdentCont, isTagCont, isPostgresIdentifierContinuation]
  rw [Bool.or_assoc, Bool.or_assoc, Bool.or_comm (decide (c = '$'))]
  rfl

theorem inTag_eq : isTagCont = inTag := by
  funext c
  by_cases hc : c = '$'
  · subst hc
    decide
  · simp [isTagCont, inTag, isPostgresIdentifierContinuation, hc]
    rfl

theorem dollarDelimiter_eq (cs : List Char) : dollarDelimiter cs = dollarQuoteDelimiter cs := by
  rw [dollarDelimiter, inTag_eq]
  cases cs with
  | nil => rfl
  | cons c cs =>
    by_cases hc : c = '$'
    · subst hc
      simp [dollarQuoteDelimiter, inTag]
    · by_cases hstart : isPostgresIdentifierStart c = true
      · have htag : inTag c = true := by
          simp [inTag, hc, isPostgresIdentifierContinuation, hstart]
        have hident : isIdentStart c = true := hstart
        simp only [dollarQuoteDelimiter, hc, if_false, hstart, not_true_eq_false,
          takeWhile_cons, dropWhile_cons, htag, if_true, List.head?_cons,
          all_some, hident, and_true]
        rfl
      · have hident : ¬ isIdentStart c = true := hstart
        rw [dollarQuoteDelimiter, if_neg hc, if_pos hstart, if_neg]
        rintro ⟨hhead, htag⟩
        by_cases hcont : inTag c = true
        · rw [takeWhile_cons, if_pos hcont, List.head?_cons, all_some] at htag
          exact hident htag
        · rw [dropWhile_cons, if_neg hcont] at hhead
          exact hc (Option.some.inj hhead)

/-- A scanner's white space: PostgreSQL's but for the vertical tab, and no other character
of ASCII. -/
structure Spaces (space : Char → Bool) : Prop where
  postgres : ∀ c, isSpace c = true → space c = true ∨ c = verticalTab
  ascii : ∀ c, space c = true → c.toNat < 0x80 → isSpace c = true

variable {c : Char}

theorem isSpace_iff : isSpace c = true ↔ 9 ≤ c.toNat ∧ c.toNat ≤ 0xd ∨ c.toNat = 0x20 := by
  simp only [isSpace, contains_eq_mem, mem_cons, not_mem_nil, or_false,
    decide_eq_true_eq]
  omega

theorem spaces_isWhitespace : Spaces isWhitespace where
  postgres c hc := by
    rw [isSpace_iff] at hc
    simp only [isWhitespace, contains_eq_mem, mem_cons, not_mem_nil, or_false,
      Bool.or_eq_true, decide_eq_true_eq]
    omega
  ascii c hc hascii := by
    simp only [isWhitespace, contains_eq_mem, mem_cons, not_mem_nil, or_false,
      Bool.or_eq_true, decide_eq_true_eq, Bool.and_eq_true] at hc
    rw [isSpace_iff]
    omega

theorem isSpace_of_isAsciiSpace (h : isAsciiSpace c = true) :
    isSpace c = true := by
  simp only [isAsciiSpace, contains_eq_mem, mem_cons, not_mem_nil,
    or_false, decide_eq_true_eq] at h
  rw [isSpace_iff]
  omega

theorem spaces_isAsciiSpace : Spaces isAsciiSpace where
  postgres c hc := by
    rw [isSpace_iff] at hc
    simp only [isAsciiSpace, contains_eq_mem, mem_cons, not_mem_nil,
      or_false, decide_eq_true_eq, ← Char.toNat_inj, show verticalTab.toNat = 0xb from rfl]
    omega
  ascii c hc _ := isSpace_of_isAsciiSpace hc

/-- The scanner is inside a word at the end of the text, if it is at its beginning. -/
def endsInWord : Bool → List Char → Bool
  | inWord, [] => inWord
  | inWord, c :: cs => endsInWord (inWord && isIdentCont c || isIdentStart c) cs

/-- A scanner in the string mode of the server finds the end of the token. The further
segments of an `E''` string and a bit string have to end where ordinary strings would,
and a number that ends in a word to the scanner must not run on into a name. -/
def readsToken (standardConformingStrings : Bool) (c : Char) (cs : List Char) : Bool :=
  if (c = 'e' ∨ c = 'E') ∧ cs.head? = some quote then
    (afterQuote quote true cs.tail).all fun rest =>
      afterSegments (.ordinary true) rest =
        afterSegments (.ordinary !standardConformingStrings) rest
  else if isBitLetter c ∧ cs.head? = some quote then
    afterString .bits cs.tail = afterString (.ordinary !standardConformingStrings) cs.tail
  else
    (afterNumber c cs).all fun rest =>
      !endsInWord false (cs.take (cs.length - rest.length)) || rest.head?.all (!isIdentCont ·)

section Passes

variable {space : Char → Bool} {plain : Bool} {next : List Char} {found : Found Char}

theorem passes_lexeme (h : lexeme space plain c cs = (lexeme', next))
    (hplain : lexeme'.found.isPlain = true) (hrest : (lexer space plain).Passes next rest) :
    (lexer space plain).Passes (c :: cs) rest := by
  have hturn : (lexer space plain).turn c cs = (lexeme'.found, next) := by
    simp only [lexer, h]
  refine .turn ?_ ?_
  · rw [hturn]
    exact hplain
  · rw [hturn]
    exact hrest

variable (hspaces : Spaces space)

include hspaces

theorem space_of_not_isSpace (hascii : c.toNat < 0x80) (h : isSpace c = false) :
    space c = false := by
  rw [Bool.eq_false_iff] at h ⊢
  exact fun hc => h (hspaces.ascii c hc hascii)

theorem lexeme_quote (cs : List Char) :
    lexeme space plain quote cs = (.other, skipSingleQuote plain cs) := by
  rw [lexeme, space_of_not_isSpace hspaces (by decide) (by decide)]
  rfl

theorem passes_segment {segment : List Char} (h : nextSegment newline cs = some segment)
    (hrest : (lexer space plain).Passes (skipSingleQuote plain segment) rest) :
    (lexer space plain).Passes cs rest := by
  fun_induction nextSegment newline cs with
  | case1 => cases h
  | case2 newline c cs hc ih =>
    rcases hspaces.postgres c hc with hspace | rfl
    · exact passes_lexeme (lexeme_space cs hspace) rfl (ih h)
    · cases htab : space verticalTab with
      | true => exact passes_lexeme (lexeme_space cs htab) rfl (ih h)
      | false => exact passes_lexeme (lexeme_tab cs htab) rfl (ih h)
  | case3 newline c cs _ hline ih =>
    have hdash : space c = false := by
      rw [hline.1]
      exact space_of_not_isSpace hspaces (by decide) (by decide)
    have hskipped : lexeme space plain c cs = (.skipped, afterLine cs.tail) := by
      rw [lexeme, hdash, if_neg Bool.false_ne_true, if_pos hline, skipLine_eq]
    exact passes_lexeme hskipped rfl (ih h)
  | case4 newline c cs _ _ hquote =>
    cases h
    obtain ⟨rfl, -⟩ := hquote
    exact passes_lexeme (lexeme_quote hspaces segment) rfl hrest
  | case5 => cases h

theorem passes_segments (h : afterSegments (.ordinary plain) cs = some rest) :
    (lexer space plain).Passes cs rest := by
  fun_induction afterSegments (.ordinary plain) cs with
  | case1 cs _ => exact Option.some.inj h ▸ .refl
  | case2 => cases h
  | case3 cs segment hsegment rest' hquote ih =>
    refine passes_segment hspaces hsegment ?_
    rw [skipSingleQuote_of_afterQuote hquote]
    exact ih h

/-- From the opening quote of a string to its end. -/
theorem passes_string (h : afterString (.ordinary plain) cs = some rest) :
    (lexer space plain).Passes (quote :: cs) rest := by
  obtain ⟨first, hfirst, hsegments⟩ := bind_eq_some_iff.mp h
  refine passes_lexeme (lexeme_quote hspaces cs) rfl ?_
  rw [skipSingleQuote_of_afterQuote hfirst]
  exact passes_segments hspaces hsegments

/-! ### Numbers -/

variable {used : List Char}

omit hspaces in
theorem isDigit_ascii (h : isDigit c = true) : c.toNat < 0x80 ∧ isSpace c = false ∧
    isPostgresIdentifierStart c = false := by
  simp only [isDigit, Bool.and_eq_true, decide_eq_true_eq] at h
  refine ⟨by omega, ?_, ?_⟩
  · rw [Bool.eq_false_iff, ne_eq, isSpace_iff]
    omega
  · simp only [isPostgresIdentifierStart, Bool.or_eq_false_iff, Bool.and_eq_false_iff,
      decide_eq_false_iff_not]
    refine ⟨⟨⟨?_, by omega⟩, by omega⟩, by omega⟩
    rintro rfl
    exact absurd h (by decide)

/-- A character of a number that is not part of a word. -/
theorem lexeme_number (h : startsNumber c cs = true ∨ c = '+' ∨ c = '-' ∧ cs.head? ≠ some '-') :
    lexeme space plain c cs = (.other, cs) := by
  simp only [startsNumber, Bool.or_eq_true, Bool.and_eq_true, decide_eq_true_eq] at h
  rcases h with ((hdigit | rfl) | ⟨rfl, hdollar⟩) | rfl | ⟨rfl, hnext⟩
  · obtain ⟨hascii, hspace, hident⟩ := isDigit_ascii hdigit
    have hne : ∀ d, isDigit d = false → c ≠ d := by
      rintro d hd rfl
      rw [hdigit] at hd
      cases hd
    have hdollar : skipDollarQuote c cs = none := if_neg (hne '$' (by decide))
    simp [lexeme, space_of_not_isSpace hspaces hascii hspace, hne '-' (by decide),
      hne '/' (by decide), hne 'e' (by decide), hne 'E' (by decide), hne singleQuote (by decide),
      hne doubleQuote (by decide), hdollar, hne '(' (by decide), hne ')' (by decide),
      hne ';' (by decide), hident]
  · simp [lexeme, space_of_not_isSpace hspaces (c := '.') (by decide) (by decide), skipDollarQuote,
      singleQuote, doubleQuote, isPostgresIdentifierStart]
  · have hnone : dollarQuoteDelimiter cs = none := by
      cases cs with
      | nil => cases hdollar
      | cons d ds =>
        have hdigit : isDigit d = true := hdollar
        rw [dollarQuoteDelimiter, if_neg, if_pos]
        · rw [(isDigit_ascii hdigit).2.2]
          decide
        · rintro rfl
          exact absurd hdigit (by decide)
    simp [lexeme, space_of_not_isSpace hspaces (c := '$') (by decide) (by decide), skipDollarQuote,
      hnone, singleQuote, doubleQuote, isPostgresIdentifierStart]
  · simp [lexeme, space_of_not_isSpace hspaces (c := '+') (by decide) (by decide), skipDollarQuote,
      singleQuote, doubleQuote, isPostgresIdentifierStart]
  · simp [lexeme, space_of_not_isSpace hspaces (c := '-') (by decide) (by decide), skipDollarQuote,
      hnext, singleQuote, doubleQuote, isPostgresIdentifierStart]

theorem lexeme_word (hstart : isIdentStart c = true) (hascii : c.toNat < 0x80)
    (hquote : c = 'e' ∨ c = 'E' → cs.head? ≠ some quote) :
    lexeme space plain c cs =
      (.word (c :: cs.takeWhile isIdentCont), cs.dropWhile isIdentCont) := by
  have hne : ∀ d, isIdentStart d = false → c ≠ d := by
    rintro d hd rfl
    rw [hstart] at hd
    cases hd
  have hspace : isSpace c = false := by
    rw [Bool.eq_false_iff, ne_eq, isSpace_iff]
    intro hc
    simp only [isIdentStart, Bool.or_eq_true, Bool.and_eq_true, decide_eq_true_eq] at hstart
    rcases hstart with ((rfl | hstart) | hstart) | hstart
    · exact absurd hc (by decide)
    all_goals omega
  have hdollar : skipDollarQuote c cs = none := if_neg (hne '$' (by decide))
  have hescape : ¬ ((c = 'e' ∨ c = 'E') ∧ cs.head? = some singleQuote) := fun h => hquote h.1 h.2
  have hident : isPostgresIdentifierStart c = true := hstart
  simp only [lexeme, space_of_not_isSpace hspaces hascii hspace, hne '-' (by decide),
    hne '/' (by decide), hescape, hne singleQuote (by decide), hne doubleQuote (by decide), hdollar,
    hne '(' (by decide), hne ')' (by decide), hne ';' (by decide), hident, isIdentCont_eq,
    Bool.false_eq_true, false_and, if_false, if_true]

/-- A bit string is a name and an ordinary string to the scanner. -/
theorem passes_bits (hletter : isBitLetter c = true)
    (h : afterString (.ordinary plain) cs = some rest) :
    (lexer space plain).Passes (c :: quote :: cs) rest := by
  simp only [isBitLetter, Bool.or_eq_true, decide_eq_true_eq] at hletter
  have hword : lexeme space plain c (quote :: cs) = (.word [c], quote :: cs) := by
    rcases hletter with ((rfl | rfl) | rfl) | rfl <;>
      exact lexeme_word hspaces (by decide) (by decide) fun h => absurd h (by decide)
  exact passes_lexeme hword rfl (passes_string hspaces h)

omit hspaces in
theorem endsInWord_true (used : List Char) : endsInWord true used =
    ((used.dropWhile isIdentCont).isEmpty || endsInWord false (used.dropWhile isIdentCont)) := by
  induction used with
  | nil => rfl
  | cons c used ih =>
    by_cases hc : isIdentCont c = true
    · rw [endsInWord, dropWhile_cons_of_pos hc, hc, Bool.and_self, Bool.true_or, ih]
    · rw [Bool.not_eq_true] at hc
      rw [endsInWord, dropWhile_cons_of_neg (by simp [hc]), hc, Bool.and_false]
      rfl

theorem passes_word (hstart : isIdentStart c = true) (hascii : c.toNat < 0x80)
    (hquote : c = 'e' ∨ c = 'E' → (used ++ rest).head? ≠ some quote)
    (hend : endsInWord true used = true → rest.head?.all (!isIdentCont ·) = true)
    (hrest : (lexer space plain).Passes (used.dropWhile isIdentCont ++ rest) rest) :
    (lexer space plain).Passes (c :: (used ++ rest)) rest := by
  refine passes_lexeme (lexeme_word hspaces hstart hascii hquote) rfl ?_
  rw [dropWhile_append]
  split
  · rename_i hempty
    have hnot := hend (by rw [endsInWord_true, hempty, Bool.true_or])
    cases rest with
    | nil => exact .refl
    | cons d rest =>
      rw [dropWhile_cons_of_neg (by simpa using hnot)]
      exact .refl
  · exact hrest

/-- The scanner gets past a decimal number, turn by turn: a word in it takes up what it can,
and the rest is the rest of a number. -/
theorem passes_decimal (htext : decimalText used = true)
    (hend : endsInWord false used = true → rest.head?.all (!isIdentCont ·) = true) :
    (lexer space plain).Passes (used ++ rest) rest := by
  induction hlen : used.length using Nat.strongRecOn generalizing used with
  | ind n ih =>
    cases used with
    | nil => exact .refl
    | cons c used =>
      rw [decimalText, Bool.and_eq_true] at htext
      obtain ⟨hc, htail⟩ := htext
      simp only [Bool.or_eq_true, Bool.and_eq_true, decide_eq_true_eq] at hc
      rw [length_cons] at hlen
      have hsymbol : isIdentStart c = false →
          lexeme space plain c (used ++ rest) = (.other, used ++ rest) →
          (lexer space plain).Passes (c :: used ++ rest) rest := fun hstart hother =>
        passes_lexeme hother rfl (ih used.length (by omega) htail
          (fun h => hend (by rwa [endsInWord, hstart])) rfl)
      have hword : isIdentStart c = true → c.toNat < 0x80 →
          (c = 'e' ∨ c = 'E' → (used ++ rest).head? ≠ some quote) →
          (lexer space plain).Passes (c :: used ++ rest) rest := by
        intro hstart hascii hquote
        have hend' : endsInWord true used = true → rest.head?.all (!isIdentCont ·) = true :=
          fun h => hend (by rwa [endsInWord, hstart])
        have hsuffix := dropWhile_suffix isIdentCont (l := used)
        refine passes_word hspaces hstart hascii hquote hend' ?_
        refine ih _ (by have := hsuffix.length_le; omega)
          (PostgresLexer.decimalText_of_suffix hsuffix htail) (fun h => hend' ?_) rfl
        rw [endsInWord_true, h, Bool.or_true]
      rcases hc with ((((hdigit | rfl) | rfl) | ⟨hletter, hmore⟩) | ⟨hsign, hdigit⟩)
      · exact hsymbol (isDigit_ascii hdigit).2.2
          (lexeme_number hspaces (.inl (by simp [startsNumber, hdigit])))
      · exact hsymbol (by decide) (lexeme_number hspaces (.inl rfl))
      · exact hword (by decide) (by decide) fun h => absurd h (by decide)
      · -- Something stands behind the letter of an exponent, and it is not a quote.
        refine hword ?_ ?_ fun _ => ?_
        · rcases hletter with rfl | rfl <;> decide
        · rcases hletter with rfl | rfl <;> decide
        · cases used with
          | nil => cases hmore
          | cons d used =>
            rintro hquote
            obtain rfl : d = quote := Option.some.inj hquote
            cases htail
      · cases used with
        | nil => cases hdigit
        | cons d used =>
          have hd : isDigit d = true := hdigit
          refine hsymbol (by rcases hsign with rfl | rfl <;> decide)
            (lexeme_number hspaces (.inr (hsign.imp_right fun hminus => ⟨hminus, ?_⟩)))
          intro hhead
          obtain rfl : d = '-' := Option.some.inj hhead
          exact absurd hd (by decide)

theorem passes_radix (htext : radixText used = true)
    (hend : endsInWord false used = true → rest.head?.all (!isIdentCont ·) = true) :
    (lexer space plain).Passes (used ++ rest) rest := by
  cases used with
  | nil => cases htext
  | cons letter digits =>
    simp only [radixText, Bool.and_eq_true, decide_eq_true_eq] at htext
    obtain ⟨⟨⟨⟨hstart, hascii⟩, he⟩, hE⟩, hdigits⟩ := htext
    have hnone : digits.dropWhile isIdentCont = [] :=
      dropWhile_eq_nil_iff.mpr (List.all_eq_true.mp hdigits)
    refine passes_word hspaces hstart hascii ?_ (fun h => hend (by rwa [endsInWord, hstart]))
      (by rw [hnone]; exact .refl)
    rintro (rfl | rfl)
    · exact absurd rfl he
    · exact absurd rfl hE

/-- A number of any form, if the scanner finds its end. -/
theorem passes_number (h : afterNumber c cs = some rest)
    (hend : endsInWord false (cs.take (cs.length - rest.length)) = true →
      rest.head?.all (!isIdentCont ·) = true) :
    (lexer space plain).Passes (c :: cs) rest := by
  obtain ⟨hstarts, used, rfl, htext⟩ := afterNumber_split h
  rw [length_append, Nat.add_sub_cancel, take_left] at hend
  refine passes_lexeme (lexeme_number hspaces (.inl hstarts)) rfl ?_
  rcases htext with htext | ⟨-, htext⟩
  · exact passes_decimal hspaces htext hend
  · exact passes_radix hspaces htext hend

end Passes

variable {space : Char → Bool} {standard atWork : Bool} {found : Found Char}

section Follows

variable {plain : Bool} {next : List Char}

/-- The scanner finds the same and stops at the same place. -/
theorem follows_of_lexeme (h : lexeme space plain c cs = (lexeme', next))
    (hfound : lexeme'.found = found) (hrest : next = rest) :
    (lexer space plain).Follows atWork c cs found rest := by
  subst hfound hrest
  refine .inl ?_
  simp only [lexer, h]

/-- The scanner passes over a token that is nothing to the guards. -/
theorem follows_of_passes (hother : .other = found)
    (h : (lexer space plain).Passes (c :: cs) rest) :
    (lexer space plain).Follows atWork c cs found rest :=
  .inr ⟨.inl hother.symm, h⟩

theorem eq_some_of_map {found' : Found Char} {o : Option (List Char)}
    (h : o.map (found', ·) = some (found, rest)) : o = some rest ∧ found' = found := by
  obtain ⟨rest', hrest', heq⟩ := map_eq_some_iff.mp h
  obtain ⟨rfl, rfl⟩ := Prod.mk.inj heq
  exact ⟨hrest', rfl⟩

end Follows

/-- **The scanner follows PostgreSQL at a token** where the two agree on white space and the
scanner finds the end. -/
theorem follows_of_token (hspaces : Spaces space) (h : token standard c cs = some (found, rest))
    (hspace : space c = isSpace c) (hreads : readsToken standard c cs = true) :
    (lexer space !standard).Follows atWork c cs found rest := by
  have hlexeme := lexeme.eq_def space (!standard) c cs
  unfold token at h
  rw [hspace] at hlexeme
  by_cases hskip : isSpace c = true
  · rw [if_pos hskip] at h hlexeme
    obtain ⟨rfl, rfl⟩ := Prod.mk.inj (Option.some.inj h)
    exact follows_of_lexeme hlexeme rfl rfl
  rw [if_neg hskip] at h hlexeme
  by_cases hline : c = '-' ∧ cs.head? = some '-'
  · rw [if_pos hline] at h hlexeme
    obtain ⟨rfl, rfl⟩ := Prod.mk.inj (Option.some.inj h)
    exact follows_of_lexeme hlexeme rfl (skipLine_eq _)
  rw [if_neg hline] at h hlexeme
  by_cases hblock : c = '/' ∧ cs.head? = some '*'
  · rw [if_pos hblock] at h hlexeme
    obtain ⟨hrest, hfound⟩ := eq_some_of_map h
    exact follows_of_lexeme hlexeme hfound
      ((skipBlockComment_eq ..).trans (congrArg (·.getD []) hrest))
  rw [if_neg hblock] at h hlexeme
  rw [quote_eq] at h
  by_cases hescape : (c = 'e' ∨ c = 'E') ∧ cs.head? = some singleQuote
  · rw [if_pos hescape] at h hlexeme
    obtain ⟨hstring, hfound⟩ := eq_some_of_map h
    obtain ⟨first, hfirst, hsegments⟩ := bind_eq_some_iff.mp hstring
    rw [readsToken, quote_eq, if_pos hescape, ← quote_eq, show afterQuote quote true cs.tail =
      some first from hfirst, all_some, decide_eq_true_eq, hsegments] at hreads
    refine follows_of_passes hfound (passes_lexeme hlexeme rfl ?_)
    rw [skipSingleQuote_of_afterQuote hfirst]
    exact passes_segments hspaces hreads.symm
  rw [if_neg hescape] at h hlexeme
  rw [readsToken, quote_eq, if_neg hescape] at hreads
  by_cases hbits : isBitLetter c = true ∧ cs.head? = some singleQuote
  · rw [if_pos hbits] at h hreads
    obtain ⟨hstring, hfound⟩ := eq_some_of_map h
    rw [hstring, decide_eq_true_eq] at hreads
    obtain ⟨cs, rfl⟩ : ∃ tail, cs = quote :: tail := head?_eq_some_iff.mp hbits.2
    refine follows_of_passes hfound (passes_bits hspaces hbits.1 hreads.symm)
  rw [if_neg hbits] at h hreads
  by_cases hquote : c = singleQuote
  · rw [if_pos hquote] at h
    obtain ⟨hstring, hfound⟩ := eq_some_of_map h
    refine follows_of_passes hfound ?_
    rw [hquote, ← quote_eq]
    exact passes_string hspaces hstring
  rw [if_neg hquote] at h hlexeme
  rw [doubleQuote_eq] at h
  by_cases hdouble : c = doubleQuote
  · rw [if_pos hdouble] at h hlexeme
    obtain ⟨hrest, hfound⟩ := eq_some_of_map h
    exact follows_of_lexeme hlexeme hfound
      ((skipDoubleQuote_eq cs).trans (congrArg (·.getD []) hrest))
  rw [if_neg hdouble] at h hlexeme
  cases hnumber : afterNumber c cs with
  | some rest' =>
    rw [hnumber] at h hreads
    obtain ⟨hother, rfl⟩ := Prod.mk.inj (Option.some.inj h)
    rw [all_some, Bool.or_eq_true, Bool.not_eq_true'] at hreads
    refine follows_of_passes hother (passes_number hspaces hnumber fun hword => ?_)
    exact hreads.resolve_left (by rw [hword]; exact Bool.noConfusion)
  | none =>
    have hdollar : skipDollarQuote c cs = (if c = '$' then dollarDelimiter cs else none).map
        fun delimiter => skipPast delimiter (cs.drop (delimiter.length - 1)) := by
      rw [skipDollarQuote, dollarDelimiter_eq]
      split <;> rfl
    rw [hnumber] at h
    rw [hdollar] at hlexeme
    cases hdelimiter : if c = '$' then dollarDelimiter cs else none with
    | some delimiter =>
      rw [hdelimiter] at h hlexeme
      obtain ⟨hrest, hfound⟩ := eq_some_of_map h
      exact follows_of_lexeme hlexeme hfound ((skipPast_eq ..).trans (congrArg (·.getD []) hrest))
    | none =>
      rw [hdelimiter] at h hlexeme
      have hplain : plainToken c cs = (found, rest) := Option.some.inj h
      rw [plainToken, show isIdentStart c = isPostgresIdentifierStart c from rfl,
        isIdentCont_eq] at hplain
      split_ifs at hlexeme hplain
      all_goals
        obtain ⟨hfound, hrest⟩ := Prod.mk.inj hplain
        exact follows_of_lexeme hlexeme hfound hrest

/-- A vertical tab that is a token to the scanner, where the scan is not at work. -/
theorem follows_of_tab (cs : List Char) (htab : space verticalTab = false) :
    (lexer space !standard).Follows false verticalTab cs .skipped cs :=
  .inr ⟨.inr ⟨rfl, rfl⟩, passes_lexeme (lexeme_tab cs htab) rfl .refl⟩

/-- At a place that a scan of PostgreSQL's tokens comes to, a scanner with the given white
space reads as PostgreSQL does: no token begins with a character that only the scanner
takes for white space, the scanner finds the end of the token, and a vertical tab is white
space to it or stands where the scan is not at work. -/
def readsPlace (space : Char → Bool) (standardConformingStrings atWork : Bool) (c : Char)
    (cs : List Char) : Prop :=
  (space c = true → isSpace c = true) ∧ readsToken standardConformingStrings c cs = true ∧
    (c = verticalTab → space c = true ∨ atWork = false)

instance (space : Char → Bool) (standardConformingStrings atWork : Bool) (c : Char)
    (cs : List Char) : Decidable (readsPlace space standardConformingStrings atWork c cs) :=
  inferInstanceAs (Decidable (_ ∧ _ ∧ _))

theorem follows_of_readsPlace (hspaces : Spaces space)
    (h : token standard c cs = some (found, rest))
    (hreads : readsPlace space standard atWork c cs) :
    (lexer space !standard).Follows atWork c cs found rest := by
  obtain ⟨hforeign, hend, htab⟩ := hreads
  by_cases hagree : space c = isSpace c
  · exact follows_of_token hspaces h hagree hend
  · -- White space of PostgreSQL that the scanner takes for a token.
    have hskip : isSpace c = true ∧ space c = false := by
      cases hc : space c with
      | true => exact absurd (hc.trans (hforeign hc).symm) hagree
      | false =>
        rw [hc] at hagree
        exact ⟨Bool.ne_false_iff.mp (Ne.symm hagree), rfl⟩
    obtain rfl : c = verticalTab := (hspaces.postgres c hskip.1).resolve_left (by simp [hskip.2])
    have hidle : atWork = false := (htab rfl).resolve_left (by simp [hskip.2])
    have htoken : token standard verticalTab cs = some (.skipped, cs) := by
      rw [token, if_pos hskip.1]
    obtain ⟨rfl, rfl⟩ := Prod.mk.inj (Option.some.inj (h.symm.trans htoken))
    exact hidle ▸ follows_of_tab _ hskip.2

/-- **What a scan finds in PostgreSQL's tokens it finds through the scanner**, in the string
mode of the server, if the scanner reads as PostgreSQL does at the places the scan comes to. -/
theorem answers_of_postgres {σ : Type} [DecidableEq σ] {scan : Scan Char σ}
    (hspaces : Spaces space) (unmatched : Bool) {text : List Char}
    (hlex : PostgresLexer.Lexes standard text)
    (hreads : ∀ place ∈ scan.visited (PostgresLexer.lexer standard) true 0 scan.start
        ((PostgresLexer.lexer standard).places text),
      readsPlace space standard place.1 place.2.1 place.2.2)
    (hfound : scan.answers true 0 scan.start ((PostgresLexer.lexer standard).founds text) = true) :
    scan.answers unmatched 0 scan.start ((lexer space !standard).founds text) = true := by
  refine Scan.answers_of_follows unmatched text 0 (fun place hplace => ?_) (.inr rfl) hfound
  obtain ⟨⟨found, rest⟩, htoken⟩ :=
    isSome_iff_exists.mp (hlex place.2 (scan.mem_of_visited hplace))
  have hturn : (PostgresLexer.lexer standard).turn place.2.1 place.2.2 = (found, rest) := by
    show (token standard place.2.1 place.2.2).getD (.other, []) = _
    rw [htoken]
    rfl
  rw [hturn]
  exact follows_of_readsPlace hspaces htoken (hreads place hplace)

end Oliphaunt.Sql
