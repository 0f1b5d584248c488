import Oliphaunt.Model.Utf8
import Oliphaunt.TS.SqlTurns

/-!
# Oliphaunt — the Rust scan read as a scan over characters

The Rust scanner walks bytes and the TypeScript scanner walks characters. This
module moves the Rust one to characters: on the UTF-8 bytes of a text it finds
what `Sql.lexeme` finds in the characters, with the white space of
`u8::is_ascii_whitespace` (`founds_encode`). What is left to compare is then the
white space, the unmatched parentheses and the case folding.

Every skipping function of the source looks for ASCII characters only, so each
one passes over the bytes of another character one by one.
-/

namespace Oliphaunt.RustSql

open Statements Utf8 List Option
open Sql (Lexeme lexeme singleQuote)

/-- `u8::is_ascii_whitespace` on characters. -/
def isAsciiSpace (c : Char) : Bool := [0x9, 0xa, 0xc, 0xd, 0x20].contains c.toNat

variable {bytes : List UInt8} {c : Char}

section Quotes

variable {escapes : Bool} {quote : UInt8}

theorem skipQuoted_cons_plain {byte : UInt8} (rest : List UInt8) (hquote : byte ≠ quote)
    (hescape : ¬ (escapes = true ∧ byte = backslashByte)) :
    skipQuoted quote escapes (byte :: rest) = skipQuoted quote escapes rest := by
  cases rest with
  | nil => rfl
  | cons next rest => rw [skipQuoted, if_neg hquote, if_neg hescape]

theorem skipQuoted_cons_escape (rest : List UInt8) (hquote : backslashByte ≠ quote) :
    skipQuoted quote true (backslashByte :: rest) = skipQuoted quote true rest.tail := by
  cases rest with
  | nil => rfl
  | cons next rest =>
    rw [skipQuoted, if_neg hquote, if_pos ⟨rfl, rfl⟩]
    rfl

theorem skipQuoted_cons_quote (rest : List UInt8) : skipQuoted quote escapes (quote :: rest) =
      if rest.head? = some quote then skipQuoted quote escapes rest.tail else rest := by
  cases rest with
  | nil => rfl
  | cons next rest =>
    rw [skipQuoted, if_pos rfl]
    simp only [List.head?_cons, some_inj, tail_cons]

variable {quote : Char} (hascii : quote.toNat < 0x80)

include hascii

theorem skipQuoted_cons_high (b : UInt8) (rest : List UInt8) (hb : IsHigh b) :
    skipQuoted (byte quote) escapes (b :: rest) = skipQuoted (byte quote) escapes rest :=
  skipQuoted_cons_plain rest (hb.ne_byte hascii) fun hand => absurd (hand.2 ▸ hb) (by decide)

/-- Past an escaping backslash one byte is skipped, and the other bytes of its character
are skipped next. -/
theorem skipQuoted_tail_encode (c : Char) (cs : List Char) :
    skipQuoted (byte quote) escapes (encode (c :: cs)).tail =
      skipQuoted (byte quote) escapes (encode cs) := by
  by_cases hc : c.toNat < 0x80
  · rw [encode_cons_ascii cs hc]
    rfl
  · obtain ⟨b, bs, -, hbs, -, hencode⟩ := encode_cons_high cs (Nat.le_of_not_lt hc)
    rw [hencode]
    exact skip_high (skipQuoted_cons_high hascii) hbs _

theorem skipQuoted_encode_plain (cs : List Char) (hne : c ≠ quote)
    (hescape : ¬ (escapes = true ∧ c = Sql.backslash)) :
    skipQuoted (byte quote) escapes (encode (c :: cs)) =
      skipQuoted (byte quote) escapes (encode cs) := by
  by_cases hc : c.toNat < 0x80
  · rw [encode_cons_ascii cs hc]
    exact skipQuoted_cons_plain _ (fun heq => hne ((byte_inj hc hascii).mp heq)) fun hand =>
      hescape ⟨hand.1, (byte_inj hc (by decide)).mp hand.2⟩
  · exact skip_encode (skipQuoted_cons_high hascii) cs (Nat.le_of_not_lt hc)

theorem skipQuoted_encode (hbackslash : backslashByte ≠ byte quote) (cs : List Char) :
    skipQuoted (byte quote) escapes (encode cs) =
      encode ((PostgresLexer.afterQuote quote escapes cs).getD []) := by
  have hencode : ∀ cs, encode (quote :: cs) = byte quote :: encode cs := fun cs =>
    encode_cons_ascii cs hascii
  have hlast : ∀ c, skipQuoted (byte quote) escapes (encode [c]) = [] := by
    intro c
    by_cases hc : c.toNat < 0x80
    · rw [encode_cons_ascii [] hc]
      rfl
    · exact skip_encode (skipQuoted_cons_high hascii) [] (Nat.le_of_not_lt hc)
  fun_induction PostgresLexer.afterQuote quote escapes cs with
  | case1 => rfl
  | case2 => exact hlast _
  | case3 c => exact hlast c
  | case4 c d cs hescape ih =>
    obtain ⟨hescapes, rfl⟩ := hescape
    subst hescapes
    rw [encode_cons_ascii (d :: cs) (by decide), ← ih, ← skipQuoted_tail_encode hascii d cs]
    exact skipQuoted_cons_escape _ hbackslash
  | case5 cs hescape ih =>
    rw [hencode, hencode, skipQuoted_cons_quote, List.head?_cons, if_pos rfl, tail_cons, ih]
  | case6 d cs hd hescape =>
    have hhead : (encode (d :: cs)).head? ≠ some (byte quote) := fun hhead =>
      hd (Option.some.inj ((head?_encode hascii (d :: cs)).mp hhead))
    rw [hencode, skipQuoted_cons_quote, if_neg hhead]
    rfl
  | case7 c d cs hescape hc ih => rw [skipQuoted_encode_plain hascii (d :: cs) hc hescape, ih]

end Quotes

theorem skipQuoted_single (escapes : Bool) (cs : List Char) :
    skipQuoted quoteByte escapes (encode cs) = encode (Sql.skipSingleQuote escapes cs) := by
  have hascii : singleQuote.toNat < 0x80 := by decide
  rw [Sql.skipSingleQuote_eq]
  exact skipQuoted_encode hascii (by decide) cs

theorem skipQuoted_double (cs : List Char) :
    skipQuoted doubleQuoteByte false (encode cs) = encode (Sql.skipDoubleQuote cs) := by
  have hascii : Sql.doubleQuote.toNat < 0x80 := by decide
  rw [Sql.skipDoubleQuote_eq]
  exact skipQuoted_encode hascii (by decide) cs

theorem skipBlockComment_cons_plain {byte : UInt8} (depth : Nat) (rest : List UInt8)
    (hopen : ¬ (byte = 0x2f ∧ rest.head? = some 0x2a))
    (hclose : ¬ (byte = 0x2a ∧ rest.head? = some 0x2f)) :
    skipBlockComment (depth + 1) (byte :: rest) = skipBlockComment (depth + 1) rest := by
  cases rest with
  | nil => rfl
  | cons next rest =>
    simp only [List.head?_cons, some_inj] at hopen hclose
    rw [skipBlockComment, if_neg hopen, if_neg hclose]

theorem skipBlockComment_cons_high (depth : Nat) (b : UInt8) (rest : List UInt8) (hb : IsHigh b) :
    skipBlockComment (depth + 1) (b :: rest) = skipBlockComment (depth + 1) rest :=
  skipBlockComment_cons_plain depth rest (fun hopen => absurd (hopen.1 ▸ hb) (by decide))
    fun hclose => absurd (hclose.1 ▸ hb) (by decide)

theorem skipBlockComment_encode (depth : Nat) (cs : List Char) :
    skipBlockComment depth (encode cs) = encode (Sql.skipBlockComment depth cs) := by
  have hslash : ∀ cs, encode ('/' :: cs) = 0x2f :: encode cs := fun cs =>
    encode_cons_ascii cs (by decide)
  have hstar : ∀ cs, encode ('*' :: cs) = 0x2a :: encode cs := fun cs =>
    encode_cons_ascii cs (by decide)
  -- A character that neither opens nor closes a comment is passed over.
  have hplain : ∀ (depth : Nat) (c : Char) (cs : List Char), ¬ (c = '/' ∧ cs.head? = some '*') →
      ¬ (c = '*' ∧ cs.head? = some '/') →
      skipBlockComment (depth + 1) (encode (c :: cs)) =
        skipBlockComment (depth + 1) (encode cs) := by
    intro depth c cs hopen hclose
    by_cases hc : c.toNat < 0x80
    · rw [encode_cons_ascii cs hc, skipBlockComment_cons_plain]
      · rintro ⟨hbyte, hhead⟩
        exact hopen ⟨(byte_inj hc (by decide)).mp hbyte, (head?_encode (by decide) cs).mp hhead⟩
      · rintro ⟨hbyte, hhead⟩
        exact hclose ⟨(byte_inj hc (by decide)).mp hbyte, (head?_encode (by decide) cs).mp hhead⟩
    · exact skip_encode (skipBlockComment_cons_high depth) cs (Nat.le_of_not_lt hc)
  fun_induction Sql.skipBlockComment depth cs with
  | case1 cs => simp only [skipBlockComment]
  | case2 => rfl
  | case3 depth c =>
    rw [hplain depth c [] (by simp) (by simp)]
    rfl
  | case4 depth c d cs hopen ih =>
    obtain ⟨rfl, rfl⟩ := hopen
    rw [hslash, hstar, skipBlockComment, if_pos ⟨rfl, rfl⟩, ih]
  | case5 depth c d cs hopen hclose ih =>
    obtain ⟨rfl, rfl⟩ := hclose
    rw [hstar, hslash, skipBlockComment, if_neg (by decide), if_pos ⟨rfl, rfl⟩, ih]
  | case6 depth c d cs hopen hclose ih =>
    rw [hplain depth c (d :: cs) (by simpa using hopen) (by simpa using hclose), ih]

/-- What stands after a `--` comment, with the line end that ends it. -/
def fromLineEnd (cs : List Char) : List Char := cs.dropWhile fun c => c ≠ '\n' && c ≠ '\r'

theorem reads_ne (hc : c.toNat < 0x80) (hd : d.toNat < 0x80) :
    Reads (fun b => b ≠ byte c && b ≠ byte d) (fun e => e ≠ c && e ≠ d) where
  ascii e he := by simp only [ne_eq, byte_inj he hc, byte_inj he hd]
  highByte b hb := by simp [hb.ne_byte hc, hb.ne_byte hd]
  highChar e he := by
    have hec : e ≠ c := fun heq => by rw [heq] at he; omega
    have hed : e ≠ d := fun heq => by rw [heq] at he; omega
    simp [hec, hed]

theorem skipLine_encode (cs : List Char) : skipLine (encode cs) = encode (fromLineEnd cs) :=
  dropWhile_encode (reads_ne (c := '\n') (d := '\r') (by decide) (by decide)) cs

theorem skipLine_eq_tail (cs : List Char) : Sql.skipLine cs = (fromLineEnd cs).tail := by
  rw [Sql.skipLine_eq, PostgresLexer.afterLine, fromLineEnd]
  congr 2
  simp [PostgresLexer.isNewline]

theorem reads_identifierStart :
    Reads isPostgresIdentifierStart Sql.isPostgresIdentifierStart where
  ascii c hc := by
    have hbyte : (byte c = 0x5f) ↔ c = '_' := byte_inj (d := '_') hc (by decide)
    have hlow : decide (0x80 ≤ c.toNat) = false := decide_eq_false (by omega)
    simp only [isPostgresIdentifierStart, isAsciiAlphabetic, Sql.isPostgresIdentifierStart,
      toNat_byte hc, hbyte, hlow, Bool.or_false]
    rw [Bool.or_comm, Bool.or_assoc]
  highByte b hb := by
    have hge : decide (0x80 ≤ b.toNat) = true := decide_eq_true hb
    simp [isPostgresIdentifierStart, hge]
  highChar c hc := by
    have hge : decide (0x80 ≤ c.toNat) = true := decide_eq_true hc
    simp only [Sql.isPostgresIdentifierStart, hge, Bool.or_true]

theorem reads_identifierContinuation :
    Reads isPostgresIdentifierContinuation Sql.isPostgresIdentifierContinuation where
  ascii c hc := by
    have hbyte : (byte c = dollarByte) ↔ c = '$' := byte_inj (d := '$') hc (by decide)
    simp only [isPostgresIdentifierContinuation, Sql.isPostgresIdentifierContinuation,
      reads_identifierStart.ascii c hc, toNat_byte hc, hbyte]
    rw [Bool.or_assoc, Bool.or_assoc, Bool.or_comm (decide (c = '$'))]
  highByte b hb := by
    rw [isPostgresIdentifierContinuation, reads_identifierStart.highByte b hb]
    rfl
  highChar c hc := by
    rw [Sql.isPostgresIdentifierContinuation, reads_identifierStart.highChar c hc]
    rfl

/-- A character of a dollar quote's tag after its first one. -/
def inTag (c : Char) : Bool := c ≠ '$' && Sql.isPostgresIdentifierContinuation c

/-- The run of tag characters ends at a dollar sign exactly when it reaches the first one. -/
theorem tag_ends_iff (cs : List Char) :
    (cs.dropWhile inTag).head? = some '$' ↔
      (cs.takeWhile (· ≠ '$')).length < cs.length ∧ (cs.takeWhile (· ≠ '$')).all inTag = true := by
  induction cs with
  | nil => simp
  | cons c cs ih =>
    by_cases hc : c = '$'
    · subst hc
      simp [inTag]
    · have hne : decide (c ≠ '$') = true := decide_eq_true hc
      rw [takeWhile_cons, if_pos hne, length_cons, length_cons, all_cons,
        dropWhile_cons]
      by_cases htag : inTag c = true
      · rw [if_pos htag, ih, htag, Bool.true_and, Nat.add_lt_add_iff_right]
      · simp [hc, htag]

variable {cs delimiter : List Char} {c : Char}

theorem takeWhile_inTag (h : (cs.takeWhile (· ≠ '$')).all inTag = true) :
    cs.takeWhile inTag = cs.takeWhile (· ≠ '$') := by
  induction cs with
  | nil => rfl
  | cons c cs ih =>
    by_cases hc : c = '$'
    · subst hc
      simp [inTag]
    · have hne : decide (c ≠ '$') = true := decide_eq_true hc
      rw [takeWhile_cons, if_pos hne, all_cons, Bool.and_eq_true] at h
      rw [takeWhile_cons, takeWhile_cons, if_pos hne, if_pos h.1, ih h.2]

/-- The tag in front of the first dollar sign decides, as in the Rust source. -/
theorem dollarQuoteDelimiter_eq (cs : List Char) :
    Sql.dollarQuoteDelimiter cs =
      let tag := cs.takeWhile (· ≠ '$')
      if cs.length ≤ tag.length then none
      else if tag.head?.all Sql.isPostgresIdentifierStart && tag.tail.all inTag then
        some ('$' :: tag ++ ['$'])
      else none := by
  cases cs with
  | nil => rfl
  | cons c cs =>
    by_cases hc : c = '$'
    · subst hc
      simp [Sql.dollarQuoteDelimiter]
    · have hne : decide (c ≠ '$') = true := decide_eq_true hc
      have hends := tag_ends_iff cs
      simp only [Sql.dollarQuoteDelimiter, if_neg hc, takeWhile_cons, if_pos hne,
        length_cons, List.head?_cons, all_some, tail_cons, Bool.and_eq_true]
      by_cases hstart : Sql.isPostgresIdentifierStart c = true
      · rw [if_neg (not_not_intro hstart)]
        change (if (cs.dropWhile inTag).head? = some '$' then
          some ('$' :: c :: cs.takeWhile inTag ++ ['$']) else none) = _
        by_cases hlength : (cs.takeWhile (· ≠ '$')).length < cs.length
        · by_cases hall : (cs.takeWhile (· ≠ '$')).all inTag = true
          · rw [if_pos (hends.mpr ⟨hlength, hall⟩), if_neg (by omega), if_pos ⟨hstart, hall⟩,
              takeWhile_inTag hall]
          · rw [if_neg fun h => hall (hends.mp h).2, if_neg (by omega), if_neg fun h => hall h.2]
        · rw [if_neg fun h => hlength (hends.mp h).1, if_pos (by omega)]
      · rw [if_pos hstart]
        split
        · rfl
        · rw [if_neg fun h => hstart h.1]

/-- The text goes on with the delimiter after its first dollar sign. -/
theorem delimiter_begins (h : Sql.dollarQuoteDelimiter cs = some delimiter) :
    delimiter.head? = some '$' ∧ delimiter.tail <+: cs := by
  rw [dollarQuoteDelimiter_eq] at h
  dsimp only at h
  split_ifs at h with hlength htag
  cases h
  refine ⟨rfl, ?_⟩
  have hsplit := cs.takeWhile_append_dropWhile (p := (· ≠ '$'))
  cases hrest : cs.dropWhile (· ≠ '$') with
  | nil =>
    rw [hrest, append_nil] at hsplit
    rw [hsplit] at hlength
    exact absurd (Nat.le_refl _) hlength
  | cons c rest =>
    have hc := List.head?_dropWhile_not (· ≠ '$') cs
    rw [hrest] at hc
    have hdollar : c = '$' := by simpa using hc
    rw [hrest, hdollar] at hsplit
    refine ⟨rest, ?_⟩
    rw [cons_append, tail_cons, append_assoc]
    exact hsplit

theorem reads_ne_dollar : Reads (fun b => b ≠ dollarByte) (fun c => c ≠ '$') := by
  have h := reads_ne (c := '$') (d := '$') (by decide) (by decide)
  simp only [Bool.and_self] at h
  exact h

theorem reads_inTag :
    Reads (fun b => isPostgresIdentifierContinuation b && b ≠ dollarByte) inTag where
  ascii c hc := by
    have hbyte : (byte c = dollarByte) ↔ c = '$' := byte_inj (d := '$') hc (by decide)
    simp only [reads_identifierContinuation.ascii c hc, ne_eq, hbyte, inTag]
    rw [Bool.and_comm]
  highByte b hb := by
    simp only [reads_identifierContinuation.highByte b hb, reads_ne_dollar.highByte b hb,
      Bool.and_self]
  highChar c hc := by
    simp only [inTag, reads_identifierContinuation.highChar c hc, reads_ne_dollar.highChar c hc,
      Bool.and_self]

theorem head?_encode_start (cs : List Char) :
    (encode cs).head?.all isPostgresIdentifierStart =
      cs.head?.all Sql.isPostgresIdentifierStart := by
  cases cs with
  | nil => rfl
  | cons c cs =>
    by_cases hc : c.toNat < 0x80
    · rw [encode_cons_ascii cs hc, List.head?_cons, List.head?_cons, all_some,
        all_some, reads_identifierStart.ascii c hc]
    · have hhigh := Nat.le_of_not_lt hc
      obtain ⟨b, bs, hb, -, -, hencode⟩ := encode_cons_high cs hhigh
      rw [hencode, List.head?_cons, List.head?_cons, all_some, all_some,
        reads_identifierStart.highByte b hb, reads_identifierStart.highChar c hhigh]

theorem all_tail_encode (h : Reads p q) (cs : List Char) :
    (encode cs).tail.all p = cs.tail.all q := by
  cases cs with
  | nil => rfl
  | cons c cs =>
    by_cases hc : c.toNat < 0x80
    · rw [encode_cons_ascii cs hc, tail_cons, tail_cons, all_encode h]
    · obtain ⟨b, bs, -, hbs, -, hencode⟩ := encode_cons_high cs (Nat.le_of_not_lt hc)
      have hall : bs.all p = true := all_eq_true.mpr fun b' hb' => h.highByte b' (hbs b' hb')
      rw [hencode, tail_cons, tail_cons, all_append, hall, Bool.true_and,
        all_encode h]

theorem dollarQuoteDelimiter_encode (cs : List Char) :
    dollarQuoteDelimiter (encode cs) = (Sql.dollarQuoteDelimiter cs).map encode := by
  have htag := takeWhile_encode reads_ne_dollar cs
  have hlength : (encode cs).length ≤ (encode (cs.takeWhile (· ≠ '$'))).length ↔
      cs.length ≤ (cs.takeWhile (· ≠ '$')).length := length_le_takeWhile (· ≠ '$') cs
  rw [dollarQuoteDelimiter_eq, dollarQuoteDelimiter]
  simp only [htag, hlength, head?_encode_start, all_tail_encode reads_inTag]
  split
  · rfl
  split
  · rw [map_some, cons_append, cons_append,
      encode_cons_ascii (c := '$') _ (by decide), encode_append]
    rfl
  · rfl

theorem skipPast_cons_high (tag : List UInt8) (b : UInt8) (rest : List UInt8) (hb : IsHigh b) :
    skipPast (dollarByte :: tag) (b :: rest) = skipPast (dollarByte :: tag) rest := by
  have hne : dollarByte ≠ b := fun heq => absurd (heq ▸ hb) (by decide)
  rw [skipPast, if_neg (by simp [isPrefixOf_cons_cons, hne])]

theorem skipPast_encode (hstart : delimiter.head? = some '$') (cs : List Char) :
    skipPast (encode delimiter) (encode cs) = encode (Sql.skipPast delimiter cs) := by
  obtain ⟨tag, rfl⟩ := List.head?_eq_some_iff.mp hstart
  have hdelimiter : encode ('$' :: tag) = dollarByte :: encode tag :=
    encode_cons_ascii tag (by decide)
  induction cs with
  | nil => rfl
  | cons c cs ih =>
    by_cases hc : c.toNat < 0x80
    · have hfound := isPrefixOf_encode ('$' :: tag) (c :: cs)
      rw [Sql.skipPast]
      split
      · rename_i hhere
        rw [← drop_encode hhere]
        rw [encode_cons_ascii cs hc] at hfound ⊢
        rw [skipPast, if_pos (hfound.trans hhere)]
      · rename_i hhere
        rw [encode_cons_ascii cs hc] at hfound ⊢
        rw [skipPast, if_neg (by rw [hfound]; exact hhere), ih]
    · -- No byte of the character is the dollar sign that the delimiter begins with.
      have hne : c ≠ '$' := fun heq => by rw [heq] at hc; exact hc (by decide)
      have hhere : ('$' :: tag).isPrefixOf (c :: cs) = false := by
        simp [isPrefixOf_cons_cons, Ne.symm hne]
      rw [Sql.skipPast, hhere, if_neg Bool.false_ne_true, ← ih, hdelimiter]
      exact skip_encode (skipPast_cons_high _) cs (Nat.le_of_not_lt hc)

theorem skipDollarQuote_encode (cs : List Char) :
    (dollarQuoteDelimiter (encode cs)).map
        (fun delimiter => skipDollarQuote delimiter (encode cs)) =
      (Sql.skipDollarQuote '$' cs).map encode := by
  rw [dollarQuoteDelimiter_encode, Sql.skipDollarQuote, if_pos rfl, Option.map_map, Option.map_map]
  cases hdelimiter : Sql.dollarQuoteDelimiter cs with
  | none => rfl
  | some delimiter =>
    obtain ⟨hstart, hbegins⟩ := delimiter_begins hdelimiter
    obtain ⟨tag, rfl⟩ := List.head?_eq_some_iff.mp hstart
    have hlength : (encode ('$' :: tag)).length - 1 = (encode tag).length := by
      rw [encode_cons_ascii tag (by decide), length_cons, Nat.add_sub_cancel]
    simp only [Option.map_some, Function.comp_apply, skipDollarQuote, hlength]
    have hlead : tag.isPrefixOf cs = true := isPrefixOf_iff_prefix.mpr hbegins
    rw [drop_encode (s := tag) hlead, skipPast_encode hstart]
    rfl

/-- What a turn of the Rust loop leaves, read as characters. -/
def turnRest (escapes : Bool) (c : Char) (cs : List Char) : List Char :=
  if ¬ isAsciiSpace c ∧ c = '-' ∧ cs.head? = some '-' then fromLineEnd cs.tail
  else (lexeme isAsciiSpace escapes c cs).2

theorem byte_eq_iff (hc : c.toNat < 0x80) (hn : n < 256) :
    byte c = UInt8.ofNat n ↔ c.toNat = n := by
  rw [byte, ← UInt8.toNat_inj, UInt8.toNat_ofNat', UInt8.toNat_ofNat']
  omega

theorem isAsciiWhitespace_byte (hc : c.toNat < 0x80) :
    isAsciiWhitespace (byte c) = isAsciiSpace c := by
  rw [Bool.eq_iff_iff]
  simp only [isAsciiWhitespace, isAsciiSpace, contains_eq_mem, mem_cons,
    not_mem_nil, or_false, decide_eq_true_eq]
  exact or_congr (byte_eq_iff hc (n := 0x9) (by decide)) <|
    or_congr (byte_eq_iff hc (n := 0xa) (by decide)) <|
    or_congr (byte_eq_iff hc (n := 0xc) (by decide)) <|
    or_congr (byte_eq_iff hc (n := 0xd) (by decide)) (byte_eq_iff hc (n := 0x20) (by decide))

theorem eqIgnoreAsciiCase_e (hc : c.toNat < 0x80) (word : List UInt8) :
    eqIgnoreAsciiCase (byte c :: word) [0x45] = true ↔ (c = 'e' ∨ c = 'E') ∧ word = [] := by
  have hlower : toAsciiLowercase (byte c) = 0x65 ↔ c = 'e' ∨ c = 'E' := by
    have he : byte c = 0x65 ↔ c = 'e' := byte_inj (d := 'e') hc (by decide)
    have hE : byte c = 0x45 ↔ c = 'E' := byte_inj (d := 'E') hc (by decide)
    rw [← he, ← hE, toAsciiLowercase]
    split
    · rw [← UInt8.toNat_inj, ← UInt8.toNat_inj, ← UInt8.toNat_inj, UInt8.toNat_add]
      simp only [UInt8.reduceToNat]
      omega
    · rename_i hupper
      refine ⟨.inl, fun h => h.resolve_right fun hbyte => hupper (by rw [hbyte]; decide)⟩
  rw [eqIgnoreAsciiCase, beq_iff_eq, map_cons, map_cons, map_nil, List.cons.injEq,
    map_eq_nil_iff, show toAsciiLowercase 0x45 = 0x65 from rfl, hlower]

/-- The identifier in front of an escape string ends at its quote. -/
theorem turn_escaped (escapes : Bool) (h : c = 'e' ∨ c = 'E') (rest : List UInt8) :
    turn escapes (byte c) (quoteByte :: rest) = (.other, skipQuoted quoteByte true rest) := by
  have hstop : isPostgresIdentifierContinuation 0x27 = false := by decide
  rcases h with rfl | rfl
  · have hbyte : byte 'e' = 0x65 := rfl
    have hword : eqIgnoreAsciiCase [0x65] [0x45] = true := by decide
    simp [turn, hbyte, hstop, hword, isAsciiWhitespace, quoteByte, doubleQuoteByte, dollarByte,
      isPostgresIdentifierStart, isAsciiAlphabetic]
  · have hbyte : byte 'E' = 0x45 := rfl
    have hword : eqIgnoreAsciiCase [0x45] [0x45] = true := by decide
    simp [turn, hbyte, hstop, hword, isAsciiWhitespace, quoteByte, doubleQuoteByte, dollarByte,
      isPostgresIdentifierStart, isAsciiAlphabetic]

theorem turn_encode_high (escapes : Bool) (cs : List Char) (hc : 0x80 ≤ c.toNat) :
    ∃ b bs, encode (c :: cs) = b :: bs ∧ turn escapes b bs =
      ((lexeme isAsciiSpace escapes c cs).1.found.map encode,
        encode (turnRest escapes c cs)) := by
  obtain ⟨b, bs, hb, hbs, hone, hencode⟩ := encode_cons_high cs hc
  refine ⟨b, bs ++ encode cs, hencode, ?_⟩
  have hbyte : ∀ n : UInt8, ¬ IsHigh n → b ≠ n := fun n hn heq => hn (heq ▸ hb)
  have hchar : ∀ d : Char, d.toNat < 0x80 → c ≠ d := fun d hd heq => by
    rw [heq] at hc
    omega
  have hspace : isAsciiWhitespace b = false := by
    simp (disch := decide) [isAsciiWhitespace, hbyte]
  have hspace' : isAsciiSpace c = false := by
    simp [isAsciiSpace]
    omega
  have hbytes : ∀ b' ∈ bs, isPostgresIdentifierContinuation b' = true := fun b' hb' =>
    reads_identifierContinuation.highByte b' (hbs b' hb')
  have hword : encode (c :: cs.takeWhile Sql.isPostgresIdentifierContinuation) =
      b :: (bs ++ encode (cs.takeWhile Sql.isPostgresIdentifierContinuation)) := by
    rw [show c :: cs.takeWhile Sql.isPostgresIdentifierContinuation =
      [c] ++ cs.takeWhile Sql.isPostgresIdentifierContinuation from rfl, encode_append, hone]
    rfl
  have hplain : ∀ word, eqIgnoreAsciiCase (b :: word) [0x45] = false := by
    have hupper : ¬ (0x41 ≤ b.toNat ∧ b.toNat ≤ 0x5a) := by
      have : 0x80 ≤ b.toNat := hb
      omega
    simp [eqIgnoreAsciiCase, toAsciiLowercase, hupper, hbyte 0x65 (by decide)]
  simp (disch := decide) only [turn, lexeme, turnRest, hspace, hspace', Bool.false_eq_true,
    if_false, hbyte, hchar, false_and, false_or, Sql.skipDollarQuote,
    reads_identifierStart.highByte b hb, reads_identifierStart.highChar c hc, if_true,
    takeWhile_high _ hbytes, dropWhile_high _ hbytes, takeWhile_encode reads_identifierContinuation,
    dropWhile_encode reads_identifierContinuation, hplain, and_false, Lexeme.found, Found.map,
    hword]

/-- What a turn over bytes finds and leaves is what one over characters does. -/
def Alike (r : Found UInt8 × List UInt8) (l : Lexeme × List Char) : Prop :=
  r = (l.1.found.map encode, encode l.2)

theorem Alike.ite [Decidable p] [Decidable q] (hiff : p ↔ q) (h : q → Alike r l)
    (h' : ¬ q → Alike r' l') : Alike (if p then r else r') (if q then l else l') := by
  by_cases hq : q
  · rw [if_pos (hiff.mpr hq), if_pos hq]
    exact h hq
  · rw [if_neg (hiff.not.mpr hq), if_neg hq]
    exact h' hq

theorem turn_encode_ascii (escapes : Bool) (cs : List Char) (hc : c.toNat < 0x80) :
    turn escapes (byte c) (encode cs) =
      ((lexeme isAsciiSpace escapes c cs).1.found.map encode,
        encode (turnRest escapes c cs)) := by
  by_cases hescape : (c = 'e' ∨ c = 'E') ∧ cs.head? = some singleQuote
  · obtain ⟨htext, hcs⟩ := hescape
    obtain ⟨rest, rfl⟩ := List.head?_eq_some_iff.mp hcs
    have hbytes : encode (singleQuote :: rest) = quoteByte :: encode rest :=
      encode_cons_ascii rest (by decide)
    rw [hbytes, turn_escaped escapes htext, skipQuoted_single]
    rcases htext with rfl | rfl <;> rfl
  have hchar : ∀ d : Char, d.toNat < 0x80 → (byte c = byte d ↔ c = d) := fun d => byte_inj hc
  have hhead : ∀ d : Char, d.toNat < 0x80 →
      ((encode cs).head? = some (byte d) ↔ cs.head? = some d) := fun d hd => head?_encode hd cs
  have hspaces : isAsciiWhitespace (byte c) = true ↔ isAsciiSpace c = true := by
    rw [isAsciiWhitespace_byte hc]
  unfold turnRest
  by_cases hspace : isAsciiSpace c = true
  · rw [if_neg fun hline => hline.1 hspace, turn, lexeme, if_pos (hspaces.mpr hspace),
      if_pos hspace]
    rfl
  have hlines : byte c = 0x2d ∧ (encode cs).head? = some 0x2d ↔ c = '-' ∧ cs.head? = some '-' :=
    and_congr (hchar '-' (by decide)) (hhead '-' (by decide))
  by_cases hline : c = '-' ∧ cs.head? = some '-'
  · rw [if_pos ⟨hspace, hline⟩, turn, lexeme, if_neg (hspaces.not.mpr hspace), if_neg hspace,
      if_pos (hlines.mpr hline), if_pos hline, tail_encode (by decide) hline.2, skipLine_encode]
    rfl
  rw [if_neg fun hlines => hline hlines.2, turn, lexeme, if_neg (hspaces.not.mpr hspace),
    if_neg hspace, if_neg (hlines.not.mpr hline), if_neg hline]
  refine Alike.ite (and_congr (hchar '/' (by decide)) (hhead '*' (by decide))) (fun hblock => ?_)
    fun _ => ?_
  · rw [tail_encode (by decide) hblock.2, skipBlockComment_encode]
    rfl
  rw [if_neg hescape]
  refine .ite (hchar singleQuote (by decide)) (fun _ => ?_) fun _ => ?_
  · rw [skipQuoted_single]
    rfl
  refine .ite (hchar Sql.doubleQuote (by decide)) (fun _ => ?_) fun _ => ?_
  · rw [skipQuoted_double]
    rfl
  have hdelimited : (if byte c = dollarByte then dollarQuoteDelimiter (encode cs) else none).map
      (fun delimiter => skipDollarQuote delimiter (encode cs)) =
        (Sql.skipDollarQuote c cs).map encode := by
    split <;> rename_i hdollar
    · rw [(hchar '$' (by decide)).mp hdollar]
      exact skipDollarQuote_encode cs
    · rw [Sql.skipDollarQuote, if_neg fun heq => hdollar ((hchar '$' (by decide)).mpr heq)]
      rfl
  cases hquoted : Sql.skipDollarQuote c cs with
  | some rest =>
    rw [hquoted] at hdelimited
    obtain ⟨delimiter, hdelimiter, hskip⟩ := map_eq_some_iff.mp hdelimited
    simp only [hdelimiter, hskip]
    rfl
  | none =>
    rw [hquoted] at hdelimited
    have hnone := map_eq_none_iff.mp hdelimited
    simp only [hnone]
    refine .ite (hchar '(' (by decide)) (fun _ => rfl) fun _ => .ite (hchar ')' (by decide))
      (fun _ => rfl) fun _ => .ite (hchar ';' (by decide)) (fun _ => rfl) fun _ => .ite
      (by rw [reads_identifierStart.ascii c hc]) (fun _ => ?_) fun _ => rfl
    -- the word in front of a quote is no `E`
    have hplain : ¬ (eqIgnoreAsciiCase (byte c :: encode
        (cs.takeWhile Sql.isPostgresIdentifierContinuation)) [0x45] = true ∧
        (encode (cs.dropWhile Sql.isPostgresIdentifierContinuation)).head? = some quoteByte) := by
      rintro ⟨hword, hafter⟩
      obtain ⟨htext, hnil⟩ := (eqIgnoreAsciiCase_e hc _).mp hword
      have hsplit := cs.takeWhile_append_dropWhile (p := Sql.isPostgresIdentifierContinuation)
      rw [(encode_eq_nil_iff _).mp hnil, nil_append] at hsplit
      rw [hsplit] at hafter
      exact hescape ⟨htext, (head?_encode (c := singleQuote) (by decide) cs).mp hafter⟩
    simp only [takeWhile_encode reads_identifierContinuation,
      dropWhile_encode reads_identifierContinuation, if_neg hplain, Alike, Lexeme.found,
      Found.map, encode_cons_ascii _ hc]

/-- **One turn of the Rust scan is one lexeme of the text.** -/
theorem turn_encode (escapes : Bool) (c : Char) (cs : List Char) :
    ∃ b bs, encode (c :: cs) = b :: bs ∧ turn escapes b bs =
      ((lexeme isAsciiSpace escapes c cs).1.found.map encode,
        encode (turnRest escapes c cs)) := by
  by_cases hc : c.toNat < 0x80
  · exact ⟨byte c, encode cs, encode_cons_ascii cs hc, turn_encode_ascii escapes cs hc⟩
  · exact turn_encode_high escapes cs (Nat.le_of_not_lt hc)

/-- The line end that the Rust scan leaves after a comment is white space to it. -/
theorem items_fromLineEnd (escapes : Bool) (depth : Nat) (cs : List Char) :
    items true depth ((lexer escapes).founds (encode (fromLineEnd cs))) =
      items true depth ((lexer escapes).founds (encode (Sql.skipLine cs))) := by
  rw [skipLine_eq_tail]
  cases hend : fromLineEnd cs with
  | nil => rfl
  | cons c rest =>
    have hc : c = '\n' ∨ c = '\r' := by
      have hstop := List.head?_dropWhile_not (fun c => c ≠ '\n' && c ≠ '\r') cs
      rw [fromLineEnd] at hend
      rw [hend] at hstop
      simpa [or_iff_not_imp_left] using hstop
    have hturn : turn escapes (byte c) (encode rest) = (.skipped, encode rest) := by
      have hspace : isAsciiWhitespace (byte c) = true := by rcases hc with rfl | rfl <;> decide
      rw [turn, if_pos hspace]
    have hascii : c.toNat < 0x80 := by rcases hc with rfl | rfl <;> decide
    rw [encode_cons_ascii rest hascii, Lexer.founds_cons, tail_cons]
    show items true depth ((turn escapes (byte c) (encode rest)).1 ::
      (lexer escapes).founds (turn escapes (byte c) (encode rest)).2) = _
    rw [hturn]
    rfl

/-- On the bytes of a text the Rust scan yields what the scan over its characters finds. -/
theorem items_encode (escapes : Bool) (depth : Nat) (text : List Char) :
    items true depth ((lexer escapes).founds (encode text)) =
      (items true depth ((Sql.lexer isAsciiSpace escapes).founds text)).map (Item.map encode) := by
  induction hlen : text.length using Nat.strongRecOn generalizing text depth with
  | ind n ih =>
    cases text with
    | nil => rw [encode_nil, Lexer.founds_nil, Lexer.founds_nil]; rfl
    | cons c cs =>
      have hless : (lexeme isAsciiSpace escapes c cs).2.length < n := by
        rw [← hlen]
        exact Nat.lt_succ_of_le (Sql.lexeme_suffix isAsciiSpace escapes c cs).length_le
      have hrest : ∀ depth,
          items true depth ((lexer escapes).founds (encode (turnRest escapes c cs))) =
            (items true depth ((Sql.lexer isAsciiSpace escapes).founds
              (lexeme isAsciiSpace escapes c cs).2)).map (Item.map encode) := by
        intro depth
        rw [← ih _ hless depth _ rfl, turnRest]
        split
        · rename_i hline
          have hlexeme : lexeme isAsciiSpace escapes c cs = (.skipped, Sql.skipLine cs.tail) := by
            rw [lexeme, if_neg hline.1, if_pos hline.2]
          rw [hlexeme]
          exact items_fromLineEnd escapes depth cs.tail
        · rfl
      obtain ⟨b, bs, hencode, hturn⟩ := turn_encode escapes c cs
      rw [hencode, Lexer.founds_cons, Lexer.founds_cons]
      show items true depth
          ((turn escapes b bs).1 :: (lexer escapes).founds (turn escapes b bs).2) = _
      rw [hturn]
      exact items_cons_map encode true hrest _ depth

theorem topLevelSqlTokens_eq (sql : String) (escapes : Bool) :
    topLevelSqlTokens sql escapes =
      (items true 0 ((Sql.lexer isAsciiSpace escapes).founds sql.toList)).map
      (Item.map encode) := by
  rw [topLevelSqlTokens, utf8_eq_encode, items_encode]

end Oliphaunt.RustSql
