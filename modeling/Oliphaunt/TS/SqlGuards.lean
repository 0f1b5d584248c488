import Oliphaunt.Rust.SqlScanText

/-!
# Oliphaunt — the two SQL guards compared

The TypeScript and the Rust guard read the same comments, quotes and words. They
differ in three places only:

* white space: JavaScript's `\s` has the vertical tab and the spaces outside
  ASCII, `u8::is_ascii_whitespace` has neither;
* a closing parenthesis without an opening one, which is a token to the Rust
  scanner and nothing to the TypeScript one;
* the Kelvin sign, which `toLowerCase` makes a `k` and `eq_ignore_ascii_case`
  leaves alone.

What a guard meets after its answer does not matter, nor does most of what it
meets in a statement that it has given up. `ReadsAlike` asks for the rest.

* `ReadsAlike.answers_eq` — in one string mode, the two guards answer the same on a
  text that they read alike;
* `guards_agree` — so they do in both modes together, if they read the text alike in
  a mode that finds something or in both;
* `guards_disagree` — each of the three differences changes an answer.
-/

namespace Oliphaunt.Sql

open Statements Utf8 List
open RustSql (TransactionChainState chainKeywords chaining eqIgnoreAsciiCase isAsciiSpace
  toAsciiLowercase)

def kelvinSign : Char := Char.ofNat 0x212a

def verticalTab : Char := Char.ofNat 0xb

variable {c : Char} {keyword lower : String} {word : List Char}

/-- The keyword lookup folds no more than `toLowerCase` does. -/
theorem lowerChar_of_ascii (h : c.toLower.toNat < 128) : lowerChar c = [c.toLower] := by
  have hne : ∀ d : Char, 128 ≤ d.toLower.toNat → c ≠ d := by
    rintro d hd rfl
    omega
  have hkelvin : c.toNat ≠ 0x212a := fun heq =>
    hne (Char.ofNat 0x212a) (by decide) (by rw [← heq, Char.ofNat_toNat])
  have hdotted : c.toNat ≠ 0x130 := fun heq =>
    hne (Char.ofNat 0x130) (by decide) (by rw [← heq, Char.ofNat_toNat])
  simp only [lowerChar, hkelvin, hdotted, if_false]

theorem toLowerCase_of_ascii
    (h : ∀ c ∈ word.map Char.toLower, c.toNat < 128) :
    toLowerCase word = word.map Char.toLower := by
  induction word with
  | nil => rfl
  | cons c word ih =>
    have hc := lowerChar_of_ascii (h _ (.head _))
    have hword := ih fun d hd => h d (.tail _ hd)
    simp only [toLowerCase, flatMap_cons, hc, map_cons] at hword ⊢
    rw [hword]
    rfl

theorem toLower_of_high (h : 0x80 ≤ c.toNat) : c.toLower = c := by
  have hupper : ¬ (c.val ≥ 65 ∧ c.val ≤ 90) := by
    rintro ⟨-, hle⟩
    rw [UInt32.le_iff_toNat_le] at hle
    simp at hle
    omega
  exact dif_neg hupper

theorem toAsciiLowercase_byte (h : c.toNat < 0x80) :
    toAsciiLowercase (byte c) = byte c.toLower ∧ c.toLower.toNat < 0x80 := by
  have hall : ∀ n < 0x80, toAsciiLowercase (byte (Char.ofNat n)) =
      byte (Char.ofNat n).toLower ∧ (Char.ofNat n).toLower.toNat < 0x80 := by decide +kernel
  have hc := hall c.toNat h
  rwa [Char.ofNat_toNat] at hc

theorem map_toAsciiLowercase_encode (word : List Char) :
    (encode word).map toAsciiLowercase = encode (word.map Char.toLower) := by
  induction word with
  | nil => rfl
  | cons c word ih =>
    by_cases hc : c.toNat < 0x80
    · obtain ⟨hbyte, hlower⟩ := toAsciiLowercase_byte hc
      rw [encode_cons_ascii word hc, map_cons, hbyte, ih, map_cons,
        encode_cons_ascii _ hlower]
    · have hc' := Nat.le_of_not_lt hc
      obtain ⟨b, bs, hb, hbs, hone, hencode⟩ := encode_cons_high word hc'
      have hsame : ∀ b', IsHigh b' → toAsciiLowercase b' = b' := by
        intro b' hb'
        have : 0x80 ≤ b'.toNat := hb'
        rw [toAsciiLowercase, if_neg (by omega)]
      have hmap : bs.map toAsciiLowercase = bs :=
        (map_congr_left fun b' hb' => hsame b' (hbs b' hb')).trans (map_id _)
      rw [hencode, map_cons, map_append, hsame b hb, hmap, ih, map_cons,
        toLower_of_high hc',
        show c :: word.map Char.toLower = [c] ++ word.map Char.toLower from rfl,
        encode_append, hone]
      rfl

theorem encode_inj : encode s = encode t ↔ s = t := by
  refine ⟨fun h => ?_, congrArg encode⟩
  have hst := (encode_prefix_iff s t).mp (h ▸ prefix_rfl)
  have hts := (encode_prefix_iff t s).mp (h ▸ prefix_rfl)
  exact hst.eq_of_length_le hts.length_le

theorem eqIgnoreAsciiCase_encode (word : List Char) (keyword : String) :
    eqIgnoreAsciiCase (encode word) (Bytes.utf8 keyword) =
      decide (word.map Char.toLower = keyword.toList.map Char.toLower) := by
  rw [Bool.eq_iff_iff, eqIgnoreAsciiCase, beq_iff_eq, utf8_eq_encode,
    map_toAsciiLowercase_encode, map_toAsciiLowercase_encode, encode_inj, decide_eq_true_eq]

/-- Without the Kelvin sign, `toLowerCase` gives an ASCII text only where folding the
ASCII letters does. -/
theorem toLowerCase_eq_iff {lower : List Char} (hlower : ∀ c ∈ lower, c.toNat < 128)
    (hkelvin : kelvinSign ∉ word) : toLowerCase word = lower ↔ word.map Char.toLower = lower := by
  constructor
  · intro h
    rw [← h, toLowerCase, map_eq_flatMap, flatMap_def, flatMap_def]
    refine congrArg List.flatten (map_congr_left fun c hc => ?_)
    have hascii : ∀ d ∈ lowerChar c, d.toNat < 128 := fun d hd =>
      hlower d (h ▸ mem_flatMap.mpr ⟨c, hc, hd⟩)
    have hnotKelvin : c.toNat ≠ 0x212a := fun heq =>
      hkelvin (by rwa [kelvinSign, ← heq, Char.ofNat_toNat])
    have hnotDotted : c.toNat ≠ 0x130 := by
      intro heq
      have hdot := hascii (Char.ofNat 0x307) (by simp [lowerChar, heq])
      exact absurd hdot (by decide)
    simp only [lowerChar, hnotKelvin, hnotDotted, if_false]
  · intro h
    rw [toLowerCase_of_ascii (h ▸ hlower), h]

/-- The word is ROLLBACK or WORK to the TypeScript guard because of a Kelvin sign. -/
def spelledWithKelvin (word : List Char) : Bool :=
  (wordIs (some word) "rollback" || wordIs (some word) "work") && word.contains kelvinSign

theorem mem_toLowerCase_of_kelvin (h : kelvinSign ∈ word) :
    'k' ∈ toLowerCase word :=
  mem_flatMap.mpr ⟨kelvinSign, h, by decide⟩

/-- A keyword of a guard, with its lower case. -/
theorem eqIgnoreAsciiCase_eq_wordIs (hkeyword : keyword.toList.map Char.toLower = lower.toList)
    (hlower : (lower.toList.all fun c => c.toNat < 128) = true)
    (hkelvin : kelvinSign ∈ word → wordIs (some word) lower = false) :
    eqIgnoreAsciiCase (encode word) (Bytes.utf8 keyword) = wordIs (some word) lower := by
  have hascii : ∀ c ∈ lower.toList, c.toNat < 128 := by simpa using hlower
  rw [eqIgnoreAsciiCase_encode, hkeyword]
  by_cases hmem : kelvinSign ∈ word
  · -- The sign itself stays in the folded word.
    rw [hkelvin hmem, decide_eq_false_iff_not]
    intro heq
    have hsign : kelvinSign ∈ lower.toList :=
      heq ▸ mem_map.mpr ⟨kelvinSign, hmem, by decide⟩
    exact absurd (hascii _ hsign) (by decide)
  · rw [wordIs, Bool.eq_iff_iff, decide_eq_true_eq, decide_eq_true_eq,
      toLowerCase_eq_iff hascii hmem]

/-- A Kelvin sign cannot spell a keyword that has no `k`. -/
theorem wordIs_false_of_kelvin (hk : lower.toList.contains 'k' = false) (h : kelvinSign ∈ word) :
    wordIs (some word) lower = false := by
  rw [wordIs, decide_eq_false_iff_not]
  intro heq
  have hmem := mem_toLowerCase_of_kelvin h
  rw [heq] at hmem
  simp [hmem] at hk

theorem isCopy_eq (word : List Char) :
    eqIgnoreAsciiCase (encode word) (Bytes.utf8 "COPY") = isCopy word :=
  eqIgnoreAsciiCase_eq_wordIs (by decide +kernel) (by decide +kernel)
    (wordIs_false_of_kelvin (by decide +kernel))

theorem wordIsKeyword_eq (h : spelledWithKelvin word = false) (hkeyword : keyword ∈ chainKeywords) :
    eqIgnoreAsciiCase (encode word) (Bytes.utf8 keyword) = wordIsKeyword word keyword := by
  have hfold : keyword.toList.map Char.toLower = keyword.toLower.toList := String.toList_map.symm
  have hascii : ∀ keyword ∈ chainKeywords,
      (keyword.toLower.toList.all fun c => c.toNat < 128) = true := by decide +kernel
  refine eqIgnoreAsciiCase_eq_wordIs hfold (hascii keyword hkeyword) fun hmem => ?_
  have hspelled : (wordIs (some word) "rollback" || wordIs (some word) "work") = false := by
    rw [spelledWithKelvin, contains_iff_mem.mpr hmem, Bool.and_true] at h
    exact h
  rw [Bool.or_eq_false_iff] at hspelled
  have hother : ∀ keyword ∈ chainKeywords, keyword.toLower = "rollback" ∨
      keyword.toLower = "work" ∨ keyword.toLower.toList.contains 'k' = false := by decide +kernel
  rcases hother keyword hkeyword with heq | heq | hk
  · rw [heq]
    exact hspelled.1
  · rw [heq]
    exact hspelled.2
  · exact wordIs_false_of_kelvin hk hmem

/-! ## What the scanners read alike -/

theorem lexeme_congr (plain : Bool) (cs : List Char) (h : space c = space' c) :
    lexeme space plain c cs = lexeme space' plain c cs := by
  simp only [lexeme, h]

theorem lexeme_space (cs : List Char) (h : space c = true) :
    lexeme space plain c cs = (.skipped, cs) := by
  rw [lexeme, if_pos h]

theorem lexeme_tab (cs : List Char) (h : space verticalTab = false) :
    lexeme space plain verticalTab cs = (.other, cs) := by
  have hident : isPostgresIdentifierStart verticalTab = false := by decide
  have hdollar : skipDollarQuote verticalTab cs = none := if_neg (by decide)
  simp only [lexeme, h, hident, hdollar, Bool.false_eq_true, if_false]
  simp [verticalTab, singleQuote, doubleQuote]

/-- What the two scanners tell apart though they find the same: a closing parenthesis
outside all parentheses, and a word with another spelling. -/
def toldApart (misspelled : List Char → Bool) : Found Char → Bool
  | .closeParen => true
  | .word text => misspelled text
  | _ => false

/-- In one string mode, the TypeScript scan comes to nothing that the two scanners read
differently before it answers. It takes no turn at a character that is white space to
one of them only; where it has given up the statement, a vertical tab does no harm. Where
it has not, it finds no unmatched closing parenthesis and no misspelled word. -/
def ReadsAlike {σ : Type} [DecidableEq σ] (scan : Scan Char σ) (misspelled : List Char → Bool)
    (plain : Bool) (text : List Char) : Prop :=
  ∀ place ∈ scan.visited (lexer isWhitespace plain) false 0 scan.start
      ((lexer isWhitespace plain).places text),
    (isWhitespace place.2.1 = isAsciiSpace place.2.1 ∨
      place.1 = false ∧ place.2.1 = verticalTab) ∧
    (place.1 = true →
      toldApart misspelled ((lexer isWhitespace plain).turn place.2.1 place.2.2).1 = false)

/-- The text reads alike in a string mode in which the scan finds something, or in both. -/
def SameReading {σ : Type} [DecidableEq σ] (scan : Scan Char σ) (misspelled : List Char → Bool)
    (text : List Char) : Prop :=
  (∃ plain, ReadsAlike scan misspelled plain text ∧
    scan.answers false 0 scan.start ((lexer isWhitespace plain).founds text) = true) ∨
  ∀ plain, ReadsAlike scan misspelled plain text

/-- Both guards read the text alike. COPY cannot be misspelled. -/
def SameReadings (sql : String) : Prop :=
  SameReading (opening isCopy) (fun _ => false) sql.toList ∧
    SameReading (chaining wordIsKeyword) spelledWithKelvin sql.toList

section

variable {σ : Type} [DecidableEq σ]

instance (scan : Scan Char σ) (misspelled : List Char → Bool) (plain : Bool) (text : List Char) :
    Decidable (ReadsAlike scan misspelled plain text) :=
  List.decidableBAll _ _

instance (scan : Scan Char σ) (misspelled : List Char → Bool) (text : List Char) :
    Decidable (SameReading scan misspelled text) :=
  inferInstanceAs (Decidable (_ ∨ _))

instance (sql : String) : Decidable (SameReadings sql) :=
  inferInstanceAs (Decidable (_ ∧ _))

variable {plain : Bool} {sql : String} {text : List Char} {scan scan' : Scan Char σ}
  {misspelled : List Char → Bool}

/-- In one string mode, scans that take each word alike unless it is misspelled give the same
answer on a text that reads alike. -/
theorem ReadsAlike.answers_eq (h : ReadsAlike scan misspelled plain text)
    (hstart : scan'.start = scan.start) (hidle : scan'.idle = scan.idle)
    (hnext : ∀ word, misspelled word = false → ∀ s, scan'.next s word = scan.next s word) :
    scan'.answers true 0 scan.start ((lexer isAsciiSpace plain).founds text) =
      scan.answers false 0 scan.start ((lexer isWhitespace plain).founds text) := by
  refine Scan.answers_congr hstart hidle text 0 scan.start fun place hplace => ?_
  obtain ⟨hspace, hwork⟩ := h place hplace
  rcases hspace with hspace | ⟨hidle, htab⟩
  · refine .inl ⟨?_, fun hat => ⟨fun hclose => ?_, fun word hword => hnext word ?_⟩⟩
    · simp only [lexer, lexeme_congr plain place.2.2 hspace]
    · have hnot := hwork hat
      rw [hclose] at hnot
      cases hnot
    · have hnot := hwork hat
      rw [hword] at hnot
      exact hnot
  · have hskipped : lexeme isWhitespace plain place.2.1 place.2.2 = (.skipped, place.2.2) :=
      lexeme_space _ (by rw [htab]; decide)
    have hother : lexeme isAsciiSpace plain place.2.1 place.2.2 = (.other, place.2.2) := by
      rw [htab]
      exact lexeme_tab _ (by decide)
    refine .inr ⟨hidle, ?_, ?_⟩
    · simp only [lexer, hskipped]
      rfl
    · simp only [lexer, hskipped, hother]
      rfl

/-- Two answers in each string mode that agree where a text reads alike: both guards say the
same if they read it alike in a mode that finds something, or in both. -/
theorem SameReading.or_eq {answer answer' : Bool → Bool}
    (hanswer : ∀ plain, answer plain =
      scan.answers false 0 scan.start ((lexer isWhitespace plain).founds text))
    (hanswer' : ∀ plain, ReadsAlike scan misspelled plain text → answer' plain = answer plain)
    (h : SameReading scan misspelled text) :
    (answer false || answer true) = (answer' false || answer' true) := by
  rcases h with ⟨plain, halike, hfound⟩ | halike
  · rw [← hanswer] at hfound
    have hfound' := (hanswer' plain halike).trans hfound
    cases plain <;> simp [hfound, hfound']
  · rw [hanswer' false (halike false), hanswer' true (halike true)]

end

theorem rust_copies (sql : String) (plain : Bool) : RustSql.containsTopLevelCopy sql plain =
    (opening isCopy).answers true 0 true ((lexer isAsciiSpace plain).founds sql.toList) := by
  have hnext : ∀ start text, (opening fun word => eqIgnoreAsciiCase word (Bytes.utf8 "COPY")).next
      start (encode text) = (opening isCopy).next start text := by
    intro start text
    simp only [opening, isCopy_eq]
  rw [RustSql.containsTopLevelCopy, RustSql.topLevelSqlTokens_eq, leads_eq, ← Scan.finds_items]
  refine Scan.finds_map ?_ ?_ hnext true _ <;> rfl

/-- The keyword test of the Rust crate on a word of characters. -/
def encodedIsKeyword (word : List Char) (keyword : String) : Bool :=
  eqIgnoreAsciiCase (encode word) (Bytes.utf8 keyword)

theorem rust_chains (sql : String) (plain : Bool) : RustSql.containsTransactionChain sql plain =
    (chaining encodedIsKeyword).answers true 0 .statementStart
      ((lexer isAsciiSpace plain).founds sql.toList) := by
  rw [RustSql.containsTransactionChain, RustSql.topLevelSqlTokens_eq, RustSql.chains_eq,
    ← Scan.finds_items]
  refine Scan.finds_map ?_ ?_ (fun _ _ => ?_) _ _ <;> rfl

/-- **The guards of the two languages give the same answers** on a text that both scanners
read alike up to their answers. -/
theorem guards_agree (sql : String) (h : SameReadings sql) :
    containsTopLevelCopy sql =
        (RustSql.containsTopLevelCopy sql false || RustSql.containsTopLevelCopy sql true) ∧
      containsTransactionChain sql =
        (RustSql.containsTransactionChain sql false ||
          RustSql.containsTransactionChain sql true) := by
  rw [containsTopLevelCopy_eq, containsTransactionChain_eq]
  constructor
  · refine h.1.or_eq (fun _ => rfl) fun plain halike => ?_
    rw [rust_copies]
    exact halike.answers_eq rfl rfl fun _ _ _ => rfl
  · refine h.2.or_eq (fun _ => rfl) fun plain halike => ?_
    rw [rust_chains]
    refine halike.answers_eq rfl rfl fun word hword state => ?_
    exact TransactionChainState.next_congr
      (fun keyword hkeyword => wordIsKeyword_eq hword hkeyword) state

/-- Quotes, comments, parentheses, a vertical tab inside a statement and letters outside
ASCII do not disturb the guards, nor does a no-break space behind their answers. -/
theorem guards_agree_quoted :
    let sql := "ROLLBACK AND CHAIN; SELECT (E'\\'', $x$;$x$),\x0b1 /* é; */; -- ;\n copy t,\u00a0 b"
    containsTopLevelCopy sql = true ∧ containsTransactionChain sql = true ∧
      containsTopLevelCopy sql =
        (RustSql.containsTopLevelCopy sql false || RustSql.containsTopLevelCopy sql true) ∧
      containsTransactionChain sql =
        (RustSql.containsTransactionChain sql false ||
          RustSql.containsTransactionChain sql true) := by
  refine ⟨?_, ?_, guards_agree _ ?_⟩
  · decide +kernel
  · decide +kernel
  · decide +kernel

/-- Each of the differences changes an answer: a vertical tab, a no-break space and an
unmatched parenthesis in front of COPY hide it from the Rust guard, and with the Kelvin
sign in it the word ROLLBACK is one to the TypeScript guard only. -/
theorem guards_disagree :
    (containsTopLevelCopy "\x0bCOPY t FROM STDIN" = true ∧
      RustSql.containsTopLevelCopy "\x0bCOPY t FROM STDIN" false = false ∧
      RustSql.containsTopLevelCopy "\x0bCOPY t FROM STDIN" true = false) ∧
    (containsTopLevelCopy "\u00a0COPY t FROM STDIN" = true ∧
      RustSql.containsTopLevelCopy "\u00a0COPY t FROM STDIN" false = false ∧
      RustSql.containsTopLevelCopy "\u00a0COPY t FROM STDIN" true = false) ∧
    (containsTopLevelCopy ")COPY t FROM STDIN" = true ∧
      RustSql.containsTopLevelCopy ")COPY t FROM STDIN" false = false ∧
      RustSql.containsTopLevelCopy ")COPY t FROM STDIN" true = false) ∧
    (containsTransactionChain "ROLLBAC\u212a AND CHAIN" = true ∧
      RustSql.containsTransactionChain "ROLLBAC\u212a AND CHAIN" false = false ∧
      RustSql.containsTransactionChain "ROLLBAC\u212a AND CHAIN" true = false) := by
  decide +kernel

end Oliphaunt.Sql
