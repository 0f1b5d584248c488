import Oliphaunt.Model.Utf16

/-!
# The text of a byte string

PostgreSQL prints a `bytea` value in hexadecimal, or in the escape form, in which a
backslash stands before another one or before three octal digits. A decoder walks
the codes of the units of a text.

* `hexForm`, `escapeForm` — what PostgreSQL prints;
* `hexPairs`, `escapes` — the two readings of a list of codes;
* `hexPairs_hexDigits`, `escapes_escapeForm` — they give back the bytes;
* `hexPairs_text`, `escapes_alike` — what two encodings of one text are read as.
-/

namespace ByteaText

open List

/-- The value of a hexadecimal digit. -/
def digit (n : Nat) : Option Nat :=
  if 0x30 ≤ n ∧ n ≤ 0x39 then some (n - 0x30)
  else if 0x61 ≤ n ∧ n ≤ 0x66 then some (n - 0x61 + 10)
  else if 0x41 ≤ n ∧ n ≤ 0x46 then some (n - 0x41 + 10)
  else none

/-- The bytes of an even number of hexadecimal digits. -/
def hexPairs : List Nat → Option (List Nat)
  | [] => some []
  | [_] => none
  | first :: second :: rest =>
    (digit first).bind fun high => (digit second).bind fun low =>
      (hexPairs rest).map fun bytes => (16 * high + low) :: bytes

/-- The digits of a byte in base 8. -/
def isOctalEscape (a b c : Nat) : Bool :=
  decide (0x30 ≤ a ∧ a ≤ 0x33) && decide (0x30 ≤ b ∧ b ≤ 0x37) &&
    decide (0x30 ≤ c ∧ c ≤ 0x37)

/-- The bytes of the escape form. -/
def escapes : List Nat → Option (List Nat)
  | [] => some []
  | n :: rest =>
    if n ≠ 0x5c then (escapes rest).map fun bytes => n :: bytes
    else
      match rest with
      | [] => none
      | first :: rest =>
        if first = 0x5c then (escapes rest).map fun bytes => 0x5c :: bytes
        else
          match rest with
          | second :: third :: rest =>
            if isOctalEscape first second third then
              (escapes rest).map fun bytes =>
                ((first - 0x30) * 64 + (second - 0x30) * 8 + (third - 0x30)) :: bytes
            else none
          | _ => none

def hexDigit (n : Nat) : Char := if n < 10 then Char.ofNat (0x30 + n) else Char.ofNat (0x57 + n)

def hexDigits (bytes : List UInt8) : List Char :=
  bytes.flatMap fun b => [hexDigit (b.toNat / 16), hexDigit (b.toNat % 16)]

/-- The form of `bytea_output = hex`. -/
def hexForm (bytes : List UInt8) : List Char := '\\' :: 'x' :: hexDigits bytes

def octalDigit (n : Nat) : Char := Char.ofNat (0x30 + n)

def escapeByte (b : UInt8) : List Char :=
  if b.toNat = 0x5c then ['\\', '\\']
  else if 0x20 ≤ b.toNat ∧ b.toNat ≤ 0x7e then [Char.ofNat b.toNat]
  else ['\\', octalDigit (b.toNat / 64), octalDigit (b.toNat / 8 % 8), octalDigit (b.toNat % 8)]

/-- The form of `bytea_output = escape`. -/
def escapeForm (bytes : List UInt8) : List Char := bytes.flatMap escapeByte

def Ascii (text : List Char) : Prop := ∀ c ∈ text, c.toNat < 0x80

theorem ascii_backslashes : Ascii ['\\', '\\'] := by
  intro c hc
  simp only [mem_cons, not_mem_nil, or_false, or_self] at hc
  subst hc
  decide

theorem Ascii.append (hs : Ascii s) (ht : Ascii t) : Ascii (s ++ t) :=
  fun c hc => (mem_append.mp hc).elim (hs c) (ht c)

variable {text : List Char}

theorem Ascii.codes (e : Codes) (h : Ascii text) : e.text text = text.map Char.toNat := by
  induction text with
  | nil => rfl
  | cons c text ih =>
    rw [e.text_cons_ascii (h c (.head _)), ih fun d hd => h d (.tail c hd)]
    rfl

theorem digit_hexDigit : ∀ n < 16,
    (hexDigit n).toNat < 0x80 ∧ digit (hexDigit n).toNat = some n := by
  decide +kernel

theorem ascii_hexDigits (bytes : List UInt8) : Ascii (hexDigits bytes) := by
  intro c hc
  obtain ⟨b, -, hb⟩ := mem_flatMap.mp hc
  have hlt := b.toNat_lt
  simp only [mem_cons, not_mem_nil, or_false] at hb
  rcases hb with rfl | rfl
  · exact (digit_hexDigit _ (by omega)).1
  · exact (digit_hexDigit _ (by omega)).1

theorem hexPairs_hexDigits (bytes : List UInt8) :
    hexPairs ((hexDigits bytes).map Char.toNat) = some (bytes.map UInt8.toNat) := by
  induction bytes with
  | nil => rfl
  | cons b bytes ih =>
    have hlt := b.toNat_lt
    show hexPairs ((hexDigit (b.toNat / 16)).toNat :: (hexDigit (b.toNat % 16)).toNat ::
      (hexDigits bytes).map Char.toNat) = _
    rw [hexPairs, (digit_hexDigit _ (by omega)).2, (digit_hexDigit _ (by omega)).2, ih]
    simp [Nat.div_add_mod]

theorem ascii_of_digit (h : digit n = some value) : n < 0x80 := by
  unfold digit at h
  split_ifs at h <;> omega

theorem lt_of_hexPairs : ∀ {codes bytes : List Nat}, hexPairs codes = some bytes →
    ∀ n ∈ codes, n < 0x80
  | [], _, _, n, hn => nomatch hn
  | [_], _, h, _, _ => nomatch h
  | first :: second :: rest, bytes, h, n, hn => by
    obtain ⟨high, hhigh, h⟩ := Option.bind_eq_some_iff.mp h
    obtain ⟨low, hlow, h⟩ := Option.bind_eq_some_iff.mp h
    obtain ⟨tail, htail, -⟩ := Option.map_eq_some_iff.mp h
    rcases mem_cons.mp hn with rfl | hn
    · exact ascii_of_digit hhigh
    rcases mem_cons.mp hn with rfl | hn
    · exact ascii_of_digit hlow
    · exact lt_of_hexPairs htail n hn

theorem even_of_hexPairs : ∀ {codes bytes : List Nat}, hexPairs codes = some bytes →
    codes.length % 2 = 0
  | [], _, _ => rfl
  | [_], _, h => nomatch h
  | first :: second :: rest, bytes, h => by
    obtain ⟨high, -, h⟩ := Option.bind_eq_some_iff.mp h
    obtain ⟨low, -, h⟩ := Option.bind_eq_some_iff.mp h
    obtain ⟨tail, htail, -⟩ := Option.map_eq_some_iff.mp h
    have := even_of_hexPairs htail
    simp only [length_cons]
    omega

variable {bytes : List Nat}

theorem ascii_of_hexPairs {e : Codes} (h : hexPairs (e.text text) = some bytes) : Ascii text := by
  intro c hc
  by_contra hhigh
  obtain ⟨hne, hcodes⟩ := e.high c (Nat.le_of_not_lt hhigh)
  obtain ⟨n, hn⟩ := exists_mem_of_ne_nil _ hne
  have hlow := lt_of_hexPairs h n (mem_flatMap.mpr ⟨c, hc, hn⟩)
  have := hcodes n hn
  omega

theorem hexPairs_text (d e : Codes) (text : List Char) :
    hexPairs (d.text text) = hexPairs (e.text text) := by
  by_cases hascii : Ascii text
  · rw [hascii.codes d, hascii.codes e]
  · have hnone (e : Codes) : hexPairs (e.text text) = none :=
      Option.eq_none_iff_forall_ne_some.mpr fun _ h => hascii (ascii_of_hexPairs h)
    rw [hnone d, hnone e]

theorem escapes_backslash (rest : List Nat) :
    escapes (0x5c :: 0x5c :: rest) = (escapes rest).map fun bytes => 0x5c :: bytes := by
  rw [escapes.eq_def]
  simp

theorem escapes_octal (h : isOctalEscape a b c = true) (rest : List Nat) :
    escapes (0x5c :: a :: b :: c :: rest) =
      (escapes rest).map fun bytes =>
        ((a - 0x30) * 64 + (b - 0x30) * 8 + (c - 0x30)) :: bytes := by
  have ha : a ≠ 0x5c := by
    rintro rfl
    simp [isOctalEscape] at h
  rw [escapes.eq_def]
  simp [ha, h]

variable {codes : List Nat}

theorem escapes_append (h : ∀ n ∈ codes, n ≠ 0x5c) (rest : List Nat) :
    escapes (codes ++ rest) = (escapes rest).map fun bytes => codes ++ bytes := by
  induction codes with
  | nil => simp
  | cons n codes ih =>
    rw [cons_append, escapes.eq_def]
    simp only [if_pos (h n (.head _)), ih fun m hm => h m (.tail n hm),
      Option.map_map]
    rfl

theorem escape_of_escapes (h : escapes (0x5c :: codes) = some bytes) :
    (∃ rest, codes = 0x5c :: rest) ∨
      ∃ a b c rest, codes = a :: b :: c :: rest ∧ isOctalEscape a b c = true := by
  rw [escapes.eq_def] at h
  simp only [ne_eq, not_true_eq_false, if_false] at h
  split at h <;> try cases h
  split_ifs at h with hslash
  · exact .inl ⟨_, by rw [hslash]⟩
  · split at h <;> try cases h
    split_ifs at h with hoctal
    exact .inr ⟨_, _, _, _, rfl, hoctal⟩

theorem octal_ascii (h : isOctalEscape a b c = true) : a < 0x80 ∧ b < 0x80 ∧ c < 0x80 := by
  simp only [isOctalEscape, Bool.and_eq_true, decide_eq_true_eq] at h
  omega

theorem octalDigit_toNat : ∀ n < 8, (octalDigit n).toNat = 0x30 + n := by
  decide

theorem toNat_char_ofNat : ∀ {n : Nat}, n < 256 → (Char.ofNat n).toNat = n := by
  decide +kernel

theorem escapes_escapeByte (b : UInt8) : Ascii (escapeByte b) ∧
    ∀ rest, escapes ((escapeByte b).map Char.toNat ++ rest) =
      (escapes rest).map fun bytes => b.toNat :: bytes := by
  have hlt := b.toNat_lt
  unfold escapeByte
  split_ifs with hslash hprinted
  · rw [hslash]
    exact ⟨ascii_backslashes, escapes_backslash⟩
  · have hcode := toNat_char_ofNat hlt
    refine ⟨fun c hc => ?_, fun rest => ?_⟩
    · rw [mem_singleton.mp hc, hcode]
      omega
    · rw [map_singleton, hcode, escapes_append fun n hn => mem_singleton.mp hn ▸ hslash]
      rfl
  · have ha := octalDigit_toNat (b.toNat / 64) (by omega)
    have hb := octalDigit_toNat (b.toNat / 8 % 8) (by omega)
    have hc := octalDigit_toNat (b.toNat % 8) (by omega)
    refine ⟨fun c hc => ?_, fun rest => ?_⟩
    · simp only [mem_cons, not_mem_nil, or_false] at hc
      rcases hc with rfl | rfl | rfl | rfl
      · decide
      all_goals omega
    · show escapes (0x5c :: (octalDigit _).toNat :: (octalDigit _).toNat ::
        (octalDigit _).toNat :: rest) = _
      rw [escapes_octal, ha, hb, hc, show (0x30 + b.toNat / 64 - 0x30) * 64 +
        (0x30 + b.toNat / 8 % 8 - 0x30) * 8 + (0x30 + b.toNat % 8 - 0x30) = b.toNat by omega]
      simp only [isOctalEscape, Bool.and_eq_true, decide_eq_true_eq]
      omega

theorem ascii_escapeForm (bytes : List UInt8) : Ascii (escapeForm bytes) := by
  intro c hc
  obtain ⟨b, -, hb⟩ := mem_flatMap.mp hc
  exact (escapes_escapeByte b).1 c hb

theorem escapes_escapeForm (bytes : List UInt8) :
    escapes ((escapeForm bytes).map Char.toNat) = some (bytes.map UInt8.toNat) := by
  induction bytes with
  | nil => rfl
  | cons b bytes ih =>
    rw [escapeForm, flatMap_cons, map_append, (escapes_escapeByte b).2]
    rw [escapeForm] at ih
    rw [ih]
    rfl

/-- The escape form never looks like the hexadecimal one: a backslash in it is
followed by another or by a digit. -/
theorem escapeForm_not_hex (bytes : List UInt8) (rest : List Char) :
    escapeForm bytes ≠ '\\' :: 'x' :: rest := by
  intro h
  have hread := escapes_escapeForm bytes
  rw [h] at hread
  rcases escape_of_escapes hread with ⟨tail, hslash⟩ | ⟨a, b, c, tail, hoctal, hdigits⟩
  · exact absurd (List.cons.inj hslash).1 (by decide)
  · rw [← (List.cons.inj hoctal).1] at hdigits
    simp [isOctalEscape] at hdigits

/-! ## Two encodings of one text -/

theorem isPrefixOf_text (e : Codes) (text : List Char) :
    [0x5c, 0x78].isPrefixOf (e.text text) = true ↔ ∃ rest, text = '\\' :: 'x' :: rest := by
  refine isPrefixOf_iff_prefix.trans ⟨?_, ?_⟩
  · rintro ⟨codes, hcodes⟩
    obtain ⟨s, rest, rfl, hs, hrest⟩ := Codes.cons_of_text hcodes.symm (by decide)
    obtain ⟨x, rest, rfl, hx, -⟩ := Codes.cons_of_text hrest.symm (by decide)
    obtain rfl : s = '\\' := Char.toNat_inj.mp hs
    obtain rfl : x = 'x' := Char.toNat_inj.mp hx
    exact ⟨rest, rfl⟩
  · rintro ⟨rest, rfl⟩
    rw [e.text_cons_ascii (by decide), e.text_cons_ascii (by decide)]
    exact ⟨e.text rest, rfl⟩

section Alike

variable {d e : Codes}

/-- A text that does not begin with an escape or any other character is refused in
every encoding; from any other text both readings take the same characters. -/
theorem escapes_cases (first : Char) (text : List Char) :
    (∀ e : Codes, escapes (e.text (first :: text)) = none) ∨
      ∃ token rest, ∃ pushed : Codes → List Nat, first :: text = token ++ rest ∧ token ≠ [] ∧
        (∀ e : Codes, escapes (e.text (token ++ rest)) =
          (escapes (e.text rest)).map fun bytes => pushed e ++ bytes) ∧
        ((∃ c, 0x80 ≤ c.toNat ∧ token = [c] ∧ ∀ e : Codes, pushed e = e.char c) ∨
          Ascii token ∧ ∃ bytes, ∀ e : Codes, pushed e = bytes) := by
  by_cases hfirst : first = '\\'
  swap
  · refine .inr ⟨[first], text, fun e => e.char first, rfl, by simp, fun e => ?_, ?_⟩
    · refine (congrArg escapes (e.text_cons first text)).trans (escapes_append (fun n hn => ?_) _)
      by_cases hascii : first.toNat < 0x80
      · rw [e.ascii first hascii, mem_singleton] at hn
        rintro rfl
        exact hfirst (Char.toNat_inj.mp hn.symm)
      · have := (e.high first (Nat.le_of_not_lt hascii)).2 n hn
        omega
    · by_cases hascii : first.toNat < 0x80
      · exact .inr ⟨fun c hc => mem_singleton.mp hc ▸ hascii, _, fun e => e.ascii first hascii⟩
      · exact .inl ⟨first, Nat.le_of_not_lt hascii, rfl, fun _ => rfl⟩
  · subst hfirst
    by_cases hread : ∃ (e : Codes) (bytes : List Nat), escapes (e.text ('\\' :: text)) = some bytes
    · -- one encoding shows what stands after the backslash
      obtain ⟨e, bytes, hread⟩ := hread
      rw [e.text_cons_ascii (by decide)] at hread
      refine .inr ?_
      rcases escape_of_escapes hread with ⟨codes, hcodes⟩ | ⟨a, b, c, codes, hcodes, hoctal⟩
      · obtain ⟨s, rest, rfl, hs, -⟩ := Codes.cons_of_text hcodes (by decide)
        obtain rfl : s = '\\' := Char.toNat_inj.mp hs
        refine ⟨['\\', '\\'], rest, fun _ => [0x5c], rfl, by simp, fun e => ?_,
          Or.inr ⟨ascii_backslashes, _, fun _ => rfl⟩⟩
        show escapes (e.text ('\\' :: '\\' :: rest)) = _
        rw [e.text_cons_ascii (by decide), e.text_cons_ascii (by decide)]
        exact escapes_backslash _
      · obtain ⟨ha, hb, hc⟩ := octal_ascii hoctal
        obtain ⟨a, rest₁, rfl, rfl, h₁⟩ := Codes.cons_of_text hcodes ha
        obtain ⟨b, rest₂, rfl, rfl, h₂⟩ := Codes.cons_of_text h₁.symm hb
        obtain ⟨c, rest, rfl, rfl, -⟩ := Codes.cons_of_text h₂.symm hc
        refine ⟨['\\', a, b, c], rest,
          fun _ => [(a.toNat - 0x30) * 64 + (b.toNat - 0x30) * 8 + (c.toNat - 0x30)], rfl, by simp,
          fun e => ?_, .inr ⟨?_, _, fun _ => rfl⟩⟩
        · show escapes (e.text ('\\' :: a :: b :: c :: rest)) = _
          rw [e.text_cons_ascii (by decide), e.text_cons_ascii ha, e.text_cons_ascii hb,
            e.text_cons_ascii hc]
          exact escapes_octal hoctal _
        · intro s hs
          simp only [mem_cons, not_mem_nil, or_false] at hs
          rcases hs with rfl | rfl | rfl | rfl
          · decide
          all_goals assumption
    · exact .inl fun e => Option.eq_none_iff_forall_ne_some.mpr fun bytes h => hread ⟨e, bytes, h⟩

/-- Both readings are refused, or both are bytes: the same for an ASCII text, and
more of them for any other text in the encoding that is longer outside ASCII. -/
theorem escapes_alike
    (hlonger : ∀ c : Char, 0x80 ≤ c.toNat → (d.char c).length < (e.char c).length)
    (text : List Char) :
    (escapes (d.text text) = none ∧ escapes (e.text text) = none) ∨
      ∃ bytes bytes', escapes (d.text text) = some bytes ∧ escapes (e.text text) = some bytes' ∧
        bytes.length ≤ bytes'.length ∧ (¬ Ascii text → bytes.length < bytes'.length) := by
  induction hlength : text.length using Nat.strongRecOn generalizing text with
  | ind n ih =>
    cases text with
    | nil =>
      exact .inr ⟨[], [], rfl, rfl, Nat.le_refl _, fun h => absurd (fun _ hc => nomatch hc) h⟩
    | cons first text =>
      rcases escapes_cases first text with
        hnone | ⟨token, rest, pushed, htext, hne, hread, hpushed⟩
      · exact .inl ⟨hnone d, hnone e⟩
      · have hshorter : rest.length < n := by
          have := length_pos_iff.mpr hne
          rw [← hlength, htext, length_append]
          omega
        rw [htext, hread d, hread e]
        rcases ih rest.length hshorter rest rfl with
          ⟨hd, he⟩ | ⟨bytes, bytes', hd, he, hle, hlt⟩
        · rw [hd, he]
          exact .inl ⟨rfl, rfl⟩
        · rw [hd, he]
          refine .inr ⟨_, _, rfl, rfl, ?_⟩
          simp only [length_append]
          rcases hpushed with ⟨c, hc, rfl, hchar⟩ | ⟨hascii, same, hsame⟩
          · have := hlonger c hc
            rw [hchar d, hchar e]
            omega
          · rw [hsame d, hsame e]
            refine ⟨by omega, fun hother => ?_⟩
            have := hlt fun hrest => hother (hascii.append hrest)
            omega

end Alike

end ByteaText
