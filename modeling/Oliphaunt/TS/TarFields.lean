import Oliphaunt.TS.PhysicalArchive

/-!
# Octal fields

The framing and the extraction of an archive read the numbers of a header with parsers
of their own: `parseTarOctal` strips the padding at both ends of a field, `parseOctal`
cuts the field at its first NUL and trims it. `OctalText` is a field of digits between
padding; `OctalText.parseTarOctal` and `OctalText.parseOctal` say what each of them
makes of it.
-/

namespace Oliphaunt.PhysicalArchive

open FileTree Tar TarArchive List
open Bytes (ascii textDecode)

variable {p : Char → Bool} {text : Text} {c : Char}

theorem dropWhile_append_of_head {tail : Text} (hne : text ≠ []) (h : ∀ c ∈ text, p c = false) :
    (text ++ tail).dropWhile p = text ++ tail := by
  cases text with
  | nil => exact absurd rfl hne
  | cons c text =>
    have hc : p c = false := h c (.head _)
    simp [hc]

/-- A text between characters that `p` holds of is what is left of it. -/
theorem strip_eq {tail : Text} (hne : text ≠ []) (h : ∀ c ∈ text, p c = false)
    (htail : ∀ c ∈ tail, p c = true) :
    (((text ++ tail).dropWhile p).reverse.dropWhile p).reverse = text := by
  rw [dropWhile_append_of_head hne h, reverse_append]
  have hdrop : ∀ front : Text, (∀ c ∈ front, p c = true) →
      (front ++ text.reverse).dropWhile p = text.reverse.dropWhile p := by
    intro front hfront
    induction front with
    | nil => rfl
    | cons c front ih =>
      have hc := hfront c (.head _)
      rw [cons_append, dropWhile_cons, if_pos hc,
        ih fun c' hc' => hfront c' (.tail _ hc')]
  have hkeep := @dropWhile_append_of_head p text.reverse [] (by simpa using hne)
    (fun c hc => h c (mem_reverse.mp hc))
  rw [hdrop _ fun c hc => htail c (mem_reverse.mp hc)]
  rw [append_nil] at hkeep
  rw [hkeep, reverse_reverse]

theorem cutNul_append (h : Char.ofNat 0 ∉ text) (tail : Text) :
    cutNul (text ++ tail) = text ++ cutNul tail := by
  induction text with
  | nil => rfl
  | cons c text ih =>
    have hc : c ≠ Char.ofNat 0 := fun hc => h (hc ▸ (.head _))
    rw [cons_append, cutNul, if_neg fun hand => hc hand.1, ih fun hmem => h (.tail _ hmem)]
    rfl

theorem cutNul_append_nuls (h : Char.ofNat 0 ∉ text) (n : Nat) :
    cutNul (text ++ List.replicate n (Char.ofNat 0)) = text := by
  have hnuls : cutNul (List.replicate n (Char.ofNat 0)) = [] := by
    cases n with
    | zero => rfl
    | succ n =>
      have hrest : (List.replicate n (Char.ofNat 0)).all (fun c => !isLineTerminator c) = true := by
        rw [all_eq_true]
        intro c hc
        rw [eq_of_mem_replicate hc]
        rfl
      rw [replicate_succ, cutNul, if_pos ⟨rfl, hrest⟩]
  rw [cutNul_append h, hnuls, append_nil]

theorem isWhitespace_octal (h : 0x30 ≤ c.toNat ∧ c.toNat ≤ 0x37) : Sql.isWhitespace c = false := by
  rw [Sql.isWhitespace, Bool.or_eq_false_iff]
  constructor
  · simp only [contains_cons, contains_nil, Bool.or_false, Bool.or_eq_false_iff,
      beq_eq_false_iff_ne]
    omega
  · simp only [Bool.and_eq_false_iff, decide_eq_false_iff_not]
    omega

def isPad (c : Char) : Bool := c = Char.ofNat 0 || c = ' '

theorem eq_of_isPad (h : isPad c = true) : c = Char.ofNat 0 ∨ c = ' ' := by
  simpa [isPad] using h

theorem isLineTerminator_pad (h : isPad c = true) : isLineTerminator c = false := by
  rcases eq_of_isPad h with rfl | rfl <;> decide

theorem isLineTerminator_octal (h : 0x30 ≤ c.toNat ∧ c.toNat ≤ 0x37) :
    isLineTerminator c = false := by
  have hn : c ≠ '\n' := by rintro rfl; revert h; decide
  have hr : c ≠ '\r' := by rintro rfl; revert h; decide
  simp only [isLineTerminator, Bool.or_eq_false_iff, decide_eq_false_iff_not]
  refine ⟨⟨⟨hn, hr⟩, ?_⟩, ?_⟩ <;> omega

theorem cutNul_cons_pad {rest : Text} (hc : isPad c = true)
    (hrest : ∀ c ∈ rest, isLineTerminator c = false) :
    cutNul (c :: rest) = if c = Char.ofNat 0 then [] else ' ' :: cutNul rest := by
  have hall : rest.all (fun c => !isLineTerminator c) = true :=
    all_eq_true.mpr fun c' hc' => by rw [hrest c' hc', Bool.not_false]
  rcases eq_of_isPad hc with rfl | rfl
  · rw [cutNul, if_pos ⟨rfl, hall⟩, if_pos rfl]
  · rw [cutNul, if_neg fun h => absurd h.1 (by decide), if_neg (by decide)]

theorem isWhitespace_cutNul (h : ∀ c ∈ pad, isPad c = true) :
    ∀ c ∈ cutNul pad, Sql.isWhitespace c = true := by
  induction pad with
  | nil => exact fun c hc => absurd hc not_mem_nil
  | cons c rest ih =>
    have hrest : ∀ c ∈ rest, isPad c = true := fun c hc => h c (.tail _ hc)
    rw [cutNul_cons_pad (h c (.head _)) fun c hc => isLineTerminator_pad (hrest c hc)]
    split
    · exact fun c hc => absurd hc not_mem_nil
    · exact forall_mem_cons.mpr ⟨by decide, ih hrest⟩

/-- Octal digits with padding before and after them. -/
structure OctalText (text lead digits tail : Text) : Prop where
  eq : text = lead ++ (digits ++ tail)
  lead_pad : ∀ c ∈ lead, isPad c = true
  tail_pad : ∀ c ∈ tail, isPad c = true
  digits_ne : digits ≠ []
  digits_octal : ∀ c ∈ digits, 0x30 ≤ c.toNat ∧ c.toNat ≤ 0x37

namespace OctalText

variable {text lead digits tail : Text} {field : List UInt8} {decoded : String}

section

variable (h : OctalText text lead digits tail)

include h

theorem isPad_digit (hc : c ∈ digits) : isPad c = false := by
  have hoctal := h.digits_octal c hc
  simp only [isPad, Bool.or_eq_false_iff, decide_eq_false_iff_not]
  constructor <;> (rintro rfl; revert hoctal; decide)

theorem not_any : (digits.any fun c => c.toNat < 0x30 || 0x37 < c.toNat) = false := by
  rw [any_eq_false]
  intro c hc
  have hoctal := h.digits_octal c hc
  simp only [Bool.or_eq_true, decide_eq_true_eq]
  omega

theorem dropWhile_pad : text.dropWhile isPad = digits ++ tail := by
  rw [h.eq, dropWhile_append_of_pos h.lead_pad,
    dropWhile_append_of_head h.digits_ne fun c => h.isPad_digit]

theorem takeWhile_pad : text.takeWhile isPad = lead := by
  have happend := takeWhile_append_dropWhile (p := isPad) (l := text)
  rw [h.dropWhile_pad] at happend
  exact append_cancel_right (happend.trans h.eq)

/-- Cut at its first NUL and trimmed, a field has its digits left, or nothing. -/
theorem trim_cutNul : trim (cutNul text) = if lead.contains (Char.ofNat 0) then [] else digits := by
  obtain rfl := h.eq
  induction lead with
  | nil =>
    have hnul : Char.ofNat 0 ∉ digits := fun hmem => absurd (h.digits_octal _ hmem) (by decide)
    rw [nil_append, cutNul_append hnul]
    exact strip_eq h.digits_ne (fun c hc => isWhitespace_octal (h.digits_octal c hc))
      (isWhitespace_cutNul h.tail_pad)
  | cons c lead ih =>
    have hrest : OctalText (lead ++ (digits ++ tail)) lead digits tail :=
      ⟨rfl, fun c hc => h.lead_pad c (.tail _ hc), h.tail_pad, h.digits_ne, h.digits_octal⟩
    have hplain : ∀ c ∈ lead ++ (digits ++ tail), isLineTerminator c = false := by
      intro c hc
      rw [mem_append, mem_append] at hc
      rcases hc with hc | hc | hc
      · exact isLineTerminator_pad (hrest.lead_pad c hc)
      · exact isLineTerminator_octal (h.digits_octal c hc)
      · exact isLineTerminator_pad (h.tail_pad c hc)
    rw [cons_append, cutNul_cons_pad (h.lead_pad c (.head _)) hplain, contains_cons]
    by_cases hc : c = Char.ofNat 0
    · simp [hc, trim]
    · rw [if_neg hc, beq_false_of_ne (Ne.symm hc), Bool.false_or, ← ih hrest]
      rfl

end

theorem parseTarOctal (h : OctalText decoded.toList lead digits tail)
    (hdecoded : textDecode field = some decoded)
    (hsafe : ¬ maxSafeInteger < parseDigits 8 digits) (label : String) (allowEmpty : Bool) :
    parseTarOctal field label allowEmpty = .ok (parseDigits 8 digits) := by
  have hstrip : ((decoded.toList.dropWhile isPad).reverse.dropWhile isPad).reverse = digits := by
    rw [h.dropWhile_pad, ← dropWhile_append_of_head h.digits_ne fun c => h.isPad_digit]
    exact strip_eq h.digits_ne (fun c => h.isPad_digit) h.tail_pad
  simp only [PhysicalArchive.parseTarOctal, hdecoded]
  rw [show (fun c : Char => decide (c = Char.ofNat 0) || decide (c = ' ')) = isPad from rfl, hstrip,
    if_neg fun hempty => h.digits_ne hempty.1, h.not_any, if_neg (by simp [h.digits_ne]),
    if_neg hsafe]

/-- A NUL before the digits hides them. -/
theorem parseOctal (h : OctalText decoded.toList lead digits tail)
    (hdecoded : textDecode field = some decoded)
    (hsafe : ¬ maxSafeInteger < parseDigits 8 digits) (label : String) :
    parseOctal field label =
      .ok (if lead.contains (Char.ofNat 0) then 0 else parseDigits 8 digits) := by
  simp only [TarArchive.parseOctal, decodeTarString, hdecoded, h.trim_cutNul]
  split
  · rfl
  · rw [if_neg h.digits_ne, h.not_any, if_neg Bool.false_ne_true]

end OctalText

theorem isOctalDigit_iff : isOctalDigit b = true ↔ 0x30 ≤ b.toNat ∧ b.toNat ≤ 0x37 := by
  rw [isOctalDigit, decide_eq_true_iff]

theorem parseDigits_ascii (h : ∀ b ∈ digits, isOctalDigit b = true) :
    parseDigits 8 (ascii digits) = octalValue digits := by
  have hfold : ∀ acc, (ascii digits).foldl (fun acc c => acc * 8 + (c.toNat - 0x30)) acc =
      digits.foldl (fun acc b => acc * 8 + (b.toNat - 0x30)) acc := by
    induction digits with
    | nil => intro acc; rfl
    | cons b digits ih =>
      intro acc
      have hb := isOctalDigit_iff.mp (h b (.head _))
      have hcode : (Char.ofNat b.toNat).toNat = b.toNat := Bytes.toNat_ascii (by omega)
      show (ascii digits).foldl _ (acc * 8 + ((Char.ofNat b.toNat).toNat - 0x30)) = _
      rw [hcode, ih fun b' hb' => h b' (.tail _ hb')]
      rfl
  exact hfold 0

theorem octal_chars (h : c ∈ ascii (octal w n)) : 0x30 ≤ c.toNat ∧ c.toNat ≤ 0x37 := by
  obtain ⟨b, hb, rfl⟩ := mem_map.mp h
  have hdigit := isOctalDigit_iff.mp (isOctalDigit_of_mem_octal hb)
  rw [Bytes.toNat_ascii (by omega)]
  exact hdigit

theorem octalText_octal (hw : 0 < w) {tail : List UInt8} (htail : ∀ b ∈ tail, b = 0 ∨ b = 0x20) :
    OctalText (String.ofList (ascii (octal w n ++ tail))).toList [] (ascii (octal w n))
      (ascii tail) where
  eq := by
    rw [String.toList_ofList]
    exact map_append
  lead_pad := fun c hc => absurd hc not_mem_nil
  tail_pad := fun c hc => by
    obtain ⟨b, hb, rfl⟩ := mem_map.mp hc
    rcases htail b hb with rfl | rfl <;> decide
  digits_ne := fun h => by
    have hlength := congrArg List.length h
    rw [ascii, length_map, length_octal, length_nil] at hlength
    omega
  digits_octal := fun c hc => octal_chars hc

variable {w n : Nat} {tail : List UInt8}

theorem textDecode_octal (htail : ∀ b ∈ tail, b = 0 ∨ b = 0x20) :
    textDecode (octal w n ++ tail) =
      some (String.ofList (ascii (octal w n ++ tail))) := by
  refine Bytes.textDecode_ascii fun b hb => ?_
  rcases mem_append.mp hb with hb | hb
  · have hdigit := isOctalDigit_iff.mp (isOctalDigit_of_mem_octal hb)
    omega
  · rcases htail b hb with rfl | rfl <;> decide

theorem parseDigits_octal (hn : n < 8 ^ w) : parseDigits 8 (ascii (octal w n)) = n := by
  rw [parseDigits_ascii fun b hb => isOctalDigit_of_mem_octal hb, octalValue_octal hn]

theorem octal_value_safe (hw : w ≤ 17) (hn : n < 8 ^ w) : ¬ maxSafeInteger < n := by
  have hpow : (8 : Nat) ^ w ≤ 8 ^ 17 := Nat.pow_le_pow_right (by omega) hw
  rw [maxSafeInteger]
  omega

theorem parseTarOctal_field (hw : 0 < w) (hsafe : w ≤ 17) (hn : n < 8 ^ w)
    (htail : ∀ b ∈ tail, b = 0 ∨ b = 0x20) (label : String) (allowEmpty : Bool) :
    parseTarOctal (octal w n ++ tail) label allowEmpty = .ok n := by
  have hvalue := parseDigits_octal hn
  have hsafe := hvalue.symm ▸ octal_value_safe hsafe hn
  rw [(octalText_octal hw htail).parseTarOctal (textDecode_octal htail) hsafe, hvalue]

theorem parseOctal_field (hw : 0 < w) (hsafe : w ≤ 17) (hn : n < 8 ^ w)
    (htail : ∀ b ∈ tail, b = 0 ∨ b = 0x20) (label : String) :
    parseOctal (octal w n ++ tail) label = .ok n := by
  have hvalue := parseDigits_octal hn
  have hsafe := hvalue.symm ▸ octal_value_safe hsafe hn
  rw [(octalText_octal hw htail).parseOctal (textDecode_octal htail) hsafe, hvalue]
  rfl

end Oliphaunt.PhysicalArchive
