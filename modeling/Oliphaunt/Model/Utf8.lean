import Oliphaunt.Model.Bytes

/-!
# Scanning UTF-8 bytes

A scanner that looks for ASCII characters may walk the characters of a text or
the bytes of its encoding: an ASCII character is one byte, and every other
character is one or more bytes of 0x80 and above. This module has what a proof
that two such scanners agree needs.

* `encode_cons_cases` — how the first character of a text stands in its bytes;
* `takeWhile_encode`, `dropWhile_encode` — runs of characters that a predicate
  on bytes can tell;
* `isPrefixOf_encode` — a text begins with another exactly when its bytes do.
-/

namespace Utf8

open List

def encode (text : List Char) : List UInt8 := text.flatMap String.utf8EncodeChar

/-- The byte of an ASCII character. -/
def byte (c : Char) : UInt8 := UInt8.ofNat c.toNat

/-- A byte of a character outside ASCII. -/
def IsHigh (b : UInt8) : Prop := 0x80 ≤ b.toNat

instance (b : UInt8) : Decidable (IsHigh b) := inferInstanceAs (Decidable (0x80 ≤ b.toNat))

@[simp] theorem encode_nil : encode [] = [] := rfl

theorem encode_append (s t : List Char) : encode (s ++ t) = encode s ++ encode t :=
  flatMap_append

theorem utf8_eq_encode (text : String) : Bytes.utf8 text = encode text.toList := by
  have h := Bytes.utf8_ofList text.toList
  rwa [String.ofList_toList] at h

variable {c : Char}

theorem encode_cons_ascii (cs : List Char) (h : c.toNat < 0x80) :
    encode (c :: cs) = byte c :: encode cs := by
  rw [encode, flatMap_cons, Bytes.utf8EncodeChar_of_lt h]
  rfl

variable {b : UInt8}

theorem isHigh_of_mem (h : 0x80 ≤ c.toNat) (hb : b ∈ String.utf8EncodeChar c) : IsHigh b := by
  have hval : c.val.toNat = c.toNat := rfl
  unfold IsHigh
  simp only [String.utf8EncodeChar, hval] at hb
  split_ifs at hb <;> simp only [mem_cons, not_mem_nil, or_false] at hb
  · omega
  · rcases hb with rfl | rfl <;> simp only [UInt8.toNat_ofNat'] <;> omega
  · rcases hb with rfl | rfl | rfl <;> simp only [UInt8.toNat_ofNat'] <;> omega
  · rcases hb with rfl | rfl | rfl | rfl <;> simp only [UInt8.toNat_ofNat'] <;> omega

theorem encode_cons_high (cs : List Char) (h : 0x80 ≤ c.toNat) :
    ∃ b bs, IsHigh b ∧ (∀ b' ∈ bs, IsHigh b') ∧ encode [c] = b :: bs ∧
      encode (c :: cs) = b :: (bs ++ encode cs) := by
  have hone : encode [c] = String.utf8EncodeChar c := by simp [encode]
  cases hbytes : String.utf8EncodeChar c with
  | nil => exact absurd hbytes String.utf8EncodeChar_ne_nil
  | cons b bs =>
    have hhigh : ∀ b' ∈ b :: bs, IsHigh b' := fun b' hb' => isHigh_of_mem h (hbytes ▸ hb')
    refine ⟨b, bs, hhigh b (.head _), fun b' hb' => hhigh b' (.tail _ hb'),
      hone.trans hbytes, ?_⟩
    rw [encode, flatMap_cons, hbytes]
    rfl

section Skips

variable {β : Type} {f : List UInt8 → β} (hf : ∀ b rest, IsHigh b → f (b :: rest) = f rest)

include hf

theorem skip_high (h : ∀ b ∈ bs, IsHigh b) (rest : List UInt8) : f (bs ++ rest) = f rest := by
  induction bs with
  | nil => rfl
  | cons b bs ih => exact (hf b _ (h b (.head _))).trans (ih fun b' hb' => h b' (.tail _ hb'))

/-- What passes over the bytes outside ASCII one by one passes over such a character. -/
theorem skip_encode (cs : List Char) (hc : 0x80 ≤ c.toNat) :
    f (encode (c :: cs)) = f (encode cs) := by
  obtain ⟨b, bs, hb, hbs, -, hencode⟩ := encode_cons_high cs hc
  rw [hencode, hf b _ hb, skip_high hf hbs]

end Skips

theorem toNat_byte (h : c.toNat < 0x80) : (byte c).toNat = c.toNat := by
  rw [byte, UInt8.toNat_ofNat']
  omega

theorem byte_inj (hc : c.toNat < 0x80) (hd : d.toNat < 0x80) : byte c = byte d ↔ c = d := by
  refine ⟨fun h => ?_, congrArg byte⟩
  have hcode := congrArg UInt8.toNat h
  rw [toNat_byte hc, toNat_byte hd] at hcode
  exact Char.toNat_inj.mp hcode

theorem byte_not_high (h : c.toNat < 0x80) : ¬ IsHigh (byte c) := by
  rw [IsHigh, toNat_byte h]
  omega

theorem IsHigh.ne_byte (hb : IsHigh b) (hc : c.toNat < 0x80) : b ≠ byte c := by
  rintro rfl
  exact byte_not_high hc hb

theorem encode_eq_nil_iff (cs : List Char) : encode cs = [] ↔ cs = [] := by
  refine ⟨fun h => ?_, fun h => by rw [h]; rfl⟩
  cases cs with
  | nil => rfl
  | cons c cs =>
    rw [encode, flatMap_cons, append_eq_nil_iff] at h
    exact absurd h.1 String.utf8EncodeChar_ne_nil

/-- The first byte of a text is that of an ASCII character exactly when the text begins
with that character. -/
theorem head?_encode (hc : c.toNat < 0x80) (cs : List Char) :
    (encode cs).head? = some (byte c) ↔ cs.head? = some c := by
  cases cs with
  | nil => simp
  | cons d cs =>
    by_cases hd : d.toNat < 0x80
    · rw [encode_cons_ascii cs hd, List.head?_cons, List.head?_cons, Option.some_inj,
        Option.some_inj, byte_inj hd hc]
    · obtain ⟨b, bs, hb, -, -, hencode⟩ := encode_cons_high cs (Nat.le_of_not_lt hd)
      rw [hencode, List.head?_cons, List.head?_cons, Option.some_inj, Option.some_inj]
      refine ⟨fun h => absurd h (hb.ne_byte hc), ?_⟩
      rintro rfl
      exact absurd hc hd

theorem tail_encode (hc : c.toNat < 0x80) (h : cs.head? = some c) :
    (encode cs).tail = encode cs.tail := by
  obtain ⟨tail, rfl⟩ := List.head?_eq_some_iff.mp h
  rw [encode_cons_ascii tail hc]
  rfl

/-- The predicate on bytes is the one on characters: the same for ASCII, and true of
everything else. -/
structure Reads (p : UInt8 → Bool) (q : Char → Bool) : Prop where
  ascii : ∀ c : Char, c.toNat < 0x80 → p (byte c) = q c
  highByte : ∀ b, IsHigh b → p b = true
  highChar : ∀ c : Char, 0x80 ≤ c.toNat → q c = true

section Runs

variable {p : UInt8 → Bool} {q : Char → Bool}

theorem takeWhile_high (rest : List UInt8) (h : ∀ b ∈ bs, p b = true) :
    (bs ++ rest).takeWhile p = bs ++ rest.takeWhile p := by
  induction bs with
  | nil => rfl
  | cons b bs ih =>
    rw [cons_append, takeWhile_cons, if_pos (h b (.head _)),
      ih fun b' hb' => h b' (.tail _ hb')]
    rfl

theorem dropWhile_high (rest : List UInt8) (h : ∀ b ∈ bs, p b = true) :
    (bs ++ rest).dropWhile p = rest.dropWhile p := by
  induction bs with
  | nil => rfl
  | cons b bs ih =>
    rw [cons_append, dropWhile_cons, if_pos (h b (.head _)),
      ih fun b' hb' => h b' (.tail _ hb')]

theorem takeWhile_encode (h : Reads p q) (cs : List Char) :
    (encode cs).takeWhile p = encode (cs.takeWhile q) := by
  induction cs with
  | nil => rfl
  | cons c cs ih =>
    by_cases hc : c.toNat < 0x80
    · rw [encode_cons_ascii cs hc, takeWhile_cons, takeWhile_cons, h.ascii c hc]
      split
      · rw [ih, encode_cons_ascii _ hc]
      · rfl
    · have hc' := Nat.le_of_not_lt hc
      obtain ⟨b, bs, hb, hbs, hone, hencode⟩ := encode_cons_high cs hc'
      rw [hencode, takeWhile_cons, if_pos (h.highByte b hb),
        takeWhile_high _ fun b' hb' => h.highByte b' (hbs b' hb'), ih, takeWhile_cons,
        if_pos (h.highChar c hc')]
      rw [show c :: cs.takeWhile q = [c] ++ cs.takeWhile q from rfl, encode_append, hone]
      rfl

theorem dropWhile_encode (h : Reads p q) (cs : List Char) :
    (encode cs).dropWhile p = encode (cs.dropWhile q) := by
  induction cs with
  | nil => rfl
  | cons c cs ih =>
    by_cases hc : c.toNat < 0x80
    · rw [encode_cons_ascii cs hc, dropWhile_cons, dropWhile_cons, h.ascii c hc]
      split
      · exact ih
      · rw [encode_cons_ascii cs hc]
    · have hc' := Nat.le_of_not_lt hc
      obtain ⟨b, bs, hb, hbs, -, hencode⟩ := encode_cons_high cs hc'
      rw [hencode, dropWhile_cons, if_pos (h.highByte b hb),
        dropWhile_high _ fun b' hb' => h.highByte b' (hbs b' hb'), ih, dropWhile_cons,
        if_pos (h.highChar c hc')]

theorem all_encode (h : Reads p q) (cs : List Char) : (encode cs).all p = cs.all q := by
  induction cs with
  | nil => rfl
  | cons c cs ih =>
    by_cases hc : c.toNat < 0x80
    · rw [encode_cons_ascii cs hc, all_cons, all_cons, h.ascii c hc, ih]
    · have hc' := Nat.le_of_not_lt hc
      obtain ⟨b, bs, hb, hbs, -, hencode⟩ := encode_cons_high cs hc'
      have hall : bs.all p = true := all_eq_true.mpr fun b' hb' => h.highByte b' (hbs b' hb')
      rw [hencode, all_cons, all_append, h.highByte b hb, hall, ih, all_cons,
        h.highChar c hc']
      rfl

theorem encode_ascii (h : ∀ c ∈ cs, c.toNat < 0x80) : encode cs = cs.map byte := by
  induction cs with
  | nil => rfl
  | cons c cs ih =>
    rw [encode_cons_ascii cs (h c (.head _)), map_cons,
      ih fun d hd => h d (.tail _ hd)]

/-- A run covers the bytes exactly when it covers the characters. -/
theorem length_le_takeWhile (q : Char → Bool) (cs : List Char) :
    (encode cs).length ≤ (encode (cs.takeWhile q)).length ↔
      cs.length ≤ (cs.takeWhile q).length := by
  have hchars : cs.takeWhile q ++ cs.dropWhile q = cs := takeWhile_append_dropWhile
  have hbytes := congrArg (fun text => (encode text).length) hchars
  have hlength := congrArg List.length hchars
  simp only [encode_append, length_append] at hbytes hlength
  have hnil : (encode (cs.dropWhile q)).length = 0 ↔ (cs.dropWhile q).length = 0 := by
    rw [length_eq_zero_iff, length_eq_zero_iff, encode_eq_nil_iff]
  omega

end Runs

theorem encode_toByteArray (text : List Char) : (encode text).toByteArray = text.utf8Encode := rfl

/-- UTF-8 bytes begin with others exactly if the characters do. -/
theorem encode_prefix_iff (s t : List Char) : encode s <+: encode t ↔ s <+: t := by
  constructor
  · rintro ⟨rest, hrest⟩
    refine isPrefix_of_utf8Encode_append_eq_utf8Encode rest.toByteArray ?_
    rw [← encode_toByteArray, ← encode_toByteArray, ← toByteArray_append, hrest]
  · rintro ⟨rest, rfl⟩
    rw [encode_append]
    exact prefix_append _ _

theorem isPrefixOf_encode (s t : List Char) :
    (encode s).isPrefixOf (encode t) = s.isPrefixOf t := by
  rw [Bool.eq_iff_iff, isPrefixOf_iff_prefix, isPrefixOf_iff_prefix]
  exact encode_prefix_iff s t

theorem drop_encode (h : s.isPrefixOf t = true) :
    (encode t).drop (encode s).length = encode (t.drop s.length) := by
  obtain ⟨rest, rfl⟩ := isPrefixOf_iff_prefix.mp h
  rw [encode_append, drop_left, drop_left]

theorem zero_notMem_utf8 (h : Char.ofNat 0 ∉ text.toList) : (0 : UInt8) ∉ Bytes.utf8 text := by
  rw [utf8_eq_encode]
  intro hzero
  obtain ⟨c, hc, hbyte⟩ := mem_flatMap.mp hzero
  by_cases hascii : c.toNat < 0x80
  · rw [Bytes.utf8EncodeChar_of_lt hascii, mem_singleton] at hbyte
    have hcode : c.toNat = 0 := by
      have := congrArg UInt8.toNat hbyte
      simp at this
      omega
    exact h (by rwa [← hcode, Char.ofNat_toNat])
  · exact absurd (isHigh_of_mem (Nat.le_of_not_lt hascii) hbyte) (by decide)

end Utf8
