import Oliphaunt.Model.Utf8

/-!
# Texts as code units

A text is encoded in units of a fixed width, bytes or UTF-16 code units. A reader
that looks for ASCII characters sees the codes of the units and may look at any of
them, also at a part of a character.

* `Text`, `unit` — the code units of a UTF-16 string;
* `Utf16.encode` — the code units of a list of Unicode characters;
* `Codes` — what such a reader relies on: an ASCII character is its own code, and
  every other character has codes outside ASCII only. UTF-8 and UTF-16 are both
  of this kind (`utf8Codes`, `utf16Codes`).
-/

namespace Utf16

abbrev Text := List UInt16

/-- The code unit of a character below U+10000. -/
def unit (c : Char) : UInt16 := UInt16.ofNat c.toNat

/-- The code units of a literal that has only characters below U+10000. -/
def units (literal : String) : Text := literal.toList.map unit

/-- One unit, or the two halves of a surrogate pair. -/
def encodeChar (c : Char) : Text :=
  if c.toNat < 0x10000 then [unit c]
  else
    [UInt16.ofNat (0xd800 + (c.toNat - 0x10000) / 0x400),
      UInt16.ofNat (0xdc00 + (c.toNat - 0x10000) % 0x400)]

def encode (text : List Char) : Text := text.flatMap encodeChar

variable {c : Char}

theorem toNat_unit (h : c.toNat < 0x10000) : (unit c).toNat = c.toNat := by
  rw [unit, UInt16.toNat_ofNat']
  omega

theorem high_of_mem_encodeChar (h : 0x80 ≤ c.toNat) (hu : u ∈ encodeChar c) : 0x80 ≤ u.toNat := by
  have hmax : c.toNat < 0x110000 := by
    have hvalid := c.valid
    show c.val.toNat < 0x110000
    omega
  unfold encodeChar at hu
  split_ifs at hu with hlow
  · rw [List.mem_singleton] at hu
    rw [hu, toNat_unit hlow]
    exact h
  · simp only [List.mem_cons, List.not_mem_nil, or_false] at hu
    rcases hu with rfl | rfl <;> rw [UInt16.toNat_ofNat'] <;> omega

theorem length_encodeChar_lt (h : 0x80 ≤ c.toNat) :
    (encodeChar c).length < (String.utf8EncodeChar c).length := by
  have hval : c.val.toNat = c.toNat := rfl
  unfold encodeChar
  simp only [String.utf8EncodeChar, hval]
  split_ifs <;> simp <;> omega

end Utf16

/-- The codes of the units of one character. -/
structure Codes where
  char : Char → List Nat
  ascii : ∀ c, c.toNat < 0x80 → char c = [c.toNat]
  high : ∀ c, 0x80 ≤ c.toNat → char c ≠ [] ∧ ∀ n ∈ char c, 0x80 ≤ n

namespace Codes

def text (e : Codes) (cs : List Char) : List Nat := cs.flatMap e.char

def utf8Codes : Codes where
  char c := (String.utf8EncodeChar c).map UInt8.toNat
  ascii c h := by
    rw [Bytes.utf8EncodeChar_of_lt h]
    simp only [List.map_cons, List.map_nil, UInt8.toNat_ofNat']
    rw [Nat.mod_eq_of_lt (by omega)]
  high c h := by
    refine ⟨fun hnil => String.utf8EncodeChar_ne_nil (List.map_eq_nil_iff.mp hnil), ?_⟩
    intro n hn
    obtain ⟨b, hb, rfl⟩ := List.mem_map.mp hn
    exact Utf8.isHigh_of_mem h hb

def utf16Codes : Codes where
  char c := (Utf16.encodeChar c).map UInt16.toNat
  ascii c h := by
    rw [Utf16.encodeChar, if_pos (by omega), List.map_singleton, Utf16.toNat_unit (by omega)]
  high c h := by
    refine ⟨?_, ?_⟩
    · unfold Utf16.encodeChar
      split_ifs <;> simp
    · intro n hn
      obtain ⟨u, hu, rfl⟩ := List.mem_map.mp hn
      exact Utf16.high_of_mem_encodeChar h hu

theorem utf8Codes_text (cs : List Char) :
    utf8Codes.text cs = (Utf8.encode cs).map UInt8.toNat := by
  rw [Utf8.encode, List.map_flatMap]
  rfl

theorem utf16Codes_text (cs : List Char) :
    utf16Codes.text cs = (Utf16.encode cs).map UInt16.toNat := by
  rw [Utf16.encode, List.map_flatMap]
  rfl

variable (e : Codes)

@[simp] theorem text_nil : e.text [] = [] := rfl

theorem text_cons (c : Char) (cs : List Char) : e.text (c :: cs) = e.char c ++ e.text cs :=
  List.flatMap_cons

theorem text_cons_ascii (h : c.toNat < 0x80) (cs : List Char) :
    e.text (c :: cs) = c.toNat :: e.text cs := by
  rw [text_cons, e.ascii c h]
  rfl

variable {e}

theorem cons_of_text (h : e.text cs = n :: ns) (hn : n < 0x80) :
    ∃ c rest, cs = c :: rest ∧ c.toNat = n ∧ ns = e.text rest := by
  cases cs with
  | nil => cases h
  | cons c rest =>
    by_cases hc : c.toNat < 0x80
    · rw [text_cons_ascii e hc] at h
      obtain ⟨hcode, hrest⟩ := List.cons.inj h
      exact ⟨c, rest, rfl, hcode, hrest.symm⟩
    · obtain ⟨hne, hhigh⟩ := e.high c (Nat.le_of_not_lt hc)
      rw [text_cons] at h
      cases hchar : e.char c with
      | nil => exact absurd hchar hne
      | cons m ms =>
        rw [hchar] at h hhigh
        have := hhigh m (.head _)
        rw [(List.cons.inj h).1] at this
        omega

end Codes
