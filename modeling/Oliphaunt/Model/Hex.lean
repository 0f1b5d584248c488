import Mathlib.Algebra.Group.Nat.Defs
import Mathlib.Data.List.Induction

/-!
# Hexadecimal numbers in upper case

Numbers printed with leading zeros to a given width, and digits read back.

* `digits` — exactly `width` digits; `format` — at least `width` digits, as a
  formatter prints them;
* `value` — the number of a list of digits;
* `value_digits`, `digits_value` — the two are inverse where the number fits.
-/

namespace Hex

open List

def digitChar (n : Nat) : Char :=
  if n < 10 then Char.ofNat (0x30 + n) else Char.ofNat (0x37 + n)

/-- The value of an upper case hexadecimal digit. -/
def digit? (c : Char) : Option Nat :=
  if '0' ≤ c ∧ c ≤ '9' then some (c.toNat - '0'.toNat)
  else if 'A' ≤ c ∧ c ≤ 'F' then some (c.toNat - 'A'.toNat + 10)
  else none

def isDigit (c : Char) : Bool := (digit? c).isSome

def value (text : List Char) : Nat :=
  text.foldl (fun number c => number * 16 + (digit? c).getD 0) 0

def digits : (width n : Nat) → List Char
  | 0, _ => []
  | width + 1, n => digits width (n / 16) ++ [digitChar (n % 16)]

/-- The digits of a number without leading zeros. -/
def natural (n : Nat) : List Char :=
  if n < 16 then [digitChar n] else natural (n / 16) ++ [digitChar (n % 16)]

def format (width n : Nat) : List Char :=
  List.replicate (width - (natural n).length) '0' ++ natural n

theorem digit?_digitChar : ∀ n < 16, digit? (digitChar n) = some n := by
  decide

variable {n : Nat}

theorem digitChar_of_digit? (h : digit? c = some n) : c = digitChar n ∧ n < 16 := by
  have hle (a b : Char) : a ≤ b ↔ a.toNat ≤ b.toNat := Char.le_def
  have h0 : ('0' : Char).toNat = 0x30 := rfl
  have h9 : ('9' : Char).toNat = 0x39 := rfl
  have hA : ('A' : Char).toNat = 0x41 := rfl
  have hF : ('F' : Char).toNat = 0x46 := rfl
  have hcode : c.toNat = 0x30 + n ∧ n < 10 ∨ c.toNat = 0x37 + n ∧ 10 ≤ n ∧ n < 16 := by
    unfold digit? at h
    simp only [hle, h0, h9, hA, hF] at h
    split_ifs at h with hdecimal hletter
    · have := Option.some.inj h
      omega
    · have := Option.some.inj h
      omega
  rcases hcode with ⟨hcode, hn⟩ | ⟨hcode, hn, hlt⟩
  · refine ⟨?_, by omega⟩
    rw [digitChar, if_pos hn, ← hcode, Char.ofNat_toNat]
  · refine ⟨?_, hlt⟩
    rw [digitChar, if_neg (by omega), ← hcode, Char.ofNat_toNat]

theorem isDigit_digitChar (h : n < 16) : isDigit (digitChar n) = true := by
  rw [isDigit, digit?_digitChar n h]
  rfl

@[simp] theorem value_nil : value [] = 0 := rfl

theorem value_append_digit (text : List Char) (c : Char) :
    value (text ++ [c]) = value text * 16 + (digit? c).getD 0 := by
  simp [value]

@[simp] theorem length_digits (width n : Nat) : (digits width n).length = width := by
  induction width generalizing n with
  | zero => rfl
  | succ width ih => rw [digits, length_append, ih, length_singleton]

theorem all_digits (width n : Nat) : (digits width n).all isDigit = true := by
  induction width generalizing n with
  | zero => rfl
  | succ width ih =>
    rw [digits, all_append, ih, all_cons, isDigit_digitChar (Nat.mod_lt n (by omega))]
    rfl

theorem value_digits (h : n < 16 ^ width) : value (digits width n) = n := by
  induction width generalizing n with
  | zero =>
    show 0 = n
    omega
  | succ width ih =>
    have hquotient : n / 16 < 16 ^ width := by
      omega
    rw [digits, value_append_digit, ih hquotient, digit?_digitChar _ (Nat.mod_lt n (by omega))]
    show n / 16 * 16 + n % 16 = n
    omega

/-- The digits of the number are the text again, and the number fits its width. -/
theorem digits_value (h : text.all isDigit = true) :
    digits text.length (value text) = text ∧ value text < 16 ^ text.length := by
  induction text using List.reverseRecOn with
  | nil => exact ⟨rfl, by simp⟩
  | append_singleton text c ih =>
    rw [all_append, Bool.and_eq_true] at h
    obtain ⟨hdigits, hlt⟩ := ih h.1
    obtain ⟨n, hn⟩ : ∃ n, digit? c = some n :=
      Option.isSome_iff_exists.mp (by simpa [isDigit] using h.2)
    obtain ⟨hchar, hn16⟩ := digitChar_of_digit? hn
    have hvalue : value (text ++ [c]) = value text * 16 + n := by
      rw [value_append_digit, hn]
      rfl
    have hdiv : (value text * 16 + n) / 16 = value text := by omega
    have hmod : (value text * 16 + n) % 16 = n := by omega
    refine ⟨?_, ?_⟩
    · rw [length_append, length_singleton, digits, hvalue, hdiv, hmod, hdigits, ← hchar]
    · rw [hvalue, length_append, length_singleton, Nat.pow_succ]
      omega

theorem digits_zero (width : Nat) : digits width 0 = List.replicate width '0' := by
  induction width with
  | zero => rfl
  | succ width ih =>
    rw [digits, Nat.zero_div, ih, replicate_succ']
    rfl

/-- A formatter prints exactly the digits of a number that fits. -/
theorem format_eq_digits (hpos : 0 < width) (h : n < 16 ^ width) :
    format width n = digits width n := by
  induction width generalizing n with
  | zero => omega
  | succ width ih =>
    rw [format, natural, digits]
    by_cases hsmall : n < 16
    · rw [if_pos hsmall, Nat.div_eq_of_lt hsmall, digits_zero, Nat.mod_eq_of_lt hsmall]
      rfl
    · have hquotient : n / 16 < 16 ^ width := by
        omega
      have hwidth : 0 < width := by
        rcases Nat.eq_zero_or_pos width with rfl | hwidth
        · omega
        · exact hwidth
      rw [if_neg hsmall, ← ih hwidth hquotient, format, length_append, length_singleton,
        Nat.add_sub_add_right, append_assoc]

end Hex
