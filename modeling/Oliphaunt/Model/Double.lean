import Mathlib.Tactic.Common
import Mathlib.Algebra.Group.Nat.Defs

/-!
# Natural numbers as doubles

JavaScript computes with doubles, so a natural number from 2^53 on is rounded, and it is
printed with as few digits as tell it from the other doubles.

* `toDouble` — the nearest double; below 2^53 it does nothing (`toDouble_of_lt`);
* `lt_toDouble_iff` — a comparison with a number below 2^53 does not see the rounding;
* `numberText` — the text of a number.
-/

namespace Double

variable {n limit : Nat}

/-- A natural number as the nearest double, with ties to even. -/
def toDouble (n : Nat) : Nat :=
  if n < 2 ^ 53 then n
  else
    let unit := 2 ^ (n.log2 - 52)
    let quotient := n / unit
    if unit < 2 * (n % unit) ∨ unit = 2 * (n % unit) ∧ quotient % 2 = 1 then (quotient + 1) * unit
    else quotient * unit

theorem toDouble_of_lt (h : n < 2 ^ 53) : toDouble n = n := if_pos h

theorem le_toDouble (h : 2 ^ 53 ≤ n) : 2 ^ 53 ≤ toDouble n := by
  have hne : n ≠ 0 := by omega
  have hlog : 53 ≤ n.log2 := (Nat.le_log2 hne).mpr h
  have hunit : 2 ^ 53 ≤ n / 2 ^ (n.log2 - 52) * 2 ^ (n.log2 - 52) := by
    have hquotient : 2 ^ 52 ≤ n / 2 ^ (n.log2 - 52) := by
      rw [Nat.le_div_iff_mul_le (Nat.two_pow_pos _), ← Nat.pow_add,
        show 52 + (n.log2 - 52) = n.log2 by omega]
      exact Nat.log2_self_le hne
    calc 2 ^ 53 = 2 ^ 52 * 2 ^ 1 := rfl
      _ ≤ n / 2 ^ (n.log2 - 52) * 2 ^ (n.log2 - 52) :=
        Nat.mul_le_mul hquotient (Nat.pow_le_pow_right (by omega) (by omega))
  rw [toDouble, if_neg (Nat.not_lt.mpr h)]
  dsimp only
  split
  · exact Nat.le_trans hunit (Nat.mul_le_mul_right _ (Nat.le_succ _))
  · exact hunit

theorem lt_toDouble_iff (h : limit < 2 ^ 53) : limit < toDouble n ↔ limit < n := by
  by_cases hn : n < 2 ^ 53
  · rw [toDouble_of_lt hn]
  · have hle := le_toDouble (Nat.le_of_not_lt hn)
    omega

/-- The multiple of `unit` that is nearest to the double `n`, if one of the two next to it
rounds to `n`. -/
def nearestMultiple (n unit : Nat) : Option Nat :=
  let below := n / unit * unit
  let above := below + unit
  let candidates := if 2 * (n - below) ≤ unit then [below, above] else [above, below]
  candidates.find? fun m => toDouble m = n

/-- The text of a double below 10^21: the fewest digits that round to it, then zeros. -/
def numberText (n : Nat) : String :=
  toString (((List.range 21).reverse.findSome? fun e => nearestMultiple n (10 ^ e)).getD n)

example : numberText (toDouble (2 ^ 64 - 1)) = "18446744073709552000" := by decide +kernel

end Double
