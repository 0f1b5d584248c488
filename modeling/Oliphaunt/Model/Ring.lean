import Mathlib.Data.Nat.ModEq
import Mathlib.Tactic.Common

/-!
# Ring buffers over an unbounded stream

A ring of `cap` cells is a memory `Nat → α` of which only the cells below
`cap` are used. The reader and the writer are described by two *positions in
the whole stream*, `R ≤ W < R + cap`; what the implementation stores are the
cell numbers `R % cap` and `W % cap`.

* `Holds mem cap stream R W` — the cells between the two positions carry the
  stream between the two positions;
* `offset_cases` — how `W - R` is computed from the two cell numbers;
* `holds_blit` / `slice_of_holds` — a contiguous write of the next items of
  the stream extends the window, a contiguous read inside it returns them.
-/

namespace Ring

universe u

variable {α : Type u}

/-- Overwrite the cells from `base` on with `xs`. -/
def blit (mem : Nat → α) (base : Nat) (xs : List α) : Nat → α := fun i =>
  if base ≤ i then (xs[i - base]?).getD (mem i) else mem i

/-- The `n` cells from `base` on. -/
def slice (mem : Nat → α) (base n : Nat) : List α :=
  (List.range n).map fun i => mem (base + i)

/-- The cells of the ring between the positions `R` and `W` carry `stream`. -/
def Holds (mem : Nat → α) (cap : Nat) (stream : List α) (R W : Nat) : Prop :=
  ∀ k, R ≤ k → k < W → stream[k]? = some (mem (k % cap))

@[simp] theorem slice_length (mem : Nat → α) (base n : Nat) :
    (slice mem base n).length = n := by
  simp [slice]

variable {mem : Nat → α} {i : Nat} {xs : List α} {base n : Nat}

theorem blit_of_lt (h : i < base ∨ base + xs.length ≤ i) : blit mem base xs i = mem i := by
  unfold blit
  split
  · have hnone : xs[i - base]? = none := by
      rw [List.getElem?_eq_none_iff]
      omega
    rw [hnone]
    rfl
  · rfl

theorem blit_of_mem (h : i < xs.length) : some (blit mem base xs (base + i)) = xs[i]? := by
  unfold blit
  rw [if_pos (Nat.le_add_right base i), Nat.add_sub_cancel_left,
    List.getElem?_eq_getElem h]
  rfl

variable {cap : Nat}

/-- Positions less than one lap apart have different cell numbers. -/
theorem mod_ne_of_lt (hkl : k < l) (hl : l < k + cap) : k % cap ≠ l % cap := by
  intro h
  have hdvd : cap ∣ l - k := (Nat.modEq_iff_dvd' (Nat.le_of_lt hkl)).mp h
  have := Nat.le_of_dvd (by omega) hdvd
  omega

variable {R W : Nat}

/-- The distance of the two positions, read off their cell numbers. -/
theorem offset_cases (hRW : R ≤ W) (hW : W < R + cap) :
    (R % cap ≤ W % cap ∧ W - R = W % cap - R % cap) ∨
      (W % cap < R % cap ∧ W - R + R % cap = cap + W % cap) := by
  have hcap : 0 < cap := by omega
  have hR := Nat.mod_lt R hcap
  have hdiv := Nat.div_add_mod R cap
  -- the writer is in the reader's lap or in the next one
  by_cases hlap : R % cap + (W - R) < cap
  · have hmod : W % cap = R % cap + (W - R) := by
      have hW' : W = (R % cap + (W - R)) + cap * (R / cap) := by omega
      calc W % cap = ((R % cap + (W - R)) + cap * (R / cap)) % cap := by rw [← hW']
        _ = (R % cap + (W - R)) % cap := Nat.add_mul_mod_self_left _ _ _
        _ = R % cap + (W - R) := Nat.mod_eq_of_lt hlap
    omega
  · have hmod : W % cap = R % cap + (W - R) - cap := by
      have hmul : cap * (R / cap + 1) = cap * (R / cap) + cap := Nat.mul_succ _ _
      have hW' : W = (R % cap + (W - R) - cap) + cap * (R / cap + 1) := by omega
      calc W % cap
          = ((R % cap + (W - R) - cap) + cap * (R / cap + 1)) % cap := by rw [← hW']
        _ = (R % cap + (W - R) - cap) % cap := Nat.add_mul_mod_self_left _ _ _
        _ = R % cap + (W - R) - cap := Nat.mod_eq_of_lt (by omega)
    omega

theorem mod_eq_iff (hRW : R ≤ W) (hW : W < R + cap) :
    R % cap = W % cap ↔ R = W := by
  constructor
  · intro h
    by_contra hne
    exact mod_ne_of_lt (by omega) hW h
  · rintro rfl
    rfl

/-- A contiguous stretch of positions stays contiguous in cell numbers as long
as it does not cross the end of the ring. -/
theorem mod_add_of_le (hi : i < n) (hn : P % cap + n ≤ cap) : (P + i) % cap = P % cap + i := by
  rw [Nat.add_mod, Nat.mod_eq_of_lt (show i < cap by omega)]
  exact Nat.mod_eq_of_lt (by omega)

variable {stream : List α}

theorem Holds.mono (h : Holds mem cap stream R W) (hR : R ≤ R') (hW : W' ≤ W) :
    Holds mem cap stream R' W' := by
  intro k hk hkW
  exact h k (by omega) (by omega)

/-- A contiguous write of the next items of the stream extends the window. -/
theorem holds_blit (h : Holds mem cap stream R W)
    (hfit : W % cap + xs.length ≤ cap)
    (hfree : W + xs.length < R + cap)
    (hxs : ∀ i < xs.length, xs[i]? = stream[W + i]?) :
    Holds (blit mem (W % cap) xs) cap stream R (W + xs.length) := by
  intro k hRk hkW
  by_cases hold : k < W
  · -- an item already in the window: its cell is not among the new ones
    rw [blit_of_lt]
    · exact h k hRk hold
    · by_contra hin
      have hi : k % cap - W % cap < xs.length := by omega
      have hcell := mod_add_of_le (P := W) hi hfit
      have hne : k % cap ≠ (W + (k % cap - W % cap)) % cap :=
        mod_ne_of_lt (by omega) (by omega)
      omega
  · obtain ⟨i, rfl⟩ := Nat.exists_eq_add_of_le (Nat.le_of_not_lt hold)
    have hi : i < xs.length := by omega
    rw [mod_add_of_le hi hfit, blit_of_mem hi, hxs i hi]

/-- A contiguous read inside the window returns the stream. -/
theorem slice_of_holds (h : Holds mem cap stream R W) (hn : R + n ≤ W) (hfit : R % cap + n ≤ cap) :
    slice mem (R % cap) n = (stream.drop R).take n := by
  apply List.ext_getElem?
  intro i
  by_cases hi : i < n
  · have hcell := h (R + i) (by omega) (by omega)
    rw [mod_add_of_le hi hfit] at hcell
    rw [List.getElem?_take_of_lt hi, List.getElem?_drop, hcell]
    simp [slice, hi]
  · rw [List.getElem?_eq_none_iff.mpr (by simpa using hi),
      List.getElem?_eq_none_iff.mpr]
    have := List.length_take_le n (stream.drop R)
    omega

end Ring
