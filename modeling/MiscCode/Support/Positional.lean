import Mathlib.Algebra.BigOperators.Intervals
import Mathlib.Data.Nat.Digits.Lemmas
import Mathlib.Tactic.Ring
import Mathlib.Tactic.Linarith

/-!
# Positional numerals

Digits of natural numbers in an arbitrary base, by weight.  The column lemmas
are the arithmetic of every schoolbook loop: a running total takes one more
column, the new carry and the new digit come from the old carry and the
column alone.
-/

namespace Positional

open Finset

variable {B m n k w c d : ℕ}

/-! ## Digits by weight -/

/-- The digit of `m` at weight `B ^ w`. -/
def digit (B m w : ℕ) : ℕ := m / B ^ w % B

theorem digit_lt (hB : 0 < B) (m w : ℕ) : digit B m w < B :=
  Nat.mod_lt _ hB

@[simp] theorem digit_zero (B w : ℕ) : digit B 0 w = 0 := by
  simp [digit]

theorem digit_eq_zero_of_lt (h : m < B ^ w) : digit B m w = 0 := by
  rw [digit, Nat.div_eq_of_lt h, Nat.zero_mod]

/-- The top digit of a numeral that fits into `w + 1` digits. -/
theorem digit_eq_div_of_lt (h : m < B ^ (w + 1)) : digit B m w = m / B ^ w := by
  apply Nat.mod_eq_of_lt
  apply Nat.div_lt_of_lt_mul
  rwa [pow_succ] at h

theorem mod_pow_succ (B m w : ℕ) :
    m % B ^ (w + 1) = m % B ^ w + digit B m w * B ^ w := by
  rw [Nat.mod_pow_succ, digit, Nat.mul_comm]

/-- Shifting one place left brings the next digit in. -/
theorem div_pow_eq (B m w : ℕ) :
    m / B ^ w = m / B ^ (w + 1) * B + digit B m w := by
  rw [digit, pow_succ, ← Nat.div_div_eq_div_mul]
  exact (Nat.div_add_mod' _ _).symm

theorem digit_mod_pow (hwk : w < k) : digit B (m % B ^ k) w = digit B m w := by
  obtain ⟨j, rfl⟩ := Nat.exists_eq_add_of_lt hwk
  have hsplit : B ^ (w + j + 1) = B ^ w * (B * B ^ j) := by ring
  rw [digit, digit, hsplit, Nat.mod_mul_right_div_self,
    Nat.mod_mul_right_mod]

theorem digit_mul_pow (hB : 0 < B) (m c w : ℕ) :
    digit B (m * B ^ c) w = if w < c then 0 else digit B m (w - c) := by
  split
  next hwc =>
    obtain ⟨j, rfl⟩ := Nat.exists_eq_add_of_lt hwc
    have hsplit : m * B ^ (w + j + 1) = m * B ^ j * B * B ^ w := by ring
    rw [digit, hsplit, Nat.mul_div_cancel _ (pow_pos hB w),
      Nat.mul_mod_left]
  next hwc =>
    obtain ⟨j, rfl⟩ := Nat.exists_eq_add_of_le (Nat.le_of_not_lt hwc)
    rw [digit, digit, pow_add, Nat.mul_comm (B ^ c),
      Nat.mul_div_mul_right _ _ (pow_pos hB c), Nat.add_sub_cancel_left]

/-- A new top digit leaves the others alone. -/
theorem digit_add_mul_pow (hm : m < B ^ k) (hd : d < B) (w : ℕ) :
    digit B (m + d * B ^ k) w = if w = k then d else digit B m w := by
  have hB : 0 < B := Nat.zero_lt_of_lt hd
  rcases lt_trichotomy w k with hwk | rfl | hkw
  · rw [if_neg hwk.ne, ← digit_mod_pow hwk, Nat.add_mul_mod_self_right,
      digit_mod_pow hwk]
  · rw [if_pos rfl, digit, Nat.add_mul_div_right _ _ (pow_pos hB w),
      Nat.div_eq_of_lt hm, Nat.zero_add, Nat.mod_eq_of_lt hd]
  · have hlow : m < B ^ w :=
      lt_of_lt_of_le hm (Nat.pow_le_pow_right hB hkw.le)
    have htotal : m + d * B ^ k < B ^ w := by
      calc
        m + d * B ^ k < B ^ k + d * B ^ k := by omega
        _ = (d + 1) * B ^ k := by ring
        _ ≤ B * B ^ k := Nat.mul_le_mul_right _ hd
        _ = B ^ (k + 1) := by ring
        _ ≤ B ^ w := Nat.pow_le_pow_right hB hkw
    rw [if_neg hkw.ne', digit_eq_zero_of_lt htotal, digit_eq_zero_of_lt hlow]

/-! ## Numerals as sums of weighted digits -/

theorem sum_digit (B m k : ℕ) :
    ∑ w ∈ range k, digit B m w * B ^ w = m % B ^ k := by
  induction k with
  | zero => simp [Nat.mod_one]
  | succ k ih => rw [sum_range_succ, ih, mod_pow_succ]

theorem sum_lt (f : ℕ → ℕ) (hf : ∀ w < k, f w < B) :
    ∑ w ∈ range k, f w * B ^ w < B ^ k := by
  induction k with
  | zero => simp
  | succ k ih =>
      have hlow := ih fun w hw => hf w (by omega)
      have htop : (f k + 1) * B ^ k ≤ B * B ^ k :=
        Nat.mul_le_mul_right _ (hf k (by omega))
      rw [sum_range_succ, pow_succ']
      linarith

/-- A sum of weighted digits has the digits it was built from. -/
theorem digit_sum (f : ℕ → ℕ) (hf : ∀ w < k, f w < B) (hw : w < k) :
    digit B (∑ v ∈ range k, f v * B ^ v) w = f w := by
  induction k with
  | zero => omega
  | succ k ih =>
      have hlow : ∀ v < k, f v < B := fun v hv => hf v (by omega)
      rw [sum_range_succ,
        digit_add_mul_pow (sum_lt f hlow) (hf k (by omega))]
      split
      next h => rw [h]
      next h => exact ih hlow (by omega)

/-- Numerals of bounded length are determined by their digits. -/
theorem eq_of_digit_eq (hm : m < B ^ k) (hn : n < B ^ k)
    (h : ∀ w < k, digit B m w = digit B n w) : m = n := by
  rw [← Nat.mod_eq_of_lt hm, ← Nat.mod_eq_of_lt hn, ← sum_digit, ← sum_digit]
  exact sum_congr rfl fun w hw => by rw [h w (mem_range.mp hw)]

/-! ## One column of a schoolbook loop

`f` is the total of the columns below weight `B ^ k` and `x` the column at
that weight.
-/

/-- The carry out of a column. -/
theorem column_div (hB : 0 < B) (f x k : ℕ) :
    (f + x * B ^ k) / B ^ (k + 1) = (x + f / B ^ k) / B := by
  rw [pow_succ, ← Nat.div_div_eq_div_mul,
    Nat.add_mul_div_right _ _ (pow_pos hB k), Nat.add_comm x]

/-- The digits written so far, one column later. -/
theorem column_mod (hB : 0 < B) (f x k : ℕ) :
    (f + x * B ^ k) % B ^ (k + 1) =
      f % B ^ k + (x + f / B ^ k) % B * B ^ k := by
  rw [mod_pow_succ, Nat.add_mul_mod_self_right, digit,
    Nat.add_mul_div_right _ _ (pow_pos hB k), Nat.add_comm x]

/-! ## Number of significant digits -/

/-- The number of significant digits; zero has none. -/
def width (B m : ℕ) : ℕ := (Nat.digits B m).length

@[simp] theorem width_zero (B : ℕ) : width B 0 = 0 := by
  simp [width]

theorem width_le_iff (hB : 1 < B) : width B m ≤ k ↔ m < B ^ k :=
  Nat.digits_length_le_iff hB m

theorem lt_width_iff (hB : 1 < B) : k < width B m ↔ B ^ k ≤ m := by
  rw [← Nat.not_le, width_le_iff hB, Nat.not_lt]

theorem width_eq_succ (hB : 1 < B) (hlow : B ^ k ≤ m) (hhigh : m < B ^ (k + 1)) :
    width B m = k + 1 :=
  Nat.le_antisymm ((width_le_iff hB).mpr hhigh) ((lt_width_iff hB).mpr hlow)

theorem width_pos (hB : 1 < B) (hm : 0 < m) : 0 < width B m := by
  rw [lt_width_iff hB, pow_zero]
  exact hm

end Positional
