import Mathlib.Algebra.Order.Floor.Div
import Mathlib.Data.Nat.Notation
import Mathlib.Algebra.Order.Group.Nat
import Mathlib.Order.Lattice.Nat

/-!
# A list in blocks

A list is cut into blocks of a given size; the last one may be shorter.
-/

namespace Blocks

universe u

variable {α : Type u} {size k n : ℕ} {xs : List α}

/-- Block `k` of a list. -/
def block (size : ℕ) (xs : List α) (k : ℕ) : List α :=
  (xs.drop (k * size)).take size

theorem length_block :
    (block size xs k).length = min size (xs.length - k * size) := by
  rw [block, List.length_take, List.length_drop]

theorem length_block_le : (block size xs k).length ≤ size := by
  rw [length_block]
  exact min_le_left _ _

theorem block_eq_nil_iff (hsize : 0 < size) :
    block size xs k = [] ↔ xs.length ≤ k * size := by
  rw [← List.length_eq_zero_iff, length_block]
  omega

/-- The blocks before block `k`, and it. -/
theorem take_append_block :
    xs.take (k * size) ++ block size xs k = xs.take ((k + 1) * size) := by
  rw [block, Nat.succ_mul, ← List.take_add]

/-- A list has as many blocks as are needed to cover it. -/
theorem le_ceilDiv_mul (hsize : 0 < size) : n ≤ (n ⌈/⌉ size) * size := by
  rw [Nat.mul_comm]
  exact le_smul_ceilDiv hsize

theorem take_ceilDiv (hsize : 0 < size) :
    xs.take ((xs.length ⌈/⌉ size) * size) = xs :=
  List.take_of_length_le (le_ceilDiv_mul hsize)

theorem lt_ceilDiv_iff (hsize : 0 < size) :
    k < n ⌈/⌉ size ↔ k * size < n := by
  rw [← not_le, ceilDiv_le_iff_le_mul hsize, Nat.mul_comm, not_le]

theorem ceilDiv_pos_iff (hsize : 0 < size) : 0 < n ⌈/⌉ size ↔ 0 < n := by
  rw [lt_ceilDiv_iff hsize, Nat.zero_mul]

/-- Without its first block, a list that is not empty has one block less. -/
theorem succ_le_ceilDiv_iff (hsize : 0 < size) (hn : 0 < n) :
    k + 1 ≤ n ⌈/⌉ size ↔ k ≤ (n - size) ⌈/⌉ size := by
  cases k with
  | zero =>
      have hpos : 0 + 1 ≤ n ⌈/⌉ size := (ceilDiv_pos_iff hsize).mpr hn
      exact iff_of_true hpos (Nat.zero_le _)
  | succ k =>
      rw [Nat.succ_le_iff, Nat.succ_le_iff, lt_ceilDiv_iff hsize,
        lt_ceilDiv_iff hsize, Nat.succ_mul, Nat.lt_sub_iff_add_lt]

/-- With a remainder, there is one block more than the full ones. -/
theorem ceilDiv_eq (hsize : 0 < size) :
    n ⌈/⌉ size = if n % size = 0 then n / size else n / size + 1 := by
  apply eq_of_forall_lt_iff
  intro k
  rw [lt_ceilDiv_iff hsize]
  by_cases hmod : n % size = 0
  · rw [if_pos hmod]
    obtain ⟨q, rfl⟩ := Nat.dvd_of_mod_eq_zero hmod
    rw [Nat.mul_div_cancel_left q hsize, Nat.mul_comm size q]
    exact Nat.mul_lt_mul_right hsize
  · rw [if_neg hmod, Nat.lt_succ_iff, Nat.le_div_iff_mul_le hsize]
    have hne : k * size ≠ n := by
      rintro rfl
      exact hmod (Nat.mul_mod_left k size)
    exact ⟨le_of_lt, fun hle => lt_of_le_of_ne hle hne⟩

/-- The last block is a full one, or it has the length of the remainder. -/
theorem length_last_block (hsize : 0 < size)
    (hk : xs.length ⌈/⌉ size = k + 1) :
    (block size xs k).length =
      if xs.length % size = 0 then size else xs.length % size := by
  rw [ceilDiv_eq hsize] at hk
  have hsplit := Nat.mod_add_div' xs.length size
  by_cases hmod : xs.length % size = 0
  · rw [if_pos hmod] at hk ⊢
    rw [hk, hmod, Nat.succ_mul] at hsplit
    rw [length_block]
    omega
  · rw [if_neg hmod] at hk ⊢
    rw [Nat.succ.inj hk] at hsplit
    have hlt := Nat.mod_lt xs.length hsize
    rw [length_block]
    omega

end Blocks
