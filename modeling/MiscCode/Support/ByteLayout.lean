import Mathlib.Algebra.Order.Group.Nat
import Mathlib.Data.Nat.Notation
import Mathlib.Tactic.Linarith
import Mathlib.Tactic.Positivity

/-!
# Bytes in place

A buffer is a list of which parts are written and read at their offsets.  A part
keeps what was last written to it: writes elsewhere leave it alone.  Numbers are
laid out with their low byte first.
-/

namespace ByteLayout

universe u

/-! ## Writing in place -/

section Put

variable {α : Type u} {buf xs ys : List α} {i j n : ℕ}

/-- The list `xs` in place of the elements from `i` on. -/
def put (buf : List α) (i : ℕ) (xs : List α) : List α :=
  buf.take i ++ xs ++ buf.drop (i + xs.length)

/-- The `n` elements from `i` on. -/
def part (buf : List α) (i n : ℕ) : List α :=
  (buf.drop i).take n

theorem length_put (h : i + xs.length ≤ buf.length) :
    (put buf i xs).length = buf.length := by
  rw [put, List.length_append, List.length_append, List.length_take,
    List.length_drop]
  omega

theorem put_zero (buf xs : List α) :
    put buf 0 xs = xs ++ buf.drop xs.length := by
  rw [put, List.take_zero, List.nil_append, Nat.zero_add]

theorem put_nil (buf : List α) (i : ℕ) : put buf i [] = buf := by
  rw [put, List.append_nil]
  exact List.take_append_drop i buf

/-- The element at `k` comes from the write that covers it. -/
theorem getElem?_put (h : i ≤ buf.length) (k : ℕ) :
    (put buf i xs)[k]? =
      if i ≤ k ∧ k < i + xs.length then xs[k - i]? else buf[k]? := by
  have hfront : (buf.take i).length = i := by
    rw [List.length_take]
    omega
  rw [put, List.append_assoc]
  by_cases hlow : k < i
  · rw [List.getElem?_append_left (by omega), List.getElem?_take_of_lt hlow,
      if_neg (by omega)]
  · rw [List.getElem?_append_right (by omega), hfront]
    by_cases hhigh : k < i + xs.length
    · rw [List.getElem?_append_left (by omega), if_pos (by omega)]
    · rw [List.getElem?_append_right (by omega), List.getElem?_drop,
        if_neg (by omega)]
      congr 1
      omega

theorem getElem?_part (buf : List α) (i n k : ℕ) :
    (part buf i n)[k]? = if k < n then buf[i + k]? else none := by
  rw [part, List.getElem?_take, List.getElem?_drop]

/-- A part holds what is written to it. -/
theorem part_put_self (h : i + xs.length ≤ buf.length) :
    part (put buf i xs) i xs.length = xs := by
  have hfront : (buf.take i).length = i := by
    rw [List.length_take]
    omega
  rw [part, put, List.append_assoc, List.drop_left' hfront]
  exact List.take_left' rfl

/-- A part is left alone by a write next to it. -/
theorem part_put_of_disjoint (hi : i ≤ buf.length)
    (h : i + xs.length ≤ j ∨ j + n ≤ i) :
    part (put buf i xs) j n = part buf j n := by
  apply List.ext_getElem?
  intro k
  rw [getElem?_part, getElem?_part]
  split
  next hk => rw [getElem?_put hi, if_neg (by omega)]
  next => rfl

/-- A part of the front of a longer buffer. -/
theorem part_append_of_le (h : i + n ≤ buf.length) (ys : List α) :
    part (buf ++ ys) i n = part buf i n := by
  unfold part
  rw [List.drop_append_of_le_length (by omega), List.take_append_of_le_length]
  rw [List.length_drop]
  omega

/-- A part in front of what is behind it. -/
theorem part_append_drop (buf : List α) (i n : ℕ) :
    part buf i n ++ buf.drop (i + (part buf i n).length) = buf.drop i := by
  have hprefix : part buf i n <+: buf.drop i := List.take_prefix _ _
  rw [← List.drop_drop]
  exact List.prefix_iff_eq_append.mp hprefix

/-- A write beyond the end makes the buffer longer. -/
theorem le_length_put (h : i ≤ buf.length) :
    i + xs.length ≤ (put buf i xs).length := by
  rw [put, List.length_append, List.length_append, List.length_take]
  omega

/-- Two writes in a row are one. -/
theorem put_put (h : i ≤ buf.length) :
    put (put buf i xs) (i + xs.length) ys = put buf i (xs ++ ys) := by
  have hfront : (buf.take i ++ xs).length = i + xs.length := by
    rw [List.length_append, List.length_take]
    omega
  unfold put
  rw [List.take_left' hfront, ← List.drop_drop, List.drop_left' hfront,
    List.drop_drop, List.length_append, Nat.add_assoc, List.append_assoc _ xs]

end Put

/-! ## Numbers with their low byte first -/

section LittleEndian

variable {w : ℕ} {v : ℤ}

/-- The `w` bytes of a number; what they do not hold is dropped. -/
def leBytes : ℕ → ℤ → List UInt8
  | 0, _ => []
  | w + 1, v => UInt8.ofInt v :: leBytes w (v / 256)

/-- The natural number that bytes hold. -/
def leNat : List UInt8 → ℕ
  | [] => 0
  | b :: bs => b.toNat + 256 * leNat bs

/-- The signed number that bytes hold. -/
def leInt (bs : List UInt8) : ℤ :=
  (leNat bs : ℤ).bmod (256 ^ bs.length)

@[simp] theorem length_leBytes (w : ℕ) (v : ℤ) : (leBytes w v).length = w := by
  induction w generalizing v with
  | zero => rfl
  | succ w ih => rw [leBytes, List.length_cons, ih]

theorem leNat_leBytes (w : ℕ) (v : ℤ) :
    (leNat (leBytes w v) : ℤ) = v % 256 ^ w := by
  induction w generalizing v with
  | zero => rw [pow_zero, Int.emod_one]; rfl
  | succ w ih =>
      have hbyte : ((UInt8.ofInt v).toNat : ℤ) = v % 256 := by
        unfold UInt8.ofInt
        rw [UInt8.toNat_ofNat']
        omega
      have hpow : (0 : ℤ) < 256 ^ w := by positivity
      have hdiv := Int.emod_add_mul_ediv v 256
      have hrest := Int.emod_add_mul_ediv (v / 256) (256 ^ w)
      have hlow := Int.emod_nonneg (v / 256) hpow.ne'
      have hhigh := Int.emod_lt_of_pos (v / 256) hpow
      have hdigit := Int.emod_nonneg v (b := 256) (by omega)
      have hdigit' := Int.emod_lt_of_pos v (b := 256) (by omega)
      have hunique : v / 256 ^ (w + 1) = v / 256 / 256 ^ w ∧
          v % 256 ^ (w + 1) = v % 256 + 256 * (v / 256 % 256 ^ w) := by
        rw [Int.ediv_emod_unique (by positivity), pow_succ']
        exact ⟨by linarith, by linarith, by linarith⟩
      rw [leBytes, leNat, Nat.cast_add, Nat.cast_mul, ih, hbyte, hunique.2]
      rfl

/-- A number that its bytes can hold is read back. -/
theorem leInt_leBytes (hlow : -256 ^ w ≤ 2 * v) (hhigh : 2 * v < 256 ^ w) :
    leInt (leBytes w v) = v := by
  have hcast : (256 : ℤ) ^ w = ((256 ^ w : ℕ) : ℤ) := by push_cast; rfl
  rw [leInt, length_leBytes, leNat_leBytes, hcast, Int.emod_bmod]
  rw [hcast] at hlow hhigh
  exact Int.bmod_eq_of_le_mul_two (by linarith) (by linarith)

end LittleEndian

end ByteLayout
