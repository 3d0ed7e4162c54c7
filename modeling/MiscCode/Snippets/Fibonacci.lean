import MiscCode.Snippets.Model
import Mathlib.Algebra.BigOperators.Intervals
import Mathlib.Data.Nat.Fib.Basic

/-!
# The sum of Fibonacci numbers

The loop of `consecutiveFibonacciSum` moves a window of two neighbouring
Fibonacci numbers along, and adds the second one up from the index `a` on.
Reducing the exact sum once gives what the wrapping additions give.
-/

namespace MiscCode
namespace Snippets

open Fuel WhileLoop

variable {a b : Int32} {k m n : ℕ}

/-! ## Exact sums -/

/-- The Fibonacci numbers `F_i` with `m ≤ i < n`, added up. -/
def fibSum (m n : ℕ) : ℕ :=
  ∑ i ∈ Finset.Ico m n, Nat.fib i

theorem fibSum_of_le (h : n ≤ m) : fibSum m n = 0 := by
  unfold fibSum
  rw [Finset.Ico_eq_empty_of_le h, Finset.sum_empty]

theorem fibSum_succ (h : m ≤ n) : fibSum m (n + 1) = fibSum m n + Nat.fib n :=
  Finset.sum_Ico_succ_top h Nat.fib

/-- The sum telescopes. -/
theorem fibSum_add_fib (h : m ≤ n) :
    fibSum m n + Nat.fib (m + 1) = Nat.fib (n + 1) := by
  induction n, h using Nat.le_induction with
  | base => rw [fibSum_of_le le_rfl, Nat.zero_add]
  | succ n hmn ih =>
      calc fibSum m (n + 1) + Nat.fib (m + 1)
          = Nat.fib n + (fibSum m n + Nat.fib (m + 1)) := by
            rw [fibSum_succ hmn]
            omega
        _ = Nat.fib (n + 2) := by rw [ih, ← Nat.fib_add_two]

/-! ## The window -/

/-- The index from which on the numbers are added up. -/
def start (a : Int32) : ℕ :=
  (max a.toInt 1).toNat

theorem start_le_iff (hk : k + 1 < 2 ^ 31) :
    start a ≤ k + 1 ↔ a ≤ Int32.ofNat (k + 1) := by
  rw [Int32.le_iff_toInt_le, Int32.toInt_ofNat_of_lt hk]
  unfold start
  omega

/-- The numbers `F_1` to `F_k` as they are printed. -/
def printed (k : ℕ) : List Int32 :=
  (List.range k).map fun i => Int32.ofNat (Nat.fib (i + 1))

theorem printed_succ :
    printed (k + 1) = printed k ++ [Int32.ofNat (Nat.fib (k + 1))] := by
  unfold printed
  rw [List.range_succ, List.map_append, List.map_singleton]

/-- The window after `k` turns. -/
structure Slid (a b : Int32) (w : Window) (k : ℕ) : Prop where
  i : w.i = Int32.ofNat (k + 1)
  c : w.c = Int32.ofNat (Nat.fib k)
  d : w.d = Int32.ofNat (Nat.fib (k + 1))
  ans : w.ans = Int32.ofNat (fibSum (start a) (k + 1))
  out : w.out = printed k
  le : k ≤ b.toInt.toNat - 1

theorem lt_iff_of_le (hk : k ≤ b.toInt.toNat - 1) :
    Int32.ofNat (k + 1) < b ↔ k < b.toInt.toNat - 1 := by
  have hb := Int32.toInt_lt b
  rw [Int32.lt_iff_toInt_lt, Int32.toInt_ofNat_of_lt (by omega)]
  omega

/-- A turn moves the window along. -/
theorem Slid.turn {w : Window} (hw : Slid a b w k)
    (hlt : k < b.toInt.toNat - 1) :
    ∃ w', fibonacciTurn a b w = .ok (.again w') ∧ Slid a b w' (k + 1) := by
  have hb := Int32.toInt_lt b
  have hfib : w.c + w.d = Int32.ofNat (Nat.fib (k + 2)) := by
    rw [hw.c, hw.d, Nat.fib_add_two, Int32.ofNat_add]
  have hmore : w.i < b := hw.i ▸ (lt_iff_of_le hw.le).mpr hlt
  refine ⟨_, if_pos hmore, ?_, hw.d, hfib, ?_, ?_, hlt⟩
  · rw [hw.i]
    exact (Int32.ofNat_add (k + 1) 1).symm
  · have hstart := start_le_iff (a := a) (k := k) (by omega)
    change (if a ≤ w.i then w.ans + w.d else w.ans) = _
    rw [hw.i, hw.ans, hw.d]
    by_cases ha : start a ≤ k + 1
    · rw [if_pos (hstart.mp ha), fibSum_succ ha, Int32.ofNat_add]
    · rw [if_neg (mt hstart.mpr ha), fibSum_of_le (by omega),
        fibSum_of_le (by omega)]
  · change w.out ++ [w.d] = _
    rw [hw.out, hw.d, printed_succ]

theorem consecutiveFibonacciSum_ends (a b : Int32) :
    EndsIn .outOfFuel (fun fuel => consecutiveFibonacciSum fuel a b)
      (.ok (printed (b.toInt.toNat - 1),
        Int32.ofNat (fibSum (start a) b.toInt.toNat))) := by
  have hstart : 1 ≤ start a := by
    unfold start
    omega
  have hends : ∃ r, EndsIn .outOfFuel
      (fun fuel => consecutiveFibonacciSum fuel a b) (.ok r) ∧
      r = (printed (b.toInt.toNat - 1),
        Int32.ofNat (fibSum (start a) b.toInt.toNat)) := by
    apply loop_ends (steady_const (fibonacciTurn a b))
      (fun v w => ∃ k, Slid a b w k ∧ b.toInt.toNat - 1 - k = v)
    · rintro _ w ⟨k, hw, rfl⟩
      by_cases hlt : k < b.toInt.toNat - 1
      · obtain ⟨w', hturn, hw'⟩ := hw.turn hlt
        exact ⟨.again w', .of_ok (n := 0) hturn, _, by omega, k + 1, hw', rfl⟩
      · have hk : k = b.toInt.toNat - 1 := by
          have := hw.le
          omega
        have hsum : fibSum (start a) (k + 1) =
            fibSum (start a) b.toInt.toNat := by
          rcases Nat.eq_zero_or_pos b.toInt.toNat with hb | hb
          · rw [fibSum_of_le (by omega), fibSum_of_le (by omega)]
          · rw [hk, Nat.sub_add_cancel hb]
        refine ⟨_, .of_ok (n := 0) (if_neg ?_), ?_⟩
        · rw [hw.i]
          exact mt (lt_iff_of_le hw.le).mp hlt
        · change (w.out, w.ans) = _
          rw [hw.out, hw.ans, hsum, hk]
    · refine ⟨0, ⟨rfl, rfl, rfl, ?_, rfl, Nat.zero_le _⟩, rfl⟩
      rw [fibSum_of_le hstart]
      rfl
  obtain ⟨r, hr, rfl⟩ := hends
  exact hr

/-- `consecutiveFibonacciSum` answers the sum of the Fibonacci numbers from
`max a 1` up to but without `b`, reduced to an `int`, and this sum is the
difference of two Fibonacci numbers. -/
theorem consecutiveFibonacciSum_eq (a b : Int32) :
    (∃ out, EndsIn .outOfFuel (fun fuel => consecutiveFibonacciSum fuel a b)
      (.ok (out, Int32.ofNat
        (∑ i ∈ Finset.Ico (max a.toInt 1).toNat b.toInt.toNat, Nat.fib i)))) ∧
    Int32.ofNat
        (∑ i ∈ Finset.Ico (max a.toInt 1).toNat b.toInt.toNat, Nat.fib i) =
      if max a.toInt 1 < b.toInt then
        Int32.ofInt (Nat.fib (b.toInt.toNat + 1) -
          Nat.fib ((max a.toInt 1).toNat + 1))
      else 0 := by
  refine ⟨⟨_, consecutiveFibonacciSum_ends a b⟩, ?_⟩
  change Int32.ofNat (fibSum (start a) b.toInt.toNat) =
    if _ then Int32.ofInt (_ - Nat.fib (start a + 1)) else _
  by_cases hlt : max a.toInt 1 < b.toInt
  · have hle : start a ≤ b.toInt.toNat := by
      unfold start
      omega
    have htele := fibSum_add_fib hle
    rw [if_pos hlt, ← Int32.ofInt_eq_ofNat]
    congr 1
    omega
  · have hle : b.toInt.toNat ≤ start a := by
      unfold start
      omega
    rw [if_neg hlt, fibSum_of_le hle]
    rfl

/-- From `F_3 = 2` to `F_6 = 8`. -/
example : (consecutiveFibonacciSum 7 3 7).toOption =
    some ([1, 1, 2, 3, 5, 8], 18) := by
  decide

end Snippets
end MiscCode
