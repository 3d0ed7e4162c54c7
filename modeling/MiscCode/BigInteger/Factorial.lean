import MiscCode.BigInteger.Contracts
import Mathlib.Data.Nat.Factorial.Basic

/-!
# The factorial

`fact` composes `==`, `-`, itself and `*`.  Each step hands on a canonical
number, and the last product may fill the array to its first cell: the lengths
of its factors total at most one more than the length of the product.
-/

namespace MiscCode
namespace BigInteger

open Positional

variable {N m n f : ℕ}

/-- Lower bound of a positive number of normal length. -/
theorem pow_normalLen_le (hm : 0 < m) : 10 ^ (normalLen m - 1) ≤ m := by
  by_contra h
  have hlt := Nat.lt_of_not_le h
  by_cases hone : normalLen m = 1
  · rw [hone, Nat.sub_self, pow_zero] at hlt
    omega
  · have hpos := one_le_normalLen m
    have := (normalLen_le_iff (by omega)).mpr hlt
    omega

theorem pow_normalLen_add_le (hm : 0 < m) (hn : 0 < n) :
    10 ^ (normalLen m + normalLen n - 2) ≤ m * n := by
  have hL := one_le_normalLen m
  have hK := one_le_normalLen n
  have hexp : normalLen m + normalLen n - 2 =
      (normalLen m - 1) + (normalLen n - 1) := by omega
  rw [hexp, pow_add]
  exact Nat.mul_le_mul (pow_normalLen_le hm) (pow_normalLen_le hn)

/-- The product of canonical numbers has no leading zeros. -/
theorem prodLen_normalLen (hm : 0 < m) (hn : 0 < n) :
    prodLen (normalLen m) (normalLen n) (m * n) = normalLen (m * n) := by
  have hL := one_le_normalLen m
  have hK := one_le_normalLen n
  have hlow := pow_normalLen_add_le hm hn
  have hhigh := mul_lt_pow (lt_pow_normalLen m) (lt_pow_normalLen n)
  rw [prodLen]
  split
  next h =>
    rw [normalLen_eq (k := normalLen m + normalLen n - 2) (Or.inr hlow)
      (by rwa [show normalLen m + normalLen n - 2 + 1 =
        normalLen m + normalLen n - 1 by omega])]
    omega
  next h =>
    rw [normalLen_eq (k := normalLen m + normalLen n - 1)
      (Or.inr (Nat.le_of_not_lt h))
      (by rwa [show normalLen m + normalLen n - 1 + 1 =
        normalLen m + normalLen n by omega])]
    omega

/-- Two canonical factors whose product fits are multiplied, whatever room is
left. -/
theorem mul_normalLen (hm : 0 < m) (hn : 0 < n) (hfit : m * n < 10 ^ N) :
    mul (f + 1) (encode N m (normalLen m) true)
        (encode N n (normalLen n) true) =
      .ok (encode N (m * n) (normalLen (m * n)) true) := by
  have hle : m < 10 ^ N :=
    lt_of_le_of_lt (Nat.le_mul_of_pos_right m hn) hfit
  have hle' : n < 10 ^ N :=
    lt_of_le_of_lt (Nat.le_mul_of_pos_left n hm) hfit
  have hN : 0 < N := by
    by_contra h
    obtain rfl : N = 0 := by omega
    rw [pow_zero] at hle
    omega
  have hlen : normalLen m + normalLen n - 1 ≤ N := by
    have := (Nat.pow_lt_pow_iff_right (a := 10) (by omega)).mp
      (lt_of_le_of_lt (pow_normalLen_add_le hm hn) hfit)
    omega
  rw [mul_encode (fits_normalLen ((normalLen_le_iff hN).mpr hle))
    (fits_normalLen ((normalLen_le_iff hN).mpr hle')),
    if_pos ⟨hlen, hfit⟩, prodLen_normalLen hm hn, Bool.and_true]

/-- `b - one` on a canonical `b` above one. -/
theorem sub_one_encode (hm : 1 ≤ m) (hmN : normalLen (m + 1) ≤ N) :
    sub (f + 1) (encode N (m + 1) (normalLen (m + 1)) true)
        (encode N 1 (1 : ℕ) true) =
      .ok (encode N m (normalLen m) true) := by
  have hfits := fits_normalLen hmN
  have hone : Fits N 1 1 := ⟨le_refl 1, by have := hfits.pos; omega, by norm_num⟩
  have hrank : Outranks (m + 1) (normalLen (m + 1)) 1 1 := by
    have hpos := one_le_normalLen (m + 1)
    by_cases hlen : normalLen (m + 1) = 1
    · refine Or.inr ⟨hlen, ?_⟩
      have hlt := lt_pow_normalLen (m + 1)
      rw [hlen] at hlt ⊢
      rw [firstDigit_eq (le_refl 1) hlt,
        firstDigit_eq (le_refl 1) (by norm_num), Nat.sub_self, pow_zero,
        Nat.div_one, Nat.div_one]
      omega
    · exact Or.inl (by omega)
  rw [sub_not_smaller hfits hone (Or.inl hrank),
    wrapSub_of_le (by omega) hfits.lt_pow, Nat.add_sub_cancel]

/-- `fact` on the canonical number for `n`, with a budget of `n` rounds. -/
theorem fact_encode (hn : 1 ≤ n) (hfit : n.factorial < 10 ^ N) :
    fact (f + n + 1) (encode N n (normalLen n) true) =
      .ok (encode N n.factorial (normalLen n.factorial) true) := by
  induction n, hn using Nat.le_induction with
  | base =>
      have hN : 0 < N := by
        by_contra h
        obtain rfl : N = 0 := by omega
        simp at hfit
      have hlt : 1 < 10 ^ N := by simpa using hfit
      rw [fact, ofInt_one hN, ok_bind,
        (eq_encode_iff hlt hlt).mpr ⟨rfl, rfl⟩, if_pos rfl]
      simp [normalLen_of_lt_ten]
  | succ n hn ih =>
      have hfact := Nat.factorial_pos n
      have hfit' : (n + 1) * n.factorial < 10 ^ N := hfit
      have hprev : n.factorial < 10 ^ N :=
        lt_of_le_of_lt (Nat.le_mul_of_pos_left _ (by omega)) hfit'
      have hlt : n + 1 < 10 ^ N :=
        lt_of_le_of_lt (Nat.le_mul_of_pos_right _ hfact) hfit'
      have hN : 0 < N := by
        by_contra h
        obtain rfl : N = 0 := by omega
        rw [pow_zero] at hlt
        omega
      have hne : ¬ ((encode N (n + 1) (normalLen (n + 1)) true).eq
          (encode N 1 1 true) = true) := by
        rw [eq_encode_iff hlt (by omega)]
        omega
      have hsub := sub_one_encode (f := f + n) hn
        ((normalLen_le_iff hN).mpr hlt)
      rw [Nat.cast_one] at hsub
      rw [show f + (n + 1) + 1 = f + n + 1 + 1 by omega, fact,
        ofInt_one hN, ok_bind, if_neg hne, hsub, ok_bind, ih hprev, ok_bind,
        mul_normalLen (by omega) hfact hfit', Nat.factorial_succ]

theorem fact_steadyAt (budget : ℕ) : ∀ b : BigInteger N,
    Fuel.SteadyAt .outOfFuel budget (fun fuel => fact fuel b) := by
  induction budget with
  | zero => exact fun b => Fuel.steadyAt_zero (by rw [fact])
  | succ budget ih =>
      intro b
      apply Fuel.SteadyAt.of_succ (fun n => by rw [fact])
      apply Fuel.SteadyAt.bind (Fuel.steadyAt_const _ _)
      intro one
      split
      · exact Fuel.steadyAt_const _ _
      · apply Fuel.SteadyAt.bind (sub_steady b one budget)
        intro less
        apply Fuel.SteadyAt.bind (ih less)
        intro rest
        exact mul_steady b rest budget

/-- For every capacity and every `n` whose factorial fits, `fact` ends on the
canonical number for `n`, inside the arrays, with the canonical number for the
factorial. -/
theorem fact_canonical {b : BigInteger N} (hb : b.Canonical) (hn : 1 ≤ n)
    (hvalue : b.value = n) (hfit : n.factorial < 10 ^ N) :
    ¬ LeavesArray (fun fuel => fact fuel b) ∧
      ∃ r, Returns (fun fuel => fact fuel b) r ∧ r.Canonical ∧
        r.value = n.factorial := by
  have hb' : b = encode N n (normalLen n) true := by
    rw [hb.eq_ofInteger, hvalue, ofInteger]
    simp
  have hN : 0 < N := by
    have hone := hb.one_le_len
    have hle := hb.len_le
    omega
  have hcall := fact_encode (f := 0) hn hfit
  rw [← hb'] at hcall
  obtain ⟨hreturns, hinside⟩ := returns_not_leavesArray
    (fun budget => fact_steadyAt budget b) hcall
  refine ⟨hinside, _, hreturns, ?_, ?_⟩
  · exact canonical_encode ((normalLen_le_iff hN).mpr hfit) fun _ => rfl
  · rw [value_encode hfit, if_pos rfl]

/-- `5!` fills an array of three digits. -/
theorem fact_canonical_five :
    ¬ LeavesArray (fun fuel => fact fuel (ofInteger 3 5)) ∧
      ∃ r, Returns (fun fuel => fact fuel (ofInteger 3 5)) r ∧ r.Canonical ∧
        r.value = Nat.factorial 5 :=
  fact_canonical (n := 5)
    (ofInteger_spec 1 (by decide) (by omega) (by omega)).1 (by omega)
    (ofInteger_spec 1 (by decide) (by omega) (by omega)).2.1 (by decide)

end BigInteger
end MiscCode
