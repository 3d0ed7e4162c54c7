import MiscCode.BigInteger.Forms

/-!
# What `shrink` leaves

`shrink` is there to cut the length down to the significant digits.  It counts
the zeros at the front of the whole array and takes them off the length, so it
does what it is there for at the length of the whole array.  A number that is
short already is left alone only if it fills at most half of the array, and
otherwise loses digits.
-/

namespace MiscCode
namespace BigInteger

open Positional

variable {N m L : ℕ} {l : ℤ} {s : Bool}

/-- The number of significant digits: the cells from the first one on that is
not zero. -/
def significantDigits (b : BigInteger N) : ℕ :=
  ((List.range N).dropWhile fun i => b.cell i = 0).length

/-- `r` is `b` with the length of its significant digits; zero has length 1. -/
structure Normalises (b r : BigInteger N) : Prop where
  arr : r.arr = b.arr
  isPositive : r.isPositive = b.isPositive
  len : r.len = max 1 b.significantDigits

/-! ## Significant digits -/

/-- The top digit of a numeral is not zero. -/
theorem digit_width_ne_zero {k : ℕ} (hk : width 10 m = k + 1) :
    digit 10 m k ≠ 0 := by
  have hlow : 10 ^ k ≤ m := (lt_width_iff (by omega)).mp (by omega)
  have hhigh : m < 10 ^ (k + 1) := (width_le_iff (by omega)).mp (by omega)
  have hdiv := Nat.div_pos hlow (by positivity)
  rw [digit_eq_div_of_lt hhigh]
  omega

theorem significantDigits_encode (hm : m < 10 ^ N) :
    (encode N m l s).significantDigits = width 10 m := by
  have hwidth := width_le hm
  obtain ⟨front, hfront⟩ := Nat.exists_eq_add_of_le' hwidth
  have hzeros : ∀ i ∈ List.range front, (encode N m l s).cell i = 0 := by
    intro i hi
    have hlt := List.mem_range.mp hi
    have hsmall : m < 10 ^ (N - 1 - i) :=
      (width_le_iff (by omega)).mp (by omega)
    rw [cell_encode (by omega), digit_eq_zero_of_lt hsmall]
    rfl
  have hsplit : List.range N =
      List.range front ++ (List.range (width 10 m)).map (front + ·) := by
    rw [← List.range_add, ← hfront]
  unfold significantDigits
  rw [hsplit, List.dropWhile_append_of_pos fun i hi =>
    decide_eq_true (hzeros i hi)]
  cases hw : width 10 m with
  | zero => rfl
  | succ k =>
      have hweight : N - 1 - (front + 0) = k := by omega
      have htop : (encode N m l s).cell (front + 0) ≠ 0 := by
        rw [cell_encode (by omega), hweight]
        exact_mod_cast digit_width_ne_zero hw
      rw [List.range_succ_eq_map, List.map_cons,
        List.dropWhile_cons_of_neg (by simpa using htop)]
      simp

/-- Only the length tells a number from the normalised one. -/
theorem normalises_encode_len_iff {l' : ℤ} (hm : m < 10 ^ N) :
    Normalises (encode N m l s) (encode N m l' s) ↔ l' = normalLen m := by
  have hlen : normalLen m = max 1 (encode N m l s).significantDigits := by
    rw [significantDigits_encode hm]
    rfl
  rw [hlen]
  constructor
  · exact fun hnormal => hnormal.len
  · exact fun heq => ⟨rfl, rfl, heq⟩

/-! ## One call -/

/-- `shrink` normalises a number exactly when its length is that of the array,
or that of a number whose digits fill at most half of it. -/
theorem normalises_encode_iff (h : Fits N m L) :
    Normalises (encode N m L s) (encode N m (shrinkLen N m L) s) ↔
      L = N ∨ (m ≠ 0 ∧ L = width 10 m ∧ 2 * width 10 m ≤ N) := by
  have hwidth := width_le h.lt_pow
  have hcovers : width 10 m ≤ L := (width_le_iff (by omega)).mpr h.lt
  have hzero := width_eq_zero_iff (m := m)
  have hone := h.one_le
  have hle := h.le
  have hnormal : normalLen m = max 1 (width 10 m) := rfl
  rw [normalises_encode_len_iff h.lt_pow, shrinkLen]
  split
  next hcut =>
    split
    next => omega
    next => omega
  next => omega

/-- A normalised number is left alone exactly when its digits fill the array or
at most half of it. -/
theorem shrinkLen_normalLen_iff (hN : 2 ≤ N) (hm : m < 10 ^ N) :
    shrinkLen N m (normalLen m) = normalLen m ↔
      m ≠ 0 ∧ (width 10 m = N ∨ 2 * width 10 m ≤ N) := by
  have hwidth := width_le hm
  have hzero := width_eq_zero_iff (m := m)
  have hnormal : normalLen m = max 1 (width 10 m) := rfl
  rw [shrinkLen]
  split
  next hcut =>
    split
    next => omega
    next => omega
  next => omega

/-! ## Two calls -/

/-- One `shrink` normalises a number and a second one changes nothing. -/
def NormalisesForGood (b : BigInteger N) : Prop :=
  ∃ r, b.shrink = .ok r ∧ Normalises b r ∧ r.shrink = .ok r

theorem normalisesForGood_encode (hm : m < 10 ^ N) :
    NormalisesForGood (encode N m L s) ↔
      Normalises (encode N m L s) (encode N m (shrinkLen N m L) s) ∧
        shrinkLen N m (shrinkLen N m L) = shrinkLen N m L := by
  unfold NormalisesForGood
  rw [shrink_encode hm]
  constructor
  · rintro ⟨r, hr, hnormal, htwice⟩
    obtain rfl := Except.ok.inj hr
    rw [shrink_encode hm] at htwice
    exact ⟨hnormal, congrArg len (Except.ok.inj htwice)⟩
  · rintro ⟨hnormal, htwice⟩
    refine ⟨_, rfl, hnormal, ?_⟩
    rw [shrink_encode hm, htwice]

theorem normalisesForGood_encode_iff (hN : 2 ≤ N) (h : Fits N m L) :
    NormalisesForGood (encode N m L s) ↔
      (L = N ∨ L = width 10 m) ∧
        (width 10 m = N ∨ 1 ≤ width 10 m ∧ 2 * width 10 m ≤ N) := by
  have hzero := width_eq_zero_iff (m := m)
  have htwice := shrinkLen_normalLen_iff hN h.lt_pow
  have hnormal := normalises_encode_iff (s := s) h
  rw [normalisesForGood_encode h.lt_pow]
  constructor
  · rintro ⟨hn, ht⟩
    rw [(normalises_encode_len_iff h.lt_pow).mp hn, htwice] at ht
    have hcase := hnormal.mp hn
    omega
  · intro hcond
    have hn := hnormal.mpr (by omega)
    refine ⟨hn, ?_⟩
    rw [(normalises_encode_len_iff h.lt_pow).mp hn]
    exact htwice.mpr (by omega)

/-- `shrink` normalises a number for good exactly when its digits fill the
array or at most half of it, and its length is theirs or that of the array. -/
theorem shrink_normalises_iff {b : BigInteger 500} (hb : b.WellFormed) :
    NormalisesForGood b ↔
      (b.len = 500 ∨ b.len = b.significantDigits) ∧
        (b.significantDigits = 500 ∨
          1 ≤ b.significantDigits ∧ b.significantDigits ≤ 250) := by
  obtain ⟨m, L, s, hfits, rfl⟩ := hb.exists_encode
  rw [normalisesForGood_encode_iff (by omega) hfits,
    significantDigits_encode hfits.lt_pow, encode_len]
  omega

/-- Twelve, behind 498 zeros. -/
theorem shrink_normalises_iff_twelve :
    NormalisesForGood (encode 500 12 500 true) ↔
      ((encode 500 12 500 true).len = 500 ∨
          (encode 500 12 500 true).len =
            (encode 500 12 500 true).significantDigits) ∧
        ((encode 500 12 500 true).significantDigits = 500 ∨
          1 ≤ (encode 500 12 500 true).significantDigits ∧
            (encode 500 12 500 true).significantDigits ≤ 250) := by
  have hpow : ∀ {L : ℕ}, 2 ≤ L → 10 ^ 2 ≤ 10 ^ L :=
    fun h => Nat.pow_le_pow_right (by omega) h
  have htwelve : 12 < 10 ^ 2 := by omega
  have hfits : Fits 500 12 500 :=
    ⟨by omega, by omega, htwelve.trans_le (hpow (by omega))⟩
  exact shrink_normalises_iff (wellFormed_encode hfits)

/-- A number of 300 digits, as the inner subtraction of a swapped one leaves
it, loses 200 of them. -/
theorem three_hundred_digits_cut :
    (encode 500 (10 ^ 299) 300 true).WellFormed ∧
      (encode 500 (10 ^ 299) 300 true).shrink =
        .ok (encode 500 (10 ^ 299) 100 true) ∧
      ¬ NormalisesForGood (encode 500 (10 ^ 299) 300 true) := by
  have hpow : ∀ {a b : ℕ}, a < b → 10 ^ a < 10 ^ b :=
    fun h => Nat.pow_lt_pow_right (by omega) h
  have hfits : Fits 500 (10 ^ 299) 300 :=
    ⟨by omega, by omega, hpow (by omega)⟩
  have hwidth : width 10 (10 ^ 299) = 300 :=
    width_eq_succ (by omega) le_rfl (hpow (by omega))
  refine ⟨wellFormed_encode hfits, ?_, ?_⟩
  · rw [shrink_encode hfits.lt_pow, shrinkLen, hwidth]
    rfl
  · intro h
    have hcond := (normalisesForGood_encode_iff (by omega) hfits).mp h
    rw [hwidth] at hcond
    omega

end BigInteger
end MiscCode
