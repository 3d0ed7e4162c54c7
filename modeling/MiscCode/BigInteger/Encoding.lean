import Mathlib.Algebra.BigOperators.Ring.Finset
import MiscCode.Support.Positional
import MiscCode.BigInteger.Model

/-!
# Numbers as encoded naturals

A number whose cells are decimal digits is determined by the natural number it
holds, its length and its sign.  `encode` builds it from these three, and the
operators are described in the following modules as equations between encoded
numbers.
-/

namespace MiscCode
namespace BigInteger

open Finset Positional

variable {N : ℕ} {m n : ℕ} {l l' : ℤ} {s s' : Bool}

/-- The number that holds the decimal digits of `m`. -/
def encode (N m : ℕ) (len : ℤ) (isPositive : Bool) : BigInteger N where
  arr := Vector.ofFn fun i => Int8.ofInt (digit 10 m (N - 1 - i))
  len := len
  isPositive := isPositive

@[simp] theorem encode_len : (encode N m l s).len = l := by
  rw [encode]

@[simp] theorem encode_isPositive : (encode N m l s).isPositive = s := by
  rw [encode]

/-- Assigning the length or the sign. -/
@[simp] theorem mk_encode :
    BigInteger.mk (encode N m l s).arr l' s' = encode N m l' s' := by
  rw [encode, encode]

@[simp] theorem makePositive_encode :
    (encode N m l s).makePositive = encode N m l true := by
  rw [makePositive, mk_encode, encode_len]

/-! ## Cells -/

theorem toInt_ofInt_digit {d : ℤ} (h0 : 0 ≤ d) (h9 : d ≤ 9) :
    (Int8.ofInt d).toInt = d :=
  Int8.toInt_ofInt_of_le (by omega) (by omega)

theorem digit_le_nine (m w : ℕ) : digit 10 m w ≤ 9 :=
  Nat.le_of_lt_succ (digit_lt (by omega) m w)

theorem cell_encode {i : ℕ} (hi : i < N) :
    (encode N m l s).cell i = digit 10 m (N - 1 - i) := by
  have h9 := digit_le_nine m (N - 1 - i)
  simp only [cell, dif_pos hi, encode, Vector.getElem_ofFn]
  exact toInt_ofInt_digit (by omega) (by omega)

/-- Cells, length and sign determine the number. -/
theorem ext_cells {a b : BigInteger N} (hcell : ∀ i < N, a.cell i = b.cell i)
    (hlen : a.len = b.len) (hsign : a.isPositive = b.isPositive) : a = b := by
  obtain ⟨arr, len, isPositive⟩ := a
  obtain ⟨arr', len', isPositive'⟩ := b
  have harr : arr = arr' := by
    ext i hi
    have h := hcell i hi
    simp only [cell, dif_pos hi] at h
    exact Int8.toInt_inj.mp h
  simp only at hlen hsign
  rw [harr, hlen, hsign]

theorem fresh_eq_encode : fresh N = encode N 0 0 true := by
  apply ext_cells
  · intro i hi
    rw [cell_encode hi]
    simp [cell, fresh, hi]
  · rfl
  · rfl

theorem encode_hasDigits : (encode N m l s).HasDigits := by
  intro i hi
  have h9 := digit_le_nine m (N - 1 - i)
  rw [cell_encode hi]
  omega

theorem read_encode {i : ℤ} (h0 : 0 ≤ i) (hN : i < N) :
    (encode N m l s).read i = .ok (digit 10 m (N - 1 - i.toNat) : ℤ) := by
  rw [read, if_pos ⟨h0, hN⟩, cell_encode (by omega)]

theorem cell_write {b r : BigInteger N} {i v : ℤ} (h : b.write i v = .ok r)
    (j : ℕ) (hj : j < N) :
    r.cell j = if i = j then (Int8.ofInt v).toInt else b.cell j := by
  simp only [write] at h
  split at h
  next hbounds =>
    obtain rfl := Except.ok.inj h
    have hiff : i.toNat = j ↔ i = j := by omega
    simp only [cell, dif_pos hj, Vector.getElem_setIfInBounds, hiff]
    split <;> rfl
  next => exact absurd h Fuel.error_ne_ok

theorem len_write {b r : BigInteger N} {i v : ℤ} (h : b.write i v = .ok r) :
    r.len = b.len := by
  simp only [write] at h
  split at h
  next =>
    obtain rfl := Except.ok.inj h
    rfl
  next => exact absurd h Fuel.error_ne_ok

/-- Writing the next digit in front of the digits already there. -/
theorem write_encode {k d : ℕ} {i v : ℤ} (hk : k < N) (hm : m < 10 ^ k)
    (hd : d ≤ 9) (hi : i = N - 1 - k) (hv : v = d) :
    (encode N m l s).write i v = .ok (encode N (m + d * 10 ^ k) l s) := by
  have hok : (encode N m l s).write i v =
      .ok { encode N m l s with
        arr := (encode N m l s).arr.setIfInBounds i.toNat (Int8.ofInt v) } :=
    if_pos (by omega)
  rw [hok]
  congr 1
  apply ext_cells
  · intro j hj
    rw [cell_write hok j hj, cell_encode hj, cell_encode hj,
      digit_add_mul_pow hm (by omega)]
    have hiff : i = j ↔ N - 1 - j = k := by omega
    simp only [hiff]
    split
    · rw [hv, toInt_ofInt_digit (by omega) (by omega)]
    · rfl
  · rfl
  · rfl

/-! ## What an encoded number denotes -/

theorem magnitude_eq_sum (b : BigInteger N) :
    b.magnitude = ∑ w ∈ range N, b.cell (N - 1 - w) * 10 ^ w := by
  rw [magnitude, ← sum_range_reflect]
  apply sum_congr rfl
  intro w hw
  have hw := mem_range.mp hw
  congr 2
  omega

theorem magnitude_encode (hm : m < 10 ^ N) :
    (encode N m l s).magnitude = m := by
  rw [magnitude_eq_sum]
  calc
    ∑ w ∈ range N, (encode N m l s).cell (N - 1 - w) * 10 ^ w =
        ∑ w ∈ range N, ((digit 10 m w * 10 ^ w : ℕ) : ℤ) := by
      apply sum_congr rfl
      intro w hw
      have hw := mem_range.mp hw
      have hweight : N - 1 - (N - 1 - w) = w := by omega
      rw [cell_encode (by omega), hweight]
      push_cast
      rfl
    _ = ((m % 10 ^ N : ℕ) : ℤ) := by rw [← Nat.cast_sum, sum_digit]
    _ = m := by rw [Nat.mod_eq_of_lt hm]

theorem value_encode (hm : m < 10 ^ N) :
    (encode N m l s).value = if s then (m : ℤ) else -m := by
  rw [value, magnitude_encode hm, encode_isPositive]

/-- Every number with decimal digits is an encoded one. -/
theorem HasDigits.exists_encode {b : BigInteger N} (hb : b.HasDigits) :
    ∃ m, m < 10 ^ N ∧ b = encode N m b.len b.isPositive := by
  let f : ℕ → ℕ := fun w => (b.cell (N - 1 - w)).toNat
  have hf : ∀ w < N, f w < 10 := by
    intro w hw
    have := hb (N - 1 - w) (by omega)
    simp only [f]
    omega
  refine ⟨∑ w ∈ range N, f w * 10 ^ w, sum_lt f hf, ?_⟩
  apply ext_cells
  · intro i hi
    have hdigit := hb i hi
    have hindex : N - 1 - (N - 1 - i) = i := by omega
    rw [cell_encode hi, digit_sum f hf (by omega)]
    simp only [f, hindex]
    omega
  · rfl
  · rfl

theorem eq_encode {a b : BigInteger N} (h : a.eq b = true) :
    a.isPositive = b.isPositive ∧ a.arr = b.arr := by
  simpa [eq] using h

/-- `==` compares the sign and the natural number held. -/
theorem eq_encode_iff (hm : m < 10 ^ N) (hn : n < 10 ^ N) :
    (encode N m l s).eq (encode N n l' s') = true ↔ s = s' ∧ m = n := by
  constructor
  · intro h
    obtain ⟨hsign, harr⟩ := eq_encode h
    refine ⟨hsign, ?_⟩
    have hmag : (encode N m l s).magnitude = (encode N n l' s').magnitude := by
      simp only [magnitude, cell, harr]
    rw [magnitude_encode hm, magnitude_encode hn] at hmag
    exact_mod_cast hmag
  · rintro ⟨rfl, rfl⟩
    simp [eq, encode]

/-! ## Well-formed and canonical numbers -/

theorem pow_mono {L K : ℕ} (h : L ≤ K) (hm : m < 10 ^ L) : m < 10 ^ K :=
  lt_of_lt_of_le hm (Nat.pow_le_pow_right (by omega) h)

/-- `m` is written with `L` digits, leading zeros allowed, in an array of
`N`. -/
structure Fits (N m L : ℕ) : Prop where
  one_le : 1 ≤ L
  le : L ≤ N
  lt : m < 10 ^ L

theorem Fits.pos {L : ℕ} (h : Fits N m L) : 0 < N :=
  lt_of_lt_of_le h.one_le h.le

theorem Fits.lt_pow {L : ℕ} (h : Fits N m L) : m < 10 ^ N :=
  pow_mono h.le h.lt

theorem wellFormed_encode {L : ℕ} (h : Fits N m L) :
    (encode N m L s).WellFormed where
  digits := encode_hasDigits
  one_le_len := by simpa using h.one_le
  len_le := by simpa using h.le
  zero_above := by
    intro i hi
    rw [encode_len] at hi
    have hlow : m < 10 ^ (N - 1 - i) := pow_mono (by omega) h.lt
    have hpos := h.pos
    have hone := h.one_le
    rw [cell_encode (by omega), digit_eq_zero_of_lt hlow]
    rfl

/-- The representation invariant says exactly that the number is an encoded
one whose length covers its digits. -/
theorem WellFormed.exists_encode {b : BigInteger N} (hb : b.WellFormed) :
    ∃ (m L : ℕ) (s : Bool), Fits N m L ∧ b = encode N m L s := by
  obtain ⟨m, hm, hb'⟩ := hb.digits.exists_encode
  obtain ⟨L, hL⟩ := Int.eq_ofNat_of_zero_le (by have := hb.one_le_len; omega :
    0 ≤ b.len)
  have hone := hb.one_le_len
  have hle := hb.len_le
  have hmod : m % 10 ^ L = m := by
    apply eq_of_digit_eq (k := N)
    · exact lt_of_le_of_lt (Nat.mod_le _ _) hm
    · exact hm
    · intro w hw
      by_cases hwL : w < L
      · exact digit_mod_pow hwL
      · have hlow : m % 10 ^ L < 10 ^ w :=
          lt_of_lt_of_le (Nat.mod_lt _ (by positivity))
            (Nat.pow_le_pow_right (by omega) (by omega))
        have hcell := hb.zero_above (N - 1 - w) (by omega)
        have hweight : N - 1 - (N - 1 - w) = w := by omega
        rw [hb', cell_encode (by omega), hweight] at hcell
        rw [digit_eq_zero_of_lt hlow]
        exact_mod_cast hcell.symm
  have hlt : m < 10 ^ L := by
    rw [← hmod]
    exact Nat.mod_lt _ (by positivity)
  exact ⟨m, L, b.isPositive, ⟨by omega, by omega, hlt⟩,
    by rw [← hL]; exact hb'⟩

/-- The length of `m` without leading zeros; zero is written with one digit. -/
def normalLen (m : ℕ) : ℕ := max 1 (width 10 m)

theorem one_le_normalLen (m : ℕ) : 1 ≤ normalLen m := le_max_left _ _

theorem lt_pow_normalLen (m : ℕ) : m < 10 ^ normalLen m :=
  (width_le_iff (by omega)).mp (le_max_right _ _)

theorem normalLen_le_iff {k : ℕ} (hk : 1 ≤ k) :
    normalLen m ≤ k ↔ m < 10 ^ k := by
  rw [normalLen, max_le_iff, width_le_iff (by omega)]
  exact and_iff_right hk

theorem normalLen_eq {k : ℕ} (hlow : k = 0 ∨ 10 ^ k ≤ m)
    (hhigh : m < 10 ^ (k + 1)) : normalLen m = k + 1 := by
  apply Nat.le_antisymm
  · exact (normalLen_le_iff (by omega)).mpr hhigh
  · rcases hlow with rfl | hlow
    · exact one_le_normalLen m
    · exact le_trans ((lt_width_iff (by omega)).mpr hlow) (le_max_right _ _)

theorem normalLen_of_lt_ten (hm : m < 10) : normalLen m = 1 :=
  normalLen_eq (Or.inl rfl) (by omega)

theorem fits_normalLen (h : normalLen m ≤ N) : Fits N m (normalLen m) :=
  ⟨one_le_normalLen m, h, lt_pow_normalLen m⟩

/-- The numbers without leading zeros and without a negative zero are exactly
the encodings at normal length. -/
theorem Canonical.exists_encode {b : BigInteger N} (hb : b.Canonical) :
    ∃ m s, normalLen m ≤ N ∧ m < 10 ^ N ∧ (m = 0 → s = true) ∧
      b = encode N m (normalLen m) s := by
  obtain ⟨m, L, s, ⟨hL, hLN, hm⟩, hb'⟩ := hb.toWellFormed.exists_encode
  have hmN : m < 10 ^ N := pow_mono hLN hm
  have hlen : normalLen m = L := by
    obtain ⟨k, rfl⟩ : ∃ k, L = k + 1 := ⟨L - 1, by omega⟩
    apply normalLen_eq _ hm
    by_cases hk : k = 0
    · exact Or.inl hk
    · have hlead := hb.leading_ne_zero
      rw [hb', leadingCell, encode_len, cell_encode (by omega)] at hlead
      have hweight : N - 1 - ((N : ℤ) - ((k + 1 : ℕ) : ℤ)).toNat = k := by omega
      rw [hweight, digit_eq_div_of_lt hm] at hlead
      have hdiv : m / 10 ^ k ≠ 0 := by
        intro hzero
        exact hlead (by omega) (by rw [hzero]; rfl)
      exact Or.inr (Nat.le_of_not_lt fun hlt => hdiv (Nat.div_eq_of_lt hlt))
  refine ⟨m, s, by omega, hmN, ?_, by rw [hlen]; exact hb'⟩
  intro hzero
  have hpositive := hb.zero_positive
  rw [hb', magnitude_encode hmN, hzero, encode_isPositive] at hpositive
  exact hpositive rfl

theorem canonical_encode (hmN : normalLen m ≤ N) (hs : m = 0 → s = true) :
    (encode N m (normalLen m) s).Canonical where
  toWellFormed :=
    wellFormed_encode (fits_normalLen hmN)
  leading_ne_zero := by
    intro hlen
    obtain ⟨k, hk⟩ : ∃ k, normalLen m = k + 1 :=
      ⟨normalLen m - 1, by have := one_le_normalLen m; omega⟩
    have hlow : 10 ^ k ≤ m := by
      by_contra hlt
      have := (normalLen_le_iff (m := m) (k := k)
        (by rw [encode_len, hk] at hlen; omega)).mpr (by omega)
      omega
    have hhigh : m < 10 ^ (k + 1) := hk ▸ lt_pow_normalLen m
    rw [leadingCell, encode_len, cell_encode (by omega)]
    have hweight : N - 1 - ((N : ℤ) - (normalLen m : ℤ)).toNat = k := by omega
    rw [hweight, digit_eq_div_of_lt hhigh]
    have := Nat.div_pos hlow (by positivity)
    omega
  zero_positive := by
    intro hzero
    rw [magnitude_encode ((normalLen_le_iff
      (le_trans (one_le_normalLen m) hmN)).mp hmN)] at hzero
    exact hs (by exact_mod_cast hzero)

/-- The canonical number that denotes `x`. -/
def ofInteger (N : ℕ) (x : ℤ) : BigInteger N :=
  encode N x.natAbs (normalLen x.natAbs) (decide (0 ≤ x))

theorem canonical_ofInteger {x : ℤ} (hN : 0 < N) (hx : x.natAbs < 10 ^ N) :
    (ofInteger N x).Canonical := by
  apply canonical_encode ((normalLen_le_iff hN).mpr hx)
  intro hzero
  rw [decide_eq_true_iff]
  omega

theorem value_ofInteger {x : ℤ} (hx : x.natAbs < 10 ^ N) :
    (ofInteger N x).value = x := by
  rw [ofInteger, value_encode hx]
  simp only [decide_eq_true_iff]
  split <;> omega

theorem Canonical.eq_ofInteger {b : BigInteger N} (hb : b.Canonical) :
    b = ofInteger N b.value := by
  obtain ⟨m, s, -, hm, hs, rfl⟩ := hb.exists_encode
  rw [value_encode hm, ofInteger]
  cases s with
  | true => simp
  | false =>
      have hm0 : m ≠ 0 := fun h => by simp [h] at hs
      simp [hm0]

/-- `ofInteger` on an integer of at most `k` digits. -/
theorem ofInteger_spec {x : ℤ} (k : ℕ) (hx : x.natAbs < 10 ^ k)
    (hk : k ≤ N) (hN : 0 < N) :
    (ofInteger N x).Canonical ∧ (ofInteger N x).value = x ∧
      ∀ j, k ≤ j → |(ofInteger N x).value| < 10 ^ j := by
  have hxN : x.natAbs < 10 ^ N := pow_mono hk hx
  refine ⟨canonical_ofInteger hN hxN, value_ofInteger hxN, ?_⟩
  intro j hkj
  have hxj : x.natAbs < 10 ^ j := pow_mono hkj hx
  rw [value_ofInteger hxN, Int.abs_eq_natAbs]
  exact_mod_cast hxj

end BigInteger
end MiscCode
