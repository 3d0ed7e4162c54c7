import MiscCode.BigInteger.Order

/-!
# The digit loops

Each loop of the class on encoded numbers.  A loop that has passed the `k` low
cells holds the total of the columns below weight `10 ^ k`: its digits are in
the result and its quotient by `10 ^ k` is the carry.  The borrow loop is the
carry loop of the ten's complement, with a carry that is one too small.
-/

namespace MiscCode
namespace BigInteger

open Positional

variable {N m n k L K : ℕ} {l : ℤ} {s t : Bool}

theorem read_weight {i : ℕ} (h : i + k + 1 = N) :
    (encode N m l s).read i = .ok (digit 10 m k : ℤ) := by
  have hweight : N - 1 - (i : ℤ).toNat = k := by omega
  rw [read_encode (by omega) (by omega), hweight]

theorem tmod_ten (x : ℕ) : (x : ℤ).tmod 10 = (x % 10 : ℕ) := by
  rw [Int.tmod_eq_emod_of_nonneg (by omega)]
  omega

theorem tdiv_ten (x : ℕ) : (x : ℤ).tdiv 10 = (x / 10 : ℕ) := by
  rw [Int.tdiv_eq_ediv_of_nonneg (by omega)]
  omega

/-- Writing the digit of one column. -/
theorem write_column {i f x : ℕ} {v : ℤ} (h : i + k + 1 = N)
    (hv : v = ((x + f / 10 ^ k) % 10 : ℕ)) :
    (encode N (f % 10 ^ k) l s).write i v =
      .ok (encode N ((f + x * 10 ^ k) % 10 ^ (k + 1)) l s) := by
  have h9 : (x + f / 10 ^ k) % 10 ≤ 9 := by omega
  rw [column_mod (by omega)]
  exact write_encode (by omega) (Nat.mod_lt _ (by positivity)) h9 (by omega) hv

/-! ## The carry loop -/

/-- The length the carry loop ends with: the greater of both lengths, and at
least one round, or one more for a last carry. -/
def sumLen (L K total : ℕ) : ℕ :=
  if total < 10 ^ max 1 (max L K) then max 1 (max L K)
  else max 1 (max L K) + 1

/-- The columns of `m + n` below weight `10 ^ k`. -/
def sumColumns (m n k : ℕ) : ℕ := m % 10 ^ k + n % 10 ^ k

theorem sumColumns_succ (m n k : ℕ) :
    sumColumns m n (k + 1) =
      sumColumns m n k + (digit 10 m k + digit 10 n k) * 10 ^ k := by
  rw [sumColumns, sumColumns, mod_pow_succ, mod_pow_succ 10 n]
  ring

theorem sumColumns_le (m n k : ℕ) : sumColumns m n k ≤ m + n :=
  Nat.add_le_add (Nat.mod_le _ _) (Nat.mod_le _ _)

theorem sumColumns_eq (hm : m < 10 ^ k) (hn : n < 10 ^ k) :
    sumColumns m n k = m + n := by
  rw [sumColumns, Nat.mod_eq_of_lt hm, Nat.mod_eq_of_lt hn]

/-- The loop is entered at `k` when it has just begun, carries, or has not
reached the end of an operand. -/
def CarryRuns (m n L K k : ℕ) : Prop :=
  k = 0 ∨ 10 ^ k ≤ sumColumns m n k ∨ k < L ∨ k < K

theorem sumLen_eq (hm : m < 10 ^ L) (hn : n < 10 ^ K)
    (hrun : CarryRuns m n L K k) (hL : L ≤ k + 1) (hK : K ≤ k + 1)
    (htotal : m + n < 10 ^ (k + 1)) : sumLen L K (m + n) = k + 1 := by
  rw [sumLen]
  generalize hT : max 1 (max L K) = T
  have hLT : L ≤ T := by omega
  have hKT : K ≤ T := by omega
  rcases Nat.lt_or_ge k T with hk | hk
  · obtain rfl : T = k + 1 := by omega
    rw [if_pos htotal]
  · have hcarry : 10 ^ k ≤ m + n := by
      rcases hrun with h | h | h | h
      · omega
      · exact le_trans h (sumColumns_le m n k)
      · omega
      · omega
    have hbound : m + n < 10 ^ (T + 1) := by
      have := pow_mono hLT hm
      have := pow_mono hKT hn
      rw [pow_succ]
      omega
    have hkT : k < T + 1 :=
      (Nat.pow_lt_pow_iff_right (by omega)).mp (lt_of_le_of_lt hcarry hbound)
    obtain rfl : k = T := by omega
    rw [if_neg (by omega)]

/-- The loop condition of the source. -/
theorem carryRuns_succ_iff :
    (((sumColumns m n (k + 1) / 10 ^ (k + 1) : ℕ) : ℤ) ≠ 0 ∨
        (k : ℤ) + 1 < L ∨ (k : ℤ) + 1 < K) ↔ CarryRuns m n L K (k + 1) := by
  rw [CarryRuns, ← Nat.not_lt (b := 10 ^ (k + 1)),
    ← Nat.div_eq_zero_iff_lt (by positivity)]
  omega

/-- Where the loop ends, both operands and their sum are complete. -/
theorem carry_complete (hm : m < 10 ^ L) (hn : n < 10 ^ K)
    (hend : ¬ CarryRuns m n L K (k + 1)) :
    L ≤ k + 1 ∧ K ≤ k + 1 ∧ m + n < 10 ^ (k + 1) := by
  rw [CarryRuns] at hend
  have hL : L ≤ k + 1 := by omega
  have hK : K ≤ k + 1 := by omega
  refine ⟨hL, hK, ?_⟩
  rw [← sumColumns_eq (pow_mono hL hm) (pow_mono hK hn)]
  omega

/-- The carry loop adds, and leaves the array exactly when the sum does not
fit. -/
theorem carryLoop_encode (hN : 0 < N) (hL : L ≤ N) (hK : K ≤ N)
    (hm : m < 10 ^ L) (hn : n < 10 ^ K) (hk : k ≤ N)
    (hrun : CarryRuns m n L K k) :
    carryLoop (encode N m L s) (encode N n K t) (N - k)
        ((sumColumns m n k / 10 ^ k : ℕ) : ℤ)
        (encode N (sumColumns m n k % 10 ^ k) k true) =
      if m + n < 10 ^ N then
        .ok (encode N (m + n) (sumLen L K (m + n)) true)
      else .error .outOfBounds := by
  generalize hj : N - k = j
  induction j generalizing k with
  | zero =>
      obtain rfl : k = N := by omega
      have hover : ¬ (m + n < 10 ^ k) := by
        rw [← sumColumns_eq (pow_mono hL hm) (pow_mono hK hn)]
        rcases hrun with h | h | h | h <;> omega
      rw [if_neg hover, carryLoop]
  | succ j ih =>
      have hindex : j + k + 1 = N := by omega
      have hcolumn : (digit 10 m k : ℤ) + (digit 10 n k : ℤ) +
          ((sumColumns m n k / 10 ^ k : ℕ) : ℤ) =
            ((digit 10 m k + digit 10 n k + sumColumns m n k / 10 ^ k : ℕ) : ℤ) := by
        push_cast
        ring
      have hcarry : (digit 10 m k + digit 10 n k + sumColumns m n k / 10 ^ k) / 10 =
          sumColumns m n (k + 1) / 10 ^ (k + 1) := by
        rw [sumColumns_succ, column_div (by omega)]
      have hlen : (k : ℤ) + 1 = ((k + 1 : ℕ) : ℤ) := by push_cast; ring
      simp only [carryLoop, read_weight hindex, ok_bind, hcolumn, tmod_ten,
        tdiv_ten, write_column hindex rfl, ← sumColumns_succ, hcarry, mk_encode,
        encode_len, encode_isPositive]
      by_cases hrun' : CarryRuns m n L K (k + 1)
      · rw [if_pos (carryRuns_succ_iff.mpr hrun'), hlen]
        exact ih (by omega) hrun' (by omega)
      · obtain ⟨hLk, hKk, hfits⟩ := carry_complete hm hn hrun'
        have htotal := sumColumns_eq (pow_mono hLk hm) (pow_mono hKk hn)
        rw [if_neg fun h => hrun' (carryRuns_succ_iff.mp h), hlen,
          if_pos (pow_mono (show k + 1 ≤ N by omega) hfits),
          sumLen_eq hm hn hrun hLk hKk hfits, htotal, Nat.mod_eq_of_lt hfits]

/-! ## The borrow loop -/

/-- The columns of `m + (10 ^ k - n)` below weight `10 ^ k`. -/
def complementColumns (m n k : ℕ) : ℕ := m % 10 ^ k + (10 ^ k - n % 10 ^ k)

theorem complementColumns_succ (m n k : ℕ) :
    complementColumns m n (k + 1) =
      complementColumns m n k +
        (digit 10 m k + (9 - digit 10 n k)) * 10 ^ k := by
  have hn : n % 10 ^ k < 10 ^ k := Nat.mod_lt _ (by positivity)
  have hnine := digit_le_nine n k
  obtain ⟨e, he⟩ : ∃ e, digit 10 n k + e = 9 := ⟨9 - digit 10 n k, by omega⟩
  have hsub : 9 - digit 10 n k = e := by omega
  have hpow : 10 ^ (k + 1) = digit 10 n k * 10 ^ k + e * 10 ^ k + 10 ^ k := by
    rw [pow_succ, ← Nat.add_mul, he]
    ring
  rw [complementColumns, complementColumns, mod_pow_succ, mod_pow_succ 10 n,
    hsub, Nat.add_mul]
  omega

theorem complementColumns_carry (m n k : ℕ) :
    complementColumns m n k / 10 ^ k ≤ 1 := by
  have hm : m % 10 ^ k < 10 ^ k := Nat.mod_lt _ (by positivity)
  apply Nat.le_of_lt_succ
  apply Nat.div_lt_of_lt_mul
  rw [complementColumns]
  omega

/-- The carry out of a column of the complement. -/
theorem complementColumns_div_succ (m n k : ℕ) :
    complementColumns m n (k + 1) / 10 ^ (k + 1) =
      (digit 10 m k + (9 - digit 10 n k) +
        complementColumns m n k / 10 ^ k) / 10 := by
  rw [complementColumns_succ, column_div (by omega)]

/-- The digit to store is the column of the complement, modulo ten. -/
theorem prependDigits_complement {j : ℕ} (hindex : j + k + 1 = N) {v : ℤ}
    (hv : v = ((digit 10 m k + (9 - digit 10 n k) +
      complementColumns m n k / 10 ^ k) % 10 : ℕ)) :
    (encode N (complementColumns m n k % 10 ^ k) k true).prependDigits v =
      .ok (encode N (complementColumns m n (k + 1) % 10 ^ (k + 1))
        ((k + 1 : ℕ) : ℤ) true) := by
  have hcell : (N : ℤ) - 1 - k = (j : ℕ) := by omega
  rw [prependDigits, encode_len, hcell, write_column hindex hv,
    ← complementColumns_succ, ok_bind, mk_encode, encode_len,
    encode_isPositive]
  push_cast
  rfl

/-- The borrow loop subtracts modulo `10 ^ N`, and fills the whole array. -/
theorem borrowLoop_encode (hk : k ≤ N) :
    borrowLoop (encode N m L s) (encode N n K t) (N - k)
        (((complementColumns m n k / 10 ^ k : ℕ) : ℤ) - 1)
        (encode N (complementColumns m n k % 10 ^ k) k true) =
      .ok (encode N (complementColumns m n N % 10 ^ N) N true) := by
  generalize hj : N - k = j
  induction j generalizing k with
  | zero =>
      obtain rfl : k = N := by omega
      rw [borrowLoop]
  | succ j ih =>
      have hindex : j + k + 1 = N := by omega
      have hm9 := digit_le_nine m k
      have hn9 := digit_le_nine n k
      have hcarry := complementColumns_carry m n k
      have hnext := complementColumns_div_succ m n k
      have hprepend := fun v => prependDigits_complement (m := m) (n := n)
        (v := v) hindex
      have hrest := ih (k := k + 1) (by omega) (by omega)
      simp only [borrowLoop, read_weight hindex, ok_bind]
      generalize complementColumns m n k / 10 ^ k = c at hcarry hnext hprepend ⊢
      split
      next hborrow =>
        have hzero : (((complementColumns m n (k + 1) / 10 ^ (k + 1) : ℕ) : ℤ) - 1) =
            -1 := by
          rw [hnext]
          omega
        rw [hprepend _ (by omega), ok_bind, ← hzero]
        exact hrest
      next hborrow =>
        have hone : (((complementColumns m n (k + 1) / 10 ^ (k + 1) : ℕ) : ℤ) - 1) =
            0 := by
          rw [hnext]
          omega
        rw [hprepend _ (by omega), ok_bind, ← hone]
        exact hrest

/-- The whole loop, as `operator -` starts it. -/
theorem borrowLoop_fresh (hm : m < 10 ^ N) (hn : n < 10 ^ N) :
    borrowLoop (encode N m L s) (encode N n K t) N 0 (fresh N) =
      .ok (encode N ((m + (10 ^ N - n)) % 10 ^ N) N true) := by
  have h := borrowLoop_encode (m := m) (n := n) (L := L) (K := K) (s := s)
    (t := t) (k := 0) (Nat.zero_le N)
  rw [complementColumns, complementColumns, Nat.mod_eq_of_lt hm,
    Nat.mod_eq_of_lt hn] at h
  simpa [fresh_eq_encode, Nat.mod_one] using h

/-- The whole carry loop, as `operator +` starts it. -/
theorem carryLoop_fresh (hN : 0 < N) (hL : L ≤ N) (hK : K ≤ N)
    (hm : m < 10 ^ L) (hn : n < 10 ^ K) :
    carryLoop (encode N m L s) (encode N n K t) N 0 (fresh N) =
      if m + n < 10 ^ N then
        .ok (encode N (m + n) (sumLen L K (m + n)) true)
      else .error .outOfBounds := by
  have h := carryLoop_encode (s := s) (t := t) (k := 0) hN hL hK hm hn
    (Nat.zero_le N) (Or.inl rfl)
  simpa [fresh_eq_encode, sumColumns, Nat.mod_one] using h

/-! ## Shrinking -/

/-- The length `shrink` gives a number of length `l` that holds `m`. -/
def shrinkLen (N m : ℕ) (l : ℤ) : ℤ :=
  if l > N - width 10 m ∨ m = 0 then
    if l - (N - width 10 m) = 0 then 1 else l - (N - width 10 m)
  else l

theorem leadingZeros_encode {left : ℕ} (hleft : left ≤ N)
    (hm : m < 10 ^ left) :
    (encode N m l s).leadingZeros left = .ok (left - width 10 m) := by
  induction left with
  | zero => rw [leadingZeros, Nat.zero_sub]
  | succ left ih =>
      have hread : (encode N m l s).read (N - (left + 1)) =
          .ok (digit 10 m left : ℤ) := by
        have hindex : (N : ℤ) - (left + 1) = ((N - (left + 1) : ℕ) : ℤ) := by
          omega
        rw [hindex]
        exact read_weight (by omega)
      rw [leadingZeros, hread, ok_bind]
      by_cases hzero : m < 10 ^ left
      · have hwidth : width 10 m ≤ left := (width_le_iff (by omega)).mpr hzero
        rw [digit_eq_zero_of_lt hzero, if_pos (by rfl), ih (by omega) hzero,
          ok_bind]
        congr 1
        omega
      · have hlow := Nat.le_of_not_lt hzero
        have hdiv := Nat.div_pos hlow (by positivity)
        rw [digit_eq_div_of_lt hm, if_neg (by omega),
          width_eq_succ (by omega) hlow hm, Nat.sub_self]

theorem shrink_encode (hm : m < 10 ^ N) :
    (encode N m l s).shrink = .ok (encode N m (shrinkLen N m l) s) := by
  have hwidth : width 10 m ≤ N := (width_le_iff (by omega)).mpr hm
  have hzeros : ((N - width 10 m : ℕ) : ℤ) = N - width 10 m := by omega
  have hall : N - width 10 m = N ↔ N = 0 ∨ m = 0 := by
    constructor
    · intro h
      by_contra hne
      have := width_pos (B := 10) (by omega) (m := m) (by omega)
      omega
    · rintro (h | h)
      · omega
      · rw [h, width_zero, Nat.sub_zero]
  have hempty : N = 0 → m = 0 := by
    rintro rfl
    simpa using hm
  have hcond : ((l > N - width 10 m) ∨ N - width 10 m = N) ↔
      (l > N - width 10 m ∨ m = 0) := by
    rw [hall]
    tauto
  rw [shrink, leadingZeros_encode (le_refl N) hm, ok_bind, encode_len, hzeros,
    shrinkLen]
  by_cases hcut : l > N - width 10 m ∨ m = 0
  · rw [if_pos (hcond.mpr hcut), if_pos hcut]
    simp only [mk_encode, encode_isPositive]
  · rw [if_neg fun h => hcut (hcond.mp h), if_neg hcut]

/-- On a full-length result `shrink` leaves the significant digits. -/
theorem shrinkLen_full (hm : m < 10 ^ N) :
    shrinkLen N m N = normalLen m := by
  have hwidth : width 10 m ≤ N := (width_le_iff (by omega)).mpr hm
  rw [shrinkLen, normalLen]
  by_cases hm0 : m = 0
  · simp [hm0]
  · have := width_pos (B := 10) (by omega) (m := m) (by omega)
    rw [if_pos (Or.inl (by omega)), if_neg (by omega)]
    omega

end BigInteger
end MiscCode
