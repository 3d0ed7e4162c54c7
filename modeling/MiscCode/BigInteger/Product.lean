import MiscCode.BigInteger.Signed

/-!
# Multiplication

`operator *` builds one row for each digit of the right operand, shifted by
its place, and adds the rows from the top down.  The rows and the partial sums
fit as long as the lengths and the product do, so the product either comes out
exactly or some access leaves an array.
-/

namespace MiscCode
namespace BigInteger

open Positional

variable {N m n k L K f : ℕ} {l : ℤ} {s t : Bool}

/-! ## One row -/

/-- The length of a row before its zeros are appended. -/
def rowLen (L p : ℕ) : ℕ := if p < 10 ^ L then L else L + 1

theorem row_lt {d : ℕ} (hd : d ≤ 9) (hm : m < 10 ^ L) : d * m < 10 ^ (L + 1) := by
  have := Nat.mul_le_mul_right m hd
  rw [pow_succ]
  omega

theorem lt_pow_rowLen {d : ℕ} (hd : d ≤ 9) (hm : m < 10 ^ L) :
    d * m < 10 ^ rowLen L (d * m) := by
  rw [rowLen]
  split
  next h => exact h
  next => exact row_lt hd hm

theorem rowColumns_succ (d m k : ℕ) :
    d * (m % 10 ^ (k + 1)) =
      d * (m % 10 ^ k) + d * digit 10 m k * 10 ^ k := by
  rw [mod_pow_succ]
  ring

/-- Where the row loop can be after `k` cells: within the left operand, or one
past it for a last carry. -/
def RowReaches (L p k : ℕ) : Prop := k ≤ L ∨ (k = L + 1 ∧ 10 ^ L ≤ p)

/-- With the whole operand read and no carry left, the row is complete. -/
theorem row_complete {d : ℕ} (hm : Fits N m L) (hk : k ≤ N)
    (hreach : RowReaches L (d * m) k) (hLk : L ≤ k)
    (hlt : d * (m % 10 ^ k) < 10 ^ k) :
    d * m < 10 ^ N ∧ rowLen L (d * m) = k ∧
      d * (m % 10 ^ k) % 10 ^ k = d * m := by
  have hmod : m % 10 ^ k = m := Nat.mod_eq_of_lt (pow_mono hLk hm.lt)
  rw [hmod] at hlt ⊢
  refine ⟨pow_mono hk hlt, ?_, Nat.mod_eq_of_lt hlt⟩
  rw [rowLen]
  rcases hreach with hkL | ⟨rfl, hlow⟩
  · obtain rfl : k = L := by omega
    exact if_pos hlt
  · exact if_neg (by omega)

/-- A row that goes on past the operand has a last carry to write. -/
theorem RowReaches.succ {d : ℕ} (hd : d ≤ 9) (hm : m < 10 ^ L)
    (hreach : RowReaches L (d * m) k)
    (hmore : k < L ∨ d * (m % 10 ^ k) / 10 ^ k ≠ 0) :
    RowReaches L (d * m) (k + 1) := by
  rcases Nat.lt_or_ge k L with hlt | hge
  · exact Or.inl hlt
  · have hmod : m % 10 ^ k = m := Nat.mod_eq_of_lt (pow_mono hge hm)
    have hover : 10 ^ k ≤ d * m := by
      by_contra h
      have hzero := hmore.resolve_left (by omega)
      rw [hmod] at hzero
      exact hzero (Nat.div_eq_of_lt (by omega))
    rcases hreach with hkL | ⟨rfl, -⟩
    · obtain rfl : k = L := by omega
      exact Or.inr ⟨rfl, hover⟩
    · exact absurd (row_lt hd hm) (by omega)

/-- The row loop multiplies by one digit, and leaves the array exactly when
the row does not fit. -/
theorem rowLoop_encode {b : BigInteger N} {i : ℤ} {d : ℕ}
    (hread : b.read i = .ok (d : ℤ)) (hd : d ≤ 9) (hm : Fits N m L)
    (hk : k ≤ N) (hreach : RowReaches L (d * m) k) :
    rowLoop (encode N m L s) b i (N - k)
        ((d * (m % 10 ^ k) / 10 ^ k : ℕ) : ℤ)
        (encode N (d * (m % 10 ^ k) % 10 ^ k) k true) =
      if d * m < 10 ^ N then .ok (encode N (d * m) (rowLen L (d * m)) true)
      else .error .outOfBounds := by
  have hLN := hm.le
  generalize hj : N - k = j
  induction j generalizing k with
  | zero =>
      obtain rfl : k = N := by omega
      rw [rowLoop, encode_len]
      by_cases hlt : d * (m % 10 ^ k) < 10 ^ k
      · obtain ⟨hfits, hlen, hrow⟩ := row_complete hm hk hreach hLN hlt
        rw [if_neg (by rw [Nat.div_eq_of_lt hlt]; omega), if_pos hfits, hlen,
          hrow]
      · have hne := Nat.div_pos (Nat.le_of_not_lt hlt) (by positivity)
        rw [Nat.mod_eq_of_lt hm.lt_pow] at hlt hne ⊢
        rw [if_pos (by omega), if_neg hlt]
  | succ j ih =>
      have hindex : j + k + 1 = N := by omega
      rw [rowLoop, encode_len]
      by_cases hmore : k < L ∨ d * (m % 10 ^ k) / 10 ^ k ≠ 0
      · have hcolumn : (d : ℤ) * (digit 10 m k : ℤ) +
            ((d * (m % 10 ^ k) / 10 ^ k : ℕ) : ℤ) =
              ((d * digit 10 m k + d * (m % 10 ^ k) / 10 ^ k : ℕ) : ℤ) := by
          push_cast
          ring
        have hlen : (k : ℤ) + 1 = ((k + 1 : ℕ) : ℤ) := by push_cast; ring
        rw [if_pos (by omega)]
        simp only [hread, read_weight hindex, ok_bind, hcolumn, tmod_ten,
          tdiv_ten, write_column hindex rfl, ← rowColumns_succ,
          ← column_div (show 0 < 10 by omega), mk_encode, encode_len,
          encode_isPositive]
        rw [hlen]
        exact ih (by omega) (hreach.succ hd hm.lt hmore) (by omega)
      · push Not at hmore
        have hlt : d * (m % 10 ^ k) < 10 ^ k :=
          (Nat.div_eq_zero_iff_lt (by positivity)).mp hmore.2
        obtain ⟨hfits, hlen, hrow⟩ := row_complete hm hk hreach hmore.1 hlt
        rw [if_neg (by omega), if_pos hfits, hlen, hrow]

theorem rowLoop_fresh {b : BigInteger N} {i : ℤ} {d : ℕ}
    (hread : b.read i = .ok (d : ℤ)) (hd : d ≤ 9) (hm : Fits N m L) :
    rowLoop (encode N m L s) b i N 0 (fresh N) =
      if d * m < 10 ^ N then .ok (encode N (d * m) (rowLen L (d * m)) true)
      else .error .outOfBounds := by
  have h := rowLoop_encode (s := s) (k := 0) hread hd hm (Nat.zero_le N)
    (Or.inl (Nat.zero_le L))
  simpa [fresh_eq_encode, Nat.mod_one] using h

/-! ## Appending zeros -/

theorem toInt_ofInt_cell (b : BigInteger N) (i : ℕ) :
    (Int8.ofInt (b.cell i)).toInt = b.cell i := by
  rw [cell]
  split
  · rw [Int8.ofInt_toInt]
  · rfl

/-- The cells of an array of which a part is rewritten. -/
theorem cell_rewritten (b : BigInteger N) (P : ℕ → Prop) [DecidablePred P]
    (value : ℕ → Int8) {i : ℕ} (hi : i < N) :
    cell { b with
        arr := Vector.ofFn fun j : Fin N =>
          if P j then value j else b.arr[j] } i =
      if P i then (value i).toInt else b.cell i := by
  rw [cell, dif_pos hi, Vector.getElem_ofFn]
  split
  · rfl
  · rw [cell, dif_pos hi]
    rfl

/-- A copy within the array. -/
theorem copyCells_spec (b : BigInteger N) (dst src count : ℤ)
    (hcount : 0 ≤ count) (hdst : 0 ≤ dst) (hdstN : dst + count ≤ N)
    (hsrc : 0 ≤ src) (hsrcN : src + count ≤ N) :
    ∃ r, b.copyCells dst src count = .ok r ∧ r.len = b.len ∧
      r.isPositive = b.isPositive ∧ ∀ i < N, r.cell i =
        if dst ≤ i ∧ i < dst + count then b.cell (i - dst + src).toNat
        else b.cell i := by
  rw [copyCells]
  by_cases hzero : count = 0
  · refine ⟨b, if_pos hzero, rfl, rfl, ?_⟩
    intro i hi
    rw [if_neg (by omega)]
  · rw [if_neg hzero, if_pos (by omega)]
    refine ⟨_, rfl, rfl, rfl, ?_⟩
    intro i hi
    rw [cell_rewritten b (fun i => dst ≤ i ∧ i < dst + count)
      (fun i => Int8.ofInt (b.cell (i - dst + src).toNat)) hi,
      toInt_ofInt_cell]

/-- Clearing within the array. -/
theorem clearCells_spec (b : BigInteger N) (dst count : ℤ)
    (hcount : 0 ≤ count) (hdst : 0 ≤ dst) (hdstN : dst + count ≤ N) :
    ∃ r, b.clearCells dst count = .ok r ∧ r.len = b.len ∧
      r.isPositive = b.isPositive ∧ ∀ i < N, r.cell i =
        if dst ≤ i ∧ i < dst + count then 0 else b.cell i := by
  rw [clearCells]
  by_cases hzero : count = 0
  · refine ⟨b, if_pos hzero, rfl, rfl, ?_⟩
    intro i hi
    rw [if_neg (by omega)]
  · rw [if_neg hzero, if_pos (by omega)]
    refine ⟨_, rfl, rfl, rfl, ?_⟩
    intro i hi
    exact cell_rewritten b (fun i => dst ≤ i ∧ i < dst + count) (fun _ => 0) hi

/-- `appendZeros` multiplies by a power of ten, and leaves the array exactly
when the longer number does not fit. -/
theorem appendZeros_encode (hm : Fits N m L) (c : ℕ) :
    (encode N m L s).appendZeros c =
      if L + c ≤ N then .ok (encode N (m * 10 ^ c) ((L + c : ℕ) : ℤ) s)
      else .error .outOfBounds := by
  have hL := hm.one_le
  have hLN := hm.le
  by_cases hfits : L + c ≤ N
  · obtain ⟨r, hr, hrlen, hrsign, hrcell⟩ := copyCells_spec
      (encode N m L s) (N - L - c) (N - L) L
      (by omega) (by omega) (by omega) (by omega) (by omega)
    obtain ⟨r', hr', hlen', hsign', hcell'⟩ := clearCells_spec r
      (N - c) c (by omega) (by omega) (by omega)
    rw [appendZeros, encode_len, hr, ok_bind, hr', ok_bind, if_pos hfits]
    congr 1
    apply ext_cells
    · intro i hi
      refine (hcell' i hi).trans ?_
      rw [cell_encode hi, digit_mul_pow (by omega)]
      by_cases hclear : N - 1 - i < c
      · rw [if_pos (by omega), if_pos hclear]
        rfl
      · rw [if_neg (by omega), if_neg hclear, hrcell i hi]
        by_cases hcopy : N - 1 - i - c < L
        · have hweight : N - 1 - ((i : ℤ) - (N - L - c) + (N - L)).toNat =
              N - 1 - i - c := by omega
          rw [if_pos (by omega), cell_encode (by omega), hweight]
        · have hhigh : m < 10 ^ (N - 1 - i - c) :=
            pow_mono (Nat.le_of_not_lt hcopy) hm.lt
          have hhigh' : m < 10 ^ (N - 1 - i) := pow_mono (by omega) hhigh
          rw [if_neg (by omega), cell_encode hi, digit_eq_zero_of_lt hhigh,
            digit_eq_zero_of_lt hhigh']
    · simp [hlen', hrlen]
    · simp [hsign', hrsign]
  · rw [appendZeros, encode_len, copyCells, if_neg (by omega),
      if_neg (by omega), if_neg hfits, error_bind]

/-! ## All rows -/

/-- The row of the digit at weight `w` fits into the array. -/
def RowFits (N m L n w : ℕ) : Prop := rowLen L (digit 10 n w * m) + w ≤ N

instance (w : ℕ) : Decidable (RowFits N m L n w) :=
  inferInstanceAs (Decidable (_ ≤ _))

/-- The row of the digit at weight `w`. -/
def row (N m L n w : ℕ) : BigInteger N :=
  encode N (digit 10 n w * m * 10 ^ w)
    ((rowLen L (digit 10 n w * m) + w : ℕ) : ℤ) true

/-- The rows in the order of the source, from the first digit down. -/
def rowList (N m L n : ℕ) : ℕ → List (BigInteger N)
  | 0 => []
  | w + 1 => row N m L n w :: rowList N m L n w

theorem le_rowLen (L p : ℕ) : L ≤ rowLen L p := by
  rw [rowLen]
  split <;> omega

theorem rowLen_le (L p : ℕ) : rowLen L p ≤ L + 1 := by
  rw [rowLen]
  split <;> omega

/-- One round of the loop over the digits. -/
theorem row_encode {b : BigInteger N} {i : ℤ} {w : ℕ} (hm : Fits N m L)
    (hread : b.read i = .ok (digit 10 n w : ℤ)) :
    (rowLoop (encode N m L s) b i N 0 (fresh N) >>= fun row =>
        row.appendZeros w) =
      if RowFits N m L n w then .ok (row N m L n w)
      else .error .outOfBounds := by
  have hd9 := digit_le_nine n w
  have hp := lt_pow_rowLen hd9 hm.lt
  have hge := le_rowLen L (digit 10 n w * m)
  have hone := hm.one_le
  rw [rowLoop_fresh hread hd9 hm]
  by_cases hlen : rowLen L (digit 10 n w * m) ≤ N
  · rw [if_pos (pow_mono hlen hp), ok_bind,
      appendZeros_encode ⟨by omega, hlen, hp⟩]
    rfl
  · have hLN := hm.le
    have hover : 10 ^ N ≤ digit 10 n w * m := by
      rw [rowLen] at hlen
      split at hlen
      next => exact absurd hLN hlen
      next h =>
        obtain rfl : N = L := by omega
        exact Nat.le_of_not_lt h
    have hnot : ¬ RowFits N m L n w := by
      rw [RowFits]
      omega
    rw [if_neg (by omega), if_neg hnot, error_bind]

/-- The loop over the digits builds every row when all of them fit, and leaves
an array otherwise. -/
theorem rows_encode (hm : Fits N m L) (hn : Fits N n K) {w : ℕ}
    (hw : w ≤ K) :
    rows (encode N m L s) (encode N n K t) w =
      if ∀ v < w, RowFits N m L n v then .ok (rowList N m L n w)
      else .error .outOfBounds := by
  induction w with
  | zero =>
      rw [if_pos (fun v hv => by omega)]
      rfl
  | succ w ih =>
      have hKN := hn.le
      have hread : (encode N n K t).read (N - (w + 1)) =
          .ok (digit 10 n w : ℤ) := by
        have hindex : (N : ℤ) - (w + 1) = ((N - (w + 1) : ℕ) : ℤ) := by omega
        rw [hindex]
        exact read_weight (by omega)
      have hall : (∀ v < w + 1, RowFits N m L n v) ↔
          RowFits N m L n w ∧ ∀ v < w, RowFits N m L n v := by
        simp only [Nat.lt_succ_iff_lt_or_eq, or_imp, forall_and, forall_eq]
        exact and_comm
      rw [rows, ← bind_assoc, row_encode hm hread, ih (by omega)]
      simp only [hall]
      by_cases hfits : RowFits N m L n w
      · by_cases hrest : ∀ v < w, RowFits N m L n v
        · rw [if_pos hfits, if_pos hrest, if_pos ⟨hfits, hrest⟩]
          rfl
        · rw [if_pos hfits, if_neg hrest, if_neg fun h => hrest h.2]
          rfl
      · rw [if_neg hfits, error_bind, if_neg fun h => hfits h.1]

/-! ## Adding the rows -/

/-- The length of a product of lengths `L` and `K`. -/
def prodLen (L K p : ℕ) : ℕ :=
  if p < 10 ^ (L + K - 1) then L + K - 1 else L + K

/-- The part of `m * n` due to the digits of `n` from weight `10 ^ w` on. -/
def upperProduct (m n w : ℕ) : ℕ := m * (n / 10 ^ w * 10 ^ w)

theorem upperProduct_succ (m n w : ℕ) :
    upperProduct m n w =
      upperProduct m n (w + 1) + digit 10 n w * m * 10 ^ w := by
  rw [upperProduct, upperProduct, div_pow_eq, pow_succ]
  ring

theorem upperProduct_le (m n w : ℕ) : upperProduct m n w ≤ m * n :=
  Nat.mul_le_mul_left m (Nat.div_mul_le_self n _)

theorem mul_lt_pow (hm : m < 10 ^ L) (hn : n < 10 ^ K) :
    m * n < 10 ^ (L + K) := by
  rw [pow_add]
  exact Nat.mul_lt_mul'' hm hn

/-- Adding a lower row lengthens the sum only by a last carry. -/
theorem sumLen_prodLen {S T W : ℕ} (hL : 1 ≤ L) (hK : 1 ≤ K)
    (hW : W ≤ L + K - 1) (hle : S ≤ T) (hlt : T < 10 ^ (L + K)) :
    sumLen (prodLen L K S) W T = prodLen L K T := by
  have hsucc : L + K - 1 + 1 = L + K := by omega
  rw [sumLen]
  by_cases hS : S < 10 ^ (L + K - 1)
  · have hmax : max 1 (max (prodLen L K S) W) = L + K - 1 := by
      rw [prodLen, if_pos hS]
      omega
    rw [hmax, hsucc, prodLen]
  · have hmax : max 1 (max (prodLen L K S) W) = L + K := by
      rw [prodLen, if_neg hS]
      omega
    rw [hmax, if_pos hlt, prodLen, if_neg (by omega)]

theorem fits_prodLen {S : ℕ} (hL : 1 ≤ L) (hK : 1 ≤ K)
    (hlen : L + K - 1 ≤ N) (hS : S < 10 ^ N) (hlt : S < 10 ^ (L + K)) :
    Fits N S (prodLen L K S) := by
  rw [prodLen]
  split
  next h => exact ⟨by omega, hlen, h⟩
  next h =>
    have := (Nat.pow_lt_pow_iff_right (a := 10) (by omega)).mp
      (lt_of_le_of_lt (Nat.le_of_not_lt h) hS)
    exact ⟨by omega, by omega, hlt⟩

theorem fits_row (hm : Fits N m L) {w : ℕ} (h : RowFits N m L n w) :
    Fits N (digit 10 n w * m * 10 ^ w)
      (rowLen L (digit 10 n w * m) + w) := by
  have hge := le_rowLen L (digit 10 n w * m)
  have hone := hm.one_le
  refine ⟨by omega, h, ?_⟩
  rw [pow_add]
  exact Nat.mul_lt_mul_of_pos_right (lt_pow_rowLen (digit_le_nine n w) hm.lt)
    (by positivity)

/-- The summing loop, with the rows above weight `10 ^ w` already added. -/
theorem sumRows_encode (hm : Fits N m L) (hn : Fits N n K)
    (hlen : L + K - 1 ≤ N) {w : ℕ} (hw : w < K)
    (hrows : ∀ v < w, RowFits N m L n v)
    (hS : upperProduct m n w < 10 ^ N) :
    (rowList N m L n w).foldlM (fun result row => add (f + 1) result row)
        (encode N (upperProduct m n w) (prodLen L K (upperProduct m n w)) true) =
      if m * n < 10 ^ N then .ok (encode N (m * n) (prodLen L K (m * n)) true)
      else .error .outOfBounds := by
  induction w with
  | zero =>
      have hall : upperProduct m n 0 = m * n := by simp [upperProduct]
      rw [hall] at hS ⊢
      rw [if_pos hS]
      rfl
  | succ w ih =>
      have hprod := mul_lt_pow hm.lt hn.lt
      have hle := upperProduct_le m n (w + 1)
      have hle' := upperProduct_le m n w
      have hacc := fits_prodLen hm.one_le hn.one_le hlen hS
        (lt_of_le_of_lt hle hprod)
      have hrow := fits_row hm (hrows w (by omega))
      have hnext := upperProduct_succ m n w
      have hrowLen := rowLen_le L (digit 10 n w * m)
      have hsumLen := sumLen_prodLen (S := upperProduct m n (w + 1))
        (T := upperProduct m n w) (W := rowLen L (digit 10 n w * m) + w)
        hm.one_le hn.one_le (by omega) (by omega) (by omega)
      rw [rowList, row, List.foldlM_cons, add_positive hacc.le hacc.lt hrow,
        ← hnext, hsumLen]
      by_cases hfits : upperProduct m n w < 10 ^ N
      · rw [if_pos hfits, ok_bind]
        exact ih (by omega) (fun v hv => hrows v (by omega)) hfits
      · rw [if_neg hfits, if_neg (by omega), error_bind]

/-- When the product fits, the rows need room for the first one only. -/
theorem rows_fit_iff (hn : Fits N n K)
    (hprod : m * n < 10 ^ N) :
    (∀ v < K, RowFits N m L n v) ↔ L + K - 1 ≤ N := by
  have hK := hn.one_le
  constructor
  · intro h
    have htop := h (K - 1) (by omega)
    have := le_rowLen L (digit 10 n (K - 1) * m)
    rw [RowFits] at htop
    omega
  · intro hlen v hv
    rw [RowFits]
    rcases Nat.lt_or_ge v (K - 1) with hlow | htop
    · have := rowLen_le L (digit 10 n v * m)
      omega
    · obtain rfl : v = K - 1 := by omega
      rw [rowLen]
      split
      next => omega
      next hover =>
        have hle : 10 ^ (L + (K - 1)) ≤ m * n := by
          calc
            10 ^ (L + (K - 1)) = 10 ^ L * 10 ^ (K - 1) := pow_add _ _ _
            _ ≤ digit 10 n (K - 1) * m * 10 ^ (K - 1) :=
              Nat.mul_le_mul_right _ (Nat.le_of_not_lt hover)
            _ ≤ upperProduct m n (K - 1) := by
              rw [upperProduct_succ]
              exact Nat.le_add_left _ _
            _ ≤ m * n := upperProduct_le m n (K - 1)
        have := (Nat.pow_lt_pow_iff_right (a := 10) (by omega)).mp
          (lt_of_le_of_lt hle hprod)
        omega

/-- The first row, which is added to a number without digits. -/
theorem upperProduct_top (m : ℕ) {w : ℕ} (hn : n < 10 ^ (w + 1)) :
    upperProduct m n w = 0 + digit 10 n w * m * 10 ^ w := by
  have hzero : upperProduct m n (w + 1) = 0 := by
    rw [upperProduct, Nat.div_eq_of_lt hn, Nat.zero_mul, Nat.mul_zero]
  rw [upperProduct_succ, hzero]

theorem sumLen_top {w : ℕ} (hL : 1 ≤ L) (hm : m < 10 ^ L)
    (hn : n < 10 ^ (w + 1)) :
    sumLen 0 (rowLen L (digit 10 n w * m) + w) (upperProduct m n w) =
      prodLen L (w + 1) (upperProduct m n w) := by
  have hge := le_rowLen L (digit 10 n w * m)
  have htop := upperProduct_top m hn
  rw [Nat.zero_add] at htop
  have hmax : max 1 (max 0 (rowLen L (digit 10 n w * m) + w)) =
      rowLen L (digit 10 n w * m) + w := by omega
  have hshort : upperProduct m n w <
      10 ^ (rowLen L (digit 10 n w * m) + w) := by
    rw [htop, pow_add]
    exact Nat.mul_lt_mul_of_pos_right
      (lt_pow_rowLen (digit_le_nine n w) hm) (by positivity)
  have hpow : upperProduct m n w < 10 ^ (L + w) ↔ digit 10 n w * m < 10 ^ L := by
    rw [htop, pow_add]
    exact Nat.mul_lt_mul_right (by positivity)
  have hlen : L + (w + 1) - 1 = L + w := by omega
  rw [sumLen, hmax, if_pos hshort, prodLen, hlen, rowLen]
  simp only [hpow]
  split <;> omega

/-- `operator *` multiplies the magnitudes when the rows and the product fit,
and leaves an array otherwise. -/
theorem mul_encode (hm : Fits N m L) (hn : Fits N n K) :
    mul (f + 1) (encode N m L s) (encode N n K t) =
      if L + K - 1 ≤ N ∧ m * n < 10 ^ N then
        .ok (encode N (m * n) (prodLen L K (m * n)) (s && t))
      else .error .outOfBounds := by
  obtain ⟨w, rfl⟩ : ∃ w, K = w + 1 := ⟨K - 1, by have := hn.one_le; omega⟩
  have htoNat : ((w + 1 : ℕ) : ℤ).toNat = w + 1 := by omega
  rw [mul, encode_len, if_neg (by omega), htoNat,
    rows_encode hm hn (le_refl _)]
  by_cases hrows : ∀ v < w + 1, RowFits N m L n v
  · have htop := hrows w (by omega)
    have hrow := fits_row hm htop
    have hge := le_rowLen L (digit 10 n w * m)
    have hlen : L + (w + 1) - 1 ≤ N := by
      rw [RowFits] at htop
      omega
    have hfirst := upperProduct_top m hn.lt
    have hfits : upperProduct m n w < 10 ^ N := by
      rw [hfirst, Nat.zero_add]
      exact hrow.lt_pow
    rw [if_pos hrows, ok_bind, rowList, row, List.foldlM_cons, fresh_eq_encode]
    have hadd := add_positive (f := f) (m := 0) (L := 0)
      (Nat.zero_le N) (by simp) hrow
    rw [← hfirst, sumLen_top hm.one_le hm.lt hn.lt,
      if_pos hfits, Nat.cast_zero] at hadd
    rw [hadd, ok_bind, sumRows_encode hm hn hlen (by omega)
      (fun v hv => hrows v (by omega)) hfits]
    by_cases hprod : m * n < 10 ^ N
    · rw [if_pos hprod, if_pos ⟨hlen, hprod⟩, ok_bind, mk_encode]
      rfl
    · rw [if_neg hprod, if_neg fun h => hprod h.2, error_bind]
  · have hnot : ¬ (L + (w + 1) - 1 ≤ N ∧ m * n < 10 ^ N) :=
      fun h => hrows ((rows_fit_iff hn h.2).mpr h.1)
    rw [if_neg hrows, if_neg hnot, error_bind]

/-! ## Answers do not depend on the budget -/

theorem foldlM_add_steadyAt (budget : ℕ) (rows : List (BigInteger N))
    (acc : BigInteger N) :
    Fuel.SteadyAt .outOfFuel budget fun fuel =>
      rows.foldlM (fun result row => add fuel result row) acc := by
  induction rows generalizing acc with
  | nil => exact Fuel.steadyAt_const (.ok acc) budget
  | cons row rows ih =>
      simp only [List.foldlM_cons]
      exact Fuel.SteadyAt.bind (add_steady acc row budget) ih

theorem mul_steady (a b : BigInteger N) :
    Fuel.Steady .outOfFuel fun fuel => mul fuel a b := by
  intro budget
  simp only [mul]
  split
  · exact Fuel.steadyAt_const _ _
  · apply Fuel.SteadyAt.bind (Fuel.steadyAt_const _ _)
    intro intermediate
    exact Fuel.SteadyAt.bind
      (foldlM_add_steadyAt budget intermediate (fresh N))
      fun result => Fuel.steadyAt_const _ _

end BigInteger
end MiscCode
