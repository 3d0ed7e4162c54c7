import MiscCode.BigInteger.Product

/-!
# Closed forms of the operators

What an operator returns on operands with leading zeros allowed, whichever
budget it ran under: the natural number in the array, the length and the sign.
The forms show how often each sign case shrinks its result, and `shrink` looks
at the zeros of the whole array, not at those within the length.
-/

namespace MiscCode
namespace BigInteger

open Positional

variable {N m n L K f : ℕ} {s t : Bool}

/-- The natural number held, the length and the sign. -/
@[ext] structure Form where
  digits : ℕ
  len : ℤ
  isPositive : Bool
  deriving DecidableEq, Repr

/-- The number of this form in an array of `N` digits. -/
def Form.number (N : ℕ) (F : Form) : BigInteger N :=
  encode N F.digits F.len F.isPositive

/-- The form after `shrink`. -/
def Form.shrink (N : ℕ) (F : Form) : Form :=
  { F with len := shrinkLen N F.digits F.len }

/-- The form after `isPositive = false`. -/
def Form.negate (F : Form) : Form := { F with isPositive := false }

/-- The length lies in the array and covers the digits. -/
def Form.Covered (N : ℕ) (F : Form) : Prop :=
  normalLen F.digits ≤ F.len ∧ F.len ≤ N

/-! ## Forms and the representation invariant -/

theorem number_inj {F G : Form} (hF : F.digits < 10 ^ N)
    (hG : G.digits < 10 ^ N) (h : F.number N = G.number N) : F = G := by
  have hdigits := congrArg magnitude h
  have hlen := congrArg len h
  have hsign := congrArg isPositive h
  rw [Form.number, Form.number, magnitude_encode hF, magnitude_encode hG]
    at hdigits
  simp only [Form.number, encode_len, encode_isPositive] at hlen hsign
  exact Form.ext (by exact_mod_cast hdigits) hlen hsign

theorem covered_of_fits {l : ℤ} (h : Fits N m L) (hl : l = L) :
    Form.Covered N ⟨m, l, s⟩ := by
  have hcovers := (normalLen_le_iff h.one_le).mpr h.lt
  have hle := h.le
  constructor
  · simp only [hl]
    exact_mod_cast hcovers
  · simp only [hl]
    exact_mod_cast hle

theorem Form.Covered.exists_fits {F : Form} (h : F.Covered N) :
    ∃ L : ℕ, F.len = L ∧ Fits N F.digits L := by
  have hone := one_le_normalLen F.digits
  obtain ⟨hcovers, hle⟩ := h
  obtain ⟨L, hL⟩ := Int.eq_ofNat_of_zero_le (show 0 ≤ F.len by omega)
  refine ⟨L, hL, by omega, by omega, ?_⟩
  exact (normalLen_le_iff (by omega)).mp (by omega)

/-- The representation invariant of a number of this form. -/
theorem wellFormed_number_iff {F : Form} (hF : F.digits < 10 ^ N) :
    (F.number N).WellFormed ↔ F.Covered N := by
  constructor
  · intro h
    obtain ⟨m, L, s, hfits, heq⟩ := h.exists_encode
    have hform : F = ⟨m, L, s⟩ := number_inj hF hfits.lt_pow heq
    rw [hform]
    exact covered_of_fits hfits rfl
  · intro h
    obtain ⟨L, hL, hfits⟩ := h.exists_fits
    rw [Form.number, hL]
    exact wellFormed_encode hfits

/-! ## When shrinking keeps a number well-formed -/

/-- `shrink` cuts no digit of `t` at length `l`: the length is the whole
array, so that all zeros it counts are leading ones, or it is so short that it
is left alone. -/
def KeepsDigits (N t : ℕ) (l : ℤ) : Prop :=
  l = N ∨ (t ≠ 0 ∧ l + width 10 t ≤ N)

instance (t : ℕ) (l : ℤ) : Decidable (KeepsDigits N t l) :=
  inferInstanceAs (Decidable (_ ∨ _))

theorem width_eq_zero_iff : width 10 m = 0 ↔ m = 0 := by
  constructor
  · intro h
    have := (width_le_iff (B := 10) (m := m) (k := 0) (by omega)).mp (by omega)
    omega
  · rintro rfl
    exact width_zero 10

theorem width_le (hm : m < 10 ^ N) : width 10 m ≤ N :=
  (width_le_iff (by omega)).mpr hm

/-- Shrinking never lengthens a number. -/
theorem shrinkLen_le (hN : 0 < N) (hm : m < 10 ^ N) (l : ℤ) :
    shrinkLen N m l ≤ l := by
  have hwidth := width_le hm
  have hzero := width_eq_zero_iff (m := m)
  rw [shrinkLen]
  split
  next hcut =>
    split
    next => omega
    next => omega
  next => exact le_rfl

theorem covered_shrink {F : Form} (hN : 0 < N) (hF : F.digits < 10 ^ N)
    (hlen : F.len ≤ N) :
    (F.shrink N).Covered N ↔ F.Covered N ∧ KeepsDigits N F.digits F.len := by
  have hwidth := width_le hF
  have hzero := width_eq_zero_iff (m := F.digits)
  have hnormal : normalLen F.digits = max 1 (width 10 F.digits) := rfl
  simp only [Form.Covered, Form.shrink, KeepsDigits, shrinkLen, hnormal]
  split
  next hcut =>
    split
    next => omega
    next => omega
  next => omega

/-- The length after a `shrink` that cuts no digit. -/
theorem shrinkLen_of_keeps {l : ℤ} (hm : m < 10 ^ N)
    (h : KeepsDigits N m l) :
    shrinkLen N m l = if l = N then (normalLen m : ℤ) else l := by
  by_cases hl : l = N
  · rw [if_pos hl, hl, shrinkLen_full hm]
  · obtain ⟨hm0, hle⟩ := h.resolve_left hl
    rw [if_neg hl, shrinkLen, if_neg]
    omega

/-- Two `shrink` calls in a row cut no digit. -/
def KeepsTwice (N t : ℕ) (l : ℤ) : Prop :=
  KeepsDigits N t l ∧ KeepsDigits N t (if l = N then normalLen t else l)

instance (t : ℕ) (l : ℤ) : Decidable (KeepsTwice N t l) :=
  inferInstanceAs (Decidable (_ ∧ _))

theorem covered_shrink_twice {F : Form} (hN : 0 < N)
    (hF : F.digits < 10 ^ N) (hlen : F.len ≤ N) :
    ((F.shrink N).shrink N).Covered N ↔
      F.Covered N ∧ KeepsTwice N F.digits F.len := by
  have hle : (F.shrink N).len ≤ N := le_trans (shrinkLen_le hN hF F.len) hlen
  rw [covered_shrink (F := F.shrink N) hN hF hle, covered_shrink hN hF hlen,
    KeepsTwice, and_assoc]
  constructor
  · rintro ⟨hcovered, hkeeps, hagain⟩
    rw [Form.shrink, shrinkLen_of_keeps hF hkeeps] at hagain
    exact ⟨hcovered, hkeeps, hagain⟩
  · rintro ⟨hcovered, hkeeps, hagain⟩
    rw [Form.shrink, shrinkLen_of_keeps hF hkeeps]
    exact ⟨hcovered, hkeeps, hagain⟩

/-! ## Forms of returned numbers -/

/-- Whatever the call returns has the form `F`. -/
def HasForm (o : Run (BigInteger N)) (F : Form) : Prop :=
  ∀ r, o = .ok r → F.digits < 10 ^ N ∧ r = F.number N

theorem hasForm_error {e : Stop} {F : Form} :
    HasForm (.error e : Run (BigInteger N)) F :=
  fun _ h => absurd h Fuel.error_ne_ok

theorem hasForm_ok {F : Form} (hF : F.digits < 10 ^ N) :
    HasForm (.ok (F.number N)) F :=
  fun _ h => ⟨hF, (Except.ok.inj h).symm⟩

theorem HasForm.shrink {o : Run (BigInteger N)} {F : Form}
    (h : HasForm o F) : HasForm (o >>= BigInteger.shrink) (F.shrink N) := by
  intro r hr
  obtain ⟨a, ha, hr⟩ := Fuel.bind_eq_ok.mp hr
  obtain ⟨hF, rfl⟩ := h a ha
  rw [Form.number, shrink_encode hF] at hr
  exact ⟨hF, (Except.ok.inj hr).symm⟩

theorem HasForm.negateShrink {o : Run (BigInteger N)} {F : Form}
    (h : HasForm o F) :
    HasForm (o >>= BigInteger.negateShrink) (F.negate.shrink N) := by
  intro r hr
  obtain ⟨a, ha, hr⟩ := Fuel.bind_eq_ok.mp hr
  obtain ⟨hF, rfl⟩ := h a ha
  rw [BigInteger.negateShrink, Form.number, mk_encode, shrink_encode hF,
    encode_len] at hr
  exact ⟨hF, (Except.ok.inj hr).symm⟩

/-- Two non-negative numbers, added. -/
def sumForm (m L n K : ℕ) : Form := ⟨m + n, sumLen L K (m + n), true⟩

/-- What the borrow loop and the first `shrink` leave of `m - n`. -/
def wrapForm (N m n : ℕ) (s : Bool) : Form :=
  ⟨wrapSub N m n, normalLen (wrapSub N m n), s⟩

/-- Two non-negative numbers, subtracted: the operands are swapped when the
first compares less. -/
def differenceForm (N m L n K : ℕ) : Form :=
  if Outranks m L n K ∨ m = n then wrapForm N m n true
  else (wrapForm N n m false).shrink N

/-- `operator -`. -/
def subForm (N m L : ℕ) (s : Bool) (n K : ℕ) (t : Bool) : Form :=
  match s, t with
  | true, true => differenceForm N m L n K
  | true, false => (sumForm m L n K).shrink N
  | false, true => ((sumForm n K m L).shrink N).negate.shrink N
  | false, false => (differenceForm N n K m L).shrink N

/-- `operator +`. -/
def addForm (N m L : ℕ) (s : Bool) (n K : ℕ) (t : Bool) : Form :=
  match s, t with
  | true, true => sumForm m L n K
  | true, false => differenceForm N m L n K
  | false, true => differenceForm N n K m L
  | false, false => subForm N m L false n K true

/-- `operator *`. -/
def mulForm (m L : ℕ) (s : Bool) (n K : ℕ) (t : Bool) : Form :=
  ⟨m * n, prodLen L K (m * n), s && t⟩

theorem add_positive_hasForm (hm : Fits N m L) (hn : Fits N n K) :
    HasForm (add f (encode N m L true) (encode N n K true))
      (sumForm m L n K) := by
  cases f with
  | zero => rw [add]; exact hasForm_error
  | succ f =>
      rw [add_positive hm.le hm.lt hn]
      split
      next hsum => exact hasForm_ok (F := sumForm m L n K) hsum
      next => exact hasForm_error

theorem sub_positive_hasForm (hm : Fits N m L) (hn : Fits N n K) :
    HasForm (sub f (encode N m L true) (encode N n K true))
      (differenceForm N m L n K) := by
  cases f with
  | zero => rw [sub]; exact hasForm_error
  | succ f =>
      by_cases hfront : Outranks m L n K ∨ m = n
      · rw [sub_not_smaller hm hn hfront, differenceForm, if_pos hfront]
        exact hasForm_ok (F := wrapForm N m n true) (wrapSub_lt N m n)
      · rw [differenceForm, if_neg hfront]
        have hrank : ¬ Outranks m L n K := fun h => hfront (Or.inl h)
        have hne : m ≠ n := fun h => hfront (Or.inr h)
        rw [sub_smaller hm hn hrank hne]
        by_cases hrank' : Outranks n K m L
        · cases f with
          | zero => rw [sub]; exact hasForm_error
          | succ f =>
              rw [sub_not_smaller hn hm (Or.inl hrank')]
              exact (hasForm_ok (F := wrapForm N n m true)
                (wrapSub_lt N n m)).negateShrink
        · have hclash : Clash n K m L := ⟨hne.symm, hrank', hrank⟩
          rw [sub_clash hn hm hclash]
          exact hasForm_error

/-- A negative number is added by subtracting its magnitude. -/
theorem add_left_negative_hasForm (hm : Fits N m L) (hn : Fits N n K) :
    HasForm (add f (encode N m L false) (encode N n K true))
      (differenceForm N n K m L) := by
  cases f with
  | zero => rw [add]; exact hasForm_error
  | succ f =>
      rw [add_left_negative hm hn]
      exact sub_positive_hasForm hn hm

/-- A negative number is subtracted by adding its magnitude. -/
theorem sub_right_negative_hasForm (hm : Fits N m L) (hn : Fits N n K) :
    HasForm (sub f (encode N m L true) (encode N n K false))
      ((sumForm m L n K).shrink N) := by
  cases f with
  | zero => rw [sub]; exact hasForm_error
  | succ f =>
      rw [sub_right_negative _ hn]
      exact (add_positive_hasForm hm hn).shrink

theorem sub_left_negative_hasForm (hm : Fits N m L) (hn : Fits N n K) :
    HasForm (sub f (encode N m L false) (encode N n K true))
      (((sumForm n K m L).shrink N).negate.shrink N) := by
  cases f with
  | zero => rw [sub]; exact hasForm_error
  | succ f =>
      rw [sub_left_negative hm hn]
      exact (sub_right_negative_hasForm hn hm).negateShrink

/-- Whatever `operator -` returns has the form given for its signs. -/
theorem sub_hasForm (hm : Fits N m L) (hn : Fits N n K) :
    HasForm (sub f (encode N m L s) (encode N n K t))
      (subForm N m L s n K t) := by
  cases s with
  | true =>
      cases t with
      | true => exact sub_positive_hasForm hm hn
      | false => exact sub_right_negative_hasForm hm hn
  | false =>
      cases t with
      | true => exact sub_left_negative_hasForm hm hn
      | false =>
          cases f with
          | zero => rw [sub]; exact hasForm_error
          | succ f =>
              rw [sub_right_negative _ hn]
              exact (add_left_negative_hasForm hm hn).shrink

/-- Whatever `operator +` returns has the form given for its signs. -/
theorem add_hasForm (hm : Fits N m L) (hn : Fits N n K) :
    HasForm (add f (encode N m L s) (encode N n K t))
      (addForm N m L s n K t) := by
  cases t with
  | true =>
      cases s with
      | true => exact add_positive_hasForm hm hn
      | false => exact add_left_negative_hasForm hm hn
  | false =>
      cases f with
      | zero => rw [add]; exact hasForm_error
      | succ f =>
          rw [add_right_negative _ hn]
          cases s with
          | true => exact sub_positive_hasForm hm hn
          | false => exact sub_left_negative_hasForm hm hn

/-- A product that is returned fits, and has the form given for its signs. -/
theorem mul_returned {r : BigInteger N} (hm : Fits N m L) (hn : Fits N n K)
    (h : mul f (encode N m L s) (encode N n K t) = .ok r) :
    (L + K - 1 ≤ N ∧ m * n < 10 ^ N) ∧
      r = (mulForm m L s n K t).number N := by
  have hmore : mul (f + 1) (encode N m L s) (encode N n K t) = .ok r :=
    (mul_steady _ _ f (f + 1) (Nat.le_succ f)
      (by simp only [h]; exact Fuel.ok_ne_error)).trans h
  rw [mul_encode hm hn] at hmore
  split at hmore
  next hfits => exact ⟨hfits, (Except.ok.inj hmore).symm⟩
  next => exact absurd hmore Fuel.error_ne_ok

/-! ## Forms that are covered -/

theorem fits_sumLen (hm : Fits N m L) (hn : Fits N n K)
    (hsum : m + n < 10 ^ N) : Fits N (m + n) (sumLen L K (m + n)) := by
  have hone := hm.one_le
  have hLN := hm.le
  have hKN := hn.le
  rw [sumLen]
  generalize hT : max 1 (max L K) = T
  have hmT : m < 10 ^ T := pow_mono (by omega) hm.lt
  have hnT : n < 10 ^ T := pow_mono (by omega) hn.lt
  split
  next hshort => exact ⟨by omega, by omega, hshort⟩
  next hlong =>
    have hTN := (Nat.pow_lt_pow_iff_right (a := 10) (by omega)).mp
      (lt_of_le_of_lt (Nat.le_of_not_lt hlong) hsum)
    refine ⟨by omega, by omega, ?_⟩
    rw [pow_succ]
    omega

theorem covered_sumForm (hm : Fits N m L) (hn : Fits N n K)
    (hsum : m + n < 10 ^ N) : (sumForm m L n K).Covered N :=
  covered_of_fits (fits_sumLen hm hn hsum) rfl

theorem covered_mulForm (hm : Fits N m L) (hn : Fits N n K)
    (hlen : L + K - 1 ≤ N) (hprod : m * n < 10 ^ N) :
    (mulForm m L s n K t).Covered N :=
  covered_of_fits (fits_prodLen hm.one_le hn.one_le hlen hprod
    (mul_lt_pow hm.lt hn.lt)) rfl

theorem covered_wrapForm (hN : 0 < N) (m n : ℕ) (s : Bool) :
    (wrapForm N m n s).Covered N :=
  covered_of_fits (fits_normalLen ((normalLen_le_iff hN).mpr
    (wrapSub_lt N m n))) rfl

end BigInteger
end MiscCode
