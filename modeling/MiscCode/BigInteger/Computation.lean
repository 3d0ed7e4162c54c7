import MiscCode.Support.Expression
import MiscCode.BigInteger.Forms
import MiscCode.BigInteger.Text

/-!
# The representation invariant over whole computations

A computation is an expression over decimal strings and `int` values.  Every
number it obtains is well-formed exactly when no `shrink` in it cuts digits
and no literal is an empty string or the most negative `int`.  `operator -`
shrinks the results of the calls it delegates to, whose length is already
short of the whole array, so the condition is about signs and sizes.
-/

namespace MiscCode
namespace BigInteger

open Expression

variable {N m n L K : ℕ} {s t : Bool}

/-! ## Computations -/

/-- The binary operators of the class. -/
inductive Op where
  | add
  | sub
  | mul
  deriving DecidableEq, Repr

/-- The arguments the two constructors are called with. -/
inductive Literal where
  | digits (cs : List Char)
  | int (v : Int32)
  deriving DecidableEq, Repr

/-- The call of an operator under a budget. -/
def Op.call (o : Op) (fuel : ℕ) (a b : BigInteger N) : Run (BigInteger N) :=
  match o with
  | .add => BigInteger.add fuel a b
  | .sub => BigInteger.sub fuel a b
  | .mul => BigInteger.mul fuel a b

/-- The class with `N` digits, as a machine for expressions. -/
def machine (N : ℕ) : Machine Literal Op Stop (BigInteger N) where
  lit
    | .digits cs => ofString cs 10
    | .int v => ofInt v
  op := Op.call

/-- The exact integer an operator stands for. -/
def Op.exact (o : Op) (x y : ℤ) : ℤ :=
  match o with
  | .add => x + y
  | .sub => x - y
  | .mul => x * y

/-- The integers, as a machine for the same expressions. -/
def exactMachine : Machine Literal Op Stop ℤ where
  lit
    | .digits cs => .ok (numeralValue cs)
    | .int v => .ok v.toInt
  op o _ x y := .ok (o.exact x y)

/-- The operands of every product have at most `N` digits together. -/
def productGuard (N : ℕ) : Guard Literal Op (BigInteger N) where
  lit _ := True
  op o a b := o = .mul → a.len + b.len ≤ N

/-- All exact values stay below `10 ^ (N - 1)`, and all products are short. -/
def InRange (N : ℕ) (e : Expression Literal Op) : Prop :=
  Everywhere .outOfFuel exactMachine (fun x => |x| < 10 ^ (N - 1)) e ∧
    Meets .outOfFuel (machine N) (productGuard N) e

theorem op_steady (o : Op) (a b : BigInteger N) :
    Fuel.Steady .outOfFuel fun fuel => o.call fuel a b := by
  cases o with
  | add => exact add_steady a b
  | sub => exact sub_steady a b
  | mul => exact mul_steady a b

theorem machine_steady (N : ℕ) : (machine N).Steady .outOfFuel := op_steady

/-! ## The condition on the operands -/

/-- `shrink` cuts no digit of a number at its normal length. -/
def KeepsNormal (N t : ℕ) : Prop := KeepsDigits N t (normalLen t)

instance (t : ℕ) : Decidable (KeepsNormal N t) :=
  inferInstanceAs (Decidable (KeepsDigits _ _ _))

/-- No `shrink` of `operator -` on these operands cuts digits.  Two
non-negative operands are shrunk again only when they were swapped, operands
of different signs once or twice after an addition, and two negative ones
always. -/
def SubKeeps (N m L : ℕ) (s : Bool) (n K : ℕ) (t : Bool) : Prop :=
  match s, t with
  | true, true => Outranks m L n K ∨ m = n ∨ KeepsNormal N (wrapSub N n m)
  | true, false => KeepsDigits N (m + n) (sumLen L K (m + n))
  | false, true => KeepsTwice N (n + m) (sumLen K L (n + m))
  | false, false =>
      if Outranks n K m L ∨ n = m then KeepsNormal N (wrapSub N n m)
      else KeepsNormal N (wrapSub N m n)

/-- `operator +` adds two non-negative operands and leaves the others, with
one sign changed, to `operator -`. -/
def ThroughSub (P : ℕ → ℕ → Bool → ℕ → ℕ → Bool → Prop) (m L : ℕ) (s : Bool)
    (n K : ℕ) (t : Bool) : Prop :=
  match s, t with
  | true, true => True
  | true, false => P m L true n K true
  | false, true => P n K true m L true
  | false, false => P m L false n K true

/-- A condition on natural numbers, lengths and signs, as one on numbers. -/
def OnOperands (P : ℕ → ℕ → Bool → ℕ → ℕ → Bool → Prop) (a b : BigInteger N) :
    Prop :=
  P a.magnitude.toNat a.len.toNat a.isPositive
    b.magnitude.toNat b.len.toNat b.isPositive

theorem onOperands_encode {P : ℕ → ℕ → Bool → ℕ → ℕ → Bool → Prop}
    (hm : Fits N m L) (hn : Fits N n K) :
    OnOperands P (encode N m L s) (encode N n K t) ↔ P m L s n K t := by
  rw [OnOperands, magnitude_encode hm.lt_pow, magnitude_encode hn.lt_pow]
  simp only [encode_len, encode_isPositive, Int.toNat_natCast]

/-- The literals and calls that keep all digits. -/
def keepsGuard (N : ℕ) : Guard Literal Op (BigInteger N) where
  lit
    | .digits cs => cs ≠ []
    | .int v => v ≠ Int32.minValue
  op
    | .add => OnOperands (ThroughSub (SubKeeps N))
    | .sub => OnOperands (SubKeeps N)
    | .mul => fun _ _ => True

/-! ## The condition is exact -/

theorem keepsTwice_normalLen :
    KeepsTwice N m (normalLen m) ↔ KeepsNormal N m := by
  rw [KeepsTwice, KeepsNormal, ite_self]
  exact and_self_iff

theorem covered_differenceForm (hN : 0 < N) :
    (differenceForm N m L n K).Covered N ↔
      Outranks m L n K ∨ m = n ∨ KeepsNormal N (wrapSub N n m) := by
  rw [differenceForm, ← or_assoc]
  by_cases hfront : Outranks m L n K ∨ m = n
  · rw [if_pos hfront]
    exact iff_of_true (covered_wrapForm hN m n true) (Or.inl hfront)
  · have hcovered := covered_wrapForm hN n m false
    rw [if_neg hfront, covered_shrink hN (wrapSub_lt N n m) hcovered.2,
      or_iff_right hfront]
    exact and_iff_right hcovered

/-- A difference that `operator -` shrinks once more. -/
theorem covered_differenceForm_shrink (hN : 0 < N) :
    ((differenceForm N m L n K).shrink N).Covered N ↔
      if Outranks m L n K ∨ m = n then KeepsNormal N (wrapSub N m n)
      else KeepsNormal N (wrapSub N n m) := by
  rw [differenceForm]
  split
  next hfront =>
    have hcovered := covered_wrapForm hN m n true
    rw [covered_shrink hN (wrapSub_lt N m n) hcovered.2]
    exact and_iff_right hcovered
  next hfront =>
    have hcovered := covered_wrapForm hN n m false
    rw [covered_shrink_twice hN (wrapSub_lt N n m) hcovered.2]
    exact (and_iff_right hcovered).trans keepsTwice_normalLen

theorem covered_subForm (hm : Fits N m L) (hn : Fits N n K)
    (hdigits : (subForm N m L s n K t).digits < 10 ^ N) :
    (subForm N m L s n K t).Covered N ↔ SubKeeps N m L s n K t := by
  cases s with
  | true =>
      cases t with
      | true => exact covered_differenceForm hm.pos
      | false =>
          have hsum := covered_sumForm hm hn hdigits
          have honce := covered_shrink (F := sumForm m L n K) hm.pos hdigits
            hsum.2
          exact honce.trans (and_iff_right hsum)
  | false =>
      cases t with
      | true =>
          have hsum := covered_sumForm hn hm hdigits
          have htwice := covered_shrink_twice (F := sumForm n K m L) hm.pos
            hdigits hsum.2
          exact htwice.trans (and_iff_right hsum)
      | false => exact covered_differenceForm_shrink hm.pos

theorem covered_addForm (hm : Fits N m L) (hn : Fits N n K)
    (hdigits : (addForm N m L s n K t).digits < 10 ^ N) :
    (addForm N m L s n K t).Covered N ↔
      ThroughSub (SubKeeps N) m L s n K t := by
  cases s with
  | true =>
      cases t with
      | true => exact iff_of_true (covered_sumForm hm hn hdigits) trivial
      | false => exact covered_differenceForm hm.pos
  | false =>
      cases t with
      | true => exact covered_differenceForm hm.pos
      | false => exact covered_subForm hm hn hdigits

/-- A number read from a string is well-formed unless the string is empty. -/
theorem wellFormed_ofString_iff {cs : List Char} {x : BigInteger N}
    (h : ofString cs 10 = .ok x) : x.WellFormed ↔ cs ≠ [] := by
  have hcs := isDecimal_of_ofString h
  have hlen := length_le_of_ofString h
  have hlt := numeralValue_lt hcs
  rw [ofString_eq hcs hlen] at h
  obtain rfl := Except.ok.inj h
  constructor
  · rintro hwell rfl
    exact absurd hwell.one_le_len (by simp)
  · intro hne
    exact wellFormed_encode ⟨List.length_pos_of_ne_nil hne, hlen, hlt⟩

/-- A number made from an `int` is well-formed unless it is the most negative
one. -/
theorem wellFormed_ofInt_iff {v : Int32} {x : BigInteger N} (hN : 10 ≤ N)
    (h : ofInt v = .ok x) : x.WellFormed ↔ v ≠ Int32.minValue := by
  constructor
  · rintro hwell rfl
    have hunits := ofInt_minValue_units (by omega) h
    have := (hwell.digits (N - 1) (by omega)).1
    omega
  · intro hv
    have hlt := natAbs_toInt_lt hN v
    rw [ofInt_eq hv hlt (by omega)] at h
    obtain rfl := Except.ok.inj h
    exact wellFormed_encode (fits_normalLen ((normalLen_le_iff (by omega)).mpr hlt))

theorem keepsGuard_exact (hN : 10 ≤ N) :
    (keepsGuard N).Exact .outOfFuel (machine N) WellFormed where
  lit := by
    intro l x hx
    cases l with
    | digits cs => exact wellFormed_ofString_iff hx
    | int v => exact wellFormed_ofInt_iff hN hx
  op := by
    intro o a b r ha hb hcall
    obtain ⟨m, L, s, hm, rfl⟩ := ha.exists_encode
    obtain ⟨n, K, t, hn, rfl⟩ := hb.exists_encode
    obtain ⟨-, f, hr⟩ := hcall
    cases o with
    | add =>
        obtain ⟨hdigits, rfl⟩ := add_hasForm hm hn r hr
        rw [wellFormed_number_iff hdigits, covered_addForm hm hn hdigits]
        exact (onOperands_encode hm hn).symm
    | sub =>
        obtain ⟨hdigits, rfl⟩ := sub_hasForm hm hn r hr
        rw [wellFormed_number_iff hdigits, covered_subForm hm hn hdigits]
        exact (onOperands_encode hm hn).symm
    | mul =>
        obtain ⟨⟨hlen, hprod⟩, rfl⟩ := mul_returned hm hn hr
        rw [wellFormed_number_iff hprod]
        exact iff_of_true (covered_mulForm hm hn hlen hprod) trivial

theorem ofInt_neg_five :
    (ofInt (-5) : Run (BigInteger 500)) = .ok (encode 500 5 (1 : ℕ) false) := by
  have hfive : (-5 : Int32).toInt = -5 := by decide
  have hlen : normalLen 5 = 1 := normalLen_of_lt_ten (by omega)
  rw [ofInt_eq (by decide) (natAbs_toInt_lt (by omega) _) (by omega), hfive]
  simp [hlen]

/-- The inner calls end with a zero of one digit, and the last `shrink` cuts
all cells off its length. -/
theorem sub_neg_five :
    sub 3 (encode 500 5 (1 : ℕ) false) (encode 500 5 (1 : ℕ) false) =
      .ok (encode 500 0 (-499) true) := by
  have hfits : Fits 500 5 1 := ⟨by omega, by omega, by omega⟩
  have hlen : normalLen 0 = 1 := normalLen_of_lt_ten (by omega)
  rw [sub_right_negative _ hfits, add_left_negative hfits hfits,
    sub_not_smaller hfits hfits (Or.inr rfl),
    wrapSub_of_le le_rfl hfits.lt_pow, Nat.sub_self, hlen, ok_bind,
    shrink_encode (by positivity)]
  simp [shrinkLen, Positional.width_zero]

theorem inRange_neg_five :
    InRange 500 (.app .sub (.lit (.int (-5))) (.lit (.int (-5)))) := by
  have hfive : (-5 : Int32).toInt = -5 := by decide
  have hpow : (10 : ℤ) ≤ 10 ^ 499 := le_self_pow₀ (by omega) (by omega)
  have hlit : ∀ x, exactMachine.lit (.int (-5)) = .ok x → |x| < 10 ^ 499 := by
    intro x hx
    rw [← Except.ok.inj hx, hfive]
    exact lt_of_lt_of_le (by decide) hpow
  refine ⟨⟨hlit, hlit, ?_⟩, trivial, trivial, ?_⟩
  · rintro x ⟨-, _, hx⟩
    have hzero : x = 0 := (Except.ok.inj hx).symm
    rw [hzero]
    exact lt_of_lt_of_le (by decide) hpow
  · intro x y _ _ h
    exact absurd h (by decide)

/-- `7 + "12"`. -/
def sevenAddTwelve : Expression Literal Op :=
  .app .add (.lit (.int 7)) (.lit (.digits ['1', '2']))

theorem ofInt_seven (hN : 10 ≤ N) :
    (ofInt 7 : Run (BigInteger N)) = .ok (encode N 7 (1 : ℕ) true) := by
  have hseven : (7 : Int32).toInt = 7 := by decide
  have hlen : normalLen 7 = 1 := normalLen_of_lt_ten (by omega)
  rw [ofInt_eq (by decide) (natAbs_toInt_lt hN _) (by omega), hseven]
  simp [hlen]

theorem ofString_twelve (hN : 10 ≤ N) :
    (ofString ['1', '2'] 10 : Run (BigInteger N)) =
      .ok (encode N 12 (2 : ℕ) true) :=
  ofString_eq (by decide) (le_trans (by decide) hN)

theorem add_seven_twelve (hN : 10 ≤ N) :
    add 1 (encode N 7 (1 : ℕ) true) (encode N 12 (2 : ℕ) true) =
      .ok (encode N 19 (2 : ℕ) true) := by
  have hsum : 7 + 12 < 10 ^ N :=
    pow_mono (L := 2) (by omega) (by omega)
  rw [add_positive (by omega) (by omega) ⟨by omega, by omega, by omega⟩,
    if_pos hsum]
  rfl

theorem gives_sevenAddTwelve (hN : 10 ≤ N) :
    Gives .outOfFuel (machine N) sevenAddTwelve (encode N 19 (2 : ℕ) true) :=
  (gives_app (machine_steady N)).mpr ⟨_, _, gives_lit.mpr (ofInt_seven hN),
    gives_lit.mpr (ofString_twelve hN), .of_ok (n := 1) (add_seven_twelve hN)⟩

end BigInteger
end MiscCode
