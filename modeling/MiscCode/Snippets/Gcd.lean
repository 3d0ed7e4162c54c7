import MiscCode.Snippets.Model
import Mathlib.Data.Nat.Prime.Basic

/-!
# The common divisors

`printGDC` divides common factors out one by one, but only tries factors below
the larger number, so that it misses a prime number compared with itself.
`fastGCD` is Euclid's loop on `long` values, whose result is cut down to an
`int`.
-/

namespace MiscCode
namespace Snippets

open Fuel WhileLoop

variable {a b i : ℕ}

/-! ## Arithmetic within the range -/

theorem ofNat_eq_zero_iff (ha : a < 2 ^ 31) : Int32.ofNat a = 0 ↔ a = 0 := by
  rw [← Int32.toInt_inj, Int32.toInt_ofNat_of_lt ha]
  exact Int.natCast_eq_zero

theorem rem_ofNat (ha : a < 2 ^ 31) (hi : 0 < i) (hi' : i < 2 ^ 31) :
    rem (Int32.ofNat a) (Int32.ofNat i) = .ok (Int32.ofNat (a % i)) := by
  unfold rem
  rw [if_neg (mt (ofNat_eq_zero_iff hi').mp hi.ne'), Int32.ofNat_mod ha hi']

theorem quot_ofNat (ha : a < 2 ^ 31) (hi : 0 < i) (hi' : i < 2 ^ 31) :
    quot (Int32.ofNat a) (Int32.ofNat i) = .ok (Int32.ofNat (a / i)) := by
  unfold quot
  rw [if_neg (mt (ofNat_eq_zero_iff hi').mp hi.ne'), Int32.ofNat_div ha hi']

theorem dividesBoth_ofNat (ha : a < 2 ^ 31) (hb : b < 2 ^ 31) (hi : 0 < i)
    (hi' : i < 2 ^ 31) :
    dividesBoth (Int32.ofNat i) (Int32.ofNat a) (Int32.ofNat b) =
      .ok (decide (i ∣ a ∧ i ∣ b)) := by
  have hzero : ∀ x, x < 2 ^ 31 → (Int32.ofNat (x % i) = 0 ↔ i ∣ x) := by
    intro x hx
    rw [ofNat_eq_zero_iff ((Nat.mod_le x i).trans_lt hx),
      Nat.dvd_iff_mod_eq_zero]
  unfold dividesBoth
  rw [rem_ofNat ha hi hi']
  change (if Int32.ofNat (a % i) = 0 then _ else _ : Java Bool) = _
  by_cases hdvd : i ∣ a
  · rw [if_pos ((hzero a ha).mpr hdvd), rem_ofNat hb hi hi']
    change Except.ok (decide (Int32.ofNat (b % i) = 0)) = _
    simp only [hzero b hb, hdvd, true_and]
  · rw [if_neg (mt (hzero a ha).mp hdvd)]
    simp only [hdvd, false_and, decide_false]

/-! ## `printGDC` -/

/-- What `printGDC` has divided out of `a` and `b` before it tries `i`. -/
structure Reduced (a b : ℕ) (s : Reduction) (a' b' g i : ℕ) : Prop where
  state : s = { a := Int32.ofNat a', b := Int32.ofNat b',
                gcd := Int32.ofNat g, i := Int32.ofNat i }
  pos_a : 0 < a'
  pos_b : 0 < b'
  le_a : a' ≤ a
  le_b : b' ≤ b
  two_le : 2 ≤ i
  fits : i < 2 ^ 31
  gcd_mul : g * Nat.gcd a' b' = Nat.gcd a b
  none_below : ∀ d, 2 ≤ d → d < i → ¬ (d ∣ a' ∧ d ∣ b')
  factor : g ≠ 1 → ∃ d, 2 ≤ d ∧ d < max a b ∧ d ∣ g

/-- A hit divides the factor out and tries it again. -/
theorem Reduced.hit {s : Reduction} {a' b' g : ℕ}
    (hs : Reduced a b s a' b' g i) (hi : i < max a b)
    (hdvd : i ∣ a' ∧ i ∣ b') :
    Reduced a b
      { a := Int32.ofNat (a' / i), b := Int32.ofNat (b' / i),
        gcd := Int32.ofNat (g * i), i := Int32.ofNat i }
      (a' / i) (b' / i) (g * i) i where
  state := rfl
  pos_a := Nat.div_pos (Nat.le_of_dvd hs.pos_a hdvd.1)
    (by have := hs.two_le; omega)
  pos_b := Nat.div_pos (Nat.le_of_dvd hs.pos_b hdvd.2)
    (by have := hs.two_le; omega)
  le_a := (Nat.div_le_self a' i).trans hs.le_a
  le_b := (Nat.div_le_self b' i).trans hs.le_b
  two_le := hs.two_le
  fits := hs.fits
  gcd_mul := by
    calc g * i * Nat.gcd (a' / i) (b' / i)
        = g * (i * (Nat.gcd a' b' / i)) := by
          rw [Nat.gcd_div hdvd.1 hdvd.2, Nat.mul_assoc]
      _ = g * Nat.gcd a' b' := by
          rw [Nat.mul_div_cancel' (Nat.dvd_gcd hdvd.1 hdvd.2)]
      _ = Nat.gcd a b := hs.gcd_mul
  none_below := by
    rintro d hd hlt ⟨hda, hdb⟩
    apply hs.none_below d hd hlt
    exact ⟨hda.trans (Nat.div_dvd_of_dvd hdvd.1),
      hdb.trans (Nat.div_dvd_of_dvd hdvd.2)⟩
  factor := fun _ => ⟨i, hs.two_le, hi, Nat.dvd_mul_left i g⟩

/-- A miss goes on to the next factor. -/
theorem Reduced.miss {s : Reduction} {a' b' g : ℕ}
    (hs : Reduced a b s a' b' g i) (hi : i < max a b) (hmax : max a b < 2 ^ 31)
    (hdvd : ¬ (i ∣ a' ∧ i ∣ b')) :
    Reduced a b { s with i := Int32.ofNat (i + 1) } a' b' g (i + 1) where
  state := by rw [hs.state]
  pos_a := hs.pos_a
  pos_b := hs.pos_b
  le_a := hs.le_a
  le_b := hs.le_b
  two_le := hs.two_le.trans (Nat.le_succ i)
  fits := by omega
  gcd_mul := hs.gcd_mul
  none_below := by
    intro d hd hlt
    rcases Nat.lt_succ_iff_lt_or_eq.mp hlt with hlt | rfl
    · exact hs.none_below d hd hlt
    · exact hdvd
  factor := hs.factor

/-- Past the larger number, what is divided out is the greatest common divisor
unless the two numbers are one prime number. -/
theorem Reduced.gcd_iff {s : Reduction} {a' b' g : ℕ}
    (hs : Reduced a b s a' b' g i) (hi : max a b ≤ i) :
    g = Nat.gcd a b ↔ ¬ (a = b ∧ a.Prime) := by
  have hgcd_pos : 0 < Nat.gcd a' b' := Nat.gcd_pos_of_pos_left b' hs.pos_a
  have hdvd_a := Nat.gcd_dvd_left a' b'
  have hdvd_b := Nat.gcd_dvd_right a' b'
  have hle_a := Nat.le_of_dvd hs.pos_a hdvd_a
  have hle_b := Nat.le_of_dvd hs.pos_b hdvd_b
  have h_a := hs.le_a
  have h_b := hs.le_b
  constructor
  · rintro hg ⟨rfl, hprime⟩
    rw [Nat.gcd_self] at hg
    subst hg
    obtain ⟨d, hd, hlt, hdvd⟩ := hs.factor hprime.ne_one
    rw [Nat.max_self] at hlt
    rcases (Nat.dvd_prime hprime).mp hdvd with h | h <;> omega
  · intro hne
    suffices hone : Nat.gcd a' b' = 1 by
      rw [← hs.gcd_mul, hone, Nat.mul_one]
    -- a common factor that is left is as large as the larger number
    by_contra hmore
    have hge : i ≤ Nat.gcd a' b' := by
      by_contra hlt
      exact hs.none_below _ (by omega) (by omega) ⟨hdvd_a, hdvd_b⟩
    have hab : a = b := by omega
    have ha' : a' = a := by omega
    have hb' : b' = a := by omega
    refine hne ⟨hab, Nat.prime_def.mpr ⟨?_, ?_⟩⟩
    · have := hs.two_le
      omega
    · intro d hd
      have hapos : 0 < a := ha' ▸ hs.pos_a
      have hdpos : 0 < d := Nat.pos_of_dvd_of_pos hd hapos
      have hdle : d ≤ a := Nat.le_of_dvd hapos hd
      by_contra hproper
      rw [not_or] at hproper
      exact hs.none_below d (by omega) (by omega)
        ⟨ha'.symm ▸ hd, hb'.symm ▸ hd⟩

/-- The larger argument. -/
theorem max_ofNat (ha : a < 2 ^ 31) (hb : b < 2 ^ 31) :
    (if Int32.ofNat b < Int32.ofNat a then Int32.ofNat a else Int32.ofNat b) =
      Int32.ofNat (max a b) := by
  by_cases hlt : b < a
  · rw [if_pos ((Int32.ofNat_lt_iff_lt hb ha).mpr hlt), Nat.max_eq_left hlt.le]
  · rw [if_neg (mt (Int32.ofNat_lt_iff_lt hb ha).mp hlt),
      Nat.max_eq_right (Nat.le_of_not_lt hlt)]

/-- A turn below the larger number keeps the invariant, and lowers the first
number or the factors that are left to try. -/
theorem Reduced.turn {s : Reduction} {a' b' g : ℕ}
    (hs : Reduced a b s a' b' g i) (ha : a < 2 ^ 31) (hb : b < 2 ^ 31)
    (hi : i < max a b) :
    ∃ s' a'' b'' g' i', reduceTurn (Int32.ofNat (max a b)) s =
        .ok (.again s') ∧ Reduced a b s' a'' b'' g' i' ∧
      a'' + (max a b - i') < a' + (max a b - i) := by
  have hle_a := hs.le_a
  have hle_b := hs.le_b
  have htwo := hs.two_le
  have hmax : max a b < 2 ^ 31 := max_lt ha hb
  have ha' : a' < 2 ^ 31 := by omega
  have hb' : b' < 2 ^ 31 := by omega
  have hlt : Int32.ofNat i < Int32.ofNat (max a b) :=
    (Int32.ofNat_lt_iff_lt hs.fits hmax).mpr hi
  unfold reduceTurn
  rw [hs.state]
  simp only [if_pos hlt, dividesBoth_ofNat ha' hb' (by omega) hs.fits]
  by_cases hdvd : i ∣ a' ∧ i ∣ b'
  · refine ⟨_, _, _, _, _, ?_, hs.hit hi hdvd, ?_⟩
    · change (if decide (i ∣ a' ∧ i ∣ b') = true then _ else _ :
        Java (Turn Reduction Int32)) = _
      rw [if_pos (decide_eq_true hdvd), quot_ofNat ha' (by omega) hs.fits,
        quot_ofNat hb' (by omega) hs.fits, Int32.ofNat_mul]
      change Except.ok (Turn.again (Reduction.mk _ _ _
        (Int32.ofNat i - 1 + 1))) = _
      rw [Int32.sub_add_cancel]
    · have := Nat.div_lt_self hs.pos_a (by omega : 1 < i)
      omega
  · refine ⟨_, _, _, _, _, ?_, hs.miss hi hmax hdvd, ?_⟩
    · change (if decide (i ∣ a' ∧ i ∣ b') = true then _ else _ :
        Java (Turn Reduction Int32)) = _
      rw [if_neg (by simpa using hdvd), Int32.ofNat_add, hs.state]
      rfl
    · omega

theorem steady_printGDC (a b : Int32) :
    Steady .outOfFuel fun fuel => printGDC fuel a b :=
  steady_loop (steady_const _) _

theorem printGDC_ends (ha : 0 < a) (ha' : a < 2 ^ 31) (hb : 0 < b)
    (hb' : b < 2 ^ 31) :
    ∃ r, EndsIn .outOfFuel
        (fun fuel => printGDC fuel (Int32.ofNat a) (Int32.ofNat b)) (.ok r) ∧
      (r = Int32.ofNat (Nat.gcd a b) ↔ ¬ (a = b ∧ a.Prime)) := by
  unfold printGDC
  rw [max_ofNat ha' hb']
  apply loop_ends (steady_const (reduceTurn (Int32.ofNat (max a b))))
    (fun v s => ∃ a' b' g i, Reduced a b s a' b' g i ∧
      a' + (max a b - i) = v)
  · rintro _ s ⟨a', b', g, i, hs, rfl⟩
    by_cases hi : i < max a b
    · obtain ⟨s', a'', b'', g', i', hturn, hs', hlt⟩ := hs.turn ha' hb' hi
      exact ⟨.again s', .of_ok (n := 0) hturn, _, hlt,
        a'', b'', g', i', hs', rfl⟩
    · refine ⟨.leave s.gcd, .of_ok (n := 0) ?_, ?_⟩
      · unfold reduceTurn
        rw [if_neg]
        rw [hs.state]
        exact mt (Int32.ofNat_lt_iff_lt hs.fits (max_lt ha' hb')).mp hi
      · change s.gcd = Int32.ofNat (Nat.gcd a b) ↔ _
        have hdvd := Dvd.intro _ hs.gcd_mul
        have hle : Nat.gcd a b ≤ a := Nat.le_of_dvd ha (Nat.gcd_dvd_left a b)
        have hg : g ≤ Nat.gcd a b :=
          Nat.le_of_dvd (Nat.gcd_pos_of_pos_left b ha) hdvd
        rw [← hs.gcd_iff (Nat.le_of_not_lt hi), hs.state]
        constructor
        · intro h
          have hint := congrArg Int32.toInt h
          rw [Int32.toInt_ofNat_of_lt (by omega),
            Int32.toInt_ofNat_of_lt (by omega)] at hint
          exact Int.ofNat_inj.mp hint
        · exact congrArg Int32.ofNat
  · refine ⟨a, b, 1, 2, ⟨rfl, ha, hb, le_rfl, le_rfl, le_rfl, by decide,
      Nat.one_mul _, ?_, fun h => absurd rfl h⟩, rfl⟩
    intro d hd hlt
    omega

/-- `printGDC` always ends, and finds the greatest common divisor exactly when
the two numbers are not one prime number. -/
theorem printGDC_gcd_iff (a b : ℕ) (ha : 0 < a) (ha' : a < 2 ^ 31)
    (hb : 0 < b) (hb' : b < 2 ^ 31) :
    (∃ r, EndsIn .outOfFuel
      (fun fuel => printGDC fuel (Int32.ofNat a) (Int32.ofNat b)) (.ok r)) ∧
    (EndsIn .outOfFuel
        (fun fuel => printGDC fuel (Int32.ofNat a) (Int32.ofNat b))
        (.ok (Int32.ofNat (Nat.gcd a b))) ↔
      ¬ (a = b ∧ a.Prime)) := by
  obtain ⟨r, hends, hr⟩ := printGDC_ends ha ha' hb hb'
  refine ⟨⟨r, hends⟩, ?_⟩
  rw [← hr]
  constructor
  · intro hgcd
    exact Except.ok.inj ((steady_printGDC _ _).unique hends hgcd)
  · exact fun h => h ▸ hends

theorem printGDC_gcd_iff_twelve :
    (∃ r, EndsIn .outOfFuel
      (fun fuel => printGDC fuel (Int32.ofNat 12) (Int32.ofNat 18)) (.ok r)) ∧
    (EndsIn .outOfFuel
        (fun fuel => printGDC fuel (Int32.ofNat 12) (Int32.ofNat 18))
        (.ok (Int32.ofNat (Nat.gcd 12 18))) ↔
      ¬ (12 = 18 ∧ (12 : ℕ).Prime)) :=
  printGDC_gcd_iff 12 18 (by decide) (by decide) (by decide) (by decide)

/-- A prime number and itself have `1` for their divisor. -/
theorem printGDC_two_two :
    EndsIn .outOfFuel (fun fuel => printGDC fuel 2 2) (.ok 1) ∧
      Nat.gcd 2 2 = 2 ∧
      ¬ EndsIn .outOfFuel (fun fuel => printGDC fuel 2 2) (.ok 2) := by
  have hone : EndsIn Stop.outOfFuel (fun fuel => printGDC fuel 2 2) (.ok 1) :=
    .of_ok (n := 1) rfl
  refine ⟨hone, rfl, ?_⟩
  intro htwo
  have h := (steady_printGDC 2 2).unique hone htwo
  exact absurd (Except.ok.inj h) (by decide)

/-! ## `fastGCD` -/

/-- The method `GCD` answers the greatest common divisor of positive numbers
where it is an `int`, as its result type has it. -/
def AnswersGcd (GCD : Int64 → Int64 → Int32) : Prop :=
  ∀ x y : ℕ, 0 < x → x < 2 ^ 63 → 0 < y → y < 2 ^ 63 → Nat.gcd x y < 2 ^ 31 →
    (GCD (Int64.ofNat x) (Int64.ofNat y)).toInt = Nat.gcd x y

theorem ofNat_long_eq_zero_iff (ha : a < 2 ^ 63) :
    Int64.ofNat a = 0 ↔ a = 0 := by
  rw [← Int64.toInt_inj, Int64.toInt_ofNat_of_lt ha]
  exact Int.natCast_eq_zero

theorem remLong_ofNat (ha : a < 2 ^ 63) (hb : 0 < b) (hb' : b < 2 ^ 63) :
    remLong (Int64.ofNat a) (Int64.ofNat b) = .ok (Int64.ofNat (a % b)) := by
  unfold remLong
  rw [if_neg (mt (ofNat_long_eq_zero_iff hb').mp hb.ne'),
    Int64.ofNat_mod ha hb']

/-- The two numbers of Euclid's loop have the greatest common divisor `g`. -/
structure Euclidean (g : ℕ) (s : Int64 × Int64) (a b : ℕ) : Prop where
  state : s = (Int64.ofNat a, Int64.ofNat b)
  pos_a : 0 < a
  pos_b : 0 < b
  lt_a : a < 2 ^ 63
  lt_b : b < 2 ^ 63
  gcd_eq : Nat.gcd a b = g

/-- A turn goes on with the smaller number and the remainder, or ends with the
divisor cut down to an `int`, or asks `GCD`. -/
theorem Euclidean.turn {g : ℕ} {s : Int64 × Int64} (hs : Euclidean g s a b)
    (GCD : Int64 → Int64 → Int32) :
    (b < a ∧ ∃ s', euclidTurn GCD s = .ok (.again s') ∧
      Euclidean g s' b (a % b)) ∨
    euclidTurn GCD s = .ok (.leave (Int64.ofNat g).toInt32) ∨
    euclidTurn GCD s =
      .ok (.leave (GCD (Int64.ofNat b) (Int64.ofNat a))) := by
  have hlt : Int64.ofNat b < Int64.ofNat a ↔ b < a :=
    Int64.ofNat_lt_iff_lt hs.lt_b hs.lt_a
  have hmod := Nat.mod_lt a hs.pos_b
  have hpos : 0 < Int64.ofNat (a % b) ↔ 0 < a % b :=
    Int64.ofNat_lt_iff_lt (a := 0) (by decide) (hmod.trans hs.lt_b)
  rw [hs.state]
  by_cases hba : b < a
  · have hturn : euclidTurn GCD (Int64.ofNat a, Int64.ofNat b) =
        if 0 < Int64.ofNat (a % b) then
          .ok (.again (Int64.ofNat b, Int64.ofNat (a % b)))
        else .ok (.leave (Int64.ofNat b).toInt32) := by
      simp only [euclidTurn, hlt, hba, if_true,
        remLong_ofNat hs.lt_a hs.pos_b hs.lt_b]
      rfl
    rw [hturn]
    by_cases hm : 0 < a % b
    · refine .inl ⟨hba, _, if_pos (hpos.mpr hm), rfl, hs.pos_b, hm, hs.lt_b,
        hmod.trans hs.lt_b, ?_⟩
      rw [Nat.gcd_comm, ← Nat.gcd_rec, Nat.gcd_comm, hs.gcd_eq]
    · refine .inr (.inl ?_)
      have hdvd : b ∣ a := Nat.dvd_of_mod_eq_zero (by omega)
      rw [if_neg (mt hpos.mp hm), ← hs.gcd_eq, Nat.gcd_eq_right hdvd]
  · refine .inr (.inr ?_)
    simp only [euclidTurn, hlt, hba, if_false]

/-- Cutting a `long` down to an `int` keeps what fits. -/
theorem toInt_toInt32_ofNat {g : ℕ} (hg : g < 2 ^ 31) :
    (Int64.ofNat g).toInt32.toInt = g := by
  rw [Int64.toInt_toInt32, Int64.toInt_ofNat_of_lt (by omega)]
  exact Int.bmod_eq_of_le (by omega) (by omega)

theorem fastGCD_ends (GCD : Int64 → Int64 → Int32) (hGCD : AnswersGcd GCD)
    (ha : 0 < a) (ha' : a < 2 ^ 63) (hb : 0 < b) (hb' : b < 2 ^ 63) :
    ∃ r, EndsIn .outOfFuel
        (fun fuel => fastGCD GCD fuel (Int64.ofNat a) (Int64.ofNat b))
        (.ok r) ∧
      (Nat.gcd a b < 2 ^ 31 → r.toInt = Nat.gcd a b) := by
  apply loop_ends (steady_const (euclidTurn GCD))
    (fun v s => ∃ b', Euclidean (Nat.gcd a b) s v b')
  · rintro a' s ⟨b', hs⟩
    rcases hs.turn GCD with ⟨hlt, s', hturn, hs'⟩ | hturn | hturn
    · exact ⟨_, .of_ok (n := 0) hturn, b', hlt, _, hs'⟩
    · exact ⟨_, .of_ok (n := 0) hturn, toInt_toInt32_ofNat⟩
    · refine ⟨_, .of_ok (n := 0) hturn, ?_⟩
      intro hfits
      have hgcd : Nat.gcd b' a' = Nat.gcd a b :=
        (Nat.gcd_comm b' a').trans hs.gcd_eq
      rw [hGCD b' a' hs.pos_b hs.lt_b hs.pos_a hs.lt_a (hgcd ▸ hfits), hgcd]
  · exact ⟨b, rfl, ha, hb, ha', hb', rfl⟩

/-- `fastGCD` always ends, and answers the greatest common divisor exactly when
it is an `int`. -/
theorem fastGCD_gcd_iff (GCD : Int64 → Int64 → Int32) (hGCD : AnswersGcd GCD)
    (a b : ℕ) (ha : 0 < a) (ha' : a < 2 ^ 63) (hb : 0 < b)
    (hb' : b < 2 ^ 63) :
    (∃ r, EndsIn .outOfFuel
      (fun fuel => fastGCD GCD fuel (Int64.ofNat a) (Int64.ofNat b))
      (.ok r)) ∧
    ((∃ r, EndsIn .outOfFuel
        (fun fuel => fastGCD GCD fuel (Int64.ofNat a) (Int64.ofNat b))
        (.ok r) ∧ r.toInt = Nat.gcd a b) ↔
      Nat.gcd a b < 2 ^ 31) := by
  obtain ⟨r, hends, hr⟩ := fastGCD_ends GCD hGCD ha ha' hb hb'
  refine ⟨⟨r, hends⟩, ?_⟩
  constructor
  · rintro ⟨r', -, hr'⟩
    have := Int32.toInt_lt r'
    omega
  · exact fun hfits => ⟨r, hends, hr hfits⟩

/-- A method `GCD`. -/
def gcdInt (x y : Int64) : Int32 :=
  Int32.ofNat (Int.gcd x.toInt y.toInt)

theorem answersGcd_gcdInt : AnswersGcd gcdInt := by
  intro x y _ hx _ hy hfits
  unfold gcdInt
  rw [Int64.toInt_ofNat_of_lt hx, Int64.toInt_ofNat_of_lt hy,
    Int.gcd_natCast_natCast, Int32.toInt_ofNat_of_lt hfits]

theorem fastGCD_gcd_iff_twelve :
    (∃ r, EndsIn .outOfFuel
      (fun fuel => fastGCD gcdInt fuel (Int64.ofNat 12) (Int64.ofNat 18))
      (.ok r)) ∧
    ((∃ r, EndsIn .outOfFuel
        (fun fuel => fastGCD gcdInt fuel (Int64.ofNat 12) (Int64.ofNat 18))
        (.ok r) ∧ r.toInt = Nat.gcd 12 18) ↔
      Nat.gcd 12 18 < 2 ^ 31) :=
  fastGCD_gcd_iff gcdInt answersGcd_gcdInt 12 18 (by decide) (by decide)
    (by decide) (by decide)

/-- The greatest common divisor `2 ^ 31` is answered as a negative number. -/
theorem fastGCD_two_pow :
    AnswersGcd gcdInt ∧ Nat.gcd (2 ^ 32) (2 ^ 31) = 2 ^ 31 ∧
      EndsIn .outOfFuel (fun fuel =>
        fastGCD gcdInt fuel (Int64.ofNat (2 ^ 32)) (Int64.ofNat (2 ^ 31)))
        (.ok (-2147483648)) ∧
      ¬ ∃ r, EndsIn .outOfFuel (fun fuel =>
        fastGCD gcdInt fuel (Int64.ofNat (2 ^ 32)) (Int64.ofNat (2 ^ 31)))
        (.ok r) ∧ r.toInt = Nat.gcd (2 ^ 32) (2 ^ 31) := by
  have hgcd : Nat.gcd (2 ^ 32) (2 ^ 31) = 2 ^ 31 := by decide
  refine ⟨answersGcd_gcdInt, hgcd, .of_ok (n := 1) rfl, ?_⟩
  rintro ⟨r, -, hr⟩
  have := Int32.toInt_lt r
  rw [hgcd] at hr
  omega

end Snippets
end MiscCode
