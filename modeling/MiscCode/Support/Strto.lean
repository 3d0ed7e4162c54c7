import Mathlib.Data.Int.Notation
import Mathlib.Algebra.Order.Ring.Int
import Mathlib.Data.List.TakeWhile

/-!
# Reading numbers as the C library does

`strtoull` and `strtol` skip white space, take a sign, in base sixteen a prefix,
and then as many digits as there are.  Without a digit nothing is taken; a number
that does not fit is replaced by the largest one.  A numeral that is written
with `Nat.toDigits` is read back.
-/

namespace Strto

/-- `isspace`. -/
def isSpace (c : Char) : Bool := c ∈ [' ', '\t', '\n', '\x0b', '\x0c', '\r']

/-- The value of a digit or a letter, and 36 for other characters. -/
def digitValue (c : Char) : ℕ :=
  if '0' ≤ c ∧ c ≤ '9' then c.toNat - '0'.toNat
  else if 'a' ≤ c ∧ c ≤ 'z' then c.toNat - 'a'.toNat + 10
  else if 'A' ≤ c ∧ c ≤ 'Z' then c.toNat - 'A'.toNat + 10
  else 36

/-- Whether a character is a digit of the base. -/
def isDigit (base : ℕ) (c : Char) : Bool := digitValue c < base

/-- The number that digits stand for. -/
def value (base : ℕ) (digits : List Char) : ℕ :=
  digits.foldl (fun n c => n * base + digitValue c) 0

/-- What is read: the sign, the number, and the text behind it. -/
structure Numeral where
  negative : Bool
  magnitude : ℕ
  after : List Char
  deriving DecidableEq, Repr

/-- Takes a sign off. -/
def takeSign : List Char → Bool × List Char
  | '-' :: cs => (true, cs)
  | '+' :: cs => (false, cs)
  | cs => (false, cs)

/-- Takes the prefix of base sixteen off, if there is a digit behind it. -/
def dropBase (base : ℕ) : List Char → List Char
  | '0' :: x :: c :: cs =>
      if base = 16 ∧ (x = 'x' ∨ x = 'X') ∧ isDigit base c then c :: cs
      else '0' :: x :: c :: cs
  | cs => cs

/-- The number at the front of a text. -/
def read (base : ℕ) (s : List Char) : Numeral :=
  let signed := takeSign (s.dropWhile isSpace)
  let cs := dropBase base signed.2
  let digits := cs.takeWhile (isDigit base)
  if digits = [] then ⟨false, 0, s⟩
  else ⟨signed.1, value base digits, cs.dropWhile (isDigit base)⟩

/-- `strtoull`, for numbers of 64 bits. -/
def strtoull (base : ℕ) (s : List Char) : UInt64 × List Char :=
  let n := read base s
  if 2 ^ 64 ≤ n.magnitude then (UInt64.ofNat (2 ^ 64 - 1), n.after)
  else if n.negative then (-UInt64.ofNat n.magnitude, n.after)
  else (UInt64.ofNat n.magnitude, n.after)

/-- The largest `long`. -/
def longMax : ℤ := 2 ^ 63 - 1

/-- `strtol`, for numbers of 64 bits. -/
def strtol (base : ℕ) (s : List Char) : ℤ × List Char :=
  let n := read base s
  if n.negative then (max (-2 ^ 63) (-n.magnitude), n.after)
  else (min longMax n.magnitude, n.after)

theorem strtol_le (base : ℕ) (s : List Char) : (strtol base s).1 ≤ longMax := by
  rw [strtol]
  split
  · rw [longMax]
    omega
  · exact min_le_left _ _

/-! ## Numerals that were written -/

variable {base n : ℕ}

theorem mem_toDigits (hbase : 1 < base) {c : Char} (h : c ∈ Nat.toDigits base n) :
    ∃ d < base, c = Nat.digitChar d := by
  induction n using Nat.strong_induction_on with
  | _ n ih =>
      rw [Nat.toDigits_eq_if hbase] at h
      split at h
      · rename_i hlt
        exact ⟨n, hlt, List.mem_singleton.mp h⟩
      · rename_i hge
        rcases List.mem_append.mp h with h | h
        · exact ih _ (Nat.div_lt_self (by omega) hbase) h
        · exact ⟨n % base, Nat.mod_lt _ (by omega), List.mem_singleton.mp h⟩

/-- The digits up to sixteen. -/
theorem digitChar_spec : ∀ d < 16, digitValue (Nat.digitChar d) = d ∧
    isSpace (Nat.digitChar d) = false ∧
    Nat.digitChar d ∉ ['-', '+', 'x', 'X'] := by
  decide

section Digits

variable (hbase : 1 < base) (hsixteen : base ≤ 16)
include hbase hsixteen

theorem isDigit_of_mem_toDigits {c : Char} (h : c ∈ Nat.toDigits base n) :
    isDigit base c = true := by
  obtain ⟨d, hd, rfl⟩ := mem_toDigits hbase h
  rw [isDigit, (digitChar_spec d (hd.trans_le hsixteen)).1]
  exact decide_eq_true hd

theorem value_toDigits (n : ℕ) : value base (Nat.toDigits base n) = n := by
  induction n using Nat.strong_induction_on with
  | _ n ih =>
      rw [Nat.toDigits_eq_if hbase]
      split
      · rename_i hlt
        have hvalue := (digitChar_spec n (hlt.trans_le hsixteen)).1
        simpa [value] using hvalue
      · have hdigit : n % base < base := Nat.mod_lt _ (by omega)
        have hvalue := (digitChar_spec _ (hdigit.trans_le hsixteen)).1
        have hfront := ih (n / base) (Nat.div_lt_self (by omega) hbase)
        rw [value] at hfront
        rw [value, List.foldl_append, hfront, List.foldl_cons, List.foldl_nil,
          hvalue, Nat.mul_comm, Nat.div_add_mod]

/-- Nothing is skipped in front of a numeral. -/
theorem dropWhile_toDigits (n : ℕ) :
    (Nat.toDigits base n).dropWhile isSpace = Nat.toDigits base n ∧
      takeSign (Nat.toDigits base n) = (false, Nat.toDigits base n) ∧
      dropBase base (Nat.toDigits base n) = Nat.toDigits base n := by
  obtain ⟨c, cs, hdigits⟩ :=
    List.exists_cons_of_ne_nil (Nat.toDigits_ne_nil (n := n) (b := base))
  have hspec : ∀ c' ∈ c :: cs,
      isSpace c' = false ∧ c' ∉ ['-', '+', 'x', 'X'] := by
    intro c' hc'
    rw [← hdigits] at hc'
    obtain ⟨d, hd, rfl⟩ := mem_toDigits hbase hc'
    exact (digitChar_spec d (hd.trans_le hsixteen)).2
  rw [hdigits]
  obtain ⟨hspace, hsign⟩ := hspec c List.mem_cons_self
  refine ⟨by simp [hspace], ?_, ?_⟩
  · rw [takeSign]
    · rintro cs' heq
      obtain ⟨rfl, -⟩ := List.cons.inj heq
      simp at hsign
    · rintro cs' heq
      obtain ⟨rfl, -⟩ := List.cons.inj heq
      simp at hsign
  · rw [dropBase.eq_def]
    split
    · rename_i x c' cs' heq
      have hmem : x ∈ c :: cs := by simp [heq]
      have hnot := (hspec x hmem).2
      rw [if_neg, heq]
      rintro ⟨-, rfl | rfl, -⟩
      · simp at hnot
      · simp at hnot
    · rfl

/-- A numeral is read back. -/
theorem read_toDigits (n : ℕ) :
    read base (Nat.toDigits base n) = ⟨false, n, []⟩ := by
  obtain ⟨hspace, hsign, hdropBase⟩ := dropWhile_toDigits hbase hsixteen n
  have hall : ∀ c ∈ Nat.toDigits base n, isDigit base c = true :=
    fun c hc => isDigit_of_mem_toDigits hbase hsixteen hc
  have htake : (Nat.toDigits base n).takeWhile (isDigit base) =
      Nat.toDigits base n := List.takeWhile_eq_self_iff.mpr hall
  have hdrop : (Nat.toDigits base n).dropWhile (isDigit base) = [] :=
    List.dropWhile_eq_nil_iff.mpr hall
  simp only [read, hspace, hsign, hdropBase, htake, hdrop,
    if_neg Nat.toDigits_ne_nil, value_toDigits hbase hsixteen]

theorem strtoull_toDigits (w : UInt64) :
    strtoull base (Nat.toDigits base w.toNat) = (w, []) := by
  have hlt : w.toNat < 2 ^ 64 := w.toNat_lt
  simp only [strtoull, read_toDigits hbase hsixteen, if_neg (not_le.mpr hlt),
    Bool.false_eq_true, if_false, UInt64.ofNat_toNat]

theorem strtol_toDigits {i : ℤ} (hi : 0 ≤ i) (hmax : i ≤ longMax) :
    strtol base (Nat.toDigits base i.toNat) = (i, []) := by
  simp only [strtol, read_toDigits hbase hsixteen, Bool.false_eq_true, if_false,
    Int.toNat_of_nonneg hi, min_eq_right hmax]

end Digits

end Strto
