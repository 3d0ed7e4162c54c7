import MiscCode.Support.WhileLoop
import Mathlib.Data.Nat.Notation
import Mathlib.Logic.Function.Basic

/-!
# The Java snippets

A sieve with its test and its printing loop, two searches for a greatest common
divisor, and a sum of Fibonacci numbers.  An `int` is an `Int32` and a `long`
an `Int64`, both of which wrap as Java's do.  The loops run under a budget.
What is printed is returned as a list.
-/

namespace MiscCode
namespace Snippets

open WhileLoop

/-- What ends a call without a result. -/
inductive Stop where
  | arrayIndexOutOfBounds
  | arithmetic
  /-- The budget of the loops is used up. -/
  | outOfFuel
  deriving DecidableEq, Repr

/-- The outcome of a call. -/
abbrev Java (α : Type) := Except Stop α

/-- `a % b`. -/
def rem (a b : Int32) : Java Int32 :=
  if b = 0 then .error .arithmetic else .ok (a % b)

/-- `a / b`. -/
def quot (a b : Int32) : Java Int32 :=
  if b = 0 then .error .arithmetic else .ok (a / b)

/-- `a % b` on `long` values. -/
def remLong (a b : Int64) : Java Int64 :=
  if b = 0 then .error .arithmetic else .ok (a % b)

/-! ## The sieve -/

/-- The length of `arr`. -/
def size : ℕ := 1000000

/-- The contents of `arr`. -/
abbrev Arr := Fin size → Int32

/-- `arr` before the first call. -/
def zeroed : Arr := fun _ => 0

/-- `arr[i]`. -/
def load (arr : Arr) (i : Int32) : Java Int32 :=
  if h : 0 ≤ i.toInt ∧ i.toInt < size then
    .ok (arr ⟨i.toInt.toNat, by omega⟩)
  else
    .error .arrayIndexOutOfBounds

/-- `arr[i] = v`. -/
def store (arr : Arr) (i v : Int32) : Java Arr :=
  if h : 0 ≤ i.toInt ∧ i.toInt < size then
    .ok (Function.update arr ⟨i.toInt.toNat, by omega⟩ v)
  else
    .error .arrayIndexOutOfBounds

/-- A turn of the inner loop of `preparePrimes`, which steps `i` by `j`. -/
def markTurn (j : Int32) : Int32 × Arr → Java (Turn (Int32 × Arr) Arr)
  | (i, arr) =>
      if i < 1000000 then do
        let arr' ← store arr i 1
        .ok (.again (i + j, arr'))
      else
        .ok (.leave arr)

/-- The inner loop of `preparePrimes` from the index `i` on. -/
def mark (fuel : ℕ) (j i : Int32) (arr : Arr) : Java Arr :=
  loop .outOfFuel (fun _ => markTurn j) fuel (i, arr)

/-- A turn of the outer loop of `preparePrimes`. -/
def prepareTurn (N : Int32) (fuel : ℕ) :
    Int32 × Arr → Java (Turn (Int32 × Arr) Arr)
  | (j, arr) =>
      if j < N then do
        let arr' ← mark fuel j (j * 2) arr
        .ok (.again (j + 1, arr'))
      else
        .ok (.leave arr)

/-- `preparePrimes`: the contents of `arr` afterwards. -/
def preparePrimes (fuel : ℕ) (N : Int32) (arr : Arr) : Java Arr :=
  loop .outOfFuel (prepareTurn N) fuel (2, arr)

/-- `isPrimeFast`. -/
def isPrimeFast (arr : Arr) (N : Int32) : Java Bool := do
  let v ← load arr N
  .ok (v = 0)

/-- The variables of `printNprimes`, and what it has printed. -/
structure Printing where
  n : Int32
  i : Int32
  out : List Int32

/-- A turn of the loop of `printNprimes`. -/
def printTurn (arr : Arr) (s : Printing) : Java (Turn Printing (List Int32)) :=
  if 0 < s.n then do
    if ← isPrimeFast arr s.i then
      .ok (.again { n := s.n - 1, i := s.i + 1, out := s.out ++ [s.i] })
    else
      .ok (.again { s with i := s.i + 1 })
  else
    .ok (.leave s.out)

/-- `printNprimes`: what it prints. -/
def printNprimes (fuel : ℕ) (arr : Arr) (n : Int32) : Java (List Int32) :=
  loop .outOfFuel (fun _ => printTurn arr) fuel { n := n, i := 2, out := [] }

/-! ## Common divisors -/

/-- The variables of `printGDC`. -/
structure Reduction where
  a : Int32
  b : Int32
  gcd : Int32
  i : Int32

/-- `a % i == 0 && b % i == 0`, which looks at `b` only when `i` divides `a`. -/
def dividesBoth (i a b : Int32) : Java Bool := do
  let ra ← rem a i
  if ra = 0 then do
    let rb ← rem b i
    .ok (rb = 0)
  else
    .ok false

/-- A turn of the loop of `printGDC`.  After a hit the counter is stepped back
before it is stepped on. -/
def reduceTurn (max : Int32) (s : Reduction) : Java (Turn Reduction Int32) :=
  if s.i < max then do
    if ← dividesBoth s.i s.a s.b then do
      let a ← quot s.a s.i
      let b ← quot s.b s.i
      .ok (.again { a := a, b := b, gcd := s.gcd * s.i, i := s.i - 1 + 1 })
    else
      .ok (.again { s with i := s.i + 1 })
  else
    .ok (.leave s.gcd)

/-- `printGDC`: the value of its variable `gcd` at the end. -/
def printGDC (fuel : ℕ) (a b : Int32) : Java Int32 :=
  loop .outOfFuel (fun _ => reduceTurn (if b < a then a else b)) fuel
    { a := a, b := b, gcd := 1, i := 2 }

/-- A turn of the loop of `fastGCD`. -/
def euclidTurn (GCD : Int64 → Int64 → Int32) :
    Int64 × Int64 → Java (Turn (Int64 × Int64) Int32)
  | (a, b) =>
      if b < a then do
        let m ← remLong a b
        if 0 < m then
          .ok (.again (b, m))
        else
          .ok (.leave b.toInt32)
      else
        .ok (.leave (GCD b a))

/-- `fastGCD`.  The method `GCD` is not in the repository. -/
def fastGCD (GCD : Int64 → Int64 → Int32) (fuel : ℕ) (a b : Int64) :
    Java Int32 :=
  loop .outOfFuel (fun _ => euclidTurn GCD) fuel (a, b)

/-! ## Fibonacci numbers -/

/-- The variables of `consecutiveFibonacciSum`, and what it has printed. -/
structure Window where
  i : Int32
  c : Int32
  d : Int32
  ans : Int32
  sum : Int32
  out : List Int32

/-- A turn of the loop of `consecutiveFibonacciSum`. -/
def fibonacciTurn (a b : Int32) (w : Window) :
    Java (Turn Window (List Int32 × Int32)) :=
  if w.i < b then
    .ok (.again
      { i := w.i + 1
        c := w.d
        d := w.c + w.d
        ans := if a ≤ w.i then w.ans + w.d else w.ans
        sum := w.c + w.d
        out := w.out ++ [w.d] })
  else
    .ok (.leave (w.out, w.ans))

/-- `consecutiveFibonacciSum`: what it prints, and its result. -/
def consecutiveFibonacciSum (fuel : ℕ) (a b : Int32) :
    Java (List Int32 × Int32) :=
  loop .outOfFuel (fun _ => fibonacciTurn a b) fuel
    { i := 1, c := 0, d := 1, ans := 0, sum := 0, out := [] }

theorem steady_prepareTurn (N : Int32) (s : Int32 × Arr) :
    Fuel.Steady .outOfFuel fun fuel => prepareTurn N fuel s := by
  obtain ⟨j, arr⟩ := s
  unfold prepareTurn
  by_cases hj : j < N
  · simp only [hj, if_true]
    apply Fuel.Steady.bind
    · exact steady_loop (steady_const (markTurn j)) (j * 2, arr)
    · exact fun arr' => Fuel.steadyAt_const _
  · simp only [hj, if_false]
    exact Fuel.steadyAt_const _

end Snippets
end MiscCode
