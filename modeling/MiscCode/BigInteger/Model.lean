import MiscCode.Support.Fuel
import Mathlib.Algebra.BigOperators.Intervals

/-!
# The decimal `BigInteger` class

Both copies of the class in the repository have the same members and the same
bodies and differ in the constant `NR_DIGITS` and in their constructors, so
the capacity is a parameter `N`.  A number is an array of `char` cells with the
units in the last cell, a length and a sign flag.

Every access to the array is checked here.  In C++ an access outside the array
is undefined; a call that makes one stops with `outOfBounds`.  The operators
`+` and `-` call each other, so they run under a budget and stop with
`outOfFuel` when it is used up.  The length is a `short int` in the source and
an integer here: the operators change it by at most the array's size, far from
its limits, and the one place that may cut it is the older string constructor.
-/

namespace MiscCode

open Finset

/-- What ends a call other than a returned value. -/
inductive Stop where
  /-- `throw BigIntegerEx(reason)`. -/
  | thrown (reason : String)
  /-- `new BigInteger[n]` with a negative `n`. -/
  | badArrayLength
  /-- An array access outside `0 .. NR_DIGITS - 1`. -/
  | outOfBounds
  /-- The budget of the recursion is used up. -/
  | outOfFuel
  deriving DecidableEq, Repr

/-- The outcome of a call. -/
abbrev Run (α : Type) := Except Stop α

@[simp] theorem ok_bind {α β : Type} (x : α) (f : α → Run β) :
    ((.ok x : Run α) >>= f) = f x := rfl

@[simp] theorem error_bind {α β : Type} (e : Stop) (f : α → Run β) :
    ((.error e : Run α) >>= f) = .error e := rfl

/-- The call returns `r`. -/
abbrev Returns {α : Type} (call : ℕ → Run α) (r : α) : Prop :=
  Fuel.EndsIn .outOfFuel call (.ok r)

/-- The call throws a `BigIntegerEx`. -/
abbrev Throws {α : Type} (call : ℕ → Run α) : Prop :=
  ∃ reason, Fuel.EndsIn .outOfFuel call (.error (.thrown reason))

/-- The call reads or writes outside an array. -/
abbrev LeavesArray {α : Type} (call : ℕ → Run α) : Prop :=
  Fuel.EndsIn .outOfFuel call (.error .outOfBounds)

/-- The call ends. -/
abbrev Terminates {α : Type} (call : ℕ → Run α) : Prop :=
  Fuel.Terminates .outOfFuel call

/-- The class, for an array of `N` digits. -/
structure BigInteger (N : ℕ) where
  arr : Vector Int8 N
  len : ℤ
  isPositive : Bool
  deriving DecidableEq, Repr

namespace BigInteger

variable {N : ℕ}

/-! ## Cells and the integer they denote -/

/-- The cell at index `i`; total, for statements. -/
def cell (b : BigInteger N) (i : ℕ) : ℤ :=
  if h : i < N then (b.arr[i]).toInt else 0

/-- The number the digit array denotes. -/
def magnitude (b : BigInteger N) : ℤ :=
  ∑ i ∈ range N, b.cell i * 10 ^ (N - 1 - i)

/-- The integer the digit array and the sign denote. -/
def value (b : BigInteger N) : ℤ :=
  if b.isPositive then b.magnitude else -b.magnitude

/-- Every cell holds a decimal digit. -/
def HasDigits (b : BigInteger N) : Prop :=
  ∀ i < N, 0 ≤ b.cell i ∧ b.cell i ≤ 9

/-- The representation invariant: decimal digits, a length within the array,
and nothing but zeros above the length. -/
structure WellFormed (b : BigInteger N) : Prop where
  digits : b.HasDigits
  one_le_len : 1 ≤ b.len
  len_le : b.len ≤ N
  zero_above : ∀ i : ℕ, (i : ℤ) < N - b.len → b.cell i = 0

/-- The cell at the front of the number, at index `NR_DIGITS - len`. -/
def leadingCell (b : BigInteger N) : ℤ :=
  b.cell (N - b.len).toNat

/-- A well-formed number without leading zeros whose zero is positive. -/
structure Canonical (b : BigInteger N) : Prop extends WellFormed b where
  leading_ne_zero : b.len ≠ 1 → b.leadingCell ≠ 0
  zero_positive : b.magnitude = 0 → b.isPositive = true

/-! ## Array accesses -/

/-- `arr[i]`. -/
def read (b : BigInteger N) (i : ℤ) : Run ℤ :=
  if 0 ≤ i ∧ i < N then .ok (b.cell i.toNat) else .error .outOfBounds

/-- `arr[i] = v`; the stored value is cut to a `char`. -/
def write (b : BigInteger N) (i v : ℤ) : Run (BigInteger N) :=
  if 0 ≤ i ∧ i < N then
    .ok { b with arr := b.arr.setIfInBounds i.toNat (Int8.ofInt v) }
  else .error .outOfBounds

/-- `memcpy(&arr[dst], &arr[src], count)`, as a copy through a temporary.  An
empty copy touches nothing; a negative count is a huge `size_t`. -/
def copyCells (b : BigInteger N) (dst src count : ℤ) : Run (BigInteger N) :=
  if count = 0 then .ok b
  else if 0 < count ∧ 0 ≤ dst ∧ dst + count ≤ N ∧ 0 ≤ src ∧ src + count ≤ N then
    .ok { b with
      arr := Vector.ofFn fun i =>
        if dst ≤ i ∧ i < dst + count then
          Int8.ofInt (b.cell (i - dst + src).toNat)
        else b.arr[i] }
  else .error .outOfBounds

/-- `memset(&arr[dst], 0x0, count)`. -/
def clearCells (b : BigInteger N) (dst count : ℤ) : Run (BigInteger N) :=
  if count = 0 then .ok b
  else if 0 < count ∧ 0 ≤ dst ∧ dst + count ≤ N then
    .ok { b with
      arr := Vector.ofFn fun i =>
        if dst ≤ i ∧ i < dst + count then 0 else b.arr[i] }
  else .error .outOfBounds

/-! ## Constructors -/

/-- `BigInteger()`. -/
def fresh (N : ℕ) : BigInteger N where
  arr := Vector.replicate N 0
  len := 0
  isPositive := true

/-- The loop of `BigInteger(string, int)`, over the characters from the right;
`j` is the cell for the next one. -/
def parseLoop : List Char → ℤ → BigInteger N → Run (BigInteger N)
  | [], _, b => .ok b
  | c :: rest, j, b =>
      if '0' ≤ c ∧ c ≤ '9' then do
        let b ← b.write j ((c.toNat : ℤ) - '0'.toNat)
        parseLoop rest (j - 1) b
      else .error (.thrown "Invalid digit encountered in number")

/-- `BigInteger(string digits, int base)`. -/
def ofString (digits : List Char) (base : ℤ) : Run (BigInteger N) :=
  if digits.length > N then .error (.thrown "Number too large")
  else
    let b : BigInteger N :=
      { fresh N with
        len := digits.length
        isPositive := decide (digits[0]? ≠ some '-') }
    if base = 10 then parseLoop digits.reverse (N - 1) b
    else .error (.thrown "Base not supported")

/-- The `do` loop of `BigInteger(int)`, entered with `i + 1` cells left. -/
def intLoop : ℕ → Int32 → BigInteger N → Run (BigInteger N)
  | 0, _, _ => .error .outOfBounds
  | i + 1, value, b => do
      let b ← b.write i (value % 10).toInt
      let value := value / 10
      if b.len > N then .error (.thrown "Number too large")
      else
        let b := { b with len := b.len + 1 }
        if b.len ≠ 0 ∧ value ≠ 0 then intLoop i value b else .ok b

/-- `BigInteger(int value)`.  The negation wraps at the most negative `int`. -/
def ofInt (value : Int32) : Run (BigInteger N) :=
  let isPositive := decide (0 ≤ value)
  intLoop N (if isPositive then value else -value)
    { fresh N with isPositive }

/-! ## Private helpers -/

/-- `prependDigits`. -/
def prependDigits (b : BigInteger N) (digit : ℤ) : Run (BigInteger N) := do
  let b ← b.write (N - 1 - b.len) digit
  .ok { b with len := b.len + 1 }

/-- `appendZeros`. -/
def appendZeros (b : BigInteger N) (count : ℤ) : Run (BigInteger N) := do
  let b ← b.copyCells (N - b.len - count) (N - b.len) b.len
  let b ← b.clearCells (N - count) count
  .ok { b with len := b.len + count }

/-- The `for` loop of `shrink`, entered at index `NR_DIGITS - left`: the number
of zero cells from there on, up to the first digit. -/
def leadingZeros (b : BigInteger N) : ℕ → Run ℕ
  | 0 => .ok 0
  | left + 1 => do
      let x ← b.read (N - (left + 1))
      if x = 0 then do
        let zeros ← leadingZeros b left
        .ok (zeros + 1)
      else .ok 0

/-- `shrink`. -/
def shrink (b : BigInteger N) : Run (BigInteger N) := do
  let lenToShrink ← b.leadingZeros N
  if b.len > lenToShrink ∨ lenToShrink = N then
    let len := b.len - lenToShrink
    .ok { b with len := if len = 0 then 1 else len }
  else .ok b

/-! ## Printing -/

/-- The loop of `operator <<`, entered at index `NR_DIGITS - left`. -/
def printLoop (b : BigInteger N) : ℕ → Run (List Char)
  | 0 => .ok []
  | left + 1 => do
      let x ← b.read (N - (left + 1))
      let rest ← printLoop b left
      .ok ((if 0 ≤ x then (toString x).toList else []) ++ rest)

/-- `operator <<`, as the text it writes. -/
def text (b : BigInteger N) : Run (List Char) := do
  let digits ← b.printLoop b.len.toNat
  .ok ((if b.isPositive then [] else ['-']) ++ digits)

/-! ## Comparisons -/

/-- `operator >`. -/
def gt (a b : BigInteger N) : Run Bool :=
  if !a.isPositive && b.isPositive then .ok false
  else if a.len > b.len then .ok true
  else if a.len = b.len then do
    let x ← a.read (N - a.len)
    let y ← b.read (N - a.len)
    .ok (decide (x > y))
  else .ok false

/-- `operator ==`. -/
def eq (a b : BigInteger N) : Bool :=
  a.isPositive = b.isPositive && a.arr = b.arr

/-- `operator <`. -/
def lt (a b : BigInteger N) : Run Bool := do
  let greater ← a.gt b
  .ok (!greater && !a.eq b)

/-- `operator < (int)`. -/
def ltInt (a : BigInteger N) (b : Int32) : Run Bool := do
  let bi ← ofInt b
  a.lt bi

/-! ## Addition and subtraction -/

/-- The carry loop of `operator +`, entered with `i + 1` cells left; with none
left the loop is at index `-1`. -/
def carryLoop (a b : BigInteger N) :
    ℕ → ℤ → BigInteger N → Run (BigInteger N)
  | 0, _, _ => .error .outOfBounds
  | i + 1, carry, result => do
      let x ← a.read i
      let y ← b.read i
      let dig := x + y + carry
      let result ← result.write i (dig.tmod 10)
      let carry := dig.tdiv 10
      let result := { result with len := result.len + 1 }
      if carry ≠ 0 ∨ result.len < a.len ∨ result.len < b.len then
        carryLoop a b i carry result
      else .ok result

/-- The borrow loop of `operator -`, entered with `i + 1` cells left. -/
def borrowLoop (a b : BigInteger N) :
    ℕ → ℤ → BigInteger N → Run (BigInteger N)
  | 0, _, result => .ok result
  | i + 1, carry, result => do
      let x ← a.read i
      let y ← b.read i
      if x + carry < y then do
        let result ← result.prependDigits (x + carry + 10 - y)
        borrowLoop a b i (-1) result
      else do
        let result ← result.prependDigits (x + carry - y)
        borrowLoop a b i 0 result

/-- The copy `temp` with `temp.isPositive = true`. -/
def makePositive (b : BigInteger N) : BigInteger N :=
  { b with isPositive := true }

mutual

/-- `operator +`. -/
def add : ℕ → BigInteger N → BigInteger N → Run (BigInteger N)
  | 0, _, _ => .error .outOfFuel
  | fuel + 1, a, b => do
      let bNegative ← b.ltInt 0
      if bNegative then sub fuel a b.makePositive
      else do
        let aNegative ← a.ltInt 0
        if aNegative then sub fuel b a.makePositive
        else carryLoop a b N 0 (fresh N)

/-- `operator -`.  Every branch of the source ends in `result.shrink()`. -/
def sub : ℕ → BigInteger N → BigInteger N → Run (BigInteger N)
  | 0, _, _ => .error .outOfFuel
  | fuel + 1, a, b => do
      let bNegative ← b.ltInt 0
      if bNegative then do
        let result ← add fuel a b.makePositive
        result.shrink
      else do
        let smaller ← a.lt b
        if smaller then do
          let result ← sub fuel b a
          { result with isPositive := false }.shrink
        else do
          let result ← borrowLoop a b N 0 (fresh N)
          result.shrink

end

/-! ## Multiplication -/

/-- The loop over `j` of `operator *`, entered with `j + 1` cells left, for the
row of the digit `b.arr[i]`.  The source's `k` moves with `j`. -/
def rowLoop (a b : BigInteger N) (i : ℤ) :
    ℕ → ℤ → BigInteger N → Run (BigInteger N)
  | 0, carry, row =>
      if (N : ℤ) - a.len ≤ -1 ∨ carry ≠ 0 then .error .outOfBounds
      else .ok row
  | j + 1, carry, row =>
      if (N : ℤ) - a.len ≤ j ∨ carry ≠ 0 then do
        let y ← b.read i
        let x ← a.read j
        let dig := y * x + carry
        let row ← row.write j (dig.tmod 10)
        rowLoop a b i j (dig.tdiv 10) { row with len := row.len + 1 }
      else .ok row

/-- The loop over `i` of `operator *`, entered at index `NR_DIGITS - left`; the
row built there gets `left - 1` trailing zeros. -/
def rows (a b : BigInteger N) : ℕ → Run (List (BigInteger N))
  | 0 => .ok []
  | left + 1 => do
      let row ← rowLoop a b (N - (left + 1)) N 0 (fresh N)
      let row ← row.appendZeros left
      let rest ← rows a b left
      .ok (row :: rest)

/-- `operator *`. -/
def mul (fuel : ℕ) (a b : BigInteger N) : Run (BigInteger N) :=
  if b.len < 0 then .error .badArrayLength
  else do
    let intermediate ← rows a b b.len.toNat
    let result ← intermediate.foldlM (fun result row => add fuel result row)
      (fresh N)
    .ok { result with isPositive := a.isPositive && b.isPositive }

/-- `fact`. -/
def fact : ℕ → BigInteger N → Run (BigInteger N)
  | 0, _ => .error .outOfFuel
  | fuel + 1, b => do
      let one ← ofInt 1
      if b.eq one then .ok one
      else do
        let less ← sub fuel b one
        let rest ← fact fuel less
        mul fuel b rest

/-! ## The older copy of the class -/

namespace OlderCopy

/-- The loop of `BigInteger(string, int)`, which takes any character. -/
def parseLoop : List Char → ℤ → BigInteger N → Run (BigInteger N)
  | [], _, b => .ok b
  | c :: rest, j, b => do
      let b ← b.write j ((c.toNat : ℤ) - '0'.toNat)
      parseLoop rest (j - 1) b

/-- `BigInteger(string digits, int base)`, which leaves zeros in another base.
Nothing bounds the string here, so its size is cut to a `short int`; the loop
runs over that many characters. -/
def ofString (digits : List Char) (base : ℤ) : Run (BigInteger N) :=
  let len := (digits.length : ℤ).bmod 65536
  let b : BigInteger N :=
    { fresh N with
      len
      isPositive := decide (digits[0]? ≠ some '-') }
  if base = 10 then parseLoop (digits.take len.toNat).reverse (N - 1) b
  else .ok b

/-- The `do` loop of `BigInteger(int)`, without a test of the length. -/
def intLoop : ℕ → Int32 → BigInteger N → Run (BigInteger N)
  | 0, _, _ => .error .outOfBounds
  | i + 1, value, b => do
      let b ← b.write i (value % 10).toInt
      let value := value / 10
      let b := { b with len := b.len + 1 }
      if b.len ≠ 0 ∧ value ≠ 0 then intLoop i value b else .ok b

/-- `BigInteger(int value)`. -/
def ofInt (value : Int32) : Run (BigInteger N) :=
  let isPositive := decide (0 ≤ value)
  intLoop N (if isPositive then value else -value)
    { fresh N with isPositive }

end OlderCopy

end BigInteger

end MiscCode
