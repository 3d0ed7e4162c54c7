import Mathlib.Data.Nat.Notation
import Mathlib.Logic.Function.Basic
import Mathlib.Data.Int.Notation
import Mathlib.Algebra.Order.Ring.Int

/-!
# The two solutions of two-sum

`solution` searches to the right of every element for its complement.
`solutionOptnums` first collects the indices of every value in a hash map and
then looks the complement of every element up.  Both answer the two indices
they find, or nothing.

A `HashMap` is the partial function from its keys to its values, as nothing
here depends on an iteration order.  The subtraction is that of a checked
build: it panics when the difference leaves `i32`.
-/

namespace MiscCode
namespace TwoSum

/-- What stops a call. -/
inductive Panic where
  | subtractWithOverflow
  | indexOutOfBounds
  deriving DecidableEq, Repr

/-- The outcome of a call. -/
abbrev Checked (α : Type) := Except Panic α

@[simp] theorem checked_bind {α β : Type} (x : α) (f : α → Checked β) :
    ((.ok x : Checked α) >>= f) = f x := rfl

/-- The difference is an `i32`. -/
def InRange (a b : Int32) : Prop :=
  -2 ^ 31 ≤ a.toInt - b.toInt ∧ a.toInt - b.toInt < 2 ^ 31

instance (a b : Int32) : Decidable (InRange a b) :=
  inferInstanceAs (Decidable (_ ∧ _))

/-- `a - b`. -/
def sub (a b : Int32) : Checked Int32 :=
  if InRange a b then .ok (a - b) else .error .subtractWithOverflow

/-- `xs[i]`. -/
def index {α : Type} (xs : List α) (i : ℕ) : Checked α :=
  match xs[i]? with
  | some x => .ok x
  | none => .error .indexOutOfBounds

/-- `HashMap<i32, Vec<usize>>`. -/
abbrev IndexMap := Int32 → Option (List ℕ)

/-- The `match` on `index_map.entry(*val)`: a vacant entry gets the vector
`[i]`, an occupied one has `i` appended. -/
def IndexMap.enter (m : IndexMap) (entry : Int32 × ℕ) : IndexMap :=
  match m entry.1 with
  | none => Function.update m entry.1 (some [entry.2])
  | some indices => Function.update m entry.1 (some (indices ++ [entry.2]))

/-- `index_map` after the first loop. -/
def indexMap (nums : List Int32) : IndexMap :=
  nums.zipIdx.foldl IndexMap.enter fun _ => none

/-- The second loop of `solution_optnums` over the elements left.  The tests
`contains_key` and `get` of the complement are one look-up. -/
def optnumsLoop (m : IndexMap) (target : Int32) :
    List (Int32 × ℕ) → List Int32 → Checked (List Int32)
  | [], ans => .ok ans
  | (val, i) :: rest, ans => do
      let newTarget ← sub target val
      match m newTarget with
      | none => optnumsLoop m target rest []
      | some indices =>
          -- an element is not its own partner
          if val = newTarget ∧ indices.length < 2 then
            optnumsLoop m target rest ans
          else do
            let first ← index indices 0
            .ok (ans ++ [Int32.ofNat i] ++ [Int32.ofNat first])

/-- `solution_optnums`. -/
def solutionOptnums (nums : List Int32) (target : Int32) :
    Checked (List Int32) :=
  optnumsLoop (indexMap nums) target nums.zipIdx []

/-- The inner loop of `solution` over the indices left: the first one that
holds `newTarget`. -/
def innerLoop (nums : List Int32) (newTarget : Int32) :
    List ℕ → Checked (Option ℕ)
  | [] => .ok none
  | j :: js => do
      let val ← index nums j
      if val = newTarget then .ok (some j) else innerLoop nums newTarget js

/-- The outer loop of `solution` over the indices left. -/
def outerLoop (nums : List Int32) (target : Int32) :
    List ℕ → List Int32 → Checked (List Int32)
  | [], ans => .ok ans
  | i :: is, ans => do
      let val ← index nums i
      let newTarget ← sub target val
      let found ← innerLoop nums newTarget
        (List.range' (i + 1) (nums.length - (i + 1)))
      match found with
      | some j => .ok (ans ++ [Int32.ofNat i] ++ [Int32.ofNat j])
      | none => outerLoop nums target is (ans ++ [Int32.ofNat i]).dropLast

/-- `solution`. -/
def solution (nums : List Int32) (target : Int32) : Checked (List Int32) :=
  outerLoop nums target (List.range nums.length) []

/-- The sample of `run`. -/
example : (solutionOptnums [1, 2, 3, 4, 5] 7).toOption = some [1, 4] := by
  decide

/-! ## Statements about an input -/

/-- The indices `i < j` hold a pair with the sum `target`. -/
def IsPair (nums : List Int32) (target : Int32) (i j : ℕ) : Prop :=
  i < j ∧ ∃ v w, nums[i]? = some v ∧ nums[j]? = some w ∧
    v.toInt + w.toInt = target.toInt

/-- No difference the programs compute leaves `i32`. -/
def DifferencesFit (nums : List Int32) (target : Int32) : Prop :=
  ∀ v ∈ nums, InRange target v

/-- `i` is the first index of a pair, and no pair starts before it. -/
def StartsFirst (nums : List Int32) (target : Int32) (i : ℕ) : Prop :=
  (∃ j, IsPair nums target i j) ∧ ∀ i' < i, ∀ j, ¬ IsPair nums target i' j

end TwoSum
end MiscCode
