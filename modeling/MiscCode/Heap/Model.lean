import Mathlib.Data.Int.Notation
import Mathlib.Data.Nat.Notation
import Mathlib.Data.List.Defs
import Mathlib.Algebra.Order.Ring.Int
import MiscCode.Support.PriorityQueue

/-!
# The array heap

A heap is a block of `int` cells with the number of cells in use, the number
allocated and the kind of heap.  `push` and `pop` keep the cells in use in heap
order by sifting one element up or down.

What is undefined in C ends a call here with a fault: an access outside the
block and an `int` that leaves its range.  The two sifting loops run under a
budget.  `malloc` is taken to succeed, and the cells it returns hold arbitrary
values.
-/

namespace MiscCode

/-- A `heap_t`, together with the block `arr` points to. -/
structure Heap where
  arr : List ℤ
  size : ℤ
  capacity : ℤ
  type : ℤ
  deriving DecidableEq, Repr

namespace Heap

open PriorityQueue (Call)

/-- What ends a call other than its return. -/
inductive Fault where
  /-- An access outside the allocated block. -/
  | outOfBounds
  /-- Signed overflow. -/
  | overflow
  /-- The budget of a loop is used up. -/
  | unfinished
  deriving DecidableEq, Repr

/-- The outcome of a call. -/
abbrev Outcome (α : Type) := Except Fault α

@[simp] theorem outcome_bind {α β : Type} (x : α) (f : α → Outcome β) :
    ((.ok x : Outcome α) >>= f) = f x := rfl

/-- `#define MIN_HEAP 0`. -/
def minHeap : ℤ := 0

/-- `#define MAX_HEAP 1`. -/
def maxHeap : ℤ := 1

/-- The result `x` of an `int` operation. -/
def int (x : ℤ) : Outcome ℤ :=
  if -2 ^ 31 ≤ x ∧ x < 2 ^ 31 then .ok x else .error .overflow

/-! ## The block -/

/-- `arr[i]`. -/
def read (h : Heap) (i : ℤ) : Outcome ℤ :=
  if 0 ≤ i ∧ i < h.arr.length then .ok (h.arr.getD i.toNat 0)
  else .error .outOfBounds

/-- `arr[i] = v`. -/
def write (h : Heap) (i v : ℤ) : Outcome Heap :=
  if 0 ≤ i ∧ i < h.arr.length then .ok { h with arr := h.arr.set i.toNat v }
  else .error .outOfBounds

/-- `memcpy(dst, src, sizeof(int) * count)`. -/
def memcpy (dst src : List ℤ) (count : ℤ) : Outcome (List ℤ) :=
  if 0 ≤ count ∧ count ≤ src.length ∧ count ≤ dst.length then
    .ok (src.take count.toNat ++ dst.drop count.toNat)
  else .error .outOfBounds

/-- `alloc_heap`; `mem` is what the cells of the new block hold. -/
def allocHeap (mem : ℕ → ℤ) (capacity type : ℤ) : Heap where
  arr := (List.range capacity.toNat).map mem
  size := 0
  capacity := capacity
  type := type

/-- `increase_heap`: a cleared block of twice the size, with the old cells
copied to its front. -/
def increaseHeap (h : Heap) : Outcome Heap := do
  let capacity ← int (h.capacity * 2)
  let arr ← memcpy (List.replicate capacity.toNat 0) h.arr (capacity.tdiv 2)
  .ok { h with arr := arr, capacity := capacity }

/-! ## Positions -/

/-- `get_parent_idx`. -/
def getParentIdx (idx : ℤ) : ℤ :=
  (idx - 1).tdiv 2

/-- `get_lchild_idx`. -/
def getLchildIdx (idx : ℤ) : Outcome ℤ := do
  let twice ← int (idx * 2)
  int (twice + 1)

/-- `get_rchild_idx`. -/
def getRchildIdx (idx : ℤ) : Outcome ℤ := do
  let twice ← int (idx * 2)
  int (twice + 2)

/-- `get_parent`. -/
def getParent (h : Heap) (idx : ℤ) : Outcome ℤ :=
  h.read ((idx - 1).tdiv 2)

/-- `get_rchild`. -/
def getRchild (h : Heap) (idx : ℤ) : Outcome ℤ := do
  h.read (← getRchildIdx idx)

/-- `has_lchild`. -/
def hasLchild (h : Heap) (idx : ℤ) : Outcome Bool := do
  let child ← getLchildIdx idx
  .ok (child < h.size)

/-- `has_rchild`. -/
def hasRchild (h : Heap) (idx : ℤ) : Outcome Bool := do
  let child ← getRchildIdx idx
  .ok (child < h.size)

/-- `has_parent`. -/
def hasParent (idx : ℤ) : Bool :=
  idx ≠ 0 ∧ (idx - 1).tdiv 2 ≥ 0

/-- `swap`. -/
def swap (h : Heap) (idx1 idx2 : ℤ) : Outcome Heap := do
  let temp ← h.read idx1
  let h' ← h.write idx1 (← h.read idx2)
  h'.write idx2 temp

/-- `heap_cond`: the first element belongs strictly above the second. -/
def heapCond (h : Heap) (ele1 ele2 : ℤ) : Bool :=
  if h.type = minHeap then ele1 < ele2 else ele1 > ele2

/-! ## Sifting -/

/-- The loop of `adjust_up`, from `curr_idx` on. -/
def adjustUpLoop : ℕ → Heap → ℤ → Outcome Heap
  | 0, _, _ => .error .unfinished
  | fuel + 1, h, currIdx =>
      if hasParent currIdx then do
        let curr ← h.read currIdx
        let parent ← h.getParent currIdx
        if h.heapCond curr parent then do
          let h' ← h.swap (getParentIdx currIdx) currIdx
          adjustUpLoop fuel h' (getParentIdx currIdx)
        else .ok h
      else .ok h

/-- `adjust_up`. -/
def adjustUp (h : Heap) : Outcome Heap :=
  adjustUpLoop (h.size.toNat + 1) h (h.size - 1)

/-- `min_child_idx` in `adjust_down`: the child of `curr_idx` that belongs
above the other one, the left one if neither does. -/
def minChildIdx (h : Heap) (currIdx : ℤ) : Outcome ℤ := do
  let left ← getLchildIdx currIdx
  if ← h.hasRchild currIdx then do
    let rightValue ← h.getRchild currIdx
    let leftValue ← h.read left
    if h.heapCond rightValue leftValue then getRchildIdx currIdx
    else .ok left
  else .ok left

/-- The loop of `adjust_down`, from `curr_idx` on. -/
def adjustDownLoop : ℕ → Heap → ℤ → Outcome Heap
  | 0, _, _ => .error .unfinished
  | fuel + 1, h, currIdx => do
      if ← h.hasLchild currIdx then do
        let child ← h.minChildIdx currIdx
        let childValue ← h.read child
        let curr ← h.read currIdx
        if h.heapCond childValue curr then do
          let h' ← h.swap child currIdx
          adjustDownLoop fuel h' child
        else .ok h
      else .ok h

/-- `adjust_down`. -/
def adjustDown (h : Heap) : Outcome Heap :=
  adjustDownLoop (h.size.toNat + 1) h 0

/-! ## The two calls -/

/-- The test at the head of `push`: a full heap is enlarged. -/
def makeRoom (h : Heap) : Outcome Heap :=
  if h.size = h.capacity then h.increaseHeap else .ok h

/-- `push`. -/
def push (h : Heap) (value : ℤ) : Outcome Heap := do
  let h ← h.makeRoom
  let h ← h.write h.size value
  let size ← int (h.size + 1)
  adjustUp { h with size := size }

/-- `pop`: the element taken out, and the heap it leaves. -/
def pop (h : Heap) : Outcome (ℤ × Heap) := do
  if h.size ≤ 0 then .ok (-1, h)
  else do
    let ret ← h.read 0
    let h' ← h.write 0 (← h.read (h.size - 1))
    let h' ← adjustDown { h' with size := h'.size - 1 }
    .ok (ret, h')

/-- One call: what it returns, if anything, and the heap it leaves. -/
def call (h : Heap) : Call ℤ → Outcome (Option ℤ × Heap)
  | .push v => do
      let h' ← h.push v
      .ok (none, h')
  | .pop => do
      let (ret, h') ← h.pop
      .ok (some ret, h')

/-- A sequence of calls on a new heap: what they return, and the heap. -/
def runCalls (mem : ℕ → ℤ) (capacity type : ℤ) (calls : List (Call ℤ)) :
    Outcome (List (Option ℤ) × Heap) :=
  Calls.run call (allocHeap mem capacity type) calls

/-- The sample of `main`: eleven pushes and as many pops. -/
example :
    (runCalls (fun _ => 0) 32 minHeap
      ([2, 5, 2, 9, 7, 2, 1, 4, 5, 6, 7].map .push ++
        List.replicate 11 .pop)).toOption.map (fun out => out.1.drop 11) =
      some ([1, 2, 2, 2, 4, 5, 5, 6, 7, 7, 9].map some) := by
  decide +kernel

/-- The number of cells in use stays below `2 ^ 30` all through the calls. -/
def StaysSmall (mem : ℕ → ℤ) (capacity type : ℤ) (calls : List (Call ℤ)) :
    Prop :=
  Calls.Throughout call (fun h => h.size < 2 ^ 30) (allocHeap mem capacity type)
    calls

/-! ## Statements about a heap -/

/-- The cell at position `i`; total, for statements. -/
def cell (h : Heap) (i : ℕ) : ℤ :=
  h.arr.getD i 0

/-- No element belongs strictly above its parent. -/
def HeapOrdered (h : Heap) : Prop :=
  ∀ i : ℕ, 1 ≤ i → i < h.size →
    h.heapCond (h.cell i) (h.cell (getParentIdx i).toNat) = false

/-- `a` may stand above `b` in a heap of this type. -/
def Above (type a b : ℤ) : Prop :=
  if type = minHeap then a ≤ b else b ≤ a

/-- The cells in use. -/
def elements (h : Heap) : Multiset ℤ :=
  ↑(h.arr.take h.size.toNat)

end Heap

end MiscCode
