import Mathlib.Data.Int.Notation
import Mathlib.Data.Nat.Notation
import Mathlib.Algebra.Order.Ring.Int

/-!
# The C++ `Waveform` class

A waveform keeps its frequencies and its voltages in two vectors and their
number in a third member.  Loops and accessors check an index against that
number alone; the access to the vector itself is unchecked in C++ and stops
the call here when it misses.

The values are those of any type with the arithmetic the code uses.  The device
and the two functions from `math.h` are parameters of the sweep.
-/

namespace MiscCode

/-- The class `Waveform`. -/
structure Waveform (α : Type) where
  frequencies : List α
  voltRms : List α
  numSamples : ℤ
  deriving DecidableEq, Repr

namespace Waveform

variable {α : Type}

/-- What ends a call other than its return. -/
inductive Stop (α : Type) where
  /-- `operator[]` of a vector outside its elements. -/
  | outOfBounds
  /-- The use of a variable that was never assigned. -/
  | uninitialised
  /-- The vector throws; the object it leaves behind, if there is one. -/
  | lengthError (left : Option (Waveform α))
  deriving DecidableEq, Repr

/-- The outcome of a call. -/
abbrev Outcome (α β : Type) := Except (Stop α) β

@[simp] theorem outcome_bind {β γ : Type} (x : β) (f : β → Outcome α γ) :
    ((.ok x : Outcome α β) >>= f) = f x := rfl

@[simp] theorem error_bind {β γ : Type} (e : Stop α) (f : β → Outcome α γ) :
    ((.error e : Outcome α β) >>= f) = .error e := rfl

/-! ## Vectors -/

/-- `xs[i]`, read. -/
def vecGet (xs : List α) (i : ℤ) : Outcome α α :=
  if 0 ≤ i then
    match xs[i.toNat]? with
    | some x => .ok x
    | none => .error .outOfBounds
  else .error .outOfBounds

/-- `xs[i] = x`. -/
def vecSet (xs : List α) (i : ℤ) (x : α) : Outcome α (List α) :=
  if 0 ≤ i ∧ i < xs.length then .ok (xs.set i.toNat x)
  else .error .outOfBounds

/-- `xs.resize(n)`: cut, or filled up with zeros; a negative `n` is a huge
`size_t`, for which the vector throws. -/
def vecResize [Zero α] (xs : List α) (n : ℤ) : Option (List α) :=
  if n < 0 then none
  else some (xs.take n.toNat ++ List.replicate (n.toNat - xs.length) 0)

/-! ## Constructors -/

/-- `Waveform(void)`. -/
def empty : Waveform α where
  frequencies := []
  voltRms := []
  numSamples := 0

/-- `push_back` on both vectors. -/
def pushBack (w : Waveform α) (frequency voltRms : α) : Waveform α :=
  { w with
    frequencies := w.frequencies ++ [frequency]
    voltRms := w.voltRms ++ [voltRms] }

/-- The functions of `math.h` the sweep uses. -/
structure Libm (α : Type) where
  log10 : α → α
  pow10 : α → α

/-- A device: whether it is open, and what its readings at given frequencies
answer, in turn; `none` is a failed reading. -/
structure Device (α : Type) where
  isOpen : Bool
  readRms : ℕ → α → Option α

section Sweep

variable [Add α] [Sub α] [Div α] [IntCast α]

/-- The loop of the sweep from round `i` on; a failed reading leaves it. -/
def sweepLoop (libm : Libm α) (dev : Device α) (delta : α) :
    ℕ → ℕ → α → Waveform α → Waveform α
  | 0, _, _, w => w
  | rounds + 1, i, startl, w =>
      let freq := libm.pow10 startl
      match dev.readRms i freq with
      | none => w
      | some voltRms =>
          sweepLoop libm dev delta rounds (i + 1) (startl + delta)
            (w.pushBack freq voltRms)

/-- `Waveform(double, double, int)`. -/
def sweep (libm : Libm α) (dev : Device α) (startFreq endFreq : α)
    (numSamples : ℤ) : Waveform α :=
  if dev.isOpen then
    let startl := libm.log10 startFreq
    let endl := libm.log10 endFreq
    let delta := (endl - startl) / (numSamples - 1 : ℤ)
    sweepLoop libm dev delta numSamples.toNat 0 startl
      { (empty : Waveform α) with numSamples := numSamples }
  else empty

end Sweep

/-- `Waveform(const char *)`, by the records of the file; the counter is an
`int`. -/
def ofFile (records : List (α × α)) : Waveform α :=
  records.foldl (fun w record =>
    { w.pushBack record.1 record.2 with
      numSamples := (w.numSamples + 1).bmod (2 ^ 32) }) empty

/-- `Waveform(int)`; `reserve` adds no element, and throws for a negative
number. -/
def ofNumSamples (numSamples : ℤ) : Outcome α (Waveform α) :=
  if numSamples < 0 then .error (.lengthError none)
  else .ok { (empty : Waveform α) with numSamples := numSamples }

/-! ## Loops and accessors -/

/-- The loop over all samples in `dump` and `write_to_file`. -/
def samplesFrom (w : Waveform α) : List ℕ → Outcome α (List (α × α))
  | [] => .ok []
  | i :: is => do
      let freq ← vecGet w.frequencies i
      let voltRms ← vecGet w.voltRms i
      let rest ← samplesFrom w is
      .ok ((freq, voltRms) :: rest)

/-- `dump`, by the samples it prints. -/
def dump (w : Waveform α) : Outcome α (List (α × α)) :=
  w.samplesFrom (List.range w.numSamples.toNat)

/-- `write_to_file`, by its return value and the samples it writes; `opens`
says whether the file can be opened. -/
def writeToFile (w : Waveform α) (opens : Bool) :
    Outcome α (ℤ × List (α × α)) :=
  if w.numSamples = 0 then .ok (-1, [])
  else if !opens then .ok (-1, [])
  else do
    let written ← w.samplesFrom (List.range w.numSamples.toNat)
    .ok (0, written)

/-- `resize`. -/
def resize [Zero α] (w : Waveform α) (numSamples : ℤ) :
    Outcome α (Waveform α) :=
  if w.numSamples = numSamples then .ok w
  else
    match vecResize w.frequencies numSamples, vecResize w.voltRms numSamples with
    | some frequencies, some voltRms =>
        .ok { frequencies := frequencies, voltRms := voltRms,
              numSamples := numSamples }
    | _, _ => .error (.lengthError (some { w with numSamples := numSamples }))

/-- `set_freq_at`. -/
def setFreqAt (w : Waveform α) (freq : α) (index : ℤ) :
    Outcome α (Waveform α) :=
  if index < w.numSamples then do
    let frequencies ← vecSet w.frequencies index freq
    .ok { w with frequencies := frequencies }
  else .ok w

/-- `set_vrms_at`. -/
def setVrmsAt (w : Waveform α) (vrms : α) (index : ℤ) :
    Outcome α (Waveform α) :=
  if index < w.numSamples then do
    let voltRms ← vecSet w.voltRms index vrms
    .ok { w with voltRms := voltRms }
  else .ok w

/-- `get_vrms_at`; `none` for the return value `false`. -/
def getVrmsAt (w : Waveform α) (index : ℤ) : Outcome α (Option α) :=
  if index ≥ w.numSamples then .ok none
  else do
    let vrms ← vecGet w.voltRms index
    .ok (some vrms)

/-- `get_freq_at`; `none` for the return value `false`. -/
def getFreqAt (w : Waveform α) (index : ℤ) : Outcome α (Option α) :=
  if index ≥ w.numSamples then .ok none
  else do
    let freq ← vecGet w.frequencies index
    .ok (some freq)

/-! ## The deviation -/

/-- A variable an accessor may have assigned. -/
def assigned : Option α → Outcome α α
  | some x => .ok x
  | none => .error .uninitialised

/-- One round of the loop of `get_deviation`. -/
def deviationRound [Sub α] (w1 w2 w : Waveform α) (i : ℕ) :
    Outcome α (Waveform α) := do
  let w1Freq ← assigned (← w1.getFreqAt i)
  let w2Freq ← assigned (← w2.getFreqAt i)
  let w ← w.setFreqAt (w1Freq - w2Freq) i
  let w1Vrms ← assigned (← w1.getVrmsAt i)
  let w2Vrms ← assigned (← w2.getVrmsAt i)
  w.setVrmsAt (w1Vrms - w2Vrms) i

/-- The loop of `get_deviation` over the rounds left. -/
def deviationLoop [Sub α] (w1 w2 : Waveform α) :
    List ℕ → Waveform α → Outcome α (Waveform α)
  | [], w => .ok w
  | i :: is, w => do
      let w ← deviationRound w1 w2 w i
      deviationLoop w1 w2 is w

/-- `get_deviation`: its return value and the target it leaves. -/
def getDeviation [Zero α] [Sub α] (w1 w2 w : Waveform α) :
    Outcome α (Bool × Waveform α) :=
  if w1.numSamples ≠ w2.numSamples then .ok (false, w)
  else do
    let w ← w.resize w1.numSamples
    let w ← deviationLoop w1 w2 (List.range w1.numSamples.toNat) w
    .ok (true, w)

/-! ## Programs that make waveforms -/

/-- A call of one of the constructors. -/
inductive Construction (α : Type) where
  | default
  | sweep (libm : Libm α) (dev : Device α) (startFreq endFreq : α)
      (numSamples : ℤ)
  | file (records : List (α × α))
  | sized (numSamples : ℤ)

/-- How a waveform came about: a constructor, and the calls made on the object
since.  The operands of `get_deviation` have histories of their own. -/
inductive History (α : Type) where
  | construct (c : Construction α)
  | resize (w : History α) (numSamples : ℤ)
  | setFreqAt (w : History α) (freq : α) (index : ℤ)
  | setVrmsAt (w : History α) (vrms : α) (index : ℤ)
  | getFreqAt (w : History α) (index : ℤ)
  | getVrmsAt (w : History α) (index : ℤ)
  | getDeviation (w1 w2 target : History α)

section Run

variable [Zero α] [Add α] [Sub α] [Div α] [IntCast α]

/-- The constructors. -/
def construct : Construction α → Outcome α (Waveform α)
  | .default => .ok empty
  | .sweep libm dev startFreq endFreq numSamples =>
      .ok (sweep libm dev startFreq endFreq numSamples)
  | .file records => .ok (ofFile records)
  | .sized numSamples => ofNumSamples numSamples

/-- The waveform at the end of a history. -/
def History.run : History α → Outcome α (Waveform α)
  | .construct c => Waveform.construct c
  | .resize w numSamples => do
      let w ← w.run
      w.resize numSamples
  | .setFreqAt w freq index => do
      let w ← w.run
      w.setFreqAt freq index
  | .setVrmsAt w vrms index => do
      let w ← w.run
      w.setVrmsAt vrms index
  | .getFreqAt w index => do
      let w ← w.run
      let _ ← w.getFreqAt index
      .ok w
  | .getVrmsAt w index => do
      let w ← w.run
      let _ ← w.getVrmsAt index
      .ok w
  | .getDeviation w1 w2 target => do
      let w1 ← w1.run
      let w2 ← w2.run
      let target ← target.run
      let (_, w) ← Waveform.getDeviation w1 w2 target
      .ok w

end Run

/-! ## Statements about sizes -/

/-- Both vectors have `num_samples` elements. -/
structure Sized (w : Waveform α) : Prop where
  frequencies : (w.frequencies.length : ℤ) = w.numSamples
  voltRms : (w.voltRms.length : ℤ) = w.numSamples

/-- The loops, and the accessors at every index that is not negative, touch
existing elements only. -/
structure ReadsInside (w : Waveform α) : Prop where
  dump : ∃ out, w.dump = .ok out
  writeToFile : ∀ opens, ∃ out, w.writeToFile opens = .ok out
  getFreqAt : ∀ index, 0 ≤ index → ∃ out, w.getFreqAt index = .ok out
  getVrmsAt : ∀ index, 0 ≤ index → ∃ out, w.getVrmsAt index = .ok out

/-- No access misses, and the object at hand, returned or left behind by an
exception, has the sizes it should have. -/
def Intact : Outcome α (Waveform α) → Prop
  | .ok w => w.Sized ∧ w.ReadsInside
  | .error (.lengthError left) => ∀ w, left = some w → w.Sized
  | .error _ => False

variable [Zero α] [Add α] [Sub α] [Div α] [IntCast α]

/-- The sizes are right after the constructor and after every call, for the
object and for every operand it met. -/
def History.KeepsSizes : History α → Prop
  | .construct c => Intact (Waveform.construct c)
  | .resize w numSamples =>
      w.KeepsSizes ∧ Intact (History.resize w numSamples).run
  | .setFreqAt w freq index =>
      w.KeepsSizes ∧ Intact (History.setFreqAt w freq index).run
  | .setVrmsAt w vrms index =>
      w.KeepsSizes ∧ Intact (History.setVrmsAt w vrms index).run
  | .getFreqAt w index =>
      w.KeepsSizes ∧ Intact (History.getFreqAt w index).run
  | .getVrmsAt w index =>
      w.KeepsSizes ∧ Intact (History.getVrmsAt w index).run
  | .getDeviation w1 w2 target =>
      w1.KeepsSizes ∧ w2.KeepsSizes ∧ target.KeepsSizes ∧
        Intact (History.getDeviation w1 w2 target).run

/-- The readings of a sweep from round `i` on all succeed. -/
def AllReadings (libm : Libm α) (dev : Device α) (delta : α) :
    ℕ → ℕ → α → Prop
  | 0, _, _ => True
  | rounds + 1, i, startl =>
      (dev.readRms i (libm.pow10 startl)).isSome ∧
        AllReadings libm dev delta rounds (i + 1) (startl + delta)

/-- A constructor that fills its vectors: a sweep on a closed device, or with a
number that is not negative and readings that all succeed; a file whose records
an `int` can count; no number of samples given in advance but zero, or a
negative one, which throws. -/
def Construction.Fills : Construction α → Prop
  | .default => True
  | .sweep libm dev startFreq endFreq numSamples =>
      dev.isOpen = true → 0 ≤ numSamples ∧
        AllReadings libm dev
          ((libm.log10 endFreq - libm.log10 startFreq) /
            (numSamples - 1 : ℤ)) numSamples.toNat 0 (libm.log10 startFreq)
  | .file records => records.length < 2 ^ 31
  | .sized numSamples => numSamples ≤ 0

/-- Every constructor fills its vectors, and no call on an existing object is
given a negative number or index. -/
def History.Proper : History α → Prop
  | .construct c => c.Fills
  | .resize w numSamples =>
      w.Proper ∧ ((∃ v, w.run = .ok v) → 0 ≤ numSamples)
  | .setFreqAt w _ index => w.Proper ∧ ((∃ v, w.run = .ok v) → 0 ≤ index)
  | .setVrmsAt w _ index => w.Proper ∧ ((∃ v, w.run = .ok v) → 0 ≤ index)
  | .getFreqAt w index => w.Proper ∧ ((∃ v, w.run = .ok v) → 0 ≤ index)
  | .getVrmsAt w index => w.Proper ∧ ((∃ v, w.run = .ok v) → 0 ≤ index)
  | .getDeviation w1 w2 target => w1.Proper ∧ w2.Proper ∧ target.Proper

end Waveform
end MiscCode
