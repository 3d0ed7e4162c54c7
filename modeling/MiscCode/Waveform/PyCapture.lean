import Mathlib.Algebra.Field.Rat
import Mathlib.Algebra.Order.Field.Rat
import Mathlib.Algebra.Order.BigOperators.Group.List
import Mathlib.Data.Int.CharZero

/-!
# The capture loop of the Python device

`readRMS` fetches every report to the start of one buffer and adds the squares
up at once.  It stops by the number of samples delivered or lost, and divides
by the number requested.  The sum over the delivered samples is divided by
their number only on runs that deliver exactly what was requested.

The loop is meant to wait for the acquisition.  It compares a number with
`c_byte` objects, to which no number is equal, and never waits.

The values are exact; `math.sqrt` is a parameter.
-/

namespace MiscCode
namespace PyCapture

/-! ## States of the device, from `dwfconstants.py` -/

/-- A `c_byte` of `ctypes`. -/
structure CByte where
  value : ℤ

/-- `DwfStateConfig`. -/
def dwfStateConfig : CByte := ⟨4⟩

/-- `DwfStatePrefill`. -/
def dwfStatePrefill : CByte := ⟨5⟩

/-- `DwfStateArmed`. -/
def dwfStateArmed : CByte := ⟨1⟩

/-- `value == byte` for an `int` and a `c_byte`.  Neither type knows how to
compare itself with the other, and an `int` is not the same object. -/
def equals (_value : ℤ) (_byte : CByte) : Bool := false

/-- The test of `sts.value` before the first sample. -/
def waits (status : ℤ) : Bool :=
  equals status dwfStateConfig || equals status dwfStatePrefill ||
    equals status dwfStateArmed

/-! ## The loop -/

/-- What the driver has to say in one turn of the loop: the status, the
samples it delivers when asked, as many as are available, and the number of
those lost. -/
structure Report where
  status : ℤ
  samples : List ℚ
  lost : ℕ

/-- The variables of the loop. -/
structure Progress where
  rmsSum : ℚ
  sumAvailSamples : ℕ
  capturedSampleData : List ℚ

/-- The variables before the loop; a fresh `ctypes` array holds zeros. -/
def Progress.start (numSamples : ℤ) : Progress where
  rmsSum := 0
  sumAvailSamples := 0
  capturedSampleData := List.replicate numSamples.toNat 0

/-- `sum(i ** 2 for i in xs)`. -/
def sumSquares (xs : List ℚ) : ℚ :=
  (xs.map fun x => x ^ 2).sum

/-- The elements of the buffer after `FDwfAnalogInStatusData` has written
`samples` to its start; what goes past its end is not among them. -/
def written (buffer samples : List ℚ) : List ℚ :=
  samples.take buffer.length ++ buffer.drop samples.length

/-- A turn of the loop. -/
def readTurn (r : Report) (s : Progress) : Progress :=
  if s.sumAvailSamples = 0 ∧ waits r.status = true then s
  else if r.samples.length = 0 then s
  else
    let buffer := written s.capturedSampleData r.samples
    { rmsSum := s.rmsSum + sumSquares (buffer.take r.samples.length)
      sumAvailSamples := s.sumAvailSamples + r.samples.length + r.lost
      capturedSampleData := buffer }

/-- The loop of `readRMS`; none while it has not ended. -/
def readLoop (numSamples : ℤ) : List Report → Progress → Option Progress
  | [], s => if (s.sumAvailSamples : ℤ) < numSamples then none else some s
  | r :: rs, s =>
      if (s.sumAvailSamples : ℤ) < numSamples then
        readLoop numSamples rs (readTurn r s)
      else some s

/-- The exceptions of `readRMS`. -/
inductive Raised where
  | valueError
  | zeroDivisionError
  deriving DecidableEq, Repr

/-- What `readRMS` comes to. -/
inductive Reading (β : Type) where
  | nan
  | pending
  | raised (e : Raised)
  | rms (value : β)

/-- `readRMS`. -/
def readRMS {β : Type} (sqrt : ℚ → β) (isOpen : Bool) (numSamples : ℤ)
    (reports : List Report) : Reading β :=
  if isOpen then
    if numSamples < 0 then .raised .valueError
    else
      match readLoop numSamples reports (.start numSamples) with
      | none => .pending
      | some s =>
          if numSamples = 0 then .raised .zeroDivisionError
          else .rms (sqrt (s.rmsSum / numSamples))
  else .nan

/-! ## Sums of squares -/

theorem sumSquares_append (xs ys : List ℚ) :
    sumSquares (xs ++ ys) = sumSquares xs + sumSquares ys := by
  unfold sumSquares
  rw [List.map_append, List.sum_append]

theorem sumSquares_nonneg (xs : List ℚ) : 0 ≤ sumSquares xs := by
  apply List.sum_nonneg
  intro x hx
  obtain ⟨y, -, rfl⟩ := List.mem_map.mp hx
  exact sq_nonneg y

theorem sumSquares_eq_zero_iff (xs : List ℚ) :
    sumSquares xs = 0 ↔ ∀ x ∈ xs, x = 0 := by
  induction xs with
  | nil => exact iff_of_true rfl nofun
  | cons x xs ih =>
      have hcons : sumSquares (x :: xs) = x ^ 2 + sumSquares xs := rfl
      rw [hcons, add_eq_zero_iff_of_nonneg (sq_nonneg x) (sumSquares_nonneg xs),
        sq_eq_zero_iff, ih, List.forall_mem_cons]

/-- Two means of one sum are the same only if their divisors are, or there is
nothing to divide. -/
theorem mean_eq_iff {xs : List ℚ} {n : ℤ} (hn : 0 < n) (hxs : xs ≠ []) :
    sumSquares xs / n = sumSquares xs / xs.length ↔
      (xs.length : ℤ) = n ∨ ∀ x ∈ xs, x = 0 := by
  have hn' : (n : ℚ) ≠ 0 := Int.cast_ne_zero.mpr hn.ne'
  have hl : (xs.length : ℚ) ≠ 0 :=
    Nat.cast_ne_zero.mpr (List.length_pos_iff.mpr hxs).ne'
  have hcast : (xs.length : ℚ) = n ↔ (xs.length : ℤ) = n := by
    rw [← Int.cast_natCast, Int.cast_inj]
  rw [div_eq_div_iff hn' hl, mul_eq_mul_left_iff, hcast, sumSquares_eq_zero_iff]

/-! ## Fetches -/

/-- What is read back is what fits into the buffer. -/
theorem written_take (buffer samples : List ℚ) :
    (written buffer samples).take samples.length =
      samples.take buffer.length := by
  unfold written
  rcases Nat.le_total samples.length buffer.length with hle | hle
  · rw [List.take_of_length_le hle, List.take_left']
    rfl
  · rw [List.drop_eq_nil_of_le hle, List.append_nil, List.take_take,
      Nat.min_eq_right hle]

theorem written_length (buffer samples : List ℚ) :
    (written buffer samples).length = buffer.length := by
  unfold written
  rw [List.length_append, List.length_take, List.length_drop]
  omega

/-! ## What is fetched -/

/-- The samples counted after one more report, delivered or lost; those lost do
not count when none is delivered. -/
def count (t : ℕ) (r : Report) : ℕ :=
  if r.samples.length = 0 then t else t + r.samples.length + r.lost

/-- The reports that are asked for, with `t` samples counted before. -/
def asked (numSamples : ℤ) : ℕ → List Report → List Report
  | _, [] => []
  | t, r :: rs =>
      if (t : ℤ) < numSamples then r :: asked numSamples (count t r) rs else []

/-- The samples that reports deliver, where there are some. -/
def deliveries (reports : List Report) : List (List ℚ) :=
  (reports.map Report.samples).filter fun samples => samples.length ≠ 0

/-- What is fetched in a run, fetch by fetch. -/
def fetches (numSamples : ℤ) (reports : List Report) : List (List ℚ) :=
  deliveries (asked numSamples 0 reports)

theorem deliveries_singleton (r : Report) :
    deliveries [r] = if r.samples.length = 0 then [] else [r.samples] := by
  unfold deliveries
  by_cases hnone : r.samples.length = 0
  · rw [if_pos hnone]
    exact List.filter_cons_of_neg fun h => of_decide_eq_true h hnone
  · rw [if_neg hnone]
    exact List.filter_cons_of_pos (decide_eq_true hnone)

theorem deliveries_cons (r : Report) (rs : List Report) :
    deliveries (r :: rs) = deliveries [r] ++ deliveries rs := by
  unfold deliveries
  rw [← List.filter_append, ← List.map_append]
  rfl

theorem length_pos_of_mem_deliveries {reports : List Report} {f : List ℚ}
    (hf : f ∈ deliveries reports) : 0 < f.length :=
  Nat.pos_of_ne_zero (of_decide_eq_true (List.mem_filter.mp hf).2)

/-! ## What the loop adds up -/

/-- The squares of what fits into a buffer of that length, fetch by fetch. -/
def storedSquares (numSamples : ℤ) (fetches : List (List ℚ)) : ℚ :=
  (fetches.map fun f => sumSquares (f.take numSamples.toNat)).sum

theorem storedSquares_append (numSamples : ℤ) (fs gs : List (List ℚ)) :
    storedSquares numSamples (fs ++ gs) =
      storedSquares numSamples fs + storedSquares numSamples gs := by
  unfold storedSquares
  rw [List.map_append, List.sum_append]

theorem storedSquares_nil (numSamples : ℤ) : storedSquares numSamples [] = 0 :=
  rfl

theorem storedSquares_cons (numSamples : ℤ) (f : List ℚ)
    (fs : List (List ℚ)) :
    storedSquares numSamples (f :: fs) =
      sumSquares (f.take numSamples.toNat) + storedSquares numSamples fs :=
  rfl

theorem storedSquares_singleton (numSamples : ℤ) (f : List ℚ) :
    storedSquares numSamples [f] = sumSquares (f.take numSamples.toNat) :=
  List.sum_singleton

/-- The buffer has as many elements as there are samples requested. -/
def Progress.Buffered (s : Progress) (numSamples : ℤ) : Prop :=
  s.capturedSampleData.length = numSamples.toNat

/-- No report is waited through. -/
theorem readTurn_eq (r : Report) (s : Progress) :
    readTurn r s =
      if r.samples.length = 0 then s
      else
        { rmsSum := s.rmsSum + sumSquares
            ((written s.capturedSampleData r.samples).take r.samples.length)
          sumAvailSamples := s.sumAvailSamples + r.samples.length + r.lost
          capturedSampleData := written s.capturedSampleData r.samples } :=
  if_neg fun h => Bool.false_ne_true h.2

theorem readTurn_counts (r : Report) (s : Progress) :
    (readTurn r s).sumAvailSamples = count s.sumAvailSamples r := by
  rw [readTurn_eq]
  unfold count
  split
  · rfl
  · rfl

theorem readTurn_buffered {numSamples : ℤ} {s : Progress}
    (hs : s.Buffered numSamples) (r : Report) :
    (readTurn r s).Buffered numSamples := by
  rw [readTurn_eq]
  split
  · exact hs
  · exact (written_length _ _).trans hs

/-- A turn adds up what the report delivers. -/
theorem readTurn_adds {numSamples : ℤ} {s : Progress}
    (hs : s.Buffered numSamples) (r : Report) :
    (readTurn r s).rmsSum =
      s.rmsSum + storedSquares numSamples (deliveries [r]) := by
  rw [readTurn_eq, deliveries_singleton]
  split
  · rw [storedSquares_nil]
    exact (add_zero _).symm
  · rw [written_take, hs, storedSquares_singleton]

/-- Every report that is asked for adds what it delivers. -/
theorem readLoop_adds {numSamples : ℤ} {reports : List Report}
    {s s' : Progress} (hs : s.Buffered numSamples)
    (h : readLoop numSamples reports s = some s') :
    s'.rmsSum = s.rmsSum + storedSquares numSamples
      (deliveries (asked numSamples s.sumAvailSamples reports)) := by
  induction reports generalizing s with
  | nil =>
      unfold readLoop at h
      split at h
      · cases h
      · cases h
        exact (add_zero _).symm
  | cons r rs ih =>
      unfold readLoop at h
      unfold asked
      split at h
      · next hlt =>
          have hrest := ih (readTurn_buffered hs r) h
          rw [readTurn_counts] at hrest
          rw [if_pos hlt, deliveries_cons, storedSquares_append, hrest,
            readTurn_adds hs, add_assoc]
      · next hge =>
          cases h
          rw [if_neg hge]
          exact (add_zero _).symm

/-- While samples are missing, something is fetched before the loop ends. -/
theorem readLoop_fetches {numSamples : ℤ} {reports : List Report}
    {s s' : Progress} (hlt : (s.sumAvailSamples : ℤ) < numSamples)
    (h : readLoop numSamples reports s = some s') :
    deliveries (asked numSamples s.sumAvailSamples reports) ≠ [] := by
  induction reports generalizing s with
  | nil =>
      unfold readLoop at h
      rw [if_pos hlt] at h
      cases h
  | cons r rs ih =>
      unfold readLoop at h
      rw [if_pos hlt] at h
      unfold asked
      rw [if_pos hlt, deliveries_cons, deliveries_singleton]
      by_cases hnone : r.samples.length = 0
      · have hsame : readTurn r s = s := by
          rw [readTurn_eq, if_pos hnone]
        have hcount : count s.sumAvailSamples r = s.sumAvailSamples :=
          if_pos hnone
        rw [hsame] at h
        rw [if_pos hnone, List.nil_append, hcount]
        exact ih hlt h
      · rw [if_neg hnone]
        exact List.cons_ne_nil _ _

/-! ## The mean of the squares -/

/-- Where every fetch fits, all squares are stored. -/
theorem storedSquares_eq {numSamples : ℤ} {fs : List (List ℚ)}
    (hfit : ∀ f ∈ fs, (f.length : ℤ) ≤ numSamples) :
    storedSquares numSamples fs = sumSquares fs.flatten := by
  induction fs with
  | nil => rfl
  | cons f fs ih =>
      have hf : f.take numSamples.toNat = f := by
        apply List.take_of_length_le
        have := hfit f List.mem_cons_self
        omega
      rw [List.flatten_cons, sumSquares_append, storedSquares_cons, hf,
        ih fun g hg => hfit g (List.mem_cons_of_mem f hg)]

/-- A fetch is part of what is delivered. -/
theorem length_le_flatten {fs : List (List ℚ)} {f : List ℚ} (hf : f ∈ fs) :
    f.length ≤ fs.flatten.length :=
  (List.sublist_flatten_of_mem hf).length_le

/-- When `readRMS` ends, the quantity under its square root is the mean of the
squares of the delivered samples, all of which were stored, exactly when as
many samples were delivered as requested, or nothing but zeros that fit. -/
theorem readRMS_meanSquare_iff {β : Type} (sqrt : ℚ → β) (numSamples : ℤ)
    (hpos : 0 < numSamples) (reports : List Report) (s : Progress)
    (hend : readLoop numSamples reports (.start numSamples) = some s) :
    readRMS sqrt true numSamples reports =
        .rms (sqrt (s.rmsSum / numSamples)) ∧
      ((s.rmsSum / numSamples =
            sumSquares (fetches numSamples reports).flatten /
              (fetches numSamples reports).flatten.length ∧
          ∀ f ∈ fetches numSamples reports, (f.length : ℤ) ≤ numSamples) ↔
        ((fetches numSamples reports).flatten.length : ℤ) = numSamples ∨
          (∀ x ∈ (fetches numSamples reports).flatten, x = 0) ∧
            ∀ f ∈ fetches numSamples reports,
              (f.length : ℤ) ≤ numSamples) := by
  have hsum : s.rmsSum =
      storedSquares numSamples (fetches numSamples reports) :=
    (readLoop_adds (s := .start numSamples) List.length_replicate hend).trans
      (zero_add _)
  have hsome : fetches numSamples reports ≠ [] :=
    readLoop_fetches (by simpa [Progress.start] using hpos) hend
  have hnonempty : (fetches numSamples reports).flatten ≠ [] := by
    obtain ⟨f, hf⟩ := List.exists_mem_of_ne_nil _ hsome
    have hle := length_le_flatten hf
    have hlen := length_pos_of_mem_deliveries hf
    exact List.length_pos_iff.mp (by omega)
  constructor
  · unfold readRMS
    rw [if_pos rfl, if_neg (not_lt_of_ge hpos.le), hend]
    exact if_neg hpos.ne'
  · rw [hsum]
    constructor
    · rintro ⟨hmean, hfit⟩
      rw [storedSquares_eq hfit, mean_eq_iff hpos hnonempty] at hmean
      exact hmean.imp_right fun hzero => ⟨hzero, hfit⟩
    · intro h
      have hfit : ∀ f ∈ fetches numSamples reports,
          (f.length : ℤ) ≤ numSamples := by
        rcases h with hlen | ⟨-, hfit⟩
        · intro f hf
          have := length_le_flatten hf
          omega
        · exact hfit
      refine ⟨?_, hfit⟩
      rw [storedSquares_eq hfit, mean_eq_iff hpos hnonempty]
      exact h.imp_right fun hzero => hzero.1

/-- The first report comes from a device that is still configured. -/
def twoReports : List Report := [⟨4, [3], 0⟩, ⟨3, [4], 0⟩]

theorem readRMS_meanSquare_iff_two :
    readRMS id true 2 twoReports =
        .rms (id ((twoReports.foldl (fun s r => readTurn r s)
          (.start 2)).rmsSum / (2 : ℤ))) ∧
      (((twoReports.foldl (fun s r => readTurn r s) (.start 2)).rmsSum /
            (2 : ℤ) =
            sumSquares (fetches 2 twoReports).flatten /
              (fetches 2 twoReports).flatten.length ∧
          ∀ f ∈ fetches 2 twoReports, (f.length : ℤ) ≤ 2) ↔
        ((fetches 2 twoReports).flatten.length : ℤ) = 2 ∨
          (∀ x ∈ (fetches 2 twoReports).flatten, x = 0) ∧
            ∀ f ∈ fetches 2 twoReports, (f.length : ℤ) ≤ 2) :=
  readRMS_meanSquare_iff id 2 (by decide) twoReports
    (twoReports.foldl (fun s r => readTurn r s) (.start 2)) rfl

/-- Of two requested samples one is delivered and one is lost: half of the
square is taken for its mean. -/
theorem one_of_two_lost :
    ∃ s, readLoop 2 [⟨3, [4], 1⟩] (.start 2) = some s ∧
      fetches 2 [⟨3, [4], 1⟩] = [[4]] ∧ s.rmsSum / (2 : ℤ) = 8 ∧
      ¬ (s.rmsSum / (2 : ℤ) =
          sumSquares (fetches 2 [⟨3, [4], 1⟩]).flatten /
            (fetches 2 [⟨3, [4], 1⟩]).flatten.length ∧
        ∀ f ∈ fetches 2 [⟨3, [4], 1⟩], (f.length : ℤ) ≤ 2) := by
  refine ⟨readTurn ⟨3, [4], 1⟩ (.start 2), rfl, rfl, ?_, ?_⟩
  · decide +kernel
  · rintro ⟨hmean, -⟩
    exact absurd hmean (by decide +kernel)

end PyCapture
end MiscCode
