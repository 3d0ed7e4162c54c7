import Mathlib.Algebra.BigOperators.Group.List.Basic
import Mathlib.Algebra.Field.Rat
import Mathlib.Algebra.Order.Ring.Int
import Mathlib.Data.List.Infix

/-!
# The capture loop of the C++ device

`read_rms` asks the driver again and again what it has, fetches it behind what
it has fetched before, and stops once there are as many samples as requested.
The last fetch may go past the request, for which the buffer has 512 elements
more.  A report that overshoots this slack is fetched all the same.

A run takes the driver's reports in turn, and is pending when they do not
suffice.  The values are those of any type with the arithmetic the code uses.
-/

namespace MiscCode
namespace Capture

variable {α : Type}

/-- What is undefined in C++. -/
inductive Fault where
  | overflow
  /-- A fetch past the end of the buffer. -/
  | outOfBuffer
  deriving DecidableEq, Repr

/-- The outcome of a call. -/
abbrev Outcome (β : Type) := Except Fault β

@[simp] theorem outcome_bind {β γ : Type} (b : β) (f : β → Outcome γ) :
    ((.ok b : Outcome β) >>= f) = f b := rfl

/-- The addition of two `int` values. -/
def addInt (a b : ℤ) : Outcome ℤ :=
  if -2 ^ 31 ≤ a + b ∧ a + b < 2 ^ 31 then .ok (a + b) else .error .overflow

/-- `DwfState`, as far as the loop tells its values apart. -/
inductive DwfState where
  | stsCfg
  | stsPrefill
  | stsArm
  | other
  deriving DecidableEq, Repr

/-- The acquisition has not started yet. -/
def DwfState.Waiting (status : DwfState) : Prop :=
  status = .stsCfg ∨ status = .stsPrefill ∨ status = .stsArm

instance (status : DwfState) : Decidable status.Waiting :=
  inferInstanceAs (Decidable (_ ∨ _ ∨ _))

/-- What the driver has to say in one turn of the loop: whether
`FDwfAnalogInStatus` succeeds, the status, the three counts, and the values a
fetch delivers. -/
structure Report (α : Type) where
  answers : Bool
  status : DwfState
  available : ℕ
  lost : ℕ
  corrupted : ℕ
  samples : ℕ → α

/-- The variables of the loop, with the elements of `samples_data` that have
been fetched. -/
structure Progress (α : Type) where
  captured : ℤ
  csSum : ℤ
  data : List α

/-- The variables before the loop. -/
def Progress.start : Progress α where
  captured := 0
  csSum := 0
  data := []

/-- `FDwfAnalogInStatusData` into `&samples_data[captured_samples]`, where the
buffer has `size` elements. -/
def fetch (size : ℤ) (s : Progress α) (available : ℤ) (samples : ℕ → α) :
    Outcome (List α) :=
  if s.captured + available ≤ size then
    .ok (s.data ++ (List.range available.toNat).map samples)
  else
    .error .outOfBuffer

/-- A turn of the loop; none is the `return false`.  `cs_sum` only decides what
is printed, and wraps. -/
def captureTurn (size : ℤ) (r : Report α) (s : Progress α) :
    Outcome (Option (Progress α)) :=
  if r.answers then
    if s.captured = 0 ∧ r.status.Waiting then
      .ok (some s)
    else do
      let available ← addInt r.available r.lost
      let csSum := (s.csSum + r.corrupted).bmod (2 ^ 32)
      if available = 0 then
        .ok (some { s with csSum := csSum })
      else do
        let data ← fetch size s available r.samples
        let captured ← addInt s.captured available
        .ok (some { captured := captured, csSum := csSum, data := data })
  else
    .ok none

/-- How far the loop comes. -/
inductive Run (α : Type) where
  | failed
  | pending
  | complete (s : Progress α)

/-- The loop of `read_rms`. -/
def captureLoop (numSamples size : ℤ) :
    List (Report α) → Progress α → Outcome (Run α)
  | [], s => .ok (if s.captured < numSamples then .pending else .complete s)
  | r :: rs, s =>
      if s.captured < numSamples then do
        match ← captureTurn size r s with
        | none => .ok .failed
        | some s' => captureLoop numSamples size rs s'
      else
        .ok (.complete s)

/-- What `read_rms` comes to: `false`, no end yet, or a value together with the
number of corrupted samples, which is printed unless it is zero. -/
inductive Reading (α : Type) where
  | failed
  | pending
  | rms (value : α) (csSum : ℤ)

section ReadRms

variable [Zero α] [Add α] [Mul α] [Div α] [IntCast α]

/-- The sum of the squares of the captured samples, by their number. -/
def meanSquare (s : Progress α) : α :=
  (s.data.take s.captured.toNat).foldl (fun sum x => sum + x * x) 0 /
    (s.captured : α)

/-- `read_rms`. -/
def readRms (sqrt : α → α) (isOpen : Bool) (numSamples : ℤ)
    (reports : List (Report α)) : Outcome (Reading α) :=
  if isOpen then do
    let size ← addInt numSamples 512
    match ← captureLoop numSamples size reports .start with
    | .failed => .ok .failed
    | .pending => .ok .pending
    | .complete s => .ok (.rms (sqrt (meanSquare s)) s.csSum)
  else
    .ok .failed

end ReadRms

/-! ## Reports and the slack -/

/-- The samples reported after one more report; while there are none, a report
of an acquisition that has not started does not count. -/
def count (t : ℕ) (r : Report α) : ℕ :=
  if t = 0 ∧ r.status.Waiting then t else t + (r.available + r.lost)

/-- The samples reported, on top of `t`. -/
def reported (t : ℕ) (reports : List (Report α)) : ℕ :=
  reports.foldl count t

/-- While samples are missing, no report goes more than 512 samples past the
request. -/
def WithinSlack (numSamples : ℤ) (t : ℕ) (reports : List (Report α)) : Prop :=
  ∀ pre r, pre ++ [r] <+: reports → (∀ r' ∈ pre ++ [r], r'.answers = true) →
    (reported t pre : ℤ) < numSamples →
    (reported t (pre ++ [r]) : ℤ) ≤ numSamples + 512

theorem le_count (t : ℕ) (r : Report α) : t ≤ count t r := by
  unfold count
  split
  · exact le_rfl
  · exact Nat.le_add_right t _

theorem le_reported (t : ℕ) (reports : List (Report α)) :
    t ≤ reported t reports := by
  induction reports generalizing t with
  | nil => exact le_rfl
  | cons r rs ih => exact (le_count t r).trans (ih (count t r))

theorem withinSlack_nil (numSamples : ℤ) (t : ℕ) :
    WithinSlack numSamples t ([] : List (Report α)) := by
  intro pre r hpre
  exact absurd (List.prefix_nil.mp hpre) (by simp)

/-- Once there are enough samples, no report is looked at. -/
theorem withinSlack_of_le {numSamples : ℤ} {t : ℕ} (h : numSamples ≤ t)
    (reports : List (Report α)) : WithinSlack numSamples t reports := by
  intro pre r _ _ hlt
  have := le_reported t pre
  omega

theorem withinSlack_of_not_answers {r : Report α} (h : ¬ r.answers = true)
    (numSamples : ℤ) (t : ℕ) (rs : List (Report α)) :
    WithinSlack numSamples t (r :: rs) := by
  intro pre r' hpre hall
  cases pre with
  | nil =>
      obtain ⟨rfl, -⟩ := List.cons_prefix_cons.mp hpre
      exact absurd (hall r' List.mem_cons_self) h
  | cons q pre =>
      obtain ⟨rfl, -⟩ := List.cons_prefix_cons.mp hpre
      exact absurd (hall q List.mem_cons_self) h

theorem withinSlack_cons {r : Report α} (h : r.answers = true)
    {numSamples : ℤ} {t : ℕ} (ht : (t : ℤ) < numSamples)
    (rs : List (Report α)) :
    WithinSlack numSamples t (r :: rs) ↔
      (count t r : ℤ) ≤ numSamples + 512 ∧
        WithinSlack numSamples (count t r) rs := by
  constructor
  · intro hslack
    refine ⟨hslack [] r ⟨rs, rfl⟩ ?_ ht, ?_⟩
    · exact fun r' hr' => List.mem_singleton.mp hr' ▸ h
    · intro pre r' hpre hall hlt
      apply hslack (r :: pre) r' (List.cons_prefix_cons.mpr ⟨rfl, hpre⟩)
      · exact fun q hq => (List.mem_cons.mp hq).elim (· ▸ h) (hall q)
      · exact hlt
  · rintro ⟨hfirst, hrest⟩ pre r' hpre hall hlt
    cases pre with
    | nil =>
        obtain ⟨rfl, -⟩ := List.cons_prefix_cons.mp hpre
        exact hfirst
    | cons q pre =>
        obtain ⟨rfl, hpre'⟩ := List.cons_prefix_cons.mp hpre
        exact hrest pre r' hpre'
          (fun q' hq' => hall q' (List.mem_cons_of_mem q hq')) hlt

/-! ## The loop -/

/-- A call with a defined behaviour. -/
def Faultless {β : Type} (x : Outcome β) : Prop :=
  ∀ e, x ≠ .error e

theorem faultless_ok {β : Type} (b : β) : Faultless (.ok b : Outcome β) := nofun

theorem not_faultless_error {β : Type} (e : Fault) :
    ¬ Faultless (.error e : Outcome β) :=
  fun h => h e rfl

theorem faultless_bind {β γ : Type} (x : Outcome β) {f : β → Outcome γ}
    (hf : ∀ b, Faultless (f b)) : Faultless (x >>= f) ↔ Faultless x := by
  cases x with
  | error e =>
      exact iff_of_false (not_faultless_error e) (not_faultless_error e)
  | ok b => exact iff_of_true (hf b) (faultless_ok b)

theorem addInt_eq {a b : ℤ} (h0 : 0 ≤ a + b) (h : a + b < 2 ^ 31) :
    addInt a b = .ok (a + b) :=
  if_pos ⟨by omega, h⟩

theorem addInt_overflow {a b : ℤ} (h : 2 ^ 31 ≤ a + b) :
    addInt a b = .error .overflow :=
  if_neg fun hr => absurd hr.2 (by omega)

/-- The variables stand for `t` captured samples. -/
structure Progress.Holds (s : Progress α) (t : ℕ) : Prop where
  captured : s.captured = t
  length : s.data.length = t

theorem Progress.Holds.skips_iff {s : Progress α} {t : ℕ} (hs : s.Holds t)
    (r : Report α) :
    s.captured = 0 ∧ r.status.Waiting ↔ t = 0 ∧ r.status.Waiting := by
  rw [hs.captured, Int.natCast_eq_zero]

/-- A report that stays within the slack is taken in. -/
theorem captureTurn_within {numSamples : ℤ} {t : ℕ} {r : Report α}
    {s : Progress α} (hs : s.Holds t) (hsize : numSamples + 512 < 2 ^ 31)
    (hr : r.answers = true) (hwithin : (count t r : ℤ) ≤ numSamples + 512) :
    ∃ s', captureTurn (numSamples + 512) r s = .ok (some s') ∧
      s'.Holds (count t r) := by
  have hskip := hs.skips_iff r
  unfold captureTurn
  rw [if_pos hr]
  unfold count at hwithin ⊢
  by_cases hwait : t = 0 ∧ r.status.Waiting
  · rw [if_pos (hskip.mpr hwait), if_pos hwait]
    exact ⟨s, rfl, hs⟩
  · rw [if_neg hwait] at hwithin
    rw [if_neg (mt hskip.mp hwait), if_neg hwait, addInt_eq (by omega) (by omega)]
    by_cases hnone : (r.available + r.lost : ℤ) = 0
    · refine ⟨_, if_pos hnone, hs.captured.trans ?_, hs.length.trans ?_⟩
      · omega
      · omega
    · have hfetch : fetch (numSamples + 512) s (r.available + r.lost)
          r.samples = .ok _ :=
        if_pos (by rw [hs.captured]; omega)
      have hadd : addInt s.captured (r.available + r.lost) = .ok _ :=
        addInt_eq (by rw [hs.captured]; omega) (by rw [hs.captured]; omega)
      refine ⟨_, (if_neg hnone).trans (by rw [hfetch, hadd]; rfl), ?_, ?_⟩
      · simp only [hs.captured]
        omega
      · simp only [List.length_append, List.length_map, List.length_range,
          hs.length]
        omega

/-- A report that overshoots the slack is not defined. -/
theorem captureTurn_past {numSamples : ℤ} {t : ℕ} {r : Report α}
    {s : Progress α} (hs : s.Holds t) (ht : (t : ℤ) < numSamples)
    (hr : r.answers = true) (hpast : numSamples + 512 < (count t r : ℤ)) :
    ∃ e, captureTurn (numSamples + 512) r s = .error e := by
  have hskip := hs.skips_iff r
  unfold captureTurn
  rw [if_pos hr]
  unfold count at hpast
  by_cases hwait : t = 0 ∧ r.status.Waiting
  · rw [if_pos hwait] at hpast
    omega
  · rw [if_neg hwait] at hpast
    rw [if_neg (mt hskip.mp hwait)]
    by_cases hover : 2 ^ 31 ≤ (r.available + r.lost : ℤ)
    · rw [addInt_overflow hover]
      exact ⟨_, rfl⟩
    · have hfetch : fetch (numSamples + 512) s (r.available + r.lost)
          r.samples = .error .outOfBuffer :=
        if_neg (by rw [hs.captured]; omega)
      rw [addInt_eq (by omega) (by omega)]
      exact ⟨_, (if_neg (by omega)).trans (by rw [hfetch]; rfl)⟩

/-- All that a turn can do while samples are missing. -/
theorem captureTurn_cases {numSamples : ℤ} {t : ℕ} {s : Progress α}
    (hs : s.Holds t) (hsize : numSamples + 512 < 2 ^ 31)
    (ht : (t : ℤ) < numSamples) (r : Report α) :
    (¬ r.answers = true ∧ captureTurn (numSamples + 512) r s = .ok none) ∨
    (r.answers = true ∧ (count t r : ℤ) ≤ numSamples + 512 ∧
      ∃ s', captureTurn (numSamples + 512) r s = .ok (some s') ∧
        s'.Holds (count t r)) ∨
    (r.answers = true ∧ ¬ (count t r : ℤ) ≤ numSamples + 512 ∧
      ∃ e, captureTurn (numSamples + 512) r s = .error e) := by
  by_cases hr : r.answers = true
  · by_cases hwithin : (count t r : ℤ) ≤ numSamples + 512
    · exact .inr (.inl ⟨hr, hwithin, captureTurn_within hs hsize hr hwithin⟩)
    · exact .inr (.inr ⟨hr, hwithin,
        captureTurn_past hs ht hr (lt_of_not_ge hwithin)⟩)
  · exact .inl ⟨hr, if_neg hr⟩

/-- The loop stays defined exactly while the reports stay within the slack. -/
theorem captureLoop_faultless_iff {numSamples : ℤ} {t : ℕ}
    {reports : List (Report α)} {s : Progress α} (hs : s.Holds t)
    (hsize : numSamples + 512 < 2 ^ 31) :
    Faultless (captureLoop numSamples (numSamples + 512) reports s) ↔
      WithinSlack numSamples t reports := by
  induction reports generalizing t s with
  | nil => exact iff_of_true (faultless_ok _) (withinSlack_nil numSamples t)
  | cons r rs ih =>
      unfold captureLoop
      by_cases ht : (t : ℤ) < numSamples
      · rw [if_pos (hs.captured.symm ▸ ht)]
        rcases captureTurn_cases hs hsize ht r with ⟨hr, hturn⟩ |
          ⟨hr, hwithin, s', hturn, hs'⟩ | ⟨hr, hpast, e, hturn⟩
        · rw [hturn]
          exact iff_of_true (faultless_ok _)
            (withinSlack_of_not_answers hr numSamples t rs)
        · rw [hturn, withinSlack_cons hr ht]
          exact (ih hs').trans (and_iff_right hwithin).symm
        · rw [hturn, withinSlack_cons hr ht]
          exact iff_of_false (not_faultless_error e) fun h => hpast h.1
      · rw [if_neg (hs.captured.symm ▸ ht)]
        exact iff_of_true (faultless_ok _)
          (withinSlack_of_le (le_of_not_gt ht) _)

/-- The loop is left with as many captured samples as requested, or more. -/
theorem captureLoop_complete {numSamples : ℤ} {t : ℕ}
    {reports : List (Report α)} {s s' : Progress α} (hs : s.Holds t)
    (hsize : numSamples + 512 < 2 ^ 31)
    (hrun : captureLoop numSamples (numSamples + 512) reports s =
      .ok (.complete s')) :
    ∃ t', s'.Holds t' ∧ numSamples ≤ t' := by
  induction reports generalizing t s with
  | nil =>
      unfold captureLoop at hrun
      by_cases ht : s.captured < numSamples
      · rw [if_pos ht] at hrun
        cases hrun
      · rw [if_neg ht] at hrun
        cases hrun
        exact ⟨t, hs, hs.captured ▸ le_of_not_gt ht⟩
  | cons r rs ih =>
      unfold captureLoop at hrun
      by_cases ht : s.captured < numSamples
      · rw [if_pos ht] at hrun
        rcases captureTurn_cases hs hsize (hs.captured ▸ ht) r with
          ⟨-, hturn⟩ | ⟨-, -, s'', hturn, hs''⟩ | ⟨-, -, e, hturn⟩
        · rw [hturn] at hrun
          cases hrun
        · rw [hturn] at hrun
          exact ih hs'' hrun
        · rw [hturn] at hrun
          cases hrun
      · rw [if_neg ht] at hrun
        cases hrun
        exact ⟨t, hs, hs.captured ▸ le_of_not_gt ht⟩

theorem start_holds : (Progress.start : Progress α).Holds 0 := ⟨rfl, rfl⟩

section ReadRms

variable [Zero α] [Add α] [Mul α] [Div α] [IntCast α]

/-- Every fetch of `read_rms` stays inside the buffer exactly when the size of
the buffer is an `int` and no report overshoots the slack. -/
theorem readRms_faultless_iff (sqrt : α → α) (isOpen : Bool) (numSamples : ℤ)
    (hnum : 0 ≤ numSamples) (reports : List (Report α)) :
    Faultless (readRms sqrt isOpen numSamples reports) ↔
      (isOpen = true → numSamples + 512 < 2 ^ 31 ∧
        WithinSlack numSamples 0 reports) := by
  unfold readRms
  by_cases hopen : isOpen = true
  · rw [if_pos hopen]
    by_cases hsize : numSamples + 512 < 2 ^ 31
    · have hloop : Faultless (captureLoop numSamples (numSamples + 512) reports
          .start) ↔ WithinSlack numSamples 0 reports :=
        captureLoop_faultless_iff start_holds hsize
      rw [addInt_eq (by omega) hsize, outcome_bind]
      simp only [hopen, hsize, true_and, forall_const, ← hloop]
      apply faultless_bind
      intro c
      cases c with
      | failed => exact faultless_ok _
      | pending => exact faultless_ok _
      | complete s => exact faultless_ok _
    · rw [addInt_overflow (by omega)]
      exact iff_of_false (not_faultless_error _) fun h => hsize (h hopen).1
  · rw [if_neg hopen]
    exact iff_of_true (faultless_ok _) fun h => absurd h hopen

end ReadRms

/-- The squares are divided by the number of samples that were fetched. -/
theorem meanSquare_eq {s : Progress ℚ} {t : ℕ} (hs : s.Holds t) :
    meanSquare s = (s.data.map fun x => x * x).sum / s.data.length := by
  unfold meanSquare
  rw [hs.captured, Int.toNat_natCast, ← hs.length, List.take_length,
    List.sum_eq_foldl, List.foldl_map, Int.cast_natCast]

/-- The second report takes up the slack but for the one lost sample of the
first. -/
def fourReports : List (Report ℚ) :=
  [⟨true, .other, 2, 1, 0, fun _ => 1⟩, ⟨true, .other, 513, 0, 0, fun _ => 2⟩]

theorem readRms_faultless_iff_four :
    Faultless (readRms id true 4 fourReports) ↔
      (true = true → (4 : ℤ) + 512 < 2 ^ 31 ∧ WithinSlack 4 0 fourReports) :=
  readRms_faultless_iff id true 4 (by decide) fourReports

/-- The driver has 8192 samples where 100 are requested: the one fetch goes
past the 612 elements of the buffer. -/
theorem hundred_requested_8192_reported :
    readRms (id : ℚ → ℚ) true 100 [⟨true, .other, 8192, 0, 0, fun _ => 0⟩] =
        .error .outOfBuffer ∧
      ¬ Faultless (readRms (id : ℚ → ℚ) true 100
        [⟨true, .other, 8192, 0, 0, fun _ => 0⟩]) := by
  have hrun : readRms (id : ℚ → ℚ) true 100
      [⟨true, .other, 8192, 0, 0, fun _ => 0⟩] = .error .outOfBuffer := rfl
  exact ⟨hrun, hrun ▸ not_faultless_error _⟩

end Capture
end MiscCode
