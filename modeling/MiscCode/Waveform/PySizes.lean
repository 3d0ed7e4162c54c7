import MiscCode.Waveform.Deviation

/-!
# The sizes of a Python waveform

`waveform.py` counts the samples in a member of its own.  `loadFromFile` keeps
it in step with the two lists.  The sweep sets it in advance and then passes
over readings that are not numbers, and `getDeviation` never sets it.
-/

namespace MiscCode
namespace PyWaveform

variable {α : Type}

/-! ## The class -/

/-- `math.log10` and `10 ** x`, and where `math.log10` does not raise. -/
structure Math (α : Type) extends Waveform.Libm α where
  positive : α → Bool

/-- The exceptions of the constructor. -/
inductive Raised where
  | valueError
  | zeroDivisionError
  deriving DecidableEq, Repr

/-- The outcome of a program that makes waveforms. -/
abbrev Outcome (β : Type) := Except Raised β

@[simp] theorem outcome_bind {β γ : Type} (x : β) (f : β → Outcome γ) :
    ((.ok x : Outcome β) >>= f) = f x := rfl

/-- `append` on both lists. -/
def append (w : PyWaveform α) (freq vrms : α) : PyWaveform α :=
  { w with
    frequencies := w.frequencies ++ [freq]
    voltRms := w.voltRms ++ [vrms] }

section Init

variable [Add α] [Sub α] [Div α] [IntCast α]

/-- The loop of the sweep from round `i` on; a reading that is not a number is
passed over. -/
def sweepLoop (math : Math α) (dev : Waveform.Device α) (delta : α) :
    ℕ → ℕ → α → PyWaveform α → PyWaveform α
  | 0, _, _, w => w
  | rounds + 1, i, startl, w =>
      let freq := math.pow10 startl
      match dev.readRms i freq with
      | none => sweepLoop math dev delta rounds (i + 1) (startl + delta) w
      | some rms =>
          sweepLoop math dev delta rounds (i + 1) (startl + delta)
            (w.append freq rms)

/-- `__init__`. -/
def init (math : Math α) (dev : Waveform.Device α) (startFreq endFreq : α)
    (numSamples : ℤ) : Outcome (PyWaveform α) :=
  if numSamples = 0 then .ok { (empty : PyWaveform α) with numSamples := 0 }
  else if math.positive startFreq && math.positive endFreq then
    if numSamples - 1 = 0 then .error .zeroDivisionError
    else
      let startl := math.log10 startFreq
      let endl := math.log10 endFreq
      let delta := (endl - startl) / (numSamples - 1 : ℤ)
      .ok (sweepLoop math dev delta numSamples.toNat 0 startl
        { (empty : PyWaveform α) with numSamples := numSamples })
  else .error .valueError

end Init

/-- `loadFromFile`, by the records of the file. -/
def loadFromFile (w : PyWaveform α) (records : List (α × α)) : PyWaveform α :=
  records.foldl (fun w record =>
    { w.append record.1 record.2 with numSamples := w.numSamples + 1 }) w

/-! ## Programs that make waveforms -/

/-- How a waveform came about.  The operands of `getDeviation` have histories of
their own. -/
inductive History (α : Type) where
  | init (math : Math α) (dev : Waveform.Device α) (startFreq endFreq : α)
      (numSamples : ℤ)
  | loadFromFile (w : History α) (records : List (α × α))
  | getDeviation (self w : History α)

/-- Both lists have `numSamples` elements. -/
structure Sized (w : PyWaveform α) : Prop where
  frequencies : (w.frequencies.length : ℤ) = w.numSamples
  voltRms : (w.voltRms.length : ℤ) = w.numSamples

/-- The object made, if one is made, has the right size. -/
def Intact (x : Outcome (PyWaveform α)) : Prop :=
  ∀ w, x = .ok w → w.Sized

section Run

variable [Add α] [Sub α] [Div α] [IntCast α]

/-- The waveform at the end of a history. -/
def History.run : History α → Outcome (PyWaveform α)
  | .init math dev startFreq endFreq numSamples =>
      PyWaveform.init math dev startFreq endFreq numSamples
  | .loadFromFile w records => do
      let w ← w.run
      .ok (w.loadFromFile records)
  | .getDeviation self w => do
      let self ← self.run
      let w ← w.run
      .ok (self.getDeviation w)

/-- The sizes are right after the constructor and after every call, for the
object, for every operand and for every waveform that is returned. -/
def History.CountsHold : History α → Prop
  | .init math dev startFreq endFreq numSamples =>
      Intact (PyWaveform.init math dev startFreq endFreq numSamples)
  | .loadFromFile w records =>
      w.CountsHold ∧ Intact (History.loadFromFile w records).run
  | .getDeviation self w =>
      self.CountsHold ∧ w.CountsHold ∧ Intact (History.getDeviation self w).run

/-- A constructor that fills its lists: no samples, a sweep that raises, or one
with a positive number and readings that are all numbers. -/
def Fills (math : Math α) (dev : Waveform.Device α) (startFreq endFreq : α)
    (numSamples : ℤ) : Prop :=
  numSamples = 0 ∨ (math.positive startFreq && math.positive endFreq) = false ∨
    numSamples = 1 ∨ 0 < numSamples ∧
      Waveform.AllReadings math.toLibm dev
        ((math.log10 endFreq - math.log10 startFreq) / (numSamples - 1 : ℤ))
        numSamples.toNat 0 (math.log10 startFreq)

/-- Every constructor fills its lists, and every deviation has an operand
without samples. -/
def History.Proper : History α → Prop
  | .init math dev startFreq endFreq numSamples =>
      Fills math dev startFreq endFreq numSamples
  | .loadFromFile w _ => w.Proper
  | .getDeviation self w =>
      self.Proper ∧ w.Proper ∧ ∀ v1 v2, self.run = .ok v1 → w.run = .ok v2 →
        v1.numSamples = 0 ∨ v2.numSamples = 0

end Run

/-! ## The calls -/

theorem intact_ok (w : PyWaveform α) : Intact (.ok w) ↔ w.Sized := by
  constructor
  · exact fun h => h w rfl
  · rintro h _ ⟨⟩
    exact h

theorem intact_raised (e : Raised) :
    Intact (.error e : Outcome (PyWaveform α)) := nofun

theorem empty_sized : (empty : PyWaveform α).Sized := ⟨rfl, rfl⟩

/-- The sweep keeps the number it was given, and appends one sample for every
reading that is a number. -/
theorem sweepLoop_length [Add α] (math : Math α) (dev : Waveform.Device α)
    (delta : α) (rounds i : ℕ) (startl : α) (w : PyWaveform α) :
    ∃ k ≤ rounds,
      (sweepLoop math dev delta rounds i startl w).frequencies.length =
        w.frequencies.length + k ∧
      (sweepLoop math dev delta rounds i startl w).voltRms.length =
        w.voltRms.length + k ∧
      (sweepLoop math dev delta rounds i startl w).numSamples =
        w.numSamples ∧
      (k = rounds ↔
        Waveform.AllReadings math.toLibm dev delta rounds i startl) := by
  induction rounds generalizing i startl w with
  | zero =>
      exact ⟨0, le_refl 0, rfl, rfl, rfl, ⟨fun _ => trivial, fun _ => rfl⟩⟩
  | succ rounds ih =>
      cases hread : dev.readRms i (math.pow10 startl) with
      | none =>
          obtain ⟨k, hk, hf, hv, hn, -⟩ := ih (i + 1) (startl + delta) w
          have hloop : sweepLoop math dev delta (rounds + 1) i startl w =
              sweepLoop math dev delta rounds (i + 1) (startl + delta) w := by
            simp only [sweepLoop, hread]
          rw [hloop]
          refine ⟨k, hk.trans (Nat.le_succ rounds), hf, hv, hn, ?_⟩
          constructor
          · intro h
            omega
          · rintro ⟨hsome, -⟩
            rw [hread] at hsome
            exact absurd hsome Bool.false_ne_true
      | some rms =>
          obtain ⟨k, hk, hf, hv, hn, hall⟩ := ih (i + 1) (startl + delta)
            (w.append (math.pow10 startl) rms)
          have hloop : sweepLoop math dev delta (rounds + 1) i startl w =
              sweepLoop math dev delta rounds (i + 1) (startl + delta)
                (w.append (math.pow10 startl) rms) := by
            simp only [sweepLoop, hread]
          have hsome : (dev.readRms i (math.pow10 startl)).isSome := by
            rw [hread]
            rfl
          simp only [append, List.length_append, List.length_singleton]
            at hf hv
          rw [hloop]
          refine ⟨k + 1, Nat.succ_le_succ hk, ?_, ?_, hn, ?_⟩
          · exact hf.trans (by omega)
          · exact hv.trans (by omega)
          · constructor
            · exact fun h => ⟨hsome, hall.mp (Nat.succ.inj h)⟩
            · exact fun h => congrArg Nat.succ (hall.mpr h.2)

/-- The constructor makes a waveform of the right size exactly when it fills
its lists. -/
theorem init_intact_iff [Add α] [Sub α] [Div α] [IntCast α] (math : Math α)
    (dev : Waveform.Device α) (startFreq endFreq : α) (numSamples : ℤ) :
    Intact (init math dev startFreq endFreq numSamples) ↔
      Fills math dev startFreq endFreq numSamples := by
  unfold init Fills
  by_cases hzero : numSamples = 0
  · rw [if_pos hzero, intact_ok]
    exact iff_of_true empty_sized (.inl hzero)
  · rw [if_neg hzero]
    by_cases hdomain : (math.positive startFreq && math.positive endFreq) = true
    · rw [if_pos hdomain]
      by_cases hone : numSamples = 1
      · rw [if_pos (by omega)]
        exact iff_of_true (intact_raised _) (.inr (.inr (.inl hone)))
      · obtain ⟨k, hk, hf, hv, hn, hall⟩ := sweepLoop_length math dev
          ((math.log10 endFreq - math.log10 startFreq) /
            (numSamples - 1 : ℤ)) numSamples.toNat 0 (math.log10 startFreq)
          { (empty : PyWaveform α) with numSamples := numSamples }
        simp only [empty, List.length_nil, Nat.zero_add] at hf hv hn
        rw [if_neg (by omega), intact_ok, ← hall]
        simp only [hzero, hdomain, hone, Bool.true_eq_false, false_or]
        constructor
        · intro hsized
          have hlen := hsized.frequencies
          simp only [empty, hf, hn] at hlen
          omega
        · rintro ⟨hpos, hfull⟩
          constructor
          · simp only [empty, hf, hn]
            omega
          · simp only [empty, hv, hn]
            omega
    · rw [if_neg hdomain]
      exact iff_of_true (intact_raised _)
        (.inr (.inl (Bool.eq_false_of_not_eq_true hdomain)))

/-- `loadFromFile` keeps the count in step with the lists. -/
theorem Sized.loadFromFile {w : PyWaveform α} (hw : w.Sized)
    (records : List (α × α)) : (w.loadFromFile records).Sized := by
  unfold PyWaveform.loadFromFile
  induction records generalizing w with
  | nil => exact hw
  | cons record records ih =>
      apply ih
      have hf := hw.frequencies
      have hv := hw.voltRms
      constructor
      · simp only [append, List.length_append, List.length_singleton]
        omega
      · simp only [append, List.length_append, List.length_singleton]
        omega

theorem getDeviation_numSamples [Sub α] (self w : PyWaveform α) :
    (self.getDeviation w).numSamples = 0 := by
  unfold getDeviation
  generalize self.frequencies.zip (self.voltRms.zip w.voltRms) = samples
  induction samples using List.reverseRecOn with
  | nil => rfl
  | append_singleton samples sample ih =>
      rw [List.foldl_append]
      exact ih

/-- The deviation of two waveforms has the right size exactly when one of them
has no samples. -/
theorem Sized.getDeviation_iff [Sub α] {self w : PyWaveform α}
    (hself : self.Sized) (hw : w.Sized) :
    (self.getDeviation w).Sized ↔
      self.numSamples = 0 ∨ w.numSamples = 0 := by
  obtain ⟨hfreq, hvolt⟩ := getDeviation_lists self w
  have hnum := getDeviation_numSamples self w
  have hlen : (self.frequencies.zip (self.voltRms.zip w.voltRms)).length =
      min self.frequencies.length
        (min self.voltRms.length w.voltRms.length) := by
    rw [List.length_zip, List.length_zip]
  have hf := hself.frequencies
  have hv := hself.voltRms
  have hv' := hw.voltRms
  constructor
  · intro h
    have hzero := h.frequencies
    rw [hfreq, List.length_map, hlen, hnum] at hzero
    omega
  · intro h
    constructor
    · rw [hfreq, List.length_map, hlen, hnum]
      omega
    · rw [hvolt, List.length_map, hlen, hnum]
      omega

/-! ## Whole histories -/

variable [Add α] [Sub α] [Div α] [IntCast α]

theorem History.CountsHold.intact {h : History α} (hc : h.CountsHold) :
    Intact h.run := by
  cases h with
  | init math dev startFreq endFreq numSamples => exact hc
  | loadFromFile w records => exact hc.2
  | getDeviation self w => exact hc.2.2

theorem loadFromFile_run_intact {w : History α} (hw : w.CountsHold)
    (records : List (α × α)) : Intact (History.loadFromFile w records).run := by
  unfold History.run
  have hintact := hw.intact
  cases hrun : w.run with
  | error e => exact intact_raised e
  | ok v =>
      rw [outcome_bind, intact_ok]
      exact (hintact v hrun).loadFromFile records

theorem getDeviation_run_intact_iff {self w : History α}
    (hself : self.CountsHold) (hw : w.CountsHold) :
    Intact (History.getDeviation self w).run ↔
      ∀ v1 v2, self.run = .ok v1 → w.run = .ok v2 →
        v1.numSamples = 0 ∨ v2.numSamples = 0 := by
  change Intact (self.run >>= fun v1 => w.run >>= fun v2 =>
    .ok (v1.getDeviation v2)) ↔ _
  have hintact := hself.intact
  have hintact' := hw.intact
  cases hrun : self.run with
  | error e => exact iff_of_true (intact_raised e) nofun
  | ok v1 =>
      rw [outcome_bind]
      cases hrun' : w.run with
      | error e => exact iff_of_true (intact_raised e) nofun
      | ok v2 =>
          rw [outcome_bind, intact_ok,
            (hintact v1 hrun).getDeviation_iff (hintact' v2 hrun')]
          constructor
          · rintro h _ _ ⟨⟩ ⟨⟩
            exact h
          · exact fun h => h v1 v2 rfl rfl

/-- The count is the length of both lists, for every waveform of a history,
exactly when every constructor fills its lists and every deviation has an
operand without samples. -/
theorem countsHold_iff_proper (h : History α) : h.CountsHold ↔ h.Proper := by
  induction h with
  | init math dev startFreq endFreq numSamples =>
      exact init_intact_iff math dev startFreq endFreq numSamples
  | loadFromFile w records ih =>
      unfold History.CountsHold History.Proper
      rw [← ih]
      constructor
      · exact fun hw => hw.1
      · exact fun hw => ⟨hw, loadFromFile_run_intact hw records⟩
  | getDeviation self w ih ih' =>
      unfold History.CountsHold History.Proper
      rw [← ih, ← ih']
      constructor
      · rintro ⟨hself, hw, hintact⟩
        exact ⟨hself, hw, (getDeviation_run_intact_iff hself hw).mp hintact⟩
      · rintro ⟨hself, hw, hnone⟩
        exact ⟨hself, hw, (getDeviation_run_intact_iff hself hw).mpr hnone⟩

/-- The deviation of two files of one record each has one sample, and counts
none. -/
theorem one_record_each :
    (History.getDeviation
        (.loadFromFile (.init ⟨⟨id, id⟩, fun _ => true⟩
          ⟨true, fun _ _ => none⟩ 0 0 0) [(20, 3)])
        (.loadFromFile (.init ⟨⟨id, id⟩, fun _ => true⟩
          ⟨true, fun _ _ => none⟩ 0 0 0) [(20, 1)]) : History ℚ).run =
        .ok ⟨[20], [3 - 1], 0⟩ ∧
      ¬ ∀ h : History ℚ, h.CountsHold := by
  have hrun : (History.getDeviation
      (.loadFromFile (.init ⟨⟨id, id⟩, fun _ => true⟩
        ⟨true, fun _ _ => none⟩ 0 0 0) [(20, 3)])
      (.loadFromFile (.init ⟨⟨id, id⟩, fun _ => true⟩
        ⟨true, fun _ _ => none⟩ 0 0 0) [(20, 1)]) : History ℚ).run =
      .ok ⟨[20], [3 - 1], 0⟩ := rfl
  refine ⟨hrun, fun hall => ?_⟩
  have hsized := (hall _).intact _ hrun
  exact absurd hsized.frequencies (by decide)

end PyWaveform
end MiscCode
