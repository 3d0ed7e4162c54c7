import MiscCode.Waveform.Sizes
import Mathlib.Algebra.Group.Basic

/-!
# The deviation in C++ and in Python

The class of `waveform.py` keeps the same two lists.  Its `getDeviation` walks
them with `zip` and keeps the frequency of every sample, where the C++ method
stores the difference of the two frequencies.
-/

namespace MiscCode

/-- The class `Waveform` of `waveform.py`. -/
structure PyWaveform (α : Type) where
  frequencies : List α
  voltRms : List α
  numSamples : ℤ
  deriving DecidableEq, Repr

namespace PyWaveform

variable {α : Type}

/-- `Waveform()`. -/
def empty : PyWaveform α where
  frequencies := []
  voltRms := []
  numSamples := 0

/-- `getDeviation`. -/
def getDeviation [Sub α] (self w : PyWaveform α) : PyWaveform α :=
  (self.frequencies.zip (self.voltRms.zip w.voltRms)).foldl
    (fun result sample =>
      { result with
        frequencies := result.frequencies ++ [sample.1]
        voltRms := result.voltRms ++ [sample.2.1 - sample.2.2] })
    empty

theorem getDeviation_lists [Sub α] (self w : PyWaveform α) :
    (self.getDeviation w).frequencies =
        (self.frequencies.zip (self.voltRms.zip w.voltRms)).map (·.1) ∧
      (self.getDeviation w).voltRms =
        (self.frequencies.zip (self.voltRms.zip w.voltRms)).map
          fun sample => sample.2.1 - sample.2.2 := by
  unfold getDeviation
  generalize self.frequencies.zip (self.voltRms.zip w.voltRms) = samples
  induction samples using List.reverseRecOn with
  | nil => exact ⟨rfl, rfl⟩
  | append_singleton samples sample ih =>
      rw [List.foldl_append, List.map_append, List.map_append]
      exact ⟨congrArg (· ++ [sample.1]) ih.1,
        congrArg (· ++ [sample.2.1 - sample.2.2]) ih.2⟩

/-- On lists of one length the frequencies are kept and the voltages are
subtracted. -/
theorem getDeviation_eq [Sub α] (self w : PyWaveform α)
    (hself : self.voltRms.length = self.frequencies.length)
    (hw : w.voltRms.length = self.frequencies.length) :
    (self.getDeviation w).frequencies = self.frequencies ∧
      (self.getDeviation w).voltRms =
        List.zipWith (· - ·) self.voltRms w.voltRms := by
  obtain ⟨hfreq, hvolt⟩ := getDeviation_lists self w
  have hlen : (self.voltRms.zip w.voltRms).length =
      self.frequencies.length := by
    rw [List.length_zip]
    omega
  constructor
  · rw [hfreq]
    exact List.map_fst_zip hlen.ge
  · have hpairs : (self.frequencies.zip (self.voltRms.zip w.voltRms)).map
        (·.2) = self.voltRms.zip w.voltRms :=
      List.map_snd_zip hlen.le
    rw [hvolt]
    calc
      (self.frequencies.zip (self.voltRms.zip w.voltRms)).map
          (fun sample => sample.2.1 - sample.2.2) =
          ((self.frequencies.zip (self.voltRms.zip w.voltRms)).map
            (·.2)).map fun volts => volts.1 - volts.2 := by
        rw [List.map_map]
        rfl
      _ = List.zipWith (· - ·) self.voltRms w.voltRms := by
        rw [hpairs]
        exact List.map_zip_eq_zipWith

end PyWaveform

namespace Waveform

variable {α : Type}

/-- The same samples in Python. -/
def toPython (w : Waveform α) : PyWaveform α where
  frequencies := w.frequencies
  voltRms := w.voltRms
  numSamples := w.numSamples

/-- Waveforms taken at the same frequencies: the C++ program stores zeros for
them. -/
theorem frequencies_cancel [AddGroup α] (fs : List α) :
    List.zipWith (· - ·) fs fs = fs ↔ ∀ f ∈ fs, f = 0 := by
  rw [List.zipWith_self]
  induction fs with
  | nil => simp
  | cons f fs ih =>
      rw [List.map_cons, List.cons.injEq, ih, List.forall_mem_cons, sub_self]
      constructor
      · exact fun h => ⟨h.1.symm, h.2⟩
      · exact fun h => ⟨h.1.symm, h.2⟩

/-- The voltage columns of the two programs are the same; the frequency columns
are the same exactly when every sample was taken at the frequency zero. -/
theorem deviations_agree_iff [AddGroup α] (w1 w2 w : Waveform α)
    (h1 : w1.Sized) (h2 : w2.Sized) (hsame : w1.numSamples = w2.numSamples)
    (hfreq : w1.frequencies = w2.frequencies) (hw : w.Sized) :
    ∃ w', getDeviation w1 w2 w = .ok (true, w') ∧
      w'.voltRms = (w1.toPython.getDeviation w2.toPython).voltRms ∧
      ((w'.frequencies = (w1.toPython.getDeviation w2.toPython).frequencies ∧
          w'.voltRms = (w1.toPython.getDeviation w2.toPython).voltRms) ↔
        ∀ f ∈ w1.frequencies, f = 0) := by
  have hf1 := h1.frequencies
  have hv1 := h1.voltRms
  have hv2 := h2.voltRms
  obtain ⟨w', hrun, -, hcpp, hvolt⟩ := getDeviation_eq h1 h2 hsame hw
  obtain ⟨hpy, hpyvolt⟩ :=
    PyWaveform.getDeviation_eq w1.toPython w2.toPython
      (by simp only [toPython]; omega) (by simp only [toPython]; omega)
  have hsamevolt :
      w'.voltRms = (w1.toPython.getDeviation w2.toPython).voltRms := by
    rw [hvolt, hpyvolt]
    rfl
  refine ⟨w', hrun, hsamevolt, ?_⟩
  rw [← frequencies_cancel w1.frequencies, hpy, hcpp, ← hfreq]
  constructor
  · exact fun h => h.1
  · exact fun h => ⟨h, hsamevolt⟩

theorem deviations_agree_iff_two :
    ∃ w', getDeviation (⟨[20, 40], [3, 5], 2⟩ : Waveform ℚ)
        ⟨[20, 40], [1, 2], 2⟩ ⟨[], [], 0⟩ = .ok (true, w') ∧
      w'.voltRms = (PyWaveform.getDeviation ⟨[20, 40], [3, 5], 2⟩
        ⟨[20, 40], [1, 2], 2⟩).voltRms ∧
      ((w'.frequencies = (PyWaveform.getDeviation ⟨[20, 40], [3, 5], 2⟩
            ⟨[20, 40], [1, 2], 2⟩).frequencies ∧
          w'.voltRms = (PyWaveform.getDeviation ⟨[20, 40], [3, 5], 2⟩
            ⟨[20, 40], [1, 2], 2⟩).voltRms) ↔
        ∀ f ∈ [(20 : ℚ), 40], f = 0) :=
  deviations_agree_iff (⟨[20, 40], [3, 5], 2⟩ : Waveform ℚ)
    ⟨[20, 40], [1, 2], 2⟩ ⟨[], [], 0⟩ ⟨rfl, rfl⟩ ⟨rfl, rfl⟩ rfl rfl ⟨rfl, rfl⟩

/-- One sample at 20 Hz: the C++ program reports it at 0 Hz. -/
theorem twenty_hertz_reported_apart :
    (⟨[20], [3], 1⟩ : Waveform ℚ).Sized ∧
      (⟨[20], [1], 1⟩ : Waveform ℚ).Sized ∧
      (⟨[0], [0], 1⟩ : Waveform ℚ).Sized ∧
      ∃ w', getDeviation (⟨[20], [3], 1⟩ : Waveform ℚ) ⟨[20], [1], 1⟩
          ⟨[0], [0], 1⟩ = .ok (true, w') ∧
        w'.frequencies = [0] ∧
        (PyWaveform.getDeviation (⟨[20], [3], 1⟩ : PyWaveform ℚ)
          ⟨[20], [1], 1⟩).frequencies = [20] ∧
        ¬ (w'.frequencies = (PyWaveform.getDeviation
          (⟨[20], [3], 1⟩ : PyWaveform ℚ) ⟨[20], [1], 1⟩).frequencies) := by
  have h1 : (⟨[20], [3], 1⟩ : Waveform ℚ).Sized := ⟨rfl, rfl⟩
  have h2 : (⟨[20], [1], 1⟩ : Waveform ℚ).Sized := ⟨rfl, rfl⟩
  have ht : (⟨[0], [0], 1⟩ : Waveform ℚ).Sized := ⟨rfl, rfl⟩
  obtain ⟨w', hrun, -, hcpp, -⟩ := getDeviation_eq h1 h2 rfl ht
  have hzero : w'.frequencies = [0] := by
    rw [hcpp]
    simp
  refine ⟨h1, h2, ht, w', hrun, hzero, rfl, ?_⟩
  rw [hzero]
  intro hcols
  exact absurd (List.head_eq_of_cons_eq hcols) (by decide)

end Waveform
end MiscCode
