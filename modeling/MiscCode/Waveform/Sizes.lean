import MiscCode.Waveform.Model
import Mathlib.Algebra.Order.Group.Int
import Mathlib.Algebra.Order.Ring.Rat
import Mathlib.Algebra.Field.Rat
import Mathlib.Data.List.Basic
import Mathlib.Data.List.Induction

/-!
# When the vectors have as many elements as the waveform counts

Inside a waveform of the right sizes every checked access hits an element, and
every call but one with a negative argument leaves it with the right sizes.
The sizes go wrong where a waveform starts: in a sweep that stops at a failed
reading, and in a waveform that is only told how many samples it will have.
-/

namespace MiscCode
namespace Waveform

variable {α : Type} {w : Waveform α}

/-! ## Accesses inside a vector -/

theorem vecGet_eq {xs : List α} {i : ℕ} (hi : i < xs.length) :
    vecGet xs i = .ok xs[i] := by
  unfold vecGet
  rw [if_pos (Int.natCast_nonneg i)]
  simp [hi]

theorem vecSet_eq {xs : List α} {i : ℕ} (hi : i < xs.length) (x : α) :
    vecSet xs i x = .ok (xs.set i x) := by
  unfold vecSet
  rw [if_pos ⟨Int.natCast_nonneg i, Int.ofNat_lt.mpr hi⟩]
  rfl

theorem vecGet_neg (xs : List α) {i : ℤ} (hi : i < 0) :
    vecGet xs i = .error .outOfBounds := by
  unfold vecGet
  rw [if_neg (by omega)]

theorem vecSet_neg (xs : List α) {i : ℤ} (hi : i < 0) (x : α) :
    vecSet xs i x = .error .outOfBounds := by
  unfold vecSet
  rw [if_neg (by omega)]

theorem vecResize_eq [Zero α] (xs : List α) {n : ℤ} (hn : 0 ≤ n) :
    ∃ ys, vecResize xs n = some ys ∧ (ys.length : ℤ) = n := by
  refine ⟨_, if_neg (by omega), ?_⟩
  rw [List.length_append, List.length_take, List.length_replicate]
  omega

/-! ## Loops and accessors -/

theorem samplesFrom_returns {is : List ℕ}
    (hf : ∀ i ∈ is, i < w.frequencies.length)
    (hv : ∀ i ∈ is, i < w.voltRms.length) :
    ∃ out, w.samplesFrom is = .ok out := by
  induction is with
  | nil => exact ⟨[], rfl⟩
  | cons i is ih =>
      obtain ⟨out, hout⟩ :=
        ih (fun k hk => hf k (List.mem_cons_of_mem i hk))
          (fun k hk => hv k (List.mem_cons_of_mem i hk))
      have hfi : i < w.frequencies.length := hf i List.mem_cons_self
      have hvi : i < w.voltRms.length := hv i List.mem_cons_self
      refine ⟨(w.frequencies[i], w.voltRms[i]) :: out, ?_⟩
      unfold samplesFrom
      rw [vecGet_eq hfi, outcome_bind, vecGet_eq hvi, outcome_bind, hout,
        outcome_bind]

theorem Sized.samples_return (hw : w.Sized) :
    ∃ out, w.samplesFrom (List.range w.numSamples.toNat) = .ok out := by
  have hf := hw.frequencies
  have hv := hw.voltRms
  apply samplesFrom_returns
  · intro i hi
    rw [List.mem_range] at hi
    omega
  · intro i hi
    rw [List.mem_range] at hi
    omega

theorem Sized.getFreqAt_eq (hw : w.Sized) {i : ℕ}
    (hi : i < w.frequencies.length) :
    w.getFreqAt i = .ok (some w.frequencies[i]) := by
  have hf := hw.frequencies
  unfold getFreqAt
  rw [if_neg (by omega), vecGet_eq hi, outcome_bind]

theorem Sized.getVrmsAt_eq (hw : w.Sized) {i : ℕ} (hi : i < w.voltRms.length) :
    w.getVrmsAt i = .ok (some w.voltRms[i]) := by
  have hv := hw.voltRms
  unfold getVrmsAt
  rw [if_neg (by omega), vecGet_eq hi, outcome_bind]

theorem Sized.readsInside (hw : w.Sized) : w.ReadsInside where
  dump := hw.samples_return
  writeToFile := by
    intro opens
    obtain ⟨out, hout⟩ := hw.samples_return
    unfold Waveform.writeToFile
    by_cases hzero : w.numSamples = 0
    · exact ⟨_, if_pos hzero⟩
    · rw [if_neg hzero]
      by_cases hopens : (!opens) = true
      · exact ⟨_, if_pos hopens⟩
      · rw [if_neg hopens, hout, outcome_bind]
        exact ⟨_, rfl⟩
  getFreqAt := by
    intro index hindex
    obtain ⟨i, rfl⟩ := Int.eq_ofNat_of_zero_le hindex
    have hf := hw.frequencies
    by_cases hi : i < w.frequencies.length
    · exact ⟨_, hw.getFreqAt_eq hi⟩
    · exact ⟨none, if_pos (by omega)⟩
  getVrmsAt := by
    intro index hindex
    obtain ⟨i, rfl⟩ := Int.eq_ofNat_of_zero_le hindex
    have hv := hw.voltRms
    by_cases hi : i < w.voltRms.length
    · exact ⟨_, hw.getVrmsAt_eq hi⟩
    · exact ⟨none, if_pos (by omega)⟩

@[simp] theorem intact_ok : Intact (.ok w) ↔ w.Sized := by
  constructor
  · exact fun h => h.1
  · exact fun h => ⟨h, h.readsInside⟩

/-! ## Calls -/

/-- A call after a history that went right goes right, if it does on every
waveform of the right sizes. -/
theorem Intact.bind {x : Outcome α (Waveform α)}
    {f : Waveform α → Outcome α (Waveform α)} (hx : Intact x)
    (hf : ∀ v, x = .ok v → v.Sized → Intact (f v)) : Intact (x >>= f) := by
  cases x with
  | error e => exact hx
  | ok v => exact hf v rfl (intact_ok.mp hx)

/-- A call after a history that went right goes right exactly when its
condition holds, or there is no object to call. -/
theorem Intact.bind_iff {x : Outcome α (Waveform α)}
    {f : Waveform α → Outcome α (Waveform α)} {P : Prop} (hx : Intact x)
    (hf : ∀ v, v.Sized → (Intact (f v) ↔ P)) :
    Intact (x >>= f) ↔ ((∃ v, x = .ok v) → P) := by
  cases x with
  | error e =>
      constructor
      · rintro - ⟨v, hv⟩
        cases hv
      · exact fun _ => hx
  | ok v =>
      have hv := hf v (intact_ok.mp hx)
      constructor
      · exact fun h _ => hv.mp h
      · exact fun h => hv.mpr (h ⟨v, rfl⟩)

theorem Sized.resize [Zero α] (hw : w.Sized) {n : ℤ} (hn : 0 ≤ n) :
    ∃ w', w.resize n = .ok w' ∧ w'.Sized ∧ w'.numSamples = n := by
  unfold Waveform.resize
  by_cases hsame : w.numSamples = n
  · exact ⟨w, if_pos hsame, hw, hsame⟩
  · obtain ⟨fs, hfs, hflen⟩ := vecResize_eq w.frequencies hn
    obtain ⟨vs, hvs, hvlen⟩ := vecResize_eq w.voltRms hn
    rw [if_neg hsame, hfs, hvs]
    exact ⟨_, rfl, ⟨hflen, hvlen⟩, rfl⟩

/-- A negative number leaves an object that counts less than nothing. -/
theorem Sized.resize_intact_iff [Zero α] (hw : w.Sized) (n : ℤ) :
    Intact (w.resize n) ↔ 0 ≤ n := by
  constructor
  · intro h
    by_contra hneg
    have hf := hw.frequencies
    have hthrow : w.resize n =
        .error (.lengthError (some { w with numSamples := n })) := by
      unfold Waveform.resize vecResize
      rw [if_neg (by omega), if_pos (by omega), if_pos (by omega)]
    rw [hthrow] at h
    have hleft := (h _ rfl).frequencies
    simp only at hleft
    omega
  · intro hn
    obtain ⟨w', hrun, hw', -⟩ := hw.resize hn
    rw [hrun, intact_ok]
    exact hw'

theorem Sized.setFreqAt_eq (hw : w.Sized) {i : ℕ}
    (hi : i < w.frequencies.length) (freq : α) :
    w.setFreqAt freq i =
      .ok { w with frequencies := w.frequencies.set i freq } := by
  have hf := hw.frequencies
  unfold setFreqAt
  rw [if_pos (by omega), vecSet_eq hi, outcome_bind]

theorem Sized.setVrmsAt_eq (hw : w.Sized) {i : ℕ} (hi : i < w.voltRms.length)
    (vrms : α) :
    w.setVrmsAt vrms i = .ok { w with voltRms := w.voltRms.set i vrms } := by
  have hv := hw.voltRms
  unfold setVrmsAt
  rw [if_pos (by omega), vecSet_eq hi, outcome_bind]

/-- A negative index passes the check of an accessor that stores a value, and
misses. -/
theorem Sized.store_intact_iff (hw : w.Sized) {xs : List α}
    (hxs : (xs.length : ℤ) = w.numSamples) {put : List α → Waveform α}
    (hput : ∀ ys, ys.length = xs.length → (put ys).Sized) (x : α)
    (index : ℤ) :
    Intact (if index < w.numSamples then do
        let ys ← vecSet xs index x
        .ok (put ys)
      else .ok w) ↔ 0 ≤ index := by
  constructor
  · intro h
    by_contra hneg
    rw [if_pos (by omega), vecSet_neg _ (by omega)] at h
    exact h
  · intro hindex
    obtain ⟨i, rfl⟩ := Int.eq_ofNat_of_zero_le hindex
    by_cases hi : i < xs.length
    · rw [if_pos (by omega), vecSet_eq hi, outcome_bind, intact_ok]
      exact hput _ List.length_set
    · rw [if_neg (by omega), intact_ok]
      exact hw

theorem Sized.setFreqAt_intact_iff (hw : w.Sized) (freq : α) (index : ℤ) :
    Intact (w.setFreqAt freq index) ↔ 0 ≤ index := by
  apply hw.store_intact_iff hw.frequencies
  intro ys hys
  exact ⟨hys ▸ hw.frequencies, hw.voltRms⟩

theorem Sized.setVrmsAt_intact_iff (hw : w.Sized) (vrms : α) (index : ℤ) :
    Intact (w.setVrmsAt vrms index) ↔ 0 ≤ index := by
  apply hw.store_intact_iff hw.voltRms
  intro ys hys
  exact ⟨hw.frequencies, hys ▸ hw.voltRms⟩

/-- A negative index passes the check of an accessor that answers a value as
well. -/
theorem Sized.answer_intact_iff (hw : w.Sized) {xs : List α}
    (hxs : (xs.length : ℤ) = w.numSamples) (index : ℤ) :
    Intact ((if index ≥ w.numSamples then .ok none
        else do
          let x ← vecGet xs index
          .ok (some x)) >>= fun _ => .ok w) ↔ 0 ≤ index := by
  constructor
  · intro h
    by_contra hneg
    rw [if_neg (by omega), vecGet_neg _ (by omega)] at h
    exact h
  · intro hindex
    obtain ⟨i, rfl⟩ := Int.eq_ofNat_of_zero_le hindex
    by_cases hi : i < xs.length
    · rw [if_neg (by omega), vecGet_eq hi, outcome_bind, outcome_bind, intact_ok]
      exact hw
    · rw [if_pos (by omega), outcome_bind, intact_ok]
      exact hw

theorem Sized.getFreqAt_intact_iff (hw : w.Sized) (index : ℤ) :
    Intact (w.getFreqAt index >>= fun _ => .ok w) ↔ 0 ≤ index :=
  hw.answer_intact_iff hw.frequencies index

theorem Sized.getVrmsAt_intact_iff (hw : w.Sized) (index : ℤ) :
    Intact (w.getVrmsAt index >>= fun _ => .ok w) ↔ 0 ≤ index :=
  hw.answer_intact_iff hw.voltRms index

/-! ## get_deviation -/

/-- The target after `k` rounds on operands of `n` samples: its first `k`
samples are the differences. -/
structure Filled [Sub α] (w1 w2 : Waveform α) (n k : ℕ) (w : Waveform α) :
    Prop where
  numSamples : w.numSamples = n
  freq_length : w.frequencies.length = n
  volt_length : w.voltRms.length = n
  freq_eq : ∀ i < k, w.frequencies[i]? =
    (List.zipWith (· - ·) w1.frequencies w2.frequencies)[i]?
  volt_eq : ∀ i < k, w.voltRms[i]? =
    (List.zipWith (· - ·) w1.voltRms w2.voltRms)[i]?

theorem Filled.sized [Sub α] {w1 w2 : Waveform α} {n k : ℕ}
    (h : Filled w1 w2 n k w) : w.Sized where
  frequencies := by rw [h.freq_length, h.numSamples]
  voltRms := by rw [h.volt_length, h.numSamples]

theorem getElem?_set_of_prefix {xs ys : List α} {k : ℕ} {y : α}
    (hk : k < xs.length) (hy : ys[k]? = some y)
    (hbefore : ∀ i < k, xs[i]? = ys[i]?) :
    ∀ i < k + 1, (xs.set k y)[i]? = ys[i]? := by
  intro i hi
  rw [List.getElem?_set]
  by_cases hik : k = i
  · subst hik
    rw [if_pos rfl, if_pos hk, hy]
  · rw [if_neg hik]
    exact hbefore i (by omega)

/-- One round fills in one more sample. -/
theorem deviationRound_fills [Sub α] {w1 w2 : Waveform α} {n k : ℕ}
    (h1 : w1.Sized) (h2 : w2.Sized) (hn1 : w1.numSamples = n)
    (hn2 : w2.numSamples = n) (h : Filled w1 w2 n k w) (hk : k < n) :
    ∃ w', deviationRound w1 w2 w k = .ok w' ∧ Filled w1 w2 n (k + 1) w' := by
  have hf1 : k < w1.frequencies.length := by have := h1.frequencies; omega
  have hf2 : k < w2.frequencies.length := by have := h2.frequencies; omega
  have hv1 : k < w1.voltRms.length := by have := h1.voltRms; omega
  have hv2 : k < w2.voltRms.length := by have := h2.voltRms; omega
  have hfw : k < w.frequencies.length := by rw [h.freq_length]; exact hk
  have hvw : k < w.voltRms.length := by rw [h.volt_length]; exact hk
  let wf : Waveform α :=
    { w with
      frequencies :=
        w.frequencies.set k (w1.frequencies[k] - w2.frequencies[k]) }
  have hwf : wf.Sized := {
    frequencies := by
      simp only [wf, List.length_set]
      exact h.sized.frequencies
    voltRms := h.sized.voltRms }
  refine ⟨{ wf with
    voltRms := w.voltRms.set k (w1.voltRms[k] - w2.voltRms[k]) }, ?_, ?_⟩
  · unfold deviationRound
    rw [h1.getFreqAt_eq hf1, outcome_bind]
    unfold assigned
    rw [outcome_bind, h2.getFreqAt_eq hf2, outcome_bind, outcome_bind,
      h.sized.setFreqAt_eq hfw, outcome_bind, h1.getVrmsAt_eq hv1,
      outcome_bind, outcome_bind, h2.getVrmsAt_eq hv2, outcome_bind,
      outcome_bind]
    exact hwf.setVrmsAt_eq hvw _
  · refine ⟨h.numSamples, ?_, ?_, ?_, ?_⟩
    · simp only [wf, List.length_set]
      exact h.freq_length
    · simp only [List.length_set]
      exact h.volt_length
    · refine getElem?_set_of_prefix hfw ?_ h.freq_eq
      simp [hf1, hf2]
    · refine getElem?_set_of_prefix hvw ?_ h.volt_eq
      simp [hv1, hv2]

theorem deviationLoop_fills [Sub α] {w1 w2 : Waveform α} {n : ℕ}
    (h1 : w1.Sized) (h2 : w2.Sized) (hn1 : w1.numSamples = n)
    (hn2 : w2.numSamples = n) {rounds k : ℕ} (hrounds : k + rounds = n)
    (h : Filled w1 w2 n k w) :
    ∃ w', deviationLoop w1 w2 (List.range' k rounds) w = .ok w' ∧
      Filled w1 w2 n n w' := by
  induction rounds generalizing k w with
  | zero =>
      obtain rfl : k = n := hrounds
      exact ⟨w, rfl, h⟩
  | succ rounds ih =>
      obtain ⟨w', hround, hfilled⟩ :=
        deviationRound_fills h1 h2 hn1 hn2 h (by omega)
      obtain ⟨w'', hloop, hall⟩ := ih (by omega) hfilled
      refine ⟨w'', ?_, hall⟩
      rw [List.range'_succ]
      unfold deviationLoop
      rw [hround, outcome_bind]
      exact hloop

/-- Operands with the same number of samples give the sample-wise differences,
in any target of the right sizes. -/
theorem getDeviation_eq [Zero α] [Sub α] {w1 w2 : Waveform α} (h1 : w1.Sized)
    (h2 : w2.Sized) (hsame : w1.numSamples = w2.numSamples) (hw : w.Sized) :
    ∃ w', getDeviation w1 w2 w = .ok (true, w') ∧ w'.Sized ∧
      w'.frequencies =
        List.zipWith (· - ·) w1.frequencies w2.frequencies ∧
      w'.voltRms = List.zipWith (· - ·) w1.voltRms w2.voltRms := by
  have hf1 := h1.frequencies
  have hv1 := h1.voltRms
  have hf2 := h2.frequencies
  have hv2 := h2.voltRms
  obtain ⟨n, hn⟩ : ∃ n : ℕ, w1.numSamples = n := ⟨_, hf1.symm⟩
  obtain ⟨wr, hresize, hsized, hnum⟩ := hw.resize (n := w1.numSamples) (by omega)
  have hrf := hsized.frequencies
  have hrv := hsized.voltRms
  have hstart : Filled w1 w2 n 0 wr :=
    ⟨hnum.trans hn, by omega, by omega, fun i hi => absurd hi (by omega),
      fun i hi => absurd hi (by omega)⟩
  obtain ⟨w', hloop, hfilled⟩ :=
    deviationLoop_fills h1 h2 hn (hsame.symm.trans hn) (Nat.zero_add n) hstart
  refine ⟨w', ?_, hfilled.sized, ?_, ?_⟩
  · unfold getDeviation
    rw [if_neg (not_not_intro hsame), hresize, outcome_bind, hn,
      Int.toNat_natCast, List.range_eq_range', hloop, outcome_bind]
  · apply List.ext_getElem?'
    intro i hi
    rw [hfilled.freq_length, List.length_zipWith] at hi
    exact hfilled.freq_eq i (by omega)
  · apply List.ext_getElem?'
    intro i hi
    rw [hfilled.volt_length, List.length_zipWith] at hi
    exact hfilled.volt_eq i (by omega)

theorem getDeviation_sized [Zero α] [Sub α] {w1 w2 : Waveform α}
    (h1 : w1.Sized) (h2 : w2.Sized) (hw : w.Sized) :
    ∃ b w', getDeviation w1 w2 w = .ok (b, w') ∧ w'.Sized := by
  by_cases hsame : w1.numSamples = w2.numSamples
  · obtain ⟨w', hrun, hw', -⟩ := getDeviation_eq h1 h2 hsame hw
    exact ⟨true, w', hrun, hw'⟩
  · exact ⟨false, w, if_pos hsame, hw⟩

/-- A target that was told its number of samples and has none is not resized,
and the first round writes outside it. -/
theorem getDeviation_unfilled [Zero α] [Sub α] {w1 w2 : Waveform α}
    (h1 : w1.Sized) (h2 : w2.Sized) (hsame : w1.numSamples = w2.numSamples)
    (hpos : 0 < w1.numSamples) :
    getDeviation w1 w2 { (empty : Waveform α) with
      numSamples := w1.numSamples } = .error .outOfBounds := by
  have hf1 := h1.frequencies
  have hf2 := h2.frequencies
  obtain ⟨n, hn⟩ : ∃ n, w1.numSamples.toNat = n + 1 :=
    ⟨w1.numSamples.toNat - 1, by omega⟩
  have h10 : 0 < w1.frequencies.length := by omega
  have h20 : 0 < w2.frequencies.length := by omega
  unfold getDeviation Waveform.resize
  rw [if_neg (not_not_intro hsame), if_pos rfl, outcome_bind, hn,
    List.range_succ_eq_map]
  unfold deviationLoop deviationRound
  rw [h1.getFreqAt_eq h10, outcome_bind]
  unfold assigned
  rw [outcome_bind, h2.getFreqAt_eq h20, outcome_bind, outcome_bind]
  unfold setFreqAt vecSet
  rw [if_pos (by exact hpos), if_neg (by simp [empty])]
  rfl

/-! ## Constructors -/

theorem pushBack_freq_length (w : Waveform α) (frequency voltRms : α) :
    (w.pushBack frequency voltRms).frequencies.length =
      w.frequencies.length + 1 :=
  List.length_append

theorem pushBack_volt_length (w : Waveform α) (frequency voltRms : α) :
    (w.pushBack frequency voltRms).voltRms.length = w.voltRms.length + 1 :=
  List.length_append

theorem empty_sized : (empty : Waveform α).Sized := ⟨rfl, rfl⟩

theorem sweepLoop_of_failed [Add α] {libm : Libm α} {dev : Device α}
    {startl : α} {i : ℕ} (hread : dev.readRms i (libm.pow10 startl) = none)
    (delta : α) (rounds : ℕ) (w : Waveform α) :
    sweepLoop libm dev delta (rounds + 1) i startl w = w := by
  simp only [sweepLoop, hread]

theorem sweepLoop_of_read [Add α] {libm : Libm α} {dev : Device α}
    {startl volt : α} {i : ℕ}
    (hread : dev.readRms i (libm.pow10 startl) = some volt)
    (delta : α) (rounds : ℕ) (w : Waveform α) :
    sweepLoop libm dev delta (rounds + 1) i startl w =
      sweepLoop libm dev delta rounds (i + 1) (startl + delta)
        (w.pushBack (libm.pow10 startl) volt) := by
  simp only [sweepLoop, hread]

/-- A sweep stops at the first failed reading. -/
theorem sweepLoop_length [Add α] (libm : Libm α) (dev : Device α) (delta : α)
    (rounds i : ℕ) (startl : α) (w : Waveform α) :
    ∃ k ≤ rounds,
      (sweepLoop libm dev delta rounds i startl w).frequencies.length =
        w.frequencies.length + k ∧
      (sweepLoop libm dev delta rounds i startl w).voltRms.length =
        w.voltRms.length + k ∧
      (sweepLoop libm dev delta rounds i startl w).numSamples =
        w.numSamples ∧
      (k = rounds ↔ AllReadings libm dev delta rounds i startl) := by
  induction rounds generalizing i startl w with
  | zero => exact ⟨0, le_refl 0, rfl, rfl, rfl, ⟨fun _ => trivial, fun _ => rfl⟩⟩
  | succ rounds ih =>
      cases hread : dev.readRms i (libm.pow10 startl) with
      | none =>
          rw [sweepLoop_of_failed hread]
          refine ⟨0, Nat.zero_le _, rfl, rfl, rfl, ?_⟩
          constructor
          · intro h
            exact absurd h (Nat.succ_ne_zero rounds).symm
          · rintro ⟨hsome, -⟩
            rw [hread] at hsome
            exact absurd hsome Bool.false_ne_true
      | some volt =>
          obtain ⟨k, hk, hf, hv, hn, hall⟩ := ih (i + 1) (startl + delta)
            (w.pushBack (libm.pow10 startl) volt)
          rw [pushBack_freq_length] at hf
          rw [pushBack_volt_length] at hv
          rw [sweepLoop_of_read hread]
          refine ⟨k + 1, Nat.succ_le_succ hk, by omega, by omega, hn, ?_⟩
          have hsome : (dev.readRms i (libm.pow10 startl)).isSome := by
            rw [hread]
            rfl
          constructor
          · intro h
            exact ⟨hsome, hall.mp (Nat.succ.inj h)⟩
          · rintro ⟨-, hrest⟩
            rw [hall.mpr hrest]

theorem sweep_sized_iff [Add α] [Sub α] [Div α] [IntCast α] (libm : Libm α)
    (dev : Device α) (startFreq endFreq : α) (numSamples : ℤ) :
    (sweep libm dev startFreq endFreq numSamples).Sized ↔
      (Construction.sweep libm dev startFreq endFreq numSamples).Fills := by
  unfold sweep Construction.Fills
  by_cases hopen : dev.isOpen = true
  · obtain ⟨k, hk, hf, hv, hn, hall⟩ := sweepLoop_length libm dev
      ((libm.log10 endFreq - libm.log10 startFreq) / (numSamples - 1 : ℤ))
      numSamples.toNat 0 (libm.log10 startFreq)
      { (empty : Waveform α) with numSamples := numSamples }
    simp only [empty, List.length_nil, Nat.zero_add] at hf hv hn
    simp only [if_pos hopen, empty]
    constructor
    · intro hsized _
      have hlen := hsized.frequencies
      rw [hf, hn] at hlen
      exact ⟨by omega, hall.mp (by omega)⟩
    · intro hfills
      obtain ⟨hnonneg, hreads⟩ := hfills hopen
      have hkn := hall.mpr hreads
      constructor
      · rw [hf, hn]
        omega
      · rw [hv, hn]
        omega
  · rw [if_neg hopen]
    constructor
    · exact fun _ h => absurd h hopen
    · exact fun _ => empty_sized

theorem ofFile_append (records : List (α × α)) (record : α × α) :
    ofFile (records ++ [record]) =
      { (ofFile records).pushBack record.1 record.2 with
        numSamples := ((ofFile records).numSamples + 1).bmod (2 ^ 32) } := by
  unfold ofFile
  rw [List.foldl_append]
  rfl

theorem ofFile_length (records : List (α × α)) :
    (ofFile records).frequencies.length = records.length ∧
      (ofFile records).voltRms.length = records.length ∧
      (ofFile records).numSamples = (records.length : ℤ).bmod (2 ^ 32) := by
  induction records using List.reverseRecOn with
  | nil => exact ⟨rfl, rfl, Int.zero_bmod.symm⟩
  | append_singleton records record ih =>
      obtain ⟨hf, hv, hn⟩ := ih
      rw [ofFile_append]
      simp only [pushBack_freq_length, pushBack_volt_length, hf, hv, hn,
        Int.bmod_add_bmod, List.length_append, List.length_singleton,
        Nat.cast_add, Nat.cast_one, and_self]

theorem ofFile_sized_iff (records : List (α × α)) :
    (ofFile records).Sized ↔ records.length < 2 ^ 31 := by
  obtain ⟨hf, hv, hn⟩ := ofFile_length records
  constructor
  · intro h
    have hlen := h.frequencies
    rw [hf, hn] at hlen
    have hlt := Int.bmod_lt (x := records.length) (m := 2 ^ 32) (by decide)
    omega
  · intro hlt
    have hmod : (records.length : ℤ).bmod (2 ^ 32) = records.length :=
      Int.bmod_eq_of_le (by omega) (by omega)
    exact ⟨by rw [hf, hn, hmod], by rw [hv, hn, hmod]⟩

/-- A number of samples given in advance is right only if it is zero; a
negative one leaves no object. -/
theorem ofNumSamples_intact_iff (numSamples : ℤ) :
    Intact (ofNumSamples numSamples : Outcome α (Waveform α)) ↔
      numSamples ≤ 0 := by
  unfold ofNumSamples
  by_cases hneg : numSamples < 0
  · rw [if_pos hneg]
    refine iff_of_true ?_ hneg.le
    rintro w ⟨⟩
  · rw [if_neg hneg, intact_ok]
    constructor
    · intro h
      have hlen := h.frequencies
      simp only [empty, List.length_nil, Nat.cast_zero] at hlen
      omega
    · intro hle
      have hzero : numSamples = 0 := by omega
      subst hzero
      exact ⟨rfl, rfl⟩

/-- A constructor makes a waveform of the right sizes exactly when it fills
its vectors. -/
theorem construct_intact_iff [Add α] [Sub α] [Div α] [IntCast α]
    (c : Construction α) :
    Intact (construct c) ↔ c.Fills := by
  cases c with
  | default =>
      unfold construct Construction.Fills
      rw [intact_ok]
      exact iff_of_true empty_sized trivial
  | sweep libm dev startFreq endFreq numSamples =>
      unfold construct
      rw [intact_ok]
      exact sweep_sized_iff libm dev startFreq endFreq numSamples
  | file records =>
      unfold construct
      rw [intact_ok]
      exact ofFile_sized_iff records
  | sized numSamples =>
      unfold construct
      exact ofNumSamples_intact_iff numSamples

/-! ## Whole histories -/

variable [Zero α] [Add α] [Sub α] [Div α] [IntCast α]

theorem History.KeepsSizes.intact {h : History α} (hk : h.KeepsSizes) :
    Intact h.run := by
  cases h with
  | construct c => exact hk
  | resize w n => exact hk.2
  | setFreqAt w freq index => exact hk.2
  | setVrmsAt w vrms index => exact hk.2
  | getFreqAt w index => exact hk.2
  | getVrmsAt w index => exact hk.2
  | getDeviation w1 w2 target => exact hk.2.2.2

theorem getDeviation_run_intact {w1 w2 target : History α}
    (h1 : w1.KeepsSizes) (h2 : w2.KeepsSizes) (ht : target.KeepsSizes) :
    Intact (History.getDeviation w1 w2 target).run := by
  unfold History.run
  refine h1.intact.bind fun v1 _ hv1 => h2.intact.bind fun v2 _ hv2 =>
    ht.intact.bind fun v _ hv => ?_
  obtain ⟨b, w', hrun, hw'⟩ := getDeviation_sized hv1 hv2 hv
  rw [hrun, outcome_bind, intact_ok]
  exact hw'

/-- The vectors have as many elements as the waveform counts, after the
constructor and after every call, exactly when every constructor involved
fills its vectors and no call is given a negative number or index. -/
theorem keepsSizes_iff_proper (h : History α) : h.KeepsSizes ↔ h.Proper := by
  induction h with
  | construct c => exact construct_intact_iff c
  | resize w n ih =>
      unfold History.KeepsSizes History.Proper
      rw [← ih]
      refine and_congr_right fun hw => ?_
      exact hw.intact.bind_iff fun v hv => hv.resize_intact_iff n
  | setFreqAt w freq index ih =>
      unfold History.KeepsSizes History.Proper
      rw [← ih]
      refine and_congr_right fun hw => ?_
      exact hw.intact.bind_iff fun v hv => hv.setFreqAt_intact_iff freq index
  | setVrmsAt w vrms index ih =>
      unfold History.KeepsSizes History.Proper
      rw [← ih]
      refine and_congr_right fun hw => ?_
      exact hw.intact.bind_iff fun v hv => hv.setVrmsAt_intact_iff vrms index
  | getFreqAt w index ih =>
      unfold History.KeepsSizes History.Proper
      rw [← ih]
      refine and_congr_right fun hw => ?_
      exact hw.intact.bind_iff fun v hv => hv.getFreqAt_intact_iff index
  | getVrmsAt w index ih =>
      unfold History.KeepsSizes History.Proper
      rw [← ih]
      refine and_congr_right fun hw => ?_
      exact hw.intact.bind_iff fun v hv => hv.getVrmsAt_intact_iff index
  | getDeviation w1 w2 target ih1 ih2 iht =>
      unfold History.KeepsSizes History.Proper
      rw [← ih1, ← ih2, ← iht]
      constructor
      · exact fun ⟨h1, h2, ht, _⟩ => ⟨h1, h2, ht⟩
      · exact fun ⟨h1, h2, ht⟩ =>
          ⟨h1, h2, ht, getDeviation_run_intact h1 h2 ht⟩

/-- The target of `main`, told to expect 50 samples, has none; `get_deviation`
of two files with 50 samples finds nothing to resize and writes outside. -/
theorem fifty_samples_in_advance :
    (¬ ∀ h : History ℚ, h.KeepsSizes) ∧
      (History.getDeviation
        (.construct (.file (List.replicate 50 (20, 1))))
        (.construct (.file (List.replicate 50 (20, 1))))
        (.construct (.sized 50)) : History ℚ).run = .error .outOfBounds := by
  constructor
  · intro h
    have hsized : Intact (ofNumSamples 50 : Outcome ℚ (Waveform ℚ)) :=
      h (.construct (.sized 50))
    exact absurd ((ofNumSamples_intact_iff 50).mp hsized) (by decide)
  · let wave : Waveform ℚ := ofFile (List.replicate 50 (20, 1))
    have hsized : wave.Sized := by
      rw [ofFile_sized_iff, List.length_replicate]
      decide
    have hnum : wave.numSamples = 50 := by
      rw [← hsized.frequencies, (ofFile_length _).1, List.length_replicate]
      rfl
    have hmiss := getDeviation_unfilled hsized hsized rfl (by omega)
    rw [hnum] at hmiss
    have hfile : (History.construct
        (.file (List.replicate 50 (20, 1))) : History ℚ).run = .ok wave := rfl
    have htarget : (History.construct (.sized 50) : History ℚ).run =
        .ok { (empty : Waveform ℚ) with numSamples := 50 } := by
      unfold History.run Waveform.construct ofNumSamples
      exact if_neg (by decide)
    unfold History.run
    rw [hfile, outcome_bind, outcome_bind, htarget, outcome_bind, hmiss,
      error_bind]

end Waveform
end MiscCode
