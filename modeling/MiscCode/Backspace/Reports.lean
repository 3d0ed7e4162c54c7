import MiscCode.Backspace.Model
import Mathlib.Data.List.Infix
import Mathlib.Algebra.Order.Ring.Int

/-!
# What the service reports

The counter is the number of counted events modulo `2 ^ 32`.  It stops being
that number at `2 ^ 31` events, when it turns negative, and the message that it
has overflowed comes with event `2 ^ 32`, when it is zero again.
-/

namespace MiscCode
namespace Backspace

variable {s : Detector} {k : ℕ}

/-! ## The number to report -/

/-- `read` fails for another reason than an interrupt, or reads too little. -/
def ReadResult.Ends (r : ReadResult) : Prop :=
  (r.n = -1 ∧ r.errno ≠ eintr) ∨ (r.n ≠ -1 ∧ r.n ≠ sizeEvent)

instance (r : ReadResult) : Decidable r.Ends :=
  inferInstanceAs (Decidable (_ ∨ _))

/-- A whole event is read, and it is the backspace key going down or
repeating. -/
def ReadResult.IsBackspace (r : ReadResult) : Prop :=
  r.n = sizeEvent ∧ r.ev.type = evKey ∧ r.ev.code = keyBackspace ∧
    (r.ev.value = 1 ∨ r.ev.value = 2)

instance (r : ReadResult) : Decidable r.IsBackspace :=
  inferInstanceAs (Decidable (_ ∧ _))

/-- The results of `read` among the actions. -/
def results (actions : List Action) : List ReadResult :=
  actions.filterMap fun
    | .read r => some r
    | .message _ _ => none

/-- The number of backspace events before the first result that ends the
loop. -/
def presses (rs : List ReadResult) : ℕ :=
  (rs.takeWhile fun r => ¬ r.Ends).countP fun r => r.IsBackspace

/-- The request for the count. -/
def getBackspaceCount : Action :=
  .message bkdInterface "GetBackspaceCount"

/-- The number reported after these actions is that of the events received, or
the overflow message has been printed. -/
def ReportRight (actions : List Action) : Prop :=
  ∃ n, replyAfter actions bkdInterface "GetBackspaceCount" =
      some (.int32 n) ∧
    (n.toInt = presses (results actions) ∨
      overflowMessage ∈ (after actions).stderr)

/-- Every report of a run is right. -/
def ReportsRight (run : List Action) : Prop :=
  ∀ pre, pre ++ [getBackspaceCount] <+: run → ReportRight pre

/-! ## The counter -/

theorem ofNat_eq_zero_iff : Int32.ofNat k = 0 ↔ 2 ^ 32 ∣ k := by
  rw [← Int32.toInt_inj, Int32.toInt_ofNat', Int32.toInt_zero]
  constructor
  · intro h
    have hdvd := Int.dvd_of_bmod_eq_zero h
    exact_mod_cast hdvd
  · intro h
    apply Int.bmod_eq_zero_of_dvd
    exact_mod_cast h

/-- After `k` events the counter is `k` wrapped, and the message is there from
event `2 ^ 32` on. -/
structure Detector.Holds (s : Detector) (k : ℕ) : Prop where
  counter : s.counter = Int32.ofNat k
  message : overflowMessage ∈ s.stderr ↔ 2 ^ 32 ≤ k

theorem holds_start : Detector.start.Holds 0 := ⟨rfl, by decide⟩

theorem Detector.Holds.increment (hs : s.Holds k) :
    s.increment.Holds (k + 1) := by
  have hcounter : s.counter + 1 = Int32.ofNat (k + 1) := by
    rw [hs.counter, Int32.ofNat_add]
    rfl
  refine ⟨hcounter, ?_⟩
  unfold Detector.increment
  rw [hcounter]
  by_cases hzero : Int32.ofNat (k + 1) = 0
  · have hle : 2 ^ 32 ≤ k + 1 :=
      Nat.le_of_dvd (by omega) (ofNat_eq_zero_iff.mp hzero)
    simp only [if_pos hzero, List.mem_append, List.mem_singleton, or_true,
      hle]
  · -- the message is there already, since the counter passed zero
    have hne : k + 1 ≠ 2 ^ 32 := by
      rintro heq
      exact hzero (ofNat_eq_zero_iff.mpr (Dvd.intro 1 heq.symm))
    simp only [if_neg hzero, hs.message]
    omega

theorem counts_iff (ev : InputEvent) :
    ev.Counts ↔ ev.type = evKey ∧ ev.code = keyBackspace ∧
      (ev.value = 1 ∨ ev.value = 2) := by
  have hvalue : (ev.value ≥ 1 ∧ ev.value ≤ 2) ↔
      (ev.value = 1 ∨ ev.value = 2) := by
    rw [ge_iff_le, Int32.le_iff_toInt_le, Int32.le_iff_toInt_le,
      ← Int32.toInt_inj, ← Int32.toInt_inj]
    have hone : (1 : Int32).toInt = 1 := rfl
    have htwo : (2 : Int32).toInt = 2 := rfl
    omega
  unfold InputEvent.Counts
  rw [← hvalue]
  tauto

/-! ## One result of `read` -/

theorem receive_stopped (hs : s.running = false) (r : ReadResult) :
    s.receive r = s := by
  unfold Detector.receive
  rw [hs]
  exact if_neg Bool.false_ne_true

theorem receive_of_ends (hs : s.running = true) {r : ReadResult}
    (hr : r.Ends) : s.receive r = { s with running := false } := by
  unfold Detector.receive
  rw [if_pos hs]
  rcases hr with ⟨hfailed, herrno⟩ | ⟨hread, hshort⟩
  · rw [if_pos hfailed, if_neg herrno]
  · rw [if_neg hread, if_pos hshort]

theorem receive_of_isBackspace (hs : s.running = true) {r : ReadResult}
    (hr : r.IsBackspace) : s.receive r = s.increment := by
  obtain ⟨hsize, hevent⟩ := hr
  have hread : r.n ≠ -1 := by
    rw [hsize]
    decide
  unfold Detector.receive
  rw [if_pos hs, if_neg hread, if_neg (not_not_intro hsize),
    if_pos ((counts_iff r.ev).mpr hevent)]

theorem receive_of_not (hs : s.running = true) {r : ReadResult}
    (hends : ¬ r.Ends) (hback : ¬ r.IsBackspace) : s.receive r = s := by
  obtain ⟨hfailed, hread⟩ := not_or.mp hends
  unfold Detector.receive
  rw [if_pos hs]
  by_cases hn : r.n = -1
  · have herrno : r.errno = eintr := by
      by_contra hne
      exact hfailed ⟨hn, hne⟩
    rw [if_pos hn, if_pos herrno]
  · have hsize : r.n = sizeEvent := by
      by_contra hne
      exact hread ⟨hn, hne⟩
    have hcounts : ¬ r.ev.Counts :=
      fun h => hback ⟨hsize, (counts_iff r.ev).mp h⟩
    rw [if_neg hn, if_neg (not_not_intro hsize), if_neg hcounts]

/-! ## Runs -/

theorem presses_cons_of_ends {r : ReadResult} (hr : r.Ends)
    (rs : List ReadResult) : presses (r :: rs) = 0 := by
  unfold presses
  rw [List.takeWhile_cons_of_neg (by simpa using hr)]
  rfl

theorem presses_cons_of_not_ends {r : ReadResult} (hr : ¬ r.Ends)
    (rs : List ReadResult) :
    presses (r :: rs) = presses rs + if r.IsBackspace then 1 else 0 := by
  unfold presses
  rw [List.takeWhile_cons_of_pos (by simpa using hr), List.countP_cons]
  simp only [decide_eq_true_eq]

theorem foldl_receive_stopped (hs : s.running = false)
    (rs : List ReadResult) : rs.foldl Detector.receive s = s := by
  induction rs with
  | nil => rfl
  | cons r rs ih => rw [List.foldl_cons, receive_stopped hs, ih]

/-- The loop counts the events up to the result that ends it. -/
theorem Detector.Holds.foldl (hs : s.Holds k) (hrun : s.running = true)
    (rs : List ReadResult) :
    (rs.foldl Detector.receive s).Holds (k + presses rs) := by
  induction rs generalizing s k with
  | nil => exact hs
  | cons r rs ih =>
      rw [List.foldl_cons]
      by_cases hends : r.Ends
      · rw [presses_cons_of_ends hends, receive_of_ends hrun hends,
          foldl_receive_stopped rfl]
        exact ⟨hs.counter, hs.message⟩
      · rw [presses_cons_of_not_ends hends]
        by_cases hback : r.IsBackspace
        · rw [if_pos hback, receive_of_isBackspace hrun hback,
            Nat.add_comm (presses rs), ← Nat.add_assoc]
          exact ih hs.increment hrun
        · rw [if_neg hback, receive_of_not hrun hends hback]
          exact ih hs hrun

theorem after_eq (actions : List Action) :
    after actions = (results actions).foldl Detector.receive .start := by
  unfold after
  generalize Detector.start = s
  induction actions generalizing s with
  | nil => rfl
  | cons a actions ih =>
      cases a with
      | read r => exact ih (s.receive r)
      | message interface member => exact ih s

theorem after_holds (actions : List Action) :
    (after actions).Holds (presses (results actions)) := by
  rw [after_eq, ← Nat.zero_add (presses _)]
  exact holds_start.foldl rfl _

/-! ## Reports -/

theorem replyAfter_count (actions : List Action) :
    replyAfter actions bkdInterface "GetBackspaceCount" =
      some (.int32 (Int32.ofNat (presses (results actions)))) := by
  rw [← (after_holds actions).counter]
  rfl

/-- A report is right unless the counter has turned negative and not yet come
back to zero. -/
theorem reportRight_iff (actions : List Action) :
    ReportRight actions ↔
      presses (results actions) < 2 ^ 31 ∨
        2 ^ 32 ≤ presses (results actions) := by
  unfold ReportRight
  rw [replyAfter_count, (after_holds actions).message]
  generalize presses (results actions) = k
  constructor
  · rintro ⟨n, hreply, hn | hmessage⟩
    · obtain rfl := Reply.int32.inj (Option.some.inj hreply)
      have hlt := (Int32.ofNat k).toInt_lt
      exact .inl (by omega)
    · exact .inr hmessage
  · rintro (hlt | hmessage)
    · exact ⟨_, rfl, .inl (Int32.toInt_ofNat_of_lt hlt)⟩
    · exact ⟨_, rfl, .inr hmessage⟩

/-- Every report of a run is right exactly when none is asked for while the
number of backspace events needs the sign bit of the counter. -/
theorem reportsRight_iff (run : List Action) :
    ReportsRight run ↔
      ∀ pre, pre ++ [getBackspaceCount] <+: run →
        presses (results pre) < 2 ^ 31 ∨ 2 ^ 32 ≤ presses (results pre) := by
  unfold ReportsRight
  exact forall₂_congr fun pre _ => reportRight_iff pre

/-- The backspace key goes down. -/
def backspaceDown : ReadResult where
  n := sizeEvent
  errno := 0
  ev := { type := evKey, code := keyBackspace, value := 1 }

theorem presses_replicate (k : ℕ) :
    presses (List.replicate k backspaceDown) = k := by
  induction k with
  | zero => rfl
  | succ k ih =>
      rw [List.replicate_succ, presses_cons_of_not_ends (by decide),
        if_pos (by decide), ih]

theorem results_replicate (k : ℕ) (r : ReadResult) :
    results (List.replicate k (.read r)) = List.replicate k r := by
  induction k with
  | zero => rfl
  | succ k ih =>
      rw [List.replicate_succ, List.replicate_succ, ← ih]
      rfl

/-- After `2 ^ 31` backspace events a negative number is reported, and nothing
has been printed. -/
theorem negative_count_reported :
    replyAfter (List.replicate (2 ^ 31) (.read backspaceDown)) bkdInterface
        "GetBackspaceCount" = some (.int32 (-2147483648)) ∧
      ¬ ReportsRight (List.replicate (2 ^ 31) (.read backspaceDown) ++
        [getBackspaceCount]) := by
  have hpresses : presses (results
      (List.replicate (2 ^ 31) (.read backspaceDown))) = 2 ^ 31 := by
    rw [results_replicate, presses_replicate]
  constructor
  · rw [replyAfter_count, hpresses]
    rfl
  · intro h
    have hreport := (reportRight_iff _).mp (h _ List.prefix_rfl)
    rw [hpresses] at hreport
    omega

end Backspace
end MiscCode
