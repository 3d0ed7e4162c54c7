import MiscCode.StackWalk.Runs

/-!
# The walker over a list of addresses

Someone else has walked the stack already.  The walk only looks the addresses up
among the symbols, in the order in which they were given.
-/

namespace MiscCode
namespace StackWalk

open Fuel Growing

variable {σ μ : Type}

/-- A `StackwalkerAddressList`; the frames have no registers. -/
structure StackwalkerAddressList (σ μ : Type) where
  symbolizer : FrameSymbolizer σ μ
  frames : List UInt64
  newFrame : StackFrame μ
  maxFrames : ℕ
  maxFramesScanned : ℕ

/-- A new frame with an address that was given. -/
def StackwalkerAddressList.prewalked (walker : StackwalkerAddressList σ μ)
    (instruction : UInt64) : Frame μ Unit where
  base := { walker.newFrame with instruction := instruction, trust := .prewalked }
  cpu := ()

/-- `GetContextFrame`. -/
def StackwalkerAddressList.getContextFrame
    (walker : StackwalkerAddressList σ μ) : Option (Frame μ Unit) :=
  walker.frames.head?.map walker.prewalked

/-- `GetCallerFrame`. -/
def StackwalkerAddressList.getCallerFrame (walker : StackwalkerAddressList σ μ)
    (frames : List (Frame μ Unit)) (_stackScanAllowed : Bool) (s : σ) :
    Option (Frame μ Unit) × σ :=
  (walker.frames[frames.length]?.map walker.prewalked, s)

/-- The methods of `Stackwalker` for a list of addresses. -/
def StackwalkerAddressList.toStackwalker (walker : StackwalkerAddressList σ μ) :
    Stackwalker σ μ Unit where
  symbolizer := walker.symbolizer
  getContextFrame := walker.getContextFrame
  getCallerFrame := walker.getCallerFrame
  maxFrames := walker.maxFrames
  maxFramesScanned := walker.maxFramesScanned

/-- The state of the symbolizer behind some addresses. -/
def StackwalkerAddressList.behind (walker : StackwalkerAddressList σ μ)
    (symbols : σ) (addresses : List UInt64) : σ :=
  addresses.foldl (fun s instruction =>
    (walker.symbolizer.fillSourceLineInfo (walker.prewalked instruction).base
      s).2.2) symbols

/-- The frames for some addresses, looked up one after the other. -/
def StackwalkerAddressList.lookedUp (walker : StackwalkerAddressList σ μ) :
    σ → List UInt64 → List (Frame μ Unit)
  | _, [] => []
  | symbols, instruction :: addresses =>
      walker.toStackwalker.filled (walker.prewalked instruction) symbols ::
        walker.lookedUp (walker.behind symbols [instruction]) addresses

/-! ## The frames -/

section Frames

variable {walker : StackwalkerAddressList σ μ} {symbols : σ}
  {lookups : List (Lookup σ μ Unit)} {lookup : Lookup σ μ Unit}

theorem behind_concat (walker : StackwalkerAddressList σ μ) (symbols : σ)
    (addresses : List UInt64) (instruction : UInt64) :
    walker.behind symbols (addresses ++ [instruction]) =
      (walker.symbolizer.fillSourceLineInfo (walker.prewalked instruction).base
        (walker.behind symbols addresses)).2.2 :=
  List.foldl_append

theorem lookedUp_concat (walker : StackwalkerAddressList σ μ) (symbols : σ)
    (addresses : List UInt64) (instruction : UInt64) :
    walker.lookedUp symbols (addresses ++ [instruction]) =
      walker.lookedUp symbols addresses ++
        [walker.toStackwalker.filled (walker.prewalked instruction)
          (walker.behind symbols addresses)] := by
  induction addresses generalizing symbols with
  | nil => rfl
  | cons address addresses ih =>
      rw [List.cons_append, StackwalkerAddressList.lookedUp, ih]
      rfl

theorem lookedUp_instruction (walker : StackwalkerAddressList σ μ) (symbols : σ)
    (addresses : List UInt64) :
    (walker.lookedUp symbols addresses).map (fun frame =>
      frame.base.instruction) = addresses := by
  induction addresses generalizing symbols with
  | nil => rfl
  | cons instruction addresses ih =>
      rw [StackwalkerAddressList.lookedUp, List.map_cons, ih, filled_instruction]
      rfl

theorem lookedUp_trust (walker : StackwalkerAddressList σ μ) (symbols : σ)
    (addresses : List UInt64) :
    ∀ frame ∈ walker.lookedUp symbols addresses,
      frame.base.trust = .prewalked := by
  induction addresses generalizing symbols with
  | nil => exact List.forall_mem_nil _
  | cons instruction addresses ih =>
      refine List.forall_mem_cons.mpr ⟨?_, ih _⟩
      rw [filled_trust]
      rfl

/-- The walk comes to the addresses in turn. -/
theorem next_addressList (symbols : σ) (lookups : List (Lookup σ μ Unit)) :
    (walker.toStackwalker.next symbols lookups).1 =
      walker.frames[lookups.length]?.map walker.prewalked := by
  cases lookups using List.reverseRecOn with
  | nil =>
      rw [List.length_nil, ← List.head?_eq_getElem?]
      rfl
  | append_singleton lookups last =>
      have hlength : (lookups.map walker.toStackwalker.frame ++
          [walker.toStackwalker.frame last]).length =
            (lookups ++ [last]).length := by simp
      rw [next_concat, ← hlength]
      rfl

theorem addressList_next (h : walker.toStackwalker.Next symbols lookups lookup) :
    walker.frames[lookups.length]? = some lookup.found.base.instruction ∧
      lookup.found = walker.prewalked lookup.found.base.instruction := by
  have hfound := congrArg Prod.fst h
  rw [next_addressList] at hfound
  obtain ⟨instruction, hread, hprewalked⟩ := Option.map_eq_some_iff.mp hfound
  rw [← hprewalked]
  exact ⟨hread, rfl⟩

/-- What a walk has come to is what the addresses come to. -/
theorem addressList_grown
    (h : Grown (walker.toStackwalker.Next symbols) lookups) :
    let addresses := lookups.map fun lookup => lookup.found.base.instruction
    lookups.map walker.toStackwalker.frame = walker.lookedUp symbols addresses ∧
      (walker.toStackwalker.next symbols lookups).2 =
        walker.behind symbols addresses := by
  induction h with
  | nil => exact ⟨rfl, rfl⟩
  | @concat lookups lookup _ hnext ih =>
      obtain ⟨hframes, hbehind⟩ := ih
      have hfound := (addressList_next hnext).2
      have hsymbols : lookup.symbols = walker.behind symbols
          (lookups.map fun lookup => lookup.found.base.instruction) :=
        (congrArg Prod.snd hnext).symm.trans hbehind
      constructor
      · rw [List.map_append, List.map_append, hframes, List.map_singleton,
          List.map_singleton, lookedUp_concat, ← hfound, ← hsymbols]
        rfl
      · have hbehind := behind_concat walker symbols
          (lookups.map fun lookup => lookup.found.base.instruction)
          lookup.found.base.instruction
        rw [← hfound, ← hsymbols] at hbehind
        have haddresses : (lookups ++ [lookup]).map
            (fun lookup => lookup.found.base.instruction) =
              lookups.map (fun lookup => lookup.found.base.instruction) ++
                [lookup.found.base.instruction] := List.map_append
        rw [next_concat, haddresses, hbehind]
        rfl

/-- A walk has come to the first addresses. -/
theorem addressList_addresses {before before' : List μ}
    {walked : Walked σ μ Unit}
    (h : walker.toStackwalker.Walks before before' symbols lookups walked) :
    lookups.map (fun lookup => lookup.found.base.instruction) =
      walker.frames.take walked.frames.length := by
  have hinitial := h.grown.map_isPrefix fun _ _ hnext => (addressList_next hnext).1
  rw [List.prefix_iff_eq_take.mp hinitial, List.length_map, h.frames,
    List.length_map]

/-- What is on the stack after a walk: the addresses in the order given, looked
up one after the other, all of them or as many as the limit lets in, unless the
symbolizer interrupts the walk at the next one. -/
theorem addressList_ended {before before' : List μ} {r : Bool × Walked σ μ Unit}
    (h : walker.toStackwalker.Ended before before' symbols lookups r) :
    let addresses := walker.frames.take r.2.frames.length
    r.2.frames = walker.lookedUp symbols addresses ∧
      (r.1 = true → addresses = walker.frames.take (walker.maxFrames + 1)) ∧
      (r.1 = false → ∃ instruction,
        walker.frames[r.2.frames.length]? = some instruction ∧
        (walker.symbolizer.fillSourceLineInfo (walker.prewalked instruction).base
          (walker.behind symbols addresses)).1 = .interrupt) := by
  obtain ⟨hframes, hbehind⟩ := addressList_grown h.walks.grown
  have hlength : r.2.frames.length = lookups.length := by
    rw [h.walks.frames, List.length_map]
  rw [addressList_addresses h.walks] at hframes hbehind
  refine ⟨h.walks.frames.trans hframes, fun hr => ?_, fun hr => ?_⟩
  · rcases h.completed hr with hnone | ⟨hlimit, -⟩
    · have hend := congrArg Prod.fst hnone
      rw [next_addressList, Option.map_eq_none_iff, List.getElem?_eq_none_iff,
        ← hlength] at hend
      rw [List.take_of_length_le hend, List.take_of_length_le]
      exact hend.trans h.length_le
    · rw [hlength, hlimit]
      rfl
  · obtain ⟨lookup, hnext, hresult, -⟩ := h.interrupted hr
    obtain ⟨hread, hfound⟩ := addressList_next hnext
    refine ⟨lookup.found.base.instruction, by rwa [hlength], ?_⟩
    rw [← hfound, ← hbehind, show walker.toStackwalker.next symbols lookups = _
      from hnext]
    exact hresult

end Frames

end StackWalk
end MiscCode
