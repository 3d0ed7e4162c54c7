import MiscCode.StackWalk.Model
import MiscCode.Support.Growing

/-!
# What holds after a walk

Every walk comes to an end, and its stack has grown frame by frame: from the
context frame, each time by the caller of the last frame.  Every frame is looked
up in the state of the symbolizer that the walk has come to.  The modules that
need attention are listed once each.
-/

namespace MiscCode
namespace StackWalk

open Fuel Growing WhileLoop

variable {σ μ κ : Type}

/-! ## The modules listed -/

/-- A list of modules after some frames have been looked up: those of the frames
with a given result were added. -/
structure Attention (before after : List μ) (kind : SymbolizerResult)
    (looked : List (Frame μ κ × SymbolizerResult)) : Prop where
  initial : before <+: after
  nodup : before.Nodup → after.Nodup
  mem_iff : ∀ module, module ∈ after ↔ module ∈ before ∨
    ∃ frame, (frame, kind) ∈ looked ∧ frame.base.module = some module

theorem attention_nil (before : List μ) (kind : SymbolizerResult) :
    Attention before before kind ([] : List (Frame μ κ × SymbolizerResult)) where
  initial := List.prefix_rfl
  nodup := id
  mem_iff := by simp

section Insert

variable [DecidableEq μ]

theorem mem_insertSpecialAttentionModule {module : Option μ} {modules : List μ}
    {other : μ} : other ∈ insertSpecialAttentionModule module modules ↔
      other ∈ modules ∨ module = some other := by
  cases module with
  | none => simp [insertSpecialAttentionModule]
  | some module =>
      by_cases h : module ∈ modules
      · simp only [insertSpecialAttentionModule, if_pos h, Option.some.injEq]
        constructor
        · exact .inl
        · rintro (hother | rfl)
          · exact hother
          · exact h
      · simp [insertSpecialAttentionModule, h, eq_comm]

theorem initial_insertSpecialAttentionModule (module : Option μ)
    (modules : List μ) :
    modules <+: insertSpecialAttentionModule module modules := by
  cases module with
  | none => exact List.prefix_rfl
  | some module =>
      rw [insertSpecialAttentionModule]
      split
      · exact List.prefix_rfl
      · exact List.prefix_append _ _

theorem nodup_insertSpecialAttentionModule (module : Option μ)
    {modules : List μ} (h : modules.Nodup) :
    (insertSpecialAttentionModule module modules).Nodup := by
  cases module with
  | none => exact h
  | some module =>
      rw [insertSpecialAttentionModule]
      split
      · exact h
      · rename_i hnew
        rw [List.nodup_append]
        refine ⟨h, List.nodup_singleton _, ?_⟩
        rintro other hother new hmem rfl
        exact hnew (List.mem_singleton.mp hmem ▸ hother)

/-- One more frame. -/
theorem Attention.concat {before after : List μ} {kind : SymbolizerResult}
    {looked : List (Frame μ κ × SymbolizerResult)}
    (h : Attention before after kind looked) (frame : Frame μ κ)
    (result : SymbolizerResult) :
    Attention before
      (if result = kind then
        insertSpecialAttentionModule frame.base.module after else after)
      kind (looked ++ [(frame, result)]) := by
  have hlooked : ∀ module, (∃ other, (other, kind) ∈ looked ++ [(frame, result)] ∧
      other.base.module = some module) ↔
        (∃ other, (other, kind) ∈ looked ∧ other.base.module = some module) ∨
          (result = kind ∧ frame.base.module = some module) := by
    intro module
    simp only [List.mem_append, List.mem_singleton, Prod.mk.injEq]
    constructor
    · rintro ⟨other, hold | ⟨rfl, hkind⟩, hmodule⟩
      · exact .inl ⟨other, hold, hmodule⟩
      · exact .inr ⟨hkind.symm, hmodule⟩
    · rintro (⟨other, hold, hmodule⟩ | ⟨hkind, hmodule⟩)
      · exact ⟨other, .inl hold, hmodule⟩
      · exact ⟨frame, .inr ⟨rfl, hkind.symm⟩, hmodule⟩
  by_cases hkind : result = kind
  · rw [if_pos hkind]
    refine ⟨h.initial.trans (initial_insertSpecialAttentionModule _ _),
      fun hbefore => nodup_insertSpecialAttentionModule _ (h.nodup hbefore),
      fun module => ?_⟩
    rw [mem_insertSpecialAttentionModule, h.mem_iff, hlooked, or_assoc]
    simp only [hkind, true_and]
  · rw [if_neg hkind]
    refine ⟨h.initial, h.nodup, fun module => ?_⟩
    rw [h.mem_iff, hlooked]
    simp only [hkind, false_and, or_false]

end Insert

/-! ## How the stack grows -/

/-- A frame as it is found, and the state of the symbolizer that is asked about
it. -/
structure Lookup (σ μ κ : Type) where
  found : Frame μ κ
  symbols : σ

/-- The frames counted against the limit on scanning. -/
def dubiousFrames (frames : List (Frame μ κ)) : ℕ :=
  frames.countP fun frame => frame.base.trust.dubious

section Lookups

variable (walker : Stackwalker σ μ κ)

/-- Whether the caller of the last of some frames may be found by scanning. -/
def Stackwalker.scanAllowed (frames : List (Frame μ κ)) : Bool :=
  dubiousFrames frames < walker.maxFramesScanned

/-- The frame with what is found about it. -/
def Stackwalker.frame (lookup : Lookup σ μ κ) : Frame μ κ :=
  walker.filled lookup.found lookup.symbols

/-- What the symbolizer answers about the frame. -/
def Stackwalker.result (lookup : Lookup σ μ κ) : SymbolizerResult :=
  (walker.symbolizer.fillSourceLineInfo lookup.found.base lookup.symbols).1

/-- The state of the symbolizer behind its answer. -/
def Stackwalker.behind (lookup : Lookup σ μ κ) : σ :=
  (walker.symbolizer.fillSourceLineInfo lookup.found.base lookup.symbols).2.2

/-- The frame with the answer about it. -/
def Stackwalker.looked (lookup : Lookup σ μ κ) : Frame μ κ × SymbolizerResult :=
  (walker.frame lookup, walker.result lookup)

/-- The frame that a walk comes to behind some lookups, if there is one, and the
state of the symbolizer then: the context frame, or the caller of the last
frame. -/
def Stackwalker.next (symbols : σ) (lookups : List (Lookup σ μ κ)) :
    Option (Frame μ κ) × σ :=
  match lookups.getLast? with
  | none => (walker.getContextFrame, symbols)
  | some last =>
      walker.getCallerFrame (lookups.map walker.frame)
        (walker.scanAllowed (lookups.map walker.frame)) (walker.behind last)

/-- A lookup that comes next in a walk. -/
def Stackwalker.Next (symbols : σ) (lookups : List (Lookup σ μ κ))
    (lookup : Lookup σ μ κ) : Prop :=
  walker.next symbols lookups = (some lookup.found, lookup.symbols)

/-- Where a walk stops that nothing interrupts: where no further frame is found,
or at the limit on frames. -/
def Stackwalker.Stops (symbols : σ) (lookups : List (Lookup σ μ κ)) (last : σ) :
    Prop :=
  walker.next symbols lookups = (none, last) ∨
    (lookups.length = walker.maxFrames + 1 ∧
      ∃ lookup ∈ lookups.getLast?, last = walker.behind lookup)

/-- What holds of the frames and the lists of modules at all times: they come
from the lookups so far, of which the symbolizer has interrupted none. -/
structure Stackwalker.Walks (before before' : List μ) (symbols : σ)
    (lookups : List (Lookup σ μ κ)) (walked : Walked σ μ κ) : Prop where
  grown : Grown (walker.Next symbols) lookups
  answered : ∀ lookup ∈ lookups, walker.result lookup ≠ .interrupt
  frames : walked.frames = lookups.map walker.frame
  length_le : lookups.length ≤ walker.maxFrames + 1
  withoutSymbols : Attention before walked.modulesWithoutSymbols .error
    (lookups.map walker.looked)
  corruptSymbols : Attention before' walked.modulesWithCorruptSymbols
    .warningCorruptSymbols (lookups.map walker.looked)

/-- What holds after a walk, of its result as well: it is interrupted by the
symbolizer only, at the lookup that comes next. -/
structure Stackwalker.Ended (before before' : List μ) (symbols : σ)
    (lookups : List (Lookup σ μ κ)) (r : Bool × Walked σ μ κ) : Prop where
  walks : walker.Walks before before' symbols lookups r.2
  completed : r.1 = true → walker.Stops symbols lookups r.2.symbols
  interrupted : r.1 = false → ∃ lookup, walker.Next symbols lookups lookup ∧
    walker.result lookup = .interrupt ∧ r.2.symbols = walker.behind lookup

/-- What holds at the head of the loop; the next frame has been looked for
already. -/
structure Stackwalker.Holds (before before' : List μ) (symbols : σ)
    (lookups : List (Lookup σ μ κ)) (s : Walking σ μ κ) : Prop where
  walks : walker.Walks before before' symbols lookups s.toWalked
  room : lookups.length ≤ walker.maxFrames
  scanned : s.scannedFrames = dubiousFrames s.frames
  found : walker.next symbols lookups = (s.frame, s.symbols)

/-- What holds of the symbolizer's states as long as frames are looked up and
callers are looked for. -/
structure Stackwalker.Keeping (Inv : σ → Prop) : Prop where
  fill : ∀ frame s, Inv s →
    Inv (walker.symbolizer.fillSourceLineInfo frame s).2.2
  caller : ∀ frames allowed s, Inv s →
    Inv (walker.getCallerFrame frames allowed s).2

end Lookups

section Walk

variable {walker : Stackwalker σ μ κ} {before before' : List μ} {symbols : σ}
  {lookups : List (Lookup σ μ κ)} {lookup : Lookup σ μ κ}

theorem next_concat (symbols : σ) (lookups : List (Lookup σ μ κ))
    (last : Lookup σ μ κ) :
    walker.next symbols (lookups ++ [last]) =
      walker.getCallerFrame (lookups.map walker.frame ++ [walker.frame last])
        (walker.scanAllowed ((lookups ++ [last]).map walker.frame))
        (walker.behind last) := by
  rw [Stackwalker.next, List.getLast?_concat, List.map_append, List.map_singleton]

/-- The lookup of the context frame, or of a caller. -/
theorem Stackwalker.Next.cases (h : walker.Next symbols lookups lookup) :
    (lookups = [] ∧ walker.getContextFrame = some lookup.found) ∨
      ∃ front last, lookups = front ++ [last] ∧
        (walker.getCallerFrame (front.map walker.frame ++ [walker.frame last])
          (walker.scanAllowed (lookups.map walker.frame))
          (walker.behind last)).1 = some lookup.found := by
  cases lookups using List.reverseRecOn with
  | nil => exact .inl ⟨rfl, congrArg Prod.fst h⟩
  | append_singleton front last =>
      refine .inr ⟨front, last, rfl, ?_⟩
      rw [← next_concat symbols]
      exact congrArg Prod.fst h

theorem holds_start (walker : Stackwalker σ μ κ) (before before' : List μ)
    (symbols : σ) :
    walker.Holds before before' symbols [] (walker.start before before' symbols)
    where
  walks := ⟨.nil, List.forall_mem_nil _, rfl, Nat.zero_le _, attention_nil _ _,
    attention_nil _ _⟩
  room := Nat.zero_le _
  scanned := rfl
  found := rfl

variable [DecidableEq μ]

/-- A lookup that is not interrupted puts its frame on the stack. -/
theorem Stackwalker.Walks.concat {walked : Walked σ μ κ}
    (h : walker.Walks before before' symbols lookups walked)
    (hroom : lookups.length ≤ walker.maxFrames)
    (hnext : walker.Next symbols lookups lookup)
    (hresult : walker.result lookup ≠ .interrupt) (symbols' : σ) :
    walker.Walks before before' symbols (lookups ++ [lookup])
      { frames := walked.frames ++ [walker.frame lookup]
        modulesWithoutSymbols :=
          if walker.result lookup = .error then
            insertSpecialAttentionModule (walker.frame lookup).base.module
              walked.modulesWithoutSymbols
          else walked.modulesWithoutSymbols
        modulesWithCorruptSymbols :=
          if walker.result lookup = .warningCorruptSymbols then
            insertSpecialAttentionModule (walker.frame lookup).base.module
              walked.modulesWithCorruptSymbols
          else walked.modulesWithCorruptSymbols
        symbols := symbols' } where
  grown := h.grown.concat hnext
  answered := List.forall_mem_append.mpr
    ⟨h.answered, List.forall_mem_singleton.mpr hresult⟩
  frames := by simp [h.frames]
  length_le := by simpa using hroom
  withoutSymbols := by
    rw [List.map_append]
    exact h.withoutSymbols.concat _ _
  corruptSymbols := by
    rw [List.map_append]
    exact h.corruptSymbols.concat _ _

/-- A turn that puts a frame on the stack. -/
theorem Stackwalker.Holds.push {s : Walking σ μ κ}
    (h : walker.Holds before before' symbols lookups s)
    (hnext : walker.Next symbols lookups lookup)
    (hresult : walker.result lookup ≠ .interrupt) :
    Keeps (fun v s => ∃ lookups, walker.Holds before before' symbols lookups s ∧
        walker.maxFrames + 1 - lookups.length = v)
      (fun r => ∃ lookups, walker.Ended before before' symbols lookups r)
      (walker.maxFrames + 1 - lookups.length)
      (walker.push s (walker.result lookup) (walker.frame lookup)
        (walker.behind lookup)) := by
  have hroom := h.room
  have hwalks := h.walks.concat hroom hnext hresult
  have hlength : (s.frames ++ [walker.frame lookup]).length =
      lookups.length + 1 := by
    simp [h.walks.frames]
  rw [Stackwalker.push]
  split
  · rename_i hmax
    have hlimit : (lookups ++ [lookup]).length = walker.maxFrames + 1 := by
      rw [List.length_append, List.length_singleton]
      omega
    exact ⟨lookups ++ [lookup], hwalks _,
      fun _ => .inr ⟨hlimit, lookup, List.getLast?_concat, rfl⟩,
      Bool.noConfusion⟩
  · rename_i hmax
    have hscanned : (if (walker.frame lookup).base.trust.dubious then
        s.scannedFrames + 1 else s.scannedFrames) =
          dubiousFrames (s.frames ++ [walker.frame lookup]) := by
      rw [h.scanned, dubiousFrames, dubiousFrames, List.countP_append,
        List.countP_singleton]
      split <;> rfl
    have hframes : s.frames ++ [walker.frame lookup] =
        (lookups ++ [lookup]).map walker.frame := (hwalks symbols).frames
    have hlookups : (lookups ++ [lookup]).length = lookups.length + 1 := by simp
    refine ⟨walker.maxFrames - lookups.length, by omega, lookups ++ [lookup],
      ⟨hwalks _, by omega, hscanned, ?_⟩, by omega⟩
    rw [Stackwalker.next, List.getLast?_concat, ← hframes,
      Stackwalker.scanAllowed, ← hscanned]

/-- A turn keeps what holds at the head of the loop with less room left, or
leaves the loop with what holds after a walk. -/
theorem keeps_walkTurn (walker : Stackwalker σ μ κ) (before before' : List μ)
    (symbols : σ) (v : ℕ) (s : Walking σ μ κ)
    (h : ∃ lookups, walker.Holds before before' symbols lookups s ∧
      walker.maxFrames + 1 - lookups.length = v) :
    Keeps (fun v s => ∃ lookups, walker.Holds before before' symbols lookups s ∧
        walker.maxFrames + 1 - lookups.length = v)
      (fun r => ∃ lookups, walker.Ended before before' symbols lookups r) v
      (walker.walkTurn s) := by
  obtain ⟨lookups, hholds, rfl⟩ := h
  have hfound := hholds.found
  cases hframe : s.frame with
  | none =>
      rw [hframe] at hfound
      rw [Stackwalker.walkTurn, hframe]
      exact ⟨lookups, hholds.walks, fun _ => .inl hfound, Bool.noConfusion⟩
  | some frame =>
      rw [hframe] at hfound
      rw [Stackwalker.walkTurn, hframe]
      dsimp only
      split
      · rename_i hinterrupt
        exact ⟨lookups, { hholds.walks with }, Bool.noConfusion,
          fun _ => ⟨⟨frame, s.symbols⟩, hfound, hinterrupt, rfl⟩⟩
      · rename_i hresult
        have hnext : walker.Next symbols lookups ⟨frame, s.symbols⟩ := hfound
        exact hholds.push hnext hresult

/-- Every walk ends with a result that meets the description. -/
theorem walk_ended (walker : Stackwalker σ μ κ) (before before' : List μ)
    (symbols : σ) :
    ∃ r, EndsIn () (fun fuel => walker.walk fuel before before' symbols)
        (.ok r) ∧
      ∃ lookups, walker.Ended before before' symbols lookups r :=
  loop_ends (steady_const _)
    (fun v s => ∃ lookups, walker.Holds before before' symbols lookups s ∧
      walker.maxFrames + 1 - lookups.length = v)
    (fun v s h => ⟨_, .of_ok (n := 0) rfl,
      keeps_walkTurn walker before before' symbols v s h⟩)
    ⟨[], holds_start walker before before' symbols, rfl⟩

omit [DecidableEq μ]

/-! ## The states of the symbolizer -/

section Keeping

variable {Inv : σ → Prop} (hkeeping : walker.Keeping Inv)
include hkeeping

theorem Stackwalker.Keeping.next (hsymbols : Inv symbols)
    (hlookups : ∀ lookup ∈ lookups, Inv lookup.symbols) :
    Inv (walker.next symbols lookups).2 := by
  rw [Stackwalker.next]
  split
  · exact hsymbols
  · rename_i last hlast
    exact hkeeping.caller _ _ _
      (hkeeping.fill _ _ (hlookups last (List.mem_of_getLast? hlast)))

theorem Stackwalker.Keeping.of_next (hsymbols : Inv symbols)
    (hlookups : ∀ lookup ∈ lookups, Inv lookup.symbols)
    (hnext : walker.Next symbols lookups lookup) : Inv lookup.symbols := by
  have hkept := hkeeping.next hsymbols hlookups
  rwa [show walker.next symbols lookups = _ from hnext] at hkept

/-- What the methods keep holds of every state in a walk. -/
theorem Stackwalker.Ended.keeping {r : Bool × Walked σ μ κ}
    (h : walker.Ended before before' symbols lookups r)
    (hsymbols : Inv symbols) :
    (∀ lookup ∈ lookups, Inv lookup.symbols) ∧ Inv r.2.symbols := by
  have hlookups := h.walks.grown.forall fun _ _ => hkeeping.of_next hsymbols
  refine ⟨hlookups, ?_⟩
  cases hr : r.1 with
  | true =>
      rcases h.completed hr with hnone | ⟨-, lookup, hlast, hbehind⟩
      · have hkept := hkeeping.next hsymbols hlookups
        rwa [hnone] at hkept
      · rw [hbehind]
        exact hkeeping.fill _ _ (hlookups lookup (List.mem_of_getLast? hlast))
  | false =>
      obtain ⟨lookup, hnext, -, hbehind⟩ := h.interrupted hr
      rw [hbehind]
      exact hkeeping.fill _ _ (hkeeping.of_next hsymbols hlookups hnext)

end Keeping

/-- Every walk ends with a result that meets the description, and every
invariant of the symbolizer that its methods keep holds of its states all
along. -/
theorem walk_ends [DecidableEq μ] (walker : Stackwalker σ μ κ) {Inv : σ → Prop}
    (hkeeping : walker.Keeping Inv) (before before' : List μ) {symbols : σ}
    (hsymbols : Inv symbols) :
    ∃ r, EndsIn () (fun fuel => walker.walk fuel before before' symbols)
        (.ok r) ∧
      ∃ lookups, walker.Ended before before' symbols lookups r ∧
        (∀ lookup ∈ lookups, Inv lookup.symbols) ∧ Inv r.2.symbols := by
  obtain ⟨r, hr, lookups, hended⟩ := walk_ended walker before before' symbols
  exact ⟨r, hr, lookups, hended, hended.keeping hkeeping hsymbols⟩

/-- A walker over four frames in three modules; its symbolizer notes the modules
that it is asked about. -/
def sampleWalker : Stackwalker (List UInt64) UInt64 ℕ where
  symbolizer :=
    { fillSourceLineInfo := fun frame seen =>
        let module := frame.instruction / 0x1000
        (if module = 1 then .noError
          else if module = 2 then .error
          else .warningCorruptSymbols,
          { frame with module := some module },
          insertSpecialAttentionModule (some module) seen)
      findCFIFrameInfo := fun _ _ => none
      keeps_instruction := fun _ _ => rfl
      keeps_trust := fun _ _ => rfl }
  getContextFrame := some
    { base := ⟨0x1800, none, [], 0, [], 0, 0, .context⟩, cpu := 3 }
  getCallerFrame := fun frames _ seen =>
    (frames.getLast?.bind fun frame =>
      if frame.cpu = 0 then none
      else
        some
          { base := { frame.base with
              instruction := frame.base.instruction + 0xc00, trust := .fp }
            cpu := frame.cpu - 1 }, seen)
  maxFrames := 1024
  maxFramesScanned := 1024

theorem keeping_sampleWalker : sampleWalker.Keeping List.Nodup where
  fill := fun frame _ =>
    nodup_insertSpecialAttentionModule (some (frame.instruction / 0x1000))
  caller := fun _ _ _ => id

theorem walk_ends_sample :
    ∃ r, EndsIn () (fun fuel => sampleWalker.walk fuel [] [9] []) (.ok r) ∧
      ∃ lookups, sampleWalker.Ended [] [9] [] lookups r ∧
        (∀ lookup ∈ lookups, lookup.symbols.Nodup) ∧ r.2.symbols.Nodup :=
  walk_ends sampleWalker keeping_sampleWalker [] [9] List.nodup_nil

/-- The modules of the four frames. -/
example : (sampleWalker.walk 5 [] [9] []).map (fun r =>
    (r.1, r.2.modulesWithoutSymbols, r.2.modulesWithCorruptSymbols,
      r.2.symbols)) = .ok (true, [2], [9, 3], [1, 2, 3]) := by
  decide +kernel

end Walk

/-! ## What follows for the frames -/

/-- A stack as it should be: `ReturnAddress` may be asked of every frame, the
stack pointers never decrease, callers have return addresses, and the limit on
scanning is kept. -/
structure WellWalked (registers : Registers κ) (limit : ℕ)
    (frames : List (Frame μ κ)) : Prop where
  valid : ∀ frame ∈ frames, registers.validPC frame.cpu = true
  context : ∀ frame ∈ frames.head?,
    frame.base.instruction = registers.pc frame.cpu ∧
      frame.base.trust = .context
  callers : ∀ frame ∈ frames.tail, registers.pc frame.cpu ≠ 0 ∧
    frame.base.instruction = registers.callSite frame.cpu ∧
      frame.base.trust ≠ .context
  sorted : frames.Pairwise fun callee caller =>
    registers.sp callee.cpu ≤ registers.sp caller.cpu
  scanned : dubiousFrames frames ≤ limit

/-- What the methods of a processor do. -/
structure Stackwalker.Unwinds (walker : Stackwalker σ μ κ)
    (registers : Registers κ) : Prop where
  context : ∀ frame, walker.getContextFrame = some frame →
    registers.validPC frame.cpu = true ∧
      frame.base.instruction = registers.pc frame.cpu ∧
      frame.base.trust = .context
  caller : ∀ frames last allowed s frame,
    (walker.getCallerFrame (frames ++ [last]) allowed s).1 = some frame →
      registers.validPC frame.cpu = true ∧
      registers.sp last.cpu ≤ registers.sp frame.cpu ∧
      registers.pc frame.cpu ≠ 0 ∧
      frame.base.instruction = registers.callSite frame.cpu ∧
      frame.base.trust ≠ .context ∧
      (frame.base.trust.dubious → allowed = true)

section Frames

variable {walker : Stackwalker σ μ κ} {registers : Registers κ}

theorem filled_instruction (frame : Frame μ κ) (s : σ) :
    (walker.filled frame s).base.instruction = frame.base.instruction :=
  walker.symbolizer.keeps_instruction frame.base s

theorem filled_trust (frame : Frame μ κ) (s : σ) :
    (walker.filled frame s).base.trust = frame.base.trust :=
  walker.symbolizer.keeps_trust frame.base s

theorem findCaller_eq_some {byCFI byFramePointer : Option (Frame μ κ)}
    {allowed : Bool} {byScan : Option (Frame μ κ) × σ} {s : σ}
    {frame : Frame μ κ}
    (h : (findCaller byCFI byFramePointer allowed byScan s).1 = some frame) :
    byCFI = some frame ∨ byFramePointer = some frame ∨
      (allowed = true ∧ byScan.1 = some frame) := by
  rw [findCaller] at h
  split at h
  · rename_i hscan
    exact .inr (.inr ⟨(Bool.and_eq_true_iff.mp hscan).1, h⟩)
  · rcases Option.or_eq_some_iff.mp h with hcfi | ⟨-, hfp⟩
    · exact .inl hcfi
    · exact .inr (.inl hfp)

/-- A frame found in one of the three ways, and with a program counter. -/
structure FoundAs (registers : Registers κ) (allowed : Bool)
    (frame : Frame μ κ) : Prop where
  valid : registers.validPC frame.cpu = true
  trust : frame.base.trust = .cfi ∨ frame.base.trust = .fp ∨
    (frame.base.trust = .scan ∧ allowed = true)

theorem findCaller_foundAs {byCFI byFramePointer : Option (Frame μ κ)}
    {allowed : Bool} {byScan : Option (Frame μ κ) × σ} {s : σ}
    {frame : Frame μ κ}
    (hcfi : ∀ frame, byCFI = some frame →
      registers.validPC frame.cpu = true ∧ frame.base.trust = .cfi)
    (hfp : ∀ frame, byFramePointer = some frame →
      registers.validPC frame.cpu = true ∧ frame.base.trust = .fp)
    (hscan : ∀ frame, byScan.1 = some frame →
      registers.validPC frame.cpu = true ∧ frame.base.trust = .scan)
    (h : (findCaller byCFI byFramePointer allowed byScan s).1 = some frame) :
    FoundAs registers allowed frame := by
  rcases findCaller_eq_some h with h | h | ⟨hallowed, h⟩
  · exact ⟨(hcfi frame h).1, .inl (hcfi frame h).2⟩
  · exact ⟨(hfp frame h).1, .inr (.inl (hfp frame h).2)⟩
  · exact ⟨(hscan frame h).1, .inr (.inr ⟨(hscan frame h).2, hallowed⟩)⟩

theorem Registers.accept_eq_some_iff (registers : Registers κ) (last : κ)
    (frame accepted : Frame μ κ) :
    registers.accept last frame = some accepted ↔
      registers.pc frame.cpu ≠ 0 ∧ registers.sp last ≤ registers.sp frame.cpu ∧
        accepted = { frame with base :=
          { frame.base with instruction := registers.callSite frame.cpu } } := by
  rw [Registers.accept]
  split
  · rename_i hpc
    simp [hpc]
  · rename_i hpc
    split
    · rename_i hsp
      simp [UInt64.not_le.mpr hsp]
    · rename_i hsp
      simp [hpc, UInt64.not_lt.mp hsp, eq_comm]

/-- Methods that accept what they find in one of the three ways unwind as they
should. -/
theorem unwinds_of_foundAs
    (hcontext : ∀ frame, walker.getContextFrame = some frame →
      registers.validPC frame.cpu = true ∧
        frame.base.instruction = registers.pc frame.cpu ∧
        frame.base.trust = .context)
    (hcaller : ∀ frames allowed s frame,
      (walker.getCallerFrame frames allowed s).1 = some frame →
        ∃ last found, frames.getLast? = some last ∧
          registers.accept last.cpu found = some frame ∧
          FoundAs registers allowed found) : walker.Unwinds registers where
  context := hcontext
  caller := by
    intro frames last allowed s frame h
    obtain ⟨last', found, hlast, haccept, hvalid, htrust⟩ := hcaller _ _ _ _ h
    obtain rfl : last = last' := by simpa using hlast
    obtain ⟨hpc, hsp, rfl⟩ := (registers.accept_eq_some_iff _ _ _).mp haccept
    refine ⟨hvalid, hsp, hpc, rfl, ?_, ?_⟩
    · rcases htrust with h | h | ⟨h, -⟩
      all_goals simp [h]
    · rcases htrust with h | h | ⟨h, hallowed⟩
      · simp [h, FrameTrust.dubious]
      · simp [h, FrameTrust.dubious]
      · exact fun _ => hallowed

/-- A relation of every caller to its callee. -/
theorem Stackwalker.Walks.isChain {R : Frame μ κ → Frame μ κ → Prop}
    {before before' : List μ} {symbols : σ} {lookups : List (Lookup σ μ κ)}
    {walked : Walked σ μ κ}
    (h : walker.Walks before before' symbols lookups walked)
    (hcaller : ∀ frames last allowed s found s',
      (walker.getCallerFrame (frames ++ [last]) allowed s).1 = some found →
        R last (walker.filled found s')) : walked.frames.IsChain R := by
  rw [h.frames, List.isChain_map]
  refine h.grown.isChain fun front last lookup hnext => ?_
  have hfound := congrArg Prod.fst hnext
  rw [next_concat] at hfound
  exact hcaller _ _ _ _ _ lookup.symbols hfound

/-- Methods that unwind one frame as they should build stacks that are as they
should be. -/
theorem Stackwalker.Walks.wellWalked {before before' : List μ} {symbols : σ}
    {lookups : List (Lookup σ μ κ)} {walked : Walked σ μ κ}
    (h : walker.Walks before before' symbols lookups walked)
    (hunwinds : walker.Unwinds registers) :
    WellWalked registers walker.maxFramesScanned walked.frames where
  valid := by
    rw [h.frames, List.forall_mem_map]
    refine h.grown.forall fun lookups lookup _ hnext => ?_
    rcases hnext.cases with ⟨-, hcontext⟩ | ⟨front, last, -, hcaller⟩
    · exact (hunwinds.context _ hcontext).1
    · exact (hunwinds.caller _ _ _ _ _ hcaller).1
  context := by
    have hhead := h.grown.forall_head
      (P := fun lookup =>
        (walker.frame lookup).base.instruction =
            registers.pc (walker.frame lookup).cpu ∧
          (walker.frame lookup).base.trust = .context)
      fun lookup hnext => by
        rw [Stackwalker.frame, filled_instruction, filled_trust]
        exact (hunwinds.context _ (congrArg Prod.fst hnext)).2
    rw [h.frames, List.head?_map]
    intro frame hframe
    obtain ⟨lookup, hlookup, rfl⟩ := Option.map_eq_some_iff.mp hframe
    exact hhead lookup hlookup
  callers := by
    rw [h.frames, ← List.map_tail, List.forall_mem_map]
    refine h.grown.forall_tail fun lookups lookup hne hnext => ?_
    rcases hnext.cases with ⟨hnil, -⟩ | ⟨front, last, -, hcaller⟩
    · exact absurd hnil hne
    · rw [Stackwalker.frame, filled_instruction, filled_trust]
      obtain ⟨-, -, hpc, hinstruction, htrust, -⟩ :=
        hunwinds.caller _ _ _ _ _ hcaller
      exact ⟨hpc, hinstruction, htrust⟩
  sorted := by
    have htrans : IsTrans (Frame μ κ) fun callee caller =>
        registers.sp callee.cpu ≤ registers.sp caller.cpu :=
      ⟨fun _ _ _ hab hbc => UInt64.le_trans hab hbc⟩
    refine List.IsChain.pairwise (h.isChain ?_)
    exact fun frames last allowed s found _ hcaller =>
      (hunwinds.caller frames last allowed s found hcaller).2.1
  scanned := by
    rw [h.frames, dubiousFrames, List.countP_map]
    refine h.grown.countP_le fun lookups lookup hnext hdubious => ?_
    have hfound : lookup.found.base.trust.dubious = true := by
      rw [← filled_trust lookup.found lookup.symbols]
      exact hdubious
    rcases hnext.cases with ⟨-, hcontext⟩ | ⟨front, last, -, hcaller⟩
    · rw [(hunwinds.context _ hcontext).2.2] at hfound
      cases hfound
    · have hallowed := (hunwinds.caller _ _ _ _ _ hcaller).2.2.2.2.2 hfound
      rw [Stackwalker.scanAllowed, dubiousFrames, List.countP_map] at hallowed
      exact of_decide_eq_true hallowed

theorem Stackwalker.Ended.length_le {before before' : List μ} {symbols : σ}
    {lookups : List (Lookup σ μ κ)} {r : Bool × Walked σ μ κ}
    (h : walker.Ended before before' symbols lookups r) :
    r.2.frames.length ≤ walker.maxFrames + 1 := by
  rw [h.walks.frames, List.length_map]
  exact h.walks.length_le

/-- A walk that is completed has the context frame at the bottom of its stack, if
there is one. -/
theorem Stackwalker.Ended.head?_frames {before before' : List μ} {symbols : σ}
    {lookups : List (Lookup σ μ κ)} {r : Bool × Walked σ μ κ}
    (h : walker.Ended before before' symbols lookups r) (hr : r.1 = true) :
    r.2.frames.head? =
      walker.getContextFrame.map fun found => walker.filled found symbols := by
  rw [h.walks.frames, List.head?_map]
  cases lookups with
  | nil =>
      rcases h.completed hr with hnone | ⟨hlength, -⟩
      · have hcontext : walker.getContextFrame = none := congrArg Prod.fst hnone
        rw [hcontext]
        rfl
      · cases hlength
  | cons lookup lookups =>
      have hfirst := h.walks.grown.forall_head
        (P := walker.Next symbols []) (fun _ => id) lookup rfl
      have hcontext : walker.getContextFrame = some lookup.found :=
        congrArg Prod.fst hfirst
      have hsymbols : symbols = lookup.symbols := congrArg Prod.snd hfirst
      rw [hcontext, hsymbols]
      rfl

end Frames

end StackWalk
end MiscCode
