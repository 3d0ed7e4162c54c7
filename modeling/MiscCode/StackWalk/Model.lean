import MiscCode.CallFrameInfo.Rules
import MiscCode.Support.WhileLoop
import Mathlib.Data.Int.Notation

/-!
# Walking a stack

`Walk` starts with the frame of the processor's context and asks for the caller
of the last frame until there is none.  What finds a caller depends on the
processor; every frame is looked up among the symbols before it is put on the
stack.

The classes of the frames are declared in headers that are not in the
repository.  A module is known by its pointer.
-/

namespace MiscCode
namespace StackWalk

open CallFrameInfo WhileLoop

/-! ## Frames -/

/-- How a frame was found. -/
inductive FrameTrust where
  | none | scan | cfiScan | fp | cfi | prewalked | context
  deriving DecidableEq, Repr

/-- A `StackFrame`. -/
structure StackFrame (μ : Type) where
  instruction : UInt64
  module : Option μ
  functionName : Text
  functionBase : UInt64
  sourceFileName : Text
  sourceLine : ℤ
  sourceLineBase : UInt64
  trust : FrameTrust
  deriving DecidableEq, Repr

/-- A frame of a processor: a `StackFrame` with the state of the registers. -/
structure Frame (μ κ : Type) where
  base : StackFrame μ
  cpu : κ
  deriving DecidableEq, Repr

/-- The frames counted in `Walk` against the limit on scanning. -/
def FrameTrust.dubious : FrameTrust → Bool
  | .none | .scan | .cfiScan => true
  | _ => false

/-! ## What the processors have in common -/

/-- The program counter and the stack pointer, whether the program counter is
valid, and the place of the call when the program counter is a return address. -/
structure Registers (κ : Type) where
  pc : κ → UInt64
  sp : κ → UInt64
  validPC : κ → Bool
  callSite : κ → UInt64

/-- The middle of `GetCallerFrame`: a frame found with call frame information,
else along the frame pointers, else by a scan if one is allowed. -/
def findCaller {σ μ κ : Type} (byCFI byFramePointer : Option (Frame μ κ))
    (stackScanAllowed : Bool) (byScan : Option (Frame μ κ) × σ) (s : σ) :
    Option (Frame μ κ) × σ :=
  let frame := byCFI.or byFramePointer
  if stackScanAllowed && frame.isNone then byScan else (frame, s)

/-- The end of `GetCallerFrame`: an instruction address of zero and a stack
pointer that decreases mark the end of the stack. -/
def Registers.accept {μ κ : Type} (registers : Registers κ) (last : κ)
    (frame : Frame μ κ) : Option (Frame μ κ) :=
  if registers.pc frame.cpu = 0 then none
  else if registers.sp frame.cpu < registers.sp last then none
  else
    some { frame with
      base := { frame.base with instruction := registers.callSite frame.cpu } }

/-! ## What a walk uses -/

/-- A `StackFrameSymbolizer::SymbolizerResult`. -/
inductive SymbolizerResult where
  | noError | error | warningCorruptSymbols | interrupt
  deriving DecidableEq, Repr

/-- A `StackFrameSymbolizer` with states of the type `σ`.  Where a frame is and
how it was found, it leaves alone. -/
structure FrameSymbolizer (σ μ : Type) where
  fillSourceLineInfo : StackFrame μ → σ → SymbolizerResult × StackFrame μ × σ
  findCFIFrameInfo : StackFrame μ → σ → Option FrameInfo
  keeps_instruction : ∀ frame s,
    (fillSourceLineInfo frame s).2.1.instruction = frame.instruction
  keeps_trust : ∀ frame s,
    (fillSourceLineInfo frame s).2.1.trust = frame.trust

/-- A `Stackwalker`: its symbolizer, the methods of the processor, and the
limits. -/
structure Stackwalker (σ μ κ : Type) where
  symbolizer : FrameSymbolizer σ μ
  getContextFrame : Option (Frame μ κ)
  getCallerFrame : List (Frame μ κ) → (stackScanAllowed : Bool) → σ →
    Option (Frame μ κ) × σ
  maxFrames : ℕ
  maxFramesScanned : ℕ

/-! ## `Walk` -/

variable {σ μ κ : Type} [DecidableEq μ]

/-- `InsertSpecialAttentionModule`. -/
def insertSpecialAttentionModule (module : Option μ) (modules : List μ) :
    List μ :=
  match module with
  | none => modules
  | some module =>
      if module ∈ modules then modules else modules ++ [module]

/-- What `Walk` leaves: the stack, the two lists of modules, and the state of
the symbolizer. -/
structure Walked (σ μ κ : Type) where
  frames : List (Frame μ κ)
  modulesWithoutSymbols : List μ
  modulesWithCorruptSymbols : List μ
  symbols : σ

/-- The state at the head of the loop. -/
structure Walking (σ μ κ : Type) extends Walked σ μ κ where
  frame : Option (Frame μ κ)
  scannedFrames : ℕ

/-- A frame with what the symbolizer has found about it. -/
def Stackwalker.filled (walker : Stackwalker σ μ κ) (frame : Frame μ κ)
    (s : σ) : Frame μ κ :=
  { frame with base := (walker.symbolizer.fillSourceLineInfo frame.base s).2.1 }

/-- A turn with a frame; the symbolizer has been asked about it. -/
def Stackwalker.push (walker : Stackwalker σ μ κ) (s : Walking σ μ κ)
    (result : SymbolizerResult) (frame : Frame μ κ) (symbols : σ) :
    Turn (Walking σ μ κ) (Bool × Walked σ μ κ) :=
  let modulesWithoutSymbols :=
    if result = .error then
      insertSpecialAttentionModule frame.base.module s.modulesWithoutSymbols
    else s.modulesWithoutSymbols
  let modulesWithCorruptSymbols :=
    if result = .warningCorruptSymbols then
      insertSpecialAttentionModule frame.base.module s.modulesWithCorruptSymbols
    else s.modulesWithCorruptSymbols
  let scannedFrames :=
    if frame.base.trust.dubious then s.scannedFrames + 1 else s.scannedFrames
  let frames := s.frames ++ [frame]
  if walker.maxFrames < frames.length then
    .leave (true,
      { frames := frames
        modulesWithoutSymbols := modulesWithoutSymbols
        modulesWithCorruptSymbols := modulesWithCorruptSymbols
        symbols := symbols })
  else
    let stackScanAllowed : Bool := scannedFrames < walker.maxFramesScanned
    let caller := walker.getCallerFrame frames stackScanAllowed symbols
    .again
      { frames := frames
        modulesWithoutSymbols := modulesWithoutSymbols
        modulesWithCorruptSymbols := modulesWithCorruptSymbols
        symbols := caller.2
        frame := caller.1
        scannedFrames := scannedFrames }

/-- A turn of the loop. -/
def Stackwalker.walkTurn (walker : Stackwalker σ μ κ) (s : Walking σ μ κ) :
    Turn (Walking σ μ κ) (Bool × Walked σ μ κ) :=
  match s.frame with
  | none => .leave (true, s.toWalked)
  | some frame =>
      let filled := walker.symbolizer.fillSourceLineInfo frame.base s.symbols
      if filled.1 = .interrupt then
        .leave (false, { s.toWalked with symbols := filled.2.2 })
      else
        walker.push s filled.1 { frame with base := filled.2.1 } filled.2.2

/-- The start of a walk with a new `CallStack`. -/
def Stackwalker.start (walker : Stackwalker σ μ κ)
    (modulesWithoutSymbols modulesWithCorruptSymbols : List μ) (symbols : σ) :
    Walking σ μ κ where
  frames := []
  modulesWithoutSymbols := modulesWithoutSymbols
  modulesWithCorruptSymbols := modulesWithCorruptSymbols
  symbols := symbols
  frame := walker.getContextFrame
  scannedFrames := 0

/-- `Walk` under a budget: whether it was completed, and what it leaves. -/
def Stackwalker.walk (walker : Stackwalker σ μ κ) (fuel : ℕ)
    (modulesWithoutSymbols modulesWithCorruptSymbols : List μ) (symbols : σ) :
    Except Unit (Bool × Walked σ μ κ) :=
  loop () (fun _ s => .ok (walker.walkTurn s)) fuel
    (walker.start modulesWithoutSymbols modulesWithCorruptSymbols symbols)

end StackWalk
end MiscCode
