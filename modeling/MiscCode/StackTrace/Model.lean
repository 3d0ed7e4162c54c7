import MiscCode.Support.Visits
import Mathlib.Data.Int.Notation
import Mathlib.Algebra.Order.Ring.Int

/-!
# Printing the stacks of a process

The state of a crashed process is given out in two ways: `PrintProcessState`
prints it and `RfPrintProcessState` builds a structured trace of it.  Each has
its own copy of the loops over the threads and over the frames of a thread.

What is printed is kept as the sequence of the arguments of `printf`, so that
the numbers in it are still numbers.
-/

namespace MiscCode.StackTrace

open Visits

/-! ## The state of a process -/

/-- What the functions read of a `CodeModule`. -/
structure CodeModule where
  codeFile : String
  debugFile : String
  debugIdentifier : String
  version : String
  baseAddress : UInt64
  size : UInt64
  deriving DecidableEq, Repr

/-- A `StackFrame`; `returnAddress` and `trustDescription` are what the methods
of these names answer, and the registers are found by their names. -/
structure StackFrame where
  returnAddress : UInt64
  module : Option CodeModule
  functionName : String
  functionBase : UInt64
  sourceFileName : String
  sourceLine : ℤ
  sourceLineBase : UInt64
  trustDescription : String
  contextValidity : UInt64
  context : String → UInt64

/-- A `CallStack`; the stack walker stops long before the number of frames
leaves an `int`. -/
structure CallStack where
  frames : List StackFrame
  fits : frames.length < 2 ^ 31

/-- What the functions read of a `ProcessState`, with memory regions of any
type.  A dump with more threads than an `int` counts is refused when it is
read, and every thread is stored together with its memory region. -/
structure ProcessState (ρ : Type) where
  cpu : String
  cpuInfo : String
  os : String
  osVersion : String
  crashed : Bool
  crashReason : String
  crashAddress : UInt64
  requestingThread : ℤ
  threads : List CallStack
  threadMemoryRegions : List ρ
  modules : Option (List CodeModule)
  modulesWithoutSymbols : List CodeModule
  modulesWithCorruptSymbols : List CodeModule
  fits : threads.length < 2 ^ 31
  regions : threads.length ≤ threadMemoryRegions.length

/-- `at` of a vector, which throws for an index outside of it. -/
def vecAt {α : Type} (xs : List α) (i : ℤ) : Option α :=
  if 0 ≤ i then xs[i.toNat]? else none

/-- The size of a vector as an `int`. -/
def intSize {α : Type} (xs : List α) : ℤ := (xs.length : ℤ).bmod (2 ^ 32)

/-- The last position of a character. -/
def rfind (c : Char) (cs : List Char) : Option ℕ :=
  (cs.reverse.idxOf? c).map fun i => cs.length - 1 - i

/-- `PathnameStripper::File`. -/
def file (path : String) : String :=
  let fileStart :=
    match rfind '/' path.toList, rfind '\\' path.toList with
    | some slash, none => slash + 1
    | some slash, some backslash =>
        if backslash < slash then slash + 1 else backslash + 1
    | none, some backslash => backslash + 1
    | none, none => 0
  String.ofList (path.toList.drop fileStart)

/-! ## Registers -/

/-- The constants that say which bits of `context_validity` belong to a
register. -/
structure ContextMasks where
  bit : (cpu register : String) → UInt64
  allX86 : UInt64

/-- Whether a register of a frame is valid. -/
def ContextMasks.valid (masks : ContextMasks) (cpu : String)
    (frame : StackFrame) (register : String) : Bool :=
  frame.contextValidity &&& masks.bit cpu register ≠ 0

/-- The registers of x86 with a bit of their own. -/
def x86Registers : List String := ["eip", "esp", "ebp", "ebx", "esi", "edi"]

/-- The registers of x86 that are valid when all of the context is. -/
def x86RestRegisters : List String := ["eax", "ecx", "edx", "efl"]

/-- The registers of amd64. -/
def amd64Registers : List String :=
  ["rax", "rdx", "rcx", "rbx", "rsi", "rdi", "rbp", "rsp", "r8", "r9", "r10",
    "r11", "r12", "r13", "r14", "r15", "rip"]

/-- The registers of arm. -/
def armRegisters : List String :=
  ["r0", "r1", "r2", "r3", "r4", "r5", "r6", "r7", "r8", "r9", "r10", "r12",
    "fp", "sp", "lr", "pc"]

/-- The registers of arm64. -/
def arm64Registers : List String :=
  ["x0", "x1", "x2", "x3", "x4", "x5", "x6", "x7", "x8", "x9", "x10", "x11",
    "x12", "x13", "x14", "x15", "x16", "x17", "x18", "x19", "x20", "x21",
    "x22", "x23", "x24", "x25", "x26", "x27", "x28", "fp", "lr", "sp", "pc"]

/-- The registers of mips. -/
def mipsRegisters : List String :=
  ["gp", "sp", "fp", "ra", "pc", "s0", "s1", "s2", "s3", "s4", "s5", "s6", "s7"]

/-- The registers of a list that are valid in a frame, with their values. -/
def validRegisters (masks : ContextMasks) (cpu : String) (frame : StackFrame)
    (registers : List String) : List (String × UInt64) :=
  (registers.filter (masks.valid cpu frame)).map
    fun register => (register, frame.context register)

/-- The registers of x86 in a frame. -/
def validX86Registers (masks : ContextMasks) (frame : StackFrame) :
    List (String × UInt64) :=
  validRegisters masks "x86" frame x86Registers ++
    if frame.contextValidity = masks.allX86 then
      x86RestRegisters.map fun register => (register, frame.context register)
    else []

/-! ## Printing -/

/-- An argument of `printf`: text, a string in a field, a number in decimal or
hexadecimal digits. -/
inductive Token where
  | text (s : String)
  | str (width : ℕ) (s : String)
  | dec (width : ℕ) (n : ℤ)
  | hex (digits : ℕ) (x : UInt64)
  deriving DecidableEq, Repr

/-- Registers in turn, with so many digits each and a new line before one that
would leave the 80 columns; `startCol` is the column the next one starts in. -/
def printRegisters (digits : ℕ) :
    List (String × UInt64) → (startCol : ℕ) → List Token
  | [], _ => []
  | (name, value) :: rest, startCol =>
      let buffer : List Token :=
        [.text " ", .str 5 name, .text " = 0x", .hex digits value]
      let length := 1 + max 5 name.length + 5 + digits
      if 80 < startCol + length then
        (.text "\n " :: buffer) ++ printRegisters digits rest length
      else buffer ++ printRegisters digits rest (startCol + length)

/-- `PrintRegister` for each register: the values are 32-bit ones. -/
def printRegisters32 (registers : List (String × UInt64)) : List Token :=
  printRegisters 8
    (registers.map fun register =>
      (register.1, register.2.toUInt32.toUInt64)) 0

/-- `PrintRegister64` for each register. -/
def printRegisters64 (registers : List (String × UInt64)) : List Token :=
  printRegisters 16 registers 0

/-- The registers of a frame in `PrintStack`. -/
def printFrameRegisters (masks : ContextMasks) (cpu : String)
    (frame : StackFrame) : List Token :=
  if cpu = "x86" then printRegisters32 (validX86Registers masks frame)
  else if cpu = "ppc" then
    printRegisters32 (validRegisters masks cpu frame ["srr0", "r1"])
  else if cpu = "amd64" then
    printRegisters64 (validRegisters masks cpu frame amd64Registers)
  else if cpu = "sparc" then
    printRegisters32 (validRegisters masks cpu frame ["sp", "fp", "pc"])
  else if cpu = "arm" then
    printRegisters32 (validRegisters masks cpu frame armRegisters)
  else if cpu = "arm64" then
    printRegisters64 (validRegisters masks cpu frame arm64Registers)
  else if cpu = "mips" ∨ cpu = "mips64" then
    printRegisters64 (validRegisters masks "mips" frame mipsRegisters)
  else []

/-- What is printed for a frame: its first line, and the rest. -/
structure PrintedFrame where
  line : List Token
  rest : List Token
  deriving DecidableEq, Repr

/-- The first line of a frame in `PrintStack`. -/
def printLine (frameIndex : ℕ) (frame : StackFrame) : List Token :=
  let instructionAddress := frame.returnAddress
  [.dec 2 frameIndex, .text "  "] ++
    match frame.module with
    | some module =>
        .text (file module.codeFile) ::
          if frame.functionName ≠ "" then
            [.text "!", .text frame.functionName] ++
              if frame.sourceFileName ≠ "" then
                [.text " [", .text (file frame.sourceFileName), .text " : ",
                  .dec 0 frame.sourceLine, .text " + 0x",
                  .hex 0 (instructionAddress - frame.sourceLineBase),
                  .text "]"]
              else
                [.text " + 0x",
                  .hex 0 (instructionAddress - frame.functionBase)]
          else
            [.text " + 0x", .hex 0 (instructionAddress - module.baseAddress)]
    | none => [.text "0x", .hex 0 instructionAddress]

/-- The output of `PrintStack` and of the loops that call it depends on these:
the constants of the registers, whether stack contents are printed, and what
`PrintStackContents` prints for a frame and the one after it. -/
structure Printer (ρ : Type) where
  masks : ContextMasks
  outputStackContents : Bool
  printStackContents : ρ → StackFrame → StackFrame → List Token

/-- Round `frameIndex` of the loop in `PrintStack`. -/
def printFrame {ρ : Type} (printer : Printer ρ) (cpu : String) (memory : ρ)
    (stack : CallStack) (frameIndex : ℕ) : Option PrintedFrame := do
  let frame ← vecAt stack.frames frameIndex
  let contents :=
    if printer.outputStackContents then
      match stack.frames[frameIndex + 1]? with
      | some prev => printer.printStackContents memory frame prev
      | none => []
    else []
  some
    { line := printLine frameIndex frame
      rest := [.text "\n "] ++ printFrameRegisters printer.masks cpu frame ++
        [.text "\n    Found by: ", .text frame.trustDescription,
          .text "\n"] ++ contents }

/-- What is printed for a stack: a line when it has no frames, and its frames. -/
structure PrintedStack where
  noFrames : List Token
  frames : List PrintedFrame
  deriving DecidableEq, Repr

/-- `PrintStack`. -/
def printStack {ρ : Type} (printer : Printer ρ) (cpu : String) (memory : ρ)
    (stack : CallStack) : Option PrintedStack := do
  let frameCount := intSize stack.frames
  let frames ← visit (fun _ => True) (printFrame printer cpu memory stack)
    (fun frames frame => frames ++ [frame]) (List.range frameCount.toNat) []
  some
    { noFrames := if frameCount = 0 then [.text " <no frames>\n"] else []
      frames := frames }

/-- What is printed for a thread: its heading, and its stack. -/
structure PrintedThread where
  heading : List Token
  stack : PrintedStack
  deriving DecidableEq, Repr

/-- A thread in `PrintProcessState`, under its heading. -/
def printThread {ρ : Type} (printer : Printer ρ) (state : ProcessState ρ)
    (heading : List Token) (threadIndex : ℤ) : Option PrintedThread := do
  let stack ← vecAt state.threads threadIndex
  let memory ← vecAt state.threadMemoryRegions threadIndex
  let stack ← printStack printer state.cpu memory stack
  some { heading := heading, stack := stack }

/-- The heading of the thread that requested the dump. -/
def requestingHeading {ρ : Type} (state : ProcessState ρ) : List Token :=
  [.text "\n", .text "Thread ", .dec 0 state.requestingThread, .text " (",
    .text (if state.crashed then "crashed" else "requested dump, did not crash"),
    .text ")\n"]

/-- The heading of any other thread. -/
def threadHeading (threadIndex : ℕ) : List Token :=
  [.text "\n", .text "Thread ", .dec 0 threadIndex, .text "\n"]

/-- The loop over all threads in `PrintProcessState`. -/
def printThreadLoop {ρ : Type} (printer : Printer ρ) (state : ProcessState ρ)
    (printed : List PrintedThread) : Option (List PrintedThread) :=
  let threadCount := intSize state.threads
  visit (fun threadIndex : ℕ => (threadIndex : ℤ) ≠ state.requestingThread)
    (fun threadIndex =>
      printThread printer state (threadHeading threadIndex) threadIndex)
    (fun printed thread => printed ++ [thread])
    (List.range threadCount.toNat) printed

/-- The threads in `PrintProcessState`: the one that requested the dump first,
if it is known. -/
def printThreads {ρ : Type} (printer : Printer ρ) (state : ProcessState ρ) :
    Option (List PrintedThread) :=
  if state.requestingThread ≠ -1 then do
    let thread ← printThread printer state (requestingHeading state)
      state.requestingThread
    printThreadLoop printer state [thread]
  else printThreadLoop printer state []

/-! ## The structured trace -/

/-- What the integer fields of the records hold after an assignment; their types
are declared elsewhere. -/
structure FieldTypes where
  threadId : ℤ → ℤ
  frameId : ℤ → ℤ
  srcFileOffset : ℤ → ℤ
  funcOffset : UInt64 → UInt64
  regValue : UInt64 → UInt64
  crashAddress : UInt64 → UInt64
  baseAddr : UInt64 → UInt64
  size : UInt64 → UInt64

/-- The fields that number threads and frames and hold code offsets are wide
enough for them. -/
structure FieldTypes.Wide (types : FieldTypes) : Prop where
  threadId : ∀ i : ℤ, 0 ≤ i → i < 2 ^ 31 → types.threadId i = i
  frameId : ∀ i : ℤ, 0 ≤ i → i < 2 ^ 31 → types.frameId i = i
  funcOffset : ∀ x, types.funcOffset x = x

/-- A `RegInfo`. -/
structure RegInfo where
  regName : String
  regValue : UInt64
  deriving DecidableEq, Repr

/-- A `FrameInfo`; the line of the source file may be unassigned. -/
structure FrameInfo where
  frameId : ℤ
  binFileName : String
  funcName : String
  srcFileName : String
  srcFileOffset : Option ℤ
  funcOffset : UInt64
  regs : List RegInfo
  deriving DecidableEq, Repr

/-- A `ThreadInfo`. -/
structure ThreadInfo where
  threadId : ℤ
  frames : List FrameInfo
  deriving DecidableEq, Repr

/-- A `ModuleInfo`. -/
structure ModuleInfo where
  name : String
  version : String
  symIssues : String
  baseAddr : UInt64
  size : UInt64
  deriving DecidableEq, Repr

/-- An `RfStackTrace`; the crash address may be unassigned. -/
structure RfStackTrace where
  cpu : String
  os : String
  crashCause : String
  crashAddress : Option UInt64
  threads : List ThreadInfo
  modules : List ModuleInfo
  deriving DecidableEq, Repr

/-- A new trace. -/
def RfStackTrace.empty : RfStackTrace where
  cpu := ""
  os := ""
  crashCause := ""
  crashAddress := none
  threads := []
  modules := []

/-- `addFrame`. -/
def ThreadInfo.addFrame (thread : ThreadInfo) (frame : FrameInfo) :
    ThreadInfo :=
  { thread with frames := thread.frames ++ [frame] }

/-- `addThread`. -/
def RfStackTrace.addThread (trace : RfStackTrace) (thread : ThreadInfo) :
    RfStackTrace :=
  { trace with threads := trace.threads ++ [thread] }

/-- `addModule`. -/
def RfStackTrace.addModule (trace : RfStackTrace) (module : ModuleInfo) :
    RfStackTrace :=
  { trace with modules := trace.modules ++ [module] }

/-- The registers of a frame in `RfPrintStack`. -/
def rfFrameRegisters (types : FieldTypes) (masks : ContextMasks) (cpu : String)
    (frame : StackFrame) : List RegInfo :=
  let registers :=
    if cpu = "arm" then validRegisters masks cpu frame armRegisters
    else if cpu = "x86" then validX86Registers masks frame
    else if cpu = "amd64" then validRegisters masks cpu frame amd64Registers
    else []
  registers.map fun register =>
    { regName := register.1, regValue := types.regValue register.2 }

/-- The record of a frame in `RfPrintStack`. -/
def rfFrame (types : FieldTypes) (masks : ContextMasks) (cpu : String)
    (frameIndex : ℕ) (frame : StackFrame) : FrameInfo :=
  -- the offset is assigned in each of the cases below
  let instructionAddress := frame.returnAddress
  let frmInfo : FrameInfo :=
    { frameId := types.frameId frameIndex
      binFileName := ""
      funcName := ""
      srcFileName := ""
      srcFileOffset := none
      funcOffset := 0
      regs := rfFrameRegisters types masks cpu frame }
  match frame.module with
  | some module =>
      let frmInfo := { frmInfo with binFileName := file module.codeFile }
      if frame.functionName ≠ "" then
        let frmInfo := { frmInfo with funcName := frame.functionName }
        if frame.sourceFileName ≠ "" then
          { frmInfo with
            srcFileName := file frame.sourceFileName
            srcFileOffset := some (types.srcFileOffset frame.sourceLine)
            funcOffset := types.funcOffset
              (instructionAddress - frame.sourceLineBase) }
        else
          { frmInfo with
            funcOffset := types.funcOffset
              (instructionAddress - frame.functionBase) }
      else
        { frmInfo with
          funcOffset := types.funcOffset
            (instructionAddress - module.baseAddress) }
  | none =>
      { frmInfo with funcOffset := types.funcOffset instructionAddress }

/-- `RfPrintStack`. -/
def rfPrintStack (types : FieldTypes) (masks : ContextMasks) (cpu : String)
    (stack : CallStack) (threadInfo : ThreadInfo) : Option ThreadInfo :=
  let frameCount := intSize stack.frames
  if frameCount = 0 then some threadInfo
  else
    visit (fun _ => True)
      (fun frameIndex : ℕ =>
        (vecAt stack.frames frameIndex).map (rfFrame types masks cpu frameIndex))
      ThreadInfo.addFrame (List.range frameCount.toNat) threadInfo

/-- A thread in `RfPrintProcessState`. -/
def rfThread {ρ : Type} (types : FieldTypes) (masks : ContextMasks)
    (state : ProcessState ρ) (threadIndex : ℤ) : Option ThreadInfo := do
  let crashThreadInfo : ThreadInfo :=
    { threadId := types.threadId threadIndex, frames := [] }
  let stack ← vecAt state.threads threadIndex
  let _ ← vecAt state.threadMemoryRegions threadIndex
  rfPrintStack types masks state.cpu stack crashThreadInfo

/-- The loop over all threads in `RfPrintProcessState`. -/
def rfThreadLoop {ρ : Type} (types : FieldTypes) (masks : ContextMasks)
    (state : ProcessState ρ) (trace : RfStackTrace) : Option RfStackTrace :=
  let threadCount := intSize state.threads
  visit (fun threadIndex : ℕ => (threadIndex : ℤ) ≠ state.requestingThread)
    (fun threadIndex => rfThread types masks state threadIndex)
    RfStackTrace.addThread (List.range threadCount.toNat) trace

/-- `ContainsModule`. -/
def containsModule (modules : List CodeModule) (module : CodeModule) : Bool :=
  modules.any fun other =>
    module.debugFile == other.debugFile &&
      module.debugIdentifier == other.debugIdentifier

/-- `RfPrintModule`. -/
def rfPrintModule (types : FieldTypes)
    (modulesWithoutSymbols modulesWithCorruptSymbols : List CodeModule)
    (module : CodeModule) : ModuleInfo :=
  let symbolIssues :=
    if containsModule modulesWithoutSymbols module then
      "  (WARNING: No symbols, " ++ file module.debugFile ++ ", " ++
        module.debugIdentifier ++ ")"
    else if containsModule modulesWithCorruptSymbols module then
      "  (WARNING: Corrupt symbols, " ++ file module.debugFile ++ ", " ++
        module.debugIdentifier ++ ")"
    else ""
  { name := file module.codeFile
    version := if module.version = "" then "???" else module.version
    symIssues := symbolIssues
    baseAddr := types.baseAddr module.baseAddress
    size := types.size (module.size - 1) }

/-- `RfPrintModules`. -/
def rfPrintModules {ρ : Type} (types : FieldTypes) (state : ProcessState ρ)
    (trace : RfStackTrace) : RfStackTrace :=
  match state.modules with
  | none => trace
  | some modules =>
      modules.foldl
        (fun trace module =>
          trace.addModule
            (rfPrintModule types state.modulesWithoutSymbols
              state.modulesWithCorruptSymbols module))
        trace

/-- `RfPrintProcessState` up to the threads: the system and the crash. -/
def rfPrintSystem {ρ : Type} (types : FieldTypes) (state : ProcessState ρ)
    (trace : RfStackTrace) : RfStackTrace :=
  let trace := { trace with
    cpu := state.cpu ++ " [" ++ state.cpuInfo ++ "]"
    os := state.os ++ " [" ++ state.osVersion ++ "]" }
  if state.crashed then
    { trace with
      crashCause := state.crashReason
      crashAddress := some (types.crashAddress state.crashAddress) }
  else { trace with crashCause := "No Crash" }

/-- The threads in `RfPrintProcessState`: the one that requested the dump first,
if it is known. -/
def rfThreads {ρ : Type} (types : FieldTypes) (masks : ContextMasks)
    (state : ProcessState ρ) (trace : RfStackTrace) : Option RfStackTrace :=
  if state.requestingThread ≠ -1 then do
    let crashThreadInfo ← rfThread types masks state state.requestingThread
    rfThreadLoop types masks state (trace.addThread crashThreadInfo)
  else rfThreadLoop types masks state trace

/-- `RfPrintProcessState`. -/
def rfPrintProcessState {ρ : Type} (types : FieldTypes) (masks : ContextMasks)
    (state : ProcessState ρ) (trace : RfStackTrace) : Option RfStackTrace :=
  (rfThreads types masks state (rfPrintSystem types state trace)).map
    (rfPrintModules types state)

end MiscCode.StackTrace
