import MiscCode.StackWalk.Runs

/-!
# The walkers for ARM

A caller is found with call frame information, else along the frame pointers,
else by scanning the stack for a return address.  The two walkers differ in the
width of a word, in the registers a callee has to preserve, and in when they
follow frame pointers.

The registers are numbered as in `iregs`.  What a new frame holds and how the
stack is scanned is declared in headers that are not in the repository.
-/

namespace MiscCode
namespace StackWalk

open CallFrameInfo Fuel

/-! ## Contexts -/

/-- A context with its `context_validity`, one bit for each register. -/
structure RegisterFile (V : Type) where
  iregs : ℕ → V
  valid : ℕ → Bool

section RegisterFile

variable {V : Type}

/-- `iregs[i] = value`. -/
def RegisterFile.assign (file : RegisterFile V) (i : ℕ) (value : V) :
    RegisterFile V :=
  { file with iregs := fun j => if j = i then value else file.iregs j }

/-- `context_validity |= RegisterValidFlag(i)`. -/
def RegisterFile.validate (file : RegisterFile V) (i : ℕ) : RegisterFile V :=
  { file with valid := fun j => j = i || file.valid j }

/-- The dictionary of the valid registers of the callee. -/
def RegisterFile.dictionary (file : RegisterFile V) (names : List String) :
    RegisterValues V :=
  names.zipIdx.foldl
    (fun registers entry =>
      if file.valid entry.2 then
        registers.set entry.1.toList (file.iregs entry.2)
      else registers)
    fun _ => none

/-- The loop that fills the context of the caller: registers that were
recovered, and the others that a callee preserves. -/
def RegisterFile.recovered (last : RegisterFile V) (names : List String)
    (calleeSaves : ℕ → Bool) (callerRegisters : RegisterValues V)
    (newFile : RegisterFile V) : RegisterFile V :=
  names.zipIdx.foldl
    (fun file entry =>
      match callerRegisters entry.1.toList with
      | some value => (file.validate entry.2).assign entry.2 value
      | none =>
          if calleeSaves entry.2 && last.valid entry.2 then
            (file.validate entry.2).assign entry.2 (last.iregs entry.2)
          else file)
    newFile

/-- A register that the loop has not filled takes a pseudoregister's value. -/
def RegisterFile.orElse (file : RegisterFile V) (i : ℕ)
    (callerRegisters : RegisterValues V) (name : Text) : RegisterFile V :=
  if file.valid i then file
  else
    match callerRegisters name with
    | some value => (file.validate i).assign i value
    | none => file

@[simp] theorem RegisterFile.assign_valid (file : RegisterFile V) (i j : ℕ)
    (value : V) : (file.assign i value).valid j = file.valid j := rfl

@[simp] theorem RegisterFile.validate_valid (file : RegisterFile V) (i j : ℕ) :
    (file.validate i).valid j = (j = i || file.valid j) := rfl

end RegisterFile

/-! ## `StackwalkerARM64` -/

/-- The registers named in `stackwalker_arm64.cc`. -/
def arm64RegisterNames : List String :=
  ["x0", "x1", "x2", "x3", "x4", "x5", "x6", "x7", "x8", "x9", "x10", "x11",
    "x12", "x13", "x14", "x15", "x16", "x17", "x18", "x19", "x20", "x21",
    "x22", "x23", "x24", "x25", "x26", "x27", "x28", "x29", "x30", "sp", "pc"]

/-- `MD_CONTEXT_ARM64_REG_FP`, which is x29. -/
def arm64FP : ℕ := 29

/-- `MD_CONTEXT_ARM64_REG_LR`, which is x30. -/
def arm64LR : ℕ := 30

/-- `MD_CONTEXT_ARM64_REG_SP`. -/
def arm64SP : ℕ := 31

/-- `MD_CONTEXT_ARM64_REG_PC`. -/
def arm64PC : ℕ := 32

/-- A `StackwalkerARM64` and what its methods call: reads of the memory, the
evaluation of expressions over the memory, and the scan for a return address,
which asks the symbolizer about addresses. -/
structure StackwalkerARM64 (σ μ : Type) where
  symbolizer : FrameSymbolizer σ μ
  context : Option (ℕ → UInt64)
  memory : Option (UInt64 → Option UInt64)
  evaluateForValue : Text → RegisterValues UInt64 → Option UInt64
  scanForReturnAddress : UInt64 → (isContextFrame : Bool) → σ →
    Option (UInt64 × UInt64) × σ
  newFrame : Frame μ (RegisterFile UInt64)
  maxFrames : ℕ
  maxFramesScanned : ℕ

section ARM64

variable {σ μ : Type}

/-- A new frame that was found in some way. -/
def StackwalkerARM64.frame (walker : StackwalkerARM64 σ μ) (trust : FrameTrust)
    (file : RegisterFile UInt64) : Frame μ (RegisterFile UInt64) where
  base := { walker.newFrame.base with trust := trust }
  cpu := file

/-- `GetContextFrame`. -/
def StackwalkerARM64.getContextFrame (walker : StackwalkerARM64 σ μ) :
    Option (Frame μ (RegisterFile UInt64)) :=
  walker.context.map fun context =>
    let frame := walker.frame .context { iregs := context, valid := fun _ => true }
    { frame with
      base := { frame.base with instruction := frame.cpu.iregs arm64PC } }

/-- `GetCallerByCFIFrameInfo`. -/
def StackwalkerARM64.getCallerByCFIFrameInfo (walker : StackwalkerARM64 σ μ)
    (last : RegisterFile UInt64) (cfiFrameInfo : FrameInfo) :
    Option (Frame μ (RegisterFile UInt64)) := do
  let calleeRegisters := last.dictionary arm64RegisterNames
  let callerRegisters ←
    cfiFrameInfo.findCallerRegs walker.evaluateForValue calleeRegisters
  let file := last.recovered arm64RegisterNames (fun i => 19 ≤ i && i ≤ 29)
    callerRegisters walker.newFrame.cpu
  let file := file.orElse arm64PC callerRegisters raName
  let file := file.orElse arm64SP callerRegisters cfaName
  if file.valid arm64SP && file.valid arm64PC then some (walker.frame .cfi file)
  else none

/-- `GetCallerByFramePointer`. -/
def StackwalkerARM64.getCallerByFramePointer (walker : StackwalkerARM64 σ μ)
    (memory : UInt64 → Option UInt64) (last : RegisterFile UInt64) :
    Option (Frame μ (RegisterFile UInt64)) := do
  let lastFP := last.iregs arm64FP
  let callerFP ← (if lastFP ≠ 0 then memory lastFP else some 0)
  let callerLR ← (if lastFP ≠ 0 then memory (lastFP + 8) else some 0)
  let callerSP := if lastFP ≠ 0 then lastFP + 16 else last.iregs arm64SP
  let file := (last.assign arm64FP callerFP).assign arm64SP callerSP
  let file := (file.assign arm64PC (last.iregs arm64LR)).assign arm64LR callerLR
  some (walker.frame .fp
    { file with
      valid := fun i =>
        i = arm64PC || i = arm64LR || i = arm64FP || i = arm64SP })

/-- `GetCallerByStackScan`. -/
def StackwalkerARM64.getCallerByStackScan (walker : StackwalkerARM64 σ μ)
    (isContextFrame : Bool) (last : RegisterFile UInt64) (s : σ) :
    Option (Frame μ (RegisterFile UInt64)) × σ :=
  let scanned :=
    walker.scanForReturnAddress (last.iregs arm64SP) isContextFrame s
  (scanned.1.map fun found =>
    let file := (last.assign arm64PC found.2).assign arm64SP (found.1 + 8)
    walker.frame .scan
      { file with valid := fun i => i = arm64PC || i = arm64SP }, scanned.2)

/-- The registers of ARM64; an instruction has four bytes. -/
def arm64Registers : Registers (RegisterFile UInt64) where
  pc := fun file => file.iregs arm64PC
  sp := fun file => file.iregs arm64SP
  validPC := fun file => file.valid arm64PC
  callSite := fun file => file.iregs arm64PC - 4

/-- `GetCallerFrame`. -/
def StackwalkerARM64.getCallerFrame (walker : StackwalkerARM64 σ μ)
    (frames : List (Frame μ (RegisterFile UInt64))) (stackScanAllowed : Bool)
    (s : σ) : Option (Frame μ (RegisterFile UInt64)) × σ :=
  match walker.memory, frames.getLast? with
  | some memory, some last =>
      let frame := findCaller
        ((walker.symbolizer.findCFIFrameInfo last.base s).bind
          (walker.getCallerByCFIFrameInfo last.cpu))
        (walker.getCallerByFramePointer memory last.cpu) stackScanAllowed
        (walker.getCallerByStackScan (frames.length = 1) last.cpu s) s
      (frame.1.bind (arm64Registers.accept last.cpu), frame.2)
  | _, _ => (none, s)

/-- The methods of `Stackwalker` for ARM64. -/
def StackwalkerARM64.toStackwalker (walker : StackwalkerARM64 σ μ) :
    Stackwalker σ μ (RegisterFile UInt64) where
  symbolizer := walker.symbolizer
  getContextFrame := walker.getContextFrame
  getCallerFrame := walker.getCallerFrame
  maxFrames := walker.maxFrames
  maxFramesScanned := walker.maxFramesScanned

variable {walker : StackwalkerARM64 σ μ} {last : RegisterFile UInt64}
  {frame : Frame μ (RegisterFile UInt64)}

theorem arm64_byCFI {cfiFrameInfo : FrameInfo}
    (h : walker.getCallerByCFIFrameInfo last cfiFrameInfo = some frame) :
    frame.cpu.valid arm64PC = true ∧ frame.base.trust = .cfi := by
  simp only [StackwalkerARM64.getCallerByCFIFrameInfo, Option.bind_eq_bind,
    Option.bind_eq_some_iff] at h
  obtain ⟨callerRegisters, -, h⟩ := h
  split at h
  · rename_i hessentials
    obtain rfl := Option.some.inj h
    exact ⟨(Bool.and_eq_true_iff.mp hessentials).2, rfl⟩
  · cases h

theorem arm64_byFramePointer {memory : UInt64 → Option UInt64}
    (h : walker.getCallerByFramePointer memory last = some frame) :
    frame.cpu.valid arm64PC = true ∧ frame.base.trust = .fp := by
  simp only [StackwalkerARM64.getCallerByFramePointer, Option.bind_eq_bind,
    Option.bind_eq_some_iff] at h
  obtain ⟨callerFP, -, callerLR, -, h⟩ := h
  obtain rfl := Option.some.inj h
  exact ⟨rfl, rfl⟩

theorem arm64_byStackScan {isContextFrame : Bool} {s : σ}
    (h : (walker.getCallerByStackScan isContextFrame last s).1 = some frame) :
    frame.cpu.valid arm64PC = true ∧ frame.base.trust = .scan := by
  simp only [StackwalkerARM64.getCallerByStackScan, Option.map_eq_some_iff] at h
  obtain ⟨found, -, rfl⟩ := h
  exact ⟨rfl, rfl⟩

theorem arm64_unwinds (walker : StackwalkerARM64 σ μ) :
    walker.toStackwalker.Unwinds arm64Registers := by
  apply unwinds_of_foundAs
  · intro frame h
    obtain ⟨context, -, rfl⟩ := Option.map_eq_some_iff.mp h
    exact ⟨rfl, rfl, rfl⟩
  · intro frames allowed s frame h
    change (walker.getCallerFrame frames allowed s).1 = some frame at h
    cases hmemory : walker.memory with
    | none => simp [StackwalkerARM64.getCallerFrame, hmemory] at h
    | some memory =>
        cases hlast : frames.getLast? with
        | none => simp [StackwalkerARM64.getCallerFrame, hmemory, hlast] at h
        | some last =>
            simp only [StackwalkerARM64.getCallerFrame, hmemory, hlast,
              Option.bind_eq_some_iff] at h
            obtain ⟨found, hfound, haccept⟩ := h
            refine ⟨last, found, rfl, haccept, findCaller_foundAs
              (fun frame h => ?_) (fun _ => arm64_byFramePointer)
              (fun _ => arm64_byStackScan) hfound⟩
            obtain ⟨info, -, hcfi⟩ := Option.bind_eq_some_iff.mp h
            exact arm64_byCFI hcfi

/-- Every walk on ARM64 ends, with a stack that is as it should be. -/
theorem arm64_wellWalked [DecidableEq μ] (walker : StackwalkerARM64 σ μ)
    (before before' : List μ) (symbols : σ) :
    ∃ r, EndsIn () (fun fuel =>
        walker.toStackwalker.walk fuel before before' symbols) (.ok r) ∧
      r.2.frames.length ≤ walker.maxFrames + 1 ∧
      WellWalked arm64Registers walker.maxFramesScanned r.2.frames ∧
      (r.1 = true → r.2.frames.head? = walker.getContextFrame.map fun found =>
        walker.toStackwalker.filled found symbols) := by
  obtain ⟨r, hr, lookups, hended⟩ := walk_ended walker.toStackwalker before
    before' symbols
  exact ⟨r, hr, hended.length_le, hended.walks.wellWalked (arm64_unwinds walker),
    hended.head?_frames⟩

end ARM64

/-! ## `StackwalkerARM` -/

/-- The registers named in `stackwalker_arm.cc`. -/
def armRegisterNames : List String :=
  ["r0", "r1", "r2", "r3", "r4", "r5", "r6", "r7", "r8", "r9", "r10", "r11",
    "r12", "sp", "lr", "pc", "f0", "f1", "f2", "f3", "f4", "f5", "f6", "f7",
    "fps", "cpsr"]

/-- `MD_CONTEXT_ARM_REG_SP`. -/
def armSP : ℕ := 13

/-- `MD_CONTEXT_ARM_REG_LR`. -/
def armLR : ℕ := 14

/-- `MD_CONTEXT_ARM_REG_PC`. -/
def armPC : ℕ := 15

/-- A `StackwalkerARM`; without a register for frame pointers `fp_register_` is
-1. -/
structure StackwalkerARM (σ μ : Type) where
  symbolizer : FrameSymbolizer σ μ
  context : Option (ℕ → UInt32)
  fpRegister : Option ℕ
  memory : Option (UInt32 → Option UInt32)
  evaluateForValue : Text → RegisterValues UInt32 → Option UInt32
  scanForReturnAddress : UInt32 → (isContextFrame : Bool) → σ →
    Option (UInt32 × UInt32) × σ
  newFrame : Frame μ (RegisterFile UInt32)
  maxFrames : ℕ
  maxFramesScanned : ℕ

section ARM

variable {σ μ : Type}

/-- A new frame that was found in some way. -/
def StackwalkerARM.frame (walker : StackwalkerARM σ μ) (trust : FrameTrust)
    (file : RegisterFile UInt32) : Frame μ (RegisterFile UInt32) where
  base := { walker.newFrame.base with trust := trust }
  cpu := file

/-- `GetContextFrame`. -/
def StackwalkerARM.getContextFrame (walker : StackwalkerARM σ μ) :
    Option (Frame μ (RegisterFile UInt32)) :=
  walker.context.map fun context =>
    let frame := walker.frame .context { iregs := context, valid := fun _ => true }
    { frame with
      base := { frame.base with
        instruction := (frame.cpu.iregs armPC).toUInt64 } }

/-- The program counter in `GetCallerByCFIFrameInfo`: where frame pointers are
followed, the rules are for the link register. -/
def StackwalkerARM.recoverPC (walker : StackwalkerARM σ μ)
    (last file : RegisterFile UInt32) (callerRegisters : RegisterValues UInt32) :
    RegisterFile UInt32 :=
  if walker.fpRegister.isNone then file.orElse armPC callerRegisters raName
  else if file.valid armPC then file
  else
    match callerRegisters raName with
    | some value =>
        (((file.validate armPC).validate armLR).assign armLR value).assign
          armPC (last.iregs armLR)
    | none => file

/-- `GetCallerByCFIFrameInfo`. -/
def StackwalkerARM.getCallerByCFIFrameInfo (walker : StackwalkerARM σ μ)
    (last : RegisterFile UInt32) (cfiFrameInfo : FrameInfo) :
    Option (Frame μ (RegisterFile UInt32)) := do
  let calleeRegisters := last.dictionary armRegisterNames
  let callerRegisters ←
    cfiFrameInfo.findCallerRegs walker.evaluateForValue calleeRegisters
  let file := last.recovered armRegisterNames (fun i => 4 ≤ i && i ≤ 11)
    callerRegisters walker.newFrame.cpu
  let file := walker.recoverPC last file callerRegisters
  let file := file.orElse armSP callerRegisters cfaName
  if file.valid armSP && file.valid armPC then some (walker.frame .cfi file)
  else none

/-- `GetCallerByFramePointer`. -/
def StackwalkerARM.getCallerByFramePointer (walker : StackwalkerARM σ μ)
    (fpRegister : ℕ) (memory : UInt32 → Option UInt32)
    (last : RegisterFile UInt32) : Option (Frame μ (RegisterFile UInt32)) :=
  if !last.valid fpRegister then none
  else do
    let lastFP := last.iregs fpRegister
    let callerFP ← (if lastFP ≠ 0 then memory lastFP else some 0)
    let callerLR ← (if lastFP ≠ 0 then memory (lastFP + 4) else some 0)
    let callerSP := if lastFP ≠ 0 then lastFP + 8 else last.iregs armSP
    let file := (last.assign fpRegister callerFP).assign armSP callerSP
    let file := (file.assign armPC (last.iregs armLR)).assign armLR callerLR
    some (walker.frame .fp
      { file with
        valid := fun i =>
          i = armPC || i = armLR || i = fpRegister || i = armSP })

/-- `GetCallerByStackScan`. -/
def StackwalkerARM.getCallerByStackScan (walker : StackwalkerARM σ μ)
    (isContextFrame : Bool) (last : RegisterFile UInt32) (s : σ) :
    Option (Frame μ (RegisterFile UInt32)) × σ :=
  let scanned :=
    walker.scanForReturnAddress (last.iregs armSP) isContextFrame s
  (scanned.1.map fun found =>
    let file := (last.assign armPC found.2).assign armSP (found.1 + 4)
    walker.frame .scan
      { file with valid := fun i => i = armPC || i = armSP }, scanned.2)

/-- The registers of ARM; the place of a call is inside the instruction in front
of the return address. -/
def armRegisters : Registers (RegisterFile UInt32) where
  pc := fun file => (file.iregs armPC).toUInt64
  sp := fun file => (file.iregs armSP).toUInt64
  validPC := fun file => file.valid armPC
  callSite := fun file => (file.iregs armPC - 2).toUInt64

/-- `GetCallerFrame`. -/
def StackwalkerARM.getCallerFrame (walker : StackwalkerARM σ μ)
    (frames : List (Frame μ (RegisterFile UInt32))) (stackScanAllowed : Bool)
    (s : σ) : Option (Frame μ (RegisterFile UInt32)) × σ :=
  match walker.memory, frames.getLast? with
  | some memory, some last =>
      let frame := findCaller
        ((walker.symbolizer.findCFIFrameInfo last.base s).bind
          (walker.getCallerByCFIFrameInfo last.cpu))
        (walker.fpRegister.bind fun fpRegister =>
          walker.getCallerByFramePointer fpRegister memory last.cpu)
        stackScanAllowed
        (walker.getCallerByStackScan (frames.length = 1) last.cpu s) s
      (frame.1.bind (armRegisters.accept last.cpu), frame.2)
  | _, _ => (none, s)

/-- The methods of `Stackwalker` for ARM. -/
def StackwalkerARM.toStackwalker (walker : StackwalkerARM σ μ) :
    Stackwalker σ μ (RegisterFile UInt32) where
  symbolizer := walker.symbolizer
  getContextFrame := walker.getContextFrame
  getCallerFrame := walker.getCallerFrame
  maxFrames := walker.maxFrames
  maxFramesScanned := walker.maxFramesScanned

variable {walker : StackwalkerARM σ μ} {last : RegisterFile UInt32}
  {frame : Frame μ (RegisterFile UInt32)}

theorem arm_byCFI {cfiFrameInfo : FrameInfo}
    (h : walker.getCallerByCFIFrameInfo last cfiFrameInfo = some frame) :
    frame.cpu.valid armPC = true ∧ frame.base.trust = .cfi := by
  simp only [StackwalkerARM.getCallerByCFIFrameInfo, Option.bind_eq_bind,
    Option.bind_eq_some_iff] at h
  obtain ⟨callerRegisters, -, h⟩ := h
  split at h
  · rename_i hessentials
    obtain rfl := Option.some.inj h
    exact ⟨(Bool.and_eq_true_iff.mp hessentials).2, rfl⟩
  · cases h

theorem arm_byFramePointer {fpRegister : ℕ} {memory : UInt32 → Option UInt32}
    (h : walker.getCallerByFramePointer fpRegister memory last = some frame) :
    frame.cpu.valid armPC = true ∧ frame.base.trust = .fp := by
  rw [StackwalkerARM.getCallerByFramePointer] at h
  split at h
  · cases h
  · simp only [Option.bind_eq_bind, Option.bind_eq_some_iff] at h
    obtain ⟨callerFP, -, callerLR, -, h⟩ := h
    obtain rfl := Option.some.inj h
    exact ⟨rfl, rfl⟩

theorem arm_byStackScan {isContextFrame : Bool} {s : σ}
    (h : (walker.getCallerByStackScan isContextFrame last s).1 = some frame) :
    frame.cpu.valid armPC = true ∧ frame.base.trust = .scan := by
  simp only [StackwalkerARM.getCallerByStackScan, Option.map_eq_some_iff] at h
  obtain ⟨found, -, rfl⟩ := h
  exact ⟨rfl, rfl⟩

theorem arm_unwinds (walker : StackwalkerARM σ μ) :
    walker.toStackwalker.Unwinds armRegisters := by
  apply unwinds_of_foundAs
  · intro frame h
    obtain ⟨context, -, rfl⟩ := Option.map_eq_some_iff.mp h
    exact ⟨rfl, rfl, rfl⟩
  · intro frames allowed s frame h
    change (walker.getCallerFrame frames allowed s).1 = some frame at h
    cases hmemory : walker.memory with
    | none => simp [StackwalkerARM.getCallerFrame, hmemory] at h
    | some memory =>
        cases hlast : frames.getLast? with
        | none => simp [StackwalkerARM.getCallerFrame, hmemory, hlast] at h
        | some last =>
            simp only [StackwalkerARM.getCallerFrame, hmemory, hlast,
              Option.bind_eq_some_iff] at h
            obtain ⟨found, hfound, haccept⟩ := h
            refine ⟨last, found, rfl, haccept, findCaller_foundAs
              (fun frame h => ?_) (fun frame h => ?_)
              (fun _ => arm_byStackScan) hfound⟩
            · obtain ⟨info, -, hcfi⟩ := Option.bind_eq_some_iff.mp h
              exact arm_byCFI hcfi
            · obtain ⟨fpRegister, -, hfp⟩ := Option.bind_eq_some_iff.mp h
              exact arm_byFramePointer hfp

/-- Every walk on ARM ends, with a stack that is as it should be. -/
theorem arm_wellWalked [DecidableEq μ] (walker : StackwalkerARM σ μ)
    (before before' : List μ) (symbols : σ) :
    ∃ r, EndsIn () (fun fuel =>
        walker.toStackwalker.walk fuel before before' symbols) (.ok r) ∧
      r.2.frames.length ≤ walker.maxFrames + 1 ∧
      WellWalked armRegisters walker.maxFramesScanned r.2.frames ∧
      (r.1 = true → r.2.frames.head? = walker.getContextFrame.map fun found =>
        walker.toStackwalker.filled found symbols) := by
  obtain ⟨r, hr, lookups, hended⟩ := walk_ended walker.toStackwalker before
    before' symbols
  exact ⟨r, hr, hended.length_le, hended.walks.wellWalked (arm_unwinds walker),
    hended.head?_frames⟩

end ARM

end StackWalk
end MiscCode
