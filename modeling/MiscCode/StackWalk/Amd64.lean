import MiscCode.StackWalk.Runs

/-!
# The walker for AMD64

The ways to find a caller are those of the other processors.  A frame pointer
is followed only where it can be one, a scan also looks for the caller's frame
pointer, and in the sandbox of Native Client addresses have 32 bits.

What the rules of call frame information recover and how the stack is scanned
is declared in headers that are not in the repository.
-/

namespace MiscCode
namespace StackWalk

open CallFrameInfo Fuel

/-- The registers of `cfi_register_map_`. -/
inductive Amd64Register where
  | rax | rdx | rcx | rbx | rsi | rdi | rbp | rsp | r8 | r9 | r10 | r11 | r12
  | r13 | r14 | r15 | rip
  deriving DecidableEq, Repr

/-- A context with its `context_validity`, one bit for each register. -/
structure Amd64Context where
  value : Amd64Register → UInt64
  valid : Amd64Register → Bool

/-- An assignment to a register. -/
def Amd64Context.assign (context : Amd64Context) (register : Amd64Register)
    (value : UInt64) : Amd64Context :=
  { context with value := fun other =>
      if other = register then value else context.value other }

@[simp] theorem Amd64Context.assign_valid (context : Amd64Context)
    (register : Amd64Register) (value : UInt64) :
    (context.assign register value).valid = context.valid := rfl

/-- `context_validity |= ...`. -/
def Amd64Context.validate (context : Amd64Context) (register : Amd64Register) :
    Amd64Context :=
  { context with valid := fun other => other = register || context.valid other }

/-- A `StackwalkerAMD64` and what its methods call: the walker over the rules of
call frame information, reads of the memory, and the scan for a return
address. -/
structure StackwalkerAMD64 (σ μ : Type) where
  symbolizer : FrameSymbolizer σ μ
  context : Option (Amd64Register → UInt64)
  memory : Option (UInt64 → Option UInt64)
  nacl : Bool
  findCallerRegisters : FrameInfo → Amd64Context → Option Amd64Context
  scanForReturnAddress : UInt64 → (isContextFrame : Bool) → σ →
    Option (UInt64 × UInt64) × σ
  newFrame : Frame μ Amd64Context
  maxFrames : ℕ
  maxFramesScanned : ℕ

section AMD64

variable {σ μ : Type}

/-- A new frame that was found in some way. -/
def StackwalkerAMD64.frame (walker : StackwalkerAMD64 σ μ) (trust : FrameTrust)
    (context : Amd64Context) : Frame μ Amd64Context where
  base := { walker.newFrame.base with trust := trust }
  cpu := context

/-- `GetContextFrame`. -/
def StackwalkerAMD64.getContextFrame (walker : StackwalkerAMD64 σ μ) :
    Option (Frame μ Amd64Context) :=
  walker.context.map fun context =>
    let frame := walker.frame .context { value := context, valid := fun _ => true }
    { frame with base := { frame.base with instruction := frame.cpu.value .rip } }

/-- `GetCallerByCFIFrameInfo`. -/
def StackwalkerAMD64.getCallerByCFIFrameInfo (walker : StackwalkerAMD64 σ μ)
    (last : Amd64Context) (cfiFrameInfo : FrameInfo) :
    Option (Frame μ Amd64Context) := do
  let context ← walker.findCallerRegisters cfiFrameInfo last
  if context.valid .rip && context.valid .rsp then
    some (walker.frame .cfi context)
  else none

/-- `IsEndOfStack`. -/
def isEndOfStack (callerRip callerRsp calleeRsp : UInt64) : Bool :=
  callerRip = 0 || callerRsp < calleeRsp

/-- `is_non_canonical`. -/
def isNonCanonical (ptr : UInt64) : Bool :=
  0x7FFFFFFFFFFF < ptr && ptr < 0xFFFF800000000000

/-- `GetCallerByFramePointerRecovery`. -/
def StackwalkerAMD64.getCallerByFramePointerRecovery
    (walker : StackwalkerAMD64 σ μ) (memory : UInt64 → Option UInt64)
    (last : Amd64Context) : Option (Frame μ Amd64Context) :=
  let lastRsp := last.value .rsp
  let lastRbp := last.value .rbp
  if lastRbp % 8 ≠ 0 then none
  else do
    let callerRip ← memory (lastRbp + 8)
    let callerRbp ← memory lastRbp
    let callerRsp := lastRbp + 16
    if isNonCanonical callerRip then none
    else if isEndOfStack callerRip callerRsp lastRsp || callerRbp < lastRbp then
      none
    else
      let context := ((last.assign .rip callerRip).assign .rsp callerRsp).assign
        .rbp callerRbp
      some (walker.frame .fp
        { context with valid := fun register =>
            register = .rip || register = .rsp || register = .rbp })

/-- The end of `GetCallerByStackScan`: a plausible frame pointer is passed on. -/
def restoreRbp (memory : UInt64 → Option UInt64) (last : Amd64Context)
    (callerRipAddress : UInt64) (context : Amd64Context) : Amd64Context :=
  if last.valid .rbp then
    if callerRipAddress - 8 = last.value .rbp then
      match memory (last.value .rbp) with
      | some callerRbp =>
          if callerRipAddress < callerRbp then
            (context.assign .rbp callerRbp).validate .rbp
          else context
      | none => context
    else if callerRipAddress + 8 ≤ last.value .rbp then
      (context.assign .rbp (last.value .rbp)).validate .rbp
    else context
  else context

/-- `GetCallerByStackScan`. -/
def StackwalkerAMD64.getCallerByStackScan (walker : StackwalkerAMD64 σ μ)
    (memory : UInt64 → Option UInt64) (isContextFrame : Bool)
    (last : Amd64Context) (s : σ) : Option (Frame μ Amd64Context) × σ :=
  let scanned := walker.scanForReturnAddress (last.value .rsp) isContextFrame s
  (scanned.1.map fun found =>
    let context := (last.assign .rip found.2).assign .rsp (found.1 + 8)
    let context := { context with valid := fun register =>
      register = .rip || register = .rsp }
    walker.frame .scan (restoreRbp memory last found.1 context), scanned.2)

/-- The addresses of Native Client: the low 32 bits of three registers. -/
def Amd64Context.truncated (context : Amd64Context) : Amd64Context :=
  ((context.assign .rip (context.value .rip).toUInt32.toUInt64).assign
    .rsp (context.value .rsp).toUInt32.toUInt64).assign
      .rbp (context.value .rbp).toUInt32.toUInt64

/-- The registers of AMD64. -/
def amd64Registers : Registers Amd64Context where
  pc := fun context => context.value .rip
  sp := fun context => context.value .rsp
  validPC := fun context => context.valid .rip
  callSite := fun context => context.value .rip - 1

/-- `GetCallerFrame`. -/
def StackwalkerAMD64.getCallerFrame (walker : StackwalkerAMD64 σ μ)
    (frames : List (Frame μ Amd64Context)) (stackScanAllowed : Bool) (s : σ) :
    Option (Frame μ Amd64Context) × σ :=
  match walker.memory, frames.getLast? with
  | some memory, some last =>
      let frame := findCaller
        ((walker.symbolizer.findCFIFrameInfo last.base s).bind
          (walker.getCallerByCFIFrameInfo last.cpu))
        (walker.getCallerByFramePointerRecovery memory last.cpu)
        stackScanAllowed
        (walker.getCallerByStackScan memory (frames.length = 1) last.cpu s) s
      (frame.1.bind fun frame =>
        let frame :=
          if walker.nacl then { frame with cpu := frame.cpu.truncated } else frame
        if isEndOfStack (frame.cpu.value .rip) (frame.cpu.value .rsp)
            (last.cpu.value .rsp) then none
        else
          some { frame with base :=
            { frame.base with instruction := frame.cpu.value .rip - 1 } },
        frame.2)
  | _, _ => (none, s)

/-- The methods of `Stackwalker` for AMD64. -/
def StackwalkerAMD64.toStackwalker (walker : StackwalkerAMD64 σ μ) :
    Stackwalker σ μ Amd64Context where
  symbolizer := walker.symbolizer
  getContextFrame := walker.getContextFrame
  getCallerFrame := walker.getCallerFrame
  maxFrames := walker.maxFrames
  maxFramesScanned := walker.maxFramesScanned

/-! ## The frame pointer behind a scan -/

/-- A frame pointer that is plausible for the caller with the return address at
some place: one saved below that place which points above it, or the callee's
when it is above it already. -/
inductive Plausible (memory : UInt64 → Option UInt64) (callee : Amd64Context)
    (callerRipAddress : UInt64) : (callerRbp : UInt64) → Prop
  | saved {callerRbp : UInt64} (hvalid : callee.valid .rbp = true)
      (hplace : callerRipAddress - 8 = callee.value .rbp)
      (hmemory : memory (callee.value .rbp) = some callerRbp)
      (habove : callerRipAddress < callerRbp) :
      Plausible memory callee callerRipAddress callerRbp
  | unchanged (hvalid : callee.valid .rbp = true)
      (hplace : callerRipAddress - 8 ≠ callee.value .rbp)
      (habove : callerRipAddress + 8 ≤ callee.value .rbp) :
      Plausible memory callee callerRipAddress (callee.value .rbp)

theorem Plausible.unique {memory : UInt64 → Option UInt64}
    {callee : Amd64Context} {callerRipAddress callerRbp callerRbp' : UInt64}
    (h : Plausible memory callee callerRipAddress callerRbp)
    (h' : Plausible memory callee callerRipAddress callerRbp') :
    callerRbp = callerRbp' := by
  cases h with
  | saved _ hplace hmemory _ =>
      cases h' with
      | saved _ _ hmemory' _ => exact Option.some.inj (hmemory.symm.trans hmemory')
      | unchanged _ hplace' _ => exact absurd hplace hplace'
  | unchanged _ hplace _ =>
      cases h' with
      | saved _ hplace' _ _ => exact absurd hplace' hplace
      | unchanged _ _ _ => rfl

/-- A frame pointer is passed on when one is plausible, and else nothing is. -/
theorem restoreRbp_cases (memory : UInt64 → Option UInt64) (last : Amd64Context)
    (callerRipAddress : UInt64) (context : Amd64Context) :
    (∃ callerRbp, Plausible memory last callerRipAddress callerRbp ∧
      restoreRbp memory last callerRipAddress context =
        (context.assign .rbp callerRbp).validate .rbp) ∨
    ((∀ callerRbp, ¬ Plausible memory last callerRipAddress callerRbp) ∧
      restoreRbp memory last callerRipAddress context = context) := by
  by_cases hvalid : last.valid .rbp = true
  · rw [restoreRbp, if_pos hvalid]
    by_cases hplace : callerRipAddress - 8 = last.value .rbp
    · rw [if_pos hplace]
      cases hmemory : memory (last.value .rbp) with
      | none =>
          refine .inr ⟨?_, rfl⟩
          rintro _ (⟨-, -, hsome, -⟩ | ⟨-, hne, -⟩)
          · cases hmemory.symm.trans hsome
          · exact hne hplace
      | some callerRbp =>
          by_cases habove : callerRipAddress < callerRbp
          · exact .inl ⟨callerRbp, .saved hvalid hplace hmemory habove,
              if_pos habove⟩
          · refine .inr ⟨?_, if_neg habove⟩
            rintro _ (⟨-, -, hsome, habove'⟩ | ⟨-, hne, -⟩)
            · obtain rfl := Option.some.inj (hmemory.symm.trans hsome)
              exact habove habove'
            · exact hne hplace
    · rw [if_neg hplace]
      by_cases habove : callerRipAddress + 8 ≤ last.value .rbp
      · exact .inl ⟨_, .unchanged hvalid hplace habove, if_pos habove⟩
      · refine .inr ⟨?_, if_neg habove⟩
        rintro _ (⟨-, heq, -, -⟩ | ⟨-, -, habove'⟩)
        · exact hplace heq
        · exact habove habove'
  · rw [restoreRbp, if_neg hvalid]
    refine .inr ⟨?_, rfl⟩
    rintro _ (⟨hvalid', -, -, -⟩ | ⟨hvalid', -, -⟩)
    · exact hvalid hvalid'
    · exact hvalid hvalid'

/-! ## Every frame that is found -/

variable {walker : StackwalkerAMD64 σ μ} {last : Amd64Context}
  {frame : Frame μ Amd64Context}

theorem amd64_byCFI {cfiFrameInfo : FrameInfo}
    (h : walker.getCallerByCFIFrameInfo last cfiFrameInfo = some frame) :
    frame.cpu.valid .rip = true ∧ frame.base.trust = .cfi := by
  simp only [StackwalkerAMD64.getCallerByCFIFrameInfo, Option.bind_eq_bind,
    Option.bind_eq_some_iff] at h
  obtain ⟨context, -, h⟩ := h
  split at h
  · rename_i hessentials
    obtain rfl := Option.some.inj h
    exact ⟨(Bool.and_eq_true_iff.mp hessentials).1, rfl⟩
  · cases h

/-- What the frame pointer was followed to. -/
theorem framePointerRecovery_eq_some {memory : UInt64 → Option UInt64}
    (h : walker.getCallerByFramePointerRecovery memory last = some frame) :
    last.value .rbp % 8 = 0 ∧ ∃ callerRip callerRbp,
      memory (last.value .rbp + 8) = some callerRip ∧
      memory (last.value .rbp) = some callerRbp ∧
      isNonCanonical callerRip = false ∧ last.value .rbp ≤ callerRbp ∧
      frame = walker.frame .fp
        { ((last.assign .rip callerRip).assign .rsp
            (last.value .rbp + 16)).assign .rbp callerRbp with
          valid := fun register =>
            register = .rip || register = .rsp || register = .rbp } := by
  rw [StackwalkerAMD64.getCallerByFramePointerRecovery] at h
  split at h
  · cases h
  · rename_i haligned
    simp only [Option.bind_eq_bind, Option.bind_eq_some_iff] at h
    obtain ⟨callerRip, hrip, callerRbp, hrbp, h⟩ := h
    split at h
    · cases h
    · rename_i hcanonical
      split at h
      · cases h
      · rename_i hend
        have hle : last.value .rbp ≤ callerRbp := by
          refine UInt64.not_lt.mp fun hlt => hend ?_
          simp [hlt]
        exact ⟨not_not.mp haligned, callerRip, callerRbp, hrip, hrbp,
          Bool.eq_false_of_not_eq_true hcanonical, hle, (Option.some.inj h).symm⟩

theorem amd64_byFramePointer {memory : UInt64 → Option UInt64}
    (h : walker.getCallerByFramePointerRecovery memory last = some frame) :
    frame.cpu.valid .rip = true ∧ frame.base.trust = .fp := by
  obtain ⟨-, callerRip, callerRbp, -, -, -, -, rfl⟩ :=
    framePointerRecovery_eq_some h
  exact ⟨rfl, rfl⟩

theorem restoreRbp_valid_rip (memory : UInt64 → Option UInt64)
    (last : Amd64Context) (callerRipAddress : UInt64) (context : Amd64Context) :
    (restoreRbp memory last callerRipAddress context).valid .rip =
      context.valid .rip := by
  rcases restoreRbp_cases memory last callerRipAddress context with
    ⟨callerRbp, -, hrestore⟩ | ⟨-, hrestore⟩
  · rw [hrestore]
    rfl
  · rw [hrestore]

theorem amd64_byStackScan {memory : UInt64 → Option UInt64}
    {isContextFrame : Bool} {s : σ}
    (h : (walker.getCallerByStackScan memory isContextFrame last s).1 =
      some frame) :
    frame.cpu.valid .rip = true ∧ frame.base.trust = .scan := by
  simp only [StackwalkerAMD64.getCallerByStackScan, Option.map_eq_some_iff] at h
  obtain ⟨found, -, rfl⟩ := h
  exact ⟨by rw [StackwalkerAMD64.frame, restoreRbp_valid_rip]; rfl, rfl⟩

/-- The check at the end of `GetCallerFrame` is the one of the other
processors. -/
theorem isEndOfStack_accept (last : Amd64Context) (frame : Frame μ Amd64Context) :
    (if isEndOfStack (frame.cpu.value .rip) (frame.cpu.value .rsp)
        (last.value .rsp) then none
      else some { frame with base :=
        { frame.base with instruction := frame.cpu.value .rip - 1 } }) =
      amd64Registers.accept last frame := by
  rw [Registers.accept, isEndOfStack]
  by_cases hrip : frame.cpu.value .rip = 0
  · simp [amd64Registers, hrip]
  · by_cases hrsp : frame.cpu.value .rsp < last.value .rsp
    · simp [amd64Registers, hrip, hrsp]
    · simp [amd64Registers, hrip, hrsp]

/-- A caller is found in one of the ways, and accepted. -/
theorem amd64_getCallerFrame {frames : List (Frame μ Amd64Context)}
    {allowed : Bool} {s : σ}
    (h : (walker.getCallerFrame frames allowed s).1 = some frame) :
    ∃ memory last found, walker.memory = some memory ∧
      frames.getLast? = some last ∧
      (findCaller
        ((walker.symbolizer.findCFIFrameInfo last.base s).bind
          (walker.getCallerByCFIFrameInfo last.cpu))
        (walker.getCallerByFramePointerRecovery memory last.cpu) allowed
        (walker.getCallerByStackScan memory (frames.length = 1) last.cpu s)
        s).1 = some found ∧
      amd64Registers.accept last.cpu
        (if walker.nacl then { found with cpu := found.cpu.truncated }
          else found) = some frame := by
  cases hmemory : walker.memory with
  | none => simp [StackwalkerAMD64.getCallerFrame, hmemory] at h
  | some memory =>
      cases hlast : frames.getLast? with
      | none => simp [StackwalkerAMD64.getCallerFrame, hmemory, hlast] at h
      | some last =>
          simp only [StackwalkerAMD64.getCallerFrame, hmemory, hlast,
            Option.bind_eq_some_iff, isEndOfStack_accept] at h
          obtain ⟨found, hfound, haccept⟩ := h
          exact ⟨memory, last, found, rfl, rfl, hfound, haccept⟩

theorem amd64_unwinds (walker : StackwalkerAMD64 σ μ) :
    walker.toStackwalker.Unwinds amd64Registers := by
  apply unwinds_of_foundAs
  · intro frame h
    obtain ⟨context, -, rfl⟩ := Option.map_eq_some_iff.mp h
    exact ⟨rfl, rfl, rfl⟩
  · intro frames allowed s frame h
    obtain ⟨memory, last, found, -, hlast, hfound, haccept⟩ :=
      amd64_getCallerFrame h
    have hfoundAs : FoundAs amd64Registers allowed found := by
      refine findCaller_foundAs (fun frame h => ?_)
        (fun _ => amd64_byFramePointer) (fun _ => amd64_byStackScan) hfound
      obtain ⟨info, -, hcfi⟩ := Option.bind_eq_some_iff.mp h
      exact amd64_byCFI hcfi
    refine ⟨last, _, hlast, haccept, ?_⟩
    split
    · exact ⟨hfoundAs.valid, hfoundAs.trust⟩
    · exact hfoundAs

/-! ## What a frame has to do with its callee's -/

/-- A register of a caller, which is cut to 32 bits in the sandbox. -/
def StackwalkerAMD64.cut (walker : StackwalkerAMD64 σ μ) (value : UInt64) :
    UInt64 :=
  if walker.nacl then value.toUInt32.toUInt64 else value

/-- A frame that was found along the frame pointer. -/
structure StackwalkerAMD64.FollowsRbp (walker : StackwalkerAMD64 σ μ)
    (memory : UInt64 → Option UInt64) (callee caller : Amd64Context) : Prop where
  aligned : callee.value .rbp % 8 = 0
  rip : ∃ callerRip, memory (callee.value .rbp + 8) = some callerRip ∧
    isNonCanonical callerRip = false ∧ caller.value .rip = walker.cut callerRip
  rbp : ∃ callerRbp, memory (callee.value .rbp) = some callerRbp ∧
    callee.value .rbp ≤ callerRbp ∧ caller.value .rbp = walker.cut callerRbp
  rsp : caller.value .rsp = walker.cut (callee.value .rbp + 16)

/-- A frame that was found by a scan, with the return address at some place: a
plausible frame pointer is passed on, and no other. -/
structure StackwalkerAMD64.Scanned (walker : StackwalkerAMD64 σ μ)
    (memory : UInt64 → Option UInt64) (callee caller : Amd64Context)
    (callerRipAddress : UInt64) : Prop where
  rsp : caller.value .rsp = walker.cut (callerRipAddress + 8)
  passed : ∀ callerRbp, Plausible memory callee callerRipAddress callerRbp →
    caller.valid .rbp = true ∧ caller.value .rbp = walker.cut callerRbp
  known : caller.valid .rbp = true →
    ∃ callerRbp, Plausible memory callee callerRipAddress callerRbp

/-- What a caller's frame has to do with its callee's. -/
structure StackwalkerAMD64.Calls (walker : StackwalkerAMD64 σ μ)
    (callee caller : Frame μ Amd64Context) : Prop where
  framePointer : caller.base.trust = .fp → ∃ memory,
    walker.memory = some memory ∧ walker.FollowsRbp memory callee.cpu caller.cpu
  scan : caller.base.trust = .scan → ∃ memory, walker.memory = some memory ∧
    ∃ callerRipAddress,
      walker.Scanned memory callee.cpu caller.cpu callerRipAddress
  sandbox : walker.nacl = true → caller.cpu.value .rip < 0x100000000 ∧
    caller.cpu.value .rsp < 0x100000000 ∧ caller.cpu.value .rbp < 0x100000000

/-- The registers of a caller as they are on the stack. -/
theorem sandboxed_registers (walker : StackwalkerAMD64 σ μ)
    (found : Frame μ Amd64Context) :
    let frame :=
      if walker.nacl then { found with cpu := found.cpu.truncated } else found
    frame.base = found.base ∧ frame.cpu.valid = found.cpu.valid ∧
      frame.cpu.value .rip = walker.cut (found.cpu.value .rip) ∧
      frame.cpu.value .rsp = walker.cut (found.cpu.value .rsp) ∧
      frame.cpu.value .rbp = walker.cut (found.cpu.value .rbp) := by
  dsimp only [StackwalkerAMD64.cut]
  split
  · exact ⟨rfl, rfl, rfl, rfl, rfl⟩
  · exact ⟨rfl, rfl, rfl, rfl, rfl⟩

/-- What a scan makes of the stack pointer and the frame pointer. -/
theorem stackScan_passes {memory : UInt64 → Option UInt64}
    {isContextFrame : Bool} {s : σ}
    (h : (walker.getCallerByStackScan memory isContextFrame last s).1 =
      some frame) :
    ∃ callerRipAddress, frame.cpu.value .rsp = callerRipAddress + 8 ∧
      (∀ callerRbp, Plausible memory last callerRipAddress callerRbp →
        frame.cpu.valid .rbp = true ∧ frame.cpu.value .rbp = callerRbp) ∧
      (frame.cpu.valid .rbp = true →
        ∃ callerRbp, Plausible memory last callerRipAddress callerRbp) := by
  simp only [StackwalkerAMD64.getCallerByStackScan, Option.map_eq_some_iff] at h
  obtain ⟨⟨callerRipAddress, callerRip⟩, -, rfl⟩ := h
  refine ⟨callerRipAddress, ?_⟩
  rcases restoreRbp_cases memory last callerRipAddress
    { (last.assign .rip callerRip).assign .rsp (callerRipAddress + 8) with
      valid := fun register => register = .rip || register = .rsp } with
    ⟨callerRbp, hrbp, hrestore⟩ | ⟨hnone, hrestore⟩
  · dsimp only [StackwalkerAMD64.frame]
    rw [hrestore]
    refine ⟨rfl, fun callerRbp' h => ?_, fun _ => ⟨callerRbp, hrbp⟩⟩
    rw [← hrbp.unique h]
    exact ⟨rfl, rfl⟩
  · dsimp only [StackwalkerAMD64.frame]
    rw [hrestore]
    exact ⟨rfl, fun callerRbp h => absurd h (hnone callerRbp), Bool.noConfusion⟩

theorem sandboxed_lt {context : Amd64Context} {rip rsp rbp : UInt64}
    (hrip : context.value .rip = walker.cut rip)
    (hrsp : context.value .rsp = walker.cut rsp)
    (hrbp : context.value .rbp = walker.cut rbp) (hnacl : walker.nacl = true) :
    context.value .rip < 0x100000000 ∧ context.value .rsp < 0x100000000 ∧
      context.value .rbp < 0x100000000 := by
  have hcut : ∀ value, walker.cut value < 0x100000000 := by
    intro value
    rw [StackwalkerAMD64.cut, if_pos hnacl, UInt64.lt_iff_toNat_lt,
      UInt32.toNat_toUInt64]
    exact UInt32.toNat_lt _
  rw [hrip, hrsp, hrbp]
  exact ⟨hcut rip, hcut rsp, hcut rbp⟩

theorem amd64_calls {frames : List (Frame μ Amd64Context)}
    {last found : Frame μ Amd64Context} {allowed : Bool} {s : σ}
    (h : (walker.getCallerFrame (frames ++ [last]) allowed s).1 = some found)
    (s' : σ) : walker.Calls last (walker.toStackwalker.filled found s') := by
  obtain ⟨memory, last', located, hmemory, hlast, hlocated, haccept⟩ :=
    amd64_getCallerFrame h
  obtain rfl : last = last' := by simpa using hlast
  obtain ⟨hbase, hvalid, hrip, hrsp, hrbp⟩ := sandboxed_registers walker located
  obtain ⟨-, -, rfl⟩ := (amd64Registers.accept_eq_some_iff _ _ _).mp haccept
  set sandboxed :=
    if walker.nacl then { located with cpu := located.cpu.truncated } else located
  have htrust : (walker.toStackwalker.filled { sandboxed with base :=
      { sandboxed.base with
        instruction := amd64Registers.callSite sandboxed.cpu } } s').base.trust =
        located.base.trust := by
    rw [filled_trust, ← hbase]
  rcases findCaller_eq_some hlocated with hcfi | hfp | ⟨-, hscan⟩
  · obtain ⟨info, -, hcfi⟩ := Option.bind_eq_some_iff.mp hcfi
    have hfound := (amd64_byCFI hcfi).2
    exact
      { framePointer := fun h => by simp [htrust, hfound] at h
        scan := fun h => by simp [htrust, hfound] at h
        sandbox := sandboxed_lt hrip hrsp hrbp }
  · have hfound := (amd64_byFramePointer hfp).2
    obtain ⟨haligned, callerRip, callerRbp, hcallerRip, hcallerRbp, hcanonical,
      hle, rfl⟩ := framePointerRecovery_eq_some hfp
    exact
      { framePointer := fun _ => ⟨memory, hmemory, haligned,
          ⟨callerRip, hcallerRip, hcanonical, hrip⟩,
          ⟨callerRbp, hcallerRbp, hle, hrbp⟩, hrsp⟩
        scan := fun h => by simp [htrust, hfound] at h
        sandbox := sandboxed_lt hrip hrsp hrbp }
  · have hfound := (amd64_byStackScan hscan).2
    obtain ⟨callerRipAddress, hrspFound, hpassed, hknown⟩ :=
      stackScan_passes hscan
    refine
      { framePointer := fun h => by simp [htrust, hfound] at h
        scan := fun _ => ⟨memory, hmemory, callerRipAddress, ?_⟩
        sandbox := sandboxed_lt hrip hrsp hrbp }
    refine ⟨hrsp.trans (congrArg _ hrspFound), fun callerRbp h => ?_, fun h => ?_⟩
    · obtain ⟨hvalidFound, hrbpFound⟩ := hpassed callerRbp h
      exact ⟨(congrFun hvalid _).trans hvalidFound,
        hrbp.trans (congrArg _ hrbpFound)⟩
    · exact hknown ((congrFun hvalid _).symm.trans h)

/-- Every walk on AMD64 ends, with a stack that is as it should be: every frame
goes with the one it called. -/
theorem amd64_wellWalked [DecidableEq μ] (walker : StackwalkerAMD64 σ μ)
    (before before' : List μ) (symbols : σ) :
    ∃ r, EndsIn () (fun fuel =>
        walker.toStackwalker.walk fuel before before' symbols) (.ok r) ∧
      r.2.frames.length ≤ walker.maxFrames + 1 ∧
      WellWalked amd64Registers walker.maxFramesScanned r.2.frames ∧
      r.2.frames.IsChain walker.Calls ∧
      (r.1 = true → r.2.frames.head? = walker.getContextFrame.map fun found =>
        walker.toStackwalker.filled found symbols) := by
  obtain ⟨r, hr, lookups, hended⟩ := walk_ended walker.toStackwalker before
    before' symbols
  exact ⟨r, hr, hended.length_le, hended.walks.wellWalked (amd64_unwinds walker),
    hended.walks.isChain fun _ _ _ _ _ s' h => amd64_calls h s',
    hended.head?_frames⟩

end AMD64

end StackWalk
end MiscCode
