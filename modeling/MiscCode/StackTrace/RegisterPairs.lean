import MiscCode.StackTrace.Agreement
import MiscCode.StackTrace.Registers

/-!
# The registers that are recorded

What `PrintStack` prints is read back as names and values.  For arm, x86 and
amd64 `RfPrintStack` records the same pairs; for the other processors it records
nothing, so that it agrees only on frames without a valid register.

A frame of the model that finds its registers by their names prints and records
what the chains give out, and every frame has its counterpart there.
-/

namespace MiscCode.StackTrace

/-! ## Reading the text -/

/-- A string printed in a field. -/
def Token.str? : Token → Option String
  | .str _ s => some s
  | _ => none

/-- The names and the values in a printed list of registers. -/
def printedPairs (tokens : List Token) : List (String × UInt64) :=
  (tokens.filterMap Token.str?).zip (tokens.filterMap Token.hex?)

/-- The names and the values in a recorded list of registers. -/
def recordedPairs (registers : List RegInfo) : List (String × UInt64) :=
  registers.map fun register => (register.regName, register.regValue)

/-- A reading that finds one thing in the tokens of a register, and nothing in
a text, finds it for each register. -/
theorem filterMap_printRegisters {β : Type} {read : Token → Option β}
    {f : String × UInt64 → β} {digits : ℕ}
    (htext : ∀ s, read (.text s) = none)
    (hregister : ∀ register : String × UInt64,
      [Token.str 5 register.1, .hex digits register.2].filterMap read =
        [f register])
    (registers : List (String × UInt64)) (startCol : ℕ) :
    (printRegisters digits registers startCol).filterMap read =
      registers.map f := by
  induction registers generalizing startCol with
  | nil => rfl
  | cons register registers ih =>
      have hbuffer : [Token.text " ", .str 5 register.1, .text " = 0x",
          .hex digits register.2].filterMap read = [f register] := by
        rw [← hregister register]
        simp only [List.filterMap_cons, htext]
      rw [printRegisters, List.map_cons]
      split
      · rw [List.filterMap_append, ih, List.filterMap_cons_none (htext _),
          hbuffer]
        rfl
      · rw [List.filterMap_append, ih, hbuffer]
        rfl

/-- Whatever the line breaks are, the registers are read back. -/
theorem printedPairs_printRegisters (digits : ℕ)
    (registers : List (String × UInt64)) (startCol : ℕ) :
    printedPairs (printRegisters digits registers startCol) = registers := by
  rw [printedPairs,
    filterMap_printRegisters (f := Prod.fst) (fun _ => rfl) fun _ => rfl,
    filterMap_printRegisters (f := Prod.snd) (fun _ => rfl) fun _ => rfl]
  have hunzip := List.zip_unzip registers
  rwa [List.unzip_eq_map] at hunzip

/-- The registers that `PrintRegister64` prints. -/
theorem printed64 (registers : List (String × UInt64)) :
    printedPairs (printRegisters64 registers) = registers :=
  printedPairs_printRegisters 16 registers 0

/-- `PrintRegister` prints the low 32 bits. -/
theorem printed32 (registers : List (String × UInt64)) :
    printedPairs (printRegisters32 registers) =
      registers.map fun register =>
        (register.1, register.2.toUInt32.toUInt64) :=
  printedPairs_printRegisters 8 _ 0

/-! ## Chains -/

section Chains

variable {γ : Type} {masks : ContextMasks} {cpu : String}
  {tests : List (RegisterTest γ)} {frame : CpuFrame γ}

/-- A value that `PrintRegister` does not cut. -/
def Narrow (x : UInt64) : Prop := x.toUInt32.toUInt64 = x

theorem narrow_toUInt64 (x : UInt32) : Narrow x.toUInt64 := by
  rw [Narrow, UInt32.toUInt32_toUInt64]

theorem printed32_of_narrow {registers : List (String × UInt64)}
    (h : ∀ register ∈ registers, Narrow register.2) :
    printedPairs (printRegisters32 registers) = registers := by
  rw [printed32]
  have hself : registers.map (fun register =>
      (register.1, register.2.toUInt32.toUInt64)) = registers.map id := by
    apply List.map_congr_left
    intro register hregister
    exact Prod.ext rfl (h register hregister)
  rw [hself, List.map_id]

theorem narrow_chain
    (h : ∀ test ∈ tests, ∀ context, Narrow (test.value context)) :
    ∀ register ∈ chain masks cpu tests frame, Narrow register.2 := by
  intro register hregister
  obtain ⟨test, htest, rfl⟩ := List.mem_map.mp hregister
  exact h test (List.mem_of_mem_filter htest) frame.context

theorem narrow_chainX86 {tests : List (RegisterTest ContextX86)}
    {rest : List (Register ContextX86)} {frame : CpuFrame ContextX86}
    (h : ∀ test ∈ tests, ∀ context, Narrow (test.value context))
    (hrest : ∀ register ∈ rest, ∀ context, Narrow (register.value context)) :
    ∀ register ∈ chainX86 masks tests rest frame, Narrow register.2 := by
  intro register hregister
  rcases List.mem_append.mp hregister with hchain | hall
  · exact narrow_chain h register hchain
  · split at hall
    · obtain ⟨register, hmem, rfl⟩ := List.mem_map.mp hall
      exact hrest register hmem frame.context
    · exact absurd hall List.not_mem_nil

theorem chain_eq_nil_iff :
    chain masks cpu tests frame = [] ↔
      ∀ test ∈ tests, test.holds masks cpu frame = false := by
  rw [chain, List.map_eq_nil_iff, List.filter_eq_nil_iff]
  simp only [Bool.not_eq_true]

end Chains

/-! ## The two programs -/

section Agreement

variable {types : FieldTypes} {masks : ContextMasks} {frame : FrameViews}

/-! The chains of arm, x86 and amd64 are the same in both functions: every
test has the same constant, name and field. -/

theorem rfARM_eq : rfARM = printARM := rfl

theorem rfX86_eq : rfX86 = printX86 := rfl

theorem rfX86Rest_eq : rfX86Rest = printX86Rest := rfl

theorem rfAMD64_eq : rfAMD64 = printAMD64 := rfl

theorem narrow_printARM :
    ∀ test ∈ printARM, ∀ context, Narrow (test.value context) := by
  simp [printARM, test32, narrow_toUInt64]

theorem narrow_printX86 :
    ∀ test ∈ printX86, ∀ context, Narrow (test.value context) := by
  simp [printX86, test32, narrow_toUInt64]

theorem narrow_printX86Rest :
    ∀ register ∈ printX86Rest, ∀ context, Narrow (register.value context) := by
  simp [printX86Rest, register32, narrow_toUInt64]

/-- No register is valid that only `PrintStack` has a test for. -/
def NoneValid (masks : ContextMasks) (cpu : String) (frame : FrameViews) :
    Prop :=
  if cpu = "ppc" then
    ∀ test ∈ printPPC, test.holds masks "ppc" frame.ppc = false
  else if cpu = "sparc" then
    ∀ test ∈ printSPARC, test.holds masks "sparc" frame.sparc = false
  else if cpu = "arm64" then
    ∀ test ∈ printARM64, test.holds masks "arm64" frame.arm64 = false
  else if cpu = "mips" ∨ cpu = "mips64" then
    ∀ test ∈ printMIPS, test.holds masks "mips" frame.mips = false
  else True

/-- Registers are recorded as they are given out. -/
theorem recordedPairs_map (hkeep : ∀ x, types.regValue x = x)
    (registers : List (String × UInt64)) :
    recordedPairs (registers.map fun register =>
      { regName := register.1, regValue := types.regValue register.2 }) =
      registers := by
  rw [recordedPairs, List.map_map]
  have hself : ∀ register : String × UInt64,
      (register.1, types.regValue register.2) = register :=
    fun register => Prod.ext rfl (hkeep register.2)
  exact List.map_id'' hself registers

theorem recorded_arm (hkeep : ∀ x, types.regValue x = x) :
    recordedPairs (rfStackRegisters types masks "arm" frame) =
      printedPairs (printStackRegisters masks "arm" frame) := by
  have hprinted : printedPairs (printStackRegisters masks "arm" frame) =
      chain masks "arm" printARM frame.arm :=
    printed32_of_narrow (narrow_chain narrow_printARM)
  rw [hprinted, ← rfARM_eq]
  exact recordedPairs_map hkeep _

theorem recorded_x86 (hkeep : ∀ x, types.regValue x = x) :
    recordedPairs (rfStackRegisters types masks "x86" frame) =
      printedPairs (printStackRegisters masks "x86" frame) := by
  have hprinted : printedPairs (printStackRegisters masks "x86" frame) =
      chainX86 masks printX86 printX86Rest frame.x86 :=
    printed32_of_narrow (narrow_chainX86 narrow_printX86 narrow_printX86Rest)
  rw [hprinted, ← rfX86_eq, ← rfX86Rest_eq]
  exact recordedPairs_map hkeep _

theorem recorded_amd64 (hkeep : ∀ x, types.regValue x = x) :
    recordedPairs (rfStackRegisters types masks "amd64" frame) =
      printedPairs (printStackRegisters masks "amd64" frame) := by
  have hprinted : printedPairs (printStackRegisters masks "amd64" frame) =
      chain masks "amd64" printAMD64 frame.amd64 := printed64 _
  rw [hprinted, ← rfAMD64_eq]
  exact recordedPairs_map hkeep _

/-- Nothing is recorded for any other processor. -/
theorem rfStackRegisters_of_other {cpu : String} (harm : cpu ≠ "arm")
    (hx86 : cpu ≠ "x86") (hamd64 : cpu ≠ "amd64") :
    rfStackRegisters types masks cpu frame = [] := by
  rw [rfStackRegisters, if_neg harm, if_neg hx86, if_neg hamd64]
  rfl

theorem printed32_eq_nil_iff {registers : List (String × UInt64)} :
    [] = printedPairs (printRegisters32 registers) ↔ registers = [] := by
  rw [printed32, eq_comm, List.map_eq_nil_iff]

theorem printed64_eq_nil_iff {registers : List (String × UInt64)} :
    [] = printedPairs (printRegisters64 registers) ↔ registers = [] := by
  rw [printed64, eq_comm]

/-- For the processors that only `PrintStack` handles nothing is printed
exactly when no register is valid. -/
theorem nil_eq_printed_iff {cpu : String} (harm : cpu ≠ "arm")
    (hx86 : cpu ≠ "x86") (hamd64 : cpu ≠ "amd64") :
    [] = printedPairs (printStackRegisters masks cpu frame) ↔
      NoneValid masks cpu frame := by
  rw [printStackRegisters, NoneValid, if_neg harm, if_neg hx86, if_neg hamd64]
  by_cases hppc : cpu = "ppc"
  · rw [if_pos hppc, if_pos hppc, printed32_eq_nil_iff, chain_eq_nil_iff]
  rw [if_neg hppc, if_neg hppc]
  by_cases hsparc : cpu = "sparc"
  · rw [if_pos hsparc, if_pos hsparc, printed32_eq_nil_iff, chain_eq_nil_iff]
  rw [if_neg hsparc, if_neg hsparc]
  by_cases harm64 : cpu = "arm64"
  · rw [if_pos harm64, if_pos harm64, printed64_eq_nil_iff, chain_eq_nil_iff]
  rw [if_neg harm64, if_neg harm64]
  by_cases hmips : cpu = "mips" ∨ cpu = "mips64"
  · rw [if_pos hmips, if_pos hmips, printed64_eq_nil_iff, chain_eq_nil_iff]
  · rw [if_neg hmips, if_neg hmips]
    exact iff_of_true rfl trivial

/-- For each frame `RfPrintStack` records the registers that `PrintStack`
prints, with their names and values and in their order, exactly when none is
valid that only `PrintStack` has a test for. -/
theorem recordedPairs_eq_printedPairs_iff (types : FieldTypes)
    (hkeep : ∀ x, types.regValue x = x) (masks : ContextMasks) (cpu : String)
    (frame : FrameViews) :
    recordedPairs (rfStackRegisters types masks cpu frame) =
        printedPairs (printStackRegisters masks cpu frame) ↔
      NoneValid masks cpu frame := by
  by_cases harm : cpu = "arm"
  · subst harm
    exact iff_of_true (recorded_arm hkeep) trivial
  by_cases hx86 : cpu = "x86"
  · subst hx86
    exact iff_of_true (recorded_x86 hkeep) trivial
  by_cases hamd64 : cpu = "amd64"
  · subst hamd64
    exact iff_of_true (recorded_amd64 hkeep) trivial
  · rw [rfStackRegisters_of_other harm hx86 hamd64]
    exact nil_eq_printed_iff harm hx86 hamd64

/-- A frame in which every family of processors sees one valid bit, and the
registers of arm64 are 4096. -/
def oneValid : FrameViews where
  x86 := ⟨1, ⟨1, 2, 3, 4, 5, 6, 7, 8, 9, 10⟩⟩
  ppc := ⟨1, ⟨1, fun _ => 0⟩⟩
  amd64 := ⟨1, ⟨1, 2, 3, 4, 5, 6, 7, 8, 9, 10, 11, 12, 13, 14, 15, 16, 17⟩⟩
  sparc := ⟨1, ⟨fun _ => 0, 1⟩⟩
  arm := ⟨1, ⟨fun i => i.val.toUInt32⟩⟩
  arm64 := ⟨1, ⟨fun _ => 4096⟩⟩
  mips := ⟨1, ⟨fun _ => 0, 1⟩⟩

/-- The bit of the program counter. -/
def pcBit : ContextMasks where
  bit _ constant := if constant = "PC" then 1 else 0
  allX86 := 0

theorem recordedPairs_eq_printedPairs_arm :
    recordedPairs (rfStackRegisters keepingFields pcBit "arm" oneValid) =
      printedPairs (printStackRegisters pcBit "arm" oneValid) :=
  (recordedPairs_eq_printedPairs_iff keepingFields (fun _ => rfl) pcBit "arm"
    oneValid).mpr trivial

/-- The program counter of an arm64 frame is printed and not recorded. -/
theorem arm64_pc_not_recorded :
    printedPairs (printStackRegisters pcBit "arm64" oneValid) =
        [("pc", 4096)] ∧
      recordedPairs (rfStackRegisters keepingFields pcBit "arm64" oneValid) =
        [] ∧
      recordedPairs (rfStackRegisters keepingFields pcBit "arm64" oneValid) ≠
        printedPairs (printStackRegisters pcBit "arm64" oneValid) := by
  decide

end Agreement

/-! ## Registers found by their names -/

section ByName

variable {γ : Type} {masks byName : ContextMasks} {cpu : String}
  {tests : List (RegisterTest γ)} {view : CpuFrame γ} {frame : StackFrame}

/-- A frame that finds the registers of a chain by their names, under masks
that find their constants by the same names. -/
structure Finds (byName masks : ContextMasks) (cpu : String)
    (tests : List (RegisterTest γ)) (frame : StackFrame) (view : CpuFrame γ) :
    Prop where
  validity : frame.contextValidity = view.contextValidity
  bit : ∀ test ∈ tests, byName.bit cpu test.name = masks.bit cpu test.constant
  value : ∀ test ∈ tests, frame.context test.name = test.value view.context

/-- The registers of a chain, found by their names. -/
theorem validRegisters_eq_chain (h : Finds byName masks cpu tests frame view) :
    validRegisters byName cpu frame (tests.map fun test => test.name) =
      chain masks cpu tests view := by
  have hfilter : tests.filter
      (byName.valid cpu frame ∘ fun test => test.name) =
      tests.filter (RegisterTest.holds masks cpu view) := by
    apply List.filter_congr
    intro test htest
    simp only [Function.comp_apply, ContextMasks.valid, RegisterTest.holds,
      h.validity, h.bit test htest]
  rw [validRegisters, List.filter_map, hfilter, List.map_map, chain]
  apply List.map_congr_left
  intro test htest
  have hmem := List.mem_of_mem_filter htest
  exact congrArg (Prod.mk test.name) (h.value test hmem)

/-- A frame of the model by names and the views of the same frame. -/
def SameFrame (byName masks : ContextMasks) (cpu : String) (frame : StackFrame)
    (views : FrameViews) : Prop :=
  if cpu = "x86" then
    Finds byName masks "x86" printX86 frame views.x86 ∧
      byName.allX86 = masks.allX86 ∧
      ∀ register ∈ printX86Rest,
        frame.context register.name = register.value views.x86.context
  else if cpu = "ppc" then Finds byName masks "ppc" printPPC frame views.ppc
  else if cpu = "amd64" then
    Finds byName masks "amd64" printAMD64 frame views.amd64
  else if cpu = "sparc" then
    Finds byName masks "sparc" printSPARC frame views.sparc
  else if cpu = "arm" then Finds byName masks "arm" printARM frame views.arm
  else if cpu = "arm64" then
    Finds byName masks "arm64" printARM64 frame views.arm64
  else if cpu = "mips" ∨ cpu = "mips64" then
    Finds byName masks "mips" printMIPS frame views.mips
  else True

variable {views : FrameViews}

theorem validX86Registers_eq (h : SameFrame byName masks "x86" frame views) :
    validX86Registers byName frame =
      chainX86 masks printX86 printX86Rest views.x86 := by
  obtain ⟨hfinds, hall, hrest⟩ := h
  have hvalues : x86RestRegisters.map (fun register =>
      (register, frame.context register)) =
      printX86Rest.map fun register => register.pair views.x86.context := by
    have hnames : x86RestRegisters =
        printX86Rest.map fun register => register.name := rfl
    rw [hnames, List.map_map]
    apply List.map_congr_left
    intro register hregister
    exact congrArg (Prod.mk register.name) (hrest register hregister)
  have hchain : validRegisters byName "x86" frame x86Registers =
      chain masks "x86" printX86 views.x86 := validRegisters_eq_chain hfinds
  rw [validX86Registers, chainX86, hchain, hvalues, hfinds.validity, hall]

/-- The model by names prints what the chains print. -/
theorem printFrameRegisters_eq (h : SameFrame byName masks cpu frame views) :
    printFrameRegisters byName cpu frame =
      printStackRegisters masks cpu views := by
  by_cases hx86 : cpu = "x86"
  · subst hx86
    exact congrArg printRegisters32 (validX86Registers_eq h)
  by_cases hppc : cpu = "ppc"
  · subst hppc
    exact congrArg printRegisters32 (validRegisters_eq_chain h)
  by_cases hamd64 : cpu = "amd64"
  · subst hamd64
    exact congrArg printRegisters64 (validRegisters_eq_chain h)
  by_cases hsparc : cpu = "sparc"
  · subst hsparc
    exact congrArg printRegisters32 (validRegisters_eq_chain h)
  by_cases harm : cpu = "arm"
  · subst harm
    exact congrArg printRegisters32 (validRegisters_eq_chain h)
  by_cases harm64 : cpu = "arm64"
  · subst harm64
    exact congrArg printRegisters64 (validRegisters_eq_chain h)
  rw [SameFrame] at h
  rw [printFrameRegisters, printStackRegisters]
  simp only [if_neg hx86, if_neg hppc, if_neg hamd64, if_neg hsparc, if_neg harm,
    if_neg harm64] at h ⊢
  by_cases hmips : cpu = "mips" ∨ cpu = "mips64"
  · rw [if_pos hmips] at h ⊢
    rw [if_pos hmips]
    exact congrArg printRegisters64 (validRegisters_eq_chain h)
  · rw [if_neg hmips, if_neg hmips]

/-- The model by names records what the chains record. -/
theorem rfFrameRegisters_eq (types : FieldTypes)
    (h : SameFrame byName masks cpu frame views) :
    rfFrameRegisters types byName cpu frame =
      rfStackRegisters types masks cpu views := by
  by_cases harm : cpu = "arm"
  · subst harm
    exact congrArg (List.map _) (validRegisters_eq_chain h)
  by_cases hx86 : cpu = "x86"
  · subst hx86
    exact congrArg (List.map _) (validX86Registers_eq h)
  by_cases hamd64 : cpu = "amd64"
  · subst hamd64
    exact congrArg (List.map _) (validRegisters_eq_chain h)
  · rw [rfStackRegisters_of_other harm hx86 hamd64, rfFrameRegisters,
      if_neg harm, if_neg hx86, if_neg hamd64]
    rfl

/-- The record of a frame holds what the chains of `RfPrintStack` record. -/
theorem regs_rfFrame (types : FieldTypes)
    (h : SameFrame byName masks cpu frame views) (i : ℕ) :
    (rfFrame types byName cpu i frame).regs =
      rfStackRegisters types masks cpu views := by
  rw [← rfFrameRegisters_eq types h]
  exact (rfFrame_spec types byName cpu i frame).2.2

/-- Distinct names have a function that finds what belongs to each. -/
theorem exists_lookup {α β : Type} [Nonempty α] {xs : List α} {name : α → String}
    (hnodup : (xs.map name).Nodup) (value : α → β) :
    ∃ find : String → β, ∀ x ∈ xs, find (name x) = value x := by
  have hinj : Set.InjOn name {x | x ∈ xs} :=
    fun x hx y hy => List.inj_on_of_nodup_map hnodup hx hy
  refine ⟨fun s => value (Function.invFunOn name {x | x ∈ xs} s), ?_⟩
  intro x hx
  exact congrArg value (hinj.leftInvOn_invFunOn hx)

/-- Some frame finds the registers of a chain with distinct names. -/
theorem exists_finds (masks : ContextMasks) (cpu : String)
    (rest : List (Register γ)) (view : CpuFrame γ) (frame : StackFrame)
    (hnodup : ((tests.map RegisterTest.toRegister ++ rest).map
      Register.name).Nodup) :
    ∃ byName frame', Finds byName masks cpu tests frame' view ∧
      byName.allX86 = masks.allX86 ∧
      ∀ register ∈ rest,
        frame'.context register.name = register.value view.context := by
  have : Nonempty (Register γ) := ⟨⟨"", fun _ => 0⟩⟩
  have : Nonempty (RegisterTest γ) := ⟨⟨⟨"", fun _ => 0⟩, ""⟩⟩
  have htests : (tests.map fun test => test.name).Nodup := by
    rw [List.map_append, List.map_map] at hnodup
    exact hnodup.of_append_left
  obtain ⟨context, hcontext⟩ :=
    exists_lookup hnodup fun register => register.value view.context
  obtain ⟨bit, hbit⟩ :=
    exists_lookup htests fun test => masks.bit cpu test.constant
  refine ⟨⟨fun _ => bit, masks.allX86⟩, { frame with
    contextValidity := view.contextValidity
    context := context }, ⟨rfl, hbit, ?_⟩, rfl, ?_⟩
  · intro test htest
    exact hcontext test.toRegister
      (List.mem_append_left _ (List.mem_map_of_mem htest))
  · intro register hregister
    exact hcontext register (List.mem_append_right _ hregister)

theorem exists_finds_chain (masks : ContextMasks) (cpu : String)
    (view : CpuFrame γ) (frame : StackFrame)
    (hnodup : (tests.map fun test => test.name).Nodup) :
    ∃ byName frame', Finds byName masks cpu tests frame' view := by
  have hnames : ((tests.map RegisterTest.toRegister ++ []).map
      Register.name).Nodup := by
    rwa [List.append_nil, List.map_map]
  obtain ⟨byName, frame', h, -⟩ := exists_finds masks cpu [] view frame hnames
  exact ⟨byName, frame', h⟩

/-- Whatever the views of a frame are, the model by names has such a frame. -/
theorem exists_sameFrame (masks : ContextMasks) (cpu : String)
    (views : FrameViews) (frame : StackFrame) :
    ∃ byName frame', SameFrame byName masks cpu frame' views := by
  by_cases hx86 : cpu = "x86"
  · subst hx86
    exact exists_finds masks "x86" printX86Rest views.x86 frame (by decide)
  by_cases hppc : cpu = "ppc"
  · subst hppc
    exact exists_finds_chain masks "ppc" views.ppc frame (by decide)
  by_cases hamd64 : cpu = "amd64"
  · subst hamd64
    exact exists_finds_chain masks "amd64" views.amd64 frame (by decide)
  by_cases hsparc : cpu = "sparc"
  · subst hsparc
    exact exists_finds_chain masks "sparc" views.sparc frame (by decide)
  by_cases harm : cpu = "arm"
  · subst harm
    exact exists_finds_chain masks "arm" views.arm frame (by decide)
  by_cases harm64 : cpu = "arm64"
  · subst harm64
    exact exists_finds_chain masks "arm64" views.arm64 frame (by decide)
  unfold SameFrame
  simp only [if_neg hx86, if_neg hppc, if_neg hamd64, if_neg hsparc, if_neg harm,
    if_neg harm64]
  by_cases hmips : cpu = "mips" ∨ cpu = "mips64"
  · simp only [if_pos hmips]
    exact exists_finds_chain masks "mips" views.mips frame (by decide)
  · simp only [if_neg hmips]
    exact ⟨masks, frame, trivial⟩

end ByName

end MiscCode.StackTrace
