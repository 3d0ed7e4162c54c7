import MiscCode.StackTrace.Model

/-!
# The registers of a frame

`PrintStack` and `RfPrintStack` go through the registers of a frame with chains
of tests that were written out twice: each test looks at one constant and gives
out one name with one field of the context.  The chains that both have are the
same, but `RfPrintStack` has none for ppc, sparc, arm64 and mips.

The chains are given as they stand in the two functions.
-/

namespace MiscCode.StackTrace

/-! ## Contexts -/

/-- The registers of x86. -/
structure ContextX86 where
  eip : UInt32
  esp : UInt32
  ebp : UInt32
  ebx : UInt32
  esi : UInt32
  edi : UInt32
  eax : UInt32
  ecx : UInt32
  edx : UInt32
  eflags : UInt32

/-- The registers of ppc. -/
structure ContextPPC where
  srr0 : UInt32
  gpr : Fin 32 → UInt32

/-- The registers of amd64. -/
structure ContextAMD64 where
  rax : UInt64
  rdx : UInt64
  rcx : UInt64
  rbx : UInt64
  rsi : UInt64
  rdi : UInt64
  rbp : UInt64
  rsp : UInt64
  r8 : UInt64
  r9 : UInt64
  r10 : UInt64
  r11 : UInt64
  r12 : UInt64
  r13 : UInt64
  r14 : UInt64
  r15 : UInt64
  rip : UInt64

/-- The registers of sparc. -/
structure ContextSPARC where
  gR : Fin 32 → UInt64
  pc : UInt64

/-- The registers of arm. -/
structure ContextARM where
  iregs : Fin 16 → UInt32

/-- The registers of arm64. -/
structure ContextARM64 where
  iregs : Fin 33 → UInt64

/-- The constants `MD_CONTEXT_MIPS_REG` that index the registers of mips. -/
inductive MipsReg where
  | gp
  | sp
  | fp
  | ra
  | s0
  | s1
  | s2
  | s3
  | s4
  | s5
  | s6
  | s7
  deriving DecidableEq, Repr

/-- The registers of mips. -/
structure ContextMIPS where
  iregs : MipsReg → UInt64
  epc : UInt64

/-- A frame of one family of processors; `context_validity` is widened to 64
bits, which changes no test. -/
structure CpuFrame (γ : Type) where
  contextValidity : UInt64
  context : γ

/-- A frame as `reinterpret_cast` shows it to the code for each family. -/
structure FrameViews where
  x86 : CpuFrame ContextX86
  ppc : CpuFrame ContextPPC
  amd64 : CpuFrame ContextAMD64
  sparc : CpuFrame ContextSPARC
  arm : CpuFrame ContextARM
  arm64 : CpuFrame ContextARM64
  mips : CpuFrame ContextMIPS

/-! ## Tests -/

/-- A name and the field that is given out with it. -/
structure Register (γ : Type) where
  name : String
  value : γ → UInt64

/-- A test of `context_validity` with a constant, and what it gives out. -/
structure RegisterTest (γ : Type) extends Register γ where
  constant : String

/-- The name and the value of a register. -/
def Register.pair {γ : Type} (register : Register γ) (context : γ) :
    String × UInt64 :=
  (register.name, register.value context)

/-- Whether a test succeeds. -/
def RegisterTest.holds {γ : Type} (masks : ContextMasks) (cpu : String)
    (frame : CpuFrame γ) (test : RegisterTest γ) : Bool :=
  frame.contextValidity &&& masks.bit cpu test.constant ≠ 0

/-- What a chain of tests gives out. -/
def chain {γ : Type} (masks : ContextMasks) (cpu : String)
    (tests : List (RegisterTest γ)) (frame : CpuFrame γ) :
    List (String × UInt64) :=
  (tests.filter (RegisterTest.holds masks cpu frame)).map
    fun test => test.pair frame.context

/-- A chain with registers that are given out when all of the context is
valid. -/
def chainX86 (masks : ContextMasks) (tests : List (RegisterTest ContextX86))
    (rest : List (Register ContextX86)) (frame : CpuFrame ContextX86) :
    List (String × UInt64) :=
  chain masks "x86" tests frame ++
    if frame.contextValidity = masks.allX86 then
      rest.map fun register => register.pair frame.context
    else []

/-- A test for a field of 32 bits. -/
def test32 {γ : Type} (constant name : String) (value : γ → UInt32) :
    RegisterTest γ where
  constant := constant
  name := name
  value context := (value context).toUInt64

/-- A test for a field of 64 bits. -/
def test64 {γ : Type} (constant name : String) (value : γ → UInt64) :
    RegisterTest γ where
  constant := constant
  name := name
  value := value

/-- A register of 32 bits. -/
def register32 {γ : Type} (name : String) (value : γ → UInt32) :
    Register γ where
  name := name
  value context := (value context).toUInt64

/-! ## The chains of `PrintStack` -/

def printX86 : List (RegisterTest ContextX86) :=
  [test32 "EIP" "eip" (·.eip),
    test32 "ESP" "esp" (·.esp),
    test32 "EBP" "ebp" (·.ebp),
    test32 "EBX" "ebx" (·.ebx),
    test32 "ESI" "esi" (·.esi),
    test32 "EDI" "edi" (·.edi)]

def printX86Rest : List (Register ContextX86) :=
  [register32 "eax" (·.eax),
    register32 "ecx" (·.ecx),
    register32 "edx" (·.edx),
    register32 "efl" (·.eflags)]

def printPPC : List (RegisterTest ContextPPC) :=
  [test32 "SRR0" "srr0" (·.srr0),
    test32 "GPR1" "r1" (·.gpr 1)]

def printAMD64 : List (RegisterTest ContextAMD64) :=
  [test64 "RAX" "rax" (·.rax),
    test64 "RDX" "rdx" (·.rdx),
    test64 "RCX" "rcx" (·.rcx),
    test64 "RBX" "rbx" (·.rbx),
    test64 "RSI" "rsi" (·.rsi),
    test64 "RDI" "rdi" (·.rdi),
    test64 "RBP" "rbp" (·.rbp),
    test64 "RSP" "rsp" (·.rsp),
    test64 "R8" "r8" (·.r8),
    test64 "R9" "r9" (·.r9),
    test64 "R10" "r10" (·.r10),
    test64 "R11" "r11" (·.r11),
    test64 "R12" "r12" (·.r12),
    test64 "R13" "r13" (·.r13),
    test64 "R14" "r14" (·.r14),
    test64 "R15" "r15" (·.r15),
    test64 "RIP" "rip" (·.rip)]

def printSPARC : List (RegisterTest ContextSPARC) :=
  [test64 "SP" "sp" (·.gR 14),
    test64 "FP" "fp" (·.gR 30),
    test64 "PC" "pc" (·.pc)]

def printARM : List (RegisterTest ContextARM) :=
  [test32 "R0" "r0" (·.iregs 0),
    test32 "R1" "r1" (·.iregs 1),
    test32 "R2" "r2" (·.iregs 2),
    test32 "R3" "r3" (·.iregs 3),
    test32 "R4" "r4" (·.iregs 4),
    test32 "R5" "r5" (·.iregs 5),
    test32 "R6" "r6" (·.iregs 6),
    test32 "R7" "r7" (·.iregs 7),
    test32 "R8" "r8" (·.iregs 8),
    test32 "R9" "r9" (·.iregs 9),
    test32 "R10" "r10" (·.iregs 10),
    test32 "R12" "r12" (·.iregs 12),
    test32 "FP" "fp" (·.iregs 11),
    test32 "SP" "sp" (·.iregs 13),
    test32 "LR" "lr" (·.iregs 14),
    test32 "PC" "pc" (·.iregs 15)]

def printARM64 : List (RegisterTest ContextARM64) :=
  [test64 "X0" "x0" (·.iregs 0),
    test64 "X1" "x1" (·.iregs 1),
    test64 "X2" "x2" (·.iregs 2),
    test64 "X3" "x3" (·.iregs 3),
    test64 "X4" "x4" (·.iregs 4),
    test64 "X5" "x5" (·.iregs 5),
    test64 "X6" "x6" (·.iregs 6),
    test64 "X7" "x7" (·.iregs 7),
    test64 "X8" "x8" (·.iregs 8),
    test64 "X9" "x9" (·.iregs 9),
    test64 "X10" "x10" (·.iregs 10),
    test64 "X11" "x11" (·.iregs 11),
    test64 "X12" "x12" (·.iregs 12),
    test64 "X13" "x13" (·.iregs 13),
    test64 "X14" "x14" (·.iregs 14),
    test64 "X15" "x15" (·.iregs 15),
    test64 "X16" "x16" (·.iregs 16),
    test64 "X17" "x17" (·.iregs 17),
    test64 "X18" "x18" (·.iregs 18),
    test64 "X19" "x19" (·.iregs 19),
    test64 "X20" "x20" (·.iregs 20),
    test64 "X21" "x21" (·.iregs 21),
    test64 "X22" "x22" (·.iregs 22),
    test64 "X23" "x23" (·.iregs 23),
    test64 "X24" "x24" (·.iregs 24),
    test64 "X25" "x25" (·.iregs 25),
    test64 "X26" "x26" (·.iregs 26),
    test64 "X27" "x27" (·.iregs 27),
    test64 "X28" "x28" (·.iregs 28),
    test64 "FP" "fp" (·.iregs 29),
    test64 "LR" "lr" (·.iregs 30),
    test64 "SP" "sp" (·.iregs 31),
    test64 "PC" "pc" (·.iregs 32)]

def printMIPS : List (RegisterTest ContextMIPS) :=
  [test64 "GP" "gp" (·.iregs .gp),
    test64 "SP" "sp" (·.iregs .sp),
    test64 "FP" "fp" (·.iregs .fp),
    test64 "RA" "ra" (·.iregs .ra),
    test64 "PC" "pc" (·.epc),
    test64 "S0" "s0" (·.iregs .s0),
    test64 "S1" "s1" (·.iregs .s1),
    test64 "S2" "s2" (·.iregs .s2),
    test64 "S3" "s3" (·.iregs .s3),
    test64 "S4" "s4" (·.iregs .s4),
    test64 "S5" "s5" (·.iregs .s5),
    test64 "S6" "s6" (·.iregs .s6),
    test64 "S7" "s7" (·.iregs .s7)]

/-- The registers in `PrintStack`. -/
def printStackRegisters (masks : ContextMasks) (cpu : String)
    (frame : FrameViews) : List Token :=
  if cpu = "x86" then
    printRegisters32 (chainX86 masks printX86 printX86Rest frame.x86)
  else if cpu = "ppc" then printRegisters32 (chain masks "ppc" printPPC frame.ppc)
  else if cpu = "amd64" then
    printRegisters64 (chain masks "amd64" printAMD64 frame.amd64)
  else if cpu = "sparc" then
    printRegisters32 (chain masks "sparc" printSPARC frame.sparc)
  else if cpu = "arm" then printRegisters32 (chain masks "arm" printARM frame.arm)
  else if cpu = "arm64" then
    printRegisters64 (chain masks "arm64" printARM64 frame.arm64)
  else if cpu = "mips" ∨ cpu = "mips64" then
    printRegisters64 (chain masks "mips" printMIPS frame.mips)
  else []

/-! ## The chains of `RfPrintStack` -/

def rfARM : List (RegisterTest ContextARM) :=
  [test32 "R0" "r0" (·.iregs 0),
    test32 "R1" "r1" (·.iregs 1),
    test32 "R2" "r2" (·.iregs 2),
    test32 "R3" "r3" (·.iregs 3),
    test32 "R4" "r4" (·.iregs 4),
    test32 "R5" "r5" (·.iregs 5),
    test32 "R6" "r6" (·.iregs 6),
    test32 "R7" "r7" (·.iregs 7),
    test32 "R8" "r8" (·.iregs 8),
    test32 "R9" "r9" (·.iregs 9),
    test32 "R10" "r10" (·.iregs 10),
    test32 "R12" "r12" (·.iregs 12),
    test32 "FP" "fp" (·.iregs 11),
    test32 "SP" "sp" (·.iregs 13),
    test32 "LR" "lr" (·.iregs 14),
    test32 "PC" "pc" (·.iregs 15)]

def rfX86 : List (RegisterTest ContextX86) :=
  [test32 "EIP" "eip" (·.eip),
    test32 "ESP" "esp" (·.esp),
    test32 "EBP" "ebp" (·.ebp),
    test32 "EBX" "ebx" (·.ebx),
    test32 "ESI" "esi" (·.esi),
    test32 "EDI" "edi" (·.edi)]

def rfX86Rest : List (Register ContextX86) :=
  [register32 "eax" (·.eax),
    register32 "ecx" (·.ecx),
    register32 "edx" (·.edx),
    register32 "efl" (·.eflags)]

def rfAMD64 : List (RegisterTest ContextAMD64) :=
  [test64 "RAX" "rax" (·.rax),
    test64 "RDX" "rdx" (·.rdx),
    test64 "RCX" "rcx" (·.rcx),
    test64 "RBX" "rbx" (·.rbx),
    test64 "RSI" "rsi" (·.rsi),
    test64 "RDI" "rdi" (·.rdi),
    test64 "RBP" "rbp" (·.rbp),
    test64 "RSP" "rsp" (·.rsp),
    test64 "R8" "r8" (·.r8),
    test64 "R9" "r9" (·.r9),
    test64 "R10" "r10" (·.r10),
    test64 "R11" "r11" (·.r11),
    test64 "R12" "r12" (·.r12),
    test64 "R13" "r13" (·.r13),
    test64 "R14" "r14" (·.r14),
    test64 "R15" "r15" (·.r15),
    test64 "RIP" "rip" (·.rip)]

/-- The registers in `RfPrintStack`. -/
def rfStackRegisters (types : FieldTypes) (masks : ContextMasks) (cpu : String)
    (frame : FrameViews) : List RegInfo :=
  let registers :=
    if cpu = "arm" then chain masks "arm" rfARM frame.arm
    else if cpu = "x86" then chainX86 masks rfX86 rfX86Rest frame.x86
    else if cpu = "amd64" then chain masks "amd64" rfAMD64 frame.amd64
    else []
  registers.map fun register =>
    { regName := register.1, regValue := types.regValue register.2 }

end MiscCode.StackTrace
