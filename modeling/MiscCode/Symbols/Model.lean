import MiscCode.StackTrace.Model
import MiscCode.StackWalk.Model

/-!
# Symbols for the frames of a stack

A `StackFrameSymbolizer` looks a frame up in the symbols of its module.  It asks
a supplier for symbols that it does not have, a resolver keeps those that were
found, and the modules without symbols are remembered as well.

What the symbols of a module are is left to the factory of the resolver.
-/

namespace MiscCode
namespace Symbols

open CallFrameInfo CString StackWalk

/-- A `CodeModule`; the modules themselves are known by their pointers. -/
class CodeModule (μ : Type) where
  baseAddress : μ → UInt64
  codeFile : μ → Text
  debugFile : μ → Text
  debugIdentifier : μ → Text

open CodeModule

/-- A `std::set`, or the keys of a `std::map`, with one more element. -/
def insert {κ : Type} [DecidableEq κ] (key : κ) (keys : κ → Bool) : κ → Bool :=
  fun other => other = key || keys other

theorem insert_eq_true_iff {κ : Type} [DecidableEq κ] {key other : κ}
    {keys : κ → Bool} :
    insert key keys other = true ↔ other = key ∨ keys other = true := by
  simp [insert]

/-! ## `SymbolSupplier` -/

/-- A `SymbolResult` with what is found. -/
inductive SymbolResult where
  | found (symbolData : Text)
  | notFound
  | interrupt
  deriving DecidableEq, Repr

/-- A `SymbolSupplier` with states of the type `τ`; its answers may depend on
the environment. -/
structure SymbolSupplier (ε τ μ : Type) where
  getCStringSymbolData : ε → μ → τ → SymbolResult × τ
  freeSymbolData : μ → τ → τ

/-! ## `SimpleSymbolSupplier` -/

/-- The contents of the files there are. -/
abbrev Files := Text → Option Text

/-- The end of file as `getline` is given it, as a character. -/
def eofChar : Char := '\xff'

/-- `PathnameStripper::File` for a text. -/
def fileName (path : Text) : Text :=
  (StackTrace.file (String.ofList path)).toList

/-- The debug file's name for the symbol file, without its last part. -/
def symbolFileStem (debugFileName : Text) : Text :=
  let debugFileExtension :=
    if 4 < debugFileName.length then
      (debugFileName.drop (debugFileName.length - 4)).map Char.toLower
    else []
  if debugFileExtension = ".pdb".toList then
    debugFileName.take (debugFileName.length - 4)
  else debugFileName

section Supplier

variable {μ : Type} [CodeModule μ]

/-- `GetSymbolFileAtPathFromRoot`. -/
def getSymbolFileAtPathFromRoot (files : Files) (module : μ) (rootPath : Text) :
    Option Text :=
  let debugFileName := fileName (debugFile module)
  if debugFileName = [] then none
  else
    let identifier := debugIdentifier module
    if identifier = [] then none
    else
      let path := rootPath ++ ['/'] ++ debugFileName ++ ['/'] ++ identifier ++
        ['/'] ++ symbolFileStem debugFileName ++ ".sym".toList
      if (files (text nul path)).isSome then some path else none

/-- `GetSymbolFile`. -/
def getSymbolFile (paths : List Text) (files : Files) (module : μ) :
    Option Text :=
  paths.findSome? (getSymbolFileAtPathFromRoot files module)

/-- `GetSymbolFile` with the data: what is in front of a byte that looks like the
end of the file. -/
def getSymbolData (paths : List Text) (files : Files) (module : μ) :
    Option Text :=
  (getSymbolFile paths files module).map fun symbolFile =>
    ((files (text nul symbolFile)).getD []).takeWhile (· ≠ eofChar)

/-- The buffers of a `SimpleSymbolSupplier`: those it still has by the code
files, how many were allocated so far, and which of them were deleted. -/
structure SupplierState where
  memoryBuffers : Text → Option ℕ
  allocated : ℕ
  deleted : List ℕ

/-- A new supplier. -/
def SupplierState.fresh : SupplierState where
  memoryBuffers := fun _ => none
  allocated := 0
  deleted := []

/-- `memory_buffers_.insert`, which leaves a buffer that is there already. -/
def SupplierState.insertBuffer (s : SupplierState) (codeFile : Text) :
    SupplierState where
  memoryBuffers := fun other =>
    if other = codeFile then some ((s.memoryBuffers codeFile).getD s.allocated)
    else s.memoryBuffers other
  allocated := s.allocated + 1
  deleted := s.deleted

/-- `GetCStringSymbolData`. -/
def getCStringSymbolData (paths : List Text) (files : Files) (module : μ)
    (s : SupplierState) : SymbolResult × SupplierState :=
  match getSymbolData paths files module with
  | some symbolData => (.found symbolData, s.insertBuffer (codeFile module))
  | none => (.notFound, s)

/-- `FreeSymbolData`. -/
def freeSymbolData (module : μ) (s : SupplierState) : SupplierState :=
  match s.memoryBuffers (codeFile module) with
  | none => s
  | some buffer =>
      { s with
        memoryBuffers := fun other =>
          if other = codeFile module then none else s.memoryBuffers other
        deleted := s.deleted ++ [buffer] }

/-- A `SimpleSymbolSupplier` for some paths. -/
def simpleSymbolSupplier (paths : List Text) :
    SymbolSupplier Files SupplierState μ where
  getCStringSymbolData := getCStringSymbolData paths
  freeSymbolData := freeSymbolData

end Supplier

/-! ## `SourceLineResolverBase` -/

/-- A `ModuleFactory` and the methods of its modules.  `load` is
`LoadMapFromMemory` for a new module. -/
structure ModuleFactory (μ M : Type) where
  load : (memoryBuffer : Text) → M
  isCorrupt : M → Bool
  lookupAddress : M → StackFrame μ → StackFrame μ
  findCFIFrameInfo : M → StackFrame μ → Option FrameInfo
  keeps_instruction : ∀ symbols frame,
    (lookupAddress symbols frame).instruction = frame.instruction
  keeps_trust : ∀ symbols frame,
    (lookupAddress symbols frame).trust = frame.trust

/-- The maps of a resolver.  Their keys are compared as C strings. -/
structure ResolverState (M : Type) where
  modules : Text → Option M
  corruptModules : Text → Bool

/-- A new resolver. -/
def ResolverState.fresh {M : Type} : ResolverState M where
  modules := fun _ => none
  corruptModules := fun _ => false

section Resolver

variable {μ M : Type} [CodeModule μ]

/-- A code file as `CompareString` sees it. -/
def moduleKey (module : μ) : Text := text nul (codeFile module)

/-- `HasModule`. -/
def ResolverState.hasModule (s : ResolverState M) (module : μ) : Bool :=
  (s.modules (moduleKey module)).isSome

/-- `IsModuleCorrupt`. -/
def ResolverState.isModuleCorrupt (s : ResolverState M) (module : μ) : Bool :=
  s.corruptModules (moduleKey module)

/-- `LoadModuleUsingMemoryBuffer`.  Symbols with too many errors are kept. -/
def ModuleFactory.loadModuleUsingMemoryBuffer (factory : ModuleFactory μ M)
    (module : μ) (memoryBuffer : Text) (s : ResolverState M) :
    Bool × ResolverState M :=
  if s.hasModule module then (false, s)
  else
    let basicModule := factory.load memoryBuffer
    (true,
      { modules := fun other =>
          if other = moduleKey module then some basicModule else s.modules other
        corruptModules :=
          if factory.isCorrupt basicModule then
            insert (moduleKey module) s.corruptModules
          else s.corruptModules })

/-- `UnloadModule`. -/
def ResolverState.unloadModule (module : μ) (s : ResolverState M) :
    ResolverState M :=
  match s.modules (moduleKey module) with
  | none => s
  | some _ =>
      { modules := fun other =>
          if other = moduleKey module then none else s.modules other
        corruptModules := fun other =>
          other ≠ moduleKey module && s.corruptModules other }

/-- `FillSourceLineInfo` of the resolver. -/
def ModuleFactory.fillSourceLineInfo (factory : ModuleFactory μ M)
    (frame : StackFrame μ) (s : ResolverState M) : StackFrame μ :=
  match frame.module.bind fun module => s.modules (moduleKey module) with
  | none => frame
  | some symbols => factory.lookupAddress symbols frame

/-- `FindCFIFrameInfo` of the resolver. -/
def ModuleFactory.resolveCFI (factory : ModuleFactory μ M)
    (frame : StackFrame μ) (s : ResolverState M) : Option FrameInfo := do
  let module ← frame.module
  let symbols ← s.modules (moduleKey module)
  factory.findCFIFrameInfo symbols frame

end Resolver

/-! ## `StackFrameSymbolizer` -/

/-- A `StackFrameSymbolizer`; it may be without a supplier and without a
resolver. -/
structure StackFrameSymbolizer (ε τ μ M : Type) where
  supplier : Option (SymbolSupplier ε τ μ)
  resolver : Option (ModuleFactory μ M)

/-- The state of a symbolizer, its supplier and its resolver. -/
structure SymbolizerState (τ M : Type) where
  noSymbolModules : Text → Bool
  resolver : ResolverState M
  supplier : τ

/-- `GetModuleForAddress` of the modules, if there are any. -/
abbrev CodeModules (μ : Type) := Option (UInt64 → Option μ)

section Symbolizer

variable {ε τ μ M : Type} [CodeModule μ]

/-- The answer for a module that is loaded. -/
def loadedResult (module : μ) (s : ResolverState M) : SymbolizerResult :=
  if s.isModuleCorrupt module then .warningCorruptSymbols else .noError

/-- `FillSourceLineInfo` for a module whose symbols are not known: the supplier
is asked for them. -/
def SymbolSupplier.fetch (supplier : SymbolSupplier ε τ μ)
    (factory : ModuleFactory μ M) (env : ε) (module : μ) (frame : StackFrame μ)
    (s : SymbolizerState τ M) :
    SymbolizerResult × StackFrame μ × SymbolizerState τ M :=
  match supplier.getCStringSymbolData env module s.supplier with
  | (.found symbolData, answered) =>
      let loaded := factory.loadModuleUsingMemoryBuffer module
        (symbolData ++ [nul]) s.resolver
      -- a `BasicSourceLineResolver` has no use for the buffer any more
      let freed := supplier.freeSymbolData module answered
      if loaded.1 then
        (loadedResult module loaded.2,
          factory.fillSourceLineInfo frame loaded.2,
          { s with resolver := loaded.2, supplier := freed })
      else
        (.error, frame,
          { noSymbolModules := insert (codeFile module) s.noSymbolModules
            resolver := loaded.2
            supplier := freed })
  | (.notFound, answered) =>
      (.error, frame,
        { s with
          noSymbolModules := insert (codeFile module) s.noSymbolModules
          supplier := answered })
  | (.interrupt, answered) =>
      (.interrupt, frame, { s with supplier := answered })

/-- `FillSourceLineInfo`. -/
def StackFrameSymbolizer.fillSourceLineInfo
    (symbolizer : StackFrameSymbolizer ε τ μ M) (env : ε)
    (modules : CodeModules μ) (frame : StackFrame μ)
    (s : SymbolizerState τ M) :
    SymbolizerResult × StackFrame μ × SymbolizerState τ M :=
  match modules.bind fun moduleForAddress => moduleForAddress frame.instruction with
  | none => (.error, frame, s)
  | some module =>
      let frame := { frame with module := some module }
      match symbolizer.resolver with
      | none => (.error, frame, s)
      | some factory =>
          if s.noSymbolModules (codeFile module) then (.error, frame, s)
          else if s.resolver.hasModule module then
            (loadedResult module s.resolver,
              factory.fillSourceLineInfo frame s.resolver, s)
          else
            match symbolizer.supplier with
            | none => (.error, frame, s)
            | some supplier => supplier.fetch factory env module frame s

/-- `FindCFIFrameInfo`. -/
def StackFrameSymbolizer.findCFIFrameInfo
    (symbolizer : StackFrameSymbolizer ε τ μ M) (frame : StackFrame μ)
    (s : SymbolizerState τ M) : Option FrameInfo :=
  symbolizer.resolver.bind fun factory => factory.resolveCFI frame s.resolver

end Symbolizer

/-! ## Two modules of a process -/

/-- A program and its library. -/
inductive SampleModule where
  | program | library
  deriving DecidableEq

instance : CodeModule SampleModule where
  baseAddress
    | .program => 0x1000
    | .library => 0x2000
  codeFile
    | .program => "/bin/program".toList
    | .library => "/lib/library.so".toList
  debugFile
    | .program => "/bin/program".toList
    | .library => "/lib/library.so".toList
  debugIdentifier
    | .program => "01".toList
    | .library => "02".toList

/-- Where the two modules are. -/
def sampleModules : CodeModules SampleModule :=
  some fun address =>
    if 0x2000 ≤ address then some .library
    else if 0x1000 ≤ address then some .program
    else none

/-- Symbols that are one name for all of a module. -/
def sampleFactory : ModuleFactory SampleModule Text where
  load := text nul
  isCorrupt := fun symbols => symbols = []
  lookupAddress := fun symbols frame => { frame with functionName := symbols }
  findCFIFrameInfo := fun _ _ => none
  keeps_instruction := fun _ _ => rfl
  keeps_trust := fun _ _ => rfl

/-- The symbol file of the program. -/
def sampleFiles : Files := fun path =>
  if path = "/s/program/01/program.sym".toList then some "main".toList else none

/-- A frame at an address. -/
def sampleFrame (instruction : UInt64) : StackFrame SampleModule where
  instruction := instruction
  module := none
  functionName := []
  functionBase := 0
  sourceFileName := []
  sourceLine := 0
  sourceLineBase := 0
  trust := .none

end Symbols
end MiscCode
