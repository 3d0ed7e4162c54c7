import MiscCode.SymbolFile.NormalForm
import MiscCode.Symbols.Plain

/-!
# Symbols read from symbol files

The modules of a `BasicSourceLineResolver` are read from symbol files.  A frame
gets the function, the line or the public symbol of its address, and the rules
that the records about call frames put in force there.  When the file was
written from some records, it is these records that count.

The maps of a module are declared in headers that are not in the repository.
What they answer depends on what was stored in them, in order.
-/

namespace MiscCode
namespace Symbols

open CallFrameInfo CodeModule Fuel StackWalk SymbolFile

variable {ω μ : Type} [CodeModule μ]

/-! ## `BasicSourceLineResolver::Module` -/

/-- The functions declared in headers: those that `LoadMapFromMemory` calls, the
setters of `CFIFrameInfo`, and what the maps answer about an address.  A load
that reads outside of its buffer leaves anything. -/
structure BasicHeaders (ω : Type) extends Headers ω where
  setters : Setters
  nearestFunction : List Function → UInt64 → Option (Function × UInt64 × UInt64)
  line : List Line → UInt64 → Option (Line × UInt64)
  publicSymbol : List PublicSymbol → UInt64 → Option (PublicSymbol × UInt64)
  initialRules : List InitialRules → UInt64 → Option InitialRules
  stray : Text → Module ω

/-- `LoadMapFromMemory`, which the length of the buffer is a budget for. -/
def BasicHeaders.load (headers : BasicHeaders ω) (memoryBuffer : Text) :
    Module ω :=
  match loadMapFromMemory headers.toHeaders (memoryBuffer.length + 1)
    memoryBuffer with
  | .ok (some loaded) => loaded.1
  | _ => headers.stray memoryBuffer

/-- The line of an address in a function. -/
def BasicHeaders.lookupLine (headers : BasicHeaders ω) (symbols : Module ω)
    (base address : UInt64) (func : Function) (frame : StackFrame μ) :
    StackFrame μ :=
  match headers.line func.lines address with
  | none => frame
  | some (line, lineBase) =>
      { frame with
        -- of two files with one number the first one is kept
        sourceFileName :=
          (symbols.files.lookup line.sourceFileId).getD frame.sourceFileName
        sourceLine := line.line
        sourceLineBase := base + lineBase }

/-- The public symbol of an address, if it is behind the function that is
nearest to it. -/
def BasicHeaders.lookupPublicSymbol (headers : BasicHeaders ω)
    (symbols : Module ω) (base address : UInt64) (functionBase : Option UInt64)
    (frame : StackFrame μ) : StackFrame μ :=
  match headers.publicSymbol symbols.publicSymbols address with
  | none => frame
  | some (symbol, publicAddress) =>
      if functionBase.all (· < publicAddress) then
        { frame with
          functionName := symbol.name
          functionBase := base + publicAddress }
      else frame

/-- `LookupAddress`. -/
def BasicHeaders.lookupAddress (headers : BasicHeaders ω) (symbols : Module ω)
    (frame : StackFrame μ) : StackFrame μ :=
  match frame.module with
  | none => frame
  | some module =>
      let base := baseAddress module
      let address := frame.instruction - base
      match headers.nearestFunction symbols.functions address with
      | none => headers.lookupPublicSymbol symbols base address none frame
      | some (func, functionBase, functionSize) =>
          if functionBase ≤ address ∧ address - functionBase < functionSize then
            headers.lookupLine symbols base address func
              { frame with
                functionName := func.name
                functionBase := base + functionBase }
          else
            headers.lookupPublicSymbol symbols base address (some functionBase)
              frame

/-- The records about call frames in a module. -/
def BasicHeaders.cfiRecords (headers : BasicHeaders ω) (symbols : Module ω) :
    CFIRecords where
  retrieveRange := headers.initialRules symbols.cfiInitialRules
  deltaRules := symbols.cfiDeltaRules

omit [CodeModule μ] in
theorem lookupPublicSymbol_keeps (headers : BasicHeaders ω) (symbols : Module ω)
    (base address : UInt64) (functionBase : Option UInt64)
    (frame : StackFrame μ) :
    let found :=
      headers.lookupPublicSymbol symbols base address functionBase frame
    found.instruction = frame.instruction ∧ found.trust = frame.trust := by
  dsimp only [BasicHeaders.lookupPublicSymbol]
  split
  · exact ⟨rfl, rfl⟩
  · split
    · exact ⟨rfl, rfl⟩
    · exact ⟨rfl, rfl⟩

/-- A frame keeps its address and how it was found. -/
theorem lookupAddress_keeps (headers : BasicHeaders ω) (symbols : Module ω)
    (frame : StackFrame μ) :
    (headers.lookupAddress symbols frame).instruction = frame.instruction ∧
      (headers.lookupAddress symbols frame).trust = frame.trust := by
  rw [BasicHeaders.lookupAddress]
  split
  · exact ⟨rfl, rfl⟩
  · dsimp only
    split
    · exact lookupPublicSymbol_keeps headers symbols _ _ _ frame
    · split
      · rw [BasicHeaders.lookupLine]
        split
        · exact ⟨rfl, rfl⟩
        · exact ⟨rfl, rfl⟩
      · exact lookupPublicSymbol_keeps headers symbols _ _ _ frame

/-- A `BasicModuleFactory`. -/
def BasicHeaders.factory (headers : BasicHeaders ω) (μ : Type) [CodeModule μ] :
    ModuleFactory μ (Module ω) where
  load := headers.load
  isCorrupt := Module.isCorrupt
  lookupAddress := headers.lookupAddress
  findCFIFrameInfo := fun symbols frame => do
    let module ← frame.module
    findCFIFrameInfo headers.setters (headers.cfiRecords symbols)
      (frame.instruction - baseAddress module)
  keeps_instruction := fun symbols frame =>
    (lookupAddress_keeps headers symbols frame).1
  keeps_trust := fun symbols frame => (lookupAddress_keeps headers symbols frame).2

/-! ## Files that were written -/

/-- The module that records are stored in, one after the other. -/
def stored (records : List Record) : Module ω :=
  (records.foldl Loading.store (.fresh [])).finish.1

theorem stored_initialRules (records : List Record) :
    (stored records : Module ω).cfiInitialRules =
      records.filterMap Record.initial? :=
  foldl_store_initialRules (.fresh []) records

theorem stored_deltaRules (records : List Record) (address : UInt64) :
    (stored records : Module ω).cfiDeltaRules.entries.lookup address =
      (records.filterMap Record.delta?).reverse.lookup address :=
  (foldl_store_deltaRules (.fresh []) records address).trans (Option.or_none)

theorem stored_isCorrupt (records : List Record) :
    (stored records : Module ω).isCorrupt = false := by
  have herrors : (records.foldl Loading.store (.fresh [] : Loading ω)).errors = [] :=
    foldl_store_errors _ records
  rw [stored, Loading.finish, herrors]
  rfl

/-- What a load ends with is what the resolver keeps. -/
theorem BasicHeaders.load_of_ends (headers : BasicHeaders ω)
    {memoryBuffer : Text} {loaded : Module ω × List (ParseError × ℕ)}
    (h : EndsIn () (fun fuel =>
      loadMapFromMemory headers.toHeaders fuel memoryBuffer)
      (.ok (some loaded))) : headers.load memoryBuffer = loaded.1 := by
  obtain ⟨r, hr, -⟩ := load_within headers.toHeaders memoryBuffer
  have hsame := (steady_load headers.toHeaders memoryBuffer).unique (.of_ok hr) h
  rw [BasicHeaders.load, hr.trans hsame]

/-- Nothing is wrong with what was stored. -/
theorem symbolsResult_stored (headers : BasicHeaders ω) (records : List Record) :
    symbolsResult (headers.factory μ) (stored records) = .noError := by
  apply if_neg
  change ¬ (stored records : Module ω).isCorrupt = true
  rw [stored_isCorrupt]
  exact Bool.false_ne_true

variable {headers : BasicHeaders ω} {paths : List Text} {files : Files}
  {module : μ} {records : List Record}

/-- A symbol file that was written holds the records. -/
theorem plainSymbols_written
    (hfits : FitInTurn headers.toHeaders (.fresh []) records)
    (hdata : getSymbolData paths files module = some (write records)) :
    plainSymbols (headers.factory μ) paths files module = some (stored records) := by
  rw [plainSymbols, hdata]
  exact congrArg some (headers.load_of_ends (load_write headers.toHeaders hfits))

/-- The rules that a symbolizer finds for a frame of a module that is loaded. -/
theorem findCFIFrameInfo_loaded {s : SymbolizerState SupplierState (Module ω)}
    (hloaded : s.resolver.modules (moduleKey module) = some (stored records))
    {frame : StackFrame μ} (hframe : frame.module = some module) :
    (simpleSymbolizer (headers.factory μ) paths).findCFIFrameInfo frame s =
      findCFIFrameInfo headers.setters (headers.cfiRecords (stored records))
        (frame.instruction - baseAddress module) := by
  simp only [StackFrameSymbolizer.findCFIFrameInfo, simpleSymbolizer,
    Option.bind_some, ModuleFactory.resolveCFI, BasicHeaders.factory, hframe,
    Option.bind_eq_bind, hloaded]

/-- A module that the records were found for is loaded behind the calls. -/
theorem loaded_written (hmodules : OneSymbolFile μ)
    (hfits : FitInTurn headers.toHeaders (.fresh []) records)
    (hdata : getSymbolData paths files module = some (write records))
    {calls : List (Call Files μ)} (hfiles : ∀ call ∈ calls, call.env = files)
    {call : Call Files μ} (hcall : call ∈ calls)
    (hmodule : call.module = some module) :
    ((simpleSymbolizer (headers.factory μ) paths).run calls
        .fresh).2.resolver.modules (moduleKey module) = some (stored records) := by
  have hplain := plainSymbols_written hfits hdata
  have hfresh := kept_fresh (headers.factory μ) paths files
  have hverdict := Kept.verdict_run hmodules hcall hmodule _ hfresh hfiles
  have hkept := (Kept.run hmodules calls _ hfresh hfiles).2
  rw [plainFill_found hmodule hplain, symbolsResult_stored,
    SymbolizerState.verdict] at hverdict
  split at hverdict
  · cases hverdict
  · split at hverdict
    · rename_i hloaded
      obtain ⟨symbols, hsymbols⟩ := Option.isSome_iff_exists.mp hloaded
      rw [hsymbols, ← hkept.loaded module symbols hsymbols, hplain]
    · cases hverdict

/-- Maps that answer with the first entry whose range has the address. -/
def sampleBasicHeaders : BasicHeaders Unit where
  toHeaders := sampleHeaders
  setters := listSetters
  nearestFunction := fun functions address =>
    (functions.find? fun func =>
      func.address ≤ address && address - func.address < func.size).map
        fun func => (func, func.address, func.size)
  line := fun lines address =>
    (lines.find? fun line =>
      line.address ≤ address && address - line.address < line.size).map
        fun line => (line, line.address)
  publicSymbol := fun symbols address =>
    (symbols.find? fun symbol => symbol.address ≤ address).map
      fun symbol => (symbol, symbol.address)
  initialRules := fun rules address =>
    rules.find? fun initial =>
      initial.base ≤ address && address - initial.base < initial.size
  stray := fun _ => .fresh

/-- The symbol file of the program, with one record of each kind. -/
def writtenFiles : Files := fun path =>
  if path = "/s/program/01/program.sym".toList then some (write sampleRecords)
  else none

/-- A call about an address of the program. -/
def writtenCall : Call Files SampleModule where
  env := writtenFiles
  modules := some fun _ => some .program
  frame := sampleFrame 0x2004

/-- The function at the address, which has no line, and the rule in force for the
frame address. -/
example :
    let symbolizer := simpleSymbolizer (sampleBasicHeaders.factory SampleModule)
      ["/s".toList]
    let reached := symbolizer.run [writtenCall] .fresh
    (reached.1.map fun answer => (answer.2.functionName,
        answer.2.functionBase, answer.2.sourceLine)) =
          [("main".toList, 0x2000, 0)] ∧
      (symbolizer.findCFIFrameInfo (writtenCall.located .program) reached.2).map
        (fun info => info.rule? cfaName) = some (some "$rsp 16 +".toList) := by
  decide +kernel

end Symbols
end MiscCode
