import MiscCode.Symbols.Runs
import Mathlib.Data.List.Basic

/-!
# Looking up without keeping anything

When the files stay as they are, a symbolizer with a `SimpleSymbolSupplier`
answers as if it read the symbol file anew for every frame.  The buffers that
its supplier allocates are deleted once each.
-/

namespace MiscCode
namespace Symbols

open CallFrameInfo CString StackWalk CodeModule

variable {μ M : Type} [CodeModule μ]

/-! ## The plain way -/

/-- The symbols of a module, read from its file. -/
def plainSymbols (factory : ModuleFactory μ M) (paths : List Text)
    (files : Files) (module : μ) : Option M :=
  (getSymbolData paths files module).map fun symbolData =>
    factory.load (symbolData ++ [nul])

/-- The answer for symbols. -/
def symbolsResult (factory : ModuleFactory μ M) (symbols : M) :
    SymbolizerResult :=
  if factory.isCorrupt symbols then .warningCorruptSymbols else .noError

/-- What `FillSourceLineInfo` would do without any memory. -/
def plainFill (factory : ModuleFactory μ M) (paths : List Text) (files : Files)
    (modules : CodeModules μ) (frame : StackFrame μ) :
    SymbolizerResult × StackFrame μ :=
  match modules.bind fun moduleForAddress => moduleForAddress frame.instruction with
  | none => (.error, frame)
  | some module =>
      let frame := { frame with module := some module }
      match plainSymbols factory paths files module with
      | none => (.error, frame)
      | some symbols =>
          (symbolsResult factory symbols, factory.lookupAddress symbols frame)

/-- A plain answer is no interruption. -/
theorem plainFill_ne_interrupt (factory : ModuleFactory μ M) (paths : List Text)
    (files : Files) (modules : CodeModules μ) (frame : StackFrame μ) :
    (plainFill factory paths files modules frame).1 ≠ .interrupt := by
  rw [plainFill]
  split
  · simp
  · dsimp only
    split
    · simp
    · dsimp only [symbolsResult]
      split <;> simp

/-- Modules with one code file have one symbol file. -/
def OneSymbolFile (μ : Type) [CodeModule μ] : Prop :=
  ∀ module module' : μ, moduleKey module = moduleKey module' →
    debugFile module = debugFile module' ∧
      debugIdentifier module = debugIdentifier module'

/-- A symbolizer with a `SimpleSymbolSupplier` and a resolver. -/
def simpleSymbolizer (factory : ModuleFactory μ M) (paths : List Text) :
    StackFrameSymbolizer Files SupplierState μ M where
  supplier := some (simpleSymbolSupplier paths)
  resolver := some factory

/-- The state of a new symbolizer. -/
def SymbolizerState.fresh : SymbolizerState SupplierState M where
  noSymbolModules := fun _ => false
  resolver := .fresh
  supplier := .fresh

/-! ## What a symbolizer keeps -/

/-- All that is kept is true of the files, and no buffer is kept. -/
structure Kept (factory : ModuleFactory μ M) (paths : List Text) (files : Files)
    (s : SymbolizerState SupplierState M) : Prop where
  missing : ∀ module : μ, s.noSymbolModules (codeFile module) = true →
    plainSymbols factory paths files module = none
  loaded : ∀ (module : μ) symbols,
    s.resolver.modules (moduleKey module) = some symbols →
      plainSymbols factory paths files module = some symbols
  corrupt : ∀ key, s.resolver.corruptModules key =
    (s.resolver.modules key).elim false factory.isCorrupt
  buffers : ∀ key, s.supplier.memoryBuffers key = none
  deleted : s.supplier.deleted = List.range s.supplier.allocated

theorem kept_fresh (factory : ModuleFactory μ M) (paths : List Text)
    (files : Files) : Kept factory paths files SymbolizerState.fresh where
  missing := fun _ h => by cases h
  loaded := fun _ _ h => by cases h
  corrupt := fun _ => rfl
  buffers := fun _ => rfl
  deleted := rfl

section Step

variable {factory : ModuleFactory μ M} {paths : List Text} {files : Files}
  {module : μ} {s : SymbolizerState SupplierState M}

/-- Modules with one code file have the same symbols. -/
theorem plainSymbols_congr (hmodules : OneSymbolFile μ) {module module' : μ}
    (h : moduleKey module = moduleKey module') :
    plainSymbols factory paths files module =
      plainSymbols factory paths files module' := by
  obtain ⟨hdebugFile, hidentifier⟩ := hmodules module module' h
  have hroot : getSymbolFileAtPathFromRoot files module =
      getSymbolFileAtPathFromRoot files module' := by
    funext rootPath
    rw [getSymbolFileAtPathFromRoot, getSymbolFileAtPathFromRoot, hdebugFile,
      hidentifier]
  rw [plainSymbols, plainSymbols, getSymbolData, getSymbolData, getSymbolFile,
    getSymbolFile, hroot]

/-- A buffer is allocated and deleted. -/
theorem freeSymbolData_insertBuffer {t : SupplierState}
    (hbuffers : ∀ key, t.memoryBuffers key = none) (module : μ) :
    freeSymbolData module (t.insertBuffer (codeFile module)) =
      { memoryBuffers := t.memoryBuffers
        allocated := t.allocated + 1
        deleted := t.deleted ++ [t.allocated] } := by
  have hmemory : (fun other => if other = codeFile module then none
      else (t.insertBuffer (codeFile module)).memoryBuffers other) =
        t.memoryBuffers := by
    funext other
    by_cases h : other = codeFile module
    · rw [if_pos h, hbuffers]
    · simp [h, SupplierState.insertBuffer]
  have hbuffer : (t.insertBuffer (codeFile module)).memoryBuffers
      (codeFile module) = some t.allocated := by
    simp [SupplierState.insertBuffer, hbuffers]
  rw [freeSymbolData, hbuffer]
  simp only [hmemory]
  rfl

/-- The answer for a module that is loaded. -/
theorem Kept.loadedResult (h : Kept factory paths files s) {symbols : M}
    (hsymbols : s.resolver.modules (moduleKey module) = some symbols) :
    loadedResult module s.resolver = symbolsResult factory symbols := by
  rw [Symbols.loadedResult, ResolverState.isModuleCorrupt, h.corrupt, hsymbols]
  rfl

/-- A module whose symbols are found is loaded. -/
theorem Kept.found (h : Kept factory paths files s) (hmodules : OneSymbolFile μ)
    {symbolData : Text} (hdata : getSymbolData paths files module = some symbolData)
    (hloaded : s.resolver.hasModule module = false) :
    Kept factory paths files
      { s with
        resolver := (factory.loadModuleUsingMemoryBuffer module
          (symbolData ++ [nul]) s.resolver).2
        supplier := freeSymbolData module
          (s.supplier.insertBuffer (codeFile module)) } := by
  rw [loadModuleUsingMemoryBuffer_of_not factory hloaded,
    freeSymbolData_insertBuffer h.buffers]
  have hplain : plainSymbols factory paths files module =
      some (factory.load (symbolData ++ [nul])) := by
    rw [plainSymbols, hdata]
    rfl
  refine ⟨h.missing, fun other symbols hother => ?_, fun key => ?_, h.buffers, ?_⟩
  · dsimp only at hother
    split at hother
    · rename_i hkey
      rw [plainSymbols_congr hmodules hkey, hplain]
      exact hother
    · exact h.loaded other symbols hother
  · by_cases hkey : key = moduleKey module
    · have hbefore : s.resolver.corruptModules key = false := by
        rw [h.corrupt, hkey]
        rw [ResolverState.hasModule, Option.isSome_eq_false_iff,
          Option.isNone_iff_eq_none] at hloaded
        rw [hloaded]
        rfl
      simp only [if_pos hkey, Option.elim_some]
      split
      · rename_i hcorrupt
        simp [insert, hkey, hcorrupt]
      · rename_i hcorrupt
        rw [hbefore, Bool.eq_false_of_not_eq_true hcorrupt]
    · simp only [if_neg hkey]
      split
      · simp [insert, hkey, h.corrupt]
      · exact h.corrupt key
  · rw [h.deleted, List.range_succ]

/-- A module whose symbols are not found is remembered. -/
theorem Kept.notFound (h : Kept factory paths files s)
    (hmodules : OneSymbolFile μ)
    (hdata : getSymbolData paths files module = none) :
    Kept factory paths files
      { s with
        noSymbolModules := insert (codeFile module) s.noSymbolModules } := by
  refine ⟨fun other hother => ?_, h.loaded, h.corrupt, h.buffers, h.deleted⟩
  rcases insert_eq_true_iff.mp hother with hfile | hother
  · have hkey : moduleKey other = moduleKey module := by
      rw [moduleKey, moduleKey, hfile]
    rw [plainSymbols_congr hmodules hkey, plainSymbols, hdata]
    rfl
  · exact h.missing other hother

/-- The plain answer for a call whose module has no symbols. -/
theorem plainFill_missing {call : Call Files μ}
    (hmodule : call.module = some module)
    (h : plainSymbols factory paths files module = none) :
    plainFill factory paths files call.modules call.frame =
      (.error, call.located module) := by
  rw [Call.module] at hmodule
  simp only [plainFill, hmodule, h]
  rfl

/-- The plain answer for a call whose module has symbols. -/
theorem plainFill_found {call : Call Files μ} {symbols : M}
    (hmodule : call.module = some module)
    (h : plainSymbols factory paths files module = some symbols) :
    plainFill factory paths files call.modules call.frame =
      (symbolsResult factory symbols,
        factory.lookupAddress symbols (call.located module)) := by
  rw [Call.module] at hmodule
  simp only [plainFill, hmodule, h]
  rfl

/-- The resolver looks the address up in the symbols that are loaded. -/
theorem fillSourceLineInfo_loaded {r : ResolverState M} {call : Call Files μ}
    {symbols : M} (h : r.modules (moduleKey module) = some symbols) :
    factory.fillSourceLineInfo (call.located module) r =
      factory.lookupAddress symbols (call.located module) := by
  have hbind : (call.located module).module.bind
      (fun module => r.modules (moduleKey module)) = some symbols := h
  rw [ModuleFactory.fillSourceLineInfo, hbind]

/-- The supplier is asked, and answers what the file holds. -/
theorem Kept.fetch (h : Kept factory paths files s) (hmodules : OneSymbolFile μ)
    {call : Call Files μ} (hmodule : call.module = some module)
    (hloaded : s.resolver.hasModule module = false) :
    let filled := (simpleSymbolSupplier paths).fetch factory files module
      (call.located module) s
    (filled.1, filled.2.1) =
        plainFill factory paths files call.modules call.frame ∧
      Kept factory paths files filled.2.2 := by
  cases hdata : getSymbolData paths files module with
  | none =>
      have hplain : plainSymbols factory paths files module = none := by
        rw [plainSymbols, hdata]
        rfl
      rw [plainFill_missing hmodule hplain]
      simp only [SymbolSupplier.fetch, simpleSymbolSupplier,
        getCStringSymbolData, hdata]
      exact ⟨trivial, h.notFound hmodules hdata⟩
  | some symbolData =>
      have hplain : plainSymbols factory paths files module =
          some (factory.load (symbolData ++ [nul])) := by
        rw [plainSymbols, hdata]
        rfl
      have hfound := h.found hmodules hdata hloaded
      have hsymbols : (factory.loadModuleUsingMemoryBuffer module
          (symbolData ++ [nul]) s.resolver).2.modules (moduleKey module) =
            some (factory.load (symbolData ++ [nul])) := by
        rw [loadModuleUsingMemoryBuffer_of_not factory hloaded]
        exact if_pos rfl
      have hsuccess : (factory.loadModuleUsingMemoryBuffer module
          (symbolData ++ [nul]) s.resolver).1 = true := by
        rw [loadModuleUsingMemoryBuffer_of_not factory hloaded]
      rw [plainFill_found hmodule hplain]
      simp only [SymbolSupplier.fetch, simpleSymbolSupplier,
        getCStringSymbolData, hdata, hsuccess, if_true]
      refine ⟨?_, hfound⟩
      rw [fillSourceLineInfo_loaded hsymbols]
      exact congrArg (·, _) (hfound.loadedResult hsymbols)

/-- One call answers as the plain way does, and what is kept stays true. -/
theorem Kept.fill (h : Kept factory paths files s) (hmodules : OneSymbolFile μ)
    (call : Call Files μ) (hfiles : call.env = files) :
    let filled := (simpleSymbolizer factory paths).fill call s
    (filled.1, filled.2.1) =
        plainFill factory paths files call.modules call.frame ∧
      Kept factory paths files filled.2.2 := by
  dsimp only
  cases hmodule : call.module with
  | none =>
      rw [fill_of_nowhere hmodule]
      rw [Call.module] at hmodule
      simp only [plainFill, hmodule]
      exact ⟨trivial, h⟩
  | some module =>
      by_cases hno : s.noSymbolModules (codeFile module) = true
      · rw [fill_of_noSymbols rfl hmodule hno,
          plainFill_missing hmodule (h.missing module hno)]
        exact ⟨rfl, h⟩
      · have hunknown := Bool.eq_false_of_not_eq_true hno
        cases hsymbols : s.resolver.modules (moduleKey module) with
        | some symbols =>
            have hloaded : s.resolver.hasModule module = true := by
              rw [ResolverState.hasModule, hsymbols]
              rfl
            rw [fill_of_loaded rfl hmodule hunknown hloaded,
              plainFill_found hmodule (h.loaded module symbols hsymbols),
              fillSourceLineInfo_loaded hsymbols, h.loadedResult hsymbols]
            exact ⟨rfl, h⟩
        | none =>
            have hloaded : s.resolver.hasModule module = false := by
              rw [ResolverState.hasModule, hsymbols]
              rfl
            rw [fill_of_unknown rfl rfl hmodule hunknown hloaded, hfiles]
            exact h.fetch hmodules hmodule hloaded

end Step

/-! ## Runs -/

/-- Some calls answer as the plain way does, and what is kept stays true. -/
theorem Kept.run {factory : ModuleFactory μ M} {paths : List Text}
    {files : Files} (hmodules : OneSymbolFile μ) (calls : List (Call Files μ)) :
    ∀ s, Kept factory paths files s → (∀ call ∈ calls, call.env = files) →
      ((simpleSymbolizer factory paths).run calls s).1 = calls.map (fun call =>
          plainFill factory paths files call.modules call.frame) ∧
        Kept factory paths files
          ((simpleSymbolizer factory paths).run calls s).2 := by
  induction calls with
  | nil => exact fun s h _ => ⟨rfl, h⟩
  | cons call calls ih =>
      intro s h hfiles
      obtain ⟨hanswer, hkept⟩ := h.fill hmodules call
        (hfiles call List.mem_cons_self)
      obtain ⟨hanswers, hkept⟩ := ih _ hkept fun other hother =>
        hfiles other (List.mem_cons_of_mem _ hother)
      refine ⟨?_, hkept⟩
      rw [StackFrameSymbolizer.run, hanswers, hanswer]
      rfl

/-- The module of a call is known behind it as the plain way answers. -/
theorem Kept.verdict_run {factory : ModuleFactory μ M} {paths : List Text}
    {files : Files} (hmodules : OneSymbolFile μ) {calls : List (Call Files μ)}
    {call : Call Files μ} (hcall : call ∈ calls) {module : μ}
    (hmodule : call.module = some module) :
    ∀ s, Kept factory paths files s → (∀ call ∈ calls, call.env = files) →
      ((simpleSymbolizer factory paths).run calls s).2.verdict module =
        some (plainFill factory paths files call.modules call.frame).1 := by
  induction calls with
  | nil => cases hcall
  | cons first calls ih =>
      intro s h hfiles
      obtain ⟨hfirst, hrest⟩ := List.forall_mem_cons.mp hfiles
      obtain ⟨hanswer, hkept⟩ := h.fill hmodules first hfirst
      rcases List.mem_cons.mp hcall with rfl | hcall
      · have hresult := congrArg Prod.fst hanswer
        have hverdict :
            ((simpleSymbolizer factory paths).fill call s).2.2.verdict module =
              some ((simpleSymbolizer factory paths).fill call s).1 :=
          verdict_fill rfl rfl hmodule
            (hresult.trans_ne (plainFill_ne_interrupt factory paths files _ _))
        rw [← hresult]
        exact run_keeps _ calls hverdict
      · exact ih hcall _ hkept hrest

/-- With files that stay as they are, a new symbolizer answers every call as the
plain way does, whatever the calls before it were, and every buffer that was
allocated has been deleted once. -/
theorem run_eq_plain (factory : ModuleFactory μ M) (paths : List Text)
    (files : Files) (hmodules : OneSymbolFile μ) (calls : List (Call Files μ))
    (hfiles : ∀ call ∈ calls, call.env = files) :
    let reached := (simpleSymbolizer factory paths).run calls .fresh
    reached.1 = calls.map (fun call =>
        plainFill factory paths files call.modules call.frame) ∧
      (∀ key, reached.2.supplier.memoryBuffers key = none) ∧
      reached.2.supplier.deleted = List.range reached.2.supplier.allocated := by
  obtain ⟨hanswers, hkept⟩ := Kept.run hmodules calls _
    (kept_fresh factory paths files) hfiles
  exact ⟨hanswers, hkept.buffers, hkept.deleted⟩

theorem oneSymbolFile_sampleModule : OneSymbolFile SampleModule := by
  rintro (_ | _) (_ | _) h
  · exact ⟨rfl, rfl⟩
  · exact absurd h (by decide +kernel)
  · exact absurd h (by decide +kernel)
  · exact ⟨rfl, rfl⟩

/-- A call about an address, with the files as they are. -/
def sampleCall (instruction : UInt64) : Call Files SampleModule where
  env := sampleFiles
  modules := sampleModules
  frame := sampleFrame instruction

theorem run_eq_plain_sample :
    let calls := [sampleCall 0x1010, sampleCall 0x2010, sampleCall 0x1020]
    let reached := (simpleSymbolizer sampleFactory ["/s".toList]).run calls .fresh
    reached.1 = calls.map (fun call => plainFill sampleFactory ["/s".toList]
        sampleFiles call.modules call.frame) ∧
      (∀ key, reached.2.supplier.memoryBuffers key = none) ∧
      reached.2.supplier.deleted = List.range reached.2.supplier.allocated :=
  run_eq_plain sampleFactory ["/s".toList] sampleFiles oneSymbolFile_sampleModule
    _ (by simp [sampleCall])

/-- The program has symbols, the library has none. -/
example :
    ((simpleSymbolizer sampleFactory ["/s".toList]).run
      [sampleCall 0x1010, sampleCall 0x2010, sampleCall 0x1020] .fresh).1.map
        Prod.fst = [.noError, .error, .noError] := by
  decide +kernel

theorem fill_settled_sample :
    let symbolizer := simpleSymbolizer sampleFactory ["/s".toList]
    let reached := (symbolizer.run [sampleCall 0x2010]
      (symbolizer.fill (sampleCall 0x1010) .fresh).2.2).2
    ({ symbolizer with supplier := none }.fill (sampleCall 0x1020) reached).1 =
        (symbolizer.fill (sampleCall 0x1010) .fresh).1 ∧
      ({ symbolizer with supplier := none }.fill (sampleCall 0x1020)
        reached).2.2 = reached :=
  @fill_settled _ _ _ _ _ (simpleSymbolizer sampleFactory ["/s".toList]) rfl rfl
    .fresh (sampleCall 0x1010) (sampleCall 0x1020) .program .program rfl rfl rfl
    (by decide +kernel) [sampleCall 0x2010] none

end Symbols
end MiscCode
