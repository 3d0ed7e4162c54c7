import MiscCode.Symbols.Model

/-!
# Calls of a symbolizer one after the other

What a symbolizer has said about a code file it says again, and it does not ask
its supplier a second time.  With files that stay as they are, what it has kept
makes no difference to its answers.
-/

namespace MiscCode
namespace Symbols

open CallFrameInfo CString StackWalk CodeModule

/-! ## Runs -/

/-- What `FillSourceLineInfo` is called with. -/
structure Call (ε μ : Type) where
  env : ε
  modules : CodeModules μ
  frame : StackFrame μ

/-- The module that a call is about. -/
def Call.module {ε μ : Type} (call : Call ε μ) : Option μ :=
  call.modules.bind fun moduleForAddress => moduleForAddress call.frame.instruction

section Run

variable {ε τ μ M : Type} [CodeModule μ]

/-- One call. -/
def StackFrameSymbolizer.fill (symbolizer : StackFrameSymbolizer ε τ μ M)
    (call : Call ε μ) (s : SymbolizerState τ M) :
    SymbolizerResult × StackFrame μ × SymbolizerState τ M :=
  symbolizer.fillSourceLineInfo call.env call.modules call.frame s

/-- Some calls: their results with the frames, and the state behind them. -/
def StackFrameSymbolizer.run (symbolizer : StackFrameSymbolizer ε τ μ M) :
    List (Call ε μ) → SymbolizerState τ M →
      List (SymbolizerResult × StackFrame μ) × SymbolizerState τ M
  | [], s => ([], s)
  | call :: calls, s =>
      let filled := symbolizer.fill call s
      let rest := symbolizer.run calls filled.2.2
      ((filled.1, filled.2.1) :: rest.1, rest.2)

/-- What is known about the symbols of a module. -/
def SymbolizerState.verdict (s : SymbolizerState τ M) (module : μ) :
    Option SymbolizerResult :=
  if s.noSymbolModules (codeFile module) then some .error
  else if s.resolver.hasModule module then some (loadedResult module s.resolver)
  else none

/-- The frame that a call is about, with its module. -/
def Call.located {ε μ : Type} (call : Call ε μ) (module : μ) : StackFrame μ :=
  { call.frame with module := some module }

variable {symbolizer : StackFrameSymbolizer ε τ μ M}
  {factory : ModuleFactory μ M} {call : Call ε μ} {module : μ}
  {s : SymbolizerState τ M}

/-! ## The cases of one call -/

theorem fill_of_noSymbols (hresolver : symbolizer.resolver = some factory)
    (hmodule : call.module = some module)
    (h : s.noSymbolModules (codeFile module) = true) :
    symbolizer.fill call s = (.error, call.located module, s) := by
  rw [Call.module] at hmodule
  simp [StackFrameSymbolizer.fill, StackFrameSymbolizer.fillSourceLineInfo,
    hmodule, hresolver, h, Call.located]

theorem fill_of_loaded (hresolver : symbolizer.resolver = some factory)
    (hmodule : call.module = some module)
    (h : s.noSymbolModules (codeFile module) = false)
    (hloaded : s.resolver.hasModule module = true) :
    symbolizer.fill call s = (loadedResult module s.resolver,
      factory.fillSourceLineInfo (call.located module) s.resolver, s) := by
  rw [Call.module] at hmodule
  simp [StackFrameSymbolizer.fill, StackFrameSymbolizer.fillSourceLineInfo,
    hmodule, hresolver, h, hloaded, Call.located]

theorem fill_of_unknown {supplier : SymbolSupplier ε τ μ}
    (hresolver : symbolizer.resolver = some factory)
    (hsupplier : symbolizer.supplier = some supplier)
    (hmodule : call.module = some module)
    (h : s.noSymbolModules (codeFile module) = false)
    (hloaded : s.resolver.hasModule module = false) :
    symbolizer.fill call s =
      supplier.fetch factory call.env module (call.located module) s := by
  rw [Call.module] at hmodule
  simp [StackFrameSymbolizer.fill, StackFrameSymbolizer.fillSourceLineInfo,
    hmodule, hresolver, hsupplier, h, hloaded, Call.located]

theorem fill_of_nowhere (hmodule : call.module = none) :
    symbolizer.fill call s = (.error, call.frame, s) := by
  rw [Call.module] at hmodule
  simp [StackFrameSymbolizer.fill, StackFrameSymbolizer.fillSourceLineInfo,
    hmodule]

/-- What loading leaves of a module that was not loaded. -/
theorem loadModuleUsingMemoryBuffer_of_not (factory : ModuleFactory μ M)
    {module : μ} {s : ResolverState M} (h : s.hasModule module = false)
    (memoryBuffer : Text) :
    factory.loadModuleUsingMemoryBuffer module memoryBuffer s =
      (true,
        { modules := fun other =>
            if other = moduleKey module then some (factory.load memoryBuffer)
            else s.modules other
          corruptModules :=
            if factory.isCorrupt (factory.load memoryBuffer) then
              insert (moduleKey module) s.corruptModules
            else s.corruptModules }) := by
  simp [ModuleFactory.loadModuleUsingMemoryBuffer, h]

/-- A state as it may be after the supplier was asked about a module that was
not known: the module is loaded, noted to have no symbols, or still unknown. -/
inductive Asked (factory : ModuleFactory μ M) (module : μ)
    (s : SymbolizerState τ M) : SymbolizerResult → SymbolizerState τ M → Prop
  | loaded (symbolData : Text) (t : τ) :
      Asked factory module s
        (loadedResult module (factory.loadModuleUsingMemoryBuffer module
          (symbolData ++ [nul]) s.resolver).2)
        { s with
          resolver := (factory.loadModuleUsingMemoryBuffer module
            (symbolData ++ [nul]) s.resolver).2
          supplier := t }
  | missing (t : τ) :
      Asked factory module s .error
        { s with
          noSymbolModules := insert (codeFile module) s.noSymbolModules
          supplier := t }
  | interrupted (t : τ) : Asked factory module s .interrupt { s with supplier := t }

theorem fetch_asked (supplier : SymbolSupplier ε τ μ)
    (factory : ModuleFactory μ M) (env : ε) {module : μ} (frame : StackFrame μ)
    {s : SymbolizerState τ M} (h : s.resolver.hasModule module = false) :
    Asked factory module s (supplier.fetch factory env module frame s).1
      (supplier.fetch factory env module frame s).2.2 := by
  rw [SymbolSupplier.fetch]
  split
  · rename_i symbolData answered _
    simp only [loadModuleUsingMemoryBuffer_of_not factory h, if_true]
    have hloaded : Asked factory module s _ _ :=
      .loaded symbolData (supplier.freeSymbolData module answered)
    rw [loadModuleUsingMemoryBuffer_of_not factory h] at hloaded
    exact hloaded
  · exact .missing _
  · exact .interrupted _

/-- What one call does to the state: nothing, or the supplier is asked about a
module of which nothing is known. -/
theorem fill_cases (symbolizer : StackFrameSymbolizer ε τ μ M)
    (call : Call ε μ) (s : SymbolizerState τ M) :
    (symbolizer.fill call s).2.2 = s ∨ ∃ factory module,
      symbolizer.resolver = some factory ∧ call.module = some module ∧
      s.verdict module = none ∧
      Asked factory module s (symbolizer.fill call s).1
        (symbolizer.fill call s).2.2 := by
  cases hmodule : call.module with
  | none => exact .inl (by rw [fill_of_nowhere hmodule])
  | some module =>
      cases hresolver : symbolizer.resolver with
      | none =>
          left
          rw [Call.module] at hmodule
          simp [StackFrameSymbolizer.fill,
            StackFrameSymbolizer.fillSourceLineInfo, hmodule, hresolver]
      | some factory =>
          by_cases hno : s.noSymbolModules (codeFile module) = true
          · exact .inl (by rw [fill_of_noSymbols hresolver hmodule hno])
          · by_cases hloaded : s.resolver.hasModule module = true
            · exact .inl (by rw [fill_of_loaded hresolver hmodule
                (Bool.eq_false_of_not_eq_true hno) hloaded])
            · cases hsupplier : symbolizer.supplier with
              | none =>
                  left
                  rw [Call.module] at hmodule
                  simp [StackFrameSymbolizer.fill,
                    StackFrameSymbolizer.fillSourceLineInfo, hmodule, hresolver,
                    hsupplier, hno, hloaded]
              | some supplier =>
                  have hverdict : s.verdict module = none := by
                    rw [SymbolizerState.verdict, if_neg hno, if_neg hloaded]
                  refine .inr ⟨factory, module, rfl, rfl, hverdict, ?_⟩
                  rw [fill_of_unknown hresolver hsupplier hmodule
                    (Bool.eq_false_of_not_eq_true hno)
                    (Bool.eq_false_of_not_eq_true hloaded)]
                  exact fetch_asked supplier factory call.env _
                    (Bool.eq_false_of_not_eq_true hloaded)

/-! ## What is known stays known -/

theorem verdict_eq_none_iff : s.verdict module = none ↔
    s.noSymbolModules (codeFile module) = false ∧
      s.resolver.hasModule module = false := by
  rw [SymbolizerState.verdict]
  split
  · rename_i hno
    simp [hno]
  · rename_i hno
    split
    · rename_i hloaded
      simp [hloaded]
    · rename_i hloaded
      exact ⟨fun _ => ⟨Bool.eq_false_of_not_eq_true hno,
        Bool.eq_false_of_not_eq_true hloaded⟩, fun _ => rfl⟩

/-- An answer depends on what the maps say about the module. -/
theorem verdict_ext {s' : SymbolizerState τ M} {other : μ}
    (hno : s'.noSymbolModules (codeFile other) =
      s.noSymbolModules (codeFile module))
    (hloaded : s'.resolver.hasModule other = s.resolver.hasModule module)
    (hcorrupt : s'.resolver.isModuleCorrupt other =
      s.resolver.isModuleCorrupt module) :
    s'.verdict other = s.verdict module := by
  rw [SymbolizerState.verdict, SymbolizerState.verdict, loadedResult,
    loadedResult, hno, hloaded, hcorrupt]

/-- A module that is asked for has the answer behind it, if there is one. -/
theorem Asked.verdict {result : SymbolizerResult} {s' : SymbolizerState τ M}
    (h : Asked factory module s result s') (hverdict : s.verdict module = none)
    (hresult : result ≠ .interrupt) : s'.verdict module = some result := by
  obtain ⟨hno, hloaded⟩ := verdict_eq_none_iff.mp hverdict
  cases h with
  | loaded symbolData t =>
      rw [SymbolizerState.verdict, if_neg (by simp [hno])]
      simp [loadModuleUsingMemoryBuffer_of_not factory hloaded,
        ResolverState.hasModule]
  | missing t => simp [SymbolizerState.verdict, insert]
  | interrupted t => exact absurd rfl hresult

/-- Another module keeps the answer that is known of it. -/
theorem Asked.keeps {result : SymbolizerResult} {s' : SymbolizerState τ M}
    (h : Asked factory module s result s') (hverdict : s.verdict module = none)
    {other : μ} {known : SymbolizerResult} (hknown : s.verdict other = some known) :
    s'.verdict other = some known := by
  obtain ⟨hno, hloaded⟩ := verdict_eq_none_iff.mp hverdict
  cases h with
  | loaded symbolData t =>
      rw [loadModuleUsingMemoryBuffer_of_not factory hloaded]
      by_cases hkey : moduleKey other = moduleKey module
      · -- the other module has no symbols, as it is not loaded either
        have hother : s.resolver.hasModule other = false := by
          rw [ResolverState.hasModule, hkey]
          exact hloaded
        simp only [SymbolizerState.verdict, hother, Bool.false_eq_true,
          if_false] at hknown ⊢
        split at hknown
        · rename_i hmissing
          rw [if_pos hmissing]
          exact hknown
        · cases hknown
      · rw [← hknown]
        apply verdict_ext
        · rfl
        · simp [ResolverState.hasModule, hkey]
        · simp only [ResolverState.isModuleCorrupt]
          split
          · simp [insert, hkey]
          · rfl
  | missing t =>
      rw [SymbolizerState.verdict] at hknown ⊢
      split at hknown
      · rename_i hmissing
        simp [insert, hmissing, ← hknown]
      · rename_i hmissing
        have hne : codeFile other ≠ codeFile module := by
          rintro heq
          have hsame : s.resolver.hasModule other = false := by
            rw [ResolverState.hasModule, moduleKey, heq]
            exact hloaded
          simp [hsame] at hknown
        simp only [insert, hne, decide_false, Bool.false_or, hmissing,
          Bool.false_eq_true, if_false]
        exact hknown
  | interrupted t => exact hknown

/-- A call keeps what is known. -/
theorem fill_keeps (call : Call ε μ) {other : μ} {known : SymbolizerResult}
    (hknown : s.verdict other = some known) :
    (symbolizer.fill call s).2.2.verdict other = some known := by
  rcases fill_cases symbolizer call s with hsame | ⟨factory, module, -, -, hnone, h⟩
  · rw [hsame]
    exact hknown
  · exact h.keeps hnone hknown

/-- So do some calls. -/
theorem run_keeps (symbolizer : StackFrameSymbolizer ε τ μ M)
    (calls : List (Call ε μ)) {other : μ} {known : SymbolizerResult}
    (hknown : s.verdict other = some known) :
    (symbolizer.run calls s).2.verdict other = some known := by
  induction calls generalizing s with
  | nil => exact hknown
  | cons call calls ih => exact ih (fill_keeps call hknown)

/-- A call about a module that is known. -/
theorem fill_of_verdict (hresolver : symbolizer.resolver = some factory)
    (hmodule : call.module = some module) {known : SymbolizerResult}
    (hknown : s.verdict module = some known) :
    (symbolizer.fill call s).1 = known ∧ (symbolizer.fill call s).2.2 = s := by
  rw [SymbolizerState.verdict] at hknown
  split at hknown
  · rename_i hno
    rw [fill_of_noSymbols hresolver hmodule hno]
    exact ⟨Option.some.inj hknown, rfl⟩
  · rename_i hno
    split at hknown
    · rename_i hloaded
      rw [fill_of_loaded hresolver hmodule (Bool.eq_false_of_not_eq_true hno)
        hloaded]
      exact ⟨Option.some.inj hknown, rfl⟩
    · cases hknown

/-- The module of a call is known behind it. -/
theorem verdict_fill (hresolver : symbolizer.resolver = some factory)
    (hsupplier : symbolizer.supplier.isSome) (hmodule : call.module = some module)
    (hresult : (symbolizer.fill call s).1 ≠ .interrupt) :
    (symbolizer.fill call s).2.2.verdict module =
      some (symbolizer.fill call s).1 := by
  cases hknown : s.verdict module with
  | some known =>
      obtain ⟨hsame, hstate⟩ := fill_of_verdict hresolver hmodule hknown
      rw [hsame, hstate]
      exact hknown
  | none =>
      obtain ⟨supplier, hsupplier⟩ := Option.isSome_iff_exists.mp hsupplier
      obtain ⟨hno, hloaded⟩ := verdict_eq_none_iff.mp hknown
      rw [fill_of_unknown hresolver hsupplier hmodule hno hloaded] at hresult ⊢
      exact (fetch_asked supplier factory call.env _ hloaded).verdict hknown
        hresult

/-- Modules with the same code file have the same answer. -/
theorem verdict_congr {other : μ} (h : codeFile other = codeFile module)
    (s : SymbolizerState τ M) : s.verdict other = s.verdict module := by
  have hkey : moduleKey other = moduleKey module := by
    rw [moduleKey, moduleKey, h]
  apply verdict_ext
  · rw [h]
  · rw [ResolverState.hasModule, ResolverState.hasModule, hkey]
  · rw [ResolverState.isModuleCorrupt, ResolverState.isModuleCorrupt, hkey]

/-- After an answer about a code file that is not an interruption, and after any
calls behind it, a call about the code file has the same answer, whatever a
supplier would say; the state stays as it is. -/
theorem fill_settled (symbolizer : StackFrameSymbolizer ε τ μ M)
    (hresolver : symbolizer.resolver.isSome)
    (hsupplier : symbolizer.supplier.isSome) (s : SymbolizerState τ M)
    {call later : Call ε μ} {module module' : μ}
    (hmodule : call.module = some module) (hlater : later.module = some module')
    (hfile : codeFile module' = codeFile module)
    (hresult : (symbolizer.fill call s).1 ≠ .interrupt)
    (between : List (Call ε μ)) (supplier : Option (SymbolSupplier ε τ μ)) :
    let reached := (symbolizer.run between (symbolizer.fill call s).2.2).2
    ({ symbolizer with supplier := supplier }.fill later reached).1 =
        (symbolizer.fill call s).1 ∧
      ({ symbolizer with supplier := supplier }.fill later reached).2.2 =
        reached := by
  obtain ⟨factory, hresolver⟩ := Option.isSome_iff_exists.mp hresolver
  have hknown := run_keeps symbolizer between
    (verdict_fill hresolver hsupplier hmodule hresult)
  rw [← verdict_congr hfile] at hknown
  exact @fill_of_verdict _ _ _ _ _ { symbolizer with supplier := supplier } _ _ _
    _ hresolver hlater _ hknown

end Run

end Symbols
end MiscCode
