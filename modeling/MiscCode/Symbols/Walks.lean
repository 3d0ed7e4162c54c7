import MiscCode.StackWalk.AddressList
import MiscCode.Symbols.Plain

/-!
# Walks with the symbols of files

A walk looks every frame up with one symbolizer, which has read some symbol
files and not others when it comes to a frame.  The stack is the one of a walk
that reads the symbol file anew for every frame.
-/

namespace MiscCode
namespace Symbols

open CallFrameInfo Fuel StackWalk

/-! ## A symbolizer for a walk -/

section Symbolizer

variable {ε τ μ M : Type} [CodeModule μ]

theorem fillSourceLineInfo_keeps (factory : ModuleFactory μ M)
    (frame : StackFrame μ) (s : ResolverState M) :
    (factory.fillSourceLineInfo frame s).instruction = frame.instruction ∧
      (factory.fillSourceLineInfo frame s).trust = frame.trust := by
  rw [ModuleFactory.fillSourceLineInfo]
  split
  · exact ⟨rfl, rfl⟩
  · exact ⟨factory.keeps_instruction _ _, factory.keeps_trust _ _⟩

theorem fetch_keeps (supplier : SymbolSupplier ε τ μ)
    (factory : ModuleFactory μ M) (env : ε) (module : μ) (frame : StackFrame μ)
    (s : SymbolizerState τ M) :
    (supplier.fetch factory env module frame s).2.1.instruction =
        frame.instruction ∧
      (supplier.fetch factory env module frame s).2.1.trust = frame.trust := by
  rw [SymbolSupplier.fetch]
  split
  · dsimp only
    split
    · exact fillSourceLineInfo_keeps factory frame _
    · exact ⟨rfl, rfl⟩
  · exact ⟨rfl, rfl⟩
  · exact ⟨rfl, rfl⟩

/-- A frame keeps its address and how it was found. -/
theorem symbolizer_keeps (symbolizer : StackFrameSymbolizer ε τ μ M) (env : ε)
    (modules : CodeModules μ) (frame : StackFrame μ) (s : SymbolizerState τ M) :
    let filled := (symbolizer.fillSourceLineInfo env modules frame s).2.1
    filled.instruction = frame.instruction ∧ filled.trust = frame.trust := by
  dsimp only
  rw [StackFrameSymbolizer.fillSourceLineInfo]
  split
  · exact ⟨rfl, rfl⟩
  · dsimp only
    split
    · exact ⟨rfl, rfl⟩
    · split
      · exact ⟨rfl, rfl⟩
      · split
        · exact fillSourceLineInfo_keeps _ _ _
        · split
          · exact ⟨rfl, rfl⟩
          · exact fetch_keeps _ _ _ _ _ _

/-- A symbolizer as a walker uses it. -/
def StackFrameSymbolizer.frameSymbolizer
    (symbolizer : StackFrameSymbolizer ε τ μ M) (env : ε)
    (modules : CodeModules μ) : FrameSymbolizer (SymbolizerState τ M) μ where
  fillSourceLineInfo := symbolizer.fillSourceLineInfo env modules
  findCFIFrameInfo := symbolizer.findCFIFrameInfo
  keeps_instruction := fun frame s =>
    (symbolizer_keeps symbolizer env modules frame s).1
  keeps_trust := fun frame s => (symbolizer_keeps symbolizer env modules frame s).2

end Symbolizer

/-! ## Walks -/

section Walks

variable {μ M κ : Type} [CodeModule μ]

/-- A frame with its symbols, read from the file. -/
def plainFrame (factory : ModuleFactory μ M) (paths : List Text) (files : Files)
    (modules : CodeModules μ) (found : Frame μ κ) : Frame μ κ :=
  { found with base := (plainFill factory paths files modules found.base).2 }

/-- A frame with its symbols and the answer about it. -/
def plainLooked (factory : ModuleFactory μ M) (paths : List Text) (files : Files)
    (modules : CodeModules μ) (found : Frame μ κ) :
    Frame μ κ × SymbolizerResult :=
  (plainFrame factory paths files modules found,
    (plainFill factory paths files modules found.base).1)

variable {factory : ModuleFactory μ M} {paths : List Text} {files : Files}
  {modules : CodeModules μ}
  {walker : Stackwalker (SymbolizerState SupplierState M) μ κ}

/-- What a walker's symbolizer answers when all that it has kept is true. -/
theorem looked_plain (hmodules : OneSymbolFile μ)
    (hwalker : walker.symbolizer =
      (simpleSymbolizer factory paths).frameSymbolizer files modules)
    (lookup : Lookup (SymbolizerState SupplierState M) μ κ)
    (hkept : Kept factory paths files lookup.symbols) :
    walker.looked lookup =
      plainLooked factory paths files modules lookup.found := by
  have hfill :=
    (hkept.fill hmodules ⟨files, modules, lookup.found.base⟩ rfl).1
  rw [Prod.ext_iff] at hfill
  rw [Stackwalker.looked, Stackwalker.frame, Stackwalker.result,
    Stackwalker.filled, hwalker, plainLooked, plainFrame, ← hfill.1, ← hfill.2]
  rfl

/-- A walk keeps what is true of the files, if looking for callers does. -/
theorem keeping_kept (hmodules : OneSymbolFile μ)
    (hwalker : walker.symbolizer =
      (simpleSymbolizer factory paths).frameSymbolizer files modules)
    (hcaller : ∀ frames allowed s, Kept factory paths files s →
      Kept factory paths files (walker.getCallerFrame frames allowed s).2) :
    walker.Keeping (Kept factory paths files) where
  fill := by
    intro frame s hkept
    rw [hwalker]
    exact (hkept.fill hmodules ⟨files, modules, frame⟩ rfl).2
  caller := hcaller

/-- Every walk with a new symbolizer ends without an interruption.  The frames
that it finds, the context frame and then each time a caller of the frames so
far, go on the stack and into the lists of modules as they are looked up the
plain way. -/
theorem walk_plain [DecidableEq μ] (hmodules : OneSymbolFile μ)
    (hwalker : walker.symbolizer =
      (simpleSymbolizer factory paths).frameSymbolizer files modules)
    (hcaller : ∀ frames allowed s, Kept factory paths files s →
      Kept factory paths files (walker.getCallerFrame frames allowed s).2)
    (before before' : List μ) :
    ∃ r, EndsIn () (fun fuel => walker.walk fuel before before' .fresh)
        (.ok (true, r)) ∧
      ∃ lookups, walker.Ended before before' .fresh lookups (true, r) ∧
        (∀ lookup ∈ lookups, Kept factory paths files lookup.symbols) ∧
        r.frames = (lookups.map Lookup.found).map
          (plainFrame factory paths files modules) ∧
        Attention before r.modulesWithoutSymbols .error
          ((lookups.map Lookup.found).map
            (plainLooked factory paths files modules)) ∧
        Attention before' r.modulesWithCorruptSymbols .warningCorruptSymbols
          ((lookups.map Lookup.found).map
            (plainLooked factory paths files modules)) := by
  have hkeeping := keeping_kept hmodules hwalker hcaller
  have hfresh := kept_fresh factory paths files
  obtain ⟨⟨completed, r⟩, hr, lookups, hended, hkept, -⟩ := walk_ends walker
    hkeeping before before' hfresh
  have hlooked : lookups.map walker.looked = (lookups.map Lookup.found).map
      (plainLooked factory paths files modules) := by
    rw [List.map_map]
    exact List.map_congr_left fun lookup hlookup =>
      looked_plain hmodules hwalker lookup (hkept lookup hlookup)
  have hframes : lookups.map walker.frame = (lookups.map Lookup.found).map
      (plainFrame factory paths files modules) := by
    rw [List.map_map]
    exact List.map_congr_left fun lookup hlookup => congrArg Prod.fst
      (looked_plain hmodules hwalker lookup (hkept lookup hlookup))
  have hcompleted : completed = true := by
    by_contra hinterrupted
    obtain ⟨lookup, hnext, hinterrupt, -⟩ :=
      hended.interrupted (Bool.eq_false_of_not_eq_true hinterrupted)
    have hplain := looked_plain hmodules hwalker lookup
      (hkeeping.of_next hfresh hkept hnext)
    exact plainFill_ne_interrupt factory paths files modules lookup.found.base
      ((congrArg Prod.snd hplain).symm.trans hinterrupt)
  subst hcompleted
  refine ⟨r, hr, lookups, hended, hkept, hended.walks.frames.trans hframes, ?_⟩
  rw [← hlooked]
  exact ⟨hended.walks.withoutSymbols, hended.walks.corruptSymbols⟩

/-- A walk over the addresses of the two modules. -/
def sampleWalker :
    StackwalkerAddressList (SymbolizerState SupplierState Text) SampleModule where
  symbolizer := (simpleSymbolizer sampleFactory ["/s".toList]).frameSymbolizer
    sampleFiles sampleModules
  frames := [0x1010, 0x2010, 0x1020]
  newFrame := sampleFrame 0
  maxFrames := 1024
  maxFramesScanned := 1024

theorem walk_plain_sample :
    ∃ r, EndsIn () (fun fuel => sampleWalker.toStackwalker.walk fuel [] [] .fresh)
        (.ok (true, r)) ∧
      ∃ lookups,
        sampleWalker.toStackwalker.Ended [] [] .fresh lookups (true, r) ∧
        (∀ lookup ∈ lookups,
          Kept sampleFactory ["/s".toList] sampleFiles lookup.symbols) ∧
        r.frames = (lookups.map Lookup.found).map
          (plainFrame sampleFactory ["/s".toList] sampleFiles sampleModules) ∧
        Attention [] r.modulesWithoutSymbols .error
          ((lookups.map Lookup.found).map (plainLooked sampleFactory
            ["/s".toList] sampleFiles sampleModules)) ∧
        Attention [] r.modulesWithCorruptSymbols .warningCorruptSymbols
          ((lookups.map Lookup.found).map (plainLooked sampleFactory
            ["/s".toList] sampleFiles sampleModules)) :=
  walk_plain oneSymbolFile_sampleModule rfl (fun _ _ _ => id) [] []

/-- A walk over a list of addresses looks every one of them up, as far as the
limit goes. -/
theorem addressList_plain [DecidableEq μ]
    (walker : StackwalkerAddressList (SymbolizerState SupplierState M) μ)
    (hmodules : OneSymbolFile μ)
    (hwalker : walker.toStackwalker.symbolizer =
      (simpleSymbolizer factory paths).frameSymbolizer files modules)
    (before before' : List μ) :
    ∃ r, EndsIn () (fun fuel =>
        walker.toStackwalker.walk fuel before before' .fresh) (.ok (true, r)) ∧
      r.frames = (walker.frames.take (walker.maxFrames + 1)).map fun address =>
        plainFrame factory paths files modules (walker.prewalked address) := by
  obtain ⟨r, hr, lookups, hended, -, hframes, -⟩ := walk_plain hmodules hwalker
    (fun _ _ _ => id) before before'
  have hfound : lookups.map Lookup.found =
      (lookups.map fun lookup => lookup.found.base.instruction).map
        walker.prewalked := by
    rw [List.map_map]
    exact List.map_congr_left (hended.walks.grown.forall fun _ _ _ hnext =>
      (addressList_next hnext).2)
  have htake := (addressList_ended hended).2.1 rfl
  refine ⟨r, hr, ?_⟩
  rw [hframes, hfound, addressList_addresses hended.walks, htake, List.map_map]
  rfl

theorem addressList_plain_sample :
    ∃ r, EndsIn () (fun fuel => sampleWalker.toStackwalker.walk fuel [] [] .fresh)
        (.ok (true, r)) ∧
      r.frames = [0x1010, 0x2010, 0x1020].map fun address =>
        plainFrame sampleFactory ["/s".toList] sampleFiles sampleModules
          (sampleWalker.prewalked address) :=
  addressList_plain sampleWalker oneSymbolFile_sampleModule rfl [] []

end Walks

end Symbols
end MiscCode
