import MiscCode.StackTrace.Model

/-!
# The trace says what is printed

The structured trace and the printed text come from separate loops.  Both visit
the thread that requested the dump first and then the others, and both go
through the frames of a thread in order, so it is enough to compare what one
round of each loop gives: the record of a frame holds the offset that is printed
for it.
-/

namespace MiscCode.StackTrace

open Visits

/-! ## Reading the text -/

/-- A number printed in decimal digits. -/
def Token.dec? : Token → Option ℤ
  | .dec _ n => some n
  | _ => none

/-- A number printed in hexadecimal digits. -/
def Token.hex? : Token → Option UInt64
  | .hex _ x => some x
  | _ => none

/-- The number a heading or the line of a frame is about: the first one. -/
def printedNumber (tokens : List Token) : Option ℤ :=
  (tokens.filterMap Token.dec?).head?

/-- The code offset in the line of a frame: the last number. -/
def printedOffset (line : List Token) : Option UInt64 :=
  (line.filterMap Token.hex?).getLast?

/-! ## One frame -/

/-- The code offset to the base address of the source line, the function or the
module, whichever is the first one known, or else an absolute one. -/
def codeOffset (frame : StackFrame) : UInt64 :=
  match frame.module with
  | some module =>
      if frame.functionName ≠ "" then
        if frame.sourceFileName ≠ "" then
          frame.returnAddress - frame.sourceLineBase
        else frame.returnAddress - frame.functionBase
      else frame.returnAddress - module.baseAddress
  | none => frame.returnAddress

theorem printedNumber_printLine (i : ℕ) (frame : StackFrame) :
    printedNumber (printLine i frame) = some i := by
  rfl

/-- The offset is printed last in a line, whatever is known about the frame. -/
theorem printedOffset_printLine (i : ℕ) (frame : StackFrame) :
    printedOffset (printLine i frame) = some (codeOffset frame) := by
  rw [printLine, codeOffset]
  cases frame.module with
  | none => rfl
  | some module =>
      by_cases hfunction : frame.functionName ≠ ""
      · by_cases hsource : frame.sourceFileName ≠ ""
        · simp only [if_pos hfunction, if_pos hsource]
          rfl
        · simp only [if_pos hfunction, if_neg hsource]
          rfl
      · simp only [if_neg hfunction]
        rfl

/-- The record of a frame holds its number, the same offset and its registers. -/
theorem rfFrame_spec (types : FieldTypes) (masks : ContextMasks) (cpu : String)
    (i : ℕ) (frame : StackFrame) :
    (rfFrame types masks cpu i frame).frameId = types.frameId i ∧
      (rfFrame types masks cpu i frame).funcOffset =
        types.funcOffset (codeOffset frame) ∧
      (rfFrame types masks cpu i frame).regs =
        rfFrameRegisters types masks cpu frame := by
  rw [rfFrame, codeOffset]
  cases frame.module with
  | none => exact ⟨rfl, rfl, rfl⟩
  | some module =>
      by_cases hfunction : frame.functionName ≠ ""
      · by_cases hsource : frame.sourceFileName ≠ ""
        · simp only [if_pos hfunction, if_pos hsource, and_self]
        · simp only [if_pos hfunction, if_neg hsource, and_self]
      · simp only [if_neg hfunction, and_self]

/-! ## Vectors -/

section Vectors

variable {α : Type} {xs : List α}

theorem vecAt_natCast (xs : List α) (i : ℕ) : vecAt xs i = xs[i]? := by
  rw [vecAt, if_pos (Int.natCast_nonneg i), Int.toNat_natCast]

theorem intSize_of_fits (h : xs.length < 2 ^ 31) : intSize xs = xs.length :=
  Int.bmod_eq_of_le (by omega) (by omega)

/-- The step of a computation that finds something. -/
theorem bind_of_eq_some {β : Type} {x : Option α} {a : α} (h : x = some a)
    (f : α → Option β) : (x >>= f) = f a := by
  rw [h]
  rfl

theorem exists_getElem? {i : ℕ} (hi : i < xs.length) :
    ∃ x, xs[i]? = some x :=
  ⟨_, List.getElem?_eq_getElem hi⟩

/-- A loop over all indices that takes the element at each of them. -/
theorem visit_all {σ β : Type} {body : ℕ → Option β} {R : ℕ → β → Prop}
    (push : σ → β → σ) (s : σ) (n : ℕ)
    (h : ∀ i < n, ∃ b, body i = some b ∧ R i b) :
    ∃ bs, visit (fun _ => True) body push (List.range n) s =
        some (bs.foldl push s) ∧
      List.Forall₂ R (List.range n) bs := by
  have hvisit : ∀ i ∈ List.range n, True → ∃ b, body i = some b ∧ R i b :=
    fun i hi _ => h i (List.mem_range.mp hi)
  obtain ⟨bs, hbs, hall⟩ := visit_eq_some push s hvisit
  refine ⟨bs, hbs, ?_⟩
  simpa using hall

end Vectors

/-! ## One stack -/

section Stack

variable {ρ : Type} (types : FieldTypes) (masks : ContextMasks)
  (printer : Printer ρ) (cpu : String) (memory : ρ) (stack : CallStack)

/-- The record of frame `i` of a stack. -/
def RecordsFrame (i : ℕ) (info : FrameInfo) : Prop :=
  ∃ frame, stack.frames[i]? = some frame ∧
    info = rfFrame types masks cpu i frame

/-- What is printed for frame `i` of a stack. -/
def PrintsFrame (i : ℕ) (printed : PrintedFrame) : Prop :=
  ∃ frame, stack.frames[i]? = some frame ∧ printed.line = printLine i frame

theorem foldl_addFrame (thread : ThreadInfo) (infos : List FrameInfo) :
    infos.foldl ThreadInfo.addFrame thread =
      { thread with frames := thread.frames ++ infos } := by
  induction infos generalizing thread with
  | nil => simp
  | cons info infos ih =>
      rw [List.foldl_cons, ih]
      simp [ThreadInfo.addFrame]

/-- `RfPrintStack` records the frames in order. -/
theorem rfPrintStack_spec (thread : ThreadInfo) :
    ∃ infos, rfPrintStack types masks cpu stack thread =
        some { thread with frames := thread.frames ++ infos } ∧
      List.Forall₂ (RecordsFrame types masks cpu stack)
        (List.range stack.frames.length) infos := by
  have hsize := intSize_of_fits stack.fits
  by_cases hempty : stack.frames.length = 0
  · refine ⟨[], ?_, ?_⟩
    · rw [rfPrintStack, hsize, hempty]
      simp
    · rw [hempty]
      exact .nil
  · have hframe : ∀ i < stack.frames.length,
        ∃ info, (vecAt stack.frames i).map (rfFrame types masks cpu i) =
            some info ∧
          RecordsFrame types masks cpu stack i info := by
      intro i hi
      obtain ⟨frame, hget⟩ := exists_getElem? hi
      rw [vecAt_natCast, hget]
      exact ⟨_, rfl, _, hget, rfl⟩
    obtain ⟨infos, hvisit, hall⟩ :=
      visit_all ThreadInfo.addFrame thread _ hframe
    refine ⟨infos, ?_, hall⟩
    have hcount : ¬ (stack.frames.length : ℤ) = 0 := by omega
    rw [rfPrintStack, hsize]
    simp only [if_neg hcount, Int.toNat_natCast]
    rw [hvisit, foldl_addFrame]

/-- `PrintStack` prints the frames in order. -/
theorem printStack_spec :
    ∃ printed, printStack printer cpu memory stack = some printed ∧
      List.Forall₂ (PrintsFrame stack) (List.range stack.frames.length)
        printed.frames := by
  have hsize := intSize_of_fits stack.fits
  have hframe : ∀ i < stack.frames.length,
      ∃ printed, printFrame printer cpu memory stack i = some printed ∧
        PrintsFrame stack i printed := by
    intro i hi
    obtain ⟨frame, hget⟩ := exists_getElem? hi
    rw [printFrame, vecAt_natCast, hget]
    exact ⟨_, rfl, _, hget, rfl⟩
  obtain ⟨frames, hvisit, hall⟩ :=
    visit_all (fun frames frame => frames ++ [frame]) [] _ hframe
  rw [foldl_append_singleton, List.nil_append] at hvisit
  rw [printStack, hsize, Int.toNat_natCast, hvisit]
  exact ⟨_, rfl, hall⟩

end Stack

/-! ## All threads -/

/-- The thread that requested the dump first, when it is known, and then the
others by their indices. -/
def visitOrder {ρ : Type} (state : ProcessState ρ) : List ℕ :=
  headFirst
    (if state.requestingThread = -1 then none
      else some state.requestingThread.toNat)
    (List.range state.threads.length)

section Threads

variable {ρ : Type} (types : FieldTypes) (masks : ContextMasks)
  (printer : Printer ρ) (state : ProcessState ρ)

/-- The entry of thread `i`. -/
def RecordsThread (i : ℕ) (info : ThreadInfo) : Prop :=
  ∃ stack, state.threads[i]? = some stack ∧
    info.threadId = types.threadId i ∧
    List.Forall₂ (RecordsFrame types masks state.cpu stack)
      (List.range stack.frames.length) info.frames

/-- What is printed for thread `i`. -/
def PrintsThread (i : ℕ) (printed : PrintedThread) : Prop :=
  ∃ stack, state.threads[i]? = some stack ∧
    printedNumber printed.heading = some i ∧
    List.Forall₂ (PrintsFrame stack)
      (List.range stack.frames.length) printed.stack.frames

variable {types masks printer state} {i : ℕ}

theorem rfThread_spec (types : FieldTypes) (masks : ContextMasks)
    (hi : i < state.threads.length) :
    ∃ info, rfThread types masks state i = some info ∧
      RecordsThread types masks state i info := by
  obtain ⟨stack, hstack⟩ := exists_getElem? hi
  obtain ⟨memory, hmemory⟩ := exists_getElem? (hi.trans_le state.regions)
  obtain ⟨infos, hinfos, hall⟩ :=
    rfPrintStack_spec types masks state.cpu stack ⟨types.threadId i, []⟩
  refine ⟨⟨types.threadId i, infos⟩, ?_, stack, hstack, rfl, hall⟩
  rw [rfThread, vecAt_natCast, vecAt_natCast, bind_of_eq_some hstack,
    bind_of_eq_some hmemory, hinfos]
  rfl

theorem printThread_spec (printer : Printer ρ) {heading : List Token}
    (hheading : printedNumber heading = some i)
    (hi : i < state.threads.length) :
    ∃ printed, printThread printer state heading i = some printed ∧
      PrintsThread state i printed := by
  obtain ⟨stack, hstack⟩ := exists_getElem? hi
  obtain ⟨memory, hmemory⟩ := exists_getElem? (hi.trans_le state.regions)
  obtain ⟨printed, hprinted, hall⟩ :=
    printStack_spec printer state.cpu memory stack
  refine ⟨⟨heading, printed⟩, ?_, stack, hstack, hheading, hall⟩
  rw [printThread, vecAt_natCast, vecAt_natCast, bind_of_eq_some hstack,
    bind_of_eq_some hmemory, bind_of_eq_some hprinted]

theorem foldl_addThread (trace : RfStackTrace) (infos : List ThreadInfo) :
    infos.foldl RfStackTrace.addThread trace =
      { trace with threads := trace.threads ++ infos } := by
  induction infos generalizing trace with
  | nil => simp
  | cons info infos ih =>
      rw [List.foldl_cons, ih]
      simp [RfStackTrace.addThread]

/-- The loop over the threads in `RfPrintProcessState`. -/
theorem rfThreadLoop_spec (types : FieldTypes) (masks : ContextMasks)
    (state : ProcessState ρ) (trace : RfStackTrace) :
    ∃ infos, rfThreadLoop types masks state trace =
        some { trace with threads := trace.threads ++ infos } ∧
      List.Forall₂ (RecordsThread types masks state)
        ((List.range state.threads.length).filter
          fun i : ℕ => (i : ℤ) ≠ state.requestingThread) infos := by
  have hthread : ∀ i ∈ List.range state.threads.length,
      (i : ℤ) ≠ state.requestingThread →
      ∃ info, rfThread types masks state i = some info ∧
        RecordsThread types masks state i info :=
    fun i hi _ => rfThread_spec types masks (List.mem_range.mp hi)
  obtain ⟨infos, hvisit, hall⟩ :=
    visit_eq_some RfStackTrace.addThread trace hthread
  refine ⟨infos, ?_, hall⟩
  rw [foldl_addThread] at hvisit
  rw [rfThreadLoop, intSize_of_fits state.fits]
  exact hvisit

/-- The loop over the threads in `PrintProcessState`. -/
theorem printThreadLoop_spec (printer : Printer ρ) (state : ProcessState ρ)
    (before : List PrintedThread) :
    ∃ printed, printThreadLoop printer state before =
        some (before ++ printed) ∧
      List.Forall₂ (PrintsThread state)
        ((List.range state.threads.length).filter
          fun i : ℕ => (i : ℤ) ≠ state.requestingThread) printed := by
  have hthread : ∀ i ∈ List.range state.threads.length,
      (i : ℤ) ≠ state.requestingThread →
      ∃ printed, printThread printer state (threadHeading i) i = some printed ∧
        PrintsThread state i printed :=
    fun i hi _ => printThread_spec printer rfl (List.mem_range.mp hi)
  obtain ⟨printed, hvisit, hall⟩ :=
    visit_eq_some (fun printed thread => printed ++ [thread]) before hthread
  refine ⟨printed, ?_, hall⟩
  rw [foldl_append_singleton] at hvisit
  rw [printThreadLoop, intSize_of_fits state.fits]
  exact hvisit

theorem threads_rfPrintModules (trace : RfStackTrace) :
    (rfPrintModules types state trace).threads = trace.threads := by
  rw [rfPrintModules]
  cases state.modules with
  | none => rfl
  | some modules =>
      simp only
      induction modules generalizing trace with
      | nil => rfl
      | cons module modules ih =>
          rw [List.foldl_cons, ih]
          rfl

/-- The requesting thread is unknown, or it is a thread of the process. -/
def RequestingThreadValid (state : ProcessState ρ) : Prop :=
  state.requestingThread = -1 ∨
    (0 ≤ state.requestingThread ∧
      state.requestingThread < state.threads.length)

/-- Both programs visit a known requesting thread before the others. -/
theorem visitOrder_of_known (hvalid : RequestingThreadValid state)
    (hknown : state.requestingThread ≠ -1) :
    ∃ r : ℕ, state.requestingThread = r ∧ r < state.threads.length ∧
      visitOrder state =
        r :: (List.range state.threads.length).filter
          fun i : ℕ => (i : ℤ) ≠ state.requestingThread := by
  rcases hvalid with hunknown | ⟨hnonneg, hlt⟩
  · exact absurd hunknown hknown
  · have hr : state.requestingThread = state.requestingThread.toNat :=
      (Int.toNat_of_nonneg hnonneg).symm
    refine ⟨state.requestingThread.toNat, hr, by omega, ?_⟩
    rw [visitOrder, if_neg hknown, headFirst]
    apply congrArg (List.cons _)
    apply List.filter_congr
    intro i _
    apply decide_eq_decide.mpr
    rw [Ne, Ne, Option.some_inj]
    omega

theorem visitOrder_of_unknown (hunknown : state.requestingThread = -1) :
    visitOrder state =
      (List.range state.threads.length).filter
        fun i : ℕ => (i : ℤ) ≠ state.requestingThread := by
  rw [visitOrder, if_pos hunknown, headFirst, hunknown]
  apply List.filter_congr
  intro i _
  apply decide_eq_decide.mpr
  have hi : (i : ℤ) ≠ -1 := by omega
  simp [hi]

/-- No thread is lost or repeated. -/
theorem visitOrder_perm (hvalid : RequestingThreadValid state) :
    (visitOrder state).Perm (List.range state.threads.length) := by
  apply headFirst_perm List.nodup_range
  intro i hi
  by_cases hunknown : state.requestingThread = -1
  · rw [if_pos hunknown] at hi
    cases hi
  · rw [if_neg hunknown] at hi
    obtain rfl := Option.some.inj hi
    rcases hvalid with h | h
    · exact absurd h hunknown
    · rw [List.mem_range]
      omega

theorem threads_rfPrintSystem (trace : RfStackTrace) :
    (rfPrintSystem types state trace).threads = trace.threads := by
  rw [rfPrintSystem]
  cases state.crashed with
  | false => rfl
  | true => rfl

/-- `RfPrintProcessState` adds an entry for each thread, in the order of the
visits. -/
theorem rfThreads_spec (types : FieldTypes) (masks : ContextMasks)
    (hvalid : RequestingThreadValid state) (trace : RfStackTrace) :
    ∃ infos, rfThreads types masks state trace =
        some { trace with threads := trace.threads ++ infos } ∧
      List.Forall₂ (RecordsThread types masks state) (visitOrder state)
        infos := by
  by_cases hknown : state.requestingThread ≠ -1
  · obtain ⟨r, hr, hlt, horder⟩ := visitOrder_of_known hvalid hknown
    obtain ⟨first, hfirst, hrecords⟩ :=
      rfThread_spec types masks hlt
    obtain ⟨infos, hloop, hall⟩ :=
      rfThreadLoop_spec types masks state (trace.addThread first)
    refine ⟨first :: infos, ?_, ?_⟩
    · rw [rfThreads, if_pos hknown, hr, bind_of_eq_some hfirst, hloop]
      simp [RfStackTrace.addThread]
    · rw [horder]
      exact .cons hrecords hall
  · rw [not_not] at hknown
    obtain ⟨infos, hloop, hall⟩ := rfThreadLoop_spec types masks state trace
    refine ⟨infos, ?_, ?_⟩
    · rw [rfThreads, if_neg (not_not.mpr hknown), hloop]
    · rw [visitOrder_of_unknown hknown]
      exact hall

theorem rfPrintProcessState_spec (types : FieldTypes) (masks : ContextMasks)
    (hvalid : RequestingThreadValid state) :
    ∃ trace, rfPrintProcessState types masks state .empty = some trace ∧
      List.Forall₂ (RecordsThread types masks state) (visitOrder state)
        trace.threads := by
  obtain ⟨infos, hinfos, hall⟩ :=
    rfThreads_spec types masks hvalid (rfPrintSystem types state .empty)
  have hthreads : (rfPrintSystem types state .empty).threads = [] :=
    threads_rfPrintSystem _
  rw [rfPrintProcessState, hinfos, Option.map_some]
  refine ⟨_, rfl, ?_⟩
  rw [threads_rfPrintModules, hthreads]
  exact hall

/-- A thread is printed for each thread, in the order of the visits. -/
theorem printThreads_spec (printer : Printer ρ)
    (hvalid : RequestingThreadValid state) :
    ∃ printed, printThreads printer state = some printed ∧
      List.Forall₂ (PrintsThread state) (visitOrder state) printed := by
  by_cases hknown : state.requestingThread ≠ -1
  · obtain ⟨r, hr, hlt, horder⟩ := visitOrder_of_known hvalid hknown
    have hheading : printedNumber (requestingHeading state) = some (r : ℤ) := by
      rw [← hr]
      rfl
    obtain ⟨first, hfirst, hprints⟩ :=
      printThread_spec printer hheading hlt
    obtain ⟨printed, hloop, hall⟩ :=
      printThreadLoop_spec printer state [first]
    refine ⟨first :: printed, ?_, ?_⟩
    · rw [printThreads, if_pos hknown, hr, bind_of_eq_some hfirst, hloop]
      rfl
    · rw [horder]
      exact .cons hprints hall
  · rw [not_not] at hknown
    obtain ⟨printed, hloop, hall⟩ :=
      printThreadLoop_spec printer state []
    refine ⟨printed, ?_, ?_⟩
    · rw [printThreads, if_neg (not_not.mpr hknown), hloop, List.nil_append]
    · rw [visitOrder_of_unknown hknown]
      exact hall

end Threads

/-! ## Agreement -/

section Agreement

variable {ρ : Type}

/-- The records of the frames of a stack and what is printed for them: both in
order and numbered from 0, with the same offset for each frame. -/
structure FramesAgree (types : FieldTypes) (masks : ContextMasks) (cpu : String)
    (stack : CallStack) (infos : List FrameInfo) (printed : List PrintedFrame) :
    Prop where
  records : infos = stack.frames.mapIdx (rfFrame types masks cpu)
  numbers : infos.map FrameInfo.frameId =
    (List.range stack.frames.length).map fun i : ℕ => (i : ℤ)
  printedNumbers : printed.map (fun frame => printedNumber frame.line) =
    (List.range stack.frames.length).map fun i : ℕ => some (i : ℤ)
  offsets : infos.map (fun info => some info.funcOffset) =
    printed.map fun frame => printedOffset frame.line

/-- An entry of the trace and a printed thread are about the same thread and
agree on its frames. -/
def ThreadsAgree (types : FieldTypes) (masks : ContextMasks)
    (state : ProcessState ρ) (info : ThreadInfo) (printed : PrintedThread) :
    Prop :=
  ∃ (i : ℕ) (stack : CallStack), state.threads[i]? = some stack ∧
    info.threadId = i ∧ printedNumber printed.heading = some i ∧
    FramesAgree types masks state.cpu stack info.frames printed.stack.frames

variable {types : FieldTypes} {masks : ContextMasks} {state : ProcessState ρ}

theorem framesAgree_of_rounds (hwide : types.Wide) {cpu : String}
    {stack : CallStack} {infos : List FrameInfo} {printed : List PrintedFrame}
    (hinfos : List.Forall₂ (RecordsFrame types masks cpu stack)
      (List.range stack.frames.length) infos)
    (hprinted : List.Forall₂ (PrintsFrame stack)
      (List.range stack.frames.length) printed) :
    FramesAgree types masks cpu stack infos printed := by
  have hoffsets : infos.map (fun info => some info.funcOffset) =
      (List.range stack.frames.length).map
        fun i => stack.frames[i]?.map codeOffset := by
    apply forall₂_map hinfos
    rintro i info ⟨frame, hframe, rfl⟩
    rw [hframe, (rfFrame_spec types masks cpu i frame).2.1, hwide.funcOffset]
    rfl
  have hprintedOffsets : printed.map (fun frame => printedOffset frame.line) =
      (List.range stack.frames.length).map
        fun i => stack.frames[i]?.map codeOffset := by
    apply forall₂_map hprinted
    rintro i line ⟨frame, hframe, hline⟩
    rw [hframe, hline, printedOffset_printLine]
    rfl
  refine ⟨?_, ?_, ?_, hoffsets.trans hprintedOffsets.symm⟩
  · exact eq_mapIdx hinfos
  · apply forall₂_map hinfos
    rintro i info ⟨frame, hframe, rfl⟩
    have hi : i < stack.frames.length := (List.getElem?_eq_some_iff.mp hframe).1
    have hfits := stack.fits
    rw [(rfFrame_spec types masks cpu i frame).1]
    exact hwide.frameId i (by omega) (by omega)
  · apply forall₂_map hprinted
    rintro i line ⟨frame, hframe, hline⟩
    rw [hline]
    exact printedNumber_printLine i frame

theorem lt_of_recordsThread {i : ℕ} {info : ThreadInfo}
    (h : RecordsThread types masks state i info) : i < state.threads.length := by
  obtain ⟨stack, hstack, -⟩ := h
  exact (List.getElem?_eq_some_iff.mp hstack).1

theorem threadId_of_recordsThread (hwide : types.Wide) {i : ℕ}
    {info : ThreadInfo} (h : RecordsThread types masks state i info) :
    info.threadId = i := by
  have hi := lt_of_recordsThread h
  have hfits := state.fits
  obtain ⟨stack, -, hid, -⟩ := h
  rw [hid]
  exact hwide.threadId i (by omega) (by omega)

theorem threadsAgree_of_rounds (hwide : types.Wide) {i : ℕ} {info : ThreadInfo}
    {printed : PrintedThread} (hinfo : RecordsThread types masks state i info)
    (hprinted : PrintsThread state i printed) :
    ThreadsAgree types masks state info printed := by
  have hid := threadId_of_recordsThread hwide hinfo
  obtain ⟨stack, hstack, -, hframes⟩ := hinfo
  obtain ⟨stack', hstack', hheading, hlines⟩ := hprinted
  obtain rfl : stack = stack' := Option.some.inj (hstack.symm.trans hstack')
  exact ⟨i, stack, hstack, hid, hheading,
    framesAgree_of_rounds hwide hframes hlines⟩

/-- The structured trace has one entry for each thread, in the order in which
the threads are printed, and each entry has the frames of its thread with the
offsets that are printed for them. -/
theorem rfPrintProcessState_agrees (types : FieldTypes) (hwide : types.Wide)
    (masks : ContextMasks) (printer : Printer ρ) (state : ProcessState ρ)
    (hvalid : RequestingThreadValid state) :
    ∃ trace printed,
      rfPrintProcessState types masks state .empty = some trace ∧
      printThreads printer state = some printed ∧
      trace.threads.length = state.threads.length ∧
      trace.threads.map ThreadInfo.threadId =
        (visitOrder state).map (fun i : ℕ => (i : ℤ)) ∧
      printed.map (fun thread => printedNumber thread.heading) =
        (visitOrder state).map (fun i : ℕ => some (i : ℤ)) ∧
      (visitOrder state).Perm (List.range state.threads.length) ∧
      List.Forall₂ (ThreadsAgree types masks state) trace.threads printed := by
  obtain ⟨trace, htrace, hinfos⟩ := rfPrintProcessState_spec types masks hvalid
  obtain ⟨printed, hprint, hprinted⟩ := printThreads_spec printer hvalid
  have hperm := visitOrder_perm hvalid
  have hlength : trace.threads.length = state.threads.length := by
    rw [← hinfos.length_eq, hperm.length_eq, List.length_range]
  have hids : trace.threads.map ThreadInfo.threadId =
      (visitOrder state).map (fun i : ℕ => (i : ℤ)) :=
    forall₂_map hinfos fun _ _ h => threadId_of_recordsThread hwide h
  have hheadings : printed.map (fun thread => printedNumber thread.heading) =
      (visitOrder state).map (fun i : ℕ => some (i : ℤ)) := by
    apply forall₂_map hprinted
    rintro i thread ⟨stack, -, hheading, -⟩
    exact hheading
  refine ⟨trace, printed, htrace, hprint, hlength, hids, hheadings, hperm, ?_⟩
  apply (forall₂_join hinfos hprinted).imp
  rintro info thread ⟨i, -, hinfo, hthread⟩
  exact threadsAgree_of_rounds hwide hinfo hthread

/-- A frame without symbols. -/
def bareFrame : StackFrame where
  returnAddress := 4096
  module := none
  functionName := ""
  functionBase := 0
  sourceFileName := ""
  sourceLine := 0
  sourceLineBase := 0
  trustDescription := "given as instruction pointer in context"
  contextValidity := 0
  context := fun _ => 0

/-- A process of two threads, of which the second one requested the dump. -/
def twoThreads : ProcessState Unit where
  cpu := "x86"
  cpuInfo := ""
  os := "Linux"
  osVersion := ""
  crashed := true
  crashReason := "SIGSEGV"
  crashAddress := 0
  requestingThread := 1
  threads := [⟨[], by decide⟩, ⟨[bareFrame], by decide⟩]
  threadMemoryRegions := [(), ()]
  modules := none
  modulesWithoutSymbols := []
  modulesWithCorruptSymbols := []
  fits := by decide
  regions := by decide

/-- Fields that hold what is assigned to them. -/
def keepingFields : FieldTypes where
  threadId := id
  frameId := id
  srcFileOffset := id
  funcOffset := id
  regValue := id
  crashAddress := id
  baseAddr := id
  size := id

theorem wide_keepingFields : keepingFields.Wide where
  threadId := fun _ _ _ => rfl
  frameId := fun _ _ _ => rfl
  funcOffset := fun _ => rfl

/-- A bit that every register shares. -/
def oneBit : ContextMasks where
  bit := fun _ _ => 1
  allX86 := 1

/-- A printer without stack contents. -/
def plainPrinter : Printer Unit where
  masks := oneBit
  outputStackContents := false
  printStackContents := fun _ _ _ => []

/-- The two threads are recorded and printed, the second one first. -/
theorem rfPrintProcessState_agrees_two :
    ∃ trace printed,
      rfPrintProcessState keepingFields oneBit twoThreads .empty = some trace ∧
      printThreads plainPrinter twoThreads = some printed ∧
      trace.threads.map ThreadInfo.threadId = [1, 0] ∧
      List.Forall₂ (ThreadsAgree keepingFields oneBit twoThreads)
        trace.threads printed := by
  obtain ⟨trace, printed, htrace, hprint, -, hids, -, -, hagree⟩ :=
    rfPrintProcessState_agrees keepingFields wide_keepingFields oneBit
      plainPrinter twoThreads (.inr ⟨by decide, by decide⟩)
  refine ⟨trace, printed, htrace, hprint, ?_, hagree⟩
  rw [hids]
  decide

end Agreement

end MiscCode.StackTrace
