import Zambesii.UdiClean
import Zambesii.UdiDmaHandle

/-!
The completion callbacks of `udi_buf_write`, `udi_buf_copy`, `udi_dma_prepare`, `udi_dma_mem_alloc`
and `udi_dma_buf_map`: exactly when they are called once, with nothing left behind by a failure.
-/

namespace Zambesii.UdiCompletion

open Function Nat
open KernelTypes
open DmaConstraints (Compiler Constraints compile newCompiler)
open UdiBuf UdiDma UdiObjects UdiCallbacks UdiClean
open UdiDmaHandle (formats_of_compile scgthAllocAndConstruct_some
  scgthAllocAndConstruct_refused nElementsFor constructed withArray)
open UdiBufWrite (bufSize oneBuffer onePage noAnswers)

/-- The calls, with their arguments and what the heap and the kernel answer on the way. `callback`
and `gcb` are whether these are not `NULL`. -/
inductive Call
  | bufWrite (answers : Answers) (callback gcb : Bool) (srcMem : Option (Nat → UInt8))
      (srcLen : Nat) (dstBuf : Option Nat) (dstOff dstLen : Nat) (path : Bool)
  | bufCopy (answers : Answers) (callback gcb : Bool) (srcBuf : Option Nat) (srcOff srcLen : Nat)
      (dstBuf : Option Nat) (dstOff dstLen : Nat) (path : Bool)
  | dmaPrepare (allocated callback gcb : Bool) (constraints : Option Constraints) (flags : Nat)
  | dmaMemAlloc (answers : MemAllocAnswers) (callback gcb : Bool)
      (constraints : Option Constraints) (args : MemAllocArgs)
  | dmaBufMap (answers : MapAnswers) (callback gcb : Bool) (dmaHandle buf : Option Nat)
      (flags : Nat)

def perform (world : World) : Call → Option World
  | .bufWrite answers callback gcb srcMem srcLen dstBuf dstOff dstLen path =>
    udiBufWrite answers (driver callback) gcb srcMem srcLen dstBuf dstOff dstLen path world
  | .bufCopy answers callback gcb srcBuf srcOff srcLen dstBuf dstOff dstLen path =>
    udiBufCopy answers (driver callback) gcb srcBuf srcOff srcLen dstBuf dstOff dstLen path world
  | .dmaPrepare allocated callback gcb constraints flags =>
    udiDmaPrepare allocated (driver callback) gcb constraints flags world
  | .dmaMemAlloc answers callback gcb constraints args =>
    udiDmaMemAlloc answers (driver callback) gcb constraints args world
  | .dmaBufMap answers callback gcb dmaHandle buf flags =>
    udiDmaBufMap answers (mapDriver callback) gcb dmaHandle buf flags world

/-- The sizes are words, and the kernel gives no more memory than the address space has. -/
def InRange : Call → Prop
  | .bufWrite answers _ _ _ srcLen _ dstOff dstLen _ =>
    srcLen < wordModulus ∧ dstOff < wordModulus ∧ dstLen < wordModulus ∧
      bufSize answers.resized.2 < wordModulus
  | .bufCopy answers _ _ _ _ srcLen _ dstOff dstLen _ =>
    srcLen < wordModulus ∧ dstOff < wordModulus ∧ dstLen < wordModulus ∧
      bufSize answers.resized.2 < wordModulus
  | .dmaMemAlloc answers _ _ _ _ => bufSize answers.insert.resized.2 < wordModulus
  | _ => True

/-- The buffer that `udi_dma_mem_alloc` allocates gets some frames, but not the memory that it
needs, and the handle takes it. -/
def SoundMemAlloc (answers : MemAllocAnswers) (args : MemAllocArgs) : Prop :=
  Allocates answers.alloc false → answers.constrained = true →
    (¬ Room answers.insert 0 args.nBytes ∧ unroomy answers.insert 0 ≠ 0) ∧ args.flags ≠ 0 ∧
      answers.map.arrayAllocated = true

/-- The buffer exists, and has frames where the handle's constraints are its own. -/
def Mappable (answers : MapAnswers) (world : World) (comcons : Compiler) (buf : Nat) : Prop :=
  ∃ msgl, world.msgls buf = some msgl ∧
    (constraintsOf answers (world.lists msgl.sGListIndex) = some comcons → msgl.nFrames ≠ 0)

def Sound (world : World) : Call → Prop
  | .bufWrite answers callback gcb srcMem srcLen dstBuf dstOff dstLen path =>
    (callback = true ∧ gcb = true) ∧
      SoundWrite answers world srcMem srcLen dstOff dstLen path dstBuf
  | .bufCopy answers callback gcb srcBuf srcOff srcLen dstBuf dstOff dstLen path =>
    (callback = true ∧ gcb = true) ∧ srcLen ≠ 0 ∧ ∃ src, srcBuf = some src ∧
      SoundCopy answers world src srcOff srcLen dstOff dstLen path dstBuf
  | .dmaPrepare allocated callback gcb constraints _ =>
    (callback = true ∧ gcb = true) ∧ ∀ cons ∈ constraints,
      allocated = true ∧ ∃ comcons, compile cons newCompiler = some (.success, comcons)
  | .dmaMemAlloc answers callback gcb constraints args =>
    (callback = true ∧ gcb = true) ∧ args.nelements ≠ 0 ∧ args.elementSize ≠ 0 ∧
      ∀ cons ∈ constraints, answers.handleAllocated = true ∧
        (∃ comcons, compile cons newCompiler = some (.success, comcons)) ∧
          SoundMemAlloc answers args
  | .dmaBufMap answers callback gcb dmaHandle buf flags =>
    (callback = true ∧ gcb = true) ∧ ∃ handle buf' dmah, dmaHandle = some handle ∧
      buf = some buf' ∧ world.handles handle = some dmah ∧
        (dmah.udiDmahFlags &&& flags ≠ 0 → dmah.msgl.isSome = scgthIsInitialized dmah.udiScgthObj ∧
            (dmah.msgl = none → Mappable answers world dmah.compiledConstraints buf'))

section

variable {world next : World} {flags : Nat}

def withHandle (world : World) (comcons : Compiler) (flags : Nat) : World :=
  { world.setHandle world.fresh (some ⟨comcons, none, blankScgth, flags⟩) with
    fresh := world.fresh + 1 }

theorem udiDmaPrepare_spec (allocated : Bool) (callback : Callback (Option Nat))
    (cons : Constraints) (flags : Nat) (world : World) :
    (∃ comcons, (allocated = true ∧ compile cons newCompiler = some (.success, comcons)) ∧
      udiDmaPrepare allocated callback true (some cons) flags world =
        invoke callback (some world.fresh) (withHandle world comcons flags)) ∨
    ¬ (allocated = true ∧ ∃ comcons, compile cons newCompiler = some (.success, comcons)) ∧
      (udiDmaPrepare allocated callback true (some cons) flags world = none ∨
        udiDmaPrepare allocated callback true (some cons) flags world =
          (invoke callback none world).bind (invoke callback none)) := by
  simp only [udiDmaPrepare, checkGcbAndCallbackValid, Bool.true_eq_false, false_and, if_false,
    some_bind]
  cases allocated with
  | false =>
    right
    exact ⟨by simp, .inr rfl⟩
  | true =>
    rcases hcompile : compile cons newCompiler with _ | ⟨error, comcons⟩
    · right
      refine ⟨by simp, .inl ?_⟩
      simp [prepareAllocAndCompileDmahSync, hcompile]
    rcases eq_or_ne error .success with rfl | herror
    · left
      refine ⟨comcons, ⟨rfl, rfl⟩, ?_⟩
      simp [prepareAllocAndCompileDmahSync, hcompile, withHandle]
    · right
      refine ⟨by simp [herror], .inr ?_⟩
      simp [prepareAllocAndCompileDmahSync, hcompile, herror]

theorem not_clean_twice (world : World) :
    ¬ Clean world ((invoke (driver true) none world).bind (invoke (driver true) none)) :=
  not_clean_of_grows (grows_told .failed world) (grows_told .failed (told .failed world))

theorem clean_udiDmaPrepare_iff {allocated : Bool} {constraints : Option Constraints} :
    Clean world (udiDmaPrepare allocated (driver true) true constraints flags world) ↔
      ∀ cons ∈ constraints,
        allocated = true ∧ ∃ comcons, compile cons newCompiler = some (.success, comcons) := by
  cases constraints with
  | none =>
    exact iff_of_true (clean_failed rfl (.refl world)) (by simp)
  | some cons =>
    have hsound : (∀ cons' ∈ some cons, allocated = true ∧ ∃ comcons,
        compile cons' newCompiler = some (.success, comcons)) ↔
          allocated = true ∧ ∃ comcons, compile cons newCompiler = some (.success, comcons) := by
      simp
    rw [hsound]
    rcases udiDmaPrepare_spec allocated (driver true) cons flags world with
      ⟨comcons, ⟨hallocated, hcompile⟩, hrun⟩ | ⟨hbad, hrun | hrun⟩
    · rw [hrun, invoke_driver_some]
      exact iff_of_true (clean_completed rfl) ⟨hallocated, comcons, hcompile⟩
    · rw [hrun]
      exact iff_of_false (not_clean_none world) hbad
    · rw [hrun]
      exact iff_of_false (not_clean_twice world) hbad

theorem invoke_mapDriver (report : MapReport) (world : World) :
    invoke (mapDriver true) report world =
      some (told (if report.status = .ok then .completed else .failed) world) :=
  rfl

theorem released_of_freed (hfree : world.arrays world.fresh = false) {made : World}
    (hmade : made.arrays = update (update world.arrays world.fresh true) world.fresh false)
    (hmsgls : made.msgls = world.msgls) (hlists : made.lists = world.lists)
    (hhandles : made.handles = world.handles) : Released world made := by
  refine ⟨fun _ => by rw [hmsgls], fun _ => by rw [hlists], fun _ => by rw [hhandles], ?_⟩
  rw [hmade, update_idem, ← hfree, update_eq_self]

theorem scgthAllocAndConstruct_spec (hwf : WellFormed world) (answers : MapAnswers) {msgl : Msgl}
    (hpos : msgl.nFrames ≠ 0) (comcons : Compiler) :
    (∃ made, scgthAllocAndConstruct answers msgl comcons world = some (none, made) ∧
      made.reports = world.reports ∧ Released world made) ∨
    ∃ us made, scgthAllocAndConstruct answers msgl comcons world = some (some us, made) ∧
      made.reports = world.reports := by
  obtain ⟨-, -, -, hfree⟩ := hwf.fresh world.fresh (le_refl _)
  unfold scgthAllocAndConstruct
  rw [if_neg hpos]
  split
  · exact .inl ⟨world, rfl, rfl, .refl world⟩
  dsimp only
  split
  · exact .inl ⟨_, rfl, rfl, released_of_freed hfree rfl rfl rfl rfl⟩
  · split
    · exact .inl ⟨_, rfl, rfl, released_of_freed hfree rfl rfl rfl rfl⟩
    · exact .inr ⟨_, _, rfl, rfl⟩

theorem clean_mapBuffer_iff (hwf : WellFormed world) {answers : MapAnswers} {handle buf : Nat}
    {dmah : Handle} :
    Clean world (mapBuffer answers (mapDriver true) handle dmah (some buf) world) ↔
      Mappable answers world dmah.compiledConstraints buf := by
  cases hmsgl : world.msgls buf with
  | none =>
    have hrun : mapBuffer answers (mapDriver true) handle dmah (some buf) world = none := by
      simp [mapBuffer, hmsgl]
    rw [hrun]
    exact iff_of_false (not_clean_none world) (by simp [Mappable, hmsgl])
  | some msgl =>
    have hmappable : Mappable answers world dmah.compiledConstraints buf ↔
        (constraintsOf answers (world.lists msgl.sGListIndex) = some dmah.compiledConstraints →
          msgl.nFrames ≠ 0) := by
      simp [Mappable, hmsgl]
    rw [hmappable]
    have hfailed : ∀ report : MapReport, report.status ≠ .ok → ∀ made : World,
        made.reports = world.reports → Released world made →
          Clean world (invoke (mapDriver true) report made) := by
      intro report hstatus made hreports hreleased
      rw [invoke_mapDriver, if_neg hstatus]
      exact clean_failed hreports hreleased
    simp only [mapBuffer, hmsgl, some_bind]
    split
    · next hnone =>
      exact iff_of_true (hfailed _ (by simp) world rfl (.refl world)) (by simp [hnone])
    next comcons hcons =>
    split
    · next hne =>
      exact iff_of_true (hfailed _ (by simp) world rfl (.refl world)) (by simp [hcons, hne])
    next hsame =>
    obtain rfl := not_not.mp hsame
    rcases eq_or_ne msgl.nFrames 0 with hzero | hpos
    · refine iff_of_false ?_ fun hframes => hframes hcons hzero
      simpa [scgthAllocAndConstruct, hzero] using not_clean_none world
    refine iff_of_true ?_ fun _ => hpos
    rcases scgthAllocAndConstruct_spec hwf answers hpos dmah.compiledConstraints with
      ⟨made, heq, hreports, hreleased⟩ | ⟨us, made, heq, hreports⟩
    · rw [heq]
      exact hfailed _ (by simp) made hreports hreleased
    · rw [heq]
      exact clean_completed hreports

theorem clean_udiDmaBufMap_iff (hwf : WellFormed world) {answers : MapAnswers}
    {dmaHandle buf : Option Nat} :
    Clean world (udiDmaBufMap answers (mapDriver true) true dmaHandle buf flags world) ↔
      ∃ handle buf' dmah, dmaHandle = some handle ∧ buf = some buf' ∧
        world.handles handle = some dmah ∧ (dmah.udiDmahFlags &&& flags ≠ 0 →
          dmah.msgl.isSome = scgthIsInitialized dmah.udiScgthObj ∧
            (dmah.msgl = none → Mappable answers world dmah.compiledConstraints buf')) := by
  rcases em (dmaHandle = none ∨ buf = none) with hbad | hgood
  · refine iff_of_false ?_ ?_
    · intro hclean
      obtain ⟨next, -, hrun, -⟩ := id hclean
      obtain ⟨checked, hchecked, hgrows⟩ := answering_mapChecked answering_mapDriver hrun
      rw [checkHandleAndBuf, if_pos hbad] at hchecked
      rw [hrun] at hclean
      exact not_clean_of_grows (answering_mapDriver _ world checked hchecked) hgrows hclean
    · rintro ⟨handle, buf', dmah, hhandle, hbuf, -⟩
      simp [hhandle, hbuf] at hbad
  obtain ⟨handle, rfl⟩ := Option.ne_none_iff_exists'.mp fun hnone => hgood (.inl hnone)
  obtain ⟨buf', rfl⟩ := Option.ne_none_iff_exists'.mp fun hnone => hgood (.inr hnone)
  cases hdmah : world.handles handle with
  | none =>
    have hrun : udiDmaBufMap answers (mapDriver true) true (some handle) (some buf') flags world =
        none := by
      simp [udiDmaBufMap, checkGcbAndCallbackValid, checkHandleAndBuf, hdmah]
    rw [hrun]
    refine iff_of_false (not_clean_none world) ?_
    rintro ⟨handle', buf'', dmah, hhandle, -, hfound, -⟩
    cases hhandle
    rw [hdmah] at hfound
    cases hfound
  | some dmah =>
    have hsound : (∃ handle' buf'' dmah', some handle = some handle' ∧ some buf' = some buf'' ∧
        world.handles handle' = some dmah' ∧ (dmah'.udiDmahFlags &&& flags ≠ 0 →
          dmah'.msgl.isSome = scgthIsInitialized dmah'.udiScgthObj ∧
            (dmah'.msgl = none →
              Mappable answers world dmah'.compiledConstraints buf''))) ↔
        (dmah.udiDmahFlags &&& flags ≠ 0 → dmah.msgl.isSome = scgthIsInitialized dmah.udiScgthObj ∧
            (dmah.msgl = none → Mappable answers world dmah.compiledConstraints buf')) := by
      simp [hdmah]
    rw [hsound]
    have hrefused : ∀ report : MapReport, report.status ≠ .ok →
        Clean world (invoke (mapDriver true) report world) := by
      intro report hstatus
      rw [invoke_mapDriver, if_neg hstatus]
      exact clean_failed rfl (.refl world)
    simp only [udiDmaBufMap, checkGcbAndCallbackValid, checkHandleAndBuf, Bool.true_eq_false,
      false_and, if_false, some_bind, hdmah, reduceCtorEq, or_self]
    split
    · next hflags => exact iff_of_true (hrefused _ (by simp)) fun hne => absurd hflags hne
    next hflags =>
    rw [forall_prop_of_true hflags]
    cases hmsgl : dmah.msgl with
    | none =>
      cases hinit : scgthIsInitialized dmah.udiScgthObj with
      | false =>
        simp only [Option.isSome_none, Bool.false_eq_true, or_self, if_false, true_and,
          forall_const]
        exact clean_mapBuffer_iff hwf
      | true => simpa using not_clean_none world
    | some msgl =>
      cases hinit : scgthIsInitialized dmah.udiScgthObj with
      | false => simpa using not_clean_none world
      | true => simpa using hrefused _ (by simp)

end

section

variable {cons : Constraints} {i i' : Compiler}

def OneFrame (i : Compiler) : Prop :=
  i.minElementGranularityNFrames = 1 ∧ i.maxNContiguousFrames = 1

theorem oneFrame_of_compileAddressable (hone : OneFrame i)
    (h : DmaConstraints.compileAddressable cons i = some i') : OneFrame i' := by
  rw [DmaConstraints.compileAddressable_eq] at h
  cases h
  exact ⟨hone.1, hone.2⟩

theorem oneFrame_of_compileAlignment (hone : OneFrame i)
    (h : DmaConstraints.compileAlignment cons i = some i') : OneFrame i' := by
  rcases em (DmaConstraints.FitsShift
    (DmaConstraints.getAttr cons .elementAlignmentBits)) with hfits | hbeyond
  · rw [DmaConstraints.compileAlignment_eq hfits] at h
    cases h
    exact ⟨hone.1, hone.2⟩
  · rw [DmaConstraints.compileAlignment_eq_none hbeyond] at h
    cases h

theorem oneFrame_of_compileFixed (hone : OneFrame i) {error : Kerror}
    (h : DmaConstraints.compileFixed cons i = some (error, i')) : OneFrame i' := by
  unfold DmaConstraints.compileFixed at h
  split at h
  · cases h
    exact hone
  split at h
  · split at h
    · cases h
      exact hone
    split at h
    · unfold DmaConstraints.compileFixedValue at h
      split at h
      · cases h
        exact hone
      · simp only [Option.bind_eq_bind, Option.bind_eq_some_iff] at h
        obtain ⟨start, -, beyondEnd, -, h⟩ := h
        cases h
        exact hone
    · cases h
      exact hone
  · cases h
    exact hone

theorem isValid_of_compile (h : compile cons i = some (.success, i')) : isValid i' = true := by
  simp only [compile, Option.bind_eq_bind, Option.bind_eq_some_iff] at h
  obtain ⟨i₁, h₁, i₂, h₂, ⟨error, i₃⟩, h₃, h⟩ := h
  have hstart : OneFrame i₂ :=
    oneFrame_of_compileAlignment (oneFrame_of_compileAddressable ⟨rfl, rfl⟩ h₁) h₂
  have hsegment : OneFrame (DmaConstraints.compileElementsPerSegment cons i₂) := hstart
  have hone := oneFrame_of_compileFixed hsegment h₃
  split at h
  · next herror =>
    cases h
    exact absurd rfl herror
  · obtain ⟨-, hmin, -⟩ := DmaConstraints.compileElements_success hone.1 hone.2 h
    simp [isValid, hmin, DmaConstraints.inFrames]

end

section

variable {world held : World} {comcons : Compiler} {flags : Nat}

theorem bufWriteInto_empty {buf index : Nat} {list : SgList} (answers : Answers)
    (callback : Callback (Option Nat)) (hmsgl : world.msgls buf = some ⟨0, 0, index⟩)
    (hlist : world.lists index = some list) (hempty : list.nFrames = 0) :
    bufWriteInto answers callback none 0 buf 0 0 world = invoke callback (some buf) world := by
  have hsame : world.setMsgl buf (some ⟨0, 0, index⟩) = world := by
    unfold World.setMsgl
    rw [← hmsgl, update_eq_self]
  have hroom : makeRoom answers buf 0 0 0 world = some (true, world) := by
    have henough : hasEnoughMemoryForWrite world buf 0 0 0 = some (none, world) := by
      simp [hasEnoughMemoryForWrite, hmsgl, getNFramesInScatterGatherList, hlist, hempty,
        endOfWrite, hsame]
    simp [makeRoom, henough]
  have hmove : memmove world buf 0 0 0 = some world := by simp [memmove, hmsgl, Accessible]
  have hbehind : bytesBehind 0 0 0 = 0 := by decide
  have hzero : (0 + 0) % wordModulus = 0 := rfl
  have hup : moveUp 0 buf 0 0 world = some world := by
    rw [moveUp, if_pos rfl, hmsgl, some_bind, hbehind, hzero, hmove]
  have hput : putBytes none 0 buf 0 0 world = some world := by
    rw [putBytes, if_pos rfl, hmsgl, some_bind, hbehind, hzero, hmove]
  simp [bufWriteInto, hroom, hup, hput]

/-- What `udi_dma_mem_alloc` has made so far: the handle and the buffer. -/
structure Holds (world : World) (comcons : Compiler) (flags : Nat) (held : World) : Prop where
  reports : held.reports = world.reports
  handles : held.handles =
    update world.handles world.fresh (some ⟨comcons, none, blankScgth, flags⟩)
  buffer : ∃ mapped nFrames, held.msgls (world.fresh + 2) = some ⟨mapped, nFrames, world.fresh + 1⟩
  msgls : ∀ other ≠ world.fresh + 2, (held.msgls other).isSome = (world.msgls other).isSome
  lists : ∀ other ≠ world.fresh + 1, (held.lists other).isSome = (world.lists other).isSome
  arrays : held.arrays = world.arrays
  fresh : held.fresh = world.fresh + 3

theorem Holds.handle (h : Holds world comcons flags held) :
    held.handles world.fresh = some ⟨comcons, none, blankScgth, flags⟩ := by
  rw [h.handles]
  exact update_self ..

theorem Holds.released (hwf : WellFormed world) (h : Holds world comcons flags held) {last : World}
    (hmsgls : last.msgls = update held.msgls (world.fresh + 2) none)
    (hlists : last.lists = update held.lists (world.fresh + 1) none)
    (hhandles : ∀ other ≠ world.fresh, last.handles other = held.handles other)
    (hhandle : last.handles world.fresh = none) (harrays : last.arrays = world.arrays) :
    Released world last := by
  refine ⟨?_, ?_, ?_, harrays⟩
  · intro other
    rw [hmsgls]
    rcases eq_or_ne other (world.fresh + 2) with rfl | hne
    · rw [update_self, (hwf.fresh (world.fresh + 2) (le_add_right _ _)).1]
    · rw [update_of_ne hne, h.msgls other hne]
  · intro other
    rw [hlists]
    rcases eq_or_ne other (world.fresh + 1) with rfl | hne
    · rw [update_self, (hwf.fresh (world.fresh + 1) (le_add_right _ _)).2.1]
    · rw [update_of_ne hne, h.lists other hne]
  · intro other
    rcases eq_or_ne other world.fresh with rfl | hne
    · rw [hhandle, (hwf.fresh world.fresh (le_refl _)).2.2.1]
    · rw [hhandles other hne, h.handles, update_of_ne hne]

theorem holds_withBuffer (world : World) (comcons : Compiler) (flags : Nat) :
    Holds world comcons flags (withBuffer (withHandle world comcons flags)) where
  reports := rfl
  handles := rfl
  buffer := ⟨0, 0, update_self ..⟩
  msgls := fun _ hne => congrArg Option.isSome (update_of_ne hne ..)
  lists := fun _ hne => congrArg Option.isSome (update_of_ne hne ..)
  arrays := rfl
  fresh := rfl

theorem Holds.of_keeps (h : Holds world comcons flags held) {next : World}
    (hkeeps : Keeps held next) {mapped nFrames : Nat}
    (hmsgl : next.msgls (world.fresh + 2) = some ⟨mapped, nFrames, world.fresh + 1⟩) :
    Holds world comcons flags next where
  reports := hkeeps.reports.trans h.reports
  handles := hkeeps.handles.trans h.handles
  buffer := ⟨mapped, nFrames, hmsgl⟩
  msgls := fun other hne => (hkeeps.msgls other).trans (h.msgls other hne)
  lists := fun other hne => (hkeeps.lists other).trans (h.lists other hne)
  arrays := hkeeps.arrays.trans h.arrays
  fresh := hkeeps.fresh.trans h.fresh

theorem udiDmaFree_unmapped {handle : Nat} {dmah : Handle}
    (hdmah : world.handles handle = some dmah) (hmsgl : dmah.msgl = none) :
    udiDmaFree (some handle) world = some (world.setHandle handle none) := by
  simp [udiDmaFree, udiDmaBufUnmap, hdmah, hmsgl]

theorem udiBufFree_eq {buf : Nat} {msgl : Msgl} (hmsgl : world.msgls buf = some msgl) :
    udiBufFree (some buf) world =
      some ((world.setList msgl.sGListIndex none).setMsgl buf none) := by
  simp [udiBufFree, hmsgl]

theorem udiDmaMemAlloc4_null (callback : Callback (Option Nat)) (handle buf : Nat)
    (status : UdiStatus) (world : World) :
    udiDmaMemAlloc4 callback handle buf ⟨none, false, status⟩ world = none := by
  simp [udiDmaMemAlloc4, initializedAt]

def mappedHeld (held : World) (handle buf : Nat) (comcons : Compiler) (flags : Nat) (us : Scgth) :
    World :=
  (withArray held).setHandle handle (some ⟨comcons, some buf, us, flags⟩)

theorem Holds.clean_udiDmaMemAlloc4 (hwf : WellFormed world) (h : Holds world comcons flags held)
    {us : Scgth} (helements : us.elements = some held.fresh) :
    Clean world (udiDmaMemAlloc4 (driver true) world.fresh (world.fresh + 2)
      ⟨some world.fresh, true, .ok⟩
      (mappedHeld held world.fresh (world.fresh + 2) comcons flags us)) := by
  obtain ⟨mapped, nFrames, hmsgl⟩ := h.buffer
  have hmapped : (mappedHeld held world.fresh (world.fresh + 2) comcons flags us).msgls
      (world.fresh + 2) = some ⟨mapped, nFrames, world.fresh + 1⟩ := hmsgl
  have hdmah : (mappedHeld held world.fresh (world.fresh + 2) comcons flags us).handles
      world.fresh = some ⟨comcons, some (world.fresh + 2), us, flags⟩ := update_self ..
  generalize hu : mappedHeld held world.fresh (world.fresh + 2) comcons flags us = u at *
  have hinit : initializedAt u (some world.fresh) = some (some (scgthIsInitialized us)) := by
    simp [initializedAt, hdmah]
  cases hcase : scgthIsInitialized us with
  | true =>
    have hrun : udiDmaMemAlloc4 (driver true) world.fresh (world.fresh + 2)
        ⟨some world.fresh, true, .ok⟩ u = some (told .completed u) := by
      simp [udiDmaMemAlloc4, hinit, hcase, hmapped, invoke_driver_some]
    rw [hrun]
    refine clean_completed ?_
    rw [← hu]
    exact h.reports
  | false =>
    have harray : (((u.setList (world.fresh + 1) none).setMsgl (world.fresh + 2) none)).arrays
        held.fresh = true := by
      rw [← hu]
      exact update_self ..
    have hfree : udiDmaFree (some world.fresh)
        ((u.setList (world.fresh + 1) none).setMsgl (world.fresh + 2) none) =
          some (((((u.setList (world.fresh + 1) none).setMsgl (world.fresh + 2) none).setArray
            held.fresh false).setHandle world.fresh
              (some ⟨comcons, none, blankScgth, flags⟩)).setHandle world.fresh none) := by
      have hdmah' : ((u.setList (world.fresh + 1) none).setMsgl (world.fresh + 2) none).handles
          world.fresh = some ⟨comcons, some (world.fresh + 2), us, flags⟩ := hdmah
      simp [udiDmaFree, udiDmaBufUnmap, hdmah', helements, deleteArray, harray]
    have hrun : udiDmaMemAlloc4 (driver true) world.fresh (world.fresh + 2)
        ⟨some world.fresh, true, .ok⟩ u = some (told .failed
          (((((u.setList (world.fresh + 1) none).setMsgl (world.fresh + 2) none).setArray
            held.fresh false).setHandle world.fresh
              (some ⟨comcons, none, blankScgth, flags⟩)).setHandle world.fresh none)) := by
      simp only [udiDmaMemAlloc4, hinit, hcase, some_bind,
        udiBufFree_eq hmapped, hfree, invoke_driver_none]
      rfl
    rw [hrun]
    refine clean_failed ?_ (h.released hwf ?_ ?_ ?_ ?_ ?_)
    · rw [← hu]
      exact h.reports
    · rw [← hu]
      rfl
    · rw [← hu]
      rfl
    · intro other hne
      rw [← hu]
      simp [World.setHandle, World.setArray, World.setMsgl, World.setList, mappedHeld, withArray,
        hne]
    · exact update_self ..
    · have hfree' : held.arrays held.fresh = false := by
        rw [h.arrays, h.fresh]
        exact (hwf.fresh (world.fresh + 3) (le_add_right _ _)).2.2.2
      rw [← h.arrays, ← hu]
      change update (update held.arrays held.fresh true) held.fresh false = _
      rw [update_idem, ← hfree', update_eq_self]

variable {args : MemAllocArgs} {answers : MemAllocAnswers}

theorem Holds.clean_udiDmaMemAlloc35_iff (hwf : WellFormed world)
    (h : Holds world comcons flags held) {list : SgList}
    (hlist : held.lists (world.fresh + 1) = some list)
    (hconstraints : list.compiledConstraints = some comcons)
    (hformats : comcons.callerSupportedFormats % 4 ≠ 0) (hvalid : isValid comcons = true)
    (answers : MemAllocAnswers) (hflags : args.flags = flags) {mapped nFrames : Nat}
    (hmsgl : held.msgls (world.fresh + 2) = some ⟨mapped, nFrames, world.fresh + 1⟩)
    {newBuf : Option Nat} (hnew : newBuf.getD (world.fresh + 2) = world.fresh + 2) :
    Clean world (udiDmaMemAlloc35 answers (driver true) args world.fresh (world.fresh + 2) newBuf
      held) ↔ nFrames ≠ 0 ∧ args.flags ≠ 0 ∧ answers.map.arrayAllocated = true := by
  have hdmah := h.handle
  have huninit : scgthIsInitialized blankScgth = false := rfl
  have hfilter : (some comcons).filter isValid = some comcons := by simp [Option.filter, hvalid]
  have hcons : constraintsOf answers.map (some list) = some comcons := by
    simp only [constraintsOf, Option.bind_some, hconstraints, hfilter]
  have hmap : udiDmaMemAlloc35 answers (driver true) args world.fresh (world.fresh + 2) newBuf
      held =
        if flags = 0 then none
        else mapBuffer answers.map
          (some (udiDmaMemAlloc4 (driver true) world.fresh (world.fresh + 2))) world.fresh
          ⟨comcons, none, blankScgth, flags⟩ (some (world.fresh + 2)) held := by
    rw [udiDmaMemAlloc35, hnew, hflags]
    simp only [udiDmaBufMap, checkGcbAndCallbackValid, checkHandleAndBuf, Bool.true_eq_false,
      false_and, if_false, some_bind, reduceCtorEq, or_self, hdmah,
      Nat.and_self, invoke, udiDmaMemAlloc4_null, Option.isSome_none, Bool.false_eq_true, huninit]
  rw [hmap, hflags]
  rcases eq_or_ne flags 0 with rfl | hne
  · exact iff_of_false (not_clean_none world) fun hsound => hsound.2.1 rfl
  rw [if_neg hne]
  simp only [mapBuffer, some_bind, hmsgl, hlist, hcons, ne_eq, not_true_eq_false, if_false]
  rcases eq_or_ne nFrames 0 with rfl | hpos
  · exact iff_of_false (not_clean_none world) fun hsound => hsound.1 rfl
  rcases Bool.eq_false_or_eq_true answers.map.arrayAllocated with hallocated | hrefused
  · refine iff_of_true ?_ ⟨hpos, hne, hallocated⟩
    have hn : ∃ n, nElementsFor (held.lists (world.fresh + 1)) ⟨mapped, nFrames, world.fresh + 1⟩ =
        some n := by
      rw [hlist]
      unfold nElementsFor
      split
      · exact ⟨0, rfl⟩
      · exact ⟨_, rfl⟩
    obtain ⟨n, hn⟩ := hn
    rw [scgthAllocAndConstruct_some hpos hallocated hformats hn]
    exact h.clean_udiDmaMemAlloc4 hwf rfl
  · rw [scgthAllocAndConstruct_refused hpos hrefused]
    exact iff_of_false (not_clean_none world) fun hsound => by simp [hrefused] at hsound

def constrainedBuffer (world : World) (comcons : Compiler) (flags : Nat) : World :=
  (withBuffer (withHandle world comcons flags)).setList (world.fresh + 1)
    (some { emptySgList with compiledConstraints := some comcons })

theorem holds_constrainedBuffer (world : World) (comcons : Compiler) (flags : Nat) :
    Holds world comcons flags (constrainedBuffer world comcons flags) := by
  have hlist : ((withBuffer (withHandle world comcons flags)).lists (world.fresh + 1)).isSome := by
    have heq : (withBuffer (withHandle world comcons flags)).lists (world.fresh + 1) =
        some emptySgList := update_self ..
    rw [heq]
    rfl
  have hmsgl : (constrainedBuffer world comcons flags).msgls (world.fresh + 2) =
      some ⟨0, 0, world.fresh + 1⟩ := update_self ..
  exact (holds_withBuffer world comcons flags).of_keeps (keeps_setList hlist _) hmsgl

theorem clean_insertion_iff (hwf : WellFormed world)
    (hformats : comcons.callerSupportedFormats % 4 ≠ 0) (hvalid : isValid comcons = true)
    (hflags : args.flags = flags) (hresized : bufSize answers.insert.resized.2 < wordModulus) :
    Clean world (bufWriteInto answers.insert
      (some (udiDmaMemAlloc35 answers (driver true) args world.fresh (world.fresh + 2))) none
      args.nBytes (world.fresh + 2) 0 0 (constrainedBuffer world comcons flags)) ↔
        (¬ Room answers.insert 0 args.nBytes ∧ unroomy answers.insert 0 ≠ 0) ∧ args.flags ≠ 0 ∧
          answers.map.arrayAllocated = true := by
  have hholds := holds_constrainedBuffer world comcons flags
  have hmsgl : (constrainedBuffer world comcons flags).msgls (world.fresh + 2) =
      some ⟨0, 0, world.fresh + 1⟩ := update_self ..
  have hlist : (constrainedBuffer world comcons flags).lists (world.fresh + 1) =
      some { emptySgList with compiledConstraints := some comcons } := update_self ..
  have hlt : args.nBytes < wordModulus := mod_lt _ wordModulus_pos
  rcases eq_or_ne args.nBytes 0 with hzero | hpos
  · rw [hzero, bufWriteInto_empty answers.insert _ hmsgl hlist rfl]
    refine iff_of_false ?_ fun hsound => hsound.1.1 (.inl (zero_le _))
    intro hclean
    exact ((hholds.clean_udiDmaMemAlloc35_iff hwf hlist rfl hformats hvalid answers hflags hmsgl
      rfl).mp hclean).1 rfl
  have hend : endOfWrite 0 0 args.nBytes = args.nBytes := by
    rw [endOfWrite, if_pos (pos_of_ne_zero hpos), zero_add, mod_eq_of_lt hlt]
  have hbuffer : Buffer answers.insert (constrainedBuffer world comcons flags) (world.fresh + 2)
      ⟨0, 0, world.fresh + 1⟩ { emptySgList with compiledConstraints := some comcons } :=
    ⟨hmsgl, hlist, wordModulus_pos, wordModulus_pos, hresized⟩
  obtain ⟨next, hmakes, ⟨hfull, hrun⟩ | ⟨hroom, ⟨hfits, -⟩ | ⟨-, hrun⟩⟩⟩ := hbuffer.bufWriteInto
    (some (udiDmaMemAlloc35 answers (driver true) args world.fresh (world.fresh + 2))) none hlt
    wordModulus_pos wordModulus_pos
  · rw [hrun]
    rw [hend] at hfull
    have hfull' : ¬ Room answers.insert 0 args.nBytes := hfull
    obtain ⟨mapped, nFrames, list, hmsgl', hlist', hconstraints, -, hframes⟩ := hmakes.found
    rw [hend] at hframes
    rw [and_iff_right hfull', ← show nFrames = unroomy answers.insert 0 from hframes hfull']
    exact (hholds.of_keeps hmakes.keeps hmsgl').clean_udiDmaMemAlloc35_iff hwf hlist' hconstraints
      hformats hvalid answers hflags hmsgl' rfl
  · exact absurd hfits.1 hpos
  · rw [hrun]
    rw [hend] at hroom
    refine iff_of_false (not_clean_none world) ?_
    rintro ⟨⟨hfull, -⟩, -⟩
    exact hfull hroom

theorem clean_udiDmaMemAlloc2_iff (hwf : WellFormed world)
    (hformats : comcons.callerSupportedFormats % 4 ≠ 0) (hvalid : isValid comcons = true)
    (hresized : bufSize answers.insert.resized.2 < wordModulus) :
    Clean world (udiDmaMemAlloc2 answers (driver true) args (some world.fresh)
      (withHandle world comcons args.flags)) ↔ SoundMemAlloc answers args := by
  have hdmah : (withHandle world comcons args.flags).handles world.fresh =
      some ⟨comcons, none, blankScgth, args.flags⟩ := update_self ..
  simp only [udiDmaMemAlloc2, udiBufWrite, checkGcbAndCallbackValid, Bool.true_eq_false, false_and,
    if_false, some_bind]
  have halloc : allocSGListAndConstrainByPathHandle answers.alloc false
      (withHandle world comcons args.flags) =
        allocateScatterGatherList answers.alloc none (withHandle world comcons args.flags) := rfl
  rw [halloc]
  rcases em (answers.alloc.msglAllocated = true ∧ answers.alloc.sgListAllocated = true)
    with hroom | hnone
  · rw [allocateScatterGatherList_granted none _ hroom]
    have hallocates : Allocates answers.alloc false := ⟨hroom.1, hroom.2, by simp⟩
    have hsound : SoundMemAlloc answers args ↔ (answers.constrained = true →
        (¬ Room answers.insert 0 args.nBytes ∧ unroomy answers.insert 0 ≠ 0) ∧ args.flags ≠ 0 ∧
          answers.map.arrayAllocated = true) :=
      ⟨fun hall => hall hallocates, fun hall _ => hall⟩
    have hholds := holds_withBuffer world comcons args.flags
    have hmsgl : (withBuffer (withHandle world comcons args.flags)).msgls (world.fresh + 2) =
        some ⟨0, 0, world.fresh + 1⟩ := update_self ..
    have hlist : (withBuffer (withHandle world comcons args.flags)).lists (world.fresh + 1) =
        some emptySgList := update_self ..
    have hconstrain : constrainScatterGatherList
        (withBuffer (withHandle world comcons args.flags)) (world.fresh + 1) comcons
          answers.constrained =
            if answers.constrained then (true, constrainedBuffer world comcons args.flags)
            else (false, withBuffer (withHandle world comcons args.flags)) :=
      constrainScatterGatherList_withBuffer ..
    have hnew : (withHandle world comcons args.flags).fresh + 1 = world.fresh + 2 := rfl
    dsimp only
    rw [hsound, hnew, bufWriteInto_empty answers.alloc _ hmsgl hlist rfl]
    simp only [invoke, udiDmaMemAlloc3, hmsgl, some_bind, hholds.handle, hconstrain]
    rcases Bool.eq_false_or_eq_true answers.constrained with hdone | hfailed
    · rw [if_pos hdone, forall_prop_of_true hdone]
      exact clean_insertion_iff hwf hformats hvalid rfl hresized
    rw [if_neg (by simp [hfailed])]
    refine iff_of_true ?_ fun hdone => by simp [hfailed] at hdone
    have hmsgl' : ((withBuffer (withHandle world comcons args.flags)).setHandle world.fresh
        none).msgls (world.fresh + 2) = some ⟨0, 0, world.fresh + 1⟩ := hmsgl
    dsimp only
    rw [udiDmaFree_unmapped hholds.handle rfl, some_bind, udiBufFree_eq hmsgl', some_bind]
    refine clean_failed rfl (hholds.released hwf rfl rfl ?_ (update_self ..) rfl)
    intro other hne
    exact update_of_ne hne ..
  · rw [allocateScatterGatherList_refused none _ hnone]
    have hrun : udiDmaMemAlloc3 answers (driver true) args world.fresh none
        (withHandle world comcons args.flags) =
          some (told .failed
            ((withHandle world comcons args.flags).setHandle world.fresh none)) := by
      simp [udiDmaMemAlloc3, udiDmaFree_unmapped hdmah rfl, invoke_driver_none]
    dsimp only [invoke]
    rw [hrun]
    refine iff_of_true (clean_failed rfl ?_) fun hallocates => absurd ⟨hallocates.1, hallocates.2.1⟩
      hnone
    refine ⟨fun _ => rfl, fun _ => rfl, ?_, rfl⟩
    intro other
    have hfree := (hwf.fresh world.fresh (le_refl _)).2.2.1
    exact congrArg (fun f => (f other).isSome) (update_update_none hfree _)

theorem clean_udiDmaMemAlloc_iff (hwf : WellFormed world) {constraints : Option Constraints}
    (hresized : bufSize answers.insert.resized.2 < wordModulus) :
    Clean world (udiDmaMemAlloc answers (driver true) true constraints args world) ↔
      args.nelements ≠ 0 ∧ args.elementSize ≠ 0 ∧
        ∀ cons ∈ constraints, answers.handleAllocated = true ∧
          (∃ comcons, compile cons newCompiler = some (.success, comcons)) ∧
            SoundMemAlloc answers args := by
  rcases em (args.nelements = 0 ∨ args.elementSize = 0) with hbad | hgood
  · refine iff_of_false ?_ ?_
    · intro hclean
      obtain ⟨next, -, hrun, -⟩ := id hclean
      obtain ⟨checked, hchecked, hgrows⟩ :=
        answering_memAllocChecked answering_driver Grows.trans hrun
      rw [checkSizes, if_pos hbad] at hchecked
      rw [hrun] at hclean
      exact not_clean_of_grows (answering_driver none world checked hchecked) hgrows hclean
    · rintro ⟨hnelements, helementSize, -⟩
      exact hbad.elim hnelements helementSize
  have hsizes := not_or.mp hgood
  rw [and_iff_right hsizes.1, and_iff_right hsizes.2]
  simp only [udiDmaMemAlloc, checkGcbAndCallbackValid, checkSizes, Bool.true_eq_false, false_and,
    if_false, some_bind, if_neg hgood]
  cases constraints with
  | none =>
    exact iff_of_true (clean_failed rfl (.refl world)) (by simp)
  | some cons =>
    have hsound : (∀ cons' ∈ some cons, answers.handleAllocated = true ∧
        (∃ comcons, compile cons' newCompiler = some (.success, comcons)) ∧
          SoundMemAlloc answers args) ↔
        (answers.handleAllocated = true ∧
          ∃ comcons, compile cons newCompiler = some (.success, comcons)) ∧
            SoundMemAlloc answers args := by
      simp [and_assoc]
    rw [hsound]
    rcases udiDmaPrepare_spec answers.handleAllocated
      (some (udiDmaMemAlloc2 answers (driver true) args)) cons args.flags world with
      ⟨comcons, ⟨hallocated, hcompile⟩, hrun⟩ | ⟨hbad, hrun | hrun⟩
    · rw [hrun, and_iff_right ⟨hallocated, comcons, hcompile⟩]
      exact clean_udiDmaMemAlloc2_iff hwf (formats_of_compile hcompile)
        (isValid_of_compile hcompile) hresized
    · rw [hrun]
      exact iff_of_false (not_clean_none world) fun hsound => hbad hsound.1
    · rw [hrun]
      exact iff_of_false (not_clean_twice world) fun hsound => hbad hsound.1

end

theorem gcb_of_udiDmaMemAlloc {answers : MemAllocAnswers} {callback : Callback (Option Nat)}
    {gcb : Bool} {constraints : Option Constraints} {args : MemAllocArgs} {world next : World}
    (h : udiDmaMemAlloc answers callback gcb constraints args world = some next) : gcb = true := by
  simp only [udiDmaMemAlloc, Option.bind_eq_bind, Option.bind_eq_some_iff] at h
  obtain ⟨given, -, checked, -, h⟩ := h
  split at h
  · cases h
  · next hgcb => simpa using hgcb

theorem wellFormed_oneBuffer : WellFormed oneBuffer where
  fresh := by
    intro object hobject
    have hfresh : 2 ≤ object := hobject
    have hmsgl : object ≠ 1 := by omega
    have hlist : object ≠ 0 := by omega
    simp [oneBuffer, hmsgl, hlist]
  list := by
    intro buf msgl hmsgl
    rcases eq_or_ne buf 1 with rfl | hne
    · obtain rfl : (⟨1, 1, 0⟩ : Msgl) = msgl := Option.some.inj hmsgl
      exact ⟨onePage, rfl, by decide⟩
    · simp [oneBuffer, hne] at hmsgl
  mapped := by
    intro buf msgl hmsgl
    rcases eq_or_ne buf 1 with rfl | hne
    · obtain rfl : (⟨1, 1, 0⟩ : Msgl) = msgl := Option.some.inj hmsgl
      decide
    · simp [oneBuffer, hne] at hmsgl

def overwrite : Call := .bufWrite noAnswers true true (some fun _ => 7) 2 (some 1) 0 4 false

end Zambesii.UdiCompletion
