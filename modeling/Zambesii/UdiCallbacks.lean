import Zambesii.UdiObjects

/-!
The reports that a driver gets: everything that the functions on buffers and DMA handles do but
calling the callback leaves them alone, and whatever a callback does to them a function does that
is passed the callback.
-/

namespace Zambesii.UdiCallbacks

open KernelTypes Option
open DmaConstraints (Compiler Constraints compile newCompiler)
open UdiBuf UdiDma UdiObjects

section

variable {world next : World} {answers : Answers} {buf dstOff dstLen srcLen : Nat}

theorem reports_of_hasEnoughMemoryForWrite {excess : Option Nat}
    (h : hasEnoughMemoryForWrite world buf dstOff dstLen srcLen = some (excess, next)) :
    next.reports = world.reports := by
  simp only [hasEnoughMemoryForWrite, bind_eq_bind, bind_eq_some_iff] at h
  obtain ⟨msgl, -, h⟩ := h
  split at h
  · cases h
    rfl
  · cases h
    rfl

theorem reports_resizeScatterGatherList (answers : Answers) (index nFrames : Nat) (world : World) :
    (resizeScatterGatherList answers index nFrames world).2.reports = world.reports := by
  unfold resizeScatterGatherList
  split
  · rfl
  split
  · rfl
  · rfl

theorem reports_remapScatterGatherList (answers : Answers) (buf : Nat) (msgl : Msgl)
    (world : World) :
    (remapScatterGatherList answers buf msgl world).2.reports = world.reports := by
  unfold remapScatterGatherList
  split
  · rfl
  split
  · rfl
  · rfl

theorem reports_of_grow {extra : Nat} {room : Bool}
    (h : grow answers buf dstOff dstLen srcLen extra world = some (room, next)) :
    next.reports = world.reports := by
  simp only [grow, bind_eq_bind, bind_eq_some_iff] at h
  obtain ⟨msgl, -, h⟩ := h
  have hresize := reports_resizeScatterGatherList answers msgl.sGListIndex
    ((msgl.nFrames + bytesToPages extra) % wordModulus) world
  split at h
  · next heq =>
    rw [heq] at hresize
    cases h
    exact hresize
  next heq =>
  rw [heq] at hresize
  obtain ⟨⟨excess, enough⟩, henough, h⟩ := bind_eq_some_iff.mp h
  have hkept := (reports_of_hasEnoughMemoryForWrite henough).trans hresize
  split at h
  · cases h
    exact hkept
  · obtain ⟨msgl', -, h⟩ := bind_eq_some_iff.mp h
    have hremap := reports_remapScatterGatherList answers buf msgl' enough
    rw [some.inj h] at hremap
    exact hremap.trans hkept

theorem reports_of_makeRoom {room : Bool}
    (h : makeRoom answers buf dstOff dstLen srcLen world = some (room, next)) :
    next.reports = world.reports := by
  simp only [makeRoom, bind_eq_bind, bind_eq_some_iff] at h
  obtain ⟨⟨excess, enough⟩, henough, h⟩ := h
  have hkept := reports_of_hasEnoughMemoryForWrite henough
  split at h
  · cases h
    exact hkept
  · exact (reports_of_grow h).trans hkept

theorem reports_of_deleteArray {array : Option Nat} (h : deleteArray array world = some next) :
    next.reports = world.reports := by
  unfold deleteArray at h
  split at h
  · cases h
    rfl
  split at h
  · cases h
    rfl
  · cases h

theorem reports_of_udiDmaBufUnmap {handle : Nat} {msgl : Option Nat}
    (h : udiDmaBufUnmap (some handle) world = some (msgl, next)) :
    next.reports = world.reports := by
  simp only [udiDmaBufUnmap, bind_eq_bind, bind_eq_some_iff] at h
  obtain ⟨dmah, -, h⟩ := h
  split at h
  · cases h
    rfl
  · obtain ⟨after, hafter, h⟩ := bind_eq_some_iff.mp h
    cases h
    have hkept := reports_of_deleteArray hafter
    exact hkept

theorem reports_of_udiDmaFree {handle : Nat} (h : udiDmaFree (some handle) world = some next) :
    next.reports = world.reports := by
  simp only [udiDmaFree, bind_eq_bind, bind_eq_some_iff] at h
  obtain ⟨⟨msgl, after⟩, hafter, h⟩ := h
  cases h
  have hkept := reports_of_udiDmaBufUnmap hafter
  exact hkept

theorem reports_of_udiBufFree (h : udiBufFree (some buf) world = some next) :
    next.reports = world.reports := by
  simp only [udiBufFree, bind_eq_bind, bind_eq_some_iff] at h
  obtain ⟨msgl, -, h⟩ := h
  cases h
  rfl

theorem reports_constrainScatterGatherList (world : World) (index : Nat) (comCons : Compiler)
    (done : Bool) :
    (constrainScatterGatherList world index comCons done).2.reports = world.reports := by
  unfold constrainScatterGatherList
  split
  · rfl
  split
  · rfl
  · rfl

theorem reports_allocateScatterGatherList (answers : Answers) (comCons : Option Compiler)
    (world : World) :
    (allocateScatterGatherList answers comCons world).2.reports = world.reports := by
  unfold allocateScatterGatherList
  split
  · rfl
  split
  · rfl
  cases comCons with
  | none => rfl
  | some comCons =>
    have hkept := reports_constrainScatterGatherList (withBuffer world) world.fresh comCons
      answers.constrained
    dsimp only
    split
    · next heq =>
      rw [heq] at hkept
      exact hkept
    · next heq =>
      rw [heq] at hkept
      exact hkept

theorem reports_allocSGListAndConstrainByPathHandle (answers : Answers) (path : Bool)
    (world : World) :
    (allocSGListAndConstrainByPathHandle answers path world).2.reports = world.reports := by
  unfold allocSGListAndConstrainByPathHandle
  split
  · split
    · rfl
    · exact reports_allocateScatterGatherList ..
  · exact reports_allocateScatterGatherList ..

theorem reports_scgthAllocAndConstruct {answers : MapAnswers} {msgl : Msgl} {comcons : Compiler}
    {world made : World} {us : Option Scgth}
    (h : scgthAllocAndConstruct answers msgl comcons world = some (us, made)) :
    made.reports = world.reports := by
  unfold scgthAllocAndConstruct at h
  split at h
  · cases h
  split at h
  · cases h
    rfl
  dsimp only at h
  split at h
  · cases h
    rfl
  split at h
  · cases h
    rfl
  · cases h
    rfl

end

section

variable {world next : World} {answers : Answers} {buf dstOff dstLen srcLen : Nat}
  {relation : List Report → List Report → Prop} {callback : Callback (Option Nat)}
  {mapCallback : Callback MapReport} {srcMem : Option (Nat → UInt8)} {path : Bool}

def Answering (relation : List Report → List Report → Prop) {α : Type} (callback : Callback α) :
    Prop :=
  ∀ answer world next, invoke callback answer world = some next →
    relation world.reports next.reports

theorem answering_bufWriteInto (h : Answering relation callback)
    (hrun : bufWriteInto answers callback srcMem srcLen buf dstOff dstLen world = some next) :
    relation world.reports next.reports := by
  simp only [bufWriteInto, bind_eq_bind, bind_eq_some_iff] at hrun
  obtain ⟨⟨room, after⟩, hroom, hrun⟩ := hrun
  rw [← reports_of_makeRoom hroom]
  split at hrun
  · exact h none after next hrun
  · simp only [bind_eq_some_iff] at hrun
    obtain ⟨moved, hmoved, put, hput, hrun⟩ := hrun
    rw [← (stores_of_moveUp hmoved).keeps.reports, ← (stores_of_putBytes hput).keeps.reports]
    exact h (some buf) put next hrun

variable {dstBuf srcBuf bufArg : Option Nat} {srcOff flags : Nat} {constraints : Option Constraints}
  {mapAnswers : MapAnswers}

variable (h : Answering relation callback)

include h

theorem answering_udiBufWrite
    (hrun : udiBufWrite answers callback true srcMem srcLen dstBuf dstOff dstLen path world =
      some next) : relation world.reports next.reports := by
  simp only [udiBufWrite, checkGcbAndCallbackValid, Bool.true_eq_false, false_and, if_false,
    some_bind] at hrun
  cases dstBuf with
  | some buf => exact answering_bufWriteInto h hrun
  | none =>
    rw [← reports_allocSGListAndConstrainByPathHandle answers path world]
    dsimp only at hrun
    split at hrun
    · next heq =>
      rw [heq]
      exact h none _ next hrun
    · next heq =>
      rw [heq]
      exact answering_bufWriteInto h hrun

theorem answering_bufCopyInto
    (hrun : bufCopyInto answers callback srcBuf srcOff srcLen buf dstOff dstLen world = some next) :
    relation world.reports next.reports := by
  simp only [bufCopyInto, bind_eq_bind, bind_eq_some_iff] at hrun
  obtain ⟨⟨room, after⟩, hroom, hrun⟩ := hrun
  rw [← reports_of_makeRoom hroom]
  split at hrun
  · exact h none after next hrun
  simp only [bind_eq_some_iff] at hrun
  obtain ⟨src, -, source, -, hrun⟩ := hrun
  split at hrun
  · exact h none after next hrun
  · obtain ⟨copied, hcopied, hrun⟩ := bind_eq_some_iff.mp hrun
    rw [← (stores_of_copyBytes hcopied).keeps.reports]
    exact h (some buf) copied next hrun

theorem answering_copyChecked
    (hrun : udiBufCopy answers callback true srcBuf srcOff srcLen dstBuf dstOff dstLen path world =
      some next) : ∃ checked, checkSource callback srcBuf srcLen world = some checked ∧
      relation checked.reports next.reports := by
  simp only [udiBufCopy, checkGcbAndCallbackValid, Bool.true_eq_false, false_and, if_false,
    bind_eq_bind, bind_some, bind_eq_some_iff] at hrun
  obtain ⟨checked, hchecked, hrun⟩ := hrun
  refine ⟨checked, hchecked, ?_⟩
  cases dstBuf with
  | some buf => exact answering_bufCopyInto h hrun
  | none =>
    rw [← reports_allocSGListAndConstrainByPathHandle answers path checked]
    dsimp only at hrun
    split at hrun
    · next heq =>
      rw [heq]
      exact h none _ next hrun
    · next heq =>
      rw [heq]
      exact answering_bufCopyInto h hrun

theorem answering_udiBufCopy (htrans : ∀ {a b c}, relation a b → relation b c → relation a c)
    (hrun : udiBufCopy answers callback true srcBuf srcOff srcLen dstBuf dstOff dstLen path world =
      some next) : relation world.reports next.reports := by
  obtain ⟨checked, hchecked, hrest⟩ := answering_copyChecked h hrun
  unfold checkSource at hchecked
  split at hchecked
  · exact htrans (h none world checked hchecked) hrest
  · cases hchecked
    exact hrest

theorem answering_udiDmaPrepare
    (htrans : ∀ {a b c}, relation a b → relation b c → relation a c) {allocated : Bool}
    (hrun : udiDmaPrepare allocated callback true constraints flags world = some next) :
    relation world.reports next.reports := by
  cases constraints with
  | none => exact h none world next hrun
  | some cons =>
    obtain ⟨⟨ret, after⟩, hsync, hrun⟩ := bind_eq_some_iff.mp hrun
    have hkept : after.reports = world.reports := by
      unfold prepareAllocAndCompileDmahSync at hsync
      split at hsync
      · cases hsync
        rfl
      obtain ⟨⟨error, comcons⟩, -, hsync⟩ := bind_eq_some_iff.mp hsync
      dsimp only at hsync
      split at hsync
      · cases hsync
        rfl
      · cases hsync
        rfl
    rw [← hkept]
    cases ret with
    | none =>
      obtain ⟨again, hagain, hrun⟩ := bind_eq_some_iff.mp hrun
      exact htrans (h none after again hagain) (h none again next hrun)
    | some handle => exact h (some handle) after next hrun

omit h

theorem answering_mapBuffer (h : Answering relation mapCallback) {handle : Nat} {dmah : Handle}
    (hrun : mapBuffer mapAnswers mapCallback handle dmah bufArg world = some next) :
    relation world.reports next.reports := by
  simp only [mapBuffer, bind_eq_bind, bind_eq_some_iff] at hrun
  obtain ⟨buf', -, msgl, -, hrun⟩ := hrun
  split at hrun
  · exact h _ world next hrun
  next comcons _ =>
  split at hrun
  · exact h _ world next hrun
  split at hrun
  · cases hrun
  · next heq =>
    rw [← reports_scgthAllocAndConstruct heq]
    exact h _ _ next hrun
  next heq =>
  rw [← reports_scgthAllocAndConstruct heq]
  have hdone := h _ _ next hrun
  exact hdone

theorem answering_mapChecked (h : Answering relation mapCallback) {dmaHandle : Option Nat}
    (hrun : udiDmaBufMap mapAnswers mapCallback true dmaHandle bufArg flags world = some next) :
    ∃ checked, checkHandleAndBuf mapCallback dmaHandle bufArg world = some checked ∧
      relation checked.reports next.reports := by
  simp only [udiDmaBufMap, checkGcbAndCallbackValid, Bool.true_eq_false, false_and, if_false,
    bind_eq_bind, bind_some, bind_eq_some_iff] at hrun
  obtain ⟨checked, hchecked, handle, -, dmah, -, hrun⟩ := hrun
  refine ⟨checked, hchecked, ?_⟩
  split at hrun
  · exact h _ checked next hrun
  split at hrun
  · split at hrun
    · exact h _ checked next hrun
    · cases hrun
  · exact answering_mapBuffer h hrun

theorem answering_udiDmaBufMap (h : Answering relation mapCallback)
    (htrans : ∀ {a b c}, relation a b → relation b c → relation a c) {dmaHandle : Option Nat}
    (hrun : udiDmaBufMap mapAnswers mapCallback true dmaHandle bufArg flags world = some next) :
    relation world.reports next.reports := by
  obtain ⟨checked, hchecked, hrest⟩ := answering_mapChecked h hrun
  unfold checkHandleAndBuf at hchecked
  split at hchecked
  · exact htrans (h _ world checked hchecked) hrest
  · cases hchecked
    exact hrest

theorem answering_udiDmaMemAlloc4 (h : Answering relation callback) (handle buf : Nat) :
    Answering relation (some (udiDmaMemAlloc4 callback handle buf)) := by
  intro report world next hrun
  simp only [invoke, udiDmaMemAlloc4, bind_eq_bind, bind_eq_some_iff] at hrun
  obtain ⟨initialized, -, hrun⟩ := hrun
  split at hrun
  · obtain ⟨-, -, hrun⟩ := bind_eq_some_iff.mp hrun
    exact h (some handle) world next hrun
  · simp only [bind_eq_some_iff] at hrun
    obtain ⟨-, -, freed, hfreed, released, hreleased, hrun⟩ := hrun
    rw [← reports_of_udiBufFree hfreed, ← reports_of_udiDmaFree hreleased]
    exact h none released next hrun

theorem answering_udiDmaMemAlloc35 (h : Answering relation callback)
    (htrans : ∀ {a b c}, relation a b → relation b c → relation a c) (answers : MemAllocAnswers)
    (args : MemAllocArgs) (handle buf : Nat) :
    Answering relation (some (udiDmaMemAlloc35 answers callback args handle buf)) := by
  intro newBuf world next hrun
  exact answering_udiDmaBufMap (answering_udiDmaMemAlloc4 h handle (newBuf.getD buf)) htrans hrun

theorem answering_udiDmaMemAlloc3 (h : Answering relation callback)
    (htrans : ∀ {a b c}, relation a b → relation b c → relation a c) (answers : MemAllocAnswers)
    (args : MemAllocArgs) (handle : Nat) :
    Answering relation (some (udiDmaMemAlloc3 answers callback args handle)) := by
  intro newBuf world next hrun
  cases newBuf with
  | none =>
    obtain ⟨freed, hfreed, hrun⟩ := bind_eq_some_iff.mp hrun
    rw [← reports_of_udiDmaFree hfreed]
    exact h none freed next hrun
  | some buf =>
    simp only [invoke, udiDmaMemAlloc3, bind_eq_bind, bind_eq_some_iff] at hrun
    obtain ⟨msgl, -, dmah, -, hrun⟩ := hrun
    rw [← reports_constrainScatterGatherList world msgl.sGListIndex dmah.compiledConstraints
      answers.constrained]
    split at hrun
    · next heq =>
      simp only [bind_eq_some_iff] at hrun
      obtain ⟨freed, hfreed, released, hreleased, hrun⟩ := hrun
      rw [heq]
      rw [← reports_of_udiDmaFree hfreed, ← reports_of_udiBufFree hreleased]
      exact h none released next hrun
    · next heq =>
      rw [heq]
      exact answering_udiBufWrite (answering_udiDmaMemAlloc35 h htrans answers args handle buf)
        hrun

theorem answering_udiDmaMemAlloc2 (h : Answering relation callback)
    (htrans : ∀ {a b c}, relation a b → relation b c → relation a c) (answers : MemAllocAnswers)
    (args : MemAllocArgs) : Answering relation (some (udiDmaMemAlloc2 answers callback args)) := by
  intro dmaHandle world next hrun
  cases dmaHandle with
  | none => exact h none world next hrun
  | some handle =>
    simp only [invoke, udiDmaMemAlloc2] at hrun
    exact answering_udiBufWrite (answering_udiDmaMemAlloc3 h htrans answers args handle) hrun

theorem answering_memAllocChecked (h : Answering relation callback)
    (htrans : ∀ {a b c}, relation a b → relation b c → relation a c) {answers : MemAllocAnswers}
    {args : MemAllocArgs}
    (hrun : udiDmaMemAlloc answers callback true constraints args world = some next) :
    ∃ checked, checkSizes callback args world = some checked ∧
      relation checked.reports next.reports := by
  simp only [udiDmaMemAlloc, checkGcbAndCallbackValid, Bool.true_eq_false, false_and, if_false,
    bind_eq_bind, bind_some, bind_eq_some_iff] at hrun
  obtain ⟨checked, hchecked, hrun⟩ := hrun
  exact ⟨checked, hchecked,
    answering_udiDmaPrepare (answering_udiDmaMemAlloc2 h htrans answers args) htrans hrun⟩

theorem answering_udiDmaMemAlloc (h : Answering relation callback)
    (htrans : ∀ {a b c}, relation a b → relation b c → relation a c) {answers : MemAllocAnswers}
    {args : MemAllocArgs}
    (hrun : udiDmaMemAlloc answers callback true constraints args world = some next) :
    relation world.reports next.reports := by
  obtain ⟨checked, hchecked, hrest⟩ := answering_memAllocChecked h htrans hrun
  unfold checkSizes at hchecked
  split at hchecked
  · exact htrans (h none world checked hchecked) hrest
  · cases hchecked
    exact hrest

end

end Zambesii.UdiCallbacks
