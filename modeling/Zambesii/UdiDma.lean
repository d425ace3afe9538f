import Zambesii.UdiBuf

/-!
The DMA handles of libzbzcore: the functions that pass a completion callback on from one to the
next.
-/

namespace Zambesii.UdiDma

open KernelTypes
open DmaConstraints (Compiler Constraints compile newCompiler)
open UdiBuf

def scgth64 (formats : Nat) : Bool := formats / 2 % 2 = 1

def driverMapped (format : Nat) : Nat := format ||| 128

def blankScgth : Scgth := ⟨0, 0, none⟩

/-- `udi_scgth_t_is_initialized`. Both pointers of the union are the array. -/
def scgthIsInitialized (us : Scgth) : Bool :=
  if us.format = 0 ∨ us.numElements < 1 then false else us.elements.isSome

def isValid (comcons : Compiler) : Bool := comcons.minElementGranularityNFrames > 0

inductive UdiStatus
  | ok
  | notSupported
  | invalidState
  | busy
  | attrMismatch
  | notResponding
  | notUnderstood
deriving DecidableEq

/-- What the callback of `udi_dma_buf_map` is called with; `scgth` is the handle whose `udi_scgth_t`
it is. -/
structure MapReport where
  scgth : Option Nat
  complete : Bool
  status : UdiStatus
deriving DecidableEq

def deleteArray (array : Option Nat) (world : World) : Option World :=
  match array with
  | none => some world
  | some array => if world.arrays array then some (world.setArray array false) else none

/-- `udi_dma_prepare_alloc_and_compile_dmah_sync`; `allocated` is whether the heap has room for the
handle. -/
def prepareAllocAndCompileDmahSync (allocated : Bool) (constraints : Constraints) (flags : Nat)
    (world : World) : Option (Option Nat × World) :=
  if allocated = false then some (none, world)
  else do
    let (err, compiledCons) ← compile constraints newCompiler
    if err ≠ .success then some (none, world)
    else
      some (some world.fresh,
        { world.setHandle world.fresh (some ⟨compiledCons, none, blankScgth, flags⟩) with
          fresh := world.fresh + 1 })

/-- `udi_dma_prepare`. The constraints are `none` when they, or their attributes, are `NULL`. -/
def udiDmaPrepare (allocated : Bool) (callback : Callback (Option Nat)) (gcb : Bool)
    (constraints : Option Constraints) (flags : Nat) (world : World) : Option World := do
  let world ← checkGcbAndCallbackValid gcb callback none world
  match constraints with
  | none => invoke callback none world
  | some constraints =>
    let (ret, world) ← prepareAllocAndCompileDmahSync allocated constraints flags world
    match ret with
    -- the failure is reported, and the function goes on
    | none => (invoke callback none world).bind (invoke callback none)
    | some ret => invoke callback (some ret) world

def udiDmaBufUnmap (handle : Option Nat) (world : World) : Option (Option Nat × World) :=
  match handle with
  | none => some (none, world)
  | some handle => do
      let dmah ← world.handles handle
      match dmah.msgl with
      | none => some (none, world)
      | some msgl =>
        let world ← deleteArray dmah.udiScgthObj.elements world
        some (some msgl,
          world.setHandle handle (some { dmah with udiScgthObj := blankScgth, msgl := none }))

def udiDmaFree (handle : Option Nat) (world : World) : Option World :=
  match handle with
  | none => some world
  | some handle => do
      let (_, world) ← udiDmaBufUnmap (some handle) world
      some (world.setHandle handle none)

/-- What the heap and the kernel answer to the calls that `udi_dma_buf_map` may make. -/
structure MapAnswers where
  arrayAllocated : Bool
  defaultConstraints : Option Compiler

def elementSize : Nat := 16

/-- `getScatterGatherListElements`: the number of elements that it copies, and the format; `none`
when it returns an error. With no room for an element it does not look at the list. -/
def getScatterGatherListElements (list : Option SgList) (outarrayNBytes formats : Nat) :
    Option (Nat × Nat) :=
  if outarrayNBytes < 8 then some (0, formats)
  else
    match list with
    | none => none
    | some list =>
      if formats % 4 = 0 then none
      else some (min outarrayNBytes list.nElements, if scgth64 formats then 2 else formats)

/-- `udi_scgth_t_alloc_and_construct`, for constraints that are valid. -/
def scgthAllocAndConstruct (answers : MapAnswers) (msgl : Msgl) (comcons : Compiler)
    (world : World) : Option (Option Scgth × World) :=
  -- `new` of an array of no elements panics
  if msgl.nFrames = 0 then none
  else if answers.arrayAllocated = false then some (none, world)
  else
    let outarr := world.fresh
    let world := { world.setArray outarr true with fresh := world.fresh + 1 }
    match getScatterGatherListElements (world.lists msgl.sGListIndex)
        (elementSize * msgl.nFrames % wordModulus) comcons.callerSupportedFormats with
    | none => some (none, world.setArray outarr false)
    | some (stat, format) =>
      if format &&& comcons.callerSupportedFormats = 0 then
        some (none, world.setArray outarr false)
      else some (some ⟨stat % 2 ^ 16, driverMapped format, some outarr⟩, world)

/-- The constraints that `udi_dma_buf_map` compares those of the handle with. -/
def constraintsOf (answers : MapAnswers) (list : Option SgList) : Option Compiler :=
  match list.bind fun list => list.compiledConstraints.filter isValid with
  | some comcons => some comcons
  | none => answers.defaultConstraints.filter isValid

def mapBuffer (answers : MapAnswers) (callback : Callback MapReport) (handle : Nat) (dmah : Handle)
    (buf : Option Nat) (world : World) : Option World := do
  let buf ← buf
  let msgl ← world.msgls buf
  match constraintsOf answers (world.lists msgl.sGListIndex) with
  | none => invoke callback ⟨none, false, .invalidState⟩ world
  | some bufSglCompiledCons =>
    if bufSglCompiledCons ≠ dmah.compiledConstraints then
      invoke callback ⟨none, false, .attrMismatch⟩ world
    else
      match scgthAllocAndConstruct answers msgl bufSglCompiledCons world with
      | none => none
      | some (none, world) => invoke callback ⟨none, false, .notResponding⟩ world
      | some (some udiScgthObj, world) =>
        invoke callback ⟨some handle, true, .ok⟩
          (world.setHandle handle (some { dmah with udiScgthObj, msgl := some buf }))

/-- The check of the handle and the buffer; the failure is reported, and the function goes on. -/
def checkHandleAndBuf (callback : Callback MapReport) (dmaHandle buf : Option Nat) (world : World) :
    Option World :=
  if dmaHandle = none ∨ buf = none then invoke callback ⟨none, false, .notSupported⟩ world
  else some world

def udiDmaBufMap (answers : MapAnswers) (callback : Callback MapReport) (gcb : Bool)
    (dmaHandle buf : Option Nat) (flags : Nat) (world : World) : Option World := do
  let world ← checkGcbAndCallbackValid gcb callback ⟨none, false, .notUnderstood⟩ world
  let world ← checkHandleAndBuf callback dmaHandle buf world
  let handle ← dmaHandle
  let dmah ← world.handles handle
  if dmah.udiDmahFlags &&& flags = 0 then invoke callback ⟨none, false, .invalidState⟩ world
  else if dmah.msgl.isSome ∨ scgthIsInitialized dmah.udiScgthObj then
    if dmah.msgl.isSome ∧ scgthIsInitialized dmah.udiScgthObj then
      invoke callback ⟨none, false, .busy⟩ world
    else none
  else mapBuffer answers callback handle dmah buf world

def dmaInOut : Nat := 12

def udiDmaSync (callback : Callback Unit) (gcb : Bool) (dmaHandle : Option Nat)
    (flags : Nat) (world : World) : Option World := do
  let world ← checkGcbAndCallbackValid gcb callback () world
  match dmaHandle with
  | none => invoke callback () world
  | some handle =>
    if flags &&& dmaInOut = 0 then invoke callback () world
    else
      let dmah ← world.handles handle
      if dmah.msgl = none ∨ scgthIsInitialized dmah.udiScgthObj = false then
        if dmah.msgl = none ∧ scgthIsInitialized dmah.udiScgthObj = false then
          invoke callback () world
        else none
      else
        -- the cache is written back, or the range is refused: the callback is called once
        let msgl ← dmah.msgl
        let _ ← world.msgls msgl
        invoke callback () world

/-- The arguments of `udi_dma_mem_alloc` that its parts go on with. -/
structure MemAllocArgs where
  flags : Nat
  nelements : Nat
  elementSize : Nat

structure MemAllocAnswers where
  handleAllocated : Bool
  alloc : Answers
  constrained : Bool
  insert : Answers
  map : MapAnswers

def initializedAt (world : World) (scgth : Option Nat) : Option (Option Bool) :=
  match scgth with
  | none => some none
  | some scgth => (world.handles scgth).map fun dmah => some (scgthIsInitialized dmah.udiScgthObj)

/-- `udi_dma_mem_alloc_4`; the callback is told the handle. -/
def udiDmaMemAlloc4 (callback : Callback (Option Nat)) (handle buf : Nat) (report : MapReport)
    (world : World) : Option World := do
  let initialized ← initializedAt world report.scgth
  if report.status = .ok ∧ report.complete = true ∧ initialized = some true then
    let _ ← world.msgls buf
    invoke callback (some handle) world
  else
    -- `udi_scgth_t_is_initialized` looks at the `udi_scgth_t` once more
    let _ ← initialized
    let world ← udiBufFree (some buf) world
    let world ← udiDmaFree (some handle) world
    invoke callback none world

def MemAllocArgs.nBytes (args : MemAllocArgs) : Nat :=
  args.nelements * args.elementSize % wordModulus

/-- `udi_dma_mem_alloc_3_5`. A failure leaves the buffer as it was. -/
def udiDmaMemAlloc35 (answers : MemAllocAnswers) (callback : Callback (Option Nat))
    (args : MemAllocArgs) (handle buf : Nat) (newBuf : Option Nat) (world : World) : Option World :=
  udiDmaBufMap answers.map (some (udiDmaMemAlloc4 callback handle (newBuf.getD buf))) true
    (some handle) (some (newBuf.getD buf)) args.flags world

def udiDmaMemAlloc3 (answers : MemAllocAnswers) (callback : Callback (Option Nat))
    (args : MemAllocArgs) (handle : Nat) (newBuf : Option Nat) (world : World) : Option World :=
  match newBuf with
  | none => do
      let world ← udiDmaFree (some handle) world
      invoke callback none world
  | some buf => do
      let msgl ← world.msgls buf
      let dmah ← world.handles handle
      match constrainScatterGatherList world msgl.sGListIndex dmah.compiledConstraints
          answers.constrained with
      | (false, world) =>
        let world ← udiDmaFree (some handle) world
        let world ← udiBufFree (some buf) world
        invoke callback none world
      | (true, world) =>
        udiBufWrite answers.insert (some (udiDmaMemAlloc35 answers callback args handle buf)) true
          none args.nBytes (some buf) 0 0 false world

def udiDmaMemAlloc2 (answers : MemAllocAnswers) (callback : Callback (Option Nat))
    (args : MemAllocArgs) (dmaHandle : Option Nat) (world : World) : Option World :=
  match dmaHandle with
  | none => invoke callback none world
  | some handle =>
    udiBufWrite answers.alloc (some (udiDmaMemAlloc3 answers callback args handle)) true none 0
      none 0 0 false world

def checkSizes (callback : Callback (Option Nat)) (args : MemAllocArgs) (world : World) :
    Option World :=
  if args.nelements = 0 ∨ args.elementSize = 0 then invoke callback none world else some world

def udiDmaMemAlloc (answers : MemAllocAnswers) (callback : Callback (Option Nat)) (gcb : Bool)
    (constraints : Option Constraints) (args : MemAllocArgs) (world : World) : Option World := do
  let world ← checkGcbAndCallbackValid gcb callback none world
  let world ← checkSizes callback args world
  -- the control block is copied
  if gcb = false then none
  else
    udiDmaPrepare answers.handleAllocated (some (udiDmaMemAlloc2 answers callback args)) true
      constraints args.flags world

end Zambesii.UdiDma
