import Zambesii.DmaConstraints

/-!
The `udi_buf_t` of libzbzcore: a scatter-gather list of the kernel, mapped into the caller's address
space. A call that dereferences `NULL` or a freed object, touches memory that is not mapped or
fails an assertion does not go on.
-/

namespace Zambesii.UdiBuf

open Function
open KernelTypes
open DmaConstraints (Compiler)

/-- `ScatterGatherList`: the kernel's object. `bytes` is its memory, in the order in which its
elements are mapped. -/
structure SgList where
  nFrames : Nat
  bytes : Nat → UInt8
  nElements : Nat
  compiledConstraints : Option Compiler

/-- `MappedScatterGatherList`: `mapped` is the number of pages that are mapped at `vaddr`, none when
that is `NULL`. -/
structure Msgl where
  mapped : Nat
  nFrames : Nat
  sGListIndex : Nat
deriving DecidableEq

/-- `udi_scgth_t`, with the array of elements that either pointer of the union points to. -/
structure Scgth where
  numElements : Nat
  format : Nat
  elements : Option Nat
deriving DecidableEq

/-- `lzudi::dma::sHandle`. There are no bounce buffers yet. -/
structure Handle where
  compiledConstraints : Compiler
  msgl : Option Nat
  udiScgthObj : Scgth
  udiDmahFlags : Nat

inductive Report
  | failed
  | completed
deriving DecidableEq

/-- The objects that are allocated, by their addresses and indexes, the calls of the completion
callback so far, and the DMA handle that the driver keeps. -/
structure World where
  fresh : Nat
  msgls : Nat → Option Msgl
  lists : Nat → Option SgList
  handles : Nat → Option Handle
  arrays : Nat → Bool
  reports : List Report
  kept : Option Nat

def World.setMsgl (world : World) (buf : Nat) (msgl : Option Msgl) : World :=
  { world with msgls := update world.msgls buf msgl }

def World.setList (world : World) (index : Nat) (list : Option SgList) : World :=
  { world with lists := update world.lists index list }

def World.setHandle (world : World) (handle : Nat) (dmah : Option Handle) : World :=
  { world with handles := update world.handles handle dmah }

def World.setArray (world : World) (array : Nat) (live : Bool) : World :=
  { world with arrays := update world.arrays array live }

/-- A callback of libzbzcore or of a driver; `none` is `NULL`. -/
abbrev Callback (α : Type) := Option (α → World → Option World)

def invoke {α : Type} (callback : Callback α) (answer : α) (world : World) : Option World :=
  match callback with
  | none => none
  | some function => function answer world

/-- `LZUDI_CHECK_GCB_AND_CALLBACK_VALID`, which does not return from the function that it is
used in. -/
def checkGcbAndCallbackValid {α : Type} (gcb : Bool) (callback : Callback α) (answer : α)
    (world : World) : Option World :=
  if gcb = false ∧ callback.isSome then invoke callback answer world else some world

def pagesToBytes (pages : Nat) : Nat :=
  pagingBaseSize * pages % wordModulus

def bytesToPages (bytes : Nat) : Nat :=
  bytes / pagingBaseSize + if bytes % pagingBaseSize ≠ 0 then 1 else 0

def Accessible (msgl : Msgl) (offset nBytes : Nat) : Prop :=
  nBytes = 0 ∨ offset + nBytes ≤ pagingBaseSize * msgl.mapped

instance (msgl : Msgl) (offset nBytes : Nat) : Decidable (Accessible msgl offset nBytes) :=
  inferInstanceAs (Decidable (_ ∨ _))

/-- The source bytes from `source` on at an offset. -/
def place (bytes : Nat → UInt8) (offset nBytes : Nat) (source : Nat → UInt8) : Nat → UInt8 :=
  fun i => if offset ≤ i ∧ i < offset + nBytes then source (i - offset) else bytes i

def store (world : World) (buf offset nBytes : Nat) (source : Nat → UInt8) : Option World := do
  let msgl ← world.msgls buf
  if ¬ Accessible msgl offset nBytes then none
  else if nBytes = 0 then some world
  else
    let list ← world.lists msgl.sGListIndex
    some (world.setList msgl.sGListIndex
      (some { list with bytes := place list.bytes offset nBytes source }))

def memset8 (world : World) (buf offset : Nat) (value : UInt8) (nBytes : Nat) : Option World := do
  let msgl ← world.msgls buf
  if (offset + nBytes) % wordModulus ≤ pagesToBytes msgl.nFrames then
    store world buf offset nBytes fun _ => value
  else none

/-- `MappedScatterGatherList::write`; the first answer is whether it returned no error, for
`nBytes` below 2^31, from which on the result of the source is negative. -/
def write (world : World) (inbuff : Nat → UInt8) (buf offset nBytes : Nat) :
    Option (Bool × World) := do
  let msgl ← world.msgls buf
  if (offset + nBytes) % wordModulus > pagesToBytes msgl.nFrames then some (false, world)
  else
    let world ← store world buf offset nBytes inbuff
    some (true, world)

def memmove (world : World) (buf destOff srcOff nBytes : Nat) : Option World := do
  let msgl ← world.msgls buf
  if (destOff + nBytes) % wordModulus ≤ pagesToBytes msgl.nFrames ∧
      (srcOff + nBytes) % wordModulus ≤ pagesToBytes msgl.nFrames ∧
        Accessible msgl srcOff nBytes then
    if nBytes = 0 then some world
    else
      let list ← world.lists msgl.sGListIndex
      store world buf destOff nBytes fun i => list.bytes (srcOff + i)
  else none

/-- `getNFramesInScatterGatherList`, as it is stored: `ERROR_NOT_FOUND` is a large number. -/
def getNFramesInScatterGatherList (world : World) (index : Nat) : Nat :=
  match world.lists index with
  | none => wordModulus - 51
  | some list => list.nFrames

def endOfWrite (dstOff dstLen srcLen : Nat) : Nat :=
  if srcLen > dstLen then (dstOff + srcLen) % wordModulus else (dstOff + dstLen) % wordModulus

/-- `hasEnoughMemoryForWrite`: the number of bytes that are missing. -/
def hasEnoughMemoryForWrite (world : World) (buf dstOff dstLen srcLen : Nat) :
    Option (Option Nat × World) := do
  let msgl ← world.msgls buf
  let nFrames := getNFramesInScatterGatherList world msgl.sGListIndex
  let world := world.setMsgl buf (some { msgl with nFrames })
  if endOfWrite dstOff dstLen srcLen > pagesToBytes nFrames then
    some (some (endOfWrite dstOff dstLen srcLen - pagesToBytes nFrames), world)
  else some (none, world)

def getAddrForOffset (msgl : Msgl) (offset : Nat) : Option Nat :=
  if offset ≥ pagesToBytes msgl.nFrames ∨ msgl.mapped = 0 then none else some offset

/-- What the kernel and the heap answer to the calls that `udi_buf_write` and `udi_buf_copy` may
make. `resized` has the list as the kernel leaves it. -/
structure Answers where
  parentConstraints : Option Compiler
  msglAllocated : Bool
  sgListAllocated : Bool
  constrained : Bool
  resized : Bool × SgList
  remapped : Bool

def emptySgList : SgList where
  nFrames := 0
  bytes := fun _ => 0
  nElements := 0
  compiledConstraints := none

def constrainScatterGatherList (world : World) (index : Nat) (comCons : Compiler) (done : Bool) :
    Bool × World :=
  match world.lists index with
  | none => (false, world)
  | some list =>
    if done then
      (true, world.setList index (some { list with compiledConstraints := some comCons }))
    else (false, world)

def withBuffer (world : World) : World :=
  { (world.setList world.fresh (some emptySgList)).setMsgl (world.fresh + 1)
      (some ⟨0, 0, world.fresh⟩) with
    fresh := world.fresh + 2 }

def allocateScatterGatherList (answers : Answers) (comCons : Option Compiler) (world : World) :
    Option Nat × World :=
  if answers.msglAllocated = false then (none, world)
  else if answers.sgListAllocated = false then (none, world)
  else
    match comCons with
    | none => (some (world.fresh + 1), withBuffer world)
    | some comCons =>
      match constrainScatterGatherList (withBuffer world) world.fresh comCons
          answers.constrained with
      | (true, constrained) => (some (world.fresh + 1), constrained)
      | (false, constrained) =>
        (none, (constrained.setList world.fresh none).setMsgl (world.fresh + 1) none)

/-- `allocSGListAndConstrainByPathHandle`; `path` is whether there is a path handle. -/
def allocSGListAndConstrainByPathHandle (answers : Answers) (path : Bool) (world : World) :
    Option Nat × World :=
  if path then
    match answers.parentConstraints with
    | none => (none, world)
    | some requested => allocateScatterGatherList answers (some requested) world
  else allocateScatterGatherList answers none world

def Answers.resizedList (answers : Answers) (list : SgList) : SgList :=
  { answers.resized.2 with compiledConstraints := list.compiledConstraints }

/-- `resizeScatterGatherList`; the answer is whether it returned no error. -/
def resizeScatterGatherList (answers : Answers) (index nFrames : Nat) (world : World) :
    Bool × World :=
  if nFrames = 0 then (true, world)
  else
    match world.lists index with
    | none => (false, world)
    | some list => (answers.resized.1, world.setList index (some (answers.resizedList list)))

def remapScatterGatherList (answers : Answers) (buf : Nat) (msgl : Msgl) (world : World) :
    Bool × World :=
  match world.lists msgl.sGListIndex with
  | none => (false, world)
  | some list =>
    if answers.remapped then
      (true, world.setMsgl buf (some { msgl with mapped := list.nFrames }))
    else (false, world)

/-- The part of `udi_buf_write` and `udi_buf_copy` that gets more memory; the answer is whether
there is enough. -/
def grow (answers : Answers) (buf dstOff dstLen srcLen extraNBytesRequired : Nat) (world : World) :
    Option (Bool × World) := do
  let msgl ← world.msgls buf
  match resizeScatterGatherList answers msgl.sGListIndex
      ((msgl.nFrames + bytesToPages extraNBytesRequired) % wordModulus) world with
  | (false, world) => some (false, world)
  | (true, world) =>
    let (excess, world) ← hasEnoughMemoryForWrite world buf dstOff dstLen srcLen
    if excess.isSome then some (false, world)
    else
      let msgl ← world.msgls buf
      some (remapScatterGatherList answers buf msgl world)

/-- The part of `udi_buf_write` and `udi_buf_copy` that makes room; the answer is whether there
is. -/
def makeRoom (answers : Answers) (buf dstOff dstLen srcLen : Nat) (world : World) :
    Option (Bool × World) := do
  let (excess, world) ← hasEnoughMemoryForWrite world buf dstOff dstLen srcLen
  match excess with
  | none => some (true, world)
  | some extraNBytesRequired =>
    grow answers buf dstOff dstLen srcLen extraNBytesRequired world

def bytesBehind (nFrames dstOff dstLen : Nat) : Nat :=
  (pagesToBytes nFrames + wordModulus - (dstOff + dstLen) % wordModulus) % wordModulus

/-- The insertion case of `udi_buf_write`: the data moves up. -/
def moveUp (srcLen buf dstOff dstLen : Nat) (world : World) : Option World :=
  if dstLen = 0 then do
    let msgl ← world.msgls buf
    memmove world buf ((dstOff + srcLen) % wordModulus) dstOff
      (bytesBehind msgl.nFrames dstOff dstLen)
  else some world

/-- The other cases of `udi_buf_write`: deletion, filling and overwriting. -/
def putBytes (srcMem : Option (Nat → UInt8)) (srcLen buf dstOff dstLen : Nat) (world : World) :
    Option World :=
  match srcMem with
  | none =>
    if srcLen = 0 then do
      let msgl ← world.msgls buf
      memmove world buf dstOff ((dstOff + dstLen) % wordModulus)
        (bytesBehind msgl.nFrames dstOff dstLen)
    else memset8 world buf dstOff 0 (if srcLen > dstLen then srcLen else dstLen)
  | some source =>
    if srcLen = 0 then memset8 world buf dstOff 0 (if srcLen > dstLen then srcLen else dstLen)
    else do
      let (status, world) ← write world source buf dstOff srcLen
      if status = false then none
      else if srcLen > dstLen then
        memset8 world buf ((dstOff + srcLen) % wordModulus) 0 (srcLen - dstLen)
      else some world

def bufWriteInto (answers : Answers) (callback : Callback (Option Nat))
    (srcMem : Option (Nat → UInt8)) (srcLen buf dstOff dstLen : Nat) (world : World) :
    Option World := do
  let (room, world) ← makeRoom answers buf dstOff dstLen srcLen world
  if room = false then invoke callback none world
  else
    let world ← moveUp srcLen buf dstOff dstLen world
    let world ← putBytes srcMem srcLen buf dstOff dstLen world
    invoke callback (some buf) world

def udiBufWrite (answers : Answers) (callback : Callback (Option Nat)) (gcb : Bool)
    (srcMem : Option (Nat → UInt8)) (srcLen : Nat) (dstBuf : Option Nat) (dstOff dstLen : Nat)
    (path : Bool) (world : World) : Option World := do
  let world ← checkGcbAndCallbackValid gcb callback none world
  match dstBuf with
  | some buf => bufWriteInto answers callback srcMem srcLen buf dstOff dstLen world
  | none =>
    match allocSGListAndConstrainByPathHandle answers path world with
    | (none, world) => invoke callback none world
    | (some buf, world) => bufWriteInto answers callback srcMem srcLen buf dstOff dstLen world

def copyMoveUp (srcLen buf dstOff dstLen : Nat) (world : World) : Option World :=
  if dstLen = 0 then memmove world buf ((dstOff + srcLen) % wordModulus) dstOff srcLen
  else some world

/-- The last part of `udi_buf_copy`; what `write` returns is not looked at. -/
def copyIn (src srcOff srcLen buf dstOff : Nat) (world : World) : Option World := do
  let source ← world.msgls src
  if Accessible source srcOff srcLen then
    let list ← world.lists source.sGListIndex
    let (_, world) ← write world (fun i => list.bytes (srcOff + i)) buf dstOff srcLen
    some world
  else none

/-- The part of `udi_buf_copy` that moves and stores bytes. -/
def copyBytes (src srcOff srcLen buf dstOff dstLen : Nat) (world : World) : Option World :=
  (copyMoveUp srcLen buf dstOff dstLen world).bind (copyIn src srcOff srcLen buf dstOff)

def bufCopyInto (answers : Answers) (callback : Callback (Option Nat)) (srcBuf : Option Nat)
    (srcOff srcLen buf dstOff dstLen : Nat) (world : World) : Option World := do
  let (room, world) ← makeRoom answers buf dstOff dstLen srcLen world
  if room = false then invoke callback none world
  else
    let src ← srcBuf
    let source ← world.msgls src
    match getAddrForOffset source srcOff with
    | none => invoke callback none world
    | some _ =>
      let world ← copyBytes src srcOff srcLen buf dstOff dstLen world
      invoke callback (some buf) world

def checkSource (callback : Callback (Option Nat)) (srcBuf : Option Nat) (srcLen : Nat)
    (world : World) : Option World :=
  if srcBuf = none ∨ srcLen < 1 then invoke callback none world else some world

def udiBufCopy (answers : Answers) (callback : Callback (Option Nat)) (gcb : Bool)
    (srcBuf : Option Nat) (srcOff srcLen : Nat) (dstBuf : Option Nat) (dstOff dstLen : Nat)
    (path : Bool) (world : World) : Option World := do
  let world ← checkGcbAndCallbackValid gcb callback none world
  let world ← checkSource callback srcBuf srcLen world
  match dstBuf with
  | some buf => bufCopyInto answers callback srcBuf srcOff srcLen buf dstOff dstLen world
  | none =>
    match allocSGListAndConstrainByPathHandle answers path world with
    | (none, world) => invoke callback none world
    | (some buf, world) =>
      bufCopyInto answers callback srcBuf srcOff srcLen buf dstOff dstLen world

def udiBufFree (buf : Option Nat) (world : World) : Option World :=
  match buf with
  | none => some world
  | some buf => do
      let msgl ← world.msgls buf
      some ((world.setList msgl.sGListIndex none).setMsgl buf none)

end Zambesii.UdiBuf
