import Zambesii.KernelTypes
import Zambesii.Runs

/-!
`Heap`: chunks of memory that are cut into allocations and free blocks, each with a header at
its start, or for an allocation after the gap at its start. A `List` is a list here, in the
order of its links; an item is known by its address.

The headers lie in the memory that they describe, so the constructor of one object can write
over the header of another. What such a header says is not known any more: a function that
reads it returns `none`, as one that panics does. The protection of the guard pages is left out.
-/

namespace Zambesii.KernelHeap

open KernelTypes Runs

def wordAdd (x y : Nat) : Nat :=
  (x + y) % wordModulus

def wordSub (x y : Nat) : Nat :=
  (x + (wordModulus - y)) % wordModulus

/-- `MAGIC_MAXLEN`; the magic is the last member of each header. -/
def magicMaxlen : Nat := 24

def sizeofBlock : Nat := 40

def sizeofAllocation : Nat := 76

def sizeofWord : Nat := 4

/-- Whether all of a header is as its constructor left it, and whether its magic is. -/
structure Header where
  intact : Bool
  magicIsValid : Bool
deriving DecidableEq

def Header.fresh : Header := ⟨true, true⟩

structure Block where
  addr : Nat
  parent : Nat
  nBytes : Nat
  header : Header
deriving DecidableEq

structure Allocation where
  addr : Nat
  parent : Nat
  nBytes : Nat
  gapSize : Nat
  header : Header
deriving DecidableEq

structure Chunk where
  addr : Nat
  nAllocations : Nat
  blocks : List Block
  header : Header
deriving DecidableEq

structure Heap where
  chunkList : List Chunk
  allocationList : List Allocation
deriving DecidableEq

/-- The size of the chunks, `sizeof(Chunk)`, and the options. A chunk has room for its header
and a block, and consists of whole pages where guard pages are used. -/
structure Config where
  chunkSize : Nat
  sizeofChunk : Nat
  guardPaged : Bool
  checkAllocsOnFree : Bool
  checkHeapRangesOnFree : Bool
  checkBlockMagicPassively : Bool
  magic_le : magicMaxlen ≤ sizeofChunk
  chunkSize_lt : chunkSize < wordModulus
  fits : (if guardPaged then
      (sizeofChunk + (pagingBaseSize - 1)) / pagingBaseSize * pagingBaseSize
    else sizeofChunk) + sizeofBlock ≤ chunkSize
  whole_pages : guardPaged = true → pagingBaseSize ∣ chunkSize

def overlaps (first nBytes first' nBytes' : Nat) : Bool :=
  decide (first < first' + nBytes') && decide (first' < first + nBytes)

/-- The header of `nBytes'` bytes at `first'` after an object with a header of `nBytes` bytes
was constructed at `first`. The constructor surely sets the members from `members` on. -/
def Header.overwrite (header : Header) (first' nBytes' first nBytes members : Nat) : Header where
  intact := header.intact && !overlaps first nBytes first' nBytes'
  magicIsValid := header.magicIsValid &&
    !overlaps (first + members) (nBytes - members) (first' + (nBytes' - magicMaxlen)) magicMaxlen

def Block.overwrite (block : Block) (first nBytes members : Nat) : Block :=
  { block with header := block.header.overwrite block.addr sizeofBlock first nBytes members }

def Allocation.overwrite (alloc : Allocation) (first nBytes members : Nat) : Allocation :=
  { alloc with
    header := alloc.header.overwrite alloc.addr sizeofAllocation first nBytes members }

def Chunk.overwrite (chunk : Chunk) (config : Config) (first nBytes members : Nat) : Chunk :=
  { chunk with
    blocks := chunk.blocks.map (·.overwrite first nBytes members)
    header := chunk.header.overwrite chunk.addr config.sizeofChunk first nBytes members }

def Heap.overwrite (heap : Heap) (config : Config) (first nBytes members : Nat) : Heap where
  chunkList := heap.chunkList.map (·.overwrite config first nBytes members)
  allocationList := heap.allocationList.map (·.overwrite first nBytes members)

/-- `new (dest) Block`: all but the link is set. -/
def Heap.constructBlock (heap : Heap) (config : Config) (dest : Nat) : Heap :=
  heap.overwrite config dest sizeofBlock 4

/-- `new (dest) Allocation`: without a description, the link, `allocatedBy` and the 32 bytes of
the description may be as they were. -/
def Heap.constructAllocation (heap : Heap) (config : Config) (dest : Nat) : Heap :=
  heap.overwrite config dest sizeofAllocation 40

/-- `new (dest) Chunk`: all but the link is set. -/
def Heap.constructChunk (heap : Heap) (config : Config) (dest : Nat) : Heap :=
  heap.overwrite config dest config.sizeofChunk 4

def sortedInsert (item : Block) : List Block → List Block
  | [] => [item]
  | curr :: rest =>
    if item.addr ≤ curr.addr then item :: curr :: rest else curr :: sortedInsert item rest

def removeBlock (addr : Nat) (blocks : List Block) : List Block :=
  blocks.eraseP fun block => decide (block.addr = addr)

def setNBytes (addr nBytes : Nat) (blocks : List Block) : List Block :=
  blocks.map fun block => if block.addr = addr then { block with nBytes } else block

def nextItem (addr : Nat) : List Block → Option Block
  | [] => none
  | block :: rest => if block.addr = addr then rest.head? else nextItem addr rest

def Chunk.mapBlocks (chunk : Chunk) (f : List Block → List Block) : Chunk :=
  { chunk with blocks := f chunk.blocks }

def Heap.modifyChunk (heap : Heap) (addr : Nat) (f : Chunk → Chunk) : Heap :=
  { heap with chunkList := heap.chunkList.map fun chunk =>
      if chunk.addr = addr then f chunk else chunk }

def Heap.mapBlocks (heap : Heap) (addr : Nat) (f : List Block → List Block) : Heap :=
  heap.modifyChunk addr (·.mapBlocks f)

/-- The size that `Heap::malloc` asks its chunks for: with the header, the guard page and the
bytes up to the next word. -/
def roundSize (config : Config) (sz : Nat) : Nat :=
  let sz := wordAdd sz sizeofAllocation
  let sz := if config.guardPaged then wordAdd sz pagingBaseSize else sz
  if sz % sizeofWord = 0 then sz else wordAdd sz sizeofWord / sizeofWord * sizeofWord

def gapRequirement (config : Config) (sz : Nat) : Nat :=
  if config.guardPaged then pagingBaseSize - sz % pagingBaseSize else 0

/-- The loop of `Chunk::malloc` up to the block that can satisfy the allocation. -/
def findBlock (config : Config) (chunk needed : Nat) : List Block → Option (Option Block)
  | [] => some none
  | currBlock :: rest =>
    if config.guardPaged && decide (currBlock.addr % pagingBaseSize ≠ 0) then none
    else if currBlock.header.intact = false then none
    else if currBlock.parent ≠ chunk then none
    else if config.checkBlockMagicPassively && !currBlock.header.magicIsValid then none
    else if needed > currBlock.nBytes then findBlock config chunk needed rest
    else some (some currBlock)

def constructCounted (config : Config) (heap : Heap) (chunk : Nat) (currBlock : Block)
    (gapSize sz : Nat) : Option (Option Allocation × Heap) :=
  let dest := wordAdd currBlock.addr gapSize
  let heap := (heap.constructAllocation config dest).modifyChunk chunk fun chunk =>
    { chunk with nAllocations := chunk.nAllocations + 1 }
  some (some ⟨dest, chunk, sz, gapSize, .fresh⟩, heap)

def Chunk.malloc (chunk : Chunk) (config : Config) (heap : Heap) (sz : Nat) :
    Option (Option Allocation × Heap) :=
  let gap := gapRequirement config sz
  let needed := wordAdd gap sz
  match findBlock config chunk.addr needed chunk.blocks with
  | none => none
  | some none => some (none, heap)
  | some (some currBlock) =>
    if wordSub currBlock.nBytes sizeofBlock ≤ needed then
      constructCounted config (heap.mapBlocks chunk.addr (removeBlock currBlock.addr)) chunk.addr
        currBlock (wordAdd gap (wordSub currBlock.nBytes needed)) sz
    else
      let dest := wordAdd currBlock.addr needed
      if config.guardPaged && decide (dest % pagingBaseSize ≠ 0) then none
      else
        let newBlock : Block :=
          ⟨dest, chunk.addr, wordSub (wordSub currBlock.nBytes gap) sz, .fresh⟩
        constructCounted config
          (((heap.constructBlock config dest).mapBlocks chunk.addr
            (removeBlock currBlock.addr)).mapBlocks chunk.addr (sortedInsert newBlock))
          chunk.addr currBlock gap sz

/-- The first block of a chunk: after the chunk's header, on the next page in case of guard
pages. -/
def firstBlockAddr (config : Config) (chunk : Nat) : Nat :=
  let first := wordAdd chunk config.sizeofChunk
  if config.guardPaged && decide (first % pagingBaseSize ≠ 0) then
    wordAdd first pagingBaseSize / pagingBaseSize * pagingBaseSize
  else first

/-- `getNewChunk` with the pages at `addr` that `memAlloc` returned. -/
def Heap.getNewChunk (heap : Heap) (config : Config) (addr : Nat) : Heap :=
  let first := firstBlockAddr config addr
  let heap := (heap.constructChunk config addr).constructBlock config first
  let block : Block := ⟨first, addr, wordSub config.chunkSize (wordSub first addr), .fresh⟩
  { heap with chunkList := heap.chunkList ++ [⟨addr, 0, sortedInsert block [], .fresh⟩] }

/-- The iteration over the chunks in one pass of `Heap::malloc`. -/
def mallocFrom (config : Config) (heap : Heap) (sz : Nat) :
    List Chunk → Option (Option Allocation × Heap)
  | [] => some (none, heap)
  | currChunk :: rest =>
    if currChunk.header.magicIsValid = false || currChunk.header.intact = false then none
    else
      match currChunk.malloc config heap sz with
      | none => none
      | some (none, _) => mallocFrom config heap sz rest
      | some (some alloc, heap) => some (some alloc, heap)

/-- The passes of `Heap::malloc`, one for each result of `memAlloc`; `none` is `NULL`. -/
def mallocPasses (config : Config) (sz : Nat) :
    List (Option Nat) → Heap → Option (Option Allocation × Heap)
  | [], heap => some (none, heap)
  | supply :: supplies, heap =>
    match mallocFrom config heap sz heap.chunkList with
    | none => none
    | some (some alloc, heap) => some (some alloc, heap)
    | some (none, heap) =>
      match supply with
      | none => some (none, heap)
      | some addr => mallocPasses config sz supplies (heap.getNewChunk config addr)

/-- `first` and `second` are what `memAlloc` returns when it is called in the two passes. -/
def Heap.malloc (heap : Heap) (config : Config) (sz : Nat) (first second : Option Nat) :
    Option (Option Nat × Heap) :=
  if sz = 0 then none
  else
    match mallocPasses config (roundSize config sz) [first, second] heap with
    | none => none
    | some (none, heap) => some (none, heap)
    | some (some alloc, heap) =>
      some (some (wordAdd alloc.addr sizeofAllocation),
        { heap with allocationList := heap.allocationList ++ [alloc] })

def Allocation.start (alloc : Allocation) : Nat :=
  wordSub alloc.addr alloc.gapSize

def Block.lastByte (block : Block) : Nat :=
  wordAdd block.addr (wordSub block.nBytes 1)

inductive Place
  | prepend (block : Block) (prevBlock : Option Block)
  | append (block : Block)
  | insert
deriving DecidableEq

def findPlace (alloc : Allocation) : Option Block → List Block → Option Place
  | _, [] => some .insert
  | prevBlock, currBlock :: rest =>
    let allocEnd := wordAdd alloc.addr (wordSub alloc.nBytes 1)
    if currBlock.header.intact = false then none
    else if wordAdd allocEnd 1 = currBlock.addr then some (.prepend currBlock prevBlock)
    else if wordAdd currBlock.lastByte 1 = alloc.start then some (.append currBlock)
    else if alloc.addr < currBlock.addr ∧ (prevBlock.all fun prev => prev.lastByte < alloc.addr)
    then some .insert
    else findPlace alloc (some currBlock) rest

/-- `appendAndCoalesce` on the chunk's list. -/
def appendAndCoalesce (block : Block) (alloc : Allocation) (blocks : List Block) : List Block :=
  let nBytes := wordAdd block.nBytes (wordAdd alloc.gapSize alloc.nBytes)
  let blocks := setNBytes block.addr nBytes blocks
  match nextItem block.addr blocks with
  | none => blocks
  | some nextBlock =>
    if wordAdd (wordAdd block.addr (wordSub nBytes 1)) 1 ≠ nextBlock.addr then blocks
    else removeBlock nextBlock.addr (setNBytes block.addr (wordAdd nBytes nextBlock.nBytes) blocks)

/-- `prependAndCoalesce` on the chunk's list, after the new block is constructed. -/
def prependAndCoalesce (newBlock block : Block) (prevBlock : Option Block)
    (blocks : List Block) : List Block :=
  let blocks := removeBlock block.addr blocks
  match prevBlock with
  | none => sortedInsert newBlock blocks
  | some prevBlock =>
    if wordAdd prevBlock.lastByte 1 ≠ newBlock.addr then sortedInsert newBlock blocks
    else setNBytes prevBlock.addr (wordAdd prevBlock.nBytes newBlock.nBytes) blocks

def Chunk.free (chunk : Chunk) (config : Config) (heap : Heap) (alloc : Allocation) : Option Heap :=
  let total := wordAdd alloc.gapSize alloc.nBytes
  let uncount (heap : Heap) : Heap := heap.modifyChunk chunk.addr fun chunk =>
    { chunk with nAllocations := chunk.nAllocations - 1 }
  match findPlace alloc none chunk.blocks with
  | none => none
  | some (.prepend block prevBlock) =>
    let newBlock : Block := ⟨alloc.start, chunk.addr, wordAdd total block.nBytes, .fresh⟩
    some (uncount ((heap.constructBlock config alloc.start).mapBlocks chunk.addr
      (prependAndCoalesce newBlock block prevBlock)))
  | some (.append block) =>
    some (uncount (heap.mapBlocks chunk.addr (appendAndCoalesce block alloc)))
  | some .insert =>
    let newBlock : Block := ⟨alloc.start, chunk.addr, total, .fresh⟩
    some (uncount ((heap.constructBlock config alloc.start).mapBlocks chunk.addr
      (sortedInsert newBlock)))

def allocIsWithinHeap (config : Config) (chunkList : List Chunk) (alloc : Nat) : Option Chunk :=
  chunkList.find? fun chunk =>
    decide (chunk.addr ≤ alloc) && decide (alloc < wordAdd chunk.addr config.chunkSize)

/-- The walk over the list of allocations to the one at `addr`. -/
def findAllocation (addr : Nat) : List Allocation → Option Allocation
  | [] => none
  | alloc :: rest =>
    if alloc.header.intact = false then none
    else if alloc.addr = addr then some alloc
    else findAllocation addr rest

def removeAllocation (addr : Nat) (allocs : List Allocation) : List Allocation :=
  allocs.eraseP fun alloc => decide (alloc.addr = addr)

/-- `Heap::free`; at a pointer that was not allocated there is no header that could be read. -/
def Heap.free (heap : Heap) (config : Config) (p : Nat) : Option Heap :=
  match findAllocation (wordSub p sizeofAllocation) heap.allocationList with
  | none => none
  | some alloc =>
    if config.guardPaged && (decide (alloc.start % pagingBaseSize ≠ 0) ||
        decide (wordAdd alloc.addr alloc.nBytes % pagingBaseSize ≠ 0)) then none
    else if config.checkHeapRangesOnFree &&
        (allocIsWithinHeap config heap.chunkList alloc.addr).isNone then none
    else if alloc.header.magicIsValid = false then none
    else if alloc.nBytes = 0 then none
    else if config.checkAllocsOnFree && !(heap.allocationList.any (·.addr == alloc.addr)) then none
    else
      match heap.chunkList.find? (fun chunk => decide (chunk.addr = alloc.parent)) with
      | none => none
      | some chunk =>
        let heap := { heap with
          allocationList := removeAllocation alloc.addr heap.allocationList }
        chunk.free config heap alloc

def checkBlocksFrom (config : Config) (currChunk : Nat) : Option Block → List Block → Option Kerror
  | _, [] => some .success
  | prevBlock, currBlock :: rest =>
    if currBlock.header.magicIsValid = false then some .unknown
    else if currBlock.header.intact = false then none
    else if currBlock.parent ≠ currChunk then some .unknown
    else if wordAdd currBlock.addr currBlock.nBytes > wordAdd currChunk config.chunkSize then
      some .limitOverflowed
    else
      match prevBlock with
      | none => checkBlocksFrom config currChunk (some currBlock) rest
      | some prevBlock =>
        if currBlock.addr < prevBlock.addr then some .general
        else if currBlock.addr = prevBlock.addr then some .duplicate
        else if wordAdd prevBlock.addr prevBlock.nBytes ≥ currBlock.addr then some .unknown
        else checkBlocksFrom config currChunk (some currBlock) rest

def checkChunksFrom (config : Config) : List Chunk → Option Kerror
  | [] => some .success
  | currChunk :: rest =>
    if currChunk.header.intact = false then none
    else
      match checkBlocksFrom config currChunk.addr none currChunk.blocks with
      | some .success => checkChunksFrom config rest
      | answer => answer

def Heap.checkBlocks (heap : Heap) (config : Config) : Option Kerror :=
  checkChunksFrom config heap.chunkList

/-- The first loop of `checkAllocations`: the number of allocations that the chunks count. -/
def countAllocations : List Chunk → Option (Except Kerror Nat)
  | [] => some (.ok 0)
  | currChunk :: rest =>
    if currChunk.header.magicIsValid = false then some (.error .fatal)
    else if currChunk.header.intact = false then none
    else
      match countAllocations rest with
      | some (.ok totalAllocs) => some (.ok (currChunk.nAllocations + totalAllocs))
      | answer => answer

def checkAllocationsFrom (config : Config) (chunkList : List Chunk) :
    List Allocation → Option Kerror
  | [] => some .success
  | alloc :: rest =>
    match allocIsWithinHeap config chunkList alloc.addr with
    | none => some .fatal
    | some detectedParent =>
      if alloc.header.magicIsValid = false then some .fatal
      else if alloc.header.intact = false then none
      else if chunkList.all (fun chunk => decide (chunk.addr ≠ alloc.parent)) ||
          decide (alloc.parent ≠ detectedParent.addr) then some .fatal
      else checkAllocationsFrom config chunkList rest

def Heap.checkAllocations (heap : Heap) (config : Config) : Option Kerror :=
  match countAllocations heap.chunkList with
  | none => none
  | some (.error error) => some error
  | some (.ok totalAllocs) =>
    match checkAllocationsFrom config heap.chunkList heap.allocationList with
    | some .success =>
      if heap.allocationList.length ≠ totalAllocs then some .fatal else some .success
    | answer => answer

inductive Call
  | malloc (sz : Nat) (first second : Option Nat)
  | free (p : Nat)
deriving DecidableEq

/-- The heap and the pointers that `malloc` returned and that are not yet freed. -/
structure State where
  heap : Heap
  live : List Nat
deriving DecidableEq

def State.initial : State := ⟨⟨[], []⟩, []⟩

def step (config : Config) (state : State) : Call → Option (Option Nat × State)
  | .malloc sz first second =>
    match state.heap.malloc config sz first second with
    | none => none
    | some (none, heap) => some (none, { state with heap })
    | some (some p, heap) => some (some p, ⟨heap, state.live ++ [p]⟩)
  | .free p =>
    match state.heap.free config p with
    | none => none
    | some heap => some (none, ⟨heap, state.live.erase p⟩)

/-- What `memAlloc` promises of `chunkSize` bytes that it returns: whole pages of the address
space that it did not return before. -/
structure Supplied (config : Config) (chunks : List Nat) (addr : Nat) : Prop where
  aligned : pagingBaseSize ∣ addr
  addr_pos : 0 < addr
  end_lt : addr + config.chunkSize < wordModulus
  apart : ∀ chunk ∈ chunks, chunk + config.chunkSize ≤ addr ∨ addr + config.chunkSize ≤ chunk

instance (config : Config) (chunks : List Nat) (addr : Nat) :
    Decidable (Supplied config chunks addr) :=
  decidable_of_iff (pagingBaseSize ∣ addr ∧ 0 < addr ∧ addr + config.chunkSize < wordModulus ∧
      ∀ chunk ∈ chunks, chunk + config.chunkSize ≤ addr ∨ addr + config.chunkSize ≤ chunk)
    ⟨fun ⟨haligned, hpos, hend, hapart⟩ => ⟨haligned, hpos, hend, hapart⟩,
      fun h => ⟨h.aligned, h.addr_pos, h.end_lt, h.apart⟩⟩

/-- Only pointers of live allocations are freed, and `memAlloc` keeps its promises. -/
def Proper (config : Config) (state : State) : Call → Prop
  | .malloc sz first second => sz < wordModulus ∧
      (∀ addr ∈ first, Supplied config (state.heap.chunkList.map Chunk.addr) addr) ∧
      ∀ addr ∈ first, ∀ addr' ∈ second,
        Supplied config (state.heap.chunkList.map Chunk.addr ++ [addr]) addr'
  | .free p => p ∈ state.live

instance (config : Config) (state : State) : ∀ call, Decidable (Proper config state call)
  | .malloc _ _ _ => inferInstanceAs (Decidable (_ ∧ (∀ _ ∈ _, _) ∧ ∀ _ ∈ _, ∀ _ ∈ _, _))
  | .free _ => inferInstanceAs (Decidable (_ ∈ _))

/-- The size with the header, the guard page and the gap in front of it does not wrap around. -/
def Fitting (config : Config) (state : State) (call : Call) : Prop :=
  Proper config state call ∧
    match call with
    | .malloc sz _ _ =>
      let size := (sz + sizeofAllocation + (if config.guardPaged then pagingBaseSize else 0) +
        (sizeofWord - 1)) / sizeofWord * sizeofWord
      size + gapRequirement config size < wordModulus
    | .free _ => True

instance (config : Config) (state : State) : ∀ call, Decidable (Fitting config state call)
  | .malloc sz first second =>
    inferInstanceAs (Decidable (Proper config state (.malloc sz first second) ∧ _ < _))
  | .free p => inferInstanceAs (Decidable (Proper config state (.free p) ∧ True))

end Zambesii.KernelHeap
