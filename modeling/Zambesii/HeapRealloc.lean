import Zambesii.HeapRequests

/-!
`Heap::realloc`, with the bytes of the memory that the allocations are in. What the heap keeps
there itself are its headers; their bytes are not modelled, and any may stand in them.
-/

namespace Zambesii.HeapRealloc

open HeapGuardPages HeapTiling KernelHeap KernelTypes List
open HeapRequests Runs

abbrev Memory := Nat → UInt8

def within (first nBytes addr : Nat) : Bool :=
  decide (first ≤ addr) && decide (addr < first + nBytes)

def inHeader (config : Config) (heap : Heap) (addr : Nat) : Bool :=
  heap.chunkList.any (fun chunk => within chunk.addr config.sizeofChunk addr ||
      chunk.blocks.any fun block => within block.addr sizeofBlock addr) ||
    heap.allocationList.any fun alloc => within alloc.addr sizeofAllocation addr

def inNewChunk (config : Config) (before after : Heap) (addr : Nat) : Bool :=
  after.chunkList.any fun chunk => within chunk.addr config.chunkSize addr &&
    before.chunkList.all fun other => decide (other.addr ≠ chunk.addr)

def inFreed (before after : Heap) (addr : Nat) : Bool :=
  before.allocationList.any fun alloc =>
    within (allocSpan alloc).1 (allocSpan alloc).2 addr && !after.allocationList.contains alloc

/-- The memory after a call of `malloc` or `free`: the heap has written headers, new chunks and
the allocation that was freed, `noise` is what stands there now. -/
def scribble (config : Config) (before after : Heap) (noise memory : Memory) : Memory :=
  fun addr =>
    if inHeader config before addr || inHeader config after addr ||
        inNewChunk config before after addr || inFreed before after addr then noise addr
    else memory addr

/-- `memcpy`; it faults at the end of the address space. -/
def memcpy (memory : Memory) (dest source nBytes : Nat) : Option Memory :=
  if dest + nBytes > wordModulus ∨ source + nBytes > wordModulus then none
  else
    some fun addr =>
      if within dest nBytes addr then memory (source + (addr - dest)) else memory addr

/-- What the calls in `realloc` get and leave that the heap does not decide: the results of
`memAlloc`, and the bytes that `malloc` and `free` write. -/
structure Environment where
  first : Option Nat
  second : Option Nat
  mallocNoise : Memory
  freeNoise : Memory

def recomputedSize (alloc : Allocation) : Nat :=
  wordSub (wordSub alloc.nBytes sizeofAllocation) pagingBaseSize

def grow (config : Config) (env : Environment) (state : State) (memory : Memory)
    (p nBytes sz : Nat) : Option (Option Nat × State × Memory) :=
  match step config state (.malloc sz env.first env.second) with
  | none => none
  | some (none, next) =>
    some (none, next, scribble config state.heap next.heap env.mallocNoise memory)
  | some (some newmem, next) =>
    let memory := scribble config state.heap next.heap env.mallocNoise memory
    if p = 0 then some (some newmem, next, memory)
    else
      match memcpy memory newmem p nBytes with
      | none => none
      | some memory =>
        match step config next (.free p) with
        | none => none
        | some (_, last) =>
          some (some newmem, last, scribble config next.heap last.heap env.freeNoise memory)

def freeAll (config : Config) (env : Environment) (state : State) (memory : Memory) (p : Nat) :
    Option (Option Nat × State × Memory) :=
  match step config state (.free p) with
  | none => none
  | some (_, next) =>
    some (none, next, scribble config state.heap next.heap env.freeNoise memory)

def realloc (config : Config) (env : Environment) (state : State) (memory : Memory) (p sz : Nat) :
    Option (Option Nat × State × Memory) :=
  if p ≠ 0 then
    match findAllocation (wordSub p sizeofAllocation) state.heap.allocationList with
    | none => none
    | some alloc =>
      if alloc.header.magicIsValid = false then none
      else if config.checkAllocsOnFree &&
          !(state.heap.allocationList.any (·.addr == alloc.addr)) then none
      else if sz ≤ recomputedSize alloc then some (some p, state, memory)
      else if sz = 0 then freeAll config env state memory p
      else grow config env state memory p (recomputedSize alloc) sz
  else if sz = 0 then freeAll config env state memory p
  else grow config env state memory p 0 sz

def usableSize (config : Config) (alloc : Allocation) : Nat :=
  alloc.nBytes - sizeofAllocation - if config.guardPaged then pagingBaseSize else 0

/-- The pointer is that of an allocation behind the header of a chunk, and has `sz` bytes besides
its header and its guard page. -/
def HasBytes (config : Config) (heap : Heap) (p sz : Nat) : Prop :=
  ∃ chunk ∈ heap.chunkList, ∃ alloc ∈ heap.allocationList, p = pointer alloc ∧
    chunk.addr + config.sizeofChunk ≤ alloc.addr ∧
    alloc.addr + alloc.nBytes ≤ chunk.addr + config.chunkSize ∧
    sz + sizeofAllocation + (if config.guardPaged then pagingBaseSize else 0) ≤ alloc.nBytes

def Right (config : Config) (state : State) (memory : Memory) (p sz : Nat) :
    Option (Option Nat × State × Memory) → Prop
  | none => False
  | some (none, next, memory') =>
    if sz = 0 then next.live = state.live.erase p
    else
      next.live = state.live ∧ ∀ alloc ∈ state.heap.allocationList, pointer alloc = p →
        alloc ∈ next.heap.allocationList ∧
          ∀ i, i < usableSize config alloc → memory' (p + i) = memory (p + i)
  | some (some q, next, memory') =>
    sz ≠ 0 ∧ HasBytes config next.heap q sz ∧
      next.live = (if q = p then state.live else (state.live ++ [q]).erase p) ∧
      ∀ alloc ∈ state.heap.allocationList, pointer alloc = p →
        ∀ i, i < min (usableSize config alloc) sz → memory' (q + i) = memory (p + i)

structure HeapOk (config : Config) (state : State) : Prop where
  ok : StateOk config state
  sized : ∀ alloc ∈ state.heap.allocationList, ∃ sz, alloc.nBytes = fullSize config sz
  nonnull : ∀ chunk ∈ state.heap.chunkList, 0 < chunk.addr

def Refused (config : Config) (state : State) (sz : Nat) (first second : Option Nat) : Prop :=
  ∃ next, step config state (.malloc sz first second) = some (none, next)

/-- When `realloc` does what is asked. With guard pages it takes a size that does not wrap around;
without them the size has a page too few, and below a page it wraps around. -/
structure Fits (config : Config) (state : State) (p sz : Nat) (first second : Option Nat) :
    Prop where
  pos : 0 < sz
  null : p = 0 → Refused config state sz first second ∨ sz ≤ largestSize config
  paged : config.guardPaged = true → ∀ alloc ∈ state.heap.allocationList, pointer alloc = p →
    usableSize config alloc < sz →
      Refused config state sz first second ∨ sz ≤ largestSize config
  unpaged : config.guardPaged = false → ∀ alloc ∈ state.heap.allocationList, pointer alloc = p →
    if usableSize config alloc < pagingBaseSize then
      sz ≤ usableSize config alloc ∨
        usableSize config alloc + (wordModulus - pagingBaseSize) < sz ∧
          Refused config state sz first second
    else
      sz + pagingBaseSize ≤ usableSize config alloc ∨ Refused config state sz first second

section

variable {config : Config} {heap heap' : Heap} {sz : Nat}

def chunkAddrs (heap : Heap) : List Nat :=
  heap.chunkList.map Chunk.addr

def ChunksOk (config : Config) (heap : Heap) : Prop :=
  ∀ addr ∈ chunkAddrs heap, pagingBaseSize ≤ addr ∧ addr + config.chunkSize < wordModulus

theorem chunkAddrs_overwrite (heap : Heap) (config : Config) (first nBytes members : Nat) :
    chunkAddrs (heap.overwrite config first nBytes members) = chunkAddrs heap := by
  unfold chunkAddrs Heap.overwrite
  rw [map_map]
  rfl

theorem chunkAddrs_modifyChunk (heap : Heap) (addr : Nat) (f : Chunk → Chunk)
    (hf : ∀ chunk, (f chunk).addr = chunk.addr) :
    chunkAddrs (heap.modifyChunk addr f) = chunkAddrs heap := by
  unfold chunkAddrs Heap.modifyChunk
  rw [map_map]
  apply map_congr_left
  intro chunk _
  show Chunk.addr (if chunk.addr = addr then f chunk else chunk) = chunk.addr
  split_ifs
  · exact hf chunk
  · rfl

theorem chunkAddrs_mapBlocks (heap : Heap) (addr : Nat) (f : List Block → List Block) :
    chunkAddrs (heap.mapBlocks addr f) = chunkAddrs heap :=
  chunkAddrs_modifyChunk heap addr (·.mapBlocks f) fun _ => rfl

theorem chunkAddrs_count (heap : Heap) (addr : Nat) (f : Nat → Nat) :
    chunkAddrs (heap.modifyChunk addr fun chunk =>
      { chunk with nAllocations := f chunk.nAllocations }) = chunkAddrs heap :=
  chunkAddrs_modifyChunk heap addr _ fun _ => rfl

theorem chunkAddrs_constructCounted {chunk gapSize : Nat} {block : Block}
    {result : Option Allocation}
    (h : constructCounted config heap chunk block gapSize sz = some (result, heap')) :
    chunkAddrs heap' = chunkAddrs heap := by
  cases h
  rw [chunkAddrs_count _ chunk (· + 1)]
  exact chunkAddrs_overwrite heap config _ _ _

theorem chunkAddrs_chunk_malloc {chunk : Chunk} {result : Option Allocation}
    (h : chunk.malloc config heap sz = some (result, heap')) :
    chunkAddrs heap' = chunkAddrs heap := by
  unfold Chunk.malloc at h
  dsimp only at h
  split at h
  · cases h
  · cases h
    rfl
  · split_ifs at h
    · rw [chunkAddrs_constructCounted h, chunkAddrs_mapBlocks]
    · rw [chunkAddrs_constructCounted h, chunkAddrs_mapBlocks, chunkAddrs_mapBlocks]
      exact chunkAddrs_overwrite heap config _ _ _

theorem chunkAddrs_mallocFrom {chunks : List Chunk} {result : Option Allocation}
    (h : mallocFrom config heap sz chunks = some (result, heap')) :
    chunkAddrs heap' = chunkAddrs heap ∧ (result = none → heap' = heap) := by
  induction chunks with
  | nil =>
    cases h
    exact ⟨rfl, fun _ => rfl⟩
  | cons chunk rest ih =>
    unfold mallocFrom at h
    split at h
    · cases h
    split at h
    · cases h
    · exact ih h
    · next heq =>
      cases h
      exact ⟨chunkAddrs_chunk_malloc heq, fun hnone => nomatch hnone⟩

theorem chunkAddrs_getNewChunk (heap : Heap) (config : Config) (addr : Nat) :
    chunkAddrs (heap.getNewChunk config addr) = chunkAddrs heap ++ [addr] := by
  have hsame : chunkAddrs ((heap.constructChunk config addr).constructBlock config
      (firstBlockAddr config addr)) = chunkAddrs heap :=
    (chunkAddrs_overwrite _ config _ _ _).trans (chunkAddrs_overwrite heap config _ _ _)
  unfold chunkAddrs at hsame ⊢
  unfold Heap.getNewChunk
  rw [map_append, hsame]
  rfl

theorem chunksOk_mallocPasses {supplies : List (Option Nat)} {result : Option Allocation}
    (hok : ChunksOk config heap) (hsupplied : SuppliedAll config (chunkAddrs heap) supplies)
    (h : mallocPasses config sz supplies heap = some (result, heap')) : ChunksOk config heap' := by
  induction supplies generalizing heap with
  | nil =>
    cases h
    exact hok
  | cons supply supplies ih =>
    unfold mallocPasses at h
    split at h
    · cases h
    · next heq =>
      cases h
      have hsame := (chunkAddrs_mallocFrom heq).1
      unfold ChunksOk
      rw [hsame]
      exact hok
    next heq =>
    have hsame := (chunkAddrs_mallocFrom heq).2 rfl
    rw [hsame] at h
    cases supply with
    | none =>
      cases h
      exact hok
    | some addr =>
      have haddrs := chunkAddrs_getNewChunk heap config addr
      refine ih ?_ (by rw [haddrs]; exact hsupplied.2) h
      unfold ChunksOk
      rw [haddrs]
      intro other hmem
      rcases mem_append.1 hmem with hmem | hmem
      · exact hok other hmem
      · rw [mem_singleton.1 hmem]
        have hpos := hsupplied.1.addr_pos
        have haligned := hsupplied.1.aligned
        exact ⟨Nat.le_of_dvd hpos haligned, hsupplied.1.end_lt⟩

theorem chunksOk_malloc {first second result : Option Nat} (hok : ChunksOk config heap)
    (hsupplied : SuppliedAll config (chunkAddrs heap) [first, second])
    (h : heap.malloc config sz first second = some (result, heap')) : ChunksOk config heap' := by
  unfold Heap.malloc at h
  split at h
  · cases h
  split at h
  · cases h
  · next heq =>
    cases h
    exact chunksOk_mallocPasses hok hsupplied heq
  · next heq =>
    have hpasses := chunksOk_mallocPasses hok hsupplied heq
    cases h
    exact hpasses

theorem chunkAddrs_chunk_free {chunk : Chunk} {alloc : Allocation}
    (h : chunk.free config heap alloc = some heap') : chunkAddrs heap' = chunkAddrs heap := by
  unfold Chunk.free at h
  split at h
  · cases h
  · cases h
    rw [chunkAddrs_count _ chunk.addr (· - 1), chunkAddrs_mapBlocks]
    exact chunkAddrs_overwrite heap config _ _ _
  · cases h
    rw [chunkAddrs_count _ chunk.addr (· - 1), chunkAddrs_mapBlocks]
  · cases h
    rw [chunkAddrs_count _ chunk.addr (· - 1), chunkAddrs_mapBlocks]
    exact chunkAddrs_overwrite heap config _ _ _

theorem chunkAddrs_free {p : Nat} (h : heap.free config p = some heap') :
    chunkAddrs heap' = chunkAddrs heap := by
  unfold Heap.free at h
  split at h
  · cases h
  split_ifs at h
  split at h
  · cases h
  · rw [chunkAddrs_chunk_free h]
    rfl

theorem chunksOk_step {state next : State} {call : Call} {result : Option Nat}
    (hok : ChunksOk config state.heap) (hproper : Proper config state call)
    (h : step config state call = some (result, next)) : ChunksOk config next.heap := by
  cases call with
  | malloc sz first second =>
    have hsupplied := suppliedAll_of_proper hproper
    unfold step at h
    dsimp only at h
    split at h
    · cases h
    · next heq =>
      cases h
      exact chunksOk_malloc hok hsupplied heq
    · next heq =>
      cases h
      exact chunksOk_malloc hok hsupplied heq
  | free p =>
    unfold step at h
    dsimp only at h
    split at h
    · cases h
    next heq =>
    cases h
    unfold ChunksOk
    rw [chunkAddrs_free heq]
    exact hok

theorem le_largestSize_of_hasBytes {p : Nat} (hok : ChunksOk config heap)
    (h : HasBytes config heap p sz) :
    sz + sizeofAllocation + pagingBaseSize < wordModulus ∧ sz ≤ largestSize config := by
  obtain ⟨chunk, hchunk, alloc, -, -, hbehind, hend, hsize⟩ := h
  obtain ⟨hpage, hlt⟩ := hok chunk.addr (mem_map_of_mem hchunk)
  have hmagic := config.magic_le
  unfold largestSize magicMaxlen sizeofAllocation pagingBaseSize wordModulus at *
  split_ifs at * <;> omega

end

section

variable {config : Config} {heap heap' : Heap} {state next : State} {sz : Nat}

theorem sound_of_refused {supplies : List (Option Nat)} (h : Sound config heap 0 0)
    (hsupplied : SuppliedAll config (chunkAddrs heap) supplies)
    (heq : mallocPasses config sz supplies heap = some (none, heap')) :
    Sound config heap' 0 0 ∧ heap'.allocationList = heap.allocationList := by
  induction supplies generalizing heap with
  | nil =>
    cases heq
    exact ⟨h, rfl⟩
  | cons supply supplies ih =>
    unfold mallocPasses at heq
    split at heq
    · cases heq
    · cases heq
    next hfrom =>
    rw [(chunkAddrs_mallocFrom hfrom).2 rfl] at heq
    cases supply with
    | none =>
      cases heq
      exact ⟨h, rfl⟩
    | some addr =>
      obtain ⟨hsame, hchunks, hsound⟩ := h.getNewChunk hsupplied.1
      have hrest := hsupplied.2
      unfold chunkAddrs at hrest
      rw [← hchunks] at hrest
      obtain ⟨hsound', hlist⟩ := ih hsound hrest heq
      exact ⟨hsound', hlist.trans hsame⟩

theorem refused_spec {first second : Option Nat} (h : StateOk config state)
    (hproper : Proper config state (.malloc sz first second))
    (hstep : step config state (.malloc sz first second) = some (none, next)) :
    Sound config next.heap 0 0 ∧ next.heap.allocationList = state.heap.allocationList ∧
      next.live = state.live := by
  have hsupplied := suppliedAll_of_proper hproper
  unfold step at hstep
  dsimp only at hstep
  split at hstep
  · cases hstep
  · next hmalloc =>
    cases hstep
    unfold Heap.malloc at hmalloc
    split at hmalloc
    · cases hmalloc
    split at hmalloc
    · cases hmalloc
    · next hpasses =>
      cases hmalloc
      obtain ⟨hsound, hlist⟩ := sound_of_refused h.1 hsupplied hpasses
      exact ⟨hsound, hlist, rfl⟩
    · cases hmalloc
  · cases hstep

end

section

variable {config : Config} {heap before after : Heap} {alloc other : Allocation} {addr : Nat}

theorem within_eq_false {first nBytes first' nBytes' : Nat}
    (hclear : Clear first nBytes first' nBytes') (hfirst : first ≤ addr)
    (hlast : addr < first + nBytes) : within first' nBytes' addr = false := by
  unfold within
  unfold Clear at hclear
  rw [Bool.and_eq_false_iff, decide_eq_false_iff_not, decide_eq_false_iff_not]
  omega

theorem spansApart_of_ne (h : Sound config heap 0 0) (halloc : alloc ∈ heap.allocationList)
    (hother : other ∈ heap.allocationList) (hne : alloc ≠ other) : SpansApart alloc other := by
  have hsymm : Std.Symm SpansApart := ⟨fun _ _ hor => hor.symm⟩
  exact (spansApart_of_sound h).forall halloc hother hne

variable {chunk : Chunk}

variable (h : Sound config heap 0 0)

include h

theorem span_firstOffset (hchunk : chunk ∈ heap.chunkList)
    (hparent : chunk.addr = alloc.parent) (halloc : alloc ∈ heap.allocationList) :
    chunk.addr + config.sizeofChunk ≤ (allocSpan alloc).1 := by
  have hbounds := (h.layout chunk hchunk).bounds
    (Multiset.mem_add.mpr (.inl (Sound.allocSpan_mem hparent halloc)))
    (h.alloc_ok alloc halloc).span_pos
  have hoffset := sizeofChunk_le_firstOffset config
  omega

theorem span_clear_chunk (hchunk : chunk ∈ heap.chunkList) (halloc : alloc ∈ heap.allocationList) :
    Clear (allocSpan alloc).1 (allocSpan alloc).2 chunk.addr config.sizeofChunk := by
  obtain ⟨parent, hmem, hparent⟩ := h.alloc_parent alloc halloc
  rcases eq_or_ne chunk parent with rfl | hne
  · exact .inr (span_firstOffset h hchunk hparent halloc)
  have hbounds := Sound.span_bounds h hmem hparent halloc
  have hapart := h.apart_of_ne hchunk hmem hne
  have hoffset := sizeofChunk_le_firstOffset config
  have hroom := firstOffset_lt config
  unfold Clear
  omega

theorem span_clear_block {block : Block}
    (hchunk : chunk ∈ heap.chunkList) (hblock : block ∈ chunk.blocks)
    (halloc : alloc ∈ heap.allocationList) :
    Clear (allocSpan alloc).1 (allocSpan alloc).2 block.addr sizeofBlock := by
  obtain ⟨parent, hmem, hparent⟩ := h.alloc_parent alloc halloc
  have hlayout := h.layout chunk hchunk
  unfold Clear
  rcases eq_or_ne chunk parent with rfl | hne
  · have hseparate := hlayout.block_separate hblock
      (Multiset.mem_add.mpr (.inl (Sound.allocSpan_mem hparent halloc)))
      (h.alloc_ok alloc halloc).span_pos
    have hroom := (hlayout.blocks_ok block hblock).room
    omega
  · have hbounds := Sound.span_bounds h hmem hparent halloc
    have hwithin := h.block_within hchunk hblock
    have hapart := h.apart_of_ne hchunk hmem hne
    omega

omit h

structure UserByte (alloc : Allocation) (addr : Nat) : Prop where
  pointer_le : pointer alloc ≤ addr
  lt_end : addr < alloc.addr + alloc.nBytes

theorem UserByte.span (h : UserByte alloc addr) (hgap : alloc.gapSize ≤ alloc.addr) :
    (allocSpan alloc).1 ≤ addr ∧ addr < (allocSpan alloc).1 + (allocSpan alloc).2 := by
  have hfirst := h.pointer_le
  have hlast := h.lt_end
  unfold pointer at hfirst
  simp only [allocSpan]
  omega

theorem not_inHeader (h : Sound config heap 0 0) (halloc : alloc ∈ heap.allocationList)
    (hbyte : UserByte alloc addr) : inHeader config heap addr = false := by
  obtain ⟨hfirst, hlast⟩ := hbyte.span (h.alloc_ok alloc halloc).gap_le
  unfold inHeader
  rw [Bool.or_eq_false_iff, any_eq_false, any_eq_false]
  constructor
  · intro chunk hchunk
    rw [Bool.not_eq_true, Bool.or_eq_false_iff, any_eq_false]
    refine ⟨within_eq_false (span_clear_chunk h hchunk halloc) hfirst hlast, ?_⟩
    intro block hblock
    rw [Bool.not_eq_true]
    exact within_eq_false (span_clear_block h hchunk hblock halloc) hfirst hlast
  · intro other hother
    rw [Bool.not_eq_true]
    rcases eq_or_ne alloc other with rfl | hne
    · have hpointer := hbyte.pointer_le
      have hend := hbyte.lt_end
      have hafter : Clear (pointer alloc) alloc.nBytes alloc.addr sizeofAllocation := .inr le_rfl
      refine within_eq_false hafter hpointer ?_
      unfold pointer
      omega
    · have hapart := spansApart_of_ne h halloc hother hne
      have hroom := (h.alloc_ok other hother).room
      refine within_eq_false ?_ hfirst hlast
      unfold SpansApart at hapart
      simp only [allocSpan, Clear] at hapart ⊢
      omega

theorem not_inNewChunk (hbefore : Sound config before 0 0) (hafter : Sound config after 0 0)
    (halloc : alloc ∈ before.allocationList) (halloc' : alloc ∈ after.allocationList)
    (hbyte : UserByte alloc addr) : inNewChunk config before after addr = false := by
  obtain ⟨parent, hmem, hparent⟩ := hbefore.alloc_parent alloc halloc
  obtain ⟨parent', hmem', hparent'⟩ := hafter.alloc_parent alloc halloc'
  obtain ⟨hfirst, hlast⟩ := hbyte.span (hafter.alloc_ok alloc halloc').gap_le
  have hbounds := Sound.span_bounds hafter hmem' hparent' halloc'
  unfold inNewChunk
  rw [any_eq_false]
  intro chunk hchunk
  rw [Bool.not_eq_true, Bool.and_eq_false_iff]
  rcases eq_or_ne chunk parent' with rfl | hne
  · right
    rw [all_eq_false]
    refine ⟨parent, hmem, ?_⟩
    rw [decide_eq_true_eq, not_not]
    exact hparent.trans hparent'.symm
  · left
    have hapart := hafter.apart_of_ne hmem' hchunk hne.symm
    refine within_eq_false hapart (hbounds.1.trans hfirst) (hlast.trans_le hbounds.2)

theorem not_inFreed (hbefore : Sound config before 0 0) (halloc : alloc ∈ before.allocationList)
    (halloc' : alloc ∈ after.allocationList) (hbyte : UserByte alloc addr) :
    inFreed before after addr = false := by
  obtain ⟨hfirst, hlast⟩ := hbyte.span (hbefore.alloc_ok alloc halloc).gap_le
  unfold inFreed
  rw [any_eq_false]
  intro other hother
  rw [Bool.not_eq_true, Bool.and_eq_false_iff]
  rcases eq_or_ne alloc other with rfl | hne
  · right
    have hlisted : after.allocationList.contains alloc = true := contains_iff_mem.2 halloc'
    rw [hlisted]
    rfl
  · left
    exact within_eq_false (spansApart_of_ne hbefore halloc hother hne) hfirst hlast

theorem scribble_user (noise memory : Memory) (hbefore : Sound config before 0 0)
    (hafter : Sound config after 0 0) (halloc : alloc ∈ before.allocationList)
    (halloc' : alloc ∈ after.allocationList) (hbyte : UserByte alloc addr) :
    scribble config before after noise memory addr = memory addr := by
  unfold scribble
  rw [not_inHeader hbefore halloc hbyte, not_inHeader hafter halloc' hbyte,
    not_inNewChunk hbefore hafter halloc halloc' hbyte, not_inFreed hbefore halloc halloc' hbyte]
  rfl

end

section

variable {config : Config} {heap : Heap} {state : State} {alloc other : Allocation} {sz : Nat}

theorem eq_of_pointer (h : Sound config heap 0 0) (halloc : alloc ∈ heap.allocationList)
    (hother : other ∈ heap.allocationList) (hp : pointer alloc = pointer other) :
    alloc = other := by
  by_contra hne
  have hapart := spansApart_of_ne h halloc hother hne
  have hok := h.alloc_ok alloc halloc
  have hok' := h.alloc_ok other hother
  have hroom := hok.room
  have hroom' := hok'.room
  unfold pointer at hp
  unfold SpansApart at hapart
  unfold sizeofAllocation at *
  simp only [allocSpan] at hapart
  omega

theorem HeapOk.chunksOk (h : HeapOk config state) : ChunksOk config state.heap := by
  intro addr hmem
  obtain ⟨chunk, hchunk, rfl⟩ := mem_map.1 hmem
  exact ⟨Nat.le_of_dvd (h.nonnull chunk hchunk) (h.ok.1.chunk_aligned chunk hchunk),
    h.ok.1.chunk_end chunk hchunk⟩

theorem alloc_end_lt (h : Sound config heap 0 0) (halloc : alloc ∈ heap.allocationList) :
    alloc.addr + alloc.nBytes < wordModulus := by
  obtain ⟨chunk, hmem, hparent⟩ := h.alloc_parent alloc halloc
  have hwithin := h.alloc_within hmem hparent halloc
  have hend := h.chunk_end chunk hmem
  omega

theorem pointer_ne_zero (alloc : Allocation) : pointer alloc ≠ 0 := by
  unfold pointer sizeofAllocation
  omega

theorem header_of_pointer (h : Sound config heap 0 0) (halloc : alloc ∈ heap.allocationList) :
    wordSub (pointer alloc) sizeofAllocation = alloc.addr := by
  have hroom := (h.alloc_ok alloc halloc).room
  have hend := alloc_end_lt h halloc
  unfold pointer
  rw [wordSub_of_le (Nat.le_add_left _ _) (by omega), Nat.add_sub_cancel]

theorem findAllocation_pointer (h : Sound config heap 0 0) (halloc : alloc ∈ heap.allocationList) :
    findAllocation (wordSub (pointer alloc) sizeofAllocation) heap.allocationList = some alloc := by
  obtain ⟨pre, found, post, hlist, haddr, hfind, -⟩ :=
    findAllocation_spec h.alloc_ok ⟨alloc, halloc, rfl⟩
  have hfound : found ∈ heap.allocationList := by
    rw [hlist]
    exact mem_append_right pre mem_cons_self
  have hsame : pointer found = pointer alloc := congrArg (· + sizeofAllocation) haddr
  rw [header_of_pointer h halloc, hfind, eq_of_pointer h hfound halloc hsame]

theorem mem_of_findAllocation {addr : Nat} {allocs : List Allocation}
    (h : findAllocation addr allocs = some alloc) : alloc ∈ allocs ∧ alloc.addr = addr := by
  induction allocs with
  | nil => cases h
  | cons first rest ih =>
    unfold findAllocation at h
    split_ifs at h with hheader haddr
    · cases h
      exact ⟨mem_cons_self, haddr⟩
    · obtain ⟨hmem, haddr'⟩ := ih h
      exact ⟨mem_cons_of_mem first hmem, haddr'⟩

variable (h : Sound config heap 0 0)

include h

theorem free_null : heap.free config 0 = none := by
  unfold Heap.free
  cases hfind : findAllocation (wordSub 0 sizeofAllocation) heap.allocationList with
  | none => rfl
  | some alloc =>
    obtain ⟨hmem, haddr⟩ := mem_of_findAllocation hfind
    have hroom := (h.alloc_ok alloc hmem).room
    have hend := alloc_end_lt h hmem
    have hword : wordSub 0 sizeofAllocation = wordModulus - sizeofAllocation := by decide
    omega

theorem hasBytes_of_listed (halloc : alloc ∈ heap.allocationList)
    (hsize : sz + sizeofAllocation + (if config.guardPaged then pagingBaseSize else 0) ≤
      alloc.nBytes) : HasBytes config heap (pointer alloc) sz := by
  obtain ⟨chunk, hchunk, hparent⟩ := h.alloc_parent alloc halloc
  have hfirst := span_firstOffset h hchunk hparent halloc
  have hwithin := h.alloc_within hchunk hparent halloc
  simp only [allocSpan] at hfirst
  refine ⟨chunk, hchunk, alloc, halloc, rfl, ?_, hwithin.2, hsize⟩
  omega

theorem hasBytes_iff (halloc : alloc ∈ heap.allocationList)
    (hpos : 0 < sz) : HasBytes config heap (pointer alloc) sz ↔ sz ≤ usableSize config alloc := by
  constructor
  · rintro ⟨chunk, -, other, hother, hp, -, -, hsize⟩
    rw [← eq_of_pointer h halloc hother hp] at hsize
    unfold usableSize
    omega
  · intro hle
    apply hasBytes_of_listed h halloc
    unfold usableSize at hle
    omega

omit h

end

section

variable {config : Config} {alloc : Allocation}

theorem recomputedSize_paged (hpaged : config.guardPaged = true)
    (hsized : ∃ sz, alloc.nBytes = fullSize config sz) (hlt : alloc.nBytes < wordModulus) :
    recomputedSize alloc = usableSize config alloc := by
  obtain ⟨sz, hsize⟩ := hsized
  have hbounds := (fullSize_bounds hpaged sz).1
  unfold recomputedSize usableSize
  rw [if_pos hpaged, wordSub_of_le (by omega) hlt, wordSub_of_le (by omega) (by omega)]

theorem recomputedSize_unpaged (hpaged : config.guardPaged = false)
    (hroom : sizeofAllocation ≤ alloc.nBytes) (hlt : alloc.nBytes < wordModulus) :
    recomputedSize alloc =
      if usableSize config alloc < pagingBaseSize then
        usableSize config alloc + (wordModulus - pagingBaseSize)
      else usableSize config alloc - pagingBaseSize := by
  have husable : usableSize config alloc = alloc.nBytes - sizeofAllocation := by
    unfold usableSize
    rw [hpaged]
    rfl
  unfold recomputedSize
  rw [wordSub_of_le hroom hlt, ← husable]
  split
  · exact Nat.mod_eq_of_lt (by unfold pagingBaseSize wordModulus at *; omega)
  · exact wordSub_of_le (by omega) (by omega)

end

section

variable {config : Config} {env : Environment} {state : State} {memory : Memory} {p sz : Nat}
  {alloc : Allocation}

theorem realloc_null : realloc config env state memory 0 sz =
    if sz = 0 then freeAll config env state memory 0 else grow config env state memory 0 0 sz :=
  rfl

theorem realloc_live (h : Sound config state.heap 0 0)
    (halloc : alloc ∈ state.heap.allocationList) :
    realloc config env state memory (pointer alloc) sz =
      if sz ≤ recomputedSize alloc then some (some (pointer alloc), state, memory)
      else grow config env state memory (pointer alloc) (recomputedSize alloc) sz := by
  have hlisted : (config.checkAllocsOnFree &&
      !(state.heap.allocationList.any (·.addr == alloc.addr))) = false := by
    have hany : (state.heap.allocationList.any (·.addr == alloc.addr)) = true :=
      any_eq_true.mpr ⟨alloc, halloc, beq_self_eq_true _⟩
    rw [hany]
    simp
  unfold realloc
  rw [if_pos (pointer_ne_zero alloc), findAllocation_pointer h halloc]
  dsimp only
  rw [(h.alloc_ok alloc halloc).header, hlisted]
  simp only [Header.fresh, Bool.true_eq_false, Bool.false_eq_true, if_false]
  split
  · rfl
  · -- a size of 0 never gets here
    rw [if_neg (by omega)]

theorem not_right_zero (h : StateOk config state) (hp : p = 0 ∨ p ∈ state.live) :
    ¬ Right config state memory p 0 (realloc config env state memory p 0) := by
  rcases hp with rfl | hlive
  · have hfree : step config state (.free 0) = none := by
      unfold step
      dsimp only
      rw [free_null h.1]
    rw [realloc_null, if_pos rfl]
    unfold freeAll
    rw [hfree]
    exact id
  · rw [h.2] at hlive
    obtain ⟨alloc, halloc, rfl⟩ := mem_map.1 hlive
    rw [realloc_live h.1 halloc, if_pos (Nat.zero_le _)]
    intro hright
    exact hright.1 rfl

theorem right_kept_iff (h : StateOk config state) (halloc : alloc ∈ state.heap.allocationList)
    (hpos : 0 < sz) (hle : sz ≤ recomputedSize alloc) : Right config state memory (pointer alloc) sz
        (realloc config env state memory (pointer alloc) sz) ↔ sz ≤ usableSize config alloc := by
  rw [realloc_live h.1 halloc, if_pos hle, ← hasBytes_iff h.1 halloc hpos]
  constructor
  · intro hright
    exact hright.2.1
  · intro hbytes
    refine ⟨hpos.ne', hbytes, (if_pos rfl).symm, ?_⟩
    intro other _ _ i _
    rfl

end

section

variable {config : Config} {state next : State} {memory mallocNoise freeNoise : Memory}
  {p sz nBytes : Nat} {first second : Option Nat} {alloc : Allocation}

theorem right_of_refused (h : StateOk config state) (hpos : 0 < sz)
    (hproper : Proper config state (.malloc sz first second))
    (hrefused : Refused config state sz first second) : Right config state memory p sz
      (grow config ⟨first, second, mallocNoise, freeNoise⟩ state memory p nBytes sz) := by
  obtain ⟨next, hstep⟩ := hrefused
  obtain ⟨hsound, hlist, hlive⟩ := refused_spec h hproper hstep
  unfold grow
  rw [hstep]
  dsimp only [Right]
  rw [if_neg hpos.ne']
  refine ⟨hlive, ?_⟩
  rintro alloc halloc rfl
  have halloc' : alloc ∈ next.heap.allocationList := by
    rw [hlist]
    exact halloc
  refine ⟨halloc', ?_⟩
  intro i hi
  refine scribble_user _ _ h.1 hsound halloc halloc' ⟨Nat.le_add_right _ _, ?_⟩
  unfold usableSize at hi
  unfold pointer
  omega

theorem fitting_of_le (hproper : Proper config state (.malloc sz first second))
    (hle : sz ≤ largestSize config) : Fitting config state (.malloc sz first second) :=
  ⟨hproper, (fits_iff_le config sz).2 hle⟩

theorem malloc_returns (h : StateOk config state) (hpos : 0 < sz)
    (hproper : Proper config state (.malloc sz first second)) (hle : sz ≤ largestSize config) :
    ∃ result next, step config state (.malloc sz first second) = some (result, next) := by
  have hasks : ∀ first' second', Call.malloc sz first second ≠ .malloc 0 first' second' := by
    rintro first' second' ⟨⟩
    exact absurd hpos (lt_irrefl 0)
  obtain ⟨result, next, hstep, -⟩ := h.step (fitting_of_le hproper hle) hasks
  exact ⟨result, next, hstep⟩

variable {q : Nat} {new : Allocation}

theorem live_of_malloc (hstep : step config state (.malloc sz first second) = some (some q, next)) :
    next.live = state.live ++ [q] := by
  unfold step at hstep
  dsimp only at hstep
  split at hstep
  · cases hstep
  · cases hstep
  · cases hstep
    rfl

theorem live_of_free {result : Option Nat}
    (hstep : step config state (.free p) = some (result, next)) :
    next.live = state.live.erase p := by
  unfold step at hstep
  dsimp only at hstep
  split at hstep
  · cases hstep
  · cases hstep
    rfl

structure Made (config : Config) (state next : State) (sz q : Nat) (new : Allocation) : Prop where
  pointer_eq : q = pointer new
  nBytes_eq : new.nBytes = fullSize config sz
  list_eq : next.heap.allocationList = state.heap.allocationList ++ [new]
  fresh : new ∉ state.heap.allocationList
  ok : StateOk config next

variable (h : Made config state next sz q new)

include h

theorem Made.mem : new ∈ next.heap.allocationList := by
  rw [h.list_eq]
  exact mem_append_right _ (mem_singleton_self new)

theorem Made.mem_of_mem
    (halloc : alloc ∈ state.heap.allocationList) : alloc ∈ next.heap.allocationList := by
  rw [h.list_eq]
  exact mem_append_left _ halloc

theorem Made.ne (halloc : alloc ∈ state.heap.allocationList) : q ≠ pointer alloc := by
  rw [h.pointer_eq]
  intro hp
  rw [eq_of_pointer h.ok.1 h.mem (h.mem_of_mem halloc) hp] at h
  exact h.fresh halloc

omit h

theorem exists_made (h : StateOk config state)
    (hproper : Proper config state (.malloc sz first second)) (hle : sz ≤ largestSize config)
    (hstep : step config state (.malloc sz first second) = some (some q, next)) :
    ∃ new, Made config state next sz q new := by
  have hfit := fitting_of_le hproper hle
  have hnext := h.of_step hfit hstep
  rcases malloc_listed h hfit hstep with ⟨hnone, -⟩ | ⟨new, hq, hbytes, hlist⟩
  · cases hnone
  refine ⟨new, Option.some.inj hq, hbytes, hlist, ?_, hnext⟩
  intro hmem
  have hpairs := spansApart_of_sound hnext.1
  rw [hlist, pairwise_append] at hpairs
  have hapart := hpairs.2.2 new hmem new (mem_singleton_self new)
  have hpos := (h.1.alloc_ok new hmem).span_pos
  unfold SpansApart at hapart
  omega

theorem Made.hasBytes {heap : Heap} (h : Made config state next sz q new)
    (hsound : Sound config heap 0 0) (hmem : new ∈ heap.allocationList) :
    HasBytes config heap q sz := by
  rw [h.pointer_eq]
  apply hasBytes_of_listed hsound hmem
  rw [h.nBytes_eq]
  exact fullSize_le config sz

theorem right_grow_null (h : StateOk config state) (hpos : 0 < sz)
    (hproper : Proper config state (.malloc sz first second)) (hle : sz ≤ largestSize config) :
    Right config state memory 0 sz
      (grow config ⟨first, second, mallocNoise, freeNoise⟩ state memory 0 nBytes sz) := by
  obtain ⟨result, next, hstep⟩ := malloc_returns h hpos hproper hle
  cases result with
  | none => exact right_of_refused h hpos hproper ⟨next, hstep⟩
  | some q =>
    obtain ⟨new, hmade⟩ := exists_made h hproper hle hstep
    have hq : q ≠ 0 := by
      rw [hmade.pointer_eq]
      exact pointer_ne_zero new
    unfold grow
    rw [hstep]
    refine ⟨hpos.ne', hmade.hasBytes hmade.ok.1 hmade.mem, ?_, ?_⟩
    · have hnone : 0 ∉ next.live := by
        rw [hmade.ok.2]
        intro hmem
        obtain ⟨alloc, -, hzero⟩ := mem_map.1 hmem
        exact pointer_ne_zero alloc hzero
      rw [if_neg hq, ← live_of_malloc hstep, erase_of_not_mem hnone]
    · intro alloc _ hzero
      exact absurd hzero (pointer_ne_zero alloc)

theorem memcpy_spec {dest source : Nat} (memory : Memory) (hdest : dest + nBytes ≤ wordModulus)
    (hsource : source + nBytes ≤ wordModulus) :
    ∃ memory', memcpy memory dest source nBytes = some memory' ∧
      ∀ i, i < nBytes → memory' (dest + i) = memory (source + i) := by
  unfold memcpy
  rw [if_neg (by omega)]
  refine ⟨_, rfl, ?_⟩
  intro i hi
  have hwithin : within dest nBytes (dest + i) = true := by
    unfold within
    rw [decide_eq_true (Nat.le_add_right dest i), decide_eq_true (Nat.add_lt_add_left hi dest)]
    rfl
  rw [if_pos hwithin, Nat.add_sub_cancel_left]

theorem right_of_copied (h : StateOk config state) (halloc : alloc ∈ state.heap.allocationList)
    (hproper : Proper config state (.malloc sz first second)) (hle : sz ≤ largestSize config)
    (hlt : usableSize config alloc < sz) : Right config state memory (pointer alloc) sz
      (grow config ⟨first, second, mallocNoise, freeNoise⟩ state memory (pointer alloc)
        (usableSize config alloc) sz) := by
  have hpos : 0 < sz := by omega
  obtain ⟨result, next, hstep⟩ := malloc_returns h hpos hproper hle
  cases result with
  | none => exact right_of_refused h hpos hproper ⟨next, hstep⟩
  | some q =>
    obtain ⟨new, hmade⟩ := exists_made h hproper hle hstep
    have hne := hmade.ne halloc
    have halloc' := hmade.mem_of_mem halloc
    have hend := alloc_end_lt h.1 halloc
    have hroom := (h.1.alloc_ok alloc halloc).room
    have hend' := alloc_end_lt hmade.ok.1 hmade.mem
    have hsize := fullSize_le config sz
    rw [← hmade.nBytes_eq] at hsize
    -- both ranges end with their allocations
    have husable : usableSize config alloc ≤ alloc.nBytes - sizeofAllocation :=
      Nat.sub_le _ _
    obtain ⟨copied, hcopy, hbytes⟩ := @memcpy_spec (usableSize config alloc) q (pointer alloc)
      (scribble config state.heap next.heap mallocNoise memory)
      (by rw [hmade.pointer_eq]; unfold pointer; omega) (by unfold pointer; omega)
    have hlive : pointer alloc ∈ next.live := by
      rw [hmade.ok.2]
      exact mem_map_of_mem halloc'
    obtain ⟨result, last, hfree, hlast⟩ := hmade.ok.step
      (⟨hlive, trivial⟩ : Fitting config next (.free (pointer alloc)))
      (fun _ _ hcall => nomatch hcall)
    obtain ⟨addr, haddr, hlist⟩ := free_listed hmade.ok hlive hfree
    have hkept : new ∈ last.heap.allocationList := by
      rw [hlist]
      unfold removeAllocation
      rw [mem_eraseP_of_neg]
      · exact hmade.mem
      · rw [decide_eq_true_eq]
        intro hsame
        apply hne
        rw [hmade.pointer_eq, haddr]
        exact congrArg (· + sizeofAllocation) hsame
    unfold grow
    rw [hstep]
    dsimp only
    rw [if_neg (pointer_ne_zero alloc), hcopy]
    rw [hfree]
    refine ⟨hpos.ne', hmade.hasBytes hlast.1 hkept, ?_, ?_⟩
    · rw [if_neg hne, live_of_free hfree, live_of_malloc hstep]
    · intro other hother hsame i hi
      obtain rfl := eq_of_pointer h.1 hother halloc hsame
      have hi' : i < usableSize config other := hi.trans_le (min_le_left _ _)
      have hnew : UserByte new (q + i) := by
        rw [hmade.pointer_eq]
        refine ⟨Nat.le_add_right _ _, ?_⟩
        unfold pointer
        omega
      have hold : UserByte other (pointer other + i) := by
        refine ⟨Nat.le_add_right _ _, ?_⟩
        unfold pointer
        omega
      rw [scribble_user _ _ hmade.ok.1 hlast.1 hmade.mem hkept hnew, hbytes i hi',
        scribble_user _ _ h.1 hmade.ok.1 halloc halloc' hold]

theorem refused_or_le_of_right (h : HeapOk config state)
    (hproper : Proper config state (.malloc sz first second))
    (hright : Right config state memory p sz
      (grow config ⟨first, second, mallocNoise, freeNoise⟩ state memory p nBytes sz)) :
    Refused config state sz first second ∨
      sz + sizeofAllocation + pagingBaseSize < wordModulus ∧ sz ≤ largestSize config := by
  unfold grow at hright
  dsimp only at hright
  split at hright
  · exact absurd hright id
  · next next hstep => exact .inl ⟨next, hstep⟩
  next q next hstep =>
  have hchunks := chunksOk_step h.chunksOk hproper hstep
  right
  split at hright
  · exact le_largestSize_of_hasBytes hchunks hright.2.1
  split at hright
  · exact absurd hright id
  split at hright
  · exact absurd hright id
  next last hfree =>
  refine le_largestSize_of_hasBytes ?_ hright.2.1
  unfold step at hfree
  dsimp only at hfree
  split at hfree
  · cases hfree
  next heap hheap =>
  cases hfree
  unfold ChunksOk
  rw [chunkAddrs_free hheap]
  exact hchunks

end

section

variable {config : Config} {state : State} {sz : Nat} {first second : Option Nat}
  {alloc : Allocation}

theorem scribble_zero {before after : Heap} {memory : Memory} {addr : Nat}
    (h : memory addr = 0) : scribble config before after (fun _ => 0) memory addr = 0 := by
  unfold scribble
  split
  · rfl
  · exact h

theorem memcpy_past {memory memory' : Memory} {dest source nBytes : Nat}
    (h : memcpy memory dest source nBytes = some memory') :
    memory' (dest + nBytes) = memory (dest + nBytes) := by
  unfold memcpy at h
  split at h
  · cases h
  cases h
  have hpast : within dest nBytes (dest + nBytes) = false := by
    unfold within
    rw [decide_eq_false (lt_irrefl (dest + nBytes)), Bool.and_false]
  dsimp only
  rw [hpast]
  rfl

theorem not_right_of_short {next : State} {q nBytes : Nat}
    (halloc : alloc ∈ state.heap.allocationList) (hne : q ≠ pointer alloc)
    (hshort : nBytes < min (usableSize config alloc) sz)
    (hstep : step config state (.malloc sz first second) = some (some q, next)) :
    ¬ Right config state (fun addr => if addr = pointer alloc + nBytes then 1 else 0)
        (pointer alloc) sz
      (grow config ⟨first, second, fun _ => 0, fun _ => 0⟩ state
        (fun addr => if addr = pointer alloc + nBytes then 1 else 0) (pointer alloc) nBytes
        sz) := by
  intro hright
  unfold grow at hright
  rw [hstep] at hright
  dsimp only at hright
  rw [if_neg (pointer_ne_zero alloc)] at hright
  split at hright
  · exact hright
  next copied hcopy =>
  split at hright
  · exact hright
  have hbyte := hright.2.2.2 alloc halloc rfl nBytes hshort
  dsimp only at hbyte
  rw [if_pos rfl, scribble_zero] at hbyte
  · exact absurd hbyte (by decide)
  · rw [memcpy_past hcopy]
    apply scribble_zero
    exact if_neg (by omega)

end

section

variable {config : Config} {state : State} {p sz : Nat} {first second : Option Nat}
  {alloc : Allocation}

/-- `realloc` is right in the state, whatever is in the memory. -/
def AlwaysRight (config : Config) (state : State) (p sz : Nat) (first second : Option Nat) : Prop :=
  ∀ memory mallocNoise freeNoise : Memory, Right config state memory p sz
    (realloc config ⟨first, second, mallocNoise, freeNoise⟩ state memory p sz)

variable (h : HeapOk config state)

include h

variable (hpos : 0 < sz)

include hpos

theorem alwaysRight_null_iff (hproper : Proper config state (.malloc sz first second)) :
    AlwaysRight config state 0 sz first second ↔
      Refused config state sz first second ∨ sz ≤ largestSize config := by
  constructor
  · intro hright
    have hgrow := hright (fun _ => 0) (fun _ => 0) fun _ => 0
    rw [realloc_null, if_neg hpos.ne'] at hgrow
    rcases refused_or_le_of_right h hproper hgrow with hrefused | ⟨-, hle⟩
    · exact .inl hrefused
    · exact .inr hle
  · rintro (hrefused | hle) memory mallocNoise freeNoise
    · rw [realloc_null, if_neg hpos.ne']
      exact right_of_refused h.ok hpos hproper hrefused
    · rw [realloc_null, if_neg hpos.ne']
      exact right_grow_null h.ok hpos hproper hle

theorem alwaysRight_moved_iff (hproper : Proper config state (.malloc sz first second))
    (halloc : alloc ∈ state.heap.allocationList) (hlt : recomputedSize alloc < sz) :
    AlwaysRight config state (pointer alloc) sz first second ↔
      Refused config state sz first second ∨
        config.guardPaged = true ∧ sz ≤ largestSize config := by
  have hgrow : ∀ env memory, realloc config env state memory (pointer alloc) sz =
      grow config env state memory (pointer alloc) (recomputedSize alloc) sz := by
    intro env memory
    rw [realloc_live h.ok.1 halloc, if_neg (Nat.not_le.2 hlt)]
  have hend := alloc_end_lt h.ok.1 halloc
  have hroom := (h.ok.1.alloc_ok alloc halloc).room
  unfold AlwaysRight
  simp only [hgrow]
  constructor
  · intro hright
    rcases refused_or_le_of_right h hproper
      (hright (fun _ => 0) (fun _ => 0) fun _ => 0) with hrefused | ⟨hfits, hle⟩
    · exact .inl hrefused
    cases hpaged : config.guardPaged with
    | true => exact .inr ⟨rfl, hle⟩
    | false =>
      left
      have hsize := recomputedSize_unpaged hpaged hroom (by omega)
      -- a size that wrapped around is too large
      have hshort : recomputedSize alloc < min (usableSize config alloc) sz := by
        unfold sizeofAllocation pagingBaseSize wordModulus at *
        split_ifs at hsize <;> omega
      obtain ⟨result, next, hstep⟩ := malloc_returns h.ok hpos hproper hle
      cases result with
      | none => exact ⟨next, hstep⟩
      | some q =>
        obtain ⟨new, hmade⟩ := exists_made h.ok hproper hle hstep
        exact absurd (hright _ _ _)
          (not_right_of_short halloc (hmade.ne halloc) hshort hstep)
  · rintro (hrefused | ⟨hpaged, hle⟩) memory mallocNoise freeNoise
    · exact right_of_refused h.ok hpos hproper hrefused
    · have hsize := recomputedSize_paged hpaged (h.sized alloc halloc) (by omega)
      rw [hsize] at hlt ⊢
      exact right_of_copied h.ok halloc hproper hle hlt

theorem alwaysRight_kept_iff
    (halloc : alloc ∈ state.heap.allocationList) (hle : sz ≤ recomputedSize alloc) :
    AlwaysRight config state (pointer alloc) sz first second ↔ sz ≤ usableSize config alloc := by
  constructor
  · intro hright
    exact (right_kept_iff h.ok halloc hpos hle).1 (hright (fun _ => 0) (fun _ => 0) fun _ => 0)
  · intro husable memory mallocNoise freeNoise
    exact (right_kept_iff h.ok halloc hpos hle).2 husable

theorem fits_live_iff
    (halloc : alloc ∈ state.heap.allocationList) :
    Fits config state (pointer alloc) sz first second ↔
      (config.guardPaged = true → usableSize config alloc < sz →
        Refused config state sz first second ∨ sz ≤ largestSize config) ∧
      (config.guardPaged = false →
        if usableSize config alloc < pagingBaseSize then
          sz ≤ usableSize config alloc ∨
            usableSize config alloc + (wordModulus - pagingBaseSize) < sz ∧
              Refused config state sz first second
        else
          sz + pagingBaseSize ≤ usableSize config alloc ∨
            Refused config state sz first second) := by
  constructor
  · intro hfits
    exact ⟨fun hpaged => hfits.paged hpaged alloc halloc rfl,
      fun hpaged => hfits.unpaged hpaged alloc halloc rfl⟩
  · rintro ⟨hpaged, hunpaged⟩
    refine ⟨hpos, fun hzero => absurd hzero (pointer_ne_zero alloc), ?_, ?_⟩
    · intro hconfig other hother hp
      rw [eq_of_pointer h.ok.1 hother halloc hp]
      exact hpaged hconfig
    · intro hconfig other hother hp
      rw [eq_of_pointer h.ok.1 hother halloc hp]
      exact hunpaged hconfig

theorem alwaysRight_paged_iff (hproper : Proper config state (.malloc sz first second))
    (halloc : alloc ∈ state.heap.allocationList) (hpaged : config.guardPaged = true) :
    AlwaysRight config state (pointer alloc) sz first second ↔ (usableSize config alloc < sz →
        Refused config state sz first second ∨ sz ≤ largestSize config) := by
  have hend := alloc_end_lt h.ok.1 halloc
  have hsize := recomputedSize_paged hpaged (h.sized alloc halloc) (by omega)
  rcases lt_or_ge (recomputedSize alloc) sz with hlt | hle
  · rw [alwaysRight_moved_iff h hpos hproper halloc hlt, hpaged, ← hsize]
    constructor
    · rintro (hrefused | ⟨-, hle⟩) _
      · exact .inl hrefused
      · exact .inr hle
    · intro hright
      rcases hright hlt with hrefused | hle
      · exact .inl hrefused
      · exact .inr ⟨rfl, hle⟩
  · rw [alwaysRight_kept_iff h hpos halloc hle, ← hsize]
    constructor
    · intro _ hlt
      exact absurd hlt (Nat.not_lt.2 hle)
    · intro _
      exact hle

theorem alwaysRight_unpaged_iff
    (hproper : Proper config state (.malloc sz first second))
    (halloc : alloc ∈ state.heap.allocationList) (hpaged : config.guardPaged = false) :
    AlwaysRight config state (pointer alloc) sz first second ↔
      if usableSize config alloc < pagingBaseSize then
        sz ≤ usableSize config alloc ∨
          usableSize config alloc + (wordModulus - pagingBaseSize) < sz ∧
            Refused config state sz first second
      else
        sz + pagingBaseSize ≤ usableSize config alloc ∨
          Refused config state sz first second := by
  have hend := alloc_end_lt h.ok.1 halloc
  have hsize := recomputedSize_unpaged hpaged (h.ok.1.alloc_ok alloc halloc).room (by omega)
  have hmoved : recomputedSize alloc < sz →
      (AlwaysRight config state (pointer alloc) sz first second ↔
        Refused config state sz first second) := by
    intro hlt
    rw [alwaysRight_moved_iff h hpos hproper halloc hlt, hpaged]
    constructor
    · rintro (hrefused | ⟨hfalse, -⟩)
      · exact hrefused
      · cases hfalse
    · exact .inl
  split_ifs at hsize ⊢ with hpage
  · rcases lt_or_ge (recomputedSize alloc) sz with hlt | hle
    · rw [hmoved hlt]
      constructor
      · intro hrefused
        exact .inr ⟨by omega, hrefused⟩
      · rintro (hfits | ⟨-, hrefused⟩)
        · omega
        · exact hrefused
    · rw [alwaysRight_kept_iff h hpos halloc hle]
      constructor
      · exact .inl
      · rintro (hfits | ⟨hlt, -⟩)
        · exact hfits
        · omega
  rcases lt_or_ge (recomputedSize alloc) sz with hlt | hle
  · rw [hmoved hlt]
    constructor
    · exact .inr
    · rintro (hfits | hrefused)
      · omega
      · exact hrefused
  · rw [alwaysRight_kept_iff h hpos halloc hle]
    constructor
    · intro _
      left
      omega
    · intro _
      omega

omit hpos

omit h

end

section

variable {config : Config} {state next : State}

theorem HeapOk.of_step {call : Call} {result : Option Nat} (h : HeapOk config state)
    (hfit : Fitting config state call) (hstep : step config state call = some (result, next)) :
    HeapOk config next := by
  have hchunks := chunksOk_step h.chunksOk hfit.1 hstep
  refine ⟨h.ok.of_step hfit hstep, ?_, ?_⟩
  · cases call with
    | malloc sz first second =>
      rcases malloc_listed h.ok hfit hstep with ⟨-, hsame⟩ | ⟨new, -, hbytes, hlist⟩
      · rw [hsame]
        exact h.sized
      · rw [hlist]
        exact forall_mem_append.2 ⟨h.sized, forall_mem_singleton.2 ⟨sz, hbytes⟩⟩
    | free p =>
      obtain ⟨addr, -, hlist⟩ := free_listed h.ok hfit.1 hstep
      rw [hlist]
      intro alloc halloc
      exact h.sized alloc (mem_of_mem_eraseP halloc)
  · intro chunk hchunk
    have hpage := (hchunks chunk.addr (mem_map_of_mem hchunk)).1
    unfold pagingBaseSize at hpage
    omega

theorem heapOk_of_reachable (h : Reachable (fun state => state = .initial)
    (GuardedStep (step config) (Fitting config)) state) : HeapOk config state := by
  refine h.invariant ?_ ?_
  · rintro state rfl
    refine ⟨stateOk_initial config, ?_, ?_⟩
    · intro alloc halloc
      cases halloc
    · intro chunk hchunk
      cases hchunk
  · rintro state next hok ⟨call, result, hfit, hstep⟩
    exact hok.of_step hfit hstep

/-- In every state of the heap that calls which do not wrap around lead to. -/
theorem realloc_right_iff (config : Config) (state : State) (p sz : Nat)
    (first second : Option Nat)
    (h : Reachable (fun state => state = .initial) (GuardedStep (step config) (Fitting config))
      state)
    (hp : p = 0 ∨ p ∈ state.live) (hproper : Proper config state (.malloc sz first second)) :
    AlwaysRight config state p sz first second ↔ Fits config state p sz first second := by
  have hok := heapOk_of_reachable h
  rcases eq_zero_or_pos sz with rfl | hpos
  · constructor
    · intro hright
      exact absurd (hright (fun _ => 0) (fun _ => 0) fun _ => 0) (not_right_zero hok.ok hp)
    · intro hfits
      exact absurd hfits.pos (lt_irrefl 0)
  rcases hp with rfl | hlive
  · rw [alwaysRight_null_iff hok hpos hproper]
    constructor
    · intro hor
      exact ⟨hpos, fun _ => hor, fun _ alloc _ hzero => absurd hzero (pointer_ne_zero alloc),
        fun _ alloc _ hzero => absurd hzero (pointer_ne_zero alloc)⟩
    · intro hfits
      exact hfits.null rfl
  rw [hok.ok.2] at hlive
  obtain ⟨alloc, halloc, rfl⟩ := mem_map.1 hlive
  rw [fits_live_iff hok hpos halloc]
  cases hpaged : config.guardPaged with
  | true =>
    rw [alwaysRight_paged_iff hok hpos hproper halloc hpaged]
    constructor
    · intro hright
      exact ⟨fun _ => hright, Bool.noConfusion⟩
    · intro hright
      exact hright.1 rfl
  | false =>
    rw [alwaysRight_unpaged_iff hok hpos hproper halloc hpaged]
    constructor
    · intro hright
      exact ⟨Bool.noConfusion, fun _ => hright⟩
    · intro hright
      exact hright.2 rfl

def mallocOnce : List Call :=
  [.malloc 100 (some 0x100000) none]

theorem mallocOnce_live : ∃ answers state, run (step kheap) .initial mallocOnce =
    some (answers, state) ∧ state.live = [0x101f9c] ∧
      Proper kheap state (.malloc 5000 none none) := by
  have hrun : ((run (step kheap) .initial mallocOnce).any fun r =>
      decide (r.2.live = [0x101f9c] ∧ Proper kheap r.2 (.malloc 5000 none none))) = true := by
    decide +kernel
  obtain ⟨⟨answers, state⟩, heq, hstate⟩ := (Option.any_eq_true _ _).mp hrun
  exact ⟨answers, state, heq, of_decide_eq_true hstate⟩

theorem realloc_right_mallocOnce : ∃ answers state, run (step kheap) .initial mallocOnce =
    some (answers, state) ∧ AlwaysRight kheap state 0x101f9c 5000 none none := by
  obtain ⟨answers, state, hrun, hlive, hproper⟩ := mallocOnce_live
  refine ⟨answers, state, hrun, ?_⟩
  apply (realloc_right_iff kheap state 0x101f9c 5000 none none
    (reachable_of_run (reachable_of_init rfl) (by decide +kernel) hrun) ?_ hproper).2
  · have hle : 5000 ≤ largestSize kheap := by decide
    exact ⟨by decide, fun _ => .inr hle, fun _ _ _ _ _ => .inr hle, Bool.noConfusion⟩
  · right
    rw [hlive]
    exact mem_singleton_self _

theorem realloc_zero_not_right : ¬ ∀ config state p sz first second,
    Reachable (fun state => state = .initial) (GuardedStep (step config) (Fitting config)) state →
      p = 0 ∨ p ∈ state.live → Proper config state (.malloc sz first second) →
        AlwaysRight config state p sz first second := by
  intro hclaim
  obtain ⟨answers, state, hrun, hlive, hproper⟩ := mallocOnce_live
  have hreach : Reachable (fun state => state = .initial)
      (GuardedStep (step kheap) (Fitting kheap)) state :=
    reachable_of_run (reachable_of_init rfl) (by decide +kernel) hrun
  have hp : 0x101f9c = 0 ∨ 0x101f9c ∈ state.live := by
    right
    rw [hlive]
    exact mem_singleton_self _
  have hright := hclaim kheap state 0x101f9c 0 none none hreach hp ⟨by decide, hproper.2⟩
  exact not_right_zero (heapOk_of_reachable hreach).ok hp
    (hright (fun _ => 0) (fun _ => 0) fun _ => 0)

end

end Zambesii.HeapRealloc
