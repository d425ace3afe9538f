import Mathlib.Tactic.Linarith
import Zambesii.KernelHeap
import Zambesii.Tiling

/-!
The blocks and the live allocations of every chunk tile it, in every state that calls of
`malloc` and `free` lead to.
-/

namespace Zambesii.HeapTiling

open KernelHeap KernelTypes List Nat Runs Tiling

def firstOffset (config : Config) : Nat :=
  if config.guardPaged then
    (config.sizeofChunk + (pagingBaseSize - 1)) / pagingBaseSize * pagingBaseSize
  else config.sizeofChunk

def blockSpan (block : Block) : Span :=
  (block.addr, block.nBytes)

/-- From `alloc - gapSize` on, as many bytes as the allocation and its gap have. -/
def allocSpan (alloc : Allocation) : Span :=
  (alloc.addr - alloc.gapSize, alloc.gapSize + alloc.nBytes)

/-- The live allocations in the chunk at `chunk`. -/
def allocsOf (heap : Heap) (chunk : Nat) : List Allocation :=
  heap.allocationList.filter fun alloc => decide (alloc.parent = chunk)

structure Tiled (config : Config) (heap : Heap) (chunk : Chunk) : Prop where
  tiles : Tiles (chunk.blocks.map blockSpan + (allocsOf heap chunk.addr).map allocSpan)
    (chunk.addr + firstOffset config) (chunk.addr + config.chunkSize)
  ascending : chunk.blocks.Pairwise fun block next => block.addr < next.addr
  /-- Disjoint, and fully coalesced. -/
  apart : chunk.blocks.Pairwise fun block next => block.addr + block.nBytes < next.addr
  room : ∀ block ∈ chunk.blocks, sizeofBlock ≤ block.nBytes
  count : chunk.nAllocations = (allocsOf heap chunk.addr).length

theorem wordAdd_of_lt {x y : Nat} (h : x + y < wordModulus) : wordAdd x y = x + y :=
  mod_eq_of_lt h

theorem wordSub_of_le {x y : Nat} (h : y ≤ x) (hlt : x < wordModulus) : wordSub x y = x - y := by
  unfold wordSub
  have hsum : x + (wordModulus - y) = x - y + wordModulus := by omega
  rw [hsum, add_mod_right]
  exact mod_eq_of_lt (by omega)

section

variable {block : Block} {pre post : List Block}

theorem sortedInsert_append (hpre : ∀ other ∈ pre, other.addr < block.addr)
    (hpost : ∀ other ∈ post, block.addr ≤ other.addr) :
    sortedInsert block (pre ++ post) = pre ++ block :: post := by
  induction pre with
  | nil =>
    cases post with
    | nil => rfl
    | cons next post =>
      have hle := hpost next (by simp)
      simp [sortedInsert, hle]
  | cons other pre ih =>
    have hlt : ¬block.addr ≤ other.addr := by
      have := hpre other (by simp)
      omega
    rw [cons_append, sortedInsert, if_neg hlt, ih fun x hx => hpre x (by simp [hx])]
    rfl

theorem removeBlock_append (hpre : ∀ other ∈ pre, other.addr ≠ block.addr) :
    removeBlock block.addr (pre ++ block :: post) = pre ++ post := by
  unfold removeBlock
  rw [eraseP_append_right]
  · simp
  · intro other hother
    simpa using hpre other hother

theorem setNBytes_append {addr nBytes : Nat} (haddr : block.addr = addr)
    (hpre : ∀ other ∈ pre, other.addr ≠ addr) (hpost : ∀ other ∈ post, other.addr ≠ addr) :
    setNBytes addr nBytes (pre ++ block :: post) = pre ++ { block with nBytes } :: post := by
  unfold setNBytes
  have hsame : ∀ {blocks : List Block}, (∀ other ∈ blocks, other.addr ≠ addr) →
      blocks.map (fun other => if other.addr = addr then { other with nBytes } else other) =
        blocks := by
    intro blocks hne
    refine (map_congr_left fun other hother => if_neg (hne other hother)).trans ?_
    exact map_id _
  rw [map_append, map_cons, hsame hpre, hsame hpost, if_pos haddr]

theorem nextItem_append {addr : Nat} (haddr : block.addr = addr)
    (hpre : ∀ other ∈ pre, other.addr ≠ addr) :
    nextItem addr (pre ++ block :: post) = post.head? := by
  induction pre with
  | nil => simp [nextItem, haddr]
  | cons other pre ih =>
    rw [cons_append, nextItem, if_neg (hpre other (by simp))]
    exact ih fun x hx => hpre x (by simp [hx])

end

section

def alignment (config : Config) : Nat :=
  if config.guardPaged then pagingBaseSize else 1

structure BlockOk (config : Config) (chunk : Nat) (block : Block) : Prop where
  parent : block.parent = chunk
  room : sizeofBlock ≤ block.nBytes
  header : block.header = .fresh
  aligned : alignment config ∣ block.addr
  aligned_bytes : alignment config ∣ block.nBytes

structure AllocOk (config : Config) (alloc : Allocation) : Prop where
  room : sizeofAllocation ≤ alloc.nBytes
  header : alloc.header = .fresh
  gap_le : alloc.gapSize ≤ alloc.addr
  aligned : alignment config ∣ (allocSpan alloc).1
  aligned_bytes : alignment config ∣ (allocSpan alloc).2

/-- The blocks of a chunk, when the rest of it consists of the spans `others`. -/
structure Layout (config : Config) (chunk : Nat) (blocks : List Block) (others : Multiset Span) :
    Prop where
  tiles : Tiles (blocks.map blockSpan + others) (chunk + firstOffset config)
    (chunk + config.chunkSize)
  apart : blocks.Pairwise fun block next => block.addr + block.nBytes < next.addr
  blocks_ok : ∀ block ∈ blocks, BlockOk config chunk block

variable {config : Config} {chunk : Nat} {blocks pre post : List Block} {block : Block}
  {others rest : Multiset Span} {span : Span}

theorem Layout.congr {others' : Multiset Span} (h : Layout config chunk blocks others)
    (hcover : cover others = cover others') : Layout config chunk blocks others' where
  tiles := by
    have htiles := h.tiles
    unfold Tiles at htiles ⊢
    rw [cover_add] at htiles ⊢
    rw [← hcover, htiles]
  apart := h.apart
  blocks_ok := h.blocks_ok

theorem cover_blocks (pre : List Block) (block : Block) (post : List Block) :
    cover ((pre ++ block :: post).map blockSpan) =
      units (blockSpan block) + cover ((pre ++ post).map blockSpan) := by
  rw [← cover_cons, Multiset.cons_coe]
  refine congrArg cover (Multiset.coe_eq_coe.mpr ?_)
  exact List.Perm.map blockSpan perm_middle

theorem Layout.remove (h : Layout config chunk (pre ++ block :: post) others) :
    Layout config chunk (pre ++ post) (blockSpan block ::ₘ others) where
  tiles := by
    have htiles := h.tiles
    unfold Tiles at htiles ⊢
    rw [cover_add, cover_blocks] at htiles
    rw [cover_add, cover_cons, ← htiles, add_left_comm, add_assoc]
  apart := h.apart.sublist (by simp)
  blocks_ok := by
    intro other hother
    refine h.blocks_ok other ?_
    rw [mem_append] at hother
    rw [mem_append, mem_cons]
    tauto

theorem Layout.insert (h : Layout config chunk (pre ++ post) (blockSpan block ::ₘ others))
    (hok : BlockOk config chunk block)
    (hpre : ∀ other ∈ pre, other.addr + other.nBytes < block.addr)
    (hpost : ∀ other ∈ post, block.addr + block.nBytes < other.addr) :
    Layout config chunk (pre ++ block :: post) others where
  tiles := by
    have htiles := h.tiles
    unfold Tiles at htiles ⊢
    rw [cover_add, cover_cons] at htiles
    rw [cover_add, cover_blocks, ← htiles, add_left_comm, add_assoc]
  apart := by
    obtain ⟨hfirst, hsecond, hcross⟩ := pairwise_append.mp h.apart
    refine pairwise_append.mpr ⟨hfirst, pairwise_cons.mpr ⟨hpost, hsecond⟩, ?_⟩
    intro other hother next hnext
    rcases mem_cons.mp hnext with rfl | hnext
    · exact hpre other hother
    · exact hcross other hother next hnext
  blocks_ok := by
    intro other hother
    rw [mem_append, mem_cons] at hother
    rcases hother with hother | rfl | hother
    · exact h.blocks_ok other (by simp [hother])
    · exact hok
    · exact h.blocks_ok other (by simp [hother])

theorem Layout.pre_lt (h : Layout config chunk (pre ++ block :: post) others) :
    ∀ other ∈ pre, other.addr + other.nBytes < block.addr := by
  intro other hother
  exact (pairwise_append.mp h.apart).2.2 other hother block (by simp)

theorem Layout.lt_post (h : Layout config chunk (pre ++ block :: post) others) :
    ∀ other ∈ post, block.addr + block.nBytes < other.addr := by
  intro other hother
  exact rel_of_pairwise_cons (pairwise_append.mp h.apart).2.1 hother

variable (h : Layout config chunk blocks others)

include h

theorem Layout.block_bounds (hmem : block ∈ blocks) : chunk + firstOffset config ≤ block.addr ∧
      block.addr + block.nBytes ≤ chunk + config.chunkSize := by
  have hroom := (h.blocks_ok block hmem).room
  have hspan : blockSpan block ∈ (blocks.map blockSpan : Multiset Span) + others :=
    Multiset.mem_add.mpr (.inl (mem_map_of_mem hmem))
  exact h.tiles.bounds hspan (by unfold sizeofBlock at hroom; simp only [blockSpan]; omega)

theorem Layout.bounds (hmem : span ∈ others) (hpos : 0 < span.2) :
    chunk + firstOffset config ≤ span.1 ∧ span.1 + span.2 ≤ chunk + config.chunkSize :=
  h.tiles.bounds (Multiset.mem_add.mpr (.inr hmem)) hpos

theorem Layout.block_separate (hblock : block ∈ blocks) (hmem : span ∈ others) (hpos : 0 < span.2) :
    span.1 + span.2 ≤ block.addr ∨ block.addr + block.nBytes ≤ span.1 := by
  obtain ⟨rest, rfl⟩ := Multiset.exists_cons_of_mem hmem
  obtain ⟨pre, post, rfl⟩ := append_of_mem hblock
  have hroom := (h.blocks_ok block hblock).room
  have htiles := h.remove.tiles
  rw [Multiset.add_cons, Multiset.add_cons, Multiset.cons_swap] at htiles
  exact htiles.separate hpos (by unfold sizeofBlock at hroom; simp only [blockSpan]; omega)

omit h

theorem Layout.separate {span' : Span}
    (h : Layout config chunk blocks (span ::ₘ span' ::ₘ rest)) (hpos : 0 < span.2)
    (hpos' : 0 < span'.2) : span.1 + span.2 ≤ span'.1 ∨ span'.1 + span'.2 ≤ span.1 := by
  have htiles := h.tiles
  rw [Multiset.add_cons, Multiset.add_cons] at htiles
  exact htiles.separate hpos hpos'

end

section

/-- The invariant of the heap. In the middle of a call, the chunk at `a` may have spans `extra a`
that are neither a block nor a listed allocation, and may count `unlisted a` allocations that
are not in the list. -/
structure Sound (config : Config) (heap : Heap) (extra : Nat → Multiset Span)
    (unlisted : Nat → Nat) : Prop where
  chunk_aligned : ∀ chunk ∈ heap.chunkList, pagingBaseSize ∣ chunk.addr
  chunk_end : ∀ chunk ∈ heap.chunkList, chunk.addr + config.chunkSize < wordModulus
  chunk_header : ∀ chunk ∈ heap.chunkList, chunk.header = .fresh
  chunks_apart : heap.chunkList.Pairwise fun chunk other =>
    chunk.addr + config.chunkSize ≤ other.addr ∨ other.addr + config.chunkSize ≤ chunk.addr
  alloc_ok : ∀ alloc ∈ heap.allocationList, AllocOk config alloc
  alloc_parent : ∀ alloc ∈ heap.allocationList, ∃ chunk ∈ heap.chunkList,
    chunk.addr = alloc.parent
  layout : ∀ chunk ∈ heap.chunkList, Layout config chunk.addr chunk.blocks
    ((allocsOf heap chunk.addr).map allocSpan + extra chunk.addr)
  count : ∀ chunk ∈ heap.chunkList,
    chunk.nAllocations = (allocsOf heap chunk.addr).length + unlisted chunk.addr

variable {config : Config} {heap : Heap} {extra extra' : Nat → Multiset Span}
  {unlisted unlisted' : Nat → Nat} {chunk other : Chunk} {block : Block} {alloc : Allocation}
  {span : Span} {first nBytes members : Nat}

theorem firstOffset_lt (config : Config) : firstOffset config + sizeofBlock ≤ config.chunkSize :=
  config.fits

theorem sizeofChunk_le_firstOffset (config : Config) : config.sizeofChunk ≤ firstOffset config := by
  unfold firstOffset
  split
  · unfold pagingBaseSize
    omega
  · exact le_rfl

theorem chunkSize_pos (config : Config) : 0 < config.chunkSize := by
  have := firstOffset_lt config
  unfold sizeofBlock at this
  omega

theorem Sound.apart_of_ne (h : Sound config heap extra unlisted) (hchunk : chunk ∈ heap.chunkList)
    (hother : other ∈ heap.chunkList) (hne : chunk ≠ other) :
    chunk.addr + config.chunkSize ≤ other.addr ∨ other.addr + config.chunkSize ≤ chunk.addr := by
  have hsymm : Std.Symm fun chunk other : Chunk => chunk.addr + config.chunkSize ≤ other.addr ∨
      other.addr + config.chunkSize ≤ chunk.addr := ⟨fun _ _ hor => hor.symm⟩
  exact h.chunks_apart.forall hchunk hother hne

theorem Sound.eq_of_addr (h : Sound config heap extra unlisted) (hchunk : chunk ∈ heap.chunkList)
    (hother : other ∈ heap.chunkList) (haddr : chunk.addr = other.addr) : chunk = other := by
  by_contra hne
  have hpos := chunkSize_pos config
  have := h.apart_of_ne hchunk hother hne
  omega

theorem mem_allocsOf {chunk : Nat} :
    alloc ∈ allocsOf heap chunk ↔ alloc ∈ heap.allocationList ∧ alloc.parent = chunk := by
  simp [allocsOf]

theorem Sound.modify (h : Sound config heap extra unlisted) (hmem : chunk ∈ heap.chunkList)
    (f : Chunk → Chunk) (haddr : ∀ chunk, (f chunk).addr = chunk.addr)
    (hheader : (f chunk).header = chunk.header)
    (hextra : ∀ addr ≠ chunk.addr, extra' addr = extra addr)
    (hunlisted : ∀ addr ≠ chunk.addr, unlisted' addr = unlisted addr)
    (hlayout : Layout config chunk.addr (f chunk).blocks
      ((allocsOf heap chunk.addr).map allocSpan + extra' chunk.addr))
    (hcount : (f chunk).nAllocations = (allocsOf heap chunk.addr).length + unlisted' chunk.addr) :
    Sound config (heap.modifyChunk chunk.addr f) extra' unlisted' := by
  -- every chunk of the new list is `f chunk` or another one that is as it was
  have hcases : ∀ new ∈ (heap.modifyChunk chunk.addr f).chunkList,
      new = f chunk ∨ new ∈ heap.chunkList ∧ new.addr ≠ chunk.addr := by
    intro new hnew
    obtain ⟨old, hold, rfl⟩ := mem_map.mp hnew
    split
    · next heq => exact .inl (by rw [h.eq_of_addr hold hmem heq])
    · next hne => exact .inr ⟨hold, hne⟩
  have hsame : ∀ old : Chunk, (if old.addr = chunk.addr then f old else old).addr = old.addr := by
    intro old
    split
    · exact haddr old
    · rfl
  constructor
  · intro new hnew
    rcases hcases new hnew with rfl | ⟨hold, -⟩
    · rw [haddr]
      exact h.chunk_aligned chunk hmem
    · exact h.chunk_aligned new hold
  · intro new hnew
    rcases hcases new hnew with rfl | ⟨hold, -⟩
    · rw [haddr]
      exact h.chunk_end chunk hmem
    · exact h.chunk_end new hold
  · intro new hnew
    rcases hcases new hnew with rfl | ⟨hold, -⟩
    · rw [hheader]
      exact h.chunk_header chunk hmem
    · exact h.chunk_header new hold
  · refine pairwise_map.mpr (h.chunks_apart.imp ?_)
    intro old old' hor
    rw [hsame, hsame]
    exact hor
  · exact h.alloc_ok
  · intro alloc halloc
    obtain ⟨parent, hparent, heq⟩ := h.alloc_parent alloc halloc
    exact ⟨_, mem_map_of_mem hparent, (hsame parent).trans heq⟩
  · intro new hnew
    rcases hcases new hnew with rfl | ⟨hold, hne⟩
    · rw [haddr]
      exact hlayout
    · rw [hextra new.addr hne]
      exact h.layout new hold
  · intro new hnew
    rcases hcases new hnew with rfl | ⟨hold, hne⟩
    · rw [haddr]
      exact hcount
    · rw [hunlisted new.addr hne]
      exact h.count new hold

theorem Sound.mem_modifyChunk (hmem : chunk ∈ heap.chunkList) (f : Chunk → Chunk) :
    f chunk ∈ (heap.modifyChunk chunk.addr f).chunkList :=
  mem_map.mpr ⟨chunk, hmem, if_pos rfl⟩

end

section

variable {config : Config} {heap : Heap} {extra : Nat → Multiset Span} {unlisted : Nat → Nat}
  {chunk other : Chunk} {block : Block} {alloc : Allocation} {span : Span}
  {first nBytes members : Nat}

/-- The memory from `first` on and the header at `first'` do not meet. -/
def Clear (first nBytes first' nBytes' : Nat) : Prop :=
  first + nBytes ≤ first' ∨ first' + nBytes' ≤ first

theorem Header.overwrite_eq {first' nBytes' : Nat} (hclear : Clear first nBytes first' nBytes')
    (hmembers : members ≤ nBytes) (hmagic : magicMaxlen ≤ nBytes') :
    Header.fresh.overwrite first' nBytes' first nBytes members = Header.fresh := by
  have hheader : overlaps first nBytes first' nBytes' = false := by
    rcases hclear with h | h <;> simp [overlaps] <;> omega
  have hlast : overlaps (first + members) (nBytes - members) (first' + (nBytes' - magicMaxlen))
      magicMaxlen = false := by
    rcases hclear with h | h <;> simp [overlaps] <;> omega
  simp [Header.overwrite, Header.fresh, hheader, hlast]

theorem map_eq_self {α : Type} {f : α → α} {items : List α} (h : ∀ item ∈ items, f item = item) :
    items.map f = items :=
  (map_congr_left h).trans (map_id' items)

theorem Sound.block_within (h : Sound config heap extra unlisted) (hmem : chunk ∈ heap.chunkList)
    (hblock : block ∈ chunk.blocks) :
    chunk.addr ≤ block.addr ∧ block.addr + sizeofBlock ≤ chunk.addr + config.chunkSize := by
  have hlayout := h.layout chunk hmem
  have hroom := (hlayout.blocks_ok block hblock).room
  have hbounds := hlayout.block_bounds hblock
  omega

theorem Sound.allocSpan_mem (hparent : chunk.addr = alloc.parent)
    (halloc : alloc ∈ heap.allocationList) :
    allocSpan alloc ∈ ((allocsOf heap chunk.addr).map allocSpan : Multiset Span) :=
  mem_map_of_mem (mem_allocsOf.mpr ⟨halloc, hparent.symm⟩)

theorem AllocOk.span_pos (hok : AllocOk config alloc) : 0 < (allocSpan alloc).2 := by
  have hroom := hok.room
  unfold sizeofAllocation at hroom
  simp only [allocSpan]
  omega

theorem Sound.alloc_within (h : Sound config heap extra unlisted) (hmem : chunk ∈ heap.chunkList)
    (hparent : chunk.addr = alloc.parent) (halloc : alloc ∈ heap.allocationList) :
    chunk.addr ≤ alloc.addr ∧ alloc.addr + alloc.nBytes ≤ chunk.addr + config.chunkSize := by
  have hok := h.alloc_ok alloc halloc
  have hbounds := (h.layout chunk hmem).bounds
    (Multiset.mem_add.mpr (.inl (Sound.allocSpan_mem hparent halloc))) hok.span_pos
  simp only [allocSpan] at hbounds
  omega

theorem Heap.overwrite_eq (hmembers : members ≤ nBytes)
    (hchunks : ∀ chunk ∈ heap.chunkList, chunk.header = .fresh ∧
      Clear first nBytes chunk.addr config.sizeofChunk)
    (hblocks : ∀ chunk ∈ heap.chunkList, ∀ block ∈ chunk.blocks, block.header = .fresh ∧
      Clear first nBytes block.addr sizeofBlock)
    (hallocs : ∀ alloc ∈ heap.allocationList, alloc.header = .fresh ∧
      Clear first nBytes alloc.addr sizeofAllocation) :
    heap.overwrite config first nBytes members = heap := by
  have hblock : ∀ chunk ∈ heap.chunkList,
      chunk.blocks.map (·.overwrite first nBytes members) = chunk.blocks := by
    intro chunk hchunk
    refine map_eq_self fun block hblock => ?_
    obtain ⟨hheader, hclear⟩ := hblocks chunk hchunk block hblock
    have heq := Header.overwrite_eq hclear hmembers (by decide)
    rw [Block.overwrite, hheader, heq, ← hheader]
  have hchunk : heap.chunkList.map (·.overwrite config first nBytes members) = heap.chunkList := by
    refine map_eq_self fun chunk hmem => ?_
    obtain ⟨hheader, hclear⟩ := hchunks chunk hmem
    have heq := Header.overwrite_eq hclear hmembers config.magic_le
    rw [Chunk.overwrite, hblock chunk hmem, hheader, heq, ← hheader]
  have halloc : heap.allocationList.map (·.overwrite first nBytes members) =
      heap.allocationList := by
    refine map_eq_self fun alloc hmem => ?_
    obtain ⟨hheader, hclear⟩ := hallocs alloc hmem
    have heq := Header.overwrite_eq hclear hmembers (by decide)
    rw [Allocation.overwrite, hheader, heq, ← hheader]
  rw [Heap.overwrite, hchunk, halloc]

theorem Sound.overwrite_eq (h : Sound config heap extra unlisted) (hmem : chunk ∈ heap.chunkList)
    (hspan : span ∈ extra chunk.addr) (hmembers : members ≤ nBytes) (hpos : 0 < nBytes)
    (hfirst : span.1 ≤ first) (hlast : first + nBytes ≤ span.1 + span.2) :
    heap.overwrite config first nBytes members = heap := by
  have hothers := Multiset.mem_add.mpr
    (.inr hspan : span ∈ ((allocsOf heap chunk.addr).map allocSpan : Multiset Span) ∨ _)
  have hlength : 0 < span.2 := by omega
  obtain ⟨hlow, hhigh⟩ := (h.layout chunk hmem).bounds hothers hlength
  have hoffset := sizeofChunk_le_firstOffset config
  refine Heap.overwrite_eq hmembers ?_ ?_ ?_
  · intro other hother
    refine ⟨h.chunk_header other hother, ?_⟩
    rcases eq_or_ne chunk other with rfl | hne
    · exact .inr (by omega)
    · have := h.apart_of_ne hmem hother hne
      unfold Clear
      omega
  · intro other hother block hblock
    have hlayout := h.layout other hother
    have hok := hlayout.blocks_ok block hblock
    have hroom := hok.room
    refine ⟨hok.header, ?_⟩
    unfold Clear
    rcases eq_or_ne chunk other with rfl | hne
    · have := hlayout.block_separate hblock hothers hlength
      omega
    · have := h.apart_of_ne hmem hother hne
      have := h.block_within hother hblock
      omega
  · intro alloc halloc
    have hok := h.alloc_ok alloc halloc
    have hroom := hok.room
    refine ⟨hok.header, ?_⟩
    unfold Clear
    obtain ⟨parent, hparent, heq⟩ := h.alloc_parent alloc halloc
    rcases eq_or_ne chunk parent with rfl | hne
    · have hlayout := h.layout chunk hmem
      obtain ⟨spans, hspans⟩ := Multiset.exists_cons_of_mem (Sound.allocSpan_mem heq halloc)
      obtain ⟨spans', hspans'⟩ := Multiset.exists_cons_of_mem hspan
      rw [hspans, hspans', Multiset.add_cons, Multiset.cons_add] at hlayout
      have := hlayout.separate hlength hok.span_pos
      simp only [allocSpan] at this
      omega
    · have := h.apart_of_ne hmem hparent hne
      have := h.alloc_within hparent heq halloc
      omega

theorem Sound.overwrite_outside (h : Sound config heap extra unlisted) (hmembers : members ≤ nBytes)
    (hapart : ∀ chunk ∈ heap.chunkList,
      chunk.addr + config.chunkSize ≤ first ∨ first + nBytes ≤ chunk.addr) :
    heap.overwrite config first nBytes members = heap := by
  have hoffset := sizeofChunk_le_firstOffset config
  have hsize := firstOffset_lt config
  refine Heap.overwrite_eq hmembers ?_ ?_ ?_
  · intro chunk hmem
    refine ⟨h.chunk_header chunk hmem, ?_⟩
    have := hapart chunk hmem
    unfold Clear
    omega
  · intro chunk hmem block hblock
    refine ⟨((h.layout chunk hmem).blocks_ok block hblock).header, ?_⟩
    have := hapart chunk hmem
    have := h.block_within hmem hblock
    unfold Clear
    omega
  · intro alloc halloc
    have hok := h.alloc_ok alloc halloc
    have hroom := hok.room
    obtain ⟨chunk, hmem, heq⟩ := h.alloc_parent alloc halloc
    refine ⟨hok.header, ?_⟩
    have := hapart chunk hmem
    have := h.alloc_within hmem heq halloc
    unfold Clear
    omega

end

section

variable {config : Config} {heap heap' : Heap} {alloc : Allocation}

variable (hperm : heap'.allocationList.Perm (alloc :: heap.allocationList))

include hperm

theorem allocsOf_perm
    (chunk : Nat) :
    (allocsOf heap' chunk).Perm
      (if alloc.parent = chunk then alloc :: allocsOf heap chunk else allocsOf heap chunk) := by
  have hfilter := hperm.filter fun alloc => decide (alloc.parent = chunk)
  unfold allocsOf
  refine hfilter.trans (.of_eq ?_)
  rw [filter_cons]
  simp

theorem spans_perm (chunk : Nat) : ((allocsOf heap' chunk).map allocSpan : Multiset Span) =
      (allocsOf heap chunk).map allocSpan +
        (Pi.single alloc.parent {allocSpan alloc} : Nat → Multiset Span) chunk := by
  rw [Multiset.coe_eq_coe.mpr ((allocsOf_perm hperm chunk).map allocSpan)]
  rcases eq_or_ne alloc.parent chunk with rfl | hne
  · rw [if_pos rfl, Pi.single_eq_same, map_cons, ← Multiset.cons_coe,
      ← Multiset.singleton_add, add_comm]
  · rw [if_neg hne, Pi.single_eq_of_ne hne.symm, add_zero]

theorem length_perm (chunk : Nat) : (allocsOf heap' chunk).length =
      (allocsOf heap chunk).length + (Pi.single alloc.parent 1 : Nat → Nat) chunk := by
  rw [(allocsOf_perm hperm chunk).length_eq]
  rcases eq_or_ne alloc.parent chunk with rfl | hne
  · rw [if_pos rfl, Pi.single_eq_same, length_cons]
  · rw [if_neg hne, Pi.single_eq_of_ne hne.symm, add_zero]

omit hperm

theorem Sound.list (h : Sound config heap (Pi.single alloc.parent {allocSpan alloc})
      (Pi.single alloc.parent 1)) (hchunks : heap'.chunkList = heap.chunkList)
    (hperm : heap'.allocationList.Perm (alloc :: heap.allocationList))
    (hok : AllocOk config alloc) (hparent : ∃ chunk ∈ heap.chunkList, chunk.addr = alloc.parent) :
    Sound config heap' 0 0 := by
  constructor
  · rw [hchunks]
    exact h.chunk_aligned
  · rw [hchunks]
    exact h.chunk_end
  · rw [hchunks]
    exact h.chunk_header
  · rw [hchunks]
    exact h.chunks_apart
  · intro other hother
    rcases mem_cons.mp (hperm.mem_iff.mp hother) with rfl | hother
    · exact hok
    · exact h.alloc_ok other hother
  · rw [hchunks]
    intro other hother
    rcases mem_cons.mp (hperm.mem_iff.mp hother) with rfl | hother
    · exact hparent
    · exact h.alloc_parent other hother
  · rw [hchunks]
    intro chunk hchunk
    rw [spans_perm hperm, Pi.zero_apply, add_zero]
    exact h.layout chunk hchunk
  · rw [hchunks]
    intro chunk hchunk
    rw [length_perm hperm, Pi.zero_apply, add_zero]
    exact h.count chunk hchunk

theorem Sound.unlist (h : Sound config heap' 0 0) (hchunks : heap'.chunkList = heap.chunkList)
    (hperm : heap'.allocationList.Perm (alloc :: heap.allocationList)) :
    Sound config heap (Pi.single alloc.parent {allocSpan alloc}) (Pi.single alloc.parent 1) := by
  have hsub : ∀ other ∈ heap.allocationList, other ∈ heap'.allocationList := by
    intro other hother
    exact hperm.mem_iff.mpr (mem_cons_of_mem alloc hother)
  constructor
  · rw [← hchunks]
    exact h.chunk_aligned
  · rw [← hchunks]
    exact h.chunk_end
  · rw [← hchunks]
    exact h.chunk_header
  · rw [← hchunks]
    exact h.chunks_apart
  · intro other hother
    exact h.alloc_ok other (hsub other hother)
  · rw [← hchunks]
    intro other hother
    exact h.alloc_parent other (hsub other hother)
  · rw [← hchunks]
    intro chunk hchunk
    have hlayout := h.layout chunk hchunk
    rw [spans_perm hperm, Pi.zero_apply, add_zero] at hlayout
    exact hlayout
  · rw [← hchunks]
    intro chunk hchunk
    have hcount := h.count chunk hchunk
    rw [length_perm hperm, Pi.zero_apply, add_zero] at hcount
    exact hcount

end

section

variable {config : Config} {heap : Heap} {chunk : Chunk} {block : Block} {pre post : List Block}
  {sz : Nat}

theorem findBlock_spec {parent needed : Nat} {blocks : List Block}
    (hok : ∀ block ∈ blocks, BlockOk config parent block) :
    findBlock config parent needed blocks = some none ∨
      ∃ pre block post, blocks = pre ++ block :: post ∧ needed ≤ block.nBytes ∧
        findBlock config parent needed blocks = some (some block) := by
  induction blocks with
  | nil => exact .inl rfl
  | cons currBlock rest ih =>
    have hcurr := hok currBlock (by simp)
    have hguard : (config.guardPaged && decide (currBlock.addr % pagingBaseSize ≠ 0)) = false := by
      have haligned := hcurr.aligned
      unfold alignment at haligned
      cases hpaged : config.guardPaged with
      | false => rfl
      | true =>
        rw [hpaged, if_pos rfl] at haligned
        simp [mod_eq_zero_of_dvd haligned]
    have hstep : findBlock config parent needed (currBlock :: rest) =
        if needed > currBlock.nBytes then findBlock config parent needed rest
        else some (some currBlock) := by
      rw [findBlock, hguard]
      simp [hcurr.header, hcurr.parent, Header.fresh]
    rw [hstep]
    split
    · rcases ih fun block hblock => hok block (by simp [hblock]) with hnone | hsome
      · exact .inl hnone
      · obtain ⟨pre, block, post, rfl, hle, heq⟩ := hsome
        exact .inr ⟨currBlock :: pre, block, post, rfl, hle, heq⟩
    · exact .inr ⟨[], currBlock, rest, rfl, by omega, rfl⟩

theorem Layout.removeBlock_eq {others : Multiset Span}
    (h : Layout config addr (pre ++ block :: post) others) :
    removeBlock block.addr (pre ++ block :: post) = pre ++ post := by
  refine removeBlock_append fun other hother => ?_
  have := h.pre_lt other hother
  omega

theorem Sound.take (h : Sound config heap 0 0) (hmem : chunk ∈ heap.chunkList)
    (hblocks : chunk.blocks = pre ++ block :: post) :
    Sound config (heap.mapBlocks chunk.addr (removeBlock block.addr))
      (Pi.single chunk.addr {blockSpan block}) 0 := by
  have hlayout := h.layout chunk hmem
  rw [hblocks] at hlayout
  refine h.modify hmem _ (fun _ => rfl) rfl ?_ (fun _ _ => rfl) ?_ (h.count chunk hmem)
  · intro addr hne
    exact Pi.single_eq_of_ne hne _
  · have hremoved := hlayout.remove
    rw [Pi.zero_apply, add_zero] at hremoved
    rw [Pi.single_eq_same]
    simp only [Chunk.mapBlocks, hblocks]
    rw [hlayout.removeBlock_eq, add_comm, Multiset.singleton_add]
    exact hremoved

theorem overwrite_mapBlocks_removeBlock (heap : Heap) (chunk addr first nBytes members : Nat) :
    (heap.overwrite config first nBytes members).mapBlocks chunk (removeBlock addr) =
      (heap.mapBlocks chunk (removeBlock addr)).overwrite config first nBytes members := by
  unfold Heap.mapBlocks Heap.modifyChunk Heap.overwrite
  simp only [map_map, Heap.mk.injEq, and_true]
  refine map_congr_left fun other _ => ?_
  simp only [Function.comp_apply, Chunk.overwrite]
  split
  · simp only [Chunk.mapBlocks, removeBlock, eraseP_map]
    rfl
  · rfl

variable {start total gap : Nat}

theorem Sound.construct (h : Sound config heap (Pi.single addr {(start, total)}) 0)
    (hmem : chunk ∈ heap.chunkList) (haddr : chunk.addr = addr) (hstart : block.addr = start)
    (htotal : gap + sz = total) (hsz : sizeofAllocation ≤ sz) :
    ∃ heap', constructCounted config heap addr block gap sz =
        some (some ⟨start + gap, addr, sz, gap, .fresh⟩, heap') ∧
      heap'.allocationList = heap.allocationList ∧
      Sound config heap' (Pi.single addr {(start, total)}) (Pi.single addr 1) ∧
      ∃ chunk' ∈ heap'.chunkList, chunk'.addr = addr := by
  subst haddr
  have hspan : (start, total) ∈ (Pi.single chunk.addr {(start, total)} : Nat → Multiset Span)
      chunk.addr := by
    rw [Pi.single_eq_same]
    exact Multiset.mem_singleton_self _
  have hpos : 0 < sz := by
    unfold sizeofAllocation at hsz
    omega
  have hend := h.chunk_end chunk hmem
  have hbounds := (h.layout chunk hmem).bounds (Multiset.mem_add.mpr (.inr hspan)) (by omega)
  have hdest : wordAdd block.addr gap = start + gap := by
    rw [hstart]
    exact wordAdd_of_lt (by omega)
  have hsame : heap.constructAllocation config (start + gap) = heap :=
    h.overwrite_eq hmem hspan (by decide) (by decide) (le_add_right start gap) (by omega)
  refine ⟨heap.modifyChunk chunk.addr fun chunk =>
    { chunk with nAllocations := chunk.nAllocations + 1 }, ?_, rfl, ?_, ?_⟩
  · simp only [constructCounted, hdest, hsame]
  · refine h.modify hmem _ (fun _ => rfl) rfl (fun _ _ => rfl) ?_ (h.layout chunk hmem) ?_
    · intro addr hne
      exact Pi.single_eq_of_ne hne _
    · have hcount := h.count chunk hmem
      rw [Pi.single_eq_same]
      exact congrArg (· + 1) hcount
  · exact ⟨_, Sound.mem_modifyChunk hmem _, rfl⟩

structure Allocated (config : Config) (heap : Heap) (alloc : Allocation) (heap' : Heap) :
    Prop where
  sound : Sound config heap' (Pi.single alloc.parent {allocSpan alloc}) (Pi.single alloc.parent 1)
  ok : AllocOk config alloc
  parent_mem : ∃ chunk ∈ heap'.chunkList, chunk.addr = alloc.parent
  same : heap'.allocationList = heap.allocationList

theorem alignment_dvd_needed (config : Config) (sz : Nat) :
    alignment config ∣ gapRequirement config sz + sz := by
  unfold alignment gapRequirement
  split
  · have hmod := mod_lt sz (by decide : 0 < pagingBaseSize)
    have hdiv := mod_add_div sz pagingBaseSize
    refine ⟨sz / pagingBaseSize + 1, ?_⟩
    rw [mul_add]
    omega
  · exact one_dvd _

theorem allocOk_of_span (parent : Nat) (haligned : alignment config ∣ start)
    (hbytes : alignment config ∣ total) (htotal : gap + sz = total) (hsz : sizeofAllocation ≤ sz) :
    AllocOk config ⟨start + gap, parent, sz, gap, .fresh⟩ ∧
      allocSpan ⟨start + gap, parent, sz, gap, .fresh⟩ = (start, total) := by
  have hspan : allocSpan ⟨start + gap, parent, sz, gap, .fresh⟩ = (start, total) := by
    simp [allocSpan, htotal]
  refine ⟨⟨hsz, rfl, le_add_left gap start, ?_, ?_⟩, hspan⟩
  · rw [hspan]
    exact haligned
  · rw [hspan]
    exact hbytes

theorem Allocated.of_construct {heap₁ heap' : Heap} (haligned : alignment config ∣ start)
    (hbytes : alignment config ∣ total) (htotal : gap + sz = total) (hsz : sizeofAllocation ≤ sz)
    (hsame : heap₁.allocationList = heap.allocationList)
    (hsame' : heap'.allocationList = heap₁.allocationList)
    (hsound : Sound config heap' (Pi.single chunk.addr {(start, total)}) (Pi.single chunk.addr 1))
    (hparent : ∃ chunk' ∈ heap'.chunkList, chunk'.addr = chunk.addr) :
    Allocated config heap ⟨start + gap, chunk.addr, sz, gap, .fresh⟩ heap' := by
  obtain ⟨hok, hspan⟩ := allocOk_of_span chunk.addr haligned hbytes htotal hsz
  refine ⟨?_, hok, hparent, hsame'.trans hsame⟩
  rw [hspan]
  exact hsound

variable (h : Sound config heap 0 0)

include h

variable (hmem : chunk ∈ heap.chunkList)

include hmem

theorem Sound.malloc_whole
    (hblocks : chunk.blocks = pre ++ block :: post) (htotal : gap + sz = block.nBytes)
    (hsz : sizeofAllocation ≤ sz) :
    ∃ alloc heap', constructCounted config (heap.mapBlocks chunk.addr (removeBlock block.addr))
        chunk.addr block gap sz = some (some alloc, heap') ∧ Allocated config heap alloc heap' := by
  have hok := (h.layout chunk hmem).blocks_ok block (by rw [hblocks]; simp)
  have htaken := h.take hmem hblocks
  have hmem₁ : chunk.mapBlocks (removeBlock block.addr) ∈
      (heap.mapBlocks chunk.addr (removeBlock block.addr)).chunkList :=
    Sound.mem_modifyChunk hmem _
  obtain ⟨heap', heq, hsame, hsound, hparent⟩ := htaken.construct hmem₁ rfl rfl htotal hsz
  exact ⟨_, heap', heq, .of_construct hok.aligned hok.aligned_bytes htotal hsz rfl hsame hsound
    hparent⟩

theorem Sound.malloc_split
    (hblocks : chunk.blocks = pre ++ block :: post) {needed : Nat} (hneeded : gap + sz = needed)
    (hsz : sizeofAllocation ≤ sz) (hroom : needed + sizeofBlock ≤ block.nBytes)
    (haligned : alignment config ∣ needed) : ∃ alloc heap', constructCounted config
        (((heap.constructBlock config (block.addr + needed)).mapBlocks chunk.addr
          (removeBlock block.addr)).mapBlocks chunk.addr
          (sortedInsert ⟨block.addr + needed, chunk.addr, block.nBytes - needed, .fresh⟩))
        chunk.addr block gap sz = some (some alloc, heap') ∧ Allocated config heap alloc heap' := by
  have hlayout := h.layout chunk hmem
  rw [hblocks] at hlayout
  have hok := hlayout.blocks_ok block (by simp)
  have htaken := h.take hmem hblocks
  set heap₁ := heap.mapBlocks chunk.addr (removeBlock block.addr) with hheap₁
  set newBlock : Block := ⟨block.addr + needed, chunk.addr, block.nBytes - needed, .fresh⟩
    with hnewBlock
  have hmem₁ : chunk.mapBlocks (removeBlock block.addr) ∈ heap₁.chunkList :=
    Sound.mem_modifyChunk hmem _
  have hspan : blockSpan block ∈ (Pi.single chunk.addr {blockSpan block} : Nat → Multiset Span)
      chunk.addr := by
    rw [Pi.single_eq_same]
    exact Multiset.mem_singleton_self _
  -- the header of the new block is written into the span of the old one
  have hsame : (heap.constructBlock config (block.addr + needed)).mapBlocks chunk.addr
      (removeBlock block.addr) = heap₁ := by
    unfold Heap.constructBlock
    rw [overwrite_mapBlocks_removeBlock]
    refine htaken.overwrite_eq hmem₁ hspan (by decide) (by decide)
      (le_add_right block.addr needed) ?_
    simp only [blockSpan]
    omega
  have hblocks₁ : removeBlock block.addr chunk.blocks = pre ++ post := by
    rw [hblocks]
    exact hlayout.removeBlock_eq
  have hpre : ∀ other ∈ pre, other.addr + other.nBytes < newBlock.addr := by
    intro other hother
    have := hlayout.pre_lt other hother
    simp only [hnewBlock]
    omega
  have hpost : ∀ other ∈ post, newBlock.addr + newBlock.nBytes < other.addr := by
    intro other hother
    have := hlayout.lt_post other hother
    simp only [hnewBlock]
    omega
  have hnewOk : BlockOk config chunk.addr newBlock := by
    refine ⟨rfl, ?_, rfl, ?_, ?_⟩
    · simp only [hnewBlock]
      omega
    · exact Nat.dvd_add hok.aligned haligned
    · exact dvd_sub hok.aligned_bytes haligned
  have hcount := htaken.count _ hmem₁
  have hsplit : Sound config (heap₁.mapBlocks chunk.addr (sortedInsert newBlock))
      (Pi.single chunk.addr {(block.addr, needed)}) 0 := by
    refine htaken.modify hmem₁ (·.mapBlocks (sortedInsert newBlock)) (fun _ => rfl) rfl ?_
      (fun _ _ => rfl) ?_ hcount
    · intro addr hne
      have hne' : addr ≠ chunk.addr := hne
      rw [Pi.single_eq_of_ne hne', Pi.single_eq_of_ne hne']
    · have hbefore := htaken.layout _ hmem₁
      simp only [Chunk.mapBlocks] at hbefore ⊢
      rw [hblocks₁] at hbefore ⊢
      rw [Pi.single_eq_same] at hbefore ⊢
      have hinsert : sortedInsert newBlock (pre ++ post) = pre ++ newBlock :: post := by
        refine sortedInsert_append (fun other hother => ?_) fun other hother => ?_
        · have := hpre other hother
          omega
        · have := hpost other hother
          omega
      rw [hinsert]
      refine Layout.insert ?_ hnewOk hpre hpost
      refine hbefore.congr ?_
      rw [cover_cons, cover_add, cover_add, cover_singleton, cover_singleton, blockSpan,
        units_split (show needed ≤ block.nBytes by omega)]
      simp only [blockSpan, hnewBlock]
      ac_rfl
  rw [hsame]
  have hmem₂ : (chunk.mapBlocks (removeBlock block.addr)).mapBlocks (sortedInsert newBlock) ∈
      (heap₁.mapBlocks chunk.addr (sortedInsert newBlock)).chunkList :=
    Sound.mem_modifyChunk hmem₁ _
  obtain ⟨heap', heq, hlist, hsound, hparent⟩ := hsplit.construct hmem₂ rfl rfl hneeded hsz
  exact ⟨_, heap', heq, .of_construct hok.aligned haligned hneeded hsz rfl hlist hsound hparent⟩

theorem Sound.chunk_malloc
    (hsz : sizeofAllocation ≤ sz) (hfit : sz + gapRequirement config sz < wordModulus) :
    chunk.malloc config heap sz = some (none, heap) ∨
      ∃ alloc heap', chunk.malloc config heap sz = some (some alloc, heap') ∧
        Allocated config heap alloc heap' := by
  have hlayout := h.layout chunk hmem
  have hneeded : wordAdd (gapRequirement config sz) sz = gapRequirement config sz + sz :=
    wordAdd_of_lt (by omega)
  have haligned := alignment_dvd_needed config sz
  unfold Chunk.malloc
  simp only [hneeded]
  rcases findBlock_spec hlayout.blocks_ok with hnone | ⟨pre, block, post, hblocks, hle, hfound⟩
  · rw [hnone]
    exact .inl rfl
  rw [hfound]
  refine .inr ?_
  have hblock : block ∈ chunk.blocks := by
    rw [hblocks]
    simp
  have hok := hlayout.blocks_ok block hblock
  have hroom := hok.room
  have hbounds := hlayout.block_bounds hblock
  have hend := h.chunk_end chunk hmem
  dsimp only
  rw [wordSub_of_le hroom (by omega)]
  split
  · next hwhole =>
    rw [wordSub_of_le hle (by omega), wordAdd_of_lt (by omega)]
    exact h.malloc_whole hmem hblocks (by omega) hsz
  next hsplit =>
  have hdest : (config.guardPaged &&
      decide ((block.addr + (gapRequirement config sz + sz)) % pagingBaseSize ≠ 0)) = false := by
    have hdvd := Nat.dvd_add hok.aligned haligned
    unfold alignment at hdvd
    cases hpaged : config.guardPaged with
    | false => rfl
    | true =>
      rw [hpaged, if_pos rfl] at hdvd
      simp [mod_eq_zero_of_dvd hdvd]
  rw [wordAdd_of_lt (show block.addr + (gapRequirement config sz + sz) < wordModulus by omega),
    hdest, wordSub_of_le (show gapRequirement config sz ≤ block.nBytes by omega) (by omega),
    wordSub_of_le (by omega) (by omega), Nat.sub_sub]
  exact h.malloc_split hmem hblocks rfl hsz (by omega) haligned

omit hmem

theorem Sound.mallocFrom_spec (hsz : sizeofAllocation ≤ sz)
    (hfit : sz + gapRequirement config sz < wordModulus) {chunks : List Chunk}
    (hsub : ∀ chunk ∈ chunks, chunk ∈ heap.chunkList) :
    mallocFrom config heap sz chunks = some (none, heap) ∨
      ∃ alloc heap', mallocFrom config heap sz chunks = some (some alloc, heap') ∧
        Allocated config heap alloc heap' := by
  induction chunks with
  | nil => exact .inl rfl
  | cons currChunk rest ih =>
    have hmem := hsub currChunk (by simp)
    have hheader : (decide (currChunk.header.magicIsValid = false) ||
        decide (currChunk.header.intact = false)) = false := by
      rw [h.chunk_header currChunk hmem]
      rfl
    unfold mallocFrom
    rw [hheader]
    rcases h.chunk_malloc hmem hsz hfit with hnone | ⟨alloc, heap', heq, hallocated⟩
    · rw [hnone]
      exact ih fun chunk hchunk => hsub chunk (by simp [hchunk])
    · rw [heq]
      exact .inr ⟨alloc, heap', rfl, hallocated⟩

omit h

theorem alignment_dvd_firstOffset (config : Config) : alignment config ∣ firstOffset config := by
  unfold alignment firstOffset
  split
  · exact dvd_mul_left _ _
  · exact one_dvd _

theorem alignment_dvd_chunkSize (config : Config) : alignment config ∣ config.chunkSize := by
  unfold alignment
  split
  · next hpaged => exact config.whole_pages hpaged
  · exact one_dvd _

theorem alignment_dvd_of_page (h : pagingBaseSize ∣ addr) : alignment config ∣ addr := by
  unfold alignment
  split
  · exact h
  · exact one_dvd _

theorem firstBlockAddr_eq (haligned : pagingBaseSize ∣ addr)
    (hend : addr + config.chunkSize < wordModulus) :
    firstBlockAddr config addr = addr + firstOffset config := by
  have hsize := firstOffset_lt config
  have hoffset := sizeofChunk_le_firstOffset config
  have hfirst : wordAdd addr config.sizeofChunk = addr + config.sizeofChunk :=
    wordAdd_of_lt (by omega)
  unfold firstBlockAddr
  simp only [hfirst]
  cases hpaged : config.guardPaged with
  | false => simp [firstOffset, hpaged]
  | true =>
    obtain ⟨pages, hpages⟩ := config.whole_pages hpaged
    obtain ⟨page, rfl⟩ := haligned
    simp only [firstOffset, hpaged, if_true, Bool.true_and, decide_eq_true_eq,
      sizeofBlock] at hsize ⊢
    split
    · rw [wordAdd_of_lt]
      · unfold pagingBaseSize at *
        omega
      · unfold pagingBaseSize at *
        omega
    · unfold pagingBaseSize at *
      omega

variable {addr : Nat}

theorem Sound.allocsOf_eq_nil (h : Sound config heap 0 0)
    (hnew : ∀ chunk ∈ heap.chunkList, chunk.addr ≠ addr) : allocsOf heap addr = [] := by
  refine filter_eq_nil_iff.mpr fun alloc halloc => ?_
  obtain ⟨chunk, hmem, heq⟩ := h.alloc_parent alloc halloc
  have hne := hnew chunk hmem
  rw [heq] at hne
  simpa using hne

theorem Layout.new (config : Config) (haligned : pagingBaseSize ∣ addr) : Layout config addr
      [⟨addr + firstOffset config, addr, config.chunkSize - firstOffset config, .fresh⟩] 0 := by
  have hsize := firstOffset_lt config
  refine ⟨?_, pairwise_singleton _ _, ?_⟩
  · have htiles := tiles_singleton
      (show addr + firstOffset config ≤ addr + config.chunkSize by omega)
    rw [Nat.add_sub_add_left] at htiles
    exact htiles
  · intro block hblock
    rw [mem_singleton.mp hblock]
    refine ⟨rfl, ?_, rfl, ?_, ?_⟩
    · dsimp only
      omega
    · exact Nat.dvd_add (alignment_dvd_of_page haligned) (alignment_dvd_firstOffset config)
    · exact dvd_sub (alignment_dvd_chunkSize config) (alignment_dvd_firstOffset config)

theorem Sound.addChunk (h : Sound config heap 0 0)
    (hapart : ∀ other ∈ heap.chunkList,
      other.addr + config.chunkSize ≤ chunk.addr ∨ chunk.addr + config.chunkSize ≤ other.addr)
    (haligned : pagingBaseSize ∣ chunk.addr) (hend : chunk.addr + config.chunkSize < wordModulus)
    (hheader : chunk.header = .fresh) (hlayout : Layout config chunk.addr chunk.blocks 0)
    (hcount : chunk.nAllocations = 0) :
    Sound config { heap with chunkList := heap.chunkList ++ [chunk] } 0 0 := by
  have hnil : allocsOf heap chunk.addr = [] := by
    refine h.allocsOf_eq_nil fun other hother => ?_
    have := hapart other hother
    have := chunkSize_pos config
    omega
  constructor
  · exact forall_mem_append.mpr ⟨h.chunk_aligned, forall_mem_singleton.mpr haligned⟩
  · exact forall_mem_append.mpr ⟨h.chunk_end, forall_mem_singleton.mpr hend⟩
  · exact forall_mem_append.mpr ⟨h.chunk_header, forall_mem_singleton.mpr hheader⟩
  · refine pairwise_append.mpr ⟨h.chunks_apart, pairwise_singleton _ _, ?_⟩
    intro other hother new hnew
    rw [mem_singleton.mp hnew]
    exact hapart other hother
  · exact h.alloc_ok
  · intro alloc halloc
    obtain ⟨other, hother, hparent⟩ := h.alloc_parent alloc halloc
    exact ⟨other, mem_append_left _ hother, hparent⟩
  · refine forall_mem_append.mpr ⟨h.layout, forall_mem_singleton.mpr ?_⟩
    change Layout config chunk.addr chunk.blocks ((allocsOf heap chunk.addr).map allocSpan + 0)
    rw [hnil]
    exact hlayout
  · refine forall_mem_append.mpr ⟨h.count, forall_mem_singleton.mpr ?_⟩
    change chunk.nAllocations = (allocsOf heap chunk.addr).length + 0
    rw [hnil, hcount]
    rfl

theorem Sound.getNewChunk (h : Sound config heap 0 0)
    (hsupplied : Supplied config (heap.chunkList.map Chunk.addr) addr) :
    (heap.getNewChunk config addr).allocationList = heap.allocationList ∧
      (heap.getNewChunk config addr).chunkList.map Chunk.addr =
        heap.chunkList.map Chunk.addr ++ [addr] ∧
      Sound config (heap.getNewChunk config addr) 0 0 := by
  have hsize := firstOffset_lt config
  have hoffset := sizeofChunk_le_firstOffset config
  have hlt := config.chunkSize_lt
  have hend := hsupplied.end_lt
  have hapart : ∀ chunk ∈ heap.chunkList,
      chunk.addr + config.chunkSize ≤ addr ∨ addr + config.chunkSize ≤ chunk.addr := by
    intro chunk hmem
    exact hsupplied.apart chunk.addr (mem_map_of_mem hmem)
  have hfirst := firstBlockAddr_eq hsupplied.aligned hend
  have hchunk : heap.constructChunk config addr = heap := by
    refine h.overwrite_outside ?_ fun chunk hmem => ?_
    · have := config.magic_le
      unfold magicMaxlen at this
      omega
    · have := hapart chunk hmem
      omega
  have hblock : heap.constructBlock config (addr + firstOffset config) = heap := by
    refine h.overwrite_outside (by decide) fun chunk hmem => ?_
    have := hapart chunk hmem
    omega
  have hlength : wordSub config.chunkSize (wordSub (addr + firstOffset config) addr) =
      config.chunkSize - firstOffset config := by
    rw [wordSub_of_le (Nat.le_add_right _ _) (by omega), Nat.add_sub_cancel_left,
      wordSub_of_le (by omega) hlt]
  have heq : heap.getNewChunk config addr = { heap with chunkList := heap.chunkList ++
      [⟨addr, 0, [⟨addr + firstOffset config, addr, config.chunkSize - firstOffset config, .fresh⟩],
        .fresh⟩] } := by
    simp only [Heap.getNewChunk, hfirst, hchunk, hblock, hlength, sortedInsert]
  rw [heq]
  refine ⟨rfl, by simp, ?_⟩
  exact h.addChunk hapart hsupplied.aligned hend rfl (Layout.new config hsupplied.aligned) rfl

/-- The pages that `memAlloc` returns one after the other. -/
def SuppliedAll (config : Config) : List Nat → List (Option Nat) → Prop
  | _, [] => True
  | _, none :: _ => True
  | chunks, some addr :: rest =>
    Supplied config chunks addr ∧ SuppliedAll config (chunks ++ [addr]) rest

theorem mallocPasses_spec (hsz : sizeofAllocation ≤ sz)
    (hfit : sz + gapRequirement config sz < wordModulus) {supplies : List (Option Nat)}
    (h : Sound config heap 0 0)
    (hsupplied : SuppliedAll config (heap.chunkList.map Chunk.addr) supplies) :
    (∃ heap', mallocPasses config sz supplies heap = some (none, heap') ∧
        heap'.allocationList = heap.allocationList ∧ Sound config heap' 0 0) ∨
      ∃ alloc heap', mallocPasses config sz supplies heap = some (some alloc, heap') ∧
        Allocated config heap alloc heap' := by
  induction supplies generalizing heap with
  | nil => exact .inl ⟨heap, rfl, rfl, h⟩
  | cons supply supplies ih =>
    unfold mallocPasses
    rcases h.mallocFrom_spec hsz hfit (fun _ hchunk => hchunk) with
      hnone | ⟨alloc, heap', heq, hallocated⟩
    · rw [hnone]
      cases supply with
      | none => exact .inl ⟨heap, rfl, rfl, h⟩
      | some addr =>
        obtain ⟨hsame, hchunks, hsound⟩ := h.getNewChunk hsupplied.1
        have hrest := hsupplied.2
        rw [← hchunks] at hrest
        rcases ih hsound hrest with ⟨heap', heq, hlist, hsound'⟩ | ⟨alloc, heap', heq, hnew⟩
        · exact .inl ⟨heap', heq, hlist.trans hsame, hsound'⟩
        · exact .inr ⟨alloc, heap', heq, hnew.sound, hnew.ok, hnew.parent_mem,
            hnew.same.trans hsame⟩
    · rw [heq]
      exact .inr ⟨alloc, heap', rfl, hallocated⟩

def fullSize (config : Config) (sz : Nat) : Nat :=
  (sz + sizeofAllocation + (if config.guardPaged then pagingBaseSize else 0) +
    (sizeofWord - 1)) / sizeofWord * sizeofWord

theorem roundSize_eq (hlt : fullSize config sz < wordModulus) :
    roundSize config sz = fullSize config sz := by
  have hmodulus : wordModulus = 4294967296 := rfl
  unfold fullSize at hlt ⊢
  unfold sizeofWord at *
  have hheader : wordAdd sz sizeofAllocation = sz + sizeofAllocation :=
    wordAdd_of_lt (by omega)
  have hpage : (if config.guardPaged then wordAdd (sz + sizeofAllocation) pagingBaseSize
      else sz + sizeofAllocation) =
        sz + sizeofAllocation + if config.guardPaged then pagingBaseSize else 0 := by
    split
    · next hpaged =>
      rw [if_pos hpaged] at hlt
      exact wordAdd_of_lt (by omega)
    · rfl
  simp only [roundSize, hheader, hpage, sizeofWord]
  generalize sz + sizeofAllocation + (if config.guardPaged then pagingBaseSize else 0) = total
    at hlt ⊢
  split
  · omega
  · rw [wordAdd_of_lt (by omega)]
    omega

theorem fullSize_le (config : Config) (sz : Nat) :
    sz + sizeofAllocation + (if config.guardPaged then pagingBaseSize else 0) ≤
      fullSize config sz := by
  unfold fullSize sizeofWord
  omega

theorem sizeofAllocation_le_fullSize (config : Config) (sz : Nat) :
    sizeofAllocation ≤ fullSize config sz := by
  have hle := fullSize_le config sz
  omega

theorem Sound.malloc (h : Sound config heap 0 0) {first second : Option Nat} (hpos : sz ≠ 0)
    (hfit : fullSize config sz + gapRequirement config (fullSize config sz) < wordModulus)
    (hsupplied : SuppliedAll config (heap.chunkList.map Chunk.addr) [first, second]) :
    ∃ heap', Sound config heap' 0 0 ∧ ((heap.malloc config sz first second = some (none, heap') ∧
          heap'.allocationList = heap.allocationList) ∨
        ∃ alloc, heap.malloc config sz first second =
            some (some (wordAdd alloc.addr sizeofAllocation), heap') ∧
          heap'.allocationList = heap.allocationList ++ [alloc]) := by
  unfold Heap.malloc
  rw [if_neg hpos, roundSize_eq (by omega)]
  rcases mallocPasses_spec (sizeofAllocation_le_fullSize config sz) hfit h hsupplied with
    ⟨heap', heq, hsame, hsound⟩ | ⟨alloc, heap', heq, hnew⟩
  · rw [heq]
    exact ⟨heap', hsound, .inl ⟨rfl, hsame⟩⟩
  rw [heq]
  refine ⟨{ heap' with allocationList := heap'.allocationList ++ [alloc] }, ?_,
    .inr ⟨alloc, rfl, ?_⟩⟩
  · exact hnew.sound.list rfl (perm_append_singleton _ _) hnew.ok hnew.parent_mem
  · rw [hnew.same]

end

section

variable {config : Config} {heap : Heap} {chunk : Chunk} {addr start total : Nat}
  {block : Block} {alloc : Allocation} {pre post blocks : List Block} {others : Multiset Span}

theorem wordAdd_last {x n : Nat} (hpos : 0 < n) (hlt : x + n < wordModulus) :
    wordAdd x (wordSub n 1) = x + n - 1 ∧ wordAdd (wordAdd x (wordSub n 1)) 1 = x + n := by
  have hlast : wordAdd x (wordSub n 1) = x + n - 1 := by
    rw [wordSub_of_le hpos (by omega), wordAdd_of_lt (by omega)]
    omega
  refine ⟨hlast, ?_⟩
  rw [hlast, wordAdd_of_lt (by omega)]
  omega

theorem Layout.block_last (h : Layout config addr blocks others)
    (hend : addr + config.chunkSize < wordModulus) (hmem : block ∈ blocks) :
    block.lastByte = block.addr + block.nBytes - 1 ∧
      wordAdd block.lastByte 1 = block.addr + block.nBytes := by
  have hroom := (h.blocks_ok block hmem).room
  have hbounds := h.block_bounds hmem
  unfold sizeofBlock at hroom
  exact wordAdd_last (by omega) (by omega)

/-- The allocation of the `total` bytes at `start` as `Chunk::free` computes with it. -/
structure Spans (alloc : Allocation) (start total : Nat) : Prop where
  start_eq : alloc.start = start
  start_le : start ≤ alloc.addr
  addr_lt : alloc.addr < start + total
  end_eq : wordAdd (wordAdd alloc.addr (wordSub alloc.nBytes 1)) 1 = start + total
  total_eq : wordAdd alloc.gapSize alloc.nBytes = total

inductive PlaceOk (start total : Nat) (blocks : List Block) : Place → Prop
  | prepend {pre : List Block} {block : Block} {post : List Block} :
      blocks = pre ++ block :: post → start + total = block.addr →
      (∀ other ∈ pre, other.addr + other.nBytes < start) →
      PlaceOk start total blocks (.prepend block pre.getLast?)
  | append {pre : List Block} {block : Block} {post : List Block} :
      blocks = pre ++ block :: post → block.addr + block.nBytes = start →
      PlaceOk start total blocks (.append block)
  | insert {pre post : List Block} :
      blocks = pre ++ post → (∀ other ∈ pre, other.addr + other.nBytes < start) →
      (∀ other ∈ post, start + total < other.addr) → PlaceOk start total blocks .insert

theorem findPlace_spec (hspans : Spans alloc start total)
    (h : Layout config addr (pre ++ post) others) (hend : addr + config.chunkSize < wordModulus)
    (hmem : (start, total) ∈ others) (hpre : ∀ other ∈ pre, other.addr + other.nBytes < start) :
    ∃ place, findPlace alloc pre.getLast? post = some place ∧
      PlaceOk start total (pre ++ post) place := by
  have hle := hspans.start_le
  have hlt := hspans.addr_lt
  induction post generalizing pre with
  | nil => exact ⟨.insert, rfl, .insert rfl hpre (by simp)⟩
  | cons currBlock rest ih =>
    have hcurr : currBlock ∈ pre ++ currBlock :: rest := by simp
    have hok := h.blocks_ok currBlock hcurr
    have hseparate := h.block_separate hcurr hmem (show 0 < total by omega)
    have hlast := (h.block_last hend hcurr).2
    have hprev : (pre.getLast?.all fun prev => decide (prev.lastByte < alloc.addr)) = true := by
      cases hgetLast : pre.getLast? with
      | none => rfl
      | some prev =>
        have hprevMem := mem_of_getLast? hgetLast
        have hprevLast := (h.block_last hend (mem_append_left _ hprevMem)).1
        have hprevEnd := hpre prev hprevMem
        rw [Option.all_some, decide_eq_true_eq, hprevLast]
        omega
    unfold findPlace
    dsimp only
    rw [hok.header, hspans.end_eq, hlast, hspans.start_eq, hprev]
    simp only [Header.fresh, Bool.true_eq_false, if_false, and_true]
    split
    · next hprepend => exact ⟨_, rfl, .prepend rfl hprepend hpre⟩
    split
    · next happend => exact ⟨_, rfl, .append rfl happend⟩
    split
    · next hinsert =>
      refine ⟨_, rfl, .insert rfl hpre ?_⟩
      intro other hother
      rcases mem_cons.mp hother with rfl | hother
      · omega
      · have := h.lt_post other hother
        omega
    have hstep : pre ++ currBlock :: rest = (pre ++ [currBlock]) ++ rest := by simp
    rw [hstep] at h ⊢
    have hnext : (pre ++ [currBlock]).getLast? = some currBlock := getLast?_concat
    rw [← hnext]
    refine ih h fun other hother => ?_
    rcases mem_append.mp hother with hother | hother
    · exact hpre other hother
    · rw [mem_singleton.mp hother]
      omega

theorem Layout.addr_ne_pre (h : Layout config addr (pre ++ block :: post) others) :
    ∀ other ∈ pre, other.addr ≠ block.addr := by
  intro other hother
  have := h.pre_lt other hother
  omega

theorem Layout.addr_ne_post (h : Layout config addr (pre ++ block :: post) others) :
    ∀ other ∈ post, other.addr ≠ block.addr := by
  intro other hother
  have := h.lt_post other hother
  omega

theorem Layout.sortedInsert (h : Layout config addr (pre ++ post) (blockSpan block ::ₘ others))
    (hok : BlockOk config addr block) (hpre : ∀ other ∈ pre, other.addr + other.nBytes < block.addr)
    (hpost : ∀ other ∈ post, block.addr + block.nBytes < other.addr) :
    Layout config addr (KernelHeap.sortedInsert block (pre ++ post)) others := by
  have hinsert : KernelHeap.sortedInsert block (pre ++ post) = pre ++ block :: post := by
    refine sortedInsert_append (fun other hother => ?_) fun other hother => ?_
    · have := hpre other hother
      omega
    · have := hpost other hother
      omega
  rw [hinsert]
  exact h.insert hok hpre hpost

theorem Layout.prepend (h : Layout config addr (pre ++ block :: post) ((start, total) ::ₘ others))
    (hend : addr + config.chunkSize < wordModulus) (hstart : start + total = block.addr)
    (hpre : ∀ other ∈ pre, other.addr + other.nBytes < start)
    (haligned : alignment config ∣ start) (hbytes : alignment config ∣ total) : Layout config addr
      (prependAndCoalesce ⟨start, addr, total + block.nBytes, .fresh⟩ block pre.getLast?
        (pre ++ block :: post)) others := by
  have hok := h.blocks_ok block (by simp)
  have hroom := hok.room
  have hinsert : prependAndCoalesce ⟨start, addr, total + block.nBytes, .fresh⟩ block pre.getLast?
      (pre ++ block :: post) =
        KernelHeap.sortedInsert ⟨start, addr, total + block.nBytes, .fresh⟩ (pre ++ post) := by
    unfold prependAndCoalesce
    rw [h.removeBlock_eq]
    cases hgetLast : pre.getLast? with
    | none => rfl
    | some prev =>
      have hprevMem := mem_of_getLast? hgetLast
      have hprevLast := (h.block_last hend (mem_append_left _ hprevMem)).2
      have hprevEnd := hpre prev hprevMem
      dsimp only
      rw [hprevLast, if_pos (by omega)]
  rw [hinsert]
  refine Layout.sortedInsert ?_ ?_ hpre ?_
  · refine h.remove.congr ?_
    rw [cover_cons, cover_cons, cover_cons]
    simp only [blockSpan]
    rw [units_add, hstart]
    ac_rfl
  · refine ⟨rfl, ?_, rfl, haligned, Nat.dvd_add hbytes hok.aligned_bytes⟩
    dsimp only
    omega
  · intro other hother
    have := h.lt_post other hother
    dsimp only
    omega

theorem Layout.append (h : Layout config addr (pre ++ block :: post) ((start, total) ::ₘ others))
    (hend : addr + config.chunkSize < wordModulus) (hstart : block.addr + block.nBytes = start)
    (htotal : wordAdd alloc.gapSize alloc.nBytes = total) (hpos : 0 < total)
    (hbytes : alignment config ∣ total) :
    Layout config addr (appendAndCoalesce block alloc (pre ++ block :: post)) others := by
  have hok := h.blocks_ok block (by simp)
  have hroom := hok.room
  have hspan := h.bounds (Multiset.mem_cons_self _ _) hpos
  have hnBytes : wordAdd block.nBytes total = block.nBytes + total := wordAdd_of_lt (by omega)
  have hlast : wordAdd (wordAdd block.addr (wordSub (block.nBytes + total) 1)) 1 = start + total := by
    rw [(wordAdd_last (by omega) (by omega)).2]
    omega
  have hset : setNBytes block.addr (block.nBytes + total) (pre ++ block :: post) =
      pre ++ { block with nBytes := block.nBytes + total } :: post :=
    setNBytes_append rfl h.addr_ne_pre h.addr_ne_post
  have hnextItem : nextItem block.addr
      (pre ++ { block with nBytes := block.nBytes + total } :: post) = post.head? :=
    nextItem_append rfl h.addr_ne_pre
  -- the block without the one after it
  have hgrown : Layout config addr (pre ++ post)
      ((block.addr, block.nBytes + total) ::ₘ others) := by
    refine h.remove.congr ?_
    rw [cover_cons, cover_cons, cover_cons, units_add, blockSpan, hstart, add_assoc]
  unfold appendAndCoalesce
  simp only [htotal, hnBytes]
  rw [hset, hnextItem]
  cases post with
  | nil =>
    refine Layout.insert hgrown ⟨hok.parent, ?_, hok.header, hok.aligned,
      Nat.dvd_add hok.aligned_bytes hbytes⟩ h.pre_lt (by simp)
    dsimp only
    omega
  | cons next post =>
    have hnext := h.lt_post next (by simp)
    have hseparate := h.block_separate (mem_append_right pre (by simp : next ∈ _))
      (Multiset.mem_cons_self _ _) hpos
    simp only [head?_cons, hlast]
    split
    · next hne =>
      refine Layout.insert hgrown ⟨hok.parent, ?_, hok.header, hok.aligned,
        Nat.dvd_add hok.aligned_bytes hbytes⟩ h.pre_lt ?_
      · dsimp only
        omega
      · intro other hother
        dsimp only
        rcases mem_cons.mp hother with rfl | hother
        · omega
        have hsplit : pre ++ block :: next :: post = (pre ++ [block]) ++ next :: post := by simp
        rw [hsplit] at h
        have := h.lt_post other hother
        omega
    next heq =>
    have hsplit : pre ++ block :: next :: post = (pre ++ [block]) ++ next :: post := by simp
    have hafter : ∀ other ∈ post, next.addr + next.nBytes < other.addr := by
      rw [hsplit] at h
      exact h.lt_post
    have hbounds := h.block_bounds (mem_append_right pre (by simp : next ∈ _))
    have hsum : wordAdd (block.nBytes + total) next.nBytes =
        block.nBytes + total + next.nBytes := wordAdd_of_lt (by omega)
    set merged : Block := { block with nBytes := block.nBytes + total + next.nBytes }
      with hmerged
    have hset' : setNBytes block.addr (block.nBytes + total + next.nBytes)
        (pre ++ { block with nBytes := block.nBytes + total } :: next :: post) =
          pre ++ merged :: next :: post :=
      setNBytes_append rfl h.addr_ne_pre h.addr_ne_post
    have hremove : removeBlock next.addr ((pre ++ [merged]) ++ next :: post) =
        (pre ++ [merged]) ++ post := by
      refine removeBlock_append fun other hother => ?_
      rcases mem_append.mp hother with hother | hother
      · rw [hsplit] at h
        exact h.addr_ne_pre other (mem_append_left _ hother)
      · rw [mem_singleton.mp hother]
        simp only [hmerged]
        omega
    rw [append_assoc, append_assoc, singleton_append,
      singleton_append] at hremove
    rw [hsum, hset', hremove]
    refine Layout.insert ?_ ⟨hok.parent, ?_, hok.header, hok.aligned, ?_⟩ h.pre_lt ?_
    · refine hgrown.remove.congr ?_
      rw [cover_cons, cover_cons, cover_cons]
      simp only [blockSpan]
      rw [units_add block.addr (block.nBytes + total) next.nBytes,
        show block.addr + (block.nBytes + total) = next.addr by omega]
      ac_rfl
    · simp only [hmerged]
      omega
    · exact Nat.dvd_add (Nat.dvd_add hok.aligned_bytes hbytes)
        (h.blocks_ok next (by simp)).aligned_bytes
    · intro other hother
      have := hafter other hother
      simp only [hmerged]
      omega

theorem Sound.spans (h : Sound config heap 0 0) (halloc : alloc ∈ heap.allocationList) :
    Spans alloc (allocSpan alloc).1 (allocSpan alloc).2 := by
  have hok := h.alloc_ok alloc halloc
  have hroom := hok.room
  have hgap := hok.gap_le
  obtain ⟨chunk, hmem, hparent⟩ := h.alloc_parent alloc halloc
  have hwithin := h.alloc_within hmem hparent halloc
  have hend := h.chunk_end chunk hmem
  unfold sizeofAllocation at hroom
  constructor
  · exact wordSub_of_le hgap (by omega)
  · exact sub_le _ _
  · simp only [allocSpan]
    omega
  · rw [(wordAdd_last (by omega) (by omega)).2]
    simp only [allocSpan]
    omega
  · exact wordAdd_of_lt (by omega)

theorem Sound.uncount {span : Span} (f : List Block → List Block)
    (h : Sound config heap (Pi.single chunk.addr {span}) (Pi.single chunk.addr 1))
    (hmem : chunk ∈ heap.chunkList)
    (hlayout : Layout config chunk.addr (f chunk.blocks)
      ((allocsOf heap chunk.addr).map allocSpan)) :
    Sound config ((heap.mapBlocks chunk.addr f).modifyChunk chunk.addr fun chunk =>
      { chunk with nAllocations := chunk.nAllocations - 1 }) 0 0 := by
  have hinserted : Sound config (heap.mapBlocks chunk.addr f) 0 (Pi.single chunk.addr 1) := by
    have hcount := h.count chunk hmem
    refine h.modify hmem (·.mapBlocks f) (fun _ => rfl) rfl ?_ (fun _ _ => rfl) ?_ hcount
    · intro addr hne
      rw [Pi.single_eq_of_ne hne, Pi.zero_apply]
    · rw [Pi.zero_apply, add_zero]
      exact hlayout
  have hmem' : chunk.mapBlocks f ∈ (heap.mapBlocks chunk.addr f).chunkList :=
    Sound.mem_modifyChunk hmem _
  have hlayout' := hinserted.layout _ hmem'
  have hcount' := hinserted.count _ hmem'
  refine hinserted.modify hmem' _ (fun _ => rfl) rfl (fun _ _ => rfl) ?_ hlayout' ?_
  · intro addr hne
    have hne' : addr ≠ chunk.addr := hne
    rw [Pi.single_eq_of_ne hne', Pi.zero_apply]
  · have hone : (Pi.single chunk.addr 1 : Nat → Nat) (chunk.mapBlocks f).addr = 1 :=
      Pi.single_eq_same _ _
    rw [Pi.zero_apply]
    dsimp only
    omega

theorem Sound.chunk_free (h : Sound config heap (Pi.single chunk.addr {(start, total)})
      (Pi.single chunk.addr 1)) (hmem : chunk ∈ heap.chunkList)
    (hspans : Spans alloc start total) (haligned : alignment config ∣ start)
    (hbytes : alignment config ∣ total) (hroom : sizeofBlock ≤ total) :
    ∃ heap', chunk.free config heap alloc = some heap' ∧
      heap'.allocationList = heap.allocationList ∧ Sound config heap' 0 0 := by
  have hlayout := h.layout chunk hmem
  rw [Pi.single_eq_same, add_comm, Multiset.singleton_add] at hlayout
  have hend := h.chunk_end chunk hmem
  have hspan : (start, total) ∈ (Pi.single chunk.addr {(start, total)} : Nat → Multiset Span)
      chunk.addr := by
    rw [Pi.single_eq_same]
    exact Multiset.mem_singleton_self _
  have hsame : heap.constructBlock config start = heap :=
    h.overwrite_eq hmem hspan (by decide) (by decide) le_rfl (Nat.add_le_add_left hroom start)
  have hlayout' : Layout config chunk.addr ([] ++ chunk.blocks) _ := hlayout
  obtain ⟨place, hplace, hok⟩ :=
    findPlace_spec hspans hlayout' hend (Multiset.mem_cons_self _ _) (by simp)
  rw [getLast?_nil] at hplace
  rw [nil_append] at hok
  unfold Chunk.free
  simp only [hspans.total_eq, hspans.start_eq, hsame, hplace]
  cases hok with
  | @prepend pre block post hblocks hstart hpre =>
    have hblock : block ∈ chunk.blocks := by
      rw [hblocks]
      simp
    have hblockBounds := hlayout.block_bounds hblock
    rw [hblocks] at hlayout
    refine ⟨_, rfl, rfl, h.uncount _ hmem ?_⟩
    rw [wordAdd_of_lt (by omega), hblocks]
    exact hlayout.prepend hend hstart hpre haligned hbytes
  | @append pre block post hblocks hstart =>
    rw [hblocks] at hlayout
    refine ⟨_, rfl, rfl, h.uncount _ hmem ?_⟩
    rw [hblocks]
    exact hlayout.append hend hstart hspans.total_eq (by unfold sizeofBlock at hroom; omega) hbytes
  | @insert pre post hblocks hpre hpost =>
    rw [hblocks] at hlayout
    refine ⟨_, rfl, rfl, h.uncount _ hmem ?_⟩
    rw [hblocks]
    exact Layout.sortedInsert hlayout ⟨rfl, hroom, rfl, haligned, hbytes⟩ hpre hpost

theorem findAllocation_spec {allocs : List Allocation}
    (hok : ∀ alloc ∈ allocs, AllocOk config alloc) (hmem : ∃ alloc ∈ allocs, alloc.addr = addr) :
    ∃ pre alloc post, allocs = pre ++ alloc :: post ∧ alloc.addr = addr ∧
      findAllocation addr allocs = some alloc ∧ removeAllocation addr allocs = pre ++ post := by
  induction allocs with
  | nil =>
    obtain ⟨alloc, hnil, -⟩ := hmem
    cases hnil
  | cons first rest ih =>
    have hheader := (hok first (by simp)).header
    unfold findAllocation removeAllocation
    rw [hheader]
    rcases eq_or_ne first.addr addr with haddr | hne
    · refine ⟨[], first, rest, rfl, haddr, ?_, ?_⟩
      · simp [Header.fresh, haddr]
      · simp [haddr]
    have hrest : ∃ alloc ∈ rest, alloc.addr = addr := by
      obtain ⟨alloc, halloc, haddr⟩ := hmem
      rcases mem_cons.mp halloc with rfl | halloc
      · exact absurd haddr hne
      · exact ⟨alloc, halloc, haddr⟩
    obtain ⟨pre, alloc, post, heq, haddr, hfind, hremove⟩ :=
      ih (fun alloc halloc => hok alloc (by simp [halloc])) hrest
    refine ⟨first :: pre, alloc, post, by rw [heq]; rfl, haddr, ?_, ?_⟩
    · simpa [Header.fresh, hne] using hfind
    · unfold removeAllocation at hremove
      rw [eraseP_cons_of_neg (by simpa using hne), hremove]
      rfl

theorem Sound.allocIsWithinHeap_eq (h : Sound config heap 0 0) (hmem : chunk ∈ heap.chunkList)
    (hparent : chunk.addr = alloc.parent) (halloc : alloc ∈ heap.allocationList) :
    allocIsWithinHeap config heap.chunkList alloc.addr = some chunk := by
  have hroom := (h.alloc_ok alloc halloc).room
  have hwithin := h.alloc_within hmem hparent halloc
  have hword : ∀ other ∈ heap.chunkList,
      wordAdd other.addr config.chunkSize = other.addr + config.chunkSize :=
    fun other hother => wordAdd_of_lt (h.chunk_end other hother)
  unfold sizeofAllocation at hroom
  unfold allocIsWithinHeap
  cases hfind : heap.chunkList.find? fun chunk => decide (chunk.addr ≤ alloc.addr) &&
      decide (alloc.addr < wordAdd chunk.addr config.chunkSize) with
  | none =>
    have hnone := find?_eq_none.mp hfind chunk hmem
    rw [hword chunk hmem] at hnone
    simp at hnone
    omega
  | some other =>
    have hother := mem_of_find?_eq_some hfind
    have hsome := find?_some hfind
    rw [hword other hother] at hsome
    simp at hsome
    rcases eq_or_ne other chunk with rfl | hne
    · rfl
    · have := h.apart_of_ne hother hmem hne
      omega

/-- The pointer that `malloc` returned for an allocation. -/
def pointer (alloc : Allocation) : Nat :=
  alloc.addr + sizeofAllocation

theorem map_pointer_remove (addr : Nat) (allocs : List Allocation) :
    (removeAllocation addr allocs).map pointer =
      (allocs.map pointer).erase (addr + sizeofAllocation) := by
  rw [erase_eq_eraseP, eraseP_map, removeAllocation]
  congr 2
  funext alloc
  simp [pointer, Bool.beq_eq_decide_eq, eq_comm]

theorem Sound.free (h : Sound config heap 0 0) (halloc : alloc ∈ heap.allocationList) :
    ∃ heap', heap.free config (pointer alloc) = some heap' ∧
      heap'.allocationList = removeAllocation alloc.addr heap.allocationList ∧
      Sound config heap' 0 0 := by
  obtain ⟨pre, found, post, hlist, haddr, hfind, hremove⟩ :=
    findAllocation_spec h.alloc_ok ⟨alloc, halloc, rfl⟩
  have hfound : found ∈ heap.allocationList := by
    rw [hlist]
    simp
  have hok := h.alloc_ok found hfound
  have hroom := hok.room
  obtain ⟨parent, hparentMem, hparent⟩ := h.alloc_parent found hfound
  have hwithin := h.alloc_within hparentMem hparent hfound
  have hend := h.chunk_end parent hparentMem
  have hspans := h.spans hfound
  have hheader : wordSub (pointer alloc) sizeofAllocation = alloc.addr := by
    unfold pointer
    rw [← haddr, wordSub_of_le (Nat.le_add_left _ _) (by omega), Nat.add_sub_cancel]
  have hguard : (config.guardPaged && (decide (found.start % pagingBaseSize ≠ 0) ||
      decide (wordAdd found.addr found.nBytes % pagingBaseSize ≠ 0))) = false := by
    cases hpaged : config.guardPaged with
    | false => rfl
    | true =>
      have haligned := hok.aligned
      have hlast := Nat.dvd_add hok.aligned hok.aligned_bytes
      unfold alignment at haligned hlast
      rw [hpaged, if_pos rfl] at haligned hlast
      have hsum : wordAdd found.addr found.nBytes = (allocSpan found).1 + (allocSpan found).2 := by
        have hgap := hok.gap_le
        rw [wordAdd_of_lt (by omega)]
        simp only [allocSpan]
        omega
      rw [hspans.start_eq, hsum, mod_eq_zero_of_dvd haligned, mod_eq_zero_of_dvd hlast]
      rfl
  have hranges : (config.checkHeapRangesOnFree &&
      (allocIsWithinHeap config heap.chunkList found.addr).isNone) = false := by
    rw [h.allocIsWithinHeap_eq hparentMem hparent hfound]
    simp
  have hlisted : (config.checkAllocsOnFree &&
      !(heap.allocationList.any (·.addr == found.addr))) = false := by
    have hany : (heap.allocationList.any (·.addr == found.addr)) = true :=
      any_eq_true.mpr ⟨found, hfound, beq_self_eq_true _⟩
    rw [hany]
    simp
  have hpositive : found.nBytes ≠ 0 := by
    unfold sizeofAllocation at hroom
    omega
  have hchunk : heap.chunkList.find? (fun chunk => decide (chunk.addr = found.parent)) =
      some parent := by
    cases hchunkFind : heap.chunkList.find? fun chunk => decide (chunk.addr = found.parent) with
    | none =>
      have hnone := find?_eq_none.mp hchunkFind parent hparentMem
      simp [hparent] at hnone
    | some other =>
      have hsome := find?_some hchunkFind
      rw [decide_eq_true_eq] at hsome
      rw [h.eq_of_addr (mem_of_find?_eq_some hchunkFind) hparentMem (hsome.trans hparent.symm)]
  unfold Heap.free
  rw [hheader, hfind]
  dsimp only
  rw [hguard, hranges, hok.header, hlisted, hchunk, haddr]
  simp only [Header.fresh, Bool.false_eq_true, Bool.true_eq_false, if_false, hpositive]
  set heap₁ : Heap := { heap with
    allocationList := removeAllocation alloc.addr heap.allocationList } with hheap₁
  have hperm : heap.allocationList.Perm (found :: heap₁.allocationList) := by
    rw [hheap₁, hremove, hlist]
    exact perm_middle
  have hunlisted : Sound config heap₁ _ _ := h.unlist rfl hperm
  rw [← hparent] at hunlisted
  have hsize : sizeofBlock ≤ (allocSpan found).2 := by
    unfold sizeofAllocation at hroom
    simp only [allocSpan, sizeofBlock]
    omega
  exact hunlisted.chunk_free hparentMem hspans hok.aligned hok.aligned_bytes hsize

end

section

variable {config : Config} {heap : Heap} {chunk : Chunk}

theorem Layout.checkBlocksFrom_eq {addr : Nat} {blocks : List Block} {others : Multiset Span}
    (h : Layout config addr blocks others) (hend : addr + config.chunkSize < wordModulus)
    {pre post : List Block} (hblocks : blocks = pre ++ post) :
    checkBlocksFrom config addr pre.getLast? post = some .success := by
  induction post generalizing pre with
  | nil => rfl
  | cons currBlock rest ih =>
    have hcurr : currBlock ∈ blocks := by
      rw [hblocks]
      simp
    have hok := h.blocks_ok currBlock hcurr
    have hbounds := h.block_bounds hcurr
    have hlast : wordAdd currBlock.addr currBlock.nBytes = currBlock.addr + currBlock.nBytes :=
      wordAdd_of_lt (by omega)
    have hnext : blocks = (pre ++ [currBlock]) ++ rest := by
      rw [hblocks]
      simp
    have hrest := ih hnext
    rw [getLast?_concat] at hrest
    simp only [checkBlocksFrom, hok.header, hok.parent, hlast, wordAdd_of_lt hend]
    rw [if_neg (by simp [Header.fresh]), if_neg (by simp [Header.fresh]), if_neg (by simp),
      if_neg (by omega)]
    cases hgetLast : pre.getLast? with
    | none => exact hrest
    | some prev =>
      have hprev := mem_of_getLast? hgetLast
      rw [hblocks] at h
      have hlt := h.pre_lt prev hprev
      dsimp only
      rw [if_neg (by omega), if_neg (by omega), wordAdd_of_lt (by omega), if_neg (by omega)]
      exact hrest

theorem Sound.checkBlocks (h : Sound config heap 0 0) :
    heap.checkBlocks config = some .success := by
  have hfrom : ∀ chunks : List Chunk, (∀ chunk ∈ chunks, chunk ∈ heap.chunkList) →
      checkChunksFrom config chunks = some .success := by
    intro chunks hsub
    induction chunks with
    | nil => rfl
    | cons currChunk rest ih =>
      have hmem := hsub currChunk (by simp)
      have hblocks := (h.layout currChunk hmem).checkBlocksFrom_eq (h.chunk_end currChunk hmem)
        (show currChunk.blocks = [] ++ currChunk.blocks from rfl)
      rw [getLast?_nil] at hblocks
      simp only [checkChunksFrom, h.chunk_header currChunk hmem, hblocks]
      exact ih fun chunk hchunk => hsub chunk (by simp [hchunk])
  exact hfrom heap.chunkList fun _ hchunk => hchunk

theorem Sound.nodup_addr (h : Sound config heap 0 0) : (heap.chunkList.map Chunk.addr).Nodup := by
  have hpos := chunkSize_pos config
  refine pairwise_map.mpr (h.chunks_apart.imp ?_)
  intro chunk other hor
  omega

theorem sum_allocsOf {addrs : List Nat} (hnodup : addrs.Nodup) {allocs : List Allocation}
    (hparent : ∀ alloc ∈ allocs, alloc.parent ∈ addrs) :
    (addrs.map fun addr =>
      (allocs.filter fun alloc => decide (alloc.parent = addr)).length).sum = allocs.length := by
  induction allocs with
  | nil => simp
  | cons alloc allocs ih =>
    have hstep : ∀ addr, ((alloc :: allocs).filter fun alloc =>
        decide (alloc.parent = addr)).length =
          (allocs.filter fun alloc => decide (alloc.parent = addr)).length +
            if addr = alloc.parent then 1 else 0 := by
      intro addr
      rcases eq_or_ne addr alloc.parent with rfl | hne
      · simp
      · simp [hne, hne.symm]
    have hone : (addrs.map fun addr => if addr = alloc.parent then 1 else 0).sum = 1 := by
      rw [sum_map_eq_nsmul_single alloc.parent _ fun addr hne _ => if_neg hne,
        count_eq_one_of_mem hnodup (hparent alloc (by simp)), if_pos rfl, one_nsmul]
    simp only [hstep, sum_map_add, hone, length_cons]
    rw [ih fun other hother => hparent other (by simp [hother])]

theorem Sound.countAllocations_eq (h : Sound config heap 0 0) :
    countAllocations heap.chunkList = some (.ok heap.allocationList.length) := by
  have hfrom : ∀ chunks : List Chunk, (∀ chunk ∈ chunks, chunk ∈ heap.chunkList) →
      countAllocations chunks =
        some (.ok (chunks.map fun chunk => (allocsOf heap chunk.addr).length).sum) := by
    intro chunks hsub
    induction chunks with
    | nil => rfl
    | cons currChunk rest ih =>
      have hmem := hsub currChunk (by simp)
      have hrest := ih fun chunk hchunk => hsub chunk (by simp [hchunk])
      simp only [countAllocations, h.chunk_header currChunk hmem, hrest, h.count currChunk hmem]
      rfl
  have hparent : ∀ alloc ∈ heap.allocationList, alloc.parent ∈ heap.chunkList.map Chunk.addr := by
    intro alloc halloc
    obtain ⟨chunk, hmem, heq⟩ := h.alloc_parent alloc halloc
    rw [← heq]
    exact mem_map_of_mem hmem
  have hsum := sum_allocsOf h.nodup_addr hparent
  rw [map_map] at hsum
  rw [hfrom heap.chunkList fun _ hchunk => hchunk, ← hsum]
  rfl

theorem Sound.checkAllocations (h : Sound config heap 0 0) :
    heap.checkAllocations config = some .success := by
  have hfrom : ∀ allocs : List Allocation, (∀ alloc ∈ allocs, alloc ∈ heap.allocationList) →
      checkAllocationsFrom config heap.chunkList allocs = some .success := by
    intro allocs hsub
    induction allocs with
    | nil => rfl
    | cons alloc rest ih =>
      have halloc := hsub alloc (by simp)
      obtain ⟨parent, hmem, heq⟩ := h.alloc_parent alloc halloc
      have hfound : (heap.chunkList.all fun chunk => decide (chunk.addr ≠ alloc.parent)) = false := by
        rw [all_eq_false]
        exact ⟨parent, hmem, by simp [heq]⟩
      simp only [checkAllocationsFrom, h.allocIsWithinHeap_eq hmem heq halloc,
        (h.alloc_ok alloc halloc).header, hfound, heq]
      rw [if_neg (by simp [Header.fresh]), if_neg (by simp [Header.fresh]), if_neg (by simp)]
      exact ih fun other hother => hsub other (by simp [hother])
  unfold Heap.checkAllocations
  rw [h.countAllocations_eq]
  rw [hfrom heap.allocationList fun _ halloc => halloc]
  simp

end

section

variable {config : Config} {state next : State}

def StateOk (config : Config) (state : State) : Prop :=
  Sound config state.heap 0 0 ∧ state.live = state.heap.allocationList.map pointer

theorem stateOk_initial (config : Config) : StateOk config .initial := by
  refine ⟨⟨?_, ?_, ?_, .nil, ?_, ?_, ?_, ?_⟩, rfl⟩ <;> simp [State.initial]

theorem suppliedAll_of_proper {sz : Nat} {first second : Option Nat}
    (h : Proper config state (.malloc sz first second)) :
    SuppliedAll config (state.heap.chunkList.map Chunk.addr) [first, second] := by
  obtain ⟨-, hfirst, hsecond⟩ := h
  cases first with
  | none => trivial
  | some addr =>
    refine ⟨hfirst addr rfl, ?_⟩
    cases second with
    | none => trivial
    | some addr' => exact ⟨hsecond addr rfl addr' rfl, trivial⟩

theorem StateOk.step {call : Call} (h : StateOk config state) (hfit : Fitting config state call)
    (hasks : ∀ first second, call ≠ .malloc 0 first second) :
    ∃ result next, step config state call = some (result, next) ∧ StateOk config next := by
  obtain ⟨hsound, hlive⟩ := h
  obtain ⟨hproper, hbound⟩ := hfit
  cases call with
  | malloc sz first second =>
    have hpos : sz ≠ 0 := by
      rintro rfl
      exact hasks first second rfl
    obtain ⟨heap', hsound', hanswer⟩ :=
      hsound.malloc hpos hbound (suppliedAll_of_proper hproper)
    unfold KernelHeap.step
    dsimp only
    rcases hanswer with ⟨heq, hsame⟩ | ⟨alloc, heq, hlist⟩
    · rw [heq]
      refine ⟨_, _, rfl, hsound', ?_⟩
      rw [hsame]
      exact hlive
    rw [heq]
    refine ⟨_, _, rfl, hsound', ?_⟩
    have halloc : alloc ∈ heap'.allocationList := by
      rw [hlist]
      simp
    obtain ⟨parent, hmem, hparent⟩ := hsound'.alloc_parent alloc halloc
    have hwithin := hsound'.alloc_within hmem hparent halloc
    have hend := hsound'.chunk_end parent hmem
    have hroom := (hsound'.alloc_ok alloc halloc).room
    rw [hlist, hlive, map_append, wordAdd_of_lt (by omega)]
    rfl
  | free p =>
    have hmem : p ∈ state.live := hproper
    rw [hlive] at hmem
    obtain ⟨alloc, halloc, rfl⟩ := mem_map.mp hmem
    obtain ⟨heap', heq, hlist, hsound'⟩ := hsound.free halloc
    unfold KernelHeap.step
    dsimp only
    rw [heq]
    refine ⟨_, _, rfl, hsound', ?_⟩
    rw [hlist, map_pointer_remove, hlive]
    rfl

theorem step_malloc_zero (state : State) (first second : Option Nat) :
    KernelHeap.step config state (.malloc 0 first second) = none :=
  rfl

theorem StateOk.of_step {call : Call} {result : Option Nat} (h : StateOk config state)
    (hfit : Fitting config state call)
    (hstep : KernelHeap.step config state call = some (result, next)) : StateOk config next := by
  have hasks : ∀ first second, call ≠ .malloc 0 first second := by
    rintro first second rfl
    cases hstep
  obtain ⟨result', next', hstep', hnext⟩ := h.step hfit hasks
  rw [hstep] at hstep'
  cases hstep'
  exact hnext

theorem Sound.tiled {heap : Heap} (h : Sound config heap 0 0) :
    ∀ chunk ∈ heap.chunkList, Tiled config heap chunk := by
  intro chunk hmem
  have hlayout := h.layout chunk hmem
  refine ⟨?_, hlayout.apart.imp ?_, hlayout.apart, ?_, h.count chunk hmem⟩
  · have htiles := hlayout.tiles
    rw [Pi.zero_apply, add_zero] at htiles
    exact htiles
  · intro block next hlt
    omega
  · intro block hblock
    exact (hlayout.blocks_ok block hblock).room

/-- As long as no size wraps around, every sequence of calls keeps every chunk tiled. -/
theorem calls_tiled (config : Config) (state : State)
    (h : Reachable (fun state => state = .initial) (GuardedStep (step config) (Fitting config))
      state) :
    (∀ chunk ∈ state.heap.chunkList, Tiled config state.heap chunk) ∧
      (∀ alloc ∈ state.heap.allocationList,
        ∃ chunk ∈ state.heap.chunkList, chunk.addr = alloc.parent) ∧
      state.live = state.heap.allocationList.map pointer ∧
      state.heap.checkBlocks config = some .success ∧
      state.heap.checkAllocations config = some .success ∧
      ∀ call, Fitting config state call → (∀ first second, call ≠ .malloc 0 first second) →
        (step config state call).isSome := by
  have hok : StateOk config state := by
    refine h.invariant ?_ ?_
    · rintro state rfl
      exact stateOk_initial config
    · rintro state next hok ⟨call, result, hfit, hstep⟩
      exact hok.of_step hfit hstep
  refine ⟨hok.1.tiled, hok.1.alloc_parent, hok.2, hok.1.checkBlocks, hok.1.checkAllocations, ?_⟩
  intro call hfit hasks
  obtain ⟨result, next, hstep, -⟩ := hok.step hfit hasks
  rw [hstep]
  rfl

/-- `__kheap` of `MemReservoir`, with two megabytes a chunk. -/
def kheap : Config where
  chunkSize := 0x200000
  sizeofChunk := 60
  guardPaged := true
  checkAllocsOnFree := true
  checkHeapRangesOnFree := true
  checkBlockMagicPassively := true
  magic_le := by decide
  chunkSize_lt := by decide
  fits := by decide
  whole_pages := by decide

def mallocTwice : List Call :=
  [.malloc 100 (some 0x100000) none, .malloc 5000 none none, .free 0x101f9c]

theorem calls_tiled_mallocTwice :
    ∃ answers last, run (step kheap) .initial mallocTwice = some (answers, last) ∧
      last.live = [0x103c78] ∧ (∀ chunk ∈ last.heap.chunkList, Tiled kheap last.heap chunk) ∧
      last.heap.checkBlocks kheap = some .success := by
  have hrun : ((run (step kheap) .initial mallocTwice).any
      fun r => decide (r.2.live = [0x103c78])) = true := by
    decide +kernel
  obtain ⟨⟨answers, last⟩, hlast, hlive⟩ := (Option.any_eq_true _ _).mp hrun
  obtain ⟨htiled, -, -, hblocks, -⟩ := calls_tiled kheap last
    (reachable_of_run (reachable_of_init rfl) (by decide +kernel) hlast)
  exact ⟨answers, last, hlast, of_decide_eq_true hlive, htiled, hblocks⟩

/-- With the header, the guard page and the gap it is `2 ^ 32` bytes. -/
def mallocWrapped : List Call :=
  [.malloc 0xffffef50 (some 0x100000) none]

theorem mallocWrapped_not_tiled :
    ¬ ∀ state, Reachable (fun state => state = .initial)
        (GuardedStep (step kheap) (Proper kheap)) state →
      (∀ chunk ∈ state.heap.chunkList, Tiled kheap state.heap chunk) ∧
        state.heap.checkBlocks kheap = some .success ∧
        state.heap.checkAllocations kheap = some .success := by
  intro hclaim
  have hrun : ((run (step kheap) .initial mallocWrapped).any
      fun r => decide (r.2.heap = ⟨[⟨0x100000, 1, [⟨0x101000, 0x100000, 0x1ff000, .fresh⟩], .fresh⟩],
        [⟨0x101064, 0x100000, 0xffffff9c, 100, .fresh⟩]⟩)) = true := by
    decide +kernel
  obtain ⟨⟨answers, last⟩, hlast, hheap⟩ := (Option.any_eq_true _ _).mp hrun
  have htiled := (hclaim last
    (reachable_of_run (reachable_of_init rfl) (by decide +kernel) hlast)).1
  rw [of_decide_eq_true hheap] at htiled
  have htiles := (htiled _ (mem_singleton_self _)).tiles
  -- the span of the allocation has `2 ^ 32` bytes
  have hspan : ((0x101000, 0x100000000) : Span) ∈ ([(0x101000, 0x1ff000)] : Multiset Span) +
      ([(0x101000, 0x100000000)] : Multiset Span) := by
    simp
  have hlast := (htiles.bounds hspan (by decide)).2
  simp [kheap] at hlast

end

end Zambesii.HeapTiling
