import Zambesii.VaddrSpaceStream

/-!
What is free in the address space of a process: the blocks in the swamp's list and the pages in
the page cache. A request cuts its pages off the first block that is long enough, so that the
rest of the block takes them back when they are released at once. When nothing was left of the
block they are taken back only next to another block or with a new node.
-/

namespace Zambesii.VaddrSpaceReturn

open KernelTypes LinkedCells List Tiling VSwamp
open VaddrSpaceStream
open Multiset (cons_add mem_add nodup_add)

def blocksFrom (mem : Memory SwampInfoNode) : (fuel : Nat) → (node : Ptr) → List SwampInfoNode
  | 0, _ => []
  | fuel + 1, node =>
    if node = 0 then []
    else
      match mem node with
      | none => []
      | some cell => cell.payload :: blocksFrom mem fuel cell.next

def freeBlocks (swamp : SwampState) : List SwampInfoNode :=
  blocksFrom swamp.mem nodeLimit swamp.head

def Free (stream : VaddrSpaceStream) (address : Nat) : Prop :=
  (∃ block ∈ freeBlocks stream.swamp, address ∈ units (pageSpan block.range)) ∨
    ∃ vaddr ∈ stream.pageCache, address ∈ units (pageSpan (vaddr, stackcacheStack1Size))

/-- A request for `nPages` pages finds some. -/
def FindsRange (stream : VaddrSpaceStream) (nPages : Nat) : Prop :=
  nPages = stackcacheStack1Size ∧ stream.pageCache ≠ [] ∨
    ∃ block ∈ freeBlocks stream.swamp, nPages ≤ block.nPages

/-- The pages that a request for `nPages` pages gets can be given back: a single page goes to
the page cache, and more pages go back to the block they were cut off. When that block is
used up the swamp needs another one: that starts where the pages end, or with a new node. -/
def GoesBack (stream : VaddrSpaceStream) (nPages : Nat) (newNode : Option Ptr) : Prop :=
  nPages = stackcacheStack1Size ∨
    ∀ front block back, freeBlocks stream.swamp = front ++ block :: back →
      (∀ other ∈ front, other.nPages < nPages) → block.nPages = nPages →
        front ++ back ≠ [] ∧ (newNode.isSome = true ∨ ∃ next ∈ front ++ back,
          block.baseAddr + nPages * pagingBaseSize = next.baseAddr)

theorem blocksFrom_linked {mem : Memory SwampInfoNode} {start : Ptr}
    {cells : List (Ptr × SwampInfoNode)} {fuel : Nat} (h : Linked mem 0 start cells)
    (hnonnull : 0 ∉ cells.map Prod.fst) (hfuel : cells.length ≤ fuel) :
    blocksFrom mem fuel (headPtr 0 cells) = cells.map Prod.snd := by
  induction cells generalizing start fuel with
  | nil => cases fuel <;> simp [blocksFrom, headPtr]
  | cons cell rest ih =>
    obtain ⟨fuel, rfl⟩ : ∃ n, fuel = n + 1 := ⟨fuel - 1, by simp at hfuel; omega⟩
    simp only [map_cons, mem_cons, not_or] at hnonnull
    have hcell := h.1
    have hrest := ih h.2 hnonnull.2 (by simpa using hfuel)
    have hne : cell.1 ≠ 0 := Ne.symm hnonnull.1
    have hhead : headPtr 0 (cell :: rest) = cell.1 := rfl
    rw [hhead, blocksFrom, if_neg hne, hcell]
    dsimp only
    rw [hrest, map_cons]

theorem first_unique {front front' back back' : List SwampInfoNode} {block block' : SwampInfoNode}
    {nPages : Nat} (h : front ++ block :: back = front' ++ block' :: back')
    (hfront : ∀ other ∈ front, other.nPages < nPages) (hblock : nPages ≤ block.nPages)
    (hfront' : ∀ other ∈ front', other.nPages < nPages) (hblock' : nPages ≤ block'.nPages) :
    front = front' ∧ block = block' ∧ back = back' := by
  induction front generalizing front' with
  | nil =>
    cases front' with
    | nil => simpa using h
    | cons first rest =>
      obtain ⟨rfl, -⟩ := cons.inj h
      exact absurd (hfront' block mem_cons_self) (by omega)
  | cons first rest ih =>
    cases front' with
    | nil =>
      obtain ⟨rfl, -⟩ := cons.inj h
      exact absurd (hfront first mem_cons_self) (by omega)
    | cons first' rest' =>
      obtain ⟨rfl, hrest⟩ := cons.inj h
      obtain ⟨rfl, rfl, rfl⟩ := ih hrest
        (fun other hother => hfront other (mem_cons_of_mem _ hother))
        (fun other hother => hfront' other (mem_cons_of_mem _ hother))
      exact ⟨rfl, rfl, rfl⟩

section

variable {config : SwampConfig} {swamp : SwampState} {tail : Ptr} {live : Multiset (Nat × Nat)}
  {cells : List (Ptr × SwampInfoNode)}

variable (h : Partition config (withTail swamp tail) live cells)

include h

theorem freeBlocks_eq : freeBlocks swamp = cells.map Prod.snd := by
  have hblocks := blocksFrom_linked h.describes.linked h.describes.nonnull h.length_le
  rw [← h.describes.head_eq] at hblocks
  exact hblocks

theorem getPages_block (nPages : Nat) :
    (VSwamp.getPages config.initSwampNode swamp nPages = some (0, swamp) ∧
      ∀ cell ∈ cells, cell.2.nPages < nPages) ∨
    ∃ front cell back next tail', cells = front ++ cell :: back ∧
      (∀ other ∈ front, other.2.nPages < nPages) ∧ nPages ≤ cell.2.nPages ∧ cell.2.baseAddr ≠ 0 ∧
      VSwamp.getPages config.initSwampNode swamp nPages = some (cell.2.baseAddr, next) ∧
      Partition config (withTail next tail') ((cell.2.baseAddr, nPages) ::ₘ live)
        (front ++ remainder cell nPages ++ back) := by
  rcases h.describes.seek_cases (fun node => decide (nPages ≤ node.nPages)) h.length_le with
    ⟨hseek, hnone⟩ | ⟨front, cell, back, rfl, hfirst, htest, hseek⟩
  · refine .inl ⟨?_, ?_⟩
    · have hseek' : seek swamp.mem (fun node => decide (nPages ≤ node.nPages)) nodeLimit
          swamp.head = some 0 := hseek
      simp [VSwamp.getPages, hseek']
    · intro cell hcell
      have hsmall := hnone cell hcell
      simpa using hsmall
  have hpages : nPages ≤ cell.2.nPages := by simpa using htest
  obtain ⟨next, hget, hdescribes⟩ := VSwamp.getPages_found config.initSwampNode h.describes hseek
  obtain ⟨tail', hget'⟩ := getPages_withTail hget swamp.tail
  have hbounds := h.free_bounds (by simp : cell ∈ front ++ cell :: back)
  have hne : cell.2.baseAddr ≠ 0 := by
    have hconfig := config.baseAddr_ne
    omega
  refine .inr ⟨front, cell, back, withTail next tail', next.tail, rfl, ?_, hpages, hne, hget',
    h.getPages_found rfl hpages hdescribes⟩
  intro other hother
  have hsmall := hfirst other hother
  simpa using hsmall

/-- The swamp takes the range back: there is a block, and it is the one that starts where the
range ends or there is a new node. -/
def TakesBack (cells : List (Ptr × SwampInfoNode)) (vaddr nPages : Nat) (newNode : Option Ptr) :
    Prop :=
  cells ≠ [] ∧ (newNode.isSome = true ∨
    ∃ cell ∈ cells, vaddr + nPages * pagingBaseSize = cell.2.baseAddr)

theorem releaseToSwamp_cases
    {vaddr nPages : Nat} {newNode : Option Ptr} (hlive : (vaddr, nPages) ∈ live)
    (hpages : 0 < nPages) (hfresh : ∀ node ∈ newNode, node ≠ 0 ∧ swamp.mem node = none) :
    ∃ next, releaseToSwamp config.initSwampNode swamp vaddr nPages newNode = some next ∧
      (TakesBack cells vaddr nPages newNode → SwampHolds config next (live.erase (vaddr, nPages))) ∧
      (¬ TakesBack cells vaddr nPages newNode → SwampHolds config next live) := by
  cases newNode with
  | none =>
    obtain ⟨next, hrelease, hlost, hback, -⟩ := releasePagesNoNode_cases h hlive
    refine ⟨next, hrelease, ?_, ?_⟩
    · intro htakes
      exact hback hpages (htakes.2.resolve_left (by simp))
    · intro htakes
      refine hlost fun cell hcell hnext => htakes ⟨?_, .inr ⟨cell, hcell, hnext⟩⟩
      exact ne_nil_of_mem hcell
  | some node =>
    obtain ⟨hnull, hnone⟩ := hfresh node rfl
    rcases eq_or_ne cells [] with rfl | hcells
    · have hhead : swamp.head = 0 := h.describes.head_eq
      exact ⟨swamp, releasePages_of_head_eq_zero _ node hhead vaddr nPages,
        fun htakes => absurd rfl htakes.1, fun _ => ⟨tail, [], h⟩⟩
    have hhead : swamp.head ≠ 0 := fun hzero => hcells (h.describes.head_eq_zero_iff.mp hzero)
    obtain ⟨next, cells', hstep, hnext, -⟩ :=
      step_releasePages h hlive hnull hnone (.inr hhead)
    obtain ⟨state, hrelease, heq⟩ := Option.map_eq_some_iff.mp hstep
    obtain ⟨-, rfl⟩ := Prod.mk.inj heq
    obtain ⟨tail', hrelease'⟩ := releasePages_withTail hrelease swamp.tail
    exact ⟨withTail state tail', hrelease', fun _ => ⟨state.tail, cells', hnext⟩,
      fun htakes => absurd ⟨hcells, .inl rfl⟩ htakes⟩

theorem takesBack_iff {front back : List (Ptr × SwampInfoNode)} {cell : Ptr × SwampInfoNode}
    (hcells : cells = front ++ cell :: back) {nPages : Nat}
    (hfront : ∀ other ∈ front, other.2.nPages < nPages) (hpages : nPages ≤ cell.2.nPages)
    (hmany : nPages ≠ stackcacheStack1Size) (pageCache : List Nat) (newNode : Option Ptr) :
    TakesBack (front ++ remainder cell nPages ++ back) cell.2.baseAddr nPages newNode ↔
      GoesBack ⟨pageCache, swamp⟩ nPages newNode := by
  have hblocks : freeBlocks swamp = front.map Prod.snd ++ cell.2 :: back.map Prod.snd := by
    rw [freeBlocks_eq h, hcells, map_append, map_cons]
  have hfront' : ∀ other ∈ front.map Prod.snd, other.nPages < nPages := by
    intro other hother
    obtain ⟨cell', hcell', rfl⟩ := mem_map.mp hother
    exact hfront cell' hcell'
  unfold GoesBack
  rw [or_iff_right hmany]
  simp only [hblocks]
  rcases eq_or_ne cell.2.nPages nPages with hexact | hmore
  · have hnone : remainder cell nPages = [] := if_pos (by omega)
    rw [hnone, append_nil]
    have hwhole : TakesBack (front ++ back) cell.2.baseAddr nPages newNode ↔
        front.map Prod.snd ++ back.map Prod.snd ≠ [] ∧ (newNode.isSome = true ∨
          ∃ next ∈ front.map Prod.snd ++ back.map Prod.snd,
            cell.2.baseAddr + nPages * pagingBaseSize = next.baseAddr) := by
      simp only [TakesBack, ← map_append, ne_eq, map_eq_nil_iff, mem_map,
        exists_exists_and_eq_and]
    rw [hwhole]
    constructor
    · intro hback front' block back' heq hfront'' hblock
      obtain ⟨rfl, rfl, rfl⟩ := first_unique heq hfront' (by omega) hfront'' (by omega)
      exact hback
    · intro hall
      exact hall _ _ _ rfl hfront' hexact
  have hsome : remainder cell nPages = [(cell.1,
      ⟨(cell.2.baseAddr + nPages * pagingBaseSize) % wordModulus, cell.2.nPages - nPages⟩)] :=
    if_neg (by omega)
  have hbounds := h.free_bounds (by simp [hcells] : cell ∈ cells)
  have hmod : (cell.2.baseAddr + nPages * pagingBaseSize) % wordModulus =
      cell.2.baseAddr + nPages * pagingBaseSize := by
    apply Nat.mod_eq_of_lt
    have hle : nPages * pagingBaseSize ≤ cell.2.nPages * pagingBaseSize :=
      Nat.mul_le_mul_right _ hpages
    omega
  rw [hsome, hmod]
  constructor
  · rintro - front' block back' heq hfront'' hblock
    obtain ⟨-, rfl, -⟩ := first_unique heq hfront' (by omega) hfront'' (by omega)
    exact absurd hblock hmore
  · intro _
    exact ⟨by simp, .inr ⟨(cell.1, ⟨_, cell.2.nPages - nPages⟩), by simp, rfl⟩⟩

omit h

end

section

variable {config : SwampConfig} {stream : VaddrSpaceStream} {out : Multiset (Nat × Nat)}

variable (h : SwampHolds config stream.swamp (out + singles stream.pageCache))

include h

theorem free_iff (address : Nat) : Free stream address ↔ (config.baseAddr ≤ address ∧
      address < config.baseAddr + config.nPages * pagingBaseSize) ∧
      address ∉ cover (out.map pageSpan) := by
  obtain ⟨tail, cells, hpartition⟩ := h
  have htiles : cover (freeSpans cells) + (cover (out.map pageSpan) +
      cover ((singles stream.pageCache).map pageSpan)) =
        Multiset.Ico config.baseAddr (config.baseAddr + config.nPages * pagingBaseSize) := by
    rw [← cover_add, ← Multiset.map_add, ← cover_add]
    exact hpartition.tiles
  have hfree : Free stream address ↔ address ∈ cover (freeSpans cells) ∨
      address ∈ cover ((singles stream.pageCache).map pageSpan) := by
    unfold Free
    rw [freeBlocks_eq hpartition, mem_cover, mem_cover]
    simp only [freeSpans, singles, Multiset.map_coe, Multiset.mem_coe, mem_map,
      exists_exists_and_eq_and]
  have hnodup := htiles ▸ Multiset.nodup_Ico
  obtain ⟨-, hrest, hapart⟩ := nodup_add.mp hnodup
  have hapart' := (nodup_add.mp hrest).2.2
  rw [hfree, ← Multiset.mem_Ico, ← htiles, mem_add, mem_add]
  constructor
  · rintro (hblock | hcached)
    · exact ⟨.inl hblock, fun hout => Multiset.disjoint_left.mp hapart hblock
        (mem_add.mpr (.inl hout))⟩
    · exact ⟨.inr (.inr hcached), fun hout => Multiset.disjoint_left.mp hapart' hout hcached⟩
  · rintro ⟨hblock | hout | hcached, hnot⟩
    · exact .inl hblock
    · exact absurd hout hnot
    · exact .inr hcached

theorem free_congr {last : VaddrSpaceStream}
    (hlast : SwampHolds config last.swamp (out + singles last.pageCache)) (address : Nat) :
    Free last address ↔ Free stream address := by
  rw [free_iff hlast, free_iff h]

theorem free_of_taken {last : VaddrSpaceStream} {range : Nat × Nat} {address : Nat}
    (hlast : SwampHolds config last.swamp (range ::ₘ out + singles last.pageCache))
    (haddress : address ∈ units (pageSpan range)) : Free stream address ∧ ¬ Free last address := by
  rw [free_iff h, free_iff hlast, Multiset.map_cons, cover_cons, mem_add]
  obtain ⟨tail, cells, hpartition⟩ := hlast
  have htiles : cover (freeSpans cells) + (units (pageSpan range) + (cover (out.map pageSpan) +
      cover ((singles last.pageCache).map pageSpan))) =
        Multiset.Ico config.baseAddr (config.baseAddr + config.nPages * pagingBaseSize) := by
    rw [← cover_add, ← Multiset.map_add, ← cover_cons, ← Multiset.map_cons, ← cover_add,
      ← cons_add]
    exact hpartition.tiles
  have hnodup := htiles ▸ Multiset.nodup_Ico
  obtain ⟨-, hrest, -⟩ := nodup_add.mp hnodup
  have hapart := (nodup_add.mp hrest).2.2
  have hmem : address ∈ Multiset.Ico config.baseAddr
      (config.baseAddr + config.nPages * pagingBaseSize) := by
    rw [← htiles, mem_add, mem_add]
    exact .inr (.inl haddress)
  refine ⟨⟨Multiset.mem_Ico.mp hmem, ?_⟩, fun hnot => hnot.2 (.inl haddress)⟩
  intro hout
  exact Multiset.disjoint_left.mp hapart haddress (mem_add.mpr (.inl hout))

theorem getPages_cases (nPages : Nat) :
    ¬ FindsRange stream nPages ∧ getPages config.initSwampNode stream nPages = some (0, stream) ∨
    FindsRange stream nPages ∧ ∃ vaddr next, vaddr ≠ 0 ∧
      getPages config.initSwampNode stream nPages = some (vaddr, next) ∧
      SwampHolds config next.swamp ((vaddr, nPages) ::ₘ out + singles next.pageCache) ∧
      (nPages = stackcacheStack1Size → next.pageCache.length ≤ stream.pageCache.length - 1) ∧
      (nPages ≠ stackcacheStack1Size → next.pageCache = stream.pageCache ∧
        ∃ tail cells, Partition config (withTail next.swamp tail)
          ((vaddr, nPages) ::ₘ (out + singles stream.pageCache)) cells ∧
          ∀ newNode, TakesBack cells vaddr nPages newNode ↔ GoesBack stream nPages newNode) := by
  unfold VaddrSpaceStream.getPages
  cases hpop : stackCachePop stream.pageCache nPages with
  | some popped =>
    obtain ⟨vaddr, rest⟩ := popped
    unfold stackCachePop at hpop
    split at hpop
    · rename_i item rest' hcache
      split at hpop
      · rename_i hcategory
        obtain ⟨rfl, rfl⟩ := Prod.mk.inj (Option.some.inj hpop)
        have hmove : out + singles stream.pageCache = (item, nPages) ::ₘ out + singles rest' := by
          rw [hcache, hcategory, singles_cons, Multiset.add_cons, cons_add]
        have hnext : Holds config ⟨rest', stream.swamp⟩ ((item, nPages) ::ₘ out) :=
          ⟨0, by rw [add_zero, ← hmove]; exact h⟩
        have hne := (hnext.bounds (Multiset.mem_cons_self _ _)
          (by simp [hcategory, stackcacheStack1Size])).2.1
        refine .inr ⟨.inl ⟨hcategory, by simp [hcache]⟩, item, ⟨rest', stream.swamp⟩, hne,
          rfl, ?_, ?_, fun hmany => absurd hcategory hmany⟩
        · rw [← hmove]
          exact h
        · intro _
          simp [hcache]
      · contradiction
    · contradiction
  | none =>
    have hcached : ¬ (nPages = stackcacheStack1Size ∧ stream.pageCache ≠ []) := by
      rintro ⟨rfl, hcache⟩
      obtain ⟨item, rest, hcons⟩ := exists_cons_of_ne_nil hcache
      simp [stackCachePop, hcons] at hpop
    obtain ⟨tail, cells, hpartition⟩ := h
    have hfinds : FindsRange stream nPages ↔ ∃ cell ∈ cells, nPages ≤ cell.2.nPages := by
      unfold FindsRange
      rw [or_iff_right hcached, freeBlocks_eq hpartition]
      simp only [mem_map, exists_exists_and_eq_and]
    rw [hfinds]
    rcases getPages_block hpartition nPages with ⟨hget, hsmall⟩ |
      ⟨front, cell, back, next, tail', rfl, hfront, hpages, hne, hget, hnext⟩
    · refine .inl ⟨?_, by rw [hget]; rfl⟩
      rintro ⟨cell, hcell, hle⟩
      have hlt := hsmall cell hcell
      omega
    refine .inr ⟨⟨cell, by simp, hpages⟩, cell.2.baseAddr, ⟨stream.pageCache, next⟩, hne,
      by rw [hget]; rfl, ?_, ?_, ?_⟩
    · rw [cons_add]
      exact ⟨tail', _, hnext⟩
    · intro hone
      have hempty : stream.pageCache = [] := by
        rcases eq_or_ne stream.pageCache [] with hnil | hnil
        · exact hnil
        · exact absurd ⟨hone, hnil⟩ hcached
      simp [hempty]
    · intro hmany
      exact ⟨rfl, tail', _, hnext, takesBack_iff hpartition rfl hfront hpages hmany
        stream.pageCache⟩

theorem releasePages_free_iff
    (hcache : stream.pageCache.length ≤ cachestackMaxNItems) {nPages vaddr : Nat}
    (hpages : 0 < nPages) {next : VaddrSpaceStream} (hne : vaddr ≠ 0)
    (hget : getPages config.initSwampNode stream nPages = some (vaddr, next))
    {newNode : Option Ptr} (hfresh : ∀ node ∈ newNode, node ≠ 0 ∧ next.swamp.mem node = none) :
    ∃ last, releasePages config.initSwampNode next vaddr nPages newNode = some last ∧
      ((∀ address, Free last address ↔ Free stream address) ↔ GoesBack stream nPages newNode) := by
  rcases getPages_cases h nPages with ⟨-, hget'⟩ |
    ⟨-, vaddr', next', -, hget', hholds, hone, hmany⟩
  · rw [hget] at hget'
    exact absurd (Prod.mk.inj (Option.some.inj hget')).1 hne
  rw [hget] at hget'
  cases hget'
  unfold VaddrSpaceStream.releasePages stackCachePush
  rcases eq_or_ne nPages stackcacheStack1Size with rfl | hmore
  · have hroom : next.pageCache.length ≠ cachestackMaxNItems := by
      simp only [cachestackMaxNItems, pagingBaseSize] at hcache ⊢
      omega
    rw [if_pos ⟨rfl, hroom⟩]
    refine ⟨_, rfl, iff_of_true (free_congr h ?_) (Or.inl rfl)⟩
    rw [singles_cons, Multiset.add_cons, ← cons_add]
    exact hholds
  rw [if_neg fun hcond => hmore hcond.1]
  obtain ⟨hsame, tail, cells, hpartition, htakes⟩ := hmany hmore
  obtain ⟨swamp, hrelease, hback, hlost⟩ := releaseToSwamp_cases hpartition
    (Multiset.mem_cons_self _ _) hpages hfresh
  rw [htakes, Multiset.erase_cons_head] at hback
  rw [htakes] at hlost
  refine ⟨⟨next.pageCache, swamp⟩, by rw [hrelease]; rfl, ?_⟩
  rcases em (GoesBack stream nPages newNode) with hgoes | hgoes
  · refine iff_of_true (free_congr h ?_) hgoes
    rw [hsame]
    exact hback hgoes
  refine iff_of_false ?_ hgoes
  intro hfree
  have hlast : SwampHolds config swamp ((vaddr, nPages) ::ₘ out + singles next.pageCache) := by
    rw [hsame, cons_add]
    exact hlost hgoes
  have hspan : vaddr ∈ units (pageSpan (vaddr, nPages)) :=
    mem_units.mpr ⟨Nat.le_refl _, Nat.lt_add_of_pos_right (pageSpan_length_pos hpages)⟩
  have hlast' : SwampHolds config (VaddrSpaceStream.mk next.pageCache swamp).swamp
      ((vaddr, nPages) ::ₘ out + singles next.pageCache) := hlast
  obtain ⟨hbefore, hafter⟩ := free_of_taken h hlast' hspan
  exact hafter ((hfree vaddr).mpr hbefore)

omit h

end

end Zambesii.VaddrSpaceReturn
