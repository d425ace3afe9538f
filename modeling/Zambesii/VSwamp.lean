import Mathlib.Algebra.BigOperators.Ring.Multiset
import Mathlib.Tactic.Abel
import Zambesii.KernelTypes
import Zambesii.LinkedCells
import Zambesii.Runs
import Zambesii.Tiling

/-!
`VSwamp`: the allocator of a process's virtual pages. Its free pages are a
doubly linked list of `SwampInfoNode`s; the first node is a member of the swamp
object and is never given back to the node cache.
-/

namespace Zambesii.VSwamp

open KernelTypes LinkedCells List Runs Tiling
open Multiset (add_cons mem_map_of_mem)

structure SwampInfoNode where
  baseAddr : Nat
  nPages : Nat
deriving DecidableEq

/-- `sSwampState` and the memory its nodes live in. -/
structure SwampState where
  mem : Memory SwampInfoNode
  head : Ptr
  tail : Ptr

/-- What the constructor is given by its callers and `initialize` checks: a page
aligned, non-null, non-empty range that does not wrap. `initSwampNode` is the
address of the member node. -/
structure SwampConfig where
  baseAddr : Nat
  nPages : Nat
  initSwampNode : Ptr
  aligned : pagingBaseSize ∣ baseAddr
  baseAddr_ne : baseAddr ≠ 0
  nPages_pos : 0 < nPages
  no_wrap : baseAddr + nPages * pagingBaseSize < wordModulus
  initSwampNode_ne : initSwampNode ≠ 0

inductive InsertStatus
  | insertBefore
  | insertAfter
deriving DecidableEq

/-- More nodes than this do not fit into the 32-bit page range, so a walk that
takes more steps does not end. -/
def nodeLimit : Nat := 2 ^ 20

def initialState (config : SwampConfig) : SwampState where
  mem := store (fun _ => none) config.initSwampNode ⟨⟨config.baseAddr, config.nPages⟩, 0, 0⟩
  head := config.initSwampNode
  tail := config.initSwampNode

def deleteSwampNode (initSwampNode : Ptr) (mem : Memory SwampInfoNode) (node : Ptr) :
    Option (Memory SwampInfoNode) :=
  if node = 0 then some mem
  else do
    let cell ← mem node
    let mem ← setPrevIfAny mem cell.next cell.prev
    let mem ← setNextIfAny mem cell.prev cell.next
    -- The member node is not the cache's to free.
    if node = initSwampNode then some mem else some (release mem node)

/-- `getPages`: the address returned, `0` for a null pointer. -/
def getPages (initSwampNode : Ptr) (state : SwampState) (nPages : Nat) :
    Option (Nat × SwampState) := do
  let currentNode ← seek state.mem (fun node => decide (nPages ≤ node.nPages)) nodeLimit state.head
  if currentNode = 0 then some (0, state)
  else
    let cell ← state.mem currentNode
    let left := cell.payload.nPages - nPages
    let mem ← setPayload state.mem currentNode
      ⟨(cell.payload.baseAddr + nPages * pagingBaseSize) % wordModulus, left⟩
    if left = 0 then
      let head := if currentNode = state.head then cell.next else state.head
      let tail := if currentNode = state.tail then cell.prev else state.tail
      let mem ← deleteSwampNode initSwampNode mem currentNode
      some (cell.payload.baseAddr, ⟨mem, head, tail⟩)
    else some (cell.payload.baseAddr, ⟨mem, state.head, state.tail⟩)

/-- `findInsertionNode`, with `altNode` the node visited last. -/
def findInsertionNode (mem : Memory SwampInfoNode) (vaddr : Nat) :
    Nat → Ptr → Ptr → Option (Ptr × InsertStatus)
  | 0, altNode, currentNode => if currentNode = 0 then some (altNode, .insertAfter) else none
  | fuel + 1, altNode, currentNode =>
    if currentNode = 0 then some (altNode, .insertAfter)
    else
      match mem currentNode with
      | none => none
      | some cell =>
        if vaddr < cell.payload.baseAddr then some (currentNode, .insertBefore)
        else findInsertionNode mem vaddr fuel currentNode cell.next

/-- `releasePages`. `newNode` is what the node cache returns when the release needs
a new node. -/
def releasePages (initSwampNode : Ptr) (state : SwampState) (vaddr nPages : Nat)
    (newNode : Ptr) : Option SwampState :=
  if vaddr = 0 ∨ vaddr % pagingBaseSize ≠ 0 ∨ nPages = 0 then some state
  else do
    let (insertionNode, status) ← findInsertionNode state.mem vaddr nodeLimit 0 state.head
    if insertionNode = 0 then some state
    else
      match status with
      | .insertBefore =>
        let cell ← state.mem insertionNode
        if (vaddr + nPages * pagingBaseSize) % wordModulus = cell.payload.baseAddr then
          let joined := (cell.payload.nPages + nPages) % wordModulus
          let mem ← setPayload state.mem insertionNode ⟨vaddr, joined⟩
          if cell.prev = 0 then some ⟨mem, state.head, state.tail⟩
          else
            let prevCell ← mem cell.prev
            if (prevCell.payload.baseAddr + prevCell.payload.nPages * pagingBaseSize) %
                wordModulus = vaddr then
              let mem ← setPayload mem insertionNode
                ⟨prevCell.payload.baseAddr, (joined + prevCell.payload.nPages) % wordModulus⟩
              let head := if cell.prev = state.head then insertionNode else state.head
              let mem ← deleteSwampNode initSwampNode mem cell.prev
              some ⟨mem, head, state.tail⟩
            else some ⟨mem, state.head, state.tail⟩
        else
          let mem := store state.mem newNode ⟨⟨vaddr, nPages⟩, cell.prev, insertionNode⟩
          let mem ← setPrev mem insertionNode newNode
          if cell.prev = 0 then some ⟨mem, newNode, state.tail⟩
          else
            let mem ← setNext mem cell.prev newNode
            some ⟨mem, state.head, state.tail⟩
      | .insertAfter =>
        if state.head = 0 then
          -- Never taken: an empty list has already returned above.
          some ⟨store state.mem initSwampNode ⟨⟨vaddr, nPages⟩, 0, 0⟩, initSwampNode, initSwampNode⟩
        else
          let mem := store state.mem newNode ⟨⟨vaddr, nPages⟩, insertionNode, 0⟩
          let mem ← setNext mem insertionNode newNode
          some ⟨mem, state.head, newNode⟩

theorem deleteSwampNode_spec (initSwampNode : Ptr) {mem : Memory SwampInfoNode} {head tail : Ptr}
    {front back : List (Ptr × SwampInfoNode)} {cell : Ptr × SwampInfoNode}
    (h : Describes mem head tail (front ++ cell :: back)) :
    ∃ mem', deleteSwampNode initSwampNode mem cell.1 = some mem' ∧
      Describes mem' (headPtr 0 (front ++ back)) (lastPtr 0 (front ++ back)) (front ++ back) := by
  have hne : cell.1 ≠ 0 := fun hzero => h.nonnull (by simp [← hzero])
  obtain ⟨mem', mem'', hprev, hnext, hunlinked⟩ := h.unlink
  refine ⟨if cell.1 = initSwampNode then mem'' else release mem'' cell.1, ?_, hunlinked _ ?_⟩
  · simp only [deleteSwampNode, hne, if_false, h.cell, some_bind, hprev, hnext]
    split <;> rfl
  · intro address haddress
    split
    · rfl
    · simp [release, haddress]

def remainder (cell : Ptr × SwampInfoNode) (nPages : Nat) : List (Ptr × SwampInfoNode) :=
  if cell.2.nPages - nPages = 0 then []
  else [(cell.1, ⟨(cell.2.baseAddr + nPages * pagingBaseSize) % wordModulus,
    cell.2.nPages - nPages⟩)]

theorem getPages_found (initSwampNode : Ptr) {state : SwampState} {nPages : Nat}
    {front back : List (Ptr × SwampInfoNode)} {cell : Ptr × SwampInfoNode}
    (h : Describes state.mem state.head state.tail (front ++ cell :: back))
    (hseek : seek state.mem (fun node => decide (nPages ≤ node.nPages)) nodeLimit state.head =
      some cell.1) :
    ∃ state', getPages initSwampNode state nPages = some (cell.2.baseAddr, state') ∧
      Describes state'.mem state'.head state'.tail (front ++ remainder cell nPages ++ back) := by
  have hne : cell.1 ≠ 0 := fun hzero => h.nonnull (by simp [← hzero])
  have hassign := h.assign
    ⟨(cell.2.baseAddr + nPages * pagingBaseSize) % wordModulus, cell.2.nPages - nPages⟩
  by_cases hleft : cell.2.nPages - nPages = 0
  · obtain ⟨mem', hdelete, hunlinked⟩ := deleteSwampNode_spec initSwampNode hassign
    have hhead : (if cell.1 = state.head then headPtr 0 back else state.head) =
        headPtr 0 (front ++ back) := by
      cases front with
      | nil => rw [if_pos (h.head_eq_cell_iff.mpr rfl).symm]; rfl
      | cons first rest =>
        rw [if_neg fun heq => by simpa using h.head_eq_cell_iff.mp heq.symm, h.head_eq]
        rfl
    have htail : (if cell.1 = state.tail then lastPtr 0 front else state.tail) =
        lastPtr 0 (front ++ back) := by
      rw [lastPtr_append]
      cases back with
      | nil => rw [if_pos (h.tail_eq_cell_iff.mpr rfl).symm]; rfl
      | cons next rest =>
        rw [if_neg fun heq => by simpa using h.tail_eq_cell_iff.mp heq.symm, h.tail_eq,
          lastPtr_append]
        rfl
    refine ⟨⟨mem', headPtr 0 (front ++ back), lastPtr 0 (front ++ back)⟩, ?_, ?_⟩
    · simp only [getPages, hseek, some_bind, hne, if_false, h.cell,
        setPayload_of_some h.cell, hleft, if_true]
      rw [hleft] at hdelete
      rw [hdelete, some_bind, hhead, htail]
    · rw [remainder, if_pos hleft, append_nil]
      exact hunlinked
  · refine ⟨⟨withPayload state.mem cell.1 ⟨(cell.2.baseAddr + nPages * pagingBaseSize) %
      wordModulus, cell.2.nPages - nPages⟩, state.head, state.tail⟩, ?_, ?_⟩
    · simp only [getPages, hseek, some_bind, hne, if_false, h.cell,
        setPayload_of_some h.cell, hleft]
    · rw [remainder, if_neg hleft, append_assoc]
      exact hassign

theorem findInsertionNode_linked {mem : Memory SwampInfoNode} {start : Ptr}
    {cells : List (Ptr × SwampInfoNode)} {fuel : Nat} (vaddr : Nat) (altNode : Ptr)
    (h : Linked mem 0 start cells) (hnonnull : 0 ∉ cells.map Prod.fst)
    (hfuel : cells.length ≤ fuel) : ((∀ cell ∈ cells, cell.2.baseAddr ≤ vaddr) ∧
        findInsertionNode mem vaddr fuel altNode (headPtr 0 cells) =
          some (lastPtr altNode cells, .insertAfter)) ∨
      ∃ front cell back, cells = front ++ cell :: back ∧
        (∀ other ∈ front, other.2.baseAddr ≤ vaddr) ∧ vaddr < cell.2.baseAddr ∧
        findInsertionNode mem vaddr fuel altNode (headPtr 0 cells) =
          some (cell.1, .insertBefore) := by
  induction cells generalizing start altNode fuel with
  | nil =>
    left
    cases fuel <;> simp [findInsertionNode, headPtr, lastPtr]
  | cons cell rest ih =>
    obtain ⟨fuel, rfl⟩ : ∃ n, fuel = n + 1 := ⟨fuel - 1, by simp at hfuel; omega⟩
    simp only [map_cons, mem_cons, not_or] at hnonnull
    have hne : cell.1 ≠ 0 := Ne.symm hnonnull.1
    have hcell := h.1
    rcases lt_or_ge vaddr cell.2.baseAddr with hlt | hge
    · right
      refine ⟨[], cell, rest, rfl, by simp, hlt, ?_⟩
      simp [findInsertionNode, headPtr, hne, hcell, hlt]
    have hstep : findInsertionNode mem vaddr (fuel + 1) altNode (headPtr 0 (cell :: rest)) =
        findInsertionNode mem vaddr fuel cell.1 (headPtr 0 rest) := by
      simp [findInsertionNode, headPtr, hne, hcell, Nat.not_lt.mpr hge]
    rw [hstep]
    rcases ih cell.1 h.2 hnonnull.2 (by simpa using hfuel) with
      ⟨hall, heq⟩ | ⟨front, found, back, rfl, hfront, hfound, heq⟩
    · left
      exact ⟨by simpa [hge] using hall, heq⟩
    · right
      exact ⟨cell :: front, found, back, rfl, by simpa [hge] using hfront, hfound, heq⟩

section

variable (initSwampNode newNode : Ptr) {state : SwampState} {vaddr nPages : Nat}
  {front back : List (Ptr × SwampInfoNode)} {cell : Ptr × SwampInfoNode}

theorem releasePages_append {cells : List (Ptr × SwampInfoNode)}
    (h : Describes state.mem state.head state.tail cells) (hcells : cells ≠ [])
    (hargs : ¬ (vaddr = 0 ∨ vaddr % pagingBaseSize ≠ 0 ∨ nPages = 0))
    (hfind : findInsertionNode state.mem vaddr nodeLimit 0 state.head =
      some (lastPtr 0 cells, .insertAfter))
    (hnull : newNode ≠ 0) (hfresh : newNode ∉ cells.map Prod.fst) :
    ∃ state', releasePages initSwampNode state vaddr nPages newNode = some state' ∧
      Describes state'.mem state'.head state'.tail (cells ++ [(newNode, ⟨vaddr, nPages⟩)]) := by
  have h' : Describes state.mem state.head state.tail (cells ++ []) := by simpa using h
  have hlastNe : lastPtr 0 cells ≠ 0 := fun hzero => hcells (h'.lastPtr_front_eq_zero_iff.mp hzero)
  have hheadNe : state.head ≠ 0 := fun hzero => hcells (h.head_eq_zero_iff.mp hzero)
  obtain ⟨c, hc⟩ := linked_lastPtr_some h.linked hcells 0
  have hne : lastPtr 0 cells ≠ newNode := by
    rcases lastPtr_eq_or_mem 0 cells with hlast | hlast
    · exact absurd hlast hlastNe
    · exact fun heq => hfresh (heq ▸ hlast)
  have hc' : store state.mem newNode ⟨⟨vaddr, nPages⟩, lastPtr 0 cells, 0⟩ (lastPtr 0 cells) =
      some c := by
    rw [store_of_ne hne, hc]
  refine ⟨⟨withNext (store state.mem newNode ⟨⟨vaddr, nPages⟩, lastPtr 0 cells, 0⟩)
    (lastPtr 0 cells) newNode, state.head, newNode⟩, ?_, ?_⟩
  · simp only [releasePages, hargs, if_false, hfind, some_bind, hlastNe,
      hheadNe, setNext_of_some hc']
  · refine (h'.insert (newNode, ⟨vaddr, nPages⟩) (by simpa using hfresh) hnull).congr ?_ ?_ ?_
    · intro address haddress
      simp [withPrev, headPtr, haddress]
    · rw [h.head_eq, headPtr_append]
      exact headPtr_eq_of_ne_nil hcells _ _
    · simp [lastPtr]

theorem releasePages_newBefore
    (h : Describes state.mem state.head state.tail (front ++ cell :: back))
    (hargs : ¬ (vaddr = 0 ∨ vaddr % pagingBaseSize ≠ 0 ∨ nPages = 0))
    (hfind : findInsertionNode state.mem vaddr nodeLimit 0 state.head =
      some (cell.1, .insertBefore))
    (hgap : (vaddr + nPages * pagingBaseSize) % wordModulus ≠ cell.2.baseAddr)
    (hnull : newNode ≠ 0) (hfresh : newNode ∉ (front ++ cell :: back).map Prod.fst) :
    ∃ state', releasePages initSwampNode state vaddr nPages newNode = some state' ∧
      Describes state'.mem state'.head state'.tail
        (front ++ (newNode, ⟨vaddr, nPages⟩) :: cell :: back) := by
  have hne : cell.1 ≠ 0 := fun hzero => h.nonnull (by simp [← hzero])
  have hcellNe : cell.1 ≠ newNode := fun heq => hfresh (by simp [heq])
  have hinsert := h.insert (newNode, ⟨vaddr, nPages⟩) hfresh hnull
  have hstored : store state.mem newNode ⟨⟨vaddr, nPages⟩, lastPtr 0 front, cell.1⟩ cell.1 =
      some ⟨cell.2, lastPtr 0 front, headPtr 0 back⟩ := by
    rw [store_of_ne hcellNe, h.cell]
  have hprev := h.lastPtr_front_eq_zero_iff
  by_cases hfront : front = []
  · subst hfront
    refine ⟨⟨withPrev (store state.mem newNode ⟨⟨vaddr, nPages⟩, 0, cell.1⟩) cell.1 newNode,
      newNode, state.tail⟩, ?_, ?_⟩
    · simp only [releasePages, hargs, if_false, hfind, some_bind, hne,
        h.cell, hgap, setPrev_of_some hstored, hprev, if_true]
      rfl
    · refine hinsert.congr ?_ rfl h.tail_eq
      intro address haddress
      simp [withPrev, withNext, lastPtr, headPtr, haddress]
  have hlfront := ((linked_append state.mem 0 0 front (cell :: back)).mp h.linked).1
  have hheadNot : cell.1 ∉ front.map Prod.fst := by simpa [headPtr] using h.headPtr_notMem
  have hnewNot : newNode ∉ front.map Prod.fst := by
    simp only [map_append, mem_append, not_or] at hfresh
    exact hfresh.1
  have hlstored : Linked (withPrev (store state.mem newNode
      ⟨⟨vaddr, nPages⟩, lastPtr 0 front, cell.1⟩) cell.1 newNode) cell.1 0 front :=
    linked_withPrev_of_notMem _ _ hheadNot (linked_update_of_notMem _ _ hnewNot hlfront)
  obtain ⟨c, hc⟩ := linked_lastPtr_some hlstored hfront 0
  refine ⟨⟨withNext (withPrev (store state.mem newNode ⟨⟨vaddr, nPages⟩, lastPtr 0 front, cell.1⟩)
    cell.1 newNode) (lastPtr 0 front) newNode, state.head, state.tail⟩, ?_, ?_⟩
  · simp only [releasePages, hargs, if_false, hfind, some_bind, hne,
      h.cell, hgap, setPrev_of_some hstored, hprev, hfront]
    rw [setNext_of_some hc]
    rfl
  · refine hinsert.congr ?_ ?_ ?_
    · intro address haddress
      rw [withNext_withPrev]
      rfl
    · rw [h.head_eq, headPtr_append, headPtr_append]
      exact headPtr_eq_of_ne_nil hfront _ _
    · rw [h.tail_eq, lastPtr_append, lastPtr_append]
      rfl

theorem releasePages_join (h : Describes state.mem state.head state.tail (front ++ cell :: back))
    (hargs : ¬ (vaddr = 0 ∨ vaddr % pagingBaseSize ≠ 0 ∨ nPages = 0))
    (hfind : findInsertionNode state.mem vaddr nodeLimit 0 state.head =
      some (cell.1, .insertBefore))
    (hjoin : (vaddr + nPages * pagingBaseSize) % wordModulus = cell.2.baseAddr)
    (hlast : ∀ initial last, front = initial ++ [last] →
      (last.2.baseAddr + last.2.nPages * pagingBaseSize) % wordModulus ≠ vaddr) :
    ∃ state', releasePages initSwampNode state vaddr nPages newNode = some state' ∧
      Describes state'.mem state'.head state'.tail
        (front ++ (cell.1, ⟨vaddr, (cell.2.nPages + nPages) % wordModulus⟩) :: back) := by
  have hne : cell.1 ≠ 0 := fun hzero => h.nonnull (by simp [← hzero])
  have hassign := h.assign ⟨vaddr, (cell.2.nPages + nPages) % wordModulus⟩
  have hprev := h.lastPtr_front_eq_zero_iff
  refine ⟨⟨withPayload state.mem cell.1 ⟨vaddr, (cell.2.nPages + nPages) % wordModulus⟩, state.head,
    state.tail⟩, ?_, hassign⟩
  rcases eq_nil_or_concat front with hfront | ⟨initial, last, hfront⟩
  · simp only [releasePages, hargs, if_false, hfind, some_bind, hne,
      h.cell, hjoin, if_true, setPayload_of_some h.cell, hprev.mpr hfront]
  rw [concat_eq_append] at hfront
  have hadjacent := hlast initial last hfront
  subst hfront
  rw [append_assoc, singleton_append] at hassign
  have hlastPtr : lastPtr 0 (initial ++ [last]) = last.1 := by simp [lastPtr]
  have hlastNe : last.1 ≠ 0 := fun hzero => h.nonnull (by simp [← hzero])
  simp only [releasePages, hargs, if_false, hfind, some_bind, hne,
    h.cell, hjoin, if_true, setPayload_of_some h.cell, hlastPtr, hlastNe, hassign.cell, hadjacent]

theorem releasePages_joinBoth {last : Ptr × SwampInfoNode}
    (h : Describes state.mem state.head state.tail (front ++ last :: cell :: back))
    (hargs : ¬ (vaddr = 0 ∨ vaddr % pagingBaseSize ≠ 0 ∨ nPages = 0))
    (hfind : findInsertionNode state.mem vaddr nodeLimit 0 state.head =
      some (cell.1, .insertBefore))
    (hjoin : (vaddr + nPages * pagingBaseSize) % wordModulus = cell.2.baseAddr)
    (hlast : (last.2.baseAddr + last.2.nPages * pagingBaseSize) % wordModulus = vaddr) :
    ∃ state', releasePages initSwampNode state vaddr nPages newNode = some state' ∧
      Describes state'.mem state'.head state'.tail (front ++ (cell.1, ⟨last.2.baseAddr,
          ((cell.2.nPages + nPages) % wordModulus + last.2.nPages) % wordModulus⟩) :: back) := by
  have hne : cell.1 ≠ 0 := fun hzero => h.nonnull (by simp [← hzero])
  have hlastNe : last.1 ≠ 0 := fun hzero => h.nonnull (by simp [← hzero])
  have h' : Describes state.mem state.head state.tail ((front ++ [last]) ++ cell :: back) := by
    simpa using h
  have hcell : state.mem cell.1 = some ⟨cell.2, last.1, headPtr 0 back⟩ := by
    have hcell := h'.cell
    simpa [lastPtr] using hcell
  have hassign := h'.assign ⟨vaddr, (cell.2.nPages + nPages) % wordModulus⟩
  have hassign' := hassign.assign ⟨last.2.baseAddr,
    ((cell.2.nPages + nPages) % wordModulus + last.2.nPages) % wordModulus⟩
  have hcell' := hassign.cell
  rw [append_assoc, singleton_append] at hassign hassign'
  have hlastCell := hassign.cell
  obtain ⟨mem', hdelete, hunlinked⟩ := deleteSwampNode_spec initSwampNode hassign'
  have hhead : (if last.1 = state.head then cell.1 else state.head) =
      headPtr 0 (front ++ cell :: back) := by
    cases front with
    | nil => rw [if_pos (h.head_eq_cell_iff.mpr rfl).symm]; rfl
    | cons first rest =>
      rw [if_neg fun heq => by simpa using h.head_eq_cell_iff.mp heq.symm, h.head_eq]
      rfl
  refine ⟨⟨mem', headPtr 0 (front ++ cell :: back), state.tail⟩, ?_, ?_⟩
  · simp only [releasePages, hargs, if_false, hfind, some_bind, hne,
      hcell, hjoin, if_true, setPayload_of_some hcell, hlastNe, hlastCell, hlast,
      setPayload_of_some hcell', hdelete, hhead]
  · refine hunlinked.congr_cells (fun _ _ => rfl) ?_ ?_
    · rw [headPtr_append, headPtr_append]
      rfl
    · rw [h.tail_eq, lastPtr_append, lastPtr_append]
      rfl

theorem releasePages_of_head_eq_zero (hhead : state.head = 0) (vaddr nPages : Nat) :
    releasePages initSwampNode state vaddr nPages newNode = some state := by
  have hfind : findInsertionNode state.mem vaddr nodeLimit 0 state.head =
      some (0, .insertAfter) := by
    rw [hhead]
    rfl
  unfold releasePages
  split
  · rfl
  · rw [hfind]
    rfl

end

def pageSpan (range : Nat × Nat) : Span :=
  (range.1, range.2 * pagingBaseSize)

def SwampInfoNode.range (node : SwampInfoNode) : Nat × Nat :=
  (node.baseAddr, node.nPages)

def freeSpans (cells : List (Ptr × SwampInfoNode)) : Multiset Span :=
  (cells.map fun cell => pageSpan cell.2.range : List Span)

def Precedes (first second : Ptr × SwampInfoNode) : Prop :=
  first.2.baseAddr + first.2.nPages * pagingBaseSize ≤ second.2.baseAddr

/-- The free nodes `cells` and the live allocations share out the swamp. -/
structure Partition (config : SwampConfig) (state : SwampState) (live : Multiset (Nat × Nat))
    (cells : List (Ptr × SwampInfoNode)) : Prop where
  describes : Describes state.mem state.head state.tail cells
  nonempty : ∀ cell ∈ cells, 0 < cell.2.nPages
  ordered : cells.Pairwise Precedes
  free_aligned : ∀ cell ∈ cells, pagingBaseSize ∣ cell.2.baseAddr
  live_aligned : ∀ range ∈ live, pagingBaseSize ∣ range.1
  tiles : Tiles (freeSpans cells + live.map pageSpan) config.baseAddr
    (config.baseAddr + config.nPages * pagingBaseSize)

@[simp] theorem freeSpans_nil : freeSpans [] = 0 := rfl

@[simp] theorem freeSpans_cons (cell : Ptr × SwampInfoNode) (cells : List (Ptr × SwampInfoNode)) :
    freeSpans (cell :: cells) = pageSpan cell.2.range ::ₘ freeSpans cells := rfl

@[simp] theorem freeSpans_append (front back : List (Ptr × SwampInfoNode)) :
    freeSpans (front ++ back) = freeSpans front + freeSpans back := by
  simp [freeSpans]

theorem pageSpan_length_pos {range : Nat × Nat} (h : 0 < range.2) : 0 < (pageSpan range).2 :=
  Nat.mul_pos h (by decide)

theorem mem_freeSpans {cells : List (Ptr × SwampInfoNode)} {cell : Ptr × SwampInfoNode}
    (h : cell ∈ cells) : pageSpan cell.2.range ∈ freeSpans cells := by
  exact mem_map.mpr ⟨cell, h, rfl⟩

theorem pairwise_precedes_insert {front back : List (Ptr × SwampInfoNode)}
    {new : Ptr × SwampInfoNode} (h : (front ++ back).Pairwise Precedes)
    (hfront : ∀ cell ∈ front, Precedes cell new) (hback : ∀ cell ∈ back, Precedes new cell) :
    (front ++ new :: back).Pairwise Precedes := by
  obtain ⟨hf, hb, hfb⟩ := pairwise_append.mp h
  refine pairwise_append.mpr ⟨hf, pairwise_cons.mpr ⟨hback, hb⟩, ?_⟩
  intro cell hcell other hother
  rcases mem_cons.mp hother with rfl | hother
  · exact hfront cell hcell
  · exact hfb cell hcell other hother

section

variable {config : SwampConfig} {state : SwampState} {live : Multiset (Nat × Nat)}
  {cells : List (Ptr × SwampInfoNode)}

variable (h : Partition config state live cells)

include h

theorem Partition.free_bounds {cell : Ptr × SwampInfoNode}
    (hcell : cell ∈ cells) : config.baseAddr ≤ cell.2.baseAddr ∧
      cell.2.baseAddr + cell.2.nPages * pagingBaseSize < wordModulus := by
  have hbounds := h.tiles.bounds (Multiset.mem_add.mpr (.inl (mem_freeSpans hcell)))
    (pageSpan_length_pos (h.nonempty cell hcell))
  have hwrap := config.no_wrap
  simp only [pageSpan, SwampInfoNode.range] at hbounds
  omega

theorem Partition.live_bounds {range : Nat × Nat}
    (hrange : range ∈ live) (hpages : 0 < range.2) : config.baseAddr ≤ range.1 ∧
      range.1 + range.2 * pagingBaseSize < wordModulus := by
  have hbounds := h.tiles.bounds
    (Multiset.mem_add.mpr (.inr (mem_map_of_mem pageSpan hrange)))
    (pageSpan_length_pos hpages)
  have hwrap := config.no_wrap
  simp only [pageSpan] at hbounds
  omega

theorem Partition.separate {cell : Ptr × SwampInfoNode}
    (hcell : cell ∈ cells) {range : Nat × Nat} (hrange : range ∈ live) (hpages : 0 < range.2) :
    cell.2.baseAddr + cell.2.nPages * pagingBaseSize ≤ range.1 ∨
      range.1 + range.2 * pagingBaseSize ≤ cell.2.baseAddr := by
  obtain ⟨free, hfree⟩ := Multiset.exists_cons_of_mem (mem_freeSpans hcell)
  obtain ⟨others, hothers⟩ :=
    Multiset.exists_cons_of_mem (mem_map_of_mem pageSpan hrange)
  have htiles := h.tiles
  rw [hfree, hothers, Multiset.cons_add, add_cons] at htiles
  exact htiles.separate (pageSpan_length_pos (h.nonempty cell hcell)) (pageSpan_length_pos hpages)

omit h

theorem sum_pageSpan (ranges : Multiset (Nat × Nat)) :
    ((ranges.map pageSpan).map Prod.snd).sum = (ranges.map Prod.snd).sum * pagingBaseSize := by
  rw [Multiset.map_map, ← Multiset.sum_map_mul_right]
  rfl

variable (h : Partition config state live cells)

include h

theorem Partition.total_pages :
    (cells.map fun cell => cell.2.nPages).sum + (live.map Prod.snd).sum = config.nPages := by
  have hfree : freeSpans cells = ((cells.map fun cell => cell.2.range : List _) :
      Multiset (Nat × Nat)).map pageSpan := by
    rw [Multiset.map_coe, map_map]
    rfl
  have hsum := h.tiles.sum_lengths
  rw [hfree, Multiset.map_add, Multiset.sum_add, sum_pageSpan, sum_pageSpan, ← add_mul,
    Nat.add_sub_cancel_left] at hsum
  have hpages := Nat.eq_of_mul_eq_mul_right (by decide) hsum
  rw [← hpages]
  simp [SwampInfoNode.range, Function.comp_def]

theorem Partition.length_le : cells.length ≤ nodeLimit := by
  have hlength : cells.length ≤ (cells.map fun cell => cell.2.nPages).sum := by
    have hnonempty := h.nonempty
    clear h
    induction cells with
    | nil => simp
    | cons cell rest ih =>
      have hcell := hnonempty cell (by simp)
      have hrest := ih fun other hother => hnonempty other (mem_cons_of_mem _ hother)
      simp only [length_cons, map_cons, sum_cons]
      omega
  have htotal := h.total_pages
  have hwrap := config.no_wrap
  simp only [pagingBaseSize, wordModulus, nodeLimit] at *
  omega

theorem Partition.live_disjoint {first second : Nat × Nat}
    {rest : Multiset (Nat × Nat)} (hlive : live = first ::ₘ second ::ₘ rest) :
    Disjoint (units (pageSpan first)) (units (pageSpan second)) := by
  have htiles := h.tiles
  rw [hlive, Multiset.map_cons, Multiset.map_cons, add_cons, add_cons] at htiles
  exact htiles.disjoint

theorem Partition.getPages_found {nPages : Nat}
    {state' : SwampState} {front back : List (Ptr × SwampInfoNode)} {cell : Ptr × SwampInfoNode}
    (hcells : cells = front ++ cell :: back) (hpages : nPages ≤ cell.2.nPages)
    (hdescribes : Describes state'.mem state'.head state'.tail
      (front ++ remainder cell nPages ++ back)) :
    Partition config state' ((cell.2.baseAddr, nPages) ::ₘ live)
      (front ++ remainder cell nPages ++ back) := by
  subst hcells
  have hmem : cell ∈ front ++ cell :: back := by simp
  have hbounds := h.free_bounds hmem
  have hle : nPages * pagingBaseSize ≤ cell.2.nPages * pagingBaseSize := Nat.mul_le_mul_right _ hpages
  have hmod : (cell.2.baseAddr + nPages * pagingBaseSize) % wordModulus =
      cell.2.baseAddr + nPages * pagingBaseSize := Nat.mod_eq_of_lt (by omega)
  have halign := h.free_aligned cell hmem
  -- The remaining pages end where the node ended.
  have hrest : ∀ left ∈ remainder cell nPages, 0 < left.2.nPages ∧
      left.2.baseAddr = cell.2.baseAddr + nPages * pagingBaseSize ∧
      left.2.baseAddr + left.2.nPages * pagingBaseSize =
        cell.2.baseAddr + cell.2.nPages * pagingBaseSize := by
    intro left hleft
    rw [remainder] at hleft
    split at hleft
    · simp at hleft
    rw [mem_singleton.mp hleft]
    refine ⟨by dsimp only; omega, hmod, ?_⟩
    dsimp only
    rw [hmod, Nat.sub_mul]
    omega
  have hunits : units (pageSpan cell.2.range) =
      units (pageSpan (cell.2.baseAddr, nPages)) + cover (freeSpans (remainder cell nPages)) := by
    simp only [pageSpan, SwampInfoNode.range]
    rw [units_split hle, remainder]
    split
    · have heq : cell.2.nPages = nPages := by omega
      simp [heq]
    · simp [pageSpan, SwampInfoNode.range, hmod, Nat.sub_mul]
  have hordered := h.ordered
  obtain ⟨hfront, hcons, hcross⟩ := pairwise_append.mp hordered
  obtain ⟨hcell, hback⟩ := pairwise_cons.mp hcons
  refine ⟨hdescribes, ?_, ?_, ?_, ?_, ?_⟩
  · intro other hother
    simp only [mem_append, or_assoc] at hother
    rcases hother with hother | hother | hother
    · exact h.nonempty other (by simp [hother])
    · exact (hrest other hother).1
    · exact h.nonempty other (by simp [hother])
  · rw [append_assoc]
    refine pairwise_append.mpr ⟨hfront, pairwise_append.mpr ⟨?_, hback, ?_⟩, ?_⟩
    · rw [remainder]
      split <;> simp
    · intro left hleft other hother
      have hend := (hrest left hleft).2.2
      have hnext := hcell other hother
      simp only [Precedes] at hnext ⊢
      omega
    · intro other hother later hlater
      rcases mem_append.mp hlater with hleft | hlater
      · have hstart := (hrest later hleft).2.1
        have hprev := hcross other hother cell (by simp)
        simp only [Precedes] at hprev ⊢
        omega
      · exact hcross other hother later (by simp [hlater])
  · intro other hother
    simp only [mem_append, or_assoc] at hother
    rcases hother with hother | hother | hother
    · exact h.free_aligned other (by simp [hother])
    · rw [(hrest other hother).2.1]
      exact Nat.dvd_add halign (Nat.dvd_mul_left _ _)
    · exact h.free_aligned other (by simp [hother])
  · intro range hrange
    rcases Multiset.mem_cons.mp hrange with rfl | hrange
    · exact halign
    · exact h.live_aligned range hrange
  · have htiles := h.tiles
    simp only [Tiles, freeSpans_append, freeSpans_cons, cover_add, cover_cons, hunits,
      Multiset.map_cons] at htiles ⊢
    rw [← htiles]
    abel

theorem Partition.release {vaddr nPages : Nat}
    (hrange : (vaddr, nPages) ∈ live) {state' : SwampState} {cells' : List (Ptr × SwampInfoNode)}
    (hdescribes : Describes state'.mem state'.head state'.tail cells')
    (hnonempty : ∀ cell ∈ cells', 0 < cell.2.nPages) (hordered : cells'.Pairwise Precedes)
    (haligned : ∀ cell ∈ cells', pagingBaseSize ∣ cell.2.baseAddr)
    (hcover : cover (freeSpans cells') = units (pageSpan (vaddr, nPages)) + cover (freeSpans cells)) :
    Partition config state' (live.erase (vaddr, nPages)) cells' := by
  refine ⟨hdescribes, hnonempty, hordered, haligned, ?_, ?_⟩
  · intro range hmem
    exact h.live_aligned range (Multiset.mem_of_mem_erase hmem)
  · have htiles := h.tiles
    have hlive : live.map pageSpan =
        pageSpan (vaddr, nPages) ::ₘ (live.erase (vaddr, nPages)).map pageSpan := by
      rw [← Multiset.map_cons, Multiset.cons_erase hrange]
    rw [Tiles, cover_add, hlive, cover_cons] at htiles
    rw [Tiles, cover_add, hcover, ← htiles]
    abel

theorem Partition.precedes_front {vaddr nPages : Nat}
    (hrange : (vaddr, nPages) ∈ live) (hpages : 0 < nPages) {cell : Ptr × SwampInfoNode}
    (hcell : cell ∈ cells) (hle : cell.2.baseAddr ≤ vaddr) :
    cell.2.baseAddr + cell.2.nPages * pagingBaseSize ≤ vaddr := by
  have hlength : 0 < (pageSpan (vaddr, nPages)).2 := pageSpan_length_pos hpages
  rcases h.separate hcell hrange hpages with hbefore | hafter
  · exact hbefore
  · simp only [pageSpan] at hlength hafter
    omega

theorem Partition.precedes_back {vaddr nPages : Nat}
    (hrange : (vaddr, nPages) ∈ live) (hpages : 0 < nPages) {cell : Ptr × SwampInfoNode}
    (hcell : cell ∈ cells) (hlt : vaddr < cell.2.baseAddr) :
    vaddr + nPages * pagingBaseSize ≤ cell.2.baseAddr := by
  rcases h.separate hcell hrange hpages with hbefore | hafter
  · omega
  · exact hafter

theorem Partition.release_merge {vaddr nPages : Nat}
    (hrange : (vaddr, nPages) ∈ live) {state' : SwampState}
    (old : List (Ptr × SwampInfoNode)) {front back : List (Ptr × SwampInfoNode)}
    {merged : Ptr × SwampInfoNode}
    (hcells : cells = front ++ (old ++ back)) (hpages : 0 < merged.2.nPages)
    (haligned : pagingBaseSize ∣ merged.2.baseAddr)
    (hfront : ∀ cell ∈ front, Precedes cell merged) (hback : ∀ cell ∈ back, Precedes merged cell)
    (hcover : units (pageSpan merged.2.range) =
      units (pageSpan (vaddr, nPages)) + cover (freeSpans old))
    (hdescribes : Describes state'.mem state'.head state'.tail (front ++ merged :: back)) :
    Partition config state' (live.erase (vaddr, nPages)) (front ++ merged :: back) := by
  subst hcells
  have hkept : (front ++ back).Sublist (front ++ (old ++ back)) :=
    (sublist_append_right old back).append_left front
  refine h.release hrange hdescribes ?_
    (pairwise_precedes_insert (h.ordered.sublist hkept) hfront hback) ?_ ?_
  · intro cell hcell
    rw [mem_append, mem_cons] at hcell
    rcases hcell with hcell | rfl | hcell
    · exact h.nonempty cell (by simp [hcell])
    · exact hpages
    · exact h.nonempty cell (by simp [hcell])
  · intro cell hcell
    rw [mem_append, mem_cons] at hcell
    rcases hcell with hcell | rfl | hcell
    · exact h.free_aligned cell (by simp [hcell])
    · exact haligned
    · exact h.free_aligned cell (by simp [hcell])
  · simp only [freeSpans_append, freeSpans_cons, cover_add, cover_cons, hcover]
    abel

omit h

end

structure SwampRun where
  swamp : SwampState
  live : Multiset (Nat × Nat)

inductive Call
  | getPages (nPages : Nat)
  | releasePages (vaddr nPages : Nat) (newNode : Ptr)
deriving DecidableEq

def step (initSwampNode : Ptr) (state : SwampRun) : Call → Option (Nat × SwampRun)
  | .getPages nPages =>
    (getPages initSwampNode state.swamp nPages).map fun r =>
      (r.1, ⟨r.2, if r.1 = 0 then state.live else (r.1, nPages) ::ₘ state.live⟩)
  | .releasePages vaddr nPages newNode =>
    (releasePages initSwampNode state.swamp vaddr nPages newNode).map fun swamp =>
      (0, ⟨swamp, state.live.erase (vaddr, nPages)⟩)

def ReleasesLive (state : SwampRun) : Call → Prop
  | .getPages _ => True
  | .releasePages vaddr nPages newNode =>
    (vaddr, nPages) ∈ state.live ∧ newNode ≠ 0 ∧ state.swamp.mem newNode = none

def ListNotEmpty (state : SwampRun) : Call → Prop
  | .getPages _ => True
  | .releasePages _ nPages _ => nPages = 0 ∨ state.swamp.head ≠ 0

def endAddr (cell : Ptr × SwampInfoNode) : Nat :=
  cell.2.baseAddr + cell.2.nPages * pagingBaseSize

inductive Takes (nPages : Nat) : Nat → List (Ptr × SwampInfoNode) →
    List (Ptr × SwampInfoNode) → Prop
  | failed {cells} (hsmall : ∀ cell ∈ cells, cell.2.nPages < nPages) : Takes nPages 0 cells cells
  | taken (front back) {cell} (hpages : nPages ≤ cell.2.nPages) (hne : cell.2.baseAddr ≠ 0) :
      Takes nPages cell.2.baseAddr (front ++ cell :: back) (front ++ remainder cell nPages ++ back)

/-- How the release of a range changes the free nodes. The range is joined to the node
before it only when it is also joined to the one after it. -/
inductive Releases (vaddr nPages : Nat) (newNode : Ptr) : List (Ptr × SwampInfoNode) →
    List (Ptr × SwampInfoNode) → Prop
  | new (front back) (hnext : ∀ cell ∈ front ++ back,
      vaddr + nPages * pagingBaseSize ≠ cell.2.baseAddr) :
      Releases vaddr nPages newNode (front ++ back) (front ++ (newNode, ⟨vaddr, nPages⟩) :: back)
  | join (front back) {cell} (hnext : vaddr + nPages * pagingBaseSize = cell.2.baseAddr)
      (hprev : ∀ other ∈ front ++ cell :: back, endAddr other ≠ vaddr) :
      Releases vaddr nPages newNode (front ++ cell :: back)
        (front ++ (cell.1, ⟨vaddr, cell.2.nPages + nPages⟩) :: back)
  | joinBoth (front back) {last cell} (hnext : vaddr + nPages * pagingBaseSize = cell.2.baseAddr)
      (hprev : endAddr last = vaddr) :
      Releases vaddr nPages newNode (front ++ last :: cell :: back)
        (front ++ (cell.1, ⟨last.2.baseAddr, cell.2.nPages + nPages + last.2.nPages⟩) :: back)

section

variable {config : SwampConfig} {state : SwampState} {live : Multiset (Nat × Nat)}
  {cells : List (Ptr × SwampInfoNode)}

theorem step_getPages (h : Partition config state live cells) (nPages : Nat) :
    ∃ vaddr next cells', step config.initSwampNode ⟨state, live⟩ (.getPages nPages) =
      some (vaddr, next) ∧ Partition config next.swamp next.live cells' ∧
        Takes nPages vaddr cells cells' := by
  rcases h.describes.seek_cases (fun node => decide (nPages ≤ node.nPages)) h.length_le with
    ⟨hseek, hnone⟩ | ⟨front, cell, back, hcells, -, htest, hseek⟩
  · refine ⟨0, ⟨state, live⟩, cells, ?_, h, .failed ?_⟩
    · simp [step, getPages, hseek]
    · intro cell hcell
      have hsmall := hnone cell hcell
      simpa using hsmall
  have hpages : nPages ≤ cell.2.nPages := by simpa using htest
  obtain ⟨state', hget, hdescribes⟩ := getPages_found config.initSwampNode
    (hcells ▸ h.describes) hseek
  have hbounds := h.free_bounds (hcells ▸ by simp : cell ∈ cells)
  have hne : cell.2.baseAddr ≠ 0 := by
    have hconfig := config.baseAddr_ne
    omega
  refine ⟨cell.2.baseAddr, ⟨state', (cell.2.baseAddr, nPages) ::ₘ live⟩, _, ?_,
    h.getPages_found hcells hpages hdescribes, ?_⟩
  · simp [step, hget, hne]
  · rw [hcells]
    exact .taken front back hpages hne

theorem Partition.endAddr_ne_of_last {vaddr : Nat} {front back : List (Ptr × SwampInfoNode)}
    {cell : Ptr × SwampInfoNode} (h : Partition config state live (front ++ cell :: back))
    (hfront : ∀ other ∈ front, endAddr other ≤ vaddr)
    (hlast : ¬ ∃ initial last, front = initial ++ [last] ∧ endAddr last = vaddr)
    (hcell : vaddr < cell.2.baseAddr) : ∀ other ∈ front ++ cell :: back, endAddr other ≠ vaddr := by
  have hback : ∀ other ∈ cell :: back, vaddr < other.2.baseAddr := by
    intro other hother
    rcases mem_cons.mp hother with rfl | hother
    · exact hcell
    · have hnext := (pairwise_cons.mp (pairwise_append.mp h.ordered).2.1).1 other hother
      simp only [Precedes] at hnext
      omega
  intro other hother hadjacent
  rcases mem_append.mp hother with hother | hother
  · rcases eq_nil_or_concat' front with rfl | ⟨initial, last, rfl⟩
    · simp at hother
    · rcases mem_append.mp hother with hinitial | hother
      · -- The last node below the range lies between the two.
        have hprev := (pairwise_append.mp (pairwise_append.mp h.ordered).1).2.2 other
          hinitial last (by simp)
        have hend := hfront last (by simp)
        have hlength : 0 < last.2.nPages * pagingBaseSize :=
          Nat.mul_pos (h.nonempty last (by simp)) (by decide)
        simp only [Precedes, endAddr] at hprev hend hadjacent
        omega
      · rw [mem_singleton] at hother
        exact hlast ⟨initial, last, rfl, hother ▸ hadjacent⟩
  · have hbase := hback other hother
    simp only [endAddr] at hadjacent
    omega

theorem Partition.release_before (h : Partition config state live cells) {vaddr nPages : Nat}
    {newNode : Ptr} (hlive : (vaddr, nPages) ∈ live) (hpages : 0 < nPages) (hnull : newNode ≠ 0)
    (hfresh : newNode ∉ cells.map Prod.fst) {front back : List (Ptr × SwampInfoNode)}
    {cell : Ptr × SwampInfoNode} (hcells : cells = front ++ cell :: back)
    (hargs : ¬ (vaddr = 0 ∨ vaddr % pagingBaseSize ≠ 0 ∨ nPages = 0))
    (hfront : ∀ other ∈ front, other.2.baseAddr ≤ vaddr) (hcell : vaddr < cell.2.baseAddr)
    (hfind : findInsertionNode state.mem vaddr nodeLimit 0 state.head =
      some (cell.1, .insertBefore)) :
    ∃ state' cells', releasePages config.initSwampNode state vaddr nPages newNode = some state' ∧
      Partition config state' (live.erase (vaddr, nPages)) cells' ∧
      Releases vaddr nPages newNode cells cells' := by
  subst hcells
  have hmem : cell ∈ front ++ cell :: back := by simp
  have hbounds := h.free_bounds hmem
  have hbefore := h.precedes_back hlive hpages hmem hcell
  have halign := h.live_aligned _ hlive
  have hmod : (vaddr + nPages * pagingBaseSize) % wordModulus = vaddr + nPages * pagingBaseSize :=
    Nat.mod_eq_of_lt (by omega)
  have hfront' : ∀ other ∈ front, other.2.baseAddr + other.2.nPages * pagingBaseSize ≤ vaddr := by
    intro other hother
    exact h.precedes_front hlive hpages (by simp [hother]) (hfront other hother)
  have hback : ∀ other ∈ back, Precedes cell other :=
    (pairwise_cons.mp (pairwise_append.mp h.ordered).2.1).1
  by_cases hjoin : vaddr + nPages * pagingBaseSize = cell.2.baseAddr
  · have hsum : (cell.2.nPages + nPages) % wordModulus = cell.2.nPages + nPages := by
      apply Nat.mod_eq_of_lt
      simp only [pagingBaseSize, wordModulus] at hbounds hjoin ⊢
      omega
    have hunits : units (pageSpan (vaddr, cell.2.nPages + nPages)) =
        units (pageSpan (vaddr, nPages)) + units (pageSpan cell.2.range) := by
      simp only [pageSpan, SwampInfoNode.range]
      rw [add_comm, add_mul, units_add, hjoin]
    by_cases hlast : ∃ initial last, front = initial ++ [last] ∧
        last.2.baseAddr + last.2.nPages * pagingBaseSize = vaddr
    · obtain ⟨initial, last, rfl, hadjacent⟩ := hlast
      rw [append_assoc, singleton_append] at h
      have hlastMem : last ∈ initial ++ last :: cell :: back := by simp
      have hlastMod : (last.2.baseAddr + last.2.nPages * pagingBaseSize) % wordModulus = vaddr := by
        rw [hadjacent]
        exact Nat.mod_eq_of_lt (by omega)
      have hsum' : (cell.2.nPages + nPages + last.2.nPages) % wordModulus =
          cell.2.nPages + nPages + last.2.nPages := by
        apply Nat.mod_eq_of_lt
        simp only [pagingBaseSize, wordModulus] at hbounds hjoin hadjacent ⊢
        omega
      obtain ⟨state', hrelease, hdescribes⟩ := releasePages_joinBoth config.initSwampNode
        newNode h.describes hargs hfind (hmod.trans hjoin) hlastMod
      rw [hsum, hsum'] at hdescribes
      refine ⟨state', _, hrelease,
        h.release_merge hlive [last, cell] rfl ?_ ?_ ?_ ?_ ?_ hdescribes, ?_⟩
      · dsimp only
        omega
      · exact h.free_aligned last hlastMem
      · intro other hother
        exact (pairwise_append.mp h.ordered).2.2 other hother last (by simp)
      · intro other hother
        have hnext := hback other hother
        simp only [Precedes, add_mul] at hnext ⊢
        omega
      · have htotal : (cell.2.nPages + nPages + last.2.nPages) * pagingBaseSize =
            last.2.nPages * pagingBaseSize + (cell.2.nPages + nPages) * pagingBaseSize := by
          rw [add_mul _ last.2.nPages, add_comm]
        simp only [pageSpan, SwampInfoNode.range] at hunits ⊢
        rw [htotal, units_add, hadjacent, hunits]
        simp only [freeSpans_cons, freeSpans_nil, cover_cons, cover_zero, pageSpan,
          SwampInfoNode.range]
        abel
      · rw [append_assoc, singleton_append]
        exact .joinBoth initial back hjoin hadjacent
    · have hlast' : ∀ initial last, front = initial ++ [last] →
          (last.2.baseAddr + last.2.nPages * pagingBaseSize) % wordModulus ≠ vaddr := by
        rintro initial last rfl hadjacent
        have hend := hfront' last (by simp)
        rw [Nat.mod_eq_of_lt (by omega)] at hadjacent
        exact hlast ⟨initial, last, rfl, hadjacent⟩
      obtain ⟨state', hrelease, hdescribes⟩ := releasePages_join config.initSwampNode
        newNode h.describes hargs hfind (hmod.trans hjoin) hlast'
      rw [hsum] at hdescribes
      refine ⟨state', _, hrelease, h.release_merge hlive [cell] rfl ?_ halign ?_ ?_ ?_ hdescribes,
        .join front back hjoin (h.endAddr_ne_of_last hfront' hlast hcell)⟩
      · dsimp only
        omega
      · exact hfront'
      · intro other hother
        have hnext := hback other hother
        simp only [Precedes, add_mul] at hnext ⊢
        omega
      · simpa [SwampInfoNode.range] using hunits
  · obtain ⟨state', hrelease, hdescribes⟩ := releasePages_newBefore config.initSwampNode
      newNode h.describes hargs hfind (fun heq => hjoin (hmod.symm.trans heq)) hnull hfresh
    refine ⟨state', _, hrelease,
      h.release_merge hlive [] rfl hpages halign ?_ ?_ ?_ hdescribes, .new front (cell :: back) ?_⟩
    · exact hfront'
    · intro other hother
      rcases mem_cons.mp hother with rfl | hother
      · exact hbefore
      · have hnext := hback other hother
        simp only [Precedes] at hnext ⊢
        omega
    · simp [SwampInfoNode.range]
    · intro other hother
      rcases mem_append.mp hother with hother | hother
      · have hbase := hfront other hother
        have hlength : 0 < nPages * pagingBaseSize := Nat.mul_pos hpages (by decide)
        omega
      rcases mem_cons.mp hother with rfl | hother
      · exact hjoin
      have hnext := hback other hother
      simp only [Precedes] at hnext
      omega

theorem step_releasePages (h : Partition config state live cells) {vaddr nPages : Nat}
    {newNode : Ptr} (hlive : (vaddr, nPages) ∈ live) (hnull : newNode ≠ 0)
    (hfresh : state.mem newNode = none) (hlist : nPages = 0 ∨ state.head ≠ 0) :
    ∃ next cells', step config.initSwampNode ⟨state, live⟩ (.releasePages vaddr nPages newNode) =
      some (0, next) ∧ Partition config next.swamp next.live cells' ∧
        (nPages = 0 → cells' = cells) ∧
          (0 < nPages → Releases vaddr nPages newNode cells cells') := by
  suffices hrelease : ∃ state' cells',
      releasePages config.initSwampNode state vaddr nPages newNode = some state' ∧
        Partition config state' (live.erase (vaddr, nPages)) cells' ∧
        (nPages = 0 → cells' = cells) ∧ (0 < nPages → Releases vaddr nPages newNode cells cells') by
    obtain ⟨state', cells', heq, hpartition, hcells⟩ := hrelease
    exact ⟨⟨state', live.erase (vaddr, nPages)⟩, cells', by simp [step, heq], hpartition, hcells⟩
  rcases eq_zero_or_pos nPages with rfl | hpages
  · refine ⟨state, cells, by simp [releasePages], ?_, fun _ => rfl, by simp⟩
    exact h.release hlive h.describes h.nonempty h.ordered h.free_aligned (by simp [pageSpan])
  have hbounds := h.live_bounds hlive hpages
  have halign := h.live_aligned _ hlive
  have hargs : ¬ (vaddr = 0 ∨ vaddr % pagingBaseSize ≠ 0 ∨ nPages = 0) := by
    have hconfig := config.baseAddr_ne
    have hmod : vaddr % pagingBaseSize = 0 := Nat.mod_eq_zero_of_dvd halign
    omega
  have hfresh' : newNode ∉ cells.map Prod.fst := by
    intro hmem
    obtain ⟨c, hc⟩ := linked_mem_some h.describes.linked hmem
    simp [hfresh] at hc
  have hcells : cells ≠ [] := by
    rintro rfl
    exact (hlist.resolve_left (by omega)) h.describes.head_eq
  have hfind := findInsertionNode_linked vaddr 0 h.describes.linked h.describes.nonnull h.length_le
  rw [← h.describes.head_eq] at hfind
  rcases hfind with ⟨hall, hfind⟩ | ⟨front, cell, back, hsplit, hfront, hcell, hfind⟩
  · obtain ⟨state', hrelease, hdescribes⟩ := releasePages_append config.initSwampNode newNode
      h.describes
      hcells hargs hfind hnull hfresh'
    refine ⟨state', _, hrelease,
      h.release_merge hlive [] (by simp) hpages halign ?_ (by simp) ?_ hdescribes, by omega,
        fun _ => ?_⟩
    · intro other hother
      exact h.precedes_front hlive hpages hother (hall other hother)
    · simp [SwampInfoNode.range]
    · have hnew : ∀ other ∈ cells ++ [], vaddr + nPages * pagingBaseSize ≠ other.2.baseAddr := by
        intro other hother
        have hbase := hall other (by simpa using hother)
        have hlength : 0 < nPages * pagingBaseSize := Nat.mul_pos hpages (by decide)
        omega
      have hreleases : Releases vaddr nPages newNode (cells ++ [])
          (cells ++ [(newNode, ⟨vaddr, nPages⟩)]) := .new cells [] hnew
      rwa [append_nil] at hreleases
  · obtain ⟨state', cells', hrelease, hpartition, hcells'⟩ :=
      h.release_before hlive hpages hnull hfresh' hsplit hargs hfront hcell hfind
    exact ⟨state', cells', hrelease, hpartition, by omega, fun _ => hcells'⟩

theorem partition_initialState (config : SwampConfig) : Partition config (initialState config) 0
      [(config.initSwampNode, ⟨config.baseAddr, config.nPages⟩)] := by
  have hne := config.initSwampNode_ne
  refine ⟨?_, ?_, ?_, ?_, ?_, ?_⟩
  · exact ⟨by simp, by simpa using hne.symm, rfl, rfl, by simp [initialState, headPtr], trivial⟩
  · simpa using config.nPages_pos
  · simp
  · simpa using config.aligned
  · simp
  · have htiles := tiles_singleton (Nat.le_add_right config.baseAddr
      (config.nPages * pagingBaseSize))
    rw [Nat.add_sub_cancel_left] at htiles
    exact htiles

theorem step_partition (config : SwampConfig) (state : SwampRun) (call : Call)
    (h : ∃ cells, Partition config state.swamp state.live cells)
    (hguard : ReleasesLive state call ∧ ListNotEmpty state call) :
    ∃ vaddr next, step config.initSwampNode state call = some (vaddr, next) ∧
      ∃ cells, Partition config next.swamp next.live cells := by
  obtain ⟨cells, h⟩ := h
  cases call with
  | getPages nPages =>
    obtain ⟨vaddr, next, cells', hstep, hnext, -⟩ := step_getPages h nPages
    exact ⟨vaddr, next, hstep, cells', hnext⟩
  | releasePages vaddr nPages newNode =>
    obtain ⟨⟨hlive, hnull, hfresh⟩, hlist⟩ := hguard
    obtain ⟨next, cells', hstep, hnext, -⟩ := step_releasePages h hlive hnull hfresh hlist
    exact ⟨0, next, hstep, cells', hnext⟩

/-- Every run of requests and releases in which no pages are released into an
empty list returns, and leaves the free nodes and the live allocations a
partition of the swamp. -/
theorem run_partition (config : SwampConfig) (calls : List Call)
    (h : Guarded (step config.initSwampNode)
      (fun state call => ReleasesLive state call ∧ ListNotEmpty state call)
      ⟨initialState config, 0⟩ calls) :
    ∃ answers last cells, run (step config.initSwampNode) ⟨initialState config, 0⟩ calls =
        some (answers, last) ∧
      Partition config last.swamp last.live cells ∧
      (cells.map fun cell => cell.2.nPages).sum + (last.live.map Prod.snd).sum = config.nPages ∧
      ∀ first second rest, last.live = first ::ₘ second ::ₘ rest →
        Disjoint (units (pageSpan first)) (units (pageSpan second)) := by
  obtain ⟨answers, last, hrun, cells, hpartition⟩ := run_invariant (step_partition config)
    ⟨_, partition_initialState config⟩ h
  refine ⟨answers, last, cells, hrun, hpartition, hpartition.total_pages, ?_⟩
  intro first second rest hlive
  exact hpartition.live_disjoint hlive

end

def smallSwamp : SwampConfig where
  baseAddr := 0x100000
  nPages := 4
  initSwampNode := 1
  aligned := by decide
  baseAddr_ne := by decide
  nPages_pos := by decide
  no_wrap := by decide
  initSwampNode_ne := by decide

theorem run_partition_smallSwamp :
    ∃ answers last cells, run (step 1) ⟨initialState smallSwamp, 0⟩
        [.getPages 3, .releasePages 0x100000 3 2] = some (answers, last) ∧
      Partition smallSwamp last.swamp last.live cells ∧
      (cells.map fun cell => cell.2.nPages).sum + (last.live.map Prod.snd).sum = 4 ∧
      ∀ first second rest, last.live = first ::ₘ second ::ₘ rest →
        Disjoint (units (pageSpan first)) (units (pageSpan second)) := by
  apply run_partition smallSwamp
  refine (guarded_cons rfl).mpr ⟨⟨trivial, trivial⟩, ?_⟩
  exact (guarded_cons rfl).mpr ⟨⟨⟨by decide, by decide, rfl⟩, .inr (by decide)⟩, trivial⟩

theorem exhausted_release_lost :
    ¬ ∀ calls, Guarded (step 1) ReleasesLive ⟨initialState smallSwamp, 0⟩ calls →
      ∃ answers last cells, run (step 1) ⟨initialState smallSwamp, 0⟩ calls = some (answers, last) ∧
        Partition smallSwamp last.swamp last.live cells ∧
        (cells.map fun cell => cell.2.nPages).sum + (last.live.map Prod.snd).sum = 4 ∧
        ∀ first second rest, last.live = first ::ₘ second ::ₘ rest →
          Disjoint (units (pageSpan first)) (units (pageSpan second)) := by
  intro hclaim
  have hguarded : Guarded (step 1) ReleasesLive ⟨initialState smallSwamp, 0⟩
      [.getPages 4, .releasePages 0x100000 4 2] := by
    refine (guarded_cons rfl).mpr ⟨trivial, ?_⟩
    exact (guarded_cons rfl).mpr ⟨⟨by decide, by decide, rfl⟩, trivial⟩
  obtain ⟨answers, last, cells, hrun, hpartition, htotal, -⟩ := hclaim _ hguarded
  cases hrun
  have hcells : cells = [] := hpartition.describes.head_eq_zero_iff.mp rfl
  rw [hcells] at htotal
  exact absurd htotal (by decide)

end Zambesii.VSwamp
