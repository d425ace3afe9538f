import Zambesii.KernelTypes
import Zambesii.LinkedCells

/-!
`HeapDoubleList<void>`: the list under the message queues. Items are pointers to
objects, and the null pointer is also what `popFromHead` returns on an empty list.
-/

namespace Zambesii.HeapDoubleList

open KernelTypes LinkedCells

/-- `sListState` together with the memory the list's nodes live in. -/
structure ListState where
  mem : Memory Ptr
  head : Ptr
  tail : Ptr
  nItems : Nat

inductive AddMode
  | head
  | tail
deriving DecidableEq

def empty (mem : Memory Ptr) : ListState :=
  ⟨mem, 0, 0, 0⟩

/-- `addItem`. `newNode` is the address the node allocation returned, `none` when
it failed. -/
def addItem (list : ListState) (newNode : Option Ptr) (item : Ptr) (mode : AddMode) :
    Option (Kerror × ListState) :=
  match newNode with
  | none => some (.memoryNomem, list)
  | some node =>
    match mode with
    | .head => do
        let mem := store list.mem node ⟨item, 0, list.head⟩
        let mem ← setPrevIfAny mem list.head node
        let tail := if list.head = 0 then node else list.tail
        some (.success, ⟨mem, node, tail, list.nItems + 1⟩)
    | .tail => do
        let mem := store list.mem node ⟨item, list.tail, 0⟩
        let mem ← setNextIfAny mem list.tail node
        let head := if list.tail = 0 then node else list.head
        some (.success, ⟨mem, head, node, list.nItems + 1⟩)

/-- `popFromHead`: the item and the list afterwards. -/
def popFromHead (list : ListState) : Option (Ptr × ListState) :=
  let tail := if list.tail = list.head then 0 else list.tail
  if list.head = 0 then some (0, { list with tail := tail })
  else do
    let tmp ← list.mem list.head
    let mem ← setPrevIfAny list.mem tmp.next 0
    some (tmp.payload, ⟨release mem list.head, tmp.next, tail, list.nItems - 1⟩)

/-- The links, the end pointers and the item count all describe a list of nodes that
holds `items`. -/
def Keeps (list : ListState) (items : List Ptr) : Prop :=
  ∃ cells, Describes list.mem list.head list.tail cells ∧ cells.map Prod.snd = items ∧
    list.nItems = items.length

theorem keeps_empty (mem : Memory Ptr) : Keeps (empty mem) [] :=
  ⟨[], describes_nil mem, rfl, rfl⟩

variable {list : ListState} {items : List Ptr}

theorem head_eq_zero_iff (h : Keeps list items) : list.head = 0 ↔ items = [] := by
  obtain ⟨cells, hd, rfl, -⟩ := h
  rw [hd.head_eq_zero_iff, List.map_eq_nil_iff]

def Allocated (list : ListState) (node : Ptr) : Prop :=
  node ≠ 0 ∧ list.mem node = none

instance (list : ListState) (node : Ptr) : Decidable (Allocated list node) :=
  inferInstanceAs (Decidable (_ ∧ _))

theorem addItem_keeps (h : Keeps list items) {node : Ptr} (hnode : Allocated list node)
    (item : Ptr) : ∃ list', addItem list (some node) item .tail = some (.success, list') ∧
      Keeps list' (items ++ [item]) := by
  obtain ⟨cells, hd, rfl, hcount⟩ := h
  have hnotMem : node ∉ cells.map Prod.fst := by
    intro hmem
    obtain ⟨c, hc⟩ := linked_mem_some hd.linked hmem
    rw [hnode.2] at hc
    contradiction
  have hd' : Describes list.mem list.head list.tail (cells ++ []) := by simpa using hd
  have hnew := hd'.insert (node, item) (by simpa using hnotMem) hnode.1
  have hlinked : Linked (store list.mem node ⟨item, list.tail, 0⟩) 0 0 cells :=
    linked_update_of_notMem _ _ hnotMem hd.linked
  obtain ⟨mem, hset, hmem⟩ := setNextIfAny_of_linked hlinked node
  rw [← hd.tail_eq] at hset hmem
  refine ⟨⟨mem, if list.tail = 0 then node else list.head, node, list.nItems + 1⟩, ?_,
    cells ++ [(node, item)], ?_, by simp, by simp [hcount]⟩
  · simp [addItem, hset]
  · refine hnew.congr ?_ ?_ (by simp [lastPtr_append, lastPtr])
    · intro address haddress
      refine (hmem address haddress).trans ?_
      simp [withPrev, headPtr, haddress, ← hd.tail_eq]
    · have hzero : list.tail = 0 ↔ cells = [] := by
        rw [hd.tail_eq]
        exact hd'.lastPtr_front_eq_zero_iff
      rcases eq_or_ne cells [] with rfl | hne
      · simp [hzero, headPtr]
      · rw [if_neg (fun htail => hne (hzero.mp htail)), hd.head_eq]
        cases cells with
        | nil => exact absurd rfl hne
        | cons cell rest => rfl

theorem popFromHead_keeps (h : Keeps list items) :
    ∃ list', popFromHead list = some (items.headD 0, list') ∧ Keeps list' items.tail := by
  obtain ⟨cells, hd, rfl, hcount⟩ := h
  cases cells with
  | nil =>
    have hhead : list.head = 0 := hd.head_eq
    refine ⟨list, ?_, [], hd, rfl, hcount⟩
    cases list
    simp_all [popFromHead]
  | cons cell rest =>
    have hd' : Describes list.mem list.head list.tail ([] ++ cell :: rest) := hd
    have hhead : list.head = cell.1 := hd.head_eq
    have hne : cell.1 ≠ 0 := fun hzero => hd.nonnull (by simp [← hzero])
    obtain ⟨mem, mem', hprev, hnext, hfinal⟩ := hd'.unlink
    have hmem : mem' = mem := by simpa [setNextIfAny, lastPtr] using hnext.symm
    have htail : (if list.tail = cell.1 then 0 else list.tail) = lastPtr 0 rest := by
      rw [hd.tail_eq]
      rcases eq_or_ne rest [] with rfl | hrest
      · simp [lastPtr]
      · rw [if_neg]
        · exact lastPtr_eq_of_ne_nil hrest cell.1 0
        · rw [← hd.tail_eq]
          exact fun heq => hrest (hd'.tail_eq_cell_iff.mp heq)
    refine ⟨⟨release mem cell.1, headPtr 0 rest, lastPtr 0 rest, list.nItems - 1⟩, ?_,
      rest, hfinal _ ?_, rfl, by simp [hcount]⟩
    · rw [popFromHead, hhead, if_neg hne, hd'.cell]
      simp only [lastPtr] at hprev
      simp [hprev, htail]
    · intro address haddress
      simp [release, haddress, hmem]

end Zambesii.HeapDoubleList
