import Mathlib.Order.Nat
import Mathlib.Data.Multiset.AddSub
import Zambesii.KernelTypes
import Zambesii.LinkedCells
import Zambesii.Runs

/-!
`SortedHeapDoubleList`: the doubly linked list that the timer queues and the
timer streams keep their requests in. The functions below write the links in
the order the class template does; a dereference of an unallocated node, or a
walk that does not end, makes them return `none`.
-/

namespace Zambesii.SortedHeapDoubleList

open KernelTypes LinkedCells List Runs

/-- `sListNode` without its links. -/
structure ListNode (τ κ : Type) where
  criterion : κ
  item : τ
deriving DecidableEq

/-- `sListState` together with the memory the list's nodes live in. -/
structure ListState (τ κ : Type) where
  mem : Memory (ListNode τ κ)
  head : Ptr
  tail : Ptr
  nItems : Nat

inductive AddMode
  | ascending
  | descending
deriving DecidableEq

def empty {τ κ : Type} (mem : Memory (ListNode τ κ)) : ListState τ κ :=
  ⟨mem, 0, 0, 0⟩

/-- `addItem`. `newNode` is the address the node allocation returned, `none` when
it failed. -/
def addItem {τ κ : Type} [LE κ] [LT κ] [DecidableLE κ] [DecidableLT κ]
    (list : ListState τ κ) (newNode : Option Ptr) (item : τ) (criterion : κ)
    (mode : AddMode) : Option (Kerror × ListState τ κ) :=
  if mode = .descending then some (.unimplemented, list)
  else
    match newNode with
    | none => some (.memoryNomem, list)
    | some node =>
      let mem := store list.mem node ⟨⟨criterion, item⟩, 0, 0⟩
      if list.head = 0 then do
        let mem ← setPrev mem node 0
        let mem ← setNext mem node 0
        some (.success, ⟨mem, node, node, list.nItems + 1⟩)
      else do
        let headCell ← mem list.head
        if list.head = list.tail then
          -- Greater and equal criteria go after the only item.
          if headCell.payload.criterion ≤ criterion then
            let mem ← setPrev mem node list.head
            let mem ← setNext mem node 0
            let mem ← setNext mem list.head node
            some (.success, ⟨mem, list.head, node, list.nItems + 1⟩)
          else
            let mem ← setPrev mem node 0
            let mem ← setNext mem node list.head
            let mem ← setPrev mem list.head node
            some (.success, ⟨mem, node, list.tail, list.nItems + 1⟩)
        else if criterion < headCell.payload.criterion then
          let mem ← setPrev mem node 0
          let mem ← setNext mem node list.head
          let mem ← setPrev mem list.head node
          some (.success, ⟨mem, node, list.tail, list.nItems + 1⟩)
        else
          let tailCell ← mem list.tail
          if tailCell.payload.criterion ≤ criterion then
            let mem ← setPrev mem node list.tail
            let mem ← setNext mem node 0
            let mem ← setNext mem list.tail node
            some (.success, ⟨mem, list.head, node, list.nItems + 1⟩)
          else
            -- The loop stops at the first node that is not above the new one.
            let curr ← seek mem (fun other => decide (other.criterion ≤ criterion))
              list.nItems list.head
            if curr = 0 then some (.unknown, { list with mem := mem })
            else
              let currCell ← mem curr
              let mem ← setPrev mem node curr
              let mem ← setNext mem node currCell.next
              let mem ← setPrev mem currCell.next node
              let mem ← setNext mem curr node
              some (.success, ⟨mem, list.head, list.tail, list.nItems + 1⟩)

def removeItem {τ κ : Type} [DecidableEq τ] (list : ListState τ κ) (item : τ) :
    Option (ListState τ κ) := do
  let curr ← seek list.mem (fun node => decide (node.item = item)) list.nItems list.head
  if curr = 0 then some list
  else
    let currCell ← list.mem curr
    let (mem, head) ←
      if list.head = curr then
        if currCell.next = 0 then some (list.mem, currCell.next)
        else (setPrev list.mem currCell.next 0).map fun mem => (mem, currCell.next)
      else (setNext list.mem currCell.prev currCell.next).map fun mem => (mem, list.head)
    let (mem, tail) ←
      if list.tail = curr then
        if currCell.prev = 0 then some (mem, currCell.prev)
        else (setNext mem currCell.prev 0).map fun mem => (mem, currCell.prev)
      else (setPrev mem currCell.next currCell.prev).map fun mem => (mem, list.tail)
    some ⟨release mem curr, head, tail, list.nItems - 1⟩

/-- `popFromHead`: the item, `none` for a null return, and the list afterwards. -/
def popFromHead {τ κ : Type} (list : ListState τ κ) : Option (Option τ × ListState τ κ) :=
  let tail := if list.tail = list.head then 0 else list.tail
  if list.head = 0 then some (none, { list with tail := tail })
  else do
    let tmp ← list.mem list.head
    let mem ← if tmp.next = 0 then some list.mem else setPrev list.mem tmp.next 0
    some (some tmp.payload.item, ⟨release mem list.head, tmp.next, tail, list.nItems - 1⟩)

def popFromTail {τ κ : Type} (list : ListState τ κ) : Option (Option τ × ListState τ κ) :=
  let head := if list.head = list.tail then 0 else list.head
  if list.tail = 0 then some (none, { list with head := head })
  else do
    let tmp ← list.mem list.tail
    let mem ← if tmp.prev = 0 then some list.mem else setNext list.mem tmp.prev 0
    some (some tmp.payload.item, ⟨release mem list.tail, head, tmp.prev, list.nItems - 1⟩)

def getHead {τ κ : Type} (list : ListState τ κ) : Option (Option τ) :=
  if list.head = 0 then some none
  else (list.mem list.head).map fun cell => some cell.payload.item

/-- The links, the end pointers and the item count all describe `cells`. -/
structure Represents {τ κ : Type} (list : ListState τ κ)
    (cells : List (Ptr × ListNode τ κ)) : Prop where
  describes : Describes list.mem list.head list.tail cells
  nItems_eq : list.nItems = cells.length

variable {τ κ : Type}

theorem represents_empty (mem : Memory (ListNode τ κ)) : Represents (empty mem) [] :=
  ⟨describes_nil mem, rfl⟩

variable {front : List (Ptr × ListNode τ κ)} {cell : Ptr × ListNode τ κ}

theorem unlink_describes {list : ListState τ κ} {back : List (Ptr × ListNode τ κ)} (h : Describes list.mem list.head list.tail (front ++ cell :: back))
    {mem : Memory (ListNode τ κ)} {head tail : Ptr} (hmem : ∀ address ≠ 0, mem address =
      withPrev (withNext list.mem (lastPtr 0 front) (headPtr 0 back))
        (headPtr 0 back) (lastPtr 0 front) address)
    (hhead : head = headPtr 0 (front ++ back)) (htail : tail = lastPtr 0 (front ++ back)) :
    Describes (release mem cell.1) head tail (front ++ back) := by
  refine h.erase.congr ?_ hhead htail
  intro address haddress
  by_cases hcell : address = cell.1
  · simp [release, hcell]
  · simp [release, hcell, hmem address haddress]

theorem removeItem_found [DecidableEq τ] {list : ListState τ κ} {item : τ}
    {back : List (Ptr × ListNode τ κ)}
    (h : Represents list (front ++ cell :: back)) (hfront : ∀ other ∈ front, other.2.item ≠ item)
    (hcell : cell.2.item = item) :
    ∃ list', removeItem list item = some list' ∧ Represents list' (front ++ back) := by
  have hd := h.describes
  have hseek : seek list.mem (fun node => decide (node.item = item)) list.nItems list.head =
      some cell.1 := by
    rw [hd.head_eq, seek_linked hd.linked hd.nonnull (by rw [h.nItems_eq])]
    rw [dropWhile_append_of_pos (by simpa using hfront)]
    simp [hcell, headPtr]
  have hne : cell.1 ≠ 0 := fun hzero => hd.nonnull (by simp [← hzero])
  have hlen : list.nItems - 1 = (front ++ back).length := by rw [h.nItems_eq]; simp
  have hheadIff := hd.head_eq_cell_iff
  have htailIff := hd.tail_eq_cell_iff
  have hprevIff := hd.lastPtr_front_eq_zero_iff
  have hd' : Describes list.mem list.head list.tail ((front ++ [cell]) ++ back) := by simpa using hd
  have hnextIff := hd'.headPtr_back_eq_zero_iff
  obtain ⟨hlfront, -, hlback⟩ := (linked_append list.mem 0 0 front (cell :: back)).mp hd.linked
  rw [removeItem, hseek]
  simp only [some_bind, hne, if_false, hd.cell, hheadIff, htailIff, hprevIff, hnextIff]
  by_cases hf : front = [] <;> by_cases hb : back = []
  · subst hf hb
    refine ⟨_, rfl, unlink_describes hd ?_ rfl rfl, hlen⟩
    intro address haddress
    simp [withPrev, withNext, headPtr, lastPtr, haddress]
  · subst hf
    obtain ⟨c, hc⟩ := linked_headPtr_some hlback hb 0
    have hc' : withPrev list.mem (headPtr 0 back) 0 (headPtr 0 back) =
        some { c with prev := 0 } := by simp [withPrev, hc]
    simp only [if_true, hb, if_false, setPrev_of_some hc, Option.map_some, some_bind,
      lastPtr, setPrev_of_some hc']
    refine ⟨_, rfl, unlink_describes hd ?_ rfl ?_, hlen⟩
    · intro address haddress
      rcases eq_or_ne address (headPtr 0 back) with rfl | hnext
      · simp [withPrev, withNext, lastPtr, haddress, hc]
      · simp [withPrev, withNext, lastPtr, haddress, hnext]
    · rw [hd.tail_eq]
      exact lastPtr_eq_of_ne_nil hb cell.1 0
  · subst hb
    obtain ⟨c, hc⟩ := linked_lastPtr_some hlfront hf 0
    have hc' : withNext list.mem (lastPtr 0 front) 0 (lastPtr 0 front) =
        some { c with next := 0 } := by simp [withNext, hc]
    simp only [if_true, hf, if_false, setNext_of_some hc, Option.map_some, some_bind,
      headPtr, setNext_of_some hc']
    refine ⟨_, rfl, unlink_describes hd ?_ ?_ (by simp), hlen⟩
    · intro address haddress
      rcases eq_or_ne address (lastPtr 0 front) with rfl | hprev
      · simp [withPrev, withNext, headPtr, haddress, hc]
      · simp [withPrev, withNext, headPtr, haddress, hprev]
    · rw [hd.head_eq, headPtr_append, append_nil]
      exact headPtr_eq_of_ne_nil hf cell.1 0
  · obtain ⟨c, hc⟩ := linked_lastPtr_some hlfront hf 0
    have hlast : lastPtr 0 front ∉ back.map Prod.fst :=
      fun hmem => hd.lastPtr_notMem (mem_cons_of_mem _ hmem)
    obtain ⟨c', hc'⟩ := linked_headPtr_some
      (linked_withNext_of_notMem (lastPtr 0 front) (headPtr 0 back) hlast hlback) hb 0
    simp only [hf, hb, if_false, setNext_of_some hc, Option.map_some, some_bind,
      setPrev_of_some hc']
    refine ⟨_, rfl, unlink_describes hd (fun _ _ => rfl) ?_ ?_, hlen⟩
    · rw [hd.head_eq, headPtr_append, headPtr_append]
      exact headPtr_eq_of_ne_nil hf _ _
    · rw [hd.tail_eq, lastPtr_append, lastPtr_append]
      exact lastPtr_eq_of_ne_nil hb _ _

theorem removeItem_spec [DecidableEq τ] {list : ListState τ κ} {cells : List (Ptr × ListNode τ κ)}
    (h : Represents list cells) (item : τ) :
    ∃ list', removeItem list item = some list' ∧
      Represents list' (cells.eraseP fun cell => decide (cell.2.item = item)) := by
  rcases em (∃ cell ∈ cells, cell.2.item = item) with hfound | hnone
  · obtain ⟨cell, hmem, hitem⟩ := hfound
    obtain ⟨found, front, back, hfront, hcell, rfl, herase⟩ :=
      exists_of_eraseP (p := fun node => decide (node.2.item = item)) hmem
        (decide_eq_true hitem)
    rw [herase]
    exact removeItem_found h (fun other hother => by simpa using hfront other hother)
      (by simpa using hcell)
  have hall : ∀ cell ∈ cells, cell.2.item ≠ item :=
    fun cell hcell hitem => hnone ⟨cell, hcell, hitem⟩
  have hd := h.describes
  refine ⟨list, ?_, ?_⟩
  · rw [removeItem, hd.head_eq, seek_linked hd.linked hd.nonnull (by rw [h.nItems_eq])]
    rw [dropWhile_eq_nil_iff.mpr (by simpa using hall)]
    simp [headPtr]
  · rw [eraseP_of_forall_not (by simpa using hall)]
    exact h

theorem popFromHead_nil {list : ListState τ κ} (h : Represents list []) :
    popFromHead list = some (none, list) := by
  have hhead : list.head = 0 := h.describes.head_eq
  cases list
  simp_all [popFromHead]

theorem popFromHead_cons {list : ListState τ κ}
    {rest : List (Ptr × ListNode τ κ)} (h : Represents list (cell :: rest)) :
    ∃ list', popFromHead list = some (some cell.2.item, list') ∧ Represents list' rest := by
  have hd : Describes list.mem list.head list.tail ([] ++ cell :: rest) := h.describes
  have hhead : list.head = cell.1 := hd.head_eq
  have hne : cell.1 ≠ 0 := fun hzero => hd.nonnull (by simp [← hzero])
  have hcell : list.mem cell.1 = some ⟨cell.2, 0, headPtr 0 rest⟩ := hd.cell
  have hlen : list.nItems - 1 = rest.length := by rw [h.nItems_eq]; simp
  have htail := hd.tail_eq_cell_iff
  have hnext : headPtr 0 rest = 0 ↔ rest = [] := by
    have hd' : Describes list.mem list.head list.tail ([cell] ++ rest) := hd
    exact hd'.headPtr_back_eq_zero_iff
  simp only [popFromHead, hhead, hne, if_false, hcell, some_bind, htail, hnext]
  by_cases hrest : rest = []
  · subst hrest
    refine ⟨_, rfl, ?_, hlen⟩
    refine unlink_describes hd ?_ rfl (by simp [lastPtr])
    intro address haddress
    simp [withPrev, withNext, headPtr, lastPtr, haddress]
  · obtain ⟨c, hc⟩ := linked_headPtr_some hd.linked.2 hrest 0
    simp only [hrest, if_false, setPrev_of_some hc, some_bind]
    refine ⟨_, rfl, unlink_describes hd ?_ rfl ?_, hlen⟩
    · intro address haddress
      simp [withPrev, withNext, lastPtr, haddress]
    · rw [hd.tail_eq]
      exact lastPtr_eq_of_ne_nil hrest cell.1 0

theorem getHead_spec {list : ListState τ κ} {cells : List (Ptr × ListNode τ κ)}
    (h : Represents list cells) :
    getHead list = some (cells.head?.map fun cell => cell.2.item) := by
  have hd := h.describes
  cases cells with
  | nil =>
    have hhead : list.head = 0 := hd.head_eq
    simp [getHead, hhead]
  | cons cell rest =>
    have hhead : list.head = cell.1 := hd.head_eq
    have hne : cell.1 ≠ 0 := fun hzero => hd.nonnull (by simp [← hzero])
    have hcell := hd.linked.1
    simp [getHead, hhead, hne, hcell]

theorem popFromTail_nil {list : ListState τ κ} (h : Represents list []) :
    popFromTail list = some (none, list) := by
  have htail : list.tail = 0 := h.describes.tail_eq
  cases list
  simp_all [popFromTail]

theorem popFromTail_concat {list : ListState τ κ} (h : Represents list (front ++ [cell])) :
    ∃ list', popFromTail list = some (some cell.2.item, list') ∧ Represents list' front := by
  have hd := h.describes
  have htail : list.tail = cell.1 := by rw [hd.tail_eq]; simp [lastPtr]
  have hne : cell.1 ≠ 0 := fun hzero => hd.nonnull (by simp [← hzero])
  have hcell := hd.cell
  have hlen : list.nItems - 1 = front.length := by rw [h.nItems_eq]; simp
  have hhead := hd.head_eq_cell_iff
  have hprev := hd.lastPtr_front_eq_zero_iff
  have herased {mem : Memory (ListNode τ κ)} {head tail : Ptr}
      (hdesc : Describes mem head tail (front ++ [])) : Describes mem head tail front := by
    simpa using hdesc
  simp only [popFromTail, htail, hne, if_false, hcell, some_bind, hhead, hprev]
  by_cases hfront : front = []
  · subst hfront
    refine ⟨_, rfl, ?_, hlen⟩
    refine unlink_describes hd ?_ rfl rfl
    intro address haddress
    simp [withPrev, withNext, headPtr, lastPtr, haddress]
  have hlinked := ((linked_append list.mem 0 0 front [cell]).mp hd.linked).1
  obtain ⟨c, hc⟩ := linked_lastPtr_some hlinked hfront 0
  simp only [hfront, if_false, setNext_of_some hc, some_bind]
  refine ⟨_, rfl, herased (unlink_describes hd ?_ ?_ (by simp)), hlen⟩
  · intro address haddress
    simp [withPrev, withNext, headPtr, haddress]
  · rw [hd.head_eq, headPtr_append, append_nil]
    exact headPtr_eq_of_ne_nil hfront cell.1 0

/-- The sequence `addItem` makes of a sequence that is ordered by `key`: what belongs
neither before the head nor after the tail always goes directly after the head. -/
def insertByKey {α κ : Type} [LE κ] [LT κ] [DecidableLE κ] [DecidableLT κ] (key : α → κ)
    (new : α) : List α → List α
  | [] => [new]
  | first :: rest =>
    if key new < key first then new :: first :: rest
    else if key (rest.getLastD first) ≤ key new then first :: rest ++ [new]
    else first :: new :: rest

def insertCells {τ κ : Type} [LE κ] [LT κ] [DecidableLE κ] [DecidableLT κ]
    (new : Ptr × ListNode τ κ) (cells : List (Ptr × ListNode τ κ)) : List (Ptr × ListNode τ κ) :=
  insertByKey (fun cell => cell.2.criterion) new cells

theorem insertCells_cons [LE κ] [LT κ] [DecidableLE κ] [DecidableLT κ]
    (new first : Ptr × ListNode τ κ) (rest : List (Ptr × ListNode τ κ)) :
    insertCells new (first :: rest) =
      if new.2.criterion < first.2.criterion then new :: first :: rest
      else if (rest.getLastD first).2.criterion ≤ new.2.criterion then first :: rest ++ [new]
      else first :: new :: rest :=
  rfl

section

variable {τ κ : Type} {list : ListState τ κ} {node : Ptr}

theorem link_describes {payload : ListNode τ κ} {front back : List (Ptr × ListNode τ κ)}
    (h : Describes list.mem list.head list.tail (front ++ back))
    (hfresh : node ∉ (front ++ back).map Prod.fst) (hnull : node ≠ 0)
    {mem : Memory (ListNode τ κ)} {head tail : Ptr} (hmem : ∀ address ≠ 0, mem address = withPrev
        (withNext (store list.mem node ⟨payload, lastPtr 0 front, headPtr 0 back⟩)
          (lastPtr 0 front) node) (headPtr 0 back) node address)
    (hhead : head = headPtr 0 (front ++ (node, payload) :: back))
    (htail : tail = lastPtr 0 (front ++ (node, payload) :: back)) :
    Describes mem head tail (front ++ (node, payload) :: back) :=
  (h.insert (node, payload) hfresh hnull).congr hmem hhead htail

variable {first : Ptr × ListNode τ κ} {rest : List (Ptr × ListNode τ κ)}

theorem linkHead (payload : ListNode τ κ)
    (h : Describes list.mem list.head list.tail (first :: rest))
    (hfresh : node ∉ (first :: rest).map Prod.fst) (hnull : node ≠ 0) :
    ∃ mem, setPrev (store list.mem node ⟨payload, 0, list.head⟩) list.head node = some mem ∧
      Describes mem node list.tail ((node, payload) :: first :: rest) := by
  have hhead : list.head = first.1 := h.head_eq
  have hne : first.1 ≠ node := fun heq => hfresh (by simp [heq])
  have hcell : store list.mem node ⟨payload, 0, list.head⟩ list.head =
      some ⟨first.2, 0, headPtr 0 rest⟩ := by
    rw [hhead, store_of_ne hne]
    exact h.linked.1
  refine ⟨_, setPrev_of_some hcell node, ?_⟩
  have h' : Describes list.mem list.head list.tail ([] ++ first :: rest) := h
  refine link_describes h' hfresh hnull ?_ rfl h.tail_eq
  intro address haddress
  simp [withPrev, withNext, lastPtr, headPtr, haddress, hhead]

theorem linkTail (payload : ListNode τ κ)
    (h : Describes list.mem list.head list.tail (first :: rest))
    (hfresh : node ∉ (first :: rest).map Prod.fst) (hnull : node ≠ 0) :
    ∃ mem, setNext (store list.mem node ⟨payload, list.tail, 0⟩) list.tail node = some mem ∧
      Describes mem list.head node (first :: rest ++ [(node, payload)]) := by
  have hne : list.tail ≠ node := by
    intro heq
    apply hfresh
    rw [← heq, h.tail_eq]
    exact lastPtr_mem 0 first rest
  obtain ⟨c, hc⟩ := linked_lastPtr_some h.linked (by simp) 0
  have hcell : store list.mem node ⟨payload, list.tail, 0⟩ list.tail = some c := by
    rw [store_of_ne hne, h.tail_eq, hc]
  refine ⟨_, setNext_of_some hcell node, ?_⟩
  have h' : Describes list.mem list.head list.tail (first :: rest ++ []) := by simpa using h
  refine link_describes h' (by simpa using hfresh) hnull ?_ h.head_eq (by simp [lastPtr])
  intro address haddress
  simp [withPrev, headPtr, haddress, ← h.tail_eq]

theorem linkAfterHead (payload : ListNode τ κ) {second : Ptr × ListNode τ κ}
    (h : Describes list.mem list.head list.tail (first :: second :: rest))
    (hfresh : node ∉ (first :: second :: rest).map Prod.fst) (hnull : node ≠ 0) :
    ∃ mem mem', setPrev (store list.mem node ⟨payload, first.1, second.1⟩) second.1 node =
        some mem ∧ setNext mem first.1 node = some mem' ∧
      Describes mem' list.head list.tail (first :: (node, payload) :: second :: rest) := by
  have hnodup := h.nodup
  simp only [map_cons, nodup_cons, mem_cons, not_or] at hnodup hfresh
  have hsecond : store list.mem node ⟨payload, first.1, second.1⟩ second.1 =
      some ⟨second.2, first.1, headPtr 0 rest⟩ := by
    rw [store_of_ne (Ne.symm hfresh.2.1)]
    exact h.linked.2.1
  have hfirst : withPrev (store list.mem node ⟨payload, first.1, second.1⟩) second.1 node
      first.1 = some ⟨first.2, 0, second.1⟩ := by
    simp only [withPrev, hnodup.1.1, if_false]
    rw [store_of_ne (Ne.symm hfresh.1)]
    exact h.linked.1
  refine ⟨_, _, setPrev_of_some hsecond node, setNext_of_some hfirst node, ?_⟩
  have h' : Describes list.mem list.head list.tail ([first] ++ second :: rest) := h
  refine link_describes h' (by simpa using hfresh) hnull ?_ h.head_eq h.tail_eq
  intro address haddress
  rcases eq_or_ne address first.1 with rfl | hne
  · simp [withPrev, withNext, lastPtr, headPtr, hnodup.1.1]
  · simp [withPrev, withNext, lastPtr, headPtr, hne]

theorem le_of_not_gt_total [Preorder κ] [@Std.Total κ (· ≤ ·)] {a b : κ} (h : ¬ a < b) : b ≤ a := by
  rcases Std.Total.total (r := (· ≤ ·)) a b with hab | hba
  · exact Classical.byContradiction fun hba => h (lt_of_le_not_ge hab hba)
  · exact hba

variable [Preorder κ] [@Std.Total κ (· ≤ ·)] [DecidableLE κ] [DecidableLT κ]

theorem addItem_spec {cells : List (Ptr × ListNode τ κ)} (h : Represents list cells)
    (item : τ) (criterion : κ) (hfresh : node ∉ cells.map Prod.fst) (hnull : node ≠ 0) :
    ∃ list', addItem list (some node) item criterion .ascending = some (.success, list') ∧
      Represents list' (insertCells (node, ⟨criterion, item⟩) cells) := by
  have hd := h.describes
  cases cells with
  | nil =>
    have hhead : list.head = 0 := hd.head_eq
    refine ⟨⟨store list.mem node ⟨⟨criterion, item⟩, 0, 0⟩, node, node, list.nItems + 1⟩,
      by simp [addItem, hhead], ?_, by simp [insertCells, insertByKey, h.nItems_eq]⟩
    have hd' : Describes list.mem list.head list.tail ([] ++ []) := hd
    refine link_describes hd' hfresh hnull ?_ rfl rfl
    intro address haddress
    simp [withPrev, withNext, lastPtr, headPtr, haddress]
  | cons first rest =>
    have hhead : list.head = first.1 := hd.head_eq
    have hheadNe : list.head ≠ 0 := by
      rw [hhead]
      exact fun hzero => hd.nonnull (by simp [← hzero])
    have hfirstNe : first.1 ≠ node := fun heq => hfresh (by simp [heq])
    have hheadCell : store list.mem node ⟨⟨criterion, item⟩, 0, 0⟩ list.head =
        some ⟨first.2, 0, headPtr 0 rest⟩ := by
      rw [hhead, store_of_ne hfirstNe]
      exact hd.linked.1
    have hsingle : list.head = list.tail ↔ rest = [] := by
      have hd' : Describes list.mem list.head list.tail ([] ++ first :: rest) := hd
      rw [hhead, eq_comm, hd'.tail_eq_cell_iff]
    have htailCell : ∃ c, store list.mem node ⟨⟨criterion, item⟩, 0, 0⟩ list.tail = some c ∧
        c.payload = (rest.getLastD first).2 := by
      have hne : list.tail ≠ node := by
        intro heq
        apply hfresh
        rw [← heq, hd.tail_eq]
        exact lastPtr_mem 0 first rest
      rw [store_of_ne hne, hd.tail_eq]
      exact linked_lastPtr_cell hd.linked
    by_cases hlt : criterion < first.2.criterion
    · obtain ⟨mem, hset, hdesc⟩ := linkHead ⟨criterion, item⟩ hd hfresh hnull
      have hnle : ¬ first.2.criterion ≤ criterion := not_le_of_gt hlt
      refine ⟨⟨mem, node, list.tail, list.nItems + 1⟩, ?_, ?_⟩
      · by_cases hrest : rest = [] <;>
          simp [addItem, hheadNe, hheadCell, hsingle, hrest, hlt, hnle, hset]
      · rw [insertCells_cons, if_pos hlt]
        exact ⟨hdesc, by simp [h.nItems_eq]⟩
    have hle := le_of_not_gt_total hlt
    by_cases hlast : (rest.getLastD first).2.criterion ≤ criterion
    · obtain ⟨mem, hset, hdesc⟩ := linkTail ⟨criterion, item⟩ hd hfresh hnull
      obtain ⟨c, hc, hpayload⟩ := htailCell
      rw [← hpayload] at hlast
      refine ⟨⟨mem, list.head, node, list.nItems + 1⟩, ?_, ?_⟩
      · by_cases hrest : rest = []
        · rw [← hsingle.mpr hrest] at hset
          simp [addItem, hheadNe, hheadCell, hsingle, hrest, hle, hset]
        · simp [addItem, hheadNe, hheadCell, hsingle, hrest, hlt, hc, hlast, hset]
      · rw [insertCells_cons, if_neg hlt, if_pos (hpayload ▸ hlast)]
        exact ⟨hdesc, by simp [h.nItems_eq]⟩
    cases rest with
    | nil => exact absurd hle hlast
    | cons second rest =>
      obtain ⟨mem, mem', hset, hset', hdesc⟩ :=
        linkAfterHead ⟨criterion, item⟩ hd hfresh hnull
      obtain ⟨c, hc, hpayload⟩ := htailCell
      have hnle : ¬ c.payload.criterion ≤ criterion := by rwa [hpayload]
      -- The head is not above the new node, so the walk ends there.
      have hseek : seek (store list.mem node ⟨⟨criterion, item⟩, 0, 0⟩)
          (fun other => decide (other.criterion ≤ criterion)) list.nItems list.head =
            some list.head := by
        rw [h.nItems_eq, length_cons, seek]
        simp [hheadNe, hheadCell, hle]
      rw [← hhead] at hset hset'
      refine ⟨⟨mem', list.head, list.tail, list.nItems + 1⟩, ?_, ?_⟩
      · simp [addItem, hheadNe, hheadCell, hsingle, hlt, hc, hnle, hseek, headPtr, hset, hset']
      · rw [insertCells_cons, if_neg hlt, if_neg hlast]
        exact ⟨hdesc, by simp [h.nItems_eq]⟩

end

section

variable {α κ : Type} {key : α → κ}

def SortedBy [LE κ] (key : α → κ) (items : List α) : Prop :=
  items.Pairwise fun earlier later => key earlier ≤ key later

/-- A criterion belongs before the head, after the tail, or directly after the
head. -/
def BelongsNearEnd [LE κ] [LT κ] (key : α → κ) (criterion : κ) : List α → Prop
  | first :: second :: rest =>
    criterion < key first ∨ key (rest.getLastD second) ≤ criterion ∨ criterion ≤ key second
  | _ => True

theorem insertByKey_perm [LE κ] [LT κ] [DecidableLE κ] [DecidableLT κ] (key : α → κ) (new : α)
    (items : List α) : (insertByKey key new items).Perm (new :: items) := by
  cases items with
  | nil => exact .refl _
  | cons first rest =>
    simp only [insertByKey]
    split
    · exact .refl _
    · split
      · exact perm_append_singleton new (first :: rest)
      · exact .swap new first rest

theorem head?_insertByKey [LE κ] [LT κ] [DecidableLE κ] [DecidableLT κ] (key : α → κ) (new : α)
    (items : List α) : (insertByKey key new items).head? =
      some (match items.head? with
        | none => new
        | some first => if key new < key first then new else first) := by
  cases items with
  | nil => rfl
  | cons first rest =>
    simp only [insertByKey, head?_cons]
    split
    · rfl
    · split <;> rfl

theorem le_getLastD_of_sorted [Preorder κ] {first : α} {rest : List α}
    (h : SortedBy key (first :: rest)) :
    ∀ item ∈ first :: rest, key item ≤ key (rest.getLastD first) := by
  induction rest generalizing first with
  | nil =>
    intro item hitem
    rw [mem_singleton.mp hitem]
    exact le_refl _
  | cons second rest ih =>
    rw [getLastD_cons]
    have hrest : SortedBy key (second :: rest) := (pairwise_cons.mp h).2
    intro item hitem
    rcases mem_cons.mp hitem with rfl | hitem
    · exact le_trans ((pairwise_cons.mp h).1 second (by simp)) (ih hrest second (by simp))
    · exact ih hrest item hitem

variable [Preorder κ] [@Std.Total κ (· ≤ ·)] [DecidableLE κ] [DecidableLT κ]

theorem sorted_insertByKey_iff {new : α} {items : List α} (h : SortedBy key items) :
    SortedBy key (insertByKey key new items) ↔ BelongsNearEnd key (key new) items := by
  cases items with
  | nil => simp [insertByKey, BelongsNearEnd, SortedBy]
  | cons first rest =>
    have hfirst := (pairwise_cons.mp h).1
    by_cases hlt : key new < key first
    · have hsorted : SortedBy key (new :: first :: rest) := by
        refine pairwise_cons.mpr ⟨?_, h⟩
        intro item hitem
        rcases mem_cons.mp hitem with rfl | hitem
        · exact le_of_lt hlt
        · exact le_trans (le_of_lt hlt) (hfirst item hitem)
      rw [insertByKey, if_pos hlt]
      cases rest <;> simp [BelongsNearEnd, hsorted, hlt]
    have hle := le_of_not_gt_total hlt
    by_cases hlast : key (rest.getLastD first) ≤ key new
    · have hsorted : SortedBy key (first :: rest ++ [new]) := by
        refine pairwise_append.mpr ⟨h, pairwise_singleton _ _, ?_⟩
        intro item hitem other hother
        rw [mem_singleton.mp hother]
        exact le_trans (le_getLastD_of_sorted h item hitem) hlast
      rw [insertByKey, if_neg hlt, if_pos hlast]
      cases rest with
      | nil => exact iff_of_true hsorted trivial
      | cons second rest =>
        rw [getLastD_cons] at hlast
        exact iff_of_true hsorted (.inr (.inl hlast))
    rw [insertByKey, if_neg hlt, if_neg hlast]
    cases rest with
    | nil => exact absurd hle hlast
    | cons second rest =>
      rw [getLastD_cons] at hlast
      have hrest : SortedBy key (second :: rest) := (pairwise_cons.mp h).2
      simp only [BelongsNearEnd, hlt, hlast, false_or]
      constructor
      · intro hsorted
        have htail := (pairwise_cons.mp hsorted).2
        exact (pairwise_cons.mp htail).1 second (by simp)
      · intro hsecond
        refine pairwise_cons.mpr ⟨?_, pairwise_cons.mpr ⟨?_, hrest⟩⟩
        · intro item hitem
          rcases mem_cons.mp hitem with rfl | hitem
          · exact hle
          · exact hfirst item hitem
        · intro item hitem
          rcases mem_cons.mp hitem with rfl | hitem
          · exact hsecond
          · exact le_trans hsecond ((pairwise_cons.mp hrest).1 item hitem)

end

section

variable {τ κ : Type}

def Sorted [LE κ] (cells : List (Ptr × ListNode τ κ)) : Prop :=
  SortedBy (fun cell => cell.2.criterion) cells

instance [LE κ] [DecidableLE κ] (cells : List (Ptr × ListNode τ κ)) : Decidable (Sorted cells) :=
  inferInstanceAs (Decidable (cells.Pairwise _))

theorem insertCells_perm [LE κ] [LT κ] [DecidableLE κ] [DecidableLT κ]
    (new : Ptr × ListNode τ κ) (cells : List (Ptr × ListNode τ κ)) :
    (insertCells new cells).Perm (new :: cells) :=
  insertByKey_perm _ new cells

def InsertsInOrder [LE κ] [LT κ] (list : ListState τ κ) (criterion : κ) : Prop :=
  match list.mem list.head, list.mem list.tail with
  | some headCell, some tailCell =>
    criterion < headCell.payload.criterion ∨ tailCell.payload.criterion ≤ criterion ∨
      match list.mem headCell.next with
      | some nextCell => criterion ≤ nextCell.payload.criterion
      | none => True
  | _, _ => True

theorem belongsNearEnd_of_insertsInOrder [LE κ] [LT κ] {list : ListState τ κ}
    {cells : List (Ptr × ListNode τ κ)} (h : Represents list cells) {criterion : κ}
    (horder : InsertsInOrder list criterion) :
    BelongsNearEnd (fun cell => cell.2.criterion) criterion cells := by
  have hd := h.describes
  match cells with
  | [] => trivial
  | [_] => trivial
  | first :: second :: rest =>
    have hhead : list.mem list.head = some ⟨first.2, 0, second.1⟩ := by
      rw [hd.head_eq]
      exact hd.linked.1
    have hnext := hd.linked.2.1
    obtain ⟨tailCell, htail, hpayload⟩ := linked_lastPtr_cell hd.linked
    rw [getLastD_cons] at hpayload
    have htail' : list.mem list.tail = some tailCell := by
      rw [hd.tail_eq]
      exact htail
    simp only [InsertsInOrder, hhead, htail', hnext, hpayload] at horder
    exact horder

end

section

variable {τ κ : Type}

/-- One call on the list. `node` is the address that the allocation inside
`addItem` returns. -/
inductive Call (τ κ : Type)
  | addItem (node : Ptr) (item : τ) (criterion : κ)
  | removeItem (item : τ)
  | popFromHead
  | popFromTail
deriving DecidableEq

inductive Answer (τ : Type)
  | status (code : Kerror)
  | done
  | popped (item : Option τ)
deriving DecidableEq

def step [DecidableEq τ] [LE κ] [LT κ] [DecidableLE κ] [DecidableLT κ]
    (list : ListState τ κ) : Call τ κ → Option (Answer τ × ListState τ κ)
  | .addItem node item criterion =>
    (addItem list (some node) item criterion .ascending).map fun r => (.status r.1, r.2)
  | .removeItem item => (removeItem list item).map fun list' => (.done, list')
  | .popFromHead => (popFromHead list).map fun r => (.popped r.1, r.2)
  | .popFromTail => (popFromTail list).map fun r => (.popped r.1, r.2)

inductive BagStep [LE κ] :
    Multiset (ListNode τ κ) → Call τ κ → Answer τ → Multiset (ListNode τ κ) → Prop
  | addItem (bag : Multiset (ListNode τ κ)) (node : Ptr) (item : τ) (criterion : κ) :
      BagStep bag (.addItem node item criterion) (.status .success) (⟨criterion, item⟩ ::ₘ bag)
  | removeAbsent (bag : Multiset (ListNode τ κ)) (item : τ) (h : ∀ other ∈ bag, other.item ≠ item) :
      BagStep bag (.removeItem item) .done bag
  | removeItem (bag : Multiset (ListNode τ κ)) (node : ListNode τ κ) :
      BagStep (node ::ₘ bag) (.removeItem node.item) .done bag
  | popFromHeadEmpty : BagStep 0 .popFromHead (.popped none) 0
  | popFromHead (bag : Multiset (ListNode τ κ)) (node : ListNode τ κ)
      (h : ∀ other ∈ bag, node.criterion ≤ other.criterion) :
      BagStep (node ::ₘ bag) .popFromHead (.popped (some node.item)) bag
  | popFromTailEmpty : BagStep 0 .popFromTail (.popped none) 0
  | popFromTail (bag : Multiset (ListNode τ κ)) (node : ListNode τ κ)
      (h : ∀ other ∈ bag, other.criterion ≤ node.criterion) :
      BagStep (node ::ₘ bag) .popFromTail (.popped (some node.item)) bag

def SortedBag [LE κ] (list : ListState τ κ) (bag : Multiset (ListNode τ κ)) : Prop :=
  ∃ cells, Represents list cells ∧ Sorted cells ∧ (cells.map Prod.snd : Multiset _) = bag

def AllocatesFresh (list : ListState τ κ) : Call τ κ → Prop
  | .addItem node _ _ => node ≠ 0 ∧ list.mem node = none
  | _ => True

def CallInOrder [LE κ] [LT κ] (list : ListState τ κ) : Call τ κ → Prop
  | .addItem _ _ criterion => InsertsInOrder list criterion
  | _ => True

variable {list : ListState τ κ} {bag : Multiset (ListNode τ κ)}

theorem notMem_of_allocatesFresh {cells : List (Ptr × ListNode τ κ)} (h : Represents list cells)
    {node : Ptr} (hfresh : list.mem node = none) : node ∉ cells.map Prod.fst := by
  intro hmem
  obtain ⟨c, hc⟩ := linked_mem_some h.describes.linked hmem
  rw [hfresh] at hc
  contradiction

variable [DecidableEq τ] [Preorder κ] [DecidableLE κ] [DecidableLT κ]

theorem step_removeItem (h : SortedBag list bag) (item : τ) :
    ∃ list' bag', step list (.removeItem item) = some (.done, list') ∧
      BagStep bag (.removeItem item) .done bag' ∧ SortedBag list' bag' := by
  obtain ⟨cells, hrep, hsorted, rfl⟩ := h
  obtain ⟨list', hremove, hrep'⟩ := removeItem_spec hrep item
  refine ⟨list', _, by simp [step, hremove], ?_, _, hrep', ?_, rfl⟩
  · rcases exists_or_eq_self_of_eraseP (fun cell => decide (cell.2.item = item)) cells with
      heq | ⟨cell, front, back, -, hcell, rfl, herase⟩
    · rw [heq]
      refine .removeAbsent _ _ ?_
      intro other hother hitem
      obtain ⟨cell, hcell, rfl⟩ := mem_map.mp hother
      exact eraseP_eq_self_iff.mp heq cell hcell (decide_eq_true hitem)
    · rw [herase]
      have hitem : cell.2.item = item := by simpa using hcell
      have hbag : (((front ++ cell :: back).map Prod.snd : List _) : Multiset (ListNode τ κ)) =
          cell.2 ::ₘ ((front ++ back).map Prod.snd : List _) := by
        simp
      rw [hbag, ← hitem]
      exact .removeItem _ _
  · exact hsorted.sublist (eraseP_sublist)

theorem step_popFromHead (h : SortedBag list bag) :
    ∃ answer list' bag', step list .popFromHead = some (answer, list') ∧
      BagStep bag .popFromHead answer bag' ∧ SortedBag list' bag' := by
  obtain ⟨cells, hrep, hsorted, rfl⟩ := h
  cases cells with
  | nil =>
    exact ⟨_, list, 0, by simp [step, popFromHead_nil hrep], .popFromHeadEmpty, [], hrep,
      hsorted, rfl⟩
  | cons cell rest =>
    obtain ⟨list', hpop, hrep'⟩ := popFromHead_cons hrep
    obtain ⟨hmin, hrest⟩ := pairwise_cons.mp hsorted
    refine ⟨.popped (some cell.2.item), list', (rest.map Prod.snd : List _), by simp [step, hpop],
      ?_, rest, hrep', hrest, rfl⟩
    rw [map_cons, ← Multiset.cons_coe]
    refine .popFromHead _ cell.2 ?_
    intro other hother
    obtain ⟨node, hnode, rfl⟩ := mem_map.mp hother
    exact hmin node hnode

theorem step_popFromTail (h : SortedBag list bag) :
    ∃ answer list' bag', step list .popFromTail = some (answer, list') ∧
      BagStep bag .popFromTail answer bag' ∧ SortedBag list' bag' := by
  obtain ⟨cells, hrep, hsorted, rfl⟩ := h
  rcases eq_nil_or_concat cells with rfl | ⟨front, cell, rfl⟩
  · exact ⟨_, list, 0, by simp [step, popFromTail_nil hrep], .popFromTailEmpty, [], hrep, hsorted,
      rfl⟩
  rw [concat_eq_append] at hrep hsorted ⊢
  obtain ⟨list', hpop, hrep'⟩ := popFromTail_concat hrep
  obtain ⟨hfront, -, hmax⟩ := pairwise_append.mp hsorted
  have hbag : (((front ++ [cell]).map Prod.snd : List _) : Multiset (ListNode τ κ)) =
      cell.2 ::ₘ (front.map Prod.snd : List _) := by
    simp
  rw [hbag]
  refine ⟨.popped (some cell.2.item), list', (front.map Prod.snd : List _), by simp [step, hpop],
    .popFromTail _ cell.2 ?_, front, hrep', hfront, rfl⟩
  intro other hother
  obtain ⟨node, hnode, rfl⟩ := mem_map.mp hother
  exact hmax node hnode cell (by simp)

variable [@Std.Total κ (· ≤ ·)]

theorem step_addItem (h : SortedBag list bag) {node : Ptr} (item : τ) {criterion : κ}
    (hnull : node ≠ 0) (hfresh : list.mem node = none) (horder : InsertsInOrder list criterion) :
    ∃ list', step list (.addItem node item criterion) = some (.status .success, list') ∧
      SortedBag list' (⟨criterion, item⟩ ::ₘ bag) := by
  obtain ⟨cells, hrep, hsorted, rfl⟩ := h
  obtain ⟨list', hadd, hrep'⟩ :=
    addItem_spec hrep item criterion (notMem_of_allocatesFresh hrep hfresh) hnull
  refine ⟨list', by simp [step, hadd], _, hrep', ?_, ?_⟩
  · exact (sorted_insertByKey_iff hsorted).mpr (belongsNearEnd_of_insertsInOrder hrep horder)
  · have hperm := (insertCells_perm (node, ⟨criterion, item⟩) cells).map Prod.snd
    exact Multiset.coe_eq_coe.mpr hperm

theorem step_refines_bag (list : ListState τ κ) (bag : Multiset (ListNode τ κ)) (call : Call τ κ)
    (h : SortedBag list bag) (hguard : AllocatesFresh list call ∧ CallInOrder list call) :
    ∃ answer list' bag', step list call = some (answer, list') ∧ BagStep bag call answer bag' ∧
      SortedBag list' bag' := by
  cases call with
  | addItem node item criterion =>
    obtain ⟨⟨hnull, hfresh⟩, horder⟩ := hguard
    obtain ⟨list', hstep, hbag⟩ := step_addItem h item hnull hfresh horder
    exact ⟨_, list', _, hstep, .addItem bag node item criterion, hbag⟩
  | removeItem item =>
    obtain ⟨list', bag', hstep, hspec, hbag⟩ := step_removeItem h item
    exact ⟨_, list', bag', hstep, hspec, hbag⟩
  | popFromHead => exact step_popFromHead h
  | popFromTail => exact step_popFromTail h

/-- Every run whose insertions belong near an end answers as the bag does, and
leaves a sorted list of the bag's nodes. -/
theorem run_refines_bag (mem : Memory (ListNode τ κ)) (calls : List (Call τ κ))
    (h : Guarded step (fun list call => AllocatesFresh list call ∧ CallInOrder list call)
      (empty mem) calls) :
    ∃ answers list bag, run step (empty mem) calls = some (answers, list) ∧
      SpecRun BagStep 0 calls answers bag ∧ SortedBag list bag :=
  run_refines step_refines_bag ⟨[], represents_empty mem, List.Pairwise.nil, rfl⟩ h

end

def nearEndCalls : List (Call Nat Nat) :=
  [.addItem 1 100 1, .addItem 2 101 5, .addItem 3 102 10, .removeItem 101, .popFromHead]

theorem run_refines_bag_nearEnd :
    ∃ answers list bag, run step (empty fun _ => none) nearEndCalls = some (answers, list) ∧
      SpecRun BagStep 0 nearEndCalls answers bag ∧ SortedBag list bag := by
  apply run_refines_bag
  refine (guarded_cons rfl).mpr ⟨⟨⟨by decide, rfl⟩, trivial⟩, ?_⟩
  refine (guarded_cons rfl).mpr ⟨⟨⟨by decide, rfl⟩, .inr (.inl (by decide : 1 ≤ 5))⟩, ?_⟩
  refine (guarded_cons rfl).mpr ⟨⟨⟨by decide, rfl⟩, .inr (.inl (by decide : 5 ≤ 10))⟩, ?_⟩
  refine (guarded_cons rfl).mpr ⟨⟨trivial, trivial⟩, ?_⟩
  exact (guarded_cons rfl).mpr ⟨⟨trivial, trivial⟩, trivial⟩

def middleCalls : List (Call Nat Nat) :=
  [.addItem 1 100 1, .addItem 2 101 5, .addItem 3 102 10, .addItem 4 103 7]

theorem middle_insertion_unsorted :
    ¬ ∀ calls : List (Call Nat Nat), Guarded step AllocatesFresh (empty fun _ => none) calls →
      ∃ answers list bag, run step (empty fun _ => none) calls = some (answers, list) ∧
        SpecRun BagStep 0 calls answers bag ∧ SortedBag list bag := by
  intro hclaim
  have hfresh : Guarded step AllocatesFresh (empty fun _ => none) middleCalls := by
    refine (guarded_cons rfl).mpr ⟨⟨by decide, rfl⟩, ?_⟩
    refine (guarded_cons rfl).mpr ⟨⟨by decide, rfl⟩, ?_⟩
    refine (guarded_cons rfl).mpr ⟨⟨by decide, rfl⟩, ?_⟩
    exact (guarded_cons rfl).mpr ⟨⟨by decide, rfl⟩, trivial⟩
  obtain ⟨answers, list, bag, hrun, -, cells, hrep, hsorted, -⟩ := hclaim middleCalls hfresh
  have hlinked : Linked list.mem 0 0
      [(1, ⟨1, 100⟩), (4, ⟨7, 103⟩), (2, ⟨5, 101⟩), (3, ⟨10, 102⟩)] := by
    cases hrun
    exact ⟨rfl, rfl, rfl, rfl, trivial⟩
  have hhead : list.head = 1 := by
    cases hrun
    rfl
  have hcells := linked_unique hrep.describes.linked hlinked hrep.describes.nonnull (by decide)
    (hrep.describes.head_eq ▸ hhead)
  rw [hcells] at hsorted
  exact absurd hsorted (by decide)

end Zambesii.SortedHeapDoubleList
