import Zambesii.LinkedCells

/-!
Singly linked nodes in a flat memory, with a pointer to the first and one to the last node.
-/

namespace Zambesii.NodeChain

open Function List
open LinkedCells

structure Node (α : Type*) where
  payload : α
  next : Ptr
deriving DecidableEq

abbrev Nodes (α : Type*) := Ptr → Option (Node α)

variable {α : Type*}

def linkTo (nodes : Nodes α) (node target : Ptr) : Nodes α :=
  fun address =>
    if address = node then (nodes address).map fun n => { n with next := target }
    else nodes address

def setLink (nodes : Nodes α) (node target : Ptr) : Option (Nodes α) :=
  (nodes node).map fun _ => linkTo nodes node target

/-- The nodes are linked one after the other, the last one to `stop`. -/
def Chain (nodes : Nodes α) (stop : Ptr) : List (Ptr × α) → Prop
  | [] => True
  | cell :: rest => nodes cell.1 = some ⟨cell.2, headPtr stop rest⟩ ∧ Chain nodes stop rest

variable {nodes : Nodes α} {stop : Ptr} {cells : List (Ptr × α)}

theorem setLink_of_some {node : Ptr} {n : Node α} (h : nodes node = some n) (target : Ptr) :
    setLink nodes node target = some (linkTo nodes node target) := by
  simp [setLink, h]

theorem linkTo_of_ne {node address : Ptr} (h : address ≠ node) (target : Ptr) :
    linkTo nodes node target address = nodes address := by
  simp [linkTo, h]

theorem chain_append (nodes : Nodes α) (stop : Ptr) (front back : List (Ptr × α)) :
    Chain nodes stop (front ++ back) ↔
      Chain nodes (headPtr stop back) front ∧ Chain nodes stop back := by
  induction front with
  | nil => simp [Chain]
  | cons cell rest ih => simp only [cons_append, Chain, headPtr_append, ih, and_assoc]

theorem Chain.congr {nodes' : Nodes α} (h : Chain nodes stop cells)
    (hagree : ∀ address ∈ cells.map Prod.fst, nodes' address = nodes address) :
    Chain nodes' stop cells := by
  induction cells with
  | nil => trivial
  | cons cell rest ih =>
    refine ⟨(hagree cell.1 (by simp)).trans h.1, ih h.2 ?_⟩
    intro address haddress
    exact hagree address (mem_cons_of_mem _ haddress)

theorem Chain.of_mem (h : Chain nodes stop cells) {address : Ptr}
    (haddress : address ∈ cells.map Prod.fst) : ∃ node, nodes address = some node := by
  induction cells with
  | nil => simp at haddress
  | cons cell rest ih =>
    rcases mem_cons.mp haddress with rfl | hrest
    · exact ⟨_, h.1⟩
    · exact ih h.2 hrest

theorem Chain.linkTo {cell : Ptr × α} (h : Chain nodes stop (cells ++ [cell]))
    (hnodup : ((cells ++ [cell]).map Prod.fst).Nodup) (target : Ptr) :
    Chain (linkTo nodes cell.1 target) target (cells ++ [cell]) := by
  rw [chain_append] at h ⊢
  rw [map_append, nodup_append] at hnodup
  refine ⟨h.1.congr ?_, ?_, trivial⟩
  · intro address haddress
    exact linkTo_of_ne (hnodup.2.2 address haddress cell.1 (by simp)) target
  · simp [NodeChain.linkTo, h.2.1, headPtr]

structure Queued (nodes : Nodes α) (head tail : Ptr) (cells : List (Ptr × α)) : Prop where
  nodup : (cells.map Prod.fst).Nodup
  nonnull : 0 ∉ cells.map Prod.fst
  head_eq : head = headPtr 0 cells
  tail_eq : tail = lastPtr 0 cells
  chain : Chain nodes 0 cells

section

variable {nodes nodes' : Nodes α} {head tail : Ptr} {cells front back : List (Ptr × α)}
  {cell : Ptr × α}

theorem queued_nil (nodes : Nodes α) : Queued nodes 0 0 [] :=
  ⟨nodup_nil, by simp, rfl, rfl, trivial⟩

variable (h : Queued nodes head tail cells)

include h

theorem Queued.congr (hagree : ∀ address ∈ cells.map Prod.fst, nodes' address = nodes address) :
    Queued nodes' head tail cells :=
  ⟨h.nodup, h.nonnull, h.head_eq, h.tail_eq, h.chain.congr hagree⟩

theorem Queued.head_eq_zero_iff : head = 0 ↔ cells = [] := by
  rw [h.head_eq]
  cases cells with
  | nil => simp [headPtr]
  | cons cell rest =>
    have hne : cell.1 ≠ 0 := fun hzero => h.nonnull (by simp [hzero])
    simp [headPtr, hne]

theorem Queued.tail_eq_zero_iff : tail = 0 ↔ cells = [] := by
  rw [h.tail_eq]
  cases cells with
  | nil => simp [lastPtr]
  | cons cell rest =>
    have hne : lastPtr 0 (cell :: rest) ≠ 0 := fun hzero =>
      h.nonnull (hzero ▸ lastPtr_mem 0 cell rest)
    simp [hne]

theorem Queued.push {address : Ptr} (hne : address ≠ 0)
    (hfresh : address ∉ cells.map Prod.fst) (payload : α) :
    Queued (update nodes address (some ⟨payload, head⟩)) address
      (if tail = 0 then address else tail) ((address, payload) :: cells) := by
  refine ⟨?_, ?_, rfl, ?_, ?_, h.chain.congr ?_⟩
  · rw [map_cons, nodup_cons]
    exact ⟨hfresh, h.nodup⟩
  · rw [map_cons, mem_cons, not_or]
    exact ⟨hne.symm, h.nonnull⟩
  · rcases eq_or_ne cells [] with rfl | hcells
    · rw [if_pos (h.tail_eq_zero_iff.mpr rfl)]
      rfl
    · rw [if_neg fun hzero => hcells (h.tail_eq_zero_iff.mp hzero), h.tail_eq]
      exact lastPtr_eq_of_ne_nil hcells 0 address
  · rw [update_self, h.head_eq]
  · intro other hother
    exact update_of_ne (ne_of_mem_of_not_mem hother hfresh) _ _

omit h

theorem Queued.append (h : Queued nodes head tail (front ++ [cell])) {address : Ptr}
    (hne : address ≠ 0) (hfresh : address ∉ (front ++ [cell]).map Prod.fst) (payload : α) :
    setLink (update nodes address (some ⟨payload, 0⟩)) tail address =
        some (linkTo (update nodes address (some ⟨payload, 0⟩)) tail address) ∧
      Queued (linkTo (update nodes address (some ⟨payload, 0⟩)) tail address) head address
        (front ++ [cell] ++ [(address, payload)]) := by
  have htail : tail = cell.1 := by simpa [lastPtr] using h.tail_eq
  have hupdated : Chain (update nodes address (some ⟨payload, 0⟩)) 0 (front ++ [cell]) := by
    refine h.chain.congr ?_
    intro other hother
    exact update_of_ne (ne_of_mem_of_not_mem hother hfresh) _ _
  have haddress : address ≠ cell.1 := fun heq => hfresh (by simp [heq])
  obtain ⟨node, hnode⟩ := hupdated.of_mem (by simp : cell.1 ∈ (front ++ [cell]).map Prod.fst)
  rw [htail]
  refine ⟨setLink_of_some hnode address, ?_, ?_, ?_, ?_, ?_⟩
  · rw [map_append, nodup_append]
    refine ⟨h.nodup, by simp, ?_⟩
    rintro other hother _ hnew rfl
    rw [map_cons, map_nil, mem_singleton] at hnew
    rw [hnew] at hother
    exact hfresh hother
  · rw [map_append, mem_append, not_or]
    exact ⟨h.nonnull, by simpa using hne.symm⟩
  · have hcells : front ++ [cell] ≠ [] := by simp
    rw [h.head_eq, headPtr_append _ (front ++ [cell])]
    exact headPtr_eq_of_ne_nil hcells _ _
  · simp [lastPtr]
  · rw [chain_append]
    refine ⟨hupdated.linkTo h.nodup address, ?_, trivial⟩
    rw [linkTo_of_ne haddress, update_self]
    rfl

theorem Queued.pop (h : Queued nodes head tail (cell :: cells)) :
    nodes head = some ⟨cell.2, headPtr 0 cells⟩ ∧
      Queued (update nodes head none) (headPtr 0 cells)
        (if head = tail then 0 else tail) cells := by
  have hhead : head = cell.1 := h.head_eq
  obtain ⟨hnotMem, hnodup⟩ := nodup_cons.mp h.nodup
  have hnonnull : 0 ∉ cells.map Prod.fst := fun hmem => h.nonnull (mem_cons_of_mem _ hmem)
  refine ⟨hhead ▸ h.chain.1, hnodup, hnonnull, rfl, ?_, h.chain.2.congr ?_⟩
  · cases cells with
    | nil =>
      have htail : tail = cell.1 := h.tail_eq
      rw [if_pos (hhead.trans htail.symm)]
      rfl
    | cons next rest =>
      have hlast := lastPtr_mem 0 next rest
      have htail : tail = lastPtr 0 (next :: rest) := h.tail_eq
      rw [if_neg fun heq => hnotMem (by rw [← hhead, heq, htail]; exact hlast), htail]
  · intro address haddress
    exact update_of_ne (fun heq => hnotMem (by rw [← hhead, ← heq]; exact haddress)) _ _

theorem Queued.unlink {prev : Ptr × α} (h : Queued nodes head tail (front ++ prev :: cell :: back)) :
    setLink nodes prev.1 (headPtr 0 back) = some (linkTo nodes prev.1 (headPtr 0 back)) ∧
      Queued (update (linkTo nodes prev.1 (headPtr 0 back)) cell.1 none) head
        (if headPtr 0 back = 0 then prev.1 else tail) (front ++ prev :: back) := by
  have hsplit : front ++ prev :: cell :: back = (front ++ [prev]) ++ cell :: back := by simp
  have hjoin : front ++ prev :: back = (front ++ [prev]) ++ back := by simp
  have hnodup := h.nodup
  have hchain := h.chain
  rw [hsplit, map_append, map_cons, nodup_append] at hnodup
  rw [hsplit, chain_append] at hchain
  obtain ⟨hfront, hback, hapart⟩ := hnodup
  obtain ⟨hnotMem, hback⟩ := nodup_cons.mp hback
  have hprev : nodes prev.1 = some ⟨prev.2, cell.1⟩ := ((chain_append _ _ _ _).mp hchain.1).2.1
  refine ⟨setLink_of_some hprev _, ?_, ?_, ?_, ?_, ?_⟩
  · rw [hjoin, map_append, nodup_append]
    refine ⟨hfront, hback, ?_⟩
    intro first hfirst second hsecond
    exact hapart first hfirst second (mem_cons_of_mem _ hsecond)
  · intro hmem
    apply h.nonnull
    simp only [map_append, map_cons, mem_append, mem_cons] at hmem ⊢
    tauto
  · rw [h.head_eq, hsplit, hjoin, headPtr_append, headPtr_append _ (front ++ [prev])]
    exact headPtr_eq_of_ne_nil (by simp : front ++ [prev] ≠ []) _ _
  · cases back with
    | nil => simp [headPtr, lastPtr]
    | cons next rest =>
      have hne : headPtr 0 (next :: rest) ≠ 0 := fun hzero =>
        h.nonnull (by simp [show next.1 = 0 from hzero])
      rw [if_neg hne, h.tail_eq]
      simp [lastPtr]
  · rw [hjoin, chain_append]
    constructor
    · refine (hchain.1.linkTo hfront (headPtr 0 back)).congr ?_
      intro address haddress
      exact update_of_ne (hapart address haddress cell.1 (by simp)) _ _
    · refine hchain.2.2.congr ?_
      intro address haddress
      have hcell : address ≠ cell.1 := fun heq => hnotMem (heq ▸ haddress)
      have hne : address ≠ prev.1 := fun heq =>
        hapart prev.1 (by simp) address (mem_cons_of_mem _ haddress) heq.symm
      rw [update_of_ne hcell, linkTo_of_ne hne]

end

end Zambesii.NodeChain
