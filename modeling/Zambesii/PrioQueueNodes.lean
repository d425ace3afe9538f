import Mathlib.Algebra.BigOperators.Group.Finset.Basic
import Zambesii.NodeChain
import Zambesii.PrioQueue

/-!
`PrioQueue` with the nodes of its queues, one operation at a time, and the levels that its
callers see.
-/

namespace Zambesii.PrioQueueNodes

open Function List Nat
open KernelTypes LinkedCells NodeChain PrioQueue Runs
open Multiset (add_cons cons_add cons_coe)

structure QueueState where
  nItems : Nat
  head : Ptr
  tail : Ptr
deriving DecidableEq

/-- The array of queues, `headQueue`, and the nodes that `nodeCache` has given out. -/
structure NodePrioQueue (T : Type) where
  nodes : Nodes T
  queues : Nat → QueueState
  headQueue : Int

def initialQueue (T : Type) : NodePrioQueue T where
  nodes := fun _ => none
  queues := fun _ => ⟨0, 0, 0⟩
  headQueue := -1

variable {T : Type}

def queueInsert (nodes : Nodes T) (queue : QueueState) (item : T) (front : Bool) (tmp : Ptr) :
    Option (Nodes T × QueueState) :=
  let nItems := (queue.nItems + 1) % wordModulus
  if front then
    some (update nodes tmp (some ⟨item, queue.head⟩),
      ⟨nItems, tmp, if queue.tail = 0 then tmp else queue.tail⟩)
  else
    let nodes := update nodes tmp (some ⟨item, 0⟩)
    if queue.tail ≠ 0 then
      (setLink nodes queue.tail tmp).map fun nodes => (nodes, ⟨nItems, queue.head, tmp⟩)
    else some (nodes, ⟨nItems, tmp, tmp⟩)

def queuePop (nodes : Nodes T) (queue : QueueState) : Option (Option T × Nodes T × QueueState) :=
  let tail := if queue.head = queue.tail then 0 else queue.tail
  if queue.head = 0 then some (none, nodes, ⟨queue.nItems, queue.head, tail⟩)
  else
    (nodes queue.head).map fun node =>
      (some node.payload, update nodes queue.head none,
        ⟨(queue.nItems + wordModulus - 1) % wordModulus, node.next, tail⟩)

def unlinkNode (nodes : Nodes T) (queue : QueueState) (prev tmp next : Ptr) :
    Option (Nodes T × QueueState) :=
  let nItems := (queue.nItems + wordModulus - 1) % wordModulus
  let tail := if next = 0 then prev else queue.tail
  if prev = 0 then some (update nodes tmp none, ⟨nItems, next, tail⟩)
  else
    (setLink nodes prev next).map fun nodes =>
      (update nodes tmp none, ⟨nItems, queue.head, tail⟩)

def removeFrom [DecidableEq T] (nodes : Nodes T) (queue : QueueState) (item : T) :
    Nat → Ptr → Ptr → Option (Nodes T × QueueState)
  | 0, _, tmp => if tmp = 0 then some (nodes, queue) else none
  | fuel + 1, prev, tmp =>
    if tmp = 0 then some (nodes, queue)
    else
      match nodes tmp with
      | none => none
      | some node =>
        if node.payload ≠ item then removeFrom nodes queue item fuel tmp node.next
        else unlinkNode nodes queue prev tmp node.next

/-- `Queue::remove`. There are fewer nodes than addresses. -/
def queueRemove [DecidableEq T] (nodes : Nodes T) (queue : QueueState) (item : T) :
    Option (Nodes T × QueueState) :=
  removeFrom nodes queue item wordModulus 0 queue.head

namespace NodePrioQueue

def put (npq : NodePrioQueue T) (prio : Nat) (nodes : Nodes T) (queue : QueueState) :
    NodePrioQueue T :=
  { npq with nodes := nodes, queues := update npq.queues prio queue }

def raiseHead (npq : NodePrioQueue T) (prio : Nat) : NodePrioQueue T :=
  if npq.headQueue = -1 ∨ (prio : Int) < npq.headQueue then { npq with headQueue := sbit16 prio }
  else npq

/-- The loop over the queues in `pop` and `remove`, with `remaining` turns left. -/
def scan (npq : NodePrioQueue T) (skip : Nat) : Nat → Nat → Option Nat
  | 0, _ => none
  | remaining + 1, i =>
    if i = skip then npq.scan skip remaining (i + 1)
    else if 0 < (npq.queues i).nItems then some i
    else npq.scan skip remaining (i + 1)

/-- The assignment to `headQueue` after the loop. -/
def storeHead (npq : NodePrioQueue T) : Option Nat → NodePrioQueue T
  | none => { npq with headQueue := -1 }
  | some i => { npq with headQueue := sbit16 i }

def insert (npq : NodePrioQueue T) (nPrios : Nat) (item : T) (prio : Nat) (front : Bool)
    (tmp : Ptr) : Option (Answer T × NodePrioQueue T) :=
  if nPrios ≤ prio then some (.failed .invalidArgVal, npq)
  else if tmp = 0 then some (.failed .memoryNomem, npq)
  else
    (queueInsert npq.nodes (npq.queues prio) item front tmp).map fun r =>
      (.inserted, (npq.put prio r.1 r.2).raiseHead prio)

def pop (npq : NodePrioQueue T) (nPrios : Nat) : Option (Answer T × NodePrioQueue T) :=
  if npq.headQueue = -1 then some (.popped none, npq)
  else
    let qId := ubit16 npq.headQueue
    (queuePop npq.nodes (npq.queues qId)).map fun r =>
      let popped := npq.put qId r.2.1 r.2.2
      (.popped r.1,
        if (popped.queues qId).nItems = 0 then popped.storeHead (popped.scan qId nPrios 0)
        else popped)

def remove [DecidableEq T] (npq : NodePrioQueue T) (nPrios : Nat) (item : T) (prio : Nat) :
    Option (Answer T × NodePrioQueue T) :=
  (queueRemove npq.nodes (npq.queues prio) item).map fun r =>
    let removed := npq.put prio r.1 r.2
    (.removed,
      if (prio : Int) = removed.headQueue ∧ (removed.queues prio).nItems = 0 then
        removed.storeHead (removed.scan prio nPrios 0)
      else removed)

end NodePrioQueue

inductive Call (T : Type)
  | insert (item : T) (prio : Nat) (front : Bool) (tmp : Ptr)
  | pop
  | remove (item : T) (prio : Nat)
deriving DecidableEq

def step [DecidableEq T] (nPrios : Nat) (npq : NodePrioQueue T) :
    Call T → Option (Answer T × NodePrioQueue T)
  | .insert item prio front tmp => npq.insert nPrios item prio front tmp
  | .pop => npq.pop nPrios
  | .remove item prio => npq.remove nPrios item prio

/-- `nodeCache` hands out unused nodes, and `remove` is called with the priority of one of
the queues. -/
def Legal (nPrios : Nat) (npq : NodePrioQueue T) : Call T → Prop
  | .insert _ _ _ tmp => tmp < wordModulus ∧ npq.nodes tmp = none
  | .pop => True
  | .remove _ prio => prio < nPrios

abbrev Levels (T : Type) := Nat → List T

inductive Serves [DecidableEq T] (nPrios : Nat) : Levels T → Call T → Answer T → Levels T → Prop
  | noSuchLevel {levels item prio front tmp} (hprio : nPrios ≤ prio) :
      Serves nPrios levels (.insert item prio front tmp) (.failed .invalidArgVal) levels
  | noMemory {levels item prio front} (hprio : prio < nPrios) :
      Serves nPrios levels (.insert item prio front 0) (.failed .memoryNomem) levels
  | insertedFront {levels item prio tmp} (hprio : prio < nPrios) (htmp : tmp ≠ 0) :
      Serves nPrios levels (.insert item prio true tmp) .inserted
        (update levels prio (item :: levels prio))
  | insertedBack {levels item prio tmp} (hprio : prio < nPrios) (htmp : tmp ≠ 0) :
      Serves nPrios levels (.insert item prio false tmp) .inserted
        (update levels prio (levels prio ++ [item]))
  | popped {levels item prio rest} (hprio : prio < nPrios) (hfirst : levels prio = item :: rest)
      (habove : ∀ level, level < prio → levels level = []) :
      Serves nPrios levels .pop (.popped (some item)) (update levels prio rest)
  | empty {levels} (hempty : ∀ level, level < nPrios → levels level = []) :
      Serves nPrios levels .pop (.popped none) levels
  | removed {levels item prio} (hprio : prio < nPrios) :
      Serves nPrios levels (.remove item prio) .removed
        (update levels prio ((levels prio).erase item))

structure Held (nodes : Nodes T) (queue : QueueState) (cells : List (Ptr × T)) : Prop where
  queued : Queued nodes queue.head queue.tail cells
  nItems_eq : queue.nItems = cells.length
  bounded : ∀ address ∈ cells.map Prod.fst, address < wordModulus

section

variable {nodes : Nodes T} {queue : QueueState} {cells : List (Ptr × T)}

theorem Held.congr {nodes' : Nodes T} (h : Held nodes queue cells)
    (hagree : ∀ address ∈ cells.map Prod.fst, nodes' address = nodes address) :
    Held nodes' queue cells :=
  ⟨h.queued.congr hagree, h.nItems_eq, h.bounded⟩

theorem length_lt_wordModulus {addresses : List Ptr} (hnodup : addresses.Nodup)
    (hnonnull : 0 ∉ addresses) (hbounded : ∀ address ∈ addresses, address < wordModulus) :
    addresses.length < wordModulus := by
  have hsubset : insert 0 addresses.toFinset ⊆ Finset.range wordModulus := by
    intro address haddress
    rw [Finset.mem_insert, mem_toFinset] at haddress
    rw [Finset.mem_range]
    rcases haddress with rfl | haddress
    · exact wordModulus_pos
    · exact hbounded address haddress
  have hcard := Finset.card_le_card hsubset
  rw [Finset.card_insert_of_notMem (by simpa using hnonnull), toFinset_card_of_nodup hnodup,
    Finset.card_range] at hcard
  omega

variable (h : Held nodes queue cells)

include h

theorem Held.length_lt : cells.length < wordModulus := by
  have hlength := length_lt_wordModulus h.queued.nodup h.queued.nonnull h.bounded
  rwa [length_map] at hlength

theorem Held.nItems_eq_zero_iff : queue.nItems = 0 ↔ cells = [] := by
  rw [h.nItems_eq, length_eq_zero_iff]

theorem Held.shrink {nodes' : Nodes T} {head tail : Ptr} {cells' : List (Ptr × T)} (hqueued : Queued nodes' head tail cells')
    (hlength : cells.length = cells'.length + 1) (hsubset : cells' ⊆ cells) :
    Held nodes' ⟨(queue.nItems + wordModulus - 1) % wordModulus, head, tail⟩ cells' := by
  refine ⟨hqueued, ?_, ?_⟩
  · have hlt := h.length_lt
    have hcount : queue.nItems + wordModulus - 1 = cells'.length + wordModulus := by
      rw [h.nItems_eq]
      omega
    rw [hcount, add_mod_right, mod_eq_of_lt (by omega)]
  · intro address haddress
    exact h.bounded address (map_subset Prod.fst hsubset haddress)

def Frame (cells : List (Ptr × T)) (nodes nodes' : Nodes T) : Prop :=
  ∀ address, address ∉ cells.map Prod.fst → nodes' address = nodes address

theorem Held.queueInsert {tmp : Ptr} (hne : tmp ≠ 0)
    (hbound : tmp < wordModulus) (hfresh : tmp ∉ cells.map Prod.fst) (item : T) (front : Bool) :
    ∃ nodes' queue' cells', queueInsert nodes queue item front tmp = some (nodes', queue') ∧
      Held nodes' queue' cells' ∧ Frame ((tmp, item) :: cells) nodes nodes' ∧
      cells' ⊆ (tmp, item) :: cells ∧
      cells'.map Prod.snd =
        if front then item :: cells.map Prod.snd else cells.map Prod.snd ++ [item] := by
  have hcount : ∀ cells' : List (Ptr × T), ∀ nodes' head tail, Queued nodes' head tail cells' →
      cells'.length = cells.length + 1 → cells' ⊆ (tmp, item) :: cells →
      Held nodes' ⟨(queue.nItems + 1) % wordModulus, head, tail⟩ cells' := by
    intro cells' nodes' head tail hqueued hlength hsubset
    have hbounded : ∀ address ∈ cells'.map Prod.fst, address < wordModulus := by
      intro address haddress
      rcases mem_cons.mp (map_subset Prod.fst hsubset haddress) with rfl | hold
      · exact hbound
      · exact h.bounded address hold
    refine ⟨hqueued, ?_, hbounded⟩
    have hlt := length_lt_wordModulus hqueued.nodup hqueued.nonnull hbounded
    rw [length_map, hlength] at hlt
    rw [h.nItems_eq, hlength, mod_eq_of_lt hlt]
  cases front with
  | true =>
    refine ⟨_, _, (tmp, item) :: cells, rfl, ?_, ?_, fun _ hcell => hcell, by simp⟩
    · exact hcount _ _ _ _ (h.queued.push hne hfresh item) (by simp) fun _ hcell => hcell
    · intro address haddress
      exact update_of_ne (fun heq => haddress (by simp [heq])) _ _
  | false =>
    rcases eq_nil_or_concat' cells with rfl | ⟨front, cell, rfl⟩
    · have htail : queue.tail = 0 := h.queued.tail_eq_zero_iff.mpr rfl
      have hpush := h.queued.push hne hfresh item
      rw [if_pos htail, h.queued.head_eq_zero_iff.mpr rfl] at hpush
      refine ⟨update nodes tmp (some ⟨item, 0⟩), ⟨(queue.nItems + 1) % wordModulus, tmp,
        tmp⟩, [(tmp, item)], ?_, ?_, ?_, fun _ hcell => hcell, by simp⟩
      · rw [PrioQueueNodes.queueInsert, if_neg (by simp), if_neg (by simp [htail])]
      · exact hcount _ _ _ _ hpush (by simp) fun _ hcell => hcell
      · intro address haddress
        exact update_of_ne (fun heq => haddress (by simp [heq])) _ _
    have htail : queue.tail ≠ 0 := by
      intro hzero
      have hnil := h.queued.tail_eq_zero_iff.mp hzero
      simp at hnil
    obtain ⟨hlink, hqueued⟩ := h.queued.append hne hfresh item
    have hsubset : front ++ [cell] ++ [(tmp, item)] ⊆ (tmp, item) :: (front ++ [cell]) := by
      intro other hother
      rcases mem_append.mp hother with hother | hother
      · exact mem_cons_of_mem _ hother
      · exact mem_cons.mpr (.inl (mem_singleton.mp hother))
    refine ⟨linkTo (update nodes tmp (some ⟨item, 0⟩)) queue.tail tmp,
      ⟨(queue.nItems + 1) % wordModulus, queue.head, tmp⟩, front ++ [cell] ++ [(tmp, item)],
      ?_, ?_, ?_, hsubset, by simp⟩
    · rw [PrioQueueNodes.queueInsert, if_neg (by simp), if_pos htail, hlink]
      rfl
    · exact hcount _ _ _ _ hqueued (by simp) hsubset
    · intro address haddress
      have htail' : queue.tail = cell.1 := by simpa [lastPtr] using h.queued.tail_eq
      rw [linkTo_of_ne (fun heq => haddress (by simp [heq, htail']))]
      exact update_of_ne (fun heq => haddress (by simp [heq])) _ _

omit h

theorem Held.queuePop {cell : Ptr × T} (h : Held nodes queue (cell :: cells)) :
    ∃ nodes' queue', queuePop nodes queue = some (some cell.2, nodes', queue') ∧
      Held nodes' queue' cells ∧ Frame (cell :: cells) nodes nodes' := by
  obtain ⟨hnode, hqueued⟩ := h.queued.pop
  have hhead : queue.head ≠ 0 := by
    intro hzero
    have hnil := h.queued.head_eq_zero_iff.mp hzero
    simp at hnil
  refine ⟨_, _, ?_, h.shrink hqueued rfl (subset_cons_self cell cells), ?_⟩
  · rw [PrioQueueNodes.queuePop, if_neg hhead, hnode]
    rfl
  · intro address haddress
    have hhead' : queue.head = cell.1 := h.queued.head_eq
    exact update_of_ne (fun heq => haddress (by simp [heq, hhead'])) _ _

section

variable [DecidableEq T]

theorem Held.unlinkNode {front back : List (Ptr × T)} {cell : Ptr × T}
    (h : Held nodes queue (front ++ cell :: back)) : ∃ nodes' queue',
      unlinkNode nodes queue (lastPtr 0 front) cell.1 (headPtr 0 back) = some (nodes', queue') ∧
      Held nodes' queue' (front ++ back) ∧ Frame (front ++ cell :: back) nodes nodes' := by
  have hlength : (front ++ cell :: back).length = (front ++ back).length + 1 := by
    simp only [length_append, length_cons]
    omega
  have hsubset : front ++ back ⊆ front ++ cell :: back := by
    intro other hother
    rcases mem_append.mp hother with hother | hother
    · simp [hother]
    · simp [hother]
  rcases eq_nil_or_concat' front with rfl | ⟨front, prev, rfl⟩
  · obtain ⟨-, hqueued⟩ := h.queued.pop
    have hhead : queue.head = cell.1 := h.queued.head_eq
    have htail : (if queue.head = queue.tail then 0 else queue.tail) =
        if headPtr 0 back = 0 then 0 else queue.tail := by
      have htail := h.queued.tail_eq
      have hnodup := h.queued.nodup
      have hnonnull := h.queued.nonnull
      cases back with
      | nil =>
        rw [if_pos (hhead.trans htail.symm)]
        rfl
      | cons next rest =>
        have hlast : queue.tail = lastPtr 0 (next :: rest) := htail
        have hne : queue.head ≠ queue.tail := by
          rw [hhead, hlast]
          exact fun heq => (nodup_cons.mp hnodup).1 (heq ▸ lastPtr_mem 0 next rest)
        have hnext : headPtr 0 (next :: rest) ≠ 0 := fun hzero =>
          hnonnull (by simp [show next.1 = 0 from hzero])
        rw [if_neg hne, if_neg hnext]
    refine ⟨_, _, ?_, h.shrink hqueued hlength hsubset, ?_⟩
    · rw [htail, hhead]
      rfl
    · intro address haddress
      exact update_of_ne (fun heq => haddress (by simp [heq, hhead])) _ _
  · have hsplit : front ++ [prev] ++ cell :: back = front ++ prev :: cell :: back := by simp
    have hjoin : front ++ [prev] ++ back = front ++ prev :: back := by simp
    obtain ⟨hlink, hqueued⟩ := (hsplit ▸ h.queued).unlink
    have hlast : lastPtr 0 (front ++ [prev]) = prev.1 := by simp [lastPtr]
    have hprev : prev.1 ≠ 0 := fun hzero => h.queued.nonnull (by simp [hzero])
    refine ⟨_, _, ?_, h.shrink (hjoin ▸ hqueued) hlength hsubset, ?_⟩
    · rw [PrioQueueNodes.unlinkNode, hlast, if_neg hprev, hlink]
      rfl
    · intro address haddress
      rw [update_of_ne (fun heq => haddress (by simp [heq])),
        linkTo_of_ne (fun heq => haddress (by simp [heq]))]

theorem Held.removeFrom (item : T) (front back : List (Ptr × T)) (fuel : Nat)
    (h : Held nodes queue (front ++ back)) (hfuel : back.length ≤ fuel)
    (hfront : item ∉ front.map Prod.snd) : ∃ nodes' queue' cells',
      removeFrom nodes queue item fuel (lastPtr 0 front) (headPtr 0 back) = some (nodes', queue') ∧
      Held nodes' queue' cells' ∧ Frame (front ++ back) nodes nodes' ∧ cells' ⊆ front ++ back ∧
      cells'.map Prod.snd = ((front ++ back).map Prod.snd).erase item := by
  induction back generalizing front fuel with
  | nil =>
    refine ⟨nodes, queue, front, ?_, by simpa using h, fun _ _ => rfl, by simp, ?_⟩
    · cases fuel <;> simp [PrioQueueNodes.removeFrom, headPtr]
    · rw [append_nil, erase_of_not_mem hfront]
  | cons cell rest ih =>
    obtain ⟨fuel, rfl⟩ : ∃ n, fuel = n + 1 := ⟨fuel - 1, by simp at hfuel; omega⟩
    have hne : cell.1 ≠ 0 := fun hzero => h.queued.nonnull (by simp [hzero])
    have hnode : nodes cell.1 = some ⟨cell.2, headPtr 0 rest⟩ :=
      ((chain_append _ _ _ _).mp h.queued.chain).2.1
    rcases eq_or_ne cell.2 item with hitem | hitem
    · obtain ⟨nodes', queue', hunlink, hheld, hframe⟩ := h.unlinkNode
      refine ⟨nodes', queue', front ++ rest, ?_, hheld, hframe, ?_, ?_⟩
      · simp only [PrioQueueNodes.removeFrom, headPtr, hne, if_false, hnode, hitem, ne_eq,
          not_true_eq_false]
        exact hunlink
      · intro other hother
        rcases mem_append.mp hother with hother | hother
        · simp [hother]
        · simp [hother]
      · rw [map_append, map_append, erase_append_right _ hfront, map_cons,
          hitem, erase_cons_head]
    have hsplit : front ++ cell :: rest = (front ++ [cell]) ++ rest := by simp
    have hlast : lastPtr 0 (front ++ [cell]) = cell.1 := by simp [lastPtr]
    have hfront' : item ∉ (front ++ [cell]).map Prod.snd := by simpa [hitem.symm] using hfront
    obtain ⟨nodes', queue', cells', hremove, hrest⟩ :=
      ih (front ++ [cell]) fuel (hsplit ▸ h) (by simpa using hfuel) hfront'
    rw [hsplit]
    refine ⟨nodes', queue', cells', ?_, hrest⟩
    rw [hlast] at hremove
    simp only [PrioQueueNodes.removeFrom, headPtr, hne, if_false, hnode, ne_eq, hitem,
      not_false_eq_true, if_true]
    exact hremove

theorem Held.queueRemove (h : Held nodes queue cells) (item : T) :
    ∃ nodes' queue' cells', queueRemove nodes queue item = some (nodes', queue') ∧
      Held nodes' queue' cells' ∧ Frame cells nodes nodes' ∧ cells' ⊆ cells ∧
      cells'.map Prod.snd = (cells.map Prod.snd).erase item := by
  have hremove := Held.removeFrom item [] cells wordModulus h h.length_lt.le (by simp)
  rwa [← h.queued.head_eq] at hremove

end

end

/-- The nodes are those of the queues `cells`, and `pq` is what they hold. -/
structure Holds (npq : NodePrioQueue T) (pq : PrioQueue T) (cells : Nat → List (Ptr × T)) :
    Prop where
  headQueue_eq : npq.headQueue = pq.headQueue
  queues_eq : ∀ q, pq.queues q = (cells q).map Prod.snd
  held : ∀ q, Held npq.nodes (npq.queues q) (cells q)
  apart : ∀ q r, q ≠ r → ∀ address ∈ (cells q).map Prod.fst, address ∉ (cells r).map Prod.fst

section

variable {npq : NodePrioQueue T} {pq : PrioQueue T} {cells : Nat → List (Ptr × T)}

theorem holds_initialQueue (T : Type) :
    Holds (initialQueue T) (emptyQueue T) fun _ => [] :=
  ⟨rfl, fun _ => rfl, fun _ => ⟨queued_nil _, rfl, by simp⟩, by simp⟩

variable (h : Holds npq pq cells)

include h

theorem Holds.nItems_eq_zero_iff (q : Nat) : (npq.queues q).nItems = 0 ↔ pq.queues q = [] := by
  rw [(h.held q).nItems_eq_zero_iff, h.queues_eq, map_eq_nil_iff]

theorem Holds.put {prio : Nat} {nodes' : Nodes T} {queue' : QueueState}
    {cells' scope : List (Ptr × T)} (hheld : Held nodes' queue' cells')
    (hframe : Frame scope npq.nodes nodes') (hsubset : cells' ⊆ scope)
    (hscope : ∀ q, q ≠ prio → ∀ address ∈ scope.map Prod.fst, address ∉ (cells q).map Prod.fst) :
    Holds (npq.put prio nodes' queue')
      { pq with queues := update pq.queues prio (cells'.map Prod.snd) }
      (update cells prio cells') := by
  refine ⟨h.headQueue_eq, ?_, ?_, ?_⟩
  · intro q
    rcases eq_or_ne q prio with rfl | hq
    · simp
    · simpa [hq] using h.queues_eq q
  · intro q
    rcases eq_or_ne q prio with rfl | hq
    · simpa [NodePrioQueue.put] using hheld
    · simp only [NodePrioQueue.put, update_of_ne hq]
      refine (h.held q).congr ?_
      intro address haddress
      exact hframe address fun hmem => hscope q hq address hmem haddress
  · have hother : ∀ q, q ≠ prio → ∀ address ∈ cells'.map Prod.fst,
        address ∉ (cells q).map Prod.fst := by
      intro q hq address haddress
      exact hscope q hq address (map_subset Prod.fst hsubset haddress)
    intro q r hqr address haddress hmem
    rcases eq_or_ne q prio with rfl | hq
    · rw [update_self] at haddress
      rw [update_of_ne hqr.symm] at hmem
      exact hother r hqr.symm address haddress hmem
    rw [update_of_ne hq] at haddress
    rcases eq_or_ne r prio with rfl | hr
    · rw [update_self] at hmem
      exact hother q hq address hmem haddress
    · rw [update_of_ne hr] at hmem
      exact h.apart q r hqr address haddress hmem

theorem Holds.withHead (head : Int) :
    Holds { npq with headQueue := head } { pq with headQueue := head } cells :=
  ⟨rfl, h.queues_eq, h.held, h.apart⟩

theorem Holds.raiseHead (prio : Nat) : Holds (npq.raiseHead prio) (pq.raiseHead prio) cells := by
  unfold NodePrioQueue.raiseHead PrioQueue.raiseHead
  rw [h.headQueue_eq]
  split
  · exact h.withHead (sbit16 prio)
  · exact h

theorem Holds.storeHead (target : Option Nat) :
    Holds (npq.storeHead target) (pq.storeHead target) cells := by
  cases target with
  | none => exact h.withHead (-1)
  | some i => exact h.withHead (sbit16 i)

theorem Holds.scan_eq (skip remaining i : Nat) :
    npq.scan skip remaining i = pq.scan skip remaining i := by
  induction remaining generalizing i with
  | zero => rfl
  | succ remaining ih =>
    simp only [NodePrioQueue.scan, PrioQueue.scan, ih, pos_iff_ne_zero, ne_eq,
      h.nItems_eq_zero_iff]

theorem Holds.insert {nPrios prio : Nat} (hprio : prio < nPrios)
    {tmp : Ptr} (hne : tmp ≠ 0) (hbound : tmp < wordModulus) (hfresh : npq.nodes tmp = none)
    (item : T) (front : Bool) :
    ∃ npq' cells', npq.insert nPrios item prio front tmp = some (.inserted, npq') ∧
      Holds npq' (pq.insert nPrios item prio front).2 cells' := by
  have hunused : ∀ q, tmp ∉ (cells q).map Prod.fst := by
    intro q hmem
    obtain ⟨node, hnode⟩ := (h.held q).queued.chain.of_mem hmem
    rw [hfresh] at hnode
    exact Option.some_ne_none node hnode.symm
  obtain ⟨nodes', queue', cells', hinsert, hheld, hframe, hsubset, hitems⟩ :=
    (h.held prio).queueInsert hne hbound (hunused prio) item front
  have hput := h.put hheld hframe hsubset (by
    intro q hq address haddress
    rcases mem_cons.mp haddress with rfl | haddress
    · exact hunused q
    · exact h.apart prio q hq.symm address haddress)
  refine ⟨(npq.put prio nodes' queue').raiseHead prio, update cells prio cells', ?_, ?_⟩
  · rw [NodePrioQueue.insert, if_neg (not_le.mpr hprio), if_neg hne, hinsert]
    rfl
  · rw [insert_of_lt pq hprio]
    have hqueue : pq.queueInsert item prio front =
        { pq with queues := update pq.queues prio (cells'.map Prod.snd) } := by
      rw [PrioQueue.queueInsert, hitems, h.queues_eq]
    rw [hqueue]
    exact hput.raiseHead prio

theorem Holds.pop (nPrios : Nat)
    (hhead : pq.headQueue ≠ -1 → pq.queues (ubit16 pq.headQueue) ≠ []) :
    ∃ npq' cells', npq.pop nPrios = some (.popped (pq.pop nPrios).1, npq') ∧
      Holds npq' (pq.pop nPrios).2 cells' := by
  rcases eq_or_ne pq.headQueue (-1) with hempty | hne
  · refine ⟨npq, cells, ?_, ?_⟩
    · rw [NodePrioQueue.pop, PrioQueue.pop, if_pos (h.headQueue_eq.trans hempty), if_pos hempty]
    · rwa [PrioQueue.pop, if_pos hempty]
  have hne' : npq.headQueue ≠ -1 := h.headQueue_eq ▸ hne
  have hfirst := hhead hne
  rw [NodePrioQueue.pop, PrioQueue.pop, if_neg hne', if_neg hne, h.headQueue_eq]
  generalize ubit16 pq.headQueue = qId at hfirst ⊢
  have hcells := h.queues_eq qId
  cases hq : cells qId with
  | nil =>
    rw [hq] at hcells
    exact absurd hcells hfirst
  | cons cell rest =>
    rw [hq, map_cons] at hcells
    obtain ⟨nodes', queue', hpop, hheld, hframe⟩ := (hq ▸ h.held qId).queuePop
    have hput := h.put hheld hframe (subset_cons_self cell rest) (by
      intro q hne address haddress
      rw [← hq] at haddress
      exact h.apart qId q hne.symm address haddress)
    have hqueue : pq.queuePop qId =
        { pq with queues := update pq.queues qId (rest.map Prod.snd) } := by
      rw [PrioQueue.queuePop, hcells, tail_cons]
    dsimp only
    rw [hpop, hcells, hqueue]
    refine ⟨_, update cells qId rest, rfl, ?_⟩
    split
    · rename_i hzero
      rw [if_pos ((hput.nItems_eq_zero_iff qId).mp hzero), hput.scan_eq]
      exact hput.storeHead _
    · rename_i hpos
      rw [if_neg fun hnil => hpos ((hput.nItems_eq_zero_iff qId).mpr hnil)]
      exact hput

theorem Holds.remove [DecidableEq T] (nPrios : Nat) (item : T)
    (prio : Nat) : ∃ npq' cells', npq.remove nPrios item prio = some (.removed, npq') ∧
      Holds npq' (pq.remove nPrios item prio) cells' := by
  obtain ⟨nodes', queue', cells', hremove, hheld, hframe, hsubset, hitems⟩ :=
    (h.held prio).queueRemove item
  have hput := h.put hheld hframe hsubset fun q hq => h.apart prio q hq.symm
  have hqueue : pq.queueRemove item prio =
      { pq with queues := update pq.queues prio (cells'.map Prod.snd) } := by
    rw [PrioQueue.queueRemove, hitems, h.queues_eq]
  rw [NodePrioQueue.remove, PrioQueue.remove, hremove, hqueue]
  refine ⟨_, update cells prio cells', rfl, ?_⟩
  have hiff := and_congr (Eq.congr_right hput.headQueue_eq : (prio : Int) = _ ↔ (prio : Int) = _)
    (hput.nItems_eq_zero_iff prio)
  split
  · rename_i hlast
    rw [if_pos (hiff.mp hlast), hput.scan_eq]
    exact hput.storeHead _
  · rename_i hother
    rw [if_neg fun hlast => hother (hiff.mpr hlast)]
    exact hput

omit h

end

section

variable [DecidableEq T]

/-- The queue is in order, and its levels are `levels`. -/
def Ordered (nPrios : Nat) (npq : NodePrioQueue T) (levels : Levels T) : Prop :=
  ∃ pq cells, Holds npq pq cells ∧ HeadCorrect nPrios pq ∧ pq.queues = levels

theorem ordered_initialQueue (T : Type) (nPrios : Nat) :
    Ordered nPrios (initialQueue T) fun _ => [] :=
  ⟨emptyQueue T, fun _ => [], holds_initialQueue T, .inl ⟨rfl, fun _ _ => rfl⟩, rfl⟩

variable {nPrios prio : Nat}

theorem step_serves (hnPrios : nPrios ≤ 2 ^ 15) (npq : NodePrioQueue T) (levels : Levels T)
    (call : Call T) (h : Ordered nPrios npq levels) (hlegal : Legal nPrios npq call) :
    ∃ answer npq' levels', step nPrios npq call = some (answer, npq') ∧
      Serves nPrios levels call answer levels' ∧ Ordered nPrios npq' levels' := by
  have hordered := h
  obtain ⟨pq, cells, hholds, hhead, rfl⟩ := h
  cases call with
  | insert item prio front tmp =>
    rcases lt_or_ge prio nPrios with hprio | hprio
    · rcases eq_or_ne tmp 0 with rfl | hne
      · refine ⟨_, npq, pq.queues, ?_, .noMemory hprio, hordered⟩
        rw [step, NodePrioQueue.insert, if_neg (not_le.mpr hprio), if_pos rfl]
      · obtain ⟨npq', cells', hinsert, hnext⟩ :=
          hholds.insert hprio hne hlegal.1 hlegal.2 item front
        refine ⟨.inserted, npq', (pq.insert nPrios item prio front).2.queues, hinsert, ?_,
          _, cells', hnext, headCorrect_insert hhead hnPrios hprio item front, rfl⟩
        rw [insert_of_lt pq hprio, queues_raiseHead]
        cases front with
        | true => exact .insertedFront hprio hne
        | false => exact .insertedBack hprio hne
    · refine ⟨_, npq, pq.queues, ?_, .noSuchLevel hprio, hordered⟩
      rw [step, NodePrioQueue.insert, if_pos hprio]
  | pop =>
    have hfirst : pq.headQueue ≠ -1 → pq.queues (ubit16 pq.headQueue) ≠ [] := by
      intro hne
      rcases hhead with ⟨hnone, -⟩ | ⟨q, hq, hq', hfull, -⟩
      · exact absurd hnone hne
      · rwa [hq', ubit16_of_lt (by omega)]
    obtain ⟨npq', cells', hpop, hnext⟩ := hholds.pop nPrios hfirst
    rcases pop_of_headCorrect hhead hnPrios with
      ⟨hnone, hsame, hempty⟩ | ⟨item, q, rest, hitem, hq, hfull, habove, hqueues, hhead'⟩
    · rw [hnone] at hpop
      rw [hsame] at hnext
      exact ⟨_, npq', pq.queues, hpop, .empty hempty, pq, cells', hnext, hhead, rfl⟩
    · rw [hitem] at hpop
      exact ⟨_, npq', _, hpop, .popped hq hfull habove, _, cells', hnext, hhead', hqueues⟩
  | remove item prio =>
    obtain ⟨npq', cells', hremove, hnext⟩ := hholds.remove nPrios item prio
    exact ⟨.removed, npq', _, hremove, .removed hlegal, _, cells', hnext,
      headCorrect_remove hhead hnPrios item prio, queues_remove pq nPrios item prio⟩

def inserted : List (Call T) → List (Answer T) → Multiset T
  | .insert item _ _ _ :: calls, .inserted :: answers => item ::ₘ inserted calls answers
  | _ :: calls, _ :: answers => inserted calls answers
  | _, _ => 0

def returned : List (Answer T) → Multiset T
  | .popped (some item) :: answers => item ::ₘ returned answers
  | _ :: answers => returned answers
  | [] => 0

def removeRequests : List (Call T) → Multiset T
  | .remove item _ :: calls => item ::ₘ removeRequests calls
  | _ :: calls => removeRequests calls
  | [] => 0

def queued (nPrios : Nat) (levels : Levels T) : Multiset T :=
  ∑ level ∈ Finset.range nPrios, (levels level : Multiset T)

theorem queued_update (hprio : prio < nPrios) (levels : Levels T) (items : List T) :
    queued nPrios (update levels prio items) + (levels prio : Multiset T) =
      queued nPrios levels + (items : Multiset T) := by
  have hmem : prio ∈ Finset.range nPrios := Finset.mem_range.mpr hprio
  have hrest : ∑ level ∈ (Finset.range nPrios).erase prio,
      (update levels prio items level : Multiset T) =
        ∑ level ∈ (Finset.range nPrios).erase prio, (levels level : Multiset T) := by
    refine Finset.sum_congr rfl ?_
    intro level hlevel
    rw [update_of_ne (Finset.ne_of_mem_erase hlevel)]
  rw [queued, queued, ← Finset.sum_erase_add _ _ hmem, ← Finset.sum_erase_add _ _ hmem, hrest,
    update_self, add_right_comm]

theorem queued_put (hprio : prio < nPrios) (levels : Levels T) {item : T} {items : List T}
    (hitems : (items : Multiset T) = item ::ₘ (levels prio : Multiset T)) :
    queued nPrios (update levels prio items) = item ::ₘ queued nPrios levels := by
  have hupdate := queued_update hprio levels items
  rw [hitems, add_cons, ← cons_add] at hupdate
  exact add_right_cancel hupdate

theorem queued_take (hprio : prio < nPrios) (levels : Levels T) {item : T} {items : List T}
    (hitems : (levels prio : Multiset T) = item ::ₘ (items : Multiset T)) :
    queued nPrios levels = item ::ₘ queued nPrios (update levels prio items) := by
  have hupdate := queued_update hprio levels items
  rw [hitems, add_cons, ← cons_add] at hupdate
  exact (add_right_cancel hupdate).symm

theorem serves_conserves {levels levels' : Levels T} {calls : List (Call T)}
    {answers : List (Answer T)} (h : SpecRun (Serves nPrios) levels calls answers levels') :
    ∃ removed, removed ≤ removeRequests calls ∧ queued nPrios levels + inserted calls answers =
        returned answers + removed + queued nPrios levels' := by
  induction h with
  | nil levels => exact ⟨0, le_rfl, by simp [inserted, returned]⟩
  | @cons levels next last call calls answer answers hserves _ ih =>
    obtain ⟨removed, hle, heq⟩ := ih
    cases hserves with
    | noSuchLevel hprio => exact ⟨removed, hle, heq⟩
    | noMemory hprio => exact ⟨removed, hle, heq⟩
    | @insertedFront item prio tmp hprio htmp =>
      refine ⟨removed, hle, ?_⟩
      rw [queued_put hprio levels (cons_coe item (levels prio)).symm] at heq
      rw [inserted, add_cons, ← cons_add]
      exact heq
    | @insertedBack item prio tmp hprio htmp =>
      refine ⟨removed, hle, ?_⟩
      have hitems : (levels prio ++ [item] : List T) = item ::ₘ (levels prio : Multiset T) := by
        rw [← Multiset.coe_add, Multiset.coe_singleton, Multiset.add_comm, Multiset.singleton_add]
      rw [queued_put hprio levels hitems] at heq
      rw [inserted, add_cons, ← cons_add]
      exact heq
    | @popped item prio rest hprio hfirst habove =>
      refine ⟨removed, hle, ?_⟩
      have hitems : (levels prio : Multiset T) = item ::ₘ (rest : Multiset T) := by
        rw [hfirst, cons_coe]
      rw [queued_take hprio levels hitems, inserted, returned, cons_add, heq,
        cons_add, cons_add]
      exact fun _ _ _ _ _ hinsert => by simp at hinsert
    | empty hempty => exact ⟨removed, hle, heq⟩
    | @removed item prio hprio =>
      rcases em (item ∈ levels prio) with hmem | hmem
      · have hitems : (levels prio : Multiset T) =
            item ::ₘ ((levels prio).erase item : Multiset T) := by
          rw [cons_coe, Multiset.coe_eq_coe]
          exact perm_cons_erase hmem
        refine ⟨item ::ₘ removed, Multiset.cons_le_cons item hle, ?_⟩
        rw [queued_take hprio levels hitems, cons_add, add_cons,
          cons_add]
        exact congrArg (item ::ₘ ·) heq
      · rw [erase_of_not_mem hmem, update_eq_self] at heq
        exact ⟨removed, hle.trans (Multiset.le_cons_self _ item), heq⟩

/-- For every sequence of calls, `pop` returns the next item of the highest level that has
one and reports an empty queue exactly when there is none; the items of a level come out in
the order of insertion, those inserted at the front first; and every inserted item is
returned, removed or still queued, once. -/
theorem run_serves (nPrios : Nat) (hnPrios : nPrios ≤ 2 ^ 15) (calls : List (Call T))
    (hlegal : Guarded (step nPrios) (Legal nPrios) (initialQueue T) calls) :
    ∃ answers last levels removed, run (step nPrios) (initialQueue T) calls = some (answers, last) ∧
      SpecRun (Serves nPrios) (fun _ => []) calls answers levels ∧
      removed ≤ removeRequests calls ∧
      inserted calls answers = returned answers + removed + queued nPrios levels := by
  obtain ⟨answers, last, levels, hrun, hspec, -⟩ :=
    run_refines (step_serves hnPrios) (ordered_initialQueue T nPrios) hlegal
  obtain ⟨removed, hle, heq⟩ := serves_conserves hspec
  refine ⟨answers, last, levels, removed, hrun, hspec, hle, ?_⟩
  simpa [queued] using heq

end

/-- Three items of two levels, one of them inserted at the front and one of them removed. -/
def threeItems : List (Call Nat) :=
  [.insert 7 3 false 1, .insert 8 3 true 2, .insert 9 1 false 3, .remove 7 3, .pop, .pop, .pop]

theorem run_serves_threeItems :
    ∃ answers last levels removed,
      run (step 20) (initialQueue Nat) threeItems = some (answers, last) ∧
      SpecRun (Serves 20) (fun _ => []) threeItems answers levels ∧
      removed ≤ removeRequests threeItems ∧
      inserted threeItems answers = returned answers + removed + queued 20 levels := by
  refine run_serves 20 (by decide) threeItems ?_
  refine (guarded_cons rfl).mpr ⟨⟨by decide, rfl⟩, ?_⟩
  refine (guarded_cons rfl).mpr ⟨⟨by decide, rfl⟩, ?_⟩
  refine (guarded_cons rfl).mpr ⟨⟨by decide, rfl⟩, ?_⟩
  refine (guarded_cons rfl).mpr ⟨(by decide : 3 < 20), ?_⟩
  refine (guarded_cons rfl).mpr ⟨trivial, (guarded_cons rfl).mpr ⟨trivial, ?_⟩⟩
  exact (guarded_cons rfl).mpr ⟨trivial, trivial⟩

/-- The number of the second of the levels does not fit `headQueue`. -/
def wideLevels : List (Call Nat) :=
  [.insert 7 32768 false 1, .insert 8 5 false 2, .pop]

theorem wideLevels_not_served : ¬ ∀ (nPrios : Nat) (calls : List (Call Nat)), nPrios < 2 ^ 16 →
    Guarded (step nPrios) (Legal nPrios) (initialQueue Nat) calls →
      ∃ answers last levels removed,
        run (step nPrios) (initialQueue Nat) calls = some (answers, last) ∧
        SpecRun (Serves nPrios) (fun _ => []) calls answers levels ∧
        removed ≤ removeRequests calls ∧
        inserted calls answers = returned answers + removed + queued nPrios levels := by
  intro hclaim
  have hlegal : Guarded (step 32769) (Legal 32769) (initialQueue Nat) wideLevels := by
    refine (guarded_cons rfl).mpr ⟨⟨by decide, rfl⟩, ?_⟩
    refine (guarded_cons rfl).mpr ⟨⟨by decide, rfl⟩, ?_⟩
    exact ⟨trivial, fun _ _ _ => trivial⟩
  obtain ⟨answers, last, levels, -, hrun, hspec, -⟩ :=
    hclaim 32769 wideLevels (by decide) hlegal
  have hanswers : (run (step 32769) (initialQueue Nat) wideLevels).map Prod.fst =
      some [.inserted, .inserted, .popped (some 7)] := by decide +kernel
  rw [hrun, Option.map_some, Option.some.injEq] at hanswers
  subst hanswers
  obtain _ | ⟨hfirst, _ | ⟨hsecond, _ | ⟨hpop, -⟩⟩⟩ := hspec
  cases hfirst
  cases hsecond
  cases hpop with
  | popped hprio hitem habove =>
    rename_i prio rest
    rcases lt_trichotomy 5 prio with hlt | rfl | hgt
    · exact absurd (habove 5 hlt) (by simp)
    · cases hitem
    · rw [update_of_ne (by omega), update_of_ne (by omega)] at hitem
      cases hitem

end Zambesii.PrioQueueNodes
