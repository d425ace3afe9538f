import Mathlib.Data.Multiset.Filter
import Zambesii.SortedHeapDoubleList
import Zambesii.TimeTypes

/-!
`TimerQueue`: the requests of one timer source, sorted by expiration. `tick`
dispatches the requests that have expired. It gives up the queue's lock while it
notifies the processes of a request, and other calls may be made to the queue in
that window; the first of them is usually the notified process's own next
request.
-/

namespace Zambesii.TimerQueue

open KernelTypes LinkedCells List Runs SortedHeapDoubleList
open TimeTypes

/-- `sTimerMsg`: a request object, known by its address. -/
structure TimerMsg where
  address : Nat
  sourceProcess : Nat
  expirationStamp : Timestamp
deriving DecidableEq

/-- `panicked` is set when an assertion has stopped the kernel. -/
structure QueueState where
  requestQueue : ListState TimerMsg Timestamp
  latched : Bool
  clockRoutineInstalled : Bool
  irqEventMessagesEnabled : Bool
  panicked : Bool

def latch (mem : Memory (ListNode TimerMsg Timestamp)) (clockRoutineInstalled : Bool) :
    QueueState :=
  ⟨empty mem, true, clockRoutineInstalled, false, false⟩

/-- `enable`. `deviceStatus` is the first error of the two device calls. -/
def enable (queue : QueueState) (deviceStatus : Kerror) : Kerror × QueueState :=
  if !queue.latched then (.uninitialized, queue)
  else if deviceStatus = .success then
    (.success, { queue with irqEventMessagesEnabled := true })
  else (deviceStatus, queue)

def disable (queue : QueueState) : QueueState :=
  if !queue.latched then queue
  else if !queue.clockRoutineInstalled then
    -- The assertion after the device was disabled.
    { queue with panicked := true }
  else { queue with irqEventMessagesEnabled := false }

def insert (queue : QueueState) (node : Option Ptr) (request : TimerMsg)
    (deviceStatus : Kerror) : Option (Kerror × QueueState) := do
  let (ret, requestQueue) ← addItem queue.requestQueue node request request.expirationStamp
    .ascending
  let queue := { queue with requestQueue := requestQueue }
  if ret ≠ .success then some (ret, queue)
  else if !queue.latched then none
  else if queue.irqEventMessagesEnabled then some (.success, queue)
  else some (enable queue deviceStatus)

def cancel (queue : QueueState) (request : TimerMsg) : Option QueueState := do
  let requestQueue ← removeItem queue.requestQueue request
  let queue := { queue with requestQueue := requestQueue }
  some (if requestQueue.nItems = 0 then disable queue else queue)

inductive QueueOp
  | insert (node : Ptr) (request : TimerMsg) (deviceStatus : Kerror)
  | cancel (request : TimerMsg)
deriving DecidableEq

def opStep (queue : QueueState) : QueueOp → Option (Kerror × QueueState)
  | .insert node request deviceStatus => insert queue (some node) request deviceStatus
  | .cancel request => (cancel queue request).map fun queue => (.success, queue)

/-- The loop of `tick`: the requests dispatched and the queue afterwards. The first
of `windows` holds the calls made to the queue while the lock is given up after
the next dispatch. -/
def tickLoop (irqStamp : Timestamp) :
    Nat → QueueState → List (List QueueOp) → Option (List TimerMsg × QueueState)
  | 0, _, _ => none
  | fuel + 1, queue, windows => do
      match ← getHead queue.requestQueue with
      | none => some ([], queue)
      | some request =>
        if irqStamp < request.expirationStamp then some ([], queue)
        else
          let (popped, requestQueue) ← popFromHead queue.requestQueue
          let (_, queue) ← run opStep { queue with requestQueue := requestQueue }
            (windows.headD [])
          let next ← getHead queue.requestQueue
          let queue := if next = none then disable queue else queue
          let (dispatched, queue) ← tickLoop irqStamp fuel queue windows.tail
          some (popped.toList ++ dispatched, queue)

def tickFuel (queue : QueueState) (windows : List (List QueueOp)) : Nat :=
  queue.requestQueue.nItems + (windows.map List.length).sum + 1

def tick (queue : QueueState) (irqStamp : Timestamp) (windows : List (List QueueOp)) :
    Option (List TimerMsg × QueueState) :=
  tickLoop irqStamp (tickFuel queue windows) queue windows

inductive Call
  | op (op : QueueOp)
  | tick (irqStamp : Timestamp) (windows : List (List QueueOp))
deriving DecidableEq

inductive Answer
  | status (code : Kerror)
  | dispatched (requests : List TimerMsg)
deriving DecidableEq

def step (queue : QueueState) : Call → Option (Answer × QueueState)
  | .op op => (opStep queue op).map fun r => (.status r.1, r.2)
  | .tick irqStamp windows => (tick queue irqStamp windows).map fun r => (.dispatched r.1, r.2)

/-- The queue holds the requests of `cells`, earliest first. -/
structure Queued (queue : QueueState) (cells : List (Ptr × ListNode TimerMsg Timestamp)) :
    Prop where
  latched : queue.latched = true
  represents : Represents queue.requestQueue cells
  sorted : Sorted cells
  criterion : ∀ cell ∈ cells, cell.2.criterion = cell.2.item.expirationStamp

def requests (cells : List (Ptr × ListNode TimerMsg Timestamp)) : Multiset TimerMsg :=
  (cells.map fun cell => cell.2.item : List TimerMsg)

/-- The queue holds exactly the requests of `bag`, in order. -/
def Holds (queue : QueueState) (bag : Multiset TimerMsg) : Prop :=
  ∃ cells, Queued queue cells ∧ requests cells = bag

def opEffect (bag : Multiset TimerMsg) : QueueOp → Multiset TimerMsg
  | .insert _ request _ => request ::ₘ bag
  | .cancel request => bag.erase request

/-- What a tick is for: the earliest request is dispatched as long as it has
expired, with the effect of the windows in between. -/
inductive TickSpec (irqStamp : Timestamp) :
    Multiset TimerMsg → List (List QueueOp) → List TimerMsg → Multiset TimerMsg → Prop
  | finished {bag : Multiset TimerMsg} (windows : List (List QueueOp))
      (hlater : ∀ request ∈ bag, irqStamp < request.expirationStamp) :
      TickSpec irqStamp bag windows [] bag
  | dispatch {bag after : Multiset TimerMsg} {request : TimerMsg}
      {windows : List (List QueueOp)} {dispatched : List TimerMsg}
      (hdue : request.expirationStamp ≤ irqStamp)
      (hearliest : ∀ other ∈ bag, request.expirationStamp ≤ other.expirationStamp)
      (hrest : TickSpec irqStamp ((windows.headD []).foldl opEffect bag) windows.tail dispatched
        after) :
      TickSpec irqStamp (request ::ₘ bag) windows (request :: dispatched) after

structure TickExact (irqStamp : Timestamp) (before : Multiset TimerMsg)
    (windows : List (List QueueOp)) (dispatched : List TimerMsg) (after : Multiset TimerMsg) :
    Prop where
  spec : TickSpec irqStamp before windows dispatched after
  due : ∀ request ∈ dispatched, request.expirationStamp ≤ irqStamp
  later : ∀ request ∈ after, irqStamp < request.expirationStamp
  ordered : dispatched.Pairwise fun earlier later =>
    earlier.expirationStamp ≤ later.expirationStamp
  /-- Without calls in between, the expired requests are the ones dispatched. -/
  exact : windows = [] →
    (dispatched : Multiset TimerMsg) = before.filter (fun r => r.expirationStamp ≤ irqStamp) ∧
      after = before.filter (fun r => irqStamp < r.expirationStamp)

inductive QueueSpec : Multiset TimerMsg → Call → Answer → Multiset TimerMsg → Prop
  | op (bag : Multiset TimerMsg) (op : QueueOp) (code : Kerror) :
      QueueSpec bag (.op op) (.status code) (opEffect bag op)
  | tick {irqStamp : Timestamp} {before after : Multiset TimerMsg}
      {windows : List (List QueueOp)} {dispatched : List TimerMsg}
      (h : TickExact irqStamp before windows dispatched after) :
      QueueSpec before (.tick irqStamp windows) (.dispatched dispatched) after

def OpFresh (queue : QueueState) : QueueOp → Prop
  | .insert node _ _ =>
    queue.panicked = false ∧ node ≠ 0 ∧ queue.requestQueue.mem node = none
  | .cancel _ => queue.panicked = false

def OpInOrder (queue : QueueState) : QueueOp → Prop
  | .insert _ request _ => InsertsInOrder queue.requestQueue request.expirationStamp
  | .cancel _ => True

/-- The operation does not bring in a request that expires before `bound`. -/
def NotEarlier (bound : TimerMsg) : QueueOp → Prop
  | .insert _ request _ => bound.expirationStamp ≤ request.expirationStamp
  | .cancel _ => True

/-- Every call made while the loop of `tick` has given up the lock meets `guard`,
which is told the request just dispatched. -/
def TickGuarded (guard : TimerMsg → QueueState → QueueOp → Prop) (irqStamp : Timestamp) :
    Nat → QueueState → List (List QueueOp) → Prop
  | 0, _, _ => True
  | fuel + 1, queue, windows =>
    ∀ request requestQueue, popFromHead queue.requestQueue = some (some request, requestQueue) →
      ¬ irqStamp < request.expirationStamp →
      Guarded opStep (guard request) { queue with requestQueue := requestQueue }
          (windows.headD []) ∧
        ∀ answers queue', run opStep { queue with requestQueue := requestQueue }
            (windows.headD []) = some (answers, queue') →
          queue'.panicked = false ∧ ∀ next, getHead queue'.requestQueue = some next →
            TickGuarded guard irqStamp fuel (if next = none then disable queue' else queue')
              windows.tail

def CallFresh (queue : QueueState) : Call → Prop
  | .op op => OpFresh queue op
  | .tick irqStamp windows =>
    queue.panicked = false ∧
      TickGuarded (fun _ => OpFresh) irqStamp (tickFuel queue windows) queue windows

/-- Every insertion belongs near an end of the list, and none that a tick lets
through its window expires before what the tick has dispatched. -/
def CallInOrder (queue : QueueState) : Call → Prop
  | .op op => OpFresh queue op ∧ OpInOrder queue op
  | .tick irqStamp windows =>
    queue.panicked = false ∧
      TickGuarded (fun bound queue op => (OpFresh queue op ∧ OpInOrder queue op) ∧
        NotEarlier bound op) irqStamp (tickFuel queue windows) queue windows

section

variable {queue : QueueState} {cells : List (Ptr × ListNode TimerMsg Timestamp)}
  {bag : Multiset TimerMsg}

theorem requests_eraseP (request : TimerMsg) :
    requests (cells.eraseP fun cell => decide (cell.2.item = request)) =
      (requests cells).erase request := by
  induction cells with
  | nil => rfl
  | cons cell rest ih =>
    rcases eq_or_ne cell.2.item request with heq | hne
    · simp [requests, heq]
    · rw [eraseP_cons_of_neg (by simpa using hne)]
      simp only [requests, map_cons, ← Multiset.cons_coe] at ih ⊢
      rw [ih, Multiset.erase_cons_tail _ hne]

variable (h : Queued queue cells)

include h

theorem disable_queued : Queued (disable queue) cells := by
  rw [disable]
  split
  · exact h
  · split <;> exact ⟨h.latched, h.represents, h.sorted, h.criterion⟩

theorem enable_queued (deviceStatus : Kerror) : Queued (enable queue deviceStatus).2 cells := by
  rw [enable]
  split
  · exact h
  · split <;> exact ⟨h.latched, h.represents, h.sorted, h.criterion⟩

theorem insert_queued {node : Ptr} {request : TimerMsg}
    (deviceStatus : Kerror) (hnull : node ≠ 0) (hfresh : queue.requestQueue.mem node = none)
    (horder : InsertsInOrder queue.requestQueue request.expirationStamp) :
    ∃ code queue', insert queue (some node) request deviceStatus = some (code, queue') ∧
      Queued queue' (insertCells (node, ⟨request.expirationStamp, request⟩) cells) := by
  obtain ⟨list', hadd, hrep⟩ := addItem_spec h.represents request request.expirationStamp
    (notMem_of_allocatesFresh h.represents hfresh) hnull
  have hqueued : Queued { queue with requestQueue := list' }
      (insertCells (node, ⟨request.expirationStamp, request⟩) cells) := by
    refine ⟨h.latched, hrep, ?_, ?_⟩
    · exact (sorted_insertByKey_iff h.sorted).mpr
        (belongsNearEnd_of_insertsInOrder h.represents horder)
    · intro cell hcell
      rcases mem_cons.mp ((insertCells_perm _ cells).mem_iff.mp hcell) with rfl | hcell
      · rfl
      · exact h.criterion cell hcell
  have hlatched : ¬ (!queue.latched) = true := by simp [h.latched]
  simp only [insert, hadd, some_bind, ne_eq, not_true_eq_false, if_false, if_neg hlatched]
  split
  · exact ⟨_, _, rfl, hqueued⟩
  · exact ⟨_, _, rfl, enable_queued hqueued deviceStatus⟩

theorem cancel_queued (request : TimerMsg) :
    ∃ queue', cancel queue request = some queue' ∧
      Queued queue' (cells.eraseP fun cell => decide (cell.2.item = request)) := by
  obtain ⟨list', hremove, hrep⟩ := removeItem_spec h.represents request
  have hqueued : Queued { queue with requestQueue := list' }
      (cells.eraseP fun cell => decide (cell.2.item = request)) := by
    refine ⟨h.latched, hrep, h.sorted.sublist eraseP_sublist, ?_⟩
    intro cell hcell
    exact h.criterion cell (mem_of_mem_eraseP hcell)
  simp only [cancel, hremove, some_bind]
  refine ⟨_, rfl, ?_⟩
  split
  · exact disable_queued hqueued
  · exact hqueued

omit h

theorem opStep_holds (queue : QueueState) (bag : Multiset TimerMsg) (op : QueueOp)
    (h : Holds queue bag) (hguard : OpFresh queue op ∧ OpInOrder queue op) :
    ∃ code queue' bag', opStep queue op = some (code, queue') ∧ bag' = opEffect bag op ∧
      Holds queue' bag' := by
  obtain ⟨cells, hqueued, rfl⟩ := h
  cases op with
  | insert node request deviceStatus =>
    obtain ⟨⟨-, hnull, hfresh⟩, horder⟩ := hguard
    obtain ⟨code, queue', hinsert, hqueued'⟩ :=
      insert_queued hqueued deviceStatus hnull hfresh horder
    refine ⟨code, queue', _, hinsert, rfl, _, hqueued', ?_⟩
    have hperm := (insertCells_perm (node, ⟨request.expirationStamp, request⟩) cells).map
      fun cell => cell.2.item
    exact Multiset.coe_eq_coe.mpr hperm
  | cancel request =>
    obtain ⟨queue', hcancel, hqueued'⟩ := cancel_queued hqueued request
    exact ⟨.success, queue', _, by simp [opStep, hcancel], rfl, _, hqueued',
      requests_eraseP request⟩

variable {ops : List QueueOp}

theorem foldl_of_specRun {property : QueueOp → Prop} {codes : List Kerror}
    {bag' : Multiset TimerMsg}
    (h : SpecRun (fun bag op _ bag' => bag' = opEffect bag op ∧ property op) bag ops codes bag') :
    bag' = ops.foldl opEffect bag ∧ ∀ op ∈ ops, property op := by
  induction h with
  | nil => exact ⟨rfl, by simp⟩
  | cons hspec _ ih =>
    obtain ⟨rfl, hop⟩ := hspec
    refine ⟨ih.1, ?_⟩
    intro op hmem
    rcases mem_cons.mp hmem with rfl | hmem
    · exact hop
    · exact ih.2 op hmem

theorem window_holds {property : QueueOp → Prop} (h : Holds queue bag)
    (hguarded : Guarded opStep
      (fun queue op => (OpFresh queue op ∧ OpInOrder queue op) ∧ property op) queue ops) :
    ∃ codes queue', run opStep queue ops = some (codes, queue') ∧
      Holds queue' (ops.foldl opEffect bag) ∧ ∀ op ∈ ops, property op := by
  have hstep : ∀ queue bag op, Holds queue bag →
      (OpFresh queue op ∧ OpInOrder queue op) ∧ property op →
      ∃ code queue' bag', opStep queue op = some (code, queue') ∧
        (bag' = opEffect bag op ∧ property op) ∧ Holds queue' bag' := by
    rintro queue bag op h ⟨hguard, hproperty⟩
    obtain ⟨code, queue', bag', heq, hbag, hholds⟩ := opStep_holds queue bag op h hguard
    exact ⟨code, queue', bag', heq, ⟨hbag, hproperty⟩, hholds⟩
  obtain ⟨codes, queue', bag', hrun, hspec, hholds⟩ := run_refines hstep h hguarded
  obtain ⟨rfl, hproperty⟩ := foldl_of_specRun hspec
  exact ⟨codes, queue', hrun, hholds, hproperty⟩

theorem mem_of_mem_foldl {request : TimerMsg} (h : request ∈ ops.foldl opEffect bag) :
    request ∈ bag ∨ ∃ node deviceStatus, .insert node request deviceStatus ∈ ops := by
  induction ops generalizing bag with
  | nil => exact .inl h
  | cons op ops ih =>
    rcases ih h with hmem | ⟨node, deviceStatus, hmem⟩
    · cases op with
      | insert node other deviceStatus =>
        rcases Multiset.mem_cons.mp hmem with rfl | hmem
        · exact .inr ⟨node, deviceStatus, by simp⟩
        · exact .inl hmem
      | cancel other => exact .inl (Multiset.mem_of_mem_erase hmem)
    · exact .inr ⟨node, deviceStatus, mem_cons_of_mem _ hmem⟩

theorem card_foldl_le (ops : List QueueOp) (bag : Multiset TimerMsg) :
    (ops.foldl opEffect bag).card ≤ bag.card + ops.length := by
  induction ops generalizing bag with
  | nil => simp
  | cons op ops ih =>
    have hrest := ih (opEffect bag op)
    have hop : (opEffect bag op).card ≤ bag.card + 1 := by
      cases op with
      | insert => simp [opEffect]
      | cancel request =>
        have herase := Multiset.card_le_card (Multiset.erase_le request bag)
        simp only [opEffect]
        omega
    simp only [foldl_cons, length_cons]
    omega

end

section

variable {irqStamp : Timestamp} {bag after : Multiset TimerMsg} {windows : List (List QueueOp)}
  {dispatched : List TimerMsg} {queue : QueueState}

variable (h : TickSpec irqStamp bag windows dispatched after)

include h

theorem TickSpec.due : ∀ request ∈ dispatched, request.expirationStamp ≤ irqStamp := by
  induction h with
  | finished => simp
  | dispatch hdue _ _ ih => simpa [hdue] using ih

theorem TickSpec.later : ∀ request ∈ after, irqStamp < request.expirationStamp := by
  induction h with
  | finished _ hlater => exact hlater
  | dispatch _ _ _ ih => exact ih

theorem TickSpec.exact
    (hwindows : windows = []) :
    (dispatched : Multiset TimerMsg) = bag.filter (fun r => r.expirationStamp ≤ irqStamp) ∧
      after = bag.filter (fun r => irqStamp < r.expirationStamp) := by
  induction h with
  | finished _ hlater =>
    constructor
    · symm
      rw [Multiset.coe_nil, Multiset.filter_eq_nil]
      intro request hrequest
      exact not_le_of_gt (hlater request hrequest)
    · exact (Multiset.filter_eq_self.mpr hlater).symm
  | dispatch hdue _ _ ih =>
    subst hwindows
    obtain ⟨hdispatched, hafter⟩ := ih rfl
    constructor
    · rw [← Multiset.cons_coe, hdispatched]
      exact (Multiset.filter_cons_of_pos (p := fun r : TimerMsg => r.expirationStamp ≤ irqStamp) _
        hdue).symm
    · rw [hafter]
      exact (Multiset.filter_cons_of_neg (p := fun r : TimerMsg => irqStamp < r.expirationStamp) _
        (not_lt_of_ge hdue)).symm

omit h

theorem holds_nItems (h : Holds queue bag) : queue.requestQueue.nItems = bag.card := by
  obtain ⟨cells, hqueued, rfl⟩ := h
  rw [hqueued.represents.nItems_eq]
  simp [requests]

theorem tickLoop_spec {fuel : Nat} (h : Holds queue bag)
    (hguarded : TickGuarded (fun bound queue op => (OpFresh queue op ∧ OpInOrder queue op) ∧
      NotEarlier bound op) irqStamp fuel queue windows)
    (hfuel : bag.card + (windows.map List.length).sum < fuel) :
    ∃ dispatched queue' after, tickLoop irqStamp fuel queue windows = some (dispatched, queue') ∧
      TickSpec irqStamp bag windows dispatched after ∧ Holds queue' after ∧
      dispatched.Pairwise (fun earlier later => earlier.expirationStamp ≤ later.expirationStamp) ∧
      ∀ bound : Timestamp, (∀ request ∈ bag, bound ≤ request.expirationStamp) →
        ∀ request ∈ dispatched, bound ≤ request.expirationStamp := by
  induction fuel generalizing queue bag windows with
  | zero => omega
  | succ fuel ih =>
    have hholds := h
    obtain ⟨cells, hqueued, rfl⟩ := h
    have hhead := getHead_spec hqueued.represents
    cases cells with
    | nil =>
      refine ⟨[], queue, _, ?_, .finished windows (by simp [requests]), hholds, by simp,
        by simp⟩
      simp [tickLoop, hhead]
    | cons cell rest =>
      have hcriterion := hqueued.criterion cell (by simp)
      obtain ⟨hfirst, hrestSorted⟩ := pairwise_cons.mp hqueued.sorted
      have hearliest : ∀ other ∈ requests rest,
          cell.2.item.expirationStamp ≤ other.expirationStamp := by
        intro other hother
        obtain ⟨node, hnode, rfl⟩ := mem_map.mp hother
        rw [← hcriterion, ← hqueued.criterion node (by simp [hnode])]
        exact hfirst node hnode
      rcases em (irqStamp < cell.2.item.expirationStamp) with hlate | hdue
      · refine ⟨[], queue, _, ?_, .finished windows ?_, hholds, by simp, by simp⟩
        · simp [tickLoop, hhead, hlate]
        · intro request hrequest
          rcases mem_cons.mp hrequest with rfl | hrequest
          · exact hlate
          · exact lt_of_lt_of_le hlate (hearliest request hrequest)
      obtain ⟨list', hpop, hrep'⟩ := popFromHead_cons hqueued.represents
      obtain ⟨hwindow, hnext⟩ := hguarded _ _ hpop hdue
      have hpopped : Holds { queue with requestQueue := list' } (requests rest) :=
        ⟨rest, ⟨hqueued.latched, hrep', hrestSorted,
          fun node hnode => hqueued.criterion node (by simp [hnode])⟩, rfl⟩
      obtain ⟨codes, queue', hrun, hholds', hproperty⟩ := window_holds hpopped hwindow
      obtain ⟨-, hrestGuarded⟩ := hnext codes queue' hrun
      obtain ⟨cells', hqueued', hcells'⟩ := hholds'
      have hhead' := getHead_spec hqueued'.represents
      have hcontinued : Holds (if cells'.head?.map (fun cell => cell.2.item) = none then
          disable queue' else queue') ((windows.headD []).foldl opEffect (requests rest)) := by
        split
        · exact ⟨cells', disable_queued hqueued', hcells'⟩
        · exact ⟨cells', hqueued', hcells'⟩
      have hcard := card_foldl_le (windows.headD []) (requests rest)
      have hlengths : (windows.headD []).length + (windows.tail.map length).sum =
          (windows.map length).sum := by
        cases windows <;> simp
      have hcons : (requests (cell :: rest)).card = (requests rest).card + 1 := by simp [requests]
      obtain ⟨dispatched, last, after, hloop, hspec, hlast, hordered, hbound⟩ :=
        ih hcontinued (hrestGuarded _ hhead') (by omega)
      have hafter : ∀ bound : Timestamp, bound ≤ cell.2.item.expirationStamp →
          (∀ request ∈ requests rest, bound ≤ request.expirationStamp) →
          ∀ request ∈ (windows.headD []).foldl opEffect (requests rest),
            bound ≤ request.expirationStamp := by
        intro bound hcell hbag request hrequest
        rcases mem_of_mem_foldl hrequest with hmem | ⟨node, deviceStatus, hmem⟩
        · exact hbag request hmem
        · exact le_trans hcell (hproperty _ hmem)
      refine ⟨cell.2.item :: dispatched, last, after, ?_, ?_, hlast, ?_, ?_⟩
      · simp only [tickLoop, hhead, head?_cons, Option.map_some, some_bind, hdue, if_false,
          hpop, hrun, hhead', hloop, Option.toList_some, singleton_append]
      · exact .dispatch (le_of_not_gt_total hdue) hearliest hspec
      · refine pairwise_cons.mpr ⟨?_, hordered⟩
        exact hbound _ (hafter _ (le_refl _) hearliest)
      · intro bound hbag request hrequest
        have hcell : bound ≤ cell.2.item.expirationStamp :=
          hbag _ (by simp [requests])
        rcases mem_cons.mp hrequest with rfl | hrequest
        · exact hcell
        · refine hbound bound (hafter bound hcell ?_) request hrequest
          intro other hother
          exact hbag other (mem_cons_of_mem _ hother)

theorem tick_exact (h : Holds queue bag)
    (hguarded : TickGuarded (fun bound queue op => (OpFresh queue op ∧ OpInOrder queue op) ∧
      NotEarlier bound op) irqStamp (tickFuel queue windows) queue windows) :
    ∃ dispatched queue' after, tick queue irqStamp windows = some (dispatched, queue') ∧
      TickExact irqStamp bag windows dispatched after ∧ Holds queue' after := by
  have hfuel : bag.card + (windows.map length).sum < tickFuel queue windows := by
    rw [tickFuel, holds_nItems h]
    omega
  obtain ⟨dispatched, queue', after, hloop, hspec, hholds, hordered, -⟩ :=
    tickLoop_spec h hguarded hfuel
  exact ⟨dispatched, queue', after, hloop,
    ⟨hspec, hspec.due, hspec.later, hordered, hspec.exact⟩, hholds⟩

end

theorem step_refines_queue (queue : QueueState) (bag : Multiset TimerMsg) (call : Call)
    (h : Holds queue bag) (hguard : CallInOrder queue call) :
    ∃ answer queue' bag', step queue call = some (answer, queue') ∧
      QueueSpec bag call answer bag' ∧ Holds queue' bag' := by
  cases call with
  | op op =>
    obtain ⟨code, queue', bag', hop, rfl, hholds⟩ := opStep_holds queue bag op h hguard
    exact ⟨.status code, queue', _, by simp [step, hop], .op bag op code, hholds⟩
  | tick irqStamp windows =>
    obtain ⟨dispatched, queue', after, htick, hexact, hholds⟩ := tick_exact h hguard.2
    exact ⟨.dispatched dispatched, queue', after, by simp [step, htick], .tick hexact, hholds⟩

/-- Every run in which the insertions belong near an end of the list dispatches, at
every tick, exactly the expired requests in the order of their expiration. -/
theorem run_refines_queue (mem : Memory (ListNode TimerMsg Timestamp))
    (clockRoutineInstalled : Bool) (calls : List Call)
    (h : Guarded step CallInOrder (latch mem clockRoutineInstalled) calls) : ∃ answers queue bag,
      run step (latch mem clockRoutineInstalled) calls = some (answers, queue) ∧
        SpecRun QueueSpec 0 calls answers bag ∧ Holds queue bag := by
  have hempty : Holds (latch mem clockRoutineInstalled) 0 :=
    ⟨[], ⟨rfl, represents_empty mem, List.Pairwise.nil, by simp⟩, rfl⟩
  exact run_refines step_refines_queue hempty h

@[simp] theorem disable_requestQueue (queue : QueueState) :
    (disable queue).requestQueue = queue.requestQueue := by
  rw [disable]
  split
  · rfl
  · split <;> rfl

theorem tickGuarded_nil (guard : TimerMsg → QueueState → QueueOp → Prop) (irqStamp : Timestamp)
    (fuel : Nat) {queue : QueueState} (h : queue.panicked = false) :
    TickGuarded guard irqStamp fuel queue [] := by
  induction fuel generalizing queue with
  | zero => trivial
  | succ fuel ih =>
    intro request list hpop _
    refine ⟨trivial, ?_⟩
    rintro codes queue' hrun
    cases hrun
    refine ⟨h, ?_⟩
    intro next hnext
    split
    · rename_i hnone
      -- The list is empty, so the loop ends before it pops again.
      cases fuel with
      | zero => trivial
      | succ fuel =>
        intro request' list' hpop'
        rw [hnone] at hnext
        have hhead : list.head = 0 := by
          simp only [getHead] at hnext
          split at hnext
          · assumption
          · simp at hnext
        simp [popFromHead, hhead] at hpop'
    · exact ih h

def requestAt (second : Nat) : TimerMsg :=
  ⟨second, 0, ⟨2000, 1, 1, 0⟩, ⟨second, 0⟩⟩

def insertAt (node second : Nat) : Call :=
  .op (.insert node (requestAt second) .success)

def tickAt (second : Nat) : Call :=
  .tick (requestAt second).expirationStamp []

theorem run_refines_queue_nearEnd :
    ∃ answers queue bag, run step (latch (fun _ => none) true)
        [insertAt 1 1, insertAt 2 5, insertAt 3 10, tickAt 6] = some (answers, queue) ∧
      SpecRun QueueSpec 0 [insertAt 1 1, insertAt 2 5, insertAt 3 10, tickAt 6] answers bag ∧
        Holds queue bag := by
  apply run_refines_queue
  refine (guarded_cons rfl).mpr ⟨⟨⟨rfl, by decide, rfl⟩, trivial⟩, ?_⟩
  refine (guarded_cons rfl).mpr ⟨⟨⟨rfl, by decide, rfl⟩, .inr (.inl (by decide :
    (requestAt 1).expirationStamp ≤ (requestAt 5).expirationStamp))⟩, ?_⟩
  refine (guarded_cons rfl).mpr ⟨⟨⟨rfl, by decide, rfl⟩, .inr (.inl (by decide :
    (requestAt 5).expirationStamp ≤ (requestAt 10).expirationStamp))⟩, ?_⟩
  exact ⟨⟨rfl, tickGuarded_nil _ _ _ rfl⟩, fun _ _ _ => trivial⟩

theorem tick_misses_expired :
    ¬ ∀ calls, Guarded step CallFresh (latch (fun _ => none) true) calls →
      ∃ answers queue bag, run step (latch (fun _ => none) true) calls = some (answers, queue) ∧
        SpecRun QueueSpec 0 calls answers bag := by
  intro hclaim
  have hguarded : Guarded step CallFresh (latch (fun _ => none) true)
      [insertAt 1 1, insertAt 2 5, insertAt 3 10, insertAt 4 7, tickAt 6] := by
    refine (guarded_cons rfl).mpr ⟨⟨rfl, by decide, rfl⟩, ?_⟩
    refine (guarded_cons rfl).mpr ⟨⟨rfl, by decide, rfl⟩, ?_⟩
    refine (guarded_cons rfl).mpr ⟨⟨rfl, by decide, rfl⟩, ?_⟩
    refine (guarded_cons rfl).mpr ⟨⟨rfl, by decide, rfl⟩, ?_⟩
    exact ⟨⟨rfl, tickGuarded_nil _ _ _ rfl⟩, fun _ _ _ => trivial⟩
  obtain ⟨answers, queue, bag, hrun, hspec⟩ := hclaim _ hguarded
  have hanswers : answers = [.status .success, .status .success, .status .success,
      .status .success, .dispatched [requestAt 1]] :=
    (Prod.mk.inj (Option.some.inj hrun)).1.symm
  rw [hanswers] at hspec
  rcases hspec with - | ⟨⟨⟩, - | ⟨⟨⟩, - | ⟨⟨⟩, - | ⟨⟨⟩, - | ⟨⟨⟩, -⟩⟩⟩⟩⟩
  rename_i hexact
  exact absurd (hexact.exact rfl).1 (by decide)

end Zambesii.TimerQueue
