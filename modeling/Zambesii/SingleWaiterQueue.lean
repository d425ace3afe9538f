import Mathlib.Data.Fintype.Basic
import Zambesii.HeapDoubleList
import Zambesii.Runs
import Zambesii.TaskTrib

/-!
`SingleWaiterQueue`: any number of producers, one consumer thread that blocks while
the queue is empty. The consumer takes the queue's lock into `TaskTrib::block`, which
gives it back only after the thread is marked blocked.

A critical section that does not reach into `TaskTrib` is one step here.
-/

namespace Zambesii.SingleWaiterQueue

open Function List Option
open KernelTypes LinkedCells Runs TaskTrib

/-- `threadIsSet` when a waiting thread has been set. -/
structure Queue where
  list : HeapDoubleList.ListState
  threadIsSet : Bool

/-- `addItem` up to the release of the lock. -/
def addItem (queue : Queue) (node : Option Ptr) (item : Ptr) : Option (Kerror × Queue) :=
  if !queue.threadIsSet then some (.uninitialized, queue)
  else (HeapDoubleList.addItem queue.list node item .tail).map fun r =>
    (r.1, { queue with list := r.2 })

/-- `pop` up to the first decision: the item that was taken from the list. -/
def popHead (queue : Queue) : Option (Ptr × Queue) :=
  (HeapDoubleList.popFromHead queue.list).map fun r => (r.1, { queue with list := r.2 })

/-- Where the consumer stands in `pop`. From `marking` to `unlocking` it holds the
queue's lock. -/
inductive ConsumerPc
  | idle
  | popping
  | marking
  | leaving
  | unlocking
  | parked
deriving DecidableEq

def ConsumerPc.holdsLock : ConsumerPc → Bool
  | .marking | .leaving | .unlocking => true
  | _ => false

section

variable {P : Type} [DecidableEq P]

/-- `unblocks` says where each producer stands in the `unblock` after its `addItem`.
`added` and `popped` record the items in order. -/
structure State (P : Type) where
  queue : Queue
  thread : Thread
  consumer : ConsumerPc
  unblocks : P → Option UnblockPc
  added : List Ptr
  popped : List Ptr

def initialState (P : Type) (mem : Memory Ptr) : State P where
  queue := ⟨HeapDoubleList.empty mem, true⟩
  thread := ⟨.running, 0⟩
  consumer := .idle
  unblocks := fun _ => none
  added := []
  popped := []

inductive Action (P : Type)
  | callPop
  | consumer
  | addItem (producer : P) (node : Option Ptr) (item : Ptr)
  | unblock (producer : P)
deriving DecidableEq

def consumerStep (state : State P) : Option (State P) :=
  match state.consumer with
  | .idle => none
  | .popping => do
      let (item, queue) ← popHead state.queue
      if item ≠ 0 then some { state with
        queue := queue
        consumer := .idle
        popped := state.popped ++ [item] }
      else some { state with queue := queue, consumer := .marking }
  | .marking => some { state with thread := markBlocked state.thread, consumer := .leaving }
  | .leaving => some { state with thread := leaveRunQueue state.thread, consumer := .unlocking }
  | .unlocking => some { state with consumer := .parked }
  | .parked => (pull state.thread).map fun thread =>
    { state with thread := thread, consumer := .popping }

/-- The critical section of a producer's `addItem`. -/
def addItemStep (state : State P) (producer : P) (node : Option Ptr) (item : Ptr) :
    Option (State P) := do
  if state.unblocks producer ≠ none ∨ state.consumer.holdsLock then none
  let (ret, queue) ← addItem state.queue node item
  if ret ≠ .success then some { state with queue := queue }
  else some { state with
    queue := queue
    unblocks := update state.unblocks producer (some .testing)
    added := state.added ++ [item] }

def producerStep (state : State P) (producer : P) : Option (State P) := do
  let pc ← state.unblocks producer
  let (pc, thread) ← unblockStep state.thread pc
  some { state with
    thread := thread
    unblocks := update state.unblocks producer pc }

def step (state : State P) (action : Action P) : Option (Unit × State P) :=
  (match action with
    | .callPop =>
      if state.consumer = ConsumerPc.idle then some { state with consumer := .popping } else none
    | .consumer => consumerStep state
    | .addItem producer node item => addItemStep state producer node item
    | .unblock producer => producerStep state producer).map fun state => ((), state)

/-- The party of the action stands where the action is next, the lock it takes is
free, and a parked consumer is in the run queue. -/
def Enabled (state : State P) : Action P → Prop
  | .callPop => state.consumer = .idle
  | .consumer => state.consumer ≠ .idle ∧
      (state.consumer = .parked → 0 < state.thread.runQueueEntries)
  | .addItem producer node _ => state.unblocks producer = none ∧
      state.consumer.holdsLock = false ∧
        ∀ address ∈ node, HeapDoubleList.Allocated state.queue.list address
  | .unblock producer => state.unblocks producer ≠ none

instance (state : State P) : ∀ action : Action P, Decidable (Enabled state action)
  | .callPop => inferInstanceAs (Decidable (_ = _))
  | .consumer => inferInstanceAs (Decidable (_ ∧ (_ → _)))
  | .addItem _ _ _ => inferInstanceAs (Decidable (_ ∧ _ ∧ ∀ _ ∈ _, _))
  | .unblock _ => inferInstanceAs (Decidable (_ ≠ _))

def NonNull : Action P → Prop
  | .addItem _ _ item => item ≠ 0
  | _ => True

instance : ∀ action : Action P, Decidable (NonNull action)
  | .addItem _ _ _ => inferInstanceAs (Decidable (_ ≠ _))
  | .callPop | .consumer | .unblock _ => inferInstanceAs (Decidable True)

/-- No producer puts the consumer into the run queue while the consumer, already marked
blocked, is about to leave it. -/
def Unraced (state : State P) : Action P → Prop
  | .unblock producer => state.unblocks producer = some .entering → state.consumer ≠ .leaving
  | _ => True

instance (state : State P) : ∀ action : Action P, Decidable (Unraced state action)
  | .unblock _ => inferInstanceAs (Decidable (_ → _))
  | .callPop | .consumer | .addItem _ _ _ => inferInstanceAs (Decidable True)

/-- The consumer is blocked with items in its queue, and nobody is about to unblock it. -/
def LostWakeup (state : State P) : Prop :=
  state.thread.schedState = .blocked ∧ state.queue.list.head ≠ 0 ∧
    ∀ producer, state.unblocks producer = none

/-- The consumer is switched out and in no run queue, likewise. -/
def Stranded (state : State P) : Prop :=
  state.consumer = .parked ∧ state.thread.runQueueEntries = 0 ∧ state.queue.list.head ≠ 0 ∧
    ∀ producer, state.unblocks producer = none

instance [Fintype P] (state : State P) : Decidable (Stranded state) :=
  inferInstanceAs (Decidable (_ ∧ _ ∧ _ ∧ ∀ _, _))

def Pending (state : State P) : Prop :=
  ∃ producer pc, state.unblocks producer = some pc ∧ pc ≠ .entering

structure Consistent (state : State P) (items : List Ptr) : Prop where
  threadIsSet : state.queue.threadIsSet = true
  keeps : HeapDoubleList.Keeps state.queue.list items
  nonnull : ∀ item ∈ items, item ≠ 0
  added_eq : state.added = state.popped ++ items
  empty : state.consumer.holdsLock = true → items = []
  scheduled : Scheduled state.thread
  woken : state.thread.schedState = .blocked → items ≠ [] → Pending state

theorem consistent_initialState (mem : Memory Ptr) : Consistent (initialState P mem) [] where
  threadIsSet := rfl
  keeps := HeapDoubleList.keeps_empty mem
  nonnull := by simp
  added_eq := rfl
  empty := fun _ => rfl
  scheduled := .inr (.inl rfl)
  woken := by simp [initialState]

variable {items : List Ptr} {state next : State P}

theorem popHead_keeps {queue : Queue} (h : HeapDoubleList.Keeps queue.list items) :
    ∃ list, popHead queue = some (items.headD 0, { queue with list := list }) ∧
      HeapDoubleList.Keeps list items.tail := by
  obtain ⟨list, hpop, hkeeps⟩ := HeapDoubleList.popFromHead_keeps h
  exact ⟨list, by simp [popHead, hpop], hkeeps⟩

theorem addItem_keeps {queue : Queue} (h : HeapDoubleList.Keeps queue.list items)
    (hset : queue.threadIsSet = true) {node : Ptr}
    (hnode : HeapDoubleList.Allocated queue.list node) (item : Ptr) :
    ∃ list, addItem queue (some node) item = some (.success, { queue with list := list }) ∧
      HeapDoubleList.Keeps list (items ++ [item]) := by
  obtain ⟨list, hadd, hkeeps⟩ := HeapDoubleList.addItem_keeps h hnode item
  exact ⟨list, by simp [addItem, hset, hadd], hkeeps⟩

section

variable {state : State P} {items : List Ptr}

variable (h : Consistent state items)

include h

theorem callPop_consistent (henabled : state.consumer = .idle) :
    ∃ next, step state .callPop = some ((), next) ∧ Consistent next items := by
  refine ⟨{ state with consumer := .popping }, by simp [step, henabled], ?_⟩
  exact { h with empty := fun hlock => absurd hlock (by simp [ConsumerPc.holdsLock]) }

theorem popping_consistent (hpc : state.consumer = .popping) :
    ∃ next items', step state .consumer = some ((), next) ∧ Consistent next items' := by
  obtain ⟨list, hpop, hkeeps⟩ := popHead_keeps h.keeps
  cases items with
  | nil =>
    refine ⟨{ state with queue := { state.queue with list := list }, consumer := .marking }, [],
      by simp [step, consumerStep, hpc, hpop], ?_⟩
    exact { h with keeps := hkeeps, empty := fun _ => rfl }
  | cons item rest =>
    have hitem : item ≠ 0 := h.nonnull item (by simp)
    refine ⟨{ state with
        queue := { state.queue with list := list }
        consumer := .idle
        popped := state.popped ++ [item] }, rest,
      by simp [step, consumerStep, hpc, hpop, hitem], ?_⟩
    exact { h with
      keeps := hkeeps
      nonnull := fun other hother => h.nonnull other (mem_cons_of_mem _ hother)
      added_eq := by simpa using h.added_eq
      empty := fun hlock => absurd hlock (by simp [ConsumerPc.holdsLock])
      woken := fun hblocked _ => h.woken hblocked (by simp) }

theorem consumer_consistent (henabled : Enabled state .consumer) :
    ∃ next items', step state .consumer = some ((), next) ∧ Consistent next items' := by
  cases hpc : state.consumer with
  | idle => exact absurd hpc henabled.1
  | popping => exact popping_consistent h hpc
  | marking =>
    have hempty : items = [] := h.empty (by simp [hpc, ConsumerPc.holdsLock])
    refine ⟨_, items, by simp [step, consumerStep, hpc]; rfl, ?_⟩
    exact { h with
      empty := fun _ => hempty
      scheduled := .inr (.inr rfl)
      woken := fun _ hne => absurd hempty hne }
  | leaving =>
    have hempty : items = [] := h.empty (by simp [hpc, ConsumerPc.holdsLock])
    refine ⟨_, items, by simp [step, consumerStep, hpc]; rfl, ?_⟩
    exact { h with
      empty := fun _ => hempty
      scheduled := h.scheduled
      woken := h.woken }
  | unlocking =>
    refine ⟨_, items, by simp [step, consumerStep, hpc]; rfl, ?_⟩
    exact { h with
      empty := fun hlock => absurd hlock (by simp [ConsumerPc.holdsLock])
      woken := h.woken }
  | parked =>
    have hentries : state.thread.runQueueEntries ≠ 0 := ne_of_gt (henabled.2 hpc)
    refine ⟨_, items, by simp [step, consumerStep, hpc, pull, hentries]; rfl, ?_⟩
    exact { h with
      empty := fun hlock => absurd hlock (by simp [ConsumerPc.holdsLock])
      scheduled := .inr (.inl rfl)
      woken := fun hblocked => absurd hblocked (by simp) }

theorem addItem_consistent {producer : P} {node : Option Ptr}
    {item : Ptr} (henabled : Enabled state (.addItem producer node item)) (hitem : item ≠ 0) :
    ∃ next items', step state (.addItem producer node item) = some ((), next) ∧
      Consistent next items' := by
  obtain ⟨hidle, hlock, hnode⟩ := henabled
  cases node with
  | none =>
    have hadd : addItem state.queue none item = some (.memoryNomem, state.queue) := by
      rw [addItem, if_neg (by simp [h.threadIsSet])]
      rfl
    exact ⟨state, items, by simp [step, addItemStep, hidle, hlock, hadd], h⟩
  | some address =>
    obtain ⟨list, hadd, hkeeps⟩ := addItem_keeps h.keeps h.threadIsSet (hnode address rfl) item
    refine ⟨{ state with
        queue := { state.queue with list := list }
        unblocks := update state.unblocks producer (some .testing)
        added := state.added ++ [item] }, items ++ [item],
      by simp [step, addItemStep, hidle, hlock, hadd], ?_⟩
    exact { h with
      keeps := hkeeps
      nonnull := by
        intro other hother
        rcases mem_append.mp hother with hother | hother
        · exact h.nonnull other hother
        · rw [mem_singleton.mp hother]
          exact hitem
      added_eq := by
        rw [h.added_eq, append_assoc]
      empty := fun hheld => absurd hlock (by rw [hheld]; decide)
      woken := fun _ _ => ⟨producer, .testing, by simp, by decide⟩ }

theorem unblock_consistent {producer : P} (henabled : Enabled state (.unblock producer)) :
    ∃ next, step state (.unblock producer) = some ((), next) ∧ Consistent next items := by
  obtain ⟨pc, hpc⟩ := ne_none_iff_exists'.mp henabled
  obtain ⟨pc', thread, hstep, hunblocks⟩ := unblockStep_unblocks h.scheduled pc
  refine ⟨{ state with
      thread := thread
      unblocks := update state.unblocks producer pc' },
    by simp [step, producerStep, hpc, hstep], ?_⟩
  refine { h with scheduled := hunblocks.scheduled h.scheduled, woken := ?_ }
  intro hblocked hne
  obtain ⟨other, otherPc, hother, hpending⟩ :=
    h.woken (hunblocks.blocked_of_blocked hblocked) hne
  rcases eq_or_ne other producer with rfl | hdiff
  · cases hpc.symm.trans hother
    obtain ⟨nextPc, rfl, hnextPc⟩ := hunblocks.pending hblocked hpending
    exact ⟨other, nextPc, by simp, hnextPc⟩
  · exact ⟨other, otherPc, by simpa [hdiff] using hother, hpending⟩

omit h

theorem step_consistent (state : State P) (action : Action P)
    (h : ∃ items, Consistent state items) (henabled : Enabled state action ∧ NonNull action) :
    ∃ result next, step state action = some (result, next) ∧ ∃ items, Consistent next items := by
  obtain ⟨items, h⟩ := h
  cases action with
  | callPop =>
    obtain ⟨next, hstep, hnext⟩ := callPop_consistent h henabled.1
    exact ⟨(), next, hstep, items, hnext⟩
  | consumer =>
    obtain ⟨next, items', hstep, hnext⟩ := consumer_consistent h henabled.1
    exact ⟨(), next, hstep, items', hnext⟩
  | addItem producer node item =>
    obtain ⟨next, items', hstep, hnext⟩ := addItem_consistent h henabled.1 henabled.2
    exact ⟨(), next, hstep, items', hnext⟩
  | unblock producer =>
    obtain ⟨next, hstep, hnext⟩ := unblock_consistent h henabled.1
    exact ⟨(), next, hstep, items, hnext⟩

end

theorem Consistent.not_lostWakeup (h : Consistent state items) : ¬ LostWakeup state := by
  rintro ⟨hblocked, hhead, hidle⟩
  have hne : items ≠ [] := fun hnil => hhead ((HeapDoubleList.head_eq_zero_iff h.keeps).mpr hnil)
  obtain ⟨producer, pc, hpc, -⟩ := h.woken hblocked hne
  rw [hidle producer] at hpc
  contradiction

theorem Consistent.popped_prefix (h : Consistent state items) : state.popped <+: state.added := by
  rw [h.added_eq]
  exact prefix_append _ _

/-- The consumer, on its way out of the run queue or out of it, is in reach of the scheduler. -/
def Schedulable (state : State P) : Prop :=
  Wakeable (state.consumer = .leaving) (state.consumer = .unlocking ∨ state.consumer = .parked)
    (∃ producer, state.unblocks producer = some .entering) state.thread

variable (h : Schedulable state)

include h

theorem consumer_schedulable (hstep : consumerStep state = some next) : Schedulable next := by
  unfold consumerStep at hstep
  split at hstep
  · contradiction
  · obtain ⟨⟨item, queue⟩, -, hstep⟩ := bind_eq_some_iff.mp hstep
    dsimp only at hstep
    split at hstep <;> cases hstep <;> exact wakeable_running (by simp) (by simp)
  · cases hstep
    exact ⟨fun _ => .inl rfl, by simp⟩
  · rename_i hpc
    cases hstep
    refine ⟨by simp, fun _ => ?_⟩
    rcases h.leaving hpc with hblocked | hentering
    · exact .inl hblocked
    · exact .inr (.inl hentering)
  · rename_i hpc
    cases hstep
    exact ⟨by simp, fun _ => h.left (.inl hpc)⟩
  · obtain ⟨thread, -, rfl⟩ := map_eq_some_iff.mp hstep
    exact wakeable_running (by simp) (by simp)

theorem addItem_schedulable {producer : P} {node : Option Ptr} {item : Ptr}
    (hstep : addItemStep state producer node item = some next) : Schedulable next := by
  unfold addItemStep at hstep
  split at hstep
  · contradiction
  rename_i hfree
  have hidle : state.unblocks producer = none :=
    Classical.byContradiction fun hbusy => hfree (.inl hbusy)
  have hentering := @exists_update _ _ _ state.unblocks UnblockPc.entering producer (some .testing)
    (by simp [hidle])
  obtain ⟨⟨ret, queue⟩, -, hstep⟩ := bind_eq_some_iff.mp hstep
  dsimp only at hstep
  split at hstep
  · cases hstep
    exact ⟨h.leaving, h.left⟩
  · cases hstep
    exact ⟨fun hpc => (h.leaving hpc).imp_right hentering,
      fun hpc => (h.left hpc).imp_right (Or.imp_left hentering)⟩

theorem producer_schedulable (hscheduled : Scheduled state.thread) {producer : P}
    (hunraced : Unraced state (.unblock producer))
    (hstep : producerStep state producer = some next) : Schedulable next := by
  obtain ⟨pc, hpc, hstep⟩ := bind_eq_some_iff.mp hstep
  obtain ⟨pc', thread, hunblock, hunblocks⟩ := unblockStep_unblocks hscheduled pc
  rw [hunblock] at hstep
  cases hstep
  refine hunblocks.wakeable h (fun heq => hunraced (heq ▸ hpc)) ?_ ?_
  · intro hne hentering
    exact exists_update _ (fun heq => hne (some.inj (hpc.symm.trans heq))) hentering
  · intro heq
    exact ⟨producer, by simp [heq]⟩

theorem step_schedulable {action : Action P} {result : Unit}
    (hscheduled : Scheduled state.thread) (hunraced : Unraced state action)
    (hstep : step state action = some (result, next)) : Schedulable next := by
  obtain ⟨next', hstep, heq⟩ := map_eq_some_iff.mp hstep
  cases heq
  cases action with
  | callPop =>
    dsimp only at hstep
    split at hstep <;> cases hstep
    exact wakeable_running (by simp) (by simp)
  | consumer => exact consumer_schedulable h hstep
  | addItem producer node item => exact addItem_schedulable h hstep
  | unblock producer => exact producer_schedulable h hscheduled hunraced hstep

omit h

theorem not_stranded (h : Consistent state items) (hschedulable : Schedulable state) :
    ¬ Stranded state := by
  rintro ⟨hparked, hentries, hhead, hidle⟩
  rcases hschedulable.left (.inr hparked) with hblocked | ⟨producer, hproducer⟩ | hpos
  · exact h.not_lostWakeup ⟨hblocked, hhead, hidle⟩
  · rw [hidle producer] at hproducer
    contradiction
  · exact absurd hentries (ne_of_gt hpos)

def Safe (state : State P) : Prop :=
  ¬ LostWakeup state ∧ ¬ Stranded state ∧ state.popped <+: state.added

/-- In every interleaving in which only objects are added, and no producer crosses the consumer
on its way out of the run queue, no step fails, no wakeup is lost and the items come out in the
order they went in. -/
theorem run_no_lostWakeup (mem : Memory Ptr) (actions : List (Action P))
    (h : Guarded step (fun state action =>
      (Enabled state action ∧ NonNull action) ∧ Unraced state action)
      (initialState P mem) actions) :
    ∃ results last, run step (initialState P mem) actions = some (results, last) ∧ Safe last := by
  have hstep : ∀ (state : State P) action, ((∃ items, Consistent state items) ∧ Schedulable state) →
      (Enabled state action ∧ NonNull action) ∧ Unraced state action →
        ∃ result next, step state action = some (result, next) ∧
          (∃ items, Consistent next items) ∧ Schedulable next := by
    rintro state action ⟨hstate, hschedulable⟩ ⟨henabled, hunraced⟩
    obtain ⟨result, next, hnext, hconsistent⟩ := step_consistent state action hstate henabled
    obtain ⟨items, hstate⟩ := hstate
    exact ⟨result, next, hnext, hconsistent,
      step_schedulable hschedulable hstate.scheduled hunraced hnext⟩
  have hinit : Schedulable (initialState P mem) :=
    wakeable_running (by simp [initialState]) (by simp [initialState])
  obtain ⟨results, last, hrun, ⟨items, hlast⟩, hschedulable⟩ :=
    run_invariant hstep ⟨⟨_, consistent_initialState mem⟩, hinit⟩ h
  exact ⟨results, last, hrun, hlast.not_lostWakeup, not_stranded hlast hschedulable,
    hlast.popped_prefix⟩

end

def blockAndWake : List (Action Unit) :=
  [.callPop, .consumer, .consumer, .consumer, .consumer, .addItem () (some 1) 7, .unblock (),
    .unblock (), .unblock (), .consumer, .consumer]

theorem run_no_lostWakeup_blockAndWake :
    ∃ results last, run step (initialState Unit fun _ => none) blockAndWake =
        some (results, last) ∧ Safe last := by
  apply run_no_lostWakeup
  decide +kernel

/-- The consumer has taken the item before its producer runs `unblock`, and is blocking. -/
def lateUnblock : List (Action Unit) :=
  [.addItem () (some 1) 7, .callPop, .consumer, .callPop, .consumer, .consumer, .unblock (),
    .unblock (), .unblock (), .consumer, .consumer, .addItem () (some 2) 8, .unblock ()]

/-- The producer enters the consumer into the run queue that it then leaves. -/
theorem lateUnblock_stranded :
    ¬ ∀ (P : Type) [DecidableEq P] (mem : Memory Ptr) (actions : List (Action P)),
      Guarded step (fun state action => Enabled state action ∧ NonNull action)
        (initialState P mem) actions →
        ∃ results last, run step (initialState P mem) actions = some (results, last) ∧
          Safe last := by
  intro hclaim
  obtain ⟨results, last, hrun, hsafe⟩ :=
    hclaim Unit (fun _ => none) lateUnblock (by decide +kernel)
  have hlost : ((run step (initialState Unit fun _ => none) lateUnblock).any
      fun r => decide (Stranded r.2)) = true := by
    decide +kernel
  rw [hrun] at hlost
  exact hsafe.2.1 (of_decide_eq_true hlost)

end Zambesii.SingleWaiterQueue
