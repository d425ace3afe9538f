import Zambesii.LinkedCells
import Zambesii.PrioQueue
import Zambesii.TaskTrib

/-!
`TaskStream` and the operations of `TaskTrib`, on a machine with one CPU. The run queues'
nodes are always allocated. `pull` is a step of its own, one round of its loop: while it has
no thread to switch to the CPU is halted, and what an interrupt handler calls comes in
between.
-/

namespace Zambesii.TaskStream

open Function List Option
open KernelTypes
open LinkedCells (Ptr)
open PrioQueue (emptyQueue)
open Runs
open TaskTrib (SchedState)

inductive SchedPolicy
  | invalid
  | roundRobin
  | realTime
deriving DecidableEq

inductive RunQueue
  | roundRobinQ
  | realTimeQ
deriving DecidableEq

/-- `prio` is `schedPrio->prio`. `sticky` is the bit of `schedOptions` that `PrioQueue` reads,
`schedWaiting` that of `schedFlags`. `cpuAffinity` and `currentCpu` say whether they have the
CPU. -/
structure Thread where
  schedState : SchedState
  schedPolicy : SchedPolicy
  prio : Nat
  sticky : Bool
  schedWaiting : Bool
  cpuAffinity : Bool
  currentCpu : Bool
deriving DecidableEq

def schedprioMaxNprios : Nat := 20

def Thread.runQueue (thread : Thread) : Option RunQueue :=
  match thread.schedPolicy with
  | .roundRobin => some .roundRobinQ
  | .realTime => some .realTimeQ
  | .invalid => none

/-- `inPull` from the call of `pull` until it has switched to a thread. -/
structure State where
  threads : Ptr → Thread
  currentThread : Ptr
  runQueues : RunQueue → PrioQueue Ptr
  inPull : Bool

def State.setSchedState (state : State) (thread : Ptr) (schedState : SchedState) : State :=
  { state with
    threads := update state.threads thread
      { state.threads thread with schedState := schedState } }

def State.setCurrentCpu (state : State) (thread : Ptr) : State :=
  { state with
    threads := update state.threads thread
      { state.threads thread with currentCpu := true } }

def State.setQueue (state : State) (which : RunQueue) (queue : PrioQueue Ptr) : State :=
  { state with runQueues := update state.runQueues which queue }

def State.insertThread (state : State) (thread : Ptr) (unknownPolicy : Kerror) : Kerror × State :=
  match (state.threads thread).runQueue with
  | none => (unknownPolicy, state)
  | some which =>
    let (ret, queue) := (state.runQueues which).insert schedprioMaxNprios thread
      (state.threads thread).prio (state.threads thread).sticky
    (ret, state.setQueue which queue)

/-- The removal of a thread from the run queue of its policy. There is no queue for a
priority that is too large. -/
def State.removeThread (state : State) (thread : Ptr) : Option State :=
  match (state.threads thread).runQueue with
  | none => some state
  | some which =>
    if schedprioMaxNprios ≤ (state.threads thread).prio then none
    else some (state.setQueue which
      ((state.runQueues which).remove schedprioMaxNprios thread (state.threads thread).prio))

def scheduleOnStream (state : State) (thread : Ptr) : Kerror × State :=
  ((state.setSchedState thread .runnable).setCurrentCpu thread).insertThread thread .invalidArgVal

/-- `TaskStream::pullFromQ`, where `turns` bounds the number of times that it goes round its
loop. -/
def pullFromQ (state : State) (which : RunQueue) : (turns : Nat) → Option (Option Ptr × State)
  | 0 => none
  | turns + 1 =>
    match (state.runQueues which).pop schedprioMaxNprios with
    | (none, queue) => some (none, state.setQueue which queue)
    | (some ret, queue) =>
      let state := state.setQueue which queue
      -- The scheduler is waiting for this thread.
      if (state.threads ret).schedWaiting then
        pullFromQ (scheduleOnStream state ret).2 which turns
      else some (some ret, state)

def switchTo (state : State) (newThread : Ptr) : State :=
  { state.setSchedState newThread .running with currentThread := newThread, inPull := false }

def pull (state : State) (turns : Nat) : Option State := do
  let (newThread, state) ← pullFromQ state .realTimeQ turns
  match newThread with
  | some newThread => some (switchTo state newThread)
  | none =>
    let (newThread, state) ← pullFromQ state .roundRobinQ turns
    match newThread with
    | some newThread => some (switchTo state newThread)
    | none => some { state with inPull := true }

def dormantOnStream (state : State) (thread : Ptr) : Option State :=
  (state.setSchedState thread .dormant).removeThread thread

def blockOnStream (state : State) (thread : Ptr) : Option State :=
  (state.setSchedState thread .blocked).removeThread thread

def unblockOnStream (state : State) (thread : Ptr) : Kerror × State :=
  (state.setSchedState thread .runnable).insertThread thread .unsupported

/-- `TaskStream::yield`. What the insertion returns is not looked at. -/
def yieldOnStream (state : State) (thread : Ptr) : State :=
  ((state.setSchedState thread .runnable).insertThread thread .success).2

def wakeOnStream (state : State) (thread : Ptr) : Kerror × State :=
  match (state.threads thread).schedState with
  | .runnable | .running => (.success, state)
  | .blocked | .shuttingDown | .zombie => (.unsupported, state)
  | .invalid | .unscheduled | .dormant =>
    (state.setSchedState thread .runnable).insertThread thread .critical

def schedule (state : State) (thread : Ptr) : Kerror × State :=
  if (state.threads thread).cpuAffinity then scheduleOnStream state thread
  else (.unknown, state)

def saveContextAndCallPull (state : State) : State :=
  { state with inPull := true }

def yield (state : State) : State :=
  saveContextAndCallPull (yieldOnStream state state.currentThread)

def block (state : State) : Option State :=
  (blockOnStream state state.currentThread).map saveContextAndCallPull

def shouldPreemptCurrentThread (state : State) (thread : Ptr) : Bool :=
  let otherThread := state.threads state.currentThread
  decide (otherThread.prio < (state.threads thread).prio) &&
    !(decide (otherThread.schedPolicy = .realTime) &&
      decide ((state.threads thread).schedPolicy = .roundRobin))

/-- The last part of `unblock` and `wake`: an error makes the kernel panic. -/
def finishWake (thread : Ptr) : Kerror × State → Option (Kerror × State)
  | (err, state) =>
    if err ≠ .success then none
    else if shouldPreemptCurrentThread state thread then some (err, yield state)
    else some (err, state)

def unblock (state : State) (thread : Ptr) : Option (Kerror × State) :=
  if thread = 0 then some (.invalidArg, state)
  else
    match (state.threads thread).schedState with
    | .runnable | .running => some (.success, state)
    | .blocked =>
      if (state.threads thread).currentCpu then finishWake thread (unblockOnStream state thread)
      else none
    | _ => some (.invalidOperation, state)

def dormant (state : State) (thread : Ptr) : Option (Kerror × State) :=
  if thread = 0 then some (.invalidArg, state)
  else
    match (state.threads thread).schedState with
    | .unscheduled | .dormant => some (.success, state)
    | _ => do
        if (state.threads thread).currentCpu = false then none
        let next ← dormantOnStream state thread
        if thread = next.currentThread then some (.success, saveContextAndCallPull next)
        else some (.success, next)

/-- `TaskTrib::wake`. What `schedule` returns is not looked at. -/
def wake (state : State) (thread : Ptr) : Option (Kerror × State) :=
  if thread = 0 then some (.invalidArg, state)
  else
    match (state.threads thread).schedState with
    | .runnable | .running => some (.success, state)
    | schedState =>
      let state := if schedState = .unscheduled then (schedule state thread).2 else state
      if (state.threads thread).currentCpu then finishWake thread (wakeOnStream state thread)
      else none

/-- The threads as their constructors and `spawnThread` leave them; the power thread is the
current one. -/
def initialState (threads : Ptr → Thread) (powerThread : Ptr) : State where
  threads := fun thread => { threads thread with schedState := .unscheduled }
  currentThread := powerThread
  runQueues := fun _ => emptyQueue Ptr
  inPull := false

inductive Call
  | schedule (thread : Ptr)
  | scheduleOnStream (thread : Ptr)
  | pull (turns : Nat)
  | yield
  | block
  | unblock (thread : Ptr)
  | dormant (thread : Ptr)
  | wake (thread : Ptr)
deriving DecidableEq

/-- Only a thread calls `yield` and `block`, and none does while the CPU is in `pull`. -/
def step (state : State) : Call → Option (Kerror × State)
  | .schedule thread => if thread = 0 then none else some (schedule state thread)
  | .scheduleOnStream thread => if thread = 0 then none else some (scheduleOnStream state thread)
  | .pull turns => (pull state turns).map fun state => (.success, state)
  | .yield => if state.inPull then none else some (.success, yield state)
  | .block => if state.inPull then none else (block state).map fun state => (.success, state)
  | .unblock thread => unblock state thread
  | .dormant thread => dormant state thread
  | .wake thread => wake state thread

def entries (queue : PrioQueue Ptr) (thread : Ptr) : Nat :=
  ((List.range schedprioMaxNprios).map fun q => (queue.queues q).count thread).sum

structure Consistent (state : State) : Prop where
  runnable : ∀ thread, (state.threads thread).schedState = .runnable →
    ∃ which, entries (state.runQueues which) thread = 1 ∧
      ∀ other, other ≠ which → entries (state.runQueues other) thread = 0
  waiting : ∀ thread, (state.threads thread).schedState = .blocked ∨
    (state.threads thread).schedState = .dormant →
      ∀ which, entries (state.runQueues which) thread = 0
  running : ∀ thread, (state.threads thread).schedState = .running →
    thread = state.currentThread ∧ ∀ which, entries (state.runQueues which) thread = 0

def Queueable (thread : Thread) : Prop :=
  thread.schedPolicy ≠ .invalid ∧ thread.prio < schedprioMaxNprios

def Insertable (thread : Thread) : Prop :=
  thread.schedState ≠ .runnable ∧ Queueable thread

instance (thread : Thread) : Decidable (Queueable thread) :=
  inferInstanceAs (Decidable (_ ∧ _))

instance (thread : Thread) : Decidable (Insertable thread) :=
  inferInstanceAs (Decidable (_ ∧ _))

/-- A thread that is put into a run queue is not there yet, be it the thread that a call
names or the current thread that makes way for it; and `pull` does not leave a thread that
is still running. -/
def Proper (state : State) : Call → Prop
  | .schedule thread =>
    (state.threads thread).cpuAffinity = true → Insertable (state.threads thread)
  | .scheduleOnStream thread => Insertable (state.threads thread)
  | .pull _ => (state.threads state.currentThread).schedState ≠ .running
  | .yield => Insertable (state.threads state.currentThread)
  | .block | .dormant _ => True
  | .unblock thread =>
    (state.threads thread).schedState = .blocked →
      shouldPreemptCurrentThread state thread = true →
        Insertable (state.threads state.currentThread)
  | .wake thread =>
    ((state.threads thread).schedState = .unscheduled →
      (state.threads thread).cpuAffinity = true → Queueable (state.threads thread)) ∧
    ((state.threads thread).schedState ≠ .runnable ∧ (state.threads thread).schedState ≠ .running →
        shouldPreemptCurrentThread state thread = true →
          Insertable (state.threads state.currentThread))

instance (state : State) : ∀ call, Decidable (Proper state call)
  | .schedule _ | .unblock _ => inferInstanceAs (Decidable (_ → _))
  | .scheduleOnStream _ | .yield => inferInstanceAs (Decidable (Insertable _))
  | .pull _ => inferInstanceAs (Decidable (_ ≠ _))
  | .block | .dormant _ => inferInstanceAs (Decidable True)
  | .wake _ => inferInstanceAs (Decidable (_ ∧ _))

def Home (thread : Thread) (which : RunQueue) (q : Nat) : Prop :=
  thread.schedState = .runnable ∧ thread.runQueue = some which ∧ thread.prio = q

instance (thread : Thread) (which : RunQueue) (q : Nat) : Decidable (Home thread which q) :=
  inferInstanceAs (Decidable (_ ∧ _ ∧ _))

structure Placed (state : State) : Prop where
  count : ∀ which q thread, ((state.runQueues which).queues q).count thread =
    if Home (state.threads thread) which q then 1 else 0
  queueable : ∀ thread, (state.threads thread).schedState = .runnable →
    Queueable (state.threads thread)

def OnlyCurrent (state : State) : Prop :=
  ∀ thread, (state.threads thread).schedState = .running → thread = state.currentThread

theorem exists_runQueue {thread : Thread} (h : Queueable thread) :
    ∃ which, thread.runQueue = some which := by
  unfold Thread.runQueue
  cases hpolicy : thread.schedPolicy with
  | invalid => exact absurd hpolicy h.1
  | roundRobin => exact ⟨_, rfl⟩
  | realTime => exact ⟨_, rfl⟩

variable {which : RunQueue} {state next : State} {schedState : SchedState} {ret : Kerror}

theorem not_home {thread : Thread} {q : Nat} (h : thread.schedState ≠ .runnable) :
    ¬ Home thread which q :=
  fun hhome => h hhome.1

theorem Placed.congr (h : Placed state)
    (hqueues : ∀ which, (next.runQueues which).queues = (state.runQueues which).queues)
    (hthreads : ∀ thread, ((next.threads thread).schedState = .runnable ↔
        (state.threads thread).schedState = .runnable) ∧
      (next.threads thread).schedPolicy = (state.threads thread).schedPolicy ∧
      (next.threads thread).prio = (state.threads thread).prio) : Placed next := by
  refine ⟨?_, ?_⟩
  · intro which q thread
    obtain ⟨hstate, hpolicy, hprio⟩ := hthreads thread
    have hhome : Home (state.threads thread) which q ↔ Home (next.threads thread) which q := by
      simp only [Home, Thread.runQueue, hstate, hpolicy, hprio]
    rw [hqueues, h.count]
    exact if_congr hhome rfl rfl
  · intro thread hrunnable
    obtain ⟨hstate, hpolicy, hprio⟩ := hthreads thread
    have hold := h.queueable thread (hstate.mp hrunnable)
    exact ⟨hpolicy ▸ hold.1, hprio ▸ hold.2⟩

@[simp] theorem threads_setQueue (state : State) (which : RunQueue) (queue : PrioQueue Ptr) :
    (state.setQueue which queue).threads = state.threads := rfl

@[simp] theorem threads_setSchedState_self (state : State) (thread : Ptr)
    (schedState : SchedState) :
    (state.setSchedState thread schedState).threads thread =
      { state.threads thread with schedState := schedState } := by
  simp [State.setSchedState]

theorem threads_setSchedState_of_ne (state : State) {thread other : Ptr}
    (schedState : SchedState) (h : other ≠ thread) :
    (state.setSchedState thread schedState).threads other = state.threads other := by
  simp [State.setSchedState, h]

@[simp] theorem setSchedState_setSchedState (state : State) (thread : Ptr)
    (first second : SchedState) : (state.setSchedState thread first).setSchedState thread second =
      state.setSchedState thread second := by
  simp [State.setSchedState]

theorem Placed.change (h : Placed state) (thread : Ptr) (which : RunQueue) (q : Nat)
    (items : List Ptr)
    (hthreads : ∀ other, other ≠ thread → next.threads other = state.threads other)
    (hqueue : (next.runQueues which).queues = update (state.runQueues which).queues q items)
    (hqueues : ∀ w, w ≠ which → next.runQueues w = state.runQueues w)
    (hothers : ∀ other, other ≠ thread →
      items.count other = ((state.runQueues which).queues q).count other)
    (hself : ∀ w r, ((next.runQueues w).queues r).count thread =
      if Home (next.threads thread) w r then 1 else 0)
    (hqueueable : (next.threads thread).schedState = .runnable → Queueable (next.threads thread)) :
    Placed next := by
  refine ⟨?_, ?_⟩
  · intro w r other
    rcases eq_or_ne other thread with rfl | hother
    · exact hself w r
    rw [hthreads other hother, ← h.count]
    rcases eq_or_ne w which with rfl | hw
    · rw [hqueue]
      rcases eq_or_ne r q with rfl | hr
      · rw [update_self, hothers other hother]
      · rw [update_of_ne hr]
    · rw [hqueues w hw]
  · intro other hrunnable
    rcases eq_or_ne other thread with rfl | hother
    · exact hqueueable hrunnable
    · rw [hthreads other hother] at hrunnable ⊢
      exact h.queueable other hrunnable

theorem runQueues_setQueue_of_ne (state : State) {other : RunQueue} (queue : PrioQueue Ptr)
    (h : other ≠ which) : (state.setQueue which queue).runQueues other = state.runQueues other := by
  simp [State.setQueue, h]

@[simp] theorem runQueues_setQueue_self (state : State) (which : RunQueue)
    (queue : PrioQueue Ptr) : (state.setQueue which queue).runQueues which = queue := by
  simp [State.setQueue]

@[simp] theorem runQueues_setSchedState (state : State) (thread : Ptr) (schedState : SchedState) :
    (state.setSchedState thread schedState).runQueues = state.runQueues := rfl

theorem Placed.enter (h : Placed state) {thread : Ptr}
    (hinsertable : Insertable (state.threads thread))
    (hwhich : (state.threads thread).runQueue = some which) {queue : PrioQueue Ptr}
    {items : List Ptr}
    (hitems : ∀ other, items.count other =
      ((state.runQueues which).queues (state.threads thread).prio).count other +
        if other = thread then 1 else 0)
    (hqueue : queue.queues =
      update (state.runQueues which).queues (state.threads thread).prio items) :
    Placed ((state.setSchedState thread .runnable).setQueue which queue) := by
  obtain ⟨hstate, hqueueable⟩ := hinsertable
  have hcount : ∀ w r, ((state.runQueues w).queues r).count thread = 0 := by
    intro w r
    rw [h.count, if_neg (not_home hstate)]
  refine h.change thread which (state.threads thread).prio items ?_ ?_ ?_ ?_ ?_ ?_
  · intro other hother
    rw [threads_setQueue, threads_setSchedState_of_ne _ _ hother]
  · rw [runQueues_setQueue_self, hqueue]
  · intro w hw
    rw [runQueues_setQueue_of_ne _ _ hw, runQueues_setSchedState]
  · intro other hother
    rw [hitems, if_neg hother, add_zero]
  · intro w r
    rw [threads_setQueue, threads_setSchedState_self]
    rcases eq_or_ne w which with rfl | hw
    · rw [runQueues_setQueue_self, hqueue]
      rcases eq_or_ne r (state.threads thread).prio with rfl | hr
      · have hhome : Home { state.threads thread with schedState := .runnable } w
            (state.threads thread).prio := ⟨rfl, hwhich, rfl⟩
        rw [update_self, if_pos hhome, hitems, hcount, if_pos rfl]
      · rw [update_of_ne hr, hcount, if_neg]
        rintro ⟨-, -, hprio⟩
        exact hr hprio.symm
    · rw [runQueues_setQueue_of_ne _ _ hw, runQueues_setSchedState, hcount, if_neg]
      rintro ⟨-, hhome, -⟩
      exact hw (some.inj (hhome.symm.trans hwhich))
  · intro _
    rw [threads_setQueue, threads_setSchedState_self]
    exact hqueueable

theorem Placed.leave (h : Placed state) {thread : Ptr}
    (hwhich : (state.threads thread).runQueue = some which) (hstate : schedState ≠ .runnable)
    {queue : PrioQueue Ptr} (hqueue : queue.queues = update (state.runQueues which).queues
      (state.threads thread).prio
      (((state.runQueues which).queues (state.threads thread).prio).erase thread)) :
    Placed ((state.setSchedState thread schedState).setQueue which queue) := by
  have haway : ∀ w r, w ≠ which ∨ r ≠ (state.threads thread).prio →
      ((state.runQueues w).queues r).count thread = 0 := by
    intro w r hne
    rw [h.count, if_neg]
    rintro ⟨-, hhome, hprio⟩
    rcases hne with hw | hr
    · exact hw (some.inj (hhome.symm.trans hwhich))
    · exact hr hprio.symm
  refine h.change thread which (state.threads thread).prio
    (((state.runQueues which).queues (state.threads thread).prio).erase thread) ?_ ?_ ?_ ?_ ?_ ?_
  · intro other hother
    rw [threads_setQueue, threads_setSchedState_of_ne _ _ hother]
  · rw [runQueues_setQueue_self, hqueue]
  · intro w hw
    rw [runQueues_setQueue_of_ne _ _ hw, runQueues_setSchedState]
  · intro other hother
    rw [count_erase_of_ne hother]
  · intro w r
    rw [threads_setQueue, threads_setSchedState_self, if_neg (not_home hstate)]
    rcases eq_or_ne w which with rfl | hw
    · rw [runQueues_setQueue_self, hqueue]
      rcases eq_or_ne r (state.threads thread).prio with rfl | hr
      · rw [update_self, count_erase_self, h.count]
        split <;> rfl
      · rw [update_of_ne hr, haway w r (.inr hr)]
    · rw [runQueues_setQueue_of_ne _ _ hw, runQueues_setSchedState, haway w r (.inl hw)]
  · rw [threads_setQueue, threads_setSchedState_self]
    intro hrunnable
    exact absurd hrunnable hstate

theorem insertThread_placed (h : Placed state) {thread : Ptr}
    (hinsertable : Insertable (state.threads thread)) (unknownPolicy : Kerror) :
    ∃ next, (state.setSchedState thread .runnable).insertThread thread unknownPolicy =
        (.success, next) ∧ Placed next ∧
      next.threads = (state.setSchedState thread .runnable).threads ∧
      next.currentThread = state.currentThread := by
  obtain ⟨which, hwhich⟩ := exists_runQueue hinsertable.2
  have hself := threads_setSchedState_self state thread .runnable
  have hwhich' : ((state.setSchedState thread .runnable).threads thread).runQueue =
      some which := by
    rw [hself]
    exact hwhich
  refine ⟨(state.setSchedState thread .runnable).setQueue which
    (((state.runQueues which).queueInsert thread (state.threads thread).prio
      (state.threads thread).sticky).raiseHead (state.threads thread).prio), ?_, ?_, rfl, rfl⟩
  · unfold State.insertThread
    rw [hwhich', hself]
    dsimp only
    rw [PrioQueue.insert_of_lt _ hinsertable.2.2, runQueues_setSchedState]
  · refine h.enter hinsertable hwhich ?_ (PrioQueue.queues_raiseHead _ _)
    intro other
    rcases eq_or_ne other thread with rfl | hother
    · split <;> simp
    · split <;> simp [count_append, count_cons, hother.symm]

theorem removeThread_placed (h : Placed state) {thread : Ptr} (hstate : schedState ≠ .runnable)
    (heq : (state.setSchedState thread schedState).removeThread thread = some next) :
    Placed next ∧ next.threads = (state.setSchedState thread schedState).threads ∧
      next.currentThread = state.currentThread := by
  have hself := threads_setSchedState_self state thread schedState
  unfold State.removeThread at heq
  cases hwhich : (state.threads thread).runQueue with
  | none =>
    have hwhich' : ((state.setSchedState thread schedState).threads thread).runQueue = none := by
      rw [hself]
      exact hwhich
    rw [hwhich'] at heq
    cases heq
    refine ⟨h.congr (fun _ => rfl) ?_, rfl, rfl⟩
    intro other
    rcases eq_or_ne other thread with rfl | hother
    · rw [hself]
      refine ⟨iff_of_false hstate ?_, rfl, rfl⟩
      intro hrunnable
      obtain ⟨which, hsome⟩ := exists_runQueue (h.queueable other hrunnable)
      rw [hwhich] at hsome
      contradiction
    · rw [threads_setSchedState_of_ne _ _ hother]
      exact ⟨Iff.rfl, rfl, rfl⟩
  | some which =>
    have hwhich' : ((state.setSchedState thread schedState).threads thread).runQueue =
        some which := by
      rw [hself]
      exact hwhich
    rw [hwhich', hself] at heq
    dsimp only at heq
    split at heq
    · contradiction
    · cases heq
      exact ⟨h.leave hwhich hstate (PrioQueue.queues_remove _ _ _ _), rfl, rfl⟩

@[simp] theorem threads_setCurrentCpu_self (state : State) (thread : Ptr) :
    (state.setCurrentCpu thread).threads thread =
      { state.threads thread with currentCpu := true } := by
  simp [State.setCurrentCpu]

theorem placed_setCurrentCpu (h : Placed state) (thread : Ptr) :
    Placed (state.setCurrentCpu thread) := by
  refine h.congr (fun _ => rfl) ?_
  intro other
  rcases eq_or_ne other thread with rfl | hother
  · simp [State.setCurrentCpu]
  · simp [State.setCurrentCpu, hother]

theorem setCurrentCpu_setSchedState (state : State) (thread : Ptr) (schedState : SchedState) :
    (state.setSchedState thread schedState).setCurrentCpu thread =
      (state.setCurrentCpu thread).setSchedState thread schedState := by
  simp [State.setCurrentCpu, State.setSchedState]

theorem scheduleOnStream_placed (h : Placed state) {thread : Ptr}
    (hinsertable : Insertable (state.threads thread)) :
    ∃ next, scheduleOnStream state thread = (.success, next) ∧ Placed next ∧
      next.threads = ((state.setCurrentCpu thread).setSchedState thread .runnable).threads ∧
      next.currentThread = state.currentThread := by
  rw [scheduleOnStream, setCurrentCpu_setSchedState]
  refine insertThread_placed (placed_setCurrentCpu h thread) ?_ _
  rw [threads_setCurrentCpu_self]
  exact hinsertable

theorem setQueue_setSchedState (state : State) (which : RunQueue) (queue : PrioQueue Ptr)
    (thread : Ptr) (schedState : SchedState) :
    (state.setQueue which queue).setSchedState thread schedState =
      (state.setSchedState thread schedState).setQueue which queue := rfl

theorem pop_placed (h : Placed state) {thread : Ptr}
    (hpop : ((state.runQueues which).pop schedprioMaxNprios).1 = some thread) :
    Insertable { state.threads thread with schedState := .blocked } ∧
      (state.threads thread).schedState = .runnable ∧
        ∀ schedState, schedState ≠ .runnable →
          Placed ((state.setQueue which
            ((state.runQueues which).pop schedprioMaxNprios).2).setSchedState thread schedState) := by
  rcases PrioQueue.pop_cases (state.runQueues which) schedprioMaxNprios with
    ⟨hnone, -⟩ | ⟨item, q, rest, hsome, hcons, hqueues⟩
  · rw [hnone] at hpop
    contradiction
  rw [hsome] at hpop
  obtain rfl := some.inj hpop
  have hcount := h.count which q item
  rw [hcons, count_cons_self] at hcount
  have hhome : Home (state.threads item) which q := by
    rcases em (Home (state.threads item) which q) with hhome | hhome
    · exact hhome
    · rw [if_neg hhome] at hcount
      contradiction
  obtain ⟨hrunnable, hwhich, rfl⟩ := hhome
  refine ⟨⟨by simp, h.queueable item hrunnable⟩, hrunnable, ?_⟩
  intro schedState hstate
  refine h.leave hwhich hstate ?_
  rw [hqueues, hcons, erase_cons_head]

/-- `pullFromQ` changes no thread's state, and the thread that it returns is in no queue. -/
structure Pulled (state next : State) (found : Option Ptr) : Prop where
  schedState : ∀ thread, (next.threads thread).schedState = (state.threads thread).schedState
  current : next.currentThread = state.currentThread
  placed : found = none → Placed next
  taken : ∀ thread, found = some thread → ∀ schedState, schedState ≠ .runnable →
    Placed (next.setSchedState thread schedState)

theorem pullFromQ_pulled (h : Placed state) {turns : Nat} {found : Option Ptr}
    (heq : pullFromQ state which turns = some (found, next)) : Pulled state next found := by
  induction turns generalizing state with
  | zero => cases heq
  | succ turns ih =>
    rw [pullFromQ] at heq
    cases hitem : ((state.runQueues which).pop schedprioMaxNprios).1 with
    | none =>
      have hpair : (state.runQueues which).pop schedprioMaxNprios =
          (none, ((state.runQueues which).pop schedprioMaxNprios).2) := by
        rw [← hitem]
      rw [hpair] at heq
      cases heq
      refine ⟨fun _ => rfl, rfl, fun _ => ?_, by simp⟩
      refine h.congr ?_ fun _ => ⟨Iff.rfl, rfl, rfl⟩
      intro other
      rcases eq_or_ne other which with rfl | hother
      · rw [runQueues_setQueue_self]
        rcases PrioQueue.pop_cases (state.runQueues other) schedprioMaxNprios with
          ⟨-, hqueues⟩ | ⟨item, q, rest, hsome, -, -⟩
        · exact hqueues
        · rw [hitem] at hsome
          contradiction
      · rw [runQueues_setQueue_of_ne _ _ hother]
    | some ret =>
      have hpair : (state.runQueues which).pop schedprioMaxNprios =
          (some ret, ((state.runQueues which).pop schedprioMaxNprios).2) := by
        rw [← hitem]
      obtain ⟨hinsertable, hrunnable, hplaced⟩ := pop_placed h hitem
      rw [hpair] at heq
      dsimp only at heq
      generalize ((state.runQueues which).pop schedprioMaxNprios).2 = queue at heq hplaced
      split at heq
      · -- The thread goes back, as if it had been blocked in between.
        have hsame : scheduleOnStream (state.setQueue which queue) ret =
            scheduleOnStream ((state.setQueue which queue).setSchedState ret .blocked) ret := by
          rw [scheduleOnStream, scheduleOnStream, setSchedState_setSchedState]
        obtain ⟨back, hback, hplaced', hthreads, hcurrent⟩ :=
          scheduleOnStream_placed (hplaced .blocked (by decide))
            (by rw [threads_setSchedState_self]; exact hinsertable)
        rw [hsame, hback] at heq
        have hrest := ih hplaced' heq
        refine ⟨?_, hrest.current.trans hcurrent, hrest.placed, hrest.taken⟩
        intro other
        rw [hrest.schedState other, hthreads]
        rcases eq_or_ne other ret with rfl | hother
        · simp [hrunnable]
        · simp [State.setSchedState, State.setCurrentCpu, State.setQueue, hother]
      · cases heq
        refine ⟨fun _ => rfl, rfl, by simp, ?_⟩
        intro thread hthread
        cases hthread
        exact hplaced

structure Inv (state : State) : Prop where
  placed : Placed state
  onlyCurrent : OnlyCurrent state

theorem onlyCurrent_of_setSchedState (h : OnlyCurrent state) {thread : Ptr}
    (hstate : schedState ≠ .running)
    (hthreads : next.threads = (state.setSchedState thread schedState).threads)
    (hcurrent : next.currentThread = state.currentThread) : OnlyCurrent next := by
  intro other hrunning
  rw [hthreads] at hrunning
  rw [hcurrent]
  rcases eq_or_ne other thread with rfl | hother
  · rw [threads_setSchedState_self] at hrunning
    exact absurd hrunning hstate
  · rw [threads_setSchedState_of_ne _ _ hother] at hrunning
    exact h other hrunning

variable (h : Inv state)

include h

theorem insertThread_inv {thread : Ptr}
    (hinsertable : Insertable (state.threads thread)) (unknownPolicy : Kerror) :
    ∃ next, (state.setSchedState thread .runnable).insertThread thread unknownPolicy =
        (.success, next) ∧ Inv next ∧
      next.threads = (state.setSchedState thread .runnable).threads ∧
      next.currentThread = state.currentThread := by
  obtain ⟨next, heq, hplaced, hthreads, hcurrent⟩ :=
    insertThread_placed h.placed hinsertable unknownPolicy
  exact ⟨next, heq, ⟨hplaced, onlyCurrent_of_setSchedState h.onlyCurrent (by decide) hthreads
    hcurrent⟩, hthreads, hcurrent⟩

theorem removeThread_inv {thread : Ptr} (hrunnable : schedState ≠ .runnable)
    (hrunning : schedState ≠ .running)
    (heq : (state.setSchedState thread schedState).removeThread thread = some next) : Inv next := by
  obtain ⟨hplaced, hthreads, hcurrent⟩ := removeThread_placed h.placed hrunnable heq
  exact ⟨hplaced, onlyCurrent_of_setSchedState h.onlyCurrent hrunning hthreads hcurrent⟩

theorem inv_setInPull (inPull : Bool) :
    Inv { state with inPull := inPull } :=
  ⟨h.placed.congr (fun _ => rfl) fun _ => ⟨Iff.rfl, rfl, rfl⟩, h.onlyCurrent⟩

theorem scheduleOnStream_inv {thread : Ptr} (hinsertable : Insertable (state.threads thread)) :
    ∃ next, scheduleOnStream state thread = (.success, next) ∧ Inv next ∧
      next.threads = ((state.setCurrentCpu thread).setSchedState thread .runnable).threads ∧
      next.currentThread = state.currentThread := by
  obtain ⟨next, heq, hplaced, hthreads, hcurrent⟩ := scheduleOnStream_placed h.placed hinsertable
  refine ⟨next, heq, ⟨hplaced, ?_⟩, hthreads, hcurrent⟩
  refine onlyCurrent_of_setSchedState ?_ (by decide) hthreads hcurrent
  intro other hrunning
  rcases eq_or_ne other thread with rfl | hother
  · rw [threads_setCurrentCpu_self] at hrunning
    exact h.onlyCurrent other hrunning
  · have hsame : (state.setCurrentCpu thread).threads other = state.threads other := by
      simp [State.setCurrentCpu, hother]
    rw [hsame] at hrunning
    exact h.onlyCurrent other hrunning

theorem switchTo_inv
    (hidle : (state.threads state.currentThread).schedState ≠ .running) {thread : Ptr}
    (hpulled : Pulled state next (some thread)) : Inv (switchTo next thread) := by
  refine ⟨(hpulled.taken thread rfl .running (by decide)).congr (fun _ => rfl)
    fun _ => ⟨Iff.rfl, rfl, rfl⟩, ?_⟩
  intro other hrunning
  rcases eq_or_ne other thread with rfl | hother
  · rfl
  have hsame : ((switchTo next thread).threads other) = next.threads other :=
    threads_setSchedState_of_ne next .running hother
  rw [hsame, hpulled.schedState] at hrunning
  obtain rfl := h.onlyCurrent other hrunning
  exact absurd hrunning hidle

theorem Pulled.inv (hpulled : Pulled state next none) : Inv next := by
  refine ⟨hpulled.placed rfl, ?_⟩
  intro other hrunning
  rw [hpulled.schedState] at hrunning
  rw [hpulled.current]
  exact h.onlyCurrent other hrunning

theorem pull_inv (hidle : (state.threads state.currentThread).schedState ≠ .running) {turns : Nat}
    (heq : pull state turns = some next) : Inv next := by
  obtain ⟨⟨found, middle⟩, hreal, heq⟩ := bind_eq_some_iff.mp heq
  have hpulled := pullFromQ_pulled h.placed hreal
  cases found with
  | some thread =>
    cases heq
    exact switchTo_inv h hidle hpulled
  | none =>
    have hmiddle := hpulled.inv h
    have hidle' : (middle.threads middle.currentThread).schedState ≠ .running := by
      rw [hpulled.schedState, hpulled.current]
      exact hidle
    obtain ⟨⟨found, last⟩, hround, heq⟩ := bind_eq_some_iff.mp heq
    have hpulled' := pullFromQ_pulled hmiddle.placed hround
    cases found with
    | some thread =>
      cases heq
      exact switchTo_inv hmiddle hidle' hpulled'
    | none =>
      cases heq
      exact inv_setInPull (hpulled'.inv hmiddle) true

theorem yield_inv (hinsertable : Insertable (state.threads state.currentThread)) :
    Inv (yield state) := by
  obtain ⟨next, heq, hinv, -, -⟩ := insertThread_inv h hinsertable .success
  unfold yield yieldOnStream
  rw [heq]
  exact inv_setInPull hinv true

theorem block_inv (heq : block state = some next) : Inv next := by
  obtain ⟨middle, hblock, rfl⟩ := map_eq_some_iff.mp heq
  exact inv_setInPull (removeThread_inv h (by decide) (by decide) hblock) true

theorem dormant_inv {thread : Ptr} (heq : dormant state thread = some (ret, next)) : Inv next := by
  unfold dormant at heq
  split at heq
  · cases heq
    exact h
  split at heq
  · cases heq
    exact h
  · cases heq
    exact h
  split at heq
  · contradiction
  obtain ⟨middle, hdormant, heq⟩ := bind_eq_some_iff.mp heq
  have hmiddle := removeThread_inv h (by decide) (by decide) hdormant
  split at heq
  · cases heq
    exact inv_setInPull hmiddle true
  · cases heq
    exact hmiddle

omit h

theorem finishWake_inv {middle : State} {thread : Ptr} {err : Kerror} (hmiddle : Inv middle)
    (hcurrent : middle.currentThread = state.currentThread)
    (hsame : ∀ other, other ≠ thread → middle.threads other = state.threads other)
    (hself : (middle.threads thread).prio = (state.threads thread).prio ∧
      (middle.threads thread).schedPolicy = (state.threads thread).schedPolicy)
    (hpreempt : shouldPreemptCurrentThread state thread = true →
      Insertable (state.threads state.currentThread))
    (heq : finishWake thread (err, middle) = some (ret, next)) : Inv next := by
  unfold finishWake at heq
  dsimp only at heq
  split at heq
  · contradiction
  split at heq
  · rename_i hshould
    cases heq
    rcases eq_or_ne state.currentThread thread with hthread | hthread
    · -- A thread has no higher priority than itself.
      simp [shouldPreemptCurrentThread, hcurrent, hthread] at hshould
    have hother := hsame state.currentThread hthread
    refine yield_inv hmiddle ?_
    rw [hcurrent, hother]
    apply hpreempt
    simpa only [shouldPreemptCurrentThread, hcurrent, hother, hself.1, hself.2] using hshould
  · cases heq
    exact hmiddle

theorem queueable_of_insertThread {thread : Ptr} {unknownPolicy : Kerror}
    (hpolicy : unknownPolicy ≠ .success)
    (h : (state.insertThread thread unknownPolicy).1 = .success) :
    Queueable (state.threads thread) := by
  unfold State.insertThread at h
  split at h
  · exact absurd h hpolicy
  rename_i which hwhich
  refine ⟨?_, ?_⟩
  · intro hinvalid
    rw [Thread.runQueue, hinvalid] at hwhich
    contradiction
  · rcases lt_or_ge (state.threads thread).prio schedprioMaxNprios with hlt | hge
    · exact hlt
    · rw [PrioQueue.insert, if_pos hge] at h
      contradiction

theorem finishWake_success {thread : Ptr} {answer : Kerror × State} {result : Kerror × State}
    (h : finishWake thread answer = some result) : answer.1 = .success := by
  unfold finishWake at h
  split at h
  rename_i err state
  split at h
  · contradiction
  · rename_i hsuccess
    exact not_not.mp hsuccess

variable (h : Inv state)

include h

theorem finishWake_insertThread_inv {thread : Ptr} {unknownPolicy : Kerror}
    (hpolicy : unknownPolicy ≠ .success) (hstate : (state.threads thread).schedState ≠ .runnable)
    (hpreempt : shouldPreemptCurrentThread state thread = true →
      Insertable (state.threads state.currentThread)) (heq : finishWake thread
      ((state.setSchedState thread .runnable).insertThread thread unknownPolicy) =
        some (ret, next)) : Inv next := by
  have hqueueable := queueable_of_insertThread hpolicy (finishWake_success heq)
  rw [threads_setSchedState_self] at hqueueable
  obtain ⟨middle, hinsert, hinv, hthreads, hcurrent⟩ :=
    insertThread_inv h ⟨hstate, hqueueable⟩ unknownPolicy
  rw [hinsert] at heq
  refine finishWake_inv hinv hcurrent ?_ ?_ hpreempt heq
  · intro other hother
    rw [hthreads, threads_setSchedState_of_ne _ _ hother]
  · rw [hthreads, threads_setSchedState_self]
    exact ⟨rfl, rfl⟩

theorem unblock_inv {thread : Ptr} (hproper : Proper state (.unblock thread))
    (heq : unblock state thread = some (ret, next)) : Inv next := by
  unfold unblock at heq
  split at heq
  · cases heq
    exact h
  split at heq
  · cases heq
    exact h
  · cases heq
    exact h
  · rename_i hblocked
    split at heq
    · exact finishWake_insertThread_inv h (by decide) (by simp [hblocked])
        (hproper hblocked) heq
    · contradiction
  · cases heq
    exact h

theorem finishWake_wakeOnStream_inv {thread : Ptr}
    (hrunnable : (state.threads thread).schedState ≠ .runnable)
    (hrunning : (state.threads thread).schedState ≠ .running)
    (hpreempt : shouldPreemptCurrentThread state thread = true →
      Insertable (state.threads state.currentThread))
    (heq : finishWake thread (wakeOnStream state thread) = some (ret, next)) : Inv next := by
  unfold wakeOnStream at heq
  split at heq
  · contradiction
  · contradiction
  · cases heq
  · cases heq
  · cases heq
  · exact finishWake_insertThread_inv h (by decide) hrunnable hpreempt heq
  · exact finishWake_insertThread_inv h (by decide) hrunnable hpreempt heq
  · exact finishWake_insertThread_inv h (by decide) hrunnable hpreempt heq

theorem finishWake_schedule_inv {thread : Ptr}
    (hstate : (state.threads thread).schedState = .unscheduled)
    (hproper : Proper state (.wake thread))
    (heq : finishWake thread (wakeOnStream (schedule state thread).2 thread) = some (ret, next)) :
    Inv next := by
  have hpreempt := hproper.2 ⟨by simp [hstate], by simp [hstate]⟩
  unfold schedule at heq
  split at heq
  · rename_i haffinity
    obtain ⟨middle, hschedule, hinv, hthreads, hcurrent⟩ :=
      scheduleOnStream_inv h ⟨by simp [hstate], hproper.1 hstate haffinity⟩
    have hself : middle.threads thread =
        { state.threads thread with schedState := .runnable, currentCpu := true } := by
      rw [hthreads, threads_setSchedState_self, threads_setCurrentCpu_self]
    have hwake : wakeOnStream middle thread = (.success, middle) := by rw [wakeOnStream, hself]
    rw [hschedule, hwake] at heq
    refine finishWake_inv hinv hcurrent ?_ ⟨by rw [hself], by rw [hself]⟩ hpreempt heq
    intro other hother
    rw [hthreads]
    simp [State.setSchedState, State.setCurrentCpu, hother]
  · exact finishWake_wakeOnStream_inv h (by simp [hstate]) (by simp [hstate]) hpreempt heq

theorem wake_inv {thread : Ptr} (hproper : Proper state (.wake thread))
    (heq : wake state thread = some (ret, next)) : Inv next := by
  unfold wake at heq
  split at heq
  · cases heq
    exact h
  split at heq
  · cases heq
    exact h
  · cases heq
    exact h
  rename_i hrunnable hrunning
  rcases eq_or_ne (state.threads thread).schedState .unscheduled with hstate | hstate
  · rw [if_pos hstate] at heq
    dsimp only at heq
    split at heq
    · exact finishWake_schedule_inv h hstate hproper heq
    · contradiction
  · rw [if_neg hstate] at heq
    dsimp only at heq
    split at heq
    · exact finishWake_wakeOnStream_inv h hrunnable hrunning
        (hproper.2 ⟨hrunnable, hrunning⟩) heq
    · contradiction

theorem step_inv {call : Call} (hproper : Proper state call)
    (heq : step state call = some (ret, next)) : Inv next := by
  cases call with
  | schedule thread =>
    simp only [step] at heq
    split at heq
    · contradiction
    unfold schedule at heq
    split at heq
    · rename_i haffinity
      obtain ⟨middle, hschedule, hinv, -, -⟩ := scheduleOnStream_inv h (hproper haffinity)
      rw [hschedule] at heq
      cases heq
      exact hinv
    · cases heq
      exact h
  | scheduleOnStream thread =>
    simp only [step] at heq
    split at heq
    · contradiction
    · obtain ⟨middle, hschedule, hinv, -, -⟩ := scheduleOnStream_inv h hproper
      rw [hschedule] at heq
      cases heq
      exact hinv
  | pull turns =>
    obtain ⟨middle, hpull, heq⟩ := map_eq_some_iff.mp heq
    obtain ⟨-, rfl⟩ := Prod.mk.inj heq
    exact pull_inv h hproper hpull
  | yield =>
    simp only [step] at heq
    split at heq
    · contradiction
    · cases heq
      exact yield_inv h hproper
  | block =>
    simp only [step] at heq
    split at heq
    · contradiction
    · obtain ⟨middle, hblock, heq⟩ := map_eq_some_iff.mp heq
      obtain ⟨-, rfl⟩ := Prod.mk.inj heq
      exact block_inv h hblock
  | unblock thread => exact unblock_inv h hproper heq
  | dormant thread => exact dormant_inv h heq
  | wake thread => exact wake_inv h hproper heq

omit h

theorem sum_indicator (prio n : Nat) :
    ((List.range n).map fun q => if prio = q then 1 else 0).sum = if prio < n then 1 else 0 := by
  induction n with
  | zero => simp
  | succ n ih =>
    rw [range_succ, map_append, sum_append, ih]
    rcases lt_trichotomy prio n with hlt | rfl | hgt
    · simp [hlt, ne_of_lt hlt, Nat.lt_succ_of_lt hlt]
    · simp
    · have hge : ¬ prio < n + 1 := by omega
      simp [lt_asymm hgt, ne_of_gt hgt, hge]

theorem entries_eq (h : Placed state) (which : RunQueue) (thread : Ptr) :
    entries (state.runQueues which) thread =
      if (state.threads thread).schedState = .runnable ∧
        (state.threads thread).runQueue = some which then 1 else 0 := by
  unfold entries
  rcases em ((state.threads thread).schedState = .runnable ∧
      (state.threads thread).runQueue = some which) with hhome | hhome
  · have hcount : ∀ q, ((state.runQueues which).queues q).count thread =
        if (state.threads thread).prio = q then 1 else 0 := by
      intro q
      rw [h.count]
      refine if_congr ⟨fun hq => hq.2.2, fun hq => ⟨hhome.1, hhome.2, hq⟩⟩ rfl rfl
    rw [if_pos hhome]
    simp only [hcount]
    rw [sum_indicator, if_pos (h.queueable thread hhome.1).2]
  · have hcount : ∀ q, ((state.runQueues which).queues q).count thread = 0 := by
      intro q
      rw [h.count, if_neg]
      rintro ⟨hrunnable, hwhich, -⟩
      exact hhome ⟨hrunnable, hwhich⟩
    rw [if_neg hhome]
    simp [hcount]

theorem Inv.consistent (h : Inv state) : Consistent state := by
  constructor
  · intro thread hrunnable
    obtain ⟨which, hwhich⟩ := exists_runQueue (h.placed.queueable thread hrunnable)
    refine ⟨which, ?_, ?_⟩
    · rw [entries_eq h.placed, if_pos ⟨hrunnable, hwhich⟩]
    · intro other hother
      rw [entries_eq h.placed, if_neg]
      rintro ⟨-, hhome⟩
      exact hother (some.inj (hhome.symm.trans hwhich))
  · rintro thread (hstate | hstate) which
    · rw [entries_eq h.placed, if_neg (by simp [hstate])]
    · rw [entries_eq h.placed, if_neg (by simp [hstate])]
  · intro thread hrunning
    refine ⟨h.onlyCurrent thread hrunning, ?_⟩
    intro which
    rw [entries_eq h.placed, if_neg (by simp [hrunning])]

theorem inv_initialState (threads : Ptr → Thread) (powerThread : Ptr) :
    Inv (initialState threads powerThread) := by
  refine ⟨⟨?_, ?_⟩, ?_⟩
  · intro which q thread
    rfl
  · intro thread hrunnable
    simp [initialState] at hrunnable
  · intro thread hrunning
    simp [initialState] at hrunning

def Reached (guard : State → Call → Prop) (threads : Ptr → Thread) (powerThread : Ptr)
    (state : State) : Prop :=
  Reachable (fun start => start = initialState threads powerThread) (GuardedStep step guard) state

/-- In every run of proper calls the run queues show the threads' states. -/
theorem proper_consistent (threads : Ptr → Thread) (powerThread : Ptr) (state : State)
    (h : Reached Proper threads powerThread state) : Consistent state := by
  apply Inv.consistent
  refine Reachable.invariant ?_ ?_ h
  · rintro _ rfl
    exact inv_initialState threads powerThread
  · rintro state next hinv ⟨call, ret, hproper, heq⟩
    exact step_inv hinv hproper heq

def twoThreads : Ptr → Thread := fun thread =>
  ⟨.unscheduled, .roundRobin, if thread = 1 then 2 else 3, false, false, true, thread = 2⟩

theorem proper_consistent_twoThreads :
    ∃ state, Reached Proper twoThreads 2 state ∧ (state.threads 1).schedState = .running ∧
      Consistent state := by
  have hrun : ((run step (initialState twoThreads 2)
      [.schedule 1, .block, .pull 1, .block, .pull 1, .unblock 1, .pull 1]).any
        fun r => decide ((r.2.threads 1).schedState = .running)) = true := by decide +kernel
  obtain ⟨⟨answers, state⟩, hstate, hrunning⟩ := (any_eq_true _ _).mp hrun
  have hreached : Reached Proper twoThreads 2 state :=
    reachable_of_run (reachable_of_init rfl) (by decide +kernel) hstate
  exact ⟨state, hreached, of_decide_eq_true hrunning, proper_consistent _ _ state hreached⟩

/-- While thread 1 waits in `pull`, interrupts unblock it and then the power thread. -/
theorem unblock_in_pull_inconsistent :
    ∃ state, Reached (fun _ _ => True) twoThreads 2 state ∧ ¬ Consistent state := by
  have hrun : ((run step (initialState twoThreads 2)
      [.schedule 1, .block, .pull 1, .block, .pull 1, .unblock 1, .unblock 2]).any
        fun r => decide ((r.2.threads 1).schedState = .runnable ∧
          entries (r.2.runQueues .roundRobinQ) 1 = 2)) = true := by decide +kernel
  obtain ⟨⟨answers, state⟩, hstate, htwice⟩ := (any_eq_true _ _).mp hrun
  obtain ⟨hrunnable, hentries⟩ := of_decide_eq_true htwice
  refine ⟨state, reachable_of_run (reachable_of_init rfl) (by decide +kernel) hstate, ?_⟩
  intro hconsistent
  obtain ⟨which, hone, hzero⟩ := hconsistent.runnable 1 hrunnable
  rcases eq_or_ne RunQueue.roundRobinQ which with rfl | hne
  · exact absurd (hentries.symm.trans hone) (by decide)
  · exact absurd (hentries.symm.trans (hzero .roundRobinQ hne)) (by decide)

end Zambesii.TaskStream
