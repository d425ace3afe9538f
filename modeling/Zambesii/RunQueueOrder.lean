import Zambesii.TaskStream

/-!
The order in which `pull` takes threads from a run queue, and the order that
`shouldPreemptCurrentThreadOn` goes by.
-/

namespace Zambesii.RunQueueOrder

open Function List Option
open KernelTypes
open LinkedCells (Ptr)
open PrioQueue (HeadCorrect emptyQueue headCorrect_insert headCorrect_remove
  pop_of_headCorrect queues_insert queues_remove)
open Runs TaskStream

section

variable {state next : State} {thread : Ptr} {which : RunQueue}

def Alike (state next : State) : Prop :=
  ∀ thread, (next.threads thread).prio = (state.threads thread).prio ∧
    (next.threads thread).schedPolicy = (state.threads thread).schedPolicy

theorem Alike.refl (state : State) : Alike state state := fun _ => ⟨rfl, rfl⟩

theorem Alike.trans {middle : State} (h : Alike state middle) (h' : Alike middle next) :
    Alike state next :=
  fun thread => ⟨(h' thread).1.trans (h thread).1, (h' thread).2.trans (h thread).2⟩

theorem Alike.runQueue_eq (h : Alike state next) (thread : Ptr) :
    (next.threads thread).runQueue = (state.threads thread).runQueue := by
  rw [Thread.runQueue, Thread.runQueue, (h thread).2]

/-- Every queued thread is in the queue of its policy and priority, and `headQueue` is right. -/
structure Filed (state : State) : Prop where
  head : ∀ which, HeadCorrect schedprioMaxNprios (state.runQueues which)
  home : ∀ which q, ∀ thread ∈ (state.runQueues which).queues q,
    (state.threads thread).prio = q ∧ (state.threads thread).runQueue = some which ∧
      q < schedprioMaxNprios

theorem schedprioMaxNprios_le : schedprioMaxNprios ≤ 2 ^ 15 := by decide

theorem Filed.congr (h : Filed state) (hqueues : next.runQueues = state.runQueues)
    (halike : Alike state next) : Filed next where
  head := by
    rw [hqueues]
    exact h.head
  home := by
    intro which q thread hmem
    rw [hqueues] at hmem
    rw [(halike thread).1, halike.runQueue_eq]
    exact h.home which q thread hmem

theorem alike_setSchedState (state : State) (thread : Ptr) (schedState : TaskTrib.SchedState) :
    Alike state (state.setSchedState thread schedState) := by
  intro other
  rcases eq_or_ne other thread with rfl | hne
  · simp [State.setSchedState]
  · simp [State.setSchedState, update_of_ne hne]

theorem alike_setCurrentCpu (state : State) (thread : Ptr) :
    Alike state (state.setCurrentCpu thread) := by
  intro other
  rcases eq_or_ne other thread with rfl | hne
  · simp [State.setCurrentCpu]
  · simp [State.setCurrentCpu, update_of_ne hne]

theorem Filed.setQueue (h : Filed state) {queue : PrioQueue Ptr}
    (hhead : HeadCorrect schedprioMaxNprios queue)
    (hhome : ∀ q, ∀ thread ∈ queue.queues q, (state.threads thread).prio = q ∧
      (state.threads thread).runQueue = some which ∧ q < schedprioMaxNprios) :
    Filed (state.setQueue which queue) where
  head := by
    intro other
    rcases eq_or_ne other which with rfl | hne
    · simpa [State.setQueue] using hhead
    · simpa [State.setQueue, update_of_ne hne] using h.head other
  home := by
    intro other q thread hmem
    rcases eq_or_ne other which with rfl | hne
    · rw [runQueues_setQueue_self] at hmem
      exact hhome q thread hmem
    · rw [runQueues_setQueue_of_ne _ _ hne] at hmem
      exact h.home other q thread hmem

theorem Filed.insertThread (h : Filed state) (thread : Ptr) (unknownPolicy : Kerror) :
    Filed (state.insertThread thread unknownPolicy).2 := by
  rw [State.insertThread]
  cases hwhich : (state.threads thread).runQueue with
  | none => exact h
  | some which =>
    dsimp only
    rcases lt_or_ge (state.threads thread).prio schedprioMaxNprios with hprio | hprio
    · refine h.setQueue (headCorrect_insert (h.head which) schedprioMaxNprios_le hprio _ _) ?_
      intro q other hmem
      rw [queues_insert _ hprio] at hmem
      rcases eq_or_ne q (state.threads thread).prio with rfl | hne
      · rw [update_self] at hmem
        have hcases : other = thread ∨
            other ∈ (state.runQueues which).queues (state.threads thread).prio := by
          split at hmem
          · exact mem_cons.mp hmem
          · rcases mem_append.mp hmem with hold | hnew
            · exact .inr hold
            · exact .inl (mem_singleton.mp hnew)
        rcases hcases with rfl | hold
        · exact ⟨rfl, hwhich, hprio⟩
        · exact h.home which _ other hold
      · rw [update_of_ne hne] at hmem
        exact h.home which q other hmem
    · rw [PrioQueue.insert, if_pos hprio]
      exact h.setQueue (h.head which) (h.home which)

theorem alike_insertThread (state : State) (thread : Ptr) (unknownPolicy : Kerror) :
    Alike state (state.insertThread thread unknownPolicy).2 := by
  rw [State.insertThread]
  cases (state.threads thread).runQueue with
  | none => exact Alike.refl state
  | some which => exact Alike.refl state

theorem Filed.removeThread (h : Filed state) (hremove : state.removeThread thread = some next) :
    Filed next := by
  rw [State.removeThread] at hremove
  cases hwhich : (state.threads thread).runQueue with
  | none =>
    rw [hwhich] at hremove
    cases hremove
    exact h
  | some which =>
    rw [hwhich] at hremove
    dsimp only at hremove
    split at hremove
    · cases hremove
    cases hremove
    refine h.setQueue (headCorrect_remove (h.head which) schedprioMaxNprios_le _ _) ?_
    intro q other hmem
    refine h.home which q other ?_
    rw [queues_remove] at hmem
    rcases eq_or_ne q (state.threads thread).prio with rfl | hne
    · rw [update_self] at hmem
      exact mem_of_mem_erase hmem
    · rwa [update_of_ne hne] at hmem

theorem Filed.setSchedState (h : Filed state) (thread : Ptr) (schedState : TaskTrib.SchedState) :
    Filed (state.setSchedState thread schedState) :=
  h.congr rfl (alike_setSchedState state thread schedState)

theorem Filed.scheduleOnStream (h : Filed state) (thread : Ptr) :
    Filed (scheduleOnStream state thread).2 := by
  have hset : Filed ((state.setSchedState thread .runnable).setCurrentCpu thread) :=
    (h.setSchedState thread .runnable).congr rfl (alike_setCurrentCpu _ thread)
  exact hset.insertThread thread .invalidArgVal

theorem alike_scheduleOnStream (state : State) (thread : Ptr) :
    Alike state (scheduleOnStream state thread).2 :=
  ((alike_setSchedState state thread .runnable).trans (alike_setCurrentCpu _ thread)).trans
    (alike_insertThread _ thread .invalidArgVal)

theorem filed_initialState (threads : Ptr → Thread) (powerThread : Ptr) :
    Filed (initialState threads powerThread) where
  head := fun _ => .inl ⟨rfl, fun _ _ => rfl⟩
  home := by simp [initialState, emptyQueue]

end

section

variable {state next : State} {which : RunQueue} {turns : Nat}

/-- `thread` is of the first queue of `which` that has items, and nothing else of this run queue
has changed than that queue. -/
structure Taken (state next : State) (which : RunQueue) (thread : Ptr) : Prop where
  filed : Filed next
  alike : Alike state next
  others : ∀ other, other ≠ which → next.runQueues other = state.runQueues other
  home : (state.threads thread).runQueue = some which
  bound : (state.threads thread).prio < schedprioMaxNprios
  queued : (state.runQueues which).queues (state.threads thread).prio ≠ []
  below : ∀ r, r < (state.threads thread).prio → (state.runQueues which).queues r = []
  above : ∀ r, r ≠ (state.threads thread).prio →
    (next.runQueues which).queues r = (state.runQueues which).queues r

variable {thread : Ptr}

theorem Filed.pop (h : Filed state) {queue : PrioQueue Ptr}
    (hpop : (state.runQueues which).pop schedprioMaxNprios = (some thread, queue)) :
    Taken state (state.setQueue which queue) which thread := by
  have hcases := pop_of_headCorrect (h.head which) schedprioMaxNprios_le
  rw [hpop] at hcases
  obtain ⟨hnone, -⟩ | ⟨item, q, rest, hitem, hq, hcons, hbelow, hqueues, hhead⟩ := hcases
  · cases hnone
  cases hitem
  obtain ⟨rfl, hwhich, -⟩ := h.home which q thread (by rw [hcons]; exact mem_cons_self)
  refine ⟨h.setQueue hhead ?_, Alike.refl state, ?_, hwhich, hq, ?_, hbelow, ?_⟩
  · intro q other hmem
    refine h.home which q other ?_
    rw [hqueues] at hmem
    rcases eq_or_ne q (state.threads thread).prio with rfl | hne
    · rw [update_self] at hmem
      rw [hcons]
      exact mem_cons_of_mem _ hmem
    · rwa [update_of_ne hne] at hmem
  · intro other hother
    exact runQueues_setQueue_of_ne state queue hother
  · rw [hcons]
    exact cons_ne_nil _ _
  · intro r hr
    rw [runQueues_setQueue_self, hqueues, update_of_ne hr]

theorem Taken.requeue (h : Taken state next which thread) :
    Taken state (scheduleOnStream next thread).2 which thread ∧
      ((scheduleOnStream next thread).2.runQueues which).queues (state.threads thread).prio ≠ [] := by
  have hhome : (next.threads thread).runQueue = some which := by
    rw [h.alike.runQueue_eq]
    exact h.home
  have hprio : (next.threads thread).prio = (state.threads thread).prio := (h.alike thread).1
  have hinsert : (scheduleOnStream next thread).2.runQueues =
      update next.runQueues which
        ((next.runQueues which).insert schedprioMaxNprios thread (state.threads thread).prio
          (next.threads thread).sticky).2 := by
    have hthread : ((next.setSchedState thread .runnable).setCurrentCpu thread).threads thread =
        { next.threads thread with schedState := .runnable, currentCpu := true } := by
      simp [State.setSchedState, State.setCurrentCpu]
    have hwhich : (((next.setSchedState thread .runnable).setCurrentCpu thread).threads
        thread).runQueue = some which := by
      rw [hthread]
      exact hhome
    rw [scheduleOnStream, State.insertThread, hwhich]
    rw [hthread, ← hprio]
    rfl
  have hqueue := queues_insert (next.runQueues which) h.bound thread
    (next.threads thread).sticky
  refine ⟨⟨h.filed.scheduleOnStream thread, h.alike.trans (alike_scheduleOnStream next thread), ?_,
    h.home, h.bound, h.queued, h.below, ?_⟩, ?_⟩
  · intro other hother
    rw [hinsert, update_of_ne hother]
    exact h.others other hother
  · intro r hr
    rw [hinsert, update_self, hqueue, update_of_ne hr]
    exact h.above r hr
  · rw [hinsert, update_self, hqueue, update_self]
    split <;> simp

variable (h : Filed state)

include h

theorem pullFromQ_none (hpull : pullFromQ state which turns = some (none, next)) :
    (∀ q, q < schedprioMaxNprios → (state.runQueues which).queues q = []) ∧ next = state := by
  induction turns generalizing state with
  | zero => cases hpull
  | succ turns ih =>
    rw [pullFromQ] at hpull
    cases hpop : (state.runQueues which).pop schedprioMaxNprios with
    | mk found queue =>
      rw [hpop] at hpull
      cases found with
      | none =>
        cases hpull
        have hcases := pop_of_headCorrect (h.head which) schedprioMaxNprios_le
        rw [hpop] at hcases
        obtain ⟨-, rfl, hall⟩ | ⟨item, -, -, hitem, -⟩ := hcases
        · exact ⟨hall, by rw [State.setQueue, update_eq_self]⟩
        · cases hitem
      | some ret =>
        dsimp only at hpull
        split at hpull
        · obtain ⟨htaken, hqueued⟩ := (h.pop hpop).requeue
          exact absurd ((ih htaken.filed hpull).1 _ htaken.bound) hqueued
        · cases (Prod.mk.inj (some.inj hpull)).1

theorem pullFromQ_some (hpull : pullFromQ state which turns = some (some thread, next)) :
    Taken state next which thread := by
  induction turns generalizing state with
  | zero => cases hpull
  | succ turns ih =>
    rw [pullFromQ] at hpull
    cases hpop : (state.runQueues which).pop schedprioMaxNprios with
    | mk found queue =>
      rw [hpop] at hpull
      cases found with
      | none => cases (Prod.mk.inj (some.inj hpull)).1
      | some ret =>
        dsimp only at hpull
        split at hpull
        · obtain ⟨hback, hqueued⟩ := (h.pop hpop).requeue
          have hrest := ih hback.filed hpull
          generalize (scheduleOnStream (state.setQueue which queue) ret).2 = back at *
          have hprio := (hback.alike thread).1
          -- both threads are of the first queue that has items
          have hsame : (state.threads thread).prio = (state.threads ret).prio := by
            rcases lt_trichotomy (state.threads thread).prio (state.threads ret).prio
              with hlt | heq | hgt
            · refine absurd ?_ hrest.queued
              rw [hprio, hback.above _ (ne_of_lt hlt)]
              exact hback.below _ hlt
            · exact heq
            · exact absurd (hrest.below _ (by omega)) hqueued
          refine ⟨hrest.filed, hback.alike.trans hrest.alike, ?_, ?_, ?_, ?_, ?_, ?_⟩
          · intro other hother
            exact (hrest.others other hother).trans (hback.others other hother)
          · exact (hback.alike.runQueue_eq thread).symm.trans hrest.home
          · rw [hsame]
            exact hback.bound
          · rw [hsame]
            exact hback.queued
          · rw [hsame]
            exact hback.below
          · intro r hr
            rw [hrest.above r (by omega), hback.above r (by omega)]
        · obtain ⟨hthread, rfl⟩ := Prod.mk.inj (some.inj hpull)
          cases hthread
          exact h.pop hpop

theorem pull_cases (hpull : pull state turns = some next) :
    (∃ which middle thread, Taken state middle which thread ∧ next = switchTo middle thread ∧
        (which = .roundRobinQ →
          ∀ q, q < schedprioMaxNprios → (state.runQueues .realTimeQ).queues q = [])) ∨
      next = { state with inPull := true } := by
  rw [pull, bind_eq_bind, bind_eq_some_iff] at hpull
  obtain ⟨⟨first, middle⟩, hfirst, hpull⟩ := hpull
  cases first with
  | some thread =>
    cases hpull
    exact .inl ⟨.realTimeQ, middle, thread, pullFromQ_some h hfirst, rfl, by simp⟩
  | none =>
    obtain ⟨hempty, rfl⟩ := pullFromQ_none h hfirst
    rw [bind_eq_some_iff] at hpull
    obtain ⟨⟨second, last⟩, hsecond, hpull⟩ := hpull
    cases second with
    | some thread =>
      cases hpull
      exact .inl ⟨.roundRobinQ, last, thread, pullFromQ_some h hsecond, rfl, fun _ => hempty⟩
    | none =>
      cases hpull
      obtain ⟨-, rfl⟩ := pullFromQ_none h hsecond
      exact .inr rfl

theorem Filed.pull (hpull : pull state turns = some next) : Filed next := by
  rcases pull_cases h hpull with ⟨which, middle, thread, htaken, rfl, -⟩ | rfl
  · exact htaken.filed.congr rfl (alike_setSchedState middle thread .running)
  · exact h.congr rfl (Alike.refl state)

omit h

end

section

variable {state next : State} {thread : Ptr}

theorem Filed.schedule (h : Filed state) (thread : Ptr) : Filed (schedule state thread).2 := by
  rw [TaskStream.schedule]
  split
  · exact h.scheduleOnStream thread
  · exact h

theorem Filed.yield (h : Filed state) : Filed (yield state) := by
  have hinserted : Filed (yieldOnStream state state.currentThread) :=
    (h.setSchedState _ .runnable).insertThread _ .success
  exact hinserted.congr rfl (Alike.refl _)

variable {ret : Kerror}

theorem Filed.finishWake {answer : Kerror × State} (h : Filed answer.2)
    (heq : finishWake thread answer = some (ret, next)) : Filed next := by
  obtain ⟨err, state⟩ := answer
  rw [TaskStream.finishWake] at heq
  split at heq
  · cases heq
  split at heq
  · cases heq
    exact h.yield
  · cases heq
    exact h

variable (h : Filed state)

include h

theorem Filed.block (heq : block state = some next) : Filed next := by
  obtain ⟨middle, hmiddle, rfl⟩ := map_eq_some_iff.mp heq
  exact ((h.setSchedState _ .blocked).removeThread hmiddle).congr rfl (Alike.refl middle)

theorem Filed.unblock (heq : unblock state thread = some (ret, next)) : Filed next := by
  have hinserted : Filed (unblockOnStream state thread).2 :=
    (h.setSchedState thread .runnable).insertThread thread .unsupported
  rw [TaskStream.unblock] at heq
  split at heq
  · cases heq
    exact h
  cases hstate : (state.threads thread).schedState <;> rw [hstate] at heq <;> dsimp only at heq
  case blocked =>
    split at heq
    · exact hinserted.finishWake heq
    · cases heq
  all_goals
    cases heq
    exact h

theorem Filed.dormant (heq : dormant state thread = some (ret, next)) : Filed next := by
  rw [TaskStream.dormant] at heq
  split at heq
  · cases heq
    exact h
  split at heq
  · cases heq
    exact h
  · cases heq
    exact h
  split at heq
  · contradiction
  obtain ⟨middle, hmiddle, heq⟩ := bind_eq_some_iff.mp heq
  have hremoved : Filed middle := (h.setSchedState _ .dormant).removeThread hmiddle
  split at heq
  · cases heq
    exact hremoved.congr rfl (Alike.refl middle)
  · cases heq
    exact hremoved

theorem Filed.wakeOnStream (thread : Ptr) : Filed (wakeOnStream state thread).2 := by
  rw [TaskStream.wakeOnStream]
  split <;>
    first
    | exact h
    | exact (h.setSchedState thread .runnable).insertThread thread .critical

theorem Filed.wake (heq : wake state thread = some (ret, next)) : Filed next := by
  rw [TaskStream.wake] at heq
  split at heq
  · cases heq
    exact h
  split at heq
  · cases heq
    exact h
  · cases heq
    exact h
  rcases eq_or_ne (state.threads thread).schedState .unscheduled with hstate | hstate
  · rw [if_pos hstate] at heq
    dsimp only at heq
    split at heq
    · exact ((h.schedule thread).wakeOnStream thread).finishWake heq
    · contradiction
  · rw [if_neg hstate] at heq
    dsimp only at heq
    split at heq
    · exact (h.wakeOnStream thread).finishWake heq
    · contradiction

theorem Filed.step {call : Call} (heq : step state call = some (ret, next)) : Filed next := by
  cases call with
  | schedule thread =>
    rw [TaskStream.step] at heq
    split at heq
    · cases heq
    · have hnext := congrArg Prod.snd (some.inj heq)
      dsimp only at hnext
      rw [← hnext]
      exact h.schedule thread
  | scheduleOnStream thread =>
    rw [TaskStream.step] at heq
    split at heq
    · cases heq
    · have hnext := congrArg Prod.snd (some.inj heq)
      dsimp only at hnext
      rw [← hnext]
      exact h.scheduleOnStream thread
  | pull turns =>
    obtain ⟨last, hlast, heq⟩ := map_eq_some_iff.mp heq
    obtain ⟨-, rfl⟩ := Prod.mk.inj heq
    exact h.pull hlast
  | yield =>
    rw [TaskStream.step] at heq
    split at heq
    · cases heq
    · cases heq
      exact h.yield
  | block =>
    rw [TaskStream.step] at heq
    split at heq
    · cases heq
    · obtain ⟨last, hlast, heq⟩ := map_eq_some_iff.mp heq
      obtain ⟨-, rfl⟩ := Prod.mk.inj heq
      exact h.block hlast
  | unblock thread => exact h.unblock heq
  | dormant thread => exact h.dormant heq
  | wake thread => exact h.wake heq

omit h

end

section

inductive PriorityClass
  | idle
  | low
  | moderate
  | high
  | critical
deriving DecidableEq

def PriorityClass.prio : PriorityClass → Nat
  | .idle => 0
  | .low => 4
  | .moderate => 8
  | .high => 12
  | .critical => 16

def WaitsBehind (state : State) (thread : Ptr) : Prop :=
  ∃ which q, (state.threads state.currentThread).runQueue = some which ∧
    thread ∈ (state.runQueues which).queues q

/-- No thread of the same policy that waits would preempt the current one, and none of the class
Critical waits while one of the class Idle runs. -/
def MostUrgent (state : State) : Prop :=
  ∀ thread, WaitsBehind state thread →
    shouldPreemptCurrentThread state thread = false ∧
      ¬ ((state.threads thread).prio = PriorityClass.critical.prio ∧
        (state.threads state.currentThread).prio = PriorityClass.idle.prio)

/-- The run queue that `pull` takes a thread from. -/
def Serves (state : State) (which : RunQueue) : Prop :=
  which = .realTimeQ ∨ ∀ q, q < schedprioMaxNprios → (state.runQueues .realTimeQ).queues q = []

def Level (queue : PrioQueue Ptr) : Prop :=
  ∀ q r, queue.queues q ≠ [] → queue.queues r ≠ [] → q = r

def Step : State → State → Prop :=
  GuardedStep step fun _ _ => True

variable {threads : Ptr → Thread} {powerThread : Ptr} {state next : State} {turns : Nat}

theorem reachable_filed (h : Reachable (· = initialState threads powerThread) Step state) :
    Filed state := by
  refine h.invariant ?_ ?_
  · rintro state rfl
    exact filed_initialState threads powerThread
  · rintro state next hstate ⟨call, ret, -, hstep⟩
    exact hstate.step hstep

variable {thread : Ptr}

theorem shouldPreemptCurrentThread_iff
    (hpolicy : (state.threads thread).runQueue = (state.threads state.currentThread).runQueue)
    (hqueued : (state.threads thread).runQueue ≠ none) :
    shouldPreemptCurrentThread state thread = true ↔
      (state.threads state.currentThread).prio < (state.threads thread).prio := by
  unfold shouldPreemptCurrentThread Thread.runQueue at *
  cases hcurrent : (state.threads state.currentThread).schedPolicy <;>
    cases hthread : (state.threads thread).schedPolicy <;>
      simp_all

theorem Taken.waitsBehind_iff {which : RunQueue} {other : Ptr} (h : Taken state next which thread) :
    WaitsBehind (switchTo next thread) other ↔ ∃ q, other ∈ (next.runQueues which).queues q := by
  have halike := h.alike.trans (alike_setSchedState next thread .running)
  have hhome : ((switchTo next thread).threads thread).runQueue = some which :=
    (halike.runQueue_eq thread).trans h.home
  constructor
  · rintro ⟨which', q, hwhich, hmem⟩
    have hsame : which' = which := some.inj (hwhich.symm.trans hhome)
    exact ⟨q, by rwa [hsame] at hmem⟩
  · rintro ⟨q, hmem⟩
    exact ⟨which, q, hhome, hmem⟩

theorem Taken.mostUrgent_iff {which : RunQueue} (h : Taken state next which thread) :
    MostUrgent (switchTo next thread) ↔ Level (state.runQueues which) := by
  have halike := h.alike.trans (alike_setSchedState next thread .running)
  have hown : ((switchTo next thread).threads thread).prio = (state.threads thread).prio :=
    (halike thread).1
  have hfiled : Filed (switchTo next thread) :=
    h.filed.congr rfl (alike_setSchedState next thread .running)
  have hpreempts : ∀ q, ∀ other ∈ (next.runQueues which).queues q,
      (shouldPreemptCurrentThread (switchTo next thread) other = true ↔
        (state.threads thread).prio < q) ∧ ((switchTo next thread).threads other).prio = q := by
    intro q other hmem
    obtain ⟨hprio, hwhich, -⟩ := hfiled.home which q other hmem
    refine ⟨?_, hprio⟩
    rw [shouldPreemptCurrentThread_iff, hprio]
    · exact Iff.of_eq (congrArg (· < q) hown)
    · exact hwhich.trans ((halike.runQueue_eq thread).trans h.home).symm
    · rw [hwhich]
      exact some_ne_none _
  constructor
  · intro hurgent
    have honly : ∀ q, (state.runQueues which).queues q ≠ [] → q = (state.threads thread).prio := by
      intro q hq
      rcases lt_trichotomy q (state.threads thread).prio with hlt | heq | hgt
      · exact absurd (h.below q hlt) hq
      · exact heq
      rw [← h.above q (ne_of_gt hgt)] at hq
      obtain ⟨other, hother⟩ := exists_mem_of_ne_nil _ hq
      have hno := (hurgent other (h.waitsBehind_iff.mpr ⟨q, hother⟩)).1
      rw [((hpreempts q other hother).1).mpr hgt] at hno
      cases hno
    intro q r hq hr
    rw [honly q hq, honly r hr]
  · intro hlevel other hother
    obtain ⟨q, hmem⟩ := h.waitsBehind_iff.mp hother
    have hq : q = (state.threads thread).prio := by
      rcases eq_or_ne q (state.threads thread).prio with heq | hne
      · exact heq
      · refine hlevel q _ ?_ h.queued
        rw [← h.above q hne]
        exact ne_nil_of_mem hmem
    obtain ⟨hpreempt, hprio⟩ := hpreempts q other hmem
    constructor
    · rw [← Bool.not_eq_true, hpreempt]
      omega
    · rintro ⟨hcritical, hidle⟩
      have hsame : ((switchTo next thread).threads other).prio =
          ((switchTo next thread).threads thread).prio := by rw [hprio, hown, hq]
      rw [hcritical] at hsame
      exact absurd (hsame.trans hidle) (by decide)

/-- After any sequence of operations: `pull` chooses a thread that no waiting thread of its policy
would preempt exactly when all threads of the run queue it serves have one priority. -/
theorem pull_mostUrgent_iff (h : Reachable (· = initialState threads powerThread) Step state)
    (hpull : pull state turns = some next) (hswitched : next.inPull = false) :
    MostUrgent next ↔ ∀ which, Serves state which → Level (state.runQueues which) := by
  have hfiled := reachable_filed h
  rcases pull_cases hfiled hpull with ⟨which, middle, thread, htaken, rfl, hempty⟩ | rfl
  · rw [htaken.mostUrgent_iff]
    constructor
    · intro hlevel which' hserves
      rcases eq_or_ne which' which with rfl | hne
      · exact hlevel
      intro q r hq
      -- the other run queue is empty, or it is not served
      obtain ⟨other, hother⟩ := exists_mem_of_ne_nil _ hq
      have hbound := (hfiled.home which' q other hother).2.2
      cases which with
      | roundRobinQ =>
        cases which' with
        | roundRobinQ => exact absurd rfl hne
        | realTimeQ => exact absurd (hempty rfl q hbound) hq
      | realTimeQ =>
        rcases hserves with heq | hnone
        · exact absurd heq hne
        · exact absurd (hnone _ htaken.bound) htaken.queued
    · intro hall
      refine hall which ?_
      cases which with
      | roundRobinQ => exact .inr (hempty rfl)
      | realTimeQ => exact .inl rfl
  · cases hswitched

/-- While a thread waits, `pull` does not halt the CPU. It takes a real time thread before any
other, and of one run queue a thread with the smallest number. -/
theorem pull_chooses (h : Reachable (· = initialState threads powerThread) Step state)
    (hpull : pull state turns = some next) {which : RunQueue} {q : Nat}
    (hmem : thread ∈ (state.runQueues which).queues q) :
    next.inPull = false ∧ ∃ chosen,
      (next.threads next.currentThread).runQueue = some chosen ∧
        (which = .realTimeQ → chosen = .realTimeQ) ∧ (chosen = which →
          (next.threads next.currentThread).prio ≤ (next.threads thread).prio) := by
  have hfiled := reachable_filed h
  obtain ⟨hprio, -, hq⟩ := hfiled.home which q thread hmem
  have hwaits := ne_nil_of_mem hmem
  rcases pull_cases hfiled hpull with ⟨chosen, middle, new, htaken, rfl, hempty⟩ | rfl
  · have halike : Alike state (switchTo middle new) :=
      htaken.alike.trans (alike_setSchedState middle new .running)
    refine ⟨rfl, chosen, (halike.runQueue_eq new).trans htaken.home, ?_, ?_⟩
    · rintro rfl
      cases chosen with
      | realTimeQ => rfl
      | roundRobinQ => exact absurd (hempty rfl q hq) hwaits
    · rintro rfl
      show ((switchTo middle new).threads new).prio ≤ _
      rw [(halike new).1, (halike thread).1, hprio]
      exact Nat.le_of_not_lt fun hlt => hwaits (htaken.below q hlt)
  -- the CPU is halted only when both run queues are empty
  rw [pull, bind_eq_bind, bind_eq_some_iff] at hpull
  obtain ⟨⟨_ | new, middle⟩, hfirst, hpull⟩ := hpull
  · obtain ⟨hempty, rfl⟩ := pullFromQ_none hfiled hfirst
    obtain ⟨⟨_ | new, last⟩, hsecond, hpull⟩ := bind_eq_some_iff.mp hpull
    · cases which with
      | realTimeQ => exact absurd (hempty q hq) hwaits
      | roundRobinQ => exact absurd ((pullFromQ_none hfiled hsecond).1 q hq) hwaits
    · cases congrArg State.inPull (some.inj hpull)
  · cases congrArg State.inPull (some.inj hpull)

end

/-- Threads of the round robin policy: thread 1 is of the class `first`, the others of `second`. -/
def classThreads (first second : PriorityClass) (thread : Ptr) : Thread where
  schedState := .unscheduled
  schedPolicy := .roundRobin
  prio := if thread = 1 then first.prio else second.prio
  sticky := false
  schedWaiting := false
  cpuAffinity := true
  currentCpu := false

def bothScheduled (first second : PriorityClass) : State :=
  (scheduleOnStream (scheduleOnStream (initialState (classThreads first second) 3) 1).2 2).2

theorem reachable_bothScheduled (first second : PriorityClass) :
    Reachable (· = initialState (classThreads first second) 3) Step
      (bothScheduled first second) := by
  have hstep : ∀ (state : State) (thread : Ptr), thread ≠ 0 →
      Step state (scheduleOnStream state thread).2 :=
    fun state thread hne => ⟨.scheduleOnStream thread, _, trivial, if_neg hne⟩
  refine Reachable.tail ?_ (hstep _ 2 (by decide))
  exact Reachable.tail (reachable_of_init rfl) (hstep _ 1 (by decide))

theorem pull_chooses_idle : ∃ next,
    pull (bothScheduled .idle .critical) 1 = some next ∧ next.inPull = false ∧ ∃ chosen,
      (next.threads next.currentThread).runQueue = some chosen ∧
        (RunQueue.roundRobinQ = .realTimeQ → chosen = .realTimeQ) ∧ (chosen = .roundRobinQ →
          (next.threads next.currentThread).prio ≤ (next.threads 2).prio) := by
  have hsome : (pull (bothScheduled .idle .critical) 1).isSome = true := by decide +kernel
  obtain ⟨next, hpull⟩ := isSome_iff_exists.mp hsome
  have hmem : 2 ∈ ((bothScheduled .idle .critical).runQueues .roundRobinQ).queues 16 := by
    decide +kernel
  exact ⟨next, hpull, pull_chooses (reachable_bothScheduled _ _) hpull hmem⟩

theorem pull_mostUrgent_moderate :
    ∃ next, pull (bothScheduled .moderate .moderate) 1 = some next ∧ next.currentThread = 1 ∧
      MostUrgent next := by
  have hpull : (pull (bothScheduled .moderate .moderate) 1).map
      (fun next => (next.currentThread, next.inPull)) = some (1, false) := by decide +kernel
  obtain ⟨next, hnext, hfacts⟩ := map_eq_some_iff.mp hpull
  obtain ⟨hcurrent, hswitched⟩ := Prod.mk.inj hfacts
  refine ⟨next, hnext, hcurrent, ?_⟩
  refine (pull_mostUrgent_iff (reachable_bothScheduled _ _) hnext hswitched).mpr ?_
  intro which _ q r hq hr
  have hfiled := reachable_filed (reachable_bothScheduled .moderate .moderate)
  have hprio : ∀ thread, ((bothScheduled .moderate .moderate).threads thread).prio = 8 := by
    intro thread
    rw [bothScheduled, ((alike_scheduleOnStream _ 1).trans (alike_scheduleOnStream _ 2) thread).1]
    simp [initialState, classThreads, PriorityClass.prio]
  obtain ⟨first, hfirst⟩ := exists_mem_of_ne_nil _ hq
  obtain ⟨second, hsecond⟩ := exists_mem_of_ne_nil _ hr
  rw [← (hfiled.home which q first hfirst).1, ← (hfiled.home which r second hsecond).1, hprio, hprio]

theorem pull_idle_before_critical :
    ¬ ∀ (threads : Ptr → Thread) (powerThread : Ptr) (state next : State) (turns : Nat),
      Reachable (· = initialState threads powerThread) Step state →
        pull state turns = some next → next.inPull = false → MostUrgent next := by
  intro hclaim
  have hpull : (pull (bothScheduled .idle .critical) 1).map (fun next =>
      (next.inPull, (next.threads next.currentThread).runQueue,
        (next.runQueues .roundRobinQ).queues 16, shouldPreemptCurrentThread next 2)) =
          some (false, some .roundRobinQ, [2], true) := by decide +kernel
  obtain ⟨next, hnext, hfacts⟩ := map_eq_some_iff.mp hpull
  simp only [Prod.mk.injEq] at hfacts
  obtain ⟨hswitched, hwhich, hqueue, hpreempts⟩ := hfacts
  have hurgent := hclaim _ _ _ _ _ (reachable_bothScheduled .idle .critical) hnext hswitched
  have hwaits : WaitsBehind next 2 := ⟨.roundRobinQ, 16, hwhich, by rw [hqueue]; simp⟩
  rw [(hurgent 2 hwaits).1] at hpreempts
  cases hpreempts

end Zambesii.RunQueueOrder
