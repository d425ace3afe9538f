import Mathlib.Algebra.BigOperators.Group.Finset.Piecewise
import Mathlib.Algebra.Order.BigOperators.Group.Finset
import Zambesii.TaskStream

/-!
The loads that the `TaskStream` of each CPU and their `NumaCpuBank` keep, and the threads that are
runnable or running on the CPUs.
-/

namespace Zambesii.CpuLoads

open Function Nat Option
open KernelTypes
open LinkedCells (Ptr)
open PrioQueue (emptyQueue)
open Runs
open TaskTrib (SchedState)
open TaskStream (SchedPolicy RunQueue schedprioMaxNprios)

/-- `prio` is `schedPrio->prio`. `sticky` is the bit of `schedOptions` that `PrioQueue` reads,
`schedWaiting` that of `schedFlags`. -/
structure Thread where
  schedState : SchedState
  schedPolicy : SchedPolicy
  prio : Nat
  sticky : Bool
  schedWaiting : Bool
  currentCpu : Option Nat
deriving DecidableEq

def Thread.runQueue (thread : Thread) : Option RunQueue :=
  match thread.schedPolicy with
  | .roundRobin => some .roundRobinQ
  | .realTime => some .realTimeQ
  | .invalid => none

/-- The threads, the task streams of the CPUs, and the load of the bank that the CPUs are in. -/
structure State where
  threads : Ptr → Thread
  runQueues : Nat → RunQueue → PrioQueue Ptr
  currentThread : Nat → Ptr
  load : Nat → Nat
  bankLoad : Nat

def State.setThread (state : State) (thread : Ptr) (value : Thread) : State :=
  { state with threads := update state.threads thread value }

def State.setSchedState (state : State) (thread : Ptr) (schedState : SchedState) : State :=
  state.setThread thread { state.threads thread with schedState }

def State.setQueue (state : State) (cpu : Nat) (which : RunQueue) (queue : PrioQueue Ptr) : State :=
  { state with
    runQueues := update state.runQueues cpu
      (update (state.runQueues cpu) which queue) }

/-- What is answered when a thread is put into a run queue: the resizing of `cpuTrace`, and whether
the queue gets a node. -/
structure Answers where
  resized : Kerror
  allocated : Bool
deriving DecidableEq

def insertThread (cpu : Nat) (state : State) (thread : Ptr) (allocated : Bool)
    (unknownPolicy : Kerror) : Kerror × State :=
  match (state.threads thread).runQueue with
  | none => (unknownPolicy, state)
  | some which =>
    if schedprioMaxNprios ≤ (state.threads thread).prio then (.invalidArgVal, state)
    else if allocated = false then (.memoryNomem, state)
    else
      (.success, state.setQueue cpu which
        ((state.runQueues cpu which).insert schedprioMaxNprios thread (state.threads thread).prio
          (state.threads thread).sticky).2)

/-- The removal of a thread from the run queue of its policy. There is no queue for a priority that
is too large. -/
def removeThread (cpu : Nat) (state : State) (thread : Ptr) : Option State :=
  match (state.threads thread).runQueue with
  | none => some state
  | some which =>
    if schedprioMaxNprios ≤ (state.threads thread).prio then none
    else some (state.setQueue cpu which
      ((state.runQueues cpu which).remove schedprioMaxNprios thread (state.threads thread).prio))

/-- `updateLoad(LOAD_UPDATE_ADD, 1)`, which goes on to the bank. -/
def updateLoad (cpu : Nat) (state : State) : State :=
  { state with
    load := update state.load cpu ((state.load cpu + 1) % wordModulus)
    bankLoad := (state.bankLoad + 1) % wordModulus }

def schedule (cpu : Nat) (answers : Answers) (state : State) (thread : Ptr) : Kerror × State :=
  if answers.resized ≠ .success then (answers.resized, state)
  else
    let state := state.setThread thread
      { state.threads thread with schedState := .runnable, currentCpu := some cpu }
    let (ret, state) := insertThread cpu state thread answers.allocated .invalidArgVal
    if ret ≠ .success then (ret, state) else (ret, updateLoad cpu state)

def pullFromQ (cpu : Nat) (which : RunQueue) :
    State → List Answers → Option (Option Ptr × State × List Answers)
  | _, [] => none
  | state, answer :: answers =>
    match (state.runQueues cpu which).pop schedprioMaxNprios with
    | (none, queue) => some (none, state.setQueue cpu which queue, answers)
    | (some ret, queue) =>
      let state := state.setQueue cpu which queue
      -- the scheduler is waiting for this thread
      if (state.threads ret).schedWaiting then
        pullFromQ cpu which (schedule cpu answer state ret).2 answers
      else some (some ret, state, answers)

def switchTo (cpu : Nat) (state : State) (newThread : Ptr) : State :=
  { state.setSchedState newThread .running with
    currentThread := update state.currentThread cpu newThread }

/-- One round of `pull`; the CPU is halted when there is no thread. -/
def pull (cpu : Nat) (state : State) (answers : List Answers) : Option State := do
  let (newThread, state, answers) ← pullFromQ cpu .realTimeQ state answers
  match newThread with
  | some newThread => some (switchTo cpu state newThread)
  | none =>
    let (newThread, state, _) ← pullFromQ cpu .roundRobinQ state answers
    match newThread with
    | some newThread => some (switchTo cpu state newThread)
    | none => some state

def dormant (cpu : Nat) (state : State) (thread : Ptr) : Option State :=
  removeThread cpu (state.setSchedState thread .dormant) thread

def block (cpu : Nat) (state : State) (thread : Ptr) : Option State :=
  removeThread cpu (state.setSchedState thread .blocked) thread

def unblock (cpu : Nat) (allocated : Bool) (state : State) (thread : Ptr) : Kerror × State :=
  insertThread cpu (state.setSchedState thread .runnable) thread allocated .unsupported

def yield (cpu : Nat) (allocated : Bool) (state : State) (thread : Ptr) : State :=
  (insertThread cpu (state.setSchedState thread .runnable) thread allocated .success).2

def wake (cpu : Nat) (allocated : Bool) (state : State) (thread : Ptr) : Kerror × State :=
  match (state.threads thread).schedState with
  | .runnable | .running => (.success, state)
  | .blocked | .shuttingDown | .zombie => (.unsupported, state)
  | .invalid | .unscheduled | .dormant =>
    insertThread cpu (state.setSchedState thread .runnable) thread allocated .critical

inductive Call
  | schedule (answers : Answers) (thread : Ptr)
  | pull (answers : List Answers)
  | yield (allocated : Bool) (thread : Ptr)
  | block (thread : Ptr)
  | unblock (allocated : Bool) (thread : Ptr)
  | dormant (thread : Ptr)
  | wake (allocated : Bool) (thread : Ptr)
deriving DecidableEq

def step (state : State) : Nat × Call → Option (Kerror × State)
  | (cpu, .schedule answers thread) => some (schedule cpu answers state thread)
  | (cpu, .pull answers) => (pull cpu state answers).map fun state => (.success, state)
  | (cpu, .yield allocated thread) => some (.success, yield cpu allocated state thread)
  | (cpu, .block thread) => (block cpu state thread).map fun state => (.success, state)
  | (cpu, .unblock allocated thread) => some (unblock cpu allocated state thread)
  | (cpu, .dormant thread) => (dormant cpu state thread).map fun state => (.success, state)
  | (cpu, .wake allocated thread) => some (wake cpu allocated state thread)

def Ready (thread : Thread) : Prop :=
  thread.schedState = .runnable ∨ thread.schedState = .running

instance (thread : Thread) : Decidable (Ready thread) := inferInstanceAs (Decidable (_ ∨ _))

def On (state : State) (cpu : Nat) (thread : Ptr) : Prop :=
  Ready (state.threads thread) ∧ (state.threads thread).currentCpu = some cpu

instance (state : State) (cpu : Nat) (thread : Ptr) : Decidable (On state cpu thread) :=
  inferInstanceAs (Decidable (_ ∧ _))

def Counts (state : State) (cpu n : Nat) : Prop :=
  ∃ threads : Finset Ptr, (∀ thread, thread ∈ threads ↔ On state cpu thread) ∧ threads.card = n

structure Balanced (cpus : Finset Nat) (state : State) : Prop where
  load : ∀ cpu ∈ cpus, Counts state cpu (state.load cpu)
  bank : state.bankLoad = ∑ cpu ∈ cpus, state.load cpu

structure Fresh (state : State) : Prop where
  threads : ∀ thread, ¬ Ready (state.threads thread)
  load : ∀ cpu, state.load cpu = 0
  bankLoad : state.bankLoad = 0

def Away (cpus : Finset Nat) (thread : Thread) : Prop :=
  ∀ cpu ∈ cpus, thread.currentCpu ≠ some cpu

instance (cpus : Finset Nat) (thread : Thread) : Decidable (Away cpus thread) :=
  inferInstanceAs (Decidable (∀ _ ∈ cpus, _))

/-- `schedule` puts the thread into a queue, and counts it. -/
def Enters (answers : Answers) (thread : Thread) : Prop :=
  thread.schedPolicy ≠ .invalid ∧ thread.prio < schedprioMaxNprios ∧ answers.allocated = true

instance (answers : Answers) (thread : Thread) : Decidable (Enters answers thread) :=
  inferInstanceAs (Decidable (_ ∧ _))

/-- A thread that enters a queue has not been counted, and is; one that is refused has been
counted. -/
def SoundSchedule (cpus : Finset Nat) (cpu : Nat) (answers : Answers) (state : State)
    (thread : Ptr) : Prop :=
  answers.resized = .success →
    (Enters answers (state.threads thread) ∧
      (¬ Ready (state.threads thread) ∨ Away cpus (state.threads thread)) ∧
        state.bankLoad + 1 < wordModulus) ∨
    ¬ Enters answers (state.threads thread) ∧ On state cpu thread

instance (cpus : Finset Nat) (cpu : Nat) (answers : Answers) (state : State) (thread : Ptr) :
    Decidable (SoundSchedule cpus cpu answers state thread) :=
  inferInstanceAs (Decidable (_ → _))

/-- No thread that the scheduler waits for is put back into its queue, and the one that is pulled
is counted. The queues are popped one after the other. -/
def SoundPull (cpus : Finset Nat) (cpu : Nat) (state : State) :
    List (PrioQueue Ptr) → List Answers → Prop
  | queue :: queues, answer :: answers =>
    match queue.pop schedprioMaxNprios with
    | (none, _) => SoundPull cpus cpu state queues answers
    | (some ret, queue) =>
      if (state.threads ret).schedWaiting then
        (answer.resized = .success → ¬ Enters answer (state.threads ret) ∧ On state cpu ret) ∧
          SoundPull cpus cpu state (queue :: queues) answers
      else Ready (state.threads ret) ∨ Away cpus (state.threads ret)
  | _, _ => True

instance decidableSoundPull (cpus : Finset Nat) (cpu : Nat) (state : State) :
    ∀ queues answers, Decidable (SoundPull cpus cpu state queues answers)
  | [], _ => isTrue (by simp [SoundPull])
  | _ :: _, [] => isTrue (by simp [SoundPull])
  | queue :: queues, answer :: answers =>
    match hpop : queue.pop schedprioMaxNprios with
    | (none, _) =>
      have := decidableSoundPull cpus cpu state queues answers
      decidable_of_iff (SoundPull cpus cpu state queues answers) (by rw [SoundPull, hpop])
    | (some ret, rest) =>
      have := decidableSoundPull cpus cpu state (rest :: queues) answers
      decidable_of_iff
        (if (state.threads ret).schedWaiting then
          (answer.resized = .success →
            ¬ Enters answer (state.threads ret) ∧ On state cpu ret) ∧
              SoundPull cpus cpu state (rest :: queues) answers
        else Ready (state.threads ret) ∨ Away cpus (state.threads ret))
        (by rw [SoundPull, hpop])

/-- The condition for a call to leave the loads right. A thread that is not counted must not become
runnable but by `schedule`, and one that is counted must not cease to be. -/
def Sound (cpus : Finset Nat) (state : State) : Nat × Call → Prop
  | (cpu, .schedule answers thread) => cpu ∈ cpus ∧ SoundSchedule cpus cpu answers state thread
  | (cpu, .pull answers) => cpu ∈ cpus ∧ SoundPull cpus cpu state
      [state.runQueues cpu .realTimeQ, state.runQueues cpu .roundRobinQ] answers
  | (cpu, .yield _ thread) | (cpu, .unblock _ thread) =>
    cpu ∈ cpus ∧ (Ready (state.threads thread) ∨ Away cpus (state.threads thread))
  | (cpu, .block thread) | (cpu, .dormant thread) =>
    cpu ∈ cpus ∧ (¬ Ready (state.threads thread) ∨ Away cpus (state.threads thread))
  | (cpu, .wake _ thread) =>
    cpu ∈ cpus ∧ (Ready (state.threads thread) ∨ (state.threads thread).schedState = .blocked ∨
        (state.threads thread).schedState = .shuttingDown ∨
          (state.threads thread).schedState = .zombie ∨ Away cpus (state.threads thread))

instance decidableSound (cpus : Finset Nat) (state : State) :
    (request : Nat × Call) → Decidable (Sound cpus state request)
  | (_, .schedule ..) | (_, .pull ..) | (_, .yield ..) | (_, .unblock ..) | (_, .block ..)
  | (_, .dormant ..) | (_, .wake ..) => inferInstanceAs (Decidable (_ ∧ _))

section

variable {cpus : Finset Nat} {state next : State} {cpu : Nat} {thread : Ptr}

structure Same (state next : State) : Prop where
  threads : next.threads = state.threads
  load : next.load = state.load
  bankLoad : next.bankLoad = state.bankLoad

theorem on_setThread_self (state : State) (cpu : Nat) (thread : Ptr) (value : Thread) :
    On (state.setThread thread value) cpu thread ↔ Ready value ∧ value.currentCpu = some cpu := by
  simp [On, State.setThread]

theorem on_setThread_of_ne (state : State) (cpu : Nat) {thread other : Ptr} (hne : other ≠ thread)
    (value : Thread) : On (state.setThread thread value) cpu other ↔ On state cpu other := by
  simp [On, State.setThread, hne]

theorem on_updateLoad (state : State) (cpu other : Nat) (thread : Ptr) :
    On (updateLoad cpu state) other thread ↔ On state other thread :=
  Iff.rfl

theorem Same.refl (state : State) : Same state state := ⟨rfl, rfl, rfl⟩

theorem same_insertThread (cpu : Nat) (state : State) (thread : Ptr) (allocated : Bool)
    (unknownPolicy : Kerror) :
    Same state (insertThread cpu state thread allocated unknownPolicy).2 := by
  unfold insertThread
  split
  · exact .refl state
  split
  · exact .refl state
  split
  · exact .refl state
  · exact ⟨rfl, rfl, rfl⟩

theorem same_removeThread (h : removeThread cpu state thread = some next) : Same state next := by
  unfold removeThread at h
  split at h
  · cases h
    exact .refl state
  split at h
  · cases h
  · cases h
    exact ⟨rfl, rfl, rfl⟩

variable (h : Balanced cpus state)

include h

theorem Balanced.congr (hon : ∀ cpu ∈ cpus, ∀ thread, On next cpu thread ↔ On state cpu thread)
    (hload : next.load = state.load) (hbank : next.bankLoad = state.bankLoad) :
    Balanced cpus next := by
  constructor
  · intro cpu hcpu
    obtain ⟨threads, hmem, hcard⟩ := h.load cpu hcpu
    rw [hload]
    exact ⟨threads, fun thread => (hmem thread).trans (hon cpu hcpu thread).symm, hcard⟩
  · rw [hbank, hload]
    exact h.bank

theorem Balanced.same (hsame : Same state next) : Balanced cpus next := by
  refine h.congr (fun cpu _ thread => ?_) hsame.load hsame.bankLoad
  rw [On, On, hsame.threads]

theorem Balanced.setSchedState {schedState : SchedState}
    (hready : (schedState = .runnable ∨ schedState = .running ↔ Ready (state.threads thread)) ∨
      Away cpus (state.threads thread)) :
    Balanced cpus (state.setSchedState thread schedState) := by
  refine h.congr (fun cpu hcpu other => ?_) rfl rfl
  rw [State.setSchedState]
  rcases eq_or_ne other thread with rfl | hne
  · rw [on_setThread_self]
    rcases hready with hready | haway
    · exact and_congr_left fun _ => hready
    · exact iff_of_false (fun hon => haway cpu hcpu hon.2) fun hon => haway cpu hcpu hon.2
  · exact on_setThread_of_ne state cpu hne _

theorem Balanced.load_le (hcpu : cpu ∈ cpus) : state.load cpu ≤ state.bankLoad := by
  rw [h.bank]
  exact Finset.single_le_sum (fun _ _ => zero_le _) hcpu

theorem Balanced.enter (hcpu : cpu ∈ cpus) {value : Thread}
    (hnew : ¬ Ready (state.threads thread) ∨ Away cpus (state.threads thread))
    (hready : Ready value) (hcurrent : value.currentCpu = some cpu)
    (hbound : state.bankLoad + 1 < wordModulus) :
    Balanced cpus (updateLoad cpu (state.setThread thread value)) := by
  have hle := h.load_le hcpu
  have hload : (state.load cpu + 1) % wordModulus = state.load cpu + 1 :=
    mod_eq_of_lt (by omega)
  have hbefore : ∀ other ∈ cpus, ¬ On state other thread := by
    rintro other hother ⟨hold, hat⟩
    rcases hnew with hnot | haway
    · exact hnot hold
    · exact haway other hother hat
  have hothers : ∀ other another, another ≠ thread →
      (On (updateLoad cpu (state.setThread thread value)) other another ↔
        On state other another) := by
    intro other another hne
    rw [on_updateLoad, on_setThread_of_ne state other hne]
  have hthread : ∀ other, On (updateLoad cpu (state.setThread thread value)) other thread ↔
      other = cpu := by
    intro other
    rw [on_updateLoad, on_setThread_self, hcurrent, some.injEq]
    exact ⟨fun hon => hon.2.symm, fun heq => ⟨hready, heq.symm⟩⟩
  constructor
  · intro other hother
    obtain ⟨threads, hmem, hcard⟩ := h.load other hother
    have hnot : thread ∉ threads := fun hin => hbefore other hother ((hmem thread).mp hin)
    rcases eq_or_ne other cpu with rfl | hne
    · refine ⟨insert thread threads, fun another => ?_, ?_⟩
      · rcases eq_or_ne another thread with rfl | hne
        · exact iff_of_true (Finset.mem_insert_self ..) ((hthread other).mpr rfl)
        · rw [Finset.mem_insert, or_iff_right hne, hothers other another hne]
          exact hmem another
      · rw [Finset.card_insert_of_notMem hnot, hcard, ← hload]
        exact (update_self other _ state.load).symm
    · refine ⟨threads, fun another => ?_, ?_⟩
      · rcases eq_or_ne another thread with rfl | hne'
        · exact iff_of_false hnot fun hon => hne ((hthread other).mp hon)
        · rw [hothers other another hne']
          exact hmem another
      · rw [hcard]
        exact (update_of_ne hne _ state.load).symm
  · simp only [updateLoad, State.setThread]
    rw [Finset.sum_update_of_mem hcpu, hload, mod_eq_of_lt hbound, h.bank,
      Finset.sum_eq_add_sum_sdiff_singleton_of_mem hcpu]
    omega

omit h

end

section

variable {cpus : Finset Nat} {state next : State} {cpu : Nat} {thread : Ptr}
  {answer : Answers} {answers : List Answers}

theorem insertThread_of_enters (cpu : Nat) (unknownPolicy : Kerror)
    (h : Enters answer (state.threads thread)) :
    ∃ which queue, insertThread cpu state thread answer.allocated unknownPolicy =
      (.success, state.setQueue cpu which queue) := by
  obtain ⟨hpolicy, hprio, hallocated⟩ := h
  cases hqueue : (state.threads thread).runQueue with
  | none =>
    unfold Thread.runQueue at hqueue
    split at hqueue
    · cases hqueue
    · cases hqueue
    · next hinvalid => exact absurd hinvalid hpolicy
  | some which =>
    refine ⟨which, ((state.runQueues cpu which).insert schedprioMaxNprios thread
      (state.threads thread).prio (state.threads thread).sticky).2, ?_⟩
    simp only [insertThread, hqueue, hallocated, Bool.true_eq_false, if_false,
      if_neg (not_le.mpr hprio)]

theorem insertThread_of_not_enters (cpu : Nat) {unknownPolicy : Kerror}
    (hunknown : unknownPolicy ≠ .success) (h : ¬ Enters answer (state.threads thread)) :
    (insertThread cpu state thread answer.allocated unknownPolicy).1 ≠ .success ∧
      (insertThread cpu state thread answer.allocated unknownPolicy).2 = state := by
  unfold insertThread
  split
  · exact ⟨hunknown, rfl⟩
  next which hqueue =>
  have hpolicy : (state.threads thread).schedPolicy ≠ .invalid := by
    intro hinvalid
    rw [Thread.runQueue, hinvalid] at hqueue
    cases hqueue
  split
  · exact ⟨by simp, rfl⟩
  next hprio =>
  split
  · exact ⟨by simp, rfl⟩
  · next hallocated =>
    exact absurd ⟨hpolicy, not_le.mp hprio, by simpa using hallocated⟩ h

/-- The thread as `schedule` puts it into a queue. -/
def scheduled (cpu : Nat) (state : State) (thread : Ptr) : State :=
  state.setThread thread
    { state.threads thread with schedState := .runnable, currentCpu := some cpu }

theorem enters_scheduled (answer : Answers) (cpu : Nat) (state : State) (thread : Ptr) :
    Enters answer ((scheduled cpu state thread).threads thread) ↔
      Enters answer (state.threads thread) := by
  simp [scheduled, State.setThread, Enters]

theorem schedule_eq (hresized : answer.resized = .success) :
    schedule cpu answer state thread =
      if (insertThread cpu (scheduled cpu state thread) thread answer.allocated
          .invalidArgVal).1 ≠ .success then
        insertThread cpu (scheduled cpu state thread) thread answer.allocated .invalidArgVal
      else
        ((insertThread cpu (scheduled cpu state thread) thread answer.allocated .invalidArgVal).1,
          updateLoad cpu (insertThread cpu (scheduled cpu state thread) thread answer.allocated
            .invalidArgVal).2) := by
  rw [schedule, if_neg (by simp [hresized])]
  rfl

theorem schedule_of_not_enters (hresized : answer.resized = .success)
    (h : ¬ Enters answer (state.threads thread)) :
    (schedule cpu answer state thread).2 = scheduled cpu state thread := by
  rw [← enters_scheduled answer cpu] at h
  obtain ⟨hret, hsame⟩ :=
    insertThread_of_not_enters cpu (show Kerror.invalidArgVal ≠ .success by decide) h
  rw [schedule_eq hresized, if_pos hret, hsame]

theorem Balanced.scheduled (h : Balanced cpus state) (hon : On state cpu thread) :
    Balanced cpus (scheduled cpu state thread) := by
  refine h.congr (fun other _ another => ?_) rfl rfl
  rcases eq_or_ne another thread with rfl | hne
  · have hready : Ready { state.threads another with
        schedState := .runnable, currentCpu := some cpu } := .inl rfl
    rw [CpuLoads.scheduled, on_setThread_self, On, hon.2]
    exact and_congr_left fun _ => iff_of_true hready hon.1
  · exact on_setThread_of_ne state other hne _

theorem Balanced.schedule (h : Balanced cpus state) (hcpu : cpu ∈ cpus)
    (hsound : SoundSchedule cpus cpu answer state thread) :
    Balanced cpus (schedule cpu answer state thread).2 := by
  rcases eq_or_ne answer.resized .success with hresized | hrefused
  · obtain ⟨henters, hnew, hbound⟩ | ⟨hnot, hon⟩ := hsound hresized
    · have henters' := (enters_scheduled answer cpu state thread).mpr henters
      obtain ⟨which, queue, hinsert⟩ := insertThread_of_enters cpu .invalidArgVal henters'
      rw [schedule_eq hresized, hinsert, if_neg (by simp)]
      have henter : Balanced cpus (updateLoad cpu (CpuLoads.scheduled cpu state thread)) :=
        h.enter hcpu hnew (.inl rfl) rfl hbound
      exact henter.same ⟨rfl, rfl, rfl⟩
    · rw [schedule_of_not_enters hresized hnot]
      exact h.scheduled hon
  · rw [CpuLoads.schedule, if_pos hrefused]
    exact h

structure Alike (thread thread' : Thread) : Prop where
  schedPolicy : thread'.schedPolicy = thread.schedPolicy
  prio : thread'.prio = thread.prio
  schedWaiting : thread'.schedWaiting = thread.schedWaiting
  currentCpu : thread'.currentCpu = thread.currentCpu
  ready : Ready thread' ↔ Ready thread

theorem Alike.refl (thread : Thread) : Alike thread thread := ⟨rfl, rfl, rfl, rfl, Iff.rfl⟩

theorem Alike.trans {thread thread' thread'' : Thread} (h : Alike thread thread')
    (h' : Alike thread' thread'') : Alike thread thread'' :=
  ⟨h'.schedPolicy.trans h.schedPolicy, h'.prio.trans h.prio,
    h'.schedWaiting.trans h.schedWaiting, h'.currentCpu.trans h.currentCpu, h'.ready.trans h.ready⟩

theorem Alike.enters {thread thread' : Thread} (h : Alike thread thread') :
    Enters answer thread' ↔ Enters answer thread := by
  rw [Enters, Enters, h.schedPolicy, h.prio]

theorem Alike.countable {thread thread' : Thread} (h : Alike thread thread') :
    Ready thread' ∨ Away cpus thread' ↔ Ready thread ∨ Away cpus thread := by
  rw [h.ready, Away, Away, h.currentCpu]

theorem requeue_balanced (h : Balanced cpus state) (hsound : answer.resized = .success →
      ¬ Enters answer (state.threads thread) ∧ On state cpu thread) :
    Balanced cpus (schedule cpu answer state thread).2 ∧
      (schedule cpu answer state thread).2.load = state.load ∧
        (schedule cpu answer state thread).2.bankLoad = state.bankLoad := by
  rcases eq_or_ne answer.resized .success with hresized | hrefused
  · obtain ⟨hnot, hon⟩ := hsound hresized
    rw [schedule_of_not_enters hresized hnot]
    exact ⟨h.scheduled hon, rfl, rfl⟩
  · rw [schedule, if_pos hrefused]
    exact ⟨h, rfl, rfl⟩

theorem requeue_alike (hsound : answer.resized = .success →
      ¬ Enters answer (state.threads thread) ∧ On state cpu thread) :
    (schedule cpu answer state thread).2.runQueues = state.runQueues ∧
      ∀ other, Alike (state.threads other)
        ((schedule cpu answer state thread).2.threads other) := by
  rcases eq_or_ne answer.resized .success with hresized | hrefused
  · obtain ⟨hnot, hready, hcurrent⟩ := hsound hresized
    rw [schedule_of_not_enters hresized hnot]
    refine ⟨rfl, fun other => ?_⟩
    rcases eq_or_ne other thread with rfl | hne
    · have hself : (scheduled cpu state other).threads other =
          { state.threads other with schedState := .runnable, currentCpu := some cpu } :=
        update_self ..
      rw [hself]
      exact ⟨rfl, rfl, rfl, hcurrent.symm, iff_of_true (.inl rfl) hready⟩
    · have hother : (scheduled cpu state thread).threads other = state.threads other :=
        update_of_ne hne ..
      rw [hother]
      exact .refl _
  · rw [schedule, if_pos hrefused]
    exact ⟨rfl, fun other => .refl _⟩

variable (h : Balanced cpus state)

include h

theorem pullFromQ_balanced {start : State} {which : RunQueue} {queues : List (PrioQueue Ptr)}
    {newThread : Option Ptr} {rest : List Answers}
    (halike : ∀ thread, Alike (start.threads thread) (state.threads thread))
    (hsound : SoundPull cpus cpu start (state.runQueues cpu which :: queues) answers)
    (hpull : pullFromQ cpu which state answers = some (newThread, next, rest)) :
    Balanced cpus next ∧ (next.load = state.load ∧ next.bankLoad = state.bankLoad) ∧
      match newThread with
      | some ret => Ready (next.threads ret) ∨ Away cpus (next.threads ret)
      | none => SoundPull cpus cpu start queues rest ∧
          (∀ thread, Alike (start.threads thread) (next.threads thread)) ∧
            ∀ other, other ≠ which → next.runQueues cpu other = state.runQueues cpu other := by
  induction answers generalizing state with
  | nil => cases hpull
  | cons answer answers ih =>
    rw [pullFromQ] at hpull
    rw [SoundPull] at hsound
    cases hpop : ((state.runQueues cpu which).pop schedprioMaxNprios) with
    | mk popped queue =>
    rw [hpop] at hpull hsound
    have hqueue : Balanced cpus (state.setQueue cpu which queue) := h.same ⟨rfl, rfl, rfl⟩
    have hself : (state.setQueue cpu which queue).runQueues cpu which = queue := by
      simp [State.setQueue]
    have hother : ∀ other, other ≠ which →
        (state.setQueue cpu which queue).runQueues cpu other = state.runQueues cpu other := by
      intro other hne
      simp [State.setQueue, hne]
    cases popped with
    | none =>
      obtain ⟨rfl, rfl, rfl⟩ := by simpa using hpull
      exact ⟨hqueue, ⟨rfl, rfl⟩, hsound, halike, hother⟩
    | some ret =>
      dsimp only at hpull hsound
      have hret : Alike (start.threads ret) ((state.setQueue cpu which queue).threads ret) :=
        halike ret
      split at hpull
      · next hwaiting =>
        rw [hret.schedWaiting] at hwaiting
        rw [if_pos hwaiting] at hsound
        obtain ⟨hrefused, hsound⟩ := hsound
        have hrefused' : answer.resized = .success →
            ¬ Enters answer ((state.setQueue cpu which queue).threads ret) ∧
              On (state.setQueue cpu which queue) cpu ret := by
          rw [hret.enters, On, hret.ready, hret.currentCpu]
          exact hrefused
        obtain ⟨hback, hload, hbank⟩ := requeue_balanced hqueue hrefused'
        obtain ⟨hqueues, hback'⟩ := requeue_alike hrefused'
        have hsound' : SoundPull cpus cpu start ((schedule cpu answer
            (state.setQueue cpu which queue) ret).2.runQueues cpu which :: queues)
              answers := by
          rw [hqueues, hself]
          exact hsound
        obtain ⟨hnext, ⟨hload', hbank'⟩, hrest⟩ :=
          ih hback (fun thread => (halike thread).trans (hback' thread)) hsound' hpull
        refine ⟨hnext, ⟨hload'.trans hload, hbank'.trans hbank⟩, ?_⟩
        cases newThread with
        | some newThread => exact hrest
        | none =>
          refine ⟨hrest.1, hrest.2.1, fun other hne => ?_⟩
          rw [hrest.2.2 other hne, hqueues, hother other hne]
      · next hfree =>
        rw [hret.schedWaiting] at hfree
        rw [if_neg hfree] at hsound
        obtain ⟨rfl, rfl, rfl⟩ := by simpa using hpull
        exact ⟨hqueue, ⟨rfl, rfl⟩, hret.countable.mpr hsound⟩

theorem switchTo_balanced
    (hready : Ready (state.threads thread) ∨ Away cpus (state.threads thread)) :
    Balanced cpus (switchTo cpu state thread) := by
  have hrunning : Balanced cpus (state.setSchedState thread .running) := by
    refine h.setSchedState ?_
    rcases hready with hready | haway
    · exact .inl (iff_of_true (.inr rfl) hready)
    · exact .inr haway
  exact hrunning.same ⟨rfl, rfl, rfl⟩

theorem pull_balanced (hsound : SoundPull cpus cpu state
      [state.runQueues cpu .realTimeQ, state.runQueues cpu .roundRobinQ] answers)
    (hpull : pull cpu state answers = some next) :
    Balanced cpus next ∧ next.load = state.load ∧ next.bankLoad = state.bankLoad := by
  unfold pull at hpull
  cases hfirst : pullFromQ cpu .realTimeQ state answers with
  | none =>
    rw [hfirst] at hpull
    cases hpull
  | some pulled =>
    obtain ⟨newThread, middle, rest⟩ := pulled
    rw [hfirst] at hpull
    obtain ⟨hmiddle, ⟨hload, hbank⟩, hrest⟩ :=
      pullFromQ_balanced h (fun thread => .refl _) hsound hfirst
    cases newThread with
    | some newThread =>
      cases hpull
      exact ⟨switchTo_balanced hmiddle hrest, hload, hbank⟩
    | none =>
      obtain ⟨hsound, halike, hqueues⟩ := hrest
      rw [← hqueues .roundRobinQ (by decide)] at hsound
      cases hsecond : pullFromQ cpu .roundRobinQ middle rest with
      | none =>
        simp [hsecond] at hpull
      | some pulled =>
        obtain ⟨newThread, last, left⟩ := pulled
        obtain ⟨hlast, ⟨hload', hbank'⟩, hready⟩ :=
          pullFromQ_balanced hmiddle halike hsound hsecond
        have hloads : last.load = state.load ∧ last.bankLoad = state.bankLoad :=
          ⟨hload'.trans hload, hbank'.trans hbank⟩
        cases newThread with
        | some newThread =>
          obtain rfl : switchTo cpu last newThread = next := by simpa [hsecond] using hpull
          exact ⟨switchTo_balanced hlast hready, hloads⟩
        | none =>
          obtain rfl : last = next := by simpa [hsecond] using hpull
          exact ⟨hlast, hloads⟩

theorem Balanced.wakeUp {allocated : Bool} {unknownPolicy : Kerror}
    (hready : Ready (state.threads thread) ∨ Away cpus (state.threads thread)) :
    Balanced cpus (insertThread cpu (state.setSchedState thread .runnable) thread allocated
      unknownPolicy).2 := by
  have hrunnable : Balanced cpus (state.setSchedState thread .runnable) := by
    refine h.setSchedState ?_
    rcases hready with hready | haway
    · exact .inl (iff_of_true (.inl rfl) hready)
    · exact .inr haway
  exact hrunnable.same (same_insertThread ..)

theorem Balanced.rest {schedState : SchedState}
    (hrests : ¬ (schedState = .runnable ∨ schedState = .running))
    (hready : ¬ Ready (state.threads thread) ∨ Away cpus (state.threads thread))
    (hremove : removeThread cpu (state.setSchedState thread schedState) thread = some next) :
    Balanced cpus next := by
  have hset : Balanced cpus (state.setSchedState thread schedState) := by
    refine h.setSchedState ?_
    rcases hready with hready | haway
    · exact .inl (iff_of_false hrests hready)
    · exact .inr haway
  exact hset.same (same_removeThread hremove)

theorem Balanced.wake {allocated : Bool}
    (hready : Ready (state.threads thread) ∨ (state.threads thread).schedState = .blocked ∨
      (state.threads thread).schedState = .shuttingDown ∨
        (state.threads thread).schedState = .zombie ∨ Away cpus (state.threads thread)) :
    Balanced cpus (wake cpu allocated state thread).2 := by
  unfold CpuLoads.wake
  split
  · exact h
  · exact h
  · exact h
  · exact h
  · exact h
  all_goals
    next hstate =>
    refine h.wakeUp (.inr ?_)
    simpa [Ready, hstate] using hready

omit h

end

section

variable {cpus : Finset Nat} {state next : State} {request : Nat × Call} {ret : Kerror}

theorem Fresh.balanced (h : Fresh state) : Balanced cpus state := by
  constructor
  · intro cpu _
    refine ⟨∅, fun thread => ?_, ?_⟩
    · exact iff_of_false (Finset.notMem_empty thread) fun hon => h.threads thread hon.1
    · rw [h.load, Finset.card_empty]
  · rw [h.bankLoad, Finset.sum_congr rfl fun cpu _ => h.load cpu, Finset.sum_const_zero]

theorem Balanced.step (h : Balanced cpus state) (hsound : Sound cpus state request)
    (hstep : step state request = some (ret, next)) : Balanced cpus next := by
  obtain ⟨cpu, call⟩ := request
  cases call with
  | schedule answers thread =>
    obtain ⟨hcpu, hsound⟩ := hsound
    have hnext := h.schedule hcpu hsound
    rw [some.inj hstep] at hnext
    exact hnext
  | pull answers =>
    obtain ⟨_, hpull, heq⟩ := map_eq_some_iff.mp hstep
    cases heq
    exact (pull_balanced h hsound.2 hpull).1
  | yield allocated thread =>
    cases some.inj hstep
    exact h.wakeUp hsound.2
  | block thread =>
    obtain ⟨_, hremove, heq⟩ := map_eq_some_iff.mp hstep
    cases heq
    exact h.rest (by decide) hsound.2 hremove
  | unblock allocated thread =>
    have hnext : Balanced cpus (unblock cpu allocated state thread).2 := h.wakeUp hsound.2
    rw [some.inj hstep] at hnext
    exact hnext
  | dormant thread =>
    obtain ⟨_, hremove, heq⟩ := map_eq_some_iff.mp hstep
    cases heq
    exact h.rest (by decide) hsound.2 hremove
  | wake allocated thread =>
    have hnext : Balanced cpus (CpuLoads.wake cpu allocated state thread).2 := h.wake hsound.2
    rw [some.inj hstep] at hnext
    exact hnext

/-- The loads are right in every state, and a pull leaves them as they are. -/
theorem loads_balanced (cpus : Finset Nat) {state : State}
    (h : Reachable Fresh (GuardedStep step (Sound cpus)) state) : Balanced cpus state ∧
      ∀ cpu answers next, Sound cpus state (cpu, .pull answers) →
        pull cpu state answers = some next →
          next.load = state.load ∧ next.bankLoad = state.bankLoad := by
  have hbalanced : Balanced cpus state := by
    refine h.invariant (fun state hfresh => hfresh.balanced) ?_
    rintro state next hstate ⟨request, ret, hsound, hstep⟩
    exact hstate.step hsound hstep
  refine ⟨hbalanced, ?_⟩
  intro cpu answers next hsound hpull
  exact (pull_balanced hbalanced hsound.2 hpull).2

end

def boot : State where
  threads := fun thread => ⟨.unscheduled, .roundRobin, 4, false, thread == 3, none⟩
  runQueues := fun _ _ => emptyQueue Ptr
  currentThread := fun _ => 0
  load := fun _ => 0
  bankLoad := 0

theorem fresh_boot : Fresh boot := by
  refine ⟨?_, fun _ => rfl, rfl⟩
  rintro thread (hrunnable | hrunning)
  · cases hrunnable
  · cases hrunning

def granted : Answers := ⟨.success, true⟩

def switching : List (Nat × Call) :=
  [(0, .schedule granted 1), (0, .schedule granted 2), (1, .schedule granted 3),
    (0, .pull [granted, granted]), (0, .yield true 1)]

def refused : Answers := ⟨.memoryNomem, true⟩

theorem loads_balanced_switching : ∃ answers last, run step boot switching = some (answers, last) ∧
      (last.load 0, last.load 1, last.bankLoad) = (2, 1, 3) ∧ Balanced {0, 1} last ∧
        (∀ next, pull 0 last [granted, granted] = some next →
          next.load = last.load ∧ next.bankLoad = last.bankLoad) ∧
        ∀ next, pull 1 last [refused, refused, refused] = some next →
          next.load = last.load ∧ next.bankLoad = last.bankLoad := by
  have hrun : ((run step boot switching).any fun r =>
      decide ((r.2.load 0, r.2.load 1, r.2.bankLoad) = (2, 1, 3) ∧
        Sound {0, 1} r.2 (0, .pull [granted, granted]) ∧
          Sound {0, 1} r.2 (1, .pull [refused, refused, refused]))) = true := by
    decide +kernel
  obtain ⟨⟨answers, last⟩, hlast, hsound⟩ := (any_eq_true _ _).mp hrun
  obtain ⟨hloads, hfirst, hsecond⟩ := of_decide_eq_true hsound
  obtain ⟨hbalanced, hpull⟩ := loads_balanced {0, 1}
    (reachable_of_run (reachable_of_init fresh_boot) (by decide +kernel) hlast)
  exact ⟨answers, last, hlast, hloads, hbalanced, fun next => hpull 0 _ next hfirst,
    fun next => hpull 1 _ next hsecond⟩

def blocking : List (Nat × Call) :=
  [(0, .schedule granted 1), (0, .block 1)]

theorem blocking_not_balanced :
    ¬ ∀ state, Reachable Fresh (GuardedStep step fun _ request => request.1 ∈ ({0} : Finset Nat))
        state →
      Balanced {0} state ∧
        ∀ answers next, pull 0 state answers = some next →
          next.load = state.load ∧ next.bankLoad = state.bankLoad := by
  intro hclaim
  have hrun : (run step boot blocking).map (fun r => (r.2.load 0, r.2.threads)) =
      some (1, ((scheduled 0 boot 1).setSchedState 1 .blocked).threads) := rfl
  obtain ⟨⟨answers, last⟩, hlast, heq⟩ := map_eq_some_iff.mp hrun
  obtain ⟨hload, hthreads⟩ := Prod.mk.inj heq
  obtain ⟨threads, hmem, hcard⟩ := (hclaim last
    (reachable_of_run (reachable_of_init fresh_boot) (by decide +kernel) hlast)).1.load 0
      (Finset.mem_singleton_self 0)
  have hnone : ∀ thread, ¬ On last 0 thread := by
    intro thread hon
    rw [On, hthreads] at hon
    rcases eq_or_ne thread 1 with rfl | hne
    · exact absurd hon.1 (by decide)
    · simp [State.setSchedState, State.setThread, scheduled, hne, boot, Ready] at hon
  have hempty : threads = ∅ :=
    Finset.eq_empty_of_forall_notMem fun thread hin => hnone thread ((hmem thread).mp hin)
  rw [hload, hempty, Finset.card_empty] at hcard
  exact absurd hcard (by decide)

end Zambesii.CpuLoads
