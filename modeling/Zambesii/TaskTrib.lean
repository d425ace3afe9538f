import Mathlib.Logic.Function.Basic
import Mathlib.Tactic.Common

/-!
`TaskTrib::block` and `TaskTrib::unblock`. Neither takes a lock of its own around
the thread it acts on, so each access to the thread's state and to the run queue of
its CPU is a step of its own.
-/

namespace Zambesii.TaskTrib

inductive SchedState
  | invalid
  | unscheduled
  | dormant
  | runnable
  | running
  | blocked
  | shuttingDown
  | zombie
deriving DecidableEq

structure Thread where
  schedState : SchedState
  runQueueEntries : Nat
deriving DecidableEq

def markBlocked (thread : Thread) : Thread :=
  { thread with schedState := .blocked }

/-- The second half of `TaskStream::block`; `PrioQueue::remove` takes out one entry,
if there is one. -/
def leaveRunQueue (thread : Thread) : Thread :=
  { thread with runQueueEntries := thread.runQueueEntries - 1 }

def markRunnable (thread : Thread) : Thread :=
  { thread with schedState := .runnable }

def enterRunQueue (thread : Thread) : Thread :=
  { thread with runQueueEntries := thread.runQueueEntries + 1 }

/-- `TaskStream::pull` when it picks this thread. -/
def pull (thread : Thread) : Option Thread :=
  if thread.runQueueEntries = 0 then none
  else some ⟨.running, thread.runQueueEntries - 1⟩

inductive UnblockPc
  | testing
  | marking
  | entering
deriving DecidableEq

/-- The next step of `unblock`, and where the caller is after it. It fails where the
return value would make `addItem` panic. -/
def unblockStep (thread : Thread) : UnblockPc → Option (Option UnblockPc × Thread)
  | .testing =>
    match thread.schedState with
    | .runnable | .running => some (none, thread)
    | .blocked => some (some .marking, thread)
    | _ => none
  | .marking => some (some .entering, markRunnable thread)
  | .entering => some (none, enterRunQueue thread)

def Scheduled (thread : Thread) : Prop :=
  thread.schedState = .runnable ∨ thread.schedState = .running ∨ thread.schedState = .blocked

inductive Unblocks (thread : Thread) : UnblockPc → Option UnblockPc → Thread → Prop
  | awake : thread.schedState ≠ .blocked → Unblocks thread .testing none thread
  | asleep : thread.schedState = .blocked → Unblocks thread .testing (some .marking) thread
  | mark : Unblocks thread .marking (some .entering) (markRunnable thread)
  | enter : Unblocks thread .entering none (enterRunQueue thread)

variable {thread thread' : Thread} {pc : UnblockPc} {pc' : Option UnblockPc}

theorem unblockStep_unblocks (h : Scheduled thread) (pc : UnblockPc) :
    ∃ pc' thread', unblockStep thread pc = some (pc', thread') ∧
      Unblocks thread pc pc' thread' := by
  cases pc with
  | testing =>
    rcases h with hstate | hstate | hstate
    · exact ⟨_, _, by simp [unblockStep, hstate], .awake (by simp [hstate])⟩
    · exact ⟨_, _, by simp [unblockStep, hstate], .awake (by simp [hstate])⟩
    · exact ⟨_, _, by simp [unblockStep, hstate], .asleep hstate⟩
  | marking => exact ⟨_, _, rfl, .mark⟩
  | entering => exact ⟨_, _, rfl, .enter⟩

variable (h : Unblocks thread pc pc' thread')

include h

theorem Unblocks.scheduled (hscheduled : Scheduled thread) : Scheduled thread' := by
  rcases h with _ | _ | _ | _
  · exact hscheduled
  · exact hscheduled
  · exact .inl rfl
  · exact hscheduled

theorem Unblocks.pending (hblocked : thread'.schedState = .blocked) (hpc : pc ≠ .entering) :
    ∃ next, pc' = some next ∧ next ≠ .entering := by
  rcases h with hawake | _ | _ | _
  · exact absurd hblocked hawake
  · exact ⟨_, rfl, by decide⟩
  · exact absurd hblocked (by simp [markRunnable])
  · exact absurd rfl hpc

theorem Unblocks.blocked_of_blocked
    (hblocked : thread'.schedState = .blocked) : thread.schedState = .blocked := by
  rcases h with _ | _ | _ | _
  · exact hblocked
  · exact hblocked
  · exact absurd hblocked (by simp [markRunnable])
  · exact hblocked

omit h

/-- A thread that is about to leave its run queue, or has left it, is blocked, or is being
entered into the run queue, or is in it. -/
structure Wakeable (leaving left entering : Prop) (thread : Thread) : Prop where
  leaving : leaving → thread.schedState = .blocked ∨ entering
  left : left → thread.schedState = .blocked ∨ entering ∨ 0 < thread.runQueueEntries

theorem wakeable_running {leaving left entering : Prop} (hleaving : ¬leaving) (hleft : ¬left) :
    Wakeable leaving left entering thread :=
  ⟨fun h => absurd h hleaving, fun h => absurd h hleft⟩

theorem Unblocks.wakeable {leaving left entering entering' : Prop}
    (hunblocks : Unblocks thread pc pc' thread') (h : Wakeable leaving left entering thread)
    (hunraced : pc = .entering → ¬leaving) (hkept : pc ≠ .entering → entering → entering')
    (hnew : pc' = some .entering → entering') : Wakeable leaving left entering' thread' := by
  rcases hunblocks with _ | _ | _ | _
  · exact ⟨fun hpc => (h.leaving hpc).imp_right (hkept (by decide)),
      fun hpc => (h.left hpc).imp_right (Or.imp_left (hkept (by decide)))⟩
  · exact ⟨fun hpc => (h.leaving hpc).imp_right (hkept (by decide)),
      fun hpc => (h.left hpc).imp_right (Or.imp_left (hkept (by decide)))⟩
  · exact ⟨fun _ => .inr (hnew rfl), fun _ => .inr (.inl (hnew rfl))⟩
  · exact ⟨fun hpc => absurd hpc (hunraced rfl), fun _ => .inr (.inr (Nat.succ_pos _))⟩

/-- A caller of `unblock` that does not change stays where it was. -/
theorem exists_update {P α : Type} [DecidableEq P] {calls : P → Option α} {stage : α}
    {caller : P} (call : Option α) (hne : calls caller ≠ some stage)
    (h : ∃ other, calls other = some stage) :
    ∃ other, Function.update calls caller call other = some stage := by
  obtain ⟨other, hother⟩ := h
  have hdiff : other ≠ caller := by
    rintro rfl
    exact hne hother
  exact ⟨other, by rw [Function.update_of_ne hdiff, hother]⟩

end Zambesii.TaskTrib
