import Zambesii.SingleWaiterQueue

/-!
`TimerTrib::sEventProcessor`: the thread that waits on a control queue and on the
event queues of up to six timer devices. It polls each of them without blocking, and
calls `TaskTrib::block` after a pass that found nothing. No lock is held between the
polls and that call.

Every poll is one step, and so is the critical section of every `addItem`. What
`tick` does with an event does not touch the queues waited on.
-/

namespace Zambesii.TimerEventProcessor

open Function Option
open KernelTypes LinkedCells Runs
open SingleWaiterQueue (Queue addItem popHead addItem_keeps popHead_keeps)
open TaskTrib

inductive Message
  | queueLatched (timerQueue : Nat)
  | queueUnlatched (timerQueue : Nat)
  | exitThread
  | invalidType
deriving DecidableEq

/-- The message objects, and the event queue of the device behind each timer queue. -/
structure Config where
  messageAt : Ptr → Message
  eventQueueOf : Nat → Nat

inductive QueueId
  | control
  | event (queue : Nat)
deriving DecidableEq

structure WaitSlot where
  timerQueue : Nat
  eventQueue : Nat
deriving DecidableEq

inductive EventPc
  | polling
  | handling (message : Message)
  | scanning (slot : Nat) (messagesWereFound : Bool)
  | marking
  | leaving
  | parked
deriving DecidableEq

section

variable {P : Type} [DecidableEq P]

/-- `unblocks` says to which queue each producer has added an item, and where it stands
in the `unblock` after it. -/
structure State (P : Type) where
  queues : QueueId → Queue
  waitSlots : Fin 6 → Option WaitSlot
  thread : Thread
  event : EventPc
  unblocks : P → Option (QueueId × UnblockPc)

def initialState (P : Type) (mem : QueueId → Memory Ptr) : State P where
  queues := fun queue => ⟨HeapDoubleList.empty (mem queue), decide (queue = .control)⟩
  waitSlots := fun _ => none
  thread := ⟨.running, 0⟩
  event := .polling
  unblocks := fun _ => none

def getFreeWaitSlot (waitSlots : Fin 6 → Option WaitSlot) : Option (Fin 6) :=
  (List.finRange 6).find? fun slot => (waitSlots slot).isNone

def releaseWaitSlotFor (waitSlots : Fin 6 → Option WaitSlot) (timerQueue : Nat) :
    Fin 6 → Option WaitSlot :=
  fun slot =>
    if (waitSlots slot).map WaitSlot.timerQueue = some timerQueue then none else waitSlots slot

def processQueueLatchedMessage (config : Config) (state : State P) (timerQueue : Nat) : State P :=
  match getFreeWaitSlot state.waitSlots with
  | none => state
  | some slot =>
    let eventQueue := config.eventQueueOf timerQueue
    { state with
      waitSlots := update state.waitSlots slot (some ⟨timerQueue, eventQueue⟩)
      queues := update state.queues (.event eventQueue)
        { state.queues (.event eventQueue) with threadIsSet := true } }

/-- The `switch` over the message's type. -/
def processMessage (config : Config) (state : State P) : Message → State P
  | .queueLatched timerQueue => processQueueLatchedMessage config state timerQueue
  | .queueUnlatched timerQueue =>
    { state with waitSlots := releaseWaitSlotFor state.waitSlots timerQueue }
  | .exitThread | .invalidType => state

def eventStep (config : Config) (state : State P) : Option (State P) :=
  match state.event with
  | .polling => do
      let (item, queue) ← popHead (state.queues .control)
      some { state with
        queues := update state.queues .control queue
        event := if item ≠ 0 then .handling (config.messageAt item) else .scanning 0 false }
  | .handling message => some { processMessage config state message with event := .polling }
  | .scanning slot messagesWereFound =>
    if hslot : slot < 6 then
      match state.waitSlots ⟨slot, hslot⟩ with
      | none => some { state with event := .scanning (slot + 1) messagesWereFound }
      | some waitSlot => do
          let (item, queue) ← popHead (state.queues (.event waitSlot.eventQueue))
          some { state with
            queues := update state.queues (.event waitSlot.eventQueue) queue
            event := .scanning (slot + 1) (messagesWereFound || decide (item ≠ 0)) }
    else some { state with event := if messagesWereFound then .polling else .marking }
  | .marking => some { state with thread := markBlocked state.thread, event := .leaving }
  | .leaving => some { state with thread := leaveRunQueue state.thread, event := .parked }
  | .parked => (pull state.thread).map fun thread =>
    { state with thread := thread, event := .polling }

/-- The critical section of a producer's `addItem`. -/
def addItemStep (state : State P) (producer : P) (target : QueueId) (node : Option Ptr)
    (item : Ptr) : Option (State P) :=
  if state.unblocks producer ≠ none then none
  else do
    let (ret, queue) ← addItem (state.queues target) node item
    if ret ≠ .success then some state
    else some { state with
      queues := update state.queues target queue
      unblocks := update state.unblocks producer (some (target, .testing)) }

def producerStep (state : State P) (producer : P) : Option (State P) := do
  let (target, pc) ← state.unblocks producer
  let (pc, thread) ← unblockStep state.thread pc
  some { state with
    thread := thread
    unblocks := update state.unblocks producer (pc.map fun pc => (target, pc)) }

inductive Action (P : Type)
  | event
  | addItem (producer : P) (target : QueueId) (node : Option Ptr) (item : Ptr)
  | unblock (producer : P)
deriving DecidableEq

def step (config : Config) (state : State P) (action : Action P) : Option (Unit × State P) :=
  (match action with
    | .event => eventStep config state
    | .addItem producer target node item => addItemStep state producer target node item
    | .unblock producer => producerStep state producer).map fun state => ((), state)

/-- A parked thread is in the run queue; a producer is done with its last item, and
what it adds is a message or an event object. -/
def Enabled (state : State P) : Action P → Prop
  | .event => state.event = .parked → 0 < state.thread.runQueueEntries
  | .addItem producer target node item => state.unblocks producer = none ∧ item ≠ 0 ∧
      ∀ address ∈ node, HeapDoubleList.Allocated (state.queues target).list address
  | .unblock producer => state.unblocks producer ≠ none

instance (state : State P) : ∀ action, Decidable (Enabled state action)
  | .event => inferInstanceAs (Decidable (_ → _))
  | .addItem _ _ _ _ => inferInstanceAs (Decidable (_ ∧ _ ∧ ∀ _ ∈ _, _))
  | .unblock _ => inferInstanceAs (Decidable (_ ≠ _))

def Waited (state : State P) (queue : QueueId) : Prop :=
  queue = .control ∨ ∃ slot, ∃ waitSlot ∈ state.waitSlots slot,
    queue = .event waitSlot.eventQueue

instance (state : State P) (queue : QueueId) : Decidable (Waited state queue) :=
  inferInstanceAs (Decidable (_ ∨ ∃ _ : Fin 6, ∃ _ ∈ _, _))

/-- At `pc` the thread has polled the queue in a pass that has found nothing, and has
not yet marked itself blocked. -/
def PolledAt (state : State P) (queue : QueueId) : EventPc → Prop
  | .scanning slot false => queue = .control ∨ ∃ earlier : Fin 6, earlier.val < slot ∧
      ∃ waitSlot ∈ state.waitSlots earlier, queue = .event waitSlot.eventQueue
  | .marking => Waited state queue
  | _ => False

instance (state : State P) (queue : QueueId) : ∀ pc, Decidable (PolledAt state queue pc)
  | .scanning _ false => inferInstanceAs (Decidable (_ ∨ ∃ _ : Fin 6, _ ∧ ∃ _ ∈ _, _))
  | .marking => inferInstanceAs (Decidable (Waited state queue))
  | .scanning _ true | .polling | .handling _ | .leaving | .parked =>
    inferInstanceAs (Decidable False)

def Polled (state : State P) (queue : QueueId) : Prop :=
  PolledAt state queue state.event

instance (state : State P) (queue : QueueId) : Decidable (Polled state queue) :=
  inferInstanceAs (Decidable (PolledAt state queue state.event))

/-- No producer looks at the thread's state after the thread polled the producer's
queue in a pass that has found nothing, and before it has marked itself blocked. -/
def Noticed (state : State P) : Action P → Prop
  | .unblock producer => ∀ pending ∈ state.unblocks producer, pending.2 = .testing →
      ¬ Polled state pending.1
  | _ => True

instance (state : State P) : ∀ action, Decidable (Noticed state action)
  | .unblock _ => inferInstanceAs (Decidable (∀ _ ∈ _, _ → ¬ _))
  | .event | .addItem _ _ _ _ => inferInstanceAs (Decidable True)

/-- No producer puts the thread into the run queue while the thread, already marked
blocked, is about to leave it. -/
def Unraced (state : State P) : Action P → Prop
  | .unblock producer => ∀ pending ∈ state.unblocks producer, pending.2 = .entering →
      state.event ≠ .leaving
  | _ => True

instance (state : State P) : ∀ action, Decidable (Unraced state action)
  | .unblock _ => inferInstanceAs (Decidable (∀ _ ∈ _, _ → _))
  | .event | .addItem _ _ _ _ => inferInstanceAs (Decidable True)

/-- There are items in a queue that the thread waits on, and nobody is about to unblock it. -/
def Unnoticed (state : State P) : Prop :=
  (∃ queue, Waited state queue ∧ (state.queues queue).list.head ≠ 0) ∧
    ∀ producer, state.unblocks producer = none

def LostWakeup (state : State P) : Prop :=
  state.thread.schedState = .blocked ∧ Unnoticed state

/-- The thread is switched out and in no run queue. -/
def Stranded (state : State P) : Prop :=
  state.event = .parked ∧ state.thread.runQueueEntries = 0 ∧ Unnoticed state

structure Consistent (state : State P) (contents : QueueId → List Ptr) : Prop where
  keeps : ∀ queue, HeapDoubleList.Keeps (state.queues queue).list (contents queue)
  nonnull : ∀ queue, ∀ item ∈ contents queue, item ≠ 0
  scheduled : Scheduled state.thread
  awake : state.thread.schedState = .blocked → state.event = .leaving ∨ state.event = .parked
  noticed : ∀ queue, Polled state queue → contents queue ≠ [] →
    ∃ producer, state.unblocks producer = some (queue, .testing)
  woken : state.thread.schedState = .blocked → ∀ queue, Waited state queue →
    contents queue ≠ [] → ∃ producer target pc,
      state.unblocks producer = some (target, pc) ∧ pc ≠ .entering

theorem consistent_initialState (mem : QueueId → Memory Ptr) :
    Consistent (initialState P mem) fun _ => [] where
  keeps := fun queue => HeapDoubleList.keeps_empty (mem queue)
  nonnull := by simp
  scheduled := .inr (.inl rfl)
  awake := by simp [initialState]
  noticed := by simp
  woken := by simp

section

variable {state : State P} {contents : QueueId → List Ptr}
  {target : QueueId} {slot : Nat} {found : Bool} {producer : P}

variable (h : Consistent state contents)

include h

theorem keeps_update {queue : Queue} {items : List Ptr}
    (hkeeps : HeapDoubleList.Keeps queue.list items) (other : QueueId) :
    HeapDoubleList.Keeps (update state.queues target queue other).list
      (update contents target items other) := by
  rcases eq_or_ne other target with rfl | hne
  · simpa using hkeeps
  · simpa [hne] using h.keeps other

theorem nonnull_tail (target other : QueueId) :
    ∀ item ∈ update contents target (contents target).tail other, item ≠ 0 := by
  intro item hitem
  rcases eq_or_ne other target with rfl | hne
  · rw [update_self] at hitem
    exact h.nonnull other item (List.mem_of_mem_tail hitem)
  · rw [update_of_ne hne] at hitem
    exact h.nonnull other item hitem

theorem not_blocked (hleaving : state.event ≠ .leaving)
    (hparked : state.event ≠ .parked) : state.thread.schedState ≠ .blocked :=
  fun hblocked => (h.awake hblocked).elim hleaving hparked

theorem headD_eq_zero_iff (queue : QueueId) :
    (contents queue).headD 0 = 0 ↔ contents queue = [] := by
  cases hitems : contents queue with
  | nil => simp
  | cons item rest => simp [h.nonnull queue item (by simp [hitems])]

omit h

theorem polling_consistent (config : Config) (h : Consistent state contents)
    (hpc : state.event = .polling) :
    ∃ next contents', eventStep config state = some next ∧ Consistent next contents' := by
  obtain ⟨list, hpop, hkeeps⟩ := popHead_keeps (h.keeps .control)
  have hblocked := not_blocked h (by simp [hpc]) (by simp [hpc])
  rcases em ((contents .control).headD 0 = 0) with hzero | hitem
  · have hnil := (headD_eq_zero_iff h .control).mp hzero
    rw [hzero] at hpop
    refine ⟨{ state with
        queues := update state.queues .control
          { state.queues .control with list := list }
        event := .scanning 0 false }, update contents .control (contents .control).tail,
      by simp [eventStep, hpc, hpop], ?_⟩
    refine ⟨keeps_update h hkeeps, nonnull_tail h .control, h.scheduled,
      fun hb => absurd hb hblocked, ?_, fun hb => absurd hb hblocked⟩
    rintro queue (rfl | ⟨_, hlt, -⟩) hne
    · simp [hnil] at hne
    · exact absurd hlt (Nat.not_lt_zero _)
  · refine ⟨{ state with
        queues := update state.queues .control
          { state.queues .control with list := list }
        event := .handling (config.messageAt ((contents .control).headD 0)) },
      update contents .control (contents .control).tail,
      by simp only [eventStep, hpc, hpop]; simp only [some_bind,
        ne_eq, hitem, not_false_iff, if_true], ?_⟩
    exact ⟨keeps_update h hkeeps, nonnull_tail h .control, h.scheduled,
      fun hb => absurd hb hblocked, fun _ hpolled => hpolled.elim,
      fun hb => absurd hb hblocked⟩

theorem handling_consistent (config : Config) (h : Consistent state contents)
    {message : Message} (hpc : state.event = .handling message) :
    ∃ next, eventStep config state = some next ∧ Consistent next contents := by
  have hblocked := not_blocked h (by simp [hpc]) (by simp [hpc])
  have hthread : (processMessage config state message).thread = state.thread := by
    cases message with
    | queueLatched timerQueue =>
      simp only [processMessage, processQueueLatchedMessage]
      split <;> rfl
    | queueUnlatched timerQueue => rfl
    | exitThread => rfl
    | invalidType => rfl
  have hlist : ∀ queue, ((processMessage config state message).queues queue).list =
      (state.queues queue).list := by
    intro queue
    cases message with
    | queueLatched timerQueue =>
      simp only [processMessage, processQueueLatchedMessage]
      split
      · rfl
      · rcases eq_or_ne queue (.event (config.eventQueueOf timerQueue)) with rfl | hne
        · simp
        · simp [hne]
    | queueUnlatched timerQueue => rfl
    | exitThread => rfl
    | invalidType => rfl
  refine ⟨_, by simp only [eventStep, hpc]; rfl, ?_, h.nonnull, ?_, ?_, ?_, ?_⟩
  · intro queue
    rw [hlist]
    exact h.keeps queue
  · rw [hthread]
    exact h.scheduled
  · rw [hthread]
    exact fun hb => absurd hb hblocked
  · intro queue hpolled
    exact absurd hpolled (by simp [Polled, PolledAt])
  · rw [hthread]
    exact fun hb => absurd hb hblocked

theorem polled_succ (hslot : slot < 6) {queue : QueueId}
    (hpc : state.event = .scanning slot false) {queues : QueueId → Queue}
    (h : Polled { state with queues := queues, event := .scanning (slot + 1) found } queue) :
    found = false ∧ (Polled state queue ∨ ∃ waitSlot,
      state.waitSlots ⟨slot, hslot⟩ = some waitSlot ∧ queue = .event waitSlot.eventQueue) := by
  cases found with
  | true => exact absurd h (by simp [Polled, PolledAt])
  | false =>
    refine ⟨rfl, ?_⟩
    rw [Polled, hpc]
    rcases h with rfl | ⟨earlier, hlt, waitSlot, hwait, rfl⟩
    · exact .inl (.inl rfl)
    · rcases Nat.lt_succ_iff_lt_or_eq.mp hlt with hlt | heq
      · exact .inl (.inr ⟨earlier, hlt, waitSlot, hwait, rfl⟩)
      · obtain rfl : earlier = ⟨slot, hslot⟩ := Fin.ext heq
        exact .inr ⟨waitSlot, hwait, rfl⟩

theorem scanning_consistent (config : Config) (h : Consistent state contents)
    (hpc : state.event = .scanning slot found) (hslot : slot < 6) :
    ∃ next contents', eventStep config state = some next ∧ Consistent next contents' := by
  have hblocked := not_blocked h (by simp [hpc]) (by simp [hpc])
  cases hwait : state.waitSlots ⟨slot, hslot⟩ with
  | none =>
    refine ⟨_, contents, by simp only [eventStep, hpc, hslot, dif_pos, hwait]; rfl, ?_⟩
    refine ⟨h.keeps, h.nonnull, h.scheduled, fun hb => absurd hb hblocked, ?_,
      fun hb => absurd hb hblocked⟩
    intro queue hpolled
    cases found with
    | true => exact absurd hpolled (by simp [Polled, PolledAt])
    | false =>
      obtain ⟨-, hpolled | ⟨waitSlot, hsome, -⟩⟩ := polled_succ hslot hpc hpolled
      · exact h.noticed queue hpolled
      · rw [hwait] at hsome
        contradiction
  | some waitSlot =>
    obtain ⟨list, hpop, hkeeps⟩ := popHead_keeps (h.keeps (.event waitSlot.eventQueue))
    refine ⟨_, update contents (.event waitSlot.eventQueue)
        (contents (.event waitSlot.eventQueue)).tail,
      by simp only [eventStep, hpc, hslot, dif_pos, hwait, hpop]; rfl, ?_⟩
    refine ⟨keeps_update h hkeeps, nonnull_tail h _, h.scheduled,
      fun hb => absurd hb hblocked, ?_, fun hb => absurd hb hblocked⟩
    intro queue hpolled hne
    cases found with
    | true => exact absurd hpolled (by simp [Polled, PolledAt])
    | false =>
      obtain ⟨hfound, hpolled⟩ := polled_succ hslot hpc hpolled
      have hnil : contents (.event waitSlot.eventQueue) = [] := by
        refine (headD_eq_zero_iff h _).mp ?_
        simpa using hfound
      have hcontents : contents queue ≠ [] := by
        rcases eq_or_ne queue (.event waitSlot.eventQueue) with rfl | hdiff
        · simp [hnil] at hne
        · simpa [hdiff] using hne
      rcases hpolled with hpolled | ⟨waitSlot', hsome, rfl⟩
      · exact h.noticed queue hpolled hcontents
      · rw [hwait] at hsome
        cases hsome
        exact absurd hnil hcontents

theorem scanned_consistent (config : Config) (h : Consistent state contents)
    (hpc : state.event = .scanning slot found) (hslot : ¬ slot < 6) :
    ∃ next, eventStep config state = some next ∧ Consistent next contents := by
  have hblocked := not_blocked h (by simp [hpc]) (by simp [hpc])
  refine ⟨_, by simp only [eventStep, hpc, hslot, dif_neg, not_false_iff]; rfl, ?_⟩
  refine ⟨h.keeps, h.nonnull, h.scheduled, fun hb => absurd hb hblocked, ?_,
    fun hb => absurd hb hblocked⟩
  intro queue hpolled
  cases found with
  | true => exact absurd hpolled (by simp [Polled, PolledAt])
  | false =>
    refine h.noticed queue ?_
    rw [Polled, hpc]
    rcases hpolled with rfl | ⟨waiting, waitSlot, hwait, rfl⟩
    · exact .inl rfl
    · exact .inr ⟨waiting, by omega, waitSlot, hwait, rfl⟩

theorem event_consistent (config : Config) (h : Consistent state contents)
    (henabled : Enabled state .event) :
    ∃ next contents', eventStep config state = some next ∧ Consistent next contents' := by
  cases hpc : state.event with
  | polling => exact polling_consistent config h hpc
  | handling message =>
    obtain ⟨next, hstep, hnext⟩ := handling_consistent config h hpc
    exact ⟨next, contents, hstep, hnext⟩
  | scanning slot found =>
    rcases lt_or_ge slot 6 with hslot | hslot
    · exact scanning_consistent config h hpc hslot
    · obtain ⟨next, hstep, hnext⟩ :=
        scanned_consistent config h hpc (not_lt_of_ge hslot)
      exact ⟨next, contents, hstep, hnext⟩
  | marking =>
    refine ⟨{ state with thread := markBlocked state.thread, event := .leaving }, contents,
      by simp [eventStep, hpc], h.keeps, h.nonnull, .inr (.inr rfl), fun _ => .inl rfl,
      fun _ hpolled => hpolled.elim, ?_⟩
    intro _ queue hwaited hne
    have hpolled : Polled state queue := by
      rw [Polled, hpc]
      exact hwaited
    obtain ⟨producer, hproducer⟩ := h.noticed queue hpolled hne
    exact ⟨producer, queue, .testing, hproducer, by decide⟩
  | leaving =>
    exact ⟨{ state with thread := leaveRunQueue state.thread, event := .parked }, contents,
      by simp [eventStep, hpc], h.keeps, h.nonnull, h.scheduled, fun _ => .inr rfl,
      fun _ hpolled => hpolled.elim, h.woken⟩
  | parked =>
    have hentries : state.thread.runQueueEntries ≠ 0 := ne_of_gt (henabled hpc)
    exact ⟨{ state with
        thread := ⟨.running, state.thread.runQueueEntries - 1⟩
        event := .polling }, contents,
      by simp [eventStep, hpc, pull, hentries], h.keeps, h.nonnull, .inr (.inl rfl), by simp,
      fun _ hpolled => hpolled.elim, by simp⟩

variable (h : Consistent state contents)

include h

theorem added_consistent {item : Ptr} {queue : Queue}
    (hidle : state.unblocks producer = none) (hitem : item ≠ 0)
    (hkeeps : HeapDoubleList.Keeps queue.list (contents target ++ [item])) :
    Consistent { state with
      queues := update state.queues target queue
      unblocks := update state.unblocks producer (some (target, .testing)) }
      (update contents target (contents target ++ [item])) := by
  refine ⟨keeps_update h hkeeps, ?_, h.scheduled, h.awake, ?_, ?_⟩
  · intro other item' hitem'
    rcases eq_or_ne other target with rfl | hne
    · rw [update_self, List.mem_append, List.mem_singleton] at hitem'
      rcases hitem' with hmem | rfl
      · exact h.nonnull other item' hmem
      · exact hitem
    · rw [update_of_ne hne] at hitem'
      exact h.nonnull other item' hitem'
  · intro other hpolled hne
    rcases eq_or_ne other target with rfl | hdiff
    · exact ⟨producer, by simp⟩
    rw [update_of_ne hdiff] at hne
    obtain ⟨waker, hwaker⟩ := h.noticed other hpolled hne
    have hwaker' : waker ≠ producer := by
      rintro rfl
      rw [hidle] at hwaker
      contradiction
    exact ⟨waker, by simpa [hwaker'] using hwaker⟩
  · intro _ _ _ _
    exact ⟨producer, target, .testing, by simp, by decide⟩

theorem addItem_consistent {node : Option Ptr} {item : Ptr}
    (henabled : Enabled state (.addItem producer target node item)) :
    ∃ next contents', addItemStep state producer target node item = some next ∧
      Consistent next contents' := by
  obtain ⟨hidle, hitem, hnode⟩ := henabled
  rcases Bool.eq_false_or_eq_true (state.queues target).threadIsSet with hset | hset
  · cases node with
    | none =>
      have hadd : addItem (state.queues target) none item =
          some (.memoryNomem, state.queues target) := by
        rw [addItem, if_neg (by simp [hset])]
        rfl
      exact ⟨state, contents, by simp [addItemStep, hidle, hadd], h⟩
    | some address =>
      obtain ⟨list, hadd, hkeeps⟩ :=
        addItem_keeps (h.keeps target) hset (hnode address rfl) item
      refine ⟨{ state with
          queues := update state.queues target
            { state.queues target with list := list }
          unblocks := update state.unblocks producer (some (target, .testing)) },
        update contents target (contents target ++ [item]),
        by simp [addItemStep, hidle, hadd], ?_⟩
      exact added_consistent h hidle hitem hkeeps
  · exact ⟨state, contents, by simp [addItemStep, hidle, addItem, hset], h⟩

theorem unblock_consistent
    (henabled : Enabled state (.unblock producer)) (hnoticed : Noticed state (.unblock producer)) :
    ∃ next, producerStep state producer = some next ∧ Consistent next contents := by
  obtain ⟨⟨target, pc⟩, hpc⟩ := ne_none_iff_exists'.mp henabled
  obtain ⟨pc', thread, hstep, hunblocks⟩ := unblockStep_unblocks h.scheduled pc
  refine ⟨{ state with
      thread := thread
      unblocks := update state.unblocks producer (pc'.map fun pc => (target, pc)) },
    by simp [producerStep, hpc, hstep], h.keeps, h.nonnull, hunblocks.scheduled h.scheduled,
    fun hblocked => h.awake (hunblocks.blocked_of_blocked hblocked), ?_, ?_⟩
  · intro queue hpolled hne
    obtain ⟨other, hother⟩ := h.noticed queue hpolled hne
    have hdiff : other ≠ producer := by
      rintro rfl
      exact hnoticed _ hother rfl hpolled
    exact ⟨other, by simpa [hdiff] using hother⟩
  · intro hblocked queue hwaited hne
    obtain ⟨other, target', otherPc, hother, hpending⟩ :=
      h.woken (hunblocks.blocked_of_blocked hblocked) queue hwaited hne
    rcases eq_or_ne other producer with rfl | hdiff
    · rw [hpc] at hother
      cases hother
      obtain ⟨nextPc, rfl, hnextPc⟩ := hunblocks.pending hblocked hpending
      exact ⟨other, target, nextPc, by simp, hnextPc⟩
    · exact ⟨other, target', otherPc, by simpa [hdiff] using hother, hpending⟩

omit h

end

theorem step_consistent (config : Config) (state : State P) (action : Action P)
    (h : ∃ contents, Consistent state contents)
    (henabled : Enabled state action ∧ Noticed state action) :
    ∃ result next, step config state action = some (result, next) ∧
      ∃ contents, Consistent next contents := by
  obtain ⟨contents, h⟩ := h
  cases action with
  | event =>
    obtain ⟨next, contents', hstep, hnext⟩ := event_consistent config h henabled.1
    exact ⟨(), next, by simp [step, hstep], contents', hnext⟩
  | addItem producer target node item =>
    obtain ⟨next, contents', hstep, hnext⟩ := addItem_consistent h henabled.1
    exact ⟨(), next, by simp [step, hstep], contents', hnext⟩
  | unblock producer =>
    obtain ⟨next, hstep, hnext⟩ := unblock_consistent h henabled.1 henabled.2
    exact ⟨(), next, by simp [step, hstep], contents, hnext⟩

theorem Consistent.not_lostWakeup {state : State P} {contents : QueueId → List Ptr}
    (h : Consistent state contents) : ¬ LostWakeup state := by
  rintro ⟨hblocked, ⟨queue, hwaited, hhead⟩, hidle⟩
  have hne : contents queue ≠ [] :=
    fun hnil => hhead ((HeapDoubleList.head_eq_zero_iff (h.keeps queue)).mpr hnil)
  obtain ⟨producer, target, pc, hpc, -⟩ := h.woken hblocked queue hwaited hne
  rw [hidle producer] at hpc
  contradiction

/-- The thread, on its way out of the run queue or out of it, is in reach of the scheduler. -/
def Schedulable (state : State P) : Prop :=
  Wakeable (state.event = .leaving) (state.event = .parked)
    (∃ producer target, state.unblocks producer = some (target, .entering)) state.thread

section

variable {state next : State P} {producer : P} {config : Config}

variable (h : Schedulable state)

include h

theorem event_schedulable (hstep : eventStep config state = some next) : Schedulable next := by
  unfold eventStep at hstep
  split at hstep
  · obtain ⟨⟨item, queue⟩, -, hstep⟩ := bind_eq_some_iff.mp hstep
    cases hstep
    refine wakeable_running ?_ ?_ <;> dsimp only <;> split <;> simp
  · cases hstep
    exact wakeable_running (by simp) (by simp)
  · split at hstep
    · split at hstep
      · cases hstep
        exact wakeable_running (by simp) (by simp)
      · obtain ⟨⟨item, queue⟩, -, hstep⟩ := bind_eq_some_iff.mp hstep
        cases hstep
        exact wakeable_running (by simp) (by simp)
    · cases hstep
      refine wakeable_running ?_ ?_ <;> dsimp only <;> split <;> simp
  · cases hstep
    exact ⟨fun _ => .inl rfl, by simp⟩
  · rename_i hpc
    cases hstep
    refine ⟨by simp, fun _ => ?_⟩
    rcases h.leaving hpc with hblocked | hentering
    · exact .inl hblocked
    · exact .inr (.inl hentering)
  · obtain ⟨thread, -, rfl⟩ := map_eq_some_iff.mp hstep
    exact wakeable_running (by simp) (by simp)

theorem addItem_schedulable {target : QueueId} {node : Option Ptr} {item : Ptr}
    (hstep : addItemStep state producer target node item = some next) : Schedulable next := by
  unfold addItemStep at hstep
  split at hstep
  · contradiction
  rename_i hfree
  have hidle : state.unblocks producer = none := not_not.mp hfree
  have hentering : (∃ other target, state.unblocks other = some (target, .entering)) →
      ∃ other target', update state.unblocks producer (some (target, .testing)) other =
        some (target', .entering) := by
    rintro ⟨other, target', hother⟩
    have hne : state.unblocks producer ≠ some (target', .entering) := by simp [hidle]
    obtain ⟨waker, hwaker⟩ := exists_update (some (target, .testing)) hne ⟨other, hother⟩
    exact ⟨waker, target', hwaker⟩
  obtain ⟨⟨ret, queue⟩, -, hstep⟩ := bind_eq_some_iff.mp hstep
  dsimp only at hstep
  split at hstep
  · cases hstep
    exact h
  · cases hstep
    exact ⟨fun hpc => (h.leaving hpc).imp_right hentering,
      fun hpc => (h.left hpc).imp_right (Or.imp_left hentering)⟩

theorem producer_schedulable (hscheduled : Scheduled state.thread)
    (hunraced : Unraced state (.unblock producer))
    (hstep : producerStep state producer = some next) : Schedulable next := by
  obtain ⟨⟨target, pc⟩, hpc, hstep⟩ := bind_eq_some_iff.mp hstep
  obtain ⟨pc', thread, hunblock, hunblocks⟩ := unblockStep_unblocks hscheduled pc
  simp only [hunblock] at hstep
  cases hstep
  refine hunblocks.wakeable h (fun heq => hunraced _ hpc heq) ?_ ?_
  · rintro hne ⟨other, target', hother⟩
    obtain ⟨waker, hwaker⟩ := exists_update (pc'.map fun pc => (target, pc))
      (fun heq => hne (by cases hpc.symm.trans heq; rfl)) ⟨other, hother⟩
    exact ⟨waker, target', hwaker⟩
  · intro heq
    exact ⟨producer, target, by simp [heq]⟩

theorem step_schedulable {action : Action P} {result : Unit} (hscheduled : Scheduled state.thread)
    (hunraced : Unraced state action) (hstep : step config state action = some (result, next)) :
    Schedulable next := by
  obtain ⟨next', hstep, heq⟩ := map_eq_some_iff.mp hstep
  cases heq
  cases action with
  | event => exact event_schedulable h hstep
  | addItem producer target node item => exact addItem_schedulable h hstep
  | unblock producer => exact producer_schedulable h hscheduled hunraced hstep

omit h

theorem not_stranded {contents : QueueId → List Ptr} (h : Consistent state contents)
    (hschedulable : Schedulable state) : ¬ Stranded state := by
  rintro ⟨hparked, hentries, hunnoticed⟩
  rcases hschedulable.left hparked with hblocked | ⟨producer, target, hproducer⟩ | hpos
  · exact h.not_lostWakeup ⟨hblocked, hunnoticed⟩
  · rw [hunnoticed.2 producer] at hproducer
    contradiction
  · exact absurd hentries (ne_of_gt hpos)

end

/-- In every interleaving in which no producer's `unblock` falls between the poll of its queue
and the block, nor enters the thread into the run queue that it is about to leave, no step fails
and no wakeup is lost. -/
theorem run_noticed (config : Config) (mem : QueueId → Memory Ptr) (actions : List (Action P))
    (h : Guarded (step config) (fun state action =>
      (Enabled state action ∧ Noticed state action) ∧ Unraced state action)
      (initialState P mem) actions) :
    ∃ results last, run (step config) (initialState P mem) actions = some (results, last) ∧
      ¬ LostWakeup last ∧ ¬ Stranded last := by
  have hstep : ∀ (state : State P) action,
      ((∃ contents, Consistent state contents) ∧ Schedulable state) →
      (Enabled state action ∧ Noticed state action) ∧ Unraced state action →
        ∃ result next, step config state action = some (result, next) ∧
          (∃ contents, Consistent next contents) ∧ Schedulable next := by
    rintro state action ⟨hstate, hschedulable⟩ ⟨henabled, hunraced⟩
    obtain ⟨result, next, hnext, hconsistent⟩ :=
      step_consistent config state action hstate henabled
    obtain ⟨contents, hstate⟩ := hstate
    exact ⟨result, next, hnext, hconsistent,
      step_schedulable hschedulable hstate.scheduled hunraced hnext⟩
  have hinit : Schedulable (initialState P mem) :=
    wakeable_running (by simp [initialState]) (by simp [initialState])
  obtain ⟨results, last, hrun, ⟨contents, hconsistent⟩, hschedulable⟩ :=
    run_invariant hstep ⟨⟨_, consistent_initialState mem⟩, hinit⟩ h
  exact ⟨results, last, hrun, hconsistent.not_lostWakeup,
    not_stranded hconsistent hschedulable⟩

end

def oneTimer : Config where
  messageAt := fun item => if item = 7 then .queueLatched 0 else .invalidType
  eventQueueOf := fun timerQueue => timerQueue

def latchAndPass : List (Action Unit) :=
  .addItem () .control (some 1) 7 :: .unblock () :: List.replicate 10 .event

theorem run_noticed_latchAndPass :
    ∃ results last, run (step oneTimer) (initialState Unit fun _ _ => none)
        (latchAndPass ++ [.event, .addItem () (.event 0) (some 1) 9]) = some (results, last) ∧
      ¬ LostWakeup last ∧ ¬ Stranded last := by
  apply run_noticed
  decide +kernel

/-- The event comes in between the pass and the block: its producer finds the thread
running. -/
theorem event_after_poll_lostWakeup :
    ¬ ∀ (P : Type) [DecidableEq P] (config : Config) (mem : QueueId → Memory Ptr)
      (actions : List (Action P)), Guarded (step config) Enabled (initialState P mem) actions →
        ∃ results last, run (step config) (initialState P mem) actions = some (results, last) ∧
          ¬ LostWakeup last ∧ ¬ Stranded last := by
  intro hclaim
  obtain ⟨results, last, hrun, hsafe, -⟩ := hclaim Unit oneTimer (fun _ _ => none)
    (latchAndPass ++ [.addItem () (.event 0) (some 1) 9, .unblock (), .event]) (by decide +kernel)
  have hlost : ((run (step oneTimer) (initialState Unit fun _ _ => none)
      (latchAndPass ++ [.addItem () (.event 0) (some 1) 9, .unblock (), .event])).any fun r =>
        decide (r.2.thread.schedState = .blocked ∧ r.2.waitSlots 0 = some ⟨0, 0⟩ ∧
          (r.2.queues (.event 0)).list.head ≠ 0 ∧ r.2.unblocks () = none)) = true := by
    decide +kernel
  rw [hrun] at hlost
  obtain ⟨hblocked, hslot, hhead, hidle⟩ := of_decide_eq_true hlost
  exact hsafe ⟨hblocked, ⟨_, .inr ⟨0, _, hslot, rfl⟩, hhead⟩, fun _ => hidle⟩

end Zambesii.TimerEventProcessor
