import Mathlib.Data.List.Range
import Zambesii.BitManipulation
import Zambesii.HeapDoubleList
import Zambesii.Runs

/-!
`MessageStream`: a thread's message queues, one for each subsystem, and the bitmap
of the queues that have messages in them. The bitmap's lock is held over each of the
operations, so one operation is one step; a `pull` that blocks is one step each time
it goes round its loop. Each queue's nodes are a memory of their own here: no link
leads from one queue into another.
-/

namespace Zambesii.MessageStream

open Function List
open BitManipulation
open HeapDoubleList (ListState Keeps Allocated)
open KernelTypes LinkedCells Runs

def subsystemMaxval : Nat := 10

def subsystemNQueues : Nat := subsystemMaxval + 1

def sizeofHeader : Nat := 28

structure Stream where
  queues : Nat → ListState
  pendingSubsystems : Bitmap

inductive Answer
  | returned (error : Kerror)
  | message (queue : Nat) (item : Ptr)
  | blocks
deriving DecidableEq

/-- The part that `pull` and `pullFrom` share: the head of a queue whose bit is set. -/
def takeHead (stream : Stream) (i : Nat) : Option (Ptr × Stream) := do
  let (tmp, queue) ← HeapDoubleList.popFromHead (stream.queues i)
  let pendingSubsystems :=
    if queue.nItems = 0 then stream.pendingSubsystems.unset i else stream.pendingSubsystems
  some (tmp, ⟨update stream.queues i queue, pendingSubsystems⟩)

def noMessage (dontBlock : Bool) : Answer :=
  if dontBlock then .returned .wouldBlock else .blocks

def pullFrom (stream : Stream) (subsystemQueue : Nat) (message : Ptr) (dontBlock : Bool) :
    Option (Answer × Stream) :=
  if message = 0 then some (.returned .invalidArg, stream)
  else if subsystemMaxval < subsystemQueue then some (.returned .invalidArgVal, stream)
  else if stream.pendingSubsystems.test subsystemQueue then do
    let (tmp, stream) ← takeHead stream subsystemQueue
    some (.message subsystemQueue tmp, stream)
  else some (noMessage dontBlock, stream)

/-- One round of `pull`. `size` reads the `size` member of a message; a message that
is smaller than its header fails the assertion. -/
def pull (size : Ptr → Nat) (stream : Stream) (message : Ptr) (dontBlock : Bool) :
    Option (Answer × Stream) :=
  if message = 0 then some (.returned .invalidArg, stream)
  else
    match (List.range (subsystemMaxval + 1)).find? stream.pendingSubsystems.test with
    | some i => do
        let (tmp, stream) ← takeHead stream i
        if sizeofHeader ≤ size tmp then some (.message i tmp, stream) else none
    | none => some (noMessage dontBlock, stream)

/-- `enqueue`. `node` is what the allocation of the list node returns. -/
def enqueue (stream : Stream) (queueId : Nat) (callback : Ptr) (node : Option Ptr) :
    Option (Answer × Stream) :=
  if callback = 0 then some (.returned .invalidArg, stream)
  else if subsystemMaxval < queueId then some (.returned .invalidArgVal, stream)
  else do
    let (ret, queue) ← HeapDoubleList.addItem (stream.queues queueId) node callback .tail
    let pendingSubsystems :=
      if ret = .success then stream.pendingSubsystems.set queueId else stream.pendingSubsystems
    some (.returned ret, ⟨update stream.queues queueId queue, pendingSubsystems⟩)

/-- `enqueued` and `returned` record, for each subsystem, the messages that `enqueue`
has accepted and those that have been returned, in order. -/
structure State where
  stream : Stream
  enqueued : Nat → List Ptr
  returned : Nat → List Ptr

def initialState (mem : Nat → Memory Ptr) : State where
  stream := ⟨fun i => HeapDoubleList.empty (mem i), ⟨subsystemNQueues, fun _ => false⟩⟩
  enqueued := fun _ => []
  returned := fun _ => []

inductive Call
  | enqueue (queueId : Nat) (callback : Ptr) (node : Option Ptr)
  | pull (message : Ptr) (dontBlock : Bool)
  | pullFrom (subsystemQueue : Nat) (message : Ptr) (dontBlock : Bool)
deriving DecidableEq

def record (lists : Nat → List Ptr) (i : Nat) (item : Ptr) : Nat → List Ptr :=
  update lists i (lists i ++ [item])

/-- The records after a call that has given `answer`. -/
def recordAnswer (state : State) (stream : Stream) : Call → Answer → State
  | .enqueue queueId callback _, .returned .success =>
    ⟨stream, record state.enqueued queueId callback, state.returned⟩
  | _, .message queue item => ⟨stream, state.enqueued, record state.returned queue item⟩
  | _, _ => { state with stream := stream }

def perform (size : Ptr → Nat) (stream : Stream) : Call → Option (Answer × Stream)
  | .enqueue queueId callback node => enqueue stream queueId callback node
  | .pull message dontBlock => pull size stream message dontBlock
  | .pullFrom subsystemQueue message dontBlock => pullFrom stream subsystemQueue message dontBlock

def step (size : Ptr → Nat) (state : State) (call : Call) : Option (Answer × State) :=
  (perform size state.stream call).map fun (answer, stream) =>
    (answer, recordAnswer state stream call answer)

def NodeAllocated (state : State) : Call → Prop
  | .enqueue queueId _ node => ∀ address ∈ node, Allocated (state.stream.queues queueId) address
  | _ => True

instance (state : State) : ∀ call, Decidable (NodeAllocated state call)
  | .enqueue _ _ _ => inferInstanceAs (Decidable (∀ _ ∈ _, _))
  | .pull _ _ | .pullFrom _ _ _ => inferInstanceAs (Decidable True)

/-- The stream holds `contents`, and the bitmap says which queues are not empty. -/
structure Holds (stream : Stream) (contents : Nat → List Ptr) : Prop where
  keeps : ∀ i, Keeps (stream.queues i) (contents i)
  nBits_eq : stream.pendingSubsystems.nBits = subsystemNQueues
  test_iff : ∀ i, stream.pendingSubsystems.test i = true ↔ contents i ≠ []

variable {stream stream' : Stream} {contents : Nat → List Ptr} {i : Nat} {answer : Answer}
  {size : Ptr → Nat} {state : State}

variable (h : Holds stream contents)

include h

theorem lt_nQueues (hi : contents i ≠ []) : i < stream.pendingSubsystems.nBits :=
  Bitmap.lt_of_test ((h.test_iff i).mpr hi)

theorem Holds.update {queue : ListState} {items : List Ptr}
    {pending : Bitmap} (hqueue : Keeps queue items)
    (hnBits : pending.nBits = stream.pendingSubsystems.nBits)
    (hi : pending.test i = true ↔ items ≠ [])
    (hother : ∀ j, j ≠ i → pending.test j = stream.pendingSubsystems.test j) :
    Holds ⟨update stream.queues i queue, pending⟩ (update contents i items) := by
  refine ⟨?_, hnBits.trans h.nBits_eq, ?_⟩
  · intro j
    rcases eq_or_ne j i with rfl | hne
    · simpa using hqueue
    · simpa [hne] using h.keeps j
  · intro j
    rcases eq_or_ne j i with rfl | hne
    · simpa using hi
    · simpa [hne, hother j hne] using h.test_iff j

theorem takeHead_spec {item : Ptr} {rest : List Ptr}
    (hi : contents i = item :: rest) : ∃ stream', takeHead stream i = some (item, stream') ∧
      Holds stream' (update contents i rest) := by
  have hlt : i < stream.pendingSubsystems.nBits := lt_nQueues h (by simp [hi])
  have htest : stream.pendingSubsystems.test i = true := (h.test_iff i).mpr (by simp [hi])
  have hkeeps := h.keeps i
  rw [hi] at hkeeps
  obtain ⟨queue, hpop, hqueue⟩ := HeapDoubleList.popFromHead_keeps hkeeps
  have hcount : queue.nItems = rest.length := by
    obtain ⟨-, -, -, hcount⟩ := hqueue
    exact hcount
  refine ⟨⟨update stream.queues i queue, _⟩, by simp [takeHead, hpop]; rfl,
    h.update hqueue ?_ ?_ ?_⟩
  · split <;> simp
  · cases rest with
    | nil => simp [hcount, Bitmap.test_unset _ hlt]
    | cons next rest => simp [hcount, htest]
  · intro j hne
    split
    · simp [Bitmap.test_unset _ hlt, hne]
    · rfl

theorem enqueue_spec {queueId : Nat} {callback node : Ptr}
    (hcallback : callback ≠ 0) (hqueueId : queueId ≤ subsystemMaxval)
    (hnode : Allocated (stream.queues queueId) node) :
    ∃ stream', enqueue stream queueId callback (some node) = some (.returned .success, stream') ∧
      Holds stream' (update contents queueId (contents queueId ++ [callback])) := by
  have hlt : queueId < stream.pendingSubsystems.nBits := by
    rw [h.nBits_eq]
    exact Nat.lt_succ_of_le hqueueId
  obtain ⟨queue, hadd, hqueue⟩ :=
    HeapDoubleList.addItem_keeps (h.keeps queueId) hnode callback
  refine ⟨⟨update stream.queues queueId queue, stream.pendingSubsystems.set queueId⟩,
    ?_, h.update hqueue (by simp) ?_ ?_⟩
  · simp [enqueue, hcallback, Nat.not_lt.mpr hqueueId, hadd]
  · simp [Bitmap.test_set _ hlt]
  · intro j hne
    simp [Bitmap.test_set _ hlt, hne]

omit h

def IsLowest (contents : Nat → List Ptr) (i : Nat) (item : Ptr) : Prop :=
  (contents i).head? = some item ∧ ∀ j, j < i → contents j = []

theorem find_pending_eq_some (h : Holds stream contents)
    (hi : (List.range (subsystemMaxval + 1)).find? stream.pendingSubsystems.test = some i) :
    ∃ item rest, contents i = item :: rest ∧ IsLowest contents i item := by
  rw [find?_range_eq_some] at hi
  obtain ⟨htest, -, hlower⟩ := hi
  obtain ⟨item, rest, hcons⟩ := exists_cons_of_ne_nil ((h.test_iff i).mp htest)
  refine ⟨item, rest, hcons, by simp [hcons], ?_⟩
  intro j hj
  have hfalse : stream.pendingSubsystems.test j = false := by simpa using hlower j hj
  rcases eq_or_ne (contents j) [] with hnil | hne
  · exact hnil
  · rw [(h.test_iff j).mpr hne] at hfalse
    contradiction

theorem find_pending_eq_none (h : Holds stream contents)
    (hnone : (List.range (subsystemMaxval + 1)).find? stream.pendingSubsystems.test = none) :
    ∀ i, contents i = [] := by
  intro i
  rcases eq_or_ne (contents i) [] with hnil | hne
  · exact hnil
  have htest := (h.test_iff i).mpr hne
  have hlt := lt_nQueues h hne
  rw [h.nBits_eq] at hlt
  rw [find?_eq_none] at hnone
  exact absurd htest (hnone i (mem_range.mpr hlt))

/-- `pull` answers with the message that is due, or finds that there is none. It fails
its assertion if that message is smaller than a header. -/
def PullsLowest (size : Ptr → Nat) (stream : Stream) (contents : Nat → List Ptr) : Prop :=
  ∀ message dontBlock, message ≠ 0 →
    (∃ i item, IsLowest contents i item ∧
      (pull size stream message dontBlock).map Prod.fst =
        if sizeofHeader ≤ size item then some (.message i item) else none) ∨
    (∀ i, contents i = []) ∧
      (pull size stream message dontBlock).map Prod.fst = some (noMessage dontBlock)

theorem pullsLowest (h : Holds stream contents) (size : Ptr → Nat) :
    PullsLowest size stream contents := by
  intro message dontBlock hmessage
  rw [pull, if_neg hmessage]
  cases hfind : (range (subsystemMaxval + 1)).find? stream.pendingSubsystems.test with
  | none => exact .inr ⟨find_pending_eq_none h hfind, rfl⟩
  | some i =>
    obtain ⟨item, rest, hcons, hlowest⟩ := find_pending_eq_some h hfind
    obtain ⟨stream', htake, -⟩ := takeHead_spec h hcons
    refine .inl ⟨i, item, hlowest, ?_⟩
    simp only [htake, some_bind]
    split <;> rfl

/-- What a call that has given `answer` did to the contents. -/
inductive Effect (contents : Nat → List Ptr) : Call → Answer → (Nat → List Ptr) → Prop
  | enqueued (queueId : Nat) (callback : Ptr) (node : Option Ptr) :
      Effect contents (.enqueue queueId callback node) (.returned .success)
        (record contents queueId callback)
  | taken {call : Call} {i : Nat} {item : Ptr} {rest : List Ptr} :
      contents i = item :: rest →
        Effect contents call (.message i item) (update contents i rest)
  | unchanged {call : Call} {answer : Answer} :
      answer = .blocks ∨ (∃ error, error ≠ .success ∧ answer = .returned error) →
        Effect contents call answer contents

theorem effect_noMessage (contents : Nat → List Ptr) (call : Call) (dontBlock : Bool) :
    Effect contents call (noMessage dontBlock) contents := by
  apply Effect.unchanged
  cases dontBlock with
  | false => exact .inl rfl
  | true => exact .inr ⟨.wouldBlock, by decide, rfl⟩

variable (h : Holds stream contents)

include h

theorem enqueue_effect {queueId : Nat} {callback : Ptr}
    {node : Option Ptr} (hnode : ∀ address ∈ node, Allocated (stream.queues queueId) address)
    (heq : enqueue stream queueId callback node = some (answer, stream')) :
    ∃ contents', Holds stream' contents' ∧
      Effect contents (.enqueue queueId callback node) answer contents' := by
  rcases eq_or_ne callback 0 with hcallback | hcallback
  · rw [enqueue, if_pos hcallback] at heq
    cases heq
    exact ⟨contents, h, .unchanged (.inr ⟨.invalidArg, by decide, rfl⟩)⟩
  rcases lt_or_ge subsystemMaxval queueId with hqueueId | hqueueId
  · rw [enqueue, if_neg hcallback, if_pos hqueueId] at heq
    cases heq
    exact ⟨contents, h, .unchanged (.inr ⟨.invalidArgVal, by decide, rfl⟩)⟩
  cases node with
  | none =>
    rw [enqueue, if_neg hcallback, if_neg (Nat.not_lt.mpr hqueueId)] at heq
    simp only [HeapDoubleList.addItem, some_bind, update_eq_self, reduceCtorEq, if_false] at heq
    cases heq
    exact ⟨contents, h, .unchanged (.inr ⟨.memoryNomem, by decide, rfl⟩)⟩
  | some address =>
    obtain ⟨next, hnext, hholds⟩ :=
      enqueue_spec h hcallback hqueueId (hnode address rfl)
    rw [hnext] at heq
    cases heq
    exact ⟨_, hholds, .enqueued queueId callback (some address)⟩

theorem pull_effect {message : Ptr} {dontBlock : Bool}
    (heq : pull size stream message dontBlock = some (answer, stream')) :
    ∃ contents', Holds stream' contents' ∧
      Effect contents (.pull message dontBlock) answer contents' := by
  rcases eq_or_ne message 0 with hmessage | hmessage
  · rw [pull, if_pos hmessage] at heq
    cases heq
    exact ⟨contents, h, .unchanged (.inr ⟨.invalidArg, by decide, rfl⟩)⟩
  rw [pull, if_neg hmessage] at heq
  cases hfind : (range (subsystemMaxval + 1)).find? stream.pendingSubsystems.test with
  | none =>
    rw [hfind] at heq
    cases heq
    exact ⟨contents, h, effect_noMessage contents _ dontBlock⟩
  | some i =>
    obtain ⟨item, rest, hcons, -⟩ := find_pending_eq_some h hfind
    obtain ⟨next, htake, hholds⟩ := takeHead_spec h hcons
    rw [hfind] at heq
    simp only [htake, some_bind] at heq
    split at heq
    · cases heq
      exact ⟨_, hholds, .taken hcons⟩
    · contradiction

theorem pullFrom_effect {subsystemQueue : Nat} {message : Ptr} {dontBlock : Bool}
    (heq : pullFrom stream subsystemQueue message dontBlock = some (answer, stream')) :
    ∃ contents', Holds stream' contents' ∧
      Effect contents (.pullFrom subsystemQueue message dontBlock) answer contents' := by
  unfold pullFrom at heq
  split at heq
  · cases heq
    exact ⟨contents, h, .unchanged (.inr ⟨.invalidArg, by decide, rfl⟩)⟩
  split at heq
  · cases heq
    exact ⟨contents, h, .unchanged (.inr ⟨.invalidArgVal, by decide, rfl⟩)⟩
  split at heq
  · rename_i htest
    obtain ⟨item, rest, hcons⟩ :=
      exists_cons_of_ne_nil ((h.test_iff subsystemQueue).mp htest)
    obtain ⟨next, htake, hholds⟩ := takeHead_spec h hcons
    simp only [htake, some_bind] at heq
    cases heq
    exact ⟨_, hholds, .taken hcons⟩
  · cases heq
    exact ⟨contents, h, effect_noMessage contents _ dontBlock⟩

theorem perform_effect (hstream : state.stream = stream) {call : Call}
    (hnode : NodeAllocated state call) (heq : perform size stream call = some (answer, stream')) :
    ∃ contents', Holds stream' contents' ∧ Effect contents call answer contents' := by
  subst hstream
  cases call with
  | enqueue queueId callback node => exact enqueue_effect h hnode heq
  | pull message dontBlock => exact pull_effect h heq
  | pullFrom subsystemQueue message dontBlock => exact pullFrom_effect h heq

omit h

/-- The messages of each subsystem that were accepted are those that were returned, in
the same order, followed by those in the queue. -/
def Accounted (state : State) (contents : Nat → List Ptr) : Prop :=
  ∀ i, state.enqueued i = state.returned i ++ contents i

theorem Accounted.recordAnswer {contents' : Nat → List Ptr} (h : Accounted state contents)
    {call : Call} (heffect : Effect contents call answer contents') (stream : Stream) :
    Accounted (recordAnswer state stream call answer) contents' := by
  intro j
  cases heffect with
  | enqueued queueId callback node =>
    rcases eq_or_ne j queueId with rfl | hne
    · simp [MessageStream.recordAnswer, record, h j]
    · simp [MessageStream.recordAnswer, record, h j, hne]
  | @taken call i item rest hcons =>
    rcases eq_or_ne j i with rfl | hne
    · have hj := h j
      rw [hcons] at hj
      cases call <;> simp [MessageStream.recordAnswer, record, hj]
    · cases call <;> simp [MessageStream.recordAnswer, record, h j, hne]
  | unchanged hanswer =>
    rcases hanswer with rfl | ⟨error, herror, rfl⟩
    · cases call <;> exact h j
    cases call with
    | enqueue queueId callback node =>
      cases error <;> first | exact h j | contradiction
    | pull message dontBlock => exact h j
    | pullFrom subsystemQueue message dontBlock => exact h j

@[simp] theorem stream_recordAnswer (state : State) (stream : Stream) (call : Call)
    (answer : Answer) : (recordAnswer state stream call answer).stream = stream := by
  unfold recordAnswer
  split <;> rfl

theorem holds_initialState (mem : Nat → Memory Ptr) :
    Holds (initialState mem).stream fun _ => [] := by
  refine ⟨fun i => HeapDoubleList.keeps_empty (mem i), rfl, ?_⟩
  intro i
  have htest : (initialState mem).stream.pendingSubsystems.test i = false := by
    unfold Bitmap.test
    split <;> rfl
  simp [htest]

def Reached (size : Ptr → Nat) (mem : Nat → Memory Ptr) (state : State) : Prop :=
  Reachable (fun start => start = initialState mem) (GuardedStep (step size) NodeAllocated) state

def Sound (state : State) : Prop :=
  ∃ contents, Holds state.stream contents ∧ Accounted state contents

theorem reached_sound {mem : Nat → Memory Ptr} (h : Reached size mem state) : Sound state := by
  apply Reachable.invariant _ _ h
  · rintro _ rfl
    exact ⟨fun _ => [], holds_initialState mem, fun _ => rfl⟩
  · rintro state next ⟨contents, hholds, haccounted⟩ ⟨call, answer, hnode, hstep⟩
    obtain ⟨⟨answer', stream'⟩, heq, hnext⟩ := Option.map_eq_some_iff.mp hstep
    obtain ⟨rfl, rfl⟩ := Prod.mk.inj hnext
    obtain ⟨contents', hholds', heffect⟩ := perform_effect hholds rfl hnode heq
    exact ⟨contents', by simpa using hholds', haccounted.recordAnswer heffect stream'⟩

/-- In every state reached the bitmap shows the queues that are not empty, no message is
lost, doubled or overtaken by one of its own subsystem, `pull` takes the lowest-numbered
queue, and a valid message is accepted. -/
theorem messages_delivered (size : Ptr → Nat) (mem : Nat → Memory Ptr) (state : State)
    (h : Reached size mem state) : ∃ contents : Nat → List Ptr,
      (∀ i, Keeps (state.stream.queues i) (contents i)) ∧
      (∀ i, state.stream.pendingSubsystems.test i = true ↔ contents i ≠ []) ∧
      (∀ i, state.enqueued i = state.returned i ++ contents i) ∧
      PullsLowest size state.stream contents ∧
      ∀ queueId callback node, callback ≠ 0 → queueId ≤ subsystemMaxval →
        Allocated (state.stream.queues queueId) node →
          (enqueue state.stream queueId callback (some node)).map Prod.fst =
            some (.returned .success) := by
  obtain ⟨contents, hholds, haccounted⟩ := reached_sound h
  refine ⟨contents, hholds.keeps, hholds.test_iff, haccounted, pullsLowest hholds size, ?_⟩
  intro queueId callback node hcallback hqueueId hnode
  obtain ⟨stream', heq, -⟩ := enqueue_spec hholds hcallback hqueueId hnode
  simp [heq]

def crossingCalls : List Call :=
  [.enqueue 5 100 (some 1), .enqueue 2 200 (some 1), .enqueue 5 300 (some 2), .pull 8 true]

theorem messages_delivered_crossingCalls :
    ∃ state, Reached (fun _ => 28) (fun _ _ => none) state ∧ state.returned 2 = [200] ∧
      ∃ contents : Nat → List Ptr,
        (∀ i, state.enqueued i = state.returned i ++ contents i) ∧
          PullsLowest (fun _ => 28) state.stream contents := by
  have hrun : ((run (step fun _ => 28) (initialState fun _ _ => none) crossingCalls).any
      fun r => decide (r.2.returned 2 = [200])) = true := by decide +kernel
  obtain ⟨⟨answers, state⟩, hstate, hreturned⟩ := (Option.any_eq_true _ _).mp hrun
  have hreached : Reached (fun _ => 28) (fun _ _ => none) state :=
    reachable_of_run (reachable_of_init rfl) (by decide +kernel) hstate
  obtain ⟨contents, -, -, haccounted, hpulls, -⟩ := messages_delivered _ _ state hreached
  exact ⟨state, hreached, of_decide_eq_true hreturned, contents, haccounted, hpulls⟩

end Zambesii.MessageStream
