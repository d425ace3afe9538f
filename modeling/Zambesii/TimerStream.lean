import Zambesii.TimerQueue

/-!
`TimerStream`: the requests of each process, of which only the first is installed
in a timer queue. A request is in two lists under two locks: its process's stream
and the queue it is installed in. The steps below are the critical sections of
`TimerQueue::tick` and of `TimerStream::createOneshotEvent`; all ticks run on
the one event thread, requests are created by any number of threads.

The lists are taken as the sequences that `SortedHeapDoubleList` keeps in memory:
`addItem` is `insertByKey` on them (`addItem_keeps`), `removeItem` is `erase` and
`popFromHead` takes the first. Which of the latched queues a request is installed
in is left open.
-/

namespace Zambesii.TimerStream

open Function List Option
open Runs SortedHeapDoubleList TimeTypes
open TimerQueue (TimerMsg)

/-- Where the event thread stands in `tick`. -/
inductive EventPc
  | idle
  | ticking (queue : Nat) (irqStamp : Timestamp)
  | notifying (queue : Nat) (irqStamp : Timestamp) (request : TimerMsg)
  | dropping (queue : Nat) (irqStamp : Timestamp) (request : TimerMsg)
  | reading (queue : Nat) (irqStamp : Timestamp) (request : TimerMsg)
  | installing (queue : Nat) (irqStamp : Timestamp) (request next : TimerMsg)
  | deleting (queue : Nat) (irqStamp : Timestamp) (request : TimerMsg)
deriving DecidableEq

/-- Where a thread stands in `createOneshotEvent`. From `comparing` to `adding` it
holds the lock of the process's stream. -/
inductive CreatePc
  | idle
  | comparing (request : TimerMsg)
  | cancelling (request current : TimerMsg)
  | adding (request : TimerMsg) (install : Bool)
  | inserting (request : TimerMsg)
deriving DecidableEq

/-- `created`, `notified` and `deleted` record what has happened to the requests; a request is
created when it is in its stream. -/
structure State where
  queues : Nat → List TimerMsg
  currentQueue : TimerMsg → Option Nat
  streams : Nat → List TimerMsg
  streamLock : Nat → Option Nat
  event : EventPc
  creators : Nat → CreatePc
  created : List TimerMsg
  notified : List (TimerMsg × Timestamp)
  deleted : List TimerMsg

def initialState : State where
  queues := fun _ => []
  currentQueue := fun _ => none
  streams := fun _ => []
  streamLock := fun _ => none
  event := .idle
  creators := fun _ => .idle
  created := []
  notified := []
  deleted := []

inductive Action
  | beginTick (queue : Nat) (irqStamp : Timestamp)
  | popExpired
  | notify
  | dropHead
  | readHead
  | install (target : Option Nat)
  | deleteRequest
  | beginCreate (thread : Nat) (request : TimerMsg)
  | compare (thread : Nat)
  | cancel (thread : Nat)
  | add (thread : Nat) (allocated : Bool)
  | insert (thread : Nat) (target : Option Nat)
deriving DecidableEq

/-- `insertTimerQueueRequestObject`, with the queue it settled on. There is none when no node can
be allocated. -/
def insertTimerQueueRequestObject (state : State) (target : Option Nat) (request : TimerMsg) :
    State :=
  match target with
  | some queue => { state with
      queues := update state.queues queue
        (insertByKey TimerMsg.expirationStamp request (state.queues queue))
      currentQueue := update state.currentQueue request (some queue) }
  | none => { state with currentQueue := update state.currentQueue request none }

/-- `cancelTimerQueueRequestObject`. A request that is in no queue's care has no
`currentQueue` to lock. -/
def cancelTimerQueueRequestObject (state : State) (request : TimerMsg) : Option State :=
  (state.currentQueue request).map fun queue =>
    { state with
      queues := update state.queues queue ((state.queues queue).erase request)
      currentQueue := update state.currentQueue request none }

def eventStep (state : State) : Action → Option State
  | .beginTick queue irqStamp =>
    match state.event with
    | .idle => some { state with event := .ticking queue irqStamp }
    | _ => none
  | .popExpired =>
    match state.event with
    | .ticking queue irqStamp =>
      match state.queues queue with
      | [] => some { state with event := .idle }
      | request :: rest =>
        if irqStamp < request.expirationStamp then some { state with event := .idle }
        else some { state with
          queues := update state.queues queue rest
          event := .notifying queue irqStamp request }
    | _ => none
  | .notify =>
    match state.event with
    | .notifying queue irqStamp request => some { state with
        notified := (request, irqStamp) :: state.notified
        event := .dropping queue irqStamp request }
    | _ => none
  | .dropHead =>
    match state.event with
    | .dropping queue irqStamp request =>
      if state.streamLock request.sourceProcess ≠ none then none
      else
        match state.streams request.sourceProcess with
        | [] => some { state with event := .deleting queue irqStamp request }
        | _ :: rest => some { state with
            streams := update state.streams request.sourceProcess rest
            event := .reading queue irqStamp request }
    | _ => none
  | .readHead =>
    match state.event with
    | .reading queue irqStamp request =>
      match state.streams request.sourceProcess with
      | [] => some { state with event := .deleting queue irqStamp request }
      | next :: _ => some { state with event := .installing queue irqStamp request next }
    | _ => none
  | .install target =>
    match state.event with
    | .installing queue irqStamp request next =>
      some { insertTimerQueueRequestObject state target next with
        event := .deleting queue irqStamp request }
    | _ => none
  | .deleteRequest =>
    match state.event with
    | .deleting queue irqStamp request => some { state with
        deleted := request :: state.deleted
        event := .ticking queue irqStamp }
    | _ => none
  | _ => none

def createStep (state : State) : Action → Option State
  | .beginCreate thread request =>
    match state.creators thread with
    | .idle =>
      if state.streamLock request.sourceProcess ≠ none then none
      else some { state with
        streamLock := update state.streamLock request.sourceProcess (some thread)
        creators := update state.creators thread (.comparing request) }
    | _ => none
  | .compare thread =>
    match state.creators thread with
    | .comparing request =>
      match state.streams request.sourceProcess with
      | [] => some { state with
          creators := update state.creators thread (.adding request true) }
      | current :: _ =>
        if request.expirationStamp < current.expirationStamp then some { state with
          creators := update state.creators thread (.cancelling request current) }
        else some { state with
          creators := update state.creators thread (.adding request false) }
    | _ => none
  | .cancel thread =>
    match state.creators thread with
    | .cancelling request current =>
      (cancelTimerQueueRequestObject state current).map fun state => { state with
        creators := update state.creators thread (.adding request true) }
    | _ => none
  | .add thread allocated =>
    match state.creators thread with
    | .adding request install =>
      if allocated = true then some { state with
        streams := update state.streams request.sourceProcess
          (insertByKey TimerMsg.expirationStamp request (state.streams request.sourceProcess))
        streamLock := update state.streamLock request.sourceProcess none
        creators := update state.creators thread
          (if install then .inserting request else .idle)
        created := request :: state.created }
      else some { state with
        streamLock := update state.streamLock request.sourceProcess none
        creators := update state.creators thread .idle }
    | _ => none
  | .insert thread target =>
    match state.creators thread with
    | .inserting request =>
      some { insertTimerQueueRequestObject state target request with
        creators := update state.creators thread .idle }
    | _ => none
  | _ => none

def step (state : State) (action : Action) : Option (Unit × State) :=
  match action with
  | .beginTick .. | .popExpired | .notify | .dropHead | .readHead | .install .. | .deleteRequest =>
    (eventStep state action).map fun state => ((), state)
  | .beginCreate .. | .compare .. | .cancel .. | .add .. | .insert .. =>
    (createStep state action).map fun state => ((), state)

/-- The thread of the action stands where the action is next, the lock it takes is
free, and a request that is created is a new object. -/
def Enabled (state : State) : Action → Prop
  | .beginTick _ _ => state.event = .idle
  | .popExpired => ∃ queue irqStamp, state.event = .ticking queue irqStamp
  | .notify => ∃ queue irqStamp request, state.event = .notifying queue irqStamp request
  | .dropHead => ∃ queue irqStamp request, state.event = .dropping queue irqStamp request ∧
      state.streamLock request.sourceProcess = none
  | .readHead => ∃ queue irqStamp request, state.event = .reading queue irqStamp request
  | .install _ => ∃ queue irqStamp request next,
      state.event = .installing queue irqStamp request next
  | .deleteRequest => ∃ queue irqStamp request, state.event = .deleting queue irqStamp request
  | .beginCreate thread request => state.creators thread = .idle ∧
      state.streamLock request.sourceProcess = none ∧ request ∉ state.created
  | .compare thread => ∃ request, state.creators thread = .comparing request
  | .cancel thread => ∃ request current, state.creators thread = .cancelling request current
  | .add thread _ => ∃ request install, state.creators thread = .adding request install
  | .insert thread _ => ∃ request, state.creators thread = .inserting request

/-- The condition on the steps: a request that is cancelled is still in a queue, a request that is
added belongs near an end of the stream's list, the event thread is not about to read the head of a
list it has just emptied, and no allocation fails once the head is in no queue. -/
def Undisturbed (state : State) : Action → Prop
  | .cancel thread => ∀ request current, state.creators thread = .cancelling request current →
      ∃ queue, current ∈ state.queues queue
  | .add thread true => ∀ request install, state.creators thread = .adding request install →
      BelongsNearEnd TimerMsg.expirationStamp request.expirationStamp
          (state.streams request.sourceProcess) ∧
        (state.streams request.sourceProcess = [] → ∀ queue irqStamp other,
          state.event = .reading queue irqStamp other → other.sourceProcess ≠ request.sourceProcess)
  | .add thread false => ∀ request, state.creators thread = .adding request true →
      state.streams request.sourceProcess = []
  | .install target | .insert _ target => target ≠ none
  | _ => True

/-- The process whose next head the event thread has in hand. -/
def EventPc.owner : EventPc → Option Nat
  | .notifying _ _ request | .dropping _ _ request | .reading _ _ request =>
    some request.sourceProcess
  | .installing _ _ _ next => some next.sourceProcess
  | _ => none

/-- The process whose head the thread is about to install. -/
def CreatePc.installs : CreatePc → Option Nat
  | .adding request true | .inserting request => some request.sourceProcess
  | _ => none

/-- The request at the head of a stream is in a queue; or the event thread is notifying it, or is
about to install it; or a creating thread is about to install it, or an earlier one in its place. -/
def Attended (state : State) (request : TimerMsg) : Prop :=
  (∃ queue, request ∈ state.queues queue) ∨
    (match state.event with
      | .notifying _ _ other | .dropping _ _ other | .installing _ _ _ other => other = request
      | .reading _ _ other => other.sourceProcess = request.sourceProcess
      | _ => False) ∨
    ∃ thread, state.creators thread = .inserting request ∨
      ∃ earlier, state.creators thread = .adding earlier true ∧
        earlier.sourceProcess = request.sourceProcess ∧
          earlier.expirationStamp < request.expirationStamp

structure Safe (state : State) : Prop where
  notified_once : (state.notified.map Prod.fst).Nodup
  notified_expired : ∀ notice ∈ state.notified, notice.1.expirationStamp ≤ notice.2
  /-- A request in a stream has not been notified, unless its drop is next. -/
  notified_dropped : ∀ process, ∀ request ∈ state.streams process,
    request ∈ state.notified.map Prod.fst →
      ∃ queue irqStamp, state.event = .dropping queue irqStamp request
  /-- No request is lost: until it is notified it is in its process's stream, and the first one
  there is attended to. -/
  kept : ∀ request ∈ state.created, request ∈ state.notified.map Prod.fst ∨
    request ∈ state.streams request.sourceProcess
  attended : ∀ process request, (state.streams process).head? = some request →
    Attended state request
  /-- The stream drops the request that is being notified. -/
  drops_notified : ∀ queue irqStamp request, state.event = .dropping queue irqStamp request →
    (state.streams request.sourceProcess).head? = some request
  deleted_gone : ∀ request ∈ state.deleted,
    (∀ queue, request ∉ state.queues queue) ∧ ∀ process, request ∉ state.streams process
  installed_nodup : ∀ queue, (state.queues queue).Nodup
  one_installed : ∀ queue queue' request request', request ∈ state.queues queue →
    request' ∈ state.queues queue' → request.sourceProcess = request'.sourceProcess →
      queue = queue' ∧ request = request'
  installed_earliest : ∀ queue, ∀ request ∈ state.queues queue,
    request ∈ state.streams request.sourceProcess ∧
      ∀ other ∈ state.streams request.sourceProcess,
        request.expirationStamp ≤ other.expirationStamp

inductive Turn
  | empty
  | queued (queue : Nat)
  | popped
  | reading
  | carried
  | cancelled (thread : Nat)
  | creating (thread : Nat)
deriving DecidableEq

def EventOk (state : State) (turn : Nat → Turn) : Prop :=
  match state.event with
  | .idle | .ticking _ _ => True
  | .notifying _ irqStamp request => turn request.sourceProcess = .popped ∧
      (state.streams request.sourceProcess).head? = some request ∧
        request.expirationStamp ≤ irqStamp
  | .dropping _ _ request => turn request.sourceProcess = .popped ∧
      (state.streams request.sourceProcess).head? = some request ∧
        request ∈ state.notified.map Prod.fst
  | .reading _ _ request => turn request.sourceProcess = .reading ∧
      request ∈ state.notified.map Prod.fst ∧ request ∉ state.streams request.sourceProcess
  | .installing _ _ request next => turn next.sourceProcess = .carried ∧
      (state.streams next.sourceProcess).head? = some next ∧
        request ∈ state.notified.map Prod.fst ∧ request ∉ state.streams request.sourceProcess
  | .deleting _ _ request =>
    request ∈ state.notified.map Prod.fst ∧ request ∉ state.streams request.sourceProcess

structure Unadded (state : State) (thread : Nat) (request : TimerMsg) : Prop where
  locked : state.streamLock request.sourceProcess = some thread
  fresh : request ∉ state.created

def CreatorOk (state : State) (turn : Nat → Turn) (thread : Nat) : Prop :=
  match state.creators thread with
  | .idle => True
  | .comparing request => Unadded state thread request
  | .cancelling request current => Unadded state thread request ∧
      (state.streams request.sourceProcess).head? = some current ∧
        request.expirationStamp < current.expirationStamp
  | .adding request true => Unadded state thread request ∧
      (state.streams request.sourceProcess = [] ∨ turn request.sourceProcess = .cancelled thread ∧
          ∃ current, (state.streams request.sourceProcess).head? = some current ∧
            request.expirationStamp < current.expirationStamp)
  | .adding request false => Unadded state thread request ∧
      ∃ current, (state.streams request.sourceProcess).head? = some current ∧
        ¬ request.expirationStamp < current.expirationStamp
  | .inserting request => turn request.sourceProcess = .creating thread ∧
      (state.streams request.sourceProcess).head? = some request

def TurnOk (state : State) (process : Nat) : Turn → Prop
  | .empty => state.streams process = []
  | .queued queue => ∃ request ∈ state.queues queue, request.sourceProcess = process
  | .popped | .reading | .carried => state.event.owner = some process
  | .cancelled thread | .creating thread => (state.creators thread).installs = some process

structure Consistent (state : State) (turn : Nat → Turn) : Prop where
  sorted : ∀ process, SortedBy TimerMsg.expirationStamp (state.streams process)
  nodup : ∀ process, (state.streams process).Nodup
  owner : ∀ process, ∀ request ∈ state.streams process, request.sourceProcess = process
  stream_created : ∀ process, ∀ request ∈ state.streams process, request ∈ state.created
  turn_ok : ∀ process, TurnOk state process (turn process)
  stream_empty : ∀ process, state.streams process = [] →
    turn process = .empty ∨ turn process = .reading
  queue_nodup : ∀ queue, (state.queues queue).Nodup
  queued : ∀ queue, ∀ request ∈ state.queues queue,
    turn request.sourceProcess = .queued queue ∧
      (state.streams request.sourceProcess).head? = some request ∧
        state.currentQueue request = some queue
  event : EventOk state turn
  creator : ∀ thread, CreatorOk state turn thread
  notified_once : (state.notified.map Prod.fst).Nodup
  notified_expired : ∀ notice ∈ state.notified, notice.1.expirationStamp ≤ notice.2
  notified_created : ∀ request ∈ state.notified.map Prod.fst, request ∈ state.created
  notified_dropped : ∀ request ∈ state.notified.map Prod.fst,
    request ∈ state.streams request.sourceProcess →
      ∃ queue irqStamp, state.event = .dropping queue irqStamp request
  deleted_dropped : ∀ request ∈ state.deleted, request ∈ state.notified.map Prod.fst ∧
    request ∉ state.streams request.sourceProcess
  kept : ∀ request ∈ state.created, request ∈ state.notified.map Prod.fst ∨
    request ∈ state.streams request.sourceProcess

section

variable {state state' : State} {turn turn' : Nat → Turn}

structure CreatorFrame (state state' : State) (turn turn' : Nat → Turn) (thread : Nat) : Prop where
  creators : state'.creators thread = state.creators thread
  fresh : ∀ request, state.streamLock request.sourceProcess = some thread →
    request ∉ state.created → request ∉ state'.created
  locked : ∀ process, state.streamLock process = some thread →
    state'.streams process = state.streams process ∧ state'.streamLock process = some thread
  cancelled : ∀ process, turn process = .cancelled thread → turn' process = .cancelled thread
  creating : ∀ process, turn process = .creating thread → turn' process = .creating thread ∧
    (state'.streams process).head? = (state.streams process).head?

variable {thread : Nat} {request : TimerMsg}

theorem Unadded.frame (h : Unadded state thread request)
    (hframe : CreatorFrame state state' turn turn' thread) : Unadded state' thread request := by
  exact ⟨(hframe.locked _ h.locked).2, hframe.fresh _ h.locked h.fresh⟩

theorem CreatorOk.frame (h : CreatorOk state turn thread)
    (hframe : CreatorFrame state state' turn turn' thread) : CreatorOk state' turn' thread := by
  rw [CreatorOk, hframe.creators]
  rw [CreatorOk] at h
  split
  · trivial
  · rename_i heq
    simp only [heq] at h
    exact h.frame hframe
  · rename_i heq
    simp only [heq] at h
    exact ⟨h.1.frame hframe, (hframe.locked _ h.1.locked).1 ▸ h.2⟩
  · rename_i heq
    simp only [heq] at h
    refine ⟨h.1.frame hframe, ?_⟩
    rw [(hframe.locked _ h.1.locked).1]
    rcases h.2 with hempty | ⟨hturn, hcurrent⟩
    · exact .inl hempty
    · exact .inr ⟨hframe.cancelled _ hturn, hcurrent⟩
  · rename_i heq
    simp only [heq] at h
    exact ⟨h.1.frame hframe, (hframe.locked _ h.1.locked).1 ▸ h.2⟩
  · rename_i heq
    simp only [heq] at h
    obtain ⟨hturn, hhead⟩ := hframe.creating _ h.1
    exact ⟨hturn, hhead.trans h.2⟩

def Turn.OfEvent : Turn → Prop
  | .popped | .reading | .carried => True
  | _ => False

theorem EventOk.frame (h : EventOk state turn) (hevent : state'.event = state.event)
    (hnotified : ∀ request ∈ state.notified.map Prod.fst, request ∈ state'.notified.map Prod.fst)
    (hturn : ∀ process, (turn process).OfEvent → turn' process = turn process ∧
      (state'.streams process).head? = (state.streams process).head?)
    (hdropped : ∀ request ∈ state.notified.map Prod.fst,
      request ∉ state.streams request.sourceProcess →
        request ∉ state'.streams request.sourceProcess) : EventOk state' turn' := by
  rw [EventOk, hevent]
  rw [EventOk] at h
  split
  · trivial
  · trivial
  · rename_i heq
    simp only [heq] at h
    obtain ⟨hsame, hhead⟩ := hturn _ (by rw [h.1]; trivial)
    exact ⟨hsame.trans h.1, hhead.trans h.2.1, h.2.2⟩
  · rename_i heq
    simp only [heq] at h
    obtain ⟨hsame, hhead⟩ := hturn _ (by rw [h.1]; trivial)
    exact ⟨hsame.trans h.1, hhead.trans h.2.1, hnotified _ h.2.2⟩
  · rename_i heq
    simp only [heq] at h
    obtain ⟨hsame, -⟩ := hturn _ (by rw [h.1]; trivial)
    exact ⟨hsame.trans h.1, hnotified _ h.2.1, hdropped _ h.2.1 h.2.2⟩
  · rename_i heq
    simp only [heq] at h
    obtain ⟨hsame, hhead⟩ := hturn _ (by rw [h.1]; trivial)
    exact ⟨hsame.trans h.1, hhead.trans h.2.1, hnotified _ h.2.2.1, hdropped _ h.2.2.1 h.2.2.2⟩
  · rename_i heq
    simp only [heq] at h
    exact ⟨hnotified _ h.1, hdropped _ h.1 h.2⟩

theorem EventOk.passTurn {process : Nat} (h : EventOk state turn) (next : Turn)
    (hevent : state'.event = state.event) (hnotified : state'.notified = state.notified)
    (hstreams : state'.streams = state.streams) (hturn : ¬(turn process).OfEvent) :
    EventOk state' (update turn process next) := by
  refine h.frame hevent (fun _ hmem => hnotified ▸ hmem) ?_
    (fun _ _ hdropped => hstreams ▸ hdropped)
  intro other hof
  have hne : other ≠ process := by
    rintro rfl
    exact hturn hof
  exact ⟨update_of_ne hne _ _, congrArg head? (congrFun hstreams other)⟩

theorem CreatorFrame.still (hcreators : state'.creators thread = state.creators thread)
    (hcreated : state'.created = state.created)
    (hstreams : state'.streams = state.streams) (hlock : state'.streamLock = state.streamLock) :
    CreatorFrame state state' turn turn thread :=
  ⟨hcreators, fun _ _ hfresh => hcreated ▸ hfresh, fun process hlocked => ⟨congrFun hstreams process, hlock ▸ hlocked⟩,
    fun _ hcancelled => hcancelled,
    fun process hcreating => ⟨hcreating, congrArg head? (congrFun hstreams process)⟩⟩

theorem CreatorFrame.passTurn {process : Nat} (next : Turn)
    (hcreators : state'.creators thread = state.creators thread)
    (hcreated : state'.created = state.created)
    (hstreams : state'.streams = state.streams) (hlock : state'.streamLock = state.streamLock)
    (hcancelled : turn process ≠ .cancelled thread) (hcreating : turn process ≠ .creating thread) :
    CreatorFrame state state' turn (update turn process next) thread := by
  have hstill : CreatorFrame state state' turn turn thread :=
    CreatorFrame.still hcreators hcreated hstreams hlock
  refine { hstill with
    cancelled := ?_
    creating := ?_ }
  · intro other hturn
    have hne : other ≠ process := by
      rintro rfl
      exact hcancelled hturn
    rwa [update_of_ne hne]
  · intro other hturn
    have hne : other ≠ process := by
      rintro rfl
      exact hcreating hturn
    exact ⟨by rwa [update_of_ne hne], congrArg head? (congrFun hstreams other)⟩

/-- What a step leaves of a process that it is not about. -/
structure TurnFrame (state state' : State) (process : Nat) : Prop where
  streams : state.streams process = [] → state'.streams process = []
  queues : ∀ queue, ∀ request ∈ state.queues queue, request.sourceProcess = process →
    request ∈ state'.queues queue
  event : state.event.owner = some process → state'.event.owner = some process
  creators : ∀ thread, (state.creators thread).installs = some process →
    (state'.creators thread).installs = some process

theorem TurnOk.frame {process : Nat} {turn : Turn} (h : TurnOk state process turn)
    (hframe : TurnFrame state state' process) : TurnOk state' process turn := by
  cases turn with
  | empty => exact hframe.streams h
  | queued queue =>
    obtain ⟨request, hmem, hprocess⟩ := h
    exact ⟨request, hframe.queues queue request hmem hprocess, hprocess⟩
  | popped | reading | carried => exact hframe.event h
  | cancelled thread | creating thread => exact hframe.creators thread h

theorem TurnFrame.still {process : Nat} (hstreams : state'.streams = state.streams)
    (hqueues : state'.queues = state.queues)
    (hevent : state.event.owner = some process → state'.event.owner = some process)
    (hcreators : state'.creators = state.creators) : TurnFrame state state' process :=
  ⟨fun hempty => hstreams ▸ hempty, fun _ _ hmem _ => hqueues ▸ hmem, hevent,
    fun _ hinstalls => hcreators ▸ hinstalls⟩

variable (h : Consistent state turn)

include h

theorem Consistent.turn_reading {process : Nat} (hturn : turn process = .reading) :
    ∃ queue irqStamp request, state.event = .reading queue irqStamp request ∧
      request.sourceProcess = process := by
  have howner := h.turn_ok process
  rw [hturn] at howner
  have hok := h.event
  unfold TurnOk at howner
  unfold EventOk at hok
  cases hevent : state.event with
  | idle | ticking | deleting =>
    rw [hevent] at howner
    cases howner
  | notifying | dropping | installing =>
    rw [hevent] at howner hok
    obtain rfl := some.inj howner
    cases hturn.symm.trans hok.1
  | reading queue irqStamp request =>
    rw [hevent] at howner
    exact ⟨queue, irqStamp, request, rfl, some.inj howner⟩

theorem Consistent.pass_turn (process : Nat) (next : Turn)
    (hempty : next = .empty ↔ state.streams process = []) :
    ∀ other, state.streams other = [] → update turn process next other = .empty ∨
      update turn process next other = .reading := by
  intro other hother
  rcases eq_or_ne other process with rfl | hne
  · exact .inl (by simpa using hempty.mpr hother)
  · rw [update_of_ne hne]
    exact h.stream_empty other hother

theorem Consistent.pass_turn_head {first : TimerMsg} {next : Turn}
    (hhead : (state.streams request.sourceProcess).head? = some first) (hnext : next ≠ .empty) :
    ∀ other, state.streams other = [] →
      update turn request.sourceProcess next other = .empty ∨
        update turn request.sourceProcess next other = .reading := by
  refine h.pass_turn _ next (iff_of_false hnext ?_)
  intro hempty
  simp [hempty] at hhead

theorem Consistent.pass_turn_ok {process : Nat} {next : Turn} (hnext : TurnOk state' process next)
    (hframe : ∀ other, other ≠ process → TurnFrame state state' other) :
    ∀ other, TurnOk state' other (update turn process next other) := by
  intro other
  rcases eq_or_ne other process with rfl | hne
  · rwa [update_self]
  · rw [update_of_ne hne]
    exact (h.turn_ok other).frame (hframe other hne)

theorem Consistent.notMem_of_notified
    (hdropping : ∀ queue irqStamp request, state.event ≠ .dropping queue irqStamp request)
    (hnotified : request ∈ state.notified.map Prod.fst) :
    request ∉ state.streams request.sourceProcess := by
  intro hmem
  obtain ⟨queue, irqStamp, heq⟩ := h.notified_dropped request hnotified hmem
  exact hdropping _ _ _ heq

theorem Consistent.queued_unique {queue queue' : Nat}
    {request' : TimerMsg} (hmem : request ∈ state.queues queue)
    (hmem' : request' ∈ state.queues queue')
    (hprocess : request.sourceProcess = request'.sourceProcess) :
    queue = queue' ∧ request = request' := by
  obtain ⟨hturn, hhead, -⟩ := h.queued queue request hmem
  obtain ⟨hturn', hhead', -⟩ := h.queued queue' request' hmem'
  rw [hprocess] at hturn hhead
  constructor
  · exact Turn.queued.inj (hturn.symm.trans hturn')
  · exact some.inj (hhead.symm.trans hhead')

theorem Consistent.attended {process : Nat} (hhead : (state.streams process).head? = some request) :
    Attended state request := by
  obtain rfl := h.owner process request (mem_of_head? hhead)
  have hturn := h.turn_ok request.sourceProcess
  have hcreating : ∀ thread, (state.creators thread).installs = some request.sourceProcess →
      Attended state request := by
    intro thread hinstalls
    have hok := h.creator thread
    unfold CreatorOk at hok
    unfold CreatePc.installs at hinstalls
    split at hinstalls
    · rename_i earlier hcreator
      have hprocess := some.inj hinstalls
      simp only [hcreator, hprocess, hhead] at hok
      obtain ⟨-, hempty | ⟨-, current, hcurrent, hlt⟩⟩ := hok
      · rw [hempty] at hhead
        cases hhead
      · obtain rfl := some.inj hcurrent
        exact .inr (.inr ⟨thread, .inr ⟨earlier, hcreator, hprocess, hlt⟩⟩)
    · rename_i other hcreator
      simp only [hcreator, some.inj hinstalls, hhead] at hok
      exact .inr (.inr ⟨thread, .inl (some.inj hok.2 ▸ hcreator)⟩)
    · cases hinstalls
  have howner : state.event.owner = some request.sourceProcess → Attended state request := by
    intro howner
    have hok := h.event
    unfold EventOk at hok
    refine .inr (.inl ?_)
    cases hevent : state.event with
    | idle | ticking | deleting =>
      rw [hevent] at howner
      cases howner
    | notifying | dropping | installing =>
      rw [hevent] at howner hok
      obtain ⟨-, hfirst, -⟩ := hok
      rw [some.inj howner, hhead] at hfirst
      exact (some.inj hfirst).symm
    | reading =>
      rw [hevent] at howner
      exact some.inj howner
  cases hcase : turn request.sourceProcess with
  | empty =>
    rw [hcase] at hturn
    rw [show state.streams request.sourceProcess = [] from hturn] at hhead
    cases hhead
  | queued queue =>
    rw [hcase] at hturn
    obtain ⟨other, hmem, hprocess⟩ := hturn
    obtain ⟨-, hfirst, -⟩ := h.queued queue other hmem
    rw [hprocess, hhead] at hfirst
    exact .inl ⟨queue, some.inj hfirst ▸ hmem⟩
  | popped | reading | carried =>
    rw [hcase] at hturn
    exact howner hturn
  | cancelled thread | creating thread =>
    rw [hcase] at hturn
    exact hcreating thread hturn

theorem Consistent.safe : Safe state where
  notified_once := h.notified_once
  notified_expired := h.notified_expired
  notified_dropped := by
    intro process request hrequest hnotified
    rw [← h.owner process request hrequest] at hrequest
    exact h.notified_dropped request hnotified hrequest
  kept := h.kept
  attended := fun _ _ hhead => h.attended hhead
  drops_notified := by
    intro queue irqStamp request hevent
    have hok := h.event
    rw [EventOk, hevent] at hok
    exact hok.2.1
  deleted_gone := by
    intro request hrequest
    obtain ⟨-, hdropped⟩ := h.deleted_dropped request hrequest
    constructor
    · intro queue hmem
      exact hdropped (mem_of_head? (h.queued queue request hmem).2.1)
    · intro process hmem
      rw [← h.owner process request hmem] at hmem
      exact hdropped hmem
  installed_nodup := h.queue_nodup
  one_installed := by
    intro queue queue' request request' hmem hmem' hprocess
    exact h.queued_unique hmem hmem' hprocess
  installed_earliest := by
    intro queue request hmem
    obtain ⟨-, hhead, -⟩ := h.queued queue request hmem
    have hsorted := h.sorted request.sourceProcess
    cases hstream : state.streams request.sourceProcess with
    | nil => simp [hstream] at hhead
    | cons first rest =>
      rw [hstream] at hhead hsorted
      cases hhead
      refine ⟨by simp, ?_⟩
      intro other hother
      rcases mem_cons.mp hother with rfl | hother
      · exact le_refl _
      · exact (pairwise_cons.mp hsorted).1 other hother

omit h

end

section

variable {state : State} {turn : Nat → Turn}

theorem mem_enqueue (state : State) (target : Nat) (request : TimerMsg) :
    request ∈ (insertTimerQueueRequestObject state (some target) request).queues target ∧
      ∀ queue, ∀ other ∈ state.queues queue,
        other ∈ (insertTimerQueueRequestObject state (some target) request).queues queue := by
  have hperm := insertByKey_perm TimerMsg.expirationStamp request (state.queues target)
  simp only [insertTimerQueueRequestObject]
  constructor
  · rw [update_self, hperm.mem_iff]
    exact mem_cons_self
  · intro queue other hmem
    rcases eq_or_ne queue target with rfl | hne
    · rw [update_self, hperm.mem_iff]
      exact mem_cons_of_mem _ hmem
    · rwa [update_of_ne hne]

theorem Consistent.setEvent (h : Consistent state turn) (event : EventPc)
    (howner : state.event.owner = none) (hevent : EventOk { state with event := event } turn) :
    Consistent { state with event := event } turn := by
  have hdropping : ∀ queue irqStamp request, state.event ≠ .dropping queue irqStamp request := by
    intro queue irqStamp request heq
    rw [heq] at howner
    cases howner
  refine { h with
    turn_ok := ?_
    event := hevent
    creator := fun thread => (h.creator thread).frame (CreatorFrame.still rfl rfl rfl rfl)
    notified_dropped := fun _ hnotified hmem =>
      absurd hmem (h.notMem_of_notified hdropping hnotified) }
  intro process
  refine (h.turn_ok process).frame (TurnFrame.still rfl rfl ?_ rfl)
  intro hsome
  cases howner.symm.trans hsome

variable {queue : Nat} {irqStamp : Timestamp} {request : TimerMsg}

variable (h : Consistent state turn)

include h

theorem popExpired_consistent {rest : List TimerMsg}
    (hevent : state.event = .ticking queue irqStamp)
    (hqueue : state.queues queue = request :: rest) (hdue : ¬ irqStamp < request.expirationStamp) :
    Consistent { state with
        queues := update state.queues queue rest
        event := .notifying queue irqStamp request }
      (update turn request.sourceProcess .popped) := by
  have hmem : request ∈ state.queues queue := by simp [hqueue]
  have hmemOf : ∀ queue' other, other ∈ update state.queues queue rest queue' →
      other ∈ state.queues queue' := by
    intro queue' other hother
    rcases eq_or_ne queue' queue with rfl | hne
    · rw [update_self] at hother
      simp [hqueue, hother]
    · rwa [update_of_ne hne] at hother
  obtain ⟨hturn, hhead, -⟩ := h.queued queue request hmem
  -- The popped request was the only queued one of its process.
  have hother : ∀ queue' other, other ∈ update state.queues queue rest queue' →
      other.sourceProcess ≠ request.sourceProcess := by
    intro queue' other hother hprocess
    obtain ⟨rfl, rfl⟩ := h.queued_unique (hmemOf queue' other hother) hmem hprocess
    rw [update_self] at hother
    have hnodup := h.queue_nodup queue'
    rw [hqueue] at hnodup
    exact (nodup_cons.mp hnodup).1 hother
  refine { h with
    turn_ok := h.pass_turn_ok rfl ?_
    stream_empty := h.pass_turn_head hhead nofun
    queue_nodup := ?_
    queued := ?_
    event := ⟨by simp, hhead, le_of_not_gt_total hdue⟩
    creator := ?_
    notified_dropped := ?_ }
  · intro process hne
    refine ⟨id, ?_, ?_, fun _ => id⟩
    · intro queue' other hmem' hprocess
      dsimp only
      rcases eq_or_ne queue' queue with rfl | hqueue'
      · rw [hqueue] at hmem'
        rw [update_self]
        refine mem_of_ne_of_mem ?_ hmem'
        rintro rfl
        exact hne hprocess.symm
      · rwa [update_of_ne hqueue']
    · rw [hevent]
      intro hsome
      cases hsome
  · intro queue'
    rcases eq_or_ne queue' queue with rfl | hne
    · have hnodup := h.queue_nodup queue'
      rw [hqueue] at hnodup
      simpa using (nodup_cons.mp hnodup).2
    · simpa [update_of_ne hne] using h.queue_nodup queue'
  · intro queue' other hmem'
    rw [update_of_ne (hother queue' other hmem')]
    exact h.queued queue' other (hmemOf queue' other hmem')
  · intro thread
    exact (h.creator thread).frame (CreatorFrame.passTurn _ rfl rfl rfl rfl (by simp [hturn])
      (by simp [hturn]))
  · intro other hnotified hmem
    exact absurd hmem (h.notMem_of_notified (by simp [hevent]) hnotified)

theorem notify_consistent
    (hevent : state.event = .notifying queue irqStamp request) :
    Consistent { state with
        notified := (request, irqStamp) :: state.notified
        event := .dropping queue irqStamp request } turn := by
  have hok := h.event
  rw [EventOk, hevent] at hok
  obtain ⟨hturn, hhead, hdue⟩ := hok
  have hmem := mem_of_head? hhead
  have hfresh : request ∉ state.notified.map Prod.fst :=
    fun hnotified => h.notMem_of_notified (by simp [hevent]) hnotified hmem
  refine { h with
    turn_ok := ?_
    event := ⟨hturn, hhead, by simp⟩
    creator := ?_
    notified_once := ?_
    notified_expired := ?_
    notified_created := ?_
    notified_dropped := ?_
    deleted_dropped := ?_
    kept := ?_ }
  · intro process
    refine (h.turn_ok process).frame (TurnFrame.still rfl rfl ?_ rfl)
    rw [hevent]
    exact id
  · exact fun thread => (h.creator thread).frame (CreatorFrame.still rfl rfl rfl rfl)
  · exact nodup_cons.mpr ⟨hfresh, h.notified_once⟩
  · intro notice hnotice
    rcases mem_cons.mp hnotice with rfl | hnotice
    · exact hdue
    · exact h.notified_expired notice hnotice
  · intro other hother
    rcases mem_cons.mp hother with rfl | hother
    · exact h.stream_created _ _ hmem
    · exact h.notified_created other hother
  · intro other hother hstream
    rcases mem_cons.mp hother with rfl | hother
    · exact ⟨queue, irqStamp, rfl⟩
    · exact absurd hstream (h.notMem_of_notified (by simp [hevent]) hother)
  · intro other hother
    obtain ⟨hnotified, hdropped⟩ := h.deleted_dropped other hother
    exact ⟨mem_cons_of_mem _ hnotified, hdropped⟩
  · intro other hother
    rcases h.kept other hother with hnotified | hrest
    · exact .inl (mem_cons_of_mem _ hnotified)
    · exact .inr hrest

theorem dropHead_consistent
    (hevent : state.event = .dropping queue irqStamp request)
    (hlock : state.streamLock request.sourceProcess = none) :
    ∃ rest, state.streams request.sourceProcess = request :: rest ∧
      Consistent { state with
          streams := update state.streams request.sourceProcess rest
          event := .reading queue irqStamp request }
        (update turn request.sourceProcess .reading) := by
  have hok := h.event
  rw [EventOk, hevent] at hok
  obtain ⟨hturn, hhead, hnotified⟩ := hok
  obtain ⟨rest, hstream⟩ := head?_eq_some_iff.mp hhead
  refine ⟨rest, hstream, ?_⟩
  have hsub : ∀ process, List.Sublist
      (update state.streams request.sourceProcess rest process)
      (state.streams process) := by
    intro process
    rcases eq_or_ne process request.sourceProcess with rfl | hne
    · rw [update_self, hstream]
      exact sublist_cons_self _ _
    · rw [update_of_ne hne]
  have hgone : request ∉ rest := by
    have hnodup := h.nodup request.sourceProcess
    rw [hstream] at hnodup
    exact (nodup_cons.mp hnodup).1
  refine { h with
    sorted := fun process => (h.sorted process).sublist (hsub process)
    nodup := fun process => (h.nodup process).sublist (hsub process)
    owner := fun process other hmem => h.owner process other ((hsub process).subset hmem)
    stream_created := fun process other hmem =>
      h.stream_created process other ((hsub process).subset hmem)
    turn_ok := h.pass_turn_ok rfl ?_
    stream_empty := ?_
    queued := ?_
    event := ⟨by simp, hnotified, by simpa using hgone⟩
    creator := ?_
    notified_dropped := ?_
    deleted_dropped := ?_
    kept := ?_ }
  all_goals try dsimp only
  · intro process hne
    refine ⟨fun hempty => (update_of_ne hne _ _).trans hempty, fun _ _ hmem _ => hmem, ?_,
      fun _ => id⟩
    simp [hevent, EventPc.owner, hne.symm]
  · intro process hempty
    rcases eq_or_ne process request.sourceProcess with rfl | hne
    · exact .inr (by simp)
    · rw [update_of_ne hne] at hempty ⊢
      exact h.stream_empty process hempty
  · intro queue' other hmem
    have hqueued := h.queued queue' other hmem
    have hne : other.sourceProcess ≠ request.sourceProcess := by
      intro heq
      rw [heq, hturn] at hqueued
      simp at hqueued
    rw [update_of_ne hne, update_of_ne hne]
    exact hqueued
  · intro thread
    refine (h.creator thread).frame ⟨rfl, fun _ _ => id, ?_, ?_, ?_⟩
    · intro process hlocked
      have hne : process ≠ request.sourceProcess := by
        rintro rfl
        simp [hlock] at hlocked
      exact ⟨update_of_ne hne _ _, hlocked⟩
    · intro process hcancelled
      have hne : process ≠ request.sourceProcess := by
        rintro rfl
        simp [hturn] at hcancelled
      rwa [update_of_ne hne]
    · intro process hcreating
      have hne : process ≠ request.sourceProcess := by
        rintro rfl
        simp [hturn] at hcreating
      exact ⟨by rwa [update_of_ne hne], by dsimp only; rw [update_of_ne hne]⟩
  · intro other hother hmem
    obtain ⟨queue', irqStamp', heq⟩ :=
      h.notified_dropped other hother ((hsub _).subset hmem)
    rw [hevent] at heq
    obtain rfl : request = other := (EventPc.dropping.inj heq).2.2
    rw [update_self] at hmem
    exact absurd hmem hgone
  · intro other hother
    obtain ⟨hnotice, hdropped⟩ := h.deleted_dropped other hother
    exact ⟨hnotice, fun hmem => hdropped ((hsub _).subset hmem)⟩
  · intro other hother
    rcases h.kept other hother with hnotice | hmem
    · exact .inl hnotice
    · rcases eq_or_ne other request with rfl | hne
      · exact .inl hnotified
      · right
        rcases eq_or_ne other.sourceProcess request.sourceProcess with hprocess | hprocess
        · rw [hprocess, hstream] at hmem
          rw [hprocess, update_self]
          exact mem_of_ne_of_mem hne hmem
        · rwa [update_of_ne hprocess]

theorem readHead_consistent
    (hevent : state.event = .reading queue irqStamp request) (event : EventPc) (next : Turn)
    (hok : EventOk { state with event := event } (update turn request.sourceProcess next))
    (hempty : next = .empty ↔ state.streams request.sourceProcess = [])
    (hnext : TurnOk { state with event := event } request.sourceProcess next) :
    Consistent { state with event := event } (update turn request.sourceProcess next) := by
  have hold := h.event
  rw [EventOk, hevent] at hold
  obtain ⟨hturn, -, -⟩ := hold
  refine { h with
    turn_ok := h.pass_turn_ok hnext ?_
    stream_empty := h.pass_turn _ next hempty
    queued := ?_
    event := hok
    creator := ?_
    notified_dropped := ?_ }
  · intro process hne
    refine TurnFrame.still rfl rfl ?_ rfl
    simp [hevent, EventPc.owner, hne.symm]
  · intro queue' other hmem
    have hqueued := h.queued queue' other hmem
    have hne : other.sourceProcess ≠ request.sourceProcess := by
      intro heq
      rw [heq, hturn] at hqueued
      simp at hqueued
    rw [update_of_ne hne]
    exact hqueued
  · intro thread
    exact (h.creator thread).frame (CreatorFrame.passTurn _ rfl rfl rfl rfl (by simp [hturn])
      (by simp [hturn]))
  · intro other hother hmem
    exact absurd hmem (h.notMem_of_notified (by simp [hevent]) hother)

theorem deleteRequest_consistent
    (hevent : state.event = .deleting queue irqStamp request) :
    Consistent { state with
        deleted := request :: state.deleted
        event := .ticking queue irqStamp } turn := by
  have hok := h.event
  rw [EventOk, hevent] at hok
  have hmoved : Consistent { state with event := .ticking queue irqStamp } turn :=
    h.setEvent _ (by rw [hevent]; rfl) trivial
  refine { hmoved with
    event := trivial
    creator := ?_
    deleted_dropped := ?_ }
  · intro thread
    exact (hmoved.creator thread).frame (CreatorFrame.still rfl rfl rfl rfl)
  · intro other hother
    rcases mem_cons.mp hother with rfl | hother
    · exact hok
    · exact h.deleted_dropped other hother

theorem Consistent.enqueue (target : Nat)
    (hhead : (state.streams request.sourceProcess).head? = some request)
    (hturn : ∀ queue, turn request.sourceProcess ≠ .queued queue) :
    (∀ queue, ((insertTimerQueueRequestObject state (some target) request).queues queue).Nodup) ∧
      ∀ queue, ∀ other ∈ (insertTimerQueueRequestObject state (some target) request).queues queue,
        update turn request.sourceProcess (.queued target) other.sourceProcess =
            .queued queue ∧ (state.streams other.sourceProcess).head? = some other ∧
          (insertTimerQueueRequestObject state (some target) request).currentQueue other = some queue := by
  have habsent : ∀ queue, request ∉ state.queues queue :=
    fun queue hmem => hturn queue (h.queued queue request hmem).1
  have hperm := insertByKey_perm TimerMsg.expirationStamp request (state.queues target)
  simp only [insertTimerQueueRequestObject]
  constructor
  · intro queue
    rcases eq_or_ne queue target with rfl | hne
    · rw [update_self, hperm.nodup_iff]
      exact nodup_cons.mpr ⟨habsent queue, h.queue_nodup queue⟩
    · rw [update_of_ne hne]
      exact h.queue_nodup queue
  · intro queue other hmem
    have hcases : (queue = target ∧ other = request) ∨ other ∈ state.queues queue := by
      rcases eq_or_ne queue target with rfl | hne
      · rw [update_self, hperm.mem_iff] at hmem
        rcases mem_cons.mp hmem with rfl | hmem
        · exact .inl ⟨rfl, rfl⟩
        · exact .inr hmem
      · rw [update_of_ne hne] at hmem
        exact .inr hmem
    rcases hcases with ⟨rfl, rfl⟩ | hmem
    · exact ⟨by simp, hhead, by simp⟩
    obtain ⟨hqueued, hfirst, hcurrent⟩ := h.queued queue other hmem
    have hne : other.sourceProcess ≠ request.sourceProcess := by
      intro heq
      exact hturn queue (heq ▸ hqueued)
    have hother : other ≠ request := fun heq => hne (heq ▸ rfl)
    exact ⟨by rwa [update_of_ne hne], hfirst, by rwa [update_of_ne hother]⟩

theorem install_consistent {next : TimerMsg} (target : Nat)
    (hevent : state.event = .installing queue irqStamp request next) :
    Consistent { insertTimerQueueRequestObject state (some target) next with
        event := .deleting queue irqStamp request }
      (update turn next.sourceProcess (.queued target)) := by
  have hok := h.event
  rw [EventOk, hevent] at hok
  obtain ⟨hturn, hhead, hnotified, hdropped⟩ := hok
  obtain ⟨hnodup, hqueued⟩ := h.enqueue target hhead (by simp [hturn])
  obtain ⟨hinstalled, hothers⟩ := mem_enqueue state target next
  refine { h with
    turn_ok := h.pass_turn_ok ⟨next, hinstalled, rfl⟩ ?_
    stream_empty := h.pass_turn_head hhead nofun
    queue_nodup := hnodup
    queued := hqueued
    event := ⟨hnotified, hdropped⟩
    creator := ?_
    notified_dropped := ?_ }
  · intro process hne
    refine ⟨id, fun queue' other hmem _ => hothers queue' other hmem, ?_, fun _ => id⟩
    simp [hevent, EventPc.owner, hne.symm]
  · intro thread
    exact (h.creator thread).frame (CreatorFrame.passTurn _ rfl rfl rfl rfl (by simp [hturn])
      (by simp [hturn]))
  · intro other hother hmem
    exact absurd hmem (h.notMem_of_notified (by simp [hevent]) hother)

omit h

end

section

variable {state : State} {turn : Nat → Turn} {thread : Nat} {request : TimerMsg}

theorem installs_update {process : Nat} {pc : CreatePc}
    (h : (state.creators thread).installs = some process → pc.installs = some process) :
    ∀ other, (state.creators other).installs = some process →
      (update state.creators thread pc other).installs = some process := by
  intro other hother
  rcases eq_or_ne other thread with rfl | hne
  · rw [update_self]
    exact h hother
  · rwa [update_of_ne hne]

variable (h : Consistent state turn)

include h

theorem beginCreate_consistent
    (hcreator : state.creators thread = .idle)
    (hlock : state.streamLock request.sourceProcess = none) (hfresh : request ∉ state.created) :
    Consistent { state with
        streamLock := update state.streamLock request.sourceProcess (some thread)
        creators := update state.creators thread (.comparing request) } turn := by
  refine { h with
    turn_ok := ?_
    creator := ?_ }
  · intro process
    refine (h.turn_ok process).frame ⟨id, fun _ _ hmem _ => hmem, id, installs_update ?_⟩
    rw [hcreator]
    intro hsome
    cases hsome
  · intro other
    rcases eq_or_ne other thread with rfl | hne
    · rw [CreatorOk]
      simp only [update_self]
      exact ⟨by simp, hfresh⟩
    refine (h.creator other).frame ⟨update_of_ne hne _ _, fun _ _ => id, ?_, fun _ => id,
      fun _ hcreating => ⟨hcreating, rfl⟩⟩
    intro process hlocked
    have hprocess : process ≠ request.sourceProcess := by
      rintro rfl
      simp [hlock] at hlocked
    exact ⟨rfl, by dsimp only; rwa [update_of_ne hprocess]⟩

theorem Consistent.setCreator (thread : Nat) (pc : CreatePc)
    (hinstalls : (state.creators thread).installs = none)
    (hok : CreatorOk { state with creators := update state.creators thread pc } turn
      thread) :
    Consistent { state with creators := update state.creators thread pc } turn := by
  refine { h with
    turn_ok := ?_
    creator := ?_ }
  · intro process
    refine (h.turn_ok process).frame ⟨id, fun _ _ hmem _ => hmem, id, installs_update ?_⟩
    rw [hinstalls]
    intro hsome
    cases hsome
  · intro other
    rcases eq_or_ne other thread with rfl | hne
    · exact hok
    · exact (h.creator other).frame (CreatorFrame.still (update_of_ne hne _ _) rfl rfl rfl)

theorem cancel_consistent {current : TimerMsg} {queue : Nat}
    (hcreator : state.creators thread = .cancelling request current)
    (hmem : current ∈ state.queues queue) :
    ∃ next, cancelTimerQueueRequestObject state current = some next ∧
      Consistent { next with
          creators := update next.creators thread (.adding request true) }
        (update turn request.sourceProcess (.cancelled thread)) := by
  obtain ⟨hturn, hfirst, hcurrent⟩ := h.queued queue current hmem
  have hok := h.creator thread
  simp only [CreatorOk, hcreator] at hok
  obtain ⟨hunadded, hhead, hlt⟩ := hok
  have hprocess : current.sourceProcess = request.sourceProcess :=
    h.owner _ _ (mem_of_head? hhead)
  rw [hprocess] at hturn
  refine ⟨_, by rw [cancelTimerQueueRequestObject, hcurrent]; rfl, ?_⟩
  refine { h with
    turn_ok := h.pass_turn_ok ?_ ?_
    stream_empty := h.pass_turn_head hhead nofun
    queue_nodup := ?_
    queued := ?_
    event := ?_
    creator := ?_ }
  · dsimp only [TurnOk]
    rw [update_self]
    rfl
  · intro process hne
    refine ⟨id, ?_, id, installs_update ?_⟩
    · intro queue' other hother hprocess'
      dsimp only
      rcases eq_or_ne queue' queue with rfl | hqueue'
      · rw [update_self, (h.queue_nodup queue').mem_erase_iff]
        refine ⟨?_, hother⟩
        rintro rfl
        exact hne (hprocess'.symm.trans hprocess)
      · rwa [update_of_ne hqueue']
    · rw [hcreator]
      intro hsome
      cases hsome
  · intro queue'
    dsimp only
    rcases eq_or_ne queue' queue with rfl | hne
    · rw [update_self]
      exact (h.queue_nodup queue').erase current
    · rw [update_of_ne hne]
      exact h.queue_nodup queue'
  · dsimp only
    intro queue' other hother
    -- The cancelled request was the only queued one of its process.
    have hcases : other ∈ state.queues queue' ∧ other ≠ current := by
      rcases eq_or_ne queue' queue with rfl | hne
      · rw [update_self, (h.queue_nodup queue').mem_erase_iff] at hother
        exact ⟨hother.2, hother.1⟩
      · rw [update_of_ne hne] at hother
        refine ⟨hother, ?_⟩
        rintro rfl
        exact hne (h.queued_unique hother hmem rfl).1
    have hne : other.sourceProcess ≠ request.sourceProcess := by
      intro heq
      exact hcases.2 (h.queued_unique hcases.1 hmem (heq.trans hprocess.symm)).2
    rw [update_of_ne hne, update_of_ne hcases.2]
    exact h.queued queue' other hcases.1
  · refine h.event.passTurn _ rfl rfl rfl ?_
    rw [hturn]
    exact id
  · intro other
    rcases eq_or_ne other thread with rfl | hne
    · rw [CreatorOk]
      simp only [update_self]
      exact ⟨⟨hunadded.locked, hunadded.fresh⟩, .inr ⟨trivial, current, hhead, hlt⟩⟩
    refine (h.creator other).frame (CreatorFrame.passTurn _ (update_of_ne hne _ _)
      rfl rfl rfl ?_ ?_)
    · rw [hturn]
      simp
    · rw [hturn]
      simp

theorem compare_consistent (hcreator : state.creators thread = .comparing request) :
    ∃ next, createStep state (.compare thread) = some next ∧ Consistent next turn := by
  have hunadded := h.creator thread
  simp only [CreatorOk, hcreator] at hunadded
  have hmoved (creators : Nat → CreatePc) : Unadded { state with creators := creators } thread
      request :=
    ⟨hunadded.locked, hunadded.fresh⟩
  have hinstalls : (state.creators thread).installs = none := by
    rw [hcreator]
    rfl
  cases hstream : state.streams request.sourceProcess with
  | nil =>
    refine ⟨_, by simp only [createStep, hcreator, hstream],
      h.setCreator thread (.adding request true) hinstalls ?_⟩
    simp only [CreatorOk, update_self]
    exact ⟨hmoved _, .inl hstream⟩
  | cons current rest =>
    rcases em (request.expirationStamp < current.expirationStamp) with hlt | hge
    · refine ⟨_, by simp only [createStep, hcreator, hstream, if_pos hlt],
        h.setCreator thread (.cancelling request current) hinstalls ?_⟩
      simp only [CreatorOk, update_self]
      exact ⟨hmoved _, by simp [hstream], hlt⟩
    · refine ⟨_, by simp only [createStep, hcreator, hstream, if_neg hge],
        h.setCreator thread (.adding request false) hinstalls ?_⟩
      simp only [CreatorOk, update_self]
      exact ⟨hmoved _, current, by simp [hstream], hge⟩

theorem insert_consistent (target : Nat)
    (hcreator : state.creators thread = .inserting request) :
    Consistent { insertTimerQueueRequestObject state (some target) request with
        creators := update state.creators thread .idle }
      (update turn request.sourceProcess (.queued target)) := by
  have hok := h.creator thread
  simp only [CreatorOk, hcreator] at hok
  obtain ⟨hturn, hhead⟩ := hok
  obtain ⟨hnodup, hqueued⟩ := h.enqueue target hhead (by simp [hturn])
  obtain ⟨hinstalled, hothers⟩ := mem_enqueue state target request
  refine { h with
    turn_ok := h.pass_turn_ok ⟨request, hinstalled, rfl⟩ ?_
    stream_empty := h.pass_turn_head hhead nofun
    queue_nodup := hnodup
    queued := hqueued
    event := ?_
    creator := ?_ }
  · intro process hne
    refine ⟨id, fun queue' other hmem _ => hothers queue' other hmem, id, installs_update ?_⟩
    rw [hcreator]
    intro hsome
    exact absurd (some.inj hsome).symm hne
  · refine h.event.passTurn _ rfl rfl rfl ?_
    rw [hturn]
    exact id
  · intro other
    rcases eq_or_ne other thread with rfl | hne
    · simp [CreatorOk]
    refine (h.creator other).frame (CreatorFrame.passTurn _ (update_of_ne hne _ _)
      rfl rfl rfl ?_ ?_)
    · rw [hturn]
      simp
    · rw [hturn]
      intro hcreating
      exact hne (Turn.creating.inj hcreating).symm

theorem Consistent.add_cases {install : Bool}
    (hcreator : state.creators thread = .adding request install)
    (hreading : state.streams request.sourceProcess = [] → ∀ queue irqStamp other,
      state.event = .reading queue irqStamp other → other.sourceProcess ≠ request.sourceProcess) :
    Unadded state thread request ∧ ((install = true ∧
          (turn request.sourceProcess = .empty ∨ turn request.sourceProcess = .cancelled thread) ∧
          (insertByKey TimerMsg.expirationStamp request
            (state.streams request.sourceProcess)).head? = some request) ∨
        (install = false ∧ state.streams request.sourceProcess ≠ [] ∧
          (insertByKey TimerMsg.expirationStamp request
            (state.streams request.sourceProcess)).head? =
              (state.streams request.sourceProcess).head?)) := by
  have hok := h.creator thread
  rw [CreatorOk, hcreator] at hok
  cases install with
  | true =>
    obtain ⟨hunadded, hplace⟩ := hok
    refine ⟨hunadded, .inl ⟨rfl, ?_⟩⟩
    rcases hplace with hempty | ⟨hturn, current, hcurrent, hlt⟩
    · refine ⟨?_, by simp [head?_insertByKey, hempty]⟩
      rcases h.stream_empty _ hempty with hturn | hturn
      · exact .inl hturn
      · obtain ⟨queue, irqStamp, other, hevent, hprocess⟩ := h.turn_reading hturn
        exact absurd hprocess (hreading hempty queue irqStamp other hevent)
    · exact ⟨.inr hturn, by simp [head?_insertByKey, hcurrent, hlt]⟩
  | false =>
    obtain ⟨hunadded, current, hcurrent, hge⟩ := hok
    refine ⟨hunadded, .inr ⟨rfl, ?_, by simp [head?_insertByKey, hcurrent, hge]⟩⟩
    intro hempty
    simp [hempty] at hcurrent

theorem add_consistent {install : Bool}
    (hcreator : state.creators thread = .adding request install)
    (horder : BelongsNearEnd TimerMsg.expirationStamp request.expirationStamp
      (state.streams request.sourceProcess))
    (hreading : state.streams request.sourceProcess = [] → ∀ queue irqStamp other,
      state.event = .reading queue irqStamp other → other.sourceProcess ≠ request.sourceProcess) :
    Consistent { state with
        streams := update state.streams request.sourceProcess
          (insertByKey TimerMsg.expirationStamp request (state.streams request.sourceProcess))
        streamLock := update state.streamLock request.sourceProcess none
        creators := update state.creators thread
          (if install then .inserting request else .idle)
        created := request :: state.created }
      (if install then update turn request.sourceProcess (.creating thread)
        else turn) := by
  obtain ⟨hunadded, hcases⟩ := h.add_cases hcreator hreading
  have hperm := insertByKey_perm TimerMsg.expirationStamp request
    (state.streams request.sourceProcess)
  generalize hadded : insertByKey TimerMsg.expirationStamp request
    (state.streams request.sourceProcess) = added at hcases hperm ⊢
  have hmemOf : ∀ process other, other ∈ update state.streams request.sourceProcess added process →
      (process = request.sourceProcess ∧ other = request) ∨ other ∈ state.streams process := by
    intro process other hmem
    rcases eq_or_ne process request.sourceProcess with rfl | hne
    · rw [update_self, hperm.mem_iff] at hmem
      exact (mem_cons.mp hmem).imp_left fun heq => ⟨rfl, heq⟩
    · rw [update_of_ne hne] at hmem
      exact .inr hmem
  -- Everything outside the process is as before.
  have hturnNe : ∀ process, process ≠ request.sourceProcess →
      (if install then update turn request.sourceProcess (.creating thread) else turn)
        process = turn process := by
    intro process hne
    split
    · exact update_of_ne hne _ _
    · rfl
  -- So are the turn and the head, unless the thread was about to take the turn.
  have hkeep : ∀ process, turn process ≠ .empty → turn process ≠ .cancelled thread →
      (if install then update turn request.sourceProcess (.creating thread) else turn)
          process = turn process ∧
        (update state.streams request.sourceProcess added process).head? =
          (state.streams process).head? := by
    intro process hempty hcancelled
    rcases eq_or_ne process request.sourceProcess with rfl | hne
    · rw [update_self]
      rcases hcases with ⟨-, hturn | hturn, -⟩ | ⟨rfl, -, hkept⟩
      · exact absurd hturn hempty
      · exact absurd hturn hcancelled
      · exact ⟨rfl, hkept⟩
    · rw [update_of_ne hne]
      exact ⟨hturnNe process hne, rfl⟩
  have hnotTheirs : ∀ other, other ≠ thread → ∀ process,
      state.streamLock process = some other → process ≠ request.sourceProcess := by
    rintro other hne process hlocked rfl
    rw [hunadded.locked] at hlocked
    exact hne (some.inj hlocked).symm
  have hnotNotified : ∀ other ∈ state.notified.map Prod.fst,
      other ∈ update state.streams request.sourceProcess added other.sourceProcess →
        other ∈ state.streams other.sourceProcess := by
    intro other hnotified hmem
    rcases hmemOf _ other hmem with ⟨-, rfl⟩ | hmem
    · exact absurd (h.notified_created _ hnotified) hunadded.fresh
    · exact hmem
  refine { h with
    sorted := ?_
    nodup := ?_
    owner := ?_
    stream_created := ?_
    turn_ok := ?_
    stream_empty := ?_
    queued := ?_
    event := ?_
    creator := ?_
    notified_created := fun other hother =>
      mem_cons_of_mem _ (h.notified_created other hother)
    notified_dropped := fun other hnotified hmem =>
      h.notified_dropped other hnotified (hnotNotified other hnotified hmem)
    deleted_dropped := fun other hother => (h.deleted_dropped other hother).imp_right
      fun hdropped hmem => hdropped (hnotNotified other (h.deleted_dropped other hother).1 hmem)
    kept := ?_ }
  all_goals try dsimp only
  · intro process
    rcases eq_or_ne process request.sourceProcess with rfl | hne
    · rw [update_self, ← hadded]
      exact (sorted_insertByKey_iff (h.sorted _)).mpr horder
    · rw [update_of_ne hne]
      exact h.sorted process
  · intro process
    rcases eq_or_ne process request.sourceProcess with rfl | hne
    · rw [update_self, hperm.nodup_iff]
      refine nodup_cons.mpr ⟨?_, h.nodup _⟩
      exact fun hmem => hunadded.fresh (h.stream_created _ _ hmem)
    · rw [update_of_ne hne]
      exact h.nodup process
  · intro process other hmem
    rcases hmemOf process other hmem with ⟨rfl, rfl⟩ | hmem
    · rfl
    · exact h.owner process other hmem
  · intro process other hmem
    rcases hmemOf process other hmem with ⟨-, rfl⟩ | hmem
    · exact mem_cons_self
    · exact mem_cons_of_mem _ (h.stream_created process other hmem)
  · intro process
    rcases em (install = true ∧ process = request.sourceProcess) with ⟨rfl, rfl⟩ | hother
    · simp [TurnOk, CreatePc.installs]
    have hturn : (if install then update turn request.sourceProcess (.creating thread) else turn)
        process = turn process := by
      cases install with
      | true => exact hturnNe process fun heq => hother ⟨rfl, heq⟩
      | false => rfl
    rw [hturn]
    refine (h.turn_ok process).frame ⟨?_, fun _ _ hmem _ => hmem, id, installs_update ?_⟩
    · intro hnil
      refine (update_of_ne ?_ _ _).trans hnil
      rintro rfl
      rcases hcases with ⟨rfl, -, -⟩ | ⟨-, hstream, -⟩
      · exact hother ⟨rfl, rfl⟩
      · exact hstream hnil
    · rw [hcreator]
      intro hsome
      cases install with
      | true => exact absurd ⟨rfl, (some.inj hsome).symm⟩ hother
      | false => cases hsome
  · intro process hempty
    rcases eq_or_ne process request.sourceProcess with rfl | hne
    · rw [update_self] at hempty
      simp [hempty] at hperm
    · rw [update_of_ne hne] at hempty
      rw [hturnNe process hne]
      exact h.stream_empty process hempty
  · intro queue other hmem
    obtain ⟨hturn, hhead, hcurrent⟩ := h.queued queue other hmem
    obtain ⟨hturn', hhead'⟩ := hkeep other.sourceProcess (by simp [hturn]) (by simp [hturn])
    exact ⟨hturn'.trans hturn, hhead'.trans hhead, hcurrent⟩
  · refine h.event.frame rfl (fun _ hnotified => hnotified) ?_
      fun other hnotified hdropped hmem => hdropped (hnotNotified other hnotified hmem)
    intro process hof
    refine hkeep process ?_ ?_
    · intro hturn
      simp [hturn, Turn.OfEvent] at hof
    · intro hturn
      simp [hturn, Turn.OfEvent] at hof
  · intro other
    rcases eq_or_ne other thread with rfl | hne
    · simp only [CreatorOk, update_self]
      rcases hcases with ⟨rfl, -, hhead⟩ | ⟨rfl, -, -⟩
      · exact ⟨by simp, by simpa using hhead⟩
      · trivial
    refine (h.creator other).frame ⟨update_of_ne hne _ _, ?_, ?_, ?_, ?_⟩
    · intro other' hlocked hfresh hmem
      rcases mem_cons.mp hmem with rfl | hmem
      · exact hnotTheirs other hne _ hlocked rfl
      · exact hfresh hmem
    · intro process hlocked
      have hprocess := hnotTheirs other hne process hlocked
      exact ⟨update_of_ne hprocess _ _, (update_of_ne hprocess _ _).trans hlocked⟩
    · intro process hturn
      exact (hkeep process (by simp [hturn]) (by simpa [hturn] using hne)).1.trans hturn
    · intro process hturn
      obtain ⟨hturn', hhead'⟩ := hkeep process (by simp [hturn]) (by simp [hturn])
      exact ⟨hturn'.trans hturn, hhead'⟩
  · intro other hother
    rcases mem_cons.mp hother with rfl | hother
    · right
      rw [update_self, hperm.mem_iff]
      exact mem_cons_self
    refine (h.kept other hother).imp_right fun hmem => ?_
    rcases eq_or_ne other.sourceProcess request.sourceProcess with heq | hne
    · rw [heq] at hmem ⊢
      rw [update_self, hperm.mem_iff]
      exact mem_cons_of_mem _ hmem
    · rwa [update_of_ne hne]

theorem rejected_consistent {install : Bool}
    (hcreator : state.creators thread = .adding request install)
    (hempty : install = true → state.streams request.sourceProcess = []) :
    Consistent { state with
        streamLock := update state.streamLock request.sourceProcess none
        creators := update state.creators thread .idle } turn := by
  have hok := h.creator thread
  rw [CreatorOk, hcreator] at hok
  have hlocked : state.streamLock request.sourceProcess = some thread := by
    cases install with
    | true => exact hok.1.locked
    | false => exact hok.1.locked
  refine { h with
    turn_ok := ?_
    creator := ?_ }
  · intro process
    rcases em ((state.creators thread).installs = some process) with hinstalls | hinstalls
    · -- The stream is empty, and the thread had no turn.
      rw [hcreator] at hinstalls
      cases install with
      | false => cases hinstalls
      | true =>
        obtain rfl := some.inj hinstalls
        have hturn := h.turn_ok request.sourceProcess
        rcases h.stream_empty _ (hempty rfl) with heq | heq
        · rw [heq]
          exact hempty rfl
        · rw [heq] at hturn ⊢
          exact hturn
    · exact (h.turn_ok process).frame ⟨id, fun _ _ hmem _ => hmem, id,
        installs_update fun hsome => absurd hsome hinstalls⟩
  · intro other
    rcases eq_or_ne other thread with rfl | hne
    · simp [CreatorOk]
    refine (h.creator other).frame ⟨update_of_ne hne _ _, fun _ _ => id, ?_, fun _ => id,
      fun _ hcreating => ⟨hcreating, rfl⟩⟩
    intro process hlocked'
    have hprocess : process ≠ request.sourceProcess := by
      rintro rfl
      rw [hlocked] at hlocked'
      exact hne (some.inj hlocked').symm
    exact ⟨rfl, (update_of_ne hprocess _ _).trans hlocked'⟩

omit h

end

theorem consistent_initialState : Consistent initialState fun _ => .empty where
  sorted := fun _ => List.Pairwise.nil
  nodup := fun _ => nodup_nil
  owner := by simp [initialState]
  stream_created := by simp [initialState]
  turn_ok := fun _ => rfl
  stream_empty := fun _ _ => .inl rfl
  queue_nodup := fun _ => nodup_nil
  queued := by simp [initialState]
  event := trivial
  creator := fun _ => trivial
  notified_once := nodup_nil
  notified_expired := by simp [initialState]
  notified_created := by simp [initialState]
  notified_dropped := by simp [initialState]
  deleted_dropped := by simp [initialState]
  kept := by simp [initialState]

theorem eventStep_consistent {state : State} {turn : Nat → Turn} (h : Consistent state turn)
    {action : Action} (hevent : action = .popExpired ∨ action = .dropHead ∨ action = .readHead)
    (henabled : Enabled state action) :
    ∃ next turn', eventStep state action = some next ∧ Consistent next turn' := by
  rcases hevent with rfl | rfl | rfl
  · obtain ⟨queue, irqStamp, hevent⟩ := henabled
    have hidle : Consistent { state with event := .idle } turn :=
      h.setEvent _ (by rw [hevent]; rfl) trivial
    cases hqueue : state.queues queue with
    | nil => exact ⟨_, turn, by simp only [eventStep, hevent, hqueue], hidle⟩
    | cons request rest =>
      rcases em (irqStamp < request.expirationStamp) with hlate | hdue
      · exact ⟨_, turn, by simp only [eventStep, hevent, hqueue, if_pos hlate], hidle⟩
      · exact ⟨_, _, by simp only [eventStep, hevent, hqueue, if_neg hdue],
          popExpired_consistent h hevent hqueue hdue⟩
  · obtain ⟨queue, irqStamp, request, hevent, hlock⟩ := henabled
    obtain ⟨rest, hstream, hnext⟩ := dropHead_consistent h hevent hlock
    refine ⟨_, _, ?_, hnext⟩
    simp [eventStep, hevent, hlock, hstream]
  obtain ⟨queue, irqStamp, request, hevent⟩ := henabled
  have hok := h.event
  rw [EventOk, hevent] at hok
  obtain ⟨-, hnotified, hdropped⟩ := hok
  cases hstream : state.streams request.sourceProcess with
  | nil =>
    refine ⟨_, _, by simp only [eventStep, hevent, hstream],
      readHead_consistent h hevent (.deleting queue irqStamp request) .empty
        ⟨hnotified, hdropped⟩ (by simp [hstream]) hstream⟩
  | cons next rest =>
    have howner : next.sourceProcess = request.sourceProcess :=
      h.owner _ next (by simp [hstream])
    refine ⟨_, _, by simp only [eventStep, hevent, hstream],
      readHead_consistent h hevent (.installing queue irqStamp request next) .carried
        ⟨?_, ?_, hnotified, hdropped⟩ (by simp [hstream]) (congrArg some howner)⟩
    · simp [howner]
    · rw [howner, hstream]
      rfl

theorem step_consistent (state : State) (action : Action) (h : ∃ turn, Consistent state turn)
    (hguard : Enabled state action ∧ Undisturbed state action) :
    ∃ result next, step state action = some (result, next) ∧ ∃ turn, Consistent next turn := by
  obtain ⟨turn, h⟩ := h
  obtain ⟨henabled, hundisturbed⟩ := hguard
  cases action with
  | beginTick queue irqStamp =>
    have hevent : state.event = .idle := henabled
    exact ⟨(), _, by simp only [step, eventStep, hevent, map_some], turn,
      h.setEvent (.ticking queue irqStamp) (by rw [hevent]; rfl) trivial⟩
  | popExpired =>
    obtain ⟨next, turn', hstep, hnext⟩ := eventStep_consistent h (by simp) henabled
    exact ⟨(), next, by simp only [step, hstep, map_some], turn', hnext⟩
  | notify =>
    obtain ⟨queue, irqStamp, request, hevent⟩ := henabled
    exact ⟨(), _, by simp only [step, eventStep, hevent, map_some], turn,
      notify_consistent h hevent⟩
  | dropHead =>
    obtain ⟨next, turn', hstep, hnext⟩ := eventStep_consistent h (by simp) henabled
    exact ⟨(), next, by simp only [step, hstep, map_some], turn', hnext⟩
  | readHead =>
    obtain ⟨next, turn', hstep, hnext⟩ := eventStep_consistent h (by simp) henabled
    exact ⟨(), next, by simp only [step, hstep, map_some], turn', hnext⟩
  | install target =>
    obtain ⟨queue, irqStamp, request, next, hevent⟩ := henabled
    obtain ⟨target, rfl⟩ := ne_none_iff_exists'.mp hundisturbed
    exact ⟨(), _, by simp only [step, eventStep, hevent, map_some], _,
      install_consistent h target hevent⟩
  | deleteRequest =>
    obtain ⟨queue, irqStamp, request, hevent⟩ := henabled
    exact ⟨(), _, by simp only [step, eventStep, hevent, map_some], turn,
      deleteRequest_consistent h hevent⟩
  | beginCreate thread request =>
    obtain ⟨hcreator, hlock, hfresh⟩ := henabled
    refine ⟨(), _, ?_, turn, beginCreate_consistent h hcreator hlock hfresh⟩
    simp [step, createStep, hcreator, hlock]
  | compare thread =>
    obtain ⟨request, hcreator⟩ := henabled
    obtain ⟨next, hstep, hnext⟩ := compare_consistent h hcreator
    exact ⟨(), next, by simp only [step, hstep, map_some], turn, hnext⟩
  | cancel thread =>
    obtain ⟨request, current, hcreator⟩ := henabled
    obtain ⟨queue, hmem⟩ := hundisturbed request current hcreator
    obtain ⟨next, hcancel, hnext⟩ := cancel_consistent h hcreator hmem
    exact ⟨(), _, by simp only [step, createStep, hcreator, hcancel, map_some], _, hnext⟩
  | add thread allocated =>
    obtain ⟨request, install, hcreator⟩ := henabled
    cases allocated with
    | true =>
      obtain ⟨horder, hreading⟩ := hundisturbed request install hcreator
      exact ⟨(), _, by simp only [step, createStep, hcreator, if_true, map_some], _,
        add_consistent h hcreator horder hreading⟩
    | false =>
      refine ⟨(), _, by simp only [step, createStep, hcreator, Bool.false_eq_true, if_false,
        map_some], turn, rejected_consistent h hcreator ?_⟩
      rintro rfl
      exact hundisturbed request hcreator
  | insert thread target =>
    obtain ⟨request, hcreator⟩ := henabled
    obtain ⟨target, rfl⟩ := ne_none_iff_exists'.mp hundisturbed
    exact ⟨(), _, by simp only [step, createStep, hcreator, map_some], _,
      insert_consistent h target hcreator⟩

def requestAt (second : Nat) : TimerMsg :=
  ⟨second, 0, ⟨2000, 1, 1, 0⟩, ⟨second, 0⟩⟩

def createAndTick : List Action :=
  [.beginCreate 1 (requestAt 10), .compare 1, .add 1 true, .insert 1 (some 0),
    .beginTick 0 (requestAt 12).expirationStamp, .popExpired]

end Zambesii.TimerStream
