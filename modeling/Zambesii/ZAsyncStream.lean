import Zambesii.KernelTypes

/-!
`ZAsyncStream`: connections between processes, and the data that they send each other. Each
operation is one step; the outcome of an allocation is an argument of the operation.
-/

namespace Zambesii.ZAsyncStream

open Function
open KernelTypes

def procidProcess (id : Nat) : Nat :=
  id / 2 ^ 16 % 2 ^ 16

def kernelProcess : Nat := 1

/-- The process that `ProcessTrib::getStream` returns the stream of: the kernel for the number of
`CPU_PROCESSID`. -/
def processOf (id : Nat) : Nat :=
  if procidProcess id = 0 then kernelProcess else procidProcess id

inductive Method
  | buffer
  | mapAndCopy
  | mapAndRead
deriving DecidableEq

structure DataHeader where
  method : Method
  nBytes : Nat
  foreignTid : Nat
deriving DecidableEq

/-- `pids` are the first `nConnections` entries of the array, `locked` is the state of
`connections.lock`, and `messages` are the items of the list. -/
structure Stream where
  handlerTid : Option Nat
  locked : Bool
  pids : List Nat
  connectionlessListen : Bool
  messages : List Nat
deriving DecidableEq

/-- The streams by process, the threads that there are, and the data headers that were not
deleted. -/
structure System where
  streams : Nat → Option Stream
  threads : Nat → Bool
  headers : Nat → Option DataHeader

def getStream (system : System) (id : Nat) : Option Stream :=
  system.streams (processOf id)

def setStream (system : System) (process : Nat) (stream : Stream) : System :=
  { system with streams := update system.streams process (some stream) }

def acquire (stream : Stream) : Option Stream :=
  if stream.locked then none else some { stream with locked := true }

def release (stream : Stream) : Stream :=
  { stream with locked := false }

def addConnection (stream : Stream) (pid : Nat) (allocated : Bool) : Option (Kerror × Stream) := do
  let stream ← acquire stream
  if !allocated then
    -- without the array the lock is acquired once more
    let stream ← acquire stream
    some (.memoryNomem, stream)
  else some (.success, release { stream with pids := stream.pids ++ [pid] })

def removeConnection (stream : Stream) (pid : Nat) : Option Stream := do
  let stream ← acquire stream
  some (release
    { stream with pids := stream.pids.eraseP fun other => procidProcess other = procidProcess pid })

def findConnection (stream : Stream) (pid : Nat) : Option Bool := do
  let stream ← acquire stream
  some (stream.pids.any fun other => procidProcess other = procidProcess pid)

def connectionlessListenEnabled (stream : Stream) : Option Bool := do
  let stream ← acquire stream
  some stream.connectionlessListen

/-- `MessageStream::enqueueOnThread`, where `allocated` is for the node of the queue. -/
def enqueueOnThread (system : System) (targetStreamId : Nat) (allocated : Bool) : Kerror :=
  if !system.threads targetStreamId then .invalidResourceName
  else if !allocated then .memoryNomem
  else .success

/-- `connect` on the stream of `process`. It changes no stream. -/
def connect (system : System) (process targetPid : Nat) (request queueNode : Bool) :
    Option Kerror := do
  let stream ← system.streams process
  if ← findConnection stream targetPid then some .duplicate
  else
    match getStream system targetPid with
    | none => some .invalidResourceName
    | some target =>
      match target.handlerTid, stream.handlerTid with
      | some handlerTid, some _ =>
        if !request then some .memoryNomem
        else some (enqueueOnThread system handlerTid queueNode)
      | _, _ => some .uninitialized

inductive ConnectReply
  | yes
  | no
  | closed
deriving DecidableEq

/-- What the allocations of `respond` return: the response, the arrays of the initiator and of the
responder, and the node of the queue. -/
structure RespondMemory where
  response : Bool
  initiatorArray : Bool
  ownArray : Bool
  queueNode : Bool
deriving DecidableEq

/-- `respond` on the stream of `process`, by the thread `sourceId`. -/
def respond (system : System) (process sourceId initiatorPid : Nat) (reply : ConnectReply)
    (memory : RespondMemory) : Option (Kerror × System) := do
  let stream ← system.streams process
  match getStream system initiatorPid with
  | none => some (.invalidResourceName, system)
  | some initiator =>
    if initiator.handlerTid = none ∨ stream.handlerTid = none then some (.uninitialized, system)
    else if !memory.response then some (.memoryNomem, system)
    else if reply = .yes then
      match getStream system initiatorPid with
      | none => some (.notFound, system)
      | some initiator => do
          let (ret, initiator) ← addConnection initiator sourceId memory.initiatorArray
          let system := setStream system (processOf initiatorPid) initiator
          if ret ≠ .success then some (ret, system)
          else
            let stream ← system.streams process
            let (ret, stream) ← addConnection stream initiatorPid memory.ownArray
            let system := setStream system process stream
            if ret ≠ .success then some (ret, system)
            else some (enqueueOnThread system initiatorPid memory.queueNode, system)
    else some (enqueueOnThread system initiatorPid memory.queueNode, system)

/-- What the allocations of `send` return: the address of the header, the message, the node of the
list and the node of the queue. -/
structure SendMemory where
  header : Option Nat
  message : Bool
  listNode : Bool
  queueNode : Bool
deriving DecidableEq

def deleteHeader (system : System) (header : Nat) : System :=
  { system with headers := update system.headers header none }

/-- `ipc::createDataHeader`, by the thread `currentTid`. The buffer method leaves `foreignTid` as
it is in memory. -/
def createDataHeader (system : System) (currentTid nBytes : Nat) (method : Method)
    (header : Nat) : System :=
  { system with
    headers := update system.headers header
      (some ⟨method, nBytes, if method = .buffer then 0 else currentTid⟩) }

/-- `send` on the stream of `process`, by the thread `currentTid`. -/
def send (system : System) (process currentTid bindTid data nBytes : Nat) (method : Method)
    (memory : SendMemory) : Option (Kerror × System) := do
  let stream ← system.streams process
  if data = 0 then some (.invalidArg, system)
  else
    match getStream system bindTid with
    | none => some (.invalidResourceId, system)
    | some target =>
      if !(← connectionlessListenEnabled target) && !(← findConnection stream bindTid) then
        some (.uninitialized, system)
      else
        match memory.header with
        | none => some (.memoryNomem, system)
        | some header =>
          let system := createDataHeader system currentTid nBytes method header
          if !memory.message then some (.memoryNomem, deleteHeader system header)
          else if !memory.listNode then some (.memoryNomem, deleteHeader system header)
          else
            let system := setStream system (processOf bindTid)
              { target with messages := header :: target.messages }
            some (enqueueOnThread system bindTid memory.queueNode, system)

/-- `ipc::dispatchDataHeader`. `mapped` is the outcome of the shared mapping. -/
def dispatchDataHeader (system : System) (header : DataHeader) (mapped : Kerror) : Kerror :=
  if header.method = .buffer then .success
  else
    match getStream system header.foreignTid with
    | none => .notFound
    | some _ => mapped

/-- `receive` on the stream of `process`. A header that was deleted is not there to be read. -/
def receive (system : System) (process dataHandle buffer : Nat) (mapped : Kerror) :
    Option Kerror := do
  let stream ← system.streams process
  if dataHandle = 0 ∨ buffer = 0 then some .invalidArg
  else if dataHandle ∉ stream.messages then some .invalidResourceHandle
  else
    let header ← system.headers dataHandle
    some (dispatchDataHeader system header mapped)

/-- `acknowledge` on the stream of `process`: whether the handle was accepted. What happens to the
message for the sender does not show here. -/
def acknowledge (system : System) (process dataHandle : Nat) : Option (Bool × System) := do
  let stream ← system.streams process
  if dataHandle = 0 then some (false, system)
  else if dataHandle ∉ stream.messages then some (false, system)
  else
    -- the method and the sender are read before the header is deleted
    let _ ← system.headers dataHandle
    some (true, deleteHeader system dataHandle)

section

variable {system : System} {process other header : Nat}

@[simp]
theorem setStream_self (system : System) (process : Nat) (stream : Stream) :
    (setStream system process stream).streams process = some stream :=
  update_self _ _ _

theorem setStream_of_ne (h : other ≠ process) (stream : Stream) :
    (setStream system process stream).streams other = system.streams other :=
  update_of_ne h _ _

theorem createDataHeader_of_ne (h : other ≠ header) (currentTid nBytes : Nat) (method : Method) :
    (createDataHeader system currentTid nBytes method header).headers other =
      system.headers other :=
  update_of_ne h _ _

theorem deleteHeader_of_ne (h : other ≠ header) :
    (deleteHeader system header).headers other = system.headers other :=
  update_of_ne h _ _

theorem acquire_of_unlocked {stream : Stream} (h : stream.locked = false) :
    acquire stream = some { stream with locked := true } := by
  rw [acquire, h]
  rfl

end

end Zambesii.ZAsyncStream
