import Zambesii.SpawnDriver

/-!
`newDeviceInd` of the ZUI server: a new device goes through the detection, the loading and the
spawning of its driver and its own instantiation, each the continuation of the one before it.
-/

namespace Zambesii.NewDevice

open KernelTypes List Runs

inductive NewDeviceAction
  | nothing
  | detectDriver
  | loadDriver
  | spawnDriver
  | instantiate
deriving DecidableEq

inductive Stage
  | detect
  | load
  | spawn
  | instantiate
deriving DecidableEq

def Stage.action : Stage → NewDeviceAction
  | detect => .detectDriver
  | load => .loadDriver
  | spawn => .spawnDriver
  | instantiate => .instantiate

/-- An operation under way, and whether its `NewDeviceIndCb` could be allocated. -/
structure Operation where
  stage : Stage
  callback : Bool
deriving DecidableEq

/-- `originCtxt` of a request: its action, the operation under way, and what was sent to the
one who asked. `last` is the last stage that succeeded. -/
structure Request where
  action : NewDeviceAction
  pending : Option Operation
  responses : List (Kerror × NewDeviceAction)
  last : NewDeviceAction
deriving DecidableEq

/-- What a continuation meets: the allocation of its callback, what the request that it sends
returns, and what `spawnDriver` meets. -/
structure Outcome where
  callback : Bool
  ret : Kerror
  device : Option SpawnDriver.Device
  spawn : SpawnDriver.Outcome
deriving DecidableEq

def Outcome.spawnCall (outcome : Outcome) : SpawnDriver.Call :=
  ⟨true, outcome.device, outcome.spawn⟩

/-- `AsyncResponse` with an error code, when it goes out of scope. -/
def Request.respond (request : Request) (err : Kerror) : Request :=
  { request with responses := request.responses ++ [(err, request.action)] }

/-- A request of the next stage, and `DONT_SEND_RESPONSE` when it was sent. -/
def Request.start (request : Request) (stage : Stage) (outcome : Outcome) : Request :=
  if outcome.ret ≠ .success then request.respond outcome.ret
  else { request with pending := some ⟨stage, outcome.callback⟩ }

def newDeviceInd (newDeviceAction : NewDeviceAction) (outcome : Outcome) : Request :=
  let request : Request := ⟨.nothing, none, [], .nothing⟩
  if newDeviceAction = .nothing then request.respond .success
  else request.start .detect outcome

def newDeviceInd1 (newDeviceAction : NewDeviceAction) (request : Request) (error : Kerror)
    (outcome : Outcome) : Request :=
  if error ≠ .success then request.respond error
  else
    let request := { request with action := .detectDriver }
    if newDeviceAction = .detectDriver then request.respond .success
    else request.start .load outcome

/-- `newDeviceInd2` from its call of `spawnDriver` on. The callback is the private data of a new
process; one that is there already has its own. A null process is a fault. -/
def newDeviceInd2Spawn (processes : SpawnDriver.State) (request : Request) (outcome : Outcome) :
    Option (Request × SpawnDriver.State) :=
  match SpawnDriver.spawnDriver processes outcome.spawnCall with
  | none => none
  | some (answer, processes') =>
    if answer.err ≠ .success then some (request.respond answer.err, processes')
    else
      match answer.retProcess with
      | some (some newProcess) =>
        if newProcess = processes.nextProcess then
          some ({ request with pending := some ⟨.spawn, outcome.callback⟩ }, processes')
        else some (request, processes')
      | _ => none

def newDeviceInd2 (processes : SpawnDriver.State) (newDeviceAction : NewDeviceAction)
    (request : Request) (error : Kerror) (outcome : Outcome) :
    Option (Request × SpawnDriver.State) :=
  if error ≠ .success then some (request.respond error, processes)
  else
    let request := { request with action := .loadDriver }
    if newDeviceAction = .loadDriver then some (request.respond .success, processes)
    else newDeviceInd2Spawn processes request outcome

def newDeviceInd3 (newDeviceAction : NewDeviceAction) (request : Request) (error : Kerror)
    (outcome : Outcome) : Request :=
  if error ≠ .success then request.respond error
  else
    let request := { request with action := .spawnDriver }
    if newDeviceAction = .spawnDriver then request.respond .success
    else request.start .instantiate outcome

def newDeviceInd4 (request : Request) (error : Kerror) : Request :=
  if error ≠ .success then request.respond error
  else Request.respond { request with action := .instantiate } .success

def Request.completed (request : Request) (stage : Stage) (error : Kerror) : Request :=
  { request with
    pending := none
    last := if error = .success then stage.action else request.last }

def complete (processes : SpawnDriver.State) (newDeviceAction : NewDeviceAction)
    (request : Request) (operation : Operation) (error : Kerror) (outcome : Outcome) :
    Option (Request × SpawnDriver.State) :=
  let request := request.completed operation.stage error
  if operation.callback = false then some (request, processes)
  else
    match operation.stage with
    | .detect => some (newDeviceInd1 newDeviceAction request error outcome, processes)
    | .load => newDeviceInd2 processes newDeviceAction request error outcome
    | .spawn => some (newDeviceInd3 newDeviceAction request error outcome, processes)
    | .instantiate => some (newDeviceInd4 request error, processes)

structure State where
  newDeviceAction : NewDeviceAction
  requests : List Request
  processes : SpawnDriver.State

def initialState (others : Nat → Bool) : State :=
  ⟨.instantiate, [], SpawnDriver.initialState others⟩

/-- A request, whose context may not be allocated; the completion of what a request waits for; a
change of the setting; and a `spawnDriver` of some other thread. -/
inductive Event
  | newDeviceInd (originCtxt : Bool) (outcome : Outcome)
  | complete (request : Nat) (error : Kerror) (outcome : Outcome)
  | setNewDeviceAction (action : NewDeviceAction)
  | spawnDriver (call : SpawnDriver.Call)

def step (state : State) : Event → Option (Unit × State)
  | .newDeviceInd originCtxt outcome =>
    if originCtxt = false then some ((), state)
    else some ((), { state with
      requests := state.requests ++ [newDeviceInd state.newDeviceAction outcome] })
  | .complete i error outcome =>
    match state.requests[i]? with
    | none => some ((), state)
    | some request =>
      match request.pending with
      | none => some ((), state)
      | some operation =>
        match complete state.processes state.newDeviceAction request operation error
          outcome with
        | none => none
        | some (request, processes) => some ((), { state with
            requests := state.requests.set i request
            processes := processes })
  | .setNewDeviceAction action => some ((), { state with newDeviceAction := action })
  | .spawnDriver call =>
    match SpawnDriver.spawnDriver state.processes call with
    | none => none
    | some (_, processes) => some ((), { state with processes := processes })

/-- The request waits for an operation that will call its next stage, or it was answered once,
with the last stage that succeeded. -/
def Request.Proper (request : Request) : Prop :=
  (∃ stage, request.pending = some ⟨stage, true⟩ ∧ request.responses = []) ∨
    request.pending = none ∧ ∃ err, request.responses = [(err, request.last)]

def Proper (state : State) : Prop :=
  ∀ request ∈ state.requests, request.Proper

/-- The next stage is not started without its callback; the driver to be spawned has no process
for the bank yet. -/
def Proceeds (processes : SpawnDriver.State) (newDeviceAction : NewDeviceAction) (stage : Stage)
    (outcome : Outcome) : Prop :=
  match stage with
  | .load => newDeviceAction ≠ .loadDriver →
      ¬SpawnDriver.Finds processes outcome.spawnCall ∧
        (SpawnDriver.Starts processes outcome.spawnCall → outcome.callback = true)
  | .detect | .spawn =>
    newDeviceAction ≠ stage.action → outcome.ret = .success → outcome.callback = true
  | .instantiate => True

def Good (state : State) : Event → Prop
  | .newDeviceInd originCtxt outcome =>
    originCtxt = true → state.newDeviceAction ≠ .nothing → outcome.ret = .success →
      outcome.callback = true
  | .complete i error outcome =>
    ∀ request operation, state.requests[i]? = some request →
      request.pending = some operation → error = .success →
        Proceeds state.processes state.newDeviceAction operation.stage outcome
  | .setNewDeviceAction _ | .spawnDriver _ => True

section

structure Request.Ready (request : Request) : Prop where
  pending : request.pending = none
  responses : request.responses = []
  action : request.action = request.last

structure Request.Inv (request : Request) : Prop where
  proper : request.Proper
  action : request.pending ≠ none → request.action = request.last

variable {request : Request} {outcome : Outcome} {error : Kerror}

theorem Request.Ready.respond (h : request.Ready) (err : Kerror) : (request.respond err).Inv where
  proper := by
    refine .inr ⟨h.pending, err, ?_⟩
    rw [Request.respond, h.responses, h.action]
    rfl
  action := fun hpending => absurd h.pending hpending

theorem Request.Ready.wait (h : request.Ready) (stage : Stage) :
    Request.Inv { request with pending := some ⟨stage, true⟩ } where
  proper := .inl ⟨stage, rfl, h.responses⟩
  action := fun _ => h.action

theorem not_proper_of_no_callback (stage : Stage) :
    ¬Request.Proper { request with pending := some ⟨stage, false⟩ } := by
  rintro (⟨stage', hpending, -⟩ | ⟨hpending, -⟩)
  · cases hpending
  · cases hpending

theorem Request.Ready.not_proper (h : request.Ready) : ¬request.Proper := by
  rintro (⟨stage, hpending, -⟩ | ⟨-, err, hresponses⟩)
  · rw [h.pending] at hpending
    cases hpending
  · rw [h.responses] at hresponses
    cases hresponses

theorem Request.Ready.start (h : request.Ready) (stage : Stage) (outcome : Outcome) :
    ((outcome.ret = .success → outcome.callback = true) → (request.start stage outcome).Inv) ∧
      (¬(outcome.ret = .success → outcome.callback = true) →
        ¬(request.start stage outcome).Proper) := by
  rw [Request.start]
  rcases eq_or_ne outcome.ret .success with hret | hret
  · rw [if_neg (not_not.mpr hret)]
    constructor
    · intro hcallback
      rw [hcallback hret]
      exact h.wait stage
    · intro hcallback
      rw [Bool.eq_false_iff.mpr fun htrue => hcallback fun _ => htrue]
      exact not_proper_of_no_callback stage
  · rw [if_pos hret]
    exact ⟨fun _ => h.respond _, fun hcallback => absurd (fun h => absurd h hret) hcallback⟩

theorem Request.Inv.completed (h : request.Inv) {operation : Operation}
    (hpending : request.pending = some operation) (error : Kerror) :
    operation.callback = true ∧
      (error ≠ .success → (request.completed operation.stage error).Ready) ∧
      (error = .success → Request.Ready
        { request.completed operation.stage error with action := operation.stage.action }) := by
  have haction := h.action (by rw [hpending]; exact Option.some_ne_none _)
  rcases h.proper with ⟨stage, hwaits, hresponses⟩ | ⟨hnone, -⟩
  · rw [hpending] at hwaits
    cases hwaits
    refine ⟨rfl, fun herror => ⟨rfl, hresponses, ?_⟩, fun herror => ⟨rfl, hresponses, ?_⟩⟩
    · rw [Request.completed, if_neg herror]
      exact haction
    · rw [Request.completed, if_pos herror]
  · rw [hpending] at hnone
    cases hnone

variable {processes : SpawnDriver.State} {newDeviceAction : NewDeviceAction}

structure Leaves (good : Prop) (result : Option (Request × SpawnDriver.State)) : Prop where
  inv_of_good : good → ∃ request' processes', result = some (request', processes') ∧
    request'.Inv ∧ SpawnDriver.Sane processes'
  not_proper_of_bad : ¬good → ∀ request' processes', result = some (request', processes') →
    ¬request'.Proper

theorem leaves_of_inv (hsane : SpawnDriver.Sane processes) {good : Prop} (hgood : good)
    (h : request.Inv) : Leaves good (some (request, processes)) :=
  ⟨fun _ => ⟨request, processes, rfl, h, hsane⟩, fun hbad => absurd hgood hbad⟩

theorem Request.Ready.leaves_proceed (h : request.Ready) (hsane : SpawnDriver.Sane processes)
    (newDeviceAction action : NewDeviceAction) (stage : Stage) (outcome : Outcome) :
    Leaves (newDeviceAction ≠ action → outcome.ret = .success → outcome.callback = true)
      (some (if newDeviceAction = action then request.respond .success
        else request.start stage outcome, processes)) := by
  rcases eq_or_ne newDeviceAction action with heq | hne
  · rw [if_pos heq]
    exact leaves_of_inv hsane (fun hne => absurd heq hne) (h.respond _)
  rw [if_neg hne]
  obtain ⟨hgood, hbad⟩ := h.start stage outcome
  refine ⟨fun hproceeds => ⟨_, processes, rfl, hgood (hproceeds hne), hsane⟩, ?_⟩
  intro hstops request' processes' heq
  cases heq
  exact hbad fun hcallback => hstops fun _ => hcallback

theorem Request.Ready.leaves_spawn (h : request.Ready) (hsane : SpawnDriver.Sane processes)
    (outcome : Outcome) : Leaves (¬SpawnDriver.Finds processes outcome.spawnCall ∧
        (SpawnDriver.Starts processes outcome.spawnCall → outcome.callback = true))
      (newDeviceInd2Spawn processes request outcome) := by
  obtain ⟨answer, processes', hspawn, hsane', hanswers⟩ := hsane.spawnDriver outcome.spawnCall
  rw [newDeviceInd2Spawn, hspawn]
  dsimp only
  rcases em (SpawnDriver.Finds processes outcome.spawnCall) with hfinds | hfinds
  · -- The process that is there says nothing to this request.
    obtain ⟨herr, hprocess⟩ := hanswers.finds hfinds
    refine ⟨fun hgood => absurd hfinds hgood.1, fun _ request' processes'' heq => ?_⟩
    rw [if_neg (not_not.mpr herr)] at heq
    split at heq
    · rename_i newProcess hretProcess
      rw [if_neg fun hsame => hprocess (by rw [hretProcess, hsame])] at heq
      cases heq
      exact h.not_proper
    · cases heq
  rcases em (SpawnDriver.Starts processes outcome.spawnCall) with hstarts | hstarts
  · rw [hanswers.starts hstarts]
    dsimp only
    rw [if_neg (not_not.mpr rfl), if_pos rfl]
    cases hcallback : outcome.callback with
    | true => exact leaves_of_inv hsane' ⟨hfinds, fun _ => rfl⟩ (h.wait .spawn)
    | false =>
      refine ⟨fun hgood => Bool.noConfusion (hgood.2 hstarts), ?_⟩
      intro _ request' processes'' heq
      cases heq
      exact not_proper_of_no_callback .spawn
  · rw [if_pos (hanswers.fails hfinds hstarts)]
    exact leaves_of_inv hsane' ⟨hfinds, fun h => absurd h hstarts⟩ (h.respond _)

theorem Request.Inv.complete (h : request.Inv) (hsane : SpawnDriver.Sane processes)
    (newDeviceAction : NewDeviceAction) {operation : Operation}
    (hpending : request.pending = some operation) (error : Kerror) (outcome : Outcome) :
    Leaves (error = .success → Proceeds processes newDeviceAction operation.stage outcome)
      (NewDevice.complete processes newDeviceAction request operation error outcome) := by
  obtain ⟨hcallback, hfailed, hsucceeded⟩ := h.completed hpending error
  obtain ⟨stage, callback⟩ := operation
  rw [NewDevice.complete, if_neg (by rw [hcallback]; decide)]
  rcases eq_or_ne error .success with rfl | herror
  · have hready := hsucceeded rfl
    simp only [forall_true_left]
    cases stage with
    | detect => exact hready.leaves_proceed hsane newDeviceAction .detectDriver .load outcome
    | load =>
      rcases eq_or_ne newDeviceAction .loadDriver with rfl | hne
      · exact leaves_of_inv hsane (fun hne => absurd rfl hne) (hready.respond _)
      · obtain ⟨hgood, hbad⟩ := hready.leaves_spawn hsane outcome
        rw [newDeviceInd2, if_neg (not_not.mpr rfl), if_neg hne]
        exact ⟨fun hproceeds => hgood (hproceeds hne), fun hstops => hbad fun hspawns =>
          hstops fun _ => hspawns⟩
    | spawn => exact hready.leaves_proceed hsane newDeviceAction .spawnDriver .instantiate outcome
    | instantiate => exact leaves_of_inv hsane trivial (hready.respond _)
  have hinv := (hfailed herror).respond error
  have hgood : error = .success → Proceeds processes newDeviceAction stage outcome :=
    fun hsuccess => absurd hsuccess herror
  cases stage with
  | detect =>
    rw [newDeviceInd1, if_pos herror]
    exact leaves_of_inv hsane hgood hinv
  | load =>
    rw [newDeviceInd2, if_pos herror]
    exact leaves_of_inv hsane hgood hinv
  | spawn =>
    rw [newDeviceInd3, if_pos herror]
    exact leaves_of_inv hsane hgood hinv
  | instantiate =>
    rw [newDeviceInd4, if_pos herror]
    exact leaves_of_inv hsane hgood hinv

end

section

structure Inv (state : State) : Prop where
  requests : ∀ request ∈ state.requests, request.Inv
  sane : SpawnDriver.Sane state.processes

theorem inv_initialState (others : Nat → Bool) : Inv (initialState others) where
  requests := by
    intro request hrequest
    cases hrequest
  sane := SpawnDriver.sane_initialState others

theorem Inv.proper {state : State} (h : Inv state) : Proper state :=
  fun request hrequest => (h.requests request hrequest).proper

variable {state : State}

theorem newDeviceInd_inv (newDeviceAction : NewDeviceAction) (outcome : Outcome) :
    ((newDeviceAction ≠ .nothing → outcome.ret = .success → outcome.callback = true) →
        (newDeviceInd newDeviceAction outcome).Inv) ∧
      (¬(newDeviceAction ≠ .nothing → outcome.ret = .success → outcome.callback = true) →
        ¬(newDeviceInd newDeviceAction outcome).Proper) := by
  have hready : Request.Ready ⟨.nothing, none, [], .nothing⟩ := ⟨rfl, rfl, rfl⟩
  rw [newDeviceInd]
  rcases eq_or_ne newDeviceAction .nothing with heq | hne
  · rw [if_pos heq]
    exact ⟨fun _ => hready.respond _, fun hbad => absurd (fun hne => absurd heq hne) hbad⟩
  · rw [if_neg hne]
    obtain ⟨hgood, hbad⟩ := hready.start .detect outcome
    exact ⟨fun hcallback => hgood (hcallback hne), fun hcallback => hbad fun h =>
      hcallback fun _ => h⟩

theorem Inv.good_step (h : Inv state) {event : Event} (hgood : Good state event) :
    ∃ result next, step state event = some (result, next) ∧ Inv next := by
  cases event with
  | newDeviceInd originCtxt outcome =>
    cases originCtxt with
    | false => exact ⟨(), state, rfl, h⟩
    | true =>
      refine ⟨(), _, rfl, ?_, h.sane⟩
      intro request hrequest
      rcases mem_append.mp hrequest with hbefore | hnew
      · exact h.requests request hbefore
      · rw [mem_singleton.mp hnew]
        exact (newDeviceInd_inv _ _).1 (hgood rfl)
  | complete i error outcome =>
    cases hrequest : state.requests[i]? with
    | none => exact ⟨(), state, by simp only [step, hrequest], h⟩
    | some request =>
      cases hpending : request.pending with
      | none => exact ⟨(), state, by simp only [step, hrequest, hpending], h⟩
      | some operation =>
        have hinv := h.requests request (mem_of_getElem? hrequest)
        have hleaves := hinv.complete h.sane state.newDeviceAction hpending error outcome
        obtain ⟨request', processes', heq, hinv', hsane'⟩ :=
          hleaves.inv_of_good (hgood request operation hrequest hpending)
        refine ⟨(), ⟨state.newDeviceAction, state.requests.set i request', processes'⟩,
          by simp only [step, hrequest, hpending, heq], ?_, hsane'⟩
        intro other hother
        rcases mem_or_eq_of_mem_set hother with hbefore | rfl
        · exact h.requests other hbefore
        · exact hinv'
  | setNewDeviceAction action => exact ⟨(), _, rfl, h.requests, h.sane⟩
  | spawnDriver call =>
    obtain ⟨answer, processes', hspawn, hsane', -⟩ := h.sane.spawnDriver call
    exact ⟨(), ⟨state.newDeviceAction, state.requests, processes'⟩,
      by simp only [step, hspawn], h.requests, hsane'⟩

theorem Inv.bad_step (h : Inv state) {event : Event} (hbad : ¬Good state event) {result : Unit}
    {next : State} (hstep : step state event = some (result, next)) : ¬Proper next := by
  intro hproper
  cases event with
  | newDeviceInd originCtxt outcome =>
    cases originCtxt with
    | false => exact hbad fun hctxt => Bool.noConfusion hctxt
    | true =>
      cases hstep
      have hnew := hproper (newDeviceInd state.newDeviceAction outcome)
        (mem_append_right _ (mem_singleton.mpr rfl))
      exact (newDeviceInd_inv _ _).2 (fun hgood => hbad fun _ => hgood) hnew
  | complete i error outcome =>
    simp only [Good, not_forall] at hbad
    obtain ⟨request, operation, hrequest, hpending, herror, hstops⟩ := hbad
    have hinv := h.requests request (mem_of_getElem? hrequest)
    have hleaves := hinv.complete h.sane state.newDeviceAction hpending error outcome
    simp only [step, hrequest, hpending] at hstep
    split at hstep
    · cases hstep
    rename_i request' processes' heq
    cases hstep
    refine hleaves.not_proper_of_bad (fun hgood => hstops (hgood herror)) request' processes'
      heq (hproper request' ?_)
    exact List.mem_set (List.getElem?_eq_some_iff.mp hrequest).1 request'
  | setNewDeviceAction action => exact hbad trivial
  | spawnDriver call => exact hbad trivial

/-- Every request waits for its next stage or was answered once, throughout exactly the runs in
which no stage starts without its callback and no driver to be spawned has a process already. -/
theorem throughout_answered_iff (others : Nat → Bool) (events : List Event) :
    Throughout step Proper (initialState others) events ↔
      Guarded step Good (initialState others) events :=
  throughout_iff_guarded_of_faults (fun _ h => h.proper) (fun _ _ h _ hgood => h.good_step hgood)
    (fun _ _ _ _ h _ hbad hstep => h.bad_step hbad hstep) (inv_initialState others)
    (guarded_of_forall (fun _ _ => trivial) _ _)

end

def succeeds (device : Nat) : Outcome :=
  ⟨true, .success, some ⟨device, 0, true, some 0⟩, (true, .success), true, .success, .success,
    ⟨.success, true, .success, .success, .success, .success⟩⟩

/-- Two devices with one driver: the second request stops where the driver was spawned. -/
def twoDevices : List Event :=
  [.newDeviceInd true (succeeds 0), .complete 0 .success (succeeds 0),
    .complete 0 .success (succeeds 0), .newDeviceInd true (succeeds 1),
    .complete 1 .success (succeeds 1), .complete 1 .success (succeeds 1)]

theorem twoDevices_not_answered :
    ¬Throughout step Proper (initialState fun _ => false) twoDevices := by
  intro h
  obtain ⟨results, last, hrun, hlast⟩ := h.last
  have hrequest : (run step (initialState fun _ => false) twoDevices).map (fun answer =>
      answer.2.requests[1]?) = some (some ⟨.loadDriver, none, [], .loadDriver⟩) := by
    decide +kernel
  rw [hrun, Option.map_some, Option.some.injEq] at hrequest
  exact Request.Ready.not_proper ⟨rfl, rfl, rfl⟩ (hlast _ (mem_of_getElem? hrequest))

end Zambesii.NewDevice
