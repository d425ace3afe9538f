import Mathlib.Data.Finset.Card
import Zambesii.DeviceTables
import Zambesii.ScatterGatherIds

/-!
`ProcessTrib::spawnDriver`: one process for each driver and NUMA bank. The driver's instance
is added first, and later calls take it for the proof that the process is there.
-/

namespace Zambesii.SpawnDriver

open Function List Nat Option
open CountedTable
open DeviceTables (DriverInstance insertInstance)
open KernelTypes Runs
open ScatterGatherIds (WrapAroundCounter scan scan_eq_some)

def maxNprocesses : Nat := 16384

def procidProcess (id : Nat) : Nat := (id >>> 16) % 2 ^ 16

structure ThreadOutcome where
  getNewThreadId : Kerror
  newThread : Bool
  init : Kerror
  allocateStacks : Kerror
  inheritAffinity : Kerror
  schedule : Kerror
deriving DecidableEq

/-- `ProcessStream::spawnThread`, for the first thread of a process. -/
def spawnThread (outcome : ThreadOutcome) : Kerror :=
  if outcome.getNewThreadId ≠ .success then .spawnThreadNoPids
  else if outcome.newThread = false then .memoryNomem
  else if outcome.init ≠ .success then outcome.init
  else if outcome.allocateStacks ≠ .success then outcome.allocateStacks
  else if outcome.inheritAffinity ≠ .success then outcome.inheritAffinity
  else outcome.schedule

/-- What the steps of `spawnDriver` return once a process is to be made. -/
structure Outcome where
  addInstance : Bool × Kerror
  newProcess : Bool
  affinity : Kerror
  init : Kerror
  thread : ThreadOutcome
deriving DecidableEq

/-- A device, with the loaded driver that `findDriver` finds for it. -/
structure Device where
  id : Nat
  bankId : Int
  driverDetected : Bool
  driver : Option Nat
deriving DecidableEq

structure Call where
  arguments : Bool
  device : Option Device
  outcome : Outcome
deriving DecidableEq

/-- What a call returns and what it stores in `*retProcess`, which may be null. -/
structure Answer where
  err : Kerror
  retProcess : Option (Option Nat)
deriving DecidableEq

/-- The process table and the process objects that are not destroyed, the instances of each
driver, and `driverInstance` of each device. -/
structure State where
  processes : Nat → Option Nat
  live : Nat → Bool
  nextProcess : Nat
  nextProcId : WrapAroundCounter
  instances : Nat → Table DriverInstance
  driverInstance : Nat → Option (Nat × DriverInstance)

/-- No driver has been spawned. Slot 0 holds a pointer that is none, slot 1 the kernel; `others`
are the slots of the processes that were spawned otherwise. -/
def initialState (others : Nat → Bool) : State where
  processes := fun slot =>
    if slot = 0 ∨ slot = 1 ∨ slot < maxNprocesses ∧ others slot then some slot else none
  live := fun process => process = 1 ∨ 2 ≤ process ∧ others process
  nextProcess := maxNprocesses
  nextProcId := ⟨2, maxNprocesses - 1, 2⟩
  instances := fun _ => Table.empty
  driverInstance := fun _ => none

def getStream (state : State) (id : Nat) : Option Nat :=
  if procidProcess id = 0 then some 1 else state.processes (procidProcess id)

def getInstance (table : Table DriverInstance) (bid : Int) : Option DriverInstance :=
  (table.counted.find? fun object => object.2.bankId = bid).map Prod.snd

def addInstance (table : Table DriverInstance) (newInstance : DriverInstance)
    (outcome : Bool × Kerror) : Kerror × Table DriverInstance :=
  if (getInstance table newInstance.bankId).isSome then (.success, table)
  else insertInstance table newInstance outcome

/-- The end of the `HeapObj` that holds the new process. -/
def State.destroy (state : State) (process : Nat) : State :=
  { state with live := update state.live process false }

/-- `spawnDriver` once the process is allocated. -/
def startProcess (state : State) (newProcessId drv : Nat) (dev : Device) (outcome : Outcome) :
    Answer × State :=
  let newProcess := state.nextProcess
  let state := { state with
    live := update state.live newProcess true
    nextProcess := newProcess + 1 }
  if outcome.affinity ≠ .success then (⟨outcome.affinity, none⟩, state.destroy newProcess)
  else if outcome.init ≠ .success then (⟨outcome.init, none⟩, state.destroy newProcess)
  else
    let state := { state with
      processes :=
        update state.processes (procidProcess newProcessId) (some newProcess)
      driverInstance := update state.driverInstance dev.id
        ((getInstance (state.instances drv) dev.bankId).map fun drvInstance => (drv, drvInstance)) }
    if spawnThread outcome.thread ≠ .success then
      let state := { state with
        processes := update state.processes (procidProcess newProcessId) none }
      (⟨spawnThread outcome.thread, none⟩, state.destroy newProcess)
    else (⟨.success, some (some newProcess)⟩, state)

/-- `spawnDriver` for a driver without an instance for the bank. -/
def spawnProcess (state : State) (newProcessId drv : Nat) (dev : Device) (outcome : Outcome) :
    Answer × State :=
  let (ret, table) := addInstance (state.instances drv) ⟨dev.bankId, newProcessId⟩
    outcome.addInstance
  let state := { state with instances := update state.instances drv table }
  if ret ≠ .success then (⟨ret, none⟩, state)
  else if outcome.newProcess = false then (⟨.memoryNomem, none⟩, state)
  else startProcess state newProcessId drv dev outcome

def spawnFor (state : State) (newProcessId : Nat) (call : Call) : Answer × State :=
  match call.device with
  | none => (⟨.resourceUnavailable, none⟩, state)
  | some dev =>
    if dev.driverDetected = false then (⟨.spawnDriverNoDriver, none⟩, state)
    else
      match dev.driver with
      | none => (⟨.uninitialized, none⟩, state)
      | some drv =>
        match getInstance (state.instances drv) dev.bankId with
        | some drvInstance => (⟨.success, some (getStream state drvInstance.pid)⟩, state)
        | none => spawnProcess state newProcessId drv dev call.outcome

def State.isNull (state : State) (slot : Nat) : Bool :=
  (state.processes slot).isNone

def spawnDriver (state : State) (call : Call) : Option (Answer × State) :=
  if call.arguments = false then some (⟨.invalidArg, none⟩, state)
  else
    match state.nextProcId.getNextValue state.isNull with
    | (none, counter) =>
      some (⟨.resourceExhausted, none⟩, { state with nextProcId := counter })
    | (some tmpId, counter) =>
      if tmpId ≤ 1 then none
      else some (spawnFor { state with nextProcId := counter } (tmpId <<< 16) call)

structure Unchanged (state next : State) : Prop where
  instances : ∀ drv, (next.instances drv).counted = (state.instances drv).counted
  processes : next.processes = state.processes
  driverInstance : next.driverInstance = state.driverInstance

structure Spec (state : State) (_ : Call) (answer : Answer) (next : State) : Prop where
  failure : answer.err ≠ .success → Unchanged state next
  success : answer.err = .success → ∃ process slot, answer.retProcess = some (some process) ∧
    next.live process = true ∧ next.processes slot = some process

def Outcome.completes (outcome : Outcome) : Prop :=
  outcome.newProcess = true ∧ outcome.affinity = .success ∧ outcome.init = .success ∧
    spawnThread outcome.thread = .success

def Completes (state : State) (call : Call) : Prop :=
  ∀ dev drv, call.device = some dev → dev.driverDetected = true → dev.driver = some drv →
    getInstance (state.instances drv) dev.bankId = none →
      call.outcome.addInstance = (true, .success) → call.outcome.completes

def Good (state : State) (call : Call) : Prop :=
  call.arguments = true → (state.nextProcId.getNextValue state.isNull).1 ≠ none →
    Completes state call

section

structure Inv (state : State) : Prop where
  startVal : state.nextProcId.startVal = 2
  maxVal : state.nextProcId.maxVal = maxNprocesses - 1
  nextVal : 2 ≤ state.nextProcId.nextVal
  sound : ∀ drv, (state.instances drv).Sound DriverInstance.bankId 16
  slot : ∀ drv, ∀ object ∈ (state.instances drv).counted,
    2 ≤ procidProcess object.2.pid ∧ procidProcess object.2.pid < maxNprocesses
  running : ∀ drv, ∀ object ∈ (state.instances drv).counted,
    ∃ process, state.processes (procidProcess object.2.pid) = some process ∧
      state.live process = true
  nodup : ∀ drv,
    ((state.instances drv).counted.map fun object => procidProcess object.2.pid).Nodup

theorem inv_initialState (others : Nat → Bool) : Inv (initialState others) where
  startVal := rfl
  maxVal := rfl
  nextVal := le_refl 2
  sound := fun _ => Table.sound_empty
  slot := by
    intro drv object hobject
    cases hobject
  running := by
    intro drv object hobject
    cases hobject
  nodup := fun _ => nodup_nil

variable {state : State}

theorem tryNextValue_cases (counter : WrapAroundCounter) (isNull : Nat → Bool) :
    (∃ i, counter.tryNextValue isNull = (some i, { counter with nextVal := i + 1 }) ∧
        counter.nextVal ≤ i ∧ (i : Int) ≤ counter.maxVal ∧ isNull i = true) ∨
      counter.tryNextValue isNull = (none, { counter with nextVal := counter.startVal }) := by
  rw [WrapAroundCounter.tryNextValue]
  cases hscan : scan isNull (counter.maxVal + 1 - counter.nextVal).toNat counter.nextVal with
  | none => exact .inr rfl
  | some i =>
    obtain ⟨hge, hlt, hnull, -⟩ := scan_eq_some hscan
    exact .inl ⟨i, rfl, hge, by omega, hnull⟩

theorem getNextValue_cases (counter : WrapAroundCounter) (isNull : Nat → Bool) :
    (∃ i, counter.getNextValue isNull = (some i, { counter with nextVal := i + 1 }) ∧
        (counter.nextVal ≤ i ∨ counter.startVal ≤ i) ∧ (i : Int) ≤ counter.maxVal ∧
        isNull i = true) ∨
      counter.getNextValue isNull = (none, { counter with nextVal := counter.startVal }) := by
  rw [WrapAroundCounter.getNextValue]
  rcases tryNextValue_cases counter isNull with ⟨i, heq, hge, hle, hnull⟩ | heq
  · rw [heq]
    exact .inl ⟨i, rfl, .inl hge, hle, hnull⟩
  rw [heq]
  rcases tryNextValue_cases { counter with nextVal := counter.startVal } isNull with
    ⟨i, heq', hge, hle, hnull⟩ | heq'
  · exact .inl ⟨i, heq', .inr hge, hle, hnull⟩
  · exact .inr heq'

theorem Inv.withCounter (h : Inv state) {nextVal : Nat} (hnext : 2 ≤ nextVal) :
    Inv { state with nextProcId := { state.nextProcId with nextVal := nextVal } } where
  startVal := h.startVal
  maxVal := h.maxVal
  nextVal := hnext
  sound := h.sound
  slot := h.slot
  running := h.running
  nodup := h.nodup

variable {tmpId : Nat}

theorem Inv.getNextValue (h : Inv state) {counter : WrapAroundCounter}
    (hnext : state.nextProcId.getNextValue state.isNull = (some tmpId, counter)) :
    2 ≤ tmpId ∧ tmpId < maxNprocesses ∧ state.processes tmpId = none ∧
      Inv { state with nextProcId := counter } := by
  rcases getNextValue_cases state.nextProcId state.isNull with ⟨i, heq, hge, hle, hnull⟩ | heq
  · rw [heq] at hnext
    cases hnext
    have htwo : 2 ≤ tmpId := by
      have hstart := h.startVal
      have hnextVal := h.nextVal
      omega
    rw [h.maxVal] at hle
    exact ⟨htwo, by omega, isNone_iff_eq_none.mp hnull, h.withCounter (by omega)⟩
  · rw [heq] at hnext
    cases hnext

theorem Inv.getNextValue_none (h : Inv state) {counter : WrapAroundCounter}
    (hnext : state.nextProcId.getNextValue state.isNull = (none, counter)) :
    Inv { state with nextProcId := counter } := by
  rcases getNextValue_cases state.nextProcId state.isNull with ⟨i, heq, -⟩ | heq
  · rw [heq] at hnext
    cases hnext
  · rw [heq] at hnext
    cases hnext
    exact h.withCounter h.startVal.ge

theorem procidProcess_shift (h : tmpId < maxNprocesses) : procidProcess (tmpId <<< 16) = tmpId := by
  rw [procidProcess, shiftLeft_shiftRight]
  exact mod_eq_of_lt (h.trans (by decide))

theorem Inv.count_lt (h : Inv state) (drv : Nat) : (state.instances drv).count + 1 < 2 ^ 16 := by
  have hle : ((state.instances drv).counted.map
      fun object => procidProcess object.2.pid).length ≤ (range maxNprocesses).length := by
    refine ((h.nodup drv).subperm fun slot hslot => ?_).length_le
    obtain ⟨object, hobject, rfl⟩ := mem_map.mp hslot
    exact mem_range.mpr (h.slot drv object hobject).2
  rw [length_map, (h.sound drv).length_counted, length_range] at hle
  have hmax : maxNprocesses + 1 < 2 ^ 16 := by decide
  omega

theorem Inv.setTable (h : Inv state) {drv : Nat} {table : Table DriverInstance}
    (hsound : table.Sound DriverInstance.bankId 16)
    (hcounted : table.counted = (state.instances drv).counted) :
    Inv { state with instances := update state.instances drv table } ∧
      Unchanged state { state with instances := update state.instances drv table } := by
  have hsame : ∀ drv', (update state.instances drv table drv').counted =
      (state.instances drv').counted := by
    intro drv'
    rcases eq_or_ne drv' drv with rfl | hne
    · rw [update_self, hcounted]
    · rw [update_of_ne hne]
  refine ⟨⟨h.startVal, h.maxVal, h.nextVal, ?_, ?_, ?_, ?_⟩, ⟨hsame, rfl, rfl⟩⟩
  · intro drv'
    rcases eq_or_ne drv' drv with rfl | hne
    · dsimp only
      rwa [update_self]
    · dsimp only
      rw [update_of_ne hne]
      exact h.sound drv'
  · intro drv' object hobject
    rw [hsame] at hobject
    exact h.slot drv' object hobject
  · intro drv' object hobject
    rw [hsame] at hobject
    exact h.running drv' object hobject
  · intro drv'
    rw [hsame]
    exact h.nodup drv'

def spawnedState (state : State) (newProcessId drv : Nat) (dev : Device) : State :=
  let table := (state.instances drv).append 16 ⟨dev.bankId, newProcessId⟩
  { state with
    processes := update state.processes (procidProcess newProcessId)
      (some state.nextProcess)
    live := update state.live state.nextProcess true
    nextProcess := state.nextProcess + 1
    instances := update state.instances drv table
    driverInstance := update state.driverInstance dev.id
      ((getInstance table dev.bankId).map fun drvInstance => (drv, drvInstance)) }

theorem Inv.spawned (h : Inv state) {drv : Nat} {dev : Device} (htwo : 2 ≤ tmpId)
    (hlt : tmpId < maxNprocesses) (hfree : state.processes tmpId = none)
    (hnone : ¬(state.instances drv).Has DriverInstance.bankId dev.bankId) :
    Inv (spawnedState state (tmpId <<< 16) drv dev) := by
  have hslot := procidProcess_shift hlt
  have hroom := h.count_lt drv
  let entry : DriverInstance := ⟨dev.bankId, tmpId <<< 16⟩
  have hnew := hnone
  have hself : (spawnedState state (tmpId <<< 16) drv dev).instances drv =
      (state.instances drv).append 16 entry := update_self ..
  have hother : ∀ drv', drv' ≠ drv →
      (spawnedState state (tmpId <<< 16) drv dev).instances drv' = state.instances drv' :=
    fun drv' hne => update_of_ne hne ..
  have hcounted := (h.sound drv).counted_append entry hroom
  have hmem : ∀ drv', ∀ object ∈
      ((spawnedState state (tmpId <<< 16) drv dev).instances drv').counted,
      object ∈ (state.instances drv').counted ∨ procidProcess object.2.pid = tmpId := by
    intro drv' object hobject
    rcases eq_or_ne drv' drv with rfl | hne
    · rw [hself, hcounted, mem_append, mem_singleton] at hobject
      rcases hobject with hold | rfl
      · exact .inl hold
      · exact .inr hslot
    · rw [hother drv' hne] at hobject
      exact .inl hobject
  -- The slots in use are not the new one.
  have hused : ∀ drv', ∀ object ∈ (state.instances drv').counted,
      procidProcess object.2.pid ≠ tmpId := by
    intro drv' object hobject heq
    obtain ⟨process, hprocess, -⟩ := h.running drv' object hobject
    rw [heq, hfree] at hprocess
    cases hprocess
  refine ⟨h.startVal, h.maxVal, h.nextVal, ?_, ?_, ?_, ?_⟩
  · intro drv'
    rcases eq_or_ne drv' drv with rfl | hne
    · rw [hself]
      exact (h.sound drv').append hroom hnew
    · rw [hother drv' hne]
      exact h.sound drv'
  · intro drv' object hobject
    rcases hmem drv' object hobject with hold | hnewSlot
    · exact h.slot drv' object hold
    · rw [hnewSlot]
      exact ⟨htwo, hlt⟩
  · intro drv' object hobject
    rw [spawnedState]
    dsimp only
    rw [hslot]
    rcases hmem drv' object hobject with hold | hnewSlot
    · obtain ⟨process, hprocess, hlive⟩ := h.running drv' object hold
      rw [update_of_ne (hused drv' object hold)]
      refine ⟨process, hprocess, ?_⟩
      rw [update_apply]
      split
      · rfl
      · exact hlive
    · rw [hnewSlot, update_self]
      exact ⟨_, rfl, update_self ..⟩
  · intro drv'
    rcases eq_or_ne drv' drv with rfl | hne
    · rw [hself, hcounted, map_append, map_singleton]
      refine (h.nodup drv').append (nodup_singleton _) ?_
      rw [disjoint_singleton, List.mem_map]
      rintro ⟨object, hobject, heq⟩
      exact hused drv' object hobject (heq.trans hslot)
    · rw [hother drv' hne]
      exact h.nodup drv'

end

section

variable {state : State} {dev : Device} {outcome : Outcome}

variable {table : Table DriverInstance}

theorem getInstance_eq_none {bid : Int}
    (h : getInstance table bid = none) : ¬table.Has DriverInstance.bankId bid := by
  rw [getInstance, map_eq_none_iff, find?_eq_none] at h
  rintro ⟨object, hobject, hbank⟩
  exact h object hobject (decide_eq_true hbank)

theorem getInstance_eq_some {bid : Int}
    {drvInstance : DriverInstance} (h : getInstance table bid = some drvInstance) :
    ∃ object ∈ table.counted, object.2 = drvInstance := by
  rw [getInstance, map_eq_some_iff] at h
  obtain ⟨object, hfind, rfl⟩ := h
  exact ⟨object, mem_of_find?_eq_some hfind, rfl⟩

theorem startProcess_err_iff (state : State) (newProcessId drv : Nat) :
    (startProcess state newProcessId drv dev outcome).1.err = .success ↔
      outcome.affinity = .success ∧ outcome.init = .success ∧
        spawnThread outcome.thread = .success := by
  rw [startProcess]
  split
  · rename_i haffinity
    exact ⟨fun h => absurd h haffinity, fun h => absurd h.1 haffinity⟩
  rename_i haffinity
  split
  · rename_i hinit
    exact ⟨fun h => absurd h hinit, fun h => absurd h.2.1 hinit⟩
  rename_i hinit
  split
  · rename_i hthread
    exact ⟨fun h => absurd h hthread, fun h => absurd h.2.2 hthread⟩
  · rename_i hthread
    exact ⟨fun _ => ⟨not_not.mp haffinity, not_not.mp hinit, not_not.mp hthread⟩, fun _ => rfl⟩

theorem startProcess_instances (state : State) (newProcessId drv : Nat) :
    (startProcess state newProcessId drv dev outcome).2.instances = state.instances := by
  rw [startProcess]
  split
  · rfl
  · split
    · rfl
    · split <;> rfl

theorem addInstance_of_none {newInstance : DriverInstance}
    (h : getInstance table newInstance.bankId = none) (outcome : Bool × Kerror) :
    addInstance table newInstance outcome = insertInstance table newInstance outcome := by
  rw [addInstance, h]
  rfl

theorem addInstance_of_adds (newProcessId : Nat) {drv : Nat}
    (hnone : getInstance (state.instances drv) dev.bankId = none)
    (hadds : outcome.addInstance = (true, .success)) :
    addInstance (state.instances drv) ⟨dev.bankId, newProcessId⟩ outcome.addInstance =
      (.success, (state.instances drv).append 16 ⟨dev.bankId, newProcessId⟩) := by
  refine (addInstance_of_none hnone _).trans ?_
  rw [hadds]
  rfl

theorem addInstance_of_fails (newProcessId : Nat) {drv : Nat}
    (hnone : getInstance (state.instances drv) dev.bankId = none)
    (hfails : outcome.addInstance ≠ (true, .success)) :
    ∃ err table, addInstance (state.instances drv) ⟨dev.bankId, newProcessId⟩ outcome.addInstance =
        (err, table) ∧ err ≠ .success ∧ (table = state.instances drv ∨
        table = (state.instances drv).extend ⟨dev.bankId, newProcessId⟩) := by
  have hsucceeds : DeviceTables.addInstance.succeeds outcome.addInstance = false := by
    refine Bool.eq_false_iff.mpr fun hsucceeds => hfails ?_
    obtain ⟨hinstances, hret⟩ := Bool.and_eq_true_iff.mp hsucceeds
    exact Prod.ext hinstances (of_decide_eq_true hret)
  obtain ⟨err, table, heq, herr, htable⟩ :=
    DeviceTables.lawful_addInstance.insertion_of_fails (state.instances drv)
      ⟨dev.bankId, newProcessId⟩ outcome.addInstance hsucceeds
  exact ⟨err, table, (addInstance_of_none hnone _).trans heq, herr, htable⟩

theorem spawnProcess_of_fails (h : Inv state) (newProcessId : Nat) {drv : Nat}
    (hnone : getInstance (state.instances drv) dev.bankId = none)
    (hfails : outcome.addInstance ≠ (true, .success)) (call : Call) :
    Spec state call (spawnProcess state newProcessId drv dev outcome).1
        (spawnProcess state newProcessId drv dev outcome).2 ∧
      Inv (spawnProcess state newProcessId drv dev outcome).2 := by
  obtain ⟨err, table, hadd, herr, htable⟩ := addInstance_of_fails newProcessId hnone hfails
  have hsound : table.Sound DriverInstance.bankId 16 := by
    rcases htable with rfl | rfl
    · exact h.sound drv
    · exact (h.sound drv).extend _
  have hcounted : table.counted = (state.instances drv).counted := by
    rcases htable with rfl | rfl
    · rfl
    · exact (h.sound drv).counted_extend
  obtain ⟨hinv, hunchanged⟩ := h.setTable hsound hcounted
  rw [spawnProcess, hadd]
  dsimp only
  rw [if_pos herr]
  exact ⟨⟨fun _ => hunchanged, fun hsuccess => absurd hsuccess herr⟩, hinv⟩

theorem spawnProcess_of_adds (newProcessId : Nat) {drv : Nat}
    (hnone : getInstance (state.instances drv) dev.bankId = none)
    (hadds : outcome.addInstance = (true, .success)) :
    ((spawnProcess state newProcessId drv dev outcome).1.err = .success ↔ outcome.completes) ∧
      (spawnProcess state newProcessId drv dev outcome).2.instances drv =
        (state.instances drv).append 16 ⟨dev.bankId, newProcessId⟩ := by
  have hadd := addInstance_of_adds newProcessId hnone hadds
  rw [spawnProcess, hadd]
  dsimp only
  rw [if_neg (by simp)]
  split
  · rename_i hnewProcess
    refine ⟨⟨fun h => Kerror.noConfusion h, fun h => ?_⟩, update_self ..⟩
    have hallocated := h.1
    rw [hnewProcess] at hallocated
    cases hallocated
  · rename_i hnewProcess
    rw [startProcess_err_iff, startProcess_instances]
    refine ⟨⟨fun h => ⟨Bool.of_not_eq_false hnewProcess, h⟩, fun h => h.2⟩, update_self ..⟩

theorem spawnProcess_of_completes (newProcessId : Nat) {drv : Nat}
    (hnone : getInstance (state.instances drv) dev.bankId = none)
    (hadds : outcome.addInstance = (true, .success)) (hcompletes : outcome.completes) :
    spawnProcess state newProcessId drv dev outcome =
      (⟨.success, some (some state.nextProcess)⟩, spawnedState state newProcessId drv dev) := by
  obtain ⟨hnewProcess, haffinity, hinit, hthread⟩ := hcompletes
  have hadd := addInstance_of_adds newProcessId hnone hadds
  simp [spawnProcess, hadd, hnewProcess, startProcess, haffinity, hinit, hthread, spawnedState]

theorem Inv.spawnProcess (h : Inv state) {tmpId drv : Nat} (htwo : 2 ≤ tmpId)
    (hlt : tmpId < maxNprocesses) (hfree : state.processes tmpId = none)
    (hnone : getInstance (state.instances drv) dev.bankId = none) (outcome : Outcome)
    (call : Call) :
    (Spec state call (SpawnDriver.spawnProcess state (tmpId <<< 16) drv dev outcome).1
        (SpawnDriver.spawnProcess state (tmpId <<< 16) drv dev outcome).2 ↔
      (outcome.addInstance = (true, .success) → outcome.completes)) ∧
    ((outcome.addInstance = (true, .success) → outcome.completes) →
      Inv (SpawnDriver.spawnProcess state (tmpId <<< 16) drv dev outcome).2) := by
  rcases eq_or_ne outcome.addInstance (true, .success) with hadds | hfails
  · rcases em outcome.completes with hcompletes | hfails
    · have hspawned := h.spawned htwo hlt hfree (getInstance_eq_none hnone)
      rw [spawnProcess_of_completes _ hnone hadds hcompletes]
      refine ⟨⟨fun _ _ => hcompletes, fun _ => ⟨fun herr => absurd rfl herr, fun _ => ?_⟩⟩,
        fun _ => hspawned⟩
      exact ⟨state.nextProcess, _, rfl, update_self .., update_self ..⟩
    · obtain ⟨herr, hinstances⟩ := spawnProcess_of_adds (tmpId <<< 16) hnone hadds
      refine ⟨⟨fun hspec => ?_, fun hgood => absurd (hgood hadds) hfails⟩,
        fun hgood => absurd (hgood hadds) hfails⟩
      have hsame := (hspec.failure fun hsuccess => hfails (herr.mp hsuccess)).instances drv
      rw [hinstances, (h.sound drv).counted_append _ (h.count_lt drv)] at hsame
      exact absurd (congrArg length hsame) (by simp)
  · obtain ⟨hspec, hinv⟩ := spawnProcess_of_fails h (tmpId <<< 16) hnone hfails call
    exact ⟨⟨fun _ hadds => absurd hadds hfails, fun _ => hspec⟩, fun _ => hinv⟩

theorem spec_of_error {call : Call} {err : Kerror} (herr : err ≠ .success) {next : State}
    (hnext : Unchanged state next) : Spec state call ⟨err, none⟩ next :=
  ⟨fun _ => hnext, fun hsuccess => absurd hsuccess herr⟩

theorem spec_withCounter {call : Call} {answer : Answer} {next : State}
    (counter : WrapAroundCounter) :
    Spec { state with nextProcId := counter } call answer next ↔ Spec state call answer next := by
  constructor
  · intro h
    exact ⟨fun herr => ⟨(h.failure herr).instances, (h.failure herr).processes,
      (h.failure herr).driverInstance⟩, h.success⟩
  · intro h
    exact ⟨fun herr => ⟨(h.failure herr).instances, (h.failure herr).processes,
      (h.failure herr).driverInstance⟩, h.success⟩

theorem completes_iff {call : Call} {drv : Nat} (hdevice : call.device = some dev)
    (hdetected : dev.driverDetected = true) (hdriver : dev.driver = some drv) :
    Completes state call ↔ (getInstance (state.instances drv) dev.bankId = none →
      call.outcome.addInstance = (true, .success) → call.outcome.completes) := by
  constructor
  · intro h
    exact h dev drv hdevice hdetected hdriver
  · intro h dev' drv' hdevice' _ hdriver'
    rw [hdevice] at hdevice'
    cases hdevice'
    rw [hdriver] at hdriver'
    cases hdriver'
    exact h

theorem Inv.spawnFor (h : Inv state) {tmpId : Nat} (htwo : 2 ≤ tmpId)
    (hlt : tmpId < maxNprocesses) (hfree : state.processes tmpId = none) (call : Call) :
    (Spec state call (SpawnDriver.spawnFor state (tmpId <<< 16) call).1
        (SpawnDriver.spawnFor state (tmpId <<< 16) call).2 ↔ Completes state call) ∧
      (Completes state call → Inv (SpawnDriver.spawnFor state (tmpId <<< 16) call).2) := by
  have hsame : Unchanged state state := ⟨fun _ => rfl, rfl, rfl⟩
  rw [SpawnDriver.spawnFor]
  cases hdevice : call.device with
  | none =>
    refine ⟨⟨fun _ dev _ hdev => ?_, fun _ => spec_of_error (by decide) hsame⟩, fun _ => h⟩
    rw [hdevice] at hdev
    cases hdev
  | some dev =>
    dsimp only
    cases hdetected : dev.driverDetected with
    | false =>
      refine ⟨⟨?_, fun _ => spec_of_error (by decide) hsame⟩, fun _ => h⟩
      intro _ dev' drv hdev hdetected'
      rw [hdevice] at hdev
      cases hdev
      rw [hdetected] at hdetected'
      cases hdetected'
    | true =>
      cases hdriver : dev.driver with
      | none =>
        refine ⟨⟨?_, fun _ => spec_of_error (by decide) hsame⟩, fun _ => h⟩
        intro _ dev' drv hdev _ hdriver'
        rw [hdevice] at hdev
        cases hdev
        rw [hdriver] at hdriver'
        cases hdriver'
      | some drv =>
        rw [completes_iff hdevice hdetected hdriver]
        dsimp only
        cases hinstance : getInstance (state.instances drv) dev.bankId with
        | none =>
          have hspawn := h.spawnProcess htwo hlt hfree hinstance call.outcome call
          exact ⟨⟨fun hspec _ => hspawn.1.mp hspec, fun hgood => hspawn.1.mpr (hgood rfl)⟩,
            fun hgood => hspawn.2 (hgood rfl)⟩
        | some drvInstance =>
          obtain ⟨object, hobject, rfl⟩ := getInstance_eq_some hinstance
          obtain ⟨process, hprocess, hlive⟩ := h.running drv object hobject
          have hslot : procidProcess object.2.pid ≠ 0 := by
            have htwo := (h.slot drv object hobject).1
            omega
          have hstream : getStream state object.2.pid = some process := by
            rw [getStream, if_neg hslot, hprocess]
          refine ⟨⟨fun _ hnone => absurd hnone (some_ne_none _), fun _ => ?_⟩,
            fun _ => h⟩
          exact ⟨fun herr => absurd rfl herr,
            fun _ => ⟨process, _, congrArg some hstream, hlive, hprocess⟩⟩

theorem Inv.step (h : Inv state) (call : Call) :
    ∃ answer next, spawnDriver state call = some (answer, next) ∧
      (Spec state call answer next ↔ Good state call) ∧ (Good state call → Inv next) := by
  have hsame : ∀ counter, Unchanged state { state with nextProcId := counter } :=
    fun _ => ⟨fun _ => rfl, rfl, rfl⟩
  rw [spawnDriver]
  cases harguments : call.arguments with
  | false =>
    refine ⟨_, state, if_pos rfl, ⟨?_, fun _ => spec_of_error (by decide) (hsame _)⟩, fun _ => h⟩
    intro _ htrue
    rw [harguments] at htrue
    cases htrue
  | true =>
    rw [if_neg (by decide)]
    cases hnext : state.nextProcId.getNextValue state.isNull with
    | mk tmpId counter =>
      cases tmpId with
      | none =>
        refine ⟨_, _, rfl, ⟨?_, fun _ => spec_of_error (by decide) (hsame _)⟩,
          fun _ => h.getNextValue_none hnext⟩
        intro _ _ hsome
        rw [hnext] at hsome
        exact absurd rfl hsome
      | some tmpId =>
        obtain ⟨htwo, hlt, hfree, hinv⟩ := h.getNextValue hnext
        have hfor := hinv.spawnFor htwo hlt hfree call
        have hgood : Good state call ↔
            Completes { state with nextProcId := counter } call := by
          refine ⟨fun hgood => hgood harguments ?_, fun hcompletes _ _ => hcompletes⟩
          rw [hnext]
          exact some_ne_none _
        dsimp only
        rw [if_neg (by omega), hgood]
        exact ⟨_, _, rfl, (spec_withCounter counter).symm.trans hfor.1, hfor.2⟩

end

section

/-- What every history of calls leaves, whatever failed in it: the processes of the table are
older than the next one. -/
structure Sane (state : State) : Prop where
  startVal : state.nextProcId.startVal = 2
  nextVal : 2 ≤ state.nextProcId.nextVal
  one_lt : 1 < state.nextProcess
  process_lt : ∀ slot process, state.processes slot = some process → process < state.nextProcess

def Finds (state : State) (call : Call) : Prop :=
  call.arguments = true ∧ (state.nextProcId.getNextValue state.isNull).1 ≠ none ∧
    ∃ dev drv, call.device = some dev ∧ dev.driverDetected = true ∧ dev.driver = some drv ∧
      getInstance (state.instances drv) dev.bankId ≠ none

def Starts (state : State) (call : Call) : Prop :=
  call.arguments = true ∧ (state.nextProcId.getNextValue state.isNull).1 ≠ none ∧
    ∃ dev drv, call.device = some dev ∧ dev.driverDetected = true ∧ dev.driver = some drv ∧
      getInstance (state.instances drv) dev.bankId = none ∧
      call.outcome.addInstance = (true, .success) ∧ call.outcome.completes

variable {state : State} {dev : Device} {outcome : Outcome}

theorem sane_initialState (others : Nat → Bool) : Sane (initialState others) where
  startVal := rfl
  nextVal := le_refl 2
  one_lt := (by decide : 1 < maxNprocesses)
  process_lt := by
    intro slot process hprocess
    rw [initialState] at hprocess
    dsimp only at hprocess
    split at hprocess
    · rename_i hslot
      cases hprocess
      have hmax : (initialState others).nextProcess = maxNprocesses := rfl
      have htwo : 2 ≤ maxNprocesses := by decide
      omega
    · cases hprocess

variable (h : Sane state)

include h

theorem Sane.withCounter {nextVal : Nat} (hnext : 2 ≤ nextVal) :
    Sane { state with nextProcId := { state.nextProcId with nextVal := nextVal } } :=
  ⟨h.startVal, hnext, h.one_lt, h.process_lt⟩

theorem Sane.startProcess (newProcessId drv : Nat) :
    Sane (startProcess state newProcessId drv dev outcome).2 := by
  have hlater : ∀ slot process, state.processes slot = some process →
      process < state.nextProcess + 1 :=
    fun slot process hprocess => lt_succ_of_lt (h.process_lt slot process hprocess)
  have hone := lt_succ_of_lt h.one_lt
  rw [SpawnDriver.startProcess]
  dsimp only
  split
  · exact ⟨h.startVal, h.nextVal, hone, hlater⟩
  split
  · exact ⟨h.startVal, h.nextVal, hone, hlater⟩
  split
  · refine ⟨h.startVal, h.nextVal, hone, ?_⟩
    intro slot process hprocess
    rw [State.destroy] at hprocess
    dsimp only at hprocess
    rw [update_idem, update_apply] at hprocess
    split at hprocess
    · cases hprocess
    · exact hlater slot process hprocess
  refine ⟨h.startVal, h.nextVal, hone, ?_⟩
  intro slot process hprocess
  dsimp only at hprocess
  rw [update_apply] at hprocess
  split at hprocess
  · rw [← some.inj hprocess]
    exact lt_succ_self _
  · exact hlater slot process hprocess

theorem Sane.spawnProcess (newProcessId drv : Nat) :
    Sane (spawnProcess state newProcessId drv dev outcome).2 := by
  rw [SpawnDriver.spawnProcess]
  dsimp only
  split
  · exact ⟨h.startVal, h.nextVal, h.one_lt, h.process_lt⟩
  · split
    · exact ⟨h.startVal, h.nextVal, h.one_lt, h.process_lt⟩
    · refine Sane.startProcess ?_ _ _
      exact ⟨h.startVal, h.nextVal, h.one_lt, h.process_lt⟩

theorem Sane.spawnFor (newProcessId : Nat) (call : Call) :
    Sane (spawnFor state newProcessId call).2 := by
  rw [SpawnDriver.spawnFor]
  split
  · exact h
  split
  · exact h
  split
  · exact h
  · split
    · exact h
    · exact h.spawnProcess _ _

theorem Sane.getStream_ne (id : Nat) : getStream state id ≠ some state.nextProcess := by
  intro hstream
  rw [getStream] at hstream
  split at hstream
  · have hone := h.one_lt
    have heq := some.inj hstream
    omega
  · exact absurd (h.process_lt _ _ hstream) (lt_irrefl _)

omit h

theorem spawnProcess_err_iff (newProcessId : Nat) {drv : Nat}
    (hnone : getInstance (state.instances drv) dev.bankId = none) :
    (spawnProcess state newProcessId drv dev outcome).1.err = .success ↔
      outcome.addInstance = (true, .success) ∧ outcome.completes := by
  rcases eq_or_ne outcome.addInstance (true, .success) with hadds | hfails
  · rw [(spawnProcess_of_adds newProcessId hnone hadds).1]
    exact ⟨fun hcompletes => ⟨hadds, hcompletes⟩, fun h => h.2⟩
  obtain ⟨err, table, hadd, herr, -⟩ := addInstance_of_fails newProcessId hnone hfails
  rw [spawnProcess, hadd]
  dsimp only
  rw [if_pos herr]
  exact ⟨fun hsuccess => absurd hsuccess herr, fun h => absurd h.1 hfails⟩

structure Answers (state : State) (call : Call) (answer : Answer) : Prop where
  finds : Finds state call →
    answer.err = .success ∧ answer.retProcess ≠ some (some state.nextProcess)
  starts : Starts state call → answer = ⟨.success, some (some state.nextProcess)⟩
  fails : ¬Finds state call → ¬Starts state call → answer.err ≠ .success

theorem answers_of_error {call : Call} {err : Kerror} (herr : err ≠ .success)
    (hnone : ∀ dev drv, call.arguments = true →
      (state.nextProcId.getNextValue state.isNull).1 ≠ none → call.device = some dev →
      dev.driverDetected = true → dev.driver ≠ some drv) : Answers state call ⟨err, none⟩ where
  finds := by
    rintro ⟨harguments, hfree, dev, drv, hdevice, hdetected, hdriver, -⟩
    exact absurd hdriver (hnone dev drv harguments hfree hdevice hdetected)
  starts := by
    rintro ⟨harguments, hfree, dev, drv, hdevice, hdetected, hdriver, -⟩
    exact absurd hdriver (hnone dev drv harguments hfree hdevice hdetected)
  fails := fun _ _ => herr

theorem Sane.answers_spawnFor (h : Sane state) (newProcessId : Nat) {call : Call}
    (harguments : call.arguments = true)
    (hfree : (state.nextProcId.getNextValue state.isNull).1 ≠ none) (counter : WrapAroundCounter) :
    Answers state call
      (SpawnDriver.spawnFor { state with nextProcId := counter } newProcessId call).1 := by
  rw [SpawnDriver.spawnFor]
  cases hdevice : call.device with
  | none =>
    refine answers_of_error (by decide) fun dev drv _ _ hdev => ?_
    rw [hdevice] at hdev
    cases hdev
  | some dev =>
    dsimp only
    cases hdetected : dev.driverDetected with
    | false =>
      refine answers_of_error (by decide) fun dev' drv _ _ hdev hdetected' => ?_
      rw [hdevice] at hdev
      cases hdev
      rw [hdetected] at hdetected'
      cases hdetected'
    | true =>
      cases hdriver : dev.driver with
      | none =>
        refine answers_of_error (by decide) fun dev' drv _ _ hdev _ => ?_
        rw [hdevice] at hdev
        cases hdev
        rw [hdriver]
        exact (some_ne_none _).symm
      | some drv =>
        have hunique : ∀ dev' drv', call.device = some dev' → dev'.driver = some drv' →
            dev' = dev ∧ drv' = drv := by
          intro dev' drv' hdev hdrv
          rw [hdevice] at hdev
          cases hdev
          rw [hdriver] at hdrv
          cases hdrv
          exact ⟨rfl, rfl⟩
        dsimp only
        cases hinstance : getInstance (state.instances drv) dev.bankId with
        | some drvInstance =>
          refine ⟨fun _ => ⟨rfl, fun hstream => ?_⟩, ?_, fun hfinds => absurd ?_ hfinds⟩
          · exact h.getStream_ne drvInstance.pid (some.inj hstream)
          · rintro ⟨-, -, dev', drv', hdev, -, hdrv, hnone, -⟩
            obtain ⟨rfl, rfl⟩ := hunique dev' drv' hdev hdrv
            rw [hinstance] at hnone
            cases hnone
          · refine ⟨harguments, hfree, dev, drv, hdevice, hdetected, hdriver, ?_⟩
            rw [hinstance]
            exact some_ne_none _
        | none =>
          refine ⟨?_, ?_, fun _ hstarts herr => hstarts ?_⟩
          · rintro ⟨-, -, dev', drv', hdev, -, hdrv, hsome⟩
            obtain ⟨rfl, rfl⟩ := hunique dev' drv' hdev hdrv
            exact absurd hinstance hsome
          · rintro ⟨-, -, dev', drv', hdev, -, hdrv, -, hadds, hcompletes⟩
            exact congrArg Prod.fst (@spawnProcess_of_completes
              { state with nextProcId := counter } dev call.outcome newProcessId drv
              hinstance hadds hcompletes)
          · obtain ⟨hadds, hcompletes⟩ := (@spawnProcess_err_iff
              { state with nextProcId := counter } dev call.outcome newProcessId drv
              hinstance).mp herr
            exact ⟨harguments, hfree, dev, drv, hdevice, hdetected, hdriver, hinstance,
              hadds, hcompletes⟩

theorem Sane.spawnDriver (h : Sane state) (call : Call) :
    ∃ answer next, spawnDriver state call = some (answer, next) ∧ Sane next ∧
      Answers state call answer := by
  rw [SpawnDriver.spawnDriver]
  cases harguments : call.arguments with
  | false =>
    refine ⟨_, state, if_pos rfl, h, answers_of_error (by decide) fun _ _ htrue => ?_⟩
    rw [harguments] at htrue
    cases htrue
  | true =>
    rw [if_neg (by decide)]
    rcases getNextValue_cases state.nextProcId state.isNull with ⟨i, heq, hge, -⟩ | heq
    · have htwo : 2 ≤ i := by
        have hstart := h.startVal
        have hnextVal := h.nextVal
        omega
      have hfree : (state.nextProcId.getNextValue state.isNull).1 ≠ none := by
        rw [heq]
        exact some_ne_none _
      rw [heq]
      dsimp only
      rw [if_neg (by omega)]
      exact ⟨_, _, rfl, (h.withCounter (by omega)).spawnFor _ call,
        h.answers_spawnFor _ harguments hfree _⟩
    · rw [heq]
      refine ⟨_, _, rfl, h.withCounter h.startVal.ge,
        answers_of_error (by decide) fun _ _ _ hfree => ?_⟩
      rw [heq] at hfree
      exact absurd rfl hfree

end

/-- Exactly in the runs whose calls complete what they begin, every error leaves the lists and
tables as they were and every success is about a live process. -/
theorem meets_spec_iff_completes (others : Nat → Bool) (calls : List Call) :
    Meets spawnDriver Spec (initialState others) calls ↔
      Guarded spawnDriver Good (initialState others) calls :=
  meets_iff_guarded (fun _ call h => h.step call) (inv_initialState others)

def newProcessFails : Call where
  arguments := true
  device := some ⟨0, 0, true, some 0⟩
  outcome := ⟨(true, .success), false, .success, .success,
    ⟨.success, true, .success, .success, .success, .success⟩⟩

theorem newProcessFails_not_spec :
    ¬Meets spawnDriver Spec (initialState fun _ => false) [newProcessFails, newProcessFails] := by
  rintro ⟨_, next, hstep, -, answer, last, hstep', hspec, -⟩
  have hanswer : ((spawnDriver (initialState fun _ => false) newProcessFails).bind fun outcome =>
      (spawnDriver outcome.2 newProcessFails).map fun outcome => outcome.1) =
        some ⟨.success, some none⟩ := by
    decide +kernel
  rw [hstep, bind_some, hstep', map_some, some.injEq] at hanswer
  subst hanswer
  obtain ⟨process, slot, hnull, -⟩ := hspec.success rfl
  cases hnull

end Zambesii.SpawnDriver
