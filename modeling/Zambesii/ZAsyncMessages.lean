import Mathlib.Data.Multiset.AddSub
import Zambesii.Runs
import Zambesii.ZAsyncStream

/-!
The data headers of sent messages: the list of a stream against the messages that were sent to
it and not acknowledged.
-/

namespace Zambesii.ZAsyncMessages

open Function Option
open KernelTypes Runs ZAsyncStream

inductive Call
  | send (process currentTid bindTid data nBytes : Nat) (method : Method) (memory : SendMemory)
  | receive (process dataHandle buffer : Nat) (mapped : Kerror)
  | acknowledge (process dataHandle : Nat)

inductive Answer
  | returned (error : Kerror)
  | acknowledged (accepted : Bool)
deriving DecidableEq

/-- `outstanding` are the handles of the messages that were successfully sent to a process and not
acknowledged by it. -/
structure State where
  system : System
  outstanding : Nat → Multiset Nat

/-- The messages of a process after a successful `send`. -/
def sent (outstanding : Nat → Multiset Nat) (target : Nat) (header : Option Nat) :
    Nat → Multiset Nat :=
  match header with
  | none => outstanding
  | some header => update outstanding target (header ::ₘ outstanding target)

def step (state : State) : Call → Option (Answer × State)
  | .send process currentTid bindTid data nBytes method memory =>
    match send state.system process currentTid bindTid data nBytes method memory with
    | none => none
    | some (.success, system) =>
      some (.returned .success, ⟨system, sent state.outstanding (processOf bindTid) memory.header⟩)
    | some (error, system) => some (.returned error, { state with system })
  | .receive process dataHandle buffer mapped =>
    match receive state.system process dataHandle buffer mapped with
    | none => none
    | some error => some (.returned error, state)
  | .acknowledge process dataHandle =>
    match acknowledge state.system process dataHandle with
    | none => none
    | some (false, system) => some (.acknowledged false, { state with system })
    | some (true, system) =>
      some (.acknowledged true, ⟨system, update state.outstanding process
          ((state.outstanding process).erase dataHandle)⟩)

def Unused (system : System) : Prop :=
  (system.streams kernelProcess).isSome ∧
    ∀ process stream, system.streams process = some stream →
      stream.locked = false ∧ stream.messages = []

def initialState (system : System) : State where
  system
  outstanding := fun _ => 0

/-- The process is there, a new header is not in use, and the mapping fails with an error of its
own. -/
def Proper (state : State) : Call → Prop
  | .send process _ _ _ _ _ memory =>
    (state.system.streams process).isSome ∧
      ∀ header ∈ memory.header, header ≠ 0 ∧ state.system.headers header = none
  | .receive process _ _ mapped =>
    (state.system.streams process).isSome ∧
      (mapped = .success ∨ mapped = .invalidOperation ∨ mapped = .unknown)
  | .acknowledge process _ => (state.system.streams process).isSome

/-- `send` gets as far as the list of the target. -/
def Inserts (system : System) (process bindTid data : Nat) (memory : SendMemory) : Prop :=
  data ≠ 0 ∧ memory.header.isSome ∧ memory.message = true ∧ memory.listNode = true ∧
    ∃ stream ∈ system.streams process, ∃ target ∈ getStream system bindTid,
      target.connectionlessListen = true ∨
        (stream.pids.any fun other => procidProcess other = procidProcess bindTid) = true

/-- A message that is in the list of the target gets into the queue of the thread, and no handle in
the list is acknowledged. -/
def Undisturbed (state : State) : Call → Prop
  | .send process _ bindTid data _ _ memory =>
    Inserts state.system process bindTid data memory →
      state.system.threads bindTid = true ∧ memory.queueNode = true
  | .receive _ _ _ _ => True
  | .acknowledge process dataHandle =>
    ∀ stream ∈ state.system.streams process, dataHandle ∉ stream.messages

/-- The list of each stream has the outstanding messages, and their headers are allocated. -/
def Kept (state : State) : Prop :=
  ∀ process stream, state.system.streams process = some stream →
    (stream.messages : Multiset Nat) = state.outstanding process ∧
      ∀ header ∈ stream.messages, (state.system.headers header).isSome

def messagesOf (system : System) (process : Nat) : Option (List Nat) :=
  (system.streams process).map Stream.messages

def Keeps (state : State) (call : Call) (answer : Answer) (next : State) : Prop :=
  step state call = some (answer, next) ∧ Kept next ∧
    match call with
    | .send _ _ _ _ _ _ _ =>
      answer ≠ .returned .success → messagesOf next.system = messagesOf state.system
    | .receive process dataHandle _ _ =>
      answer ≠ .returned .invalidArg → answer ≠ .returned .invalidResourceHandle →
        dataHandle ∈ state.outstanding process
    | .acknowledge process dataHandle =>
      answer = .acknowledged true → dataHandle ∈ state.outstanding process

section

variable {state : State}

structure Sound (state : State) : Prop where
  kept : Kept state
  unlocked : ∀ process stream, state.system.streams process = some stream → stream.locked = false

theorem sound_initialState {system : System} (h : Unused system) : Sound (initialState system) where
  kept := by
    intro process stream hstream
    have hmessages := (h.2 process stream hstream).2
    rw [hmessages]
    exact ⟨rfl, by simp⟩
  unlocked := fun process stream hstream => (h.2 process stream hstream).1

theorem send_cases {system : System} {process currentTid bindTid data nBytes : Nat}
    {method : Method} {memory : SendMemory}
    (hunlocked : ∀ process stream, system.streams process = some stream → stream.locked = false)
    (hprocess : (system.streams process).isSome) :
    (∃ error, error ≠ .success ∧
      send system process currentTid bindTid data nBytes method memory = some (error, system)) ∨
    (∃ header ∈ memory.header,
      send system process currentTid bindTid data nBytes method memory = some (.memoryNomem,
        deleteHeader (createDataHeader system currentTid nBytes method header) header)) ∨
    ∃ header ∈ memory.header, ∃ target ∈ getStream system bindTid,
      Inserts system process bindTid data memory ∧
      send system process currentTid bindTid data nBytes method memory =
        some (enqueueOnThread system bindTid memory.queueNode,
          setStream (createDataHeader system currentTid nBytes method header) (processOf bindTid)
            { target with messages := header :: target.messages }) := by
  obtain ⟨stream, hstream⟩ := isSome_iff_exists.mp hprocess
  rw [send, hstream]
  split
  · exact .inl ⟨.invalidArg, by decide, rfl⟩
  next hdata =>
  cases htarget : getStream system bindTid with
  | none => exact .inl ⟨.invalidResourceId, by decide, rfl⟩
  | some target =>
    simp only [connectionlessListenEnabled, findConnection,
      acquire_of_unlocked (hunlocked _ _ htarget), acquire_of_unlocked (hunlocked _ _ hstream),
      some_bind]
    split
    · exact .inl ⟨.uninitialized, by decide, rfl⟩
    next hlisten =>
    cases hheader : memory.header with
    | none => exact .inl ⟨.memoryNomem, by decide, rfl⟩
    | some header =>
      dsimp only
      split
      · exact .inr (.inl ⟨header, rfl, rfl⟩)
      next hmessage =>
      split
      · exact .inr (.inl ⟨header, rfl, rfl⟩)
      next hnode =>
      refine .inr (.inr ⟨header, rfl, target, rfl, ⟨hdata, by simp [hheader], ?_, ?_, ?_⟩, rfl⟩)
      · simpa using hmessage
      · simpa using hnode
      · refine ⟨stream, hstream, target, htarget, ?_⟩
        cases hconnectionless : target.connectionlessListen with
        | true => exact .inl rfl
        | false => exact .inr (by simpa [hconnectionless] using hlisten)

theorem Sound.not_mem (h : Sound state) {process header : Nat} {stream : Stream}
    (hstream : state.system.streams process = some stream)
    (hheader : state.system.headers header = none) : header ∉ stream.messages := by
  intro hmem
  have hlive := (h.kept process stream hstream).2 header hmem
  rw [hheader] at hlive
  cases hlive

theorem Sound.deleteHeader (h : Sound state) (currentTid nBytes : Nat) (method : Method)
    {header : Nat} (hheader : state.system.headers header = none) :
    Sound { state with
      system := deleteHeader
        (createDataHeader state.system currentTid nBytes method header) header } := by
  refine ⟨fun process stream hstream => ⟨(h.kept process stream hstream).1, ?_⟩, h.unlocked⟩
  intro other hother
  have hne : other ≠ header := fun heq => h.not_mem hstream hheader (heq ▸ hother)
  have hlive := (h.kept process stream hstream).2 other hother
  rwa [deleteHeader_of_ne hne, createDataHeader_of_ne hne]

theorem Sound.insert (h : Sound state) (currentTid nBytes : Nat) (method : Method)
    {header bindTid : Nat} {target : Stream} (htarget : getStream state.system bindTid = some target)
    (hheader : state.system.headers header = none) :
    Sound
      ⟨setStream (createDataHeader state.system currentTid nBytes method header)
          (processOf bindTid) { target with messages := header :: target.messages },
        sent state.outstanding (processOf bindTid) (some header)⟩ := by
  have hlive : ∀ {process stream}, state.system.streams process = some stream →
      ∀ other ∈ stream.messages,
        ((createDataHeader state.system currentTid nBytes method header).headers other).isSome := by
    intro process stream hstream other hother
    have hne : other ≠ header := fun heq => h.not_mem hstream hheader (heq ▸ hother)
    rw [createDataHeader_of_ne hne]
    exact (h.kept process stream hstream).2 other hother
  constructor
  · intro process stream hstream
    rcases eq_or_ne process (processOf bindTid) with rfl | hne
    · rw [setStream_self] at hstream
      cases hstream
      refine ⟨?_, ?_⟩
      · dsimp only [sent]
        rw [update_self, ← (h.kept _ _ htarget).1]
        rfl
      · intro other hother
        rcases List.mem_cons.mp hother with rfl | hother
        · simp [setStream, createDataHeader]
        · exact hlive htarget other hother
    · rw [setStream_of_ne hne] at hstream
      refine ⟨?_, hlive hstream⟩
      dsimp only [sent]
      rw [update_of_ne hne]
      exact (h.kept process stream hstream).1
  · intro process stream hstream
    rcases eq_or_ne process (processOf bindTid) with rfl | hne
    · rw [setStream_self] at hstream
      cases hstream
      exact h.unlocked _ target htarget
    · rw [setStream_of_ne hne] at hstream
      exact h.unlocked process stream hstream

theorem Sound.step {call : Call} (h : Sound state) (hproper : Proper state call)
    (hundisturbed : Undisturbed state call) :
    ∃ answer next, Keeps state call answer next ∧ Sound next := by
  cases call with
  | send process currentTid bindTid data nBytes method memory =>
    obtain ⟨hprocess, hfresh⟩ := hproper
    rcases send_cases h.unlocked hprocess with
      ⟨error, herror, heq⟩ | ⟨header, hheader, heq⟩ |
        ⟨header, hheader, target, htarget, hinserts, heq⟩
    · refine ⟨.returned error, state, ⟨?_, h.kept, fun _ => rfl⟩, h⟩
      rw [ZAsyncMessages.step, heq]
      split
      · cases ‹_ = none›
      · next hsuccess =>
        cases hsuccess
        exact absurd rfl herror
      · next herror' =>
        cases herror'
        rfl
    · have hsound := h.deleteHeader currentTid nBytes method (hfresh header hheader).2
      refine ⟨.returned .memoryNomem, _, ⟨?_, hsound.kept, fun _ => rfl⟩, hsound⟩
      rw [ZAsyncMessages.step, heq]
    · obtain ⟨hthread, hnode⟩ := hundisturbed hinserts
      have hsound := h.insert currentTid nBytes method htarget (hfresh header hheader).2
      refine ⟨.returned .success, _, ⟨?_, hsound.kept, fun hfailed => absurd rfl hfailed⟩, hsound⟩
      rw [ZAsyncMessages.step, heq, enqueueOnThread, hthread, hnode, hheader]
      rfl
  | receive process dataHandle buffer mapped =>
    obtain ⟨stream, hstream⟩ := isSome_iff_exists.mp hproper.1
    have hkept := h.kept process stream hstream
    have hreceive : ∃ error, receive state.system process dataHandle buffer mapped = some error ∧
        (error ≠ .invalidArg → error ≠ .invalidResourceHandle → dataHandle ∈ stream.messages) := by
      rw [receive, hstream]
      simp only [some_bind]
      split
      · exact ⟨_, rfl, fun hne => absurd rfl hne⟩
      split
      · exact ⟨_, rfl, fun _ hne => absurd rfl hne⟩
      next hmem =>
      obtain ⟨header, hheader⟩ := isSome_iff_exists.mp (hkept.2 _ (not_not.mp hmem))
      rw [hheader]
      exact ⟨_, rfl, fun _ _ => not_not.mp hmem⟩
    obtain ⟨error, heq, haccepts⟩ := hreceive
    refine ⟨.returned error, state, ⟨?_, h.kept, fun harg hhandle => ?_⟩, h⟩
    · rw [ZAsyncMessages.step, heq]
    · rw [← hkept.1]
      exact haccepts (fun heq => harg (congrArg _ heq)) fun heq => hhandle (congrArg _ heq)
  | acknowledge process dataHandle =>
    obtain ⟨stream, hstream⟩ := isSome_iff_exists.mp hproper
    have hnot := hundisturbed stream hstream
    refine ⟨.acknowledged false, state, ⟨?_, h.kept, fun haccepted => by cases haccepted⟩, h⟩
    rw [ZAsyncMessages.step, acknowledge, hstream]
    simp [hnot]

instance decidableProper (state : State) : (call : Call) → Decidable (Proper state call)
  | .send _ _ _ _ _ _ _ => inferInstanceAs (Decidable (_ ∧ _))
  | .receive _ _ _ _ => inferInstanceAs (Decidable (_ ∧ _))
  | .acknowledge process _ => inferInstanceAs (Decidable ((state.system.streams process).isSome))

instance decidableInserts (system : System) (process bindTid data : Nat) (memory : SendMemory) :
    Decidable (Inserts system process bindTid data memory) :=
  inferInstanceAs (Decidable (_ ∧ _ ∧ _ ∧ _ ∧ _))

instance decidableUndisturbed (state : State) : (call : Call) → Decidable (Undisturbed state call)
  | .send _ _ _ _ _ _ _ => inferInstanceAs (Decidable (_ → _))
  | .receive _ _ _ _ => inferInstanceAs (Decidable True)
  | .acknowledge process _ =>
    inferInstanceAs (Decidable (∀ stream ∈ state.system.streams process, _ ∉ stream.messages))

/-- As long as every message in a list gets into the queue of its thread, and no listed handle is
acknowledged, the lists have the outstanding messages. -/
theorem run_keeps_outstanding (system : System) (hunused : Unused system) (calls : List Call)
    (h : Guarded step (fun state call => Proper state call ∧ Undisturbed state call)
      (initialState system) calls) :
    ∃ answers last, run step (initialState system) calls = some (answers, last) ∧
      SpecRun Keeps (initialState system) calls answers last := by
  refine run_satisfies (fun state call hsound hguard => ?_) (sound_initialState hunused) h
  obtain ⟨answer, next, hkeeps, hnext⟩ := Sound.step hsound hguard.1 hguard.2
  exact ⟨answer, next, hkeeps.1, hkeeps, hnext⟩

def openStream : Stream := ⟨some 0, false, [], true, []⟩

def openSystem : System where
  streams := fun _ => some openStream
  threads := fun tid => tid % 2 ^ 16 == 1
  headers := fun _ => none

theorem unused_openSystem : Unused openSystem := by
  refine ⟨rfl, ?_⟩
  intro process stream hstream
  cases hstream
  exact ⟨rfl, rfl⟩

def receiverTid : Nat := 0x30001

/-- The process 2 sends to the process 3, which receives; a forged handle is rejected. -/
def sendAndReceive : List Call :=
  [.send 2 0x20001 receiverTid 64 16 .buffer ⟨some 500, true, true, true⟩,
    .receive 3 500 64 .success, .receive 3 501 64 .success, .acknowledge 3 501]

theorem run_keeps_outstanding_sendAndReceive :
    ∃ answers last, run step (initialState openSystem) sendAndReceive = some (answers, last) ∧
      answers = [.returned .success, .returned .success, .returned .invalidResourceHandle,
        .acknowledged false] ∧ last.outstanding 3 = {500} ∧
      SpecRun Keeps (initialState openSystem) sendAndReceive answers last := by
  have hrun : ((run step (initialState openSystem) sendAndReceive).any fun r =>
      decide (r.1 = [.returned .success, .returned .success, .returned .invalidResourceHandle,
        .acknowledged false] ∧ r.2.outstanding 3 = {500})) = true := by
    decide +kernel
  obtain ⟨⟨answers, last⟩, hlast, hstate⟩ := (any_eq_true _ _).mp hrun
  obtain ⟨answers', last', hlast', hkeeps⟩ :=
    run_keeps_outstanding openSystem unused_openSystem sendAndReceive (by decide +kernel)
  obtain ⟨rfl, rfl⟩ := Prod.mk.inj (some.inj (hlast.symm.trans hlast'))
  obtain ⟨hanswers, houtstanding⟩ := of_decide_eq_true hstate
  exact ⟨answers, last, hlast, hanswers, houtstanding, hkeeps⟩

def sendAndAcknowledge : List Call :=
  [.send 2 0x20001 receiverTid 64 16 .buffer ⟨some 500, true, true, true⟩, .acknowledge 3 500]

theorem sendAndAcknowledge_dangling : ¬ ∀ system, Unused system → ∀ calls,
      Guarded step Proper (initialState system) calls →
      ∃ answers last, run step (initialState system) calls = some (answers, last) ∧
        SpecRun Keeps (initialState system) calls answers last := by
  intro hclaim
  have hrun : ((run step (initialState openSystem) sendAndAcknowledge).any fun r =>
      decide (messagesOf r.2.system 3 = some [500] ∧ r.2.system.headers 500 = none)) = true := by
    decide +kernel
  obtain ⟨⟨answers, last⟩, hlast, hstate⟩ := (any_eq_true _ _).mp hrun
  obtain ⟨answers', last', hlast', hkeeps⟩ :=
    hclaim openSystem unused_openSystem sendAndAcknowledge (by decide +kernel)
  obtain ⟨rfl, rfl⟩ := Prod.mk.inj (some.inj (hlast.symm.trans hlast'))
  obtain ⟨hmessages, hheader⟩ := of_decide_eq_true hstate
  obtain ⟨stream, hstream, hmessages⟩ := map_eq_some_iff.mp hmessages
  have hkept := hkeeps.holds_last (fun _ _ _ _ h => h.2.1)
    (sound_initialState unused_openSystem).kept
  have hlive := (hkept 3 stream hstream).2 500 (by simp [hmessages])
  rw [hheader] at hlive
  cases hlive

end

end Zambesii.ZAsyncMessages
