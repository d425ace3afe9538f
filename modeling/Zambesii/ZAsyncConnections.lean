import Mathlib.Data.List.Basic
import Zambesii.Runs
import Zambesii.ZAsyncStream

/-!
The connection lists: a connection has two ends, in two streams.
-/

namespace Zambesii.ZAsyncConnections

open KernelTypes List Option Runs ZAsyncStream

inductive Call
  | connect (process targetPid : Nat) (request queueNode : Bool)
  | respond (process sourceId initiatorPid : Nat) (reply : ConnectReply) (memory : RespondMemory)
  | removeConnection (process pid : Nat)

def step (system : System) : Call → Option (Kerror × System)
  | .connect process targetPid request queueNode =>
    match connect system process targetPid request queueNode with
    | none => none
    | some error => some (error, system)
  | .respond process sourceId initiatorPid reply memory =>
    respond system process sourceId initiatorPid reply memory
  | .removeConnection process pid => do
      let stream ← system.streams process
      let stream ← removeConnection stream pid
      some (.success, setStream system process stream)

def Lists (system : System) (process other : Nat) : Prop :=
  ∃ stream ∈ system.streams process, ∃ pid ∈ stream.pids, processOf pid = other

def Symmetric (system : System) : Prop :=
  ∀ process other, (system.streams process).isSome → (system.streams other).isSome →
    (Lists system process other ↔ Lists system other process)

def Unlocked (system : System) : Prop :=
  ∀ process stream, system.streams process = some stream → stream.locked = false

def Unconnected (system : System) : Prop :=
  (system.streams kernelProcess).isSome ∧
    ∀ process stream, system.streams process = some stream →
      stream.locked = false ∧ stream.pids = []

def pidsOf (system : System) (process : Nat) : Option (List Nat) :=
  (system.streams process).map Stream.pids

/-- `respond` with `CONNREPLY_YES` records both ends, or fails with the lists as before. -/
def RespondsWhole (system : System) (process sourceId initiatorPid : Nat)
    (memory : RespondMemory) : Prop :=
  ∃ error next, respond system process sourceId initiatorPid .yes memory = some (error, next) ∧
    ((error = .success ∧ Lists next process (processOf initiatorPid) ∧
        Lists next (processOf initiatorPid) process) ∨
      (error ≠ .success ∧ pidsOf next = pidsOf system))

/-- `respond` gets as far as its reply. -/
def Replies (system : System) (process initiatorPid : Nat) (memory : RespondMemory) : Prop :=
  memory.response = true ∧
    ∃ initiator ∈ getStream system initiatorPid, ∃ stream ∈ system.streams process,
      initiator.handlerTid ≠ none ∧ stream.handlerTid ≠ none

def Completes (system : System) (process initiatorPid : Nat) (memory : RespondMemory) : Prop :=
  Replies system process initiatorPid memory →
    memory.initiatorArray = true ∧ memory.ownArray = true ∧
      system.threads initiatorPid = true ∧ memory.queueNode = true

def Proper (system : System) : Call → Prop
  | .connect process _ _ _ => (system.streams process).isSome
  | .respond process sourceId _ _ _ =>
    (system.streams process).isSome ∧ processOf sourceId = process
  | .removeConnection process _ => (system.streams process).isSome

/-- A connection of which one end is removed is one with the own process, or its end was not in the
list, or was in it more than once. -/
def Careful (system : System) : Call → Prop
  | .connect _ _ _ _ => True
  | .respond process _ initiatorPid reply memory =>
    reply = .yes → Completes system process initiatorPid memory
  | .removeConnection process pid =>
    processOf pid = process ∨ ∀ stream ∈ system.streams process,
      (∀ other ∈ stream.pids, procidProcess other ≠ procidProcess pid) ∨
        2 ≤ stream.pids.countP fun other => processOf other = processOf pid

section

variable {system : System} {process sourceId initiatorPid pid : Nat} {memory : RespondMemory}
  {stream : Stream}

def addPid (system : System) (process pid : Nat) : System :=
  match system.streams process with
  | none => system
  | some stream => setStream system process { stream with pids := stream.pids ++ [pid] }

theorem addPid_eq (h : system.streams process = some stream) (pid : Nat) :
    addPid system process pid =
      setStream system process { stream with pids := stream.pids ++ [pid] } := by
  rw [addPid, h]

theorem isSome_addPid (system : System) (process pid other : Nat) :
    ((addPid system process pid).streams other).isSome = (system.streams other).isSome := by
  rw [addPid]
  cases h : system.streams process with
  | none => rfl
  | some stream =>
    rcases eq_or_ne other process with rfl | hne
    · rw [setStream_self, h]
      rfl
    · rw [setStream_of_ne hne]

theorem Unlocked.addPid (h : Unlocked system) (process pid : Nat) :
    Unlocked (addPid system process pid) := by
  rw [ZAsyncConnections.addPid]
  cases hprocess : system.streams process with
  | none => exact h
  | some stream =>
    intro other found hfound
    rcases eq_or_ne other process with rfl | hne
    · rw [setStream_self] at hfound
      cases hfound
      exact h other stream hprocess
    · rw [setStream_of_ne hne] at hfound
      exact h other found hfound

theorem lists_addPid (hprocess : (system.streams process).isSome) (pid one other : Nat) :
    Lists (addPid system process pid) one other ↔
      Lists system one other ∨ one = process ∧ other = processOf pid := by
  obtain ⟨stream, hstream⟩ := isSome_iff_exists.mp hprocess
  rw [addPid_eq hstream]
  rcases eq_or_ne one process with rfl | hne
  · simp only [Lists, setStream_self, hstream, mem_def, some.injEq, exists_eq_left',
      mem_append, mem_singleton, or_and_right, exists_or, exists_eq_left, true_and]
    rw [eq_comm (a := processOf pid)]
  · simp [Lists, setStream_of_ne hne, hne]

theorem threads_addPid (system : System) (process pid : Nat) :
    (addPid system process pid).threads = system.threads := by
  rw [addPid]
  split <;> rfl

theorem enqueueOnThread_eq_success {targetStreamId : Nat} {allocated : Bool} :
    enqueueOnThread system targetStreamId allocated = .success ↔
      system.threads targetStreamId = true ∧ allocated = true := by
  rw [enqueueOnThread]
  cases system.threads targetStreamId <;> cases allocated <;> simp

theorem length_pidsOf_addPid (system : System) (process pid other : Nat) :
    (pidsOf system other).elim 0 List.length ≤
      (pidsOf (addPid system process pid) other).elim 0 List.length := by
  rw [addPid]
  cases hprocess : system.streams process with
  | none => exact le_refl _
  | some stream =>
    dsimp only [pidsOf]
    rcases eq_or_ne other process with rfl | hne
    · simp [hprocess]
    · simp [setStream_of_ne hne]

theorem length_pidsOf_addPid_self (hprocess : (system.streams process).isSome) (pid : Nat) :
    (pidsOf system process).elim 0 List.length <
      (pidsOf (addPid system process pid) process).elim 0 List.length := by
  obtain ⟨stream, hstream⟩ := isSome_iff_exists.mp hprocess
  rw [addPid_eq hstream]
  simp [pidsOf, hstream]

theorem pidsOf_addPid_ne {other otherPid : Nat}
    (hother : ((addPid system process pid).streams other).isSome) :
    pidsOf (addPid (addPid system process pid) other otherPid) ≠ pidsOf system := by
  intro heq
  have hlt := length_pidsOf_addPid_self hother otherPid
  have hle := length_pidsOf_addPid system process pid other
  rw [heq] at hlt
  omega

theorem addConnection_allocated (h : stream.locked = false) (pid : Nat) :
    addConnection stream pid true =
      some (.success, { stream with pids := stream.pids ++ [pid] }) := by
  rw [addConnection, acquire_of_unlocked h]
  simp [release, h]

theorem addConnection_unallocated (stream : Stream) (pid : Nat) :
    addConnection stream pid false = none := by
  rw [addConnection]
  cases h : stream.locked <;> simp [acquire, h]

theorem respond_cases (h : Unlocked system) (hprocess : (system.streams process).isSome)
    (reply : ConnectReply) :
    (¬ Replies system process initiatorPid memory ∧ ∃ error, error ≠ .success ∧
      respond system process sourceId initiatorPid reply memory = some (error, system)) ∨
    (reply ≠ .yes ∧ ∃ error,
      respond system process sourceId initiatorPid reply memory = some (error, system)) ∨
    (reply = .yes ∧ Replies system process initiatorPid memory ∧
      (memory.initiatorArray = false ∨ memory.ownArray = false) ∧
      respond system process sourceId initiatorPid reply memory = none) ∨
    (reply = .yes ∧ Replies system process initiatorPid memory ∧
      memory.initiatorArray = true ∧ memory.ownArray = true ∧
      respond system process sourceId initiatorPid reply memory =
        some (enqueueOnThread system initiatorPid memory.queueNode,
          addPid (addPid system (processOf initiatorPid) sourceId) process initiatorPid)) := by
  obtain ⟨stream, hstream⟩ := isSome_iff_exists.mp hprocess
  rw [respond, hstream]
  simp only [some_bind]
  cases hinitiator : getStream system initiatorPid with
  | none =>
    refine .inl ⟨?_, .invalidResourceName, by decide, rfl⟩
    rintro ⟨-, initiator, hmem, -⟩
    rw [hinitiator] at hmem
    cases hmem
  | some initiator =>
    dsimp only
    rcases em (initiator.handlerTid = none ∨ stream.handlerTid = none) with hhandler | hhandler
    · rw [if_pos hhandler]
      refine .inl ⟨?_, .uninitialized, by decide, rfl⟩
      rintro ⟨-, initiator', hmem, stream', hmem', hne, hne'⟩
      cases hinitiator.symm.trans hmem
      obtain rfl := some.inj (hstream.symm.trans hmem')
      exact hhandler.elim hne hne'
    rw [if_neg hhandler]
    rcases em ((!memory.response) = true) with hresponse | hresponse
    · rw [if_pos hresponse]
      refine .inl ⟨?_, .memoryNomem, by decide, rfl⟩
      rintro ⟨hallocated, -⟩
      rw [hallocated] at hresponse
      cases hresponse
    rw [if_neg hresponse]
    have hreplies : Replies system process initiatorPid memory := by
      rw [not_or] at hhandler
      exact ⟨by simpa using hresponse, initiator, hinitiator, stream, hstream, hhandler⟩
    rcases eq_or_ne reply .yes with hyes | hno
    · rw [if_pos hyes]
      right
      right
      cases hinitiatorArray : memory.initiatorArray with
      | false =>
        refine .inl ⟨hyes, hreplies, .inl rfl, ?_⟩
        rw [addConnection_unallocated]
        rfl
      | true =>
        rw [addConnection_allocated (h _ _ hinitiator)]
        simp only [some_bind, ne_eq, not_true_eq_false, if_false]
        rw [← addPid_eq hinitiator sourceId]
        -- the own stream is read again, since it may be that of the initiator
        have hown := isSome_addPid system (processOf initiatorPid) sourceId process
        rw [hstream] at hown
        obtain ⟨own, hown⟩ := isSome_iff_exists.mp hown
        have hunlocked := h.addPid (processOf initiatorPid) sourceId
        rw [hown]
        simp only [some_bind]
        cases hownArray : memory.ownArray with
        | false =>
          refine .inl ⟨hyes, hreplies, .inr rfl, ?_⟩
          rw [addConnection_unallocated]
          rfl
        | true =>
          refine .inr ⟨hyes, hreplies, trivial, rfl, ?_⟩
          rw [addConnection_allocated (hunlocked _ _ hown)]
          simp only [some_bind, not_true_eq_false, if_false]
          rw [← addPid_eq hown initiatorPid, enqueueOnThread, threads_addPid,
            threads_addPid, enqueueOnThread]
    · rw [if_neg hno]
      exact .inr (.inl ⟨hno, _, rfl⟩)

theorem respondsWhole_iff (h : Unlocked system) (hprocess : (system.streams process).isSome)
    (hsource : processOf sourceId = process) :
    RespondsWhole system process sourceId initiatorPid memory ↔
      Completes system process initiatorPid memory := by
  rcases respond_cases h hprocess .yes with
    ⟨hnot, error, herror, heq⟩ | ⟨hno, -⟩ | ⟨-, hreplies, hfails, heq⟩ |
      ⟨-, hreplies, hinitiatorArray, hownArray, heq⟩
  · refine iff_of_true ⟨error, system, heq, .inr ⟨herror, rfl⟩⟩ ?_
    exact fun hreplies => absurd hreplies hnot
  · exact absurd rfl hno
  · refine iff_of_false ?_ ?_
    · rintro ⟨error, next, hsome, -⟩
      rw [heq] at hsome
      cases hsome
    · intro hcompletes
      obtain ⟨hinitiatorArray, hownArray, -⟩ := hcompletes hreplies
      rw [hinitiatorArray, hownArray] at hfails
      simp at hfails
  have hinitiator : (system.streams (processOf initiatorPid)).isSome := by
    obtain ⟨-, initiator, hmem, -⟩ := hreplies
    exact isSome_iff_exists.mpr ⟨initiator, hmem⟩
  have hown : ((addPid system (processOf initiatorPid) sourceId).streams process).isSome := by
    rw [isSome_addPid]
    exact hprocess
  constructor
  · rintro ⟨error, next, hsome, hwhole⟩ -
    rw [heq] at hsome
    cases hsome
    refine ⟨hinitiatorArray, hownArray, ?_⟩
    rcases hwhole with ⟨hsuccess, -⟩ | ⟨-, hsame⟩
    · exact enqueueOnThread_eq_success.mp hsuccess
    · exact absurd hsame (pidsOf_addPid_ne hown)
  · intro hcompletes
    obtain ⟨-, -, hthread⟩ := hcompletes hreplies
    refine ⟨_, _, heq, .inl ⟨enqueueOnThread_eq_success.mpr hthread, ?_, ?_⟩⟩
    · exact (lists_addPid hown initiatorPid _ _).mpr (.inr ⟨rfl, rfl⟩)
    · refine (lists_addPid hown initiatorPid _ _).mpr (.inl ?_)
      exact (lists_addPid hinitiator sourceId _ _).mpr (.inr ⟨rfl, hsource.symm⟩)

end

section

variable {system : System} {process pid : Nat} {stream : Stream}

theorem removeConnection_eq (h : stream.locked = false) (pid : Nat) :
    removeConnection stream pid = some { stream with
      pids := stream.pids.eraseP fun other => procidProcess other = procidProcess pid } := by
  rw [removeConnection, acquire_of_unlocked h]
  simp [release, h]

theorem processOf_congr {pid other : Nat} (h : procidProcess other = procidProcess pid) :
    processOf other = processOf pid := by
  rw [processOf, processOf, h]

theorem exists_mem_eraseP_of_ne {pids : List Nat} {other : Nat} (hne : other ≠ processOf pid) :
    (∃ entry ∈ pids.eraseP fun other => procidProcess other = procidProcess pid,
        processOf entry = other) ↔ ∃ entry ∈ pids, processOf entry = other := by
  constructor
  · rintro ⟨entry, hentry, rfl⟩
    exact ⟨entry, mem_of_mem_eraseP hentry, rfl⟩
  · rintro ⟨entry, hentry, rfl⟩
    refine ⟨entry, (mem_eraseP_of_neg ?_).mpr hentry, rfl⟩
    simp only [decide_eq_true_eq]
    exact fun heq => hne (processOf_congr heq)

theorem exists_mem_eraseP_of_two {pids : List Nat}
    (h : 2 ≤ pids.countP fun other => processOf other = processOf pid) :
    ∃ entry ∈ pids.eraseP fun other => procidProcess other = procidProcess pid,
      processOf entry = processOf pid := by
  rcases exists_or_eq_self_of_eraseP (fun other => procidProcess other = procidProcess pid)
    pids with hsame | ⟨removed, front, back, -, -, hpids, herase⟩
  · rw [hsame]
    obtain ⟨entry, hentry, heq⟩ := countP_pos_iff.mp (lt_of_lt_of_le Nat.zero_lt_two h)
    exact ⟨entry, hentry, by simpa using heq⟩
  have hcount : 0 < (front ++ back).countP fun other => processOf other = processOf pid := by
    rw [hpids, countP_append, countP_cons] at h
    rw [countP_append]
    split at h <;> omega
  rw [herase]
  obtain ⟨entry, hentry, heq⟩ := countP_pos_iff.mp hcount
  exact ⟨entry, hentry, by simpa using heq⟩

theorem lists_removed (hstream : system.streams process = some stream) {one other : Nat}
    (h : one ≠ process ∨ other ≠ processOf pid) :
    Lists (setStream system process { stream with
        pids := stream.pids.eraseP fun other => procidProcess other = procidProcess pid }) one other ↔
      Lists system one other := by
  rcases eq_or_ne one process with rfl | hne
  · have hother := h.resolve_left (fun hne => hne rfl)
    simp only [Lists, setStream_self, hstream, mem_def, some.injEq, exists_eq_left']
    exact exists_mem_eraseP_of_ne hother
  · simp only [Lists, setStream_of_ne hne]

theorem lists_removed_self (hstream : system.streams process = some stream)
    (h : (∀ other ∈ stream.pids, procidProcess other ≠ procidProcess pid) ∨
      2 ≤ stream.pids.countP fun other => processOf other = processOf pid) :
    Lists (setStream system process { stream with
        pids := stream.pids.eraseP fun other => procidProcess other = procidProcess pid })
        process (processOf pid) ↔
      Lists system process (processOf pid) := by
  simp only [Lists, setStream_self, hstream, mem_def, some.injEq, exists_eq_left']
  rcases h with hnone | htwo
  · rw [eraseP_of_forall_not]
    simpa using hnone
  · refine iff_of_true (exists_mem_eraseP_of_two htwo) ?_
    obtain ⟨entry, hentry, heq⟩ := exists_mem_eraseP_of_two htwo
    exact ⟨entry, mem_of_mem_eraseP hentry, heq⟩

end

section

variable {system : System} {call : Call}

structure Sound (system : System) : Prop where
  symmetric : Symmetric system
  unlocked : Unlocked system

theorem sound_of_unconnected (h : Unconnected system) : Sound system := by
  have hnone : ∀ process other, ¬ Lists system process other := by
    rintro process other ⟨stream, hstream, pid, hpid, -⟩
    rw [(h.2 process stream hstream).2] at hpid
    cases hpid
  refine ⟨fun process other _ _ => ?_, fun process stream hstream => (h.2 process stream hstream).1⟩
  exact iff_of_false (hnone process other) (hnone other process)

theorem Sound.addPids (h : Sound system) {process sourceId initiatorPid : Nat}
    (hprocess : (system.streams process).isSome)
    (hinitiator : (system.streams (processOf initiatorPid)).isSome)
    (hsource : processOf sourceId = process) :
    Sound (addPid (addPid system (processOf initiatorPid) sourceId) process initiatorPid) := by
  refine ⟨?_, (h.unlocked.addPid _ _).addPid _ _⟩
  intro one other hone hother
  rw [isSome_addPid, isSome_addPid] at hone hother
  have hown : ((addPid system (processOf initiatorPid) sourceId).streams process).isSome := by
    rw [isSome_addPid]
    exact hprocess
  rw [lists_addPid hown, lists_addPid hown, lists_addPid hinitiator, lists_addPid hinitiator,
    h.symmetric one other hone hother, hsource]
  tauto

theorem Sound.removed (h : Sound system) {process pid : Nat} {stream : Stream}
    (hstream : system.streams process = some stream)
    (hcareful : Careful system (.removeConnection process pid)) :
    Sound (setStream system process { stream with
      pids := stream.pids.eraseP fun other => procidProcess other = procidProcess pid }) := by
  have hsome : ∀ other, ((setStream system process { stream with
      pids := stream.pids.eraseP fun other => procidProcess other = procidProcess pid }).streams
        other).isSome = (system.streams other).isSome := by
    intro other
    rcases eq_or_ne other process with rfl | hne
    · rw [setStream_self, hstream]
      rfl
    · rw [setStream_of_ne hne]
  -- the pair of the two processes, in either order, and the other pairs
  have hlists : processOf pid ≠ process → ∀ one other, Lists (setStream system process { stream with
      pids := stream.pids.eraseP fun other => procidProcess other = procidProcess pid }) one other ↔
      Lists system one other := by
    intro hne one other
    rcases eq_or_ne one process with rfl | hone
    · rcases eq_or_ne other (processOf pid) with rfl | hother
      · exact lists_removed_self hstream (hcareful.resolve_left hne stream hstream)
      · exact lists_removed hstream (.inr hother)
    · exact lists_removed hstream (.inl hone)
  constructor
  · intro one other hone hother
    rw [hsome] at hone hother
    rcases eq_or_ne (processOf pid) process with heq | hne
    · rcases eq_or_ne one other with rfl | hdistinct
      · exact Iff.rfl
      · have hone' : one ≠ process ∨ other ≠ processOf pid := by
          rw [heq]
          exact not_and_or.mp fun hboth => hdistinct (hboth.1.trans hboth.2.symm)
        have hother' : other ≠ process ∨ one ≠ processOf pid := by
          rw [heq]
          exact not_and_or.mp fun hboth => hdistinct (hboth.2.trans hboth.1.symm)
        rw [lists_removed hstream hone', lists_removed hstream hother']
        exact h.symmetric one other hone hother
    · rw [hlists hne, hlists hne]
      exact h.symmetric one other hone hother
  · intro other found hfound
    rcases eq_or_ne other process with rfl | hne
    · rw [setStream_self] at hfound
      cases hfound
      exact h.unlocked other stream hstream
    · rw [setStream_of_ne hne] at hfound
      exact h.unlocked other found hfound

theorem connect_returns (h : Unlocked system) {process targetPid : Nat} {request queueNode : Bool}
    (hprocess : (system.streams process).isSome) :
    ∃ error, connect system process targetPid request queueNode = some error := by
  obtain ⟨stream, hstream⟩ := isSome_iff_exists.mp hprocess
  rw [connect, hstream]
  simp only [findConnection, acquire_of_unlocked (h _ _ hstream), some_bind]
  split
  · exact ⟨_, rfl⟩
  split
  · exact ⟨_, rfl⟩
  split
  · split
    · exact ⟨_, rfl⟩
    · exact ⟨_, rfl⟩
  · exact ⟨_, rfl⟩

theorem Sound.step (h : Sound system) (hproper : Proper system call)
    (hcareful : Careful system call) :
    ∃ error next, ZAsyncConnections.step system call = some (error, next) ∧ Sound next := by
  cases call with
  | connect process targetPid request queueNode =>
    obtain ⟨error, heq⟩ := connect_returns h.unlocked hproper
    refine ⟨error, system, ?_, h⟩
    rw [ZAsyncConnections.step, heq]
  | respond process sourceId initiatorPid reply memory =>
    obtain ⟨hprocess, hsource⟩ := hproper
    rcases respond_cases h.unlocked hprocess reply with
      ⟨-, error, -, heq⟩ | ⟨-, error, heq⟩ | ⟨hyes, hreplies, hfails, -⟩ |
        ⟨-, hreplies, -, -, heq⟩
    · exact ⟨error, system, heq, h⟩
    · exact ⟨error, system, heq, h⟩
    · obtain ⟨hinitiatorArray, hownArray, -⟩ := hcareful hyes hreplies
      rw [hinitiatorArray, hownArray] at hfails
      simp at hfails
    · obtain ⟨-, initiator, hmem, -⟩ := hreplies
      exact ⟨_, _, heq, h.addPids hprocess (isSome_iff_exists.mpr ⟨initiator, hmem⟩) hsource⟩
  | removeConnection process pid =>
    obtain ⟨stream, hstream⟩ := isSome_iff_exists.mp hproper
    refine ⟨.success, _, ?_, h.removed hstream hcareful⟩
    rw [ZAsyncConnections.step, hstream]
    simp only [some_bind]
    rw [removeConnection_eq (h.unlocked _ _ hstream)]
    rfl

/-- `respond` records a connection as a whole exactly when nothing fails once it replies; as long as
that is so, and no single end of a connection is removed, the lists agree and the locks are free. -/
theorem respondsWhole_and_run_symmetric (system : System) :
    (Unlocked system → ∀ process sourceId initiatorPid memory,
      (system.streams process).isSome → processOf sourceId = process →
      (RespondsWhole system process sourceId initiatorPid memory ↔
        Completes system process initiatorPid memory)) ∧
    (Unconnected system → ∀ calls,
      Guarded step (fun system call => Proper system call ∧ Careful system call) system calls →
      ∃ errors last, run step system calls = some (errors, last) ∧ Symmetric last ∧
        Unlocked last) := by
  constructor
  · intro hunlocked process sourceId initiatorPid memory hprocess hsource
    exact respondsWhole_iff hunlocked hprocess hsource
  · intro hunconnected calls hguarded
    obtain ⟨errors, last, hrun, hsound⟩ := run_invariant
      (fun system call hsound hguard => Sound.step hsound hguard.1 hguard.2)
      (sound_of_unconnected hunconnected) hguarded
    exact ⟨errors, last, hrun, hsound.symmetric, hsound.unlocked⟩

instance decidableReplies (system : System) (process initiatorPid : Nat) (memory : RespondMemory) :
    Decidable (Replies system process initiatorPid memory) :=
  inferInstanceAs (Decidable (_ ∧ _))

instance decidableCompletes (system : System) (process initiatorPid : Nat)
    (memory : RespondMemory) : Decidable (Completes system process initiatorPid memory) :=
  inferInstanceAs (Decidable (_ → _))

instance decidableProper (system : System) : (call : Call) → Decidable (Proper system call)
  | .connect process _ _ _ => inferInstanceAs (Decidable ((system.streams process).isSome))
  | .respond _ _ _ _ _ => inferInstanceAs (Decidable (_ ∧ _))
  | .removeConnection process _ => inferInstanceAs (Decidable ((system.streams process).isSome))

instance decidableCareful (system : System) : (call : Call) → Decidable (Careful system call)
  | .connect _ _ _ _ => inferInstanceAs (Decidable True)
  | .respond _ _ _ _ _ => inferInstanceAs (Decidable (_ → _))
  | .removeConnection _ _ => inferInstanceAs (Decidable (_ ∨ _))

def listeningSystem : System where
  streams := fun process => some ⟨some (process * 2 ^ 16 + 1), false, [], false, []⟩
  threads := fun tid => tid % 2 ^ 16 == 1
  headers := fun _ => none

theorem unconnected_listeningSystem : Unconnected listeningSystem := by
  refine ⟨rfl, ?_⟩
  intro process stream hstream
  cases hstream
  exact ⟨rfl, rfl⟩

def enoughMemory : RespondMemory := ⟨true, true, true, true⟩

/-- Process 2 connects to process 3, which agrees, twice, and then loses one entry. -/
def connectTwice : List Call :=
  [.connect 2 0x30001 true true, .respond 3 0x30001 0x20001 .yes enoughMemory,
    .respond 3 0x30001 0x20001 .yes enoughMemory, .removeConnection 3 0x20001]

theorem respondsWhole_and_run_symmetric_connectTwice :
    RespondsWhole listeningSystem 3 0x30001 0x20001 enoughMemory ∧
    ∃ errors last, run step listeningSystem connectTwice = some (errors, last) ∧
      pidsOf last 3 = some [0x20001] ∧ Symmetric last ∧ Unlocked last := by
  obtain ⟨hwhole, hruns⟩ := respondsWhole_and_run_symmetric listeningSystem
  have hunlocked : Unlocked listeningSystem :=
    fun process stream hstream => (unconnected_listeningSystem.2 process stream hstream).1
  refine ⟨(hwhole hunlocked 3 0x30001 0x20001 enoughMemory rfl (by decide)).mpr (by decide), ?_⟩
  have hrun : ((run step listeningSystem connectTwice).any fun r =>
      decide (pidsOf r.2 3 = some [0x20001])) = true := by
    decide +kernel
  obtain ⟨⟨errors, last⟩, hlast, hstate⟩ := (any_eq_true _ _).mp hrun
  obtain ⟨errors', last', hlast', hsymmetric, hfree⟩ :=
    hruns unconnected_listeningSystem connectTwice (by decide +kernel)
  obtain ⟨rfl, rfl⟩ := Prod.mk.inj (some.inj (hlast.symm.trans hlast'))
  exact ⟨errors, last, hlast, of_decide_eq_true hstate, hsymmetric, hfree⟩

def noQueueNode : RespondMemory := ⟨true, true, true, false⟩

theorem noQueueNode_not_respondsWhole :
    ¬ ∀ system process sourceId initiatorPid memory, Unlocked system →
      (system.streams process).isSome → processOf sourceId = process →
      RespondsWhole system process sourceId initiatorPid memory := by
  intro hclaim
  have hunlocked : Unlocked listeningSystem :=
    fun process stream hstream => (unconnected_listeningSystem.2 process stream hstream).1
  have hwhole := hclaim listeningSystem 3 0x30001 0x20001 noQueueNode hunlocked rfl (by decide)
  have hrun : ((respond listeningSystem 3 0x30001 0x20001 .yes noQueueNode).any fun r =>
      decide (r.1 ≠ .success ∧ pidsOf r.2 3 ≠ pidsOf listeningSystem 3)) = true := by
    decide +kernel
  obtain ⟨⟨error, next⟩, heq, hstate⟩ := (any_eq_true _ _).mp hrun
  obtain ⟨herror, hchanged⟩ := of_decide_eq_true hstate
  obtain ⟨error', next', heq', houtcome⟩ := hwhole
  obtain ⟨rfl, rfl⟩ := Prod.mk.inj (some.inj (heq.symm.trans heq'))
  rcases houtcome with ⟨hsuccess, -⟩ | ⟨-, hsame⟩
  · exact herror hsuccess
  · exact hchanged (congrFun hsame 3)

end

end Zambesii.ZAsyncConnections
