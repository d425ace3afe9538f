import Mathlib.Algebra.Order.Ring.Int
import Mathlib.Data.List.Count
import Zambesii.KernelTypes
import Zambesii.Runs

/-!
`startDeviceReq` of the ZUM server: a usage indication, then a channel event for each
internal bind channel of the device, then one for each parent bind channel. The
continuations count the completions in the context that they share.
-/

namespace Zambesii.ZumStart

open KernelTypes List Runs

inductive BindChannelType
  | none
  | internal
  | child
deriving DecidableEq

inductive ChannelType
  | d2d
  | d2s
deriving DecidableEq

structure Channel where
  bindChannelType : BindChannelType
  type : ChannelType
deriving DecidableEq

inductive Phase
  | internal
  | parent
deriving DecidableEq

abbrev Event := Phase × Nat

def udiOk : Nat := 0

structure ChannelEventTracker where
  nChannels : Int
  nSuccesses : Int
  nFailures : Int
deriving DecidableEq

/-- The server's side of one request: its context, whether the usage indication is out, the
channel events that are, the completions so far with their status, and what was sent to the
one who asked. -/
structure Server where
  ibind : ChannelEventTracker
  pbind : ChannelEventTracker
  requested : Bool
  usage : Bool
  pending : List Event
  completions : List (Event × Nat)
  responses : List Kerror
deriving DecidableEq

def initialServer : Server where
  ibind := ⟨-1, 0, 0⟩
  pbind := ⟨-1, 0, 0⟩
  requested := false
  usage := false
  pending := []
  completions := []
  responses := []

/-- `AsyncResponse` with an error code, when it goes out of scope. -/
def Server.respond (server : Server) (err : Kerror) : Server :=
  { server with responses := server.responses ++ [err] }

def sendChannelEvents (phase : Phase) (test : Channel → Bool) :
    List Channel → Nat → Int × List Event → Int × List Event
  | [], _, sent => sent
  | currChan :: rest, i, (nChannels, events) =>
    if test currChan then
      sendChannelEvents phase test rest (i + 1) (nChannels + 1, events ++ [(phase, i)])
    else sendChannelEvents phase test rest (i + 1) (nChannels, events)

def isInternalBind (currChan : Channel) : Bool :=
  currChan.bindChannelType = .internal

def isParentBind (currChan : Channel) : Bool :=
  currChan.bindChannelType = .child ∧ currChan.type = .d2d

def ChannelEventTracker.tally (tracker : ChannelEventTracker) (status : Nat) :
    ChannelEventTracker :=
  if status = udiOk then { tracker with nSuccesses := tracker.nSuccesses + 1 }
  else { tracker with nFailures := tracker.nFailures + 1 }

/-- `startDeviceReq3`, with the status in the message. -/
def startDeviceReq3 (server : Server) (status : Nat) : Server :=
  if 0 < server.pbind.nChannels then
    let server := { server with pbind := server.pbind.tally status }
    if server.pbind.nSuccesses + server.pbind.nFailures < server.pbind.nChannels then server
    else server.respond .success
  else server.respond .success

def bindParents (channels : List Channel) (server : Server) (status : Nat) : Server :=
  if server.ibind.nSuccesses < server.ibind.nChannels then server.respond .initializationFailure
  else
    let (nChannels, events) := sendChannelEvents .parent isParentBind channels 0 (0, [])
    let server := { server with
      pbind := ⟨nChannels, 0, 0⟩
      pending := server.pending ++ events }
    if server.pbind.nChannels = 0 then startDeviceReq3 server status else server

def startDeviceReq2 (channels : List Channel) (server : Server) (status : Nat) : Server :=
  if 0 < server.ibind.nChannels then
    let server := { server with ibind := server.ibind.tally status }
    if server.ibind.nSuccesses + server.ibind.nFailures < server.ibind.nChannels then server
    else bindParents channels server status
  else bindParents channels server status

/-- `startDeviceReq1`; `status` is what stands in the usage message where a channel event
has its status. -/
def startDeviceReq1 (channels : List Channel) (server : Server) (status : Nat) : Server :=
  let (nChannels, events) := sendChannelEvents .internal isInternalBind channels 0 (0, [])
  let server := { server with
    ibind := ⟨nChannels, 0, 0⟩
    pending := server.pending ++ events }
  if server.ibind.nChannels = 0 then startDeviceReq2 channels server status else server

/-- `startDeviceReq`. Without a context there is nothing that answers the request. -/
def startDeviceReq (server : Server) (ctxtAllocated : Bool) (getDevice connect : Kerror) : Server :=
  let server := { server with requested := true }
  if ctxtAllocated = false then server
  else
  let server := { server with
    ibind := { server.ibind with nChannels := -1 }
    pbind := { server.pbind with nChannels := -1 } }
  if getDevice ≠ .success then server.respond getDevice
  else if connect ≠ .success then server.respond connect
  else { server with usage := true }

inductive Call
  | startDeviceReq (ctxtAllocated : Bool) (getDevice connect : Kerror)
  | usageRes (status : Nat)
  | channelEventComplete (event : Event) (status : Nat)
deriving DecidableEq

def complete (channels : List Channel) (server : Server) (event : Event) (status : Nat) : Server :=
  let server := { server with
    pending := server.pending.erase event
    completions := server.completions ++ [(event, status)] }
  match event.1 with
  | .internal => startDeviceReq2 channels server status
  | .parent => startDeviceReq3 server status

def step (channels : List Channel) (server : Server) : Call → Option (Unit × Server)
  | .startDeviceReq ctxtAllocated getDevice connect =>
    some ((), startDeviceReq server ctxtAllocated getDevice connect)
  | .usageRes status => some ((), startDeviceReq1 channels { server with usage := false } status)
  | .channelEventComplete event status => some ((), complete channels server event status)

def Legal (server : Server) : Call → Prop
  | .startDeviceReq _ _ _ => server.requested = false
  | .usageRes _ => server.usage = true
  | .channelEventComplete event _ => event ∈ server.pending

/-- What the one who asked relies on. The trackers are set when their phase starts. -/
structure Proper (channels : List Channel) (server : Server) : Prop where
  once : server.responses.length ≤ 1
  not_early : server.responses ≠ [] → server.usage = false ∧ server.pending = []
  answered : server.requested = true → server.usage = false → server.pending = [] →
    server.responses.length = 1
  ordered : 0 ≤ server.pbind.nChannels → (∀ event ∈ server.pending, event.1 = .parent) ∧
    (server.completions.filter fun c => c.1.1 = .internal).length =
      channels.countP isInternalBind ∧
    ∀ c ∈ server.completions, c.1.1 = .internal → c.2 = udiOk
  result : 0 ≤ server.ibind.nChannels → ∀ err ∈ server.responses,
    (err = .success ↔ ∀ c ∈ server.completions, c.2 = udiOk)

/-- The context is allocated, and the last completion of a parent bind, when it comes, is no failure,
nor was one before. -/
def Answerable (server : Server) : Call → Prop
  | .startDeviceReq ctxtAllocated _ _ => ctxtAllocated = true
  | .channelEventComplete event status =>
    event.1 = .parent → server.pending = [event] →
      status = udiOk ∧ server.pbind.nFailures = 0
  | .usageRes _ => True

theorem sendChannelEvents_spec (phase : Phase) (test : Channel → Bool) (channels : List Channel)
    (i : Nat) (nChannels : Int) (events : List Event) :
    ∃ sent, sendChannelEvents phase test channels i (nChannels, events) =
        (nChannels + channels.countP test, events ++ sent) ∧
      sent.length = channels.countP test ∧ ∀ event ∈ sent, event.1 = phase := by
  induction channels generalizing i nChannels events with
  | nil => exact ⟨[], by simp [sendChannelEvents], rfl, by simp⟩
  | cons currChan rest ih =>
    cases htest : test currChan with
    | true =>
      obtain ⟨sent, heq, hlength, hphase⟩ :=
        ih (i + 1) (nChannels + 1) (events ++ [(phase, i)])
      refine ⟨(phase, i) :: sent, ?_, ?_, ?_⟩
      · rw [sendChannelEvents, if_pos htest, heq, countP_cons_of_pos htest,
          append_assoc, singleton_append]
        push_cast
        rw [add_right_comm, add_assoc]
      · rw [length_cons, countP_cons_of_pos htest, hlength]
      · intro event hevent
        rcases mem_cons.mp hevent with rfl | hevent
        · rfl
        · exact hphase event hevent
    | false =>
      have htest' : ¬ test currChan = true := by simp [htest]
      obtain ⟨sent, heq, hlength, hphase⟩ := ih (i + 1) nChannels events
      refine ⟨sent, ?_, ?_, hphase⟩
      · rw [sendChannelEvents, if_neg htest', heq, countP_cons_of_neg htest']
      · rw [countP_cons_of_neg htest', hlength]

@[simp] theorem nChannels_tally (tracker : ChannelEventTracker) (status : Nat) :
    (tracker.tally status).nChannels = tracker.nChannels := by
  unfold ChannelEventTracker.tally
  split <;> rfl

theorem nSuccesses_tally (tracker : ChannelEventTracker) (status : Nat) :
    (tracker.tally status).nSuccesses = tracker.nSuccesses + if status = udiOk then 1 else 0 := by
  unfold ChannelEventTracker.tally
  split <;> simp

theorem nFailures_tally (tracker : ChannelEventTracker) (status : Nat) :
    (tracker.tally status).nFailures = tracker.nFailures + if status = udiOk then 0 else 1 := by
  unfold ChannelEventTracker.tally
  split <;> simp

theorem nFailures_tally_eq_zero_iff {tracker : ChannelEventTracker}
    {completions : List (Event × Nat)} (hnonneg : 0 ≤ tracker.nFailures)
    (h : tracker.nFailures = 0 ↔ ∀ c ∈ completions, c.2 = udiOk) (event : Event) (status : Nat) :
    (tracker.tally status).nFailures = 0 ↔ ∀ c ∈ completions ++ [(event, status)], c.2 = udiOk := by
  rw [nFailures_tally, forall_mem_append, forall_mem_singleton, ← h]
  split
  · rename_i hok
    simp [hok]
  · rename_i hfailed
    refine iff_of_false (by omega) ?_
    rintro ⟨-, hok⟩
    exact hfailed hok

theorem length_erase_succ {event : Event} {pending : List Event} (h : event ∈ pending) :
    (pending.erase event).length + 1 = pending.length := by
  have hpos := length_pos_of_mem h
  rw [length_erase_of_mem h]
  omega

structure Working (server : Server) : Prop where
  requested : server.requested = true
  usage : server.usage = false
  responses : server.responses = []

structure Internals (channels : List Channel) (server : Server) : Prop extends Working server where
  pbind : server.pbind.nChannels = -1
  pending : ∀ event ∈ server.pending, event.1 = .internal
  completions : ∀ c ∈ server.completions, c.1.1 = .internal
  nChannels : server.ibind.nChannels = channels.countP isInternalBind
  nFailures_nonneg : 0 ≤ server.ibind.nFailures
  nFailures : server.ibind.nFailures = 0 ↔ ∀ c ∈ server.completions, c.2 = udiOk
  length : (server.completions.length : Int) = server.ibind.nSuccesses + server.ibind.nFailures
  total : server.ibind.nSuccesses + server.ibind.nFailures + server.pending.length =
    server.ibind.nChannels

structure Bound (channels : List Channel) (completions : List (Event × Nat)) : Prop where
  all : (completions.filter fun c => c.1.1 = .internal).length = channels.countP isInternalBind
  ok : ∀ c ∈ completions, c.1.1 = .internal → c.2 = udiOk

structure Parents (channels : List Channel) (server : Server) : Prop extends Working server where
  ibind : 0 ≤ server.ibind.nChannels
  bound : Bound channels server.completions
  pending : ∀ event ∈ server.pending, event.1 = .parent
  nSuccesses_nonneg : 0 ≤ server.pbind.nSuccesses
  nFailures_nonneg : 0 ≤ server.pbind.nFailures
  nFailures : server.pbind.nFailures = 0 ↔ ∀ c ∈ server.completions, c.2 = udiOk
  total : server.pbind.nSuccesses + server.pbind.nFailures + server.pending.length =
    server.pbind.nChannels

structure Done (channels : List Channel) (server : Server) (err : Kerror) : Prop where
  requested : server.requested = true
  usage : server.usage = false
  pending : server.pending = []
  responses : server.responses = [err]
  bound : 0 ≤ server.pbind.nChannels → Bound channels server.completions
  result : 0 ≤ server.ibind.nChannels →
    (err = .success ↔ ∀ c ∈ server.completions, c.2 = udiOk)

inductive Inv (channels : List Channel) : Server → Prop
  | waiting : Inv channels initialServer
  | asked {server} (hrequested : server.requested = true) (husage : server.usage = true)
      (hpending : server.pending = []) (hcompletions : server.completions = [])
      (hresponses : server.responses = []) (hibind : server.ibind.nChannels = -1)
      (hpbind : server.pbind.nChannels = -1) : Inv channels server
  | internals {server} (h : Internals channels server) (hpending : server.pending ≠ []) :
      Inv channels server
  | parents {server} (h : Parents channels server) (hpending : server.pending ≠ []) :
      Inv channels server
  | done {server} {err : Kerror} (h : Done channels server err) : Inv channels server

section

variable {channels : List Channel} {server : Server}

theorem Done.proper {err : Kerror} (h : Done channels server err) : Proper channels server := by
  refine ⟨by simp [h.responses], fun _ => ⟨h.usage, h.pending⟩, fun _ _ _ => by simp [h.responses],
    ?_, ?_⟩
  · intro hpbind
    refine ⟨by simp [h.pending], (h.bound hpbind).all, (h.bound hpbind).ok⟩
  · intro hibind other hother
    rw [h.responses, mem_singleton] at hother
    rw [hother]
    exact h.result hibind

theorem Inv.proper (h : Inv channels server) : Proper channels server := by
  cases h with
  | waiting =>
    refine ⟨by simp [initialServer], by simp [initialServer], by simp [initialServer], ?_,
      by simp [initialServer]⟩
    intro hpbind
    simp [initialServer] at hpbind
  | asked hrequested husage hpending hcompletions hresponses hibind hpbind =>
    refine ⟨by simp [hresponses], by simp [hresponses], by simp [husage], ?_, by simp [hresponses]⟩
    omega
  | internals h hpending =>
    refine ⟨by simp [h.responses], by simp [h.responses], fun _ _ hnil => absurd hnil hpending, ?_,
      by simp [h.responses]⟩
    have hpbind := h.pbind
    omega
  | parents h hpending =>
    exact ⟨by simp [h.responses], by simp [h.responses], fun _ _ hnil => absurd hnil hpending,
      fun _ => ⟨h.pending, h.bound.all, h.bound.ok⟩, by simp [h.responses]⟩
  | done h => exact h.proper

theorem Internals.bindParents (h : Internals channels server) (hpending : server.pending = [])
    (status : Nat) : Inv channels (bindParents channels server status) := by
  have htotal := h.total
  rw [hpending] at htotal
  simp only [length_nil, Nat.cast_zero, add_zero] at htotal
  have hnonneg := h.nFailures_nonneg
  unfold ZumStart.bindParents
  split
  · rename_i hfailed
    have hdone : Done channels (server.respond .initializationFailure) .initializationFailure := by
      refine ⟨h.requested, h.usage, hpending, by simp [Server.respond, h.responses], ?_, ?_⟩
      · intro hpbind
        have hnone := h.pbind
        simp only [Server.respond] at hpbind
        omega
      · intro _
        refine iff_of_false (by simp) ?_
        intro hok
        have hzero := h.nFailures.mpr hok
        omega
    exact .done hdone
  rename_i hbound
  have hok := h.nFailures.mp (by omega)
  have hcount := h.nChannels
  have hall : Bound channels server.completions := by
    refine ⟨?_, fun c hc _ => hok c hc⟩
    rw [filter_eq_self.mpr (by simpa using h.completions)]
    have hlength := h.length
    omega
  obtain ⟨sent, hsent, hlength, hphase⟩ :=
    sendChannelEvents_spec .parent isParentBind channels 0 0 []
  rw [hsent]
  simp only [zero_add, nil_append, hpending]
  split
  · rename_i hnone
    have hnil : sent = [] := by
      rw [← length_eq_zero_iff]
      omega
    subst hnil
    have hpos : ¬ (0 : Int) < (channels.countP isParentBind : Nat) := by omega
    rw [startDeviceReq3, if_neg hpos]
    refine .done ⟨h.requested, h.usage, rfl, by simp [Server.respond, h.responses], fun _ => hall,
      fun _ => iff_of_true rfl hok⟩
  rename_i hsome
  refine .parents ⟨⟨h.requested, h.usage, h.responses⟩, ?_, hall, hphase, le_rfl, le_rfl,
    iff_of_true rfl hok, ?_⟩ ?_
  · dsimp only
    omega
  · dsimp only
    omega
  · intro hnil
    rw [show sent = [] from hnil] at hlength
    simp only [length_nil] at hlength
    omega

variable (h : Inv channels server)

include h

theorem Inv.usageRes (husage : server.usage = true) (status : Nat) :
    Inv channels (startDeviceReq1 channels { server with usage := false } status) := by
  have hasked : server.requested = true ∧ server.pending = [] ∧ server.completions = [] ∧
      server.responses = [] ∧ server.pbind.nChannels = -1 := by
    cases h with
    | waiting => simp [initialServer] at husage
    | asked hrequested _ hpending hcompletions hresponses _ hpbind =>
      exact ⟨hrequested, hpending, hcompletions, hresponses, hpbind⟩
    | internals h _ => simp [h.usage] at husage
    | parents h _ => simp [h.usage] at husage
    | done h => simp [h.usage] at husage
  obtain ⟨hrequested, hpending, hcompletions, hresponses, hpbind⟩ := hasked
  obtain ⟨sent, hsent, hlength, hphase⟩ :=
    sendChannelEvents_spec .internal isInternalBind channels 0 0 []
  unfold startDeviceReq1
  rw [hsent]
  simp only [zero_add, nil_append, hpending]
  have hinternals : Internals channels { server with
      usage := false
      ibind := ⟨channels.countP isInternalBind, 0, 0⟩
      pending := sent } := by
    refine ⟨⟨hrequested, rfl, hresponses⟩, hpbind, hphase, by simp [hcompletions], rfl, le_rfl,
      by simp [hcompletions], by simp [hcompletions], ?_⟩
    simp [hlength]
  split
  · rename_i hnone
    have hnil : sent = [] := by
      rw [← length_eq_zero_iff]
      omega
    have hpos : ¬ (0 : Int) < (channels.countP isInternalBind : Nat) := by omega
    rw [startDeviceReq2, if_neg hpos]
    exact hinternals.bindParents hnil status
  · rename_i hsome
    refine .internals hinternals ?_
    intro hnil
    rw [show sent = [] from hnil, length_nil] at hlength
    omega

theorem Inv.eq_initialServer (hrequested : server.requested = false) : server = initialServer := by
  cases h with
  | waiting => rfl
  | asked hrequested' => simp [hrequested'] at hrequested
  | internals h _ => simp [h.requested] at hrequested
  | parents h _ => simp [h.requested] at hrequested
  | done h => simp [h.requested] at hrequested

theorem Inv.startDeviceReq (hrequested : server.requested = false) (getDevice connect : Kerror) :
    Inv channels (startDeviceReq server true getDevice connect) := by
  obtain rfl := h.eq_initialServer hrequested
  have hrefused : ∀ err, Done channels
      (Server.respond { initialServer with requested := true } err) err := by
    intro err
    refine ⟨rfl, rfl, rfl, rfl, ?_, ?_⟩
    · intro hpbind
      simp [Server.respond, initialServer] at hpbind
    · intro hibind
      simp [Server.respond, initialServer] at hibind
  unfold ZumStart.startDeviceReq
  dsimp only
  rw [if_neg (by decide)]
  split
  · exact .done (hrefused getDevice)
  · split
    · exact .done (hrefused connect)
    · exact .asked rfl rfl rfl rfl rfl rfl rfl

theorem Inv.completeInternal {event : Event}
    (hevent : event ∈ server.pending) (hphase : event.1 = .internal) (status : Nat) :
    Inv channels (complete channels server event status) := by
  have hinternals : Internals channels server := by
    cases h with
    | waiting => simp [initialServer] at hevent
    | asked _ _ hpending => simp [hpending] at hevent
    | internals h _ => exact h
    | parents h _ =>
      have hparent := h.pending event hevent
      simp [hphase] at hparent
    | done h => simp [h.pending] at hevent
  have hlength := length_erase_succ hevent
  have htotal := hinternals.total
  have hcompletions := hinternals.length
  have hnonneg := hinternals.nFailures_nonneg
  have hnext : Internals channels { server with
      pending := server.pending.erase event
      completions := server.completions ++ [(event, status)]
      ibind := server.ibind.tally status } := by
    refine ⟨⟨hinternals.requested, hinternals.usage, hinternals.responses⟩, hinternals.pbind, ?_, ?_,
      ?_, ?_, ?_, ?_, ?_⟩
    · intro other hother
      exact hinternals.pending other (mem_of_mem_erase hother)
    · intro c hc
      rcases mem_append.mp hc with hc | hc
      · exact hinternals.completions c hc
      · rw [mem_singleton.mp hc]
        exact hphase
    · simpa using hinternals.nChannels
    · rw [nFailures_tally]
      split <;> omega
    · exact nFailures_tally_eq_zero_iff hnonneg hinternals.nFailures event status
    · rw [nFailures_tally, nSuccesses_tally, length_append, length_singleton]
      split <;> omega
    · dsimp only
      rw [nFailures_tally, nSuccesses_tally, nChannels_tally]
      split <;> omega
  have hpos : 0 < server.ibind.nChannels := by omega
  unfold ZumStart.complete
  simp only [hphase]
  rw [startDeviceReq2, if_pos hpos]
  dsimp only
  split
  · rename_i hmore
    refine .internals hnext ?_
    intro hnil
    have hall := hnext.total
    rw [hnil] at hall
    simp only [nChannels_tally, length_nil, Nat.cast_zero] at hall hmore
    omega
  · rename_i hlast
    refine hnext.bindParents ?_ status
    rw [← length_eq_zero_iff]
    have hall := hnext.total
    simp only [nChannels_tally] at hall hlast ⊢
    omega

theorem Inv.completeParent {event : Event}
    (hevent : event ∈ server.pending) (hphase : event.1 = .parent) (status : Nat) :
    (Proper channels (complete channels server event status) ↔
        Answerable server (.channelEventComplete event status)) ∧
      (Answerable server (.channelEventComplete event status) →
        Inv channels (complete channels server event status)) := by
  have hparents : Parents channels server := by
    cases h with
    | waiting => simp [initialServer] at hevent
    | asked _ _ hpending => simp [hpending] at hevent
    | internals h _ =>
      have hinternal := h.pending event hevent
      simp [hphase] at hinternal
    | parents h _ => exact h
    | done h => simp [h.pending] at hevent
  have hlength := length_erase_succ hevent
  have htotal := hparents.total
  have hsuccesses := hparents.nSuccesses_nonneg
  have hfailures := hparents.nFailures_nonneg
  have hok := nFailures_tally_eq_zero_iff hfailures hparents.nFailures event status
  have hbound : Bound channels (server.completions ++ [(event, status)]) := by
    constructor
    · rw [filter_append, length_append, hparents.bound.all]
      simp [hphase]
    · intro c hc hinternal
      rcases mem_append.mp hc with hc | hc
      · exact hparents.bound.ok c hc hinternal
      · rw [mem_singleton.mp hc] at hinternal
        simp [hphase] at hinternal
  have hnext : Parents channels { server with
      pending := server.pending.erase event
      completions := server.completions ++ [(event, status)]
      pbind := server.pbind.tally status } := by
    refine ⟨⟨hparents.requested, hparents.usage, hparents.responses⟩, hparents.ibind, hbound, ?_, ?_,
      ?_, hok, ?_⟩
    · intro other hother
      exact hparents.pending other (mem_of_mem_erase hother)
    · rw [nSuccesses_tally]
      split <;> omega
    · rw [nFailures_tally]
      split <;> omega
    · dsimp only
      rw [nFailures_tally, nSuccesses_tally, nChannels_tally]
      split <;> omega
  have hpos : 0 < server.pbind.nChannels := by omega
  have hall := hnext.total
  unfold ZumStart.complete
  simp only [hphase]
  rw [startDeviceReq3, if_pos hpos]
  simp only [nChannels_tally] at hall ⊢
  split
  · rename_i hmore
    have hinv : Inv channels _ := .parents hnext (by
      intro hnil
      rw [show server.pending.erase event = [] from hnil, length_nil] at hall
      omega)
    have hgood : Answerable server (.channelEventComplete event status) := by
      intro _ hlast
      rw [hlast, erase_cons_head, length_nil] at hall
      omega
    exact ⟨iff_of_true hinv.proper hgood, fun _ => hinv⟩
  rename_i hlast
  have hnil : server.pending.erase event = [] := by
    rw [← length_eq_zero_iff]
    omega
  have hsingle : server.pending = [event] := by
    rw [hnil, length_nil] at hlength
    obtain ⟨other, hother⟩ := length_eq_one_iff.mp hlength.symm
    rw [hother, mem_singleton] at hevent
    rw [hother, hevent]
  have hgood : Answerable server (.channelEventComplete event status) ↔
      ∀ c ∈ server.completions ++ [(event, status)], c.2 = udiOk := by
    rw [← hok, nFailures_tally]
    constructor
    · intro hgood
      obtain ⟨hstatus, hzero⟩ := hgood hphase hsingle
      omega
    · intro hzero _ _
      split at hzero
      · rename_i hstatus
        exact ⟨hstatus, by omega⟩
      · omega
  have hdone : (∀ c ∈ server.completions ++ [(event, status)], c.2 = udiOk) →
      Done channels (Server.respond { server with
        pending := server.pending.erase event
        completions := server.completions ++ [(event, status)]
        pbind := server.pbind.tally status } .success) .success := by
    intro hallOk
    exact ⟨hparents.requested, hparents.usage, hnil, by simp [Server.respond, hparents.responses],
      fun _ => hbound, fun _ => iff_of_true rfl hallOk⟩
  rw [hgood]
  refine ⟨⟨?_, fun hallOk => (hdone hallOk).proper⟩, fun hallOk => .done (hdone hallOk)⟩
  intro hproper
  exact (hproper.result hparents.ibind .success
    (by simp [Server.respond, hparents.responses])).mp rfl

omit h

theorem step_proper_iff (server : Server) (call : Call) (h : Inv channels server)
    (hlegal : Legal server call) : ∃ answer next, step channels server call = some (answer, next) ∧
      (Proper channels next ↔ Answerable server call) ∧
      (Answerable server call → Inv channels next) := by
  cases call with
  | startDeviceReq ctxtAllocated getDevice connect =>
    cases ctxtAllocated with
    | true =>
      have hinv := h.startDeviceReq hlegal getDevice connect
      exact ⟨(), _, rfl, iff_of_true hinv.proper rfl, fun _ => hinv⟩
    | false =>
      obtain rfl := h.eq_initialServer hlegal
      refine ⟨(), _, rfl, iff_of_false ?_ Bool.false_ne_true, fun hgood => nomatch hgood⟩
      intro hproper
      exact absurd (hproper.answered rfl rfl rfl) Nat.zero_ne_one
  | usageRes status =>
    have hinv := h.usageRes hlegal status
    exact ⟨(), _, rfl, iff_of_true hinv.proper trivial, fun _ => hinv⟩
  | channelEventComplete event status =>
    cases hphase : event.1 with
    | internal =>
      have hinv := h.completeInternal hlegal hphase status
      have hgood : Answerable server (.channelEventComplete event status) := by
        intro hparent
        simp [hphase] at hparent
      exact ⟨(), _, rfl, iff_of_true hinv.proper hgood, fun _ => hinv⟩
    | parent => exact ⟨(), _, rfl, h.completeParent hlegal hphase status⟩

end

def twoParents : List Channel :=
  [⟨.internal, .d2d⟩, ⟨.child, .d2d⟩, ⟨.child, .d2s⟩, ⟨.child, .d2d⟩]

def startTwoParents (status : Nat) : List Call :=
  [.startDeviceReq true .success .success, .usageRes 0, .channelEventComplete (.internal, 0) udiOk,
    .channelEventComplete (.parent, 3) udiOk, .channelEventComplete (.parent, 1) status]

theorem startTwoParents_legal (status : Nat) :
    Guarded (step twoParents) Legal initialServer (startTwoParents status) := by
  refine (guarded_cons rfl).mpr ⟨rfl, ?_⟩
  refine (guarded_cons rfl).mpr ⟨rfl, ?_⟩
  refine (guarded_cons rfl).mpr ⟨mem_singleton.mpr rfl, ?_⟩
  refine (guarded_cons rfl).mpr ⟨mem_cons_of_mem _ (mem_singleton.mpr rfl), ?_⟩
  exact (guarded_cons rfl).mpr ⟨mem_singleton.mpr rfl, trivial⟩

end Zambesii.ZumStart
