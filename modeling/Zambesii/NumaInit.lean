import Mathlib.Data.List.Nodup
import Zambesii.KernelTypes

/-!
`CpuTrib::numaInit`: the CPUs of the NUMA map and then those of the SMP map that are in no bank
are given a stream and powered on in one pass, and waited for in a second one.
-/

namespace Zambesii.NumaInit

open Function List
open KernelTypes

def numaBankIdInvalid : Int := -1

def cpuIdInvalid : Nat := wordModulus - 1

def shbankId : Int := 31

structure Config where
  bspCpuId : Nat
  maxNcpus : Nat
deriving DecidableEq

structure Stream where
  bankId : Int
  cpuId : Nat
  cpuAcpiId : Nat
deriving DecidableEq

/-- An entry of the NUMA map, and what its bank, its bitmaps and its stream meet in
`spawnStream`. -/
structure NumaEntry where
  bankId : Int
  cpuId : Nat
  cpuAcpiId : Nat
  spawn : Kerror
deriving DecidableEq

structure SmpEntry where
  cpuId : Nat
  cpuAcpiId : Nat
  spawn : Kerror
deriving DecidableEq

structure Request where
  stream : Stream
  spawn : Kerror
deriving DecidableEq

/-- `cpuStreams`, and the streams that were spawned, powered on and waited for so far. -/
structure State where
  streams : Nat → Option Stream
  spawned : List Stream
  poweredOn : List Stream
  waited : List Stream

def initialState (config : Config) : State where
  streams := fun cid => if cid = config.bspCpuId then some ⟨shbankId, cid, cid⟩ else none
  spawned := []
  poweredOn := []
  waited := []

def spawnStream (config : Config) (request : Request) (state : State) : Kerror × State :=
  if request.stream.bankId = numaBankIdInvalid ∨ request.stream.cpuId = cpuIdInvalid then
    (.invalidArgVal, state)
  else if config.maxNcpus ≤ request.stream.cpuId then (.limitOverflowed, state)
  else if request.spawn ≠ .success then (request.spawn, state)
  else (.success, { state with
    streams := update state.streams request.stream.cpuId (some request.stream)
    spawned := state.spawned ++ [request.stream] })

def bootCpuNotification (config : Config) (request : Request) (state : State) : Kerror × State :=
  if config.maxNcpus ≤ request.stream.cpuId then (.limitOverflowed, state)
  else spawnStream config request state

/-- `bootPowerOn` of the stream that `getStream` returns; a null stream is a fault. -/
def bootPowerOn (state : State) (cid : Nat) : Option State :=
  match state.streams cid with
  | none => none
  | some stream => some { state with poweredOn := state.poweredOn ++ [stream] }

/-- `bootWaitForCpuToPowerOn` of the stream that `getStream` returns. -/
def bootWaitForCpuToPowerOn (state : State) (cid : Nat) : Option State :=
  match state.streams cid with
  | none => none
  | some stream => some { state with waited := state.waited ++ [stream] }

def bootParse (config : Config) : List Request → State → Option State
  | [], state => some state
  | request :: requests, state =>
    if request.stream.cpuId = config.bspCpuId then bootParse config requests state
    else
      match bootCpuNotification config request state with
      | (err, state) =>
        if err ≠ .success then bootParse config requests state
        else
          match bootPowerOn state request.stream.cpuId with
          | none => none
          | some state => bootParse config requests state

def bootConfirm (config : Config) : List Nat → State → Option State
  | [], state => some state
  | cid :: cids, state =>
    if cid = config.bspCpuId then bootConfirm config cids state
    else
      match bootWaitForCpuToPowerOn state cid with
      | none => none
      | some state => bootConfirm config cids state

def NumaEntry.request (entry : NumaEntry) : Request :=
  ⟨⟨entry.bankId, entry.cpuId, entry.cpuAcpiId⟩, entry.spawn⟩

def SmpEntry.request (entry : SmpEntry) : Request :=
  ⟨⟨shbankId, entry.cpuId, entry.cpuAcpiId⟩, entry.spawn⟩

def bootParseNumaMap (config : Config) (numaMap : List NumaEntry) : State → Option State :=
  bootParse config (numaMap.map NumaEntry.request)

def bootConfirmNumaCpusBooted (config : Config) (numaMap : List NumaEntry) : State → Option State :=
  bootConfirm config (numaMap.map NumaEntry.cpuId)

def bootParseSmpMap (config : Config) (smpMap : List SmpEntry) : State → Option State :=
  bootParse config (smpMap.map SmpEntry.request)

def bootConfirmSmpCpusBooted (config : Config) (smpMap : List SmpEntry) : State → Option State :=
  bootConfirm config (smpMap.map SmpEntry.cpuId)

def found (numaMap : List NumaEntry) (cid : Nat) : Bool :=
  numaMap.any fun entry => entry.cpuId = cid

/-- `bootParseNumaMap`, of both maps: the CPU id stands in the place of the ACPI id, and the CPU
is powered on even when its stream was not spawned. -/
def bootParseNumaMapHoles (config : Config) (numaMap : List NumaEntry) :
    List SmpEntry → State → Option State
  | [], state => some state
  | entry :: entries, state =>
    if entry.cpuId = config.bspCpuId then bootParseNumaMapHoles config numaMap entries state
    else if found numaMap entry.cpuId then bootParseNumaMapHoles config numaMap entries state
    else
      match bootCpuNotification config ⟨⟨shbankId, entry.cpuId, entry.cpuId⟩, entry.spawn⟩
          state with
      | (_, state) =>
        match bootPowerOn state entry.cpuId with
        | none => none
        | some state => bootParseNumaMapHoles config numaMap entries state

/-- `bootConfirmNumaCpusBooted`, of both maps. -/
def bootConfirmNumaMapHoles (config : Config) (numaMap : List NumaEntry)
    (smpMap : List SmpEntry) : State → Option State :=
  bootConfirm config ((smpMap.map SmpEntry.cpuId).filter fun cid => found numaMap cid = false)

def initNumaMap (config : Config) (numaMap : List NumaEntry) (state : State) : Option State :=
  if numaMap = [] then some state
  else
    match bootParseNumaMap config numaMap state with
    | none => none
    | some state => bootConfirmNumaCpusBooted config numaMap state

def initSmpMap (config : Config) (numaMap : List NumaEntry) (smpMap : List SmpEntry)
    (state : State) : Option State :=
  if smpMap = [] then some state
  else if numaMap ≠ [] then
    match bootParseNumaMapHoles config numaMap smpMap state with
    | none => none
    | some state => bootConfirmNumaMapHoles config numaMap smpMap state
  else
    match bootParseSmpMap config smpMap state with
    | none => none
    | some state => bootConfirmSmpCpusBooted config smpMap state

/-- `CpuTrib::numaInit`. A map that is null has no entries; `none` is a fault. -/
def numaInit (config : Config) (usingChipsetSmpMode : Bool) (numaMap : List NumaEntry)
    (smpMap : List SmpEntry) : Option (Kerror × State) :=
  if usingChipsetSmpMode = false then some (.unsupported, initialState config)
  else
    match initNumaMap config numaMap (initialState config) with
    | none => none
    | some state => (initSmpMap config numaMap smpMap state).map fun state => (.success, state)

def Placed (numaMap : List NumaEntry) (smpMap : List SmpEntry) (stream : Stream) : Prop :=
  (∃ entry ∈ numaMap, entry.request.stream = stream) ∨
    found numaMap stream.cpuId = false ∧ ∃ entry ∈ smpMap, entry.request.stream = stream

/-- Only streams that were spawned are used, and each of them is powered on exactly once, is waited
for, and is where its entry says. -/
structure Exact (numaMap : List NumaEntry) (smpMap : List SmpEntry) (state : State) : Prop where
  poweredOn : ∀ stream ∈ state.poweredOn, stream ∈ state.spawned
  waited : ∀ stream ∈ state.waited, stream ∈ state.spawned
  once : ∀ stream ∈ state.spawned, (state.poweredOn.map Stream.cpuId).count stream.cpuId = 1
  confirmed : ∀ stream ∈ state.spawned, stream ∈ state.waited
  placed : ∀ stream ∈ state.spawned, Placed numaMap smpMap stream

def Request.Accepted (config : Config) (request : Request) : Prop :=
  request.stream.bankId ≠ numaBankIdInvalid ∧ request.stream.cpuId ≠ cpuIdInvalid ∧
    request.stream.cpuId < config.maxNcpus ∧ request.spawn = .success

instance (config : Config) (request : Request) : Decidable (request.Accepted config) :=
  inferInstanceAs (Decidable (_ ∧ _ ∧ _ ∧ _))

def accepted (config : Config) (requests : List Request) : List Stream :=
  (requests.filter fun request =>
    request.stream.cpuId ≠ config.bspCpuId ∧ request.Accepted config).map Request.stream

def AcceptedOnce (config : Config) (requests : List Request) : Prop :=
  ∀ request ∈ requests, request.stream.cpuId ≠ config.bspCpuId →
    ((accepted config requests).map Stream.cpuId).count request.stream.cpuId = 1

def holes (config : Config) (numaMap : List NumaEntry) (smpMap : List SmpEntry) : List SmpEntry :=
  smpMap.filter fun entry => entry.cpuId ≠ config.bspCpuId ∧ found numaMap entry.cpuId = false

/-- The entries left for the shared bank are of different CPUs, all accepted, with an ACPI id that
is the CPU id. -/
def HolesAccepted (config : Config) (numaMap : List NumaEntry) (smpMap : List SmpEntry) : Prop :=
  ((holes config numaMap smpMap).map SmpEntry.cpuId).Nodup ∧
    ∀ entry ∈ holes config numaMap smpMap,
      entry.request.Accepted config ∧ entry.cpuAcpiId = entry.cpuId

def Accepts (config : Config) (usingChipsetSmpMode : Bool) (numaMap : List NumaEntry)
    (smpMap : List SmpEntry) : Prop :=
  usingChipsetSmpMode = true →
    AcceptedOnce config (numaMap.map NumaEntry.request) ∧
      (numaMap ≠ [] → HolesAccepted config numaMap smpMap) ∧
      (numaMap = [] → AcceptedOnce config (smpMap.map SmpEntry.request))

section

variable {config : Config} {state state' : State}

structure Spawns (state : State) (streams : List Stream) (state' : State) : Prop where
  spawned : state'.spawned = state.spawned ++ streams
  waited : state'.waited = state.waited
  kept : ∀ cid, cid ∉ streams.map Stream.cpuId → state'.streams cid = state.streams cid
  added : ∀ cid ∈ streams.map Stream.cpuId,
    ∃ stream ∈ streams, stream.cpuId = cid ∧ state'.streams cid = some stream

theorem spawns_nil (state : State) : Spawns state [] state where
  spawned := (append_nil _).symm
  waited := rfl
  kept := fun _ _ => rfl
  added := by
    intro cid hcid
    cases hcid

theorem Spawns.append {middle : State} {streams streams' : List Stream}
    (h : Spawns state streams middle) (h' : Spawns middle streams' state') :
    Spawns state (streams ++ streams') state' where
  spawned := by rw [h'.spawned, h.spawned, append_assoc]
  waited := h'.waited.trans h.waited
  kept := by
    intro cid hcid
    rw [map_append, mem_append, not_or] at hcid
    rw [h'.kept cid hcid.2, h.kept cid hcid.1]
  added := by
    intro cid hcid
    rw [map_append, mem_append] at hcid
    rcases em (cid ∈ streams'.map Stream.cpuId) with hlater | hlater
    · obtain ⟨stream, hstream, hcpu, heq⟩ := h'.added cid hlater
      exact ⟨stream, mem_append_right _ hstream, hcpu, heq⟩
    · obtain ⟨stream, hstream, hcpu, heq⟩ := h.added cid (hcid.resolve_right hlater)
      exact ⟨stream, mem_append_left _ hstream, hcpu, by rw [h'.kept cid hlater, heq]⟩

def State.spawn (state : State) (stream : Stream) : State :=
  { state with
    streams := update state.streams stream.cpuId (some stream)
    spawned := state.spawned ++ [stream] }

theorem spawns_spawn (state : State) (stream : Stream) (poweredOn : List Stream) :
    Spawns state [stream] { state.spawn stream with poweredOn := poweredOn } where
  spawned := rfl
  waited := rfl
  kept := by
    intro cid hcid
    rw [map_singleton, mem_singleton] at hcid
    exact update_of_ne hcid ..
  added := by
    intro cid hcid
    rw [map_singleton, mem_singleton] at hcid
    subst hcid
    exact ⟨stream, mem_singleton.mpr rfl, rfl, update_self ..⟩

theorem bootCpuNotification_of_accepted {request : Request} (h : request.Accepted config)
    (state : State) :
    bootCpuNotification config request state = (.success, state.spawn request.stream) := by
  obtain ⟨hbank, hcpu, hlt, hspawn⟩ := h
  rw [bootCpuNotification, if_neg (by omega), spawnStream, if_neg (by simp [hbank, hcpu]),
    if_neg (by omega), if_neg (not_not.mpr hspawn)]
  rfl

theorem bootCpuNotification_of_not_accepted {request : Request} (h : ¬request.Accepted config)
    (state : State) :
    ∃ err, bootCpuNotification config request state = (err, state) ∧ err ≠ .success := by
  rw [bootCpuNotification]
  split
  · exact ⟨_, rfl, by decide⟩
  rename_i hlt
  rw [spawnStream]
  split
  · exact ⟨_, rfl, by decide⟩
  rename_i hvalid
  split
  · rename_i hspawn
    exact ⟨_, rfl, hspawn⟩
  · rename_i hspawn
    rw [not_or] at hvalid
    exact absurd ⟨hvalid.1, hvalid.2, by omega, not_not.mp hspawn⟩ h

theorem accepted_cons (config : Config) (request : Request) (requests : List Request) :
    accepted config (request :: requests) =
      if request.stream.cpuId ≠ config.bspCpuId ∧ request.Accepted config then
        request.stream :: accepted config requests
      else accepted config requests := by
  rw [accepted, filter_cons]
  split
  · rename_i h
    rw [if_pos (of_decide_eq_true h)]
    rfl
  · rename_i h
    rw [if_neg (fun htrue => h (decide_eq_true htrue))]
    rfl

theorem bootParse_spawns (config : Config) (requests : List Request) (state : State) :
    ∃ state', bootParse config requests state = some state' ∧
      Spawns state (accepted config requests) state' ∧
      state'.poweredOn = state.poweredOn ++ accepted config requests := by
  induction requests generalizing state with
  | nil => exact ⟨state, rfl, spawns_nil state, (append_nil _).symm⟩
  | cons request requests ih =>
    rw [bootParse, accepted_cons]
    split
    · rename_i hbsp
      rw [if_neg fun h => h.1 hbsp]
      exact ih state
    rename_i hbsp
    rcases em (request.Accepted config) with haccepted | haccepted
    · rw [bootCpuNotification_of_accepted haccepted, if_pos ⟨hbsp, haccepted⟩]
      dsimp only
      have hstream : (state.spawn request.stream).streams request.stream.cpuId =
          some request.stream := update_self ..
      rw [if_neg (not_not.mpr rfl), bootPowerOn, hstream]
      obtain ⟨state', heq, hspawns, hpoweredOn⟩ := ih { state.spawn request.stream with
        poweredOn := (state.spawn request.stream).poweredOn ++ [request.stream] }
      refine ⟨state', heq, (spawns_spawn state request.stream _).append hspawns, ?_⟩
      rw [hpoweredOn]
      exact append_assoc _ _ _
    · obtain ⟨err, heq, herr⟩ := bootCpuNotification_of_not_accepted haccepted state
      rw [heq, if_neg fun h => haccepted h.2]
      dsimp only
      rw [if_pos herr]
      exact ih state

structure Confirms (config : Config) (state : State) (cids : List Nat) (state' : State) :
    Prop where
  spawned : state'.spawned = state.spawned
  poweredOn : state'.poweredOn = state.poweredOn
  streams : state'.streams = state.streams
  waited : ∃ streams, state'.waited = state.waited ++ streams ∧
    (∀ stream ∈ streams, ∃ cid ∈ cids, cid ≠ config.bspCpuId ∧
      state.streams cid = some stream) ∧
    ∀ cid ∈ cids, cid ≠ config.bspCpuId → ∃ stream ∈ streams, state.streams cid = some stream

theorem bootConfirm_confirms {cids : List Nat} (h : bootConfirm config cids state = some state') :
    Confirms config state cids state' := by
  induction cids generalizing state with
  | nil =>
    cases h
    exact ⟨rfl, rfl, rfl, [], (append_nil _).symm, by simp, by simp⟩
  | cons cid cids ih =>
    rw [bootConfirm] at h
    split at h
    · rename_i hbsp
      obtain ⟨hspawned, hpoweredOn, hstreams, streams, hwaited, hfrom, hall⟩ := ih h
      refine ⟨hspawned, hpoweredOn, hstreams, streams, hwaited, ?_, ?_⟩
      · intro stream hstream
        obtain ⟨cid', hcid', hrest⟩ := hfrom stream hstream
        exact ⟨cid', mem_cons_of_mem _ hcid', hrest⟩
      · intro cid' hcid' hne
        rcases mem_cons.mp hcid' with rfl | hlater
        · exact absurd hbsp hne
        · exact hall cid' hlater hne
    rename_i hbsp
    rw [bootWaitForCpuToPowerOn] at h
    cases hstream : state.streams cid with
    | none =>
      rw [hstream] at h
      cases h
    | some stream =>
      rw [hstream] at h
      obtain ⟨hspawned, hpoweredOn, hstreams, streams, hwaited, hfrom, hall⟩ := ih h
      refine ⟨hspawned, hpoweredOn, hstreams, stream :: streams, ?_, ?_, ?_⟩
      · rw [hwaited]
        exact append_assoc _ _ _
      · intro stream' hstream'
        rcases mem_cons.mp hstream' with rfl | hlater
        · exact ⟨cid, mem_cons_self, hbsp, hstream⟩
        · obtain ⟨cid', hcid', hrest⟩ := hfrom stream' hlater
          exact ⟨cid', mem_cons_of_mem _ hcid', hrest⟩
      · intro cid' hcid' hne
        rcases mem_cons.mp hcid' with rfl | hlater
        · exact ⟨stream, mem_cons_self, hstream⟩
        · obtain ⟨stream', hstream', heq⟩ := hall cid' hlater hne
          exact ⟨stream', mem_cons_of_mem _ hstream', heq⟩

theorem exists_bootConfirm {cids : List Nat}
    (h : ∀ cid ∈ cids, cid ≠ config.bspCpuId → state.streams cid ≠ none) :
    ∃ state', bootConfirm config cids state = some state' := by
  induction cids generalizing state with
  | nil => exact ⟨state, rfl⟩
  | cons cid cids ih =>
    rw [bootConfirm]
    split
    · exact ih fun cid' hcid' => h cid' (mem_cons_of_mem _ hcid')
    rename_i hbsp
    obtain ⟨stream, hstream⟩ :=
      Option.ne_none_iff_exists'.mp (h cid mem_cons_self hbsp)
    rw [bootWaitForCpuToPowerOn, hstream]
    exact ih fun cid' hcid' => h cid' (mem_cons_of_mem _ hcid')

end

section

variable {config : Config} {numaMap : List NumaEntry} {state state' : State}

def SmpEntry.holeRequest (entry : SmpEntry) : Request :=
  ⟨⟨shbankId, entry.cpuId, entry.cpuId⟩, entry.spawn⟩

theorem accepted_holeRequest (entry : SmpEntry) :
    entry.holeRequest.Accepted config ↔ entry.request.Accepted config :=
  Iff.rfl

def acceptedHoles (config : Config) (entries : List SmpEntry) : List Stream :=
  (entries.filter fun entry => entry.request.Accepted config).map fun entry =>
    entry.holeRequest.stream

def Indexed (state : State) : Prop :=
  ∀ cid stream, state.streams cid = some stream → stream.cpuId = cid

theorem Indexed.spawn (h : Indexed state) (stream : Stream) (poweredOn : List Stream) :
    Indexed { state.spawn stream with poweredOn := poweredOn } := by
  intro cid stream' hstream
  rw [State.spawn] at hstream
  dsimp only at hstream
  rw [update_apply] at hstream
  split at hstream
  · rename_i hcid
    cases hstream
    exact hcid.symm
  · exact h cid stream' hstream

theorem holes_cons (config : Config) (numaMap : List NumaEntry) (entry : SmpEntry)
    (entries : List SmpEntry) :
    holes config numaMap (entry :: entries) =
      if entry.cpuId ≠ config.bspCpuId ∧ found numaMap entry.cpuId = false then
        entry :: holes config numaMap entries
      else holes config numaMap entries := by
  rw [holes, filter_cons]
  split
  · rename_i h
    rw [if_pos (of_decide_eq_true h)]
    rfl
  · rename_i h
    rw [if_neg (fun htrue => h (decide_eq_true htrue))]
    rfl

variable {entry : SmpEntry} {entries : List SmpEntry}

theorem acceptedHoles_cons_of_accepted (h : entry.request.Accepted config)
    (entries : List SmpEntry) : acceptedHoles config (entry :: entries) =
      entry.holeRequest.stream :: acceptedHoles config entries := by
  rw [acceptedHoles, filter_cons_of_pos (by exact decide_eq_true h), map_cons]
  rfl

theorem acceptedHoles_cons_of_not_accepted (h : ¬entry.request.Accepted config)
    (entries : List SmpEntry) :
    acceptedHoles config (entry :: entries) = acceptedHoles config entries := by
  rw [acceptedHoles, filter_cons_of_neg (by exact fun htrue => h (of_decide_eq_true htrue))]
  rfl

theorem Spawns.ne_none {streams : List Stream} (h : Spawns state streams state') {cid : Nat}
    (hstream : state.streams cid ≠ none) : state'.streams cid ≠ none := by
  rcases em (cid ∈ streams.map Stream.cpuId) with hadded | hkept
  · obtain ⟨stream, -, -, heq⟩ := h.added cid hadded
    rw [heq]
    exact Option.some_ne_none _
  · rwa [h.kept cid hkept]

theorem bootParseNumaMapHoles_cons (state : State) (entries : List SmpEntry)
    (hbsp : entry.cpuId ≠ config.bspCpuId) (hfound : found numaMap entry.cpuId = false) :
    (entry.request.Accepted config →
      bootParseNumaMapHoles config numaMap (entry :: entries) state =
        bootParseNumaMapHoles config numaMap entries { state.spawn entry.holeRequest.stream with
          poweredOn := state.poweredOn ++ [entry.holeRequest.stream] }) ∧
    (¬entry.request.Accepted config →
      bootParseNumaMapHoles config numaMap (entry :: entries) state =
        (bootPowerOn state entry.cpuId).bind (bootParseNumaMapHoles config numaMap entries)) := by
  rw [bootParseNumaMapHoles, if_neg hbsp, if_neg (by rw [hfound]; decide)]
  constructor
  · intro haccepted
    have hnotify := bootCpuNotification_of_accepted
      ((accepted_holeRequest entry).mpr haccepted) state
    rw [SmpEntry.holeRequest] at hnotify
    rw [hnotify]
    dsimp only
    have hstream : (state.spawn ⟨shbankId, entry.cpuId, entry.cpuId⟩).streams entry.cpuId =
        some ⟨shbankId, entry.cpuId, entry.cpuId⟩ := update_self ..
    rw [bootPowerOn, hstream]
    rfl
  · intro haccepted
    obtain ⟨err, hnotify, -⟩ := bootCpuNotification_of_not_accepted
      (fun h => haccepted ((accepted_holeRequest entry).mp h)) state
    rw [SmpEntry.holeRequest] at hnotify
    rw [hnotify]
    dsimp only
    cases bootPowerOn state entry.cpuId with
    | none => rfl
    | some state => rfl

theorem bootParseNumaMapHoles_spawns (hindexed : Indexed state)
    (h : bootParseNumaMapHoles config numaMap entries state = some state') :
    Spawns state (acceptedHoles config (holes config numaMap entries)) state' ∧
      (∃ powered, state'.poweredOn = state.poweredOn ++ powered ∧
        powered.map Stream.cpuId = (holes config numaMap entries).map SmpEntry.cpuId) ∧
      ∀ entry ∈ holes config numaMap entries, state'.streams entry.cpuId ≠ none := by
  induction entries generalizing state with
  | nil =>
    cases h
    exact ⟨spawns_nil _, ⟨[], (append_nil _).symm, rfl⟩, by simp [holes]⟩
  | cons entry entries ih =>
    rw [holes_cons]
    rcases eq_or_ne entry.cpuId config.bspCpuId with hbsp | hbsp
    · rw [bootParseNumaMapHoles, if_pos hbsp] at h
      rw [if_neg fun hhole => hhole.1 hbsp]
      exact ih hindexed h
    cases hfound : found numaMap entry.cpuId with
    | true =>
      rw [bootParseNumaMapHoles, if_neg hbsp, if_pos hfound] at h
      rw [if_neg fun hhole => Bool.noConfusion hhole.2]
      exact ih hindexed h
    | false =>
      rw [if_pos ⟨hbsp, rfl⟩]
      obtain ⟨haccepts, hrejects⟩ := bootParseNumaMapHoles_cons state entries hbsp hfound
      rcases em (entry.request.Accepted config) with haccepted | haccepted
      · rw [haccepts haccepted] at h
        have hspawn := spawns_spawn state entry.holeRequest.stream
          (state.poweredOn ++ [entry.holeRequest.stream])
        have hself : (state.spawn entry.holeRequest.stream).streams entry.cpuId =
            some entry.holeRequest.stream := update_self ..
        obtain ⟨hspawns, ⟨powered, hpoweredOn, hcpus⟩, hstreams⟩ :=
          ih (hindexed.spawn _ _) h
        rw [acceptedHoles_cons_of_accepted haccepted]
        refine ⟨hspawn.append hspawns, ⟨entry.holeRequest.stream :: powered, ?_, ?_⟩, ?_⟩
        · rw [hpoweredOn]
          exact append_assoc _ _ _
        · rw [map_cons, hcpus]
          rfl
        · intro other hother
          rcases mem_cons.mp hother with rfl | hlater
          · refine hspawns.ne_none ?_
            rw [hself]
            exact Option.some_ne_none _
          · exact hstreams other hlater
      rw [hrejects haccepted, bootPowerOn] at h
      rw [acceptedHoles_cons_of_not_accepted haccepted]
      cases hstream : state.streams entry.cpuId with
      | none =>
        rw [hstream] at h
        cases h
      | some stream =>
        rw [hstream] at h
        obtain ⟨hspawns, ⟨powered, hpoweredOn, hcpus⟩, hstreams⟩ :=
          @ih { state with poweredOn := state.poweredOn ++ [stream] } hindexed h
        have hspawns : Spawns state _ state' :=
          ⟨hspawns.spawned, hspawns.waited, hspawns.kept, hspawns.added⟩
        refine ⟨hspawns, ⟨stream :: powered, ?_, ?_⟩, ?_⟩
        · rw [hpoweredOn]
          exact append_assoc _ _ _
        · rw [map_cons, map_cons, hcpus, hindexed _ _ hstream]
        · intro other hother
          rcases mem_cons.mp hother with rfl | hlater
          · refine hspawns.ne_none ?_
            rw [hstream]
            exact Option.some_ne_none _
          · exact hstreams other hlater

theorem acceptedHoles_of_forall (h : ∀ entry ∈ entries, entry.request.Accepted config) :
    acceptedHoles config entries = entries.map fun entry => entry.holeRequest.stream := by
  rw [acceptedHoles, filter_eq_self.mpr fun entry hentry => decide_eq_true (h entry hentry)]

theorem exists_bootParseNumaMapHoles
    (h : ∀ entry ∈ holes config numaMap entries, entry.request.Accepted config) (state : State) :
    ∃ state', bootParseNumaMapHoles config numaMap entries state = some state' ∧
      state'.poweredOn = state.poweredOn ++
        acceptedHoles config (holes config numaMap entries) := by
  induction entries generalizing state with
  | nil => exact ⟨state, rfl, (append_nil _).symm⟩
  | cons entry entries ih =>
    rw [holes_cons] at h ⊢
    rcases eq_or_ne entry.cpuId config.bspCpuId with hbsp | hbsp
    · rw [if_neg fun hhole => hhole.1 hbsp] at h ⊢
      rw [bootParseNumaMapHoles, if_pos hbsp]
      exact ih h state
    cases hfound : found numaMap entry.cpuId with
    | true =>
      rw [hfound, if_neg fun hhole => Bool.noConfusion hhole.2] at h
      rw [if_neg fun hhole => Bool.noConfusion hhole.2, bootParseNumaMapHoles,
        if_neg hbsp, if_pos hfound]
      exact ih h state
    | false =>
      rw [hfound, if_pos ⟨hbsp, rfl⟩] at h
      rw [if_pos ⟨hbsp, rfl⟩]
      have haccepted := h entry mem_cons_self
      rw [(bootParseNumaMapHoles_cons state entries hbsp hfound).1 haccepted,
        acceptedHoles_cons_of_accepted haccepted]
      obtain ⟨state', heq, hpoweredOn⟩ := ih
        (fun other hother => h other (mem_cons_of_mem _ hother))
        { state.spawn entry.holeRequest.stream with
          poweredOn := state.poweredOn ++ [entry.holeRequest.stream] }
      refine ⟨state', heq, ?_⟩
      rw [hpoweredOn]
      exact append_assoc _ _ _

end

section

variable {config : Config} {requests : List Request} {state : State}

def bootMap (config : Config) (requests : List Request) : Option State :=
  (bootParse config requests (initialState config)).bind
    (bootConfirm config (requests.map fun request => request.stream.cpuId))

structure Booted (config : Config) (requests : List Request) (state : State) : Prop where
  spawned : state.spawned = accepted config requests
  poweredOn : state.poweredOn = accepted config requests
  covered : ∀ request ∈ requests, request.stream.cpuId ≠ config.bspCpuId →
    request.stream.cpuId ∈ (accepted config requests).map Stream.cpuId
  waited : ∀ stream ∈ state.waited, stream ∈ accepted config requests
  confirmed : ∀ stream ∈ accepted config requests,
    ∃ stream' ∈ state.waited, stream'.cpuId = stream.cpuId
  indexed : Indexed state

variable {stream : Stream}

theorem mem_accepted (h : stream ∈ accepted config requests) :
    ∃ request ∈ requests, request.stream = stream ∧ stream.cpuId ≠ config.bspCpuId := by
  rw [accepted, mem_map] at h
  obtain ⟨request, hrequest, rfl⟩ := h
  rw [mem_filter, decide_eq_true_eq] at hrequest
  exact ⟨request, hrequest.1, rfl, hrequest.2.1⟩

theorem indexed_initialState (config : Config) : Indexed (initialState config) := by
  intro cid stream hstream
  rw [initialState] at hstream
  dsimp only at hstream
  split at hstream
  · cases hstream
    rfl
  · cases hstream

theorem Spawns.indexed {state' : State} {streams : List Stream} (h : Spawns state streams state')
    (hindexed : Indexed state) : Indexed state' := by
  intro cid stream hstream
  rcases em (cid ∈ streams.map Stream.cpuId) with hadded | hkept
  · obtain ⟨stream', -, hcpu, heq⟩ := h.added cid hadded
    rw [heq] at hstream
    cases hstream
    exact hcpu
  · rw [h.kept cid hkept] at hstream
    exact hindexed cid stream hstream

theorem Spawns.mem {streams : List Stream} (h : Spawns (initialState config) streams state)
    {cid : Nat} (hcid : cid ≠ config.bspCpuId) (hstream : state.streams cid = some stream) :
    stream ∈ streams := by
  rcases em (cid ∈ streams.map Stream.cpuId) with hadded | hkept
  · obtain ⟨stream', hmem, -, heq⟩ := h.added cid hadded
    rw [heq] at hstream
    cases hstream
    exact hmem
  · rw [h.kept cid hkept, initialState] at hstream
    exact absurd hstream (by simp [hcid])

theorem booted_of_bootMap (h : bootMap config requests = some state) :
    Booted config requests state := by
  obtain ⟨parsed, hparsed, hspawns, hpoweredOn⟩ :=
    bootParse_spawns config requests (initialState config)
  rw [bootMap, hparsed, Option.bind_some] at h
  obtain ⟨hspawned, hpowered, hstreams, streams, hwaited, hfrom, hall⟩ := bootConfirm_confirms h
  have hindexed := hspawns.indexed (indexed_initialState config)
  have hwaited : state.waited = streams := by rw [hwaited, hspawns.waited]; rfl
  have hcid : ∀ request ∈ requests, request.stream.cpuId ∈
      requests.map fun request => request.stream.cpuId :=
    fun request hrequest => mem_map.mpr ⟨request, hrequest, rfl⟩
  refine ⟨?_, ?_, ?_, ?_, ?_, ?_⟩
  · rw [hspawned, hspawns.spawned]
    rfl
  · rw [hpowered, hpoweredOn]
    rfl
  · intro request hrequest hne
    obtain ⟨stream, -, hstream⟩ := hall _ (hcid request hrequest) hne
    exact mem_map.mpr ⟨stream, hspawns.mem hne hstream, hindexed _ _ hstream⟩
  · intro stream hstream
    rw [hwaited] at hstream
    obtain ⟨cid, -, hne, heq⟩ := hfrom stream hstream
    exact hspawns.mem hne heq
  · intro stream hstream
    obtain ⟨request, hrequest, rfl, hne⟩ := mem_accepted hstream
    obtain ⟨stream', hstream', heq⟩ := hall _ (hcid request hrequest) hne
    rw [hwaited]
    exact ⟨stream', hstream', hindexed _ _ heq⟩
  · intro cid stream hstream
    rw [hstreams] at hstream
    exact hindexed cid stream hstream

theorem AcceptedOnce.covered (h : AcceptedOnce config requests) {request : Request}
    (hrequest : request ∈ requests) (hne : request.stream.cpuId ≠ config.bspCpuId) :
    request.stream.cpuId ∈ (accepted config requests).map Stream.cpuId := by
  rw [← count_pos_iff, h request hrequest hne]
  exact one_pos

theorem exists_bootMap (h : AcceptedOnce config requests) :
    ∃ state, bootMap config requests = some state := by
  obtain ⟨parsed, hparsed, hspawns, -⟩ :=
    bootParse_spawns config requests (initialState config)
  rw [bootMap, hparsed, Option.bind_some]
  apply exists_bootConfirm
  intro cid hcid hne
  obtain ⟨request, hrequest, rfl⟩ := mem_map.mp hcid
  obtain ⟨stream, -, -, heq⟩ := hspawns.added _ (h.covered hrequest hne)
  rw [heq]
  exact Option.some_ne_none _

theorem eq_of_count_map_eq_one {α β : Type} [DecidableEq β] {f : α → β} {l : List α} {a b : α}
    (h : (l.map f).count (f a) = 1) (ha : a ∈ l) (hb : b ∈ l) (heq : f b = f a) : b = a := by
  obtain ⟨front, back, rfl⟩ := append_of_mem ha
  rw [map_append, map_cons, count_append, count_cons_self] at h
  rw [mem_append, mem_cons] at hb
  rcases hb with hfront | rfl | hback
  · have hpos := count_pos_iff.mpr (mem_map.mpr ⟨b, hfront, heq⟩)
    omega
  · rfl
  · have hpos := count_pos_iff.mpr (mem_map.mpr ⟨b, hback, heq⟩)
    omega

theorem AcceptedOnce.count (h : AcceptedOnce config requests)
    (hstream : stream ∈ accepted config requests) :
    ((accepted config requests).map Stream.cpuId).count stream.cpuId = 1 := by
  obtain ⟨request, hrequest, rfl, hne⟩ := mem_accepted hstream
  exact h request hrequest hne

theorem Booted.mem_waited (h : Booted config requests state)
    (honce : AcceptedOnce config requests) (hstream : stream ∈ accepted config requests) :
    stream ∈ state.waited := by
  obtain ⟨stream', hstream', hcpu⟩ := h.confirmed stream hstream
  have heq := eq_of_count_map_eq_one (honce.count hstream) hstream (h.waited _ hstream') hcpu
  rwa [← heq]

theorem Booted.exact_iff {smpMap : List SmpEntry}
    (h : Booted config (smpMap.map SmpEntry.request) state) :
    Exact [] smpMap state ↔ AcceptedOnce config (smpMap.map SmpEntry.request) := by
  constructor
  · intro hexact request hrequest hne
    obtain ⟨stream, hstream, hcpu⟩ := mem_map.mp (h.covered request hrequest hne)
    have hcount := hexact.once stream (by rw [h.spawned]; exact hstream)
    rwa [h.poweredOn, hcpu] at hcount
  · intro honce
    refine ⟨?_, ?_, ?_, ?_, ?_⟩
    · intro stream hstream
      rwa [h.spawned, ← h.poweredOn]
    · intro stream hstream
      rw [h.spawned]
      exact h.waited stream hstream
    · intro stream hstream
      rw [h.spawned] at hstream
      rw [h.poweredOn]
      exact honce.count hstream
    · intro stream hstream
      rw [h.spawned] at hstream
      exact h.mem_waited honce hstream
    · intro stream hstream
      rw [h.spawned] at hstream
      obtain ⟨request, hrequest, hstream, -⟩ := mem_accepted hstream
      obtain ⟨entry, hentry, rfl⟩ := mem_map.mp hrequest
      exact .inr ⟨rfl, entry, hentry, hstream⟩

end

section

variable {config : Config} {numaMap : List NumaEntry} {smpMap : List SmpEntry}
variable {booted parsed final : State}

theorem mem_holes {entry : SmpEntry} : entry ∈ holes config numaMap smpMap ↔
    entry ∈ smpMap ∧ entry.cpuId ≠ config.bspCpuId ∧ found numaMap entry.cpuId = false := by
  rw [holes, mem_filter, decide_eq_true_eq]

variable {stream : Stream}

theorem found_of_mem_accepted (h : stream ∈ accepted config (numaMap.map NumaEntry.request)) :
    found numaMap stream.cpuId = true := by
  obtain ⟨request, hrequest, rfl, -⟩ := mem_accepted h
  obtain ⟨entry, hentry, rfl⟩ := mem_map.mp hrequest
  exact any_eq_true.mpr ⟨entry, hentry, decide_eq_true rfl⟩

theorem count_accepted_of_hole {entry : SmpEntry} (h : entry ∈ holes config numaMap smpMap) :
    ((accepted config (numaMap.map NumaEntry.request)).map Stream.cpuId).count entry.cpuId = 0 := by
  rw [count_eq_zero, mem_map]
  rintro ⟨stream, hstream, hcpu⟩
  have hfound := found_of_mem_accepted hstream
  rw [hcpu, (mem_holes.mp h).2.2] at hfound
  cases hfound

theorem count_holes_of_accepted (h : stream ∈ accepted config (numaMap.map NumaEntry.request)) :
    ((holes config numaMap smpMap).map SmpEntry.cpuId).count stream.cpuId = 0 := by
  rw [count_eq_zero, mem_map]
  rintro ⟨entry, hentry, hcpu⟩
  have hfound := found_of_mem_accepted h
  rw [← hcpu, (mem_holes.mp hentry).2.2] at hfound
  cases hfound

theorem mem_acceptedHoles {entries : List SmpEntry} :
    stream ∈ acceptedHoles config entries ↔ ∃ entry ∈ entries, entry.request.Accepted config ∧
      entry.holeRequest.stream = stream := by
  rw [acceptedHoles, mem_map]
  constructor
  · rintro ⟨entry, hentry, hstream⟩
    rw [mem_filter, decide_eq_true_eq] at hentry
    exact ⟨entry, hentry.1, hentry.2, hstream⟩
  · rintro ⟨entry, hentry, haccepted, hstream⟩
    exact ⟨entry, mem_filter.mpr ⟨hentry, decide_eq_true haccepted⟩, hstream⟩

theorem mem_confirmed {cid : Nat} (hne : cid ≠ config.bspCpuId) :
    cid ∈ ((smpMap.map SmpEntry.cpuId).filter fun cid => found numaMap cid = false) ↔
      ∃ entry ∈ holes config numaMap smpMap, entry.cpuId = cid := by
  rw [mem_filter, decide_eq_true_eq, mem_map]
  constructor
  · rintro ⟨⟨entry, hentry, rfl⟩, hfound⟩
    exact ⟨entry, mem_holes.mpr ⟨hentry, hne, hfound⟩, rfl⟩
  · rintro ⟨entry, hentry, rfl⟩
    exact ⟨⟨entry, (mem_holes.mp hentry).1, rfl⟩, (mem_holes.mp hentry).2.2⟩

theorem Booted.accepts_of_exact (h : Booted config (numaMap.map NumaEntry.request) booted)
    (hparse : bootParseNumaMapHoles config numaMap smpMap booted = some parsed)
    (hconfirm : bootConfirmNumaMapHoles config numaMap smpMap parsed = some final)
    (hexact : Exact numaMap smpMap final) : AcceptedOnce config (numaMap.map NumaEntry.request) ∧
      HolesAccepted config numaMap smpMap := by
  obtain ⟨hspawns, ⟨powered, hpoweredOn, hcpus⟩, -⟩ :=
    bootParseNumaMapHoles_spawns h.indexed hparse
  have hconfirms := bootConfirm_confirms hconfirm
  have hspawned : final.spawned = accepted config (numaMap.map NumaEntry.request) ++
      acceptedHoles config (holes config numaMap smpMap) := by
    rw [hconfirms.spawned, hspawns.spawned, h.spawned]
  have hpoweredOn : final.poweredOn =
      accepted config (numaMap.map NumaEntry.request) ++ powered := by
    rw [hconfirms.poweredOn, hpoweredOn, h.poweredOn]
  -- a hole is powered on, so its stream was spawned, and by a hole
  have hhole : ∀ entry ∈ holes config numaMap smpMap, ∃ stream ∈ final.spawned,
      stream.cpuId = entry.cpuId := by
    intro entry hentry
    have hmem : entry.cpuId ∈ powered.map Stream.cpuId := by
      rw [hcpus]
      exact mem_map.mpr ⟨entry, hentry, rfl⟩
    obtain ⟨stream, hstream, hcpu⟩ := mem_map.mp hmem
    refine ⟨stream, hexact.poweredOn stream ?_, hcpu⟩
    rw [hpoweredOn]
    exact mem_append_right _ hstream
  have hcount : ∀ stream ∈ final.spawned,
      ((accepted config (numaMap.map NumaEntry.request)).map Stream.cpuId).count stream.cpuId +
        ((holes config numaMap smpMap).map SmpEntry.cpuId).count stream.cpuId = 1 := by
    intro stream hstream
    rw [← hexact.once stream hstream, hpoweredOn, map_append, count_append, hcpus]
  have hnodup : ((holes config numaMap smpMap).map SmpEntry.cpuId).Nodup := by
    rw [nodup_iff_count_le_one]
    intro cid
    rcases em (cid ∈ (holes config numaMap smpMap).map SmpEntry.cpuId) with
      hmem | hmem
    · obtain ⟨entry, hentry, rfl⟩ := mem_map.mp hmem
      obtain ⟨stream, hstream, hcpu⟩ := hhole entry hentry
      have htotal := hcount stream hstream
      rw [hcpu] at htotal
      omega
    · rw [count_eq_zero.mpr hmem]
      exact Nat.zero_le _
  refine ⟨?_, hnodup, ?_⟩
  · intro request hrequest hne
    obtain ⟨stream, hstream, hcpu⟩ := mem_map.mp (h.covered request hrequest hne)
    have htotal := hcount stream (by rw [hspawned]; exact mem_append_left _ hstream)
    rw [count_holes_of_accepted hstream, hcpu] at htotal
    exact htotal
  · intro entry hentry
    obtain ⟨stream, hstream, hcpu⟩ := hhole entry hentry
    have hfound : found numaMap stream.cpuId = false := by
      rw [hcpu]
      exact (mem_holes.mp hentry).2.2
    have hplaced := hexact.placed stream hstream
    rw [hspawned, mem_append] at hstream
    rcases hstream with hnuma | hshared
    · rw [found_of_mem_accepted hnuma] at hfound
      cases hfound
    obtain ⟨entry', hentry', haccepted, rfl⟩ := mem_acceptedHoles.mp hshared
    have heq : entry' = entry := inj_on_of_nodup_map hnodup hentry' hentry hcpu
    subst heq
    refine ⟨haccepted, ?_⟩
    rcases hplaced with ⟨other, hother, heq⟩ | ⟨-, other, hother, heq⟩
    · have htrue : found numaMap entry'.cpuId = true :=
        any_eq_true.mpr ⟨other, hother, decide_eq_true (congrArg Stream.cpuId heq)⟩
      rw [(mem_holes.mp hentry).2.2] at htrue
      cases htrue
    have hid : other.cpuId = entry'.cpuId := congrArg Stream.cpuId heq
    have hacpi : other.cpuAcpiId = entry'.cpuId := congrArg Stream.cpuAcpiId heq
    have hother : other ∈ holes config numaMap smpMap := by
      rw [mem_holes, hid]
      exact ⟨hother, (mem_holes.mp hentry).2⟩
    rw [← inj_on_of_nodup_map hnodup hother hentry hid, hacpi]
    exact hid.symm

theorem Booted.exists_exact (h : Booted config (numaMap.map NumaEntry.request) booted)
    (honce : AcceptedOnce config (numaMap.map NumaEntry.request))
    (hholes : HolesAccepted config numaMap smpMap) :
    ∃ parsed final, bootParseNumaMapHoles config numaMap smpMap booted = some parsed ∧
      bootConfirmNumaMapHoles config numaMap smpMap parsed = some final ∧
      Exact numaMap smpMap final := by
  obtain ⟨hnodup, haccepted⟩ := hholes
  have hall : acceptedHoles config (holes config numaMap smpMap) =
      (holes config numaMap smpMap).map fun entry => entry.holeRequest.stream :=
    acceptedHoles_of_forall fun entry hentry => (haccepted entry hentry).1
  obtain ⟨parsed, hparse, hpowered⟩ := exists_bootParseNumaMapHoles
    (fun entry hentry => (haccepted entry hentry).1) booted
  obtain ⟨hspawns, -, hstreams⟩ := bootParseNumaMapHoles_spawns h.indexed hparse
  obtain ⟨final, hconfirm⟩ : ∃ final, bootConfirmNumaMapHoles config numaMap smpMap parsed =
      some final := by
    apply exists_bootConfirm
    intro cid hcid hne
    obtain ⟨entry, hentry, rfl⟩ := (mem_confirmed hne).mp hcid
    exact hstreams entry hentry
  refine ⟨parsed, final, hparse, hconfirm, ?_⟩
  obtain ⟨hspawned, hpoweredOn, -, streams, hwaited, hfrom, hcover⟩ :=
    bootConfirm_confirms hconfirm
  rw [hspawns.spawned, h.spawned] at hspawned
  rw [hpowered, h.poweredOn] at hpoweredOn
  rw [hspawns.waited] at hwaited
  have hcpus : (acceptedHoles config (holes config numaMap smpMap)).map Stream.cpuId =
      (holes config numaMap smpMap).map SmpEntry.cpuId := by
    rw [hall, map_map]
    rfl
  have hstream : ∀ entry ∈ holes config numaMap smpMap,
      parsed.streams entry.cpuId = some entry.holeRequest.stream := by
    intro entry hentry
    have hmem : entry.cpuId ∈
        (acceptedHoles config (holes config numaMap smpMap)).map Stream.cpuId := by
      rw [hcpus]
      exact mem_map.mpr ⟨entry, hentry, rfl⟩
    obtain ⟨stream, hstream, hcpu, heq⟩ := hspawns.added _ hmem
    obtain ⟨entry', -, -, rfl⟩ := mem_acceptedHoles.mp hstream
    rw [heq, SmpEntry.holeRequest, SmpEntry.holeRequest]
    rw [show entry'.cpuId = entry.cpuId from hcpu]
  refine ⟨?_, ?_, ?_, ?_, ?_⟩
  · intro stream hmem
    rwa [hspawned, ← hpoweredOn]
  · intro stream hmem
    rw [hwaited, mem_append] at hmem
    rw [hspawned, mem_append]
    rcases hmem with hnuma | hshared
    · exact .inl (h.waited stream hnuma)
    obtain ⟨cid, hcid, hne, heq⟩ := hfrom stream hshared
    obtain ⟨entry, hentry, rfl⟩ := (mem_confirmed hne).mp hcid
    rw [hstream entry hentry] at heq
    exact .inr (mem_acceptedHoles.mpr
      ⟨entry, hentry, (haccepted entry hentry).1, Option.some.inj heq⟩)
  · intro stream hmem
    rw [hpoweredOn, map_append, count_append, hcpus]
    rw [hspawned, mem_append] at hmem
    rcases hmem with hnuma | hshared
    · rw [honce.count hnuma, count_holes_of_accepted hnuma]
    · obtain ⟨entry, hentry, -, rfl⟩ := mem_acceptedHoles.mp hshared
      have hzero := count_accepted_of_hole hentry
      have hone := count_eq_one_of_mem hnodup (mem_map.mpr ⟨entry, hentry, rfl⟩)
      rw [show entry.holeRequest.stream.cpuId = entry.cpuId from rfl, hzero, hone]
  · intro stream hmem
    rw [hspawned, mem_append] at hmem
    rw [hwaited, mem_append]
    rcases hmem with hnuma | hshared
    · exact .inl (h.mem_waited honce hnuma)
    obtain ⟨entry, hentry, -, rfl⟩ := mem_acceptedHoles.mp hshared
    have hne := (mem_holes.mp hentry).2.1
    obtain ⟨stream, hmem, heq⟩ :=
      hcover entry.cpuId ((mem_confirmed hne).mpr ⟨entry, hentry, rfl⟩) hne
    rw [hstream entry hentry] at heq
    rw [Option.some.inj heq]
    exact .inr hmem
  · intro stream hmem
    rw [hspawned, mem_append] at hmem
    rcases hmem with hnuma | hshared
    · obtain ⟨request, hrequest, heq, -⟩ := mem_accepted hnuma
      obtain ⟨entry, hentry, rfl⟩ := mem_map.mp hrequest
      exact .inl ⟨entry, hentry, heq⟩
    · obtain ⟨entry, hentry, -, rfl⟩ := mem_acceptedHoles.mp hshared
      refine .inr ⟨(mem_holes.mp hentry).2.2, entry, (mem_holes.mp hentry).1, ?_⟩
      rw [SmpEntry.request, SmpEntry.holeRequest, (haccepted entry hentry).2]

end

section

variable {config : Config} {numaMap : List NumaEntry} {smpMap : List SmpEntry}

theorem initNumaMap_eq (config : Config) (numaMap : List NumaEntry) :
    initNumaMap config numaMap (initialState config) =
      bootMap config (numaMap.map NumaEntry.request) := by
  rw [initNumaMap, bootMap, map_map]
  split
  · rename_i hempty
    subst hempty
    rfl
  · rw [bootParseNumaMap]
    cases bootParse config (numaMap.map NumaEntry.request) (initialState config) with
    | none => rfl
    | some state => rfl

theorem initSmpMap_nil (config : Config) (smpMap : List SmpEntry) :
    initSmpMap config [] smpMap (initialState config) =
      bootMap config (smpMap.map SmpEntry.request) := by
  rw [initSmpMap, bootMap, map_map]
  split
  · rename_i hempty
    subst hempty
    rfl
  · rw [if_neg (not_not.mpr rfl), bootParseSmpMap]
    cases bootParse config (smpMap.map SmpEntry.request) (initialState config) with
    | none => rfl
    | some state => rfl

theorem initSmpMap_of_ne_nil (h : numaMap ≠ []) (state : State) :
    initSmpMap config numaMap smpMap state =
      (bootParseNumaMapHoles config numaMap smpMap state).bind
        (bootConfirmNumaMapHoles config numaMap smpMap) := by
  rw [initSmpMap]
  split
  · rename_i hempty
    subst hempty
    rfl
  · cases bootParseNumaMapHoles config numaMap smpMap state with
    | none => rfl
    | some state => rfl

theorem exact_initialState (config : Config) (numaMap : List NumaEntry)
    (smpMap : List SmpEntry) : Exact numaMap smpMap (initialState config) := by
  refine ⟨?_, ?_, ?_, ?_, ?_⟩ <;>
  · intro stream hstream
    cases hstream

theorem acceptedOnce_nil (config : Config) : AcceptedOnce config [] := by
  intro request hrequest
  cases hrequest

/-- The CPUs are booted as they should exactly when every CPU of the maps is accepted by one entry
and those of the shared bank have their CPU id for ACPI id. -/
theorem numaInit_exact_iff (config : Config) (usingChipsetSmpMode : Bool)
    (numaMap : List NumaEntry) (smpMap : List SmpEntry) :
    (∃ ret final, numaInit config usingChipsetSmpMode numaMap smpMap = some (ret, final) ∧
      Exact numaMap smpMap final) ↔ Accepts config usingChipsetSmpMode numaMap smpMap := by
  rw [numaInit, initNumaMap_eq]
  cases usingChipsetSmpMode with
  | false =>
    refine iff_of_true ⟨_, _, rfl, exact_initialState config numaMap smpMap⟩ ?_
    intro htrue
    cases htrue
  | true =>
    rcases eq_or_ne numaMap [] with rfl | hne
    · have hnil : bootMap config (([] : List NumaEntry).map NumaEntry.request) =
          some (initialState config) := rfl
      rw [hnil]
      dsimp only
      rw [initSmpMap_nil]
      constructor
      · rintro ⟨ret, final, hinit, hexact⟩ -
        obtain ⟨state, hboot, heq⟩ := Option.map_eq_some_iff.mp hinit
        cases heq
        exact ⟨acceptedOnce_nil config, fun hne => absurd rfl hne,
          fun _ => (booted_of_bootMap hboot).exact_iff.mp hexact⟩
      · intro haccepts
        have honce := (haccepts rfl).2.2 rfl
        obtain ⟨state, hboot⟩ := exists_bootMap honce
        exact ⟨.success, state, by rw [hboot]; rfl,
          (booted_of_bootMap hboot).exact_iff.mpr honce⟩
    constructor
    · rintro ⟨ret, final, hinit, hexact⟩ -
      cases hboot : bootMap config (numaMap.map NumaEntry.request) with
      | none =>
        rw [hboot] at hinit
        cases hinit
      | some booted =>
        rw [hboot] at hinit
        dsimp only at hinit
        rw [initSmpMap_of_ne_nil hne] at hinit
        obtain ⟨state, hholes, heq⟩ := Option.map_eq_some_iff.mp hinit
        cases heq
        obtain ⟨parsed, hparse, hconfirm⟩ := Option.bind_eq_some_iff.mp hholes
        have hresult :=
          (booted_of_bootMap hboot).accepts_of_exact hparse hconfirm hexact
        exact ⟨hresult.1, fun _ => hresult.2, fun hempty => absurd hempty hne⟩
    · intro haccepts
      obtain ⟨honce, hholes, -⟩ := haccepts rfl
      obtain ⟨booted, hboot⟩ := exists_bootMap honce
      obtain ⟨parsed, final, hparse, hconfirm, hexact⟩ :=
        (booted_of_bootMap hboot).exists_exact honce (hholes hne)
      refine ⟨.success, final, ?_, hexact⟩
      rw [hboot]
      dsimp only
      rw [initSmpMap_of_ne_nil hne, hparse, Option.bind_some, hconfirm]
      rfl

theorem aboveLimit_not_exact :
    ¬∃ ret final, numaInit ⟨0, 4⟩ true [⟨0, 1, 1, .success⟩, ⟨0, 5, 5, .success⟩] [] =
      some (ret, final) ∧ Exact [⟨0, 1, 1, .success⟩, ⟨0, 5, 5, .success⟩] [] final := by
  have hfault : (numaInit ⟨0, 4⟩ true [⟨0, 1, 1, .success⟩, ⟨0, 5, 5, .success⟩] []).isNone =
      true := by
    decide +kernel
  rintro ⟨ret, final, hinit, -⟩
  rw [hinit] at hfault
  cases hfault

end

end Zambesii.NumaInit
