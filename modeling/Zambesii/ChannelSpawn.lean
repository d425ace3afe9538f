import Zambesii.KernelTypes
import Zambesii.LinkedCells

/-!
Channels that are spawned over a channel: `udi_channel_spawn` is called at both of its ends, and
the kernel keeps a blueprint from the first call to the second.
-/

namespace Zambesii.ChannelSpawn

open Function List
open KernelTypes
open LinkedCells (Ptr)

inductive ChannelType
  | d2d
  | d2s
deriving DecidableEq

abbrev Endpoint := Ptr × Fin 2

/-- What `anchor` stores: the region or the thread, the ops vector and the context. -/
structure Anchor where
  target : Ptr
  opsVector : Ptr
  privateData : Ptr
deriving DecidableEq

structure Channel where
  object : Ptr
  type : ChannelType
  metaName : List UInt8
  anchors : Fin 2 → Option Anchor

/-- The origin of an end that nobody has claimed is `NULL`. -/
structure IncompleteChannel extends Channel where
  spawnIndex : UInt8
  originEndpoints : Fin 2 → Option Endpoint

/-- The device instance of each region, the channels of each device instance, and the
incomplete channels of each channel. -/
structure System where
  parent : Ptr → Ptr
  channels : Ptr → List Channel
  incompleteChannels : Ptr → List IncompleteChannel

/-- The arguments of `spawnEndpoint`, what it finds out about its caller, and what the memory
management answers: `fresh` is the new blueprint. -/
structure Call where
  isDriver : Bool
  region : Ptr
  endpoint : Option Endpoint
  metaName : List UInt8
  spawnIdx : UInt8
  opsVector : Ptr
  context : Ptr
  fresh : Option Ptr
  initialized : Bool
  inserted : Bool
  channelAdded : Fin 2 → Bool
  endpointAdded : Fin 2 → Bool

def Call.anchor (call : Call) : Anchor :=
  ⟨call.region, call.opsVector, call.context⟩

def metalanguageMaxlen : Nat := 32

def hasEndpoint (channel : Channel) : Option Endpoint → Bool
  | none => false
  | some endpoint => channel.object == endpoint.1

def getChannelByEndpoint (channels : List Channel) (endpoint : Option Endpoint) : Option Channel :=
  channels.find? (hasEndpoint · endpoint)

def getIncompleteChannelBySpawnIndex (list : List IncompleteChannel) (spawnIdx : UInt8) :
    Option IncompleteChannel :=
  list.find? (·.spawnIndex == spawnIdx)

/-- A change of the blueprint that `getIncompleteChannelBySpawnIndex` finds. -/
def onIncomplete (spawnIdx : UInt8) (change : IncompleteChannel → IncompleteChannel) :
    List IncompleteChannel → List IncompleteChannel
  | [] => []
  | incChan :: rest =>
    if incChan.spawnIndex = spawnIdx then change incChan :: rest
    else incChan :: onIncomplete spawnIdx change rest

def setIncomplete (system : System) (object : Ptr) (list : List IncompleteChannel) : System :=
  { system with incompleteChannels := update system.incompleteChannels object list }

def anchorEnd (i : Fin 2) (anchor : Anchor) (incChan : IncompleteChannel) : IncompleteChannel :=
  { incChan with anchors := update incChan.anchors i (some anchor) }

def setOrigin (i : Fin 2) (origin : Option Endpoint) (incChan : IncompleteChannel) :
    IncompleteChannel :=
  { incChan with originEndpoints := update incChan.originEndpoints i origin }

/-- The object that `createIncompleteChannel` makes; `none` where it returns an error. -/
def createIncompleteChannel (type : ChannelType) (list : List IncompleteChannel) (call : Call) :
    Option IncompleteChannel :=
  match getIncompleteChannelBySpawnIndex list call.spawnIdx with
  | some _ => none
  | none =>
    match call.fresh with
    | none => none
    | some object =>
      if call.initialized then
        some ⟨⟨object, type, call.metaName.take (metalanguageMaxlen - 1), fun _ => none⟩,
          call.spawnIdx, fun _ => none⟩
      else none

def removeIncompleteChannel (list : List IncompleteChannel) (spawnIdx : UInt8) :
    List IncompleteChannel :=
  list.eraseP (·.spawnIndex == spawnIdx)

def addChannel (system : System) (device : Ptr) (channel : Channel) (added : Bool) :
    Kerror × System :=
  if added then
    (.success, { system with
      channels := update system.channels device (channel :: system.channels device) })
  else (.memoryNomem, system)

/-- `anchor(void)`: an end without an ops vector or a target is not anchored. -/
def anchorVoid (anchor : Anchor) (added : Bool) : Kerror :=
  if anchor.opsVector = 0 ∨ anchor.target = 0 then .uninitialized
  else if added then .success else .memoryNomem

def createChannel (system : System) (bprint : IncompleteChannel) (call : Call) :
    Option (Kerror × System) := do
  let end0 ← bprint.anchors 0
  let end1 ← bprint.anchors 1
  let channel := bprint.toChannel
  let device0 := system.parent end0.target
  let device1 := system.parent end1.target
  let (ret0, system0) := addChannel system device0 channel (call.channelAdded 0)
  let anchored := anchorVoid end0 (call.endpointAdded 0) = .success ∧
    anchorVoid end1 (call.endpointAdded 1) = .success
  match bprint.type with
  | .d2d =>
    let (ret1, system1) :=
      if device0 ≠ device1 then addChannel system0 device1 channel (call.channelAdded 1)
      else (ret0, system0)
    if ret0 ≠ .success ∨ ret1 ≠ .success then some (.initializationFailure, system1)
    else if anchored then some (.success, system1)
    else some (.initializationFailure, system1)
  | .d2s =>
    if ret0 ≠ .success then some (ret0, system0)
    else if anchored then some (.success, system0)
    else some (.initializationFailure, system)

def claimedIdx (incChan : IncompleteChannel) (endpoint : Option Endpoint) : Option (Fin 2) :=
  if incChan.originEndpoints 0 = endpoint then some 0
  else if incChan.originEndpoints 1 = endpoint then some 1
  else none

/-- The last slot that is `NULL`. -/
def emptyEndpointIdx (incChan : IncompleteChannel) : Option (Fin 2) :=
  if incChan.originEndpoints 1 = none then some 1
  else if incChan.originEndpoints 0 = none then some 0
  else none

/-- What becomes of a call: it returns, it panics, or it uses a pointer or an index that is not
set. -/
inductive Result
  | returned (error : Kerror) (retendp : Option Endpoint)
  | panicked
  | faulted
deriving DecidableEq

def spawnSecond (system : System) (origin : Channel) (incChan : IncompleteChannel) (call : Call)
    (i : Fin 2) : Result × System :=
  let list := system.incompleteChannels origin.object
  let bprint := anchorEnd i call.anchor incChan
  let anchored := setIncomplete system origin.object
    (onIncomplete call.spawnIdx (anchorEnd i call.anchor) list)
  if bprint.originEndpoints 0 = none ∨ bprint.originEndpoints 1 = none then (.panicked, anchored)
  else
    match createChannel anchored bprint call with
    | none => (.faulted, anchored)
    | some (.success, created) =>
      (.returned .success (some (bprint.object, i)), setIncomplete created origin.object
          (removeIncompleteChannel (created.incompleteChannels origin.object) call.spawnIdx))
    | some (error, created) => (.returned error none, created)

def spawnEndpoint (system : System) (call : Call) : Result × System :=
  if call.isDriver = false then (.returned .unauthorized none, system)
  else
    match getChannelByEndpoint (system.channels (system.parent call.region)) call.endpoint with
    | none => (.returned .invalidArgVal none, system)
    | some origin =>
      let list := system.incompleteChannels origin.object
      match getIncompleteChannelBySpawnIndex list call.spawnIdx with
      | none =>
        match createIncompleteChannel origin.type list call with
        -- the error is not looked at, and the pointer is still `NULL`
        | none => (.faulted, system)
        | some incChan =>
          let first := setOrigin 0 call.endpoint (anchorEnd 0 call.anchor incChan)
          (.returned .success (some (first.object, 0)),
            if call.inserted then setIncomplete system origin.object (first :: list)
            else system)
      | some incChan =>
        match claimedIdx incChan call.endpoint with
        | some i =>
          (.returned .success (some (incChan.object, i)), setIncomplete system origin.object
              (onIncomplete call.spawnIdx (anchorEnd i call.anchor) list))
        | none =>
          match emptyEndpointIdx incChan with
          | none => (.faulted, system)
          | some i => spawnSecond system origin incChan call i

/-- A call that waits for the other endpoint: who made it, what it supplied last, and the end it
was given. -/
structure Waiting where
  endpoint : Option Endpoint
  anchor : Anchor
  received : Endpoint

/-- What spawning is for: for every spawn index one endpoint waits or none does, and the
endpoints that have met have a channel. -/
structure Rendezvous where
  waiting : UInt8 → Option Waiting
  met : List (Waiting × Waiting)

def Rendezvous.idle : Rendezvous := ⟨fun _ => none, []⟩

def Rendezvous.call (rendezvous : Rendezvous) (call : Call) (received : Endpoint) : Rendezvous :=
  let own : Waiting := ⟨call.endpoint, call.anchor, received⟩
  match rendezvous.waiting call.spawnIdx with
  | none =>
    { rendezvous with waiting := update rendezvous.waiting call.spawnIdx (some own) }
  | some first =>
    if first.endpoint = call.endpoint then
      { rendezvous with waiting := update rendezvous.waiting call.spawnIdx (some own) }
    else
      ⟨update rendezvous.waiting call.spawnIdx none, (first, own) :: rendezvous.met⟩

/-- The end that a caller was given is one of this channel, and carries what it supplied. -/
def Carries (channel : Channel) (caller : Waiting) : Prop :=
  channel.object = caller.received.1 ∧ channel.anchors caller.received.2 = some caller.anchor

/-- The blueprints of `origin` are those of the endpoints that wait, and the channels that have
been made since `start` are those of the endpoints that have met. -/
structure Agrees (origin : Ptr) (start system : System) (rendezvous : Rendezvous) : Prop where
  distinct : ((system.incompleteChannels origin).map (·.spawnIndex)).Nodup
  waiting : ∀ spawnIdx, (∃ incChan ∈ system.incompleteChannels origin,
    incChan.spawnIndex = spawnIdx) ↔ (rendezvous.waiting spawnIdx).isSome
  carries : ∀ incChan ∈ system.incompleteChannels origin,
    ∀ first ∈ rendezvous.waiting incChan.spawnIndex, Carries incChan.toChannel first
  met : ∃ made : List Channel, (made.map (·.object)).Nodup ∧
    List.Forall₂ (fun channel both => Carries channel both.1 ∧ Carries channel both.2 ∧
      both.1.received ≠ both.2.received) made rendezvous.met ∧
    (∀ device, ∀ channel ∈ system.channels device,
      channel ∈ start.channels device ∨ channel ∈ made) ∧
    ∀ channel ∈ made, ∃ device, channel ∈ system.channels device

/-- Every call returns an end, and the system agrees with the rendezvous after each. -/
def Meets (origin : Ptr) (start : System) : System → Rendezvous → List Call → Prop
  | _, _, [] => True
  | system, rendezvous, call :: calls =>
    match spawnEndpoint system call with
    | (.returned .success (some received), next) =>
      Agrees origin start next (rendezvous.call call received) ∧
        Meets origin start next (rendezvous.call call received) calls
    | _ => False

def MadeFrom (origin : Channel) (system : System) (call : Call) : Prop :=
  call.isDriver = true ∧ (∃ i, call.endpoint = some (origin.object, i)) ∧
    getChannelByEndpoint (system.channels (system.parent call.region)) call.endpoint = some origin

def Created (call : Call) : Prop :=
  call.fresh.isSome ∧ call.initialized = true ∧ call.inserted = true

/-- No other endpoint has called with this spawn index, and the first call with it gets its
blueprint. -/
def Alone (before : List Call) (call : Call) : Prop :=
  (∀ earlier ∈ before, earlier.spawnIdx = call.spawnIdx → earlier.endpoint = call.endpoint) ∧
    ((∀ earlier ∈ before, earlier.spawnIdx ≠ call.spawnIdx) → Created call)

section

variable {list : List IncompleteChannel} {spawnIdx : UInt8} {incChan : IncompleteChannel}
  {change : IncompleteChannel → IncompleteChannel}

theorem getIncompleteChannelBySpawnIndex_eq_none :
    getIncompleteChannelBySpawnIndex list spawnIdx = none ↔
      ∀ incChan ∈ list, incChan.spawnIndex ≠ spawnIdx := by
  simp [getIncompleteChannelBySpawnIndex]

theorem mem_of_getIncompleteChannelBySpawnIndex
    (h : getIncompleteChannelBySpawnIndex list spawnIdx = some incChan) :
    incChan ∈ list ∧ incChan.spawnIndex = spawnIdx :=
  ⟨mem_of_find?_eq_some h, by simpa using find?_some h⟩

theorem map_spawnIndex_onIncomplete (hchange : ∀ incChan, (change incChan).spawnIndex =
    incChan.spawnIndex) : (onIncomplete spawnIdx change list).map (·.spawnIndex) =
      list.map (·.spawnIndex) := by
  induction list with
  | nil => rfl
  | cons incChan rest ih =>
    rw [onIncomplete]
    split
    · simp [hchange]
    · simp [ih]

theorem mem_onIncomplete (hnodup : (list.map (·.spawnIndex)).Nodup)
    (h : incChan ∈ onIncomplete spawnIdx change list) :
    (∃ old ∈ list, old.spawnIndex = spawnIdx ∧ incChan = change old) ∨
      incChan ∈ list ∧ incChan.spawnIndex ≠ spawnIdx := by
  induction list with
  | nil => simp [onIncomplete] at h
  | cons head rest ih =>
    rw [map_cons, nodup_cons] at hnodup
    rw [onIncomplete] at h
    split at h
    · rename_i hhead
      rcases mem_cons.mp h with rfl | hrest
      · exact .inl ⟨head, mem_cons_self, hhead, rfl⟩
      · refine .inr ⟨mem_cons_of_mem _ hrest, ?_⟩
        rintro rfl
        rw [hhead] at hnodup
        exact hnodup.1 (mem_map_of_mem hrest)
    · rename_i hhead
      rcases mem_cons.mp h with rfl | hrest
      · exact .inr ⟨mem_cons_self, hhead⟩
      · rcases ih hnodup.2 hrest with ⟨old, hold, hidx, heq⟩ | ⟨hmem, hne⟩
        · exact .inl ⟨old, mem_cons_of_mem _ hold, hidx, heq⟩
        · exact .inr ⟨mem_cons_of_mem _ hmem, hne⟩

end

section

variable {origin : Channel} {start system : System} {rendezvous : Rendezvous} {before : List Call}
  {call : Call}

/-- As long as no two endpoints have called with one spawn index: the blueprints are those of
the calls so far, with their first slot claimed and the second one empty. -/
structure Follows (origin : Channel) (start system : System) (rendezvous : Rendezvous)
    (before : List Call) : Prop where
  parent : system.parent = start.parent
  channels : system.channels = start.channels
  distinct : ((system.incompleteChannels origin.object).map (·.spawnIndex)).Nodup
  waiting : ∀ spawnIdx, (∃ incChan ∈ system.incompleteChannels origin.object,
    incChan.spawnIndex = spawnIdx) ↔ (rendezvous.waiting spawnIdx).isSome
  blueprint : ∀ incChan ∈ system.incompleteChannels origin.object,
    ∀ first ∈ rendezvous.waiting incChan.spawnIndex,
      Carries incChan.toChannel first ∧ first.received.2 = 0 ∧ first.endpoint ≠ none ∧
        incChan.originEndpoints 0 = first.endpoint ∧ incChan.originEndpoints 1 = none
  met : rendezvous.met = []
  called : ∀ earlier ∈ before,
    ∃ first ∈ rendezvous.waiting earlier.spawnIdx, first.endpoint = earlier.endpoint
  caller : ∀ spawnIdx, (rendezvous.waiting spawnIdx).isSome →
    ∃ earlier ∈ before, earlier.spawnIdx = spawnIdx

theorem Follows.agrees (h : Follows origin start system rendezvous before) :
    Agrees origin.object start system rendezvous where
  distinct := h.distinct
  waiting := h.waiting
  carries := fun incChan hmem first hfirst => (h.blueprint incChan hmem first hfirst).1
  met := by
    refine ⟨[], nodup_nil, ?_, ?_, by simp⟩
    · rw [h.met]
      exact List.Forall₂.nil
    · intro device channel hchannel
      rw [h.channels] at hchannel
      exact .inl hchannel

theorem follows_idle (h : start.incompleteChannels origin.object = []) :
    Follows origin start start Rendezvous.idle [] where
  parent := rfl
  channels := rfl
  distinct := by simp [h]
  waiting := by simp [h, Rendezvous.idle]
  blueprint := by simp [h]
  met := rfl
  called := by simp
  caller := by simp [Rendezvous.idle]

theorem Follows.alone_iff (h : Follows origin start system rendezvous before) :
    Alone before call ↔
      match rendezvous.waiting call.spawnIdx with
      | none => Created call
      | some first => first.endpoint = call.endpoint := by
  cases hwaiting : rendezvous.waiting call.spawnIdx with
  | none =>
    have hnever : ∀ earlier ∈ before, earlier.spawnIdx ≠ call.spawnIdx := by
      intro earlier hearlier heq
      obtain ⟨first, hfirst, -⟩ := h.called earlier hearlier
      rw [heq, hwaiting] at hfirst
      cases hfirst
    constructor
    · rintro ⟨-, hcreated⟩
      exact hcreated hnever
    · intro hcreated
      exact ⟨fun earlier hearlier heq => absurd heq (hnever earlier hearlier),
        fun _ => hcreated⟩
  | some first =>
    obtain ⟨earlier, hearlier, hidx⟩ := h.caller call.spawnIdx (by simp [hwaiting])
    have hsame : ∀ other ∈ before, other.spawnIdx = call.spawnIdx →
        first.endpoint = other.endpoint := by
      intro other hother heq
      obtain ⟨first', hfirst', hendpoint⟩ := h.called other hother
      rw [heq, hwaiting] at hfirst'
      cases hfirst'
      exact hendpoint
    constructor
    · rintro ⟨hendpoint, -⟩
      exact (hsame earlier hearlier hidx).trans (hendpoint earlier hearlier hidx)
    · intro hendpoint
      refine ⟨?_, ?_⟩
      · intro other hother heq
        exact (hsame other hother heq).symm.trans hendpoint
      · intro hnever
        exact absurd hidx (hnever earlier hearlier)

variable {received : Endpoint} {first : Waiting}

variable (h : Follows origin start system rendezvous before)

include h

theorem Follows.update
    {list : List IncompleteChannel} (hdistinct : (list.map (·.spawnIndex)).Nodup)
    (hindexes : ∀ spawnIdx, (∃ incChan ∈ list, incChan.spawnIndex = spawnIdx) ↔
      spawnIdx = call.spawnIdx ∨
        ∃ incChan ∈ system.incompleteChannels origin.object, incChan.spawnIndex = spawnIdx)
    (hlist : ∀ incChan ∈ list, (incChan.spawnIndex = call.spawnIdx ∧ incChan.object = received.1 ∧
        incChan.anchors 0 = some call.anchor ∧ incChan.originEndpoints 0 = call.endpoint ∧
          incChan.originEndpoints 1 = none) ∨
      (incChan ∈ system.incompleteChannels origin.object ∧ incChan.spawnIndex ≠ call.spawnIdx))
    (hreceived : received.2 = 0) (hendpoint : call.endpoint ≠ none)
    (hsame : ∀ earlier ∈ before, earlier.spawnIdx = call.spawnIdx →
      earlier.endpoint = call.endpoint) :
    Follows origin start (setIncomplete system origin.object list)
      { rendezvous with
        waiting := update rendezvous.waiting call.spawnIdx
          (some ⟨call.endpoint, call.anchor, received⟩) } (before ++ [call]) where
  parent := h.parent
  channels := h.channels
  distinct := by simpa [setIncomplete] using hdistinct
  waiting := by
    intro spawnIdx
    simp only [setIncomplete, update_self, hindexes, h.waiting, update_apply]
    split
    · rename_i heq
      simp [heq]
    · rename_i hne
      simp [hne]
  blueprint := by
    intro incChan hmem first hfirst
    simp only [setIncomplete, update_self] at hmem
    dsimp only at hfirst
    rcases hlist incChan hmem with ⟨hidx, hobject, hanchor, horigin, hempty⟩ | ⟨hold, hne⟩
    · rw [hidx, update_self] at hfirst
      cases hfirst
      refine ⟨⟨hobject, ?_⟩, hreceived, hendpoint, horigin, hempty⟩
      rw [hreceived]
      exact hanchor
    · rw [update_of_ne hne] at hfirst
      exact h.blueprint incChan hold first hfirst
  met := h.met
  called := by
    intro earlier hearlier
    rcases eq_or_ne earlier.spawnIdx call.spawnIdx with hidx | hne
    · refine ⟨⟨call.endpoint, call.anchor, received⟩, by simp [hidx], ?_⟩
      rcases mem_append.mp hearlier with hbefore | hlast
      · exact (hsame earlier hbefore hidx).symm
      · rw [mem_singleton.mp hlast]
    · rcases mem_append.mp hearlier with hbefore | hlast
      · obtain ⟨first, hfirst, heq⟩ := h.called earlier hbefore
        exact ⟨first, by simpa [update_of_ne hne] using hfirst, heq⟩
      · exact absurd (congrArg Call.spawnIdx (mem_singleton.mp hlast)) hne
  caller := by
    intro spawnIdx hsome
    rcases eq_or_ne spawnIdx call.spawnIdx with rfl | hne
    · exact ⟨call, by simp, rfl⟩
    · simp only [update_of_ne hne] at hsome
      obtain ⟨earlier, hearlier, hidx⟩ := h.caller spawnIdx hsome
      exact ⟨earlier, mem_append_left _ hearlier, hidx⟩

theorem Follows.getIncomplete_none (hwaiting : rendezvous.waiting call.spawnIdx = none) :
    getIncompleteChannelBySpawnIndex (system.incompleteChannels origin.object) call.spawnIdx =
      none := by
  rw [getIncompleteChannelBySpawnIndex_eq_none]
  intro incChan hmem hidx
  have hsome := (h.waiting call.spawnIdx).mp ⟨incChan, hmem, hidx⟩
  rw [hwaiting] at hsome
  cases hsome

theorem Follows.getIncomplete_some (hwaiting : rendezvous.waiting call.spawnIdx = some first) :
    ∃ incChan ∈ system.incompleteChannels origin.object, incChan.spawnIndex = call.spawnIdx ∧
      getIncompleteChannelBySpawnIndex (system.incompleteChannels origin.object) call.spawnIdx =
        some incChan ∧
      incChan.originEndpoints 0 = first.endpoint ∧ incChan.originEndpoints 1 = none ∧
        first.endpoint ≠ none := by
  cases hget : getIncompleteChannelBySpawnIndex (system.incompleteChannels origin.object)
      call.spawnIdx with
  | none =>
    obtain ⟨incChan, hmem, hidx⟩ := (h.waiting call.spawnIdx).mpr (by simp [hwaiting])
    exact absurd hidx (getIncompleteChannelBySpawnIndex_eq_none.mp hget incChan hmem)
  | some incChan =>
    obtain ⟨hmem, hidx⟩ := mem_of_getIncompleteChannelBySpawnIndex hget
    obtain ⟨-, -, hne, horigin, hempty⟩ :=
      h.blueprint incChan hmem first (by rw [hidx]; exact hwaiting)
    exact ⟨incChan, hmem, hidx, rfl, horigin, hempty, hne⟩

omit h

theorem MadeFrom.spawnEndpoint_eq (hfrom : MadeFrom origin system call) :
    spawnEndpoint system call =
      match getIncompleteChannelBySpawnIndex (system.incompleteChannels origin.object)
          call.spawnIdx with
      | none =>
        match createIncompleteChannel origin.type (system.incompleteChannels origin.object)
            call with
        | none => (.faulted, system)
        | some incChan =>
          (.returned .success (some (incChan.object, 0)),
            if call.inserted then
              setIncomplete system origin.object
                (setOrigin 0 call.endpoint (anchorEnd 0 call.anchor incChan) ::
                  system.incompleteChannels origin.object)
            else system)
      | some incChan =>
        match claimedIdx incChan call.endpoint with
        | some i =>
          (.returned .success (some (incChan.object, i)), setIncomplete system origin.object
              (onIncomplete call.spawnIdx (anchorEnd i call.anchor)
                (system.incompleteChannels origin.object)))
        | none =>
          match emptyEndpointIdx incChan with
          | none => (.faulted, system)
          | some i => spawnSecond system origin incChan call i := by
  obtain ⟨hdriver, -, hchannel⟩ := hfrom
  simp only [spawnEndpoint, hdriver, hchannel, Bool.true_eq_false, if_false]
  rfl

theorem Call.endpoint_ne_none (hfrom : MadeFrom origin system call) : call.endpoint ≠ none := by
  obtain ⟨-, ⟨i, hi⟩, -⟩ := hfrom
  rw [hi]
  exact Option.some_ne_none _

variable (h : Follows origin start system rendezvous before)

include h

variable (hfrom : MadeFrom origin system call)

include hfrom

theorem Follows.spawn_first (hwaiting : rendezvous.waiting call.spawnIdx = none)
    (hcreated : Created call) :
    ∃ received next, spawnEndpoint system call = (.returned .success (some received), next) ∧
      Follows origin start next (rendezvous.call call received) (before ++ [call]) := by
  obtain ⟨hfresh, hinitialized, hinserted⟩ := hcreated
  obtain ⟨object, hobject⟩ := Option.isSome_iff_exists.mp hfresh
  have hget := h.getIncomplete_none hwaiting
  have hnever := getIncompleteChannelBySpawnIndex_eq_none.mp hget
  rw [hfrom.spawnEndpoint_eq]
  simp only [hget, createIncompleteChannel, hobject, hinitialized, hinserted, if_true]
  refine ⟨_, _, rfl, ?_⟩
  simp only [Rendezvous.call, hwaiting]
  refine h.update ?_ ?_ ?_ rfl (Call.endpoint_ne_none hfrom) ?_
  · rw [map_cons, nodup_cons]
    refine ⟨?_, h.distinct⟩
    intro hmem
    obtain ⟨incChan, hincChan, hidx⟩ := mem_map.mp hmem
    exact hnever incChan hincChan hidx
  · intro spawnIdx
    simp [setOrigin, anchorEnd, eq_comm]
  · intro incChan hmem
    rcases mem_cons.mp hmem with rfl | hold
    · exact .inl ⟨rfl, rfl, rfl, rfl, rfl⟩
    · exact .inr ⟨hold, hnever incChan hold⟩
  · intro earlier hearlier hidx
    obtain ⟨first, hfirst, -⟩ := h.called earlier hearlier
    rw [hidx, hwaiting] at hfirst
    cases hfirst

theorem Follows.spawn_again (hwaiting : rendezvous.waiting call.spawnIdx = some first)
    (hendpoint : first.endpoint = call.endpoint) :
    ∃ received next, spawnEndpoint system call = (.returned .success (some received), next) ∧
      Follows origin start next (rendezvous.call call received) (before ++ [call]) := by
  obtain ⟨incChan, hmem, hidx, hget, horigin, hempty, -⟩ := h.getIncomplete_some hwaiting
  have hclaimed : claimedIdx incChan call.endpoint = some 0 := by
    rw [claimedIdx, horigin, if_pos hendpoint]
  rw [hfrom.spawnEndpoint_eq]
  simp only [hget, hclaimed]
  refine ⟨_, _, rfl, ?_⟩
  simp only [Rendezvous.call, hwaiting, hendpoint, if_true]
  have hindexes : (onIncomplete call.spawnIdx (anchorEnd 0 call.anchor)
      (system.incompleteChannels origin.object)).map (·.spawnIndex) =
      (system.incompleteChannels origin.object).map (·.spawnIndex) :=
    map_spawnIndex_onIncomplete fun _ => rfl
  refine h.update ?_ ?_ ?_ rfl (Call.endpoint_ne_none hfrom) ?_
  · rw [hindexes]
    exact h.distinct
  · intro spawnIdx
    have hiff : (∃ incChan ∈ onIncomplete call.spawnIdx (anchorEnd 0 call.anchor)
        (system.incompleteChannels origin.object), incChan.spawnIndex = spawnIdx) ↔
        ∃ incChan ∈ system.incompleteChannels origin.object, incChan.spawnIndex = spawnIdx := by
      rw [← mem_map, ← mem_map, hindexes]
    rw [hiff]
    constructor
    · exact .inr
    · rintro (rfl | hold)
      · exact ⟨incChan, hmem, hidx⟩
      · exact hold
  · intro changed hchanged
    rcases mem_onIncomplete h.distinct hchanged with ⟨old, hold, holdIdx, rfl⟩ | hother
    · obtain rfl : old = incChan :=
        inj_on_of_nodup_map h.distinct hold hmem (holdIdx.trans hidx.symm)
      exact .inl ⟨hidx, rfl, rfl, horigin.trans hendpoint, hempty⟩
    · exact .inr hother
  · intro earlier hearlier heq
    obtain ⟨first', hfirst', hsame⟩ := h.called earlier hearlier
    rw [heq, hwaiting] at hfirst'
    cases hfirst'
    exact hsame.symm.trans hendpoint

theorem Follows.spawn_other (hwaiting : rendezvous.waiting call.spawnIdx = some first)
    (hendpoint : first.endpoint ≠ call.endpoint) : (spawnEndpoint system call).1 = .panicked := by
  obtain ⟨incChan, -, -, hget, horigin, hempty, -⟩ := h.getIncomplete_some hwaiting
  have hclaimed : claimedIdx incChan call.endpoint = none := by
    rw [claimedIdx, horigin, if_neg hendpoint, hempty, if_neg (Call.endpoint_ne_none hfrom).symm]
  have hidx : emptyEndpointIdx incChan = some 1 := by rw [emptyEndpointIdx, if_pos hempty]
  rw [hfrom.spawnEndpoint_eq]
  simp only [hget, hclaimed, hidx]
  have hnull : (anchorEnd 1 call.anchor incChan).originEndpoints 1 = none := hempty
  rw [spawnSecond, if_pos (.inr hnull)]

theorem Follows.not_created (hwaiting : rendezvous.waiting call.spawnIdx = none) {next : System}
    (hspawn : spawnEndpoint system call = (.returned .success (some received), next))
    (hagrees : Agrees origin.object start next (rendezvous.call call received)) : Created call := by
  have hget := h.getIncomplete_none hwaiting
  rw [hfrom.spawnEndpoint_eq] at hspawn
  simp only [hget, createIncompleteChannel] at hspawn
  cases hfresh : call.fresh with
  | none => simp [hfresh] at hspawn
  | some object =>
    cases hinitialized : call.initialized with
    | false => simp [hfresh, hinitialized] at hspawn
    | true =>
      cases hinserted : call.inserted with
      | true => exact ⟨by simp [hfresh], hinitialized, hinserted⟩
      | false =>
        simp only [hfresh, hinitialized, hinserted, if_true, Prod.mk.injEq] at hspawn
        obtain ⟨-, rfl⟩ := hspawn
        have hsome : ((rendezvous.call call received).waiting call.spawnIdx).isSome := by
          simp [Rendezvous.call, hwaiting]
        obtain ⟨incChan, hmem, hidx⟩ := (hagrees.waiting call.spawnIdx).mpr hsome
        exact absurd hidx (getIncompleteChannelBySpawnIndex_eq_none.mp hget incChan hmem)

omit hfrom

theorem MadeFrom.of_follows (hfrom : MadeFrom origin start call) : MadeFrom origin system call := by
  rw [MadeFrom, h.channels, h.parent]
  exact hfrom

omit h

theorem Meets.cons_iff {calls : List Call} {next : System}
    (hspawn : spawnEndpoint system call = (.returned .success (some received), next)) :
    Meets origin.object start system rendezvous (call :: calls) ↔
      Agrees origin.object start next (rendezvous.call call received) ∧
        Meets origin.object start next (rendezvous.call call received) calls := by
  rw [Meets, hspawn]

theorem Follows.step (h : Follows origin start system rendezvous before)
    (hfrom : MadeFrom origin start call) (calls : List Call) : (Alone before call ∧ ∃ received next,
        Follows origin start next (rendezvous.call call received) (before ++ [call]) ∧
          (Meets origin.object start system rendezvous (call :: calls) ↔
            Meets origin.object start next (rendezvous.call call received) calls)) ∨
      ¬ Alone before call ∧ ¬ Meets origin.object start system rendezvous (call :: calls) := by
  have hfrom' := hfrom.of_follows h
  have hcontinue : (∃ received next,
      spawnEndpoint system call = (.returned .success (some received), next) ∧
        Follows origin start next (rendezvous.call call received) (before ++ [call])) →
      ∃ received next,
        Follows origin start next (rendezvous.call call received) (before ++ [call]) ∧
          (Meets origin.object start system rendezvous (call :: calls) ↔
            Meets origin.object start next (rendezvous.call call received) calls) := by
    rintro ⟨received, next, hspawn, hfollows⟩
    refine ⟨received, next, hfollows, ?_⟩
    rw [Meets.cons_iff hspawn]
    exact and_iff_right hfollows.agrees
  rw [h.alone_iff]
  cases hwaiting : rendezvous.waiting call.spawnIdx with
  | none =>
    rcases em (Created call) with hcreated | hcreated
    · exact .inl ⟨hcreated, hcontinue (h.spawn_first hfrom' hwaiting hcreated)⟩
    refine .inr ⟨hcreated, ?_⟩
    intro hmeets
    rw [Meets] at hmeets
    split at hmeets
    · rename_i received next hspawn
      exact hcreated (h.not_created hfrom' hwaiting hspawn hmeets.1)
    · exact hmeets
  | some first =>
    rcases eq_or_ne first.endpoint call.endpoint with hendpoint | hendpoint
    · exact .inl ⟨hendpoint, hcontinue (h.spawn_again hfrom' hwaiting hendpoint)⟩
    refine .inr ⟨hendpoint, ?_⟩
    intro hmeets
    have hpanicked := h.spawn_other hfrom' hwaiting hendpoint
    rw [Meets] at hmeets
    split at hmeets
    · rename_i received next hspawn
      rw [hspawn] at hpanicked
      cases hpanicked
    · exact hmeets

theorem Follows.meets_iff (h : Follows origin start system rendezvous before) {calls : List Call}
    (hcalls : ∀ call ∈ calls, MadeFrom origin start call) :
    Meets origin.object start system rendezvous calls ↔
      ∀ between call after, calls = between ++ call :: after → Alone (before ++ between) call := by
  induction calls generalizing system rendezvous before with
  | nil =>
    refine iff_of_true trivial ?_
    intro between call after heq
    simp at heq
  | cons head calls ih =>
    have hhead := hcalls head mem_cons_self
    have hrest : ∀ call ∈ calls, MadeFrom origin start call :=
      fun call hcall => hcalls call (mem_cons_of_mem _ hcall)
    rcases h.step hhead calls with ⟨halone, received, next, hnext, hiff⟩ | ⟨halone, hmeets⟩
    · rw [hiff, ih hnext hrest]
      constructor
      · intro hall between call after heq
        cases between with
        | nil =>
          obtain ⟨rfl, -⟩ := cons.inj heq
          rwa [append_nil]
        | cons first between =>
          obtain ⟨rfl, htail⟩ := cons.inj heq
          have := hall between call after htail
          rwa [append_assoc] at this
      · intro hall between call after heq
        have := hall (head :: between) call after (by rw [heq, cons_append])
        rwa [append_assoc]
    · refine iff_of_false hmeets ?_
      intro hall
      have := hall [] head calls rfl
      rw [append_nil] at this
      exact halone this

/-- The calls at the two ends of a channel get their channels exactly when no spawn index is used
at both ends, and every blueprint is allocated. -/
theorem meets_iff_alone (hstart : start.incompleteChannels origin.object = []) {calls : List Call}
    (hcalls : ∀ call ∈ calls, MadeFrom origin start call) :
    Meets origin.object start start Rendezvous.idle calls ↔
      ∀ before call after, calls = before ++ call :: after → Alone before call :=
  (follows_idle hstart).meets_iff hcalls

end

def bindChannel : Channel where
  object := 1
  type := .d2d
  metaName := []
  anchors := fun i => some ⟨if i = 0 then 2 else 3, 6, 0⟩

def twoRegions : System where
  parent := fun region => if region = 2 then 4 else 5
  channels := fun _ => [bindChannel]
  incompleteChannels := fun _ => []

def spawnCall (i : Fin 2) (spawnIdx : UInt8) (fresh : Ptr) : Call where
  isDriver := true
  region := if i = 0 then 2 else 3
  endpoint := some (1, i)
  metaName := []
  spawnIdx := spawnIdx
  opsVector := 7
  context := 8
  fresh := some fresh
  initialized := true
  inserted := true
  channelAdded := fun _ => true
  endpointAdded := fun _ => true

theorem madeFrom_spawnCall (i : Fin 2) (spawnIdx : UInt8) (fresh : Ptr) :
    MadeFrom bindChannel twoRegions (spawnCall i spawnIdx fresh) :=
  ⟨rfl, ⟨i, rfl⟩, rfl⟩

theorem meets_spawnCall_twice :
    Meets 1 twoRegions twoRegions Rendezvous.idle [spawnCall 0 7 16, spawnCall 0 7 32] := by
  have hcalls : ∀ call ∈ [spawnCall 0 7 16, spawnCall 0 7 32],
      MadeFrom bindChannel twoRegions call := by
    simp [madeFrom_spawnCall]
  refine (meets_iff_alone rfl hcalls).mpr ?_
  intro before call after heq
  have hsame : ∀ other ∈ [spawnCall 0 7 16, spawnCall 0 7 32],
      other.endpoint = some (1, 0) ∧ Created other := by
    simp [spawnCall, Created]
  have hcall := hsame call (by rw [heq]; simp)
  refine ⟨?_, fun _ => hcall.2⟩
  intro earlier hearlier _
  rw [hcall.1]
  exact (hsame earlier (by rw [heq]; simp [hearlier])).1

theorem both_ends_panic : ¬ ∀ (origin : Channel) (start : System) (calls : List Call),
      start.incompleteChannels origin.object = [] → (∀ call ∈ calls, MadeFrom origin start call) →
          Meets origin.object start start Rendezvous.idle calls := by
  intro hclaim
  have hmeets := hclaim bindChannel twoRegions [spawnCall 0 7 16, spawnCall 1 7 32] rfl
    (by simp [madeFrom_spawnCall])
  exact hmeets.2

end Zambesii.ChannelSpawn
