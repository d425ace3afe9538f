import Mathlib.Data.List.Count
import Zambesii.ChannelSpawn

/-!
`Zudi::createChannel`, with the lists of both kinds that it inserts into: the channels of the
device instances and the endpoints of the regions.
-/

namespace Zambesii.ChannelCreate

open KernelTypes
open LinkedCells (Ptr)
open ChannelSpawn (Anchor Channel ChannelType Endpoint IncompleteChannel System Call
  addChannel anchorVoid)

/-- The channels of every device instance are in `system`, the endpoints are those of every
region. -/
structure Lists where
  system : System
  endpoints : Ptr → List Endpoint

/-- An `IncompleteD2DChannel` whose two ends have been given their regions. -/
structure Blueprint extends IncompleteChannel where
  ends : Fin 2 → Anchor
  anchors_eq : ∀ i, anchors i = some (ends i)
  region_ne : ∀ i, (ends i).target ≠ 0
  type_eq : type = .d2d

structure Insertions where
  channelAdded : Fin 2 → Bool
  endpointAdded : Fin 2 → Bool

def firstEnd : Fin 2 := ⟨0, Nat.zero_lt_two⟩

def secondEnd : Fin 2 := ⟨1, Nat.one_lt_two⟩

@[simp] theorem firstEnd_eq : firstEnd = 0 := rfl

@[simp] theorem secondEnd_eq : secondEnd = 1 := rfl

def Blueprint.device (bprint : Blueprint) (lists : Lists) (i : Fin 2) : Ptr :=
  lists.system.parent (bprint.ends i).target

def addChannelTo (lists : Lists) (device : Ptr) (channel : Channel) (added : Bool) :
    Kerror × Lists :=
  let (ret, system) := addChannel lists.system device channel added
  (ret, { lists with system })

def addEndpoint (lists : Lists) (region : Ptr) (endp : Endpoint) (added : Bool) : Kerror × Lists :=
  if added then
    (.success, { lists with
      endpoints := Function.update lists.endpoints region (endp :: lists.endpoints region) })
  else (.memoryNomem, lists)

def Blueprint.isAnchored (bprint : Blueprint) (i : Fin 2) : Bool :=
  (bprint.ends i).opsVector ≠ 0 && (bprint.ends i).target ≠ 0

def anchor (lists : Lists) (bprint : Blueprint) (i : Fin 2) (added : Bool) : Kerror × Lists :=
  if bprint.isAnchored i then
    addEndpoint lists (bprint.ends i).target (bprint.object, i) added
  else (.uninitialized, lists)

def addToDevices (lists : Lists) (bprint : Blueprint) (channelAdded : Fin 2 → Bool) :
    Kerror × Kerror × Lists :=
  let (ret0, lists0) :=
    addChannelTo lists (bprint.device lists firstEnd) bprint.toChannel (channelAdded firstEnd)
  if bprint.device lists firstEnd ≠ bprint.device lists secondEnd then
    let (ret1, lists1) :=
      addChannelTo lists0 (bprint.device lists secondEnd) bprint.toChannel (channelAdded secondEnd)
    (ret0, ret1, lists1)
  else (ret0, ret0, lists0)

def anchorEnds (lists : Lists) (bprint : Blueprint) (endpointAdded : Fin 2 → Bool) :
    Kerror × Kerror × Lists :=
  let (ret0, lists0) := anchor lists bprint firstEnd (endpointAdded firstEnd)
  let (ret1, lists1) := anchor lists0 bprint secondEnd (endpointAdded secondEnd)
  (ret0, ret1, lists1)

/-- `Zudi::createChannel`: the error, what it stores in `*retchan`, and the lists. `retchan` is
false for a `NULL` pointer. The two endpoints are different members of the channel, so that the
assertion between the two kinds of insertions holds. -/
def createChannel (lists : Lists) (bprint : Option Blueprint) (retchan : Bool)
    (insertions : Insertions) : Kerror × Option Ptr × Lists :=
  match bprint with
  | none => (.invalidArg, none, lists)
  | some bprint =>
    if retchan = false then (.invalidArg, none, lists)
    else
      let (ret0, ret1, added) := addToDevices lists bprint insertions.channelAdded
      if ret0 ≠ .success ∨ ret1 ≠ .success then (.initializationFailure, none, added)
      else
        let (ret0, ret1, anchored) := anchorEnds added bprint insertions.endpointAdded
        if ret0 ≠ .success ∨ ret1 ≠ .success then (.initializationFailure, none, anchored)
        else (.success, some bprint.object, anchored)

def Lists.timesListed (lists : Lists) (device object : Ptr) : Nat :=
  (lists.system.channels device).countP (·.object == object)

structure Listed (lists : Lists) (bprint : Blueprint) : Prop where
  channel : ∀ i, lists.timesListed (bprint.device lists i) bprint.object = 1
  endpoint : ∀ i, (bprint.object, i) ∈ lists.endpoints (bprint.ends i).target

def Right (before : Lists) (bprint : Option Blueprint) (outcome : Kerror × Option Ptr × Lists) :
    Prop :=
  (outcome.1 = .success ∧ ∃ given ∈ bprint, Listed outcome.2.2 given) ∨
    (outcome.1 ≠ .success ∧ outcome.2.2 = before)

def NoneAdded (lists : Lists) (bprint : Blueprint) (insertions : Insertions) : Prop :=
  insertions.channelAdded firstEnd = false ∧
    (bprint.device lists firstEnd = bprint.device lists secondEnd ∨
      insertions.channelAdded secondEnd = false)

/-- Every insertion that is tried gets its node, both ends have their ops vectors, and the channel
is not listed yet. -/
structure AllAdded (lists : Lists) (bprint : Blueprint) (insertions : Insertions) : Prop where
  channel0 : insertions.channelAdded firstEnd = true
  channel1 : bprint.device lists firstEnd = bprint.device lists secondEnd ∨
    insertions.channelAdded secondEnd = true
  endpoint : ∀ i, insertions.endpointAdded i = true
  opsVector : ∀ i, (bprint.ends i).opsVector ≠ 0
  fresh : ∀ i, ∀ channel ∈ lists.system.channels (bprint.device lists i),
    channel.object ≠ bprint.object

section

variable {lists : Lists} {bprint : Blueprint} {channelAdded : Fin 2 → Bool} {ret0 ret1 : Kerror}
  {after : Lists}

def Lists.withChannel (lists : Lists) (device : Ptr) (channel : Channel) : Lists :=
  { lists with system := { lists.system with
    channels := Function.update lists.system.channels device
      (channel :: lists.system.channels device) } }

theorem addChannelTo_eq (device : Ptr) (channel : Channel) (added : Bool) :
    addChannelTo lists device channel added =
      if added then (.success, lists.withChannel device channel) else (.memoryNomem, lists) := by
  cases added with
  | false => rfl
  | true => rfl

@[simp] theorem withChannel_endpoints (device : Ptr) (channel : Channel) :
    (lists.withChannel device channel).endpoints = lists.endpoints := rfl

@[simp] theorem withChannel_parent (device : Ptr) (channel : Channel) :
    (lists.withChannel device channel).system.parent = lists.system.parent := rfl

theorem timesListed_withChannel_self (device : Ptr) (channel : Channel) :
    (lists.withChannel device channel).timesListed device channel.object =
      lists.timesListed device channel.object + 1 := by
  simp [Lists.timesListed, Lists.withChannel]

theorem timesListed_withChannel_of_ne {device other : Ptr} (h : other ≠ device)
    (channel : Channel) (object : Ptr) :
    (lists.withChannel device channel).timesListed other object =
      lists.timesListed other object := by
  simp [Lists.timesListed, Lists.withChannel, h]

structure Grown (lists : Lists) (bprint : Blueprint) (after : Lists) : Prop where
  listed : ∀ i, after.timesListed (bprint.device lists i) bprint.object =
    lists.timesListed (bprint.device lists i) bprint.object + 1
  endpoints : after.endpoints = lists.endpoints
  parent : after.system.parent = lists.system.parent

theorem Grown.of_eq (h : bprint.device lists 0 = bprint.device lists 1) :
    Grown lists bprint (lists.withChannel (bprint.device lists 0) bprint.toChannel) := by
  refine ⟨Fin.forall_fin_two.2 ⟨?_, ?_⟩, rfl, rfl⟩
  · exact timesListed_withChannel_self _ bprint.toChannel
  · rw [← h]
    exact timesListed_withChannel_self _ bprint.toChannel

theorem Grown.of_ne (h : bprint.device lists 0 ≠ bprint.device lists 1) :
    Grown lists bprint ((lists.withChannel (bprint.device lists 0) bprint.toChannel).withChannel
      (bprint.device lists 1) bprint.toChannel) := by
  refine ⟨Fin.forall_fin_two.2 ⟨?_, ?_⟩, rfl, rfl⟩
  · exact (timesListed_withChannel_of_ne h _ _).trans
      (timesListed_withChannel_self _ bprint.toChannel)
  · refine (timesListed_withChannel_self _ bprint.toChannel).trans ?_
    rw [timesListed_withChannel_of_ne h.symm]

theorem addToDevices_cases (h : addToDevices lists bprint channelAdded = (ret0, ret1, after)) :
    (ret0 = .success ∧ ret1 = .success ∧ channelAdded 0 = true ∧
        (bprint.device lists 0 = bprint.device lists 1 ∨ channelAdded 1 = true) ∧
        Grown lists bprint after) ∨ ((ret0 ≠ .success ∨ ret1 ≠ .success) ∧ channelAdded 0 = false ∧
        (bprint.device lists 0 = bprint.device lists 1 ∨ channelAdded 1 = false) ∧ after = lists) ∨
      ((ret0 ≠ .success ∨ ret1 ≠ .success) ∧
        bprint.device lists 0 ≠ bprint.device lists 1 ∧ channelAdded 0 ≠ channelAdded 1 ∧
        ∃ device, after.timesListed device bprint.object =
          lists.timesListed device bprint.object + 1) := by
  simp only [addToDevices, addChannelTo_eq, firstEnd_eq, secondEnd_eq] at h
  rcases eq_or_ne (bprint.device lists 0) (bprint.device lists 1) with hdevice | hdevice
  · rw [if_neg (not_not.2 hdevice)] at h
    cases h0 : channelAdded 0 with
    | false =>
      simp only [h0, Bool.false_eq_true, if_false] at h
      cases h
      exact .inr (.inl ⟨.inl (by decide), rfl, .inl hdevice, rfl⟩)
    | true =>
      simp only [h0, if_true] at h
      cases h
      exact .inl ⟨rfl, rfl, rfl, .inl hdevice, Grown.of_eq hdevice⟩
  rw [if_pos hdevice] at h
  cases h0 : channelAdded 0 with
  | false =>
    cases h1 : channelAdded 1 with
    | false =>
      simp only [h0, h1, Bool.false_eq_true, if_false] at h
      cases h
      exact .inr (.inl ⟨.inl (by decide), rfl, .inr rfl, rfl⟩)
    | true =>
      simp only [h0, h1, Bool.false_eq_true, if_false, if_true] at h
      cases h
      refine .inr (.inr ⟨.inl (by decide), hdevice, by decide,
        bprint.device lists 1, ?_⟩)
      exact timesListed_withChannel_self _ bprint.toChannel
  | true =>
    cases h1 : channelAdded 1 with
    | false =>
      simp only [h0, h1, Bool.false_eq_true, if_false, if_true] at h
      cases h
      refine .inr (.inr ⟨.inr (by decide), hdevice, by decide,
        bprint.device lists 0, ?_⟩)
      exact timesListed_withChannel_self _ bprint.toChannel
    | true =>
      simp only [h0, h1, if_true] at h
      cases h
      exact .inl ⟨rfl, rfl, rfl, .inr rfl, Grown.of_ne hdevice⟩

end

section

variable {lists after : Lists} {bprint : Blueprint} {i : Fin 2} {added : Bool}
  {endpointAdded : Fin 2 → Bool} {ret ret0 ret1 : Kerror}

structure Extends (lists after : Lists) : Prop where
  system : after.system = lists.system
  endpoints : ∀ region, lists.endpoints region ⊆ after.endpoints region

theorem Extends.refl (lists : Lists) : Extends lists lists :=
  ⟨rfl, fun _ => List.Subset.refl _⟩

theorem Extends.trans {middle : Lists} (h : Extends lists middle) (h' : Extends middle after) :
    Extends lists after :=
  ⟨h'.system.trans h.system,
    fun region => List.Subset.trans (h.endpoints region) (h'.endpoints region)⟩

theorem isAnchored_iff : bprint.isAnchored i = true ↔ (bprint.ends i).opsVector ≠ 0 := by
  simp [Blueprint.isAnchored, bprint.region_ne i]

theorem addEndpoint_extends {region : Ptr} {endp : Endpoint}
    (h : addEndpoint lists region endp added = (ret, after)) : Extends lists after := by
  rw [addEndpoint] at h
  split at h
  · cases h
    refine ⟨rfl, ?_⟩
    intro other
    rcases eq_or_ne other region with rfl | hother
    · simp
    · simp [hother]
  · cases h
    exact Extends.refl lists

theorem anchor_spec (h : anchor lists bprint i added = (ret, after)) : Extends lists after ∧
      (ret = .success ↔ (bprint.ends i).opsVector ≠ 0 ∧ added = true) ∧
      (ret = .success → (bprint.object, i) ∈ after.endpoints (bprint.ends i).target) := by
  rw [anchor] at h
  split at h
  · next hanchored =>
    refine ⟨addEndpoint_extends h, ?_⟩
    rw [isAnchored_iff] at hanchored
    rw [addEndpoint] at h
    split at h
    · next hadded =>
      cases h
      simp [hanchored, hadded]
    · next hadded =>
      cases h
      simp [hadded]
  · next hanchored =>
    cases h
    rw [isAnchored_iff] at hanchored
    exact ⟨Extends.refl lists, by simp [hanchored], by simp⟩

theorem anchorEnds_spec (h : anchorEnds lists bprint endpointAdded = (ret0, ret1, after)) :
    after.system = lists.system ∧ ((ret0 = .success ∧ ret1 = .success) ↔
        ∀ i, (bprint.ends i).opsVector ≠ 0 ∧ endpointAdded i = true) ∧
      (ret0 = .success → ret1 = .success →
        ∀ i, (bprint.object, i) ∈ after.endpoints (bprint.ends i).target) := by
  simp only [anchorEnds, firstEnd_eq, secondEnd_eq] at h
  rcases hfirst : anchor lists bprint 0 (endpointAdded 0) with ⟨first, middle⟩
  rcases hsecond : anchor middle bprint 1 (endpointAdded 1) with ⟨second, last⟩
  simp only [hfirst, hsecond] at h
  cases h
  obtain ⟨hextends0, hiff0, hmem0⟩ := anchor_spec hfirst
  obtain ⟨hextends1, hiff1, hmem1⟩ := anchor_spec hsecond
  refine ⟨(hextends0.trans hextends1).system, ?_, ?_⟩
  · rw [hiff0, hiff1, Fin.forall_fin_two]
  · intro h0 h1
    refine Fin.forall_fin_two.2 ⟨?_, ?_⟩
    · exact hextends1.endpoints _ (hmem0 h0)
    · exact hmem1 h1

end

section

variable {lists : Lists} {bprint : Blueprint} {insertions : Insertions} {after : Lists}

theorem ne_of_timesListed {device object : Ptr}
    (h : after.timesListed device object = lists.timesListed device object + 1) :
    after ≠ lists := by
  rintro rfl
  omega

theorem timesListed_eq_zero_iff {device object : Ptr} : lists.timesListed device object = 0 ↔
      ∀ channel ∈ lists.system.channels device, channel.object ≠ object := by
  simp [Lists.timesListed, List.countP_eq_zero]

theorem right_of_failed {error : Kerror} (herror : error ≠ .success) (ret : Option Ptr) :
    Right lists (some bprint) (error, ret, after) ↔ after = lists := by
  simp [Right, herror]

theorem right_of_success (ret : Option Ptr) :
    Right lists (some bprint) (.success, ret, after) ↔ Listed after bprint := by
  simp [Right]

theorem listed_iff_fresh {added anchored : Lists} (hgrown : Grown lists bprint added)
    (hsystem : anchored.system = added.system)
    (hmem : ∀ i, (bprint.object, i) ∈ anchored.endpoints (bprint.ends i).target) :
    Listed anchored bprint ↔ ∀ i, ∀ channel ∈ lists.system.channels (bprint.device lists i),
      channel.object ≠ bprint.object := by
  have hdevice : ∀ i, bprint.device anchored i = bprint.device lists i := by
    intro i
    rw [Blueprint.device, Blueprint.device, hsystem, hgrown.parent]
  have htimes : ∀ i, anchored.timesListed (bprint.device anchored i) bprint.object =
      lists.timesListed (bprint.device lists i) bprint.object + 1 := by
    intro i
    rw [← hgrown.listed i, hdevice i, Lists.timesListed, Lists.timesListed, hsystem]
  constructor
  · intro h i
    have := h.channel i
    rw [htimes i] at this
    exact timesListed_eq_zero_iff.1 (by omega)
  · intro hfresh
    refine ⟨?_, hmem⟩
    intro i
    rw [htimes i, timesListed_eq_zero_iff.2 (hfresh i)]

/-- `createChannel` undoes none of its insertions: it is right exactly when no device instance gets
the channel, or when everything succeeds and the channel is new. -/
theorem createChannel_right_iff (lists : Lists) (bprint : Option Blueprint) (retchan : Bool)
    (insertions : Insertions) : Right lists bprint (createChannel lists bprint retchan insertions) ↔
      ∀ given ∈ bprint, retchan = true →
        NoneAdded lists given insertions ∨ AllAdded lists given insertions := by
  rcases bprint with _ | bprint
  · simp [createChannel, Right]
  rw [createChannel]
  cases retchan with
  | false => simp [Right]
  | true =>
    simp only [Bool.true_eq_false, if_false, Option.mem_def, Option.some.injEq, forall_eq',
      forall_const]
    rcases hadded : addToDevices lists bprint insertions.channelAdded with ⟨ret0, ret1, added⟩
    rcases addToDevices_cases hadded with ⟨rfl, rfl, h0, h1, hgrown⟩ | ⟨hret, h0, h1, rfl⟩ |
      ⟨hret, hdevice, hne, device, htimes⟩
    · simp only [ne_eq, not_true_eq_false, or_self, if_false]
      have hnone : ¬ NoneAdded lists bprint insertions := by
        rintro ⟨hfalse, -⟩
        simp [h0] at hfalse
      rcases hends : anchorEnds added bprint insertions.endpointAdded with ⟨ret0, ret1, anchored⟩
      obtain ⟨hsystem, hiff, hmem⟩ := anchorEnds_spec hends
      split
      · next hret =>
        rw [right_of_failed (by decide)]
        refine iff_of_false ?_ ?_
        · rintro rfl
          have := hgrown.listed 0
          rw [Lists.timesListed, Lists.timesListed, hsystem] at this
          omega
        · rintro (h | h)
          · exact hnone h
          · obtain ⟨h0, h1⟩ := hiff.2 fun i => ⟨h.opsVector i, h.endpoint i⟩
            exact hret.elim (· h0) (· h1)
      next hret =>
      rw [not_or, not_not, not_not] at hret
      rw [right_of_success, listed_iff_fresh hgrown hsystem (hmem hret.1 hret.2)]
      constructor
      · intro hfresh
        refine .inr ⟨h0, h1, ?_, ?_, hfresh⟩
        · exact fun i => (hiff.1 hret i).2
        · exact fun i => (hiff.1 hret i).1
      · rintro (h | h)
        · exact absurd h hnone
        · exact h.fresh
    · rw [if_pos hret, right_of_failed (by decide)]
      exact iff_of_true rfl (.inl ⟨h0, h1⟩)
    · rw [if_pos hret, right_of_failed (by decide)]
      refine iff_of_false (ne_of_timesListed htimes) ?_
      rintro (⟨h0, h1⟩ | ⟨h0, h1, -⟩)
      · exact hne (h0.trans (h1.resolve_left hdevice).symm)
      · exact hne (h0.trans (h1.resolve_left hdevice).symm)

def noChannels : Lists := ⟨⟨id, fun _ => [], fun _ => []⟩, fun _ => []⟩

def acrossDevices : Blueprint where
  object := 9
  type := .d2d
  metaName := []
  anchors i := some ⟨i.val + 1, 5, 0⟩
  spawnIndex := 0
  originEndpoints _ := none
  ends i := ⟨i.val + 1, 5, 0⟩
  anchors_eq _ := rfl
  region_ne i := by simp
  type_eq := rfl

/-- The second device instance has no list node left, and the first one keeps the channel that has
not been made. -/
theorem createChannel_first_device_keeps :
    (createChannel noChannels (some acrossDevices) true ⟨(· = 0), fun _ => true⟩).1 =
        .initializationFailure ∧
      ¬ Right noChannels (some acrossDevices)
        (createChannel noChannels (some acrossDevices) true ⟨(· = 0), fun _ => true⟩) := by
  refine ⟨rfl, ?_⟩
  rintro (⟨h, -⟩ | ⟨-, h⟩)
  · cases h
  · exact absurd (congrArg (Lists.timesListed · 1 9) h) (by decide)

end

section

variable {lists : Lists} {bprint : Blueprint}

theorem anchor_error (i : Fin 2) (added : Bool) :
    (anchor lists bprint i added).1 = anchorVoid (bprint.ends i) added := by
  have hregion := bprint.region_ne i
  rw [anchor, anchorVoid]
  rcases eq_or_ne (bprint.ends i).opsVector 0 with hops | hops
  · simp [Blueprint.isAnchored, hops]
  · cases added with
    | false => simp [Blueprint.isAnchored, hops, hregion, addEndpoint]
    | true => simp [Blueprint.isAnchored, hops, hregion, addEndpoint]

theorem createChannel_spawn (call : Call) :
    ChannelSpawn.createChannel lists.system bprint.toIncompleteChannel call =
      some ((createChannel lists (some bprint) true ⟨call.channelAdded, call.endpointAdded⟩).1,
        (createChannel lists (some bprint) true
          ⟨call.channelAdded, call.endpointAdded⟩).2.2.system) := by
  rcases hfirst : addChannel lists.system (bprint.device lists 0) bprint.toChannel
    (call.channelAdded 0) with ⟨ret0, system0⟩
  rcases hsecond : (if bprint.device lists 0 ≠ bprint.device lists 1 then
      addChannel system0 (bprint.device lists 1) bprint.toChannel (call.channelAdded 1)
    else (ret0, system0)) with ⟨ret1, system1⟩
  have hacross : bprint.device lists 0 ≠ bprint.device lists 1 →
      addChannel system0 (bprint.device lists 1) bprint.toChannel (call.channelAdded 1) =
        (ret1, system1) := by
    intro hdevice
    rwa [if_pos hdevice] at hsecond
  have hwithin : ¬ bprint.device lists 0 ≠ bprint.device lists 1 →
      (ret0, system0) = (ret1, system1) := by
    intro hdevice
    rwa [if_neg hdevice] at hsecond
  have hadded : addToDevices lists bprint call.channelAdded =
      (ret0, ret1, { lists with system := system1 }) := by
    simp only [addToDevices, addChannelTo, firstEnd_eq, secondEnd_eq, hfirst]
    split
    · next hdevice => rw [hacross hdevice]
    · next hdevice =>
      cases hwithin hdevice
      rfl
  rcases hends : anchorEnds { lists with system := system1 } bprint call.endpointAdded with
    ⟨end0, end1, anchored⟩
  obtain ⟨hsystem, -, -⟩ := anchorEnds_spec hends
  have hend0 : end0 = anchorVoid (bprint.ends 0) (call.endpointAdded 0) := by
    rw [← anchor_error]
    exact (congrArg Prod.fst hends).symm
  have hend1 : end1 = anchorVoid (bprint.ends 1) (call.endpointAdded 1) := by
    rw [← anchor_error]
    exact (congrArg (·.2.1) hends).symm
  have houtcome : ChannelSpawn.createChannel lists.system bprint.toIncompleteChannel call =
      if ret0 ≠ .success ∨ ret1 ≠ .success then some (.initializationFailure, system1)
      else if end0 = .success ∧ end1 = .success then some (.success, system1)
      else some (.initializationFailure, system1) := by
    simp only [Blueprint.device] at hfirst hacross hwithin
    simp only [ChannelSpawn.createChannel, bprint.anchors_eq, bprint.type_eq,
      some_bind, ← hend0, ← hend1, hfirst]
    split
    · next hdevice => rw [hacross hdevice]
    · next hdevice =>
      cases hwithin hdevice
      rfl
  rw [houtcome]
  simp only [createChannel, hadded, hends, Bool.true_eq_false, if_false]
  split
  · rfl
  split
  · next hsuccess =>
    rw [if_neg (by simp [hsuccess])]
    rw [hsystem]
  · next hfailure =>
    rw [if_pos (by rwa [← not_and_or])]
    rw [hsystem]

end

end Zambesii.ChannelCreate
