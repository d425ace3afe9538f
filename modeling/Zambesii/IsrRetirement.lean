import Zambesii.KernelTypes
import Zambesii.KeyedRemoval
import Zambesii.LinkedCells

/-!
The interrupt service routines of an IRQ pin: their registration, a run of `pinIrqMain`, and the
ones that it retires.
-/

namespace Zambesii.IsrRetirement

open Function List Option
open KernelTypes KeyedRemoval
open LinkedCells (Ptr)

inductive DriverType
  | zkcm
  | udi
deriving DecidableEq

structure IsrDescriptor where
  driverType : DriverType
  nHandled : Nat
  isr : Ptr
  device : Ptr
deriving DecidableEq

structure IrqPinDescriptor where
  nUnhandled : Nat
  inService : Nat
  isrList : List Ptr
deriving DecidableEq

/-- `isrs` has the descriptors that are allocated. -/
structure State where
  pinIrqTable : Nat → Option IrqPinDescriptor
  isrs : Ptr → Option IsrDescriptor
  masked : Nat → Bool

def State.setPin (state : State) (kpin : Nat) (pin : IrqPinDescriptor) : State :=
  { state with pinIrqTable := update state.pinIrqTable kpin (some pin) }

def State.setIsr (state : State) (isr : Ptr) (descriptor : Option IsrDescriptor) : State :=
  { state with isrs := update state.isrs isr descriptor }

abbrev Status := Int

def zkcmIsrNotMyIrq : Status := 1
def zkcmIsrSuccess : Status := 0
def zkcmIsrSuccessAndRetireMe : Status := 8

inductive TriggerMode
  | level
  | edge
deriving DecidableEq

inductive RetireResult
  | success
  | invalidArgVal
  | notFound
  | noMatch
deriving DecidableEq

/-- `registerPinIsr`, with the descriptor that is allocated, and whether the list gets a node. While
the pin is in service it waits. -/
def registerPinIsr (kpin : Nat) (dev isr : Ptr) (isrDesc : Option Ptr) (allocated : Bool)
    (state : State) : Option (Kerror × State) :=
  if dev = 0 ∨ isr = 0 then some (.invalidArg, state)
  else
    match state.pinIrqTable kpin with
    | none => some (.invalidArgVal, state)
    | some pinDesc =>
      if pinDesc.inService ≠ 0 then none
      else
        match isrDesc with
        | none => some (.memoryNomem, state)
        | some isrDesc =>
          if allocated = false then some (.general, state)
          else some (.success,
            (state.setIsr isrDesc (some ⟨.zkcm, 0, isr, dev⟩)).setPin kpin
              { pinDesc with isrList := isrDesc :: pinDesc.isrList })

def kpinDisable (kpin : Nat) (state : State) : Int × State :=
  match state.pinIrqTable kpin with
  | none => (0, state)
  | some pinDesc =>
    if pinDesc.isrList.length ≠ 0 then (0, state)
    else (1, { state with masked := update state.masked kpin true })

/-- The loop of `retirePinIsr`. No descriptor that was freed can be read. -/
def findIsr (state : State) (isr : Ptr) : List Ptr → Option (Option Ptr)
  | [] => some none
  | isrDesc :: rest => do
      let descriptor ← state.isrs isrDesc
      if descriptor.isr ≠ isr then findIsr state isr rest else some (some isrDesc)

/-- `retirePinIsr`. While the pin is in service it waits. -/
def retirePinIsr (kpin : Nat) (isr : Ptr) (state : State) : Option (RetireResult × State) :=
  if isr = 0 then some (.invalidArgVal, state)
  else
    match state.pinIrqTable kpin with
    | none => some (.notFound, state)
    | some pinDesc =>
      if pinDesc.inService ≠ 0 then none
      else do
        match ← findIsr state isr pinDesc.isrList with
        | none => some (.noMatch, state)
        | some isrDesc =>
          let isrList := pinDesc.isrList.erase isrDesc
          let state := (state.setPin kpin { pinDesc with isrList }).setIsr isrDesc none
          -- the pin is masked off when it has no more ISRs
          if isrList.length = 0 then some (.success, (kpinDisable kpin state).2)
          else some (.success, state)

def isrRetireListSize : Nat := 4

/-- The limit is not that of the array: the entry after the last one is written, which is not
defined. -/
def retireListAdd (status : Status) (isrRetireList : List Ptr) (isr : Ptr) : Option (List Ptr) :=
  if status = zkcmIsrSuccessAndRetireMe then
    if 4 < isrRetireList.length then some isrRetireList
    else if isrRetireList.length < isrRetireListSize then some (isrRetireList ++ [isr])
    else none
  else some isrRetireList

/-- What the loop of `pinIrqMain` leaves. A panic halts the machine. -/
structure Service where
  panics : Bool
  isrRetireList : List Ptr
  state : State

def unhandled (kpin : Nat) (state : State) : State :=
  match state.pinIrqTable kpin with
  | none => state
  | some pin => state.setPin kpin { pin with nUnhandled := (pin.nUnhandled + 1) % wordModulus }

def serviceLoop (kpin : Nat) (triggerMode : TriggerMode) (returns : Ptr → Status) :
    List Ptr → List Ptr → State → Option Service
  | [], isrRetireList, state => some ⟨false, isrRetireList, state⟩
  | isr :: rest, isrRetireList, state => do
      let isrDescriptor ← state.isrs isr
      if returns isr = zkcmIsrNotMyIrq then
        serviceLoop kpin triggerMode returns rest isrRetireList state
      else if returns isr ≠ zkcmIsrSuccess ∧ returns isr ≠ zkcmIsrSuccessAndRetireMe then
        some ⟨true, isrRetireList, unhandled kpin state⟩
      else
        let state := state.setIsr isr
          (some { isrDescriptor with nHandled := (isrDescriptor.nHandled + 1) % wordModulus })
        let isrRetireList ← retireListAdd (returns isr) isrRetireList isr
        if triggerMode = .level then some ⟨false, isrRetireList, state⟩
        else serviceLoop kpin triggerMode returns rest isrRetireList state

def retireLoop (kpin : Nat) : List Ptr → State → Option State
  | [], state => some state
  | isr :: rest, state => do
      let descriptor ← state.isrs isr
      if descriptor.driverType = .zkcm then
        let (_, state) ← retirePinIsr kpin descriptor.isr state
        retireLoop kpin rest state
      else retireLoop kpin rest state

inductive Outcome
  | returned (state : State)
  | halted (state : State)

def Outcome.state : Outcome → State
  | .returned state | .halted state => state

/-- `pinIrqMain`, with the pin and the trigger mode that are identified. The machine is halted when
the IRQ is spurious or cannot be identified. -/
def pinIrqMain (identified : Option (Nat × TriggerMode)) (returns : Ptr → Status)
    (state : State) : Option Outcome :=
  match identified with
  | none => some (.halted state)
  | some (kpin, triggerMode) =>
    match state.pinIrqTable kpin with
    | none => some (.returned state)
    | some pin => do
        let service ← serviceLoop kpin triggerMode returns pin.isrList []
          (state.setPin kpin { pin with inService := 1 })
        if service.panics then some (.halted service.state)
        else
          match service.state.pinIrqTable kpin with
          | none => none
          | some pin =>
            let state := service.state.setPin kpin { pin with inService := 0 }
            (retireLoop kpin service.isrRetireList state).map .returned

/-- The ISRs that are called: with a level triggered IRQ those after the one that handles it are
not, and none is after a panic. -/
def called (triggerMode : TriggerMode) (returns : Ptr → Status) : List Ptr → List Ptr
  | [] => []
  | isr :: rest =>
    if returns isr = zkcmIsrNotMyIrq then isr :: called triggerMode returns rest
    else if returns isr ≠ zkcmIsrSuccess ∧ returns isr ≠ zkcmIsrSuccessAndRetireMe then [isr]
    else if triggerMode = .level then [isr]
    else isr :: called triggerMode returns rest

def retires (triggerMode : TriggerMode) (returns : Ptr → Status) (isrList : List Ptr)
    (isr : Ptr) : Bool :=
  decide (isr ∈ called triggerMode returns isrList ∧ returns isr = zkcmIsrSuccessAndRetireMe)

def Expected (status : Status) : Prop :=
  status = zkcmIsrNotMyIrq ∨ status = zkcmIsrSuccess ∨ status = zkcmIsrSuccessAndRetireMe

instance (status : Status) : Decidable (Expected status) :=
  inferInstanceAs (Decidable (_ ∨ _ ∨ _))

def State.function (state : State) (isr : Ptr) : Ptr :=
  (state.isrs isr).elim 0 IsrDescriptor.isr

structure Made (descriptor : IsrDescriptor) : Prop where
  driverType : descriptor.driverType = .zkcm
  isr : descriptor.isr ≠ 0
  device : descriptor.device ≠ 0

/-- The ISRs of the pin are as `registerPinIsr` leaves them. -/
structure Registered (state : State) (kpin : Nat) (isrList : List Ptr) : Prop where
  pin : ∃ pin, state.pinIrqTable kpin = some pin ∧ pin.isrList = isrList
  nodup : isrList.Nodup
  made : ∀ isr ∈ isrList, ∃ descriptor, state.isrs isr = some descriptor ∧ Made descriptor

def Kept (before after : State) (isr : Ptr) : Prop :=
  ∃ descriptor nHandled, before.isrs isr = some descriptor ∧
    after.isrs isr = some { descriptor with nHandled }

/-- The run does nothing undefined, removes the ISRs that ask for it, and keeps the others. -/
def Meets (state : State) (kpin : Nat) (isrList : List Ptr) (triggerMode : TriggerMode)
    (returns : Ptr → Status) : Prop :=
  ∃ outcome pin, pinIrqMain (some (kpin, triggerMode)) returns state = some outcome ∧
    outcome.state.pinIrqTable kpin = some pin ∧
      pin.isrList = isrList.filter (fun isr => !retires triggerMode returns isrList isr) ∧
        ∀ isr ∈ pin.isrList, Kept state outcome.state isr

/-- No more ISRs ask to be retired than there is room for; no error comes after one that does; and
those before it that have the same function ask for it too. -/
structure Sound (state : State) (isrList : List Ptr) (triggerMode : TriggerMode)
    (returns : Ptr → Status) : Prop where
  room : (isrList.filter (retires triggerMode returns isrList)).length ≤ isrRetireListSize
  expected : (∃ isr ∈ isrList, retires triggerMode returns isrList isr = true) →
    ∀ isr ∈ called triggerMode returns isrList, Expected (returns isr)
  leading : Leading state.function (retires triggerMode returns isrList) isrList

theorem Registered.registerPinIsr {state next : State} {kpin : Nat} {isrList : List Ptr}
    {dev isr isrDesc : Ptr} {ret : Kerror} {allocated : Bool} (h : Registered state kpin isrList)
    (hfresh : state.isrs isrDesc = none)
    (hregister : registerPinIsr kpin dev isr (some isrDesc) allocated state = some (ret, next)) :
    Registered next kpin (if ret = .success then isrDesc :: isrList else isrList) := by
  obtain ⟨⟨pin, hpin, rfl⟩, hnodup, hmade⟩ := h
  have hold : Registered state kpin pin.isrList := ⟨⟨pin, hpin, rfl⟩, hnodup, hmade⟩
  have hnew : ∀ other ∈ pin.isrList, other ≠ isrDesc := by
    rintro other hin rfl
    obtain ⟨descriptor, hisr, -⟩ := hmade other hin
    rw [hfresh] at hisr
    cases hisr
  unfold IsrRetirement.registerPinIsr at hregister
  split at hregister
  · cases hregister
    exact hold
  next hargs =>
  rw [hpin] at hregister
  dsimp only at hregister
  split at hregister
  · cases hregister
  split at hregister
  · cases hregister
    exact hold
  cases hregister
  refine ⟨⟨_, update_self .., rfl⟩, ?_, ?_⟩
  · exact nodup_cons.mpr ⟨fun hin => hnew isrDesc hin rfl, hnodup⟩
  · intro other hother
    rcases mem_cons.mp hother with rfl | hother
    · refine ⟨⟨.zkcm, 0, isr, dev⟩, update_self .., rfl, ?_, ?_⟩
      · exact fun hzero => hargs (.inr hzero)
      · exact fun hzero => hargs (.inl hzero)
    · obtain ⟨descriptor, hisr, hdescriptor⟩ := hmade other hother
      exact ⟨descriptor, (update_of_ne (hnew other hother) ..).trans hisr, hdescriptor⟩

section

variable {triggerMode : TriggerMode} {returns : Ptr → Status} {isrList : List Ptr}

theorem called_prefix (triggerMode : TriggerMode) (returns : Ptr → Status) (isrList : List Ptr) :
    called triggerMode returns isrList <+: isrList := by
  induction isrList with
  | nil => exact prefix_refl []
  | cons isr rest ih =>
    have hcons : isr :: called triggerMode returns rest <+: isr :: rest :=
      (prefix_cons_inj isr).mpr ih
    have hone : [isr] <+: isr :: rest := ⟨rest, rfl⟩
    rw [called]
    split
    · exact hcons
    split
    · exact hone
    split
    · exact hone
    · exact hcons

theorem filter_retires (hnodup : isrList.Nodup) :
    isrList.filter (retires triggerMode returns isrList) =
      (called triggerMode returns isrList).filter fun isr =>
        decide (returns isr = zkcmIsrSuccessAndRetireMe) := by
  obtain ⟨rest, hrest⟩ := called_prefix triggerMode returns isrList
  have hsplit : isrList.filter (retires triggerMode returns isrList) =
      (called triggerMode returns isrList ++ rest).filter
        (retires triggerMode returns isrList) := by
    rw [hrest]
  rw [← hrest] at hnodup
  have hleft : ∀ isr ∈ rest, ¬ retires triggerMode returns isrList isr = true := by
    intro isr hin hretires
    exact (nodup_append.mp hnodup).2.2 isr (of_decide_eq_true hretires).1 isr hin rfl
  rw [hsplit, filter_append, filter_eq_nil_iff.mpr hleft, append_nil]
  refine filter_congr fun isr hin => ?_
  simp [retires, hin]

end

section

variable {kpin : Nat} {triggerMode : TriggerMode} {returns : Ptr → Status}

structure Served (kpin : Nat) (before after : State) : Prop where
  pin : ∀ pin, before.pinIrqTable kpin = some pin →
    ∃ nUnhandled, after.pinIrqTable kpin = some { pin with nUnhandled }
  isrs : ∀ isr descriptor, before.isrs isr = some descriptor →
    ∃ nHandled, after.isrs isr = some { descriptor with nHandled }

theorem Served.refl (kpin : Nat) (state : State) : Served kpin state state :=
  ⟨fun pin hpin => ⟨pin.nUnhandled, hpin⟩,
    fun _ descriptor hisr => ⟨descriptor.nHandled, hisr⟩⟩

theorem Served.trans {before middle after : State} (h : Served kpin before middle)
    (h' : Served kpin middle after) : Served kpin before after := by
  constructor
  · intro pin hpin
    obtain ⟨_, hpin⟩ := h.pin pin hpin
    obtain ⟨nUnhandled, hpin⟩ := h'.pin _ hpin
    exact ⟨nUnhandled, hpin⟩
  · intro isr descriptor hisr
    obtain ⟨_, hisr⟩ := h.isrs isr descriptor hisr
    obtain ⟨nHandled, hisr⟩ := h'.isrs isr _ hisr
    exact ⟨nHandled, hisr⟩

theorem served_unhandled (kpin : Nat) (state : State) :
    Served kpin state (unhandled kpin state) := by
  unfold unhandled
  split
  · exact .refl kpin state
  · next pin hpin =>
    refine ⟨fun pin' hpin' => ?_, fun isr descriptor hisr => ⟨descriptor.nHandled, hisr⟩⟩
    cases hpin.symm.trans hpin'
    exact ⟨_, update_self ..⟩

variable {state : State} {isr : Ptr}

theorem served_setIsr {descriptor : IsrDescriptor} (hisr : state.isrs isr = some descriptor)
    (nHandled : Nat) :
    Served kpin state (state.setIsr isr (some { descriptor with nHandled })) := by
  refine ⟨fun pin hpin => ⟨pin.nUnhandled, hpin⟩, fun other descriptor' hother => ?_⟩
  rcases eq_or_ne other isr with rfl | hne
  · cases hisr.symm.trans hother
    exact ⟨nHandled, update_self ..⟩
  · exact ⟨descriptor'.nHandled, (update_of_ne hne ..).trans hother⟩

theorem Served.allocated {before after : State} (h : Served kpin before after) {isrs : List Ptr}
    (hisrs : ∀ isr ∈ isrs, (before.isrs isr).isSome) : ∀ isr ∈ isrs, (after.isrs isr).isSome := by
  intro isr hin
  obtain ⟨descriptor, hisr⟩ := isSome_iff_exists.mp (hisrs isr hin)
  obtain ⟨_, hisr'⟩ := h.isrs isr descriptor hisr
  rw [hisr']
  rfl

structure ServiceIs (kpin : Nat) (state : State) (called asked : List Ptr)
    (returns : Ptr → Status) (service : Service) : Prop where
  panics : service.panics = false ↔ ∀ isr ∈ called, Expected (returns isr)
  isrRetireList : service.isrRetireList = asked
  served : Served kpin state service.state

def Serves (kpin : Nat) (state : State) (called asked : List Ptr) (returns : Ptr → Status)
    (service : Option Service) : Prop :=
  (asked.length ≤ isrRetireListSize →
    ∃ service', service = some service' ∧ ServiceIs kpin state called asked returns service') ∧
  (isrRetireListSize < asked.length → service = none)

theorem Serves.of_some {called asked : List Ptr} {service : Service}
    (hlength : asked.length ≤ isrRetireListSize)
    (h : ServiceIs kpin state called asked returns service) :
    Serves kpin state called asked returns (some service) :=
  ⟨fun _ => ⟨service, rfl, h⟩, fun hover => by omega⟩

theorem Serves.cons {next : State} {called asked : List Ptr} {service : Option Service}
    (h : Serves kpin next called asked returns service) (hserved : Served kpin state next)
    (hexpected : Expected (returns isr)) :
    Serves kpin state (isr :: called) asked returns service := by
  refine ⟨fun hlength => ?_, h.2⟩
  obtain ⟨service', hservice, hpanics, hasked, hserved'⟩ := h.1 hlength
  refine ⟨service', hservice, ?_, hasked, hserved.trans hserved'⟩
  rw [hpanics, forall_mem_cons, and_iff_right hexpected]

def asks (returns : Ptr → Status) (isr : Ptr) : Bool :=
  decide (returns isr = zkcmIsrSuccessAndRetireMe)

theorem retireListAdd_eq {isrRetireList : List Ptr}
    (hlength : isrRetireList.length ≤ isrRetireListSize) :
    retireListAdd (returns isr) isrRetireList isr =
      if (isrRetireList ++ [isr].filter (asks returns)).length ≤ isrRetireListSize then
        some (isrRetireList ++ [isr].filter (asks returns))
      else none := by
  have hfour : isrRetireList.length ≤ 4 := hlength
  unfold retireListAdd
  split
  · next hretire =>
    have hasks : asks returns isr = true := decide_eq_true hretire
    rw [filter_cons_of_pos hasks, filter_nil, length_append, length_singleton,
      if_neg (by omega), isrRetireListSize]
    rcases lt_or_ge isrRetireList.length 4 with hroom | hfull
    · rw [if_pos hroom, if_pos (by omega)]
    · rw [if_neg (by omega), if_neg (by omega)]
  · next hretire =>
    have hasks : asks returns isr = false := decide_eq_false hretire
    rw [filter_cons_of_neg (by simp [hasks]), filter_nil, append_nil,
      if_pos hlength]

theorem serviceLoop_serves {isrs isrRetireList : List Ptr}
    (hisrs : ∀ isr ∈ isrs, (state.isrs isr).isSome)
    (hlength : isrRetireList.length ≤ isrRetireListSize) :
    Serves kpin state (called triggerMode returns isrs)
      (isrRetireList ++ (called triggerMode returns isrs).filter (asks returns)) returns
      (serviceLoop kpin triggerMode returns isrs isrRetireList state) := by
  induction isrs generalizing isrRetireList state with
  | nil =>
    rw [called, filter_nil, append_nil]
    exact .of_some hlength ⟨by simp, rfl, .refl kpin state⟩
  | cons isr rest ih =>
    obtain ⟨hisr, hrest⟩ := forall_mem_cons.mp hisrs
    obtain ⟨descriptor, hisr⟩ := isSome_iff_exists.mp hisr
    rw [called, serviceLoop, hisr, some_bind]
    split
    · next hnotMine =>
      have hasks : asks returns isr = false := by
        rw [asks, hnotMine]
        rfl
      rw [filter_cons_of_neg (by simp [hasks])]
      exact (ih hrest hlength).cons (.refl kpin state) (.inl hnotMine)
    next hmine =>
    split
    · next herror =>
      have hasks : asks returns isr = false := decide_eq_false herror.2
      rw [filter_cons_of_neg (by simp [hasks]), filter_nil, append_nil]
      refine .of_some hlength ⟨?_, rfl, served_unhandled kpin state⟩
      refine iff_of_false (by simp) ?_
      intro hall
      rcases hall isr (mem_singleton_self isr) with h | h | h
      · exact hmine h
      · exact herror.1 h
      · exact herror.2 h
    next hhandled =>
    have hexpected : Expected (returns isr) := by tauto
    have hserved : Served kpin state (state.setIsr isr
        (some { descriptor with nHandled := (descriptor.nHandled + 1) % wordModulus })) :=
      served_setIsr hisr _
    rcases lt_or_ge isrRetireListSize
      (isrRetireList ++ [isr].filter (asks returns)).length with hover | hroom
    · have hadd : retireListAdd (returns isr) isrRetireList isr = none := by
        rw [retireListAdd_eq hlength, if_neg (by omega)]
      rw [hadd]
      refine ⟨fun hlength => absurd hlength ?_, fun _ => rfl⟩
      rw [length_append] at hover ⊢
      split
      · omega
      · rw [← singleton_append, filter_append, length_append]
        omega
    have hadd : retireListAdd (returns isr) isrRetireList isr =
        some (isrRetireList ++ [isr].filter (asks returns)) := by
      rw [retireListAdd_eq hlength, if_pos hroom]
    rw [hadd]
    split
    · refine .of_some hroom ⟨iff_of_true rfl ?_, rfl, hserved⟩
      intro other hin
      rw [mem_singleton.mp hin]
      exact hexpected
    · rw [← singleton_append, filter_append, ← append_assoc]
      exact (ih (hserved.allocated hrest) hroom).cons hserved hexpected

end

section

variable {kpin : Nat} {function : Ptr → Ptr}

def MadeFor (function : Ptr → Ptr) (state : State) (isr : Ptr) : Prop :=
  ∃ descriptor, state.isrs isr = some descriptor ∧ Made descriptor ∧ descriptor.isr = function isr

variable {state : State}

theorem findIsr_eq {isrs : List Ptr} (hmade : ∀ isr ∈ isrs, MadeFor function state isr) (k : Ptr) :
    findIsr state k isrs = some (isrs.find? (hasKey function k)) := by
  induction isrs with
  | nil => rfl
  | cons isr rest ih =>
    obtain ⟨⟨descriptor, hisr, -, hfunction⟩, hrest⟩ := forall_mem_cons.mp hmade
    rw [findIsr, hisr, some_bind, hfunction]
    split
    · next hne =>
      rw [find?_cons_of_neg (by simpa [hasKey] using hne)]
      exact ih hrest
    · next heq =>
      rw [find?_cons_of_pos (by simpa [hasKey] using heq)]

theorem erase_of_find? {list : List Ptr} {k item : Ptr}
    (hnodup : list.Nodup) (hfind : list.find? (hasKey function k) = some item) :
    list.erase item = removeKey function list k := by
  obtain ⟨hkey, before, after, rfl, hbefore⟩ := find?_eq_some_iff_append.mp hfind
  obtain rfl : function item = k := of_decide_eq_true hkey
  have hnone : ∀ earlier ∈ before, function earlier ≠ function item := by
    intro earlier hin
    simpa [hasKey] using hbefore earlier hin
  have hnotMem : item ∉ before := fun hin => hnone item hin rfl
  rw [removeKey_of_first hnone, erase_append_right _ hnotMem, erase_cons_head]

theorem kpinDisable_fields (kpin : Nat) (state : State) :
    (kpinDisable kpin state).2.pinIrqTable = state.pinIrqTable ∧
      (kpinDisable kpin state).2.isrs = state.isrs := by
  unfold kpinDisable
  split
  · exact ⟨rfl, rfl⟩
  split
  · exact ⟨rfl, rfl⟩
  · exact ⟨rfl, rfl⟩

theorem retirePinIsr_spec {pin : IrqPinDescriptor} {isr : Ptr}
    (hpin : state.pinIrqTable kpin = some pin) (hservice : pin.inService = 0)
    (hnodup : pin.isrList.Nodup) (hmade : ∀ isr ∈ pin.isrList, MadeFor function state isr)
    (hin : isr ∈ pin.isrList) :
    ∃ next, retirePinIsr kpin (function isr) state = some (.success, next) ∧
      next.pinIrqTable kpin =
        some { pin with isrList := removeKey function pin.isrList (function isr) } ∧
        ∀ other ∈ removeKey function pin.isrList (function isr),
          next.isrs other = state.isrs other := by
  obtain ⟨descriptor, hisr, hdescriptor, hfunction⟩ := hmade isr hin
  have hnonzero : function isr ≠ 0 := hfunction ▸ hdescriptor.isr
  obtain ⟨found, hfound⟩ := isSome_iff_exists.mp
    (find?_isSome.mpr ⟨isr, hin, show hasKey function (function isr) isr = true by
      simp [hasKey]⟩)
  have herase := erase_of_find? hnodup hfound
  rw [retirePinIsr, if_neg hnonzero, hpin]
  dsimp only
  rw [if_neg (by simp [hservice]), findIsr_eq hmade, hfound]
  dsimp only [some_bind]
  rw [herase]
  have hothers : ∀ other ∈ removeKey function pin.isrList (function isr), other ≠ found := by
    rintro other hother rfl
    rw [← herase] at hother
    exact (hnodup.not_mem_erase) hother
  have hnext : ∀ next : State,
      next.pinIrqTable = update state.pinIrqTable kpin
        (some { pin with isrList := removeKey function pin.isrList (function isr) }) →
      next.isrs = update state.isrs found none →
        next.pinIrqTable kpin =
          some { pin with isrList := removeKey function pin.isrList (function isr) } ∧
          ∀ other ∈ removeKey function pin.isrList (function isr),
            next.isrs other = state.isrs other := by
    intro next htable hisrs
    constructor
    · rw [htable, update_self]
    · intro other hother
      rw [hisrs, update_of_ne (hothers other hother)]
  split
  · obtain ⟨htable, hisrs⟩ := kpinDisable_fields kpin
      ((state.setPin kpin { pin with
        isrList := removeKey function pin.isrList (function isr) }).setIsr found none)
    exact ⟨_, rfl, hnext _ htable hisrs⟩
  · exact ⟨_, rfl, hnext _ rfl rfl⟩

theorem retireLoop_spec {isrRetireList : List Ptr} {pin : IrqPinDescriptor}
    (hpin : state.pinIrqTable kpin = some pin) (hservice : pin.inService = 0)
    (hnodup : pin.isrList.Nodup) (hmade : ∀ isr ∈ pin.isrList, MadeFor function state isr)
    (hsub : isrRetireList.Sublist pin.isrList) :
    ∃ last, retireLoop kpin isrRetireList state = some last ∧
      last.pinIrqTable kpin =
        some { pin with
          isrList := removeKeys function pin.isrList (isrRetireList.map function) } ∧
        ∀ other ∈ removeKeys function pin.isrList (isrRetireList.map function),
          last.isrs other = state.isrs other := by
  induction isrRetireList generalizing state pin with
  | nil => exact ⟨state, rfl, hpin, fun _ _ => rfl⟩
  | cons isr rest ih =>
    have hin : isr ∈ pin.isrList := hsub.subset (mem_cons_self ..)
    obtain ⟨descriptor, hisr, hdescriptor, hfunction⟩ := hmade isr hin
    obtain ⟨next, hretire, htable, hisrs⟩ :=
      retirePinIsr_spec hpin hservice hnodup hmade hin
    have hsublist := removeKey_sublist function pin.isrList (function isr)
    have hmade' : ∀ other ∈ removeKey function pin.isrList (function isr),
        MadeFor function next other := by
      intro other hother
      rw [MadeFor, hisrs other hother]
      exact hmade other (hsublist.subset hother)
    obtain ⟨last, hloop, hlast, hkept⟩ :=
      ih htable hservice (hnodup.sublist hsublist) hmade' (sublist_removeKey hsub)
    refine ⟨last, ?_, hlast, ?_⟩
    · rw [retireLoop, hisr, some_bind, if_pos hdescriptor.driverType, hfunction, hretire]
      exact hloop
    · intro other hother
      rw [hkept other hother]
      exact hisrs other ((removeKeys_sublist function _ _).subset hother)

end

section

variable {state : State} {kpin : Nat} {triggerMode : TriggerMode} {returns : Ptr → Status}
  {isrList : List Ptr}

def Leaves (state : State) (kpin : Nat) (outcome : Option Outcome) (isrList : List Ptr) : Prop :=
  ∃ outcome' pin, outcome = some outcome' ∧ outcome'.state.pinIrqTable kpin = some pin ∧
    pin.isrList = isrList ∧ ∀ isr ∈ isrList, Kept state outcome'.state isr

theorem Leaves.meets_iff {left : List Ptr}
    (h : Leaves state kpin (pinIrqMain (some (kpin, triggerMode)) returns state) left) :
    Meets state kpin isrList triggerMode returns ↔
      left = isrList.filter fun isr => !retires triggerMode returns isrList isr := by
  obtain ⟨outcome, pin, hrun, hpin, rfl, hkept⟩ := h
  constructor
  · rintro ⟨outcome', pin', hrun', hpin', heq, -⟩
    cases hrun.symm.trans hrun'
    cases hpin.symm.trans hpin'
    exact heq
  · intro heq
    exact ⟨outcome, pin, hrun, hpin, heq, hkept⟩

theorem Served.kept {before after : State} (h : Served kpin before after) {isr : Ptr}
    {descriptor : IsrDescriptor} (hisr : before.isrs isr = some descriptor) :
    Kept before after isr := by
  obtain ⟨nHandled, hisr'⟩ := h.isrs isr descriptor hisr
  exact ⟨descriptor, nHandled, hisr, hisr'⟩

def serving (state : State) (kpin : Nat) (pin : IrqPinDescriptor) : State :=
  state.setPin kpin { pin with inService := 1 }

variable {pin : IrqPinDescriptor}

variable (hpin : state.pinIrqTable kpin = some pin)

include hpin

theorem pinIrqMain_eq :
    pinIrqMain (some (kpin, triggerMode)) returns state =
      (serviceLoop kpin triggerMode returns pin.isrList [] (serving state kpin pin)).bind
        fun service =>
          if service.panics then some (.halted service.state)
          else
            match service.state.pinIrqTable kpin with
            | none => none
            | some pin =>
              (retireLoop kpin service.isrRetireList
                (service.state.setPin kpin { pin with inService := 0 })).map .returned := by
  rw [pinIrqMain, hpin]
  rfl

theorem leaves_of_panics {service : Service} (hisrs : ∀ isr ∈ pin.isrList, (state.isrs isr).isSome)
    (hservice : serviceLoop kpin triggerMode returns pin.isrList [] (serving state kpin pin) =
      some service) (hserved : Served kpin (serving state kpin pin) service.state)
    (hpanics : service.panics = true) :
    Leaves state kpin (pinIrqMain (some (kpin, triggerMode)) returns state) pin.isrList := by
  obtain ⟨nUnhandled, hafter⟩ := hserved.pin _ (update_self ..)
  refine ⟨.halted service.state, _, ?_, hafter, rfl, ?_⟩
  · rw [pinIrqMain_eq hpin, hservice, bind_some, if_pos hpanics]
  · intro isr hin
    obtain ⟨descriptor, hisr⟩ := isSome_iff_exists.mp (hisrs isr hin)
    exact hserved.kept hisr

theorem leaves_of_not_panics {service : Service} (hnodup : pin.isrList.Nodup)
    (hmade : ∀ isr ∈ pin.isrList, ∃ descriptor, state.isrs isr = some descriptor ∧ Made descriptor)
    (hservice : serviceLoop kpin triggerMode returns pin.isrList [] (serving state kpin pin) =
      some service) (hserved : Served kpin (serving state kpin pin) service.state)
    (hpanics : service.panics = false) (hsub : service.isrRetireList.Sublist pin.isrList) :
    Leaves state kpin (pinIrqMain (some (kpin, triggerMode)) returns state)
      (removeKeys state.function pin.isrList (service.isrRetireList.map state.function)) := by
  obtain ⟨nUnhandled, hafter⟩ := hserved.pin _ (update_self ..)
  have hmade' : ∀ isr ∈ pin.isrList, MadeFor state.function
      (service.state.setPin kpin { pin with inService := 0, nUnhandled }) isr := by
    intro isr hin
    obtain ⟨descriptor, hisr, hdescriptor⟩ := hmade isr hin
    obtain ⟨nHandled, hisr'⟩ := hserved.isrs isr descriptor hisr
    refine ⟨_, hisr', ⟨hdescriptor.driverType, hdescriptor.isr, hdescriptor.device⟩, ?_⟩
    rw [State.function, hisr]
    rfl
  have hpin' : (service.state.setPin kpin { pin with inService := 0, nUnhandled }).pinIrqTable
      kpin = some { pin with inService := 0, nUnhandled } := update_self ..
  obtain ⟨last, hloop, hlast, hkept⟩ := retireLoop_spec hpin' rfl hnodup hmade' hsub
  refine ⟨.returned last, _, ?_, hlast, rfl, ?_⟩
  · rw [pinIrqMain_eq hpin, hservice, bind_some, if_neg (by simp [hpanics]), hafter]
    dsimp only
    rw [hloop, map_some]
  · intro isr hin
    obtain ⟨descriptor, hisr, -⟩ := hmade isr ((removeKeys_sublist _ _ _).subset hin)
    obtain ⟨descriptor', nHandled, hbefore, hafter'⟩ := hserved.kept hisr
    exact ⟨descriptor', nHandled, hbefore, (hkept isr hin).trans hafter'⟩

omit hpin

/-- Exactly when the run removes the ISRs that ask for it. -/
theorem retires_iff_sound (h : Registered state kpin isrList) :
    Meets state kpin isrList triggerMode returns ↔ Sound state isrList triggerMode returns := by
  obtain ⟨⟨pin, hpin, rfl⟩, hnodup, hmade⟩ := h
  have hisrs : ∀ isr ∈ pin.isrList, (state.isrs isr).isSome := by
    intro isr hin
    obtain ⟨descriptor, hisr, -⟩ := hmade isr hin
    rw [hisr]
    rfl
  have hserves : Serves kpin (serving state kpin pin) (called triggerMode returns pin.isrList)
      (pin.isrList.filter (retires triggerMode returns pin.isrList)) returns
      (serviceLoop kpin triggerMode returns pin.isrList [] (serving state kpin pin)) := by
    rw [filter_retires hnodup]
    have hserving : ∀ isr ∈ pin.isrList, ((serving state kpin pin).isrs isr).isSome := hisrs
    have hempty : ([] : List Ptr).length ≤ isrRetireListSize := Nat.zero_le _
    exact serviceLoop_serves hserving hempty
  rcases lt_or_ge isrRetireListSize
    (pin.isrList.filter (retires triggerMode returns pin.isrList)).length with hover | hroom
  · refine iff_of_false ?_ ?_
    · rintro ⟨outcome, _, hrun, -⟩
      rw [pinIrqMain_eq hpin, hserves.2 hover] at hrun
      cases hrun
    · intro hsound
      exact absurd hsound.room (by omega)
  obtain ⟨service, hservice, hpanics, hlist, hserved⟩ := hserves.1 hroom
  cases hpanic : service.panics with
  | true =>
    rw [(leaves_of_panics hpin hisrs hservice hserved hpanic).meets_iff, eq_comm,
      filter_eq_self]
    have herror : ¬ ∀ isr ∈ called triggerMode returns pin.isrList, Expected (returns isr) := by
      rw [← hpanics, hpanic]
      simp
    constructor
    · intro hnone
      have hnone' : ∀ isr ∈ pin.isrList,
          ¬ retires triggerMode returns pin.isrList isr = true := by
        simpa using hnone
      refine ⟨hroom, fun ⟨isr, hin, hretires⟩ => absurd hretires (hnone' isr hin), ?_⟩
      exact pairwise_of_forall_mem_list fun _ _ isr hin hretires =>
        absurd hretires (hnone' isr hin)
    · intro hsound isr hin
      rw [Bool.not_eq_true', ← Bool.not_eq_true]
      exact fun hretires => herror (hsound.expected ⟨isr, hin, hretires⟩)
  | false =>
    have hleaves := leaves_of_not_panics hpin hnodup hmade hservice hserved hpanic
      (hlist ▸ filter_sublist)
    rw [hleaves.meets_iff, hlist, removeKeys_filter_iff hnodup]
    exact ⟨fun hleading => ⟨hroom, fun _ => hpanics.mp hpanic, hleading⟩,
      fun hsound => hsound.leading⟩

end

def pinWith (isrs : List (Ptr × IsrDescriptor)) : State where
  pinIrqTable := fun kpin => if kpin = 0 then some ⟨0, 0, isrs.map Prod.fst⟩ else none
  isrs := fun isr => (isrs.find? fun entry => entry.1 = isr).map Prod.snd
  masked := fun _ => false

theorem registered_pinWith {isrs : List (Ptr × IsrDescriptor)} (hnodup : (isrs.map Prod.fst).Nodup)
    (hmade : ∀ entry ∈ isrs, Made entry.2) : Registered (pinWith isrs) 0 (isrs.map Prod.fst) := by
  refine ⟨⟨_, rfl, rfl⟩, hnodup, ?_⟩
  intro isr hin
  obtain ⟨entry, hentry, rfl⟩ := mem_map.mp hin
  have hfind : (isrs.find? fun other => decide (other.1 = entry.1)).isSome :=
    find?_isSome.mpr ⟨entry, hentry, by simp⟩
  obtain ⟨found, hfound⟩ := Option.isSome_iff_exists.mp hfind
  exact ⟨found.2, congrArg (Option.map Prod.snd) hfound,
    hmade found (mem_of_find?_eq_some hfound)⟩

def shared : List (Ptr × IsrDescriptor) :=
  [(0x300, ⟨.zkcm, 0, 0x10, 0x3⟩), (0x200, ⟨.zkcm, 0, 0x10, 0x2⟩), (0x100, ⟨.zkcm, 0, 0x20, 0x1⟩)]

theorem registered_shared : Registered (pinWith shared) 0 [0x300, 0x200, 0x100] := by
  refine registered_pinWith (by decide) ?_
  intro entry hin
  simp only [shared, mem_cons, not_mem_nil, or_false] at hin
  rcases hin with rfl | rfl | rfl
  · exact ⟨rfl, by decide, by decide⟩
  · exact ⟨rfl, by decide, by decide⟩
  · exact ⟨rfl, by decide, by decide⟩

theorem meets_firstRetires :
    Meets (pinWith shared) 0 [0x300, 0x200, 0x100] .edge
      fun isr => if isr = 0x300 then zkcmIsrSuccessAndRetireMe else zkcmIsrSuccess := by
  refine (retires_iff_sound registered_shared).mpr ⟨by decide, fun _ => ?_, by decide⟩
  decide

theorem secondRetires_removes_first :
    ¬ ∀ state kpin isrList triggerMode returns, Registered state kpin isrList →
      Meets state kpin isrList triggerMode returns := by
  intro hclaim
  let returns : Ptr → Status := fun isr =>
    if isr = 0x200 then zkcmIsrSuccessAndRetireMe else zkcmIsrNotMyIrq
  obtain ⟨outcome, pin, hrun, hpin, hlist, -⟩ :=
    hclaim (pinWith shared) 0 _ .level returns registered_shared
  have hleft : (pinIrqMain (some (0, .level)) returns (pinWith shared)).map
      (fun outcome => (outcome.state.pinIrqTable 0).map IrqPinDescriptor.isrList) =
        some (some [0x200, 0x100]) := by
    decide
  rw [hrun, map_some, hpin, map_some, hlist] at hleft
  exact absurd hleft (by decide)

end Zambesii.IsrRetirement
