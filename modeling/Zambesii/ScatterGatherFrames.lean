import Zambesii.MemoryTrib
import Zambesii.ScatterGatherIds

/-!
The frames of the scatter-gather lists. A list is moved to another process by copying the
object to a new slot there and tearing the old one down.
-/

namespace Zambesii.ScatterGatherFrames

open Function List Option
open ConstrainedGetFrames (Compiler Element asSigned smallBmp unalignedConstraints)
open KernelTypes
open MemoryTrib Runs ScatterGatherIds

/-- `ScatterGatherList`, without its mapping in the address space of the process. -/
structure SgList where
  elements : List (Option Element)
  compiledConstraints : Compiler

def newConstraints : Compiler where
  version := 1
  startPfn := 0
  beyondEndPfn := 0
  pfnSkipStride := 0
  minElementGranularityNFrames := 0
  maxNContiguousFrames := 0
  startPfn_lt := wordModulus_pos
  beyondEndPfn_lt := wordModulus_pos
  stride_eq := ConstrainedGetFrames.exists_bits_of_stride_zero

def newList : SgList where
  elements := []
  compiledConstraints := newConstraints

namespace SgList

def getNFrames (list : SgList) : Nat :=
  (list.elements.map fun element => (element.map Element.nFrames).getD 0).sum

/-- `freeSGListElements`: the length of a block is in bytes. An entry that was never
written has no meaning. -/
def freeSGListElements : List (Option Element) → List Pool → Option (List Pool)
  | [], pools => some pools
  | none :: _, _ => none
  | some element :: rest, pools =>
    match releaseFrames (element.startPfn * pagingBaseSize)
      (element.nFrames * pagingBaseSize % wordModulus) pools with
    | none => none
    | some pools => freeSGListElements rest pools

def destroySGList (list : SgList) (justTransfer : Bool) (pools : List Pool) : Option (List Pool) :=
  if !justTransfer then freeSGListElements list.elements pools else some pools

end SgList

structure System where
  streams : Nat → Option (IdArray SgList)
  pools : List Pool

def System.setStream (system : System) (process : Nat) (lists : IdArray SgList) : System :=
  { system with streams := update system.streams process (some lists) }

def getScatterGatherList (lists : IdArray SgList) (id : Nat) : Option (Pointer × SgList) :=
  match lists.slot id with
  | none => none
  | some sgl => (lists.memory sgl.base sgl.index).map fun list => (sgl, list)

def allocateScatterGatherList (lists : IdArray SgList) (newmem : Option Nat) :
    Option (Except Kerror (Nat × Pointer) × IdArray SgList) :=
  match lists.chooseId newmem with
  | (.error error, lists) => some (.error error, lists)
  | (.ok (newId, newObj), lists) =>
    (lists.construct newId newObj newList).map fun made => (.ok (newId, made.1), made.2)

inductive Result
  | status (error : Kerror)
  | id (newId : Nat)
  | released (done : Bool)
deriving DecidableEq

def releaseScatterGatherList (system : System) (lists : IdArray SgList) (process id : Nat)
    (justTransfer : Bool) : Option (Result × System) :=
  match getScatterGatherList lists id with
  | none => some (.released false, system)
  | some (sgl, list) =>
    -- The destructor of the list is `destroySGList(0)` too.
    match (if !justTransfer then list.destroySGList false system.pools
      else list.destroySGList false system.pools) with
    | none => none
    | some pools =>
      some (.released true, { system with pools := pools }.setStream process (lists.write sgl none))

def errorMemoryNomemPhysical : Int := -22

def resizeScatterGatherList (system : System) (lists : IdArray SgList)
    (process id nFrames : Nat) (memory : List Bool) : Option (Result × System) :=
  if nFrames = 0 then some (.status .success, system)
  else
    match getScatterGatherList lists id with
    | none => some (.status .notFound, system)
    | some (sgl, list) =>
      let currNFrames := list.getNFrames
      if nFrames ≤ currNFrames then some (.status .success, system)
      else
        match constrainedGetFrames list.compiledConstraints (nFrames - currNFrames)
          list.elements memory system.pools with
        | .panicked => none
        | .failed =>
          if (currNFrames : Int) + errorMemoryNomemPhysical < asSigned nFrames then
            some (.status .memoryNomemPhysical, system)
          else some (.status .success, system)
        | .frames nNewFrames elements pools =>
          -- The assertion that only a failure leaves too few frames.
          if (currNFrames : Int) + nNewFrames < asSigned nFrames then none
          else
            some (.status .success, { system with pools := pools }.setStream process
              (lists.write sgl (some { list with elements := elements })))

def transferScatterGatherList (system : System) (lists : IdArray SgList)
    (process destStreamId srcListId : Nat) (newmem : Option Nat) : Option (Result × System) :=
  match system.streams destStreamId, getScatterGatherList lists srcListId with
  | none, _ => some (.status .invalidArgVal, system)
  | some _, none => some (.status .invalidArgVal, system)
  | some dest, some (srcList, _) =>
    match allocateScatterGatherList dest newmem with
    | none => none
    | some (.error error, dest) => some (.status error, system.setStream destStreamId dest)
    | some (.ok (newDestId, newDestSGList), dest) =>
      let system := system.setStream destStreamId dest
      -- The source is read by its address, where it was before the allocation.
      let object := (system.streams process).bind fun lists =>
        lists.memory srcList.base srcList.index
      let system := system.setStream destStreamId (dest.write newDestSGList object)
      match system.streams process with
      | none => none
      | some lists =>
        (releaseScatterGatherList system lists process srcListId true).map fun released =>
          (.id newDestId, released.2)

inductive Call
  | allocate (process : Nat) (newmem : Option Nat)
  | constrain (process id : Nat) (compiledCon : Compiler)
  | resize (process id nFrames : Nat) (memory : List Bool)
  | transfer (process destStreamId srcListId : Nat) (newmem : Option Nat)
  | release (process id : Nat)

def Call.process : Call → Nat
  | .allocate process _ => process
  | .constrain process _ _ => process
  | .resize process _ _ _ => process
  | .transfer process _ _ _ => process
  | .release process _ => process

def stepOn (system : System) (lists : IdArray SgList) : Call → Option (Result × System)
  | .allocate process newmem =>
    match allocateScatterGatherList lists newmem with
    | none => none
    | some (.error error, lists) => some (.status error, system.setStream process lists)
    | some (.ok (newId, _), lists) => some (.id newId, system.setStream process lists)
  | .constrain process id compiledCon =>
    match getScatterGatherList lists id with
    | none => some (.status .notFound, system)
    | some (sgl, list) =>
      some (.status .success, system.setStream process
        (lists.write sgl (some { list with compiledConstraints := compiledCon })))
  | .resize process id nFrames memory =>
    resizeScatterGatherList system lists process id nFrames memory
  | .transfer process destStreamId srcListId newmem =>
    transferScatterGatherList system lists process destStreamId srcListId newmem
  | .release process id => releaseScatterGatherList system lists process id false

def step (system : System) (call : Call) : Option (Result × System) :=
  match system.streams call.process with
  | none => none
  | some lists => stepOn system lists call

def view (lists : IdArray SgList) (id : Nat) : Option SgList :=
  if id < lists.nIndexes then lists.array.bind fun base => lists.memory base id else none

def listAt (system : System) (process id : Nat) : Option SgList :=
  (system.streams process).bind fun lists => view lists id

def SgList.Covers (list : SgList) (pfn : Nat) : Prop :=
  ∃ element, some element ∈ list.elements ∧ element.Covers pfn

structure Keeps (system : System) : Prop where
  used : ∀ process id list pfn, listAt system process id = some list → list.Covers pfn →
    Used system.pools pfn
  one : ∀ process id list process' id' list' pfn, listAt system process id = some list →
    listAt system process' id' = some list' → list.Covers pfn → list'.Covers pfn →
    process = process' ∧ id = id'

structure Moves (system next : System) (process srcListId destStreamId newDestId : Nat) : Prop where
  allocated : ∀ pfn, Used system.pools pfn → Used next.pools pfn
  moved : listAt next destStreamId newDestId = listAt system process srcListId
  gone : listAt next process srcListId = none
  others : ∀ other id, (other, id) ≠ (process, srcListId) → (other, id) ≠ (destStreamId, newDestId) →
    listAt next other id = listAt system other id

def SgList.Frees (list : SgList) (pools : List Pool) (pfn : Nat) : Prop :=
  ∃ element, some element ∈ list.elements ∧
    MemoryTrib.Frees pools (element.startPfn * pagingBaseSize)
      (element.nFrames * pagingBaseSize % wordModulus) pfn

/-- The condition: the bitmaps find the frames for a list in order; what a release frees
is in no other list and not free already; a transfer frees nothing. -/
def Spares (system : System) : Call → Prop
  | .resize process id nFrames _ => ∀ list, listAt system process id = some list →
      Ordered system.pools list.compiledConstraints (nFrames - list.getNFrames)
  | .release process id => ∀ list, listAt system process id = some list →
      ∀ pfn, list.Frees system.pools pfn →
        (∀ process' id' list', listAt system process' id' = some list' → list'.Covers pfn →
          process' = process ∧ id' = id) ∧ ∀ pool ∈ system.pools, ¬ pool.Free pfn
  | .transfer process _ srcListId _ => ∀ list, listAt system process srcListId = some list →
      ∀ pfn, ¬ list.Frees system.pools pfn
  | _ => True

/-- The id is a word other than -1, which `unlocked_indexIsValid` takes for valid. -/
def Proper : Call → Prop
  | .allocate _ _ => True
  | .constrain _ id _ | .resize _ id _ _ | .transfer _ _ id _ | .release _ id =>
    id + 1 < wordModulus

structure Initial (system : System) : Prop where
  tidy : Tidy system.pools
  streams : ∀ process lists, system.streams process = some lists →
    lists.array = none ∧ lists.nIndexes = 0 ∧
      lists.idCounter = { startVal := 0, maxVal := -1, nextVal := 0 }

section

variable {lists lists' : IdArray SgList}

structure SlotAt (lists : IdArray SgList) (id : Nat) (sgl : Pointer) : Prop where
  lt : id < lists.nIndexes
  array : lists.array = some sgl.base
  index : sgl.index = id

variable {id : Nat} {sgl : Pointer} {list : SgList}

theorem slotAt_of_slot (hlt : id < lists.nIndexes) (h : lists.slot id = some sgl) :
    SlotAt lists id sgl :=
  ⟨hlt, (slot_eq_some h).1, (slot_eq_some h).2⟩

theorem getScatterGatherList_eq_some (hid : id + 1 < wordModulus)
    (h : getScatterGatherList lists id = some (sgl, list)) :
    SlotAt lists id sgl ∧ lists.memory sgl.base sgl.index = some list ∧
      view lists id = some list := by
  unfold getScatterGatherList at h
  cases hslot : lists.slot id with
  | none =>
    rw [hslot] at h
    cases h
  | some pointer =>
    rw [hslot] at h
    obtain ⟨object, hobject, heq⟩ := map_eq_some_iff.mp h
    obtain ⟨rfl, rfl⟩ := Prod.mk.inj heq
    have hlt : id < lists.nIndexes := by
      unfold IdArray.slot at hslot
      split_ifs at hslot with hvalid
      exact (indexIsValid_iff hid).mp hvalid
    have hat := slotAt_of_slot hlt hslot
    refine ⟨hat, hobject, ?_⟩
    rw [view, if_pos hlt, hat.array, bind_some, ← hat.index]
    exact hobject

theorem getScatterGatherList_of_view (h : view lists id = some list) :
    getScatterGatherList lists id ≠ none := by
  unfold view at h
  split_ifs at h with hlt
  obtain ⟨base, hbase, hmemory⟩ := bind_eq_some_iff.mp h
  simp [getScatterGatherList, IdArray.slot, indexIsValid_of_lt hlt, hbase, hmemory]

theorem view_write (hslot : SlotAt lists id sgl) (object : Option SgList) (other : Nat) :
    view (lists.write sgl object) other = if other = id then object else view lists other := by
  obtain ⟨hlt, harray, hindex⟩ := hslot
  unfold view
  show (if other < lists.nIndexes then
    lists.array.bind fun base =>
      if base = sgl.base ∧ other = sgl.index then object else lists.memory base other else none) = _
  rw [harray, hindex]
  simp only [bind_some, true_and]
  rcases eq_or_ne other id with rfl | hne
  · rw [if_pos hlt, if_pos rfl, if_pos rfl]
  · rw [if_neg hne, if_neg hne]

theorem sized_write (h : Sized lists) (sgl : Pointer) (object : Option SgList) :
    Sized (lists.write sgl object) :=
  ⟨h.counter, h.array⟩

theorem view_grown (base : Nat) (counter : WrapAroundCounter) (id : Nat) :
    view { grown lists base with idCounter := counter } id = view lists id := by
  unfold view
  show (if id < (grown lists base).nIndexes then
    (grown lists base).array.bind fun base => (grown lists base).memory base id else none) = _
  rw [nIndexes_grown]
  rcases lt_or_ge id lists.nIndexes with hlt | hge
  · rw [if_pos (by omega), if_pos hlt]
    have hnot : ¬ (lists.nIndexes ≤ id ∧ id < lists.nIndexes + growthStride) := by omega
    simp [grown, IdArray.zero, IdArray.resizeToHoldIndex, hlt, hnot]
  · rw [if_neg (Nat.not_lt.mpr hge)]
    split_ifs with hnew
    · simp [grown, IdArray.zero, IdArray.resizeToHoldIndex, hge, hnew]
    · rfl

theorem memory_grown (hslot : SlotAt lists id sgl) (base : Nat) :
    (grown lists base).memory sgl.base sgl.index = lists.memory sgl.base sgl.index := by
  obtain ⟨hlt, harray, rfl⟩ := hslot
  have hnot : ¬ (lists.nIndexes ≤ sgl.index ∧ sgl.index < lists.nIndexes + growthStride) := by omega
  simp [grown, IdArray.zero, IdArray.resizeToHoldIndex, hlt, hnot, harray]

theorem isNull_iff_view (hlt : id < lists.nIndexes) :
    lists.isNull id = true ↔ view lists id = none := by
  rw [view, if_pos hlt]
  unfold IdArray.isNull
  cases lists.array with
  | none => simp
  | some base => simp

structure Allocates (lists lists' : IdArray SgList) (newId : Nat) (retlist : Pointer) : Prop where
  slot : SlotAt lists' newId retlist
  free : view lists newId = none
  made : view lists' newId = some newList
  others : ∀ id, id ≠ newId → view lists' id = view lists id
  kept : ∀ id sgl list, SlotAt lists id sgl → view lists id = some list →
    lists.memory sgl.base sgl.index = some list → lists'.memory sgl.base sgl.index = some list

theorem construct_allocates (between : IdArray SgList) {newId : Nat} {newObj : Option Pointer}
    {made : Pointer × IdArray SgList} (hview : ∀ id, view between id = view lists id)
    (hkept : ∀ id sgl, SlotAt lists id sgl →
      between.memory sgl.base sgl.index = lists.memory sgl.base sgl.index)
    (hfree : view lists newId = none) (hlt : newId < between.nIndexes)
    (hobj : ∀ obj, newObj = some obj → between.slot newId = some obj)
    (h : between.construct newId newObj newList = some made) :
    Allocates lists made.2 newId made.1 ∧ made.2 = between.write made.1 (some newList) := by
  have hmade : SlotAt between newId made.1 ∧ made.2 = between.write made.1 (some newList) := by
    unfold IdArray.construct at h
    cases newObj with
    | some obj =>
      cases h
      exact ⟨slotAt_of_slot hlt (hobj obj rfl), rfl⟩
    | none =>
      cases hslot : between.slot newId with
      | none =>
        rw [hslot] at h
        cases h
      | some obj =>
        rw [hslot] at h
        cases h
        exact ⟨slotAt_of_slot hlt hslot, rfl⟩
  obtain ⟨hslot, hwrite⟩ := hmade
  refine ⟨⟨?_, hfree, ?_, ?_, ?_⟩, hwrite⟩
  · rw [hwrite]
    exact ⟨hslot.lt, hslot.array, hslot.index⟩
  · rw [hwrite, view_write hslot, if_pos rfl]
  · intro id hne
    rw [hwrite, view_write hslot, if_neg hne, hview]
  · intro id sgl list hsgl hlistView hmemory
    have hne : sgl.index ≠ made.1.index := by
      intro heq
      have hid : id = newId := by
        rw [← hsgl.index, heq]
        exact hslot.index
      rw [hid, hfree] at hlistView
      cases hlistView
    rw [hwrite]
    show (if sgl.base = made.1.base ∧ sgl.index = made.1.index then some newList
      else between.memory sgl.base sgl.index) = _
    rw [if_neg fun hsame => hne hsame.2, hkept id sgl hsgl, hmemory]

theorem allocate_cases (h : Sized lists) {newmem : Option Nat}
    {result : Except Kerror (Nat × Pointer)}
    (halloc : allocateScatterGatherList lists newmem = some (result, lists')) : Sized lists' ∧
      ((∃ error, result = .error error ∧ ∀ id, view lists' id = view lists id) ∨
        ∃ newId retlist, result = .ok (newId, retlist) ∧ Allocates lists lists' newId retlist) := by
  unfold allocateScatterGatherList at halloc
  obtain ⟨id, counter, heq, hfree, hcounter⟩ | ⟨counter, heq, hcounter⟩ |
    ⟨base, counter, -, heq, hfull, hcounter⟩ := chooseId_cases h newmem
  · rw [heq] at halloc
    obtain ⟨made, hmade, hresult⟩ := map_eq_some_iff.mp halloc
    obtain ⟨rfl, rfl⟩ := Prod.mk.inj hresult
    have hview : ∀ id, view { lists with idCounter := counter } id = view lists id := fun id => rfl
    obtain ⟨hallocates, hwrite⟩ := construct_allocates { lists with idCounter := counter } hview
      (fun id sgl _ => rfl) ((isNull_iff_view hfree.lt).mp hfree.null) hfree.lt
      (fun obj hobj => by cases hobj) hmade
    refine ⟨?_, Or.inr ⟨_, _, rfl, hallocates⟩⟩
    rw [hwrite]
    exact ⟨hcounter, h.array⟩
  · rw [heq] at halloc
    cases halloc
    exact ⟨⟨hcounter, h.array⟩, Or.inl ⟨_, rfl, fun id => rfl⟩⟩
  · rw [heq] at halloc
    obtain ⟨made, hmade, hresult⟩ := map_eq_some_iff.mp halloc
    obtain ⟨rfl, rfl⟩ := Prod.mk.inj hresult
    have hfree : view lists lists.nIndexes = none := by rw [view, if_neg (Nat.lt_irrefl _)]
    have hlt : lists.nIndexes < (grown lists base).nIndexes := by
      rw [nIndexes_grown]
      exact Nat.lt_add_of_pos_right (by decide)
    obtain ⟨hallocates, hwrite⟩ := construct_allocates { grown lists base with idCounter := counter }
      (view_grown base counter) (fun id sgl hslot => memory_grown hslot base) hfree hlt
      (fun obj hobj => by
        cases hobj
        exact slot_grown base (Nat.lt_add_of_pos_right (by decide))) hmade
    refine ⟨?_, Or.inr ⟨_, _, rfl, hallocates⟩⟩
    rw [hwrite]
    refine ⟨?_, fun _ => rfl⟩
    show Covers counter (grown lists base).nIndexes
    exact hcounter

end

section

variable {system next : System} {lists lists' : IdArray SgList} {process : Nat}

theorem listAt_eq_view (hlists : system.streams process = some lists) (id : Nat) :
    listAt system process id = view lists id := by
  unfold listAt
  rw [hlists]
  rfl

theorem listAt_setStream (system : System) (process : Nat) (lists : IdArray SgList)
    (other id : Nat) :
    listAt (system.setStream process lists) other id =
      if other = process then view lists id else listAt system other id := by
  unfold listAt System.setStream
  dsimp only
  rw [update_apply]
  split_ifs
  · rfl
  · rfl

variable {id destStreamId srcListId newDestId : Nat} {sgl : Pointer} {result : Result}
  {list : SgList} {newmem : Option Nat}

theorem listAt_write (hlists : system.streams process = some lists)
    (hslot : SlotAt lists id sgl) (pools : List Pool) (object : Option SgList)
    (other id' : Nat) :
    listAt ({ system with pools := pools }.setStream process (lists.write sgl object)) other id' =
      if (other, id') = (process, id) then object else listAt system other id' := by
  rw [listAt_setStream, view_write hslot]
  rcases eq_or_ne other process with rfl | hne
  · rw [if_pos rfl]
    rcases eq_or_ne id' id with rfl | hid
    · rw [if_pos rfl, if_pos rfl]
    · rw [if_neg hid, if_neg fun heq => hid (Prod.mk.inj heq).2, listAt_eq_view hlists]
  · rw [if_neg hne, if_neg fun heq => hne (Prod.mk.inj heq).1]
    rfl

def AllSized (system : System) : Prop :=
  ∀ process lists, system.streams process = some lists → Sized lists

structure Consistent (system : System) : Prop where
  sized : AllSized system
  tidy : Tidy system.pools
  keeps : Keeps system

theorem AllSized.setStream (h : AllSized system) (hsized : Sized lists') (process : Nat)
    (pools : List Pool) :
    AllSized ({ system with pools := pools }.setStream process lists') := by
  intro other lists hlists
  unfold System.setStream at hlists
  dsimp only at hlists
  rw [update_apply] at hlists
  split_ifs at hlists
  · cases hlists
    exact hsized
  · exact h other lists hlists

theorem Keeps.of_lists (h : Keeps system) (hpools : next.pools = system.pools)
    (hlists : ∀ process id list, listAt next process id = some list → list.elements = [] ∨
      ∃ list', listAt system process id = some list' ∧ list'.elements = list.elements) :
    Keeps next := by
  have hbefore : ∀ process id list pfn, listAt next process id = some list → list.Covers pfn →
      ∃ list', listAt system process id = some list' ∧ list'.Covers pfn := by
    rintro process id list pfn hlist ⟨element, helement, hcovers⟩
    obtain hnone | ⟨list', hlist', heq⟩ := hlists process id list hlist
    · rw [hnone] at helement
      cases helement
    · exact ⟨list', hlist', element, heq ▸ helement, hcovers⟩
  constructor
  · intro process id list pfn hlist hcovers
    obtain ⟨list', hlist', hcovers'⟩ := hbefore process id list pfn hlist hcovers
    rw [hpools]
    exact h.used process id list' pfn hlist' hcovers'
  · intro process id list process' id' list' pfn hlist hlist' hcovers hcovers'
    obtain ⟨old, hold, holdCovers⟩ := hbefore process id list pfn hlist hcovers
    obtain ⟨old', hold', holdCovers'⟩ := hbefore process' id' list' pfn hlist' hcovers'
    exact h.one process id old process' id' old' pfn hold hold' holdCovers holdCovers'

theorem freeSGListElements_evolves {elements : List (Option Element)} {pools pools' : List Pool}
    (h : SgList.freeSGListElements elements pools = some pools') :
    Evolves (fun pfn => ∃ element, some element ∈ elements ∧
      MemoryTrib.Frees pools (element.startPfn * pagingBaseSize)
        (element.nFrames * pagingBaseSize % wordModulus) pfn) pools pools' := by
  induction elements generalizing pools with
  | nil =>
    obtain rfl := some.inj h
    exact Evolves.refl _ pools
  | cons element rest ih =>
    cases element with
    | none => cases h
    | some element =>
      unfold SgList.freeSGListElements at h
      cases hrelease : releaseFrames (element.startPfn * pagingBaseSize)
        (element.nFrames * pagingBaseSize % wordModulus) pools with
      | none =>
        rw [hrelease] at h
        cases h
      | some between =>
        rw [hrelease] at h
        -- A number of bytes is never one.
        have hcount : element.nFrames * pagingBaseSize % wordModulus ≠ 1 := by
          simp only [pagingBaseSize, wordModulus]
          omega
        have hfirst := releaseFrames_evolves hcount hrelease
        refine Evolves.trans (hfirst.mono ?_) ((ih h).mono ?_)
        · intro pfn hfrees
          exact ⟨element, mem_cons_self, hfrees⟩
        · rintro pfn ⟨other, hother, hfrees⟩
          exact ⟨other, mem_cons_of_mem _ hother, hfirst.frees hfrees⟩

theorem release_cases {justTransfer : Bool}
    (hrelease : releaseScatterGatherList system lists process id justTransfer = some (result, next)) :
    (getScatterGatherList lists id = none ∧ next = system) ∨
      ∃ sgl list pools, getScatterGatherList lists id = some (sgl, list) ∧
        Evolves (list.Frees system.pools) system.pools pools ∧
        next = { system with pools := pools }.setStream process (lists.write sgl none) := by
  unfold releaseScatterGatherList at hrelease
  cases hlist : getScatterGatherList lists id with
  | none =>
    rw [hlist] at hrelease
    exact .inl ⟨rfl, (Prod.mk.inj (some.inj hrelease)).2.symm⟩
  | some found =>
    obtain ⟨sgl, list⟩ := found
    rw [hlist] at hrelease
    dsimp only at hrelease
    rw [ite_self] at hrelease
    cases hdestroy : list.destroySGList false system.pools with
    | none =>
      rw [hdestroy] at hrelease
      cases hrelease
    | some pools =>
      rw [hdestroy] at hrelease
      exact .inr ⟨sgl, list, pools, rfl, freeSGListElements_evolves hdestroy,
        (Prod.mk.inj (some.inj hrelease)).2.symm⟩

theorem Consistent.release (h : Consistent system) (hlists : system.streams process = some lists)
    (hid : id + 1 < wordModulus) (hguard : Spares system (.release process id))
    (hrelease : releaseScatterGatherList system lists process id false = some (result, next)) :
    Consistent next := by
  obtain ⟨-, rfl⟩ | ⟨sgl, list, pools, hlist, hevolves, rfl⟩ := release_cases hrelease
  · exact h
  obtain ⟨hslot, -, hview⟩ := getScatterGatherList_eq_some hid hlist
  have hspares := hguard list ((listAt_eq_view hlists id).trans hview)
  have hothers : ∀ other id' list', listAt ({ system with pools := pools }.setStream process
      (lists.write sgl none)) other id' = some list' →
      listAt system other id' = some list' ∧ ¬ (other = process ∧ id' = id) := by
    intro other id' list' hlist'
    rw [listAt_write hlists hslot] at hlist'
    split_ifs at hlist' with hsame
    exact ⟨hlist', fun hboth => hsame (by rw [hboth.1, hboth.2])⟩
  refine ⟨?_, ?_, ?_, ?_⟩
  · exact h.sized.setStream (sized_write (h.sized process lists hlists) sgl none) process pools
  · exact h.tidy.evolve hevolves fun pfn hfrees => (hspares pfn hfrees).2
  · intro other id' list' pfn hlist' hcovers
    obtain ⟨hbefore, hne⟩ := hothers other id' list' hlist'
    refine (h.keeps.used other id' list' pfn hbefore hcovers).evolve hevolves ?_
    intro hfrees
    exact hne ((hspares pfn hfrees).1 other id' list' hbefore hcovers)
  · intro first id₁ list₁ second id₂ list₂ pfn hlist₁ hlist₂
    exact h.keeps.one first id₁ list₁ second id₂ list₂ pfn (hothers _ _ _ hlist₁).1
      (hothers _ _ _ hlist₂).1

theorem Consistent.enlarge (h : Consistent system) (hlists : system.streams process = some lists)
    {elements : List Element} {pools : List Pool}
    (hid : id + 1 < wordModulus) (hlist : getScatterGatherList lists id = some (sgl, list))
    (hout : HandsOut elements system.pools pools) :
    Consistent ({ system with pools := pools }.setStream process
      (lists.write sgl (some { list with elements := list.elements ++ elements.map some }))) := by
  obtain ⟨hslot, -, hview⟩ := getScatterGatherList_eq_some hid hlist
  have hat : listAt system process id = some list := (listAt_eq_view hlists id).trans hview
  -- A frame of a list is an old frame of it, or one of the new frames and the list that of `id`.
  have hbefore : ∀ other id' list' pfn, listAt ({ system with pools := pools }.setStream process
      (lists.write sgl (some { list with elements := list.elements ++ elements.map some })))
      other id' = some list' → list'.Covers pfn →
      (∃ old, listAt system other id' = some old ∧ old.Covers pfn) ∨
        (other = process ∧ id' = id) ∧ ∃ element ∈ elements, element.Covers pfn := by
    rintro other id' list' pfn hlist' ⟨element, helement, hcovers⟩
    rw [listAt_write hlists hslot] at hlist'
    split_ifs at hlist' with hsame
    · cases hlist'
      obtain ⟨rfl, rfl⟩ := Prod.mk.inj hsame
      rcases mem_append.mp helement with hold | hnew
      · exact .inl ⟨list, hat, element, hold, hcovers⟩
      · obtain ⟨element', helement', heq⟩ := mem_map.mp hnew
        obtain rfl := some.inj heq
        exact .inr ⟨⟨rfl, rfl⟩, element', helement', hcovers⟩
    · exact .inl ⟨list', hlist', element, helement, hcovers⟩
  -- The new frames were in no list.
  have hfresh : ∀ other id' old pfn, listAt system other id' = some old → old.Covers pfn →
      ¬ ∃ element ∈ elements, element.Covers pfn := by
    rintro other id' old pfn hold hcovers ⟨element, helement, hcovers'⟩
    exact hout.not_used helement hcovers' (h.keeps.used other id' old pfn hold hcovers)
  refine ⟨?_, ?_, ?_, ?_⟩
  · exact h.sized.setStream (sized_write (h.sized process lists hlists) sgl _) process pools
  · exact h.tidy.evolve hout.evolves fun pfn hfalse => hfalse.elim
  · intro other id' list' pfn hlist' hcovers
    obtain ⟨old, hold, hcovers'⟩ | ⟨-, element, helement, hcovers'⟩ :=
      hbefore other id' list' pfn hlist' hcovers
    · exact (h.keeps.used other id' old pfn hold hcovers').evolve hout.evolves fun hfalse => hfalse
    · exact hout.used h.tidy helement hcovers'
  · intro first id₁ list₁ second id₂ list₂ pfn hlist₁ hlist₂ hcovers₁ hcovers₂
    obtain ⟨old₁, hold₁, hcovers₁'⟩ | ⟨⟨rfl, rfl⟩, hnew₁⟩ :=
      hbefore first id₁ list₁ pfn hlist₁ hcovers₁
    · obtain ⟨old₂, hold₂, hcovers₂'⟩ | ⟨-, hnew₂⟩ :=
        hbefore second id₂ list₂ pfn hlist₂ hcovers₂
      · exact h.keeps.one first id₁ old₁ second id₂ old₂ pfn hold₁ hold₂ hcovers₁' hcovers₂'
      · exact absurd hnew₂ (hfresh first id₁ old₁ pfn hold₁ hcovers₁')
    · obtain ⟨old₂, hold₂, hcovers₂'⟩ | ⟨⟨rfl, rfl⟩, -⟩ :=
        hbefore second id₂ list₂ pfn hlist₂ hcovers₂
      · exact absurd hnew₁ (hfresh second id₂ old₂ pfn hold₂ hcovers₂')
      · exact ⟨rfl, rfl⟩

theorem Consistent.resize (h : Consistent system) (hlists : system.streams process = some lists)
    {nFrames : Nat} {memory : List Bool} (hid : id + 1 < wordModulus)
    (hguard : Spares system (.resize process id nFrames memory))
    (hresize : resizeScatterGatherList system lists process id nFrames memory = some (result, next)) :
    Consistent next := by
  unfold resizeScatterGatherList at hresize
  split_ifs at hresize with hzero
  · cases hresize
    exact h
  cases hlist : getScatterGatherList lists id with
  | none =>
    rw [hlist] at hresize
    cases hresize
    exact h
  | some found =>
    obtain ⟨sgl, list⟩ := found
    rw [hlist] at hresize
    dsimp only at hresize
    rcases lt_or_ge list.getNFrames nFrames with hmore | henough
    swap
    · rw [if_pos henough] at hresize
      cases hresize
      exact h
    rw [if_neg (Nat.not_le.mpr hmore)] at hresize
    have hat : listAt system process id = some list :=
      (listAt_eq_view hlists id).trans (getScatterGatherList_eq_some hid hlist).2.2
    cases hframes : constrainedGetFrames list.compiledConstraints (nFrames - list.getNFrames)
      list.elements memory system.pools with
    | panicked =>
      rw [hframes] at hresize
      cases hresize
    | failed =>
      rw [hframes] at hresize
      split_ifs at hresize
      · cases hresize
        exact h
      · cases hresize
        exact h
    | frames nNewFrames list' pools =>
      rw [hframes] at hresize
      dsimp only at hresize
      split_ifs at hresize
      cases hresize
      obtain ⟨elements, rfl, hout⟩ := constrainedGetFrames_handsOut (hguard list hat) hframes
      exact h.enlarge hlists hid hlist hout

theorem source_after_allocation {dest dest' : IdArray SgList} {srcList retlist : Pointer}
    (hlists : system.streams process = some lists)
    (hdest : system.streams destStreamId = some dest) (hid : srcListId + 1 < wordModulus)
    (hlist : getScatterGatherList lists srcListId = some (srcList, list))
    (hallocates : Allocates dest dest' newDestId retlist) :
    (((system.setStream destStreamId dest').streams process).bind fun lists =>
      lists.memory srcList.base srcList.index) = some list ∧
      (process, srcListId) ≠ (destStreamId, newDestId) := by
  obtain ⟨hslot, hmemory, hview⟩ := getScatterGatherList_eq_some hid hlist
  unfold System.setStream
  dsimp only
  rw [update_apply]
  rcases eq_or_ne process destStreamId with rfl | hne
  · rw [hlists] at hdest
    cases hdest
    rw [if_pos rfl]
    refine ⟨hallocates.kept srcListId srcList list hslot hview hmemory, ?_⟩
    intro heq
    rw [(Prod.mk.inj heq).2, hallocates.free] at hview
    cases hview
  · rw [if_neg hne, hlists]
    exact ⟨hmemory, fun heq => hne (Prod.mk.inj heq).1⟩

theorem listAt_copied {dest dest' : IdArray SgList} {retlist : Pointer} (list : SgList)
    (hdest : system.streams destStreamId = some dest)
    (hallocates : Allocates dest dest' newDestId retlist) (other id : Nat) :
    listAt (system.setStream destStreamId (dest'.write retlist (some list))) other id =
      if (other, id) = (destStreamId, newDestId) then some list else listAt system other id := by
  rw [listAt_setStream, view_write hallocates.slot]
  rcases eq_or_ne other destStreamId with rfl | hne
  · rw [if_pos rfl]
    rcases eq_or_ne id newDestId with rfl | hid
    · rw [if_pos rfl, if_pos rfl]
    · rw [if_neg hid, if_neg fun heq => hid (Prod.mk.inj heq).2, hallocates.others id hid,
        listAt_eq_view hdest]
  · rw [if_neg hne, if_neg fun heq => hne (Prod.mk.inj heq).1]

theorem transfer_cases (h : Consistent system) (hlists : system.streams process = some lists)
    (hid : srcListId + 1 < wordModulus)
    (hguard : Spares system (.transfer process destStreamId srcListId newmem))
    (htransfer : transferScatterGatherList system lists process destStreamId srcListId newmem =
      some (result, next)) :
    AllSized next ∧
      ((∃ error, result = .status error ∧ next.pools = system.pools ∧
          ∀ other id, listAt next other id = listAt system other id) ∨
        ∃ newDestId, result = .id newDestId ∧
          Evolves (fun _ => False) system.pools next.pools ∧
          Moves system next process srcListId destStreamId newDestId) := by
  unfold transferScatterGatherList at htransfer
  cases hdest : system.streams destStreamId with
  | none =>
    rw [hdest] at htransfer
    cases htransfer
    exact ⟨h.sized, .inl ⟨_, rfl, rfl, fun other id => rfl⟩⟩
  | some dest =>
  cases hlist : getScatterGatherList lists srcListId with
  | none =>
    rw [hdest, hlist] at htransfer
    cases htransfer
    exact ⟨h.sized, .inl ⟨_, rfl, rfl, fun other id => rfl⟩⟩
  | some found =>
  obtain ⟨srcList, list⟩ := found
  rw [hdest, hlist] at htransfer
  dsimp only at htransfer
  cases halloc : allocateScatterGatherList dest newmem with
  | none =>
    rw [halloc] at htransfer
    cases htransfer
  | some allocated =>
  obtain ⟨answer, dest'⟩ := allocated
  rw [halloc] at htransfer
  obtain ⟨hsized, ⟨error, rfl, hsame⟩ | ⟨newDestId, retlist, rfl, hallocates⟩⟩ :=
    allocate_cases (h.sized destStreamId dest hdest) halloc
  · cases htransfer
    refine ⟨h.sized.setStream hsized destStreamId system.pools, .inl ⟨error, rfl, rfl, ?_⟩⟩
    intro other id
    rw [listAt_setStream]
    split_ifs with hother
    · rw [hother, hsame, listAt_eq_view hdest]
    · rfl
  · dsimp only at htransfer
    obtain ⟨hobject, hne⟩ := source_after_allocation hlists hdest hid hlist hallocates
    rw [hobject] at htransfer
    let copied : System := (system.setStream destStreamId dest').setStream destStreamId
      (dest'.write retlist (some list))
    have hcopied : copied = system.setStream destStreamId (dest'.write retlist (some list)) := by
      show System.mk (update (update _ _ _) _ _) _ = _
      rw [update_idem]
      rfl
    have hat := listAt_copied list hdest hallocates
    rw [← hcopied] at hat
    have hsizedCopied : AllSized copied := by
      rw [hcopied]
      exact h.sized.setStream (sized_write hsized retlist _) destStreamId system.pools
    cases hsource : copied.streams process with
    | none =>
      rw [hsource] at htransfer
      cases htransfer
    | some lists' =>
      rw [hsource] at htransfer
      obtain ⟨released, hrelease, hresult⟩ := map_eq_some_iff.mp htransfer
      obtain ⟨rfl, rfl⟩ := Prod.mk.inj hresult
      have hview : listAt system process srcListId = some list :=
        (listAt_eq_view hlists srcListId).trans (getScatterGatherList_eq_some hid hlist).2.2
      have hsourceList : view lists' srcListId = some list := by
        rw [← listAt_eq_view hsource, hat, if_neg hne, hview]
      obtain ⟨hnone, -⟩ | ⟨sgl, list', pools, hlist', hevolves, hnext⟩ := release_cases hrelease
      · exact absurd hnone (getScatterGatherList_of_view hsourceList)
      · obtain ⟨hslot, -, hview'⟩ := getScatterGatherList_eq_some hid hlist'
        rw [hsourceList] at hview'
        cases hview'
        have hnothing : Evolves (fun _ => False) system.pools pools :=
          hevolves.mono fun pfn hfrees => hguard list hview pfn hfrees
        have hnextAt := listAt_write hsource hslot pools none
        rw [← hnext] at hnextAt
        refine ⟨?_, .inr ⟨newDestId, rfl, ?_, ?_, ?_, ?_, ?_⟩⟩
        · rw [hnext]
          exact hsizedCopied.setStream
            (sized_write (hsizedCopied process lists' hsource) sgl none) process pools
        · rw [hnext]
          exact hnothing
        · intro pfn hused
          rw [hnext]
          exact hused.evolve hnothing fun hfalse => hfalse
        · rw [hnextAt, if_neg hne.symm, hat, if_pos rfl, hview]
        · rw [hnextAt, if_pos rfl]
        · intro other id hsrc hdst
          rw [hnextAt, if_neg hsrc, hat, if_neg hdst]

theorem Moves.keeps (h : Keeps system)
    (hmoves : Moves system next process srcListId destStreamId newDestId) : Keeps next := by
  -- Every list of `next` was in the system before; the slot of the source is empty.
  have hbefore : ∀ other id list, listAt next other id = some list →
      (other, id) ≠ (process, srcListId) ∧
        ((other, id) = (destStreamId, newDestId) ∧ listAt system process srcListId = some list ∨
          (other, id) ≠ (destStreamId, newDestId) ∧ listAt system other id = some list) := by
    intro other id list hlist
    have hsource : (other, id) ≠ (process, srcListId) := by
      intro heq
      obtain ⟨rfl, rfl⟩ := Prod.mk.inj heq
      rw [hmoves.gone] at hlist
      cases hlist
    refine ⟨hsource, ?_⟩
    rcases eq_or_ne (other, id) (destStreamId, newDestId) with heq | hne
    · obtain ⟨rfl, rfl⟩ := Prod.mk.inj heq
      exact .inl ⟨rfl, hmoves.moved.symm.trans hlist⟩
    · exact .inr ⟨hne, (hmoves.others other id hsource hne).symm.trans hlist⟩
  constructor
  · intro other id list pfn hlist hcovers
    obtain ⟨-, ⟨-, hold⟩ | ⟨-, hold⟩⟩ := hbefore other id list hlist
    · exact hmoves.allocated pfn (h.used _ _ list pfn hold hcovers)
    · exact hmoves.allocated pfn (h.used _ _ list pfn hold hcovers)
  · intro first id₁ list₁ second id₂ list₂ pfn hlist₁ hlist₂ hcovers₁ hcovers₂
    obtain ⟨hsrc₁, ⟨heq₁, hold₁⟩ | ⟨hne₁, hold₁⟩⟩ := hbefore first id₁ list₁ hlist₁
    · obtain ⟨hsrc₂, ⟨heq₂, -⟩ | ⟨-, hold₂⟩⟩ := hbefore second id₂ list₂ hlist₂
      · exact Prod.mk.inj (heq₁.trans heq₂.symm)
      · obtain ⟨rfl, rfl⟩ := h.one _ _ list₁ _ _ list₂ pfn hold₁ hold₂ hcovers₁ hcovers₂
        exact absurd rfl hsrc₂
    · obtain ⟨hsrc₂, ⟨-, hold₂⟩ | ⟨-, hold₂⟩⟩ := hbefore second id₂ list₂ hlist₂
      · obtain ⟨rfl, rfl⟩ := h.one _ _ list₁ _ _ list₂ pfn hold₁ hold₂ hcovers₁ hcovers₂
        exact absurd rfl hsrc₁
      · exact h.one _ _ list₁ _ _ list₂ pfn hold₁ hold₂ hcovers₁ hcovers₂

variable (h : Consistent system)

include h

variable (hlists : system.streams process = some lists)

include hlists

theorem Consistent.transfer (hid : srcListId + 1 < wordModulus)
    (hguard : Spares system (.transfer process destStreamId srcListId newmem))
    (htransfer : transferScatterGatherList system lists process destStreamId srcListId newmem =
      some (result, next)) : Consistent next := by
  obtain ⟨hsized, ⟨error, -, hpools, hsame⟩ | ⟨newDestId, -, hevolves, hmoves⟩⟩ :=
    transfer_cases h hlists hid hguard htransfer
  · refine ⟨hsized, hpools ▸ h.tidy, h.keeps.of_lists hpools ?_⟩
    intro other id list hlist
    exact .inr ⟨list, (hsame other id).symm.trans hlist, rfl⟩
  · exact ⟨hsized, h.tidy.evolve hevolves fun pfn hfalse => hfalse.elim, hmoves.keeps h.keeps⟩

theorem Consistent.allocate {answer : Except Kerror (Nat × Pointer)}
    (halloc : allocateScatterGatherList lists newmem = some (answer, lists')) :
    Consistent (system.setStream process lists') := by
  obtain ⟨hsized, hcases⟩ := allocate_cases (h.sized process lists hlists) halloc
  refine ⟨h.sized.setStream hsized process system.pools, h.tidy, h.keeps.of_lists rfl ?_⟩
  intro other id list hlist
  rw [listAt_setStream] at hlist
  split_ifs at hlist with hother
  · rw [hother, listAt_eq_view hlists]
    obtain ⟨error, -, hsame⟩ | ⟨newId, retlist, -, hallocates⟩ := hcases
    · exact .inr ⟨list, (hsame id).symm.trans hlist, rfl⟩
    · rcases eq_or_ne id newId with rfl | hne
      · rw [hallocates.made] at hlist
        cases hlist
        exact .inl rfl
      · exact .inr ⟨list, (hallocates.others id hne).symm.trans hlist, rfl⟩
  · exact .inr ⟨list, hlist, rfl⟩

theorem Consistent.constrain (hid : id + 1 < wordModulus)
    (hlist : getScatterGatherList lists id = some (sgl, list)) (compiledCon : Compiler) :
    Consistent (system.setStream process
      (lists.write sgl (some { list with compiledConstraints := compiledCon }))) := by
  obtain ⟨hslot, -, hview⟩ := getScatterGatherList_eq_some hid hlist
  refine ⟨h.sized.setStream (sized_write (h.sized process lists hlists) sgl _) process system.pools,
    h.tidy, h.keeps.of_lists rfl ?_⟩
  intro other id' list' hlist'
  have hwritten := listAt_write hlists hslot system.pools
    (some { list with compiledConstraints := compiledCon }) other id'
  rw [hlist'] at hwritten
  split_ifs at hwritten with hsame
  · cases hwritten
    obtain ⟨rfl, rfl⟩ := Prod.mk.inj hsame
    exact .inr ⟨list, (listAt_eq_view hlists id').trans hview, rfl⟩
  · exact .inr ⟨list', hwritten.symm, rfl⟩

omit hlists

theorem step_consistent (call : Call) (hproper : Proper call) (hguard : Spares system call)
    (hstep : step system call = some (result, next)) : Consistent next := by
  unfold step at hstep
  cases hlists : system.streams call.process with
  | none =>
    rw [hlists] at hstep
    cases hstep
  | some lists =>
    rw [hlists] at hstep
    cases call with
    | allocate process newmem =>
      unfold stepOn at hstep
      dsimp only at hstep
      cases halloc : allocateScatterGatherList lists newmem with
      | none =>
        rw [halloc] at hstep
        cases hstep
      | some allocated =>
        obtain ⟨answer, lists'⟩ := allocated
        rw [halloc] at hstep
        have hnext : next = system.setStream process lists' := by
          cases answer with
          | error error => exact (Prod.mk.inj (some.inj hstep)).2.symm
          | ok made => exact (Prod.mk.inj (some.inj hstep)).2.symm
        rw [hnext]
        exact h.allocate hlists halloc
    | constrain process id compiledCon =>
      unfold stepOn at hstep
      dsimp only at hstep
      cases hlist : getScatterGatherList lists id with
      | none =>
        rw [hlist] at hstep
        cases hstep
        exact h
      | some found =>
        obtain ⟨sgl, list⟩ := found
        rw [hlist] at hstep
        cases hstep
        exact h.constrain hlists hproper hlist compiledCon
    | resize process id nFrames memory => exact h.resize hlists hproper hguard hstep
    | transfer process destStreamId srcListId newmem =>
      exact h.transfer hlists hproper hguard hstep
    | release process id => exact h.release hlists hproper hguard hstep

omit h

theorem Consistent.of_initial (h : Initial system) : Consistent system := by
  have hempty : ∀ process id, listAt system process id = none := by
    intro process id
    cases hlists : system.streams process with
    | none =>
      unfold listAt
      rw [hlists]
      rfl
    | some lists =>
      obtain ⟨-, hsize, -⟩ := h.streams process lists hlists
      rw [listAt_eq_view hlists, view, hsize, if_neg (Nat.not_lt_zero id)]
  refine ⟨?_, h.tidy, ?_, ?_⟩
  · intro process lists hlists
    obtain ⟨-, hsize, hcounter⟩ := h.streams process lists hlists
    refine ⟨⟨?_, ?_⟩, ?_⟩
    · rw [hcounter]
    · rw [hcounter, hsize]
      rfl
    · intro hpos
      omega
  · intro process id list pfn hlist
    rw [hempty] at hlist
    cases hlist
  · intro process id list process' id' list' pfn hlist
    rw [hempty] at hlist
    cases hlist

end

/-- In every sequence of calls that meet the condition, every frame of a list is in use and
in no other list, and a transfer moves the list with its frames. -/
theorem reachable_keeps {system : System}
    (h : Reachable Initial
      (GuardedStep step fun system call => Proper call ∧ Spares system call) system) :
    Keeps system ∧ ∀ process destStreamId srcListId newmem newDestId next,
        srcListId + 1 < wordModulus →
        Spares system (.transfer process destStreamId srcListId newmem) →
        step system (.transfer process destStreamId srcListId newmem) = some (.id newDestId, next) →
        Moves system next process srcListId destStreamId newDestId := by
  have hconsistent : Consistent system := by
    refine Reachable.invariant ?_ ?_ h
    · intro start hstart
      exact Consistent.of_initial hstart
    · rintro state next hstate ⟨call, result, ⟨hproper, hguard⟩, hstep⟩
      exact step_consistent hstate call hproper hguard hstep
  refine ⟨hconsistent.keeps, ?_⟩
  intro process destStreamId srcListId newmem newDestId next hid hguard hstep
  unfold step at hstep
  cases hlists : system.streams process with
  | none =>
    simp only [Call.process, hlists] at hstep
    cases hstep
  | some lists =>
    simp only [Call.process, hlists] at hstep
    obtain ⟨-, ⟨error, hresult, -⟩ | ⟨newDestId', hresult, -, hmoves⟩⟩ :=
      transfer_cases hconsistent hlists hid hguard hstep
    · cases hresult
    · obtain rfl := Result.id.inj hresult
      exact hmoves

/-- No bitmap accepts what `freeSGListElements` passes to it. -/
def refused (pools : List Pool) (list : SgList) : Bool :=
  list.elements.all fun element =>
    match element with
    | none => true
    | some element => pools.all fun pool =>
      !(pool.isRange && pool.identifyPaddr (element.startPfn * pagingBaseSize) &&
        decide (pool.bmp.Accepts (element.startPfn * pagingBaseSize)
          (element.nFrames * pagingBaseSize % wordModulus)))

theorem not_frees_of_refused {pools : List Pool} {list : SgList} (h : refused pools list = true)
    (pfn : Nat) : ¬ list.Frees pools pfn := by
  rintro ⟨element, helement, pool, hpool, hrange, hidentify, haccepts, -⟩
  have hrefused := all_eq_true.mp (all_eq_true.mp h _ helement) pool hpool
  rw [hrange, hidentify, decide_eq_true haccepts] at hrefused
  cases hrefused

instance : ∀ call, Decidable (Proper call)
  | .allocate _ _ => isTrue trivial
  | .constrain _ _ _ | .resize _ _ _ _ | .transfer _ _ _ _ | .release _ _ =>
    inferInstanceAs (Decidable (_ < _))

def Checked (system : System) : Call → Prop
  | .resize process id nFrames _ => ∀ list ∈ listAt system process id,
      Ordered system.pools list.compiledConstraints (nFrames - list.getNFrames)
  | .release process id => ∀ list ∈ listAt system process id, refused system.pools list = true
  | .transfer process _ srcListId _ => ∀ list ∈ listAt system process srcListId,
      refused system.pools list = true
  | _ => True

instance (pools : List Pool) (c : Compiler) (nFrames : Nat) :
    Decidable (Ordered pools c nFrames) :=
  inferInstanceAs (Decidable (∀ pool ∈ pools, List.Pairwise _ _))

instance (system : System) : ∀ call, Decidable (Checked system call)
  | .resize _ _ _ _ => inferInstanceAs (Decidable (∀ _ ∈ _, _))
  | .release _ _ => inferInstanceAs (Decidable (∀ _ ∈ _, _))
  | .transfer _ _ _ _ => inferInstanceAs (Decidable (∀ _ ∈ _, _))
  | .allocate _ _ => isTrue trivial
  | .constrain _ _ _ => isTrue trivial

theorem spares_of_checked (system : System) (call : Call) (h : Checked system call) :
    Spares system call := by
  cases call with
  | allocate process newmem => trivial
  | constrain process id compiledCon => trivial
  | resize process id nFrames memory => exact h
  | transfer process destStreamId srcListId newmem =>
    intro list hlist pfn
    exact not_frees_of_refused (h list hlist) pfn
  | release process id =>
    intro list hlist pfn hfrees
    exact absurd hfrees (not_frees_of_refused (h list hlist) pfn)

def twoProcesses (bmp : MemoryBmp) : System where
  streams := fun process =>
    if process = 1 ∨ process = 2 then
      some
        { memory := fun _ _ => none
          array := none
          nIndexes := 0
          idCounter := { startVal := 0, maxVal := -1, nextVal := 0 } }
    else none
  pools := [{ bmp := bmp, frameCache := [], isRange := true }]

theorem twoProcesses_initial (bmp : MemoryBmp) : Initial (twoProcesses bmp) := by
  have hindex : ∀ (i : Nat) (pool : Pool), (twoProcesses bmp).pools[i]? = some pool → i = 0 := by
    intro i pool hpool
    obtain ⟨hlt, -⟩ := List.getElem?_eq_some_iff.mp hpool
    exact Nat.lt_one_iff.mp hlt
  refine ⟨⟨?_, ?_, ?_⟩, ?_⟩
  · intro i j a b ha hb hne
    exact absurd ((hindex i a ha).trans (hindex j b hb).symm) hne
  · intro pool hpool pfn _ hcached
    rw [List.mem_singleton.mp hpool] at hcached
    cases hcached
  · intro i j a b ha hb hne
    exact absurd ((hindex i a ha).trans (hindex j b hb).symm) hne
  · intro process lists hlists
    unfold twoProcesses at hlists
    dsimp only at hlists
    split_ifs at hlists
    cases hlists
    exact ⟨rfl, rfl, rfl⟩

def passOn : List Call :=
  [.allocate 1 (some 1), .constrain 1 0 unalignedConstraints, .resize 1 0 3 [true],
    .allocate 2 (some 2), .transfer 1 2 0 none]

theorem reachable_keeps_passOn :
    ∃ results last, run step (twoProcesses (smallBmp [0])) passOn = some (results, last) ∧
      (listAt last 2 1).map SgList.elements = some [some ⟨17, 3⟩] ∧ Keeps last := by
  have hrun : ((run step (twoProcesses (smallBmp [0])) passOn).any fun r =>
      decide ((listAt r.2 2 1).map SgList.elements = some [some ⟨17, 3⟩])) = true := by
    decide +kernel
  obtain ⟨⟨results, last⟩, hlast, hfacts⟩ := (any_eq_true _ _).mp hrun
  have hchecked : Guarded step (fun system call => Proper call ∧ Checked system call)
      (twoProcesses (smallBmp [0])) passOn := by decide +kernel
  have hguarded : Guarded step (fun system call => Proper call ∧ Spares system call)
      (twoProcesses (smallBmp [0])) passOn :=
    hchecked.mono fun system call hboth => ⟨hboth.1, spares_of_checked system call hboth.2⟩
  have hreachable := reachable_of_run (reachable_of_init (twoProcesses_initial (smallBmp [0])))
    hguarded hlast
  exact ⟨results, last, hlast, of_decide_eq_true hfacts, (reachable_keeps hreachable).1⟩

def largeBmp : MemoryBmp where
  baseAddr := 0
  endAddr := 8192 * 4096 - 1
  bits := fun bit => decide (bit = 0)
  lastAllocIndex := 0
  base_le_end := by decide
  end_lt := by decide

def passOnOne : List Call :=
  [.allocate 1 (some 1), .constrain 1 0 unalignedConstraints, .resize 1 0 1 [true],
    .transfer 1 2 0 (some 2)]

theorem passOnOne_frees : Initial (twoProcesses largeBmp) ∧
      ∃ results last, run step (twoProcesses largeBmp) passOnOne = some (results, last) ∧
        results.getLast? = some (.id 0) ∧
        (listAt last 2 0).map SgList.elements = some [some ⟨1, 1⟩] ∧ ¬ Keeps last := by
  refine ⟨twoProcesses_initial largeBmp, ?_⟩
  have hrun : ((run step (twoProcesses largeBmp) passOnOne).any fun r =>
      decide (r.1.getLast? = some (.id 0) ∧
        (listAt r.2 2 0).map SgList.elements = some [some ⟨1, 1⟩] ∧
        (∃ pool ∈ r.2.pools, pool.bmp.basePfn ≤ 1 ∧ 1 ≤ pool.bmp.endPfn ∧
          pool.bmp.testFrame 1 = false))) = true := by decide +kernel
  obtain ⟨⟨results, last⟩, hlast, hfacts⟩ := (any_eq_true _ _).mp hrun
  obtain ⟨hresults, helements, pool, hpool, hbase, hend, hfree⟩ := of_decide_eq_true hfacts
  refine ⟨results, last, hlast, hresults, helements, ?_⟩
  intro hkeeps
  obtain ⟨list, hlist, heq⟩ := map_eq_some_iff.mp helements
  have hcovers : list.Covers 1 := by
    refine ⟨⟨1, 1⟩, ?_, by decide⟩
    rw [heq]
    exact mem_singleton_self _
  exact (hkeeps.used 2 0 list 1 hlist hcovers).taken pool hpool
    (.inl ⟨⟨hbase, hend⟩, hfree⟩)

end Zambesii.ScatterGatherFrames
