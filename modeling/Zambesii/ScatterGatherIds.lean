import Mathlib.Data.List.Basic
import Zambesii.KernelTypes
import Zambesii.Runs

/-!
The scatter-gather lists of a process are kept in an array that grows, and the id of a
list is its index. `allocateScatterGatherList` chooses an id under the lock of the array
and makes the object after the lock was released.
-/

namespace Zambesii.ScatterGatherIds

open KernelTypes List Nat Option Runs

def growthStride : Nat := 16

structure WrapAroundCounter where
  startVal : Nat
  maxVal : Int
  nextVal : Nat

/-- The loop of `WrapAroundCounter::getNextValue`, with `remaining` values left. -/
def scan (isNull : Nat → Bool) : Nat → Nat → Option Nat
  | 0, _ => none
  | remaining + 1, i => if isNull i then some i else scan isNull remaining (i + 1)

namespace WrapAroundCounter

def tryNextValue (counter : WrapAroundCounter) (isNull : Nat → Bool) :
    Option Nat × WrapAroundCounter :=
  match scan isNull (counter.maxVal + 1 - counter.nextVal).toNat counter.nextVal with
  | some i => (some i, { counter with nextVal := i + 1 })
  | none => (none, { counter with nextVal := counter.startVal })

def getNextValue (counter : WrapAroundCounter) (isNull : Nat → Bool) :
    Option Nat × WrapAroundCounter :=
  match counter.tryNextValue isNull with
  | (some i, counter) => (some i, counter)
  | (none, counter) => counter.tryNextValue isNull

end WrapAroundCounter

structure Pointer where
  base : Nat
  index : Nat
deriving DecidableEq

/-- `unlocked_indexIsValid`: the sum is a `uarch_t`, so that the index -1 is valid. -/
def indexIsValid (nIndexes index : Nat) : Prop :=
  (index + 1) % wordModulus ≤ nIndexes

instance (nIndexes index : Nat) : Decidable (indexIsValid nIndexes index) :=
  inferInstanceAs (Decidable (_ ≤ _))

theorem indexIsValid_of_lt {nIndexes index : Nat} (h : index < nIndexes) :
    indexIsValid nIndexes index :=
  (mod_le _ _).trans h

theorem indexIsValid_iff {nIndexes index : Nat} (h : index + 1 < wordModulus) :
    indexIsValid nIndexes index ↔ index < nIndexes := by
  rw [indexIsValid, mod_eq_of_lt h]
  exact Iff.rfl

/-- `ResizeableIdArray`. The memory is kept by address, so that an array that was moved
is still there; `none` is an object of zeroes only. -/
structure IdArray (α : Type*) where
  memory : Nat → Nat → Option α
  array : Option Nat
  nIndexes : Nat
  idCounter : WrapAroundCounter

namespace IdArray

variable {α : Type*}

def isNull (a : IdArray α) (index : Nat) : Bool :=
  match a.array with
  | none => true
  | some base => (a.memory base index).isNone

/-- The address of an element; `none` is the panic of `operator []`. -/
def slot (a : IdArray α) (index : Nat) : Option Pointer :=
  if indexIsValid a.nIndexes index then
    a.array.map fun base => { base := base, index := index }
  else none

def write (a : IdArray α) (pointer : Pointer) (object : Option α) : IdArray α :=
  { a with
    memory := fun base index =>
      if base = pointer.base ∧ index = pointer.index then object else a.memory base index }

/-- `resizeToHoldIndex` for an index beyond the array: `memRealloc` copies the array to
the new memory at `base`. -/
def resizeToHoldIndex (a : IdArray α) (index base : Nat) : IdArray α :=
  { a with
    memory := fun b i =>
      if b = base ∧ i < a.nIndexes then a.array.bind fun old => a.memory old i
      else a.memory b i
    array := some base
    nIndexes := index + 1 }

def zero (a : IdArray α) (pointer : Pointer) (count : Nat) : IdArray α :=
  { a with
    memory := fun base index =>
      if base = pointer.base ∧ pointer.index ≤ index ∧ index < pointer.index + count then none
      else a.memory base index }

/-- The part of `allocateScatterGatherList` under the lock: the new id, and the address of
the object when the array has grown. `newmem` is what `memAlloc` returns for the array. -/
def chooseId (a : IdArray α) (newmem : Option Nat) :
    Except Kerror (Nat × Option Pointer) × IdArray α :=
  match a.idCounter.getNextValue a.isNull with
  | (some newId, counter) => (.ok (newId, none), { a with idCounter := counter })
  | (none, counter) =>
    let currentNIndexes := a.nIndexes
    match newmem with
    | none => (.error .memoryNomem, { a with idCounter := counter })
    | some base =>
      let a := a.resizeToHoldIndex (currentNIndexes + growthStride - 1) base
      let counter := { counter with maxVal := currentNIndexes + growthStride - 1 }
      let newObj : Pointer := { base := base, index := currentNIndexes }
      let a := a.zero newObj growthStride
      match counter.getNextValue a.isNull with
      | (some newId, counter) => (.ok (newId, some newObj), { a with idCounter := counter })
      | (none, counter) => (.error .unknown, { a with idCounter := counter })

/-- The rest of `allocateScatterGatherList`: the object is made, and its address returned. -/
def construct (a : IdArray α) (newId : Nat) (newObj : Option Pointer) (object : α) :
    Option (Pointer × IdArray α) :=
  match newObj with
  | some obj => some (obj, a.write obj (some object))
  | none =>
    match a.slot newId with
    | none => none
    | some obj => some (obj, a.write obj (some object))

end IdArray

inductive Phase
  | idle
  | chosen (newId : Nat) (newObj : Option Pointer)
  | fetched (sgl : Pointer)
  | destroyed (sgl : Pointer)
deriving DecidableEq

/-- The array of a process with its threads, and the ids that were returned by an
allocation and not passed to a release yet. -/
structure State (T α : Type*) where
  lists : IdArray α
  phases : T → Phase
  live : List Nat

inductive Step (T : Type*)
  | choose (thread : T) (newmem : Option Nat)
  | construct (thread : T)
  | fetch (thread : T) (id : Nat)
  | destroy (thread : T)
  | clear (thread : T)

inductive Result
  | going
  | failed (error : Kerror)
  | allocated (newId : Nat) (retlist : Pointer)
  | released (done : Bool)
deriving DecidableEq

section

variable {T α : Type*} [DecidableEq T] (object : α)

def State.enter (state : State T α) (thread : T) (phase : Phase) : State T α :=
  { state with phases := Function.update state.phases thread phase }

/-- One step of one thread. A release is made of a list that is live, and of no list
twice. -/
def step (state : State T α) : Step T → Option (Result × State T α)
  | .choose thread newmem =>
    match state.phases thread with
    | .idle =>
      match state.lists.chooseId newmem with
      | (.ok (newId, newObj), lists) =>
        some (.going, { state with lists := lists }.enter thread (.chosen newId newObj))
      | (.error error, lists) => some (.failed error, { state with lists := lists })
    | _ => none
  | .construct thread =>
    match state.phases thread with
    | .chosen newId newObj =>
      match state.lists.construct newId newObj object with
      | none => none
      | some (retlist, lists) =>
        some (.allocated newId retlist,
          { state with lists := lists, live := newId :: state.live }.enter thread .idle)
    | _ => none
  | .fetch thread id =>
    match state.phases thread with
    | .idle =>
      if id ∈ state.live then
        let state := { state with live := state.live.erase id }
        match state.lists.slot id with
        | none => some (.released false, state)
        | some sgl => some (.going, state.enter thread (.fetched sgl))
      else none
    | _ => none
  | .destroy thread =>
    match state.phases thread with
    | .fetched sgl =>
      if (state.lists.memory sgl.base sgl.index).isNone then
        some (.released false, state.enter thread .idle)
      else some (.going, state.enter thread (.destroyed sgl))
    | _ => none
  | .clear thread =>
    match state.phases thread with
    | .destroyed sgl =>
      some (.released true,
        { state with lists := state.lists.write sgl none }.enter thread .idle)
    | _ => none

end

section

variable {isNull : Nat → Bool}

theorem scan_eq_some {remaining first i : Nat} (h : scan isNull remaining first = some i) :
    first ≤ i ∧ i < first + remaining ∧ isNull i = true ∧
      ∀ j, first ≤ j → j < i → isNull j = false := by
  induction remaining generalizing first with
  | zero => cases h
  | succ remaining ih =>
    unfold scan at h
    cases hfirst : isNull first with
    | true =>
      rw [hfirst, if_pos rfl] at h
      cases h
      exact ⟨le_refl _, by omega, hfirst, fun j hge hlt => by omega⟩
    | false =>
      rw [hfirst, if_neg Bool.false_ne_true] at h
      obtain ⟨hge, hlt, hnull, hbefore⟩ := ih h
      refine ⟨by omega, by omega, hnull, ?_⟩
      intro j hj hji
      rcases eq_or_ne j first with rfl | hne
      · exact hfirst
      · exact hbefore j (by omega) hji

theorem scan_eq_none {remaining first : Nat} (h : scan isNull remaining first = none) :
    ∀ j, first ≤ j → j < first + remaining → isNull j = false := by
  induction remaining generalizing first with
  | zero =>
    intro j hge hlt
    omega
  | succ remaining ih =>
    unfold scan at h
    cases hfirst : isNull first with
    | true =>
      rw [hfirst, if_pos rfl] at h
      cases h
    | false =>
      rw [hfirst, if_neg Bool.false_ne_true] at h
      intro j hge hlt
      rcases eq_or_ne j first with rfl | hne
      · exact hfirst
      · exact ih h j (by omega) (by omega)

end

structure Covers (counter : WrapAroundCounter) (nIndexes : Nat) : Prop where
  startVal : counter.startVal = 0
  maxVal : counter.maxVal = (nIndexes : Int) - 1

/-- The free slot that comes first from `nextVal` on, around the end of the array. -/
structure NextFree (counter : WrapAroundCounter) (isNull : Nat → Bool) (nIndexes id : Nat) :
    Prop where
  lt : id < nIndexes
  null : isNull id = true
  before : ∀ j, j < id → counter.nextVal ≤ j → isNull j = false
  wrapped : id < counter.nextVal →
    (∀ j, j < id → isNull j = false) ∧
      ∀ j, j < nIndexes → counter.nextVal ≤ j → isNull j = false

section

variable {counter : WrapAroundCounter} (isNull : Nat → Bool) {nIndexes : Nat}

variable (h : Covers counter nIndexes)

include h

theorem Covers.remaining :
    (counter.maxVal + 1 - counter.nextVal).toNat = nIndexes - counter.nextVal := by
  rw [h.maxVal]
  omega

theorem tryNextValue_covers : Covers (counter.tryNextValue isNull).2 nIndexes := by
  unfold WrapAroundCounter.tryNextValue
  split
  · exact ⟨h.startVal, h.maxVal⟩
  · exact ⟨h.startVal, h.maxVal⟩

theorem tryNextValue_some {id : Nat} (hid : (counter.tryNextValue isNull).1 = some id) :
    counter.nextVal ≤ id ∧ id < nIndexes ∧ isNull id = true ∧
      ∀ j, counter.nextVal ≤ j → j < id → isNull j = false := by
  unfold WrapAroundCounter.tryNextValue at hid
  rw [h.remaining] at hid
  cases hscan : scan isNull (nIndexes - counter.nextVal) counter.nextVal with
  | none =>
    rw [hscan] at hid
    cases hid
  | some i =>
    rw [hscan] at hid
    cases hid
    obtain ⟨hge, hlt, hnull, hbefore⟩ := scan_eq_some hscan
    exact ⟨hge, by omega, hnull, hbefore⟩

theorem tryNextValue_none
    (hnone : (counter.tryNextValue isNull).1 = none) : (counter.tryNextValue isNull).2.nextVal = 0 ∧
      ∀ j, j < nIndexes → counter.nextVal ≤ j → isNull j = false := by
  unfold WrapAroundCounter.tryNextValue at hnone ⊢
  rw [h.remaining] at hnone ⊢
  cases hscan : scan isNull (nIndexes - counter.nextVal) counter.nextVal with
  | some i =>
    rw [hscan] at hnone
    cases hnone
  | none =>
    refine ⟨h.startVal, ?_⟩
    intro j hlt hge
    exact scan_eq_none hscan j hge (by omega)

theorem getNextValue_covers : Covers (counter.getNextValue isNull).2 nIndexes := by
  have htry := tryNextValue_covers isNull h
  unfold WrapAroundCounter.getNextValue
  split
  · rename_i heq
    rw [heq] at htry
    exact htry
  · rename_i heq
    rw [heq] at htry
    exact tryNextValue_covers isNull htry

theorem getNextValue_spec :
    (∃ id, (counter.getNextValue isNull).1 = some id ∧ NextFree counter isNull nIndexes id) ∨
      (counter.getNextValue isNull).1 = none ∧ (counter.getNextValue isNull).2.nextVal = 0 ∧
        ∀ j, j < nIndexes → isNull j = false := by
  unfold WrapAroundCounter.getNextValue
  have hcovers := tryNextValue_covers isNull h
  cases htry : counter.tryNextValue isNull with
  | mk found counter' =>
    rw [htry] at hcovers
    cases found with
    | some id =>
      obtain ⟨hge, hlt, hnull, hbefore⟩ := tryNextValue_some isNull h (congrArg Prod.fst htry)
      refine .inl ⟨id, rfl, hlt, hnull, ?_, ?_⟩
      · intro j hlt hge'
        exact hbefore j hge' hlt
      · intro hwrapped
        omega
    | none =>
      obtain ⟨hnextVal, hafter⟩ := tryNextValue_none isNull h (congrArg Prod.fst htry)
      rw [htry] at hnextVal
      cases hagain : (counter'.tryNextValue isNull).1 with
      | some id =>
        obtain ⟨-, hlt, hnull, hbefore⟩ := tryNextValue_some isNull hcovers hagain
        rw [hnextVal] at hbefore
        refine .inl ⟨id, rfl, hlt, hnull, ?_, ?_⟩
        · intro j hj _
          exact hbefore j (zero_le j) hj
        · intro _
          exact ⟨fun j hj => hbefore j (zero_le j) hj, hafter⟩
      | none =>
        obtain ⟨hnextVal', hall⟩ := tryNextValue_none isNull hcovers hagain
        rw [hnextVal] at hall
        exact Or.inr ⟨rfl, hnextVal', fun j hj => hall j hj (zero_le j)⟩

omit h

end

structure Sized {α : Type*} (a : IdArray α) : Prop where
  counter : Covers a.idCounter a.nIndexes
  array : 0 < a.nIndexes → a.array.isSome = true

section

variable {α : Type*} {a : IdArray α}

/-- The array after it has grown to new memory at `base`. -/
def grown (a : IdArray α) (base : Nat) : IdArray α :=
  (a.resizeToHoldIndex (a.nIndexes + growthStride - 1) base).zero
    { base := base, index := a.nIndexes } growthStride

theorem nIndexes_grown (base : Nat) : (grown a base).nIndexes = a.nIndexes + growthStride := by
  show a.nIndexes + growthStride - 1 + 1 = _
  unfold growthStride
  omega

theorem isNull_grown_of_lt (base : Nat) {index : Nat} (hindex : index < a.nIndexes) :
    (grown a base).isNull index = a.isNull index := by
  have hnot : ¬ (a.nIndexes ≤ index ∧ index < a.nIndexes + growthStride) := by omega
  cases harray : a.array with
  | none => simp [grown, IdArray.isNull, IdArray.zero, IdArray.resizeToHoldIndex, harray, hindex,
    hnot]
  | some old =>
    simp [grown, IdArray.isNull, IdArray.zero, IdArray.resizeToHoldIndex, harray, hindex, hnot]

theorem isNull_grown_new (base : Nat) {index : Nat} (hge : a.nIndexes ≤ index)
    (hlt : index < a.nIndexes + growthStride) : (grown a base).isNull index = true := by
  simp [grown, IdArray.isNull, IdArray.zero, IdArray.resizeToHoldIndex, hge, hlt]

theorem slot_grown (base : Nat) {index : Nat} (hindex : index < a.nIndexes + growthStride) :
    (grown a base).slot index = some { base := base, index := index } := by
  unfold IdArray.slot
  rw [nIndexes_grown, if_pos (indexIsValid_of_lt hindex)]
  rfl

theorem chooseId_cases (h : Sized a) (newmem : Option Nat) :
    (∃ id counter, a.chooseId newmem = (.ok (id, none), { a with idCounter := counter }) ∧
      NextFree a.idCounter a.isNull a.nIndexes id ∧ Covers counter a.nIndexes) ∨
    (∃ counter, a.chooseId newmem = (.error .memoryNomem, { a with idCounter := counter }) ∧
      Covers counter a.nIndexes) ∨
    ∃ base counter, newmem = some base ∧
      a.chooseId newmem = (.ok (a.nIndexes, some { base := base, index := a.nIndexes }),
        { grown a base with idCounter := counter }) ∧
      (∀ index, index < a.nIndexes → a.isNull index = false) ∧
      Covers counter (a.nIndexes + growthStride) := by
  have hcovers := getNextValue_covers a.isNull h.counter
  have hspec := getNextValue_spec a.isNull h.counter
  unfold IdArray.chooseId
  cases hnext : a.idCounter.getNextValue a.isNull with
  | mk found counter =>
    rw [hnext] at hcovers hspec
    cases found with
    | some id =>
      obtain ⟨id', hid, hfree⟩ | ⟨hnone, -⟩ := hspec
      · cases hid
        exact Or.inl ⟨id, counter, rfl, hfree, hcovers⟩
      · cases hnone
    | none =>
      obtain ⟨id', hid, -⟩ | ⟨-, hnextVal, hfull⟩ := hspec
      · cases hid
      cases newmem with
      | none => exact Or.inr (Or.inl ⟨counter, rfl, hcovers⟩)
      | some base =>
        dsimp only at hnextVal ⊢
        -- The second call starts at zero and stops at the first of the new slots.
        have hgrown : Covers { counter with maxVal := a.nIndexes + growthStride - 1 }
            (a.nIndexes + growthStride) := by
          refine ⟨hcovers.startVal, ?_⟩
          show (a.nIndexes : Int) + growthStride - 1 = _
          omega
        have hcovers' := getNextValue_covers (grown a base).isNull hgrown
        have hnew := isNull_grown_new base (Nat.le_refl a.nIndexes)
          (Nat.lt_add_of_pos_right (by decide : 0 < growthStride))
        have hfirst : (WrapAroundCounter.getNextValue
            { counter with maxVal := a.nIndexes + growthStride - 1 }
            (grown a base).isNull).1 = some a.nIndexes := by
          obtain ⟨id, hid, hfree⟩ | ⟨-, -, hall⟩ :=
            getNextValue_spec (grown a base).isNull hgrown
          · rw [hid]
            rcases lt_trichotomy id a.nIndexes with hlt | heq | hgt
            · have hnull := hfree.null
              rw [isNull_grown_of_lt base hlt, hfull id hlt] at hnull
              cases hnull
            · rw [heq]
            · have hbefore := hfree.before a.nIndexes hgt (hnextVal ▸ Nat.zero_le _)
              rw [hnew] at hbefore
              cases hbefore
          · have hfalse := hall a.nIndexes (Nat.lt_add_of_pos_right (by decide))
            rw [hnew] at hfalse
            cases hfalse
        cases hagain : WrapAroundCounter.getNextValue
            { counter with maxVal := a.nIndexes + growthStride - 1 }
            (grown a base).isNull with
        | mk found' counter' =>
          rw [hagain] at hcovers' hfirst
          obtain rfl : found' = some a.nIndexes := hfirst
          refine Or.inr (Or.inr ⟨base, counter', rfl, ?_, hfull, hcovers'⟩)
          have hsame : (a.resizeToHoldIndex (a.nIndexes + growthStride - 1) base).zero
              { base := base, index := a.nIndexes } growthStride = grown a base := rfl
          rw [hsame, hagain]

end

namespace Phase

def reserved : Phase → Option Nat
  | .chosen newId _ => some newId
  | _ => none

def releasing : Phase → Option Nat
  | .fetched sgl => some sgl.index
  | .destroyed sgl => some sgl.index
  | _ => none

end Phase

section

variable {T α : Type*} [DecidableEq T]

structure Initial (state : State T α) : Prop where
  array : state.lists.array = none
  nIndexes : state.lists.nIndexes = 0
  idCounter : state.lists.idCounter = { startVal := 0, maxVal := -1, nextVal := 0 }
  phases : ∀ thread, state.phases thread = .idle
  live : state.live = []

structure Unique (object : α) (state : State T α) : Prop where
  live : state.live.Nodup
  returns : ∀ thread newId newObj, state.phases thread = .chosen newId newObj →
    ∃ retlist next,
      step object state (.construct thread) = some (.allocated newId retlist, next) ∧
      newId ∉ state.live ∧ (∀ other, (state.phases other).releasing ≠ some newId) ∧
      next.lists.slot newId = some retlist ∧
      next.lists.memory retlist.base retlist.index = some object

/-- An id is not chosen when the free slot that comes next is that of a call that has
chosen it already and not made its object. -/
def Unreserved (state : State T α) : Step T → Prop
  | .choose _ _ => ∀ thread, ∀ id ∈ (state.phases thread).reserved,
      ¬ NextFree state.lists.idCounter state.lists.isNull state.lists.nIndexes id
  | _ => True

end

section

variable {T α : Type*} [DecidableEq T] {object : α} {state next : State T α}

structure Consistent (state : State T α) : Prop where
  sized : Sized state.lists
  chosen : ∀ thread newId newObj, state.phases thread = .chosen newId newObj →
    newId < state.lists.nIndexes ∧ state.lists.isNull newId = true ∧
      ∀ obj, newObj = some obj → state.lists.slot newId = some obj
  reserved : ∀ thread other id, (state.phases thread).reserved = some id →
    (state.phases other).reserved = some id → thread = other
  nodup : state.live.Nodup
  live : ∀ id ∈ state.live, id < state.lists.nIndexes ∧ state.lists.isNull id = false
  releasing : ∀ thread id, (state.phases thread).releasing = some id →
    id < state.lists.nIndexes ∧ state.lists.isNull id = false ∧ id ∉ state.live
  released : ∀ thread other id, (state.phases thread).releasing = some id →
    (state.phases other).releasing = some id → thread = other

theorem phases_enter (thread other : T) (phase : Phase) :
    (state.enter thread phase).phases other = if other = thread then phase else state.phases other :=
  Function.update_apply _ _ _ _

theorem reserved_eq_some {phase : Phase} {id : Nat} (h : phase.reserved = some id) :
    ∃ newObj, phase = .chosen id newObj := by
  cases phase with
  | chosen newId newObj =>
    cases h
    exact ⟨newObj, rfl⟩
  | idle => cases h
  | fetched sgl => cases h
  | destroyed sgl => cases h

omit [DecidableEq T] in
theorem Consistent.of_initial (h : Initial state) : Consistent state := by
  constructor
  · refine ⟨⟨?_, ?_⟩, ?_⟩
    · rw [h.idCounter]
    · rw [h.idCounter, h.nIndexes]
      rfl
    · intro hpos
      rw [h.nIndexes] at hpos
      omega
  · intro thread newId newObj hphase
    rw [h.phases thread] at hphase
    cases hphase
  · intro thread other id hthread
    rw [h.phases thread] at hthread
    cases hthread
  · rw [h.live]
    exact nodup_nil
  · intro id hid
    rw [h.live] at hid
    cases hid
  · intro thread id hthread
    rw [h.phases thread] at hthread
    cases hthread
  · intro thread other id hthread
    rw [h.phases thread] at hthread
    cases hthread

theorem Consistent.enter (h : Consistent state) (thread : T) (phase : Phase)
    (hchosen : ∀ newId newObj, phase = .chosen newId newObj →
      newId < state.lists.nIndexes ∧ state.lists.isNull newId = true ∧
        (∀ obj, newObj = some obj → state.lists.slot newId = some obj) ∧
        ∀ other, other ≠ thread → (state.phases other).reserved ≠ some newId)
    (hreleasing : ∀ id, phase.releasing = some id →
      id < state.lists.nIndexes ∧ state.lists.isNull id = false ∧ id ∉ state.live ∧
        ∀ other, other ≠ thread → (state.phases other).releasing ≠ some id) :
    Consistent (state.enter thread phase) := by
  constructor
  · exact h.sized
  · intro other newId newObj hphase
    rw [phases_enter] at hphase
    split_ifs at hphase with hother
    · obtain ⟨hlt, hnull, hobj, -⟩ := hchosen newId newObj hphase
      exact ⟨hlt, hnull, hobj⟩
    · exact h.chosen other newId newObj hphase
  · intro first second id hfirst hsecond
    rw [phases_enter] at hfirst hsecond
    split_ifs at hfirst hsecond with h1 h2 h2
    · rw [h1, h2]
    · obtain ⟨newObj, hphase⟩ := reserved_eq_some hfirst
      exact absurd hsecond ((hchosen id newObj hphase).2.2.2 second h2)
    · obtain ⟨newObj, hphase⟩ := reserved_eq_some hsecond
      exact absurd hfirst ((hchosen id newObj hphase).2.2.2 first h1)
    · exact h.reserved first second id hfirst hsecond
  · exact h.nodup
  · exact h.live
  · intro other id hother
    rw [phases_enter] at hother
    split_ifs at hother
    · obtain ⟨hlt, hnull, hlive, -⟩ := hreleasing id hother
      exact ⟨hlt, hnull, hlive⟩
    · exact h.releasing other id hother
  · intro first second id hfirst hsecond
    rw [phases_enter] at hfirst hsecond
    split_ifs at hfirst hsecond with h1 h2 h2
    · rw [h1, h2]
    · exact absurd hsecond ((hreleasing id hfirst).2.2.2 second h2)
    · exact absurd hfirst ((hreleasing id hsecond).2.2.2 first h1)
    · exact h.released first second id hfirst hsecond

theorem Consistent.enter_idle (h : Consistent state) (thread : T) :
    Consistent (state.enter thread .idle) := by
  refine h.enter thread .idle ?_ ?_
  · intro newId newObj hphase
    cases hphase
  · intro id hphase
    cases hphase

theorem isNull_write (a : IdArray α) (pointer : Pointer) (object : Option α) (index : Nat) :
    (a.write pointer object).isNull index =
      if a.array = some pointer.base ∧ index = pointer.index then object.isNone
      else a.isNull index := by
  unfold IdArray.isNull IdArray.write
  cases a.array with
  | none => simp
  | some base =>
    simp only [some.injEq]
    split_ifs <;> rfl

theorem slot_eq_some {a : IdArray α} {index : Nat} {pointer : Pointer}
    (h : a.slot index = some pointer) :
    a.array = some pointer.base ∧ pointer.index = index := by
  unfold IdArray.slot at h
  split_ifs at h with hvalid
  obtain ⟨base, hbase, rfl⟩ := map_eq_some_iff.mp h
  exact ⟨hbase, rfl⟩

omit [DecidableEq T] in
theorem Consistent.construct (h : Consistent state) {newId : Nat} {obj : Pointer}
    (hslot : state.lists.slot newId = some obj) (hlt : newId < state.lists.nIndexes)
    (hnull : state.lists.isNull newId = true)
    (hfree : ∀ thread, (state.phases thread).reserved ≠ some newId) (object : α) :
    Consistent { state with
      lists := state.lists.write obj (some object)
      live := newId :: state.live } := by
  obtain ⟨harray, hindex⟩ := slot_eq_some hslot
  have hkept : ∀ id, id ≠ newId →
      (state.lists.write obj (some object)).isNull id = state.lists.isNull id := by
    intro id hid
    rw [isNull_write, if_neg]
    rintro ⟨-, heq⟩
    exact hid (heq.trans hindex)
  have hmade : ∀ id, state.lists.isNull id = false →
      (state.lists.write obj (some object)).isNull id = false := by
    intro id hid
    rw [isNull_write]
    split_ifs
    · rfl
    · exact hid
  constructor
  · exact ⟨h.sized.counter, h.sized.array⟩
  · intro thread id newObj hphase
    obtain ⟨hid, hidNull, hobj⟩ := h.chosen thread id newObj hphase
    have hne : id ≠ newId := by
      rintro rfl
      exact hfree thread (congrArg Phase.reserved hphase)
    exact ⟨hid, (hkept id hne).trans hidNull, hobj⟩
  · exact h.reserved
  · refine nodup_cons.mpr ⟨?_, h.nodup⟩
    intro hmem
    have hfalse := (h.live newId hmem).2
    rw [hnull] at hfalse
    cases hfalse
  · intro id hid
    rcases mem_cons.mp hid with rfl | hmem
    · refine ⟨hlt, ?_⟩
      show (state.lists.write obj (some object)).isNull id = false
      rw [isNull_write, if_pos ⟨harray, hindex.symm⟩]
      rfl
    · exact ⟨(h.live id hmem).1, hmade id (h.live id hmem).2⟩
  · intro thread id hthread
    obtain ⟨hid, hidNull, hmem⟩ := h.releasing thread id hthread
    refine ⟨hid, hmade id hidNull, ?_⟩
    intro hcons
    rcases mem_cons.mp hcons with rfl | hmem'
    · rw [hnull] at hidNull
      cases hidNull
    · exact hmem hmem'
  · exact h.released

omit [DecidableEq T] in
theorem Consistent.clear (h : Consistent state) (sgl : Pointer) (hlive : sgl.index ∉ state.live)
    (hothers : ∀ thread, (state.phases thread).releasing ≠ some sgl.index) :
    Consistent { state with lists := state.lists.write sgl none } := by
  have hkept : ∀ id, id ≠ sgl.index →
      (state.lists.write sgl none).isNull id = state.lists.isNull id := by
    intro id hid
    rw [isNull_write, if_neg]
    rintro ⟨-, heq⟩
    exact hid heq
  constructor
  · exact ⟨h.sized.counter, h.sized.array⟩
  · intro thread id newObj hphase
    obtain ⟨hid, hidNull, hobj⟩ := h.chosen thread id newObj hphase
    refine ⟨hid, ?_, hobj⟩
    show (state.lists.write sgl none).isNull id = true
    rw [isNull_write]
    split_ifs
    · rfl
    · exact hidNull
  · exact h.reserved
  · exact h.nodup
  · intro id hid
    have hne : id ≠ sgl.index := by
      rintro rfl
      exact hlive hid
    exact ⟨(h.live id hid).1, (hkept id hne).trans (h.live id hid).2⟩
  · intro thread id hthread
    obtain ⟨hid, hidNull, hmem⟩ := h.releasing thread id hthread
    have hne : id ≠ sgl.index := by
      rintro rfl
      exact hothers thread hthread
    exact ⟨hid, (hkept id hne).trans hidNull, hmem⟩
  · exact h.released

omit [DecidableEq T] in
theorem Consistent.grow (h : Consistent state) (base : Nat) {counter : WrapAroundCounter}
    (hcounter : Covers counter (state.lists.nIndexes + growthStride))
    (hfull : ∀ index, index < state.lists.nIndexes → state.lists.isNull index = false) :
    Consistent { state with lists := { grown state.lists base with idCounter := counter } } := by
  have hsame : ∀ id, id < state.lists.nIndexes →
      (grown state.lists base).isNull id = state.lists.isNull id :=
    fun id hid => isNull_grown_of_lt base hid
  have hle : ∀ id, id < state.lists.nIndexes → id < (grown state.lists base).nIndexes := by
    intro id hid
    rw [nIndexes_grown]
    omega
  constructor
  · refine ⟨?_, fun _ => rfl⟩
    show Covers counter (grown state.lists base).nIndexes
    rw [nIndexes_grown]
    exact hcounter
  · intro thread id newObj hphase
    obtain ⟨hid, hidNull, -⟩ := h.chosen thread id newObj hphase
    rw [hfull id hid] at hidNull
    cases hidNull
  · exact h.reserved
  · exact h.nodup
  · intro id hid
    obtain ⟨hlt, hnull⟩ := h.live id hid
    exact ⟨hle id hlt, (hsame id hlt).trans hnull⟩
  · intro thread id hthread
    obtain ⟨hlt, hnull, hmem⟩ := h.releasing thread id hthread
    exact ⟨hle id hlt, (hsame id hlt).trans hnull, hmem⟩
  · exact h.released

theorem step_cases {call : Step T} {result : Result}
    (hstep : step object state call = some (result, next)) :
    (∃ thread newmem newId newObj lists, call = .choose thread newmem ∧
      state.phases thread = .idle ∧
      state.lists.chooseId newmem = (.ok (newId, newObj), lists) ∧
      next = { state with lists := lists }.enter thread (.chosen newId newObj)) ∨
    (∃ thread newmem error lists, call = .choose thread newmem ∧
      state.lists.chooseId newmem = (.error error, lists) ∧
      next = { state with lists := lists }) ∨
    (∃ thread newId newObj retlist lists, call = .construct thread ∧
      state.phases thread = .chosen newId newObj ∧
      state.lists.construct newId newObj object = some (retlist, lists) ∧
      next = { state with lists := lists, live := newId :: state.live }.enter thread .idle) ∨
    (∃ thread id, call = .fetch thread id ∧ state.phases thread = .idle ∧ id ∈ state.live ∧
      (state.lists.slot id = none ∧ next = { state with live := state.live.erase id } ∨
        ∃ sgl, state.lists.slot id = some sgl ∧
          next = { state with live := state.live.erase id }.enter thread (.fetched sgl))) ∨
    (∃ thread sgl, call = .destroy thread ∧ state.phases thread = .fetched sgl ∧
      (next = state.enter thread .idle ∨ next = state.enter thread (.destroyed sgl))) ∨
    ∃ thread sgl, call = .clear thread ∧ state.phases thread = .destroyed sgl ∧
      next = { state with lists := state.lists.write sgl none }.enter thread .idle := by
  cases call with
  | choose thread newmem =>
    cases hphase : state.phases thread <;> simp only [step, hphase, reduceCtorEq] at hstep
    cases hchoose : state.lists.chooseId newmem with
    | mk answer lists =>
      rw [hchoose] at hstep
      cases answer with
      | ok chosen =>
        cases hstep
        exact .inl ⟨thread, newmem, chosen.1, chosen.2, lists, rfl, hphase, hchoose, rfl⟩
      | error error =>
        cases hstep
        exact .inr (.inl ⟨thread, newmem, error, lists, rfl, hchoose, rfl⟩)
  | construct thread =>
    cases hphase : state.phases thread with
    | chosen newId newObj =>
      simp only [step, hphase] at hstep
      cases hconstruct : state.lists.construct newId newObj object with
      | none =>
        rw [hconstruct] at hstep
        cases hstep
      | some made =>
        rw [hconstruct] at hstep
        cases hstep
        exact .inr (.inr (.inl
          ⟨thread, newId, newObj, made.1, made.2, rfl, hphase, hconstruct, rfl⟩))
    | _ => simp only [step, hphase, reduceCtorEq] at hstep
  | fetch thread id =>
    cases hphase : state.phases thread <;> simp only [step, hphase, reduceCtorEq] at hstep
    split_ifs at hstep with hlive
    refine .inr (.inr (.inr (.inl ⟨thread, id, rfl, hphase, hlive, ?_⟩)))
    cases hslot : state.lists.slot id with
    | none =>
      rw [hslot] at hstep
      exact .inl ⟨rfl, (Prod.mk.inj (some.inj hstep)).2.symm⟩
    | some sgl =>
      rw [hslot] at hstep
      exact .inr ⟨sgl, rfl, (Prod.mk.inj (some.inj hstep)).2.symm⟩
  | destroy thread =>
    cases hphase : state.phases thread with
    | fetched sgl =>
      simp only [step, hphase] at hstep
      refine .inr (.inr (.inr (.inr (.inl ⟨thread, sgl, rfl, hphase, ?_⟩))))
      split_ifs at hstep
      · exact .inl (Prod.mk.inj (some.inj hstep)).2.symm
      · exact .inr (Prod.mk.inj (some.inj hstep)).2.symm
    | _ => simp only [step, hphase, reduceCtorEq] at hstep
  | clear thread =>
    cases hphase : state.phases thread with
    | destroyed sgl =>
      simp only [step, hphase] at hstep
      exact .inr (.inr (.inr (.inr (.inr
        ⟨thread, sgl, rfl, hphase, (Prod.mk.inj (some.inj hstep)).2.symm⟩))))
    | _ => simp only [step, hphase, reduceCtorEq] at hstep

omit [DecidableEq T] in
theorem Consistent.recount (h : Consistent state) {counter : WrapAroundCounter}
    (hcounter : Covers counter state.lists.nIndexes) :
    Consistent { state with lists := { state.lists with idCounter := counter } } :=
  ⟨⟨hcounter, h.sized.array⟩, h.chosen, h.reserved, h.nodup, h.live, h.releasing, h.released⟩

theorem Consistent.choose (h : Consistent state) {thread : T} {newmem : Option Nat} {newId : Nat}
    {newObj : Option Pointer} {lists : IdArray α}
    (hguard : Unreserved state (.choose thread newmem))
    (hchoose : state.lists.chooseId newmem = (.ok (newId, newObj), lists)) :
    Consistent ({ state with lists := lists }.enter thread (.chosen newId newObj)) := by
  obtain ⟨id, counter, heq, hfree, hcounter⟩ | ⟨counter, heq, -⟩ |
    ⟨base, counter, -, heq, hfull, hcounter⟩ := chooseId_cases h.sized newmem
  · rw [heq] at hchoose
    cases hchoose
    refine (h.recount hcounter).enter thread _ ?_ ?_
    · intro newId newObj hchosen
      obtain ⟨rfl, rfl⟩ := Phase.chosen.inj hchosen
      refine ⟨hfree.lt, hfree.null, ?_, ?_⟩
      · intro obj hobj
        cases hobj
      · intro other _ hreserved
        exact hguard other _ hreserved hfree
    · intro id' hreleasing
      cases hreleasing
  · rw [heq] at hchoose
    cases hchoose
  · rw [heq] at hchoose
    cases hchoose
    have hsize : state.lists.nIndexes < state.lists.nIndexes + growthStride :=
      Nat.lt_add_of_pos_right (by decide)
    have hslot : (grown state.lists base).slot state.lists.nIndexes = _ := slot_grown base hsize
    refine (h.grow base hcounter hfull).enter thread _ ?_ ?_
    · intro newId newObj hchosen
      obtain ⟨rfl, rfl⟩ := Phase.chosen.inj hchosen
      refine ⟨(nIndexes_grown base).symm ▸ hsize, isNull_grown_new base (Nat.le_refl _) hsize,
        ?_, ?_⟩
      · intro obj hobj
        cases hobj
        exact hslot
      · intro other _ hreserved
        obtain ⟨newObj, hother⟩ := reserved_eq_some hreserved
        exact absurd (h.chosen other _ newObj hother).1 (Nat.lt_irrefl _)
    · intro id' hreleasing
      cases hreleasing

omit [DecidableEq T] in
theorem Consistent.giveUp (h : Consistent state) (id : Nat) :
    Consistent { state with live := state.live.erase id } := by
  refine ⟨h.sized, h.chosen, h.reserved, h.nodup.erase id, ?_, ?_, h.released⟩
  · intro other hother
    exact h.live other (mem_of_mem_erase hother)
  · intro thread other hthread
    obtain ⟨hlt, hnull, hlive⟩ := h.releasing thread other hthread
    exact ⟨hlt, hnull, fun hmem => hlive (mem_of_mem_erase hmem)⟩

theorem Consistent.construct_eq (h : Consistent state) {thread : T} {newId : Nat}
    {newObj : Option Pointer} (hphase : state.phases thread = .chosen newId newObj) (object : α) :
    ∃ retlist, state.lists.slot newId = some retlist ∧
      step object state (.construct thread) = some (.allocated newId retlist,
        { state with
          lists := state.lists.write retlist (some object)
          live := newId :: state.live }.enter thread .idle) := by
  obtain ⟨hlt, -, hobj⟩ := h.chosen thread newId newObj hphase
  have harray := h.sized.array (zero_lt_of_lt hlt)
  obtain ⟨base, hbase⟩ := isSome_iff_exists.mp harray
  have hslot : state.lists.slot newId = some { base := base, index := newId } := by
    unfold IdArray.slot
    rw [if_pos (indexIsValid_of_lt hlt), hbase]
    rfl
  refine ⟨{ base := base, index := newId }, hslot, ?_⟩
  simp only [step, hphase]
  cases newObj with
  | none => simp only [IdArray.construct, hslot]
  | some obj =>
    have hsame := hobj obj rfl
    rw [hslot] at hsame
    cases hsame
    rfl

theorem step_consistent (h : Consistent state) (call : Step T) (hguard : Unreserved state call)
    {result : Result} (hstep : step object state call = some (result, next)) : Consistent next := by
  obtain ⟨thread, newmem, newId, newObj, lists, rfl, -, hchoose, rfl⟩ |
    ⟨thread, newmem, error, lists, rfl, hchoose, rfl⟩ |
    ⟨thread, newId, newObj, retlist, lists, rfl, hphase, -, -⟩ |
    ⟨thread, id, rfl, -, hlive, ⟨-, rfl⟩ | ⟨sgl, hslot, rfl⟩⟩ |
    ⟨thread, sgl, rfl, hphase, rfl | rfl⟩ | ⟨thread, sgl, rfl, hphase, rfl⟩ := step_cases hstep
  · exact h.choose hguard hchoose
  · obtain ⟨_, _, heq, -, -⟩ | ⟨counter, heq, hcounter⟩ | ⟨_, _, -, heq, -, -⟩ :=
      chooseId_cases h.sized newmem
    · rw [heq] at hchoose
      cases hchoose
    · rw [heq] at hchoose
      cases hchoose
      exact h.recount hcounter
    · rw [heq] at hchoose
      cases hchoose
  · obtain ⟨retlist', hslot, heq⟩ := h.construct_eq hphase object
    rw [heq] at hstep
    cases hstep
    obtain ⟨hlt, hnull, -⟩ := h.chosen thread newId newObj hphase
    refine (h.enter_idle thread).construct hslot hlt hnull ?_ object
    intro other hreserved
    rw [phases_enter] at hreserved
    split_ifs at hreserved with hother
    · cases hreserved
    · exact hother (h.reserved other thread newId hreserved (congrArg Phase.reserved hphase))
  · exact h.giveUp id
  · obtain ⟨hlt, hnull⟩ := h.live id hlive
    refine (h.giveUp id).enter thread _ ?_ ?_
    · intro newId newObj hchosen
      cases hchosen
    · intro id' hreleasing
      have hid : id' = id :=
        (some.inj hreleasing).symm.trans (slot_eq_some hslot).2
      rw [hid]
      refine ⟨hlt, hnull, ?_, ?_⟩
      · intro hmem
        exact (List.Nodup.mem_erase_iff h.nodup).mp hmem |>.1 rfl
      · intro other _ hother
        exact (h.releasing other id hother).2.2 hlive
  · exact h.enter_idle thread
  · have hreleasing : (state.phases thread).releasing = some sgl.index := by
      rw [hphase]
      rfl
    obtain ⟨hlt, hnull, hlive⟩ := h.releasing thread sgl.index hreleasing
    refine h.enter thread _ ?_ ?_
    · intro newId newObj hchosen
      cases hchosen
    · intro id hid
      cases hid
      refine ⟨hlt, hnull, hlive, ?_⟩
      intro other hne hother
      exact hne (h.released other thread _ hother hreleasing)
  · have hreleasing : (state.phases thread).releasing = some sgl.index := by
      rw [hphase]
      rfl
    refine (h.enter_idle thread).clear sgl (h.releasing thread _ hreleasing).2.2 ?_
    intro other hother
    rw [phases_enter] at hother
    split_ifs at hother with hne
    · cases hother
    · exact hne (h.released other thread _ hother hreleasing)

theorem Consistent.unique (h : Consistent state) (object : α) : Unique object state := by
  refine ⟨h.nodup, ?_⟩
  intro thread newId newObj hphase
  obtain ⟨-, hnull, -⟩ := h.chosen thread newId newObj hphase
  obtain ⟨retlist, hslot, hstep⟩ := h.construct_eq hphase object
  refine ⟨retlist, _, hstep, ?_, ?_, hslot, ?_⟩
  · intro hlive
    have hfalse := (h.live newId hlive).2
    rw [hnull] at hfalse
    cases hfalse
  · intro other hother
    have hfalse := (h.releasing other newId hother).2.1
    rw [hnull] at hfalse
    cases hfalse
  · exact if_pos ⟨rfl, rfl⟩

end

/-- In every interleaving in which no id is chosen a second time before its object is
made, no two live lists have one id and every call returns the slot of its id. -/
theorem reachable_unique {T α : Type*} [DecidableEq T] (object : α) {state : State T α}
    (h : Reachable Initial (GuardedStep (step object) Unreserved) state) : Unique object state := by
  have hconsistent : Consistent state := by
    refine Reachable.invariant ?_ ?_ h
    · intro start hstart
      exact Consistent.of_initial hstart
    · rintro state next hstate ⟨call, result, hguard, hstep⟩
      exact step_consistent hstate call hguard hstep
  exact hconsistent.unique object

instance (counter : WrapAroundCounter) (isNull : Nat → Bool) (nIndexes id : Nat) :
    Decidable (NextFree counter isNull nIndexes id) :=
  decidable_of_iff
    (id < nIndexes ∧ isNull id = true ∧
      (∀ j, j < id → counter.nextVal ≤ j → isNull j = false) ∧
      (id < counter.nextVal → (∀ j, j < id → isNull j = false) ∧
        ∀ j, j < nIndexes → counter.nextVal ≤ j → isNull j = false))
    ⟨fun ⟨hlt, hnull, hbefore, hwrapped⟩ => ⟨hlt, hnull, hbefore, hwrapped⟩,
      fun ⟨hlt, hnull, hbefore, hwrapped⟩ => ⟨hlt, hnull, hbefore, hwrapped⟩⟩

instance (state : State Bool Unit) (call : Step Bool) : Decidable (Unreserved state call) :=
  match call with
  | .choose _ _ => inferInstanceAs (Decidable (∀ thread, ∀ id ∈ (state.phases thread).reserved,
      ¬ NextFree state.lists.idCounter state.lists.isNull state.lists.nIndexes id))
  | .construct _ => isTrue trivial
  | .fetch _ _ => isTrue trivial
  | .destroy _ => isTrue trivial
  | .clear _ => isTrue trivial

def noLists : State Bool Unit where
  lists :=
    { memory := fun _ _ => none
      array := none
      nIndexes := 0
      idCounter := { startVal := 0, maxVal := -1, nextVal := 0 } }
  phases := fun _ => .idle
  live := []

theorem noLists_initial : Initial noLists :=
  ⟨rfl, rfl, rfl, fun _ => rfl, rfl⟩

/-- The calls of the two threads overlap, and the second thread then releases the list of
the first one while that allocates again. -/
def overlapping : List (Step Bool) :=
  [.choose true (some 1), .choose false none, .construct true, .construct false,
    .fetch false 0, .choose true none, .destroy false, .clear false]

theorem reachable_unique_overlapping :
    ∃ results last, run (step ()) noLists overlapping = some (results, last) ∧
      last.live = [1] ∧ last.phases true = .chosen 2 none ∧ Unique () last := by
  have hrun : ((run (step ()) noLists overlapping).any fun r =>
      decide (r.2.live = [1] ∧ r.2.phases true = .chosen 2 none)) = true := by decide +kernel
  obtain ⟨⟨results, last⟩, hlast, hfacts⟩ := (any_eq_true _ _).mp hrun
  obtain ⟨hlive, hphase⟩ := of_decide_eq_true hfacts
  have hguarded : Guarded (step ()) Unreserved noLists overlapping := by decide +kernel
  exact ⟨results, last, hlast, hlive, hphase, reachable_unique ()
    (reachable_of_run (reachable_of_init noLists_initial) hguarded hlast)⟩

/-- One thread fills the array up to the last slot. Both threads then choose the last
slot, one after the other, and make their objects in it. -/
def lastSlotTwice : List (Step Bool) :=
  (List.replicate 15 [Step.choose true (some 1), .construct true]).flatten ++
    [.choose true none, .choose false none, .construct true, .construct false]

theorem lastSlotTwice_same_id :
    Initial noLists ∧ ∃ results last, run (step ()) noLists lastSlotTwice = some (results, last) ∧
      results.drop 32 =
        [.allocated 15 { base := 1, index := 15 }, .allocated 15 { base := 1, index := 15 }] ∧
      ¬ last.live.Nodup := by
  refine ⟨noLists_initial, ?_⟩
  have hrun : ((run (step ()) noLists lastSlotTwice).any fun r =>
      decide (r.1.drop 32 =
        [.allocated 15 { base := 1, index := 15 }, .allocated 15 { base := 1, index := 15 }] ∧
        ¬ r.2.live.Nodup)) = true := by decide +kernel
  obtain ⟨⟨results, last⟩, hlast, hfacts⟩ := (any_eq_true _ _).mp hrun
  obtain ⟨hresults, hlive⟩ := of_decide_eq_true hfacts
  exact ⟨results, last, hlast, hresults, hlive⟩

end Zambesii.ScatterGatherIds
