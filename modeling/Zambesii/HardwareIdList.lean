import Mathlib.Algebra.Order.Ring.Int
import Mathlib.Data.List.Perm.Subperm
import Mathlib.Data.List.Range
import Zambesii.KernelTypes
import Zambesii.Runs

/-!
`HardwareIdList`: items under the ids of hardware, in an array whose used nodes are linked in
the order of their indexes.
-/

namespace Zambesii

/-- `valid` is `HWIDLIST_FLAGS_INDEX_VALID` of the flags; an item is a pointer. -/
structure HardwareIdList.Node where
  next : Int
  valid : Bool
  item : Nat
deriving DecidableEq

/-- `nBytes` is the size of the memory that the array is in. -/
structure HardwareIdList where
  nBytes : Nat
  arr : Nat → HardwareIdList.Node
  maxIndex : Int
  maxAllocatedIndex : Int
  firstValidIndex : Int

namespace HardwareIdList

open Function List Option
open KernelTypes Runs

def indexInvalid : Int := -1

def sizeofNode : Nat := 12

def bytesToPages (bytes : Nat) : Nat :=
  bytes / pagingBaseSize + if bytes % pagingBaseSize = 0 then 0 else 1

def empty : HardwareIdList where
  nBytes := 0
  arr := fun _ => ⟨0, false, 0⟩
  maxIndex := indexInvalid
  maxAllocatedIndex := indexInvalid
  firstValidIndex := indexInvalid

/-- After `initialize` with `preallocatedSize` bytes of memory. -/
def preallocated (preallocatedSize : Nat) : HardwareIdList :=
  { empty with
    nBytes := preallocatedSize
    maxAllocatedIndex :=
      if 0 < preallocatedSize / sizeofNode then (preallocatedSize / sizeofNode : Nat) - 1
      else indexInvalid }

/-- `arr[index]` lies in the memory of the array. -/
def InArray (list : HardwareIdList) (index : Int) : Prop :=
  0 ≤ index ∧ sizeofNode * (index + 1) ≤ list.nBytes

instance (list : HardwareIdList) (index : Int) : Decidable (InArray list index) :=
  inferInstanceAs (Decidable (_ ∧ _))

def node (list : HardwareIdList) (index : Int) : Option Node :=
  if InArray list index then some (list.arr index.toNat) else none

def modify (list : HardwareIdList) (index : Int) (f : Node → Node) :
    Option HardwareIdList :=
  if InArray list index then
    some { list with
      arr := update list.arr index.toNat (f (list.arr index.toNat)) }
  else none

def setNext (list : HardwareIdList) (index next : Int) : Option HardwareIdList :=
  list.modify index fun node => { node with next }

/-- `getNextItem`: the cursor after it, and the item unless there is none. -/
def getNextItem (list : HardwareIdList) (cursor : Int) : Option (Int × Option Nat) :=
  let next? : Option Int :=
    if cursor = indexInvalid then some list.firstValidIndex
    else (list.node cursor).map Node.next
  match next? with
  | none => none
  | some next =>
    if next = indexInvalid then some (cursor, none)
    else (list.node next).map fun node => (next, some node.item)

/-- The loops over the links: the first index whose `next` passes the test. -/
def seekFrom (list : HardwareIdList) (test : Int → Bool) : Nat → Int → Option (Option Int)
  | 0, _ => none
  | fuel + 1, i =>
    if i = indexInvalid then some none
    else
      match list.node i with
      | none => none
      | some node => if test node.next then some (some i) else seekFrom list test fuel node.next

def seek (list : HardwareIdList) (test : Int → Bool) : Option (Option Int) :=
  seekFrom list test (list.nBytes / sizeofNode + 1) list.firstValidIndex

/-- `addItem` when the array must be resized: `memAlloc` returns `NULL` or pages with the nodes
`fresh`. -/
def addResizing (list : HardwareIdList) (index : Int) (item : Nat) (fresh : Option (Nat → Node)) :
    Option (Kerror × HardwareIdList) :=
  match fresh with
  | none => some (.memoryNomem, list)
  | some fresh =>
    let nBytes := bytesToPages (sizeofNode * (index + 1).toNat % wordModulus) * pagingBaseSize
    -- the old nodes are copied, and must have room
    if (nBytes : Int) < sizeofNode * (list.maxAllocatedIndex + 1) then none
    else do
      let list := { list with
        nBytes
        arr := fun i => if (i : Int) ≤ list.maxAllocatedIndex then list.arr i else fresh i }
      let list ←
        if list.maxIndex = indexInvalid then some { list with firstValidIndex := index }
        else list.setNext list.maxIndex index
      let list := { list with maxIndex := index, maxAllocatedIndex := index }
      let list ← list.modify index fun _ => ⟨indexInvalid, true, item⟩
      some (.success, list)

/-- The links of `addItem` when the array is large enough. -/
def linkInPlace (list : HardwareIdList) (index : Int) : Option HardwareIdList :=
  if list.firstValidIndex = indexInvalid then
    { list with firstValidIndex := index, maxIndex := index }.setNext index indexInvalid
  else if index < list.firstValidIndex then do
    let list ← list.setNext index list.firstValidIndex
    some { list with firstValidIndex := index }
  else if index > list.maxIndex then do
    let list ← list.setNext list.maxIndex index
    let list ← list.setNext index indexInvalid
    some { list with maxIndex := index }
  else
    match seek list fun next => next > index with
    | none => none
    | some none => some list
    | some (some i) =>
      if i = index then some list
      else do
        let node ← list.node i
        let list ← list.setNext index node.next
        list.setNext i index

def addItem (list : HardwareIdList) (index : Int) (item : Nat) (fresh : Option (Nat → Node)) :
    Option (Kerror × HardwareIdList) :=
  if index > list.maxAllocatedIndex ∨ list.maxAllocatedIndex = indexInvalid then
    addResizing list index item fresh
  else do
    let list ← linkInPlace list index
    let list ← list.modify index fun node => { node with item, valid := true }
    some (.success, list)

def removeItem (list : HardwareIdList) (id : Int) : Option HardwareIdList :=
  if id > list.maxIndex then some list
  else if list.firstValidIndex = id then do
    let node ← list.node id
    let maxIndex := if id = list.maxIndex then indexInvalid else list.maxIndex
    { list with firstValidIndex := node.next, maxIndex }.modify id fun node =>
      { node with valid := false }
  else
    match seek list fun next => next == id with
    | none => none
    | some none => some list
    | some (some i) => do
        let maxIndex := if id = list.maxIndex then i else list.maxIndex
        let node ← list.node id
        let list ← { list with maxIndex }.setNext i node.next
        list.modify id fun node => { node with valid := false }

inductive Call
  | addItem (index : Int) (item : Nat) (fresh : Option (Nat → Node))
  | removeItem (id : Int)

structure State where
  list : HardwareIdList
  items : Int → Option Nat

def step (state : State) : Call → Option (Kerror × State)
  | .addItem index item fresh =>
    match addItem state.list index item fresh with
    | none => none
    | some (.success, list) =>
      some (.success, ⟨list, update state.items index (some item)⟩)
    | some (error, list) => some (error, { state with list })
  | .removeItem id =>
    match removeItem state.list id with
    | none => none
    | some list => some (.success, ⟨list, update state.items id none⟩)

def initialState (preallocatedSize : Option Nat) : State where
  list := match preallocatedSize with
    | none => empty
    | some size => preallocated size
  items := fun _ => none

def Proper : Call → Prop
  | .addItem index _ fresh => 0 ≤ index ∧ index < 2 ^ 31 ∧ fresh.isSome
  | .removeItem id => -2 ^ 31 ≤ id ∧ id < 2 ^ 31

/-- The size of the array for the index does not wrap around, and the id that is removed is not
the invalid one. -/
def Fitting (call : Call) : Prop :=
  Proper call ∧
    match call with
    | .addItem index _ _ => sizeofNode * (index + 1) < wordModulus
    | .removeItem id => id ≠ indexInvalid

/-- From `cursor` on, `getNextItem` visits the entries and then finds no more. -/
def Visits (list : HardwareIdList) : Int → List (Int × Nat) → Prop
  | cursor, [] => getNextItem list cursor = some (cursor, none)
  | cursor, entry :: rest =>
    getNextItem list cursor = some (entry.1, some entry.2) ∧ Visits list entry.1 rest

def lastIndex (entries : List (Int × Nat)) : Int :=
  match entries.getLast? with
  | none => indexInvalid
  | some entry => entry.1

/-- The links visit each item once, in the order of the indexes, and `maxIndex` is the last. -/
def Threaded (state : State) : Prop :=
  ∃ entries : List (Int × Nat),
    Visits state.list indexInvalid entries ∧
    entries.Pairwise (fun entry next => entry.1 < next.1) ∧
    (∀ index item, (index, item) ∈ entries ↔ state.items index = some item) ∧
    state.list.maxIndex = lastIndex entries

section

/-- The nodes from `i` on are linked in the order of the entries, and the last one to `stop`. -/
def Segment (arr : Nat → Node) (stop : Int) : Int → List (Int × Nat) → Prop
  | i, [] => i = stop
  | i, entry :: rest =>
    i = entry.1 ∧ (arr entry.1.toNat).item = entry.2 ∧
      Segment arr stop (arr entry.1.toNat).next rest

def Agrees (arr arr' : Nat → Node) (index : Int) : Prop :=
  (arr' index.toNat).item = (arr index.toNat).item ∧
    (arr' index.toNat).next = (arr index.toNat).next

variable {arr arr' : Nat → Node} {stop stop' i k : Int} {item : Nat}
  {entries pre post : List (Int × Nat)} {entry : Int × Nat}

theorem segment_append : Segment arr stop i (pre ++ post) ↔
      ∃ middle, Segment arr middle i pre ∧ Segment arr stop middle post := by
  induction pre generalizing i with
  | nil =>
    constructor
    · intro h
      exact ⟨i, rfl, h⟩
    · rintro ⟨middle, rfl, h⟩
      exact h
  | cons entry pre ih =>
    constructor
    · rintro ⟨hi, hitem, hrest⟩
      obtain ⟨middle, hpre, hpost⟩ := ih.mp hrest
      exact ⟨middle, ⟨hi, hitem, hpre⟩, hpost⟩
    · rintro ⟨middle, ⟨hi, hitem, hpre⟩, hpost⟩
      exact ⟨hi, hitem, ih.mpr ⟨middle, hpre, hpost⟩⟩

theorem Segment.congr (h : Segment arr stop i entries)
    (hagree : ∀ entry ∈ entries, Agrees arr arr' entry.1) : Segment arr' stop i entries := by
  induction entries generalizing i with
  | nil => exact h
  | cons entry rest ih =>
    obtain ⟨hi, hitem, hrest⟩ := h
    obtain ⟨hitem', hnext'⟩ := hagree entry (by simp)
    refine ⟨hi, hitem'.trans hitem, ?_⟩
    rw [hnext']
    exact ih hrest fun other hother => hagree other (by simp [hother])

theorem Segment.insert (h : Segment arr stop i (pre ++ entry :: post))
    (hpre : ∀ other ∈ pre, Agrees arr arr' other.1)
    (hpost : ∀ other ∈ post, Agrees arr arr' other.1)
    (hitem : (arr' entry.1.toNat).item = (arr entry.1.toNat).item)
    (hnext : (arr' entry.1.toNat).next = k) (hkitem : (arr' k.toNat).item = item)
    (hknext : (arr' k.toNat).next = (arr entry.1.toNat).next) :
    Segment arr' stop i (pre ++ entry :: (k, item) :: post) := by
  obtain ⟨middle, hfront, hmiddle, hentry, hback⟩ := segment_append.mp h
  refine segment_append.mpr ⟨middle, hfront.congr hpre, hmiddle, hitem.trans hentry, hnext,
    hkitem, ?_⟩
  rw [hknext]
  exact hback.congr hpost

theorem Segment.remove (h : Segment arr stop i (pre ++ entry :: (k, item) :: post))
    (hpre : ∀ other ∈ pre, Agrees arr arr' other.1)
    (hpost : ∀ other ∈ post, Agrees arr arr' other.1)
    (hitem : (arr' entry.1.toNat).item = (arr entry.1.toNat).item)
    (hnext : (arr' entry.1.toNat).next = (arr k.toNat).next) :
    Segment arr' stop i (pre ++ entry :: post) := by
  obtain ⟨middle, hfront, hmiddle, hentry, -, -, hback⟩ := segment_append.mp h
  refine segment_append.mpr ⟨middle, hfront.congr hpre, hmiddle, hitem.trans hentry, ?_⟩
  rw [hnext]
  exact hback.congr hpost

theorem Segment.overwrite {old : Nat} (h : Segment arr stop i (pre ++ (k, old) :: post))
    (hpre : ∀ other ∈ pre, Agrees arr arr' other.1)
    (hpost : ∀ other ∈ post, Agrees arr arr' other.1) (hkitem : (arr' k.toNat).item = item)
    (hknext : (arr' k.toNat).next = (arr k.toNat).next) :
    Segment arr' stop i (pre ++ (k, item) :: post) := by
  obtain ⟨middle, hfront, hmiddle, -, hback⟩ := segment_append.mp h
  refine segment_append.mpr ⟨middle, hfront.congr hpre, hmiddle, hkitem, ?_⟩
  rw [hknext]
  exact hback.congr hpost

def headIndex (stop : Int) (entries : List (Int × Nat)) : Int :=
  match entries with
  | [] => stop
  | entry :: _ => entry.1

theorem Segment.head_eq (h : Segment arr stop i entries) : i = headIndex stop entries := by
  cases entries with
  | nil => exact h
  | cons entry rest => exact h.1

theorem Segment.next_eq (h : Segment arr stop i (pre ++ entry :: post)) :
    (arr entry.1.toNat).next = headIndex stop post := by
  obtain ⟨middle, -, -, -, hback⟩ := segment_append.mp h
  exact hback.head_eq

end

section

structure Holds (list : HardwareIdList) (entries : List (Int × Nat)) : Prop where
  segment : Segment list.arr indexInvalid list.firstValidIndex entries
  sorted : entries.Pairwise fun entry next => entry.1 < next.1
  last : list.maxIndex = lastIndex entries
  bound : ∀ entry ∈ entries, 0 ≤ entry.1 ∧ entry.1 ≤ list.maxAllocatedIndex
  allocated : indexInvalid ≤ list.maxAllocatedIndex
  fits : sizeofNode * (list.maxAllocatedIndex + 1) ≤ list.nBytes

variable {list list' : HardwareIdList} {entries pre post : List (Int × Nat)} {entry : Int × Nat}
  {index id : Int} {item : Nat}

theorem Holds.inArray (h : Holds list entries) (hpos : 0 ≤ index)
    (hle : index ≤ list.maxAllocatedIndex) : InArray list index := by
  refine ⟨hpos, ?_⟩
  have hfits := h.fits
  unfold sizeofNode at *
  omega

theorem Holds.entry_inArray (h : Holds list entries) (hmem : entry ∈ entries) :
    InArray list entry.1 :=
  h.inArray (h.bound entry hmem).1 (h.bound entry hmem).2

theorem node_eq (h : InArray list index) : list.node index = some (list.arr index.toNat) :=
  if_pos h

theorem modify_eq (h : InArray list index) (f : Node → Node) :
    list.modify index f = some { list with
      arr := update list.arr index.toNat (f (list.arr index.toNat)) } :=
  if_pos h

theorem setNext_eq (h : InArray list index) (next : Int) :
    list.setNext index next = some { list with
      arr := update list.arr index.toNat
        { list.arr index.toNat with next } } :=
  modify_eq h _

theorem lastIndex_append (pre : List (Int × Nat)) (entry : Int × Nat) :
    lastIndex (pre ++ [entry]) = entry.1 := by
  simp [lastIndex]

theorem exists_append_of_lastIndex (hne : entries ≠ []) :
    ∃ pre entry, entries = pre ++ [entry] ∧ lastIndex entries = entry.1 := by
  obtain ⟨pre, entry, rfl⟩ := (eq_nil_or_concat' entries).resolve_left hne
  exact ⟨pre, entry, rfl, lastIndex_append pre entry⟩

variable (h : Holds list entries)

include h

theorem Holds.le_last (hmem : entry ∈ entries) : entry.1 ≤ list.maxIndex := by
  obtain ⟨pre, last, rfl, hlast⟩ := exists_append_of_lastIndex (ne_nil_of_mem hmem)
  rw [h.last, hlast]
  rcases mem_append.mp hmem with hmem | hmem
  · exact ((pairwise_append.mp h.sorted).2.2 entry hmem last (by simp)).le
  · rw [mem_singleton.mp hmem]

theorem Holds.first_le (hmem : entry ∈ entries) : list.firstValidIndex ≤ entry.1 := by
  cases entries with
  | nil => cases hmem
  | cons first rest =>
    rw [h.segment.1]
    rcases mem_cons.mp hmem with rfl | hmem
    · exact le_rfl
    · exact (rel_of_pairwise_cons h.sorted hmem).le

theorem Holds.first_eq_invalid_iff : list.firstValidIndex = indexInvalid ↔ entries = [] := by
  cases entries with
  | nil =>
    have hfirst : list.firstValidIndex = indexInvalid := h.segment
    simp [hfirst]
  | cons first rest =>
    have hpos := (h.bound first (by simp)).1
    rw [h.segment.1]
    simp only [indexInvalid, reduceCtorEq, iff_false]
    omega

theorem Holds.length_le : entries.length ≤ list.nBytes / sizeofNode := by
  have hnodup : (entries.map fun entry => entry.1.toNat).Nodup := by
    refine pairwise_map.mpr (h.sorted.imp_of_mem ?_)
    intro entry next hentry hnext hlt
    have := (h.bound entry hentry).1
    omega
  have hsub : (entries.map fun entry => entry.1.toNat) ⊆ range (list.nBytes / sizeofNode) := by
    intro index hindex
    obtain ⟨entry, hentry, rfl⟩ := mem_map.mp hindex
    obtain ⟨hpos, hle⟩ := h.entry_inArray hentry
    rw [mem_range]
    unfold sizeofNode at *
    omega
  have hlength := (subperm_of_subset hnodup hsub).length_le
  simpa using hlength

omit h

theorem seekFrom_spec {test : Int → Bool} {fuel : Nat} {i : Int}
    (h : Segment list.arr indexInvalid i entries) (hin : ∀ entry ∈ entries, InArray list entry.1)
    (hfuel : entries.length < fuel) :
    (seekFrom list test fuel i = some none ∧ (∀ entry ∈ entries.tail, test entry.1 = false)) ∨
      ∃ pre entry post, entries = pre ++ entry :: post ∧
        seekFrom list test fuel i = some (some entry.1) ∧
        test (headIndex indexInvalid post) = true ∧
        ∀ other ∈ (pre ++ [entry]).tail, test other.1 = false := by
  induction entries generalizing i fuel with
  | nil =>
    obtain ⟨fuel, rfl⟩ := Nat.exists_eq_succ_of_ne_zero (ne_zero_of_lt hfuel)
    have hi : i = indexInvalid := h
    left
    rw [seekFrom, if_pos hi]
    simp
  | cons entry rest ih =>
    obtain ⟨fuel, rfl⟩ := Nat.exists_eq_succ_of_ne_zero (ne_zero_of_lt hfuel)
    obtain ⟨rfl, -, hrest⟩ := h
    have hentry := hin entry (by simp)
    have hne : entry.1 ≠ indexInvalid := by
      have := hentry.1
      unfold indexInvalid
      omega
    have hnext := hrest.head_eq
    rw [seekFrom, if_neg hne, node_eq hentry]
    dsimp only
    cases htest : test (list.arr entry.1.toNat).next with
    | true =>
      right
      refine ⟨[], entry, rest, rfl, rfl, ?_, by simp⟩
      rw [← hnext]
      exact htest
    | false =>
      have hstep := ih hrest (fun other hother => hin other (by simp [hother]))
        (by simpa using hfuel)
      rcases hstep with ⟨hseek, hall⟩ | ⟨pre, found, post, heq, hseek, hfound, hall⟩
      · refine .inl ⟨hseek, ?_⟩
        cases rest with
        | nil => simp
        | cons second rest =>
          intro other hother
          rcases mem_cons.mp hother with rfl | hother
          · rw [hnext] at htest
            exact htest
          · exact hall other hother
      refine .inr ⟨entry :: pre, found, post, by rw [heq]; rfl, hseek, hfound, ?_⟩
      intro other hother
      have hsplit : rest = (pre ++ [found]) ++ post := by
        rw [heq]
        simp
      cases hfront : pre ++ [found] with
      | nil => simp at hfront
      | cons second front =>
        rw [cons_append, tail_cons, hfront] at hother
        rw [hfront] at hall hsplit
        rcases mem_cons.mp hother with rfl | hother
        · rw [hnext, hsplit] at htest
          exact htest
        · exact hall other hother

theorem Holds.seek_spec (h : Holds list entries) (test : Int → Bool) :
    (seek list test = some none ∧ (∀ entry ∈ entries.tail, test entry.1 = false)) ∨
      ∃ pre entry post, entries = pre ++ entry :: post ∧
        seek list test = some (some entry.1) ∧ test (headIndex indexInvalid post) = true ∧
        ∀ other ∈ (pre ++ [entry]).tail, test other.1 = false :=
  seekFrom_spec h.segment (fun _ hentry => h.entry_inArray hentry)
    (Nat.lt_succ_of_le h.length_le)

end

section

variable {list list' : HardwareIdList} {entries entries' pre post : List (Int × Nat)}
  {entry : Int × Nat} {index id : Int} {item : Nat}

def Adds (entries : List (Int × Nat)) (index : Int) (item : Nat) (entries' : List (Int × Nat)) :
    Prop :=
  ∀ entry, entry ∈ entries' ↔ entry = (index, item) ∨ entry ∈ entries ∧ entry.1 ≠ index

theorem Holds.entry_lt_of_pre (h : Holds list (pre ++ entry :: post)) :
    ∀ other ∈ pre, other.1 < entry.1 :=
  fun other hother => (pairwise_append.mp h.sorted).2.2 other hother entry (by simp)

theorem Holds.entry_lt_post (h : Holds list (pre ++ entry :: post)) :
    ∀ other ∈ post, entry.1 < other.1 :=
  fun _ hother => rel_of_pairwise_cons (pairwise_append.mp h.sorted).2.1 hother

theorem agrees_of_ne {arr : Nat → Node} {other : Int} (hother : 0 ≤ other) (hindex : 0 ≤ index)
    (hne : other ≠ index) (node : Node) : Agrees arr (update arr index.toNat node) other := by
  have hne' : other.toNat ≠ index.toNat := by omega
  simp [Agrees, hne']

theorem Holds.insertAfter (h : Holds list (pre ++ entry :: post)) (hpos : 0 ≤ index)
    (hlt : entry.1 < index) (hpost : ∀ other ∈ post, index < other.1)
    (hfirst : list'.firstValidIndex = list.firstValidIndex)
    (hmax : list'.maxIndex = if post = [] then index else list.maxIndex)
    (hgrown : list.maxAllocatedIndex ≤ list'.maxAllocatedIndex)
    (hle : index ≤ list'.maxAllocatedIndex)
    (hfits : sizeofNode * (list'.maxAllocatedIndex + 1) ≤ list'.nBytes)
    (hagree : ∀ other ∈ pre ++ post, Agrees list.arr list'.arr other.1)
    (hitem : (list'.arr entry.1.toNat).item = (list.arr entry.1.toNat).item)
    (hnext : (list'.arr entry.1.toNat).next = index)
    (hkitem : (list'.arr index.toNat).item = item)
    (hknext : (list'.arr index.toNat).next = (list.arr entry.1.toNat).next) :
    Holds list' (pre ++ entry :: (index, item) :: post) ∧
      Adds (pre ++ entry :: post) index item (pre ++ entry :: (index, item) :: post) := by
  have hpre := h.entry_lt_of_pre
  refine ⟨⟨?_, ?_, ?_, ?_, h.allocated.trans hgrown, hfits⟩, ?_⟩
  · rw [hfirst]
    refine h.segment.insert (fun other hother => hagree other (by simp [hother]))
      (fun other hother => hagree other (by simp [hother])) hitem hnext hkitem hknext
  · obtain ⟨hfront, hback, hcross⟩ := pairwise_append.mp h.sorted
    obtain ⟨-, hsorted⟩ := pairwise_cons.mp hback
    refine pairwise_append.mpr ⟨hfront, pairwise_cons.mpr ⟨?_,
      pairwise_cons.mpr ⟨hpost, hsorted⟩⟩, ?_⟩
    · intro other hother
      rcases mem_cons.mp hother with rfl | hother
      · exact hlt
      · exact h.entry_lt_post other hother
    · intro other hother next hnextMem
      have := hpre other hother
      rcases mem_cons.mp hnextMem with rfl | hnextMem
      · exact this
      · rcases mem_cons.mp hnextMem with rfl | hnextMem
        · exact this.trans hlt
        · exact hcross other hother next (by simp [hnextMem])
  · rw [hmax, h.last]
    cases post with
    | nil => simp [lastIndex]
    | cons second post => simp [lastIndex]
  · intro other hother
    simp only [mem_append, mem_cons] at hother
    rcases hother with hother | rfl | rfl | hother
    · have := h.bound other (by simp [hother])
      omega
    · have := h.bound other (by simp)
      omega
    · exact ⟨hpos, hle⟩
    · have := h.bound other (by simp [hother])
      omega
  · intro other
    simp only [mem_append, mem_cons]
    constructor
    · rintro (hother | rfl | rfl | hother)
      · exact .inr ⟨.inl hother, ((hpre other hother).trans hlt).ne⟩
      · exact .inr ⟨.inr (.inl rfl), hlt.ne⟩
      · exact .inl rfl
      · exact .inr ⟨.inr (.inr hother), (hpost other hother).ne'⟩
    · rintro (rfl | ⟨hother, -⟩)
      · exact .inr (.inr (.inl rfl))
      · rcases hother with hother | rfl | hother
        · exact .inl hother
        · exact .inr (.inl rfl)
        · exact .inr (.inr (.inr hother))

theorem Holds.overwrite {old : Nat} (h : Holds list (pre ++ (index, old) :: post)) :
    Holds { list with
        arr := update list.arr index.toNat
          { list.arr index.toNat with item := item, valid := true } }
        (pre ++ (index, item) :: post) ∧
      Adds (pre ++ (index, old) :: post) index item (pre ++ (index, item) :: post) := by
  have hpos := (h.bound (index, old) (by simp)).1
  have hpre := h.entry_lt_of_pre
  have hpost := h.entry_lt_post
  refine ⟨⟨?_, ?_, ?_, ?_, h.allocated, h.fits⟩, ?_⟩
  · refine h.segment.overwrite (fun other hother => ?_) (fun other hother => ?_) ?_ ?_
    · exact agrees_of_ne (h.bound other (by simp [hother])).1 hpos (hpre other hother).ne _
    · exact agrees_of_ne (h.bound other (by simp [hother])).1 hpos (hpost other hother).ne' _
    · simp
    · simp
  · have hsorted := h.sorted
    rw [← pairwise_map] at hsorted ⊢
    simpa using hsorted
  · have hlast := h.last
    rcases eq_nil_or_concat' post with rfl | ⟨post, last, rfl⟩
    · rw [lastIndex_append] at hlast ⊢
      exact hlast
    have hsplit : ∀ value : Nat, pre ++ (index, value) :: (post ++ [last]) =
        (pre ++ (index, value) :: post) ++ [last] := by
      simp
    rw [hsplit, lastIndex_append] at hlast ⊢
    exact hlast
  · intro other hother
    simp only [mem_append, mem_cons] at hother
    rcases hother with hother | rfl | hother
    · exact h.bound other (by simp [hother])
    · exact h.bound (index, old) (by simp)
    · exact h.bound other (by simp [hother])
  · intro other
    simp only [mem_append, mem_cons]
    constructor
    · rintro (hother | rfl | hother)
      · exact .inr ⟨.inl hother, (hpre other hother).ne⟩
      · exact .inl rfl
      · exact .inr ⟨.inr (.inr hother), (hpost other hother).ne'⟩
    · rintro (rfl | ⟨hother | rfl | hother, hne⟩)
      · exact .inr (.inl rfl)
      · exact .inl hother
      · exact absurd rfl hne
      · exact .inr (.inr hother)

theorem Holds.addFirst (h : Holds list []) (hpos : 0 ≤ index)
    (hfirst : list'.firstValidIndex = index) (hmax : list'.maxIndex = index)
    (hgrown : list.maxAllocatedIndex ≤ list'.maxAllocatedIndex)
    (hle : index ≤ list'.maxAllocatedIndex)
    (hfits : sizeofNode * (list'.maxAllocatedIndex + 1) ≤ list'.nBytes)
    (hkitem : (list'.arr index.toNat).item = item)
    (hknext : (list'.arr index.toNat).next = indexInvalid) :
    Holds list' [(index, item)] ∧ Adds [] index item [(index, item)] := by
  refine ⟨⟨⟨hfirst, hkitem, hknext⟩, pairwise_singleton _ _, hmax, ?_,
    h.allocated.trans hgrown, hfits⟩, ?_⟩
  · intro entry hentry
    rw [mem_singleton.mp hentry]
    exact ⟨hpos, hle⟩
  · intro entry
    simp

theorem Holds.addFront (h : Holds list entries) (hne : entries ≠ []) (hpos : 0 ≤ index)
    (hlt : index < list.firstValidIndex) (hle : index ≤ list.maxAllocatedIndex) (valid : Bool) :
    Holds { list with
        firstValidIndex := index
        arr := update list.arr index.toNat ⟨list.firstValidIndex, valid, item⟩ }
        ((index, item) :: entries) ∧
      Adds entries index item ((index, item) :: entries) := by
  have hall : ∀ entry ∈ entries, index < entry.1 :=
    fun entry hentry => hlt.trans_le (h.first_le hentry)
  refine ⟨⟨⟨rfl, ?_, ?_⟩, pairwise_cons.mpr ⟨hall, h.sorted⟩, ?_, ?_, h.allocated, h.fits⟩, ?_⟩
  · simp
  · simp only [update_self]
    refine h.segment.congr fun entry hentry => ?_
    exact agrees_of_ne (h.bound entry hentry).1 hpos (hall entry hentry).ne' _
  · have hlast := h.last
    obtain ⟨pre, last, rfl, -⟩ := exists_append_of_lastIndex hne
    rw [← cons_append, lastIndex_append]
    rw [lastIndex_append] at hlast
    exact hlast
  · intro entry hentry
    rcases mem_cons.mp hentry with rfl | hentry
    · exact ⟨hpos, hle⟩
    · exact h.bound entry hentry
  · intro entry
    rw [mem_cons]
    constructor
    · rintro (rfl | hentry)
      · exact .inl rfl
      · exact .inr ⟨hentry, (hall entry hentry).ne'⟩
    · rintro (rfl | ⟨hentry, -⟩)
      · exact .inl rfl
      · exact .inr hentry

theorem Holds.addInPlace (h : Holds list entries) (hpos : 0 ≤ index)
    (hle : index ≤ list.maxAllocatedIndex) (fresh : Option (Nat → Node)) :
    ∃ list' entries', HardwareIdList.addItem list index item fresh = some (.success, list') ∧
      Holds list' entries' ∧ Adds entries index item entries' := by
  have hin := h.inArray hpos hle
  have hplace : ¬ (index > list.maxAllocatedIndex ∨ list.maxAllocatedIndex = indexInvalid) := by
    unfold indexInvalid
    omega
  rw [HardwareIdList.addItem, if_neg hplace, linkInPlace]
  rcases eq_or_ne entries [] with rfl | hne
  · have hempty := h.first_eq_invalid_iff.mpr rfl
    rw [if_pos hempty, setNext_eq, some_bind, modify_eq]
    · refine ⟨_, _, rfl, h.addFirst hpos rfl rfl le_rfl hle h.fits ?_ ?_⟩
      · simp
      · simp
    · exact hin
    · exact hin
  rw [if_neg (mt h.first_eq_invalid_iff.mp hne)]
  split
  · next hlt =>
    rw [setNext_eq hin]
    simp only [some_bind]
    rw [modify_eq]
    · simp only [update_self, update_idem]
      exact ⟨_, _, rfl, h.addFront hne hpos hlt hle true⟩
    · exact hin
  next hfirst =>
  split
  · next hgt =>
    obtain ⟨pre, last, rfl, hlast⟩ := exists_append_of_lastIndex hne
    rw [← h.last] at hlast
    have hlastMem : last ∈ pre ++ [last] := by simp
    have hlastIn : InArray list list.maxIndex := by
      rw [hlast]
      exact h.entry_inArray hlastMem
    have hlastPos := (h.bound last hlastMem).1
    rw [hlast] at hgt
    rw [setNext_eq hlastIn]
    simp only [some_bind]
    rw [setNext_eq]
    · simp only [some_bind]
      rw [modify_eq]
      · have hlastNe : last.1.toNat ≠ index.toNat := by omega
        refine ⟨_, _, rfl, h.insertAfter hpos hgt (by simp) rfl (by simp) le_rfl hle h.fits
          ?_ ?_ ?_ ?_ ?_⟩
        · intro other hother
          rw [append_nil] at hother
          have hotherPos := (h.bound other (by simp [hother])).1
          have hlt := h.entry_lt_of_pre other hother
          have hindexNe : other.1.toNat ≠ index.toNat := by omega
          have hmaxNe : other.1.toNat ≠ list.maxIndex.toNat := by omega
          simp [Agrees, hindexNe, hmaxNe]
        · simp [hlast, hlastNe]
        · simp [hlast, hlastNe]
        · simp
        · simp [h.segment.next_eq, headIndex]
      · exact hin
    · exact hin
  next hmax =>
  have hfirstLe : ∀ entry ∈ entries, (∀ other ∈ entries.tail, ¬ other.1 > index) →
      entry.1 ≤ index := by
    intro entry hentry htail
    cases entries with
    | nil => cases hentry
    | cons first rest =>
      have hhead := h.segment.1
      rcases mem_cons.mp hentry with rfl | hentry
      · omega
      · exact not_lt.mp (htail entry hentry)
  rcases h.seek_spec (fun next => decide (next > index)) with
    ⟨hseek, hall⟩ | ⟨pre, entry, post, rfl, hseek, hfound, hall⟩
  · rw [hseek]
    simp only [some_bind]
    rw [modify_eq hin]
    -- no node has a higher index, so that the index is the last one
    obtain ⟨pre, last, rfl, hlast⟩ := exists_append_of_lastIndex hne
    rw [← h.last] at hlast
    have hle' := hfirstLe last (by simp) (by simpa using hall)
    obtain ⟨key, old⟩ := last
    obtain rfl : key = index := by omega
    exact ⟨_, _, rfl, h.overwrite⟩
  rw [hseek]
  have hentry : entry ∈ pre ++ entry :: post := by simp
  have hentryPos := (h.bound entry hentry).1
  have hentryLe : entry.1 ≤ index := by
    cases pre with
    | nil =>
      have hhead := h.segment.1
      omega
    | cons first pre =>
      have hlast := hall entry (by simp)
      simpa using hlast
  replace hfound : headIndex indexInvalid post > index := of_decide_eq_true hfound
  have hpost : ∀ other ∈ post, index < other.1 := by
    cases post with
    | nil => simp
    | cons second post =>
      intro other hother
      rcases mem_cons.mp hother with rfl | hother
      · exact hfound
      · have hsorted := (pairwise_cons.mp (pairwise_append.mp h.sorted).2.1).2
        exact lt_trans hfound (rel_of_pairwise_cons hsorted hother)
  have hpostNe : post ≠ [] := by
    rintro rfl
    simp only [headIndex, indexInvalid] at hfound
    omega
  dsimp only
  split
  · next heq =>
    simp only [some_bind]
    rw [modify_eq hin]
    obtain ⟨key, old⟩ := entry
    obtain rfl : key = index := heq
    exact ⟨_, _, rfl, h.overwrite⟩
  next hentryNe =>
  have hentryIn := h.entry_inArray hentry
  have hindexNe : entry.1.toNat ≠ index.toNat := by omega
  rw [node_eq hentryIn]
  simp only [some_bind]
  rw [setNext_eq hin]
  simp only [some_bind]
  rw [setNext_eq]
  · simp only [some_bind]
    rw [modify_eq]
    · refine ⟨_, _, rfl, h.insertAfter hpos (lt_of_le_of_ne hentryLe hentryNe) hpost rfl
        (if_neg hpostNe).symm le_rfl hle h.fits ?_ ?_ ?_ ?_ ?_⟩
      · intro other hother
        have hotherPos : 0 ≤ other.1 := by
          refine (h.bound other ?_).1
          rcases mem_append.mp hother with hother | hother <;> simp [hother]
        have hother' : other.1.toNat ≠ index.toNat ∧ other.1.toNat ≠ entry.1.toNat := by
          rcases mem_append.mp hother with hother | hother
          · have := h.entry_lt_of_pre other hother
            omega
          · have := hpost other hother
            omega
        simp [Agrees, hother'.1, hother'.2]
      · simp [hindexNe]
      · simp [hindexNe]
      · simp
      · simp [hindexNe.symm]
    · exact hin
  · exact hentryIn

theorem le_bytesToPages (bytes : Nat) : bytes ≤ bytesToPages bytes * pagingBaseSize := by
  unfold bytesToPages pagingBaseSize
  split <;> omega

theorem Holds.addResizing (h : Holds list entries) (hpos : 0 ≤ index)
    (hgt : list.maxAllocatedIndex < index) (hfit : sizeofNode * (index + 1) < wordModulus)
    (fresh : Nat → Node) : ∃ list' entries', HardwareIdList.addItem list index item (some fresh) =
        some (.success, list') ∧ Holds list' entries' ∧ Adds entries index item entries' := by
  rw [HardwareIdList.addItem, if_pos (.inl hgt), HardwareIdList.addResizing]
  have hsize : sizeofNode * (index + 1).toNat % wordModulus = sizeofNode * (index + 1).toNat := by
    refine Nat.mod_eq_of_lt ?_
    unfold sizeofNode wordModulus at *
    omega
  rw [hsize]
  generalize hnBytes : bytesToPages (sizeofNode * (index + 1).toNat) * pagingBaseSize = nBytes
  have hroom : sizeofNode * (index + 1) ≤ nBytes := by
    have := le_bytesToPages (sizeofNode * (index + 1).toNat)
    unfold sizeofNode at *
    omega
  have hcopied : ¬ (nBytes : Int) < sizeofNode * (list.maxAllocatedIndex + 1) := by
    unfold sizeofNode at *
    omega
  rw [if_neg hcopied]
  rcases eq_or_ne entries [] with rfl | hne
  · have hempty : list.maxIndex = indexInvalid := h.last
    simp only [hempty, if_true, some_bind]
    rw [modify_eq]
    · refine ⟨_, _, rfl, h.addFirst hpos rfl rfl hgt.le le_rfl hroom ?_ ?_⟩
      · simp
      · simp
    · exact ⟨hpos, hroom⟩
  obtain ⟨pre, last, rfl, hlast⟩ := exists_append_of_lastIndex hne
  rw [← h.last] at hlast
  have hlastBound := h.bound last (by simp)
  have hmaxNe : list.maxIndex ≠ indexInvalid := by
    unfold indexInvalid
    omega
  simp only [hmaxNe, if_false, bind_eq_bind]
  rw [setNext_eq]
  · simp only [bind_some]
    rw [modify_eq]
    · have hlastNe : last.1.toNat ≠ index.toNat := by omega
      have hlastCopied : (last.1.toNat : Int) ≤ list.maxAllocatedIndex := by omega
      refine ⟨_, _, rfl, h.insertAfter hpos (by omega) (by simp) rfl (by simp) hgt.le le_rfl hroom
        ?_ ?_ ?_ ?_ ?_⟩
      · intro other hother
        rw [append_nil] at hother
        have hotherBound := h.bound other (by simp [hother])
        have hlt := h.entry_lt_of_pre other hother
        have hotherCopied : (other.1.toNat : Int) ≤ list.maxAllocatedIndex := by omega
        have hindexNe : other.1.toNat ≠ index.toNat := by omega
        have hotherNe : other.1.toNat ≠ list.maxIndex.toNat := by omega
        simp only [Agrees, update_of_ne hindexNe, update_of_ne hotherNe,
          if_pos hotherCopied, and_self]
      · simp only [update_of_ne hlastNe, hlast, update_self, if_pos hlastCopied]
      · simp only [update_of_ne hlastNe, hlast, update_self]
      · simp
      · simp [h.segment.next_eq, headIndex]
    · exact ⟨hpos, hroom⟩
  · refine ⟨by omega, ?_⟩
    dsimp only
    unfold sizeofNode at *
    omega

end

section

variable {list : HardwareIdList} {entries : List (Int × Nat)} {id : Int}

theorem Holds.removeItem (h : Holds list entries) (hid : id ≠ indexInvalid) :
    ∃ list' entries', HardwareIdList.removeItem list id = some list' ∧ Holds list' entries' ∧
      ∀ entry, entry ∈ entries' ↔ entry ∈ entries ∧ entry.1 ≠ id := by
  rw [HardwareIdList.removeItem]
  split
  · next hgt =>
    refine ⟨list, entries, rfl, h, fun entry => ⟨fun hentry => ⟨hentry, ?_⟩, And.left⟩⟩
    have := h.le_last hentry
    omega
  next hmax =>
  split
  · next hfirst =>
    cases entries with
    | nil => exact absurd (hfirst.symm.trans h.segment) hid
    | cons first rest =>
      obtain ⟨hhead, hitem, hrest⟩ := h.segment
      obtain rfl : id = first.1 := hfirst.symm.trans hhead
      have hin : InArray list first.1 := h.entry_inArray mem_cons_self
      have hpos := hin.1
      have hall : ∀ entry ∈ rest, first.1 < entry.1 :=
        fun _ hentry => rel_of_pairwise_cons h.sorted hentry
      rw [node_eq hin]
      simp only [some_bind]
      rw [modify_eq]
      · refine ⟨_, rest, rfl, ⟨?_, (pairwise_cons.mp h.sorted).2, ?_,
          fun entry hentry => h.bound entry (by simp [hentry]), h.allocated, h.fits⟩, ?_⟩
        · refine hrest.congr fun entry hentry => ?_
          exact agrees_of_ne (h.bound entry (by simp [hentry])).1 hpos (hall entry hentry).ne' _
        · rcases eq_nil_or_concat' rest with rfl | ⟨rest, last, rfl⟩
          · have hlast : list.maxIndex = first.1 := h.last
            rw [if_pos hlast.symm]
            rfl
          have hlast := h.last
          rw [← cons_append, lastIndex_append] at hlast
          have := hall last (by simp)
          rw [if_neg (by omega), lastIndex_append]
          exact hlast
        · intro entry
          constructor
          · intro hentry
            exact ⟨by simp [hentry], (hall entry hentry).ne'⟩
          · rintro ⟨hentry, hne⟩
            rcases mem_cons.mp hentry with rfl | hentry
            · exact absurd rfl hne
            · exact hentry
      · exact hin
  next hfirst =>
  rcases h.seek_spec (fun next => next == id) with
    ⟨hseek, hall⟩ | ⟨pre, entry, post, rfl, hseek, hfound, -⟩
  · rw [hseek]
    refine ⟨list, entries, rfl, h, fun entry => ⟨fun hentry => ⟨hentry, ?_⟩, And.left⟩⟩
    cases entries with
    | nil => cases hentry
    | cons first rest =>
      rcases mem_cons.mp hentry with rfl | hentry
      · rw [← h.segment.1]
        exact hfirst
      · simpa using hall entry hentry
  rw [hseek]
  cases post with
  | nil => exact absurd (beq_iff_eq.mp hfound).symm hid
  | cons removed post =>
    obtain ⟨key, old⟩ := removed
    obtain rfl : key = id := beq_iff_eq.mp hfound
    have hentryMem : entry ∈ pre ++ entry :: (key, old) :: post := by simp
    have hremovedMem : (key, old) ∈ pre ++ entry :: (key, old) :: post := by simp
    have hentryIn := h.entry_inArray hentryMem
    have hin : InArray list key := h.entry_inArray hremovedMem
    obtain ⟨hsortedPre, hsortedTail, hacross⟩ := pairwise_append.mp h.sorted
    obtain ⟨hentryLt, hsortedTail⟩ := pairwise_cons.mp hsortedTail
    obtain ⟨hkeyLt, hsortedPost⟩ := pairwise_cons.mp hsortedTail
    have hentryKey : entry.1 < key := hentryLt _ mem_cons_self
    have hentryNe : entry.1.toNat ≠ key.toNat := by
      have := hentryIn.1
      omega
    rw [node_eq hin]
    simp only [some_bind]
    rw [setNext_eq]
    · simp only [some_bind]
      rw [modify_eq]
      · refine ⟨_, pre ++ entry :: post, rfl, ⟨?_, ?_, ?_, ?_, h.allocated, h.fits⟩, ?_⟩
        · refine h.segment.remove ?_ ?_ ?_ ?_
          · intro other hother
            have hotherPos := (h.bound other (by simp [hother])).1
            have := hacross other hother entry mem_cons_self
            have hkeyNe : other.1.toNat ≠ key.toNat := by omega
            have hotherNe : other.1.toNat ≠ entry.1.toNat := by omega
            simp [Agrees, hkeyNe, hotherNe]
          · intro other hother
            have := hkeyLt other hother
            have hkeyNe : other.1.toNat ≠ key.toNat := by omega
            have hotherNe : other.1.toNat ≠ entry.1.toNat := by omega
            simp [Agrees, hkeyNe, hotherNe]
          · simp [hentryNe]
          · simp [hentryNe]
        · exact h.sorted.sublist (List.Sublist.append_left
            (List.Sublist.cons_cons _ (sublist_cons_self _ _)) _)
        · have hlast := h.last
          rcases eq_nil_or_concat' post with rfl | ⟨post, last, rfl⟩
          · have hsplit : pre ++ [entry, (key, old)] = (pre ++ [entry]) ++ [(key, old)] := by simp
            rw [hsplit, lastIndex_append] at hlast
            rw [if_pos hlast.symm, lastIndex_append]
          have hsplit : pre ++ entry :: (key, old) :: (post ++ [last]) =
              (pre ++ entry :: (key, old) :: post) ++ [last] := by
            simp
          have hsplit' : pre ++ entry :: (post ++ [last]) =
              (pre ++ entry :: post) ++ [last] := by
            simp
          rw [hsplit, lastIndex_append] at hlast
          have := hkeyLt last (by simp)
          rw [if_neg (by omega), hsplit', lastIndex_append]
          exact hlast
        · intro other hother
          refine h.bound other ?_
          simp only [mem_append, mem_cons] at hother ⊢
          rcases hother with hother | rfl | hother
          · exact .inl hother
          · exact .inr (.inl rfl)
          · exact .inr (.inr (.inr hother))
        · intro other
          simp only [mem_append, mem_cons]
          constructor
          · rintro (hother | rfl | hother)
            · exact ⟨.inl hother, (hacross other hother (key, old) (by simp)).ne⟩
            · exact ⟨.inr (.inl rfl), hentryKey.ne⟩
            · exact ⟨.inr (.inr (.inr hother)), (hkeyLt other hother).ne'⟩
          · rintro ⟨hother | rfl | rfl | hother, hne⟩
            · exact .inl hother
            · exact .inr (.inl rfl)
            · exact absurd rfl hne
            · exact .inr (.inr hother)
      · exact hin
    · exact hentryIn

end

section

variable {list : HardwareIdList} {entries : List (Int × Nat)} {state : State} {call : Call}

theorem visits_of_segment {cursor first : Int}
    (hcursor : (if cursor = indexInvalid then some list.firstValidIndex
      else (list.node cursor).map Node.next) = some first)
    (h : Segment list.arr indexInvalid first entries)
    (hin : ∀ entry ∈ entries, InArray list entry.1) : Visits list cursor entries := by
  induction entries generalizing cursor first with
  | nil =>
    have hfirst : first = indexInvalid := h
    rw [Visits, getNextItem]
    rw [hcursor]
    exact if_pos hfirst
  | cons entry rest ih =>
    obtain ⟨rfl, hitem, hrest⟩ := h
    have hentry := hin entry (by simp)
    have hne : entry.1 ≠ indexInvalid := by
      have := hentry.1
      unfold indexInvalid
      omega
    refine ⟨?_, ih ?_ hrest fun other hother => hin other (by simp [hother])⟩
    · rw [getNextItem]
      rw [hcursor]
      dsimp only
      rw [if_neg hne, node_eq hentry, map_some, hitem]
    · rw [if_neg hne, node_eq hentry, map_some]

def Sound (state : State) : Prop :=
  ∃ entries, Holds state.list entries ∧
    ∀ index item, (index, item) ∈ entries ↔ state.items index = some item

theorem Sound.threaded (h : Sound state) : Threaded state := by
  obtain ⟨entries, hholds, hitems⟩ := h
  refine ⟨entries, ?_, hholds.sorted, hitems, hholds.last⟩
  exact visits_of_segment (if_pos rfl) hholds.segment fun _ hentry => hholds.entry_inArray hentry

theorem sound_initialState (preallocatedSize : Option Nat) :
    Sound (initialState preallocatedSize) := by
  refine ⟨[], ?_, by simp [initialState]⟩
  cases preallocatedSize with
  | none => exact ⟨rfl, List.Pairwise.nil, rfl, by simp, by decide, by decide⟩
  | some size =>
    refine ⟨rfl, List.Pairwise.nil, rfl, by simp, ?_, ?_⟩
    · change indexInvalid ≤ ite _ _ _
      unfold indexInvalid
      split <;> omega
    · change sizeofNode * ((ite _ _ _ : Int) + 1) ≤ (size : Int)
      unfold indexInvalid sizeofNode
      split <;> omega

theorem Sound.step (h : Sound state) (hfit : Fitting call) :
    ∃ result next, HardwareIdList.step state call = some (result, next) ∧ Sound next := by
  obtain ⟨entries, hholds, hitems⟩ := h
  obtain ⟨hproper, hfit⟩ := hfit
  cases call with
  | addItem index item fresh =>
    obtain ⟨hpos, -, hfresh⟩ := hproper
    obtain ⟨fresh, rfl⟩ := isSome_iff_exists.mp hfresh
    have hadd : ∃ list' entries', addItem state.list index item (some fresh) =
        some (.success, list') ∧ Holds list' entries' ∧ Adds entries index item entries' := by
      rcases le_or_gt index state.list.maxAllocatedIndex with hle | hgt
      · exact hholds.addInPlace hpos hle (some fresh)
      · exact hholds.addResizing hpos hgt hfit fresh
    obtain ⟨list', entries', heq, hholds', hadds⟩ := hadd
    unfold HardwareIdList.step
    dsimp only
    rw [heq]
    refine ⟨_, _, rfl, entries', hholds', fun other value => ?_⟩
    rw [hadds]
    rcases eq_or_ne other index with rfl | hne
    · simp [eq_comm]
    · simp [hne, hitems]
  | removeItem id =>
    obtain ⟨list', entries', heq, hholds', hmem⟩ := hholds.removeItem hfit
    unfold HardwareIdList.step
    dsimp only
    rw [heq]
    refine ⟨_, _, rfl, entries', hholds', fun other value => ?_⟩
    rw [hmem, hitems]
    rcases eq_or_ne other id with rfl | hne
    · simp
    · simp [hne]

instance decidableProper : (call : Call) → Decidable (Proper call)
  | .addItem _ _ _ => inferInstanceAs (Decidable (_ ∧ _ ∧ _))
  | .removeItem _ => inferInstanceAs (Decidable (_ ∧ _))

instance decidableFitting : (call : Call) → Decidable (Fitting call)
  | .addItem index item fresh =>
    inferInstanceAs (Decidable (Proper (.addItem index item fresh) ∧ _ < _))
  | .removeItem id => inferInstanceAs (Decidable (Proper (.removeItem id) ∧ id ≠ indexInvalid))

/-- As long as the size of the array does not wrap around and the invalid index is not removed,
the links visit the items that were added and not removed. -/
theorem run_threaded (preallocatedSize : Option Nat) (calls : List Call)
    (h : Guarded step (fun _ call => Fitting call) (initialState preallocatedSize) calls) :
    ∃ results last, run step (initialState preallocatedSize) calls = some (results, last) ∧
      Threaded last := by
  obtain ⟨results, last, hrun, hsound⟩ := run_invariant
    (fun state call hsound hfit => Sound.step hsound hfit)
    (sound_initialState preallocatedSize) h
  exact ⟨results, last, hrun, hsound.threaded⟩

def clearNodes : Nat → Node := fun _ => ⟨0, false, 0⟩

/-- The array grows twice, an index comes in between and is overwritten, and the first and the
last one go. -/
def addAndRemove : List Call :=
  [.addItem 3 70 (some clearNodes), .addItem 9 71 (some clearNodes),
    .addItem 5 72 (some clearNodes), .addItem 5 73 (some clearNodes),
    .addItem 400 74 (some clearNodes), .removeItem 3, .removeItem 400, .removeItem 6]

theorem run_threaded_addAndRemove :
    ∃ results last, run step (initialState none) addAndRemove = some (results, last) ∧
      last.list.firstValidIndex = 5 ∧ last.list.maxIndex = 9 ∧ last.items 5 = some 73 ∧
      Threaded last := by
  have hrun : ((run step (initialState none) addAndRemove).any fun r =>
      decide (r.2.list.firstValidIndex = 5 ∧ r.2.list.maxIndex = 9 ∧
        r.2.items 5 = some 73)) = true := by
    decide +kernel
  obtain ⟨⟨results, last⟩, hlast, hstate⟩ := (any_eq_true _ _).mp hrun
  obtain ⟨results', last', hlast', hthreaded⟩ :=
    run_threaded none addAndRemove (by decide +kernel)
  obtain ⟨rfl, rfl⟩ := Prod.mk.inj (some.inj (hlast.symm.trans hlast'))
  obtain ⟨hfirst, hmax, hitem⟩ := of_decide_eq_true hstate
  exact ⟨results, last, hlast, hfirst, hmax, hitem, hthreaded⟩

def removeInvalid : List Call :=
  [.addItem 3 70 (some clearNodes), .removeItem indexInvalid]

theorem removeInvalid_stuck :
    ¬ ∀ preallocatedSize calls,
      Guarded step (fun _ call => Proper call) (initialState preallocatedSize) calls →
      ∃ results last, run step (initialState preallocatedSize) calls = some (results, last) ∧
        Threaded last := by
  intro hclaim
  obtain ⟨results, last, hlast, -⟩ := hclaim none removeInvalid (by decide +kernel)
  cases hlast

end

end HardwareIdList

end Zambesii
