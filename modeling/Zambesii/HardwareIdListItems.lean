import Zambesii.HardwareIdList

/-!
`HardwareIdList::getItem` and `findFreeIndex`, which go by the flags of the nodes and not by
their links. The nodes that the array skips when it grows have the flags that their memory had
before.
-/

namespace Zambesii.HardwareIdListItems

open Function List Option
open HardwareIdList KernelTypes Runs

def getItem (list : HardwareIdList) (id : Int) : Option Nat :=
  if id > list.maxIndex ∨ id < list.firstValidIndex then some 0
  else
    match list.node id with
    | none => none
    | some node => some (if node.valid = true then node.item else 0)

/-- The loop of `findFreeIndex` with `left` nodes to go. -/
def findFrom (list : HardwareIdList) : Nat → Nat → Option (Option Nat)
  | 0, _ => some none
  | left + 1, i =>
    match list.node i with
    | none => none
    | some node => if node.valid = true then findFrom list left (i + 1) else some (some i)

def findFreeIndex (list : HardwareIdList) : Option (Option Nat) :=
  findFrom list (list.maxAllocatedIndex + 1).toNat 0

inductive Request where
  | change (call : Call)
  | getItem (id : Int)
  | findFreeIndex

inductive Answer where
  | changed (error : Kerror)
  | item (item : Nat)
  | index (index : Option Nat)
deriving DecidableEq

def request (state : State) : Request → Option (Answer × State)
  | .change call =>
    match step state call with
    | none => none
    | some (error, next) => some (.changed error, next)
  | .getItem id =>
    match getItem state.list id with
    | none => none
    | some item => some (.item item, state)
  | .findFreeIndex =>
    match findFreeIndex state.list with
    | none => none
    | some index => some (.index index, state)

def Legal (_ : State) : Request → Prop
  | .change (.addItem index _ _) => -2 ^ 31 ≤ index ∧ index < 2 ^ 31
  | .change (.removeItem id) => -2 ^ 31 ≤ id ∧ id < 2 ^ 31
  | .getItem id => -2 ^ 31 ≤ id ∧ id < 2 ^ 31
  | .findFreeIndex => True

def Allocated (list : HardwareIdList) (index : Nat) : Prop :=
  (index : Int) ≤ list.maxAllocatedIndex

def Spec (state : State) : Request → Answer → State → Prop
  | .change _, _, _ => True
  | .getItem id, answer, _ => answer = .item ((state.items id).getD 0)
  | .findFreeIndex, answer, _ =>
    (∃ index, answer = .index (some index) ∧ Allocated state.list index ∧
      state.items index = none) ∨
    (answer = .index none ∧ ∀ index, Allocated state.list index → state.items index ≠ none)

/-- `addItem` allocates a larger array. -/
def Resizes (list : HardwareIdList) (index : Int) : Prop :=
  index > list.maxAllocatedIndex ∨ list.maxAllocatedIndex = indexInvalid

/-- An index is not negative and the size of a larger array does not wrap around; no id is the
invalid one where there is no node for that; and a node between the first and the last one that
is not in the list does not look as if it were. -/
def Good (state : State) : Request → Prop
  | .change (.addItem index _ fresh) => ¬(Resizes state.list index ∧ fresh = none) →
      0 ≤ index ∧
        (state.list.maxAllocatedIndex < index → sizeofNode * (index + 1) < wordModulus)
  | .change (.removeItem id) => id ≠ indexInvalid
  | .getItem id =>
    ¬(id = indexInvalid ∧ state.list.firstValidIndex = indexInvalid) ∧
      (state.list.firstValidIndex ≤ id → id ≤ state.list.maxIndex → state.items id = none →
        (state.list.arr id.toNat).valid = false ∨ (state.list.arr id.toNat).item = 0)
  | .findFreeIndex =>
    (∃ index, Allocated state.list index ∧ (state.list.arr index).valid = false) ∨
      ∀ index, Allocated state.list index → state.items index ≠ none

structure Marked (state : State) (entries : List (Int × Nat)) : Prop where
  holds : Holds state.list entries
  items : ∀ index item, (index, item) ∈ entries ↔ state.items index = some item
  valid : ∀ entry ∈ entries, (state.list.arr entry.1.toNat).valid = true

section

variable {list list' : HardwareIdList} {index id : Int}

theorem modify_arr {f : Node → Node} (h : list.modify index f = some list') : InArray list index ∧
      list'.arr = update list.arr index.toNat (f (list.arr index.toNat)) ∧
      list'.nBytes = list.nBytes := by
  rw [HardwareIdList.modify] at h
  split at h
  · rename_i hin
    cases h
    exact ⟨hin, rfl, rfl⟩
  · cases h

theorem setNext_valid {next : Int} (h : list.setNext index next = some list') (k : Nat) :
    (list'.arr k).valid = (list.arr k).valid := by
  obtain ⟨-, harr, -⟩ := modify_arr h
  rw [harr]
  rcases eq_or_ne k index.toNat with rfl | hne
  · rw [update_self]
  · rw [update_of_ne hne]

theorem linkInPlace_valid (h : linkInPlace list index = some list') (k : Nat) :
    (list'.arr k).valid = (list.arr k).valid := by
  rw [linkInPlace] at h
  split at h
  · exact setNext_valid h k
  split at h
  · obtain ⟨list₁, hfirst, hlast⟩ := bind_eq_some_iff.mp h
    cases hlast
    exact setNext_valid hfirst k
  split at h
  · obtain ⟨list₁, hfirst, hrest⟩ := bind_eq_some_iff.mp h
    obtain ⟨list₂, hsecond, hlast⟩ := bind_eq_some_iff.mp hrest
    cases hlast
    exact (setNext_valid hsecond k).trans (setNext_valid hfirst k)
  split at h
  · cases h
  · cases h
    rfl
  split at h
  · cases h
    rfl
  · obtain ⟨node, -, hrest⟩ := bind_eq_some_iff.mp h
    obtain ⟨list₁, hfirst, hsecond⟩ := bind_eq_some_iff.mp hrest
    exact (setNext_valid hsecond k).trans (setNext_valid hfirst k)

theorem addItem_valid {item : Nat} {fresh : Option (Nat → Node)}
    (h : addItem list index item fresh = some (.success, list')) :
    0 ≤ index ∧ (list'.arr index.toNat).valid = true ∧
      ∀ k : Nat, (k : Int) ≤ list.maxAllocatedIndex → (k : Int) ≠ index →
        (list'.arr k).valid = (list.arr k).valid := by
  have hmark : ∀ {list₁ list₂ : HardwareIdList} {f : Node → Node},
      list₁.modify index f = some list₂ → (∀ node, (f node).valid = true) →
      0 ≤ index ∧ (list₂.arr index.toNat).valid = true ∧
        ∀ k : Nat, (k : Int) ≠ index → (list₂.arr k).valid = (list₁.arr k).valid := by
    intro list₁ list₂ f hmodify hf
    obtain ⟨hin, harr, -⟩ := modify_arr hmodify
    refine ⟨hin.1, ?_, ?_⟩
    · rw [harr, update_self]
      exact hf _
    · intro k hne
      have hpos := hin.1
      rw [harr, update_of_ne (by omega)]
  rw [addItem] at h
  split at h
  · unfold addResizing at h
    split at h
    · cases h
    dsimp only at h
    split at h
    · cases h
    split at h
    · obtain ⟨list₁, hfirst, hrest⟩ := bind_eq_some_iff.mp h
      obtain ⟨list₂, hsecond, hlast⟩ := bind_eq_some_iff.mp hrest
      cases hlast
      obtain ⟨hpos, hvalid, hkeep⟩ := hmark hsecond fun _ => rfl
      cases hfirst
      refine ⟨hpos, hvalid, ?_⟩
      intro k hle hne
      rw [hkeep k hne]
      dsimp only
      rw [if_pos hle]
    obtain ⟨list₁, hfirst, hrest⟩ := bind_eq_some_iff.mp h
    obtain ⟨list₂, hsecond, hlast⟩ := bind_eq_some_iff.mp hrest
    cases hlast
    obtain ⟨hpos, hvalid, hkeep⟩ := hmark hsecond fun _ => rfl
    refine ⟨hpos, hvalid, ?_⟩
    intro k hle hne
    rw [hkeep k hne]
    rw [setNext_valid hfirst]
    dsimp only
    rw [if_pos hle]
  · obtain ⟨list₁, hfirst, hrest⟩ := bind_eq_some_iff.mp h
    obtain ⟨list₂, hsecond, hlast⟩ := bind_eq_some_iff.mp hrest
    cases hlast
    obtain ⟨hpos, hvalid, hkeep⟩ := hmark hsecond fun _ => rfl
    refine ⟨hpos, hvalid, ?_⟩
    intro k _ hne
    rw [hkeep k hne]
    exact linkInPlace_valid hfirst k

theorem removeItem_valid (h : removeItem list id = some list') {k : Nat} (hne : (k : Int) ≠ id) :
    (list'.arr k).valid = (list.arr k).valid := by
  have hunmark : ∀ {list₁ list₂ : HardwareIdList} {f : Node → Node},
      list₁.modify id f = some list₂ → (list₂.arr k).valid = (list₁.arr k).valid := by
    intro list₁ list₂ f hmodify
    obtain ⟨hin, harr, -⟩ := modify_arr hmodify
    have hpos := hin.1
    rw [harr, update_of_ne (by omega)]
  rw [removeItem] at h
  split at h
  · cases h
    rfl
  split at h
  · obtain ⟨node, -, hrest⟩ := bind_eq_some_iff.mp h
    have hkept := hunmark hrest
    exact hkept
  split at h
  · cases h
  · cases h
    rfl
  · obtain ⟨node, -, hrest⟩ := bind_eq_some_iff.mp h
    obtain ⟨list₁, hfirst, hsecond⟩ := bind_eq_some_iff.mp hrest
    exact (hunmark hsecond).trans (setNext_valid hfirst k)

end

section

variable {list : HardwareIdList} {entries : List (Int × Nat)} {index : Int} {item : Nat}

theorem addResizing_out (fresh : Nat → Node) (hout : ¬(0 ≤ index ∧ sizeofNode * (index + 1) ≤
      ((bytesToPages (sizeofNode * (index + 1).toNat % wordModulus) * pagingBaseSize : Nat) : Int))) :
    addResizing list index item (some fresh) = none := by
  rcases hresult : addResizing list index item (some fresh) with _ | ⟨error, list'⟩
  · rfl
  exfalso
  apply hout
  unfold addResizing at hresult
  dsimp only at hresult
  split at hresult
  · cases hresult
  split at hresult
  · obtain ⟨list₁, hfirst, hrest⟩ := bind_eq_some_iff.mp hresult
    obtain ⟨list₂, hsecond, -⟩ := bind_eq_some_iff.mp hrest
    cases hfirst
    exact (modify_arr hsecond).1
  obtain ⟨list₁, hfirst, hrest⟩ := bind_eq_some_iff.mp hresult
  obtain ⟨list₂, hsecond, -⟩ := bind_eq_some_iff.mp hrest
  have hin := (modify_arr hsecond).1
  have hbytes := (modify_arr hfirst).2.2
  refine ⟨hin.1, ?_⟩
  have hle := hin.2
  rwa [hbytes] at hle

theorem addItem_negative {fresh : Option (Nat → Node)} (hneg : index < 0)
    (hsome : ¬(Resizes list index ∧ fresh = none)) : addItem list index item fresh = none := by
  rw [addItem]
  rcases em (Resizes list index) with hresizes | hplace
  · have hcond : index > list.maxAllocatedIndex ∨ list.maxAllocatedIndex = indexInvalid :=
      hresizes
    rw [if_pos hcond]
    rcases fresh with _ | fresh
    · exact absurd ⟨hresizes, rfl⟩ hsome
    · exact addResizing_out fresh fun hin => by omega
  have hcond : ¬(index > list.maxAllocatedIndex ∨ list.maxAllocatedIndex = indexInvalid) :=
    hplace
  rw [if_neg hcond]
  rcases linkInPlace list index with _ | list₁
  · rfl
  · have hnone : ∀ f, list₁.modify index f = none :=
      fun f => if_neg fun hin => absurd hin.1 (by omega)
    rw [some_bind, hnone]
    rfl

theorem addItem_wrapped (fresh : Nat → Node) (hgt : list.maxAllocatedIndex < index)
    (hwrap : ¬sizeofNode * (index + 1) < wordModulus) :
    addItem list index item (some fresh) = none := by
  rw [addItem, if_pos (.inl hgt)]
  refine addResizing_out fresh ?_
  rintro ⟨hpos, hle⟩
  have hpages : ∀ bytes, bytes < wordModulus →
      bytesToPages bytes * pagingBaseSize ≤ wordModulus := by
    intro bytes hbytes
    unfold bytesToPages pagingBaseSize
    unfold wordModulus at *
    split
    · omega
    · omega
  have hbound := hpages _ (Nat.mod_lt (sizeofNode * (index + 1).toNat) wordModulus_pos)
  unfold sizeofNode at hle hwrap hbound
  unfold wordModulus at hwrap hle hbound
  omega

theorem seekFrom_last {fuel : Nat} {i : Int} (h : Segment list.arr indexInvalid i entries)
    (hne : entries ≠ []) (hin : ∀ entry ∈ entries, InArray list entry.1)
    (hfuel : entries.length < fuel) :
    ∃ j, seekFrom list (fun next => next == indexInvalid) fuel i = some (some j) := by
  induction entries generalizing i fuel with
  | nil => exact absurd rfl hne
  | cons entry rest ih =>
    obtain ⟨fuel, rfl⟩ := Nat.exists_eq_succ_of_ne_zero (ne_zero_of_lt hfuel)
    obtain ⟨rfl, -, hrest⟩ := h
    have hentry := hin entry (mem_cons_self ..)
    have hvalid : entry.1 ≠ indexInvalid := by
      have hpos := hentry.1
      unfold indexInvalid
      omega
    rw [seekFrom, if_neg hvalid, node_eq hentry]
    dsimp only
    rcases eq_or_ne (list.arr entry.1.toNat).next indexInvalid with hlast | hmore
    · rw [hlast]
      exact ⟨entry.1, rfl⟩
    rw [if_neg (by simpa using hmore)]
    refine ih hrest ?_ (fun other hother => hin other (mem_cons_of_mem entry hother)) ?_
    · rintro rfl
      exact hmore hrest
    · simpa using hfuel

theorem Holds.maxIndex_ge (h : Holds list entries) : indexInvalid ≤ list.maxIndex := by
  rcases eq_or_ne entries [] with rfl | hne
  · rw [h.last]
    exact le_refl _
  obtain ⟨pre, entry, rfl, hlast⟩ := exists_append_of_lastIndex hne
  rw [h.last, hlast]
  have hpos := (h.bound entry (by simp)).1
  unfold indexInvalid
  omega

theorem removeItem_invalid (h : Holds list entries) : removeItem list indexInvalid = none := by
  have hnode : ∀ list : HardwareIdList, list.node indexInvalid = none :=
    fun list => if_neg fun hin => absurd hin.1 (by decide)
  rw [removeItem, if_neg (not_lt.mpr (Holds.maxIndex_ge h))]
  rcases eq_or_ne list.firstValidIndex indexInvalid with hempty | hfirst
  · rw [if_pos hempty, hnode]
    rfl
  have hne : entries ≠ [] := fun hnil => hfirst (h.first_eq_invalid_iff.mpr hnil)
  obtain ⟨j, hseek⟩ := seekFrom_last h.segment hne (fun _ hentry => h.entry_inArray hentry)
    (Nat.lt_succ_of_le h.length_le)
  rw [if_neg hfirst]
  have hfound : seek list (fun next => next == indexInvalid) = some (some j) := hseek
  rw [hfound]
  rfl

end

section

variable {state : State} {entries : List (Int × Nat)}

theorem Marked.item_eq (h : Marked state entries) {id : Int} {item : Nat}
    (hitem : state.items id = some item) :
    state.list.firstValidIndex ≤ id ∧ id ≤ state.list.maxIndex ∧
      (state.list.arr id.toNat).valid = true ∧ (state.list.arr id.toNat).item = item := by
  have hmem := (h.items id item).mpr hitem
  refine ⟨h.holds.first_le hmem, h.holds.le_last hmem, h.valid _ hmem, ?_⟩
  obtain ⟨pre, post, rfl⟩ := append_of_mem hmem
  obtain ⟨middle, -, -, hvalue, -⟩ := segment_append.mp h.holds.segment
  exact hvalue

theorem Marked.getItem (h : Marked state entries) (id : Int) : (Good state (.getItem id) ∧
      HardwareIdListItems.getItem state.list id = some ((state.items id).getD 0)) ∨
    (¬Good state (.getItem id) ∧
      HardwareIdListItems.getItem state.list id ≠ some ((state.items id).getD 0)) := by
  have hin : ∀ item, state.items id = some item →
      state.list.firstValidIndex ≤ id ∧ id ≤ state.list.maxIndex :=
    fun item hitem => ⟨(h.item_eq hitem).1, (h.item_eq hitem).2.1⟩
  rcases em (id > state.list.maxIndex ∨ id < state.list.firstValidIndex) with
    hout | hinside
  · left
    refine ⟨⟨?_, ?_⟩, ?_⟩
    · rintro ⟨rfl, hempty⟩
      have hge := Holds.maxIndex_ge h.holds
      omega
    · intro hfirst hlast
      omega
    · rw [HardwareIdListItems.getItem, if_pos hout]
      rcases hitem : state.items id with _ | item
      · rfl
      · have hbounds := hin item hitem
        omega
  have hget : HardwareIdListItems.getItem state.list id =
      match state.list.node id with
      | none => none
      | some node => some (if node.valid = true then node.item else 0) := by
    rw [HardwareIdListItems.getItem, if_neg hinside]
  rw [hget]
  rcases eq_or_ne entries [] with rfl | hne
  · -- in an empty list only the invalid id passes the test, and it has no node
    right
    have hfirst := h.holds.first_eq_invalid_iff.mpr rfl
    have hlast : state.list.maxIndex = indexInvalid := h.holds.last
    have hid : id = indexInvalid := by omega
    refine ⟨fun hgood => hgood.1 ⟨hid, hfirst⟩, ?_⟩
    have hnode : state.list.node id = none := by
      rw [hid]
      exact if_neg fun hin => absurd hin.1 (by decide)
    rw [hnode]
    exact (some_ne_none _).symm
  obtain ⟨pre, last, heq, hlast⟩ := exists_append_of_lastIndex hne
  obtain ⟨first, rest, hcons⟩ := exists_cons_of_ne_nil hne
  have hfirst : state.list.firstValidIndex = first.1 := by
    have hsegment := h.holds.segment
    rw [hcons] at hsegment
    exact hsegment.1
  have hfirstPos := (h.holds.bound first (by rw [hcons]; exact mem_cons_self ..)).1
  have hlastBound := (h.holds.bound last (by rw [heq]; simp)).2
  have hmax : state.list.maxIndex = last.1 := h.holds.last.trans hlast
  have hinArray : InArray state.list id := h.holds.inArray (by omega) (by omega)
  rw [node_eq hinArray]
  dsimp only
  have hvalidId : ¬(id = indexInvalid ∧ state.list.firstValidIndex = indexInvalid) := by
    rintro ⟨hid, -⟩
    unfold indexInvalid at hid
    omega
  rcases hitem : state.items id with _ | item
  · rcases em ((state.list.arr id.toNat).valid = false ∨
        (state.list.arr id.toNat).item = 0) with hclean | hstale
    · left
      refine ⟨⟨hvalidId, fun _ _ _ => hclean⟩, ?_⟩
      rcases hclean with hfalse | hzero
      · rw [hfalse]
        rfl
      · rw [hzero, ite_self]
        rfl
    · right
      obtain ⟨hvalid, hitemNe⟩ := not_or.mp hstale
      refine ⟨fun hgood => hstale (hgood.2 (by omega) (by omega) hitem), ?_⟩
      rw [if_pos (by simpa using hvalid)]
      intro heq'
      exact hitemNe (some.inj heq')
  · left
    obtain ⟨-, -, hvalid, hvalue⟩ := h.item_eq hitem
    refine ⟨⟨hvalidId, fun _ _ hnone => ?_⟩, ?_⟩
    · rw [hitem] at hnone
      cases hnone
    · rw [if_pos hvalid, hvalue]
      rfl

theorem findFrom_spec {list : HardwareIdList} {left i : Nat}
    (hin : ∀ k : Nat, i ≤ k → k < i + left → InArray list k) :
    (∃ index, findFrom list left i = some (some index) ∧ index < i + left ∧
      (list.arr index).valid = false) ∨ (findFrom list left i = some none ∧
      ∀ k, i ≤ k → k < i + left → (list.arr k).valid = true) := by
  induction left generalizing i with
  | zero =>
    right
    refine ⟨rfl, ?_⟩
    intro k hle hlt
    omega
  | succ left ih =>
    have hnode := node_eq (hin i (le_refl _) (by omega))
    rcases hvalid : (list.arr i).valid with _ | _
    · left
      refine ⟨i, ?_, by omega, hvalid⟩
      rw [findFrom, hnode]
      dsimp only
      rw [if_neg (by simp [hvalid])]
    have hstep : findFrom list (left + 1) i = findFrom list left (i + 1) := by
      rw [findFrom, hnode]
      exact if_pos hvalid
    rw [hstep]
    rcases @ih (i + 1) fun k hle hlt => hin k (by omega) (by omega) with
      ⟨index, heq, hlt, hfree⟩ | ⟨heq, hall⟩
    · exact .inl ⟨index, heq, by omega, hfree⟩
    right
    refine ⟨heq, ?_⟩
    intro k hle hlt
    rcases eq_or_ne k i with rfl | hne
    · exact hvalid
    · exact hall k (by omega) (by omega)

theorem Marked.findFreeIndex (h : Marked state entries) :
    ∃ index, HardwareIdListItems.findFreeIndex state.list = some index ∧
      (Spec state .findFreeIndex (.index index) state ↔ Good state .findFreeIndex) := by
  have hrange : ∀ k : Nat, k < 0 + (state.list.maxAllocatedIndex + 1).toNat ↔
      Allocated state.list k := by
    intro k
    unfold Allocated
    omega
  have hspec := @findFrom_spec state.list (state.list.maxAllocatedIndex + 1).toNat 0
    fun k _ hlt => h.holds.inArray (Int.natCast_nonneg k) ((hrange k).mp hlt)
  have hfree : ∀ k : Nat, (state.list.arr k).valid = false → state.items k = none := by
    intro k hfalse
    rcases hitem : state.items k with _ | item
    · rfl
    · have hvalid := (h.item_eq hitem).2.2.1
      rw [Int.toNat_natCast, hfalse] at hvalid
      cases hvalid
  rcases hspec with ⟨index, heq, hlt, hfalse⟩ | ⟨heq, hall⟩
  · refine ⟨some index, heq, ?_⟩
    constructor
    · intro _
      exact .inl ⟨index, (hrange index).mp hlt, hfalse⟩
    · intro _
      exact .inl ⟨index, rfl, (hrange index).mp hlt, hfree index hfalse⟩
  refine ⟨none, heq, ?_⟩
  constructor
  · rintro (⟨index, hindex, -⟩ | ⟨-, hused⟩)
    · cases hindex
    · exact .inr hused
  · rintro (⟨index, hindex, hfalse⟩ | hused)
    · rw [hall index (Nat.zero_le _) ((hrange index).mpr hindex)] at hfalse
      cases hfalse
    · exact .inr ⟨rfl, hused⟩

end

section

variable {state : State} {entries : List (Int × Nat)}

variable (h : Marked state entries)

include h

theorem marked_of_valid {list' : HardwareIdList} {entries' : List (Int × Nat)}
    {items : Int → Option Nat} {index : Int} (hholds : Holds list' entries')
    (hitems : ∀ other item, (other, item) ∈ entries' ↔ items other = some item)
    (hold : ∀ entry ∈ entries', entry.1 = index ∨ entry ∈ entries)
    (hindex : ∀ entry ∈ entries', entry.1 = index → (list'.arr index.toNat).valid = true)
    (hkeep : ∀ k : Nat, (k : Int) ≤ state.list.maxAllocatedIndex → (k : Int) ≠ index →
      (list'.arr k).valid = (state.list.arr k).valid) : Marked ⟨list', items⟩ entries' := by
  refine ⟨hholds, hitems, ?_⟩
  intro entry hentry
  rcases eq_or_ne entry.1 index with heq | hne
  · have hvalid := hindex entry hentry heq
    rwa [heq]
  have hmem := (hold entry hentry).resolve_left hne
  obtain ⟨hpos, hle⟩ := h.holds.bound entry hmem
  have hcast : (entry.1.toNat : Int) = entry.1 := Int.toNat_of_nonneg hpos
  have hkept := hkeep entry.1.toNat (by rw [hcast]; exact hle) (by rw [hcast]; exact hne)
  exact hkept.trans (h.valid entry hmem)

theorem Marked.addItem {index : Int} {item : Nat}
    {fresh : Option (Nat → Node)} (hgood : Good state (.change (.addItem index item fresh))) :
    ∃ error next entries', step state (.addItem index item fresh) = some (error, next) ∧
      Marked next entries' := by
  rcases em (Resizes state.list index ∧ fresh = none) with ⟨hresizes, rfl⟩ | hsome
  · have hadd : HardwareIdList.addItem state.list index item none =
        some (.memoryNomem, state.list) := by
      exact if_pos hresizes
    refine ⟨.memoryNomem, state, entries, ?_, h⟩
    simp only [step, hadd]
  obtain ⟨hpos, hfit⟩ := hgood hsome
  have hadd : ∃ list' entries', HardwareIdList.addItem state.list index item fresh =
      some (.success, list') ∧ Holds list' entries' ∧ Adds entries index item entries' := by
    rcases le_or_gt index state.list.maxAllocatedIndex with hle | hgt
    · exact h.holds.addInPlace hpos hle fresh
    · rcases fresh with _ | fresh
      · exact absurd ⟨.inl hgt, rfl⟩ hsome
      · exact h.holds.addResizing hpos hgt (hfit hgt) fresh
  obtain ⟨list', entries', heq, hholds, hadds⟩ := hadd
  obtain ⟨-, hvalid, hkeep⟩ := addItem_valid heq
  refine ⟨.success, ⟨list', update state.items index (some item)⟩, entries', ?_, ?_⟩
  · simp only [step, heq]
  · refine marked_of_valid h hholds ?_ ?_ (fun _ _ _ => hvalid) hkeep
    · intro other value
      rw [hadds]
      rcases eq_or_ne other index with rfl | hne
      · simp [eq_comm]
      · simp [hne, h.items]
    · intro entry hentry
      rcases (hadds entry).mp hentry with rfl | ⟨hmem, -⟩
      · exact .inl rfl
      · exact .inr hmem

theorem Marked.removeItem {id : Int} (hid : id ≠ indexInvalid) :
    ∃ next entries', step state (.removeItem id) = some (.success, next) ∧
      Marked next entries' := by
  obtain ⟨list', entries', heq, hholds, hmem⟩ := h.holds.removeItem hid
  refine ⟨⟨list', update state.items id none⟩, entries', ?_, ?_⟩
  · simp only [step, heq]
  · refine marked_of_valid h hholds ?_ ?_ ?_ fun k _ hne => removeItem_valid heq hne
    · intro other value
      rw [hmem, h.items]
      rcases eq_or_ne other id with rfl | hne
      · simp
      · simp [hne]
    · intro entry hentry
      exact .inr ((hmem entry).mp hentry).1
    · intro entry hentry hsame
      exact absurd hsame ((hmem entry).mp hentry).2

omit h

def SoundState (state : State) : Prop :=
  ∃ entries, Marked state entries

theorem request_good {req : Request} (h : SoundState state) (hgood : Good state req) :
    ∃ answer next, request state req = some (answer, next) ∧ Spec state req answer next ∧
      SoundState next := by
  obtain ⟨entries, h⟩ := h
  cases req with
  | change call =>
    cases call with
    | addItem index item fresh =>
      obtain ⟨error, next, entries', heq, hnext⟩ := h.addItem hgood
      refine ⟨.changed error, next, ?_, trivial, entries', hnext⟩
      simp only [request, heq]
    | removeItem id =>
      obtain ⟨next, entries', heq, hnext⟩ := h.removeItem hgood
      refine ⟨.changed .success, next, ?_, trivial, entries', hnext⟩
      simp only [request, heq]
  | getItem id =>
    rcases h.getItem id with ⟨-, heq⟩ | ⟨hbad, -⟩
    · refine ⟨.item ((state.items id).getD 0), state, ?_, rfl, entries, h⟩
      simp only [request, heq]
    · exact absurd hgood hbad
  | findFreeIndex =>
    obtain ⟨index, heq, hiff⟩ := h.findFreeIndex
    refine ⟨.index index, state, ?_, hiff.mpr hgood, entries, h⟩
    simp only [request, heq]

theorem request_bad {req : Request} {answer : Answer} {next : State} (h : SoundState state)
    (hbad : ¬Good state req) (hrequest : request state req = some (answer, next)) :
    ¬Spec state req answer next := by
  obtain ⟨entries, h⟩ := h
  cases req with
  | change call =>
    cases call with
    | addItem index item fresh =>
      obtain ⟨hsome, hnot⟩ := Classical.not_imp.mp hbad
      have hnone : HardwareIdList.addItem state.list index item fresh = none := by
        rcases lt_or_ge index 0 with hneg | hpos
        · exact addItem_negative hneg hsome
        · obtain ⟨hgt, hwrap⟩ := Classical.not_imp.mp fun hfit => hnot ⟨hpos, hfit⟩
          rcases fresh with _ | fresh
          · exact absurd ⟨.inl hgt, rfl⟩ hsome
          · exact addItem_wrapped fresh hgt hwrap
      simp only [request, step, hnone] at hrequest
      cases hrequest
    | removeItem id =>
      have hid : id = indexInvalid := Classical.not_not.mp hbad
      have hnone : HardwareIdList.removeItem state.list id = none := by
        rw [hid]
        exact removeItem_invalid h.holds
      simp only [request, step, hnone] at hrequest
      cases hrequest
  | getItem id =>
    rcases h.getItem id with ⟨hgood, -⟩ | ⟨-, hne⟩
    · exact absurd hgood hbad
    intro hspec
    rcases hget : HardwareIdListItems.getItem state.list id with _ | item
    · simp only [request, hget] at hrequest
      cases hrequest
    · simp only [request, hget, some.injEq, Prod.mk.injEq] at hrequest
      obtain ⟨rfl, -⟩ := hrequest
      rw [Answer.item.inj hspec] at hget
      exact hne hget
  | findFreeIndex =>
    obtain ⟨index, heq, hiff⟩ := h.findFreeIndex
    simp only [request, heq, some.injEq, Prod.mk.injEq] at hrequest
    obtain ⟨rfl, rfl⟩ := hrequest
    exact fun hspec => hbad (hiff.mp hspec)

theorem soundState_initialState (preallocatedSize : Option Nat) :
    SoundState (initialState preallocatedSize) := by
  obtain ⟨entries, hholds, hitems⟩ := sound_initialState preallocatedSize
  refine ⟨entries, hholds, hitems, ?_⟩
  intro entry hentry
  have hitem := (hitems entry.1 entry.2).mp hentry
  cases hitem

/-- Every query is answered from the items in the list, and within the array, in exactly the
runs of good requests. -/
theorem getItem_findFreeIndex_iff (preallocatedSize : Option Nat) (requests : List Request)
    (hlegal : Guarded request Legal (initialState preallocatedSize) requests) :
    Meets request Spec (initialState preallocatedSize) requests ↔
      Guarded request Good (initialState preallocatedSize) requests := by
  refine @meets_iff_guarded_of_faults _ _ _ _ _ _ SoundState Legal _ ?_ ?_ _
    (soundState_initialState preallocatedSize) hlegal
  · intro state req hsound _ hgood
    exact request_good hsound hgood
  · intro state req answer next hsound _ hbad hrequest
    exact request_bad hsound hbad hrequest

def addFindRemove : List Request :=
  [.change (.addItem 0 70 (some clearNodes)), .getItem 0, .getItem 1, .change (.removeItem 0),
    .findFreeIndex]

theorem getItem_findFreeIndex_iff_added : Guarded request Legal (initialState none) addFindRemove ∧
      (Meets request Spec (initialState none) addFindRemove ↔
        Guarded request Good (initialState none) addFindRemove) := by
  have hlegal : Guarded request Legal (initialState none) addFindRemove := by
    refine ⟨⟨by decide, by decide⟩, fun _ _ _ => ⟨⟨by decide, by decide⟩, fun _ _ _ => ?_⟩⟩
    refine ⟨⟨by decide, by decide⟩, fun _ _ _ => ⟨⟨by decide, by decide⟩, fun _ _ _ => ?_⟩⟩
    exact ⟨trivial, fun _ _ _ => trivial⟩
  exact ⟨hlegal, getItem_findFreeIndex_iff none addFindRemove hlegal⟩

def staleNodes : Nat → Node := fun _ => ⟨0, true, 99⟩

def skipOne : List Request :=
  [.change (.addItem 0 70 (some clearNodes)), .change (.addItem 2 71 (some staleNodes)), .getItem 1]

theorem skipOne_legal : Guarded request Legal (initialState none) skipOne := by
  refine ⟨⟨by decide, by decide⟩, fun _ _ _ => ⟨⟨by decide, by decide⟩, fun _ _ _ => ?_⟩⟩
  exact ⟨⟨by decide, by decide⟩, fun _ _ _ => trivial⟩

theorem getItem_stale : Guarded request Legal (initialState none) skipOne ∧
      ¬Meets request Spec (initialState none) skipOne := by
  refine ⟨skipOne_legal, ?_⟩
  rintro ⟨_, _, hfirst, -, _, _, hsecond, -, _, _, hget, hspec, -⟩
  cases hfirst
  cases hsecond
  cases hget
  have hvalue := Answer.item.inj hspec
  exact absurd hvalue (by decide)

end

end Zambesii.HardwareIdListItems
