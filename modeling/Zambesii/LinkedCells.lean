import Mathlib.Data.List.Nodup
import Mathlib.Data.List.TakeWhile

/-!
Doubly linked cells in a flat memory: the links that describe a sequence, and
what an insertion, a removal and a search do to that sequence. Nothing here is
about one particular list class; the classes differ in when they write which
link, not in what a link means.
-/

namespace Zambesii.LinkedCells

open Function List

/-- The address of a cell. Address `0` is the null pointer. -/
abbrev Ptr := Nat

structure Cell (α : Type*) where
  payload : α
  prev : Ptr
  next : Ptr
deriving DecidableEq

abbrev Memory (α : Type*) := Ptr → Option (Cell α)

def withNext {α : Type*} (memory : Memory α) (cell target : Ptr) : Memory α :=
  fun address =>
    if address = cell then (memory address).map fun c => { c with next := target }
    else memory address

def withPrev {α : Type*} (memory : Memory α) (cell target : Ptr) : Memory α :=
  fun address =>
    if address = cell then (memory address).map fun c => { c with prev := target }
    else memory address

/-- `cell->next = target`, faulting when `cell` is not allocated. -/
def setNext {α : Type*} (memory : Memory α) (cell target : Ptr) : Option (Memory α) :=
  (memory cell).map fun _ => withNext memory cell target

/-- `cell->prev = target`, faulting when `cell` is not allocated. -/
def setPrev {α : Type*} (memory : Memory α) (cell target : Ptr) : Option (Memory α) :=
  (memory cell).map fun _ => withPrev memory cell target

def setNextIfAny {α : Type*} (memory : Memory α) (cell target : Ptr) : Option (Memory α) :=
  if cell = 0 then some memory else setNext memory cell target

def setPrevIfAny {α : Type*} (memory : Memory α) (cell target : Ptr) : Option (Memory α) :=
  if cell = 0 then some memory else setPrev memory cell target

/-- The memory after the payload of `cell` was assigned. -/
def withPayload {α : Type*} (memory : Memory α) (cell : Ptr) (payload : α) : Memory α :=
  fun address =>
    if address = cell then (memory address).map fun c => { c with payload := payload }
    else memory address

/-- Assigns the payload of `cell`, faulting when `cell` is not allocated. -/
def setPayload {α : Type*} (memory : Memory α) (cell : Ptr) (payload : α) : Option (Memory α) :=
  (memory cell).map fun _ => withPayload memory cell payload

/-- The memory after a cell was allocated at `address` and filled. -/
def store {α : Type*} (memory : Memory α) (address : Ptr) (cell : Cell α) : Memory α :=
  update memory address (some cell)

/-- The memory after the cell at `address` was released. -/
def release {α : Type*} (memory : Memory α) (address : Ptr) : Memory α :=
  update memory address none

variable {α : Type*} {start stop head tail : Ptr}

variable {memory : Memory α} {c : Cell α}

theorem setNext_of_some {cell : Ptr} (h : memory cell = some c)
    (target : Ptr) : setNext memory cell target = some (withNext memory cell target) := by
  simp [setNext, h]

theorem setPrev_of_some {cell : Ptr} (h : memory cell = some c)
    (target : Ptr) : setPrev memory cell target = some (withPrev memory cell target) := by
  simp [setPrev, h]

theorem setPayload_of_some {cell : Ptr} (h : memory cell = some c) (payload : α) :
    setPayload memory cell payload = some (withPayload memory cell payload) := by
  simp [setPayload, h]

theorem withNext_withPrev (memory : Memory α) (cell target other target' : Ptr) :
    withNext (withPrev memory other target') cell target =
      withPrev (withNext memory cell target) other target' := by
  funext address
  simp only [withNext, withPrev]
  split <;> split <;> simp [Function.comp_def]

@[simp] theorem store_self (memory : Memory α) (address : Ptr) (cell : Cell α) :
    store memory address cell address = some cell := by
  simp [store]

theorem store_of_ne {address other : Ptr} (hne : other ≠ address)
    (cell : Cell α) : store memory address cell other = memory other := by
  simp [store, hne]

@[simp] theorem setNext_store_self (memory : Memory α) (address target : Ptr) (cell : Cell α) :
    setNext (store memory address cell) address target =
      some (store memory address { cell with next := target }) := by
  rw [setNext_of_some (store_self memory address cell)]
  congr 1
  funext other
  by_cases hother : other = address <;> simp [withNext, store, hother]

@[simp] theorem setPrev_store_self (memory : Memory α) (address target : Ptr) (cell : Cell α) :
    setPrev (store memory address cell) address target =
      some (store memory address { cell with prev := target }) := by
  rw [setPrev_of_some (store_self memory address cell)]
  congr 1
  funext other
  by_cases hother : other = address <;> simp [withPrev, store, hother]

def headPtr {α : Type*} (stop : Ptr) : List (Ptr × α) → Ptr
  | [] => stop
  | cell :: _ => cell.1

def lastPtr {α : Type*} (start : Ptr) : List (Ptr × α) → Ptr
  | [] => start
  | cell :: rest => lastPtr cell.1 rest

/-- The cells are linked one after the other, between `start` and `stop`. -/
def Linked {α : Type*} (memory : Memory α) (stop : Ptr) :
    Ptr → List (Ptr × α) → Prop
  | _, [] => True
  | start, cell :: rest =>
    memory cell.1 = some ⟨cell.2, start, headPtr stop rest⟩ ∧
      Linked memory stop cell.1 rest

@[simp] theorem headPtr_append (stop : Ptr) (front back : List (Ptr × α)) :
    headPtr stop (front ++ back) = headPtr (headPtr stop back) front := by
  cases front <;> rfl

@[simp] theorem lastPtr_append (start : Ptr) (front back : List (Ptr × α)) :
    lastPtr start (front ++ back) = lastPtr (lastPtr start front) back := by
  induction front generalizing start with
  | nil => rfl
  | cons cell rest ih => exact ih cell.1

theorem lastPtr_eq_or_mem (start : Ptr) (cells : List (Ptr × α)) :
    lastPtr start cells = start ∨ lastPtr start cells ∈ cells.map Prod.fst := by
  induction cells generalizing start with
  | nil => exact .inl rfl
  | cons cell rest ih =>
    right
    rcases ih cell.1 with hlast | hlast
    · simp [lastPtr, hlast]
    · exact mem_cons_of_mem _ hlast

theorem lastPtr_mem (start : Ptr) (cell : Ptr × α) (rest : List (Ptr × α)) :
    lastPtr start (cell :: rest) ∈ (cell :: rest).map Prod.fst := by
  rcases lastPtr_eq_or_mem cell.1 rest with hlast | hlast
  · simp [lastPtr, hlast]
  · exact mem_cons_of_mem _ hlast

variable {cells : List (Ptr × α)}

theorem lastPtr_eq_of_ne_nil (hcells : cells ≠ []) (start origin : Ptr) :
    lastPtr start cells = lastPtr origin cells := by
  cases cells with
  | nil => exact absurd rfl hcells
  | cons cell rest => rfl

theorem headPtr_eq_of_ne_nil (hcells : cells ≠ []) (stop target : Ptr) :
    headPtr stop cells = headPtr target cells := by
  cases cells with
  | nil => exact absurd rfl hcells
  | cons cell rest => rfl

theorem linked_append (memory : Memory α) (start stop : Ptr) (front back : List (Ptr × α)) :
    Linked memory stop start (front ++ back) ↔ Linked memory (headPtr stop back) start front ∧
        Linked memory stop (lastPtr start front) back := by
  induction front generalizing start with
  | nil => simp [Linked, lastPtr]
  | cons cell rest ih =>
    simp only [cons_append, Linked, lastPtr, headPtr_append, ih, and_assoc]

variable {memory' : Memory α}

theorem linked_congr (hagree : ∀ address ∈ cells.map Prod.fst, memory' address = memory address)
    (h : Linked memory stop start cells) : Linked memory' stop start cells := by
  induction cells generalizing start with
  | nil => trivial
  | cons cell rest ih =>
    refine ⟨(hagree cell.1 (by simp)).trans h.1, ih ?_ h.2⟩
    intro address haddress
    exact hagree address (mem_cons_of_mem _ haddress)

theorem linked_withNext_of_notMem (cell target : Ptr)
    (hcell : cell ∉ cells.map Prod.fst) (h : Linked memory stop start cells) :
    Linked (withNext memory cell target) stop start cells := by
  apply linked_congr _ h
  intro address haddress
  have hne : address ≠ cell := fun heq => hcell (heq ▸ haddress)
  simp [withNext, hne]

theorem linked_withPrev_of_notMem (cell target : Ptr)
    (hcell : cell ∉ cells.map Prod.fst) (h : Linked memory stop start cells) :
    Linked (withPrev memory cell target) stop start cells := by
  apply linked_congr _ h
  intro address haddress
  have hne : address ≠ cell := fun heq => hcell (heq ▸ haddress)
  simp [withPrev, hne]

theorem linked_withPayload_of_notMem (cell : Ptr)
    (payload : α) (hcell : cell ∉ cells.map Prod.fst) (h : Linked memory stop start cells) :
    Linked (withPayload memory cell payload) stop start cells := by
  apply linked_congr _ h
  intro address haddress
  have hne : address ≠ cell := fun heq => hcell (heq ▸ haddress)
  simp [withPayload, hne]

theorem linked_update_of_notMem (address : Ptr)
    (value : Option (Cell α)) (haddress : address ∉ cells.map Prod.fst)
    (h : Linked memory stop start cells) :
    Linked (update memory address value) stop start cells := by
  apply linked_congr _ h
  intro other hother
  have hne : other ≠ address := fun heq => haddress (heq ▸ hother)
  simp [hne]

theorem linked_withNext_last (origin target : Ptr)
    (hnodup : (cells.map Prod.fst).Nodup) (h : Linked memory stop start cells) :
    Linked (withNext memory (lastPtr origin cells) target) target start cells := by
  induction cells generalizing start origin with
  | nil => trivial
  | cons cell rest ih =>
    rw [map_cons, nodup_cons] at hnodup
    refine ⟨?_, ih cell.1 hnodup.2 h.2⟩
    cases rest with
    | nil => simp [withNext, lastPtr, h.1, headPtr]
    | cons second rest =>
      have hne : cell.1 ≠ lastPtr second.1 rest := by
        intro heq
        apply hnodup.1
        have hmem := lastPtr_mem cell.1 second rest
        rwa [lastPtr, ← heq] at hmem
      simpa [withNext, lastPtr, hne, headPtr] using h.1

theorem linked_withPrev_head (origin target : Ptr)
    (hnodup : (cells.map Prod.fst).Nodup) (h : Linked memory stop start cells) :
    Linked (withPrev memory (headPtr origin cells) target) stop target cells := by
  cases cells with
  | nil => trivial
  | cons cell rest =>
    rw [map_cons, nodup_cons] at hnodup
    refine ⟨by simp [withPrev, headPtr, h.1], ?_⟩
    exact linked_withPrev_of_notMem _ _ hnodup.1 h.2

/-- `head`, `tail` and the links in memory all describe the sequence `cells`. -/
structure Describes {α : Type*} (memory : Memory α) (head tail : Ptr)
    (cells : List (Ptr × α)) : Prop where
  nodup : (cells.map Prod.fst).Nodup
  nonnull : 0 ∉ cells.map Prod.fst
  head_eq : head = headPtr 0 cells
  tail_eq : tail = lastPtr 0 cells
  linked : Linked memory 0 0 cells

theorem describes_nil (memory : Memory α) : Describes memory 0 0 [] :=
  ⟨nodup_nil, not_mem_nil, rfl, rfl, trivial⟩

variable (h : Describes memory head tail cells)

include h

theorem Describes.congr_cells {head' tail' : Ptr}
    (hagree : ∀ address ∈ cells.map Prod.fst, memory' address = memory address)
    (hhead : head' = head) (htail : tail' = tail) : Describes memory' head' tail' cells :=
  ⟨h.nodup, h.nonnull, hhead.trans h.head_eq, htail.trans h.tail_eq, linked_congr hagree h.linked⟩

theorem Describes.congr {head' tail' : Ptr}
    (hagree : ∀ address ≠ 0, memory' address = memory address) (hhead : head' = head)
    (htail : tail' = tail) : Describes memory' head' tail' cells := by
  apply h.congr_cells _ hhead htail
  intro address haddress
  exact hagree address (fun heq => h.nonnull (heq ▸ haddress))

theorem Describes.head_eq_zero_iff : head = 0 ↔ cells = [] := by
  cases cells with
  | nil => simp [h.head_eq, headPtr]
  | cons cell rest =>
    have hne : cell.1 ≠ 0 := fun heq => h.nonnull (by simp [← heq])
    simp [h.head_eq, headPtr, hne]

omit h

variable {front back : List (Ptr × α)}

theorem Describes.cell {cell : Ptr × α} (h : Describes memory head tail (front ++ cell :: back)) :
    memory cell.1 = some ⟨cell.2, lastPtr 0 front, headPtr 0 back⟩ :=
  ((linked_append memory 0 0 front (cell :: back)).mp h.linked).2.1

theorem Describes.lastPtr_front_eq_zero_iff
    (h : Describes memory head tail (front ++ back)) : lastPtr 0 front = 0 ↔ front = [] := by
  have hnonnull := h.nonnull
  rw [map_append, mem_append, not_or] at hnonnull
  cases front with
  | nil => simp [lastPtr]
  | cons cell rest =>
    have hmem := lastPtr_mem 0 cell rest
    simp only [reduceCtorEq, iff_false]
    exact fun hzero => hnonnull.1 (hzero ▸ hmem)

theorem Describes.headPtr_back_eq_zero_iff
    (h : Describes memory head tail (front ++ back)) : headPtr 0 back = 0 ↔ back = [] := by
  have hnonnull := h.nonnull
  rw [map_append, mem_append, not_or] at hnonnull
  cases back with
  | nil => simp [headPtr]
  | cons cell rest =>
    simp only [headPtr, reduceCtorEq, iff_false]
    exact fun hzero => hnonnull.2 (by simp [← hzero])

theorem Describes.head_eq_cell_iff
    {cell : Ptr × α} (h : Describes memory head tail (front ++ cell :: back)) :
    head = cell.1 ↔ front = [] := by
  rw [h.head_eq]
  cases front with
  | nil => simp [headPtr]
  | cons first rest =>
    have hnodup := h.nodup
    simp only [cons_append, map_cons, nodup_cons, map_append,
      mem_append, mem_cons, not_or] at hnodup
    simp [headPtr, hnodup.1.2.1]

theorem Describes.tail_eq_cell_iff
    {cell : Ptr × α} (h : Describes memory head tail (front ++ cell :: back)) :
    tail = cell.1 ↔ back = [] := by
  rw [h.tail_eq, lastPtr_append]
  cases back with
  | nil => simp [lastPtr]
  | cons next rest =>
    have hnodup := h.nodup
    simp only [map_append, map_cons] at hnodup
    have hcell := (nodup_cons.mp (nodup_append'.mp hnodup).2.1).1
    simp only [lastPtr, reduceCtorEq, iff_false]
    intro heq
    exact hcell (heq ▸ lastPtr_mem cell.1 next rest)

theorem linked_lastPtr_cell {cell : Ptr × α} {rest : List (Ptr × α)}
    (h : Linked memory stop start (cell :: rest)) :
    ∃ c, memory (lastPtr cell.1 rest) = some c ∧ c.payload = (rest.getLastD cell).2 := by
  induction rest generalizing start cell with
  | nil => exact ⟨_, h.1, rfl⟩
  | cons second rest ih =>
    rw [getLastD_cons]
    exact ih h.2

theorem linked_lastPtr_some
    (h : Linked memory stop start cells) (hcells : cells ≠ []) (origin : Ptr) :
    ∃ c, memory (lastPtr origin cells) = some c := by
  cases cells with
  | nil => exact absurd rfl hcells
  | cons cell rest =>
    obtain ⟨c, hc, -⟩ := linked_lastPtr_cell h
    exact ⟨c, hc⟩

theorem linked_headPtr_some
    (h : Linked memory stop start cells) (hcells : cells ≠ []) (origin : Ptr) :
    ∃ c, memory (headPtr origin cells) = some c := by
  cases cells with
  | nil => exact absurd rfl hcells
  | cons cell rest => exact ⟨_, h.1⟩

theorem linked_mem_some
    (h : Linked memory stop start cells) {address : Ptr} (haddress : address ∈ cells.map Prod.fst) :
    ∃ c, memory address = some c := by
  induction cells generalizing start with
  | nil => simp at haddress
  | cons cell rest ih =>
    rcases mem_cons.mp haddress with rfl | hrest
    · exact ⟨_, h.1⟩
    · exact ih h.2 hrest

theorem linked_unique {cells' : List (Ptr × α)}
    (h : Linked memory 0 start cells) (h' : Linked memory 0 start cells')
    (hnonnull : 0 ∉ cells.map Prod.fst) (hnonnull' : 0 ∉ cells'.map Prod.fst)
    (hhead : headPtr 0 cells = headPtr 0 cells') : cells = cells' := by
  induction cells generalizing start cells' with
  | nil =>
    cases cells' with
    | nil => rfl
    | cons cell' rest' => exact absurd (by simp [headPtr] at hhead; simp [hhead]) hnonnull'
  | cons cell rest ih =>
    cases cells' with
    | nil => exact absurd (by simp [headPtr] at hhead; simp [hhead]) hnonnull
    | cons cell' rest' =>
      have haddress : cell.1 = cell'.1 := hhead
      have hcell := h.1
      rw [haddress, h'.1] at hcell
      simp only [Option.some.injEq, Cell.mk.injEq, true_and] at hcell
      simp only [map_cons, mem_cons, not_or] at hnonnull hnonnull'
      have hrest := ih h.2 (haddress ▸ h'.2) hnonnull.2 hnonnull'.2 hcell.2.symm
      rw [hrest, Prod.ext haddress hcell.1.symm]

theorem Describes.lastPtr_notMem
    (h : Describes memory head tail (front ++ back)) : lastPtr 0 front ∉ back.map Prod.fst := by
  have hnodup := h.nodup
  have hnonnull := h.nonnull
  rw [map_append, nodup_append'] at hnodup
  rw [map_append, mem_append, not_or] at hnonnull
  rcases lastPtr_eq_or_mem 0 front with hlast | hlast
  · rw [hlast]
    exact hnonnull.2
  · exact fun hmem => hnodup.2.2 hlast hmem

theorem Describes.headPtr_notMem
    (h : Describes memory head tail (front ++ back)) : headPtr 0 back ∉ front.map Prod.fst := by
  have hnodup := h.nodup
  have hnonnull := h.nonnull
  rw [map_append, nodup_append'] at hnodup
  rw [map_append, mem_append, not_or] at hnonnull
  cases back with
  | nil => exact hnonnull.1
  | cons cell rest => exact fun hmem => hnodup.2.2 hmem (by simp [headPtr])

theorem Describes.insert (h : Describes memory head tail (front ++ back)) (new : Ptr × α)
    (hnew : new.1 ∉ (front ++ back).map Prod.fst) (hnull : new.1 ≠ 0) : Describes (withPrev
        (withNext (store memory new.1 ⟨new.2, lastPtr 0 front, headPtr 0 back⟩)
          (lastPtr 0 front) new.1) (headPtr 0 back) new.1)
      (headPtr 0 (front ++ new :: back)) (lastPtr 0 (front ++ new :: back))
      (front ++ new :: back) := by
  have hnodup := h.nodup
  rw [map_append, nodup_append'] at hnodup
  obtain ⟨hfront, hback, hdisjoint⟩ := hnodup
  rw [map_append, mem_append, not_or] at hnew
  have hnonnull := h.nonnull
  rw [map_append, mem_append, not_or] at hnonnull
  obtain ⟨hlfront, hlback⟩ := (linked_append memory 0 0 front back).mp h.linked
  have hlast_new : lastPtr 0 front ≠ new.1 := by
    rcases lastPtr_eq_or_mem 0 front with hlast | hlast
    · rw [hlast]; exact hnull.symm
    · exact fun heq => hnew.1 (heq ▸ hlast)
  have hhead : headPtr 0 back = 0 ∨ headPtr 0 back ∈ back.map Prod.fst := by
    cases back with
    | nil => exact .inl rfl
    | cons cell rest => right; simp [headPtr]
  have hhead_new : headPtr 0 back ≠ new.1 := by
    rcases hhead with hhead | hhead
    · rw [hhead]; exact hnull.symm
    · exact fun heq => hnew.2 (heq ▸ hhead)
  refine ⟨?_, ?_, rfl, rfl, ?_⟩
  · simp only [map_append, map_cons]
    refine nodup_append'.mpr ⟨hfront, nodup_cons.mpr ⟨hnew.2, hback⟩, ?_⟩
    intro address haddress hmem
    rcases mem_cons.mp hmem with rfl | hmem
    · exact hnew.1 haddress
    · exact hdisjoint haddress hmem
  · simp only [map_append, map_cons, mem_append, mem_cons, not_or]
    exact ⟨hnonnull.1, hnull.symm, hnonnull.2⟩
  · rw [linked_append]
    refine ⟨?_, ?_, ?_⟩
    · apply linked_withPrev_of_notMem _ _ h.headPtr_notMem
      apply linked_withNext_last 0 new.1 hfront
      exact linked_update_of_notMem _ _ hnew.1 hlfront
    · simp [withPrev, withNext, hhead_new.symm, hlast_new.symm, store]
    · apply linked_withPrev_head 0 new.1 hback
      apply linked_withNext_of_notMem _ _ h.lastPtr_notMem
      exact linked_update_of_notMem _ _ hnew.2 hlback

theorem Describes.erase {cell : Ptr × α}
    (h : Describes memory head tail (front ++ cell :: back)) : Describes (release
        (withPrev (withNext memory (lastPtr 0 front) (headPtr 0 back))
          (headPtr 0 back) (lastPtr 0 front)) cell.1)
      (headPtr 0 (front ++ back)) (lastPtr 0 (front ++ back)) (front ++ back) := by
  have hnodup := h.nodup
  simp only [map_append, map_cons] at hnodup
  rw [nodup_append', nodup_cons] at hnodup
  obtain ⟨hfront, ⟨hcell_back, hback⟩, hdisjoint⟩ := hnodup
  have hcell_front : cell.1 ∉ front.map Prod.fst :=
    fun hmem => hdisjoint hmem (by simp)
  have hnonnull := h.nonnull
  simp only [map_append, map_cons, mem_append, mem_cons, not_or] at hnonnull
  obtain ⟨hlfront, -, hlback⟩ := (linked_append memory 0 0 front (cell :: back)).mp h.linked
  have hlast_back : lastPtr 0 front ∉ back.map Prod.fst :=
    fun hmem => h.lastPtr_notMem (mem_cons_of_mem _ hmem)
  have hhead_front : headPtr 0 back ∉ front.map Prod.fst := by
    have h' : Describes memory head tail ((front ++ [cell]) ++ back) := by simpa using h
    exact fun hmem => h'.headPtr_notMem (by simp [hmem])
  refine ⟨?_, ?_, rfl, rfl, ?_⟩
  · rw [map_append]
    refine nodup_append'.mpr ⟨hfront, hback, ?_⟩
    exact fun address haddress hmem => hdisjoint haddress (mem_cons_of_mem _ hmem)
  · rw [map_append, mem_append, not_or]
    exact ⟨hnonnull.1, hnonnull.2.2⟩
  · rw [linked_append]
    refine ⟨?_, ?_⟩
    · apply linked_update_of_notMem _ _ hcell_front
      apply linked_withPrev_of_notMem _ _ hhead_front
      exact linked_withNext_last 0 _ hfront hlfront
    · apply linked_update_of_notMem _ _ hcell_back
      apply linked_withPrev_head 0 _ hback
      exact linked_withNext_of_notMem _ _ hlast_back hlback

theorem setPrevIfAny_of_linked (h : Linked memory 0 start cells) (target : Ptr) :
    ∃ memory', setPrevIfAny memory (headPtr 0 cells) target = some memory' ∧
      ∀ address ≠ 0, memory' address = withPrev memory (headPtr 0 cells) target address := by
  rcases eq_or_ne (headPtr 0 cells) 0 with hzero | hne
  · refine ⟨memory, by simp [setPrevIfAny, hzero], ?_⟩
    intro address haddress
    simp [withPrev, hzero, haddress]
  have hcells : cells ≠ [] := by
    rintro rfl
    exact hne rfl
  obtain ⟨c, hc⟩ := linked_headPtr_some h hcells 0
  exact ⟨_, by simp [setPrevIfAny, hne, setPrev_of_some hc], fun _ _ => rfl⟩

theorem setNextIfAny_of_linked (h : Linked memory stop 0 cells) (target : Ptr) :
    ∃ memory', setNextIfAny memory (lastPtr 0 cells) target = some memory' ∧
      ∀ address ≠ 0, memory' address = withNext memory (lastPtr 0 cells) target address := by
  rcases eq_or_ne (lastPtr 0 cells) 0 with hzero | hne
  · refine ⟨memory, by simp [setNextIfAny, hzero], ?_⟩
    intro address haddress
    simp [withNext, hzero, haddress]
  have hcells : cells ≠ [] := by
    rintro rfl
    exact hne rfl
  obtain ⟨c, hc⟩ := linked_lastPtr_some h hcells 0
  exact ⟨_, by simp [setNextIfAny, hne, setNext_of_some hc], fun _ _ => rfl⟩

theorem Describes.unlink {cell : Ptr × α} (h : Describes memory head tail (front ++ cell :: back)) :
    ∃ memory' memory'', setPrevIfAny memory (headPtr 0 back) (lastPtr 0 front) = some memory' ∧
      setNextIfAny memory' (lastPtr 0 front) (headPtr 0 back) = some memory'' ∧
      ∀ final : Memory α, (∀ address ≠ cell.1, final address = memory'' address) →
        Describes final (headPtr 0 (front ++ back)) (lastPtr 0 (front ++ back))
          (front ++ back) := by
  obtain ⟨hlfront, -, hlback⟩ := (linked_append memory 0 0 front (cell :: back)).mp h.linked
  have hnonnull := h.nonnull
  simp only [map_append, map_cons, mem_append, mem_cons, not_or] at hnonnull
  have hhead : headPtr 0 back ∉ front.map Prod.fst := by
    have h' : Describes memory head tail ((front ++ [cell]) ++ back) := by simpa using h
    exact fun hmem => h'.headPtr_notMem (by simp [hmem])
  obtain ⟨memory', hprev, hprevEq⟩ := setPrevIfAny_of_linked hlback (lastPtr 0 front)
  have hlfront' : Linked memory' (headPtr 0 (cell :: back)) 0 front := by
    refine linked_congr ?_ (linked_withPrev_of_notMem (headPtr 0 back) (lastPtr 0 front) hhead
      hlfront)
    intro address haddress
    exact hprevEq address fun hzero => hnonnull.1 (hzero ▸ haddress)
  obtain ⟨memory'', hnext, hnextEq⟩ := setNextIfAny_of_linked hlfront' (headPtr 0 back)
  refine ⟨memory', memory'', hprev, hnext, ?_⟩
  intro final hfinal
  refine h.erase.congr_cells ?_ rfl rfl
  intro address haddress
  have hzero : address ≠ 0 := fun hzero => h.erase.nonnull (hzero ▸ haddress)
  have hcell : address ≠ cell.1 := by
    rintro rfl
    have hnodup := h.nodup
    rw [map_append, map_cons, nodup_middle, nodup_cons] at hnodup
    exact hnodup.1 (by simpa using haddress)
  rw [hfinal address hcell, hnextEq address hzero, ← withNext_withPrev]
  simp [release, hcell, withNext, hprevEq address hzero]

theorem Describes.assign {cell : Ptr × α}
    (h : Describes memory head tail (front ++ cell :: back)) (payload : α) :
    Describes (withPayload memory cell.1 payload) head tail
      (front ++ (cell.1, payload) :: back) := by
  have hfst : (front ++ (cell.1, payload) :: back).map Prod.fst =
      (front ++ cell :: back).map Prod.fst := by simp
  have hnodup := h.nodup
  simp only [map_append, map_cons] at hnodup
  rw [nodup_append', nodup_cons] at hnodup
  obtain ⟨-, ⟨hback, -⟩, hdisjoint⟩ := hnodup
  have hfront : cell.1 ∉ front.map Prod.fst := fun hmem => hdisjoint hmem (by simp)
  obtain ⟨hlfront, -, hlback⟩ := (linked_append memory 0 0 front (cell :: back)).mp h.linked
  refine ⟨hfst ▸ h.nodup, hfst ▸ h.nonnull, ?_, ?_, ?_⟩
  · rw [h.head_eq, headPtr_append, headPtr_append]
    rfl
  · rw [h.tail_eq, lastPtr_append, lastPtr_append]
    rfl
  · rw [linked_append]
    refine ⟨linked_withPayload_of_notMem _ _ hfront hlfront, ?_,
      linked_withPayload_of_notMem _ _ hback hlback⟩
    simp [withPayload, h.cell]

/-- Walks the `next` links from `address` to the first cell that passes the
test. The answer is `none` when a link faults or the fuel runs out, `some 0`
when the walk reaches the null pointer. -/
def seek {α : Type*} (memory : Memory α) (test : α → Bool) : Nat → Ptr → Option Ptr
  | 0, address => if address = 0 then some 0 else none
  | fuel + 1, address =>
    if address = 0 then some 0
    else
      match memory address with
      | none => none
      | some cell =>
        if test cell.payload then some address else seek memory test fuel cell.next

theorem seek_linked {test : α → Bool} {fuel : Nat}
    (h : Linked memory 0 start cells) (hnonnull : 0 ∉ cells.map Prod.fst)
    (hfuel : cells.length ≤ fuel) :
    seek memory test fuel (headPtr 0 cells) =
      some (headPtr 0 (cells.dropWhile fun cell => !test cell.2)) := by
  induction cells generalizing start fuel with
  | nil => cases fuel <;> simp [seek, headPtr]
  | cons cell rest ih =>
    obtain ⟨fuel, rfl⟩ : ∃ n, fuel = n + 1 := ⟨fuel - 1, by simp at hfuel; omega⟩
    simp only [map_cons, mem_cons, not_or] at hnonnull
    have hne : cell.1 ≠ 0 := Ne.symm hnonnull.1
    have hcell := h.1
    by_cases htest : test cell.2 = true
    · simp [seek, headPtr, hne, hcell, htest]
    · have hrest := ih h.2 hnonnull.2 (by simpa using hfuel)
      rw [dropWhile_cons_of_pos (by simpa using htest), ← hrest]
      simp [seek, headPtr, hne, hcell, htest]

theorem Describes.seek_cases (h : Describes memory head tail cells) (test : α → Bool) {fuel : Nat}
    (hfuel : cells.length ≤ fuel) :
    (seek memory test fuel head = some 0 ∧ ∀ cell ∈ cells, test cell.2 = false) ∨
      ∃ front cell back, cells = front ++ cell :: back ∧ (∀ other ∈ front, test other.2 = false) ∧
        test cell.2 = true ∧ seek memory test fuel head = some cell.1 := by
  have hseek : seek memory test fuel head =
      some (headPtr 0 (cells.dropWhile fun cell => !test cell.2)) := by
    rw [h.head_eq]
    exact seek_linked h.linked h.nonnull hfuel
  have hsplit := takeWhile_append_dropWhile (p := fun cell => !test cell.2) (l := cells)
  have hfront : ∀ other ∈ cells.takeWhile (fun cell => !test cell.2), test other.2 = false := by
    intro other hother
    simpa using mem_takeWhile_imp hother
  cases hdrop : cells.dropWhile (fun cell => !test cell.2) with
  | nil =>
    left
    rw [hdrop, append_nil] at hsplit
    rw [hdrop] at hseek
    rw [hsplit] at hfront
    exact ⟨hseek, hfront⟩
  | cons cell back =>
    right
    have htest := head_dropWhile_not (fun cell => !test cell.2) (l := cells)
      (by simp [hdrop])
    simp only [hdrop, head_cons, Bool.not_eq_false'] at htest
    rw [hdrop] at hseek hsplit
    exact ⟨_, cell, back, hsplit.symm, hfront, htest, hseek⟩

end Zambesii.LinkedCells
