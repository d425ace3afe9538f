import Mathlib.Data.List.Flatten
import Mathlib.Data.List.Nodup
import Mathlib.Data.List.Perm.Basic
import Zambesii.KernelTypes
import Zambesii.Runs

/-!
`SlamCache`: objects of one size cut out of pages. A free object holds the link
to the next free one in its own first word, so the links live in the same bytes
that the cache's users write while they own an object.
-/

namespace Zambesii.SlamCache

open Function List
open KernelTypes Runs

abbrev Memory := Nat → UInt8

def sizeofObject : Nat := 4

def readPtr (memory : Memory) (address : Nat) : Nat :=
  (memory address).toNat + 2 ^ 8 * (memory (address + 1)).toNat +
    2 ^ 16 * (memory (address + 2)).toNat + 2 ^ 24 * (memory (address + 3)).toNat

def writePtr (memory : Memory) (address value : Nat) : Memory :=
  fun other =>
    if address ≤ other ∧ other < address + sizeofObject then
      UInt8.ofNat (value / 2 ^ (8 * (other - address)))
    else memory other

theorem readPtr_writePtr (memory : Memory) (address : Nat) {value : Nat}
    (h : value < wordModulus) : readPtr (writePtr memory address value) address = value := by
  have hbyte : ∀ k, k < 4 →
      (writePtr memory address value (address + k)).toNat = value / 2 ^ (8 * k) % 2 ^ 8 := by
    intro k hk
    have hin : address ≤ address + k ∧ address + k < address + sizeofObject := by
      simp only [sizeofObject]
      omega
    rw [writePtr, if_pos hin, Nat.add_sub_cancel_left, UInt8.toNat_ofNat']
  have hzero := hbyte 0 (by omega)
  rw [add_zero] at hzero
  rw [readPtr, hzero, hbyte 1 (by omega), hbyte 2 (by omega), hbyte 3 (by omega)]
  simp only [wordModulus] at h
  omega

theorem writePtr_of_outside (memory : Memory) {address other : Nat} (value : Nat)
    (h : other < address ∨ address + sizeofObject ≤ other) :
    writePtr memory address value other = memory other := by
  rw [writePtr, if_neg (by omega)]

/-- The two memories hold the same in the word at `address`. -/
def SameWord (memory memory' : Memory) (address : Nat) : Prop :=
  ∀ k, k < sizeofObject → memory' (address + k) = memory (address + k)

theorem SameWord.readPtr {memory memory' : Memory} {address : Nat}
    (h : SameWord memory memory' address) :
    SlamCache.readPtr memory' address = SlamCache.readPtr memory address := by
  have hzero := h 0 (by decide)
  rw [add_zero] at hzero
  simp only [SlamCache.readPtr, hzero, h 1 (by decide), h 2 (by decide), h 3 (by decide)]

/-- The links lead from `head` through the objects to NULL. -/
def Linked (memory : Memory) : Nat → List Nat → Prop
  | head, [] => head = 0
  | head, object :: objects =>
    head = object ∧ object ≠ 0 ∧ Linked memory (readPtr memory object) objects

theorem Linked.congr {memory memory' : Memory} {head : Nat} {objects : List Nat}
    (h : Linked memory head objects) (hsame : ∀ object ∈ objects, SameWord memory memory' object) :
    Linked memory' head objects := by
  induction objects generalizing head with
  | nil => exact h
  | cons object objects ih =>
    obtain ⟨hhead, hne, hrest⟩ := h
    refine ⟨hhead, hne, ?_⟩
    rw [(hsame object (mem_cons_self ..)).readPtr]
    exact ih hrest fun other hother => hsame other (mem_cons_of_mem object hother)

structure Cache where
  sObjectize : Nat
  perPageBlocks : Nat
  partialList : Nat
  freeList : Nat
deriving DecidableEq

def construct (objectSize : Nat) : Cache :=
  let sObjectize := if objectSize < sizeofObject then sizeofObject else objectSize
  { sObjectize := sObjectize
    perPageBlocks := pagingBaseSize / sObjectize
    partialList := 0
    freeList := 0 }

/-- The loop that breaks a block up, with `i` links to go, and the last store. -/
def breakUp (sObjectize : Nat) : Nat → Nat → Memory → Memory
  | 0, tmp, memory => writePtr memory tmp 0
  | i + 1, tmp, memory =>
    let next := (tmp + sObjectize) % wordModulus
    breakUp sObjectize i next (writePtr memory tmp next)

structure Allocation where
  ret : Nat
  requiredNewPage : Bool
  cache : Cache
  memory : Memory

def takeFirst (cache : Cache) (memory : Memory) (requiredNewPage : Bool) : Allocation :=
  ⟨cache.partialList, requiredNewPage,
    { cache with partialList := readPtr memory cache.partialList }, memory⟩

/-- Breaks the block at `tmp` up and takes the first object of it. -/
def takeFromBlock (cache : Cache) (memory : Memory) (tmp : Nat) (requiredNewPage : Bool) :
    Allocation :=
  -- `perPageBlocks - 1` is a `uarch_t`
  let iterations := (cache.perPageBlocks + (wordModulus - 1)) % wordModulus
  takeFirst { cache with partialList := tmp } (breakUp cache.sObjectize iterations tmp memory)
    requiredNewPage

/-- `allocate`; `newPage` is what `getNewPage` returns when it is called. -/
def allocate (cache : Cache) (memory : Memory) (newPage : Nat) : Allocation :=
  if cache.partialList = 0 then
    if cache.freeList ≠ 0 then
      takeFromBlock { cache with freeList := readPtr memory cache.freeList } memory
        cache.freeList false
    else if newPage = 0 then ⟨0, true, cache, memory⟩
    else takeFromBlock cache memory newPage true
  else takeFirst cache memory false

def free (cache : Cache) (memory : Memory) (object : Nat) : Cache × Memory :=
  if object = 0 then (cache, memory)
  else ({ cache with partialList := object }, writePtr memory object cache.partialList)

/-- The cache, the memory, the pages it has obtained and the objects that its users hold. -/
structure State where
  cache : Cache
  memory : Memory
  pages : List Nat
  live : List Nat

inductive Call where
  | allocate (newPage : Nat)
  | free (object : Nat)
  /-- A byte that some code other than the cache stores. -/
  | store (address : Nat) (byte : UInt8)

def initial (objectSize : Nat) (memory : Memory) : State :=
  ⟨construct objectSize, memory, [], []⟩

def step (state : State) : Call → Option (Nat × State)
  | .allocate newPage =>
    let allocation := allocate state.cache state.memory newPage
    some (allocation.ret,
      { cache := allocation.cache
        memory := allocation.memory
        pages :=
          if allocation.requiredNewPage = true ∧ newPage ≠ 0 then newPage :: state.pages
          else state.pages
        live := if allocation.ret = 0 then state.live else allocation.ret :: state.live })
  | .free object =>
    let (cache, memory) := free state.cache state.memory object
    some (0,
      { state with
        cache := cache
        memory := memory
        live := state.live.erase object })
  | .store address byte =>
    some (0, { state with memory := update state.memory address byte })

structure Fresh (pages : List Nat) (page : Nat) : Prop where
  ne_null : page ≠ 0
  aligned : pagingBaseSize ∣ page
  fits : page + pagingBaseSize ≤ wordModulus
  new : page ∉ pages

/-- What the callers may do: free what they hold, and store into what they hold and into what
is not the cache's. -/
def Legal (state : State) : Call → Prop
  | .allocate newPage => newPage = 0 ∨ Fresh state.pages newPage
  | .free object => object = 0 ∨ object ∈ state.live
  | .store address _ =>
    (∃ object ∈ state.live, object ≤ address ∧ address < object + state.cache.sObjectize) ∨
      ∀ page ∈ state.pages, address < page ∨ page + pagingBaseSize ≤ address

def Apart (size object object' : Nat) : Prop :=
  object + size ≤ object' ∨ object' + size ≤ object

structure Shared (state : State) (objects : List Nat) : Prop where
  linked : Linked state.memory state.cache.partialList objects
  acyclic : objects.Nodup
  apart : (state.live ++ objects).Pairwise (Apart state.cache.sObjectize)
  inside : ∀ object ∈ state.live ++ objects, ∃ page ∈ state.pages,
    page ≤ object ∧ object + state.cache.sObjectize ≤ page + pagingBaseSize
  count : ∀ page ∈ state.pages,
    ((state.live ++ objects).filter fun object =>
        page ≤ object ∧ object < page + pagingBaseSize).length = state.cache.perPageBlocks
  total : (state.live ++ objects).length = state.pages.length * state.cache.perPageBlocks

def Spec (state : State) (call : Call) (ret : Nat) (next : State) : Prop :=
  (∃ objects, Shared next objects) ∧
    match call with
    | .allocate _ => ret ∉ state.live
    | _ => True

section

def objectsFrom (size : Nat) : Nat → Nat → List Nat
  | 0, _ => []
  | count + 1, first => first :: objectsFrom size count (first + size)

@[simp] theorem length_objectsFrom (size count first : Nat) :
    (objectsFrom size count first).length = count := by
  induction count generalizing first with
  | zero => rfl
  | succ count ih => rw [objectsFrom, length_cons, ih]

variable {size first : Nat}

theorem bounds_of_mem_objectsFrom {count object : Nat} (h : object ∈ objectsFrom size count first) :
    first ≤ object ∧ object + size ≤ first + count * size := by
  induction count generalizing first with
  | zero => cases h
  | succ count ih =>
    rw [Nat.succ_mul]
    rcases mem_cons.mp h with rfl | h
    · omega
    · obtain ⟨hle, hend⟩ := ih h
      omega

theorem pairwise_objectsFrom (size count first : Nat) :
    (objectsFrom size count first).Pairwise (Apart size) := by
  induction count generalizing first with
  | zero => exact .nil
  | succ count ih =>
    refine .cons ?_ (ih (first + size))
    intro object hobject
    exact .inl (bounds_of_mem_objectsFrom hobject).1

theorem breakUp_before (count : Nat) {address : Nat} (memory : Memory)
    (hfits : first + (count + 1) * size ≤ wordModulus) (hsize : sizeofObject ≤ size)
    (h : address < first) : breakUp size count first memory address = memory address := by
  induction count generalizing first memory with
  | zero => exact writePtr_of_outside memory 0 (.inl h)
  | succ count ih =>
    rw [Nat.succ_mul] at hfits
    have hpos : 0 < sizeofObject := by decide
    have hmul : size ≤ (count + 1) * size := Nat.le_mul_of_pos_left size (Nat.succ_pos count)
    have hnext : (first + size) % wordModulus = first + size := Nat.mod_eq_of_lt (by omega)
    simp only [breakUp, hnext]
    rw [ih _ (by omega) (by omega)]
    exact writePtr_of_outside memory (first + size) (.inl h)

theorem linked_breakUp (count : Nat) (memory : Memory) (hne : first ≠ 0)
    (hfits : first + (count + 1) * size ≤ wordModulus) (hsize : sizeofObject ≤ size) :
    Linked (breakUp size count first memory) first (objectsFrom size (count + 1) first) := by
  induction count generalizing first memory with
  | zero => exact ⟨rfl, hne, readPtr_writePtr memory first wordModulus_pos⟩
  | succ count ih =>
    rw [Nat.succ_mul] at hfits
    have hpos : 0 < sizeofObject := by decide
    have hmul : size ≤ (count + 1) * size := Nat.le_mul_of_pos_left size (Nat.succ_pos count)
    have hnext : (first + size) % wordModulus = first + size := Nat.mod_eq_of_lt (by omega)
    have hrest := ih (writePtr memory first (first + size)) (by omega : first + size ≠ 0)
      (by omega)
    simp only [breakUp, hnext]
    refine ⟨rfl, hne, ?_⟩
    -- the later stores leave the link of the first object alone
    have hword : SameWord (writePtr memory first (first + size))
        (breakUp size count (first + size) (writePtr memory first (first + size))) first := by
      intro k hk
      exact breakUp_before count _ (by omega) hsize (by omega)
    rw [hword.readPtr, readPtr_writePtr memory first (by omega)]
    exact hrest

end

section

def pageObjects (cache : Cache) (page : Nat) : List Nat :=
  objectsFrom cache.sObjectize cache.perPageBlocks page

structure Sound (state : State) (objects : List Nat) : Prop where
  size_ge : sizeofObject ≤ state.cache.sObjectize
  size_le : state.cache.sObjectize ≤ pagingBaseSize
  blocks : state.cache.perPageBlocks = pagingBaseSize / state.cache.sObjectize
  freeList : state.cache.freeList = 0
  linked : Linked state.memory state.cache.partialList objects
  nodup : state.pages.Nodup
  page : ∀ page ∈ state.pages, page ≠ 0 ∧ pagingBaseSize ∣ page ∧
    page + pagingBaseSize ≤ wordModulus
  perm : (state.live ++ objects).Perm (state.pages.flatMap (pageObjects state.cache))

variable {state : State} {objects : List Nat} {cache : Cache} {page object : Nat}

theorem pageObjects_fit (hblocks : cache.perPageBlocks = pagingBaseSize / cache.sObjectize) :
    cache.perPageBlocks * cache.sObjectize ≤ pagingBaseSize := by
  rw [hblocks]
  exact Nat.div_mul_le_self pagingBaseSize cache.sObjectize

theorem pageObjects_bounds (hblocks : cache.perPageBlocks = pagingBaseSize / cache.sObjectize)
    (h : object ∈ pageObjects cache page) :
    page ≤ object ∧ object + cache.sObjectize ≤ page + pagingBaseSize := by
  have hfit := pageObjects_fit hblocks
  obtain ⟨hle, hend⟩ := bounds_of_mem_objectsFrom h
  exact ⟨hle, by omega⟩

theorem pages_apart {page' : Nat} (h : pagingBaseSize ∣ page) (h' : pagingBaseSize ∣ page')
    (hne : page ≠ page') : page + pagingBaseSize ≤ page' ∨ page' + pagingBaseSize ≤ page := by
  obtain ⟨k, rfl⟩ := h
  obtain ⟨k', rfl⟩ := h'
  simp only [pagingBaseSize] at hne ⊢
  omega

variable (h : Sound state objects)

include h

variable (hobject : object ∈ state.live ++ objects)

include hobject

theorem Sound.mem_page : ∃ page ∈ state.pages, object ∈ pageObjects state.cache page := by
  exact mem_flatMap.mp (h.perm.mem_iff.mp hobject)

theorem Sound.inside : ∃ page ∈ state.pages,
      page ≤ object ∧ object + state.cache.sObjectize ≤ page + pagingBaseSize := by
  obtain ⟨page, hpage, hmem⟩ := h.mem_page hobject
  exact ⟨page, hpage, pageObjects_bounds h.blocks hmem⟩

theorem Sound.object_bounds : object ≠ 0 ∧ object < wordModulus := by
  obtain ⟨page, hpage, hle, hend⟩ := h.inside hobject
  obtain ⟨hne, -, hfits⟩ := h.page page hpage
  have hsize := h.size_ge
  have hpos : 0 < sizeofObject := by decide
  omega

omit hobject

theorem Sound.apart : (state.live ++ objects).Pairwise (Apart state.cache.sObjectize) := by
  have hsymm : ∀ {a b : Nat}, Apart state.cache.sObjectize a b →
      Apart state.cache.sObjectize b a := fun hab => hab.symm
  rw [h.perm.pairwise_iff hsymm, pairwise_flatMap]
  refine ⟨?_, ?_⟩
  · intro page _
    exact pairwise_objectsFrom _ _ page
  · refine h.nodup.imp_of_mem ?_
    intro page page' hpage hpage' hne object hobject object' hobject'
    obtain ⟨hle, hend⟩ := pageObjects_bounds h.blocks hobject
    obtain ⟨hle', hend'⟩ := pageObjects_bounds h.blocks hobject'
    rcases pages_apart (h.page page hpage).2.1 (h.page page' hpage').2.1 hne with hlt | hlt
    · exact .inl (by omega)
    · exact .inr (by omega)

theorem Sound.objects_nodup : (state.live ++ objects).Nodup := by
  refine h.apart.imp ?_
  intro object object' hapart heq
  have hsize := h.size_ge
  have hpos : 0 < sizeofObject := by decide
  rcases hapart with hlt | hlt
  · omega
  · omega

omit h

theorem filter_pages {pages : List Nat}
    (hblocks : cache.perPageBlocks = pagingBaseSize / cache.sObjectize)
    (hpos : 0 < cache.sObjectize) (haligned : ∀ other ∈ pages, pagingBaseSize ∣ other)
    (hnodup : pages.Nodup) (hpage : page ∈ pages) :
    (pages.flatMap (pageObjects cache)).filter
        (fun object => page ≤ object ∧ object < page + pagingBaseSize) =
      pageObjects cache page := by
  -- of another page nothing is left
  have hother : ∀ other : Nat, pagingBaseSize ∣ other → other ≠ page →
      (pageObjects cache other).filter
        (fun object => page ≤ object ∧ object < page + pagingBaseSize) = [] := by
    intro other hdvd hne
    rw [filter_eq_nil_iff]
    intro object hobject hin
    obtain ⟨hle, hend⟩ := pageObjects_bounds hblocks hobject
    simp only [decide_eq_true_eq] at hin
    rcases pages_apart hdvd (haligned page hpage) hne with hlt | hlt
    · omega
    · omega
  have hself : (pageObjects cache page).filter
      (fun object => page ≤ object ∧ object < page + pagingBaseSize) =
        pageObjects cache page := by
    rw [filter_eq_self]
    intro object hobject
    obtain ⟨hle, hend⟩ := pageObjects_bounds hblocks hobject
    simp only [decide_eq_true_eq]
    omega
  induction pages with
  | nil => cases hpage
  | cons first rest ih =>
    rw [flatMap_cons, filter_append]
    obtain ⟨hfirst, hrest⟩ := nodup_cons.mp hnodup
    have haligned' : ∀ other ∈ rest, pagingBaseSize ∣ other := fun other hmem =>
      haligned other (mem_cons_of_mem first hmem)
    rcases mem_cons.mp hpage with rfl | hmem
    · have hnone : (rest.flatMap (pageObjects cache)).filter
          (fun object => page ≤ object ∧ object < page + pagingBaseSize) = [] := by
        rw [filter_flatMap, flatMap_eq_nil_iff]
        intro other hmem
        refine hother other (haligned' other hmem) ?_
        rintro rfl
        exact hfirst hmem
      rw [hself, hnone, append_nil]
    · have hne : first ≠ page := by
        rintro rfl
        exact hfirst hmem
      rw [hother first (haligned first (mem_cons_self ..)) hne, nil_append]
      exact ih haligned' hrest hmem

theorem Sound.shared (h : Sound state objects) : Shared state objects := by
  have hpos : 0 < state.cache.sObjectize := by
    have hsize := h.size_ge
    have hfour : 0 < sizeofObject := by decide
    omega
  refine ⟨h.linked, (nodup_append.mp h.objects_nodup).2.1, h.apart, fun _ => h.inside,
    ?_, ?_⟩
  · intro page hpage
    have hfilter := filter_pages h.blocks hpos (fun other hmem => (h.page other hmem).2.1)
      h.nodup hpage
    rw [(h.perm.filter _).length_eq, hfilter]
    exact length_objectsFrom _ _ page
  · rw [h.perm.length_eq, length_flatMap]
    simp [pageObjects, length_objectsFrom]

end

section

variable {state : State} {objects : List Nat}

theorem Sound.takeFirst {object : Nat} (h : Sound state (object :: objects)) :
    state.cache.partialList = object ∧ object ∉ state.live ∧
      Sound { state with
        cache := { state.cache with partialList := readPtr state.memory object }
        live := object :: state.live } objects := by
  obtain ⟨hhead, -, hrest⟩ := h.linked
  refine ⟨hhead, ?_, h.size_ge, h.size_le, h.blocks, h.freeList, hrest, h.nodup, h.page, ?_⟩
  · intro hlive
    exact (nodup_append.mp h.objects_nodup).2.2 object hlive object
      (mem_cons_self ..) rfl
  · exact perm_middle.symm.trans h.perm

theorem Sound.perPageBlocks_pos (h : Sound state objects) : 0 < state.cache.perPageBlocks := by
  have hfour : 0 < sizeofObject := by decide
  rw [h.blocks]
  exact Nat.div_pos h.size_le (lt_of_lt_of_le hfour h.size_ge)

theorem pageObjects_cons (h : Sound state objects) (page : Nat) :
    ∃ object rest, pageObjects state.cache page = object :: rest := by
  obtain ⟨count, hcount⟩ := Nat.exists_eq_succ_of_ne_zero h.perPageBlocks_pos.ne'
  rw [pageObjects, hcount]
  exact ⟨page, _, rfl⟩

theorem Sound.breakUp {newPage : Nat} (h : Sound state []) (hfresh : Fresh state.pages newPage) :
    Sound { state with
      cache := { state.cache with partialList := newPage }
      memory := SlamCache.breakUp state.cache.sObjectize
        ((state.cache.perPageBlocks + (wordModulus - 1)) % wordModulus) newPage state.memory
      pages := newPage :: state.pages } (pageObjects state.cache newPage) := by
  have hfit := pageObjects_fit h.blocks
  have hle : state.cache.perPageBlocks ≤ pagingBaseSize := by
    rw [h.blocks]
    exact Nat.div_le_self _ _
  obtain ⟨count, hcount⟩ := Nat.exists_eq_succ_of_ne_zero h.perPageBlocks_pos.ne'
  have hiterations : (state.cache.perPageBlocks + (wordModulus - 1)) % wordModulus = count := by
    simp only [pagingBaseSize] at hle
    simp only [wordModulus]
    omega
  rw [hiterations]
  refine ⟨h.size_ge, h.size_le, h.blocks, h.freeList, ?_, ?_, ?_, ?_⟩
  · have hfits := hfresh.fits
    have hlinked := linked_breakUp count state.memory hfresh.ne_null
      (by rw [← Nat.succ_eq_add_one, ← hcount]; omega) h.size_ge
    rw [pageObjects, hcount]
    exact hlinked
  · exact nodup_cons.mpr ⟨hfresh.new, h.nodup⟩
  · intro page hpage
    rcases mem_cons.mp hpage with rfl | hpage
    · exact ⟨hfresh.ne_null, hfresh.aligned, hfresh.fits⟩
    · exact h.page page hpage
  · have hperm := h.perm
    rw [append_nil] at hperm
    exact perm_append_comm.trans (hperm.append_left (pageObjects state.cache newPage))

theorem Sound.allocate {newPage : Nat} (h : Sound state objects)
    (hlegal : newPage = 0 ∨ Fresh state.pages newPage) :
    ∃ ret next objects', step state (.allocate newPage) = some (ret, next) ∧
      ret ∉ state.live ∧ Sound next objects' := by
  cases objects with
  | nil =>
    have hhead : state.cache.partialList = 0 := h.linked
    rcases eq_or_ne newPage 0 with rfl | hpage
    · have hzero : (0 : Nat) ∉ state.live := fun hmem =>
        (h.object_bounds (mem_append_left [] hmem)).1 rfl
      have halloc : SlamCache.allocate state.cache state.memory 0 =
          ⟨0, true, state.cache, state.memory⟩ := by
        rw [SlamCache.allocate, if_pos hhead, if_neg (not_not_intro h.freeList), if_pos rfl]
      refine ⟨0, state, [], ?_, hzero, h⟩
      simp only [SlamCache.step, halloc]
      rfl
    have hbroken := h.breakUp (hlegal.resolve_left hpage)
    have halloc : SlamCache.allocate state.cache state.memory newPage =
        takeFromBlock state.cache state.memory newPage true := by
      rw [SlamCache.allocate, if_pos hhead, if_neg (not_not_intro h.freeList), if_neg hpage]
    obtain ⟨object, rest, hobjects⟩ := pageObjects_cons h newPage
    rw [hobjects] at hbroken
    obtain ⟨hfirst, hnew, hnext⟩ := hbroken.takeFirst
    subst hfirst
    refine ⟨newPage, _, rest, ?_, hnew, hnext⟩
    simp only [SlamCache.step, halloc, takeFromBlock, SlamCache.takeFirst]
    rw [if_neg hpage, if_pos ⟨trivial, hpage⟩]
  | cons object rest =>
    obtain ⟨hhead, hnew, hnext⟩ := h.takeFirst
    have hne : object ≠ 0 := h.linked.2.1
    have halloc : SlamCache.allocate state.cache state.memory newPage =
        SlamCache.takeFirst state.cache state.memory false := by
      rw [SlamCache.allocate, if_neg (by rw [hhead]; exact hne)]
    refine ⟨object, _, rest, ?_, hnew, hnext⟩
    simp only [SlamCache.step, halloc, SlamCache.takeFirst, hhead]
    rw [if_neg hne, if_neg (by simp)]

theorem Sound.free {object : Nat} (h : Sound state objects) (hlive : object ∈ state.live) :
    Sound { state with
      cache := { state.cache with partialList := object }
      memory := writePtr state.memory object state.cache.partialList
      live := state.live.erase object } (object :: objects) := by
  have hmem : object ∈ state.live ++ objects := mem_append_left objects hlive
  have hhead : state.cache.partialList < wordModulus := by
    cases objects with
    | nil =>
      have hnull : state.cache.partialList = 0 := h.linked
      rw [hnull]
      exact wordModulus_pos
    | cons first rest =>
      rw [h.linked.1]
      exact (h.object_bounds (mem_append_right _ (mem_cons_self ..))).2
  refine ⟨h.size_ge, h.size_le, h.blocks, h.freeList, ?_, h.nodup, h.page, ?_⟩
  · refine ⟨rfl, (h.object_bounds hmem).1, ?_⟩
    rw [readPtr_writePtr state.memory object hhead]
    refine h.linked.congr ?_
    intro other hother k hk
    have hsize := h.size_ge
    have hapart := (pairwise_append.mp h.apart).2.2 object hlive other hother
    refine writePtr_of_outside state.memory _ ?_
    rcases hapart with hlt | hlt
    · exact .inr (by omega)
    · exact .inl (by omega)
  · refine List.Perm.trans ?_ h.perm
    exact perm_middle.trans ((perm_cons_erase hlive).symm.append_right objects)

theorem Sound.store {address : Nat} (byte : UInt8) (h : Sound state objects)
    (hlegal : Legal state (.store address byte)) :
    Sound { state with memory := update state.memory address byte } objects := by
  refine ⟨h.size_ge, h.size_le, h.blocks, h.freeList, ?_, h.nodup, h.page, h.perm⟩
  refine h.linked.congr ?_
  intro other hother k hk
  have hsize := h.size_ge
  refine update_of_ne ?_ byte state.memory
  rintro rfl
  rcases hlegal with ⟨object, hlive, hle, hlt⟩ | houtside
  · rcases (pairwise_append.mp h.apart).2.2 object hlive other hother with hlt' | hlt'
    · omega
    · omega
  · obtain ⟨page, hpage, hle, hend⟩ := h.inside (mem_append_right state.live hother)
    rcases houtside page hpage with hlt | hlt
    · omega
    · omega

theorem Sound.step {call : Call} (h : Sound state objects) (hlegal : Legal state call) :
    ∃ ret next objects', step state call = some (ret, next) ∧ Spec state call ret next ∧
      Sound next objects' := by
  cases call with
  | allocate newPage =>
    obtain ⟨ret, next, objects', hstep, hnew, hnext⟩ := h.allocate hlegal
    exact ⟨ret, next, objects', hstep, ⟨⟨objects', hnext.shared⟩, hnew⟩, hnext⟩
  | free object =>
    rcases eq_or_ne object 0 with rfl | hne
    · have hzero : (0 : Nat) ∉ state.live := fun hmem =>
        (h.object_bounds (mem_append_left objects hmem)).1 rfl
      refine ⟨0, state, objects, ?_, ⟨⟨objects, h.shared⟩, trivial⟩, h⟩
      simp only [SlamCache.step, SlamCache.free, if_pos, erase_of_not_mem hzero]
    · have hnext := h.free (hlegal.resolve_left hne)
      refine ⟨0, _, object :: objects, ?_, ⟨⟨_, hnext.shared⟩, trivial⟩, hnext⟩
      simp only [SlamCache.step, SlamCache.free, if_neg hne]
  | store address byte =>
    have hnext := h.store byte hlegal
    exact ⟨0, _, objects, rfl, ⟨⟨objects, hnext.shared⟩, trivial⟩, hnext⟩

theorem sound_initial {objectSize : Nat} (memory : Memory) (hle : objectSize ≤ pagingBaseSize) :
    Sound (initial objectSize memory) [] := by
  have hfour : sizeofObject ≤ pagingBaseSize := by decide
  refine ⟨?_, ?_, rfl, rfl, rfl, .nil, ?_, .nil⟩
  · simp only [initial, construct]
    split
    · exact le_refl _
    · omega
  · simp only [initial, construct]
    split
    · exact hfour
    · exact hle
  · intro page hpage
    cases hpage

/-- From the constructor on, live and free objects share out the pages after every call, and
an allocated object is never one that is live. -/
theorem slamCache_shares {objectSize : Nat} (memory : Memory) (calls : List Call)
    (hle : objectSize ≤ pagingBaseSize)
    (hlegal : Guarded step Legal (initial objectSize memory) calls) :
    (∃ objects, Shared (initial objectSize memory) objects) ∧
      Meets step Spec (initial objectSize memory) calls := by
  have hsound := sound_initial memory hle
  refine ⟨⟨[], hsound.shared⟩, ?_⟩
  have hmeets : ∀ (calls : List Call) (state : State) (objects : List Nat),
      Sound state objects → Guarded step Legal state calls → Meets step Spec state calls := by
    intro calls
    induction calls with
    | nil =>
      intro state objects _ _
      trivial
    | cons call calls ih =>
      intro state objects hsound hlegal
      obtain ⟨ret, next, objects', hstep, hspec, hnext⟩ := hsound.step hlegal.1
      exact ⟨ret, next, hstep, hspec, ih next objects' hnext (hlegal.2 ret next hstep)⟩
  exact hmeets calls _ [] hsound hlegal

theorem slamCache_shares_reused :
    Guarded step Legal (initial 2048 fun _ => 0)
        [.allocate 4096, .store 4097 7, .free 4096, .allocate 0] ∧
      Meets step Spec (initial 2048 fun _ => 0)
        [.allocate 4096, .store 4097 7, .free 4096, .allocate 0] := by
  have hlegal : Guarded step Legal (initial 2048 fun _ => 0)
      [.allocate 4096, .store 4097 7, .free 4096, .allocate 0] := by
    refine ⟨.inr ⟨by decide, by decide, by decide, by decide⟩, fun _ _ h => ?_⟩
    cases h
    refine ⟨.inl ⟨4096, by decide, by decide, by decide⟩, fun _ _ h => ?_⟩
    cases h
    refine ⟨.inr (by decide), fun _ _ h => ?_⟩
    cases h
    exact ⟨.inl rfl, fun _ _ _ => trivial⟩
  exact ⟨hlegal, (slamCache_shares _ _ (by decide) hlegal).2⟩

end

end Zambesii.SlamCache
