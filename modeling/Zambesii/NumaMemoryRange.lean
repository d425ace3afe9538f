import Zambesii.ConstrainedGetFrames
import Zambesii.Runs

/-!
`NumaMemoryRange`: a bitmap of the range's frames with a stack of single free frames in
front of it. A frame of the stack stays set in the bitmap.
-/

namespace Zambesii.NumaMemoryRange

open BitManipulation ConstrainedGetFrames KernelTypes List
open Runs

/-- `held` and `reserved` record who has the frames that are neither free nor cached:
the callers of the allocation functions and of `mapMemUsed`. -/
structure Range where
  bmp : MemoryBmp
  frameCache : List Nat
  held : Nat → Nat
  reserved : Nat → Bool

def initialRange (bmp : MemoryBmp) : Range where
  bmp := bmp
  frameCache := []
  held := fun _ => 0
  reserved := fun pfn => bmp.testFrame pfn

def cacheCapacity : Nat := 1024

/-- `StackCache::push`; the only stack is the one for single frames. -/
def push (frameCache : List Nat) (category item : Nat) : Option (List Nat) :=
  if category ≠ 1 then none
  else if frameCache.length = cacheCapacity then none
  else some (item :: frameCache)

def flush (bmp : MemoryBmp) : List Nat → Option MemoryBmp
  | [] => some bmp
  | frameAddr :: rest => do
      let (_, bmp) ← bmp.releaseFrames frameAddr 1
      flush bmp rest

def identifyPaddrRange (bmp : MemoryBmp) (paddr nBytes : Nat) : Bool :=
  let callerEndPaddr := (paddr + nBytes + (wordModulus - 1)) % wordModulus
  (decide (bmp.baseAddr ≤ paddr) && decide (paddr < bmp.endAddr)) ||
    (decide (bmp.baseAddr ≤ callerEndPaddr) && decide (callerEndPaddr ≤ bmp.endAddr))

def identifies (bmp : MemoryBmp) (baseAddr nFrames : Nat) : Bool :=
  identifyPaddrRange bmp baseAddr (nFrames * pagingBaseSize % wordModulus)

instance (element : Element) (pfn : Nat) : Decidable (element.Covers pfn) :=
  inferInstanceAs (Decidable (_ ∧ _))

/-- The holders after `elements` were handed out. -/
def giveOut (held : Nat → Nat) (elements : List Element) : Nat → Nat :=
  fun pfn => held pfn + elements.countP fun element => decide (element.Covers pfn)

/-- The holders after `element` was given back. -/
def takeBack (held : Nat → Nat) (element : Element) : Nat → Nat :=
  fun pfn => if element.Covers pfn then held pfn - 1 else held pfn

inductive Call
  | fragmentedGetFrames (nFrames : Nat)
  | constrainedGetFrames (c : Compiler) (nFrames : Nat) (preallocated : Bool)
  | releaseFrames (paddr nFrames : Nat)
  | mapMemUsed (baseAddr nFrames : Nat)
  | mapMemUnused (baseAddr nFrames : Nat)

inductive Answer
  | frames (elements : List Element)
  | status (code : Kerror)
deriving DecidableEq

def fragmentedGetFrames (range : Range) (nFrames : Nat) : Answer × Range :=
  match range.frameCache with
  | frameAddr :: rest =>
    let elements := [⟨frameAddr / pagingBaseSize, 1⟩]
    (.frames elements, { range with frameCache := rest, held := giveOut range.held elements })
  | [] =>
    match range.bmp.fragmentedGetFrames nFrames with
    | (.error error, bmp) => (.status error, { range with bmp := bmp })
    | (.ok none, bmp) => (.frames [], { range with bmp := bmp })
    | (.ok (some (paddr, nFound)), bmp) =>
      let elements := [⟨paddr / pagingBaseSize, nFound⟩]
      (.frames elements, { range with bmp := bmp, held := giveOut range.held elements })

/-- `constrainedGetFrames`, into an empty list. -/
def constrainedGetFrames (range : Range) (c : Compiler) (nFrames : Nat) (preallocated : Bool) :
    Option (Answer × Range) :=
  match ConstrainedGetFrames.constrainedGetFrames range.bmp c nFrames [] preallocated with
  | .panicked => none
  | .failed error bmp _ => some (.status error, { range with bmp := bmp })
  | .granted _ bmp list =>
    let elements := list.filterMap id
    some (.frames elements, { range with bmp := bmp, held := giveOut range.held elements })

def releaseFrames (range : Range) (paddr nFrames : Nat) : Option (Answer × Range) :=
  let held := takeBack range.held ⟨paddr / pagingBaseSize, nFrames⟩
  match push range.frameCache nFrames paddr with
  | some frameCache => some (.status .success, { range with frameCache := frameCache, held := held })
  | none => (range.bmp.releaseFrames paddr nFrames).map fun r =>
    (.status .success, { range with bmp := r.2, held := held })

def mapMemUsed (range : Range) (baseAddr nFrames : Nat) : Option (Answer × Range) :=
  if !identifies range.bmp baseAddr nFrames then some (.status .invalidArgVal, range)
  else do
    let bmp ← flush range.bmp range.frameCache
    let mapped := bmp.mappedRange baseAddr nFrames
    some (.status .success, { range with
      bmp := bmp.mapMemUsed baseAddr nFrames
      frameCache := []
      reserved := fun pfn =>
        range.reserved pfn || (decide (mapped.1 ≤ pfn) && decide (pfn < mapped.2)) })

def mapMemUnused (range : Range) (baseAddr nFrames : Nat) : Answer × Range :=
  if !identifies range.bmp baseAddr nFrames then (.status .invalidArgVal, range)
  else
    let mapped := range.bmp.mappedRange baseAddr nFrames
    (.status .success, { range with
      bmp := range.bmp.mapMemUnused baseAddr nFrames
      reserved := fun pfn =>
        range.reserved pfn && !(decide (mapped.1 ≤ pfn) && decide (pfn < mapped.2)) })

/-- `merge`: the number of frames that are set in the other range's bitmap. -/
def merge (range other : Range) : Option (Nat × Range) := do
  let bmp ← flush range.bmp range.frameCache
  let (nSet, merged) := bmp.merge other.bmp
  some (nSet, { range with
    bmp := merged
    frameCache := []
    reserved := fun pfn => range.reserved pfn || (merged.testFrame pfn && !bmp.testFrame pfn) })

def step (range : Range) : Call → Option (Answer × Range)
  | .fragmentedGetFrames nFrames => some (fragmentedGetFrames range nFrames)
  | .constrainedGetFrames c nFrames preallocated =>
    constrainedGetFrames range c nFrames preallocated
  | .releaseFrames paddr nFrames => releaseFrames range paddr nFrames
  | .mapMemUsed baseAddr nFrames => mapMemUsed range baseAddr nFrames
  | .mapMemUnused baseAddr nFrames => some (mapMemUnused range baseAddr nFrames)

/-- What the callers keep to: frames are released by who holds them, by their page
address. -/
def Allowed (range : Range) : Call → Prop
  | .releaseFrames paddr nFrames => paddr % pagingBaseSize = 0 ∧
      ∀ pfn < paddr / pagingBaseSize + nFrames, paddr / pagingBaseSize ≤ pfn → 0 < range.held pfn
  | _ => True

instance (range : Range) : ∀ call, Decidable (Allowed range call)
  | .releaseFrames _ _ => inferInstanceAs (Decidable (_ ∧ ∀ _ < _, _ → _))
  | .fragmentedGetFrames _ | .constrainedGetFrames .. | .mapMemUsed _ _ | .mapMemUnused _ _ =>
    inferInstanceAs (Decidable True)

/-- The condition: the bitmap accepts what is released to it, the mapped ranges hold
no frame that is in use elsewhere, and what a constrained search finds is in order. -/
def Kept (range : Range) : Call → Prop
  | .fragmentedGetFrames _ => True
  | .constrainedGetFrames c nFrames _ => Ordered (pass range.bmp c nFrames false)
  | .releaseFrames paddr nFrames => push range.frameCache nFrames paddr = none →
      0 < nFrames → range.bmp.Accepts paddr nFrames
  | .mapMemUsed baseAddr nFrames => identifies range.bmp baseAddr nFrames = true →
      (∀ frameAddr ∈ range.frameCache, range.bmp.Accepts frameAddr 1) ∧
        ∀ pfn < (range.bmp.mappedRange baseAddr nFrames).2,
          (range.bmp.mappedRange baseAddr nFrames).1 ≤ pfn → range.held pfn = 0
  | .mapMemUnused baseAddr nFrames => identifies range.bmp baseAddr nFrames = true →
      ∀ pfn < (range.bmp.mappedRange baseAddr nFrames).2,
        (range.bmp.mappedRange baseAddr nFrames).1 ≤ pfn →
          range.held pfn = 0 ∧ pfn ∉ range.frameCache.map (· / pagingBaseSize)

instance (range : Range) : ∀ call, Decidable (Kept range call)
  | .fragmentedGetFrames _ => inferInstanceAs (Decidable True)
  | .constrainedGetFrames .. => inferInstanceAs (Decidable (List.Pairwise _ _))
  | .releaseFrames _ _ => inferInstanceAs (Decidable (_ → _ → _))
  | .mapMemUsed _ _ => inferInstanceAs (Decidable (_ → (∀ _ ∈ _, _) ∧ ∀ _ < _, _ → _))
  | .mapMemUnused _ _ => inferInstanceAs (Decidable (_ → ∀ _ < _, _ → _ ∧ _))

/-- In how many places a frame is: free in the bitmap, in the cache, with a caller,
reserved. -/
def places (range : Range) (pfn : Nat) : Nat :=
  (if range.bmp.testFrame pfn then 0 else 1) +
    (range.frameCache.map (· / pagingBaseSize)).count pfn + range.held pfn +
      (if range.reserved pfn then 1 else 0)

/-- The invariant of a range that was set up with `bmp`. -/
structure Partitioned (bmp : MemoryBmp) (range : Range) : Prop where
  baseAddr_eq : range.bmp.baseAddr = bmp.baseAddr
  endAddr_eq : range.bmp.endAddr = bmp.endAddr
  cached : ∀ frameAddr ∈ range.frameCache, ∃ pfn, bmp.HasFrame pfn ∧
    frameAddr = pfn * pagingBaseSize
  held_hasFrame : ∀ pfn, 0 < range.held pfn → bmp.HasFrame pfn
  one_place : ∀ pfn, bmp.HasFrame pfn → places range pfn = 1

theorem partitioned_initialRange (bmp : MemoryBmp) : Partitioned bmp (initialRange bmp) where
  baseAddr_eq := rfl
  endAddr_eq := rfl
  cached := by simp [initialRange]
  held_hasFrame := by simp [initialRange]
  one_place := by
    intro pfn _
    rcases Bool.eq_false_or_eq_true (bmp.testFrame pfn) with hbit | hbit
    · simp [places, initialRange, hbit]
    · simp [places, initialRange, hbit]

section

variable {bmp bmp' : MemoryBmp} {pfn : Nat}

theorem testFrame_setBits (start count index : Nat) (hpfn : bmp.basePfn ≤ pfn) :
    MemoryBmp.testFrame { bmp with bits := setBits bmp.bits start count, lastAllocIndex := index }
        pfn = true ↔
      bmp.testFrame pfn = true ∨
        bmp.basePfn + start ≤ pfn ∧ pfn < bmp.basePfn + start + count := by
  refine Iff.trans setBits_eq_true (or_congr Iff.rfl ?_)
  change (start ≤ pfn - bmp.basePfn ∧ pfn - bmp.basePfn < start + count) ↔ _
  omega

theorem testFrame_unsetBits (start count index : Nat) (hpfn : bmp.basePfn ≤ pfn) :
    MemoryBmp.testFrame { bmp with bits := unsetBits bmp.bits start count, lastAllocIndex := index }
        pfn = true ↔
      bmp.testFrame pfn = true ∧
        ¬ (bmp.basePfn + start ≤ pfn ∧ pfn < bmp.basePfn + start + count) := by
  refine Iff.trans unsetBits_eq_true (and_congr Iff.rfl (not_congr ?_))
  change (start ≤ pfn - bmp.basePfn ∧ pfn - bmp.basePfn < start + count) ↔ _
  omega

theorem hasFrame_congr (hbase : bmp'.baseAddr = bmp.baseAddr) (hend : bmp'.endAddr = bmp.endAddr) :
    bmp'.HasFrame pfn ↔ bmp.HasFrame pfn := by
  simp only [MemoryBmp.HasFrame, MemoryBmp.basePfn, MemoryBmp.endPfn, hbase, hend]

end

section

variable {bmp : MemoryBmp} {range : Range}

theorem Partitioned.basePfn_eq (h : Partitioned bmp range) : range.bmp.basePfn = bmp.basePfn := by
  simp only [MemoryBmp.basePfn, h.baseAddr_eq]

theorem Partitioned.endPfn_eq (h : Partitioned bmp range) : range.bmp.endPfn = bmp.endPfn := by
  simp only [MemoryBmp.endPfn, h.endAddr_eq]

variable {pfn nFrames baseAddr : Nat}

theorem Partitioned.of_held (h : Partitioned bmp range) (hheld : 0 < range.held pfn) :
    range.bmp.testFrame pfn = true ∧ range.held pfn = 1 ∧ range.reserved pfn = false ∧
      (range.frameCache.map (· / pagingBaseSize)).count pfn = 0 := by
  have hone := h.one_place pfn (h.held_hasFrame pfn hheld)
  simp only [places] at hone
  rcases Bool.eq_false_or_eq_true (range.bmp.testFrame pfn) with hbit | hbit
  · rcases Bool.eq_false_or_eq_true (range.reserved pfn) with hres | hres
    · simp only [hbit, hres, if_true] at hone
      omega
    · exact ⟨hbit, by omega, hres, by omega⟩
  · simp only [hbit, Bool.false_eq_true, if_false] at hone
    omega

theorem Partitioned.of_free (h : Partitioned bmp range) (hframe : bmp.HasFrame pfn)
    (hfree : range.bmp.testFrame pfn = false) : range.held pfn = 0 ∧ range.reserved pfn = false ∧
      (range.frameCache.map (· / pagingBaseSize)).count pfn = 0 := by
  have hone := h.one_place pfn hframe
  simp only [places, hfree, Bool.false_eq_true, if_false] at hone
  rcases Bool.eq_false_or_eq_true (range.reserved pfn) with hres | hres
  · simp only [hres, if_true] at hone
    omega
  · exact ⟨by omega, hres, by omega⟩

theorem countP_covers {elements : List Element}
    (hdisjoint : elements.Pairwise fun a b => ∀ pfn, ¬ (a.Covers pfn ∧ b.Covers pfn)) (pfn : Nat) :
    ((elements.countP fun element => decide (element.Covers pfn)) = 0 ∧
        ∀ element ∈ elements, ¬ element.Covers pfn) ∨
      ((elements.countP fun element => decide (element.Covers pfn)) = 1 ∧
        ∃ element ∈ elements, element.Covers pfn) := by
  induction hdisjoint with
  | nil => exact .inl ⟨rfl, by simp⟩
  | @cons element rest hhead _ ih =>
    rw [countP_cons]
    rcases em (element.Covers pfn) with hcovers | hcovers
    · have hnone : ∀ other ∈ rest, ¬ other.Covers pfn :=
        fun other hother hcovers' => hhead other hother pfn ⟨hcovers, hcovers'⟩
      have hzero : (rest.countP fun element => decide (element.Covers pfn)) = 0 :=
        countP_eq_zero.mpr fun other hother => by simpa using hnone other hother
      exact .inr ⟨by simp [hzero, hcovers], element, by simp, hcovers⟩
    simp only [hcovers, decide_false, Bool.false_eq_true, if_false, add_zero]
    rcases ih with ⟨hzero, hnone⟩ | ⟨hone, other, hother, hcovers'⟩
    · refine .inl ⟨hzero, ?_⟩
      intro other hother
      rcases mem_cons.mp hother with rfl | hother
      · exact hcovers
      · exact hnone other hother
    · exact .inr ⟨hone, other, mem_cons_of_mem _ hother, hcovers'⟩

variable (h : Partitioned bmp range)

include h

theorem giveOut_partitioned {bmp' : MemoryBmp}
    {elements : List Element} (hbase : bmp'.baseAddr = bmp.baseAddr)
    (hend : bmp'.endAddr = bmp.endAddr)
    (hin : ∀ element ∈ elements, ∀ pfn, element.Covers pfn → bmp.HasFrame pfn)
    (hfree : ∀ element ∈ elements, ∀ pfn, element.Covers pfn → range.bmp.testFrame pfn = false)
    (hdisjoint : elements.Pairwise fun a b => ∀ pfn, ¬ (a.Covers pfn ∧ b.Covers pfn))
    (hset : ∀ pfn, bmp.HasFrame pfn → (bmp'.testFrame pfn = true ↔
      range.bmp.testFrame pfn = true ∨ ∃ element ∈ elements, element.Covers pfn)) :
    Partitioned bmp { range with bmp := bmp', held := giveOut range.held elements } := by
  refine ⟨hbase, hend, h.cached, ?_, ?_⟩
  · intro pfn hheld
    rcases countP_covers hdisjoint pfn with ⟨hzero, -⟩ | ⟨-, element, helement, hcovers⟩
    · exact h.held_hasFrame pfn (by simpa [giveOut, hzero] using hheld)
    · exact hin element helement pfn hcovers
  · intro pfn hframe
    have hone := h.one_place pfn hframe
    rcases countP_covers hdisjoint pfn with ⟨hzero, hnone⟩ | ⟨hcount, element, helement, hcovers⟩
    · have hbit : bmp'.testFrame pfn = range.bmp.testFrame pfn := by
        rw [Bool.eq_iff_iff, hset pfn hframe]
        constructor
        · rintro (hold | ⟨element, helement, hcovers⟩)
          · exact hold
          · exact absurd hcovers (hnone element helement)
        · exact .inl
      simpa only [places, giveOut, hbit, hzero, add_zero] using hone
    · have hold := hfree element helement pfn hcovers
      obtain ⟨hheld, hres, hcache⟩ := h.of_free hframe hold
      have hbit : bmp'.testFrame pfn = true :=
        (hset pfn hframe).mpr (.inr ⟨element, helement, hcovers⟩)
      simp [places, giveOut, hbit, hheld, hres, hcache, hcount]

theorem fragmentedGetFrames_partitioned (nFrames : Nat) :
    Partitioned bmp (fragmentedGetFrames range nFrames).2 := by
  unfold fragmentedGetFrames
  split
  · rename_i frameAddr rest hcache
    obtain ⟨pfn, hframe, rfl⟩ := h.cached frameAddr (by simp [hcache])
    have hdiv : pfn * pagingBaseSize / pagingBaseSize = pfn :=
      Nat.mul_div_cancel _ (by simp [pagingBaseSize])
    refine ⟨h.baseAddr_eq, h.endAddr_eq,
      fun other hother => h.cached other (by simp [hcache, hother]), ?_, ?_⟩
    · intro other hother
      rcases eq_or_ne other pfn with rfl | hne
      · exact hframe
      refine h.held_hasFrame other ?_
      have hout : ¬ Element.Covers ⟨pfn, 1⟩ other := by
        simp only [Element.Covers]
        omega
      simpa [giveOut, hdiv, hout] using hother
    · intro other hother
      have hone := h.one_place other hother
      simp only [places, hcache, map_cons, hdiv, count_cons] at hone
      simp only [places, giveOut, hdiv, countP_cons, countP_nil, decide_eq_true_eq]
      rcases eq_or_ne pfn other with rfl | hne
      · have hcovers : Element.Covers ⟨pfn, 1⟩ pfn := ⟨le_refl _, Nat.lt_succ_self _⟩
        simp only [beq_self_eq_true, if_true] at hone
        rw [if_pos hcovers]
        omega
      have hcovers : ¬ Element.Covers ⟨pfn, 1⟩ other := by
        simp only [Element.Covers]
        omega
      simp only [beq_iff_eq, hne, if_false] at hone
      rw [if_neg hcovers]
      omega
  rcases range.bmp.fragmentedGetFrames_cases nFrames with
    ⟨start, count, index, hunset, hle, heq⟩ | heq | heq
  · rw [heq]
    have hdiv : (range.bmp.basePfn + start) * pagingBaseSize / pagingBaseSize =
        range.bmp.basePfn + start := Nat.mul_div_cancel _ (by simp [pagingBaseSize])
    dsimp only
    rw [hdiv]
    have hrange : ∀ pfn, Element.Covers ⟨range.bmp.basePfn + start, count⟩ pfn →
        bmp.HasFrame pfn := by
      rintro pfn ⟨hfirst, hlast⟩
      dsimp only at hfirst hlast
      have hbasele := range.bmp.basePfn_le_endPfn
      simp only [MemoryBmp.bmpNFrames] at hle
      simp only [MemoryBmp.HasFrame, ← h.basePfn_eq, ← h.endPfn_eq]
      omega
    refine giveOut_partitioned h h.baseAddr_eq h.endAddr_eq ?_ ?_ (pairwise_singleton _ _)
      ?_
    · intro element helement pfn hcovers
      rw [mem_singleton.mp helement] at hcovers
      exact hrange pfn hcovers
    · intro element helement pfn hcovers
      rw [mem_singleton.mp helement] at hcovers
      obtain ⟨hfirst, hlast⟩ := hcovers
      dsimp only at hfirst hlast
      exact hunset _ (by omega) (by omega)
    · intro pfn hframe
      rw [testFrame_setBits _ _ _ (h.basePfn_eq ▸ hframe.1)]
      simp [Element.Covers]
  · rw [heq]
    exact h
  · rw [heq]
    exact h

theorem constrainedGetFrames_partitioned {c : Compiler}
    {preallocated : Bool} (hordered : Ordered (pass range.bmp c nFrames false)) :
    ∃ answer next, constrainedGetFrames range c nFrames preallocated = some (answer, next) ∧
      Partitioned bmp next := by
  rcases constrainedGetFrames_cases [] preallocated hordered with
    ⟨error, heq⟩ | heq | ⟨hvalid, heq⟩
  · exact ⟨_, _, by rw [constrainedGetFrames, heq], h⟩
  · refine ⟨_, _, by rw [constrainedGetFrames, heq], ?_⟩
    exact h
  have hmin := min_pos_of_isValid hvalid
  have hfound : ∀ find ∈ pass range.bmp c nFrames true, Found range.bmp c range.bmp.bits find :=
    search_found hmin
  refine ⟨_, _, by rw [constrainedGetFrames, heq], ?_⟩
  rw [nil_append, filterMap_map, Function.id_comp, filterMap_some]
  refine giveOut_partitioned h h.baseAddr_eq h.endAddr_eq ?_ ?_ ?_ ?_
  · intro element helement pfn hcovers
    obtain ⟨find, hfind, rfl⟩ := mem_map.mp helement
    have hle := (hfound find hfind).le_beyond
    have hbasele := range.bmp.basePfn_le_endPfn
    obtain ⟨hbase, -, hlast⟩ := covers_toElement.mp hcovers
    simp only [MemoryBmp.bmpNFrames] at hle
    simp only [MemoryBmp.HasFrame, ← h.basePfn_eq, ← h.endPfn_eq]
    omega
  · intro element helement pfn hcovers
    obtain ⟨find, hfind, rfl⟩ := mem_map.mp helement
    obtain ⟨-, hfirst, hlast⟩ := covers_toElement.mp hcovers
    exact (hfound find hfind).unset _ hfirst hlast
  · refine pairwise_map.mpr ((search_disjoint hmin).imp ?_)
    rintro a b hdisjoint pfn ⟨ha, hb⟩
    exact hdisjoint _ ⟨(covers_toElement.mp ha).2, (covers_toElement.mp hb).2⟩
  · intro pfn hframe
    refine Iff.trans setFinds_eq_true (or_congr Iff.rfl ?_)
    have hbase : range.bmp.basePfn ≤ pfn := h.basePfn_eq ▸ hframe.1
    constructor
    · rintro ⟨find, hfind, hin⟩
      exact ⟨_, mem_map_of_mem hfind, covers_toElement.mpr ⟨hbase, hin⟩⟩
    · rintro ⟨element, helement, hcovers⟩
      obtain ⟨find, hfind, rfl⟩ := mem_map.mp helement
      exact ⟨find, hfind, (covers_toElement.mp hcovers).2⟩

theorem releaseToBmp_partitioned
    (hheld : ∀ frame < pfn + nFrames, pfn ≤ frame → 0 < range.held frame)
    (haccepts : 0 < nFrames → range.bmp.Accepts (pfn * pagingBaseSize) nFrames) :
    ∃ accepted bmp', range.bmp.releaseFrames (pfn * pagingBaseSize) nFrames =
        some (accepted, bmp') ∧
      Partitioned bmp { range with bmp := bmp', held := takeBack range.held ⟨pfn, nFrames⟩ } := by
  rcases eq_zero_or_pos nFrames with rfl | hpos
  · refine ⟨false, range.bmp, by simp [MemoryBmp.releaseFrames], ?_⟩
    have hsame : takeBack range.held ⟨pfn, 0⟩ = range.held := by
      funext other
      rw [takeBack, if_neg]
      simp only [Element.Covers]
      omega
    rw [hsame]
    exact h
  have hfirst := h.held_hasFrame pfn (hheld pfn (by omega) (le_refl _))
  have hlast := h.held_hasFrame (pfn + nFrames - 1) (hheld _ (by omega) (by omega))
  have hbase : range.bmp.basePfn ≤ pfn := h.basePfn_eq ▸ hfirst.1
  have hend : pfn + nFrames ≤ range.bmp.endPfn + 1 := by
    have := hlast.2
    rw [h.endPfn_eq]
    omega
  obtain ⟨index, heq⟩ := MemoryBmp.releaseFrames_of_accepts (haccepts hpos) hpos hbase hend
  refine ⟨true, _, heq, h.baseAddr_eq, h.endAddr_eq, h.cached, ?_, ?_⟩
  · intro frame hframe
    refine h.held_hasFrame frame ?_
    simp only [takeBack] at hframe
    split at hframe <;> omega
  · intro frame hframe
    have hone := h.one_place frame hframe
    have hframe' : range.bmp.basePfn ≤ frame := h.basePfn_eq ▸ hframe.1
    have hbit := testFrame_unsetBits (pfn - range.bmp.basePfn) nFrames index hframe'
    rw [Nat.add_sub_cancel' hbase] at hbit
    rcases em (Element.Covers ⟨pfn, nFrames⟩ frame) with hcovers | hcovers
    · obtain ⟨hold, hheldOne, hres, hcache⟩ := h.of_held (hheld frame hcovers.2 hcovers.1)
      have hnew := Bool.eq_false_iff.mpr fun hset => (hbit.mp hset).2 hcovers
      simp [places, takeBack, hnew, hcovers, hheldOne, hres, hcache]
    · have hnew : _ = range.bmp.testFrame frame :=
        Bool.eq_iff_iff.mpr (hbit.trans ⟨fun hset => hset.1, fun hset => ⟨hset, hcovers⟩⟩)
      simpa only [places, takeBack, hnew, hcovers, if_false] using hone

theorem releaseFrames_partitioned {paddr : Nat}
    (hallowed : Allowed range (.releaseFrames paddr nFrames))
    (hkept : Kept range (.releaseFrames paddr nFrames)) :
    ∃ answer next, releaseFrames range paddr nFrames = some (answer, next) ∧
      Partitioned bmp next := by
  obtain ⟨halign, hheld⟩ := hallowed
  obtain ⟨pfn, rfl⟩ : ∃ pfn, paddr = pfn * pagingBaseSize :=
    ⟨_, (Nat.div_mul_cancel (Nat.dvd_of_mod_eq_zero halign)).symm⟩
  have hdiv : pfn * pagingBaseSize / pagingBaseSize = pfn :=
    Nat.mul_div_cancel _ (by simp [pagingBaseSize])
  rw [hdiv] at hheld
  cases hpush : push range.frameCache nFrames (pfn * pagingBaseSize) with
  | some frameCache =>
    refine ⟨_, _, by rw [releaseFrames, hpush, hdiv], ?_⟩
    obtain ⟨rfl, rfl⟩ : nFrames = 1 ∧ frameCache = pfn * pagingBaseSize :: range.frameCache := by
      unfold push at hpush
      split at hpush
      · contradiction
      · split at hpush
        · contradiction
        · exact ⟨by omega, (Option.some.inj hpush).symm⟩
    have hpfn := h.held_hasFrame pfn (hheld pfn (by omega) (le_refl _))
    refine ⟨h.baseAddr_eq, h.endAddr_eq, ?_, ?_, ?_⟩
    · intro frameAddr hframeAddr
      rcases mem_cons.mp hframeAddr with rfl | hold
      · exact ⟨pfn, hpfn, rfl⟩
      · exact h.cached frameAddr hold
    · intro frame hframe
      refine h.held_hasFrame frame ?_
      simp only [takeBack] at hframe
      split at hframe <;> omega
    · intro frame hframe
      have hone := h.one_place frame hframe
      simp only [places, map_cons, hdiv, count_cons, takeBack] at hone ⊢
      rcases eq_or_ne pfn frame with rfl | hne
      · have hcovers : Element.Covers ⟨pfn, 1⟩ pfn := ⟨le_refl _, Nat.lt_succ_self _⟩
        have hpos := hheld pfn (by omega) (le_refl _)
        simp only [beq_self_eq_true, if_true, hcovers]
        omega
      have hcovers : ¬ Element.Covers ⟨pfn, 1⟩ frame := by
        simp only [Element.Covers]
        omega
      simp only [beq_iff_eq, hne, hcovers, if_false]
      omega
  | none =>
    obtain ⟨accepted, bmp', heq, hnext⟩ := releaseToBmp_partitioned h hheld (hkept hpush)
    exact ⟨_, _, by rw [releaseFrames, hpush, heq, hdiv]; rfl, hnext⟩

theorem flushOne_partitioned {frameAddr : Nat} {rest : List Nat}
    (hcache : range.frameCache = frameAddr :: rest) (haccepts : range.bmp.Accepts frameAddr 1) :
    ∃ index bits, range.bmp.releaseFrames frameAddr 1 =
        some (true, { range.bmp with bits := bits, lastAllocIndex := index }) ∧
      Partitioned bmp { range with
        bmp := { range.bmp with bits := bits, lastAllocIndex := index }
        frameCache := rest } := by
  obtain ⟨pfn, hpfn, rfl⟩ := h.cached frameAddr (by simp [hcache])
  have hdiv : pfn * pagingBaseSize / pagingBaseSize = pfn :=
    Nat.mul_div_cancel _ (by simp [pagingBaseSize])
  have hbase : range.bmp.basePfn ≤ pfn := h.basePfn_eq ▸ hpfn.1
  have hend : pfn + 1 ≤ range.bmp.endPfn + 1 := by
    rw [h.endPfn_eq]
    exact Nat.succ_le_succ hpfn.2
  obtain ⟨index, heq⟩ := MemoryBmp.releaseFrames_of_accepts haccepts one_pos hbase hend
  refine ⟨index, _, heq, h.baseAddr_eq, h.endAddr_eq,
    fun other hother => h.cached other (by simp [hcache, hother]), h.held_hasFrame, ?_⟩
  intro frame hframe
  have hone := h.one_place frame hframe
  have hframe' : range.bmp.basePfn ≤ frame := h.basePfn_eq ▸ hframe.1
  have hbit := testFrame_unsetBits (pfn - range.bmp.basePfn) 1 index hframe'
  rw [Nat.add_sub_cancel' hbase] at hbit
  simp only [places, hcache, map_cons, hdiv, count_cons] at hone
  rcases eq_or_ne pfn frame with rfl | hne
  · have hnew := Bool.eq_false_iff.mpr fun hset => (hbit.mp hset).2 ⟨le_refl _, Nat.lt_succ_self _⟩
    simp only [places, hnew, Bool.false_eq_true, if_false]
    simp only [beq_self_eq_true, if_true] at hone
    omega
  · have hnew : _ = range.bmp.testFrame frame :=
      Bool.eq_iff_iff.mpr (hbit.trans ⟨fun hset => hset.1, fun hset => ⟨hset, by omega⟩⟩)
    simpa only [places, hnew, beq_iff_eq, hne, if_false, add_zero] using hone

theorem flush_partitioned {frameCache : List Nat}
    (hcache : range.frameCache = frameCache)
    (haccepts : ∀ frameAddr ∈ frameCache, range.bmp.Accepts frameAddr 1) :
    ∃ bmp', flush range.bmp frameCache = some bmp' ∧
      Partitioned bmp { range with bmp := bmp', frameCache := [] } := by
  induction frameCache generalizing range with
  | nil =>
    refine ⟨range.bmp, rfl, ?_⟩
    rw [← hcache]
    exact h
  | cons frameAddr rest ih =>
    obtain ⟨index, bits, heq, hnext⟩ := flushOne_partitioned h hcache (haccepts _ (by simp))
    obtain ⟨bmp', hflush, hlast⟩ := ih hnext rfl
      fun other hother => haccepts other (mem_cons_of_mem _ hother)
    exact ⟨bmp', by rw [flush, heq]; exact hflush, hlast⟩

omit h

theorem mappedRange_congr {bmp' : MemoryBmp} (hbase : bmp'.baseAddr = bmp.baseAddr)
    (hend : bmp'.endAddr = bmp.endAddr) (baseAddr nFrames : Nat) :
    bmp'.mappedRange baseAddr nFrames = bmp.mappedRange baseAddr nFrames := by
  unfold MemoryBmp.mappedRange MemoryBmp.basePfn MemoryBmp.endPfn
  rw [hbase, hend]

theorem mapped_iff (hpfn : bmp.basePfn ≤ pfn) :
    (bmp.basePfn + ((bmp.mappedRange baseAddr nFrames).1 - bmp.basePfn) ≤ pfn ∧
        pfn < bmp.basePfn + ((bmp.mappedRange baseAddr nFrames).1 - bmp.basePfn) +
          ((bmp.mappedRange baseAddr nFrames).2 - (bmp.mappedRange baseAddr nFrames).1)) ↔
      (bmp.mappedRange baseAddr nFrames).1 ≤ pfn ∧ pfn < (bmp.mappedRange baseAddr nFrames).2 := by
  have hbounds := bmp.mappedRange_bounds baseAddr nFrames
  omega

theorem mapMemUsed_partitioned (h : Partitioned bmp range)
    (hkept : Kept range (.mapMemUsed baseAddr nFrames)) :
    ∃ answer next, mapMemUsed range baseAddr nFrames = some (answer, next) ∧
      Partitioned bmp next := by
  rcases Bool.eq_false_or_eq_true (identifies range.bmp baseAddr nFrames) with hid | hid
  swap
  · exact ⟨.status .invalidArgVal, range, by simp [mapMemUsed, hid], h⟩
  obtain ⟨haccepts, hunheld⟩ := hkept hid
  obtain ⟨bmp', hflush, hflushed⟩ := flush_partitioned h rfl haccepts
  refine ⟨.status .success, _, by simp only [mapMemUsed, hid, hflush]; rfl, ?_⟩
  have hmapped : ∀ pfn, (bmp'.mappedRange baseAddr nFrames).1 ≤ pfn →
      pfn < (bmp'.mappedRange baseAddr nFrames).2 → range.held pfn = 0 := by
    intro pfn hfirst hlast
    rw [mappedRange_congr (hflushed.baseAddr_eq.trans h.baseAddr_eq.symm)
      (hflushed.endAddr_eq.trans h.endAddr_eq.symm)] at hfirst hlast
    exact hunheld pfn hlast hfirst
  refine ⟨hflushed.baseAddr_eq, hflushed.endAddr_eq, by simp, h.held_hasFrame, ?_⟩
  intro pfn hframe
  have hone := hflushed.one_place pfn hframe
  have hpfn : bmp'.basePfn ≤ pfn := hflushed.basePfn_eq ▸ hframe.1
  have hbit : (bmp'.mapMemUsed baseAddr nFrames).testFrame pfn = true ↔ _ :=
    testFrame_setBits _ _ bmp'.lastAllocIndex hpfn
  rw [mapped_iff hpfn] at hbit
  simp only [places, map_nil, count_nil, add_zero] at hone ⊢
  rcases em ((bmp'.mappedRange baseAddr nFrames).1 ≤ pfn ∧
    pfn < (bmp'.mappedRange baseAddr nFrames).2) with hin | hout
  · simp [hbit.mpr (.inr hin), hin.1, hin.2, hmapped pfn hin.1 hin.2]
  have hnew : _ = bmp'.testFrame pfn := Bool.eq_iff_iff.mpr
    (hbit.trans ⟨fun hset => hset.resolve_right hout, .inl⟩)
  have hres : (decide ((bmp'.mappedRange baseAddr nFrames).1 ≤ pfn) &&
      decide (pfn < (bmp'.mappedRange baseAddr nFrames).2)) = false := by
    rw [← Bool.decide_and]
    exact decide_eq_false hout
  simpa only [hnew, hres, Bool.or_false] using hone

theorem mapMemUnused_partitioned (h : Partitioned bmp range)
    (hkept : Kept range (.mapMemUnused baseAddr nFrames)) :
    Partitioned bmp (mapMemUnused range baseAddr nFrames).2 := by
  rcases Bool.eq_false_or_eq_true (identifies range.bmp baseAddr nFrames) with hid | hid
  swap
  · simp only [mapMemUnused, hid, Bool.not_false, if_true]
    exact h
  simp only [mapMemUnused, hid, Bool.not_true, Bool.false_eq_true, if_false]
  refine ⟨h.baseAddr_eq, h.endAddr_eq, h.cached, h.held_hasFrame, ?_⟩
  intro pfn hframe
  have hone := h.one_place pfn hframe
  have hpfn : range.bmp.basePfn ≤ pfn := h.basePfn_eq ▸ hframe.1
  have hbit : (range.bmp.mapMemUnused baseAddr nFrames).testFrame pfn = true ↔ _ :=
    testFrame_unsetBits _ _ range.bmp.lastAllocIndex hpfn
  rw [mapped_iff hpfn] at hbit
  simp only [places] at hone ⊢
  rcases em ((range.bmp.mappedRange baseAddr nFrames).1 ≤ pfn ∧
    pfn < (range.bmp.mappedRange baseAddr nFrames).2) with hin | hout
  · obtain ⟨hheld, hcache⟩ := hkept hid pfn hin.2 hin.1
    have hnew : _ = false := Bool.eq_false_iff.mpr fun hset => (hbit.mp hset).2 hin
    simp only [hnew, hin.1, hin.2, hheld, count_eq_zero.mpr hcache, decide_true,
      Bool.and_self, Bool.not_true, Bool.and_false, Bool.false_eq_true, if_false]
  · have hnew : _ = range.bmp.testFrame pfn := Bool.eq_iff_iff.mpr
      (hbit.trans ⟨fun hset => hset.1, fun hset => ⟨hset, hout⟩⟩)
    have hres : (decide ((range.bmp.mappedRange baseAddr nFrames).1 ≤ pfn) &&
        decide (pfn < (range.bmp.mappedRange baseAddr nFrames).2)) = false := by
      rw [← Bool.decide_and]
      exact decide_eq_false hout
    simpa only [hnew, hres, Bool.not_false, Bool.and_true] using hone

theorem step_partitioned (range : Range) (call : Call) (h : Partitioned bmp range)
    (hcall : Allowed range call ∧ Kept range call) :
    ∃ answer next, step range call = some (answer, next) ∧ Partitioned bmp next := by
  cases call with
  | fragmentedGetFrames nFrames =>
    exact ⟨_, _, rfl, fragmentedGetFrames_partitioned h nFrames⟩
  | constrainedGetFrames c nFrames preallocated =>
    exact constrainedGetFrames_partitioned h hcall.2
  | releaseFrames paddr nFrames => exact releaseFrames_partitioned h hcall.1 hcall.2
  | mapMemUsed baseAddr nFrames => exact mapMemUsed_partitioned h hcall.2
  | mapMemUnused baseAddr nFrames => exact ⟨_, _, rfl, mapMemUnused_partitioned h hcall.2⟩

end

/-- In every run whose calls all keep to the condition, every call returns and every
frame is in exactly one place. -/
theorem run_one_place (bmp : MemoryBmp) (calls : List Call)
    (h : Guarded step (fun range call => Allowed range call ∧ Kept range call) (initialRange bmp)
      calls) :
    ∃ answers last, run step (initialRange bmp) calls = some (answers, last) ∧
      ∀ pfn, bmp.HasFrame pfn → places last pfn = 1 := by
  obtain ⟨answers, last, hrun, hlast⟩ :=
    run_invariant step_partitioned (partitioned_initialRange bmp) h
  exact ⟨answers, last, hrun, hlast.one_place⟩

def smallRange : MemoryBmp :=
  MemoryBmp.initialBmp (16 * 4096) (24 * 4096 - 1) smallBmp_base_le smallBmp_end_lt

theorem run_one_place_smallRange : ∃ answers last, run step (initialRange smallRange)
        [.fragmentedGetFrames 2, .releaseFrames (16 * 4096) 2, .fragmentedGetFrames 1,
          .releaseFrames (16 * 4096) 1, .mapMemUsed (20 * 4096) 2] = some (answers, last) ∧
      ∀ pfn, smallRange.HasFrame pfn → places last pfn = 1 := by
  apply run_one_place
  decide +kernel

theorem released_last_frames_lost :
    ¬ ∀ (bmp : MemoryBmp) (calls : List Call), Guarded step Allowed (initialRange bmp) calls →
      ∃ answers last, run step (initialRange bmp) calls = some (answers, last) ∧
        ∀ pfn, bmp.HasFrame pfn → places last pfn = 1 := by
  intro hclaim
  have hguarded : Guarded step Allowed (initialRange smallRange)
      [.mapMemUsed (16 * 4096) 6, .fragmentedGetFrames 2, .releaseFrames (22 * 4096) 2] := by
    decide +kernel
  obtain ⟨answers, last, hrun, hplaces⟩ := hclaim _ _ hguarded
  have hlost : ((run step (initialRange smallRange)
      [.mapMemUsed (16 * 4096) 6, .fragmentedGetFrames 2, .releaseFrames (22 * 4096) 2]).any
        fun r => decide (places r.2 23 = 0)) = true := by
    decide +kernel
  rw [hrun] at hlost
  have hzero : places last 23 = 0 := of_decide_eq_true hlost
  have hone := hplaces 23 ⟨by decide, by decide⟩
  omega

end Zambesii.NumaMemoryRange
