import Mathlib.Algebra.BigOperators.Group.List.Basic
import Mathlib.Data.List.Pairwise
import Zambesii.MemoryBmp

/-!
`MemoryBmp::constrainedGetFrames`: frames for DMA, in pieces that meet a compiled set
of constraints. A first pass over the bitmap counts what can be had, a second one takes
it and writes it into the scatter-gather list.
-/

namespace Zambesii.ConstrainedGetFrames

open BitManipulation KernelTypes List

/-- The fields of `constraints::Compiler` that are read here. Alignment is to a power
of two, and the stride is one less than it. -/
structure Compiler where
  version : Nat
  startPfn : Nat
  beyondEndPfn : Nat
  pfnSkipStride : Nat
  minElementGranularityNFrames : Nat
  maxNContiguousFrames : Nat
  startPfn_lt : startPfn < wordModulus
  beyondEndPfn_lt : beyondEndPfn < wordModulus
  stride_eq : ∃ bits < 32, pfnSkipStride + 1 = 2 ^ bits

def Compiler.isValid (c : Compiler) : Bool :=
  decide (0 < c.version) && decide (0 < c.minElementGranularityNFrames)

structure Element where
  startPfn : Nat
  nFrames : Nat
deriving DecidableEq

structure Find where
  start : Nat
  length : Nat
deriving DecidableEq

def asSigned (word : Nat) : Int :=
  if word < 2 ^ 31 then word else word - wordModulus

/-- The first frame number that is tried: the later of the two starts, moved up to the
alignment. -/
def alignmentStartPfn (bmp : MemoryBmp) (c : Compiler) : Nat :=
  let start := if bmp.basePfn ≤ c.startPfn then c.startPfn else bmp.basePfn
  if start &&& c.pfnSkipStride ≠ 0 then
    let moved := (start + (c.pfnSkipStride + 1)) % wordModulus
    moved - (moved &&& c.pfnSkipStride)
  else start

def alignmentStartBit (bmp : MemoryBmp) (c : Compiler) : Nat :=
  (alignmentStartPfn bmp c + (wordModulus - bmp.basePfn)) % wordModulus

def searchEndBit (bmp : MemoryBmp) (c : Compiler) : Nat :=
  let endBit := (c.beyondEndPfn + (wordModulus - bmp.basePfn)) % wordModulus
  if endBit < bmp.bmpNFrames then endBit else bmp.bmpNFrames

def cutToNeed (c : Compiler) (nFrames ret nFound : Nat) : Nat :=
  if nFrames ≤ ret + nFound then
    if nFrames - ret < c.minElementGranularityNFrames then c.minElementGranularityNFrames
    else nFrames - ret
  else nFound

/-- The `while` loop that computes `nextBoundarySkip`; it ends within `nFound` steps. -/
def boundarySkip (stride nFound : Nat) : (fuel nextBoundarySkip : Nat) → Nat
  | 0, nextBoundarySkip => nextBoundarySkip
  | fuel + 1, nextBoundarySkip =>
    if stride + 1 + nextBoundarySkip < nFound then
      boundarySkip stride nFound fuel (nextBoundarySkip + (stride + 1))
    else nextBoundarySkip

/-- One iteration of the search: the stretch it settles on and the next `i`. -/
def probe (bmp : MemoryBmp) (c : Compiler) (nFrames : Nat) (bits : Bits) (i ret : Nat) :
    Option (Find × Nat) :=
  if i < searchEndBit bmp c ∧ (ret : Int) < asSigned nFrames then
    match checkForContiguousBitsAt bits i c.minElementGranularityNFrames
      c.maxNContiguousFrames (bmp.bmpNFrames - i) with
    | .error _ => none
    | .ok (foundStartBit, found) =>
      if foundStartBit < 1 then none
      else
        let nFound := cutToNeed c nFrames ret found
        let nextBoundarySkip := boundarySkip c.pfnSkipStride nFound nFound 0
        some (⟨foundStartBit, nFound⟩, i + (1 + c.pfnSkipStride + nextBoundarySkip))
  else none

/-- One pass over the bitmap: the stretches it settles on. The second pass sets the
bits of each before it goes on. Every iteration moves `i` up, which bounds their number. -/
def search (bmp : MemoryBmp) (c : Compiler) (nFrames : Nat) (isSecondPass : Bool) :
    (fuel : Nat) → Bits → (i ret : Nat) → List Find
  | 0, _, _, _ => []
  | fuel + 1, bits, i, ret =>
    match probe bmp c nFrames bits i ret with
    | none => []
    | some (find, next) =>
      find :: search bmp c nFrames isSecondPass fuel
        (if isSecondPass then setBits bits find.start find.length else bits) next
        (ret + find.length)

def pass (bmp : MemoryBmp) (c : Compiler) (nFrames : Nat) (isSecondPass : Bool) : List Find :=
  search bmp c nFrames isSecondPass (bmp.bmpNFrames + 1) bmp.bits (alignmentStartBit bmp c) 0

def total (finds : List Find) : Nat := (finds.map Find.length).sum

def setFinds (bits : Bits) (finds : List Find) : Bits :=
  finds.foldl (fun bits find => setBits bits find.start find.length) bits

def toElement (bmp : MemoryBmp) (find : Find) : Element :=
  ⟨bmp.basePfn + find.start, find.length⟩

inductive Outcome
  | panicked
  | failed (error : Kerror) (bmp : MemoryBmp) (list : List (Option Element))
  | granted (ret : Nat) (bmp : MemoryBmp) (list : List (Option Element))

/-- `constrainedGetFrames`. `preallocated` when `preallocateEntries` can enlarge the
list; the new entries have no contents until `addFrames` writes them, and it panics
beyond them. -/
def constrainedGetFrames (bmp : MemoryBmp) (c : Compiler) (nFrames : Nat)
    (list : List (Option Element)) (preallocated : Bool) : Outcome :=
  if !c.isValid then .failed .invalidState bmp list
  else if nFrames = 0 then .granted 0 bmp list
  else if bmp.endPfn ≤ alignmentStartPfn bmp c then .failed .limitOverflowed bmp list
  else
    let first := pass bmp c nFrames false
    if (total first : Int) < asSigned nFrames then .failed .memoryNomemPhysical bmp list
    else if !preallocated then .failed .memoryNomem bmp list
    else
      let second := pass bmp c nFrames true
      if first.length < second.length then .panicked
      else if (total second : Int) < asSigned nFrames then .panicked
      else .granted (total second) { bmp with bits := setFinds bmp.bits second }
        (list ++ (second.map fun find => some (toElement bmp find)) ++
          List.replicate (first.length - second.length) none)

def Element.Covers (element : Element) (pfn : Nat) : Prop :=
  element.startPfn ≤ pfn ∧ pfn < element.startPfn + element.nFrames

structure Grants (bmp bmp' : MemoryBmp) (c : Compiler) (nFrames : Nat) (elements : List Element) :
    Prop where
  free_before : ∀ element ∈ elements, ∀ pfn, element.Covers pfn → bmp.testFrame pfn = false
  used_after : ∀ element ∈ elements, ∀ pfn, element.Covers pfn → bmp'.testFrame pfn = true
  in_window : ∀ element ∈ elements, c.startPfn ≤ element.startPfn ∧
    element.startPfn + element.nFrames ≤ c.beyondEndPfn
  in_bitmap : ∀ element ∈ elements, bmp.basePfn ≤ element.startPfn ∧
    element.startPfn + element.nFrames ≤ bmp.endPfn + 1
  aligned : ∀ element ∈ elements, c.pfnSkipStride + 1 ∣ element.startPfn
  granularity : ∀ element ∈ elements, c.minElementGranularityNFrames ≤ element.nFrames ∧
    element.nFrames ≤ c.maxNContiguousFrames
  disjoint : elements.Pairwise fun a b => ∀ pfn, ¬ (a.Covers pfn ∧ b.Covers pfn)
  enough : nFrames ≤ (elements.map Element.nFrames).sum
  others_unchanged : ∀ pfn, bmp.HasFrame pfn → (∀ element ∈ elements, ¬ element.Covers pfn) →
    bmp'.testFrame pfn = bmp.testFrame pfn

def Meets (bmp : MemoryBmp) (c : Compiler) (nFrames : Nat) (list : List (Option Element)) :
    Outcome → Prop
  | .panicked => False
  | .failed _ bmp' list' => bmp' = bmp ∧ list' = list
  | .granted _ bmp' list' => ∃ elements, list' = list ++ elements.map some ∧
      Grants bmp bmp' c nFrames elements

def Ordered (finds : List Find) : Prop :=
  finds.Pairwise fun a b => a.start + a.length ≤ b.start

def Fits (bmp : MemoryBmp) (c : Compiler) (find : Find) : Prop :=
  c.pfnSkipStride + 1 ∣ bmp.basePfn + find.start ∧ c.startPfn ≤ bmp.basePfn + find.start ∧
    bmp.basePfn + find.start + find.length ≤ c.beyondEndPfn

/-- A stretch of free frames that an element can be taken from: it has the most frames of an
element, or it ends at a used frame. -/
structure Piece (bmp : MemoryBmp) (c : Compiler) (start found : Nat) : Prop where
  min_le : c.minElementGranularityNFrames ≤ found
  le_max : found ≤ c.maxNContiguousFrames
  le_beyond : start + found ≤ bmp.bmpNFrames
  unset : AllUnset bmp.bits start found
  ends : found = c.maxNContiguousFrames ∨
    start + found < bmp.bmpNFrames ∧ bmp.bits (start + found) = true

structure FirstPiece (bmp : MemoryBmp) (c : Compiler) (bit start found : Nat) : Prop where
  le_start : bit ≤ start
  piece : Piece bmp c start found
  first : ∀ start' found', bit ≤ start' → Piece bmp c start' found' → start ≤ start'

/-- How many frames of a stretch are taken when `need` are wanted. -/
def taken (c : Compiler) (need found : Nat) : Nat :=
  min found (max need c.minElementGranularityNFrames)

/-- The first alignment boundary at or after the end of what is taken from a boundary on. -/
def nextBoundary (c : Compiler) (bit count : Nat) : Nat :=
  bit + (count + c.pfnSkipStride) / (c.pfnSkipStride + 1) * (c.pfnSkipStride + 1)

/-- The stretches from a boundary on of which `need` frames are wanted, when each of them begins at
the boundary after the one before it, or is the last one that is needed. The first bit of the bitmap
is never handed out. -/
inductive Pieces (bmp : MemoryBmp) (c : Compiler) : (bit need : Nat) → List Find → Prop
  | enough (bit : Nat) : Pieces bmp c bit 0 []
  | beyond {bit need : Nat} (h : searchEndBit bmp c ≤ bit) : Pieces bmp c bit need []
  | nothing {bit need : Nat} (h : ∀ start found, bit ≤ start → ¬Piece bmp c start found) :
    Pieces bmp c bit need []
  | atZero {need found : Nat} (h : Piece bmp c 0 found) : Pieces bmp c 0 need []
  | next {bit need found : Nat} {finds : List Find} (hneed : 0 < need) (hpos : 0 < bit)
    (hlt : bit < searchEndBit bmp c) (h : Piece bmp c bit found)
    (rest : Pieces bmp c (nextBoundary c bit (taken c need found)) (need - taken c need found)
      finds) : Pieces bmp c bit need (⟨bit, taken c need found⟩ :: finds)
  | last {bit need start found : Nat} (hneed : 0 < need) (hlt : bit < searchEndBit bmp c)
    (hstart : bit < start) (h : FirstPiece bmp c bit start found) (henough : need ≤ found) :
    Pieces bmp c bit need [⟨start, taken c need found⟩]

/-- The condition: the free stretches run out before the frames that are wanted, or they begin at
boundaries and end at or before `beyondEndPfn`. -/
def Sound (bmp : MemoryBmp) (c : Compiler) (nFrames : Nat) (preallocated : Bool) : Prop :=
  c.isValid = false ∨ bmp.endPfn ≤ alignmentStartPfn bmp c ∨
    preallocated = false ∨ nFrames < 2 ^ 31 ∧
      ∃ finds, Pieces bmp c (alignmentStartBit bmp c) nFrames finds ∧
        (total finds < nFrames ∨ c.startPfn ≤ bmp.endPfn ∧ ∀ find ∈ finds,
          c.pfnSkipStride + 1 ∣ find.start - alignmentStartBit bmp c ∧
            bmp.basePfn + find.start + find.length ≤ c.beyondEndPfn)

section

variable {bmp : MemoryBmp} {c : Compiler} {nFrames : Nat}
  {ret i fuel : Nat} {bits bits' : Bits} {find : Find} {list : List (Option Element)}

theorem lt_asSigned_iff (h : nFrames < 2 ^ 31) :
    (ret : Int) < asSigned nFrames ↔ ret < nFrames := by
  rw [asSigned, if_pos h, Int.ofNat_lt]

theorem not_lt_asSigned (h : ¬ nFrames < 2 ^ 31) (hlt : nFrames < wordModulus) :
    ¬ (ret : Int) < asSigned nFrames := by
  rw [asSigned, if_neg h]
  omega

theorem searchEndBit_le (bmp : MemoryBmp) (c : Compiler) : searchEndBit bmp c ≤ bmp.bmpNFrames := by
  simp only [searchEndBit]
  split <;> omega

structure Found (bmp : MemoryBmp) (c : Compiler) (bits : Bits) (find : Find) : Prop where
  le_beyond : find.start + find.length ≤ bmp.bmpNFrames
  min_le : c.minElementGranularityNFrames ≤ find.length
  le_max : find.length ≤ c.maxNContiguousFrames
  unset : AllUnset bits find.start find.length

theorem cutToNeed_bounds (n r : Nat) {found : Nat} (hmin : c.minElementGranularityNFrames ≤ found) :
    c.minElementGranularityNFrames ≤ cutToNeed c n r found ∧ cutToNeed c n r found ≤ found := by
  unfold cutToNeed
  split
  · split <;> omega
  · omega

theorem probe_found {next : Nat} (hmin : 0 < c.minElementGranularityNFrames)
    (h : probe bmp c nFrames bits i ret = some (find, next)) : Found bmp c bits find := by
  unfold probe at h
  split at h
  · rename_i hlt
    split at h
    · contradiction
    rename_i start found hcheck
    split at h
    · contradiction
    cases h
    have hs := check_stretch hmin hcheck
    have hcut := cutToNeed_bounds nFrames ret hs.min_le
    have hend := searchEndBit_le bmp c
    have hbeyond := hs.le_beyond
    refine ⟨?_, hcut.1, hcut.2.trans hs.le_max, ?_⟩
    · dsimp only
      omega
    · exact fun bit hfirst hlast => hs.unset bit hfirst (by dsimp only at hlast; omega)
  · contradiction

theorem probe_lt {hit : Find × Nat} (h : probe bmp c nFrames bits i ret = some hit) :
    (ret : Int) < asSigned nFrames := by
  unfold probe at h
  split at h
  · rename_i hlt
    exact hlt.2
  · contradiction

theorem probe_of_le {next : Nat} (hmin : 0 < c.minElementGranularityNFrames)
    (hbits : ∀ bit, bits bit = true → bits' bit = true)
    (hbefore : ∀ bit, bits' bit = true → bits bit = true ∨ bit < find.start)
    (h : probe bmp c nFrames bits i ret = some (find, next)) :
    probe bmp c nFrames bits' i ret = some (find, next) := by
  unfold probe at h ⊢
  split at h
  · rename_i hlt
    rw [if_pos hlt]
    split at h
    · contradiction
    rename_i start found hcheck
    split at h
    · contradiction
    rename_i hstart
    have hfind : find.start = start := by rw [← (Prod.mk.inj (Option.some.inj h)).1]
    have hunset : AllUnset bits' start found := by
      intro bit hfirst hlast
      rw [Bool.eq_false_iff]
      intro hset
      rcases hbefore bit hset with hold | hlt'
      · rw [(check_stretch hmin hcheck).unset bit hfirst hlast] at hold
        contradiction
      · omega
    rw [check_of_le hmin hbits hcheck hunset]
    dsimp only
    rw [if_neg hstart]
    exact h
  · contradiction

theorem Found.mono (h : Found bmp c bits' find)
    (hbits : ∀ bit, bits bit = true → bits' bit = true) : Found bmp c bits find := by
  refine ⟨h.le_beyond, h.min_le, h.le_max, ?_⟩
  intro bit hfirst hlast
  rw [Bool.eq_false_iff]
  intro hset
  have hunset := h.unset bit hfirst hlast
  rw [hbits bit hset] at hunset
  contradiction

variable (hmin : 0 < c.minElementGranularityNFrames)

include hmin

theorem search_found {isSecondPass : Bool} :
    ∀ find ∈ search bmp c nFrames isSecondPass fuel bits i ret, Found bmp c bits find := by
  induction fuel generalizing bits i ret with
  | zero => simp [search]
  | succ fuel ih =>
    rw [search]
    split
    · simp
    rename_i first next hprobe
    intro find hfind
    rcases mem_cons.mp hfind with rfl | hrest
    · exact probe_found hmin hprobe
    refine (ih find hrest).mono ?_
    intro bit hset
    split
    · exact setBits_eq_true.mpr (.inl hset)
    · exact hset

theorem search_disjoint :
    (search bmp c nFrames true fuel bits i ret).Pairwise fun a b => ∀ bit,
      ¬ ((a.start ≤ bit ∧ bit < a.start + a.length) ∧ b.start ≤ bit ∧ bit < b.start + b.length) := by
  induction fuel generalizing bits i ret with
  | zero => exact List.Pairwise.nil
  | succ fuel ih =>
    rw [search]
    split
    · exact List.Pairwise.nil
    rename_i first next hprobe
    refine pairwise_cons.mpr ⟨?_, ih⟩
    rintro later hlater bit ⟨hfirst, hin⟩
    have hunset := (search_found hmin later hlater).unset bit hin.1 hin.2
    rw [if_pos rfl, setBits_eq_true.mpr (.inr hfirst)] at hunset
    contradiction

theorem search_second_eq_first (hordered : Ordered (search bmp c nFrames false fuel bits i ret))
    (henough : ¬ ((ret + total (search bmp c nFrames false fuel bits i ret) : Nat) : Int) <
      asSigned nFrames) (hbits : ∀ bit, bits bit = true → bits' bit = true)
    (hbefore : ∀ bit, bits' bit = true → bits bit = true ∨
      ∀ find ∈ search bmp c nFrames false fuel bits i ret, bit < find.start) :
    search bmp c nFrames true fuel bits' i ret = search bmp c nFrames false fuel bits i ret := by
  induction fuel generalizing bits bits' i ret with
  | zero => rfl
  | succ fuel ih =>
    cases hprobe : probe bmp c nFrames bits i ret with
    | none =>
      have hnil : search bmp c nFrames false (fuel + 1) bits i ret = [] := by rw [search, hprobe]
      rw [hnil] at henough ⊢
      rw [search]
      split
      · rfl
      · rename_i hprobe'
        exact absurd (probe_lt hprobe') (by simpa [total] using henough)
    | some hit =>
      obtain ⟨find, next⟩ := hit
      have hcons : search bmp c nFrames false (fuel + 1) bits i ret =
          find :: search bmp c nFrames false fuel bits next (ret + find.length) := by
        rw [search, hprobe]
        simp
      rw [hcons] at hordered henough hbefore ⊢
      obtain ⟨hlater, hordered'⟩ := pairwise_cons.mp hordered
      have hprobe' : probe bmp c nFrames bits' i ret = some (find, next) := by
        refine probe_of_le hmin hbits ?_ hprobe
        intro bit hset
        exact (hbefore bit hset).imp_right fun hall => hall find (by simp)
      rw [search, hprobe']
      dsimp only
      congr 1
      apply ih hordered'
      · rw [total, map_cons, sum_cons, ← add_assoc] at henough
        exact henough
      · intro bit hset
        exact setBits_eq_true.mpr (.inl (hbits bit hset))
      · intro bit hset
        rcases setBits_eq_true.mp hset with hset | hin
        · exact (hbefore bit hset).imp_right fun hall other hother =>
            hall other (mem_cons_of_mem _ hother)
        · exact .inr fun other hother => lt_of_lt_of_le hin.2 (hlater other hother)

omit hmin

theorem setFinds_eq_true {finds : List Find} {bit : Nat} :
    setFinds bits finds bit = true ↔ bits bit = true ∨
      ∃ find ∈ finds, find.start ≤ bit ∧ bit < find.start + find.length := by
  induction finds generalizing bits with
  | nil => simp [setFinds]
  | cons find rest ih =>
    have hfold : setFinds bits (find :: rest) =
        setFinds (setBits bits find.start find.length) rest := rfl
    rw [hfold, ih, setBits_eq_true, or_assoc]
    simp

theorem covers_toElement {pfn : Nat} :
    (toElement bmp find).Covers pfn ↔ bmp.basePfn ≤ pfn ∧ find.start ≤ pfn - bmp.basePfn ∧
      pfn - bmp.basePfn < find.start + find.length := by
  simp only [Element.Covers, toElement]
  omega

theorem sum_toElement (bmp : MemoryBmp) (finds : List Find) :
    ((finds.map (toElement bmp)).map Element.nFrames).sum = total finds := by
  rw [total, map_map]
  rfl

theorem grants_iff (hmin : 0 < c.minElementGranularityNFrames) :
    Grants bmp { bmp with bits := setFinds bmp.bits (pass bmp c nFrames true) } c nFrames
        ((pass bmp c nFrames true).map (toElement bmp)) ↔
      (∀ find ∈ pass bmp c nFrames true, Fits bmp c find) ∧
        nFrames ≤ total (pass bmp c nFrames true) := by
  have hfound : ∀ find ∈ pass bmp c nFrames true, Found bmp c bmp.bits find :=
    search_found hmin
  constructor
  · intro h
    refine ⟨?_, by rw [← sum_toElement bmp]; exact h.enough⟩
    intro find hfind
    have hmem := mem_map_of_mem (f := toElement bmp) hfind
    exact ⟨h.aligned _ hmem, h.in_window _ hmem⟩
  · rintro ⟨hfits, henough⟩
    refine ⟨?_, ?_, ?_, ?_, ?_, ?_, ?_, ?_, ?_⟩
    · rintro _ hmem pfn hcovers
      obtain ⟨find, hfind, rfl⟩ := mem_map.mp hmem
      obtain ⟨-, hfirst, hlast⟩ := covers_toElement.mp hcovers
      exact (hfound find hfind).unset _ hfirst hlast
    · rintro _ hmem pfn hcovers
      obtain ⟨find, hfind, rfl⟩ := mem_map.mp hmem
      exact setFinds_eq_true.mpr (.inr ⟨find, hfind, (covers_toElement.mp hcovers).2⟩)
    · rintro _ hmem
      obtain ⟨find, hfind, rfl⟩ := mem_map.mp hmem
      exact (hfits find hfind).2
    · rintro _ hmem
      obtain ⟨find, hfind, rfl⟩ := mem_map.mp hmem
      have hbeyond := (hfound find hfind).le_beyond
      have hle := bmp.basePfn_le_endPfn
      simp only [MemoryBmp.bmpNFrames] at hbeyond
      simp only [toElement]
      omega
    · rintro _ hmem
      obtain ⟨find, hfind, rfl⟩ := mem_map.mp hmem
      exact (hfits find hfind).1
    · rintro _ hmem
      obtain ⟨find, hfind, rfl⟩ := mem_map.mp hmem
      exact ⟨(hfound find hfind).min_le, (hfound find hfind).le_max⟩
    · refine pairwise_map.mpr ((search_disjoint hmin).imp ?_)
      rintro a b hdisjoint pfn ⟨ha, hb⟩
      exact hdisjoint _ ⟨(covers_toElement.mp ha).2, (covers_toElement.mp hb).2⟩
    · rw [sum_toElement]
      exact henough
    · rintro pfn hframe hothers
      rw [Bool.eq_iff_iff]
      refine Iff.trans setFinds_eq_true ⟨?_, .inl⟩
      rintro (hold | ⟨find, hfind, hin⟩)
      · exact hold
      · exact absurd (covers_toElement.mpr ⟨hframe.1, hin⟩)
          (hothers _ (mem_map_of_mem hfind))

theorem constrainedGetFrames_eq_granted (hvalid : c.isValid = true) (hpos : 0 < nFrames)
    (hstart : ¬ bmp.endPfn ≤ alignmentStartPfn bmp c)
    (henough : ¬ (total (pass bmp c nFrames false) : Int) < asSigned nFrames)
    (hsame : pass bmp c nFrames true = pass bmp c nFrames false) :
    constrainedGetFrames bmp c nFrames list true =
      .granted (total (pass bmp c nFrames true))
        { bmp with bits := setFinds bmp.bits (pass bmp c nFrames true) }
        (list ++ ((pass bmp c nFrames true).map (toElement bmp)).map some) := by
  rw [constrainedGetFrames]
  simp only [hvalid, Bool.not_true, Bool.false_eq_true, if_false, Nat.ne_of_gt hpos, hstart,
    henough, hsame, Nat.lt_irrefl, Nat.sub_self, replicate_zero, append_nil, map_map]
  rfl

theorem min_pos_of_isValid (h : c.isValid = true) : 0 < c.minElementGranularityNFrames := by
  simp only [Compiler.isValid, Bool.and_eq_true, decide_eq_true_eq] at h
  exact h.2

theorem pass_second_eq_first (hmin : 0 < c.minElementGranularityNFrames)
    (hordered : Ordered (pass bmp c nFrames false))
    (henough : ¬ (total (pass bmp c nFrames false) : Int) < asSigned nFrames) :
    pass bmp c nFrames true = pass bmp c nFrames false :=
  search_second_eq_first hmin hordered (by simpa [pass] using henough) (fun _ h => h)
    (fun _ h => .inl h)

theorem constrainedGetFrames_cases (list : List (Option Element)) (preallocated : Bool)
    (hordered : Ordered (pass bmp c nFrames false)) :
    (∃ error, constrainedGetFrames bmp c nFrames list preallocated = .failed error bmp list) ∨
      constrainedGetFrames bmp c nFrames list preallocated = .granted 0 bmp list ∨
        c.isValid = true ∧ constrainedGetFrames bmp c nFrames list preallocated =
          .granted (total (pass bmp c nFrames true))
            { bmp with bits := setFinds bmp.bits (pass bmp c nFrames true) }
            (list ++ ((pass bmp c nFrames true).map (toElement bmp)).map some) := by
  rcases Bool.eq_false_or_eq_true c.isValid with hvalid | hvalid
  swap
  · exact .inl ⟨.invalidState, by simp [constrainedGetFrames, hvalid]⟩
  rcases eq_zero_or_pos nFrames with rfl | hpos
  · exact .inr (.inl (by simp [constrainedGetFrames, hvalid]))
  rcases em (bmp.endPfn ≤ alignmentStartPfn bmp c) with hstart | hstart
  · exact .inl ⟨.limitOverflowed,
      by simp [constrainedGetFrames, hvalid, ne_of_gt hpos, hstart]⟩
  rcases em ((total (pass bmp c nFrames false) : Int) < asSigned nFrames)
    with hshort | henough
  · exact .inl ⟨.memoryNomemPhysical,
      by simp [constrainedGetFrames, hvalid, ne_of_gt hpos, hstart, hshort]⟩
  cases preallocated with
  | false =>
    exact .inl ⟨.memoryNomem,
      by simp [constrainedGetFrames, hvalid, ne_of_gt hpos, hstart, henough]⟩
  | true =>
    have hsame := pass_second_eq_first (min_pos_of_isValid hvalid) hordered henough
    exact .inr (.inr ⟨hvalid, constrainedGetFrames_eq_granted hvalid hpos hstart henough hsame⟩)

theorem pass_eq_nil {isSecondPass : Bool} (h : ¬ nFrames < 2 ^ 31) (hlt : nFrames < wordModulus) :
    pass bmp c nFrames isSecondPass = [] := by
  rw [pass, search]
  split
  · rfl
  · rename_i hprobe
    exact absurd (probe_lt hprobe) (not_lt_asSigned h hlt)

theorem meets_failed {error : Kerror} : Meets bmp c nFrames list (.failed error bmp list) :=
  ⟨rfl, rfl⟩

theorem meets_granted_iff {bmp' : MemoryBmp} {elements : List Element} :
    Meets bmp c nFrames list (.granted ret bmp' (list ++ elements.map some)) ↔
      Grants bmp bmp' c nFrames elements := by
  constructor
  · rintro ⟨elements', heq, hgrants⟩
    obtain rfl := map_injective_iff.mpr (Option.some_injective _)
      (append_cancel_left heq)
    exact hgrants
  · exact fun h => ⟨elements, rfl, h⟩

end

section

variable {bmp : MemoryBmp} {c : Compiler} {nFrames bit need start found : Nat} {finds : List Find}

theorem Piece.check_eq (hmin : 0 < c.minElementGranularityNFrames) (hbit : bit ≤ bmp.bmpNFrames)
    (hle : bit ≤ start) (h : Piece bmp c start found) : ∃ start' found',
      checkForContiguousBitsAt bmp.bits bit c.minElementGranularityNFrames c.maxNContiguousFrames
        (bmp.bmpNFrames - bit) = .ok (start', found') ∧ start' ≤ start := by
  have hmax := h.min_le.trans h.le_max
  obtain ⟨⟨start', found'⟩, hscan, hfirst⟩ := scan_of_unset hmin hmax (Nat.zero_le bit)
    (by omega) (fun _ _ _ => by omega) (by omega) h.min_le h.unset h.le_beyond h.ends
    (Nat.add_sub_of_le hbit)
  exact ⟨start', found', check_eq_ok_iff.mpr ⟨hmax, hscan⟩, hfirst⟩

theorem piece_of_check (hmin : 0 < c.minElementGranularityNFrames) (hbit : bit ≤ bmp.bmpNFrames)
    (h : checkForContiguousBitsAt bmp.bits bit c.minElementGranularityNFrames
      c.maxNContiguousFrames (bmp.bmpNFrames - bit) = .ok (start, found)) :
    bit ≤ start ∧ Piece bmp c start found := by
  have hs := check_stretch hmin h
  have hends := scan_ends (Nat.zero_le bit) (check_eq_ok_iff.mp h).2
  rw [Nat.add_sub_of_le hbit] at hends hs
  exact ⟨hs.first_le, hs.min_le, hs.le_max, hs.le_beyond, hs.unset, hends⟩

theorem Piece.unique {found' : Nat} (h : Piece bmp c start found) (h' : Piece bmp c start found') :
    found = found' := by
  have hle : ∀ {a b}, Piece bmp c start a → Piece bmp c start b → a ≤ b := by
    intro a b ha hb
    rcases hb.ends with hmax | ⟨-, hset⟩
    · exact hmax ▸ ha.le_max
    by_contra hlt
    rw [ha.unset _ (by omega) (by omega)] at hset
    cases hset
  exact le_antisymm (hle h h') (hle h' h)

theorem FirstPiece.check_eq (hmin : 0 < c.minElementGranularityNFrames)
    (hbit : bit ≤ bmp.bmpNFrames) (h : FirstPiece bmp c bit start found) :
    checkForContiguousBitsAt bmp.bits bit c.minElementGranularityNFrames c.maxNContiguousFrames
      (bmp.bmpNFrames - bit) = .ok (start, found) := by
  obtain ⟨start', found', hcheck, hle⟩ := h.piece.check_eq hmin hbit h.le_start
  obtain ⟨hge, hpiece⟩ := piece_of_check hmin hbit hcheck
  obtain rfl := le_antisymm hle (h.first start' found' hge hpiece)
  rw [hcheck, hpiece.unique h.piece]

theorem Piece.firstPiece (h : Piece bmp c bit found) : FirstPiece bmp c bit bit found :=
  ⟨le_refl bit, h, fun _ _ hle _ => hle⟩

theorem cutToNeed_eq_taken {ret : Nat} (hret : ret < nFrames)
    (hmin : c.minElementGranularityNFrames ≤ found) :
    cutToNeed c nFrames ret found = taken c (nFrames - ret) found := by
  unfold cutToNeed taken
  split
  · split <;> omega
  · omega

theorem boundarySkip_eq {stride count fuel m : Nat} (hlt : m * (stride + 1) < count)
    (hfuel : count ≤ fuel + (m + 1) * (stride + 1)) :
    stride + 1 + boundarySkip stride count fuel (m * (stride + 1)) =
      (count + stride) / (stride + 1) * (stride + 1) := by
  have hdone : ∀ m, m * (stride + 1) < count → count ≤ (m + 1) * (stride + 1) →
      stride + 1 + m * (stride + 1) = (count + stride) / (stride + 1) * (stride + 1) := by
    intro m hlt hle
    rw [Nat.succ_mul] at hle
    have hdiv : (count + stride) / (stride + 1) = m + 1 := by
      refine Nat.div_eq_of_lt_le ?_ ?_
      · rw [Nat.succ_mul]
        omega
      · rw [Nat.succ_mul, Nat.succ_mul]
        omega
    rw [hdiv, Nat.succ_mul, add_comm]
  induction fuel generalizing m with
  | zero => exact hdone m hlt (by omega)
  | succ fuel ih =>
    rw [boundarySkip]
    split
    · rename_i hmore
      rw [add_comm (stride + 1), ← Nat.succ_mul] at hmore
      rw [← Nat.succ_mul]
      refine ih hmore ?_
      rw [Nat.succ_mul (m + 1)]
      omega
    · rename_i hless
      refine hdone m hlt ?_
      rw [Nat.succ_mul]
      omega

theorem le_nextBoundary (c : Compiler) (bit count : Nat) : bit + count ≤ nextBoundary c bit count ∧
    c.pfnSkipStride + 1 ∣ nextBoundary c bit count - bit := by
  unfold nextBoundary
  rw [Nat.add_sub_cancel_left]
  refine ⟨Nat.add_le_add_left ?_ bit, dvd_mul_left _ _⟩
  have hmod := Nat.mod_lt (count + c.pfnSkipStride) (show 0 < c.pfnSkipStride + 1 by omega)
  have hdiv := Nat.div_add_mod (count + c.pfnSkipStride) (c.pfnSkipStride + 1)
  rw [mul_comm] at hdiv
  omega

theorem taken_pos (hneed : 0 < need) (hmin : 0 < c.minElementGranularityNFrames)
    (hfound : c.minElementGranularityNFrames ≤ found) : 0 < taken c need found := by
  unfold taken
  omega

theorem probe_of_check (hmin : 0 < c.minElementGranularityNFrames) {ret : Nat}
    (hsigned : nFrames < 2 ^ 31) (hret : ret < nFrames) (hlt : bit < searchEndBit bmp c)
    (hcheck : checkForContiguousBitsAt bmp.bits bit c.minElementGranularityNFrames
      c.maxNContiguousFrames (bmp.bmpNFrames - bit) = .ok (start, found)) (hpos : 0 < start) :
    probe bmp c nFrames bmp.bits bit ret =
      some (⟨start, taken c (nFrames - ret) found⟩,
        nextBoundary c bit (taken c (nFrames - ret) found)) := by
  have hmin' := (check_stretch hmin hcheck).min_le
  have htaken := taken_pos (Nat.sub_pos_of_lt hret) hmin hmin'
  have hskip := @boundarySkip_eq c.pfnSkipStride (taken c (nFrames - ret) found)
    (taken c (nFrames - ret) found) 0 (by omega) (by omega)
  rw [zero_mul] at hskip
  unfold probe
  rw [if_pos ⟨hlt, (lt_asSigned_iff hsigned).mpr hret⟩, hcheck]
  dsimp only
  rw [if_neg (by omega), cutToNeed_eq_taken hret hmin', nextBoundary, ← hskip,
    add_comm 1 c.pfnSkipStride]

/-- The first pass settles on the stretches of the chain. -/
theorem search_of_pieces (hmin : 0 < c.minElementGranularityNFrames) (hsigned : nFrames < 2 ^ 31)
    {ret fuel : Nat} (h : Pieces bmp c bit need finds) (hneed : need = nFrames - ret)
    (hfuel : bmp.bmpNFrames < bit + fuel) :
    search bmp c nFrames false fuel bmp.bits bit ret = finds := by
  have hend := searchEndBit_le bmp c
  have hnil : ∀ {bit fuel ret}, probe bmp c nFrames bmp.bits bit ret = none →
      search bmp c nFrames false fuel bmp.bits bit ret = [] := by
    intro bit fuel ret hprobe
    cases fuel with
    | zero => rfl
    | succ fuel => rw [search, hprobe]
  have hfull : ∀ {bit ret}, nFrames ≤ ret → probe bmp c nFrames bmp.bits bit ret = none := by
    intro bit ret hle
    unfold probe
    rw [if_neg]
    rintro ⟨-, hlt⟩
    exact absurd ((lt_asSigned_iff hsigned).mp hlt) (Nat.not_lt_of_le hle)
  induction h generalizing ret fuel with
  | enough bit => exact hnil (hfull (by omega))
  | beyond hbeyond =>
    refine hnil ?_
    unfold probe
    rw [if_neg (fun hlt => Nat.not_lt_of_le hbeyond hlt.1)]
  | nothing hnothing =>
    refine hnil ?_
    unfold probe
    split
    · rename_i hlt
      split
      · rfl
      · rename_i start found hcheck
        obtain ⟨hle, hpiece⟩ := piece_of_check hmin (by omega) hcheck
        exact absurd hpiece (hnothing start found hle)
    · rfl
  | atZero hpiece =>
    refine hnil ?_
    unfold probe
    rw [hpiece.firstPiece.check_eq hmin (Nat.zero_le _)]
    split <;> rfl
  | @next bit need found finds hpos hbit hlt hpiece _ ih =>
    have hret : ret < nFrames := by omega
    have hprobe := probe_of_check hmin hsigned hret hlt
      (hpiece.firstPiece.check_eq hmin (by omega)) hbit
    have htaken := taken_pos hpos hmin hpiece.min_le
    have hle := (le_nextBoundary c bit (taken c need found)).1
    cases fuel with
    | zero => omega
    | succ fuel =>
      rw [search, hprobe]
      subst hneed
      dsimp only
      rw [if_neg (by decide), ih (by omega) (by omega)]
  | @last bit need start found hpos hlt hstart hpiece henough =>
    have hret : ret < nFrames := by omega
    have hprobe := probe_of_check hmin hsigned hret hlt
      (hpiece.check_eq hmin (by omega)) (by omega)
    cases fuel with
    | zero => omega
    | succ fuel =>
      rw [search, hprobe]
      subst hneed
      dsimp only
      rw [if_neg (by decide), hnil (hfull ?_)]
      dsimp only [taken]
      omega

theorem Pieces.spaced (h : Pieces bmp c bit need finds) :
    Ordered finds ∧ ∀ find ∈ finds, bit ≤ find.start ∧ bit < bmp.bmpNFrames := by
  have hend := searchEndBit_le bmp c
  induction h with
  | enough | beyond | nothing | atZero =>
    exact ⟨List.Pairwise.nil, forall_mem_nil _⟩
  | @next bit need found finds _ _ hlt _ _ ih =>
    have hle := (le_nextBoundary c bit (taken c need found)).1
    refine ⟨pairwise_cons.mpr ⟨fun later hlater => hle.trans (ih.2 later hlater).1, ih.1⟩, ?_⟩
    intro find hfind
    rcases mem_cons.mp hfind with rfl | hrest
    · exact ⟨le_refl _, by omega⟩
    · have hlater := ih.2 find hrest
      omega
  | last _ hlt hstart _ _ =>
    refine ⟨pairwise_singleton _ _, ?_⟩
    intro find hfind
    rw [mem_singleton.mp hfind]
    exact ⟨hstart.le, by omega⟩

theorem endPfn_lt (bmp : MemoryBmp) : bmp.endPfn < 1048576 :=
  Nat.div_lt_of_lt_mul bmp.end_lt

theorem alignmentStartPfn_spec (bmp : MemoryBmp) (c : Compiler) :
    c.pfnSkipStride + 1 ∣ alignmentStartPfn bmp c ∧ alignmentStartPfn bmp c < wordModulus ∧
      (c.startPfn ≤ bmp.endPfn → c.startPfn ≤ alignmentStartPfn bmp c) := by
  obtain ⟨bits, hbits, hstride⟩ := c.stride_eq
  have hmask (pfn : Nat) : pfn &&& c.pfnSkipStride = pfn % (c.pfnSkipStride + 1) := by
    rw [hstride, ← Nat.and_two_pow_sub_one_eq_mod, ← hstride, Nat.add_sub_cancel]
  have hsmall : c.pfnSkipStride + 1 ≤ 2 ^ 31 :=
    hstride ▸ Nat.pow_le_pow_right (by decide) (by omega)
  have hmodulus : wordModulus = 4294967296 := rfl
  have hend := endPfn_lt bmp
  have hbase := bmp.basePfn_le_endPfn
  have hstart := c.startPfn_lt
  unfold alignmentStartPfn
  simp only [hmask]
  generalize hfrom : (if bmp.basePfn ≤ c.startPfn then c.startPfn else bmp.basePfn) = start
  have hle : c.startPfn ≤ start ∧ start < wordModulus ∧
      (c.startPfn ≤ bmp.endPfn → start < 1048576) := by
    rw [← hfrom, hmodulus]
    split <;> omega
  split
  · have hmod := Nat.mod_lt ((start + (c.pfnSkipStride + 1)) % wordModulus)
      (show 0 < c.pfnSkipStride + 1 by omega)
    refine ⟨Nat.dvd_sub_mod _, ?_, ?_⟩
    · have := Nat.mod_lt (start + (c.pfnSkipStride + 1)) wordModulus_pos
      omega
    · intro hinside
      rw [Nat.mod_eq_of_lt (show start + (c.pfnSkipStride + 1) < wordModulus by omega)] at hmod ⊢
      omega
  · rename_i haligned
    exact ⟨Nat.dvd_of_mod_eq_zero (not_not.mp haligned), hle.2.1, fun _ => hle.1⟩

theorem basePfn_add_alignmentStartBit (h : alignmentStartBit bmp c < bmp.bmpNFrames) :
    bmp.basePfn + alignmentStartBit bmp c = alignmentStartPfn bmp c := by
  obtain ⟨-, hlt, -⟩ := alignmentStartPfn_spec bmp c
  have hmodulus : wordModulus = 4294967296 := rfl
  have hend := endPfn_lt bmp
  have hbase := bmp.basePfn_le_endPfn
  unfold alignmentStartBit at h ⊢
  unfold MemoryBmp.bmpNFrames at h
  rw [hmodulus] at hlt h ⊢
  omega

theorem Pieces.fits_iff (h : Pieces bmp c (alignmentStartBit bmp c) need finds)
    (hmin : 0 < c.minElementGranularityNFrames)
    (hfound : ∀ find ∈ finds, Found bmp c bmp.bits find) (hne : finds ≠ []) :
    (∀ find ∈ finds, Fits bmp c find) ↔ c.startPfn ≤ bmp.endPfn ∧ ∀ find ∈ finds,
      c.pfnSkipStride + 1 ∣ find.start - alignmentStartBit bmp c ∧
        bmp.basePfn + find.start + find.length ≤ c.beyondEndPfn := by
  obtain ⟨hdvd, -, hinside⟩ := alignmentStartPfn_spec bmp c
  have hspaced := h.spaced.2
  have haligned : ∀ find ∈ finds, (c.pfnSkipStride + 1 ∣ bmp.basePfn + find.start ↔
      c.pfnSkipStride + 1 ∣ find.start - alignmentStartBit bmp c) ∧
        alignmentStartPfn bmp c ≤ bmp.basePfn + find.start := by
    intro find hfind
    obtain ⟨hle, hlt⟩ := hspaced find hfind
    have hstart := basePfn_add_alignmentStartBit hlt
    have hsum : bmp.basePfn + find.start =
        alignmentStartPfn bmp c + (find.start - alignmentStartBit bmp c) := by
      omega
    exact ⟨by rw [hsum, Nat.dvd_add_right hdvd], by omega⟩
  constructor
  · intro hfits
    constructor
    · obtain ⟨find, hfind⟩ := exists_mem_of_ne_nil finds hne
      have hwindow := (hfits find hfind).2.1
      have hbeyond := (hfound find hfind).le_beyond
      have hlength := (hfound find hfind).min_le
      have hbase := bmp.basePfn_le_endPfn
      unfold MemoryBmp.bmpNFrames at hbeyond
      omega
    · exact fun find hfind =>
        ⟨(haligned find hfind).1.mp (hfits find hfind).1, (hfits find hfind).2.2⟩
  · rintro ⟨hstart, hall⟩ find hfind
    obtain ⟨hiff, hle⟩ := haligned find hfind
    obtain ⟨hboundary, hwindow⟩ := hall find hfind
    exact ⟨hiff.mpr hboundary, (hinside hstart).trans hle, hwindow⟩

end

/-- The condition is enough for a call to do what is expected, for every bitmap, set of constraints
and list. It is met by no other call for which the stretches form a chain. -/
theorem meets_iff_sound (bmp : MemoryBmp) (c : Compiler) (nFrames : Nat)
    (list : List (Option Element)) (preallocated : Bool) (hpos : 0 < nFrames)
    (hlt : nFrames < wordModulus) : (Sound bmp c nFrames preallocated →
        Meets bmp c nFrames list (constrainedGetFrames bmp c nFrames list preallocated)) ∧
      ∀ finds, Pieces bmp c (alignmentStartBit bmp c) nFrames finds →
        Meets bmp c nFrames list (constrainedGetFrames bmp c nFrames list preallocated) →
          Sound bmp c nFrames preallocated := by
  rcases Bool.eq_false_or_eq_true c.isValid with hvalid | hvalid
  swap
  · have heq : constrainedGetFrames bmp c nFrames list preallocated =
        .failed .invalidState bmp list := by
      simp [constrainedGetFrames, hvalid]
    rw [heq]
    exact ⟨fun _ => meets_failed, fun _ _ _ => .inl hvalid⟩
  have hmin := min_pos_of_isValid hvalid
  rcases em (bmp.endPfn ≤ alignmentStartPfn bmp c) with hstart | hstart
  · have heq : constrainedGetFrames bmp c nFrames list preallocated =
        .failed .limitOverflowed bmp list := by
      simp [constrainedGetFrames, hvalid, ne_of_gt hpos, hstart]
    rw [heq]
    exact ⟨fun _ => meets_failed, fun _ _ _ => .inr (.inl hstart)⟩
  have hpass : ∀ finds, nFrames < 2 ^ 31 →
      Pieces bmp c (alignmentStartBit bmp c) nFrames finds → pass bmp c nFrames false = finds :=
    fun finds hsigned hpieces => search_of_pieces hmin hsigned hpieces rfl (by omega)
  rcases em ((total (pass bmp c nFrames false) : Int) < asSigned nFrames)
    with hshort | henough
  · have heq : constrainedGetFrames bmp c nFrames list preallocated =
        .failed .memoryNomemPhysical bmp list := by
      simp [constrainedGetFrames, hvalid, ne_of_gt hpos, hstart, hshort]
    rw [heq]
    have hsigned : nFrames < 2 ^ 31 :=
      Classical.byContradiction fun h => not_lt_asSigned h hlt hshort
    refine ⟨fun _ => meets_failed, fun finds hpieces _ => .inr (.inr (.inr
      ⟨hsigned, finds, hpieces, .inl ?_⟩))⟩
    rw [← hpass finds hsigned hpieces]
    exact (lt_asSigned_iff hsigned).mp hshort
  cases preallocated with
  | false =>
    have heq : constrainedGetFrames bmp c nFrames list false =
        .failed .memoryNomem bmp list := by
      simp [constrainedGetFrames, hvalid, ne_of_gt hpos, hstart, henough]
    rw [heq]
    exact ⟨fun _ => meets_failed, fun _ _ _ => .inr (.inr (.inl rfl))⟩
  | true =>
    have hgranted : ∀ finds, nFrames < 2 ^ 31 →
        Pieces bmp c (alignmentStartBit bmp c) nFrames finds →
          (Meets bmp c nFrames list (constrainedGetFrames bmp c nFrames list true) ↔
            c.startPfn ≤ bmp.endPfn ∧ ∀ find ∈ finds,
              c.pfnSkipStride + 1 ∣ find.start - alignmentStartBit bmp c ∧
                bmp.basePfn + find.start + find.length ≤ c.beyondEndPfn) := by
      intro finds hsigned hpieces
      have hfirst := hpass finds hsigned hpieces
      have hsame := pass_second_eq_first hmin (hfirst ▸ hpieces.spaced.1) henough
      have hle : nFrames ≤ total finds := by
        rw [← hfirst]
        exact Nat.le_of_not_lt fun h => henough ((lt_asSigned_iff hsigned).mpr h)
      have hne : finds ≠ [] := by
        rintro rfl
        exact absurd hle (Nat.not_le_of_lt hpos)
      have hfound : ∀ find ∈ finds, Found bmp c bmp.bits find := by
        rw [← hfirst]
        exact search_found hmin
      rw [constrainedGetFrames_eq_granted hvalid hpos hstart henough hsame,
        meets_granted_iff, grants_iff hmin, hsame, hfirst, and_iff_left hle,
        hpieces.fits_iff hmin hfound hne]
    constructor
    · rintro (hinvalid | hstart' | hpre | ⟨hsigned, finds, hpieces, hshort | hsound⟩)
      · rw [hvalid] at hinvalid
        contradiction
      · exact absurd hstart' hstart
      · contradiction
      · rw [hpass finds hsigned hpieces] at henough
        exact absurd ((lt_asSigned_iff hsigned).mpr hshort) henough
      · exact (hgranted finds hsigned hpieces).mpr hsound
    · intro finds hpieces hmeets
      have hsigned : nFrames < 2 ^ 31 := by
        by_contra h
        have hsame : pass bmp c nFrames true = pass bmp c nFrames false :=
          (pass_eq_nil h hlt).trans (pass_eq_nil h hlt).symm
        rw [constrainedGetFrames_eq_granted hvalid hpos hstart henough hsame,
          meets_granted_iff, grants_iff hmin, pass_eq_nil h hlt] at hmeets
        exact absurd hmeets.2 (Nat.not_le_of_lt hpos)
      exact .inr (.inr (.inr
        ⟨hsigned, finds, hpieces, .inr ((hgranted finds hsigned hpieces).mp hmeets)⟩))

theorem exists_bits_of_stride_zero : ∃ bits < 32, 0 + 1 = 2 ^ bits :=
  ⟨0, by decide, rfl⟩

theorem smallBmp_base_le : 16 * 4096 ≤ 24 * 4096 - 1 := by decide

theorem smallBmp_end_lt : 24 * 4096 - 1 < wordModulus := by decide

/-- Eight frames from frame 16 on, of which `used` are in use. -/
def smallBmp (used : List Nat) : MemoryBmp where
  baseAddr := 16 * 4096
  endAddr := 24 * 4096 - 1
  bits := fun bit => decide (bit ∈ used)
  lastAllocIndex := 0
  base_le_end := smallBmp_base_le
  end_lt := smallBmp_end_lt

def unalignedConstraints : Compiler where
  version := 1
  startPfn := 0
  beyondEndPfn := 24
  pfnSkipStride := 0
  minElementGranularityNFrames := 1
  maxNContiguousFrames := 3
  startPfn_lt := wordModulus_pos
  beyondEndPfn_lt := by decide
  stride_eq := exists_bits_of_stride_zero

def laterConstraints : Compiler :=
  { unalignedConstraints with
    startPfn := 17
    startPfn_lt := by decide }

theorem meets_iff_sound_smallBmp : Meets (smallBmp [0, 7]) laterConstraints 5 []
      (constrainedGetFrames (smallBmp [0, 7]) laterConstraints 5 [] true) := by
  refine (meets_iff_sound _ _ 5 [] true (by decide) (by decide)).1 ?_
  have hpiece (start : Nat) (hpos : 0 < start) (hle : start + 3 ≤ 7) :
      Piece (smallBmp [0, 7]) laterConstraints start 3 := by
    refine ⟨by decide, by decide, le_trans hle (by decide), ?_, .inl rfl⟩
    intro bit hfirst hlast
    simp only [smallBmp, mem_cons, not_mem_nil, or_false, decide_eq_false_iff_not]
    omega
  have hpieces : Pieces (smallBmp [0, 7]) laterConstraints 1 5 [⟨1, 3⟩, ⟨4, 2⟩] :=
    .next (by decide) (by decide) (by decide) (hpiece 1 (by decide) (by decide))
      (.next (by decide) (by decide) (by decide) (hpiece 4 (by decide) (by decide)) (.enough 6))
  exact .inr (.inr (.inr ⟨by decide, _, hpieces, .inr ⟨by decide, by decide⟩⟩))

/-- Two free frames between used ones: the first pass counts the second of them twice,
and the second pass panics. -/
theorem counted_twice_panics :
    ¬ ∀ (bmp : MemoryBmp) (c : Compiler) (nFrames : Nat) (list : List (Option Element))
      (preallocated : Bool), 0 < nFrames → nFrames < wordModulus →
        Meets bmp c nFrames list (constrainedGetFrames bmp c nFrames list preallocated) := by
  intro hclaim
  have hmeets := hclaim (smallBmp [0, 3, 4, 5, 6, 7]) unalignedConstraints 3 [] true (by decide)
    (by decide)
  exact hmeets

end Zambesii.ConstrainedGetFrames
