import Zambesii.ScatterGatherElements
import Zambesii.Unmap

/-!
`ScatterGatherList::map`, `unmap` and `remap`: the frames of a list are mapped into the address
space of the caller one element after the other, and the mapping is recorded in the list.
-/

namespace Zambesii.ScatterGatherMap

open KernelTypes List PageAttributes WalkerPageRanger
open PmemInit (bytesToPages)
open ScatterGatherElements (Element framesOf getNFrames newElement secondPage)
open Unmap (unmap unmap_pageEntry unmap_clears)

/-- A range of whole pages below those of the window; there is none at `NULL`. -/
structure PageRange where
  vaddr : Nat
  nPages : Nat
  nonnull : vaddr = 0 → nPages = 0
  aligned : vaddr % pagingBaseSize = 0
  below : vaddr + nPages * pagingBaseSize ≤ 0xFFFFE000

namespace PageRange

theorem null_below : 0 + 0 * pagingBaseSize ≤ 0xFFFFE000 := by decide

def null : PageRange :=
  ⟨0, 0, fun _ => rfl, Nat.zero_mod pagingBaseSize, null_below⟩

def first (range : PageRange) : Nat :=
  range.vaddr / pagingBaseSize

def Contains (range : PageRange) (page : Nat) : Prop :=
  range.first ≤ page ∧ page < range.first + range.nPages

instance (range : PageRange) (page : Nat) : Decidable (range.Contains page) :=
  inferInstanceAs (Decidable (_ ∧ _))

end PageRange

/-- What `getPages` returns when it is asked for `nPages` pages. -/
abbrev LooseRange (nPages : Nat) :=
  { range : PageRange // range.vaddr ≠ 0 ∧ range.nPages = nPages }

structure Space where
  walker : Walker
  mapping : PageRange

inductive MapError
  | success
  | memoryNomemVirtual
  | memoryVirtualPagemap
deriving DecidableEq

/-- The end of a call, with the ranges that it got from `getPages` and gave to
`releasePages`. -/
structure Outcome where
  ret : MapError
  space : Space
  obtained : List PageRange
  released : List PageRange

def wprMapIncFlags (kernelDomain : Bool) : Nat :=
  pageAttribPresent ||| pageAttribWrite ||| if kernelDomain then pageAttribSupervisor else 0

/-- How the loop of `map` ends; `panicked` is one of its two assertions. -/
inductive LoopEnd
  | done (w : Walker)
  | failed (w : Walker)
  | panicked

def mapElements (flags nFrames : Nat) : List Element → Nat → Nat → Walker → LoopEnd
  | [], _, _, w => .done w
  | element :: rest, currVaddr, nFramesMapped, w =>
    let nPagesInBlock := bytesToPages element.blockLength
    let status := mapInc w currVaddr element.blockBusaddr.paddr nPagesInBlock flags
    if status.1 < nPagesInBlock then .failed status.2
    else
      let currVaddr := (currVaddr + element.blockLength) % wordModulus
      if currVaddr &&& 0xFFF ≠ 0 then .panicked
      else
        let nFramesMapped := (nFramesMapped + nPagesInBlock) % wordModulus
        if nFrames < nFramesMapped then .panicked
        else mapElements flags nFrames rest currVaddr nFramesMapped status.2

/-- `ScatterGatherList::map`. `getPages` is asked for `getNFrames` pages; `none` is a panic. -/
def map (list : List Element) (kernelDomain : Bool) (s : Space)
    (getPages : (nPages : Nat) → Option (LooseRange nPages)) : Option Outcome :=
  match getPages (getNFrames list) with
  | none => some ⟨.memoryNomemVirtual, s, [], []⟩
  | some ⟨range, _⟩ =>
    match mapElements (wprMapIncFlags kernelDomain) (getNFrames list) list range.vaddr 0
      s.walker with
    | .panicked => none
    | .done w => some ⟨.success, ⟨w, range⟩, [range], []⟩
    | .failed w =>
      some ⟨.memoryVirtualPagemap, ⟨(unmap w range.vaddr (getNFrames list)).walker, s.mapping⟩,
        [range], [range]⟩

/-- `ScatterGatherList::unmap`, with the range that it releases. -/
def unmapList (s : Space) : Space × List PageRange :=
  if s.mapping.vaddr = 0 ∨ s.mapping.nPages = 0 then (s, [])
  else
    (⟨(unmap s.walker s.mapping.vaddr s.mapping.nPages).walker, .null⟩, [s.mapping])

def remap (list : List Element) (kernelDomain : Bool) (s : Space)
    (getPages : (nPages : Nat) → Option (LooseRange nPages)) : Option Outcome :=
  let unmapped := unmapList s
  (map list kernelDomain unmapped.1 getPages).map fun outcome =>
    { outcome with released := unmapped.2 ++ outcome.released }

theorem getElem?_frames {element : Element} {i frame : Nat} (h : element.frames[i]? = some frame) :
    i < bytesToPages element.blockLength ∧
      frame = element.blockBusaddr.paddr / pagingBaseSize + i := by
  unfold Element.frames ScatterGatherElements.run at h
  obtain ⟨hlt, heq⟩ := List.getElem?_eq_some_iff.1 h
  rw [List.length_range'] at hlt
  rw [List.getElem_range', one_mul] at heq
  exact ⟨hlt, heq.symm⟩

/-- What the loop does to the pages: those from `first` on get the frames in order, and the
others are as they were. -/
structure Maps (flags first : Nat) (frames : List Nat) (w w' : Walker) : Prop where
  wellFormed : WellFormed w'
  written : ∀ i frame, frames[i]? = some frame → w'.pageEntry (first + i) =
    frame * pagingBaseSize % wordModulus ||| encodeFlags flags
  kept : ∀ page, page < windowPage → page < first ∨ first + frames.length ≤ page →
    w'.pageEntry page = w.pageEntry page

structure Stops (first count : Nat) (w w' : Walker) : Prop where
  wellFormed : WellFormed w'
  kept : ∀ page, page < windowPage → page < first ∨ first + count ≤ page →
    w'.pageEntry page = w.pageEntry page

theorem length_frames (element : Element) :
    element.frames.length = bytesToPages element.blockLength := by
  simp [Element.frames, ScatterGatherElements.run]

theorem mapInc_element (element : Element) {flags first : Nat} {w : Walker} (hw : WellFormed w)
    (hend : (first + bytesToPages element.blockLength) * pagingBaseSize ≤ 0xFFFFE000) :
    (¬ (mapInc w (first * pagingBaseSize) element.blockBusaddr.paddr
        (bytesToPages element.blockLength) flags).1 < bytesToPages element.blockLength →
      Maps flags first element.frames w (mapInc w (first * pagingBaseSize)
        element.blockBusaddr.paddr (bytesToPages element.blockLength) flags).2) ∧
      Stops first (bytesToPages element.blockLength) w (mapInc w (first * pagingBaseSize)
        element.blockBusaddr.paddr (bytesToPages element.blockLength) flags).2 := by
  have hfirst : first * pagingBaseSize / pagingBaseSize = first :=
    Nat.mul_div_cancel _ (by decide)
  obtain ⟨hle, -, hwf, hpages⟩ := mapInc_spec w hw (first * pagingBaseSize)
    element.blockBusaddr.paddr (bytesToPages element.blockLength) flags
    (Nat.mul_mod_left _ _) (by rw [← add_mul]; exact hend) element.blockBusaddr.paddr_lt
  rw [hfirst] at hpages
  generalize mapInc w (first * pagingBaseSize) element.blockBusaddr.paddr
    (bytesToPages element.blockLength) flags = result at hle hwf hpages ⊢
  have hkept : ∀ page, page < windowPage →
      page < first ∨ first + bytesToPages element.blockLength ≤ page →
        result.2.pageEntry page = w.pageEntry page := by
    intro page hpage hout
    rw [hpages page hpage, mapped, if_neg (by omega)]
  refine ⟨fun hall => ⟨hwf, ?_, ?_⟩, hwf, hkept⟩
  · intro i frame hi
    obtain ⟨hlt, rfl⟩ := getElem?_frames hi
    have hpage : first + i < windowPage := by
      simp only [windowPage, pagingNEntries, pagingBaseSize] at hend ⊢
      omega
    have haddr := element.blockBusaddr.paddr_eq
    rw [hpages _ hpage, mapped, if_pos (by omega), Nat.add_sub_cancel_left, Nat.add_mul, haddr]
  · intro page hpage hout
    rw [length_frames] at hout
    exact hkept page hpage hout

theorem framesOf_cons (element : Element) (rest : List Element) :
    framesOf (element :: rest) = element.frames ++ framesOf rest :=
  flatMap_cons

theorem Maps.cons {flags first : Nat} {element : Element} {rest : List Element}
    {w w₁ w₂ : Walker} (h : Maps flags first element.frames w w₁)
    (hrest : Maps flags (first + bytesToPages element.blockLength) (framesOf rest) w₁ w₂)
    (hend : first + bytesToPages element.blockLength ≤ windowPage) :
    Maps flags first (framesOf (element :: rest)) w w₂ := by
  rw [framesOf_cons]
  refine ⟨hrest.wellFormed, ?_, ?_⟩
  · intro i frame hi
    rcases lt_or_ge i (bytesToPages element.blockLength) with hlt | hge
    · rw [getElem?_append_left (by rw [length_frames]; exact hlt)] at hi
      rw [hrest.kept _ (by omega) (by omega), h.written i frame hi]
    · rw [getElem?_append_right (by rw [length_frames]; exact hge), length_frames] at hi
      have hwritten := hrest.written _ frame hi
      rwa [show first + bytesToPages element.blockLength +
        (i - bytesToPages element.blockLength) = first + i by omega] at hwritten
  · intro page hpage hout
    rw [length_append, length_frames] at hout
    rw [hrest.kept page hpage (by omega), h.kept page hpage (by rw [length_frames]; omega)]

theorem mapElements_spec (flags nFrames : Nat) (list : List Element) (first nFramesMapped : Nat)
    (w : Walker) (hw : WellFormed w)
    (hpages : ∀ element ∈ list, element.blockLength % pagingBaseSize = 0)
    (hcount : nFramesMapped + (framesOf list).length ≤ nFrames) (hlt : nFrames < wordModulus)
    (hend : (first + (framesOf list).length) * pagingBaseSize ≤ 0xFFFFE000) :
    (∃ w', mapElements flags nFrames list (first * pagingBaseSize) nFramesMapped w = .done w' ∧
        Maps flags first (framesOf list) w w') ∨
      ∃ w', mapElements flags nFrames list (first * pagingBaseSize) nFramesMapped w = .failed w' ∧
        Stops first (framesOf list).length w w' := by
  induction list generalizing first nFramesMapped w with
  | nil =>
    refine .inl ⟨w, rfl, hw, ?_, fun _ _ _ => rfl⟩
    intro i frame hi
    cases hi
  | cons element rest ih =>
    rw [framesOf_cons, length_append, length_frames] at hcount hend
    have hblock := hpages element mem_cons_self
    have hbytes : element.blockLength = bytesToPages element.blockLength * pagingBaseSize := by
      unfold bytesToPages
      rw [if_neg (not_not.2 hblock), Nat.add_zero,
        Nat.div_mul_cancel (Nat.dvd_of_mod_eq_zero hblock)]
    obtain ⟨hmaps, hstops⟩ := @mapInc_element element flags first w hw
      (Nat.le_trans (Nat.mul_le_mul_right _ (by omega)) hend)
    have hnext : (first * pagingBaseSize + element.blockLength) % wordModulus =
        (first + bytesToPages element.blockLength) * pagingBaseSize := by
      rw [Nat.add_mul, ← hbytes]
      apply Nat.mod_eq_of_lt
      simp only [pagingBaseSize, wordModulus] at hend hbytes ⊢
      omega
    have haligned :
        (first + bytesToPages element.blockLength) * pagingBaseSize &&& 0xFFF = 0 := by
      show _ &&& (2 ^ 12 - 1) = 0
      rw [Nat.and_two_pow_sub_one_eq_mod]
      exact Nat.mul_mod_left _ _
    have hmapped : (nFramesMapped + bytesToPages element.blockLength) % wordModulus =
        nFramesMapped + bytesToPages element.blockLength := Nat.mod_eq_of_lt (by omega)
    rw [mapElements]
    rw [hnext, hmapped, if_neg (not_not.2 haligned),
      if_neg (by omega : ¬ nFrames < nFramesMapped + bytesToPages element.blockLength)]
    split_ifs with hstatus
    · refine .inr ⟨_, rfl, hstops.wellFormed, ?_⟩
      intro page hpage hout
      rw [framesOf_cons, length_append, length_frames] at hout
      exact hstops.kept page hpage (by omega)
    have hfirst := hmaps hstatus
    have hwindow : first + bytesToPages element.blockLength ≤ windowPage := by
      simp only [windowPage, pagingNEntries, pagingBaseSize] at hend ⊢
      omega
    rcases ih (first + bytesToPages element.blockLength)
      (nFramesMapped + bytesToPages element.blockLength) _ hfirst.wellFormed
      (fun element hmem => hpages element (mem_cons_of_mem _ hmem)) (by omega)
      (by rw [Nat.add_assoc]; exact hend) with ⟨w', hdone, hrest⟩ | ⟨w', hfailed, hrest⟩
    · exact .inl ⟨w', hdone, hfirst.cons hrest hwindow⟩
    refine .inr ⟨w', hfailed, hrest.wellFormed, ?_⟩
    intro page hpage hout
    rw [framesOf_cons, length_append, length_frames] at hout
    rw [hrest.kept page hpage (by omega),
      hfirst.kept page hpage (by rw [length_frames]; omega)]

section

variable {list : List Element} {kernelDomain : Bool} {s : Space}

/-- The range is mapped to the frames of the list, page by page, and every other page is as it
was before. -/
structure Exactly (list : List Element) (flags : Nat) (range : PageRange) (before : Nat → Nat)
    (w : Walker) : Prop where
  nPages : range.nPages = getNFrames list
  counted : (framesOf list).length = getNFrames list
  mapped : ∀ i frame, (framesOf list)[i]? = some frame → w.pageEntry (range.first + i) =
    frame * pagingBaseSize % wordModulus ||| encodeFlags flags
  others : ∀ page, page < windowPage → ¬ range.Contains page → w.pageEntry page = before page

/-- What is asked of `map`: the recorded mapping is that of the list, or nothing of it is left. -/
structure MapRight (list : List Element) (kernelDomain : Bool) (s : Space) (outcome : Outcome) :
    Prop where
  success : outcome.ret = .success → outcome.obtained = [outcome.space.mapping] ∧
    outcome.released = [] ∧ Exactly list (wprMapIncFlags kernelDomain) outcome.space.mapping
      s.walker.pageEntry outcome.space.walker
  failed : outcome.ret ≠ .success → outcome.released = outcome.obtained ∧
    outcome.space.mapping = s.mapping ∧ (∀ page, page < windowPage →
      (∀ range ∈ outcome.obtained, ¬ range.Contains page) →
        outcome.space.walker.pageEntry page = s.walker.pageEntry page) ∧
      ∀ range ∈ outcome.obtained, ∀ page, range.Contains page →
        outcome.space.walker.pageEntry page = 0

def withoutMapping (s : Space) : Nat → Nat :=
  fun page => if s.mapping.Contains page then 0 else s.walker.pageEntry page

def recordedRanges (s : Space) : List PageRange :=
  if s.mapping.nPages = 0 then [] else [s.mapping]

/-- What is asked of `remap`: the old mapping is gone and its range released, and the new one is
recorded and is that of the list, or there is none. -/
structure RemapRight (list : List Element) (kernelDomain : Bool) (s : Space)
    (outcome : Outcome) : Prop where
  success : outcome.ret = .success → outcome.obtained = [outcome.space.mapping] ∧
    outcome.released = recordedRanges s ∧ Exactly list (wprMapIncFlags kernelDomain)
      outcome.space.mapping (withoutMapping s) outcome.space.walker
  failed : outcome.ret ≠ .success →
    outcome.released = recordedRanges s ++ outcome.obtained ∧
    outcome.space.mapping.nPages = 0 ∧ (∀ page, page < windowPage →
      (∀ range ∈ outcome.obtained, ¬ range.Contains page) →
        outcome.space.walker.pageEntry page = withoutMapping s page) ∧
      ∀ range ∈ outcome.obtained, ∀ page, range.Contains page →
        outcome.space.walker.pageEntry page = 0

namespace PageRange

variable (range : PageRange)

theorem vaddr_eq : range.first * pagingBaseSize = range.vaddr :=
  Nat.div_mul_cancel (Nat.dvd_of_mod_eq_zero range.aligned)

theorem below_first : (range.first + range.nPages) * pagingBaseSize ≤ 0xFFFFE000 := by
  rw [add_mul, range.vaddr_eq]
  exact range.below

theorem lt_windowPage {page : Nat} (h : range.Contains page) : page < windowPage := by
  have hbelow := range.below_first
  have hend := h.2
  simp only [windowPage, pagingNEntries, pagingBaseSize] at hbelow ⊢
  omega

end PageRange

theorem unmap_range {w : Walker} (hw : WellFormed w) (range : PageRange) :
    WellFormed (unmap w range.vaddr range.nPages).walker ∧ ∀ page, page < windowPage →
      (unmap w range.vaddr range.nPages).walker.pageEntry page =
        if range.Contains page then 0 else w.pageEntry page := by
  rcases eq_zero_or_pos range.nPages with hzero | hpos
  · have hnothing : (unmap w range.vaddr range.nPages).walker = w := by
      unfold unmap
      rw [if_pos hzero]
    rw [hnothing]
    refine ⟨hw, fun page _ => (if_neg ?_).symm⟩
    rintro ⟨hle, hlt⟩
    omega
  have hbelow := range.below
  have hvaddr : range.vaddr < wordModulus := by
    simp only [pagingBaseSize, wordModulus] at hbelow ⊢
    omega
  have hend : range.vaddr / pagingBaseSize + range.nPages ≤ pagingNEntries * pagingNEntries := by
    simp only [pagingBaseSize, pagingNEntries] at hbelow ⊢
    omega
  obtain ⟨tables, htables⟩ := (unmap_clears w hw range.vaddr range.nPages hvaddr hpos hend).walker
  refine ⟨?_, fun page hpage => unmap_pageEntry w hw _ _ hvaddr hpos hend page hpage⟩
  rw [htables]
  exact Unmap.WellFormed.of_tables hw tables

theorem unmapList_spec (hw : WellFormed s.walker) :
    WellFormed (unmapList s).1.walker ∧ (unmapList s).2 = recordedRanges s ∧
      (unmapList s).1.mapping.nPages = 0 ∧ ∀ page, page < windowPage →
        (unmapList s).1.walker.pageEntry page = withoutMapping s page := by
  unfold unmapList recordedRanges withoutMapping
  rcases eq_zero_or_pos s.mapping.nPages with hzero | hpos
  · rw [if_pos (.inr hzero), if_pos hzero]
    refine ⟨hw, rfl, hzero, fun page _ => (if_neg ?_).symm⟩
    rintro ⟨hle, hlt⟩
    omega
  have hsome : ¬ (s.mapping.vaddr = 0 ∨ s.mapping.nPages = 0) := by
    rintro (hnull | hzero)
    · exact absurd (s.mapping.nonnull hnull) (ne_of_gt hpos)
    · omega
  rw [if_neg hsome, if_neg (ne_of_gt hpos)]
  obtain ⟨hwf, hpages⟩ := unmap_range hw s.mapping
  exact ⟨hwf, rfl, rfl, hpages⟩

theorem map_spec (getPages : (nPages : Nat) → Option (LooseRange nPages)) (hw : WellFormed s.walker)
    (hpages : ∀ element ∈ list, element.blockLength % pagingBaseSize = 0)
    (hcount : (framesOf list).length < wordModulus) :
    ∃ outcome, map list kernelDomain s getPages = some outcome ∧
      MapRight list kernelDomain s outcome := by
  have hcounted : (framesOf list).length = getNFrames list := by
    rw [ScatterGatherElements.getNFrames_eq, Nat.mod_eq_of_lt hcount]
  unfold map
  cases hrange : getPages (getNFrames list) with
  | none =>
    refine ⟨_, rfl, fun h => ?_, fun _ => ⟨rfl, rfl, fun _ _ _ => rfl, ?_⟩⟩
    · cases h
    · intro range hmem
      cases hmem
  | some loose =>
    obtain ⟨range, hnonnull, hnPages⟩ := loose
    have hend := range.below_first
    rw [hnPages, ← hcounted] at hend
    have hloop := mapElements_spec (wprMapIncFlags kernelDomain) (getNFrames list) list
      range.first 0 s.walker hw hpages (by omega) (by omega) hend
    rw [range.vaddr_eq] at hloop
    dsimp only
    have hcontains : ∀ page, ¬ range.Contains page →
        page < range.first ∨ range.first + (framesOf list).length ≤ page := by
      intro page hout
      unfold PageRange.Contains at hout
      omega
    rcases hloop with ⟨w, hdone, hmaps⟩ | ⟨w, hfailed, hstops⟩
    · rw [hdone]
      refine ⟨_, rfl, fun _ => ⟨rfl, rfl, hnPages, hcounted, hmaps.written, ?_⟩, ?_⟩
      · intro page hpage hout
        exact hmaps.kept page hpage (hcontains page hout)
      · intro h
        exact absurd rfl h
    rw [hfailed]
    obtain ⟨-, hcleared⟩ := unmap_range hstops.wellFormed range
    rw [hnPages] at hcleared
    refine ⟨_, rfl, fun h => ?_, fun _ => ⟨rfl, rfl, ?_, ?_⟩⟩
    · cases h
    · intro page hpage hout
      have hnot := hout range mem_cons_self
      rw [hcleared page hpage, if_neg hnot]
      exact hstops.kept page hpage (hcontains page hnot)
    · intro range' hmem page hin
      rw [mem_singleton.1 hmem] at hin
      rw [hcleared page (range.lt_windowPage hin), if_pos hin]

theorem loosePages_nonnull (nPages : Nat) : 0x400000 = 0 → nPages = 0 :=
  fun h => nomatch h

theorem loosePages_aligned : 0x400000 % pagingBaseSize = 0 := by decide

theorem loosePages_below {nPages : Nat} (h : nPages ≤ 1024) :
    0x400000 + nPages * pagingBaseSize ≤ 0xFFFFE000 := by
  simp only [pagingBaseSize]
  omega

theorem loosePages_ne : 0x400000 ≠ 0 := by decide

def pagesFrom (nPages : Nat) (h : nPages ≤ 1024) : PageRange :=
  ⟨0x400000, nPages, loosePages_nonnull nPages, loosePages_aligned, loosePages_below h⟩

def loosePages (nPages : Nat) : Option (LooseRange nPages) :=
  if h : nPages ≤ 1024 then some ⟨pagesFrom nPages h, loosePages_ne, rfl⟩ else none

theorem two_le : 2 ≤ 1024 := by decide

def mappedSpace : Space :=
  ⟨sampleWalker, pagesFrom 2 two_le⟩

theorem fifthPage_lt : 4 * pagingBaseSize < wordModulus := by decide

/-- Two frames, and three others. -/
def twoRuns : List Element :=
  [newElement secondPage 2,
    newElement ⟨4 * pagingBaseSize, fifthPage_lt, Nat.mul_mod_left _ _⟩ 3]

end

end Zambesii.ScatterGatherMap
