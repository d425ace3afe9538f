import Zambesii.MemoryStream
import Zambesii.Unmap

/-!
`MemoryStream::memFree` on the page tables themselves, with the frames that it gives back to
the physical memory manager and the pages that it gives back to the address space.
-/

namespace Zambesii.MemFree

open AllocTable (Table)
open KernelTypes List PageAttributes Unmap
open VaddrSpaceStream (stackCachePush)
open WalkerPageRanger

structure Stream where
  allocCache : List Nat
  allocTable : Table
  walker : Walker

/-- What `memFree` asks for: `memoryTribPmm::releaseFrames` with an address and a number of
frames, and `VaddrSpaceStream::releasePages` with an address and a number of pages. -/
structure Requests where
  releaseFrames : List (Nat × Nat)
  releasePages : List (Nat × Nat)
deriving DecidableEq

/-- Where `memFree` ends: `allocTable` is `none` when the removal of the entry runs over the
end of a block. -/
structure Freed where
  requests : Requests
  allocCache : List Nat
  allocTable : Option Table
  walker : Walker

/-- The loop of `memFree`, with `remaining` turns left. `paddr` is the variable that `unmap`
writes to. -/
def unmapAndRelease (nPages : Nat) :
    (remaining tracker paddr : Nat) → Walker → List (Nat × Nat) × Walker
  | 0, _, _, w => ([], w)
  | remaining + 1, tracker, paddr, w =>
    let u := unmap w tracker 1
    let paddr := (u.found.written.map Prod.fst).getD paddr
    let (released, last) := unmapAndRelease nPages remaining
      ((tracker + pagingBaseSize) % wordModulus) paddr u.walker
    (if u.found.status = .backed then (paddr, nPages) :: released else released, last)

def memFree (s : Stream) (vaddr : Nat) : Freed :=
  if vaddr = 0 then ⟨⟨[], []⟩, s.allocCache, some s.allocTable, s.walker⟩
  else
    match AllocTable.lookup s.allocTable vaddr with
    | .error _ => ⟨⟨[], []⟩, s.allocCache, some s.allocTable, s.walker⟩
    | .ok (nPages, _) =>
      match stackCachePush s.allocCache nPages vaddr with
      | some allocCache =>
        ⟨⟨[], []⟩, allocCache, some s.allocTable,
          (SetAttributes.setAttributes s.walker vaddr nPages .clearPresent 0).walker⟩
      | none =>
        let (released, walker) := unmapAndRelease nPages nPages vaddr 0 s.walker
        ⟨⟨released, [(vaddr, nPages)]⟩, s.allocCache,
          AllocTable.removeEntry s.allocTable vaddr, walker⟩

/-- The frames that a call of `releaseFrames` releases, as the loop of
`MemoryBmp::releaseFrames` counts them. -/
def framesOf (request : Nat × Nat) : Multiset Nat :=
  ((List.range request.2).map fun i => request.1 / pagingBaseSize + i : List Nat)

def releasedFrames (requests : List (Nat × Nat)) : Multiset Nat :=
  (requests.map framesOf).sum

def frameAt (w : Walker) (page : Nat) : Option Nat :=
  if (readEntry (w.pageEntry page)).status = .backed then some (w.pageEntry page / pagingBaseSize)
  else none

def backing (w : Walker) (first nPages : Nat) : Multiset Nat :=
  ((List.range nPages).filterMap fun i => frameAt w (first + i) : List Nat)

/-- A live allocation: recorded in the alloc table, at whole pages that do not wrap. -/
structure Live (s : Stream) (vaddr nPages : Nat) : Prop where
  wellFormed : WellFormed s.walker
  vaddr_ne : vaddr ≠ 0
  aligned : pagingBaseSize ∣ vaddr
  nonempty : 0 < nPages
  no_wrap : vaddr + nPages * pagingBaseSize < wordModulus
  recorded : ∃ attrib, AllocTable.lookup s.allocTable vaddr = .ok (nPages, attrib)

structure FreesExactly (s : Stream) (vaddr nPages : Nat) (freed : Freed) : Prop where
  frames : releasedFrames freed.requests.releaseFrames =
    backing s.walker (vaddr / pagingBaseSize) nPages
  pages : freed.requests.releasePages = [(vaddr, nPages)]
  unmapped : ∀ addr, vaddr ≤ addr → addr < vaddr + nPages * pagingBaseSize →
    (lookup freed.walker addr).1 = { status := .unmapped, written := none }
  others : ∀ addr, addr < wordModulus → Apart s.walker (addr / pagingBaseSize) →
    addr < vaddr ∨ vaddr + nPages * pagingBaseSize ≤ addr →
      (lookup freed.walker addr).1 = (lookup s.walker addr).1

theorem readFirst_status_backed (l1Entry : Nat) :
    (readFirst { status := .unmapped, written := none } l1Entry).status = .backed ↔
      (readEntry l1Entry).status = .backed := by
  have hswitch : ∀ paddr, switchStatus .unmapped paddr ≠ .backed := by
    intro paddr
    unfold switchStatus
    split <;> simp
  have hpage : ∀ paddr, pageStatus paddr ≠ .backed := by
    intro paddr
    unfold pageStatus
    split <;> simp
  unfold readFirst readEntry
  rcases eq_or_ne l1Entry 0 with rfl | hne
  · simp
  · simp only [hne, ne_eq, not_false_eq_true, if_true, if_false]
    cases flagTest (decodeFlags (l1Entry &&& 0xFFF)) pageAttribPresent with
    | true => simp
    | false => simp [hswitch, hpage]

theorem readFirst_written (l1Entry paddr : Nat)
    (hbacked : (readEntry l1Entry).status = .backed) :
    ((readFirst { status := .unmapped, written := none } l1Entry).written.map Prod.fst).getD paddr =
      l1Entry / pagingBaseSize * pagingBaseSize := by
  have hne : l1Entry ≠ 0 := by
    rintro rfl
    simp [readEntry] at hbacked
  unfold readFirst
  rw [if_pos hne]
  simp only [Option.map_some, Option.getD_some, Nat.shiftRight_eq_div_pow, Nat.shiftLeft_eq]
  rfl

structure ClearsPages (w : Walker) (first count : Nat) (last : Walker) : Prop where
  tables : ∃ tables, last = { w with tables := tables }
  entries : ∀ page, Apart w page → last.pageEntry page =
    if first ≤ page ∧ page < first + count then 0 else w.pageEntry page

section

variable {w : Walker} {first count page : Nat} {last : Walker}

variable (h : ClearsPages w first count last)

include h

theorem ClearsPages.apart (hapart : Apart w page) : Apart last page := by
  obtain ⟨tables, rfl⟩ := h.tables
  exact hapart

theorem ClearsPages.wellFormed (hw : WellFormed w) : WellFormed last := by
  obtain ⟨tables, rfl⟩ := h.tables
  exact WellFormed.of_tables hw tables

theorem ClearsPages.lookup_eq {addr : Nat}
    (hw : WellFormed w) (haddr : addr < wordModulus) (hapart : Apart w (addr / pagingBaseSize)) :
    (lookup last addr).1 =
      if first ≤ addr / pagingBaseSize ∧ addr / pagingBaseSize < first + count then
        { status := .unmapped, written := none }
      else (lookup w addr).1 := by
  rw [lookup_apart last (h.wellFormed hw) addr haddr (h.apart hapart),
    lookup_apart w hw addr haddr hapart, h.entries _ hapart]
  split
  · exact readEntry_zero
  · rfl

omit h

theorem page_bounds (hpage : page < windowPage) :
    page * pagingBaseSize / pagingBaseSize = page ∧ page * pagingBaseSize < wordModulus ∧
      page * pagingBaseSize / pagingBaseSize + 1 ≤ pagingNEntries * pagingNEntries := by
  have hdiv : page * pagingBaseSize / pagingBaseSize = page := Nat.mul_div_cancel _ (by decide)
  refine ⟨hdiv, ?_, ?_⟩
  · simp only [windowPage, pagingNEntries, pagingBaseSize, wordModulus] at *
    omega
  · simp only [windowPage, pagingNEntries] at *
    omega

theorem unmap_clearsPage (hw : WellFormed w) (hpage : page < windowPage) :
    ClearsPages w page 1 (unmap w (page * pagingBaseSize) 1).walker := by
  obtain ⟨hdiv, hvaddr, hend⟩ := page_bounds hpage
  have hclears := unmap_clears w hw (page * pagingBaseSize) 1 hvaddr Nat.one_pos hend
  rw [hdiv, Nat.sub_self, Nat.add_zero, Nat.add_sub_cancel_left] at hclears
  refine ⟨hclears.walker, ?_⟩
  intro other hapart
  rw [hclears.pages other hapart]
  rcases eq_or_ne other page with rfl | hne
  · rw [if_pos ⟨le_rfl, Nat.lt_succ_self _, le_rfl, le_rfl⟩, if_pos ⟨le_rfl, Nat.lt_succ_self _⟩]
  · rw [if_neg fun h => hne (Nat.le_antisymm h.2.2.2 h.2.2.1), if_neg (by omega)]

theorem unmap_page_found (hw : WellFormed w) (hpage : page < windowPage) :
    (unmap w (page * pagingBaseSize) 1).found =
      readFirst { status := .unmapped, written := none } (w.pageEntry page) := by
  obtain ⟨hdiv, hvaddr, hend⟩ := page_bounds hpage
  have hfound := unmap_found w hw (page * pagingBaseSize) 1 hvaddr one_pos hend
  rw [hdiv] at hfound
  exact hfound (Apart.of_lt hpage)

theorem unmapAndRelease_spec (nPages remaining page paddr : Nat) (hw : WellFormed w)
    (hend : page + remaining ≤ windowPage) :
    (unmapAndRelease nPages remaining (page * pagingBaseSize) paddr w).1 =
        ((List.range remaining).filterMap fun i => frameAt w (page + i)).map
          (fun frame => (frame * pagingBaseSize, nPages)) ∧
      ClearsPages w page remaining
        (unmapAndRelease nPages remaining (page * pagingBaseSize) paddr w).2 := by
  induction remaining generalizing page paddr w with
  | zero =>
    refine ⟨rfl, ⟨w.tables, rfl⟩, ?_⟩
    intro other _
    rw [if_neg (by omega)]
    rfl
  | succ remaining ih =>
    have hclears := unmap_clearsPage hw (by omega : page < windowPage)
    have hfound := unmap_page_found hw (by omega : page < windowPage)
    have htracker : (page * pagingBaseSize + pagingBaseSize) % wordModulus =
        (page + 1) * pagingBaseSize := by
      rw [add_mul, one_mul]
      apply Nat.mod_eq_of_lt
      simp only [windowPage, pagingNEntries, pagingBaseSize, wordModulus] at *
      omega
    obtain ⟨hreleased, hlast⟩ := ih (page + 1)
      (((unmap w (page * pagingBaseSize) 1).found.written.map Prod.fst).getD paddr)
      (hclears.wellFormed hw) (by omega)
    rw [← htracker] at hreleased hlast
    -- The pages after this one have the entries they had.
    have hframes : (range remaining).filterMap
        (fun i => frameAt (unmap w (page * pagingBaseSize) 1).walker (page + 1 + i)) =
          (range remaining).filterMap fun i => frameAt w (page + (i + 1)) := by
      refine filterMap_congr ?_
      intro i hi
      rw [mem_range] at hi
      have hentry := hclears.entries (page + 1 + i) (Apart.of_lt (by omega))
      rw [if_neg (by omega)] at hentry
      rw [frameAt, hentry, add_right_comm, add_assoc]
      rfl
    have hrange : (range (remaining + 1)).filterMap (fun i => frameAt w (page + i)) =
        (frameAt w page).toList ++
          (range remaining).filterMap fun i => frameAt w (page + (i + 1)) := by
      rw [range_succ_eq_map, filterMap_cons, filterMap_map]
      cases frameAt w page with
      | none => simp [Function.comp_def]
      | some frame => simp [Function.comp_def]
    rw [hframes] at hreleased
    rw [hrange, map_append]
    constructor
    · simp only [unmapAndRelease, hreleased]
      rcases em ((readEntry (w.pageEntry page)).status = .backed) with hbacked | hbacked
      · have hstatus := (readFirst_status_backed (w.pageEntry page)).mpr hbacked
        rw [hfound, if_pos hstatus, readFirst_written _ _ hbacked, frameAt, if_pos hbacked]
        rfl
      · have hstatus := mt (readFirst_status_backed (w.pageEntry page)).mp hbacked
        rw [hfound, if_neg hstatus, frameAt, if_neg hbacked]
        rfl
    · obtain ⟨tables, htables⟩ := hclears.tables
      obtain ⟨tables', htables'⟩ := hlast.tables
      refine ⟨⟨tables', htables'.trans (by rw [htables])⟩, ?_⟩
      intro other hapart
      refine (hlast.entries other (hclears.apart hapart)).trans ?_
      rw [hclears.entries other hapart]
      split_ifs <;> first | rfl | omega

end

@[simp] theorem releasedFrames_nil : releasedFrames [] = 0 := rfl

@[simp] theorem releasedFrames_cons (request : Nat × Nat) (requests : List (Nat × Nat)) :
    releasedFrames (request :: requests) = framesOf request + releasedFrames requests := by
  simp [releasedFrames]

theorem card_framesOf (request : Nat × Nat) : (framesOf request).card = request.2 := by
  simp [framesOf]

theorem releasedFrames_eq_iff (frames : List Nat) (nPages : Nat) :
    releasedFrames (frames.map fun frame => (frame * pagingBaseSize, nPages)) =
        (frames : Multiset Nat) ↔ nPages = 1 ∨ frames = [] := by
  have hcard : (releasedFrames (frames.map fun frame => (frame * pagingBaseSize, nPages))).card =
      frames.length * nPages := by
    induction frames with
    | nil => simp
    | cons frame frames ih =>
      rw [map_cons, releasedFrames_cons, Multiset.card_add, card_framesOf, ih,
        length_cons, add_mul, one_mul, add_comm]
  constructor
  · intro heq
    rw [heq, Multiset.coe_card] at hcard
    rcases eq_zero_or_pos frames.length with hzero | hpos
    · exact .inr (length_eq_zero_iff.mp hzero)
    · left
      have hone : frames.length * nPages = frames.length * 1 := by omega
      exact Nat.eq_of_mul_eq_mul_left hpos hone
  · rintro (rfl | rfl)
    · clear hcard
      induction frames with
      | nil => rfl
      | cons frame frames ih =>
        have hframe : framesOf (frame * pagingBaseSize, 1) = {frame} := by
          simp [framesOf, pagingBaseSize]
        rw [map_cons, releasedFrames_cons, ih, hframe, Multiset.singleton_add,
          Multiset.cons_coe]
    · rfl

section

variable {s : Stream} {vaddr nPages : Nat}

variable (h : Live s vaddr nPages)

include h

theorem Live.pages : vaddr = vaddr / pagingBaseSize * pagingBaseSize ∧
      vaddr / pagingBaseSize + nPages ≤ windowPage := by
  obtain ⟨page, rfl⟩ := h.aligned
  have hwrap := h.no_wrap
  have hdiv : pagingBaseSize * page / pagingBaseSize = page := Nat.mul_div_cancel_left _ (by decide)
  rw [hdiv]
  refine ⟨mul_comm _ _, ?_⟩
  simp only [windowPage, pagingNEntries, pagingBaseSize, wordModulus] at *
  omega

theorem Live.mem_iff (addr : Nat) : (vaddr ≤ addr ∧ addr < vaddr + nPages * pagingBaseSize) ↔
      vaddr / pagingBaseSize ≤ addr / pagingBaseSize ∧
        addr / pagingBaseSize < vaddr / pagingBaseSize + nPages := by
  obtain ⟨page, rfl⟩ := h.aligned
  simp only [pagingBaseSize]
  omega

theorem Live.lookup_eq {addr : Nat} (hge : vaddr ≤ addr)
    (hlt : addr < vaddr + nPages * pagingBaseSize) :
    (lookup s.walker addr).1 = readEntry (s.walker.pageEntry (addr / pagingBaseSize)) := by
  have hpage := ((h.mem_iff addr).mp ⟨hge, hlt⟩).2
  have hend := h.pages.2
  exact lookup_apart s.walker h.wellFormed addr (hlt.trans h.no_wrap) (Apart.of_lt (by omega))

theorem Live.filterMap_frameAt_eq_nil_iff :
    (List.range nPages).filterMap (fun i => frameAt s.walker (vaddr / pagingBaseSize + i)) = [] ↔
      ∀ addr, vaddr ≤ addr → addr < vaddr + nPages * pagingBaseSize →
        (lookup s.walker addr).1.status ≠ .backed := by
  rw [filterMap_eq_nil_iff]
  constructor
  · intro hnone addr hge hlt hbacked
    have hpage := (h.mem_iff addr).mp ⟨hge, hlt⟩
    have hframe := hnone (addr / pagingBaseSize - vaddr / pagingBaseSize)
      (mem_range.mpr (by omega))
    rw [h.lookup_eq hge hlt] at hbacked
    rw [Nat.add_sub_cancel' hpage.1, frameAt, if_pos hbacked] at hframe
    exact Option.some_ne_none _ hframe
  · intro hbacked i hi
    rw [mem_range] at hi
    have hdiv : (vaddr + i * pagingBaseSize) / pagingBaseSize = vaddr / pagingBaseSize + i :=
      Nat.add_mul_div_right _ _ (by decide)
    have hlt : vaddr + i * pagingBaseSize < vaddr + nPages * pagingBaseSize :=
      Nat.add_lt_add_left (Nat.mul_lt_mul_of_pos_right hi (by decide)) _
    have hstatus := hbacked (vaddr + i * pagingBaseSize) (Nat.le_add_right _ _) hlt
    rw [h.lookup_eq (Nat.le_add_right _ _) hlt, hdiv] at hstatus
    exact if_neg hstatus

theorem Live.memFree_eq
    (hpush : stackCachePush s.allocCache nPages vaddr = none) : memFree s vaddr =
      ⟨⟨(unmapAndRelease nPages nPages vaddr 0 s.walker).1, [(vaddr, nPages)]⟩, s.allocCache,
        AllocTable.removeEntry s.allocTable vaddr,
        (unmapAndRelease nPages nPages vaddr 0 s.walker).2⟩ := by
  obtain ⟨attrib, hrecorded⟩ := h.recorded
  rw [memFree, if_neg h.vaddr_ne, hrecorded]
  dsimp only
  rw [hpush]

omit h

/-- An allocation that does not go to the alloc cache is freed exactly, unless it has more
than one page and one of them has a frame. -/
theorem memFree_exact_iff (s : Stream) (vaddr nPages : Nat) (h : Live s vaddr nPages)
    (hpush : stackCachePush s.allocCache nPages vaddr = none) :
    FreesExactly s vaddr nPages (memFree s vaddr) ↔
      nPages = 1 ∨ ∀ addr, vaddr ≤ addr → addr < vaddr + nPages * pagingBaseSize →
        (lookup s.walker addr).1.status ≠ .backed := by
  obtain ⟨hvaddr, hend⟩ := h.pages
  have hspec := unmapAndRelease_spec nPages nPages (vaddr / pagingBaseSize) 0 h.wellFormed hend
  rw [← hvaddr] at hspec
  obtain ⟨hreleased, hclears⟩ := hspec
  have hframes : (releasedFrames (memFree s vaddr).requests.releaseFrames =
      backing s.walker (vaddr / pagingBaseSize) nPages) ↔ nPages = 1 ∨
        ∀ addr, vaddr ≤ addr → addr < vaddr + nPages * pagingBaseSize →
          (lookup s.walker addr).1.status ≠ .backed := by
    rw [h.memFree_eq hpush, hreleased, backing, releasedFrames_eq_iff]
    exact or_congr_right h.filterMap_frameAt_eq_nil_iff
  rw [← hframes]
  constructor
  · intro hexact
    exact hexact.frames
  · intro heq
    refine ⟨heq, by rw [h.memFree_eq hpush], ?_, ?_⟩
    · intro addr hge hlt
      have hpage := (h.mem_iff addr).mp ⟨hge, hlt⟩
      rw [h.memFree_eq hpush, hclears.lookup_eq h.wellFormed (hlt.trans h.no_wrap)
        (Apart.of_lt (by omega)), if_pos hpage]
    · intro addr haddr hapart hout
      rw [h.memFree_eq hpush, hclears.lookup_eq h.wellFormed haddr hapart, if_neg]
      rw [← h.mem_iff]
      omega

end

def sampleBacked : Walker :=
  (SetAttributes.sampleTables.writeTable 4 1022 0x100003).writeTable 4 1023 0x200003

theorem sampleBacked_wellFormed : WellFormed sampleBacked :=
  (SetAttributes.sampleTables_wellFormed.writeTable 4 1022 0x100003).writeTable 4 1023 0x200003

/-- A stream with an allocation of `nPages` pages at 0x7FE000. -/
def sampleStream (nPages : Nat) (allocCache : List Nat) : Stream where
  allocCache := allocCache
  allocTable := [⟨AllocTable.pageblockNEntries - 1, ⟨0x7FE000, AllocTable.packed nPages 0⟩ ::
      List.replicate (AllocTable.pageblockNEntries - 1) ⟨0, 0⟩⟩]
  walker := sampleBacked

theorem memFree_exact_onePage : FreesExactly (sampleStream 1 (List.replicate 1024 0)) 0x7FE000 1
      (memFree (sampleStream 1 (List.replicate 1024 0)) 0x7FE000) :=
  (memFree_exact_iff _ _ _ ⟨sampleBacked_wellFormed, by decide, by decide, by decide, by decide,
    0, rfl⟩ (by decide +kernel)).mpr (.inl rfl)

/-- Two pages whose frames do not follow each other: the frames behind them are released
as well. -/
theorem memFree_twoPages_not_exact :
    Live (sampleStream 2 []) 0x7FE000 2 ∧ stackCachePush [] 2 0x7FE000 = none ∧
      backing sampleBacked 0x7FE 2 = {0x100, 0x200} ∧
      (memFree (sampleStream 2 []) 0x7FE000).requests.releaseFrames =
        [(0x100000, 2), (0x200000, 2)] ∧
      ¬ FreesExactly (sampleStream 2 []) 0x7FE000 2 (memFree (sampleStream 2 []) 0x7FE000) := by
  have hreleased : (memFree (sampleStream 2 []) 0x7FE000).requests.releaseFrames =
      [(0x100000, 2), (0x200000, 2)] := by
    decide +kernel
  have hbacking : backing sampleBacked 0x7FE 2 = {0x100, 0x200} := by decide +kernel
  refine ⟨⟨sampleBacked_wellFormed, by decide, by decide, by decide, by decide, 0, rfl⟩, by decide,
    hbacking, hreleased, ?_⟩
  intro hexact
  have hframes := hexact.frames
  have hcards := congrArg Multiset.card (hframes.trans hbacking)
  exact absurd hcards (by decide)

end Zambesii.MemFree
