import Zambesii.MapIncLocks

/-!
`walkerPageRanger::createSharedMappingTo`: the pages of a range of one address space are mapped
into that of the current process, one by one. The two may be the same address space, or use the
same tables for some of their pages.
-/

namespace Zambesii.SharedMapping

open Function
open KernelTypes PageAttributes WalkerPageRanger MapIncLocks

/-- `srcVaddrSpace`: the address space that is mapped into, the kernel's, or another one with
the given level 0 table. -/
inductive Source
  | own
  | kernel
  | other (entries : Nat → Nat)

def Source.entries (src : Source) (w : Walker) : Nat → Nat :=
  match src with
  | own => w.entries
  | kernel => w.kernelEntries.getD w.entries
  | other entries => entries

def view (w : Walker) (entries : Nat → Nat) : Walker :=
  { w with entries := entries }

def lookupIn (src : Source) (w : Walker) (vaddr : Nat) : Found × Walker :=
  let found := lookup (view w (src.entries w)) vaddr
  (found.1, view found.2 w.entries)

/-- A turn of the loop. `p` is constructed as zero in each one, and the status of `lookup` is
not looked at. -/
def sharePage (src : Source) (w : Walker) (srcVaddr tmpVaddr flags : Nat) : Nat × Walker :=
  let found := lookupIn src w srcVaddr
  let p := (found.1.written.map Prod.fst).getD 0
  mapInc found.2 tmpVaddr p 1 flags

/-- The loop, with `remaining` turns left; `false` is the return from it. -/
def sharePages (src : Source) (flags : Nat) : Nat → Nat → Nat → Walker → Bool × Walker
  | 0, _, _, w => (true, w)
  | remaining + 1, srcVaddr, tmpVaddr, w =>
    let turn := sharePage src w srcVaddr tmpVaddr flags
    if turn.1 < 1 then (false, turn.2)
    else
      sharePages src flags remaining ((srcVaddr + pagingBaseSize) % wordModulus)
        ((tmpVaddr + pagingBaseSize) % wordModulus) turn.2

/-- What a call returns, zero being `NULL`, the tables after it, and the ranges that it got from
`getPages` and gave to `releasePages`. -/
structure Outcome where
  ret : Nat
  walker : Walker
  obtained : List (Nat × Nat)
  released : List (Nat × Nat)

def targetVaddr (placementAddress loose : Nat) : Nat :=
  if placementAddress ≠ 0 then placementAddress else loose

/-- `createSharedMappingTo`. `loose` is what `getPages` returns when it is asked. -/
def createSharedMappingTo (src : Source) (w : Walker)
    (srcVaddr nPages flags placementAddress loose : Nat) : Outcome :=
  if nPages = 0 ∨ srcVaddr = 0 then ⟨0, w, [], []⟩
  else
    let ret := targetVaddr placementAddress loose
    let obtained := if placementAddress ≠ 0 ∨ loose = 0 then [] else [(loose, nPages)]
    if ret = 0 then ⟨0, w, obtained, []⟩
    else
      let pages := sharePages src flags nPages srcVaddr ret w
      if pages.1 then ⟨ret, pages.2, obtained, []⟩
      else
        ⟨0, pages.2, obtained, if placementAddress ≠ 0 then [(ret, nPages)] else []⟩

/-- Both address spaces have proper tables, and a table that they share stands at the same
level 0 index in both. -/
structure Sharing (src : Source) (w : Walker) : Prop where
  wellFormed : WellFormed w
  source : WellFormed (view w (src.entries w))
  alike : ∀ i j, i < pagingNEntries → j < pagingNEntries → w.entries i ≠ 0 →
    src.entries w j ≠ 0 → w.entries i / pagingBaseSize = src.entries w j / pagingBaseSize →
      i = j

def Follows (src : Source) (w : Walker) (index : Nat) : Prop :=
  match src with
  | .own => True
  | .kernel => w.kernelEntries = none ∨ kernelIndex ≤ index
  | .other _ => False

def Sees (src : Source) (w : Walker) (index : Nat) : Prop :=
  if w.entries index = 0 then Follows src w index
  else src.entries w index ≠ 0 ∧
    src.entries w index / pagingBaseSize = w.entries index / pagingBaseSize

/-- The table of the page `page` was made if there was none, and `entry` was written to it; the
window is wherever the turn left it. -/
structure Wrote (src : Source) (w w' : Walker) (page entry : Nat) : Prop where
  written : w'.tables (w'.entries (page / pagingNEntries) / pagingBaseSize)
    (page % pagingNEntries) = entry
  cleared : w.entries (page / pagingNEntries) = 0 → ∀ index, index < pagingNEntries →
    index ≠ page % pagingNEntries →
      w'.tables (w'.entries (page / pagingNEntries) / pagingBaseSize) index = 0
  kept : ∀ frame index, ¬ (frame = w.windowFrame ∧ index = pagingNEntries - 1) →
    frame ≠ w'.entries (page / pagingNEntries) / pagingBaseSize ∨
        w.entries (page / pagingNEntries) ≠ 0 ∧ index ≠ page % pagingNEntries →
      w'.tables frame index = w.tables frame index
  windowFrame : w'.windowFrame = w.windowFrame
  sharing : Sharing src w'
  entry_ne : w'.entries (page / pagingNEntries) ≠ 0
  entries : ∀ i, i ≠ page / pagingNEntries ∨ w.entries i ≠ 0 → w'.entries i = w.entries i
  pageTables : w'.pageTables =
    if w.entries (page / pagingNEntries) = 0 then w.pageTables.tail else w.pageTables
  sees : ∀ i, i < pagingNEntries → (Sees src w' i ↔ Sees src w i)
  source : ∀ i, i ≠ page / pagingNEntries ∨ w.entries i ≠ 0 ∨ ¬ Follows src w i →
    src.entries w' i = src.entries w i

section

variable {src : Source} {w : Walker} {vaddr paddr flags : Nat}

variable (hvaddr : vaddr / pagingBaseSize < windowPage)

include hvaddr

theorem getLevelRanges_one : getLevelRanges (vaddr &&& pagingBaseMaskHigh) 1 =
      ⟨vaddr / pagingBaseSize / pagingNEntries, vaddr / pagingBaseSize / pagingNEntries,
        vaddr / pagingBaseSize % pagingNEntries, vaddr / pagingBaseSize % pagingNEntries⟩ := by
  have hlt : vaddr < wordModulus := by
    simp only [windowPage, pagingNEntries, pagingBaseSize, wordModulus] at *
    omega
  have hend : vaddr / pagingBaseSize * pagingBaseSize + 1 * pagingBaseSize ≤ wordModulus := by
    simp only [windowPage, pagingNEntries, pagingBaseSize, wordModulus] at *
    omega
  rw [and_pagingBaseMaskHigh vaddr hlt, getLevelRanges_eq _ 1 Nat.one_ne_zero hend,
    Nat.mul_div_cancel _ (by decide)]
  rfl

variable {p : Progress}

theorem mapInc_one
    (hshow : showTable ⟨w, paddr, 0, false⟩ (vaddr / pagingBaseSize / pagingNEntries) = some p) :
    mapInc w vaddr paddr 1 flags =
      ((mapEntries (encodeFlags flags) 1 (vaddr / pagingBaseSize % pagingNEntries) p).ret,
        propagate ⟨vaddr / pagingBaseSize / pagingNEntries, vaddr / pagingBaseSize / pagingNEntries,
          vaddr / pagingBaseSize % pagingNEntries, vaddr / pagingBaseSize % pagingNEntries⟩
          (mapEntries (encodeFlags flags) 1 (vaddr / pagingBaseSize % pagingNEntries) p)) := by
  unfold mapInc
  simp [getLevelRanges_one hvaddr, mapTables, hshow]

theorem mapInc_one_none (hentry : w.entries (vaddr / pagingBaseSize / pagingNEntries) = 0)
    (hframes : w.pageTables = []) : (mapInc w vaddr paddr 1 flags).1 = 0 := by
  have hshow := @showTable_empty ⟨w, paddr, 0, false⟩ _ hentry hframes
  unfold mapInc
  simp [getLevelRanges_one hvaddr, mapTables, hshow]

omit hvaddr

theorem propagate_unmodified {range : LevelRanges} (h : p.l0WasModified = false) :
    propagate range p = p.walker := by
  unfold propagate
  cases p.walker.kernelEntries with
  | none => rfl
  | some kernelEntries => exact if_neg fun hyes => by simp [h] at hyes

theorem source_moved (src : Source) (w : Walker) (window : Nat) :
    src.entries (w.setLevel1Modifier window) = src.entries w := by
  cases src <;> rfl

theorem sees_moved (src : Source) (w : Walker) (window index : Nat) :
    Sees src (w.setLevel1Modifier window) index ↔ Sees src w index := by
  cases src <;> exact Iff.rfl

theorem Sharing.moved (h : Sharing src w) (window : Nat) :
    Sharing src (w.setLevel1Modifier window) := by
  refine ⟨h.wellFormed.writeTable _ _ _, ?_, ?_⟩
  · exact h.source.writeTable _ _ _
  · exact h.alike

theorem Wrote.of_moved {w' : Walker} {page entry window : Nat}
    (h : Wrote src (w.setLevel1Modifier window) w' page entry) : Wrote src w w' page entry := by
  refine ⟨h.written, h.cleared, ?_, h.windowFrame, h.sharing, h.entry_ne, h.entries, h.pageTables,
    ?_, ?_⟩
  · intro frame index hwindow hother
    rw [h.kept frame index hwindow hother]
    exact if_neg hwindow
  · intro i hi
    rw [h.sees i hi, sees_moved]
  · exact h.source

theorem mapInc_one_old (hw : Sharing src w) (hvaddr : vaddr / pagingBaseSize < windowPage)
    (hentry : w.entries (vaddr / pagingBaseSize / pagingNEntries) ≠ 0) :
    (mapInc w vaddr paddr 1 flags).1 = 1 ∧
      Wrote src w (mapInc w vaddr paddr 1 flags).2 (vaddr / pagingBaseSize)
        (paddr ||| encodeFlags flags) := by
  let window := ((w.entries (vaddr / pagingBaseSize / pagingNEntries) >>> 12) <<< 12) |||
    (w.level1Modifier &&& 0xFFF)
  have hshow : showTable ⟨w, paddr, 0, false⟩ (vaddr / pagingBaseSize / pagingNEntries) =
      some ⟨w.setLevel1Modifier window, paddr, 0, false⟩ := if_neg hentry
  have haccessor : (w.setLevel1Modifier window).accessorFrame =
      w.entries (vaddr / pagingBaseSize / pagingNEntries) / pagingBaseSize :=
    accessorFrame_moved _ _
  rw [mapInc_one hvaddr hshow, propagate_unmodified rfl]
  refine ⟨rfl, ?_⟩
  show Wrote src w ((w.setLevel1Modifier window).setLevel1Accessor _ _) _ _
  have hsame : src.entries ((w.setLevel1Modifier window).setLevel1Accessor
      (vaddr / pagingBaseSize % pagingNEntries) (paddr ||| encodeFlags flags)) =
        src.entries w := by
    cases src <;> rfl
  refine ⟨if_pos ⟨haccessor.symm, rfl⟩, fun hzero => absurd hzero hentry, ?_, rfl, ?_, hentry,
    fun _ _ => rfl, ?_, ?_, ?_⟩
  · intro frame index hwindow hother
    have hcell : ¬ (frame = (w.setLevel1Modifier window).accessorFrame ∧
        index = vaddr / pagingBaseSize % pagingNEntries) := by
      rintro ⟨hframe, hindex⟩
      rcases hother with hne | ⟨-, hne⟩
      · exact hne (hframe.trans haccessor)
      · exact hne hindex
    have hwritten : ((w.setLevel1Modifier window).setLevel1Accessor
        (vaddr / pagingBaseSize % pagingNEntries) (paddr ||| encodeFlags flags)).tables frame
          index = (w.setLevel1Modifier window).tables frame index := if_neg hcell
    rw [hwritten]
    exact if_neg hwindow
  · have hmoved := hw.moved window
    refine ⟨hmoved.wellFormed.writeTable _ _ _, ?_, ?_⟩
    · exact ⟨hw.source.own, hw.source.window, hw.source.fresh, hw.source.distinct⟩
    · exact hw.alike
  · rw [if_neg hentry]
    rfl
  · intro i _
    cases src <;> exact Iff.rfl
  · intro i _
    rw [hsame]

structure Entered (w w' : Walker) (index frame : Nat) (rest : List Nat) : Prop where
  entries : w'.entries = update w.entries index (newEntry frame)
  pageTables : w'.pageTables = rest
  windowFrame : w'.windowFrame = w.windowFrame
  kernelEntries : w'.kernelEntries =
    if kernelIndex ≤ index then
      w.kernelEntries.map fun entries => update entries index (newEntry frame)
    else w.kernelEntries

section

variable {w' : Walker} {index frame : Nat} {rest : List Nat}

variable (h : Entered w w' index frame rest)

include h

theorem Entered.follows (i : Nat) : Follows src w' i ↔ Follows src w i := by
  cases src with
  | own => exact Iff.rfl
  | kernel =>
    unfold Follows
    rw [h.kernelEntries]
    split_ifs
    · rw [Option.map_eq_none_iff]
    · exact Iff.rfl
  | other entries => exact Iff.rfl

theorem Entered.source_of_follows (hfollows : Follows src w index) :
    src.entries w' = update (src.entries w) index (newEntry frame) := by
  cases src with
  | own => exact h.entries
  | kernel =>
    unfold Source.entries
    rw [h.kernelEntries, h.entries]
    cases hkernel : w.kernelEntries with
    | none => split_ifs <;> rfl
    | some entries =>
      rcases hfollows with hnone | hindex
      · rw [hkernel] at hnone
        cases hnone
      · rw [if_pos hindex]
        rfl
  | other entries => exact hfollows.elim

theorem Entered.source_of_not_follows
    (hfollows : ¬ Follows src w index) : src.entries w' = src.entries w := by
  cases src with
  | own => exact absurd trivial hfollows
  | kernel =>
    obtain ⟨hsome, hindex⟩ := not_or.1 hfollows
    unfold Source.entries
    rw [h.kernelEntries, if_neg hindex]
    obtain ⟨entries, hentries⟩ := Option.ne_none_iff_exists'.1 hsome
    rw [hentries]
    rfl
  | other entries => rfl

omit h

theorem wellFormed_congr {v v' : Walker} (hv : WellFormed v) (hentries : v'.entries = v.entries)
    (hpageTables : v'.pageTables = v.pageTables) (hwindow : v'.windowFrame = v.windowFrame) :
    WellFormed v' := by
  refine ⟨?_, ?_, ?_, ?_⟩
  · rw [hentries]
    exact hv.own
  · rw [hentries, hwindow]
    exact hv.window
  · rw [hentries, hwindow, hpageTables]
    exact hv.fresh
  · rw [hpageTables]
    exact hv.distinct

theorem wellFormed_popped {v : Walker} (hv : WellFormed v) (hpop : v.pageTables = frame :: rest) :
    WellFormed { v with pageTables := rest } := by
  have hmem : ∀ other ∈ rest, other ∈ v.pageTables := by
    intro other hother
    rw [hpop]
    exact List.mem_cons_of_mem frame hother
  have hdistinct := hv.distinct
  rw [hpop, List.pairwise_cons] at hdistinct
  exact ⟨hv.own, hv.window, fun other hother => hv.fresh other (hmem other hother), hdistinct.2⟩

theorem Entered.sharing (h : Entered w w' index frame rest) (hw : Sharing src w)
    (hpop : w.pageTables = frame :: rest) : Sharing src w' := by
  have hmem : frame ∈ w.pageTables := by
    rw [hpop]
    exact List.mem_cons_self
  have hnew : ∀ entries : Nat → Nat, ∀ i, i ≠ index →
      update entries index (newEntry frame) i = entries i :=
    fun entries i hi => update_of_ne hi _ _
  have hframe : ∀ entries : Nat → Nat,
      update entries index (newEntry frame) index / pagingBaseSize =
        frame / pagingBaseSize := by
    intro entries
    rw [update_self]
    exact newEntry_div frame
  have hunused := (hw.wellFormed.fresh frame hmem).2
  have hunusedSource := (hw.source.fresh frame hmem).2
  refine ⟨?_, ?_, ?_⟩
  · exact wellFormed_congr (enterTable_wellFormed w hw.wellFormed index frame rest hpop) h.entries
      h.pageTables h.windowFrame
  · rcases em (Follows src w index) with hyes | hno
    · exact wellFormed_congr (enterTable_wellFormed _ hw.source index frame rest hpop)
        (h.source_of_follows hyes) h.pageTables h.windowFrame
    · exact wellFormed_congr (wellFormed_popped hw.source hpop) (h.source_of_not_follows hno)
        h.pageTables h.windowFrame
  · intro i j hi hj hei hej heq
    rw [h.entries] at hei heq
    rcases em (Follows src w index) with hyes | hno
    · rw [h.source_of_follows hyes] at hej heq
      rcases eq_or_ne i index with hil | hil <;> rcases eq_or_ne j index with hjl | hjl
      · exact hil.trans hjl.symm
      · rw [hnew _ j hjl] at hej heq
        rw [hil, hframe] at heq
        exact absurd heq.symm (hunusedSource j hj hej)
      · rw [hjl, hframe, hnew _ i hil] at heq
        rw [hnew _ i hil] at hei
        exact absurd heq (hunused i hi hei)
      · rw [hnew _ i hil] at hei heq
        rw [hnew _ j hjl] at hej heq
        exact hw.alike i j hi hj hei hej heq
    · rw [h.source_of_not_follows hno] at hej heq
      rcases eq_or_ne i index with hil | hil
      · rw [hil, hframe] at heq
        exact absurd heq.symm (hunusedSource j hj hej)
      · rw [hnew _ i hil] at hei heq
        exact hw.alike i j hi hj hei hej heq

theorem Entered.sees (h : Entered w w' index frame rest) (hw : Sharing src w)
    (hpop : w.pageTables = frame :: rest) (hentry : w.entries index = 0) (i : Nat)
    (hi : i < pagingNEntries) : Sees src w' i ↔ Sees src w i := by
  have hmem : frame ∈ w.pageTables := by
    rw [hpop]
    exact List.mem_cons_self
  rcases eq_or_ne i index with rfl | hne
  · have hself : w'.entries i = newEntry frame := by rw [h.entries, update_self]
    have hself_ne : newEntry frame ≠ 0 := newEntry_ne_zero frame
    unfold Sees
    rw [hself, if_neg hself_ne, if_pos hentry]
    rcases em (Follows src w i) with hyes | hno
    · rw [h.source_of_follows hyes, update_self]
      exact iff_of_true ⟨hself_ne, rfl⟩ hyes
    · rw [h.source_of_not_follows hno]
      refine iff_of_false ?_ hno
      rintro ⟨hsource, hsame⟩
      exact (hw.source.fresh frame hmem).2 i hi hsource (hsame.trans (newEntry_div frame))
  · have hsource : src.entries w' i = src.entries w i := by
      rcases em (Follows src w index) with hyes | hno
      · rw [h.source_of_follows hyes, update_of_ne hne]
      · rw [h.source_of_not_follows hno]
    unfold Sees
    rw [hsource, h.entries, update_of_ne hne, h.follows i]

end

theorem propagate_one {index l1Index : Nat} (h : p.l0WasModified = true) :
    propagate ⟨index, index, l1Index, l1Index⟩ p =
      { p.walker with
        kernelEntries :=
          if kernelIndex ≤ index then
            p.walker.kernelEntries.map fun entries =>
              update entries index (p.walker.entries index)
          else p.walker.kernelEntries } := by
  unfold propagate
  cases hkernel : p.walker.kernelEntries with
  | none =>
    simp only [Option.map_none, ite_self]
    rw [← hkernel]
  | some entries =>
    simp only [h, and_true]
    show (if kernelIndex ≤ index then _ else _) = _
    rcases lt_or_ge index kernelIndex with hbelow | habove
    · rw [if_neg (Nat.not_le.2 hbelow), if_neg (Nat.not_le.2 hbelow), ← hkernel]
    rw [if_pos habove, if_pos habove]
    congr 2
    funext i
    rcases eq_or_ne i index with rfl | hne
    · simp
    · have hout : ¬ (index ≤ i ∧ i ≤ index) := by omega
      simp [hout, hne]

theorem mapInc_one_made (hw : Sharing src w) (hvaddr : vaddr / pagingBaseSize < windowPage)
    (hentry : w.entries (vaddr / pagingBaseSize / pagingNEntries) = 0)
    {frame : Nat} {rest : List Nat} (hpop : w.pageTables = frame :: rest) :
    (mapInc w vaddr paddr 1 flags).1 = 1 ∧
      Wrote src w (mapInc w vaddr paddr 1 flags).2 (vaddr / pagingBaseSize)
        (paddr ||| encodeFlags flags) := by
  have hmem : frame ∈ w.pageTables := by
    rw [hpop]
    exact List.mem_cons_self
  obtain ⟨hwindow, hused⟩ := hw.wellFormed.fresh frame hmem
  let index := vaddr / pagingBaseSize / pagingNEntries
  let shown := (enterTable w index frame rest).setLevel1Modifier
    (newEntry frame ||| pagingCacheWriteThrough)
  have haccessor : shown.accessorFrame = frame / pagingBaseSize := by
    rw [accessorFrame_setLevel1Modifier, or_div_pagingBaseSize _ _ (by decide)]
    exact newEntry_div frame
  have hcleared : (cleared shown pagingNEntries).accessorFrame = frame / pagingBaseSize := by
    rw [accessorFrame_cleared shown (haccessor ▸ hwindow), haccessor]
  have hshow : showTable ⟨w, paddr, 0, false⟩ index =
      some ⟨cleared shown pagingNEntries, paddr, 0, true⟩ := by
    unfold showTable
    rw [if_pos hentry, hpop, ← clearTable_eq]
    rfl
  rw [mapInc_one hvaddr hshow, propagate_one rfl]
  refine ⟨rfl, ?_⟩
  have hself : update w.entries index (newEntry frame) index = newEntry frame :=
    update_self _ _ _
  have hdiv : newEntry frame / pagingBaseSize = frame / pagingBaseSize := newEntry_div frame
  generalize hafter : Walker.mk _ _ _ _ _ = after
  have htables : after.tables = ((cleared shown pagingNEntries).setLevel1Accessor
      (vaddr / pagingBaseSize % pagingNEntries) (paddr ||| encodeFlags flags)).tables := by
    rw [← hafter]
    rfl
  have hentered : Entered w after index frame rest := by
    rw [← hafter]
    refine ⟨rfl, rfl, rfl, ?_⟩
    show (if kernelIndex ≤ index then Option.map (fun entries =>
      update entries index (update w.entries index (newEntry frame) index))
        w.kernelEntries else w.kernelEntries) = _
    rw [hself]
  have hentry' : after.entries index = newEntry frame := by rw [hentered.entries, hself]
  have hframe : after.entries index / pagingBaseSize = frame / pagingBaseSize := by
    rw [hentry', hdiv]
  refine ⟨?_, ?_, ?_, hentered.windowFrame, hentered.sharing hw hpop, ?_, ?_, ?_,
    hentered.sees hw hpop hentry, ?_⟩
  · rw [htables]
    exact if_pos ⟨hframe.trans hcleared.symm, rfl⟩
  · intro _ i hi hne
    rw [htables]
    refine (if_neg fun h => hne h.2).trans ?_
    exact if_pos ⟨hframe.trans haccessor.symm, hi⟩
  · intro f i hnot hother
    have hother' : f ≠ frame / pagingBaseSize := by
      rcases hother with hne | ⟨hne, -⟩
      · exact fun h => hne (h.trans hframe.symm)
      · exact absurd hentry hne
    rw [htables]
    refine (if_neg fun h => hother' (h.1.trans hcleared)).trans ?_
    refine (if_neg fun h => hother' (h.1.trans haccessor)).trans ?_
    exact if_neg hnot
  · rw [hentry']
    exact newEntry_ne_zero frame
  · intro i hi
    have hne : i ≠ index := by
      rcases hi with hne | hne
      · exact hne
      · rintro rfl
        exact hne hentry
    rw [hentered.entries, update_of_ne hne]
  · rw [if_pos hentry, hentered.pageTables, hpop]
    rfl
  · intro i hi
    rcases em (Follows src w index) with hyes | hno
    · have hne : i ≠ index := by
        rcases hi with hne | hne | hne
        · exact hne
        · rintro rfl
          exact hne hentry
        · rintro rfl
          exact hne hyes
      rw [hentered.source_of_follows hyes, update_of_ne hne]
    · rw [hentered.source_of_not_follows hno]

theorem cell_ne_window {v : Walker} (hv : WellFormed v) {page : Nat} (hpage : page < windowPage)
    (hne : v.entries (page / pagingNEntries) ≠ 0) :
    ¬ (v.entries (page / pagingNEntries) / pagingBaseSize = v.windowFrame ∧
      page % pagingNEntries = pagingNEntries - 1) := by
  rintro ⟨hframe, hindex⟩
  have hlast := hv.window _ (div_lt_of_le_windowPage (le_of_lt hpage)) hne hframe
  simp only [windowPage, pagingNEntries] at hpage hindex hlast
  omega

theorem pageEntry_view (v : Walker) (entries : Nat → Nat) (page : Nat) :
    (view v entries).pageEntry page =
      if entries (page / pagingNEntries) = 0 then 0
      else v.tables (entries (page / pagingNEntries) / pagingBaseSize) (page % pagingNEntries) :=
  rfl

section

variable {w' : Walker} {page entry : Nat}

variable (h : Wrote src w w' page entry)

include h

theorem Wrote.sees_iff (hpage : page < windowPage) :
    Sees src w (page / pagingNEntries) ↔ src.entries w' (page / pagingNEntries) ≠ 0 ∧
      src.entries w' (page / pagingNEntries) / pagingBaseSize =
        w'.entries (page / pagingNEntries) / pagingBaseSize := by
  rw [← h.sees _ (div_lt_of_le_windowPage (le_of_lt hpage)), Sees, if_neg h.entry_ne]

theorem Wrote.source_written (hpage : page < windowPage)
    (hsees : Sees src w (page / pagingNEntries)) :
    (view w' (src.entries w')).pageEntry page = entry := by
  obtain ⟨hne, hsame⟩ := (h.sees_iff hpage).1 hsees
  rw [pageEntry_view, if_neg hne, hsame, h.written]

theorem Wrote.source_cleared (hpage : page < windowPage)
    (hsees : Sees src w (page / pagingNEntries)) (hzero : w.entries (page / pagingNEntries) = 0)
    {other : Nat} (hindex : other / pagingNEntries = page / pagingNEntries)
    (hother : other ≠ page) : (view w' (src.entries w')).pageEntry other = 0 := by
  obtain ⟨hne, hsame⟩ := (h.sees_iff hpage).1 hsees
  rw [pageEntry_view, hindex, if_neg hne, hsame]
  refine h.cleared hzero _ (Nat.mod_lt _ (by decide)) ?_
  simp only [pagingNEntries] at hindex hother ⊢
  omega

theorem Wrote.source_kept (hw : Sharing src w)
    (hpage : page < windowPage) {other : Nat} (hother : other < windowPage)
    (hapart : other / pagingNEntries ≠ page / pagingNEntries ∨
      ¬ Sees src w (page / pagingNEntries) ∨ other ≠ page ∧ w.entries (page / pagingNEntries) ≠ 0) :
    (view w' (src.entries w')).pageEntry other = (view w (src.entries w)).pageEntry other := by
  have hindexOther := div_lt_of_le_windowPage (le_of_lt hother)
  have hindexPage := div_lt_of_le_windowPage (le_of_lt hpage)
  have hsource : src.entries w' (other / pagingNEntries) =
      src.entries w (other / pagingNEntries) := by
    apply h.source
    rcases eq_or_ne (other / pagingNEntries) (page / pagingNEntries) with heq | hne
    · rcases eq_or_ne (w.entries (other / pagingNEntries)) 0 with hzero | hentry
      · refine .inr (.inr fun hfollows => ?_)
        rcases hapart with hne | hsees | ⟨-, hentry⟩
        · exact hne heq
        · apply hsees
          rw [Sees, ← heq, if_pos hzero]
          exact hfollows
        · exact hentry (heq ▸ hzero)
      · exact .inr (.inl hentry)
    · exact .inl hne
  rw [pageEntry_view, pageEntry_view, hsource]
  rcases eq_or_ne (src.entries w (other / pagingNEntries)) 0 with hzero | hne
  · rw [if_pos hzero, if_pos hzero]
  rw [if_neg hne, if_neg hne]
  apply h.kept _ _ (cell_ne_window hw.source hother hne)
  rcases eq_or_ne (src.entries w (other / pagingNEntries) / pagingBaseSize)
    (w'.entries (page / pagingNEntries) / pagingBaseSize) with hframe | hframe
  · -- the table is the one that is written to, so it is seen
    have hne' := hsource ▸ hne
    have hindex := h.sharing.alike _ _ hindexPage hindexOther h.entry_ne hne'
      (by rw [hsource, hframe])
    rcases hapart with hother' | hsees | ⟨hother', hentry⟩
    · exact absurd hindex.symm hother'
    · refine absurd ((h.sees_iff hpage).2 ⟨?_, ?_⟩) hsees
      · rw [hindex]
        exact hne'
      · rw [hindex, hsource, hframe, ← hindex]
    · refine .inr ⟨hentry, ?_⟩
      simp only [pagingNEntries] at hindex hother' ⊢
      omega
  · exact .inl hframe

omit h

end

def frameOf (entry : Nat) : Nat :=
  entry / pagingBaseSize * pagingBaseSize

/-- The frame that `lookup` writes for a page of the source. -/
def backing (src : Source) (w : Walker) (page : Nat) : Nat :=
  frameOf ((view w (src.entries w)).pageEntry page)

theorem readEntry_frame (entry : Nat) :
    ((readEntry entry).written.map Prod.fst).getD 0 = frameOf entry := by
  unfold readEntry
  rcases eq_or_ne entry 0 with rfl | hne
  · rfl
  · rw [if_neg hne]
    rw [Nat.shiftLeft_eq, Nat.shiftRight_eq_div_pow]
    rfl

theorem lookupIn_found (hw : Sharing src w) (hvaddr : vaddr / pagingBaseSize < windowPage) :
    (lookupIn src w vaddr).1 =
      readEntry ((view w (src.entries w)).pageEntry (vaddr / pagingBaseSize)) := by
  refine lookup_eq _ hw.source vaddr ?_ (ne_of_lt hvaddr)
  simp only [windowPage, pagingNEntries, pagingBaseSize, wordModulus] at *
  omega

theorem setLevel1Modifier_self (w : Walker) : w.setLevel1Modifier w.level1Modifier = w := by
  have htables : (w.setLevel1Modifier w.level1Modifier).tables = w.tables := by
    funext frame index
    show (if frame = w.windowFrame ∧ index = pagingNEntries - 1 then _ else _) = _
    split_ifs with h
    · rw [h.1, h.2]
      rfl
    · rfl
  show { w with tables := (w.setLevel1Modifier w.level1Modifier).tables } = w
  rw [htables]

theorem lookup_walker (w : Walker) (vaddr : Nat) :
    ∃ window, (lookup w vaddr).2 = w.setLevel1Modifier window := by
  unfold lookup
  dsimp only
  split
  · exact ⟨w.level1Modifier, (setLevel1Modifier_self w).symm⟩
  · exact ⟨_, rfl⟩

theorem lookupIn_walker (src : Source) (w : Walker) (vaddr : Nat) :
    ∃ window, (lookupIn src w vaddr).2 = w.setLevel1Modifier window := by
  obtain ⟨window, hwalker⟩ := lookup_walker (view w (src.entries w)) vaddr
  exact ⟨window, congrArg (fun found => view found w.entries) hwalker⟩

theorem Sharing.ofOwn (hw : WellFormed w) : Sharing .own w :=
  ⟨hw, hw, hw.own⟩

section

variable {srcVaddr tmpVaddr : Nat}

theorem sharePage_none (htmp : tmpVaddr / pagingBaseSize < windowPage)
    (hentry : w.entries (tmpVaddr / pagingBaseSize / pagingNEntries) = 0)
    (hframes : w.pageTables = []) : (sharePage src w srcVaddr tmpVaddr flags).1 = 0 := by
  obtain ⟨window, hwalker⟩ := lookupIn_walker src w srcVaddr
  unfold sharePage
  dsimp only
  rw [hwalker]
  exact mapInc_one_none htmp hentry hframes

theorem sharePage_wrote {seen : Source} (hw : Sharing src w) (hseen : Sharing seen w)
    (hsrc : srcVaddr / pagingBaseSize < windowPage) (htmp : tmpVaddr / pagingBaseSize < windowPage)
    (hroom : w.entries (tmpVaddr / pagingBaseSize / pagingNEntries) ≠ 0 ∨ w.pageTables ≠ []) :
    (sharePage src w srcVaddr tmpVaddr flags).1 = 1 ∧
      Wrote seen w (sharePage src w srcVaddr tmpVaddr flags).2 (tmpVaddr / pagingBaseSize)
        (backing src w (srcVaddr / pagingBaseSize) ||| encodeFlags flags) := by
  obtain ⟨window, hwalker⟩ := lookupIn_walker src w srcVaddr
  have hpage : sharePage src w srcVaddr tmpVaddr flags =
      mapInc (w.setLevel1Modifier window) tmpVaddr (backing src w (srcVaddr / pagingBaseSize)) 1
        flags := by
    unfold sharePage
    dsimp only
    rw [hwalker, lookupIn_found hw hsrc, readEntry_frame]
    rfl
  rw [hpage]
  have hmoved := hseen.moved window
  rcases eq_or_ne (w.entries (tmpVaddr / pagingBaseSize / pagingNEntries)) 0 with hzero | hne
  · cases hpop : w.pageTables with
    | nil => exact absurd hpop (hroom.resolve_left fun hne => hne hzero)
    | cons frame rest =>
      obtain ⟨hret, hwrote⟩ := @mapInc_one_made _ _ _ (backing src w (srcVaddr / pagingBaseSize))
        flags hmoved htmp hzero _ _ hpop
      exact ⟨hret, hwrote.of_moved⟩
  · obtain ⟨hret, hwrote⟩ := @mapInc_one_old _ _ _ (backing src w (srcVaddr / pagingBaseSize))
      flags hmoved htmp hne
    exact ⟨hret, hwrote.of_moved⟩

end

end

section

variable {src : Source} {w : Walker}

/-- The tables after `count` turns that did not return. -/
def afterTurns (src : Source) (flags : Nat) : Nat → Nat → Nat → Walker → Walker
  | 0, _, _, w => w
  | count + 1, srcVaddr, tmpVaddr, w =>
    afterTurns src flags count (srcVaddr + pagingBaseSize) (tmpVaddr + pagingBaseSize)
      (sharePage src w srcVaddr tmpVaddr flags).2

def turnAfter (src : Source) (flags count srcVaddr tmpVaddr : Nat) (w : Walker) : Nat × Walker :=
  sharePage src (afterTurns src flags count srcVaddr tmpVaddr w)
    (srcVaddr + count * pagingBaseSize) (tmpVaddr + count * pagingBaseSize) flags

theorem turnAfter_succ (src : Source) (flags count srcVaddr tmpVaddr : Nat) (w : Walker) :
    turnAfter src flags (count + 1) srcVaddr tmpVaddr w =
      turnAfter src flags count (srcVaddr + pagingBaseSize) (tmpVaddr + pagingBaseSize)
        (sharePage src w srcVaddr tmpVaddr flags).2 := by
  have hnext : ∀ vaddr, vaddr + (count + 1) * pagingBaseSize =
      vaddr + pagingBaseSize + count * pagingBaseSize := by
    intro vaddr
    rw [add_mul, one_mul]
    omega
  unfold turnAfter
  rw [hnext, hnext]
  rfl

theorem afterTurns_succ (src : Source) (flags count srcVaddr tmpVaddr : Nat) (w : Walker) :
    afterTurns src flags (count + 1) srcVaddr tmpVaddr w =
      (turnAfter src flags count srcVaddr tmpVaddr w).2 := by
  induction count generalizing srcVaddr tmpVaddr w with
  | zero => simp [afterTurns, turnAfter]
  | succ count ih =>
    rw [turnAfter_succ, ← ih]
    rfl

theorem next_vaddr {vaddr remaining : Nat}
    (h : vaddr / pagingBaseSize + (remaining + 1) ≤ windowPage) :
    (vaddr + pagingBaseSize) % wordModulus = vaddr + pagingBaseSize ∧
      (vaddr + pagingBaseSize) / pagingBaseSize + remaining ≤ windowPage := by
  simp only [windowPage, pagingNEntries, pagingBaseSize, wordModulus] at *
  omega

theorem sharePages_true {flags nPages srcVaddr tmpVaddr : Nat}
    (hsrc : srcVaddr / pagingBaseSize + nPages ≤ windowPage)
    (htmp : tmpVaddr / pagingBaseSize + nPages ≤ windowPage)
    (hturns : ∀ i, i < nPages → (turnAfter src flags i srcVaddr tmpVaddr w).1 = 1) :
    sharePages src flags nPages srcVaddr tmpVaddr w =
      (true, afterTurns src flags nPages srcVaddr tmpVaddr w) := by
  induction nPages generalizing srcVaddr tmpVaddr w with
  | zero => rfl
  | succ nPages ih =>
    obtain ⟨hsrcNext, hsrcEnd⟩ := next_vaddr hsrc
    obtain ⟨htmpNext, htmpEnd⟩ := next_vaddr htmp
    have hfirst : (sharePage src w srcVaddr tmpVaddr flags).1 = 1 := by
      have h := hturns 0 (Nat.succ_pos _)
      simpa [turnAfter, afterTurns] using h
    have hrest := @ih (sharePage src w srcVaddr tmpVaddr flags).2 _ _ hsrcEnd htmpEnd
      (by
        intro i hi
        have h := hturns (i + 1) (by omega)
        rwa [turnAfter_succ] at h)
    rw [sharePages]
    rw [hfirst, if_neg (by decide), hsrcNext, htmpNext, hrest]
    rfl

theorem sharePages_false {flags nPages srcVaddr tmpVaddr failed : Nat}
    (hsrc : srcVaddr / pagingBaseSize + nPages ≤ windowPage)
    (htmp : tmpVaddr / pagingBaseSize + nPages ≤ windowPage) (hfailed : failed < nPages)
    (hturn : (turnAfter src flags failed srcVaddr tmpVaddr w).1 = 0) :
    (sharePages src flags nPages srcVaddr tmpVaddr w).1 = false := by
  induction nPages generalizing srcVaddr tmpVaddr w failed with
  | zero => omega
  | succ nPages ih =>
    obtain ⟨hsrcNext, hsrcEnd⟩ := next_vaddr hsrc
    obtain ⟨htmpNext, htmpEnd⟩ := next_vaddr htmp
    rw [sharePages]
    cases failed with
    | zero =>
      have hfirst : (sharePage src w srcVaddr tmpVaddr flags).1 = 0 := by
        simpa [turnAfter, afterTurns] using hturn
      rw [hfirst, if_pos (by decide)]
    | succ failed =>
      rw [turnAfter_succ] at hturn
      split_ifs
      · rfl
      · rw [hsrcNext, htmpNext]
        exact ih hsrcEnd htmpEnd (Nat.lt_of_succ_lt_succ hfailed) hturn

/-- The new tables for the first `count` pages from `first` on, one for each page that is the
first of a table without an entry. -/
def missing (w : Walker) (first count : Nat) : Nat :=
  (List.range count).countP fun i =>
    (i = 0 || (first + i) % pagingNEntries = 0) && w.entries ((first + i) / pagingNEntries) = 0

/-- The tables after `count` pages from `first` on were mapped, the page `first + i` to the frame
`frames i`. -/
structure Mapped (src : Source) (w w' : Walker) (first flags count : Nat) (frames : Nat → Nat) :
    Prop where
  sharing : Sharing src w'
  empty : ∀ index, w'.entries index = 0 ↔
    w.entries index = 0 ∧ ∀ i, i < count → (first + i) / pagingNEntries ≠ index
  sees : ∀ index, index < pagingNEntries → (Sees src w' index ↔ Sees src w index)
  tablesLeft : w'.pageTables.length + missing w first count = w.pageTables.length
  written : ∀ i, i < count → Sees src w ((first + i) / pagingNEntries) →
    (view w' (src.entries w')).pageEntry (first + i) = frames i ||| encodeFlags flags
  cleared : ∀ page, page < windowPage → Sees src w (page / pagingNEntries) →
    w.entries (page / pagingNEntries) = 0 → (∀ i, i < count → first + i ≠ page) →
      (∃ i, i < count ∧ (first + i) / pagingNEntries = page / pagingNEntries) →
        (view w' (src.entries w')).pageEntry page = 0
  kept : ∀ page, page < windowPage →
    ¬ Sees src w (page / pagingNEntries) ∨ (∀ i, i < count → first + i ≠ page) ∧
        (w.entries (page / pagingNEntries) ≠ 0 ∨
          ∀ i, i < count → (first + i) / pagingNEntries ≠ page / pagingNEntries) →
      (view w' (src.entries w')).pageEntry page = (view w (src.entries w)).pageEntry page

theorem Mapped.start (hw : Sharing src w) (first flags : Nat) (frames : Nat → Nat) :
    Mapped src w w first flags 0 frames := by
  refine ⟨hw, ?_, fun _ _ => Iff.rfl, rfl, ?_, ?_, fun _ _ _ => rfl⟩
  · intro index
    exact ⟨fun hzero => ⟨hzero, fun i hi => absurd hi (Nat.not_lt_zero i)⟩, fun h => h.1⟩
  · intro i hi
    exact absurd hi (Nat.not_lt_zero i)
  · rintro page - - - - ⟨i, hi, -⟩
    exact absurd hi (Nat.not_lt_zero i)

theorem missing_succ (w : Walker) (first count : Nat) :
    missing w first (count + 1) = missing w first count +
      if (count = 0 ∨ (first + count) % pagingNEntries = 0) ∧
        w.entries ((first + count) / pagingNEntries) = 0 then 1 else 0 := by
  unfold missing
  rw [List.range_succ, List.countP_append, List.countP_singleton]
  simp

variable {first : Nat} {frames : Nat → Nat}

theorem Mapped.empty_next {w' : Walker} {flags count : Nat}
    (h : Mapped src w w' first flags count frames) :
    w'.entries ((first + count) / pagingNEntries) = 0 ↔
      (count = 0 ∨ (first + count) % pagingNEntries = 0) ∧
        w.entries ((first + count) / pagingNEntries) = 0 := by
  rw [h.empty, and_comm]
  refine and_congr_left fun _ => ?_
  constructor
  · intro hnone
    rcases eq_zero_or_pos count with hzero | hpos
    · exact .inl hzero
    · have hprevious := hnone (count - 1) (by omega)
      simp only [pagingNEntries] at hprevious ⊢
      omega
  · intro hfirst i hi
    simp only [pagingNEntries] at hfirst ⊢
    omega

theorem Mapped.step {w₁ w₂ : Walker} {flags count : Nat}
    (h : Mapped src w w₁ first flags count frames) (hpage : first + count < windowPage)
    (hroom : w₁.entries ((first + count) / pagingNEntries) ≠ 0 ∨ w₁.pageTables ≠ [])
    (hwrote : Wrote src w₁ w₂ (first + count) (frames count ||| encodeFlags flags)) :
    Mapped src w w₂ first flags (count + 1) frames := by
  have hseen := h.sees _ (div_lt_of_le_windowPage (le_of_lt hpage))
  -- a table of one of the pages that are mapped already
  have hold : ∀ i, i < count → (first + i) / pagingNEntries = (first + count) / pagingNEntries →
      w₁.entries ((first + count) / pagingNEntries) ≠ 0 :=
    fun i hi hindex hzero => ((h.empty _).1 hzero).2 i hi hindex
  refine ⟨hwrote.sharing, ?_, ?_, ?_, ?_, ?_, ?_⟩
  · intro index
    rcases eq_or_ne index ((first + count) / pagingNEntries) with rfl | hne
    · refine iff_of_false hwrote.entry_ne ?_
      rintro ⟨-, hnone⟩
      exact hnone count (Nat.lt_succ_self _) rfl
    rw [hwrote.entries index (.inl hne), h.empty]
    refine and_congr_right fun _ => ⟨?_, fun hnone i hi => hnone i (by omega)⟩
    intro hnone i hi
    rcases Nat.lt_succ_iff_lt_or_eq.1 hi with hlt | rfl
    · exact hnone i hlt
    · exact hne.symm
  · intro index hindex
    rw [hwrote.sees index hindex, h.sees index hindex]
  · rw [missing_succ, hwrote.pageTables]
    have hlength := h.tablesLeft
    rcases eq_or_ne (w₁.entries ((first + count) / pagingNEntries)) 0 with hzero | hne
    · have hpos := List.length_pos_iff.2 (hroom.resolve_left fun hne => hne hzero)
      rw [if_pos hzero, if_pos (h.empty_next.1 hzero), List.length_tail]
      omega
    · rw [if_neg hne, if_neg fun hcond => hne (h.empty_next.2 hcond)]
      exact hlength
  · intro i hi hsees
    rcases Nat.lt_succ_iff_lt_or_eq.1 hi with hlt | rfl
    · rw [hwrote.source_kept h.sharing hpage (by omega), h.written i hlt hsees]
      rcases eq_or_ne ((first + i) / pagingNEntries) ((first + count) / pagingNEntries)
        with heq | hne
      · exact .inr (.inr ⟨by omega, hold i hlt heq⟩)
      · exact .inl hne
    · exact hwrote.source_written hpage (hseen.2 hsees)
  · rintro page hlt hsees hzero hother ⟨i, hi, hindex⟩
    have hne : page ≠ first + count := (hother count (Nat.lt_succ_self _)).symm
    have hearlier : (∃ i, i < count ∧ (first + i) / pagingNEntries = page / pagingNEntries) →
        (view w₁ (src.entries w₁)).pageEntry page = 0 :=
      h.cleared page hlt hsees hzero fun i hi => hother i (by omega)
    rcases eq_or_ne (page / pagingNEntries) ((first + count) / pagingNEntries) with heq | hapart
    · rcases eq_or_ne (w₁.entries ((first + count) / pagingNEntries)) 0 with hempty | hentry
      · exact hwrote.source_cleared hpage (hseen.2 (heq ▸ hsees)) hempty heq hne
      · rw [hwrote.source_kept h.sharing hpage hlt (.inr (.inr ⟨hne, hentry⟩))]
        apply hearlier
        refine Classical.byContradiction fun hnone => hentry ((h.empty _).2 ⟨heq ▸ hzero, ?_⟩)
        intro j hj hj'
        exact hnone ⟨j, hj, hj'.trans heq.symm⟩
    · rw [hwrote.source_kept h.sharing hpage hlt (.inl hapart)]
      apply hearlier
      rcases Nat.lt_succ_iff_lt_or_eq.1 hi with hlt' | rfl
      · exact ⟨i, hlt', hindex⟩
      · exact absurd hindex.symm hapart
  · intro page hlt hapart
    rw [hwrote.source_kept h.sharing hpage hlt, h.kept page hlt]
    · rcases hapart with hsees | ⟨hother, hentry⟩
      · exact .inl hsees
      · refine .inr ⟨fun i hi => hother i (by omega), hentry.imp_right ?_⟩
        exact fun hnone i hi => hnone i (by omega)
    · rcases eq_or_ne (page / pagingNEntries) ((first + count) / pagingNEntries) with heq | hne
      · rcases hapart with hsees | ⟨hother, hentry⟩
        · exact .inr (.inl fun hyes => hsees (heq ▸ hseen.1 hyes))
        · refine .inr (.inr ⟨(hother count (Nat.lt_succ_self _)).symm, ?_⟩)
          rcases hentry with hentry | hnone
          · exact fun hzero => hentry (heq ▸ ((h.empty _).1 hzero).1)
          · exact absurd heq.symm (hnone count (Nat.lt_succ_self _))
      · exact .inl hne

theorem Mapped.room_iff {w' : Walker} {flags count : Nat}
    (h : Mapped src w w' first flags count frames) :
    (w'.entries ((first + count) / pagingNEntries) ≠ 0 ∨ w'.pageTables ≠ []) ↔
      missing w first (count + 1) ≤ w.pageTables.length := by
  have hlength := h.tablesLeft
  rw [missing_succ]
  rcases eq_or_ne (w'.entries ((first + count) / pagingNEntries)) 0 with hzero | hne
  · rw [if_pos (h.empty_next.1 hzero), ← List.length_pos_iff]
    constructor
    · intro hroom
      omega
    · intro hle
      right
      omega
  · rw [if_neg fun hcond => hne (h.empty_next.2 hcond)]
    refine iff_of_true (.inl hne) ?_
    omega

theorem missing_mono (w : Walker) (first : Nat) {count count' : Nat} (h : count ≤ count') :
    missing w first count ≤ missing w first count' := by
  induction h with
  | refl => exact le_refl _
  | step _ ih =>
    rw [missing_succ]
    omega

/-- The frame that the turn after `count` others maps. -/
def readFrame (src : Source) (flags srcVaddr tmpVaddr : Nat) (w : Walker) (count : Nat) : Nat :=
  backing src (afterTurns src flags count srcVaddr tmpVaddr w) (srcVaddr / pagingBaseSize + count)

theorem page_add (vaddr count : Nat) :
    (vaddr + count * pagingBaseSize) / pagingBaseSize = vaddr / pagingBaseSize + count :=
  Nat.add_mul_div_right _ _ (by decide)

section

variable {flags srcVaddr tmpVaddr : Nat}

theorem afterTurns_mapped {seen : Source} (hw : Sharing src w) (hseen : Sharing seen w)
    {count : Nat} (hsrc : srcVaddr / pagingBaseSize + count ≤ windowPage)
    (htmp : tmpVaddr / pagingBaseSize + count ≤ windowPage)
    (hroom : missing w (tmpVaddr / pagingBaseSize) count ≤ w.pageTables.length) :
    Mapped src w (afterTurns src flags count srcVaddr tmpVaddr w) (tmpVaddr / pagingBaseSize) flags
        count (readFrame src flags srcVaddr tmpVaddr w) ∧
      Mapped seen w (afterTurns src flags count srcVaddr tmpVaddr w) (tmpVaddr / pagingBaseSize)
        flags count (readFrame src flags srcVaddr tmpVaddr w) := by
  induction count with
  | zero => exact ⟨Mapped.start hw _ _ _, Mapped.start hseen _ _ _⟩
  | succ count ih =>
    obtain ⟨hsource, hother⟩ := ih (by omega) (by omega)
      (le_trans (missing_mono w _ (Nat.le_succ count)) hroom)
    have hroom' := hsource.room_iff.2 hroom
    have hsrcPage : (srcVaddr + count * pagingBaseSize) / pagingBaseSize < windowPage := by
      rw [page_add]
      omega
    have htmpPage : (tmpVaddr + count * pagingBaseSize) / pagingBaseSize < windowPage := by
      rw [page_add]
      omega
    have hwrote : ∀ {s : Source}, Sharing s (afterTurns src flags count srcVaddr tmpVaddr w) →
        Wrote s (afterTurns src flags count srcVaddr tmpVaddr w)
          (afterTurns src flags (count + 1) srcVaddr tmpVaddr w)
          (tmpVaddr / pagingBaseSize + count)
          (readFrame src flags srcVaddr tmpVaddr w count ||| encodeFlags flags) := by
      intro s hs
      have hturn := (sharePage_wrote hsource.sharing hs hsrcPage htmpPage
        (by rw [page_add]; exact hroom') : _ ∧ Wrote s _ (sharePage _ _ _ _ flags).2 _ _).2
      rw [page_add, page_add] at hturn
      rw [afterTurns_succ]
      exact hturn
    exact ⟨hsource.step (by omega) hroom' (hwrote hsource.sharing),
      hother.step (by omega) hroom' (hwrote hother.sharing)⟩

theorem sees_own (w : Walker) (index : Nat) : Sees .own w index := by
  unfold Sees
  split_ifs with hzero
  · trivial
  · exact ⟨hzero, rfl⟩

theorem afterTurns_pages (hw : Sharing src w) {count : Nat}
    (hsrc : srcVaddr / pagingBaseSize + count ≤ windowPage)
    (htmp : tmpVaddr / pagingBaseSize + count ≤ windowPage)
    (hroom : missing w (tmpVaddr / pagingBaseSize) count ≤ w.pageTables.length) :
    WellFormed (afterTurns src flags count srcVaddr tmpVaddr w) ∧
      (∀ i, i < count → (afterTurns src flags count srcVaddr tmpVaddr w).pageEntry
        (tmpVaddr / pagingBaseSize + i) =
          readFrame src flags srcVaddr tmpVaddr w i ||| encodeFlags flags) ∧
      ∀ page, page < windowPage →
        (∀ i, i < count → tmpVaddr / pagingBaseSize + i ≠ page) →
          (afterTurns src flags count srcVaddr tmpVaddr w).pageEntry page = w.pageEntry page := by
  have hmapped := (@afterTurns_mapped src w flags srcVaddr tmpVaddr .own hw
    (Sharing.ofOwn hw.wellFormed) count hsrc htmp hroom).2
  refine ⟨hmapped.sharing.wellFormed, fun i hi => hmapped.written i hi (sees_own w _), ?_⟩
  intro page hpage hother
  rcases em (w.entries (page / pagingNEntries) = 0 ∧ ∃ i, i < count ∧
    (tmpVaddr / pagingBaseSize + i) / pagingNEntries = page / pagingNEntries)
    with ⟨hzero, hnew⟩ | hold
  · refine (hmapped.cleared page hpage (sees_own w _) hzero hother hnew).trans ?_
    unfold Walker.pageEntry
    rw [if_pos hzero]
  · refine hmapped.kept page hpage (.inr ⟨hother, ?_⟩)
    refine (em _).symm.imp_right fun hzero i hi hindex => ?_
    exact hold ⟨hzero, i, hi, hindex⟩

theorem turnAfter_of_room (hw : Sharing src w) {count : Nat}
    (hsrc : srcVaddr / pagingBaseSize + (count + 1) ≤ windowPage)
    (htmp : tmpVaddr / pagingBaseSize + (count + 1) ≤ windowPage)
    (hroom : missing w (tmpVaddr / pagingBaseSize) (count + 1) ≤ w.pageTables.length) :
    (turnAfter src flags count srcVaddr tmpVaddr w).1 = 1 := by
  have hmapped := (@afterTurns_mapped src w flags srcVaddr tmpVaddr src hw hw count (by omega)
    (by omega) (le_trans (missing_mono w _ (Nat.le_succ count)) hroom)).1
  refine (sharePage_wrote hmapped.sharing hmapped.sharing ?_ ?_ ?_).1
  · rw [page_add]
    omega
  · rw [page_add]
    omega
  · rw [page_add]
    exact hmapped.room_iff.2 hroom

theorem turnAfter_of_no_room (hw : Sharing src w) {count : Nat}
    (hsrc : srcVaddr / pagingBaseSize + (count + 1) ≤ windowPage)
    (htmp : tmpVaddr / pagingBaseSize + (count + 1) ≤ windowPage)
    (hroom : missing w (tmpVaddr / pagingBaseSize) count ≤ w.pageTables.length)
    (hnone : w.pageTables.length < missing w (tmpVaddr / pagingBaseSize) (count + 1)) :
    (turnAfter src flags count srcVaddr tmpVaddr w).1 = 0 := by
  have hmapped := (@afterTurns_mapped src w flags srcVaddr tmpVaddr src hw hw count (by omega)
    (by omega) hroom).1
  have hno := mt hmapped.room_iff.1 (Nat.not_le.2 hnone)
  rw [not_or, not_not, not_not] at hno
  apply sharePage_none
  · rw [page_add]
    omega
  · rw [page_add]
    exact hno.1
  · exact hno.2

theorem exists_no_room (w : Walker) (first nPages : Nat)
    (h : w.pageTables.length < missing w first nPages) :
    ∃ i, i < nPages ∧ missing w first i ≤ w.pageTables.length ∧
      w.pageTables.length < missing w first (i + 1) := by
  induction nPages with
  | zero => exact absurd h (Nat.not_lt_zero _)
  | succ nPages ih =>
    rcases lt_or_ge w.pageTables.length (missing w first nPages) with hlt | hge
    · obtain ⟨i, hi, hroom, hnone⟩ := ih hlt
      exact ⟨i, by omega, hroom, hnone⟩
    · exact ⟨nPages, Nat.lt_succ_self _, hge, h⟩

theorem sharePages_of_room (hw : Sharing src w) {nPages : Nat}
    (hsrc : srcVaddr / pagingBaseSize + nPages ≤ windowPage)
    (htmp : tmpVaddr / pagingBaseSize + nPages ≤ windowPage)
    (hroom : missing w (tmpVaddr / pagingBaseSize) nPages ≤ w.pageTables.length) :
    sharePages src flags nPages srcVaddr tmpVaddr w =
      (true, afterTurns src flags nPages srcVaddr tmpVaddr w) := by
  apply sharePages_true hsrc htmp
  intro i hi
  exact turnAfter_of_room hw (by omega) (by omega) (le_trans (missing_mono w _ hi) hroom)

theorem sharePages_of_no_room (hw : Sharing src w) {nPages : Nat}
    (hsrc : srcVaddr / pagingBaseSize + nPages ≤ windowPage)
    (htmp : tmpVaddr / pagingBaseSize + nPages ≤ windowPage)
    (hnone : w.pageTables.length < missing w (tmpVaddr / pagingBaseSize) nPages) :
    (sharePages src flags nPages srcVaddr tmpVaddr w).1 = false := by
  obtain ⟨i, hi, hroom, hnext⟩ := exists_no_room w _ nPages hnone
  exact sharePages_false hsrc htmp hi
    (turnAfter_of_no_room hw (by omega) (by omega) hroom hnext)

end

end

section

variable {src : Source} {w : Walker} {srcVaddr nPages flags placementAddress loose : Nat}

/-- What is asked of a call. When it returns a range, the entry of the `i`-th page of it is that
of the frame which backs the `i`-th source page. When it returns `NULL`, no page is mapped
otherwise than before, and it has released the range that it got, and no other. -/
structure Right (src : Source) (w : Walker) (srcVaddr nPages flags : Nat) (outcome : Outcome) :
    Prop where
  shared : outcome.ret ≠ 0 → outcome.released = [] ∧ ∀ i, i < nPages → ∃ frame attribs,
    (lookupIn src w (srcVaddr + i * pagingBaseSize)).1 = ⟨.backed, some (frame, attribs)⟩ ∧
      outcome.walker.pageEntry (outcome.ret / pagingBaseSize + i) = frame ||| encodeFlags flags
  failed : outcome.ret = 0 → outcome.released = outcome.obtained ∧
    ∀ page, page < windowPage → outcome.walker.pageEntry page = w.pageEntry page

/-- The pages that are mapped before the `i`-th one leave the frame of the `i`-th source page to
be read. A source page that is itself one of them must have the same frame as the source page it
was mapped to. The table of a source page that is replaced by a new one reads as empty. -/
structure Undisturbed (src : Source) (w : Walker) (source target i : Nat) : Prop where
  overwritten : Sees src w ((source + i) / pagingNEntries) → ∀ j, j < i →
    target + j = source + i → backing src w (source + j) = backing src w (source + i)
  replaced : Sees src w ((source + i) / pagingNEntries) →
    w.entries ((source + i) / pagingNEntries) = 0 → (∀ j, j < i → target + j ≠ source + i) →
      (∃ j, j < i ∧ (target + j) / pagingNEntries = (source + i) / pagingNEntries) →
        backing src w (source + i) = 0

/-- There are frames for all the new tables, and every source page is backed when the call
starts and undisturbed by it. -/
structure Served (src : Source) (w : Walker) (srcVaddr nPages target : Nat) : Prop where
  room : missing w (target / pagingBaseSize) nPages ≤ w.pageTables.length
  backed : ∀ i, i < nPages →
    (lookupIn src w (srcVaddr + i * pagingBaseSize)).1.status = .backed
  undisturbed : ∀ i, i < nPages →
    Undisturbed src w (srcVaddr / pagingBaseSize) (target / pagingBaseSize) i

theorem frameOf_or (frame flags : Nat) :
    frameOf (frame ||| encodeFlags flags) = frameOf frame := by
  unfold frameOf
  rw [or_div_pagingBaseSize _ _ (encodeFlags_lt flags)]

theorem frameOf_frameOf (entry : Nat) : frameOf (frameOf entry) = frameOf entry := by
  unfold frameOf
  rw [Nat.mul_div_cancel _ (by decide)]

theorem frameOf_backing (src : Source) (w : Walker) (page : Nat) :
    frameOf (backing src w page) = backing src w page :=
  frameOf_frameOf _

theorem readFrame_iff (hw : Sharing src w) {tmpVaddr i : Nat}
    (hsrc : srcVaddr / pagingBaseSize + (i + 1) ≤ windowPage)
    (htmp : tmpVaddr / pagingBaseSize + i ≤ windowPage)
    (hroom : missing w (tmpVaddr / pagingBaseSize) i ≤ w.pageTables.length)
    (hbefore : ∀ j, j < i → readFrame src flags srcVaddr tmpVaddr w j =
      backing src w (srcVaddr / pagingBaseSize + j)) :
    readFrame src flags srcVaddr tmpVaddr w i = backing src w (srcVaddr / pagingBaseSize + i) ↔
      Undisturbed src w (srcVaddr / pagingBaseSize) (tmpVaddr / pagingBaseSize) i := by
  have hmapped := (@afterTurns_mapped src w flags srcVaddr tmpVaddr src hw hw i (by omega)
    htmp hroom).1
  have hlt : srcVaddr / pagingBaseSize + i < windowPage := by omega
  have hkept : (¬ Sees src w ((srcVaddr / pagingBaseSize + i) / pagingNEntries) ∨
      (∀ j, j < i → tmpVaddr / pagingBaseSize + j ≠ srcVaddr / pagingBaseSize + i) ∧
        (w.entries ((srcVaddr / pagingBaseSize + i) / pagingNEntries) ≠ 0 ∨
          ∀ j, j < i → (tmpVaddr / pagingBaseSize + j) / pagingNEntries ≠
            (srcVaddr / pagingBaseSize + i) / pagingNEntries)) →
      readFrame src flags srcVaddr tmpVaddr w i =
        backing src w (srcVaddr / pagingBaseSize + i) :=
    fun hapart => congrArg frameOf (hmapped.kept _ hlt hapart)
  rcases em (Sees src w ((srcVaddr / pagingBaseSize + i) / pagingNEntries))
    with hsees | hunseen
  · rcases em (∃ j, j < i ∧
      tmpVaddr / pagingBaseSize + j = srcVaddr / pagingBaseSize + i) with ⟨j, hj, hpage⟩ | hother
    · -- the source page was mapped in the turn of the `j`-th page
      have hread : readFrame src flags srcVaddr tmpVaddr w i =
          backing src w (srcVaddr / pagingBaseSize + j) := by
        have hwritten := hmapped.written j hj (by rw [hpage]; exact hsees)
        rw [hpage] at hwritten
        refine (congrArg frameOf hwritten).trans ?_
        rw [frameOf_or, hbefore j hj, frameOf_backing]
      rw [hread]
      constructor
      · intro hsame
        refine ⟨?_, fun _ _ hnone => absurd hpage (hnone j hj)⟩
        intro _ k _ hk
        have heq : k = j := by omega
        rw [heq]
        exact hsame
      · intro h
        exact h.overwritten hsees j hj hpage
    · have hnone : ∀ j, j < i →
          tmpVaddr / pagingBaseSize + j ≠ srcVaddr / pagingBaseSize + i :=
        fun j hj hpage => hother ⟨j, hj, hpage⟩
      rcases em (w.entries ((srcVaddr / pagingBaseSize + i) / pagingNEntries) = 0 ∧
        ∃ j, j < i ∧ (tmpVaddr / pagingBaseSize + j) / pagingNEntries =
          (srcVaddr / pagingBaseSize + i) / pagingNEntries) with ⟨hzero, hnew⟩ | hold
      · have hread : readFrame src flags srcVaddr tmpVaddr w i = 0 :=
          congrArg frameOf (hmapped.cleared _ hlt hsees hzero hnone hnew)
        rw [hread]
        constructor
        · intro hsame
          exact ⟨fun _ j hj hpage => absurd hpage (hnone j hj), fun _ _ _ _ => hsame.symm⟩
        · intro h
          exact (h.replaced hsees hzero hnone hnew).symm
      · refine iff_of_true (hkept (.inr ⟨hnone, ?_⟩)) ⟨?_, ?_⟩
        · refine (em _).symm.imp_right fun hzero j hj hindex => ?_
          exact hold ⟨hzero, j, hj, hindex⟩
        · intro _ j hj hpage
          exact absurd hpage (hnone j hj)
        · intro _ hzero _ hnew
          exact absurd ⟨hzero, hnew⟩ hold
  · exact iff_of_true (hkept (.inl hunseen))
      ⟨fun hsees => absurd hsees hunseen, fun hsees => absurd hsees hunseen⟩

theorem readFrames_iff (hw : Sharing src w) {tmpVaddr : Nat}
    (hsrc : srcVaddr / pagingBaseSize + nPages ≤ windowPage)
    (htmp : tmpVaddr / pagingBaseSize + nPages ≤ windowPage)
    (hroom : missing w (tmpVaddr / pagingBaseSize) nPages ≤ w.pageTables.length) :
    (∀ i, i < nPages → readFrame src flags srcVaddr tmpVaddr w i =
        backing src w (srcVaddr / pagingBaseSize + i)) ↔ ∀ i, i < nPages →
        Undisturbed src w (srcVaddr / pagingBaseSize) (tmpVaddr / pagingBaseSize) i := by
  have hturn : ∀ i, i < nPages →
      (∀ j, j < i → readFrame src flags srcVaddr tmpVaddr w j =
        backing src w (srcVaddr / pagingBaseSize + j)) →
      (readFrame src flags srcVaddr tmpVaddr w i = backing src w (srcVaddr / pagingBaseSize + i) ↔
        Undisturbed src w (srcVaddr / pagingBaseSize) (tmpVaddr / pagingBaseSize) i) := by
    intro i hi hbefore
    exact readFrame_iff hw (by omega) (by omega)
      (le_trans (missing_mono w _ (le_of_lt hi)) hroom) hbefore
  constructor
  · intro hread i hi
    exact (hturn i hi fun j hj => hread j (by omega)).1 (hread i hi)
  · intro hundisturbed i
    induction i using Nat.strong_induction_on with
    | _ i ih =>
      intro hi
      exact (hturn i hi fun j hj => ih j hj (by omega)).2 (hundisturbed i hi)

theorem lookupIn_backed (hw : Sharing src w) {vaddr : Nat}
    (hvaddr : vaddr / pagingBaseSize < windowPage) :
    (lookupIn src w vaddr).1.status = .backed ↔ ∃ attribs, (lookupIn src w vaddr).1 =
      ⟨.backed, some (backing src w (vaddr / pagingBaseSize), attribs)⟩ := by
  rw [lookupIn_found hw hvaddr]
  unfold backing
  generalize (view w (src.entries w)).pageEntry (vaddr / pagingBaseSize) = entry
  constructor
  · intro hbacked
    have hframe := readEntry_frame entry
    rcases eq_or_ne entry 0 with rfl | hne
    · cases hbacked
    have hentry : readEntry entry = ⟨(readEntry entry).status,
        some ((entry >>> 12) <<< 12, decodeFlags (entry &&& 0xFFF))⟩ := by
      unfold readEntry
      rw [if_neg hne]
    refine ⟨decodeFlags (entry &&& 0xFFF), ?_⟩
    rw [hentry] at hframe
    rw [hentry, hbacked, ← hframe]
    rfl
  · rintro ⟨attribs, heq⟩
    rw [heq]

theorem right_unchanged : Right src w srcVaddr nPages flags ⟨0, w, [], []⟩ :=
  ⟨fun hne => absurd rfl hne, fun _ => ⟨rfl, fun _ _ => rfl⟩⟩

theorem right_shared_iff (hw : Sharing src w) {tmpVaddr : Nat} {obtained : List (Nat × Nat)}
    (hsrc : srcVaddr / pagingBaseSize + nPages ≤ windowPage)
    (htmp : tmpVaddr / pagingBaseSize + nPages ≤ windowPage) (hne : tmpVaddr ≠ 0)
    (hroom : missing w (tmpVaddr / pagingBaseSize) nPages ≤ w.pageTables.length) :
    Right src w srcVaddr nPages flags
        ⟨tmpVaddr, afterTurns src flags nPages srcVaddr tmpVaddr w, obtained, []⟩ ↔
      Served src w srcVaddr nPages tmpVaddr := by
  have hpages := (@afterTurns_pages src w flags srcVaddr tmpVaddr hw nPages hsrc htmp hroom).2.1
  have hbacked : ∀ i, i < nPages →
      ((lookupIn src w (srcVaddr + i * pagingBaseSize)).1.status = .backed ↔ ∃ attribs,
        (lookupIn src w (srcVaddr + i * pagingBaseSize)).1 =
          ⟨.backed, some (backing src w (srcVaddr / pagingBaseSize + i), attribs)⟩) := by
    intro i hi
    have hpage := page_add srcVaddr i
    rw [← hpage]
    exact lookupIn_backed hw (by omega)
  have hframes := @readFrames_iff src w srcVaddr nPages flags hw tmpVaddr hsrc htmp hroom
  constructor
  · rintro ⟨hshared, -⟩
    obtain ⟨-, hshared⟩ := hshared hne
    refine ⟨hroom, ?_, ?_⟩
    · intro i hi
      obtain ⟨frame, attribs, hfound, -⟩ := hshared i hi
      rw [hfound]
    · refine hframes.1 fun i hi => ?_
      obtain ⟨frame, attribs, hfound, hentry⟩ := hshared i hi
      obtain ⟨attribs', hfound'⟩ := (hbacked i hi).1 (by rw [hfound])
      rw [hfound] at hfound'
      have hframe : frame = backing src w (srcVaddr / pagingBaseSize + i) := by
        injection hfound' with _ hsome
        injection hsome with hpair
        exact (Prod.mk.inj hpair).1
      rw [hpages i hi, hframe] at hentry
      have hsame := congrArg frameOf hentry
      rw [frameOf_or, frameOf_or, frameOf_backing] at hsame
      exact (frameOf_backing src _ _).symm.trans hsame
  · rintro ⟨-, hstatus, hundisturbed⟩
    refine ⟨fun _ => ⟨rfl, ?_⟩, fun hzero => absurd hzero hne⟩
    intro i hi
    obtain ⟨attribs, hfound⟩ := (hbacked i hi).1 (hstatus i hi)
    refine ⟨_, attribs, hfound, ?_⟩
    rw [hpages i hi, hframes.2 hundisturbed i hi]

def obtainedRange (nPages placementAddress loose : Nat) : List (Nat × Nat) :=
  if placementAddress ≠ 0 ∨ loose = 0 then [] else [(loose, nPages)]

theorem createSharedMappingTo_nothing
    (h : (nPages = 0 ∨ srcVaddr = 0) ∨ targetVaddr placementAddress loose = 0) :
    createSharedMappingTo src w srcVaddr nPages flags placementAddress loose = ⟨0, w, [], []⟩ := by
  unfold createSharedMappingTo
  rcases em (nPages = 0 ∨ srcVaddr = 0) with hnothing | hsome
  · rw [if_pos hnothing]
  -- `getPages` was asked and returned `NULL`
  have hzero := h.resolve_left hsome
  have hplacement : placementAddress = 0 := by
    refine Classical.byContradiction fun hne => hne ?_
    rwa [targetVaddr, if_pos hne] at hzero
  have hloose : loose = 0 := by rwa [targetVaddr, if_neg (not_not.2 hplacement)] at hzero
  rw [if_neg hsome]
  rw [if_pos hzero, if_pos (.inr hloose)]

section

variable (hw : Sharing src w) (hsome : ¬ (nPages = 0 ∨ srcVaddr = 0))
variable (hne : targetVaddr placementAddress loose ≠ 0)
variable (hsrc : srcVaddr / pagingBaseSize + nPages ≤ windowPage)
variable (htmp : targetVaddr placementAddress loose / pagingBaseSize + nPages ≤ windowPage)

include hw hsome hne hsrc htmp

theorem createSharedMappingTo_of_room
    (hroom : missing w (targetVaddr placementAddress loose / pagingBaseSize) nPages ≤
      w.pageTables.length) :
    createSharedMappingTo src w srcVaddr nPages flags placementAddress loose =
      ⟨targetVaddr placementAddress loose,
        afterTurns src flags nPages srcVaddr (targetVaddr placementAddress loose) w,
        obtainedRange nPages placementAddress loose, []⟩ := by
  unfold createSharedMappingTo
  rw [if_neg hsome]
  rw [if_neg hne, sharePages_of_room hw hsrc htmp hroom, if_pos rfl]
  rfl

theorem createSharedMappingTo_of_no_room (hnone : w.pageTables.length <
      missing w (targetVaddr placementAddress loose / pagingBaseSize) nPages) :
    (createSharedMappingTo src w srcVaddr nPages flags placementAddress loose).ret = 0 ∧
      (createSharedMappingTo src w srcVaddr nPages flags placementAddress loose).released ≠
        (createSharedMappingTo src w srcVaddr nPages flags placementAddress loose).obtained := by
  unfold createSharedMappingTo
  rw [if_neg hsome]
  dsimp only
  rw [if_neg hne, sharePages_of_no_room hw hsrc htmp hnone, if_neg (by decide)]
  refine ⟨rfl, ?_⟩
  intro hreleased
  rcases eq_or_ne placementAddress 0 with hplacement | hplacement
  · have hloose : loose ≠ 0 := by rwa [targetVaddr, if_neg (not_not.2 hplacement)] at hne
    rw [if_neg (not_not.2 hplacement),
      if_neg fun h => h.elim (fun h => h hplacement) hloose] at hreleased
    cases hreleased
  · rw [if_pos hplacement, if_pos (.inl hplacement)] at hreleased
    cases hreleased

end

/-- Exactly these calls do right: those that ask for nothing or get no range, and those that
find a frame for every table they miss, and every source page backed and undisturbed. -/
theorem createSharedMappingTo_right_iff (hw : Sharing src w)
    (hsrc : srcVaddr / pagingBaseSize + nPages ≤ windowPage)
    (htmp : targetVaddr placementAddress loose / pagingBaseSize + nPages ≤ windowPage) :
    Right src w srcVaddr nPages flags
        (createSharedMappingTo src w srcVaddr nPages flags placementAddress loose) ↔
      (nPages = 0 ∨ srcVaddr = 0) ∨ targetVaddr placementAddress loose = 0 ∨
        Served src w srcVaddr nPages (targetVaddr placementAddress loose) := by
  rw [← or_assoc]
  rcases em ((nPages = 0 ∨ srcVaddr = 0) ∨ targetVaddr placementAddress loose = 0)
    with hnothing | hsome
  · rw [createSharedMappingTo_nothing hnothing]
    exact iff_of_true right_unchanged (.inl hnothing)
  rw [or_iff_right hsome]
  obtain ⟨hsome, hne⟩ := not_or.1 hsome
  rcases lt_or_ge w.pageTables.length
    (missing w (targetVaddr placementAddress loose / pagingBaseSize) nPages) with hnone | hroom
  · obtain ⟨hret, hreleased⟩ :=
      @createSharedMappingTo_of_no_room _ _ _ _ flags _ _ hw hsome hne hsrc htmp hnone
    exact iff_of_false (fun h => hreleased (h.failed hret).1)
      fun h => absurd h.room (Nat.not_le.2 hnone)
  · rw [createSharedMappingTo_of_room hw hsome hne hsrc htmp hroom]
    exact right_shared_iff hw hsrc htmp hne hroom

theorem undisturbed_of_le {source target count : Nat}
    (hentry : ∀ i, i < count → w.entries ((source + i) / pagingNEntries) ≠ 0)
    (hle : source + count ≤ target) : ∀ i, i < count → Undisturbed src w source target i := by
  intro i hi
  refine ⟨?_, fun _ hzero => absurd hzero (hentry i hi)⟩
  intro _ j _ heq
  omega

/-- The pages from `0x400000` on, of which the first `count` are mapped. -/
def pagesWalker (count : Nat) : Walker where
  entries := fun i => if i = 1 then 0x4003 else 0
  tables := fun f j => if f = 4 ∧ j < count then 0x100003 + j * pagingBaseSize else 0
  windowFrame := 3
  pageTables := []
  kernelEntries := none

theorem pagesWalker_wellFormed (count : Nat) : WellFormed (pagesWalker count) := by
  have hentry : ∀ i, (pagesWalker count).entries i ≠ 0 → i = 1 := by
    intro i hne
    rcases eq_or_ne i 1 with heq | hi
    · exact heq
    · exact absurd (if_neg hi) hne
  refine ⟨?_, ?_, by simp [pagesWalker], List.Pairwise.nil⟩
  · intro i j _ _ hi hj _
    rw [hentry i hi, hentry j hj]
  · intro i _ hi hframe
    rw [hentry i hi] at hframe
    exact absurd hframe (show ¬0x4003 / pagingBaseSize = 3 by decide)

theorem createSharedMappingTo_right_iff_twoPages :
    Right .own (pagesWalker 2) 0x400000 2 pageAttribPresent
      (createSharedMappingTo .own (pagesWalker 2) 0x400000 2 pageAttribPresent 0x402000 0) := by
  refine (createSharedMappingTo_right_iff (Sharing.ofOwn (pagesWalker_wellFormed 2)) (by decide)
    (by decide)).2 (.inr (.inr ⟨by decide, by decide, ?_⟩))
  exact undisturbed_of_le (by decide) (by decide)

theorem createSharedMappingTo_unmapped_not_right : Sharing .own (pagesWalker 1) ∧
      (createSharedMappingTo .own (pagesWalker 1) 0x402000 1 pageAttribPresent 0x401000
        0).walker.pageEntry 0x401 = encodeFlags pageAttribPresent ∧
      ¬ Right .own (pagesWalker 1) 0x402000 1 pageAttribPresent
        (createSharedMappingTo .own (pagesWalker 1) 0x402000 1 pageAttribPresent 0x401000 0) := by
  refine ⟨Sharing.ofOwn (pagesWalker_wellFormed 1), by decide +kernel, ?_⟩
  rintro ⟨hshared, -⟩
  obtain ⟨-, hpages⟩ := hshared (by decide +kernel)
  obtain ⟨frame, attribs, hfound, -⟩ := hpages 0 one_pos
  have hunmapped : (lookupIn .own (pagesWalker 1) (0x402000 + 0 * pagingBaseSize)).1.status =
      .unmapped := by
    decide +kernel
  rw [hfound] at hunmapped
  cases hunmapped

end

end Zambesii.SharedMapping
