import Mathlib.Tactic.IntervalCases
import Zambesii.SetAttributes

/-!
`walkerPageRanger::unmap` clears the entries of a range through the window. It reads the
entry of the first page on the way, with a switch of its own.
-/

namespace Zambesii.Unmap

open KernelTypes PageAttributes WalkerPageRanger SetAttributes

/-- The switch of `unmap`; it has fewer cases than the one of `lookup`. -/
def switchStatus (ret : Status) (paddr : Nat) : Status :=
  match (paddr >>> 12) &&& 7 with
  | 1 => .swapped
  | 2 => .guardpage
  | 4 => .fakemappedStatic
  | 5 => .fakemappedDynamic
  | _ => ret

/-- The part of `unmap` that reads the level 1 entry of the first page. -/
def readFirst (found : Found) (l1Entry : Nat) : Found :=
  if l1Entry ≠ 0 then
    let flags := decodeFlags (l1Entry &&& 0xFFF)
    let paddr := (l1Entry >>> 12) <<< 12
    { status :=
        if flagTest flags pageAttribPresent = false then switchStatus found.status paddr
        else .backed
      written := some (paddr, flags) }
  else { found with status := .unmapped }

/-- The variables of `unmap` that its loops change: the walker, `ret` and what was written
to the caller's `paddr` and `flags`. -/
structure Unmapping where
  walker : Walker
  found : Found

/-- The level 1 loop of `unmap`, with `remaining` turns left. -/
def unmapEntries (range : LevelRanges) (l0Current : Nat) : Nat → Nat → Unmapping → Unmapping
  | 0, _, u => u
  | remaining + 1, l1Current, u =>
    let l1Entry := u.walker.level1Accessor l1Current
    unmapEntries range l0Current remaining (l1Current + 1)
      { walker := u.walker.setLevel1Accessor l1Current 0
        found :=
          if l0Current ≠ range.l0Start ∨ l1Current ≠ range.l1Start then u.found
          else readFirst u.found l1Entry }

/-- The level 0 loop of `unmap`, with `remaining` turns left. -/
def unmapTables (range : LevelRanges) : Nat → Nat → Unmapping → Unmapping
  | 0, _, u => u
  | remaining + 1, l0Current, u =>
    let l0Entry := u.walker.entries l0Current
    if l0Entry = 0 then unmapTables range remaining (l0Current + 1) u
    else
      let shown := { u with walker := u.walker.setLevel1Modifier l0Entry }
      let l1Current := if l0Current = range.l0Start then range.l1Start else 0
      let l1Limit :=
        if l0Current = range.l0End then range.l1End else pagingNEntries - 1
      unmapTables range remaining (l0Current + 1)
        (unmapEntries range l0Current (l1Limit + 1 - l1Current) l1Current shown)

def unmap (w : Walker) (vaddr nPages : Nat) : Unmapping :=
  if nPages = 0 then { walker := w, found := { status := .unmapped, written := none } }
  else
    let vaddr := vaddr &&& pagingBaseMaskHigh
    let range := getLevelRanges vaddr nPages
    unmapTables range (range.l0End + 1 - range.l0Start) range.l0Start
      { walker := w, found := { status := .unmapped, written := none } }

/-- What `unmap` is for: `lookup` finds nothing at the pages of the range and the same as
before at every other page, and what it found at the first page before is returned. -/
structure Meets (w : Walker) (vaddr nPages : Nat) : Prop where
  inside : ∀ addr, addr < wordModulus → vaddr / pagingBaseSize ≤ addr / pagingBaseSize →
    addr / pagingBaseSize < vaddr / pagingBaseSize + nPages →
      (lookup (unmap w vaddr nPages).walker addr).1 = { status := .unmapped, written := none }
  outside : ∀ addr, addr < wordModulus →
    addr / pagingBaseSize < vaddr / pagingBaseSize ∨
      vaddr / pagingBaseSize + nPages ≤ addr / pagingBaseSize →
      (lookup (unmap w vaddr nPages).walker addr).1 = (lookup w addr).1
  found : (unmap w vaddr nPages).found = (lookup w vaddr).1

/-- An entry that is not present and has the page status `PAGESTATUS_HEAP_GUARDPAGE`. -/
def HeapGuard (l1Entry : Nat) : Prop :=
  flagTest l1Entry pagingPresent = false ∧ (l1Entry >>> 12) &&& 7 = 3

instance (l1Entry : Nat) : Decidable (HeapGuard l1Entry) :=
  inferInstanceAs (Decidable (_ ∧ _))

/-- The window's entry after the level 0 entries from `l0Current` on were shown in it. -/
def lastShown (entries : Nat → Nat) : Nat → Nat → Nat → Nat
  | 0, _, modifier => modifier
  | remaining + 1, l0Current, modifier =>
    lastShown entries remaining (l0Current + 1)
      (if entries l0Current = 0 then modifier else entries l0Current)

/-- When `unmap` does what it is for: the first page is no guard page of the heap, and the
window, where it is a page of the address space, is not in the range and has the flags of
the last table that is shown in it. -/
structure Readable (w : Walker) (vaddr nPages : Nat) : Prop where
  first : ¬ HeapGuard (w.pageEntry (vaddr / pagingBaseSize))
  window : OwnsWindow w → vaddr / pagingBaseSize + nPages ≤ windowPage ∧
    decodeFlags (lastShown w.entries
      ((vaddr / pagingBaseSize + (nPages - 1)) / pagingNEntries + 1 -
        vaddr / pagingBaseSize / pagingNEntries)
      (vaddr / pagingBaseSize / pagingNEntries) w.level1Modifier &&& 0xFFF) =
      decodeFlags (w.level1Modifier &&& 0xFFF)

theorem shiftLeft_shiftRight_cancel (entry : Nat) :
    ((entry >>> 12) <<< 12) >>> 12 = entry >>> 12 := by
  omega

theorem switchStatus_eq_iff (paddr : Nat) :
    switchStatus .unmapped paddr = pageStatus paddr ↔ (paddr >>> 12) &&& 7 ≠ 3 := by
  have hlt : (paddr >>> 12) &&& 7 ≤ 7 := Nat.and_le_right
  unfold switchStatus pageStatus
  generalize (paddr >>> 12) &&& 7 = n at hlt ⊢
  interval_cases n <;> decide

theorem flagTest_and_present (entry : Nat) :
    flagTest (decodeFlags (entry &&& 0xFFF)) pageAttribPresent = flagTest entry pagingPresent := by
  rw [flagTest_decodeFlags_present, pagingPresent, flagTest_shiftLeft, flagTest_shiftLeft,
    Nat.testBit_and]
  simp

theorem readFirst_eq_readEntry_iff (l1Entry : Nat) :
    readFirst { status := .unmapped, written := none } l1Entry = readEntry l1Entry ↔
      ¬ HeapGuard l1Entry := by
  rcases eq_or_ne l1Entry 0 with rfl | hne
  · constructor
    · intro _
      decide
    · intro _
      rfl
  unfold readFirst readEntry HeapGuard
  rw [if_pos hne, if_neg hne]
  simp only [Found.mk.injEq, and_true, flagTest_and_present]
  cases flagTest l1Entry pagingPresent with
  | true => simp
  | false =>
    simp only [if_true, true_and, Bool.false_eq_true, if_false]
    rw [switchStatus_eq_iff, shiftLeft_shiftRight_cancel]

theorem pageEntry_windowPage (w : Walker) (hown : OwnsWindow w) :
    w.pageEntry windowPage = w.level1Modifier := by
  unfold Walker.pageEntry Walker.level1Modifier
  have hdiv : windowPage / pagingNEntries = pagingNEntries - 1 := by decide
  have hmod : windowPage % pagingNEntries = pagingNEntries - 1 := by decide
  rw [hdiv, hmod, if_neg hown.1, hown.2]

theorem lookup_window (w : Walker) (hown : OwnsWindow w) (vaddr : Nat)
    (hvaddr : vaddr < wordModulus) (hpage : vaddr / pagingBaseSize = windowPage) :
    (lookup w vaddr).1 = readEntry
      ((w.level1Modifier &&& 0xFFF) |||
        ((w.entries (pagingNEntries - 1) >>> 12) <<< 12)) := by
  have hl0 : windowPage / pagingNEntries = pagingNEntries - 1 := by decide
  have hl1 : windowPage % pagingNEntries = pagingNEntries - 1 := by decide
  rw [lookup_page w vaddr hvaddr, hpage, hl0, hl1, if_neg hown.1, Nat.lor_comm]
  show readEntry (Walker.level1Accessor _ _) = _
  unfold Walker.level1Accessor
  rw [accessorFrame_moved, hown.2]
  simp [Walker.setLevel1Modifier, Walker.writeTable]

theorem readEntry_window (modifier l0Entry : Nat) (hframe : l0Entry / pagingBaseSize ≠ 0) :
    readEntry ((modifier &&& 0xFFF) ||| ((l0Entry >>> 12) <<< 12)) =
      { status :=
          if flagTest (decodeFlags (modifier &&& 0xFFF)) pageAttribPresent then .backed
          else pageStatus ((l0Entry >>> 12) <<< 12)
        written := some ((l0Entry >>> 12) <<< 12, decodeFlags (modifier &&& 0xFFF)) } := by
  have hbase : (l0Entry >>> 12) <<< 12 = l0Entry / pagingBaseSize * 2 ^ 12 := by
    rw [Nat.shiftLeft_eq, Nat.shiftRight_eq_div_pow]
    rfl
  have hlow : (modifier &&& 0xFFF ||| (l0Entry >>> 12) <<< 12) &&& 0xFFF = modifier &&& 0xFFF := by
    have hmask : (0xFFF : Nat) = 2 ^ 12 - 1 := rfl
    rw [hmask, Nat.and_two_pow_sub_one_eq_mod, Nat.and_two_pow_sub_one_eq_mod,
      Nat.or_mod_two_pow, hbase, Nat.mul_mod_left, Nat.mod_mod, Nat.or_zero]
  have hhigh : ((modifier &&& 0xFFF ||| (l0Entry >>> 12) <<< 12) >>> 12) <<< 12 =
      (l0Entry >>> 12) <<< 12 := by
    rw [Nat.lor_comm, Nat.shiftRight_eq_div_pow]
    show (_ / pagingBaseSize) <<< 12 = _
    rw [or_div_pagingBaseSize _ _ (and_lt_pagingBaseSize modifier), hbase, Nat.shiftLeft_eq]
    show l0Entry / pagingBaseSize * pagingBaseSize / pagingBaseSize * 2 ^ 12 = _
    rw [Nat.mul_div_cancel _ (by decide)]
  have hne : modifier &&& 0xFFF ||| (l0Entry >>> 12) <<< 12 ≠ 0 := by
    intro hzero
    have hright := (Nat.or_eq_zero_iff.mp hzero).2
    rw [hbase] at hright
    exact hframe ((Nat.mul_eq_zero.mp hright).resolve_right (by decide))
  unfold readEntry
  rw [if_neg hne]
  simp only [hlow, hhigh]

theorem unmapEntries_pages (range : LevelRanges) (l0Current : Nat)
    (hl0 : l0Current < pagingNEntries) (remaining l1Current : Nat) (u : Unmapping)
    (hw : WellFormed u.walker) (hl1 : l1Current + remaining ≤ pagingNEntries)
    (hentry : u.walker.entries l0Current ≠ 0)
    (haccessor : remaining ≠ 0 →
      u.walker.accessorFrame = u.walker.entries l0Current / pagingBaseSize) (page : Nat)
    (hpage : page ≤ windowPage) :
    (unmapEntries range l0Current remaining l1Current u).walker.pageEntry page =
      if l0Current * pagingNEntries + l1Current ≤ page ∧
          page < l0Current * pagingNEntries + l1Current + remaining then 0
      else u.walker.pageEntry page := by
  induction remaining generalizing l1Current u with
  | zero =>
    rw [if_neg (by omega)]
    rfl
  | succ remaining ih =>
    have hacc := haccessor (Nat.succ_ne_zero remaining)
    have hlt : l1Current < pagingNEntries := by omega
    have hwrite := setLevel1Accessor_pageEntry u.walker hw l0Current l1Current 0 hlt hentry hacc
      page hl0 hpage
    -- Only the last entry of the last table can be the window's own.
    have hstays : remaining ≠ 0 →
        (u.walker.setLevel1Accessor l1Current 0).accessorFrame =
          (u.walker.setLevel1Accessor l1Current 0).entries l0Current / pagingBaseSize := by
      intro hne
      refine Eq.trans ?_ hacc
      apply accessorFrame_setLevel1Accessor u.walker hw l0Current l1Current _ hl0 hentry hacc
      simp only [windowPage, pagingNEntries] at hl0 hl1 ⊢
      omega
    have hrest := ih (l1Current + 1)
      { walker := u.walker.setLevel1Accessor l1Current 0
        found :=
          if l0Current ≠ range.l0Start ∨ l1Current ≠ range.l1Start then u.found
          else readFirst u.found (u.walker.level1Accessor l1Current) }
      (hw.writeTable _ _ _) (by omega) hentry hstays
    refine hrest.trans ?_
    rw [hwrite]
    rcases lt_trichotomy page (l0Current * pagingNEntries + l1Current) with hlt' | heq | hgt
    · rw [if_neg (by omega), if_neg (by omega), if_neg (by omega)]
    · rw [if_neg (by omega), if_pos heq, if_pos (by omega)]
    · rcases lt_or_ge page (l0Current * pagingNEntries + l1Current + (remaining + 1)) with
        hin | hout
      · rw [if_pos (by omega), if_pos (by omega)]
      · rw [if_neg (by omega), if_neg (by omega), if_neg (by omega)]

theorem unmapEntries_walker (range : LevelRanges) (l0Current remaining l1Current : Nat)
    (u : Unmapping) :
    ∃ tables, (unmapEntries range l0Current remaining l1Current u).walker =
      { u.walker with tables := tables } := by
  induction remaining generalizing l1Current u with
  | zero => exact ⟨u.walker.tables, rfl⟩
  | succ remaining ih =>
    obtain ⟨tables, htables⟩ := ih (l1Current + 1)
      { walker := u.walker.setLevel1Accessor l1Current 0
        found :=
          if l0Current ≠ range.l0Start ∨ l1Current ≠ range.l1Start then u.found
          else readFirst u.found (u.walker.level1Accessor l1Current) }
    exact ⟨tables, htables⟩

theorem unmapEntries_found (range : LevelRanges) (l0Current remaining l1Current : Nat)
    (u : Unmapping) (hlater : l0Current ≠ range.l0Start ∨ range.l1Start < l1Current) :
    (unmapEntries range l0Current remaining l1Current u).found = u.found := by
  induction remaining generalizing l1Current u with
  | zero => rfl
  | succ remaining ih =>
    unfold unmapEntries
    rw [ih (l1Current + 1) _ (hlater.imp_right fun h => by omega)]
    exact if_pos (hlater.imp_right ne_of_gt)

theorem unmapEntries_found_first (range : LevelRanges) (count : Nat) (u : Unmapping) :
    (unmapEntries range range.l0Start (count + 1) range.l1Start u).found =
      readFirst u.found (u.walker.level1Accessor range.l1Start) := by
  refine (unmapEntries_found range range.l0Start count (range.l1Start + 1) _
    (Or.inr (Nat.lt_succ_self _))).trans ?_
  exact if_neg (by simp)

def unmapTable (range : LevelRanges) (l0Current : Nat) (u : Unmapping) : Unmapping :=
  if u.walker.entries l0Current = 0 then u
  else
    unmapEntries range l0Current (turnCount range l0Current) (firstIndex range l0Current)
      { u with walker := u.walker.setLevel1Modifier (u.walker.entries l0Current) }

theorem unmapTables_succ (range : LevelRanges) (remaining l0Current : Nat) (u : Unmapping) :
    unmapTables range (remaining + 1) l0Current u =
      unmapTables range remaining (l0Current + 1) (unmapTable range l0Current u) := by
  unfold unmapTable
  rcases eq_or_ne (u.walker.entries l0Current) 0 with hzero | hne
  · rw [if_pos hzero]
    show (if u.walker.entries l0Current = 0 then _ else _) = _
    rw [if_pos hzero]
  · rw [if_neg hne]
    show (if u.walker.entries l0Current = 0 then _ else _) = _
    rw [if_neg hne]
    rfl

def pageRanges (first last : Nat) : LevelRanges where
  l0Start := first / pagingNEntries
  l0End := last / pagingNEntries
  l1Start := first % pagingNEntries
  l1End := last % pagingNEntries

/-- What the turns of `count` tables from `l0Current` on have done. -/
structure Clears (first last l0Current count : Nat) (w after : Walker) : Prop where
  walker : ∃ tables, after = { w with tables := tables }
  pages : ∀ page, Apart w page →
    after.pageEntry page =
      if l0Current ≤ page / pagingNEntries ∧ page / pagingNEntries < l0Current + count ∧
          first ≤ page ∧ page ≤ last then 0
      else w.pageEntry page
  window : OwnsWindow w →
    after.level1Modifier =
      if pagingNEntries ≤ l0Current + count ∧ windowPage ≤ last ∧ count ≠ 0 then 0
      else lastShown w.entries count l0Current w.level1Modifier

theorem Clears.refl (first last l0Current : Nat) (w : Walker) :
    Clears first last l0Current 0 w w := by
  constructor
  · exact ⟨w.tables, rfl⟩
  · intro page _
    rw [if_neg (by omega)]
  · intro _
    rw [if_neg (by omega)]
    rfl

theorem WellFormed.of_tables {w : Walker} (hw : WellFormed w) (tables : Nat → Nat → Nat) :
    WellFormed { w with tables := tables } :=
  ⟨hw.own, hw.window, hw.fresh, hw.distinct⟩

theorem Clears.trans {first last l0Current count : Nat} {w v after : Walker}
    (hturn : Clears first last l0Current 1 w v)
    (hrest : Clears first last (l0Current + 1) count v after)
    (hl0 : l0Current + (count + 1) ≤ pagingNEntries) :
    Clears first last l0Current (count + 1) w after := by
  obtain ⟨tables, rfl⟩ := hturn.walker
  obtain ⟨tables', rfl⟩ := hrest.walker
  constructor
  · exact ⟨tables', rfl⟩
  · intro page hpage
    rw [hrest.pages page hpage, hturn.pages page hpage]
    split_ifs <;> first | rfl | omega
  · intro hown
    rw [hrest.window hown, hturn.window hown]
    rcases eq_zero_or_pos count with rfl | hcount
    · simp [lastShown]
    have hnot : ¬ (pagingNEntries ≤ l0Current + 1 ∧ windowPage ≤ last ∧ 1 ≠ 0) := by omega
    rw [if_neg hnot]
    have hiff : (pagingNEntries ≤ l0Current + 1 + count ∧ windowPage ≤ last ∧ count ≠ 0) ↔
        (pagingNEntries ≤ l0Current + (count + 1) ∧ windowPage ≤ last ∧ count + 1 ≠ 0) := by
      omega
    simp only [hiff]
    rfl

section

variable (first last : Nat) (hle : first ≤ last) (hlast : last ≤ windowPage)

include hle hlast

omit hle hlast in
theorem firstIndex_pageRanges (l0Current : Nat) :
    firstIndex (pageRanges first last) l0Current =
      if l0Current = first / 1024 then first % 1024 else 0 := rfl

omit hle hlast in
theorem turnCount_pageRanges (l0Current : Nat) :
    turnCount (pageRanges first last) l0Current =
      (if l0Current = last / 1024 then last % 1024 else 1023) + 1 -
        if l0Current = first / 1024 then first % 1024 else 0 := rfl

omit hlast in
theorem mem_turn_iff (l0Current page : Nat) (hstart : first / pagingNEntries ≤ l0Current)
    (hend : l0Current ≤ last / pagingNEntries) :
    (l0Current * pagingNEntries + firstIndex (pageRanges first last) l0Current ≤ page ∧
      page < l0Current * pagingNEntries + firstIndex (pageRanges first last) l0Current +
        turnCount (pageRanges first last) l0Current) ↔
      (l0Current ≤ page / pagingNEntries ∧ page / pagingNEntries < l0Current + 1 ∧
        first ≤ page ∧ page ≤ last) := by
  rw [turnCount_pageRanges, firstIndex_pageRanges]
  unfold pagingNEntries at *
  split_ifs <;> omega

omit hlast in
theorem firstIndex_add_turnCount (l0Current : Nat) : firstIndex (pageRanges first last) l0Current +
      turnCount (pageRanges first last) l0Current ≤ pagingNEntries := by
  rw [turnCount_pageRanges, firstIndex_pageRanges]
  unfold pagingNEntries at *
  split_ifs <;> omega

theorem unmapTable_clears (l0Current : Nat) (u : Unmapping) (hw : WellFormed u.walker)
    (hstart : first / pagingNEntries ≤ l0Current) (hend : l0Current ≤ last / pagingNEntries) :
    Clears first last l0Current 1 u.walker
      (unmapTable (pageRanges first last) l0Current u).walker := by
  have hl0 : l0Current < pagingNEntries :=
    lt_of_le_of_lt hend (div_lt_of_le_windowPage hlast)
  unfold unmapTable
  rcases eq_or_ne (u.walker.entries l0Current) 0 with hzero | hne
  · rw [if_pos hzero]
    constructor
    · exact ⟨u.walker.tables, rfl⟩
    · intro page _
      rcases eq_or_ne (page / pagingNEntries) l0Current with hpage | hpage
      · have hnone : u.walker.pageEntry page = 0 := by
          unfold Walker.pageEntry
          rw [hpage, if_pos hzero]
        rw [hnone, ite_self]
      · rw [if_neg (by omega)]
    · intro hown
      have hother : l0Current ≠ pagingNEntries - 1 := by
        rintro rfl
        exact hown.1 hzero
      rw [if_neg (by omega), lastShown, if_pos hzero]
      rfl
  rw [if_neg hne]
  let shown : Unmapping :=
    { u with walker := u.walker.setLevel1Modifier (u.walker.entries l0Current) }
  have hturn := fun page => mem_turn_iff first last hle l0Current page hstart hend
  have hbound := firstIndex_add_turnCount first last hle l0Current
  have hpages := unmapEntries_pages (pageRanges first last) l0Current hl0
    _ _ shown (hw.writeTable _ _ _) hbound hne
    (fun _ => accessorFrame_setLevel1Modifier u.walker _)
  obtain ⟨tables, htables⟩ := unmapEntries_walker (pageRanges first last) l0Current
    (turnCount (pageRanges first last) l0Current)
    (firstIndex (pageRanges first last) l0Current) shown
  constructor
  · exact ⟨tables, htables⟩
  · intro page hpage
    refine (hpages page hpage.1).trans ?_
    simp only [hturn]
    rw [pageEntry_setLevel1Modifier_apart u.walker hw _ page hpage]
  · intro hown
    have hafter : OwnsWindow (unmapEntries (pageRanges first last) l0Current
        (turnCount (pageRanges first last) l0Current)
        (firstIndex (pageRanges first last) l0Current) shown).walker := by
      rw [htables]
      exact hown
    have hmodifier := hpages windowPage (le_refl _)
    rw [pageEntry_windowPage _ hafter, pageEntry_windowPage shown.walker hown] at hmodifier
    refine hmodifier.trans ?_
    simp only [hturn]
    have hshown : shown.walker.level1Modifier = u.walker.entries l0Current := by
      simp [shown, Walker.level1Modifier, Walker.setLevel1Modifier, Walker.writeTable]
    rw [hshown, lastShown, if_neg hne]
    have hiff : (l0Current ≤ windowPage / pagingNEntries ∧
        windowPage / pagingNEntries < l0Current + 1 ∧ first ≤ windowPage ∧ windowPage ≤ last) ↔
        (pagingNEntries ≤ l0Current + 1 ∧ windowPage ≤ last ∧ 1 ≠ 0) := by
      simp only [windowPage, pagingNEntries] at *
      omega
    simp only [hiff]
    rfl

theorem unmapTables_clears (remaining l0Current : Nat) (u : Unmapping) (hw : WellFormed u.walker)
    (hstart : first / pagingNEntries ≤ l0Current)
    (hend : l0Current + remaining ≤ last / pagingNEntries + 1) :
    Clears first last l0Current remaining u.walker
      (unmapTables (pageRanges first last) remaining l0Current u).walker := by
  induction remaining generalizing l0Current u with
  | zero => exact Clears.refl first last l0Current u.walker
  | succ remaining ih =>
    have hlimit := div_lt_of_le_windowPage hlast
    have hturn := unmapTable_clears first last hle hlast l0Current u hw hstart (by omega)
    obtain ⟨tables, htables⟩ := hturn.walker
    rw [unmapTables_succ]
    refine hturn.trans (ih (l0Current + 1) _ ?_ (by omega) (by omega)) (by omega)
    rw [htables]
    exact WellFormed.of_tables hw tables

end

theorem unmapTables_found (range : LevelRanges) (remaining l0Current : Nat) (u : Unmapping)
    (hlater : range.l0Start < l0Current) :
    (unmapTables range remaining l0Current u).found = u.found := by
  induction remaining generalizing l0Current u with
  | zero => rfl
  | succ remaining ih =>
    rw [unmapTables_succ, ih (l0Current + 1) _ (by omega)]
    unfold unmapTable
    split_ifs
    · rfl
    · exact unmapEntries_found range l0Current _ _ _ (.inl (ne_of_gt hlater))

section

variable (w : Walker) (hw : WellFormed w) (vaddr nPages : Nat)
variable (hvaddr : vaddr < wordModulus) (hpos : 0 < nPages)
variable (hend : vaddr / pagingBaseSize + nPages ≤ pagingNEntries * pagingNEntries)

include hvaddr hpos hend

theorem unmap_eq :
    unmap w vaddr nPages =
      unmapTables (pageRanges (vaddr / pagingBaseSize) (vaddr / pagingBaseSize + (nPages - 1)))
        ((vaddr / pagingBaseSize + (nPages - 1)) / pagingNEntries + 1 -
          vaddr / pagingBaseSize / pagingNEntries)
        (vaddr / pagingBaseSize / pagingNEntries)
        { walker := w, found := { status := .unmapped, written := none } } := by
  have hbase : vaddr / pagingBaseSize * pagingBaseSize / pagingBaseSize =
      vaddr / pagingBaseSize := Nat.mul_div_cancel _ (by decide)
  have hrange := getLevelRanges_eq (vaddr / pagingBaseSize * pagingBaseSize) nPages
    (ne_of_gt hpos) (by simp only [wordModulus, pagingBaseSize, pagingNEntries] at *; omega)
  rw [hbase] at hrange
  unfold unmap
  rw [if_neg (ne_of_gt hpos), and_pagingBaseMaskHigh vaddr hvaddr]
  simp only [hrange]
  rfl

include hw

theorem unmap_found (hapart : Apart w (vaddr / pagingBaseSize)) :
    (unmap w vaddr nPages).found =
      readFirst { status := .unmapped, written := none }
        (w.pageEntry (vaddr / pagingBaseSize)) := by
  rw [unmap_eq w vaddr nPages hvaddr hpos hend]
  generalize vaddr / pagingBaseSize = first at *
  have hturns : (first + (nPages - 1)) / pagingNEntries + 1 - first / pagingNEntries =
      ((first + (nPages - 1)) / pagingNEntries - first / pagingNEntries) + 1 := by
    have hle : first / pagingNEntries ≤ (first + (nPages - 1)) / pagingNEntries :=
      Nat.div_le_div_right (Nat.le_add_right _ _)
    omega
  have hlater : (pageRanges first (first + (nPages - 1))).l0Start < first / pagingNEntries + 1 :=
    Nat.lt_succ_self _
  rw [hturns, unmapTables_succ, unmapTables_found _ _ _ _ hlater]
  unfold unmapTable
  rcases eq_or_ne (w.entries (first / pagingNEntries)) 0 with hzero | hne
  · rw [if_pos hzero]
    have hnone : w.pageEntry first = 0 := if_pos hzero
    rw [hnone]
    rfl
  rw [if_neg hne]
  have hcount : turnCount (pageRanges first (first + (nPages - 1)))
      (first / pagingNEntries) ≠ 0 := by
    rw [turnCount_pageRanges]
    split_ifs <;> omega
  obtain ⟨count, hcount⟩ := Nat.exists_eq_succ_of_ne_zero hcount
  have hindex : firstIndex (pageRanges first (first + (nPages - 1))) (first / pagingNEntries) =
      first % pagingNEntries := if_pos rfl
  have hl1 : first % pagingNEntries < pagingNEntries := Nat.mod_lt _ (by decide)
  rw [hcount, hindex]
  refine (unmapEntries_found_first (pageRanges first (first + (nPages - 1))) count _).trans ?_
  have haccessor := level1Accessor_eq_pageEntry
    (w.setLevel1Modifier (w.entries (first / pagingNEntries))) (first / pagingNEntries) _ hl1 hne
    (accessorFrame_setLevel1Modifier w _)
  rw [Nat.div_add_mod', pageEntry_setLevel1Modifier_apart w hw _ first hapart] at haccessor
  exact congrArg _ haccessor

theorem unmap_clears : Clears (vaddr / pagingBaseSize) (vaddr / pagingBaseSize + (nPages - 1))
      (vaddr / pagingBaseSize / pagingNEntries)
      ((vaddr / pagingBaseSize + (nPages - 1)) / pagingNEntries + 1 -
        vaddr / pagingBaseSize / pagingNEntries) w (unmap w vaddr nPages).walker := by
  rw [unmap_eq w vaddr nPages hvaddr hpos hend]
  have hle : vaddr / pagingBaseSize / pagingNEntries ≤
      (vaddr / pagingBaseSize + (nPages - 1)) / pagingNEntries :=
    Nat.div_le_div_right (Nat.le_add_right _ _)
  refine unmapTables_clears _ _ (Nat.le_add_right _ _) ?_ _ _
    { walker := w, found := { status := .unmapped, written := none } } hw (le_refl _)
    (le_of_eq (Nat.add_sub_cancel' (Nat.le_succ_of_le hle)))
  simp only [windowPage, pagingNEntries] at *
  omega

theorem lookup_unmap (addr : Nat) (haddr : addr < wordModulus)
    (hapart : Apart w (addr / pagingBaseSize)) :
    (lookup (unmap w vaddr nPages).walker addr).1 =
      if vaddr / pagingBaseSize ≤ addr / pagingBaseSize ∧
          addr / pagingBaseSize < vaddr / pagingBaseSize + nPages then
        { status := .unmapped, written := none }
      else (lookup w addr).1 := by
  have hclears := unmap_clears w hw vaddr nPages hvaddr hpos hend
  obtain ⟨tables, htables⟩ := hclears.walker
  have hafter : WellFormed (unmap w vaddr nPages).walker := by
    rw [htables]
    exact WellFormed.of_tables hw tables
  have hapart' : Apart (unmap w vaddr nPages).walker (addr / pagingBaseSize) := by
    rw [htables]
    exact hapart
  rw [lookup_apart _ hafter addr haddr hapart', lookup_apart w hw addr haddr hapart,
    hclears.pages _ hapart]
  generalize vaddr / pagingBaseSize = first at *
  generalize addr / pagingBaseSize = page at *
  rcases em (first ≤ page ∧ page < first + nPages) with hin | hout
  · have hturn : first / pagingNEntries ≤ page / pagingNEntries :=
      Nat.div_le_div_right hin.1
    have hturn' : page / pagingNEntries ≤ (first + (nPages - 1)) / pagingNEntries :=
      Nat.div_le_div_right (by omega)
    rw [if_pos hin, if_pos (by omega), readEntry_zero]
  · rw [if_neg hout, if_neg (by omega)]

theorem unmap_pageEntry (page : Nat) (hpage : page < windowPage) :
    (unmap w vaddr nPages).walker.pageEntry page =
      if vaddr / pagingBaseSize ≤ page ∧ page < vaddr / pagingBaseSize + nPages then 0
      else w.pageEntry page := by
  rw [(unmap_clears w hw vaddr nPages hvaddr hpos hend).pages page (Apart.of_lt hpage)]
  generalize vaddr / pagingBaseSize = first at *
  rcases em (first ≤ page ∧ page < first + nPages) with hin | hout
  · have hturn : first / pagingNEntries ≤ page / pagingNEntries :=
      Nat.div_le_div_right hin.1
    have hturn' : page / pagingNEntries ≤ (first + (nPages - 1)) / pagingNEntries :=
      Nat.div_le_div_right (by omega)
    rw [if_pos hin, if_pos (by omega)]
  · rw [if_neg hout, if_neg (by omega)]

theorem lookup_unmap_window (hown : OwnsWindow w) (addr : Nat) (haddr : addr < wordModulus)
    (hpage : addr / pagingBaseSize = windowPage) :
    (lookup (unmap w vaddr nPages).walker addr).1 =
      readEntry (((unmap w vaddr nPages).walker.level1Modifier &&& 0xFFF) |||
        ((w.entries (pagingNEntries - 1) >>> 12) <<< 12)) := by
  obtain ⟨tables, htables⟩ := (unmap_clears w hw vaddr nPages hvaddr hpos hend).walker
  have hafter : OwnsWindow (unmap w vaddr nPages).walker := by
    rw [htables]
    exact hown
  rw [lookup_window _ hafter addr haddr hpage, htables]

theorem lookup_window_written (hown : OwnsWindow w) (hframe : w.windowFrame ≠ 0) :
    (lookup (unmap w vaddr nPages).walker 0xFFFFF000).1.written ≠ none := by
  have hentry : w.entries (pagingNEntries - 1) / pagingBaseSize ≠ 0 := by
    rw [hown.2]
    exact hframe
  rw [lookup_unmap_window w hw vaddr nPages hvaddr hpos hend hown 0xFFFFF000 (by decide)
    (by decide), readEntry_window _ _ hentry]
  exact Option.some_ne_none _

theorem lookup_window_eq_iff (hown : OwnsWindow w) (hframe : w.windowFrame ≠ 0)
    (hout : vaddr / pagingBaseSize + nPages ≤ windowPage) (addr : Nat)
    (haddr : addr < wordModulus) (hpage : addr / pagingBaseSize = windowPage) :
    (lookup (unmap w vaddr nPages).walker addr).1 = (lookup w addr).1 ↔
      decodeFlags (lastShown w.entries
        ((vaddr / pagingBaseSize + (nPages - 1)) / pagingNEntries + 1 -
          vaddr / pagingBaseSize / pagingNEntries)
        (vaddr / pagingBaseSize / pagingNEntries) w.level1Modifier &&& 0xFFF) =
        decodeFlags (w.level1Modifier &&& 0xFFF) := by
  have hentry : w.entries (pagingNEntries - 1) / pagingBaseSize ≠ 0 := by
    rw [hown.2]
    exact hframe
  have hmodifier := (unmap_clears w hw vaddr nPages hvaddr hpos hend).window hown
  rw [if_neg (by omega)] at hmodifier
  rw [lookup_unmap_window w hw vaddr nPages hvaddr hpos hend hown addr haddr hpage,
    lookup_window w hown addr haddr hpage, readEntry_window _ _ hentry, readEntry_window _ _ hentry,
    hmodifier]
  constructor
  · intro heq
    exact (Prod.mk.inj (Option.some.inj (Found.mk.inj heq).2)).2
  · intro hflags
    rw [hflags]

theorem unmap_found_eq_iff (hapart : Apart w (vaddr / pagingBaseSize)) :
    (unmap w vaddr nPages).found = (lookup w vaddr).1 ↔
      ¬ HeapGuard (w.pageEntry (vaddr / pagingBaseSize)) := by
  rw [unmap_found w hw vaddr nPages hvaddr hpos hend hapart, lookup_apart w hw vaddr hvaddr hapart]
  exact readFirst_eq_readEntry_iff _

end

/-- `unmap` does what it is for exactly when the first page is no guard page of the heap
and the window is not touched. -/
theorem unmap_meets_iff (w : Walker) (hw : WellFormed w) (hframe : w.windowFrame ≠ 0)
    (vaddr nPages : Nat) (hvaddr : vaddr < wordModulus) (hpos : 0 < nPages)
    (hend : vaddr / pagingBaseSize + nPages ≤ pagingNEntries * pagingNEntries) :
    Meets w vaddr nPages ↔ Readable w vaddr nPages := by
  have hle : ∀ addr, addr < wordModulus → addr / pagingBaseSize ≤ windowPage := by
    intro addr haddr
    simp only [wordModulus, pagingBaseSize, windowPage, pagingNEntries] at *
    omega
  have hwindowAddr : 0xFFFFF000 / pagingBaseSize = windowPage := by decide
  have hpages := lookup_unmap w hw vaddr nPages hvaddr hpos hend
  have hfirst := unmap_found_eq_iff w hw vaddr nPages hvaddr hpos hend
  constructor
  · intro hmeets
    have hwindowOut : OwnsWindow w → vaddr / pagingBaseSize + nPages ≤ windowPage := by
      intro hown
      rcases lt_or_ge windowPage (vaddr / pagingBaseSize + nPages) with hin | hout
      · have hnone := hmeets.inside 0xFFFFF000 (by decide)
          (by rw [hwindowAddr]; exact hle vaddr hvaddr) (by rw [hwindowAddr]; exact hin)
        have hwritten := lookup_window_written w hw vaddr nPages hvaddr hpos hend hown hframe
        rw [hnone] at hwritten
        exact absurd rfl hwritten
      · exact hout
    constructor
    · refine (hfirst ⟨hle vaddr hvaddr, ?_⟩).mp hmeets.found
      intro hown
      have hout := hwindowOut hown
      omega
    · intro hown
      refine ⟨hwindowOut hown, ?_⟩
      exact (lookup_window_eq_iff w hw vaddr nPages hvaddr hpos hend hown hframe (hwindowOut hown)
        0xFFFFF000 (by decide) hwindowAddr).mp
        (hmeets.outside 0xFFFFF000 (by decide) (.inr (hwindowOut hown)))
  · intro hreadable
    constructor
    · intro addr haddr hge hlt
      have hapart : Apart w (addr / pagingBaseSize) := by
        refine ⟨hle addr haddr, ?_⟩
        intro hown
        have hout := (hreadable.window hown).1
        omega
      rw [hpages addr haddr hapart, if_pos ⟨hge, hlt⟩]
    · intro addr haddr hout
      rcases em (OwnsWindow w ∧ addr / pagingBaseSize = windowPage) with hwin | hother
      · obtain ⟨hwindowOut, hflags⟩ := hreadable.window hwin.1
        exact (lookup_window_eq_iff w hw vaddr nPages hvaddr hpos hend hwin.1 hframe hwindowOut
          addr haddr hwin.2).mpr hflags
      · rw [hpages addr haddr ⟨hle addr haddr, fun hown hpage => hother ⟨hown, hpage⟩⟩,
          if_neg (by omega)]
    · refine (hfirst ⟨hle vaddr hvaddr, ?_⟩).mpr hreadable.first
      intro hown
      have hout := (hreadable.window hown).1
      omega

def sampleGuarded : Walker :=
  (sampleTables.writeTable 4 1023 0x2000).writeTable 5 0 0x100003

theorem unmap_meets_guarded :
    Meets sampleGuarded 0x7FF000 2 ∧
      (unmap sampleGuarded 0x7FF000 2).found =
        { status := .guardpage, written := some (0x2000, decodeFlags 0) } := by
  have hw : WellFormed sampleGuarded :=
    (sampleTables_wellFormed.writeTable 4 1023 0x2000).writeTable 5 0 0x100003
  refine ⟨(unmap_meets_iff sampleGuarded hw (by decide) 0x7FF000 2 (by decide) (by decide)
    (by decide)).mpr ⟨by decide, ?_⟩, by decide +kernel⟩
  intro _
  exact ⟨by decide, by decide +kernel⟩

def sampleHeapGuard : Walker :=
  sampleTables.writeTable 4 1023 0x3000

/-- `unmap` returns that a guard page of the heap was unmapped. -/
theorem unmap_heapGuard_not_meets : WellFormed sampleHeapGuard ∧ sampleHeapGuard.windowFrame ≠ 0 ∧
      (lookup sampleHeapGuard 0x7FF000).1.status = .heapGuardpage ∧
      (unmap sampleHeapGuard 0x7FF000 1).found.status = .unmapped ∧
      ¬ Meets sampleHeapGuard 0x7FF000 1 := by
  have hlookup : (lookup sampleHeapGuard 0x7FF000).1.status = .heapGuardpage := by decide +kernel
  have hunmap : (unmap sampleHeapGuard 0x7FF000 1).found.status = .unmapped := by decide +kernel
  refine ⟨sampleTables_wellFormed.writeTable 4 1023 0x3000, by decide, hlookup, hunmap, ?_⟩
  intro hmeets
  rw [hmeets.found, hlookup] at hunmap
  cases hunmap

/-- A range that was mapped, even if only in part, is undone by `unmap`. -/
theorem unmap_mapInc (w : Walker) (hw : WellFormed w) (vaddr paddr nPages flags : Nat)
    (haligned : vaddr % pagingBaseSize = 0) (hpos : 0 < nPages)
    (hend : vaddr + nPages * pagingBaseSize ≤ 0xFFFFE000) (hpaddr : paddr < wordModulus)
    (addr : Nat) (haddr : addr / pagingBaseSize < windowPage) :
    (lookup (unmap (mapInc w vaddr paddr nPages flags).2 vaddr nPages).walker addr).1 =
      if vaddr / pagingBaseSize ≤ addr / pagingBaseSize ∧
          addr / pagingBaseSize < vaddr / pagingBaseSize + nPages then
        { status := .unmapped, written := none }
      else (lookup w addr).1 := by
  obtain ⟨hle, -, hafter, hpages⟩ := mapInc_spec w hw vaddr paddr nPages flags haligned hend hpaddr
  have hword : addr < wordModulus := by
    simp only [pagingBaseSize, windowPage, pagingNEntries, wordModulus] at *
    omega
  have hvaddr : vaddr < wordModulus := by
    simp only [pagingBaseSize, wordModulus] at *
    omega
  have hfits : vaddr / pagingBaseSize + nPages ≤ pagingNEntries * pagingNEntries := by
    simp only [pagingBaseSize, pagingNEntries] at *
    omega
  rw [lookup_unmap _ hafter vaddr nPages hvaddr hpos hfits addr hword (Apart.of_lt haddr)]
  split
  · rfl
  next hout =>
  have hpage := ne_of_lt haddr
  rw [lookup_eq _ hafter addr hword hpage, lookup_eq w hw addr hword hpage, hpages _ haddr, mapped,
    if_neg (by omega)]

theorem unmap_mapInc_sample :
    (lookup (unmap (mapInc sampleWalker 0x7FF000 0x100000 2 22).2 0x7FF000 2).walker 0x7FF000).1 =
      { status := .unmapped, written := none } :=
  (unmap_mapInc sampleWalker sampleWalker_wellFormed 0x7FF000 0x100000 2 22 (by decide) (by decide)
    (by decide) (by decide) 0x7FF000 (by decide)).trans (if_pos (by decide))

end Zambesii.Unmap
