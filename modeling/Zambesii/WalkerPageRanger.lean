import Zambesii.PageAttributes

/-!
`walkerPageRanger`: the page tables of an address space are written and read through one
window. The window is the last page of the address space; the entry that maps it is the
last entry of the table one page below it.
-/

namespace Zambesii.WalkerPageRanger

open Function List
open KernelTypes PageAttributes

def pagingNEntries : Nat := 1024

def pagingL0VaddrShift : Nat := 22

def pagingL1VaddrShift : Nat := 12

def pagingL0VaddrMask : Nat := 0xFFC00000

def pagingL1VaddrMask : Nat := 0x003FF000

def pagingBaseMaskHigh : Nat := 0xFFFFF000

def kloadVaddrBase : Nat := 0xC0000000

/-- The walked address space. `entries` is its level 0 table, `tables` holds the level 1
tables by their frame numbers and `windowFrame` is the frame of the table that holds the
window's entry. `kernelEntries` is the level 0 table of the kernel's address space, when
that is not the walked one, and `pageTables` are the frames left for new tables. -/
structure Walker where
  entries : Nat → Nat
  tables : Nat → Nat → Nat
  windowFrame : Nat
  pageTables : List Nat
  kernelEntries : Option (Nat → Nat)

namespace Walker

def level1Modifier (w : Walker) : Nat :=
  w.tables w.windowFrame (pagingNEntries - 1)

def writeTable (w : Walker) (frame index entry : Nat) : Walker :=
  { w with
    tables := fun f j => if f = frame ∧ j = index then entry else w.tables f j }

/-- An assignment to `*level1Modifier`, with the flush of the window after it. -/
def setLevel1Modifier (w : Walker) (entry : Nat) : Walker :=
  w.writeTable w.windowFrame (pagingNEntries - 1) entry

def accessorFrame (w : Walker) : Nat :=
  w.level1Modifier / pagingBaseSize

def level1Accessor (w : Walker) (index : Nat) : Nat :=
  w.tables w.accessorFrame index

def setLevel1Accessor (w : Walker) (index entry : Nat) : Walker :=
  w.writeTable w.accessorFrame index entry

end Walker

def l0Index (vaddr : Nat) : Nat :=
  (vaddr &&& pagingL0VaddrMask) >>> pagingL0VaddrShift

def l1Index (vaddr : Nat) : Nat :=
  (vaddr &&& pagingL1VaddrMask) >>> pagingL1VaddrShift

structure LevelRanges where
  l0Start : Nat
  l0End : Nat
  l1Start : Nat
  l1End : Nat

def getLevelRanges (vaddr nPages : Nat) : LevelRanges :=
  let endAddr := (vaddr + (nPages - 1) * pagingBaseSize % wordModulus) % wordModulus
  { l0Start := l0Index vaddr
    l0End := l0Index endAddr
    l1Start := l1Index vaddr
    l1End := l1Index endAddr }

/-- The variables of `mapInc` that its loops change. -/
structure Progress where
  walker : Walker
  paddr : Nat
  ret : Nat
  l0WasModified : Bool

def clearTable (w : Walker) (count : Nat) : Walker :=
  (List.range count).foldl (fun table ztmp => table.writeTable w.accessorFrame ztmp 0) w

/-- The start of a turn of the level 0 loop of `mapInc`: the window shows the table of
`l0Current`, which is made when there is none. `none` is the jump to `out`. -/
def showTable (p : Progress) (l0Current : Nat) : Option Progress :=
  let w := p.walker
  let l0Entry := w.entries l0Current
  if l0Entry = 0 then
    match w.pageTables with
    | [] => none
    | frame :: rest =>
      let l0Entry := frame ||| (pagingPresent ||| pagingWrite)
      let w := { w with
        pageTables := rest
        entries := update w.entries l0Current l0Entry }
      let w := w.setLevel1Modifier (l0Entry ||| pagingCacheWriteThrough)
      some { p with walker := clearTable w pagingNEntries, l0WasModified := true }
  else
    some { p with
      walker := w.setLevel1Modifier
        (((l0Entry >>> 12) <<< 12) ||| (w.level1Modifier &&& 0xFFF)) }

/-- The level 1 loop of `mapInc`, with `remaining` entries left to write. -/
def mapEntries (archFlags : Nat) : Nat → Nat → Progress → Progress
  | 0, _, p => p
  | remaining + 1, l1Current, p =>
    mapEntries archFlags remaining (l1Current + 1)
      { p with
        walker := p.walker.setLevel1Accessor l1Current (p.paddr ||| archFlags)
        paddr := (p.paddr + pagingBaseSize) % wordModulus
        ret := p.ret + 1 }

/-- The level 0 loop of `mapInc`, with `remaining` turns left. -/
def mapTables (range : LevelRanges) (archFlags : Nat) : Nat → Nat → Progress → Progress
  | 0, _, p => p
  | remaining + 1, l0Current, p =>
    match showTable p l0Current with
    | none => p
    | some p =>
      let l1Current := if l0Current = range.l0Start then range.l1Start else 0
      let l1Limit :=
        if l0Current = range.l0End then range.l1End else pagingNEntries - 1
      mapTables range archFlags remaining (l0Current + 1)
        (mapEntries archFlags (l1Limit + 1 - l1Current) l1Current p)

/-- The code after the label `out`, up to the flush: new level 0 entries in the kernel's
part of the address space are copied to the kernel's own level 0 table. -/
def propagate (range : LevelRanges) (p : Progress) : Walker :=
  match p.walker.kernelEntries with
  | none => p.walker
  | some kernelEntries =>
    if kloadVaddrBase >>> pagingL0VaddrShift ≤ range.l0Start ∧ p.l0WasModified = true then
      { p.walker with
        kernelEntries := some fun i =>
          if range.l0Start ≤ i ∧ i ≤ range.l0End then p.walker.entries i
          else kernelEntries i }
    else p.walker

def mapInc (w : Walker) (vaddr paddr nPages flags : Nat) : Nat × Walker :=
  if nPages = 0 then (0, w)
  else
    let vaddr := vaddr &&& pagingBaseMaskHigh
    let archFlags := encodeFlags flags
    let range := getLevelRanges vaddr nPages
    let p := mapTables range archFlags (range.l0End + 1 - range.l0Start) range.l0Start
      { walker := w, paddr := paddr, ret := 0, l0WasModified := false }
    (p.ret, propagate range p)

inductive Status
  | backed
  | swapped
  | fakemappedStatic
  | fakemappedDynamic
  | guardpage
  | heapGuardpage
  | unmapped
deriving DecidableEq

/-- What `lookup` returns, with the `paddr` and `flags` it wrote to its caller's
variables. -/
structure Found where
  status : Status
  written : Option (Nat × Nat)
deriving DecidableEq

def pageStatus (paddr : Nat) : Status :=
  match (paddr >>> 12) &&& 7 with
  | 1 => .swapped
  | 2 => .guardpage
  | 3 => .heapGuardpage
  | 4 => .fakemappedStatic
  | 5 => .fakemappedDynamic
  | _ => .unmapped

/-- The part of `lookup` that reads a level 1 entry. -/
def readEntry (l1Entry : Nat) : Found :=
  if l1Entry = 0 then { status := .unmapped, written := none }
  else
    let flags := decodeFlags (l1Entry &&& 0xFFF)
    let paddr := (l1Entry >>> 12) <<< 12
    { status := if flagTest flags pageAttribPresent then .backed else pageStatus paddr
      written := some (paddr, flags) }

/-- `walkerPageRanger::lookup`; it leaves the window on the table that it read. -/
def lookup (w : Walker) (vaddr : Nat) : Found × Walker :=
  let vaddr := vaddr &&& pagingBaseMaskHigh
  let l0Entry := w.entries (l0Index vaddr)
  if l0Entry = 0 then ({ status := .unmapped, written := none }, w)
  else
    let w := w.setLevel1Modifier
      ((w.level1Modifier &&& 0xFFF) ||| ((l0Entry >>> 12) <<< 12))
    (readEntry (w.level1Accessor (l1Index vaddr)), w)

def windowPage : Nat := pagingNEntries * pagingNEntries - 1

/-- The meaning of the tables: the level 1 entry of a page, zero where there is no
table. -/
def Walker.pageEntry (w : Walker) (page : Nat) : Nat :=
  if w.entries (page / pagingNEntries) = 0 then 0
  else w.tables (w.entries (page / pagingNEntries) / pagingBaseSize) (page % pagingNEntries)

/-- Every table belongs to one level 0 entry, the window's own table to the last one at
most, and the frames for new tables are not in use. -/
structure WellFormed (w : Walker) : Prop where
  own : ∀ i j, i < pagingNEntries → j < pagingNEntries → w.entries i ≠ 0 → w.entries j ≠ 0 →
    w.entries i / pagingBaseSize = w.entries j / pagingBaseSize → i = j
  window : ∀ i, i < pagingNEntries → w.entries i ≠ 0 →
    w.entries i / pagingBaseSize = w.windowFrame → i = pagingNEntries - 1
  fresh : ∀ frame ∈ w.pageTables, frame / pagingBaseSize ≠ w.windowFrame ∧
    ∀ i, i < pagingNEntries → w.entries i ≠ 0 →
      w.entries i / pagingBaseSize ≠ frame / pagingBaseSize
  distinct : w.pageTables.Pairwise fun frame frame' =>
    frame / pagingBaseSize ≠ frame' / pagingBaseSize

theorem WellFormed.writeTable {w : Walker} (hw : WellFormed w) (frame index entry : Nat) :
    WellFormed (w.writeTable frame index entry) :=
  ⟨hw.own, hw.window, hw.fresh, hw.distinct⟩

theorem div_lt_of_le_windowPage {page : Nat} (hpage : page ≤ windowPage) :
    page / pagingNEntries < pagingNEntries := by
  simp only [windowPage, pagingNEntries] at hpage ⊢
  omega

theorem or_div_pagingBaseSize (entry flags : Nat) (hflags : flags < pagingBaseSize) :
    (entry ||| flags) / pagingBaseSize = entry / pagingBaseSize := by
  have hdiv := Nat.shiftRight_or_distrib (i := 12) (a := entry) (b := flags)
  simp only [Nat.shiftRight_eq_div_pow] at hdiv
  have hzero : flags / 2 ^ 12 = 0 := Nat.div_eq_of_lt hflags
  rw [hzero, Nat.or_zero] at hdiv
  exact hdiv

theorem and_lt_pagingBaseSize (entry : Nat) : entry &&& 0xFFF < pagingBaseSize := by
  have hle : entry &&& 0xFFF ≤ 0xFFF := Nat.and_le_right
  exact Nat.lt_succ_of_le hle

theorem pageEntry_writeTable (w : Walker) (frame index entry page : Nat) :
    (w.writeTable frame index entry).pageEntry page =
      if w.entries (page / pagingNEntries) ≠ 0 ∧
          w.entries (page / pagingNEntries) / pagingBaseSize = frame ∧
          page % pagingNEntries = index then entry
      else w.pageEntry page := by
  unfold Walker.pageEntry Walker.writeTable
  rcases eq_or_ne (w.entries (page / pagingNEntries)) 0 with hzero | hne
  · simp [hzero]
  · simp [hne]

def OwnsWindow (w : Walker) : Prop :=
  w.entries (pagingNEntries - 1) ≠ 0 ∧
    w.entries (pagingNEntries - 1) / pagingBaseSize = w.windowFrame

instance (w : Walker) : Decidable (OwnsWindow w) :=
  inferInstanceAs (Decidable (_ ∧ _))

def Apart (w : Walker) (page : Nat) : Prop :=
  page ≤ windowPage ∧ (OwnsWindow w → page ≠ windowPage)

theorem pageEntry_setLevel1Modifier_apart (w : Walker) (hw : WellFormed w) (entry page : Nat)
    (hpage : Apart w page) : (w.setLevel1Modifier entry).pageEntry page = w.pageEntry page := by
  unfold Walker.setLevel1Modifier
  rw [pageEntry_writeTable]
  apply if_neg
  rintro ⟨hne, hframe, hindex⟩
  have hlast := hw.window _ (div_lt_of_le_windowPage hpage.1) hne hframe
  rw [hlast] at hne hframe
  refine hpage.2 ⟨hne, hframe⟩ ?_
  simp only [windowPage, pagingNEntries] at hlast hindex ⊢
  omega

theorem Apart.of_lt {w : Walker} {page : Nat} (hpage : page < windowPage) : Apart w page :=
  ⟨le_of_lt hpage, fun _ => ne_of_lt hpage⟩

theorem pageEntry_setLevel1Modifier (w : Walker) (hw : WellFormed w) (entry page : Nat)
    (hpage : page < windowPage) : (w.setLevel1Modifier entry).pageEntry page = w.pageEntry page :=
  pageEntry_setLevel1Modifier_apart w hw entry page (Apart.of_lt hpage)

theorem accessorFrame_setLevel1Modifier (w : Walker) (entry : Nat) :
    (w.setLevel1Modifier entry).accessorFrame = entry / pagingBaseSize := by
  simp [Walker.accessorFrame, Walker.level1Modifier, Walker.setLevel1Modifier, Walker.writeTable]

theorem accessorFrame_moved (w : Walker) (entry : Nat) :
    (w.setLevel1Modifier (((entry >>> 12) <<< 12) ||| (w.level1Modifier &&& 0xFFF))).accessorFrame
      = entry / pagingBaseSize := by
  rw [accessorFrame_setLevel1Modifier, or_div_pagingBaseSize _ _ (and_lt_pagingBaseSize _)]
  simp only [Nat.shiftLeft_eq, Nat.shiftRight_eq_div_pow, pagingBaseSize]
  omega

/-- The walker after the first `count` entries of the shown table were cleared. -/
def cleared (w : Walker) (count : Nat) : Walker :=
  { w with
    tables := fun f j => if f = w.accessorFrame ∧ j < count then 0 else w.tables f j }

theorem accessorFrame_cleared (w : Walker) (hframe : w.accessorFrame ≠ w.windowFrame)
    (count : Nat) : (cleared w count).accessorFrame = w.accessorFrame := by
  have hmodifier : (cleared w count).level1Modifier = w.level1Modifier :=
    if_neg fun h => hframe h.1.symm
  unfold Walker.accessorFrame
  rw [hmodifier]

theorem pageEntry_cleared (w : Walker) (page : Nat) :
    (cleared w pagingNEntries).pageEntry page =
      if w.entries (page / pagingNEntries) ≠ 0 ∧
          w.entries (page / pagingNEntries) / pagingBaseSize = w.accessorFrame then 0
      else w.pageEntry page := by
  have hindex : page % pagingNEntries < pagingNEntries := Nat.mod_lt _ (by decide)
  unfold Walker.pageEntry cleared
  rcases eq_or_ne (w.entries (page / pagingNEntries)) 0 with hzero | hne
  · simp [hzero]
  · simp [hne, hindex]

theorem clearTable_eq (w : Walker) (count : Nat) : clearTable w count = cleared w count := by
  induction count with
  | zero => simp [clearTable, cleared]
  | succ count ih =>
    have hunfold : clearTable w (count + 1) =
        (clearTable w count).writeTable w.accessorFrame count 0 := by
      simp [clearTable, range_succ]
    rw [hunfold, ih]
    unfold Walker.writeTable cleared
    congr 1
    funext f j
    show (if f = w.accessorFrame ∧ j = count then 0
        else if f = w.accessorFrame ∧ j < count then 0 else w.tables f j) = _
    split_ifs <;> first | rfl | omega

/-- What the start of a turn of the level 0 loop has done when it does not jump to
`out`. -/
structure Shows (p q : Progress) (l0Current : Nat) : Prop where
  wellFormed : WellFormed q.walker
  entry_ne : q.walker.entries l0Current ≠ 0
  accessor : q.walker.accessorFrame = q.walker.entries l0Current / pagingBaseSize
  pages : ∀ page, page < windowPage → q.walker.pageEntry page = p.walker.pageEntry page
  paddr : q.paddr = p.paddr
  ret : q.ret = p.ret

theorem showTable_existing (p : Progress) (hw : WellFormed p.walker) (l0Current : Nat)
    (hentry : p.walker.entries l0Current ≠ 0) :
    ∃ q, showTable p l0Current = some q ∧ Shows p q l0Current := by
  let moved := p.walker.setLevel1Modifier
    (((p.walker.entries l0Current >>> 12) <<< 12) ||| (p.walker.level1Modifier &&& 0xFFF))
  refine ⟨{ p with walker := moved }, ?_, ?_⟩
  · simp only [showTable, if_neg hentry]
    rfl
  constructor
  · exact hw.writeTable _ _ _
  · exact hentry
  · exact accessorFrame_moved _ _
  · intro page hpage
    exact pageEntry_setLevel1Modifier _ hw _ _ hpage
  · rfl
  · rfl

theorem newEntry_div (frame : Nat) :
    (frame ||| (pagingPresent ||| pagingWrite)) / pagingBaseSize = frame / pagingBaseSize :=
  or_div_pagingBaseSize _ _ (by decide)

theorem newEntry_ne_zero (frame : Nat) : frame ||| (pagingPresent ||| pagingWrite) ≠ 0 := by
  intro h
  rw [Nat.or_eq_zero_iff] at h
  exact absurd h.2 (by decide)

def enterTable (w : Walker) (l0Current frame : Nat) (rest : List Nat) : Walker :=
  { w with
    pageTables := rest
    entries := update w.entries l0Current (frame ||| (pagingPresent ||| pagingWrite)) }

theorem enterTable_wellFormed (w : Walker) (hw : WellFormed w) (l0Current frame : Nat)
    (rest : List Nat) (hpop : w.pageTables = frame :: rest) :
    WellFormed (enterTable w l0Current frame rest) := by
  have hmem : frame ∈ w.pageTables := by simp [hpop]
  have hrest : ∀ other ∈ rest, other ∈ w.pageTables := by
    intro other hother
    simp [hpop, hother]
  have hdistinct := hw.distinct
  rw [hpop, pairwise_cons] at hdistinct
  obtain ⟨hwindow, hused⟩ := hw.fresh frame hmem
  have hcases : ∀ i, (enterTable w l0Current frame rest).entries i / pagingBaseSize =
      if i = l0Current then frame / pagingBaseSize else w.entries i / pagingBaseSize := by
    intro i
    rcases eq_or_ne i l0Current with rfl | hi
    · simp [enterTable, newEntry_div]
    · simp [enterTable, hi]
  have hold : ∀ i, i ≠ l0Current →
      (enterTable w l0Current frame rest).entries i = w.entries i := by
    intro i hi
    simp [enterTable, hi]
  constructor
  · intro i j hi hj hei hej heq
    rw [hcases, hcases] at heq
    rcases eq_or_ne i l0Current with hil | hil <;> rcases eq_or_ne j l0Current with hjl | hjl
    · exact hil.trans hjl.symm
    · rw [hold j hjl] at hej
      simp only [if_pos hil, if_neg hjl] at heq
      exact absurd heq.symm (hused j hj hej)
    · rw [hold i hil] at hei
      simp only [if_pos hjl, if_neg hil] at heq
      exact absurd heq (hused i hi hei)
    · rw [hold i hil] at hei
      rw [hold j hjl] at hej
      simp only [if_neg hil, if_neg hjl] at heq
      exact hw.own i j hi hj hei hej heq
  · intro i hi hei heq
    rw [hcases] at heq
    rcases eq_or_ne i l0Current with rfl | hil
    · simp only [if_pos] at heq
      exact absurd heq hwindow
    · rw [hold i hil] at hei
      simp only [if_neg hil] at heq
      exact hw.window i hi hei heq
  · intro other hother
    refine ⟨(hw.fresh other (hrest other hother)).1, ?_⟩
    intro i hi hei
    rw [hcases]
    rcases eq_or_ne i l0Current with rfl | hil
    · simp only [if_pos]
      exact hdistinct.1 other hother
    · rw [hold i hil] at hei
      simp only [if_neg hil]
      exact (hw.fresh other (hrest other hother)).2 i hi hei
  · exact hdistinct.2

theorem showTable_new (p : Progress) (hw : WellFormed p.walker) (l0Current frame : Nat)
    (rest : List Nat) (hentry : p.walker.entries l0Current = 0)
    (hpop : p.walker.pageTables = frame :: rest) :
    ∃ q, showTable p l0Current = some q ∧ Shows p q l0Current := by
  have hentered := enterTable_wellFormed p.walker hw l0Current frame rest hpop
  obtain ⟨hwindow, hused⟩ := hw.fresh frame (by simp [hpop])
  let w := (enterTable p.walker l0Current frame rest).setLevel1Modifier
    (frame ||| (pagingPresent ||| pagingWrite) ||| pagingCacheWriteThrough)
  have haccessor : w.accessorFrame = frame / pagingBaseSize := by
    show Walker.accessorFrame (Walker.setLevel1Modifier _ _) = _
    rw [accessorFrame_setLevel1Modifier, or_div_pagingBaseSize _ _ (by decide), newEntry_div]
  have hne : w.accessorFrame ≠ w.windowFrame := by
    rw [haccessor]
    exact hwindow
  refine ⟨{ p with walker := clearTable w pagingNEntries, l0WasModified := true }, ?_, ?_⟩
  · simp only [showTable, hentry, if_true, hpop]
    rfl
  rw [clearTable_eq w]
  constructor
  · exact ⟨hentered.own, hentered.window, hentered.fresh, hentered.distinct⟩
  · show update p.walker.entries l0Current _ l0Current ≠ 0
    rw [update_self]
    exact newEntry_ne_zero frame
  · show (cleared w pagingNEntries).accessorFrame =
      update p.walker.entries l0Current _ l0Current / pagingBaseSize
    rw [accessorFrame_cleared w hne, haccessor, update_self, newEntry_div]
  · intro page hpage
    show (cleared w pagingNEntries).pageEntry page = _
    have hmoved : w.pageEntry page = (enterTable p.walker l0Current frame rest).pageEntry page :=
      pageEntry_setLevel1Modifier _ hentered _ _ hpage
    have hindex := div_lt_of_le_windowPage (le_of_lt hpage)
    rw [pageEntry_cleared, hmoved, haccessor]
    show (if (enterTable p.walker l0Current frame rest).entries _ ≠ 0 ∧
      (enterTable p.walker l0Current frame rest).entries _ / pagingBaseSize = _ then 0 else _) = _
    rcases eq_or_ne (page / pagingNEntries) l0Current with hl0 | hl0
    · have hnew : (enterTable p.walker l0Current frame rest).entries (page / pagingNEntries) =
          frame ||| (pagingPresent ||| pagingWrite) := by
        simp [enterTable, hl0]
      rw [hnew, if_pos ⟨newEntry_ne_zero frame, newEntry_div frame⟩]
      unfold Walker.pageEntry
      rw [hl0, hentry, if_pos rfl]
    · have hold : (enterTable p.walker l0Current frame rest).entries (page / pagingNEntries) =
          p.walker.entries (page / pagingNEntries) := by
        simp [enterTable, hl0]
      rw [hold, if_neg fun h => hused _ hindex h.1 h.2]
      unfold Walker.pageEntry
      rw [hold]
      rfl
  · rfl
  · rfl

theorem showTable_spec (p : Progress) (hw : WellFormed p.walker) (l0Current : Nat) :
    (showTable p l0Current = none ∧ p.walker.pageTables = [] ∧ p.walker.entries l0Current = 0) ∨
      ∃ q, showTable p l0Current = some q ∧ Shows p q l0Current := by
  rcases eq_or_ne (p.walker.entries l0Current) 0 with hzero | hne
  · cases hpop : p.walker.pageTables with
    | nil => exact .inl ⟨by simp [showTable, hzero, hpop], rfl, hzero⟩
    | cons frame rest => exact .inr (showTable_new p hw l0Current frame rest hzero hpop)
  · exact .inr (showTable_existing p hw l0Current hne)

/-- The pages after `count` pages from `first` on were mapped to consecutive frames. -/
def mapped (before : Nat → Nat) (first count paddr archFlags : Nat) : Nat → Nat :=
  fun page =>
    if first ≤ page ∧ page < first + count then
      (paddr + (page - first) * pagingBaseSize) % wordModulus ||| archFlags
    else before page

theorem mapped_mapped (before : Nat → Nat) (first m n paddr archFlags page : Nat) :
    mapped (mapped before first m paddr archFlags) (first + m) n
        ((paddr + m * pagingBaseSize) % wordModulus) archFlags page =
      mapped before first (m + n) paddr archFlags page := by
  unfold mapped
  rcases lt_or_ge page (first + m) with hlt | hge
  · have h₁ : ¬ (first + m ≤ page ∧ page < first + m + n) := by omega
    rw [if_neg h₁]
    rcases lt_or_ge page first with hbefore | hin
    · have h₂ : ¬ (first ≤ page ∧ page < first + m) := by omega
      have h₃ : ¬ (first ≤ page ∧ page < first + (m + n)) := by omega
      rw [if_neg h₂, if_neg h₃]
    · have h₂ : first ≤ page ∧ page < first + (m + n) := by omega
      rw [if_pos ⟨hin, hlt⟩, if_pos h₂]
  have h₂ : ¬ (first ≤ page ∧ page < first + m) := by omega
  rw [if_neg h₂]
  rcases lt_or_ge page (first + m + n) with hin | hafter
  · have h₃ : first ≤ page ∧ page < first + (m + n) := by omega
    have hsum : page - first = m + (page - (first + m)) := by omega
    rw [if_pos ⟨hge, hin⟩, if_pos h₃, Nat.mod_add_mod, hsum, add_mul, add_assoc]
  · have h₁ : ¬ (first + m ≤ page ∧ page < first + m + n) := by omega
    have h₃ : ¬ (first ≤ page ∧ page < first + (m + n)) := by omega
    rw [if_neg h₁, if_neg h₃]

/-- What the loops do: `count` pages from `first` on are mapped. -/
structure Maps (archFlags first count : Nat) (p q : Progress) : Prop where
  wellFormed : WellFormed q.walker
  paddr : q.paddr = (p.paddr + count * pagingBaseSize) % wordModulus
  ret : q.ret = p.ret + count
  pages : ∀ page, page < windowPage →
    q.walker.pageEntry page = mapped p.walker.pageEntry first count p.paddr archFlags page

theorem Maps.trans {archFlags first m n : Nat} {p q r : Progress}
    (hpq : Maps archFlags first m p q) (hqr : Maps archFlags (first + m) n q r) :
    Maps archFlags first (m + n) p r := by
  constructor
  · exact hqr.wellFormed
  · rw [hqr.paddr, hpq.paddr, Nat.mod_add_mod, add_mul, add_assoc]
  · rw [hqr.ret, hpq.ret, add_assoc]
  · intro page hpage
    rw [hqr.pages page hpage, hpq.paddr, ← mapped_mapped]
    unfold mapped
    rcases em (first + m ≤ page ∧ page < first + m + n) with hin | hout
    · rw [if_pos hin, if_pos hin]
    · rw [if_neg hout, if_neg hout]
      exact hpq.pages page hpage

theorem setLevel1Accessor_pageEntry (w : Walker) (hw : WellFormed w)
    (l0Current l1Current entry : Nat) (hl1 : l1Current < pagingNEntries)
    (hentry : w.entries l0Current ≠ 0)
    (haccessor : w.accessorFrame = w.entries l0Current / pagingBaseSize) (page : Nat)
    (hl0 : l0Current < pagingNEntries) (hpage : page ≤ windowPage) :
    (w.setLevel1Accessor l1Current entry).pageEntry page =
      if page = l0Current * pagingNEntries + l1Current then entry else w.pageEntry page := by
  unfold Walker.setLevel1Accessor
  rw [pageEntry_writeTable, haccessor]
  have hindex := div_lt_of_le_windowPage hpage
  have hiff : (w.entries (page / pagingNEntries) ≠ 0 ∧
      w.entries (page / pagingNEntries) / pagingBaseSize =
        w.entries l0Current / pagingBaseSize ∧ page % pagingNEntries = l1Current) ↔
      page = l0Current * pagingNEntries + l1Current := by
    constructor
    · rintro ⟨hne, hframe, hmod⟩
      have hdiv := hw.own _ _ hindex hl0 hne hentry hframe
      rw [← hdiv, ← hmod]
      exact (Nat.div_add_mod' page pagingNEntries).symm
    · intro heq
      have hdiv : page / pagingNEntries = l0Current := by
        rw [heq]
        simp only [pagingNEntries] at hl1 ⊢
        omega
      have hmod : page % pagingNEntries = l1Current := by
        rw [heq]
        simp only [pagingNEntries] at hl1 ⊢
        omega
      rw [hdiv]
      exact ⟨hentry, rfl, hmod⟩
  simp only [hiff]

theorem accessorFrame_setLevel1Accessor (w : Walker) (hw : WellFormed w)
    (l0Current l1Current entry : Nat) (hl0 : l0Current < pagingNEntries)
    (hentry : w.entries l0Current ≠ 0)
    (haccessor : w.accessorFrame = w.entries l0Current / pagingBaseSize)
    (hpage : l0Current * pagingNEntries + l1Current < windowPage) :
    (w.setLevel1Accessor l1Current entry).accessorFrame = w.accessorFrame := by
  have hmodifier : (w.setLevel1Accessor l1Current entry).level1Modifier = w.level1Modifier := by
    apply if_neg
    rintro ⟨hframe, hindex⟩
    have hlast := hw.window l0Current hl0 hentry (haccessor ▸ hframe.symm)
    simp only [windowPage, pagingNEntries] at hpage hlast hindex
    omega
  unfold Walker.accessorFrame
  rw [hmodifier]

theorem mapEntries_spec (archFlags l0Current : Nat) (hl0 : l0Current < pagingNEntries)
    (remaining l1Current : Nat) (p : Progress) (hw : WellFormed p.walker)
    (hpaddr : p.paddr < wordModulus) (hl1 : l1Current + remaining ≤ pagingNEntries)
    (hpage : l0Current * pagingNEntries + l1Current + remaining ≤ windowPage)
    (hentry : p.walker.entries l0Current ≠ 0)
    (haccessor : p.walker.accessorFrame = p.walker.entries l0Current / pagingBaseSize) :
    Maps archFlags (l0Current * pagingNEntries + l1Current) remaining p
      (mapEntries archFlags remaining l1Current p) := by
  induction remaining generalizing l1Current p with
  | zero =>
    constructor
    · exact hw
    · show p.paddr = (p.paddr + 0 * pagingBaseSize) % wordModulus
      rw [zero_mul, add_zero, Nat.mod_eq_of_lt hpaddr]
    · rfl
    · intro page _
      unfold mapped
      rw [if_neg (by omega)]
      rfl
  | succ remaining ih =>
    let q : Progress :=
      { p with
        walker := p.walker.setLevel1Accessor l1Current (p.paddr ||| archFlags)
        paddr := (p.paddr + pagingBaseSize) % wordModulus
        ret := p.ret + 1 }
    have hstep : Maps archFlags (l0Current * pagingNEntries + l1Current) 1 p q := by
      constructor
      · exact hw.writeTable _ _ _
      · show (p.paddr + pagingBaseSize) % wordModulus = _
        rw [one_mul]
      · rfl
      · intro page hlt
        show (p.walker.setLevel1Accessor l1Current _).pageEntry page = _
        rw [setLevel1Accessor_pageEntry p.walker hw l0Current l1Current _ (by omega) hentry
          haccessor page hl0 (le_of_lt hlt)]
        unfold mapped
        rcases eq_or_ne page (l0Current * pagingNEntries + l1Current) with heq | hne
        · rw [if_pos heq, if_pos (by omega), heq, Nat.sub_self, Nat.zero_mul, Nat.add_zero,
            Nat.mod_eq_of_lt hpaddr]
        · rw [if_neg hne, if_neg (by omega)]
    have hrest := ih (l1Current + 1) q hstep.wellFormed (Nat.mod_lt _ (by decide)) (by omega)
      (by omega) hentry
      ((accessorFrame_setLevel1Accessor p.walker hw l0Current l1Current _ hl0 hentry haccessor
        (by omega)).trans haccessor)
    rw [← add_assoc] at hrest
    have hboth := hstep.trans hrest
    rw [add_comm 1 remaining] at hboth
    exact hboth

def endPage (range : LevelRanges) : Nat :=
  range.l0End * pagingNEntries + range.l1End + 1

/-- The level 1 index at which the turn of `l0Current` starts. -/
def firstIndex (range : LevelRanges) (l0Current : Nat) : Nat :=
  if l0Current = range.l0Start then range.l1Start else 0

/-- The number of entries that the turn of `l0Current` writes. -/
def turnCount (range : LevelRanges) (l0Current : Nat) : Nat :=
  (if l0Current = range.l0End then range.l1End else pagingNEntries - 1) + 1 -
    firstIndex range l0Current

/-- The page that is mapped next when the level 0 loop has come to `l0Current`. -/
def nextPage (range : LevelRanges) (l0Current : Nat) : Nat :=
  if l0Current ≤ range.l0End then l0Current * pagingNEntries + firstIndex range l0Current
  else endPage range

/-- The loops map pages from the first one on. They stop before the last page only when
the next page has no table and there is no frame for one. -/
structure Outcome (archFlags first limit : Nat) (p q : Progress) (count : Nat) : Prop where
  maps : Maps archFlags first count p q
  le : first + count ≤ limit
  stopped : first + count < limit → q.walker.pageTables = [] ∧
    q.walker.entries ((first + count) / pagingNEntries) = 0

theorem Maps.refl (archFlags first : Nat) (p : Progress) (hw : WellFormed p.walker)
    (hpaddr : p.paddr < wordModulus) : Maps archFlags first 0 p p := by
  constructor
  · exact hw
  · rw [zero_mul, add_zero, Nat.mod_eq_of_lt hpaddr]
  · rfl
  · intro page _
    unfold mapped
    rw [if_neg (by omega)]

theorem Shows.maps {p q r : Progress} {l0Current archFlags first count : Nat}
    (hshows : Shows p q l0Current) (hmaps : Maps archFlags first count q r) :
    Maps archFlags first count p r := by
  constructor
  · exact hmaps.wellFormed
  · rw [hmaps.paddr, hshows.paddr]
  · rw [hmaps.ret, hshows.ret]
  · intro page hpage
    rw [hmaps.pages page hpage, hshows.paddr]
    unfold mapped
    rw [hshows.pages page hpage]

/-- The ranges that the loops of `mapInc` are given. -/
structure LevelRanges.Valid (range : LevelRanges) : Prop where
  ordered : range.l0Start ≤ range.l0End
  l1Start : range.l1Start < pagingNEntries
  l1End : range.l1End < pagingNEntries
  nonempty : range.l0Start = range.l0End → range.l1Start ≤ range.l1End
  windows : endPage range < windowPage

section

variable (range : LevelRanges) (hrange : range.Valid) (l0Current : Nat)

include hrange

theorem firstIndex_add_turnCount_le :
    firstIndex range l0Current + turnCount range l0Current ≤ pagingNEntries := by
  have hl1Start := hrange.l1Start
  have hl1End := hrange.l1End
  simp only [turnCount, firstIndex, pagingNEntries] at *
  split_ifs <;> omega

theorem nextPage_add_turnCount (hstart : range.l0Start ≤ l0Current)
    (hle : l0Current ≤ range.l0End) :
    nextPage range l0Current + turnCount range l0Current = nextPage range (l0Current + 1) := by
  have hl1Start := hrange.l1Start
  have hnonempty := hrange.nonempty
  have hnext : l0Current + 1 ≠ range.l0Start := by omega
  simp only [nextPage, turnCount, firstIndex, endPage, pagingNEntries, if_pos hle,
    if_neg hnext] at *
  split_ifs <;> omega

theorem nextPage_le_endPage : nextPage range l0Current ≤ endPage range := by
  have hl1Start := hrange.l1Start
  have hnonempty := hrange.nonempty
  simp only [nextPage, firstIndex, endPage, pagingNEntries] at *
  split_ifs <;> omega

theorem nextPage_div (hle : l0Current ≤ range.l0End) :
    nextPage range l0Current / pagingNEntries = l0Current := by
  have hl1Start := hrange.l1Start
  simp only [nextPage, firstIndex, pagingNEntries, if_pos hle] at *
  split_ifs <;> omega

end

theorem mapTables_spec (range : LevelRanges) (hrange : range.Valid) (archFlags : Nat)
    (remaining l0Current : Nat) (p : Progress) (hw : WellFormed p.walker)
    (hpaddr : p.paddr < wordModulus) (hstart : range.l0Start ≤ l0Current)
    (hremaining : l0Current + remaining = range.l0End + 1) :
    ∃ count, Outcome archFlags (nextPage range l0Current) (endPage range) p
      (mapTables range archFlags remaining l0Current p) count := by
  induction remaining generalizing l0Current p with
  | zero =>
    have hlast : nextPage range l0Current = endPage range := if_neg (by omega)
    refine ⟨0, Maps.refl archFlags _ p hw hpaddr, ?_, ?_⟩
    · rw [hlast]
      exact le_refl _
    · intro hlt
      rw [hlast] at hlt
      exact absurd hlt (lt_irrefl _)
  | succ remaining ih =>
    have hle : l0Current ≤ range.l0End := by omega
    have hnext : nextPage range l0Current =
        l0Current * pagingNEntries + firstIndex range l0Current := if_pos hle
    rcases showTable_spec p hw l0Current with ⟨hnone, hempty, hzero⟩ | ⟨q, hsome, hshows⟩
    · refine ⟨0, ?_⟩
      simp only [mapTables, hnone]
      refine ⟨Maps.refl archFlags _ p hw hpaddr, nextPage_le_endPage range hrange _, ?_⟩
      intro _
      rw [add_zero, nextPage_div range hrange l0Current hle]
      exact ⟨hempty, hzero⟩
    let r := mapEntries archFlags (turnCount range l0Current) (firstIndex range l0Current) q
    have hturn := nextPage_add_turnCount range hrange l0Current hstart hle
    have hend := nextPage_le_endPage range hrange (l0Current + 1)
    have hwindows := hrange.windows
    have hmaps : Maps archFlags (nextPage range l0Current) (turnCount range l0Current) p r := by
      apply hshows.maps
      rw [hnext]
      apply mapEntries_spec archFlags l0Current _ _ _ q hshows.wellFormed _
        (firstIndex_add_turnCount_le range hrange l0Current) _ hshows.entry_ne
        hshows.accessor
      · simp only [endPage, windowPage, pagingNEntries] at hwindows ⊢
        omega
      · rw [hshows.paddr]
        exact hpaddr
      · omega
    obtain ⟨count, hcount⟩ := ih (l0Current + 1) r hmaps.wellFormed
      (by rw [hmaps.paddr]; exact Nat.mod_lt _ (by decide)) (by omega) (by omega)
    have hrest := hcount.maps
    rw [← hturn] at hrest
    have hsum : nextPage range l0Current + (turnCount range l0Current + count) =
        nextPage range (l0Current + 1) + count := by omega
    refine ⟨turnCount range l0Current + count, ?_⟩
    simp only [mapTables, hsome]
    refine ⟨hmaps.trans hrest, ?_, ?_⟩
    · rw [hsum]
      exact hcount.le
    · rw [hsum]
      exact hcount.stopped

theorem l0Index_eq (vaddr : Nat) (hvaddr : vaddr < wordModulus) :
    l0Index vaddr = vaddr / pagingBaseSize / pagingNEntries := by
  unfold l0Index
  rw [Nat.shiftRight_and_distrib]
  show vaddr >>> 22 &&& (2 ^ 10 - 1) = _
  rw [Nat.and_two_pow_sub_one_eq_mod, Nat.shiftRight_eq_div_pow]
  simp only [wordModulus, pagingBaseSize, pagingNEntries] at hvaddr ⊢
  omega

theorem l1Index_eq (vaddr : Nat) : l1Index vaddr = vaddr / pagingBaseSize % pagingNEntries := by
  unfold l1Index
  rw [Nat.shiftRight_and_distrib]
  show vaddr >>> 12 &&& (2 ^ 10 - 1) = _
  rw [Nat.and_two_pow_sub_one_eq_mod, Nat.shiftRight_eq_div_pow]
  rfl

theorem and_pagingBaseMaskHigh (vaddr : Nat) (hvaddr : vaddr < wordModulus) :
    vaddr &&& pagingBaseMaskHigh = vaddr / pagingBaseSize * pagingBaseSize := by
  have hlow : (vaddr &&& pagingBaseMaskHigh) % 2 ^ 12 = 0 := by
    rw [Nat.and_mod_two_pow]
    exact Nat.and_zero _
  have hhigh : (vaddr &&& pagingBaseMaskHigh) >>> 12 = vaddr / pagingBaseSize := by
    rw [Nat.shiftRight_and_distrib]
    show vaddr >>> 12 &&& (2 ^ 20 - 1) = _
    rw [Nat.and_two_pow_sub_one_eq_mod, Nat.shiftRight_eq_div_pow]
    simp only [wordModulus, pagingBaseSize] at hvaddr ⊢
    omega
  rw [← hhigh]
  simp only [pagingBaseSize]
  omega

theorem lookup_page (w : Walker) (vaddr : Nat) (hvaddr : vaddr < wordModulus) :
    lookup w vaddr =
      if w.entries (vaddr / pagingBaseSize / pagingNEntries) = 0 then
        ({ status := .unmapped, written := none }, w)
      else
        let moved := w.setLevel1Modifier
          ((w.level1Modifier &&& 0xFFF) |||
            ((w.entries (vaddr / pagingBaseSize / pagingNEntries) >>> 12) <<< 12))
        (readEntry (moved.level1Accessor (vaddr / pagingBaseSize % pagingNEntries)), moved) := by
  have hbase : vaddr / pagingBaseSize * pagingBaseSize < wordModulus :=
    lt_of_le_of_lt (Nat.div_mul_le_self _ _) hvaddr
  have hdiv : vaddr / pagingBaseSize * pagingBaseSize / pagingBaseSize =
      vaddr / pagingBaseSize := Nat.mul_div_cancel _ (by decide)
  unfold lookup
  simp only [and_pagingBaseMaskHigh vaddr hvaddr, l0Index_eq _ hbase, l1Index_eq, hdiv]

theorem lookup_apart (w : Walker) (hw : WellFormed w) (vaddr : Nat) (hvaddr : vaddr < wordModulus)
    (hpage : Apart w (vaddr / pagingBaseSize)) :
    (lookup w vaddr).1 = readEntry (w.pageEntry (vaddr / pagingBaseSize)) := by
  rw [lookup_page w vaddr hvaddr]
  rcases eq_or_ne (w.entries (vaddr / pagingBaseSize / pagingNEntries)) 0 with hzero | hne
  · rw [if_pos hzero]
    unfold Walker.pageEntry
    rw [if_pos hzero]
    rfl
  rw [if_neg hne, Nat.lor_comm]
  have hsame := pageEntry_setLevel1Modifier_apart w hw
    (((w.entries (vaddr / pagingBaseSize / pagingNEntries) >>> 12) <<< 12) |||
      (w.level1Modifier &&& 0xFFF)) _ hpage
  rw [← hsame]
  show readEntry (Walker.level1Accessor _ _) = _
  unfold Walker.level1Accessor
  rw [accessorFrame_moved]
  show _ = readEntry (if w.entries _ = 0 then 0 else _)
  rw [if_neg hne]
  rfl

theorem lookup_eq (w : Walker) (hw : WellFormed w) (vaddr : Nat) (hvaddr : vaddr < wordModulus)
    (hpage : vaddr / pagingBaseSize ≠ windowPage) :
    (lookup w vaddr).1 = readEntry (w.pageEntry (vaddr / pagingBaseSize)) := by
  refine lookup_apart w hw vaddr hvaddr ⟨?_, fun _ => hpage⟩
  simp only [wordModulus, pagingBaseSize, windowPage, pagingNEntries] at *
  omega

theorem getLevelRanges_eq (vaddr nPages : Nat) (hpos : nPages ≠ 0)
    (hend : vaddr + nPages * pagingBaseSize ≤ wordModulus) :
    getLevelRanges vaddr nPages =
      { l0Start := vaddr / pagingBaseSize / pagingNEntries
        l0End := (vaddr / pagingBaseSize + (nPages - 1)) / pagingNEntries
        l1Start := vaddr / pagingBaseSize % pagingNEntries
        l1End := (vaddr / pagingBaseSize + (nPages - 1)) % pagingNEntries } := by
  have hvaddr : vaddr < wordModulus := by
    simp only [wordModulus, pagingBaseSize] at *
    omega
  have hlast : (vaddr + (nPages - 1) * pagingBaseSize % wordModulus) % wordModulus =
      vaddr + (nPages - 1) * pagingBaseSize := by
    simp only [wordModulus, pagingBaseSize] at *
    omega
  have hlastPage : (vaddr + (nPages - 1) * pagingBaseSize) / pagingBaseSize =
      vaddr / pagingBaseSize + (nPages - 1) := Nat.add_mul_div_right _ _ (by decide)
  have hlastLt : vaddr + (nPages - 1) * pagingBaseSize < wordModulus := by
    simp only [wordModulus, pagingBaseSize] at *
    omega
  simp only [getLevelRanges, hlast, l0Index_eq _ hvaddr, l0Index_eq _ hlastLt, l1Index_eq,
    hlastPage]

theorem getLevelRanges_valid (vaddr nPages : Nat) (haligned : vaddr % pagingBaseSize = 0)
    (hpos : nPages ≠ 0) (hend : vaddr + nPages * pagingBaseSize ≤ 0xFFFFE000) :
    (getLevelRanges vaddr nPages).Valid ∧
      nextPage (getLevelRanges vaddr nPages) (getLevelRanges vaddr nPages).l0Start =
        vaddr / pagingBaseSize ∧
      endPage (getLevelRanges vaddr nPages) = vaddr / pagingBaseSize + nPages := by
  have hbound : vaddr / pagingBaseSize + nPages ≤ 0xFFFFE := by
    simp only [pagingBaseSize] at *
    omega
  rw [getLevelRanges_eq vaddr nPages hpos (le_trans hend (by decide))]
  generalize vaddr / pagingBaseSize = first at hbound ⊢
  refine ⟨⟨?_, ?_, ?_, ?_, ?_⟩, ?_, ?_⟩
  · exact Nat.div_le_div_right (Nat.le_add_right _ _)
  · exact Nat.mod_lt _ (by decide)
  · exact Nat.mod_lt _ (by decide)
  · simp only [pagingNEntries]
    omega
  · simp only [endPage, windowPage, pagingNEntries]
    omega
  · simp only [nextPage, firstIndex, pagingNEntries, if_true]
    rw [if_pos (Nat.div_le_div_right (Nat.le_add_right _ _))]
    omega
  · simp only [endPage, pagingNEntries]
    omega

theorem propagate_eq (range : LevelRanges) (p : Progress) :
    ∃ kernelEntries, propagate range p = { p.walker with kernelEntries := kernelEntries } := by
  unfold propagate
  cases p.walker.kernelEntries with
  | none => exact ⟨p.walker.kernelEntries, rfl⟩
  | some kernelEntries =>
    split_ifs
    · exact ⟨_, rfl⟩
    · exact ⟨p.walker.kernelEntries, rfl⟩

theorem mapInc_spec (w : Walker) (hw : WellFormed w) (vaddr paddr nPages flags : Nat)
    (haligned : vaddr % pagingBaseSize = 0)
    (hend : vaddr + nPages * pagingBaseSize ≤ 0xFFFFE000) (hpaddr : paddr < wordModulus) :
    (mapInc w vaddr paddr nPages flags).1 ≤ nPages ∧
      ((mapInc w vaddr paddr nPages flags).1 < nPages →
        (mapInc w vaddr paddr nPages flags).2.pageTables = [] ∧
          (mapInc w vaddr paddr nPages flags).2.entries
            ((vaddr / pagingBaseSize + (mapInc w vaddr paddr nPages flags).1) /
              pagingNEntries) = 0) ∧ WellFormed (mapInc w vaddr paddr nPages flags).2 ∧
      ∀ page, page < windowPage → (mapInc w vaddr paddr nPages flags).2.pageEntry page =
          mapped w.pageEntry (vaddr / pagingBaseSize) (mapInc w vaddr paddr nPages flags).1
            paddr (encodeFlags flags) page := by
  rcases eq_or_ne nPages 0 with hzero | hpos
  · have hnothing : mapInc w vaddr paddr nPages flags = (0, w) := if_pos hzero
    rw [hnothing, hzero]
    refine ⟨le_refl 0, ?_, hw, ?_⟩
    · intro hlt
      exact absurd hlt (lt_irrefl 0)
    · intro page _
      unfold mapped
      rw [if_neg (by omega)]
  have hvaddr : vaddr < wordModulus := by
    simp only [wordModulus, pagingBaseSize] at *
    omega
  have hmask : vaddr &&& pagingBaseMaskHigh = vaddr := by
    rw [and_pagingBaseMaskHigh vaddr hvaddr]
    exact Nat.div_mul_cancel (Nat.dvd_of_mod_eq_zero haligned)
  obtain ⟨hvalid, hfirst, hlimit⟩ := getLevelRanges_valid vaddr nPages haligned hpos hend
  let range := getLevelRanges vaddr nPages
  let start : Progress := { walker := w, paddr := paddr, ret := 0, l0WasModified := false }
  let p := mapTables range (encodeFlags flags) (range.l0End + 1 - range.l0Start)
    range.l0Start start
  have hmapInc : mapInc w vaddr paddr nPages flags = (p.ret, propagate range p) := by
    unfold mapInc
    rw [if_neg hpos, hmask]
  have hordered := hvalid.ordered
  obtain ⟨count, hcount⟩ := mapTables_spec range hvalid (encodeFlags flags)
    (range.l0End + 1 - range.l0Start) range.l0Start start hw hpaddr (le_refl _)
    (Nat.add_sub_cancel' (Nat.le_succ_of_le hordered))
  have hret : p.ret = count := hcount.maps.ret.trans (zero_add count)
  obtain ⟨kernelEntries, hpropagate⟩ := propagate_eq range p
  have hle := hcount.le
  have hstopped := hcount.stopped
  have hpages := hcount.maps.pages
  rw [hfirst, hlimit] at hle hstopped
  rw [hfirst] at hpages
  rw [hmapInc, hret, hpropagate]
  refine ⟨by omega, ?_, ?_, hpages⟩
  · intro hlt
    exact hstopped (by omega)
  · have hwf := hcount.maps.wellFormed
    exact ⟨hwf.own, hwf.window, hwf.fresh, hwf.distinct⟩

theorem readEntry_zero : readEntry 0 = { status := .unmapped, written := none } :=
  if_pos rfl

theorem readEntry_written (frame flags : Nat) (hne : frame ||| encodeFlags flags ≠ 0) :
    (readEntry (frame ||| encodeFlags flags)).written =
      some (frame / pagingBaseSize * pagingBaseSize,
        decodeFlags (frame % pagingBaseSize ||| encodeFlags flags)) := by
  have hlt : encodeFlags flags < 2 ^ 12 := encodeFlags_lt flags
  have hlow : (frame ||| encodeFlags flags) &&& 0xFFF =
      frame % pagingBaseSize ||| encodeFlags flags := by
    show (frame ||| encodeFlags flags) &&& (2 ^ 12 - 1) = _
    rw [Nat.and_two_pow_sub_one_eq_mod, Nat.or_mod_two_pow, Nat.mod_eq_of_lt hlt]
    rfl
  have hhigh : ((frame ||| encodeFlags flags) >>> 12) <<< 12 =
      frame / pagingBaseSize * pagingBaseSize := by
    rw [Nat.shiftLeft_eq, Nat.shiftRight_eq_div_pow]
    show (frame ||| encodeFlags flags) / pagingBaseSize * pagingBaseSize = _
    rw [or_div_pagingBaseSize _ _ hlt]
  unfold readEntry
  rw [if_neg hne]
  simp only [hlow, hhigh]

theorem readEntry_present (entry : Nat) (hpresent : flagTest entry pagingPresent = true) :
    (readEntry entry).status = .backed := by
  have hne : entry ≠ 0 := by
    rintro rfl
    exact absurd hpresent (by decide)
  have hbit : flagTest (entry &&& 0xFFF) pagingPresent = true := by
    rw [pagingPresent, flagTest_shiftLeft] at hpresent ⊢
    rw [Nat.testBit_and, hpresent]
    rfl
  unfold readEntry
  rw [if_neg hne]
  simp [flagTest_decodeFlags_present, hbit]

/-- Every page that `mapInc` counts is read back by `lookup` with the address and the
flags it was given, every other page as before. -/
theorem mapInc_lookup (w : Walker) (hw : WellFormed w) (vaddr paddr nPages flags : Nat)
    (haligned : vaddr % pagingBaseSize = 0)
    (hend : vaddr + nPages * pagingBaseSize ≤ 0xFFFFE000) (hpaddr : paddr < wordModulus) :
    let count := (mapInc w vaddr paddr nPages flags).1
    let after := (mapInc w vaddr paddr nPages flags).2
    count ≤ nPages ∧
      (count < nPages → after.pageTables = [] ∧
        after.entries ((vaddr / pagingBaseSize + count) / pagingNEntries) = 0) ∧
      (∀ i, i < count →
        let frame := (paddr + i * pagingBaseSize) % wordModulus
        let found := (lookup after (vaddr + i * pagingBaseSize)).1
        (frame ||| encodeFlags flags = 0 → found = { status := .unmapped, written := none }) ∧
        (frame ||| encodeFlags flags ≠ 0 →
          found.written = some (frame / pagingBaseSize * pagingBaseSize,
            decodeFlags (frame % pagingBaseSize ||| encodeFlags flags))) ∧
        (frame ||| encodeFlags flags ≠ 0 → paddr % pagingBaseSize = 0 →
          found.written = some (frame, flags &&& encodedAttribs)) ∧
        (flagTest flags pageAttribPresent = true → found.status = .backed)) ∧
      (∀ addr, addr < wordModulus → addr / pagingBaseSize ≠ windowPage →
        addr < vaddr ∨ vaddr + count * pagingBaseSize ≤ addr →
          (lookup after addr).1 = (lookup w addr).1) ∧
      WellFormed after := by
  intro count after
  obtain ⟨hle, hstopped, hafter, hpages⟩ :=
    mapInc_spec w hw vaddr paddr nPages flags haligned hend hpaddr
  refine ⟨hle, hstopped, ?_, ?_, hafter⟩
  · intro i hi frame found
    have hpage : (vaddr + i * pagingBaseSize) / pagingBaseSize = vaddr / pagingBaseSize + i :=
      Nat.add_mul_div_right _ _ (by decide)
    have hlt : vaddr / pagingBaseSize + i < windowPage := by
      simp only [pagingBaseSize, windowPage, pagingNEntries] at *
      omega
    have hvaddr : vaddr + i * pagingBaseSize < wordModulus := by
      simp only [pagingBaseSize, wordModulus] at *
      omega
    have hfound : found = readEntry (frame ||| encodeFlags flags) := by
      show (lookup after _).1 = _
      rw [lookup_eq after hafter _ hvaddr (by rw [hpage]; exact ne_of_lt hlt), hpage,
        hpages _ hlt, mapped, if_pos ⟨Nat.le_add_right _ _, Nat.add_lt_add_left hi _⟩,
        Nat.add_sub_cancel_left]
    refine ⟨?_, ?_, ?_, ?_⟩
    · intro hzero
      rw [hfound, hzero, readEntry_zero]
    · intro hne
      rw [hfound, readEntry_written frame flags hne]
    · intro hne hbase
      have hframe : frame % pagingBaseSize = 0 := by
        show (paddr + i * pagingBaseSize) % wordModulus % pagingBaseSize = 0
        rw [Nat.mod_mod_of_dvd _ (by decide), Nat.add_mul_mod_self_right, hbase]
      rw [hfound, readEntry_written frame flags hne, hframe, Nat.zero_or,
        decodeFlags_encodeFlags, Nat.div_mul_cancel (Nat.dvd_of_mod_eq_zero hframe)]
    · intro hpresent
      rw [hfound]
      apply readEntry_present
      rw [pageAttribPresent, flagTest_shiftLeft] at hpresent
      rw [pagingPresent, flagTest_shiftLeft, Nat.testBit_or, testBit_encodeFlags]
      simp [hpresent]
  · intro addr haddr hwindow hout
    have hlt : addr / pagingBaseSize < windowPage := by
      simp only [pagingBaseSize, wordModulus, windowPage, pagingNEntries] at *
      omega
    have hnot : ¬ (vaddr / pagingBaseSize ≤ addr / pagingBaseSize ∧
        addr / pagingBaseSize < vaddr / pagingBaseSize + count) := by
      simp only [pagingBaseSize] at *
      omega
    rw [lookup_eq after hafter addr haddr hwindow, lookup_eq w hw addr haddr hwindow,
      hpages _ hlt, mapped, if_neg hnot]

def sampleWalker : Walker where
  entries := fun i => if i = 1023 then 0x3003 else 0
  tables := fun f j => if f = 3 ∧ (j = 1022 ∨ j = 1023) then 0x3003 else 0
  windowFrame := 3
  pageTables := [0x5000]
  kernelEntries := none

theorem sampleWalker_wellFormed : WellFormed sampleWalker := by
  have hentry : ∀ i, sampleWalker.entries i ≠ 0 → i = 1023 := by
    intro i hne
    rcases eq_or_ne i 1023 with heq | hi
    · exact heq
    · exact absurd (if_neg hi) hne
  constructor
  · intro i j _ _ hi hj _
    rw [hentry i hi, hentry j hj]
  · intro i _ hi _
    exact hentry i hi
  · intro frame hframe
    rw [mem_singleton.mp hframe]
    refine ⟨by decide, ?_⟩
    intro i _ hi
    rw [hentry i hi]
    decide
  · exact pairwise_singleton _ _

theorem mapInc_lookup_sample : (mapInc sampleWalker 0x7FF000 0x100000 2 22).1 = 1 ∧
      (mapInc sampleWalker 0x7FF000 0x100000 2 22).2.pageTables = [] ∧
      (lookup (mapInc sampleWalker 0x7FF000 0x100000 2 22).2 0x7FF000).1.written =
        some (0x100000, 22) := by
  have hcount : (mapInc sampleWalker 0x7FF000 0x100000 2 22).1 = 1 := by decide +kernel
  obtain ⟨-, hstopped, hmapped, -, -⟩ := mapInc_lookup sampleWalker sampleWalker_wellFormed
    0x7FF000 0x100000 2 22 (by decide) (by decide) (by decide)
  generalize mapInc sampleWalker 0x7FF000 0x100000 2 22 = result at *
  have hfirst := (hmapped 0 (by rw [hcount]; decide)).2.2.1 (by decide) (by decide)
  exact ⟨hcount, (hstopped (by rw [hcount]; decide)).1, hfirst⟩

/-- An entry that is zero reads as unmapped, the window's page reads as the window's own
table, and mapping another page changes what is read of the window's page. -/
theorem mapInc_zero_entry_unmapped : WellFormed sampleWalker ∧
      ¬ (∀ i, i < (mapInc sampleWalker 0x400000 0 1 pageAttribSupervisor).1 →
        (lookup (mapInc sampleWalker 0x400000 0 1 pageAttribSupervisor).2
          (0x400000 + i * pagingBaseSize)).1.written =
          some (0 + i * pagingBaseSize, decodeFlags (encodeFlags pageAttribSupervisor))) ∧
      ¬ (∀ i, i < (mapInc sampleWalker 0xFFFFF000 0x100000 1 pageAttribPresent).1 →
        (lookup (mapInc sampleWalker 0xFFFFF000 0x100000 1 pageAttribPresent).2
          (0xFFFFF000 + i * pagingBaseSize)).1.written =
          some (0x100000 + i * pagingBaseSize, decodeFlags (encodeFlags pageAttribPresent))) ∧
      (lookup (mapInc sampleWalker 0x400000 0x100000 1 pageAttribPresent).2 0xFFFFF000).1 ≠
        (lookup sampleWalker 0xFFFFF000).1 := by
  refine ⟨sampleWalker_wellFormed, ?_, ?_, by decide +kernel⟩
  · have hcount : 0 < (mapInc sampleWalker 0x400000 0 1 pageAttribSupervisor).1 := by decide +kernel
    have hfound : (lookup (mapInc sampleWalker 0x400000 0 1 pageAttribSupervisor).2
        (0x400000 + 0 * pagingBaseSize)).1.written = none := by
      decide +kernel
    generalize mapInc sampleWalker 0x400000 0 1 pageAttribSupervisor = result at *
    intro hclaim
    have hwritten := hclaim 0 hcount
    rw [hfound] at hwritten
    cases hwritten
  · have hcount : 0 < (mapInc sampleWalker 0xFFFFF000 0x100000 1 pageAttribPresent).1 := by
      decide +kernel
    have hfound : (lookup (mapInc sampleWalker 0xFFFFF000 0x100000 1 pageAttribPresent).2
        (0xFFFFF000 + 0 * pagingBaseSize)).1.written = some (0x3000, 16) := by
      decide +kernel
    generalize mapInc sampleWalker 0xFFFFF000 0x100000 1 pageAttribPresent = result at *
    intro hclaim
    have hwritten := hclaim 0 hcount
    rw [hfound] at hwritten
    exact absurd hwritten (by decide)

end Zambesii.WalkerPageRanger
