import Zambesii.WalkerPageRanger

/-!
`walkerPageRanger::setAttributes` changes the flags of the pages of a range through the
window, with loops of its own.
-/

namespace Zambesii.SetAttributes

open KernelTypes Nat PageAttributes WalkerPageRanger

inductive Op
  | set
  | clear
  | assign
  | setPresent
  | clearPresent
  | setWrite
  | clearWrite
deriving DecidableEq

def flagUnset (entry flag : Nat) : Nat :=
  entry &&& (0xFFFFFFFF ^^^ flag)

def applyOp (op : Op) (archFlags entry : Nat) : Nat :=
  match op with
  | .assign => ((entry >>> 12) <<< 12) ||| archFlags
  | .set => entry ||| archFlags
  | .clear => flagUnset entry archFlags
  | .setPresent => entry ||| pagingPresent
  | .clearPresent => flagUnset entry pagingPresent
  | .setWrite => entry ||| pagingWrite
  | .clearWrite => flagUnset entry pagingWrite

/-- The walker, and the indices that `level1Accessor->entries` was used with, the latest
one first. -/
structure Access where
  walker : Walker
  indices : List Nat

/-- The level 1 loop of `setAttributes`, with `remaining` turns left. An index beyond the
table is an address beyond the window, so no table is written. -/
def setEntries (op : Op) (archFlags : Nat) : Nat → Nat → Access → Access
  | 0, _, a => a
  | remaining + 1, l1Current, a =>
    setEntries op archFlags remaining (l1Current + 1)
      { walker :=
          if l1Current < pagingNEntries then
            a.walker.setLevel1Accessor l1Current
              (applyOp op archFlags (a.walker.level1Accessor l1Current))
          else a.walker
        indices := l1Current :: a.indices }

/-- The level 0 loop of `setAttributes`, with `remaining` turns left. -/
def setTables (range : LevelRanges) (op : Op) (archFlags : Nat) : Nat → Nat → Access → Access
  | 0, _, a => a
  | remaining + 1, l0Current, a =>
    let shown := { a with
      walker := a.walker.setLevel1Modifier (a.walker.entries l0Current) }
    let l1Current := if l0Current = range.l0Start then range.l1Start else 0
    let l1Limit := if l0Current = range.l0End then range.l1End else pagingBaseSize - 1
    setTables range op archFlags remaining (l0Current + 1)
      (setEntries op archFlags (l1Limit + 1 - l1Current) l1Current shown)

def setAttributes (w : Walker) (vaddr nPages : Nat) (op : Op) (flags : Nat) : Access :=
  if nPages = 0 then { walker := w, indices := [] }
  else
    let vaddr := vaddr &&& pagingBaseMaskHigh
    let archFlags := encodeFlags flags
    let range := getLevelRanges vaddr nPages
    setTables range op archFlags (range.l0End + 1 - range.l0Start) range.l0Start
      { walker := w, indices := [] }

def opBit (op : Op) (archFlags before i : Nat) : Bool :=
  match op with
  | .assign => archFlags.testBit i
  | .set => before.testBit i || archFlags.testBit i
  | .clear => before.testBit i && !archFlags.testBit i
  | .setPresent => before.testBit i || decide (i = 0)
  | .clearPresent => before.testBit i && decide (i ≠ 0)
  | .setWrite => before.testBit i || decide (i = 1)
  | .clearWrite => before.testBit i && decide (i ≠ 1)

/-- The entry `after` has the frame of `before` and the flags that the operation says. -/
def Changed (op : Op) (archFlags before after : Nat) : Prop :=
  after / pagingBaseSize = before / pagingBaseSize ∧
    ∀ i, i < pagingBaseShift → after.testBit i = opBit op archFlags before i

theorem testBit_flagUnset (entry flag i : Nat) (hi : i < 32) :
    (flagUnset entry flag).testBit i = (entry.testBit i && !flag.testBit i) := by
  have hmask : (0xFFFFFFFF : Nat) = 2 ^ 32 - 1 := rfl
  rw [flagUnset, testBit_and, testBit_xor, hmask, testBit_two_pow_sub_one]
  simp [hi]

theorem flagUnset_div (entry flag : Nat) (hentry : entry < wordModulus)
    (hflag : flag < pagingBaseSize) :
    flagUnset entry flag / pagingBaseSize = entry / pagingBaseSize := by
  have hdiv : ∀ n : Nat, n / pagingBaseSize = n >>> 12 := fun n =>
    (shiftRight_eq_div_pow n 12).symm
  rw [hdiv, hdiv]
  apply eq_of_testBit_eq
  intro i
  rw [testBit_shiftRight, testBit_shiftRight]
  rcases lt_or_ge (12 + i) 32 with hi | hi
  · have hzero : flag.testBit (12 + i) = false :=
      Nat.testBit_lt_two_pow (lt_of_lt_of_le hflag (Nat.pow_le_pow_right Nat.two_pos
        (le_add_right 12 i)))
    rw [testBit_flagUnset entry flag _ hi, hzero]
    simp
  · have hzero : entry.testBit (12 + i) = false :=
      Nat.testBit_lt_two_pow (lt_of_lt_of_le hentry (Nat.pow_le_pow_right Nat.two_pos hi))
    rw [flagUnset, testBit_and, hzero]
    rfl

theorem testBit_or_shiftLeft (entry k i : Nat) :
    (entry ||| 1 <<< k).testBit i = (entry.testBit i || decide (i = k)) := by
  rw [testBit_or, one_shiftLeft, testBit_two_pow]
  simp [eq_comm]

theorem testBit_flagUnset_shiftLeft (entry k i : Nat) (hi : i < 32) :
    (flagUnset entry (1 <<< k)).testBit i = (entry.testBit i && decide (i ≠ k)) := by
  rw [testBit_flagUnset entry _ i hi, one_shiftLeft, testBit_two_pow]
  simp [eq_comm]

theorem applyOp_changed (op : Op) (archFlags entry : Nat) (hentry : entry < wordModulus)
    (hflags : archFlags < pagingBaseSize) :
    Changed op archFlags entry (applyOp op archFlags entry) := by
  cases op with
  | assign =>
    constructor
    · show (((entry >>> 12) <<< 12) ||| archFlags) / pagingBaseSize = _
      rw [or_div_pagingBaseSize _ _ hflags, shiftLeft_eq, shiftRight_eq_div_pow]
      exact Nat.mul_div_cancel _ (by decide)
    · intro i hi
      show (((entry >>> 12) <<< 12) ||| archFlags).testBit i = archFlags.testBit i
      have hlow : ¬ 12 ≤ i := not_le.mpr hi
      simp [hlow]
  | set =>
    constructor
    · exact or_div_pagingBaseSize _ _ hflags
    · intro i _
      exact testBit_or entry archFlags i
  | clear =>
    constructor
    · exact flagUnset_div entry archFlags hentry hflags
    · intro i hi
      exact testBit_flagUnset entry archFlags i (lt_trans hi (by decide))
  | setPresent =>
    constructor
    · exact or_div_pagingBaseSize _ _ (by decide)
    · intro i _
      exact testBit_or_shiftLeft entry 0 i
  | clearPresent =>
    constructor
    · exact flagUnset_div entry _ hentry (by decide)
    · intro i hi
      exact testBit_flagUnset_shiftLeft entry 0 i (lt_trans hi (by decide))
  | setWrite =>
    constructor
    · exact or_div_pagingBaseSize _ _ (by decide)
    · intro i _
      exact testBit_or_shiftLeft entry 1 i
  | clearWrite =>
    constructor
    · exact flagUnset_div entry _ hentry (by decide)
    · intro i hi
      exact testBit_flagUnset_shiftLeft entry 1 i (lt_trans hi (by decide))

/-- What one turn of the level 0 loop does to the pages: the flags of the `count` pages
from `first` on are changed. -/
def changed (op : Op) (archFlags : Nat) (before : Nat → Nat) (first count : Nat) : Nat → Nat :=
  fun page =>
    if first ≤ page ∧ page < first + count then applyOp op archFlags (before page)
    else before page

theorem changed_succ (op : Op) (archFlags : Nat) (before : Nat → Nat) (first count page : Nat) :
    changed op archFlags (fun page => if page = first then applyOp op archFlags (before page)
      else before page) (first + 1) count page =
      changed op archFlags before first (count + 1) page := by
  unfold changed
  beta_reduce
  rcases lt_trichotomy page first with hlt | heq | hgt
  · rw [if_neg (by omega), if_neg (by omega), if_neg (by omega)]
  · rw [if_neg (by omega), if_pos heq, if_pos (by omega)]
  · rw [if_neg (by omega : ¬ page = first)]
    rcases lt_or_ge page (first + (count + 1)) with hin | hout
    · rw [if_pos (by omega), if_pos (by omega)]
    · rw [if_neg (by omega), if_neg (by omega)]

theorem level1Accessor_eq_pageEntry (w : Walker) (l0Current l1Current : Nat)
    (hl1 : l1Current < pagingNEntries) (hentry : w.entries l0Current ≠ 0)
    (haccessor : w.accessorFrame = w.entries l0Current / pagingBaseSize) :
    w.level1Accessor l1Current = w.pageEntry (l0Current * pagingNEntries + l1Current) := by
  have hdiv : (l0Current * pagingNEntries + l1Current) / pagingNEntries = l0Current := by
    simp only [pagingNEntries] at hl1 ⊢
    omega
  have hmod : (l0Current * pagingNEntries + l1Current) % pagingNEntries = l1Current := by
    simp only [pagingNEntries] at hl1 ⊢
    omega
  unfold Walker.level1Accessor Walker.pageEntry
  rw [hdiv, hmod, if_neg hentry, haccessor]

theorem setEntries_spec (op : Op) (archFlags l0Current : Nat) (hl0 : l0Current < pagingNEntries)
    (remaining l1Current : Nat) (a : Access) (hw : WellFormed a.walker)
    (hl1 : l1Current + remaining ≤ pagingNEntries) (hentry : a.walker.entries l0Current ≠ 0)
    (haccessor : remaining ≠ 0 →
      a.walker.accessorFrame = a.walker.entries l0Current / pagingBaseSize) (page : Nat)
    (hpage : page < windowPage) :
    (setEntries op archFlags remaining l1Current a).walker.pageEntry page =
      changed op archFlags a.walker.pageEntry (l0Current * pagingNEntries + l1Current)
        remaining page := by
  induction remaining generalizing l1Current a with
  | zero =>
    unfold changed
    rw [if_neg (by omega)]
    rfl
  | succ remaining ih =>
    have hacc := haccessor (succ_ne_zero remaining)
    have hlt : l1Current < pagingNEntries := by omega
    have hwrite : (a.walker.setLevel1Accessor l1Current
        (applyOp op archFlags (a.walker.level1Accessor l1Current))).pageEntry page =
        if page = l0Current * pagingNEntries + l1Current then
          applyOp op archFlags (a.walker.pageEntry page) else a.walker.pageEntry page := by
      rw [setLevel1Accessor_pageEntry a.walker hw l0Current l1Current _ hlt hentry hacc page
        hl0 (le_of_lt hpage),
        level1Accessor_eq_pageEntry a.walker l0Current l1Current hlt hentry hacc]
      rcases eq_or_ne page (l0Current * pagingNEntries + l1Current) with heq | hne
      · rw [if_pos heq, if_pos heq, heq]
      · rw [if_neg hne, if_neg hne]
    let b : Access :=
      { walker := a.walker.setLevel1Accessor l1Current
          (applyOp op archFlags (a.walker.level1Accessor l1Current))
        indices := l1Current :: a.indices }
    have hstep : setEntries op archFlags (remaining + 1) l1Current a =
        setEntries op archFlags remaining (l1Current + 1) b := by
      show setEntries op archFlags remaining (l1Current + 1) _ = _
      rw [if_pos hlt]
    have hstays : remaining ≠ 0 →
        b.walker.accessorFrame = b.walker.entries l0Current / pagingBaseSize := by
      intro hne
      refine Eq.trans ?_ hacc
      apply accessorFrame_setLevel1Accessor a.walker hw l0Current l1Current _ hl0 hentry hacc
      simp only [windowPage, pagingNEntries] at hl0 hl1 ⊢
      omega
    rw [hstep, ih (l1Current + 1) b (hw.writeTable _ _ _) (by omega) hentry hstays,
      ← changed_succ, ← add_assoc]
    unfold changed
    beta_reduce
    rw [← hwrite]

theorem setEntries_indices (op : Op) (archFlags remaining l1Current : Nat) (a : Access)
    (index : Nat) : index ∈ (setEntries op archFlags remaining l1Current a).indices ↔
      index ∈ a.indices ∨ l1Current ≤ index ∧ index < l1Current + remaining := by
  induction remaining generalizing l1Current a with
  | zero =>
    constructor
    · exact .inl
    · rintro (h | h)
      · exact h
      · omega
  | succ remaining ih =>
    show index ∈ (setEntries op archFlags remaining (l1Current + 1) _).indices ↔ _
    rw [ih (l1Current + 1), List.mem_cons]
    constructor
    · rintro ((rfl | hold) | hnew)
      · exact .inr (by omega)
      · exact .inl hold
      · exact .inr (by omega)
    · rintro (hold | hnew)
      · exact .inl (.inr hold)
      · rcases eq_or_ne index l1Current with heq | hne
        · exact .inl (.inl heq)
        · exact .inr (by omega)

theorem setTables_indices (range : LevelRanges) (op : Op) (archFlags remaining l0Current : Nat)
    (a : Access) (index : Nat) (hindex : index ∈ a.indices) :
    index ∈ (setTables range op archFlags remaining l0Current a).indices := by
  induction remaining generalizing l0Current a with
  | zero => exact hindex
  | succ remaining ih =>
    apply ih
    rw [setEntries_indices]
    exact .inl hindex

def WordEntries (w : Walker) : Prop :=
  ∀ frame index, w.tables frame index < wordModulus

/-- What `setAttributes` is for: it uses no index beyond a table, changes the flags of the
pages of the range and leaves every other page as it is. The window's page is the walker's
own. -/
structure Meets (w : Walker) (vaddr nPages : Nat) (op : Op) (flags : Nat) : Prop where
  indices : ∀ index ∈ (setAttributes w vaddr nPages op flags).indices, index < pagingNEntries
  inside : ∀ page, page < windowPage → vaddr / pagingBaseSize ≤ page →
    page < vaddr / pagingBaseSize + nPages →
      Changed op (encodeFlags flags) (w.pageEntry page)
        ((setAttributes w vaddr nPages op flags).walker.pageEntry page)
  outside : ∀ page, page < windowPage →
    page < vaddr / pagingBaseSize ∨ vaddr / pagingBaseSize + nPages ≤ page →
      (setAttributes w vaddr nPages op flags).walker.pageEntry page = w.pageEntry page

section

variable (w : Walker) (vaddr nPages : Nat) (op : Op) (flags : Nat)
variable (hvaddr : vaddr < wordModulus) (hpos : 0 < nPages)
variable (hend : vaddr / pagingBaseSize + nPages ≤ pagingNEntries * pagingNEntries)

include hvaddr hpos hend

theorem setAttributes_eq :
    setAttributes w vaddr nPages op flags =
      setTables
        { l0Start := vaddr / pagingBaseSize / pagingNEntries
          l0End := (vaddr / pagingBaseSize + (nPages - 1)) / pagingNEntries
          l1Start := vaddr / pagingBaseSize % pagingNEntries
          l1End := (vaddr / pagingBaseSize + (nPages - 1)) % pagingNEntries }
        op (encodeFlags flags)
        ((vaddr / pagingBaseSize + (nPages - 1)) / pagingNEntries + 1 -
          vaddr / pagingBaseSize / pagingNEntries)
        (vaddr / pagingBaseSize / pagingNEntries) { walker := w, indices := [] } := by
  have hbase : vaddr / pagingBaseSize * pagingBaseSize / pagingBaseSize =
      vaddr / pagingBaseSize := Nat.mul_div_cancel _ (by decide)
  have hrange := getLevelRanges_eq (vaddr / pagingBaseSize * pagingBaseSize) nPages
    (ne_of_gt hpos) (by simp only [wordModulus, pagingBaseSize, pagingNEntries] at *; omega)
  rw [hbase] at hrange
  unfold setAttributes
  rw [if_neg (ne_of_gt hpos), and_pagingBaseMaskHigh vaddr hvaddr]
  simp only [hrange]

theorem crossing_index (hcross : vaddr / pagingBaseSize / pagingNEntries ≠
      (vaddr / pagingBaseSize + (nPages - 1)) / pagingNEntries) :
    pagingNEntries ∈ (setAttributes w vaddr nPages op flags).indices := by
  rw [setAttributes_eq w vaddr nPages op flags hvaddr hpos hend]
  have hle : vaddr / pagingBaseSize / pagingNEntries ≤
      (vaddr / pagingBaseSize + (nPages - 1)) / pagingNEntries :=
    Nat.div_le_div_right (Nat.le_add_right _ _)
  have hturns : (vaddr / pagingBaseSize + (nPages - 1)) / pagingNEntries + 1 -
      vaddr / pagingBaseSize / pagingNEntries =
      ((vaddr / pagingBaseSize + (nPages - 1)) / pagingNEntries -
        vaddr / pagingBaseSize / pagingNEntries) + 1 := by omega
  have hfirst : vaddr / pagingBaseSize % pagingNEntries < pagingNEntries :=
    mod_lt _ (by decide)
  rw [hturns]
  show _ ∈ (setTables _ op _ _ (_ + 1) (setEntries op _ _ _ _)).indices
  apply setTables_indices
  rw [setEntries_indices, if_pos rfl, if_neg hcross]
  right
  simp only [pagingBaseSize, pagingNEntries] at hfirst ⊢
  omega

theorem setAttributes_single
    (hsame : vaddr / pagingBaseSize / pagingNEntries =
      (vaddr / pagingBaseSize + (nPages - 1)) / pagingNEntries) :
    setAttributes w vaddr nPages op flags =
      setEntries op (encodeFlags flags) nPages (vaddr / pagingBaseSize % pagingNEntries)
        { walker := w.setLevel1Modifier
            (w.entries (vaddr / pagingBaseSize / pagingNEntries)), indices := [] } := by
  rw [setAttributes_eq w vaddr nPages op flags hvaddr hpos hend, ← hsame, Nat.add_sub_cancel_left]
  show setEntries op (encodeFlags flags) _ _ _ = _
  rw [if_pos rfl, if_pos rfl]
  have hcount : (vaddr / pagingBaseSize + (nPages - 1)) % pagingNEntries + 1 -
      vaddr / pagingBaseSize % pagingNEntries = nPages := by
    simp only [pagingNEntries] at *
    omega
  rw [hcount]

end

/-- `setAttributes` does what it is for exactly on the ranges inside one table. -/
theorem setAttributes_meets_iff (w : Walker) (hw : WellFormed w) (hword : WordEntries w)
    (vaddr nPages : Nat) (op : Op) (flags : Nat) (hvaddr : vaddr < wordModulus) (hpos : 0 < nPages)
    (hend : vaddr / pagingBaseSize + nPages ≤ pagingNEntries * pagingNEntries)
    (htables : ∀ l0, vaddr / pagingBaseSize / pagingNEntries ≤ l0 →
      l0 ≤ (vaddr / pagingBaseSize + (nPages - 1)) / pagingNEntries → w.entries l0 ≠ 0) :
    Meets w vaddr nPages op flags ↔ vaddr / pagingBaseSize / pagingNEntries =
        (vaddr / pagingBaseSize + (nPages - 1)) / pagingNEntries := by
  constructor
  · intro hmeets
    rcases eq_or_ne (vaddr / pagingBaseSize / pagingNEntries)
      ((vaddr / pagingBaseSize + (nPages - 1)) / pagingNEntries) with hsame | hcross
    · exact hsame
    · have hindex := crossing_index w vaddr nPages op flags hvaddr hpos hend hcross
      exact absurd (hmeets.indices _ hindex) (lt_irrefl _)
  · intro hsame
    have hsingle := setAttributes_single w vaddr nPages op flags hvaddr hpos hend hsame
    have hentry := htables _ (le_refl _) (le_of_eq hsame)
    have hl0 : vaddr / pagingBaseSize / pagingNEntries < pagingNEntries := by
      simp only [wordModulus, pagingBaseSize, pagingNEntries] at *
      omega
    have hl1 : vaddr / pagingBaseSize % pagingNEntries + nPages ≤ pagingNEntries := by
      simp only [pagingNEntries] at *
      omega
    have hpages : ∀ page, page < windowPage →
        (setAttributes w vaddr nPages op flags).walker.pageEntry page =
          changed op (encodeFlags flags) w.pageEntry (vaddr / pagingBaseSize) nPages page := by
      intro page hpage
      rw [hsingle, setEntries_spec op (encodeFlags flags) _ hl0 nPages _ _
        (hw.writeTable _ _ _) hl1 hentry (fun _ => accessorFrame_setLevel1Modifier w _) page hpage,
        div_add_mod']
      unfold changed
      rw [pageEntry_setLevel1Modifier w hw _ page hpage]
    constructor
    · intro index hindex
      rw [hsingle, setEntries_indices] at hindex
      rcases hindex with hnone | hlt
      · exact absurd hnone List.not_mem_nil
      · omega
    · intro page hpage hge hlt
      rw [hpages page hpage, changed, if_pos ⟨hge, hlt⟩]
      apply applyOp_changed _ _ _ _ (encodeFlags_lt flags)
      unfold Walker.pageEntry
      split_ifs
      · decide
      · exact hword _ _
    · intro page hpage hout
      rw [hpages page hpage, changed, if_neg (by omega)]

def sampleTables : Walker where
  entries := fun i => if i = 1 then 0x4003 else if i = 2 then 0x5003 else
    if i = 1023 then 0x3003 else 0
  tables := fun f j => if f = 3 ∧ (j = 1022 ∨ j = 1023) then 0x3003 else 0
  windowFrame := 3
  pageTables := []
  kernelEntries := none

theorem sampleTables_wellFormed : WellFormed sampleTables := by
  have hentry : ∀ i, sampleTables.entries i ≠ 0 → i = 1 ∨ i = 2 ∨ i = 1023 := by
    intro i hne
    rcases em (i = 1 ∨ i = 2 ∨ i = 1023) with heq | hi
    · exact heq
    · refine absurd ?_ hne
      simp only [sampleTables]
      split_ifs <;> omega
  constructor
  · intro i j _ _ hi hj hframe
    rcases hentry i hi with rfl | rfl | rfl <;> rcases hentry j hj with rfl | rfl | rfl <;>
      first | rfl | exact absurd hframe (by decide)
  · intro i _ hi hframe
    rcases hentry i hi with rfl | rfl | rfl <;> first | rfl | exact absurd hframe (by decide)
  · intro frame hframe
    exact absurd hframe List.not_mem_nil
  · exact List.Pairwise.nil

theorem sampleTables_wordEntries : WordEntries sampleTables := by
  intro frame index
  simp only [sampleTables]
  split_ifs <;> decide

theorem sampleTables_entries_ne (l0 : Nat) (hl0 : l0 = 1 ∨ l0 = 2) :
    sampleTables.entries l0 ≠ 0 := by
  rcases hl0 with rfl | rfl <;> decide

theorem setAttributes_meets_lastPages : Meets sampleTables 0x7FE000 2 .setPresent 0 := by
  refine (setAttributes_meets_iff sampleTables sampleTables_wellFormed sampleTables_wordEntries
    0x7FE000 2 .setPresent 0 (by decide) (by decide) (by decide) ?_).mpr (by decide)
  intro l0 hge hle
  exact sampleTables_entries_ne l0 (by simp only [pagingBaseSize, pagingNEntries] at *; omega)

theorem setAttributes_crossing_not_meets : WellFormed sampleTables ∧ WordEntries sampleTables ∧
      sampleTables.entries 1 ≠ 0 ∧ sampleTables.entries 2 ≠ 0 ∧
      ¬ Meets sampleTables 0x7FF000 2 .setPresent 0 := by
  refine ⟨sampleTables_wellFormed, sampleTables_wordEntries, by decide, by decide, ?_⟩
  intro hmeets
  have hindex := crossing_index sampleTables 0x7FF000 2 .setPresent 0 (by decide) (by decide)
    (by decide) (by decide)
  exact absurd (hmeets.indices _ hindex) (lt_irrefl _)

end Zambesii.SetAttributes
