import Mathlib.Data.List.Count
import Zambesii.WalkerPageRanger

/-!
`walkerPageRanger::mapInc` on behalf of any process: the locks of the level 0 tables that it
takes, and the new tables in the kernel's part of the address space, which the kernel's own
level 0 table is to get too.
-/

namespace Zambesii.MapIncLocks

open Function List Nat
open KernelTypes PageAttributes WalkerPageRanger

/-- How often the calling thread holds the lock of each address space. `acquire` waits while
another thread has it. -/
abbrev Locks := Nat → Nat

def acquire (locks : Locks) (space : Nat) : Locks :=
  update locks space (locks space + 1)

def release (locks : Locks) (space : Nat) : Locks :=
  update locks space (locks space - 1)

def newEntry (frame : Nat) : Nat :=
  frame ||| (pagingPresent ||| pagingWrite)

/-- The address space that is mapped into, those of the current process and of the kernel, and
the tables. The kernel's level 0 table is apart when the address space is not the kernel's, and
has none of the frames that are left for new tables. -/
structure Setting where
  walker : Walker
  target : Nat
  current : Nat
  kernel : Nat
  kernel_iff : walker.kernelEntries = none ↔ target = kernel
  unused : ∀ kernelEntries ∈ walker.kernelEntries, ∀ frame ∈ walker.pageTables,
    ∀ i, kernelEntries i ≠ newEntry frame

def kernelIndex : Nat :=
  kloadVaddrBase >>> pagingL0VaddrShift

/-- The test at `out` that leads to the propagation. -/
def propagates (s : Setting) (range : LevelRanges) (p : Progress) : Bool :=
  decide (kernelIndex ≤ range.l0Start) && p.l0WasModified && decide (s.target ≠ s.kernel)

/-- The locks around the propagation: both calls are `acquire`. -/
def propagateLocks (s : Setting) (range : LevelRanges) (p : Progress) (locks : Locks) : Locks :=
  if propagates s range p then acquire (acquire locks s.kernel) s.kernel else locks

def mapIncLocked (s : Setting) (locks : Locks) (vaddr paddr nPages flags : Nat) :
    Nat × Walker × Locks :=
  if nPages = 0 then (0, s.walker, locks)
  else
    let vaddr := vaddr &&& pagingBaseMaskHigh
    let archFlags := encodeFlags flags
    let range := getLevelRanges vaddr nPages
    let locks := acquire (acquire locks s.target) s.current
    let p := mapTables range archFlags (range.l0End + 1 - range.l0Start) range.l0Start
      { walker := s.walker, paddr := paddr, ret := 0, l0WasModified := false }
    let locks := propagateLocks s range p locks
    (p.ret, propagate range p, release (release locks s.target) s.current)

def InRange (vaddr nPages i : Nat) : Prop :=
  (getLevelRanges (vaddr &&& pagingBaseMaskHigh) nPages).l0Start ≤ i ∧
    i ≤ (getLevelRanges (vaddr &&& pagingBaseMaskHigh) nPages).l0End

/-- The locks are as before, and the kernel's level 0 table has got the new tables in its part
of another address space. -/
structure Right (s : Setting) (locks : Locks) (vaddr nPages : Nat) (after : Walker)
    (locksAfter : Locks) : Prop where
  locks_eq : locksAfter = locks
  propagated : ∀ kernelEntries ∈ after.kernelEntries,
    (∃ i, kernelIndex ≤ i ∧ s.walker.entries i = 0 ∧ after.entries i ≠ 0) →
      ∀ i, InRange vaddr nPages i → kernelEntries i = after.entries i

/-- Of an address space that is not the kernel's, a level 0 entry in the kernel's part of the
range is empty, and the empty ones in front of that part do not use up the frames for tables. -/
def NeedsKernelTable (s : Setting) (vaddr nPages : Nat) : Prop :=
  s.target ≠ s.kernel ∧ nPages ≠ 0 ∧
    (∃ i, kernelIndex ≤ i ∧ InRange vaddr nPages i ∧ s.walker.entries i = 0) ∧
    (List.range' (getLevelRanges (vaddr &&& pagingBaseMaskHigh) nPages).l0Start
        (kernelIndex - (getLevelRanges (vaddr &&& pagingBaseMaskHigh) nPages).l0Start)).countP
      (fun i => s.walker.entries i = 0) < s.walker.pageTables.length

theorem release_acquire (locks : Locks) (space : Nat) :
    release (acquire locks space) space = locks := by
  unfold release acquire
  rw [update_self, update_idem, Nat.add_sub_cancel, update_eq_self]

theorem release_acquire_comm (locks : Locks) {a b : Nat} (hpos : 0 < locks a) :
    release (acquire locks b) a = acquire (release locks a) b := by
  unfold release acquire
  rcases eq_or_ne a b with rfl | hne
  · rw [update_self, update_self, update_idem, update_idem]
    congr 1
    omega
  · rw [update_of_ne hne, update_of_ne hne.symm, update_comm hne]

theorem acquire_pos (locks : Locks) (space : Nat) : 0 < acquire locks space space := by
  unfold acquire
  rw [update_self]
  exact succ_pos _

theorem release_both (locks : Locks) (a b : Nat) :
    release (release (acquire (acquire locks a) b) a) b = locks := by
  rw [release_acquire_comm _ (acquire_pos locks a), release_acquire, release_acquire]

theorem acquire_mono (locks : Locks) (a b : Nat) : locks a ≤ acquire locks b a := by
  unfold acquire
  rcases eq_or_ne a b with rfl | hne
  · rw [update_self]
    exact le_succ _
  · rw [update_of_ne hne]

theorem release_both_kernel (locks : Locks) (a b kernel : Nat) :
    release (release (acquire (acquire (acquire (acquire locks a) b) kernel) kernel) a) b =
      acquire (acquire locks kernel) kernel := by
  have ha : 0 < acquire (acquire locks a) b a :=
    lt_of_lt_of_le (acquire_pos locks a) (acquire_mono _ a b)
  have ha' : 0 < acquire (acquire (acquire locks a) b) kernel a :=
    lt_of_lt_of_le ha (acquire_mono _ a kernel)
  rw [release_acquire_comm _ ha', release_acquire_comm _ ha,
    release_acquire_comm _ (acquire_pos locks a), release_acquire,
    release_acquire_comm _ (lt_of_lt_of_le (acquire_pos locks b) (acquire_mono _ b kernel)),
    release_acquire_comm _ (acquire_pos locks b), release_acquire]

theorem acquire_twice_ne (locks : Locks) (space : Nat) :
    acquire (acquire locks space) space ≠ locks := by
  intro heq
  have h := congrFun heq space
  unfold acquire at h
  rw [update_self, update_self] at h
  omega

def installed (entries : Nat → Nat) : Nat → Nat → List Nat → List Nat
  | 0, _, _ => []
  | remaining + 1, l0Current, frames =>
    if entries l0Current = 0 then
      match frames with
      | [] => []
      | _ :: rest => l0Current :: installed entries remaining (l0Current + 1) rest
    else installed entries remaining (l0Current + 1) frames

structure SameTables (p q : Progress) : Prop where
  entries : q.walker.entries = p.walker.entries
  pageTables : q.walker.pageTables = p.walker.pageTables
  kernelEntries : q.walker.kernelEntries = p.walker.kernelEntries
  l0WasModified : q.l0WasModified = p.l0WasModified

theorem SameTables.trans {p q r : Progress} (h : SameTables p q) (h' : SameTables q r) :
    SameTables p r :=
  ⟨h'.entries.trans h.entries, h'.pageTables.trans h.pageTables,
    h'.kernelEntries.trans h.kernelEntries, h'.l0WasModified.trans h.l0WasModified⟩

theorem mapEntries_sameTables (archFlags remaining l1Current : Nat) (p : Progress) :
    SameTables p (mapEntries archFlags remaining l1Current p) := by
  induction remaining generalizing l1Current p with
  | zero => exact ⟨rfl, rfl, rfl, rfl⟩
  | succ remaining ih =>
    have hrest := ih (l1Current + 1)
      { p with
        walker := p.walker.setLevel1Accessor l1Current (p.paddr ||| archFlags)
        paddr := (p.paddr + pagingBaseSize) % wordModulus
        ret := p.ret + 1 }
    exact ⟨hrest.entries, hrest.pageTables, hrest.kernelEntries, hrest.l0WasModified⟩

theorem showTable_old {p : Progress} {l0Current : Nat} (h : p.walker.entries l0Current ≠ 0) :
    ∃ q, showTable p l0Current = some q ∧ SameTables p q := by
  unfold showTable
  rw [if_neg h]
  exact ⟨_, rfl, rfl, rfl, rfl, rfl⟩

theorem showTable_made {p : Progress} {l0Current frame : Nat} {rest : List Nat}
    (h : p.walker.entries l0Current = 0) (hframes : p.walker.pageTables = frame :: rest) :
    ∃ q, showTable p l0Current = some q ∧
      q.walker.entries = update p.walker.entries l0Current (newEntry frame) ∧
      q.walker.pageTables = rest ∧ q.walker.kernelEntries = p.walker.kernelEntries ∧
      q.l0WasModified = true := by
  unfold showTable
  rw [if_pos h, hframes]
  refine ⟨_, rfl, ?_⟩
  rw [clearTable_eq]
  exact ⟨rfl, rfl, rfl, rfl⟩

theorem showTable_empty {p : Progress} {l0Current : Nat} (h : p.walker.entries l0Current = 0)
    (hframes : p.walker.pageTables = []) : showTable p l0Current = none := by
  unfold showTable
  rw [if_pos h, hframes]

theorem installed_congr {entries entries' : Nat → Nat} (remaining l0Current : Nat)
    (frames : List Nat) (h : ∀ i, l0Current ≤ i → entries i = entries' i) :
    installed entries remaining l0Current frames =
      installed entries' remaining l0Current frames := by
  induction remaining generalizing l0Current frames with
  | zero => rfl
  | succ remaining ih =>
    have hrest : ∀ frames, installed entries remaining (l0Current + 1) frames =
        installed entries' remaining (l0Current + 1) frames :=
      fun frames => ih (l0Current + 1) frames fun i hi => h i (by omega)
    unfold installed
    rw [h l0Current (le_refl _)]
    simp only [hrest]

theorem mem_installed_bounds {entries : Nat → Nat} {remaining l0Current i : Nat}
    {frames : List Nat} (h : i ∈ installed entries remaining l0Current frames) :
    l0Current ≤ i ∧ i < l0Current + remaining := by
  induction remaining generalizing l0Current frames with
  | zero => cases h
  | succ remaining ih =>
    have hlater : ∀ frames, i ∈ installed entries remaining (l0Current + 1) frames →
        l0Current ≤ i ∧ i < l0Current + (remaining + 1) := by
      intro frames hmem
      have hbounds := ih hmem
      omega
    unfold installed at h
    split at h
    · split at h
      · cases h
      · rcases mem_cons.1 h with rfl | h
        · omega
        · exact hlater _ h
    · exact hlater _ h

structure Installs (p q : Progress) (indexes : List Nat) : Prop where
  made : ∀ i ∈ indexes, p.walker.entries i = 0 ∧
    ∃ frame ∈ p.walker.pageTables, q.walker.entries i = newEntry frame
  kept : ∀ i, i ∉ indexes → q.walker.entries i = p.walker.entries i
  kernelEntries : q.walker.kernelEntries = p.walker.kernelEntries
  l0WasModified : q.l0WasModified = true ↔ p.l0WasModified = true ∨ indexes ≠ []

theorem mapTables_succ {range : LevelRanges} {archFlags remaining l0Current : Nat}
    {p q : Progress} (h : showTable p l0Current = some q) :
    ∃ r, mapTables range archFlags (remaining + 1) l0Current p =
        mapTables range archFlags remaining (l0Current + 1) r ∧ SameTables q r := by
  rw [mapTables, h]
  exact ⟨_, rfl, mapEntries_sameTables _ _ _ q⟩

theorem mapTables_installs (range : LevelRanges) (archFlags remaining l0Current : Nat)
    (p : Progress) : Installs p (mapTables range archFlags remaining l0Current p)
      (installed p.walker.entries remaining l0Current p.walker.pageTables) := by
  induction remaining generalizing l0Current p with
  | zero => exact ⟨by simp [installed], fun _ _ => rfl, rfl, by simp [mapTables, installed]⟩
  | succ remaining ih =>
    unfold installed
    rcases eq_or_ne (p.walker.entries l0Current) 0 with hzero | hne
    · rw [if_pos hzero]
      cases hframes : p.walker.pageTables with
      | nil =>
        rw [mapTables, showTable_empty hzero hframes]
        exact ⟨by simp, fun _ _ => rfl, rfl, by simp⟩
      | cons frame rest =>
        obtain ⟨q, hshow, hentries, hrest, hkernel, hmodified⟩ :=
          showTable_made hzero hframes
        obtain ⟨r, heq, hsame⟩ := @mapTables_succ range archFlags remaining _ _ _ hshow
        have hind := ih (l0Current + 1) r
        have hcongr := @installed_congr r.walker.entries p.walker.entries remaining
          (l0Current + 1) rest (by
            intro i hi
            rw [hsame.entries, hentries]
            exact update_of_ne (by omega) _ _)
        rw [← heq, hsame.pageTables, hrest, hcongr] at hind
        refine ⟨?_, ?_, ?_, ?_⟩
        · intro i hmem
          rcases mem_cons.1 hmem with rfl | hmem
          · refine ⟨hzero, frame, by rw [hframes]; exact mem_cons_self, ?_⟩
            have hnot : i ∉ installed p.walker.entries remaining (i + 1) rest :=
              fun h => absurd (mem_installed_bounds h).1 (by omega)
            rw [hind.kept i hnot, hsame.entries, hentries, update_self]
          obtain ⟨hold, frame', hframe', hnew⟩ := hind.made i hmem
          have hne : i ≠ l0Current := by
            have hbounds := mem_installed_bounds hmem
            omega
          rw [hsame.entries, hentries, update_of_ne hne] at hold
          rw [hsame.pageTables, hrest] at hframe'
          refine ⟨hold, frame', ?_, hnew⟩
          rw [hframes]
          exact mem_cons_of_mem frame hframe'
        · intro i hnot
          rw [mem_cons, not_or] at hnot
          rw [hind.kept i hnot.2, hsame.entries, hentries, update_of_ne hnot.1]
        · rw [hind.kernelEntries, hsame.kernelEntries, hkernel]
        · rw [hind.l0WasModified, hsame.l0WasModified, hmodified]
          simp
    · rw [if_neg hne]
      obtain ⟨q, hshow, hsame⟩ := showTable_old hne
      obtain ⟨r, heq, hsame'⟩ := @mapTables_succ range archFlags remaining _ _ _ hshow
      have hboth := hsame.trans hsame'
      have hind := ih (l0Current + 1) r
      rw [← heq, hboth.entries, hboth.pageTables] at hind
      refine ⟨?_, ?_, ?_, ?_⟩
      · intro i hmem
        have hmade := hind.made i hmem
        rwa [hboth.entries, hboth.pageTables] at hmade
      · intro i hnot
        rw [hind.kept i hnot, hboth.entries]
      · rw [hind.kernelEntries, hboth.kernelEntries]
      · rw [hind.l0WasModified, hboth.l0WasModified]

theorem exists_installed_iff (entries : Nat → Nat) (bound remaining l0Current : Nat)
    (frames : List Nat) :
    (∃ i ∈ installed entries remaining l0Current frames, bound ≤ i) ↔
      (∃ i, bound ≤ i ∧ l0Current ≤ i ∧ i < l0Current + remaining ∧ entries i = 0) ∧
        (List.range' l0Current (bound - l0Current)).countP (fun i => entries i = 0) <
          frames.length := by
  induction remaining generalizing l0Current frames with
  | zero =>
    refine iff_of_false (by simp [installed]) ?_
    rintro ⟨⟨i, -, hle, hlt, -⟩, -⟩
    omega
  | succ remaining ih =>
    -- the entries from the next one on, when this one does not count
    have hlater : (bound ≤ l0Current → entries l0Current ≠ 0) →
        ((∃ i, bound ≤ i ∧ l0Current ≤ i ∧ i < l0Current + (remaining + 1) ∧ entries i = 0) ↔
          ∃ i, bound ≤ i ∧ l0Current + 1 ≤ i ∧ i < l0Current + 1 + remaining ∧ entries i = 0) := by
      intro hnot
      constructor
      · rintro ⟨i, hbound, hle, hlt, hzero⟩
        have hne : i ≠ l0Current := by
          rintro rfl
          exact hnot hbound hzero
        exact ⟨i, hbound, by omega, by omega, hzero⟩
      · rintro ⟨i, hbound, hle, hlt, hzero⟩
        exact ⟨i, hbound, by omega, by omega, hzero⟩
    unfold installed
    rcases lt_or_ge l0Current bound with hbelow | hreached
    · have hcount : (range' l0Current (bound - l0Current)).countP
          (fun i => entries i = 0) =
            (range' (l0Current + 1) (bound - (l0Current + 1))).countP
              (fun i => entries i = 0) + if entries l0Current = 0 then 1 else 0 := by
        rw [show bound - l0Current = bound - (l0Current + 1) + 1 by omega, range'_succ,
          countP_cons]
        simp
      rw [hcount, hlater fun h => absurd h (not_le.2 hbelow)]
      rcases eq_or_ne (entries l0Current) 0 with hzero | hne
      · rw [if_pos hzero, if_pos hzero]
        cases frames with
        | nil => simp
        | cons frame rest =>
          rw [length_cons, add_lt_add_iff_right, ← ih]
          simp only [mem_cons, or_and_right, exists_or, exists_eq_left]
          exact or_iff_right (not_le.2 hbelow)
      · rw [if_neg hne, if_neg hne]
        exact ih (l0Current + 1) frames
    · have hnone : bound - l0Current = 0 := by omega
      have hnone' : bound - (l0Current + 1) = 0 := by omega
      rw [hnone, range'_zero, countP_nil]
      rcases eq_or_ne (entries l0Current) 0 with hzero | hne
      · rw [if_pos hzero]
        cases frames with
        | nil => simp
        | cons frame rest =>
          refine iff_of_true ⟨l0Current, mem_cons_self, hreached⟩ ⟨?_, by simp⟩
          exact ⟨l0Current, hreached, le_refl _, by omega, hzero⟩
      · rw [if_neg hne, ih, hnone', range'_zero, countP_nil, hlater fun _ => hne]

section

variable {s : Setting} {vaddr paddr nPages flags : Nat}

def newTables (s : Setting) (vaddr nPages : Nat) : List Nat :=
  let range := getLevelRanges (vaddr &&& pagingBaseMaskHigh) nPages
  installed s.walker.entries (range.l0End + 1 - range.l0Start) range.l0Start s.walker.pageTables

theorem needsKernelTable_iff (s : Setting) (vaddr nPages : Nat) :
    NeedsKernelTable s vaddr nPages ↔ s.target ≠ s.kernel ∧ nPages ≠ 0 ∧
      ∃ i ∈ newTables s vaddr nPages, kernelIndex ≤ i := by
  unfold NeedsKernelTable newTables
  rw [exists_installed_iff]
  refine and_congr_right fun _ => and_congr_right fun _ => and_congr_left fun _ => ?_
  constructor
  · rintro ⟨i, hkernel, ⟨hle, hend⟩, hzero⟩
    exact ⟨i, hkernel, hle, by omega, hzero⟩
  · rintro ⟨i, hkernel, hle, hlt, hzero⟩
    exact ⟨i, hkernel, ⟨hle, by omega⟩, hzero⟩

def progressAtOut (s : Setting) (vaddr paddr nPages flags : Nat) : Progress :=
  let range := getLevelRanges (vaddr &&& pagingBaseMaskHigh) nPages
  mapTables range (encodeFlags flags) (range.l0End + 1 - range.l0Start) range.l0Start
    { walker := s.walker, paddr := paddr, ret := 0, l0WasModified := false }

theorem mapIncLocked_of_pos (hpos : nPages ≠ 0) (locks : Locks) :
    mapIncLocked s locks vaddr paddr nPages flags = ((progressAtOut s vaddr paddr nPages flags).ret,
        propagate (getLevelRanges (vaddr &&& pagingBaseMaskHigh) nPages)
          (progressAtOut s vaddr paddr nPages flags),
        release (release (propagateLocks s (getLevelRanges (vaddr &&& pagingBaseMaskHigh) nPages)
          (progressAtOut s vaddr paddr nPages flags) (acquire (acquire locks s.target) s.current))
          s.target) s.current) := by
  unfold mapIncLocked
  rw [if_neg hpos]
  rfl

theorem progressAtOut_installs (s : Setting) (vaddr paddr nPages flags : Nat) :
    Installs { walker := s.walker, paddr := paddr, ret := 0, l0WasModified := false }
      (progressAtOut s vaddr paddr nPages flags) (newTables s vaddr nPages) :=
  mapTables_installs _ _ _ _ _

theorem propagate_entries (range : LevelRanges) (p : Progress) :
    (propagate range p).entries = p.walker.entries := by
  obtain ⟨kernelEntries, heq⟩ := propagate_eq range p
  rw [heq]

theorem propagate_of_below {range : LevelRanges} {p : Progress}
    (h : range.l0Start < kernelIndex) : propagate range p = p.walker := by
  unfold propagate
  cases p.walker.kernelEntries with
  | none => rfl
  | some kernelEntries => exact if_neg fun hstart => absurd hstart.1 (not_le.2 h)

theorem propagate_of_none {range : LevelRanges} {p : Progress}
    (h : p.walker.kernelEntries = none) : propagate range p = p.walker := by
  unfold propagate
  rw [h]

theorem propagates_iff (s : Setting) (vaddr paddr nPages flags : Nat) :
    propagates s (getLevelRanges (vaddr &&& pagingBaseMaskHigh) nPages)
        (progressAtOut s vaddr paddr nPages flags) = true ↔
      kernelIndex ≤ (getLevelRanges (vaddr &&& pagingBaseMaskHigh) nPages).l0Start ∧
        newTables s vaddr nPages ≠ [] ∧ s.target ≠ s.kernel := by
  unfold propagates
  rw [Bool.and_eq_true, Bool.and_eq_true, decide_eq_true_iff, decide_eq_true_iff,
    (progressAtOut_installs s vaddr paddr nPages flags).l0WasModified]
  simp [and_assoc]

/-- `mapInc` does right exactly when it does not need a table in the kernel's part for another
address space. -/
theorem mapIncLocked_right_iff (s : Setting) (locks : Locks) (vaddr paddr nPages flags : Nat) :
    Right s locks vaddr nPages (mapIncLocked s locks vaddr paddr nPages flags).2.1
        (mapIncLocked s locks vaddr paddr nPages flags).2.2 ↔
      ¬ NeedsKernelTable s vaddr nPages := by
  rcases eq_or_ne nPages 0 with rfl | hpos
  · refine iff_of_true ⟨rfl, ?_⟩ fun h => h.2.1 rfl
    rintro kernelEntries - ⟨i, -, hzero, hne⟩
    exact absurd hzero hne
  rw [needsKernelTable_iff, mapIncLocked_of_pos hpos]
  have hinstalls := progressAtOut_installs s vaddr paddr nPages flags
  have hpropagates := propagates_iff s vaddr paddr nPages flags
  generalize progressAtOut s vaddr paddr nPages flags = p at *
  constructor
  · rintro ⟨hlocks, hpropagated⟩ ⟨hother, -, i, hmem, hkernel⟩
    rcases lt_or_ge (getLevelRanges (vaddr &&& pagingBaseMaskHigh) nPages).l0Start kernelIndex
      with hbelow | habove
    · -- the range starts below the kernel's part, and its table is not passed on
      have hsame : propagate (getLevelRanges (vaddr &&& pagingBaseMaskHigh) nPages) p = p.walker :=
        propagate_of_below hbelow
      rw [hsame] at hpropagated
      obtain ⟨hzero, frame, hframe, hnew⟩ := hinstalls.made i hmem
      have hbounds := mem_installed_bounds hmem
      cases hkernelEntries : s.walker.kernelEntries with
      | none => exact hother (s.kernel_iff.1 hkernelEntries)
      | some kernelEntries =>
        have hpassed := hpropagated kernelEntries (hinstalls.kernelEntries.trans hkernelEntries)
          ⟨i, hkernel, hzero, by rw [hnew]; exact newEntry_ne_zero frame⟩ i
          ⟨hbounds.1, by omega⟩
        exact s.unused kernelEntries hkernelEntries frame hframe i (hpassed.trans hnew)
    · have hyes := hpropagates.2 ⟨habove, ne_nil_of_mem hmem, hother⟩
      rw [propagateLocks, if_pos hyes, release_both_kernel] at hlocks
      exact acquire_twice_ne locks s.kernel hlocks
  · intro hnot
    refine ⟨?_, ?_⟩
    · have hno :
          ¬ propagates s (getLevelRanges (vaddr &&& pagingBaseMaskHigh) nPages) p = true := by
        intro hyes
        obtain ⟨habove, htables, hother⟩ := hpropagates.1 hyes
        obtain ⟨i, hmem⟩ := exists_mem_of_ne_nil _ htables
        exact hnot ⟨hother, hpos, i, hmem, habove.trans (mem_installed_bounds hmem).1⟩
      rw [propagateLocks, if_neg hno, release_both]
    · rintro kernelEntries hkernelEntries ⟨i, hkernel, hzero, hne⟩
      rw [propagate_entries] at hne
      have hother : s.target ≠ s.kernel := by
        intro hsame
        have hnone : p.walker.kernelEntries = none :=
          hinstalls.kernelEntries.trans (s.kernel_iff.2 hsame)
        rw [propagate_of_none hnone, hnone] at hkernelEntries
        cases hkernelEntries
      have hmem : i ∈ newTables s vaddr nPages := by
        refine Classical.byContradiction fun hout => hne ?_
        rw [hinstalls.kept i hout]
        exact hzero
      exact absurd ⟨hother, hpos, i, hmem, hkernel⟩ hnot

/-- The tables of a process when neither its level 0 table nor the kernel's has a table yet,
with one frame for one. -/
def emptyWalker : Walker :=
  ⟨fun _ => 0, fun _ _ => 0, 3, [0x5000], some fun _ => 0⟩

theorem emptyWalker_kernel_iff : emptyWalker.kernelEntries = none ↔ 1 = 0 :=
  iff_of_false (Option.some_ne_none _) one_ne_zero

theorem emptyWalker_unused : ∀ kernelEntries ∈ emptyWalker.kernelEntries,
    ∀ frame ∈ emptyWalker.pageTables, ∀ i, kernelEntries i ≠ newEntry frame := by
  rintro kernelEntries ⟨⟩ frame - i h
  exact newEntry_ne_zero frame h.symm

def newProcess : Setting where
  walker := emptyWalker
  target := 1
  current := 1
  kernel := 0
  kernel_iff := emptyWalker_kernel_iff
  unused := emptyWalker_unused

theorem newProcess_not_right :
    ¬ Right newProcess (fun _ => 0) 0xC0000000 1
      (mapIncLocked newProcess (fun _ => 0) 0xC0000000 0x100000 1 pageAttribPresent).2.1
      (mapIncLocked newProcess (fun _ => 0) 0xC0000000 0x100000 1 pageAttribPresent).2.2 := by
  intro h
  have hheld : (mapIncLocked newProcess (fun _ => 0) 0xC0000000 0x100000 1
      pageAttribPresent).2.2 0 = 2 := by
    decide +kernel
  rw [h.locks_eq] at hheld
  cases hheld

end

end Zambesii.MapIncLocks
