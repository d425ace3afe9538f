import Zambesii.PmemInit

/-!
`NumaMemoryBank::mapMemUsed`: what is in use is marked in every range of a bank. Which ranges the
request concerns is told from its two ends.
-/

namespace Zambesii.NumaMemoryBank

open BitManipulation KernelTypes List
open NumaMemoryRange
open PmemInit (Bank)

def Within (baseAddr nFrames pfn : Nat) : Prop :=
  baseAddr ≤ pfn * pagingBaseSize ∧
    (pfn + 1) * pagingBaseSize ≤ baseAddr + nFrames * pagingBaseSize

def Beyond (baseAddr nFrames pfn : Nat) : Prop :=
  (pfn + 1) * pagingBaseSize ≤ baseAddr ∨
    baseAddr + nFrames * pagingBaseSize ≤ pfn * pagingBaseSize

def Available (range : Range) (pfn : Nat) : Prop :=
  range.bmp.testFrame pfn = false ∨ pfn ∈ range.frameCache.map (· / pagingBaseSize)

/-- The frames of the interval are marked and are not in the cache, and nothing changes for the
others. -/
structure MapsUsed (baseAddr nFrames : Nat) (before after : Range) : Prop where
  baseAddr_eq : after.bmp.baseAddr = before.bmp.baseAddr
  endAddr_eq : after.bmp.endAddr = before.bmp.endAddr
  used : ∀ pfn, before.bmp.HasFrame pfn → Within baseAddr nFrames pfn →
    after.bmp.testFrame pfn = true ∧ pfn ∉ after.frameCache.map (· / pagingBaseSize)
  kept : ∀ pfn, before.bmp.HasFrame pfn → Beyond baseAddr nFrames pfn →
    (Available after pfn ↔ Available before pfn)

/-- The addresses in the cache are of the range: `NumaMemoryBank::releaseFrames` gives it no others. -/
def Cached (range : Range) : Prop :=
  ∀ frameAddr ∈ range.frameCache, range.bmp.HasFrame (frameAddr / pagingBaseSize)

/-- A range that is told to be concerned accepts what its cache holds beyond the interval, where that
is not free in the bitmap; one that is not has nothing to mark. -/
def Reaches (baseAddr nFrames : Nat) (range : Range) : Prop :=
  (identifies range.bmp baseAddr nFrames = true →
    ∀ pfn ∈ range.frameCache.map (· / pagingBaseSize), Beyond baseAddr nFrames pfn →
      range.bmp.testFrame pfn = true → ∃ frameAddr ∈ range.frameCache,
        frameAddr / pagingBaseSize = pfn ∧ range.bmp.Accepts frameAddr 1) ∧
  (identifies range.bmp baseAddr nFrames = false →
    ∀ pfn, range.bmp.HasFrame pfn → Within baseAddr nFrames pfn →
      range.bmp.testFrame pfn = true ∧ pfn ∉ range.frameCache.map (· / pagingBaseSize))

def BankMapsUsed (bank : Bank) (baseAddr nFrames : Nat) : Prop :=
  ∃ after, bank.mapMemUsed baseAddr nFrames = some after ∧ after.id = bank.id ∧
    List.Forall₂ (MapsUsed baseAddr nFrames) bank.ranges after.ranges

section

variable {bmp : MemoryBmp}

theorem flush_spec {frameCache : List Nat}
    (h : ∀ frameAddr ∈ frameCache, bmp.HasFrame (frameAddr / pagingBaseSize)) :
    ∃ bmp', flush bmp frameCache = some bmp' ∧ bmp'.baseAddr = bmp.baseAddr ∧
      bmp'.endAddr = bmp.endAddr ∧ ∀ pfn, bmp.HasFrame pfn → (bmp'.testFrame pfn = true ↔
        bmp.testFrame pfn = true ∧ ∀ frameAddr ∈ frameCache, frameAddr / pagingBaseSize = pfn →
          ¬bmp.Accepts frameAddr 1) := by
  induction frameCache generalizing bmp with
  | nil =>
    refine ⟨bmp, rfl, rfl, rfl, ?_⟩
    intro pfn _
    exact (and_iff_left fun _ hmem => absurd hmem not_mem_nil).symm
  | cons frameAddr rest ih =>
    obtain ⟨⟨hfirst, hlast⟩, hrest⟩ := forall_mem_cons.mp h
    rw [flush]
    rcases em (bmp.Accepts frameAddr 1) with haccepts | hrefuses
    · have hend := bmp.endPfn_lt
      have hmod : (frameAddr / pagingBaseSize + 1) % wordModulus = frameAddr / pagingBaseSize + 1 :=
        Nat.mod_eq_of_lt (by simp only [wordModulus]; omega)
      obtain ⟨index, hrelease⟩ : ∃ index, bmp.releaseFrames frameAddr 1 = some (true, { bmp with
          bits := unsetBits bmp.bits (frameAddr / pagingBaseSize - bmp.basePfn) 1
          lastAllocIndex := index }) := by
        refine ⟨(frameAddr / pagingBaseSize - bmp.basePfn) / MemoryBmp.bitsPerIndex, ?_⟩
        unfold MemoryBmp.releaseFrames
        dsimp only
        rw [if_neg Nat.one_ne_zero, if_pos haccepts, hmod, if_neg (by omega), Nat.add_sub_cancel_left]
      rw [hrelease]
      obtain ⟨bmp', hflush, hbase, hend, htest⟩ := @ih { bmp with
        bits := unsetBits bmp.bits (frameAddr / pagingBaseSize - bmp.basePfn) 1
        lastAllocIndex := index } hrest
      refine ⟨bmp', hflush, hbase, hend, ?_⟩
      intro pfn hpfn
      rw [htest pfn hpfn, testFrame_unsetBits _ _ _ hpfn.1, Nat.add_sub_cancel' hfirst, and_assoc,
        forall_mem_cons]
      refine and_congr_right fun _ => and_congr ?_ Iff.rfl
      constructor
      · intro hother heq
        exact absurd ⟨heq.le, by omega⟩ hother
      · rintro hnot ⟨hle, hlt⟩
        exact hnot (by omega) haccepts
    · have hrelease : bmp.releaseFrames frameAddr 1 = some (false, bmp) := by
        rw [MemoryBmp.releaseFrames, if_neg Nat.one_ne_zero, if_neg hrefuses]
      rw [hrelease]
      obtain ⟨bmp', hflush, hbase, hend, htest⟩ := ih hrest
      refine ⟨bmp', hflush, hbase, hend, ?_⟩
      intro pfn hpfn
      rw [htest pfn hpfn, forall_mem_cons, and_iff_right fun _ => hrefuses]

end

section

variable {range : Range} {baseAddr nFrames : Nat}

theorem mem_mappedRange_iff {bmp : MemoryBmp} (hfits : baseAddr + nFrames * pagingBaseSize ≤
    wordModulus) {pfn : Nat} (hpfn : bmp.HasFrame pfn) :
    (bmp.mappedRange baseAddr nFrames).1 ≤ pfn ∧ pfn < (bmp.mappedRange baseAddr nFrames).2 ↔
      baseAddr / pagingBaseSize ≤ pfn ∧ pfn < baseAddr / pagingBaseSize + nFrames := by
  have hmod : (baseAddr / pagingBaseSize + nFrames) % wordModulus =
      baseAddr / pagingBaseSize + nFrames := by
    rw [wordModulus, pagingBaseSize] at hfits
    rw [wordModulus, pagingBaseSize]
    omega
  obtain ⟨hfirst, hlast⟩ := hpfn
  rw [MemoryBmp.mappedRange, hmod]
  dsimp only
  refine and_congr ?_ ?_
  · split
    · exact Iff.rfl
    · rename_i hbelow
      have hle : baseAddr / pagingBaseSize ≤ bmp.basePfn :=
        Nat.div_le_div_right (Nat.le_of_not_le hbelow)
      omega
  · split <;> omega

theorem mapMemUsed_of_identified (hcached : Cached range)
    (hfits : baseAddr + nFrames * pagingBaseSize ≤ wordModulus)
    (hid : identifies range.bmp baseAddr nFrames = true) :
    ∃ answer after, mapMemUsed range baseAddr nFrames = some (answer, after) ∧
      (MapsUsed baseAddr nFrames range after ↔
        ∀ pfn ∈ range.frameCache.map (· / pagingBaseSize), Beyond baseAddr nFrames pfn →
          range.bmp.testFrame pfn = true → ∃ frameAddr ∈ range.frameCache,
            frameAddr / pagingBaseSize = pfn ∧ range.bmp.Accepts frameAddr 1) := by
  obtain ⟨bmp', hflush, hbase, hend, htest⟩ := flush_spec hcached
  refine ⟨.status .success, _, by simp only [mapMemUsed, hid, hflush]; rfl, ?_⟩
  -- the bits of the frames after the flush and the marking
  have hmarked : ∀ pfn, range.bmp.HasFrame pfn →
      ((bmp'.mapMemUsed baseAddr nFrames).testFrame pfn = true ↔ bmp'.testFrame pfn = true ∨
        baseAddr / pagingBaseSize ≤ pfn ∧ pfn < baseAddr / pagingBaseSize + nFrames) := by
    intro pfn hpfn
    have hpfn' : bmp'.HasFrame pfn := (hasFrame_congr hbase hend).mpr hpfn
    have hbit : (bmp'.mapMemUsed baseAddr nFrames).testFrame pfn = true ↔ _ :=
      testFrame_setBits _ _ bmp'.lastAllocIndex hpfn'.1
    rw [mapped_iff hpfn'.1, mem_mappedRange_iff hfits hpfn'] at hbit
    exact hbit
  have hkept : ∀ pfn, range.bmp.HasFrame pfn → Beyond baseAddr nFrames pfn →
      ((bmp'.mapMemUsed baseAddr nFrames).testFrame pfn = false ∨
          pfn ∈ ([] : List Nat).map (· / pagingBaseSize) ↔ range.bmp.testFrame pfn = false ∨
        ∃ frameAddr ∈ range.frameCache, frameAddr / pagingBaseSize = pfn ∧
          range.bmp.Accepts frameAddr 1) := by
    intro pfn hpfn hbeyond
    have hout : ¬(baseAddr / pagingBaseSize ≤ pfn ∧
        pfn < baseAddr / pagingBaseSize + nFrames) := by
      rw [Beyond, pagingBaseSize] at hbeyond
      rw [pagingBaseSize]
      omega
    rw [map_nil, or_iff_left not_mem_nil, ← Bool.not_eq_true, hmarked pfn hpfn,
      or_iff_left hout, htest pfn hpfn, not_and_or, Bool.not_eq_true]
    refine or_congr_right ?_
    push Not
    rfl
  constructor
  · intro hmaps pfn hmem hbeyond hset
    obtain ⟨frameAddr, hframeAddr, rfl⟩ := mem_map.mp hmem
    have hpfn := hcached frameAddr hframeAddr
    rcases (hkept _ hpfn hbeyond).mp ((hmaps.kept _ hpfn hbeyond).mpr (.inr hmem)) with
      hfree | haccepted
    · rw [hset] at hfree
      cases hfree
    · exact haccepted
  · intro haccepts
    refine ⟨hbase, hend, ?_, ?_⟩
    · rintro pfn hpfn ⟨hfirst, hlast⟩
      refine ⟨(hmarked pfn hpfn).mpr (.inr ?_), not_mem_nil⟩
      rw [pagingBaseSize] at hfirst hlast ⊢
      omega
    · intro pfn hpfn hbeyond
      refine (hkept pfn hpfn hbeyond).trans ?_
      constructor
      · refine Or.imp_right ?_
        rintro ⟨frameAddr, hframeAddr, heq, -⟩
        exact mem_map.mpr ⟨frameAddr, hframeAddr, heq⟩
      · rintro (hfree | hmem)
        · exact .inl hfree
        · rcases Bool.eq_false_or_eq_true (range.bmp.testFrame pfn) with hset | hfree
          · exact .inr (haccepts pfn hmem hbeyond hset)
          · exact .inl hfree

theorem exists_mapMemUsed (hcached : Cached range)
    (hfits : baseAddr + nFrames * pagingBaseSize ≤ wordModulus) :
    ∃ answer after, mapMemUsed range baseAddr nFrames = some (answer, after) ∧
      (MapsUsed baseAddr nFrames range after ↔ Reaches baseAddr nFrames range) := by
  cases hid : identifies range.bmp baseAddr nFrames with
  | true =>
    obtain ⟨answer, after, heq, hiff⟩ := mapMemUsed_of_identified hcached hfits hid
    refine ⟨answer, after, heq, hiff.trans ?_⟩
    constructor
    · intro haccepts
      refine ⟨fun _ => haccepts, fun hnot => ?_⟩
      rw [hid] at hnot
      cases hnot
    · intro hreaches
      exact hreaches.1 hid
  | false =>
    refine ⟨.status .invalidArgVal, range, by simp [mapMemUsed, hid], ?_⟩
    constructor
    · intro hmaps
      refine ⟨fun hnot => ?_, fun _ => hmaps.used⟩
      rw [hid] at hnot
      cases hnot
    · intro hreaches
      exact ⟨rfl, rfl, hreaches.2 hid, fun _ _ _ => Iff.rfl⟩

theorem mapM_mapsUsed_iff {ranges : List Range} (hcached : ∀ range ∈ ranges, Cached range)
    (hfits : baseAddr + nFrames * pagingBaseSize ≤ wordModulus) :
    (∃ after, (ranges.mapM fun range => (mapMemUsed range baseAddr nFrames).map Prod.snd) =
        some after ∧ List.Forall₂ (MapsUsed baseAddr nFrames) ranges after) ↔
      ∀ range ∈ ranges, Reaches baseAddr nFrames range := by
  induction ranges with
  | nil => exact iff_of_true ⟨[], rfl, .nil⟩ fun range hrange => absurd hrange not_mem_nil
  | cons range ranges ih =>
    have hih := ih fun other hother => hcached other (mem_cons_of_mem _ hother)
    obtain ⟨answer, next, heq, hiff⟩ :=
      exists_mapMemUsed (hcached range mem_cons_self) hfits
    rw [forall_mem_cons, ← hih, ← hiff, mapM_cons, heq, Option.map_some]
    constructor
    · rintro ⟨after, hmap, hall⟩
      rw [some_bind] at hmap
      obtain ⟨rest, hrest, hmap⟩ := Option.bind_eq_some_iff.mp hmap
      cases hmap
      rw [forall₂_cons] at hall
      exact ⟨hall.1, rest, hrest, hall.2⟩
    · rintro ⟨hnext, rest, hrest, hall⟩
      refine ⟨next :: rest, ?_, .cons hnext hall⟩
      rw [hrest]
      rfl

/-- The bank is marked exactly when each of its ranges is reached. -/
theorem bankMapsUsed_iff (bank : Bank) (baseAddr nFrames : Nat)
    (hcached : ∀ range ∈ bank.ranges, Cached range)
    (hfits : baseAddr + nFrames * pagingBaseSize ≤ wordModulus) :
    BankMapsUsed bank baseAddr nFrames ↔ ∀ range ∈ bank.ranges, Reaches baseAddr nFrames range := by
  rw [← mapM_mapsUsed_iff hcached hfits, BankMapsUsed, Bank.mapMemUsed]
  constructor
  · rintro ⟨after, hmap, -, hall⟩
    obtain ⟨ranges, hranges, hmap⟩ := Option.bind_eq_some_iff.mp hmap
    cases hmap
    exact ⟨ranges, hranges, hall⟩
  · rintro ⟨ranges, hranges, hall⟩
    refine ⟨{ bank with ranges := ranges }, ?_, rfl, hall⟩
    rw [hranges]
    rfl

end

theorem eightFrameBank_le : 16 * 4096 ≤ 24 * 4096 - 1 := by decide

theorem eightFrameBank_lt : 24 * 4096 - 1 < wordModulus := by decide

def eightFrameBank : Bank where
  id := 0
  ranges := [initialRange
    (MemoryBmp.initialBmp (16 * 4096) (24 * 4096 - 1) eightFrameBank_le eightFrameBank_lt)]

theorem cached_eightFrameBank : ∀ range ∈ eightFrameBank.ranges, Cached range := by
  intro range hrange
  obtain rfl := mem_singleton.mp hrange
  intro frameAddr hframeAddr
  cases hframeAddr

theorem bankMapsUsed_iff_firstFrames : BankMapsUsed eightFrameBank (16 * 4096) 2 ↔
      ∀ range ∈ eightFrameBank.ranges, Reaches (16 * 4096) 2 range :=
  bankMapsUsed_iff eightFrameBank (16 * 4096) 2 cached_eightFrameBank (by decide)

theorem covered_not_marked : ¬BankMapsUsed eightFrameBank 0 32 := by
  rintro ⟨after, hmap, -, hall⟩
  cases hmap
  cases hall with
  | cons hmaps hrest =>
    have hused := hmaps.used 16 ⟨by decide, by decide⟩ ⟨by decide, by decide⟩
    exact absurd hused.1 (by decide)

end Zambesii.NumaMemoryBank
