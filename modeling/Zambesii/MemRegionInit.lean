import Zambesii.MemoryBmpFrames
import Zambesii.PmemInit

/-!
`MemoryTrib::memRegionInit`: every region of the chipset's region map is given a bitmap, in which
the region's reserved ranges and then what the memory map has as not usable are marked. The loop
over the reserved ranges counts with the index of the loop over the regions.
-/

namespace Zambesii.MemRegionInit

open Function List Nat
open BitManipulation KernelTypes
open MemoryBmpFrames (ByteRange)
open PmemInit (Extent MemoryMapEntry Touches bytesToPages)

/-- `sChipsetRegionMapEntry`, and whether there is memory for its bitmap's object and array. -/
structure RegionMapEntry where
  range : ByteRange
  reservedMap : Option (List Extent)
  objectMemory : Bool
  arrayMemory : Bool

/-- `MemoryRegion`; `info` is the entry by its place in the map. -/
structure MemoryRegion where
  memBmp : Option MemoryBmp
  info : Option Nat

/-- The array `memRegions`. What is behind its end is never a bitmap. -/
abbrev MemRegions := Nat → MemoryRegion

/-- The array after the constructor of `MemoryTrib`. -/
def noRegions : MemRegions := fun _ => ⟨none, none⟩

/-- `nReservedEntries`, of a region that has reserved ranges. -/
def RegionMapEntry.nReserved (entry : RegionMapEntry) : Nat :=
  (entry.reservedMap.getD []).length

/-- `mapMemUsed` of an extent, in a region's bitmap. A null pointer is a fault. -/
def markExtent (extent : Extent) (region : MemoryRegion) : Option MemoryRegion :=
  region.memBmp.map fun bmp =>
    { region with memBmp := some (bmp.mapMemUsed extent.baseAddr (bytesToPages extent.size)) }

/-- The loop over the reserved ranges: `j` stays at the first of them. -/
def markReserved (first : Extent) : (remaining i : Nat) → MemRegions → Option (Nat × MemRegions)
  | 0, i, regions => some (i, regions)
  | remaining + 1, i, regions =>
    match markExtent first (regions i) with
    | none => none
    | some region => markReserved first remaining (i + 1) (update regions i region)

def markEntry (entry : RegionMapEntry) (i : Nat) (regions : MemRegions) :
    Option (Nat × MemRegions) :=
  match entry.reservedMap with
  | none => some (i, regions)
  | some [] => some (i, regions)
  | some (first :: rest) => markReserved first ((first :: rest).length - i) i regions

def initRegions (map : List RegionMapEntry) :
    (fuel i : Nat) → MemRegions → Option (Kerror × MemRegions)
  | 0, _, regions => some (.success, regions)
  | fuel + 1, i, regions =>
    match map[i]? with
    | none => some (.success, regions)
    | some entry =>
      if entry.objectMemory = false then
        some (.memoryNomem, update regions i ⟨none, (regions i).info⟩)
      else
        let regions := update regions i ⟨some entry.range.newBmp, (regions i).info⟩
        if entry.arrayMemory = false then some (.memoryNomem, regions)
        else
          match markEntry entry i regions with
          | none => none
          | some (i', regions) =>
            if map.length ≤ i' then none
            else initRegions map fuel (i' + 1)
              (update regions i' ⟨(regions i').memBmp, some i⟩)

/-- The loop over the entries of the memory map that are not usable, for one region. -/
def overlayRegion (unusable : List Extent) (region : MemoryRegion) : Option MemoryRegion :=
  unusable.foldlM (fun region extent => markExtent extent region) region

def overlay (unusable : List Extent) : (remaining i : Nat) → MemRegions → Option MemRegions
  | 0, _, regions => some regions
  | remaining + 1, i, regions =>
    match overlayRegion unusable (regions i) with
    | none => none
    | some region => overlay unusable remaining (i + 1) (update regions i region)

def unusable (memMap : List MemoryMapEntry) : List Extent :=
  (memMap.filter fun entry => decide (entry.memType ≠ .usable)).map MemoryMapEntry.toExtent

def memRegionInit (regionMap : Option (List RegionMapEntry))
    (memMap : Option (List MemoryMapEntry)) : Option (Kerror × MemRegions) :=
  match regionMap with
  | none => some (.success, noRegions)
  | some map =>
    match initRegions map map.length 0 noRegions with
    | none => none
    | some (err, regions) =>
      if err ≠ .success then some (err, regions)
      else
        match memMap with
        | none => some (.success, regions)
        | some memMap => (overlay (unusable memMap) map.length 0 regions).map
            fun regions => (.success, regions)

/-- The frame shares a byte with a reserved range of the region or with memory that is not
usable. -/
def Taken (entry : RegionMapEntry) (unusable : List Extent) (pfn : Nat) : Prop :=
  (∃ extent ∈ entry.reservedMap.getD [], Touches extent pfn) ∨
    ∃ extent ∈ unusable, Touches extent pfn

def Complete (map : List RegionMapEntry) (unusable : List Extent) (regions : MemRegions) : Prop :=
  ∀ i entry, map[i]? = some entry → (regions i).info = some i ∧
    ∃ bmp, (regions i).memBmp = some bmp ∧ bmp.baseAddr = entry.range.newBmp.baseAddr ∧
      bmp.endAddr = entry.range.newBmp.endAddr ∧
      ∀ pfn, bmp.HasFrame pfn → Taken entry unusable pfn → bmp.testFrame pfn = true

def Initializes (regionMap : Option (List RegionMapEntry)) (memMap : Option (List MemoryMapEntry)) :
    Prop :=
  ∃ ret regions, memRegionInit regionMap memMap = some (ret, regions) ∧
    (ret = .success → Complete (regionMap.getD []) (unusable (memMap.getD [])) regions)

/-- The loop over the regions comes to one for which there is no memory. A region with one
reserved range more than there are regions before it makes the loop pass over the next one. -/
def OutOfMemory (map : List RegionMapEntry) : (fuel i : Nat) → Prop
  | 0, _ => False
  | fuel + 1, i =>
    match map[i]? with
    | none => False
    | some entry =>
      entry.objectMemory = false ∨ entry.arrayMemory = false ∨
        entry.nReserved ≤ i ∧ OutOfMemory map fuel (i + 1) ∨
        entry.nReserved = i + 1 ∧ OutOfMemory map fuel (i + 2)

def Marks (extent : Extent) (pfn : Nat) : Prop :=
  extent.baseAddr / pagingBaseSize ≤ pfn ∧
    pfn < extent.baseAddr / pagingBaseSize + bytesToPages extent.size

/-- No region has more reserved ranges than there are regions before it, and what is taken in it
is marked at its construction or for the memory map. -/
def Spared (map : List RegionMapEntry) (unusable : List Extent) : Prop :=
  ∀ i entry, map[i]? = some entry → entry.nReserved ≤ i ∧
    ∀ pfn, entry.range.newBmp.HasFrame pfn → Taken entry unusable pfn →
      entry.range.newBmp.testFrame pfn = true ∨ ∃ extent ∈ unusable, Marks extent pfn

section

variable {map : List RegionMapEntry} {entry : RegionMapEntry} {i : Nat}
variable {regions regions' : MemRegions}

def Untouched (i : Nat) (regions : MemRegions) : Prop :=
  ∀ k, i ≤ k → regions k = ⟨none, none⟩

theorem untouched_update {k : Nat} (h : Untouched i regions) (hk : k < i) (region : MemoryRegion) :
    Untouched i (update regions k region) := by
  intro other hother
  rw [update_of_ne (by omega)]
  exact h other hother

theorem markEntry_of_le (h : entry.nReserved ≤ i) :
    markEntry entry i regions = some (i, regions) := by
  rw [RegionMapEntry.nReserved] at h
  rw [markEntry]
  split
  · rfl
  · rfl
  · rename_i first rest heq
    rw [heq, Option.getD_some] at h
    rw [Nat.sub_eq_zero_of_le h]
    rfl

theorem markEntry_of_eq {bmp : MemoryBmp} (h : entry.nReserved = i + 1)
    (hbmp : (regions i).memBmp = some bmp) : ∃ marked, markEntry entry i regions =
      some (i + 1, update regions i ⟨some marked, (regions i).info⟩) := by
  rw [RegionMapEntry.nReserved] at h
  rw [markEntry]
  split
  · rename_i heq
    rw [heq] at h
    cases h
  · rename_i heq
    rw [heq] at h
    cases h
  · rename_i first rest heq
    rw [heq, Option.getD_some] at h
    rw [h, Nat.add_sub_cancel_left, markReserved, markExtent, hbmp]
    exact ⟨_, rfl⟩

theorem markEntry_of_lt {bmp : MemoryBmp} (h : i + 1 < entry.nReserved)
    (hbmp : (regions i).memBmp = some bmp) (hnext : (regions (i + 1)).memBmp = none) :
    markEntry entry i regions = none := by
  rw [RegionMapEntry.nReserved] at h
  rw [markEntry]
  split
  · rename_i heq
    rw [heq] at h
    cases h
  · rename_i heq
    rw [heq] at h
    cases h
  rename_i first rest heq
  rw [heq, Option.getD_some] at h
  obtain ⟨more, hmore⟩ : ∃ more, (first :: rest).length - i = more + 1 + 1 :=
    ⟨(first :: rest).length - i - 2, by omega⟩
  rw [hmore, markReserved, markExtent, hbmp]
  dsimp only [Option.map_some]
  rw [markReserved, markExtent, update_of_ne (by omega), hnext]
  rfl

end

section

variable {map : List RegionMapEntry} {fuel i : Nat} {regions regions' : MemRegions}

def withBmp (entry : RegionMapEntry) (i : Nat) (regions : MemRegions) : MemRegions :=
  update regions i ⟨some entry.range.newBmp, (regions i).info⟩

variable {entry : RegionMapEntry}

theorem initRegions_succ (hentry : map[i]? = some entry) (hobject : entry.objectMemory = true)
    (harray : entry.arrayMemory = true) :
    (entry.nReserved ≤ i → initRegions map (fuel + 1) i regions = initRegions map fuel (i + 1)
        (update regions i ⟨some entry.range.newBmp, some i⟩)) ∧
    (entry.nReserved = i + 1 → ∃ marked, initRegions map (fuel + 1) i regions =
      if map.length ≤ i + 1 then none
      else initRegions map fuel (i + 2)
        (update (update regions i ⟨some marked, (regions i).info⟩) (i + 1)
          ⟨(regions (i + 1)).memBmp, some i⟩)) ∧
    (i + 1 < entry.nReserved → (regions (i + 1)).memBmp = none →
      initRegions map (fuel + 1) i regions = none) := by
  have hlt : i < map.length := (List.getElem?_eq_some_iff.mp hentry).1
  have hbmp : (withBmp entry i regions i).memBmp = some entry.range.newBmp := by
    rw [withBmp, update_self]
  have hround : initRegions map (fuel + 1) i regions =
      match markEntry entry i (withBmp entry i regions) with
      | none => none
      | some (i', regions) =>
        if map.length ≤ i' then none
        else initRegions map fuel (i' + 1)
          (update regions i' ⟨(regions i').memBmp, some i⟩) := by
    rw [initRegions, hentry]
    dsimp only
    rw [hobject, harray, if_neg (by decide), if_neg (by decide)]
    rfl
  refine ⟨?_, ?_, ?_⟩
  · intro hle
    rw [hround, markEntry_of_le hle]
    dsimp only
    rw [if_neg (by omega), hbmp, withBmp, update_idem]
  · intro heq
    obtain ⟨marked, hmark⟩ := markEntry_of_eq heq hbmp
    refine ⟨marked, ?_⟩
    rw [hround, hmark]
    dsimp only
    rw [update_of_ne (by omega : i + 1 ≠ i), withBmp, update_self,
      update_of_ne (by omega : i + 1 ≠ i), update_idem]
  · intro hmore hnext
    have hnext' : (withBmp entry i regions (i + 1)).memBmp = none := by
      rw [withBmp, update_of_ne (by omega)]
      exact hnext
    rw [hround, markEntry_of_lt hmore hbmp hnext']

theorem exists_entry (h : i < map.length) : ∃ entry, map[i]? = some entry :=
  ⟨_, getElem?_eq_getElem h⟩

theorem outOfMemory_succ (hentry : map[i]? = some entry) :
    OutOfMemory map (fuel + 1) i ↔ entry.objectMemory = false ∨ entry.arrayMemory = false ∨
      entry.nReserved ≤ i ∧ OutOfMemory map fuel (i + 1) ∨
      entry.nReserved = i + 1 ∧ OutOfMemory map fuel (i + 2) := by
  rw [OutOfMemory, hentry]

theorem initRegions_of_no_memory (hentry : map[i]? = some entry)
    (h : entry.objectMemory = false ∨ entry.arrayMemory = false) :
    ∃ regions', initRegions map (fuel + 1) i regions = some (.memoryNomem, regions') := by
  rw [initRegions, hentry]
  dsimp only
  rcases Bool.eq_false_or_eq_true entry.objectMemory with hobject | hobject
  · rw [hobject] at h ⊢
    rw [if_neg (by decide), if_pos (h.resolve_left (by decide))]
    exact ⟨_, rfl⟩
  · rw [if_pos hobject]
    exact ⟨_, rfl⟩

theorem untouched_skip {marked : MemoryBmp} (h : Untouched i regions) :
    Untouched (i + 2) (update (update regions i ⟨some marked, (regions i).info⟩)
      (i + 1) ⟨(regions (i + 1)).memBmp, some i⟩) := by
  apply untouched_update _ (by omega)
  apply untouched_update _ (by omega)
  intro k hk
  exact h k (by omega)

theorem initRegions_error_iff (hempty : Untouched i regions) : (OutOfMemory map fuel i →
      ∃ regions', initRegions map fuel i regions = some (.memoryNomem, regions')) ∧
    (¬OutOfMemory map fuel i → ∀ ret regions', initRegions map fuel i regions =
      some (ret, regions') → ret = .success) := by
  induction fuel generalizing i regions with
  | zero =>
    refine ⟨fun h => absurd h id, ?_⟩
    intro _ ret regions' h
    cases h
    rfl
  | succ fuel ih =>
    cases hentry : map[i]? with
    | none =>
      rw [OutOfMemory, initRegions, hentry]
      refine ⟨fun h => absurd h id, ?_⟩
      intro _ ret regions' h
      cases h
      rfl
    | some entry =>
      rw [outOfMemory_succ hentry]
      rcases em (entry.objectMemory = false ∨ entry.arrayMemory = false) with
        hno | hmemory
      · refine ⟨fun _ => initRegions_of_no_memory hentry hno, fun hnot => ?_⟩
        exact absurd (or_assoc.mp (.inl hno)) hnot
      rw [not_or, Bool.not_eq_false, Bool.not_eq_false] at hmemory
      obtain ⟨hobject, harray⟩ := hmemory
      obtain ⟨hstays, hskips, hfaults⟩ :=
        @initRegions_succ map fuel i regions entry hentry hobject harray
      rw [hobject, harray, or_iff_right (by decide), or_iff_right (by decide)]
      rcases lt_trichotomy entry.nReserved (i + 1) with hlt | heq | hgt
      · rw [hstays (by omega)]
        have hnext : Untouched (i + 1)
            (update regions i ⟨some entry.range.newBmp, some i⟩) :=
          untouched_update (fun k hk => hempty k (by omega)) (by omega) _
        obtain ⟨hout, hdone⟩ := ih hnext
        constructor
        · rintro (⟨-, hlater⟩ | ⟨heq, -⟩)
          · exact hout hlater
          · omega
        · intro hnot
          exact hdone fun hlater => hnot (.inl ⟨by omega, hlater⟩)
      · obtain ⟨marked, hskip⟩ := hskips heq
        rw [hskip]
        obtain ⟨hout, hdone⟩ := ih (@untouched_skip i regions marked hempty)
        constructor
        · rintro (⟨hle, -⟩ | ⟨-, hlater⟩)
          · omega
          · have hmore : ¬map.length ≤ i + 1 := by
              intro hle
              cases fuel with
              | zero => exact hlater
              | succ fuel =>
                rw [OutOfMemory, getElem?_eq_none (by omega)] at hlater
                exact hlater
            rw [if_neg hmore]
            exact hout hlater
        · intro hnot ret regions' h
          split at h
          · cases h
          · exact hdone (fun hlater => hnot (.inr ⟨heq, hlater⟩)) ret regions' h
      · rw [hfaults hgt (by rw [hempty _ (by omega)])]
        constructor
        · rintro (⟨hle, -⟩ | ⟨heq, -⟩) <;> omega
        · intro _ ret regions' h
          cases h

theorem initRegions_frame {ret : Kerror} (hempty : Untouched i regions)
    (h : initRegions map fuel i regions = some (ret, regions')) :
    ∀ k < i, regions' k = regions k := by
  induction fuel generalizing i regions with
  | zero =>
    cases h
    exact fun _ _ => rfl
  | succ fuel ih =>
    cases hentry : map[i]? with
    | none =>
      rw [initRegions, hentry] at h
      cases h
      exact fun _ _ => rfl
    | some entry =>
      rcases em (entry.objectMemory = false ∨ entry.arrayMemory = false) with
        hno | hmemory
      · rw [initRegions, hentry] at h
        dsimp only at h
        intro k hk
        rcases Bool.eq_false_or_eq_true entry.objectMemory with hobject | hobject
        · rw [hobject] at h hno
          rw [if_neg (by decide), if_pos (hno.resolve_left (by decide))] at h
          cases h
          exact update_of_ne (by omega) ..
        · rw [if_pos hobject] at h
          cases h
          exact update_of_ne (by omega) ..
      rw [not_or, Bool.not_eq_false, Bool.not_eq_false] at hmemory
      obtain ⟨hstays, hskips, hfaults⟩ :=
        @initRegions_succ map fuel i regions entry hentry hmemory.1 hmemory.2
      rcases lt_trichotomy entry.nReserved (i + 1) with hlt | heq | hgt
      · rw [hstays (by omega)] at h
        intro k hk
        rw [ih (untouched_update (fun k hk => hempty k (by omega)) (by omega) _) h k
          (by omega)]
        exact update_of_ne (by omega) ..
      · obtain ⟨marked, hskip⟩ := hskips heq
        rw [hskip] at h
        split at h
        · cases h
        · intro k hk
          rw [ih (untouched_skip hempty) h k (by omega),
            update_of_ne (by omega), update_of_ne (by omega)]
      · rw [hfaults hgt (by rw [hempty _ (by omega)])] at h
        cases h

theorem initRegions_of_spared (hfuel : map.length ≤ i + fuel) (hmemory : ¬OutOfMemory map fuel i)
    (hspared : ∀ k entry, i ≤ k → map[k]? = some entry → entry.nReserved ≤ k) :
    ∃ regions', initRegions map fuel i regions = some (.success, regions') ∧
      (∀ k < i, regions' k = regions k) ∧ ∀ k entry, i ≤ k → map[k]? = some entry →
        regions' k = ⟨some entry.range.newBmp, some k⟩ := by
  induction fuel generalizing i regions with
  | zero =>
    refine ⟨regions, rfl, fun _ _ => rfl, ?_⟩
    intro k entry hk hentry
    have hlt := (List.getElem?_eq_some_iff.mp hentry).1
    omega
  | succ fuel ih =>
    cases hentry : map[i]? with
    | none =>
      rw [initRegions, hentry]
      refine ⟨regions, rfl, fun _ _ => rfl, ?_⟩
      intro k entry hk hentry'
      have hle := getElem?_eq_none_iff.mp hentry
      have hlt := (List.getElem?_eq_some_iff.mp hentry').1
      omega
    | some entry =>
      rw [outOfMemory_succ hentry, not_or, not_or, not_or, Bool.not_eq_false,
        Bool.not_eq_false] at hmemory
      obtain ⟨hobject, harray, hstay, -⟩ := hmemory
      have hle := hspared i entry (le_refl _) hentry
      rw [(initRegions_succ hentry hobject harray).1 hle]
      obtain ⟨regions', heq, hframe, hall⟩ :=
        @ih (i + 1) (update regions i ⟨some entry.range.newBmp, some i⟩) (by omega)
          (fun hlater => hstay ⟨hle, hlater⟩) fun k entry hk => hspared k entry (by omega)
      refine ⟨regions', heq, ?_, ?_⟩
      · intro k hk
        rw [hframe k (by omega), update_of_ne (by omega)]
      · intro k other hk hother
        rcases eq_or_lt_of_le hk with rfl | hlater
        · rw [hentry] at hother
          cases hother
          rw [hframe i (by omega), update_self]
        · exact hall k other hlater hother

theorem initRegions_of_loop {ret : Kerror} (hempty : Untouched i regions)
    (hmemory : ¬OutOfMemory map fuel i) (hfuel : map.length ≤ i + fuel)
    (hloop : ∃ k entry, i ≤ k ∧ map[k]? = some entry ∧ k < entry.nReserved)
    (h : initRegions map fuel i regions = some (ret, regions')) :
    ∃ k < map.length, (regions' k).info = none := by
  induction fuel generalizing i regions with
  | zero =>
    obtain ⟨k, entry, hk, hentry, -⟩ := hloop
    have hlt := (List.getElem?_eq_some_iff.mp hentry).1
    omega
  | succ fuel ih =>
    obtain ⟨k, looper, hk, hlooper, hlong⟩ := hloop
    have hlt := (List.getElem?_eq_some_iff.mp hlooper).1
    obtain ⟨entry, hentry⟩ := @exists_entry map i (by omega)
    rw [outOfMemory_succ hentry, not_or, not_or, not_or, Bool.not_eq_false,
      Bool.not_eq_false] at hmemory
    obtain ⟨hobject, harray, hstay, -⟩ := hmemory
    obtain ⟨hstays, hskips, hfaults⟩ :=
      @initRegions_succ map fuel i regions entry hentry hobject harray
    rcases lt_trichotomy entry.nReserved (i + 1) with hless | heq | hgt
    · rw [hstays (by omega)] at h
      have hne : i ≠ k := by
        rintro rfl
        rw [hentry] at hlooper
        cases hlooper
        omega
      exact ih (untouched_update (fun k hk => hempty k (by omega)) (by omega) _)
        (fun hlater => hstay ⟨by omega, hlater⟩) (by omega)
        ⟨k, looper, by omega, hlooper, hlong⟩ h
    · obtain ⟨marked, hskip⟩ := hskips heq
      rw [hskip] at h
      split at h
      · cases h
      · refine ⟨i, by omega, ?_⟩
        rw [initRegions_frame (untouched_skip hempty) h i (by omega),
          update_of_ne (by omega), update_self, hempty i (le_refl _)]
    · rw [hfaults hgt (by rw [hempty _ (by omega)])] at h
      cases h

end

section

variable {extents : List Extent} {regions regions' : MemRegions}

theorem markExtent_info {extent : Extent} {region region' : MemoryRegion}
    (h : markExtent extent region = some region') : region'.info = region.info := by
  obtain ⟨bmp, -, rfl⟩ := Option.map_eq_some_iff.mp h
  rfl

theorem overlayRegion_info {region region' : MemoryRegion}
    (h : overlayRegion extents region = some region') : region'.info = region.info := by
  induction extents generalizing region with
  | nil =>
    cases h
    rfl
  | cons extent extents ih =>
    rw [overlayRegion, foldlM_cons] at h
    obtain ⟨middle, hmiddle, h⟩ := Option.bind_eq_some_iff.mp h
    exact (ih h).trans (markExtent_info hmiddle)

theorem testFrame_mapMemUsed (bmp : MemoryBmp) (extent : Extent) {pfn : Nat}
    (hpfn : bmp.HasFrame pfn) :
    (bmp.mapMemUsed extent.baseAddr (bytesToPages extent.size)).testFrame pfn = true ↔
      bmp.testFrame pfn = true ∨ Marks extent pfn := by
  have hbits : (bmp.mapMemUsed extent.baseAddr
      (bytesToPages extent.size)).testFrame pfn = true ↔ _ :=
    NumaMemoryRange.testFrame_setBits _ _ bmp.lastAllocIndex hpfn.1
  rw [NumaMemoryRange.mapped_iff hpfn.1, PmemInit.mappedRange_extent bmp extent hpfn] at hbits
  exact hbits

theorem overlayRegion_of_bmp {bmp : MemoryBmp} (info : Option Nat) :
    ∃ bmp', overlayRegion extents ⟨some bmp, info⟩ = some ⟨some bmp', info⟩ ∧
      bmp'.baseAddr = bmp.baseAddr ∧ bmp'.endAddr = bmp.endAddr ∧
      ∀ pfn, bmp.HasFrame pfn → (bmp'.testFrame pfn = true ↔
        bmp.testFrame pfn = true ∨ ∃ extent ∈ extents, Marks extent pfn) := by
  induction extents generalizing bmp with
  | nil =>
    refine ⟨bmp, rfl, rfl, rfl, ?_⟩
    intro pfn _
    refine (or_iff_left ?_).symm
    rintro ⟨extent, hextent, -⟩
    cases hextent
  | cons extent extents ih =>
    obtain ⟨bmp', heq, hbase, hend, htest⟩ :=
      @ih (bmp.mapMemUsed extent.baseAddr (bytesToPages extent.size))
    refine ⟨bmp', ?_, hbase, hend, ?_⟩
    · rw [overlayRegion, foldlM_cons, markExtent]
      exact heq
    · intro pfn hpfn
      rw [htest pfn hpfn, testFrame_mapMemUsed bmp extent hpfn, or_assoc]
      refine or_congr_right ?_
      rw [exists_mem_cons_iff]

variable {remaining i : Nat}

theorem overlay_info (h : overlay extents remaining i regions = some regions') :
    ∀ k, (regions' k).info = (regions k).info := by
  induction remaining generalizing i regions with
  | zero =>
    cases h
    exact fun _ => rfl
  | succ remaining ih =>
    rw [overlay] at h
    cases hregion : overlayRegion extents (regions i) with
    | none =>
      rw [hregion] at h
      cases h
    | some region =>
      rw [hregion] at h
      intro k
      rw [ih h k]
      rcases eq_or_ne k i with rfl | hne
      · rw [update_self]
        exact overlayRegion_info hregion
      · rw [update_of_ne hne]

theorem exists_overlay (h : ∀ k, i ≤ k → k < i + remaining → (regions k).memBmp ≠ none) :
    ∃ regions', overlay extents remaining i regions = some regions' ∧
      (∀ k < i, regions' k = regions k) ∧ ∀ k, i ≤ k → k < i + remaining →
        overlayRegion extents (regions k) = some (regions' k) := by
  induction remaining generalizing i regions with
  | zero => exact ⟨regions, rfl, fun _ _ => rfl, fun k hk hlt => by omega⟩
  | succ remaining ih =>
    obtain ⟨bmp, hbmp⟩ := Option.ne_none_iff_exists'.mp (h i (le_refl _) (by omega))
    obtain ⟨bmp', hregion, -⟩ := @overlayRegion_of_bmp extents bmp (regions i).info
    rw [← hbmp] at hregion
    rw [overlay, hregion]
    obtain ⟨regions', heq, hframe, hall⟩ :=
      @ih (update regions i ⟨some bmp', (regions i).info⟩) (i + 1) (by
        intro k hk hlt
        rw [update_of_ne (by omega)]
        exact h k (by omega) (by omega))
    refine ⟨regions', heq, ?_, ?_⟩
    · intro k hk
      rw [hframe k (by omega), update_of_ne (by omega)]
    · intro k hk hlt
      rcases eq_or_lt_of_le hk with rfl | hlater
      · rw [hframe i (by omega), update_self]
        exact hregion
      · have hnext := hall k hlater (by omega)
        rwa [update_of_ne (by omega)] at hnext

theorem overlay_nil : overlay [] remaining i regions = some regions := by
  induction remaining generalizing i regions with
  | zero => rfl
  | succ remaining ih =>
    rw [overlay, overlayRegion, foldlM_nil]
    dsimp only [pure]
    rw [update_eq_self]
    exact ih

end

section

variable {map : List RegionMapEntry} {memMap : Option (List MemoryMapEntry)}

theorem memRegionInit_eq (map : List RegionMapEntry) (memMap : Option (List MemoryMapEntry))
    {ret : Kerror} {regions : MemRegions}
    (h : initRegions map map.length 0 noRegions = some (ret, regions)) :
    memRegionInit (some map) memMap =
      if ret ≠ .success then some (ret, regions)
      else (overlay (unusable (memMap.getD [])) map.length 0 regions).map
        fun regions => (.success, regions) := by
  rw [memRegionInit, h]
  cases memMap with
  | none =>
    rw [Option.getD_none, show unusable [] = [] from rfl, overlay_nil]
    rfl
  | some memMap => rfl

theorem untouched_noRegions : Untouched 0 noRegions :=
  fun _ _ => rfl

theorem complete_iff {regions : MemRegions} (extents : List Extent)
    (h : ∀ k entry, map[k]? = some entry → ∃ bmp, regions k = ⟨some bmp, some k⟩ ∧
      bmp.baseAddr = entry.range.newBmp.baseAddr ∧ bmp.endAddr = entry.range.newBmp.endAddr ∧
      ∀ pfn, entry.range.newBmp.HasFrame pfn → (bmp.testFrame pfn = true ↔
        entry.range.newBmp.testFrame pfn = true ∨ ∃ extent ∈ extents, Marks extent pfn)) :
    Complete map extents regions ↔ ∀ (i : Nat) (entry : RegionMapEntry), map[i]? = some entry →
      ∀ pfn, entry.range.newBmp.HasFrame pfn → Taken entry extents pfn →
        entry.range.newBmp.testFrame pfn = true ∨ ∃ extent ∈ extents, Marks extent pfn := by
  refine forall_congr' fun i => forall_congr' fun entry => forall_congr' fun hentry => ?_
  obtain ⟨bmp, hregion, hbase, hend, htest⟩ := h i entry hentry
  constructor
  · rintro ⟨-, bmp', hbmp', -, -, hmarked⟩ pfn hpfn htaken
    rw [hregion] at hbmp'
    cases hbmp'
    have hpfn' : bmp.HasFrame pfn := (NumaMemoryRange.hasFrame_congr hbase hend).mpr hpfn
    exact (htest pfn hpfn).mp (hmarked pfn hpfn' htaken)
  · intro hmarked
    refine ⟨by rw [hregion], bmp, by rw [hregion], hbase, hend, ?_⟩
    intro pfn hpfn htaken
    have hpfn' := (NumaMemoryRange.hasFrame_congr hbase hend).mp hpfn
    exact (htest pfn hpfn').mpr (hmarked pfn hpfn' htaken)

/-- The regions are set up as they should exactly when there is no memory for one that the loop
comes to, or when its loop over the reserved ranges is never entered and nothing depends on it. -/
theorem initializes_iff (regionMap : Option (List RegionMapEntry))
    (memMap : Option (List MemoryMapEntry)) : Initializes regionMap memMap ↔
      OutOfMemory (regionMap.getD []) (regionMap.getD []).length 0 ∨
        Spared (regionMap.getD []) (unusable (memMap.getD [])) := by
  cases regionMap with
  | none =>
    refine iff_of_true ⟨.success, noRegions, rfl, fun _ i entry hentry => ?_⟩
      (Or.inr fun i entry hentry => ?_) <;>
    · rw [Option.getD_none, getElem?_nil] at hentry
      cases hentry
  | some map =>
    rw [Option.getD_some]
    obtain ⟨hout, hdone⟩ := @initRegions_error_iff map map.length 0 noRegions untouched_noRegions
    rcases em (OutOfMemory map map.length 0) with hno | hmemory
    · obtain ⟨regions, hinit⟩ := hout hno
      refine iff_of_true ⟨.memoryNomem, regions, ?_, fun hsuccess => ?_⟩ (Or.inl hno)
      · rw [memRegionInit_eq map memMap hinit, if_pos (by decide)]
      · cases hsuccess
    rw [or_iff_right hmemory]
    rcases em (∃ k entry, 0 ≤ k ∧ map[k]? = some entry ∧ k < entry.nReserved) with
      hloop | hspared
    · refine iff_of_false ?_ ?_
      · rintro ⟨ret, final, hinit, hcomplete⟩
        cases hregions : initRegions map map.length 0 noRegions with
        | none =>
          rw [memRegionInit, hregions] at hinit
          cases hinit
        | some result =>
          obtain ⟨ret', regions⟩ := result
          obtain rfl := hdone hmemory ret' regions hregions
          obtain ⟨k, hk, hinfo⟩ := initRegions_of_loop untouched_noRegions hmemory
            (by omega) hloop hregions
          rw [memRegionInit_eq map memMap hregions, if_neg (not_not.mpr rfl)] at hinit
          obtain ⟨regions', hoverlay, heq⟩ := Option.map_eq_some_iff.mp hinit
          cases heq
          obtain ⟨entry, hentry⟩ := exists_entry hk
          have hset := (hcomplete rfl k entry hentry).1
          rw [overlay_info hoverlay k, hinfo] at hset
          cases hset
      · intro hspared
        obtain ⟨k, entry, -, hentry, hlong⟩ := hloop
        have hle := (hspared k entry hentry).1
        omega
    have hle : ∀ k entry, 0 ≤ k → map[k]? = some entry → entry.nReserved ≤ k := by
      intro k entry hk hentry
      rcases lt_or_ge k entry.nReserved with hlong | hle
      · exact absurd ⟨k, entry, hk, hentry, hlong⟩ hspared
      · exact hle
    obtain ⟨regions, hinit, -, hall⟩ := @initRegions_of_spared map map.length 0 noRegions
      (by omega) hmemory hle
    obtain ⟨final, hoverlay, -, hfinal⟩ :=
      @exists_overlay (unusable (memMap.getD [])) regions map.length 0 (by
        intro k _ hlt
        obtain ⟨entry, hentry⟩ := @exists_entry map k (by omega)
        rw [hall k entry (zero_le _) hentry]
        exact Option.some_ne_none _)
    have hresult : memRegionInit (some map) memMap = some (.success, final) := by
      rw [memRegionInit_eq map memMap hinit, if_neg (not_not.mpr rfl), hoverlay]
      rfl
    have hbmps : ∀ k entry, map[k]? = some entry → ∃ bmp, final k = ⟨some bmp, some k⟩ ∧
        bmp.baseAddr = entry.range.newBmp.baseAddr ∧
        bmp.endAddr = entry.range.newBmp.endAddr ∧
        ∀ pfn, entry.range.newBmp.HasFrame pfn → (bmp.testFrame pfn = true ↔
          entry.range.newBmp.testFrame pfn = true ∨
            ∃ extent ∈ unusable (memMap.getD []), Marks extent pfn) := by
      intro k entry hentry
      have hlt := (List.getElem?_eq_some_iff.mp hentry).1
      obtain ⟨bmp, heq, hrest⟩ := @overlayRegion_of_bmp (unusable (memMap.getD []))
        entry.range.newBmp (some k)
      have hk := hfinal k (zero_le _) (by omega)
      rw [hall k entry (zero_le _) hentry, heq] at hk
      exact ⟨bmp, (Option.some.inj hk).symm, hrest⟩
    have hcomplete := complete_iff (unusable (memMap.getD [])) hbmps
    constructor
    · rintro ⟨ret, final', hinit', hgood⟩ i entry hentry
      rw [hresult] at hinit'
      cases hinit'
      exact ⟨hle i entry (zero_le _) hentry, hcomplete.mp (hgood rfl) i entry hentry⟩
    · intro hall'
      exact ⟨.success, final, hresult, fun _ =>
        hcomplete.mpr fun i entry hentry => (hall' i entry hentry).2⟩

theorem regionSize_pos : 0 < 8 * 4096 := by decide

theorem firstRegion_le : 0 + 8 * 4096 ≤ wordModulus := by decide

theorem secondRegion_le : 8 * 4096 + 8 * 4096 ≤ wordModulus := by decide

theorem frameSize_lt : 4096 < wordModulus := by decide

def twoRegions : List RegionMapEntry :=
  [⟨⟨0, 8 * 4096, regionSize_pos, firstRegion_le⟩,
      some [⟨0, 4096, wordModulus_pos, frameSize_lt⟩], true, true⟩,
    ⟨⟨8 * 4096, 8 * 4096, regionSize_pos, secondRegion_le⟩, none, true, true⟩]

theorem twoRegions_not_initialized : ¬Initializes (some twoRegions) none := by
  have hresult : (memRegionInit (some twoRegions) none).map
      (fun result => (result.1, (result.2 0).info)) = some (.success, none) := by
    decide +kernel
  rintro ⟨ret, regions, hinit, hcomplete⟩
  rw [hinit, Option.map_some] at hresult
  obtain ⟨hret, hinfo⟩ := Prod.mk.inj (Option.some.inj hresult)
  have hset := (hcomplete hret 0 _ rfl).1
  rw [show (regions 0).info = none from hinfo] at hset
  cases hset

end

end Zambesii.MemRegionInit
