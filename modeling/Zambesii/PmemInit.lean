import Zambesii.NumaMemoryRange

/-!
`MemoryTrib::pmemInit`: the chipset's maps become memory banks, and what is not free memory is
marked in their bitmaps. This is the build for NUMA machines with a shared bank.

Which allocations for banks and ranges succeed is an input, and so is the `__kspace` bank as it
is after the last of them. Nothing is released to the new ranges meanwhile: their frame caches
are empty.
-/

namespace Zambesii.PmemInit

open BitManipulation KernelTypes List Nat
open NumaMemoryRange (Range identifies initialRange)

structure Extent where
  baseAddr : Nat
  size : Nat
  baseAddr_lt : baseAddr < wordModulus
  size_lt : size < wordModulus
deriving DecidableEq

structure NumaMemoryMapEntry extends Extent where
  bankId : Nat
deriving DecidableEq

inductive MemType
  | usable
  | reclaimable
  | reserved
  | mmio
  | firmware
deriving DecidableEq

structure MemoryMapEntry extends Extent where
  memType : MemType
deriving DecidableEq

/-- What the chipset tells: `getNumaMap`, `getMemoryConfig` (`memBase` and `memSize`),
`getMemoryMap` and `chipsetRegionMap`. -/
structure Chipset where
  numaMap : Option (List NumaMemoryMapEntry)
  memoryConfig : Option Extent
  memoryMap : Option (List MemoryMapEntry)
  regionMap : Option (List Extent)

def bytesToPages (bytes : Nat) : Nat :=
  bytes / pagingBaseSize + if bytes % pagingBaseSize ≠ 0 then 1 else 0

def inversions : List NumaMemoryMapEntry → Nat
  | [] => 0
  | entry :: entries =>
    (entries.countP fun other => decide (other.baseAddr < entry.baseAddr)) + inversions entries

theorem inversions_swap {first second : NumaMemoryMapEntry}
    (h : second.baseAddr < first.baseAddr) (front back : List NumaMemoryMapEntry) :
    inversions (front ++ second :: first :: back) < inversions
      (front ++ first :: second :: back) := by
  induction front with
  | nil =>
    have hfirst : ¬ first.baseAddr < second.baseAddr := lt_asymm h
    simp only [nil_append, inversions, countP_cons, decide_eq_true h,
      decide_eq_false hfirst, if_true, Bool.false_eq_true, if_false]
    omega
  | cons entry front ih =>
    have hperm : (front ++ second :: first :: back).Perm (front ++ first :: second :: back) :=
      (List.Perm.swap first second back).append_left front
    simp only [cons_append, inversions, hperm.countP_eq]
    omega

/-- The loop of `sortNumaMapByAddress`, at the entries after those in `passed`, which has the
last one first. -/
def sortFrom (passed rest : List NumaMemoryMapEntry) : List NumaMemoryMapEntry :=
  match passed, rest with
  | passed, first :: second :: back =>
    if h : second.baseAddr < first.baseAddr then
      match passed with
      | [] => sortFrom [] (second :: first :: back)
      | last :: passed => sortFrom passed (last :: second :: first :: back)
    else sortFrom (first :: passed) (second :: back)
  | passed, rest => passed.reverse ++ rest
termination_by (inversions (passed.reverse ++ rest), rest.length)
decreasing_by
  · exact Prod.Lex.left _ _ (by simpa using inversions_swap h [] back)
  · refine Prod.Lex.left _ _ ?_
    simpa using inversions_swap h (passed.reverse ++ [last]) back
  · simp only [List.reverse_cons, List.append_assoc, List.singleton_append]
    exact Prod.Lex.right _ (by simp)

def sortNumaMapByAddress (map : List NumaMemoryMapEntry) : List NumaMemoryMapEntry :=
  sortFrom [] map

/-- `NumaMemoryBank`, with the range that was added last first. -/
structure Bank where
  id : Nat
  ranges : List Range

def kspaceBankId : Nat := 32

def shbankId : Nat := 31

def getBank (banks : List Bank) (id : Nat) : Option Bank :=
  banks.find? fun bank => decide (bank.id = id)

/-- `kspaceBool` tells whether a range was added, and `nAllocs` how many banks and ranges it
was tried to allocate. -/
structure Progress where
  banks : List Bank
  kspaceBool : Bool
  nAllocs : Nat

section

variable (allocs : Nat → Bool)

/-- `MemoryTrib::createBank`. A bank that has the number already is replaced. -/
def createBank (progress : Progress) (id : Nat) : Bool × Progress :=
  let next := { progress with nAllocs := progress.nAllocs + 1 }
  if allocs progress.nAllocs then
    let others := progress.banks.filter fun bank => decide (bank.id ≠ id)
    (true, { next with banks := ⟨id, []⟩ :: others })
  else (false, next)

def endAddrOf (baseAddr size : Nat) : Nat :=
  (baseAddr + (size + (wordModulus - 1)) % wordModulus) % wordModulus

/-- The range after `NumaMemoryRange::initialize`, unless it ends before it begins. -/
def newRange (baseAddr size : Nat) : Option Range :=
  if h : baseAddr ≤ endAddrOf baseAddr size then
    some (initialRange (MemoryBmp.initialBmp baseAddr (endAddrOf baseAddr size) h
      (Nat.mod_lt _ (by decide))))
  else none

/-- `NumaMemoryBank::addMemoryRange`. For a range that ends before it begins there is no memory
for the bitmap, none being needed or half a gigabyte, except when it ends in the frame in which
it begins: its bitmap then has this one frame, as used, and nothing else to say. -/
def addMemoryRange (progress : Progress) (id baseAddr size : Nat) : Progress :=
  let next := { progress with nAllocs := progress.nAllocs + 1 }
  if allocs progress.nAllocs then
    match newRange baseAddr size with
    | some range =>
      { next with
        banks := progress.banks.map fun bank =>
          if bank.id = id then { bank with ranges := range :: bank.ranges } else bank
        kspaceBool := true }
    | none =>
      if endAddrOf baseAddr size / pagingBaseSize = baseAddr / pagingBaseSize then
        { next with kspaceBool := true }
      else next
  else next

def spawnNumaStreams (map : List NumaMemoryMapEntry) (progress : Progress) : Progress :=
  map.foldl (fun progress entry =>
    if (getBank progress.banks entry.bankId).isSome then progress
    else (createBank allocs progress entry.bankId).2) progress

def generateNumaMemoryRanges (map : List NumaMemoryMapEntry) (progress : Progress) : Progress :=
  map.foldl (fun progress entry =>
    if (getBank progress.banks entry.bankId).isSome then
      addMemoryRange allocs progress entry.bankId entry.baseAddr entry.size
    else progress) progress

/-- `init2_generateShbankFromNumaMap`: a range for each hole between two entries. -/
def generateShbankFromNumaMap (memSize : Nat) : List NumaMemoryMapEntry → Progress → Progress
  | entry :: next :: map, progress =>
    if memSize < entry.baseAddr then progress
    else if entry.baseAddr = next.baseAddr then progress
    else
      let tmpBase := (entry.baseAddr + entry.size) % wordModulus
      let tmpSize := (next.baseAddr + (wordModulus - tmpBase)) % wordModulus
      let endAddr := (tmpBase + tmpSize) % wordModulus
      let tmpSize :=
        if memSize < endAddr then (memSize + (wordModulus - tmpBase)) % wordModulus else tmpSize
      if next.baseAddr < tmpBase then progress
      else
        generateShbankFromNumaMap memSize (next :: map)
          (if 0 < tmpSize then addMemoryRange allocs progress shbankId tmpBase tmpSize
          else progress)
  | _, progress => progress

def sortedNumaMap (chipset : Chipset) : List NumaMemoryMapEntry :=
  match chipset.numaMap with
  | some (entry :: map) => sortNumaMapByAddress (entry :: map)
  | _ => []

def generateBanks (chipset : Chipset) (kspace : List Range) : Progress :=
  let numaMap := sortedNumaMap chipset
  let progress : Progress := ⟨[⟨kspaceBankId, kspace⟩], false, 0⟩
  let progress := generateNumaMemoryRanges allocs numaMap (spawnNumaStreams allocs numaMap progress)
  match chipset.memoryConfig with
  | none => progress
  | some config =>
    if config.size = 0 then progress
    else
      match createBank allocs progress shbankId with
      | (false, progress) => progress
      | (true, progress) =>
        if 1 < numaMap.length then
          generateShbankFromNumaMap allocs config.size numaMap progress
        else addMemoryRange allocs progress shbankId config.baseAddr config.size

end

def Bank.mapMemUsed (bank : Bank) (baseAddr nFrames : Nat) : Option Bank := do
  let ranges ← bank.ranges.mapM fun range =>
    (NumaMemoryRange.mapMemUsed range baseAddr nFrames).map Prod.snd
  some { bank with ranges := ranges }

def Bank.overlay (extents : List Extent) (bank : Bank) : Option Bank :=
  extents.foldlM (fun bank extent =>
    bank.mapMemUsed extent.baseAddr (bytesToPages extent.size)) bank

def Bank.merge (bank other : Bank) : Option Bank := do
  let ranges ← bank.ranges.mapM fun range =>
    other.ranges.foldlM (fun range other => (NumaMemoryRange.merge range other).map Prod.snd) range
  some { bank with ranges := ranges }

def Chipset.unusable (chipset : Chipset) : List Extent :=
  ((chipset.memoryMap.getD []).filter fun entry => decide (entry.memType ≠ .usable)).map
    MemoryMapEntry.toExtent

def Chipset.regions (chipset : Chipset) : List Extent :=
  chipset.regionMap.getD []

/-- `MemoryTrib::pmemInit`: the banks that are left, or `none` when it panics. -/
def pmemInit (allocs : Nat → Bool) (chipset : Chipset) (kspace : List Range) :
    Option (List Bank) := do
  let progress := generateBanks allocs chipset kspace
  let banks ← progress.banks.mapM (Bank.overlay chipset.unusable)
  let kspaceBank ← getBank banks kspaceBankId
  let banks ← banks.mapM fun bank =>
    if bank.id = kspaceBankId then some bank else bank.merge kspaceBank
  let banks ← banks.mapM (Bank.overlay chipset.regions)
  if progress.kspaceBool then some (banks.filter fun bank => decide (bank.id ≠ kspaceBankId))
  else none

section

def Touches (extent : Extent) (pfn : Nat) : Prop :=
  ∃ byte, extent.baseAddr ≤ byte ∧ byte < extent.baseAddr + extent.size ∧
    byte / pagingBaseSize = pfn

def Marks (extent : Extent) (bmp : MemoryBmp) (pfn : Nat) : Prop :=
  identifies bmp extent.baseAddr (bytesToPages extent.size) = true ∧
    extent.baseAddr / pagingBaseSize ≤ pfn ∧
    pfn < extent.baseAddr / pagingBaseSize + bytesToPages extent.size

def Merges (other bmp : MemoryBmp) (pfn : Nat) : Prop :=
  other.basePfn ≤ pfn ∧ pfn < bmp.endPfn ∧ pfn < other.endPfn ∧ other.testFrame pfn = true

/-- The frames that `P` says are set, on top of those that were, and the cache stays empty. -/
structure Adds (P : MemoryBmp → Nat → Prop) (before after : Range) : Prop where
  baseAddr_eq : after.bmp.baseAddr = before.bmp.baseAddr
  endAddr_eq : after.bmp.endAddr = before.bmp.endAddr
  frameCache_eq : after.frameCache = []
  testFrame_iff : ∀ pfn, before.bmp.HasFrame pfn → (after.bmp.testFrame pfn = true ↔
    before.bmp.testFrame pfn = true ∨ P before.bmp pfn)

def Placed (P : MemoryBmp → Nat → Prop) : Prop :=
  ∀ bmp bmp' : MemoryBmp, bmp'.baseAddr = bmp.baseAddr → bmp'.endAddr = bmp.endAddr →
    ∀ pfn, P bmp' pfn ↔ P bmp pfn

theorem placed_marks (extent : Extent) : Placed (Marks extent) := by
  intro bmp bmp' hbase hend pfn
  unfold Marks identifies NumaMemoryRange.identifyPaddrRange
  rw [hbase, hend]

theorem placed_merges (other : MemoryBmp) : Placed (Merges other) := by
  intro bmp bmp' _ hend pfn
  unfold Merges MemoryBmp.endPfn
  rw [hend]

theorem placed_exists_marks (extents : List Extent) :
    Placed fun bmp pfn => ∃ extent ∈ extents, Marks extent bmp pfn := by
  intro bmp bmp' hbase hend pfn
  simp only [placed_marks _ bmp bmp' hbase hend]

theorem placed_exists_merges (others : List Range) :
    Placed fun bmp pfn => ∃ other ∈ others, Merges other.bmp bmp pfn := by
  intro bmp bmp' hbase hend pfn
  simp only [placed_merges _ bmp bmp' hbase hend]

variable {range : Range}

theorem Adds.refl (hcache : range.frameCache = []) :
    Adds (fun _ _ => False) range range :=
  ⟨rfl, rfl, hcache, fun pfn _ => (iff_of_eq (or_false _)).symm⟩

theorem Adds.trans {P Q : MemoryBmp → Nat → Prop} {before middle after : Range}
    (hplaced : Placed Q) (h : Adds P before middle) (h' : Adds Q middle after) :
    Adds (fun bmp pfn => P bmp pfn ∨ Q bmp pfn) before after := by
  refine ⟨h'.baseAddr_eq.trans h.baseAddr_eq, h'.endAddr_eq.trans h.endAddr_eq,
    h'.frameCache_eq, ?_⟩
  intro pfn hpfn
  have hpfn' := (NumaMemoryRange.hasFrame_congr h.baseAddr_eq h.endAddr_eq).mpr hpfn
  rw [h'.testFrame_iff pfn hpfn', h.testFrame_iff pfn hpfn,
    hplaced _ _ h.baseAddr_eq h.endAddr_eq, or_assoc]

theorem bytesToPages_le {bytes : Nat} (h : bytes < wordModulus) : bytesToPages bytes ≤ 2 ^ 20 := by
  unfold bytesToPages
  have hrest : (if bytes % pagingBaseSize ≠ 0 then 1 else 0) ≤ 1 := by split <;> omega
  simp only [pagingBaseSize, wordModulus] at *
  omega

theorem mappedRange_extent (bmp : MemoryBmp) (extent : Extent) {pfn : Nat} (hpfn : bmp.HasFrame pfn) :
    (bmp.mappedRange extent.baseAddr (bytesToPages extent.size)).1 ≤ pfn ∧
        pfn < (bmp.mappedRange extent.baseAddr (bytesToPages extent.size)).2 ↔
      extent.baseAddr / pagingBaseSize ≤ pfn ∧
        pfn < extent.baseAddr / pagingBaseSize + bytesToPages extent.size := by
  obtain ⟨hfirst, hlast⟩ := hpfn
  have hpages := bytesToPages_le extent.size_lt
  have hbase : extent.baseAddr / pagingBaseSize < 2 ^ 20 :=
    Nat.div_lt_of_lt_mul (by simpa [pagingBaseSize, wordModulus] using extent.baseAddr_lt)
  have hmod : (extent.baseAddr / pagingBaseSize + bytesToPages extent.size) % wordModulus =
      extent.baseAddr / pagingBaseSize + bytesToPages extent.size :=
    mod_eq_of_lt (by simp only [wordModulus]; omega)
  unfold MemoryBmp.mappedRange
  dsimp only
  refine and_congr ?_ ?_
  · split
    · exact Iff.rfl
    · rename_i hlt
      have hle : extent.baseAddr / pagingBaseSize ≤ bmp.basePfn :=
        Nat.div_le_div_right (le_of_lt (Nat.not_le.mp hlt))
      exact ⟨fun _ => hle.trans hfirst, fun _ => hfirst⟩
  · split <;> omega

theorem adds_mapMemUsed {extent : Extent} {next : Range} {answer : NumaMemoryRange.Answer}
    (hcache : range.frameCache = [])
    (h : NumaMemoryRange.mapMemUsed range extent.baseAddr (bytesToPages extent.size) =
      some (answer, next)) : Adds (Marks extent) range next := by
  unfold NumaMemoryRange.mapMemUsed at h
  cases hid : identifies range.bmp extent.baseAddr (bytesToPages extent.size) with
  | false =>
    rw [hid] at h
    cases h
    refine ⟨rfl, rfl, hcache, ?_⟩
    intro pfn _
    simp [Marks, hid]
  | true =>
    rw [hid, hcache] at h
    cases h
    refine ⟨rfl, rfl, rfl, ?_⟩
    intro pfn hpfn
    have hbits : (range.bmp.mapMemUsed extent.baseAddr
        (bytesToPages extent.size)).testFrame pfn = true ↔ _ :=
      NumaMemoryRange.testFrame_setBits _ _ range.bmp.lastAllocIndex hpfn.1
    rw [NumaMemoryRange.mapped_iff hpfn.1, mappedRange_extent range.bmp extent hpfn] at hbits
    simpa [Marks, hid] using hbits

theorem adds_merge {other next : Range} {nSet : Nat} (hcache : range.frameCache = [])
    (h : NumaMemoryRange.merge range other = some (nSet, next)) :
    Adds (Merges other.bmp) range next := by
  unfold NumaMemoryRange.merge at h
  rw [hcache] at h
  cases h
  have hsame : (range.bmp.merge other.bmp).2.baseAddr = range.bmp.baseAddr ∧
      (range.bmp.merge other.bmp).2.endAddr = range.bmp.endAddr := by
    unfold MemoryBmp.merge
    split <;> exact ⟨rfl, rfl⟩
  exact ⟨hsame.1, hsame.2, rfl, fun pfn hpfn => range.bmp.testFrame_merge other.bmp hpfn⟩

end

section

def Matches {α β : Type*} (R : α → β → Prop) (before : List α) (after : List β) : Prop :=
  (∀ a ∈ before, ∃ b ∈ after, R a b) ∧ ∀ b ∈ after, ∃ a ∈ before, R a b

theorem Matches.trans {α β γ : Type*} {R : α → β → Prop} {S : β → γ → Prop} {T : α → γ → Prop}
    {first : List α} {second : List β} {third : List γ}
    (hT : ∀ a ∈ first, ∀ b ∈ second, ∀ c, R a b → S b c → T a c) (h : Matches R first second)
    (h' : Matches S second third) : Matches T first third := by
  constructor
  · intro a ha
    obtain ⟨b, hb, hR⟩ := h.1 a ha
    obtain ⟨c, hc, hS⟩ := h'.1 b hb
    exact ⟨c, hc, hT a ha b hb c hR hS⟩
  · intro c hc
    obtain ⟨b, hb, hS⟩ := h'.2 c hc
    obtain ⟨a, ha, hR⟩ := h.2 b hb
    exact ⟨a, ha, hT a ha b hb c hR hS⟩

theorem matches_mapM {α β : Type*} {R : α → β → Prop} {f : α → Option β} {before : List α}
    {after : List β} (hR : ∀ a ∈ before, ∀ b, f a = some b → R a b)
    (h : before.mapM f = some after) : Matches R before after := by
  induction before generalizing after with
  | nil =>
    obtain rfl : [] = after := by simpa using h
    exact ⟨by simp, by simp⟩
  | cons a before ih =>
    rw [mapM_cons] at h
    obtain ⟨b, hb, h⟩ := Option.bind_eq_some_iff.mp h
    obtain ⟨rest, hrest, h⟩ := Option.bind_eq_some_iff.mp h
    cases h
    obtain ⟨hforth, hback⟩ := ih (fun a' ha' => hR a' (mem_cons_of_mem _ ha')) hrest
    have hfirst := hR a mem_cons_self b hb
    constructor
    · intro a' ha'
      rcases mem_cons.mp ha' with rfl | ha'
      · exact ⟨b, mem_cons_self, hfirst⟩
      · obtain ⟨b', hb', hrel⟩ := hforth a' ha'
        exact ⟨b', mem_cons_of_mem _ hb', hrel⟩
    · intro b' hb'
      rcases mem_cons.mp hb' with rfl | hb'
      · exact ⟨a, mem_cons_self, hfirst⟩
      · obtain ⟨a', ha', hrel⟩ := hback b' hb'
        exact ⟨a', mem_cons_of_mem _ ha', hrel⟩

/-- The frames that `P` says are set in all ranges of the bank. -/
def BankAdds (P : MemoryBmp → Nat → Prop) (before after : Bank) : Prop :=
  after.id = before.id ∧ Matches (Adds P) before.ranges after.ranges

def EmptyCaches (bank : Bank) : Prop :=
  ∀ range ∈ bank.ranges, range.frameCache = []

variable {P Q : MemoryBmp → Nat → Prop} {bank : Bank}

theorem BankAdds.emptyCaches {before after : Bank} (h : BankAdds P before after) :
    EmptyCaches after := by
  intro range hrange
  obtain ⟨range', -, hadds⟩ := h.2.2 range hrange
  exact hadds.frameCache_eq

theorem BankAdds.trans {before middle after : Bank} (hplaced : Placed Q)
    (h : BankAdds P before middle) (h' : BankAdds Q middle after) :
    BankAdds (fun bmp pfn => P bmp pfn ∨ Q bmp pfn) before after :=
  ⟨h'.1.trans h.1, h.2.trans (fun _ _ _ _ _ hP hQ => hP.trans hplaced hQ) h'.2⟩

theorem Adds.congr {before after : Range} (h : Adds P before after)
    (hiff : ∀ bmp pfn, P bmp pfn ↔ Q bmp pfn) : Adds Q before after := by
  refine ⟨h.baseAddr_eq, h.endAddr_eq, h.frameCache_eq, ?_⟩
  intro pfn hpfn
  rw [h.testFrame_iff pfn hpfn, hiff]

theorem BankAdds.congr {before after : Bank} (h : BankAdds P before after)
    (hiff : ∀ bmp pfn, P bmp pfn ↔ Q bmp pfn) : BankAdds Q before after := by
  refine ⟨h.1, ?_, ?_⟩
  · intro range hrange
    obtain ⟨range', hrange', hadds⟩ := h.2.1 range hrange
    exact ⟨range', hrange', hadds.congr hiff⟩
  · intro range' hrange'
    obtain ⟨range, hrange, hadds⟩ := h.2.2 range' hrange'
    exact ⟨range, hrange, hadds.congr hiff⟩

theorem bankAdds_refl (hcaches : EmptyCaches bank) :
    BankAdds (fun _ _ => False) bank bank :=
  ⟨rfl, fun range hrange => ⟨range, hrange, Adds.refl (hcaches range hrange)⟩,
    fun range hrange => ⟨range, hrange, Adds.refl (hcaches range hrange)⟩⟩

theorem bankAdds_mapMemUsed {next : Bank} {extent : Extent} (hcaches : EmptyCaches bank)
    (h : bank.mapMemUsed extent.baseAddr (bytesToPages extent.size) = some next) :
    BankAdds (Marks extent) bank next := by
  obtain ⟨ranges, hranges, h⟩ := Option.bind_eq_some_iff.mp h
  cases h
  refine ⟨rfl, matches_mapM ?_ hranges⟩
  intro range hrange range' heq
  obtain ⟨⟨answer, next⟩, hmap, rfl⟩ := Option.map_eq_some_iff.mp heq
  exact adds_mapMemUsed (hcaches range hrange) hmap

theorem bankAdds_overlay {extents : List Extent} {next : Bank} (hcaches : EmptyCaches bank)
    (h : bank.overlay extents = some next) :
    BankAdds (fun bmp pfn => ∃ extent ∈ extents, Marks extent bmp pfn) bank next := by
  induction extents generalizing bank with
  | nil =>
    cases h
    exact (bankAdds_refl hcaches).congr (by simp)
  | cons extent extents ih =>
    obtain ⟨middle, hmiddle, h⟩ := Option.bind_eq_some_iff.mp h
    have hfirst := bankAdds_mapMemUsed hcaches hmiddle
    have hrest := ih hfirst.emptyCaches h
    exact (hfirst.trans (placed_exists_marks extents) hrest).congr (by simp)

theorem adds_merges {others : List Range} {range next : Range} (hcache : range.frameCache = [])
    (h : others.foldlM (fun range other => (NumaMemoryRange.merge range other).map Prod.snd) range =
      some next) :
    Adds (fun bmp pfn => ∃ other ∈ others, Merges other.bmp bmp pfn) range next := by
  induction others generalizing range with
  | nil =>
    cases h
    exact (Adds.refl hcache).congr (by simp)
  | cons other others ih =>
    obtain ⟨middle, hmiddle, h⟩ := Option.bind_eq_some_iff.mp h
    obtain ⟨⟨nSet, middle'⟩, hmerge, rfl⟩ := Option.map_eq_some_iff.mp hmiddle
    have hfirst := adds_merge hcache hmerge
    have hrest := ih hfirst.frameCache_eq h
    exact (hfirst.trans (placed_exists_merges others) hrest).congr (by simp)

theorem bankAdds_merge {other next : Bank} (hcaches : EmptyCaches bank)
    (h : bank.merge other = some next) :
    BankAdds (fun bmp pfn => ∃ range ∈ other.ranges, Merges range.bmp bmp pfn) bank next := by
  obtain ⟨ranges, hranges, h⟩ := Option.bind_eq_some_iff.mp h
  cases h
  refine ⟨rfl, matches_mapM ?_ hranges⟩
  intro range hrange range' heq
  exact adds_merges (hcaches range hrange) heq

theorem overlay_id {extents : List Extent} {next : Bank} (h : bank.overlay extents = some next) :
    next.id = bank.id := by
  induction extents generalizing bank with
  | nil =>
    cases h
    rfl
  | cons extent extents ih =>
    obtain ⟨middle, hmiddle, h⟩ := Option.bind_eq_some_iff.mp h
    obtain ⟨ranges, -, hmiddle⟩ := Option.bind_eq_some_iff.mp hmiddle
    cases hmiddle
    have hid := ih h
    exact hid

theorem getBank_mapM {f : Bank → Option Bank} (hf : ∀ bank next,
    f bank = some next → next.id = bank.id)
    {banks banks' : List Bank} (h : banks.mapM f = some banks') (id : Nat) :
    getBank banks' id = (getBank banks id).bind f := by
  induction banks generalizing banks' with
  | nil =>
    obtain rfl : [] = banks' := by simpa using h
    rfl
  | cons bank banks ih =>
    rw [mapM_cons] at h
    obtain ⟨next, hnext, h⟩ := Option.bind_eq_some_iff.mp h
    obtain ⟨rest, hrest, h⟩ := Option.bind_eq_some_iff.mp h
    cases h
    have hid := hf bank next hnext
    have hih := ih hrest
    unfold getBank at hih ⊢
    rw [find?_cons, find?_cons, hid]
    rcases eq_or_ne bank.id id with heq | hne
    · simp [heq, hnext]
    · simp [hne, hih]

end

section

variable {allocs : Nat → Bool}

def FreshBanks (progress : Progress) : Prop :=
  ∀ bank ∈ progress.banks, bank.id ≠ kspaceBankId → EmptyCaches bank

variable {progress : Progress}

theorem FreshBanks.createBank (h : FreshBanks progress) (id : Nat) :
    FreshBanks (createBank allocs progress id).2 := by
  unfold PmemInit.createBank
  split
  · intro bank hbank hid
    rcases mem_cons.mp hbank with rfl | hbank
    · simp [EmptyCaches]
    · exact h bank (mem_filter.mp hbank).1 hid
  · exact h

theorem newRange_frameCache {baseAddr size : Nat} {range : Range}
    (h : newRange baseAddr size = some range) : range.frameCache = [] := by
  unfold newRange at h
  split at h
  · cases h
    rfl
  · contradiction

theorem FreshBanks.addMemoryRange (h : FreshBanks progress) (id baseAddr size : Nat) :
    FreshBanks (addMemoryRange allocs progress id baseAddr size) := by
  unfold PmemInit.addMemoryRange
  split
  · split
    · rename_i range hrange
      intro bank hbank hid
      obtain ⟨bank', hbank', rfl⟩ := mem_map.mp hbank
      split at hid
      · rename_i heq
        rw [if_pos heq]
        intro range' hrange'
        rcases mem_cons.mp hrange' with rfl | hrange'
        · exact newRange_frameCache hrange
        · exact h bank' hbank' hid range' hrange'
      · rename_i hne
        rw [if_neg hne]
        exact h bank' hbank' hid
    · split <;> exact h
  · exact h

theorem FreshBanks.foldl {f : Progress → NumaMemoryMapEntry → Progress}
    (hf : ∀ progress entry, FreshBanks progress → FreshBanks (f progress entry))
    (map : List NumaMemoryMapEntry) (h : FreshBanks progress) :
    FreshBanks (map.foldl f progress) := by
  induction map generalizing progress with
  | nil => exact h
  | cons entry map ih => exact ih (hf progress entry h)

theorem FreshBanks.generateShbankFromNumaMap (memSize : Nat) (map : List NumaMemoryMapEntry)
    (h : FreshBanks progress) :
    FreshBanks (generateShbankFromNumaMap allocs memSize map progress) := by
  induction map generalizing progress with
  | nil => exact h
  | cons entry map ih =>
    cases map with
    | nil => exact h
    | cons next map =>
      have hhole : ∀ tmpBase tmpSize, FreshBanks (if 0 < tmpSize then
          PmemInit.addMemoryRange allocs progress shbankId tmpBase tmpSize else progress) := by
        intro tmpBase tmpSize
        split
        · exact h.addMemoryRange _ _ _
        · exact h
      unfold PmemInit.generateShbankFromNumaMap
      dsimp only
      split
      · exact h
      split
      · exact h
      · split
        · exact h
        · exact ih (hhole _ _)

theorem freshBanks_generateBanks (allocs : Nat → Bool) (chipset : Chipset) (kspace : List Range) :
    FreshBanks (generateBanks allocs chipset kspace) := by
  have hstart : FreshBanks ⟨[⟨kspaceBankId, kspace⟩], false, 0⟩ := by
    intro bank hbank hid
    obtain rfl := mem_singleton.mp hbank
    exact absurd rfl hid
  have hnuma : FreshBanks (generateNumaMemoryRanges allocs (sortedNumaMap chipset)
      (spawnNumaStreams allocs (sortedNumaMap chipset) ⟨[⟨kspaceBankId, kspace⟩], false, 0⟩)) := by
    refine FreshBanks.foldl ?_ _ (FreshBanks.foldl ?_ _ hstart)
    · intro progress entry hprogress
      split
      · exact hprogress.addMemoryRange _ _ _
      · exact hprogress
    · intro progress entry hprogress
      split
      · exact hprogress
      · exact hprogress.createBank _
  unfold generateBanks
  dsimp only
  split
  · exact hnuma
  split
  · exact hnuma
  have hcreated : FreshBanks (createBank allocs _ shbankId).2 := hnuma.createBank shbankId
  split
  · rename_i hcreate
    rw [hcreate] at hcreated
    exact hcreated
  rename_i hcreate
  rw [hcreate] at hcreated
  split
  · exact hcreated.generateShbankFromNumaMap _ _
  · exact hcreated.addMemoryRange _ _ _

end

section

/-- The `__kspace` bank that the other banks are merged with. -/
def kspaceAtMerge (allocs : Nat → Bool) (chipset : Chipset) (kspace : List Range) : Option Bank :=
  (getBank (generateBanks allocs chipset kspace).banks kspaceBankId).bind
    (Bank.overlay chipset.unusable)

/-- What is not to be handed out: the frames that share a byte with an entry of the memory map
that is not usable or with one of the region map, and those that `__kspace` has in use. -/
def Reserved (chipset : Chipset) (kspaceBank : Bank) (pfn : Nat) : Prop :=
  (∃ extent ∈ chipset.unusable ++ chipset.regions, Touches extent pfn) ∨
    ∃ range ∈ kspaceBank.ranges, range.bmp.HasFrame pfn ∧ range.bmp.testFrame pfn = true

def Safe (chipset : Chipset) (kspaceBank : Bank) (banks : List Bank) : Prop :=
  ∀ bank ∈ banks, ∀ range ∈ bank.ranges, ∀ pfn, range.bmp.HasFrame pfn →
    Reserved chipset kspaceBank pfn → range.bmp.testFrame pfn = true

/-- The reserved frames that are not marked for the reason that they are reserved for: those
of an extent that the range is not found to intersect, the last one of an extent that has one
more frame than pages, and the last one that the range or `__kspace` has. -/
def Missed (chipset : Chipset) (kspaceBank : Bank) (range : Range) (pfn : Nat) : Prop :=
  (∃ extent ∈ chipset.unusable ++ chipset.regions, Touches extent pfn ∧
    (identifies range.bmp extent.baseAddr (bytesToPages extent.size) = false ∨
      pfn = extent.baseAddr / pagingBaseSize + bytesToPages extent.size)) ∨
  ∃ other ∈ kspaceBank.ranges, other.bmp.HasFrame pfn ∧ other.bmp.testFrame pfn = true ∧
    (pfn = range.bmp.endPfn ∨ pfn = other.bmp.endPfn)

def Marked (chipset : Chipset) (kspaceBank : Bank) (range : Range) (pfn : Nat) : Prop :=
  range.bmp.testFrame pfn = true ∨
    (∃ extent ∈ chipset.unusable ++ chipset.regions, Marks extent range.bmp pfn) ∨
    ∃ other ∈ kspaceBank.ranges, Merges other.bmp range.bmp pfn

theorem size_le_bytesToPages (bytes : Nat) : bytes ≤ bytesToPages bytes * pagingBaseSize := by
  unfold bytesToPages
  have hzero : bytes % pagingBaseSize = 0 ∨ (if bytes % pagingBaseSize ≠ 0 then 1 else 0) = 1 := by
    split <;> simp_all
  simp only [pagingBaseSize] at *
  omega

variable {pfn : Nat} {chipset : Chipset} {kspaceBank : Bank} {range : Range}

theorem Touches.bounds {extent : Extent} (h : Touches extent pfn) :
    extent.baseAddr / pagingBaseSize ≤ pfn ∧
      pfn ≤ extent.baseAddr / pagingBaseSize + bytesToPages extent.size := by
  obtain ⟨byte, hle, hlt, rfl⟩ := h
  have hsize := size_le_bytesToPages extent.size
  refine ⟨Nat.div_le_div_right hle, ?_⟩
  rw [← add_mul_div_right _ _ (by decide : 0 < pagingBaseSize)]
  exact Nat.div_le_div_right (by omega)

theorem missed_or_marked (hpfn : range.bmp.HasFrame pfn) (h : Reserved chipset kspaceBank pfn) :
    Missed chipset kspaceBank range pfn ∨ Marked chipset kspaceBank range pfn := by
  rcases h with ⟨extent, hextent, htouches⟩ | ⟨other, hother, hother', htest⟩
  · obtain ⟨hle, hle'⟩ := htouches.bounds
    rcases eq_or_lt_of_le hle' with heq | hlt
    · exact .inl (.inl ⟨extent, hextent, htouches, .inr heq⟩)
    · cases hid : identifies range.bmp extent.baseAddr (bytesToPages extent.size) with
      | false => exact .inl (.inl ⟨extent, hextent, htouches, .inl hid⟩)
      | true => exact .inr (.inr (.inl ⟨extent, hextent, hid, hle, hlt⟩))
  · rcases eq_or_lt_of_le hpfn.2 with heq | hlt
    · exact .inl (.inr ⟨other, hother, hother', htest, .inl heq⟩)
    · rcases eq_or_lt_of_le hother'.2 with heq | hlt'
      · exact .inl (.inr ⟨other, hother, hother', htest, .inr heq⟩)
      · exact .inr (.inr (.inr ⟨other, hother, hother'.1, hlt, hlt', htest⟩))

theorem Missed.reserved (h : Missed chipset kspaceBank range pfn) :
    Reserved chipset kspaceBank pfn := by
  rcases h with ⟨extent, hextent, htouches, -⟩ | ⟨other, hother, hother', htest, -⟩
  · exact .inl ⟨extent, hextent, htouches⟩
  · exact .inr ⟨other, hother, hother', htest⟩

/-- The banks but `__kspace` have some more frames marked. -/
def BanksAdd (P : MemoryBmp → Nat → Prop) (before after : Bank) : Prop :=
  after.id = before.id ∧ (before.id ≠ kspaceBankId → BankAdds P before after)

theorem BanksAdd.trans {P Q : MemoryBmp → Nat → Prop} {before middle after : Bank}
    (hplaced : Placed Q) (h : BanksAdd P before middle)
    (h' : after.id = middle.id ∧ (middle.id ≠ kspaceBankId → EmptyCaches middle →
      BankAdds Q middle after)) :
    BanksAdd (fun bmp pfn => P bmp pfn ∨ Q bmp pfn) before after := by
  refine ⟨h'.1.trans h.1, ?_⟩
  intro hid
  have hfirst := h.2 hid
  exact hfirst.trans hplaced (h'.2 (h.1 ▸ hid) hfirst.emptyCaches)

def Added (chipset : Chipset) (kspaceBank : Bank) (bmp : MemoryBmp) (pfn : Nat) : Prop :=
  ((∃ extent ∈ chipset.unusable, Marks extent bmp pfn) ∨
    ∃ other ∈ kspaceBank.ranges, Merges other.bmp bmp pfn) ∨
  ∃ extent ∈ chipset.regions, Marks extent bmp pfn

theorem marked_iff : Marked chipset kspaceBank range pfn ↔
      range.bmp.testFrame pfn = true ∨ Added chipset kspaceBank range.bmp pfn := by
  simp only [Marked, Added, mem_append, or_and_right, exists_or]
  exact or_congr_right or_right_comm

theorem matches_pmemInit {allocs : Nat → Bool} {kspace : List Range} {banks : List Bank}
    (hkspace : kspaceAtMerge allocs chipset kspace = some kspaceBank)
    (h : pmemInit allocs chipset kspace = some banks) :
    Matches (BankAdds (Added chipset kspaceBank))
      ((generateBanks allocs chipset kspace).banks.filter fun bank =>
        decide (bank.id ≠ kspaceBankId)) banks := by
  obtain ⟨overlaid, hoverlaid, h⟩ := Option.bind_eq_some_iff.mp h
  obtain ⟨kspaceBank', hkspace', h⟩ := Option.bind_eq_some_iff.mp h
  obtain ⟨merged, hmerged, h⟩ := Option.bind_eq_some_iff.mp h
  obtain ⟨last, hlast, h⟩ := Option.bind_eq_some_iff.mp h
  obtain rfl : kspaceBank' = kspaceBank := by
    rw [getBank_mapM (fun bank next => overlay_id) hoverlaid] at hkspace'
    exact Option.some.inj (hkspace'.symm.trans hkspace)
  have hfirst : Matches (BanksAdd fun bmp pfn => ∃ extent ∈ chipset.unusable, Marks extent bmp pfn)
      (generateBanks allocs chipset kspace).banks overlaid := by
    refine matches_mapM ?_ hoverlaid
    intro bank hbank next hnext
    exact ⟨overlay_id hnext, fun hid => bankAdds_overlay
      (freshBanks_generateBanks allocs chipset kspace bank hbank hid) hnext⟩
  have hsecond : Matches (fun bank next : Bank => next.id = bank.id ∧
      (bank.id ≠ kspaceBankId → EmptyCaches bank →
        BankAdds (fun bmp pfn => ∃ other ∈ kspaceBank'.ranges, Merges other.bmp bmp pfn)
          bank next)) overlaid merged := by
    refine matches_mapM ?_ hmerged
    intro bank hbank next hnext
    rcases eq_or_ne bank.id kspaceBankId with heq | hne
    · rw [if_pos heq] at hnext
      cases hnext
      exact ⟨rfl, fun hid => absurd heq hid⟩
    · rw [if_neg hne] at hnext
      obtain ⟨ranges, -, hid⟩ := Option.bind_eq_some_iff.mp hnext
      cases hid
      exact ⟨rfl, fun _ hcaches => bankAdds_merge hcaches hnext⟩
  have hthird : Matches (fun bank next : Bank => next.id = bank.id ∧
      (bank.id ≠ kspaceBankId → EmptyCaches bank →
        BankAdds (fun bmp pfn => ∃ extent ∈ chipset.regions, Marks extent bmp pfn) bank next))
      merged last := by
    refine matches_mapM ?_ hlast
    intro bank hbank next hnext
    exact ⟨overlay_id hnext, fun _ hcaches => bankAdds_overlay hcaches hnext⟩
  have hall : Matches (BanksAdd (Added chipset kspaceBank'))
      (generateBanks allocs chipset kspace).banks last :=
    (hfirst.trans (fun _ _ _ _ _ h h' => h.trans (placed_exists_merges _) h') hsecond).trans
      (fun _ _ _ _ _ h h' => h.trans (placed_exists_marks _) h') hthird
  split at h
  · cases h
    constructor
    · intro bank hbank
      obtain ⟨hbank, hid⟩ := mem_filter.mp hbank
      obtain ⟨next, hnext, hsame, hadds⟩ := hall.1 bank hbank
      refine ⟨next, mem_filter.mpr ⟨hnext, ?_⟩, hadds (of_decide_eq_true hid)⟩
      rw [hsame]
      exact hid
    · intro next hnext
      obtain ⟨hnext, hid⟩ := mem_filter.mp hnext
      obtain ⟨bank, hbank, hsame, hadds⟩ := hall.2 next hnext
      rw [hsame] at hid
      exact ⟨bank, mem_filter.mpr ⟨hbank, hid⟩, hadds (of_decide_eq_true hid)⟩
  · contradiction

/-- `pmemInit` leaves no reserved frame free exactly when every frame that is missed for one
reason is marked for another. -/
theorem safe_iff (allocs : Nat → Bool) (chipset : Chipset) (kspace : List Range)
    (kspaceBank : Bank) (banks : List Bank)
    (hkspace : kspaceAtMerge allocs chipset kspace = some kspaceBank)
    (h : pmemInit allocs chipset kspace = some banks) : Safe chipset kspaceBank banks ↔
      ∀ bank ∈ (generateBanks allocs chipset kspace).banks, bank.id ≠ kspaceBankId →
        ∀ range ∈ bank.ranges, ∀ pfn, range.bmp.HasFrame pfn →
          Missed chipset kspaceBank range pfn → Marked chipset kspaceBank range pfn := by
  obtain ⟨hforth, hback⟩ := matches_pmemInit hkspace h
  constructor
  · intro hsafe bank hbank hid range hrange pfn hpfn hmissed
    obtain ⟨next, hnext, hadds⟩ :=
      hforth bank (mem_filter.mpr ⟨hbank, decide_eq_true hid⟩)
    obtain ⟨range', hrange', hadd⟩ := hadds.2.1 range hrange
    have hpfn' := (NumaMemoryRange.hasFrame_congr hadd.baseAddr_eq hadd.endAddr_eq).mpr hpfn
    exact marked_iff.mpr ((hadd.testFrame_iff pfn hpfn).mp
      (hsafe next hnext range' hrange' pfn hpfn' hmissed.reserved))
  · intro hcovered next hnext range' hrange' pfn hpfn hreserved
    obtain ⟨bank, hbank, hadds⟩ := hback next hnext
    obtain ⟨hbank, hid⟩ := mem_filter.mp hbank
    obtain ⟨range, hrange, hadd⟩ := hadds.2.2 range' hrange'
    have hpfn' := (NumaMemoryRange.hasFrame_congr hadd.baseAddr_eq hadd.endAddr_eq).mp hpfn
    refine (hadd.testFrame_iff pfn hpfn').mpr (marked_iff.mp ?_)
    rcases missed_or_marked hpfn' hreserved with hmissed | hmarked
    · exact hcovered bank hbank (of_decide_eq_true hid) range hrange pfn hpfn' hmissed
    · exact hmarked

end

def firmwarePages : Chipset where
  numaMap := none
  memoryConfig := some ⟨0, 0x10000, wordModulus_pos, by decide⟩
  memoryMap := some [⟨⟨0x2000, 0x2000, by decide, by decide⟩, .firmware⟩]
  regionMap := none

/-- A `__kspace` of two pages that has nothing in use. -/
def smallKspace : List Range :=
  [initialRange (MemoryBmp.initialBmp 0x8000 0x9FFF (by decide) (by decide))]

def wholeMemory : Range :=
  initialRange (MemoryBmp.initialBmp 0 0xFFFF (by decide) (by decide))

theorem generateBanks_firmwarePages :
    (generateBanks (fun _ => true) firmwarePages smallKspace).banks =
      [⟨shbankId, [wholeMemory]⟩, ⟨kspaceBankId, smallKspace⟩] := by
  rfl

theorem kspaceAtMerge_firmwarePages :
    kspaceAtMerge (fun _ => true) firmwarePages smallKspace = some ⟨kspaceBankId, smallKspace⟩ := by
  rfl

theorem safe_iff_firmwarePages :
    ∃ banks, pmemInit (fun _ => true) firmwarePages smallKspace = some banks ∧
      banks.length = 1 ∧ Safe firmwarePages ⟨kspaceBankId, smallKspace⟩ banks := by
  have hrun : ((pmemInit (fun _ => true) firmwarePages smallKspace).any fun banks =>
      decide (banks.length = 1)) = true := by decide +kernel
  obtain ⟨banks, hbanks, hlength⟩ := (Option.any_eq_true _ _).mp hrun
  refine ⟨banks, hbanks, of_decide_eq_true hlength, ?_⟩
  refine (safe_iff _ _ _ _ _ kspaceAtMerge_firmwarePages hbanks).mpr ?_
  intro bank hbank hid range hrange pfn hpfn hmissed
  obtain rfl : bank = ⟨shbankId, [wholeMemory]⟩ := by
    rcases mem_cons.mp hbank with rfl | hbank
    · rfl
    · obtain rfl := mem_singleton.mp hbank
      exact absurd rfl hid
  obtain rfl := mem_singleton.mp hrange
  rcases hmissed with ⟨extent, hextent, htouches, hcases⟩ | ⟨other, hother, hother', htest, -⟩
  · obtain rfl := mem_singleton.mp hextent
    rcases hcases with hunidentified | hlast
    · exact absurd hunidentified (by decide)
    · obtain ⟨byte, -, hlt, hbyte⟩ := htouches
      have hpages : bytesToPages 0x2000 = 2 := by decide
      simp only [hpages, pagingBaseSize] at hlt hbyte hlast
      omega
  · obtain rfl := mem_singleton.mp hother
    simp [initialRange, MemoryBmp.initialBmp, MemoryBmp.testFrame, pagingBaseSize] at htest

def firmwareAcross : Chipset where
  numaMap := none
  memoryConfig := some ⟨0, 0x10000, wordModulus_pos, by decide⟩
  memoryMap := some [⟨⟨0x2800, 0x1000, by decide, by decide⟩, .firmware⟩]
  regionMap := none

theorem firmwareAcross_free : ¬ ∀ allocs chipset kspace kspaceBank banks,
      kspaceAtMerge allocs chipset kspace = some kspaceBank →
        pmemInit allocs chipset kspace = some banks → Safe chipset kspaceBank banks := by
  intro hclaim
  have hkspace : (kspaceAtMerge (fun _ => true) firmwareAcross smallKspace).isSome = true := by
    decide +kernel
  have hrun : ((pmemInit (fun _ => true) firmwareAcross smallKspace).any fun banks =>
      banks.any fun bank => bank.ranges.any fun range =>
        decide (range.bmp.basePfn ≤ 3 ∧ 3 ≤ range.bmp.endPfn) && !range.bmp.testFrame 3) =
          true := by decide +kernel
  obtain ⟨kspaceBank, hkspaceBank⟩ := Option.isSome_iff_exists.mp hkspace
  obtain ⟨banks, hbanks, hany⟩ := (Option.any_eq_true _ _).mp hrun
  obtain ⟨bank, hbank, hany⟩ := any_eq_true.mp hany
  obtain ⟨range, hrange, hany⟩ := any_eq_true.mp hany
  obtain ⟨hframe, hfree⟩ := Bool.and_eq_true_iff.mp hany
  have hreserved : Reserved firmwareAcross kspaceBank 3 :=
    .inl ⟨⟨0x2800, 0x1000, by decide, by decide⟩, by decide, 0x3000, by decide⟩
  have hframe' : range.bmp.basePfn ≤ 3 ∧ 3 ≤ range.bmp.endPfn := of_decide_eq_true hframe
  have hused := hclaim _ _ _ kspaceBank banks hkspaceBank hbanks bank hbank range hrange 3
    hframe' hreserved
  rw [hused] at hfree
  contradiction

end Zambesii.PmemInit
