import Zambesii.MemAllocUnwind
import Zambesii.MemoryBmpFrames
import Zambesii.NumaMemoryRange

/-!
`MemoryTrib::rawMemAlloc`: pages of the kernel that are backed at once. Its loop asks the memory
banks for frames until it has them all; that there are none it is told by a status that is not
positive, and asks again.
-/

namespace Zambesii.RawMemAlloc

open ConstrainedGetFrames (Element)
open KernelTypes List Nat
open LinkedCells (Ptr)
open MemAllocUnwind (Maps)
open MemoryStream (PageMap)
open NumaMemoryRange (Answer Range)
open PageAttributes
open Tiling (cover)
open VSwamp (SwampConfig pageSpan)
open VaddrSpaceReturn (FindsRange Free getPages_cases)
open VaddrSpaceStream (SwampHolds singles)

def errorMemoryNomemPhysical : Int := -22

/-- A status, which is the number of frames when it is positive, and the first of the frames. -/
structure Reply where
  status : Int
  frame : Nat
deriving DecidableEq

def nomemPhysical : Reply := ⟨errorMemoryNomemPhysical, 0⟩

/-- A `NumaMemoryRange`. Its cache holds physical addresses. -/
structure MemoryRange where
  range : Range
  cache_lt : ∀ frameAddr ∈ range.frameCache, frameAddr < wordModulus

def replyOf : Answer → Reply
  | .frames (element :: _) => ⟨element.nFrames, element.startPfn⟩
  | .frames [] => ⟨0, 0⟩
  | .status _ => nomemPhysical

theorem frameCache_fragmentedGetFrames (range : Range) (nFrames : Nat) :
    (NumaMemoryRange.fragmentedGetFrames range nFrames).2.frameCache = range.frameCache.tail := by
  unfold NumaMemoryRange.fragmentedGetFrames
  split
  · rename_i hcache
    simp [hcache]
  · rename_i hcache
    split <;> simp [hcache]

def MemoryRange.fragmentedGetFrames (range : MemoryRange) (nFrames : Nat) : Reply × MemoryRange :=
  (replyOf (NumaMemoryRange.fragmentedGetFrames range.range nFrames).1,
    { range := (NumaMemoryRange.fragmentedGetFrames range.range nFrames).2
      cache_lt := fun frameAddr hframeAddr => range.cache_lt frameAddr (List.mem_of_mem_tail
        (frameCache_fragmentedGetFrames range.range nFrames ▸ hframeAddr)) })

def Serves (nFrames : Nat) (reply : Reply) : Prop :=
  ∃ count : Nat, reply.status = count ∧ 0 < count ∧ count ≤ nFrames ∧
    (reply.frame + count) * pagingBaseSize ≤ wordModulus

theorem Serves.status_pos {nFrames : Nat} {reply : Reply} (h : Serves nFrames reply) :
    0 < reply.status := by
  obtain ⟨count, hstatus, hpos, -⟩ := h
  omega

theorem bmp_fragmentedGetFrames_cases (bmp : MemoryBmp) {nFrames : Nat} (hpos : 0 < nFrames) :
    (∃ start count bmp', bmp.fragmentedGetFrames nFrames =
        (.ok (some ((bmp.basePfn + start) * pagingBaseSize, count)), bmp') ∧
      0 < count ∧ count ≤ nFrames ∧ start + count ≤ bmp.bmpNFrames ∧ bmp.bits start = false) ∨
    bmp.fragmentedGetFrames nFrames = (.error .memoryNomemPhysical, bmp) := by
  unfold MemoryBmp.fragmentedGetFrames
  rw [if_neg (by omega)]
  dsimp only
  split
  · exact .inr rfl
  rename_i start count hfound
  obtain ⟨hmin, hmax, -, -, start', hstart, hend, hunset, -⟩ :=
    MemoryBmpFrames.exact_of_flatSearch hpos 0 hfound
  obtain rfl : start = start' :=
    add_left_cancel (eq_of_mul_eq_mul_right (by decide) hstart)
  exact .inl ⟨start, count, _, rfl, hmin, hmax, hend, hunset start (le_refl _) (by omega)⟩

theorem range_fragmentedGetFrames_cases (range : Range) {nFrames : Nat} (hpos : 0 < nFrames)
    (hcache : ∀ frameAddr ∈ range.frameCache, frameAddr < wordModulus) :
    Serves nFrames (replyOf (NumaMemoryRange.fragmentedGetFrames range nFrames).1) ∨
      NumaMemoryRange.fragmentedGetFrames range nFrames =
        (.status .memoryNomemPhysical, range) := by
  unfold NumaMemoryRange.fragmentedGetFrames
  split
  · rename_i frameAddr rest hframes
    have hlt := hcache frameAddr (by simp [hframes])
    refine .inl ⟨1, rfl, one_pos, hpos, ?_⟩
    simp only [replyOf, pagingBaseSize, wordModulus] at hlt ⊢
    omega
  rename_i hframes
  rcases bmp_fragmentedGetFrames_cases range.bmp hpos with
    ⟨start, count, bmp', hbmp, hcount, hmax, hend, -⟩ | hbmp
  · rw [hbmp]
    refine .inl ⟨count, rfl, hcount, hmax, ?_⟩
    have hlt := range.bmp.endPfn_lt
    have hle := range.bmp.basePfn_le_endPfn
    simp only [replyOf, MemoryBmp.bmpNFrames, wordModulus] at hend ⊢
    simp only [pagingBaseSize]
    omega
  · rw [hbmp]
    exact .inr rfl

theorem MemoryRange.fragmentedGetFrames_cases (range : MemoryRange) {nFrames : Nat}
    (hpos : 0 < nFrames) : Serves nFrames (range.fragmentedGetFrames nFrames).1 ∨
      range.fragmentedGetFrames nFrames = (nomemPhysical, range) := by
  rcases range_fragmentedGetFrames_cases range.range hpos range.cache_lt with hserves | hfails
  · exact .inl hserves
  · refine .inr ?_
    unfold MemoryRange.fragmentedGetFrames
    obtain ⟨range, hcache⟩ := range
    simp only [hfails, replyOf]

/-- `NumaMemoryBank`: its ranges and the position of the default one. -/
structure Bank where
  id : Nat
  ranges : List MemoryRange
  defRange : Option Nat

def Bank.withDefRange (bank : Bank) : Bank :=
  match bank.defRange, bank.ranges with
  | none, _ :: _ => { bank with defRange := some 0 }
  | _, _ => bank

/-- The loop over the ranges other than the default one; `i` is the position of the first. -/
def scanRanges (nFrames defRange : Nat) :
    (i : Nat) → List MemoryRange → Option (Reply × Nat) × List MemoryRange
  | _, [] => (none, [])
  | i, range :: rest =>
    if i = defRange then
      let (found, rest) := scanRanges nFrames defRange (i + 1) rest
      (found, range :: rest)
    else
      let (ret, range) := range.fragmentedGetFrames nFrames
      if 0 < ret.status then (some (ret, i), range :: rest)
      else
        let (found, rest) := scanRanges nFrames defRange (i + 1) rest
        (found, range :: rest)

/-- `NumaMemoryBank::fragmentedGetFrames`, when the default range is known. -/
def Bank.getFromRanges (bank : Bank) (nFrames : Nat) : Reply × Bank :=
  match bank.defRange with
  | none => (nomemPhysical, bank)
  | some defRange =>
    match bank.ranges[defRange]? with
    | none => (nomemPhysical, bank)
    | some range =>
      let (ret, range) := range.fragmentedGetFrames nFrames
      let bank := { bank with ranges := bank.ranges.set defRange range }
      if 0 < ret.status then (ret, bank)
      else
        match scanRanges nFrames defRange 0 bank.ranges with
        | (some (ret, cur), ranges) => (ret, { bank with ranges := ranges, defRange := some cur })
        | (none, ranges) => (nomemPhysical, { bank with ranges := ranges })

def Bank.fragmentedGetFrames (bank : Bank) (nFrames : Nat) : Reply × Bank :=
  bank.withDefRange.getFromRanges nFrames

theorem scanRanges_cases {nFrames : Nat} (hpos : 0 < nFrames) (defRange i : Nat)
    (ranges : List MemoryRange) :
    (∃ ret cur ranges', scanRanges nFrames defRange i ranges = (some (ret, cur), ranges') ∧
      Serves nFrames ret) ∨ scanRanges nFrames defRange i ranges = (none, ranges) := by
  induction ranges generalizing i with
  | nil => exact .inr rfl
  | cons range rest ih =>
    rw [scanRanges]
    split
    · rcases ih (i + 1) with ⟨ret, cur, rest', hrest, hserves⟩ | hrest
      · exact .inl ⟨ret, cur, range :: rest', by rw [hrest], hserves⟩
      · exact .inr (by rw [hrest])
    rcases range.fragmentedGetFrames_cases hpos with hserves | hfails
    · rcases hget : range.fragmentedGetFrames nFrames with ⟨ret, range'⟩
      rw [hget] at hserves
      dsimp only
      rw [if_pos hserves.status_pos]
      exact .inl ⟨ret, i, range' :: rest, rfl, hserves⟩
    · simp only [hfails]
      rw [if_neg (by decide)]
      rcases ih (i + 1) with ⟨ret, cur, rest', hrest, hserves⟩ | hrest
      · exact .inl ⟨ret, cur, range :: rest', by rw [hrest], hserves⟩
      · exact .inr (by rw [hrest])

theorem Bank.withDefRange_withDefRange (bank : Bank) :
    bank.withDefRange.withDefRange = bank.withDefRange := by
  obtain ⟨id, ranges, defRange⟩ := bank
  cases defRange with
  | some defRange => rfl
  | none => cases ranges <;> rfl

theorem Bank.getFromRanges_cases (bank : Bank) {nFrames : Nat} (hpos : 0 < nFrames) :
    Serves nFrames (bank.getFromRanges nFrames).1 ∨
      bank.getFromRanges nFrames = (nomemPhysical, bank) := by
  obtain ⟨id, ranges, defRange⟩ := bank
  cases defRange with
  | none => exact .inr rfl
  | some defRange =>
    unfold Bank.getFromRanges
    dsimp only
    cases hrange : ranges[defRange]? with
    | none => exact .inr rfl
    | some range =>
      dsimp only
      rcases range.fragmentedGetFrames_cases hpos with hserves | hfails
      · rw [if_pos hserves.status_pos]
        exact .inl hserves
      have hset : ranges.set defRange range = ranges := by
        obtain ⟨hlt, hget⟩ := List.getElem?_eq_some_iff.mp hrange
        rw [← hget, List.set_getElem_self]
      rw [hfails]
      dsimp only
      rw [if_neg (by decide), hset]
      rcases scanRanges_cases hpos defRange 0 ranges with
        ⟨ret, cur, ranges', hscan, hserves⟩ | hscan
      · rw [hscan]
        exact .inl hserves
      · rw [hscan]
        exact .inr rfl

theorem Bank.fragmentedGetFrames_cases (bank : Bank) {nFrames : Nat} (hpos : 0 < nFrames) :
    Serves nFrames (bank.fragmentedGetFrames nFrames).1 ∨
      bank.fragmentedGetFrames nFrames = (nomemPhysical, bank.withDefRange) ∧
        bank.withDefRange.fragmentedGetFrames nFrames = (nomemPhysical, bank.withDefRange) := by
  rcases bank.withDefRange.getFromRanges_cases hpos with hserves | hfails
  · exact .inl hserves
  · refine .inr ⟨hfails, ?_⟩
    rw [Bank.fragmentedGetFrames, Bank.withDefRange_withDefRange]
    exact hfails

/-- The banks, and the `defaultMemoryBank` of the thread. -/
structure Memory where
  banks : List Bank
  defaultMemoryBank : Nat

def Memory.getFromDefault (memory : Memory) (nPages : Nat) : Reply × Memory :=
  match memory.banks.findIdx? fun bank => decide (bank.id = memory.defaultMemoryBank) with
  | none => (nomemPhysical, memory)
  | some i =>
    match memory.banks[i]? with
    | none => (nomemPhysical, memory)
    | some bank =>
      let (ret, bank) := bank.fragmentedGetFrames nPages
      (ret, { memory with banks := memory.banks.set i bank })

/-- The loop over the banks: what the first one that has frames returns, and its identifier. -/
def scanBanks (nPages : Nat) : List Bank → Option (Reply × Nat) × List Bank
  | [] => (none, [])
  | bank :: rest =>
    let (ret, next) := bank.fragmentedGetFrames nPages
    if 0 ≤ ret.status then (some (ret, bank.id), next :: rest)
    else
      let (found, rest) := scanBanks nPages rest
      (found, next :: rest)

/-- `MemoryTrib::fragmentedGetFrames`: no frames are reported as the status 0. -/
def Memory.fragmentedGetFrames (memory : Memory) (nPages : Nat) : Reply × Memory :=
  let (ret, memory) := memory.getFromDefault nPages
  if 0 ≤ ret.status then (ret, memory)
  else
    match scanBanks nPages memory.banks with
    | (some (ret, cursor), banks) => (ret, ⟨banks, cursor⟩)
    | (none, banks) => (⟨0, 0⟩, { memory with banks := banks })

def Barren (nPages : Nat) (bank : Bank) : Prop :=
  bank.fragmentedGetFrames nPages = (nomemPhysical, bank.withDefRange) ∧
    bank.withDefRange.fragmentedGetFrames nPages = (nomemPhysical, bank.withDefRange)

theorem Barren.withDefRange {nPages : Nat} {bank : Bank} (h : Barren nPages bank) :
    Barren nPages bank.withDefRange := by
  rw [Barren, bank.withDefRange_withDefRange]
  exact ⟨h.2, h.2⟩

theorem scanBanks_cases {nPages : Nat} (hpos : 0 < nPages) (banks : List Bank) :
    (∃ ret cursor banks', scanBanks nPages banks = (some (ret, cursor), banks') ∧
      Serves nPages ret) ∨ ∀ bank ∈ banks, Barren nPages bank := by
  induction banks with
  | nil => exact .inr (by simp)
  | cons bank rest ih =>
    rw [scanBanks]
    rcases bank.fragmentedGetFrames_cases hpos with hserves | hbarren
    · rcases hget : bank.fragmentedGetFrames nPages with ⟨ret, next⟩
      rw [hget] at hserves
      dsimp only
      rw [if_pos hserves.status_pos.le]
      exact .inl ⟨ret, bank.id, next :: rest, rfl, hserves⟩
    rw [hbarren.1]
    dsimp only
    rw [if_neg (by decide)]
    rcases ih with ⟨ret, cursor, banks', hscan, hserves⟩ | hrest
    · exact .inl ⟨ret, cursor, bank.withDefRange :: banks', by rw [hscan], hserves⟩
    refine .inr ?_
    intro other hother
    rcases mem_cons.mp hother with rfl | hother
    · exact hbarren
    · exact hrest other hother

theorem scanBanks_barren {nPages : Nat} {banks : List Bank}
    (h : ∀ bank ∈ banks, Barren nPages bank) :
    scanBanks nPages banks = (none, banks.map Bank.withDefRange) := by
  induction banks with
  | nil => rfl
  | cons bank rest ih =>
    rw [scanBanks, (h bank mem_cons_self).1]
    dsimp only
    rw [if_neg (by decide), ih fun other hother => h other (mem_cons_of_mem _ hother)]
    rfl

def NoFrames (nPages : Nat) (memory : Memory) : Prop :=
  ∀ bank ∈ memory.banks, Barren nPages bank

theorem Memory.getFromDefault_cases (memory : Memory) {nPages : Nat} (hpos : 0 < nPages) :
    Serves nPages (memory.getFromDefault nPages).1 ∨
      (memory.getFromDefault nPages).1 = nomemPhysical := by
  unfold Memory.getFromDefault
  split
  · exact .inr rfl
  split
  · exact .inr rfl
  rename_i i _ bank _
  rcases bank.fragmentedGetFrames_cases hpos with hserves | hbarren
  · exact .inl hserves
  · rw [hbarren.1]
    exact .inr rfl

theorem NoFrames.getFromDefault {memory : Memory} {nPages : Nat} (h : NoFrames nPages memory) :
    (memory.getFromDefault nPages).1 = nomemPhysical ∧
      NoFrames nPages (memory.getFromDefault nPages).2 := by
  unfold Memory.getFromDefault
  split
  · exact ⟨rfl, h⟩
  split
  · exact ⟨rfl, h⟩
  rename_i i _ bank hbank
  have hbarren := h bank (mem_of_getElem? hbank)
  rw [hbarren.1]
  refine ⟨rfl, ?_⟩
  intro other hother
  rcases mem_or_eq_of_mem_set hother with hother | rfl
  · exact h other hother
  · exact hbarren.withDefRange

theorem noFrames_withDefRange {nPages cursor : Nat} {banks : List Bank}
    (h : ∀ bank ∈ banks, Barren nPages bank) :
    NoFrames nPages ⟨banks.map Bank.withDefRange, cursor⟩ := by
  intro bank hbank
  obtain ⟨bank, hmem, rfl⟩ := mem_map.mp hbank
  exact (h bank hmem).withDefRange

theorem NoFrames.fragmentedGetFrames {memory : Memory} {nPages : Nat} (h : NoFrames nPages memory) :
    (memory.fragmentedGetFrames nPages).1 = ⟨0, 0⟩ ∧
      NoFrames nPages (memory.fragmentedGetFrames nPages).2 := by
  unfold Memory.fragmentedGetFrames
  rcases hdefault : memory.getFromDefault nPages with ⟨ret, next⟩
  have hfails := h.getFromDefault
  rw [hdefault] at hfails
  obtain ⟨rfl, hnext⟩ := hfails
  dsimp only
  rw [if_neg (by decide), scanBanks_barren hnext]
  exact ⟨rfl, noFrames_withDefRange hnext⟩

theorem Memory.fragmentedGetFrames_cases (memory : Memory) {nPages : Nat} (hpos : 0 < nPages) :
    Serves nPages (memory.fragmentedGetFrames nPages).1 ∨
      (memory.fragmentedGetFrames nPages).1 = ⟨0, 0⟩ ∧
        NoFrames nPages (memory.fragmentedGetFrames nPages).2 := by
  unfold Memory.fragmentedGetFrames
  rcases hdefault : memory.getFromDefault nPages with ⟨ret, next⟩
  have hcases := memory.getFromDefault_cases hpos
  rw [hdefault] at hcases
  dsimp only at hcases ⊢
  rcases hcases with hserves | rfl
  · rw [if_pos hserves.status_pos.le]
    exact .inl hserves
  rcases scanBanks_cases hpos next.banks with ⟨ret, cursor, banks, hscan, hserves⟩ | hbarren
  · rw [hscan]
    exact .inl hserves
  · rw [scanBanks_barren hbarren]
    exact .inr ⟨rfl, noFrames_withDefRange hbarren⟩

section

/-- What `mapInc` finds in its n-th call: the number of pages it has page tables for, and the
banks after it has taken frames for new tables out of them. The nodes are what the swamp gets for
its two releases. -/
structure Env where
  mapInc : (turn : Nat) → Memory → Nat × Memory
  newNode : Option Ptr
  newNode' : Option Ptr

def archFlags : Nat :=
  encodeFlags (pageAttribPresent ||| pageAttribWrite ||| pageAttribSupervisor)

/-- The result of `rawMemAlloc`, the range it took, the frames it fetched in their order, and
what it gave back: the frames it released and the ranges it returned. -/
structure Outcome where
  ret : Nat
  range : List (Nat × Nat)
  vaddrSpace : VaddrSpaceStream
  pages : PageMap
  fetched : List Nat
  released : List Nat
  returned : List (Nat × Nat)

/-- The loop of `rawMemFree`: the frames of the pages that were backed. -/
def unmapRange : (nPages page : Nat) → PageMap → List Nat × PageMap
  | 0, _, pages => ([], pages)
  | nPages + 1, page, pages =>
    let (backed, pages) := pages.unmap page
    let (released, pages) := unmapRange nPages (page + 1) pages
    (backed.toList ++ released, pages)

structure Progress where
  totalFrames : Nat
  turn : Nat
  pages : PageMap
  memory : Memory
  fetched : List Nat

variable (initSwampNode : Ptr) (env : Env) (stream : VaddrSpaceStream) (ret nPages : Nat)

/-- `rawMemAlloc` when `mapInc` has mapped `nMapped` pages in all: `rawMemFree` of these, and from
`returnFailure` on the release of the rest. -/
def returnFailure (nMapped : Nat) (pages : PageMap) (fetched : List Nat) : Option Outcome := do
  let (released, pages) := unmapRange nMapped (ret / pagingBaseSize) pages
  let stream ← VaddrSpaceStream.releasePages initSwampNode stream ret nMapped env.newNode
  let vaddr := ret + nMapped * pagingBaseSize
  let stream ← VaddrSpaceStream.releasePages initSwampNode stream vaddr (nPages - nMapped)
    env.newNode'
  some
    { ret := 0
      range := [(ret, nPages)]
      vaddrSpace := stream
      pages := pages
      fetched := fetched
      released := released
      returned := [(ret, nMapped), (vaddr, nPages - nMapped)] }

/-- The loop of `rawMemAlloc`, for at most `fuel` turns. -/
def fetchFrames : (fuel : Nat) → Progress → Option Outcome
  | 0, _ => none
  | fuel + 1, progress =>
    if nPages ≤ progress.totalFrames then
      some
        { ret := ret
          range := [(ret, nPages)]
          vaddrSpace := stream
          pages := progress.pages
          fetched := progress.fetched
          released := []
          returned := [] }
    else
      let (reply, memory) :=
        progress.memory.fragmentedGetFrames (nPages - progress.totalFrames)
      if 0 < reply.status then
        let nFetched := reply.status.toNat
        let (nTables, memory) := env.mapInc progress.turn memory
        let nMapped := min nTables nFetched
        let pages := progress.pages.mapInc (ret / pagingBaseSize + progress.totalFrames) nMapped
          (reply.frame * pagingBaseSize) archFlags
        let fetched := progress.fetched ++ List.range' reply.frame nFetched
        if nMapped < nFetched then
          returnFailure initSwampNode env stream ret nPages (progress.totalFrames + nMapped) pages
            fetched
        else
          fetchFrames fuel
            { totalFrames := progress.totalFrames + nFetched
              turn := progress.turn + 1
              pages := pages
              memory := memory
              fetched := fetched }
      else fetchFrames fuel { progress with memory := memory }

/-- `MemoryTrib::rawMemAlloc`; a null pointer is 0. -/
def rawMemAlloc (fuel : Nat) (pages : PageMap) (memory : Memory) : Option Outcome := do
  let (ret, next) ← VaddrSpaceStream.getPages initSwampNode stream nPages
  if ret = 0 then
    some
      { ret := 0
        range := []
        vaddrSpace := next
        pages := pages
        fetched := []
        released := []
        returned := [] }
  else fetchFrames initSwampNode env next ret nPages fuel ⟨0, 0, pages, memory, []⟩

end

def Backed (first nPages : Nat) (pages : PageMap) (fetched : List Nat) : Prop :=
  fetched.length = nPages ∧
    ∀ i frame, fetched[i]? = some frame → Maps pages (first + i) frame

/-- An address with all its pages backed, or a null pointer with every frame released, and the
range returned once and free again. -/
structure Sound (stream : VaddrSpaceStream) (nPages : Nat) (outcome : Outcome) : Prop where
  backed : outcome.ret ≠ 0 →
    Backed (outcome.ret / pagingBaseSize) nPages outcome.pages outcome.fetched
  released : outcome.ret = 0 →
    ∀ frame, outcome.fetched.count frame ≤ outcome.released.count frame
  returned : outcome.ret = 0 →
    cover (outcome.returned.map pageSpan) = cover (outcome.range.map pageSpan)
  free : outcome.ret = 0 → ∀ address, Free outcome.vaddrSpace address ↔ Free stream address

/-- The banks have frames for every request on the way to `nFrames` frames, and `mapInc` has
page tables for all of them. -/
inductive Lasts (env : Env) : (turn : Nat) → Memory → (nFrames : Nat) → Prop
  | done {turn : Nat} {memory : Memory} : Lasts env turn memory 0
  | fetch {turn nFrames : Nat} {memory : Memory} (hpos : 0 < nFrames) (count : Nat)
      (hstatus : (memory.fragmentedGetFrames nFrames).1.status = count) (hcount : 0 < count)
      (htables : count ≤ (env.mapInc turn (memory.fragmentedGetFrames nFrames).2).1)
      (hrest : Lasts env (turn + 1) (env.mapInc turn (memory.fragmentedGetFrames nFrames).2).2
        (nFrames - count)) : Lasts env turn memory nFrames

section

variable {initSwampNode : Ptr} {env : Env} {stream : VaddrSpaceStream} {ret nPages : Nat}

theorem length_unmapRange (nPages page : Nat) (pages : PageMap) :
    (unmapRange nPages page pages).1.length ≤ nPages := by
  induction nPages generalizing page pages with
  | zero => exact le_refl _
  | succ nPages ih =>
    rw [unmapRange]
    have hrest := ih (page + 1) (pages.unmap page).2
    rw [length_append]
    have hone : (pages.unmap page).1.toList.length ≤ 1 := by cases (pages.unmap page).1 <;> simp
    omega

theorem not_sound_returnFailure {nMapped : Nat} {pages : PageMap} {fetched : List Nat}
    {start : VaddrSpaceStream} {outcome : Outcome} (hlt : nMapped < fetched.length)
    (h : returnFailure initSwampNode env stream ret nPages nMapped pages fetched = some outcome) :
    ¬ Sound start nPages outcome := by
  obtain ⟨middle, -, h⟩ := Option.bind_eq_some_iff.mp h
  obtain ⟨last, -, h⟩ := Option.bind_eq_some_iff.mp h
  cases h
  intro hsound
  have hreleased := hsound.released rfl
  have hlength := List.Subperm.length_le (subperm_ext_iff.mpr fun frame _ => hreleased frame)
  have hunmap := length_unmapRange nMapped (ret / pagingBaseSize) pages
  dsimp only at hlength
  omega

theorem Backed.mapInc {first totalFrames frame count : Nat} {pages : PageMap}
    {fetched : List Nat} (h : Backed first totalFrames pages fetched)
    (hbound : (frame + count) * pagingBaseSize ≤ wordModulus) : Backed first (totalFrames + count)
      (pages.mapInc (first + totalFrames) count (frame * pagingBaseSize) archFlags)
      (fetched ++ List.range' frame count) := by
  obtain ⟨hlength, hmaps⟩ := h
  refine ⟨by simp [hlength], ?_⟩
  intro i other hother
  rcases lt_or_ge i totalFrames with hlt | hge
  · rw [getElem?_append_left (by omega)] at hother
    have hentry : (pages.mapInc (first + totalFrames) count (frame * pagingBaseSize)
        archFlags).entries (first + i) = pages.entries (first + i) :=
      MemoryStreamFrames.entries_mapInc_of_not_mem (by omega)
    rw [Maps, MemoryStreamFrames.present, MemoryStreamFrames.frameOf, hentry]
    exact hmaps i other hother
  rw [getElem?_append_right (by omega), hlength] at hother
  have hlt : i - totalFrames < count := by
    have hindex := (List.getElem?_eq_some_iff.mp hother).1
    rw [length_range'] at hindex
    exact hindex
  rw [getElem?_range' hlt, one_mul] at hother
  cases hother
  have hpage : first + i - (first + totalFrames) = i - totalFrames := by omega
  have hpresent : archFlags.testBit 0 = true := by decide
  have hflags : archFlags < pagingBaseSize := encodeFlags_lt _
  rw [Maps, MemoryStreamFrames.present, MemoryStreamFrames.frameOf,
    MemoryStreamFrames.entries_mapInc hbound (by omega) (by omega),
    MemoryStreamFrames.entry_div hflags, testBit_or, hpresent, Bool.or_true, hpage]
  exact ⟨rfl, rfl⟩

theorem fetchFrames_eq_none {progress : Progress} (hlt : progress.totalFrames < nPages)
    (h : NoFrames (nPages - progress.totalFrames) progress.memory) (fuel : Nat) :
    fetchFrames initSwampNode env stream ret nPages fuel progress = none := by
  induction fuel generalizing progress with
  | zero => rfl
  | succ fuel ih =>
    obtain ⟨hreply, hnext⟩ := h.fragmentedGetFrames
    rcases hfetch : progress.memory.fragmentedGetFrames (nPages - progress.totalFrames) with
      ⟨reply, memory⟩
    rw [hfetch] at hreply hnext
    obtain rfl : reply = ⟨0, 0⟩ := hreply
    rw [fetchFrames, if_neg (by omega), hfetch]
    exact ih hlt hnext

theorem fetchFrames_succ {progress : Progress} (hlt : progress.totalFrames < nPages) (fuel : Nat)
    {reply : Reply} {memory : Memory}
    (hfetch : progress.memory.fragmentedGetFrames (nPages - progress.totalFrames) =
      (reply, memory)) {count : Nat} (hstatus : reply.status = count) (hcount : 0 < count) :
    fetchFrames initSwampNode env stream ret nPages (fuel + 1) progress =
      if (env.mapInc progress.turn memory).1 < count then
        returnFailure initSwampNode env stream ret nPages
          (progress.totalFrames + (env.mapInc progress.turn memory).1)
          (progress.pages.mapInc (ret / pagingBaseSize + progress.totalFrames)
            (env.mapInc progress.turn memory).1 (reply.frame * pagingBaseSize) archFlags)
          (progress.fetched ++ List.range' reply.frame count)
      else
        fetchFrames initSwampNode env stream ret nPages fuel
          { totalFrames := progress.totalFrames + count
            turn := progress.turn + 1
            pages := progress.pages.mapInc (ret / pagingBaseSize + progress.totalFrames) count
              (reply.frame * pagingBaseSize) archFlags
            memory := (env.mapInc progress.turn memory).2
            fetched := progress.fetched ++ range' reply.frame count } := by
  have htoNat : reply.status.toNat = count := by omega
  rw [fetchFrames, if_neg (by omega), hfetch]
  dsimp only
  rw [if_pos (by omega), htoNat]
  rcases lt_or_ge (env.mapInc progress.turn memory).1 count with hshort | hwhole
  · rw [min_eq_left hshort.le, if_pos hshort, if_pos hshort]
  · rw [min_eq_right hwhole, if_neg (lt_irrefl _), if_neg (not_lt.mpr hwhole)]

theorem Lasts.fetchFrames {turn : Nat} {memory : Memory} {nFrames : Nat}
    (h : Lasts env turn memory nFrames) {progress : Progress} (hturn : progress.turn = turn)
    (hmemory : progress.memory = memory) (htotal : progress.totalFrames + nFrames = nPages)
    (hbacked : Backed (ret / pagingBaseSize) progress.totalFrames progress.pages progress.fetched) :
    ∃ fuel outcome, fetchFrames initSwampNode env stream ret nPages fuel progress = some outcome ∧
      outcome.ret = ret ∧ Backed (ret / pagingBaseSize) nPages outcome.pages outcome.fetched := by
  induction h generalizing progress with
  | done =>
    refine ⟨1, _, if_pos (by omega), rfl, ?_⟩
    have hsame : progress.totalFrames = nPages := by omega
    exact hsame ▸ hbacked
  | @fetch turn nFrames memory hpos count hstatus hcount htables hrest ih =>
    have hn : nPages - progress.totalFrames = nFrames := by omega
    rcases hfetch : memory.fragmentedGetFrames nFrames with ⟨reply, next⟩
    rw [hfetch] at hstatus htables hrest ih
    have hserves : Serves nFrames reply := by
      have hcases := memory.fragmentedGetFrames_cases hpos
      rw [hfetch] at hcases
      refine hcases.resolve_right ?_
      rintro ⟨hzero, -⟩
      rw [hzero] at hstatus
      dsimp only at hstatus
      omega
    obtain ⟨count', hstatus', -, hle, hbound⟩ := hserves
    obtain rfl : count = count' := by
      dsimp only at hstatus
      omega
    have hfetch' : progress.memory.fragmentedGetFrames (nPages - progress.totalFrames) =
        (reply, next) := by rw [hn, hmemory, hfetch]
    obtain ⟨fuel, outcome, heq, hret, hall⟩ := @ih
      { totalFrames := progress.totalFrames + count
        turn := progress.turn + 1
        pages := progress.pages.mapInc (ret / pagingBaseSize + progress.totalFrames) count
          (reply.frame * pagingBaseSize) archFlags
        memory := (env.mapInc progress.turn next).2
        fetched := progress.fetched ++ range' reply.frame count }
      (by dsimp only; omega) (by dsimp only; rw [hturn]) (by dsimp only; omega)
      (hbacked.mapInc hbound)
    refine ⟨fuel + 1, outcome, ?_, hret, hall⟩
    rw [fetchFrames_succ (by omega) fuel hfetch' hstatus' hcount, if_neg, heq]
    rw [hturn]
    exact not_lt.mpr htables

theorem lasts_of_fetchFrames {fuel : Nat} {progress : Progress} {start : VaddrSpaceStream}
    {outcome : Outcome} (htotal : progress.totalFrames ≤ nPages)
    (hlength : progress.fetched.length = progress.totalFrames)
    (h : fetchFrames initSwampNode env stream ret nPages fuel progress = some outcome)
    (hsound : Sound start nPages outcome) :
    Lasts env progress.turn progress.memory (nPages - progress.totalFrames) := by
  induction fuel generalizing progress with
  | zero => cases h
  | succ fuel ih =>
    rcases eq_or_lt_of_le htotal with hdone | hlt
    · rw [hdone, Nat.sub_self]
      exact .done
    have hpos : 0 < nPages - progress.totalFrames := by omega
    rcases hfetch : progress.memory.fragmentedGetFrames (nPages - progress.totalFrames) with
      ⟨reply, memory⟩
    have hcases := progress.memory.fragmentedGetFrames_cases hpos
    rw [hfetch] at hcases
    rcases hcases with ⟨count, hstatus, hcount, hle, -⟩ | ⟨hzero, hnone⟩
    · rw [fetchFrames_succ hlt fuel hfetch hstatus hcount] at h
      split at h
      · rename_i hshort
        refine absurd hsound (not_sound_returnFailure ?_ h)
        rw [length_append, length_range', hlength]
        omega
      rename_i hwhole
      have hrest := ih (by dsimp only; omega)
        (by rw [length_append, length_range', hlength]) h
      rw [sub_add_eq] at hrest
      refine .fetch hpos count (by rw [hfetch]; exact hstatus) hcount ?_ ?_
      · rw [hfetch]
        exact not_lt.mp hwhole
      · rw [hfetch]
        exact hrest
    · obtain rfl : reply = ⟨0, 0⟩ := hzero
      rw [fetchFrames, if_neg (by omega), hfetch] at h
      dsimp only at h
      have hspins := @fetchFrames_eq_none initSwampNode env stream ret nPages
        { progress with memory := memory } hlt hnone fuel
      rw [hspins] at h
      cases h

end

def Exhausted (memory : Memory) : Prop :=
  ∀ bank ∈ memory.banks, ∀ range ∈ bank.ranges, range.range.frameCache = [] ∧
    ∀ bit < range.range.bmp.bmpNFrames, range.range.bmp.bits bit = true

theorem MemoryRange.fragmentedGetFrames_of_full {range : MemoryRange} {nFrames : Nat}
    (hpos : 0 < nFrames) (hcache : range.range.frameCache = [])
    (hfull : ∀ bit < range.range.bmp.bmpNFrames, range.range.bmp.bits bit = true) :
    range.fragmentedGetFrames nFrames = (nomemPhysical, range) := by
  have hbmp : range.range.bmp.fragmentedGetFrames nFrames =
      (.error .memoryNomemPhysical, range.range.bmp) := by
    rcases bmp_fragmentedGetFrames_cases range.range.bmp hpos with
      ⟨start, count, bmp', -, hcount, -, hend, hfree⟩ | hbmp
    · rw [hfull start (by omega)] at hfree
      cases hfree
    · exact hbmp
  have hfails : NumaMemoryRange.fragmentedGetFrames range.range nFrames =
      (.status .memoryNomemPhysical, range.range) := by
    rw [NumaMemoryRange.fragmentedGetFrames, hcache]
    rw [hbmp]
    dsimp only
    rw [← hcache]
  obtain ⟨range, hlt⟩ := range
  simp only [MemoryRange.fragmentedGetFrames, hfails, replyOf]

theorem scanRanges_of_fail {nFrames : Nat} (defRange i : Nat) {ranges : List MemoryRange}
    (h : ∀ range ∈ ranges, range.fragmentedGetFrames nFrames = (nomemPhysical, range)) :
    scanRanges nFrames defRange i ranges = (none, ranges) := by
  induction ranges generalizing i with
  | nil => rfl
  | cons range rest ih =>
    have hrest := ih (i + 1) fun other hother => h other (mem_cons_of_mem _ hother)
    rw [scanRanges, hrest, h range mem_cons_self]
    dsimp only
    rw [if_neg (by decide : ¬ 0 < nomemPhysical.status), ite_self]

theorem Bank.ranges_withDefRange (bank : Bank) : bank.withDefRange.ranges = bank.ranges := by
  obtain ⟨id, ranges, defRange⟩ := bank
  cases defRange with
  | some defRange => rfl
  | none => cases ranges <;> rfl

theorem Bank.getFromRanges_of_fail {nFrames : Nat} {bank : Bank}
    (h : ∀ range ∈ bank.ranges, range.fragmentedGetFrames nFrames = (nomemPhysical, range)) :
    (bank.getFromRanges nFrames).1 = nomemPhysical := by
  obtain ⟨id, ranges, defRange⟩ := bank
  cases defRange with
  | none => rfl
  | some defRange =>
    unfold Bank.getFromRanges
    dsimp only
    cases hrange : ranges[defRange]? with
    | none => rfl
    | some range =>
      have hmem : range ∈ ranges := mem_of_getElem? hrange
      dsimp only
      rw [h range hmem]
      dsimp only
      rw [if_neg (by decide), scanRanges_of_fail]
      intro other hother
      rcases mem_or_eq_of_mem_set hother with hother | rfl
      · exact h other hother
      · exact h other hmem

theorem barren_of_fail {nFrames : Nat} (hpos : 0 < nFrames) {bank : Bank}
    (h : ∀ range ∈ bank.ranges, range.fragmentedGetFrames nFrames = (nomemPhysical, range)) :
    Barren nFrames bank := by
  rcases bank.fragmentedGetFrames_cases hpos with hserves | hbarren
  · have hfails := Bank.getFromRanges_of_fail (bank.ranges_withDefRange ▸ h)
    have hstatus := hserves.status_pos
    rw [Bank.fragmentedGetFrames, hfails] at hstatus
    exact absurd hstatus (by decide)
  · exact hbarren

theorem Exhausted.noFrames {memory : Memory} (h : Exhausted memory) {nPages : Nat}
    (hpos : 0 < nPages) : NoFrames nPages memory := by
  intro bank hbank
  refine barren_of_fail hpos ?_
  intro range hrange
  obtain ⟨hcache, hfull⟩ := h bank hbank range hrange
  exact MemoryRange.fragmentedGetFrames_of_full hpos hcache hfull

section

variable {config : SwampConfig} {stream : VaddrSpaceStream} {out : Multiset (Nat × Nat)}

theorem rawMemAlloc_of_exhausted
    (hholds : SwampHolds config stream.swamp (out + singles stream.pageCache)) {memory : Memory}
    (hmemory : Exhausted memory) {nPages : Nat} (hpos : 0 < nPages)
    (hfinds : FindsRange stream nPages) (env : Env) (pages : PageMap) (fuel : Nat) :
    rawMemAlloc config.initSwampNode env stream nPages fuel pages memory = none := by
  rcases getPages_cases hholds nPages with ⟨hnone, -⟩ | ⟨-, ret, next, hne, hget, -⟩
  · exact absurd hfinds hnone
  · simp only [rawMemAlloc, hget, some_bind, if_neg hne]
    have hnone : NoFrames (nPages - 0) memory := hmemory.noFrames hpos
    exact @fetchFrames_eq_none _ _ _ _ _ ⟨0, 0, pages, memory, []⟩ hpos hnone fuel

/-- For every request, banks and page tables: `rawMemAlloc` returns and its result is sound if
and only if no range is found, or the banks and page tables last for all pages. -/
theorem rawMemAlloc_sound_iff
    (hholds : SwampHolds config stream.swamp (out + singles stream.pageCache)) (env : Env)
    (pages : PageMap) (memory : Memory) (nPages : Nat) :
    (∃ fuel outcome, rawMemAlloc config.initSwampNode env stream nPages fuel pages memory =
        some outcome ∧ Sound stream nPages outcome) ↔
      (FindsRange stream nPages → Lasts env 0 memory nPages) := by
  rcases getPages_cases hholds nPages with ⟨hnone, hget⟩ | ⟨hfinds, ret, next, hne, hget, -⟩
  · refine iff_of_true ⟨0, ⟨0, [], stream, pages, [], [], []⟩, ?_, ?_⟩
      fun hfinds => absurd hfinds hnone
    · simp [rawMemAlloc, hget, some_bind]
    · exact ⟨fun hret => absurd rfl hret, fun _ _ => le_refl _, fun _ => rfl,
        fun _ _ => Iff.rfl⟩
  simp only [rawMemAlloc, hget, some_bind, if_neg hne]
  rw [forall_prop_of_true hfinds]
  constructor
  · rintro ⟨fuel, outcome, heq, hsound⟩
    exact lasts_of_fetchFrames (zero_le _) rfl heq hsound
  · intro hlasts
    have hnothing : Backed (ret / pagingBaseSize) 0 pages [] :=
      ⟨rfl, fun i frame hframe => by simp at hframe⟩
    obtain ⟨fuel, outcome, heq, hret, hbacked⟩ := @Lasts.fetchFrames config.initSwampNode env next
      ret nPages 0 memory nPages hlasts ⟨0, 0, pages, memory, []⟩ rfl rfl (zero_add _) hnothing
    have hne' : outcome.ret ≠ 0 := hret ▸ hne
    rw [← hret] at hbacked
    exact ⟨fuel, outcome, heq, fun _ => hbacked, fun hnull => absurd hnull hne',
      fun hnull => absurd hnull hne', fun hnull => absurd hnull hne'⟩

end

def oneBank (bmp : MemoryBmp) : Memory where
  banks := [⟨0, [⟨NumaMemoryRange.initialRange bmp, by simp [NumaMemoryRange.initialRange]⟩], none⟩]
  defaultMemoryBank := 0

def allTables : Env where
  mapInc := fun _ memory => (16, memory)
  newNode := none
  newNode' := none

def fourPages : VaddrSpaceStream := ⟨[], VSwamp.initialState VSwamp.smallSwamp⟩

def noPages : PageMap := ⟨fun _ => 0, fun _ => false, fun _ => false⟩

theorem swampHolds_fourPages :
    SwampHolds VSwamp.smallSwamp fourPages.swamp (0 + singles fourPages.pageCache) :=
  ⟨_, _, VSwamp.partition_initialState VSwamp.smallSwamp⟩

theorem rawMemAlloc_sound_iff_eightFrames :
    ∃ fuel outcome, rawMemAlloc 1 allTables fourPages 3 fuel noPages
        (oneBank MemoryBmpFrames.eightFrames) = some outcome ∧ Sound fourPages 3 outcome := by
  refine (rawMemAlloc_sound_iff swampHolds_fourPages allTables noPages
    (oneBank MemoryBmpFrames.eightFrames) 3).mpr ?_
  intro _
  exact .fetch (by decide) 3 (by decide +kernel) (by decide) (by decide +kernel) .done

theorem eightUsed_not_returned :
    ¬ ∀ nPages memory, ∃ fuel outcome, rawMemAlloc 1 allTables fourPages nPages fuel noPages
      memory = some outcome ∧ Sound fourPages nPages outcome := by
  intro hclaim
  obtain ⟨fuel, outcome, heq, -⟩ := hclaim 1 (oneBank MemoryBmpFrames.eightUsed)
  have hexhausted : Exhausted (oneBank MemoryBmpFrames.eightUsed) := by
    intro bank hbank range hrange
    obtain rfl := mem_singleton.mp hbank
    obtain rfl := mem_singleton.mp hrange
    exact ⟨rfl, fun _ _ => rfl⟩
  have hfinds : FindsRange fourPages 1 := .inr ⟨⟨0x100000, 4⟩, by decide +kernel, by decide⟩
  have hspins := rawMemAlloc_of_exhausted swampHolds_fourPages hexhausted one_pos hfinds
    allTables noPages fuel
  exact absurd (hspins.symm.trans heq) (by simp)

end Zambesii.RawMemAlloc
