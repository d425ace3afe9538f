import Zambesii.AllocTable
import Zambesii.SetAttributes
import Zambesii.VaddrSpaceStream

/-!
`MemoryStream`: the memory of a process by pages. An allocation is recorded in the alloc
table; when a single page is freed it stays there and goes to the alloc cache as well.

The page tables are taken as `walkerPageRanger` shows them, page by page: `mapped` is what
`mapInc` does to the pages (`mapInc_spec`), and `applyOp` what `setAttributes` does to one.
Which frames the memory tributary gives and how many page tables it has left is an input.
-/

namespace Zambesii.MemoryStream

open Function List Option
open AllocTable (AllocTableEntry Records Table pageblockNEntries)
open EqualizerList (Bounded)
open KernelTypes
open LinkedCells (Ptr)
open PageAttributes Runs
open SetAttributes (Op applyOp)
open VSwamp (SwampConfig)
open VaddrSpaceStream (Holds singles stackCachePop stackCachePush)
open WalkerPageRanger (pagingNEntries mapped readEntry)
open Multiset (coe_eq_coe cons_add cons_coe)

/-- The page table entries by page number, and which page tables there are. `fakemapped` are
the pages that `mapNoInc` mapped and that no frame was mapped to since. -/
structure PageMap where
  entries : Nat → Nat
  tables : Nat → Bool
  fakemapped : Nat → Bool

namespace PageMap

/-- The page tables with those for `count` pages from `first` on. -/
def withTables (tables : Nat → Bool) (first count : Nat) : Nat → Bool :=
  fun table => tables table || decide (0 < count ∧ first / pagingNEntries ≤ table ∧
    table ≤ (first + count - 1) / pagingNEntries)

/-- `walkerPageRanger::mapInc`, when it maps `count` pages. -/
def mapInc (pages : PageMap) (first count paddr archFlags : Nat) : PageMap where
  entries := mapped pages.entries first count paddr archFlags
  tables := withTables pages.tables first count
  fakemapped := fun page =>
    pages.fakemapped page && !decide (first ≤ page ∧ page < first + count)

/-- `walkerPageRanger::mapNoInc`, when it maps `count` pages. -/
def mapNoInc (pages : PageMap) (first count paddr archFlags : Nat) : PageMap where
  entries := fun page =>
    if first ≤ page ∧ page < first + count then paddr ||| archFlags else pages.entries page
  tables := withTables pages.tables first count
  fakemapped := fun page =>
    pages.fakemapped page || decide (first ≤ page ∧ page < first + count)

/-- `walkerPageRanger::setAttributes` on one page. Without a page table no page changes. -/
def setAttributes (pages : PageMap) (page : Nat) (op : Op) : PageMap :=
  if pages.tables (page / pagingNEntries) then
    { pages with
      entries := update pages.entries page (applyOp op 0 (pages.entries page)) }
  else pages

/-- `walkerPageRanger::unmap` of one page: the frame if the page was backed. -/
def unmap (pages : PageMap) (page : Nat) : Option Nat × PageMap :=
  if pages.tables (page / pagingNEntries) then
    (if (readEntry (pages.entries page)).status = .backed then
      some (pages.entries page / pagingBaseSize) else none,
      { pages with
        entries := update pages.entries page 0
        fakemapped := update pages.fakemapped page false })
  else (none, pages)

end PageMap

def fakemappedDynamic : Nat := 5 <<< 12

def commitMaxNFrames : Nat := 0x180000 / pagingBaseSize

def fakemapPageTransform (nPages : Nat) : Nat :=
  if commitMaxNFrames < nPages then (nPages - commitMaxNFrames) / 4 + commitMaxNFrames else nPages

/-- The bits of `flags` that matter to the pages. -/
structure Flags where
  noFakemap : Bool
  pureVirtual : Bool
deriving DecidableEq

def commitNFrames (nPages : Nat) (flags : Flags) : Nat :=
  if flags.pureVirtual then 0
  else if flags.noFakemap then nPages
  else fakemapPageTransform nPages

/-- What `fragmentedGetFrames` returns, and how many of the frames `mapInc` then maps. -/
structure Supply where
  frame : Nat
  nFrames : Nat
  nMapped : Nat
deriving DecidableEq

/-- `held` after `nFrames` frames from `frame` on were handed out. -/
def getFrames (held : Nat → Bool) (frame nFrames : Nat) : Nat → Bool :=
  fun other => held other || decide (frame ≤ other ∧ other < frame + nFrames)

def releaseFrames (held : Nat → Bool) (frame nFrames : Nat) : Nat → Bool :=
  fun other => held other && !decide (frame ≤ other ∧ other < frame + nFrames)

/-- The state of the loop over the frames to commit. `held` are the frames that were handed
out and not released since. -/
structure Progress where
  totalFrames : Nat
  pages : PageMap
  held : Nat → Bool

/-- The loop over the frames to commit: whether it got them all. No more frames are returned
than asked for, and no more pages mapped than there are frames; when no supply is left the
memory is exhausted. -/
def commitFrames (archFlags firstPage commit : Nat) :
    List Supply → (nTries : Nat) → Progress → Bool × Progress
  | [], _, progress => (decide (commit ≤ progress.totalFrames), progress)
  | supply :: supplies, nTries, progress =>
    if commit ≤ progress.totalFrames then (true, progress)
    else
      let nFrames := min supply.nFrames (commit - progress.totalFrames)
      let nMapped := min supply.nMapped nFrames
      if 0 < nFrames then
        let next : Progress :=
          { totalFrames := progress.totalFrames + nFrames
            pages := progress.pages.mapInc (firstPage + progress.totalFrames) nMapped
              (supply.frame * pagingBaseSize) archFlags
            held := getFrames progress.held supply.frame nFrames }
        if nMapped < nFrames then (false, next)
        else commitFrames archFlags firstPage commit supplies nTries next
      else if 4 ≤ nTries + 1 then (false, progress)
      else commitFrames archFlags firstPage commit supplies (nTries + 1) progress

/-- The loops that unmap `count` pages. For each page that was backed `nRelease` frames are
released. -/
def unmapPages (nRelease : Nat) :
    (count page : Nat) → PageMap × (Nat → Bool) → PageMap × (Nat → Bool)
  | 0, _, memory => memory
  | count + 1, page, (pages, held) =>
    let (backed, pages) := pages.unmap page
    let held := match backed with
      | some frame => releaseFrames held frame nRelease
      | none => held
    unmapPages nRelease count (page + 1) (pages, held)

/-- `live` are the allocations that were returned and not freed since. -/
structure State where
  vaddrSpace : VaddrSpaceStream
  allocCache : List Nat
  allocTable : Table
  pages : PageMap
  held : Nat → Bool
  live : List (Nat × Nat)

/-- What a call finds: the frames and page tables, a page for a new block of the alloc table,
and a node for the swamp. -/
structure Env where
  supplies : List Supply
  nFakemapped : Nat
  memory : Option (List AllocTableEntry)
  newNode : Option Ptr
deriving DecidableEq

/-- The process: where its virtual pages are and whether it runs in the kernel's domain. -/
structure Process where
  config : SwampConfig
  fKernel : Bool

section

variable (process : Process)

def backedFlags : Nat :=
  encodeFlags (pageAttribPresent ||| pageAttribWrite |||
    if process.fKernel then pageAttribSupervisor else 0)

def fakemapFlags : Nat :=
  encodeFlags (pageAttribWrite ||| if process.fKernel then pageAttribSupervisor else 0)

def releaseAndUnmap (state : State) (ret nPages totalFrames : Nat) (newNode : Option Ptr) :
    Option (Nat × State) := do
  let (pages, held) := unmapPages 1 totalFrames (ret / pagingBaseSize) (state.pages, state.held)
  let vaddrSpace ← VaddrSpaceStream.releasePages process.config.initSwampNode state.vaddrSpace
    ret nPages newNode
  some (0, { state with vaddrSpace := vaddrSpace, pages := pages, held := held })

/-- `memAlloc` from the last loop on: the rest is fakemapped and the allocation recorded. -/
def fakemapAndRecord (state : State) (ret nPages totalFrames : Nat) (flags : Flags) (env : Env) :
    Option (Nat × State) :=
  let nMapped := min env.nFakemapped (nPages - totalFrames)
  let state :=
    if flags.noFakemap then state
    else { state with
      pages := state.pages.mapNoInc (ret / pagingBaseSize + totalFrames) nMapped fakemappedDynamic
        (fakemapFlags process) }
  if flags.noFakemap = false ∧ nMapped < nPages - totalFrames then
    releaseAndUnmap process state ret nPages totalFrames env.newNode
  else do
    let (err, allocTable) ← AllocTable.addEntry state.allocTable ret nPages 0 env.memory
    if err = .success then
      some (ret, { state with allocTable := allocTable, live := (ret, nPages) :: state.live })
    else
      releaseAndUnmap process { state with allocTable := allocTable } ret nPages totalFrames
        env.newNode

/-- `memAlloc` with the virtual pages it got. -/
def commitPages (state : State) (ret nPages : Nat) (flags : Flags) (env : Env) :
    Option (Nat × State) :=
  let (committed, progress) := commitFrames (backedFlags process) (ret / pagingBaseSize)
    (commitNFrames nPages flags) env.supplies 0 ⟨0, state.pages, state.held⟩
  let state := { state with pages := progress.pages, held := progress.held }
  if committed then
    fakemapAndRecord process state ret nPages progress.totalFrames flags env
  else releaseAndUnmap process state ret nPages progress.totalFrames env.newNode

def popAllocCache (state : State) (nPages : Nat) (flags : Flags) : Option (Nat × List Nat) :=
  if flags.pureVirtual then none else stackCachePop state.allocCache nPages

/-- `MemoryStream::memAlloc`: the address, or 0 for a null pointer. -/
def memAlloc (state : State) (nPages : Nat) (flags : Flags) (env : Env) : Option (Nat × State) :=
  if nPages = 0 then some (0, state)
  else
    match popAllocCache state nPages flags with
    | some (ret, allocCache) =>
      some (ret, { state with
        allocCache := allocCache
        pages := state.pages.setAttributes (ret / pagingBaseSize) .setPresent
        live := (ret, nPages) :: state.live })
    | none => do
        let (ret, vaddrSpace) ←
          VaddrSpaceStream.getPages process.config.initSwampNode state.vaddrSpace nPages
        let state := { state with vaddrSpace := vaddrSpace }
        if ret = 0 then some (0, state) else commitPages process state ret nPages flags env

def memFree (state : State) (vaddr : Nat) (newNode : Option Ptr) : Option State :=
  if vaddr = 0 then some state
  else
    match AllocTable.lookup state.allocTable vaddr with
    | .error _ => some state
    | .ok (nPages, _) =>
      let live := state.live.filter fun range => decide (range.1 ≠ vaddr)
      match stackCachePush state.allocCache nPages vaddr with
      | some allocCache => some { state with
          allocCache := allocCache
          pages := state.pages.setAttributes (vaddr / pagingBaseSize) .clearPresent
          live := live }
      | none => do
          let (pages, held) :=
            unmapPages nPages nPages (vaddr / pagingBaseSize) (state.pages, state.held)
          let vaddrSpace ← VaddrSpaceStream.releasePages process.config.initSwampNode
            state.vaddrSpace vaddr nPages newNode
          let allocTable ← AllocTable.removeEntry state.allocTable vaddr
          some { state with
            vaddrSpace := vaddrSpace
            allocTable := allocTable
            pages := pages
            held := held
            live := live }

inductive Call
  | memAlloc (nPages : Nat) (flags : Flags) (env : Env)
  | memFree (vaddr : Nat) (newNode : Option Ptr)
deriving DecidableEq

def step (state : State) : Call → Option (Nat × State)
  | .memAlloc nPages flags env => memAlloc process state nPages flags env
  | .memFree vaddr newNode => (memFree process state vaddr newNode).map fun state => (0, state)

def initialState : State where
  vaddrSpace := ⟨[], VSwamp.initialState process.config⟩
  allocCache := []
  allocTable := []
  pages := ⟨fun _ => 0, fun _ => false, fun _ => false⟩
  held := fun _ => false
  live := []

end

section

variable {process : Process} {state : State}

def State.taken (state : State) : Multiset (Nat × Nat) :=
  (state.live : Multiset (Nat × Nat)) + singles state.allocCache

structure Owns (process : Process) (state : State) (recorded : Nat → Option (Nat × Nat)) :
    Prop where
  records : Records state.allocTable recorded
  holds : Holds process.config state.vaddrSpace state.taken
  nonempty : ∀ range ∈ state.taken, 0 < range.2
  recorded_iff : ∀ vaddr value, recorded vaddr = some value ↔
    ∃ nPages, value = (nPages, 0) ∧ (vaddr, nPages) ∈ state.taken

theorem Owns.ne_of_mem {recorded : Nat → Option (Nat × Nat)} (h : Owns process state recorded)
    {range other : Nat × Nat} {rest : Multiset (Nat × Nat)} (htaken : state.taken = range ::ₘ rest)
    (hother : other ∈ rest) : other.1 ≠ range.1 := by
  obtain ⟨rest', rfl⟩ := Multiset.exists_cons_of_mem hother
  have hrange := h.nonempty range (by simp [htaken])
  have hpages := h.nonempty other (by simp [htaken])
  have hseparate := h.holds.separate htaken hrange hpages
  have hspan := Nat.mul_pos hrange (by decide : 0 < pagingBaseSize)
  have hspan' := Nat.mul_pos hpages (by decide : 0 < pagingBaseSize)
  omega

variable {vaddr nPages : Nat}

theorem Owns.live_eq {recorded : Nat → Option (Nat × Nat)} (h : Owns process state recorded) (hlive : (vaddr, nPages) ∈ state.live) :
    (state.live : Multiset (Nat × Nat)) = (vaddr, nPages) ::ₘ
      ((state.live.filter fun range => decide (range.1 ≠ vaddr) : List (Nat × Nat)) :
        Multiset (Nat × Nat)) := by
  have hperm := perm_cons_erase hlive
  have htaken : state.taken = (vaddr, nPages) ::ₘ
      ((state.live.erase (vaddr, nPages) : Multiset (Nat × Nat)) + singles state.allocCache) := by
    rw [State.taken, coe_eq_coe.mpr hperm, ← cons_coe, cons_add]
  have hkept : ∀ other ∈ state.live.erase (vaddr, nPages), decide (other.1 ≠ vaddr) = true := by
    intro other hother
    exact decide_eq_true (h.ne_of_mem htaken (by simp [hother]))
  have hfilter := hperm.filter fun range => decide (range.1 ≠ vaddr)
  rw [filter_cons_of_neg (by simp), filter_eq_self.mpr hkept] at hfilter
  rw [cons_coe, coe_eq_coe]
  exact hperm.trans (hfilter.symm.cons _)

/-- What a call gets from outside: a page for a new block of the table, and a node that the
swamp does not use. -/
def FreshNode (stream : VaddrSpaceStream) (newNode : Option Ptr) : Prop :=
  ∀ node ∈ newNode, node ≠ 0 ∧ stream.swamp.mem node = none

def Supplied (process : Process) (state : State) : Call → Prop
  | .memAlloc nPages _ env =>
    (∀ page ∈ env.memory, page.length = pageblockNEntries) ∧
      ∀ got ∈ VaddrSpaceStream.getPages process.config.initSwampNode state.vaddrSpace nPages,
        FreshNode got.2 env.newNode
  | .memFree _ newNode => FreshNode state.vaddrSpace newNode

instance (stream : VaddrSpaceStream) (newNode : Option Ptr) :
    Decidable (FreshNode stream newNode) :=
  inferInstanceAs (Decidable (∀ node ∈ newNode, node ≠ 0 ∧ stream.swamp.mem node = none))

instance (process : Process) (state : State) : ∀ call, Decidable (Supplied process state call)
  | .memAlloc _ _ _ => inferInstanceAs (Decidable ((∀ page ∈ _, _) ∧ ∀ got ∈ _, FreshNode _ _))
  | .memFree _ _ => inferInstanceAs (Decidable (FreshNode _ _))

/-- Whether a `memFree` removes an entry from the alloc table. -/
def removes (state : State) (vaddr : Nat) : Bool :=
  match AllocTable.lookup state.allocTable vaddr with
  | .error _ => false
  | .ok (nPages, _) => (stackCachePush state.allocCache nPages vaddr).isNone

def WithinBlocks (state : State) : Call → Prop
  | .memFree vaddr _ =>
    removes state vaddr = true → Bounded AllocTable.operators ⟨vaddr, 0⟩ state.allocTable
  | _ => True

instance (state : State) : ∀ call, Decidable (WithinBlocks state call)
  | .memFree _ _ => inferInstanceAs (Decidable (_ → Bounded _ _ _))
  | .memAlloc _ _ _ => inferInstanceAs (Decidable True)

def NotCached (state : State) : Call → Prop
  | .memFree vaddr _ => vaddr ∉ state.allocCache
  | _ => True

instance (state : State) : ∀ call, Decidable (NotCached state call)
  | .memFree _ _ => inferInstanceAs (Decidable (_ ∉ _))
  | .memAlloc _ _ _ => inferInstanceAs (Decidable True)

inductive Frees (state : State) (vaddr : Nat) (next : State) : Prop
  | nothing (hnext : next = state)
  | toCache (hlive : (vaddr, 1) ∈ state.live) (hkeeps : removes state vaddr = false)
      (hcache : next.allocCache = vaddr :: state.allocCache)
      (hpages : next.pages = state.pages.setAttributes (vaddr / pagingBaseSize) .clearPresent)
      (hheld : next.held = state.held)
      (hnext : next.live = state.live.filter fun range => decide (range.1 ≠ vaddr))
  | toSwamp (nPages : Nat) (hlive : (vaddr, nPages) ∈ state.live)
      (hremoves : removes state vaddr = true)
      (hcache : next.allocCache = state.allocCache)
      (hpages : (next.pages, next.held) =
        unmapPages nPages nPages (vaddr / pagingBaseSize) (state.pages, state.held))
      (hnext : next.live = state.live.filter fun range => decide (range.1 ≠ vaddr))

variable {recorded : Nat → Option (Nat × Nat)}

variable (h : Owns process state recorded)

include h

variable {next : State}

theorem Owns.congr
    (htable : next.allocTable = state.allocTable) (hspace : next.vaddrSpace = state.vaddrSpace)
    (htaken : next.taken = state.taken) : Owns process next recorded := by
  refine ⟨?_, ?_, ?_, ?_⟩
  · rw [htable]
    exact h.records
  · rw [hspace, htaken]
    exact h.holds
  · rw [htaken]
    exact h.nonempty
  · rw [htaken]
    exact h.recorded_iff

theorem Owns.removed {rest : Multiset (Nat × Nat)} (htaken : state.taken = (vaddr, nPages) ::ₘ rest)
    (hrecords : Records next.allocTable (update recorded vaddr none))
    (hholds : Holds process.config next.vaddrSpace rest) (hnext : next.taken = rest) :
    Owns process next (update recorded vaddr none) := by
  refine ⟨hrecords, hnext ▸ hholds, ?_, ?_⟩
  · intro range hrange
    exact h.nonempty range (by rw [htaken, ← hnext]; exact Multiset.mem_cons_of_mem hrange)
  · intro other value
    rw [hnext]
    rcases eq_or_ne other vaddr with rfl | hother
    · rw [update_self]
      constructor
      · intro hvalue
        contradiction
      · rintro ⟨nPages', -, hmem⟩
        have hne := h.ne_of_mem htaken hmem
        exact absurd rfl hne
    · rw [update_of_ne hother, h.recorded_iff, htaken]
      have hne : ∀ nPages', (other, nPages') ≠ (vaddr, nPages) :=
        fun nPages' heq => hother (Prod.mk.inj heq).1
      simp [hne]

theorem Owns.recorded_eq_none {stream : VaddrSpaceStream} (hpages : 0 < nPages)
    (hholds : Holds process.config stream ((vaddr, nPages) ::ₘ state.taken)) :
    recorded vaddr = none := by
  cases hrecorded : recorded vaddr with
  | none => rfl
  | some value =>
    obtain ⟨nPages', -, hmem⟩ := (h.recorded_iff vaddr value).mp hrecorded
    obtain ⟨rest, htaken⟩ := Multiset.exists_cons_of_mem hmem
    have hpages' := h.nonempty _ hmem
    have hseparate := hholds.separate (congrArg _ htaken) hpages hpages'
    have hspan := Nat.mul_pos hpages (by decide : 0 < pagingBaseSize)
    have hspan' := Nat.mul_pos hpages' (by decide : 0 < pagingBaseSize)
    dsimp only at hseparate hspan'
    omega

theorem Owns.added (hpages : 0 < nPages) (hrecords : Records next.allocTable (update recorded vaddr (some (nPages, 0))))
    (hholds : Holds process.config next.vaddrSpace ((vaddr, nPages) ::ₘ state.taken))
    (hnext : next.taken = (vaddr, nPages) ::ₘ state.taken) :
    Owns process next (update recorded vaddr (some (nPages, 0))) := by
  refine ⟨hrecords, hnext ▸ hholds, ?_, ?_⟩
  · intro range hrange
    rw [hnext] at hrange
    rcases Multiset.mem_cons.mp hrange with rfl | hrange
    · exact hpages
    · exact h.nonempty range hrange
  · intro other value
    rw [hnext]
    rcases eq_or_ne other vaddr with rfl | hother
    · have hnone := h.recorded_eq_none hpages hholds
      rw [update_self]
      constructor
      · intro hvalue
        cases hvalue
        exact ⟨nPages, rfl, Multiset.mem_cons_self _ _⟩
      · rintro ⟨nPages', rfl, hmem⟩
        rcases Multiset.mem_cons.mp hmem with heq | hmem
        · rw [(Prod.mk.inj heq).2]
        · rw [(h.recorded_iff other (nPages', 0)).mpr ⟨nPages', rfl, hmem⟩] at hnone
          contradiction
    · have hne : ∀ nPages', (other, nPages') ≠ (vaddr, nPages) :=
        fun nPages' heq => hother (Prod.mk.inj heq).1
      rw [update_of_ne hother, h.recorded_iff]
      simp [hne]

omit h

theorem stackCachePush_eq_some {cache cache' : List Nat} {category item : Nat}
    (h : stackCachePush cache category item = some cache') :
    category = 1 ∧ cache' = item :: cache := by
  unfold stackCachePush at h
  split at h
  · rename_i hcategory
    exact ⟨hcategory.1, (some.inj h).symm⟩
  · contradiction

theorem stackCachePop_eq_some {cache rest : List Nat} {category item : Nat}
    (h : stackCachePop cache category = some (item, rest)) :
    category = 1 ∧ cache = item :: rest := by
  unfold stackCachePop at h
  split at h
  · split at h
    · rename_i hcategory
      cases h
      exact ⟨hcategory, rfl⟩
    · contradiction
  · contradiction

theorem Owns.live_of_found (h : Owns process state recorded) {attrib : Nat}
    (hcached : vaddr ∉ state.allocCache)
    (hlookup : AllocTable.lookup state.allocTable vaddr = .ok (nPages, attrib)) :
    (vaddr, nPages) ∈ state.live := by
  rw [AllocTable.lookup_eq h.records] at hlookup
  unfold AllocTable.found at hlookup
  cases hrecorded : recorded vaddr with
  | none =>
    rw [hrecorded] at hlookup
    cases hlookup
  | some value =>
    rw [hrecorded] at hlookup
    obtain rfl : value = (nPages, attrib) := Except.ok.inj hlookup
    obtain ⟨nPages', heq, hmem⟩ := (h.recorded_iff vaddr _).mp hrecorded
    obtain ⟨rfl, -⟩ := Prod.mk.inj heq
    rcases Multiset.mem_add.mp hmem with hlive | hsingle
    · exact hlive
    · obtain ⟨item, hitem, heq⟩ := mem_map.mp hsingle
      obtain ⟨rfl, -⟩ := Prod.mk.inj heq
      exact absurd hitem hcached

theorem Owns.memFree (h : Owns process state recorded) {newNode : Option Ptr}
    (hcached : vaddr ∉ state.allocCache) (hbounded : removes state vaddr = true →
      Bounded AllocTable.operators ⟨vaddr, 0⟩ state.allocTable)
    (hfresh : FreshNode state.vaddrSpace newNode) :
    ∃ next recorded', memFree process state vaddr newNode = some next ∧
      Owns process next recorded' ∧ Frees state vaddr next := by
  unfold MemoryStream.memFree
  rcases eq_or_ne vaddr 0 with hzero | hne
  · exact ⟨state, recorded, if_pos hzero, h, .nothing rfl⟩
  rw [if_neg hne]
  unfold removes at hbounded
  cases hlookup : AllocTable.lookup state.allocTable vaddr with
  | error err => exact ⟨state, recorded, rfl, h, .nothing rfl⟩
  | ok found =>
    obtain ⟨nPages, attrib⟩ := found
    have hlive := h.live_of_found hcached hlookup
    have hsplit := h.live_eq hlive
    dsimp only
    cases hpush : stackCachePush state.allocCache nPages vaddr with
    | some allocCache =>
      have hkeeps : removes state vaddr = false := by simp [removes, hlookup, hpush]
      obtain ⟨rfl, rfl⟩ := stackCachePush_eq_some hpush
      refine ⟨_, recorded, rfl, h.congr rfl rfl ?_, .toCache hlive hkeeps rfl rfl rfl rfl⟩
      simp only [State.taken]
      rw [hsplit, VaddrSpaceStream.singles_cons, Multiset.add_cons, cons_add]
      rfl
    | none =>
      have hremoves : removes state vaddr = true := by simp [removes, hlookup, hpush]
      have hmem : (vaddr, nPages) ∈ state.taken := Multiset.mem_add.mpr (.inl hlive)
      have htaken : state.taken = (vaddr, nPages) ::ₘ
          (((state.live.filter fun range => decide (range.1 ≠ vaddr) : List (Nat × Nat)) :
            Multiset (Nat × Nat)) + singles state.allocCache) := by
        rw [State.taken, hsplit, cons_add]
      obtain ⟨vaddrSpace, hrelease, hholds⟩ := h.holds.releasePages hmem hfresh
      rw [hlookup] at hbounded
      dsimp only at hbounded
      obtain ⟨allocTable, hremove, hrecords⟩ :=
        AllocTable.removeEntry_records h.records (hbounded (by rw [hpush]; rfl))
      rw [htaken, Multiset.erase_cons_head] at hholds
      let unmapped :=
        unmapPages nPages nPages (vaddr / pagingBaseSize) (state.pages, state.held)
      let next : State :=
        { state with
          vaddrSpace := vaddrSpace
          allocTable := allocTable
          pages := unmapped.1
          held := unmapped.2
          live := state.live.filter fun range => decide (range.1 ≠ vaddr) }
      refine ⟨next, _, ?_, h.removed htaken hrecords hholds rfl,
        .toSwamp nPages hlive hremoves rfl rfl rfl⟩
      simp only [hrelease, some_bind, hremove]
      rfl

def Fakemaps (process : Process) (pages : PageMap) (first count : Nat) (next : PageMap) : Prop :=
  next = pages ∨ ∃ nMapped ≤ count,
    next = pages.mapNoInc first nMapped fakemappedDynamic (fakemapFlags process)

/-- What `memAlloc` can do. With new pages it ends in `mapped`, or in `failed` after it has
undone what it can. -/
inductive Allocs (process : Process) (state : State) (nPages : Nat) (flags : Flags) (env : Env)
    (next : State) : Prop
  | nothing (hcache : next.allocCache = state.allocCache) (hpages : next.pages = state.pages)
      (hheld : next.held = state.held) (hlive : next.live = state.live)
  | fromCache (ret : Nat) (hnPages : nPages = 1)
      (hcache : state.allocCache = ret :: next.allocCache)
      (hpages : next.pages = state.pages.setAttributes (ret / pagingBaseSize) .setPresent)
      (hheld : next.held = state.held) (hlive : next.live = (ret, nPages) :: state.live)
  | failed (ret : Nat) (stream : VaddrSpaceStream) (committed : Bool) (progress : Progress)
      (pages : PageMap) (hholds : Holds process.config stream ((ret, nPages) ::ₘ state.taken))
      (hprogress : commitFrames (backedFlags process) (ret / pagingBaseSize)
        (commitNFrames nPages flags) env.supplies 0 ⟨0, state.pages, state.held⟩ =
          (committed, progress))
      (hfakemaps : Fakemaps process progress.pages (ret / pagingBaseSize + progress.totalFrames)
        (nPages - progress.totalFrames) pages)
      (hcache : next.allocCache = state.allocCache)
      (hpages : (next.pages, next.held) =
        unmapPages 1 progress.totalFrames (ret / pagingBaseSize) (pages, progress.held))
      (hlive : next.live = state.live)
  | mapped (ret : Nat) (committed : Bool) (progress : Progress)
      (hholds : Holds process.config next.vaddrSpace ((ret, nPages) ::ₘ state.taken))
      (hprogress : commitFrames (backedFlags process) (ret / pagingBaseSize)
        (commitNFrames nPages flags) env.supplies 0 ⟨0, state.pages, state.held⟩ =
          (committed, progress))
      (hfakemaps : Fakemaps process progress.pages (ret / pagingBaseSize + progress.totalFrames)
        (nPages - progress.totalFrames) next.pages)
      (hcache : next.allocCache = state.allocCache)
      (hheld : next.held = progress.held) (hlive : next.live = (ret, nPages) :: state.live)

variable (h : Owns process state recorded)

include h

theorem Owns.releaseAndUnmap (given : State)
    (htable : given.allocTable = state.allocTable) (hcache : given.allocCache = state.allocCache)
    (hlive : given.live = state.live) {ret : Nat} (totalFrames : Nat) {newNode : Option Ptr}
    (hholds : Holds process.config given.vaddrSpace ((ret, nPages) ::ₘ state.taken))
    (hfresh : FreshNode given.vaddrSpace newNode) :
    ∃ next, releaseAndUnmap process given ret nPages totalFrames newNode = some (0, next) ∧
      Owns process next recorded ∧ next.allocCache = state.allocCache ∧
      next.live = state.live ∧ (next.pages, next.held) =
        unmapPages 1 totalFrames (ret / pagingBaseSize) (given.pages, given.held) := by
  obtain ⟨vaddrSpace, hrelease, hrest⟩ :=
    hholds.releasePages (Multiset.mem_cons_self _ _) hfresh
  rw [Multiset.erase_cons_head] at hrest
  let unmapped := unmapPages 1 totalFrames (ret / pagingBaseSize) (given.pages, given.held)
  let next : State :=
    { given with vaddrSpace := vaddrSpace, pages := unmapped.1, held := unmapped.2 }
  have htaken : next.taken = state.taken := by
    show (given.live : Multiset (Nat × Nat)) + singles given.allocCache = _
    rw [hlive, hcache]
    rfl
  refine ⟨next, ?_, ⟨?_, ?_, ?_, ?_⟩, hcache, hlive, rfl⟩
  · simp only [MemoryStream.releaseAndUnmap, hrelease, some_bind]
    rfl
  · exact htable ▸ h.records
  · exact htaken ▸ hrest
  · exact htaken ▸ h.nonempty
  · exact htaken ▸ h.recorded_iff

theorem Owns.fakemapAndRecord (given : State)
    (htable : given.allocTable = state.allocTable) (hcache : given.allocCache = state.allocCache)
    (hlive : given.live = state.live) {ret : Nat} {flags : Flags} {env : Env}
    {progress : Progress} {committed : Bool} (hpages : 0 < nPages)
    (hholds : Holds process.config given.vaddrSpace ((ret, nPages) ::ₘ state.taken))
    (hmemory : ∀ page ∈ env.memory, page.length = pageblockNEntries)
    (hfresh : FreshNode given.vaddrSpace env.newNode)
    (hgiven : given.pages = progress.pages ∧ given.held = progress.held)
    (hprogress : commitFrames (backedFlags process) (ret / pagingBaseSize)
      (commitNFrames nPages flags) env.supplies 0 ⟨0, state.pages, state.held⟩ =
        (committed, progress)) : ∃ answer next recorded',
      fakemapAndRecord process given ret nPages progress.totalFrames flags env =
        some (answer, next) ∧
      Owns process next recorded' ∧ Allocs process state nPages flags env next := by
  unfold MemoryStream.fakemapAndRecord
  dsimp only
  obtain ⟨faked, hfaked, htable', hcache', hlive', hspace', hheld', hfakemaps⟩ :
      ∃ faked, (if flags.noFakemap then given else { given with
          pages := given.pages.mapNoInc (ret / pagingBaseSize + progress.totalFrames)
            (min env.nFakemapped (nPages - progress.totalFrames)) fakemappedDynamic
            (fakemapFlags process) }) = faked ∧
        faked.allocTable = state.allocTable ∧ faked.allocCache = state.allocCache ∧
        faked.live = state.live ∧ faked.vaddrSpace = given.vaddrSpace ∧
        faked.held = progress.held ∧
        Fakemaps process progress.pages (ret / pagingBaseSize + progress.totalFrames)
          (nPages - progress.totalFrames) faked.pages := by
    split
    · exact ⟨given, rfl, htable, hcache, hlive, rfl, hgiven.2, .inl hgiven.1⟩
    · refine ⟨_, rfl, htable, hcache, hlive, rfl, hgiven.2,
        .inr ⟨min env.nFakemapped _, min_le_right _ _, ?_⟩⟩
      rw [← hgiven.1]
  rw [hfaked]
  rw [← hspace'] at hholds hfresh
  -- Both ways to fail end alike: the table is as it was.
  have hfails : ∃ answer next recorded',
      MemoryStream.releaseAndUnmap process faked ret nPages progress.totalFrames env.newNode =
        some (answer, next) ∧
      Owns process next recorded' ∧ Allocs process state nPages flags env next := by
    obtain ⟨next, heq, howns, hcache'', hlive'', hunmap⟩ :=
      h.releaseAndUnmap faked htable' hcache' hlive' progress.totalFrames hholds hfresh
    rw [hheld'] at hunmap
    exact ⟨0, next, recorded, heq, howns, .failed ret faked.vaddrSpace committed progress
      faked.pages hholds hprogress hfakemaps hcache'' hunmap hlive''⟩
  split
  · exact hfails
  have hbounds := (hholds.bounds (Multiset.mem_cons_self _ _) hpages).2
  have hlt : nPages < 2 ^ 28 := by
    simp only [wordModulus, pagingBaseSize] at hbounds
    omega
  rw [htable']
  rcases AllocTable.addEntry_records h.records hbounds.1
    (h.recorded_eq_none hpages hholds) hlt (by decide : 0 < 2 ^ 4) hmemory with
    ⟨allocTable, hadd, hrecords⟩ | ⟨hadd, -⟩
  · let next : State :=
      { faked with allocTable := allocTable, live := (ret, nPages) :: faked.live }
    have htaken : next.taken = (ret, nPages) ::ₘ state.taken := by
      show (((ret, nPages) :: faked.live : List (Nat × Nat)) : Multiset (Nat × Nat)) +
        singles faked.allocCache = _
      rw [hlive', hcache', ← cons_coe, cons_add]
      rfl
    refine ⟨ret, next, _, ?_, h.added hpages hrecords hholds htaken,
      .mapped ret committed progress hholds hprogress hfakemaps hcache' hheld' ?_⟩
    · simp only [hadd, some_bind, if_true]
      rfl
    · show (ret, nPages) :: faked.live = _
      rw [hlive']
  · have hsame : { faked with allocTable := state.allocTable } = faked := by rw [← htable']
    simp only [hadd, some_bind, reduceCtorEq, if_false, hsame]
    exact hfails

theorem Owns.memAlloc {flags : Flags} {env : Env}
    (hsupplied : Supplied process state (.memAlloc nPages flags env)) :
    ∃ answer next recorded', memAlloc process state nPages flags env = some (answer, next) ∧
      Owns process next recorded' ∧ Allocs process state nPages flags env next := by
  unfold MemoryStream.memAlloc
  rcases eq_zero_or_pos nPages with hzero | hpages
  · exact ⟨0, state, recorded, if_pos hzero, h, .nothing rfl rfl rfl rfl⟩
  rw [if_neg (by omega)]
  cases hpop : popAllocCache state nPages flags with
  | some popped =>
    obtain ⟨ret, allocCache⟩ := popped
    unfold popAllocCache at hpop
    split at hpop
    · contradiction
    obtain ⟨rfl, hcache⟩ := stackCachePop_eq_some hpop
    refine ⟨ret, _, recorded, rfl, h.congr rfl rfl ?_, .fromCache ret rfl hcache rfl rfl rfl⟩
    simp only [State.taken]
    rw [hcache, VaddrSpaceStream.singles_cons, ← cons_coe, cons_add,
      Multiset.add_cons]
    rfl
  | none =>
    obtain ⟨ret, vaddrSpace, hget, hcases⟩ := h.holds.getPages nPages
    have hfresh := hsupplied.2 _ hget
    simp only [hget, some_bind]
    rcases hcases with ⟨hzero, hholds⟩ | ⟨hne, hholds⟩
    · rw [if_pos hzero]
      refine ⟨0, _, recorded, rfl, ?_, .nothing rfl rfl rfl rfl⟩
      exact ⟨h.records, hholds, h.nonempty, h.recorded_iff⟩
    rw [if_neg hne]
    unfold commitPages
    cases hprogress : commitFrames (backedFlags process) (ret / pagingBaseSize)
        (commitNFrames nPages flags) env.supplies 0 ⟨0, state.pages, state.held⟩ with
    | mk committed progress =>
      let given : State :=
        { state with
          vaddrSpace := vaddrSpace
          pages := progress.pages
          held := progress.held }
      cases committed with
      | true =>
        exact h.fakemapAndRecord given rfl rfl rfl hpages hholds hsupplied.1 hfresh
          ⟨rfl, rfl⟩ hprogress
      | false =>
        obtain ⟨next, heq, howns, hcache, hlive, hunmap⟩ :=
          h.releaseAndUnmap given rfl rfl rfl progress.totalFrames hholds hfresh
        exact ⟨0, next, recorded, heq, howns, .failed ret vaddrSpace false progress
          progress.pages hholds hprogress (.inl rfl) hcache hunmap hlive⟩

omit h

theorem owns_initialState (process : Process) :
    Owns process (initialState process) fun _ => none := by
  refine ⟨AllocTable.records_nil, ?_, by simp [State.taken, initialState], ?_⟩
  · exact ⟨0, (VSwamp.initialState process.config).tail, _,
      VSwamp.partition_initialState process.config⟩
  · simp [State.taken, initialState]

end

section

variable (process : Process)

def InRange (range : Nat × Nat) (page : Nat) : Prop :=
  range.1 / pagingBaseSize ≤ page ∧ page < range.1 / pagingBaseSize + range.2

instance (range : Nat × Nat) (page : Nat) : Decidable (InRange range page) :=
  inferInstanceAs (Decidable (_ ∧ _))

def NoPageTwice (state : State) : Prop :=
  state.live.Pairwise fun range other => ∀ page, ¬ (InRange range page ∧ InRange other page)

theorem not_inRange_of_separate {range other : Nat × Nat} (haligned : pagingBaseSize ∣ range.1)
    (haligned' : pagingBaseSize ∣ other.1) (h : range.1 + range.2 * pagingBaseSize ≤ other.1 ∨
      other.1 + other.2 * pagingBaseSize ≤ range.1) (page : Nat) :
    ¬ (InRange range page ∧ InRange other page) := by
  rintro ⟨⟨hle, hlt⟩, hle', hlt'⟩
  simp only [pagingBaseSize] at *
  omega

theorem not_inRange_of_holds {process : Process} {stream : VaddrSpaceStream}
    {taken rest : Multiset (Nat × Nat)} {range other : Nat × Nat}
    (h : Holds process.config stream taken) (hnonempty : ∀ range ∈ taken, 0 < range.2)
    (htaken : taken = range ::ₘ rest) (hother : other ∈ rest) (page : Nat) :
    ¬ (InRange range page ∧ InRange other page) := by
  obtain ⟨rest', rfl⟩ := Multiset.exists_cons_of_mem hother
  have hrange : range ∈ taken := by simp [htaken]
  have hmem : other ∈ taken := by simp [htaken]
  have hpages := hnonempty range hrange
  have hpages' := hnonempty other hmem
  exact not_inRange_of_separate (h.bounds hrange hpages).1 (h.bounds hmem hpages').1
    (h.separate htaken hpages hpages') page

theorem Owns.noPageTwice {process : Process} {state : State}
    {recorded : Nat → Option (Nat × Nat)} (h : Owns process state recorded) :
    NoPageTwice state := by
  apply pairwise_iff_forall_sublist.mpr
  intro range other hsublist
  have hle : range ::ₘ other ::ₘ 0 ≤ (state.live : Multiset (Nat × Nat)) :=
    Multiset.coe_le.mpr hsublist.subperm
  obtain ⟨rest, hrest⟩ := Multiset.le_iff_exists_add.mp (hle.trans (Multiset.le_add_right _ _))
  have htaken : state.taken = range ::ₘ other ::ₘ rest := by
    rw [State.taken, hrest]
    simp
  exact not_inRange_of_holds h.holds h.nonempty htaken (Multiset.mem_cons_self _ _)

theorem step_owns (state : State) (call : Call) (h : ∃ recorded, Owns process state recorded)
    (hguard : Supplied process state call ∧ WithinBlocks state call ∧ NotCached state call) :
    ∃ answer next, step process state call = some (answer, next) ∧
      ∃ recorded, Owns process next recorded := by
  obtain ⟨recorded, h⟩ := h
  obtain ⟨hsupplied, hwithin, hcached⟩ := hguard
  cases call with
  | memAlloc nPages flags env =>
    obtain ⟨answer, next, recorded', heq, howns, -⟩ := h.memAlloc hsupplied
    exact ⟨answer, next, heq, recorded', howns⟩
  | memFree vaddr newNode =>
    obtain ⟨next, recorded', heq, howns, -⟩ := h.memFree hcached hwithin hsupplied
    exact ⟨0, next, by simp [step, heq], recorded', howns⟩

/-- Every run that frees no cached address returns, and no page belongs to two of the
allocations that are live then. -/
theorem calls_noPageTwice (calls : List Call)
    (h : Guarded (step process) (fun state call =>
      Supplied process state call ∧ WithinBlocks state call ∧ NotCached state call)
      (initialState process) calls) :
    ∃ answers last, run (step process) (initialState process) calls = some (answers, last) ∧
      NoPageTwice last := by
  obtain ⟨answers, last, hrun, recorded, howns⟩ := run_invariant (step_owns process)
    ⟨_, owns_initialState process⟩ h
  exact ⟨answers, last, hrun, howns.noPageTwice⟩

end

def smallProcess : Process where
  config := VSwamp.smallSwamp
  fKernel := false

def oneFrame (frame : Nat) : Env where
  supplies := [⟨frame, 1, 1⟩]
  nFakemapped := 0
  memory := some (List.replicate pageblockNEntries ⟨0, 0⟩)
  newNode := none

def noFlags : Flags where
  noFakemap := false
  pureVirtual := false

def allocTwice : List Call :=
  [.memAlloc 1 noFlags (oneFrame 10), .memFree 0x100000 none,
    .memAlloc 1 noFlags (oneFrame 11), .memAlloc 1 noFlags (oneFrame 12)]

theorem calls_noPageTwice_allocTwice :
    ∃ answers last, run (step smallProcess) (initialState smallProcess) allocTwice =
        some (answers, last) ∧ last.live = [(0x101000, 1), (0x100000, 1)] ∧ NoPageTwice last := by
  have hrun : ((run (step smallProcess) (initialState smallProcess) allocTwice).any
      fun r => decide (r.2.live = [(0x101000, 1), (0x100000, 1)])) = true := by decide +kernel
  obtain ⟨⟨answers, last⟩, hlast, hlive⟩ := (any_eq_true _ _).mp hrun
  obtain ⟨answers', last', hlast', hdisjoint⟩ :=
    calls_noPageTwice smallProcess allocTwice (by decide +kernel)
  obtain ⟨rfl, rfl⟩ := Prod.mk.inj (some.inj (hlast.symm.trans hlast'))
  exact ⟨answers, last, hlast, of_decide_eq_true hlive, hdisjoint⟩

def freeTwice : List Call :=
  [.memAlloc 1 noFlags (oneFrame 10), .memFree 0x100000 none, .memFree 0x100000 none,
    .memAlloc 1 noFlags (oneFrame 11), .memAlloc 1 noFlags (oneFrame 12)]

theorem freeTwice_pageTwice :
    ¬ ∀ calls, Guarded (step smallProcess) (Supplied smallProcess) (initialState smallProcess)
        calls → ∀ answers last, run (step smallProcess) (initialState smallProcess) calls =
        some (answers, last) → NoPageTwice last := by
  intro hclaim
  have hrun : ((run (step smallProcess) (initialState smallProcess) freeTwice).any
      fun r => decide (r.2.live = [(0x100000, 1), (0x100000, 1)])) = true := by decide +kernel
  obtain ⟨⟨answers, last⟩, hlast, hlive⟩ := (any_eq_true _ _).mp hrun
  have hdisjoint := hclaim freeTwice (by decide +kernel) answers last hlast
  have hlive' : last.live = [(0x100000, 1), (0x100000, 1)] := of_decide_eq_true hlive
  rw [NoPageTwice, hlive', pairwise_pair] at hdisjoint
  exact hdisjoint 0x100 (by decide)

end Zambesii.MemoryStream
