import Zambesii.HeapTiling

/-!
The heap with guard pages: every block starts on a page, and the last page of an allocation is
its guard page, right after the bytes that were asked for.
-/

namespace Zambesii.HeapGuardPages

open HeapTiling KernelHeap KernelTypes List Runs

def guardPageStart (alloc : Allocation) : Nat :=
  wordSub (wordAdd alloc.addr alloc.nBytes) pagingBaseSize

/-- The guard page of an allocation for which `sz` bytes were asked. -/
structure HasGuardPage (alloc : Allocation) (sz : Nat) : Prop where
  span_aligned : pagingBaseSize ∣ (allocSpan alloc).1
  span_le : (allocSpan alloc).1 ≤ alloc.addr
  page_aligned : pagingBaseSize ∣ guardPageStart alloc
  user_le : pointer alloc + sz ≤ guardPageStart alloc
  lt_user : guardPageStart alloc < pointer alloc + sz + sizeofWord
  within : guardPageStart alloc + pagingBaseSize = (allocSpan alloc).1 + (allocSpan alloc).2

/-- The guard page of `alloc` is outside the span of `other`. -/
def GuardApart (alloc other : Allocation) : Prop :=
  guardPageStart alloc + pagingBaseSize ≤ (allocSpan other).1 ∨
    (allocSpan other).1 + (allocSpan other).2 ≤ guardPageStart alloc

structure Served where
  state : State
  sizes : List (Nat × Nat)
deriving DecidableEq

def Served.initial : Served := ⟨.initial, []⟩

def record (sizes : List (Nat × Nat)) : Call → Option Nat → List (Nat × Nat)
  | .malloc sz _ _, some p => sizes ++ [(p, sz)]
  | .malloc _ _ _, none => sizes
  | .free p, _ => sizes.eraseP fun entry => decide (entry.1 = p)

def serve (config : Config) (served : Served) (call : Call) : Option (Option Nat × Served) :=
  match step config served.state call with
  | none => none
  | some (result, state) => some (result, ⟨state, record served.sizes call result⟩)

structure GuardPaged (served : Served) : Prop where
  blocks_aligned : ∀ chunk ∈ served.state.heap.chunkList, ∀ block ∈ chunk.blocks,
    pagingBaseSize ∣ block.addr
  guarded : List.Forall₂ (fun alloc entry => entry.1 = pointer alloc ∧ HasGuardPage alloc entry.2)
    served.state.heap.allocationList served.sizes
  apart : served.state.heap.allocationList.Pairwise fun alloc other =>
    GuardApart alloc other ∧ GuardApart other alloc

section

variable {config : Config} {heap : Heap} {alloc other : Allocation}

def SpansApart (alloc other : Allocation) : Prop :=
  (allocSpan alloc).1 + (allocSpan alloc).2 ≤ (allocSpan other).1 ∨
    (allocSpan other).1 + (allocSpan other).2 ≤ (allocSpan alloc).1

variable (h : Sound config heap 0 0)

include h

theorem Sound.span_bounds {chunk : Chunk}
    (hmem : chunk ∈ heap.chunkList) (hparent : chunk.addr = alloc.parent)
    (halloc : alloc ∈ heap.allocationList) : chunk.addr ≤ (allocSpan alloc).1 ∧
      (allocSpan alloc).1 + (allocSpan alloc).2 ≤ chunk.addr + config.chunkSize := by
  have hbounds := (h.layout chunk hmem).bounds
    (Multiset.mem_add.mpr (.inl (Sound.allocSpan_mem hparent halloc)))
    (h.alloc_ok alloc halloc).span_pos
  omega

theorem spansApart_of_sublist
    (hpair : [alloc, other].Sublist heap.allocationList) : SpansApart alloc other := by
  have halloc : alloc ∈ heap.allocationList := hpair.subset (by simp)
  have hother : other ∈ heap.allocationList := hpair.subset (by simp)
  obtain ⟨chunk, hchunk, hparent⟩ := h.alloc_parent alloc halloc
  obtain ⟨chunk', hchunk', hparent'⟩ := h.alloc_parent other hother
  rcases eq_or_ne chunk chunk' with rfl | hne
  · have hlisted : [alloc, other].Sublist (allocsOf heap chunk.addr) := by
      have hfilter := hpair.filter fun alloc => decide (alloc.parent = chunk.addr)
      rw [filter_cons_of_pos (by simp [hparent]),
        filter_cons_of_pos (by simp [hparent'])] at hfilter
      exact hfilter
    obtain ⟨rest, hrest⟩ := Multiset.le_iff_exists_add.mp
      (Multiset.coe_le.mpr (hlisted.map allocSpan).subperm)
    have hlayout := h.layout chunk hchunk
    rw [hrest, Pi.zero_apply, add_zero, map_cons, map_cons, ← Multiset.cons_coe,
      ← Multiset.cons_coe, Multiset.cons_add, Multiset.cons_add] at hlayout
    exact hlayout.separate (h.alloc_ok alloc halloc).span_pos (h.alloc_ok other hother).span_pos
  · have hbounds := Sound.span_bounds h hchunk hparent halloc
    have hbounds' := Sound.span_bounds h hchunk' hparent' hother
    have hapart := h.apart_of_ne hchunk hchunk' hne
    unfold SpansApart
    omega

theorem spansApart_of_sound : heap.allocationList.Pairwise SpansApart := by
  rw [pairwise_iff_forall_sublist]
  intro alloc other hpair
  exact spansApart_of_sublist h hpair

omit h

end

section

variable {config : Config} {heap : Heap} {alloc other : Allocation} {sz : Nat}

theorem blocks_aligned (hpaged : config.guardPaged = true) (h : Sound config heap 0 0) :
    ∀ chunk ∈ heap.chunkList, ∀ block ∈ chunk.blocks, pagingBaseSize ∣ block.addr := by
  intro chunk hchunk block hblock
  have haligned := ((h.layout chunk hchunk).blocks_ok block hblock).aligned
  rw [alignment, if_pos hpaged] at haligned
  exact haligned

theorem fullSize_bounds (hpaged : config.guardPaged = true) (sz : Nat) :
    sz + sizeofAllocation + pagingBaseSize ≤ fullSize config sz ∧
      fullSize config sz < sz + sizeofAllocation + pagingBaseSize + sizeofWord := by
  unfold fullSize sizeofWord
  rw [if_pos hpaged]
  omega

theorem guardPageStart_eq (h : Sound config heap 0 0) (halloc : alloc ∈ heap.allocationList)
    (hpage : pagingBaseSize ≤ alloc.nBytes) :
    guardPageStart alloc + pagingBaseSize = alloc.addr + alloc.nBytes := by
  obtain ⟨chunk, hmem, hparent⟩ := h.alloc_parent alloc halloc
  have hwithin := h.alloc_within hmem hparent halloc
  have hend := h.chunk_end chunk hmem
  unfold guardPageStart
  rw [wordAdd_of_lt (by omega), wordSub_of_le (by omega) (by omega)]
  omega

theorem hasGuardPage (hpaged : config.guardPaged = true) (h : Sound config heap 0 0)
    (halloc : alloc ∈ heap.allocationList) (hsize : alloc.nBytes = fullSize config sz) :
    HasGuardPage alloc sz := by
  have hok := h.alloc_ok alloc halloc
  have hgap := hok.gap_le
  have haligned := hok.aligned
  have hbytes := hok.aligned_bytes
  rw [alignment, if_pos hpaged] at haligned hbytes
  obtain ⟨hle, hlt⟩ := fullSize_bounds hpaged sz
  have hstart := guardPageStart_eq h halloc (by omega)
  have hwithin : guardPageStart alloc + pagingBaseSize =
      (allocSpan alloc).1 + (allocSpan alloc).2 := by
    simp only [allocSpan]
    omega
  refine ⟨haligned, Nat.sub_le _ _, ?_, ?_, ?_, hwithin⟩
  · rw [Nat.dvd_add_iff_left (dvd_refl pagingBaseSize), hwithin]
    exact Nat.dvd_add haligned hbytes
  · unfold pointer
    omega
  · unfold pointer
    omega

theorem guardApart_of_spansApart (hguard : HasGuardPage alloc sz) (h : SpansApart alloc other) :
    GuardApart alloc other := by
  have hwithin := hguard.within
  have hspan := hguard.span_le
  have huser := hguard.user_le
  unfold SpansApart at h
  unfold pointer at huser
  unfold GuardApart
  omega

end

section

variable {config : Config} {heap heap' : Heap} {alloc : Allocation} {sz : Nat}

theorem chunk_malloc_nBytes {chunk : Chunk}
    (h : chunk.malloc config heap sz = some (some alloc, heap')) : alloc.nBytes = sz := by
  unfold Chunk.malloc constructCounted at h
  dsimp only at h
  split at h
  · cases h
  · cases h
  split at h
  · cases h
    rfl
  · split at h
    · cases h
    · cases h
      rfl

theorem mallocFrom_nBytes {chunks : List Chunk}
    (h : mallocFrom config heap sz chunks = some (some alloc, heap')) : alloc.nBytes = sz := by
  induction chunks with
  | nil => cases h
  | cons chunk chunks ih =>
    unfold mallocFrom at h
    split at h
    · cases h
    split at h
    · cases h
    · exact ih h
    · next heq =>
      cases h
      exact chunk_malloc_nBytes heq

theorem mallocPasses_nBytes {supplies : List (Option Nat)}
    (h : mallocPasses config sz supplies heap = some (some alloc, heap')) : alloc.nBytes = sz := by
  induction supplies generalizing heap with
  | nil => cases h
  | cons supply supplies ih =>
    unfold mallocPasses at h
    split at h
    · cases h
    · next heq =>
      cases h
      exact mallocFrom_nBytes heq
    · split at h
      · cases h
      · exact ih h

theorem malloc_nBytes {first second : Option Nat} {p : Nat}
    (h : heap.malloc config sz first second = some (some p, heap')) :
    ∃ allocs alloc, heap'.allocationList = allocs ++ [alloc] ∧
      alloc.nBytes = roundSize config sz := by
  unfold Heap.malloc at h
  split at h
  · cases h
  split at h
  · cases h
  · cases h
  · next heq =>
    cases h
    exact ⟨_, _, rfl, mallocPasses_nBytes heq⟩

end

section

variable {config : Config} {state next : State}

def Listed (config : Config) (alloc : Allocation) (entry : Nat × Nat) : Prop :=
  entry.1 = pointer alloc ∧ alloc.nBytes = fullSize config entry.2

def ServedOk (config : Config) (served : Served) : Prop :=
  StateOk config served.state ∧
    List.Forall₂ (Listed config) served.state.heap.allocationList served.sizes

variable {result : Option Nat} {allocs : List Allocation} {sizes : List (Nat × Nat)}

theorem malloc_listed {sz : Nat} {first second : Option Nat} (h : StateOk config state)
    (hfit : Fitting config state (.malloc sz first second))
    (hstep : step config state (.malloc sz first second) = some (result, next)) :
    (result = none ∧ next.heap.allocationList = state.heap.allocationList) ∨
      ∃ alloc, result = some (pointer alloc) ∧ alloc.nBytes = fullSize config sz ∧
        next.heap.allocationList = state.heap.allocationList ++ [alloc] := by
  have hnext := h.of_step hfit hstep
  have hpos : sz ≠ 0 := by
    rintro rfl
    cases hstep
  have hsize : roundSize config sz = fullSize config sz :=
    roundSize_eq (lt_of_le_of_lt (Nat.le_add_right _ _) hfit.2)
  obtain ⟨heap', -, hanswer⟩ := h.1.malloc hpos hfit.2 (suppliedAll_of_proper hfit.1)
  unfold step at hstep
  dsimp only at hstep
  rcases hanswer with ⟨heq, hsame⟩ | ⟨alloc, heq, hlist⟩
  · rw [heq] at hstep
    cases hstep
    exact .inl ⟨rfl, hsame⟩
  obtain ⟨allocs, last, hlast, hbytes⟩ := malloc_nBytes heq
  obtain ⟨-, hsame⟩ := append_inj' (hlist.symm.trans hlast) rfl
  obtain rfl : alloc = last := singleton_inj.mp hsame
  rw [heq] at hstep
  cases hstep
  -- the pointer is the last of the live ones
  have hlive := hnext.2
  rw [hlist, map_append, h.2] at hlive
  have hpointer := append_cancel_left hlive
  refine .inr ⟨alloc, ?_, hbytes.trans hsize, hlist⟩
  exact congrArg some (singleton_inj.mp hpointer)

theorem free_listed {p : Nat} (h : StateOk config state) (hmem : p ∈ state.live)
    (hstep : step config state (.free p) = some (result, next)) :
    ∃ addr, p = addr + sizeofAllocation ∧
      next.heap.allocationList = removeAllocation addr state.heap.allocationList := by
  rw [h.2] at hmem
  obtain ⟨alloc, halloc, rfl⟩ := mem_map.mp hmem
  obtain ⟨heap', heq, hlist, -⟩ := h.1.free halloc
  unfold step at hstep
  dsimp only at hstep
  rw [heq] at hstep
  cases hstep
  exact ⟨alloc.addr, rfl, hlist⟩

theorem forall₂_remove (addr : Nat) (h : List.Forall₂ (Listed config) allocs sizes) :
    List.Forall₂ (Listed config) (removeAllocation addr allocs)
      (sizes.eraseP fun entry => decide (entry.1 = addr + sizeofAllocation)) := by
  unfold removeAllocation
  induction h with
  | nil => exact .nil
  | @cons alloc entry allocs sizes hlisted hrest ih =>
    have hpointer : entry.1 = alloc.addr + sizeofAllocation := hlisted.1
    rcases eq_or_ne alloc.addr addr with haddr | hne
    · rw [eraseP_cons_of_pos (by simpa using haddr),
        eraseP_cons_of_pos (by simp [hpointer, haddr])]
      exact hrest
    · rw [eraseP_cons_of_neg (by simpa using hne),
        eraseP_cons_of_neg (by simp [hpointer, hne])]
      exact .cons hlisted ih

theorem ServedOk.serve {served next : Served} {call : Call} (h : ServedOk config served)
    (hfit : Fitting config served.state call)
    (hserve : serve config served call = some (result, next)) : ServedOk config next := by
  obtain ⟨hok, hlisted⟩ := h
  unfold HeapGuardPages.serve at hserve
  split at hserve
  · cases hserve
  next result' state hstep =>
  cases hserve
  refine ⟨hok.of_step hfit hstep, ?_⟩
  cases call with
  | malloc sz first second =>
    rcases malloc_listed hok hfit hstep with ⟨rfl, hsame⟩ | ⟨alloc, rfl, hbytes, hlist⟩
    · dsimp only [record]
      rw [hsame]
      exact hlisted
    · dsimp only [record]
      rw [hlist]
      exact rel_append hlisted (.cons ⟨rfl, hbytes⟩ .nil)
  | free p =>
    obtain ⟨addr, rfl, hlist⟩ := free_listed hok hfit.1 hstep
    dsimp only [record]
    rw [hlist]
    exact forall₂_remove addr hlisted

theorem forall₂_hasGuardPage {heap : Heap} (hpaged : config.guardPaged = true)
    (h : Sound config heap 0 0) (hsub : allocs ⊆ heap.allocationList)
    (hlisted : List.Forall₂ (Listed config) allocs sizes) :
    List.Forall₂ (fun alloc entry => entry.1 = pointer alloc ∧ HasGuardPage alloc entry.2)
      allocs sizes := by
  induction hlisted with
  | nil => exact .nil
  | cons hfirst hrest ih =>
    obtain ⟨hhead, htail⟩ := cons_subset.mp hsub
    exact .cons ⟨hfirst.1, hasGuardPage hpaged h hhead hfirst.2⟩ (ih htail)

theorem exists_size {alloc : Allocation} (h : List.Forall₂ (Listed config) allocs sizes)
    (hmem : alloc ∈ allocs) : ∃ sz, alloc.nBytes = fullSize config sz := by
  induction h with
  | nil => cases hmem
  | @cons first entry rest sizes hfirst hrest ih =>
    rcases mem_cons.mp hmem with rfl | hmem
    · exact ⟨entry.2, hfirst.2⟩
    · exact ih hmem

theorem guardApart_of_sound {heap : Heap} (hpaged : config.guardPaged = true)
    (h : Sound config heap 0 0)
    (hsizes : ∀ alloc ∈ heap.allocationList, ∃ sz, alloc.nBytes = fullSize config sz) :
    heap.allocationList.Pairwise fun alloc other =>
      GuardApart alloc other ∧ GuardApart other alloc := by
  refine List.Pairwise.imp_of_mem ?_ (spansApart_of_sound h)
  intro alloc other halloc hother hapart
  obtain ⟨sz, hsize⟩ := hsizes alloc halloc
  obtain ⟨sz', hsize'⟩ := hsizes other hother
  exact ⟨guardApart_of_spansApart (hasGuardPage hpaged h halloc hsize) hapart,
    guardApart_of_spansApart (hasGuardPage hpaged h hother hsize') hapart.symm⟩

theorem ServedOk.guardPaged {served : Served} (hpaged : config.guardPaged = true)
    (h : ServedOk config served) : GuardPaged served := by
  obtain ⟨hok, hlisted⟩ := h
  refine ⟨blocks_aligned hpaged hok.1, ?_, ?_⟩
  · exact forall₂_hasGuardPage hpaged hok.1 (List.Subset.refl _) hlisted
  · refine guardApart_of_sound hpaged hok.1 ?_
    intro alloc halloc
    exact exists_size hlisted halloc

/-- As long as no size wraps around, no call panics over the pages, and every allocation has its
guard page. -/
theorem calls_guardPaged (config : Config) (hpaged : config.guardPaged = true) (served : Served)
    (h : Reachable (fun served => served = .initial)
      (GuardedStep (serve config) fun served => Fitting config served.state) served) :
    GuardPaged served ∧
      ∀ call, Fitting config served.state call → (∀ first second, call ≠ .malloc 0 first second) →
        (serve config served call).isSome := by
  have hok : ServedOk config served := by
    refine h.invariant ?_ ?_
    · rintro served rfl
      exact ⟨stateOk_initial config, .nil⟩
    · rintro served next hok ⟨call, result, hfit, hserve⟩
      exact hok.serve hfit hserve
  refine ⟨hok.guardPaged hpaged, ?_⟩
  intro call hfit hasks
  obtain ⟨result, next, hstep, -⟩ := hok.1.step hfit hasks
  unfold HeapGuardPages.serve
  rw [hstep]
  rfl

theorem calls_guardPaged_mallocTwice :
    ∃ answers last, run (serve kheap) .initial mallocTwice = some (answers, last) ∧
      last.sizes = [(0x103c78, 5000)] ∧ GuardPaged last := by
  have hrun : ((run (serve kheap) .initial mallocTwice).any
      fun r => decide (r.2.sizes = [(0x103c78, 5000)])) = true := by
    decide +kernel
  obtain ⟨⟨answers, last⟩, hlast, hsizes⟩ := (Option.any_eq_true _ _).mp hrun
  obtain ⟨hguard, -⟩ := calls_guardPaged kheap rfl last
    (reachable_of_run (reachable_of_init rfl) (by decide +kernel) hlast)
  exact ⟨answers, last, hlast, of_decide_eq_true hsizes, hguard⟩

def mallocNothing : List Call :=
  [.malloc 0xffffffb4 (some 0x100000) none]

theorem mallocNothing_not_guardPaged :
    ¬ ∀ served, Reachable (fun served => served = .initial)
        (GuardedStep (serve kheap) fun served => Proper kheap served.state) served →
      GuardPaged served := by
  intro hclaim
  have hrun : ((run (serve kheap) .initial mallocNothing).any
      fun r => decide (r.2.state.heap.allocationList =
          [⟨0x102000, 0x100000, 0x1000, 0x1000, .fresh⟩] ∧
        r.2.sizes = [(0x10204c, 0xffffffb4)])) = true := by
    decide +kernel
  obtain ⟨⟨answers, last⟩, hlast, hheap⟩ := (Option.any_eq_true _ _).mp hrun
  have hguarded := (hclaim last
    (reachable_of_run (reachable_of_init rfl) (by decide +kernel) hlast)).guarded
  obtain ⟨hallocs, hsizes⟩ := of_decide_eq_true hheap
  rw [hallocs, hsizes] at hguarded
  obtain ⟨⟨-, hpage⟩, -⟩ := forall₂_cons.mp hguarded
  exact absurd hpage.user_le (by decide)

end

end Zambesii.HeapGuardPages
