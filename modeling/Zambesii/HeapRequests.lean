import Zambesii.HeapGuardPages

/-!
The sizes that `Heap::malloc` is asked for: with the header, the guard page, the bytes up to the
next word and the gap they have to stay below 2^32.
-/

namespace Zambesii.HeapRequests

open KernelTypes KernelHeap HeapGuardPages HeapTiling
open Runs

def withHeader (sz : Nat) : Nat :=
  sz + sizeofAllocation

def withPage (config : Config) (sz : Nat) : Nat :=
  withHeader sz + if config.guardPaged then pagingBaseSize else 0

structure NoWrap (config : Config) (sz : Nat) : Prop where
  header : withHeader sz < wordModulus
  page : withPage config sz < wordModulus
  word : withPage config sz % sizeofWord ≠ 0 → withPage config sz + sizeofWord < wordModulus
  gap : gapRequirement config (roundSize config sz) + roundSize config sz < wordModulus

/-- The pointer `p` has `sz` bytes inside of one chunk, in front of the guard page. -/
def Placed (config : Config) (heap : Heap) (p sz : Nat) : Prop :=
  ∃ chunk ∈ heap.chunkList, ∃ alloc ∈ heap.allocationList, p = pointer alloc ∧
    chunk.addr ≤ p ∧ p + sz ≤ chunk.addr + config.chunkSize ∧
    (config.guardPaged = true → p + sz ≤ guardPageStart alloc ∧
      guardPageStart alloc + pagingBaseSize ≤ chunk.addr + config.chunkSize)

def Answered (config : Config) (_ : State) : Call → Option Nat → State → Prop
  | .malloc sz _ _, result, next =>
    NoWrap config sz ∧ ∀ p ∈ result, Placed config next.heap p sz
  | .free _, _, _ => True

def largestSize (config : Config) : Nat :=
  if config.guardPaged then wordModulus - 8272 else wordModulus - 80

def AtMostLargest (config : Config) (_ : State) : Call → Prop
  | .malloc sz _ _ => sz ≤ largestSize config
  | .free _ => True

instance (config : Config) (state : State) : ∀ call, Decidable (AtMostLargest config state call)
  | .malloc _ _ _ => inferInstanceAs (Decidable (_ ≤ _))
  | .free _ => inferInstanceAs (Decidable True)

def asksForNothing : Call → Bool
  | .malloc sz _ _ => decide (sz = 0)
  | .free _ => false

def Asks (config : Config) (state : State) (call : Call) : Prop :=
  Proper config state call ∧ asksForNothing call = false

instance (config : Config) (state : State) (call : Call) : Decidable (Asks config state call) :=
  inferInstanceAs (Decidable (_ ∧ _))

section

variable {config : Config} {sz : Nat}

theorem fits_iff_le (config : Config) (sz : Nat) :
    fullSize config sz + gapRequirement config (fullSize config sz) < wordModulus ↔
      sz ≤ largestSize config := by
  unfold fullSize gapRequirement largestSize sizeofAllocation sizeofWord wordModulus
    pagingBaseSize
  cases config.guardPaged with
  | true =>
    simp only [if_true]
    omega
  | false =>
    simp only [Bool.false_eq_true, if_false]
    omega

theorem noWrap_of_fits
    (h : fullSize config sz + gapRequirement config (fullSize config sz) < wordModulus) :
    NoWrap config sz := by
  have hround : roundSize config sz = fullSize config sz :=
    roundSize_eq (lt_of_le_of_lt (Nat.le_add_right _ _) h)
  have hpage : withPage config sz ≤ fullSize config sz := by
    unfold withPage withHeader fullSize sizeofWord
    omega
  refine ⟨?_, ?_, ?_, ?_⟩
  · unfold withPage at hpage
    omega
  · omega
  · intro hword
    have haligned : fullSize config sz % sizeofWord = 0 := by exact Nat.mul_mod_left _ _
    unfold wordModulus sizeofWord at *
    omega
  · rw [hround, add_comm]
    exact h

theorem fullSize_eq_of_noWrap (h : NoWrap config sz) : fullSize config sz < wordModulus := by
  have hpage := h.page
  have hword := h.word
  have hfull : fullSize config sz =
      (withPage config sz + (sizeofWord - 1)) / sizeofWord * sizeofWord := rfl
  unfold wordModulus sizeofWord at *
  omega

theorem noWrap_iff (config : Config) (sz : Nat) : NoWrap config sz ↔ sz ≤ largestSize config := by
  rw [← fits_iff_le]
  constructor
  · intro h
    have hround : roundSize config sz = fullSize config sz := roundSize_eq (fullSize_eq_of_noWrap h)
    have hgap := h.gap
    rwa [hround, add_comm] at hgap
  · exact noWrap_of_fits

end

section

variable {config : Config} {state next : State}

theorem Asks.ne_malloc_zero {call : Call} (h : Asks config state call)
    (first second : Option Nat) : call ≠ .malloc 0 first second := by
  rintro rfl
  exact Bool.noConfusion h.2

theorem fitting_of_atMost {call : Call} (hasks : Asks config state call)
    (hle : AtMostLargest config state call) : Fitting config state call := by
  refine ⟨hasks.1, ?_⟩
  cases call with
  | malloc sz first second => exact (fits_iff_le config sz).2 hle
  | free p => trivial

theorem placed_of_listed {alloc : Allocation} {sz : Nat} (h : StateOk config state)
    (hmem : alloc ∈ state.heap.allocationList) (hbytes : alloc.nBytes = fullSize config sz) :
    Placed config state.heap (pointer alloc) sz := by
  obtain ⟨chunk, hchunk, hparent⟩ := h.1.alloc_parent alloc hmem
  have hbounds := Sound.span_bounds h.1 hchunk hparent hmem
  have hsize := fullSize_le config sz
  simp only [allocSpan] at hbounds
  refine ⟨chunk, hchunk, alloc, hmem, rfl, ?_, ?_, ?_⟩
  · unfold pointer
    omega
  · unfold pointer
    omega
  · intro hpaged
    have hguard := hasGuardPage hpaged h.1 hmem hbytes
    refine ⟨hguard.user_le, ?_⟩
    rw [hguard.within]
    exact hbounds.2

theorem answered_of_step {call : Call} {result : Option Nat} (h : StateOk config state)
    (hasks : Asks config state call) (hle : AtMostLargest config state call)
    (hstep : step config state call = some (result, next)) :
    Answered config state call result next := by
  have hfit := fitting_of_atMost hasks hle
  have hnext := h.of_step hfit hstep
  cases call with
  | malloc sz first second =>
    refine ⟨(noWrap_iff config sz).2 hle, ?_⟩
    intro p hp
    rcases malloc_listed h hfit hstep with ⟨rfl, -⟩ | ⟨alloc, rfl, hbytes, hlist⟩
    · cases hp
    cases hp
    have hmem : alloc ∈ next.heap.allocationList := by
      rw [hlist]
      exact List.mem_append_right _ (List.mem_singleton_self alloc)
    exact placed_of_listed hnext hmem hbytes
  | free p => trivial

/-- Exactly the runs whose sizes are at most the largest one give every caller of `malloc` the
bytes that it asked for, or `NULL`, without a size that wraps around. -/
theorem meets_answered_iff (config : Config) (calls : List Call)
    (h : Guarded (step config) (Asks config) .initial calls) :
    Meets (step config) (Answered config) .initial calls ↔
      Guarded (step config) (AtMostLargest config) .initial calls := by
  refine @meets_iff_guarded_of_faults _ _ _ _ _ _ (StateOk config) (Asks config) _ ?_ ?_ _
    (stateOk_initial config) h
  · intro state call hok hasks hle
    obtain ⟨result, next, hstep, hnext⟩ := hok.step (fitting_of_atMost hasks hle) hasks.ne_malloc_zero
    exact ⟨result, next, hstep, answered_of_step hok hasks hle hstep, hnext⟩
  · intro state call result next hok hasks hlarge hstep hanswered
    cases call with
    | malloc sz first second => exact hlarge ((noWrap_iff config sz).1 hanswered.1)
    | free p => exact hlarge trivial

theorem meets_answered_mallocTwice : Meets (step kheap) (Answered kheap) .initial mallocTwice :=
  (meets_answered_iff kheap mallocTwice (by decide +kernel)).2 (by decide +kernel)

theorem mallocNothing_not_answered :
    ¬ Meets (step kheap) (Answered kheap) .initial mallocNothing := by
  rintro ⟨result, next, hstep, ⟨-, hplaced⟩, -⟩
  have hanswer : ((step kheap .initial (.malloc 0xffffffb4 (some 0x100000) none)).any fun r =>
      decide (r.1 = some 0x10204c) && r.2.heap.chunkList.all fun chunk =>
        decide (chunk.addr + kheap.chunkSize < 0x10204c + 0xffffffb4)) = true := by
    decide +kernel
  rw [hstep, Option.any_some, Bool.and_eq_true, decide_eq_true_iff, List.all_eq_true] at hanswer
  obtain ⟨chunk, hchunk, -, -, -, -, hend, -⟩ := hplaced 0x10204c hanswer.1
  have hshort := of_decide_eq_true (hanswer.2 chunk hchunk)
  exact absurd hend (Nat.not_le.2 hshort)

end

end Zambesii.HeapRequests
