import Zambesii.VSwamp

/-!
`VaddrSpaceStream`: the virtual pages of a process, from a cache of single pages
(`StackCache`) in front of the swamp. Unlike in `VSwamp` the allocation of a node may fail
here: pages are then not given back, or the swamp's `tail` is lost, which nothing reads.
-/

namespace Zambesii

structure VaddrSpaceStream where
  pageCache : List Nat
  swamp : VSwamp.SwampState

namespace VaddrSpaceStream

open KernelTypes LinkedCells List Tiling VSwamp

/-- `STACKCACHE_STACK1_SIZE`: the one category that is cached. -/
def stackcacheStack1Size : Nat := 1

def cachestackMaxNItems : Nat := pagingBaseSize / 4

/-- `StackCache::push`; the cache has its top first. -/
def stackCachePush (cache : List Nat) (category item : Nat) : Option (List Nat) :=
  if category = stackcacheStack1Size ∧ cache.length ≠ cachestackMaxNItems then some (item :: cache)
  else none

def stackCachePop (cache : List Nat) (category : Nat) : Option (Nat × List Nat) :=
  match cache with
  | item :: rest => if category = stackcacheStack1Size then some (item, rest) else none
  | [] => none

/-- `VSwamp::releasePages` when `getNewSwampNode` returns a null pointer. The branches that
need no node are those of `releasePages`. -/
def releasePagesNoNode (initSwampNode : Ptr) (state : SwampState) (vaddr nPages : Nat) :
    Option SwampState :=
  if vaddr = 0 ∨ vaddr % pagingBaseSize ≠ 0 ∨ nPages = 0 then some state
  else do
    let (insertionNode, status) ← findInsertionNode state.mem vaddr nodeLimit 0 state.head
    if insertionNode = 0 then some state
    else
      match status with
      | .insertBefore =>
        let cell ← state.mem insertionNode
        if (vaddr + nPages * pagingBaseSize) % wordModulus = cell.payload.baseAddr then
          releasePages initSwampNode state vaddr nPages 0
        else some state
      | .insertAfter =>
        if state.head = 0 then releasePages initSwampNode state vaddr nPages 0
        else
          let mem ← setNext state.mem insertionNode 0
          some ⟨mem, state.head, 0⟩

/-- `VSwamp::releasePages`, with what the node cache returns. -/
def releaseToSwamp (initSwampNode : Ptr) (state : SwampState) (vaddr nPages : Nat) :
    Option Ptr → Option SwampState
  | none => releasePagesNoNode initSwampNode state vaddr nPages
  | some newNode => releasePages initSwampNode state vaddr nPages newNode

def getPages (initSwampNode : Ptr) (stream : VaddrSpaceStream) (nPages : Nat) :
    Option (Nat × VaddrSpaceStream) :=
  match stackCachePop stream.pageCache nPages with
  | some (ret, pageCache) => some (ret, { stream with pageCache := pageCache })
  | none => (VSwamp.getPages initSwampNode stream.swamp nPages).map fun r =>
    (r.1, { stream with swamp := r.2 })

def releasePages (initSwampNode : Ptr) (stream : VaddrSpaceStream) (vaddr nPages : Nat)
    (newNode : Option Ptr) : Option VaddrSpaceStream :=
  match stackCachePush stream.pageCache nPages vaddr with
  | some pageCache => some { stream with pageCache := pageCache }
  | none => (releaseToSwamp initSwampNode stream.swamp vaddr nPages newNode).map fun swamp =>
    { stream with swamp := swamp }

def withTail (state : SwampState) (tail : Ptr) : SwampState :=
  { state with tail := tail }

theorem getPages_withTail {initSwampNode : Ptr} {state next : SwampState} {nPages vaddr : Nat}
    (h : VSwamp.getPages initSwampNode state nPages = some (vaddr, next)) (tail : Ptr) :
    ∃ tail', VSwamp.getPages initSwampNode (withTail state tail) nPages =
      some (vaddr, withTail next tail') := by
  unfold VSwamp.getPages at h ⊢
  obtain ⟨currentNode, hseek, h⟩ := Option.bind_eq_some_iff.mp h
  have hseek' : seek (withTail state tail).mem (fun node => decide (nPages ≤ node.nPages)) nodeLimit
      (withTail state tail).head = some currentNode := hseek
  rw [hseek']
  simp only [some_bind] at h ⊢
  split at h
  · rename_i hzero
    cases h
    exact ⟨tail, by rw [if_pos hzero]⟩
  rename_i hzero
  rw [if_neg hzero]
  obtain ⟨cell, hcell, h⟩ := Option.bind_eq_some_iff.mp h
  obtain ⟨mem, hmem, h⟩ := Option.bind_eq_some_iff.mp h
  have hcell' : (withTail state tail).mem currentNode = some cell := hcell
  rw [hcell', some_bind]
  have hmem' : setPayload (withTail state tail).mem currentNode
      ⟨(cell.payload.baseAddr + nPages * pagingBaseSize) % wordModulus,
        cell.payload.nPages - nPages⟩ = some mem := hmem
  rw [hmem', some_bind]
  split at h
  · rename_i hleft
    obtain ⟨mem', hdelete, h⟩ := Option.bind_eq_some_iff.mp h
    cases h
    exact ⟨_, by rw [if_pos hleft, hdelete]; rfl⟩
  · rename_i hleft
    cases h
    exact ⟨_, by rw [if_neg hleft]; rfl⟩

theorem releasePages_withTail {initSwampNode newNode : Ptr} {state next : SwampState}
    {vaddr nPages : Nat}
    (h : VSwamp.releasePages initSwampNode state vaddr nPages newNode = some next) (tail : Ptr) :
    ∃ tail', VSwamp.releasePages initSwampNode (withTail state tail) vaddr nPages newNode =
      some (withTail next tail') := by
  unfold VSwamp.releasePages at h ⊢
  rcases em (vaddr = 0 ∨ vaddr % pagingBaseSize ≠ 0 ∨ nPages = 0) with hargs | hargs
  · rw [if_pos hargs] at h ⊢
    cases h
    exact ⟨tail, rfl⟩
  rw [if_neg hargs] at h ⊢
  obtain ⟨⟨insertionNode, status⟩, hfind, h⟩ := Option.bind_eq_some_iff.mp h
  have hfind' : findInsertionNode (withTail state tail).mem vaddr nodeLimit 0
      (withTail state tail).head = some (insertionNode, status) := hfind
  rw [hfind']
  simp only [some_bind] at h ⊢
  rcases eq_or_ne insertionNode 0 with hzero | hzero
  · rw [if_pos hzero] at h ⊢
    cases h
    exact ⟨tail, rfl⟩
  rw [if_neg hzero] at h ⊢
  cases status with
  | insertBefore =>
    obtain ⟨cell, hcell, h⟩ := Option.bind_eq_some_iff.mp h
    have hcell' : (withTail state tail).mem insertionNode = some cell := hcell
    rw [hcell', some_bind]
    rcases eq_or_ne ((vaddr + nPages * pagingBaseSize) % wordModulus)
      cell.payload.baseAddr with hjoin | hjoin
    · rw [if_pos hjoin] at h ⊢
      obtain ⟨mem, hmem, h⟩ := Option.bind_eq_some_iff.mp h
      have hmem' : setPayload (withTail state tail).mem insertionNode
          ⟨vaddr, (cell.payload.nPages + nPages) % wordModulus⟩ = some mem := hmem
      rw [hmem', some_bind]
      rcases eq_or_ne cell.prev 0 with hprev | hprev
      · rw [if_pos hprev] at h ⊢
        cases h
        exact ⟨tail, rfl⟩
      rw [if_neg hprev] at h ⊢
      obtain ⟨prevCell, hprevCell, h⟩ := Option.bind_eq_some_iff.mp h
      rw [hprevCell, some_bind]
      split at h
      · rename_i hboth
        rw [if_pos hboth]
        obtain ⟨mem', hmem', h⟩ := Option.bind_eq_some_iff.mp h
        rw [hmem', some_bind]
        obtain ⟨mem'', hdelete, h⟩ := Option.bind_eq_some_iff.mp h
        rw [hdelete, some_bind]
        cases h
        exact ⟨tail, rfl⟩
      · rename_i hboth
        cases h
        exact ⟨tail, by rw [if_neg hboth]; rfl⟩
    · rw [if_neg hjoin] at h ⊢
      obtain ⟨mem, hmem, h⟩ := Option.bind_eq_some_iff.mp h
      have hmem' : setPrev (store (withTail state tail).mem newNode
          ⟨⟨vaddr, nPages⟩, cell.prev, insertionNode⟩) insertionNode newNode = some mem := hmem
      rw [hmem', some_bind]
      rcases eq_or_ne cell.prev 0 with hprev | hprev
      · rw [if_pos hprev] at h ⊢
        cases h
        exact ⟨tail, rfl⟩
      rw [if_neg hprev] at h ⊢
      obtain ⟨mem', hmem', h⟩ := Option.bind_eq_some_iff.mp h
      rw [hmem', some_bind]
      cases h
      exact ⟨tail, rfl⟩
  | insertAfter =>
    dsimp only at h ⊢
    split at h
    · rename_i hhead
      cases h
      have hhead' : (withTail state tail).head = 0 := hhead
      exact ⟨initSwampNode, by rw [if_pos hhead']; rfl⟩
    rename_i hhead
    have hhead' : ¬ (withTail state tail).head = 0 := hhead
    rw [if_neg hhead']
    obtain ⟨mem, hmem, h⟩ := Option.bind_eq_some_iff.mp h
    have hmem' : setNext (store (withTail state tail).mem newNode
        ⟨⟨vaddr, nPages⟩, insertionNode, 0⟩) insertionNode newNode = some mem := hmem
    rw [hmem', some_bind]
    cases h
    exact ⟨newNode, rfl⟩

section

variable {config : SwampConfig} {state : SwampState} {live : Multiset (Nat × Nat)}

/-- The swamp has given out the ranges in `live`. -/
def SwampHolds (config : SwampConfig) (state : SwampState) (live : Multiset (Nat × Nat)) : Prop :=
  ∃ tail cells, Partition config (withTail state tail) live cells

theorem SwampHolds.getPages (h : SwampHolds config state live) (nPages : Nat) :
    ∃ vaddr next, VSwamp.getPages config.initSwampNode state nPages = some (vaddr, next) ∧
      (vaddr = 0 ∧ SwampHolds config next live ∨
        vaddr ≠ 0 ∧ SwampHolds config next ((vaddr, nPages) ::ₘ live)) := by
  obtain ⟨tail, cells, hpartition⟩ := h
  obtain ⟨vaddr, next, cells', hstep, hnext, -⟩ := step_getPages hpartition nPages
  obtain ⟨⟨vaddr', swamp⟩, hget, heq⟩ := Option.map_eq_some_iff.mp hstep
  obtain ⟨rfl, rfl⟩ := Prod.mk.inj heq
  obtain ⟨tail', hget'⟩ := getPages_withTail hget state.tail
  refine ⟨vaddr', withTail swamp tail', hget', ?_⟩
  rcases eq_or_ne vaddr' 0 with hzero | hne
  · rw [if_pos hzero] at hnext
    exact .inl ⟨hzero, swamp.tail, cells', hnext⟩
  · rw [if_neg hne] at hnext
    exact .inr ⟨hne, swamp.tail, cells', hnext⟩

variable {vaddr nPages : Nat}

theorem SwampHolds.releasePages (h : SwampHolds config state live) {newNode : Ptr}
    (hlive : (vaddr, nPages) ∈ live) (hnull : newNode ≠ 0) (hfresh : state.mem newNode = none) :
    ∃ next, VSwamp.releasePages config.initSwampNode state vaddr nPages newNode = some next ∧
      (SwampHolds config next live ∨ SwampHolds config next (live.erase (vaddr, nPages))) := by
  rcases eq_or_ne state.head 0 with hhead | hhead
  · exact ⟨state, releasePages_of_head_eq_zero _ newNode hhead vaddr nPages, .inl h⟩
  obtain ⟨tail, cells, hpartition⟩ := h
  obtain ⟨next, cells', hstep, hnext, -⟩ :=
    step_releasePages hpartition hlive hnull hfresh (.inr hhead)
  obtain ⟨swamp, hrelease, heq⟩ := Option.map_eq_some_iff.mp hstep
  obtain ⟨-, rfl⟩ := Prod.mk.inj heq
  obtain ⟨tail', hrelease'⟩ := releasePages_withTail hrelease state.tail
  exact ⟨withTail swamp tail', hrelease', .inr ⟨swamp.tail, cells', hnext⟩⟩

theorem releasePages_join_eq {initSwampNode insertionNode : Ptr} {cell : Cell SwampInfoNode}
    (hfind : findInsertionNode state.mem vaddr nodeLimit 0 state.head =
      some (insertionNode, .insertBefore)) (hcell : state.mem insertionNode = some cell)
    (hjoin : (vaddr + nPages * pagingBaseSize) % wordModulus = cell.payload.baseAddr)
    (newNode newNode' : Ptr) : VSwamp.releasePages initSwampNode state vaddr nPages newNode =
      VSwamp.releasePages initSwampNode state vaddr nPages newNode' := by
  unfold VSwamp.releasePages
  simp only [hfind, hcell, some_bind, hjoin, if_true]

theorem exists_notMem (addresses : List Ptr) : ∃ address, address ≠ 0 ∧ address ∉ addresses := by
  obtain ⟨address, hnotMem⟩ := Infinite.exists_notMem_finset (insert 0 addresses.toFinset)
  rw [Finset.mem_insert, mem_toFinset, not_or] at hnotMem
  exact ⟨address, hnotMem⟩

theorem releasePagesNoNode_cases {tail : Ptr} {cells : List (Ptr × SwampInfoNode)}
    (h : Partition config (withTail state tail) live cells) (hlive : (vaddr, nPages) ∈ live) :
    ∃ next, releasePagesNoNode config.initSwampNode state vaddr nPages = some next ∧
      ((∀ cell ∈ cells, vaddr + nPages * pagingBaseSize ≠ cell.2.baseAddr) →
        SwampHolds config next live) ∧
      (0 < nPages → (∃ cell ∈ cells, vaddr + nPages * pagingBaseSize = cell.2.baseAddr) →
        SwampHolds config next (live.erase (vaddr, nPages))) ∧
      (SwampHolds config next live ∨ SwampHolds config next (live.erase (vaddr, nPages))) := by
  have hholds : SwampHolds config state live := ⟨tail, cells, h⟩
  have hdescribes := h.describes
  unfold VaddrSpaceStream.releasePagesNoNode
  split
  · rename_i hargs
    refine ⟨state, rfl, fun _ => hholds, ?_, .inl hholds⟩
    intro hpages
    have hbounds := h.live_bounds hlive hpages
    have hmod := Nat.mod_eq_zero_of_dvd (h.live_aligned _ hlive)
    have hconfig := config.baseAddr_ne
    dsimp only at hbounds hmod
    omega
  rename_i hargs
  have hpages : 0 < nPages := by omega
  have hspan : 0 < nPages * pagingBaseSize := Nat.mul_pos hpages (by decide)
  have hfind := findInsertionNode_linked vaddr 0 hdescribes.linked hdescribes.nonnull h.length_le
  rw [← hdescribes.head_eq] at hfind
  rcases hfind with ⟨hall, hfind⟩ | ⟨front, cell, back, rfl, hfront, hcell, hfind⟩
  · have hfind' : findInsertionNode state.mem vaddr nodeLimit 0 state.head =
        some (lastPtr 0 cells, .insertAfter) := hfind
    have hapart : ¬ ∃ cell ∈ cells, vaddr + nPages * pagingBaseSize = cell.2.baseAddr := by
      rintro ⟨cell, hmem, hnext⟩
      have hbase := hall cell hmem
      omega
    rw [hfind']
    rcases eq_nil_or_concat' cells with rfl | ⟨front, cell, rfl⟩
    · exact ⟨state, rfl, fun _ => hholds, fun _ hnext => absurd hnext hapart, .inl hholds⟩
    -- The last node already ends the list; only `tail` is lost.
    have hlast : lastPtr 0 (front ++ [cell]) = cell.1 := by
      rw [lastPtr_append]
      rfl
    have hne : cell.1 ≠ 0 := fun hzero => hdescribes.nonnull (by simp [← hzero])
    have hhead : state.head ≠ 0 := by
      intro hzero
      have hnil := hdescribes.head_eq_zero_iff.mp hzero
      simp at hnil
    have hdescribes' := hdescribes
    have hread : state.mem cell.1 = some ⟨cell.2, lastPtr 0 front, 0⟩ := hdescribes'.cell
    have hsame : withNext state.mem cell.1 0 = state.mem := by
      funext address
      rcases eq_or_ne address cell.1 with rfl | haddress
      · simp [withNext, hread]
      · simp [withNext, haddress]
    have hnext : SwampHolds config (withTail state 0) live := ⟨tail, front ++ [cell], h⟩
    refine ⟨withTail state 0, ?_, fun _ => hnext, fun _ hjoin => absurd hjoin hapart,
      .inl hnext⟩
    simp only [hlast, some_bind, if_neg hne, if_neg hhead, setNext_of_some hread, hsame]
    rfl
  have hfind' : findInsertionNode state.mem vaddr nodeLimit 0 state.head =
      some (cell.1, .insertBefore) := hfind
  have hne : cell.1 ≠ 0 := fun hzero => hdescribes.nonnull (by simp [← hzero])
  have hread : state.mem cell.1 = some ⟨cell.2, lastPtr 0 front, headPtr 0 back⟩ :=
    hdescribes.cell
  have hbounds := h.live_bounds hlive hpages
  have hmod : (vaddr + nPages * pagingBaseSize) % wordModulus =
      vaddr + nPages * pagingBaseSize := Nat.mod_eq_of_lt hbounds.2
  rw [hfind']
  simp only [some_bind, if_neg hne, hread, hmod]
  split
  · rename_i hjoin
    obtain ⟨newNode, hnull, hfresh⟩ := exists_notMem ((front ++ cell :: back).map Prod.fst)
    obtain ⟨next, cells', hrelease, hnext, -⟩ := h.release_before hlive
      hpages hnull hfresh rfl hargs hfront hcell hfind
    obtain ⟨tail', hrelease'⟩ := releasePages_withTail hrelease state.tail
    have hback : SwampHolds config (withTail next tail') (live.erase (vaddr, nPages)) :=
      ⟨next.tail, cells', hnext⟩
    refine ⟨withTail next tail', ?_, fun hapart => absurd hjoin (hapart cell (by simp)),
      fun _ _ => hback, .inr hback⟩
    rw [releasePages_join_eq hfind' hread (hmod.trans hjoin) 0 newNode]
    exact hrelease'
  rename_i hgap
  refine ⟨state, rfl, fun _ => hholds, ?_, .inl hholds⟩
  rintro - ⟨other, hother, hnext⟩
  rcases mem_append.mp hother with hother | hother
  · have hbase := hfront other hother
    omega
  rcases mem_cons.mp hother with rfl | hother
  · exact absurd hnext hgap
  -- A later block starts behind `cell`, and that one starts behind the range.
  have hback := (pairwise_cons.mp (pairwise_append.mp h.ordered).2.1).1 other
    hother
  have hbefore := h.precedes_back hlive hpages (by simp) hcell
  simp only [Precedes] at hback
  omega

theorem SwampHolds.releaseToSwamp (h : SwampHolds config state live) {newNode : Option Ptr}
    (hlive : (vaddr, nPages) ∈ live) (hfresh : ∀ node ∈ newNode, node ≠ 0 ∧ state.mem node = none) :
    ∃ next, releaseToSwamp config.initSwampNode state vaddr nPages newNode = some next ∧
      (SwampHolds config next live ∨ SwampHolds config next (live.erase (vaddr, nPages))) := by
  cases newNode with
  | none =>
    obtain ⟨tail, cells, hpartition⟩ := h
    obtain ⟨next, hrelease, -, -, hcases⟩ := releasePagesNoNode_cases hpartition hlive
    exact ⟨next, hrelease, hcases⟩
  | some node => exact h.releasePages hlive (hfresh node rfl).1 (hfresh node rfl).2

end

def singles (cache : List Nat) : Multiset (Nat × Nat) :=
  (cache.map fun vaddr => (vaddr, stackcacheStack1Size) : List (Nat × Nat))

@[simp] theorem singles_nil : singles [] = 0 := rfl

@[simp] theorem singles_cons (vaddr : Nat) (cache : List Nat) :
    singles (vaddr :: cache) = (vaddr, stackcacheStack1Size) ::ₘ singles cache := rfl

/-- The stream has given out the ranges in `taken`. What the swamp failed to take back is in
`lost`. -/
def Holds (config : SwampConfig) (stream : VaddrSpaceStream) (taken : Multiset (Nat × Nat)) :
    Prop :=
  ∃ lost, SwampHolds config stream.swamp (taken + singles stream.pageCache + lost)

section

variable {config : SwampConfig} {stream : VaddrSpaceStream} {taken : Multiset (Nat × Nat)}

variable (h : Holds config stream taken)

include h

theorem Holds.bounds {range : Nat × Nat} (hrange : range ∈ taken)
    (hpages : 0 < range.2) : pagingBaseSize ∣ range.1 ∧ range.1 ≠ 0 ∧
      range.1 + range.2 * pagingBaseSize < wordModulus := by
  obtain ⟨lost, tail, cells, hpartition⟩ := h
  have hmem : range ∈ taken + singles stream.pageCache + lost := by simp [hrange]
  have hbounds := hpartition.live_bounds hmem hpages
  have hbase := config.baseAddr_ne
  exact ⟨hpartition.live_aligned range hmem, by omega, hbounds.2⟩

theorem Holds.separate {first second : Nat × Nat}
    {rest : Multiset (Nat × Nat)} (htaken : taken = first ::ₘ second ::ₘ rest)
    (hfirst : 0 < first.2) (hsecond : 0 < second.2) :
    first.1 + first.2 * pagingBaseSize ≤ second.1 ∨
      second.1 + second.2 * pagingBaseSize ≤ first.1 := by
  obtain ⟨lost, tail, cells, hpartition⟩ := h
  have hlive : taken + singles stream.pageCache + lost =
      first ::ₘ second ::ₘ (rest + singles stream.pageCache + lost) := by
    rw [htaken]
    simp
  exact separate_of_disjoint (hpartition.live_disjoint hlive) (pageSpan_length_pos hfirst)
    (pageSpan_length_pos hsecond)

theorem Holds.getPages (nPages : Nat) :
    ∃ vaddr next, getPages config.initSwampNode stream nPages = some (vaddr, next) ∧
      (vaddr = 0 ∧ Holds config next taken ∨
        vaddr ≠ 0 ∧ Holds config next ((vaddr, nPages) ::ₘ taken)) := by
  have hholds := h
  obtain ⟨lost, hswamp⟩ := h
  unfold VaddrSpaceStream.getPages
  cases hpop : stackCachePop stream.pageCache nPages with
  | some popped =>
    obtain ⟨vaddr, pageCache⟩ := popped
    unfold stackCachePop at hpop
    split at hpop
    · rename_i item rest hcache
      split at hpop
      · rename_i hcategory
        obtain ⟨rfl, rfl⟩ := Prod.mk.inj (Option.some.inj hpop)
        have hmove : taken + singles stream.pageCache + lost =
            (item, nPages) ::ₘ taken + singles rest + lost := by
          rw [hcache, hcategory, singles_cons]
          simp
        rw [hmove] at hswamp
        have hnext : Holds config { stream with pageCache := rest } ((item, nPages) ::ₘ taken) :=
          ⟨lost, hswamp⟩
        have hne := (hnext.bounds (Multiset.mem_cons_self _ _) (by simp [hcategory,
          stackcacheStack1Size])).2.1
        exact ⟨item, _, rfl, .inr ⟨hne, hnext⟩⟩
      · contradiction
    · contradiction
  | none =>
    obtain ⟨vaddr, next, hget, hcases⟩ := hswamp.getPages nPages
    refine ⟨vaddr, { stream with swamp := next }, by simp [hget], ?_⟩
    rcases hcases with ⟨hzero, hnext⟩ | ⟨hne, hnext⟩
    · exact .inl ⟨hzero, lost, hnext⟩
    · refine .inr ⟨hne, lost, ?_⟩
      simpa using hnext

theorem Holds.releasePages {vaddr nPages : Nat}
    {newNode : Option Ptr} (hlive : (vaddr, nPages) ∈ taken)
    (hfresh : ∀ node ∈ newNode, node ≠ 0 ∧ stream.swamp.mem node = none) :
    ∃ next, releasePages config.initSwampNode stream vaddr nPages newNode = some next ∧
      Holds config next (taken.erase (vaddr, nPages)) := by
  obtain ⟨lost, hswamp⟩ := h
  have hback : taken = (vaddr, nPages) ::ₘ taken.erase (vaddr, nPages) :=
    (Multiset.cons_erase hlive).symm
  unfold VaddrSpaceStream.releasePages
  cases hpush : stackCachePush stream.pageCache nPages vaddr with
  | some pageCache =>
    refine ⟨_, rfl, lost, ?_⟩
    unfold stackCachePush at hpush
    split at hpush
    · rename_i hcategory
      cases hpush
      have hmove : taken + singles stream.pageCache + lost =
          taken.erase (vaddr, nPages) + singles (vaddr :: stream.pageCache) + lost := by
        rw [singles_cons, ← hcategory.1]
        conv_lhs => rw [hback]
        simp
      rw [hmove] at hswamp
      exact hswamp
    · contradiction
  | none =>
    have hmem : (vaddr, nPages) ∈ taken + singles stream.pageCache + lost := by simp [hlive]
    obtain ⟨next, hrelease, hcases⟩ := hswamp.releaseToSwamp hmem hfresh
    refine ⟨{ stream with swamp := next }, by simp [hrelease], ?_⟩
    rcases hcases with hnext | hnext
    · refine ⟨(vaddr, nPages) ::ₘ lost, ?_⟩
      have hmove : taken + singles stream.pageCache + lost =
          taken.erase (vaddr, nPages) + singles stream.pageCache + (vaddr, nPages) ::ₘ lost := by
        conv_lhs => rw [hback]
        simp
      rw [hmove] at hnext
      exact hnext
    · refine ⟨lost, ?_⟩
      have hmove : (taken + singles stream.pageCache + lost).erase (vaddr, nPages) =
          taken.erase (vaddr, nPages) + singles stream.pageCache + lost := by
        conv_lhs => rw [hback]
        simp
      rw [hmove] at hnext
      exact hnext

omit h

end

end VaddrSpaceStream

end Zambesii
