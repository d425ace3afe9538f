import Zambesii.NumaMemoryRange

/-!
`MemoryTrib`: the frames of the machine are spread over the bitmaps of the chipset's memory
regions and of the ranges of the NUMA banks.
-/

namespace Zambesii.MemoryTrib

open BitManipulation ConstrainedGetFrames KernelTypes List
open NumaMemoryRange (push testFrame_unsetBits)

/-- A `MemoryRegion`, which has no cache, or a `NumaMemoryRange` of a bank. -/
structure Pool where
  bmp : MemoryBmp
  frameCache : List Nat
  isRange : Bool

namespace Pool

def identifyPaddr (pool : Pool) (paddr : Nat) : Bool :=
  decide (pool.bmp.baseAddr ≤ paddr) && decide (paddr ≤ pool.bmp.endAddr)

def releaseFrames (pool : Pool) (paddr nFrames : Nat) : Option Pool :=
  match push pool.frameCache nFrames paddr with
  | some frameCache => some { pool with frameCache := frameCache }
  | none => (pool.bmp.releaseFrames paddr nFrames).map fun r => { pool with bmp := r.2 }

end Pool

/-- `MemoryTrib::releaseFrames`, over the ranges of all banks. -/
def releaseFrames (paddr nFrames : Nat) : List Pool → Option (List Pool)
  | [] => some []
  | pool :: rest =>
    if pool.isRange && pool.identifyPaddr paddr then
      (pool.releaseFrames paddr nFrames).map fun pool => pool :: rest
    else (releaseFrames paddr nFrames rest).map fun rest => pool :: rest

inductive Granted
  | panicked
  | failed
  | frames (ret : Nat) (list : List (Option Element)) (pools : List Pool)

/-- `MemoryTrib::constrainedGetFrames`: the regions, and then the ranges of all banks, are
asked in order. `memory` says for each of them whether the list can be enlarged. -/
def constrainedGetFrames (c : Compiler) (nFrames : Nat) (list : List (Option Element)) :
    List Bool → List Pool → Granted
  | _, [] => .failed
  | memory, pool :: rest =>
    match ConstrainedGetFrames.constrainedGetFrames pool.bmp c nFrames list
      (memory.headD false) with
    | .panicked => .panicked
    | .granted ret bmp list => .frames ret list ({ pool with bmp := bmp } :: rest)
    | .failed _ _ _ =>
      match constrainedGetFrames c nFrames list memory.tail rest with
      | .panicked => .panicked
      | .failed => .failed
      | .frames ret list rest => .frames ret list (pool :: rest)

def Pool.BitFree (pool : Pool) (pfn : Nat) : Prop :=
  pool.bmp.HasFrame pfn ∧ pool.bmp.testFrame pfn = false

def Pool.Free (pool : Pool) (pfn : Nat) : Prop :=
  pool.BitFree pfn ∨ pfn ∈ pool.frameCache.map (· / pagingBaseSize)

structure Used (pools : List Pool) (pfn : Nat) : Prop where
  known : ∃ pool ∈ pools, pool.bmp.HasFrame pfn
  taken : ∀ pool ∈ pools, ¬ pool.Free pfn

/-- A frame is free in one place at most, and the ranges of the banks have no frame in
common. -/
structure Tidy (pools : List Pool) : Prop where
  apart : ∀ (i j : Nat) (a b : Pool), pools[i]? = some a → pools[j]? = some b → i ≠ j →
    ∀ pfn, a.Free pfn → ¬ b.Free pfn
  cached : ∀ pool ∈ pools, ∀ pfn, pool.BitFree pfn →
    pfn ∉ pool.frameCache.map (· / pagingBaseSize)
  ranges : ∀ (i j : Nat) (a b : Pool), pools[i]? = some a → pools[j]? = some b → i ≠ j →
    a.isRange = true → b.isRange = true → ∀ pfn, a.bmp.HasFrame pfn → ¬ b.bmp.HasFrame pfn

/-- The frames that a release frees: those of its range, when the bitmap of the range that
has the address accepts it. -/
def Frees (pools : List Pool) (paddr nFrames pfn : Nat) : Prop :=
  ∃ pool ∈ pools, pool.isRange = true ∧ pool.identifyPaddr paddr = true ∧
    pool.bmp.Accepts paddr nFrames ∧ paddr / pagingBaseSize ≤ pfn ∧
    pfn < (paddr / pagingBaseSize + nFrames) % wordModulus

structure SameShape (a b : Pool) : Prop where
  baseAddr : b.bmp.baseAddr = a.bmp.baseAddr
  endAddr : b.bmp.endAddr = a.bmp.endAddr
  frameCache : b.frameCache = a.frameCache
  isRange : b.isRange = a.isRange

/-- No frame but those of `freed` has become free, and these in ranges only. -/
def Evolves (freed : Nat → Prop) (pools pools' : List Pool) : Prop :=
  List.Forall₂ (fun a b => SameShape a b ∧
    ∀ pfn, b.BitFree pfn → a.BitFree pfn ∨ a.isRange = true ∧ freed pfn) pools pools'

section

variable {a b c : Pool}

theorem SameShape.refl (a : Pool) : SameShape a a :=
  ⟨rfl, rfl, rfl, rfl⟩

variable (h : SameShape a b)

include h

theorem SameShape.trans (h' : SameShape b c) : SameShape a c :=
  ⟨h'.baseAddr.trans h.baseAddr, h'.endAddr.trans h.endAddr, h'.frameCache.trans h.frameCache,
    h'.isRange.trans h.isRange⟩

theorem SameShape.hasFrame_iff (pfn : Nat) : b.bmp.HasFrame pfn ↔ a.bmp.HasFrame pfn :=
  NumaMemoryRange.hasFrame_congr h.baseAddr h.endAddr

theorem SameShape.identifyPaddr_eq (paddr : Nat) :
    b.identifyPaddr paddr = a.identifyPaddr paddr := by
  unfold Pool.identifyPaddr
  rw [h.baseAddr, h.endAddr]

theorem SameShape.accepts_iff (paddr nFrames : Nat) :
    b.bmp.Accepts paddr nFrames ↔ a.bmp.Accepts paddr nFrames := by
  unfold MemoryBmp.Accepts MemoryBmp.endPfn
  rw [h.endAddr]

omit h

end

section

variable {freed freed' : Nat → Prop} {pools pools' pools'' : List Pool}

theorem Evolves.refl (freed : Nat → Prop) (pools : List Pool) : Evolves freed pools pools := by
  refine forall₂_same.mpr ?_
  intro pool _
  exact ⟨SameShape.refl pool, fun pfn h => .inl h⟩

theorem Evolves.trans (h : Evolves freed pools pools') (h' : Evolves freed pools' pools'') :
    Evolves freed pools pools'' := by
  induction h generalizing pools'' with
  | nil => exact h'
  | cons hhead _ ih =>
    cases h' with
    | cons hhead' htail' =>
      refine List.Forall₂.cons ⟨hhead.1.trans hhead'.1, ?_⟩ (ih htail')
      intro pfn hfree
      rcases hhead'.2 pfn hfree with hfree' | ⟨hrange, hfreed⟩
      · exact hhead.2 pfn hfree'
      · exact .inr ⟨hhead.1.isRange.symm.trans hrange, hfreed⟩

theorem Evolves.mono (h : Evolves freed pools pools') (himp : ∀ pfn, freed pfn → freed' pfn) :
    Evolves freed' pools pools' :=
  h.imp fun _ _ hpair => ⟨hpair.1, fun pfn hfree =>
    (hpair.2 pfn hfree).imp_right fun hnew => ⟨hnew.1, himp pfn hnew.2⟩⟩

variable {pool' : Pool}

variable (h : Evolves freed pools pools')

include h

theorem Evolves.origin {i : Nat}
    (hpool' : pools'[i]? = some pool') : ∃ pool, pools[i]? = some pool ∧ SameShape pool pool' ∧
      ∀ pfn, pool'.BitFree pfn → pool.BitFree pfn ∨ pool.isRange = true ∧ freed pfn := by
  induction h generalizing i with
  | nil => cases hpool'
  | cons hhead _ ih =>
    cases i with
    | zero =>
      cases hpool'
      exact ⟨_, rfl, hhead⟩
    | succ i => exact ih hpool'

theorem Evolves.origin_of_mem (hpool' : pool' ∈ pools') : ∃ pool ∈ pools, SameShape pool pool' ∧
      ∀ pfn, pool'.BitFree pfn → pool.BitFree pfn ∨ pool.isRange = true ∧ freed pfn := by
  obtain ⟨i, hi⟩ := mem_iff_getElem?.mp hpool'
  obtain ⟨pool, hpool, hpair⟩ := h.origin hi
  exact ⟨pool, mem_of_getElem? hpool, hpair⟩

theorem Evolves.target_of_mem {pool : Pool}
    (hpool : pool ∈ pools) : ∃ pool' ∈ pools', SameShape pool pool' := by
  induction h with
  | nil => cases hpool
  | cons hhead _ ih =>
    rcases mem_cons.mp hpool with rfl | hrest
    · exact ⟨_, mem_cons_self, hhead.1⟩
    · obtain ⟨pool', hmem, hshape⟩ := ih hrest
      exact ⟨pool', mem_cons_of_mem _ hmem, hshape⟩

theorem Evolves.free_before {i : Nat}
    (hpool' : pools'[i]? = some pool') {pfn : Nat} (hfree : pool'.Free pfn) :
    ∃ pool, pools[i]? = some pool ∧ SameShape pool pool' ∧
      (pool.Free pfn ∨ pool'.BitFree pfn ∧ pool.isRange = true ∧ freed pfn) := by
  obtain ⟨pool, hpool, hshape, hbits⟩ := h.origin hpool'
  refine ⟨pool, hpool, hshape, ?_⟩
  rcases hfree with hbit | hcached
  · rcases hbits pfn hbit with hold | hnew
    · exact .inl (.inl hold)
    · exact .inr ⟨hbit, hnew⟩
  · rw [hshape.frameCache] at hcached
    exact .inl (.inr hcached)

omit h

theorem Tidy.evolve (h : Tidy pools) (hevolves : Evolves freed pools pools')
    (hfreed : ∀ pfn, freed pfn → ∀ pool ∈ pools, ¬ pool.Free pfn) : Tidy pools' := by
  constructor
  · intro i j a b ha hb hne pfn hfreeA hfreeB
    obtain ⟨a', ha', hshapeA, holdA | ⟨hbitA, hrangeA, hnewA⟩⟩ := hevolves.free_before ha hfreeA
    · obtain ⟨b', hb', -, holdB | ⟨-, -, hnewB⟩⟩ := hevolves.free_before hb hfreeB
      · exact h.apart i j a' b' ha' hb' hne pfn holdA holdB
      · exact hfreed pfn hnewB a' (mem_of_getElem? ha') holdA
    · obtain ⟨b', hb', hshapeB, holdB | ⟨hbitB, hrangeB, -⟩⟩ := hevolves.free_before hb hfreeB
      · exact hfreed pfn hnewA b' (mem_of_getElem? hb') holdB
      · exact h.ranges i j a' b' ha' hb' hne hrangeA hrangeB pfn
          ((hshapeA.hasFrame_iff pfn).mp hbitA.1) ((hshapeB.hasFrame_iff pfn).mp hbitB.1)
  · intro pool' hpool' pfn hbit hcached
    obtain ⟨pool, hpool, hshape, hbits⟩ := hevolves.origin_of_mem hpool'
    rw [hshape.frameCache] at hcached
    rcases hbits pfn hbit with hold | ⟨-, hnew⟩
    · exact h.cached pool hpool pfn hold hcached
    · exact hfreed pfn hnew pool hpool (.inr hcached)
  · intro i j a b ha hb hne hrangeA hrangeB pfn hframeA hframeB
    obtain ⟨a', ha', hshapeA, -⟩ := hevolves.origin ha
    obtain ⟨b', hb', hshapeB, -⟩ := hevolves.origin hb
    exact h.ranges i j a' b' ha' hb' hne (hshapeA.isRange.symm.trans hrangeA)
      (hshapeB.isRange.symm.trans hrangeB) pfn ((hshapeA.hasFrame_iff pfn).mp hframeA)
      ((hshapeB.hasFrame_iff pfn).mp hframeB)

theorem Used.evolve {pfn : Nat} (h : Used pools pfn) (hevolves : Evolves freed pools pools')
    (hkept : ¬ freed pfn) : Used pools' pfn := by
  constructor
  · obtain ⟨pool, hpool, hframe⟩ := h.known
    obtain ⟨pool', hpool', hshape⟩ := hevolves.target_of_mem hpool
    exact ⟨pool', hpool', (hshape.hasFrame_iff pfn).mpr hframe⟩
  · intro pool' hpool' hfree
    obtain ⟨i, hi⟩ := mem_iff_getElem?.mp hpool'
    obtain ⟨pool, hpool, -, hold | ⟨-, -, hnew⟩⟩ := hevolves.free_before hi hfree
    · exact h.taken pool (mem_of_getElem? hpool) hold
    · exact hkept hnew

end

section

variable {paddr nFrames : Nat}

theorem bmp_releaseFrames {bmp bmp' : MemoryBmp} {accepted : Bool}
    (h : bmp.releaseFrames paddr nFrames = some (accepted, bmp')) :
    bmp'.baseAddr = bmp.baseAddr ∧ bmp'.endAddr = bmp.endAddr ∧
      ∀ pfn, bmp.basePfn ≤ pfn → bmp'.testFrame pfn = false →
        bmp.testFrame pfn = false ∨ bmp.Accepts paddr nFrames ∧
          paddr / pagingBaseSize ≤ pfn ∧ pfn < (paddr / pagingBaseSize + nFrames) % wordModulus := by
  unfold MemoryBmp.releaseFrames at h
  dsimp only at h
  split_ifs at h with hzero haccepts hassert
  · cases h
    exact ⟨rfl, rfl, fun pfn _ hfree => .inl hfree⟩
  · cases h
    refine ⟨rfl, rfl, ?_⟩
    intro pfn hbase hfree
    rcases Bool.eq_false_or_eq_true (bmp.testFrame pfn) with hset | hunset
    · refine .inr ⟨haccepts, ?_⟩
      have hiff := testFrame_unsetBits (paddr / pagingBaseSize - bmp.basePfn)
        ((paddr / pagingBaseSize + nFrames) % wordModulus - paddr / pagingBaseSize)
        ((paddr / pagingBaseSize - bmp.basePfn) / MemoryBmp.bitsPerIndex) hbase
      have hin := Classical.byContradiction fun hout =>
        Bool.eq_false_iff.mp hfree (hiff.mpr ⟨hset, hout⟩)
      omega
    · exact .inl hunset
  · cases h
    exact ⟨rfl, rfl, fun pfn _ hfree => .inl hfree⟩

theorem pool_releaseFrames {pool pool' : Pool} (hcount : nFrames ≠ 1)
    (h : pool.releaseFrames paddr nFrames = some pool') :
    SameShape pool pool' ∧ ∀ pfn, pool'.BitFree pfn → pool.BitFree pfn ∨
      pool.bmp.Accepts paddr nFrames ∧ paddr / pagingBaseSize ≤ pfn ∧
        pfn < (paddr / pagingBaseSize + nFrames) % wordModulus := by
  unfold Pool.releaseFrames push at h
  rw [if_pos hcount] at h
  obtain ⟨⟨accepted, bmp'⟩, hrelease, rfl⟩ := Option.map_eq_some_iff.mp h
  obtain ⟨hbase, hend, hbits⟩ := bmp_releaseFrames hrelease
  have hshape : SameShape pool { pool with bmp := bmp' } := ⟨hbase, hend, rfl, rfl⟩
  refine ⟨hshape, ?_⟩
  rintro pfn ⟨hframe, hfree⟩
  have hframe' := (hshape.hasFrame_iff pfn).mp hframe
  exact (hbits pfn hframe'.1 hfree).imp_left fun hold => ⟨hframe', hold⟩

theorem releaseFrames_evolves {pools pools' : List Pool} (hcount : nFrames ≠ 1)
    (h : releaseFrames paddr nFrames pools = some pools') :
    Evolves (Frees pools paddr nFrames) pools pools' := by
  induction pools generalizing pools' with
  | nil =>
    cases h
    exact Evolves.refl _ []
  | cons pool rest ih =>
    unfold releaseFrames at h
    split_ifs at h with htarget
    · obtain ⟨pool', hrelease, rfl⟩ := Option.map_eq_some_iff.mp h
      obtain ⟨hshape, hbits⟩ := pool_releaseFrames hcount hrelease
      obtain ⟨hrange, hidentify⟩ := Bool.and_eq_true_iff.mp htarget
      refine List.Forall₂.cons ⟨hshape, ?_⟩ (Evolves.refl _ rest)
      intro pfn hfree
      rcases hbits pfn hfree with hold | hnew
      · exact .inl hold
      · exact .inr ⟨hrange, pool, mem_cons_self, hrange, hidentify, hnew⟩
    · obtain ⟨rest', hrest, rfl⟩ := Option.map_eq_some_iff.mp h
      refine List.Forall₂.cons ⟨SameShape.refl pool, fun pfn hfree => .inl hfree⟩
        ((ih hrest).mono ?_)
      rintro pfn ⟨other, hother, hfrees⟩
      exact ⟨other, mem_cons_of_mem _ hother, hfrees⟩

theorem Evolves.frees {freed : Nat → Prop} {pools pools' : List Pool} {pfn : Nat}
    (h : Evolves freed pools pools') (hfrees : Frees pools' paddr nFrames pfn) :
    Frees pools paddr nFrames pfn := by
  obtain ⟨pool', hpool', hrange, hidentify, haccepts, hin⟩ := hfrees
  obtain ⟨pool, hpool, hshape, -⟩ := h.origin_of_mem hpool'
  refine ⟨pool, hpool, hshape.isRange.symm.trans hrange, ?_,
    (hshape.accepts_iff paddr nFrames).mp haccepts, hin⟩
  rw [← hshape.identifyPaddr_eq]
  exact hidentify

end

section

variable {c : Compiler} {nFrames : Nat}

def Ordered (pools : List Pool) (c : Compiler) (nFrames : Nat) : Prop :=
  ∀ pool ∈ pools, ConstrainedGetFrames.Ordered (pass pool.bmp c nFrames false)

structure HandsOut (elements : List Element) (pools pools' : List Pool) : Prop where
  evolves : Evolves (fun _ => False) pools pools'
  taken : ∀ element ∈ elements, ∀ pfn, element.Covers pfn →
    ∃ (i : Nat) (pool pool' : Pool), pools[i]? = some pool ∧ pools'[i]? = some pool' ∧
      pool.BitFree pfn ∧ ¬ pool'.BitFree pfn

theorem bmp_constrainedGetFrames {pool : Pool} {list list' : List (Option Element)}
    {preallocated : Bool} {ret : Nat} {bmp' : MemoryBmp}
    (hordered : ConstrainedGetFrames.Ordered (pass pool.bmp c nFrames false))
    (h : ConstrainedGetFrames.constrainedGetFrames pool.bmp c nFrames list preallocated =
      .granted ret bmp' list') :
    ∃ elements : List Element, list' = list ++ elements.map some ∧
      SameShape pool { pool with bmp := bmp' } ∧
      (∀ pfn, Pool.BitFree { pool with bmp := bmp' } pfn → pool.BitFree pfn) ∧
      ∀ element ∈ elements, ∀ pfn, element.Covers pfn →
        pool.BitFree pfn ∧ ¬ Pool.BitFree { pool with bmp := bmp' } pfn := by
  rcases constrainedGetFrames_cases list preallocated hordered with
    ⟨error, heq⟩ | heq | ⟨hvalid, heq⟩
  · rw [heq] at h
    cases h
  · rw [heq] at h
    cases h
    exact ⟨[], (append_nil list).symm, SameShape.refl pool, fun pfn hfree => hfree,
      fun element helement => by cases helement⟩
  rw [heq] at h
  cases h
  have hfound : ∀ find ∈ pass pool.bmp c nFrames true, Found pool.bmp c pool.bmp.bits find :=
    search_found (min_pos_of_isValid hvalid)
  refine ⟨_, rfl, ⟨rfl, rfl, rfl, rfl⟩, ?_, ?_⟩
  · rintro pfn ⟨hframe, hfree⟩
    refine ⟨hframe, Bool.eq_false_iff.mpr fun hset => ?_⟩
    exact Bool.eq_false_iff.mp hfree (setFinds_eq_true.mpr (.inl hset))
  · intro element helement pfn hcovers
    obtain ⟨find, hfind, rfl⟩ := mem_map.mp helement
    obtain ⟨hbase, hfirst, hlast⟩ := covers_toElement.mp hcovers
    have hle := (hfound find hfind).le_beyond
    have hbasele := pool.bmp.basePfn_le_endPfn
    simp only [MemoryBmp.bmpNFrames] at hle
    refine ⟨⟨⟨hbase, by omega⟩, (hfound find hfind).unset _ hfirst hlast⟩, ?_⟩
    rintro ⟨-, hfree⟩
    exact Bool.eq_false_iff.mp hfree (setFinds_eq_true.mpr (.inr ⟨find, hfind, hfirst, hlast⟩))

variable {pools pools' : List Pool}

theorem constrainedGetFrames_handsOut {list list' : List (Option Element)} {memory : List Bool}
    {ret : Nat} (hordered : Ordered pools c nFrames)
    (h : constrainedGetFrames c nFrames list memory pools = .frames ret list' pools') :
    ∃ elements : List Element, list' = list ++ elements.map some ∧
      HandsOut elements pools pools' := by
  induction pools generalizing memory pools' with
  | nil => cases h
  | cons pool rest ih =>
    unfold constrainedGetFrames at h
    cases hpool : ConstrainedGetFrames.constrainedGetFrames pool.bmp c nFrames list
      (memory.headD false) with
    | panicked =>
      rw [hpool] at h
      cases h
    | granted ret' bmp' granted =>
      rw [hpool] at h
      cases h
      obtain ⟨elements, hlist, hshape, hbits, htaken⟩ :=
        bmp_constrainedGetFrames (hordered pool mem_cons_self) hpool
      refine ⟨elements, hlist, ?_, ?_⟩
      · exact List.Forall₂.cons ⟨hshape, fun pfn hfree => .inl (hbits pfn hfree)⟩
          (Evolves.refl _ rest)
      · intro element helement pfn hcovers
        exact ⟨0, pool, _, rfl, rfl, htaken element helement pfn hcovers⟩
    | failed error bmp' list'' =>
      rw [hpool] at h
      cases hrest : constrainedGetFrames c nFrames list memory.tail rest with
      | panicked =>
        rw [hrest] at h
        cases h
      | failed =>
        rw [hrest] at h
        cases h
      | frames ret' granted rest' =>
        rw [hrest] at h
        cases h
        obtain ⟨elements, hlist, hout⟩ :=
          ih (fun other hother => hordered other (mem_cons_of_mem _ hother)) hrest
        refine ⟨elements, hlist, ?_, ?_⟩
        · exact List.Forall₂.cons
            ⟨SameShape.refl pool, fun pfn hfree => .inl hfree⟩ hout.evolves
        · intro element helement pfn hcovers
          obtain ⟨i, a, b, ha, hb, htaken⟩ := hout.taken element helement pfn hcovers
          exact ⟨i + 1, a, b, ha, hb, htaken⟩

theorem HandsOut.used {elements : List Element} (h : HandsOut elements pools pools')
    (htidy : Tidy pools) {element : Element} (helement : element ∈ elements) {pfn : Nat}
    (hcovers : element.Covers pfn) : Used pools' pfn := by
  obtain ⟨i, pool, pool', hpool, hpool', hfree, htaken⟩ := h.taken element helement pfn hcovers
  constructor
  · obtain ⟨target, htarget, hshape⟩ := h.evolves.target_of_mem (mem_of_getElem? hpool)
    exact ⟨target, htarget, (hshape.hasFrame_iff pfn).mpr hfree.1⟩
  · intro other hother hotherFree
    obtain ⟨j, hj⟩ := mem_iff_getElem?.mp hother
    obtain ⟨origin, horigin, hshape, hold | ⟨-, -, hfalse⟩⟩ := h.evolves.free_before hj hotherFree
    · rcases eq_or_ne j i with rfl | hne
      · rw [hpool] at horigin
        cases horigin
        rw [hpool'] at hj
        cases hj
        rcases hotherFree with hbit | hcached
        · exact htaken hbit
        · rw [hshape.frameCache] at hcached
          exact htidy.cached pool (mem_of_getElem? hpool) pfn hfree hcached
      · exact htidy.apart j i origin pool horigin hpool hne pfn hold (.inl hfree)
    · exact hfalse

theorem HandsOut.not_used {elements : List Element} (h : HandsOut elements pools pools')
    {element : Element} (helement : element ∈ elements) {pfn : Nat} (hcovers : element.Covers pfn) :
    ¬ Used pools pfn := by
  obtain ⟨i, pool, pool', hpool, -, hfree, -⟩ := h.taken element helement pfn hcovers
  intro hused
  exact hused.taken pool (mem_of_getElem? hpool) (.inl hfree)

end

end Zambesii.MemoryTrib
