import Mathlib.Data.Finset.Insert
import Mathlib.Data.Finset.Erase
import Zambesii.KernelTypes
import Zambesii.Runs

/-!
`CachePool`: the caches of the kernel by the size of their objects, shared by users that do not
know of each other.
-/

namespace Zambesii

structure CachePool.CachePoolNode where
  node : Nat
  item : Nat
deriving DecidableEq

/-- The list, and the memory around it: the caches that were not deleted, with their `sObjectize`,
and the nodes that `poolNodeCache` gave out. -/
structure CachePool where
  head : List CachePool.CachePoolNode
  nCaches : Nat
  caches : Nat → Option Nat
  nodes : Finset Nat

namespace CachePool

open Function List Option
open KernelTypes Runs

def sizeRoundup (s : Nat) : Nat :=
  if s % 4 = 0 then s else (s + 4) % wordModulus / 4 * 4

def sizeofObject : Nat := 4

def slamCacheObjectSize (objSize : Nat) : Nat :=
  if objSize < sizeofObject then sizeofObject else objSize

/-- The loop of `insert`: `none` when it reads a deleted cache, `some none` when there is a cache of
that size. -/
def insertFrom (caches : Nat → Option Nat) (node : CachePoolNode) (size : Nat) :
    List CachePoolNode → Option (Option (List CachePoolNode))
  | [] => some (some [node])
  | cur :: next =>
    match caches cur.item with
    | none => none
    | some curSize =>
      if size < curSize then some (some (node :: cur :: next))
      else if curSize = size then some none
      else
        match insertFrom caches node size next with
        | none => none
        | some none => some none
        | some (some next') => some (some (cur :: next'))

/-- `false` is `CACHEPOOL_STATUS_ALREADY_EXISTS`. The end of the function, with `ERROR_UNKNOWN`, is
not reached: the loop has a last node. -/
def insert (pool : CachePool) (node : CachePoolNode) : Option (Bool × CachePool) :=
  match pool.caches node.item with
  | none => none
  | some size =>
    match insertFrom pool.caches node size pool.head with
    | none => none
    | some none => some (false, pool)
    | some (some head) => some (true, { pool with head, nCaches := pool.nCaches + 1 })

/-- The loop of `remove`: the node that is unlinked, and the others. -/
def removeFrom (caches : Nat → Option Nat) (objSize : Nat) :
    List CachePoolNode → Option (Option (CachePoolNode × List CachePoolNode))
  | [] => some none
  | cur :: next =>
    match caches cur.item with
    | none => none
    | some curSize =>
      if curSize > objSize then some none
      else if curSize = objSize then some (some (cur, next))
      else
        match removeFrom caches objSize next with
        | none => none
        | some none => some none
        | some (some (removed, next')) => some (some (removed, cur :: next'))

def remove (pool : CachePool) (objSize : Nat) : Option CachePool :=
  match removeFrom pool.caches (sizeRoundup objSize) pool.head with
  | none => none
  | some none => some pool
  | some (some (cur, head)) =>
    some
      { head
        nCaches := pool.nCaches - 1
        caches := update pool.caches cur.item none
        nodes := pool.nodes.erase cur.node }

def getCacheFrom (caches : Nat → Option Nat) (objSize : Nat) :
    List CachePoolNode → Option (Option Nat)
  | [] => some none
  | cur :: next =>
    match caches cur.item with
    | none => none
    | some curSize =>
      if curSize = objSize then some (some cur.item) else getCacheFrom caches objSize next

def getCache (pool : CachePool) (objSize : Nat) : Option (Option Nat) :=
  getCacheFrom pool.caches (sizeRoundup objSize) pool.head

/-- `node` and `item` are what the two allocations return. -/
def createCache (pool : CachePool) (objSize : Nat) (node item : Option Nat) :
    Option (Option Nat × CachePool) :=
  match node with
  | none => some (none, pool)
  | some node =>
    match item with
    | none => some (none, pool)
    | some item =>
      let pool :=
        { pool with
          caches := update pool.caches item
            (some (slamCacheObjectSize (sizeRoundup objSize)))
          nodes := Insert.insert node pool.nodes }
      match insert pool ⟨node, item⟩ with
      | none => none
      | some (_, pool) =>
        match getCache pool (sizeRoundup objSize) with
        | none => none
        | some cache => some (cache, pool)

def destroyCache (pool : CachePool) (cache : Nat) : Option CachePool :=
  match pool.caches cache with
  | none => none
  | some size => remove pool (sizeRoundup size)

inductive Call
  | createCache (user objSize : Nat) (node item : Option Nat)
  | destroyCache (user cache : Nat)

/-- `held` has a user with a cache for each time the user obtained it and did not destroy it. -/
structure State where
  pool : CachePool
  held : Multiset (Nat × Nat)

def step (state : State) : Call → Option (Option Nat × State)
  | .createCache user objSize node item =>
    match createCache state.pool objSize node item with
    | none => none
    | some (none, pool) => some (none, { state with pool })
    | some (some cache, pool) => some (some cache, ⟨pool, (user, cache) ::ₘ state.held⟩)
  | .destroyCache user cache =>
    match destroyCache state.pool cache with
    | none => none
    | some pool => some (none, ⟨pool, state.held.erase (user, cache)⟩)

def initialState : State where
  pool := ⟨[], 0, fun _ => none, ∅⟩
  held := 0

/-- The allocations succeed with memory that is not in use, and a user destroys only caches that it
obtained. -/
def Proper (state : State) : Call → Prop
  | .createCache _ objSize node item =>
    objSize < wordModulus ∧
      (∃ address ∈ node, address ∉ state.pool.nodes) ∧
      ∃ address ∈ item, state.pool.caches address = none
  | .destroyCache user cache => (user, cache) ∈ state.held

/-- A cache is created only when the pool has none of the rounded size, which is not zero. -/
def Unshared (state : State) : Call → Prop
  | .createCache _ objSize _ _ =>
    sizeRoundup objSize ≠ 0 ∧
      ∀ entry ∈ state.pool.head, state.pool.caches entry.item ≠ some (sizeRoundup objSize)
  | .destroyCache _ _ => True

def Sizes (caches : Nat → Option Nat) (head : List CachePoolNode) (sizes : List Nat) : Prop :=
  List.Forall₂ (fun entry size => caches entry.item = some size) head sizes

/-- The list ascends, has all nodes and caches that were not released, and all caches that a user
holds. -/
structure Kept (state : State) : Prop where
  ascends : ∃ sizes, Sizes state.pool.caches state.pool.head sizes ∧ sizes.Pairwise (· < ·) ∧
    ∀ size ∈ sizes, sizeRoundup size = size
  nCaches : state.pool.nCaches = state.pool.head.length
  nodes : ∀ node, node ∈ state.pool.nodes ↔ ∃ entry ∈ state.pool.head, entry.node = node
  caches : ∀ cache, (state.pool.caches cache).isSome ↔ ∃ entry ∈ state.pool.head, entry.item = cache
  held : ∀ holder ∈ state.held, ∃ entry ∈ state.pool.head, entry.item = holder.2

def IsCacheOf (pool : CachePool) (size cache : Nat) : Prop :=
  pool.caches cache = some size ∧ (∃ entry ∈ pool.head, entry.item = cache) ∧
    ∀ entry ∈ pool.head, pool.caches entry.item = some size → entry.item = cache

def Keeps (state : State) (call : Call) (result : Option Nat) (next : State) : Prop :=
  step state call = some (result, next) ∧ Kept next ∧
    match call with
    | .createCache _ objSize _ _ =>
      ∃ cache, result = some cache ∧ IsCacheOf next.pool (sizeRoundup objSize) cache
    | .destroyCache _ _ => True

section

variable {caches caches' : Nat → Option Nat} {head : List CachePoolNode} {sizes : List Nat}
  {node entry : CachePoolNode} {size : Nat}

variable (h : Sizes caches head sizes)

include h

theorem Sizes.congr
    (heq : ∀ entry ∈ head, caches' entry.item = caches entry.item) : Sizes caches' head sizes := by
  induction h with
  | nil => exact .nil
  | cons hentry _ ih =>
    refine .cons ?_ (ih fun other hother => heq other (by simp [hother]))
    rw [heq _ (by simp)]
    exact hentry

theorem Sizes.exists_size (hmem : entry ∈ head) :
    ∃ size ∈ sizes, caches entry.item = some size := by
  induction h with
  | nil => cases hmem
  | cons hentry _ ih =>
    rcases mem_cons.mp hmem with rfl | hmem
    · exact ⟨_, by simp, hentry⟩
    · obtain ⟨size, hsize, heq⟩ := ih hmem
      exact ⟨size, by simp [hsize], heq⟩

theorem Sizes.exists_entry (hmem : size ∈ sizes) :
    ∃ entry ∈ head, caches entry.item = some size := by
  induction h with
  | nil => cases hmem
  | cons hentry _ ih =>
    rcases mem_cons.mp hmem with rfl | hmem
    · exact ⟨_, by simp, hentry⟩
    · obtain ⟨entry, hmem', heq⟩ := ih hmem
      exact ⟨entry, by simp [hmem'], heq⟩

theorem Sizes.eq_of_size (hsorted : sizes.Pairwise (· < ·))
    (hentry : entry ∈ head) (hnode : node ∈ head) (heq : caches entry.item = caches node.item) :
    entry = node := by
  induction h with
  | nil => cases hentry
  | @cons cur curSize next nextSizes hcur hnext ih =>
    obtain ⟨hlt, hsorted⟩ := pairwise_cons.mp hsorted
    have hother : ∀ other ∈ next, caches other.item ≠ caches cur.item := by
      intro other hother hsame
      obtain ⟨size, hsize, hother'⟩ := Sizes.exists_size hnext hother
      rw [hother', hcur] at hsame
      exact (hlt size hsize).ne' (some.inj hsame)
    rcases mem_cons.mp hentry with rfl | hentry'
    · rcases mem_cons.mp hnode with rfl | hnode'
      · rfl
      · exact absurd heq.symm (hother node hnode')
    · rcases mem_cons.mp hnode with rfl | hnode'
      · exact absurd heq (hother entry hentry')
      · exact ih hsorted hentry' hnode'

omit h

theorem insertFrom_spec (node : CachePoolNode) (h : Sizes caches head sizes)
    (hsorted : sizes.Pairwise (· < ·)) (hnode : caches node.item = some size) (hnew : size ∉ sizes) :
    ∃ head' sizes', insertFrom caches node size head = some (some head') ∧
      Sizes caches head' sizes' ∧ sizes'.Pairwise (· < ·) ∧ head'.Perm (node :: head) ∧
      sizes'.Perm (size :: sizes) := by
  induction h with
  | nil =>
    exact ⟨[node], [size], rfl, .cons hnode .nil, pairwise_singleton _ _, .refl _, .refl _⟩
  | @cons cur curSize next nextSizes hcur hnext ih =>
    obtain ⟨hlt, hsorted'⟩ := pairwise_cons.mp hsorted
    unfold insertFrom
    rw [hcur]
    dsimp only
    split
    · next hless =>
      refine ⟨_, size :: curSize :: nextSizes, rfl, .cons hnode (.cons hcur hnext), ?_,
        .refl _, .refl _⟩
      refine pairwise_cons.mpr ⟨?_, hsorted⟩
      intro other hother
      rcases mem_cons.mp hother with rfl | hother
      · exact hless
      · exact hless.trans (hlt other hother)
    next hless =>
    have hne : curSize ≠ size := fun heq => hnew (by simp [heq])
    rw [if_neg hne]
    obtain ⟨next', nextSizes', heq, hnext', hsortedNext, hperm, hpermSizes⟩ :=
      ih hsorted' fun hmem => hnew (by simp [hmem])
    rw [heq]
    refine ⟨_, curSize :: nextSizes', rfl, .cons hcur hnext', ?_,
      (hperm.cons cur).trans (.swap node cur next),
      (hpermSizes.cons curSize).trans (.swap size curSize nextSizes)⟩
    refine pairwise_cons.mpr ⟨?_, hsortedNext⟩
    intro other hother
    rcases mem_cons.mp (hpermSizes.mem_iff.mp hother) with rfl | hother
    · omega
    · exact hlt other hother

theorem removeFrom_spec (h : Sizes caches head sizes) (hsorted : sizes.Pairwise (· < ·))
    (hmem : entry ∈ head) (hsize : caches entry.item = some size) :
    ∃ head' sizes', removeFrom caches size head = some (some (entry, head')) ∧
      Sizes caches head' sizes' ∧ sizes'.Sublist sizes ∧ head.Perm (entry :: head') := by
  induction h with
  | nil => cases hmem
  | @cons cur curSize next nextSizes hcur hnext ih =>
    obtain ⟨hlt, hsorted'⟩ := pairwise_cons.mp hsorted
    unfold removeFrom
    rw [hcur]
    dsimp only
    rcases mem_cons.mp hmem with rfl | hmem
    · obtain rfl : curSize = size := some.inj (hcur.symm.trans hsize)
      rw [if_neg (lt_irrefl _), if_pos rfl]
      exact ⟨next, nextSizes, rfl, hnext, sublist_cons_self _ _, .refl _⟩
    obtain ⟨size', hsize', heq'⟩ := Sizes.exists_size hnext hmem
    obtain rfl : size' = size := some.inj (heq'.symm.trans hsize)
    have hless := hlt size' hsize'
    obtain ⟨next', nextSizes', heq, hnext', hsub, hperm⟩ := ih hsorted' hmem
    rw [if_neg (by omega), if_neg hless.ne, heq]
    exact ⟨cur :: next', curSize :: nextSizes', rfl, .cons hcur hnext',
      hsub.cons_cons curSize, (hperm.cons cur).trans (.swap entry cur next')⟩

theorem getCacheFrom_spec (h : Sizes caches head sizes) (hsorted : sizes.Pairwise (· < ·))
    (hmem : entry ∈ head) (hsize : caches entry.item = some size) :
    getCacheFrom caches size head = some (some entry.item) := by
  induction h with
  | nil => cases hmem
  | @cons cur curSize next nextSizes hcur hnext ih =>
    obtain ⟨hlt, hsorted'⟩ := pairwise_cons.mp hsorted
    unfold getCacheFrom
    rw [hcur]
    dsimp only
    rcases mem_cons.mp hmem with rfl | hmem
    · rw [if_pos (some.inj (hcur.symm.trans hsize))]
    · obtain ⟨size', hsize', heq'⟩ := Sizes.exists_size hnext hmem
      obtain rfl : size' = size := some.inj (heq'.symm.trans hsize)
      rw [if_neg (hlt size' hsize').ne]
      exact ih hsorted' hmem

end

section

variable {state : State} {user objSize node item cache : Nat}

theorem sizeRoundup_mod (s : Nat) : sizeRoundup s % 4 = 0 := by
  unfold sizeRoundup
  split <;> omega

theorem sizeRoundup_of_mod {s : Nat} (h : s % 4 = 0) : sizeRoundup s = s :=
  if_pos h

theorem slamCacheObjectSize_of_mod {s : Nat} (h : s % 4 = 0) (hne : s ≠ 0) :
    slamCacheObjectSize s = s := by
  refine if_neg ?_
  unfold sizeofObject
  omega

structure Sound (state : State) : Prop extends Kept state where
  nodupNodes : (state.pool.head.map CachePoolNode.node).Nodup
  nodupHeld : (state.held.map Prod.snd).Nodup

theorem sound_initialState : Sound initialState where
  ascends := ⟨[], .nil, List.Pairwise.nil, by simp⟩
  nCaches := rfl
  nodes := by simp [initialState]
  caches := by simp [initialState]
  held := by simp [initialState]
  nodupNodes := nodup_nil
  nodupHeld := Multiset.nodup_zero

theorem Sound.createCache (h : Sound state) (user : Nat) (hnode : node ∉ state.pool.nodes)
    (hitem : state.pool.caches item = none) (hne : sizeRoundup objSize ≠ 0)
    (hnew : ∀ entry ∈ state.pool.head, state.pool.caches entry.item ≠ some (sizeRoundup objSize)) :
    ∃ pool, CachePool.createCache state.pool objSize (some node) (some item) =
        some (some item, pool) ∧ IsCacheOf pool (sizeRoundup objSize) item ∧
      Sound ⟨pool, (user, item) ::ₘ state.held⟩ := by
  obtain ⟨sizes, hsizes, hsorted, hround⟩ := h.ascends
  have hmod := sizeRoundup_mod objSize
  have hroundup := sizeRoundup_of_mod hmod
  have hobject := slamCacheObjectSize_of_mod hmod hne
  rw [CachePool.createCache, hobject]
  generalize sizeRoundup objSize = size at hmod hroundup hnew ⊢
  -- the cache is new, so that no node has it
  have hother : ∀ entry ∈ state.pool.head, entry.item ≠ item := by
    intro entry hentry heq
    have hlive := (h.caches entry.item).mpr ⟨entry, hentry, rfl⟩
    rw [heq, hitem] at hlive
    cases hlive
  have hsizes' : Sizes (update state.pool.caches item (some size)) state.pool.head sizes :=
    hsizes.congr fun entry hentry => update_of_ne (hother entry hentry) _ _
  have hself : update state.pool.caches item (some size) item = some size :=
    update_self _ _ _
  have hfresh : size ∉ sizes := by
    intro hmem
    obtain ⟨entry, hentry, heq⟩ := hsizes.exists_entry hmem
    exact hnew entry hentry heq
  obtain ⟨head', sizes', heq, hsizes'', hsorted', hperm, hpermSizes⟩ :=
    insertFrom_spec ⟨node, item⟩ hsizes' hsorted hself hfresh
  have hmem : ⟨node, item⟩ ∈ head' := hperm.mem_iff.mpr (by simp)
  have hget := getCacheFrom_spec hsizes'' hsorted' hmem hself
  dsimp only [insert]
  rw [hself]
  dsimp only
  rw [heq]
  dsimp only [getCache]
  rw [hroundup, hget]
  refine ⟨_, rfl, ⟨hself, ⟨_, hmem, rfl⟩, ?_⟩, ⟨⟨?_, ?_, ?_, ?_, ?_⟩, ?_, ?_⟩⟩
  · intro entry hentry hsize
    rw [hsizes''.eq_of_size hsorted' hentry hmem (hsize.trans hself.symm)]
  · refine ⟨sizes', hsizes'', hsorted', ?_⟩
    intro other hsize
    rcases mem_cons.mp (hpermSizes.mem_iff.mp hsize) with rfl | hsize
    · exact hroundup
    · exact hround other hsize
  · rw [hperm.length_eq, length_cons, h.nCaches]
  · intro other
    simp only [Finset.mem_insert, hperm.mem_iff, mem_cons, exists_eq_or_imp, h.nodes]
    rw [eq_comm]
  · intro other
    simp only [hperm.mem_iff, mem_cons, exists_eq_or_imp]
    rcases eq_or_ne other item with rfl | hne
    · simp
    · rw [update_of_ne hne, h.caches]
      simp [hne.symm]
  · intro holder hholder
    rcases Multiset.mem_cons.mp hholder with rfl | hholder
    · exact ⟨_, hmem, rfl⟩
    · obtain ⟨entry, hentry, heq⟩ := h.held holder hholder
      exact ⟨entry, hperm.mem_iff.mpr (by simp [hentry]), heq⟩
  · refine (hperm.map _).nodup_iff.mpr (nodup_cons.mpr ⟨?_, h.nodupNodes⟩)
    intro hmem
    obtain ⟨entry, hentry, heq⟩ := mem_map.mp hmem
    exact hnode ((h.nodes node).mpr ⟨entry, hentry, heq⟩)
  · rw [Multiset.map_cons, Multiset.nodup_cons]
    refine ⟨?_, h.nodupHeld⟩
    intro hmem
    obtain ⟨holder, hholder, heq⟩ := Multiset.mem_map.mp hmem
    obtain ⟨entry, hentry, heq'⟩ := h.held holder hholder
    exact hother entry hentry (heq'.trans heq)

theorem Sound.destroyCache (h : Sound state) (hheld : (user, cache) ∈ state.held) :
    ∃ pool, CachePool.destroyCache state.pool cache = some pool ∧
      Sound ⟨pool, state.held.erase (user, cache)⟩ := by
  obtain ⟨sizes, hsizes, hsorted, hround⟩ := h.ascends
  obtain ⟨entry, hentry, heq⟩ := h.held _ hheld
  obtain rfl : entry.item = cache := heq
  obtain ⟨size, hsize, hcache⟩ := hsizes.exists_size hentry
  obtain ⟨head', sizes', hremove, hsizes', hsub, hperm⟩ :=
    removeFrom_spec hsizes hsorted hentry hcache
  rw [CachePool.destroyCache, hcache]
  dsimp only
  rw [hround size hsize, remove, hround size hsize, hremove]
  -- the other nodes have other caches
  have hnodup : (entry.node :: head'.map CachePoolNode.node).Nodup :=
    (hperm.map CachePoolNode.node).nodup_iff.mp h.nodupNodes
  have hother : ∀ other ∈ head', other ≠ entry := by
    rintro other hother rfl
    exact (nodup_cons.mp hnodup).1 (mem_map_of_mem hother)
  have hitem : ∀ other ∈ head', other.item ≠ entry.item := by
    intro other hmem hsame
    refine hother other hmem (hsizes.eq_of_size hsorted ?_ hentry (congrArg _ hsame))
    exact hperm.mem_iff.mpr (by simp [hmem])
  refine ⟨_, rfl, ⟨⟨?_, ?_, ?_, ?_, ?_⟩, (nodup_cons.mp hnodup).2, ?_⟩⟩
  · refine ⟨sizes', hsizes'.congr fun other hmem => ?_, hsorted.sublist hsub, fun other hmem =>
      hround other (hsub.subset hmem)⟩
    exact update_of_ne (hitem other hmem) _ _
  · rw [h.nCaches, hperm.length_eq, length_cons, Nat.add_sub_cancel]
  · intro node
    rw [Finset.mem_erase, h.nodes]
    simp only [hperm.mem_iff, mem_cons, exists_eq_or_imp]
    constructor
    · rintro ⟨hne, heq | hmem⟩
      · exact absurd heq.symm hne
      · exact hmem
    · rintro ⟨other, hmem, rfl⟩
      refine ⟨?_, .inr ⟨other, hmem, rfl⟩⟩
      intro heq
      rw [← heq] at hnodup
      exact (nodup_cons.mp hnodup).1 (mem_map_of_mem hmem)
  · intro cache
    dsimp only
    rcases eq_or_ne cache entry.item with rfl | hne
    · refine iff_of_false (by simp) ?_
      rintro ⟨other, hmem, heq⟩
      exact hitem other hmem heq
    · rw [update_of_ne hne, h.caches]
      simp [hperm.mem_iff, hne.symm]
  · intro holder hholder
    obtain ⟨other, hmem, heq⟩ := h.held holder (Multiset.mem_of_mem_erase hholder)
    rcases mem_cons.mp (hperm.mem_iff.mp hmem) with rfl | hmem
    · -- nobody else holds the cache
      have hnodupHeld := h.nodupHeld
      rw [← Multiset.cons_erase hheld, Multiset.map_cons, Multiset.nodup_cons] at hnodupHeld
      exact absurd (Multiset.mem_map.mpr ⟨holder, hholder, heq.symm⟩) hnodupHeld.1
    · exact ⟨other, hmem, heq⟩
  · have hnodupHeld := h.nodupHeld
    rw [← Multiset.cons_erase hheld, Multiset.map_cons, Multiset.nodup_cons] at hnodupHeld
    exact hnodupHeld.2

theorem Sound.step {call : Call} (h : Sound state) (hproper : Proper state call)
    (hunshared : Unshared state call) :
    ∃ result next, Keeps state call result next ∧ Sound next := by
  cases call with
  | createCache user objSize node item =>
    obtain ⟨-, ⟨node, rfl, hnode⟩, item, rfl, hitem⟩ := hproper
    obtain ⟨pool, heq, hcache, hsound⟩ :=
      h.createCache user hnode hitem hunshared.1 hunshared.2
    refine ⟨some item, _, ⟨?_, hsound.toKept, item, rfl, hcache⟩, hsound⟩
    rw [CachePool.step, heq]
  | destroyCache user cache =>
    obtain ⟨pool, heq, hsound⟩ := h.destroyCache hproper
    refine ⟨none, _, ⟨?_, hsound.toKept, trivial⟩, hsound⟩
    rw [CachePool.step, heq]

/-- As long as no cache is created of a size that the pool has, or of size zero, every call keeps
the pool. -/
theorem run_keeps (calls : List Call)
    (h : Guarded step (fun state call => Proper state call ∧ Unshared state call) initialState
      calls) :
    ∃ results last, run step initialState calls = some (results, last) ∧
      SpecRun Keeps initialState calls results last := by
  refine run_satisfies (fun state call hsound hguard => ?_) sound_initialState h
  obtain ⟨result, next, hkeeps, hnext⟩ := Sound.step hsound hguard.1 hguard.2
  exact ⟨result, next, hkeeps.1, hkeeps, hnext⟩

instance decidableProper (state : State) : (call : Call) → Decidable (Proper state call)
  | .createCache _ _ _ _ => inferInstanceAs (Decidable (_ ∧ _ ∧ _))
  | .destroyCache user cache => inferInstanceAs (Decidable ((user, cache) ∈ state.held))

instance decidableUnshared (state : State) : (call : Call) → Decidable (Unshared state call)
  | .createCache _ _ _ _ => inferInstanceAs (Decidable (_ ∧ _))
  | .destroyCache _ _ => inferInstanceAs (Decidable True)

def createApart : List Call :=
  [.createCache 1 7 (some 100) (some 200), .createCache 2 4 (some 101) (some 201),
    .destroyCache 1 200, .createCache 1 8 (some 100) (some 202)]

theorem run_keeps_createApart :
    ∃ results last, run step initialState createApart = some (results, last) ∧
      results = [some 200, some 201, none, some 202] ∧ last.pool.nCaches = 2 ∧
      SpecRun Keeps initialState createApart results last := by
  have hrun : ((run step initialState createApart).any fun r =>
      decide (r.1 = [some 200, some 201, none, some 202] ∧ r.2.pool.nCaches = 2)) = true := by
    decide +kernel
  obtain ⟨⟨results, last⟩, hlast, hstate⟩ := (any_eq_true _ _).mp hrun
  obtain ⟨results', last', hlast', hkeeps⟩ := run_keeps createApart (by decide +kernel)
  obtain ⟨rfl, rfl⟩ := Prod.mk.inj (some.inj (hlast.symm.trans hlast'))
  obtain ⟨hresults, hnCaches⟩ := of_decide_eq_true hstate
  exact ⟨results, last, hlast, hresults, hnCaches, hkeeps⟩

def createShared : List Call :=
  [.createCache 1 8 (some 100) (some 200), .createCache 2 6 (some 101) (some 201),
    .destroyCache 1 200]

theorem createShared_pulled : ¬ ∀ calls, Guarded step Proper initialState calls →
      ∃ results last, run step initialState calls = some (results, last) ∧
        SpecRun Keeps initialState calls results last := by
  intro hclaim
  have hrun : ((run step initialState createShared).any fun r =>
      decide ((2, 200) ∈ r.2.held ∧ r.2.pool.head = [])) = true := by
    decide +kernel
  obtain ⟨⟨results, last⟩, hlast, hstate⟩ := (any_eq_true _ _).mp hrun
  obtain ⟨results', last', hlast', hkeeps⟩ := hclaim createShared (by decide +kernel)
  obtain ⟨rfl, rfl⟩ := Prod.mk.inj (some.inj (hlast.symm.trans hlast'))
  obtain ⟨hheld, hhead⟩ := of_decide_eq_true hstate
  have hkept := hkeeps.holds_last (fun _ _ _ _ h => h.2.1) sound_initialState.toKept
  obtain ⟨entry, hentry, -⟩ := hkept.held _ hheld
  rw [hhead] at hentry
  cases hentry

end

end CachePool

end Zambesii
