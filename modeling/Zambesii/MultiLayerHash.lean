import Zambesii.KernelTypes
import Zambesii.Runs

/-!
`MultiLayerHash` in the 32-bit build: a key is cut into three indexes, each into
a layer of `MLHASH_PTRS_PER_LAYER` pointers. An access at or past the end of a
layer, or through NULL, is a fault.
-/

namespace Zambesii.MultiLayerHash

open Function Nat
open KernelTypes Runs

section

def ptrsPerLayer : Nat := 4096 / 4

abbrev Memory := Nat → Option (Nat → Nat)

def entry (memory : Memory) (layer index : Nat) : Nat :=
  match memory layer with
  | none => 0
  | some slots => slots index

def readEntry (memory : Memory) (layer index : Nat) : Option Nat :=
  if index < ptrsPerLayer then (memory layer).map fun slots => slots index else none

def writeEntry (memory : Memory) (layer index value : Nat) : Option Memory :=
  if index < ptrsPerLayer then
    (memory layer).map fun slots =>
      update memory layer (some (update slots index value))
  else none

def newLayer (memory : Memory) (layer : Nat) : Memory :=
  if layer = 0 then memory else update memory layer (some fun _ => 0)

variable {memory : Memory} {layer index : Nat}

theorem entry_null (h : memory layer = none) (index : Nat) : entry memory layer index = 0 := by
  rw [entry, h]

theorem readEntry_eq (h : memory layer ≠ none) (hindex : index < ptrsPerLayer) :
    readEntry memory layer index = some (entry memory layer index) := by
  obtain ⟨slots, hslots⟩ := Option.ne_none_iff_exists'.mp h
  rw [readEntry, if_pos hindex, entry, hslots]
  rfl

theorem readEntry_past (memory : Memory) (layer : Nat) (hindex : ¬index < ptrsPerLayer) :
    readEntry memory layer index = none :=
  if_neg hindex

theorem writeEntry_past (memory : Memory) (layer value : Nat) (hindex : ¬index < ptrsPerLayer) :
    writeEntry memory layer index value = none :=
  if_neg hindex

structure Stored (memory memory' : Memory) (layer index value : Nat) : Prop where
  same : ∀ other, memory' other = none ↔ memory other = none
  entry : ∀ other slot, MultiLayerHash.entry memory' other slot =
    if other = layer ∧ slot = index then value else MultiLayerHash.entry memory other slot

theorem Stored.entry_of_ne {memory' : Memory} {value other : Nat}
    (h : Stored memory memory' layer index value) (hne : other ≠ layer) (slot : Nat) :
    MultiLayerHash.entry memory' other slot = MultiLayerHash.entry memory other slot := by
  rw [h.entry, if_neg fun hboth => hne hboth.1]

theorem writeEntry_stored (value : Nat) (h : memory layer ≠ none) (hindex : index < ptrsPerLayer) :
    ∃ memory', writeEntry memory layer index value = some memory' ∧
      Stored memory memory' layer index value := by
  obtain ⟨slots, hslots⟩ := Option.ne_none_iff_exists'.mp h
  refine ⟨update memory layer (some (update slots index value)), ?_, ?_, ?_⟩
  · rw [writeEntry, if_pos hindex, hslots]
    rfl
  · intro other
    rcases eq_or_ne other layer with rfl | hne
    · rw [update_self, hslots]
      simp
    · rw [update_of_ne hne]
  · intro other slot
    rcases eq_or_ne other layer with rfl | hne
    · simp only [MultiLayerHash.entry, update_self, hslots, true_and]
      rcases eq_or_ne slot index with rfl | hslot
      · rw [update_self, if_pos rfl]
      · rw [update_of_ne hslot, if_neg hslot]
    · rw [if_neg fun hboth => hne hboth.1]
      simp only [MultiLayerHash.entry, update_of_ne hne]

theorem newLayer_entry (h : memory layer = none) (other slot : Nat) :
    entry (newLayer memory layer) other slot = entry memory other slot := by
  rw [newLayer]
  split
  · rfl
  · rcases eq_or_ne other layer with rfl | hne
    · simp only [entry, update_self, h]
    · simp only [entry, update_of_ne hne]

theorem newLayer_empty (h : memory layer = none) (slot : Nat) :
    entry (newLayer memory layer) layer slot = 0 :=
  (newLayer_entry h layer slot).trans (entry_null h slot)

theorem newLayer_self (memory : Memory) (hne : layer ≠ 0) : newLayer memory layer layer ≠ none := by
  rw [newLayer, if_neg hne, update_self]
  simp

theorem newLayer_of_ne (memory : Memory) {other : Nat} (h : other ≠ layer) :
    newLayer memory layer other = memory other := by
  rw [newLayer]
  split
  · rfl
  · exact update_of_ne h _ memory

end

def idx1 (key : UInt32) : Nat := ((key &&& 0xFFC00000) >>> 22).toNat

def idx2 (key : UInt32) : Nat := ((key &&& 0x003FF000) >>> 12).toNat

def idx3 (key : UInt32) : Nat := (key &&& 0x00000FFF).toNat

structure Hash where
  top : Nat
  memory : Memory

/-- `initialize` on an empty memory, with the address of the top layer. -/
def initialHash (top : Nat) : Hash :=
  ⟨top, newLayer (fun _ => none) top⟩

/-- The error that a call returns and what it stores through its `ret` argument. -/
structure Answer where
  error : Kerror
  ret : Option Nat
deriving DecidableEq

def insertLoop (item : Nat) : List Nat → Nat → List Nat → Memory → Option (Answer × Memory)
  | [], _, _, memory => some (⟨.success, none⟩, memory)
  | [idx], curLayer, _, memory =>
    match writeEntry memory curLayer idx item with
    | none => none
    | some memory => some (⟨.success, none⟩, memory)
  | idx :: idx' :: rest, curLayer, fresh, memory =>
    match readEntry memory curLayer idx with
    | none => none
    | some next =>
      if next = 0 then
        match writeEntry (newLayer memory (fresh.headD 0)) curLayer idx (fresh.headD 0) with
        | none => none
        | some memory =>
          if fresh.headD 0 = 0 then some (⟨.memoryNomem, none⟩, memory)
          else insertLoop item (idx' :: rest) (fresh.headD 0) fresh.tail memory
      else insertLoop item (idx' :: rest) next fresh memory

def insert (hash : Hash) (key : UInt32) (item : Nat) (fresh : List Nat) : Option (Answer × Hash) :=
  match insertLoop item [idx1 key, idx2 key, idx3 key] hash.top fresh hash.memory with
  | none => none
  | some (answer, memory) => some (answer, { hash with memory := memory })

def getLoop (memory : Memory) : List Nat → Nat → Option Answer
  | [], _ => some ⟨.success, none⟩
  | [idx], curLayer =>
    match readEntry memory curLayer idx with
    | none => none
    | some item => some ⟨.success, some item⟩
  | idx :: idx' :: rest, curLayer =>
    match readEntry memory curLayer idx with
    | none => none
    | some next =>
      if next = 0 then some ⟨.general, none⟩ else getLoop memory (idx' :: rest) next

def get (hash : Hash) (key : UInt32) : Option Answer :=
  getLoop hash.memory [idx1 key, idx2 key, idx3 key] hash.top

def eraseLoop (memory : Memory) : List Nat → Nat → Option Memory
  | [], _ => some memory
  | [idx], curLayer => writeEntry memory curLayer idx 0
  | idx :: idx' :: rest, curLayer =>
    match readEntry memory curLayer idx with
    | none => none
    | some next => if next = 0 then some memory else eraseLoop memory (idx' :: rest) next

def erase (hash : Hash) (key : UInt32) : Option Hash :=
  match eraseLoop hash.memory [idx1 key, idx2 key, idx3 key] hash.top with
  | none => none
  | some memory => some { hash with memory := memory }

/-- The hash, and the item last inserted under each key and not erased since (0 for none). -/
structure State where
  hash : Hash
  items : UInt32 → Nat

inductive Call where
  | insert (key : UInt32) (item : Nat) (fresh : List Nat)
  | get (key : UInt32)
  | erase (key : UInt32)

def step (state : State) : Call → Option (Answer × State)
  | .insert key item fresh =>
    match insert state.hash key item fresh with
    | none => none
    | some (answer, hash) => some (answer, ⟨hash, update state.items key item⟩)
  | .get key =>
    match get state.hash key with
    | none => none
    | some answer => some (answer, state)
  | .erase key =>
    match erase state.hash key with
    | none => none
    | some hash =>
      some (⟨.success, none⟩, ⟨hash, update state.items key 0⟩)

/-- `new` succeeds, and returns memory that is not in use. -/
def Legal (state : State) : Call → Prop
  | .insert _ _ fresh => ∃ first second, fresh = [first, second] ∧ first ≠ 0 ∧ second ≠ 0 ∧
      first ≠ second ∧ state.hash.memory first = none ∧ state.hash.memory second = none
  | _ => True

/-- The item that `get` reports, 0 for none: an error and a NULL mean the same. -/
def Answer.item (answer : Answer) : Nat :=
  if answer.error = .success then answer.ret.getD 0 else 0

def Spec (state : State) : Call → Answer → State → Prop
  | .insert _ _ _, answer, _ => answer.error = .success
  | .get key, answer, _ => answer.item = state.items key
  | .erase _, _, _ => True

def middleLayer (hash : Hash) (key : UInt32) : Nat :=
  entry hash.memory hash.top (idx1 key)

def leafLayer (hash : Hash) (key : UInt32) : Nat :=
  entry hash.memory (middleLayer hash key) (idx2 key)

def Good (state : State) : Call → Prop
  | .insert key _ _ => idx3 key < ptrsPerLayer
  | .get key => leafLayer state.hash key = 0 ∨ idx3 key < ptrsPerLayer
  | .erase key => leafLayer state.hash key = 0 ∨ idx3 key < ptrsPerLayer

theorem idx1_eq (key : UInt32) : idx1 key = key.toNat / 2 ^ 22 % 2 ^ 10 := by
  change (key.toNat &&& 0xFFC00000) >>> 22 = _
  rw [shiftRight_and_distrib]
  change key.toNat >>> 22 &&& (2 ^ 10 - 1) = _
  rw [and_two_pow_sub_one_eq_mod, shiftRight_eq_div_pow]

theorem idx2_eq (key : UInt32) : idx2 key = key.toNat / 2 ^ 12 % 2 ^ 10 := by
  change (key.toNat &&& 0x003FF000) >>> 12 = _
  rw [shiftRight_and_distrib]
  change key.toNat >>> 12 &&& (2 ^ 10 - 1) = _
  rw [and_two_pow_sub_one_eq_mod, shiftRight_eq_div_pow]

theorem idx3_eq (key : UInt32) : idx3 key = key.toNat % 2 ^ 12 := by
  exact and_two_pow_sub_one_eq_mod key.toNat 12

theorem idx1_lt (key : UInt32) : idx1 key < ptrsPerLayer := by
  rw [idx1_eq]
  exact mod_lt _ (by decide)

theorem idx2_lt (key : UInt32) : idx2 key < ptrsPerLayer := by
  rw [idx2_eq]
  exact mod_lt _ (by decide)

theorem key_eq_of_idx {key key' : UInt32} (h1 : idx1 key = idx1 key') (h2 : idx2 key = idx2 key')
    (h3 : idx3 key = idx3 key') : key = key' := by
  have hlt := key.toNat_lt
  have hlt' := key'.toNat_lt
  rw [idx1_eq, idx1_eq] at h1
  rw [idx2_eq, idx2_eq] at h2
  rw [idx3_eq, idx3_eq] at h3
  apply UInt32.toNat_inj.mp
  omega

section

inductive Role where
  | top
  | middle (index : Nat)
  | leaf (index index' : Nat)
deriving DecidableEq

def stored (hash : Hash) (key : UInt32) : Nat :=
  entry hash.memory (leafLayer hash key) (idx3 key)

structure Sound (role : Nat → Option Role) (hash : Hash) (items : UInt32 → Nat) : Prop where
  null : hash.memory 0 = none
  allocated : ∀ layer, role layer ≠ none → hash.memory layer ≠ none
  top : role hash.top = some .top
  middle : ∀ key, middleLayer hash key ≠ 0 →
    role (middleLayer hash key) = some (.middle (idx1 key))
  leaf : ∀ key, leafLayer hash key ≠ 0 →
    role (leafLayer hash key) = some (.leaf (idx1 key) (idx2 key))
  items : ∀ key, stored hash key = items key

variable {role : Nat → Option Role} {hash : Hash} {items : UInt32 → Nat}
  {layer : Nat} {key : UInt32} {memory : Memory}

variable (h : Sound role hash items)

include h

theorem Sound.role_of_free (hfree : hash.memory layer = none) : role layer = none := by
  rcases hrole : role layer with _ | r
  · rfl
  · exact absurd hfree (h.allocated layer (by simp [hrole]))

theorem Sound.leaf_of_middle_null (hmiddle : middleLayer hash key = 0) :
    leafLayer hash key = 0 := by
  rw [leafLayer, hmiddle]
  exact entry_null h.null _

theorem Sound.items_of_leaf_null (hleaf : leafLayer hash key = 0) : items key = 0 := by
  rw [← h.items, stored, hleaf]
  exact entry_null h.null _

theorem Sound.top_allocated : hash.memory hash.top ≠ none :=
  h.allocated hash.top (by simp [h.top])

theorem Sound.middle_allocated (hmiddle : middleLayer hash key ≠ 0) :
    hash.memory (middleLayer hash key) ≠ none :=
  h.allocated _ (by simp [h.middle key hmiddle])

theorem Sound.leaf_allocated (hleaf : leafLayer hash key ≠ 0) :
    hash.memory (leafLayer hash key) ≠ none :=
  h.allocated _ (by simp [h.leaf key hleaf])

theorem Sound.congr (hnull : memory 0 = none)
    (hallocated : ∀ layer, hash.memory layer ≠ none → memory layer ≠ none)
    (hentry : ∀ layer slot, entry memory layer slot = entry hash.memory layer slot) :
    Sound role ⟨hash.top, memory⟩ items := by
  have hmiddle : ∀ key, middleLayer ⟨hash.top, memory⟩ key = middleLayer hash key :=
    fun key => hentry _ _
  have hleaf : ∀ key, leafLayer ⟨hash.top, memory⟩ key = leafLayer hash key := by
    intro key
    simp only [leafLayer, hmiddle, hentry]
  refine ⟨hnull, fun layer hrole => hallocated layer (h.allocated layer hrole), h.top, ?_, ?_, ?_⟩
  · intro key
    rw [hmiddle]
    exact h.middle key
  · intro key
    rw [hleaf]
    exact h.leaf key
  · intro key
    rw [stored, hleaf, hentry]
    exact h.items key

theorem Sound.newLayer (hne : layer ≠ 0) (hfree : hash.memory layer = none) :
    Sound role ⟨hash.top, newLayer hash.memory layer⟩ items := by
  refine h.congr ((newLayer_of_ne _ hne.symm).trans h.null) ?_ (newLayer_entry hfree)
  intro other hother
  rcases eq_or_ne other layer with rfl | hdiff
  · exact absurd hfree hother
  · rwa [newLayer_of_ne _ hdiff]

theorem Sound.role_middle (key : UInt32) : role (middleLayer hash key) = none ∨
      role (middleLayer hash key) = some (.middle (idx1 key)) := by
  rcases eq_or_ne (middleLayer hash key) 0 with hnull | hne
  · rw [hnull]
    exact .inl (h.role_of_free h.null)
  · exact .inr (h.middle key hne)

theorem Sound.role_leaf (key : UInt32) : role (leafLayer hash key) = none ∨
      role (leafLayer hash key) = some (.leaf (idx1 key) (idx2 key)) := by
  rcases eq_or_ne (leafLayer hash key) 0 with hnull | hne
  · rw [hnull]
    exact .inl (h.role_of_free h.null)
  · exact .inr (h.leaf key hne)

theorem Sound.middle_ne_top (key : UInt32) : middleLayer hash key ≠ hash.top := by
  intro heq
  have hrole := h.role_middle key
  rw [heq, h.top] at hrole
  simp at hrole

theorem Sound.leaf_ne_top (key : UInt32) : leafLayer hash key ≠ hash.top := by
  intro heq
  have hrole := h.role_leaf key
  rw [heq, h.top] at hrole
  simp at hrole

theorem Sound.leaf_ne_middle (other : UInt32)
    (hmiddle : middleLayer hash key ≠ 0) : leafLayer hash other ≠ middleLayer hash key := by
  intro heq
  have hrole := h.role_leaf other
  rw [heq, h.middle key hmiddle] at hrole
  simp at hrole

theorem Sound.middle_ne_leaf (other : UInt32)
    (hleaf : leafLayer hash key ≠ 0) : middleLayer hash other ≠ leafLayer hash key := by
  intro heq
  have hrole := h.role_middle other
  rw [heq, h.leaf key hleaf] at hrole
  simp at hrole

theorem Sound.idx_of_middle {other : UInt32}
    (hmiddle : middleLayer hash key ≠ 0) (heq : middleLayer hash other = middleLayer hash key) :
    idx1 other = idx1 key := by
  have hother := h.middle other (by rwa [heq])
  rw [heq, h.middle key hmiddle] at hother
  simpa using hother.symm

theorem Sound.idx_of_leaf {other : UInt32}
    (hleaf : leafLayer hash key ≠ 0) (heq : leafLayer hash other = leafLayer hash key) :
    idx1 other = idx1 key ∧ idx2 other = idx2 key := by
  have hother := h.leaf other (by rwa [heq])
  rw [heq, h.leaf key hleaf] at hother
  simpa [eq_comm] using hother

omit h

theorem middleLayer_congr (hash : Hash) {other : UInt32} (h : idx1 other = idx1 key) :
    middleLayer hash other = middleLayer hash key := by
  rw [middleLayer, middleLayer, h]

theorem leafLayer_congr (hash : Hash) {other : UInt32} (h1 : idx1 other = idx1 key)
    (h2 : idx2 other = idx2 key) : leafLayer hash other = leafLayer hash key := by
  rw [leafLayer, leafLayer, middleLayer_congr hash h1, h2]

theorem update_role {other : Nat} {r : Role} (hrole : role layer = none)
    (hother : role other ≠ none) : update role layer (some r) other = role other := by
  refine update_of_ne ?_ _ role
  rintro rfl
  exact hother hrole

variable (h : Sound role hash items)

include h

theorem update_allocated {r : Role} (hallocated : hash.memory layer ≠ none)
    (hsame : ∀ other, memory other = none ↔ hash.memory other = none) (other : Nat)
    (hother : update role layer (some r) other ≠ none) : memory other ≠ none := by
  rw [ne_eq, hsame]
  rcases eq_or_ne other layer with rfl | hdiff
  · exact hallocated
  · rw [update_of_ne hdiff] at hother
    exact h.allocated other hother

theorem Sound.linkMiddle (hmiddle : middleLayer hash key = 0)
    (hrole : role layer = none) (hallocated : hash.memory layer ≠ none)
    (hempty : ∀ slot, entry hash.memory layer slot = 0)
    (hstored : Stored hash.memory memory hash.top (idx1 key) layer) :
    Sound (update role layer (some (.middle (idx1 key)))) ⟨hash.top, memory⟩ items ∧
      middleLayer ⟨hash.top, memory⟩ key = layer := by
  have hne : layer ≠ hash.top := by
    rintro rfl
    simp [h.top] at hrole
  have hsame : ∀ other, idx1 other = idx1 key → middleLayer ⟨hash.top, memory⟩ other = layer := by
    intro other hidx
    rw [middleLayer, hstored.entry, if_pos ⟨rfl, hidx⟩]
  have hdiff : ∀ other, idx1 other ≠ idx1 key →
      middleLayer ⟨hash.top, memory⟩ other = middleLayer hash other := by
    intro other hidx
    rw [middleLayer, hstored.entry, if_neg fun hboth => hidx hboth.2]
    rfl
  -- under the new layer there is nothing, as there was nothing before
  have hleaf : ∀ other, leafLayer ⟨hash.top, memory⟩ other = leafLayer hash other := by
    intro other
    rw [leafLayer]
    rcases eq_or_ne (idx1 other) (idx1 key) with hidx | hidx
    · rw [hsame other hidx, hstored.entry_of_ne hne, hempty, h.leaf_of_middle_null]
      rw [middleLayer_congr hash hidx, hmiddle]
    · rw [hdiff other hidx, hstored.entry_of_ne (h.middle_ne_top other)]
      rfl
  refine ⟨⟨(hstored.same 0).mpr h.null, update_allocated h hallocated hstored.same, ?_, ?_, ?_, ?_⟩,
    hsame key rfl⟩
  · exact (update_of_ne hne.symm _ role).trans h.top
  · intro other hother
    rcases eq_or_ne (idx1 other) (idx1 key) with hidx | hidx
    · rw [hsame other hidx, update_self, hidx]
    · rw [hdiff other hidx] at hother ⊢
      rw [update_role hrole (by simp [h.middle other hother])]
      exact h.middle other hother
  · intro other hother
    rw [hleaf] at hother ⊢
    rw [update_role hrole (by simp [h.leaf other hother])]
    exact h.leaf other hother
  · intro other
    rw [stored, hleaf, hstored.entry_of_ne (h.leaf_ne_top other)]
    exact h.items other

theorem Sound.linkLeaf (hmiddle : middleLayer hash key ≠ 0)
    (hleaf : leafLayer hash key = 0) (hrole : role layer = none)
    (hallocated : hash.memory layer ≠ none) (hempty : ∀ slot, entry hash.memory layer slot = 0)
    (hstored : Stored hash.memory memory (middleLayer hash key) (idx2 key) layer) :
    Sound (update role layer (some (.leaf (idx1 key) (idx2 key)))) ⟨hash.top, memory⟩
        items ∧ leafLayer ⟨hash.top, memory⟩ key = layer := by
  have hne : layer ≠ middleLayer hash key := by
    rintro rfl
    simp [h.middle key hmiddle] at hrole
  have hmiddle' : ∀ other, middleLayer ⟨hash.top, memory⟩ other = middleLayer hash other :=
    fun other => hstored.entry_of_ne (h.middle_ne_top key).symm _
  have hsame : ∀ other, idx1 other = idx1 key → idx2 other = idx2 key →
      leafLayer ⟨hash.top, memory⟩ other = layer := by
    intro other hidx hidx'
    rw [leafLayer, hmiddle', hstored.entry, if_pos ⟨middleLayer_congr hash hidx, hidx'⟩]
  have hdiff : ∀ other, ¬(idx1 other = idx1 key ∧ idx2 other = idx2 key) →
      leafLayer ⟨hash.top, memory⟩ other = leafLayer hash other := by
    intro other hidx
    rw [leafLayer, hmiddle', hstored.entry, if_neg]
    · rfl
    · rintro ⟨heq, hidx'⟩
      exact hidx ⟨h.idx_of_middle hmiddle heq, hidx'⟩
  refine ⟨⟨(hstored.same 0).mpr h.null, update_allocated h hallocated hstored.same, ?_, ?_, ?_, ?_⟩,
    hsame key rfl rfl⟩
  · exact (update_role hrole (by simp [h.top])).trans h.top
  · intro other hother
    rw [hmiddle'] at hother ⊢
    rw [update_role hrole (by simp [h.middle other hother])]
    exact h.middle other hother
  · intro other hother
    rcases em (idx1 other = idx1 key ∧ idx2 other = idx2 key) with hidx | hidx
    · rw [hsame other hidx.1 hidx.2, update_self, hidx.1, hidx.2]
    · rw [hdiff other hidx] at hother ⊢
      rw [update_role hrole (by simp [h.leaf other hother])]
      exact h.leaf other hother
  · intro other
    rw [stored]
    rcases em (idx1 other = idx1 key ∧ idx2 other = idx2 key) with hidx | hidx
    · rw [hsame other hidx.1 hidx.2, hstored.entry_of_ne hne, hempty, h.items_of_leaf_null]
      rw [leafLayer_congr hash hidx.1 hidx.2, hleaf]
    · rw [hdiff other hidx, hstored.entry_of_ne (h.leaf_ne_middle other hmiddle)]
      exact h.items other

theorem Sound.storeItem {item : Nat} (hleaf : leafLayer hash key ≠ 0)
    (hstored : Stored hash.memory memory (leafLayer hash key) (idx3 key) item) :
    Sound role ⟨hash.top, memory⟩ (update items key item) := by
  have hmiddle' : ∀ other, middleLayer ⟨hash.top, memory⟩ other = middleLayer hash other :=
    fun other => hstored.entry_of_ne (h.leaf_ne_top key).symm _
  have hleaf' : ∀ other, leafLayer ⟨hash.top, memory⟩ other = leafLayer hash other := by
    intro other
    rw [leafLayer, hmiddle', hstored.entry_of_ne (h.middle_ne_leaf other hleaf)]
    rfl
  refine ⟨(hstored.same 0).mpr h.null, ?_, h.top, ?_, ?_, ?_⟩
  · intro other hother
    rw [ne_eq, hstored.same]
    exact h.allocated other hother
  · intro other
    rw [hmiddle']
    exact h.middle other
  · intro other
    rw [hleaf']
    exact h.leaf other
  · intro other
    rw [stored, hleaf', hstored.entry]
    rcases eq_or_ne other key with rfl | hne
    · rw [if_pos ⟨rfl, rfl⟩, update_self]
    rw [update_of_ne hne, if_neg]
    · exact h.items other
    · rintro ⟨heq, hidx⟩
      obtain ⟨hidx1, hidx2⟩ := h.idx_of_leaf hleaf heq
      exact hne (key_eq_of_idx hidx1 hidx2 hidx)

omit h

end

section

variable {role : Nat → Option Role} {hash : Hash} {items : UInt32 → Nat}

section

variable {memory memory' : Memory} {curLayer idx next : Nat}

theorem insertLoop_next (item idx' : Nat) (rest fresh : List Nat)
    (hread : readEntry memory curLayer idx = some next) (hne : next ≠ 0) :
    insertLoop item (idx :: idx' :: rest) curLayer fresh memory =
      insertLoop item (idx' :: rest) next fresh memory := by
  rw [insertLoop, hread]
  exact if_neg hne

theorem insertLoop_new (item idx' : Nat) (rest : List Nat) {fresh : List Nat}
    (hread : readEntry memory curLayer idx = some 0) (hfresh : fresh.headD 0 ≠ 0)
    (hwrite : writeEntry (newLayer memory (fresh.headD 0)) curLayer idx (fresh.headD 0) =
      some memory') : insertLoop item (idx :: idx' :: rest) curLayer fresh memory =
      insertLoop item (idx' :: rest) (fresh.headD 0) fresh.tail memory' := by
  rw [insertLoop, hread]
  dsimp only
  rw [if_pos rfl, hwrite]
  exact if_neg hfresh

theorem getLoop_next (idx' : Nat) (rest : List Nat)
    (hread : readEntry memory curLayer idx = some next) (hne : next ≠ 0) :
    getLoop memory (idx :: idx' :: rest) curLayer = getLoop memory (idx' :: rest) next := by
  rw [getLoop, hread]
  exact if_neg hne

theorem eraseLoop_next (idx' : Nat) (rest : List Nat)
    (hread : readEntry memory curLayer idx = some next) (hne : next ≠ 0) :
    eraseLoop memory (idx :: idx' :: rest) curLayer = eraseLoop memory (idx' :: rest) next := by
  rw [eraseLoop, hread]
  exact if_neg hne

theorem getLoop_null (idx' : Nat) (rest : List Nat)
    (hread : readEntry memory curLayer idx = some 0) :
    getLoop memory (idx :: idx' :: rest) curLayer = some ⟨.general, none⟩ := by
  rw [getLoop, hread]
  exact if_pos rfl

theorem eraseLoop_null (idx' : Nat) (rest : List Nat)
    (hread : readEntry memory curLayer idx = some 0) :
    eraseLoop memory (idx :: idx' :: rest) curLayer = some memory := by
  rw [eraseLoop, hread]
  exact if_pos rfl

end

variable (h : Sound role hash items)

include h

theorem Sound.readMiddle (key : UInt32) :
    readEntry hash.memory hash.top (idx1 key) = some (middleLayer hash key) :=
  readEntry_eq h.top_allocated (idx1_lt key)

theorem Sound.readLeaf {key : UInt32} (hmiddle : middleLayer hash key ≠ 0) :
    readEntry hash.memory (middleLayer hash key) (idx2 key) = some (leafLayer hash key) :=
  readEntry_eq (h.middle_allocated hmiddle) (idx2_lt key)

theorem Sound.insertMiddle (key : UInt32) (item : Nat)
    {first second : Nat} (hfirst : first ≠ 0) (hne : first ≠ second)
    (hfree : hash.memory first = none) (hfree' : hash.memory second = none) :
    ∃ role' memory layer fresh,
      insertLoop item [idx1 key, idx2 key, idx3 key] hash.top [first, second] hash.memory =
        insertLoop item [idx2 key, idx3 key] layer fresh memory ∧
      Sound role' ⟨hash.top, memory⟩ items ∧ layer = middleLayer ⟨hash.top, memory⟩ key ∧
      layer ≠ 0 ∧ (fresh = [first, second] ∨ fresh = [second]) ∧ memory (fresh.headD 0) = none := by
  have hread := h.readMiddle key
  rcases eq_or_ne (middleLayer hash key) 0 with hmiddle | hmiddle
  · have hnew := h.newLayer hfirst hfree
    have hself := newLayer_self hash.memory hfirst
    obtain ⟨memory, hwrite, hstored⟩ :=
      writeEntry_stored first hnew.top_allocated (idx1_lt key)
    have hzero : middleLayer ⟨hash.top, MultiLayerHash.newLayer hash.memory first⟩ key = 0 := by
      rw [middleLayer, newLayer_entry hfree]
      exact hmiddle
    obtain ⟨hsound, hlayer⟩ :=
      hnew.linkMiddle hzero (h.role_of_free hfree) hself (newLayer_empty hfree) hstored
    rw [hmiddle] at hread
    refine ⟨_, memory, first, [second], ?_, hsound, hlayer.symm, hfirst, .inr rfl, ?_⟩
    · exact @insertLoop_new _ _ _ _ item _ _ [first, second] hread hfirst hwrite
    · have hsecond : MultiLayerHash.newLayer hash.memory first second = none := by
        rw [newLayer_of_ne _ hne.symm]
        exact hfree'
      exact (hstored.same second).mpr hsecond
  · refine ⟨role, hash.memory, middleLayer hash key, [first, second], ?_, h, rfl, hmiddle,
      .inl rfl, hfree⟩
    exact insertLoop_next item _ _ _ hread hmiddle

theorem Sound.insertLeaf (key : UInt32) (item : Nat)
    {fresh : List Nat} (hmiddle : middleLayer hash key ≠ 0) (hfresh : fresh.headD 0 ≠ 0)
    (hfree : hash.memory (fresh.headD 0) = none) : ∃ role' memory layer fresh',
      insertLoop item [idx2 key, idx3 key] (middleLayer hash key) fresh hash.memory =
        insertLoop item [idx3 key] layer fresh' memory ∧
      Sound role' ⟨hash.top, memory⟩ items ∧ layer = leafLayer ⟨hash.top, memory⟩ key ∧
      layer ≠ 0 := by
  have hread := h.readLeaf hmiddle
  rcases eq_or_ne (leafLayer hash key) 0 with hleaf | hleaf
  · have hnew := h.newLayer hfresh hfree
    have hself := newLayer_self hash.memory hfresh
    have hsame : middleLayer ⟨hash.top, MultiLayerHash.newLayer hash.memory (fresh.headD 0)⟩ key =
        middleLayer hash key := newLayer_entry hfree _ _
    obtain ⟨memory, hwrite, hstored⟩ := writeEntry_stored (fresh.headD 0)
      (hnew.middle_allocated (by rwa [hsame])) (idx2_lt key)
    have hzero : leafLayer ⟨hash.top, MultiLayerHash.newLayer hash.memory (fresh.headD 0)⟩ key =
        0 := by
      rw [leafLayer, hsame, newLayer_entry hfree]
      exact hleaf
    obtain ⟨hsound, hlayer⟩ := hnew.linkLeaf (by rwa [hsame]) hzero (h.role_of_free hfree) hself
      (newLayer_empty hfree) hstored
    rw [hsame] at hwrite
    rw [hleaf] at hread
    refine ⟨_, memory, fresh.headD 0, fresh.tail, ?_, hsound, hlayer.symm, hfresh⟩
    exact insertLoop_new item _ _ hread hfresh hwrite
  · refine ⟨role, hash.memory, leafLayer hash key, fresh, ?_, h, rfl, hleaf⟩
    exact insertLoop_next item _ _ _ hread hleaf

theorem Sound.insert (key : UInt32) (item : Nat) {first second : Nat}
    (hfirst : first ≠ 0) (hsecond : second ≠ 0) (hne : first ≠ second)
    (hfree : hash.memory first = none) (hfree' : hash.memory second = none) :
    (idx3 key < ptrsPerLayer → ∃ role' hash',
      MultiLayerHash.insert hash key item [first, second] = some (⟨.success, none⟩, hash') ∧
        Sound role' hash' (update items key item)) ∧ (¬idx3 key < ptrsPerLayer →
      MultiLayerHash.insert hash key item [first, second] = none) := by
  obtain ⟨role', memory, layer, fresh, hloop, hsound, hlayer, hlayerne, hfresh, hhead⟩ :=
    h.insertMiddle key item hfirst hne hfree hfree'
  have hheadne : fresh.headD 0 ≠ 0 := by
    rcases hfresh with rfl | rfl
    · exact hfirst
    · exact hsecond
  rw [hlayer] at hloop hlayerne
  obtain ⟨role'', memory', layer', fresh', hloop', hsound', hlayer', hlayerne'⟩ :=
    hsound.insertLeaf key item hlayerne hheadne hhead
  have hinsert := hloop.trans hloop'
  rw [hlayer'] at hinsert hlayerne'
  constructor
  · intro hidx
    obtain ⟨memory'', hwrite, hstored⟩ :=
      writeEntry_stored item (hsound'.leaf_allocated hlayerne') hidx
    refine ⟨role'', ⟨hash.top, memory''⟩, ?_, hsound'.storeItem hlayerne' hstored⟩
    rw [MultiLayerHash.insert, hinsert, insertLoop, hwrite]
  · intro hidx
    rw [MultiLayerHash.insert, hinsert, insertLoop, writeEntry_past _ _ _ hidx]

theorem Sound.get_cases (key : UInt32) :
    (leafLayer hash key = 0 ∧ get hash key = some ⟨.general, none⟩) ∨
    (leafLayer hash key ≠ 0 ∧ idx3 key < ptrsPerLayer ∧
      get hash key = some ⟨.success, some (items key)⟩) ∨
    (leafLayer hash key ≠ 0 ∧ ¬idx3 key < ptrsPerLayer ∧ get hash key = none) := by
  have hread := h.readMiddle key
  rcases eq_or_ne (middleLayer hash key) 0 with hmiddle | hmiddle
  · left
    rw [hmiddle] at hread
    exact ⟨h.leaf_of_middle_null hmiddle, getLoop_null _ _ hread⟩
  have hread' := h.readLeaf hmiddle
  have hfirst : get hash key = getLoop hash.memory [idx2 key, idx3 key] (middleLayer hash key) :=
    getLoop_next _ _ hread hmiddle
  rcases eq_or_ne (leafLayer hash key) 0 with hleaf | hleaf
  · left
    rw [hleaf] at hread'
    exact ⟨hleaf, hfirst.trans (getLoop_null _ _ hread')⟩
  right
  have hsecond : get hash key = getLoop hash.memory [idx3 key] (leafLayer hash key) :=
    hfirst.trans (getLoop_next _ _ hread' hleaf)
  rcases em (idx3 key < ptrsPerLayer) with hidx | hidx
  · left
    refine ⟨hleaf, hidx, ?_⟩
    rw [hsecond, getLoop, readEntry_eq (h.leaf_allocated hleaf) hidx, ← h.items]
    rfl
  · right
    refine ⟨hleaf, hidx, ?_⟩
    rw [hsecond, getLoop, readEntry_past _ _ hidx]

theorem Sound.erase_cases (key : UInt32) : ((leafLayer hash key = 0 ∨ idx3 key < ptrsPerLayer) ∧
      ∃ hash', erase hash key = some hash' ∧ Sound role hash' (update items key 0)) ∨
    (leafLayer hash key ≠ 0 ∧ ¬idx3 key < ptrsPerLayer ∧ erase hash key = none) := by
  have hread := h.readMiddle key
  -- with no leaf layer there is no item either
  have hnothing : leafLayer hash key = 0 → Sound role hash (update items key 0) := by
    intro hleaf
    rw [← h.items_of_leaf_null hleaf, update_eq_self]
    exact h
  rcases eq_or_ne (middleLayer hash key) 0 with hmiddle | hmiddle
  · left
    have hleaf := h.leaf_of_middle_null hmiddle
    rw [hmiddle] at hread
    refine ⟨.inl hleaf, hash, ?_, hnothing hleaf⟩
    rw [erase, eraseLoop_null _ _ hread]
  have hread' := h.readLeaf hmiddle
  have hfirst := eraseLoop_next (idx2 key) [idx3 key] hread hmiddle
  rcases eq_or_ne (leafLayer hash key) 0 with hleaf | hleaf
  · left
    rw [hleaf] at hread'
    refine ⟨.inl hleaf, hash, ?_, hnothing hleaf⟩
    rw [erase, hfirst, eraseLoop_null _ _ hread']
  have hsecond := eraseLoop_next (idx3 key) [] hread' hleaf
  rcases em (idx3 key < ptrsPerLayer) with hidx | hidx
  · left
    obtain ⟨memory, hwrite, hstored⟩ := writeEntry_stored 0 (h.leaf_allocated hleaf) hidx
    refine ⟨.inr hidx, ⟨hash.top, memory⟩, ?_, h.storeItem hleaf hstored⟩
    rw [erase, hfirst, hsecond, eraseLoop, hwrite]
  · right
    refine ⟨hleaf, hidx, ?_⟩
    rw [erase, hfirst, hsecond, eraseLoop, writeEntry_past _ _ _ hidx]

omit h

end

def SoundState (state : State) : Prop :=
  ∃ role, Sound role state.hash state.items

theorem step_good {state : State} {call : Call} (hsound : SoundState state)
    (hlegal : Legal state call) (hgood : Good state call) :
    ∃ answer next, step state call = some (answer, next) ∧ Spec state call answer next ∧
      SoundState next := by
  obtain ⟨role, h⟩ := hsound
  cases call with
  | insert key item fresh =>
    obtain ⟨first, second, rfl, hfirst, hsecond, hne, hfree, hfree'⟩ := hlegal
    obtain ⟨role', hash', hinsert, hnext⟩ :=
      (h.insert key item hfirst hsecond hne hfree hfree').1 hgood
    refine ⟨⟨.success, none⟩, ⟨hash', update state.items key item⟩, ?_, rfl, role', hnext⟩
    simp only [step, hinsert]
  | get key =>
    rcases h.get_cases key with ⟨hleaf, hget⟩ | ⟨-, -, hget⟩ | ⟨hleaf, hidx, -⟩
    · refine ⟨⟨.general, none⟩, state, ?_, ?_, role, h⟩
      · simp only [step, hget]
      · exact (h.items_of_leaf_null hleaf).symm
    · refine ⟨⟨.success, some (state.items key)⟩, state, ?_, rfl, role, h⟩
      simp only [step, hget]
    · exact absurd hgood (not_or.mpr ⟨hleaf, hidx⟩)
  | erase key =>
    rcases h.erase_cases key with ⟨-, hash', herase, hnext⟩ | ⟨hleaf, hidx, -⟩
    · refine ⟨⟨.success, none⟩, ⟨hash', update state.items key 0⟩, ?_, trivial, role, hnext⟩
      simp only [step, herase]
    · exact absurd hgood (not_or.mpr ⟨hleaf, hidx⟩)

theorem step_bad {state : State} {call : Call} (hsound : SoundState state)
    (hlegal : Legal state call) (hbad : ¬Good state call) : step state call = none := by
  obtain ⟨role, h⟩ := hsound
  cases call with
  | insert key item fresh =>
    obtain ⟨first, second, rfl, hfirst, hsecond, hne, hfree, hfree'⟩ := hlegal
    have hinsert := (h.insert key item hfirst hsecond hne hfree hfree').2 hbad
    simp only [step, hinsert]
  | get key =>
    rcases h.get_cases key with ⟨hleaf, -⟩ | ⟨-, hidx, -⟩ | ⟨-, -, hget⟩
    · exact absurd (.inl hleaf) hbad
    · exact absurd (.inr hidx) hbad
    · simp only [step, hget]
  | erase key =>
    rcases h.erase_cases key with ⟨hgood, -⟩ | ⟨-, -, herase⟩
    · exact absurd hgood hbad
    · simp only [step, herase]

def initial (top : Nat) : State :=
  ⟨initialHash top, fun _ => 0⟩

theorem soundState_initial {top : Nat} (hne : top ≠ 0) : SoundState (initial top) := by
  have hentry : ∀ layer slot, entry (newLayer (fun _ => none) top) layer slot = 0 := by
    intro layer slot
    rw [newLayer_entry rfl]
    rfl
  refine ⟨update (fun _ => none) top (some .top), ?_, ?_, ?_, ?_, ?_, ?_⟩
  · exact newLayer_of_ne _ hne.symm
  · intro layer hlayer
    rcases eq_or_ne layer top with rfl | hdiff
    · exact newLayer_self _ hne
    · exact absurd (update_of_ne hdiff _ _) hlayer
  · exact update_self ..
  · intro key hmiddle
    exact absurd (hentry _ _) hmiddle
  · intro key hleaf
    exact absurd (hentry _ _) hleaf
  · intro key
    exact hentry _ _

/-- The hash is a map from keys to items in exactly the runs in which no call reaches a leaf
layer with the low twelve bits of its key at or above the size of a layer. -/
theorem multiLayerHash_map_iff (top : Nat) (calls : List Call) (hne : top ≠ 0)
    (hlegal : Guarded step Legal (initial top) calls) :
    Meets step Spec (initial top) calls ↔ Guarded step Good (initial top) calls := by
  refine @meets_iff_guarded_of_faults _ _ _ _ _ _ SoundState Legal _ ?_ ?_ _
    (soundState_initial hne) hlegal
  · intro state call hsound hlegal hgood
    exact step_good hsound hlegal hgood
  · intro state call answer next hsound hlegal hbad hstep
    rw [step_bad hsound hlegal hbad] at hstep
    cases hstep

theorem multiLayerHash_map_iff_erased :
    Guarded step Legal (initial 1) [.insert 5 70 [2, 3], .get 5, .erase 5, .get 5] ∧
      (Meets step Spec (initial 1) [.insert 5 70 [2, 3], .get 5, .erase 5, .get 5] ↔
        Guarded step Good (initial 1) [.insert 5 70 [2, 3], .get 5, .erase 5, .get 5]) := by
  have hlegal : Guarded step Legal (initial 1)
      [.insert 5 70 [2, 3], .get 5, .erase 5, .get 5] := by
    refine ⟨⟨2, 3, rfl, by decide, by decide, by decide, rfl, rfl⟩, fun _ _ _ => ?_⟩
    exact ⟨trivial, fun _ _ _ => ⟨trivial, fun _ _ _ => ⟨trivial, fun _ _ _ => trivial⟩⟩⟩
  exact ⟨hlegal, multiLayerHash_map_iff 1 _ (by decide) hlegal⟩

theorem insert_past_layer : Guarded step Legal (initial 1) [.insert 1024 70 [2, 3]] ∧
      ¬Meets step Spec (initial 1) [.insert 1024 70 [2, 3]] := by
  refine ⟨⟨⟨2, 3, rfl, by decide, by decide, by decide, rfl, rfl⟩, fun _ _ _ => trivial⟩, ?_⟩
  rintro ⟨answer, next, hstep, -⟩
  cases hstep

end Zambesii.MultiLayerHash
