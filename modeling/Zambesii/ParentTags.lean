import Mathlib.Data.List.Nodup
import Zambesii.KernelTypes
import Zambesii.Runs

/-!
The tags which a device has for its parents, each with an id of its own.
-/

namespace Zambesii.ParentTags

open KernelTypes List Runs

def driverMetalanguageMaxlen : Nat := 32

structure Tag where
  address : Nat
  inode : Nat
deriving DecidableEq

structure ParentTag where
  id : Nat
  tag : Tag
  metaName : List Char
deriving DecidableEq

/-- What is kept of `Device::sMutableState`, and the tags created so far. -/
structure State where
  nParentTags : Nat
  parentTags : List ParentTag
  parentTagCounter : Nat
  created : List ParentTag

def initialState : State := ⟨0, [], 1, []⟩

def parentTag (id : Nat) (tag : Tag) (metaName : Option (List Char)) : ParentTag where
  id := id % 2 ^ 16
  tag := tag
  metaName := (metaName.getD []).take driverMetalanguageMaxlen

/-- The arguments of `Device::createParentTag`, and whether there is memory for the array. -/
structure Call where
  tag : Option Tag
  enumeratingMetaName : Option (List Char)
  newIdRetval : Bool
  allocated : Bool

/-- `Device::createParentTag`: the error, and the id which is returned. -/
def createParentTag (state : State) (call : Call) : Option ((Kerror × Option Nat) × State) :=
  if call.newIdRetval = false then some ((.invalidArg, none), state)
  else match call.tag with
    | none => some ((.invalidArgVal, none), state)
    | some tag =>
      if call.allocated = false then some ((.memoryNomem, none), state)
      else
        let new := parentTag state.parentTagCounter tag call.enumeratingMetaName
        some ((.success, some (state.parentTagCounter % 2 ^ 16)),
          { nParentTags := (state.nParentTags + 1) % 2 ^ 8
            parentTags := state.parentTags.take state.nParentTags ++ [new]
            parentTagCounter := (state.parentTagCounter + 1) % wordModulus
            created := state.created ++ [new] })

def getParentTag (state : State) (parentId : Nat) : Option ParentTag :=
  (state.parentTags.take state.nParentTags).find? fun tag => tag.id = parentId

def getParentTagOf (state : State) (parentDev : Nat) : Option ParentTag :=
  (state.parentTags.take state.nParentTags).find? fun tag => tag.tag.inode = parentDev

section

/-- Every tag is found, the ids are distinct and not 0, and the count is that of the array. -/
structure Kept (state : State) : Prop where
  byId : ∀ tag ∈ state.created, getParentTag state tag.id = some tag
  byDevice : ∀ tag ∈ state.created, getParentTagOf state tag.tag.inode = some tag
  nodup : (state.created.map ParentTag.id).Nodup
  ne_zero : ∀ tag ∈ state.created, tag.id ≠ 0
  count : state.parentTags.length = state.nParentTags

/-- A tag is created only while there are fewer than 255, and for a device which has none. -/
def Good (state : State) (call : Call) : Prop :=
  ∀ tag, call.newIdRetval = true → call.tag = some tag → call.allocated = true →
    state.nParentTags ≠ 255 ∧ ∀ other ∈ state.parentTags, other.tag.inode ≠ tag.inode

structure Inv (state : State) : Prop where
  created : state.created = state.parentTags
  count : state.parentTags.length = state.nParentTags
  count_lt : state.nParentTags < 2 ^ 8
  counter : state.parentTagCounter = state.nParentTags + 1
  ids : state.parentTags.map ParentTag.id = List.range' 1 state.nParentTags
  devices : (state.parentTags.map fun tag => tag.tag.inode).Nodup

variable {state : State} {call : Call}

theorem inv_initialState : Inv initialState where
  created := rfl
  count := rfl
  count_lt := by decide
  counter := rfl
  ids := rfl
  devices := nodup_nil

theorem find?_of_nodup {κ : Type} [DecidableEq κ] {tags : List ParentTag} {key : ParentTag → κ}
    (h : (tags.map key).Nodup) {tag : ParentTag} (hmem : tag ∈ tags) :
    tags.find? (fun other => key other = key tag) = some tag := by
  cases hfind : tags.find? fun other => key other = key tag with
  | none =>
    have hnone := find?_eq_none.mp hfind tag hmem
    simp at hnone
  | some found =>
    have hkey : key found = key tag := of_decide_eq_true (find?_some hfind :)
    rw [inj_on_of_nodup_map h (mem_of_find?_eq_some hfind) hmem hkey]

variable (h : Inv state)

include h

theorem Inv.take : state.parentTags.take state.nParentTags = state.parentTags :=
  take_of_length_le h.count.le

theorem Inv.kept : Kept state where
  byId := by
    intro tag hmem
    rw [h.created] at hmem
    rw [getParentTag, h.take]
    exact find?_of_nodup (h.ids ▸ nodup_range') hmem
  byDevice := by
    intro tag hmem
    rw [h.created] at hmem
    rw [getParentTagOf, h.take]
    exact find?_of_nodup h.devices hmem
  nodup := by
    rw [h.created, h.ids]
    exact nodup_range'
  ne_zero := by
    intro tag hmem
    rw [h.created] at hmem
    have hid := mem_map_of_mem (f := ParentTag.id) hmem
    rw [h.ids, mem_range'_1] at hid
    omega
  count := h.count

def addedState (state : State) (tag : Tag) (metaName : Option (List Char)) : State where
  nParentTags := (state.nParentTags + 1) % 2 ^ 8
  parentTags := state.parentTags ++ [parentTag state.parentTagCounter tag metaName]
  parentTagCounter := state.nParentTags + 2
  created := state.created ++ [parentTag state.parentTagCounter tag metaName]

theorem Inv.createParentTag {tag : Tag} (hid : call.newIdRetval = true)
    (htag : call.tag = some tag) (hallocated : call.allocated = true) :
    ∃ result, createParentTag state call =
      some (result, addedState state tag call.enumeratingMetaName) := by
  have hlt := h.count_lt
  have hcounter : (state.parentTagCounter + 1) % wordModulus = state.nParentTags + 2 := by
    rw [h.counter, Nat.mod_eq_of_lt (by simp only [wordModulus]; omega)]
  rw [ParentTags.createParentTag, if_neg (by simp [hid]), htag]
  dsimp only
  rw [if_neg (by simp [hallocated]), h.take, hcounter]
  exact ⟨_, rfl⟩

theorem Inv.added {tag : Tag} (metaName : Option (List Char)) (hcount : state.nParentTags ≠ 255)
    (hnew : ∀ other ∈ state.parentTags, other.tag.inode ≠ tag.inode) :
    Inv (addedState state tag metaName) := by
  have hlt := h.count_lt
  have hnext : (state.nParentTags + 1) % 2 ^ 8 = state.nParentTags + 1 :=
    Nat.mod_eq_of_lt (by omega)
  refine ⟨?_, ?_, Nat.mod_lt _ (by decide), ?_, ?_, ?_⟩
  · simp [addedState, h.created]
  · rw [addedState, hnext]
    simp [h.count]
  · rw [addedState, hnext]
  · simp only [addedState, map_append, h.ids, hnext, range'_concat]
    simp [parentTag, h.counter]
    omega
  · simp only [addedState, map_append]
    refine nodup_append.mpr ⟨h.devices, pairwise_singleton _ _, ?_⟩
    rintro inode hin other hother rfl
    obtain ⟨found, hfound, rfl⟩ := mem_map.mp hin
    exact hnew found hfound (mem_singleton.mp hother)

theorem Inv.good_of_kept {tag : Tag} {metaName : Option (List Char)}
    (hkept : Kept (addedState state tag metaName)) :
    state.nParentTags ≠ 255 ∧ ∀ other ∈ state.parentTags, other.tag.inode ≠ tag.inode := by
  have hcount := hkept.count
  have hlength := h.count
  simp only [addedState, length_append, length_singleton] at hcount
  have hroom : state.nParentTags ≠ 255 := by
    intro hfull
    omega
  refine ⟨hroom, ?_⟩
  intro other hother hsame
  -- The lookup with the device comes to the earlier tag for both of them.
  have hold := hkept.byDevice other (mem_append_left _ (h.created ▸ hother))
  have hnew := hkept.byDevice _ (mem_append_right _ (mem_singleton_self _))
  rw [hsame] at hold
  have heq := Option.some.inj (hold.symm.trans hnew)
  have hid := mem_map_of_mem (f := ParentTag.id) hother
  rw [heq, h.ids, mem_range'_1, parentTag, h.counter] at hid
  dsimp only at hid
  omega

theorem Inv.step (call : Call) :
    ∃ result next, ParentTags.createParentTag state call = some (result, next) ∧
      (Kept next ↔ Good state call) ∧ (Good state call → Inv next) := by
  rcases Bool.eq_false_or_eq_true call.newIdRetval with hid | hid
  · cases htag : call.tag with
    | none =>
      refine ⟨(.invalidArgVal, none), state, by simp [ParentTags.createParentTag, hid, htag],
        iff_of_true h.kept ?_, fun _ => h⟩
      intro tag _ hsome
      rw [htag] at hsome
      cases hsome
    | some tag =>
      rcases Bool.eq_false_or_eq_true call.allocated with hallocated | hallocated
      · obtain ⟨result, hcreate⟩ := h.createParentTag hid htag hallocated
        refine ⟨result, _, hcreate, ⟨?_, ?_⟩, ?_⟩
        · intro hkept tag' _ htag' _
          rw [htag] at htag'
          cases htag'
          exact h.good_of_kept hkept
        · intro hgood
          obtain ⟨hcount, hnew⟩ := hgood tag hid htag hallocated
          exact (h.added _ hcount hnew).kept
        · intro hgood
          obtain ⟨hcount, hnew⟩ := hgood tag hid htag hallocated
          exact h.added _ hcount hnew
      · refine ⟨(.memoryNomem, none), state,
          by simp [ParentTags.createParentTag, hid, htag, hallocated],
          iff_of_true h.kept ?_, fun _ => h⟩
        intro _ _ _ hmemory
        rw [hallocated] at hmemory
        cases hmemory
  · refine ⟨(.invalidArg, none), state, by simp [ParentTags.createParentTag, hid],
      iff_of_true h.kept ?_, fun _ => h⟩
    intro _ hretval
    rw [hid] at hretval
    cases hretval

omit h

/-- Exactly the calls which leave the count below 255 and give each device one tag keep them all. -/
theorem kept_iff_good (calls : List Call) : Throughout createParentTag Kept initialState calls ↔
      Guarded createParentTag Good initialState calls :=
  throughout_iff_guarded (fun _ h => h.kept) (fun _ call h _ => h.step call) inv_initialState
    (guarded_of_forall (fun _ _ => trivial) _ _)

def parents (count : Nat) : List Call :=
  (List.range count).map fun device => ⟨some ⟨device, device⟩, none, true, true⟩

theorem parents_256_not_kept : ¬ Throughout createParentTag Kept initialState (parents 256) := by
  intro hthroughout
  obtain ⟨results, last, hrun, hkept⟩ := hthroughout.last
  have hcounts : (run createParentTag initialState (parents 256)).map
      (fun outcome => (outcome.2.parentTags.length, outcome.2.nParentTags)) = some (256, 0) := by
    decide +kernel
  rw [hrun] at hcounts
  obtain ⟨hlength, hcount⟩ := Prod.mk.inj (Option.some.inj hcounts)
  have hsame := hkept.count
  dsimp only at hlength hcount
  omega

end

end Zambesii.ParentTags
