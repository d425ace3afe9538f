import Mathlib.Data.List.Perm.Subperm
import Zambesii.KernelTypes

/-!
The classes of a driver, detected from the metalanguages of its child bind ops. The array is
allocated after a first pass which counts them, and filled in by a second.
-/

namespace Zambesii.DriverClasses

open KernelTypes List

def driverClasses : List String :=
  ["unknown", "unrecognized", "bus", "io-controller", "generic-io", "network", "audio-output",
    "audio-input", "visual-output", "visual-input", "storage", "character-input",
    "coordinate-input", "battery", "gpio", "biometric-input", "printer", "scanner",
    "irq-controller", "timer", "clock", "card-reader", "kernel-abstraction", "entropy-source",
    "tactile-input", "tactile-output", "cerebral-input", "cerebral-output"]

structure ClassMapEntry where
  metaName : String
  classIndex : Nat
deriving DecidableEq

def driverClassMap : List ClassMapEntry :=
  [⟨"udi_bridge", 2⟩, ⟨"udi_nic", 5⟩, ⟨"udi_gio", 4⟩, ⟨"udi_scsi", 3⟩, ⟨"zbz_root", 22⟩]

def driverClassMaxlen : Nat := 32

structure Metalanguage where
  index : Nat
  name : String

structure ChildBop where
  metaIndex : Nat

/-- A row of the array which has not been written is `none`. -/
structure State where
  classes : Option (List (Option String))
  nClasses : Nat

def initialState : State := ⟨none, 0⟩

def getMetalanguage (metalanguages : List Metalanguage) (index : Nat) : Option Metalanguage :=
  metalanguages.find? fun metalanguage => metalanguage.index = index

def classMapEntry (metalanguages : List Metalanguage) (childBop : ChildBop) :
    Option ClassMapEntry :=
  (getMetalanguage metalanguages childBop.metaIndex).bind fun metalanguage =>
    driverClassMap.find? fun entry => metalanguage.name = entry.metaName

def duplicate (classes : List (Option String)) (className : String) (i : Nat) :
    (left : Nat) → Option Bool
  | 0 => some false
  | left + 1 =>
    match classes[i]? with
    | some (some other) =>
      if other = className then some true else duplicate classes className (i + 1) left
    | _ => none

/-- `fillInClass`: what it returns, and the array. A write outside of the array is not defined. -/
def fillInClass (classes : List (Option String)) (insertionIndex : Nat) (className : String) :
    Option (Nat × List (Option String)) := do
  if ← duplicate classes className 0 insertionIndex then some (0, classes)
  else if insertionIndex < classes.length ∧ className.length < driverClassMaxlen then
    some (1, classes.set insertionIndex (some className))
  else none

def countRecognized (metalanguages : List Metalanguage) : List ChildBop → Nat
  | [] => 0
  | childBop :: childBops =>
    match classMapEntry metalanguages childBop with
    | none => countRecognized metalanguages childBops
    | some _ => countRecognized metalanguages childBops + 1

def fillInClasses (metalanguages : List Metalanguage) (classes : List (Option String))
    (nClasses : Nat) : List ChildBop → Option State
  | [] => some ⟨some classes, nClasses⟩
  | childBop :: childBops =>
    match classMapEntry metalanguages childBop with
    | none => fillInClasses metalanguages classes nClasses childBops
    | some entry => do
        let className ← driverClasses[entry.classIndex]?
        let (filled, classes) ← fillInClass classes nClasses className
        fillInClasses metalanguages classes ((nClasses + filled) % 2 ^ 16) childBops

/-- `Driver::detectClasses`; `allocated` says whether there is memory for the array. -/
def detectClasses (metalanguages : List Metalanguage) (childBops : List ChildBop)
    (allocated : Bool) : Option (Kerror × State) :=
  let nRecognizedClasses := countRecognized metalanguages childBops
  if allocated = false then some (.memoryNomem, initialState)
  else if nRecognizedClasses = 0 then do
    let className ← driverClasses[1]?
    some (.success, ⟨some [some className], 1⟩)
  else do
    let state ← fillInClasses metalanguages (List.replicate nRecognizedClasses none) 0 childBops
    some (.success, state)

section

variable {metalanguages : List Metalanguage} {childBops : List ChildBop} {stored : List String}
  {className : String} {rows : Nat}

def className? (metalanguages : List Metalanguage) (childBop : ChildBop) : Option String :=
  (classMapEntry metalanguages childBop).bind fun entry => driverClasses[entry.classIndex]?

def IsClass (metalanguages : List Metalanguage) (childBops : List ChildBop) (name : String) : Prop :=
  let recognized := childBops.filterMap (className? metalanguages)
  if recognized = [] then name = "unrecognized" else name ∈ recognized

structure Stores (state : State) (stored : List String) : Prop where
  count : state.nClasses = stored.length
  rows : ∃ rest, state.classes = some (stored.map some ++ rest)

def Detected (metalanguages : List Metalanguage) (childBops : List ChildBop) (state : State) :
    Prop :=
  ∃ stored, Stores state stored ∧ stored.Nodup ∧
    ∀ name, name ∈ stored ↔ IsClass metalanguages childBops name

theorem driverClass_of_mem : ∀ entry ∈ driverClassMap,
    ∃ name ∈ driverClasses, driverClasses[entry.classIndex]? = some name ∧
      name.length < driverClassMaxlen := by
  decide

def array (stored : List String) (rows : Nat) : List (Option String) :=
  stored.map some ++ List.replicate (rows - stored.length) none

theorem duplicate_array (i left : Nat) (h : i + left = stored.length) :
    duplicate (array stored rows) className i left = some (decide (className ∈ stored.drop i)) := by
  induction left generalizing i with
  | zero =>
    rw [drop_eq_nil_of_le (by omega)]
    rfl
  | succ left ih =>
    have hlt : i < stored.length := by omega
    rw [duplicate, array, getElem?_append_left (by simpa using hlt), getElem?_map,
      getElem?_eq_getElem hlt, drop_eq_getElem_cons hlt]
    dsimp only [Option.map_some]
    rw [← array, ih (i + 1) (by omega)]
    split
    · next hsame => simp [hsame]
    · next hother => simp only [mem_cons, Ne.symm hother, false_or]

theorem fillInClass_array (hroom : stored.length < rows)
    (hlength : className.length < driverClassMaxlen) :
    fillInClass (array stored rows) stored.length className =
      if className ∈ stored then some (0, array stored rows)
      else some (1, array (stored ++ [className]) rows) := by
  have hadded : (array stored rows).set stored.length (some className) =
      array (stored ++ [className]) rows := by
    rw [array, set_append_right _ _ (by simp), array]
    simp only [length_map, Nat.sub_self, map_append, length_append,
      length_singleton, append_assoc]
    rw [show rows - stored.length = rows - (stored.length + 1) + 1 by omega,
      replicate_succ]
    rfl
  rw [fillInClass, duplicate_array 0 _ (Nat.zero_add _), some_bind, drop_zero, hadded]
  have hlen : stored.length < (array stored rows).length := by
    simp [array]
    omega
  split
  · next hold => simp_all
  · next hnew => simp_all

theorem className_of_entry {childBop : ChildBop} {entry : ClassMapEntry}
    (h : classMapEntry metalanguages childBop = some entry) :
    ∃ name ∈ driverClasses, driverClasses[entry.classIndex]? = some name ∧
      name.length < driverClassMaxlen ∧ className? metalanguages childBop = some name := by
  obtain ⟨metalanguage, -, hfind⟩ := Option.bind_eq_some_iff.mp h
  obtain ⟨name, hmem, hname, hlength⟩ := driverClass_of_mem entry (mem_of_find?_eq_some hfind)
  exact ⟨name, hmem, hname, hlength, by rw [className?, h, Option.bind_some, hname]⟩

theorem countRecognized_eq : countRecognized metalanguages childBops =
      (childBops.filterMap (className? metalanguages)).length := by
  induction childBops with
  | nil => rfl
  | cons childBop childBops ih =>
    rw [countRecognized]
    cases hentry : classMapEntry metalanguages childBop with
    | none =>
      have hnone : className? metalanguages childBop = none := by rw [className?, hentry]; rfl
      rw [filterMap_cons_none hnone]
      exact ih
    | some entry =>
      obtain ⟨name, -, -, -, hname⟩ := className_of_entry hentry
      rw [filterMap_cons_some hname, length_cons, ← ih]

theorem length_lt (hnodup : stored.Nodup) (hsub : stored ⊆ driverClasses) :
    stored.length < 2 ^ 16 := by
  have hle := (List.Nodup.subperm hnodup hsub).length_le
  exact hle.trans_lt (by decide)

theorem fillInClasses_stores (hnodup : stored.Nodup) (hsub : stored ⊆ driverClasses)
    (hrows : stored.length + countRecognized metalanguages childBops ≤ rows) : ∃ last, last.Nodup ∧
      fillInClasses metalanguages (array stored rows) stored.length childBops =
        some ⟨some (array last rows), last.length⟩ ∧ ∀ name, name ∈ last ↔ name ∈ stored ∨
        name ∈ childBops.filterMap (className? metalanguages) := by
  induction childBops generalizing stored with
  | nil => exact ⟨stored, hnodup, rfl, by simp⟩
  | cons childBop childBops ih =>
    rw [countRecognized] at hrows
    rw [fillInClasses]
    cases hentry : classMapEntry metalanguages childBop with
    | none =>
      have hnone : className? metalanguages childBop = none := by rw [className?, hentry]; rfl
      rw [hentry] at hrows
      rw [filterMap_cons_none hnone]
      exact ih hnodup hsub hrows
    | some entry =>
      obtain ⟨className, hclass, hindex, hlength, hname⟩ := className_of_entry hentry
      rw [hentry] at hrows
      dsimp only at hrows
      rw [filterMap_cons_some hname]
      dsimp only
      rw [hindex, some_bind,
        fillInClass_array (by omega) hlength]
      rcases Decidable.em (className ∈ stored) with hold | hnew
      · have hcount : (stored.length + 0) % 2 ^ 16 = stored.length :=
          Nat.mod_eq_of_lt (length_lt hnodup hsub)
        obtain ⟨last, hlast, hfill, hmem⟩ := ih hnodup hsub (by omega)
        refine ⟨last, hlast, ?_, ?_⟩
        · rw [if_pos hold, some_bind, hcount]
          exact hfill
        · intro name
          rw [hmem, mem_cons]
          constructor
          · rintro (h | h)
            · exact .inl h
            · exact .inr (.inr h)
          · rintro (h | rfl | h)
            · exact .inl h
            · exact .inl hold
            · exact .inr h
      · have hnodup' : (stored ++ [className]).Nodup :=
          nodup_append.mpr ⟨hnodup, pairwise_singleton _ _, by
            rintro name hin other hother rfl
            exact hnew (mem_singleton.mp hother ▸ hin)⟩
        have hsub' : stored ++ [className] ⊆ driverClasses :=
          append_subset.mpr ⟨hsub, cons_subset.mpr ⟨hclass, nil_subset _⟩⟩
        have hlen : (stored ++ [className]).length = stored.length + 1 := by simp
        have hcount : (stored.length + 1) % 2 ^ 16 = (stored ++ [className]).length := by
          rw [← hlen, Nat.mod_eq_of_lt (length_lt hnodup' hsub')]
        obtain ⟨last, hlast, hfill, hmem⟩ := ih hnodup' hsub' (by omega)
        refine ⟨last, hlast, ?_, ?_⟩
        · rw [if_neg hnew, some_bind, hcount]
          exact hfill
        · intro name
          rw [hmem, mem_append, mem_singleton, mem_cons, or_assoc]

/-- With memory for the array the classes are stored, each once; without it nothing is. -/
theorem detectClasses_detects (metalanguages : List Metalanguage) (childBops : List ChildBop)
    (allocated : Bool) :
    ∃ err state, detectClasses metalanguages childBops allocated = some (err, state) ∧
      if allocated then err = .success ∧ Detected metalanguages childBops state
      else err = .memoryNomem ∧ state = initialState := by
  cases allocated with
  | false => exact ⟨.memoryNomem, initialState, rfl, rfl, rfl⟩
  | true =>
    rw [detectClasses, if_neg (by simp)]
    rcases eq_zero_or_pos (countRecognized metalanguages childBops) with hzero | hpos
    · have hnone : childBops.filterMap (className? metalanguages) = [] := by
        rw [← length_eq_zero_iff, ← countRecognized_eq]
        exact hzero
      rw [if_pos hzero]
      refine ⟨.success, _, rfl, rfl, ["unrecognized"], ⟨rfl, [], rfl⟩,
        pairwise_singleton _ _, ?_⟩
      intro name
      rw [IsClass, if_pos hnone, mem_singleton]
    have hsome : childBops.filterMap (className? metalanguages) ≠ [] := by
      rw [countRecognized_eq] at hpos
      exact length_pos_iff.mp hpos
    obtain ⟨last, hlast, hfill, hmem⟩ := @fillInClasses_stores metalanguages childBops []
      (countRecognized metalanguages childBops) nodup_nil (nil_subset _)
      (zero_add _).le
    rw [if_neg hpos.ne', show replicate (countRecognized metalanguages childBops) none =
      array [] (countRecognized metalanguages childBops) from rfl]
    rw [length_nil] at hfill
    rw [hfill]
    refine ⟨.success, _, rfl, rfl, last, ⟨rfl, _, rfl⟩, hlast, ?_⟩
    intro name
    rw [IsClass, if_neg hsome, hmem]
    simp

theorem notAllocated_not_detected : ¬ ∀ metalanguages childBops allocated,
      ∃ err state, detectClasses metalanguages childBops allocated = some (err, state) ∧
        Detected metalanguages childBops state := by
  intro hclaim
  obtain ⟨err, state, hdetect, stored, hstores, -, hmem⟩ := hclaim [] [] false
  cases hdetect
  obtain ⟨rest, hrows⟩ := hstores.rows
  cases hrows

end

end Zambesii.DriverClasses
