import Mathlib.Data.List.Basic

/-!
Bytes at addresses. An access outside of what is allocated is a fault.
-/

namespace Zambesii.ByteMemory

open List

abbrev Memory := Nat → Option UInt8

def block (base size : Nat) (contents : Nat → UInt8) : Memory :=
  fun address =>
    if base ≤ address ∧ address < base + size then some (contents address) else none

def Allocated (memory : Memory) (address length : Nat) : Prop :=
  ∀ i, i < length → (memory (address + i)).isSome = true

instance (memory : Memory) (address length : Nat) : Decidable (Allocated memory address length) :=
  inferInstanceAs (Decidable (∀ i, i < length → (memory (address + i)).isSome = true))

def store (memory : Memory) (address : Nat) (bytes : List UInt8) : Option Memory :=
  if Allocated memory address bytes.length then
    some fun other =>
      if address ≤ other ∧ other < address + bytes.length then bytes[other - address]?
      else memory other
  else none

def load (memory : Memory) (address : Nat) : (length : Nat) → Option (List UInt8)
  | 0 => some []
  | length + 1 => do
      let byte ← memory address
      let bytes ← load memory (address + 1) length
      some (byte :: bytes)

theorem allocated_block {base size address length : Nat} (contents : Nat → UInt8)
    (hlow : base ≤ address) (hhigh : address + length ≤ base + size) :
    Allocated (block base size contents) address length := by
  intro i hi
  rw [block, if_pos (by omega)]
  rfl

theorem Allocated.store {memory : Memory} {address : Nat} {bytes : List UInt8}
    (h : Allocated memory address bytes.length) :
    ∃ memory', ByteMemory.store memory address bytes = some memory' ∧
      (∀ start length, Allocated memory start length → Allocated memory' start length) ∧
      ∀ i, i < bytes.length → memory' (address + i) = bytes[i]? := by
  refine ⟨_, if_pos h, ?_, ?_⟩
  · intro start length hallocated i hi
    dsimp only
    split
    · rw [getElem?_eq_getElem (by omega)]
      rfl
    · exact hallocated i hi
  · intro i hi
    rw [if_pos (by omega), Nat.add_sub_cancel_left]

theorem load_eq {memory : Memory} {address : Nat} {bytes : List UInt8}
    (h : ∀ i, i < bytes.length → memory (address + i) = bytes[i]?) :
    load memory address bytes.length = some bytes := by
  induction bytes generalizing address with
  | nil => rfl
  | cons byte bytes ih =>
    have hfirst : memory address = some byte := h 0 (by simp)
    have hrest : load memory (address + 1) bytes.length = some bytes := by
      apply ih
      intro i hi
      have hnext := h (i + 1) (by simpa using hi)
      rwa [Nat.add_comm i 1, ← Nat.add_assoc, Nat.add_comm 1 i, getElem?_cons_succ] at hnext
    simp [load, hfirst, hrest]

theorem load_congr {memory memory' : Memory} {address length : Nat}
    (h : ∀ i, i < length → memory' (address + i) = memory (address + i)) :
    load memory' address length = load memory address length := by
  induction length generalizing address with
  | zero => rfl
  | succ length ih =>
    have hrest : load memory' (address + 1) length = load memory (address + 1) length := by
      apply ih
      intro i hi
      rw [Nat.add_assoc, Nat.add_comm 1 i]
      exact h (i + 1) (by omega)
    rw [load, load, hrest, show memory' address = memory address from h 0 (by omega)]

structure Write where
  address : Nat
  bytes : List UInt8

def Write.Apart (first second : Write) : Prop :=
  first.address + first.bytes.length ≤ second.address ∨
    second.address + second.bytes.length ≤ first.address

def Write.Loads (memory : Memory) (write : Write) : Prop :=
  load memory write.address write.bytes.length = some write.bytes

def storeAll (memory : Memory) (writes : List Write) : Option Memory :=
  writes.foldlM (fun memory write => store memory write.address write.bytes) memory

theorem store_nil (memory : Memory) (address : Nat) : store memory address [] = some memory := by
  refine congrArg some (funext fun other => if_neg ?_)
  rw [length_nil]
  omega

theorem Write.Loads.store {memory memory' : Memory} {write other : Write}
    (h : write.Loads memory) (hapart : write.Apart other)
    (hstore : store memory other.address other.bytes = some memory') : write.Loads memory' := by
  rw [ByteMemory.store] at hstore
  split at hstore
  · cases hstore
    refine (load_congr fun i hi => if_neg ?_).trans h
    rcases hapart with hbefore | hbehind
    · omega
    · omega
  · cases hstore

theorem exists_storeAll {memory : Memory} {writes done : List Write}
    (hallocated : ∀ write ∈ writes, Allocated memory write.address write.bytes.length)
    (hapart : (done ++ writes).Pairwise Write.Apart) (hdone : ∀ write ∈ done, write.Loads memory) :
    ∃ memory', storeAll memory writes = some memory' ∧
      ∀ write ∈ done ++ writes, write.Loads memory' := by
  induction writes generalizing memory done with
  | nil => exact ⟨memory, rfl, by simpa using hdone⟩
  | cons write writes ih =>
    obtain ⟨hfirst, hrest⟩ := forall_mem_cons.mp hallocated
    obtain ⟨memory', hstore, hkeep, hbytes⟩ := hfirst.store
    rw [append_cons] at hapart ⊢
    have hbefore := (pairwise_append.mp (pairwise_append.mp hapart).1).2.2
    obtain ⟨last, hlast, hloads⟩ := ih (fun other hmem => hkeep _ _ (hrest other hmem)) hapart
      (fun other hmem => by
        rcases mem_append.mp hmem with hold | hnew
        · exact (hdone other hold).store (hbefore other hold write mem_cons_self) hstore
        · obtain rfl := mem_singleton.mp hnew
          exact load_eq hbytes)
    exact ⟨last, by rw [storeAll, foldlM_cons, hstore]; exact hlast, hloads⟩

end Zambesii.ByteMemory
