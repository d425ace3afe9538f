import Mathlib.Algebra.Group.Nat.Defs
import Mathlib.Data.List.Nodup

/-!
A table of objects that is replaced by a longer one for every entry added, with its length in
a counter of fixed width.
-/

namespace Zambesii.CountedTable

open List Nat

/-- The objects of the table by their identity; `nextId` is one that no object has had. -/
structure Table (Entry : Type) where
  array : List (Nat × Entry)
  count : Nat
  nextId : Nat
deriving DecidableEq

namespace Table

variable {Entry Key : Type}

def empty : Table Entry := ⟨[], 0, 0⟩

def counted (table : Table Entry) : List (Nat × Entry) := table.array.take table.count

/-- A copy of what is counted with one more object behind it. The objects that were not
counted are deleted. -/
def extend (table : Table Entry) (entry : Entry) : Table Entry :=
  { table with
    array := table.counted ++ [(table.nextId, entry)]
    nextId := table.nextId + 1 }

def append (width : Nat) (table : Table Entry) (entry : Entry) : Table Entry :=
  { table.extend entry with count := (table.count + 1) % 2 ^ width }

def find [DecidableEq Key] (key : Entry → Key) (table : Table Entry) (wanted : Key) : Option Nat :=
  (table.counted.find? fun object => key object.2 = wanted).map Prod.fst

def overwrite (table : Table Entry) (id : Nat) (entry : Entry) : Option (Table Entry) :=
  if id ∈ table.array.map Prod.fst then
    some { table with
      array := table.array.map fun object => if object.1 = id then (id, entry) else object }
  else none

def Has (key : Entry → Key) (table : Table Entry) (wanted : Key) : Prop :=
  ∃ object ∈ table.counted, key object.2 = wanted

structure Sound (key : Entry → Key) (width : Nat) (table : Table Entry) : Prop where
  count_le : table.count ≤ table.array.length
  count_lt : table.count < 2 ^ width
  nodup_ids : (table.array.map Prod.fst).Nodup
  id_lt : ∀ object ∈ table.array, object.1 < table.nextId
  nodup_keys : (table.counted.map fun object => key object.2).Nodup

variable {key : Entry → Key} {width : Nat} {table : Table Entry} {entry : Entry}

instance [DecidableEq Key] (wanted : Key) : Decidable (table.Has key wanted) :=
  inferInstanceAs (Decidable (∃ object ∈ table.counted, key object.2 = wanted))

theorem sound_empty : (empty : Table Entry).Sound key width where
  count_le := Nat.le_refl 0
  count_lt := Nat.two_pow_pos width
  nodup_ids := nodup_nil
  id_lt := by
    intro object hobject
    cases hobject
  nodup_keys := nodup_nil

theorem mem_array_of_mem_counted {object : Nat × Entry} (h : object ∈ table.counted) :
    object ∈ table.array :=
  mem_of_mem_take h

theorem find_eq_some [DecidableEq Key] {wanted : Key} {id : Nat}
    (h : table.find key wanted = some id) :
    ∃ old, (id, old) ∈ table.counted ∧ key old = wanted := by
  rw [find, Option.map_eq_some_iff] at h
  obtain ⟨⟨id', old⟩, hfind, rfl⟩ := h
  exact ⟨old, mem_of_find?_eq_some hfind, of_decide_eq_true (find?_some hfind :)⟩

namespace Sound

variable (h : table.Sound key width)

include h

theorem length_counted : table.counted.length = table.count := by
  rw [counted, length_take, Nat.min_eq_left h.count_le]

theorem nodup_ids_counted : (table.counted.map Prod.fst).Nodup := by
  rw [counted, map_take]
  exact h.nodup_ids.sublist (take_sublist _ _)

theorem counted_extend : (table.extend entry).counted = table.counted := by
  rw [counted, extend]
  rw [take_append_of_le_length (Nat.le_of_eq h.length_counted.symm),
    take_of_length_le (Nat.le_of_eq h.length_counted)]

theorem extend (entry : Entry) : (table.extend entry).Sound key width where
  count_le := by
    rw [Table.extend, length_append, h.length_counted]
    exact le_succ _
  count_lt := h.count_lt
  nodup_ids := by
    rw [Table.extend, map_append, map_singleton]
    refine h.nodup_ids_counted.append (nodup_singleton _) ?_
    rw [disjoint_singleton, mem_map]
    rintro ⟨object, hobject, hid⟩
    have hlt := h.id_lt object (mem_array_of_mem_counted hobject)
    omega
  id_lt := by
    intro object hobject
    rw [Table.extend, mem_append, mem_singleton] at hobject
    rcases hobject with hold | rfl
    · exact lt_succ_of_lt (h.id_lt object (mem_array_of_mem_counted hold))
    · exact lt_succ_self _
  nodup_keys := by
    rw [h.counted_extend]
    exact h.nodup_keys

theorem counted_append (entry : Entry) (hroom : table.count + 1 < 2 ^ width) :
    (table.append width entry).counted = table.counted ++ [(table.nextId, entry)] := by
  rw [append, counted, mod_eq_of_lt hroom]
  refine take_of_length_le ?_
  rw [Table.extend, length_append, h.length_counted]
  exact Nat.le_refl _

theorem counted_append_of_wrap (entry : Entry)
    (hfull : ¬table.count + 1 < 2 ^ width) : (table.append width entry).counted = [] := by
  have hcount : table.count + 1 = 2 ^ width := by
    have hlt := h.count_lt
    omega
  rw [append, counted, hcount, mod_self, take_zero]

theorem append (hroom : table.count + 1 < 2 ^ width)
    (hnew : ¬table.Has key (key entry)) : (table.append width entry).Sound key width where
  count_le := by
    rw [Table.append, Table.extend, length_append, h.length_counted, mod_eq_of_lt hroom]
    exact Nat.le_refl _
  count_lt := Nat.mod_lt _ (Nat.two_pow_pos width)
  nodup_ids := (h.extend entry).nodup_ids
  id_lt := (h.extend entry).id_lt
  nodup_keys := by
    rw [h.counted_append entry hroom, map_append, map_singleton]
    refine h.nodup_keys.append (nodup_singleton _) ?_
    rw [disjoint_singleton, mem_map]
    exact hnew

theorem has_append (entry : Entry) (hroom : table.count + 1 < 2 ^ width) (wanted : Key) :
    (table.append width entry).Has key wanted ↔ table.Has key wanted ∨ key entry = wanted := by
  simp [Has, h.counted_append entry hroom]

theorem eq_of_id_eq {object other : Nat × Entry}
    (hobject : object ∈ table.counted) (hother : other ∈ table.counted)
    (hid : object.1 = other.1) : object = other :=
  inj_on_of_nodup_map h.nodup_ids_counted hobject hother hid

theorem overwrite {id : Nat} {old : Entry}
    (hold : (id, old) ∈ table.counted) (hkey : key old = key entry) :
    ∃ table', table.overwrite id entry = some table' ∧ table'.Sound key width ∧
      (∀ object ∈ table.counted, ∃ entry', (object.1, entry') ∈ table'.counted ∧
        key entry' = key object.2) ∧
      ∀ object ∈ table'.counted, object ∈ table.counted ∨ object.2 = entry := by
  let write : Nat × Entry → Nat × Entry :=
    fun object => if object.1 = id then (id, entry) else object
  have hfst : ∀ object, (write object).1 = object.1 := by
    intro object
    dsimp only [write]
    split
    · rename_i heq
      exact heq.symm
    · rfl
  have hkeys : ∀ object ∈ table.counted, key (write object).2 = key object.2 := by
    intro object hobject
    dsimp only [write]
    split
    · rename_i heq
      rw [h.eq_of_id_eq hobject hold heq]
      exact hkey.symm
    · rfl
  have hmem : id ∈ table.array.map Prod.fst :=
    mem_map.mpr ⟨(id, old), mem_array_of_mem_counted hold, rfl⟩
  let table' : Table Entry := { table with array := table.array.map write }
  have hcounted : table'.counted = table.counted.map write := (map_take ..).symm
  refine ⟨table', if_pos hmem, ⟨?_, h.count_lt, ?_, ?_, ?_⟩, ?_, ?_⟩
  · rw [length_map]
    exact h.count_le
  · have hids : table'.array.map Prod.fst = table.array.map Prod.fst := by
      rw [map_map]
      exact map_congr_left fun object _ => hfst object
    rw [hids]
    exact h.nodup_ids
  · intro object hobject
    obtain ⟨object', hobject', rfl⟩ := mem_map.mp hobject
    rw [hfst]
    exact h.id_lt object' hobject'
  · have hsame : (table'.counted.map fun object => key object.2) =
        table.counted.map fun object => key object.2 := by
      rw [hcounted, map_map]
      exact map_congr_left hkeys
    rw [hsame]
    exact h.nodup_keys
  · intro object hobject
    refine ⟨(write object).2, ?_, hkeys object hobject⟩
    rw [hcounted, ← hfst object]
    exact mem_map.mpr ⟨object, hobject, rfl⟩
  · intro object hobject
    rw [hcounted, mem_map] at hobject
    obtain ⟨object', hobject', rfl⟩ := hobject
    dsimp only [write]
    split
    · exact .inr rfl
    · exact .inl hobject'

omit h

end Sound

end Table

end Zambesii.CountedTable
