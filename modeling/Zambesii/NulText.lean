import Mathlib.Data.List.TakeWhile
import Zambesii.KernelTypes

/-!
Texts in memory which end with a NUL. A character which is not in memory cannot be read, and one
outside of a buffer cannot be written.
-/

namespace Zambesii.NulText

open KernelTypes List

def nul : Char := '\x00'

def put (buffer : List Char) (index : Nat) (text : List Char) : Option (List Char) :=
  if index + text.length ≤ buffer.length then
    some (buffer.take index ++ (text ++ buffer.drop (index + text.length)))
  else none

def contents (buffer : List Char) : List Char :=
  buffer.takeWhile fun char => char ≠ nul

def strnlenFrom (memory : List Char) (str : Nat) (len : Nat) : (left : Nat) → Option Nat
  | 0 => some len
  | left + 1 => do
      let char ← memory[str + len]?
      if char = nul then some len else strnlenFrom memory str (len + 1) left

def strnlen8 (memory : List Char) (str maxLen : Nat) : Option Nat :=
  strnlenFrom memory str 0 maxLen

def nextFrom (memory : List Char) (path : Nat) (splitChar : Char) (i : Nat) :
    (left : Nat) → Option (Except Kerror Nat)
  | 0 => do
      let _ ← memory[path + i]?
      some (.error .invalidResourceName)
  | left + 1 => do
      let char ← memory[path + i]?
      if char = nul then some (.error .notFound)
      else if char = splitChar then some (.ok i)
      else nextFrom memory path splitChar (i + 1) left

def getIndexOfNext (memory : List Char) (path : Nat) (splitChar : Char) (maxLength : Nat) :
    Option (Except Kerror Nat) :=
  nextFrom memory path splitChar 0 maxLength

section

variable {memory front rest : List Char} {start i left : Nat} {char splitChar : Char}

theorem put_of_le {buffer : List Char} {index : Nat} {text : List Char}
    (h : index + text.length ≤ buffer.length) :
    ∃ next, put buffer index text = some next ∧ next.length = buffer.length ∧
      next.take index = buffer.take index ∧
      next.drop index = text ++ buffer.drop (index + text.length) := by
  have htake : (buffer.take index).length = index := length_take_of_le (by omega)
  refine ⟨_, if_pos h, ?_, take_left' htake, drop_left' htake⟩
  simp
  omega

theorem put_of_lt {buffer : List Char} {index : Nat} {text : List Char}
    (h : buffer.length < index + text.length) : put buffer index text = none :=
  if_neg (by omega)

theorem getElem?_of_drop (h : memory.drop start = char :: rest) : memory[start]? = some char := by
  rw [← head?_drop, h]
  rfl

theorem drop_succ_of_drop (h : memory.drop start = char :: rest) :
    memory.drop (start + 1) = rest := by
  rw [← drop_drop, h]
  rfl

theorem exists_split (splitChar : Char) (text : List Char) :
    splitChar ∉ text ∨ ∃ front rest, text = front ++ splitChar :: rest ∧ splitChar ∉ front := by
  rcases Decidable.em (splitChar ∈ text) with hmem | hnone
  · obtain ⟨front, rest, rfl, hfront⟩ := eq_append_cons_of_mem hmem
    exact .inr ⟨front, rest, rfl, hfront⟩
  · exact .inl hnone

theorem takeWhile_of_notMem (hfront : splitChar ∉ front) :
    front.takeWhile (fun char => char ≠ splitChar) = front := by
  rw [takeWhile_eq_self_iff]
  intro char hmem
  simpa using fun heq : char = splitChar => hfront (heq ▸ hmem)

theorem takeWhile_append (hfront : splitChar ∉ front) :
    (front ++ splitChar :: rest).takeWhile (fun char => char ≠ splitChar) = front := by
  rw [takeWhile_append_of_pos, takeWhile_cons_of_neg (by simp), append_nil]
  intro char hmem
  simpa using fun heq : char = splitChar => hfront (heq ▸ hmem)

variable (hfront : nul ∉ front)

include hfront

theorem contents_append : contents (front ++ nul :: rest) = front :=
  takeWhile_append hfront

variable (hsplit : splitChar ∉ front)

include hsplit

theorem nextFrom_append (h : memory.drop (start + i) = front ++ rest) :
    nextFrom memory start splitChar i (front.length + left) =
        nextFrom memory start splitChar (i + front.length) left ∧
      memory.drop (start + (i + front.length)) = rest := by
  induction front generalizing i with
  | nil => simpa using h
  | cons char front ih =>
    obtain ⟨hchar, hfront⟩ := not_or.mp fun hmem => hfront (mem_cons.mpr hmem)
    obtain ⟨hother, hsplit⟩ := not_or.mp fun hmem => hsplit (mem_cons.mpr hmem)
    have hnext := @ih (i + 1) hfront hsplit (drop_succ_of_drop h)
    rw [length_cons, show i + (front.length + 1) = i + 1 + front.length by omega,
      add_right_comm, nextFrom, getElem?_of_drop h, some_bind,
      if_neg fun heq => hchar heq.symm, if_neg fun heq => hother heq.symm]
    exact hnext

theorem getIndexOfNext_found
    (hne : splitChar ≠ nul) (h : memory.drop start = front ++ splitChar :: rest)
    (hleft : front.length < left) :
    getIndexOfNext memory start splitChar left = some (.ok front.length) := by
  obtain ⟨behind, rfl⟩ := Nat.exists_eq_add_of_lt hleft
  obtain ⟨hnext, hdrop⟩ := @nextFrom_append memory front _ start 0 (behind + 1) splitChar hfront
    hsplit h
  rw [getIndexOfNext, add_assoc, hnext, nextFrom, getElem?_of_drop hdrop]
  simp [hne]

theorem getIndexOfNext_limit
    (h : memory.drop start = front ++ char :: rest) (hleft : left ≤ front.length) :
    getIndexOfNext memory start splitChar left = some (.error .invalidResourceName) := by
  have htake : (front.take left).length = left := length_take_of_le hleft
  have hdrop : memory.drop start = front.take left ++ (front.drop left ++ char :: rest) := by
    rw [← append_assoc, take_append_drop, h]
  obtain ⟨hnext, hbehind⟩ := @nextFrom_append memory (front.take left) _ start 0 0 splitChar
    (fun hmem => hfront (mem_of_mem_take hmem))
    (fun hmem => hsplit (mem_of_mem_take hmem)) hdrop
  obtain ⟨other, others, hcons⟩ := exists_cons_of_ne_nil
    (append_ne_nil_of_right_ne_nil (front.drop left) (cons_ne_nil char rest))
  rw [htake, add_zero] at hnext
  rw [htake, hcons] at hbehind
  rw [getIndexOfNext, hnext, nextFrom, getElem?_of_drop hbehind]
  rfl

theorem getIndexOfNext_end
    (h : memory.drop start = front ++ nul :: rest) (hleft : front.length < left) :
    getIndexOfNext memory start splitChar left = some (.error .notFound) := by
  obtain ⟨behind, rfl⟩ := Nat.exists_eq_add_of_lt hleft
  obtain ⟨hnext, hdrop⟩ := @nextFrom_append memory front _ start 0 (behind + 1) splitChar hfront
    hsplit h
  rw [getIndexOfNext, add_assoc, hnext, nextFrom, getElem?_of_drop hdrop]
  simp

omit hsplit

theorem strnlenFrom_append (h : memory.drop (start + i) = front ++ rest) :
    strnlenFrom memory start i (front.length + left) =
        strnlenFrom memory start (i + front.length) left ∧
      memory.drop (start + (i + front.length)) = rest := by
  induction front generalizing i with
  | nil => simpa using h
  | cons char front ih =>
    obtain ⟨hchar, hfront⟩ := not_or.mp fun hmem => hfront (mem_cons.mpr hmem)
    have hnext := @ih (i + 1) hfront (drop_succ_of_drop h)
    rw [length_cons, show i + (front.length + 1) = i + 1 + front.length by omega,
      add_right_comm, strnlenFrom, getElem?_of_drop h, some_bind,
        if_neg fun heq => hchar heq.symm]
    exact hnext

theorem strnlen8_eq (h : memory.drop start = front ++ nul :: rest) :
    strnlen8 memory start left = some (min front.length left) := by
  rcases lt_or_ge front.length left with hlt | hge
  · obtain ⟨behind, rfl⟩ := Nat.exists_eq_add_of_lt hlt
    obtain ⟨hlen, hdrop⟩ := @strnlenFrom_append memory front _ start 0 (behind + 1) hfront h
    rw [strnlen8, add_assoc, hlen, strnlenFrom, getElem?_of_drop hdrop]
    simp
  have htake : (front.take left).length = left := length_take_of_le hge
  have hsplit : memory.drop start = front.take left ++ (front.drop left ++ nul :: rest) := by
    rw [← append_assoc, take_append_drop, h]
  have hlen := (@strnlenFrom_append memory (front.take left) _ start 0 0
    (fun hmem => hfront (mem_of_mem_take hmem)) hsplit).1
  rw [htake, add_zero, zero_add] at hlen
  rw [strnlen8, hlen, min_eq_right hge]
  rfl

omit hfront

end

end Zambesii.NulText
