import Mathlib.Order.Interval.Finset.Nat

/-!
Spans of a linear address range, and when a collection of them covers a range
exactly once. Allocators that split and join spans keep such a tiling.
-/

namespace Zambesii.Tiling

open Multiset

abbrev Span := ℕ × ℕ

def units (span : Span) : Multiset ℕ :=
  Multiset.Ico span.1 (span.1 + span.2)

def cover (spans : Multiset Span) : Multiset ℕ :=
  (spans.map units).sum

/-- The spans cover each address of `[low, high)` once, and no other address. -/
def Tiles (spans : Multiset Span) (low high : ℕ) : Prop :=
  cover spans = Multiset.Ico low high

@[simp] theorem mem_units {span : Span} {address : ℕ} :
    address ∈ units span ↔ span.1 ≤ address ∧ address < span.1 + span.2 := by
  simp [units]

@[simp] theorem units_zero_length (start : ℕ) : units (start, 0) = 0 := by
  simp [units]

@[simp] theorem cover_zero : cover 0 = 0 := by
  simp [cover]

@[simp] theorem cover_cons (span : Span) (spans : Multiset Span) :
    cover (span ::ₘ spans) = units span + cover spans := by
  simp [cover]

@[simp] theorem cover_singleton (span : Span) : cover {span} = units span := by
  simp [cover]

@[simp] theorem cover_add (spans spans' : Multiset Span) :
    cover (spans + spans') = cover spans + cover spans' := by
  simp [cover]

theorem units_add (start length length' : ℕ) :
    units (start, length + length') = units (start, length) + units (start + length, length') := by
  simp only [units]
  rw [Multiset.Ico_add_Ico_eq_Ico (by omega) (by omega)]
  simp only [add_assoc]

theorem units_split {start length part : ℕ} (h : part ≤ length) :
    units (start, length) = units (start, part) + units (start + part, length - part) := by
  rw [← units_add, Nat.add_sub_cancel' h]

theorem mem_cover {spans : Multiset Span} {address : ℕ} :
    address ∈ cover spans ↔ ∃ span ∈ spans, address ∈ units span := by
  induction spans using Multiset.induction with
  | empty => simp
  | cons span spans ih => simp [ih]

theorem units_le_cover {span : Span} {spans : Multiset Span} (h : span ∈ spans) :
    units span ≤ cover spans := by
  obtain ⟨rest, rfl⟩ := exists_cons_of_mem h
  rw [cover_cons]
  exact le_add_right _ _

section

variable {spans rest : Multiset Span} {low high : ℕ}

theorem tiles_singleton {low high : ℕ} (h : low ≤ high) : Tiles {(low, high - low)} low high := by
  rw [Tiles, ← cons_zero, cover_cons, cover_zero, add_zero, units, Nat.add_sub_cancel' h]

theorem Tiles.bounds (h : Tiles spans low high) {span : Span} (hmem : span ∈ spans)
    (hlength : 0 < span.2) : low ≤ span.1 ∧ span.1 + span.2 ≤ high := by
  have hsub := subset_of_le (units_le_cover hmem)
  rw [h] at hsub
  have hfirst : span.1 ∈ Multiset.Ico low high := hsub (mem_units.mpr (by omega))
  have hlast : span.1 + span.2 - 1 ∈ Multiset.Ico low high := hsub (mem_units.mpr (by omega))
  rw [mem_Ico] at hfirst hlast
  omega

theorem Tiles.disjoint {first second : Span} (h : Tiles (first ::ₘ second ::ₘ rest) low high) :
    Disjoint (units first) (units second) := by
  have hnodup : (cover (first ::ₘ second ::ₘ rest)).Nodup := by
    rw [h]
    exact nodup_Ico
  rw [cover_cons, cover_cons, ← add_assoc] at hnodup
  exact (nodup_add.mp (nodup_add.mp hnodup).1).2.2

theorem separate_of_disjoint {first second : Span} (h : Disjoint (units first) (units second))
    (hfirst : 0 < first.2) (hsecond : 0 < second.2) :
    first.1 + first.2 ≤ second.1 ∨ second.1 + second.2 ≤ first.1 := by
  by_contra hoverlap
  have hmem : max first.1 second.1 ∈ units first := mem_units.mpr (by omega)
  have hmem' : max first.1 second.1 ∈ units second := mem_units.mpr (by omega)
  exact disjoint_left.mp h hmem hmem'

theorem Tiles.separate {first second : Span} (h : Tiles (first ::ₘ second ::ₘ rest) low high)
    (hfirst : 0 < first.2) (hsecond : 0 < second.2) :
    first.1 + first.2 ≤ second.1 ∨ second.1 + second.2 ≤ first.1 :=
  separate_of_disjoint h.disjoint hfirst hsecond

theorem card_cover (spans : Multiset Span) : (cover spans).card = (spans.map Prod.snd).sum := by
  induction spans using Multiset.induction with
  | empty => simp
  | cons span spans ih => simp [ih, units, Multiset.Ico]

theorem Tiles.sum_lengths (h : Tiles spans low high) : (spans.map Prod.snd).sum = high - low := by
  rw [← card_cover, h]
  simp [Multiset.Ico]

end

end Zambesii.Tiling
