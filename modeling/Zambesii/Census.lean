import Mathlib.Algebra.Order.BigOperators.Group.Finset

/-!
How many members of a finite group are in a given condition, and how the number changes
when one member moves on.
-/

namespace Zambesii.Census

open Function

variable {C α : Type*} [Fintype C] [DecidableEq C]

omit [DecidableEq C] in
/-- The number of members in a condition that meets `p`. -/
def count (p : α → Bool) (state : C → α) : Nat :=
  ∑ c, (p (state c)).toNat

theorem count_update (p : α → Bool) (state : C → α) (c : C) (next : α) :
    count p (update state c next) + (p (state c)).toNat = count p state + (p next).toNat := by
  have hrest : ∑ d ∈ Finset.univ.erase c, (p (update state c next d)).toNat =
      ∑ d ∈ Finset.univ.erase c, (p (state d)).toNat := by
    apply Finset.sum_congr rfl
    intro d hd
    rw [update_of_ne (Finset.ne_of_mem_erase hd)]
  unfold count
  rw [← Finset.add_sum_erase _ _ (Finset.mem_univ c), hrest, update_self,
    ← Finset.add_sum_erase (Finset.univ) (fun d => (p (state d)).toNat) (Finset.mem_univ c)]
  omega

omit [DecidableEq C] in
theorem count_le_card (p : α → Bool) (state : C → α) : count p state ≤ Fintype.card C := by
  have hone : ∀ c ∈ Finset.univ, (p (state c)).toNat ≤ 1 := fun c _ => Bool.toNat_le _
  have hsum := Finset.sum_le_card_nsmul Finset.univ _ 1 hone
  simpa [count] using hsum

omit [DecidableEq C] in
theorem count_eq_zero_iff (p : α → Bool) (state : C → α) :
    count p state = 0 ↔ ∀ c, p (state c) = false := by
  simp [count, Finset.sum_eq_zero_iff]

omit [DecidableEq C] in
theorem count_pos_iff (p : α → Bool) (state : C → α) :
    0 < count p state ↔ ∃ c, p (state c) = true := by
  rw [pos_iff_ne_zero, Ne, count_eq_zero_iff]
  simp

theorem eq_of_count_le_one {p : α → Bool} {state : C → α} (h : count p state ≤ 1) {c d : C}
    (hc : p (state c) = true) (hd : p (state d) = true) : c = d := by
  rcases eq_or_ne c d with heq | hne
  · exact heq
  have hupdate : ∑ e ∈ Finset.univ.erase c, (p (state e)).toNat = 0 := by
    have hsplit := Finset.add_sum_erase Finset.univ (fun e => (p (state e)).toNat)
      (Finset.mem_univ c)
    unfold count at h
    simp only [hc, Bool.toNat_true] at hsplit
    omega
  have hzero := Finset.sum_eq_zero_iff.mp hupdate d
    (Finset.mem_erase.mpr ⟨hne.symm, Finset.mem_univ d⟩)
  simp [hd] at hzero

end Zambesii.Census
