import Mathlib.Data.List.Induction

/-!
What has happened last in a run, and not been undone since.
-/

namespace Zambesii.RunHistory

open List

variable {α : Type*} {P Q : List α → α → Prop}

/-- `item` is one at which `P` holds, and `Q` has not held at a later one. Both are about an item
and those before it. -/
def Since (P Q : List α → α → Prop) (run : List α) (item : α) : Prop :=
  ∃ first last, run = first ++ item :: last ∧ P first item ∧
    ∀ between later rest, last = between ++ later :: rest → ¬ Q (first ++ item :: between) later

/-- `P` holds at each item of the run. -/
def Always (P : List α → α → Prop) (run : List α) : Prop :=
  ∀ first item last, run = first ++ item :: last → P first item

theorem not_since_nil (item : α) : ¬ Since P Q [] item := by
  rintro ⟨first, last, heq, -⟩
  simp at heq

theorem Since.mem {run : List α} {item : α} (h : Since P Q run item) : item ∈ run := by
  obtain ⟨first, last, rfl, -⟩ := h
  simp

theorem since_concat_iff {run : List α} {next item : α} : Since P Q (run ++ [next]) item ↔
      item = next ∧ P run next ∨ Since P Q run item ∧ ¬ Q run next := by
  constructor
  · rintro ⟨first, last, heq, hholds, hnot⟩
    rcases eq_nil_or_concat last with rfl | ⟨before, final, rfl⟩
    · obtain ⟨rfl, hsingle⟩ := append_inj' heq rfl
      obtain rfl := (cons.inj hsingle).1
      exact .inl ⟨rfl, hholds⟩
    rw [concat_eq_append, ← cons_append, ← append_assoc] at heq
    obtain ⟨rfl, hsingle⟩ := append_inj' heq rfl
    obtain rfl := (cons.inj hsingle).1
    refine .inr ⟨⟨first, before, rfl, hholds, ?_⟩, ?_⟩
    · rintro between later rest rfl
      exact hnot between later (rest ++ [next]) (by simp)
    · exact hnot before next [] (by simp)
  · rintro (⟨rfl, hholds⟩ | ⟨⟨first, last, rfl, hholds, hnot⟩, hnext⟩)
    · refine ⟨run, [], rfl, hholds, ?_⟩
      intro between later rest heq
      simp at heq
    · refine ⟨first, last ++ [next], by simp, hholds, ?_⟩
      intro between later rest heq
      rcases eq_nil_or_concat rest with rfl | ⟨before, final, rfl⟩
      · obtain ⟨rfl, hsingle⟩ := append_inj' heq rfl
        obtain rfl := (cons.inj hsingle).1
        exact hnext
      · rw [concat_eq_append, ← cons_append, ← append_assoc] at heq
        obtain ⟨rfl, -⟩ := append_inj' heq rfl
        exact hnot between later before rfl

theorem always_nil : Always P [] := by
  intro first item last heq
  simp at heq

theorem always_concat_iff {run : List α} {next : α} :
    Always P (run ++ [next]) ↔ Always P run ∧ P run next := by
  constructor
  · intro h
    refine ⟨?_, h run next [] rfl⟩
    rintro first item last rfl
    exact h first item (last ++ [next]) (by simp)
  · rintro ⟨hrun, hnext⟩ first item last heq
    rcases eq_nil_or_concat last with rfl | ⟨before, final, rfl⟩
    · obtain ⟨rfl, hsingle⟩ := append_inj' heq rfl
      obtain rfl := (cons.inj hsingle).1
      exact hnext
    · rw [concat_eq_append, ← cons_append, ← append_assoc] at heq
      obtain ⟨rfl, -⟩ := append_inj' heq rfl
      exact hrun first item before rfl

end Zambesii.RunHistory
